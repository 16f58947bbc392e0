import ReverseMcp.Broker.Isolation
import ReverseMcp.Core.Protocol

/-!
# What a disposable worker is said to have done

One call of `run_isolated` from beginning to end, for every behaviour of the worker: the hello
frame, and what comes back for each of the three requests.  The errors of the sequence are strings,
whether the worker has sent them or its stream has broken, and behind the sequence nothing tells
them apart.
-/

namespace ReverseMcp

open Rust

/-! ## The worker -/

/-- What the handshake meets. -/
inductive Greeting where
  | frame (protocol : ℕ)
  | frameError (e : String)
  /-- The end of the stream. -/
  | closed
  /-- Nothing until the budget is spent. -/
  | silent
deriving DecidableEq

/-- What a request meets. -/
inductive Answer where
  | writeError (e : String)
  | frameError (e : String)
  | closed
  | silent
  | response (r : Protocol.WorkerResponse)
deriving DecidableEq

/-- A worker, as what it does when it is asked. -/
structure Behaviour where
  hello : Greeting
  select : Answer
  open_ : Answer
  risky : Answer
deriving DecidableEq

/-- What the read of the hello frame gives. -/
def Greeting.reply : Greeting → IsoReply
  | frame protocol => .hello protocol
  | frameError e => .failed (some e)
  | closed => .failed none
  | silent => .timedOut

/-- The loop over the requests, from the `i`-th on. -/
def sequence (i : ℕ) : List (String × Answer) → IsoReply
  | [] => .failed none
  | (_, .writeError e) :: _ => .failed (some s!"stdin write: {e}")
  | (_, .frameError e) :: _ => .failed (some s!"frame error: {e}")
  | (_, .closed) :: _ => .failed (some "disposable worker died mid-sequence")
  | (_, .silent) :: _ => .timedOut
  | (method, .response r) :: rest =>
    match r.error with
    | some e => .failed (some s!"{method}: {e.code} {e.message}")
    | none => if i = 2 then .value (r.result.getD .null) else sequence (i + 1) rest

namespace Behaviour

/-- The requests with what they meet. -/
def requests (b : Behaviour) (method : String) : List (String × Answer) :=
  [("backend.select", b.select), ("db.open", b.open_), (method, b.risky)]

/-- What a call meets at a point. -/
def reply (b : Behaviour) (method : String) : IsoPoint → IsoReply
  | .hello => b.hello.reply
  | .sequence => sequence 0 (b.requests method)
  | _ => .done

end Behaviour

/-- A call takes its steps, `n` at most, and no other call does anything. -/
def IsoSystem.follow (reply : IsoPoint → IsoReply) : ℕ → IsoSystem → IsoCall → IsoCall × IsoSystem
  | 0, s, c => (c, s)
  | n + 1, s, c =>
    match s.exec c (reply c.point) with
    | some (c', s') => follow reply n s' c'
    | none => (c, s)

/-- `run_isolated`: no call takes more than 15 steps. -/
def run_isolated (s : IsoSystem) (method : String) (hard_timeout : ℕ) (b : Behaviour) :
    IsoCall × IsoSystem := s.follow (b.reply method) 15 (.new hard_timeout)

/-! ## How a call ends -/

/-- A call whose worker has been started. -/
def IsoCall.started (hard_timeout : ℕ) (point : IsoPoint)
    (answer : Option (Except Error DisposableOutcome)) : IsoCall :=
  ⟨hard_timeout, point, true, some ⟨true, false⟩, answer, true, 0⟩

/-- The system when the worker of one more call has been started. -/
def IsoSystem.starting (s : IsoSystem) : IsoSystem :=
  { s with stats := { s.stats with spawned := s.stats.spawned + 1 }, permits := s.permits - 1 }

/-- The system when the call has ended. -/
def IsoSystem.counting (s : IsoSystem) (t : Terminal) : IsoSystem :=
  { s with stats := IsoStats.add { s.stats with spawned := s.stats.spawned + 1 } t }

section Follow

variable {s : IsoSystem} {b : Behaviour} {method : String} {hard_timeout n : ℕ}
  {answer : Option (Except Error DisposableOutcome)}

lemma follow_ended {reply : IsoPoint → IsoReply} {c : IsoCall} (hc : c.point = .ended) (n : ℕ) :
    s.follow reply n c = (c, s) := by
  cases n with
  | zero => rfl
  | succ n =>
    obtain ⟨_, point, _, _, _, _, _⟩ := c
    obtain rfl : point = .ended := hc
    rfl

/-- A call takes a step. -/
lemma follow_exec {s' : IsoSystem} {reply : IsoPoint → IsoReply} {c c' : IsoCall}
    (h : s.exec c (reply c.point) = some (c', s')) (n : ℕ) :
    s.follow reply (n + 1) c = s'.follow reply n c' := by
  rw [IsoSystem.follow, h]

/-- A call starts its worker. -/
lemma follow_new (hpermit : 0 < s.permits) :
    s.follow (b.reply method) (n + 5) (.new hard_timeout) =
      s.starting.follow (b.reply method) n (.started hard_timeout .hello none) := by
  have hacquire : s.exec (.new hard_timeout) (b.reply method (IsoCall.new hard_timeout).point) =
      some (⟨hard_timeout, .spawn, true, none, none, false, 0⟩,
        { s with permits := s.permits - 1 }) := if_pos hpermit
  rw [follow_exec hacquire]
  rfl

/-- A call that returns while its worker runs leaves it to the guard, which counts a crash. -/
lemma follow_return (b : Behaviour) (method : String) (hard_timeout n : ℕ)
    (answer : Option (Except Error DisposableOutcome)) (hpermit : 0 < s.permits) :
    ∃ c, s.starting.follow (b.reply method) (n + 3) (.started hard_timeout .dropGuard answer) =
      (c, s.counting .killedCrash) ∧ c.point = .ended ∧ c.answer = answer := by
  have hpermits : s.permits - 1 + 1 = s.permits := Nat.sub_add_cancel hpermit
  have hsteps :
      s.starting.follow (b.reply method) (n + 3) (.started hard_timeout .dropGuard answer) =
      IsoSystem.follow (b.reply method) n
        { s.counting .killedCrash with permits := s.permits - 1 + 1 }
        ⟨hard_timeout, .ended, false, none, answer, true, 1⟩ := rfl
  refine ⟨⟨hard_timeout, .ended, false, none, answer, true, 1⟩, ?_, rfl, rfl⟩
  rw [hsteps, follow_ended rfl, hpermits]
  rfl

/-- A call that has an outcome counts it before its worker is killed. -/
lemma follow_count (b : Behaviour) (method : String) (hard_timeout n : ℕ)
    (answer : Option (Except Error DisposableOutcome)) (hpermit : 0 < s.permits) (t : Terminal)
    (release : Bool) :
    ∃ c, s.starting.follow (b.reply method) (n + 8)
        (.started hard_timeout (.count t release) answer) =
      (c, s.counting t) ∧ c.point = .ended ∧ c.answer = answer := by
  have hpermits : s.permits - 1 + 1 = s.permits := Nat.sub_add_cancel hpermit
  refine ⟨⟨hard_timeout, .ended, false, none, answer, true, 1⟩, ?_, rfl, rfl⟩
  cases release with
  | true =>
    have hsteps : s.starting.follow (b.reply method) (n + 8)
        (.started hard_timeout (.count t true) answer) =
      IsoSystem.follow (b.reply method) n { s.counting t with permits := s.permits - 1 + 1 }
        ⟨hard_timeout, .ended, false, none, answer, true, 1⟩ := rfl
    rw [hsteps, follow_ended rfl, hpermits]
    rfl
  | false =>
    -- one step less, since the permit is left to the end
    have hsteps : s.starting.follow (b.reply method) (n + 8)
        (.started hard_timeout (.count t false) answer) =
      IsoSystem.follow (b.reply method) (n + 1) { s.counting t with permits := s.permits - 1 + 1 }
        ⟨hard_timeout, .ended, false, none, answer, true, 1⟩ := rfl
    rw [hsteps, follow_ended rfl, hpermits]
    rfl

end Follow

/-! ## Where the sequence stops -/

namespace Answer

/-- The stream has broken before an answer. -/
def broken : Answer → Bool
  | writeError _ => true
  | frameError _ => true
  | closed => true
  | _ => false

/-- The worker has answered with an error. -/
def structured : Answer → Bool
  | response r => r.error.isSome
  | _ => false

/-- The worker has answered, and the next request can be sent. -/
def good : Answer → Bool
  | response r => r.error.isNone
  | _ => false

end Answer

/-- What stops the requests before the last one has been answered. -/
def stopOf (requests : List (String × Answer)) : Option Answer :=
  (requests.map Prod.snd).find? fun a => !a.good

/-- What the loop makes of the requests. -/
lemma sequence_spec (requests : List (String × Answer)) (i : ℕ) (hi : i + requests.length = 3)
    (hne : requests ≠ []) :
    (stopOf requests = none ∧ ∃ v, sequence i requests = .value v) ∨
      (stopOf requests = some .silent ∧ sequence i requests = .timedOut) ∨
      ∃ a, stopOf requests = some a ∧ a.structured = !a.broken ∧ a ≠ .silent ∧
        ∃ e, sequence i requests = .failed (some e) := by
  induction requests generalizing i with
  | nil => exact absurd rfl hne
  | cons request rest ih =>
    obtain ⟨method, answer⟩ := request
    cases answer with
    | writeError e => exact .inr (.inr ⟨_, rfl, rfl, nofun, _, rfl⟩)
    | frameError e => exact .inr (.inr ⟨_, rfl, rfl, nofun, _, rfl⟩)
    | closed => exact .inr (.inr ⟨_, rfl, rfl, nofun, _, rfl⟩)
    | silent => exact .inr (.inl ⟨rfl, rfl⟩)
    | response r =>
      obtain ⟨id, result, error⟩ := r
      cases error with
      | some e => exact .inr (.inr ⟨_, rfl, rfl, nofun, _, rfl⟩)
      | none =>
        rw [List.length_cons] at hi
        by_cases hlast : i = 2
        · obtain rfl : rest = [] := List.length_eq_zero_iff.mp (by omega)
          exact .inl ⟨rfl, _, if_pos hlast⟩
        · have hseq : sequence i ((method, .response ⟨id, result, none⟩) :: rest) =
              sequence (i + 1) rest := if_neg hlast
          have hrest : rest ≠ [] := by
            rintro rfl
            simp only [List.length_nil] at hi
            omega
          rw [hseq]
          exact ih (i + 1) (by omega) hrest

namespace Behaviour

/-- What stops the sequence of the worker. -/
def stop (b : Behaviour) : Option Answer := stopOf (b.requests "")

/-- The worker has answered a request with an error. -/
def Structured (b : Behaviour) : Prop :=
  b.hello = .frame PROTOCOL_VERSION ∧ ∃ a, b.stop = some a ∧ a.structured = true

/-- The stream breaks in the sequence. -/
def BreaksInSequence (b : Behaviour) : Prop :=
  b.hello = .frame PROTOCOL_VERSION ∧ ∃ a, b.stop = some a ∧ a.broken = true

/-- The worker has died, or its stream has broken, before it has answered. -/
def Breaks (b : Behaviour) : Prop :=
  b.hello = .closed ∨ (∃ e, b.hello = .frameError e) ∨ b.BreaksInSequence

end Behaviour

/-- The call says what has become of the worker. -/
structure Classified (b : Behaviour) (s : IsoSystem) (result : IsoCall × IsoSystem) : Prop where
  bad : ∀ detail stage, result.1.answer = some (.ok (.badResponse detail stage)) → b.Structured
  crashed : b.Breaks → (∃ detail stage, result.1.answer = some (.ok (.crashed detail stage))) ∧
    result.2.stats.killed_crash = s.stats.killed_crash + 1

section Runs

variable {s : IsoSystem} {b : Behaviour} {method : String} {hard_timeout : ℕ}

/-- A call whose worker does not get past the handshake. -/
lemma run_isolated_startup (method : String) (hard_timeout : ℕ) (hpermit : 0 < s.permits)
    (hhello : b.hello ≠ .frame PROTOCOL_VERSION) :
    ∃ c t, run_isolated s method hard_timeout b = (c, s.counting t) ∧ c.point = .ended ∧
      ((b.hello = .silent ∧ ∃ after stage, c.answer = some (.ok (.timeout after stage))) ∨
        (t = .killedCrash ∧ ∃ detail stage, c.answer = some (.ok (.crashed detail stage)))) := by
  rw [run_isolated, show 15 = 10 + 5 from rfl, follow_new hpermit]
  have hcrash : ∀ detail stage, s.starting.exec (.started hard_timeout .hello none) b.hello.reply =
      some (.started hard_timeout .dropGuard (some (.ok (.crashed detail stage))), s.starting) →
      ∃ c t, s.starting.follow (b.reply method) 10 (.started hard_timeout .hello none) =
        (c, s.counting t) ∧ c.point = .ended ∧
        ((b.hello = .silent ∧ ∃ after stage, c.answer = some (.ok (.timeout after stage))) ∨
          (t = .killedCrash ∧ ∃ detail stage, c.answer = some (.ok (.crashed detail stage)))) := by
    intro detail stage hexec
    obtain ⟨c, hfollow, hpoint, hanswer⟩ := follow_return b method hard_timeout 6
      (some (.ok (.crashed detail stage))) hpermit
    refine ⟨c, .killedCrash, ?_, hpoint, .inr ⟨rfl, detail, stage, hanswer⟩⟩
    rw [← hfollow]
    exact follow_exec hexec 9
  cases hgreeting : b.hello with
  | frame protocol =>
    have hne : protocol ≠ PROTOCOL_VERSION := fun h => hhello (by rw [hgreeting, h])
    rw [hgreeting] at hcrash
    exact hcrash _ _ (if_pos hne)
  | frameError e =>
    rw [hgreeting] at hcrash
    exact hcrash _ _ rfl
  | closed =>
    rw [hgreeting] at hcrash
    exact hcrash _ _ rfl
  | silent =>
    obtain ⟨c, hfollow, hpoint, hanswer⟩ := follow_count b method hard_timeout 1
      (some (.ok (.timeout (IsoCall.new hard_timeout).hello_budget "startup"))) hpermit
      .killedTimeout false
    refine ⟨c, .killedTimeout, ?_, hpoint, .inl ⟨rfl, _, _, hanswer⟩⟩
    have hexec : s.starting.exec (.started hard_timeout .hello none) b.hello.reply =
        some (.started hard_timeout (.count .killedTimeout false) (some (.ok (.timeout
          (IsoCall.new hard_timeout).hello_budget "startup"))), s.starting) := by
      rw [hgreeting]
      rfl
    rw [← hfollow]
    exact follow_exec hexec 9

/-- A call whose worker gets past the handshake. -/
lemma run_isolated_sequence (method : String) (hard_timeout : ℕ) (hpermit : 0 < s.permits)
    (hhello : b.hello = .frame PROTOCOL_VERSION) :
    ∃ c t, run_isolated s method hard_timeout b = (c, s.counting t) ∧ c.point = .ended ∧
      ((b.stop = none ∧ t = .exitedClean ∧ ∃ v, c.answer = some (.ok (.ok v))) ∨
        (b.stop = some .silent ∧ ∃ after stage, c.answer = some (.ok (.timeout after stage))) ∨
        ∃ a, b.stop = some a ∧ a.structured = !a.broken ∧ a ≠ .silent ∧ t = .exitedClean ∧
          ∃ detail stage, c.answer = some (.ok (.badResponse detail stage))) := by
  have hstop : stopOf (b.requests method) = b.stop := rfl
  have hcount : ∀ outcome t, s.starting.exec (.started hard_timeout .sequence none)
        (sequence 0 (b.requests method)) =
      some (.started hard_timeout (.count t true) (some (.ok outcome)), s.starting) →
      ∃ c, run_isolated s method hard_timeout b = (c, s.counting t) ∧ c.point = .ended ∧
        c.answer = some (.ok outcome) := by
    intro outcome t hexec
    obtain ⟨c, hfollow, hpoint, hanswer⟩ := follow_count b method hard_timeout 0
      (some (.ok outcome)) hpermit t true
    refine ⟨c, ?_, hpoint, hanswer⟩
    have hgreeting : s.starting.exec (.started hard_timeout .hello none) b.hello.reply =
        some (.started hard_timeout .sequence none, s.starting) := by
      rw [hhello]
      rfl
    rw [run_isolated, show 15 = 10 + 5 from rfl, follow_new hpermit, ← hfollow]
    exact (follow_exec hgreeting 9).trans (follow_exec hexec 8)
  rcases sequence_spec (b.requests method) 0 rfl (List.cons_ne_nil _ _) with
    ⟨hnone, v, hseq⟩ | ⟨hsilent, hseq⟩ | ⟨a, ha, hstructured, hne, e, hseq⟩
  · obtain ⟨c, hrun, hpoint, hanswer⟩ := hcount (.ok v) .exitedClean (by rw [hseq]; rfl)
    exact ⟨c, _, hrun, hpoint, .inl ⟨hstop ▸ hnone, rfl, v, hanswer⟩⟩
  · obtain ⟨c, hrun, hpoint, hanswer⟩ := hcount (.timeout hard_timeout "risky") .killedTimeout
      (by rw [hseq]; rfl)
    exact ⟨c, _, hrun, hpoint, .inr (.inl ⟨hstop ▸ hsilent, _, _, hanswer⟩)⟩
  · obtain ⟨c, hrun, hpoint, hanswer⟩ := hcount (sequenceFailed (Error.worker e).text) .exitedClean
      (by rw [hseq]; rfl)
    exact ⟨c, _, hrun, hpoint, .inr (.inr ⟨a, hstop ▸ ha, hstructured, hne, rfl, _, _, hanswer⟩)⟩

lemma counting_killed_crash {t : Terminal} :
    (s.counting t).stats.killed_crash = s.stats.killed_crash + 1 ↔ t = .killedCrash := by
  have hne : s.stats.killed_crash ≠ s.stats.killed_crash + 1 := by
    intro h
    have hval := congrArg Fin.val h
    have h1 : ((1 : U64) : ℕ) = 1 := rfl
    have hlt := s.stats.killed_crash.isLt
    rw [Fin.val_add, h1] at hval
    omega
  cases t with
  | killedTimeout => exact iff_of_false hne nofun
  | killedCrash => exact iff_of_true rfl rfl
  | exitedClean => exact iff_of_false hne nofun

end Runs

/-- Every call with a permit ends, and it says what has become of its worker if and only if the
stream of the worker does not break behind the handshake. -/
theorem run_isolated_classified_iff (s : IsoSystem) (method : String) (hard_timeout : ℕ)
    (b : Behaviour) (hpermit : 0 < s.permits) :
    (run_isolated s method hard_timeout b).1.point = .ended ∧
      (Classified b s (run_isolated s method hard_timeout b) ↔ ¬ b.BreaksInSequence) := by
  by_cases hhello : b.hello = .frame PROTOCOL_VERSION
  · obtain ⟨c, t, hrun, hpoint, hend⟩ := run_isolated_sequence method hard_timeout hpermit
      hhello
    rw [hrun]
    refine ⟨hpoint, fun h hbreaks => ?_,
      fun hnot => ⟨fun detail stage hbad => ?_, fun hbreaks => ?_⟩⟩
    · -- a crash is counted as such, and no end of the sequence is
      obtain ⟨-, hcounted⟩ := h.crashed (.inr (.inr hbreaks))
      obtain rfl := counting_killed_crash.mp hcounted
      obtain ⟨-, a, ha, hbroken⟩ := hbreaks
      rcases hend with ⟨-, ht, -⟩ | ⟨hsilent, -⟩ | ⟨-, -, -, -, ht, -⟩
      · cases ht
      · obtain rfl : a = .silent := Option.some.inj (ha.symm.trans hsilent)
        cases hbroken
      · cases ht
    · rcases hend with ⟨-, -, v, hv⟩ | ⟨-, after, stage', htimeout⟩ | ⟨a, ha, hstructured, -, -, -⟩
      · rw [show c.answer = _ from hbad] at hv
        cases hv
      · rw [show c.answer = _ from hbad] at htimeout
        cases htimeout
      · refine ⟨hhello, a, ha, ?_⟩
        rw [hstructured, Bool.not_eq_true']
        exact Bool.eq_false_iff.mpr fun hbroken => hnot ⟨hhello, a, ha, hbroken⟩
    · rcases hbreaks with hclosed | ⟨e, he⟩ | hbreaks
      · rw [hhello] at hclosed
        cases hclosed
      · rw [hhello] at he
        cases he
      · exact absurd hbreaks hnot
  · obtain ⟨c, t, hrun, hpoint, hend⟩ := run_isolated_startup method hard_timeout hpermit
      hhello
    rw [hrun]
    refine ⟨hpoint, fun _ hbreaks => hhello hbreaks.1, fun _ =>
      ⟨fun detail stage hbad => ?_, fun hbreaks => ?_⟩⟩
    · rcases hend with ⟨-, after, stage', htimeout⟩ | ⟨-, detail', stage', hcrash⟩
      · rw [show c.answer = _ from hbad] at htimeout
        cases htimeout
      · rw [show c.answer = _ from hbad] at hcrash
        cases hcrash
    · rcases hend with ⟨hsilent, -⟩ | ⟨rfl, hcrash⟩
      · rcases hbreaks with hclosed | ⟨e, he⟩ | hbreaks
        · rw [hsilent] at hclosed
          cases hclosed
        · rw [hsilent] at he
          cases he
        · exact absurd hbreaks.1 hhello
      · exact ⟨hcrash, counting_killed_crash.mpr rfl⟩

/-- A worker that cannot open the database says so. -/
theorem run_isolated_classified_iff_refused :
    let b : Behaviour := ⟨.frame 1, .response (.ok 1 .null),
      .response (.err 2 (.worker "no such file")), .silent⟩
    Classified b .new (run_isolated .new "region.evidence" 1000 b) := by
  intro b
  refine (run_isolated_classified_iff .new "region.evidence" 1000 b (by decide)).2.mpr ?_
  rintro ⟨-, a, ha, hbroken⟩
  obtain rfl := Option.some.inj ha
  cases hbroken

/-- A worker that dies over the risky request. -/
def dyingWorker : Behaviour :=
  ⟨.frame 1, .response (.ok 1 .null), .response (.ok 2 .null), .closed⟩

/-- The death is said to be an answer, and the process to have exited cleanly. -/
theorem death_called_answer :
    let result := run_isolated .new "region.evidence" 1000 dyingWorker
    result.1.answer = some (.ok (.badResponse "worker failure: disposable worker died mid-sequence"
      "risky")) ∧
    result.2.stats.exited_clean = 1 ∧ result.2.stats.killed_crash = 0 ∧
    ¬ Classified dyingWorker .new result := by
  intro result
  have hcrash : result.2.stats.killed_crash = 0 := rfl
  refine ⟨by decide +kernel, rfl, hcrash, fun h => ?_⟩
  have hbreaks : dyingWorker.Breaks := .inr (.inr ⟨rfl, .closed, rfl, rfl⟩)
  have hcounted := (h.crashed hbreaks).2
  rw [hcrash] at hcounted
  exact absurd hcounted (by decide)

end ReverseMcp
