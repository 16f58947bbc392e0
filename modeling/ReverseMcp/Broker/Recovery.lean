import ReverseMcp.Broker.Crash

/-!
# Recovery

`WorkerPool::recover` from its call to its return.  Each attempt of its loop is a `spawn_for`, and
while that one waits, the pumps and the monitors of all sessions go on.  A failed attempt raises the
counter of the session, so the loop ends; a new session is pushed under a handle of its own and then
moved to the slot of the recovered one, which is found by its handle.  That handle is new until the
counter `NEXT_ID` of the process has wrapped.
-/

namespace ReverseMcp

open Rust

/-! ## The process -/

/-- What can happen to the pool in its process. -/
inductive ProcessEvent where
  | pool (e : PoolEvent)
  /-- Another part of the process draws a number from `NEXT_ID`. -/
  | draw
  /-- The task that waits for `spawn_for` or `recover` is dropped. -/
  | drop
deriving DecidableEq

/-- One step; `none` when it cannot happen. -/
def WorkerPool.process (p : WorkerPool) : ProcessEvent → Option WorkerPool
  | .pool e => p.act e
  | .draw => some { p with next_id := p.next_id + 1 }
  | .drop => some { p with opening := none, recovery := none }

/-- The steps of the pool in its process. -/
def ProcessStep (p : WorkerPool) (e : ProcessEvent) (p' : WorkerPool) : Prop :=
  p.process e = some p'

namespace ProcessEvent

/-- The event is not one of `recover` itself. -/
def Other : ProcessEvent → Prop
  | pool (.respawn _) | pool .register | pool (.attemptFailed _) | drop => False
  | _ => True

instance : DecidablePred Other := fun e => by
  unfold Other
  split <;> infer_instance

/-- The event draws a number from `NEXT_ID`. -/
def draws : ProcessEvent → Bool
  | pool .register | draw => true
  | _ => false

/-- The counter of a session does not overflow with such a policy. -/
def Capped : ProcessEvent → Prop
  | pool (.attemptFailed policy) => policy.max_restarts < 2 ^ 32 - 1
  | _ => True

instance : DecidablePred Capped := fun e => by
  unfold Capped
  split <;> infer_instance

end ProcessEvent

/-! ## The loop -/

/-- What happens in an attempt of `recover` until `spawn_for` returns: if it gets that far, the
worker is started with the kind of backend that was found. -/
structure Attempt where
  before : List ProcessEvent
  respawn : Option String
  after : List ProcessEvent
  others : ∀ e ∈ before ++ after, e.Other

/-- The events of an attempt. -/
def Attempt.events (a : Attempt) : List ProcessEvent :=
  a.before ++ (a.respawn.map fun backend_kind => .pool (.respawn backend_kind)).toList ++ a.after

namespace WorkerPool

/-- The pool when `spawn_for` returns. -/
def attempt (p : WorkerPool) (a : Attempt) : WorkerPool :=
  let q := lastOf p (follow process p a.events)
  match q.opening with
  -- the time of the call it waits for has run out
  | some (i, _) => q.giveUp i
  | none => q

/-- `restart_failures` of the session that is being recovered. -/
def restart_failures (p : WorkerPool) : ℕ :=
  ((p.recovery.bind fun r => p.workers[r.2]?).map fun w => w.session.restart_failures).getD 0

/-- The loop of `recover`: how many attempts it makes, what it returns, and the pool; `none` when it
is still going on behind the attempts, or when an `expect` fails. -/
def recoverLoop (policy : RestartPolicy) :
    WorkerPool → List Attempt → Option (ℕ × Result Unit × WorkerPool)
  | _, [] => none
  | p, a :: rest =>
    let q := p.attempt a
    match q.opening with
    | some _ => q.register.map fun q' => (1, .ok (), q')
    | none =>
      (q.attemptFailed policy).bind fun q' =>
        match q'.recovery with
        | none =>
          some (1, fail s!"worker recovery failed after {q.restart_failures + 1} attempts", q')
        | some _ => (recoverLoop policy q' rest).map fun r => (r.1 + 1, r.2)

/-- `WorkerPool::recover` with what happens in its attempts. -/
def recoverWith (p : WorkerPool) (db : String) (policy : RestartPolicy) (attempts : List Attempt) :
    Option (ℕ × Result Unit × WorkerPool) :=
  match p.recover db with
  | .ok (some p') => p'.recoverLoop policy attempts
  | .ok none => some (0, .ok (), p)
  | .err e => some (0, .err e, p)
  | .panic q => some (0, .panic q, p)

/-- `recover` has put a new session into the slot of the handle. -/
structure Replaced (p : WorkerPool) (db : String) (q : WorkerPool) : Prop where
  handles : q.sessions.map Prod.fst = p.sessions.map Prod.fst
  slot : ∃ j, p.workers.length ≤ j ∧ j < q.workers.length ∧
    q.sessions = p.sessions.set (p.sessions.findIdx fun e => e.1 = db) (db, j)

/-- `recover` has given the session up: to the others nothing has happened but what their monitors
have done, and for good it is dead and `recover` fails at once. -/
structure Exhausted (p : WorkerPool) (db : String) (q : WorkerPool) : Prop where
  sessions : q.sessions = p.sessions
  others : ∀ j v, p.session db ≠ some j → p.workers[j]? = some v → ∃ v', q.workers[j]? = some v' ∧
    (v'.session = v.session ∨ (v.monitor ≠ .done ∧ v'.session = v.session.mark_crashed))
  dead : ∀ i, p.session db = some i → ∀ tr, Run ProcessStep q tr → ∀ q' ∈ statesOf q tr,
    (∃ w, q'.workers[i]? = some w ∧ w.session.health = .dead) ∧
      ∀ db' policy attempts, q'.session db' = some i → q'.recoverWith db' policy attempts =
        some (0, fail "worker recovery budget exhausted; close and reopen the db", q')

/-- The promise of `recover`. -/
def BoundedRecovery (p : WorkerPool) (db : String) (policy : RestartPolicy)
    (attempts : List Attempt) : Prop :=
  ∃ n r q, p.recoverWith db policy attempts = some (n, r, q) ∧ n ≤ policy.max_restarts + 1 ∧
    (∀ w ∈ q.workers, w.session.restart_failures < 2 ^ 32) ∧
    (∀ i w, p.session db = some i → p.workers[i]? = some w → w.session.health ≠ .healthy →
      r = .ok () → p.Replaced db q) ∧
    (∀ e, r = .err e → 0 < n → p.Exhausted db q)

end WorkerPool

/-! ## What a session goes through -/

namespace SessionTasks

variable {w w' w'' : SessionTasks}

/-- Nothing has happened to the session but what its monitor has done. -/
def Aside (w w' : SessionTasks) : Prop :=
  (w'.session = w.session ∧ (w.monitor = .done → w'.monitor = .done)) ∨
    (w.monitor ≠ .done ∧ w'.monitor = .done ∧ w'.session = w.session.mark_crashed)

lemma aside_refl (w : SessionTasks) : w.Aside w := .inl ⟨rfl, id⟩

lemma Works.aside (h : w.Works w') : w.Aside w' := by
  cases h with
  | same hsession hmonitor => exact .inl ⟨hsession, hmonitor⟩
  | marked hmonitor => exact .inr ⟨by rw [hmonitor]; decide, rfl, rfl⟩

/-- The monitor acts once. -/
lemma Aside.trans (h : w.Aside w') (h' : w'.Aside w'') : w.Aside w'' := by
  rcases h with ⟨hsession, hmonitor⟩ | ⟨hmonitor, hdone, hsession⟩
  · rcases h' with ⟨hsession', hmonitor'⟩ | ⟨hmonitor', hdone', hsession'⟩
    · exact .inl ⟨hsession'.trans hsession, fun h => hmonitor' (hmonitor h)⟩
    · exact .inr ⟨fun h => hmonitor' (hmonitor h), hdone', by rw [hsession', hsession]⟩
  · rcases h' with ⟨hsession', hmonitor'⟩ | ⟨hmonitor', -, -⟩
    · exact .inr ⟨hmonitor, hmonitor' hdone, hsession'.trans hsession⟩
    · exact absurd hdone hmonitor'

/-- The monitor of a session that is not healthy has done its work. -/
def Monitored (w : SessionTasks) : Prop := w.session.health ≠ .healthy → w.monitor = .done

/-- What is aside of a session whose monitor has done its work leaves it alone. -/
lemma Aside.of_done (h : w.Aside w') (hdone : w.monitor = .done) :
    w'.session = w.session ∧ w'.monitor = .done := by
  rcases h with ⟨hsession, hmonitor⟩ | ⟨hmonitor, -, -⟩
  · exact ⟨hsession, hmonitor hdone⟩
  · exact absurd hdone hmonitor

/-- The counter of the session has not overflowed, and is not about to. -/
structure Counted (w : SessionTasks) : Prop where
  monitored : w.Monitored
  fits : w.session.restart_failures < 2 ^ 32
  alive : w.session.health ≠ .dead → w.session.restart_failures < 2 ^ 32 - 1

lemma failRecovery_monitor (w : SessionTasks) (policy : RestartPolicy) :
    (w.failRecovery policy).2.monitor = w.monitor := by
  rw [failRecovery]
  dsimp only
  split <;> rfl

lemma failRecovery_failures (w : SessionTasks) (policy : RestartPolicy) :
    (w.failRecovery policy).2.session.restart_failures = w.session.restart_failures + 1 := by
  rw [failRecovery]
  dsimp only
  split <;> rfl

/-- A failed attempt either is the last one, and the session is dead, or there are attempts left. -/
lemma failRecovery_cases (w : SessionTasks) (policy : RestartPolicy) :
    ((w.failRecovery policy).1 = true ∧ (w.failRecovery policy).2.session.health = .dead) ∨
      ((w.failRecovery policy).1 = false ∧
        (w.failRecovery policy).2.session.health = w.session.health ∧
        w.session.restart_failures + 1 ≤ policy.max_restarts) := by
  rw [failRecovery]
  dsimp only
  split
  · exact .inl ⟨rfl, rfl⟩
  · rename_i hle
    exact .inr ⟨rfl, rfl, not_lt.mp hle⟩

lemma Works.monitored (h : w.Works w') (hw : w.Monitored) : w'.Monitored := by
  cases h with
  | same hsession hmonitor =>
    intro hne
    rw [hsession] at hne
    exact hmonitor (hw hne)
  | marked hmonitor => exact fun _ => rfl

/-- A session that the monitor is about to mark is healthy. -/
lemma Monitored.healthy (hw : w.Monitored) (hmarking : w.monitor = .marking) :
    w.session.health = .healthy := by
  by_contra hne
  rw [hw hne] at hmarking
  cases hmarking

end SessionTasks

/-! ## What holds of every session -/

open WorkerPool in
/-- What every step of the pool keeps, every step of the process keeps. -/
lemma ProcessStep.each {p p' : WorkerPool} {e : ProcessEvent} {P R : SessionTasks → Prop}
    (hstep : ProcessStep p e p') (h : p.Each P R)
    (hnew : ∀ session_meta queue, P { SessionTasks.new session_meta with queue })
    (hworks : ∀ w w', w.Works w' → P w → P w' ∧ (R w → R w'))
    (hbegan : ∀ w, w.session.health ≠ .healthy → w.session.health ≠ .dead → P w →
      let w' := { w with session := { w.session with health := .recovering } }
      P w' ∧ R w')
    (hfailed : ∀ w policy, e = .pool (.attemptFailed policy) → P w → R w →
      P (w.failRecovery policy).2 ∧
      ((w.failRecovery policy).1 = false → R (w.failRecovery policy).2)) :
    p'.Each P R := by
  cases e with
  | pool e =>
    have hpool : PoolStep p e p' := hstep
    exact hpool.each h hnew hworks hbegan fun w policy he => hfailed w policy (by rw [he])
  | draw =>
    cases hstep
    exact h.of_workers rfl (.inl rfl)
  | drop =>
    cases hstep
    exact h.of_workers rfl (.inr rfl)

namespace WorkerPool

/-- Every session is monitored, and the one that is being recovered says so. -/
def Watchful (p : WorkerPool) : Prop :=
  p.Each SessionTasks.Monitored fun w => w.session.health = .recovering

/-- No counter overflows. -/
def Counting (p : WorkerPool) : Prop := p.Each SessionTasks.Counted fun w =>
  w.session.health ≠ .healthy ∧ w.session.health ≠ .dead

end WorkerPool

variable {p p' q : WorkerPool} {e : ProcessEvent}

lemma ProcessStep.watchful (hstep : ProcessStep p e p') (h : p.Watchful) : p'.Watchful := by
  refine ProcessStep.each hstep h (fun session_meta queue hne => absurd rfl hne)
    (fun w w' hworks hw => ⟨hworks.monitored hw, fun hrec => ?_⟩)
    (fun w hhealth _ hw => ⟨fun _ => hw hhealth, rfl⟩) fun w policy _ hw hrec => ⟨fun _ => ?_, ?_⟩
  · have hdone := hw (by rw [hrec]; decide)
    rw [(hworks.aside.of_done hdone).1]
    exact hrec
  · rw [SessionTasks.failRecovery_monitor]
    exact hw (by rw [hrec]; decide)
  · intro hlast
    rcases w.failRecovery_cases policy with ⟨htrue, -⟩ | ⟨-, hhealth, -⟩
    · rw [htrue] at hlast
      cases hlast
    · exact hhealth.trans hrec

lemma ProcessStep.counting (hstep : ProcessStep p e p') (he : e.Capped) (h : p.Counting) :
    p'.Counting := by
  refine ProcessStep.each hstep h (fun session_meta queue => ?_) (fun w w' hworks hw => ?_)
    (fun w hhealth hdead hw => ?_) fun w policy hpolicy hw halive => ?_
  · exact ⟨fun hne => absurd rfl hne, show 0 < 2 ^ 32 by decide,
      fun _ => show 0 < 2 ^ 32 - 1 by decide⟩
  · have hmonitored := hworks.monitored hw.monitored
    cases hworks with
    | same hsession hmonitor =>
      refine ⟨⟨hmonitored, ?_, ?_⟩, fun halive => ?_⟩
      · rw [hsession]
        exact hw.fits
      · rw [hsession]
        exact hw.alive
      · rw [hsession]
        exact halive
    | marked hmonitor =>
      have hhealthy := hw.monitored.healthy hmonitor
      exact ⟨⟨hmonitored, hw.fits, fun _ => hw.alive (by rw [hhealthy]; decide)⟩,
        fun _ => ⟨nofun, nofun⟩⟩
  · exact ⟨⟨fun _ => hw.monitored hhealth, hw.fits, fun _ => hw.alive hdead⟩, nofun, nofun⟩
  · subst hpolicy
    have hcap : policy.max_restarts < 2 ^ 32 - 1 := he
    have hfits := hw.alive halive.2
    have hmonitored : (w.failRecovery policy).2.Monitored := by
      intro
      rw [SessionTasks.failRecovery_monitor]
      exact hw.monitored halive.1
    rcases w.failRecovery_cases policy with ⟨htrue, hdead⟩ | ⟨-, hhealth, hle⟩
    · refine ⟨⟨hmonitored, ?_, fun hne => absurd hdead hne⟩, fun hlast => ?_⟩
      · rw [SessionTasks.failRecovery_failures]
        omega
      · rw [htrue] at hlast
        cases hlast
    · refine ⟨⟨hmonitored, ?_, fun _ => ?_⟩, fun _ => ?_⟩
      · rw [SessionTasks.failRecovery_failures]
        omega
      · rw [SessionTasks.failRecovery_failures]
        omega
      · rw [hhealth]
        exact halive

/-! ## Handles -/

namespace WorkerPool

/-- At most `n` numbers have been drawn from `NEXT_ID`, and the handles are among them. -/
def Numbered (n : ℕ) (p : WorkerPool) : Prop :=
  ∃ m ≤ n, p.next_id = asU64 (1 + m) ∧
    ∀ x ∈ p.sessions.map Prod.fst, ∃ k < m, x = (Handle.mk "db" (asU64 (1 + k))).text

lemma new_numbered : Numbered 0 new := ⟨0, le_rfl, rfl, by simp [new]⟩

/-- A step that draws no number. -/
lemma Numbered.of_sessions {n k : ℕ} (h : p.Numbered n) (hle : n ≤ k)
    (hnext : p'.next_id = p.next_id)
    (hsessions : ∀ x ∈ p'.sessions.map Prod.fst, x ∈ p.sessions.map Prod.fst) : p'.Numbered k := by
  obtain ⟨m, hm, hid, hall⟩ := h
  exact ⟨m, hm.trans hle, hnext.trans hid, fun x hx => hall x (hsessions x hx)⟩

/-- A step that draws one. -/
lemma Numbered.draw {n : ℕ} (h : p.Numbered n) (hnext : p'.next_id = p.next_id + 1)
    (hsessions : ∀ x ∈ p'.sessions.map Prod.fst,
      x = (Handle.mk "db" p.next_id).text ∨ x ∈ p.sessions.map Prod.fst) : p'.Numbered (n + 1) := by
  obtain ⟨m, hm, hid, hall⟩ := h
  refine ⟨m + 1, Nat.succ_le_succ hm, ?_, fun x hx => ?_⟩
  · rw [hnext, hid]
    exact asU64_add_one m
  · rcases hsessions x hx with rfl | hx
    · exact ⟨m, Nat.lt_succ_self m, by rw [hid]⟩
    · obtain ⟨k, hk, hx⟩ := hall x hx
      exact ⟨k, Nat.lt_succ_of_lt hk, hx⟩

/-- The next handle is new until the counter has wrapped. -/
lemma Numbered.fresh {n : ℕ} (h : p.Numbered n) (hn : n < 2 ^ 64) :
    (Handle.mk "db" p.next_id).text ∉ p.sessions.map Prod.fst := by
  intro hmem
  obtain ⟨m, hm, hid, hall⟩ := h
  obtain ⟨k, hk, htext⟩ := hall _ hmem
  have hnumber := congrArg Fin.val (Handle.text_inj htext)
  rw [hid] at hnumber
  simp only [asU64, Fin.val_ofNat] at hnumber
  omega

end WorkerPool

open WorkerPool in
lemma ProcessStep.numbered {n : ℕ} (hstep : ProcessStep p e p') (h : p.Numbered n) :
    p'.Numbered (n + if e.draws then 1 else 0) := by
  cases e with
  | draw =>
    cases hstep
    exact h.draw rfl fun x hx => .inr hx
  | drop =>
    cases hstep
    exact h.of_sessions le_rfl rfl fun x hx => hx
  | pool e =>
    have hpool : PoolStep p e p' := hstep
    cases hpool.effect with
    | registered hr =>
      obtain ⟨i, sessions, -, rfl, hsessions⟩ := register_eq_some hr
      refine h.draw rfl fun x hx => ?_
      obtain ⟨entry, hentry, rfl⟩ := List.mem_map.mp hx
      exact (hsessions entry hentry).2
    | closed db k hrecovery =>
      refine h.of_sessions (Nat.le_add_right _ _) rfl fun x hx => ?_
      obtain ⟨entry, hentry, rfl⟩ := List.mem_map.mp hx
      exact List.mem_map_of_mem (List.mem_of_mem_eraseIdx hentry)
    | began db i w hw hhealth hdead hrecovery =>
      exact h.of_sessions (Nat.le_add_right _ _) rfl fun x hx => hx
    | failed policy db i w hrecovery hw =>
      exact h.of_sessions (Nat.le_add_right _ _) rfl fun x hx => hx
    | spawned session_meta hopening => exact h.of_sessions (Nat.le_add_right _ _) rfl fun x hx => hx
    | waited opening hopening => exact h.of_sessions (Nat.le_add_right _ _) rfl fun x hx => hx
    | worked i w w' opening next_call hw hworks hopening =>
      exact h.of_sessions (Nat.le_add_right _ _) rfl fun x hx => hx

/-- A run draws as many numbers as it has events that draw. -/
lemma numbered_run {n : ℕ} {tr : List (ProcessEvent × WorkerPool)} (hrun : Run ProcessStep p tr)
    (h : p.Numbered n) :
    (lastOf p tr).Numbered (n + (tr.map Prod.fst).countP ProcessEvent.draws) := by
  induction hrun generalizing n with
  | nil s => exact h
  | @cons s s' e tr hstep _ ih =>
    have hrest := ih (hstep.numbered h)
    rw [List.map_cons, List.countP_cons, Nat.add_comm (List.countP _ _), ← Nat.add_assoc]
    exact hrest

/-! ## An attempt -/

/-- The event can happen in an attempt. -/
def ProcessEvent.Attempting (e : ProcessEvent) : Prop :=
  e.Other ∨ ∃ backend_kind, e = .pool (.respawn backend_kind)

lemma ProcessEvent.Attempting.capped (he : e.Attempting) : e.Capped := by
  rcases he with he | ⟨backend_kind, rfl⟩
  · rw [ProcessEvent.Capped.eq_def]
    split
    · cases he
    · trivial
  · trivial

lemma Attempt.attempting (a : Attempt) : ∀ e ∈ a.events, e.Attempting := by
  intro e he
  rw [Attempt.events, List.append_assoc] at he
  rcases List.mem_append.mp he with he | he
  · exact .inl (a.others e (List.mem_append_left _ he))
  · rcases List.mem_append.mp he with he | he
    · obtain ⟨backend_kind, -, rfl⟩ := Option.map_eq_some_iff.mp (Option.mem_toList.mp he)
      exact .inr ⟨backend_kind, rfl⟩
    · exact .inl (a.others e (List.mem_append_right _ he))

namespace WorkerPool

/-- The pool goes from `p` to `q` while `recover` is busy: the handles stay in place, the sessions
in `K` are left to their monitors, and `spawn_for` waits for a session that is new. -/
structure Meanwhile (K : ℕ → Prop) (p q : WorkerPool) : Prop where
  sessions : q.sessions = p.sessions
  recovery : q.recovery = p.recovery
  length : p.workers.length ≤ q.workers.length
  opening : ∀ j stage, q.opening = some (j, stage) → p.workers.length ≤ j ∧ j < q.workers.length
  others : ∀ j v, K j → p.workers[j]? = some v → ∃ v', q.workers[j]? = some v' ∧ v.Aside v'

variable {K L : ℕ → Prop} {r : WorkerPool}

lemma meanwhile_refl (K : ℕ → Prop) (hopening : p.opening = none) : Meanwhile K p p where
  sessions := rfl
  recovery := rfl
  length := le_rfl
  opening := by
    intro j stage h
    rw [hopening] at h
    cases h
  others := fun j v _ hv => ⟨v, hv, v.aside_refl⟩

lemma Meanwhile.mono (h : Meanwhile K p q) (hL : ∀ j, L j → K j) : Meanwhile L p q :=
  ⟨h.sessions, h.recovery, h.length, h.opening, fun j v hj => h.others j v (hL j hj)⟩

lemma Meanwhile.trans (h : Meanwhile K p q) (h' : Meanwhile K q r) : Meanwhile K p r where
  sessions := h'.sessions.trans h.sessions
  recovery := h'.recovery.trans h.recovery
  length := h.length.trans h'.length
  opening := fun j stage hj =>
    ⟨h.length.trans (h'.opening j stage hj).1, (h'.opening j stage hj).2⟩
  others := by
    intro j v hj hv
    obtain ⟨v', hv', haside⟩ := h.others j v hj hv
    obtain ⟨v'', hv'', haside'⟩ := h'.others j v' hj hv'
    exact ⟨v'', hv'', haside.trans haside'⟩

/-- `spawn_for` gives up, or goes on with its session. -/
lemma Meanwhile.wait (h : Meanwhile K p q) {opening : Option (ℕ × Stage)}
    (hopening : q.Waits opening) :
    Meanwhile K p { q with opening } where
  sessions := h.sessions
  recovery := h.recovery
  length := h.length
  opening := by
    intro j stage hj
    obtain ⟨stage', hj'⟩ := hopening j stage hj
    exact h.opening j stage' hj'
  others := h.others

/-- One session is changed. -/
lemma Meanwhile.set (h : Meanwhile K p q) {i : ℕ} {w w' : SessionTasks}
    (hw : q.workers[i]? = some w) (hw' : K i → w.Aside w') (next_call : U64) :
    Meanwhile K p { q with workers := q.workers.set i w', next_call } where
  sessions := h.sessions
  recovery := h.recovery
  length := by
    rw [List.length_set]
    exact h.length
  opening := by
    rw [List.length_set]
    exact h.opening
  others := by
    intro j v hj hv
    refine exists_set_of_some hw (h.others j v hj hv) ?_
    rintro rfl haside
    exact haside.trans (hw' hj)

end WorkerPool

open WorkerPool in
lemma ProcessStep.meanwhile {K : ℕ → Prop} {q' : WorkerPool} (hstep : ProcessStep q e q')
    (he : e.Attempting) (hrec : p.recovery ≠ none) (h : Meanwhile K p q) : Meanwhile K p q' := by
  rw [← h.recovery] at hrec
  cases e with
  | draw =>
    cases hstep
    exact ⟨h.sessions, h.recovery, h.length, h.opening, h.others⟩
  | drop => rcases he with he | ⟨_, he⟩ <;> cases he
  | pool e =>
    have hpool : PoolStep q e q' := hstep
    cases hpool.effect with
    | registered _ => rcases he with he | ⟨_, he⟩ <;> cases he
    | failed policy db i w hrecovery hw => rcases he with he | ⟨_, he⟩ <;> cases he
    | closed db k hrecovery => exact absurd hrecovery hrec
    | began db i w hw hhealth hdead hrecovery => exact absurd hrecovery hrec
    | waited opening hopening => exact h.wait hopening
    | worked i w w' opening next_call hw hworks hopening =>
      exact (h.set hw (fun _ => hworks.aside) next_call).wait hopening
    | spawned session_meta hopening =>
      refine ⟨h.sessions, h.recovery, ?_, fun j stage hj => ?_, fun j v hj hv => ?_⟩
      · rw [List.length_append]
        exact Nat.le_add_right_of_le h.length
      · cases hj
        rw [List.length_append]
        exact ⟨h.length, Nat.lt_succ_self _⟩
      · obtain ⟨v', hv', haside⟩ := h.others j v hj hv
        obtain ⟨hlt, -⟩ := List.getElem?_eq_some_iff.mp hv'
        exact ⟨v', by rw [List.getElem?_append_left hlt]; exact hv', haside⟩

namespace WorkerPool

variable {K : ℕ → Prop}

/-- What happens in attempts leaves the pool in place. -/
lemma meanwhile_run {tr : List (ProcessEvent × WorkerPool)} (hrun : Run ProcessStep p tr)
    (htr : ∀ x ∈ tr, x.1.Attempting) (hrec : p.recovery ≠ none) (hopening : p.opening = none) :
    Meanwhile K p (lastOf p tr) :=
  hrun.invariant ((along_true p tr).and_forall htr) (meanwhile_refl K hopening)
    (fun _ _ _ hstep he h => hstep.meanwhile he.2 hrec h) _ (lastOf_mem p tr)

lemma watchful_run {tr : List (ProcessEvent × WorkerPool)} (hrun : Run ProcessStep p tr)
    (h : p.Watchful) : (lastOf p tr).Watchful :=
  hrun.invariant (along_true p tr) h (fun _ _ _ hstep _ hw => hstep.watchful hw) _ (lastOf_mem p tr)

lemma counting_run {tr : List (ProcessEvent × WorkerPool)} (hrun : Run ProcessStep p tr)
    (htr : ∀ x ∈ tr, x.1.Capped) (h : p.Counting) : (lastOf p tr).Counting :=
  hrun.invariant ((along_true p tr).and_forall htr) h
    (fun _ _ _ hstep he hc => hstep.counting he.2 hc) _ (lastOf_mem p tr)

/-- An attempt is a run. -/
lemma attempt_run (p : WorkerPool) (a : Attempt) : ∃ tr, Run ProcessStep p tr ∧
    lastOf p tr = p.attempt a ∧ (∀ x ∈ tr, x.1.Attempting) ∧
    (tr.map Prod.fst).countP ProcessEvent.draws ≤ a.events.countP ProcessEvent.draws := by
  have hrun : Run ProcessStep p (follow process p a.events) := follow_run process p a.events
  have hfirst := follow_events process p a.events
  have hevents : ∀ x ∈ follow process p a.events, x.1.Attempting := fun x hx =>
    a.attempting _ (hfirst.subset (List.mem_map_of_mem hx))
  have hcount := hfirst.sublist.countP_le (p := ProcessEvent.draws)
  rw [attempt]
  split
  · rename_i i stage hopening
    have htimeout : ProcessStep (lastOf p (follow process p a.events)) (.pool (.timeout i))
        ((lastOf p (follow process p a.events)).giveUp i) := rfl
    refine ⟨_, hrun.append (.cons htimeout (.nil _)), ?_, fun x hx => ?_, ?_⟩
    · rw [lastOf_append]
      rfl
    · rcases List.mem_append.mp hx with hx | hx
      · exact hevents x hx
      · rw [List.mem_singleton.mp hx]
        exact .inl trivial
    · rw [List.map_append, List.countP_append]
      exact hcount
  · exact ⟨_, hrun, rfl, hevents, hcount⟩

/-- When `spawn_for` returns, its session is open or given up. -/
lemma attempt_opening (p : WorkerPool) (a : Attempt) :
    (p.attempt a).opening = none ∨ ∃ j, (p.attempt a).opening = some (j, .opened) := by
  rw [attempt]
  split
  · rename_i i stage hopening
    rcases giveUp_eq (lastOf p (follow process p a.events)) i with ⟨heq, hstage⟩ | heq
    · rw [heq]
      obtain rfl := hstage stage hopening
      exact .inr ⟨i, hopening⟩
    · rw [heq]
      exact .inl rfl
  · rename_i hopening
    exact .inl hopening

section Loop

variable {policy : RestartPolicy} {a : Attempt} (rest : List Attempt)

/-- The attempt succeeds. -/
lemma recoverLoop_opened {o : ℕ × Stage} (ho : (p.attempt a).opening = some o) :
    recoverLoop policy p (a :: rest) = (p.attempt a).register.map fun q => (1, .ok (), q) := by
  rw [recoverLoop]
  simp only [ho]

/-- The last attempt fails. -/
lemma recoverLoop_last (ho : (p.attempt a).opening = none)
    (hfailed : (p.attempt a).attemptFailed policy = some q) (hq : q.recovery = none) :
    ∃ text, recoverLoop policy p (a :: rest) = some (1, fail text, q) := by
  refine ⟨s!"worker recovery failed after {(p.attempt a).restart_failures + 1} attempts", ?_⟩
  rw [recoverLoop]
  simp only [ho, hfailed, Option.bind_some, hq]

/-- An attempt fails, and there is another one. -/
lemma recoverLoop_next {o : String × ℕ} (ho : (p.attempt a).opening = none)
    (hfailed : (p.attempt a).attemptFailed policy = some q) (hq : q.recovery = some o) :
    recoverLoop policy p (a :: rest) = (recoverLoop policy q rest).map fun r => (r.1 + 1, r.2) := by
  rw [recoverLoop]
  simp only [ho, hfailed, Option.bind_some, hq]

lemma attemptFailed_eq {db : String} {i : ℕ} {w : SessionTasks} (policy : RestartPolicy)
    (hopening : p.opening = none) (hrec : p.recovery = some (db, i)) (hw : p.workers[i]? = some w) :
    p.attemptFailed policy = some { p with
      workers := p.workers.set i (w.failRecovery policy).2
      recovery := if (w.failRecovery policy).1 then none else p.recovery } := by
  rw [attemptFailed]
  simp only [hopening, hrec, hw]
  rfl

end Loop

/-- How the loop of `recover` ends when there are `n` attempts in it: `s` is the pool before the
last step, and the steps before are those of the attempts and of the failures. -/
structure LoopEnds (policy : RestartPolicy) (p : WorkerPool) (i : ℕ)
    (attempts : List Attempt) (n : ℕ) (s : WorkerPool) : Prop where
  run : ∃ tr, Run ProcessStep p tr ∧ lastOf p tr = s ∧
    (∀ x ∈ tr, x.1.Attempting ∨ x.1 = .pool (.attemptFailed policy)) ∧
    (tr.map Prod.fst).countP ProcessEvent.draws ≤
      (attempts.flatMap Attempt.events).countP ProcessEvent.draws
  meanwhile : Meanwhile (· ≠ i) p s
  returns :
    (∃ j, s.opening = some (j, .opened) ∧
      recoverLoop policy p attempts = s.register.map fun q => (n, .ok (), q)) ∨
    ∃ q text, s.attemptFailed policy = some q ∧ q.recovery = none ∧
      recoverLoop policy p attempts = some (n, fail text, q)

/-- The loop of `recover` ends within the attempts that the policy leaves it. -/
lemma recoverLoop_ends {policy : RestartPolicy} {db : String} {i : ℕ} {w : SessionTasks}
    (attempts : List Attempt) (hwatch : p.Watchful) (hrec : p.recovery = some (db, i))
    (hopening : p.opening = none) (hw : p.workers[i]? = some w) (hne : attempts ≠ [])
    (henough : policy.max_restarts < attempts.length + w.session.restart_failures) :
    ∃ n s, 0 < n ∧ n ≤ policy.max_restarts - w.session.restart_failures + 1 ∧
      LoopEnds policy p i attempts n s := by
  induction attempts generalizing p w with
  | nil => exact absurd rfl hne
  | cons a rest ih =>
    obtain ⟨tr, hrun, hlast, htr, hcount⟩ := p.attempt_run a
    have hsome : p.recovery ≠ none := by
      rw [hrec]
      nofun
    have hmean : Meanwhile (fun _ => True) p (p.attempt a) := by
      rw [← hlast]
      exact meanwhile_run hrun htr hsome hopening
    have hrec' : (p.attempt a).recovery = some (db, i) := hmean.recovery.trans hrec
    -- the session itself has no monitor any more
    obtain ⟨v, hv, hhealth⟩ := hwatch.recovering db i hrec
    rw [hw] at hv
    cases hv
    have hdone := hwatch.all w (List.mem_of_getElem? hw) (by rw [hhealth]; decide)
    obtain ⟨w', hw', haside⟩ := hmean.others i w trivial hw
    obtain ⟨hsession, -⟩ := haside.of_done hdone
    have hothers : Meanwhile (· ≠ i) p (p.attempt a) := hmean.mono fun _ _ => trivial
    rw [List.length_cons] at henough
    rcases p.attempt_opening a with hnone | ⟨j, hj⟩
    · have hfailed := attemptFailed_eq policy hnone hrec' hw'
      rcases w'.failRecovery_cases policy with ⟨htrue, -⟩ | ⟨hfalse, -, hle⟩
      · obtain ⟨text, hloop⟩ := recoverLoop_last rest hnone hfailed (if_pos htrue)
        refine ⟨1, p.attempt a, Nat.one_pos, Nat.le_add_left 1 _,
          ⟨tr, hrun, hlast, fun x hx => .inl (htr x hx), ?_⟩, hothers,
          .inr ⟨_, text, hfailed, ?_, hloop⟩⟩
        · rw [List.flatMap_cons, List.countP_append]
          exact Nat.le_add_right_of_le hcount
        · exact if_pos htrue
      · -- the session has failed once more, and the rest of the attempts is for it
        rw [if_neg (by rw [hfalse]; decide)] at hfailed
        have hfailures := w'.failRecovery_failures policy
        rw [hsession] at hfailures hle
        have hw'' := List.getElem?_set_self (a := (w'.failRecovery policy).2)
          (List.getElem?_eq_some_iff.mp hw').1
        have hstep : ProcessStep (lastOf p tr) (.pool (.attemptFailed policy)) { p.attempt a with
            workers := (p.attempt a).workers.set i (w'.failRecovery policy).2 } := by
          rw [hlast]
          exact hfailed
        have hwatch' := hstep.watchful (watchful_run hrun hwatch)
        have hrest : rest ≠ [] := by
          rintro rfl
          rw [List.length_nil] at henough
          omega
        obtain ⟨n, s, hn, hbound, ⟨tr', hrun'', hlast', htr', hcount'⟩, hmean', hreturns⟩ :=
          ih hwatch' hrec' hnone hw'' hrest (by rw [hfailures]; omega)
        have hmean'' : Meanwhile (· ≠ i) p { p.attempt a with
            workers := (p.attempt a).workers.set i (w'.failRecovery policy).2 } :=
          hothers.set hw' (fun hi => absurd rfl hi) (p.attempt a).next_call
        rw [hfailures] at hbound
        refine ⟨n + 1, s, Nat.succ_pos n, by omega,
          ⟨tr ++ (_, _) :: tr', hrun.append (.cons hstep hrun''),
          ?_, fun x hx => ?_, ?_⟩, hmean''.trans hmean', ?_⟩
        · rw [lastOf_append]
          exact hlast'
        · rcases List.mem_append.mp hx with hx | hx
          · exact .inl (htr x hx)
          · rcases List.mem_cons.mp hx with rfl | hx
            · exact .inr rfl
            · exact htr' x hx
        · rw [List.map_append, List.countP_append, List.flatMap_cons, List.countP_append]
          exact Nat.add_le_add hcount hcount'
        · rw [recoverLoop_next rest hnone hfailed hrec']
          rcases hreturns with ⟨j, hj, hloop⟩ | ⟨q, text, hlastFailed, hq, hloop⟩
          · refine .inl ⟨j, hj, ?_⟩
            rw [hloop, Option.map_map]
            rfl
          · refine .inr ⟨q, text, hlastFailed, hq, ?_⟩
            rw [hloop]
            rfl
    · refine ⟨1, p.attempt a, Nat.one_pos, Nat.le_add_left 1 _,
        ⟨tr, hrun, hlast, fun x hx => .inl (htr x hx), ?_⟩, hothers,
        .inl ⟨j, hj, recoverLoop_opened rest hj⟩⟩
      rw [List.flatMap_cons, List.countP_append]
      exact Nat.le_add_right_of_le hcount

/-! ## The swap -/

/-- A new session under a new handle is moved to the slot of the recovered one. -/
lemma register_eq {db : String} {i j : ℕ} (ho : p.opening = some (j, .opened))
    (hrec : p.recovery = some (db, i)) (hdb : db ∈ p.sessions.map Prod.fst)
    (hfresh : (Handle.mk "db" p.next_id).text ∉ p.sessions.map Prod.fst) :
    p.register = some { p with
      sessions := p.sessions.set (p.sessions.findIdx fun e => e.1 = db) (db, j)
      opening := none, recovery := none, next_id := p.next_id + 1 } := by
  have hregister : p.register =
      let text := (Handle.mk "db" p.next_id).text
      let pushed := p.sessions ++ [(text, j)]
      (pushed.find? fun e => e.1 = text).bind fun fresh =>
        let rest := pushed.eraseIdx (pushed.findIdx fun e => e.1 = text)
        if rest.any fun e => e.1 = db then
          some { p with sessions := rest.set (rest.findIdx fun e => e.1 = db) (db, fresh.2)
                        opening := none, recovery := none, next_id := p.next_id + 1 }
        else none := by
    rw [register]
    simp only [ho, hrec]
    rfl
  -- the new handle is the last one, and it is taken away again
  have hnew : ∀ e ∈ p.sessions, decide (e.1 = (Handle.mk "db" p.next_id).text) = false :=
    fun e he => decide_eq_false fun h => hfresh (List.mem_map.mpr ⟨e, he, h⟩)
  have hfind : (p.sessions ++ [((Handle.mk "db" p.next_id).text, j)]).find?
      (fun e => e.1 = (Handle.mk "db" p.next_id).text) =
      some ((Handle.mk "db" p.next_id).text, j) := by
    rw [List.find?_append, List.find?_eq_none.mpr fun e he => Bool.eq_false_iff.mp (hnew e he)]
    simp
  have hidx : (p.sessions ++ [((Handle.mk "db" p.next_id).text, j)]).findIdx
      (fun e => e.1 = (Handle.mk "db" p.next_id).text) = p.sessions.length := by
    rw [List.findIdx_append, List.findIdx_eq_length_of_false hnew, if_neg (lt_irrefl _)]
    simp [List.findIdx_cons]
  have herase : (p.sessions ++ [((Handle.mk "db" p.next_id).text, j)]).eraseIdx p.sessions.length =
      p.sessions := by
    rw [List.eraseIdx_append_of_length_le le_rfl, Nat.sub_self]
    simp
  have hany : p.sessions.any (fun e => decide (e.1 = db)) = true := by
    obtain ⟨e, he, rfl⟩ := List.mem_map.mp hdb
    exact List.any_eq_true.mpr ⟨e, he, decide_eq_true rfl⟩
  rw [hregister]
  dsimp only
  rw [hfind, Option.bind_some, hidx, herase, if_pos hany]

/-! ## A dead session -/

/-- `recover` makes no attempt for a dead session. -/
lemma recoverWith_dead {db : String} {i : ℕ} {w : SessionTasks} (hsession : p.session db = some i)
    (hw : p.workers[i]? = some w) (hdead : w.session.health = .dead) (policy : RestartPolicy)
    (attempts : List Attempt) : p.recoverWith db policy attempts =
      some (0, fail "worker recovery budget exhausted; close and reopen the db", p) := by
  have hrec : p.recover db = fail "worker recovery budget exhausted; close and reopen the db" := by
    rw [recover, hsession]
    simp only [Outcome.ofOption, Outcome.ok_bind, hw, SessionTasks.beginRecovery, hdead]
    rfl
  rw [recoverWith, hrec]
  rfl

end WorkerPool

open WorkerPool in
/-- A dead session stays dead. -/
lemma ProcessStep.dead {i : ℕ} {w : SessionTasks} (hstep : ProcessStep p e p') (hwatch : p.Watchful)
    (hw : p.workers[i]? = some w) (hdead : w.session.health = .dead) :
    ∃ w', p'.workers[i]? = some w' ∧ w'.session.health = .dead := by
  cases e with
  | draw =>
    cases hstep
    exact ⟨w, hw, hdead⟩
  | drop =>
    cases hstep
    exact ⟨w, hw, hdead⟩
  | pool e =>
    have hpool : PoolStep p e p' := hstep
    -- a step of another session, or one of this session that leaves it dead
    have hset : ∀ {j : ℕ} {v v' : SessionTasks}, p.workers[j]? = some v →
        (v.session.health = .dead → v'.session.health = .dead) →
        ∃ w', (p.workers.set j v')[i]? = some w' ∧ w'.session.health = .dead := by
      intro j v v' hv hv'
      exact exists_set_of_some hv ⟨w, hw, hdead⟩ fun _ => hv'
    cases hpool.effect with
    | spawned session_meta hopening =>
      obtain ⟨hlt, -⟩ := List.getElem?_eq_some_iff.mp hw
      exact ⟨w, by rw [List.getElem?_append_left hlt]; exact hw, hdead⟩
    | waited opening hopening => exact ⟨w, hw, hdead⟩
    | registered hr =>
      obtain ⟨j, sessions, -, rfl, -⟩ := register_eq_some hr
      exact ⟨w, hw, hdead⟩
    | closed db k hrecovery => exact ⟨w, hw, hdead⟩
    | worked j v v' opening next_call hv hworks hopening =>
      refine hset hv fun hvdead => ?_
      have hdone := hwatch.all v (List.mem_of_getElem? hv) (by rw [hvdead]; decide)
      rw [(hworks.aside.of_done hdone).1]
      exact hvdead
    | began db j v hv hhealth hnot hrecovery => exact hset hv fun hvdead => absurd hvdead hnot
    | failed policy db j v hrecovery hv =>
      obtain ⟨v', hv', hhealth⟩ := hwatch.recovering db j hrecovery
      rw [hv] at hv'
      cases hv'
      refine hset hv fun hvdead => ?_
      rw [hvdead] at hhealth
      cases hhealth

namespace WorkerPool

/-- A dead session stays dead for good, and `recover` fails at once. -/
lemma dead_run {i : ℕ} {w : SessionTasks} {tr : List (ProcessEvent × WorkerPool)}
    (hrun : Run ProcessStep p tr) (hwatch : p.Watchful) (hw : p.workers[i]? = some w)
    (hdead : w.session.health = .dead) : ∀ q ∈ statesOf p tr,
      (∃ w, q.workers[i]? = some w ∧ w.session.health = .dead) ∧
        ∀ db policy attempts, q.session db = some i → q.recoverWith db policy attempts =
          some (0, fail "worker recovery budget exhausted; close and reopen the db", q) := by
  intro q hq
  obtain ⟨-, v, hv, hvdead⟩ := hrun.invariant
    (I := fun q => q.Watchful ∧ ∃ w, q.workers[i]? = some w ∧ w.session.health = .dead)
    (along_true p tr) ⟨hwatch, w, hw, hdead⟩ (fun p e p' hstep _ h => by
      obtain ⟨hwatch, v, hv, hvdead⟩ := h
      exact ⟨hstep.watchful hwatch, hstep.dead hwatch hv hvdead⟩) q hq
  exact ⟨⟨v, hv, hvdead⟩, fun db policy attempts hsession =>
    recoverWith_dead hsession hv hvdead policy attempts⟩

/-! ## The call -/

/-- `recover` begins. -/
lemma recover_begins {db : String} (hopening : p.opening = none) (hrecovery : p.recovery = none)
    (hrec : p.recover db = .ok (some q)) : ProcessStep p (.pool (.recover db)) q := by
  show p.act (.recover db) = some q
  rw [act, hopening, hrecovery]
  simp only [hrec]
  rfl

lemma mem_handles_of_session {db : String} {i : ℕ} (h : p.session db = some i) :
    db ∈ p.sessions.map Prod.fst := by
  obtain ⟨e, he, -⟩ := Option.map_eq_some_iff.mp h
  have hdb := List.find?_some he
  exact List.mem_map.mpr ⟨e, List.mem_of_find?_eq_some he, of_decide_eq_true hdb⟩

/-- `recover` returns without an attempt. -/
lemma bounded_of_idle {db : String} {policy : RestartPolicy} {attempts : List Attempt}
    {r : Result Unit}
    (hwith : p.recoverWith db policy attempts = some (0, r, p)) (hcount : p.Counting)
    (hhealthy : r = .ok () → ∀ i w, p.session db = some i → p.workers[i]? = some w →
      w.session.health = .healthy) : p.BoundedRecovery db policy attempts := by
  refine ⟨0, r, p, hwith, Nat.zero_le _, fun w hw => (hcount.all w hw).fits, ?_, ?_⟩
  · intro i w hi hw hne hr
    exact absurd (hhealthy hr i w hi hw) hne
  · intro e _ hpos
    exact absurd hpos (lt_irrefl 0)

section Ends

variable {db : String} {i : ℕ} {w w' : SessionTasks} {s : WorkerPool}

/-- The pool at the beginning of a recovery. -/
def beginning (p : WorkerPool) (db : String) (i : ℕ) (w : SessionTasks) : WorkerPool :=
  { p with
    workers := p.workers.set i { w with session := { w.session with health := .recovering } }
    recovery := some (db, i) }

/-- The new session takes the slot. -/
lemma replaced_of_register {j : ℕ} (hi : p.session db = some i)
    (hmean : Meanwhile (· ≠ i) (p.beginning db i w) s) (hj : s.opening = some (j, .opened))
    (hfresh : (Handle.mk "db" s.next_id).text ∉ s.sessions.map Prod.fst) :
    ∃ q, s.register = some q ∧ p.Replaced db q := by
  have hsessions : s.sessions = p.sessions := hmean.sessions
  have hdb := mem_handles_of_session hi
  obtain ⟨hle, hlt⟩ := hmean.opening j _ hj
  rw [beginning, List.length_set] at hle
  refine ⟨_, register_eq hj (hmean.recovery.trans rfl) (by rw [hsessions]; exact hdb) hfresh,
    ⟨?_, j, hle, hlt, by rw [hsessions]⟩⟩
  -- the handle of the slot is the one it had
  obtain ⟨e, he, hedb⟩ := List.mem_map.mp hdb
  have hlen : (p.sessions.findIdx fun e => e.1 = db) < p.sessions.length :=
    List.findIdx_lt_length_of_exists ⟨e, he, decide_eq_true hedb⟩
  have hslot : p.sessions[p.sessions.findIdx fun e => e.1 = db].1 = db :=
    of_decide_eq_true (List.findIdx_getElem (w := hlen))
  dsimp only
  rw [hsessions, List.map_set]
  refine List.ext_getElem? fun k => ?_
  rw [List.getElem?_set]
  split
  · rename_i hk
    subst hk
    rw [List.getElem?_map, List.getElem?_eq_getElem hlen, Option.map_some, hslot, List.length_map,
      if_pos hlen]
  · rfl

/-- The session is given up. -/
lemma exhausted_of_failed {policy : RestartPolicy} (hi : p.session db = some i)
    (hmean : Meanwhile (· ≠ i) (p.beginning db i w) s) (hfailed : s.attemptFailed policy = some q)
    (hq : q.recovery = none) (hwatch : q.Watchful) : p.Exhausted db q := by
  obtain ⟨db', i', v, -, hrec, hv, rfl⟩ := attemptFailed_eq_some hfailed
  have hbegun : s.recovery = some (db, i) := hmean.recovery
  rw [hbegun] at hrec
  cases hrec
  refine ⟨hmean.sessions, fun j u hj hu => ?_, fun j hj tr hrun => ?_⟩
  · have hne : j ≠ i := by
      rintro rfl
      exact hj hi
    have hu' : (p.beginning db i w).workers[j]? = some u := by
      rw [beginning, List.getElem?_set_ne hne.symm]
      exact hu
    obtain ⟨u', hs, haside⟩ := hmean.others j u hne hu'
    refine ⟨u', ?_, ?_⟩
    · rw [List.getElem?_set_ne hne.symm]
      exact hs
    · rcases haside with ⟨hsession, -⟩ | ⟨hmonitor, -, hsession⟩
      · exact .inl hsession
      · exact .inr ⟨hmonitor, hsession⟩
  · rw [hi] at hj
    cases hj
    -- the attempt was the last one, or the recovery would go on
    rcases v.failRecovery_cases policy with ⟨-, hdead⟩ | ⟨hfalse, -, -⟩
    · exact dead_run hrun hwatch (List.getElem?_set_self (List.getElem?_eq_some_iff.mp hv).1) hdead
    · dsimp only at hq
      rw [if_neg (by rw [hfalse]; decide), hbegun] at hq
      cases hq

end Ends

end WorkerPool

open WorkerPool in
/-- In every run of a process that draws at most 2^64 numbers, `recover` returns within the attempts
of its policy and no counter overflows; a recovered session has a new one in its slot and the others
keep theirs, and a session that has used up its attempts is dead for good. -/
theorem recover_bounded {tr : List (ProcessEvent × WorkerPool)} (hrun : Run ProcessStep .new tr)
    (hcapped : ∀ x ∈ tr, x.1.Capped) (hopening : (lastOf .new tr).opening = none)
    (hrecovery : (lastOf .new tr).recovery = none) (db : String) (policy : RestartPolicy)
    (hpolicy : policy.max_restarts < 2 ^ 32 - 1) (attempts : List Attempt)
    (hlong : policy.max_restarts < attempts.length)
    (hdraws : (tr.map Prod.fst).countP ProcessEvent.draws +
      (attempts.flatMap Attempt.events).countP ProcessEvent.draws < 2 ^ 64) :
    (lastOf .new tr).BoundedRecovery db policy attempts := by
  have hwatch := watchful_run hrun (new_each _ _)
  have hcount := counting_run hrun hcapped (new_each _ _)
  have hnumbered := numbered_run hrun new_numbered
  generalize lastOf .new tr = p at *
  cases hrec : p.recover db with
  | panic b =>
    have hwith :
        p.recoverWith db policy attempts = some (0, .panic b, p) := by rw [recoverWith, hrec]
    exact bounded_of_idle hwith hcount fun h => nomatch h
  | err e =>
    have hwith : p.recoverWith db policy attempts = some (0, .err e, p) := by rw [recoverWith, hrec]
    exact bounded_of_idle hwith hcount fun h => nomatch h
  | ok o =>
    obtain ⟨i, w, hi, hw, ⟨hhealth, rfl⟩ | ⟨hhealth, hdead, hbegins⟩⟩ := recover_eq_ok hrec
    · refine bounded_of_idle (by rw [recoverWith, hrec]) hcount fun _ i' w' hi' hw' => ?_
      rw [hi] at hi'
      cases hi'
      rw [hw] at hw'
      cases hw'
      exact hhealth
    · obtain rfl : o = some (p.beginning db i w) := hbegins
      have hstep := recover_begins hopening hrecovery hrec
      have hw₁ := List.getElem?_set_self
        (a := { w with session := { w.session with health := .recovering } })
        (List.getElem?_eq_some_iff.mp hw).1
      have hne : attempts ≠ [] := by
        rintro rfl
        cases hlong
      have hwith :
          p.recoverWith db policy attempts = recoverLoop policy (p.beginning db i w) attempts := by
        rw [recoverWith, hrec]
      obtain ⟨n, s, hn, hle, ⟨tr', hrun', rfl, htr', hcount'⟩, hmean, hreturns⟩ :=
        recoverLoop_ends (p := p.beginning db i w) attempts (hstep.watchful hwatch) rfl
          hopening hw₁ hne (Nat.lt_add_right _ hlong)
      have hcapped' : ∀ x ∈ tr', x.1.Capped := by
        intro x hx
        rcases htr' x hx with he | he
        · exact he.capped
        · rw [he]
          exact hpolicy
      have hwatch' := watchful_run hrun' (hstep.watchful hwatch)
      have hcount'' := counting_run hrun' hcapped' (hstep.counting trivial hcount)
      have hbound : n ≤ policy.max_restarts + 1 := by omega
      rcases hreturns with ⟨j, hj, hloop⟩ | ⟨q, text, hfailed, hq, hloop⟩
      · have hnumbered' := numbered_run hrun' (hstep.numbered hnumbered)
        have hnone : (ProcessEvent.pool (.recover db)).draws = false := rfl
        rw [hnone, if_neg Bool.false_ne_true] at hnumbered'
        have hfresh := hnumbered'.fresh (by omega)
        obtain ⟨q, hregister, hreplaced⟩ := replaced_of_register hi hmean hj hfresh
        have hlast : ProcessStep (lastOf (p.beginning db i w) tr') (.pool .register) q := hregister
        rw [hregister] at hloop
        refine ⟨n, .ok (), q, hwith.trans hloop, hbound,
          fun v hv => ((hlast.counting trivial hcount'').all v hv).fits, ?_, ?_⟩
        · exact fun _ _ _ _ _ _ => hreplaced
        · exact fun _ h => nomatch h
      · have hlast :
            ProcessStep (lastOf (p.beginning db i w) tr') (.pool (.attemptFailed policy)) q :=
          hfailed
        refine ⟨n, fail text, q, hwith.trans hloop, hbound,
          fun v hv => ((hlast.counting hpolicy hcount'').all v hv).fits, ?_, ?_⟩
        · exact fun _ _ _ _ _ h => nomatch h
        · exact fun _ _ _ => exhausted_of_failed hi hmean hfailed hq (hlast.watchful hwatch')

/-- A database is opened, and its worker exits during a request. -/
def exitEvents : List ProcessEvent :=
  [.pool (.spawn 4 ⟨"a.i64", "mock", ""⟩), .pool (.receive 0 true),
  .pool (.respond 0 1 true), .pool (.receive 0 true), .pool (.respond 0 2 true), .pool .register,
  .pool (.request 0), .pool (.receive 0 true), .pool (.crashed 0 "worker exited unexpectedly"),
  .pool (.notify 0), .pool (.mark 0)]

/-- No worker can be started. -/
def Attempt.refused : Attempt := ⟨[], none, [], nofun⟩

/-- The second worker of the pool is started, and opens the database. -/
def Attempt.reopened : Attempt where
  before := []
  respawn := some "mock"
  after := [.pool (.receive 1 true), .pool (.respond 1 4 true), .pool (.receive 1 true),
    .pool (.respond 1 5 true)]
  others := by decide

/-- What happens until the worker has exited is a run in which no counter can overflow. -/
lemma exit_run : Run ProcessStep .new (follow WorkerPool.process .new exitEvents) ∧
    ∀ x ∈ follow WorkerPool.process .new exitEvents, x.1.Capped := by
  have hevents : ∀ e ∈ exitEvents, e.Capped := by decide
  exact ⟨follow_run WorkerPool.process .new exitEvents, fun x hx =>
    hevents _ ((follow_events WorkerPool.process .new exitEvents).subset (List.mem_map_of_mem hx))⟩

/-- The second attempt succeeds. -/
theorem recover_bounded_exit :
    let p := lastOf .new (follow WorkerPool.process .new exitEvents)
    p.BoundedRecovery "db1" ⟨1⟩ [.refused, .reopened] :=
  recover_bounded exit_run.1 exit_run.2 (by decide +kernel) (by decide +kernel) "db1" ⟨1⟩
    (by decide) [.refused, .reopened] (by decide) (by decide +kernel)

/-- Other parts of the process draw numbers. -/
lemma draw_run (p : WorkerPool) (n : ℕ) : ∃ tr, Run ProcessStep p tr ∧
    lastOf p tr = { p with next_id := p.next_id + asU64 n } ∧ ∀ x ∈ tr, x.1 = .draw := by
  induction n generalizing p with
  | zero =>
    have hzero : p.next_id + asU64 0 = p.next_id := Fin.add_zero p.next_id
    exact ⟨[], .nil p, by rw [hzero]; rfl, nofun⟩
  | succ n ih =>
    obtain ⟨tr, hrun, hlast, hdraw⟩ := ih { p with next_id := p.next_id + 1 }
    have hsucc : p.next_id + 1 + asU64 n = p.next_id + asU64 (n + 1) := by
      refine Fin.ext ?_
      have hone : (1 : U64).val = 1 := rfl
      simp only [Fin.val_add, asU64, Fin.val_ofNat, hone]
      omega
    refine ⟨(.draw, _) :: tr, .cons rfl hrun, ?_, ?_⟩
    · rw [lastOf_cons, hlast, hsucc]
    · intro x hx
      rcases List.mem_cons.mp hx with rfl | hx
      · rfl
      · exact hdraw x hx

open WorkerPool in
/-- The counter wraps, and the new session comes under the handle of the recovered one: `recover`
takes the old session out of its slot, and puts it back. -/
theorem recover_bounded_not : ¬ ∀ tr, Run ProcessStep .new tr → (∀ x ∈ tr, x.1.Capped) →
    (lastOf .new tr).opening = none → (lastOf .new tr).recovery = none →
    ∀ db (policy : RestartPolicy),
    policy.max_restarts < 2 ^ 32 - 1 → ∀ attempts : List Attempt,
    policy.max_restarts < attempts.length →
    (lastOf .new tr).BoundedRecovery db policy attempts := by
  intro h
  obtain ⟨tr, hrun, hlast, hdraw⟩ :=
    draw_run (lastOf .new (follow process .new exitEvents)) (2 ^ 64 - 1)
  have hwrap : (lastOf .new (follow process .new exitEvents)).next_id + asU64 (2 ^ 64 - 1) = 1 := by
    decide +kernel
  rw [hwrap] at hlast
  have hlast' : lastOf .new (follow process .new exitEvents ++ tr) = _ :=
    (lastOf_append _ _ _).trans hlast
  have hcapped : ∀ x ∈ follow process .new exitEvents ++ tr, x.1.Capped := by
    intro x hx
    rcases List.mem_append.mp hx with hx | hx
    · exact exit_run.2 x hx
    · rw [hdraw x hx]
      trivial
  have hbounded := h _ (exit_run.1.append hrun) hcapped
  rw [hlast'] at hbounded
  obtain ⟨n, r, q, hrec, -, -, hok, -⟩ := hbounded (by decide +kernel) (by decide +kernel) "db1" ⟨0⟩
    (by decide) [.reopened] (by decide)
  -- the slot has the session it had
  have hresult :
      (recoverWith { lastOf .new (follow process .new exitEvents) with next_id := 1 } "db1" ⟨0⟩
      [.reopened]).map (fun x => (x.2.1, x.2.2.sessions)) = some (.ok (), [("db1", 0)]) := by
    decide +kernel
  rw [hrec] at hresult
  obtain ⟨hr, hq⟩ := Prod.mk.inj (Option.some.inj hresult)
  obtain ⟨w, hw, hhealth⟩ :
      ∃ w, (lastOf .new (follow process .new exitEvents)).workers[0]? = some w ∧
      w.session.health = .crashed := by
    refine ⟨_, rfl, ?_⟩
    decide +kernel
  obtain ⟨-, j, hle, -, hslot⟩ := hok 0 w (by decide +kernel) hw (by rw [hhealth]; decide) hr
  have hsessions : (lastOf .new (follow process .new exitEvents)).sessions = [("db1", 0)] := by
    decide +kernel
  have hlen : (lastOf .new (follow process .new exitEvents)).workers.length = 1 := by decide +kernel
  dsimp only at hq hslot hle
  rw [hq, hsessions] at hslot
  obtain rfl : 0 = j := by simpa [List.findIdx_cons] using hslot
  rw [hlen] at hle
  exact absurd hle (by decide)

end ReverseMcp
