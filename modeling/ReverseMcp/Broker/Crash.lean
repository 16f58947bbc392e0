import Mathlib.Data.List.Basic
import ReverseMcp.Broker.WorkerPool

/-!
# Crash detection

A session becomes something else than healthy in one way: its pump reports a crash, and the monitor
marks it.  The pump has four exits.  Two of them report, the closed channel comes only behind the
mark, and the failed write of a request ends the pump without a report.  A session in the pool
whose pump has ended that way stays healthy for good, and `recover` answers `Ok` for it without
doing anything.  Where no write to the worker of a session in the pool fails, every pump that has
ended has made its session known as crashed (`crash_detected`).
-/

namespace ReverseMcp

open Rust

/-! ## One session -/

namespace SessionTasks

variable {w w' : SessionTasks}

/-- No notice of the pump is on its way to the session. -/
def Handled (w : SessionTasks) : Prop := w.crash = none ∧ w.monitor ≠ .marking

instance (w : SessionTasks) : Decidable w.Handled := inferInstanceAs (Decidable (_ ∧ _))

/-- A running pump can be reached, and a pump that has ended is known or about to be. -/
structure Watched (w : SessionTasks) : Prop where
  running : w.pumping = true → w.session.tx = true ∧ w.crash = none ∧ w.monitor ≠ .marking
  ended : w.pumping = false → w.Handled → w.session.health ≠ .healthy

lemma new_watched (session_meta : SessionMeta) (queue : List U64) :
    Watched { new session_meta with queue } where
  running := fun _ => ⟨rfl, rfl, by simp [new]⟩
  ended := fun h => by cases h

/-- The requests do not matter to the watch. -/
lemma Watched.requests (h : w.Watched) (queue pending : List U64) :
    Watched { w with queue, pending } := ⟨h.running, h.ended⟩

/-- A session that is not healthy stays watched when its health moves on. -/
lemma Watched.unhealthy (h : w.Watched) {health : WorkerHealth} (hh : health ≠ .healthy)
    (restart_failures : ℕ) :
    Watched { w with session := { w.session with health, restart_failures } } :=
  ⟨h.running, fun _ _ => hh⟩

lemma send_eq_some {id : U64} {r : Result Unit} (h : w.send id = some (r, w')) :
    w' = w ∨ w' = { w with queue := w.queue ++ [id] } := by
  rw [send] at h
  split at h
  · cases h
    exact .inl rfl
  · split at h
    · cases h
      exact .inl rfl
    · split at h
      · cases h
        exact .inr rfl
      · cases h

lemma receive_eq_some {written : Bool} (h : w.receive written = some w') :
    ∃ id rest, w.queue = id :: rest ∧
      ((written = true ∧
        w' = { w with queue := rest, pending := id :: w.pending.filter (· ≠ id) }) ∨
        (written = false ∧ w' = w.stopPump)) := by
  rw [receive] at h
  split at h
  · rename_i id rest hpump hqueue
    refine ⟨id, rest, hqueue, ?_⟩
    split at h
    · rename_i hw
      cases h
      exact .inl ⟨hw, rfl⟩
    · rename_i hw
      cases h
      exact .inr ⟨by simpa using hw, rfl⟩
  · cases h

lemma respond_eq_some {id : U64} (h : w.respond id = some w') :
    w.pumping = true ∧ w' = { w with pending := w.pending.filter (· ≠ id) } := by
  rw [respond] at h
  split at h
  · rename_i hp
    cases h
    exact ⟨hp, rfl⟩
  · cases h

lemma crashed_eq_some {why : String} (h : w.crashed why = some w') :
    w' = { w.stopPump with crash := some why } := by
  rw [crashed] at h
  split at h
  · cases h
    rfl
  · cases h

lemma closed_eq_some (h : w.closed = some w') :
    w.pumping = true ∧ w.session.tx = false ∧ w' = w.stopPump := by
  rw [closed] at h
  split at h
  · rename_i hp htx hq
    cases h
    exact ⟨hp, htx, rfl⟩
  · cases h

lemma notify_eq_some (h : w.notify = some w') : w.monitor = .waiting ∧
    ((∃ why, w.crash = some why ∧ w' = { w with crash := none, monitor := .marking }) ∨
      (w.crash = none ∧ w.pumping = false ∧ w' = { w with monitor := .done })) := by
  rw [notify] at h
  split at h
  · rename_i why hmon hcrash
    cases h
    exact ⟨hmon, .inl ⟨why, hcrash, rfl⟩⟩
  · rename_i hmon hcrash hp
    cases h
    exact ⟨hmon, .inr ⟨hcrash, hp, rfl⟩⟩
  · cases h

lemma mark_eq_some (h : w.mark = some w') : w.monitor = .marking ∧
    w' = { w with session := w.session.mark_crashed, monitor := .done } := by
  rw [mark] at h
  split at h
  · rename_i hmarking
    cases h
    exact ⟨hmarking, rfl⟩
  · cases h

/-- A pump that is watched does not see a closed channel. -/
lemma Watched.not_closed (h : w.Watched) : w.closed ≠ some w' := by
  intro hclosed
  obtain ⟨hp, htx, -⟩ := closed_eq_some hclosed
  rw [(h.running hp).1] at htx
  cases htx

lemma Watched.crashed (w : SessionTasks) (why : String) :
    Watched { w.stopPump with crash := some why } where
  running := fun h => by cases h
  ended := fun _ hh => by cases hh.1

/-- Receiving the notice turns it into a mark that is to come. -/
lemma Watched.notify (h : w.Watched) (hn : w.notify = some w') : w'.Watched := by
  obtain ⟨hmon, ⟨why, hcrash, rfl⟩ | ⟨hcrash, hp, rfl⟩⟩ := notify_eq_some hn
  · refine ⟨fun hrun => ?_, fun _ hh => absurd rfl hh.2⟩
    have hnone := (h.running hrun).2.1
    rw [hcrash] at hnone
    cases hnone
  · refine ⟨fun hrun => ?_, fun hended _ => h.ended hended ⟨hcrash, by rw [hmon]; decide⟩⟩
    have hfalse : w.pumping = true := hrun
    rw [hp] at hfalse
    cases hfalse

/-- The mark makes the crash known. -/
lemma Watched.mark (h : w.Watched) (hm : w.mark = some w') : w'.Watched := by
  obtain ⟨hmarking, rfl⟩ := mark_eq_some hm
  exact ⟨fun hrun => absurd hmarking (h.running hrun).2.2,
    fun _ _ => by simp [WorkerSession.mark_crashed]⟩

/-- `recover` goes on only with a session that is neither healthy nor dead. -/
lemma beginRecovery_eq_ok {o : Option SessionTasks} (h : w.beginRecovery = .ok o) :
    (w.session.health = .healthy ∧ o = none) ∨
      (w.session.health ≠ .healthy ∧ w.session.health ≠ .dead ∧
        o = some { w with session := { w.session with health := .recovering } }) := by
  rw [beginRecovery] at h
  split at h
  · rename_i hh
    cases h
    exact .inl ⟨hh, rfl⟩
  · cases h
  · rename_i hh hdead
    cases h
    exact .inr ⟨hh, hdead, rfl⟩

lemma Watched.failRecovery (h : w.Watched) (policy : RestartPolicy) :
    (w.failRecovery policy).2.Watched := by
  rw [SessionTasks.failRecovery]
  dsimp only
  split
  · exact h.unhealthy (by decide) _
  · exact ⟨h.running, h.ended⟩

/-- What `spawn_for` waits for is in the channel or pending. -/
def Fits (w : SessionTasks) : Stage → Prop
  | .select id | .openDb id =>
    (w.queue = [id] ∧ w.pending = []) ∨ (w.queue = [] ∧ ∀ x ∈ w.pending, x = id)
  | .opened => w.queue = []

/-- Only the requests matter to what `spawn_for` waits for. -/
lemma Fits.of_requests {stage : Stage} (h : w.Fits stage)
    (hr : w'.queue = w.queue ∧ w'.pending = w.pending) : w'.Fits stage := by
  cases stage <;> simpa only [Fits, hr.1, hr.2] using h

lemma notify_requests (h : w.notify = some w') : w'.queue = w.queue ∧ w'.pending = w.pending := by
  obtain ⟨-, ⟨why, -, rfl⟩ | ⟨-, -, rfl⟩⟩ := notify_eq_some h
  · exact ⟨rfl, rfl⟩
  · exact ⟨rfl, rfl⟩

lemma mark_requests (h : w.mark = some w') : w'.queue = w.queue ∧ w'.pending = w.pending := by
  obtain ⟨-, rfl⟩ := mark_eq_some h
  exact ⟨rfl, rfl⟩

/-- Taking the request from the channel, or an answer to some request, leaves the rest in place. -/
lemma Fits.receive {stage : Stage} {id : U64} {rest : List U64} (h : w.Fits stage)
    (hq : w.queue = id :: rest) :
    Fits { w with queue := rest, pending := id :: w.pending.filter (· ≠ id) } stage := by
  cases stage with
  | select id' | openDb id' =>
    rcases h with ⟨hqueue, hpending⟩ | ⟨hqueue, -⟩
    · rw [hq] at hqueue
      cases hqueue
      exact .inr ⟨rfl, by simp [hpending]⟩
    · rw [hq] at hqueue
      cases hqueue
  | opened =>
    have hnil : w.queue = [] := h
    rw [hq] at hnil
    cases hnil

lemma Fits.respond {stage : Stage} (h : w.Fits stage) (id : U64) :
    Fits { w with pending := w.pending.filter (· ≠ id) } stage := by
  cases stage with
  | select id' | openDb id' =>
    rcases h with ⟨hqueue, hpending⟩ | ⟨hqueue, hpending⟩
    · exact .inl ⟨hqueue, by simp [hpending]⟩
    · exact .inr ⟨hqueue, fun x hx => hpending x (List.mem_of_mem_filter hx)⟩
  | opened => exact h

end SessionTasks

/-! ## The pool -/

namespace WorkerPool

variable {p p' : WorkerPool} {i : ℕ} {w w' : SessionTasks}

/-- The sessions of the pool and the one that is being opened are watched. -/
structure Sound (p : WorkerPool) : Prop where
  pooled : ∀ i ∈ p.sessions.map Prod.snd, ∃ w, p.workers[i]? = some w ∧ w.Watched
  opening : ∀ i stage, p.opening = some (i, stage) →
    ∃ w, p.workers[i]? = some w ∧ w.Watched ∧ w.Fits stage

lemma new_sound : Sound new where
  pooled := by simp [new]
  opening := by simp [new]

lemma onWorker_eq_some {f : SessionTasks → Option SessionTasks} (h : p.onWorker i f = some p') :
    ∃ w w', p.workers[i]? = some w ∧ f w = some w' ∧
      p' = { p with workers := p.workers.set i w' } := by
  rw [onWorker] at h
  obtain ⟨w, hw, h⟩ := Option.bind_eq_some_iff.mp h
  obtain ⟨w', hw', rfl⟩ := Option.map_eq_some_iff.mp h
  exact ⟨w, w', hw, hw', rfl⟩

lemma spawn_eq_some {session_meta : SessionMeta} (h : p.spawn session_meta = some p') :
    p.opening = none ∧ p' = { p with
      workers := p.workers ++ [{ SessionTasks.new session_meta with queue := [p.next_call] }]
      opening := some (p.workers.length, .select p.next_call)
      next_call := p.next_call + 1 } := by
  rw [spawn] at h
  split at h
  · cases h
  · rename_i hopening
    cases h
    exact ⟨hopening, rfl⟩

lemma act_spawn {max_workers : ℕ} {session_meta : SessionMeta}
    (h : p.act (.spawn max_workers session_meta) = some p') : p.spawn session_meta = some p' := by
  rw [act] at h
  split at h
  · exact h
  · cases h

/-- A tool calls a session that is not being opened. -/
lemma request_eq_some (h : p.act (.request i) = some p') :
    (∀ stage, p.opening ≠ some (i, stage)) ∧ ∃ q, p' = { q with next_call := p.next_call + 1 } ∧
      p.onWorker i (fun w => (w.send p.next_call).map Prod.snd) = some q := by
  rw [act] at h
  split at h
  · cases h
  · rename_i hother
    obtain ⟨q, hq, rfl⟩ := Option.map_eq_some_iff.mp h
    refine ⟨fun stage hs => hother ?_, q, rfl, hq⟩
    rw [hs]
    exact decide_eq_true rfl

/-- An answer to a request of `spawn_for` moves it on, and other answers do nothing. -/
lemma answered_eq_some {id : U64} {ok : Bool} (h : p.answered i id ok = some p') :
    p' = p ∨ p' = { p with opening := none } ∨
    (p.opening = some (i, .openDb id) ∧ p' = { p with opening := some (i, .opened) }) ∨
    (p.opening = some (i, .select id) ∧ ∃ q,
      p.onWorker i (fun w => (w.send p.next_call).map Prod.snd) = some q ∧
      p' = { q with opening := some (i, .openDb p.next_call), next_call := p.next_call + 1 }) := by
  rw [answered] at h
  split at h
  · rename_i j id' ho
    split at h
    · rename_i hij
      obtain ⟨rfl, rfl⟩ := hij
      cases ok with
      | true =>
        obtain ⟨q, hq, rfl⟩ := Option.map_eq_some_iff.mp h
        exact .inr (.inr (.inr ⟨ho, q, hq, rfl⟩))
      | false =>
        cases h
        exact .inr (.inl rfl)
    · cases h
      exact .inl rfl
  · rename_i j id' ho
    split at h
    · rename_i hij
      obtain ⟨rfl, rfl⟩ := hij
      cases h
      cases ok with
      | true => exact .inr (.inr (.inl ⟨ho, rfl⟩))
      | false => exact .inr (.inl rfl)
    · cases h
      exact .inl rfl
  · cases h
    exact .inl rfl

/-- The sessions behind a registration are those before it and the one that was opened, and their
handles those before it and the next one. -/
lemma register_eq_some (h : p.register = some p') : ∃ i sessions,
    p.opening = some (i, .opened) ∧
    p' = { p with sessions, next_id := p.next_id + 1, opening := none, recovery := none } ∧
    ∀ e ∈ sessions, (e.2 = i ∨ e.2 ∈ p.sessions.map Prod.snd) ∧
      (e.1 = (Handle.mk "db" p.next_id).text ∨ e.1 ∈ p.sessions.map Prod.fst) := by
  rw [register] at h
  split at h
  · rename_i i ho
    split at h
    rename_i handle next_id hnew
    cases hnew
    have hpushed : ∀ e ∈ p.sessions ++ [((Handle.mk "db" p.next_id).text, i)],
        (e.2 = i ∨ e.2 ∈ p.sessions.map Prod.snd) ∧
          (e.1 = (Handle.mk "db" p.next_id).text ∨ e.1 ∈ p.sessions.map Prod.fst) := by
      intro e he
      rcases List.mem_append.mp he with he | he
      · exact ⟨.inr (List.mem_map.mpr ⟨e, he, rfl⟩), .inr (List.mem_map.mpr ⟨e, he, rfl⟩)⟩
      · rw [List.mem_singleton.mp he]
        exact ⟨.inl rfl, .inl rfl⟩
    split at h
    · rename_i hnone
      cases h
      exact ⟨i, _, ho, by rw [← hnone], hpushed⟩
    · -- in a recovery the new session takes the place of the recovered one
      obtain ⟨fresh, hfresh, h⟩ := Option.bind_eq_some_iff.mp h
      dsimp only at h
      split at h
      · rename_i db _ _ hany
        cases h
        refine ⟨i, _, ho, rfl, fun e he => ?_⟩
        rcases List.mem_or_eq_of_mem_set he with he | rfl
        · exact hpushed e (List.mem_of_mem_eraseIdx he)
        · obtain ⟨old, hold, hdb⟩ := List.any_eq_true.mp hany
          have hslot := (hpushed old (List.mem_of_mem_eraseIdx hold)).2
          rw [of_decide_eq_true hdb] at hslot
          exact ⟨(hpushed fresh (List.mem_of_find?_eq_some hfresh)).1, hslot⟩
      · cases h
  · cases h

lemma close_eq_some {db : String} (h : p.close db = some p') :
    p.opening = none ∧ p.recovery = none ∧
      ∃ k, p' = { p with sessions := p.sessions.eraseIdx k } := by
  rw [close] at h
  split at h
  · rename_i hidle
    cases h
    simp only [Bool.and_eq_true, Option.isNone_iff_eq_none] at hidle
    exact ⟨hidle.1.1, hidle.1.2, _, rfl⟩
  · cases h

lemma attemptFailed_eq_some {policy : RestartPolicy} (h : p.attemptFailed policy = some p') :
    ∃ db i w, p.opening = none ∧ p.recovery = some (db, i) ∧ p.workers[i]? = some w ∧ p' = { p with
      workers := p.workers.set i (w.failRecovery policy).2
      recovery := if (w.failRecovery policy).1 then none else p.recovery } := by
  rw [attemptFailed] at h
  split at h
  · rename_i db i hnone hrec
    obtain ⟨w, hw, rfl⟩ := Option.map_eq_some_iff.mp h
    exact ⟨db, i, w, hnone, hrec, hw, rfl⟩
  · cases h

/-- The workers with one of them replaced. -/
lemma getElem?_set_of_some {ws : List SessionTasks} (h : ws[i]? = some w) (j : ℕ) :
    (ws.set i w')[j]? = if i = j then some w' else ws[j]? := by
  rw [List.getElem?_set]
  obtain ⟨hlt, -⟩ := List.getElem?_eq_some_iff.mp h
  split
  · rename_i hij
    subst hij
    simp
  · rfl

/-- A worker with `R` is still there behind a change of one worker that keeps `R` at its place. -/
lemma exists_set_of_some {ws : List SessionTasks} {R : SessionTasks → Prop} {j : ℕ}
    (h : ws[i]? = some w) (hj : ∃ v, ws[j]? = some v ∧ R v) (hR : i = j → R w → R w') :
    ∃ v, (ws.set i w')[j]? = some v ∧ R v := by
  obtain ⟨v, hv, hvR⟩ := hj
  rw [getElem?_set_of_some h]
  split
  · rename_i hij
    subst hij
    obtain rfl : w = v := Option.some.inj (h.symm.trans hv)
    exact ⟨w', rfl, hR rfl hvR⟩
  · exact ⟨v, hv, hvR⟩

/-- A step of one session that keeps its watch, and what `spawn_for` waits for, keeps the pool. -/
lemma Sound.set (h : p.Sound) (hw : p.workers[i]? = some w)
    (hpool : i ∈ p.sessions.map Prod.snd → w.Watched → w'.Watched)
    (hopen : ∀ stage, p.opening = some (i, stage) → w.Watched → w.Fits stage →
      w'.Watched ∧ w'.Fits stage) :
    Sound { p with workers := p.workers.set i w' } where
  pooled := by
    intro j hj
    refine exists_set_of_some hw (h.pooled j hj) ?_
    rintro rfl hwatched
    exact hpool hj hwatched
  opening := by
    intro j stage hj
    refine exists_set_of_some hw (h.opening j stage hj) ?_
    rintro rfl ⟨hwatched, hfits⟩
    exact hopen stage hj hwatched hfits

/-- Giving up, or losing interest in a session, is no harm. -/
lemma Sound.sub (h : p.Sound) (hworkers : p'.workers = p.workers)
    (hsessions : ∀ i ∈ p'.sessions.map Prod.snd, i ∈ p.sessions.map Prod.snd)
    (hopening : p'.opening = p.opening ∨ p'.opening = none) : p'.Sound where
  pooled := fun i hi => by rw [hworkers]; exact h.pooled i (hsessions i hi)
  opening := fun i stage hi => by
    rw [hworkers]
    rcases hopening with ho | ho
    · exact h.opening i stage (ho ▸ hi)
    · rw [ho] at hi
      cases hi

lemma giveUp_eq (p : WorkerPool) (i : ℕ) :
    (p.giveUp i = p ∧ ∀ stage, p.opening = some (i, stage) → stage = .opened) ∨
      p.giveUp i = { p with opening := none } := by
  -- another session is being opened
  have hother : ∀ {j stage}, p.opening = some (j, stage) → i ≠ j →
      ∀ stage', p.opening = some (i, stage') → stage' = .opened := by
    intro j stage hopen hne stage' hs
    rw [hopen] at hs
    cases hs
    exact absurd rfl hne
  rw [giveUp]
  split
  · rename_i j id hopen
    split
    · exact .inr rfl
    · rename_i hne
      exact .inl ⟨rfl, hother hopen hne⟩
  · rename_i j id hopen
    split
    · exact .inr rfl
    · rename_i hne
      exact .inl ⟨rfl, hother hopen hne⟩
  · rename_i hsel hopen
    refine .inl ⟨rfl, fun stage hs => ?_⟩
    cases stage with
    | select id => exact absurd hs (hsel i id)
    | openDb id => exact absurd hs (hopen i id)
    | opened => rfl

lemma Sound.giveUp (h : p.Sound) (i : ℕ) : (p.giveUp i).Sound := by
  rcases p.giveUp_eq i with ⟨heq, -⟩ | heq
  · rw [heq]
    exact h
  · rw [heq]
    exact h.sub rfl (fun _ hi => hi) (.inr rfl)

/-- The pump of a session ends: `spawn_for` gives up if it was waiting for an answer. -/
lemma Sound.stop (h : p.Sound) (hw : p.workers[i]? = some w)
    (hpool : i ∈ p.sessions.map Prod.snd → w.Watched → w'.Watched)
    (hopen : p.opening = some (i, .opened) → w.Watched → w.Fits .opened →
      w'.Watched ∧ w'.Fits .opened) :
    (WorkerPool.giveUp { p with workers := p.workers.set i w' } i).Sound := by
  rcases giveUp_eq { p with workers := p.workers.set i w' } i with ⟨heq, hstage⟩ | heq
  · rw [heq]
    refine h.set hw hpool fun stage hs hwatch hfits => ?_
    obtain rfl := hstage stage hs
    exact hopen hs hwatch hfits
  · rw [heq]
    have hnone : Sound { p with opening := none } := h.sub rfl (fun _ hi => hi) (.inr rfl)
    exact hnone.set hw hpool (fun stage hs => by cases hs)

/-- When a pending request of `spawn_for` is answered, nothing is left in the channel or pending. -/
lemma fits_answered {id : U64} (hmem : id ∈ w.pending)
    (hfits : (w.queue = [id] ∧ w.pending = []) ∨ (w.queue = [] ∧ ∀ x ∈ w.pending, x = id)) :
    w.queue = [] ∧ w.pending.filter (· ≠ id) = [] := by
  rcases hfits with ⟨-, hpending⟩ | ⟨hqueue, hpending⟩
  · rw [hpending] at hmem
    cases hmem
  · refine ⟨hqueue, List.filter_eq_nil_iff.mpr fun x hx => ?_⟩
    simp [hpending x hx]

/-- `spawn_for` may wait for anything that fits a watched session. -/
lemma Sound.waitFor (h : p.Sound) (hw : p.workers[i]? = some w) (hwatch : w.Watched)
    (stage : Stage) (hfits : w.Fits stage) (next_call : U64) :
    Sound { p with opening := some (i, stage), next_call } where
  pooled := h.pooled
  opening := by
    intro j st hj
    cases hj
    exact ⟨w, hw, hwatch, hfits⟩

/-- An answer moves `spawn_for` on. -/
lemma Sound.answered {q : WorkerPool} {id : U64} {ok : Bool} (h : p.Sound)
    (hw : p.workers[i]? = some w) (hp : w.pumping = true) (hmem : id ∈ w.pending)
    (hq : WorkerPool.answered { p with
      workers := p.workers.set i { w with pending := w.pending.filter (· ≠ id) } } i id ok =
        some q) :
    q.Sound := by
  have hresp : Sound { p with
      workers := p.workers.set i { w with pending := w.pending.filter (· ≠ id) } } :=
    h.set hw (fun _ hwatch => hwatch.requests _ _)
      (fun _ _ hwatch hfits => ⟨hwatch.requests _ _, hfits.respond id⟩)
  have hget : (p.workers.set i { w with pending := w.pending.filter (· ≠ id) })[i]? =
      some { w with pending := w.pending.filter (· ≠ id) } := by
    rw [getElem?_set_of_some hw, if_pos rfl]
  obtain rfl | rfl | ⟨ho, rfl⟩ | ⟨ho, p₁, hp₁, rfl⟩ := answered_eq_some hq
  · exact hresp
  · exact hresp.sub rfl (fun _ hi => hi) (.inr rfl)
  · obtain ⟨v, hv, hvw, hvf⟩ := h.opening i _ ho
    rw [hw] at hv
    cases hv
    obtain ⟨hqueue, -⟩ := fits_answered hmem hvf
    exact hresp.waitFor hget (hvw.requests _ _) .opened hqueue p.next_call
  · obtain ⟨v, hv, hvw, hvf⟩ := h.opening i _ ho
    rw [hw] at hv
    cases hv
    obtain ⟨hqueue, hpending⟩ := fits_answered hmem hvf
    -- the next request goes into the empty channel
    obtain ⟨w₁, w₂, hw₁, hsend, rfl⟩ := onWorker_eq_some hp₁
    obtain rfl : _ = w₁ := Option.some.inj (hget.symm.trans hw₁)
    have hnext : w₂ = { w with queue := [p.next_call], pending := [] } := by
      simp only [SessionTasks.send, (hvw.running hp).1, hp, hqueue, hpending] at hsend
      simpa [hp] using hsend.symm
    subst hnext
    have hnone : Sound { p with
        workers := p.workers.set i { w with pending := w.pending.filter (· ≠ id) },
        opening := none } := hresp.sub rfl (fun _ hi => hi) (.inr rfl)
    have hset : Sound { p with
        workers := (p.workers.set i { w with pending := w.pending.filter (· ≠ id) }).set i
          { w with queue := [p.next_call], pending := [] },
        opening := none } := hnone.set hget
      (fun _ hwatch => hwatch.requests _ _) (fun stage hs => by cases hs)
    refine hset.waitFor (w := { w with queue := [p.next_call], pending := [] })
      ?_ (hvw.requests _ _) (.openDb p.next_call) (Or.inl ⟨rfl, rfl⟩) _
    rw [getElem?_set_of_some hget, if_pos rfl]

/-- A new session is watched from the start. -/
lemma Sound.spawn (h : p.Sound) {session_meta : SessionMeta} (hs : p.spawn session_meta = some p') :
    p'.Sound := by
  obtain ⟨-, rfl⟩ := spawn_eq_some hs
  refine ⟨fun j hj => ?_, fun j stage hj => ?_⟩
  · obtain ⟨w, hw, hwatch⟩ := h.pooled j hj
    obtain ⟨hlt, -⟩ := List.getElem?_eq_some_iff.mp hw
    exact ⟨w, by rw [List.getElem?_append_left hlt]; exact hw, hwatch⟩
  · cases hj
    exact ⟨{ SessionTasks.new session_meta with queue := [p.next_call] }, by simp,
      SessionTasks.new_watched session_meta _, .inl ⟨rfl, rfl⟩⟩

lemma Sound.register (h : p.Sound) (hr : p.register = some p') : p'.Sound := by
  obtain ⟨i, sessions, ho, rfl, hsessions⟩ := register_eq_some hr
  refine ⟨fun j hj => ?_, fun j stage hj => ?_⟩
  · obtain ⟨e, he, rfl⟩ := List.mem_map.mp hj
    rcases (hsessions e he).1 with hi | hi
    · obtain ⟨w, hw, hwatch, -⟩ := h.opening _ _ ho
      exact ⟨w, by rw [hi]; exact hw, hwatch⟩
    · exact h.pooled _ hi
  · cases hj

/-- `recover` that goes on has found a session that is neither healthy nor dead. -/
lemma recover_eq_ok {db : String} {o : Option WorkerPool} (h : p.recover db = .ok o) :
    ∃ i w, p.session db = some i ∧ p.workers[i]? = some w ∧
      ((w.session.health = .healthy ∧ o = none) ∨
        (w.session.health ≠ .healthy ∧ w.session.health ≠ .dead ∧ o = some { p with
          workers := p.workers.set i { w with session := { w.session with health := .recovering } }
          recovery := some (db, i) })) := by
  rw [recover] at h
  obtain ⟨i, hi, h⟩ := Outcome.bind_eq_ok.mp h
  obtain ⟨w, hw, h⟩ := Outcome.bind_eq_ok.mp h
  obtain ⟨o', ho', h⟩ := Outcome.bind_eq_ok.mp h
  rw [Outcome.ofOption_eq_ok] at hi hw
  refine ⟨i, w, hi, hw, ?_⟩
  rcases SessionTasks.beginRecovery_eq_ok ho' with ⟨hh, rfl⟩ | ⟨hh, hdead, rfl⟩
  · cases h
    exact .inl ⟨hh, rfl⟩
  · cases h
    exact .inr ⟨hh, hdead, rfl⟩

/-- The step of `recover` leaves the pool as it is, or begins at a session that is neither healthy
nor dead. -/
lemma act_recover {db : String} (h : p.act (.recover db) = some p') :
    p.opening = none ∧ p.recovery = none ∧ (p' = p ∨ ∃ i w, p.workers[i]? = some w ∧
      w.session.health ≠ .healthy ∧ w.session.health ≠ .dead ∧ p' = { p with
        workers := p.workers.set i { w with session := { w.session with health := .recovering } }
        recovery := some (db, i) }) := by
  rw [act] at h
  split at h
  · rename_i hidle
    simp only [Bool.and_eq_true, Option.isNone_iff_eq_none] at hidle
    refine ⟨hidle.1, hidle.2, ?_⟩
    split at h
    · rename_i q hrec
      cases h
      obtain ⟨i, w, -, hw, ⟨-, hnone⟩ | ⟨hhealth, hdead, hsome⟩⟩ := recover_eq_ok hrec
      · cases hnone
      · cases hsome
        exact .inr ⟨i, w, hw, hhealth, hdead, rfl⟩
    · cases h
      exact .inl rfl
  · cases h

end WorkerPool

/-! ## The system -/

/-- No write to the worker of a session in the pool fails. -/
def PoolEvent.Writes (p : WorkerPool) : PoolEvent → Prop
  | .receive i written => i ∈ p.sessions.map Prod.snd → written = true
  | _ => True

instance PoolEvent.decidableWrites (p : WorkerPool) : (e : PoolEvent) → Decidable (e.Writes p)
  | .receive _ _ => inferInstanceAs (Decidable (_ → _))
  | .spawn _ _ | .respawn _ | .request _ | .timeout _ | .closed _ | .respond _ _ _ | .crashed _ _
  | .notify _ | .mark _ | .register | .close _ | .recover _ | .attemptFailed _ => isTrue trivial

open WorkerPool in
/-- A step in which no such write fails keeps every session watched. -/
lemma PoolStep.sound {p p' : WorkerPool} {e : PoolEvent} (hstep : PoolStep p e p')
    (hw : e.Writes p) (h : p.Sound) : p'.Sound := by
  unfold PoolStep WorkerPool.act at hstep
  cases e with
  | spawn max_workers session_meta => exact h.spawn (act_spawn hstep)
  | respawn backend_kind =>
    obtain ⟨r, -, hstep⟩ := Option.bind_eq_some_iff.mp hstep
    obtain ⟨w, -, hstep⟩ := Option.bind_eq_some_iff.mp hstep
    exact h.spawn hstep
  | request i =>
    obtain ⟨hother, p₁, rfl, hp₁⟩ := request_eq_some hstep
    obtain ⟨w, w', hwi, hsend, rfl⟩ := onWorker_eq_some hp₁
    obtain ⟨⟨r, v⟩, hv, hvw⟩ := Option.map_eq_some_iff.mp hsend
    obtain rfl : v = w' := hvw
    have hsame : v = { w with queue := v.queue } := by
      rcases SessionTasks.send_eq_some hv with rfl | rfl <;> rfl
    have hset : Sound { p with workers := p.workers.set i v } :=
      h.set hwi (fun _ hwatch => hsame ▸ hwatch.requests _ _)
        (fun stage hs => absurd hs (hother stage))
    exact hset.sub rfl (fun _ hi => hi) (.inl rfl)
  | timeout i =>
    cases hstep
    exact h.giveUp i
  | receive i written =>
    obtain ⟨p₁, hp₁, rfl⟩ := Option.map_eq_some_iff.mp hstep
    obtain ⟨w, w', hwi, hrec, rfl⟩ := onWorker_eq_some hp₁
    obtain ⟨id, rest, hqueue, ⟨rfl, rfl⟩ | ⟨rfl, rfl⟩⟩ := SessionTasks.receive_eq_some hrec
    · exact h.set hwi (fun _ hwatch => hwatch.requests _ _)
        (fun stage hs hwatch hfits => ⟨hwatch.requests _ _, hfits.receive hqueue⟩)
    · refine h.stop hwi (fun hmem => by cases hw hmem) (fun hs hwatch hfits => ?_)
      -- there is nothing to write for a session that has just been opened
      have hnil : w.queue = [] := hfits
      rw [hqueue] at hnil
      cases hnil
  | closed i =>
    obtain ⟨p₁, hp₁, rfl⟩ := Option.map_eq_some_iff.mp hstep
    obtain ⟨w, w', hwi, hclosed, rfl⟩ := onWorker_eq_some hp₁
    exact h.stop hwi (fun _ hwatch => absurd hclosed hwatch.not_closed)
      (fun _ hwatch _ => absurd hclosed hwatch.not_closed)
  | respond i id ok =>
    obtain ⟨w, hwi, hstep⟩ := Option.bind_eq_some_iff.mp hstep
    obtain ⟨p₁, hp₁, hstep⟩ := Option.bind_eq_some_iff.mp hstep
    obtain ⟨v, w', hv, hresp, rfl⟩ := onWorker_eq_some hp₁
    rw [hwi] at hv
    cases hv
    obtain ⟨hp, rfl⟩ := SessionTasks.respond_eq_some hresp
    split at hstep
    · rename_i hmem
      exact h.answered hwi hp hmem hstep
    · cases hstep
      exact h.set hwi (fun _ hwatch => hwatch.requests _ _)
        (fun stage hs hwatch hfits => ⟨hwatch.requests _ _, hfits.respond id⟩)
  | crashed i why =>
    obtain ⟨p₁, hp₁, rfl⟩ := Option.map_eq_some_iff.mp hstep
    obtain ⟨w, w', hwi, hcrash, rfl⟩ := onWorker_eq_some hp₁
    obtain rfl := SessionTasks.crashed_eq_some hcrash
    exact h.stop hwi (fun _ _ => SessionTasks.Watched.crashed w why)
      (fun _ _ _ => ⟨SessionTasks.Watched.crashed w why, rfl⟩)
  | notify i =>
    obtain ⟨w, w', hwi, hnotify, rfl⟩ := onWorker_eq_some hstep
    exact h.set hwi (fun _ hwatch => hwatch.notify hnotify) (fun stage hs hwatch hfits =>
      ⟨hwatch.notify hnotify, hfits.of_requests (SessionTasks.notify_requests hnotify)⟩)
  | mark i =>
    obtain ⟨w, w', hwi, hmark, rfl⟩ := onWorker_eq_some hstep
    exact h.set hwi (fun _ hwatch => hwatch.mark hmark) (fun stage hs hwatch hfits =>
      ⟨hwatch.mark hmark, hfits.of_requests (SessionTasks.mark_requests hmark)⟩)
  | register => exact h.register hstep
  | close db =>
    obtain ⟨-, -, k, rfl⟩ := close_eq_some hstep
    refine h.sub rfl (fun j hj => ?_) (.inl rfl)
    obtain ⟨e, he, rfl⟩ := List.mem_map.mp hj
    exact List.mem_map.mpr ⟨e, List.mem_of_mem_eraseIdx he, rfl⟩
  | recover db =>
    obtain ⟨-, -, rfl | ⟨i, w, hwi, -, -, rfl⟩⟩ := act_recover hstep
    · exact h
    · have hset := h.set hwi (fun _ hwatch => hwatch.unhealthy
        (show WorkerHealth.recovering ≠ .healthy by decide) w.session.restart_failures)
        (fun stage hs hwatch hfits => ⟨hwatch.unhealthy (by decide) w.session.restart_failures,
          hfits.of_requests ⟨rfl, rfl⟩⟩)
      exact hset.sub rfl (fun _ hi => hi) (.inl rfl)
  | attemptFailed policy =>
    obtain ⟨db, i, w, hnone, -, hwi, rfl⟩ := attemptFailed_eq_some hstep
    have hset := h.set hwi (fun _ hwatch => hwatch.failRecovery policy)
      (fun stage hs => by rw [hnone] at hs; cases hs)
    exact hset.sub rfl (fun _ hi => hi) (.inl rfl)

/-- The promise about one state of the pool: a session whose pump has ended, with no notice on its
way, is not healthy, and `recover` does not pass over it. -/
def CrashKnown (p : WorkerPool) : Prop :=
  ∀ db i w, p.workers[i]? = some w → w.pumping = false → w.Handled →
    ((db, i) ∈ p.sessions → w.session.health ≠ .healthy) ∧
    (p.session db = some i → p.recover db ≠ .ok none)

/-- In every run in which no write to the worker of a session in the pool fails, a session whose
pump has ended is known to have crashed as soon as the notices are handled. -/
theorem crash_detected {tr : List (PoolEvent × WorkerPool)} (h : Run PoolStep .new tr)
    (hw : Along (fun p e => e.Writes p) .new tr) : ∀ p ∈ statesOf .new tr, CrashKnown p := by
  intro p hp db i w hwi hended hhandled
  have hsound := h.invariant hw WorkerPool.new_sound
    (fun _ _ _ hstep hwrites hs => hstep.sound hwrites hs) p hp
  have hunhealthy : (∃ db, (db, i) ∈ p.sessions) → w.session.health ≠ .healthy := by
    rintro ⟨db, hmem⟩
    obtain ⟨v, hv, hwatch⟩ := hsound.pooled i (List.mem_map.mpr ⟨(db, i), hmem, rfl⟩)
    rw [hwi] at hv
    cases hv
    exact hwatch.ended hended hhandled
  refine ⟨fun hmem => hunhealthy ⟨db, hmem⟩, fun hsession hrec => ?_⟩
  obtain ⟨j, v, hj, hv, ⟨hhealthy, -⟩ | ⟨-, -, hsome⟩⟩ := WorkerPool.recover_eq_ok hrec
  · rw [hsession] at hj
    cases hj
    rw [hwi] at hv
    cases hv
    obtain ⟨e, he, rfl⟩ := Option.map_eq_some_iff.mp hsession
    exact hunhealthy ⟨e.1, List.mem_of_find?_eq_some he⟩ hhealthy
  · cases hsome

/-- A session is opened, and its worker exits during a request. -/
theorem crash_detected_exit :
    let events : List PoolEvent := [.spawn 4 ⟨"a.i64", "mock", ""⟩, .receive 0 true,
      .respond 0 1 true, .receive 0 true, .respond 0 2 true, .register, .request 0,
      .receive 0 true, .crashed 0 "worker exited unexpectedly", .notify 0, .mark 0]
    let tr := follow WorkerPool.act .new events
    tr.length = 11 ∧ CrashKnown (lastOf .new tr) ∧
      ((lastOf .new tr).workers.map fun w => w.session.health) = [.crashed] := by
  intro events tr
  refine ⟨by decide +kernel, ?_, by decide +kernel⟩
  refine crash_detected (follow_run WorkerPool.act .new events) (by decide +kernel) _ ?_
  exact List.mem_of_getElem? (i := 11) (by rfl)

/-- The write of a request fails: the pump has ended, and the session is healthy. -/
theorem crash_detected_not : ¬ ∀ tr, Run PoolStep .new tr → ∀ p ∈ statesOf .new tr,
    CrashKnown p := by
  intro h
  let events : List PoolEvent := [.spawn 4 ⟨"a.i64", "mock", ""⟩, .receive 0 true,
    .respond 0 1 true, .receive 0 true, .respond 0 2 true, .register, .request 0, .receive 0 false]
  let tr := follow WorkerPool.act .new events
  have hknown := h tr (follow_run WorkerPool.act .new events) (lastOf .new tr)
    (List.mem_of_getElem? (i := 8) (by rfl))
  have hunhealthy := (hknown "db1" 0 (SessionTasks.new ⟨"a.i64", "mock", ""⟩).stopPump
    (by decide +kernel) rfl ⟨rfl, by decide⟩).1 (by decide +kernel)
  exact hunhealthy rfl

/-! ## What a step does -/

/-- What a task does to its session: nothing, or the monitor marks it. -/
inductive SessionTasks.Works (w : SessionTasks) : SessionTasks → Prop
  | same {w' : SessionTasks} (hsession : w'.session = w.session)
      (hmonitor : w.monitor = .done → w'.monitor = .done) : Works w w'
  | marked (hmonitor : w.monitor = .marking) :
      Works w { w with session := w.session.mark_crashed, monitor := .done }

namespace WorkerPool

variable {p p' : WorkerPool} {i : ℕ} {w w' : SessionTasks}

/-- What `spawn_for` may wait for next: a session it has been waiting for already. -/
def Waits (p : WorkerPool) (opening : Option (ℕ × Stage)) : Prop :=
  ∀ i stage', opening = some (i, stage') → ∃ stage, p.opening = some (i, stage)

lemma waits_same (p : WorkerPool) : p.Waits p.opening := fun _ stage' h => ⟨stage', h⟩

lemma waits_none (p : WorkerPool) : p.Waits none := nofun

/-- What a step does to the pool. -/
inductive Effect (p : WorkerPool) : PoolEvent → WorkerPool → Prop
  | spawned {e : PoolEvent} (session_meta : SessionMeta) (hopening : p.opening = none) :
      Effect p e { p with
        workers := p.workers ++ [{ SessionTasks.new session_meta with queue := [p.next_call] }]
        opening := some (p.workers.length, .select p.next_call)
        next_call := p.next_call + 1 }
  | waited {e : PoolEvent} (opening : Option (ℕ × Stage)) (hopening : p.Waits opening) :
      Effect p e { p with opening }
  | worked {e : PoolEvent} (i : ℕ) (w w' : SessionTasks) (opening : Option (ℕ × Stage))
      (next_call : U64)
      (hw : p.workers[i]? = some w) (hworks : w.Works w') (hopening : p.Waits opening) :
      Effect p e { p with workers := p.workers.set i w', opening, next_call }
  | registered {p' : WorkerPool} (h : p.register = some p') : Effect p .register p'
  | closed (db : String) (k : ℕ) (hrecovery : p.recovery = none) :
      Effect p (.close db) { p with sessions := p.sessions.eraseIdx k }
  | began (db : String) (i : ℕ) (w : SessionTasks) (hw : p.workers[i]? = some w)
      (hhealth : w.session.health ≠ .healthy) (hdead : w.session.health ≠ .dead)
      (hrecovery : p.recovery = none) :
      Effect p (.recover db) { p with
        workers := p.workers.set i { w with session := { w.session with health := .recovering } }
        recovery := some (db, i) }
  | failed (policy : RestartPolicy) (db : String) (i : ℕ) (w : SessionTasks)
      (hrecovery : p.recovery = some (db, i)) (hw : p.workers[i]? = some w) :
      Effect p (.attemptFailed policy) { p with
        workers := p.workers.set i (w.failRecovery policy).2
        recovery := if (w.failRecovery policy).1 then none else p.recovery }

lemma giveUp_waits (p : WorkerPool) (i : ℕ) :
    ∃ opening, p.Waits opening ∧ p.giveUp i = { p with opening } := by
  rcases p.giveUp_eq i with ⟨heq, -⟩ | heq
  · exact ⟨p.opening, p.waits_same, heq⟩
  · exact ⟨none, p.waits_none, heq⟩

/-- A pump takes a step, and `spawn_for` may give up. -/
lemma Effect.worked_giveUp {e : PoolEvent} (w' : SessionTasks) (hw : p.workers[i]? = some w)
    (hworks : w.Works w') (j : ℕ) : p.Effect e
      (WorkerPool.giveUp { p with workers := p.workers.set i w' } j) := by
  obtain ⟨opening, hopening, heq⟩ := giveUp_waits { p with workers := p.workers.set i w' } j
  rw [heq]
  exact .worked i w w' opening p.next_call hw hworks hopening

/-- A request is sent on the channel of a session. -/
lemma send_queue {id : U64} (h : (w.send id).map Prod.snd = some w') :
    w' = { w with queue := w'.queue } := by
  obtain ⟨⟨r, v⟩, hv, rfl⟩ := Option.map_eq_some_iff.mp h
  rcases SessionTasks.send_eq_some hv with rfl | rfl <;> rfl

end WorkerPool

open WorkerPool in
/-- Every step does one of these things. -/
lemma PoolStep.effect {p p' : WorkerPool} {e : PoolEvent} (hstep : PoolStep p e p') :
    p.Effect e p' := by
  unfold PoolStep WorkerPool.act at hstep
  cases e with
  | spawn max_workers session_meta =>
    obtain ⟨hopening, rfl⟩ := spawn_eq_some (act_spawn hstep)
    exact .spawned session_meta hopening
  | respawn backend_kind =>
    obtain ⟨r, -, hstep⟩ := Option.bind_eq_some_iff.mp hstep
    obtain ⟨w, -, hstep⟩ := Option.bind_eq_some_iff.mp hstep
    obtain ⟨hopening, rfl⟩ := spawn_eq_some hstep
    exact .spawned _ hopening
  | request i =>
    obtain ⟨-, q, rfl, hq⟩ := request_eq_some hstep
    obtain ⟨w, w', hw, hsend, rfl⟩ := onWorker_eq_some hq
    have hworks : w.Works w' := by
      rw [send_queue hsend]
      exact .same rfl fun h => h
    exact .worked i w w' p.opening _ hw hworks p.waits_same
  | timeout i =>
    cases hstep
    obtain ⟨opening, hopening, heq⟩ := p.giveUp_waits i
    rw [heq]
    exact .waited opening hopening
  | receive i written =>
    obtain ⟨q, hq, rfl⟩ := Option.map_eq_some_iff.mp hstep
    obtain ⟨w, w', hw, hrec, rfl⟩ := onWorker_eq_some hq
    -- the request is written, or the pump stops and what is pending is given up
    obtain ⟨id, rest, -, ⟨rfl, rfl⟩ | ⟨rfl, rfl⟩⟩ := SessionTasks.receive_eq_some hrec
    · exact .worked i w _ p.opening p.next_call hw (.same rfl fun h => h) p.waits_same
    · exact .worked_giveUp w.stopPump hw (.same rfl fun h => h) i
  | closed i =>
    obtain ⟨q, hq, rfl⟩ := Option.map_eq_some_iff.mp hstep
    obtain ⟨w, w', hw, hclosed, rfl⟩ := onWorker_eq_some hq
    obtain ⟨-, -, rfl⟩ := SessionTasks.closed_eq_some hclosed
    exact .worked_giveUp w.stopPump hw (.same rfl fun h => h) i
  | respond i id ok =>
    obtain ⟨w, hw, hstep⟩ := Option.bind_eq_some_iff.mp hstep
    obtain ⟨q, hq, hstep⟩ := Option.bind_eq_some_iff.mp hstep
    obtain ⟨v, w', hv, hresp, rfl⟩ := onWorker_eq_some hq
    obtain ⟨-, rfl⟩ := SessionTasks.respond_eq_some hresp
    have hworks : v.Works { v with pending := v.pending.filter (· ≠ id) } := .same rfl fun h => h
    have hsame :=
      Effect.worked (e := .respond i id ok) i v _ p.opening p.next_call hv hworks p.waits_same
    split at hstep
    · obtain rfl | rfl | ⟨ho, rfl⟩ | ⟨ho, q, hq, rfl⟩ := answered_eq_some hstep
      · exact hsame
      · exact .worked i v _ none p.next_call hv hworks p.waits_none
      · refine .worked i v _ (some (i, .opened)) p.next_call hv hworks fun j stage' hj => ?_
        cases hj
        exact ⟨_, ho⟩
      · -- the next request of `spawn_for` is sent behind the answer
        obtain ⟨v₁, v₂, hv₁, hsend, rfl⟩ := onWorker_eq_some hq
        simp only [getElem?_set_of_some hv, if_pos] at hv₁
        cases hv₁
        have hlast : v.Works v₂ := by
          rw [send_queue hsend]
          exact .same rfl fun h => h
        simp only [List.set_set]
        refine .worked i v v₂ _ _ hv hlast fun j stage' hj => ?_
        cases hj
        exact ⟨_, ho⟩
    · cases hstep
      exact hsame
  | crashed i why =>
    obtain ⟨q, hq, rfl⟩ := Option.map_eq_some_iff.mp hstep
    obtain ⟨w, w', hw, hcrash, rfl⟩ := onWorker_eq_some hq
    obtain rfl := SessionTasks.crashed_eq_some hcrash
    exact .worked_giveUp { w.stopPump with crash := some why } hw (.same rfl fun h => h) i
  | notify i =>
    obtain ⟨w, w', hw, hnotify, rfl⟩ := onWorker_eq_some hstep
    obtain ⟨hwaiting, hcases⟩ := SessionTasks.notify_eq_some hnotify
    have hsession : w'.session = w.session := by
      rcases hcases with ⟨why, -, rfl⟩ | ⟨-, -, rfl⟩ <;> rfl
    refine .worked i w w' p.opening p.next_call hw (.same hsession fun hdone => ?_) p.waits_same
    rw [hwaiting] at hdone
    cases hdone
  | mark i =>
    obtain ⟨w, w', hw, hmark, rfl⟩ := onWorker_eq_some hstep
    obtain ⟨hmarking, rfl⟩ := SessionTasks.mark_eq_some hmark
    exact .worked i w _ p.opening p.next_call hw (.marked hmarking) p.waits_same
  | register => exact .registered hstep
  | close db =>
    obtain ⟨-, hrecovery, k, rfl⟩ := close_eq_some hstep
    exact .closed db k hrecovery
  | recover db =>
    obtain ⟨-, hrecovery, rfl | ⟨i, w, hw, hhealth, hdead, rfl⟩⟩ := act_recover hstep
    · exact .waited p'.opening p'.waits_same
    · exact .began db i w hw hhealth hdead hrecovery
  | attemptFailed policy =>
    obtain ⟨db, i, w, -, hrecovery, hw, rfl⟩ := attemptFailed_eq_some hstep
    exact .failed policy db i w hrecovery hw

namespace WorkerPool

variable {p p' : WorkerPool} {i : ℕ} {w w' : SessionTasks} {P R : SessionTasks → Prop}

/-- Every session meets `P`, and the one that is being recovered meets `R`. -/
structure Each (P R : SessionTasks → Prop) (p : WorkerPool) : Prop where
  all : ∀ w ∈ p.workers, P w
  recovering : ∀ db i, p.recovery = some (db, i) → ∃ w, p.workers[i]? = some w ∧ R w

lemma new_each (P R : SessionTasks → Prop) : Each P R new where
  all := by simp [new]
  recovering := by simp [new]

/-- A step that leaves the sessions and starts no recovery. -/
lemma Each.of_workers (h : p.Each P R) (hworkers : p'.workers = p.workers)
    (hrec : p'.recovery = p.recovery ∨ p'.recovery = none) : p'.Each P R := by
  refine ⟨fun v hv => h.all v (hworkers ▸ hv), fun db j hj => ?_⟩
  rw [hworkers]
  rcases hrec with hrec | hrec
  · exact h.recovering db j (hrec ▸ hj)
  · rw [hrec] at hj
    cases hj

/-- A step of one session. -/
lemma Each.set (h : p.Each P R) (hw : p.workers[i]? = some w) (hP : P w')
    (hworkers : p'.workers = p.workers.set i w')
    (hrec : ∀ db j, p'.recovery = some (db, j) → p.recovery = some (db, j) ∧ (i = j → R w → R w')) :
    p'.Each P R := by
  refine ⟨fun v hv => ?_, fun db j hj => ?_⟩
  · rw [hworkers] at hv
    rcases List.mem_or_eq_of_mem_set hv with hv | rfl
    · exact h.all v hv
    · exact hP
  · obtain ⟨hj, hR⟩ := hrec db j hj
    rw [hworkers]
    exact exists_set_of_some hw (h.recovering db j hj) hR

end WorkerPool

open WorkerPool in
/-- What a new session has, and what the tasks, the beginning of a recovery and a failed attempt
keep, holds behind every step. -/
lemma PoolStep.each {p p' : WorkerPool} {e : PoolEvent} {P R : SessionTasks → Prop}
    (hstep : PoolStep p e p') (h : p.Each P R)
    (hnew : ∀ session_meta queue, P { SessionTasks.new session_meta with queue })
    (hworks : ∀ w w', w.Works w' → P w → P w' ∧ (R w → R w'))
    (hbegan : ∀ w, w.session.health ≠ .healthy → w.session.health ≠ .dead → P w →
      let w' := { w with session := { w.session with health := .recovering } }
      P w' ∧ R w')
    (hfailed : ∀ w policy, e = .attemptFailed policy → P w → R w →
      P (w.failRecovery policy).2 ∧
      ((w.failRecovery policy).1 = false → R (w.failRecovery policy).2)) :
    p'.Each P R := by
  cases hstep.effect with
  | spawned session_meta hopening =>
    refine ⟨fun v hv => ?_, fun db j hj => ?_⟩
    · rcases List.mem_append.mp hv with hv | hv
      · exact h.all v hv
      · rw [List.mem_singleton.mp hv]
        exact hnew session_meta _
    · obtain ⟨v, hv, hR⟩ := h.recovering db j hj
      obtain ⟨hlt, -⟩ := List.getElem?_eq_some_iff.mp hv
      exact ⟨v, by rw [List.getElem?_append_left hlt]; exact hv, hR⟩
  | waited opening hopening => exact h.of_workers rfl (.inl rfl)
  | worked i w w' opening next_call hw hw' hopening =>
    obtain ⟨hP, hR⟩ := hworks w w' hw' (h.all w (List.mem_of_getElem? hw))
    exact h.set hw hP rfl fun db j hj => ⟨hj, fun _ => hR⟩
  | registered hr =>
    obtain ⟨i, sessions, -, rfl, -⟩ := register_eq_some hr
    exact h.of_workers rfl (.inr rfl)
  | closed db k hrecovery => exact h.of_workers rfl (.inl rfl)
  | began db i w hw hhealth hdead hrecovery =>
    obtain ⟨hP, hR⟩ := hbegan w hhealth hdead (h.all w (List.mem_of_getElem? hw))
    refine ⟨fun v hv => ?_, fun db' j hj => ?_⟩
    · rcases List.mem_or_eq_of_mem_set hv with hv | rfl
      · exact h.all v hv
      · exact hP
    · cases hj
      exact ⟨_, List.getElem?_set_self (List.getElem?_eq_some_iff.mp hw).1, hR⟩
  | failed policy db i w hrecovery hw =>
    obtain ⟨v, hv, hvR⟩ := h.recovering db i hrecovery
    rw [hw] at hv
    cases hv
    obtain ⟨hP, hR⟩ := hfailed w policy rfl (h.all w (List.mem_of_getElem? hw)) hvR
    refine h.set hw hP rfl fun db' j hj => ?_
    dsimp only at hj
    split at hj
    · cases hj
    · rename_i hlast
      exact ⟨hj, fun _ _ => hR (Bool.eq_false_iff.mpr hlast)⟩

end ReverseMcp
