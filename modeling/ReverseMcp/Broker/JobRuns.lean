import Mathlib.Data.List.Nodup
import ReverseMcp.Rust.Collections
import ReverseMcp.Broker.Jobs

/-!
# What jobs do over whole runs

The state of a job is written in three places: `start` registers it as running, `cancel` ends a
running job, and the task of the job stores its outcome.  The task does not look at the state it
overwrites, so the outcome of a cancelled job comes back when its call ends.  In a run where no
task of a cancelled job ends while the job is registered, a job that has ended stays as it is until
it is removed (`jobs_settle`).

`start` bounds the jobs that are registered as running, not the tasks.  A cancel takes its job out
of that count and leaves the task, so the tasks are bounded only where no job is started next to
the task of a job that is not running any more (`tasks_bounded`).
-/

namespace ReverseMcp

open Rust

/-! ## What a step can do -/

/-- The changes that a step makes to the jobs, the tasks and the counter. -/
inductive JobChange (s : JobSystem) : JobCall → JobSystem → Prop
  | started {db method : String} {params : Json} {job : Job} {id : String}
      (hid : id = (Handle.mk "job" s.next_id).text)
      (hrun : s.manager.running < s.manager.max_running) (hjob : job.state = .running) :
      JobChange s (.start db method params) { s with
        manager := { s.manager with jobs := s.manager.jobs.insert id job }
        next_id := s.next_id + 1, tasks := s.tasks ++ [id] }
  | completed {k : ℕ} {outcome : Except Error Json} {id : String} (hid : s.tasks[k]? = some id) :
      JobChange s (.complete k outcome) { s with
        manager := s.manager.store s.now id outcome, tasks := s.tasks.eraseIdx k }
  | cancelled {id : String} {j job : Job} (hj : s.manager.jobs[id]? = some j)
      (hrun : j.state = .running) (hjob : job.state = .cancelled) :
      JobChange s (.cancel id) { s with
        manager := { s.manager with jobs := s.manager.jobs.insert id job } }
  | removed {k : ℕ} {ids : List String} {sweeps : List (List String)} :
      JobChange s (.sweepRemove k) { s with manager := s.manager.remove ids, sweeps }
  | kept {call : JobCall} {s' : JobSystem} (hm : s'.manager = s.manager)
      (ht : s'.tasks = s.tasks)
      (hn : s'.next_id = s.next_id ∨ (call = .allocate ∧ s'.next_id = s.next_id + 1)) :
      JobChange s call s'

section Host

variable [Host] {s s' : JobSystem} {e : JobEvent}

lemma JobManager.start_eq_ok {m m' : JobManager} {next_id next_id' : U64} {now : ℕ}
    {db method id : String} {params : Json}
    (h : m.start next_id now db method params = .ok (id, m', next_id')) :
    m.running < m.max_running ∧ id = (Handle.mk "job" next_id).text ∧ next_id' = next_id + 1 ∧
      ∃ job : Job, job.state = .running ∧ m' = { m with jobs := m.jobs.insert id job } := by
  rw [start] at h
  obtain ⟨_, hcap, h⟩ := Outcome.bind_eq_ok.mp h
  obtain ⟨summary, -, h⟩ := Outcome.bind_eq_ok.mp h
  cases h
  refine ⟨?_, rfl, rfl, _, rfl, rfl⟩
  have hlt := failIf_eq_ok.mp hcap
  omega

omit [Host] in
lemma JobManager.cancel_eq_ok {m m' : JobManager} {now : ℕ} {id : String} {v : Json}
    (h : m.cancel now id = .ok (v, m')) :
    (∃ j job : Job, m.jobs[id]? = some j ∧ j.state = .running ∧ job.state = .cancelled ∧
        m' = { m with jobs := m.jobs.insert id job }) ∨
      (m' = m ∧ v.idx "cancelled" = false) := by
  unfold cancel job at h
  obtain ⟨j, hj, h⟩ := Outcome.bind_eq_ok.mp h
  rw [Outcome.ofOption_eq_ok] at hj
  split at h
  · rename_i hrun
    cases h
    exact .inl ⟨j, _, hj, hrun, rfl, rfl⟩
  · cases h
    exact .inr ⟨rfl, rfl⟩

lemma JobStep.change (h : JobStep s e s') : JobChange s e.call s' := by
  obtain ⟨call, answer⟩ := e
  unfold JobStep JobSystem.act at h
  cases call with
  | start db method params =>
    dsimp only at h
    split at h
    · rename_i id m next_id hstart
      cases h
      obtain ⟨hrun, hid, rfl, job, hjob, rfl⟩ := JobManager.start_eq_ok hstart
      exact .started hid hrun hjob
    · cases h
      exact .kept rfl rfl (.inl rfl)
    · cases h
      exact .kept rfl rfl (.inl rfl)
  | complete k outcome =>
    obtain ⟨id, hid, h⟩ := Option.map_eq_some_iff.mp h
    cases h
    exact .completed hid
  | cancel id =>
    dsimp only at h
    split at h
    · rename_i v m hcancel
      cases h
      -- only a running job is cancelled
      obtain ⟨j, job, hj, hrun, hjob, rfl⟩ | ⟨rfl, -⟩ := JobManager.cancel_eq_ok hcancel
      · exact .cancelled hj hrun hjob
      · exact .kept rfl rfl (.inl rfl)
    · cases h
      exact .kept rfl rfl (.inl rfl)
    · cases h
      exact .kept rfl rfl (.inl rfl)
  | sweepRemove k =>
    obtain ⟨ids, -, h⟩ := Option.map_eq_some_iff.mp h
    cases h
    exact .removed
  | allocate =>
    cases h
    exact .kept rfl rfl (.inr ⟨rfl, rfl⟩)
  | status id =>
    cases h
    exact .kept rfl rfl (.inl rfl)
  | result id =>
    cases h
    exact .kept rfl rfl (.inl rfl)
  | sweepCollect =>
    cases h
    exact .kept rfl rfl (.inl rfl)
  | tick d =>
    cases h
    exact .kept rfl rfl (.inl rfl)

end Host

/-! ## The ids of jobs and tasks -/

/-- The id of a job that was started before. -/
def IdBelow (next_id : U64) (id : String) : Prop := ∃ n < next_id, id = (Handle.mk "job" n).text

lemma IdBelow.mono {m n : U64} {id : String} (h : IdBelow m id) (hmn : m ≤ n) : IdBelow n id := by
  obtain ⟨k, hk, rfl⟩ := h
  exact ⟨k, lt_of_lt_of_le hk hmn, rfl⟩

/-- The next id is new. -/
lemma IdBelow.ne_next {n : U64} {id : String} (h : IdBelow n id) :
    id ≠ (Handle.mk "job" n).text := by
  obtain ⟨k, hk, rfl⟩ := h
  intro heq
  exact absurd (Handle.text_inj heq) hk.ne

lemma lt_add_one_of_noWrap {n : U64} (h : n.val + 1 < 2 ^ 64) : n < n + 1 := by
  rw [Fin.lt_def, val_add_one h]
  omega

/-- The ids of jobs and tasks were handed out before, no two tasks belong to the same job, and the
job of a task has not ended unless it was cancelled. -/
structure JobSystem.WellFormed (s : JobSystem) : Prop where
  jobs_below : ∀ id ∈ s.manager.jobs, IdBelow s.next_id id
  tasks_below : ∀ id ∈ s.tasks, IdBelow s.next_id id
  tasks_nodup : s.tasks.Nodup
  tasks_open : ∀ id ∈ s.tasks, ∀ j, s.manager.jobs[id]? = some j →
    j.state = .running ∨ j.state = .cancelled

lemma JobSystem.new_wellFormed (max_running result_ttl : ℕ) :
    (JobSystem.new max_running result_ttl).WellFormed := by
  constructor <;> simp [JobSystem.new, JobManager.new]

/-- A call that allocates a handle does not make the counter wrap. -/
def JobCall.NoWrap (s : JobSystem) : JobCall → Prop
  | .start _ _ _ => s.next_id.val + 1 < 2 ^ 64
  | .allocate => s.next_id.val + 1 < 2 ^ 64
  | _ => True

lemma JobManager.remove_getElem? (m : JobManager) (ids : List String) (id : String) :
    (m.remove ids).jobs[id]? = if id ∈ ids then none else m.jobs[id]? := by
  exact getElem?_foldl_erase ids m.jobs id

lemma JobManager.store_getElem? (m : JobManager) (now : ℕ) (id id' : String)
    (outcome : Except Error Json) : (m.store now id outcome).jobs[id']? =
      if id = id' then m.jobs[id']?.map fun j =>
        { j with state := outcomeState outcome, finished := some now }
      else m.jobs[id']? := by
  rw [store]
  rw [Std.ExtTreeMap.getElem?_modify]
  by_cases h : id = id'
  · simp [h]
  · have hcmp : compare id id' ≠ .eq := fun hc => h (Std.LawfulEqCmp.eq_of_compare hc)
    simp [h, hcmp]

section Invariant

variable {s s' : JobSystem} {call : JobCall}

/-- A new job and its task, under the next id. -/
lemma JobSystem.WellFormed.started (h : s.WellFormed) (hw : s.next_id.val + 1 < 2 ^ 64) {job : Job}
    (hjob : job.state = .running) : JobSystem.WellFormed { s with
      manager := { s.manager with
        jobs := s.manager.jobs.insert (Handle.mk "job" s.next_id).text job }
      next_id := s.next_id + 1, tasks := s.tasks ++ [(Handle.mk "job" s.next_id).text] } := by
  have hlt := lt_add_one_of_noWrap hw
  have hnew : (Handle.mk "job" s.next_id).text ∉ s.tasks := fun hmem =>
    (h.tasks_below _ hmem).ne_next rfl
  refine ⟨fun id hid => ?_, fun id hid => ?_, ?_, fun id hid j hj => ?_⟩
  · rw [Std.ExtTreeMap.mem_insert] at hid
    rcases hid with hid | hid
    · exact ⟨s.next_id, hlt, (Std.LawfulEqCmp.eq_of_compare hid).symm⟩
    · exact (h.jobs_below id hid).mono hlt.le
  · rcases List.mem_append.mp hid with hid | hid
    · exact (h.tasks_below id hid).mono hlt.le
    · exact ⟨s.next_id, hlt, List.mem_singleton.mp hid⟩
  · exact List.Nodup.append h.tasks_nodup (List.nodup_singleton _)
      (by simpa [List.disjoint_singleton] using hnew)
  · rw [Std.ExtTreeMap.getElem?_insert] at hj
    split at hj
    · cases hj
      exact .inl hjob
    · rename_i hne
      rcases List.mem_append.mp hid with hid | hid
      · exact h.tasks_open id hid j hj
      · rw [List.mem_singleton.mp hid] at hne
        simp at hne

/-- A task that has ended. -/
lemma JobSystem.WellFormed.completed (h : s.WellFormed) {k : ℕ} {id : String}
    (hid : s.tasks[k]? = some id) (outcome : Except Error Json) : JobSystem.WellFormed { s with
      manager := s.manager.store s.now id outcome, tasks := s.tasks.eraseIdx k } := by
  have hmem : ∀ id', id' ∈ s.tasks.eraseIdx k → id' ∈ s.tasks := fun id' h' =>
    List.mem_of_mem_eraseIdx h'
  refine ⟨fun id' hid' => ?_, fun id' hid' => h.tasks_below id' (hmem id' hid'),
    h.tasks_nodup.eraseIdx k, fun id' hid' j hj => ?_⟩
  · rw [JobManager.store, Std.ExtTreeMap.mem_modify] at hid'
    exact h.jobs_below id' hid'
  · have hne : id ≠ id' := by
      rintro rfl
      obtain ⟨i, hik, hi⟩ := List.mem_eraseIdx_iff_getElem?.mp hid'
      obtain ⟨hilt, hi⟩ := List.getElem?_eq_some_iff.mp hi
      obtain ⟨hklt, hk⟩ := List.getElem?_eq_some_iff.mp hid
      exact hik ((h.tasks_nodup.getElem_inj_iff).mp (hi.trans hk.symm))
    rw [JobManager.store_getElem?, if_neg hne] at hj
    exact h.tasks_open id' (hmem id' hid') j hj

lemma JobChange.wellFormed (hc : JobChange s call s') (hw : call.NoWrap s) (h : s.WellFormed) :
    s'.WellFormed := by
  cases hc with
  | started hid hrun hjob =>
    subst hid
    exact h.started hw hjob
  | completed hid => exact h.completed hid _
  | @cancelled id j job hj hrun hjob =>
    -- the job stays in the table with another state, which its task may find
    have hmem : id ∈ s.manager.jobs := Std.ExtTreeMap.mem_iff_isSome_getElem?.mpr (by rw [hj]; rfl)
    refine ⟨fun id' hid' => ?_, h.tasks_below, h.tasks_nodup, fun id' hid' j' hj' => ?_⟩
    · rw [Std.ExtTreeMap.mem_insert] at hid'
      rcases hid' with hid' | hid'
      · exact Std.LawfulEqCmp.eq_of_compare hid' ▸ h.jobs_below id hmem
      · exact h.jobs_below id' hid'
    · rw [Std.ExtTreeMap.getElem?_insert] at hj'
      split at hj'
      · cases hj'
        exact .inr hjob
      · exact h.tasks_open id' hid' j' hj'
  | @removed k ids sweeps =>
    -- a sweep leaves a part of the table
    have hsub : ∀ id' j', (s.manager.remove ids).jobs[id']? = some j' →
        s.manager.jobs[id']? = some j' := fun id' j' hj' => by
      rw [JobManager.remove_getElem?] at hj'
      split at hj'
      · cases hj'
      · exact hj'
    refine ⟨fun id' hid' => ?_, h.tasks_below, h.tasks_nodup, fun id' hid' j' hj' =>
      h.tasks_open id' hid' j' (hsub id' j' hj')⟩
    obtain ⟨j', hj'⟩ := Option.isSome_iff_exists.mp (Std.ExtTreeMap.mem_iff_isSome_getElem?.mp hid')
    exact h.jobs_below id'
      (Std.ExtTreeMap.mem_iff_isSome_getElem?.mpr (by rw [hsub id' j' hj']; rfl))
  | kept hm ht hn =>
    -- the counter does not go back, so the ids stay below it
    have hle : s.next_id ≤ s'.next_id := by
      rcases hn with hn | ⟨rfl, hn⟩
      · exact hn.symm.le
      · rw [hn]
        exact (lt_add_one_of_noWrap hw).le
    refine ⟨fun id hid => ?_, fun id hid => ?_, ht ▸ h.tasks_nodup, fun id hid j hj => ?_⟩
    · rw [hm] at hid
      exact (h.jobs_below id hid).mono hle
    · rw [ht] at hid
      exact (h.tasks_below id hid).mono hle
    · rw [ht] at hid
      rw [hm] at hj
      exact h.tasks_open id hid j hj

end Invariant

/-! ## Jobs that have ended -/

/-- A job that has ended in `s` and is registered in `s'` is there in the state it ended in. -/
def SettledStays (s s' : JobSystem) : Prop :=
  ∀ (id : String) (j j' : Job), s.manager.jobs[id]? = some j → j.state ≠ .running →
    s'.manager.jobs[id]? = some j' → j'.state = j.state

/-- `s'` comes later than `s`: jobs that had ended are as they were or gone, and what was gone stays
gone. -/
structure JobsLater (s s' : JobSystem) : Prop where
  below : ∀ id ∈ s.manager.jobs, IdBelow s.next_id id
  next_le : s.next_id ≤ s'.next_id
  settled : SettledStays s s'
  gone : ∀ id, IdBelow s.next_id id → id ∉ s.manager.jobs → id ∉ s'.manager.jobs

lemma mem_jobs_of_getElem? {s : JobSystem} {id : String} {j : Job}
    (h : s.manager.jobs[id]? = some j) : id ∈ s.manager.jobs :=
  Std.ExtTreeMap.mem_iff_isSome_getElem?.mpr (by rw [h]; rfl)

lemma JobsLater.trans {s t u : JobSystem} (h₁ : JobsLater s t) (h₂ : JobsLater t u) :
    JobsLater s u := by
  refine ⟨h₁.below, h₁.next_le.trans h₂.next_le, fun id j j'' hj hend hj'' => ?_,
    fun id hid hnot => h₂.gone id (hid.mono h₁.next_le) (h₁.gone id hid hnot)⟩
  cases ht : t.manager.jobs[id]? with
  | some j' =>
    have hstate := h₁.settled id j j' hj hend ht
    exact (h₂.settled id j' j'' ht (hstate ▸ hend) hj'').trans hstate
  | none =>
    -- it was removed in between, and its id does not come back
    have hgone : id ∉ t.manager.jobs := by
      rw [Std.ExtTreeMap.mem_iff_isSome_getElem?, ht]
      simp
    have hbelow := (h₁.below id (mem_jobs_of_getElem? hj)).mono h₁.next_le
    exact absurd (mem_jobs_of_getElem? hj'') (h₂.gone id hbelow hgone)

instance : IsTrans JobSystem JobsLater := ⟨fun _ _ _ => JobsLater.trans⟩

/-- No task of a cancelled job ends while the job is registered, and the counter of handles does
not wrap. -/
def JobCall.Settles (s : JobSystem) (call : JobCall) : Prop :=
  call.NoWrap s ∧
    match call with
    | .complete k _ => ∀ id ∈ s.tasks[k]?, ∀ j ∈ s.manager.jobs[id]?, j.state ≠ .cancelled
    | _ => True

/-- One step leads to a later system. -/
lemma JobChange.later {s s' : JobSystem} {call : JobCall} (hc : JobChange s call s')
    (hs : call.Settles s) (h : s.WellFormed) : JobsLater s s' := by
  obtain ⟨hw, hs⟩ := hs
  cases hc with
  | @started db method params job id hid hrun hjob =>
    have hnew : ∀ id', IdBelow s.next_id id' → compare id id' ≠ .eq := fun id' hid' heq =>
      hid'.ne_next (Std.LawfulEqCmp.eq_of_compare heq ▸ hid)
    refine ⟨h.jobs_below, (lt_add_one_of_noWrap hw).le, fun id' j j' hj _ hj' => ?_,
      fun id' hid' hnot hmem => ?_⟩
    · have hne := hnew id' (h.jobs_below id' (mem_jobs_of_getElem? hj))
      rw [Std.ExtTreeMap.getElem?_insert, if_neg hne, hj] at hj'
      cases hj'
      rfl
    · rcases Std.ExtTreeMap.mem_insert.mp hmem with heq | hmem
      · exact hnew id' hid' heq
      · exact hnot hmem
  | @completed k outcome id hid =>
    refine ⟨h.jobs_below, le_rfl, fun id' j j' hj hend hj' => ?_, fun id' _ hnot hmem => ?_⟩
    · rw [JobManager.store_getElem?] at hj'
      split at hj'
      · -- the job of a task that has not ended is running or cancelled
        rename_i heq
        subst heq
        rcases h.tasks_open id (List.mem_of_getElem? hid) j hj with hrun | hcan
        · exact absurd hrun hend
        · exact absurd hcan (hs id hid j hj)
      · rw [hj] at hj'
        cases hj'
        rfl
    · rw [JobManager.store, Std.ExtTreeMap.mem_modify] at hmem
      exact hnot hmem
  | @cancelled id j job hj hrun hjob =>
    refine ⟨h.jobs_below, le_rfl, fun id' j₁ j₂ hj₁ hend hj₂ => ?_, fun id' _ hnot hmem => ?_⟩
    · rw [Std.ExtTreeMap.getElem?_insert] at hj₂
      split at hj₂
      · rename_i heq
        rw [← Std.LawfulEqCmp.eq_of_compare heq, hj] at hj₁
        cases hj₁
        exact absurd hrun hend
      · rw [hj₁] at hj₂
        cases hj₂
        rfl
    · rcases Std.ExtTreeMap.mem_insert.mp hmem with heq | hmem
      · exact hnot (Std.LawfulEqCmp.eq_of_compare heq ▸ mem_jobs_of_getElem? hj)
      · exact hnot hmem
  | @removed k ids sweeps =>
    refine ⟨h.jobs_below, le_rfl, fun id j j' hj _ hj' => ?_, fun id _ hnot hmem => ?_⟩
    · rw [JobManager.remove_getElem?] at hj'
      split at hj'
      · cases hj'
      · rw [hj] at hj'
        cases hj'
        rfl
    · rw [Std.ExtTreeMap.mem_iff_isSome_getElem?, JobManager.remove_getElem?] at hmem
      split at hmem
      · cases hmem
      · exact hnot (Std.ExtTreeMap.mem_iff_isSome_getElem?.mpr hmem)
  | kept hm ht hn =>
    refine ⟨h.jobs_below, ?_, fun id j j' hj _ hj' => ?_, fun id _ hnot hmem => ?_⟩
    · rcases hn with hn | ⟨rfl, hn⟩
      · exact hn.symm.le
      · rw [hn]
        exact (lt_add_one_of_noWrap hw).le
    · rw [hm, hj] at hj'
      cases hj'
      rfl
    · rw [hm] at hmem
      exact hnot hmem

/-- The events of a cancel that ended its job and of a later `result`: there is no payload. -/
def NoPayloadAfterCancel (e e' : JobEvent) : Prop :=
  ∀ id v, e.call = .cancel id → e.answer = .ok v → v.idx "cancelled" = true →
    e'.call = .result id → ∀ w, e'.answer = .ok w → w.get "result" = none

/-- What a run of the job system promises: a job that has ended stays as it is until it is removed,
and a job whose cancel was answered with `cancelled: true` has no payload. -/
structure JobsSettle (s : JobSystem) (tr : List (JobEvent × JobSystem)) : Prop where
  states : (statesOf s tr).Pairwise SettledStays
  payloads : tr.Pairwise fun p q => NoPayloadAfterCancel p.1 q.1

section Host

variable [Host] {s s' : JobSystem} {e : JobEvent}

/-- A cancel that was answered with `cancelled: true` leaves its job cancelled. -/
lemma JobStep.cancel_answer (h : JobStep s e s') {id : String} {v : Json}
    (hcall : e.call = .cancel id) (hv : e.answer = .ok v) (hcan : v.idx "cancelled" = true) :
    ∃ j, s'.manager.jobs[id]? = some j ∧ j.state = .cancelled := by
  rw [JobStep] at h
  rw [hcall, hv] at h
  unfold JobSystem.act at h
  dsimp only at h
  split at h
  · rename_i v' m hcancel
    cases h
    obtain ⟨j, job, -, -, hjob, rfl⟩ | ⟨-, hfalse⟩ := JobManager.cancel_eq_ok hcancel
    · exact ⟨job, by simp, hjob⟩
    · rw [hfalse] at hcan
      cases hcan
  · cases h
  · cases h

lemma JobStep.result_answer (h : JobStep s e s') {id : String} (hcall : e.call = .result id) :
    e.answer = s'.manager.result s'.now id := by
  rw [JobStep] at h
  rw [hcall] at h
  simp only [JobSystem.act, Option.some.injEq, Prod.mk.injEq] at h
  rw [← h.1, ← h.2]

omit [Host] in
/-- The result of a job that is cancelled or gone is an error. -/
lemma JobManager.result_of_cancelled {m : JobManager} {now : ℕ} {id : String}
    (h : ∀ j, m.jobs[id]? = some j → j.state = .cancelled) (w : Json) :
    m.result now id ≠ .ok w := by
  intro hw
  unfold JobManager.result JobManager.job at hw
  obtain ⟨j, hj, hw⟩ := Outcome.bind_eq_ok.mp hw
  rw [Outcome.ofOption_eq_ok] at hj
  rw [h j hj] at hw
  cases hw

/-- In a run where no task of a cancelled job ends while the job is registered, what has ended
stays as it is. -/
theorem jobs_settle {max_running result_ttl : ℕ} {tr : List (JobEvent × JobSystem)}
    (h : Run JobStep (.new max_running result_ttl) tr)
    (hs : Along (fun s e => e.call.Settles s) (.new max_running result_ttl) tr) :
    JobsSettle (.new max_running result_ttl) tr := by
  have hlater := h.pairwise_of_invariant (R := JobsLater) hs (JobSystem.new_wellFormed _ _)
    (fun s e s' hstep hset hwf => hstep.change.wellFormed hset.1 hwf)
    (fun s e s' hstep hset hwf => hstep.change.later hset hwf)
  refine ⟨hlater.imp JobsLater.settled, ?_⟩
  have hpairs : tr.Pairwise fun p q => JobsLater p.2 q.2 :=
    List.pairwise_map.mp (List.pairwise_cons.mp hlater).2
  refine hpairs.imp_of_mem fun {p q} hp hq hpq id v hcall hv hcan hres w hw => ?_
  obtain ⟨t, ht⟩ := h.step_of_mem hp
  obtain ⟨u, hu⟩ := h.step_of_mem hq
  obtain ⟨j, hj, hjcan⟩ := ht.cancel_answer hcall hv hcan
  rw [hu.result_answer hres] at hw
  -- the job is still cancelled, or gone
  refine absurd hw (JobManager.result_of_cancelled (fun j' hj' => ?_) w)
  rw [← hjcan]
  exact hpq.settled id j j' hj (by simp [hjcan]) hj'

end Host

instance JobCall.decidableNoWrap (s : JobSystem) : (call : JobCall) → Decidable (call.NoWrap s)
  | .start _ _ _ => inferInstanceAs (Decidable (_ < _))
  | .allocate => inferInstanceAs (Decidable (_ < _))
  | .complete _ _ | .cancel _ | .status _ | .result _ | .sweepCollect | .sweepRemove _ | .tick _ =>
    isTrue trivial

instance (s : JobSystem) : (call : JobCall) → Decidable (call.Settles s)
  | .complete k _ => inferInstanceAs (Decidable (_ ∧ ∀ id ∈ s.tasks[k]?,
      ∀ j ∈ s.manager.jobs[id]?, j.state ≠ .cancelled))
  | .start _ _ _ | .allocate | .cancel _ | .status _ | .result _ | .sweepCollect | .sweepRemove _
  | .tick _ => inferInstanceAs (Decidable (_ ∧ True))

/-- A job that ends, one that is cancelled, and a sweep of both before the call of the second has
ended. -/
theorem jobs_settle_swept :
    let calls : List JobCall :=
      [.start "db1" "deep.function" .null, .start "db1" "index.build" .null,
      .complete 0 (.ok (.nat 7)), .cancel "job2", .result "job2", .tick 10, .sweepCollect,
      .sweepRemove 0, .complete 0 (.ok (.nat 8)), .result "job2"]
    (@runJobs (Host.ascii true) (.new 4 5) calls).length = 10 ∧
      JobsSettle (.new 4 5) (@runJobs (Host.ascii true) (.new 4 5) calls) := by
  intro calls
  refine ⟨by decide +kernel, @jobs_settle (Host.ascii true) 4 5 _ ?_ (by decide +kernel)⟩
  exact @runJobs_run (Host.ascii true) _ _

/-- The task of a cancelled job stores its outcome, and `result` then has a payload. -/
theorem jobs_settle_not : ¬ ∀ tr, @Run _ _ (@JobStep (Host.ascii true)) (.new 4 5) tr →
    JobsSettle (.new 4 5) tr := by
  intro h
  have hrun := @runJobs_run (Host.ascii true) (.new 4 5)
    [.start "db1" "deep.function" .null, .cancel "job1", .complete 0 (.ok (.nat 7)), .result "job1"]
  have hpairs := List.pairwise_iff_getElem.mp (h _ hrun).payloads
  have hno := hpairs 1 3 (by decide +kernel) (by decide +kernel) (by omega)
  have hpayload := hno "job1" (JobManager.cancelledAnswer "job1") rfl (by decide +kernel) rfl rfl
    (.object [("id", "job1"), ("status", "done"), ("elapsed_secs", .nat 0), ("result", .nat 7)])
    (by decide +kernel)
  exact absurd hpayload (by decide)

/-! ## The number of tasks -/

/-- A start that is accepted finds the job of every unfinished task still running, and the counter
of handles does not wrap. -/
def JobCall.CountsTasks (s : JobSystem) (call : JobCall) : Prop :=
  call.NoWrap s ∧
    match call with
    | .start _ _ _ => s.manager.running < s.manager.max_running →
        ∀ id ∈ s.tasks, ((s.manager.jobs[id]?).map Job.state) = some .running
    | _ => True

instance (s : JobSystem) : (call : JobCall) → Decidable (call.CountsTasks s)
  | .start _ _ _ => inferInstanceAs (Decidable (_ ∧ (_ → ∀ id ∈ s.tasks,
      ((s.manager.jobs[id]?).map Job.state) = some .running)))
  | .complete _ _ | .allocate | .cancel _ | .status _ | .result _ | .sweepCollect | .sweepRemove _
  | .tick _ => inferInstanceAs (Decidable (_ ∧ True))

/-- Tasks of different running jobs are no more than the jobs that are registered as running. -/
lemma JobManager.length_le_running {m : JobManager} {tasks : List String} (hnodup : tasks.Nodup)
    (hrun : ∀ id ∈ tasks, (m.jobs[id]?).map Job.state = some .running) :
    tasks.length ≤ m.running := by
  have hsub : tasks ⊆ (m.jobs.toList.filter fun e => e.2.status = "running").map Prod.fst := by
    intro id hid
    obtain ⟨j, hj, hstate⟩ := Option.map_eq_some_iff.mp (hrun id hid)
    refine List.mem_map.mpr ⟨(id, j), List.mem_filter.mpr ⟨?_, ?_⟩, rfl⟩
    · exact Std.ExtTreeMap.mem_toList_iff_getElem?_eq_some.mpr hj
    · simp [Job.status, hstate]
  have hle := (List.subperm_of_subset hnodup hsub).length_le
  simpa [running] using hle

/-- One step keeps the number of tasks in its bound. -/
lemma JobChange.tasks_le {s s' : JobSystem} {call : JobCall} (hc : JobChange s call s')
    (hs : call.CountsTasks s) (h : s.WellFormed)
    (hle : s.tasks.length ≤ s.manager.max_running) :
    s'.tasks.length ≤ s'.manager.max_running ∧ s'.manager.max_running = s.manager.max_running := by
  cases hc with
  | started hid hrun hjob =>
    have hcount := JobManager.length_le_running h.tasks_nodup (hs.2 hrun)
    refine ⟨?_, rfl⟩
    simp only [List.length_append, List.length_singleton]
    omega
  | completed hid => exact ⟨(List.length_eraseIdx_le _ _).trans hle, rfl⟩
  | cancelled hj hrun hjob => exact ⟨hle, rfl⟩
  | removed => exact ⟨hle, rfl⟩
  | kept hm ht hn => exact ⟨by rw [hm, ht]; exact hle, by rw [hm]⟩

/-- In a run where no job is started next to the task of a job that is not running any more, there
are never more unfinished tasks than `max_running`. -/
theorem tasks_bounded [Host] {max_running result_ttl : ℕ} {tr : List (JobEvent × JobSystem)}
    (h : Run JobStep (.new max_running result_ttl) tr)
    (hs : Along (fun s e => e.call.CountsTasks s) (.new max_running result_ttl) tr) :
    ∀ s ∈ statesOf (.new max_running result_ttl) tr, s.tasks.length ≤ max max_running 1 := by
  have hinv := h.invariant (I := fun s => s.WellFormed ∧
      s.tasks.length ≤ s.manager.max_running ∧ s.manager.max_running = max max_running 1) hs
    ⟨JobSystem.new_wellFormed _ _, by simp [JobSystem.new], rfl⟩
    (fun s e s' hstep hcount ⟨hwf, hle, hmax⟩ => by
      obtain ⟨hle', hmax'⟩ := hstep.change.tasks_le hcount hwf hle
      exact ⟨hstep.change.wellFormed hcount.1 hwf, hle', hmax'.trans hmax⟩)
  intro s hmem
  obtain ⟨-, hle, hmax⟩ := hinv s hmem
  exact hmax ▸ hle

/-- A cancel whose task ends before the next start. -/
theorem tasks_bounded_cancel :
    let calls : List JobCall := [.start "db1" "deep.function" .null, .cancel "job1",
      .complete 0 (.ok .null), .start "db1" "deep.function" .null]
    ∀ s ∈ statesOf (.new 1 5) (@runJobs (Host.ascii true) (.new 1 5) calls),
      s.tasks.length ≤ max 1 1 := by
  intro calls
  exact @tasks_bounded (Host.ascii true) 1 5 _ (@runJobs_run (Host.ascii true) _ _)
    (by decide +kernel)

/-- With room for one job, a start behind a cancel leaves two tasks. -/
theorem tasks_bounded_not : ¬ ∀ tr, @Run _ _ (@JobStep (Host.ascii true)) (.new 1 5) tr →
    ∀ s ∈ statesOf (.new 1 5) tr, s.tasks.length ≤ max 1 1 := by
  intro h
  have hbound := h _ (@runJobs_run (Host.ascii true) (.new 1 5)
    [.start "db1" "deep.function" .null, .cancel "job1", .start "db1" "deep.function" .null])
  exact absurd hbound (by decide +kernel)

end ReverseMcp
