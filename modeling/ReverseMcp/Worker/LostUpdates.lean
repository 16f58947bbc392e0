import ReverseMcp.Rust.Versions
import ReverseMcp.Worker.Guard
import ReverseMcp.Worker.Revision

/-!
# No lost updates

Several clients share one worker: each reads the revision of the database and sends it along
with its next mutation.  A mutation whose revision is out of date is rejected and touches nothing
(`rejected_of_stale`), and the revision stands for one content as long as restores land on unused
revisions.  Together they make the guarded mutations updates under optimistic concurrency:

* `guarded_request_current` – a mutation that is not rejected finds the database that its client
  read, and nobody changed it in between;
* `one_change_per_revision` – of all the mutations that carry one revision, sent by whoever and in
  whatever order, at most one changes the database.
-/

namespace ReverseMcp

open Rust

/-- The revision of the worker's database, below every revision when there is none. -/
def WorkerState.version (s : WorkerState) : WithBot U64 := s.backend.map (·.revision)

/-- What the worker's database says. -/
def WorkerState.content (s : WorkerState) : Option Content := s.backend.map MockBackend.content

lemma WorkerState.version_of_some {s : WorkerState} {b : MockBackend} (hb : s.backend = some b) :
    s.version = b.revision := by
  rw [version, hb]
  rfl

lemma WorkerState.version_of_none {s : WorkerState} (hb : s.backend = none) : s.version = ⊥ := by
  rw [version, hb]
  rfl

/-- The revision that a guarded mutation expects. -/
def WorkerRequest.expected (req : WorkerRequest) : Option (WithBot U64) :=
  if req.method ∈ guardedMethods then
    ((req.params.get "expected_revision").bind Json.asU64).map WithBot.some
  else none

lemma WorkerRequest.expected_eq_some {req : WorkerRequest} {r : WithBot U64}
    (h : req.expected = some r) :
    req.method ∈ guardedMethods ∧
      ∃ (v : Json) (n : U64), req.params.get "expected_revision" = some v ∧
        v.asU64 = some n ∧ r = (n : WithBot U64) := by
  rw [expected] at h
  split at h
  · rename_i hm
    obtain ⟨n, hn, hr⟩ := Option.map_eq_some_iff.mp h
    obtain ⟨v, hv, hvn⟩ := Option.bind_eq_some_iff.mp hn
    exact ⟨hm, v, n, hv, hvn, hr.symm⟩
  · cases h

section Host

variable [Host]

omit [Host] in
/-- A step to a later state is one to a newer version. -/
lemma RevisionLater.newer {s s' : WorkerState} (h : RevisionLater s s')
    (habsent : s.backend = none → s'.backend = none) :
    Newer WorkerState.version WorkerState.content s s' := by
  cases hb : s.backend with
  | none =>
    have hcontent : s'.content = s.content := by simp [WorkerState.content, hb, habsent hb]
    exact ⟨WorkerState.version_of_none hb ▸ bot_le, fun _ => hcontent⟩
  | some b =>
    obtain ⟨b', hb', hle, hmoved⟩ := h b hb
    have hs := WorkerState.version_of_some hb
    have hs' := WorkerState.version_of_some hb'
    refine ⟨by rw [hs, hs']; exact WithBot.coe_le_coe.mpr hle, fun hv => ?_⟩
    rw [hs, hs', WithBot.coe_inj] at hv
    have hsame : b.content = b'.content := by
      by_contra hne
      exact hmoved hne hv.symm
    simp [WorkerState.content, hb, Option.mem_def.mp hb', hsame]

/-- The condition that a run keeps: no backend is selected, and restores land on unused
revisions. -/
def Guardable (s : WorkerState) (e : WorkerEvent) : Prop :=
  RevisionSafe s e ∧ e.req.method ≠ "backend.select"

omit [Host] in
instance {_ : Host} (s : WorkerState) (e : WorkerEvent) : Decidable (Guardable s e) :=
  inferInstanceAs (Decidable (_ ∧ _))

lemma WorkerStep.newer {s s' : WorkerState} {e : WorkerEvent} (h : WorkerStep s e s')
    (hC : Guardable s e) : Newer WorkerState.version WorkerState.content s s' :=
  (h.revisionLater hC.1 hC.2).newer fun hb => ((handle_effect h hC.2).absent hb).1.trans hb

/-- A guarded mutation whose revision is not the current one is rejected. -/
lemma rejected_of_stale {env : Env} {req : WorkerRequest} {s : WorkerState} {r : WithBot U64}
    (hr : req.expected = some r) (hs : s.version ≠ r) (hb : s.backend.isSome) :
    Rejected env req s := by
  obtain ⟨hm, v, n, hv, hn, rfl⟩ := WorkerRequest.expected_eq_some hr
  obtain ⟨b, hb⟩ := Option.isSome_iff_exists.mp hb
  have hstale : StaleGuard s req.params v := by
    refine ⟨hv, fun hnull => ?_, fun b' hb' hcur => hs ?_⟩
    · rw [hnull] at hn
      cases hn
    · obtain rfl := Option.some.inj (hn.symm.trans hcur)
      exact WorkerState.version_of_some hb'
  by_cases hp : req.method = "plan.apply"
  · exact (rejected_planApply_iff (by rw [hp]; rfl) hstale).mpr fun _ _ => by simp [hn]
  by_cases hd : req.method = "deob.apply"
  · refine (rejected_deobApply_iff (by rw [hd]; rfl) hstale).mpr fun _ => ?_
    exact ⟨b, hb, .inl (by simp [hn])⟩
  by_cases ht : req.method = "types.apply"
  · exact rejected_typesApply (by rw [ht]; rfl) hstale
  obtain ⟨m, hm⟩ := guarded_mutate hm ht hp hd
  exact rejected_mutate hm hstale

omit [Host] in
lemma Unchanged.version {s s' : WorkerState} (h : Unchanged s s') : s'.version = s.version := by
  have hrevision := congrArg (Option.map fun t => t.2.2) h.1
  simp only [Option.map_map, Function.comp_def] at hrevision
  exact hrevision

omit [Host] in
lemma Unchanged.content {s s' : WorkerState} (h : Unchanged s s') : s'.content = s.content := by
  have hcontent := congrArg (Option.map Prod.fst) h.1
  simpa [WorkerState.content, Function.comp_def] using hcontent

omit [Host] in
lemma SameBackend.unchanged {s s' : WorkerState} (h : SameBackend s s') : Unchanged s s' :=
  ⟨by rw [h.1], h.2⟩

/-- So it changes nothing. -/
lemma WorkerStep.unchanged_of_stale {s s' : WorkerState} {e : WorkerEvent} {r : WithBot U64}
    (h : WorkerStep s e s') (hr : e.req.expected = some r) (hs : s.version ≠ r) :
    Unchanged s s' := by
  cases hb : s.backend with
  | none =>
    have hne : e.req.method ≠ "backend.select" := by
      intro hsel
      have hm := (WorkerRequest.expected_eq_some hr).1
      rw [hsel] at hm
      exact absurd hm (by decide)
    exact ((handle_effect h hne).absent hb).unchanged
  | some b =>
    have hrejected : Rejected e.env e.req s := rejected_of_stale hr hs (by simp [hb])
    obtain ⟨err, t, hh, hsame⟩ := hrejected
    obtain ⟨-, rfl⟩ := Prod.mk.inj (Except.ok.inj ((show handle _ _ _ = _ from h).symm.trans hh))
    exact hsame

/-- Neither does a request that reads. -/
lemma WorkerStep.unchanged_of_reads {s s' : WorkerState} {e : WorkerEvent} {m : Method}
    (h : WorkerStep s e s') (hm : Method.parse e.req.method = some m) (hreads : m.reads = true) :
    Unchanged s s' := by
  obtain ⟨t, ht, hs'⟩ := handle_leaves h
  simp only [dispatch, hm] at ht
  have hsame := Method.run_keeps e.env e.req.params hreads s t ht
  rcases hs' with rfl | rfl
  · exact hsame.unchanged
  · exact SameBackend.unchanged hsame

omit [Host] in
/-- A worker with a database keeps one. -/
lemma WorkerState.backend_isSome {s s' : WorkerState}
    (h : Newer WorkerState.version WorkerState.content s s') (hb : s.backend.isSome) :
    s'.backend.isSome := by
  obtain ⟨b, hb⟩ := Option.isSome_iff_exists.mp hb
  by_contra hnone
  have hle := h.le
  rw [WorkerState.version_of_some hb,
    WorkerState.version_of_none (Option.not_isSome_iff_eq_none.mp hnone)] at hle
  exact WithBot.not_coe_le_bot _ hle

/-- A client reads the revision and sends it along with a mutation.  Whatever requests other
clients get answered in between, the mutation is rejected before it touches anything, or the
database that it finds is the one its client read and was so all along. -/
theorem guarded_request_current {s : WorkerState} {b : MockBackend}
    {tr : List (WorkerEvent × WorkerState)} (hb : s.backend = some b) (h : Run WorkerStep s tr)
    (hC : Along Guardable s tr) (env : Env) (req : WorkerRequest)
    (hread : req.expected = some (b.revision : WithBot U64)) :
    Rejected env req (lastOf s tr) ∨
      ∀ t ∈ statesOf s tr, ∃ c ∈ t.backend, c.revision = b.revision ∧ c.content = b.content := by
  have hv := WorkerState.version_of_some hb
  have hbetween := h.newer_between hC fun _ _ _ => WorkerStep.newer
  have hpresent : ∀ t ∈ statesOf s tr, t.backend.isSome := fun t ht =>
    WorkerState.backend_isSome (hbetween t ht).1 (by rw [hb]; rfl)
  by_cases hcur : (lastOf s tr).version = b.revision
  · -- nobody can have moved the revision and brought it back
    refine .inr fun t ht => ?_
    obtain ⟨hvt, hct⟩ := h.same_content hC (fun _ _ _ => WorkerStep.newer) (hcur.trans hv.symm) t ht
    obtain ⟨c, hc⟩ := Option.isSome_iff_exists.mp (hpresent t ht)
    refine ⟨c, hc, ?_, ?_⟩
    · rw [hv, WorkerState.version_of_some hc] at hvt
      exact WithBot.coe_inj.mp hvt
    · simpa [WorkerState.content, hb, hc] using hct
  · exact .inl (rejected_of_stale hread hcur (hpresent _ (lastOf_mem s tr)))

/-- However many clients send guarded mutations and in whatever order they are served, at most
one of the mutations that carry one revision changes the database. -/
theorem one_change_per_revision {s : WorkerState} {tr : List (WorkerEvent × WorkerState)}
    (h : Run WorkerStep s tr) (hC : Along Guardable s tr) (r : WithBot U64) :
    ((transitions s tr).filter
      (Wins (fun e : WorkerEvent => e.req.expected) WorkerState.content r)).length ≤ 1 :=
  h.one_winner hC (fun _ _ _ => WorkerStep.newer) fun _ _ _ hs _ hr hv =>
    (hs.unchanged_of_stale hr hv).content

end Host

/-- Three renames guarded by revision 0: the first one is carried out, the other two are not. -/
def rivals : List WorkerRequest :=
  ["a", "b", "c"].map fun name =>
    .call "rename" [("ea", "0x401000"), ("name", Json.string name), ("expected_revision", .nat 0)]

lemma opened_present : opened.backend.isSome := by decide +kernel

/-- The third of them against the two before it. -/
theorem guarded_request_current_rivals :
    ∃ b ∈ opened.backend, @Rejected (Host.ascii true) .bare rivals[2]
        (lastOf opened (@serve (Host.ascii true) .bare opened (rivals.take 2))) ∨
      ∀ t ∈ statesOf opened (@serve (Host.ascii true) .bare opened (rivals.take 2)),
        ∃ c ∈ t.backend, c.revision = b.revision ∧ c.content = b.content := by
  have hb : opened.backend = some (opened.backend.get opened_present) :=
    (Option.some_get opened_present).symm
  exact ⟨_, hb, @guarded_request_current (Host.ascii true) _ _ _ hb
    (@serve_run (Host.ascii true) _ _ _) (by decide +kernel) .bare rivals[2] (by decide +kernel)⟩

theorem one_change_per_revision_rivals :
    ((transitions opened (@serve (Host.ascii true) .bare opened rivals)).filter
      (Wins (fun e : WorkerEvent => e.req.expected) WorkerState.content
        ((0 : U64) : WithBot U64))).length ≤ 1 :=
  @one_change_per_revision (Host.ascii true) _ _ (@serve_run (Host.ascii true) _ _ _)
    (by decide +kernel) _

end ReverseMcp
