import ReverseMcp.Worker.Rollback

/-!
# The audit trail

Every single mutation and every applied operation of a plan appends an entry by hand.  Two
methods move the revision without one: `types.apply` and `snapshot.restore`.

`audit_complete_iff` says over whole sessions that the trail has one entry for every move of the
revision, in order, exactly when none of the two got through.
-/

namespace ReverseMcp

open Rust

/-- `types.apply` passes all of its checks. -/
def Worker.StructAccepted (params : Json) (b : MockBackend) : Prop :=
  ∃ name ∈ text_param params "name", ∃ fields ∈ (params.get "fields").bind Json.asArray,
    check_revision params b = .ok () ∧ trim name ≠ "" ∧
      fields.filterMap Json.asStr ≠ [] ∧ b.open_path.isSome

instance (params : Json) (b : MockBackend) : Decidable (Worker.StructAccepted params b) :=
  inferInstanceAs (Decidable (∃ name ∈ text_param params "name",
    ∃ fields ∈ (params.get "fields").bind Json.asArray, _ ∧ _ ∧ _ ∧ _))

/-- The request is neither a `types.apply` that passes its checks nor a `snapshot.restore` with a
snapshot to pop. -/
def AuditSafe (s : WorkerState) (e : WorkerEvent) : Prop :=
  ∀ b ∈ s.backend, ¬ (e.req.method = "types.apply" ∧ Worker.StructAccepted e.req.params b) ∧
    ¬ (e.req.method = "snapshot.restore" ∧ b.open_path.isSome ∧ b.snapshots ≠ [])

instance (s : WorkerState) (e : WorkerEvent) : Decidable (AuditSafe s e) :=
  inferInstanceAs (Decidable (∀ b ∈ s.backend, _ ∧ _))

/-- The trail has its positions as numbers, and one entry for each of the revisions. -/
def AuditComplete (audit : List AuditEntry) (revs : List U64) : Prop :=
  Numbered audit ∧ audit.map AuditEntry.revision_after = revs

section Host

variable [Host]

/-- The revisions that the requests of a run moved the counter to, in order. -/
def bumpsOf (s : WorkerState) : List (WorkerEvent × WorkerState) → List U64
  | [] => []
  | (e, s') :: tr => (s.backend.map fun b => (e.req.trace b).bumps).getD [] ++ bumpsOf s' tr

/-- The revisions that the requests of a run entered in the trail, in order. -/
def recordsOf (s : WorkerState) : List (WorkerEvent × WorkerState) → List U64
  | [] => []
  | (e, s') :: tr => (s.backend.map e.req.recorded).getD [] ++ recordsOf s' tr

/-! ## One request -/

omit [Host] in
/-- Selecting a backend leaves the trail. -/
lemma Worker.backendSelect_keeps (params : Json) :
    Action.Keeps (fun s s' : WorkerState => s'.audit = s.audit) (backendSelect params) := by
  intro s s' h
  rw [backendSelect] at h
  generalize (text_param params "kind").getD "mock" = kind at h
  split at h
  · cases h
    rfl
  · cases h
    rfl
  · cases h
    rfl

/-- Every request records what `WorkerRequest.recorded` says. -/
lemma WorkerStep.recorded {s s' : WorkerState} {e : WorkerEvent} (h : WorkerStep s e s') :
    Recorded s.audit ((s.backend.map e.req.recorded).getD []) s'.audit := by
  by_cases hsel : e.req.method = "backend.select"
  · have hm : Method.parse e.req.method = some .backendSelect := by rw [hsel]; rfl
    have hrec : (s.backend.map e.req.recorded).getD [] = [] := by
      cases s.backend with
      | none => rfl
      | some b => simp [WorkerRequest.recorded, hm, Method.trace, BackendTrace.bumps]
    obtain ⟨t, ht, hs'⟩ := handle_leaves h
    simp only [dispatch, hm, Method.run] at ht
    have hta : t.audit = s.audit := Worker.backendSelect_keeps _ s t ht
    have hs'a : s'.audit = t.audit := by
      rcases hs' with rfl | rfl
      · rfl
      · rfl
    rw [hrec, hs'a, hta]
    exact .refl _
  · have heff := handle_effect h hsel
    cases hb : s.backend with
    | none =>
      rw [(heff.absent hb).2]
      exact .refl _
    | some b => exact (heff.present b hb).2

/-- The trail of a run is that at its beginning with the recorded revisions behind it. -/
lemma Run.recorded {s : WorkerState} {tr : List (WorkerEvent × WorkerState)}
    (h : Run WorkerStep s tr) : Recorded s.audit (recordsOf s tr) (lastOf s tr).audit := by
  induction h with
  | nil s => exact .refl _
  | cons hs _ ih => exact (WorkerStep.recorded hs).trans ih

/-- A `types.apply` that gets through passed its checks. -/
lemma Worker.structMutation_accepted {params : Json} {b : MockBackend}
    {r : MutationOutcome × MockBackend} (h : structMutation params b = .ok r) :
    StructAccepted params b := by
  simp only [structMutation, Outcome.bind_eq_ok, text_required, array_required,
    Outcome.ofOption_eq_ok, failIf_eq_ok, not_or] at h
  obtain ⟨name, hname, fields, hfields, _, hrev, _, ⟨htrim, hne⟩, h⟩ := h
  exact ⟨name, hname, fields, hfields, hrev, htrim, hne,
    (MockBackend.type_udt_create_mutates h).opened⟩

/-- A `types.apply` that passed its checks and returned moved the revision. -/
lemma struct_applied {s s' : WorkerState} {e : WorkerEvent} {b : MockBackend}
    (h : WorkerStep s e s') (hm : Method.parse e.req.method = some .typesApply)
    (hb : s.backend = some b) (hacc : Worker.StructAccepted e.req.params b) :
    ∃ r, Worker.structMutation e.req.params b = .ok r := by
  obtain ⟨name, hname, fields, hfields, hrev, htrim, hne, ho⟩ := hacc
  obtain ⟨t, ht, -⟩ := handle_leaves h
  simp only [dispatch, hm, Method.run, Worker.typesApply_eq] at ht
  have hmut : Worker.structMutation e.req.params b =
      b.commit (.object [("name", name), ("fields", .strings (fields.filterMap Json.asStr))]) := by
    simp only [Worker.structMutation, text_required, array_required,
      Outcome.ofOption_eq_ok.mpr hname, Outcome.ofOption_eq_ok.mpr hfields, Outcome.ok_bind, hrev,
      MockBackend.type_udt_create, MockBackend.require_open_of_isSome ho, htrim, hne, failIf,
      Outcome.errIf, or_self, if_false]
  obtain ⟨v, hv, -⟩ | ⟨err, herr, -⟩ := Action.transact_leaves ht
  · rw [Worker.structApplied_of_some hb] at hv
    obtain ⟨r, hr, -⟩ := Outcome.bind_eq_ok.mp hv
    exact ⟨r, hr⟩
  · -- a commit does not fail: it moves the revision or overflows
    rw [Worker.structApplied_of_some hb, hmut] at herr
    simp only [MockBackend.commit, MockBackend.bump, addU64] at herr
    split at herr
    · simp at herr
    · simp at herr

/-- The trail falls behind exactly at the two methods that do not record. -/
lemma recorded_eq_bumps_iff {s s' : WorkerState} {e : WorkerEvent} {b : MockBackend}
    (h : WorkerStep s e s') (hb : s.backend = some b) :
    e.req.recorded b = (e.req.trace b).bumps ↔
      ¬ (e.req.method = "types.apply" ∧ Worker.StructAccepted e.req.params b) ∧
        ¬ (e.req.method = "snapshot.restore" ∧ b.open_path.isSome ∧ b.snapshots ≠ []) := by
  -- `types.apply` and `snapshot.restore` record nothing, so they fall behind when they bump
  by_cases hty : e.req.method = "types.apply"
  · have hm : Method.parse e.req.method = some .typesApply := by rw [hty]; rfl
    have hrec : e.req.recorded b = [] := by
      simp [WorkerRequest.recorded, hm, Method.records]
    have htr : e.req.trace b = mutationTrace (Worker.structMutation e.req.params b) := by
      simp only [WorkerRequest.trace, hm, Method.trace]
    rw [hrec, htr]
    simp only [hty, true_and, String.reduceEq, false_and, not_false_eq_true, and_true]
    constructor
    · intro hnil hacc
      obtain ⟨r, hr⟩ := struct_applied h hm hb hacc
      rw [hr] at hnil
      exact absurd hnil (List.cons_ne_nil _ _).symm
    · intro hacc
      unfold mutationTrace
      split
      · rename_i out b' hr
        exact absurd (Worker.structMutation_accepted hr) hacc
      · rfl
  by_cases hre : e.req.method = "snapshot.restore"
  · have hm : Method.parse e.req.method = some .snapshotRestore := by rw [hre]; rfl
    have hrec : e.req.recorded b = [] := by
      simp [WorkerRequest.recorded, hm, Method.records]
    have htr : e.req.trace b = Worker.popTrace b := by
      simp only [WorkerRequest.trace, hm, Method.trace]
    rw [hrec, htr]
    simp only [hre, String.reduceEq, false_and, not_false_eq_true, true_and]
    rw [Worker.popTrace]
    cases ho : b.open_path with
    | none => simp [BackendTrace.bumps]
    | some path =>
      cases hs : b.snapshots with
      | nil => simp [BackendTrace.bumps]
      | cons snap rest =>
        obtain ⟨r, hr⟩ := restore_bumped h hm hb (by rw [ho]; rfl) hs
        simp [hr, BackendTrace.bumps, BackendEvent.bumped]
  · -- every other method records what it bumps
    simp only [hty, hre, false_and, not_false_eq_true, and_self, iff_true]
    unfold WorkerRequest.recorded WorkerRequest.trace
    cases hm : Method.parse e.req.method with
    | none => rfl
    | some m =>
      have hrec : m.records = true := by
        have h₁ : m ≠ .typesApply := fun he => hty (Method.eq_ownName (he ▸ hm) rfl)
        have h₂ : m ≠ .snapshotRestore := fun he => hre (Method.eq_ownName (he ▸ hm) rfl)
        simp [Method.records, h₁, h₂]
      simp only [hrec, if_true]

/-- The trail holds a part of what happened. -/
lemma recorded_length_le (req : WorkerRequest) (b : MockBackend) :
    (req.recorded b).length ≤ (req.trace b).bumps.length := by
  rw [WorkerRequest.recorded, WorkerRequest.trace]
  cases Method.parse req.method with
  | none => exact Nat.le_refl _
  | some m =>
    dsimp only
    split
    · exact Nat.le_refl _
    · exact Nat.zero_le _

lemma records_length_le (s : WorkerState) (tr : List (WorkerEvent × WorkerState)) :
    (recordsOf s tr).length ≤ (bumpsOf s tr).length := by
  induction tr generalizing s with
  | nil => exact Nat.le_refl _
  | cons p tr ih =>
    simp only [recordsOf, bumpsOf, List.length_append]
    have htail := ih p.2
    cases s.backend with
    | none => simpa using htail
    | some b =>
      have hhead := recorded_length_le p.1.req b
      simp only [Option.map_some, Option.getD_some]
      omega

/-! ## Whole runs -/

/-- The trail is as long as what happened exactly when every request recorded all of its
moves. -/
lemma Run.records_eq_iff {s : WorkerState} {tr : List (WorkerEvent × WorkerState)}
    (h : Run WorkerStep s tr) : recordsOf s tr = bumpsOf s tr ↔ Along AuditSafe s tr := by
  induction h with
  | nil s => simp [recordsOf, bumpsOf]
  | @cons s s' e tr hs _ ih =>
    have hstep : (s.backend.map e.req.recorded).getD [] =
        (s.backend.map fun b => (e.req.trace b).bumps).getD [] ↔ AuditSafe s e := by
      cases hb : s.backend with
      | none => simp [AuditSafe, hb]
      | some b => simpa [AuditSafe, hb] using recorded_eq_bumps_iff hs hb
    have hle : ((s.backend.map e.req.recorded).getD []).length ≤
        ((s.backend.map fun b => (e.req.trace b).bumps).getD []).length := by
      cases s.backend with
      | none => exact Nat.le_refl _
      | some b => exact recorded_length_le e.req b
    rw [along_cons, ← hstep, ← ih]
    simp only [recordsOf, bumpsOf]
    constructor
    · -- the rest of the trail is not longer than the rest of what happened either
      intro heq
      have hlen := congrArg List.length heq
      have htail := records_length_le s' tr
      simp only [List.length_append] at hlen
      exact List.append_inj heq (by omega)
    · rintro ⟨hhead, htail⟩
      rw [hhead, htail]

/-- In every session the audit trail is numbered by position and has exactly one entry for each
move of the revision, in order, iff no `types.apply` passed its checks and no
`snapshot.restore` found a snapshot. -/
theorem audit_complete_iff {tr : List (WorkerEvent × WorkerState)}
    (h : Run WorkerStep .new tr) :
    AuditComplete (lastOf .new tr).audit (bumpsOf .new tr) ↔ Along AuditSafe .new tr := by
  have hrec := Run.recorded h
  have hrevs : (lastOf .new tr).audit.map AuditEntry.revision_after = recordsOf .new tr := by
    simpa [WorkerState.new] using hrec.revisions
  have hnum : Numbered (lastOf .new tr).audit :=
    hrec.numbered fun i e he => by simp [WorkerState.new] at he
  rw [← Run.records_eq_iff h, AuditComplete, hrevs]
  exact and_iff_right hnum

end Host

/-- A rename and a plan whose second operation fails. -/
theorem audit_complete_after_plan :
    let tr := @serve (Host.ascii true) .bare .new
      [.call "backend.select" [], .call "db.open" [("path", "a.bin")],
        .call "rename" [("ea", "0x401000"), ("name", "a")],
        .call "plan.apply" [("operations", .array [
          .object [("kind", "comment"), ("ea", "0x401000"), ("comment", "c")],
          .object [("kind", "rename"), ("ea", "0x1"), ("name", "b")]])]]
    AuditComplete (lastOf .new tr).audit (@bumpsOf (Host.ascii true) .new tr) :=
  (@audit_complete_iff (Host.ascii true) _ (@serve_run (Host.ascii true) _ _ _)).mpr
    (by decide +kernel)

/-- A struct is applied and a snapshot is restored: the revision moves twice, the trail stays
empty. -/
theorem audit_not_complete :
    ∃ tr, @Run _ _ (@WorkerStep (Host.ascii true)) .new tr ∧
      ¬ AuditComplete (lastOf .new tr).audit (@bumpsOf (Host.ascii true) .new tr) := by
  refine ⟨@serve (Host.ascii true) .bare .new
    [.call "backend.select" [], .call "db.open" [("path", "a.bin")],
      .call "types.apply" [("name", "s"), ("fields", .array ["int a;"])],
      .call "snapshot.create" [], .call "snapshot.restore" []],
    @serve_run (Host.ascii true) _ _ _, ?_⟩
  rintro ⟨-, hrevs⟩
  exact absurd hrevs (by decide +kernel)

end ReverseMcp
