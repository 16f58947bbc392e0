import ReverseMcp.Worker.Rollback

/-!
# The revision guard

A mutation that carries an `expected_revision` other than the current revision must be rejected
before it has any effect.  The guard exists twice.  `check_revision`, in front of the single
mutations, rejects every value that is not the current revision.  The plans read the field with
`as_u64` first and pass what is left to `check_plan_revision`, so for them a text, a negative
number or a float is no guard at all.

`guard_rejects_iff` has the exact condition, over every state and every parameter object.
-/

namespace ReverseMcp

open Rust

/-- The mutating methods that accept `expected_revision`. -/
def guardedMethods : List String :=
  ["patch_bytes", "set_comment", "rename", "set_type", "func.create", "func.delete",
    "func.resize", "hr.lvar_rename", "deep.retype", "types.apply", "plan.apply", "deob.apply"]

/-- `expected_revision` is present with the value `v`, which is neither null nor the integer that
is the current revision. -/
structure StaleGuard (s : WorkerState) (params : Json) (v : Json) : Prop where
  present : params.get "expected_revision" = some v
  non_null : v ≠ .null
  stale : ∀ b ∈ s.backend, v.asU64 ≠ some b.revision

/-- What a rejected mutation must not touch. -/
def Unchanged (s s' : WorkerState) : Prop :=
  s'.backend.map (fun b => (b.content, b.snapshots, b.revision)) =
      s.backend.map (fun b => (b.content, b.snapshots, b.revision)) ∧ s'.audit = s.audit

/-- The operations of a `plan.apply` request parse. -/
def PlanParses (params : Json) : Prop :=
  ∃ ops ∈ (params.get "operations").bind Json.asArray, (Plan.parse_operations ops).isOk

/-- A `deob.apply` request has a plan with operations and an address as its target. -/
def DeobParses (params : Json) : Prop :=
  ∃ plan ∈ params.get "plan", Deep.items plan "operations" ≠ [] ∧
    (Transforms.planTarget plan).isOk

instance (params : Json) : Decidable (PlanParses params) :=
  inferInstanceAs (Decidable (∃ ops ∈ (params.get "operations").bind Json.asArray, _))

instance (params : Json) : Decidable (DeobParses params) :=
  inferInstanceAs (Decidable (∃ plan ∈ params.get "plan", _ ∧ _))

/-- The value of the guard is an unsigned integer whenever the request is a plan that gets past
its parser; for `deob.apply` a closed database does as well, a missing backend does not. -/
def GuardSeen (s : WorkerState) (req : WorkerRequest) (v : Json) : Prop :=
  (req.method = "plan.apply" → PlanParses req.params → s.backend ≠ none → v.asU64 ≠ none) ∧
    (req.method = "deob.apply" → DeobParses req.params →
      ∃ b ∈ s.backend, v.asU64 ≠ none ∨ b.open_path = none)

instance (s : WorkerState) (req : WorkerRequest) (v : Json) : Decidable (GuardSeen s req v) :=
  inferInstanceAs (Decidable ((_ → _ → _ → _) ∧ (_ → _ → ∃ b ∈ s.backend, _)))

section Host

variable [Host]

/-- The request is answered with an error, and nothing is touched. -/
def Rejected (env : Env) (req : WorkerRequest) (s : WorkerState) : Prop :=
  ∃ e s', handle env req s = .ok (⟨req.id, .error e⟩, s') ∧ Unchanged s s'

section Steps

variable {env : Env} {req : WorkerRequest} {s : WorkerState} {v : Json} {b : MockBackend}

omit [Host] in
/-- The guard of the single mutations rejects every stale value. -/
lemma check_revision_rejects (h : StaleGuard s req.params v) (hb : s.backend = some b) :
    ∃ e, check_revision req.params b = .err e := by
  rw [check_revision]
  rw [h.present]
  cases hv : v with
  | null => exact absurd hv h.non_null
  | number n =>
    dsimp only
    cases hn : (Json.number n).asU64 with
    | none => exact ⟨_, rfl⟩
    | some expected =>
      have hne : expected ≠ b.revision := fun he => h.stale b hb (by rw [hv, hn, he])
      exact ⟨_, if_neg hne⟩
  | _ => exact ⟨_, rfl⟩

omit [Host] in
/-- The guard of the plans rejects a stale unsigned integer and lets everything else through. -/
lemma check_plan_revision_stale (h : StaleGuard s req.params v) (hb : s.backend = some b) :
    Plan.check_plan_revision b ((req.params.get "expected_revision").bind Json.asU64) = .ok () ↔
      v.asU64 = none := by
  have hne := h.stale b hb
  simp only [h.present, Option.bind_some, Plan.check_plan_revision]
  cases hv : v.asU64 with
  | none => simp
  | some expected =>
    have hne' : expected ≠ b.revision := fun he => hne (by rw [hv, he])
    simp [hne']

lemma rejected_of_err {e : Error} (h : dispatch env req.method req.params s = .err e s) :
    Rejected env req s :=
  ⟨(e.code, e.text), s, by rw [handle, h]; rfl, rfl, rfl⟩

/-- A rejected request failed in the dispatcher. -/
lemma Rejected.dispatch_err (h : Rejected env req s) :
    ∃ e s', dispatch env req.method req.params s = .err e s' ∧ Unchanged s s' := by
  obtain ⟨e, s', hh, hu⟩ := h
  rw [handle] at hh
  cases hd : dispatch env req.method req.params s with
  | ok a t =>
    rw [hd] at hh
    simp [WorkerResponse.ok] at hh
  | err e' t =>
    rw [hd] at hh
    cases hh
    exact ⟨e', s', rfl, hu⟩
  | panic p =>
    rw [hd] at hh
    cases hh

/-- A single mutation is rejected before it has any effect. -/
lemma rejected_mutate {m : MutateMethod} (hm : Method.parse req.method = some (.mutate m))
    (h : StaleGuard s req.params v) : Rejected env req s := by
  cases hcall : m.call req.params with
  | panic p => simpa [hcall] using m.call_returns req.params
  | err e =>
    refine rejected_of_err (e := e) ?_
    simp only [dispatch, hm, Method.run, hcall, Action.lift_bind]
  | ok call =>
    have hx : ∃ e, (need_backend s >>= Worker.mutation req.params call) = .err e := by
      cases hb : s.backend with
      | none => exact ⟨_, by rw [need_backend_of_none hb]; rfl⟩
      | some b =>
        obtain ⟨e, he⟩ := check_revision_rejects h hb
        exact ⟨e, by rw [need_backend_of_some hb, Outcome.ok_bind, Worker.mutation, he]; rfl⟩
    obtain ⟨e, he⟩ := hx
    refine rejected_of_err (e := e) ?_
    simp only [dispatch, hm, Method.run, hcall, Action.lift_bind, Worker.mutate_eq]
    exact Action.bind_eq_err.mpr (.inl (Action.transact_eq_err.mpr ⟨he, rfl⟩))

/-- So is `types.apply`. -/
lemma rejected_typesApply (hm : Method.parse req.method = some .typesApply)
    (h : StaleGuard s req.params v) : Rejected env req s := by
  have hx : ∃ e, Worker.structApplied req.params s = .err e := by
    rw [Worker.structApplied]
    cases hname : text_required req.params "name" "missing name" with
    | panic p => simpa [hname] using text_required_returns req.params "name" "missing name"
    | err e => exact ⟨e, rfl⟩
    | ok name =>
      rw [Outcome.ok_bind]
      cases hfields : array_required req.params "fields" "missing fields array" with
      | panic p =>
        simpa [hfields] using array_required_returns req.params "fields" "missing fields array"
      | err e => exact ⟨e, rfl⟩
      | ok fields =>
        rw [Outcome.ok_bind]
        cases hb : s.backend with
        | none => exact ⟨_, by rw [need_backend_of_none hb]; rfl⟩
        | some b =>
          obtain ⟨e, he⟩ := check_revision_rejects h hb
          exact ⟨e, by rw [need_backend_of_some hb, Outcome.ok_bind, he]; rfl⟩
  obtain ⟨e, he⟩ := hx
  refine rejected_of_err (e := e) ?_
  simp only [dispatch, hm, Method.run, Worker.typesApply_eq]
  exact Action.transact_eq_err.mpr ⟨he, rfl⟩

/-- `plan.apply` is rejected exactly when its parser or the narrower guard rejects it. -/
lemma rejected_planApply_iff (hm : Method.parse req.method = some .planApply)
    (h : StaleGuard s req.params v) :
    Rejected env req s ↔ (PlanParses req.params → s.backend ≠ none → v.asU64 ≠ none) := by
  have hrun : dispatch env req.method req.params s = Worker.planApply req.params s := by
    simp only [dispatch, hm, Method.run]
  rw [Worker.planApply_eq] at hrun
  constructor
  · rintro hrej ⟨ops_json, hjson, hops⟩ hbackend hv
    obtain ⟨ops, hops⟩ := Outcome.isOk_iff.mp hops
    obtain ⟨b, hb⟩ := Option.ne_none_iff_exists'.mp hbackend
    obtain ⟨e, s', herr, -⟩ := hrej.dispatch_err
    -- with nothing in its way the plan is applied, and a plan does not fail as a whole
    obtain ⟨herr, -⟩ := Action.transact_eq_err.mp (hrun.symm.trans herr)
    rw [Worker.planApplied_of_some hb, Worker.planInput, array_required,
      Outcome.ofOption_eq_ok.mpr hjson, Outcome.ok_bind, hops, Outcome.ok_bind,
      (check_plan_revision_stale h hb).mpr hv] at herr
    exact Plan.apply_ne_err _ _ _ _ herr
  · intro hseen
    have hx : ∃ e, Worker.planApplied req.params s = .err e := by
      rw [Worker.planApplied]
      cases hjson : (req.params.get "operations").bind Json.asArray with
      | none => exact ⟨_, by rw [array_required, hjson]; rfl⟩
      | some ops_json =>
        rw [array_required, Outcome.ofOption_eq_ok.mpr hjson, Outcome.ok_bind]
        cases hops : Plan.parse_operations ops_json with
        | panic p => simpa [hops] using Plan.parse_operations_returns ops_json
        | err e => exact ⟨e, rfl⟩
        | ok ops =>
          rw [Outcome.ok_bind]
          cases hb : s.backend with
          | none => exact ⟨_, by rw [need_backend_of_none hb]; rfl⟩
          | some b =>
            have hparses : PlanParses req.params :=
              ⟨ops_json, hjson, Outcome.isOk_iff.mpr ⟨ops, hops⟩⟩
            have hv := hseen hparses (by simp [hb])
            rw [need_backend_of_some hb, Outcome.ok_bind]
            cases hrev : Plan.check_plan_revision b
                ((req.params.get "expected_revision").bind Json.asU64) with
            | panic p =>
              have hret := Plan.check_plan_revision_returns b
                ((req.params.get "expected_revision").bind Json.asU64)
              simp [hrev] at hret
            | err e => exact ⟨e, rfl⟩
            | ok u => exact absurd ((check_plan_revision_stale h hb).mp hrev) hv
    obtain ⟨e, he⟩ := hx
    exact rejected_of_err (e := e) (hrun.trans (Action.transact_eq_err.mpr ⟨he, rfl⟩))

/-- `deob.apply` is rejected exactly when it does not get as far as its snapshot, and does not
panic for want of a backend. -/
lemma rejected_deobApply_iff (hm : Method.parse req.method = some .deobApply)
    (h : StaleGuard s req.params v) :
    Rejected env req s ↔
      (DeobParses req.params → ∃ b ∈ s.backend, v.asU64 ≠ none ∨ b.open_path = none) := by
  have hrun : dispatch env req.method req.params s = Worker.deobApply req.params s := by
    simp only [dispatch, hm, Method.run]
  constructor
  · rintro hrej ⟨plan, hplan, hops, htarget⟩
    have hrun' : dispatch env req.method req.params s =
        Transforms.apply plan ((req.params.get "expected_revision").bind Json.asU64) s := by
      rw [hrun, Worker.deobApply, Action.lift_bind, Outcome.ofOption_eq_ok.mpr hplan]
    cases hb : s.backend with
    | none =>
      obtain ⟨e, s', herr, -⟩ := hrej.dispatch_err
      rw [hrun', Transforms.apply_of_none hb hops htarget] at herr
      cases herr
    | some b =>
      refine ⟨b, rfl, ?_⟩
      by_contra hnot
      simp only [ne_eq, not_or, not_not] at hnot
      -- the snapshot is taken, and it stays whatever comes after it
      have htakes : Transforms.TakesSnapshot plan
          ((req.params.get "expected_revision").bind Json.asU64) b :=
        ⟨hops, htarget, (check_plan_revision_stale h hb).mpr hnot.1,
          Option.isSome_iff_ne_none.mpr hnot.2⟩
      have hpush : req.stackOp b = .push := by
        simp [WorkerRequest.stackOp, hm, Option.mem_def.mp hplan, htakes]
      obtain ⟨e, s', hh, hu, -⟩ := hrej
      have hstep : WorkerStep s ⟨env, req, ⟨req.id, .error e⟩⟩ s' := hh
      have hsel : req.method ≠ "backend.select" := by
        intro he
        rw [he] at hm
        cases hm
      have hb' := ((handle_effect hh hsel).present b hb).1
      have hdepth := depthAfter_trace hstep hb 0
      simp only [hpush] at hdepth
      obtain ⟨top, htop, hlen⟩ := Run.snapshots_append (req.trace_run b)
        (show b.snapshots = [] ++ b.snapshots from rfl) hdepth
      rw [hb', hb] at hu
      have hsnaps : (lastOf b (req.trace b)).snapshots = b.snapshots := by
        simp only [Option.map_some, Option.some.injEq, Prod.mk.injEq] at hu
        exact hu.2.1
      have hlens := congrArg List.length (htop.symm.trans hsnaps)
      simp only [List.length_append] at hlens
      omega
  · intro hseen
    cases hplan : req.params.get "plan" with
    | none =>
      refine rejected_of_err (e := .worker "missing 'plan'") ?_
      rw [hrun, Worker.deobApply, Action.lift_bind, hplan]
      rfl
    | some plan =>
      have hrun' : dispatch env req.method req.params s =
          Transforms.apply plan ((req.params.get "expected_revision").bind Json.asU64) s := by
        rw [hrun, Worker.deobApply, Action.lift_bind, Outcome.ofOption_eq_ok.mpr hplan]
      by_cases hparses : Deep.items plan "operations" ≠ [] ∧ (Transforms.planTarget plan).isOk
      · obtain ⟨b, hb, hor⟩ := hseen ⟨plan, hplan, hparses.1, hparses.2⟩
        have hnot : ¬ Transforms.TakesSnapshot plan
            ((req.params.get "expected_revision").bind Json.asU64) b := by
          rintro ⟨-, -, hrev, hopen⟩
          rcases hor with hv | hclosed
          · exact hv ((check_plan_revision_stale h hb).mp hrev)
          · simp [hclosed] at hopen
        obtain ⟨e, he⟩ := Transforms.apply_of_not_takesSnapshot hb hnot
        exact rejected_of_err (e := e) (hrun'.trans he)
      · obtain ⟨e, he⟩ := Transforms.apply_of_not_parses hparses
        exact rejected_of_err (e := e) (hrun'.trans he)

end Steps

omit [Host] in
/-- The guarded methods other than the plans and `types.apply` are single mutations. -/
lemma guarded_mutate {method : String} (hm : method ∈ guardedMethods)
    (ht : method ≠ "types.apply") (hp : method ≠ "plan.apply") (hd : method ≠ "deob.apply") :
    ∃ m, Method.parse method = some (.mutate m) := by
  simp only [guardedMethods, List.mem_cons, List.not_mem_nil, or_false, ht, hp, hd] at hm
  rcases hm with rfl | rfl | rfl | rfl | rfl | rfl | rfl | rfl | rfl
  all_goals exact ⟨_, rfl⟩

/-- For every state and every parameter object with a stale `expected_revision`, the request is
answered with an error and nothing is touched, iff the guard sees the value. -/
theorem guard_rejects_iff (env : Env) (req : WorkerRequest) (s : WorkerState) (v : Json)
    (hm : req.method ∈ guardedMethods) (h : StaleGuard s req.params v) :
    Rejected env req s ↔ GuardSeen s req v := by
  by_cases hp : req.method = "plan.apply"
  · simp only [GuardSeen, hp, true_implies, String.reduceEq, false_implies, and_true]
    exact rejected_planApply_iff (by rw [hp]; rfl) h
  by_cases hd : req.method = "deob.apply"
  · simp only [GuardSeen, hd, true_implies, String.reduceEq, false_implies, true_and]
    exact rejected_deobApply_iff (by rw [hd]; rfl) h
  have hseen : GuardSeen s req v := ⟨fun he => absurd he hp, fun he => absurd he hd⟩
  by_cases ht : req.method = "types.apply"
  · exact iff_of_true (rejected_typesApply (by rw [ht]; rfl) h) hseen
  obtain ⟨m, hm⟩ := guarded_mutate hm ht hp hd
  exact iff_of_true (rejected_mutate hm h) hseen

end Host

/-- A plan that renames `main`, guarded by the given value. -/
def guardedPlan (expected_revision : Json) : WorkerRequest :=
  .call "plan.apply" [("expected_revision", expected_revision), ("operations", .array [
    .object [("kind", "rename"), ("ea", "0x401000"), ("name", "a")]])]

/-- At revision 0 a plan that expects revision 7 is rejected. -/
theorem guard_rejects_stale_number :
    @Rejected (Host.ascii true) .bare (guardedPlan (.nat 7)) opened :=
  (@guard_rejects_iff (Host.ascii true) _ _ _ (.nat 7) (by decide)
    ⟨rfl, by decide, by decide +kernel⟩).mpr (by decide +kernel)

/-- A plan that expects the text `"7"` is not. -/
theorem guard_ignores_text :
    ∃ req v, req.method ∈ guardedMethods ∧ StaleGuard opened req.params v ∧
      ¬ @Rejected (Host.ascii true) .bare req opened := by
  have hstale : StaleGuard opened (guardedPlan "7").params "7" :=
    ⟨rfl, by decide, by decide +kernel⟩
  refine ⟨guardedPlan "7", "7", by decide, hstale, fun hrej => ?_⟩
  have hseen := (@rejected_planApply_iff (Host.ascii true) _ _ _ _ rfl hstale).mp hrej
  exact hseen (by decide +kernel) (by decide +kernel) rfl

end ReverseMcp
