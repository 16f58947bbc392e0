import ReverseMcp.Worker.Trace

/-!
# What a request does to the worker

`handle_effect` is the refinement theorem: a request other than `backend.select` leaves the
backend at the end of its trace, and the audit trail grown by the revisions of the recorded
mutations.  Most arms are transactions, which compute something from the state they find and
update it only on success; `deob.apply` is the exception, since its snapshot stays when a later
step fails.
-/

namespace ReverseMcp

open Rust

variable [Host]

/-! ## The arms that leave the backend alone -/

omit [Host] in
/-- The backend and the audit trail are as before. -/
def SameBackend (s s' : WorkerState) : Prop := s'.backend = s.backend ∧ s'.audit = s.audit

instance : Std.Refl SameBackend := ⟨fun _ => ⟨rfl, rfl⟩⟩

instance : IsTrans WorkerState SameBackend :=
  ⟨fun _ _ _ h₁ h₂ => ⟨h₂.1.trans h₁.1, h₂.2.trans h₁.2⟩⟩

omit [Host] in
/-- A relation between states that does not look at the index and the result cache. -/
class Blind (R : WorkerState → WorkerState → Prop) : Prop
    extends Std.Refl R, IsTrans WorkerState R where
  index : ∀ s index, R s { s with index }
  cache : ∀ s workflow_cache, R s { s with workflow_cache }

instance : Blind SameBackend where
  index := fun _ _ => ⟨rfl, rfl⟩
  cache := fun _ _ => ⟨rfl, rfl⟩

namespace Worker

open Rust.Action (Keeps)

variable {R : WorkerState → WorkerState → Prop} [Blind R]

omit [Host] in
lemma backend_keeps : Keeps R backend := by
  rw [backend]
  exact Keeps.get.bind fun s => .lift _

lemma ensure_index_keeps (b : MockBackend) : Keeps R (ensure_index b) := by
  have hbuild : Keeps R (do
      let built ← Action.lift b.build_index
      Action.modify fun s => { s with index := some built }
      return built : Worker (AnalysisIndex × String)) := by
    refine (Keeps.lift _).bind fun built => (Keeps.modify fun s => ?_).bind fun _ => .pure _
    exact Blind.index s _
  rw [ensure_index]
  refine Keeps.get.bind fun s => ?_
  split
  · split
    · exact .pure _
    · exact hbuild
  · exact hbuild

lemma indexed_keeps (call : IndexedCall) : Keeps R (indexed call) := by
  rw [indexed]
  exact backend_keeps.bind fun b => (ensure_index_keeps b).bind fun p => .lift _

lemma throughCache_keeps (key : CacheKey) (run : Result Json) : Keeps R (throughCache key run) := by
  have hlookup : Keeps R (lookup key) := by
    rw [lookup]
    refine Keeps.get.bind fun s => (Keeps.lift _).bind fun p => ?_
    exact (Keeps.modify fun s => Blind.cache s _).bind fun _ => .pure _
  rw [throughCache, uncached]
  refine hlookup.bind fun found => ?_
  split
  · exact Keeps.get.bind fun s => .pure _
  · refine (Keeps.lift _).bind fun v => (Keeps.modify fun s => ?_).bind fun _ => ?_
    · exact Blind.cache s _
    · exact Keeps.get.bind fun s => .pure _

omit [Host] in
lemma pastCache_keeps (run : Result Json) : Keeps R (pastCache run) := by
  rw [pastCache]
  exact (Keeps.lift _).bind fun v => Keeps.get.bind fun s => .pure _

lemma cached_keeps (call : CachedCall) : Keeps R (cached call) := by
  rw [cached]
  refine backend_keeps.bind fun b => (ensure_index_keeps b).bind fun p => ?_
  refine (Keeps.lift _).bind fun ⟨key, run⟩ => ?_
  dsimp only
  split
  · exact pastCache_keeps _
  · exact throughCache_keeps _ _

lemma hrMicrocode_keeps (params : Json) : Keeps R (hrMicrocode params) := by
  rw [hrMicrocode]
  exact (Keeps.lift _).bind fun ea => backend_keeps.bind fun b => throughCache_keeps _ _

lemma indexBuild_keeps : Keeps R indexBuild := by
  rw [indexBuild]
  refine backend_keeps.bind fun b => (Keeps.lift _).bind fun p => ?_
  exact (Keeps.modify fun s => Blind.index s _).bind fun _ => .pure _

end Worker

omit [Host] in
/-- The methods that have no steps of the backend. -/
def Method.reads : Method → Bool
  | read _ | indexed _ | cached _ | shutdown | indexBuild | hrMicrocode => true
  | _ => false

/-- All that these methods change, `shutdown` apart, is the index and the result cache. -/
lemma Method.run_keeps_blind (R : WorkerState → WorkerState → Prop) [Blind R] (env : Env)
    {m : Method} (params : Json) (hm : m.reads) (hdown : m ≠ shutdown) :
    Action.Keeps R (m.run env params) := by
  cases m with
  | read m => exact Action.Keeps.get.bind fun s => .lift _
  | indexed m =>
    simp only [Method.run]
    split
    · exact Action.Keeps.get.bind fun s => .lift _
    · exact (Action.Keeps.lift _).bind fun call => Worker.indexed_keeps call
  | cached m => exact (Action.Keeps.lift _).bind fun call => Worker.cached_keeps call
  | shutdown => exact absurd rfl hdown
  | indexBuild => exact Worker.indexBuild_keeps
  | hrMicrocode => exact Worker.hrMicrocode_keeps params
  | _ => cases hm

lemma Method.run_keeps (env : Env) {m : Method} (params : Json) (hm : m.reads) :
    Action.Keeps SameBackend (m.run env params) := by
  by_cases hdown : m = shutdown
  · subst hdown
    exact (Action.Keeps.modify fun s => ⟨rfl, rfl⟩).bind fun _ => .pure _
  · exact run_keeps_blind SameBackend env params hm hdown

/-! ## The arms as transactions -/

namespace Worker

omit [Host] in
/-- Taking the backend is part of the transaction that follows. -/
lemma backend_transact {α β : Type} (y : MockBackend → WorkerState → Result β)
    (u : β → WorkerState → WorkerState) (v : β → α) :
    (backend >>= fun b => Action.transact (y b) u v : Worker α) =
      Action.transact (fun s => need_backend s >>= fun b => y b s) u v := by
  funext s
  rw [backend]
  rw [Action.bind_apply, Action.get_bind]
  unfold Action.transact
  dsimp only
  cases need_backend s <;> rfl

omit [Host] in
lemma mutate_eq (params : Json) (call : Mutation) :
    mutate params call = Action.transact (fun s => need_backend s >>= mutation params call)
      (fun r s => { s with
        backend := some r.2, audit := Plan.record_audit s.audit call.kind call.ea r.1 })
      (fun r => r.1.to_value) := by
  simp only [mutate, setBackend, Action.modify_modify, Action.lift_modify, Action.lift_transact]
  exact backend_transact _ _ _

omit [Host] in
lemma dbOpen_eq (params : Json) :
    dbOpen params = Action.transact
      (fun s => do
        let path ← text_required params "path" "missing path"
        let b ← need_backend s
        b.openDb path)
      (fun r s => { s with backend := some r.2 }) Prod.fst := by
  simp only [dbOpen, setBackend, Action.lift_modify, backend_transact, Action.lift_transact]

omit [Host] in
lemma dbClose_eq :
    dbClose = Action.transact (fun s => do (← need_backend s).close)
      (fun b s => { s with backend := some b }) (fun _ => .object [("closed", true)]) := by
  simp only [dbClose, setBackend, Action.lift_modify]
  exact backend_transact _ _ _

omit [Host] in
lemma snapshotCreate_eq :
    snapshotCreate = Action.transact (fun s => do (← need_backend s).snapshot_create)
      (fun r s => { s with backend := some r.2 }) Prod.fst := by
  simp only [snapshotCreate, setBackend, Action.lift_modify]
  exact backend_transact _ _ _

lemma snapshotRestore_eq :
    snapshotRestore = Action.transact (fun s => do (← need_backend s).snapshot_restore)
      (fun r s => { s with backend := some r.2 }) Prod.fst := by
  simp only [snapshotRestore, setBackend, Action.lift_modify]
  exact backend_transact _ _ _

/-- The application of a struct, from the state. -/
def structApplied (params : Json) (s : WorkerState) : Result (Json × MockBackend) := do
  let name ← text_required params "name" "missing name"
  let fields ← array_required params "fields" "missing fields array"
  let b ← need_backend s
  check_revision params b
  Types.apply_struct b name (fields.filterMap Json.asStr)

lemma typesApply_eq (params : Json) :
    typesApply params = Action.transact (structApplied params)
      (fun r s => { s with
        backend := some r.2, workflow_cache := s.workflow_cache.invalidate_all }) Prod.fst := by
  simp only [typesApply, setBackend, Action.modify_modify, Action.lift_modify,
    Action.lift_transact, backend_transact]
  rfl

omit [Host] in
/-- The answer of `types.apply`. -/
def structAnswer (out : MutationOutcome) : Json :=
  .object [("applied", out.changed), ("revision_after", .u64 out.revision_after),
    ("detail", out.detail)]

/-- With a backend, the application of a struct is its mutation. -/
lemma structApplied_of_some {params : Json} {s : WorkerState} {b : MockBackend}
    (hb : s.backend = some b) : structApplied params s =
      structMutation params b >>= fun r => .ok (structAnswer r.1, r.2) := by
  simp only [structApplied, structMutation, need_backend_of_some hb, Outcome.ok_bind,
    Types.apply_struct, bind_assoc]
  rfl

/-- The application of a plan, from the state. -/
def planApplied (params : Json) (s : WorkerState) :
    Result (Json × MockBackend × List AuditEntry) := do
  let ops_json ← array_required params "operations" "missing 'operations' array"
  let ops ← Plan.parse_operations ops_json
  let b ← need_backend s
  Plan.check_plan_revision b ((params.get "expected_revision").bind Json.asU64)
  Plan.apply ops b s.audit

/-- With a backend, the application of a plan runs the operations that the guard lets through. -/
lemma planApplied_of_some {params : Json} {s : WorkerState} {b : MockBackend}
    (hb : s.backend = some b) : planApplied params s =
      planInput params b >>= fun ops => Plan.apply ops b s.audit := by
  simp only [planApplied, planInput, need_backend_of_some hb, Outcome.ok_bind, bind_assoc,
    Outcome.pure_eq]

lemma planApply_eq (params : Json) :
    planApply params = Action.transact (planApplied params)
      (fun r s => { s with backend := some r.2.1, audit := r.2.2 }) Prod.fst := by
  simp only [planApply, Action.lift_modify, Action.lift_transact, Action.get_transact,
    backend_transact]
  rfl

end Worker

namespace Transforms

variable {plan : Json} {expected_revision : Option U64} {b : MockBackend} {s s' : WorkerState}

/-- Behind the snapshot only an operation that does not parse is an error. -/
lemma applyPushed_leaves {ops_json : List Json} {target : U64} {snapshot : Json}
    (h : (applyPushed plan ops_json target snapshot b s).Leaves s') :
    (∃ e, Plan.parse_operations ops_json = .err e ∧ s' = s) ∨
      ∃ ops r, Plan.parse_operations ops_json = .ok ops ∧ Plan.apply ops b s.audit = .ok r ∧
        s' = { s with backend := some r.2.1, audit := r.2.2 } := by
  rw [applyPushed] at h
  obtain ⟨e, he, -⟩ | ⟨before, -, h⟩ := Action.lift_bind_leaves h
  · exact absurd he (Outcome.ok?_ne_err _ _)
  obtain ⟨e, he, rfl⟩ | ⟨ops, hops, h⟩ := Action.lift_bind_leaves h
  · exact .inl ⟨e, he, rfl⟩
  rw [Action.get_bind] at h
  obtain ⟨e, he, -⟩ | ⟨⟨applied, b', audit⟩, hr, h⟩ := Action.lift_bind_leaves h
  · exact absurd he (Plan.apply_ne_err _ _ _ _)
  refine .inr ⟨ops, (applied, b', audit), hops, hr, ?_⟩
  dsimp only at h
  rw [Action.modify_bind] at h
  obtain ⟨e, he, -⟩ | ⟨after, -, h⟩ := Action.lift_bind_leaves h
  · exact absurd he (Outcome.ok?_ne_err _ _)
  obtain ⟨e, he, -⟩ | ⟨cfg, -, h⟩ := Action.lift_bind_leaves h
  · exact absurd he (Outcome.ok?_ne_err _ _)
  exact h.symm

/-- A plan without operations, or without an address as its target, is rejected. -/
lemma apply_of_not_parses (h : ¬ (Deep.items plan "operations" ≠ [] ∧ (planTarget plan).isOk)) :
    ∃ e, apply plan expected_revision s = .err e s := by
  rw [apply]
  by_cases hops : Deep.items plan "operations" = []
  · exact ⟨.worker "plan has no operations", by
      simp [failIf, Outcome.errIf, hops, Action.lift_bind]⟩
  simp only [failIf, Outcome.errIf, hops, if_false, Action.lift_bind]
  cases htarget : planTarget plan with
  | panic p => simpa [htarget] using planTarget_returns plan
  | err e => exact ⟨e, rfl⟩
  | ok target => exact absurd ⟨hops, by rw [htarget]; rfl⟩ h

/-- Behind these two checks the backend is taken with `expect`. -/
lemma apply_of_none (hb : s.backend = none) (hops : Deep.items plan "operations" ≠ [])
    (htarget : (planTarget plan).isOk) : apply plan expected_revision s = .panic .expect := by
  obtain ⟨target, htarget⟩ := Outcome.isOk_iff.mp htarget
  rw [apply]
  simp only [failIf, Outcome.errIf, hops, if_false, Action.lift_bind, htarget, Action.get_bind, hb]
  rfl

/-- A call that does not get as far as the snapshot is rejected, and leaves the state. -/
lemma apply_of_not_takesSnapshot (hb : s.backend = some b)
    (h : ¬ TakesSnapshot plan expected_revision b) :
    ∃ e, apply plan expected_revision s = .err e s := by
  by_cases hparses : Deep.items plan "operations" ≠ [] ∧ (planTarget plan).isOk
  · obtain ⟨hops, htarget⟩ := hparses
    have hisOk := htarget
    obtain ⟨target, htarget⟩ := Outcome.isOk_iff.mp htarget
    rw [apply]
    simp only [failIf, Outcome.errIf, hops, if_false, Action.lift_bind, htarget, Action.get_bind,
      hb]
    cases hrev : Plan.check_plan_revision b expected_revision with
    | panic p => simpa [hrev] using Plan.check_plan_revision_returns b expected_revision
    | err e => exact ⟨e, rfl⟩
    | ok u =>
      have hopen : b.open_path = none := by
        by_contra ho
        exact h ⟨hops, hisOk, hrev, Option.isSome_iff_ne_none.mpr ho⟩
      refine ⟨.worker "no db open", ?_⟩
      simp [MockBackend.snapshot_create, MockBackend.require_open, hopen, fail]
  · exact apply_of_not_parses hparses

/-- Without a backend the call changes nothing: it is rejected or it panics. -/
lemma apply_leaves_of_none (hb : s.backend = none)
    (h : (apply plan expected_revision s).Leaves s') : s' = s := by
  rw [apply] at h
  obtain ⟨e, -, rfl⟩ | ⟨_, -, h⟩ := Action.lift_bind_leaves h
  · rfl
  obtain ⟨e, -, rfl⟩ | ⟨target, -, h⟩ := Action.lift_bind_leaves h
  · rfl
  rw [Action.get_bind, hb] at h
  exact h.elim

/-- A call that gets as far as the snapshot takes it. -/
lemma apply_of_takesSnapshot (hb : s.backend = some b)
    (h : TakesSnapshot plan expected_revision b) :
    ∃ target snapshot, apply plan expected_revision s =
      applyPushed plan (Deep.items plan "operations") target snapshot b.pushed
        { s with backend := some b.pushed } := by
  obtain ⟨hops, htarget, hrev, hopen⟩ := h
  obtain ⟨target, htarget⟩ := Outcome.isOk_iff.mp htarget
  have hsnap := MockBackend.snapshot_create_eq_ok.mpr ⟨hopen, rfl, rfl⟩
  rw [apply]
  simp only [failIf, Outcome.errIf, hops, if_false, htarget, Action.lift_bind, Action.get_bind, hb,
    hrev, hsnap, Action.modify_bind]
  exact ⟨target, _, rfl⟩

end Transforms

/-! ## The effect of a request -/

/-- The backend and the audit trail that a method leaves are those its trace says. -/
structure Method.Effect (m : Method) (params : Json) (s s' : WorkerState) : Prop where
  absent : s.backend = none → SameBackend s s'
  present : ∀ b, s.backend = some b → s'.backend = some (lastOf b (m.trace params b)) ∧
    Recorded s.audit (if m.records then (m.trace params b).bumps else []) s'.audit

namespace Method

variable {env : Env} {params : Json} {s s' : WorkerState}

/-- A method without steps. -/
lemma Effect.of_same {m : Method} (htr : ∀ b, s.backend = some b → m.trace params b = [])
    (h : SameBackend s s') : m.Effect params s s' := by
  refine ⟨fun _ => h, fun b hb => ?_⟩
  rw [htr b hb]
  refine ⟨h.1.trans hb, ?_⟩
  rw [h.2]
  have hrevs : (if m.records then BackendTrace.bumps [] else []) = ([] : List U64) := by
    split <;> rfl
  rw [hrevs]
  exact .refl _

/-- A method with the steps `tr`. -/
lemma Effect.of_trace {m : Method} {b : MockBackend} (tr : BackendTrace)
    (hb : s.backend = some b) (htr : m.trace params b = tr)
    (hs' : s'.backend = some (lastOf b tr))
    (ha : Recorded s.audit (if m.records then tr.bumps else []) s'.audit) :
    m.Effect params s s' := by
  refine ⟨fun h => by simp [hb] at h, fun c hc => ?_⟩
  obtain rfl : b = c := Option.some.inj (hb.symm.trans hc)
  rw [htr]
  exact ⟨hs', ha⟩

/-- A method with a recorded mutation as its only step. -/
lemma Effect.of_mutation {m : MutateMethod} {call : Mutation} {b b' : MockBackend}
    {out : MutationOutcome} (hb : s.backend = some b) (hcall : m.call params = .ok call)
    (hm : Worker.mutation params call b = .ok (out, b')) (hs' : s'.backend = some b')
    (ha : s'.audit = Plan.record_audit s.audit call.kind call.ea out) :
    (mutate m).Effect params s s' := by
  refine .of_trace [(.mutated out, b')] hb ?_ hs' ?_
  · simp only [trace, hcall, Outcome.ok_bind, hm, mutationTrace]
  · rw [ha]
    exact recorded_record_audit _ _ _ _

lemma run_mutate_effect {m : MutateMethod} (h : ((mutate m).run env params s).Leaves s') :
    (mutate m).Effect params s s' := by
  rw [run] at h
  obtain ⟨e, he, rfl⟩ | ⟨call, hcall, h⟩ := Action.lift_bind_leaves h
  · exact .of_same (fun b _ => by simp [trace, he, mutationTrace]) ⟨rfl, rfl⟩
  rw [Worker.mutate_eq] at h
  obtain ⟨e, he⟩ | ⟨v, t, ht, h⟩ := Action.bind_leaves h
  · obtain ⟨he, rfl⟩ := Action.transact_eq_err.mp he
    refine .of_same (fun b hb => ?_) ⟨rfl, rfl⟩
    rw [need_backend_of_some hb, Outcome.ok_bind] at he
    simp [trace, hcall, he, mutationTrace]
  · obtain ⟨⟨out, b'⟩, hx, -, rfl⟩ := Action.transact_eq_ok.mp ht
    obtain ⟨b, hb, hx⟩ := Outcome.bind_eq_ok.mp hx
    rw [need_backend, Outcome.ofOption_eq_ok] at hb
    -- what follows the mutation touches the result cache only
    refine .of_mutation hb hcall hx ?_ ?_
    · split at h <;> rw [← h]
    · split at h <;> rw [← h]

lemma run_typesApply_effect (h : (typesApply.run env params s).Leaves s') :
    typesApply.Effect params s s' := by
  simp only [run, Worker.typesApply_eq] at h
  cases hb : s.backend with
  | none =>
    obtain ⟨r, hr, -⟩ | ⟨e, -, rfl⟩ := Action.transact_leaves h
    · simp only [Worker.structApplied, need_backend_of_none hb, Outcome.err_bind,
        Outcome.bind_eq_ok] at hr
      obtain ⟨name, -, fields, -, hr⟩ := hr
      cases hr
    · exact .of_same (fun b hb' => by simp [hb] at hb') ⟨rfl, rfl⟩
  | some b =>
    obtain ⟨⟨v, b'⟩, hr, rfl⟩ | ⟨e, he, rfl⟩ := Action.transact_leaves h
    · rw [Worker.structApplied_of_some hb] at hr
      obtain ⟨⟨out, c⟩, hm, hr⟩ := Outcome.bind_eq_ok.mp hr
      cases hr
      refine .of_trace [(.mutated out, c)] hb ?_ rfl (.refl _)
      simp only [trace, hm, mutationTrace]
    · rw [Worker.structApplied_of_some hb] at he
      refine .of_same (fun c hc => ?_) ⟨rfl, rfl⟩
      obtain rfl : b = c := Option.some.inj (hb.symm.trans hc)
      rcases Outcome.bind_eq_err.mp he with he | ⟨r, -, he⟩
      · simp [trace, he, mutationTrace]
      · cases he

lemma run_planApply_effect (h : (planApply.run env params s).Leaves s') :
    planApply.Effect params s s' := by
  simp only [run, Worker.planApply_eq] at h
  cases hb : s.backend with
  | none =>
    obtain ⟨r, hr, -⟩ | ⟨e, -, rfl⟩ := Action.transact_leaves h
    · simp only [Worker.planApplied, need_backend_of_none hb, Outcome.err_bind,
        Outcome.bind_eq_ok] at hr
      obtain ⟨ops_json, -, ops, -, hr⟩ := hr
      cases hr
    · exact .of_same (fun b hb' => by simp [hb] at hb') ⟨rfl, rfl⟩
  | some b =>
    obtain ⟨⟨v, b', audit⟩, hr, rfl⟩ | ⟨e, he, rfl⟩ := Action.transact_leaves h
    · rw [Worker.planApplied_of_some hb] at hr
      obtain ⟨ops, hops, hr⟩ := Outcome.bind_eq_ok.mp hr
      obtain ⟨rfl, ha⟩ := Plan.apply_eq_ok hr
      refine .of_trace (Plan.trace ops b) hb ?_ rfl ha
      simp only [trace, hops]
    · rw [Worker.planApplied_of_some hb] at he
      refine .of_same (fun c hc => ?_) ⟨rfl, rfl⟩
      obtain rfl : b = c := Option.some.inj (hb.symm.trans hc)
      rcases Outcome.bind_eq_err.mp he with he | ⟨ops, -, he⟩
      · simp [trace, he]
      · exact absurd he (Plan.apply_ne_err _ _ _ _)

lemma run_deobApply_effect (h : (deobApply.run env params s).Leaves s') :
    deobApply.Effect params s s' := by
  simp only [run, Worker.deobApply] at h
  obtain ⟨e, he, rfl⟩ | ⟨plan, hplan, h⟩ := Action.lift_bind_leaves h
  · refine .of_same (fun b _ => ?_) ⟨rfl, rfl⟩
    cases hp : params.get "plan" with
    | none => simp [trace, hp]
    | some plan => simp [hp, Outcome.ofOption] at he
  rw [Outcome.ofOption_eq_ok] at hplan
  cases hb : s.backend with
  | none =>
    have hs : s' = s := Transforms.apply_leaves_of_none hb h
    exact .of_same (fun b hb' => by simp [hb] at hb') (hs ▸ ⟨rfl, rfl⟩)
  | some b =>
    by_cases ht : Transforms.TakesSnapshot plan ((params.get "expected_revision").bind Json.asU64) b
    · -- the snapshot is taken first, and stays when the operations are refused
      obtain ⟨target, snapshot, happly⟩ := Transforms.apply_of_takesSnapshot hb ht
      rw [happly] at h
      obtain ⟨e, he, rfl⟩ | ⟨ops, ⟨v, b', audit⟩, hops, hr, rfl⟩ :=
        Transforms.applyPushed_leaves h
      · refine .of_trace [(.pushed, b.pushed)] hb ?_ rfl (.refl _)
        simp only [trace, hplan, Transforms.trace, ht, if_true, he]
      · obtain ⟨rfl, ha⟩ := Plan.apply_eq_ok hr
        refine .of_trace ((.pushed, b.pushed) :: Plan.trace ops b.pushed) hb ?_ rfl ha
        simp only [trace, hplan, Transforms.trace, ht, if_true, hops]
    · obtain ⟨e, he⟩ := Transforms.apply_of_not_takesSnapshot hb ht
      rw [he] at h
      refine .of_same (fun c hc => ?_) (h ▸ ⟨rfl, rfl⟩)
      obtain rfl : b = c := Option.some.inj (hb.symm.trans hc)
      simp only [trace, hplan, Transforms.trace, ht, if_false]

lemma run_dbOpen_effect (h : (dbOpen.run env params s).Leaves s') :
    dbOpen.Effect params s s' := by
  simp only [run, Worker.dbOpen_eq] at h
  obtain ⟨⟨v, b'⟩, hr, rfl⟩ | ⟨e, he, rfl⟩ := Action.transact_leaves h
  · simp only [Outcome.bind_eq_ok, text_required, need_backend, Outcome.ofOption_eq_ok] at hr
    obtain ⟨path, hpath, b, hb, hr⟩ := hr
    rw [MockBackend.openDb] at hr
    split at hr
    · cases hr
    · rename_i hopen
      rw [Option.not_isSome_iff_eq_none] at hopen
      cases hr
      refine .of_trace [(.opened path, { b with open_path := some path })] hb ?_ rfl (.refl _)
      simp only [trace, Worker.openTrace, hpath, hopen]
  · refine .of_same (fun b hb => ?_) ⟨rfl, rfl⟩
    simp only [text_required, need_backend_of_some hb, Outcome.ok_bind] at he
    simp only [trace, Worker.openTrace]
    split
    · rename_i path hpath hopen
      simp [hpath, Outcome.ofOption, MockBackend.openDb, hopen] at he
    · rfl

lemma run_dbClose_effect (h : (dbClose.run env params s).Leaves s') :
    dbClose.Effect params s s' := by
  simp only [run, Worker.dbClose_eq] at h
  obtain ⟨b', hr, rfl⟩ | ⟨e, he, rfl⟩ := Action.transact_leaves h
  · simp only [Outcome.bind_eq_ok, need_backend, Outcome.ofOption_eq_ok] at hr
    obtain ⟨b, hb, hr⟩ := hr
    cases hr
    exact .of_trace [(.closed, { b with open_path := none })] hb rfl rfl (.refl _)
  · refine .of_same (fun b hb => ?_) ⟨rfl, rfl⟩
    rw [need_backend_of_some hb] at he
    cases he

lemma run_snapshotCreate_effect (h : (snapshotCreate.run env params s).Leaves s') :
    snapshotCreate.Effect params s s' := by
  simp only [run, Worker.snapshotCreate_eq] at h
  obtain ⟨⟨v, b'⟩, hr, rfl⟩ | ⟨e, he, rfl⟩ := Action.transact_leaves h
  · simp only [Outcome.bind_eq_ok, need_backend, Outcome.ofOption_eq_ok] at hr
    obtain ⟨b, hb, hr⟩ := hr
    obtain ⟨hopen, rfl, -⟩ := MockBackend.snapshot_create_eq_ok.mp hr
    refine .of_trace [(.pushed, b.pushed)] hb ?_ rfl (.refl _)
    simp only [trace, hopen, if_true]
  · refine .of_same (fun b hb => ?_) ⟨rfl, rfl⟩
    rw [need_backend_of_some hb, Outcome.ok_bind] at he
    have hopen : b.open_path.isSome = false := by
      cases ho : b.open_path.isSome with
      | false => rfl
      | true =>
        rw [MockBackend.snapshot_create_eq_ok.mpr ⟨ho, rfl, rfl⟩] at he
        cases he
    simp [trace, hopen]

lemma run_snapshotRestore_effect (h : (snapshotRestore.run env params s).Leaves s') :
    snapshotRestore.Effect params s s' := by
  simp only [run, Worker.snapshotRestore_eq] at h
  obtain ⟨⟨v, b'⟩, hr, rfl⟩ | ⟨e, he, rfl⟩ := Action.transact_leaves h
  · simp only [Outcome.bind_eq_ok, need_backend, Outcome.ofOption_eq_ok] at hr
    obtain ⟨b, hb, hr⟩ := hr
    obtain ⟨hopen, ⟨hs, rfl⟩ | ⟨snap, rest, r, hs, hbump, rfl⟩⟩ :=
      MockBackend.snapshot_restore_eq_ok hr
    · refine .of_trace [] hb ?_ rfl (.refl _)
      simp [trace, Worker.popTrace, hs]
    · obtain ⟨path, hpath⟩ := Option.isSome_iff_exists.mp hopen
      refine .of_trace [(.popped r, { b.rewind snap rest with revision := r })] hb ?_ rfl (.refl _)
      simp only [trace, Worker.popTrace, hpath, hs, hbump]
  · refine .of_same (fun b hb => ?_) ⟨rfl, rfl⟩
    rw [need_backend_of_some hb, Outcome.ok_bind] at he
    simp only [trace, Worker.popTrace]
    split
    · rename_i path snap rest hpath hs
      split
      · rename_i r hr
        simp [MockBackend.snapshot_restore, MockBackend.require_open, hpath, hs,
          MockBackend.bump, MockBackend.rewind, hr] at he
      · rfl
    · rfl

/-- Every method but `backend.select` has the effect that its trace says. -/
theorem run_effect {m : Method} (hm : m ≠ backendSelect) (h : (m.run env params s).Leaves s') :
    m.Effect params s s' := by
  cases m with
  | backendSelect => exact absurd rfl hm
  | mutate m => exact run_mutate_effect h
  | typesApply => exact run_typesApply_effect h
  | planApply => exact run_planApply_effect h
  | deobApply => exact run_deobApply_effect h
  | dbOpen => exact run_dbOpen_effect h
  | dbClose => exact run_dbClose_effect h
  | snapshotCreate => exact run_snapshotCreate_effect h
  | snapshotRestore => exact run_snapshotRestore_effect h
  | _ => exact .of_same (fun _ _ => rfl) (run_keeps env params rfl s s' h)

end Method

/-- The revisions that a request enters in the audit trail. -/
def WorkerRequest.recorded (req : WorkerRequest) (b : MockBackend) : List U64 :=
  match Method.parse req.method with
  | some m => if m.records then (m.trace req.params b).bumps else []
  | none => []

/-- The backend and the audit trail that a request leaves are those its trace says. -/
structure WorkerRequest.Effect (req : WorkerRequest) (s s' : WorkerState) : Prop where
  absent : s.backend = none → SameBackend s s'
  present : ∀ b, s.backend = some b → s'.backend = some (lastOf b (req.trace b)) ∧
    Recorded s.audit (req.recorded b) s'.audit

/-- The trace of a request is a run of the backend. -/
theorem WorkerRequest.trace_run (req : WorkerRequest) (b : MockBackend) :
    Run BackendStep b (req.trace b) := by
  rw [trace]
  split
  · exact Method.trace_run _ _ _
  · exact .nil b

/-- What `handle` makes of what `dispatch` does. -/
lemma handle_eq_ok {env : Env} {req : WorkerRequest} {s s' : WorkerState}
    {resp : WorkerResponse} (h : handle env req s = .ok (resp, s')) :
    (∃ v t, dispatch env req.method req.params s = .ok v t ∧ resp = .ok req.id v ∧
      (s' = t ∨ s' = { t with workflow_cache := t.workflow_cache.invalidate_all })) ∨
    ∃ e, dispatch env req.method req.params s = .err e s' ∧ resp = .err req.id e := by
  rw [handle] at h
  cases hd : dispatch env req.method req.params s with
  | ok v t =>
    rw [hd] at h
    simp only [Except.ok.injEq, Prod.mk.injEq] at h
    obtain ⟨rfl, rfl⟩ := h
    refine .inl ⟨v, t, rfl, rfl, ?_⟩
    split
    · exact .inr rfl
    · exact .inl rfl
  | err e t =>
    rw [hd] at h
    cases h
    exact .inr ⟨e, rfl, rfl⟩
  | panic p =>
    rw [hd] at h
    cases h

/-- What `handle` leaves is what `dispatch` left, up to the result cache. -/
lemma handle_leaves {env : Env} {req : WorkerRequest} {s s' : WorkerState}
    {resp : WorkerResponse} (h : handle env req s = .ok (resp, s')) :
    ∃ t, (dispatch env req.method req.params s).Leaves t ∧
      (s' = t ∨ s' = { t with workflow_cache := t.workflow_cache.invalidate_all }) := by
  obtain ⟨v, t, hd, -, hs'⟩ | ⟨e, hd, -⟩ := handle_eq_ok h
  · exact ⟨t, Reply.leaves_of_ok hd, hs'⟩
  · rw [hd]
    exact ⟨s', rfl, .inl rfl⟩

/-- The response to a request that `dispatch` answers with a value. -/
lemma handle_of_ok {env : Env} {req : WorkerRequest} {s t : WorkerState} {v : Json}
    (h : dispatch env req.method req.params s = .ok v t) :
    handle env req s = .ok (.ok req.id v, if req.method ∈ MUTATING_METHODS then
      { t with workflow_cache := t.workflow_cache.invalidate_all } else t) := by
  rw [handle]
  rw [h]

/-- A request that was answered with a value is one that `dispatch` answered with it. -/
lemma handle_succeeds {env : Env} {req : WorkerRequest} {s s' : WorkerState}
    {resp : WorkerResponse} (h : handle env req s = .ok (resp, s')) (hok : resp.result.isOk) :
    ∃ v t, dispatch env req.method req.params s = .ok v t ∧ resp = .ok req.id v ∧
      (s' = t ∨ s' = { t with workflow_cache := t.workflow_cache.invalidate_all }) := by
  obtain hvalue | ⟨e, -, rfl⟩ := handle_eq_ok h
  · exact hvalue
  · cases hok

/-- The refinement theorem: a request other than `backend.select` drives the backend along its
trace, and records what the trace reports. -/
theorem handle_effect {env : Env} {req : WorkerRequest} {s s' : WorkerState}
    {resp : WorkerResponse} (h : handle env req s = .ok (resp, s'))
    (hsel : req.method ≠ "backend.select") : req.Effect s s' := by
  obtain ⟨t, ht, hs'⟩ := handle_leaves h
  have hsame : s'.backend = t.backend ∧ s'.audit = t.audit := by
    rcases hs' with rfl | rfl
    · exact ⟨rfl, rfl⟩
    · exact ⟨rfl, rfl⟩
  rw [dispatch] at ht
  cases hm : Method.parse req.method with
  | none =>
    rw [hm] at ht
    have hts : s = t := ht
    subst hts
    refine ⟨fun _ => hsame, fun b hb => ?_⟩
    simp only [WorkerRequest.trace, WorkerRequest.recorded, hm, lastOf_nil, hsame.1, hsame.2]
    exact ⟨hb, .refl _⟩
  | some m =>
    rw [hm] at ht
    have hne : m ≠ .backendSelect := fun hme => hsel (Method.eq_ownName (hme ▸ hm) rfl)
    have heff := Method.run_effect hne ht
    refine ⟨fun hb => ?_, fun b hb => ?_⟩
    · have hst := heff.absent hb
      exact ⟨hsame.1.trans hst.1, hsame.2.trans hst.2⟩
    · simp only [WorkerRequest.trace, WorkerRequest.recorded, hm, hsame.1, hsame.2]
      exact heff.present b hb

/-! ## Runs of the worker -/

omit [Host] in
/-- A request with its surroundings and the response it got. -/
structure WorkerEvent where
  env : Env
  req : WorkerRequest
  resp : WorkerResponse

/-- A step of the worker. -/
def WorkerStep (s : WorkerState) (e : WorkerEvent) (s' : WorkerState) : Prop :=
  handle e.env e.req s = .ok (e.resp, s')

/-- The response of a request and the state it leaves; a request that panics leaves nothing, and
gets a response of no meaning. -/
def answer (env : Env) (req : WorkerRequest) (s : WorkerState) : WorkerResponse × WorkerState :=
  match handle env req s with
  | .ok r => r
  | .error _ => (.ok req.id .null, s)

lemma workerStep_answer {env : Env} {req : WorkerRequest} {s : WorkerState}
    (h : (handle env req s).isOk) :
    WorkerStep s ⟨env, req, (answer env req s).1⟩ (answer env req s).2 := by
  rw [WorkerStep, answer]
  cases hr : handle env req s with
  | ok r => rfl
  | error p => simp [hr, Except.isOk, Except.toBool] at h

omit [Host] in
/-- A request with the given parameters. -/
def WorkerRequest.call (method : String) (params : List (String × Json)) : WorkerRequest :=
  ⟨1, method, .object params⟩

/-- The requests of a session, served one after the other up to the first panic. -/
def serve (env : Env) (s : WorkerState) : List WorkerRequest → List (WorkerEvent × WorkerState)
  | [] => []
  | req :: reqs =>
    match handle env req s with
    | .ok (resp, s') => (⟨env, req, resp⟩, s') :: serve env s' reqs
    | .error _ => []

lemma serve_run (env : Env) (s : WorkerState) (reqs : List WorkerRequest) :
    Run WorkerStep s (serve env s reqs) := by
  induction reqs generalizing s with
  | nil => exact .nil s
  | cons req reqs ih =>
    rw [serve]
    split
    · rename_i resp s' h
      exact .cons h (ih s')
    · exact .nil s

lemma serve_env {env : Env} {s : WorkerState} {reqs : List WorkerRequest} :
    ∀ e ∈ serve env s reqs, e.1.env = env := by
  induction reqs generalizing s with
  | nil => simp [serve]
  | cons req reqs ih =>
    intro e he
    rw [serve] at he
    split at he
    · rcases List.mem_cons.mp he with rfl | he
      · rfl
      · exact ih e he
    · simp at he

/-- A worker in the state that selecting the mock backend and opening a database leave. -/
def opened : WorkerState :=
  lastOf .new (@serve (Host.ascii true) .bare .new
    [.call "backend.select" [("kind", "mock")], .call "db.open" [("path", "a.bin")]])

end ReverseMcp
