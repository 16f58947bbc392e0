import ReverseMcp.Ida.Machine
import ReverseMcp.Worker.Dispatch

/-!
# The backend steps of a request

A request drives the backend through a number of its steps.  Which ones is a function of the
request and the backend it finds (`WorkerRequest.trace`): nothing for a method that reads or
for one that is rejected, one step for a single mutation, a step for each operation of a plan
up to the first that fails, and for `deob.apply` the snapshot in front of these.  The trace is a
run of the backend's transition system (`Method.trace_run`).
-/

namespace ReverseMcp

open Rust

variable [Host]

/-! ## The audit trail -/

omit [Host] in
/-- The entries carry their positions. -/
def Numbered (audit : List AuditEntry) : Prop :=
  ∀ (i : ℕ) (e : AuditEntry), audit[i]? = some e → e.seq = i

omit [Host] in
/-- `audit'` extends `audit` by one entry for each of the revisions `revs`. -/
structure Recorded (audit : List AuditEntry) (revs : List U64) (audit' : List AuditEntry) :
    Prop where
  revisions : audit'.map AuditEntry.revision_after =
    audit.map AuditEntry.revision_after ++ revs
  numbered : Numbered audit → Numbered audit'

omit [Host] in
lemma Recorded.refl (audit : List AuditEntry) : Recorded audit [] audit :=
  ⟨(List.append_nil _).symm, id⟩

omit [Host] in
lemma Recorded.trans {a₁ a₂ a₃ : List AuditEntry} {r₁ r₂ : List U64} (h₁ : Recorded a₁ r₁ a₂)
    (h₂ : Recorded a₂ r₂ a₃) : Recorded a₁ (r₁ ++ r₂) a₃ :=
  ⟨by rw [h₂.revisions, h₁.revisions, List.append_assoc], h₂.numbered ∘ h₁.numbered⟩

omit [Host] in
lemma recorded_record_audit (audit : List AuditEntry) (kind : String) (ea : U64)
    (out : MutationOutcome) :
    Recorded audit [out.revision_after] (Plan.record_audit audit kind ea out) := by
  refine ⟨by simp [Plan.record_audit], fun h i e he => ?_⟩
  rw [Plan.record_audit] at he
  rw [List.getElem?_append] at he
  split at he
  · exact h i e he
  · obtain ⟨hi, rfl⟩ := List.getElem?_eq_some_iff.mp he
    simp only [List.length_cons, List.length_nil] at hi
    simp only [List.getElem_singleton]
    omega

/-! ## Plans -/

namespace Plan

variable {ops : List PlannedOp} {b b' : MockBackend}

/-- The steps of a plan, up to the first operation that fails. -/
def trace : List PlannedOp → MockBackend → BackendTrace
  | [], _ => []
  | op :: ops, b =>
    match exec op b with
    | .ok (out, b') => (.mutated out, b') :: trace ops b'
    | _ => []

lemma exec_mutates {op : PlannedOp} {out : MutationOutcome} (h : exec op b = .ok (out, b')) :
    b.Mutates out b' := by
  obtain ⟨kind, ea⟩ := op
  cases kind with
  | rename new_name => exact MockBackend.rename_mutates h
  | comment comment repeatable => exact MockBackend.set_comment_mutates h
  | patchBytes bytes_hex => exact MockBackend.patch_bytes_mutates h
  | funcCreate stop => exact MockBackend.func_create_mutates h
  | funcDelete => exact MockBackend.func_delete_mutates h
  | setType decl => exact MockBackend.set_type_mutates h

lemma trace_run (ops : List PlannedOp) (b : MockBackend) : Run BackendStep b (trace ops b) := by
  induction ops generalizing b with
  | nil => exact .nil b
  | cons op ops ih =>
    rw [trace]
    split
    · rename_i out b' h
      exact .cons (.mutated (exec_mutates h)) (ih b')
    · exact .nil b

lemma trace_mutated (ops : List PlannedOp) (b : MockBackend) :
    ∀ e ∈ trace ops b, ∃ out, e.1 = .mutated out := by
  induction ops generalizing b with
  | nil => simp [trace]
  | cons op ops ih =>
    rw [trace]
    split
    · rename_i out b' h
      simp only [List.mem_cons, forall_eq_or_imp]
      exact ⟨⟨out, rfl⟩, ih b'⟩
    · simp

lemma trace_length_le (ops : List PlannedOp) (b : MockBackend) :
    (trace ops b).length ≤ ops.length := by
  induction ops generalizing b with
  | nil => simp [trace]
  | cons op ops ih =>
    rw [trace]
    split
    · simpa using ih _
    · simp

/-- The loop ends in the last backend of the trace, and records every step of it. -/
lemma applyFrom_eq_ok {i : ℕ} {results : List Json} {audit audit' : List AuditEntry} {v : Json}
    (h : applyFrom i results ops b audit = .ok (v, b', audit')) :
    b' = lastOf b (trace ops b) ∧ Recorded audit (trace ops b).bumps audit' := by
  induction ops generalizing i results b audit with
  | nil =>
    cases h
    exact ⟨rfl, .refl _⟩
  | cons op ops ih =>
    rw [applyFrom] at h
    rw [trace]
    cases hx : exec op b with
    | ok r =>
      rw [hx] at h
      obtain ⟨hb, hr⟩ := ih h
      exact ⟨hb, (recorded_record_audit _ _ _ _).trans hr⟩
    | err e =>
      rw [hx] at h
      cases h
      exact ⟨rfl, .refl _⟩
    | panic p =>
      rw [hx] at h
      cases h

lemma applyFrom_ne_err (i : ℕ) (results : List Json) (ops : List PlannedOp) (b : MockBackend)
    (audit : List AuditEntry) (e : Error) : applyFrom i results ops b audit ≠ .err e := by
  induction ops generalizing i results b audit with
  | nil => simp [applyFrom]
  | cons op ops ih =>
    rw [applyFrom]
    split
    · exact ih _ _ _ _
    · simp
    · simp

lemma apply_eq_ok {audit audit' : List AuditEntry} {v : Json}
    (h : apply ops b audit = .ok (v, b', audit')) :
    b' = lastOf b (trace ops b) ∧ Recorded audit (trace ops b).bumps audit' :=
  applyFrom_eq_ok h

/-- A plan does not fail as a whole; a failing operation is part of the answer. -/
lemma apply_ne_err (ops : List PlannedOp) (b : MockBackend) (audit : List AuditEntry)
    (e : Error) : apply ops b audit ≠ .err e :=
  applyFrom_ne_err _ _ _ _ _ _

end Plan

/-! ## The trace of a request -/

omit [Host] in
/-- A single mutation as a trace. -/
def mutationTrace : Result (MutationOutcome × MockBackend) → BackendTrace
  | .ok (out, b') => [(.mutated out, b')]
  | _ => []

namespace Worker

omit [Host] in
/-- A single mutation behind its guard. -/
def mutation (params : Json) (call : Mutation) (b : MockBackend) :
    Result (MutationOutcome × MockBackend) := do
  check_revision params b
  let op ← call.op
  op b

/-- The mutation of `types.apply` behind its guards. -/
def structMutation (params : Json) (b : MockBackend) : Result (MutationOutcome × MockBackend) := do
  let name ← text_required params "name" "missing name"
  let fields ← array_required params "fields" "missing fields array"
  check_revision params b
  failIf (trim name = "" ∨ fields.filterMap Json.asStr = [])
    "apply_struct needs a non-empty name and at least one field"
  b.type_udt_create name (fields.filterMap Json.asStr)

/-- The operations of a `plan.apply` request, behind its guard. -/
def planInput (params : Json) (b : MockBackend) : Result (List PlannedOp) := do
  let ops_json ← array_required params "operations" "missing 'operations' array"
  let ops ← Plan.parse_operations ops_json
  Plan.check_plan_revision b ((params.get "expected_revision").bind Json.asU64)
  return ops

omit [Host] in
/-- The step of `db.open`, if any. -/
def openTrace (params : Json) (b : MockBackend) : BackendTrace :=
  match text_param params "path", b.open_path with
  | some path, none => [(.opened path, { b with open_path := some path })]
  | _, _ => []

/-- The step of `snapshot.restore`, if any. -/
def popTrace (b : MockBackend) : BackendTrace :=
  match b.open_path, b.snapshots with
  | some _, snap :: rest =>
    match (addU64 snap.revision 1 : Result U64) with
    | .ok r => [(.popped r, { b.rewind snap rest with revision := r })]
    | _ => []
  | _, _ => []

end Worker

namespace Transforms

omit [Host] in
/-- The conditions under which `apply` gets as far as its snapshot. -/
def TakesSnapshot (plan : Json) (expected_revision : Option U64) (b : MockBackend) : Prop :=
  Deep.items plan "operations" ≠ [] ∧ (planTarget plan).isOk ∧
    Plan.check_plan_revision b expected_revision = .ok () ∧ b.open_path.isSome

instance (plan : Json) (expected_revision : Option U64) (b : MockBackend) :
    Decidable (TakesSnapshot plan expected_revision b) :=
  inferInstanceAs (Decidable (_ ∧ _ ∧ _ ∧ _))

/-- The steps of `apply`: the snapshot, and the plan if it parses. -/
def trace (plan : Json) (expected_revision : Option U64) (b : MockBackend) : BackendTrace :=
  if TakesSnapshot plan expected_revision b then
    (.pushed, b.pushed) :: match Plan.parse_operations (Deep.items plan "operations") with
      | .ok ops => Plan.trace ops b.pushed
      | _ => []
  else []

end Transforms

/-- The steps that a request makes the backend take. -/
def Method.trace (m : Method) (params : Json) (b : MockBackend) : BackendTrace :=
  match m with
  | mutate m => mutationTrace (m.call params >>= fun call => Worker.mutation params call b)
  | typesApply => mutationTrace (Worker.structMutation params b)
  | planApply =>
    match Worker.planInput params b with
    | .ok ops => Plan.trace ops b
    | _ => []
  | deobApply =>
    match params.get "plan" with
    | some plan => Transforms.trace plan ((params.get "expected_revision").bind Json.asU64) b
    | none => []
  | dbOpen => Worker.openTrace params b
  | dbClose => [(.closed, { b with open_path := none })]
  | snapshotCreate => if b.open_path.isSome then [(.pushed, b.pushed)] else []
  | snapshotRestore => Worker.popTrace b
  | read _ | indexed _ | cached _ | backendSelect | shutdown | indexBuild | hrMicrocode => []

/-- The method's mutations are entered in the audit trail; of the methods that move the
revision `types.apply` and `snapshot.restore` do not. -/
def Method.records (m : Method) : Bool := m ≠ typesApply && m ≠ snapshotRestore

/-- The steps that a request makes the backend take. -/
def WorkerRequest.trace (req : WorkerRequest) (b : MockBackend) : BackendTrace :=
  match Method.parse req.method with
  | some m => m.trace req.params b
  | none => []

/-! ## The traces are runs of the backend -/

section Runs

variable {b : MockBackend}

lemma mutationTrace_run {x : Result (MutationOutcome × MockBackend)}
    (h : ∀ out b', x = .ok (out, b') → b.Mutates out b') :
    Run BackendStep b (mutationTrace x) := by
  unfold mutationTrace
  split
  · rename_i out b'
    exact .cons (.mutated (h out b' rfl)) (.nil b')
  · exact .nil b

/-- Every single mutation of the dispatcher is one of the backend. -/
lemma MutateMethod.call_mutates {m : MutateMethod} {params : Json} {call : Mutation}
    {op : MockBackend → Result (MutationOutcome × MockBackend)} {out : MutationOutcome}
    {b' : MockBackend} (h : m.call params = .ok call) (hop : call.op = .ok op)
    (hb : op b = .ok (out, b')) : b.Mutates out b' := by
  cases m <;> simp only [MutateMethod.call, Outcome.bind_eq_ok, Outcome.pure_eq,
    Outcome.ok.injEq] at h
  case patchBytes =>
    obtain ⟨ea, -, rfl⟩ := h
    obtain ⟨t, -, hop⟩ := Outcome.bind_eq_ok.mp hop
    cases hop
    exact MockBackend.patch_bytes_mutates hb
  case setComment =>
    obtain ⟨ea, -, rfl⟩ := h
    obtain ⟨t, -, hop⟩ := Outcome.bind_eq_ok.mp hop
    cases hop
    exact MockBackend.set_comment_mutates hb
  case rename =>
    obtain ⟨ea, -, rfl⟩ := h
    obtain ⟨t, -, hop⟩ := Outcome.bind_eq_ok.mp hop
    cases hop
    exact MockBackend.rename_mutates hb
  case setType =>
    obtain ⟨ea, -, rfl⟩ := h
    obtain ⟨t, -, hop⟩ := Outcome.bind_eq_ok.mp hop
    cases hop
    exact MockBackend.set_type_mutates hb
  case funcCreate =>
    obtain ⟨start, -, stop, -, rfl⟩ := h
    cases hop
    exact MockBackend.func_create_mutates hb
  case funcDelete =>
    obtain ⟨ea, -, rfl⟩ := h
    cases hop
    exact MockBackend.func_delete_mutates hb
  case funcResize =>
    obtain ⟨ea, -, new_start, -, new_end, -, rfl⟩ := h
    cases hop
    exact MockBackend.func_resize_mutates hb
  case hrLvarRename =>
    obtain ⟨ea, -, var_defea, -, name, -, rfl⟩ := h
    cases hop
    exact MockBackend.hr_lvar_rename_mutates hb
  case deepRetype =>
    obtain ⟨ea, -, decl, -, rfl⟩ := h
    cases hop
    exact MockBackend.deep_apply_prototype_mutates hb

lemma Worker.structMutation_mutates {params : Json} {out : MutationOutcome} {b' : MockBackend}
    (h : structMutation params b = .ok (out, b')) : b.Mutates out b' := by
  simp only [structMutation, Outcome.bind_eq_ok] at h
  obtain ⟨name, -, fields, -, _, -, _, -, h⟩ := h
  exact MockBackend.type_udt_create_mutates h

lemma Worker.popTrace_run (b : MockBackend) : Run BackendStep b (popTrace b) := by
  rw [popTrace]
  split
  · rename_i path snap rest hp hs
    split
    · rename_i r hr
      exact .cons (.popped (by rw [hp]; rfl) hs hr) (.nil _)
    · exact .nil b
  · exact .nil b

lemma Transforms.trace_run (plan : Json) (expected_revision : Option U64) (b : MockBackend) :
    Run BackendStep b (trace plan expected_revision b) := by
  rw [trace]
  split
  · rename_i h
    refine .cons (.pushed h.2.2.2) ?_
    split
    · exact Plan.trace_run _ _
    · exact .nil _
  · exact .nil b

/-- The trace of a request is a run of the backend. -/
theorem Method.trace_run (m : Method) (params : Json) (b : MockBackend) :
    Run BackendStep b (m.trace params b) := by
  unfold Method.trace
  split
  · refine mutationTrace_run fun out b' h => ?_
    simp only [Outcome.bind_eq_ok, Worker.mutation] at h
    obtain ⟨call, hcall, _, -, op, hop, h⟩ := h
    exact MutateMethod.call_mutates hcall hop h
  · exact mutationTrace_run fun out b' h => Worker.structMutation_mutates h
  · split
    · exact Plan.trace_run _ _
    · exact .nil b
  · split
    · exact Transforms.trace_run _ _ _
    · exact .nil b
  · rw [Worker.openTrace]
    split
    · rename_i hp
      exact .cons (.opened hp) (.nil _)
    · exact .nil b
  · exact .cons .closed (.nil _)
  · split
    · rename_i h
      exact .cons (.pushed h) (.nil _)
    · exact .nil b
  · exact Worker.popTrace_run b
  all_goals exact .nil b

end Runs

end ReverseMcp
