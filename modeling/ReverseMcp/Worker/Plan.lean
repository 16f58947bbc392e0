import ReverseMcp.Ida.Mock

/-!
# Mutation plans

`rmcp_worker::plan`: a batch of operations is parsed, previewed, and applied one after the
other with a single revision guard in front.  Every applied operation leaves an entry in the
audit trail; the first failing one ends the plan, and the entries of the operations before it
stay.
-/

namespace ReverseMcp

open Rust

/-- The text of an address that was not parsed, shared by the worker's parsers. -/
def badEa (s : String) (e : String) : String := s!"bad ea '{s}': {e}"

/-- The kinds of operation a plan can hold. -/
inductive PlannedOpKind where
  | rename (new_name : String)
  | comment (comment : String) (repeatable : Bool)
  | patchBytes (bytes_hex : String)
  | funcCreate (stop : Option U64)
  | funcDelete
  | setType (decl : String)
deriving DecidableEq

/-- One planned mutation operation. -/
structure PlannedOp where
  kind : PlannedOpKind
  ea : U64
deriving DecidableEq

/-- An entry of the audit trail. -/
structure AuditEntry where
  seq : ℕ
  kind : String
  ea : U64
  revision_after : U64
  detail : Json
deriving DecidableEq

/-- Serialized form of an audit entry. -/
def AuditEntry.to_value (e : AuditEntry) : Json :=
  .object [("seq", .nat e.seq), ("kind", e.kind), ("ea", .ea e.ea),
    ("revision_after", .u64 e.revision_after), ("detail", e.detail)]

namespace PlannedOp

/-- `PlannedOp::describe`. -/
def describe (op : PlannedOp) : String :=
  match op.kind with
  | .rename new_name => s!"rename -> {new_name}"
  | .comment comment _ => s!"comment -> {comment}"
  | .patchBytes bytes_hex => s!"patch bytes -> {bytes_hex}"
  | .funcCreate _ => "create function"
  | .funcDelete => "delete function"
  | .setType decl => s!"set type -> {decl}"

/-- `PlannedOp::kind_name`. -/
def kind_name (op : PlannedOp) : String :=
  match op.kind with
  | .rename _ => "rename"
  | .comment _ _ => "comment"
  | .patchBytes _ => "patch_bytes"
  | .funcCreate _ => "func.create"
  | .funcDelete => "func.delete"
  | .setType _ => "set_type"

/-- The operation writes bytes, which only a snapshot can bring back. -/
def isPatch (op : PlannedOp) : Bool :=
  match op.kind with
  | .patchBytes _ => true
  | _ => false

end PlannedOp

namespace Plan

/-! ## Parsing -/

/-- `plan::parse_ea`. -/
def parse_ea (s : String) : Result U64 := ofParse (badEa (trim s)) (parseAddress s)

/-- An error of operation `i`. -/
def opError {α : Type} (i : ℕ) (message : String) : Result α := fail s!"op {i}: {message}"

/-- An address of operation `i`, with the parser's error wrapped. -/
def opEa (i : ℕ) (s : String) : Result U64 :=
  match parse_ea s with
  | .ok ea => .ok ea
  | .err e => opError i e.text
  | .panic p => .panic p

/-- A required text field of operation `i`. -/
def opField (i : ℕ) (op : Json) (key : String) (message : String) : Result String :=
  Outcome.ofOption (.worker s!"op {i}: {message}") ((op.get key).bind Json.asStr)

/-- The `end` of a `func.create` operation: absent, a text, or a number. -/
def opEnd (i : ℕ) (op : Json) : Result (Option U64) :=
  match op.get "end" with
  | none | some .null => .ok none
  | some v =>
    match v.asStr with
    | some s => do
      let ea ← opEa i s
      return some ea
    | none =>
      match v.asU64 with
      | some n => .ok (some n)
      | none => opError i "bad 'end'"

/-- The kind of operation `i` with its own fields. -/
def parse_kind (i : ℕ) (op : Json) (kind : String) : Result PlannedOpKind :=
  match kind with
  | "rename" => do return .rename (← opField i op "name" "rename requires 'name'")
  | "comment" => do
    let comment ← opField i op "comment" "comment requires 'comment'"
    return .comment comment (((op.get "repeatable").bind Json.asBool).getD false)
  | "patch_bytes" => do return .patchBytes (← opField i op "hex" "patch_bytes requires 'hex'")
  | "func.create" => do return .funcCreate (← opEnd i op)
  | "func.delete" => return .funcDelete
  | "set_type" => do return .setType (← opField i op "decl" "set_type requires 'decl'")
  | other => opError i (s!"unknown kind '{other}' (supported: rename, comment, " ++
      "patch_bytes, func.create, func.delete, set_type)")

/-- One operation of a plan request. -/
def parse_operation (i : ℕ) (op : Json) : Result PlannedOp := do
  let ea ← opField i op "ea" "missing 'ea'"
  let ea ← opEa i ea
  let kind ← opField i op "kind" "missing 'kind'"
  let kind ← parse_kind i op kind
  return ⟨kind, ea⟩

/-- `plan::parse_operations`. -/
def parse_operations (ops : List Json) : Result (List PlannedOp) :=
  Outcome.mapList (fun p => parse_operation p.2 p.1) ops.zipIdx

section Returns

variable (i : ℕ) (op : Json)

lemma opEa_returns (s : String) : (opEa i s).Returns := by
  rw [opEa]
  split
  · simp
  · exact fail_returns _
  · rename_i p hp
    have hret : (parse_ea s).Returns := ofParse_returns _ _
    simp [hp] at hret

lemma opField_returns (key message : String) : (opField i op key message).Returns :=
  Outcome.ofOption_returns _ _

lemma opEnd_returns : (opEnd i op).Returns := by
  rw [opEnd]
  split
  · simp
  · simp
  · split
    · exact (opEa_returns _ _).bind fun _ _ => by simp
    · split
      · simp
      · exact fail_returns _

lemma parse_kind_returns (kind : String) : (parse_kind i op kind).Returns := by
  unfold parse_kind
  split
  · exact (opField_returns _ _ _ _).bind fun _ _ => by simp
  · exact (opField_returns _ _ _ _).bind fun _ _ => by simp
  · exact (opField_returns _ _ _ _).bind fun _ _ => by simp
  · exact (opEnd_returns _ _).bind fun _ _ => by simp
  · simp
  · exact (opField_returns _ _ _ _).bind fun _ _ => by simp
  · exact fail_returns _

lemma parse_operation_returns : (parse_operation i op).Returns :=
  (opField_returns _ _ _ _).bind fun _ _ => (opEa_returns _ _).bind fun _ _ =>
    (opField_returns _ _ _ _).bind fun _ _ => (parse_kind_returns _ _ _).bind fun _ _ => by simp

end Returns

/-- Operations are parsed without a panic. -/
lemma parse_operations_returns (ops : List Json) : (parse_operations ops).Returns :=
  Outcome.mapList_returns fun _ _ => parse_operation_returns _ _

/-! ## Preview -/

variable [Host]

/-- The plausibility probe of the preview. -/
def target_ok (b : MockBackend) (ea : U64) : Result Bool := do
  match ← (b.function_at ea).ok? with
  | some _ => return true
  | none =>
    match ← (b.get_bytes ea 1).ok? with
    | some v => return ((v.idx "hex").asStr.getD "") ≠ ""
    | none => return false

/-- The preview row of operation `i`. -/
def planRow (b : MockBackend) (i : ℕ) (op : PlannedOp) : Result Json := do
  let ok ← target_ok b op.ea
  return .object [("index", .nat i), ("kind", op.kind_name), ("ea", .ea op.ea),
    ("detail", op.describe), ("target_resolves", ok)]

/-- `plan::plan`. -/
def plan (b : MockBackend) (ops : List PlannedOp) : Result Json := do
  let rows ← Outcome.mapList (fun p => planRow b p.2 p.1) ops.zipIdx
  let reversible := ops.all fun op => !op.isPatch
  return .object [("operations", .nat ops.length), ("reversible", reversible),
    ("requires_idb_snapshot", !reversible), ("rows", .array rows),
    ("hint", if reversible then
      "all ops are name/comment-level and rollback-able via snapshot before apply"
    else "patch ops write bytes; take a snapshot (ida_mutation action=snapshot) first")]

/-! ## Application -/

/-- The backend call of an operation. -/
def exec (op : PlannedOp) (b : MockBackend) : Result (MutationOutcome × MockBackend) :=
  match op.kind with
  | .rename new_name => b.rename op.ea new_name
  | .comment comment repeatable => b.set_comment op.ea comment repeatable
  | .patchBytes bytes_hex => b.patch_bytes op.ea bytes_hex
  | .funcCreate stop => b.func_create op.ea stop
  | .funcDelete => b.func_delete op.ea
  | .setType decl => b.set_type op.ea decl

/-- `plan::record_audit`. -/
def record_audit (audit : List AuditEntry) (kind : String) (ea : U64) (out : MutationOutcome) :
    List AuditEntry :=
  audit ++ [⟨audit.length, kind, ea, out.revision_after, out.detail⟩]

/-- The loop of `plan::apply` at operation `i`; every operation before `i` was applied, so `i`
is also the number of applied operations. -/
def applyFrom (i : ℕ) (results : List Json) :
    List PlannedOp → MockBackend → List AuditEntry → Result (Json × MockBackend × List AuditEntry)
  | [], b, audit =>
    .ok (.object [("applied", .nat i), ("revision_after", .u64 b.revision),
      ("results", .array results), ("partial", false)], b, audit)
  | op :: ops, b, audit =>
    match exec op b with
    | .ok (out, b') =>
      applyFrom (i + 1) (results ++ [.object [("index", .nat i), ("ok", true)]]) ops b'
        (record_audit audit op.kind_name op.ea out)
    | .err e =>
      .ok (.object [("applied", .nat i), ("failed_at", .nat i), ("failed_op", op.kind_name),
        ("error", e.text), ("error_code", e.code), ("results", .array results),
        ("partial", true)], b, audit)
    | .panic p => .panic p

/-- `plan::apply`: the answer, the backend and the audit trail it leaves. -/
def apply (ops : List PlannedOp) (b : MockBackend) (audit : List AuditEntry) :
    Result (Json × MockBackend × List AuditEntry) :=
  applyFrom 0 [] ops b audit

omit [Host] in
/-- `plan::check_plan_revision`. -/
def check_plan_revision (b : MockBackend) (expected : Option U64) : Result Unit :=
  match expected with
  | some expected =>
    if expected = b.revision then .ok () else .err (.revisionConflict expected b.revision)
  | none => .ok ()

omit [Host] in
lemma check_plan_revision_returns (b : MockBackend) (expected : Option U64) :
    (check_plan_revision b expected).Returns := by
  unfold check_plan_revision
  split
  · split <;> simp
  · simp

omit [Host] in
/-- `plan::audit_tail`. -/
def audit_tail (audit : List AuditEntry) (limit : ℕ) : Json :=
  .object [("total", .nat audit.length),
    ("entries", .array ((audit.drop (audit.length - limit)).map AuditEntry.to_value))]

end Plan

end ReverseMcp
