import ReverseMcp.Rust.Floats
import ReverseMcp.Worker.Deep

/-!
# Type recovery

`rmcp_worker::types`: member-access observations of several functions are aggregated into
field proposals, grouped by the object they belong to.
-/

namespace ReverseMcp

open Rust

namespace Types

open Deep (items textOf)

/-- `types::FieldProposal`. -/
structure FieldProposal where
  reads : ℕ
  writes : ℕ
  widths : List ℕ
  functions : ℕ
  pointer_candidate : Bool

namespace FieldProposal

/-- `FieldProposal::width`: the most frequent access size, the larger one on a tie. -/
def width (p : FieldProposal) : ℕ :=
  let widths := p.widths.filter (0 < ·)
  widths.foldl (fun best w =>
    if widths.count best < widths.count w ∨ (widths.count best = widths.count w ∧ best < w)
    then w else best) 0

/-- `FieldProposal::confidence`. -/
def confidence (p : FieldProposal) : F64 :=
  let sites : F64 := (p.reads + p.writes : ℕ)
  let site_score := min (sites / 8.0) 1.0 * 0.45
  let fn_score := min ((p.functions : F64) / 3.0) 1.0 * 0.25
  let write_score : F64 := if 0 < p.writes then 0.18 else 0.0
  let width_score : F64 := if 0 < p.width then 0.12 else 0.0
  max 0.05 (min (site_score + fn_score + write_score + width_score) 0.99)

/-- `FieldProposal::candidate_type`. -/
def candidate_type (p : FieldProposal) (width : ℕ) : String :=
  if p.pointer_candidate then "pointer"
  else
    match width with
    | 1 => "u8"
    | 2 => "u16"
    | 4 => "u32"
    | 8 => "u64"
    | _ => "unknown"

end FieldProposal

/-- The proposals by object key and offset. -/
abbrev Fields : Type := Std.ExtTreeMap (String × U64) FieldProposal

/-- The key of the field that an observation is about. -/
def fieldKey (m : Json) : String × U64 :=
  let key := if ((m.idx "is_global").asBool).getD false then "g:" ++ textOf m "base_ea"
    else "e:" ++ textOf m "base_text"
  (key, parseHexOrZero (textOf m "offset"))

/-- One observation added to its field. -/
def observe (fields : Fields) (m : Json) : Fields :=
  let width := (((m.idx "access_size").asU64).getD 0).val % 2 ^ 32
  let write := ((m.idx "is_write").asBool).getD false
  let p := fields[fieldKey m]?.getD ⟨0, 0, [], 0, width = 8 && !write⟩
  fields.insert (fieldKey m) { p with
    reads := if write then p.reads else p.reads + 1
    writes := if write then p.writes + 1 else p.writes
    widths := p.widths ++ [width]
    pointer_candidate := p.pointer_candidate || width = 8 }

/-- The observations of one function added, and the function counted once per field. -/
def observeFunction (fields : Fields) (members : List Json) : Fields :=
  let this_fn : Std.ExtTreeSet (String × U64) :=
    members.foldl (fun s m => s.insert (fieldKey m)) ∅
  this_fn.toList.foldl (fun fields key =>
    fields.modify key fun p => { p with functions := p.functions + 1 })
    (members.foldl observe fields)

/-- `trim_start_matches("e:")`. -/
def trimExprMarks : List Char → List Char
  | 'e' :: ':' :: cs => trimExprMarks cs
  | cs => cs

/-- The kind and the text of an object key. -/
def baseOf (key : String) : String × String :=
  match key.toList with
  | 'g' :: ':' :: rest => ("global", String.ofList rest)
  | cs => ("expression", String.ofList (trimExprMarks cs))

/-- The row of one field proposal. -/
def fieldRow (f : U64 × FieldProposal) : Json :=
  let width := f.2.width
  .object [("offset", .ea f.1), ("read", .nat f.2.reads), ("write", .nat f.2.writes),
    ("candidate_width", .nat width), ("candidate_type", f.2.candidate_type width),
    ("confidence", fixed2 f.2.confidence.val), ("functions_observing", .nat f.2.functions)]

variable [Host]

omit [Host] in
/-- The shape that the fields of one object define. -/
def shapeOf (fields : List (U64 × FieldProposal)) : List (U64 × U64) :=
  fields.map fun f => (f.1, if f.2.width = 0 then 4 else Rust.asU64 f.2.width)

/-- The proposal for one object. -/
def proposalRow (b : MockBackend) (key : String) (fields : List (U64 × FieldProposal)) :
    Result Json := do
  let fields := sortByKey Prod.fst fields
  let shape := shapeOf fields
  let shape_match ← (b.type_udt_match shape).ok?
  return .object [("base", .object [("kind", (baseOf key).1), ("ea", (baseOf key).2)]),
    ("fields", .array (fields.map fieldRow)),
    ("proposed_shape", .array (shape.map fun p =>
      .object [("offset", .ea p.1), ("size", .u64 p.2)])),
    ("existing_type_match", .opt ((shape_match.bind fun m => (m.idx "match").asStr).map
      Json.string))]

omit [Host] in
/-- The fields by object. -/
def grouped (fields : Fields) : Std.ExtTreeMap String (List (U64 × FieldProposal)) :=
  fields.toList.foldl (fun m f => m.insert f.1.1 (m[f.1.1]?.getD [] ++ [(f.1.2, f.2)])) ∅

/-- What `recover_structure` has collected. -/
structure Recovered where
  fields : Fields
  per_function : List Json
  truncated_any : Bool

/-- The body of the function loop of `recover_structure`. -/
def recoverFunction (b : MockBackend) (idx : AnalysisIndex) (max_members : ℕ) (r : Recovered)
    (ea : U64) : Result Recovered := do
  match ← (b.type_member_evidence ea max_members).ok? with
  | none => return r
  | some info =>
    let members := items info "members"
    return {
      fields := observeFunction r.fields members
      per_function := r.per_function ++ [.object [
        ("function", .object [("ea", .ea ea), ("name", idx.function_name ea)]),
        ("observations", .nat members.length)]]
      truncated_any := r.truncated_any || ((info.idx "truncated").asBool).getD false }

/-- `types::recover_structure`. -/
def recover_structure (b : MockBackend) (idx : AnalysisIndex) (function_eas : List U64)
    (max_members : ℕ) : Result Json := do
  failIf (function_eas = []) "recover_structure requires functions"
  let r ← Outcome.foldList (recoverFunction b idx max_members) ⟨∅, [], false⟩ function_eas
  let proposals ← Outcome.mapList (fun g => proposalRow b g.1 g.2) (grouped r.fields).toList
  return .object [("functions", .array r.per_function), ("proposals", .array proposals),
    ("truncated", r.truncated_any),
    ("note", "preview only; apply via ida_types task=create_struct (explicit mutation)")]

/-- `types::apply_struct`. -/
def apply_struct (b : MockBackend) (name : String) (fields : List String) :
    Result (Json × MockBackend) := do
  failIf (trim name = "" ∨ fields = [])
    "apply_struct needs a non-empty name and at least one field"
  let (out, b) ← b.type_udt_create name fields
  return (.object [("applied", out.changed), ("revision_after", .u64 out.revision_after),
    ("detail", out.detail)], b)

end Types

end ReverseMcp
