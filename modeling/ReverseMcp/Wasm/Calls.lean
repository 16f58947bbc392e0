import ReverseMcp.Wasm.Module

/-!
# Indirect calls

`rmcp_wasm::calls`: the targets of a `call_indirect`, from the element segments and the types of the
functions of the module.
-/

namespace ReverseMcp.Wasm

open Rust

/-- `Confidence`. -/
inductive Confidence where
  | confirmed
  | candidate
  | unresolved
deriving DecidableEq

/-- `IndirectTarget`. -/
structure IndirectTarget where
  site_offset : U64
  table_index : U32
  type_index : U32
  confidence : Confidence
  targets : List U32
  evidence : List String
  reason : String
deriving DecidableEq

/-- The `Debug` text of an optional offset. -/
def offsetText : Option U64 → String
  | some o => s!"Some({o.val})"
  | none => "None"

/-- The functions whose type index is the declared one. -/
def compatible (model : ModuleModel) (tidx : U32) : List U32 :=
  (model.functions.filter fun f => f.type_index = tidx).map (·.index)

/-- The segments of a table. -/
def segmentsOf (model : ModuleModel) (table_index : U32) : List ElementSegment :=
  model.elements.filter fun s => s.table_index = table_index

/-- The segment covers the constant index. -/
def covers (idx : U64) (s : ElementSegment) : Bool :=
  match s.offset with
  | some o => o ≤ idx && idx.val - o.val < s.func_indices.length
  | none => false

/-- Sorted and without duplicates, as a `BTreeSet` has them. -/
def sortedSet (l : List U32) : List U32 := sortByKey (fun i : U32 => i.val) l.dedup

/-- What `resolve_indirect` says of one site. -/
def resolveSite (model : ModuleModel) (const_indices : U64 → Option U64) (site : U64)
    (tidx table_index : U32) : IndirectTarget :=
  let segments := segmentsOf model table_index
  let evidence := segments.map fun seg =>
    s!"elem {seg.index.val} feeds table {seg.table_index.val} at offset " ++
      s!"{offsetText seg.offset} ({seg.func_indices.length} entries)"
  match const_indices site with
  | some idx =>
    match segments.find? (covers idx) with
    | some seg =>
      let slot := idx.val - (seg.offset.getD 0).val
      let target := seg.func_indices.getD slot 0
      let type_ok := ((model.functions.find? fun f => f.index = target).map fun f =>
        decide (f.type_index = tidx)).getD false
      if type_ok then
        { site_offset := site, table_index, type_index := tidx, confidence := .confirmed
          targets := [target]
          evidence := evidence ++ [s!"constant index {idx.val} -> elem {seg.index.val} slot {slot}"]
          reason := "constant index proven by SSA; element segment covers it" }
      else
        { site_offset := site, table_index, type_index := tidx, confidence := .unresolved
          targets := compatible model tidx
          evidence
          reason := s!"constant index {idx.val} resolves to fn {target.val} with a " ++
            "mismatched type (dead dispatch path?)" }
    | none =>
      { site_offset := site, table_index, type_index := tidx, confidence := .unresolved
        targets := compatible model tidx
        evidence
        reason := s!"constant index {idx.val} not covered by any element segment" }
  | none =>
    let targets := sortedSet ((segments.flatMap (·.func_indices)).filter fun i =>
      i ∈ compatible model tidx)
    { site_offset := site, table_index, type_index := tidx
      confidence := if targets.isEmpty then .unresolved else .candidate
      targets
      evidence
      reason := "runtime index; bounded to type-compatible entries in element segments" }

/-- `resolve_indirect`; the constant indices are a map from sites. -/
def resolve_indirect (model : ModuleModel) (sites : List (U64 × U32 × U32))
    (const_indices : U64 → Option U64) : List IndirectTarget :=
  sites.map fun s => resolveSite model const_indices s.1 s.2.1 s.2.2

end ReverseMcp.Wasm
