import ReverseMcp.Wasm.Operator

/-!
# Structured control flow

`rmcp_wasm::cfg`: one pass over the operators of a body that opens a region at every block, loop,
`if` and `try`, closes the innermost one at `end`, and notes branches, calls and indirect calls.
The function itself is region 0, which is not in the list of regions.
-/

namespace ReverseMcp.Wasm

open Rust

/-- `BlockKind`. -/
inductive BlockKind where
  | function
  | block
  | loop
  | if_ (has_else : Bool)
  | try_
deriving DecidableEq

/-- `Region`. -/
structure Region where
  id : ℕ
  kind : BlockKind
  start_offset : U64
  branch_sources : List U64
  end_offset : U64
  parent : Option ℕ
deriving DecidableEq

/-- `StructuredCfg`. -/
structure StructuredCfg where
  regions : List Region
  calls : List (U64 × U32)
  indirect_calls : List (U64 × U32 × U32)
  br_tables : List (U64 × List ℕ)
  diagnostics : List String
  operator_count : ℕ
deriving DecidableEq

/-- `StructuredCfg::default`. -/
def StructuredCfg.default : StructuredCfg := ⟨[], [], [], [], [], 0⟩

/-- The variables of `analyze_body`; the tops of the stacks come first. -/
structure CfgState where
  cfg : StructuredCfg
  stack : List ℕ
  next_id : ℕ
  open_regions : List (ℕ × U64)
deriving DecidableEq

/-- The first region with an id changes. -/
def updateRegion (id : ℕ) (f : Region → Region) : List Region → List Region
  | [] => []
  | r :: rs => if r.id = id then f r :: rs else r :: updateRegion id f rs

/-- `resolve_label`, on a stack whose top comes first. -/
def resolve_label (stack : List ℕ) (depth : U32) : Option ℕ := stack[depth.val]?

/-- `record_branch`. -/
def record_branch (cfg : StructuredCfg) (region : ℕ) (site : U64) : StructuredCfg :=
  let note (r : Region) : Region := { r with branch_sources := r.branch_sources ++ [site] }
  { cfg with regions := updateRegion region note cfg.regions }

namespace CfgState

/-- A diagnostic. -/
def diagnose (s : CfgState) (text : String) : CfgState :=
  { s with cfg := { s.cfg with diagnostics := s.cfg.diagnostics ++ [text] } }

/-- A region begins. -/
def openRegion (s : CfgState) (kind : BlockKind) (pos : U64) : CfgState :=
  let region : Region := ⟨s.next_id, kind, pos, [], 0, s.stack.head?⟩
  { cfg := { s.cfg with regions := s.cfg.regions ++ [region] }
    stack := s.next_id :: s.stack
    next_id := s.next_id + 1
    open_regions := (s.next_id, pos) :: s.open_regions }

/-- `else`. -/
def else_ (s : CfgState) : CfgState :=
  match s.stack with
  | id :: _ =>
    let mark (r : Region) : Region :=
      match r.kind with
      | .if_ _ => { r with kind := .if_ true }
      | _ => r
    { s with cfg := { s.cfg with regions := updateRegion id mark s.cfg.regions } }
  | [] => s

/-- `br` and `br_if`. -/
def branch (s : CfgState) (name : String) (depth : U32) (pos : U64) : CfgState :=
  match resolve_label s.stack depth with
  | some t => { s with cfg := record_branch s.cfg t pos }
  | none => s.diagnose s!"{name} at {hex pos}: depth {depth.val} out of range"

/-- `br_table`. -/
def brTable (s : CfgState) (targets : List U32) (default : U32) (pos : U64) : CfgState :=
  let resolved := targets.filterMap (resolve_label s.stack) ++
    (resolve_label s.stack default).toList
  let cfg := { s.cfg with br_tables := s.cfg.br_tables ++ [(pos, resolved)] }
  { s with cfg := resolved.foldl (fun cfg id => record_branch cfg id pos) cfg }

/-- `end`. -/
def close (s : CfgState) (pos : U64) : CfgState :=
  let s := { s with stack := s.stack.tail }
  match s.open_regions with
  | (id, _) :: open_regions =>
    let mark (r : Region) : Region := { r with end_offset := pos }
    { s with
      open_regions
      cfg := { s.cfg with regions := updateRegion id mark s.cfg.regions } }
  | [] => s

/-- One operator. -/
def operator (s : CfgState) (pos : U64) : Operator → Outcome Error CfgState
  | .block _ =>
    if s.next_id + 1 > 1000000 then .err (.budget "region count")
    else .ok (s.openRegion .block pos)
  | .loop _ => .ok (s.openRegion .loop pos)
  | .if_ _ => .ok (s.openRegion (.if_ false) pos)
  | .else_ => .ok s.else_
  | .try_ _ | .tryTable _ =>
    .ok ((s.openRegion .try_ pos).diagnose
      s!"try construct at {hex pos}: exception-handling proposal")
  | .br depth => .ok (s.branch "br" depth pos)
  | .brIf depth => .ok (s.branch "br_if" depth pos)
  | .brTable targets default => .ok (s.brTable targets default pos)
  | .call f => .ok { s with cfg := { s.cfg with calls := s.cfg.calls ++ [(pos, f)] } }
  | .callIndirect type_index table_index =>
    .ok { s with cfg := { s.cfg with
      indirect_calls := s.cfg.indirect_calls ++ [(pos, type_index, table_index)] } }
  | .returnCall f =>
    .ok ({ s with cfg := { s.cfg with calls := s.cfg.calls ++ [(pos, f)] } }.diagnose
      s!"tail call at {hex pos}: tail-call proposal")
  | .returnCallIndirect _ _ => .ok (s.diagnose s!"tail call_indirect at {hex pos}")
  | .end_ => .ok (s.close pos)
  | _ => .ok s

/-- What is noted behind the loop. -/
def finish (s : CfgState) : StructuredCfg :=
  let unclosed := s.stack.length
  if unclosed > 1 then
    (s.diagnose s!"{unclosed} region(s) left unclosed at function end").cfg
  else s.cfg

/-- The loop of `analyze_body`. -/
def run : OperatorsReader → CfgState → Outcome Error StructuredCfg
  | .eof _, s => .ok s.finish
  | .failed _ offset message, _ => .err (.parse offset message)
  | .read pos op rest, s =>
    let s := { s with cfg := { s.cfg with operator_count := s.cfg.operator_count + 1 } }
    if s.cfg.operator_count > 5000000 then .err (.budget "operators per function")
    else do
      let s ← s.operator pos op
      if op = .end_ ∧ s.stack.isEmpty then pure s.finish else run rest s

end CfgState

/-- `analyze_body`. -/
def analyze_body [Wasmparser] (body : List U8) : Outcome Error StructuredCfg :=
  CfgState.run (Wasmparser.operators body) ⟨.default, [0], 1, [(0, 0)]⟩

end ReverseMcp.Wasm
