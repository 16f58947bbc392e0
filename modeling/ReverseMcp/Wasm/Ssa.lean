import ReverseMcp.Rust.Collections
import ReverseMcp.Wasm.Operator

/-!
# Values of a body

`rmcp_wasm::ssa`: one pass over the operators of a body with a stack of names.  An operator that
produces a value gives it a new name; `local.get` puts the name of the local back on the stack; a
name collects the positions of the operators that use it.
-/

namespace ReverseMcp.Wasm

open Rust

/-- `SsaName`. -/
structure SsaName where
  def_offset : U64
  version : U32
deriving DecidableEq

/-- `ValueFact`; the constant is an `i128`. -/
structure ValueFact where
  name : SsaName
  ty : String
  constant : Option ℤ
  uses : List U64
  produced_by : String
deriving DecidableEq

/-- `SsaBody`. -/
structure SsaBody where
  values : List ValueFact
  local_stores : List (U64 × U32 × SsaName)
  local_loads : List (U64 × U32 × SsaName)
  global_loads : List (U64 × U32 × SsaName)
  global_stores : List (U64 × U32 × SsaName)
  memory_ops : List (U64 × SsaName × ℕ × Bool)
  table_index_ops : List (U64 × SsaName)
  branch_conditions : List (U64 × SsaName)
  call_args : List (U64 × U32 × List SsaName)
  diagnostics : List String
  operator_count : ℕ
deriving DecidableEq

/-- `SsaBody::default`. -/
def SsaBody.default : SsaBody := ⟨[], [], [], [], [], [], [], [], [], [], 0⟩

/-- The variables of `analyze_values`; the top of the stack comes first. -/
structure SsaState where
  out : SsaBody
  stack : List SsaName
  version : U32
  locals : Std.ExtTreeMap U32 SsaName
deriving DecidableEq

/-- The first fact with the name gets a use. -/
def addUse (v : SsaName) (site : U64) : List ValueFact → List ValueFact
  | [] => []
  | f :: fs =>
    if f.name = v then { f with uses := f.uses ++ [site] } :: fs else f :: addUse v site fs

/-- `const_of`. -/
def const_of (out : SsaBody) (v : Option SsaName) : Option ℤ :=
  v.bind fun n => (out.values.find? fun f => f.name = n).bind (·.constant)

/-- The mnemonic of an operator that keeps the type. -/
def I32Arith.mnemonic : I32Arith → String
  | add => "i32.add"
  | sub => "i32.sub"
  | mul => "i32.mul"
  | and => "i32.and"
  | or => "i32.or"
  | xor => "i32.xor"

/-- The mnemonic of a comparison. -/
def I32Compare.mnemonic : I32Compare → String
  | eq => "i32.eq"
  | ne => "i32.ne"
  | ltU => "i32.lt_u"
  | geU => "i32.ge_u"

/-- Single-step constant folding. -/
def fold [Host] (op : I32Arith) (a b : Option ℤ) : Outcome Error (Option ℤ) :=
  match a, b with
  | some x, some y =>
    match op with
    | .add => do pure (some (asI32 (← i128 (x + y))))
    | .sub => do pure (some (asI32 (← i128 (x - y))))
    | .mul => do pure (some (asI32 (← i128 (x * y))))
    | _ => pure none
  | _, _ => pure none

namespace SsaState

/-- `def_val!`; `next` is the position of the reader, behind the operator. -/
def defVal [Host] (s : SsaState) (next : U64) (ty produced_by : String) (constant : Option ℤ) :
    Outcome Error SsaState := do
  let name : SsaName := ⟨next, s.version⟩
  let version ← addU32 s.version 1
  pure { s with
    version
    out := { s.out with values := s.out.values ++ [⟨name, ty, constant, [], produced_by⟩] }
    stack := name :: s.stack }

/-- The value gets a use. -/
def use (s : SsaState) (v : SsaName) (site : U64) : SsaState :=
  { s with out := { s.out with values := addUse v site s.out.values } }

/-- `pop_use!`. -/
def popUse (s : SsaState) (next : U64) : Option SsaName × SsaState :=
  match s.stack with
  | v :: stack => (some v, { s.use v next with stack })
  | [] =>
    (none, { s with out := { s.out with
      diagnostics := s.out.diagnostics ++ [s!"stack underflow at {hex next}"] } })

/-- `local.get`. -/
def localGet (s : SsaState) (pos : U64) (i : U32) : SsaState :=
  match s.locals[i]? with
  | some v =>
    let s := s.use v pos
    { s with
      out := { s.out with local_loads := s.out.local_loads ++ [(pos, i, v)] }
      stack := v :: s.stack }
  | none => s

/-- `local.set`, and `local.tee`, which leaves the value on the stack. -/
def localSet (s : SsaState) (pos next : U64) (i : U32) (tee : Bool) : SsaState :=
  match s.popUse next with
  | (some v, s) =>
    { s with
      out := { s.out with local_stores := s.out.local_stores ++ [(pos, i, v)] }
      locals := s.locals.insert i v
      stack := if tee then v :: s.stack else s.stack }
  | (none, s) => s

/-- `global.get`. -/
def globalGet [Host] (s : SsaState) (pos next : U64) (i : U32) : Outcome Error SsaState := do
  let s ← s.defVal next "global" s!"global.get {i.val}" none
  pure (match s.stack with
    | v :: _ => { s with out := { s.out with global_loads := s.out.global_loads ++ [(pos, i, v)] } }
    | [] => s)

/-- `global.set`. -/
def globalSet (s : SsaState) (pos next : U64) (i : U32) : SsaState :=
  match s.popUse next with
  | (some v, s) =>
    { s with out := { s.out with global_stores := s.out.global_stores ++ [(pos, i, v)] } }
  | (none, s) => s

/-- `i32.load` and `i64.load`, of four and eight bytes. -/
def load [Host] (s : SsaState) (pos next : U64) (width : ℕ) (memarg : MemArg) :
    Outcome Error SsaState := do
  let (addr, s) := s.popUse next
  let s ← s.defVal next (if width = 4 then "i32" else "i64") s!"load +{memarg.offset.val}" none
  pure (match addr with
    | some a =>
      { s with out := { s.out with memory_ops := s.out.memory_ops ++ [(pos, a, width, false)] } }
    | none => s)

/-- `i32.store` and `i64.store`. -/
def store (s : SsaState) (pos next : U64) (width : ℕ) : SsaState :=
  let (val, s) := s.popUse next
  let (addr, s) := s.popUse next
  match addr, val with
  | some a, some v =>
    let s := s.use v pos
    { s with out := { s.out with memory_ops := s.out.memory_ops ++ [(pos, a, width, true)] } }
  | _, _ => s

/-- The operators of `i32` that keep the type. -/
def arith [Host] (s : SsaState) (next : U64) (op : I32Arith) : Outcome Error SsaState := do
  let (b, s) := s.popUse next
  let (a, s) := s.popUse next
  let folded ← fold op (const_of s.out a) (const_of s.out b)
  s.defVal next "i32" op.mnemonic folded

/-- `i32.eqz`. -/
def eqz [Host] (s : SsaState) (next : U64) : Outcome Error SsaState :=
  (s.popUse next).2.defVal next "i32" "i32.eqz" none

/-- The comparisons. -/
def compare [Host] (s : SsaState) (next : U64) (op : I32Compare) : Outcome Error SsaState :=
  ((s.popUse next).2.popUse next).2.defVal next "i32" op.mnemonic none

/-- `br_if`. -/
def brIf (s : SsaState) (pos next : U64) : SsaState :=
  match s.popUse next with
  | (some c, s) =>
    { s with out := { s.out with branch_conditions := s.out.branch_conditions ++ [(pos, c)] } }
  | (none, s) => s

/-- `br_table`. -/
def brTable (s : SsaState) (pos next : U64) : SsaState :=
  match s.popUse next with
  | (some i, s) =>
    { s with out := { s.out with table_index_ops := s.out.table_index_ops ++ [(pos, i)] } }
  | (none, s) => s

/-- One operator, other than `end`. -/
def operator [Host] [Wasmparser] (s : SsaState) (pos : U64) (op : Operator) (next : U64) :
    Outcome Error SsaState :=
  match op with
  | .i32Const value => s.defVal next "i32" "i32.const" (some value.toInt)
  | .i64Const value => s.defVal next "i64" "i64.const" (some value.toInt)
  | .f32Const bits => s.defVal next "f32" "f32.const" (some bits.toNat)
  | .f64Const bits => s.defVal next "f64" "f64.const" (some bits.toNat)
  | .localGet i => pure (s.localGet pos i)
  | .localSet i => pure (s.localSet pos next i false)
  | .localTee i => pure (s.localSet pos next i true)
  | .globalGet i => s.globalGet pos next i
  | .globalSet i => pure (s.globalSet pos next i)
  | .i32Load memarg => s.load pos next 4 memarg
  | .i64Load memarg => s.load pos next 8 memarg
  | .i32Store _ => pure (s.store pos next 4)
  | .i64Store _ => pure (s.store pos next 8)
  | .i32Arith op => s.arith next op
  | .i32Eqz => s.eqz next
  | .i32Compare op => s.compare next op
  | .brIf _ => pure (s.brIf pos next)
  | .brTable _ _ => pure (s.brTable pos next)
  | .call f => pure { s with out := { s.out with call_args := s.out.call_args ++ [(pos, f, [])] } }
  | .return_ => pure (s.popUse next).2
  | .drop => pure (s.popUse next).2
  | op =>
    pure { s with out := { s.out with
      diagnostics := s.out.diagnostics ++
        [s!"opaque op at {hex pos}: {Wasmparser.discriminant op}"] } }

/-- The parameters are the first values, and the first locals hold them. -/
def params [Host] : ℕ → Outcome Error SsaState
  | 0 => .ok ⟨.default, [], 0, ∅⟩
  | i + 1 => do
    let s ← params i
    let name : SsaName := ⟨0, s.version⟩
    let version ← addU32 s.version 1
    pure { s with
      version
      out := { s.out with values := s.out.values ++ [⟨name, "param", none, [], s!"param {i}"⟩] }
      locals := s.locals.insert (asU32 i) name }

/-- One more operator, within the budget. -/
def counted (s : SsaState) : Outcome Error SsaState :=
  if s.out.operator_count + 1 > 5000000 then .err (.budget "operators per function (ssa)")
  else .ok { s with out := { s.out with operator_count := s.out.operator_count + 1 } }

/-- The loop of `analyze_values`. -/
def run [Host] [Wasmparser] : OperatorsReader → SsaState → Outcome Error SsaBody
  | .eof _, s => .ok s.out
  | .failed _ offset message, _ => .err (.parse offset message)
  | .read pos op rest, s => do
    let s ← s.counted
    if op = .end_ then pure s.out
    else do
      let s ← s.operator pos op rest.original_position
      run rest s

end SsaState

/-- `analyze_values`. -/
def analyze_values [Host] [Wasmparser] (body : List U8) (n_params : ℕ) :
    Outcome Error SsaBody := do
  let s ← SsaState.params n_params
  SsaState.run (Wasmparser.operators body) s

end ReverseMcp.Wasm
