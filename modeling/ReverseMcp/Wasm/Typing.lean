import ReverseMcp.Wasm.Operator

/-!
# Valid straight-line bodies

The typing rules of WebAssembly for bodies without blocks, over the operators that the analyses
model.  Behind `return` and `br_table` the operand stack is whatever the code asks for.
-/

namespace ReverseMcp.Wasm

open Rust

/-- The types of numbers. -/
inductive ValType where
  | i32
  | i64
  | f32
  | f64
deriving DecidableEq

/-- What a body is checked against: the parameters are the first locals; a global may be mutable; a
memory may have 64-bit addresses. -/
structure Context where
  locals : List ValType
  results : List ValType
  globals : List (ValType × Bool)
  functions : List (List ValType × List ValType)
  memories : List Bool
deriving DecidableEq

namespace Context

/-- The type of the addresses of a memory, for an access of `2 ^ width` bytes. -/
def address (C : Context) (width : ℕ) (memarg : MemArg) : Option ValType :=
  if memarg.align ≤ width then
    C.memories[memarg.memory.val]?.map fun memory64 => if memory64 then .i64 else .i32
  else none

/-- What an operator takes from the stack and what it leaves there, the top first. -/
def effect (C : Context) : Operator → Option (List ValType × List ValType)
  | .i32Const _ => some ([], [.i32])
  | .i64Const _ => some ([], [.i64])
  | .f32Const _ => some ([], [.f32])
  | .f64Const _ => some ([], [.f64])
  | .localGet i => C.locals[i.val]?.map fun t => ([], [t])
  | .localSet i => C.locals[i.val]?.map fun t => ([t], [])
  | .localTee i => C.locals[i.val]?.map fun t => ([t], [t])
  | .globalGet i => C.globals[i.val]?.map fun g => ([], [g.1])
  | .globalSet i => C.globals[i.val]?.bind fun g => if g.2 then some ([g.1], []) else none
  | .i32Load memarg => (C.address 2 memarg).map fun a => ([a], [.i32])
  | .i64Load memarg => (C.address 3 memarg).map fun a => ([a], [.i64])
  | .i32Store memarg => (C.address 2 memarg).map fun a => ([.i32, a], [])
  | .i64Store memarg => (C.address 3 memarg).map fun a => ([.i64, a], [])
  | .i32Arith _ => some ([.i32, .i32], [.i32])
  | .i32Eqz => some ([.i32], [.i32])
  | .i32Compare _ => some ([.i32, .i32], [.i32])
  | .brIf depth =>
    if depth.val = 0 then some (.i32 :: C.results.reverse, C.results.reverse) else none
  | .call f => C.functions[f.val]?.map fun t => (t.1.reverse, t.2.reverse)
  | _ => none

/-- Values are taken from the stack; when `free` is set there is always one more. -/
def take (free : Bool) : List ValType → List ValType → Option (List ValType)
  | stack, [] => some stack
  | [], _ :: ts => if free then take free [] ts else none
  | s :: stack, t :: ts => if s = t then take free stack ts else none

/-- The operators up to the final `end`. -/
def check (C : Context) (free : Bool) (stack : List ValType) : List Operator → Bool
  | [] => false
  | [.end_] => take free stack C.results.reverse = some []
  | .drop :: ops =>
    match stack with
    | _ :: stack => C.check free stack ops
    | [] => free && C.check free [] ops
  | .return_ :: ops => (take free stack C.results.reverse).isSome && C.check true [] ops
  | .brTable targets default :: ops =>
    (default :: targets).all (·.val = 0) &&
      (take free stack (.i32 :: C.results.reverse)).isSome && C.check true [] ops
  | op :: ops =>
    match C.effect op with
    | some (pops, pushes) =>
      match take free stack pops with
      | some stack => C.check free (pushes ++ stack) ops
      | none => false
    | none => false

/-- The body of a function is valid. -/
def Valid (C : Context) (ops : List Operator) : Prop := C.check false [] ops = true

instance (C : Context) (ops : List Operator) : Decidable (C.Valid ops) :=
  inferInstanceAs (Decidable (_ = true))

end Context

end ReverseMcp.Wasm
