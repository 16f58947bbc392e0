import ReverseMcp.Rust.Integers

/-!
# WebAssembly operators

The operators that the analyses of `rmcp_wasm` tell apart, and what `wasmparser::OperatorsReader`
gives for the bytes of a body.  The parser is a package of its own: how it decodes bytes is a
field of `Wasmparser`, as is the `Debug` text of a discriminant.
-/

namespace ReverseMcp.Wasm

open Rust

/-- `wasmparser::MemArg`. -/
structure MemArg where
  align : ℕ
  offset : U64
  memory : U32
deriving DecidableEq

/-- The operators of `i32` that keep the type. -/
inductive I32Arith where
  | add
  | sub
  | mul
  | and
  | or
  | xor
deriving DecidableEq

/-- The comparisons of `i32` that are told apart. -/
inductive I32Compare where
  | eq
  | ne
  | ltU
  | geU
deriving DecidableEq

/-- `wasmparser::Operator`.  The constants of a float are its bits.  No analysis reads block types,
nor tells the operators without a name here apart; they are numbers, one for each. -/
inductive Operator where
  | i32Const (value : BitVec 32)
  | i64Const (value : BitVec 64)
  | f32Const (bits : BitVec 32)
  | f64Const (bits : BitVec 64)
  | localGet (local_index : U32)
  | localSet (local_index : U32)
  | localTee (local_index : U32)
  | globalGet (global_index : U32)
  | globalSet (global_index : U32)
  | i32Load (memarg : MemArg)
  | i64Load (memarg : MemArg)
  | i32Store (memarg : MemArg)
  | i64Store (memarg : MemArg)
  | i32Arith (op : I32Arith)
  | i32Eqz
  | i32Compare (op : I32Compare)
  | block (blockty : ℕ)
  | loop (blockty : ℕ)
  | if_ (blockty : ℕ)
  | else_
  | try_ (blockty : ℕ)
  | tryTable (blockty : ℕ)
  | br (relative_depth : U32)
  | brIf (relative_depth : U32)
  | brTable (targets : List U32) (default : U32)
  | call (function_index : U32)
  | callIndirect (type_index table_index : U32)
  | returnCall (function_index : U32)
  | returnCallIndirect (type_index table_index : U32)
  | return_
  | unreachable
  | drop
  | end_
  | other (number : ℕ)
deriving DecidableEq

/-- `OperatorsReader`, as what its calls of `read` will give: at a position it is at the end of the
body, or fails, or reads an operator and stands behind it. -/
inductive OperatorsReader where
  | eof (position : U64)
  | failed (position : U64) (offset : U64) (message : String)
  | read (position : U64) (op : Operator) (rest : OperatorsReader)
deriving DecidableEq

/-- `OperatorsReader::original_position`. -/
def OperatorsReader.original_position : OperatorsReader → U64
  | eof position => position
  | failed position _ _ => position
  | read position _ _ => position

/-- The operators that are read, when the end of the body is reached. -/
def OperatorsReader.decoded : OperatorsReader → Option (List Operator)
  | eof _ => some []
  | failed _ _ _ => none
  | read _ op rest => rest.decoded.map (op :: ·)

/-- What the analyses take from the parser. -/
class Wasmparser where
  /-- `OperatorsReader::new(BinaryReader::new(body, 0))`. -/
  operators : List U8 → OperatorsReader
  /-- The `Debug` text of `std::mem::discriminant` of an operator. -/
  discriminant : Operator → String

/-- `rmcp_wasm::Error`; the payload of `Io` is the text of the I/O error. -/
inductive Error where
  | parse (offset : U64) (message : String)
  | featureDisabled (feature message : String)
  | budget (what : String)
  | ambiguous (what : String)
  | io (what : String)
deriving DecidableEq

/-- `Display` of an error. -/
def Error.text : Error → String
  | parse offset message => s!"wasm parse failed at offset {offset.val}: {message}"
  | featureDisabled feature message =>
    s!"feature '{feature}' not enabled in this module: {message}"
  | budget what => s!"budget exhausted: {what}"
  | ambiguous what => s!"analysis ambiguous: {what}"
  | io what => s!"io: {what}"

end ReverseMcp.Wasm
