import ReverseMcp.Wasm.Operator

/-!
# Well-nested code

The operators of a body as a tree: a construct has the operator that opens it, its code, and the
position of its `end`; an `if` may have an `else` between two codes.  A sequence of operators is
well nested when it is that of a tree with the `end` of the function behind it.
-/

namespace ReverseMcp.Wasm

open Rust

/-- What opens a construct. -/
inductive Opener where
  | block (blockty : ℕ)
  | loop (blockty : ℕ)
  | if_ (blockty : ℕ)
  | try_ (blockty : ℕ)
  | tryTable (blockty : ℕ)
deriving DecidableEq

/-- The operator that opens a construct. -/
def Opener.operator : Opener → Operator
  | block t => .block t
  | loop t => .loop t
  | if_ t => .if_ t
  | try_ t => .try_ t
  | tryTable t => .tryTable t

/-- The operator neither opens a construct nor divides or ends one. -/
def Operator.isPlain : Operator → Bool
  | block _ => false
  | loop _ => false
  | if_ _ => false
  | else_ => false
  | try_ _ => false
  | tryTable _ => false
  | end_ => false
  | _ => true

/-- The operators that do not structure the code. -/
abbrev Plain : Type := { op : Operator // op.isPlain = true }

/-- Well-nested code, with the positions of its operators. -/
inductive Code where
  | nil
  | plain (pos : U64) (op : Plain) (rest : Code)
  | construct (pos : U64) (opener : Opener) (body : Code) (stop : U64) (rest : Code)
  /-- An `if` with an `else`. -/
  | ifElse (pos : U64) (blockty : ℕ) (body : Code) (mid : U64) (alt : Code) (stop : U64)
      (rest : Code)
deriving DecidableEq

namespace Code

/-- The operators of the code, in order. -/
def ops : Code → List (U64 × Operator)
  | nil => []
  | plain pos op rest => (pos, op.val) :: rest.ops
  | construct pos opener body stop rest =>
    (pos, opener.operator) :: (body.ops ++ (stop, .end_) :: rest.ops)
  | ifElse pos t body mid alt stop rest =>
    (pos, .if_ t) :: (body.ops ++ (mid, .else_) :: (alt.ops ++ (stop, .end_) :: rest.ops))

/-- The operators of a function with the code, whose `end` is at `stop`. -/
def function (code : Code) (stop : U64) : List (U64 × Operator) := code.ops ++ [(stop, .end_)]

/-- The number of constructs. -/
def size : Code → ℕ
  | nil => 0
  | plain _ _ rest => rest.size
  | construct _ _ body _ rest => 1 + body.size + rest.size
  | ifElse _ _ body _ alt _ rest => 1 + body.size + alt.size + rest.size

/-- The code has no constructs. -/
def Flat (code : Code) : Prop := code.size = 0

instance : DecidablePred Flat := fun code => inferInstanceAs (Decidable (code.size = 0))

end Code

/-- The reader of a body with the operators, which ends at `eof`. -/
def OperatorsReader.ofList (eof : U64) : List (U64 × Operator) → OperatorsReader
  | [] => .eof eof
  | (pos, op) :: ops => .read pos op (ofList eof ops)

/-- The parser for one body, which refuses any other. -/
@[reducible] def Wasmparser.of (body : List U8) (reader : OperatorsReader) : Wasmparser where
  operators bytes := if bytes = body then reader else .failed 0 0 "unknown body"
  discriminant _ := "Discriminant"

namespace Code

/-- Flat code has no `end`, and code with a construct has one. -/
lemma flat_iff (code : Code) : code.Flat ↔ ∀ e ∈ code.ops, e.2 ≠ .end_ := by
  rw [Flat]
  cases code with
  | nil => simp [size, ops]
  | plain pos op rest =>
    have hop : op.val ≠ .end_ := fun h => absurd op.property (by rw [h]; exact Bool.false_ne_true)
    have ih := rest.flat_iff
    rw [Flat] at ih
    simp [size, ops, ih, hop]
  | construct pos opener body stop rest =>
    refine iff_of_false ?_ fun h => h (stop, .end_) (by simp [ops]) rfl
    rw [size]
    omega
  | ifElse pos t body mid alt stop rest =>
    refine iff_of_false ?_ fun h => h (stop, .end_) (by simp [ops]) rfl
    rw [size]
    omega

end Code

end ReverseMcp.Wasm
