import ReverseMcp.Wasm.Operator

/-!
# Running straight-line code

What WebAssembly says about the operators that the analyses model, for bodies without blocks: a
branch leaves the function.  A call is a function of its arguments and of the world, that is of the
globals and memories, which it may change; `Instance` has it for every function of the module.
An operator that traps, or that has no meaning in the state, gives nothing.
-/

namespace ReverseMcp.Wasm

open Rust

/-- A value; a float is its bits. -/
inductive Value where
  | i32 (v : BitVec 32)
  | i64 (v : BitVec 64)
  | f32 (bits : BitVec 32)
  | f64 (bits : BitVec 64)
deriving DecidableEq

/-- A linear memory, with 64-bit addresses or 32-bit ones. -/
structure Memory where
  memory64 : Bool
  bytes : List (BitVec 8)
deriving DecidableEq

/-- What the functions of an instance share. -/
structure World where
  globals : List Value
  memories : List Memory
deriving DecidableEq

/-- The functions of an instance: how many parameters and results each has, and what a call does. -/
structure Instance where
  arity : U32 → Option (ℕ × ℕ)
  invoke : U32 → List Value → World → Option (List Value × World)

/-! ## Memory -/

/-- The number that bytes stand for, the least significant first. -/
def ofBytes (bytes : List (BitVec 8)) : ℕ := bytes.foldr (fun b n => b.toNat + 256 * n) 0

/-- The first `width` bytes of a number. -/
def toBytes (width n : ℕ) : List (BitVec 8) :=
  (List.range width).map fun i => BitVec.ofNat 8 (n / 256 ^ i)

namespace Memory

/-- The address that a value is. -/
def address (m : Memory) : Value → Option ℕ
  | .i32 a => if m.memory64 then none else some a.toNat
  | .i64 a => if m.memory64 then some a.toNat else none
  | _ => none

/-- `width` bytes from an address on. -/
def read (m : Memory) (start width : ℕ) : Option (List (BitVec 8)) :=
  if start + width ≤ m.bytes.length then some ((m.bytes.drop start).take width) else none

/-- Bytes written from an address on. -/
def write (m : Memory) (start : ℕ) (bytes : List (BitVec 8)) : Option Memory :=
  if start + bytes.length ≤ m.bytes.length then
    some { m with bytes := m.bytes.take start ++ bytes ++ m.bytes.drop (start + bytes.length) }
  else none

end Memory

/-- The two widths of a memory access: `i32` and `i64`. -/
inductive Width where
  | w4
  | w8
deriving DecidableEq

namespace World

/-- A load. -/
def load (w : World) (width : Width) (memory : U32) (offset : U64) (addr : Value) :
    Option Value := do
  let m ← w.memories[memory.val]?
  let a ← m.address addr
  match width with
  | .w4 => do
    let bytes ← m.read (a + offset.val) 4
    some (.i32 (BitVec.ofNat 32 (ofBytes bytes)))
  | .w8 => do
    let bytes ← m.read (a + offset.val) 8
    some (.i64 (BitVec.ofNat 64 (ofBytes bytes)))

/-- The bytes that a store writes. -/
def stored : Width → Value → Option (List (BitVec 8))
  | .w4, .i32 v => some (toBytes 4 v.toNat)
  | .w8, .i64 v => some (toBytes 8 v.toNat)
  | _, _ => none

/-- A store. -/
def store (w : World) (width : Width) (memory : U32) (offset : U64) (addr v : Value) :
    Option World := do
  let m ← w.memories[memory.val]?
  let a ← m.address addr
  let bytes ← stored width v
  let m' ← m.write (a + offset.val) bytes
  some { w with memories := w.memories.set memory.val m' }

/-- A global is read. -/
def getGlobal (w : World) (i : U32) : Option Value := w.globals[i.val]?

/-- A global is written. -/
def setGlobal (w : World) (i : U32) (v : Value) : Option World :=
  if i.val < w.globals.length then some { w with globals := w.globals.set i.val v } else none

end World

/-! ## Operators -/

/-- The operators of `i32` that keep the type. -/
def I32Arith.eval : I32Arith → BitVec 32 → BitVec 32 → BitVec 32
  | add, a, b => a + b
  | sub, a, b => a - b
  | mul, a, b => a * b
  | and, a, b => a &&& b
  | or, a, b => a ||| b
  | xor, a, b => a ^^^ b

/-- The comparisons. -/
def I32Compare.eval : I32Compare → BitVec 32 → BitVec 32 → Bool
  | eq, a, b => a = b
  | ne, a, b => a ≠ b
  | ltU, a, b => a.toNat < b.toNat
  | geU, a, b => b.toNat ≤ a.toNat

/-- A truth value. -/
def Value.ofBool (b : Bool) : Value := .i32 (if b then 1 else 0)

/-- A function that runs: the operand stack, its top first, the locals, the world, and the calls it
has made. -/
structure Machine where
  stack : List Value
  locals : List Value
  world : World
  calls : List (U32 × List Value)
deriving DecidableEq

/-- What an operator leads to. -/
inductive Flow where
  | next (m : Machine)
  | done (results : List Value) (m : Machine)
deriving DecidableEq

namespace Machine

/-- The value goes on the stack. -/
def push (m : Machine) (v : Value) : Machine := { m with stack := v :: m.stack }

/-- The function returns the values on top of the stack. -/
def ret (m : Machine) (results : ℕ) : Option Flow :=
  if results ≤ m.stack.length then some (.done (m.stack.take results).reverse m) else none

/-- A local is written. -/
def setLocal (m : Machine) (i : U32) (v : Value) : Option Machine :=
  if i.val < m.locals.length then some { m with locals := m.locals.set i.val v } else none

/-- A call. -/
def call (I : Instance) (m : Machine) (f : U32) : Option Machine := do
  let (params, results) ← I.arity f
  if params ≤ m.stack.length then
    let args := (m.stack.take params).reverse
    let (values, world) ← I.invoke f args m.world
    if values.length = results then
      some { m with
        stack := values.reverse ++ m.stack.drop params
        world
        calls := m.calls ++ [(f, args)] }
    else none
  else none

/-- `local.get`. -/
def localGet (m : Machine) (i : U32) : Option Flow := do
  let v ← m.locals[i.val]?
  some (.next (m.push v))

/-- `local.set`. -/
def localSet (m : Machine) (i : U32) : Option Flow :=
  match m.stack with
  | v :: stack => do
    let m ← ({ m with stack } : Machine).setLocal i v
    some (.next m)
  | [] => none

/-- `local.tee`. -/
def localTee (m : Machine) (i : U32) : Option Flow :=
  match m.stack with
  | v :: _ => do
    let m ← m.setLocal i v
    some (.next m)
  | [] => none

/-- `global.get`. -/
def globalGet (m : Machine) (i : U32) : Option Flow := do
  let v ← m.world.getGlobal i
  some (.next (m.push v))

/-- `global.set`. -/
def globalSet (m : Machine) (i : U32) : Option Flow :=
  match m.stack with
  | v :: stack => do
    let world ← m.world.setGlobal i v
    some (.next { m with stack, world })
  | [] => none

/-- `i32.load` and `i64.load`. -/
def load (m : Machine) (width : Width) (memarg : MemArg) : Option Flow :=
  match m.stack with
  | addr :: stack => do
    let v ← m.world.load width memarg.memory memarg.offset addr
    some (.next { m with stack := v :: stack })
  | [] => none

/-- `i32.store` and `i64.store`. -/
def store (m : Machine) (width : Width) (memarg : MemArg) : Option Flow :=
  match m.stack with
  | v :: addr :: stack => do
    let world ← m.world.store width memarg.memory memarg.offset addr v
    some (.next { m with stack, world })
  | _ => none

/-- An operator with two operands. -/
def binary (m : Machine) (f : BitVec 32 → BitVec 32 → Value) : Option Flow :=
  match m.stack with
  | .i32 b :: .i32 a :: stack => some (.next { m with stack := f a b :: stack })
  | _ => none

/-- `i32.eqz`. -/
def eqz (m : Machine) : Option Flow :=
  match m.stack with
  | .i32 a :: stack => some (.next { m with stack := .ofBool (a = 0) :: stack })
  | _ => none

/-- `br_if`. -/
def brIf (m : Machine) (results : ℕ) (depth : U32) : Option Flow :=
  match m.stack with
  | .i32 c :: stack =>
    if depth.val ≠ 0 then none
    else if c = 0 then some (.next { m with stack }) else ret { m with stack } results
  | _ => none

/-- `br_table`. -/
def brTable (m : Machine) (results : ℕ) (targets : List U32) (default : U32) : Option Flow :=
  match m.stack with
  | .i32 _ :: stack =>
    if (default :: targets).all (·.val = 0) then ret { m with stack } results else none
  | _ => none

/-- `drop`. -/
def drop (m : Machine) : Option Flow :=
  match m.stack with
  | _ :: stack => some (.next { m with stack })
  | [] => none

/-- One operator, in a function with `results` results. -/
def exec (I : Instance) (results : ℕ) (m : Machine) : Operator → Option Flow
  | .i32Const v => some (.next (m.push (.i32 v)))
  | .i64Const v => some (.next (m.push (.i64 v)))
  | .f32Const v => some (.next (m.push (.f32 v)))
  | .f64Const v => some (.next (m.push (.f64 v)))
  | .localGet i => m.localGet i
  | .localSet i => m.localSet i
  | .localTee i => m.localTee i
  | .globalGet i => m.globalGet i
  | .globalSet i => m.globalSet i
  | .i32Load memarg => m.load .w4 memarg
  | .i64Load memarg => m.load .w8 memarg
  | .i32Store memarg => m.store .w4 memarg
  | .i64Store memarg => m.store .w8 memarg
  | .i32Arith op => m.binary fun a b => .i32 (op.eval a b)
  | .i32Eqz => m.eqz
  | .i32Compare op => m.binary fun a b => .ofBool (op.eval a b)
  | .brIf depth => m.brIf results depth
  | .brTable targets default => m.brTable results targets default
  | .call f => (m.call I f).map .next
  | .return_ => m.ret results
  | .drop => m.drop
  | .end_ => if m.stack.length = results then m.ret results else none
  | _ => none

/-! What the operators need and do. -/

section Inversion

variable {I : Instance} {m m' : Machine} {vm : Flow} {i : U32}

lemma setLocal_eq_some {v : Value} : m.setLocal i v = some m' ↔
    i.val < m.locals.length ∧ m' = { m with locals := m.locals.set i.val v } := by
  rw [setLocal]
  split <;> simp_all [@eq_comm _ m']

lemma localGet_eq_some :
    m.localGet i = some vm ↔ ∃ v, m.locals[i.val]? = some v ∧ vm = .next (m.push v) := by
  simp [localGet, Option.bind_eq_some_iff, @eq_comm _ vm]

lemma localSet_eq_some : m.localSet i = some vm ↔
    ∃ v stack m', m.stack = v :: stack ∧ ({ m with stack } : Machine).setLocal i v = some m' ∧
      vm = .next m' := by
  rw [localSet]
  split <;> simp_all [Option.bind_eq_some_iff, @eq_comm _ vm]

lemma localTee_eq_some : m.localTee i = some vm ↔
    ∃ v stack m', m.stack = v :: stack ∧ m.setLocal i v = some m' ∧ vm = .next m' := by
  rw [localTee]
  split <;> simp_all [Option.bind_eq_some_iff, @eq_comm _ vm]

lemma globalGet_eq_some :
    m.globalGet i = some vm ↔ ∃ v, m.world.getGlobal i = some v ∧ vm = .next (m.push v) := by
  simp [globalGet, Option.bind_eq_some_iff, @eq_comm _ vm]

lemma globalSet_eq_some : m.globalSet i = some vm ↔
    ∃ v stack world, m.stack = v :: stack ∧ m.world.setGlobal i v = some world ∧
      vm = .next { m with stack, world } := by
  rw [globalSet]
  split <;> simp_all [Option.bind_eq_some_iff, @eq_comm _ vm]

lemma load_eq_some {width : Width} {memarg : MemArg} : m.load width memarg = some vm ↔
    ∃ addr stack v, m.stack = addr :: stack ∧
      m.world.load width memarg.memory memarg.offset addr = some v ∧
      vm = .next { m with stack := v :: stack } := by
  rw [load]
  split <;> simp_all [Option.bind_eq_some_iff, @eq_comm _ vm]

lemma store_eq_some {width : Width} {memarg : MemArg} : m.store width memarg = some vm ↔
    ∃ v addr stack world, m.stack = v :: addr :: stack ∧
      m.world.store width memarg.memory memarg.offset addr v = some world ∧
      vm = .next { m with stack, world } := by
  rw [store]
  split
  · simp_all [Option.bind_eq_some_iff, @eq_comm _ vm]
  · rename_i hm
    refine ⟨fun h => (by cases h), ?_⟩
    rintro ⟨v, addr, stack, world, hstack, -⟩
    exact absurd hstack (hm v addr stack)

lemma binary_eq_some {f : BitVec 32 → BitVec 32 → Value} : m.binary f = some vm ↔
    ∃ b a stack, m.stack = .i32 b :: .i32 a :: stack ∧
      vm = .next { m with stack := f a b :: stack } := by
  rw [binary]
  split
  · simp_all [@eq_comm _ vm]
  · rename_i hm
    refine ⟨fun h => (by cases h), ?_⟩
    rintro ⟨b, a, stack, hstack, -⟩
    exact absurd hstack (hm b a stack)

lemma eqz_eq_some : m.eqz = some vm ↔
    ∃ a stack, m.stack = .i32 a :: stack ∧
      vm = .next { m with stack := .ofBool (a = 0) :: stack } := by
  rw [eqz]
  split
  · simp_all [@eq_comm _ vm]
  · rename_i hm
    refine ⟨fun h => (by cases h), ?_⟩
    rintro ⟨a, stack, hstack, -⟩
    exact absurd hstack (hm a stack)

lemma drop_eq_some : m.drop = some vm ↔
    ∃ v stack, m.stack = v :: stack ∧ vm = .next { m with stack } := by
  rw [drop]
  split <;> simp_all [@eq_comm _ vm]

lemma ret_eq_some {results : ℕ} : m.ret results = some vm ↔
    results ≤ m.stack.length ∧ vm = .done (m.stack.take results).reverse m := by
  rw [ret]
  split <;> simp_all [@eq_comm _ vm]

/-- A branch that is not taken leaves its condition off the stack. -/
lemma brIf_eq_some {results : ℕ} {depth : U32} (h : m.brIf results depth = some vm) :
    ∃ c stack, m.stack = c :: stack ∧ ∀ m', vm = .next m' → m' = { m with stack } := by
  rw [brIf] at h
  split at h
  case h_1 c stack hm =>
    refine ⟨.i32 c, stack, hm, ?_⟩
    rintro m' rfl
    split at h
    · cases h
    · split at h
      · cases h
        rfl
      · exact absurd (ret_eq_some.mp h).2 (by simp)
  case h_2 => cases h

lemma brTable_eq_some {results : ℕ} {targets : List U32} {default : U32}
    (h : m.brTable results targets default = some vm) :
    ∃ c stack values m', m.stack = c :: stack ∧ vm = .done values m' := by
  rw [brTable] at h
  split at h
  case h_1 c stack hm =>
    split at h
    · exact ⟨.i32 c, stack, _, _, hm, (ret_eq_some.mp h).2⟩
    · cases h
  case h_2 => cases h

lemma call_eq_some {f : U32} : m.call I f = some m' ↔
    ∃ params results values world, I.arity f = some (params, results) ∧
      params ≤ m.stack.length ∧
      I.invoke f (m.stack.take params).reverse m.world = some (values, world) ∧
      values.length = results ∧
      m' = { m with
        stack := values.reverse ++ m.stack.drop params
        world
        calls := m.calls ++ [(f, (m.stack.take params).reverse)] } := by
  simp only [call, Option.bind_eq_bind, Option.bind_eq_some_iff]
  constructor
  · rintro ⟨⟨params, results⟩, harity, h⟩
    split at h
    case isFalse => cases h
    case isTrue hle =>
      obtain ⟨⟨values, world⟩, hinvoke, h⟩ := Option.bind_eq_some_iff.mp h
      split at h
      case isFalse => cases h
      case isTrue hlen =>
        cases h
        exact ⟨params, results, values, world, harity, hle, hinvoke, hlen, rfl⟩
  · rintro ⟨params, results, values, world, harity, hle, hinvoke, hlen, rfl⟩
    refine ⟨(params, results), harity, ?_⟩
    rw [if_pos hle, hinvoke, Option.bind_some]
    exact if_pos hlen

/-- The last `end` is the end. -/
lemma exec_end_ne_next (I : Instance) (results : ℕ) (m m' : Machine) :
    m.exec I results .end_ ≠ some (.next m') := by
  intro h
  replace h : (if m.stack.length = results then m.ret results else none) = some (.next m') := h
  split at h
  · exact absurd (ret_eq_some.mp h).2 (by simp)
  · cases h

end Inversion

end Machine

end ReverseMcp.Wasm
