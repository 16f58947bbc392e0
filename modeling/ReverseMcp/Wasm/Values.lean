import Mathlib.Algebra.Order.Ring.Abs
import Mathlib.Tactic.Positivity
import ReverseMcp.Rust.Run
import ReverseMcp.Wasm.Ssa
import ReverseMcp.Wasm.Machine
import ReverseMcp.Wasm.Typing
import ReverseMcp.Wasm.Decoder

/-!
# What the values of a body stand for

The pass of `Wasm.Ssa` beside the machine of `Wasm.Machine`, operator by operator.  A name stands
for the value that its operator left on the operand stack; a parameter's name stands for the
argument.  `Seen` is what the machine does at the places where the pass records a name.

The pass forgets two things: `local.get` of a declared local that has not been written leaves
nothing on its stack, and a call neither takes its arguments from the stack nor leaves its results
there.  As long as the code does neither, the stacks have the same height and every recorded name
and every constant is right (`values_sound`).
-/

namespace ReverseMcp.Wasm

open Rust

/-- The number that the pass takes a constant for. -/
def Value.number : Value → ℤ
  | i32 v => v.toInt
  | i64 v => v.toInt
  | f32 bits => bits.toNat
  | f64 bits => bits.toNat

/-- What happened at the places where the pass records a name, with the value instead. -/
structure Seen where
  local_loads : List (U64 × U32 × Value)
  global_stores : List (U64 × U32 × Value)
  memory_ops : List (U64 × Value × ℕ × Bool)
  table_index_ops : List (U64 × Value)
  branch_conditions : List (U64 × Value)
deriving DecidableEq

namespace Seen

/-- Nothing has happened. -/
def empty : Seen := ⟨[], [], [], [], []⟩

/-- An operator runs at a position. -/
def add (s : Seen) (pos : U64) (m : Machine) : Operator → Seen
  | .localGet i =>
    { s with local_loads := s.local_loads ++ (m.locals[i.val]?.map (pos, i, ·)).toList }
  | .globalSet i =>
    { s with global_stores := s.global_stores ++ (m.stack.head?.map (pos, i, ·)).toList }
  | .i32Load _ =>
    { s with memory_ops := s.memory_ops ++ (m.stack.head?.map (pos, ·, 4, false)).toList }
  | .i64Load _ =>
    { s with memory_ops := s.memory_ops ++ (m.stack.head?.map (pos, ·, 8, false)).toList }
  | .i32Store _ =>
    { s with memory_ops := s.memory_ops ++ (m.stack[1]?.map (pos, ·, 4, true)).toList }
  | .i64Store _ =>
    { s with memory_ops := s.memory_ops ++ (m.stack[1]?.map (pos, ·, 8, true)).toList }
  | .brIf _ =>
    { s with branch_conditions := s.branch_conditions ++ (m.stack.head?.map (pos, ·)).toList }
  | .brTable _ _ =>
    { s with table_index_ops := s.table_index_ops ++ (m.stack.head?.map (pos, ·)).toList }
  | _ => s

end Seen

/-- What names stand for. -/
def Meaning : Type := SsaName → Option Value

/-- The pass and the machine at one point of a body. -/
structure Tandem where
  reader : OperatorsReader
  ssa : SsaState
  vm : Flow
  meaning : Meaning
  /-- The locals that have been written. -/
  written : List U32
  seen : Seen

/-- A name that came up stands for the value on top of the stack. -/
def Meaning.extend (ρ : Meaning) (old new : List ValueFact) (vm : Flow) : Meaning :=
  match new.drop old.length, vm with
  | f :: _, .next m => fun v => if v = f.name then m.stack.head? else ρ v
  | _, _ => ρ

/-- The locals that an operator writes. -/
def Operator.writes : Operator → List U32
  | localSet i => [i]
  | localTee i => [i]
  | _ => []

/-- One operator in the pass. -/
def SsaState.advance [Host] [Wasmparser] (s : SsaState) (pos : U64) (op : Operator) (next : U64) :
    Outcome Error SsaState := do
  let s ← s.counted
  if op = .end_ then pure s else s.operator pos op next

namespace Tandem

/-- A call with arguments, in a function with declared locals. -/
def start [Wasmparser] (body : List U8) (ssa : SsaState) (args locals : List Value)
    (world : World) :
    Tandem where
  reader := Wasmparser.operators body
  ssa
  vm := .next ⟨[], args ++ locals, world, []⟩
  meaning v := if v.def_offset = 0 then args[v.version.val]? else none
  written := []
  seen := .empty

/-- The machine and the pass take the operator that is next. -/
def act [Host] [Wasmparser] (I : Instance) (results : ℕ) (t : Tandem) (e : U64 × Operator) :
    Option Tandem :=
  match t.reader, t.vm with
  | .read pos op rest, .next m =>
    if (pos, op) = e then do
      let vm ← m.exec I results op
      let ssa ← (t.ssa.advance pos op rest.original_position).value?
      some {
        reader := rest
        ssa
        vm
        meaning := t.meaning.extend t.ssa.out.values ssa.out.values vm
        written := op.writes ++ t.written
        seen := t.seen.add pos m op }
    else none
  | _, _ => none

end Tandem

/-! ## Names and what they stand for -/

section Facts

variable {ρ ρ' : Meaning} {v : SsaName} {site : U64} {fs : List ValueFact} {f : ValueFact}

/-- What a fact says about its name. -/
def ValueFact.key (f : ValueFact) : SsaName × Option ℤ := (f.name, f.constant)

/-- A use changes neither the names nor the constants. -/
lemma map_addUse (v : SsaName) (site : U64) (fs : List ValueFact) :
    (addUse v site fs).map ValueFact.key = fs.map ValueFact.key := by
  induction fs with
  | nil => rfl
  | cons f fs ih =>
    rw [addUse]
    split
    · rfl
    · rw [List.map_cons, List.map_cons, ih]

@[simp] lemma length_addUse (v : SsaName) (site : U64) (fs : List ValueFact) :
    (addUse v site fs).length = fs.length := by
  simpa using congrArg List.length (map_addUse v site fs)

lemma mem_addUse (h : f ∈ addUse v site fs) :
    ∃ g ∈ fs, g.name = f.name ∧ g.constant = f.constant := by
  have hmem : f.key ∈ (addUse v site fs).map ValueFact.key := List.mem_map_of_mem h
  rw [map_addUse] at hmem
  obtain ⟨g, hg, hkey⟩ := List.mem_map.mp hmem
  exact ⟨g, hg, congrArg Prod.fst hkey, congrArg Prod.snd hkey⟩

/-- Every fact is about a name that stands for a value, and its constant is the value. -/
def Meaning.Explains (ρ : Meaning) (fs : List ValueFact) : Prop :=
  ∀ f ∈ fs, ∃ x, ρ f.name = some x ∧ ∀ c ∈ f.constant, x.number = c

lemma Meaning.Explains.addUse (h : ρ.Explains fs) : ρ.Explains (addUse v site fs) := by
  intro f hf
  obtain ⟨g, hg, hname, hconst⟩ := mem_addUse hf
  rw [← hname, ← hconst]
  exact h g hg

/-- The names keep what they stand for. -/
def Meaning.Keeps (ρ ρ' : Meaning) : Prop := ∀ v x, ρ v = some x → ρ' v = some x

lemma Meaning.Explains.mono (h : ρ.Explains fs) (hρ : ρ.Keeps ρ') : ρ'.Explains fs := by
  intro f hf
  obtain ⟨x, hx, hc⟩ := h f hf
  exact ⟨x, hρ _ _ hx, hc⟩

/-- A constant of the pass is the value that the name stands for. -/
lemma Meaning.Explains.const_of {out : SsaBody} {x : Value} (h : ρ.Explains out.values)
    (hv : ρ v = some x) : ∀ c ∈ const_of out (some v), x.number = c := by
  intro c hc
  simp only [Wasm.const_of, Option.bind_some, Option.mem_def, Option.bind_eq_some_iff] at hc
  obtain ⟨f, hfind, hc⟩ := hc
  have hname : f.name = v := by simpa using List.find?_some hfind
  obtain ⟨y, hy, hconst⟩ := h f (List.mem_of_find?_eq_some hfind)
  rw [hname, hv] at hy
  cases hy
  exact hconst c hc

lemma Meaning.extend_of_length {old new : List ValueFact} (h : new.length = old.length)
    (vm : Flow) :
    ρ.extend old new vm = ρ := by
  have hdrop : new.drop old.length = [] := List.drop_eq_nil_of_le h.le
  unfold extend
  rw [hdrop]

lemma Meaning.extend_of_append {old : List ValueFact} (h : fs.length = old.length) (m : Machine) :
    ρ.extend old (fs ++ [f]) (.next m) = fun v => if v = f.name then m.stack.head? else ρ v := by
  have hdrop : (fs ++ [f]).drop old.length = [f] := by rw [← h, List.drop_left]
  unfold extend
  rw [hdrop]

end Facts

/-- The lists of the pass have the names of the values that were seen. -/
structure Recorded (ρ : Meaning) (out : SsaBody) (seen : Seen) : Prop where
  local_loads : List.Forall₂ (fun a b => a.1 = b.1 ∧ a.2.1 = b.2.1 ∧ ρ a.2.2 = some b.2.2)
    out.local_loads seen.local_loads
  global_stores : List.Forall₂ (fun a b => a.1 = b.1 ∧ a.2.1 = b.2.1 ∧ ρ a.2.2 = some b.2.2)
    out.global_stores seen.global_stores
  memory_ops : List.Forall₂ (fun a b => a.1 = b.1 ∧ ρ a.2.1 = some b.2.1 ∧ a.2.2 = b.2.2)
    out.memory_ops seen.memory_ops
  table_index_ops : List.Forall₂ (fun a b => a.1 = b.1 ∧ ρ a.2 = some b.2)
    out.table_index_ops seen.table_index_ops
  branch_conditions : List.Forall₂ (fun a b => a.1 = b.1 ∧ ρ a.2 = some b.2)
    out.branch_conditions seen.branch_conditions

lemma Recorded.mono {ρ ρ' : Meaning} {out : SsaBody} {seen : Seen} (h : Recorded ρ out seen)
    (hρ : ρ.Keeps ρ') : Recorded ρ' out seen where
  local_loads := h.local_loads.imp fun _ _ hab => ⟨hab.1, hab.2.1, hρ _ _ hab.2.2⟩
  global_stores := h.global_stores.imp fun _ _ hab => ⟨hab.1, hab.2.1, hρ _ _ hab.2.2⟩
  memory_ops := h.memory_ops.imp fun _ _ hab => ⟨hab.1, hρ _ _ hab.2.1, hab.2.2⟩
  table_index_ops := h.table_index_ops.imp fun _ _ hab => ⟨hab.1, hρ _ _ hab.2⟩
  branch_conditions := h.branch_conditions.imp fun _ _ hab => ⟨hab.1, hρ _ _ hab.2⟩

/-! ## Constants -/

lemma i128_of_small [Host] {z : ℤ} (h : -2 ^ 127 ≤ z ∧ z < 2 ^ 127) :
    (i128 z : Outcome Error ℤ) = .ok z := if_pos h

/-- A product of two numbers of 32 bits. -/
lemma mul_toInt_bounds (a b : BitVec 32) :
    -2 ^ 127 ≤ a.toInt * b.toInt ∧ a.toInt * b.toInt < 2 ^ 127 := by
  have ha : |a.toInt| ≤ 2 ^ 31 := by
    have h1 := BitVec.two_mul_toInt_lt (x := a)
    have h2 := BitVec.le_two_mul_toInt (x := a)
    rw [abs_le]
    omega
  have hb : |b.toInt| ≤ 2 ^ 31 := by
    have h1 := BitVec.two_mul_toInt_lt (x := b)
    have h2 := BitVec.le_two_mul_toInt (x := b)
    rw [abs_le]
    omega
  have hab : |a.toInt * b.toInt| ≤ 2 ^ 31 * 2 ^ 31 := by
    rw [abs_mul]
    exact mul_le_mul ha hb (abs_nonneg _) (by positivity)
  rw [abs_le] at hab
  omega

/-- Folding gives the value of the operator. -/
lemma fold_sound [Host] (op : I32Arith) {a b : BitVec 32} {ca cb : Option ℤ}
    (ha : ∀ c ∈ ca, a.toInt = c) (hb : ∀ c ∈ cb, b.toInt = c) :
    ∃ c, fold op ca cb = .ok c ∧ ∀ z ∈ c, (op.eval a b).toInt = z := by
  have ha1 := BitVec.two_mul_toInt_lt (x := a)
  have ha2 := BitVec.le_two_mul_toInt (x := a)
  have hb1 := BitVec.two_mul_toInt_lt (x := b)
  have hb2 := BitVec.le_two_mul_toInt (x := b)
  cases ca with
  | none => exact ⟨none, rfl, by simp⟩
  | some x =>
    cases cb with
    | none => exact ⟨none, rfl, by simp⟩
    | some y =>
      obtain rfl : a.toInt = x := ha x rfl
      obtain rfl : b.toInt = y := hb y rfl
      -- both are constants of 32 bits, so the 128 bits of the code do not overflow
      cases op with
      | add =>
        refine ⟨some (asI32 (a.toInt + b.toInt)), ?_, ?_⟩
        · simp only [fold, i128_of_small (by omega : -2 ^ 127 ≤ a.toInt + b.toInt ∧ _),
            Outcome.ok_bind, Outcome.pure_eq]
        · rintro z ⟨⟩
          exact BitVec.toInt_add a b
      | sub =>
        refine ⟨some (asI32 (a.toInt - b.toInt)), ?_, ?_⟩
        · simp only [fold, i128_of_small (by omega : -2 ^ 127 ≤ a.toInt - b.toInt ∧ _),
            Outcome.ok_bind, Outcome.pure_eq]
        · rintro z ⟨⟩
          exact BitVec.toInt_sub
      | mul =>
        refine ⟨some (asI32 (a.toInt * b.toInt)), ?_, ?_⟩
        · simp only [fold, i128_of_small (mul_toInt_bounds a b), Outcome.ok_bind, Outcome.pure_eq]
        · rintro z ⟨⟩
          exact BitVec.toInt_mul a b
      | and | or | xor => exact ⟨none, rfl, by simp⟩

/-! ## The pass beside the machine -/

/-- The names on the stack of the pass, and those of the parameters and the written locals, stand
for what the machine has there. -/
structure Agrees (n : ℕ) (written : List U32) (ρ : Meaning) (s : SsaState)
    (m : Machine) : Prop where
  names : ∀ v x, ρ v = some x → v.version.val < s.version.val
  facts : ρ.Explains s.out.values
  stack : List.Forall₂ (fun v x => ρ v = some x) s.stack m.stack
  locals : ∀ i : U32, i.val < n ∨ i ∈ written →
    ∃ v x, s.locals[i]? = some v ∧ m.locals[i.val]? = some x ∧ ρ v = some x

/-- The pass with one more value, whose name is on the stack. -/
def SsaState.defined (s : SsaState) (version : U32) (fact : ValueFact) : SsaState :=
  { s with
    version
    out := { s.out with values := s.out.values ++ [fact] }
    stack := fact.name :: s.stack }

/-- A name is given a value. -/
def Meaning.bind (ρ : Meaning) (name : SsaName) (x : Value) : Meaning :=
  fun v => if v = name then some x else ρ v

namespace Agrees

variable {n : ℕ} {written : List U32} {ρ : Meaning} {s : SsaState} {m : Machine} {x : Value}

/-- The stacks have the same height. -/
lemma height (h : Agrees n written ρ s m) : s.stack.length = m.stack.length := h.stack.length_eq

/-- A use is noted. -/
lemma use (h : Agrees n written ρ s m) (v : SsaName) (site : U64) :
    Agrees n written ρ (s.use v site) m :=
  ⟨h.names, h.facts.addUse, h.stack, h.locals⟩

/-- The pass takes the name of the value that the machine takes. -/
lemma pop (h : Agrees n written ρ s m) {xs : List Value} (hm : m.stack = x :: xs) (next : U64) :
    ∃ v stack, s.popUse next = (some v, { s.use v next with stack }) ∧ ρ v = some x ∧
      Agrees n written ρ { s.use v next with stack } { m with stack := xs } := by
  have hstack := h.stack
  rw [hm] at hstack
  cases hs : s.stack with
  | nil =>
    rw [hs] at hstack
    cases hstack
  | cons v stack =>
    rw [hs] at hstack
    cases hstack with
    | cons hv hrest =>
      refine ⟨v, stack, ?_, hv, h.names, h.facts.addUse, hrest, h.locals⟩
      simp only [SsaState.popUse, hs]

/-- A name that comes up was not in use. -/
lemma keeps_bind (h : Agrees n written ρ s m) (next : U64) :
    ρ.Keeps (ρ.bind ⟨next, s.version⟩ x) := by
  intro v y hv
  have hne : v ≠ ⟨next, s.version⟩ := by
    rintro rfl
    exact absurd (h.names _ _ hv) (lt_irrefl _)
  rw [Meaning.bind, if_neg hne, hv]

/-- An operator that leaves a value gives it a name. -/
lemma define [Host] (h : Agrees n written ρ s m) (hroom : s.version.val + 1 < 2 ^ 32) (next : U64)
    (ty produced_by : String) (constant : Option ℤ) (hc : ∀ c ∈ constant, x.number = c) :
    ∃ version : U32, version.val = s.version.val + 1 ∧
      s.defVal next ty produced_by constant =
        .ok (s.defined version ⟨⟨next, s.version⟩, ty, constant, [], produced_by⟩) ∧
      Agrees n written (ρ.bind ⟨next, s.version⟩ x)
        (s.defined version ⟨⟨next, s.version⟩, ty, constant, [], produced_by⟩) (m.push x) := by
  have hroom' : s.version.val + (1 : U32).val < 2 ^ 32 := hroom
  have hkeeps : ρ.Keeps (ρ.bind ⟨next, s.version⟩ x) := h.keeps_bind next
  refine ⟨⟨s.version.val + 1, hroom⟩, rfl, ?_, fun v y hv => ?_, fun f hf => ?_, ?_, fun i hi => ?_⟩
  · simp only [SsaState.defVal, addU32_of_lt hroom', Outcome.ok_bind, Outcome.pure_eq]
    rfl
  · by_cases hname : v = ⟨next, s.version⟩
    · rw [hname]
      exact Nat.lt_succ_self _
    · rw [Meaning.bind, if_neg hname] at hv
      exact Nat.lt_succ_of_lt (h.names v y hv)
  · rcases List.mem_append.mp hf with hf | hf
    · exact h.facts.mono hkeeps f hf
    · rw [List.mem_singleton.mp hf]
      exact ⟨x, if_pos rfl, hc⟩
  · exact .cons (if_pos rfl) (h.stack.imp fun v y hv => hkeeps v y hv)
  · obtain ⟨v, y, hs, hm, hv⟩ := h.locals i hi
    exact ⟨v, y, hs, hm, hkeeps v y hv⟩

end Agrees

/-- The pass goes from `s` to `s'` over an operator that takes the machine from `m` to `vm`. -/
structure Follows (n : ℕ) (written : List U32) (ρ : Meaning) (s s' : SsaState) (m : Machine)
    (pos : U64) (op : Operator) (vm : Flow) : Prop where
  version : s'.version.val ≤ s.version.val + 1
  count : s'.out.operator_count = s.out.operator_count
  agrees : ∀ m', vm = .next m' →
    Agrees n (op.writes ++ written) (ρ.extend s.out.values s'.out.values vm) s' m'
  keeps : ρ.Keeps (ρ.extend s.out.values s'.out.values vm)
  facts : (ρ.extend s.out.values s'.out.values vm).Explains s'.out.values
  recorded : ∀ seen, Recorded ρ s.out seen →
    Recorded (ρ.extend s.out.values s'.out.values vm) s'.out (seen.add pos m op)

section Follows

variable {n : ℕ} {written : List U32} {ρ : Meaning} {s s₁ s' : SsaState}
  {m m₁ : Machine} {x : Value}
variable {pos next : U64} {op : Operator} {vm : Flow}

/-- No name comes up. -/
lemma Follows.quiet (hlen : s'.out.values.length = s.out.values.length)
    (hversion : s'.version = s.version) (hcount : s'.out.operator_count = s.out.operator_count)
    (hagrees : ∀ m', vm = .next m' → Agrees n (op.writes ++ written) ρ s' m')
    (hfacts : ρ.Explains s'.out.values)
    (hrecorded : ∀ seen, Recorded ρ s.out seen → Recorded ρ s'.out (seen.add pos m op)) :
    Follows n written ρ s s' m pos op vm := by
  have hρ : ρ.extend s.out.values s'.out.values vm = ρ := Meaning.extend_of_length hlen vm
  refine ⟨by rw [hversion]; omega, hcount, ?_, ?_, ?_, ?_⟩
  · rwa [hρ]
  · rw [hρ]
    exact fun _ _ hv => hv
  · rwa [hρ]
  · rwa [hρ]

/-- A value gets a name when the operands have been taken. -/
lemma Follows.named {fact : ValueFact} (h₁ : Agrees n written ρ s₁ m₁)
    (hlen : s₁.out.values.length = s.out.values.length) (hversion : s₁.version = s.version)
    (hname : fact.name = ⟨next, s₁.version⟩) (hvalues : s'.out.values = s₁.out.values ++ [fact])
    (hversion' : s'.version.val = s₁.version.val + 1)
    (hcount : s'.out.operator_count = s.out.operator_count)
    (hagrees : Agrees n written (ρ.bind fact.name x) s' (m₁.push x)) (hwrites : op.writes = [])
    (hrecorded : ∀ seen, Recorded ρ s.out seen → Recorded ρ s'.out (seen.add pos m op)) :
    Follows n written ρ s s' m pos op (.next (m₁.push x)) := by
  have hρ : ρ.extend s.out.values s'.out.values (.next (m₁.push x)) = ρ.bind fact.name x := by
    rw [hvalues, Meaning.extend_of_append hlen]
    rfl
  have hkeeps : ρ.Keeps (ρ.bind fact.name x) := by
    rw [hname]
    exact h₁.keeps_bind next
  refine ⟨by rw [hversion', hversion], hcount, fun m' hm' => ?_, ?_, ?_, fun seen hseen => ?_⟩
  · cases hm'
    rw [hρ, hwrites]
    exact hagrees
  · rw [hρ]
    exact hkeeps
  · rw [hρ]
    exact hagrees.facts
  · rw [hρ]
    exact (hrecorded seen hseen).mono hkeeps

/-- The lists of the pass other than the values. -/
lemma Recorded.congr {out out' : SsaBody} {seen : Seen} (h : Recorded ρ out seen)
    (hl : out'.local_loads = out.local_loads) (hg : out'.global_stores = out.global_stores)
    (hm : out'.memory_ops = out.memory_ops) (ht : out'.table_index_ops = out.table_index_ops)
    (hb : out'.branch_conditions = out.branch_conditions) : Recorded ρ out' seen := by
  obtain ⟨h1, h2, h3, h4, h5⟩ := h
  exact ⟨hl ▸ h1, hg ▸ h2, hm ▸ h3, ht ▸ h4, hb ▸ h5⟩

variable [Host]

/-- A value gets a name and nothing else is recorded. -/
lemma follows_plain (x : Value) (hvm : vm = .next (m₁.push x)) (hwrites : op.writes = [])
    (hseen : ∀ seen : Seen, seen.add pos m op = seen) (h₁ : Agrees n written ρ s₁ m₁)
    (hroom : s₁.version.val + 1 < 2 ^ 32) (hlen : s₁.out.values.length = s.out.values.length)
    (hversion : s₁.version = s.version) (hout : s₁.out = { s.out with values := s₁.out.values })
    (ty produced_by : String) {constant : Option ℤ} (hc : ∀ c ∈ constant, x.number = c) :
    ∃ s', s₁.defVal next ty produced_by constant = .ok s' ∧
      Follows n written ρ s s' m pos op vm := by
  subst hvm
  obtain ⟨version, hv, hdef, hagrees⟩ := h₁.define hroom next ty produced_by constant hc
  refine ⟨_, hdef, .named h₁ hlen hversion rfl rfl hv ?_ hagrees hwrites fun seen hrec => ?_⟩
  · rw [SsaState.defined, hout]
  · rw [hseen]
    exact hrec.congr (by rw [SsaState.defined, hout]) (by rw [SsaState.defined, hout])
      (by rw [SsaState.defined, hout]) (by rw [SsaState.defined, hout])
      (by rw [SsaState.defined, hout])

/-- A constant. -/
lemma follows_const (op : Operator) (x : Value) (h : Agrees n written ρ s m)
    (hroom : s.version.val + 1 < 2 ^ 32) (ty produced_by : String) (hwrites : op.writes = [])
    (hseen : ∀ seen : Seen, seen.add pos m op = seen) :
    ∃ s', s.defVal next ty produced_by (some x.number) = .ok s' ∧
      Follows n written ρ s s' m pos op (.next (m.push x)) := by
  refine follows_plain x rfl hwrites hseen h hroom rfl rfl rfl ty produced_by ?_
  rintro c ⟨⟩
  rfl

lemma follows_arith {b a : BitVec 32} {xs : List Value} (h : Agrees n written ρ s m)
    (hroom : s.version.val + 1 < 2 ^ 32) (op : I32Arith)
    (hm : m.stack = .i32 b :: .i32 a :: xs) :
    ∃ s', s.arith next op = .ok s' ∧ Follows n written ρ s s' m pos (.i32Arith op)
      (.next { m with stack := .i32 (op.eval a b) :: xs }) := by
  obtain ⟨vb, stack₁, hpop₁, hb, h₁⟩ := h.pop hm next
  obtain ⟨va, stack₂, hpop₂, ha, h₂⟩ := h₁.pop rfl next
  obtain ⟨c, hfold, hc⟩ := fold_sound op (h₂.facts.const_of ha) (h₂.facts.const_of hb)
  simp only [SsaState.arith, hpop₁, hpop₂, hfold, Outcome.ok_bind]
  exact follows_plain (s := s) (m := m) (.i32 (op.eval a b)) rfl rfl (fun _ => rfl) h₂ hroom
    (by simp [SsaState.use]) rfl rfl "i32" op.mnemonic hc

lemma follows_eqz {a : BitVec 32} {xs : List Value} (h : Agrees n written ρ s m)
    (hroom : s.version.val + 1 < 2 ^ 32) (hm : m.stack = .i32 a :: xs) :
    ∃ s', s.eqz next = .ok s' ∧ Follows n written ρ s s' m pos .i32Eqz
      (.next { m with stack := .ofBool (a = 0) :: xs }) := by
  obtain ⟨va, stack, hpop, ha, h₁⟩ := h.pop hm next
  simp only [SsaState.eqz, hpop]
  exact follows_plain (s := s) (m := m) (.ofBool (a = 0)) rfl rfl (fun _ => rfl) h₁ hroom
    (by simp [SsaState.use]) rfl rfl "i32" "i32.eqz" (by simp)

lemma follows_compare {b a : BitVec 32} {xs : List Value} (h : Agrees n written ρ s m)
    (hroom : s.version.val + 1 < 2 ^ 32) (op : I32Compare)
    (hm : m.stack = .i32 b :: .i32 a :: xs) :
    ∃ s', s.compare next op = .ok s' ∧ Follows n written ρ s s' m pos (.i32Compare op)
      (.next { m with stack := .ofBool (op.eval a b) :: xs }) := by
  obtain ⟨vb, stack₁, hpop₁, hb, h₁⟩ := h.pop hm next
  obtain ⟨va, stack₂, hpop₂, ha, h₂⟩ := h₁.pop rfl next
  simp only [SsaState.compare, hpop₁, hpop₂]
  exact follows_plain (s := s) (m := m) (.ofBool (op.eval a b)) rfl rfl (fun _ => rfl) h₂ hroom
    (by simp [SsaState.use]) rfl rfl "i32" op.mnemonic (by simp)

lemma follows_globalGet (h : Agrees n written ρ s m) (hroom : s.version.val + 1 < 2 ^ 32) (i : U32)
    (x : Value) :
    ∃ s', s.globalGet pos next i = .ok s' ∧
      Follows n written ρ s s' m pos (.globalGet i) (.next (m.push x)) := by
  obtain ⟨version, hv, hdef, hagrees⟩ :=
    h.define (x := x) hroom next "global" s!"global.get {i.val}" none (by simp)
  simp only [SsaState.globalGet, hdef, Outcome.ok_bind, SsaState.defined, Outcome.pure_eq]
  refine ⟨_, rfl, .named h rfl rfl rfl rfl hv rfl ?_ rfl fun seen hrec => ?_⟩
  · exact ⟨hagrees.names, hagrees.facts, hagrees.stack, hagrees.locals⟩
  · exact hrec.congr rfl rfl rfl rfl rfl

lemma follows_load (width : ℕ) (memarg : MemArg) {addr x : Value} {xs : List Value}
    (h : Agrees n written ρ s m) (hroom : s.version.val + 1 < 2 ^ 32)
    (hm : m.stack = addr :: xs) (hwrites : op.writes = [])
    (hseen : ∀ seen : Seen, seen.add pos m op =
      { seen with memory_ops := seen.memory_ops ++ [(pos, addr, width, false)] }) :
    ∃ s', s.load pos next width memarg = .ok s' ∧
      Follows n written ρ s s' m pos op (.next { m with stack := x :: xs }) := by
  obtain ⟨va, stack, hpop, ha, h₁⟩ := h.pop hm next
  obtain ⟨version, hv, hdef, hagrees⟩ := h₁.define (x := x) hroom next
    (if width = 4 then "i32" else "i64") s!"load +{memarg.offset.val}" none (by simp)
  simp only [SsaState.load, hpop, hdef, Outcome.ok_bind, SsaState.defined, Outcome.pure_eq]
  refine ⟨_, rfl, .named h₁ (by simp [SsaState.use]) rfl rfl rfl hv rfl ?_ hwrites
    fun seen hrec => ?_⟩
  · exact ⟨hagrees.names, hagrees.facts, hagrees.stack, hagrees.locals⟩
  · rw [hseen]
    exact ⟨hrec.local_loads, hrec.global_stores,
      List.rel_append hrec.memory_ops (.cons ⟨rfl, ha, rfl⟩ .nil), hrec.table_index_ops,
      hrec.branch_conditions⟩

omit [Host] in
lemma follows_localGet (h : Agrees n written ρ s m) (i : U32) (hi : i.val < n ∨ i ∈ written)
    (hm : m.locals[i.val]? = some x) :
    Follows n written ρ s (s.localGet pos i) m pos (.localGet i) (.next (m.push x)) := by
  obtain ⟨v, y, hs, hm', hv⟩ := h.locals i hi
  obtain rfl : y = x := by simpa [hm'] using hm
  simp only [SsaState.localGet, hs]
  have hu := h.use v pos
  refine .quiet (by simp [SsaState.use]) rfl rfl (fun m' hvm => ?_) hu.facts fun seen hrec => ?_
  · cases hvm
    exact ⟨hu.names, hu.facts, .cons hv hu.stack, hu.locals⟩
  · simp only [Seen.add, hm', Option.map_some, Option.toList_some]
    exact ⟨List.rel_append hrec.local_loads (.cons ⟨rfl, rfl, hv⟩ .nil), hrec.global_stores,
      hrec.memory_ops, hrec.table_index_ops, hrec.branch_conditions⟩

omit [Host] in
/-- The locals after a write, on both sides. -/
lemma Agrees.setLocal {v : SsaName} {i : U32} {m' : Machine} (h : Agrees n written ρ s m)
    (hv : ρ v = some x) (hset : m.setLocal i x = some m') :
    Agrees n (i :: written) ρ { s with locals := s.locals.insert i v } m' := by
  obtain ⟨hlt, rfl⟩ := Machine.setLocal_eq_some.mp hset
  refine ⟨h.names, h.facts, h.stack, fun j hj => ?_⟩
  by_cases hji : j = i
  · subst hji
    exact ⟨v, x, by simp, by simp [hlt], hv⟩
  · have hj' : j.val < n ∨ j ∈ written := by
      rcases hj with hj | hj
      · exact .inl hj
      · exact .inr ((List.mem_cons.mp hj).resolve_left hji)
    obtain ⟨w, y, hs, hm, hw⟩ := h.locals j hj'
    have hval : i.val ≠ j.val := fun heq => hji (Fin.ext heq.symm)
    refine ⟨w, y, ?_, ?_, hw⟩
    · rw [getElem?_insert_eq_ite, if_neg hji, hs]
    · simp [List.getElem?_set_ne hval, hm]

omit [Host] in
lemma follows_localSet {xs : List Value} {m' : Machine} (h : Agrees n written ρ s m) (i : U32)
    (hm : m.stack = x :: xs) (hset : ({ m with stack := xs } : Machine).setLocal i x = some m') :
    Follows n written ρ s (s.localSet pos next i false) m pos (.localSet i) (.next m') := by
  obtain ⟨v, stack, hpop, hv, h₁⟩ := h.pop hm next
  have h₂ := h₁.setLocal hv hset
  simp only [SsaState.localSet, hpop]
  refine .quiet (by simp [SsaState.use]) rfl rfl (fun t ht => ?_) h₁.facts fun seen hrec => ?_
  · cases ht
    exact ⟨h₂.names, h₂.facts, h₂.stack, h₂.locals⟩
  · exact hrec.congr rfl rfl rfl rfl rfl

omit [Host] in
lemma follows_localTee {xs : List Value} {m' : Machine} (h : Agrees n written ρ s m) (i : U32)
    (hm : m.stack = x :: xs) (hset : m.setLocal i x = some m') :
    Follows n written ρ s (s.localSet pos next i true) m pos (.localTee i) (.next m') := by
  obtain ⟨v, stack, hpop, hv, h₁⟩ := h.pop hm next
  have hback : Agrees n written ρ { s.use v next with stack := v :: stack } m := by
    refine ⟨h₁.names, h₁.facts, ?_, h₁.locals⟩
    rw [hm]
    exact .cons hv h₁.stack
  have h₂ := hback.setLocal hv hset
  simp only [SsaState.localSet, hpop]
  refine .quiet (by simp [SsaState.use]) rfl rfl (fun t ht => ?_) h₁.facts fun seen hrec => ?_
  · cases ht
    exact ⟨h₂.names, h₂.facts, h₂.stack, h₂.locals⟩
  · exact hrec.congr rfl rfl rfl rfl rfl

omit [Host] in
lemma follows_globalSet {xs : List Value} {world : World} (h : Agrees n written ρ s m) (i : U32)
    (hm : m.stack = x :: xs) :
    Follows n written ρ s (s.globalSet pos next i) m pos (.globalSet i)
      (.next { m with stack := xs, world }) := by
  obtain ⟨v, stack, hpop, hv, h₁⟩ := h.pop hm next
  simp only [SsaState.globalSet, hpop]
  refine .quiet (by simp [SsaState.use]) rfl rfl (fun t ht => ?_) h₁.facts fun seen hrec => ?_
  · cases ht
    exact ⟨h₁.names, h₁.facts, h₁.stack, h₁.locals⟩
  · simp only [Seen.add, hm, List.head?_cons, Option.map_some, Option.toList_some]
    exact ⟨hrec.local_loads, List.rel_append hrec.global_stores (.cons ⟨rfl, rfl, hv⟩ .nil),
      hrec.memory_ops, hrec.table_index_ops, hrec.branch_conditions⟩

omit [Host] in
lemma follows_store (width : ℕ) {addr : Value} {xs : List Value} {world : World}
    (h : Agrees n written ρ s m) (hm : m.stack = x :: addr :: xs) (hwrites : op.writes = [])
    (hseen : ∀ seen : Seen, seen.add pos m op =
      { seen with memory_ops := seen.memory_ops ++ [(pos, addr, width, true)] }) :
    Follows n written ρ s (s.store pos next width) m pos op
      (.next { m with stack := xs, world }) := by
  obtain ⟨v, stack₁, hpop₁, hv, h₁⟩ := h.pop hm next
  obtain ⟨a, stack₂, hpop₂, ha, h₂⟩ := h₁.pop rfl next
  have h₃ := h₂.use v pos
  simp only [SsaState.store, hpop₁, hpop₂]
  refine .quiet (by simp [SsaState.use]) rfl rfl (fun t ht => ?_) h₃.facts fun seen hrec => ?_
  · cases ht
    rw [hwrites]
    exact ⟨h₃.names, h₃.facts, h₃.stack, h₃.locals⟩
  · rw [hseen]
    exact ⟨hrec.local_loads, hrec.global_stores,
      List.rel_append hrec.memory_ops (.cons ⟨rfl, ha, rfl⟩ .nil), hrec.table_index_ops,
      hrec.branch_conditions⟩

omit [Host] in
/-- A value is taken from the stack and nothing comes of it. -/
lemma follows_pop {xs : List Value} (h : Agrees n written ρ s m) (hm : m.stack = x :: xs)
    (hwrites : op.writes = []) (hseen : ∀ seen : Seen, seen.add pos m op = seen)
    (hvm : ∀ m', vm = .next m' → m' = { m with stack := xs }) :
    Follows n written ρ s (s.popUse next).2 m pos op vm := by
  obtain ⟨v, stack, hpop, hv, h₁⟩ := h.pop hm next
  rw [hpop]
  refine .quiet (by simp [SsaState.use]) rfl rfl (fun t ht => ?_) h₁.facts fun seen hrec => ?_
  · rw [hwrites, hvm t ht]
    exact h₁
  · rw [hseen]
    exact hrec.congr rfl rfl rfl rfl rfl

omit [Host] in
/-- `return` takes a value if there is one; the machine is done. -/
lemma follows_return {results : List Value} {m' : Machine} (h : Agrees n written ρ s m) :
    Follows n written ρ s (s.popUse next).2 m pos .return_ (.done results m') := by
  have hdone : ∀ t, Flow.done results m' = .next t →
      Agrees n written ρ (s.popUse next).2 t := by
    rintro t ⟨⟩
  rw [SsaState.popUse] at hdone ⊢
  split
  · exact .quiet (by simp [SsaState.use]) rfl rfl (fun t ht => by cases ht) h.facts.addUse
      fun seen hrec => hrec.congr rfl rfl rfl rfl rfl
  · exact .quiet rfl rfl rfl (fun t ht => by cases ht) h.facts
      fun seen hrec => hrec.congr rfl rfl rfl rfl rfl

omit [Host] in
lemma follows_brIf {depth : U32} {xs : List Value} (h : Agrees n written ρ s m)
    (hm : m.stack = x :: xs) (hvm : ∀ m', vm = .next m' → m' = { m with stack := xs }) :
    Follows n written ρ s (s.brIf pos next) m pos (.brIf depth) vm := by
  obtain ⟨v, stack, hpop, hv, h₁⟩ := h.pop hm next
  simp only [SsaState.brIf, hpop]
  refine .quiet (by simp [SsaState.use]) rfl rfl (fun t ht => ?_) h₁.facts fun seen hrec => ?_
  · rw [hvm t ht]
    exact ⟨h₁.names, h₁.facts, h₁.stack, h₁.locals⟩
  · simp only [Seen.add, hm, List.head?_cons, Option.map_some, Option.toList_some]
    exact ⟨hrec.local_loads, hrec.global_stores, hrec.memory_ops, hrec.table_index_ops,
      List.rel_append hrec.branch_conditions (.cons ⟨rfl, hv⟩ .nil)⟩

omit [Host] in
lemma follows_brTable {targets : List U32} {default : U32} {xs results : List Value} {m' : Machine}
    (h : Agrees n written ρ s m) (hm : m.stack = x :: xs) :
    Follows n written ρ s (s.brTable pos next) m pos (.brTable targets default)
      (.done results m') := by
  obtain ⟨v, stack, hpop, hv, h₁⟩ := h.pop hm next
  simp only [SsaState.brTable, hpop]
  refine .quiet (by simp [SsaState.use]) rfl rfl (fun t ht => by cases ht) h₁.facts
    fun seen hrec => ?_
  simp only [Seen.add, hm, List.head?_cons, Option.map_some, Option.toList_some]
  exact ⟨hrec.local_loads, hrec.global_stores, hrec.memory_ops,
    List.rel_append hrec.table_index_ops (.cons ⟨rfl, hv⟩ .nil), hrec.branch_conditions⟩

omit [Host] in
/-- A call without parameters and results. -/
lemma follows_call {I : Instance} {f : U32} {m' : Machine} (h : Agrees n written ρ s m)
    (harity : I.arity f = some (0, 0)) (hcall : m.call I f = some m') :
    Follows n written ρ s
      { s with out := { s.out with call_args := s.out.call_args ++ [(pos, f, [])] } } m
      pos (.call f)
      (.next m') := by
  obtain ⟨params, results, values, world, harity', -, -, hlen, rfl⟩ := Machine.call_eq_some.mp hcall
  obtain ⟨rfl, rfl⟩ : params = 0 ∧ results = 0 := by simpa [harity] using harity'.symm
  obtain rfl : values = [] := List.length_eq_zero_iff.mp hlen
  refine .quiet rfl rfl rfl (fun t ht => ?_) h.facts fun seen hrec => ?_
  · cases ht
    exact ⟨h.names, h.facts, h.stack, h.locals⟩
  · exact hrec.congr rfl rfl rfl rfl rfl

end Follows

/-- What the pass models: a local that is read is a parameter or has been written, and a function
that is called takes no arguments and gives no results. -/
def Tandem.Plain (I : Instance) (n : ℕ) (t : Tandem) (e : U64 × Operator) : Prop :=
  match e.2 with
  | .localGet i => i.val < n ∨ i ∈ t.written
  | .call f => I.arity f = some (0, 0)
  | _ => True

instance (I : Instance) (n : ℕ) (t : Tandem) (e : U64 × Operator) : Decidable (t.Plain I n e) := by
  rw [Tandem.Plain]
  split <;> infer_instance

/-- One operator, in the pass and in the machine. -/
lemma operator_follows [Host] [Wasmparser] {I : Instance} {results n : ℕ} {written : List U32}
    {ρ : Meaning} {s : SsaState} {m : Machine} {op : Operator} {vm : Flow} (pos next : U64)
    (h : Agrees n written ρ s m) (hroom : s.version.val + 1 < 2 ^ 32) (hend : op ≠ .end_)
    (hlocal : ∀ i, op = .localGet i → i.val < n ∨ i ∈ written)
    (hcall : ∀ f, op = .call f → I.arity f = some (0, 0)) (hexec : m.exec I results op = some vm) :
    ∃ s', s.operator pos op next = .ok s' ∧ Follows n written ρ s s' m pos op vm := by
  cases op with
  | i32Const v =>
    cases hexec
    exact follows_const (.i32Const v) (.i32 v) h hroom _ _ rfl fun _ => rfl
  | i64Const v =>
    cases hexec
    exact follows_const (.i64Const v) (.i64 v) h hroom _ _ rfl fun _ => rfl
  | f32Const v =>
    cases hexec
    exact follows_const (.f32Const v) (.f32 v) h hroom _ _ rfl fun _ => rfl
  | f64Const v =>
    cases hexec
    exact follows_const (.f64Const v) (.f64 v) h hroom _ _ rfl fun _ => rfl
  | localGet i =>
    obtain ⟨x, hx, rfl⟩ := Machine.localGet_eq_some.mp hexec
    exact ⟨_, rfl, follows_localGet h i (hlocal i rfl) hx⟩
  | localSet i =>
    obtain ⟨x, xs, m', hm, hset, rfl⟩ := Machine.localSet_eq_some.mp hexec
    exact ⟨_, rfl, follows_localSet h i hm hset⟩
  | localTee i =>
    obtain ⟨x, xs, m', hm, hset, rfl⟩ := Machine.localTee_eq_some.mp hexec
    exact ⟨_, rfl, follows_localTee h i hm hset⟩
  | globalGet i =>
    obtain ⟨x, -, rfl⟩ := Machine.globalGet_eq_some.mp hexec
    exact follows_globalGet h hroom i x
  | globalSet i =>
    obtain ⟨x, xs, world, hm, -, rfl⟩ := Machine.globalSet_eq_some.mp hexec
    exact ⟨_, rfl, follows_globalSet h i hm⟩
  | i32Load memarg | i64Load memarg =>
    obtain ⟨addr, xs, x, hm, -, rfl⟩ := Machine.load_eq_some.mp hexec
    exact follows_load _ memarg h hroom hm rfl fun _ => by simp [Seen.add, hm]
  | i32Store memarg | i64Store memarg =>
    obtain ⟨x, addr, xs, world, hm, -, rfl⟩ := Machine.store_eq_some.mp hexec
    exact ⟨_, rfl, follows_store _ h hm rfl fun _ => by simp [Seen.add, hm]⟩
  | i32Arith op =>
    obtain ⟨b, a, xs, hm, rfl⟩ := Machine.binary_eq_some.mp hexec
    exact follows_arith h hroom op hm
  | i32Eqz =>
    obtain ⟨a, xs, hm, rfl⟩ := Machine.eqz_eq_some.mp hexec
    exact follows_eqz h hroom hm
  | i32Compare op =>
    obtain ⟨b, a, xs, hm, rfl⟩ := Machine.binary_eq_some.mp hexec
    exact follows_compare h hroom op hm
  | brIf depth =>
    obtain ⟨x, xs, hm, hvm⟩ := Machine.brIf_eq_some hexec
    exact ⟨_, rfl, follows_brIf h hm hvm⟩
  | brTable targets default =>
    obtain ⟨x, xs, values, m', hm, rfl⟩ := Machine.brTable_eq_some hexec
    exact ⟨_, rfl, follows_brTable h hm⟩
  | call f =>
    obtain ⟨m', hm', rfl⟩ := Option.map_eq_some_iff.mp hexec
    exact ⟨_, rfl, follows_call h (hcall f rfl) hm'⟩
  | return_ =>
    obtain ⟨-, rfl⟩ := Machine.ret_eq_some.mp hexec
    exact ⟨_, rfl, follows_return h⟩
  | drop =>
    obtain ⟨x, xs, hm, rfl⟩ := Machine.drop_eq_some.mp hexec
    refine ⟨_, rfl, follows_pop h hm rfl (fun _ => rfl) ?_⟩
    rintro m' ⟨⟩
    rfl
  | end_ => exact absurd rfl hend
  | block | loop | if_ | else_ | try_ | tryTable | br | callIndirect | returnCall
  | returnCallIndirect | unreachable | other => cases hexec

/-! ## Whole runs -/

namespace SsaState

/-- The parameters are the first names. -/
lemma params_spec [Host] (n : ℕ) (h : n < 2 ^ 32) :
    ∃ s, params n = .ok s ∧ s.version.val = n ∧ s.stack = [] ∧ s.out.operator_count = 0 ∧
      Recorded (fun _ => none) s.out .empty ∧
      (∀ f ∈ s.out.values, ∃ i < n, f.name = ⟨0, asU32 i⟩ ∧ f.constant = none) ∧
      ∀ i < n, s.locals[asU32 i]? = some ⟨0, asU32 i⟩ := by
  induction n with
  | zero =>
    refine ⟨⟨.default, [], 0, ∅⟩, rfl, rfl, rfl, rfl, ⟨.nil, .nil, .nil, .nil, .nil⟩, ?_, ?_⟩
    · intro f hf
      cases hf
    · intro i hi
      cases hi
  | succ n ih =>
    obtain ⟨s, hs, hversion, hstack, hcount, hrec, hvalues, hlocals⟩ := ih (by omega)
    have hroom : s.version.val + (1 : U32).val < 2 ^ 32 := by
      rw [hversion]
      exact h
    -- the next name is the next parameter
    have hname : s.version = asU32 n := by
      refine Fin.ext ?_
      rw [hversion]
      exact (Nat.mod_eq_of_lt (by omega)).symm
    rw [params, hs]
    simp only [Outcome.ok_bind, addU32_of_lt hroom, Outcome.pure_eq]
    refine ⟨_, rfl, ?_, hstack, hcount, ⟨hrec.1, hrec.2, hrec.3, hrec.4, hrec.5⟩, ?_, ?_⟩
    · simp only [hversion]
      rfl
    · intro f hf
      rcases List.mem_append.mp hf with hf | hf
      · obtain ⟨i, hi, hf⟩ := hvalues f hf
        exact ⟨i, by omega, hf⟩
      · rw [List.mem_singleton.mp hf]
        exact ⟨n, by omega, by rw [hname], rfl⟩
    · intro i hi
      rw [getElem?_insert_eq_ite, hname]
      split
      · rename_i heq
        rw [heq]
      · rename_i hne
        refine hlocals i (lt_of_le_of_ne (by omega) ?_)
        rintro rfl
        exact hne rfl

lemma counted_eq_ok {s s' : SsaState} : s.counted = .ok s' ↔
    s.out.operator_count + 1 ≤ 5000000 ∧
      s' = { s with out := { s.out with operator_count := s.out.operator_count + 1 } } := by
  rw [counted]
  split
  · rename_i hlt
    exact ⟨fun h => (by cases h), fun h => absurd h.1 (by omega)⟩
  · rename_i hlt
    rw [Outcome.ok.injEq, @eq_comm _ s']
    exact ⟨fun h => ⟨by omega, h⟩, fun h => h.2⟩

end SsaState

/-- The pass and the machine after some operators of a function with `n` parameters. -/
structure Tracks (n : ℕ) (t : Tandem) : Prop where
  room : t.ssa.version.val ≤ n + t.ssa.out.operator_count
  count : t.ssa.out.operator_count ≤ 5000000
  agrees : ∀ m, t.vm = .next m → Agrees n t.written t.meaning t.ssa m
  facts : t.meaning.Explains t.ssa.out.values
  recorded : Recorded t.meaning t.ssa.out t.seen

lemma tracks_start [Host] [Wasmparser] (body : List U8) {ssa : SsaState} (args locals : List Value)
    (world : World) (hlt : args.length < 2 ^ 32) (hssa : SsaState.params args.length = .ok ssa) :
    Tracks args.length (.start body ssa args locals world) := by
  obtain ⟨s, hs, hversion, hstack, hcount, hrec, hvalues, hlocals⟩ :=
    SsaState.params_spec args.length hlt
  obtain rfl : ssa = s := by simpa [hssa] using hs
  have hval : ∀ i < args.length, (asU32 i).val = i := fun i hi => Nat.mod_eq_of_lt (by omega)
  have hfacts : (Tandem.start body ssa args locals world).meaning.Explains ssa.out.values := by
    intro f hf
    obtain ⟨i, hi, hname, hconst⟩ := hvalues f hf
    exact ⟨args[i], by simp [Tandem.start, hname, hval i hi, hi], by simp [hconst]⟩
  refine ⟨?_, ?_, fun m hm => ⟨fun v x hv => ?_, hfacts, ?_, fun i hi => ?_⟩, hfacts, ?_⟩
  · simp only [Tandem.start, hversion, hcount]
    omega
  · simp only [Tandem.start, hcount]
    omega
  · simp only [Tandem.start] at hv ⊢
    split at hv
    · rw [hversion]
      exact (List.getElem?_eq_some_iff.mp hv).1
    · cases hv
  · cases hm
    simp only [Tandem.start, hstack]
    exact .nil
  · cases hm
    -- nothing has been written yet, so the local is a parameter
    have hi' : i.val < args.length := hi.resolve_right (by simp [Tandem.start])
    have hname : asU32 i.val = i := Fin.ext (hval _ hi')
    refine ⟨⟨0, i⟩, args[i.val], ?_, ?_, ?_⟩
    · rw [← hname]
      exact hlocals i.val hi'
    · exact (List.getElem?_append_left hi').trans (List.getElem?_eq_getElem hi')
    · simp [Tandem.start, hi']
  · exact hrec.mono fun v x hv => by cases hv

/-- What an operator needs and does in the pass and the machine. -/
lemma Tandem.act_eq_some [Host] [Wasmparser] {I : Instance} {results : ℕ} {t t' : Tandem}
    {e : U64 × Operator} (h : t.act I results e = some t') :
    ∃ rest m vm ssa, t.reader = .read e.1 e.2 rest ∧ t.vm = .next m ∧
      m.exec I results e.2 = some vm ∧
      t.ssa.advance e.1 e.2 rest.original_position = .ok ssa ∧
      t' = ⟨rest, ssa, vm, t.meaning.extend t.ssa.out.values ssa.out.values vm,
        e.2.writes ++ t.written, t.seen.add e.1 m e.2⟩ := by
  rw [Tandem.act] at h
  split at h
  case h_1 pos op rest m hreader hvm =>
    split at h
    case isTrue he =>
      subst he
      simp only [Option.bind_eq_bind, Option.bind_eq_some_iff] at h
      obtain ⟨vm, hexec, ssa, hssa, h⟩ := h
      cases h
      exact ⟨rest, m, vm, ssa, hreader, hvm, hexec, Outcome.mem_value?.mp hssa, rfl⟩
    case isFalse => cases h
  case h_2 => cases h

/-- One operator that the pass models. -/
lemma Tracks.step [Host] [Wasmparser] {I : Instance} {results n : ℕ} {t t' : Tandem}
    {e : U64 × Operator} (h : Tracks n t) (hn : n + 5000000 < 2 ^ 32)
    (hplain : t.Plain I n e) (hact : t.act I results e = some t') : Tracks n t' := by
  obtain ⟨rest, m, vm, ssa, hreader, hvm, hexec, hssa, rfl⟩ := Tandem.act_eq_some hact
  obtain ⟨pos, op⟩ := e
  have hroom := h.room
  have hag := h.agrees m hvm
  obtain ⟨s₁, hcounted, hssa⟩ := Outcome.bind_eq_ok.mp hssa
  obtain ⟨hle, rfl⟩ := SsaState.counted_eq_ok.mp hcounted
  have hag₁ : Agrees n t.written t.meaning
      { t.ssa with out := { t.ssa.out with operator_count := t.ssa.out.operator_count + 1 } } m :=
    ⟨hag.names, hag.facts, hag.stack, hag.locals⟩
  have hrec₁ : Recorded t.meaning { t.ssa.out with operator_count := t.ssa.out.operator_count + 1 }
      t.seen := h.recorded.congr rfl rfl rfl rfl rfl
  -- the count goes up by one, and the names by one at most: both have room
  by_cases hend : op = .end_
  · subst hend
    cases hssa
    have hdone : ∀ m', vm ≠ .next m' := by
      rintro m' rfl
      exact Machine.exec_end_ne_next _ _ _ _ hexec
    simp only [Meaning.extend_of_length rfl]
    refine ⟨?_, hle, fun m' hm' => absurd hm' (hdone m'), h.facts, hrec₁⟩
    simp only
    omega
  · rw [if_neg hend] at hssa
    obtain ⟨s', hs', hf⟩ := operator_follows pos rest.original_position hag₁
      (by simp only; omega) hend
      (fun i hi => by subst hi; exact hplain) (fun f hf => by subst hf; exact hplain) hexec
    obtain rfl : ssa = s' := by simpa [hs'] using hssa.symm
    refine ⟨?_, ?_, hf.agrees, hf.facts, hf.recorded _ hrec₁⟩
    · have hv := hf.version
      have hc := hf.count
      simp only at hv hc ⊢
      omega
    · rw [hf.count]
      exact hle

/-! ## The rest of the pass -/

/-- The rest of the pass only adds to what has been recorded. -/
structure SsaBody.Begins (a b : SsaBody) : Prop where
  values : a.values.map ValueFact.key <+: b.values.map ValueFact.key
  local_loads : a.local_loads <+: b.local_loads
  global_stores : a.global_stores <+: b.global_stores
  memory_ops : a.memory_ops <+: b.memory_ops
  table_index_ops : a.table_index_ops <+: b.table_index_ops
  branch_conditions : a.branch_conditions <+: b.branch_conditions

namespace SsaBody.Begins

variable {a b c : SsaBody}

lemma refl (a : SsaBody) : a.Begins a :=
  ⟨List.prefix_rfl, List.prefix_rfl, List.prefix_rfl, List.prefix_rfl, List.prefix_rfl,
    List.prefix_rfl⟩

lemma trans (h : a.Begins b) (h' : b.Begins c) : a.Begins c :=
  ⟨h.values.trans h'.values, h.local_loads.trans h'.local_loads,
    h.global_stores.trans h'.global_stores, h.memory_ops.trans h'.memory_ops,
    h.table_index_ops.trans h'.table_index_ops, h.branch_conditions.trans h'.branch_conditions⟩

lemma popUse (s : SsaState) (next : U64) : s.out.Begins (s.popUse next).2.out := by
  rw [SsaState.popUse]
  split
  · exact { refl s.out with
      values := by
        simp only [SsaState.use, map_addUse]
        exact List.prefix_rfl }
  · exact { refl s.out with }

lemma use (s : SsaState) (v : SsaName) (site : U64) : s.out.Begins (s.use v site).out :=
  { refl s.out with values := by simp only [SsaState.use, map_addUse]; exact List.prefix_rfl }

variable [Host]

lemma defVal {s s' : SsaState} {next : U64} {ty produced_by : String} {constant : Option ℤ}
    (h : s.defVal next ty produced_by constant = .ok s') : s.out.Begins s'.out := by
  obtain ⟨version, -, h⟩ := Outcome.bind_eq_ok.mp h
  cases h
  exact { refl s.out with values := by simp only [List.map_append]; exact List.prefix_append _ _ }

/-- One operator. -/
lemma operator [Wasmparser] {s s' : SsaState} {pos next : U64} {op : Operator}
    (h : s.operator pos op next = .ok s') : s.out.Begins s'.out := by
  have happ {α : Type} (l l' : List α) : l <+: l ++ l' := List.prefix_append l l'
  cases op with
  | i32Const v | i64Const v | f32Const v | f64Const v => exact defVal h
  | localGet i =>
    cases h
    rw [SsaState.localGet]
    split
    · rename_i v hv
      exact (use s v pos).trans { refl _ with local_loads := happ _ _ }
    · exact refl _
  | localSet i | localTee i =>
    cases h
    have hpop := popUse s next
    rw [SsaState.localSet]
    split
    · rename_i v s₁ heq
      rw [heq] at hpop
      exact hpop.trans { refl _ with }
    · rename_i s₁ heq
      rwa [heq] at hpop
  | globalGet i =>
    obtain ⟨s₁, hdef, h⟩ := Outcome.bind_eq_ok.mp h
    cases h
    split
    · exact (defVal hdef).trans { refl _ with }
    · exact defVal hdef
  | globalSet i =>
    cases h
    have hpop := popUse s next
    rw [SsaState.globalSet]
    split
    · rename_i v s₁ heq
      rw [heq] at hpop
      exact hpop.trans { refl _ with global_stores := happ _ _ }
    · rename_i s₁ heq
      rwa [heq] at hpop
  | i32Load memarg | i64Load memarg =>
    obtain ⟨s₁, hdef, h⟩ := Outcome.bind_eq_ok.mp h
    cases h
    have hdef' := (popUse s next).trans (defVal hdef)
    split
    · exact hdef'.trans { refl _ with memory_ops := happ _ _ }
    · exact hdef'
  | i32Store memarg | i64Store memarg =>
    cases h
    have hpop := (popUse s next).trans (popUse (s.popUse next).2 next)
    rw [SsaState.store]
    dsimp only
    split
    · rename_i a v ha hv
      exact (hpop.trans (use _ v pos)).trans { refl _ with memory_ops := happ _ _ }
    · exact hpop
  | i32Arith op =>
    obtain ⟨folded, -, h⟩ := Outcome.bind_eq_ok.mp h
    exact ((popUse s next).trans (popUse (s.popUse next).2 next)).trans (defVal h)
  | i32Eqz => exact (popUse s next).trans (defVal h)
  | i32Compare op =>
    exact ((popUse s next).trans (popUse (s.popUse next).2 next)).trans (defVal h)
  | brIf depth =>
    cases h
    have hpop := popUse s next
    rw [SsaState.brIf]
    split
    · rename_i v s₁ heq
      rw [heq] at hpop
      exact hpop.trans { refl _ with branch_conditions := happ _ _ }
    · rename_i s₁ heq
      rwa [heq] at hpop
  | brTable targets default =>
    cases h
    have hpop := popUse s next
    rw [SsaState.brTable]
    split
    · rename_i v s₁ heq
      rw [heq] at hpop
      exact hpop.trans { refl _ with table_index_ops := happ _ _ }
    · rename_i s₁ heq
      rwa [heq] at hpop
  | return_ | drop =>
    cases h
    exact popUse s next
  | call f | block | loop | if_ | else_ | try_ | tryTable | br | callIndirect | returnCall
  | returnCallIndirect | unreachable | end_ | other =>
    cases h
    exact { refl s.out with }

/-- The whole rest. -/
lemma run [Wasmparser] {r : OperatorsReader} {s : SsaState} {out : SsaBody}
    (h : SsaState.run r s = .ok out) : s.out.Begins out := by
  induction r generalizing s with
  | eof position =>
    cases h
    exact refl _
  | failed position offset message => cases h
  | read pos op rest ih =>
    obtain ⟨s₁, hcounted, h⟩ := Outcome.bind_eq_ok.mp h
    obtain ⟨-, rfl⟩ := SsaState.counted_eq_ok.mp hcounted
    have hcount : s.out.Begins { s.out with operator_count := s.out.operator_count + 1 } :=
      { refl s.out with }
    split at h
    · cases h
      exact hcount
    · obtain ⟨s₂, hop, h⟩ := Outcome.bind_eq_ok.mp h
      exact hcount.trans ((operator hop).trans (ih h))

end SsaBody.Begins

/-- What the whole pass gives goes on from here. -/
structure Tandem.LeadsTo [Host] [Wasmparser] (t : Tandem) (out : SsaBody) : Prop where
  rest : ∀ m, t.vm = .next m → SsaState.run t.reader t.ssa = .ok out
  begins : t.ssa.out.Begins out

lemma Tandem.LeadsTo.step [Host] [Wasmparser] {I : Instance} {results : ℕ} {t t' : Tandem}
    {e : U64 × Operator} {out : SsaBody} (h : t.LeadsTo out)
    (hact : t.act I results e = some t') : t'.LeadsTo out := by
  obtain ⟨rest, m, vm, ssa, hreader, hvm, hexec, hssa, rfl⟩ := Tandem.act_eq_some hact
  have hrun := h.rest m hvm
  rw [hreader] at hrun
  obtain ⟨s₁, hcounted, hrun⟩ := Outcome.bind_eq_ok.mp hrun
  obtain ⟨s₁', hcounted', hssa⟩ := Outcome.bind_eq_ok.mp hssa
  obtain rfl : s₁ = s₁' := by simpa [hcounted] using hcounted'
  split at hrun
  · rename_i hend
    rw [if_pos hend] at hssa
    cases hrun
    cases hssa
    refine ⟨fun m' hm' => ?_, .refl _⟩
    dsimp only at hm'
    subst hm'
    rw [hend] at hexec
    exact absurd hexec (Machine.exec_end_ne_next _ _ _ _)
  · rename_i hend
    rw [if_neg hend] at hssa
    rw [hssa] at hrun
    exact ⟨fun _ _ => hrun, .run hrun⟩

/-- The steps of the pass beside the machine, in a function with `results` results. -/
def Advances [Host] [Wasmparser] (I : Instance) (results : ℕ) (t : Tandem) (e : U64 × Operator)
    (t' : Tandem) : Prop := t.act I results e = some t'

/-- In every execution of a body that reads only parameters and locals that it has written, and
calls only functions without parameters and results: at every point the stack of the pass is as high
as the operand stack, what is recorded up to there has the names of the values that were read,
written, used as an address, an index or a condition, every name stands for a value, and its
constant, where it has one, is that value.  What the whole pass gives goes on from what is recorded
there. -/
theorem values_sound [Host] [Wasmparser] (I : Instance) (results : ℕ) (body : List U8)
    (args locals : List Value) (world : World) {ssa : SsaState}
    {tr : List ((U64 × Operator) × Tandem)} (hparams : args.length + 5000000 < 2 ^ 32)
    (hssa : SsaState.params args.length = .ok ssa)
    (hrun : Run (Advances I results) (.start body ssa args locals world) tr)
    (hplain : Along (Tandem.Plain I args.length) (.start body ssa args locals world) tr) :
    ∀ t ∈ statesOf (.start body ssa args locals world) tr,
      (∀ m, t.vm = .next m → t.ssa.stack.length = m.stack.length) ∧
      Recorded t.meaning t.ssa.out t.seen ∧ t.meaning.Explains t.ssa.out.values ∧
      ∀ out, analyze_values body args.length = .ok out → t.ssa.out.Begins out := by
  intro t ht
  have htracks : Tracks args.length t :=
    hrun.invariant hplain (tracks_start body args locals world (by omega) hssa)
      (fun _ _ _ hs hp hi => hi.step hparams hp hs) t ht
  refine ⟨fun m hm => (htracks.agrees m hm).height, htracks.recorded, htracks.facts,
    fun out hout => ?_⟩
  have hstart : (Tandem.start body ssa args locals world).LeadsTo out := by
    obtain ⟨s, hs, hout⟩ := Outcome.bind_eq_ok.mp hout
    obtain rfl : ssa = s := by simpa [hssa] using hs
    exact ⟨fun _ _ => hout, .run hout⟩
  have hleads : t.LeadsTo out :=
    hrun.invariant hplain hstart (fun _ _ _ hs _ hi => Tandem.LeadsTo.step hi hs) t ht
  exact hleads.begins

/-- An instance without globals and memories, whose functions take one argument and give nothing. -/
def Instance.sink : Instance := ⟨fun _ => some (1, 0), fun _ _ w => some ([], w)⟩

/-- Two arguments are added in a declared local. -/
theorem values_sound_add :
    letI : Host := Host.ascii true
    letI : Wasmparser := .basic
    let body : List U8 := [0x20, 0, 0x20, 1, 0x6a, 0x22, 2, 0x20, 2, 0x6b, 0x0b]
    ∃ ssa, SsaState.params 2 = .ok ssa ∧
      let start := Tandem.start body ssa [.i32 3, .i32 4] [.i32 0] ⟨[], []⟩
      let tr := follow (Tandem.act Instance.sink 1) start
        [(0, .localGet 0), (2, .localGet 1), (4, .i32Arith .add), (5, .localTee 2),
          (7, .localGet 2), (9, .i32Arith .sub), (10, .end_)]
      tr.length = 7 ∧ ∀ t ∈ statesOf start tr, t.meaning.Explains t.ssa.out.values := by
  let _ : Host := Host.ascii true
  let _ : Wasmparser := .basic
  intro body
  refine ⟨_, rfl, by decide +kernel, fun t ht => ?_⟩
  refine (values_sound Instance.sink 1 body [.i32 3, .i32 4] [.i32 0] ⟨[], []⟩ (by decide) rfl
    (follow_run _ _ _) (by decide +kernel) t ht).2.2.1

/-- `local.get` of a declared local that has not been written leaves nothing on the stack of the
pass, and the argument of a call stays there. -/
theorem values_unsound :
    letI : Host := Host.ascii true
    letI : Wasmparser := .basic
    let read : List U8 := [0x20, 0, 0x1a, 0x0b]
    let call : List U8 := [0x20, 0, 0x10, 0, 0x0b]
    ∃ none one, SsaState.params 0 = .ok none ∧ SsaState.params 1 = .ok one ∧
      (∃ ops, (Wasmparser.operators read).decoded = some ops ∧
        Context.Valid ⟨[.i32], [], [], [], []⟩ ops) ∧
      (∃ ops, (Wasmparser.operators call).decoded = some ops ∧
        Context.Valid ⟨[.i32], [], [], [([.i32], [])], []⟩ ops) ∧
      let start := Tandem.start read none [] [.i32 0] ⟨[], []⟩
      let start' := Tandem.start call one [.i32 0] [] ⟨[], []⟩
      (∃ t ∈ statesOf start (follow (Tandem.act Instance.sink 0) start [(0, .localGet 0)]),
        ∃ m, t.vm = .next m ∧ t.ssa.stack.length = 0 ∧ m.stack.length = 1) ∧
      (∃ t ∈ statesOf start' (follow (Tandem.act Instance.sink 0) start'
          [(0, .localGet 0), (2, .call 0)]),
        ∃ m, t.vm = .next m ∧ t.ssa.stack.length = 1 ∧ m.stack.length = 0) := by
  let _ : Host := Host.ascii true
  let _ : Wasmparser := .basic
  intro read call
  refine ⟨_, _, rfl, rfl, ⟨_, rfl, by decide⟩, ⟨_, rfl, by decide⟩, ?_, ?_⟩
  · exact ⟨_, List.mem_cons_of_mem _ (List.mem_singleton_self _), _, rfl, rfl, rfl⟩
  · exact ⟨_, List.mem_cons_of_mem _ (List.mem_cons_of_mem _ (List.mem_singleton_self _)), _, rfl,
      rfl, rfl⟩

end ReverseMcp.Wasm
