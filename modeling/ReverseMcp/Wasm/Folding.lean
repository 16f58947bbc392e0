import Mathlib.Algebra.Order.Ring.Abs
import Mathlib.Data.Int.Cast.Lemmas
import ReverseMcp.Wasm.Decoder
import ReverseMcp.Wasm.SsaCoverage
import ReverseMcp.Wasm.UseDef

/-!
# Constant folding

`analyze_values` folds operations of `i32` on whatever constants their operands have, in `i128`.
Most constants are below `2 ^ 64` in size and signed, which leaves room for a product.  The bits of
an `f64` are unsigned, so the product of two of them may be beyond `i128`, and this is the only way
to overflow (`folding_exact_iff`).
-/

namespace ReverseMcp.Wasm

open Rust

/-- What produced a value; nothing did a parameter. -/
abbrev Origin : Type := Option Operator

/-- The values by what produced them, behind the operators of a function. -/
def origins (n_params : ℕ) (ops : List (U64 × Operator)) : ValueFlow Origin :=
  (ValueFlow.start (fun _ => none) n_params).after (fun _ op => some op) ops

/-- The operation on 32 bits, of those that are folded. -/
def I32Arith.wrapped : I32Arith → Option (BitVec 32 → BitVec 32 → BitVec 32)
  | add => some (· + ·)
  | sub => some (· - ·)
  | mul => some (· * ·)
  | _ => none

/-- The constants of the two operands on top, the first one first. -/
def SsaState.operands (s : SsaState) (next : U64) : Option ℤ × Option ℤ :=
  let b := s.popUse next
  let a := b.2.popUse next
  (const_of a.2.out a.1, const_of a.2.out b.1)

section
variable [Host] [Wasmparser]

/-- The loop of the pass comes from one reader and state to another. -/
inductive SsaState.Reaches : OperatorsReader → SsaState → OperatorsReader → SsaState → Prop
  | here {r : OperatorsReader} {s : SsaState} : Reaches r s r s
  | next {pos : U64} {op : Operator} {rest r : OperatorsReader} {s s₁ s₂ s' : SsaState}
      (hcounted : s.counted = .ok s₁) (hend : op ≠ .end_)
      (hop : s₁.operator pos op rest.original_position = .ok s₂)
      (hrest : Reaches rest s₂ r s') : Reaches (.read pos op rest) s r s'

/-- No operation on `i128` overflows at an operator, and constants of 32 bits are folded to the
wrapped result. -/
structure FoldsExactly (s : SsaState) (pos next : U64) (op : I32Arith) : Prop where
  inRange : foldOverflows op (s.operands next).1 (s.operands next).2 = false
  wraps : ∀ f x y, op.wrapped = some f → s.operands next = (some x.toInt, some y.toInt) →
    ∀ s', s.operator pos (.i32Arith op) next = .ok s' →
      s'.out.values.getLast?.bind (·.constant) = some (f x y).toInt

/-- The folding is exact wherever the pass comes to an operation on a body. -/
def FoldsThroughout (body : List U8) (n_params : ℕ) : Prop :=
  ∀ s₀ pos op rest s s₁, SsaState.params n_params = .ok s₀ →
    SsaState.Reaches (Wasmparser.operators body) s₀ (.read pos (.i32Arith op) rest) s →
      s.counted = .ok s₁ → FoldsExactly s₁ pos rest.original_position op

end

/-- The pass comes to what stands behind these operators, unless an operation overflows: they end
no construct, their number is within the budget, and, where additions are checked, the values have
numbers. -/
structure WithinReach [Host] (n_params : ℕ) (front : List (U64 × Operator)) : Prop where
  noEnd : ∀ e ∈ front, e.2 ≠ .end_
  budget : front.length < 5000000
  numbers : Host.overflowChecks = true → n_params + front.countP (fun e => e.2.gives) < 2 ^ 32

/-! ## The size of the constants -/

/-- The constant of a value, by what produced it. -/
def Origin.Made (o : Origin) (c : Option ℤ) : Prop :=
  match o with
  | some (.f64Const bits) => c = some bits.toNat
  | _ => ∀ z ∈ c, -2 ^ 63 ≤ z ∧ z < 2 ^ 63

/-- A constant that is not the bits of an `f64`. -/
lemma Origin.made_of_small {o : Origin} {c : Option ℤ} (ho : ∀ bits, o ≠ some (.f64Const bits))
    (hc : ∀ z ∈ c, -2 ^ 63 ≤ z ∧ z < 2 ^ 63) : o.Made c := by
  rw [Made.eq_def]
  split
  · next bits => exact absurd rfl (ho bits)
  · exact hc

/-- A constant is small, or the bits of an `f64`. -/
lemma Origin.Made.bounds {o : Origin} {z : ℤ} (h : o.Made (some z)) :
    |z| ≤ 2 ^ 63 ∨ ∃ bits, o = some (.f64Const bits) ∧ z = bits.toNat := by
  rw [Made.eq_def] at h
  split at h
  · next bits => exact .inr ⟨bits, rfl, Option.some.inj h⟩
  · have hz := h z rfl
    exact .inl (abs_le.mpr ⟨hz.1, hz.2.le⟩)

lemma Origin.Made.abs_lt {o : Origin} {z : ℤ} (h : o.Made (some z)) : |z| < 2 ^ 64 := by
  rcases h.bounds with hz | ⟨bits, -, rfl⟩
  · omega
  · rw [Nat.abs_cast]
    exact_mod_cast bits.isLt

lemma asI32_bounds (z : ℤ) : -2 ^ 63 ≤ asI32 z ∧ asI32 z < 2 ^ 63 := by
  have hle : -2 ^ 31 ≤ asI32 z := Int.le_bmod (by decide)
  have hlt : asI32 z < 2 ^ 31 := Int.bmod_lt (by decide)
  omega

lemma beyondI128_of_abs {z : ℤ} (h : |z| < 2 ^ 127) : beyondI128 z = false := by
  have hz := abs_lt.mp h
  rw [beyondI128, decide_eq_true ⟨hz.1.le, hz.2⟩]
  rfl

lemma beyondI128_mul_small {x y : ℤ} (hx : |x| ≤ 2 ^ 63) (hy : |y| < 2 ^ 64) :
    beyondI128 (x * y) = false := by
  refine beyondI128_of_abs ?_
  calc |x * y| = |x| * |y| := abs_mul x y
    _ ≤ 2 ^ 63 * |y| := mul_le_mul_of_nonneg_right hx (abs_nonneg y)
    _ < 2 ^ 127 := by omega

/-- A product of two constants that overflows is one of two patterns. -/
lemma beyondI128_mul {o o' : Origin} {x y : ℤ} (hx : o.Made (some x)) (hy : o'.Made (some y))
    (h : beyondI128 (x * y) = true) :
    ∃ a b, o = some (.f64Const a) ∧ o' = some (.f64Const b) ∧ 2 ^ 127 ≤ a.toNat * b.toNat := by
  rcases hx.bounds with hsmall | ⟨a, rfl, rfl⟩
  · rw [beyondI128_mul_small hsmall hy.abs_lt] at h
    cases h
  · rcases hy.bounds with hsmall | ⟨b, rfl, rfl⟩
    · rw [mul_comm, beyondI128_mul_small hsmall hx.abs_lt] at h
      cases h
    · refine ⟨a, b, rfl, rfl, ?_⟩
      by_contra hlt
      have hprod : |(a.toNat : ℤ) * b.toNat| < 2 ^ 127 := by
        rw [← Nat.cast_mul, Nat.abs_cast]
        exact_mod_cast not_le.mp hlt
      rw [beyondI128_of_abs hprod] at h
      cases h

/-- Only a product overflows. -/
lemma foldOverflows_made {o o' : Origin} {a b : Option ℤ} (ha : o.Made a) (hb : o'.Made b)
    {op : I32Arith} (h : foldOverflows op a b = true) :
    op = .mul ∧ ∃ p q, o = some (.f64Const p) ∧ o' = some (.f64Const q) ∧
      2 ^ 127 ≤ p.toNat * q.toNat := by
  cases a with
  | none => cases h
  | some x =>
    cases b with
    | none => cases h
    | some y =>
      have hx := ha.abs_lt
      have hy := hb.abs_lt
      cases op with
      | mul => exact ⟨rfl, beyondI128_mul ha hb h⟩
      | add =>
        have hsum : |x + y| < 2 ^ 127 := (abs_add_le x y).trans_lt (by omega)
        rw [foldOverflows, beyondI128_of_abs hsum] at h
        cases h
      | sub =>
        have hdiff : |x - y| < 2 ^ 127 := (abs_sub x y).trans_lt (by omega)
        rw [foldOverflows, beyondI128_of_abs hdiff] at h
        cases h
      | and | or | xor => cases h

/-! ## Wrapped results -/

lemma abs_toInt_le (x : BitVec 32) : |x.toInt| ≤ 2 ^ 31 := by
  have hle := x.le_toInt
  have hlt := x.toInt_lt
  rw [abs_le]
  omega

/-- Constants of 32 bits are folded to the wrapped result. -/
lemma fold_wrapped [Host] {op : I32Arith} {f : BitVec 32 → BitVec 32 → BitVec 32}
    (hop : op.wrapped = some f) (x y : BitVec 32) :
    fold op (some x.toInt) (some y.toInt) = .ok (some (f x y).toInt) := by
  have hx := abs_toInt_le x
  have hy := abs_toInt_le y
  have hfold : ∀ z : ℤ, |z| < 2 ^ 127 → (f x y).toInt = asI32 z →
      (do pure (some (asI32 (← i128 z))) : Outcome Error (Option ℤ)) =
        .ok (some (f x y).toInt) := by
    intro z hz heq
    have hrange := abs_lt.mp hz
    rw [i128, if_pos ⟨hrange.1.le, hrange.2⟩, heq]
    rfl
  cases op with
  | add =>
    cases hop
    exact hfold _ ((abs_add_le _ _).trans_lt (by omega)) (BitVec.toInt_add x y)
  | sub =>
    cases hop
    exact hfold _ ((abs_sub _ _).trans_lt (by omega)) BitVec.toInt_sub
  | mul =>
    cases hop
    refine hfold _ ?_ (BitVec.toInt_mul x y)
    calc |x.toInt * y.toInt| = |x.toInt| * |y.toInt| := abs_mul _ _
      _ ≤ 2 ^ 31 * |y.toInt| := mul_le_mul_of_nonneg_right hx (abs_nonneg _)
      _ < 2 ^ 127 := by omega
  | and | or | xor => cases hop

/-! ## The pass and the origins -/

/-- A name has been given by a position, and stands for a value of this origin. -/
def SsaState.Knows (s : SsaState) (pos : U64) (v : SsaName) (o : Origin) : Prop :=
  v.def_offset ≤ pos ∧ o.Made (const_of s.out (some v))

/-- The constants of the pass are those of the origins. -/
structure Mirrors [Host] (f : ValueFlow Origin) (pos : U64) (s : SsaState) : Prop where
  stack : List.Forall₂ (s.Knows pos) s.stack f.stack
  locals : ∀ i, Option.Rel (s.Knows pos) s.locals[i]? (f.locals i)
  below : ∀ k ∈ s.out.values.map ValueFact.key, k.1.def_offset ≤ pos
  version : Host.overflowChecks = true → s.version.val = f.values

/-- The constant of a name is in the list of names and constants. -/
lemma const_of_congr {out out' : SsaBody}
    (h : out'.values.map ValueFact.key = out.values.map ValueFact.key) (v : Option SsaName) :
    const_of out' v = const_of out v := by
  have hkeys : ∀ out : SsaBody, const_of out v =
      v.bind fun n => ((out.values.map ValueFact.key).find? fun k => k.1 = n).bind (·.2) := by
    intro out
    rw [const_of]
    congr 1
    funext n
    rw [List.find?_map, Option.bind_map]
    rfl
  rw [hkeys, hkeys, h]

/-- A new name does not change what the other names stand for. -/
lemma const_of_append {out out' : SsaBody} {fact : ValueFact}
    (h : out'.values = out.values ++ [fact]) {v : SsaName} (hne : v ≠ fact.name) :
    const_of out' (some v) = const_of out (some v) := by
  have hnone : [fact].find? (fun f => f.name = v) = none := by simpa using hne.symm
  rw [const_of, const_of, h, Option.bind_some, Option.bind_some, List.find?_append, hnone,
    Option.or_none]

/-- A new name stands for its value. -/
lemma const_of_new {out out' : SsaBody} {fact : ValueFact} (h : out'.values = out.values ++ [fact])
    (hnew : ∀ k ∈ out.values.map ValueFact.key, k.1 ≠ fact.name) :
    const_of out' (some fact.name) = fact.constant := by
  have hnone : out.values.find? (fun f => f.name = fact.name) = none := by
    rw [List.find?_eq_none]
    intro f hf
    have hne : f.name ≠ fact.name := hnew f.key (List.mem_map_of_mem hf)
    simpa using hne
  rw [const_of, h, Option.bind_some, List.find?_append, hnone]
  simp

namespace Mirrors

variable [Host] {f : ValueFlow Origin} {s s' : SsaState} {pos next : U64} {o : Origin}
  {v : SsaName}

/-- A step that leaves the stack, the locals and the names of the values as they are. -/
lemma congr (h : Mirrors f pos s) (hstack : s'.stack = s.stack) (hlocals : s'.locals = s.locals)
    (hversion : s'.version = s.version)
    (hkeys : s'.out.values.map ValueFact.key = s.out.values.map ValueFact.key) :
    Mirrors f pos s' := by
  have hknows : s'.Knows pos = s.Knows pos := by
    funext v o
    rw [SsaState.Knows, const_of_congr hkeys, SsaState.Knows]
  refine ⟨?_, ?_, ?_, ?_⟩
  · rw [hknows, hstack]
    exact h.stack
  · rw [hknows, hlocals]
    exact h.locals
  · rw [hkeys]
    exact h.below
  · rw [hversion]
    exact h.version

lemma later (h : Mirrors f pos s) (hle : pos ≤ next) : Mirrors f next s := by
  have hmono : ∀ v o, s.Knows pos v o → s.Knows next v o := fun v o hv => ⟨hv.1.trans hle, hv.2⟩
  exact ⟨h.stack.imp hmono, fun i => rel_mono hmono (h.locals i),
    fun k hk => (h.below k hk).trans hle, h.version⟩

lemma alike (h : Mirrors f pos s) (h' : s.Alike s') : Mirrors f pos s' :=
  h.congr h'.stack h'.locals h'.version (congrArg _ h'.values)

lemma use (h : Mirrors f pos s) (v : SsaName) (site : U64) : Mirrors f pos (s.use v site) :=
  h.congr rfl rfl rfl (s.use_keys v site)

/-- The top of the stack goes. -/
lemma pop (h : Mirrors f pos s) (next : U64) :
    Mirrors (f.pop 1) pos (s.popUse next).2 ∧
      Option.Rel ((s.popUse next).2.Knows pos) (s.popUse next).1 f.stack.head? := by
  have hstack := h.stack
  rw [SsaState.popUse]
  split
  · next v stack hs =>
    rw [hs] at hstack
    obtain ⟨o, os, hvo, hrest, hf⟩ := List.forall₂_cons_left_iff.mp hstack
    have huse := h.use v next
    have hknows : SsaState.Knows { s.use v next with stack } pos = s.Knows pos := by
      funext w o
      rw [SsaState.Knows, const_of_congr (s.use_keys v next), SsaState.Knows]
    refine ⟨⟨?_, huse.locals, huse.below, huse.version⟩, ?_⟩
    · rw [hknows, ValueFlow.pop, hf]
      exact hrest
    · rw [hknows, hf]
      exact .some hvo
  · next hs =>
    rw [hs] at hstack
    have hf : f.stack = [] := List.forall₂_nil_left_iff.mp hstack
    refine ⟨⟨?_, h.locals, h.below, h.version⟩, ?_⟩
    · rw [hs, ValueFlow.pop, hf]
      exact .nil
    · rw [hf]
      exact .none

lemma onStack (h : Mirrors f pos s) (hv : s.Knows pos v o) :
    Mirrors { f with stack := o :: f.stack } pos { s with stack := v :: s.stack } :=
  ⟨.cons hv h.stack, h.locals, h.below, h.version⟩

lemma setLocal (h : Mirrors f pos s) (hv : s.Knows pos v o) (i : U32) :
    Mirrors { f with locals := Function.update f.locals i (some o) } pos
      { s with locals := s.locals.insert i v } :=
  ⟨h.stack, rel_insert h.locals hv i, h.below, h.version⟩

/-- A new value: its name is later than all others. -/
lemma define (h : Mirrors f pos s) (hlt : pos < next) {ty produced_by : String}
    {constant : Option ℤ} (hmade : o.Made constant)
    (hdef : s.defVal next ty produced_by constant = .ok s') : Mirrors (f.push o) next s' := by
  obtain ⟨version, hadd, hdef⟩ := Outcome.bind_eq_ok.mp hdef
  cases hdef
  have hnew : ∀ v : SsaName, v.def_offset ≤ pos → v ≠ ⟨next, s.version⟩ := by
    rintro v hv rfl
    exact absurd hv (not_le.mpr hlt)
  have hmono : ∀ v o, s.Knows pos v o → SsaState.Knows
      { s with
        version
        out := { s.out with
          values := s.out.values ++ [⟨⟨next, s.version⟩, ty, constant, [], produced_by⟩] }
        stack := ⟨next, s.version⟩ :: s.stack } next v o := by
    intro v o hv
    refine ⟨hv.1.trans hlt.le, ?_⟩
    rw [const_of_append rfl (hnew v hv.1)]
    exact hv.2
  refine ⟨.cons ⟨le_rfl, ?_⟩ (h.stack.imp hmono), fun i => rel_mono hmono (h.locals i),
    fun k hk => ?_, fun hc => ?_⟩
  · show o.Made (const_of _
      (some (ValueFact.name ⟨⟨next, s.version⟩, ty, constant, [], produced_by⟩)))
    rw [const_of_new rfl fun k hk => hnew k.1 (h.below k hk)]
    exact hmade
  · rw [List.map_append] at hk
    rcases List.mem_append.mp hk with hk | hk
    · exact (h.below k hk).trans hlt.le
    · rw [List.mem_singleton.mp hk]
      exact le_rfl
  · show version.val = f.values + 1
    rw [addU32, hc] at hadd
    split at hadd
    · next hfit =>
      cases hadd
      have hlt : s.version.val + (1 : U32).val < 2 ^ 32 := hfit.resolve_right (by decide)
      rw [Fin.val_add, Nat.mod_eq_of_lt hlt, h.version hc]
      rfl
    · cases hadd

omit [Host] in
lemma pop_one (hf : f.stack.head? = none) : f.pop 1 = f := by
  have hnil : f.stack = [] := List.head?_eq_none_iff.mp hf
  rw [ValueFlow.pop, hnil, List.drop_nil, ← hnil]

/-- `local.set`, and `local.tee`, which leaves the value on the stack. -/
lemma localSet (h : Mirrors f pos s) (i : U32) (tee : Bool) {g : ValueFlow Origin}
    (hg : g = if tee then f.write i else (f.write i).pop 1) :
    Mirrors g pos (s.localSet pos next i tee) := by
  obtain ⟨hpop, hrel⟩ := h.pop next
  rw [SsaState.localSet]
  split
  · next v s₁ heq =>
    rw [heq] at hpop hrel
    cases hf : f.stack.head? with
    | none => rw [hf] at hrel; cases hrel
    | some o =>
      rw [hf] at hrel
      cases hrel
      rename_i hvo
      have hset := hpop.setLocal hvo i
      rw [hg, ValueFlow.write, hf]
      cases tee with
      | false =>
        exact hset.congr rfl rfl rfl rfl
      | true =>
        have hback : o :: (f.pop 1).stack = f.stack := by
          rw [ValueFlow.pop, List.drop_one]
          exact List.cons_head?_tail hf
        have htop := hset.onStack hvo
        dsimp only at htop
        rw [hback] at htop
        exact htop.congr rfl rfl rfl rfl
  · next s₁ heq =>
    rw [heq] at hpop hrel
    cases hf : f.stack.head? with
    | some o => rw [hf] at hrel; cases hrel
    | none =>
      have hwrite : f.write i = f := by rw [ValueFlow.write, hf]
      rw [pop_one hf] at hpop
      rw [hg, hwrite, pop_one hf, ite_self]
      exact hpop

omit [Host] in
lemma pop_pop (f : ValueFlow Origin) : (f.pop 1).pop 1 = f.pop 2 := by
  rw [ValueFlow.pop, ValueFlow.pop, List.drop_drop, ValueFlow.pop]

/-- What is folded is an `i32`. -/
lemma fold_bounds {op : I32Arith} {a b c : Option ℤ} (h : fold op a b = .ok c) :
    ∀ z ∈ c, -2 ^ 63 ≤ z ∧ z < 2 ^ 63 := by
  intro z hz
  rcases fold_cases op a b with ⟨hfold, -, -⟩ | ⟨w, hfold, -, -⟩
  · cases hfold.symm.trans h
    cases hz
  · obtain ⟨w', -, h⟩ := Outcome.bind_eq_ok.mp (hfold.symm.trans h)
    cases h
    cases hz
    exact asI32_bounds w'

/-- An operator gives its value, and takes its operands, in the pass as it does in the flow. -/
lemma operator [Wasmparser] {op : Operator} (h : Mirrors f pos s) (hlt : pos < next)
    (hop : s.operator pos op next = .ok s') :
    Mirrors (f.step (fun _ op => some op) op) next s' := by
  obtain ⟨hpop, hrel⟩ := h.pop next
  obtain ⟨hpop', -⟩ := hpop.pop next
  rw [pop_pop] at hpop'
  have hnone : ∀ z : ℤ, z ∈ (none : Option ℤ) → -2 ^ 63 ≤ z ∧ z < 2 ^ 63 := fun z hz => by cases hz
  cases op with
  | i32Const v =>
    refine h.define hlt (Origin.made_of_small (by simp) fun z hz => ?_) hop
    cases hz
    have hv := abs_le.mp (abs_toInt_le v)
    omega
  | i64Const v =>
    refine h.define hlt (Origin.made_of_small (by simp) fun z hz => ?_) hop
    cases hz
    exact ⟨v.le_toInt, v.toInt_lt⟩
  | f32Const bits =>
    refine h.define hlt (Origin.made_of_small (by simp) fun z hz => ?_) hop
    cases hz
    have hbits := bits.isLt
    omega
  | f64Const bits => exact h.define (o := some (.f64Const bits)) hlt rfl hop
  | localGet i =>
    have hlocal := h.locals i
    cases hop
    rw [SsaState.localGet]
    split
    · next v hv =>
      rw [hv] at hlocal
      cases hf : f.locals i with
      | none => rw [hf] at hlocal; cases hlocal
      | some o =>
        rw [hf] at hlocal
        cases hlocal
        rename_i hvo
        have huse : (s.use v pos).Knows pos v o :=
          ⟨hvo.1, by rw [const_of_congr (s.use_keys v pos)]; exact hvo.2⟩
        rw [ValueFlow.step_localGet_some hf]
        exact (((h.use v pos).onStack huse).later hlt.le).congr rfl rfl rfl rfl
    · next hv =>
      rw [hv] at hlocal
      cases hf : f.locals i with
      | some o => rw [hf] at hlocal; cases hlocal
      | none =>
        rw [ValueFlow.step_localGet_none hf]
        exact h.later hlt.le
  | localSet i =>
    cases hop
    exact (h.localSet i false rfl).later hlt.le
  | localTee i =>
    cases hop
    exact (h.localSet i true rfl).later hlt.le
  | globalGet i =>
    obtain ⟨s₁, hdef, hop⟩ := Outcome.bind_eq_ok.mp hop
    cases hop
    have hs₁ := h.define hlt (Origin.made_of_small (o := some (.globalGet i)) (by simp) hnone) hdef
    split
    · exact hs₁.congr rfl rfl rfl rfl
    · exact hs₁
  | i32Load m | i64Load m =>
    obtain ⟨s₁, hdef, hop⟩ := Outcome.bind_eq_ok.mp hop
    cases hop
    split
    · exact (hpop.define hlt (Origin.made_of_small (by simp) hnone) hdef).congr rfl rfl rfl rfl
    · exact hpop.define hlt (Origin.made_of_small (by simp) hnone) hdef
  | globalSet i =>
    cases hop
    exact (hpop.later hlt.le).alike (globalSet_alike s pos next i)
  | i32Store m | i64Store m =>
    cases hop
    rw [SsaState.store]
    dsimp only
    split
    · exact ((hpop'.use _ pos).later hlt.le).congr rfl rfl rfl rfl
    · exact hpop'.later hlt.le
  | i32Arith op =>
    obtain ⟨folded, hfold, hop⟩ := Outcome.bind_eq_ok.mp hop
    exact hpop'.define hlt (Origin.made_of_small (by simp) (fold_bounds hfold)) hop
  | i32Eqz => exact hpop.define hlt (Origin.made_of_small (by simp) hnone) hop
  | i32Compare op => exact hpop'.define hlt (Origin.made_of_small (by simp) hnone) hop
  | brIf depth =>
    cases hop
    exact (hpop.later hlt.le).alike (brIf_alike s pos next)
  | brTable targets default =>
    cases hop
    exact (hpop.later hlt.le).alike (brTable_alike s pos next)
  | return_ | drop =>
    cases hop
    exact hpop.later hlt.le
  | call f | block | loop | if_ | else_ | try_ | tryTable | br | callIndirect | returnCall
  | returnCallIndirect | unreachable | end_ | other =>
    cases hop
    exact (h.later hlt.le).congr rfl rfl rfl rfl

omit [Host] in
lemma popUse_keys (s : SsaState) (next : U64) :
    (s.popUse next).2.out.values.map ValueFact.key = s.out.values.map ValueFact.key := by
  obtain ⟨-, -, uses, huses⟩ := popUse_values s next
  rw [huses, map_addUses]

/-- The constants of the operands are those of the origins on top. -/
lemma operands (h : Mirrors f pos s) (next : U64) {o o' : Origin} {rest : List Origin}
    (hf : f.stack = o' :: o :: rest) :
    o.Made (s.operands next).1 ∧ o'.Made (s.operands next).2 := by
  obtain ⟨hpop, hrel⟩ := h.pop next
  obtain ⟨-, hrel'⟩ := hpop.pop next
  have hhead : f.stack.head? = some o' := by rw [hf]; rfl
  have hnext : (f.pop 1).stack.head? = some o := by rw [ValueFlow.pop, hf]; rfl
  rw [hhead] at hrel
  rw [hnext] at hrel'
  rw [SsaState.operands]
  constructor
  · cases ha : ((s.popUse next).2.popUse next).1 with
    | none => rw [ha] at hrel'; cases hrel'
    | some a =>
      rw [ha] at hrel'
      cases hrel'
      rename_i hknown
      exact hknown.2
  · cases hb : (s.popUse next).1 with
    | none => rw [hb] at hrel; cases hrel
    | some b =>
      rw [hb] at hrel
      cases hrel
      rename_i hknown
      show o'.Made (const_of ((s.popUse next).2.popUse next).2.out (some b))
      rw [const_of_congr (popUse_keys _ next)]
      exact hknown.2

/-- Without two operands nothing is folded. -/
lemma operands_none (h : Mirrors f pos s) (next : U64) (hf : f.stack.length < 2) :
    (s.operands next).1 = none := by
  obtain ⟨hpop, -⟩ := h.pop next
  obtain ⟨-, hrel'⟩ := hpop.pop next
  have hnil : (f.pop 1).stack.head? = none := by
    rw [List.head?_eq_none_iff, ValueFlow.pop, List.drop_eq_nil_iff]
    omega
  rw [hnil] at hrel'
  rw [SsaState.operands]
  cases ha : ((s.popUse next).2.popUse next).1 with
  | none => rfl
  | some a => rw [ha] at hrel'; cases hrel'

/-- What overflows is a product of two patterns on top. -/
lemma overflow_taken (h : Mirrors f pos s) {op : I32Arith}
    (hover : foldOverflows op (s.operands next).1 (s.operands next).2 = true) :
    op = .mul ∧ ∃ p q, f.taken (.i32Arith .mul) = [some (.f64Const q), some (.f64Const p)] ∧
      2 ^ 127 ≤ p.toNat * q.toNat := by
  rcases hf : f.stack with _ | ⟨o', _ | ⟨o, rest⟩⟩
  · rw [h.operands_none next (by rw [hf]; decide)] at hover
    cases hover
  · rw [h.operands_none next (by rw [hf]; exact Nat.one_lt_two)] at hover
    cases hover
  · obtain ⟨hmade, hmade'⟩ := h.operands next hf
    obtain ⟨hop, p, q, rfl, rfl, hbig⟩ := foldOverflows_made hmade hmade' hover
    refine ⟨hop, p, q, ?_, hbig⟩
    rw [ValueFlow.taken, hf]
    rfl

/-- Two patterns on top are the operands. -/
lemma operands_patterns (h : Mirrors f pos s) (next : U64) {p q : BitVec 64}
    (htaken : f.taken (.i32Arith .mul) = [some (.f64Const q), some (.f64Const p)]) :
    s.operands next = (some (p.toNat : ℤ), some (q.toNat : ℤ)) := by
  obtain ⟨rest, hf⟩ : ∃ rest, f.stack = some (.f64Const q) :: some (.f64Const p) :: rest := by
    have hsplit := List.take_append_drop 2 f.stack
    rw [show f.stack.take 2 = _ from htaken] at hsplit
    exact ⟨f.stack.drop 2, hsplit.symm⟩
  obtain ⟨hmade, hmade'⟩ := h.operands next hf
  exact Prod.ext hmade hmade'

/-- A value is defined where there is a number for it. -/
lemma defVal_ok (hroom : Host.overflowChecks = true → s.version.val + 1 < 2 ^ 32)
    (next : U64) (ty produced_by : String) (constant : Option ℤ) :
    ∃ s', s.defVal next ty produced_by constant = .ok s' := by
  have hadd : addU32 s.version 1 = (.ok (s.version + 1) : Outcome Error U32) := by
    rw [addU32, if_pos]
    by_cases hc : Host.overflowChecks = true
    · exact .inl (hroom hc)
    · exact .inr (Bool.eq_false_of_not_eq_true hc)
  rw [SsaState.defVal, hadd]
  exact ⟨_, rfl⟩

/-- An operator is dealt with unless it overflows. -/
lemma operator_ok [Wasmparser] {op : Operator}
    (hroom : Host.overflowChecks = true → op.gives = true → s.version.val + 1 < 2 ^ 32)
    (hfold : Host.overflowChecks = true → ∀ a, op = .i32Arith a →
      foldOverflows a (s.operands next).1 (s.operands next).2 = false) :
    ∃ s', s.operator pos op next = .ok s' := by
  have hversion := (popUse_values s next).1
  have hversion' := (popUse_values (s.popUse next).2 next).1.trans hversion
  cases op with
  | i32Const v | i64Const v | f32Const v | f64Const v => exact defVal_ok (fun hc => hroom hc rfl) ..
  | globalGet i =>
    obtain ⟨s', hs'⟩ := defVal_ok (fun hc => hroom hc rfl) next "global" s!"global.get {i.val}" none
    show ∃ t, s.globalGet pos next i = .ok t
    rw [SsaState.globalGet, hs']
    exact ⟨_, rfl⟩
  | i32Load m =>
    obtain ⟨s', hs'⟩ := defVal_ok (s := (s.popUse next).2)
      (fun hc => by rw [hversion]; exact hroom hc rfl) next "i32" s!"load +{m.offset.val}" none
    show ∃ t, s.load pos next 4 m = .ok t
    rw [SsaState.load]
    dsimp only
    rw [if_pos rfl, hs']
    exact ⟨_, rfl⟩
  | i64Load m =>
    obtain ⟨s', hs'⟩ := defVal_ok (s := (s.popUse next).2)
      (fun hc => by rw [hversion]; exact hroom hc rfl) next "i64" s!"load +{m.offset.val}" none
    show ∃ t, s.load pos next 8 m = .ok t
    rw [SsaState.load]
    dsimp only
    rw [if_neg (by decide), hs']
    exact ⟨_, rfl⟩
  | i32Arith op =>
    obtain ⟨c, hc, -⟩ := fold_ok fun hc => hfold hc op rfl
    obtain ⟨s', hs'⟩ := defVal_ok (s := ((s.popUse next).2.popUse next).2)
      (fun hc => by rw [hversion']; exact hroom hc rfl) next "i32" op.mnemonic c
    show ∃ t, s.arith next op = .ok t
    rw [SsaState.operands] at hc
    rw [SsaState.arith]
    dsimp only at hc ⊢
    rw [hc, Outcome.ok_bind, hs']
    exact ⟨_, rfl⟩
  | i32Eqz => exact defVal_ok (fun hc => by rw [hversion]; exact hroom hc rfl) ..
  | i32Compare op => exact defVal_ok (fun hc => by rw [hversion']; exact hroom hc rfl) ..
  | localGet | localSet | localTee | globalSet | i32Store | i64Store | brIf | brTable | call
  | return_ | drop | block | loop | if_ | else_ | try_ | tryTable | br | callIndirect | returnCall
  | returnCallIndirect | unreachable | end_ | other => exact ⟨_, rfl⟩

end Mirrors

/-! ## The loop -/

section
variable [Host] {f : ValueFlow Origin} {s s₀ : SsaState} {pos eof : U64} {n_params : ℕ}

/-- The parameters have no constants. -/
lemma params_mirrors (h : SsaState.params n_params = .ok s) (pos : U64) :
    Mirrors (.start (fun _ => none) n_params) pos s ∧ s.out.operator_count = 0 := by
  have hfacts : s.out.operator_count = 0 ∧
      ∀ k ∈ s.out.values.map ValueFact.key, k.1.def_offset = 0 ∧ k.2 = none := by
    induction n_params generalizing s with
    | zero =>
      cases h
      exact ⟨rfl, fun k hk => by cases hk⟩
    | succ n ih =>
      obtain ⟨s₁, hs₁, h⟩ := Outcome.bind_eq_ok.mp h
      obtain ⟨version, -, h⟩ := Outcome.bind_eq_ok.mp h
      cases h
      obtain ⟨hcount, hkeys⟩ := ih hs₁
      refine ⟨hcount, fun k hk => ?_⟩
      rw [List.map_append] at hk
      rcases List.mem_append.mp hk with hk | hk
      · exact hkeys k hk
      · rw [List.mem_singleton.mp hk]
        exact ⟨rfl, rfl⟩
  obtain ⟨hcount, hkeys⟩ := hfacts
  obtain ⟨hidle, hversion, -, -⟩ := params_idle h
  have hconst : ∀ v, const_of s.out (some v) = none := by
    intro v
    rw [const_of, Option.bind_some, Option.bind_eq_none_iff]
    intro fact hfact
    exact (hkeys fact.key (List.mem_map_of_mem (List.mem_of_find?_eq_some hfact))).2
  refine ⟨⟨?_, fun i => ?_, fun k hk => ?_, fun hc => ?_⟩, hcount⟩
  · rw [hidle.stack]
    exact .nil
  · show Option.Rel _ _ (if i.val < n_params then some none else none)
    by_cases hi : i.val < n_params
    · obtain ⟨v, hv, hmem⟩ := hidle.known i hi
      obtain ⟨fact, hfact, rfl⟩ := List.mem_map.mp hmem
      rw [hv, if_pos hi]
      refine .some ⟨?_, ?_⟩
      · have hzero := (hkeys fact.key (List.mem_map_of_mem hfact)).1
        exact le_of_eq_of_le hzero (Fin.zero_le pos)
      · rw [hconst]
        exact fun z hz => by cases hz
    · rw [hidle.unknown i (not_lt.mp hi), if_neg hi]
      exact .none
  · rw [(hkeys k hk).1]
    exact Fin.zero_le pos
  · rw [hversion]
    exact Nat.mod_eq_of_lt (params_fits hc h)

lemma counted_mirrors {s₁ : SsaState} (h : Mirrors f pos s) (hs₁ : s.counted = .ok s₁) :
    Mirrors f pos s₁ ∧ s₁.out.operator_count = s.out.operator_count + 1 := by
  obtain ⟨-, rfl⟩ := SsaState.counted_eq_ok.mp hs₁
  exact ⟨h.congr rfl rfl rfl rfl, rfl⟩

variable [Wasmparser]

/-- The pass comes to what stands behind these operators, when no operation overflows. -/
lemma reaches_behind {front : List (U64 × Operator)} (back : List (U64 × Operator))
    (h : Mirrors f (OperatorsReader.ofList eof (front ++ back)).original_position s)
    (hascending : Ascending eof (front ++ back)) (hend : ∀ e ∈ front, e.2 ≠ .end_)
    (hbudget : s.out.operator_count + front.length ≤ 5000000)
    (hroom : Host.overflowChecks = true →
      f.values + front.countP (fun e => e.2.gives) < 2 ^ 32)
    (hall : ∀ pos op rest s' s₁,
      SsaState.Reaches (.ofList eof (front ++ back)) s (.read pos (.i32Arith op) rest) s' →
        s'.counted = .ok s₁ → foldOverflows op (s₁.operands rest.original_position).1
          (s₁.operands rest.original_position).2 = false) :
    ∃ s', SsaState.Reaches (.ofList eof (front ++ back)) s (.ofList eof back) s' ∧
      Mirrors (f.after (fun _ op => some op) front)
        (OperatorsReader.ofList eof back).original_position s' ∧
      s'.out.operator_count = s.out.operator_count + front.length := by
  induction front generalizing f s with
  | nil => exact ⟨s, .here, h, rfl⟩
  | cons e front ih =>
    obtain ⟨pos, op⟩ := e
    rw [List.length_cons] at hbudget
    rw [List.countP_cons] at hroom
    obtain ⟨s₁, hs₁⟩ : ∃ s₁, s.counted = .ok s₁ :=
      ⟨_, SsaState.counted_eq_ok.mpr ⟨by omega, rfl⟩⟩
    obtain ⟨h₁, hcount₁⟩ := counted_mirrors h hs₁
    obtain ⟨s₂, hs₂⟩ : ∃ s₂, s₁.operator pos op
        (OperatorsReader.ofList eof (front ++ back)).original_position = .ok s₂ :=
      Mirrors.operator_ok (fun hc hgives => by
        have hlt := hroom hc
        rw [hgives, if_pos rfl] at hlt
        rw [h₁.version hc]
        omega)
      (fun hc a ha => by
        subst ha
        exact hall pos a _ s s₁ .here hs₁)
    have h₂ := h₁.operator (hascending.head) hs₂
    have hcount₂ := (operator_values hs₂).count
    have hne : op ≠ .end_ := hend (pos, op) List.mem_cons_self
    obtain ⟨s', hreaches, hs', hcount'⟩ := ih h₂ hascending.tail
      (fun e he => hend e (List.mem_cons_of_mem _ he)) (by omega)
      (fun hc => by
        have hlt := hroom hc
        dsimp only at hlt
        rw [ValueFlow.values_step]
        omega)
      (fun pos' op' rest s' s₃ hr hs₃ => hall pos' op' rest s' s₃ (.next hs₁ hne hs₂ hr) hs₃)
    refine ⟨s', .next hs₁ hne hs₂ hreaches, hs', ?_⟩
    rw [hcount', hcount₂, hcount₁, List.length_cons]
    omega

/-- What the pass comes to stands behind some operators. -/
lemma reaches_split {r r' : OperatorsReader} {s' : SsaState} (hreaches : SsaState.Reaches r s r' s')
    {ops : List (U64 × Operator)} (hr : r = .ofList eof ops) (hascending : Ascending eof ops)
    (h : Mirrors f r.original_position s) :
    ∃ front back, ops = front ++ back ∧ r' = .ofList eof back ∧
      Mirrors (f.after (fun _ op => some op) front) r'.original_position s' ∧
      (∀ e ∈ front, e.2 ≠ .end_) ∧
      s'.out.operator_count = s.out.operator_count + front.length := by
  induction hreaches generalizing ops f with
  | here => exact ⟨[], ops, rfl, hr, h, fun e he => absurd he List.not_mem_nil, rfl⟩
  | @next pos op rest r s s₁ s₂ s' hcounted hend hop hrest ih =>
    cases ops with
    | nil => cases hr
    | cons e ops =>
      cases hr
      obtain ⟨h₁, hcount₁⟩ := counted_mirrors h hcounted
      have h₂ := h₁.operator (hascending.head) hop
      have hcount₂ := (operator_values hop).count
      obtain ⟨front, back, rfl, hback, hs', hfront, hcount'⟩ := ih rfl hascending.tail h₂
      refine ⟨e :: front, back, rfl, hback, hs', List.forall_mem_cons.mpr ⟨hend, hfront⟩, ?_⟩
      rw [hcount', hcount₂, hcount₁, List.length_cons]
      omega

end

/-- Wherever the pass comes to an operation on a body, it does not overflow and is folded to the
wrapped result, exactly when no `i32.mul` within reach takes two `f64` constants whose bits have a
product of `2 ^ 127` or more. -/
theorem folding_exact_iff [Host] [Wasmparser] {body : List U8} {n_params : ℕ} {eof : U64}
    {ops : List (U64 × Operator)} (hreads : Wasmparser.operators body = .ofList eof ops)
    (hascending : Ascending eof ops) :
    FoldsThroughout body n_params ↔
      ∀ front pos back, ops = front ++ (pos, .i32Arith .mul) :: back →
        WithinReach n_params front → ∀ p q : BitVec 64,
          (origins n_params front).taken (.i32Arith .mul) =
            [some (.f64Const q), some (.f64Const p)] → p.toNat * q.toNat < 2 ^ 127 := by
  rw [FoldsThroughout, hreads]
  constructor
  · rintro hfolds front pos back rfl hwithin p q htaken
    obtain ⟨s₀, hs₀, -⟩ := params_shows n_params fun hc =>
      lt_of_le_of_lt (Nat.le_add_right _ _) (hwithin.numbers hc)
    obtain ⟨hstart, hzero⟩ := params_mirrors hs₀
      (OperatorsReader.ofList eof (front ++ (pos, .i32Arith .mul) :: back)).original_position
    obtain ⟨s, hreaches, hs, hcount⟩ := reaches_behind _ hstart hascending hwithin.noEnd
      (by rw [hzero, Nat.zero_add]; exact hwithin.budget.le) hwithin.numbers
      fun pos' op rest s' s₁ hr hs₁ => (hfolds s₀ pos' op rest s' s₁ hs₀ hr hs₁).inRange
    obtain ⟨s₁, hs₁⟩ : ∃ s₁, s.counted = .ok s₁ :=
      ⟨_, SsaState.counted_eq_ok.mpr ⟨by rw [hcount, hzero]; have := hwithin.budget; omega, rfl⟩⟩
    have hfits := (hfolds s₀ pos .mul _ s s₁ hs₀ hreaches hs₁).inRange
    rw [(counted_mirrors hs hs₁).1.operands_patterns _ htaken] at hfits
    have hrange : ¬beyondI128 ((p.toNat : ℤ) * q.toNat) = true := by
      rw [show beyondI128 ((p.toNat : ℤ) * q.toNat) = false from hfits]
      exact Bool.false_ne_true
    rw [beyondI128, Bool.not_eq_true', decide_eq_false_iff_not, not_not] at hrange
    exact_mod_cast hrange.2
  · intro hsmall s₀ pos op rest s s₁ hs₀ hreaches hs₁
    obtain ⟨hstart, hzero⟩ := params_mirrors hs₀ (OperatorsReader.ofList eof ops).original_position
    obtain ⟨front, back, rfl, hback, hs, hfront, hcount⟩ :=
      reaches_split hreaches rfl hascending hstart
    cases back with
    | nil => cases hback
    | cons e back =>
      obtain ⟨pos', op'⟩ := e
      cases hback
      obtain ⟨h₁, -⟩ := counted_mirrors hs hs₁
      refine ⟨Bool.eq_false_of_not_eq_true fun hover => ?_, fun f x y hop hoperands s' hs' => ?_⟩
      · obtain ⟨rfl, p, q, htaken, hbig⟩ := h₁.overflow_taken hover
        refine absurd (hsmall front pos back rfl ⟨hfront, ?_, fun hc => ?_⟩ p q htaken)
          (not_lt.mpr hbig)
        · have hle := (SsaState.counted_eq_ok.mp hs₁).1
          omega
        · have hversion := hs.version hc
          rw [ValueFlow.values_after] at hversion
          have hlt := s.version.isLt
          rw [hversion] at hlt
          exact hlt
      · obtain ⟨folded, hfold, hs'⟩ := Outcome.bind_eq_ok.mp hs'
        have heq : fold op (s₁.operands (OperatorsReader.ofList eof back).original_position).1
          (s₁.operands (OperatorsReader.ofList eof back).original_position).2 = .ok folded := hfold
        rw [hoperands] at heq
        obtain rfl : folded = some (f x y).toInt :=
          Outcome.ok.inj (heq.symm.trans (fold_wrapped hop x y))
        obtain ⟨version, -, hs'⟩ := Outcome.bind_eq_ok.mp hs'
        cases hs'
        simp

/-- `f64.const` of some bits, the same again, `i32.mul`, `end`. -/
def multiplied (bits : BitVec 64) : List (U64 × Operator) :=
  [(0, .f64Const bits), (9, .f64Const bits), (18, .i32Arith .mul), (19, .end_)]

/-- The bytes of that, when only the last byte of the bits is not zero. -/
def multipliedBytes (last : U8) : List U8 :=
  [0x44, 0, 0, 0, 0, 0, 0, 0, last, 0x44, 0, 0, 0, 0, 0, 0, 0, last, 0x6c, 0x0b]

/-- Zeros are multiplied. -/
theorem folding_exact_iff_zeros :
    letI : Host := Host.ascii true
    letI : Wasmparser := .of (multipliedBytes 0) (.ofList 20 (multiplied 0))
    FoldsThroughout (multipliedBytes 0) 0 := by
  let _ : Host := Host.ascii true
  let _ : Wasmparser := .of (multipliedBytes 0) (.ofList 20 (multiplied 0))
  have hascending : Ascending 20 (multiplied 0) := by
    rw [Ascending]
    decide
  refine (folding_exact_iff rfl hascending).mpr fun front pos back hops _ p q htaken => ?_
  obtain rfl : front = (multiplied 0).take 2 := by
    rcases front with _ | ⟨e₁, _ | ⟨e₂, _ | ⟨e₃, _ | ⟨e₄, front⟩⟩⟩⟩ <;>
      simp_all [multiplied]
  cases htaken
  decide

/-- The bits of a negative constant are multiplied with themselves, and `i128` does not hold the
product. -/
theorem folding_overflows :
    letI : Host := Host.ascii true
    letI : Wasmparser := .of (multipliedBytes 0xff) (.ofList 20 (multiplied 0xff00000000000000))
    analyze_values (multipliedBytes 0xff) 0 = .panic .overflow ∧
      ¬FoldsThroughout (multipliedBytes 0xff) 0 := by
  let _ : Host := Host.ascii true
  let _ : Wasmparser := .of (multipliedBytes 0xff) (.ofList 20 (multiplied 0xff00000000000000))
  refine ⟨rfl, fun hfolds => ?_⟩
  have h : FoldsExactly _ 18 19 .mul := hfolds _ 18 .mul _ _ _ rfl
    (.next rfl (by decide) rfl (.next rfl (by decide) rfl .here)) rfl
  exact absurd h.inRange (by decide +kernel)

end ReverseMcp.Wasm
