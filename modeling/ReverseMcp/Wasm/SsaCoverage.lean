import Mathlib.Logic.Function.Basic
import ReverseMcp.Rust.Scan
import ReverseMcp.Wasm.Nesting
import ReverseMcp.Wasm.Values

/-!
# What the pass over the values covers

`analyze_values` ends at the first `end`, which is that of the first inner construct where there is
one, and it leaves out an operator whose operand it does not know.  A `SsaFrame` follows what the
pass knows of the stack and of the locals; `analyze_values_covers_iff` is the exact condition under
which every operator of a body is read and listed.
-/

namespace ReverseMcp.Wasm

open Rust

/-! ## The lists of the pass -/

/-- The lists of sites. -/
inductive Column where
  | localLoads
  | localStores
  | globalLoads
  | globalStores
  | memoryOps
  | tableIndexOps
  | branchConditions
  | callArgs
deriving DecidableEq

/-- An entry without its names: the site, the index, width or callee, and whether it is a store to
memory. -/
abbrev Entry : Type := U64 × ℕ × Bool

/-- A list of sites. -/
def SsaBody.column (out : SsaBody) : Column → List Entry
  | .localLoads => out.local_loads.map fun e => (e.1, e.2.1.val, false)
  | .localStores => out.local_stores.map fun e => (e.1, e.2.1.val, false)
  | .globalLoads => out.global_loads.map fun e => (e.1, e.2.1.val, false)
  | .globalStores => out.global_stores.map fun e => (e.1, e.2.1.val, false)
  | .memoryOps => out.memory_ops.map fun e => (e.1, e.2.2)
  | .tableIndexOps => out.table_index_ops.map fun e => (e.1, 0, false)
  | .branchConditions => out.branch_conditions.map fun e => (e.1, 0, false)
  | .callArgs => out.call_args.map fun e => (e.1, e.2.1.val, false)

/-- The list an operator belongs to, with its entry there. -/
def Operator.listed : Operator → Option (Column × ℕ × Bool)
  | localGet i => some (.localLoads, i.val, false)
  | localSet i => some (.localStores, i.val, false)
  | localTee i => some (.localStores, i.val, false)
  | globalGet i => some (.globalLoads, i.val, false)
  | globalSet i => some (.globalStores, i.val, false)
  | i32Load _ => some (.memoryOps, 4, false)
  | i64Load _ => some (.memoryOps, 8, false)
  | i32Store _ => some (.memoryOps, 4, true)
  | i64Store _ => some (.memoryOps, 8, true)
  | brIf _ => some (.branchConditions, 0, false)
  | brTable _ _ => some (.tableIndexOps, 0, false)
  | call f => some (.callArgs, f.val, false)
  | _ => none

/-- The entry of an operator in a list. -/
def entry (c : Column) (e : U64 × Operator) : Option Entry :=
  match e.2.listed with
  | some (c', row) => if c' = c then some (e.1, row) else none
  | none => none

/-- Every operator has been read, and each list has the entries of its operators, once each and in
order. -/
structure SsaBody.Covers (out : SsaBody) (ops : List (U64 × Operator)) : Prop where
  count : out.operator_count = ops.length
  column : ∀ c, out.column c = ops.filterMap (entry c)

/-! ## What the pass knows -/

/-- The result of an operation on two values, where it is known. -/
def foldConst (op : I32Arith) (a b : Option ℤ) : Option ℤ :=
  match a, b with
  | some x, some y =>
    match op with
    | .add => some (asI32 (x + y))
    | .sub => some (asI32 (x - y))
    | .mul => some (asI32 (x * y))
    | _ => none
  | _, _ => none

/-- An `i128` does not hold the number. -/
def beyondI128 (z : ℤ) : Bool := !decide (-2 ^ 127 ≤ z ∧ z < 2 ^ 127)

/-- The folding of an operation overflows. -/
def foldOverflows (op : I32Arith) (a b : Option ℤ) : Bool :=
  match a, b with
  | some x, some y =>
    match op with
    | .add => beyondI128 (x + y)
    | .sub => beyondI128 (x - y)
    | .mul => beyondI128 (x * y)
    | _ => false
  | _, _ => false

/-- The values that the pass knows at a point of the code, each with its constant if that is known:
those on the stack, from the top, and those of the locals; and how many values there have been. -/
structure SsaFrame where
  stack : List (Option ℤ)
  locals : U32 → Option (Option ℤ)
  values : ℕ

namespace SsaFrame

/-- The frame at the beginning: the parameters are known. -/
def start (n_params : ℕ) : SsaFrame :=
  ⟨[], fun i => if i.val < n_params then some none else none, n_params⟩

/-- A new value. -/
def push (f : SsaFrame) (c : Option ℤ) : SsaFrame :=
  { f with stack := c :: f.stack, values := f.values + 1 }

/-- The top of the stack goes. -/
def pop (f : SsaFrame) : SsaFrame := { f with stack := f.stack.tail }

/-- The value on top becomes that of a local. -/
def write (f : SsaFrame) (i : U32) : SsaFrame :=
  match f.stack.head? with
  | some c => { f with locals := Function.update f.locals i (some c) }
  | none => f

/-- The constant on top. -/
def top (f : SsaFrame) : Option ℤ := f.stack.head?.join

/-- The frame behind an operator. -/
def step (f : SsaFrame) : Operator → SsaFrame
  | .i32Const value => f.push (some value.toInt)
  | .i64Const value => f.push (some value.toInt)
  | .f32Const bits => f.push (some bits.toNat)
  | .f64Const bits => f.push (some bits.toNat)
  | .localGet i =>
    match f.locals i with
    | some c => { f with stack := c :: f.stack }
    | none => f
  | .localSet i => (f.write i).pop
  | .localTee i => f.write i
  | .globalGet _ => f.push none
  | .globalSet _ => f.pop
  | .i32Load _ => f.pop.push none
  | .i64Load _ => f.pop.push none
  | .i32Store _ => f.pop.pop
  | .i64Store _ => f.pop.pop
  | .i32Arith op => f.pop.pop.push (foldConst op f.pop.top f.top)
  | .i32Eqz => f.pop.push none
  | .i32Compare _ => f.pop.pop.push none
  | .brIf _ => f.pop
  | .brTable _ _ => f.pop
  | .return_ => f.pop
  | .drop => f.pop
  | _ => f

/-- The operands that the list of an operator needs are known. -/
def Records (f : SsaFrame) : Operator → Bool
  | .localGet i => (f.locals i).isSome
  | .localSet _ => f.stack.head?.isSome
  | .localTee _ => f.stack.head?.isSome
  | .globalSet _ => f.stack.head?.isSome
  | .i32Load _ => f.stack.head?.isSome
  | .i64Load _ => f.stack.head?.isSome
  | .i32Store _ => f.stack.head?.isSome && f.pop.stack.head?.isSome
  | .i64Store _ => f.stack.head?.isSome && f.pop.stack.head?.isSome
  | .brIf _ => f.stack.head?.isSome
  | .brTable _ _ => f.stack.head?.isSome
  | _ => true

/-- There is no number for another value. -/
def Full (f : SsaFrame) : Bool := decide (2 ^ 32 ≤ f.values + 1)

/-- An operator makes the number of values or a constant overflow. -/
def Overflows (f : SsaFrame) : Operator → Bool
  | .i32Const _ => f.Full
  | .i64Const _ => f.Full
  | .f32Const _ => f.Full
  | .f64Const _ => f.Full
  | .globalGet _ => f.Full
  | .i32Load _ => f.Full
  | .i64Load _ => f.Full
  | .i32Arith op => foldOverflows op f.pop.top f.top || f.Full
  | .i32Eqz => f.Full
  | .i32Compare _ => f.Full
  | _ => false

/-- The frame behind some operators. -/
def after (f : SsaFrame) (ops : List (U64 × Operator)) : SsaFrame :=
  ops.foldl (fun f e => f.step e.2) f

/-- A condition holds at each of the operators. -/
def Throughout (P : SsaFrame → Operator → Bool) : SsaFrame → List (U64 × Operator) → Prop
  | _, [] => True
  | f, e :: ops => P f e.2 = true ∧ Throughout P (f.step e.2) ops

/-- The entries that come into a list. -/
def notes (c : Column) : SsaFrame → List (U64 × Operator) → List Entry
  | _, [] => []
  | f, e :: ops => (if f.Records e.2 then (entry c e).toList else []) ++ notes c (f.step e.2) ops

end SsaFrame

/-! ## The pass at a frame -/

section Host

variable [Host] {f : SsaFrame} {s s' : SsaState} {pos next : U64} {op : Operator}

/-- A name stands for a value with the constant.  Where additions wrap, names may come up twice, and
nothing is said. -/
def SsaState.Holds (s : SsaState) (v : SsaName) (c : Option ℤ) : Prop :=
  Host.overflowChecks = true → (v, c) ∈ s.out.values.map ValueFact.key

/-- The pass knows the values of the frame. -/
structure SsaFrame.Shows (f : SsaFrame) (s : SsaState) : Prop where
  stack : List.Forall₂ s.Holds s.stack f.stack
  locals : ∀ i, Option.Rel s.Holds s.locals[i]? (f.locals i)
  version : Host.overflowChecks = true → s.version.val = f.values
  names : Host.overflowChecks = true → ((s.out.values.map ValueFact.key).map Prod.fst).Nodup
  below : Host.overflowChecks = true →
    ∀ k ∈ s.out.values.map ValueFact.key, k.1.version.val < f.values

/-- Behind an operator at a frame. -/
structure SsaFrame.Noted (f : SsaFrame) (pos : U64) (op : Operator) (s s' : SsaState) : Prop where
  shows : (f.step op).Shows s'
  count : s'.out.operator_count = s.out.operator_count
  column : ∀ c, s'.out.column c =
    s.out.column c ++ if f.Records op then (entry c (pos, op)).toList else []

omit [Host] in
lemma SsaState.use_keys (s : SsaState) (v : SsaName) (site : U64) :
    (s.use v site).out.values.map ValueFact.key = s.out.values.map ValueFact.key :=
  map_addUse v site s.out.values

omit [Host] in
lemma SsaState.use_column (s : SsaState) (v : SsaName) (site : U64) (c : Column) :
    (s.use v site).out.column c = s.out.column c := by cases c <;> rfl

omit [Host] in
lemma rel_mono {α β : Type} {r r' : α → β → Prop} (h : ∀ a b, r a b → r' a b) {o : Option α}
    {o' : Option β} (ho : Option.Rel r o o') : Option.Rel r' o o' := by
  cases ho with
  | none => exact .none
  | some hab => exact .some (h _ _ hab)

omit [Host] in
/-- An entry is written on both sides. -/
lemma rel_insert {β : Type} {r : SsaName → β → Prop} {locals : Std.ExtTreeMap U32 SsaName}
    {g : U32 → Option β} (h : ∀ i, Option.Rel r locals[i]? (g i)) {v : SsaName} {b : β} (hv : r v b)
    (i j : U32) : Option.Rel r (locals.insert i v)[j]? (Function.update g i (some b) j) := by
  rw [getElem?_insert_eq_ite]
  by_cases hj : j = i
  · rw [if_pos hj, hj, Function.update_self]
    exact .some hv
  · rw [if_neg hj, Function.update_of_ne hj]
    exact h j

namespace SsaFrame.Shows

/-- A step that leaves the stack, the locals and the names of the values as they are. -/
lemma congr (h : f.Shows s) (hstack : s'.stack = s.stack) (hlocals : s'.locals = s.locals)
    (hversion : s'.version = s.version)
    (hkeys : s'.out.values.map ValueFact.key = s.out.values.map ValueFact.key) : f.Shows s' := by
  have hholds : s'.Holds = s.Holds := by
    funext v c
    rw [SsaState.Holds, hkeys, SsaState.Holds]
  refine ⟨?_, ?_, ?_, ?_, ?_⟩
  · rw [hholds, hstack]
    exact h.stack
  · rw [hholds, hlocals]
    exact h.locals
  · rw [hversion]
    exact h.version
  · rw [hkeys]
    exact h.names
  · rw [hkeys]
    exact h.below

lemma use (h : f.Shows s) (v : SsaName) (site : U64) : f.Shows (s.use v site) :=
  h.congr rfl rfl rfl (s.use_keys v site)

/-- The top of the stack goes, in the frame and in the pass. -/
lemma pop (h : f.Shows s) (next : U64) :
    f.pop.Shows (s.popUse next).2 ∧
      Option.Rel (s.popUse next).2.Holds (s.popUse next).1 f.stack.head? ∧
      (s.popUse next).2.out.operator_count = s.out.operator_count ∧
      ∀ c, (s.popUse next).2.out.column c = s.out.column c := by
  have hstack := h.stack
  rw [SsaState.popUse]
  split
  · next v stack hs =>
    rw [hs] at hstack
    obtain ⟨c, cs, hvc, hrest, hf⟩ := List.forall₂_cons_left_iff.mp hstack
    have huse := h.use v next
    have hholds : SsaState.Holds { s.use v next with stack } = s.Holds := by
      funext w d
      exact congrArg (fun l => Host.overflowChecks = true → (w, d) ∈ l) (s.use_keys v next)
    refine ⟨⟨?_, ?_, huse.version, huse.names, huse.below⟩, ?_, rfl, s.use_column v next⟩
    · rw [hholds, SsaFrame.pop, hf]
      exact hrest
    · exact huse.locals
    · rw [hholds, hf]
      exact .some hvc
  · next hs =>
    rw [hs] at hstack
    have hf : f.stack = [] := List.forall₂_nil_left_iff.mp hstack
    refine ⟨⟨?_, h.locals, h.version, h.names, h.below⟩, ?_, rfl, fun c => by cases c <;> rfl⟩
    · rw [hs, SsaFrame.pop, hf]
      exact .nil
    · rw [hf]
      exact .none

/-- A value that the pass knows is put on the stack. -/
lemma onStack (h : f.Shows s) {v : SsaName} {c : Option ℤ} (hv : s.Holds v c) :
    SsaFrame.Shows { f with stack := c :: f.stack } { s with stack := v :: s.stack } :=
  ⟨.cons hv h.stack, h.locals, h.version, h.names, h.below⟩

/-- A local gets a value that the pass knows. -/
lemma setLocal (h : f.Shows s) {v : SsaName} {c : Option ℤ} (hv : s.Holds v c) (i : U32) :
    SsaFrame.Shows { f with locals := Function.update f.locals i (some c) }
      { s with locals := s.locals.insert i v } :=
  ⟨h.stack, rel_insert h.locals hv i, h.version, h.names, h.below⟩

/-- A value with a new name; what the other names stand for stays. -/
lemma name (h : f.Shows s) {version : U32}
    (hversion : Host.overflowChecks = true → version.val = f.values + 1) {fact : ValueFact}
    (hname : fact.name.version = s.version) :
    SsaFrame.Shows { f with values := f.values + 1 }
      { s with version, out := { s.out with values := s.out.values ++ [fact] } } := by
  have hkeys : (s.out.values ++ [fact]).map ValueFact.key =
      s.out.values.map ValueFact.key ++ [fact.key] := List.map_append
  have hmono : ∀ v c, s.Holds v c → SsaState.Holds
      { s with version, out := { s.out with values := s.out.values ++ [fact] } } v c := by
    intro v c hv hc
    rw [hkeys]
    exact List.mem_append_left _ (hv hc)
  refine ⟨h.stack.imp hmono, fun i => rel_mono hmono (h.locals i), hversion, fun hc => ?_,
    fun hc k hk => ?_⟩
  · rw [hkeys, List.map_append]
    refine List.Nodup.append (h.names hc) (List.nodup_singleton _) ?_
    rw [List.map_singleton, List.disjoint_singleton]
    intro hmem
    obtain ⟨k, hk, heq⟩ := List.mem_map.mp hmem
    have hlt := h.below hc k hk
    rw [heq, ← h.version hc, ← hname] at hlt
    exact absurd hlt (lt_irrefl _)
  · rw [hkeys] at hk
    rcases List.mem_append.mp hk with hk | hk
    · exact (h.below hc k hk).trans (Nat.lt_succ_self _)
    · rw [List.mem_singleton.mp hk, ← h.version hc, ← hname]
      exact Nat.lt_succ_self _

/-- The counter of names moves on, unless it overflows. -/
lemma nextVersion (h : f.Shows s) (hroom : Host.overflowChecks = true → f.Full = false) :
    ∃ version, addU32 s.version 1 = (.ok version : Outcome Error U32) ∧
      (Host.overflowChecks = true → version.val = f.values + 1) := by
  by_cases hchecks : Host.overflowChecks = true
  · have hlt : s.version.val + (1 : U32).val < 2 ^ 32 := by
      have hfull := hroom hchecks
      rw [SsaFrame.Full, decide_eq_false_iff_not] at hfull
      rw [h.version hchecks]
      exact not_le.mp hfull
    refine ⟨_, addU32_of_lt hlt, fun _ => ?_⟩
    rw [← h.version hchecks]
    rfl
  · refine ⟨s.version + 1, ?_, fun hc => absurd hc hchecks⟩
    rw [addU32, if_pos (.inr (Bool.not_eq_true _ ▸ hchecks))]

/-- The counter of names overflows. -/
lemma noVersion (h : f.Shows s) (hchecks : Host.overflowChecks = true) (hfull : f.Full = true) :
    addU32 s.version 1 = (.panic .overflow : Outcome Error U32) := by
  have hnot : ¬ s.version.val + (1 : U32).val < 2 ^ 32 := by
    rw [h.version hchecks]
    exact not_lt.mpr (of_decide_eq_true hfull)
  rw [addU32, if_neg (not_or.mpr ⟨hnot, by simp [hchecks]⟩)]

/-- A new value gets the next name. -/
lemma define (h : f.Shows s) (hroom : Host.overflowChecks = true → f.Full = false) (next : U64)
    (ty produced_by : String) {constant c : Option ℤ}
    (hconstant : Host.overflowChecks = true → constant = c) :
    ∃ version, s.defVal next ty produced_by constant =
        .ok (s.defined version ⟨⟨next, s.version⟩, ty, constant, [], produced_by⟩) ∧
      (f.push c).Shows (s.defined version ⟨⟨next, s.version⟩, ty, constant, [], produced_by⟩) := by
  obtain ⟨version, hadd, hversion⟩ := h.nextVersion hroom
  refine ⟨version, ?_, ?_⟩
  · rw [SsaState.defVal, hadd]
    rfl
  · refine (h.name hversion rfl).onStack fun hc => ?_
    rw [List.map_append, ← hconstant hc]
    exact List.mem_append_right _ (List.mem_singleton_self _)

/-- There is no name for the value. -/
lemma define_full (h : f.Shows s) (hchecks : Host.overflowChecks = true) (hfull : f.Full = true)
    (next : U64) (ty produced_by : String) (constant : Option ℤ) :
    s.defVal next ty produced_by constant = .panic .overflow := by
  rw [SsaState.defVal, h.noVersion hchecks hfull]
  rfl

end SsaFrame.Shows

/-! ## One operator -/

/-- An integer of 128 bits. -/
lemma i128_ok {z : ℤ} (h : Host.overflowChecks = true → beyondI128 z = false) :
    ∃ w, i128 z = (.ok w : Outcome Error ℤ) ∧ (Host.overflowChecks = true → w = z) := by
  rw [i128]
  by_cases hz : -2 ^ 127 ≤ z ∧ z < 2 ^ 127
  · exact ⟨z, if_pos hz, fun _ => rfl⟩
  · rw [if_neg hz]
    by_cases hchecks : Host.overflowChecks = true
    · have hbeyond := h hchecks
      rw [beyondI128, decide_eq_false hz] at hbeyond
      cases hbeyond
    · exact ⟨_, if_neg hchecks, fun hc => absurd hc hchecks⟩

lemma i128_beyond (hchecks : Host.overflowChecks = true) {z : ℤ} (h : beyondI128 z = true) :
    i128 z = (.panic .overflow : Outcome Error ℤ) := by
  rw [beyondI128, Bool.not_eq_true', decide_eq_false_iff_not] at h
  rw [i128, if_neg h, if_pos hchecks]

/-- Nothing is folded, or the result of the operation is. -/
lemma fold_cases (op : I32Arith) (a b : Option ℤ) :
    (fold op a b = .ok none ∧ foldConst op a b = none ∧ foldOverflows op a b = false) ∨
      ∃ z, fold op a b = (do pure (some (asI32 (← i128 z)))) ∧
        foldConst op a b = some (asI32 z) ∧ foldOverflows op a b = beyondI128 z := by
  cases a with
  | none => exact .inl ⟨rfl, rfl, rfl⟩
  | some x =>
    cases b with
    | none => exact .inl ⟨rfl, rfl, rfl⟩
    | some y =>
      cases op with
      | add => exact .inr ⟨x + y, rfl, rfl, rfl⟩
      | sub => exact .inr ⟨x - y, rfl, rfl, rfl⟩
      | mul => exact .inr ⟨x * y, rfl, rfl, rfl⟩
      | and | or | xor => exact .inl ⟨rfl, rfl, rfl⟩

/-- The folding of an operation that does not overflow. -/
lemma fold_ok {op : I32Arith} {a b : Option ℤ}
    (h : Host.overflowChecks = true → foldOverflows op a b = false) :
    ∃ c, fold op a b = .ok c ∧ (Host.overflowChecks = true → c = foldConst op a b) := by
  rcases fold_cases op a b with ⟨hfold, hconst, -⟩ | ⟨z, hfold, hconst, hover⟩
  · exact ⟨none, hfold, fun _ => hconst.symm⟩
  · rw [hover] at h
    obtain ⟨w, hw, heq⟩ := i128_ok h
    refine ⟨some (asI32 w), ?_, fun hc => by rw [hconst, heq hc]⟩
    rw [hfold, hw]
    rfl

lemma fold_overflows (hchecks : Host.overflowChecks = true) {op : I32Arith} {a b : Option ℤ}
    (h : foldOverflows op a b = true) : fold op a b = .panic .overflow := by
  rcases fold_cases op a b with ⟨-, -, hover⟩ | ⟨z, hfold, -, hover⟩
  · rw [hover] at h
    cases h
  · rw [hover] at h
    rw [hfold, i128_beyond hchecks h]
    rfl

namespace SsaFrame.Shows

/-- The constant of a name is that of its value. -/
lemma const_of_eq (h : f.Shows s) (hchecks : Host.overflowChecks = true) {v : Option SsaName}
    {c : Option (Option ℤ)} (hv : Option.Rel s.Holds v c) : const_of s.out v = c.join := by
  cases hv with
  | none => rfl
  | @some v c hvc =>
    have hnames := h.names hchecks
    rw [const_of, Option.bind_some, Option.join_some]
    obtain ⟨fact, hfact, hkey⟩ := List.mem_map.mp (hvc hchecks)
    have hfound : ∃ g, s.out.values.find? (fun f => f.name = v) = some g := by
      refine Option.isSome_iff_exists.mp (List.find?_isSome.mpr ⟨fact, hfact, ?_⟩)
      exact decide_eq_true (congrArg Prod.fst hkey)
    obtain ⟨g, hg⟩ := hfound
    -- names tell values apart
    have hsame : g.key = (v, c) := by
      refine List.inj_on_of_nodup_map hnames (List.mem_map_of_mem (List.mem_of_find?_eq_some hg))
        (hkey ▸ List.mem_map_of_mem hfact) ?_
      exact of_decide_eq_true (@List.find?_some _ (fun f : ValueFact => decide (f.name = v)) _ _ hg)
    rw [hg, Option.bind_some]
    exact congrArg Prod.snd hsame

/-- What holds of a name still holds when another one is used or popped. -/
lemma holds_popUse (s : SsaState) (next : U64) : (s.popUse next).2.Holds = s.Holds := by
  funext v c
  rw [SsaState.popUse]
  split
  · exact congrArg (fun l => Host.overflowChecks = true → (v, c) ∈ l) (s.use_keys _ next)
  · rfl

end SsaFrame.Shows

namespace SsaFrame.Noted

/-- An operator without an entry. -/
lemma plain (hshows : (f.step op).Shows s') (hcount : s'.out.operator_count = s.out.operator_count)
    (hcolumn : ∀ c, s'.out.column c = s.out.column c) (hlisted : op.listed = none) :
    f.Noted pos op s s' := by
  refine ⟨hshows, hcount, fun c => ?_⟩
  have hentry : entry c (pos, op) = none := by
    rw [entry, hlisted]
  rw [hentry, hcolumn]
  simp

/-- An operator whose entry is known to be noted, or not to be. -/
lemma listed {known : Bool} {col : Column} {row : ℕ × Bool} (hshows : (f.step op).Shows s')
    (hcount : s'.out.operator_count = s.out.operator_count) (hrecords : f.Records op = known)
    (hlisted : op.listed = some (col, row))
    (hcolumn : ∀ c, s'.out.column c =
      s.out.column c ++ if known = true ∧ col = c then [(pos, row)] else []) :
    f.Noted pos op s s' := by
  refine ⟨hshows, hcount, fun c => ?_⟩
  rw [hcolumn, hrecords, entry, hlisted]
  cases known <;> by_cases hcol : col = c <;> simp [hcol]

variable {i : U32}

omit [Host] in
lemma isSome_of_rel {r : SsaName → Option ℤ → Prop} {o : Option SsaName} {o' : Option (Option ℤ)}
    (h : Option.Rel r o o') : o'.isSome = o.isSome := by cases h <;> rfl

/-- A value is defined. -/
lemma define (h : f.Shows s) (hroom : Host.overflowChecks = true → f.Full = false)
    {ty produced_by : String} {constant c : Option ℤ}
    (hconstant : Host.overflowChecks = true → constant = c) (hstep : f.step op = f.push c)
    (hlisted : op.listed = none) :
    ∃ s', s.defVal next ty produced_by constant = .ok s' ∧ f.Noted pos op s s' := by
  obtain ⟨version, hdef, hshows⟩ := h.define hroom next ty produced_by hconstant
  exact ⟨_, hdef, .plain (hstep ▸ hshows) rfl (fun col => by cases col <;> rfl) hlisted⟩

lemma localGet (h : f.Shows s) : f.Noted pos (.localGet i) s (s.localGet pos i) := by
  have hrel := h.locals i
  have hrecords : f.Records (.localGet i) = (f.locals i).isSome := rfl
  have hstep : f.step (.localGet i) =
      match f.locals i with
      | some c => { f with stack := c :: f.stack }
      | none => f := rfl
  rw [SsaState.localGet]
  split
  · next v hv =>
    rw [hv] at hrel
    cases hc : f.locals i with
    | none => rw [hc] at hrel; cases hrel
    | some c =>
      rw [hc] at hrel hrecords hstep
      cases hrel
      rename_i hvc
      have hshows : (f.step (.localGet i)).Shows { s.use v pos with stack := v :: s.stack } := by
        rw [hstep]
        refine (h.use v pos).onStack fun hchecks => ?_
        rw [s.use_keys]
        exact hvc hchecks
      refine .listed (hshows.congr rfl rfl rfl rfl) rfl hrecords rfl fun col => ?_
      cases col <;> simp [SsaBody.column, SsaState.use]
  · next hv =>
    rw [hv] at hrel
    cases hc : f.locals i with
    | some c => rw [hc] at hrel; cases hrel
    | none =>
      rw [hc] at hrecords hstep
      exact .listed (hstep ▸ h) rfl hrecords rfl fun col => by simp

omit [Host] in
lemma write_none (hc : f.stack.head? = none) : f.write i = f ∧ f.pop = f := by
  have hnil : f.stack = [] := List.head?_eq_none_iff.mp hc
  refine ⟨by rw [SsaFrame.write, hc], ?_⟩
  rw [SsaFrame.pop, hnil, List.tail_nil, ← hnil]

/-- `local.set`, and `local.tee`, which leaves the value on the stack. -/
lemma localWrite (h : f.Shows s) (tee : Bool)
    (hstep : f.step op = if tee then f.write i else (f.write i).pop)
    (hrecords : f.Records op = f.stack.head?.isSome)
    (hlisted : op.listed = some (.localStores, i.val, false)) :
    f.Noted pos op s (s.localSet pos next i tee) := by
  obtain ⟨hpop, hrel, hcount, hcol⟩ := h.pop next
  rw [SsaState.localSet]
  split
  · next v s₁ heq =>
    rw [heq] at hpop hrel hcount hcol
    cases hc : f.stack.head? with
    | none => rw [hc] at hrel; cases hrel
    | some c =>
      rw [hc] at hrel hrecords
      cases hrel
      rename_i hvc
      refine .listed ?_ hcount hrecords hlisted fun col => ?_
      · rw [hstep, SsaFrame.write, hc]
        cases tee with
        | false => exact (hpop.setLocal hvc i).congr rfl rfl rfl rfl
        | true =>
          have hback : f = { f.pop with stack := c :: f.pop.stack } := by
            rw [SsaFrame.pop, List.cons_head?_tail hc]
          have htop := hpop.onStack hvc
          rw [← hback] at htop
          exact (htop.setLocal hvc i).congr rfl rfl rfl rfl
      · rw [← hcol]
        cases col <;> simp [SsaBody.column]
  · next s₁ heq =>
    rw [heq] at hpop hrel hcount hcol
    cases hc : f.stack.head? with
    | some c => rw [hc] at hrel; cases hrel
    | none =>
      rw [hc] at hrecords
      obtain ⟨hwrite, hsame⟩ := write_none (i := i) hc
      have hnone : f.step op = f.pop := by
        rw [hstep, hwrite]
        cases tee with
        | false => rfl
        | true => exact hsame.symm
      exact .listed (hnone ▸ hpop) hcount hrecords hlisted fun col => by simp [hcol]

/-- An operator takes its operand from the stack, and notes it if it is known. -/
lemma popped {s₁ : SsaState} {col : Column} {row : ℕ × Bool} (h : f.Shows s)
    (note : SsaName → SsaState → SsaState)
    (hsome : ∀ v s₂, s.popUse next = (some v, s₂) → s₁ = note v s₂)
    (hnone : ∀ s₂, s.popUse next = (none, s₂) → s₁ = s₂)
    (hstep : f.step op = f.pop) (hrecords : f.Records op = f.stack.head?.isSome)
    (hlisted : op.listed = some (col, row))
    (hkept : ∀ v s₂, f.pop.Shows s₂ → f.pop.Shows (note v s₂))
    (hcount : ∀ v s₂, (note v s₂).out.operator_count = s₂.out.operator_count)
    (hcolumn : ∀ v s₂ c, (note v s₂).out.column c =
      s₂.out.column c ++ if col = c then [(pos, row)] else []) : f.Noted pos op s s₁ := by
  obtain ⟨hpop, hrel, hcount', hcol⟩ := h.pop next
  have hknown := hrecords.trans (isSome_of_rel hrel)
  rcases heq : s.popUse next with ⟨_ | v, s₂⟩
  · rw [heq] at hpop hcount' hcol hknown
    obtain rfl := hnone s₂ heq
    exact .listed (hstep ▸ hpop) hcount' hknown hlisted fun c => by simp [hcol]
  · rw [heq] at hpop hcount' hcol hknown
    obtain rfl := hsome v s₂ heq
    refine .listed (hstep ▸ hkept v s₂ hpop)
      ((hcount v s₂).trans hcount') hknown hlisted fun c => ?_
    rw [hcolumn, ← hcol]
    simp

lemma globalSet (h : f.Shows s) : f.Noted pos (.globalSet i) s (s.globalSet pos next i) :=
  popped h (fun v s₂ => { s₂ with
      out := { s₂.out with global_stores := s₂.out.global_stores ++ [(pos, i, v)] } })
    (fun v s₂ heq => by rw [SsaState.globalSet, heq])
    (fun s₂ heq => by rw [SsaState.globalSet, heq])
    rfl rfl rfl (fun v s₂ hs => hs.congr rfl rfl rfl rfl) (fun v s₂ => rfl)
    fun v s₂ c => by cases c <;> simp [SsaBody.column]

lemma brIf (h : f.Shows s) (depth : U32) : f.Noted pos (.brIf depth) s (s.brIf pos next) :=
  popped h (fun v s₂ => { s₂ with
      out := { s₂.out with branch_conditions := s₂.out.branch_conditions ++ [(pos, v)] } })
    (fun v s₂ heq => by rw [SsaState.brIf, heq]) (fun s₂ heq => by rw [SsaState.brIf, heq])
    rfl rfl rfl (fun v s₂ hs => hs.congr rfl rfl rfl rfl) (fun v s₂ => rfl)
    fun v s₂ c => by cases c <;> simp [SsaBody.column]

lemma brTable (h : f.Shows s) (targets : List U32) (default : U32) :
    f.Noted pos (.brTable targets default) s (s.brTable pos next) :=
  popped h (fun v s₂ => { s₂ with
      out := { s₂.out with table_index_ops := s₂.out.table_index_ops ++ [(pos, v)] } })
    (fun v s₂ heq => by rw [SsaState.brTable, heq]) (fun s₂ heq => by rw [SsaState.brTable, heq])
    rfl rfl rfl (fun v s₂ hs => hs.congr rfl rfl rfl rfl) (fun v s₂ => rfl)
    fun v s₂ c => by cases c <;> simp [SsaBody.column]

lemma globalGet (h : f.Shows s) (hroom : Host.overflowChecks = true → f.Full = false) :
    ∃ s', s.globalGet pos next i = .ok s' ∧ f.Noted pos (.globalGet i) s s' := by
  have hnone : Host.overflowChecks = true → (none : Option ℤ) = none := fun _ => rfl
  obtain ⟨version, hdef, hshows⟩ := h.define hroom next "global" s!"global.get {i.val}" hnone
  have hrecords : f.Records (.globalGet i) = true := rfl
  refine ⟨_, by rw [SsaState.globalGet, hdef]; rfl, ?_⟩
  refine .listed (hshows.congr rfl rfl rfl rfl) rfl hrecords rfl fun col => ?_
  cases col <;> simp [SsaBody.column, SsaState.defined]

/-- A load, of `i32` or of `i64`. -/
lemma load (h : f.Shows s) (hroom : Host.overflowChecks = true → f.Full = false) (width : ℕ)
    (memarg : MemArg) (hstep : f.step op = f.pop.push none)
    (hrecords : f.Records op = f.stack.head?.isSome)
    (hlisted : op.listed = some (.memoryOps, width, false)) :
    ∃ s', s.load pos next width memarg = .ok s' ∧ f.Noted pos op s s' := by
  obtain ⟨hpop, hrel, hcount, hcol⟩ := h.pop next
  have hnone : Host.overflowChecks = true → (none : Option ℤ) = none := fun _ => rfl
  obtain ⟨version, hdef, hshows⟩ := hpop.define hroom next (if width = 4 then "i32" else "i64")
    s!"load +{memarg.offset.val}" hnone
  have hknown := hrecords.trans (isSome_of_rel hrel)
  rw [← hstep] at hshows
  cases ha : (s.popUse next).1 with
  | none =>
    refine ⟨_, by rw [SsaState.load]; dsimp only; rw [hdef, ha]; rfl, ?_⟩
    rw [ha] at hknown
    refine .listed (hshows.congr rfl rfl rfl rfl) hcount hknown hlisted fun col => ?_
    rw [← hcol]
    cases col <;> simp [SsaBody.column, SsaState.defined]
  | some a =>
    refine ⟨_, by rw [SsaState.load]; dsimp only; rw [hdef, ha]; rfl, ?_⟩
    rw [ha] at hknown
    refine .listed (hshows.congr rfl rfl rfl rfl) hcount hknown hlisted fun col => ?_
    rw [← hcol]
    cases col <;> simp [SsaBody.column, SsaState.defined]

/-- A store, of `i32` or of `i64`. -/
lemma store (h : f.Shows s) (width : ℕ) (hstep : f.step op = f.pop.pop)
    (hrecords : f.Records op = (f.stack.head?.isSome && f.pop.stack.head?.isSome))
    (hlisted : op.listed = some (.memoryOps, width, true)) :
    f.Noted pos op s (s.store pos next width) := by
  obtain ⟨hpop, hrel, hcount, hcol⟩ := h.pop next
  obtain ⟨hpop', hrel', hcount', hcol'⟩ := hpop.pop next
  rw [← hstep] at hpop'
  have hknown := hrecords.trans (congrArg₂ _ (isSome_of_rel hrel) (isSome_of_rel hrel'))
  rw [SsaState.store]
  dsimp only
  split
  · next v a ha hv =>
    rw [hv, ha] at hknown
    refine .listed ((hpop'.use _ pos).congr rfl rfl rfl rfl) (hcount'.trans hcount) hknown hlisted
      fun col => ?_
    rw [← hcol, ← hcol']
    cases col <;> simp [SsaBody.column, SsaState.use]
  · next hnot =>
    have hfalse : f.Records op = false := by
      rw [hknown]
      cases hv : (s.popUse next).1 with
      | none => rfl
      | some v =>
        cases ha : ((s.popUse next).2.popUse next).1 with
        | none => rfl
        | some a => exact absurd hv (hnot a v ha)
    exact .listed hpop' (hcount'.trans hcount) hfalse hlisted fun col => by simp [hcol', hcol]

/-- An operation on two values. -/
lemma arith (h : f.Shows s) (op : I32Arith)
    (hfits : Host.overflowChecks = true → f.Overflows (.i32Arith op) = false) :
    ∃ s', s.arith next op = .ok s' ∧ f.Noted pos (.i32Arith op) s s' := by
  obtain ⟨hpop, hrel, hcount, hcol⟩ := h.pop next
  obtain ⟨hpop', hrel', hcount', hcol'⟩ := hpop.pop next
  have hoverflows : f.Overflows (.i32Arith op) = (foldOverflows op f.pop.top f.top || f.Full) := rfl
  rw [hoverflows] at hfits
  have hstep : f.step (.i32Arith op) = f.pop.pop.push (foldConst op f.pop.top f.top) := rfl
  rw [← SsaFrame.Shows.holds_popUse (s.popUse next).2 next] at hrel
  have hfold : Host.overflowChecks = true →
      foldOverflows op
        (const_of ((s.popUse next).2.popUse next).2.out ((s.popUse next).2.popUse next).1)
        (const_of ((s.popUse next).2.popUse next).2.out (s.popUse next).1) = false := by
    intro hc
    rw [hpop'.const_of_eq hc hrel, hpop'.const_of_eq hc hrel']
    exact (Bool.or_eq_false_iff.mp (hfits hc)).1
  obtain ⟨folded, hok, hfolded⟩ := fold_ok hfold
  have hconst : Host.overflowChecks = true → folded = foldConst op f.pop.top f.top := by
    intro hc
    rw [hfolded hc, hpop'.const_of_eq hc hrel, hpop'.const_of_eq hc hrel']
    rfl
  obtain ⟨version, hdef, hshows⟩ := hpop'.define
    (fun hc => (Bool.or_eq_false_iff.mp (hfits hc)).2) next "i32" op.mnemonic hconst
  refine ⟨_, by rw [SsaState.arith]; dsimp only; rw [hok]; exact hdef, ?_⟩
  refine .plain (hstep ▸ hshows) (hcount'.trans hcount) (fun col => ?_) rfl
  rw [← hcol, ← hcol']
  cases col <;> rfl

/-- Every operator is noted at its frame, unless it overflows. -/
lemma operator [Wasmparser] (h : f.Shows s) (pos : U64) (op : Operator) (next : U64)
    (hfits : Host.overflowChecks = true → f.Overflows op = false) :
    ∃ s', s.operator pos op next = .ok s' ∧ f.Noted pos op s s' := by
  have hopaque : ∀ text, f.Shows { s with out := { s.out with
      diagnostics := s.out.diagnostics ++ [text] } } := fun text => h.congr rfl rfl rfl rfl
  cases op with
  | i32Const v => exact define h hfits (fun _ => rfl) rfl rfl
  | i64Const v => exact define h hfits (fun _ => rfl) rfl rfl
  | f32Const v => exact define h hfits (fun _ => rfl) rfl rfl
  | f64Const v => exact define h hfits (fun _ => rfl) rfl rfl
  | localGet i => exact ⟨_, rfl, localGet h⟩
  | localSet i => exact ⟨_, rfl, localWrite h false rfl rfl rfl⟩
  | localTee i => exact ⟨_, rfl, localWrite h true rfl rfl rfl⟩
  | globalGet i => exact globalGet h hfits
  | globalSet i => exact ⟨_, rfl, globalSet h⟩
  | i32Load m => exact load h hfits 4 m rfl rfl rfl
  | i64Load m => exact load h hfits 8 m rfl rfl rfl
  | i32Store m => exact ⟨_, rfl, store h 4 rfl rfl rfl⟩
  | i64Store m => exact ⟨_, rfl, store h 8 rfl rfl rfl⟩
  | i32Arith op => exact arith h op hfits
  | i32Eqz =>
    obtain ⟨hpop, -, hcount, hcol⟩ := h.pop next
    have hnone : Host.overflowChecks = true → (none : Option ℤ) = none := fun _ => rfl
    obtain ⟨version, hdef, hshows⟩ := hpop.define hfits next "i32" "i32.eqz" hnone
    refine ⟨_, hdef, .plain hshows hcount (fun col => ?_) rfl⟩
    rw [← hcol]
    cases col <;> rfl
  | i32Compare op =>
    obtain ⟨hpop, -, hcount, hcol⟩ := h.pop next
    obtain ⟨hpop', -, hcount', hcol'⟩ := hpop.pop next
    have hnone : Host.overflowChecks = true → (none : Option ℤ) = none := fun _ => rfl
    obtain ⟨version, hdef, hshows⟩ := hpop'.define hfits next "i32" op.mnemonic hnone
    refine ⟨_, hdef, .plain hshows (hcount'.trans hcount) (fun col => ?_) rfl⟩
    rw [← hcol, ← hcol']
    cases col <;> rfl
  | brIf depth => exact ⟨_, rfl, brIf h depth⟩
  | brTable targets default => exact ⟨_, rfl, brTable h targets default⟩
  | call callee =>
    have hrecords : f.Records (.call callee) = true := rfl
    refine ⟨_, rfl, .listed (h.congr rfl rfl rfl rfl) rfl hrecords rfl fun col => ?_⟩
    cases col <;> simp [SsaBody.column]
  | return_ =>
    obtain ⟨hpop, -, hcount, hcol⟩ := h.pop next
    exact ⟨_, rfl, .plain hpop hcount hcol rfl⟩
  | drop =>
    obtain ⟨hpop, -, hcount, hcol⟩ := h.pop next
    exact ⟨_, rfl, .plain hpop hcount hcol rfl⟩
  | block | loop | if_ | else_ | try_ | tryTable | br | callIndirect | returnCall
  | returnCallIndirect | unreachable | end_ | other =>
    exact ⟨_, rfl, .plain ( hopaque _) rfl (fun col => by cases col <;> rfl) rfl⟩

/-- An operator that overflows ends the pass. -/
lemma operator_overflows [Wasmparser] (h : f.Shows s) (hchecks : Host.overflowChecks = true)
    (pos : U64) {op : Operator} (next : U64) (hover : f.Overflows op = true) :
    s.operator pos op next = .panic .overflow := by
  obtain ⟨hpop, hrel, -, -⟩ := h.pop next
  obtain ⟨hpop', hrel', -, -⟩ := hpop.pop next
  cases op with
  | i32Const v => exact h.define_full hchecks hover _ _ _ _
  | i64Const v => exact h.define_full hchecks hover _ _ _ _
  | f32Const v => exact h.define_full hchecks hover _ _ _ _
  | f64Const v => exact h.define_full hchecks hover _ _ _ _
  | globalGet i =>
    show s.globalGet pos next i = _
    rw [SsaState.globalGet, h.define_full hchecks hover]
    rfl
  | i32Load m =>
    show s.load pos next 4 m = _
    rw [SsaState.load]
    dsimp only
    rw [hpop.define_full hchecks hover]
    rfl
  | i64Load m =>
    show s.load pos next 8 m = _
    rw [SsaState.load]
    dsimp only
    rw [hpop.define_full hchecks hover]
    rfl
  | i32Arith op =>
    have hor : (foldOverflows op f.pop.top f.top || f.Full) = true := hover
    rw [← SsaFrame.Shows.holds_popUse (s.popUse next).2 next] at hrel
    show s.arith next op = _
    rw [SsaState.arith]
    dsimp only
    rw [hpop'.const_of_eq hchecks hrel, hpop'.const_of_eq hchecks hrel']
    by_cases hfold : foldOverflows op f.pop.top f.top = true
    · have hpanic : fold op f.pop.top f.top = .panic .overflow := fold_overflows hchecks hfold
      rw [SsaFrame.top, SsaFrame.top] at hpanic
      rw [hpanic]
      rfl
    · have hfalse : foldOverflows op f.pop.top f.top = false := Bool.eq_false_of_not_eq_true hfold
      rw [hfalse, Bool.false_or] at hor
      have hfits : Host.overflowChecks = true → foldOverflows op f.pop.top f.top = false :=
        fun _ => hfalse
      obtain ⟨folded, hok, -⟩ := fold_ok hfits
      rw [SsaFrame.top, SsaFrame.top] at hok
      rw [hok]
      exact hpop'.define_full hchecks hor _ _ _ _
  | i32Eqz => exact hpop.define_full hchecks hover _ _ _ _
  | i32Compare op => exact hpop'.define_full hchecks hover _ _ _ _
  | localGet | localSet | localTee | globalSet | i32Store | i64Store | brIf | brTable
  | call | return_
  | drop | block | loop | if_ | else_ | try_ | tryTable | br | callIndirect | returnCall
  | returnCallIndirect | unreachable | end_ | other =>
    exact absurd hover Bool.false_ne_true

end SsaFrame.Noted

/-! ## The parameters -/

omit [Host] in
/-- One more parameter is the next local. -/
lemma SsaFrame.start_succ (n : ℕ) : SsaFrame.start (n + 1) =
    { SsaFrame.start n with
      values := (SsaFrame.start n).values + 1
      locals := Function.update (SsaFrame.start n).locals (asU32 n) (some none) } := by
  have hlocals : (fun i : U32 => if i.val < n + 1 then some none else none) =
      Function.update (SsaFrame.start n).locals (asU32 n) (some (none : Option ℤ)) := by
    funext i
    by_cases hi : i = asU32 n
    · have hle : i.val ≤ n := hi ▸ Nat.mod_le n (2 ^ 32)
      rw [hi, Function.update_self, ← hi, if_pos (Nat.lt_succ_of_le hle)]
    · rw [Function.update_of_ne hi, SsaFrame.start]
      have hne : i.val ≠ n := by
        intro heq
        exact hi (Fin.ext (by rw [← heq]; exact (Nat.mod_eq_of_lt i.isLt).symm))
      have hiff : i.val < n + 1 ↔ i.val < n := by omega
      simp only [hiff]
  rw [SsaFrame.start, hlocals]
  rfl

/-- The parameters are the values of the first locals. -/
lemma params_shows (n : ℕ) (hn : Host.overflowChecks = true → n < 2 ^ 32) :
    ∃ s, SsaState.params n = .ok s ∧ (SsaFrame.start n).Shows s ∧ s.out.operator_count = 0 ∧
      ∀ c, s.out.column c = [] := by
  induction n with
  | zero =>
    refine ⟨⟨.default, [], 0, ∅⟩, rfl,
      ⟨.nil, fun i => ?_, fun _ => rfl, fun _ => List.nodup_nil, nofun⟩,
      rfl, fun c => by cases c <;> rfl⟩
    rw [Std.ExtTreeMap.getElem?_empty]
    exact .none
  | succ n ih =>
    obtain ⟨s, hs, hshows, hcount, hcolumn⟩ := ih fun hc => (Nat.lt_succ_self n).trans (hn hc)
    obtain ⟨version, hadd, hversion⟩ := hshows.nextVersion fun hc =>
      decide_eq_false (not_le.mpr (hn hc))
    have hname := @SsaFrame.Shows.name _ _ _ hshows version hversion
      ⟨⟨0, s.version⟩, "param", none, [], s!"param {n}"⟩ rfl
    rw [SsaState.params, hs, Outcome.ok_bind]
    dsimp only
    rw [hadd, Outcome.ok_bind]
    refine ⟨_, rfl, ?_, hcount, fun c => ?_⟩
    · rw [SsaFrame.start_succ]
      refine hname.setLocal (v := ⟨0, s.version⟩) (c := none) (fun _ => ?_) _
      rw [List.map_append]
      exact List.mem_append_right _ (List.mem_singleton_self _)
    · rw [← hcolumn c]
      cases c <;> rfl

/-- The numbers of the parameters do not overflow. -/
lemma params_fits (hchecks : Host.overflowChecks = true) {n : ℕ} (h : SsaState.params n = .ok s) :
    n < 2 ^ 32 := by
  induction n generalizing s with
  | zero => exact Nat.two_pow_pos 32
  | succ n ih =>
    rw [SsaState.params] at h
    obtain ⟨s₀, hs₀, h⟩ := Outcome.bind_eq_ok.mp h
    obtain ⟨version, hadd, -⟩ := Outcome.bind_eq_ok.mp h
    obtain ⟨s₁, hs₁, hshows, -⟩ := params_shows n fun _ => ih hs₀
    obtain rfl : s₀ = s₁ := Outcome.ok.inj (hs₀.symm.trans hs₁)
    by_contra hfull
    rw [hshows.noVersion hchecks (decide_eq_true (not_lt.mp hfull))] at hadd
    cases hadd

/-! ## The loop -/

lemma counted_shows {f : SsaFrame} (h : f.Shows s) : f.Shows
    { s with out := { s.out with operator_count := s.out.operator_count + 1 } } :=
  h.congr rfl rfl rfl rfl

variable [Wasmparser] {eof : U64}

/-- The operators up to the first `end` are read and noted, when they fit. -/
lemma run_front (eof : U64) {f : SsaFrame} {s : SsaState} {front : List (U64 × Operator)}
    (back : List (U64 × Operator)) (h : f.Shows s) (hend : ∀ e ∈ front, e.2 ≠ .end_)
    (hbudget : s.out.operator_count + front.length ≤ 5000000)
    (hfits : Host.overflowChecks = true → f.Throughout (fun f op => !f.Overflows op) front) :
    ∃ s', SsaState.run (.ofList eof (front ++ back)) s = SsaState.run (.ofList eof back) s' ∧
      s'.out.operator_count = s.out.operator_count + front.length ∧
      ∀ c, s'.out.column c = s.out.column c ++ f.notes c front := by
  induction front generalizing f s with
  | nil => exact ⟨s, rfl, rfl, fun c => (List.append_nil _).symm⟩
  | cons e front ih =>
    obtain ⟨pos, op⟩ := e
    rw [List.length_cons] at hbudget
    obtain ⟨s₁, hop, hnoted⟩ := SsaFrame.Noted.operator (counted_shows h) pos op
      (OperatorsReader.ofList eof (front ++ back)).original_position
      fun hc => by simpa using (hfits hc).1
    have hcount₁ : s₁.out.operator_count = s.out.operator_count + 1 := hnoted.count
    obtain ⟨s', hrun, hcount, hcolumn⟩ := ih hnoted.shows
      (fun e he => hend e (List.mem_cons_of_mem _ he)) (by rw [hcount₁]; omega)
      fun hc => (hfits hc).2
    refine ⟨s', ?_, ?_, fun c => ?_⟩
    · rw [← hrun]
      have hcounted :=
        SsaState.counted_eq_ok.mpr ⟨(by omega : s.out.operator_count + 1 ≤ 5000000), rfl⟩
      rw [List.cons_append, OperatorsReader.ofList, SsaState.run, hcounted, Outcome.ok_bind,
        if_neg (hend (pos, op) List.mem_cons_self), hop, Outcome.ok_bind]
    · rw [hcount, hcount₁, List.length_cons]
      omega
    · rw [hcolumn, hnoted.column, SsaFrame.notes, List.append_assoc]
      rfl

/-- In a pass that ends well, the operators up to the first `end` fit. -/
lemma run_front_fits (hchecks : Host.overflowChecks = true) {f : SsaFrame} {s : SsaState}
    {front back : List (U64 × Operator)} {out : SsaBody} (h : f.Shows s)
    (hend : ∀ e ∈ front, e.2 ≠ .end_)
    (hrun : SsaState.run (.ofList eof (front ++ back)) s = .ok out) :
    f.Throughout (fun f op => !f.Overflows op) front := by
  induction front generalizing f s with
  | nil => exact trivial
  | cons e front ih =>
    obtain ⟨pos, op⟩ := e
    rw [List.cons_append, OperatorsReader.ofList, SsaState.run] at hrun
    obtain ⟨s₀, hcounted, hrun⟩ := Outcome.bind_eq_ok.mp hrun
    rw [if_neg (hend (pos, op) List.mem_cons_self)] at hrun
    obtain ⟨s₁, hop, hrest⟩ := Outcome.bind_eq_ok.mp hrun
    obtain ⟨-, rfl⟩ := SsaState.counted_eq_ok.mp hcounted
    by_cases hover : f.Overflows op = true
    · rw [SsaFrame.Noted.operator_overflows (counted_shows h) hchecks pos _ hover] at hop
      cases hop
    · have hfalse : f.Overflows op = false := Bool.eq_false_of_not_eq_true hover
      obtain ⟨s₂, hop', hnoted⟩ :=
        SsaFrame.Noted.operator (counted_shows h) pos op _ fun _ => hfalse
      obtain rfl : s₁ = s₂ := Outcome.ok.inj (hop.symm.trans hop')
      refine ⟨by simp [hfalse], ?_⟩
      exact ih hnoted.shows (fun e he => hend e (List.mem_cons_of_mem _ he)) hrest

/-- At an `end` the pass is over. -/
lemma run_end {s : SsaState} {stop : U64} {back : List (U64 × Operator)}
    (hbudget : s.out.operator_count + 1 ≤ 5000000) :
    SsaState.run (.ofList eof ((stop, .end_) :: back)) s =
      .ok { s.out with operator_count := s.out.operator_count + 1 } := by
  rw [OperatorsReader.ofList, SsaState.run, SsaState.counted_eq_ok.mpr ⟨hbudget, rfl⟩,
    Outcome.ok_bind,
    if_pos rfl]
  rfl

end Host

/-! ## Coverage -/

lemma notes_length_le (c : Column) (f : SsaFrame) (ops : List (U64 × Operator)) :
    (f.notes c ops).length ≤ (ops.filterMap (entry c)).length := by
  induction ops generalizing f with
  | nil => exact le_rfl
  | cons e ops ih =>
    have hrest := ih (f.step e.2)
    rw [SsaFrame.notes, List.length_append]
    cases he : entry c e with
    | none =>
      rw [List.filterMap_cons_none he]
      split <;> simpa using hrest
    | some row =>
      rw [List.filterMap_cons_some he, List.length_cons]
      split
      · simpa [Nat.add_comm] using hrest
      · simpa using hrest.trans (Nat.le_succ _)

/-- Every list has all its entries iff every operator is recorded. -/
lemma notes_eq_iff (f : SsaFrame) (ops : List (U64 × Operator)) :
    (∀ c, f.notes c ops = ops.filterMap (entry c)) ↔ f.Throughout SsaFrame.Records ops := by
  induction ops generalizing f with
  | nil => exact iff_of_true (fun _ => rfl) trivial
  | cons e ops ih =>
    have hlist :
        ∀ c, (e :: ops).filterMap (entry c) = (entry c e).toList ++ ops.filterMap (entry c) := by
      intro c
      cases he : entry c e with
      | none => rw [List.filterMap_cons_none he]; rfl
      | some row => rw [List.filterMap_cons_some he]; rfl
    rw [SsaFrame.Throughout, ← ih]
    by_cases hrecords : f.Records e.2 = true
    · simp only [hlist, SsaFrame.notes, hrecords, if_true, List.append_cancel_left_eq, true_and]
    · refine iff_of_false (fun h => ?_) fun h => hrecords h.1
      -- only a listed operator can be missed
      have hlisted : ∃ c row, entry c e = some row := by
        obtain ⟨pos, op⟩ := e
        cases hop : op.listed with
        | some p => exact ⟨p.1, (pos, p.2), by simp only [entry, hop, if_pos]⟩
        | none =>
          exfalso
          cases op with
          | localGet | localSet | localTee | globalGet | globalSet | i32Load | i64Load | i32Store
          | i64Store | brIf | brTable | call => cases hop
          | i32Const | i64Const | f32Const | f64Const | i32Arith | i32Eqz | i32Compare
          | block | loop
          | if_ | else_ | try_ | tryTable | br | callIndirect | returnCall | returnCallIndirect
          | return_ | unreachable | drop | end_ | other => exact hrecords rfl
      obtain ⟨c, row, he⟩ := hlisted
      have hc := congrArg List.length (h c)
      rw [SsaFrame.notes, if_neg hrecords, List.nil_append, hlist, he] at hc
      have hle := notes_length_le c (f.step e.2) ops
      simp only [Option.toList_some, List.singleton_append, List.length_cons] at hc
      omega

/-- On the code of a function within the budget, every operator is read and listed iff the code has
no constructs, the operands of every listed operator are known, and, where overflows panic, no
constant and no number of values overflows. -/
theorem analyze_values_covers_iff [Host] [Wasmparser] (body : List U8) (n_params : ℕ) (code : Code)
    (stop eof : U64) (hreads : Wasmparser.operators body = .ofList eof (code.function stop))
    (hbudget : (code.function stop).length ≤ 5000000) :
    (∃ out, analyze_values body n_params = .ok out ∧ out.Covers (code.function stop)) ↔
      code.Flat ∧ (SsaFrame.start n_params).Throughout SsaFrame.Records code.ops ∧
        (Host.overflowChecks = true → n_params < 2 ^ 32 ∧
          (SsaFrame.start n_params).Throughout (fun f op => !f.Overflows op) code.ops) := by
  rw [Code.function, List.length_append, List.length_singleton] at hbudget
  have hentries : ∀ c, (code.function stop).filterMap (entry c) = code.ops.filterMap (entry c) := by
    intro c
    rw [Code.function, List.filterMap_append]
    exact List.append_nil _
  rw [analyze_values, hreads, Code.function]
  constructor
  · rintro ⟨out, hout, hcovers⟩
    obtain ⟨s, hs, hrun⟩ := Outcome.bind_eq_ok.mp hout
    have hn : Host.overflowChecks = true → n_params < 2 ^ 32 := fun hc => params_fits hc hs
    obtain ⟨s', hs', hshows, hcount, hcolumn⟩ := params_shows n_params hn
    obtain rfl : s = s' := Outcome.ok.inj (hs.symm.trans hs')
    have hflat : code.Flat := by
      by_contra hnot
      -- the pass ends at the first inner `end`
      obtain ⟨front, ⟨pos, op⟩, back, hsplit, hfront, hop⟩ :=
        exists_first (mt code.flat_iff.mpr hnot)
      obtain rfl : op = .end_ := not_not.mp hop
      have hlen : front.length + back.length + 1 = code.ops.length := by
        rw [hsplit, List.length_append, List.length_cons, Nat.add_assoc]
      have hlength := hcovers.count
      rw [List.length_append, List.length_singleton] at hlength
      rw [hsplit, List.append_assoc] at hrun
      have hfits := fun hc => run_front_fits hc hshows hfront hrun
      obtain ⟨s₁, hrun₁, hcount₁, -⟩ := run_front eof _ hshows hfront (by omega) hfits
      rw [hrun₁, List.cons_append, run_end (by omega)] at hrun
      cases hrun
      dsimp only at hlength
      omega
    have hops := code.flat_iff.mp hflat
    have hfits := fun hc => run_front_fits hc hshows hops hrun
    obtain ⟨s₁, hrun₁, hcount₁, hcolumn₁⟩ := run_front eof [(stop, .end_)] hshows hops
      (by omega) hfits
    rw [hrun₁, run_end (by omega)] at hrun
    cases hrun
    refine ⟨hflat, (notes_eq_iff _ _).mp fun c => ?_, fun hc => ⟨hn hc, hfits hc⟩⟩
    have hc := hcovers.column c
    rw [← Code.function, hentries] at hc
    rw [← hc, ← List.nil_append (SsaFrame.notes c _ _), ← hcolumn c, ← hcolumn₁]
    cases c <;> rfl
  · rintro ⟨hflat, hrecords, hfits⟩
    have hops := code.flat_iff.mp hflat
    obtain ⟨s, hs, hshows, hcount, hcolumn⟩ := params_shows n_params fun hc => (hfits hc).1
    obtain ⟨s₁, hrun₁, hcount₁, hcolumn₁⟩ := run_front eof [(stop, .end_)] hshows hops
      (by omega) fun hc => (hfits hc).2
    refine ⟨_, by rw [hs, Outcome.ok_bind, hrun₁, run_end (by omega)], ?_, fun c => ?_⟩
    · rw [List.length_append, List.length_singleton]
      show s₁.out.operator_count + 1 = _
      omega
    · rw [← Code.function, hentries, ← (notes_eq_iff _ _).mpr hrecords c,
        ← List.nil_append (SsaFrame.notes c _ _), ← hcolumn c, ← hcolumn₁]
      cases c <;> rfl

/-- A parameter is read, and a function is called. -/
theorem analyze_values_covers_iff_flat :
    letI : Host := Host.ascii true
    letI : Wasmparser := .basic
    let code : Code := .plain 0 ⟨.localGet 0, rfl⟩ (.plain 2 ⟨.call 0, rfl⟩ .nil)
    ∃ out, analyze_values [0x20, 0, 0x10, 0, 0x0b] 1 = .ok out ∧ out.Covers (code.function 4) := by
  let _ : Host := Host.ascii true
  let _ : Wasmparser := .basic
  intro code
  have hreads : Wasmparser.operators [0x20, 0, 0x10, 0, 0x0b] = .ofList 5 (code.function 4) := by
    decide +kernel
  exact (analyze_values_covers_iff _ 1 code 4 5 hreads (by decide)).mpr
    ⟨rfl, ⟨rfl, rfl, trivial⟩, fun _ => ⟨by decide, rfl, rfl, trivial⟩⟩

/-- An empty block and a call behind it: `block`, `end`, `call 0`, `end`. -/
def callBehindBlock : Code := .construct 0 (.block 0x40) .nil 2 (.plain 3 ⟨.call 0, rfl⟩ .nil)

/-- The pass ends at the `end` of the block, and the call is not listed. -/
theorem call_behind_block_lost :
    letI : Host := Host.ascii true
    letI : Wasmparser :=
      .of [0x02, 0x40, 0x0b, 0x10, 0, 0x0b] (.ofList 6 (callBehindBlock.function 5))
    (∃ out, analyze_values [0x02, 0x40, 0x0b, 0x10, 0, 0x0b] 0 = .ok out ∧
      out.operator_count = 2 ∧ out.call_args = []) ∧
    ¬ ∃ out, analyze_values [0x02, 0x40, 0x0b, 0x10, 0, 0x0b] 0 = .ok out ∧
      out.Covers (callBehindBlock.function 5) := by
  let _ : Host := Host.ascii true
  let _ : Wasmparser :=
    .of [0x02, 0x40, 0x0b, 0x10, 0, 0x0b] (.ofList 6 (callBehindBlock.function 5))
  have hend : ∃ out, analyze_values [0x02, 0x40, 0x0b, 0x10, 0, 0x0b] 0 = .ok out ∧
      out.operator_count = 2 ∧ out.call_args = [] := ⟨_, rfl, rfl, rfl⟩
  refine ⟨hend, ?_⟩
  rintro ⟨out, hout, hcovers⟩
  obtain ⟨out', hout', hcount, -⟩ := hend
  obtain rfl : out' = out := Outcome.ok.inj (hout'.symm.trans hout)
  have hfour : out'.operator_count = 4 := hcovers.count
  rw [hcount] at hfour
  exact absurd hfour (by decide)

end ReverseMcp.Wasm
