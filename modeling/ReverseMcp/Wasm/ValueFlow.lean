import Mathlib.Logic.Function.Basic
import ReverseMcp.Rust.Scan
import ReverseMcp.Wasm.Nesting
import ReverseMcp.Wasm.Values

/-!
# Where values go

An operator takes operands from the stack and may give a value, and a local holds the value that was
last written to it.  A `ValueFlow` follows the values of any kind through a sequence of operators:
by their numbers, say, or by what produced them.  For the pass over a body, `operator_values` says
what an operator does to the list of values.
-/

namespace ReverseMcp.Wasm

open Rust

/-- The number of operands that an operator takes, as far as the pass tells operators apart. -/
def Operator.operands : Operator → ℕ
  | localSet _ | localTee _ | globalSet _ | i32Load _ | i64Load _ | i32Eqz | brIf _ | brTable _ _
  | return_ | drop => 1
  | i32Store _ | i64Store _ | i32Arith _ | i32Compare _ => 2
  | _ => 0

/-- The operator gives a new value. -/
def Operator.gives : Operator → Bool
  | i32Const _ | i64Const _ | f32Const _ | f64Const _ | globalGet _ | i32Load _ | i64Load _
  | i32Arith _ | i32Eqz | i32Compare _ => true
  | _ => false

/-- The values on the stack, from the top, and in the locals, and how many there have been. -/
structure ValueFlow (α : Type) where
  stack : List α
  locals : U32 → Option α
  values : ℕ

namespace ValueFlow

variable {α : Type}

/-- At the beginning the parameters are the first locals. -/
def start (param : ℕ → α) (n_params : ℕ) : ValueFlow α where
  stack := []
  locals := fun i => if i.val < n_params then some (param i.val) else none
  values := n_params

/-- Operands are taken from the stack. -/
def pop (f : ValueFlow α) (n : ℕ) : ValueFlow α := { f with stack := f.stack.drop n }

/-- A new value is put on the stack. -/
def push (f : ValueFlow α) (a : α) : ValueFlow α :=
  { f with stack := a :: f.stack, values := f.values + 1 }

/-- The value on top becomes that of a local. -/
def write (f : ValueFlow α) (i : U32) : ValueFlow α :=
  match f.stack.head? with
  | some a => { f with locals := Function.update f.locals i (some a) }
  | none => f

/-- One operator, with what is to be known of the value that it gives. -/
def step (new : ℕ → Operator → α) (f : ValueFlow α) (op : Operator) : ValueFlow α :=
  match op with
  | .localGet i =>
    match f.locals i with
    | some a => { f with stack := a :: f.stack }
    | none => f
  | .localSet i => (f.write i).pop 1
  | .localTee i => f.write i
  | op =>
    if op.gives then (f.pop op.operands).push (new f.values op) else f.pop op.operands

lemma step_localGet_some {new : ℕ → Operator → α} {f : ValueFlow α} {i : U32} {a : α}
    (h : f.locals i = some a) :
    f.step new (.localGet i) = { f with stack := a :: f.stack } := by
  simp only [step, h]

lemma step_localGet_none {new : ℕ → Operator → α} {f : ValueFlow α} {i : U32}
    (h : f.locals i = none) : f.step new (.localGet i) = f := by
  simp only [step, h]

/-- The operands that an operator takes. -/
def taken (f : ValueFlow α) (op : Operator) : List α := f.stack.take op.operands

/-- The operators one after the other. -/
def after (new : ℕ → Operator → α) (f : ValueFlow α) (ops : List (U64 × Operator)) : ValueFlow α :=
  ops.foldl (fun f e => f.step new e.2) f

/-- What each of the operators takes, with its position. -/
def consumptions (new : ℕ → Operator → α) : ValueFlow α → List (U64 × Operator) → List (U64 × α)
  | _, [] => []
  | f, e :: ops => (f.taken e.2).map (fun a => (e.1, a)) ++ consumptions new (f.step new e.2) ops

lemma values_step (new : ℕ → Operator → α) (f : ValueFlow α) (op : Operator) :
    (f.step new op).values = f.values + if op.gives then 1 else 0 := by
  have hwrite : ∀ i, (f.write i).values = f.values := by
    intro i
    rw [write]
    split <;> rfl
  cases op with
  | localGet i =>
    cases h : f.locals i with
    | some a => rw [step_localGet_some h]; rfl
    | none => rw [step_localGet_none h]; rfl
  | localSet i => exact hwrite i
  | localTee i => exact hwrite i
  | _ => rfl

lemma values_after (new : ℕ → Operator → α) (f : ValueFlow α) (ops : List (U64 × Operator)) :
    (f.after new ops).values = f.values + ops.countP (fun e => e.2.gives) := by
  induction ops generalizing f with
  | nil => rfl
  | cons e ops ih =>
    rw [after, List.foldl_cons, ← after, ih, values_step, List.countP_cons, Nat.add_assoc,
      Nat.add_comm (List.countP _ _)]

/-- What is taken is taken by one of the operators. -/
lemma mem_consumptions {new : ℕ → Operator → α} {f : ValueFlow α} {ops : List (U64 × Operator)}
    {c : U64 × α} (h : c ∈ f.consumptions new ops) : ∃ e ∈ ops, e.1 = c.1 ∧ e.2.operands ≠ 0 := by
  induction ops generalizing f with
  | nil => cases h
  | cons e ops ih =>
    rcases List.mem_append.mp h with h | h
    · obtain ⟨a, ha, rfl⟩ := List.mem_map.mp h
      refine ⟨e, List.mem_cons_self, rfl, fun hzero => ?_⟩
      rw [taken, hzero, List.take_zero] at ha
      cases ha
    · obtain ⟨e', he', hpos⟩ := ih h
      exact ⟨e', List.mem_cons_of_mem _ he', hpos⟩

end ValueFlow

/-- The positions at which the operators and the end of the body are read go up. -/
def Ascending (eof : U64) (ops : List (U64 × Operator)) : Prop :=
  (ops.map Prod.fst ++ [eof]).Pairwise (· < ·)

lemma Ascending.head {eof : U64} {back : List (U64 × Operator)} {e : U64 × Operator}
    (h : Ascending eof (e :: back)) :
    e.1 < (OperatorsReader.ofList eof back).original_position := by
  rw [Ascending, List.map_cons, List.cons_append, List.pairwise_cons] at h
  refine h.1 _ ?_
  cases back with
  | nil => exact List.mem_singleton_self eof
  | cons e' back => exact List.mem_cons_self

lemma Ascending.next {eof : U64} {front back : List (U64 × Operator)} {e : U64 × Operator}
    (h : Ascending eof (front ++ e :: back)) :
    e.1 < (OperatorsReader.ofList eof back).original_position := by
  rw [Ascending, List.map_append, List.append_assoc] at h
  exact Ascending.head (List.pairwise_append.mp h).2.1

lemma Ascending.tail {eof : U64} {e : U64 × Operator} {ops : List (U64 × Operator)}
    (h : Ascending eof (e :: ops)) : Ascending eof ops := (List.pairwise_cons.mp h).2

lemma Ascending.eq_of_fst_eq {eof : U64} {ops : List (U64 × Operator)} (h : Ascending eof ops)
    {e e' : U64 × Operator} (he : e ∈ ops) (he' : e' ∈ ops) (heq : e.1 = e'.1) : e = e' := by
  have hnodup : (ops.map Prod.fst).Nodup :=
    (List.pairwise_append.mp h).1.imp fun hlt => ne_of_lt hlt
  exact List.inj_on_of_nodup_map hnodup he he' heq

/-! ## The values of the pass -/

/-- Uses of values, one after the other. -/
def addUses (uses : List (SsaName × U64)) (facts : List ValueFact) : List ValueFact :=
  uses.foldl (fun facts u => addUse u.1 u.2 facts) facts

lemma addUses_append (us vs : List (SsaName × U64)) (facts : List ValueFact) :
    addUses (us ++ vs) facts = addUses vs (addUses us facts) := List.foldl_append

lemma map_addUses (uses : List (SsaName × U64)) (facts : List ValueFact) :
    (addUses uses facts).map ValueFact.key = facts.map ValueFact.key := by
  induction uses generalizing facts with
  | nil => rfl
  | cons u uses ih => exact (ih _).trans (map_addUse u.1 u.2 facts)

/-- Some values get uses, and a new value gets a name when the operator gives one. -/
structure SsaState.Yields (s s' : SsaState) (next : U64) (gives : Bool) : Prop where
  count : s'.out.operator_count = s.out.operator_count
  values : ∃ uses facts, s'.out.values = addUses uses s.out.values ++ facts ∧
    facts.map (·.name) = if gives then [⟨next, s.version⟩] else []

/-- The states differ at most in the diagnostics and in the lists of places. -/
structure SsaState.Alike (s s' : SsaState) : Prop where
  stack : s'.stack = s.stack
  locals : s'.locals = s.locals
  version : s'.version = s.version
  values : s'.out.values = s.out.values
  count : s'.out.operator_count = s.out.operator_count

section
variable {s s' : SsaState} {pos next : U64}

lemma SsaState.Alike.refl (s : SsaState) : s.Alike s := ⟨rfl, rfl, rfl, rfl, rfl⟩

lemma globalSet_alike (s : SsaState) (pos next : U64) (i : U32) :
    (s.popUse next).2.Alike (s.globalSet pos next i) := by
  rw [SsaState.globalSet]
  split
  · next v s₁ heq => rw [heq]; exact ⟨rfl, rfl, rfl, rfl, rfl⟩
  · next s₁ heq => rw [heq]; exact .refl s₁

lemma brIf_alike (s : SsaState) (pos next : U64) :
    (s.popUse next).2.Alike (s.brIf pos next) := by
  rw [SsaState.brIf]
  split
  · next v s₁ heq => rw [heq]; exact ⟨rfl, rfl, rfl, rfl, rfl⟩
  · next s₁ heq => rw [heq]; exact .refl s₁

lemma brTable_alike (s : SsaState) (pos next : U64) :
    (s.popUse next).2.Alike (s.brTable pos next) := by
  rw [SsaState.brTable]
  split
  · next v s₁ heq => rw [heq]; exact ⟨rfl, rfl, rfl, rfl, rfl⟩
  · next s₁ heq => rw [heq]; exact .refl s₁

/-- A value is used, if there is one. -/
lemma popUse_values (s : SsaState) (next : U64) :
    (s.popUse next).2.version = s.version ∧
      (s.popUse next).2.out.operator_count = s.out.operator_count ∧
      ∃ uses, (s.popUse next).2.out.values = addUses uses s.out.values := by
  rw [SsaState.popUse]
  split
  · next v stack hs => exact ⟨rfl, rfl, [(v, next)], rfl⟩
  · exact ⟨rfl, rfl, [], rfl⟩

lemma SsaState.Yields.of_uses (uses : List (SsaName × U64))
    (hcount : s'.out.operator_count = s.out.operator_count)
    (huses : s'.out.values = addUses uses s.out.values) : s.Yields s' next false :=
  ⟨hcount, uses, [], by rw [huses, List.append_nil], rfl⟩

/-- The top is taken, and something is noted. -/
lemma SsaState.Yields.of_pop (h : (s.popUse next).2.Alike s') : s.Yields s' next false := by
  obtain ⟨-, hcount, uses, huses⟩ := popUse_values s next
  exact .of_uses uses (h.count.trans hcount) (h.values.trans huses)

variable [Host] {ty produced_by : String} {constant : Option ℤ}

/-- A value is defined behind some uses. -/
lemma SsaState.Yields.of_defVal {t : SsaState} (uses : List (SsaName × U64))
    (hcount : t.out.operator_count = s.out.operator_count) (hversion : t.version = s.version)
    (huses : t.out.values = addUses uses s.out.values)
    (h : t.defVal next ty produced_by constant = .ok s') : s.Yields s' next true := by
  obtain ⟨version, -, h⟩ := Outcome.bind_eq_ok.mp h
  cases h
  refine ⟨hcount, uses, [⟨⟨next, t.version⟩, ty, constant, [], produced_by⟩], ?_, ?_⟩
  · rw [← huses]
  · rw [← hversion]
    rfl

/-- What an operator does to the list of values. -/
lemma operator_values [Wasmparser] {op : Operator} (h : s.operator pos op next = .ok s') :
    s.Yields s' next op.gives := by
  obtain ⟨hversion, hcount, uses, huses⟩ := popUse_values s next
  obtain ⟨hversion', hcount', uses', huses'⟩ := popUse_values (s.popUse next).2 next
  rw [hversion] at hversion'
  rw [hcount] at hcount'
  rw [huses, ← addUses_append] at huses'
  cases op with
  | i32Const v | i64Const v | f32Const v | f64Const v => exact .of_defVal [] rfl rfl rfl h
  | localGet i =>
    cases h
    rw [SsaState.localGet]
    split
    · next v hv => exact .of_uses [(v, pos)] rfl rfl
    · exact .of_uses [] rfl rfl
  | localSet i | localTee i =>
    cases h
    rw [SsaState.localSet]
    split
    · next v s₁ heq =>
      rw [heq] at hcount huses
      exact .of_uses uses hcount huses
    · next s₁ heq =>
      rw [heq] at hcount huses
      exact .of_uses uses hcount huses
  | globalGet i =>
    obtain ⟨s₁, hdef, h⟩ := Outcome.bind_eq_ok.mp h
    cases h
    have hyields : s.Yields s₁ next true := .of_defVal [] rfl rfl rfl hdef
    split <;> exact ⟨hyields.count, hyields.values⟩
  | globalSet i =>
    cases h
    exact .of_pop (globalSet_alike s pos next i)
  | i32Load memarg | i64Load memarg =>
    obtain ⟨s₁, hdef, h⟩ := Outcome.bind_eq_ok.mp h
    cases h
    have hyields : s.Yields s₁ next true := .of_defVal uses hcount hversion huses hdef
    split <;> exact ⟨hyields.count, hyields.values⟩
  | i32Store memarg | i64Store memarg =>
    cases h
    rw [SsaState.store]
    dsimp only
    split
    · next a v ha hv =>
      refine .of_uses ((uses ++ uses') ++ [(v, pos)]) hcount' ?_
      rw [addUses_append, ← huses']
      rfl
    · exact .of_uses _ hcount' huses'
  | i32Arith op =>
    obtain ⟨folded, -, h⟩ := Outcome.bind_eq_ok.mp h
    exact .of_defVal _ hcount' hversion' huses' h
  | i32Eqz => exact .of_defVal uses hcount hversion huses h
  | i32Compare op => exact .of_defVal _ hcount' hversion' huses' h
  | brIf depth =>
    cases h
    exact .of_pop (brIf_alike s pos next)
  | brTable targets default =>
    cases h
    exact .of_pop (brTable_alike s pos next)
  | return_ | drop =>
    cases h
    exact .of_pop (.refl _)
  | call f | block | loop | if_ | else_ | try_ | tryTable | br | callIndirect | returnCall
  | returnCallIndirect | unreachable | end_ | other =>
    cases h
    exact .of_uses [] rfl rfl

end

end ReverseMcp.Wasm
