import ReverseMcp.Wasm.Statements

/-!
# What an expression depends on

The footprint of an expression: the locals and globals it reads, whether it reads memory, and
whether it calls a function, which may read and write all globals and memories.  Evaluation respects
every relation between frames that all operators respect (`related_of_respects`).  So expressions
without calls leave everything as it is and have the same values wherever their footprint looks the
same (`evalAll_frame`), and a write to a local that they do not read can be made before them
(`evalAll_put`).
-/

namespace ReverseMcp.Wasm

open Rust

/-- What an expression depends on. -/
structure Footprint where
  locals : List U32
  globals : List U32
  memory : Bool
  call : Bool
deriving DecidableEq

namespace Footprint

/-- Nothing. -/
def none : Footprint := ⟨[], [], false, false⟩

/-- Both. -/
def union (f g : Footprint) : Footprint :=
  ⟨f.locals ++ g.locals, f.globals ++ g.globals, f.memory || g.memory, f.call || g.call⟩

/-- Something that a call may read or write. -/
def shared (f : Footprint) : Bool := !f.globals.isEmpty || f.memory || f.call

/-- The union of a list. -/
def all (fs : List Footprint) : Footprint := fs.foldr union none

end Footprint

mutual

/-- The footprint of an expression. -/
def Expr.foot : Expr → Footprint
  | .i32Const _ | .i64Const _ | .missing _ => .none
  | .localGet i => { Footprint.none with locals := [i] }
  | .globalGet i => { Footprint.none with globals := [i] }
  | .load _ _ addr => { addr.foot with memory := true }
  | .arith _ a b => a.foot.union b.foot
  | .eqz a => a.foot
  | .compare _ a b => a.foot.union b.foot
  | .call _ args => { footAll args with call := true }

/-- The footprint of expressions. -/
def footAll : List Expr → Footprint
  | [] => .none
  | e :: es => e.foot.union (footAll es)

end

/-- Both look the same to an expression with the footprint. -/
structure Footprint.Agree (f : Footprint) (σ τ : Frame) : Prop where
  locals : ∀ i ∈ f.locals, σ.locals[i.val]? = τ.locals[i.val]?
  globals : ∀ i ∈ f.globals, σ.world.getGlobal i = τ.world.getGlobal i
  memory : f.memory = true → σ.world.memories = τ.world.memories

namespace Footprint

variable {f g : Footprint} {σ τ : Frame}

lemma Agree.left (h : (f.union g).Agree σ τ) : f.Agree σ τ :=
  ⟨fun i hi => h.locals i (List.mem_append_left _ hi),
    fun i hi => h.globals i (List.mem_append_left _ hi),
    fun hm => h.memory (by simp [union, hm])⟩

lemma Agree.right (h : (f.union g).Agree σ τ) : g.Agree σ τ :=
  ⟨fun i hi => h.locals i (List.mem_append_right _ hi),
    fun i hi => h.globals i (List.mem_append_right _ hi),
    fun hm => h.memory (by simp [union, hm])⟩

/-- Expressions that depend on locals only do not see the world. -/
lemma agree_of_locals (hs : f.shared = false) (h : σ.locals = τ.locals) : f.Agree σ τ := by
  simp only [shared, Bool.or_eq_false_iff, Bool.not_eq_false', List.isEmpty_iff] at hs
  obtain ⟨⟨hg, hm⟩, -⟩ := hs
  refine ⟨fun i _ => by rw [h], fun i hi => ?_, fun hmem => ?_⟩
  · rw [hg] at hi
    cases hi
  · rw [hm] at hmem
    cases hmem

lemma Agree.union (hf : f.Agree σ τ) (hg : g.Agree σ τ) : (f.union g).Agree σ τ := by
  refine ⟨fun i hi => ?_, fun i hi => ?_, fun hm => ?_⟩
  · exact (List.mem_append.mp hi).elim (hf.locals i) (hg.locals i)
  · exact (List.mem_append.mp hi).elim (hf.globals i) (hg.globals i)
  · exact ((Bool.or_eq_true _ _).mp hm).elim hf.memory hg.memory

lemma agree_none : none.Agree σ τ := by
  refine ⟨fun i hi => ?_, fun i hi => ?_, fun hm => ?_⟩
  · cases hi
  · cases hi
  · cases hm

lemma call_of_shared (hs : f.shared = false) : f.call = false :=
  (Bool.or_eq_false_iff.mp hs).2

@[simp] lemma none_locals : none.locals = [] := rfl

@[simp] lemma none_call : none.call = false := rfl

@[simp] lemma none_shared : none.shared = false := rfl

@[simp] lemma union_none : f.union none = f := by
  simp [union, none]

@[simp] lemma union_locals : (f.union g).locals = f.locals ++ g.locals := rfl

@[simp] lemma union_call : (f.union g).call = (f.call || g.call) := rfl

@[simp] lemma union_shared : (f.union g).shared = (f.shared || g.shared) := by
  have hempty (xs ys : List U32) : (xs ++ ys).isEmpty = (xs.isEmpty && ys.isEmpty) := by
    cases xs <;> rfl
  simp only [shared, union, hempty]
  grind

end Footprint

/-! ## One operator of an expression -/

namespace Expr

/-- The operands. -/
def args : Expr → List Expr
  | .load _ _ a | .eqz a => [a]
  | .arith _ a b | .compare _ a b => [a, b]
  | .call _ args => args
  | _ => []

/-- What the operator itself depends on. -/
def own : Expr → Footprint
  | .localGet i => { Footprint.none with locals := [i] }
  | .globalGet i => { Footprint.none with globals := [i] }
  | .load .. => { Footprint.none with memory := true }
  | .call .. => { Footprint.none with call := true }
  | _ => .none

/-- The value that an operator without effect makes of those of its operands. -/
def value : Expr → List Value → Frame → Option Value
  | .i32Const v, _, _ => some (.i32 v)
  | .i64Const v, _, _ => some (.i64 v)
  | .localGet i, _, σ => σ.locals[i.val]?
  | .globalGet i, _, σ => σ.world.getGlobal i
  | .load width offset _, [a], σ => σ.world.load width 0 offset a
  | .arith op _ _, [x, y], _ => ofI32 (fun a b => .i32 (op.eval a b)) x y
  | .eqz _, [x], _ => ofI32 (fun a _ => .ofBool (a = 0)) x x
  | .compare op _ _, [x, y], _ => ofI32 (fun a b => .ofBool (op.eval a b)) x y
  | _, _, _ => none

/-- The operator, when its operands have their values. -/
def apply (I : Instance) : Expr → List Value → Frame → Option (Value × Frame)
  | .call f _, xs, σ => do
    let (values, σ) ← σ.call I f xs
    match values with
    | [v] => some (v, σ)
    | _ => none
  | e, xs, σ => (e.value xs σ).map (·, σ)

lemma foot_eq (e : Expr) : e.foot = (footAll e.args).union e.own := by
  cases e <;> simp [foot, footAll, args, own, Footprint.union, Footprint.none]

lemma sizeOf_lt_of_mem_args {a e : Expr} (h : a ∈ e.args) : sizeOf a < sizeOf e := by
  cases e with
  | load width offset b | eqz b =>
    obtain rfl := List.mem_singleton.mp h
    simp
    try omega
  | arith op b c | compare op b c =>
    obtain rfl | h := List.mem_cons.mp h
    · simp
      omega
    · obtain rfl := List.mem_singleton.mp h
      simp
  | call f args =>
    have hlt : sizeOf a < sizeOf args := List.sizeOf_lt_of_mem h
    simp only [call.sizeOf_spec]
    omega
  | i32Const | i64Const | localGet | globalGet | missing => cases h

variable (I : Instance) {e : Expr} {xs : List Value} {v : Value} {σ σ' τ : Frame}

/-- First the operands, then the operator. -/
lemma eval_eq (e : Expr) (σ : Frame) :
    e.eval I σ = (evalAll I e.args σ).bind fun p => e.apply I p.1 p.2 := by
  cases e with
  | call f args => rfl
  | _ => simp [eval, evalAll, args, apply, value, Option.bind_assoc, Option.map_eq_bind]

/-- An operator has a value and no effect, or it calls a function with one result. -/
lemma apply_eq_some : e.apply I xs σ = some (v, σ') ↔
    e.own.call = false ∧ e.value xs σ = some v ∧ σ' = σ ∨
      ∃ f args world, e = .call f args ∧ I.invoke f xs σ.world = some ([v], world) ∧
        σ' = { σ with world, calls := σ.calls ++ [(f, xs)] } := by
  cases e with
  | call f args =>
    simp only [apply, own, Option.bind_eq_bind, Option.bind_eq_some_iff]
    constructor
    · rintro ⟨⟨values, ρ⟩, hcall, h⟩
      obtain ⟨⟨values', world⟩, hinvoke, hρ⟩ := Option.bind_eq_some_iff.mp hcall
      cases hρ
      split at h
      case h_1 x hvalues =>
        cases h
        subst hvalues
        exact .inr ⟨f, args, world, rfl, hinvoke, rfl⟩
      case h_2 => cases h
    · rintro (⟨hcall, -⟩ | ⟨f', args', world, he, hinvoke, rfl⟩)
      · cases hcall
      · cases he
        exact ⟨([v], _), by simp [Frame.call, hinvoke], rfl⟩
  | _ => simp [apply, own, Footprint.none, @eq_comm _ σ]

/-- The operator of an expression acts in the same way on related frames. -/
def Respects (R : Frame → Frame → Prop) (e : Expr) : Prop :=
  ∀ ⦃xs σ τ v σ'⦄, R σ τ → e.apply I xs σ = some (v, σ') →
    ∃ τ', e.apply I xs τ = some (v, τ') ∧ R σ' τ'

end Expr

/-- Expressions have the same values on related frames, and lead to related frames. -/
def Related (I : Instance) (R : Frame → Frame → Prop) (es : List Expr) : Prop :=
  ∀ ⦃σ τ vs σ'⦄, R σ τ → evalAll I es σ = some (vs, σ') →
    ∃ τ', evalAll I es τ = some (vs, τ') ∧ R σ' τ'

section Related

variable (I : Instance) {R : Frame → Frame → Prop}

lemma evalAll_singleton (e : Expr) (σ : Frame) :
    evalAll I [e] σ = (e.eval I σ).map fun p => ([p.1], p.2) := by
  simp [evalAll, Option.map_eq_bind]

lemma evalAll_one {a : Expr} {x : Value} {σ τ : Frame} :
    evalAll I [a] σ = some ([x], τ) ↔ a.eval I σ = some (x, τ) := by
  simp [evalAll_singleton]

lemma evalAll_two {a b : Expr} {x y : Value} {σ τ : Frame}
    (h : evalAll I [a, b] σ = some ([x, y], τ)) :
    ∃ ρ, a.eval I σ = some (x, ρ) ∧ b.eval I ρ = some (y, τ) := by
  obtain ⟨⟨x', ρ⟩, ha, h⟩ := Option.bind_eq_some_iff.mp h
  obtain ⟨⟨ys, ρ'⟩, hb, h⟩ := Option.bind_eq_some_iff.mp h
  cases h
  exact ⟨ρ, ha, (evalAll_one I).mp hb⟩

lemma related_nil : Related I R [] := by
  rintro σ τ vs σ' hR h
  cases h
  exact ⟨τ, rfl, hR⟩

lemma related_cons {e : Expr} {es : List Expr} (he : Related I R [e]) (hes : Related I R es) :
    Related I R (e :: es) := by
  rintro σ τ vs σ' hR h
  obtain ⟨⟨x, ρ⟩, hx, h⟩ := Option.bind_eq_some_iff.mp h
  obtain ⟨⟨xs, ρ'⟩, hxs, h⟩ := Option.bind_eq_some_iff.mp h
  cases h
  obtain ⟨ρτ, heτ, hρ⟩ := he hR (by rw [evalAll_singleton, hx]; rfl)
  rw [evalAll_singleton] at heτ
  obtain ⟨⟨y, ρτ'⟩, hy, hyx⟩ := Option.map_eq_some_iff.mp heτ
  cases hyx
  obtain ⟨τ', hτ', hR'⟩ := hes hρ hxs
  refine ⟨τ', ?_, hR'⟩
  simp [evalAll, hy, hτ']

lemma related_footAll {C : Footprint → Prop} (hC : ∀ f g : Footprint, C (f.union g) → C f ∧ C g) :
    ∀ es : List Expr, (∀ e ∈ es, C e.foot → Related I R [e]) → C (footAll es) → Related I R es
  | [], _, _ => related_nil I
  | e :: es, hes, h => by
    obtain ⟨he, hrest⟩ := hC _ _ h
    have hone : Related I R [e] := hes e (by simp) he
    exact related_cons I hone (related_footAll hC es (fun a ha => hes a (by simp [ha])) hrest)

lemma related_expr {C : Footprint → Prop} (hC : ∀ f g : Footprint, C (f.union g) → C f ∧ C g)
    (hR : ∀ e : Expr, C e.own → e.Respects I R) (e : Expr) (he : C e.foot) : Related I R [e] := by
  -- the induction is on the size: the operands are smaller than the expression
  induction e using (measure (sizeOf : Expr → ℕ)).wf.induction with
  | _ e ih =>
  rw [Expr.foot_eq] at he
  obtain ⟨hargs, hown⟩ := hC _ _ he
  have hall : Related I R e.args :=
    related_footAll I hC e.args (fun a ha => ih a (Expr.sizeOf_lt_of_mem_args ha)) hargs
  rintro σ τ vs σ' hστ h
  rw [evalAll_singleton, Option.map_eq_some_iff] at h
  obtain ⟨⟨v, ρ⟩, hv, hvs⟩ := h
  cases hvs
  rw [Expr.eval_eq, Option.bind_eq_some_iff] at hv
  obtain ⟨⟨xs, ρ⟩, hxs, hv⟩ := hv
  obtain ⟨ρτ, hρτ, hρ⟩ := hall hστ hxs
  obtain ⟨τ', hτ', hR'⟩ := hR e hown hρ hv
  exact ⟨τ', by simp [evalAll_singleton, Expr.eval_eq, hρτ, hτ'], hR'⟩

/-- Expressions respect a relation when all operators in them do. -/
theorem related_of_respects {C : Footprint → Prop}
    (hC : ∀ f g : Footprint, C (f.union g) → C f ∧ C g)
    (hR : ∀ e : Expr, C e.own → e.Respects I R) {es : List Expr} (hes : C (footAll es)) :
    Related I R es :=
  related_footAll I hC es (fun e _ => related_expr I hC hR e) hes

end Related

/-! ## What expressions read and change -/

section Frames

variable (I : Instance) {es : List Expr} {vs : List Value} {σ σ' τ : Frame}

/-- The value of an operator without effect is the same where its footprint looks the same. -/
lemma Expr.value_congr {e : Expr} (hagree : e.own.Agree σ τ) (xs : List Value) :
    e.value xs σ = e.value xs τ := by
  obtain ⟨hlocals, hglobals, hmemory⟩ := hagree
  cases e with
  | localGet i => exact hlocals i (by simp [Expr.own])
  | globalGet i => exact hglobals i (by simp [Expr.own])
  | load width offset a =>
    have hmem : σ.world.memories = τ.world.memories := hmemory rfl
    match xs with
    | [x] => simp only [Expr.value, World.load, hmem]
    | [] | _ :: _ :: _ => rfl
  | arith op a b | compare op a b =>
    match xs with
    | [x, y] => rfl
    | [] | [x] | _ :: _ :: _ :: _ => rfl
  | eqz a =>
    match xs with
    | [x] => rfl
    | [] | _ :: _ :: _ => rfl
  | i32Const | i64Const | call | missing => rfl

/-- An operator that does not call leaves everything as it is. -/
lemma Expr.respects_agree {e : Expr} {σ₀ τ₀ : Frame} (hcall : e.own.call = false)
    (hagree : e.own.Agree σ₀ τ₀) : e.Respects I fun σ τ => σ = σ₀ ∧ τ = τ₀ := by
  rintro xs σ τ v σ' ⟨rfl, rfl⟩ h
  obtain ⟨-, hv, rfl⟩ | ⟨f, args, world, rfl, -⟩ := (Expr.apply_eq_some I).mp h
  · rw [Expr.value_congr hagree] at hv
    exact ⟨τ, (Expr.apply_eq_some I).mpr (.inl ⟨hcall, hv, rfl⟩), rfl, rfl⟩
  · cases hcall

/-- Expressions that do not call leave everything as it is, and have the same values where their
footprint looks the same. -/
theorem evalAll_frame (hcall : (footAll es).call = false) (hagree : (footAll es).Agree σ τ)
    (h : evalAll I es σ = some (vs, σ')) : σ' = σ ∧ evalAll I es τ = some (vs, τ) := by
  have hrel : Related I (fun σ₁ τ₁ => σ₁ = σ ∧ τ₁ = τ) es :=
    related_of_respects I (C := fun f => f.call = false ∧ f.Agree σ τ)
      (fun f g hfg => ⟨⟨(Bool.or_eq_false_iff.mp hfg.1).1, hfg.2.left⟩,
        (Bool.or_eq_false_iff.mp hfg.1).2, hfg.2.right⟩)
      (fun e he => e.respects_agree I he.1 he.2) ⟨hcall, hagree⟩
  obtain ⟨τ', hτ', rfl, rfl⟩ := hrel ⟨rfl, rfl⟩ h
  exact ⟨rfl, hτ'⟩

/-- No expression writes a local. -/
theorem evalAll_locals (h : evalAll I es σ = some (vs, σ')) : σ'.locals = σ.locals := by
  have hrel : Related I (fun σ₁ τ₁ => τ₁ = σ₁ ∧ σ₁.locals = σ.locals) es := by
    refine related_of_respects I (C := fun _ => True) (fun _ _ _ => ⟨trivial, trivial⟩) ?_ trivial
    rintro e - xs σ₁ τ₁ v σ₁' ⟨rfl, hlocals⟩ h
    refine ⟨σ₁', h, rfl, ?_⟩
    obtain ⟨-, -, rfl⟩ | ⟨f, args, world, -, -, rfl⟩ := (Expr.apply_eq_some I).mp h
    · exact hlocals
    · exact hlocals
  obtain ⟨-, -, -, hlocals⟩ := hrel ⟨rfl, rfl⟩ h
  exact hlocals

/-- A local is written. -/
def Frame.put (σ : Frame) (i : ℕ) (x : Value) : Frame := { σ with locals := σ.locals.set i x }

/-- A write to a local that expressions do not read can be made before them. -/
theorem evalAll_put {i : U32} (x : Value) (hi : i ∉ (footAll es).locals)
    (h : evalAll I es σ = some (vs, σ')) :
    evalAll I es (σ.put i.val x) = some (vs, σ'.put i.val x) := by
  have hrel : Related I (fun σ₁ τ₁ => τ₁ = σ₁.put i.val x) es := by
    refine related_of_respects I (C := fun f => i ∉ f.locals)
      (fun f g hfg => not_or.mp fun h => hfg (List.mem_append.mpr h)) ?_ hi
    rintro e he xs σ₁ τ₁ v σ₁' rfl h
    refine ⟨_, ?_, rfl⟩
    rw [Expr.apply_eq_some] at h ⊢
    obtain ⟨hcall, hv, rfl⟩ | ⟨f, args, world, rfl, hinvoke, rfl⟩ := h
    · have hagree : e.own.Agree σ₁' (σ₁'.put i.val x) := by
        refine ⟨fun j hj => ?_, fun _ _ => rfl, fun _ => rfl⟩
        have hne : i.val ≠ j.val := fun hij => he (Fin.ext hij ▸ hj)
        simp only [Frame.put, List.getElem?_set, if_neg hne]
      exact .inl ⟨hcall, by rw [← Expr.value_congr hagree, hv], rfl⟩
    · exact .inr ⟨f, args, world, rfl, hinvoke, rfl⟩
  obtain ⟨τ', hτ', rfl⟩ := hrel rfl h
  exact hτ'

end Frames

end ReverseMcp.Wasm
