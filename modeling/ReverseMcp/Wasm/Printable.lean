import ReverseMcp.Wasm.Pending

/-!
# When the expressions are printed in time

`render` keeps expressions as text and prints them behind the statements that were due before.  The
operators are followed with what each expression on the stack depends on, and with whether a
statement has been printed since that writes something it reads; then its text is stale and must
not be printed.  An expression with a call must not wait for a statement that it could be seen by
or could see.
-/

namespace ReverseMcp.Wasm

open Rust

/-- An expression on the stack, as far as the order of printing depends on it. -/
structure Operand where
  foot : Footprint
  stale : Bool
deriving DecidableEq

/-- What a statement writes. -/
inductive Write where
  | localSet (i : U32)
  | globalSet (i : U32)
  | memory
  | call
deriving DecidableEq

namespace Write

/-- Something with the footprint reads what is written. -/
def touches : Write → Footprint → Bool
  | localSet i, f => f.locals.contains i
  | globalSet i, f => f.globals.contains i
  | memory, f => f.memory
  | call, f => f.shared

/-- Calls see what is written. -/
def shared : Write → Bool
  | localSet _ => false
  | _ => true

/-- Something with the footprint has another value behind the statement, which uses `used`. -/
def moves (w : Write) (used f : Footprint) : Bool := w.touches f || used.call && f.shared

/-- What a write to the world leaves. -/
structure Changes (w : Write) (σ τ : Frame) : Prop where
  locals : τ.locals = σ.locals
  agree : ∀ f : Footprint, f.call = false → w.touches f = false → f.Agree σ τ

/-- A write takes both frames further: one to a local happens alike in both, before the evaluation
of what waits and behind it; one to the world happens when nothing that waits calls, so that both
are the same. -/
inductive Follows : Write → Frame → Frame → Frame → Frame → Prop
  | put (i : U32) (x : Value) (σ τ : Frame) :
    Follows (.localSet i) σ τ (σ.put i.val x) (τ.put i.val x)
  | world {w : Write} {σ τ : Frame} (hw : w.shared = true) (h : w.Changes σ τ) : Follows w σ σ τ τ

end Write

/-- What operands depend on together, the top first. -/
def uses (ps : List Operand) : Footprint := Footprint.all (ps.reverse.map Operand.foot)

namespace Operand

variable (used : Footprint) (w : Write)

/-- An expression with a call cannot wait for the statement. -/
def blocked (p : Operand) : Bool := p.foot.call && (used.shared || w.shared || w.touches p.foot)

/-- The expression waits while a statement is printed. -/
def cross (p : Operand) : Operand :=
  { p with stale := p.stale || w.moves used p.foot }

end Operand

/-- An operator makes one expression of `n`; `stale` when its text does not say what it does. -/
def produce (n : ℕ) (make : Footprint → Footprint) (stale : Bool) (ps : List Operand) :
    Option (List Operand) :=
  let foot := make (uses (ps.take n))
  let stale := (ps.take n).any Operand.stale || stale
  if ps.length < n ∨ (stale && foot.call) then none else some (⟨foot, stale⟩ :: ps.drop n)

/-- An operator prints a statement with `n` expressions. -/
def consume (n : ℕ) (w : Write) (ps : List Operand) : Option (List Operand) :=
  let used := uses (ps.take n)
  if ps.length < n ∨ (ps.take n).any Operand.stale ∨
    (ps.drop n).any (Operand.blocked used w) then none
  else some ((ps.drop n).map (Operand.cross used w))

/-- A store, of which the text says that it is to the first memory. -/
def printStore (memarg : MemArg) (ps : List Operand) : Option (List Operand) :=
  if memarg.memory.val = 0 then consume 2 .memory ps else none

/-- An expression is dropped, and a call must not be. -/
def discard : List Operand → Option (List Operand)
  | p :: ps => if p.foot.call then none else some ps
  | [] => none

section Printable

variable (model : ModuleModel) (arity : U32 → Option (ℕ × ℕ))

/-- How many parameters and results `render` takes a function to have. -/
def ModuleModel.knownArity (f : U32) : ℕ × ℕ :=
  ((model.calleeType f).map fun t => (t.params.length, t.results.length)).getD (0, 0)

/-- A call: `render` must know the type, and a text stands for at most one result. -/
def printCall (f : U32) (ps : List Operand) : Option (List Operand) :=
  if arity f = some (model.knownArity f) then
    match model.knownArity f with
    | (params, 0) => consume params .call ps
    | (params, 1) => produce params (fun f => { f with call := true }) false ps
    | _ => none
  else none

/-- The stack behind an operator, when everything that is printed for it is right. -/
def printOperator (ps : List Operand) : Operator → Option (List Operand)
  | .i32Const _ | .i64Const _ => produce 0 id false ps
  | .localGet i => produce 0 (fun f => { f with locals := [i] }) false ps
  | .localSet i => consume 1 (.localSet i) ps
  | .localTee i =>
    (consume 1 (.localSet i) ps).bind (produce 0 (fun f => { f with locals := [i] }) false)
  | .globalGet i => produce 0 (fun f => { f with globals := [i] }) false ps
  | .globalSet i => consume 1 (.globalSet i) ps
  | .i32Load memarg | .i64Load memarg =>
    produce 1 (fun f => { f with memory := true }) (memarg.memory.val ≠ 0) ps
  | .i32Store memarg | .i64Store memarg => printStore memarg ps
  | .i32Arith _ | .i32Compare _ => produce 2 id false ps
  | .i32Eqz => produce 1 id false ps
  | .call f => printCall model arity f ps
  | .drop => discard ps
  | _ => none

/-- What is returned can be printed: at most one expression, and no call is left behind it. -/
def printReturn (results : ℕ) (ps : List Operand) : Bool :=
  results ≤ 1 && !(ps.take results).any Operand.stale && !(uses (ps.drop results)).call

/-- Everything is printed in time, up to the first `return` or the final `end`; the values that are
on the stack at the `end` are not printed at all. -/
def Printable (results : ℕ) : List Operand → List Operator → Bool
  | _, [] => true
  | ps, op :: ops =>
    if op = .end_ then results = 0
    else if op = .return_ then printReturn results ps
    else
      match printOperator model arity ps op with
      | some ps => Printable results ps ops
      | none => false

end Printable

/-! ## Expressions that wait -/

/-- What a machine shares with statements. -/
def Machine.frame (m : Machine) : Frame := ⟨m.locals, m.world, m.calls⟩

variable {I : Instance}

/-- What the condition knows about an expression. -/
def Pending.operand (p : Pending) : Operand := ⟨p.expr.foot, p.stale⟩

/-- The expressions that have their values, in the order of evaluation. -/
def live (ps : List Pending) : List Pending := ps.reverse.filter (!·.stale)

lemma footAll_eq (es : List Expr) : footAll es = Footprint.all (es.map Expr.foot) := by
  induction es with
  | nil => rfl
  | cons e es ih => rw [footAll, ih]; rfl

lemma uses_operand (ps : List Pending) : uses (ps.map Pending.operand) = depends ps.reverse := by
  simp only [uses, depends, footAll_eq, ← List.map_reverse, List.map_map]
  rfl

lemma live_append (ps qs : List Pending) : live (ps ++ qs) = live qs ++ live ps := by
  simp [live]

lemma live_cons (p : Pending) (ps : List Pending) :
    live (p :: ps) = live ps ++ if p.stale then [] else [p] := by
  cases hp : p.stale <;> simp [live, hp]

lemma live_of_fresh {ps : List Pending} (h : ∀ p ∈ ps, p.stale = false) : live ps = ps.reverse := by
  rw [live, List.filter_eq_self]
  intro p hp
  simp [h p (List.mem_reverse.mp hp)]

lemma fresh_of_any {ps : List Pending} (h : (ps.map Pending.operand).any Operand.stale = false) :
    ∀ p ∈ ps, p.stale = false := by
  intro p hp
  have hp' := List.any_eq_false.mp h p.operand (List.mem_map_of_mem hp)
  simpa [Pending.operand] using hp'

/-- The expression waits while a statement is printed. -/
def Pending.cross (used : Footprint) (w : Write) (p : Pending) : Pending :=
  { p with stale := p.stale || w.moves used p.expr.foot }

/-- The expressions that still have their values behind the statement. -/
lemma live_cross (used : Footprint) (w : Write) (ps : List Pending) :
    live (ps.map (Pending.cross used w)) =
      (live ps).filter fun p => !w.moves used p.expr.foot := by
  induction ps with
  | nil => rfl
  | cons p ps ih =>
    obtain ⟨e, v, stale⟩ := p
    rw [List.map_cons, live_cons, live_cons, List.filter_append, ih]
    congr 1
    cases stale <;> cases hmoves : w.moves used e.foot <;> simp [Pending.cross, hmoves]

/-- What does not read what is written, and does not see it in a call, still has its values. -/
lemma Write.Follows.gives {w : Write} {σ τ σ' τ' : Frame} {ps : List Pending}
    (h : w.Follows σ τ σ' τ') (hgives : Gives I ps σ τ)
    (htouch : ∀ p ∈ ps, w.touches p.expr.foot = false)
    (hcall : w.shared = true → (depends ps).call = false) : Gives I ps σ' τ' := by
  induction h with
  | put i x σ τ =>
    refine hgives.put x fun hi => ?_
    obtain ⟨p, hp, hi⟩ := mem_depends_locals.mp hi
    have hnot : p.expr.foot.locals.contains i = false := htouch p hp
    simp [hi] at hnot
  | world hw h =>
    have hpure : (depends ps).call = false := hcall hw
    exact hgives.frame hpure (depends_agree fun p hp =>
      h.agree p.expr.foot (depends_call_eq_false.mp hpure p hp) (htouch p hp))

lemma Write.changes_global {m : Machine} {i : U32} {x : Value} {world : World}
    (h : m.world.setGlobal i x = some world) :
    (Write.globalSet i).Changes m.frame { m.frame with world } := by
  rw [World.setGlobal] at h
  split at h
  case isFalse => cases h
  case isTrue hlt =>
    cases h
    refine ⟨rfl, fun f _ htouch => ⟨fun _ _ => rfl, fun j hj => ?_, fun _ => rfl⟩⟩
    have htouch : f.globals.contains i = false := htouch
    have hne : i.val ≠ j.val := by
      intro hij
      simp [Fin.ext hij, hj] at htouch
    show m.world.globals[j.val]? = (m.world.globals.set i.val x)[j.val]?
    rw [List.getElem?_set_ne hne]

lemma Write.changes_memory {m : Machine} {width : Width} {memory : U32} {offset : U64}
    {a x : Value} {world : World} (h : m.world.store width memory offset a x = some world) :
    Write.memory.Changes m.frame { m.frame with world } := by
  refine ⟨rfl, fun f _ htouch => ⟨fun _ _ => rfl, fun j _ => ?_, fun hmem => ?_⟩⟩
  · obtain ⟨mem, -, h⟩ := Option.bind_eq_some_iff.mp h
    obtain ⟨addr, -, h⟩ := Option.bind_eq_some_iff.mp h
    obtain ⟨bytes, -, h⟩ := Option.bind_eq_some_iff.mp h
    obtain ⟨mem', -, h⟩ := Option.bind_eq_some_iff.mp h
    cases h
    rfl
  · rw [show f.memory = false from htouch] at hmem
    cases hmem

lemma Write.changes_call {m : Machine} {f : U32} {args : List Value} {world : World} :
    Write.call.Changes m.frame { m.frame with world, calls := m.calls ++ [(f, args)] } :=
  ⟨rfl, fun _ _ htouch => Footprint.agree_of_locals htouch rfl⟩

/-- No call waits for a statement that it could see or be seen by. -/
def Free (used : Footprint) (w : Write) (ps : List Pending) : Prop :=
  ∀ p ∈ ps, p.expr.foot.call = true →
    used.shared = false ∧ w.shared = false ∧ w.touches p.expr.foot = false

lemma free_of_any {used : Footprint} {w : Write} {ps : List Pending}
    (h : (ps.map Pending.operand).any (Operand.blocked used w) = false) : Free used w ps := by
  intro p hp hcall
  have hfree := List.any_eq_false.mp h p.operand (List.mem_map_of_mem hp)
  simpa [Operand.blocked, Pending.operand, hcall, and_assoc] using hfree

lemma mem_live_cross {used : Footprint} {w : Write} {ps : List Pending} {p : Pending}
    (h : p ∈ live (ps.map (Pending.cross used w))) :
    p ∈ ps ∧ w.moves used p.expr.foot = false := by
  rw [live_cross] at h
  obtain ⟨hp, hmoves⟩ := List.mem_filter.mp h
  exact ⟨List.mem_reverse.mp (List.mem_filter.mp hp).1, by simpa using hmoves⟩

/-- The expressions `qs` can be evaluated before the ones that wait. -/
lemma Gives.cross {w : Write} {ps qs : List Pending} {σ τ : Frame}
    (hfresh : ∀ p ∈ qs, p.stale = false) (hfree : Free (depends qs.reverse) w ps)
    (h : Gives I (live (qs ++ ps)) σ τ) :
    ∃ ρ, Gives I qs.reverse σ ρ ∧
      Gives I (live (ps.map (Pending.cross (depends qs.reverse) w))) ρ τ := by
  rw [live_append, live_of_fresh hfresh, append_iff] at h
  obtain ⟨ρ, hps, hqs⟩ := h
  have hkept : Gives I (live (ps.map (Pending.cross (depends qs.reverse) w))) σ ρ := by
    rw [live_cross]
    refine hps.filter fun p hp hmoves => ?_
    by_contra hcall
    have hmem : p ∈ ps := List.mem_reverse.mp (List.mem_filter.mp hp).1
    obtain ⟨hshared, -, htouch⟩ := hfree p hmem (by simpa using hcall)
    simp [Write.moves, htouch, Footprint.call_of_shared hshared] at hmoves
  refine append_iff.mp ((append_iff.mpr ⟨ρ, hkept, hqs⟩).swap (fun hcall => ?_) fun hcall => ?_)
  · by_contra hshared
    obtain ⟨p, hp, hp'⟩ := depends_shared.mp (by simpa using hshared)
    have hmoves := (mem_live_cross hp).2
    simp [Write.moves, hcall, hp'] at hmoves
  · obtain ⟨p, hp, hp'⟩ := depends_call.mp hcall
    exact (hfree p (mem_live_cross hp).1 hp').1

end ReverseMcp.Wasm
