import Mathlib.Algebra.Order.Ring.Nat
import Mathlib.Logic.Relation
import Mathlib.Logic.Function.Basic
import Mathlib.Data.List.Nodup
import Mathlib.Data.Nat.Init
import Mathlib.Order.MinMax
import Mathlib.Order.Nat
import Mathlib.Tactic.Lemma
import Mathlib.Tactic.Common

/-!
# Depth-first search for strongly connected components

Tarjan's algorithm with an explicit call stack, over any vertex type: `succ v` is the list of the
successors of `v`.  The search enters a vertex, looks at its successors one after the other, and
when it has seen them all it passes the low number on to the caller and, if the vertex is the root
of a component, takes the component off the stack.

`Inv` is what every state of the search satisfies.  Seen vertices are on the stack or done, and a
done vertex has only done successors.  The vertices of the call stack reach everything above them
(`reaches`), every vertex of the stack reaches the one its low number stands for (`low_reach`), and
the low numbers of the upper calls cover all edges looked at so far (`covers`).  Together these say
that what lies above a root on the stack is a strongly connected component.
-/

namespace ReverseMcp.Graph

open Relation

variable {V : Type}

/-- There is an edge from `v` to `w`. -/
def Edge (succ : V → List V) (v w : V) : Prop := w ∈ succ v

/-- There is a path from `v` to `w`. -/
def Reach (succ : V → List V) : V → V → Prop := ReflTransGen (Edge succ)

/-- Two vertices are in the same strongly connected component. -/
def SameScc (succ : V → List V) (v w : V) : Prop := Reach succ v w ∧ Reach succ w v

/-- The vertices of one graph stand for those of another one that its edges lead between. -/
structure Names {W : Type} (succ : V → List V) (succ' : W → List W) (name : V → W → Prop) :
    Prop where
  unique : ∀ v x y, name v x → name v y → x = y
  inj : ∀ v w x, name v x → name w x → v = w
  edge_iff : ∀ v w x y, name v x → name w y → (w ∈ succ v ↔ y ∈ succ' x)
  named : ∀ v, ∀ w ∈ succ v, ∃ y, name w y
  names : ∀ x, ∀ y ∈ succ' x, ∃ w, name w y

section Names

variable {W : Type} {succ : V → List V} {succ' : W → List W} {name : V → W → Prop} {v w : V}
  {x y : W}

lemma Names.symm (h : Names succ succ' name) : Names succ' succ fun x v => name v x where
  unique x v w := h.inj v w x
  inj x y v := h.unique v x y
  edge_iff x y v w hv hw := (h.edge_iff v w x y hv hw).symm
  named := h.names
  names := h.named

/-- A path of one graph is a path of the other. -/
lemma Names.follow (h : Names succ succ' name) (hv : name v x) (hreach : Reach succ v w) :
    ∃ y, name w y ∧ Reach succ' x y := by
  induction hreach with
  | refl => exact ⟨x, hv, .refl⟩
  | @tail u w _ hedge ih =>
    obtain ⟨y, hu, hreach⟩ := ih
    obtain ⟨z, hw⟩ := h.named u w hedge
    exact ⟨z, hw, hreach.tail ((h.edge_iff u w y z hu hw).mp hedge)⟩

lemma Names.reach_iff (h : Names succ succ' name) (hv : name v x) (hw : name w y) :
    Reach succ v w ↔ Reach succ' x y := by
  constructor
  · intro hreach
    obtain ⟨y', hw', hreach⟩ := h.follow hv hreach
    exact h.unique w y y' hw hw' ▸ hreach
  · intro hreach
    obtain ⟨w', hw', hreach⟩ := h.symm.follow hv hreach
    exact h.inj w w' y hw hw' ▸ hreach

/-- The components are the same. -/
lemma Names.sameScc_iff (h : Names succ succ' name) (hv : name v x) (hw : name w y) :
    SameScc succ v w ↔ SameScc succ' x y :=
  and_congr (h.reach_iff hv hw) (h.reach_iff hw hv)

end Names

/-- The lists hold the strongly connected components of the graph on `vs`. -/
structure Components (succ : V → List V) (vs : List V) (cs : List (List V)) : Prop where
  perm : cs.flatten.Perm vs
  ne_nil : ∀ c ∈ cs, c ≠ []
  scc : ∀ c ∈ cs, ∀ v ∈ c, ∀ w, w ∈ c ↔ SameScc succ v w

/-- The order of the components does not matter. -/
lemma Components.reorder {succ : V → List V} {vs : List V} {cs ds : List (List V)}
    (h : Components succ vs cs) (hperm : ds.Perm cs) : Components succ vs ds where
  perm := hperm.flatten.trans h.perm
  ne_nil := fun c hc => h.ne_nil c (hperm.mem_iff.mp hc)
  scc := fun c hc => h.scc c (hperm.mem_iff.mp hc)

/-- The state of the search; stacks have their top first. -/
structure Search (V : Type) where
  index : V → Option ℕ
  low : V → ℕ
  on_stack : V → Bool
  stack : List V
  next_index : ℕ
  out : List (List V)
  /-- The vertices that are being visited, with the number of successors already looked at. -/
  call : List (V × ℕ)

namespace Search

/-- The search before it has seen anything. -/
def new : Search V := ⟨fun _ => none, fun _ => 0, fun _ => false, [], 0, [], []⟩

variable [DecidableEq V]

/-- A vertex is seen for the first time. -/
def enter (s : Search V) (w : V) : Search V :=
  { s with
    index := Function.update s.index w (some s.next_index)
    low := Function.update s.low w s.next_index
    on_stack := Function.update s.on_stack w true
    stack := w :: s.stack
    next_index := s.next_index + 1
    call := (w, 0) :: s.call }

/-- The search looks at the edge from `v` to `w`. -/
def lookAt (s : Search V) (v w : V) : Search V :=
  match s.index w with
  | none => s.enter w
  | some i =>
    if s.on_stack w then { s with low := Function.update s.low v (min (s.low v) i) } else s

/-- Popping a stack up to and including `v`: what was popped and the rest. -/
def popTo (v : V) : List V → List V × List V
  | [] => ([], [])
  | w :: st => if w = v then ([w], st) else (w :: (popTo v st).1, (popTo v st).2)

/-- A finished vertex passes its low number on to the vertex it was entered from. -/
def propagate (s : Search V) (v : V) : Search V :=
  match s.call with
  | [] => s
  | (p, _) :: _ => { s with low := Function.update s.low p (min (s.low p) (s.low v)) }

/-- A finished vertex that is the root of a component takes the component off the stack. -/
def emit (s : Search V) (v : V) : Search V :=
  if s.index v = some (s.low v) then
    { s with
      stack := (popTo v s.stack).2
      on_stack := fun w => if w ∈ (popTo v s.stack).1 then false else s.on_stack w
      out := s.out ++ [(popTo v s.stack).1] }
  else s

/-- One round of the search. -/
def step (succ : V → List V) (s : Search V) : Search V :=
  match s.call with
  | [] => s
  | (v, ci) :: rest =>
    match (succ v)[ci]? with
    | some w => lookAt { s with call := (v, ci + 1) :: rest } v w
    | none => emit (propagate { s with call := rest } v) v

/-! ## The invariant -/

/-- The vertex has been seen. -/
def Seen (s : Search V) (v : V) : Prop := (s.index v).isSome

/-- The number of a vertex in the order in which they were seen. -/
def num (s : Search V) (v : V) : ℕ := (s.index v).getD 0

/-- The edge has been looked at: `v` is not being visited any more, or the cursor is behind it. -/
def Examined (succ : V → List V) (call : List (V × ℕ)) (v w : V) : Prop :=
  w ∈ succ v ∧ ∀ ci, (v, ci) ∈ call → w ∈ (succ v).take ci

/-- The numbers and the two stacks: the call stack is a part of the stack, and both have the later
vertices above the earlier ones. -/
structure Stacks (vs : List V) (s : Search V) : Prop where
  seen_mem : ∀ v, s.Seen v → v ∈ vs
  seen_lt : ∀ v, s.Seen v → s.num v < s.next_index
  num_inj : ∀ v w, s.Seen v → s.Seen w → s.num v = s.num w → v = w
  stack_seen : ∀ v ∈ s.stack, s.Seen v
  stack_sorted : s.stack.Pairwise fun v w => s.num w < s.num v
  on_stack_iff : ∀ v, s.on_stack v = true ↔ v ∈ s.stack
  call_stack : ∀ p ∈ s.call, p.1 ∈ s.stack
  call_sorted : s.call.Pairwise fun p q => s.num q.1 < s.num p.1

omit [DecidableEq V] in
lemma Stacks.seen_of_mem_call {vs : List V} {s : Search V} (h : Stacks vs s) {v : V}
    (hv : v ∈ s.call.map Prod.fst) : s.Seen v := by
  obtain ⟨p, hp, rfl⟩ := List.mem_map.mp hv
  exact h.stack_seen _ (h.call_stack p hp)

/-- Edges that have been looked at lead to seen vertices, and those of done vertices to done
ones. -/
structure Edges (succ : V → List V) (s : Search V) : Prop where
  examined : ∀ v w, s.Seen v → Examined succ s.call v w → s.Seen w
  done_closed : ∀ v w, s.Seen v → v ∉ s.stack → w ∈ succ v → s.Seen w ∧ w ∉ s.stack

/-- What the low numbers stand for. -/
structure Lows (succ : V → List V) (s : Search V) : Prop where
  low_le : ∀ v ∈ s.stack, s.low v ≤ s.num v
  low_reach : ∀ v ∈ s.stack, ∃ w ∈ s.stack, s.num w = s.low v ∧ Reach succ v w
  low_lt : ∀ v ∈ s.stack, v ∉ s.call.map Prod.fst → s.low v < s.num v
  reaches : ∀ p ∈ s.call, ∀ x ∈ s.stack, s.num p.1 ≤ s.num x → Reach succ p.1 x
  /-- An edge from above a call back to the stack is covered by that call or by one above it. -/
  covers : ∀ upper v rest, s.call.map Prod.fst = upper ++ v :: rest → ∀ x ∈ s.stack,
    s.num v ≤ s.num x → ∀ w ∈ s.stack, Examined succ s.call x w →
    ∃ q ∈ v :: upper, s.low q ≤ s.num w

/-- The components that have been found. -/
structure Output (succ : V → List V) (s : Search V) : Prop where
  mem_out : ∀ v, v ∈ s.out.flatten ↔ s.Seen v ∧ v ∉ s.stack
  out_nodup : s.out.flatten.Nodup
  out_ne_nil : ∀ c ∈ s.out, c ≠ []
  out_scc : ∀ c ∈ s.out, ∀ v ∈ c, ∀ w, w ∈ c ↔ SameScc succ v w

/-- What every state of the search on the vertices `vs` satisfies. -/
structure Inv (succ : V → List V) (vs : List V) (s : Search V) : Prop
    extends Stacks vs s, Edges succ s, Lows succ s, Output succ s

end Search

end ReverseMcp.Graph
