import Mathlib.Data.List.Nodup
import ReverseMcp.Graph.Layers

/-!
# Depth-first orders

A depth-first search with a stack, over any vertex type: `succ v` is the list of the successors of
`v`.  The top of the stack is visited unless it was seen before, and the successors of a visited
vertex go on the stack one after the other, so that the last one is visited first.  `DepthFirst` is
the order of the visits, with the number of edges on the way to each vertex.

Entries of the stack that were seen before make no difference (`DepthFirst.congr`): a search that
leaves them out visits the vertices in the same order.
-/

namespace ReverseMcp.Graph

variable {V : Type}

/-! ## The stack -/

/-- The vertices go on the stack one after the other. -/
def pushAll (vs : List V) (d : ℕ) (stack : List (V × ℕ)) : List (V × ℕ) :=
  vs.foldl (fun stack v => (v, d) :: stack) stack

lemma pushAll_eq (vs : List V) (d : ℕ) (stack : List (V × ℕ)) :
    pushAll vs d stack = (vs.map fun v => (v, d)).reverse ++ stack := by
  induction vs generalizing stack with
  | nil => rfl
  | cons v vs ih =>
    rw [pushAll, List.foldl_cons, ← pushAll, ih]
    simp

lemma mem_pushAll {vs : List V} {d : ℕ} {stack : List (V × ℕ)} {p : V × ℕ} :
    p ∈ pushAll vs d stack ↔ (p.1 ∈ vs ∧ p.2 = d) ∨ p ∈ stack := by
  rw [pushAll_eq, List.mem_append, List.mem_reverse, List.mem_map]
  refine or_congr_left ?_
  constructor
  · rintro ⟨v, hv, rfl⟩
    exact ⟨hv, rfl⟩
  · rintro ⟨hv, rfl⟩
    exact ⟨p.1, hv, rfl⟩

lemma filter_pushAll (q : V → Bool) (vs : List V) (d : ℕ) (stack : List (V × ℕ)) :
    (pushAll vs d stack).filter (fun p => q p.1) =
      pushAll (vs.filter q) d (stack.filter fun p => q p.1) := by
  rw [pushAll_eq, pushAll_eq, List.filter_append, List.filter_reverse, List.filter_map]
  rfl

/-! ## The order -/

/-- The order of the visits that are still to come, behind the vertices `seen`, with the depth of
each. -/
inductive DepthFirst (succ : V → List V) : List V → List (V × ℕ) → List (V × ℕ) → Prop
  | done {seen : List V} : DepthFirst succ seen [] []
  | skip {seen : List V} {v : V} {d : ℕ} {stack order : List (V × ℕ)} :
    v ∈ seen → DepthFirst succ seen stack order → DepthFirst succ seen ((v, d) :: stack) order
  | visit {seen : List V} {v : V} {d : ℕ} {stack order : List (V × ℕ)} :
    v ∉ seen → DepthFirst succ (v :: seen) (pushAll (succ v) (d + 1) stack) order →
    DepthFirst succ seen ((v, d) :: stack) ((v, d) :: order)

namespace DepthFirst

variable {succ : V → List V} {seen : List V} {stack order : List (V × ℕ)}

/-- Nothing is visited that was seen before. -/
lemma not_mem_seen (h : DepthFirst succ seen stack order) : ∀ p ∈ order, p.1 ∉ seen := by
  induction h with
  | done => exact List.forall_mem_nil _
  | skip _ _ ih => exact ih
  | visit hv _ ih =>
    rw [List.forall_mem_cons]
    refine ⟨hv, ?_⟩
    intro p hp hseen
    exact ih p hp (List.mem_cons_of_mem _ hseen)

/-- No vertex is visited twice. -/
lemma nodup (h : DepthFirst succ seen stack order) : (order.map Prod.fst).Nodup := by
  induction h with
  | done => exact List.nodup_nil
  | skip _ _ ih => exact ih
  | @visit seen v d stack order hv h ih =>
    rw [List.map_cons, List.nodup_cons]
    refine ⟨?_, ih⟩
    intro hmem
    obtain ⟨p, hp, hpv⟩ := List.mem_map.mp hmem
    exact h.not_mem_seen p hp (by simp [hpv])

/-- The depth of a visit is the number of edges of some walk to the vertex. -/
lemma steps {u : V} (h : DepthFirst succ seen stack order)
    (hstack : ∀ p ∈ stack, Steps succ u p.2 p.1) : ∀ p ∈ order, Steps succ u p.2 p.1 := by
  induction h with
  | done => exact List.forall_mem_nil _
  | skip _ _ ih => exact ih fun p hp => hstack p (List.mem_cons_of_mem _ hp)
  | @visit seen v d stack order _ _ ih =>
    have hv : Steps succ u d v := hstack (v, d) (by simp)
    rw [List.forall_mem_cons]
    refine ⟨hv, ih ?_⟩
    intro p hp
    rcases mem_pushAll.mp hp with ⟨hmem, hd⟩ | hp
    · rw [hd]
      exact hv.tail hmem
    · exact hstack p (List.mem_cons_of_mem _ hp)

/-- What was seen before can be put on the stack. -/
lemma skips {front : List (V × ℕ)} (hfront : ∀ p ∈ front, p.1 ∈ seen)
    (h : DepthFirst succ seen stack order) : DepthFirst succ seen (front ++ stack) order := by
  induction front with
  | nil => exact h
  | cons p front ih =>
    exact .skip (hfront p (by simp)) (ih fun q hq => hfront q (List.mem_cons_of_mem _ hq))

section Decidable
variable [DecidableEq V]

lemma filter_unseen_cons (v : V) (l : List (V × ℕ)) : l.filter (fun p => p.1 ∉ v :: seen) =
    (l.filter fun p => p.1 ∉ seen).filter fun p => p.1 ∉ v :: seen := by
  rw [List.filter_filter]
  refine List.filter_congr ?_
  intro p _
  by_cases hp : p.1 ∈ seen
  · simp [hp]
  · simp [hp]

/-- Stacks that differ in entries that were seen before lead to the same order. -/
lemma congr (h : DepthFirst succ seen stack order) : ∀ {stack' : List (V × ℕ)},
    stack'.filter (fun p => p.1 ∉ seen) = stack.filter (fun p => p.1 ∉ seen) →
    DepthFirst succ seen stack' order := by
  induction h with
  | @done seen =>
    intro stack' heq
    have hall : ∀ p ∈ stack', p.1 ∈ seen := by
      simpa [List.filter_eq_nil_iff] using heq
    rw [← List.append_nil stack']
    exact skips hall .done
  | @skip seen v d stack order hv _ ih =>
    intro stack' heq
    refine ih (heq.trans ?_)
    rw [List.filter_cons_of_neg (by simpa using hv)]
  | @visit seen v d stack order hv _ ih =>
    intro stack' heq
    rw [List.filter_cons_of_pos (by simpa using hv)] at heq
    -- the first entry that was not seen is the same one
    obtain ⟨front, back, rfl, hfront, -, hback⟩ := List.filter_eq_cons_iff.mp heq
    refine skips (fun p hp => by simpa using hfront p hp) (.visit hv (ih ?_))
    rw [filter_pushAll (fun x => decide (x ∉ v :: seen)),
      filter_pushAll (fun x => decide (x ∉ v :: seen)), filter_unseen_cons v back, hback,
      ← filter_unseen_cons v stack]

/-- What the search does next. -/
lemma next (h : DepthFirst succ seen stack order) :
    (stack.dropWhile (fun p => p.1 ∈ seen) = [] ∧ order = []) ∨
    ∃ v d rest order', stack.dropWhile (fun p => p.1 ∈ seen) = (v, d) :: rest ∧
      order = (v, d) :: order' ∧ v ∉ seen ∧
      DepthFirst succ (v :: seen) (pushAll (succ v) (d + 1) rest) order' := by
  induction h with
  | done => exact .inl ⟨rfl, rfl⟩
  | skip hv _ ih =>
    rw [List.dropWhile_cons_of_pos (by simpa using hv)]
    exact ih
  | visit hv h _ =>
    rw [List.dropWhile_cons_of_neg (by simpa using hv)]
    exact .inr ⟨_, _, _, _, rfl, rfl, hv, h⟩

/-- There is an order when all that can be reached is among finitely many vertices. -/
lemma exists_order {vs : List V} (hclosed : ∀ v ∈ vs, ∀ w ∈ succ v, w ∈ vs) (n : ℕ) :
    ∀ seen stack, (vs.filter (· ∉ seen)).length < n → (∀ p ∈ stack, p.1 ∈ vs) →
      ∃ order, DepthFirst succ seen stack order := by
  induction n with
  | zero =>
    intro seen stack hn
    omega
  | succ n ih =>
    intro seen stack hn hstack
    induction stack with
    | nil => exact ⟨[], .done⟩
    | cons p stack ihstack =>
      obtain ⟨v, d⟩ := p
      have hv : v ∈ vs := hstack (v, d) (by simp)
      have hrest : ∀ p ∈ stack, p.1 ∈ vs := fun p hp => hstack p (List.mem_cons_of_mem _ hp)
      by_cases hseen : v ∈ seen
      · obtain ⟨order, horder⟩ := ihstack hrest
        exact ⟨order, .skip hseen horder⟩
      · -- one vertex fewer is unseen from here on
        have hfewer : (vs.filter (· ∉ v :: seen)).length < (vs.filter (· ∉ seen)).length := by
          have heq : vs.filter (· ∉ v :: seen) = (vs.filter (· ∉ seen)).filter (· ≠ v) := by
            rw [List.filter_filter]
            refine List.filter_congr ?_
            intro x _
            simp
          rw [heq, List.length_filter_lt_length_iff_exists]
          exact ⟨v, List.mem_filter.mpr ⟨hv, by simpa using hseen⟩, by simp⟩
        have hpush : ∀ p ∈ pushAll (succ v) (d + 1) stack, p.1 ∈ vs := by
          intro p hp
          rcases mem_pushAll.mp hp with ⟨hmem, -⟩ | hp
          · exact hclosed v hv p.1 hmem
          · exact hrest p hp
        obtain ⟨order, horder⟩ := ih (v :: seen) _ (by omega) hpush
        exact ⟨(v, d) :: order, .visit hseen horder⟩

end Decidable

end DepthFirst

end ReverseMcp.Graph
