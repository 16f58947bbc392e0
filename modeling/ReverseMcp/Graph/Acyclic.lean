import Mathlib.Logic.Relation
import Mathlib.Order.WellFounded
import Mathlib.Data.Set.Finite.Basic
import Mathlib.Tactic.Lemma
import Mathlib.Tactic.Common

/-!
# Acyclic relations and topological orders

A relation is acyclic when nothing comes back to itself.  The elements of a list that has everything
behind its predecessors are on no cycle (`Ordered.not_cycle`), and where every element of a finite
collection has a predecessor in it there is a cycle (`exists_cycle`).
-/

namespace ReverseMcp.Graph

open Relation

variable {V : Type} {R : V → V → Prop}

/-- Nothing comes back to itself. -/
def Acyclic (R : V → V → Prop) : Prop := ∀ v, ¬ TransGen R v v

/-- Every element of the list comes behind all its predecessors. -/
def Ordered (R : V → V → Prop) (l : List V) : Prop :=
  ∀ front v back, l = front ++ v :: back → ∀ u, R u v → u ∈ front

lemma ordered_nil : Ordered R [] := by
  intro front v back h
  simp at h

/-- An element whose predecessors are all there may come next. -/
lemma Ordered.concat {l : List V} (h : Ordered R l) {v : V} (hv : ∀ u, R u v → u ∈ l) :
    Ordered R (l ++ [v]) := by
  intro front w back hsplit u hu
  rcases List.eq_nil_or_concat back with rfl | ⟨back', z, rfl⟩
  · obtain ⟨rfl, hw⟩ := List.append_inj' hsplit rfl
    rw [← (List.cons.inj hw).1] at hu
    exact hv u hu
  · have hsplit' : l ++ [v] = (front ++ w :: back') ++ [z] := by simpa using hsplit
    exact h front w back' (List.append_inj' hsplit' rfl).1 u hu

/-- Elements of an ordered list are on no cycle. -/
lemma Ordered.not_cycle {l : List V} (h : Ordered R l) {v : V} (hv : v ∈ l) :
    ¬ TransGen R v v := by
  have hplace : ∀ n front v back, front.length = n → l = front ++ v :: back → ¬ TransGen R v v := by
    intro n
    induction n using Nat.strong_induction_on with
    | _ n ih =>
      intro front v back hn hsplit hcycle
      -- the last step of the cycle comes from an earlier element, and it is on the cycle too
      obtain ⟨u, hvu, huv⟩ := TransGen.tail'_iff.mp hcycle
      obtain ⟨front', back', hfront⟩ := List.append_of_mem (h front v back hsplit u huv)
      refine ih front'.length ?_ front' u (back' ++ v :: back) rfl ?_
        (TransGen.head' huv hvu)
      · rw [← hn, hfront]
        simp
      · rw [hsplit, hfront]
        simp
  obtain ⟨front, back, hsplit⟩ := List.append_of_mem hv
  exact hplace _ front v back rfl hsplit

/-- Where everything has a predecessor, there is a cycle. -/
lemma exists_cycle {l : List V} (hne : l ≠ []) (h : ∀ v ∈ l, ∃ u ∈ l, R u v) :
    ∃ v, TransGen R v v := by
  by_contra hacyclic
  have hirrefl : Std.Irrefl fun u v : { v // v ∈ l } => TransGen R u.1 v.1 :=
    ⟨fun v hv => hacyclic ⟨v.1, hv⟩⟩
  have htrans : IsTrans { v // v ∈ l } fun u v => TransGen R u.1 v.1 :=
    ⟨fun _ _ _ huv hvw => huv.trans hvw⟩
  have hfinite : Finite { v // v ∈ l } := (List.finite_toSet l).to_subtype
  have hwf := Finite.wellFounded_of_trans_of_irrefl fun u v : { v // v ∈ l } => TransGen R u.1 v.1
  obtain ⟨v, hv⟩ := List.exists_mem_of_ne_nil l hne
  obtain ⟨m, -, hmin⟩ := hwf.has_min Set.univ ⟨⟨v, hv⟩, trivial⟩
  obtain ⟨u, hu, hum⟩ := h m.1 m.2
  exact hmin ⟨u, hu⟩ trivial (.single hum)

end ReverseMcp.Graph
