import Mathlib.Data.List.Nodup
import Mathlib.Data.List.Range
import Mathlib.Tactic.Common

/-!
# Partial matchings

Pairs of positions of two vectors in which every position comes up at most once, and what is left
of a vector when the positions of a matching are taken out.
-/

namespace ReverseMcp.Rust

/-- Pairs of positions of vectors of `m` and `n` elements that use every position at most once. -/
structure Matches (m n : ℕ) (pairs : List (ℕ × ℕ)) : Prop where
  left_lt : ∀ p ∈ pairs, p.1 < m
  right_lt : ∀ p ∈ pairs, p.2 < n
  left_nodup : (pairs.map Prod.fst).Nodup
  right_nodup : (pairs.map Prod.snd).Nodup

namespace Matches

variable {m n i j : ℕ} {pairs : List (ℕ × ℕ)}

lemma nil (m n : ℕ) : Matches m n [] :=
  ⟨by simp, by simp, List.nodup_nil, List.nodup_nil⟩

/-- Two free positions are paired. -/
lemma concat (h : Matches m n pairs) (hi : i < m) (hj : j < n) (hi' : i ∉ pairs.map Prod.fst)
    (hj' : j ∉ pairs.map Prod.snd) : Matches m n (pairs ++ [(i, j)]) := by
  refine ⟨?_, ?_, ?_, ?_⟩
  · intro p hp
    rcases List.mem_append.mp hp with hp | hp
    · exact h.left_lt p hp
    · rwa [List.mem_singleton.mp hp]
  · intro p hp
    rcases List.mem_append.mp hp with hp | hp
    · exact h.right_lt p hp
    · rwa [List.mem_singleton.mp hp]
  · rw [List.map_append, List.map_singleton, ← List.concat_eq_append]
    exact h.left_nodup.concat hi'
  · rw [List.map_append, List.map_singleton, ← List.concat_eq_append]
    exact h.right_nodup.concat hj'

end Matches

/-- The elements of a vector outside some of its positions, and these positions, make up the
vector. -/
lemma length_outside {α : Type} (l : List α) {used : List ℕ} (hnodup : used.Nodup)
    (hlt : ∀ i ∈ used, i < l.length) :
    (l.zipIdx.filter fun q => q.2 ∉ used).length + used.length = l.length := by
  have hpositions : l.zipIdx.map Prod.snd = List.range l.length := by
    rw [List.zipIdx_map_snd, List.range_eq_range']
  have hout : (l.zipIdx.filter fun q => q.2 ∉ used).length =
      (List.range l.length).countP fun i => i ∉ used := by
    rw [← hpositions, List.countP_map, ← List.countP_eq_length_filter]
    rfl
  have hin : (List.range l.length).countP (fun i => i ∈ used) = used.length := by
    rw [List.countP_eq_length_filter]
    refine ((List.perm_ext_iff_of_nodup (List.nodup_range.filter _) hnodup).mpr ?_).length_eq
    intro i
    rw [List.mem_filter, List.mem_range, decide_eq_true_eq]
    exact ⟨fun hi => hi.2, fun hi => ⟨hlt i hi, hi⟩⟩
  have hall := List.length_eq_countP_add_countP (fun i => decide (i ∈ used))
    (l := List.range l.length)
  rw [List.length_range, hin] at hall
  rw [hout]
  simp only [decide_not, decide_eq_true_eq] at hall ⊢
  omega

end ReverseMcp.Rust
