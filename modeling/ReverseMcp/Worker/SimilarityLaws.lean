import ReverseMcp.Worker.SigMap
import Mathlib.Data.List.Perm.Subperm
import Mathlib.Order.Interval.Set.Defs

/-!
# The laws of the similarity

`similarity` compares two signatures by five families, each with a score of its own.  Computed with
exact fractions, the scores are symmetric (`similarity_comm`), they and their weighted sum lie in
`[0, 1]` (`similarity_mem`, `overall_mem`), and the sum is 1 only if each of them is
(`ones_of_overall`).

A signature is like itself in every family but one: where nothing is known on either side,
`set_sim` and `call_sim` score 1, but `size_sim` scores two sizes of 0 as one half.
`similarityLaws_iff` says that this is all that is missing.
-/

namespace ReverseMcp

open Rust

namespace Signatures

/-- A property of each of the five scores. -/
def FamilyScores.All {κ : Type} (p : κ → Prop) (s : FamilyScores κ) : Prop :=
  p s.imports ∧ p s.strings ∧ p s.constants ∧ p s.calls ∧ p s.size

/-- The scores as exact fractions. -/
abbrev exactly (a b : FunctionSig) : FamilyScores ℚ := similarity a b

/-- What the scores of two signatures promise. -/
structure SimilarityLaws (a b : FunctionSig) : Prop where
  symmetric : exactly a b = exactly b a
  families : (exactly a b).All (· ∈ Set.Icc 0 1)
  overall : (exactly a b).overall ∈ Set.Icc 0 1
  reflexive : (exactly a a).All (· = 1)
  exact : (exactly a b).overall = 1 → (exactly a b).All (· = 1)

/-! ## Sets -/

section
variable {κ α : Type} [Div κ] [NatCast κ] [OfScientific κ] [DecidableEq α]

lemma length_inter_comm (a b : List α) :
    (a.dedup ∩ b.dedup).length = (b.dedup ∩ a.dedup).length := by
  refine List.Perm.length_eq ((List.perm_ext_iff_of_nodup ?_ ?_).mpr fun x => ?_)
  · exact a.nodup_dedup.inter _
  · exact b.nodup_dedup.inter _
  · rw [List.mem_inter_iff, List.mem_inter_iff, and_comm]

lemma length_union_comm (a b : List α) :
    (a.dedup ∪ b.dedup).length = (b.dedup ∪ a.dedup).length := by
  refine List.Perm.length_eq ((List.perm_ext_iff_of_nodup ?_ ?_).mpr fun x => ?_)
  · exact b.nodup_dedup.union _
  · exact a.nodup_dedup.union _
  · rw [List.mem_union_iff, List.mem_union_iff, or_comm]

lemma length_inter_le_union (a b : List α) :
    (a.dedup ∩ b.dedup).length ≤ (a.dedup ∪ b.dedup).length := by
  refine ((a.nodup_dedup.inter _).subperm fun x hx => ?_).length_le
  exact List.mem_union_left (List.mem_inter_iff.mp hx).1 _

lemma set_sim_comm (a b : List α) : (set_sim a b : κ) = set_sim b a := by
  rw [set_sim, set_sim, length_inter_comm, length_union_comm]
  simp only [and_comm, or_comm]

lemma set_sim_mem (a b : List α) : (set_sim a b : ℚ) ∈ Set.Icc 0 1 := by
  rw [set_sim]
  split
  · constructor <;> norm_num
  split
  · constructor <;> norm_num
  · have hle : ((a.dedup ∩ b.dedup).length : ℚ) ≤ (a.dedup ∪ b.dedup).length := by
      exact_mod_cast length_inter_le_union a b
    exact ⟨by positivity, div_le_one_of_le₀ hle (by positivity)⟩

/-- A list that is not empty has all of its elements in common with itself. -/
lemma set_sim_self_eq {a : List α} (hne : a ≠ []) :
    (set_sim a a : κ) = (a.dedup.length : κ) / a.dedup.length := by
  have hinter : (a.dedup ∩ a.dedup).length = a.dedup.length := by
    refine List.Perm.length_eq ((List.perm_ext_iff_of_nodup ?_ a.nodup_dedup).mpr fun x => ?_)
    · exact a.nodup_dedup.inter _
    · rw [List.mem_inter_iff, and_self]
  have hunion : (a.dedup ∪ a.dedup).length = a.dedup.length := by
    refine List.Perm.length_eq ((List.perm_ext_iff_of_nodup ?_ a.nodup_dedup).mpr fun x => ?_)
    · exact a.nodup_dedup.union _
    · rw [List.mem_union_iff, or_self]
  rw [set_sim, if_neg (by tauto), if_neg (by tauto), hinter, hunion]

lemma dedup_length_pos {a : List α} (hne : a ≠ []) : 0 < a.dedup.length :=
  List.length_pos_iff.mpr fun h => hne ((List.dedup_eq_nil a).mp h)

lemma set_sim_self (a : List α) : (set_sim a a : ℚ) = 1 := by
  rcases eq_or_ne a [] with rfl | hne
  · norm_num [set_sim]
  · rw [set_sim_self_eq hne]
    exact div_self (by exact_mod_cast (dedup_length_pos hne).ne')

end

/-! ## Counts and sizes -/

section
variable {κ : Type} [Div κ] [NatCast κ] [OfScientific κ]

lemma countSim_comm (a b : ℕ) : (countSim a b : κ) = countSim b a := by
  rw [countSim, countSim, min_comm, max_comm]

lemma call_sim_comm [Add κ] [Mul κ] (a b : FunctionSig) : (call_sim a b : κ) = call_sim b a := by
  rw [call_sim, call_sim, countSim_comm, countSim_comm a.caller_count]

lemma size_sim_comm (a b : U64) : (size_sim a b : κ) = size_sim b a := by
  rw [size_sim, size_sim, min_comm, max_comm]

lemma similarity_comm [Add κ] [Mul κ] (a b : FunctionSig) :
    (similarity a b : FamilyScores κ) = similarity b a := by
  rw [similarity, similarity, set_sim_comm, set_sim_comm a.strings, set_sim_comm a.constants,
    call_sim_comm, size_sim_comm]

end

lemma ratio_mem (a b : ℕ) : ((min a b : ℕ) / (max a b : ℕ) : ℚ) ∈ Set.Icc 0 1 :=
  ⟨by positivity, div_le_one_of_le₀ (by exact_mod_cast min_le_max) (by positivity)⟩

lemma countSim_mem (a b : ℕ) : (countSim a b : ℚ) ∈ Set.Icc 0 1 := by
  rw [countSim]
  split
  · constructor <;> norm_num
  · exact ratio_mem a b

lemma countSim_self (a : ℕ) : (countSim a a : ℚ) = 1 := by
  rw [countSim, max_self, min_self]
  split
  · norm_num
  · rename_i hne
    exact div_self (by exact_mod_cast hne)

lemma call_sim_mem (a b : FunctionSig) : (call_sim a b : ℚ) ∈ Set.Icc 0 1 := by
  obtain ⟨hcallees, hcallees'⟩ := countSim_mem a.callee_count b.callee_count
  obtain ⟨hcallers, hcallers'⟩ := countSim_mem a.caller_count b.caller_count
  rw [call_sim]
  constructor <;> linarith

lemma call_sim_self (a : FunctionSig) : (call_sim a a : ℚ) = 1 := by
  rw [call_sim, countSim_self, countSim_self]
  norm_num

lemma size_sim_mem (a b : U64) : (size_sim a b : ℚ) ∈ Set.Icc 0 1 := by
  rw [size_sim]
  split
  · constructor <;> norm_num
  · exact ratio_mem _ _

/-- A size is like itself unless it is 0. -/
lemma size_sim_self_iff (a : U64) : (size_sim a a : ℚ) = 1 ↔ a.val ≠ 0 := by
  rw [size_sim, max_self, min_self]
  split
  · rename_i hzero
    exact iff_of_false (by norm_num) (not_not.mpr hzero)
  · rename_i hne
    exact iff_of_true (div_self (by exact_mod_cast hne)) hne

/-! ## The five families -/

lemma similarity_mem (a b : FunctionSig) : (exactly a b).All (· ∈ Set.Icc 0 1) :=
  ⟨set_sim_mem _ _, set_sim_mem _ _, set_sim_mem _ _, call_sim_mem a b, size_sim_mem _ _⟩

/-- The weights are not negative and sum to 1. -/
lemma overall_mem {s : FamilyScores ℚ} (hs : s.All (· ∈ Set.Icc 0 1)) :
    s.overall ∈ Set.Icc 0 1 := by
  obtain ⟨⟨hi, hi'⟩, ⟨hs, hs'⟩, ⟨hc, hc'⟩, ⟨hr, hr'⟩, hz, hz'⟩ := hs
  rw [FamilyScores.overall]
  constructor <;> linarith

/-- Each family has a positive weight. -/
lemma ones_of_overall {s : FamilyScores ℚ} (hs : s.All (· ∈ Set.Icc 0 1)) (hone : s.overall = 1) :
    s.All (· = 1) := by
  obtain ⟨⟨-, hi⟩, ⟨-, hs⟩, ⟨-, hc⟩, ⟨-, hr⟩, -, hz⟩ := hs
  rw [FamilyScores.overall] at hone
  refine ⟨?_, ?_, ?_, ?_, ?_⟩ <;> linarith

lemma similarity_self_iff (a : FunctionSig) : (exactly a a).All (· = 1) ↔ a.size.val ≠ 0 := by
  rw [← size_sim_self_iff]
  constructor
  · exact fun h => h.2.2.2.2
  · exact fun h => ⟨set_sim_self _, set_sim_self _, set_sim_self _, call_sim_self a, h⟩

/-- The similarity keeps its laws exactly for the signatures whose size is not 0. -/
theorem similarityLaws_iff (a b : FunctionSig) : SimilarityLaws a b ↔ a.size.val ≠ 0 := by
  rw [← similarity_self_iff]
  constructor
  · exact fun h => h.reflexive
  · intro h
    have hmem := similarity_mem a b
    exact ⟨similarity_comm a b, hmem, overall_mem hmem, h, ones_of_overall hmem⟩

/-- The signature of a function without a single byte. -/
def sizeless : FunctionSig := ⟨0x401000, "f", 0, [], [], [], 0, 0⟩

/-- The size of such a function scores one half against itself. -/
theorem not_similarityLaws : ¬∀ a b : FunctionSig, SimilarityLaws a b := fun h =>
  (similarity_self_iff sizeless).mp (h sizeless sizeless).reflexive rfl

end Signatures

end ReverseMcp
