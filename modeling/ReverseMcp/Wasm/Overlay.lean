import Mathlib.Data.List.Induction
import Mathlib.Tactic.Common
import Mathlib.Tactic.Lemma

/-!
# Writing blocks one over the other

A block has values for the places from its start on.  Blocks that are written in order into an empty
table leave, at every place, what the last block over the place has there.
-/

namespace ReverseMcp.Wasm

variable {α : Type}

/-- Values for the places from `start` on. -/
structure Block (α : Type) where
  start : ℕ
  items : List α
deriving DecidableEq

/-- What a block has at a place. -/
def Block.at (b : Block α) (i : ℕ) : Option α :=
  if b.start ≤ i then b.items[i - b.start]? else none

/-- A block written over a table. -/
def overlay (t : ℕ → Option α) (b : Block α) : ℕ → Option α := fun i => (b.at i).or (t i)

/-- The blocks written in order into an empty table. -/
def written (bs : List (Block α)) : ℕ → Option α := bs.foldl overlay fun _ => none

/-- The last of the blocks over the place `i` has `a` there. -/
def LastAt (bs : List (Block α)) (i : ℕ) (a : α) : Prop :=
  ∃ front b back, bs = front ++ b :: back ∧ b.at i = some a ∧ ∀ c ∈ back, c.at i = none

lemma written_concat (bs : List (Block α)) (b : Block α) (i : ℕ) :
    written (bs ++ [b]) i = (b.at i).or (written bs i) := by
  rw [written, List.foldl_append]
  rfl

/-- The last of the blocks over a place is the one at the end, or this is not over the place. -/
lemma lastAt_concat {bs : List (Block α)} {b : Block α} {i : ℕ} {a : α} :
    LastAt (bs ++ [b]) i a ↔ b.at i = some a ∨ b.at i = none ∧ LastAt bs i a := by
  constructor
  · rintro ⟨front, c, back, hbs, hc, hback⟩
    rcases List.eq_nil_or_concat back with rfl | ⟨back, d, rfl⟩
    · obtain ⟨-, rfl⟩ := List.append_inj' hbs rfl |>.imp_right List.singleton_inj.mp
      exact Or.inl hc
    · have hassoc : bs ++ [b] = (front ++ c :: back) ++ [d] := by simpa using hbs
      obtain ⟨rfl, rfl⟩ := List.append_inj' hassoc rfl |>.imp_right List.singleton_inj.mp
      exact Or.inr ⟨hback b (by simp), front, c, back, rfl, hc, fun e he => hback e (by simp [he])⟩
  · rintro (hb | ⟨hb, front, c, back, rfl, hc, hback⟩)
    · exact ⟨bs, b, [], rfl, hb, by simp⟩
    · refine ⟨front, c, back ++ [b], by simp, hc, fun d hd => ?_⟩
      rcases List.mem_append.mp hd with hd | hd
      · exact hback d hd
      · rwa [List.mem_singleton.mp hd]

/-- The last block over a place decides. -/
theorem written_eq_some_iff {bs : List (Block α)} {i : ℕ} {a : α} :
    written bs i = some a ↔ LastAt bs i a := by
  induction bs using List.reverseRecOn with
  | nil =>
    refine iff_of_false (by simp [written]) ?_
    rintro ⟨front, b, back, hbs, -⟩
    simp at hbs
  | append_singleton bs b ih =>
    rw [written_concat, lastAt_concat, ← ih]
    cases b.at i <;> simp

/-- What stands in the table was in a block over its place. -/
lemma LastAt.mem {bs : List (Block α)} {i : ℕ} {a : α} (h : LastAt bs i a) :
    ∃ b ∈ bs, b.at i = some a := by
  obtain ⟨front, b, back, rfl, hb, -⟩ := h
  exact ⟨b, by simp, hb⟩

/-- Where a block is over a place, some block is the last one over it. -/
lemma exists_lastAt {bs : List (Block α)} {i : ℕ} {b : Block α} (hb : b ∈ bs)
    (hi : (b.at i).isSome) : ∃ a, LastAt bs i a := by
  induction bs using List.reverseRecOn with
  | nil => cases hb
  | append_singleton bs c ih =>
    have hsome : (written (bs ++ [c]) i).isSome := by
      rw [written_concat, Option.isSome_or, Bool.or_eq_true]
      rcases List.mem_append.mp hb with hb | hb
      · obtain ⟨a, ha⟩ := ih hb
        exact Or.inr (Option.isSome_iff_exists.mpr ⟨a, written_eq_some_iff.mpr ha⟩)
      · rw [List.mem_singleton.mp hb] at hi
        exact Or.inl hi
    obtain ⟨a, ha⟩ := Option.isSome_iff_exists.mp hsome
    exact ⟨a, written_eq_some_iff.mp ha⟩

end ReverseMcp.Wasm
