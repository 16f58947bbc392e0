import ReverseMcp.Rust.Collections
import ReverseMcp.Rust.Scan

/-!
# Vectors merged from several sources

A loop goes through candidates, source by source, and keeps one if it is accepted and no other one
with its key has been kept.  It keeps the first accepted candidate of each key (`Merged`), so what
it keeps is in the order of the sources.

A stable sort by something else leaves that order as it is exactly when no element of a later source
sorts before one of an earlier source (`sortByKey_order_iff`).
-/

namespace ReverseMcp.Rust

/-! ## First candidates -/

section Merged

variable {α κ : Type} {key : α → κ} {ok : α → Prop} {l kept : List α} {a b : α}

/-- The candidate is accepted, and no accepted one before it has its key. -/
def FirstAccepted (key : α → κ) (ok : α → Prop) (l : List α) (a : α) : Prop :=
  ok a ∧ ∃ front back, l = front ++ a :: back ∧ ∀ b ∈ front, ok b → key b ≠ key a

lemma FirstAccepted.mem (h : FirstAccepted key ok l a) : a ∈ l := by
  obtain ⟨-, front, back, rfl, -⟩ := h
  simp

lemma firstAccepted_concat : FirstAccepted key ok (l ++ [b]) a ↔
    FirstAccepted key ok l a ∨ a = b ∧ ok b ∧ ∀ c ∈ l, ok c → key c ≠ key b := by
  constructor
  · rintro ⟨hok, front, back, hsplit, hfirst⟩
    rcases List.eq_nil_or_concat back with rfl | ⟨back, c, rfl⟩
    · obtain ⟨rfl, hb⟩ := List.append_inj' hsplit rfl
      obtain rfl : b = a := List.head_eq_of_cons_eq hb
      exact .inr ⟨rfl, hok, hfirst⟩
    · rw [List.concat_eq_append, ← List.cons_append, ← List.append_assoc] at hsplit
      exact .inl ⟨hok, front, back, (List.append_inj' hsplit rfl).1, hfirst⟩
  · rintro (⟨hok, front, back, rfl, hfirst⟩ | ⟨rfl, hok, hfirst⟩)
    · exact ⟨hok, front, back ++ [b], by simp, hfirst⟩
    · exact ⟨hok, l, [], rfl, hfirst⟩

/-- What has been kept of some candidates. -/
structure Merged (key : α → κ) (ok : α → Prop) (l kept : List α) : Prop where
  sublist : List.Sublist kept l
  nodup : (kept.map key).Nodup
  mem_iff : ∀ a, a ∈ kept ↔ FirstAccepted key ok l a

namespace Merged

lemma nil : Merged key ok [] [] :=
  ⟨List.Sublist.slnil, List.nodup_nil, fun _ => iff_of_false List.not_mem_nil fun h =>
    absurd h.mem List.not_mem_nil⟩

/-- The key of a candidate that is accepted has been kept. -/
lemma covers (h : Merged key ok l kept) (ha : a ∈ l) (hok : ok a) : key a ∈ kept.map key := by
  obtain ⟨front, b, back, hsplit, hfront, hb⟩ := exists_first (p := fun b => ok b → key b ≠ key a)
    fun hall => hall a ha hok rfl
  obtain ⟨hokb, hkey⟩ := Classical.not_imp.mp hb
  have hkey : key b = key a := not_not.mp hkey
  have hfirst : FirstAccepted key ok l b :=
    ⟨hokb, front, back, hsplit, fun c hc hokc => hkey ▸ hfront c hc hokc⟩
  exact List.mem_map.mpr ⟨b, (h.mem_iff b).mpr hfirst, hkey⟩

/-- A candidate that is refused, or whose key has been kept, changes nothing. -/
lemma skip (h : Merged key ok l kept) (hno : ok a → key a ∈ kept.map key) :
    Merged key ok (l ++ [a]) kept := by
  refine ⟨h.sublist.trans (List.sublist_append_left l [a]), h.nodup, fun b => ?_⟩
  rw [firstAccepted_concat, h.mem_iff]
  refine (or_iff_left ?_).symm
  rintro ⟨-, hok, hnew⟩
  obtain ⟨c, hc, hkey⟩ := List.mem_map.mp (hno hok)
  have hfirst := (h.mem_iff c).mp hc
  exact hnew c hfirst.mem hfirst.1 hkey

/-- An accepted candidate with a new key is kept. -/
lemma keep (h : Merged key ok l kept) (hok : ok a) (hnew : key a ∉ kept.map key) :
    Merged key ok (l ++ [a]) (kept ++ [a]) := by
  refine ⟨h.sublist.append_right [a], ?_, fun b => ?_⟩
  · rw [List.map_append, List.map_singleton, List.nodup_append]
    refine ⟨h.nodup, List.nodup_singleton _, fun k hk k' hk' heq => hnew ?_⟩
    rwa [← List.mem_singleton.mp hk', ← heq]
  · have hfirst : ∀ c ∈ l, ok c → key c ≠ key a := fun c hc hokc heq =>
      hnew (heq ▸ h.covers hc hokc)
    rw [firstAccepted_concat, List.mem_append, List.mem_singleton, h.mem_iff]
    exact or_congr_right ⟨fun heq => ⟨heq, hok, hfirst⟩, fun hb => hb.1⟩

end Merged

end Merged

/-! ## The order of the sources -/

section Order

lemma isLE_compare_reverse {κ : Type} [LinearOrder κ] (a b : κ) :
    (compare (Reverse.mk a) (Reverse.mk b)).isLE = true ↔ b ≤ a := by
  have hcompare : compare (Reverse.mk a) (Reverse.mk b) = compare b a := rfl
  rw [hcompare, ← Ordering.ne_gt_iff_isLE]
  exact compare_le_iff_le

variable {α κ π : Type} {l : List α} {a b : α}

/-- Of two elements one stands before the other. -/
lemma pair_sublist_or (ha : a ∈ l) (hb : b ∈ l) (hne : a ≠ b) :
    List.Sublist [a, b] l ∨ List.Sublist [b, a] l := by
  obtain ⟨front, back, rfl⟩ := List.append_of_mem ha
  rcases List.mem_append.mp hb with hb | hb
  · refine .inr ?_
    exact (List.singleton_sublist.mpr hb).append (List.singleton_sublist.mpr List.mem_cons_self)
  · have hb : b ∈ back := (List.mem_cons.mp hb).resolve_left hne.symm
    refine .inl ?_
    exact ((List.singleton_sublist.mpr hb).cons_cons a).trans (List.sublist_append_right front _)

/-- Without repetitions only one of two elements stands before the other. -/
lemma not_pair_sublist (hnodup : l.Nodup) (h : List.Sublist [a, b] l) : ¬List.Sublist [b, a] l := by
  intro h'
  obtain ⟨front, back, rfl, ha, hb⟩ := List.cons_sublist_iff.mp h
  have hb : b ∈ back := List.singleton_sublist.mp hb
  obtain ⟨front', back', hsplit, hb', ha'⟩ := List.cons_sublist_iff.mp h'
  have ha' : a ∈ back' := List.singleton_sublist.mp ha'
  have hdisjoint := List.disjoint_of_nodup_append hnodup
  rcases List.append_eq_append_iff.mp hsplit with ⟨mid, rfl, rfl⟩ | ⟨mid, rfl, rfl⟩
  · exact hdisjoint ha (List.mem_append_right mid ha')
  · exact hdisjoint (List.mem_append_left mid hb') hb

variable [Ord κ] [Std.TransOrd κ] [LinearOrder π]

/-- The elements are in the order of the sources, and in ascending order within a source, after a
stable sort exactly when an element of a later source never sorts before one of an earlier
source. -/
theorem sortByKey_order_iff (key : α → κ) (source : α → π) (hnodup : l.Nodup)
    (hsources : l.Pairwise fun a b => source a ≤ source b) :
    ((sortByKey key l).Pairwise fun a b =>
      source a < source b ∨ source a = source b ∧ (compare (key a) (key b)).isLE) ↔
    ∀ a ∈ l, ∀ b ∈ l, source a < source b → (compare (key a) (key b)).isLE := by
  have hperm := sortByKey_perm key l
  have hsorted : ∀ {a b : α}, List.Sublist [a, b] (sortByKey key l) →
      (compare (key a) (key b)).isLE :=
    List.pairwise_iff_forall_sublist.mp (sortByKey_pairwise key l)
  constructor
  · intro horder a ha b hb hlt
    rw [List.pairwise_iff_forall_sublist] at horder
    have hne : a ≠ b := fun heq => hlt.ne (congrArg source heq)
    rcases pair_sublist_or (hperm.mem_iff.mpr ha) (hperm.mem_iff.mpr hb) hne with hab | hba
    · exact hsorted hab
    · rcases horder hba with hlt' | ⟨heq, -⟩
      · exact absurd hlt' hlt.asymm
      · exact absurd heq hlt.ne'
  · intro hall
    refine List.pairwise_iff_forall_sublist.mpr fun {a b} hab => ?_
    have ha : a ∈ l := hperm.mem_iff.mp (hab.subset List.mem_cons_self)
    have hb : b ∈ l := hperm.mem_iff.mp (hab.subset (by simp))
    rcases lt_trichotomy (source a) (source b) with hlt | heq | hgt
    · exact .inl hlt
    · exact .inr ⟨heq, hsorted hab⟩
    · -- the two are equal for the sort, which then leaves `b` in front of `a`
      have hba : List.Sublist [b, a] l := by
        have hne : b ≠ a := fun heq => hgt.ne (congrArg source heq)
        refine (pair_sublist_or hb ha hne).resolve_right fun hab => ?_
        exact absurd (List.pairwise_iff_forall_sublist.mp hsources hab) hgt.not_ge
      have hstable : List.Sublist [b, a] (sortByKey key l) :=
        List.pair_sublist_insertionSort (hall b hb a ha hgt) hba
      exact absurd hab (not_pair_sublist (hperm.nodup_iff.mpr hnodup) hstable)

end Order

end ReverseMcp.Rust
