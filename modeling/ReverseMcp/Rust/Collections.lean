import Std.Data.ExtTreeMap
import Std.Data.ExtTreeSet
import Mathlib.Data.Finset.Card
import Mathlib.Data.List.Induction
import Mathlib.Data.List.Sort
import ReverseMcp.Rust.Text

/-!
# Collections

Facts about the vectors and maps of the standard library: what a stable sort leaves, `Reverse` as a
sort key, the chunks of a slice, and what is in a map when keys have been inserted into it or
removed from it.
-/

namespace ReverseMcp.Rust

/-! ## Sorting -/

section Sorting

variable {α κ : Type} [Ord κ] (key : α → κ) (l : List α)

lemma sortByKey_perm : (sortByKey key l).Perm l := List.perm_insertionSort _ l

/-- A sorted vector has its keys in ascending order. -/
lemma sortByKey_pairwise [Std.TransOrd κ] :
    (sortByKey key l).Pairwise fun a b => (compare (key a) (key b)).isLE := by
  have htotal : Std.Total fun a b => (compare (key a) (key b)).isLE = true := by
    refine ⟨fun a b => ?_⟩
    have hswap : compare (key b) (key a) = (compare (key a) (key b)).swap :=
      Std.OrientedCmp.eq_swap
    rw [hswap]
    cases compare (key a) (key b) <;> simp
  have htrans : IsTrans α fun a b => (compare (key a) (key b)).isLE = true :=
    ⟨fun a b c hab hbc => Std.TransCmp.isLE_trans hab hbc⟩
  exact List.pairwise_insertionSort _ l

end Sorting

/-- `std::cmp::Reverse`. -/
structure Reverse (κ : Type) where
  val : κ

instance {κ : Type} [Ord κ] : Ord (Reverse κ) := ⟨fun a b => compare b.val a.val⟩

instance {κ : Type} [Ord κ] [Std.TransOrd κ] : Std.TransOrd (Reverse κ) where
  eq_swap := by
    intro a b
    have h : compare b.val a.val = (compare a.val b.val).swap := Std.OrientedCmp.eq_swap
    exact h
  isLE_trans := by
    intro a b c hab hbc
    have h : (compare c.val a.val).isLE := Std.TransCmp.isLE_trans hbc hab
    exact h

/-- Two lists with ascending keys and the same elements are the same. -/
lemma eq_of_ascending {α κ : Type} [Preorder κ] {key : α → κ} {l₁ l₂ : List α}
    (h₁ : l₁.Pairwise fun a b => key a < key b) (h₂ : l₂.Pairwise fun a b => key a < key b)
    (hmem : ∀ x, x ∈ l₁ ↔ x ∈ l₂) : l₁ = l₂ := by
  have hnodup : ∀ {l : List α}, l.Pairwise (fun a b => key a < key b) → l.Nodup :=
    fun h => h.imp fun hlt heq => absurd (heq ▸ hlt) (lt_irrefl _)
  refine List.Perm.eq_of_pairwise (fun a b _ _ hab hba => absurd hab hba.asymm) h₁ h₂ ?_
  exact (List.perm_ext_iff_of_nodup (hnodup h₁) (hnodup h₂)).mpr hmem

/-! ## Sums -/

/-- An element of a vector is replaced: what the sum over the vector gains is what the element
gains. -/
lemma sum_map_set {α : Type} {l : List α} {k : ℕ} {a : α} (h : l[k]? = some a) (f : α → ℕ) (b : α) :
    ((l.set k b).map f).sum + f a = (l.map f).sum + f b := by
  induction l generalizing k with
  | nil => simp at h
  | cons x l ih =>
    cases k with
    | zero =>
      obtain rfl : x = a := by simpa using h
      simp only [List.set_cons_zero, List.map_cons, List.sum_cons]
      omega
    | succ k =>
      have hl := ih (by simpa using h)
      simp only [List.set_cons_succ, List.map_cons, List.sum_cons]
      omega

/-! ## Chunks -/

section Chunks

variable {α : Type}

/-- The first `fuel` pieces of length `k` of a vector. -/
def chunksUpTo (k : ℕ) : ℕ → List α → List (List α)
  | 0, _ => []
  | fuel + 1, l => if l.isEmpty then [] else l.take k :: chunksUpTo k fuel (l.drop k)

/-- `slice::chunks`, which panics when the size of the chunks is zero. -/
def chunks {ε : Type} (k : ℕ) (l : List α) : Outcome ε (List (List α)) :=
  if k = 0 then .panic .chunk else .ok (chunksUpTo k l.length l)

lemma chunksUpTo_flatten {k : ℕ} (hk : 0 < k) (fuel : ℕ) :
    ∀ l : List α, l.length ≤ fuel → (chunksUpTo k fuel l).flatten = l := by
  induction fuel with
  | zero =>
    intro l hl
    rw [List.length_eq_zero_iff.mp (Nat.le_zero.mp hl)]
    rfl
  | succ fuel ih =>
    intro l hl
    rw [chunksUpTo]
    split
    · rename_i hempty
      simp [List.isEmpty_iff.mp hempty]
    · rw [List.flatten_cons, ih (l.drop k) (by rw [List.length_drop]; omega),
        List.take_append_drop]

lemma mem_chunksUpTo {k : ℕ} (hk : 0 < k) (fuel : ℕ) :
    ∀ l : List α, ∀ c ∈ chunksUpTo k fuel l, c ≠ [] ∧ ∃ i, c = (l.drop (i * k)).take k := by
  induction fuel with
  | zero =>
    intro l c hc
    cases hc
  | succ fuel ih =>
    intro l c hc
    rw [chunksUpTo] at hc
    split at hc
    · cases hc
    · rename_i hempty
      rcases List.mem_cons.mp hc with rfl | hc
      · have hpos : 0 < l.length := List.length_pos_iff.mpr fun h => hempty (by simp [h])
        have hlen := List.length_take (i := k) (l := l)
        exact ⟨List.ne_nil_of_length_pos (by omega), 0, by simp⟩
      · obtain ⟨hne, i, hi⟩ := ih _ c hc
        refine ⟨hne, i + 1, ?_⟩
        rw [hi, List.drop_drop, Nat.add_one_mul, Nat.add_comm]

/-- Chunks of a positive size are the vector cut into non-empty pieces of that size, the last one
possibly shorter. -/
lemma chunks_spec {ε : Type} {k : ℕ} (hk : 0 < k) (l : List α) :
    ∃ cs, chunks k l = (.ok cs : Outcome ε (List (List α))) ∧ cs.flatten = l ∧
      ∀ c ∈ cs, c ≠ [] ∧ ∃ i, c = (l.drop (i * k)).take k :=
  ⟨_, if_neg (by omega), chunksUpTo_flatten hk _ l le_rfl, mem_chunksUpTo hk _ l⟩

/-- The element at place `j` is in the piece number `j / k`. -/
lemma mem_drop_take {k : ℕ} (hk : 0 < k) {l : List α} (hnodup : l.Nodup) {j : ℕ} {a : α}
    (ha : l[j]? = some a) (i : ℕ) : a ∈ (l.drop (i * k)).take k ↔ j / k = i := by
  rw [List.mem_iff_getElem?]
  constructor
  · rintro ⟨m, hm⟩
    rw [List.getElem?_take] at hm
    split at hm
    · rename_i hmk
      rw [List.getElem?_drop] at hm
      obtain ⟨hj, hja⟩ := List.getElem?_eq_some_iff.mp ha
      obtain ⟨hm', hma⟩ := List.getElem?_eq_some_iff.mp hm
      have hplace : j = i * k + m := hnodup.getElem_inj_iff.mp (hja.trans hma.symm)
      rw [hplace, Nat.mul_comm, Nat.mul_add_div hk, Nat.div_eq_of_lt hmk, Nat.add_zero]
    · cases hm
  · rintro rfl
    refine ⟨j % k, ?_⟩
    rw [List.getElem?_take, if_pos (Nat.mod_lt j hk), List.getElem?_drop, Nat.mul_comm,
      Nat.div_add_mod, ha]

end Chunks

/-! ## Dropping from the front -/

lemma dropWhile_congr {α : Type} {p q : α → Bool} {l : List α} (h : ∀ a ∈ l, p a = q a) :
    l.dropWhile p = l.dropWhile q := by
  induction l with
  | nil => rfl
  | cons a l ih =>
    rw [List.dropWhile_cons, List.dropWhile_cons, h a (by simp), ih fun b hb => h b (by simp [hb])]

/-! ## Duplicates -/

/-- A list without duplicates has no room for the same element twice. -/
lemma length_le_one_of_nodup {α : Type} {l : List α} (hnodup : l.Nodup) {a : α}
    (hall : ∀ x ∈ l, x = a) : l.length ≤ 1 := by
  match l, hnodup with
  | [], _ => simp
  | [x], _ => simp
  | x :: y :: l, hnodup =>
    have hxy : x = y := (hall x (by simp)).trans (hall y (by simp)).symm
    simp [hxy] at hnodup

/-- The first element stays. -/
lemma dedupBy_cons {α κ : Type} [DecidableEq κ] (key : α → κ) (a : α) (l : List α) :
    ∃ rest, dedupBy key (a :: l) = a :: rest := by
  cases l with
  | nil => exact ⟨[], rfl⟩
  | cons b l =>
    rw [dedupBy]
    split
    · split
      · exact ⟨[], rfl⟩
      · exact ⟨_, rfl⟩
    · exact ⟨_, rfl⟩

lemma mem_dedupBy_id {α : Type} [DecidableEq α] {x : α} (l : List α) :
    x ∈ dedupBy id l ↔ x ∈ l := by
  induction l with
  | nil => rfl
  | cons a l ih =>
    cases l with
    | nil => rfl
    | cons b l =>
      obtain ⟨rest, hrest⟩ := dedupBy_cons id b l
      rw [hrest] at ih
      rw [dedupBy]
      split
      · -- the first of two equal elements takes the place of the second
        rename_i hab
        obtain rfl : a = b := hab
        rw [hrest]
        simp only [ih, List.mem_cons, or_self_left]
      · rw [hrest, List.mem_cons, ih]
        simp only [List.mem_cons]

/-- A vector without neighbours that are equal has nothing to remove. -/
lemma dedupBy_eq_self {α : Type} [DecidableEq α] {l : List α} (h : l.IsChain (· ≠ ·)) :
    dedupBy id l = l := by
  induction l with
  | nil => rfl
  | cons a l ih =>
    cases l with
    | nil => rfl
    | cons b l =>
      obtain ⟨hab, htail⟩ := List.isChain_cons_cons.mp h
      rw [dedupBy, if_neg (show id a ≠ id b from hab), ih htail]

/-- Of equal neighbours one is left. -/
lemma dedupBy_chain {α : Type} [DecidableEq α] (l : List α) : (dedupBy id l).IsChain (· ≠ ·) := by
  induction l with
  | nil => exact .nil
  | cons a l ih =>
    cases l with
    | nil => exact .singleton a
    | cons b l =>
      obtain ⟨rest, hrest⟩ := dedupBy_cons id b l
      rw [hrest] at ih
      rw [dedupBy, hrest]
      split
      · rename_i hab
        obtain rfl : a = b := hab
        exact ih
      · rename_i hab
        exact List.isChain_cons_cons.mpr ⟨hab, ih⟩

/-- A sorted vector in which no neighbours are equal is strictly ascending. -/
lemma pairwise_lt_of_isChain_ne {α : Type} [PartialOrder α] {l : List α} (h : l.Pairwise (· ≤ ·))
    (hne : l.IsChain (· ≠ ·)) : l.Pairwise (· < ·) := by
  refine List.isChain_iff_pairwise.mp ?_
  induction l with
  | nil => exact .nil
  | cons a l ih =>
    obtain ⟨ha, hl⟩ := List.pairwise_cons.mp h
    cases l with
    | nil => exact .singleton a
    | cons b l =>
      obtain ⟨hab, htail⟩ := List.isChain_cons_cons.mp hne
      exact List.isChain_cons_cons.mpr ⟨lt_of_le_of_ne (ha b List.mem_cons_self) hab, ih hl htail⟩

lemma dedupBy_sublist {α : Type} [DecidableEq α] (l : List α) : List.Sublist (dedupBy id l) l := by
  induction l with
  | nil => exact .slnil
  | cons a l ih =>
    cases l with
    | nil => exact .refl _
    | cons b l =>
      obtain ⟨rest, hrest⟩ := dedupBy_cons id b l
      rw [hrest] at ih
      rw [dedupBy, hrest]
      split
      · rename_i hab
        obtain rfl : a = b := hab
        exact ih.cons a
      · exact ih.cons_cons a

/-! ## Inserting keys into a map and removing them -/

section Keys

variable {κ α : Type} [Ord κ] [Std.TransOrd κ] [Std.LawfulEqOrd κ] [DecidableEq κ]
  (ks : List κ) (m : Std.ExtTreeMap κ α)

lemma getElem?_insert_eq_ite (k x : κ) (a : α) :
    (m.insert k a)[x]? = if x = k then some a else m[x]? := by
  rw [Std.ExtTreeMap.getElem?_insert]
  by_cases hx : x = k
  · simp [hx]
  · have hcmp : compare k x ≠ .eq := fun h => hx (Std.LawfulEqCmp.eq_of_compare h).symm
    simp [hx, hcmp]

lemma getElem?_foldl_insert (a : α) (x : κ) :
    (ks.foldl (fun m k => m.insert k a) m)[x]? = if x ∈ ks then some a else m[x]? := by
  induction ks generalizing m with
  | nil => simp
  | cons k ks ih =>
    rw [List.foldl_cons, ih, getElem?_insert_eq_ite]
    by_cases hx : x = k
    · simp [hx]
    · simp [hx]

/-- Values inserted under keys of their own: what is found at one of the keys is one of them. -/
lemma exists_getElem?_foldl_insert {key : α → κ} {l : List α} {k : κ} (h : ∃ a ∈ l, key a = k) :
    ∃ a ∈ l, key a = k ∧ (l.foldl (fun m a => m.insert (key a) a) m)[k]? = some a := by
  induction l using List.reverseRecOn with
  | nil =>
    obtain ⟨a, ha, -⟩ := h
    cases ha
  | append_singleton l b ih =>
    simp only [List.foldl_concat, getElem?_insert_eq_ite]
    by_cases hb : k = key b
    · exact ⟨b, by simp, hb.symm, if_pos hb⟩
    · obtain ⟨a, ha, hak⟩ := h
      have ha' : a ∈ l := by
        refine (List.mem_append.mp ha).resolve_right fun hlast => hb ?_
        rw [← hak, List.mem_singleton.mp hlast]
      obtain ⟨c, hc, hck, hget⟩ := ih ⟨a, ha', hak⟩
      exact ⟨c, by simp [hc], hck, (if_neg hb).trans hget⟩

lemma getElem?_foldl_erase (k : κ) :
    (ks.foldl (fun m k => m.erase k) m)[k]? = if k ∈ ks then none else m[k]? := by
  induction ks generalizing m with
  | nil => simp
  | cons x ks ih =>
    rw [List.foldl_cons, ih, Std.ExtTreeMap.getElem?_erase]
    by_cases hx : k = x
    · simp [hx]
    · have hcmp : compare x k ≠ .eq := fun h => hx (Std.LawfulEqCmp.eq_of_compare h).symm
      simp [hx, hcmp]

omit [DecidableEq κ] in
/-- Distinct keys of a map that are removed from it are missing from its size. -/
lemma size_foldl_erase (hnodup : ks.Nodup) (hmem : ∀ k ∈ ks, k ∈ m) :
    (ks.foldl (fun m k => m.erase k) m).size = m.size - ks.length := by
  induction ks generalizing m with
  | nil => simp
  | cons x ks ih =>
    rw [List.nodup_cons] at hnodup
    have hrest : ∀ k ∈ ks, k ∈ m.erase x := by
      intro k hk
      refine Std.ExtTreeMap.mem_erase.mpr ⟨fun h => ?_, hmem k (by simp [hk])⟩
      rw [Std.LawfulEqCmp.eq_of_compare h] at hnodup
      exact hnodup.1 hk
    have hx : m.contains x = true := Std.ExtTreeMap.contains_iff_mem.mpr (hmem x (by simp))
    rw [List.foldl_cons, ih _ hnodup.2 hrest, Std.ExtTreeMap.size_erase, if_pos hx,
      List.length_cons]
    omega

omit [DecidableEq κ] in
lemma mem_treeMap_insert {m : Std.ExtTreeMap κ α} {k x : κ} {a : α} :
    x ∈ m.insert k a ↔ x = k ∨ x ∈ m := by
  rw [Std.ExtTreeMap.mem_insert, Std.LawfulEqOrd.compare_eq_iff_eq, eq_comm]

omit [DecidableEq κ] in
/-- Distinct keys of a map are at most as many as it has. -/
lemma length_le_size {m : Std.ExtTreeMap κ α} {ks : List κ} (hnodup : ks.Nodup)
    (hmem : ∀ k ∈ ks, k ∈ m) : ks.length ≤ m.size := by
  have hsub : ks ⊆ m.keys := by
    intro k hk
    exact Std.ExtTreeMap.mem_keys.mpr (hmem k hk)
  rw [← Std.ExtTreeMap.length_keys]
  exact (List.subperm_of_subset hnodup hsub).length_le

omit [DecidableEq κ] in
lemma mem_treeSet_insert {m : Std.ExtTreeSet κ} {k x : κ} : x ∈ m.insert k ↔ x = k ∨ x ∈ m := by
  rw [Std.ExtTreeSet.mem_insert, Std.LawfulEqOrd.compare_eq_iff_eq, eq_comm]

omit [DecidableEq κ] in
lemma mem_treeSet_foldl_insert {x : κ} (ks : List κ) : ∀ m : Std.ExtTreeSet κ,
    x ∈ ks.foldl (·.insert ·) m ↔ x ∈ m ∨ x ∈ ks := by
  induction ks with
  | nil =>
    intro m
    simp
  | cons k ks ih =>
    intro m
    rw [List.foldl_cons, ih, mem_treeSet_insert, List.mem_cons, or_comm (a := x = k), or_assoc]

omit [Std.LawfulEqOrd κ] [DecidableEq κ] in
lemma treeSet_size_insert {m : Std.ExtTreeSet κ} {k : κ} (h : k ∉ m) :
    (m.insert k).size = m.size + 1 := by
  have hnot : ¬m.contains k = true := h
  rw [Std.ExtTreeSet.size_insert]
  exact if_neg hnot

omit [DecidableEq κ] in
lemma treeSet_toList_nodup (m : Std.ExtTreeSet κ) : m.toList.Nodup := by
  refine (Std.ExtTreeSet.distinct_toList (t := m)).imp ?_
  intro a b hne heq
  rw [heq] at hne
  exact hne Std.ReflCmp.compare_self

/-- The size of a set is the number of its elements. -/
lemma treeSet_size_eq_card {m : Std.ExtTreeSet κ} {ks : List κ} (h : ∀ x, x ∈ m ↔ x ∈ ks) :
    m.size = ks.toFinset.card := by
  rw [← Std.ExtTreeSet.length_toList, ← List.toFinset_card_of_nodup (treeSet_toList_nodup m)]
  congr 1
  ext x
  rw [List.mem_toFinset, List.mem_toFinset, Std.ExtTreeSet.mem_toList, h]

omit [DecidableEq κ] in
lemma mem_treeSet_erase {m : Std.ExtTreeSet κ} {k x : κ} : x ∈ m.erase k ↔ x ≠ k ∧ x ∈ m := by
  rw [Std.ExtTreeSet.mem_erase]
  refine and_congr_left fun _ => not_congr ?_
  rw [Std.LawfulEqOrd.compare_eq_iff_eq, eq_comm]

end Keys

end ReverseMcp.Rust
