import Mathlib.Data.List.Basic
import Mathlib.Tactic.Common

/-!
# Maximal runs

A run of a list is a stretch of elements with a property that cannot be made longer on either side.
A loop that carries the length of the stretch it is in, and closes it at the first element without
the property and at the end of the list, finds all runs of some length: `mem_runs` says that these
are what it finds, `runs_pairwise` that it finds them in order and apart from each other.
-/

namespace ReverseMcp.Rust

variable {α : Type} (p : α → Bool) (k : ℕ)

/-- The elements from `r.1` up to `r.2` are a maximal run of at least `k` elements. -/
structure IsRun (l : List α) (r : ℕ × ℕ) : Prop where
  long : r.1 + k ≤ r.2
  bound : r.2 ≤ l.length
  inside : ∀ i a, r.1 ≤ i → i < r.2 → l[i]? = some a → p a = true
  before : ∀ i a, i + 1 = r.1 → l[i]? = some a → p a = false
  after : ∀ a, l[r.2]? = some a → p a = false

/-- The runs that are left at a position, behind the last `run` elements. -/
def runsFrom : ℕ → List α → ℕ → List (ℕ × ℕ)
  | pos, [], run => if k ≤ run then [(pos - run, pos)] else []
  | pos, a :: rest, run =>
    if p a then runsFrom (pos + 1) rest (run + 1)
    else (if k ≤ run then [(pos - run, pos)] else []) ++ runsFrom (pos + 1) rest 0

/-- The runs of a list. -/
def runs (l : List α) : List (ℕ × ℕ) := runsFrom p k 0 l 0

/-- The last `run` elements before a position are a run so far. -/
structure OpenRun (l : List α) (pos run : ℕ) : Prop where
  le : run ≤ pos
  inside : ∀ i a, pos - run ≤ i → i < pos → l[i]? = some a → p a = true
  before : ∀ i a, i + 1 = pos - run → l[i]? = some a → p a = false

variable {p k} {l rest : List α} {pos run : ℕ} {r : ℕ × ℕ} {a : α}

lemma OpenRun.push (h : OpenRun p l pos run) (hget : l[pos]? = some a) (ha : p a = true) :
    OpenRun p l (pos + 1) (run + 1) where
  le := Nat.succ_le_succ h.le
  inside i b hlo hhi hb := by
    by_cases hi : i = pos
    · subst hi
      rwa [Option.some.inj (hb.symm.trans hget)]
    · exact h.inside i b (by omega) (by omega) hb
  before i b hi hb := h.before i b (by omega) hb

lemma OpenRun.fresh (hget : l[pos]? = some a) (ha : p a = false) : OpenRun p l (pos + 1) 0 where
  le := Nat.zero_le _
  inside i b hlo hhi _ := absurd hlo (by omega)
  before i b hi hb := by
    obtain rfl : i = pos := by omega
    rwa [Option.some.inj (hb.symm.trans hget)]

/-- Where the stretch ends, it is the only run that starts within it. -/
lemma OpenRun.isRun_iff (h : OpenRun p l pos run) (hk : 0 < k) (hpos : pos ≤ l.length)
    (hstop : ∀ a, l[pos]? = some a → p a = false) :
    IsRun p k l r ∧ pos - run ≤ r.1 ∧ r.1 ≤ pos ↔ k ≤ run ∧ r = (pos - run, pos) := by
  have hle := h.le
  constructor
  · rintro ⟨hr, hlo, hhi⟩
    have hlong := hr.long
    have hbound := hr.bound
    -- the run cannot go on past the position, nor end or start inside the stretch
    have hend : r.2 ≤ pos := by
      by_contra hlt
      have hget := List.getElem?_eq_getElem (l := l) (i := pos) (by omega)
      exact absurd (hr.inside pos _ hhi (by omega) hget) (by simp [hstop _ hget])
    have hsnd : r.2 = pos := by
      by_contra hne
      have hget := List.getElem?_eq_getElem (l := l) (i := r.2) (by omega)
      exact absurd (h.inside r.2 _ (by omega) (by omega) hget) (by simp [hr.after _ hget])
    have hfst : r.1 = pos - run := by
      by_contra hne
      have hget := List.getElem?_eq_getElem (l := l) (i := r.1 - 1) (by omega)
      exact absurd (h.inside (r.1 - 1) _ (by omega) (by omega) hget)
        (by simp [hr.before (r.1 - 1) _ (by omega) hget])
    exact ⟨by omega, Prod.ext hfst hsnd⟩
  · rintro ⟨hlong, rfl⟩
    refine ⟨⟨?_, hpos, h.inside, h.before, hstop⟩, Nat.le_refl _, Nat.sub_le _ _⟩
    dsimp only
    omega

lemma mem_runsFrom (hk : 0 < k) (hrest : l.drop pos = rest) (hpos : pos ≤ l.length)
    (h : OpenRun p l pos run) :
    r ∈ runsFrom p k pos rest run ↔ IsRun p k l r ∧ pos - run ≤ r.1 := by
  induction rest generalizing pos run with
  | nil =>
    have hend : l.length ≤ pos := List.drop_eq_nil_iff.mp hrest
    have hstop : ∀ a, l[pos]? = some a → p a = false := by
      rw [List.getElem?_eq_none hend]
      rintro a ⟨⟩
    have hclosed := h.isRun_iff (r := r) hk hpos hstop
    have hmem : r ∈ runsFrom p k pos [] run ↔ k ≤ run ∧ r = (pos - run, pos) := by
      rw [runsFrom]
      split <;> simp [*]
    rw [hmem, ← hclosed]
    constructor
    · exact fun ⟨hr, hlo, _⟩ => ⟨hr, hlo⟩
    · rintro ⟨hr, hlo⟩
      have hlong := hr.long
      have hbound := hr.bound
      exact ⟨hr, hlo, by omega⟩
  | cons a rest ih =>
    have hlt : pos < l.length := by
      by_contra hge
      rw [List.drop_eq_nil_of_le (by omega)] at hrest
      cases hrest
    have hget : l[pos]? = some a := by
      have hhead := congrArg List.head? hrest
      rwa [List.head?_drop] at hhead
    have hdrop : l.drop (pos + 1) = rest := by
      have htail := congrArg List.tail hrest
      rwa [List.tail_drop] at htail
    cases ha : p a with
    | true =>
      rw [runsFrom, if_pos ha, ih hdrop hlt (h.push hget ha), Nat.add_sub_add_right]
    | false =>
      have hstop : ∀ b, l[pos]? = some b → p b = false := by
        intro b hb
        rwa [Option.some.inj (hb.symm.trans hget)]
      have hclosed := h.isRun_iff (r := r) hk hpos hstop
      have hmem : r ∈ (if k ≤ run then [(pos - run, pos)] else []) ↔
          k ≤ run ∧ r = (pos - run, pos) := by
        split <;> simp [*]
      rw [runsFrom, if_neg (by simp [ha]), List.mem_append, hmem, ← hclosed,
        ih hdrop hlt (OpenRun.fresh hget ha)]
      constructor
      · rintro (⟨hr, hlo, -⟩ | ⟨hr, hlo⟩)
        · exact ⟨hr, hlo⟩
        · exact ⟨hr, by omega⟩
      · rintro ⟨hr, hlo⟩
        by_cases hfirst : r.1 ≤ pos
        · exact .inl ⟨hr, hlo, hfirst⟩
        · exact .inr ⟨hr, by omega⟩

lemma openRun_zero (p : α → Bool) (l : List α) : OpenRun p l 0 0 where
  le := Nat.le_refl 0
  inside _ _ _ hhi _ := absurd hhi (Nat.not_lt_zero _)
  before _ _ hi _ := absurd hi (Nat.succ_ne_zero _)

/-- The loop finds the maximal runs. -/
lemma mem_runs (hk : 0 < k) : r ∈ runs p k l ↔ IsRun p k l r := by
  rw [runs, mem_runsFrom hk (List.drop_zero (l := l)) (Nat.zero_le _) (openRun_zero p l)]
  exact and_iff_left (Nat.zero_le _)

lemma runsFrom_bounds (hrun : run ≤ pos) :
    (runsFrom p k pos rest run).Pairwise (fun r r' => r.2 < r'.1) ∧
      ∀ r ∈ runsFrom p k pos rest run, pos - run ≤ r.1 := by
  induction rest generalizing pos run with
  | nil =>
    rw [runsFrom]
    split
    · refine ⟨List.pairwise_singleton _ _, fun r hr => ?_⟩
      obtain rfl := List.mem_singleton.mp hr
      exact Nat.le_refl _
    · exact ⟨List.Pairwise.nil, fun r hr => by cases hr⟩
  | cons a rest ih =>
    rw [runsFrom]
    split
    · have hih := @ih (pos + 1) (run + 1) (by omega)
      rwa [Nat.add_sub_add_right] at hih
    · obtain ⟨hpairwise, hlo⟩ := ih (Nat.zero_le (pos + 1))
      constructor
      · refine List.pairwise_append.mpr ⟨by split <;> simp, hpairwise, ?_⟩
        intro r hr r' hr'
        have hlo' := hlo r' hr'
        split at hr
        · rw [List.mem_singleton.mp hr]
          dsimp only
          omega
        · cases hr
      · intro r hr
        rcases List.mem_append.mp hr with hr | hr
        · split at hr
          · obtain rfl := List.mem_singleton.mp hr
            exact Nat.le_refl _
          · cases hr
        · have hlo' := hlo r hr
          omega

/-- The runs are found in order, with an element between each two. -/
lemma runs_pairwise : (runs p k l).Pairwise fun r r' => r.2 < r'.1 :=
  (runsFrom_bounds (Nat.zero_le _)).1

/-- The runs of a list are those of what the property looks at. -/
lemma runs_map {β : Type} (f : β → α) (l : List β) : runs (p ∘ f) k l = runs p k (l.map f) := by
  have hloop : ∀ (l : List β) (pos run : ℕ),
      runsFrom (p ∘ f) k pos l run = runsFrom p k pos (l.map f) run := by
    intro l
    induction l with
    | nil => exact fun _ _ => rfl
    | cons b l ih =>
      intro pos run
      rw [List.map_cons, runsFrom, runsFrom, ih, ih]
      rfl
  exact hloop l 0 0

/-- The elements of a run. -/
def slice (l : List α) (r : ℕ × ℕ) : List α := (l.take r.2).drop r.1

lemma slice_push (hget : l[pos]? = some a) (hrun : run ≤ pos) :
    slice l (pos - run, pos + 1) = slice l (pos - run, pos) ++ [a] := by
  have hlt : pos < l.length := List.getElem?_eq_some_iff.mp hget |>.1
  rw [slice, List.take_add_one, hget, List.drop_append_of_le_length, slice]
  · rfl
  · rw [List.length_take]
    omega

end ReverseMcp.Rust
