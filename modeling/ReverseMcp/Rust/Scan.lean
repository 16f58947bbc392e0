import Mathlib.Data.List.Basic
import Mathlib.Data.List.Induction
import Mathlib.Data.List.Nodup
import Mathlib.Data.List.Pairwise
import Mathlib.Order.Lattice
import Mathlib.Tactic.Common

/-!
# Scans

A loop that keeps the best element so far, replaced by a strictly better one, ends with the first of
the best elements (`firstBest_eq_some_iff`); `max_by_key` ends with the last one
(`lastBest_of_maxByKey`).  A loop that collects what it selects, up to a bound,
selects it from the elements behind which the bound is not yet reached (`mem_take_filterMap`), and
two such loops over the same list collect the same exactly when they select the same from every
element that is reached (`take_filterMap_eq_iff`).
-/

namespace ReverseMcp.Rust

/-- Where a property does not hold of all elements there is a first one without it. -/
lemma exists_first {α : Type} {p : α → Prop} {l : List α} (h : ¬∀ a ∈ l, p a) :
    ∃ front a back, l = front ++ a :: back ∧ (∀ x ∈ front, p x) ∧ ¬p a := by
  induction l with
  | nil => exact absurd (fun a ha => absurd ha List.not_mem_nil) h
  | cons a l ih =>
    by_cases ha : p a
    · obtain ⟨front, b, back, rfl, hfront, hb⟩ := ih fun hall =>
        h (List.forall_mem_cons.mpr ⟨ha, hall⟩)
      exact ⟨a :: front, b, back, rfl, List.forall_mem_cons.mpr ⟨ha, hfront⟩, hb⟩
    · exact ⟨[], a, l, rfl, fun x hx => absurd hx List.not_mem_nil, ha⟩

/-! ## The first of the best -/

section FirstBest

variable {α κ : Type} [LinearOrder κ] (score : α → κ) (floor : κ)

/-- Whether an element replaces the best one so far. -/
def replaces (best : Option α) (a : α) : Bool :=
  (match best with
  | some b => decide (score b < score a)
  | none => true) && decide (floor ≤ score a)

/-- The first of the best elements, where their score reaches the floor. -/
def firstBest (l : List α) : Option α :=
  l.foldl (fun best a => if replaces score floor best a then some a else best) none

/-- The element is the first of those with the highest score. -/
def FirstBest (l : List α) (a : α) : Prop :=
  ∃ l₁ l₂, l = l₁ ++ a :: l₂ ∧ (∀ b ∈ l₁, score b < score a) ∧ ∀ b ∈ l₂, score b ≤ score a

variable {score floor} {l : List α} {a b : α}

lemma FirstBest.mem (h : FirstBest score l a) : a ∈ l := by
  obtain ⟨l₁, l₂, rfl, -, -⟩ := h
  simp

/-- No score is higher. -/
lemma FirstBest.le (h : FirstBest score l a) (hb : b ∈ l) : score b ≤ score a := by
  obtain ⟨l₁, l₂, rfl, h₁, h₂⟩ := h
  rcases List.mem_append.mp hb with hb | hb
  · exact (h₁ b hb).le
  · rcases List.mem_cons.mp hb with rfl | hb
    · exact le_rfl
    · exact h₂ b hb

/-- There is only one first. -/
lemma FirstBest.unique (ha : FirstBest score l a) (hb : FirstBest score l b) : a = b := by
  have heq : score a = score b := le_antisymm (hb.le ha.mem) (ha.le hb.mem)
  obtain ⟨l₁, l₂, rfl, h₁, h₂⟩ := ha
  obtain ⟨m₁, m₂, hl, hm₁, -⟩ := hb
  rcases List.append_eq_append_iff.mp hl with ⟨c, rfl, hc⟩ | ⟨c, rfl, hc⟩
  · cases c with
    | nil => exact (List.cons.inj hc).1
    | cons x c =>
      -- the first one stands before the second one
      obtain ⟨rfl, -⟩ := List.cons.inj hc
      exact absurd heq (hm₁ a (by simp)).ne
  · cases c with
    | nil => exact (List.cons.inj hc).1.symm
    | cons x c =>
      obtain ⟨rfl, -⟩ := List.cons.inj hc
      exact absurd heq.symm (h₁ b (by simp)).ne

/-- In a sorted vector the first of the best stands before the others that are as good. -/
lemma firstBest_of_sorted {lt : α → α → Prop} (hasymm : ∀ a b, lt a b → ¬lt b a)
    (hsorted : l.Pairwise lt) : FirstBest score l a ↔ a ∈ l ∧
      ∀ b ∈ l, b ≠ a → score b < score a ∨ score b = score a ∧ lt a b := by
  constructor
  · intro h
    refine ⟨h.mem, fun b hb hne => ?_⟩
    obtain ⟨l₁, l₂, rfl, h₁, h₂⟩ := h
    rcases List.mem_append.mp hb with hb | hb
    · exact .inl (h₁ b hb)
    · have hb : b ∈ l₂ := (List.mem_cons.mp hb).resolve_left hne
      have hlt : lt a b := (List.pairwise_cons.mp (List.pairwise_append.mp hsorted).2.1).1 b hb
      exact (h₂ b hb).lt_or_eq.imp_right fun heq => ⟨heq, hlt⟩
  · rintro ⟨ha, hbest⟩
    obtain ⟨l₁, l₂, rfl⟩ := List.append_of_mem ha
    obtain ⟨-, htail, hcross⟩ := List.pairwise_append.mp hsorted
    refine ⟨l₁, l₂, rfl, fun b hb => ?_, fun b hb => ?_⟩
    · have hlt : lt b a := hcross b hb a List.mem_cons_self
      have hne : b ≠ a := fun heq => hasymm b a hlt (heq ▸ hlt)
      rcases hbest b (List.mem_append_left _ hb) hne with hless | ⟨-, hback⟩
      · exact hless
      · exact absurd hback (hasymm b a hlt)
    · by_cases hne : b = a
      · exact (congrArg score hne).le
      · rcases hbest b (by simp [hb]) hne with hless | ⟨heq, -⟩
        · exact hless.le
        · exact heq.le

/-- Only the scores of the elements matter. -/
lemma FirstBest.congr {score' : α → κ} (h : ∀ b ∈ l, score' b = score b) :
    FirstBest score' l a ↔ FirstBest score l a := by
  refine exists₂_congr fun l₁ l₂ => and_congr_right fun hl => ?_
  subst hl
  have ha : score' a = score a := h a (by simp)
  refine and_congr (forall₂_congr fun b hb => ?_) (forall₂_congr fun b hb => ?_)
  · rw [h b (by simp [hb]), ha]
  · rw [h b (by simp [hb]), ha]

/-- What the scan has found. -/
def Found (score : α → κ) (floor : κ) (l : List α) : Option α → Prop
  | some a => FirstBest score l a ∧ floor ≤ score a
  | none => ∀ a ∈ l, score a < floor

lemma found_firstBest (l : List α) : Found score floor l (firstBest score floor l) := by
  induction l using List.reverseRecOn with
  | nil => exact fun a ha => absurd ha List.not_mem_nil
  | append_singleton l a ih =>
    rw [firstBest, List.foldl_append, List.foldl_cons, List.foldl_nil]
    change Found score floor l (l.foldl _ none) at ih
    cases hbest :
      l.foldl (fun best a => if replaces score floor best a then some a else best) none with
    | none =>
      rw [hbest] at ih
      by_cases hfloor : floor ≤ score a
      · simp only [replaces, hfloor, decide_true, Bool.and_self, if_true]
        exact ⟨⟨l, [], rfl, fun b hb => (ih b hb).trans_le hfloor, by simp⟩, hfloor⟩
      · simp only [replaces, hfloor, decide_false, Bool.and_false, Bool.false_eq_true, if_false]
        intro b hb
        rcases List.mem_append.mp hb with hb | hb
        · exact ih b hb
        · rw [List.mem_singleton.mp hb]
          exact not_le.mp hfloor
    | some best =>
      rw [hbest] at ih
      obtain ⟨⟨l₁, l₂, rfl, h₁, h₂⟩, hbound⟩ := ih
      by_cases hbetter : score best < score a
      · -- strictly better, so it comes first among the best; a tie keeps the earlier one
        have hfloor : floor ≤ score a := hbound.trans hbetter.le
        simp only [replaces, hbetter, hfloor, decide_true, Bool.and_self, if_true]
        refine ⟨⟨l₁ ++ best :: l₂, [], rfl, fun b hb => ?_, by simp⟩, hfloor⟩
        have hfirst : FirstBest score (l₁ ++ best :: l₂) best := ⟨l₁, l₂, rfl, h₁, h₂⟩
        exact (hfirst.le hb).trans_lt hbetter
      · simp only [replaces, hbetter, decide_false, Bool.false_and, Bool.false_eq_true, if_false]
        refine ⟨⟨l₁, l₂ ++ [a], by simp, h₁, fun b hb => ?_⟩, hbound⟩
        rcases List.mem_append.mp hb with hb | hb
        · exact h₂ b hb
        · rw [List.mem_singleton.mp hb]
          exact not_lt.mp hbetter

/-- The scan finds the first of the best elements, if its score reaches the floor. -/
lemma firstBest_eq_some_iff :
    firstBest score floor l = some a ↔ FirstBest score l a ∧ floor ≤ score a := by
  have hfound : Found score floor l (firstBest score floor l) := found_firstBest l
  cases hbest : firstBest score floor l with
  | none =>
    rw [hbest] at hfound
    exact ⟨nofun, fun h => absurd (hfound a h.1.mem) (not_lt.mpr h.2)⟩
  | some b =>
    rw [hbest] at hfound
    rw [Option.some.injEq]
    exact ⟨fun h => h ▸ hfound, fun h => hfound.1.unique h.1⟩

/-- The scan finds nothing when no score reaches the floor. -/
lemma firstBest_eq_none_iff : firstBest score floor l = none ↔ ∀ a ∈ l, score a < floor := by
  have hfound : Found score floor l (firstBest score floor l) := found_firstBest l
  cases hbest : firstBest score floor l with
  | none =>
    rw [hbest] at hfound
    exact ⟨fun _ => hfound, fun _ => rfl⟩
  | some b =>
    rw [hbest] at hfound
    exact ⟨nofun, fun h => absurd (h b hfound.1.mem) (not_lt.mpr hfound.2)⟩

/-- A scan over images. -/
lemma firstBest_map {β : Type} (f : β → α) (l : List β) :
    firstBest score floor (l.map f) = (firstBest (fun b => score (f b)) floor l).map f := by
  rw [firstBest, List.foldl_map, firstBest]
  refine @List.foldl_hom _ _ _ (Option.map f) _ _ l none fun best b => ?_
  have hsame :
      replaces score floor (best.map f) (f b) = replaces (fun b => score (f b)) floor best b := by
    cases best <;> rfl
  rw [hsame]
  split <;> rfl

end FirstBest

/-! ## The last of the best -/

section LastBest

variable {α κ : Type} [LinearOrder κ]

/-- `max_by_key`: of the elements with the highest key the last one. -/
def maxByKey (key : α → κ) (l : List α) : Option α :=
  l.foldl (fun best a =>
    match best with
    | some b => if key a < key b then some b else some a
    | none => some a) none

/-- The element is the last of those with the highest key. -/
def LastBest (key : α → κ) (l : List α) (a : α) : Prop :=
  ∃ l₁ l₂, l = l₁ ++ a :: l₂ ∧ (∀ b ∈ l₁, key b ≤ key a) ∧ ∀ b ∈ l₂, key b < key a

variable {key : α → κ} {l : List α} {a b : α}

lemma LastBest.mem (h : LastBest key l a) : a ∈ l := by
  obtain ⟨l₁, l₂, rfl, -, -⟩ := h
  simp

/-- No key is higher. -/
lemma LastBest.le (h : LastBest key l a) (hb : b ∈ l) : key b ≤ key a := by
  obtain ⟨l₁, l₂, rfl, h₁, h₂⟩ := h
  rcases List.mem_append.mp hb with hb | hb
  · exact h₁ b hb
  · rcases List.mem_cons.mp hb with rfl | hb
    · exact le_rfl
    · exact (h₂ b hb).le

/-- An element that is as good as the best one takes its place. -/
lemma LastBest.replace (h : LastBest key l b) (hle : key b ≤ key a) :
    LastBest key (l ++ [a]) a :=
  ⟨l, [], rfl, fun _ hc => (h.le hc).trans hle, fun _ hc => absurd hc List.not_mem_nil⟩

lemma LastBest.keep (h : LastBest key l b) (hlt : key a < key b) : LastBest key (l ++ [a]) b := by
  obtain ⟨l₁, l₂, rfl, h₁, h₂⟩ := h
  refine ⟨l₁, l₂ ++ [a], by simp, h₁, fun c hc => ?_⟩
  rcases List.mem_append.mp hc with hc | hc
  · exact h₂ c hc
  · rwa [List.mem_singleton.mp hc]

/-- What the scan has found: nothing in an empty vector, else the last of the best. -/
lemma maxByKey_spec (key : α → κ) (l : List α) :
    (l = [] ∧ maxByKey key l = none) ∨ ∃ a, maxByKey key l = some a ∧ LastBest key l a := by
  induction l using List.reverseRecOn with
  | nil => exact .inl ⟨rfl, rfl⟩
  | append_singleton l a ih =>
    refine .inr ?_
    rw [maxByKey, List.foldl_append, List.foldl_cons, List.foldl_nil]
    rcases ih with ⟨rfl, -⟩ | ⟨b, hb, hbest⟩
    · exact ⟨a, rfl, [], [], rfl, by simp, by simp⟩
    · rw [maxByKey] at hb
      rw [hb]
      dsimp only
      split
      · rename_i hlt
        exact ⟨b, rfl, hbest.keep hlt⟩
      · rename_i hnot
        exact ⟨a, rfl, hbest.replace (not_lt.mp hnot)⟩

lemma lastBest_of_maxByKey (h : maxByKey key l = some a) : LastBest key l a := by
  rcases maxByKey_spec key l with ⟨-, hnone⟩ | ⟨b, hb, hbest⟩
  · cases hnone.symm.trans h
  · rwa [Option.some.inj (h.symm.trans hb)]

lemma maxByKey_eq_none_iff : maxByKey key l = none ↔ l = [] := by
  rcases maxByKey_spec key l with ⟨hnil, hnone⟩ | ⟨b, hb, hbest⟩
  · exact iff_of_true hnone hnil
  · refine iff_of_false (by simp [hb]) (List.ne_nil_of_mem hbest.mem)

end LastBest

/-! ## Selections -/

section Selection

variable {α β : Type}

/-- A selection is without repetitions iff nothing is selected from two elements. -/
lemma nodup_filterMap_iff {l : List α} (hl : l.Nodup) (h : α → Option β) :
    (l.filterMap h).Nodup ↔ ∀ a ∈ l, ∀ a' ∈ l, ∀ b, h a = some b → h a' = some b → a = a' := by
  rw [List.Nodup, List.pairwise_filterMap]
  constructor
  · intro hpairs a ha a' ha' b hb hb'
    by_contra hne
    have hsymm : Std.Symm fun a a' : α => ∀ b, h a = some b → ∀ b', h a' = some b' → b ≠ b' :=
      ⟨fun x y hxy b hb b' hb' heq => hxy b' hb' b hb heq.symm⟩
    exact hpairs.forall ha ha' hne b hb b hb' rfl
  · intro hall
    refine hl.pairwise_of_forall_ne fun a ha a' ha' hne b hb b' hb' heq => hne ?_
    exact hall a ha a' ha' b hb (heq ▸ hb')

/-- What is selected within a bound. -/
lemma mem_take_filterMap {l : List α} {h : α → Option β} {b : β} {n : ℕ} :
    b ∈ (l.filterMap h).take n ↔ ∃ front a back, l = front ++ a :: back ∧ h a = some b ∧
      (front.filterMap h).length < n := by
  induction l generalizing n with
  | nil => simp
  | cons a l ih =>
    have hsplit : (∃ front x back, a :: l = front ++ x :: back ∧ h x = some b ∧
        (front.filterMap h).length < n) ↔ h a = some b ∧ 0 < n ∨
          ∃ front x back, l = front ++ x :: back ∧ h x = some b ∧
            ((a :: front).filterMap h).length < n := by
      constructor
      · rintro ⟨front, x, back, heq, hx, hlt⟩
        cases front with
        | nil =>
          obtain ⟨rfl, -⟩ := List.cons.inj heq
          exact .inl ⟨hx, hlt⟩
        | cons y front =>
          obtain ⟨rfl, rfl⟩ := List.cons.inj heq
          exact .inr ⟨front, x, back, rfl, hx, hlt⟩
      · rintro (⟨ha, hn⟩ | ⟨front, x, back, rfl, hx, hlt⟩)
        · exact ⟨[], a, l, rfl, ha, hn⟩
        · exact ⟨a :: front, x, back, rfl, hx, hlt⟩
    rw [hsplit]
    cases ha : h a with
    | none =>
      rw [List.filterMap_cons_none ha, ih]
      simp [ha]
    | some c =>
      rw [List.filterMap_cons_some ha]
      cases n with
      | zero => simp
      | succ n =>
        rw [List.take_succ_cons, List.mem_cons, ih]
        simp [ha, eq_comm (a := b)]

/-- Two selections from a list, one of which selects no more than the other: they agree as a whole
iff they agree on every element. -/
lemma filterMap_eq_iff {f g : α → Option β} {l : List α}
    (h : ∀ a ∈ l, g a = none → f a = none) :
    l.filterMap f = l.filterMap g ↔ ∀ a ∈ l, f a = g a := by
  have hle : ∀ {l : List α}, (∀ a ∈ l, g a = none → f a = none) →
      (l.filterMap f).length ≤ (l.filterMap g).length := by
    intro l h
    rw [List.length_filterMap_eq_countP, List.length_filterMap_eq_countP]
    refine List.countP_mono_left fun a ha hf => ?_
    rw [Option.isSome_iff_ne_none] at hf ⊢
    exact mt (h a ha) hf
  refine ⟨fun heq => ?_, fun hall => List.filterMap_congr hall⟩
  induction l with
  | nil => simp
  | cons a l ih =>
    obtain ⟨hhead, htail⟩ := List.forall_mem_cons.mp h
    rw [List.forall_mem_cons]
    cases hg : g a with
    | none =>
      rw [List.filterMap_cons_none (hhead hg), List.filterMap_cons_none hg] at heq
      exact ⟨hhead hg, ih htail heq⟩
    | some b =>
      rw [List.filterMap_cons_some hg] at heq
      cases hf : f a with
      | none =>
        rw [List.filterMap_cons_none hf] at heq
        have hlength := congrArg List.length heq
        rw [List.length_cons] at hlength
        have hbound := hle htail
        omega
      | some c =>
        rw [List.filterMap_cons_some hf, List.cons.injEq] at heq
        exact ⟨congrArg some heq.1, ih htail heq.2⟩

end Selection

section Selections

variable {α β κ : Type} {p q : α → Option β} {name : β → κ} {of : α → κ}

/-- What is selected from an element is not selected from those behind it. -/
lemma not_mem_filterMap {a : α} {l : List α} {b : β} (hhead : ∀ x ∈ l, of a ≠ of x)
    (hq : ∀ x ∈ l, ∀ b, q x = some b → name b = of x) (hb : name b = of a) : b ∉ l.filterMap q := by
  intro hmem
  obtain ⟨x, hx, hqx⟩ := List.mem_filterMap.mp hmem
  exact hhead x hx (hb.symm.trans (hq x hx b hqx))

/-- Where two selections agree on a beginning, what one selects from the first element the other
cannot select later. -/
lemma head_eq_of_take_filterMap_eq {a : α} {l : List α} (hhead : ∀ x ∈ l, of a ≠ of x)
    (hp : ∀ x ∈ a :: l, ∀ b, p x = some b → name b = of x)
    (hq : ∀ x ∈ a :: l, ∀ b, q x = some b → name b = of x) {n : ℕ}
    (heq : ((a :: l).filterMap p).take (n + 1) = ((a :: l).filterMap q).take (n + 1)) :
    p a = q a := by
  obtain ⟨hpa', hp'⟩ := List.forall_mem_cons.mp hp
  obtain ⟨hqa', hq'⟩ := List.forall_mem_cons.mp hq
  cases hpa : p a with
  | none =>
    cases hqa : q a with
    | none => rfl
    | some c =>
      rw [List.filterMap_cons_none hpa, List.filterMap_cons_some hqa, List.take_succ_cons] at heq
      have hmem : c ∈ (l.filterMap p).take (n + 1) := heq ▸ List.mem_cons_self
      exact absurd (List.mem_of_mem_take hmem) (not_mem_filterMap hhead hp' (hqa' c hqa))
  | some b =>
    rw [List.filterMap_cons_some hpa, List.take_succ_cons] at heq
    cases hqa : q a with
    | none =>
      rw [List.filterMap_cons_none hqa] at heq
      have hmem : b ∈ (l.filterMap q).take (n + 1) := heq ▸ List.mem_cons_self
      exact absurd (List.mem_of_mem_take hmem) (not_mem_filterMap hhead hq' (hpa' b hpa))
    | some c =>
      rw [List.filterMap_cons_some hqa, List.take_succ_cons] at heq
      rw [(List.cons.inj heq).1]

/-- Two selections from a list whose elements can be told apart by what is selected: they agree on a
beginning exactly when they agree on every element that is reached. -/
lemma take_filterMap_eq_iff {l : List α} (hdistinct : l.Pairwise fun a b => of a ≠ of b)
    (hp : ∀ a ∈ l, ∀ b, p a = some b → name b = of a)
    (hq : ∀ a ∈ l, ∀ b, q a = some b → name b = of a) (n : ℕ) :
    (l.filterMap p).take n = (l.filterMap q).take n ↔
      ∀ front a back, l = front ++ a :: back → (front.filterMap p).length < n → p a = q a := by
  induction l generalizing n with
  | nil => simp
  | cons a l ih =>
    obtain ⟨hhead, htail⟩ := List.pairwise_cons.mp hdistinct
    have hp' := fun x hx => hp x (List.mem_cons_of_mem _ hx)
    have hq' := fun x hx => hq x (List.mem_cons_of_mem _ hx)
    have ih := fun n => ih htail hp' hq' n
    cases n with
    | zero => simp
    | succ n =>
      constructor
      · intro heq
        have hfirst : p a = q a := head_eq_of_take_filterMap_eq hhead hp hq heq
        intro front x back hl hlength
        -- the rest agrees on what is left of the beginning
        cases front with
        | nil =>
          obtain ⟨rfl, -⟩ := List.cons.inj hl
          exact hfirst
        | cons y front =>
          obtain ⟨rfl, rfl⟩ := List.cons.inj hl
          cases hpa : p a with
          | none =>
            rw [List.filterMap_cons_none hpa] at heq hlength
            rw [List.filterMap_cons_none (hfirst ▸ hpa)] at heq
            exact (ih (n + 1)).mp heq front x back rfl hlength
          | some b =>
            rw [List.filterMap_cons_some hpa] at heq hlength
            rw [List.filterMap_cons_some (hfirst ▸ hpa), List.take_succ_cons,
              List.take_succ_cons] at heq
            exact (ih n).mp (List.cons.inj heq).2 front x back rfl (Nat.lt_of_succ_lt_succ hlength)
      · intro hall
        have hfirst : p a = q a := hall [] a l rfl (Nat.succ_pos n)
        cases hpa : p a with
        | none =>
          rw [List.filterMap_cons_none hpa, List.filterMap_cons_none (hfirst ▸ hpa)]
          refine (ih (n + 1)).mpr fun front x back hl hlength => ?_
          refine hall (a :: front) x back (by rw [hl]; rfl) ?_
          rwa [List.filterMap_cons_none hpa]
        | some b =>
          rw [List.filterMap_cons_some hpa, List.filterMap_cons_some (hfirst ▸ hpa),
            List.take_succ_cons, List.take_succ_cons]
          refine congrArg (b :: ·) ((ih n).mpr fun front x back hl hlength => ?_)
          refine hall (a :: front) x back (by rw [hl]; rfl) ?_
          rw [List.filterMap_cons_some hpa]
          exact Nat.succ_lt_succ hlength

end Selections

end ReverseMcp.Rust
