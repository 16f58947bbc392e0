import Mathlib.Data.List.Nodup
import Mathlib.Data.Nat.Find
import Mathlib.Data.Nat.Init
import Mathlib.Order.Nat
import Mathlib.Tactic.Lemma
import Mathlib.Tactic.Common

/-!
# Breadth-first layers

Walks that count their edges, over any vertex type: `succ v` is the list of the successors of `v`.
What lies within `n` edges of some roots is a union of layers, and the layer behind the `n`-th one
is made of the successors that are not yet seen (`Layer.next`).  A breadth-first search that goes
level by level has this invariant, whatever it does with the edges it looks at.

`levelOrder` is the order in which such a search expands the vertices.
-/

namespace ReverseMcp.Graph

variable {V : Type}

/-! ## Walks -/

/-- There is a walk of `n` edges from `u` to the vertex. -/
inductive Steps (succ : V → List V) (u : V) : ℕ → V → Prop
  | refl : Steps succ u 0 u
  | tail {n : ℕ} {v w : V} : Steps succ u n v → w ∈ succ v → Steps succ u (n + 1) w

lemma steps_zero {succ : V → List V} {u v : V} : Steps succ u 0 v ↔ v = u := by
  constructor
  · intro h
    cases h
    rfl
  · rintro rfl
    exact .refl

lemma steps_succ {succ : V → List V} {u v : V} {n : ℕ} :
    Steps succ u (n + 1) v ↔ ∃ w, Steps succ u n w ∧ v ∈ succ w := by
  constructor
  · rintro (- | ⟨hw, hv⟩)
    exact ⟨_, hw, hv⟩
  · rintro ⟨w, hw, hv⟩
    exact hw.tail hv

/-- The vertex can be reached from some root by at most `n` edges. -/
def Within (succ : V → List V) (roots : List V) (n : ℕ) (v : V) : Prop :=
  ∃ r ∈ roots, ∃ k ≤ n, Steps succ r k v

/-- The vertex is at distance `n` from the roots. -/
def AtDistance (succ : V → List V) (roots : List V) (n : ℕ) (v : V) : Prop :=
  Within succ roots n v ∧ ∀ m < n, ¬ Within succ roots m v

section Distance

variable {succ : V → List V} {roots : List V} {m n : ℕ} {u v w : V}

lemma Within.mono (h : Within succ roots m v) (hmn : m ≤ n) : Within succ roots n v := by
  obtain ⟨r, hr, k, hk, hsteps⟩ := h
  exact ⟨r, hr, k, by omega, hsteps⟩

lemma within_zero : Within succ roots 0 v ↔ v ∈ roots := by
  constructor
  · rintro ⟨r, hr, k, hk, hsteps⟩
    cases hsteps with
    | refl => exact hr
    | tail => omega
  · intro hv
    exact ⟨v, hv, 0, le_rfl, .refl⟩

lemma within_of_mem (hv : v ∈ roots) : Within succ roots n v := (within_zero.mpr hv).mono (by omega)

lemma Within.tail (h : Within succ roots n v) (hw : w ∈ succ v) : Within succ roots (n + 1) w := by
  obtain ⟨r, hr, k, hk, hsteps⟩ := h
  exact ⟨r, hr, k + 1, by omega, hsteps.tail hw⟩

/-- What can be reached is at some distance. -/
lemma Within.exists_atDistance (h : Within succ roots n v) :
    ∃ m ≤ n, AtDistance succ roots m v := by
  classical
  have hex : ∃ k, Within succ roots k v := ⟨n, h⟩
  refine ⟨Nat.find hex, Nat.find_min' hex h, Nat.find_spec hex, ?_⟩
  intro m hm
  exact Nat.find_min hex hm

lemma AtDistance.unique (hm : AtDistance succ roots m v) (hn : AtDistance succ roots n v) :
    m = n := by
  by_contra hne
  rcases Nat.lt_or_gt_of_ne hne with h | h
  · exact hn.2 m h hm.1
  · exact hm.2 n h hn.1

lemma atDistance_zero : AtDistance succ roots 0 v ↔ v ∈ roots := by
  constructor
  · intro h
    exact within_zero.mp h.1
  · intro hv
    refine ⟨within_zero.mpr hv, ?_⟩
    intro m hm
    omega

/-- One more edge leaves the outermost layer. -/
lemma within_succ : Within succ roots (n + 1) v ↔
    Within succ roots n v ∨ ∃ u, AtDistance succ roots n u ∧ v ∈ succ u := by
  constructor
  · rintro ⟨r, hr, k, hk, hsteps⟩
    cases hsteps with
    | refl => exact .inl (within_of_mem hr)
    | @tail k u _ hu hv =>
      -- the last edge leaves a vertex that is in some layer, and only the `n`-th one is new
      have hwithin : Within succ roots n u := ⟨r, hr, k, by omega, hu⟩
      obtain ⟨m, hm, hat⟩ := hwithin.exists_atDistance
      rcases Nat.lt_or_ge m n with hlt | hge
      · exact .inl ((hat.1.tail hv).mono hlt)
      · obtain rfl : m = n := by omega
        exact .inr ⟨u, hat, hv⟩
  · rintro (h | ⟨u, hu, hv⟩)
    · exact h.mono (by omega)
    · exact hu.1.tail hv

lemma atDistance_succ : AtDistance succ roots (n + 1) v ↔
    ¬ Within succ roots n v ∧ ∃ u, AtDistance succ roots n u ∧ v ∈ succ u := by
  constructor
  · intro h
    have hnot : ¬ Within succ roots n v := h.2 n (by omega)
    exact ⟨hnot, (within_succ.mp h.1).resolve_left hnot⟩
  · rintro ⟨hnot, hu⟩
    refine ⟨within_succ.mpr (.inr hu), ?_⟩
    intro m hm hwithin
    exact hnot (hwithin.mono (by omega))

/-- The last edge of a walk leaves a vertex that lies closer. -/
lemma within_iff_tail : Within succ roots n v ↔
    v ∈ roots ∨ ∃ u, (∃ m < n, Within succ roots m u) ∧ v ∈ succ u := by
  constructor
  · rintro ⟨r, hr, k, hk, hsteps⟩
    cases hsteps with
    | refl => exact .inl hr
    | @tail k u _ hu hv => exact .inr ⟨u, ⟨k, by omega, r, hr, k, le_rfl, hu⟩, hv⟩
  · rintro (hv | ⟨u, ⟨m, hm, hu⟩, hv⟩)
    · exact within_of_mem hv
    · exact (hu.tail hv).mono hm

/-- A walk of at least one edge leaves a vertex at some distance below its length. -/
lemma exists_steps_iff {L : ℕ} : (∃ k, 1 ≤ k ∧ k ≤ L ∧ Steps succ u k v) ↔
    ∃ m < L, ∃ w, AtDistance succ [u] m w ∧ v ∈ succ w := by
  constructor
  · rintro ⟨k, hk, hkL, hsteps⟩
    cases hsteps with
    | refl => omega
    | @tail k w _ hw hv =>
      have hwithin : Within succ [u] k w := ⟨u, by simp, k, le_rfl, hw⟩
      obtain ⟨m, hm, hat⟩ := hwithin.exists_atDistance
      exact ⟨m, by omega, w, hat, hv⟩
  · rintro ⟨m, hm, w, ⟨⟨r, hr, k, hk, hsteps⟩, -⟩, hv⟩
    obtain rfl := List.mem_singleton.mp hr
    exact ⟨k + 1, by omega, by omega, hsteps.tail hv⟩

end Distance

/-! ## Layers -/

/-- What a breadth-first search has after `n` levels: it has seen what lies within `n` edges, and
its frontier is the outermost layer. -/
structure Layer (succ : V → List V) (roots : List V) (n : ℕ) (seen : V → Prop)
    (frontier : List V) : Prop where
  seen_iff : ∀ v, seen v ↔ Within succ roots n v
  mem_frontier_iff : ∀ v, v ∈ frontier ↔ AtDistance succ roots n v

section Layers

variable {succ : V → List V} {roots : List V}

lemma Layer.start : Layer succ roots 0 (· ∈ roots) roots where
  seen_iff _ := within_zero.symm
  mem_frontier_iff _ := atDistance_zero.symm

lemma Layer.congr {n : ℕ} {seen seen' : V → Prop} {frontier : List V}
    (h : Layer succ roots n seen frontier) (hseen : ∀ v, seen' v ↔ seen v) :
    Layer succ roots n seen' frontier where
  seen_iff v := (hseen v).trans (h.seen_iff v)
  mem_frontier_iff := h.mem_frontier_iff

/-- A level of the search: the successors of the frontier are seen, and those that were not seen
before are the next frontier. -/
lemma Layer.next {n : ℕ} {seen seen' : V → Prop} {frontier next : List V}
    (h : Layer succ roots n seen frontier)
    (hseen : ∀ v, seen' v ↔ seen v ∨ ∃ u ∈ frontier, v ∈ succ u)
    (hnext : ∀ v, v ∈ next ↔ ¬ seen v ∧ ∃ u ∈ frontier, v ∈ succ u) :
    Layer succ roots (n + 1) seen' next where
  seen_iff v := by
    rw [hseen, within_succ, h.seen_iff]
    simp only [h.mem_frontier_iff]
  mem_frontier_iff v := by
    rw [hnext, atDistance_succ, h.seen_iff]
    simp only [h.mem_frontier_iff]

end Layers

/-- What a search has before level `n` when its frontier may hold vertices that it has seen: it has
seen what lies within fewer than `n` edges, and the frontier holds the layer at distance `n` and
nothing farther away. -/
structure Border (succ : V → List V) (roots : List V) (n : ℕ) (seen : V → Prop)
    (frontier : List V) : Prop where
  seen_iff : ∀ v, seen v ↔ ∃ m < n, Within succ roots m v
  within : ∀ v ∈ frontier, Within succ roots n v
  mem : ∀ v, AtDistance succ roots n v → v ∈ frontier

section Borders

variable {succ : V → List V} {roots : List V}

lemma Border.start : Border succ roots 0 (fun _ => False) roots where
  seen_iff v := by simp
  within v hv := within_zero.mpr hv
  mem v hv := atDistance_zero.mp hv

/-- What has been seen behind level `n`. -/
lemma Border.seen_next {n : ℕ} {seen : V → Prop} {frontier : List V}
    (h : Border succ roots n seen frontier) (v : V) :
    (seen v ∨ v ∈ frontier) ↔ ∃ m < n + 1, Within succ roots m v := by
  rw [h.seen_iff]
  constructor
  · rintro (⟨m, hm, hwithin⟩ | hv)
    · exact ⟨m, by omega, hwithin⟩
    · exact ⟨n, by omega, h.within v hv⟩
  · rintro ⟨m, hm, hwithin⟩
    obtain ⟨k, hk, hat⟩ := hwithin.exists_atDistance
    rcases Nat.lt_or_ge k n with hlt | hge
    · exact .inl ⟨k, hlt, hat.1⟩
    · obtain rfl : k = n := by omega
      exact .inr (h.mem v hat)

/-- A level of the search: what the frontier holds is seen, and the successors of what is new are
the next frontier. -/
lemma Border.next {n : ℕ} {seen seen' : V → Prop} {frontier next : List V}
    (h : Border succ roots n seen frontier) (hseen : ∀ v, seen' v ↔ seen v ∨ v ∈ frontier)
    (hnext : ∀ v, v ∈ next ↔ ∃ u ∈ frontier, ¬ seen u ∧ v ∈ succ u) :
    Border succ roots (n + 1) seen' next where
  seen_iff v := (hseen v).trans (h.seen_next v)
  within v hv := by
    obtain ⟨u, hu, -, hv⟩ := (hnext v).mp hv
    exact (h.within u hu).tail hv
  mem v hv := by
    obtain ⟨-, u, hu, hv⟩ := atDistance_succ.mp hv
    refine (hnext v).mpr ⟨u, h.mem u hu, ?_, hv⟩
    rw [h.seen_iff]
    rintro ⟨m, hm, hwithin⟩
    exact hu.2 m hm hwithin

/-- Behind an empty frontier there is nothing more to see. -/
lemma Border.of_nil {n : ℕ} {seen : V → Prop} (h : Border succ roots n seen []) (k : ℕ) (v : V) :
    seen v ↔ ∃ m < n + k, Within succ roots m v := by
  have hnone : ∀ j, ∀ w, ¬ AtDistance succ roots (n + j) w := by
    intro j
    induction j with
    | zero => exact fun w hw => List.not_mem_nil (h.mem w hw)
    | succ j ih =>
      intro w hw
      obtain ⟨-, u, hu, -⟩ := atDistance_succ.mp hw
      exact ih u hu
  rw [h.seen_iff]
  constructor
  · rintro ⟨m, hm, hwithin⟩
    exact ⟨m, by omega, hwithin⟩
  · rintro ⟨m, hm, hwithin⟩
    obtain ⟨j, hj, hat⟩ := hwithin.exists_atDistance
    rcases Nat.lt_or_ge j n with hlt | hge
    · exact ⟨j, hlt, hat.1⟩
    · obtain ⟨i, rfl⟩ := Nat.exists_eq_add_of_le hge
      exact absurd hat (hnone i v)

/-- What going through a frontier does: its vertices are seen, the new ones with the property are
kept, and the successors of the new ones are behind the next frontier. -/
structure Level (succ : V → List V) (P : V → Prop) (frontier next : List V) (seen : V → Prop)
    (new next' : List V) (seen' : V → Prop) : Prop where
  seen_iff : ∀ v, seen' v ↔ seen v ∨ v ∈ frontier
  new_iff : ∀ v, v ∈ new ↔ v ∈ frontier ∧ ¬ seen v ∧ P v
  next_iff : ∀ w, w ∈ next' ↔ w ∈ next ∨ ∃ v ∈ frontier, ¬ seen v ∧ w ∈ succ v

variable {P : V → Prop} {v : V} {frontier next new next' : List V} {seen seen₁ seen' : V → Prop}

lemma Level.nil : Level succ P [] next seen [] next seen where
  seen_iff v := by simp
  new_iff v := by simp
  next_iff w := by simp

/-- A vertex that was seen before, or that leads nowhere. -/
lemma Level.pass (h : Level succ P frontier next seen₁ new next' seen')
    (hseen : ∀ u, seen₁ u ↔ seen u ∨ u = v) (hv : seen v ∨ (succ v = [] ∧ ¬ P v)) :
    Level succ P (v :: frontier) next seen new next' seen' where
  seen_iff u := by
    rw [h.seen_iff, hseen, List.mem_cons, or_assoc]
  new_iff u := by
    rw [h.new_iff, hseen, List.mem_cons]
    by_cases hu : u = v
    · subst hu
      rcases hv with hv | ⟨-, hv⟩ <;> simp [hv]
    · simp [hu]
  next_iff w := by
    rw [h.next_iff]
    refine or_congr_right ⟨?_, ?_⟩
    · rintro ⟨u, hu, hnot, hw⟩
      rw [hseen, not_or] at hnot
      exact ⟨u, List.mem_cons_of_mem v hu, hnot.1, hw⟩
    · rintro ⟨u, hu, hnot, hw⟩
      have hne : u ≠ v := by
        rintro rfl
        rcases hv with hv | ⟨hnil, -⟩
        · exact hnot hv
        · rw [hnil] at hw
          cases hw
      exact ⟨u, (List.mem_cons.mp hu).resolve_left hne,
        by rw [hseen, not_or]; exact ⟨hnot, hne⟩, hw⟩

/-- A vertex that is new. -/
lemma Level.take (h : Level succ P frontier (next ++ succ v) seen₁ new next' seen')
    (hseen : ∀ u, seen₁ u ↔ seen u ∨ u = v) (hv : ¬ seen v) (hP : P v) :
    Level succ P (v :: frontier) next seen (v :: new) next' seen' where
  seen_iff u := by
    rw [h.seen_iff, hseen, List.mem_cons, or_assoc]
  new_iff u := by
    rw [List.mem_cons, h.new_iff, hseen, List.mem_cons]
    by_cases hu : u = v
    · subst hu
      simp [hv, hP]
    · simp [hu]
  next_iff w := by
    rw [h.next_iff, List.mem_append, or_assoc]
    refine or_congr_right ⟨?_, ?_⟩
    · rintro (hw | ⟨u, hu, hnot, hw⟩)
      · exact ⟨v, List.mem_cons_self, hv, hw⟩
      · rw [hseen, not_or] at hnot
        exact ⟨u, List.mem_cons_of_mem v hu, hnot.1, hw⟩
    · rintro ⟨u, hu, hnot, hw⟩
      by_cases hne : u = v
      · exact .inl (hne ▸ hw)
      · exact .inr ⟨u, (List.mem_cons.mp hu).resolve_left hne,
          by rw [hseen, not_or]; exact ⟨hnot, hne⟩, hw⟩

lemma Border.level {n : ℕ} (h : Border succ roots n seen frontier)
    (hlevel : Level succ P frontier [] seen new next' seen') :
    Border succ roots (n + 1) seen' next' :=
  h.next hlevel.seen_iff fun w => by simp [hlevel.next_iff]

end Borders

/-! ## The order of the search -/

/-- The first occurrences of what has not been seen. -/
def fresh [DecidableEq V] (seen : List V) : List V → List V
  | [] => []
  | v :: vs => if v ∈ seen then fresh seen vs else v :: fresh (v :: seen) vs

/-- The vertices in the order in which `n` levels of a search expand them. -/
def levelOrder [DecidableEq V] (succ : V → List V) : ℕ → List V → List V → List V
  | 0, _, _ => []
  | n + 1, frontier, seen =>
    frontier ++ levelOrder succ n (fresh seen (frontier.flatMap succ))
      (fresh seen (frontier.flatMap succ) ++ seen)

/-- The edges that leave the vertices of a list, in order. -/
def edgesFrom (succ : V → List V) (vs : List V) : List (V × V) :=
  vs.flatMap fun v => (succ v).map fun w => (v, w)

section Order

variable {succ : V → List V} {roots : List V} {v w : V}

lemma mem_edgesFrom {vs : List V} {e : V × V} :
    e ∈ edgesFrom succ vs ↔ e.1 ∈ vs ∧ e.2 ∈ succ e.1 := by
  constructor
  · intro h
    obtain ⟨v, hv, he⟩ := List.mem_flatMap.mp h
    obtain ⟨w, hw, rfl⟩ := List.mem_map.mp he
    exact ⟨hv, hw⟩
  · rintro ⟨hv, hw⟩
    exact List.mem_flatMap.mpr ⟨e.1, hv, List.mem_map.mpr ⟨e.2, hw, rfl⟩⟩

lemma edgesFrom_append (vs ws : List V) :
    edgesFrom succ (vs ++ ws) = edgesFrom succ vs ++ edgesFrom succ ws := by
  rw [edgesFrom, List.flatMap_append]
  rfl

lemma map_snd_edgesFrom (vs : List V) : (edgesFrom succ vs).map Prod.snd = vs.flatMap succ := by
  induction vs with
  | nil => rfl
  | cons v vs ih =>
    rw [edgesFrom, List.flatMap_cons, List.map_append, List.flatMap_cons, ← ih, List.map_map]
    congr 1
    exact List.map_id _

variable [DecidableEq V]

lemma mem_fresh (vs : List V) : ∀ seen, v ∈ fresh seen vs ↔ v ∈ vs ∧ v ∉ seen := by
  induction vs with
  | nil =>
    intro seen
    simp [fresh]
  | cons w vs ih =>
    intro seen
    rw [fresh]
    by_cases hw : w ∈ seen
    · rw [if_pos hw, ih, List.mem_cons]
      constructor
      · rintro ⟨hv, hseen⟩
        exact ⟨.inr hv, hseen⟩
      · rintro ⟨rfl | hv, hseen⟩
        · exact absurd hw hseen
        · exact ⟨hv, hseen⟩
    · rw [if_neg hw, List.mem_cons, ih, List.mem_cons, List.mem_cons]
      by_cases hvw : v = w
      · simp [hvw, hw]
      · simp [hvw]

lemma fresh_nodup (vs : List V) : ∀ seen, (fresh seen vs).Nodup := by
  induction vs with
  | nil =>
    intro seen
    exact List.nodup_nil
  | cons w vs ih =>
    intro seen
    rw [fresh]
    split
    · exact ih seen
    · rw [List.nodup_cons]
      refine ⟨?_, ih _⟩
      intro hw
      exact ((mem_fresh vs _).mp hw).2 (by simp)

/-- Only what has been seen matters, not in which order. -/
lemma fresh_congr (vs : List V) : ∀ {seen seen' : List V}, (∀ v, v ∈ seen ↔ v ∈ seen') →
    fresh seen vs = fresh seen' vs := by
  induction vs with
  | nil =>
    intro seen seen' _
    rfl
  | cons w vs ih =>
    intro seen seen' h
    have hcons : ∀ v, v ∈ w :: seen ↔ v ∈ w :: seen' := by
      intro v
      rw [List.mem_cons, List.mem_cons, h]
    rw [fresh, fresh, ih h, ih hcons]
    simp only [h]

lemma fresh_append (vs ws : List V) : ∀ seen, fresh seen (vs ++ ws) =
    fresh seen vs ++ fresh ((fresh seen vs).reverse ++ seen) ws := by
  induction vs with
  | nil =>
    intro seen
    rfl
  | cons v vs ih =>
    intro seen
    rw [List.cons_append, fresh, fresh]
    split
    · exact ih seen
    · rw [ih, List.reverse_cons, List.append_assoc, List.singleton_append, List.cons_append]

/-- The next level of the search. -/
lemma Layer.fresh {n : ℕ} {frontier seen : List V}
    (h : Layer succ roots n (· ∈ seen) frontier) :
    Layer succ roots (n + 1) (· ∈ Graph.fresh seen (frontier.flatMap succ) ++ seen)
      (Graph.fresh seen (frontier.flatMap succ)) := by
  refine h.next ?_ ?_
  · intro v
    rw [List.mem_append, mem_fresh, List.mem_flatMap]
    by_cases hv : v ∈ seen
    · simp [hv]
    · simp [hv]
  · intro v
    rw [mem_fresh, List.mem_flatMap]
    exact and_comm

/-- The search expands exactly the layers that it comes to. -/
lemma mem_levelOrder (n : ℕ) : ∀ {m : ℕ} {frontier seen : List V},
    Layer succ roots m (· ∈ seen) frontier →
    (v ∈ levelOrder succ n frontier seen ↔ ∃ k, m ≤ k ∧ k < m + n ∧ AtDistance succ roots k v) := by
  induction n with
  | zero =>
    intro m frontier seen _
    simp [levelOrder]
    intro k hk hlt
    omega
  | succ n ih =>
    intro m frontier seen h
    rw [levelOrder, List.mem_append, ih h.fresh, h.mem_frontier_iff]
    constructor
    · rintro (hv | ⟨k, hk, hlt, hat⟩)
      · exact ⟨m, le_rfl, by omega, hv⟩
      · exact ⟨k, by omega, by omega, hat⟩
    · rintro ⟨k, hk, hlt, hat⟩
      rcases Nat.eq_or_lt_of_le hk with rfl | hk
      · exact .inl hat
      · exact .inr ⟨k, hk, by omega, hat⟩

lemma levelOrder_nodup (n : ℕ) : ∀ {m : ℕ} {frontier seen : List V},
    Layer succ roots m (· ∈ seen) frontier → frontier.Nodup →
    (levelOrder succ n frontier seen).Nodup := by
  induction n with
  | zero =>
    intro m frontier seen _ _
    exact List.nodup_nil
  | succ n ih =>
    intro m frontier seen h hnodup
    rw [levelOrder]
    refine List.Nodup.append hnodup (ih h.fresh (fresh_nodup _ _)) ?_
    intro v hv hlater
    -- what comes later is further away
    obtain ⟨k, hk, -, hat⟩ := (mem_levelOrder n h.fresh).mp hlater
    have := ((h.mem_frontier_iff v).mp hv).unique hat
    omega

/-- What lies within the levels of the search was seen before or is the target of an edge. -/
lemma within_iff_edges (n : ℕ) : ∀ {m : ℕ} {frontier seen : List V},
    Layer succ roots m (· ∈ seen) frontier →
    (Within succ roots (m + n) v ↔
      v ∈ seen ∨ v ∈ (edgesFrom succ (levelOrder succ n frontier seen)).map Prod.snd) := by
  induction n with
  | zero =>
    intro m frontier seen h
    simp [levelOrder, edgesFrom, h.seen_iff v]
  | succ n ih =>
    intro m frontier seen h
    rw [show m + (n + 1) = m + 1 + n by omega, ih h.fresh, levelOrder, edgesFrom_append,
      List.map_append, map_snd_edgesFrom frontier, List.mem_append, List.mem_append, mem_fresh]
    by_cases hv : v ∈ seen
    · simp [hv]
    · simp [hv]

/-- Every edge of the search leaves a vertex that was seen before, at first or as the target of an
earlier edge. -/
lemma levelOrder_leaves_seen (n : ℕ) : ∀ {frontier seen : List V}, frontier ⊆ seen →
    ∀ front e back, edgesFrom succ (levelOrder succ n frontier seen) = front ++ e :: back →
      e.1 ∈ seen ∨ e.1 ∈ front.map Prod.snd := by
  induction n with
  | zero =>
    intro frontier seen _ front e back hsplit
    simp [levelOrder, edgesFrom] at hsplit
  | succ n ih =>
    intro frontier seen hsub front e back hsplit
    rw [levelOrder, edgesFrom_append] at hsplit
    -- an edge of a later level leaves the next frontier, whose vertices are targets of this one
    have hlater : ∀ front', front = edgesFrom succ frontier ++ front' →
        edgesFrom succ (levelOrder succ n (fresh seen (frontier.flatMap succ))
          (fresh seen (frontier.flatMap succ) ++ seen)) = front' ++ e :: back →
        e.1 ∈ seen ∨ e.1 ∈ front.map Prod.snd := by
      intro front' hfront hsplit'
      rw [hfront, List.map_append, map_snd_edgesFrom, List.mem_append]
      rcases ih (List.subset_append_left _ _) front' e back hsplit' with h | h
      · rcases List.mem_append.mp h with h | h
        · exact .inr (.inl ((mem_fresh _ _).mp h).1)
        · exact .inl h
      · exact .inr (.inr h)
    rcases List.append_eq_append_iff.mp hsplit with ⟨rest, hfront, hrest⟩ | ⟨rest, hfront, hrest⟩
    · exact hlater rest hfront hrest
    · cases rest with
      | nil => exact hlater [] (by simpa using hfront.symm) (by simpa using hrest.symm)
      | cons d rest =>
        obtain ⟨rfl, -⟩ := List.cons.inj hrest
        have hmem : e ∈ edgesFrom succ frontier := by simp [hfront]
        exact .inl (hsub (mem_edgesFrom.mp hmem).1)

/-- The edges of a whole search leave what lies within fewer edges than it has levels. -/
lemma mem_levelOrder_start {n : ℕ} :
    v ∈ levelOrder succ n roots roots ↔ ∃ m < n, Within succ roots m v := by
  rw [mem_levelOrder n .start]
  constructor
  · rintro ⟨k, -, hk, hat⟩
    exact ⟨k, by omega, hat.1⟩
  · rintro ⟨m, hm, hwithin⟩
    obtain ⟨k, hk, hat⟩ := hwithin.exists_atDistance
    exact ⟨k, by omega, by omega, hat⟩

end Order

end ReverseMcp.Graph
