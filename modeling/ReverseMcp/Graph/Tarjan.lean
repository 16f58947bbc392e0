import ReverseMcp.Graph.Search

/-!
# Correctness of the search

Every round of the search keeps its invariant: entering a vertex (`Inv.enter`), looking at an edge
to a vertex that has been seen (`Inv.look`), and finishing a vertex that is not a root (`Inv.leave`)
or is one (`Inv.emit`).  Every round makes the work that is left smaller by one (`work_step`), and
when the call stack is empty, so is the stack (`Inv.stack_nil`).
-/

namespace ReverseMcp.Graph.Search

open Relation

variable {V : Type} [DecidableEq V] {succ : V → List V} {vs : List V} {s : Search V}

omit [DecidableEq V] in
lemma inv_new : Inv succ vs (new : Search V) where
  toStacks := by constructor <;> simp [new, Seen]
  toEdges := by constructor <;> simp [new, Seen]
  toLows := by constructor <;> simp [new]
  toOutput := by constructor <;> simp [new, Seen]

/-! ## Entering a vertex -/

section Enter

variable {w : V}

lemma seen_enter {v : V} : (s.enter w).Seen v ↔ v = w ∨ s.Seen v := by
  unfold Seen enter
  by_cases hv : v = w
  · simp [hv]
  · simp [hv]

lemma num_enter_self : (s.enter w).num w = s.next_index := by
  simp [num, enter]

lemma num_enter_of_seen (hw : ¬ s.Seen w) {v : V} (hv : s.Seen v) :
    (s.enter w).num v = s.num v := by
  have hne : v ≠ w := fun h => hw (h ▸ hv)
  simp [num, enter, hne]

lemma low_enter_of_seen (hw : ¬ s.Seen w) {v : V} (hv : s.Seen v) :
    (s.enter w).low v = s.low v := by
  have hne : v ≠ w := fun h => hw (h ▸ hv)
  simp [enter, hne]

end Enter

omit [DecidableEq V] in
/-- The cursor moves over the edge from `v` to `w`: no other edge is new. -/
lemma examined_cursor {v w x y : V} {ci : ℕ} {rest : List (V × ℕ)} (hw : (succ v)[ci]? = some w)
    (h : Examined succ ((v, ci + 1) :: rest) x y) :
    Examined succ ((v, ci) :: rest) x y ∨ (x = v ∧ y = w) := by
  by_cases hnew : x = v ∧ y = w
  · exact .inr hnew
  refine .inl ⟨h.1, fun cj hcj => ?_⟩
  rcases List.mem_cons.mp hcj with heq | hcj
  · obtain ⟨rfl, rfl⟩ := Prod.mk.inj heq
    have htake := h.2 (cj + 1) (by simp)
    rw [List.take_add_one, hw] at htake
    rcases List.mem_append.mp htake with htake | hlast
    · exact htake
    · exact absurd ⟨rfl, by simpa using hlast⟩ hnew
  · exact h.2 cj (by simp [hcj])

omit [DecidableEq V] in
/-- No edge of a vertex that has just been entered has been looked at. -/
lemma examined_entered {w x y : V} {call : List (V × ℕ)} (h : Examined succ ((w, 0) :: call) x y) :
    x ≠ w ∧ Examined succ call x y := by
  refine ⟨?_, h.1, fun ci hci => h.2 ci (by simp [hci])⟩
  rintro rfl
  have hnil := h.2 0 (by simp)
  simp at hnil

/-- A vertex is entered with the call stack `call`, which differs from the one of the search only in
edges to the new vertex that have been looked at. -/
structure Enters (succ : V → List V) (vs : List V) (s : Search V) (w : V) (call : List (V × ℕ)) :
    Prop where
  unseen : ¬ s.Seen w
  mem : w ∈ vs
  same : call.map Prod.fst = s.call.map Prod.fst
  examined : ∀ x y, Examined succ call x y → Examined succ s.call x y ∨ y = w
  reach : ∀ p ∈ call, Reach succ p.1 w

namespace Enters

variable {w : V} {call : List (V × ℕ)}

omit [DecidableEq V] in
lemma old (he : Enters succ vs s w call) {p : V × ℕ} (hp : p ∈ call) : ∃ q ∈ s.call, q.1 = p.1 := by
  have hp1 : p.1 ∈ s.call.map Prod.fst := he.same ▸ List.mem_map.mpr ⟨p, hp, rfl⟩
  exact List.mem_map.mp hp1

omit [DecidableEq V] in
lemma seen_of_call (he : Enters succ vs s w call) (h : Stacks vs s) {p : V × ℕ} (hp : p ∈ call) :
    s.Seen p.1 := by
  obtain ⟨q, hq, heq⟩ := he.old hp
  exact heq ▸ h.stack_seen _ (h.call_stack q hq)

lemma num_eq (he : Enters succ vs s w call) {v : V} (hv : s.Seen v) :
    (enter { s with call } w).num v = s.num v :=
  num_enter_of_seen (s := { s with call }) he.unseen hv

lemma low_eq (he : Enters succ vs s w call) {v : V} (hv : s.Seen v) :
    (enter { s with call } w).low v = s.low v :=
  low_enter_of_seen (s := { s with call }) he.unseen hv

lemma num_self (s : Search V) (w : V) (call : List (V × ℕ)) :
    (enter { s with call } w).num w = s.next_index := num_enter_self

lemma enter_stacks (he : Enters succ vs s w call) (h : Stacks vs s) :
    Stacks vs (enter { s with call } w) where
  seen_mem := by
    intro v hv
    rcases seen_enter.mp hv with rfl | hv'
    · exact he.mem
    · exact h.seen_mem v hv'
  seen_lt := by
    intro v hv
    show _ < s.next_index + 1
    rcases seen_enter.mp hv with rfl | hv'
    · rw [num_self]
      omega
    · have hlt := h.seen_lt v hv'
      rw [he.num_eq hv']
      omega
  num_inj := by
    intro v u hv hu heq
    -- the number of `w` is above all that were given
    rcases seen_enter.mp hv with rfl | hv' <;> rcases seen_enter.mp hu with rfl | hu'
    · rfl
    · have hlt := h.seen_lt u hu'
      rw [num_self, he.num_eq hu'] at heq
      omega
    · have hlt := h.seen_lt v hv'
      rw [num_self, he.num_eq hv'] at heq
      omega
    · rw [he.num_eq hv', he.num_eq hu'] at heq
      exact h.num_inj v u hv' hu' heq
  stack_seen := by
    intro v hv
    rcases List.mem_cons.mp hv with rfl | hv'
    · exact seen_enter.mpr (.inl rfl)
    · exact seen_enter.mpr (.inr (h.stack_seen v hv'))
  stack_sorted := by
    refine List.pairwise_cons.mpr ⟨fun v hv => ?_, h.stack_sorted.imp_of_mem ?_⟩
    · -- `w` is on top and has the highest number; the others keep theirs
      rw [num_self, he.num_eq (h.stack_seen v hv)]
      exact h.seen_lt v (h.stack_seen v hv)
    · intro a b ha hb hab
      rwa [he.num_eq (h.stack_seen a ha), he.num_eq (h.stack_seen b hb)]
  on_stack_iff := by
    intro v
    show Function.update s.on_stack w true v = true ↔ v ∈ w :: s.stack
    by_cases hv : v = w
    · simp [hv]
    · simp [hv, h.on_stack_iff v]
  call_stack := by
    intro p hp
    rcases List.mem_cons.mp hp with rfl | hp'
    · exact List.mem_cons_self
    · obtain ⟨q, hq, heq⟩ := he.old hp'
      exact List.mem_cons_of_mem _ (heq ▸ h.call_stack q hq)
  call_sorted := by
    refine List.pairwise_cons.mpr ⟨fun p hp => ?_, ?_⟩
    · show _ < (enter { s with call } w).num w
      rw [num_self, he.num_eq (he.seen_of_call h hp)]
      exact h.seen_lt _ (he.seen_of_call h hp)
    · have hsorted : (call.map Prod.fst).Pairwise fun v u => s.num u < s.num v := by
        rw [he.same]
        exact List.pairwise_map.mpr h.call_sorted
      refine (List.pairwise_map.mp hsorted).imp_of_mem ?_
      intro p q hp hq hpq
      rwa [he.num_eq (he.seen_of_call h hp), he.num_eq (he.seen_of_call h hq)]

lemma enter_edges (he : Enters succ vs s w call) (h : Edges succ s) :
    Edges succ (enter { s with call } w) where
  examined := by
    intro v u hv hvu
    obtain ⟨hne, hvu⟩ := examined_entered hvu
    have hv' : s.Seen v := (seen_enter.mp hv).resolve_left hne
    rcases he.examined v u hvu with hold | rfl
    · exact seen_enter.mpr (.inr (h.examined v u hv' hold))
    · exact seen_enter.mpr (.inl rfl)
  done_closed := by
    intro v u hv hnot hedge
    have hne : v ≠ w := fun heq => hnot (heq ▸ List.mem_cons_self)
    have hv' : s.Seen v := (seen_enter.mp hv).resolve_left hne
    have hnot' : v ∉ s.stack := fun hin => hnot (List.mem_cons_of_mem _ hin)
    obtain ⟨hu, hunot⟩ := h.done_closed v u hv' hnot' hedge
    refine ⟨seen_enter.mpr (.inr hu), fun hin => ?_⟩
    rcases List.mem_cons.mp hin with rfl | hin'
    · exact he.unseen hu
    · exact hunot hin'

lemma enter_lows (he : Enters succ vs s w call) (hs : Stacks vs s) (h : Lows succ s) :
    Lows succ (enter { s with call } w) where
  low_le := by
    intro v hv
    rcases List.mem_cons.mp hv with rfl | hv'
    · rw [num_self]
      simp [enter]
    · rw [he.low_eq (hs.stack_seen v hv'), he.num_eq (hs.stack_seen v hv')]
      exact h.low_le v hv'
  low_reach := by
    intro v hv
    rcases List.mem_cons.mp hv with rfl | hv'
    · exact ⟨v, List.mem_cons_self, by rw [num_self]; simp [enter], .refl⟩
    · obtain ⟨u, hu, hnum, hvu⟩ := h.low_reach v hv'
      refine ⟨u, List.mem_cons_of_mem _ hu, ?_, hvu⟩
      rw [he.num_eq (hs.stack_seen u hu), he.low_eq (hs.stack_seen v hv'), hnum]
  low_lt := by
    intro v hv hnot
    have hne : v ≠ w := fun heq => hnot (by rw [heq]; exact List.mem_cons_self)
    have hv' : v ∈ s.stack := (List.mem_cons.mp hv).resolve_left hne
    rw [he.low_eq (hs.stack_seen v hv'), he.num_eq (hs.stack_seen v hv')]
    refine h.low_lt v hv' fun hin => hnot ?_
    rw [← he.same] at hin
    exact List.mem_cons_of_mem _ hin
  reaches := by
    intro p hp x hx hle
    rcases List.mem_cons.mp hp with rfl | hp'
    · rcases List.mem_cons.mp hx with rfl | hx'
      · exact .refl
      · have hlt := hs.seen_lt x (hs.stack_seen x hx')
        rw [num_self, he.num_eq (hs.stack_seen x hx')] at hle
        omega
    · rcases List.mem_cons.mp hx with rfl | hx'
      · exact he.reach p hp'
      · obtain ⟨q, hq, heq⟩ := he.old hp'
        rw [he.num_eq (he.seen_of_call hs hp'), he.num_eq (hs.stack_seen x hx'), ← heq] at hle
        rw [← heq]
        exact h.reaches q hq x hx' hle
  covers := by
    intro upper v rest hcall x hx hle u hu hxu
    obtain ⟨hne, hxu⟩ := examined_entered hxu
    have hx' : x ∈ s.stack := (List.mem_cons.mp hx).resolve_left hne
    have hcall' : w :: call.map Prod.fst = upper ++ v :: rest := hcall
    cases upper with
    | nil =>
      -- nothing but the new vertex itself is above it
      obtain ⟨rfl, -⟩ := List.cons.inj hcall'
      have hlt := hs.seen_lt x (hs.stack_seen x hx')
      rw [num_self, he.num_eq (hs.stack_seen x hx')] at hle
      omega
    | cons p upper =>
      obtain ⟨rfl, htail⟩ := List.cons.inj hcall'
      have hbefore : s.call.map Prod.fst = upper ++ v :: rest := he.same.symm.trans htail
      rcases List.mem_cons.mp hu with rfl | hu'
      · exact ⟨u, by simp, by rw [num_self]; simp [enter]⟩
      rcases he.examined x u hxu with hold | rfl
      · have hseen : ∀ q ∈ v :: upper, s.Seen q := by
          intro q hq
          refine hs.seen_of_mem_call ?_
          rw [hbefore]
          simp only [List.mem_append, List.mem_cons] at hq ⊢
          tauto
        rw [he.num_eq (hseen v (by simp)), he.num_eq (hs.stack_seen x hx')] at hle
        obtain ⟨q, hq, hlow⟩ := h.covers upper v rest hbefore x hx' hle u hu' hold
        refine ⟨q, by simp only [List.mem_cons] at hq ⊢; tauto, ?_⟩
        rw [he.low_eq (hseen q hq), he.num_eq (hs.stack_seen u hu')]
        exact hlow
      · exact absurd (hs.stack_seen u hu') he.unseen

lemma enter_output (he : Enters succ vs s w call) (h : Output succ s) :
    Output succ (enter { s with call } w) where
  mem_out := by
    intro v
    show v ∈ s.out.flatten ↔ _ ∧ v ∉ w :: s.stack
    rw [h.mem_out v, seen_enter]
    constructor
    · rintro ⟨hv, hnot⟩
      have hne : v ≠ w := fun heq => he.unseen (heq ▸ hv)
      exact ⟨.inr hv, by simp [hne, hnot]⟩
    · rintro ⟨hv, hnot⟩
      rw [List.mem_cons, not_or] at hnot
      exact ⟨hv.resolve_left hnot.1, hnot.2⟩
  out_nodup := h.out_nodup
  out_ne_nil := h.out_ne_nil
  out_scc := h.out_scc

end Enters

lemma Inv.enter (h : Inv succ vs s) {w : V} {call : List (V × ℕ)} (he : Enters succ vs s w call) :
    Inv succ vs (Search.enter { s with call } w) where
  toStacks := he.enter_stacks h.toStacks
  toEdges := he.enter_edges h.toEdges
  toLows := he.enter_lows h.toStacks h.toLows
  toOutput := he.enter_output h.toOutput

/-! ## Looking at an edge -/

section Look

variable {v w : V} {ci : ℕ} {rest : List (V × ℕ)}

/-- An edge to a vertex that has not been seen. -/
lemma Inv.lookAt_unseen (h : Inv succ vs s) (hcall : s.call = (v, ci) :: rest)
    (hw : (succ v)[ci]? = some w) (hunseen : ¬ s.Seen w) (hmem : w ∈ vs) :
    Inv succ vs (Search.enter { s with call := (v, ci + 1) :: rest } w) := by
  have hedge : Edge succ v w := List.mem_of_getElem? hw
  have hv : v ∈ s.stack := h.call_stack (v, ci) (by rw [hcall]; simp)
  refine h.enter ⟨hunseen, hmem, by rw [hcall]; rfl, fun x y hxy => ?_, fun p hp => ?_⟩
  · rw [hcall]
    exact (examined_cursor hw hxy).imp_right And.right
  · -- the callers reach the top of the call stack, and from there it is one edge
    refine ReflTransGen.tail ?_ hedge
    rcases List.mem_cons.mp hp with rfl | hp'
    · exact .refl
    · have hsorted := h.call_sorted
      rw [hcall, List.pairwise_cons] at hsorted
      exact h.reaches p (by rw [hcall]; simp [hp']) v hv (hsorted.1 p hp').le

/-- An edge to a vertex that has been seen: only the low number of the top of the call stack
changes, and not below what it reaches. -/
lemma Inv.lookAt_seen (h : Inv succ vs s) (hcall : s.call = (v, ci) :: rest)
    (hw : (succ v)[ci]? = some w) (hseen : s.Seen w) {low : V → ℕ}
    (hlow : (w ∉ s.stack ∧ low = s.low) ∨
      (w ∈ s.stack ∧ low = Function.update s.low v (min (s.low v) (s.num w)))) :
    Inv succ vs { s with call := (v, ci + 1) :: rest, low } := by
  have hedge : Edge succ v w := List.mem_of_getElem? hw
  have hsame : ((v, ci + 1) :: rest).map Prod.fst = s.call.map Prod.fst := by rw [hcall]; rfl
  have hold : ∀ p ∈ (v, ci + 1) :: rest, ∃ q ∈ s.call, q.1 = p.1 := by
    intro p hp
    have hp1 : p.1 ∈ s.call.map Prod.fst := hsame ▸ List.mem_map.mpr ⟨p, hp, rfl⟩
    exact List.mem_map.mp hp1
  have hex : ∀ x y, Examined succ ((v, ci + 1) :: rest) x y →
      Examined succ s.call x y ∨ (x = v ∧ y = w) := by
    intro x y hxy
    rw [hcall]
    exact examined_cursor hw hxy
  have hle : ∀ x, low x ≤ s.low x := by
    intro x
    rcases hlow with ⟨-, rfl⟩ | ⟨-, rfl⟩
    · exact le_rfl
    · by_cases hx : x = v
      · subst hx
        simp
      · simp [hx]
  refine ⟨⟨h.seen_mem, h.seen_lt, h.num_inj, h.stack_seen, h.stack_sorted, h.on_stack_iff, ?_, ?_⟩,
    ⟨?_, h.done_closed⟩, ⟨fun x hx => (hle x).trans (h.low_le x hx), ?_, ?_, ?_, ?_⟩,
    ⟨h.mem_out, h.out_nodup, h.out_ne_nil, h.out_scc⟩⟩
  · intro p hp
    obtain ⟨q, hq, heq⟩ := hold p hp
    exact heq ▸ h.call_stack q hq
  · have hsorted := h.call_sorted
    rw [hcall, List.pairwise_cons] at hsorted
    exact List.pairwise_cons.mpr hsorted
  · intro x y hx hxy
    rcases hex x y hxy with hxy | ⟨-, rfl⟩
    · exact h.examined x y hx hxy
    · exact hseen
  · intro x hx
    rcases hlow with ⟨-, rfl⟩ | ⟨hws, rfl⟩
    · exact h.low_reach x hx
    · by_cases hxv : x = v
      · subst hxv
        simp only [Function.update_self]
        rcases min_choice (s.low x) (s.num w) with hmin | hmin
        · rw [hmin]
          exact h.low_reach x hx
        · rw [hmin]
          exact ⟨w, hws, rfl, .single hedge⟩
      · simp only [Function.update_of_ne hxv]
        exact h.low_reach x hx
  · intro x hx hnot
    have hnot' : x ∉ s.call.map Prod.fst := by rw [← hsame]; exact hnot
    exact (hle x).trans_lt (h.low_lt x hx hnot')
  · intro p hp x hx hpx
    obtain ⟨q, hq, heq⟩ := hold p hp
    rw [← heq]
    exact h.reaches q hq x hx (by rw [heq]; exact hpx)
  · intro upper u rest' hsplit x hx hux y hy hxy
    have hsplit' : s.call.map Prod.fst = upper ++ u :: rest' := hsame.symm.trans hsplit
    rcases hex x y hxy with hxy | ⟨rfl, rfl⟩
    · obtain ⟨q, hq, hqy⟩ := h.covers upper u rest' hsplit' x hx hux y hy hxy
      exact ⟨q, hq, (hle q).trans hqy⟩
    · -- the new edge is covered by the top of the call stack itself
      have hlowx : low x ≤ s.num y := by
        rcases hlow with ⟨hnot, -⟩ | ⟨-, rfl⟩
        · exact absurd hy hnot
        · simp
      refine ⟨x, ?_, hlowx⟩
      rw [hcall] at hsplit'
      cases upper with
      | nil =>
        obtain ⟨rfl, -⟩ := List.cons.inj hsplit'
        simp
      | cons z upper =>
        obtain ⟨rfl, -⟩ := List.cons.inj hsplit'
        simp

/-- Looking at an edge keeps the invariant. -/
lemma Inv.lookAt (h : Inv succ vs s) (hcall : s.call = (v, ci) :: rest)
    (hw : (succ v)[ci]? = some w) (hmem : w ∈ vs) :
    Inv succ vs (Search.lookAt { s with call := (v, ci + 1) :: rest } v w) := by
  rw [Search.lookAt]
  split
  · rename_i hnone
    have hnone' : s.index w = none := hnone
    exact h.lookAt_unseen hcall hw (by simp [Seen, hnone']) hmem
  · rename_i i hi
    have hi' : s.index w = some i := hi
    have hseen : s.Seen w := by simp [Seen, hi']
    have hnum : s.num w = i := by simp [num, hi']
    split
    · rename_i hon
      have hws : w ∈ s.stack := (h.on_stack_iff w).mp hon
      exact h.lookAt_seen hcall hw hseen (.inr ⟨hws, by rw [hnum]⟩)
    · rename_i hon
      have hws : w ∉ s.stack := fun hin => hon ((h.on_stack_iff w).mpr hin)
      exact h.lookAt_seen hcall hw hseen (.inl ⟨hws, rfl⟩)

end Look

/-! ## Finishing a vertex -/

/-- The search is about to finish `v`: it has looked at all its successors. -/
structure Finishes (succ : V → List V) (vs : List V) (s : Search V) (v : V) (ci : ℕ)
    (rest : List (V × ℕ)) : Prop where
  inv : Inv succ vs s
  call_eq : s.call = (v, ci) :: rest
  at_end : (succ v)[ci]? = none

namespace Finishes

variable {v : V} {ci : ℕ} {rest : List (V × ℕ)}

omit [DecidableEq V] in
lemma mem_call (f : Finishes succ vs s v ci rest) : (v, ci) ∈ s.call := by
  rw [f.call_eq]
  simp

omit [DecidableEq V] in
lemma mem_stack (f : Finishes succ vs s v ci rest) : v ∈ s.stack :=
  f.inv.call_stack _ f.mem_call

omit [DecidableEq V] in
/-- The callers were entered before. -/
lemma rest_lt (f : Finishes succ vs s v ci rest) {p : V × ℕ} (hp : p ∈ rest) :
    s.num p.1 < s.num v := by
  have hsorted := f.inv.call_sorted
  rw [f.call_eq, List.pairwise_cons] at hsorted
  exact hsorted.1 p hp

omit [DecidableEq V] in
/-- What lies above on the stack is not being visited any more. -/
lemma not_mem_call (f : Finishes succ vs s v ci rest) {x : V} (hle : s.num v ≤ s.num x)
    (hne : x ≠ v) : x ∉ s.call.map Prod.fst := by
  rw [f.call_eq, List.map_cons, List.mem_cons, not_or]
  refine ⟨hne, fun hin => ?_⟩
  obtain ⟨p, hp, rfl⟩ := List.mem_map.mp hin
  have hlt := f.rest_lt hp
  omega

omit [DecidableEq V] in
/-- All edges from the vertex and from above it have been looked at. -/
lemma examined (f : Finishes succ vs s v ci rest) {x y : V} (hle : s.num v ≤ s.num x)
    (hedge : y ∈ succ x) : Examined succ s.call x y := by
  refine ⟨hedge, fun cj hcj => ?_⟩
  by_cases hne : x = v
  · subst hne
    rw [f.call_eq] at hcj
    rcases List.mem_cons.mp hcj with heq | hcj'
    · obtain ⟨-, rfl⟩ := Prod.mk.inj heq
      rwa [List.take_of_length_le (List.getElem?_eq_none_iff.mp f.at_end)]
    · exact absurd (f.rest_lt hcj') (lt_irrefl _)
  · exact absurd (List.mem_map.mpr ⟨_, hcj, rfl⟩) (f.not_mem_call hle hne)

omit [DecidableEq V] in
/-- With the vertex off the call stack, no other edge counts as looked at. -/
lemma examined_of_rest (f : Finishes succ vs s v ci rest) {x y : V}
    (h : Examined succ rest x y) : Examined succ s.call x y := by
  by_cases hne : x = v
  · subst hne
    exact f.examined le_rfl h.1
  · refine ⟨h.1, fun cj hcj => h.2 cj ?_⟩
    rw [f.call_eq] at hcj
    rcases List.mem_cons.mp hcj with heq | hcj'
    · exact absurd (Prod.mk.inj heq).1 hne
    · exact hcj'

end Finishes

/-- The low numbers behind `propagate`: the caller's is at most that of the finished vertex. -/
structure Passes (s : Search V) (v : V) (rest : List (V × ℕ)) (low : V → ℕ) : Prop where
  le : ∀ x, low x ≤ s.low x
  caller : ∀ p ∈ rest.head?, low p.1 ≤ s.low v
  changed : ∀ x, low x ≠ s.low x → low x = s.low v ∧ ∃ p ∈ rest.head?, p.1 = x

lemma propagate_passes (s : Search V) (v : V) (rest : List (V × ℕ)) :
    ∃ low, propagate { s with call := rest } v = { s with call := rest, low } ∧
      Passes s v rest low := by
  rw [propagate]
  cases rest with
  | nil => exact ⟨s.low, rfl, fun x => le_rfl, by simp, fun x hx => absurd rfl hx⟩
  | cons p rest =>
    refine ⟨Function.update s.low p.1 (min (s.low p.1) (s.low v)), rfl, fun x => ?_, ?_, ?_⟩
    · by_cases hx : x = p.1
      · subst hx
        simp
      · simp [hx]
    · intro q hq
      obtain rfl : p = q := by simpa using hq
      simp
    · intro x hx
      by_cases hxp : x = p.1
      · subst hxp
        simp only [Function.update_self] at hx ⊢
        refine ⟨?_, p, by simp, rfl⟩
        rcases min_choice (s.low p.1) (s.low v) with hmin | hmin
        · exact absurd hmin hx
        · exact hmin
      · exact absurd (Function.update_of_ne hxp _ _) hx

namespace Finishes

variable {v : V} {ci : ℕ} {rest : List (V × ℕ)} {low : V → ℕ}

omit [DecidableEq V] in
/-- Behind the finished vertex, edges are covered by the callers or by the vertex itself. -/
lemma covers (f : Finishes succ vs s v ci rest) (hp : Passes s v rest low) {upper rest' : List V}
    {u x w : V} (hsplit : rest.map Prod.fst = upper ++ u :: rest') (hx : x ∈ s.stack)
    (hle : s.num u ≤ s.num x) (hw : w ∈ s.stack) (hxw : Examined succ rest x w) :
    ∃ q ∈ u :: upper, low q ≤ s.num w := by
  have hsplit' : s.call.map Prod.fst = (v :: upper) ++ u :: rest' := by
    rw [f.call_eq, List.map_cons, hsplit, List.cons_append]
  obtain ⟨q, hq, hlow⟩ := f.inv.covers (v :: upper) u rest' hsplit' x hx hle w hw
    (f.examined_of_rest hxw)
  have hq' : q = v ∨ q ∈ u :: upper := by
    simp only [List.mem_cons] at hq ⊢
    tauto
  rcases hq' with rfl | hq'
  · -- the caller has taken over the low number of the vertex
    cases hrest : rest with
    | nil =>
      rw [hrest] at hsplit
      simp at hsplit
    | cons p rest₀ =>
      refine ⟨p.1, ?_, (hp.caller p (by simp [hrest])).trans hlow⟩
      rw [hrest, List.map_cons] at hsplit
      cases upper with
      | nil =>
        obtain ⟨heq, -⟩ := List.cons.inj hsplit
        simp [heq]
      | cons z upper =>
        obtain ⟨heq, -⟩ := List.cons.inj hsplit
        simp [heq]
  · exact ⟨q, hq', (hp.le q).trans hlow⟩

omit [DecidableEq V] in
/-- The low numbers that are passed on stand for vertices that are reached. -/
lemma low_reach (f : Finishes succ vs s v ci rest) (hp : Passes s v rest low) {x : V}
    (hx : x ∈ s.stack) : ∃ w ∈ s.stack, s.num w = low x ∧ Reach succ x w := by
  by_cases hsame : low x = s.low x
  · rw [hsame]
    exact f.inv.low_reach x hx
  · obtain ⟨hlow, p, hhead, rfl⟩ := hp.changed x hsame
    have hmem : p ∈ rest := List.mem_of_mem_head? hhead
    obtain ⟨w, hw, hnum, hvw⟩ := f.inv.low_reach v f.mem_stack
    refine ⟨w, hw, hnum.trans hlow.symm, ReflTransGen.trans ?_ hvw⟩
    exact f.inv.reaches p (by rw [f.call_eq]; simp [hmem]) v f.mem_stack (f.rest_lt hmem).le

omit [DecidableEq V] in
lemma rest_stack (f : Finishes succ vs s v ci rest) {p : V × ℕ} (hp : p ∈ rest) : p ∈ s.call := by
  rw [f.call_eq]
  exact List.mem_cons_of_mem _ hp

omit [DecidableEq V] in
lemma rest_sorted (f : Finishes succ vs s v ci rest) :
    rest.Pairwise fun p q => s.num q.1 < s.num p.1 := by
  have hsorted := f.inv.call_sorted
  rw [f.call_eq, List.pairwise_cons] at hsorted
  exact hsorted.2

omit [DecidableEq V] in
/-- Finishing a vertex that is not a root: it stays on the stack. -/
lemma leave (f : Finishes succ vs s v ci rest) (hp : Passes s v rest low)
    (hroot : s.low v ≠ s.num v) : Inv succ vs { s with call := rest, low } where
  toStacks := ⟨f.inv.seen_mem, f.inv.seen_lt, f.inv.num_inj, f.inv.stack_seen, f.inv.stack_sorted,
    f.inv.on_stack_iff, fun p hmem => f.inv.call_stack p (f.rest_stack hmem), f.rest_sorted⟩
  toEdges := ⟨fun x y hx hxy => f.inv.examined x y hx (f.examined_of_rest hxy), f.inv.done_closed⟩
  toLows := by
    refine ⟨fun x hx => (hp.le x).trans (f.inv.low_le x hx), fun x hx => f.low_reach hp hx, ?_,
      fun p hmem => f.inv.reaches p (f.rest_stack hmem),
      fun upper u rest' hsplit x hx hle w hw hxw => f.covers hp hsplit hx hle hw hxw⟩
    intro x hx hnot
    by_cases hxv : x = v
    · subst hxv
      exact ((hp.le x).trans (f.inv.low_le x hx)).lt_of_ne fun heq => hroot (by
        have hge := hp.le x
        have hle := f.inv.low_le x hx
        have heq' : low x = s.num x := heq
        omega)
    · refine (hp.le x).trans_lt (f.inv.low_lt x hx ?_)
      rw [f.call_eq, List.map_cons, List.mem_cons, not_or]
      exact ⟨hxv, hnot⟩
  toOutput := ⟨f.inv.mem_out, f.inv.out_nodup, f.inv.out_ne_nil, f.inv.out_scc⟩

/-! ### Roots -/

omit [DecidableEq V] in
/-- From above a root, edges lead to above the root or to done vertices. -/
lemma closed (f : Finishes succ vs s v ci rest) (hroot : s.low v = s.num v) {x y : V}
    (hx : x ∈ s.stack) (hle : s.num v ≤ s.num x) (hedge : y ∈ succ x) :
    (y ∈ s.stack ∧ s.num v ≤ s.num y) ∨ (s.Seen y ∧ y ∉ s.stack) := by
  have hex := f.examined hle hedge
  have hseen := f.inv.examined x y (f.inv.stack_seen x hx) hex
  by_cases hy : y ∈ s.stack
  · have hsplit : s.call.map Prod.fst = [] ++ v :: rest.map Prod.fst := by
      rw [f.call_eq, List.map_cons, List.nil_append]
    obtain ⟨q, hq, hlow⟩ := f.inv.covers [] v _ hsplit x hx hle y hy hex
    obtain rfl : q = v := by simpa using hq
    exact .inl ⟨hy, hroot ▸ hlow⟩
  · exact .inr ⟨hseen, hy⟩

omit [DecidableEq V] in
/-- From above a root, paths lead to above the root or to done vertices. -/
lemma closed_reach (f : Finishes succ vs s v ci rest) (hroot : s.low v = s.num v) {x y : V}
    (hx : x ∈ s.stack) (hle : s.num v ≤ s.num x) (hreach : Reach succ x y) :
    (y ∈ s.stack ∧ s.num v ≤ s.num y) ∨ (s.Seen y ∧ y ∉ s.stack) := by
  induction hreach with
  | refl => exact .inl ⟨hx, hle⟩
  | tail _ hedge ih =>
    rcases ih with ⟨hz, hzle⟩ | ⟨hz, hznot⟩
    · exact f.closed hroot hz hzle hedge
    · exact .inr (f.inv.done_closed _ _ hz hznot hedge)

omit [DecidableEq V] in
/-- What lies above a root reaches it: the low number leads to an earlier vertex above the root. -/
lemma reach_root (f : Finishes succ vs s v ci rest) (hroot : s.low v = s.num v) :
    ∀ n x, s.num x = n → x ∈ s.stack → s.num v ≤ s.num x → Reach succ x v := by
  intro n
  induction n using Nat.strong_induction_on with
  | _ n ih =>
    intro x hn hx hle
    by_cases hxv : x = v
    · rw [hxv]
      exact .refl
    · have hlt := f.inv.low_lt x hx (f.not_mem_call hle hxv)
      obtain ⟨w, hw, hnum, hxw⟩ := f.inv.low_reach x hx
      rcases f.closed_reach hroot hx hle hxw with ⟨-, hwle⟩ | ⟨-, hnot⟩
      · exact ReflTransGen.trans hxw (ih (s.num w) (by omega) w rfl hw hwle)
      · exact absurd hw hnot

omit [DecidableEq V] in
/-- Only done vertices are reached from done vertices. -/
lemma done_reach (h : Edges succ s) {x y : V} (hx : s.Seen x ∧ x ∉ s.stack)
    (hreach : Reach succ x y) : s.Seen y ∧ y ∉ s.stack := by
  induction hreach with
  | refl => exact hx
  | tail _ hedge ih => exact h.done_closed _ _ ih.1 ih.2 hedge

omit [DecidableEq V] in
/-- What lies above a root is its component. -/
lemma scc (f : Finishes succ vs s v ci rest) (hroot : s.low v = s.num v) {x : V} (hx : x ∈ s.stack)
    (hle : s.num v ≤ s.num x) (y : V) :
    (y ∈ s.stack ∧ s.num v ≤ s.num y) ↔ SameScc succ x y := by
  constructor
  · rintro ⟨hy, hyle⟩
    have hdown := f.inv.reaches (v, ci) f.mem_call
    exact ⟨ReflTransGen.trans (f.reach_root hroot _ x rfl hx hle) (hdown y hy hyle),
      ReflTransGen.trans (f.reach_root hroot _ y rfl hy hyle) (hdown x hx hle)⟩
  · rintro ⟨hxy, hyx⟩
    rcases f.closed_reach hroot hx hle hxy with habove | hdone
    · exact habove
    · exact absurd hx (done_reach f.inv.toEdges hdone hyx).2

end Finishes

/-- Popping up to `v` splits the stack. -/
lemma popTo_append (v : V) (st : List V) : (popTo v st).1 ++ (popTo v st).2 = st := by
  induction st with
  | nil => rfl
  | cons w st ih =>
    rw [popTo]
    split
    · rfl
    · simp [ih]

/-- What is popped off a sorted stack is what lies above. -/
lemma mem_popTo {v : V} {st : List V} {num : V → ℕ} (hv : v ∈ st)
    (hsorted : st.Pairwise fun a b => num b < num a) {x : V} (hx : x ∈ st) :
    x ∈ (popTo v st).1 ↔ num v ≤ num x := by
  induction st with
  | nil => cases hv
  | cons w st ih =>
    rw [List.pairwise_cons] at hsorted
    rw [popTo]
    split
    · rename_i hwv
      -- `v` is on top: it is all that is popped, and the rest has lower numbers
      subst hwv
      simp only [List.mem_singleton]
      constructor
      · rintro rfl
        exact le_rfl
      · intro hle
        rcases List.mem_cons.mp hx with rfl | hx'
        · rfl
        · exact absurd (hsorted.1 x hx') (not_lt.mpr hle)
    · rename_i hwv
      have hv' : v ∈ st := (List.mem_cons.mp hv).resolve_left (Ne.symm hwv)
      simp only [List.mem_cons]
      by_cases hxw : x = w
      · subst hxw
        exact ⟨fun _ => (hsorted.1 v hv').le, fun _ => .inl rfl⟩
      · have hx' : x ∈ st := (List.mem_cons.mp hx).resolve_left hxw
        rw [← ih hv' hsorted.2 hx']
        simp [hxw]

namespace Finishes

variable {v : V} {ci : ℕ} {rest : List (V × ℕ)} {low : V → ℕ}

omit [DecidableEq V] in
lemma stack_nodup (h : Stacks vs s) : s.stack.Nodup :=
  h.stack_sorted.imp fun hlt heq => by
    rw [heq] at hlt
    exact lt_irrefl _ hlt

lemma mem_popped (f : Finishes succ vs s v ci rest) (x : V) :
    x ∈ (popTo v s.stack).1 ↔ x ∈ s.stack ∧ s.num v ≤ s.num x := by
  constructor
  · intro hx
    have hmem : x ∈ s.stack := by
      rw [← popTo_append v s.stack]
      exact List.mem_append_left _ hx
    exact ⟨hmem, (mem_popTo f.mem_stack f.inv.stack_sorted hmem).mp hx⟩
  · rintro ⟨hx, hle⟩
    exact (mem_popTo f.mem_stack f.inv.stack_sorted hx).mpr hle

lemma mem_left (f : Finishes succ vs s v ci rest) (x : V) :
    x ∈ (popTo v s.stack).2 ↔ x ∈ s.stack ∧ s.num x < s.num v := by
  have hnodup := stack_nodup f.inv.toStacks
  rw [← popTo_append v s.stack] at hnodup
  constructor
  · intro hx
    have hmem : x ∈ s.stack := by
      rw [← popTo_append v s.stack]
      exact List.mem_append_right _ hx
    refine ⟨hmem, not_le.mp fun hle => ?_⟩
    exact (List.nodup_append.mp hnodup).2.2 x ((f.mem_popped x).mpr ⟨hmem, hle⟩) x hx rfl
  · rintro ⟨hx, hlt⟩
    rw [← popTo_append v s.stack] at hx
    rcases List.mem_append.mp hx with hx' | hx'
    · exact absurd ((f.mem_popped x).mp hx').2 (not_le.mpr hlt)
    · exact hx'

lemma left_sublist (s : Search V) (v : V) : (popTo v s.stack).2.Sublist s.stack := by
  conv_rhs => rw [← popTo_append v s.stack]
  exact List.sublist_append_right _ _

/-- The state behind the component of `v`. -/
def emitted (s : Search V) (v : V) (rest : List (V × ℕ)) (low : V → ℕ) : Search V :=
  { s with
    call := rest
    low
    stack := (popTo v s.stack).2
    on_stack := fun w => if w ∈ (popTo v s.stack).1 then false else s.on_stack w
    out := s.out ++ [(popTo v s.stack).1] }

lemma emit_stacks (f : Finishes succ vs s v ci rest) : Stacks vs (emitted s v rest low) where
  seen_mem := f.inv.seen_mem
  seen_lt := f.inv.seen_lt
  num_inj := f.inv.num_inj
  stack_seen := fun x hx => f.inv.stack_seen x ((f.mem_left x).mp hx).1
  stack_sorted := f.inv.stack_sorted.sublist (left_sublist s v)
  on_stack_iff := by
    intro x
    show (if x ∈ (popTo v s.stack).1 then false else s.on_stack x) = true ↔ x ∈ (popTo v s.stack).2
    rw [f.mem_left x]
    split
    · rename_i hpop
      have hle := ((f.mem_popped x).mp hpop).2
      simp only [Bool.false_eq_true, false_iff, not_and, not_lt]
      exact fun _ => hle
    · rename_i hpop
      rw [f.inv.on_stack_iff x]
      refine ⟨fun hx => ⟨hx, not_le.mp fun hle => hpop ((f.mem_popped x).mpr ⟨hx, hle⟩)⟩,
        And.left⟩
  call_stack := fun p hmem =>
    (f.mem_left p.1).mpr ⟨f.inv.call_stack p (f.rest_stack hmem), f.rest_lt hmem⟩
  call_sorted := f.rest_sorted

lemma emit_edges (f : Finishes succ vs s v ci rest) (hroot : s.low v = s.num v) :
    Edges succ (emitted s v rest low) where
  examined := fun x y hx hxy => f.inv.examined x y hx (f.examined_of_rest hxy)
  done_closed := by
    intro x y hx hnot hedge
    have hout : ∀ z, z ∉ s.stack → z ∉ (popTo v s.stack).2 :=
      fun z hz hin => hz ((f.mem_left z).mp hin).1
    by_cases hxs : x ∈ s.stack
    · have hle : s.num v ≤ s.num x :=
        not_lt.mp fun hlt => hnot ((f.mem_left x).mpr ⟨hxs, hlt⟩)
      rcases f.closed hroot hxs hle hedge with ⟨hy, hyle⟩ | ⟨hy, hynot⟩
      · exact ⟨f.inv.stack_seen y hy, fun hin => absurd ((f.mem_left y).mp hin).2 (not_lt.mpr hyle)⟩
      · exact ⟨hy, hout y hynot⟩
    · obtain ⟨hy, hynot⟩ := f.inv.done_closed x y hx hxs hedge
      exact ⟨hy, hout y hynot⟩

lemma emit_lows (f : Finishes succ vs s v ci rest) (hp : Passes s v rest low) :
    Lows succ (emitted s v rest low) where
  low_le := fun x hx => (hp.le x).trans (f.inv.low_le x ((f.mem_left x).mp hx).1)
  low_reach := by
    intro x hx
    obtain ⟨hxs, hlt⟩ := (f.mem_left x).mp hx
    obtain ⟨w, hw, hnum, hxw⟩ := f.low_reach hp hxs
    have hle := (hp.le x).trans (f.inv.low_le x hxs)
    exact ⟨w, (f.mem_left w).mpr ⟨hw, by omega⟩, hnum, hxw⟩
  low_lt := by
    intro x hx hnot
    obtain ⟨hxs, hlt⟩ := (f.mem_left x).mp hx
    refine (hp.le x).trans_lt (f.inv.low_lt x hxs ?_)
    rw [f.call_eq, List.map_cons, List.mem_cons, not_or]
    refine ⟨?_, hnot⟩
    rintro rfl
    exact lt_irrefl _ hlt
  reaches := fun p hmem x hx => f.inv.reaches p (f.rest_stack hmem) x ((f.mem_left x).mp hx).1
  covers := fun _ _ _ hsplit x hx hle w hw hxw =>
    f.covers hp hsplit ((f.mem_left x).mp hx).1 hle ((f.mem_left w).mp hw).1 hxw

lemma emit_output (f : Finishes succ vs s v ci rest) (hroot : s.low v = s.num v) :
    Output succ (emitted s v rest low) where
  mem_out := by
    intro x
    show x ∈ (s.out ++ [(popTo v s.stack).1]).flatten ↔ s.Seen x ∧ x ∉ (popTo v s.stack).2
    rw [List.flatten_append, List.mem_append, List.flatten_singleton, f.inv.mem_out x,
      f.mem_popped x, f.mem_left x]
    constructor
    · -- what leaves the stack goes to the output
      rintro (⟨hx, hnot⟩ | ⟨hx, hle⟩)
      · exact ⟨hx, fun hin => hnot hin.1⟩
      · exact ⟨f.inv.stack_seen x hx, fun hin => absurd hin.2 (not_lt.mpr hle)⟩
    · rintro ⟨hx, hnot⟩
      by_cases hxs : x ∈ s.stack
      · exact .inr ⟨hxs, not_lt.mp fun hlt => hnot ⟨hxs, hlt⟩⟩
      · exact .inl ⟨hx, hxs⟩
  out_nodup := by
    show (s.out ++ [(popTo v s.stack).1]).flatten.Nodup
    have hnodup := stack_nodup f.inv.toStacks
    rw [← popTo_append v s.stack] at hnodup
    rw [List.flatten_append, List.flatten_singleton, List.nodup_append]
    refine ⟨f.inv.out_nodup, (List.nodup_append.mp hnodup).1, ?_⟩
    rintro x hx y hy rfl
    exact ((f.inv.mem_out x).mp hx).2 ((f.mem_popped x).mp hy).1
  out_ne_nil := by
    intro c hc
    rcases List.mem_append.mp hc with hc' | hc'
    · exact f.inv.out_ne_nil c hc'
    · rw [List.mem_singleton.mp hc']
      exact List.ne_nil_of_mem ((f.mem_popped v).mpr ⟨f.mem_stack, le_rfl⟩)
  out_scc := by
    intro c hc x hx y
    rcases List.mem_append.mp hc with hc' | hc'
    · exact f.inv.out_scc c hc' x hx y
    · -- the component of the root is what lies above it
      obtain rfl := List.mem_singleton.mp hc'
      obtain ⟨hxs, hle⟩ := (f.mem_popped x).mp hx
      rw [f.mem_popped y]
      exact f.scc hroot hxs hle y

/-- Finishing a root: its component leaves the stack. -/
lemma emit (f : Finishes succ vs s v ci rest) (hp : Passes s v rest low)
    (hroot : s.low v = s.num v) : Inv succ vs (emitted s v rest low) where
  toStacks := f.emit_stacks
  toEdges := f.emit_edges hroot
  toLows := f.emit_lows hp
  toOutput := f.emit_output hroot

/-- Finishing a vertex keeps the invariant. -/
lemma finish (f : Finishes succ vs s v ci rest) :
    Inv succ vs (Search.emit (propagate { s with call := rest } v) v) := by
  obtain ⟨low, heq, hp⟩ := propagate_passes s v rest
  rw [heq]
  -- the finished vertex is not its own caller
  have hlow : low v = s.low v := by
    by_contra hne
    obtain ⟨-, p, hhead, hpv⟩ := hp.changed v hne
    have hlt := f.rest_lt (List.mem_of_mem_head? hhead)
    rw [hpv] at hlt
    exact lt_irrefl _ hlt
  have hindex : s.index v = some (s.num v) := by
    obtain ⟨i, hi⟩ := Option.isSome_iff_exists.mp (f.inv.stack_seen v f.mem_stack)
    simp [num, hi]
  rw [Search.emit]
  split
  · rename_i hroot
    have hroot' : s.index v = some (low v) := hroot
    rw [hindex, hlow] at hroot'
    exact f.emit hp (Option.some.inj hroot').symm
  · rename_i hroot
    refine f.leave hp fun hlow' => hroot ?_
    show s.index v = some (low v)
    rw [hindex, hlow, hlow']

end Finishes

/-! ## The search as a whole -/

/-- Every round keeps the invariant. -/
theorem Inv.step (h : Inv succ vs s) (hclosed : ∀ v ∈ vs, ∀ w ∈ succ v, w ∈ vs) :
    Inv succ vs (s.step succ) := by
  rw [Search.step]
  split
  · exact h
  · rename_i v ci rest hcall
    have hv : v ∈ vs := h.seen_mem v (h.stack_seen v (h.call_stack (v, ci) (by rw [hcall]; simp)))
    split
    · rename_i w hw
      exact h.lookAt hcall hw (hclosed v hv w (List.mem_of_getElem? hw))
    · rename_i hend
      exact Finishes.finish ⟨h, hcall, hend⟩

omit [DecidableEq V] in
/-- When nothing is being visited, the stack is empty: the lowest vertex on it would reach a lower
one. -/
lemma Inv.stack_nil (h : Inv succ vs s) (hcall : s.call = []) : s.stack = [] := by
  have hnone : ∀ n, ∀ v ∈ s.stack, s.num v = n → False := by
    intro n
    induction n using Nat.strong_induction_on with
    | _ n ih =>
      intro v hv hn
      have hlt := h.low_lt v hv (by simp [hcall])
      obtain ⟨w, hw, hnum, -⟩ := h.low_reach v hv
      exact ih (s.num w) (by omega) w hw rfl
  cases hstack : s.stack with
  | nil => rfl
  | cons v st => exact (hnone _ v (by simp [hstack]) rfl).elim

omit [DecidableEq V] in
/-- A search that has seen everything has found the components. -/
theorem Inv.components (h : Inv succ vs s) (hnodup : vs.Nodup) (hcall : s.call = [])
    (hall : ∀ v ∈ vs, s.Seen v) : Components succ vs s.out where
  perm := by
    refine (List.perm_ext_iff_of_nodup h.out_nodup hnodup).mpr fun v => ?_
    rw [h.mem_out v, h.stack_nil hcall]
    constructor
    · rintro ⟨hv, -⟩
      exact h.seen_mem v hv
    · intro hv
      exact ⟨hall v hv, List.not_mem_nil⟩
  ne_nil := h.out_ne_nil
  scc := h.out_scc

/-- What has been seen stays seen. -/
lemma Seen.step {v : V} (hv : s.Seen v) : (s.step succ).Seen v := by
  rw [Search.step]
  split
  · exact hv
  · rename_i u ci rest hcall
    split
    · rename_i w hw
      rw [Search.lookAt]
      split
      · exact seen_enter.mpr (.inr hv)
      · split
        · exact hv
        · exact hv
    · obtain ⟨low, heq, -⟩ := propagate_passes s u rest
      rw [heq]
      rw [Search.emit]
      split
      · exact hv
      · exact hv

/-! ## The work that is left -/

/-- The number of rounds that are left: one for every edge and every vertex not dealt with yet. -/
def work (succ : V → List V) (vs : List V) (s : Search V) : ℕ :=
  (vs.map fun v => if s.index v = none then (succ v).length + 1 else 0).sum +
    (s.call.map fun p => (succ p.1).length - p.2 + 1).sum

omit [DecidableEq V] in
/-- Changing a sum at one place. -/
lemma sum_map_change {f g : V → ℕ} {w : V} (hnodup : vs.Nodup) (hw : w ∈ vs) (hgw : g w = 0)
    (hother : ∀ v, v ≠ w → g v = f v) : (vs.map g).sum + f w = (vs.map f).sum := by
  induction vs with
  | nil => cases hw
  | cons v vs ih =>
    rw [List.nodup_cons] at hnodup
    simp only [List.map_cons, List.sum_cons]
    rcases List.mem_cons.mp hw with rfl | hw'
    · have hsame : vs.map g = vs.map f := by
        refine List.map_congr_left fun v hv => hother v ?_
        rintro rfl
        exact hnodup.1 hv
      rw [hsame, hgw]
      omega
    · have hne : v ≠ w := by
        rintro rfl
        exact hnodup.1 hw'
      have hrest := ih hnodup.2 hw'
      rw [hother v hne]
      omega

/-- Entering a vertex moves its work to the call stack. -/
lemma work_enter {w : V} (hnodup : vs.Nodup) (hw : w ∈ vs) (hunseen : ¬ s.Seen w) :
    work succ vs (s.enter w) = work succ vs s := by
  have hnone : s.index w = none := by simpa [Seen] using hunseen
  have hsum := sum_map_change (f := fun v => if s.index v = none then (succ v).length + 1 else 0)
    (g := fun v => if (s.enter w).index v = none then (succ v).length + 1 else 0) hnodup hw
    (by simp [enter]) (fun v hv => by simp [enter, hv])
  simp only [hnone, if_true] at hsum
  unfold work
  have hcall : ((s.enter w).call.map fun p => (succ p.1).length - p.2 + 1).sum =
      (succ w).length + 1 + (s.call.map fun p => (succ p.1).length - p.2 + 1).sum := by
    simp [enter]
  rw [hcall]
  omega

/-- Every round leaves less work. -/
lemma work_step (h : Inv succ vs s) (hnodup : vs.Nodup) (hclosed : ∀ v ∈ vs, ∀ w ∈ succ v, w ∈ vs)
    (hcall : s.call ≠ []) : work succ vs (s.step succ) < work succ vs s := by
  rw [Search.step]
  split
  · rename_i hnil
    exact absurd hnil hcall
  · rename_i v ci rest hv
    have hmem : v ∈ vs := h.seen_mem v (h.stack_seen v (h.call_stack (v, ci) (by rw [hv]; simp)))
    have hbefore : work succ vs s = work succ vs { s with call := rest } +
        ((succ v).length - ci + 1) := by
      simp only [work, hv, List.map_cons, List.sum_cons]
      omega
    split
    · rename_i w hw
      obtain ⟨hlt, -⟩ := List.getElem?_eq_some_iff.mp hw
      -- one successor fewer to look at, and entering one moves its work to the call stack
      have hcursor : work succ vs { s with call := (v, ci + 1) :: rest } =
          work succ vs { s with call := rest } + ((succ v).length - (ci + 1) + 1) := by
        simp only [work, List.map_cons, List.sum_cons]
        omega
      have hlook : work succ vs (Search.lookAt { s with call := (v, ci + 1) :: rest } v w) =
          work succ vs { s with call := (v, ci + 1) :: rest } := by
        rw [Search.lookAt]
        split
        · rename_i hnone
          have hnone' : s.index w = none := hnone
          exact work_enter hnodup (hclosed v hmem w (List.mem_of_getElem? hw))
            (by simp [Seen, hnone'])
        · split <;> rfl
      rw [hlook, hcursor, hbefore]
      omega
    · -- the frame of `v` leaves the call stack
      have hfinish : work succ vs (Search.emit (propagate { s with call := rest } v) v) =
          work succ vs { s with call := rest } := by
        obtain ⟨low, heq, -⟩ := propagate_passes s v rest
        rw [heq]
        rw [Search.emit]
        split <;> rfl
      rw [hfinish, hbefore]
      omega

end ReverseMcp.Graph.Search
