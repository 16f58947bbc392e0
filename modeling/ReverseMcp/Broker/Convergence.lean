import ReverseMcp.Broker.RegionGraph
import ReverseMcp.Broker.Visits

/-!
# Convergence of the fixpoint

The loop of `run_dataflow` visits the regions in a topological order.  `Flow.Inv` says that a
visited region comes behind its predecessors, that a ready one has only visited predecessors, and
that a pending one has a predecessor that has not been visited.  When nothing is ready any more, the
pending regions each have a pending predecessor: there are none exactly if the region graph is
acyclic.
-/

namespace ReverseMcp

open Rust ReverseMcp.Graph Relation

/-! ## What the loop relies on -/

/-- The region ids are unique and no warnings, and the links name regions from both sides. -/
structure Partition.Linked (p : Partition) : Prop where
  nodup : (p.regions.map Region.region_id).Nodup
  not_warning : ∀ r ∈ p.regions, ¬ IsWarning r.region_id
  closed : ∀ t ∈ p.regions, ∀ q ∈ t.pred_regions, ∃ r ∈ p.regions, r.region_id = q
  mirrored : ∀ r ∈ p.regions, ∀ t ∈ p.regions,
    t.region_id ∈ r.succ_regions ↔ r.region_id ∈ t.pred_regions

lemma Partition.Linked.named {p : Partition} (h : p.Linked) : p.Named where
  nodup := h.nodup
  not_warning := h.not_warning
  pred_not_warning t ht q hq := by
    obtain ⟨r, hr, rfl⟩ := h.closed t ht q hq
    exact h.not_warning r hr

/-! ## The invariant of the loop -/

/-- What holds while the regions `ready` are still to be visited in this round. -/
structure Flow.Inv (p : Partition) (ready : List String) (st : Flow) : Prop where
  cover : ∀ r ∈ p.regions, r.region_id ∈ st.completed ∨ r.region_id ∈ ready ++ st.next_ready ∨
    r.region_id ∈ st.pending
  ready_done : ∀ x ∈ ready ++ st.next_ready, p.Done st.completed x
  ready_nodup : (ready ++ st.next_ready).Nodup
  ready_fresh : ∀ x ∈ ready ++ st.next_ready, x ∉ st.completed ∧ x ∉ st.pending
  pending_known : ∀ x ∈ st.pending, ∃ r ∈ p.regions, r.region_id = x
  pending_fresh : ∀ x ∈ st.pending, x ∉ st.completed
  ordered : Ordered p.Next st.completed
  blocked : ∀ t ∈ p.regions, t.region_id ∈ st.pending → ∃ q ∈ t.pred_regions, q ∉ st.completed

namespace Flow.Inv

variable {p : Partition} {st : Flow} {ready : List String}
  {region_facts : Std.ExtTreeMap String RegionFacts}

lemma scheduled (h : st.Inv p ready) : st.Scheduled p ready where
  cover := h.cover
  ready_done := h.ready_done
  ready_nodup := h.ready_nodup
  ready_fresh := h.ready_fresh
  pending_known := h.pending_known
  pending_fresh := h.pending_fresh
  ordered := h.ordered

lemma of_scheduled (h : st.Scheduled p ready)
    (hblocked : ∀ t ∈ p.regions, t.region_id ∈ st.pending →
      ∃ q ∈ t.pred_regions, q ∉ st.completed) :
    st.Inv p ready where
  cover := h.cover
  ready_done := h.ready_done
  ready_nodup := h.ready_nodup
  ready_fresh := h.ready_fresh
  pending_known := h.pending_known
  pending_fresh := h.pending_fresh
  ordered := h.ordered
  blocked := hblocked

/-- A visit keeps the invariant. -/
lemma visit (hp : p.Linked) (hfacts : ∀ r ∈ p.regions, r.region_id ∈ region_facts)
    (limits : DataflowLimits) {x : String} (h : st.Inv p (x :: ready)) :
    (st.visit p limits region_facts x).Inv p ready := by
  obtain ⟨r, hr, rfl, -⟩ := h.ready_done x (by simp)
  have hv : Reached p { st with completed := st.completed ++ [r.region_id] } r.succ_regions
      (st.visit p limits region_facts r.region_id) :=
    Flow.visit_spec hp.named hr (hfacts r hr) st
  have hkept := h.scheduled.reached hp.named hr hv
  obtain ⟨warns, hcompleted, hwarns⟩ := hv.completed
  have hpending := hv.pending
  simp only at hcompleted hpending
  refine .of_scheduled hkept ?_
  intro t ht hpend
  obtain ⟨hpend, hnot⟩ := (hpending _).mp hpend
  by_contra hall
  push Not at hall
  have hdone : ∀ q ∈ t.pred_regions, q ∈ st.completed ∨ q = r.region_id := by
    intro q hq
    have hmem := hall q hq
    rw [hcompleted, List.mem_append, List.mem_append, List.mem_singleton] at hmem
    exact hmem.resolve_right fun hin => hp.named.pred_not_warning t ht q hq (hwarns _ hin)
  by_cases hsucc : t.region_id ∈ r.succ_regions
  · refine hnot ⟨hsucc, t, ht, rfl, fun q hq => ?_⟩
    rcases hdone q hq with hq | hq
    · exact List.mem_append_left _ hq
    · simp [hq]
  · -- a region that is not behind this one was not waiting for it
    obtain ⟨q, hq, hnot⟩ := h.blocked t ht hpend
    rcases hdone q hq with hq' | rfl
    · exact hnot hq'
    · exact hsucc ((hp.mirrored r hr t ht).mpr hq)

lemma congr {st' : Flow} {ready' : List String} (h : st.Inv p ready)
    (hready : ready' ++ st'.next_ready = ready ++ st.next_ready)
    (hcompleted : st'.completed = st.completed) (hpending : st'.pending = st.pending) :
    st'.Inv p ready' := by
  refine .of_scheduled (h.scheduled.congr hready hcompleted hpending) ?_
  rw [hcompleted, hpending]
  exact h.blocked

/-- A round keeps the invariant, and has visited everything that was ready. -/
lemma foldl_visit (hp : p.Linked) (hfacts : ∀ r ∈ p.regions, r.region_id ∈ region_facts)
    (limits : DataflowLimits) (h : st.Inv p ready) :
    (ready.foldl (Flow.visit p limits region_facts) st).Inv p [] ∧
      ∀ x, x ∈ st.completed ∨ x ∈ ready →
        x ∈ (ready.foldl (Flow.visit p limits region_facts) st).completed := by
  induction ready generalizing st with
  | nil => exact ⟨h, fun x hx => by simpa using hx⟩
  | cons y ready ih =>
    obtain ⟨r, hr, rfl, -⟩ := h.ready_done y (by simp)
    obtain ⟨hinv, hcompleted⟩ := ih (h.visit hp hfacts limits)
    refine ⟨hinv, fun x hx => hcompleted x ?_⟩
    have hv : Reached p { st with completed := st.completed ++ [r.region_id] } r.succ_regions
        (st.visit p limits region_facts r.region_id) :=
      Flow.visit_spec hp.named hr (hfacts r hr) st
    obtain ⟨warns, heq, -⟩ := hv.completed
    rw [heq]
    rcases hx with hx | hx
    · exact .inl (by simp [hx])
    · rcases List.mem_cons.mp hx with rfl | hx
      · exact .inl (by simp)
      · exact .inr hx

end Flow.Inv

/-! ## The loop -/

/-- The number of regions that have not been visited. -/
def Flow.left (p : Partition) (st : Flow) : ℕ :=
  (p.regions.filter fun r => decide (r.region_id ∉ st.completed)).length

lemma Flow.left_lt {p : Partition} {st st' : Flow} (hgrows : ∀ x ∈ st.completed, x ∈ st'.completed)
    {r : Region} (hr : r ∈ p.regions) (hnew : r.region_id ∉ st.completed)
    (hdone : r.region_id ∈ st'.completed) : st'.left p < st.left p := by
  have hsub : (p.regions.filter fun t => decide (t.region_id ∉ st'.completed)) =
      (p.regions.filter fun t => decide (t.region_id ∉ st.completed)).filter fun t =>
        decide (t.region_id ∉ st'.completed) := by
    rw [List.filter_filter]
    refine List.filter_congr fun t _ => ?_
    by_cases ht : t.region_id ∈ st.completed
    · simp [ht, hgrows _ ht]
    · simp [ht]
  rw [Flow.left]
  rw [hsub]
  refine List.length_filter_lt_length_iff_exists.mpr ⟨r, ?_, by simp [hdone]⟩
  exact List.mem_filter.mpr ⟨hr, by simp [hnew]⟩

section Rounds

variable {p : Partition} {region_facts : Std.ExtTreeMap String RegionFacts}
  {limits : DataflowLimits} {clock : ℕ → ℕ}

/-- With enough of the budget left and no deadline, the loop goes on until nothing is ready. -/
lemma rounds_spec (hp : p.Linked) (hfacts : ∀ r ∈ p.regions, r.region_id ∈ region_facts)
    (hclock : ∀ i, clock i < limits.deadline) (left : ℕ) :
    ∀ iterations ready st, Flow.Inv p ready { st with next_ready := [] } → st.left p ≤ left →
      (rounds p region_facts limits clock left iterations ready st).ready = [] ∧
      (rounds p region_facts limits clock left iterations ready st).stop = "" ∧
      Flow.Inv p [] { (rounds p region_facts limits clock left iterations ready st).flow with
        next_ready := [] } := by
  induction left with
  | zero =>
    intro iterations ready st h hleft
    cases ready with
    | nil =>
      rw [rounds]
      exact ⟨rfl, rfl, h⟩
    | cons x ready =>
      -- a region that is ready has not been visited
      obtain ⟨r, hr, rfl, -⟩ := h.ready_done x (by simp)
      have hnot : r.region_id ∉ st.completed := (h.ready_fresh r.region_id (by simp)).1
      have hpos : 0 < st.left p :=
        List.length_pos_of_mem (List.mem_filter.mpr ⟨hr, by simp [hnot]⟩)
      omega
  | succ left ih =>
    intro iterations ready st h hleft
    cases ready with
    | nil =>
      rw [rounds]
      exact ⟨rfl, rfl, h⟩
    | cons x ready =>
      obtain ⟨r, hr, rfl, -⟩ := h.ready_done x (by simp)
      have hnot : r.region_id ∉ st.completed := (h.ready_fresh r.region_id (by simp)).1
      obtain ⟨hinv, hdone⟩ := h.foldl_visit hp hfacts limits
      have hless := Flow.left_lt (fun y (hy : y ∈ st.completed) => hdone y (.inl hy)) hr hnot
        (hdone r.region_id (.inr (by simp)))
      rw [rounds]
      simp only [List.isEmpty_cons, Bool.false_eq_true, if_false,
        if_neg (not_le.mpr (hclock iterations))]
      exact ih _ _ _ (hinv.congr (by simp) rfl rfl) (by omega)

lemma Flow.inv_start (hp : p.Linked) : (Flow.start p).Inv p p.ready := by
  refine .of_scheduled (Flow.scheduled_start hp.named) ?_
  intro t ht hpend
  obtain ⟨r, hr, hne, heq⟩ := Flow.mem_start_pending.mp hpend
  obtain ⟨q, hq⟩ := List.exists_mem_of_ne_nil _ hne
  exact ⟨q, hp.named.eq_of_region_id hr ht heq ▸ hq, List.not_mem_nil⟩

/-- With facts for every region, a budget of one iteration for each and no deadline, everything is
visited exactly if no region comes back to itself. -/
theorem run_dataflow_converges_iff (hp : p.Linked)
    (hfacts : ∀ r ∈ p.regions, r.region_id ∈ region_facts)
    (hmax : p.regions.length ≤ limits.max_iterations) (hclock : ∀ i, clock i < limits.deadline) :
    ((run_dataflow p region_facts limits clock).converged = true ∧
      (run_dataflow p region_facts limits clock).frontier = [] ∧
      ∀ r ∈ p.regions, r.region_id ∈ (run_dataflow p region_facts limits clock).completed) ↔
      Acyclic p.Next := by
  have hleft : ∀ st : Flow, st.left p ≤ limits.max_iterations :=
    fun st => (List.length_filter_le _ _).trans hmax
  obtain ⟨hready, hstop, hinv⟩ := rounds_spec hp hfacts hclock _ 0 _ (.start p) (Flow.inv_start hp)
    (hleft _)
  rw [run_dataflow]
  dsimp only
  generalize rounds p region_facts limits clock limits.max_iterations 0 _ _ = s at *
  rw [hready, hstop]
  constructor
  · rintro ⟨-, -, hall⟩ v hcycle
    obtain ⟨u, -, t, ht, rfl, -⟩ := TransGen.tail'_iff.mp hcycle
    exact hinv.ordered.not_cycle (hall t ht) hcycle
  · intro hacyclic
    have hnone : s.flow.pending.toList = [] := by
      -- every pending region is blocked by another one, so there would be a cycle
      by_contra hne
      obtain ⟨v, hv⟩ := exists_cycle (R := p.Next) hne fun v hv => by
        obtain ⟨t, ht, rfl⟩ := hinv.pending_known v (Std.ExtTreeSet.mem_toList.mp hv)
        obtain ⟨q, hq, hnot⟩ := hinv.blocked t ht (Std.ExtTreeSet.mem_toList.mp hv)
        obtain ⟨r, hr, rfl⟩ := hp.closed t ht q hq
        have hpend := ((hinv.cover r hr).resolve_left hnot).resolve_left (by simp)
        exact ⟨r.region_id, Std.ExtTreeSet.mem_toList.mpr hpend, t, ht, rfl, hq⟩
      exact hacyclic v hv
    have hall : ∀ r ∈ p.regions, r.region_id ∈ s.flow.completed := by
      intro r hr
      rcases hinv.cover r hr with hc | hc | hc
      · exact hc
      · simp at hc
      · have hmem := Std.ExtTreeSet.mem_toList.mpr hc
        simp [hnone] at hmem
    refine ⟨?_, ?_, hall⟩
    · have hempty : s.flow.pending.isEmpty = true := by
        rw [← Std.ExtTreeSet.isEmpty_toList, hnone]
        rfl
      simp [hempty]
    · refine List.filter_eq_nil_iff.mpr fun x hx => ?_
      obtain ⟨r, hr, rfl⟩ := List.mem_map.mp hx
      simp [hall r hr]

end Rounds

end ReverseMcp
