import ReverseMcp.Graph.Acyclic
import ReverseMcp.Broker.Dataflow

/-!
# The visits of the fixpoint

What one visit of `run_dataflow` does to the lists of the loop (`Reached`), and what every round
keeps, whatever the facts and the limits are (`Flow.Scheduled`): a visited region comes behind its
predecessors, and a ready one has only visited predecessors and has not been visited.  The texts
that report a fact cap go to the same list as the visited regions, so this takes region ids that are
none of them.
-/

namespace ReverseMcp

open Rust ReverseMcp.Graph

/-! ## What the loop relies on -/

/-- The text is one that reports a fact cap. -/
def IsWarning (w : String) : Prop := ∃ len max succ, w = capWarning len max succ

lemma regionId_ne_capWarning (n len max : ℕ) (succ : String) :
    regionId n ≠ capWarning len max succ := by
  intro h
  unfold regionId capWarning at h
  have hchars := congrArg String.toList h
  simp only [String.toList_append] at hchars
  have hR : "R".toList = ['R'] := by simp
  have hW : "WARN: fact cap ".toList = 'W' :: "ARN: fact cap ".toList := by simp
  rw [hR, hW] at hchars
  simp at hchars

/-- The region `u` is a predecessor of the region `v`. -/
def Partition.Next (p : Partition) (u v : String) : Prop :=
  ∃ t ∈ p.regions, t.region_id = v ∧ u ∈ t.pred_regions

/-- The region ids are unique, and neither they nor the predecessors are warnings. -/
structure Partition.Named (p : Partition) : Prop where
  nodup : (p.regions.map Region.region_id).Nodup
  not_warning : ∀ r ∈ p.regions, ¬ IsWarning r.region_id
  pred_not_warning : ∀ t ∈ p.regions, ∀ q ∈ t.pred_regions, ¬ IsWarning q

namespace Partition.Named

variable {p : Partition}

lemma eq_of_region_id (h : p.Named) {r t : Region} (hr : r ∈ p.regions) (ht : t ∈ p.regions)
    (heq : r.region_id = t.region_id) : r = t :=
  List.inj_on_of_nodup_map h.nodup hr ht heq

lemma region_eq (h : p.Named) {r : Region} (hr : r ∈ p.regions) :
    p.region r.region_id = some r := by
  rw [Partition.region]
  cases hfind : p.regions.find? fun t => t.region_id = r.region_id with
  | none => exact absurd (List.find?_eq_none.mp hfind r hr) (by simp)
  | some t =>
    have ht := List.find?_some hfind
    rw [h.eq_of_region_id (List.mem_of_find?_eq_some hfind) hr (of_decide_eq_true ht)]

lemma allPredsDone_iff (h : p.Named) {completed : List String} {rid y : String} :
    p.allPredsDone completed rid y = true ↔
      ∃ t ∈ p.regions, t.region_id = y ∧ ∀ q ∈ t.pred_regions, q = rid ∨ q ∈ completed := by
  rw [Partition.allPredsDone]
  constructor
  · intro hdone
    cases hfind : p.region y with
    | none => simp [hfind] at hdone
    | some t =>
      rw [hfind] at hdone
      rw [Partition.region] at hfind
      have hid : t.region_id = y := by simpa using List.find?_some hfind
      exact ⟨t, List.mem_of_find?_eq_some hfind, hid, by simpa using hdone⟩
  · rintro ⟨t, ht, rfl, hpreds⟩
    simpa [h.region_eq ht] using hpreds

end Partition.Named

/-! ## One visit -/

/-- Joining facts pushes nothing but warnings. -/
lemma joinFacts_completed (max : ℕ) (succ : String) (fs : List Fact) :
    ∀ entry completed, ∃ warns, (joinFacts max succ fs entry completed).2 = completed ++ warns ∧
      ∀ w ∈ warns, IsWarning w := by
  induction fs with
  | nil =>
    intro entry completed
    exact ⟨[], by simp [joinFacts], by simp⟩
  | cons f fs ih =>
    intro entry completed
    rw [joinFacts]
    split
    · exact ih entry completed
    · split
      · exact ih (entry ++ [f]) completed
      · refine ⟨_, rfl, fun w hw => ?_⟩
        rw [List.mem_singleton.mp hw]
        exact ⟨_, _, _, rfl⟩

/-- All predecessors of the region are among the completed ones. -/
def Partition.Done (p : Partition) (completed : List String) (y : String) : Prop :=
  ∃ t ∈ p.regions, t.region_id = y ∧ ∀ q ∈ t.pred_regions, q ∈ completed

/-- What has happened when the facts of a region have reached the successors `succs`: those whose
predecessors are all done have gone from the pending ones to the next ready ones. -/
structure Reached (p : Partition) (st : Flow) (succs : List String) (st' : Flow) : Prop where
  completed : ∃ warns, st'.completed = st.completed ++ warns ∧ ∀ w ∈ warns, IsWarning w
  next_ready : ∃ new, st'.next_ready = st.next_ready ++ new ∧ new.Nodup ∧
    ∀ y, y ∈ new ↔ y ∈ st.pending ∧ y ∈ succs ∧ p.Done st.completed y
  pending : ∀ y, y ∈ st'.pending ↔ y ∈ st.pending ∧ ¬ (y ∈ succs ∧ p.Done st.completed y)

section Visit

variable {p : Partition} {limits : DataflowLimits} {st st' : Flow}

/-- Warnings among the completed ones make no region ready. -/
lemma Partition.Named.done_append (h : p.Named) {completed warns : List String}
    (hwarns : ∀ w ∈ warns, IsWarning w) {y : String} :
    p.Done (completed ++ warns) y ↔ p.Done completed y := by
  constructor
  · rintro ⟨t, ht, hy, hpreds⟩
    refine ⟨t, ht, hy, fun q hq => ?_⟩
    rcases List.mem_append.mp (hpreds q hq) with hmem | hmem
    · exact hmem
    · exact absurd (hwarns _ hmem) (h.pred_not_warning t ht q hq)
  · rintro ⟨t, ht, hy, hpreds⟩
    exact ⟨t, ht, hy, fun q hq => List.mem_append_left _ (hpreds q hq)⟩

lemma Reached.step (h : p.Named) {rid : String} {succs : List String} (hrid : rid ∈ st.completed)
    (hst : Reached p st succs st') (out_facts : List Fact) (y : String) :
    Reached p st (succs ++ [y]) (Flow.reach p limits rid out_facts st' y) := by
  obtain ⟨warns, hcompleted, hwarns⟩ := hst.completed
  obtain ⟨new, hnext, hnodup, hnew⟩ := hst.next_ready
  obtain ⟨warns', hjoin, hwarns'⟩ := joinFacts_completed limits.max_facts_per_region y out_facts
    (st'.in_facts[y]?.getD []) st'.completed
  have hall : ∀ w ∈ warns ++ warns', IsWarning w := by
    intro w hw
    rcases List.mem_append.mp hw with hw | hw
    · exact hwarns w hw
    · exact hwarns' w hw
  rw [hcompleted, List.append_assoc] at hjoin
  -- a warning is no region, so it completes nothing
  have hdone : p.allPredsDone (st.completed ++ (warns ++ warns')) rid y = true ↔
      p.Done st.completed y := by
    rw [h.allPredsDone_iff, ← h.done_append hall]
    constructor
    · rintro ⟨t, ht, hy, hpreds⟩
      refine ⟨t, ht, hy, fun q hq => ?_⟩
      rcases hpreds q hq with rfl | hq
      · exact List.mem_append_left _ hrid
      · exact hq
    · rintro ⟨t, ht, hy, hpreds⟩
      exact ⟨t, ht, hy, fun q hq => .inr (hpreds q hq)⟩
  rw [Flow.reach]
  dsimp only
  rw [hcompleted, hjoin]
  split
  · rename_i hready
    rw [Bool.and_eq_true, hdone, Std.ExtTreeSet.contains_iff_mem, hst.pending] at hready
    -- `y` becomes ready: it joins the next round and is pending no more
    obtain ⟨hy, hpend, hnot⟩ := hready
    refine ⟨⟨_, rfl, hall⟩, ⟨new ++ [y], by simp [hnext], ?_, ?_⟩, ?_⟩
    · refine List.nodup_append.mpr ⟨hnodup, by simp, ?_⟩
      rintro a ha b hb rfl
      rw [List.mem_singleton.mp hb, hnew] at ha
      exact hnot ha.2
    · intro z
      simp only [List.mem_append, List.mem_singleton, hnew]
      constructor
      · rintro (⟨hz, hs, hd⟩ | rfl)
        · exact ⟨hz, .inl hs, hd⟩
        · exact ⟨hpend, .inr rfl, hy⟩
      · rintro ⟨hz, hs | rfl, hd⟩
        · exact .inl ⟨hz, hs, hd⟩
        · exact .inr rfl
    · intro z
      simp only [mem_treeSet_erase, hst.pending, List.mem_append, List.mem_singleton]
      constructor
      · rintro ⟨hne, hz, hnz⟩
        refine ⟨hz, ?_⟩
        rintro ⟨hs | rfl, hd⟩
        · exact hnz ⟨hs, hd⟩
        · exact hne rfl
      · rintro ⟨hz, hnz⟩
        refine ⟨?_, hz, fun hs => hnz ⟨.inl hs.1, hs.2⟩⟩
        rintro rfl
        exact hnz ⟨.inr rfl, hy⟩
  · rename_i hready
    rw [Bool.and_eq_true, hdone, Std.ExtTreeSet.contains_iff_mem, hst.pending] at hready
    refine ⟨⟨_, rfl, hall⟩, ⟨new, hnext, hnodup, ?_⟩, ?_⟩
    · intro z
      simp only [hnew, List.mem_append, List.mem_singleton]
      constructor
      · rintro ⟨hz, hs, hd⟩
        exact ⟨hz, .inl hs, hd⟩
      · rintro ⟨hz, hs | rfl, hd⟩
        · exact ⟨hz, hs, hd⟩
        · by_cases hs : z ∈ succs
          · exact ⟨hz, hs, hd⟩
          · exact absurd ⟨hd, hz, fun hsd => hs hsd.1⟩ hready
    · intro z
      simp only [hst.pending, List.mem_append, List.mem_singleton]
      constructor
      · rintro ⟨hz, hnz⟩
        refine ⟨hz, ?_⟩
        rintro ⟨hs | rfl, hd⟩
        · exact hnz ⟨hs, hd⟩
        · exact hready ⟨hd, hz, hnz⟩
      · rintro ⟨hz, hnz⟩
        exact ⟨hz, fun hs => hnz ⟨.inl hs.1, hs.2⟩⟩

lemma Reached.foldl (h : p.Named) {rid : String} (hrid : rid ∈ st.completed)
    (out_facts : List Fact) (succs : List String) :
    Reached p st succs (succs.foldl (Flow.reach p limits rid out_facts) st) := by
  induction succs using List.reverseRecOn with
  | nil => exact ⟨⟨[], by simp, by simp⟩, ⟨[], by simp, by simp, by simp⟩, by simp⟩
  | append_singleton succs y ih =>
    rw [List.foldl_concat]
    exact ih.step h hrid out_facts y

/-- Visiting a region of which there are facts. -/
lemma Flow.visit_spec (h : p.Named) {region_facts : Std.ExtTreeMap String RegionFacts} {r : Region}
    (hr : r ∈ p.regions) (hfacts : r.region_id ∈ region_facts) (st : Flow) :
    Reached p { st with completed := st.completed ++ [r.region_id] } r.succ_regions
      (st.visit p limits region_facts r.region_id) := by
  rw [Flow.visit]
  have hsome : (region_facts[r.region_id]?).isSome :=
    Std.ExtTreeMap.mem_iff_isSome_getElem?.mp hfacts
  obtain ⟨rf, hrf⟩ := Option.isSome_iff_exists.mp hsome
  rw [hrf, h.region_eq hr]
  exact Reached.foldl h (by simp) rf.out_facts r.succ_regions

/-- Visiting any region, also one of which there are no facts. -/
lemma Flow.exists_reached (h : p.Named) (region_facts : Std.ExtTreeMap String RegionFacts)
    {r : Region} (hr : r ∈ p.regions) (st : Flow) :
    ∃ succs, Reached p { st with completed := st.completed ++ [r.region_id] } succs
      (st.visit p limits region_facts r.region_id) := by
  by_cases hfacts : r.region_id ∈ region_facts
  · exact ⟨r.succ_regions, Flow.visit_spec h hr hfacts st⟩
  · refine ⟨[], ?_⟩
    rw [Flow.visit, Std.ExtTreeMap.getElem?_eq_none hfacts]
    exact ⟨⟨[], by simp, by simp⟩, ⟨[], by simp, by simp, by simp⟩, by simp⟩

end Visit

/-! ## What every visit keeps -/

/-- What holds while the regions `ready` are still to be visited in this round, whatever the facts
are. -/
structure Flow.Scheduled (p : Partition) (ready : List String) (st : Flow) : Prop where
  cover : ∀ r ∈ p.regions, r.region_id ∈ st.completed ∨ r.region_id ∈ ready ++ st.next_ready ∨
    r.region_id ∈ st.pending
  ready_done : ∀ x ∈ ready ++ st.next_ready, p.Done st.completed x
  ready_nodup : (ready ++ st.next_ready).Nodup
  ready_fresh : ∀ x ∈ ready ++ st.next_ready, x ∉ st.completed ∧ x ∉ st.pending
  pending_known : ∀ x ∈ st.pending, ∃ r ∈ p.regions, r.region_id = x
  pending_fresh : ∀ x ∈ st.pending, x ∉ st.completed
  ordered : Ordered p.Next st.completed

namespace Flow.Scheduled

variable {p : Partition} {st st' : Flow} {ready : List String}

/-- A visit keeps the schedule: the visited region is done, and the regions that it makes ready go
from the pending ones to the next round. -/
lemma reached (hp : p.Named) {r : Region} (hr : r ∈ p.regions)
    (h : st.Scheduled p (r.region_id :: ready)) {succs : List String}
    (hv : Reached p { st with completed := st.completed ++ [r.region_id] } succs st') :
    st'.Scheduled p ready := by
  obtain ⟨warns, hcompleted, hwarns⟩ := hv.completed
  obtain ⟨new, hnext, hnodup, hnew⟩ := hv.next_ready
  have hpending := hv.pending
  simp only at hcompleted hnext hnew hpending
  have hpreds : ∀ q ∈ r.pred_regions, q ∈ st.completed := by
    obtain ⟨t, ht, hid, hq⟩ := h.ready_done r.region_id (by simp)
    exact hp.eq_of_region_id ht hr hid ▸ hq
  have hnew_region : ∀ t ∈ p.regions, t.region_id ∉ warns :=
    fun t ht hin => hp.not_warning t ht (hwarns _ hin)
  have hsame : ∀ t ∈ p.regions, t.region_id ∈ st'.completed ↔
      t.region_id ∈ st.completed ∨ t.region_id = r.region_id := by
    intro t ht
    simp [hcompleted, hnew_region t ht]
  have hgrows : ∀ y ∈ st.completed, y ∈ st'.completed := by
    intro y hy
    simp [hcompleted, hy]
  have hrnodup : (r.region_id :: (ready ++ st.next_ready)).Nodup := h.ready_nodup
  have hfresh : ∀ y ∈ ready ++ st.next_ready, y ∉ st.completed ∧ y ∉ st.pending :=
    fun y hy => h.ready_fresh y (by simp only [List.cons_append, List.mem_cons]; exact .inr hy)
  refine ⟨?_, ?_, ?_, ?_, ?_, ?_, ?_⟩
  · intro t ht
    rw [hsame t ht, hnext, ← List.append_assoc, List.mem_append, hpending, hnew]
    rcases h.cover t ht with hc | hc | hc
    · exact .inl (.inl hc)
    · rcases List.mem_cons.mp hc with heq | hc
      · exact .inl (.inr heq)
      · exact .inr (.inl (.inl hc))
    · by_cases hdone : t.region_id ∈ succs ∧
        p.Done (st.completed ++ [r.region_id]) t.region_id
      · exact .inr (.inl (.inr ⟨hc, hdone⟩))
      · exact .inr (.inr ⟨hc, hdone⟩)
  · intro y hy
    rw [hnext, ← List.append_assoc, List.mem_append] at hy
    rcases hy with hy | hy
    · obtain ⟨t, ht, hty, hq⟩ := h.ready_done y
        (by simp only [List.cons_append, List.mem_cons]; exact .inr hy)
      exact ⟨t, ht, hty, fun q hmem => hgrows q (hq q hmem)⟩
    · obtain ⟨-, -, t, ht, hty, hq⟩ := (hnew y).mp hy
      refine ⟨t, ht, hty, fun q hmem => ?_⟩
      rw [hcompleted]
      exact List.mem_append_left _ (hq q hmem)
  · rw [hnext, ← List.append_assoc]
    refine List.nodup_append.mpr ⟨(List.nodup_cons.mp hrnodup).2, hnodup, ?_⟩
    rintro a ha b hb rfl
    exact (hfresh a ha).2 ((hnew a).mp hb).1
  · intro y hy
    rw [hnext, ← List.append_assoc, List.mem_append] at hy
    rw [hpending]
    rcases hy with hy | hy
    · obtain ⟨t, ht, rfl, -⟩ := h.ready_done y
        (by simp only [List.cons_append, List.mem_cons]; exact .inr hy)
      rw [hsame t ht]
      refine ⟨?_, fun hin => (hfresh _ hy).2 hin.1⟩
      rintro (hin | heq)
      · exact (hfresh _ hy).1 hin
      · exact (List.nodup_cons.mp hrnodup).1 (heq ▸ hy)
    · obtain ⟨hpend, hdone⟩ := (hnew y).mp hy
      obtain ⟨t, ht, rfl⟩ := h.pending_known y hpend
      rw [hsame t ht]
      refine ⟨?_, fun hin => hin.2 hdone⟩
      rintro (hin | heq)
      · exact h.pending_fresh _ hpend hin
      · exact (h.ready_fresh r.region_id (by simp)).2 (heq ▸ hpend)
  · intro y hy
    exact h.pending_known y ((hpending y).mp hy).1
  · intro y hy
    have hpend := ((hpending y).mp hy).1
    obtain ⟨t, ht, rfl⟩ := h.pending_known y hpend
    rw [hsame t ht]
    rintro (hin | heq)
    · exact h.pending_fresh _ hpend hin
    · exact (h.ready_fresh r.region_id (by simp)).2 (heq ▸ hpend)
  · rw [hcompleted]
    have hnone : ∀ w ∈ warns, ∀ u, ¬ p.Next u w := by
      rintro w hw u ⟨t, ht, rfl, -⟩
      exact hnew_region t ht hw
    have hvisited : Ordered p.Next (st.completed ++ [r.region_id]) := by
      refine h.ordered.concat ?_
      rintro u ⟨t, ht, hid, hu⟩
      exact hpreds u (hp.eq_of_region_id ht hr hid ▸ hu)
    -- the warnings have no predecessors
    clear hcompleted hwarns hnew_region
    induction warns using List.reverseRecOn with
    | nil => simpa using hvisited
    | append_singleton warns w ih =>
      rw [← List.append_assoc]
      refine (ih fun v hv => hnone v (by simp [hv])).concat fun u hu => ?_
      exact absurd hu (hnone w (by simp) u)

/-- What is visited has not been visited before. -/
lemma count_reached (hp : p.Named) {r : Region} (h : st.Scheduled p (r.region_id :: ready))
    {succs : List String}
    (hv : Reached p { st with completed := st.completed ++ [r.region_id] } succs st')
    (honce : ∀ t ∈ p.regions, st.completed.count t.region_id ≤ 1) :
    ∀ t ∈ p.regions, st'.completed.count t.region_id ≤ 1 := by
  intro t ht
  obtain ⟨warns, hcompleted, hwarns⟩ := hv.completed
  have hwarn : t.region_id ∉ warns := fun hin => hp.not_warning t ht (hwarns _ hin)
  rw [hcompleted, List.count_append, List.count_append, List.count_eq_zero_of_not_mem hwarn,
    List.count_singleton]
  split
  · rename_i heq
    have hnot : t.region_id ∉ st.completed := by
      rw [← beq_iff_eq.mp heq]
      exact (h.ready_fresh r.region_id (by simp)).1
    rw [List.count_eq_zero_of_not_mem hnot]
  · exact honce t ht

lemma congr {ready' : List String} (h : st.Scheduled p ready)
    (hready : ready' ++ st'.next_ready = ready ++ st.next_ready)
    (hcompleted : st'.completed = st.completed) (hpending : st'.pending = st.pending) :
    st'.Scheduled p ready' where
  cover := by rw [hready, hcompleted, hpending]; exact h.cover
  ready_done := by rw [hready, hcompleted]; exact h.ready_done
  ready_nodup := by rw [hready]; exact h.ready_nodup
  ready_fresh := by rw [hready, hcompleted, hpending]; exact h.ready_fresh
  pending_known := by rw [hpending]; exact h.pending_known
  pending_fresh := by rw [hcompleted, hpending]; exact h.pending_fresh
  ordered := by rw [hcompleted]; exact h.ordered

end Flow.Scheduled

section Start

variable {p : Partition}

lemma Partition.mem_ready {x : String} :
    x ∈ p.ready ↔ ∃ r ∈ p.regions, r.pred_regions = [] ∧ r.region_id = x := by
  simp [Partition.ready, List.mem_map, and_assoc]

lemma Flow.mem_start_pending {x : String} : x ∈ (Flow.start p).pending ↔
    ∃ r ∈ p.regions, r.pred_regions ≠ [] ∧ r.region_id = x := by
  simp [Flow.start, Std.ExtTreeSet.mem_ofList, List.mem_map, and_assoc]

lemma Flow.scheduled_start (hp : p.Named) : (Flow.start p).Scheduled p p.ready := by
  have hall : p.ready ++ (Flow.start p).next_ready = p.ready := List.append_nil _
  refine ⟨?_, ?_, ?_, ?_, ?_, ?_, ordered_nil⟩
  · intro r hr
    -- a region is ready without predecessors and pending with some
    rw [hall, Partition.mem_ready, Flow.mem_start_pending]
    by_cases hnil : r.pred_regions = []
    · exact .inr (.inl ⟨r, hr, hnil, rfl⟩)
    · exact .inr (.inr ⟨r, hr, hnil, rfl⟩)
  · intro x hx
    obtain ⟨r, hr, hnil, rfl⟩ := Partition.mem_ready.mp (hall ▸ hx)
    exact ⟨r, hr, rfl, by simp [hnil]⟩
  · rw [hall]
    exact hp.nodup.sublist (List.filter_sublist.map _)
  · intro x hx
    refine ⟨List.not_mem_nil, fun hpend => ?_⟩
    obtain ⟨r, hr, hnil, rfl⟩ := Partition.mem_ready.mp (hall ▸ hx)
    obtain ⟨t, ht, hne, heq⟩ := Flow.mem_start_pending.mp hpend
    exact hne (hp.eq_of_region_id ht hr heq ▸ hnil)
  · intro x hx
    obtain ⟨r, hr, -, heq⟩ := Flow.mem_start_pending.mp hx
    exact ⟨r, hr, heq⟩
  · exact fun x _ => List.not_mem_nil

end Start

end ReverseMcp
