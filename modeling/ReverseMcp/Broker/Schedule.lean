import ReverseMcp.Broker.Visits

/-!
# The schedule and the join of the fixpoint

What `run_dataflow` returns, however it ended: no region is completed twice or before its
predecessors, and the frontier is what has not been completed (`dataflow_schedule`).  When it has
converged and no region was full, the facts that reached a region are those that its predecessors
hand on.
-/

namespace ReverseMcp

open Rust ReverseMcp.Graph

/-- No region was full. -/
def NoCap (completed : List String) : Prop := ∀ w ∈ completed, ¬ IsWarning w

/-- The region ids are unique, and the links between regions are there from both sides. -/
structure Partition.Mirrored (p : Partition) : Prop where
  nodup : (p.regions.map Region.region_id).Nodup
  mirrored : ∀ r ∈ p.regions, ∀ t ∈ p.regions,
    t.region_id ∈ r.succ_regions ↔ r.region_id ∈ t.pred_regions

/-- Neither a region nor a predecessor has the text of a fact cap for its id. -/
def Partition.Apart (p : Partition) : Prop :=
  ∀ r ∈ p.regions, ¬ IsWarning r.region_id ∧ ∀ q ∈ r.pred_regions, ¬ IsWarning q

lemma Partition.Mirrored.named {p : Partition} (h : p.Mirrored) (hapart : p.Apart) : p.Named where
  nodup := h.nodup
  not_warning r hr := (hapart r hr).1
  pred_not_warning t ht := (hapart t ht).2

/-- A completed predecessor of the region hands the fact on. -/
def Delivered (region_facts : Std.ExtTreeMap String RegionFacts) (t : Region)
    (completed : List String) (f : Fact) : Prop :=
  ∃ q ∈ t.pred_regions, q ∈ completed ∧ ∃ rf, region_facts[q]? = some rf ∧ f ∈ rf.out_facts

/-! ## The facts of one visit -/

section Facts

variable {p : Partition} {limits : DataflowLimits} {st : Flow}

/-- A join that does not come to the cap is a union. -/
lemma joinFacts_union (max : ℕ) (succ : String) (fs : List Fact) :
    ∀ entry completed, NoCap (joinFacts max succ fs entry completed).2 →
      (joinFacts max succ fs entry completed).2 = completed ∧
      ∀ f, f ∈ (joinFacts max succ fs entry completed).1 ↔ f ∈ entry ∨ f ∈ fs := by
  induction fs with
  | nil =>
    intro entry completed _
    simp [joinFacts]
  | cons g fs ih =>
    intro entry completed hcap
    rw [joinFacts] at hcap ⊢
    split
    · rename_i hg
      rw [if_pos hg] at hcap
      obtain ⟨hsame, hmem⟩ := ih entry completed hcap
      refine ⟨hsame, ?_⟩
      intro f
      rw [hmem, List.mem_cons]
      by_cases hf : f = g
      · simp [hf, hg]
      · simp [hf]
    · rename_i hg
      rw [if_neg hg] at hcap
      split
      · rename_i hroom
        rw [if_pos hroom] at hcap
        obtain ⟨hsame, hmem⟩ := ih (entry ++ [g]) completed hcap
        refine ⟨hsame, ?_⟩
        intro f
        rw [hmem, List.mem_append, List.mem_singleton, List.mem_cons, or_assoc]
      · rename_i hfull
        rw [if_neg hfull] at hcap
        exact absurd ⟨_, _, _, rfl⟩ (hcap (capWarning entry.length max succ) (by simp))

lemma Flow.reach_union {rid : String} {out_facts : List Fact} {succ : String}
    (hcap : NoCap (Flow.reach p limits rid out_facts st succ).completed) :
    (Flow.reach p limits rid out_facts st succ).completed = st.completed ∧
    ∀ y f, f ∈ (Flow.reach p limits rid out_facts st succ).in_facts[y]?.getD [] ↔
      f ∈ st.in_facts[y]?.getD [] ∨ (y = succ ∧ f ∈ out_facts) := by
  have hjoin := joinFacts_union limits.max_facts_per_region succ out_facts
    (st.in_facts[succ]?.getD []) st.completed
  -- whether the successor becomes ready does not matter for the facts
  have hcompleted : (Flow.reach p limits rid out_facts st succ).completed =
      (joinFacts limits.max_facts_per_region succ out_facts (st.in_facts[succ]?.getD [])
        st.completed).2 := by
    rw [Flow.reach]
    dsimp only
    split
    · rfl
    · rfl
  have hfacts : (Flow.reach p limits rid out_facts st succ).in_facts =
      st.in_facts.insert succ (joinFacts limits.max_facts_per_region succ out_facts
        (st.in_facts[succ]?.getD []) st.completed).1 := by
    rw [Flow.reach]
    dsimp only
    split
    · rfl
    · rfl
  rw [hcompleted] at hcap
  obtain ⟨hsame, hmem⟩ := hjoin hcap
  refine ⟨hcompleted.trans hsame, ?_⟩
  intro y f
  rw [hfacts, getElem?_insert_eq_ite]
  by_cases hy : y = succ
  · rw [if_pos hy, Option.getD_some, hmem, hy]
    simp
  · rw [if_neg hy]
    simp [hy]

lemma Flow.foldl_reach_union {rid : String} {out_facts : List Fact} (succs : List String)
    (hcap : NoCap (succs.foldl (Flow.reach p limits rid out_facts) st).completed) :
    (succs.foldl (Flow.reach p limits rid out_facts) st).completed = st.completed ∧
    ∀ y f, f ∈ (succs.foldl (Flow.reach p limits rid out_facts) st).in_facts[y]?.getD [] ↔
      f ∈ st.in_facts[y]?.getD [] ∨ (y ∈ succs ∧ f ∈ out_facts) := by
  induction succs using List.reverseRecOn with
  | nil => simp
  | append_singleton succs succ ih =>
    rw [List.foldl_concat] at hcap ⊢
    obtain ⟨hsame, hmem⟩ := Flow.reach_union hcap
    rw [hsame] at hcap
    obtain ⟨hsame', hmem'⟩ := ih hcap
    refine ⟨hsame.trans hsame', ?_⟩
    intro y f
    rw [hmem, hmem', List.mem_append, List.mem_singleton, or_assoc, or_and_right]

/-- A visit hands the facts of the region on to its successors. -/
lemma Flow.visit_union (hp : p.Named) {region_facts : Std.ExtTreeMap String RegionFacts}
    {r : Region} (hr : r ∈ p.regions)
    (hcap : NoCap (st.visit p limits region_facts r.region_id).completed) :
    (st.visit p limits region_facts r.region_id).completed = st.completed ++ [r.region_id] ∧
    ∀ y f, f ∈ (st.visit p limits region_facts r.region_id).in_facts[y]?.getD [] ↔
      f ∈ st.in_facts[y]?.getD [] ∨ (y ∈ r.succ_regions ∧
        ∃ rf : RegionFacts, region_facts[r.region_id]? = some rf ∧ f ∈ rf.out_facts) := by
  rw [Flow.visit] at hcap ⊢
  cases hrf : region_facts[r.region_id]? with
  | none => simp
  | some rf =>
    rw [hrf, hp.region_eq hr] at hcap
    rw [hp.region_eq hr]
    obtain ⟨hsame, hmem⟩ := Flow.foldl_reach_union _ hcap
    refine ⟨hsame, ?_⟩
    intro y f
    rw [hmem]
    simp

end Facts

/-! ## What the loop keeps -/

/-- The schedule, and with no region full the facts that the completed regions have handed on. -/
structure Flow.Kept (p : Partition) (region_facts : Std.ExtTreeMap String RegionFacts)
    (ready : List String) (st : Flow) : Prop extends st.Scheduled p ready where
  once : ∀ t ∈ p.regions, st.completed.count t.region_id ≤ 1
  joined : NoCap st.completed → ∀ t ∈ p.regions, ∀ f,
    f ∈ st.in_facts[t.region_id]?.getD [] ↔ Delivered region_facts t st.completed f

section Loop

variable {p : Partition} {region_facts : Std.ExtTreeMap String RegionFacts}
  {limits : DataflowLimits} {clock : ℕ → ℕ}

lemma Flow.kept_start (hp : p.Named) : (Flow.start p).Kept p region_facts p.ready where
  toScheduled := Flow.scheduled_start hp
  once t _ := by simp [Flow.start]
  joined _ t _ f := by simp [Flow.start, Delivered]

namespace Flow.Kept

variable {st : Flow} {ready : List String}

lemma visit (hp : p.Mirrored) (hapart : p.Apart) (limits : DataflowLimits) {x : String}
    (h : st.Kept p region_facts (x :: ready)) :
    (st.visit p limits region_facts x).Kept p region_facts ready := by
  have hnamed := hp.named hapart
  obtain ⟨r, hr, rfl, -⟩ := h.ready_done x (by simp)
  obtain ⟨succs, hv⟩ : ∃ succs, Reached p { st with completed := st.completed ++ [r.region_id] }
      succs (st.visit p limits region_facts r.region_id) :=
    Flow.exists_reached hnamed region_facts hr st
  refine ⟨h.toScheduled.reached hnamed hr hv, ?_, ?_⟩
  · exact Scheduled.count_reached hnamed h.toScheduled hv h.once
  · intro hcap t ht f
    obtain ⟨hcompleted, hmem⟩ := Flow.visit_union hnamed hr hcap
    rw [hcompleted] at hcap
    have hcap' : NoCap st.completed := fun w hw => hcap w (by simp [hw])
    rw [hmem, h.joined hcap' t ht, hp.mirrored r hr t ht, hcompleted, Delivered, Delivered]
    constructor
    · rintro (⟨q, hq, hdone, hrf⟩ | ⟨hq, hrf⟩)
      · exact ⟨q, hq, by simp [hdone], hrf⟩
      · exact ⟨r.region_id, hq, by simp, hrf⟩
    · rintro ⟨q, hq, hdone, hrf⟩
      rcases List.mem_append.mp hdone with hdone | hdone
      · exact .inl ⟨q, hq, hdone, hrf⟩
      · rw [List.mem_singleton.mp hdone] at hq hrf
        exact .inr ⟨hq, hrf⟩

/-- A round keeps what holds. -/
lemma foldl_visit (hp : p.Mirrored) (hapart : p.Apart) (limits : DataflowLimits) :
    ∀ {ready : List String} {st : Flow}, st.Kept p region_facts ready →
      (ready.foldl (Flow.visit p limits region_facts) st).Kept p region_facts [] := by
  intro ready
  induction ready with
  | nil =>
    intro st h
    exact h
  | cons x ready ih =>
    intro st h
    exact ih (h.visit hp hapart limits)

/-- The next round visits what the last one has made ready. -/
lemma next (h : st.Kept p region_facts ready) {ready' : List String} {st' : Flow}
    (hready : ready' ++ st'.next_ready = ready ++ st.next_ready)
    (hcompleted : st'.completed = st.completed) (hpending : st'.pending = st.pending)
    (hfacts : st'.in_facts = st.in_facts) : st'.Kept p region_facts ready' where
  toScheduled := h.toScheduled.congr hready hcompleted hpending
  once := by rw [hcompleted]; exact h.once
  joined := by rw [hcompleted, hfacts]; exact h.joined

end Flow.Kept

/-- However the loop ends. -/
lemma rounds_kept (hp : p.Mirrored) (hapart : p.Apart) (left : ℕ) : ∀ iterations ready st,
    Flow.Kept p region_facts ready { st with next_ready := [] } →
    Flow.Kept p region_facts (rounds p region_facts limits clock left iterations ready st).ready
      { (rounds p region_facts limits clock left iterations ready st).flow with
        next_ready := [] } := by
  induction left with
  | zero =>
    intro iterations ready st h
    rw [rounds]
    split
    · exact h
    · exact h
  | succ left ih =>
    intro iterations ready st h
    rw [rounds]
    split
    · exact h
    · dsimp only
      split
      · exact h
      · refine ih _ _ _ ?_
        exact (h.foldl_visit hp hapart limits).next (by simp) rfl rfl rfl

/-- In every run over regions with unique ids and mirrored links, none of which has the text of a
fact cap for its id, each region is completed at most once and behind its predecessors, the frontier
is what has not been completed, and after a run that has converged without a full region the facts
that have reached a region are those of its predecessors. -/
theorem dataflow_schedule (hp : p.Mirrored) (hapart : p.Apart) :
    (∀ r ∈ p.regions,
      (run_dataflow p region_facts limits clock).completed.count r.region_id ≤ 1) ∧
    Ordered p.Next (run_dataflow p region_facts limits clock).completed ∧
    (∀ x, x ∈ (run_dataflow p region_facts limits clock).frontier ↔
      (∃ r ∈ p.regions, r.region_id = x) ∧
        x ∉ (run_dataflow p region_facts limits clock).completed) ∧
    ((run_dataflow p region_facts limits clock).converged = true →
      NoCap (run_dataflow p region_facts limits clock).completed →
      ∀ t ∈ p.regions, ∀ f,
        f ∈ (run_dataflow p region_facts limits clock).in_facts[t.region_id]?.getD [] ↔
          ∃ q ∈ t.pred_regions, ∃ rf, region_facts[q]? = some rf ∧ f ∈ rf.out_facts) := by
  rw [run_dataflow]
  dsimp only
  have hkept : Flow.Kept p region_facts
      (rounds p region_facts limits clock limits.max_iterations 0 p.ready (.start p)).ready
      { (rounds p region_facts limits clock limits.max_iterations 0 p.ready (.start p)).flow with
        next_ready := [] } :=
    rounds_kept hp hapart limits.max_iterations 0 p.ready (.start p)
      (Flow.kept_start (hp.named hapart))
  generalize rounds p region_facts limits clock limits.max_iterations 0 _ _ = s at *
  refine ⟨hkept.once, hkept.ordered, ?_, ?_⟩
  · intro x
    simp [List.mem_filter]
  · intro hconverged hcap t ht f
    rw [hkept.joined hcap t ht, Delivered]
    -- nothing is ready or pending, so the region is completed and its predecessors came before it
    rw [Bool.and_eq_true, Bool.and_eq_true, List.isEmpty_iff] at hconverged
    obtain ⟨⟨hready, -⟩, hpending⟩ := hconverged
    have hdone : t.region_id ∈ s.flow.completed := by
      rcases hkept.cover t ht with hc | hc | hc
      · exact hc
      · simp [hready] at hc
      · rw [Std.ExtTreeSet.isEmpty_iff] at hpending
        simp [hpending] at hc
    obtain ⟨front, back, hsplit⟩ := List.append_of_mem hdone
    constructor
    · rintro ⟨q, hq, -, hrf⟩
      exact ⟨q, hq, hrf⟩
    · rintro ⟨q, hq, hrf⟩
      refine ⟨q, hq, ?_, hrf⟩
      have hbefore : q ∈ front := hkept.ordered front _ back hsplit q ⟨t, ht, rfl, hq⟩
      rw [hsplit]
      exact List.mem_append_left _ hbefore

end Loop

/-- A region with its links. -/
def linkRegion (id : String) (preds succs : List String) : Region :=
  ⟨id, .chunk, [], [], [], [], preds, succs, "test"⟩

/-- The facts of one region. -/
def oneFact (id : String) : Std.ExtTreeMap String RegionFacts :=
  (∅ : Std.ExtTreeMap String RegionFacts).insert id ⟨[⟨"const:eax", some 42, .confirmed⟩]⟩

/-- Two regions in a row. -/
def regionPair : Partition :=
  ⟨1, 0, [linkRegion "R1" [] ["R2"], linkRegion "R2" ["R1"] []], ∅, []⟩

/-- The fact of the first region has reached the second one. -/
theorem dataflow_schedule_pair :
    (run_dataflow regionPair (oneFact "R1") {} fun _ => 0).converged = true ∧
    (run_dataflow regionPair (oneFact "R1") {} fun _ => 0).completed = ["R1", "R2"] ∧
    ∀ f, f ∈ (run_dataflow regionPair (oneFact "R1") {} fun _ => 0).in_facts["R2"]?.getD [] ↔
      ∃ q ∈ ["R1"], ∃ rf, (oneFact "R1")[q]? = some rf ∧ f ∈ rf.out_facts := by
  have hfirst : ¬ IsWarning "R1" := by
    rintro ⟨len, max, succ, h⟩
    have hid : regionId 0 = "R1" := by decide
    exact regionId_ne_capWarning 0 len max succ (hid.trans h)
  have hsecond : ¬ IsWarning "R2" := by
    rintro ⟨len, max, succ, h⟩
    have hid : regionId 1 = "R2" := by decide
    exact regionId_ne_capWarning 1 len max succ (hid.trans h)
  have hmirrored : regionPair.Mirrored := ⟨by decide, by decide⟩
  have hapart : regionPair.Apart := by
    intro r hr
    simp only [regionPair, linkRegion, List.mem_cons, List.not_mem_nil, or_false] at hr
    rcases hr with rfl | rfl
    · exact ⟨hfirst, by simp⟩
    · exact ⟨hsecond, by simpa using hfirst⟩
  have hcompleted : (run_dataflow regionPair (oneFact "R1") {} fun _ => 0).completed =
      ["R1", "R2"] := by decide +kernel
  have hjoin : _ → NoCap (run_dataflow regionPair (oneFact "R1") {} fun _ => 0).completed → _ :=
    (dataflow_schedule hmirrored hapart).2.2.2
  have hconverged : (run_dataflow regionPair (oneFact "R1") {} fun _ => 0).converged = true := by
    decide +kernel
  refine ⟨hconverged, hcompleted, hjoin hconverged ?_ (linkRegion "R2" ["R1"] []) (by decide)⟩
  rw [hcompleted]
  intro w hw
  simp only [List.mem_cons, List.not_mem_nil, or_false] at hw
  rcases hw with rfl | rfl
  · exact hfirst
  · exact hsecond

/-- Three regions, one of which has the text of a fact cap for its id. -/
def cappedRegions : Partition :=
  ⟨1, 0, [linkRegion "A" [] ["B"], linkRegion "WARN: fact cap 0/0 reached at B" [] [],
    linkRegion "B" ["A"] []], ∅, []⟩

/-- A region that has the text of a fact cap for its id is completed twice. -/
theorem dataflow_schedule_not :
    cappedRegions.Mirrored ∧
    (run_dataflow cappedRegions (oneFact "A") { max_facts_per_region := 0 } fun _ => 0).completed =
      ["A", "WARN: fact cap 0/0 reached at B", "WARN: fact cap 0/0 reached at B", "B"] :=
  ⟨⟨by decide, by decide⟩, by decide +kernel⟩

end ReverseMcp
