import ReverseMcp.Broker.Convergence

/-!
# What the frontier leaves out

`function_hierarchical` gives facts of the regions that it has analysed, and of no others.  A region
without facts is visited like the other ones, but it hands nothing on, and it is completed all the
same.  So the frontier leaves out regions that were never analysed: all those that have only
analysed regions in front of them (`frontier_leaves_out`).
-/

namespace ReverseMcp

open Rust ReverseMcp.Graph Relation

/-- The schedule, and every pending region waits for a region that has not been visited or has no
facts to hand on. -/
structure Flow.Waits (p : Partition) (region_facts : Std.ExtTreeMap String RegionFacts)
    (ready : List String) (st : Flow) : Prop extends st.Scheduled p ready where
  blocked : ∀ t ∈ p.regions, t.region_id ∈ st.pending →
    ∃ q ∈ t.pred_regions, q ∉ st.completed ∨ q ∉ region_facts

section Loop

variable {p : Partition} {region_facts : Std.ExtTreeMap String RegionFacts}
  {limits : DataflowLimits} {clock : ℕ → ℕ}

/-- A region without facts is completed, and nothing else happens. -/
lemma Flow.visit_of_notMem {x : String} (hx : x ∉ region_facts) (st : Flow) :
    st.visit p limits region_facts x = { st with completed := st.completed ++ [x] } := by
  rw [Flow.visit, Std.ExtTreeMap.getElem?_eq_none hx]

lemma Flow.waits_start (hp : p.Linked) : (Flow.start p).Waits p region_facts p.ready where
  toScheduled := Flow.scheduled_start hp.named
  blocked := by
    intro t ht hpend
    obtain ⟨q, hq, hnot⟩ := (Flow.inv_start hp).blocked t ht hpend
    exact ⟨q, hq, .inl hnot⟩

namespace Flow.Waits

variable {st : Flow} {ready : List String}

lemma visit (hp : p.Linked) (limits : DataflowLimits) {x : String}
    (h : st.Waits p region_facts (x :: ready)) :
    (st.visit p limits region_facts x).Waits p region_facts ready := by
  obtain ⟨r, hr, rfl, -⟩ := h.ready_done x (by simp)
  obtain ⟨succs, hreached⟩ : ∃ succs, Reached p
      { st with completed := st.completed ++ [r.region_id] } succs
        (st.visit p limits region_facts r.region_id) :=
    Flow.exists_reached hp.named region_facts hr st
  refine ⟨h.toScheduled.reached hp.named hr hreached, fun t ht hpend => ?_⟩
  by_cases hfacts : r.region_id ∈ region_facts
  · have hv : Reached p { st with completed := st.completed ++ [r.region_id] } r.succ_regions
        (st.visit p limits region_facts r.region_id) :=
      Flow.visit_spec hp.named hr hfacts st
    obtain ⟨warns, hcompleted, hwarns⟩ := hv.completed
    have hpending := hv.pending
    simp only at hcompleted hpending
    obtain ⟨hpend, hnot⟩ := (hpending _).mp hpend
    by_contra hall
    push Not at hall
    have hdone : ∀ q ∈ t.pred_regions, q ∈ st.completed ∨ q = r.region_id := by
      intro q hq
      have hmem := (hall q hq).1
      rw [hcompleted, List.mem_append, List.mem_append, List.mem_singleton] at hmem
      exact hmem.resolve_right fun hin => hp.named.pred_not_warning t ht q hq (hwarns _ hin)
    by_cases hsucc : t.region_id ∈ r.succ_regions
    · refine hnot ⟨hsucc, t, ht, rfl, fun q hq => ?_⟩
      rcases hdone q hq with hq | hq
      · exact List.mem_append_left _ hq
      · simp [hq]
    · -- a region that is not behind this one was not waiting for it
      obtain ⟨q, hq, hblocked⟩ := h.blocked t ht hpend
      rcases hblocked with hnot | hnot
      · rcases hdone q hq with hq' | rfl
        · exact hnot hq'
        · exact hsucc ((hp.mirrored r hr t ht).mpr hq)
      · exact hnot (hall q hq).2
  · rw [Flow.visit_of_notMem hfacts] at hpend ⊢
    obtain ⟨q, hq, hblocked⟩ := h.blocked t ht hpend
    refine ⟨q, hq, ?_⟩
    by_cases hqr : q = r.region_id
    · exact .inr (hqr ▸ hfacts)
    · refine hblocked.imp_left fun hnot => ?_
      simp [hnot, hqr]

/-- A round keeps what holds. -/
lemma foldl_visit (hp : p.Linked) (limits : DataflowLimits)
    (h : st.Waits p region_facts ready) :
    (ready.foldl (Flow.visit p limits region_facts) st).Waits p region_facts [] := by
  induction ready generalizing st with
  | nil => exact h
  | cons x ready ih => exact ih (h.visit hp limits)

/-- The next round visits what the last one has made ready. -/
lemma next (h : st.Waits p region_facts []) :
    Flow.Waits p region_facts st.next_ready { st with next_ready := [] } where
  toScheduled := h.toScheduled.congr (by simp) rfl rfl
  blocked := h.blocked

end Flow.Waits

/-- However the loop ends, the pending regions wait, and it ends with ready regions only for the
deadline or the work budget. -/
lemma rounds_waits (hp : p.Linked) (limits : DataflowLimits) (clock : ℕ → ℕ) (left : ℕ) :
    ∀ iterations ready st,
    Flow.Waits p region_facts ready { st with next_ready := [] } →
    let s := rounds p region_facts limits clock left iterations ready st
    Flow.Waits p region_facts s.ready { s.flow with next_ready := [] } ∧
      (s.ready = [] ∨ s.stop = "deadline" ∨
        s.stop = "work budget (" ++ toString limits.max_iterations ++ ")") := by
  induction left with
  | zero =>
    intro iterations ready st h
    rw [rounds]
    split
    · rename_i hempty
      exact ⟨h, .inl (List.isEmpty_iff.mp hempty)⟩
    · exact ⟨h, .inr (.inr rfl)⟩
  | succ left ih =>
    intro iterations ready st h
    rw [rounds]
    split
    · rename_i hempty
      exact ⟨h, .inl (List.isEmpty_iff.mp hempty)⟩
    · dsimp only
      split
      · exact ⟨h, .inr (.inl rfl)⟩
      · exact ih _ _ _ (h.foldl_visit hp limits).next

/-- When the pass has ended by itself, the frontier leaves out every region that has only regions
with facts in front of it and none of them on a cycle, whether it has facts itself or not. -/
lemma frontier_leaves_out (hp : p.Linked)
    (hdeadline : (run_dataflow p region_facts limits clock).stop_reason ≠ "deadline")
    (hbudget : (run_dataflow p region_facts limits clock).stop_reason ≠
      "work budget (" ++ toString limits.max_iterations ++ ")")
    {r : Region} (hr : r ∈ p.regions)
    (hahead : ∀ q, TransGen p.Next q r.region_id → q ∈ region_facts ∧ ¬ TransGen p.Next q q) :
    r.region_id ∉ (run_dataflow p region_facts limits clock).frontier := by
  obtain ⟨hwaits, hend⟩ := rounds_waits hp limits clock
    limits.max_iterations 0 p.ready (.start p) (Flow.waits_start hp)
  rw [run_dataflow] at hdeadline hbudget ⊢
  dsimp only at hdeadline hbudget hwaits hend ⊢
  generalize rounds p region_facts limits clock limits.max_iterations 0 p.ready (.start p) = s at *
  have hready : s.ready = [] := by
    by_contra hne
    have hsettled : s.ready.isEmpty = false := by simpa using hne
    simp only [hsettled, Bool.false_and, Bool.false_eq_true, if_false] at hdeadline hbudget
    rcases hend with hnil | hstop | hstop
    · exact hne hnil
    · exact hdeadline hstop
    · exact hbudget hstop
  -- what is in front of the region and pending has something pending in front of it
  let Back (u v : String) : Prop := p.Next u v ∧ ReflTransGen p.Next v r.region_id
  have hstep : Back ≤ p.Next := fun _ _ hb => hb.1
  have hback : ∀ v, TransGen Back v v → TransGen p.Next v v ∧ TransGen p.Next v r.region_id := by
    intro v hv
    obtain ⟨u, -, -, hpath⟩ := TransGen.tail'_iff.mp hv
    have hcycle := TransGen.mono hstep v v hv
    exact ⟨hcycle, hcycle.trans_left hpath⟩
  intro hfrontier
  classical
  have hnot : r.region_id ∉ s.flow.completed := by simpa using (List.mem_filter.mp hfrontier).2
  let waiting := s.flow.pending.toList.filter fun v => ReflTransGen p.Next v r.region_id
  have hmem : ∀ v, v ∈ waiting ↔ v ∈ s.flow.pending ∧ ReflTransGen p.Next v r.region_id := by
    intro v
    rw [List.mem_filter, Std.ExtTreeSet.mem_toList, decide_eq_true_iff]
  have hpending : ∀ t ∈ p.regions, t.region_id ∉ s.flow.completed →
      t.region_id ∈ s.flow.pending := by
    intro t ht hnot
    refine ((hwaits.cover t ht).resolve_left hnot).resolve_left ?_
    simp [hready]
  have hne : waiting ≠ [] :=
    List.ne_nil_of_mem ((hmem _).mpr ⟨hpending r hr hnot, .refl⟩)
  obtain ⟨v, hv⟩ := exists_cycle (R := Back) hne fun v hv => by
    obtain ⟨hpend, hpath⟩ := (hmem v).mp hv
    obtain ⟨t, ht, rfl⟩ := hwaits.pending_known v hpend
    obtain ⟨q, hq, hblocked⟩ := hwaits.blocked t ht hpend
    have hnext : p.Next q t.region_id := ⟨t, ht, rfl, hq⟩
    have hq' := (hahead q (TransGen.head' hnext hpath)).1
    obtain ⟨u, hu, rfl⟩ := hp.closed t ht q hq
    have hnot := hblocked.resolve_right fun hno => hno hq'
    exact ⟨u.region_id, (hmem _).mpr ⟨hpending u hu hnot, .head hnext hpath⟩, hnext, hpath⟩
  obtain ⟨hcycle, hfront⟩ := hback v hv
  exact (hahead v hfront).2 hcycle

end Loop

end ReverseMcp
