import ReverseMcp.Broker.Convergence

/-!
# Cycles of the region graph

A chunk has the blocks before a loop and those behind it, so that a region graph may have cycles
that the control-flow graph does not have.  `CfgIndex.Crosses` describes the edges of the region
graph on the blocks, `next_acyclic_iff` compares it with the graph that `partition` builds, and
`partition_converges_iff` says on which graphs the fixpoint converges.
-/

namespace ReverseMcp

open Rust ReverseMcp.Graph Relation

variable {ε : Type}

/-- From a block that belongs together with `a`, an edge leads to `b`, which does not. -/
def CfgIndex.Crosses (idx : CfgIndex) (opts : PartitionOptions) (a b : ℕ) : Prop :=
  a < idx.block_eas.length ∧
    ∃ a', idx.Together opts a a' ∧ b ∈ idx.succ a' ∧ ¬ idx.Together opts a' b

namespace Partition.Sound

variable {idx : CfgIndex} {opts : PartitionOptions} {p : Partition}

lemma linked (h : p.Sound idx opts) : p.Linked where
  nodup := h.ids_nodup
  not_warning := by
    intro r hr
    have hmem : r.region_id ∈ (List.range p.regions.length).map regionId := by
      rw [← h.ids]
      exact List.mem_map.mpr ⟨r, hr, rfl⟩
    obtain ⟨n, -, hn⟩ := List.mem_map.mp hmem
    rw [← hn]
    rintro ⟨len, max, succ, hw⟩
    exact regionId_ne_capWarning n len max succ hw
  closed := by
    intro t ht q hq
    obtain ⟨r, hr, hid, -⟩ := (h.pred t ht q).mp hq
    exact ⟨r, hr, hid⟩
  mirrored := by
    intro r hr t ht
    rw [h.succ r hr, h.pred t ht]
    constructor
    · rintro ⟨t', ht', hid, hne, hleads⟩
      obtain rfl := h.eq_of_region_id ht' ht hid
      exact ⟨r, hr, rfl, hne.symm, hleads⟩
    · rintro ⟨r', hr', hid, hne, hleads⟩
      obtain rfl := h.eq_of_region_id hr' hr hid
      exact ⟨t, ht, rfl, hne.symm, hleads⟩

lemma lt_of_mem (h : p.Sound idx opts) {r : Region} (hr : r ∈ p.regions) {b : ℕ}
    (hb : b ∈ r.block_ids) : b < idx.block_eas.length := by
  rw [← List.mem_range, ← h.blocks.mem_iff]
  exact List.mem_flatten.mpr ⟨r.block_ids, List.mem_map.mpr ⟨r, hr, rfl⟩, hb⟩

lemma exists_region (h : p.Sound idx opts) {b : ℕ} (hb : b < idx.block_eas.length) :
    ∃ r ∈ p.regions, b ∈ r.block_ids := by
  obtain ⟨bs, hbs, hbr⟩ := List.mem_flatten.mp (h.blocks.mem_iff.mpr (List.mem_range.mpr hb))
  obtain ⟨r, hr, rfl⟩ := List.mem_map.mp hbs
  exact ⟨r, hr, hbr⟩

/-- The regions of two blocks are equal exactly if the blocks belong together. -/
lemma region_eq_iff (h : p.Sound idx opts) {r t : Region} (hr : r ∈ p.regions) (ht : t ∈ p.regions)
    {a b : ℕ} (ha : a ∈ r.block_ids) (hb : b ∈ t.block_ids) :
    r = t ↔ idx.Together opts a b := by
  rw [h.together_iff (h.lt_of_mem hr ha)]
  constructor
  · rintro rfl
    exact ⟨r, hr, ha, hb⟩
  · rintro ⟨s, hs, has, hbs⟩
    have hsame : ∀ c : ℕ, ∀ u ∈ p.regions, c ∈ u.block_ids → c ∈ s.block_ids → u = s := by
      intro c u hu hcu hcs
      have hmap := (h.block_region c u.region_id).mpr ⟨u, hu, rfl, hcu⟩
      rw [(h.block_region c s.region_id).mpr ⟨s, hs, rfl, hcs⟩] at hmap
      exact h.eq_of_region_id hu hs (Option.some.inj hmap).symm
    exact (hsame a r hr ha has).trans (hsame b t ht hb hbs).symm

/-- A link between regions can be followed from every block of the first one. -/
lemma crosses_of_next (h : p.Sound idx opts) {r : Region} (hr : r ∈ p.regions) {v : String}
    (hnext : p.Next r.region_id v) {a : ℕ} (ha : a ∈ r.block_ids) :
    ∃ t ∈ p.regions, t.region_id = v ∧ ∃ b ∈ t.block_ids, idx.Crosses opts a b := by
  obtain ⟨t, ht, rfl, hpred⟩ := hnext
  obtain ⟨r', hr', hid, hne, a', ha', b, hb, hedge⟩ := (h.pred t ht _).mp hpred
  obtain rfl := h.eq_of_region_id hr' hr hid
  refine ⟨t, ht, rfl, b, hb, h.lt_of_mem hr ha, a',
    (h.region_eq_iff hr hr ha ha').mp rfl, hedge, ?_⟩
  intro htog
  obtain rfl := (h.region_eq_iff hr ht ha' hb).mpr htog
  exact hne rfl

lemma next_of_crosses (h : p.Sound idx opts) (hrange : idx.InRange) {a b : ℕ}
    (hcross : idx.Crosses opts a b) :
    ∃ r ∈ p.regions, ∃ t ∈ p.regions, a ∈ r.block_ids ∧ b ∈ t.block_ids ∧
      p.Next r.region_id t.region_id := by
  obtain ⟨ha, a', htog, hedge, hnot⟩ := hcross
  obtain ⟨r, hr, har, ha'r⟩ := (h.together_iff ha).mp htog
  obtain ⟨t, ht, hbt⟩ := h.exists_region (hrange.succ_lt hedge)
  have hne : r ≠ t := fun heq => hnot ((h.region_eq_iff hr ht ha'r hbt).mp heq)
  refine ⟨r, hr, t, ht, har, hbt, t, ht, rfl, (h.pred t ht _).mpr ⟨r, hr, rfl, ?_, ?_⟩⟩
  · exact fun hid => hne (h.eq_of_region_id hr ht hid)
  · exact ⟨a', ha'r, b, hbt, hedge⟩

/-- A path of regions can be followed on the blocks. -/
lemma path_of_next (h : p.Sound idx opts) {u v : String} (hpath : TransGen p.Next u v) {r : Region}
    (hr : r ∈ p.regions) (hid : r.region_id = u) {a : ℕ} (ha : a ∈ r.block_ids) :
    ∃ t ∈ p.regions, t.region_id = v ∧ ∃ b ∈ t.block_ids, TransGen (idx.Crosses opts) a b := by
  subst hid
  induction hpath with
  | single hnext =>
    obtain ⟨t, ht, hid, b, hb, hcross⟩ := h.crosses_of_next hr hnext ha
    exact ⟨t, ht, hid, b, hb, .single hcross⟩
  | tail _ hnext ih =>
    obtain ⟨t, ht, rfl, b, hb, hpath⟩ := ih
    obtain ⟨s, hs, hid, c, hc, hcross⟩ := h.crosses_of_next ht hnext hb
    exact ⟨s, hs, hid, c, hc, hpath.tail hcross⟩

lemma next_path_of_crosses (h : p.Sound idx opts) (hrange : idx.InRange) {a b : ℕ}
    (hpath : TransGen (idx.Crosses opts) a b) :
    ∃ r ∈ p.regions, ∃ t ∈ p.regions, a ∈ r.block_ids ∧ b ∈ t.block_ids ∧
      TransGen p.Next r.region_id t.region_id := by
  induction hpath with
  | single hcross =>
    obtain ⟨r, hr, t, ht, ha, hb, hnext⟩ := h.next_of_crosses hrange hcross
    exact ⟨r, hr, t, ht, ha, hb, .single hnext⟩
  | tail _ hcross ih =>
    obtain ⟨r, hr, t, ht, ha, hb, hpath⟩ := ih
    obtain ⟨t', ht', s, hs, hb', hc, hnext⟩ := h.next_of_crosses hrange hcross
    obtain rfl : t = t' := (h.region_eq_iff ht ht' hb hb').mpr
      ((h.region_eq_iff ht ht hb hb).mp rfl)
    exact ⟨r, hr, s, hs, ha, hc, hpath.tail hnext⟩

/-- The region graph is acyclic exactly if no block comes back to itself over the edges between
blocks that do not belong together. -/
lemma next_acyclic_iff (h : p.Sound idx opts) (hrange : idx.InRange) :
    Acyclic p.Next ↔ Acyclic (idx.Crosses opts) := by
  constructor
  · intro hacyclic b hcycle
    obtain ⟨r, hr, t, ht, hb, hb', hpath⟩ := h.next_path_of_crosses hrange hcycle
    obtain rfl : r = t := (h.region_eq_iff hr ht hb hb').mpr
      ((h.region_eq_iff hr hr hb hb).mp rfl)
    exact hacyclic _ hpath
  · intro hacyclic u hcycle
    obtain ⟨v, -, t, ht, rfl, -⟩ := TransGen.tail'_iff.mp hcycle
    obtain ⟨a, ha⟩ := List.exists_mem_of_ne_nil _ (h.ne_nil t ht)
    obtain ⟨t', ht', hid, b, hb, hpath⟩ := h.path_of_next hcycle ht rfl ha
    obtain rfl := h.eq_of_region_id ht' ht hid
    -- the path ends in the region it started from, so its first step can be taken from its end
    obtain ⟨c, ⟨-, a', htog, hedge, hnot⟩, hrest⟩ := TransGen.head'_iff.mp hpath
    obtain ⟨s, hs, has, ha's⟩ := (h.together_iff (h.lt_of_mem ht ha)).mp htog
    obtain rfl : t' = s := (h.region_eq_iff ht hs ha has).mpr ((h.region_eq_iff ht ht ha ha).mp rfl)
    have hfirst : idx.Crosses opts b c :=
      ⟨h.lt_of_mem ht hb, a', (h.region_eq_iff ht ht hb ha's).mp rfl, hedge, hnot⟩
    exact hacyclic b (TransGen.head' hfirst hrest)

end Partition.Sound

/-- On the partition of a graph in range, with facts for every region, a budget of one iteration for
each region and no deadline, the fixpoint converges with every region visited and nothing left
exactly if no block comes back to itself over the edges between blocks that do not belong
together. -/
theorem partition_converges_iff (idx : CfgIndex) (opts : PartitionOptions) (hrange : idx.InRange)
    (hopts : 1 ≤ opts.max_chunk_blocks) :
    ∃ p, partition idx opts = (.ok p : Outcome ε Partition) ∧
      ∀ (region_facts : Std.ExtTreeMap String RegionFacts) (limits : DataflowLimits)
        (clock : ℕ → ℕ), (∀ r ∈ p.regions, r.region_id ∈ region_facts) →
        p.regions.length ≤ limits.max_iterations → (∀ i, clock i < limits.deadline) →
        (((run_dataflow p region_facts limits clock).converged = true ∧
          (run_dataflow p region_facts limits clock).frontier = [] ∧
          ∀ r ∈ p.regions, r.region_id ∈ (run_dataflow p region_facts limits clock).completed) ↔
          Acyclic (idx.Crosses opts)) := by
  obtain ⟨p, hp, h⟩ := partition_sound (ε := ε) hrange hopts
  refine ⟨p, hp, fun region_facts limits clock hfacts hmax hclock => ?_⟩
  rw [run_dataflow_converges_iff h.linked hfacts hmax hclock]
  exact h.next_acyclic_iff hrange

/-- The loop 1 → 2 → 1 and the chain before and behind it. -/
def loopInChain : CfgIndex :=
  ⟨[0x1000, 0x1010, 0x1020, 0x1030, 0x1040], [[1], [2], [1, 3], [4], []]⟩

/-- Empty facts for the first `n` regions. -/
def noFacts (n : ℕ) : Std.ExtTreeMap String RegionFacts :=
  ((List.range n).map regionId).foldl (fun m id => m.insert id ⟨[]⟩) ∅

/-- With chunks of one block the region graph of the loop is a chain, and the fixpoint converges. -/
theorem partition_converges_iff_chain :
    ∃ p, partition loopInChain { max_chunk_blocks := 1 } = (.ok p : Outcome Empty Partition) ∧
      (∀ r ∈ p.regions, r.region_id ∈ noFacts 4) ∧ p.regions.length = 4 ∧
      (run_dataflow p (noFacts 4) {} fun _ => 0).converged = true ∧
      Acyclic (loopInChain.Crosses { max_chunk_blocks := 1 }) := by
  have hrange : loopInChain.InRange := by decide
  obtain ⟨p, hp, hiff⟩ := partition_converges_iff (ε := Empty) loopInChain
    { max_chunk_blocks := 1 } hrange (by decide)
  have hlen : (partition loopInChain { max_chunk_blocks := 1 } >>= fun q =>
      (.ok q.regions.length : Outcome Empty ℕ)) = .ok 4 := by decide +kernel
  have hids : (partition loopInChain { max_chunk_blocks := 1 } >>= fun q =>
      (.ok (decide (∀ r ∈ q.regions, r.region_id ∈ noFacts 4)) : Outcome Empty Bool)) =
        .ok true := by decide +kernel
  have hrun : (partition loopInChain { max_chunk_blocks := 1 } >>= fun q =>
      (.ok (decide ((run_dataflow q (noFacts 4) {} fun _ => 0).converged = true ∧
        (run_dataflow q (noFacts 4) {} fun _ => 0).frontier = [] ∧
        ∀ r ∈ q.regions, r.region_id ∈ (run_dataflow q (noFacts 4) {} fun _ => 0).completed)) :
        Outcome Empty Bool)) = .ok true := by decide +kernel
  rw [hp, Outcome.ok_bind, Outcome.ok.injEq] at hlen hids hrun
  have hfacts := of_decide_eq_true hids
  have hdone := of_decide_eq_true hrun
  refine ⟨p, hp, hfacts, hlen, hdone.1, (hiff (noFacts 4) {} (fun _ => 0) hfacts ?_ ?_).mp hdone⟩
  · rw [hlen]
    decide
  · intro i
    decide

/-- With the default chunks the blocks before and behind the loop are one region, which has the loop
before and behind it: nothing is ever ready, and the fixpoint stops with all regions left. -/
theorem partition_converges_not :
    ∃ p, partition loopInChain {} = (.ok p : Outcome Empty Partition) ∧
      (∀ r ∈ p.regions, r.region_id ∈ noFacts 2) ∧ p.regions.length ≤ 32 ∧
      (run_dataflow p (noFacts 2) {} fun _ => 0).converged = false ∧
      (run_dataflow p (noFacts 2) {} fun _ => 0).completed = [] ∧
      (run_dataflow p (noFacts 2) {} fun _ => 0).frontier = ["R1", "R2"] := by
  have hrun : (partition loopInChain {} >>= fun q =>
      (.ok (decide ((∀ r ∈ q.regions, r.region_id ∈ noFacts 2) ∧ q.regions.length ≤ 32 ∧
        (run_dataflow q (noFacts 2) {} fun _ => 0).converged = false ∧
        (run_dataflow q (noFacts 2) {} fun _ => 0).completed = [] ∧
        (run_dataflow q (noFacts 2) {} fun _ => 0).frontier = ["R1", "R2"])) :
        Outcome Empty Bool)) = .ok true := by decide +kernel
  obtain ⟨p, hp, hval⟩ := Outcome.bind_eq_ok.mp hrun
  exact ⟨p, hp, of_decide_eq_true (Outcome.ok.inj hval)⟩

end ReverseMcp
