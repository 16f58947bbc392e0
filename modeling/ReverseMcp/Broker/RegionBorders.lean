import ReverseMcp.Broker.RegionGraph

/-!
# Entries and exits of a region

The exits of a region are its blocks with a successor outside, or with none.  Its entries should be
the blocks with a predecessor outside, or with none; the code asks instead whether such a block has
no successor in the region, or whether it is the only one.  `region_borders_iff` is what the graph
must satisfy at a region for the two to agree.
-/

namespace ReverseMcp

open Rust ReverseMcp.Graph

variable {ε : Type}

namespace CfgIndex

variable {idx : CfgIndex} {opts : PartitionOptions} {blocks : List ℕ} {b : ℕ}

/-- The block is entered from outside, or from nowhere. -/
def Entry (idx : CfgIndex) (blocks : List ℕ) (b : ℕ) : Prop :=
  (∃ p, p ∉ blocks ∧ b ∈ idx.succ p) ∨ ∀ p, b ∉ idx.succ p

/-- The block leads to the outside, or nowhere. -/
def Exit (idx : CfgIndex) (blocks : List ℕ) (b : ℕ) : Prop :=
  (∃ s ∈ idx.succ b, s ∉ blocks) ∨ idx.succ b = []

/-- The block is listed as an entry: it is entered from outside, it leads to no block of the region,
or it is the only one. -/
def ListedEntry (idx : CfgIndex) (blocks : List ℕ) (b : ℕ) : Prop :=
  (∃ p, p ∉ blocks ∧ b ∈ idx.succ p) ∨ (∀ s ∈ idx.succ b, s ∉ blocks) ∨ blocks.length = 1

/-- In the region of the block `a`, a block that is not entered from outside is entered from nowhere
exactly when it leads to no block of the region or is the only one. -/
def EntriesAgree (idx : CfgIndex) (opts : PartitionOptions) (a : ℕ) : Prop :=
  ∀ b, idx.Together opts a b → (∀ p, b ∈ idx.succ p → idx.Together opts a p) →
    ((∀ p, b ∉ idx.succ p) ↔
      (∀ s ∈ idx.succ b, ¬ idx.Together opts a s) ∨ ∀ c, idx.Together opts a c → c = b)

/-! ## What is listed -/

lemma row_eq_ok {row : List ℕ} (h : idx.row b = (.ok row : Outcome ε (List ℕ))) :
    row = idx.succ b := by
  rw [CfgIndex.row] at h
  rw [succ]
  split at h
  · next hrow =>
    cases h
    rw [hrow, Option.getD_some]
  · cases h

lemma mem_pushIf {c : Bool} {l l' : List U64}
    (h : idx.pushIf c b l = (.ok l' : Outcome ε (List U64)))
    (ea : U64) : ea ∈ l' ↔ ea ∈ l ∨ (c = true ∧ idx.block_eas[b]? = some ea) := by
  rw [pushIf] at h
  cases c with
  | false =>
    cases h
    simp
  | true =>
    rw [if_pos rfl, block_ea] at h
    split at h
    · next ea' hea =>
      cases h
      rw [List.mem_append, List.mem_singleton, hea, Option.some.injEq]
      simp [eq_comm]
    · cases h

/-- Some row outside the region has the block. -/
lemma any_row_iff : (idx.succs.zipIdx.any fun p => !blocks.contains p.2 && p.1.contains b) = true ↔
    ∃ p, p ∉ blocks ∧ b ∈ idx.succ p := by
  rw [List.any_eq_true]
  constructor
  · rintro ⟨⟨row, p⟩, hmem, hp⟩
    have hrow : idx.succs[p]? = some row := List.mem_zipIdx_iff_getElem?.mp hmem
    simp only [Bool.and_eq_true, Bool.not_eq_true', List.contains_eq_mem, decide_eq_true_eq,
      decide_eq_false_iff_not] at hp
    refine ⟨p, hp.1, ?_⟩
    rw [succ, hrow]
    exact hp.2
  · rintro ⟨p, hp, hb⟩
    rw [succ] at hb
    cases hrow : idx.succs[p]? with
    | none => simp [hrow] at hb
    | some row =>
      rw [hrow, Option.getD_some] at hb
      exact ⟨(row, p), List.mem_zipIdx_iff_getElem?.mpr hrow, by simp [hp, hb]⟩

/-- One round of the loop adds the block to the lists it belongs to. -/
lemma mem_entryExit {acc acc' : List U64 × List U64}
    (h : idx.entryExit blocks acc b = (.ok acc' : Outcome ε (List U64 × List U64))) (ea : U64) :
    (ea ∈ acc'.1 ↔ ea ∈ acc.1 ∨ (idx.ListedEntry blocks b ∧ idx.block_eas[b]? = some ea)) ∧
      (ea ∈ acc'.2 ↔ ea ∈ acc.2 ∨ (idx.Exit blocks b ∧ idx.block_eas[b]? = some ea)) := by
  rw [entryExit] at h
  obtain ⟨row, hrow, h⟩ := Outcome.bind_eq_ok.mp h
  obtain rfl := row_eq_ok hrow
  obtain ⟨entry, hentry, h⟩ := Outcome.bind_eq_ok.mp h
  obtain ⟨exit, hexit, h⟩ := Outcome.bind_eq_ok.mp h
  cases h
  rw [mem_pushIf hentry, mem_pushIf hexit]
  refine ⟨or_congr_right (and_congr_left fun _ => ?_), or_congr_right (and_congr_left fun _ => ?_)⟩
  · rw [Bool.or_eq_true, Bool.or_eq_true, Bool.and_eq_true, any_row_iff, Bool.not_eq_true',
      Bool.not_eq_true', ← Bool.not_eq_true, ← Bool.not_eq_true, any_row_iff,
      ListedEntry, beq_iff_eq]
    have hinner : ¬ (idx.succ b).any (fun s => blocks.contains s) = true ↔
        ∀ s ∈ idx.succ b, s ∉ blocks := by simp
    rw [hinner]
    by_cases hext : ∃ p, p ∉ blocks ∧ b ∈ idx.succ p
    · exact iff_of_true (.inl (.inl hext)) (.inl hext)
    · rw [or_iff_right hext, or_iff_right hext, and_iff_left hext]
  · rw [Bool.or_eq_true, Exit]
    simp

/-- The lists of a region, whatever the order of its blocks. -/
lemma mem_entry_exit_blocks {entry exit : List U64}
    (h : idx.entry_exit_blocks blocks = (.ok (entry, exit) : Outcome ε (List U64 × List U64)))
    (ea : U64) :
    (ea ∈ entry ↔ ∃ b ∈ blocks, idx.ListedEntry blocks b ∧ idx.block_eas[b]? = some ea) ∧
      (ea ∈ exit ↔ ∃ b ∈ blocks, idx.Exit blocks b ∧ idx.block_eas[b]? = some ea) := by
  rw [entry_exit_blocks] at h
  obtain ⟨⟨entry', exit'⟩, hloop, h⟩ := Outcome.bind_eq_ok.mp h
  cases h
  rw [(sortByKey_perm id entry').mem_iff, (sortByKey_perm id exit').mem_iff]
  refine Outcome.foldList_invariant (I := fun front acc =>
    (ea ∈ acc.1 ↔ ∃ b ∈ front, idx.ListedEntry blocks b ∧ idx.block_eas[b]? = some ea) ∧
      (ea ∈ acc.2 ↔ ∃ b ∈ front, idx.Exit blocks b ∧ idx.block_eas[b]? = some ea))
    hloop (by simp) fun front b acc acc' hacc hstep => ?_
  obtain ⟨hentry, hexit⟩ := mem_entryExit hstep ea
  rw [hentry, hexit, hacc.1, hacc.2]
  simp only [List.mem_append, List.mem_singleton, or_and_right, exists_or, exists_eq_left, and_self]

end CfgIndex

/-- The lists of a region are the sets of its entries and exits. -/
structure Region.Bordered (idx : CfgIndex) (r : Region) : Prop where
  entry : ∀ ea, ea ∈ r.entry_blocks ↔
    ∃ b ∈ r.block_ids, idx.Entry r.block_ids b ∧ idx.block_eas[b]? = some ea
  exit : ∀ ea, ea ∈ r.exit_blocks ↔
    ∃ b ∈ r.block_ids, idx.Exit r.block_ids b ∧ idx.block_eas[b]? = some ea

section Partition

variable {idx : CfgIndex} {opts : PartitionOptions} {p : Partition}

/-- The lists of every region are those computed from its blocks. -/
lemma partition_borders (h : partition idx opts = (.ok p : Outcome ε Partition)) :
    ∀ r ∈ p.regions, idx.entry_exit_blocks r.block_ids =
      (.ok (r.entry_blocks, r.exit_blocks) : Outcome ε (List U64 × List U64)) := by
  rw [partition] at h
  obtain ⟨gs, -, h⟩ := Outcome.bind_eq_ok.mp h
  obtain ⟨g, hpush, h⟩ := Outcome.bind_eq_ok.mp h
  obtain ⟨links, -, h⟩ := Outcome.bind_eq_ok.mp h
  cases h
  have hgrown : ∀ r ∈ g.regions, idx.entry_exit_blocks r.block_ids =
      (.ok (r.entry_blocks, r.exit_blocks) : Outcome ε (List U64 × List U64)) := by
    refine Outcome.foldList_invariant (I := fun _ (g : Growing) => ∀ r ∈ g.regions,
      idx.entry_exit_blocks r.block_ids =
        (.ok (r.entry_blocks, r.exit_blocks) : Outcome ε (List U64 × List U64)))
      hpush (by simp) fun _ x g g' hg hstep r hr => ?_
    rw [Growing.push] at hstep
    obtain ⟨⟨entry, exit⟩, hlists, hstep⟩ := Outcome.bind_eq_ok.mp hstep
    obtain ⟨eas, -, hstep⟩ := Outcome.bind_eq_ok.mp hstep
    cases hstep
    rcases List.mem_append.mp hr with hr | hr
    · exact hg r hr
    · rw [List.mem_singleton.mp hr]
      exact hlists
  intro r hr
  obtain ⟨r, hr', rfl⟩ := List.mem_map.mp hr
  rw [attach_eq]
  exact hgrown r hr'

/-- Chunks of no blocks are refused with a panic. -/
lemma partition_chunks_pos (h : partition idx opts = (.ok p : Outcome ε Partition)) :
    1 ≤ opts.max_chunk_blocks := by
  rw [partition] at h
  obtain ⟨gs, hgs, -⟩ := Outcome.bind_eq_ok.mp h
  rw [CfgIndex.groups] at hgs
  obtain ⟨sccs, -, hgs⟩ := Outcome.bind_eq_ok.mp hgs
  obtain ⟨in_loop, -, hgs⟩ := Outcome.bind_eq_ok.mp hgs
  obtain ⟨pieces, hpieces, -⟩ := Outcome.bind_eq_ok.mp hgs
  rw [chunks] at hpieces
  split at hpieces
  · cases hpieces
  · omega

/-- A region is the class of each of its blocks. -/
lemma Partition.Sound.mem_region_iff (h : p.Sound idx opts) {r : Region}
    (hr : r ∈ p.regions) {a : ℕ}
    (ha : a ∈ r.block_ids) (b : ℕ) : b ∈ r.block_ids ↔ idx.Together opts a b := by
  have halt : a < idx.block_eas.length := List.mem_range.mp
    (h.blocks.mem_iff.mp (List.mem_flatten.mpr ⟨_, List.mem_map.mpr ⟨r, hr, rfl⟩, ha⟩))
  rw [h.together_iff halt]
  constructor
  · intro hb
    exact ⟨r, hr, ha, hb⟩
  · rintro ⟨t, ht, hat, hbt⟩
    -- the block map names one region for the block
    have hmap := (h.block_region a t.region_id).mpr ⟨t, ht, rfl, hat⟩
    rw [(h.block_region a r.region_id).mpr ⟨r, hr, rfl, ha⟩] at hmap
    exact h.eq_of_region_id hr ht (Option.some.inj hmap) ▸ hbt

lemma Partition.Sound.block_ids_nodup (h : p.Sound idx opts) {r : Region} (hr : r ∈ p.regions) :
    r.block_ids.Nodup :=
  (h.blocks.nodup_iff.mpr List.nodup_range).sublist
    (List.sublist_flatten_of_mem (List.mem_map.mpr ⟨r, hr, rfl⟩))

end Partition

/-- In a list without repetition that has the element, no other element is left out by its
length. -/
lemma length_eq_one_iff_of_nodup {l : List ℕ} (hl : l.Nodup) {b : ℕ} (hb : b ∈ l) :
    l.length = 1 ↔ ∀ c ∈ l, c = b := by
  constructor
  · intro hone c hc
    obtain ⟨d, rfl⟩ := List.length_eq_one_iff.mp hone
    rw [List.mem_singleton.mp hc, List.mem_singleton.mp hb]
  · intro hall
    exact le_antisymm (length_le_one_of_nodup hl hall) (List.length_pos_of_mem hb)

/-- Addresses tell blocks apart. -/
lemma CfgIndex.block_inj {idx : CfgIndex} (hnodup : idx.block_eas.Nodup) {a b : ℕ} {ea : U64}
    (ha : idx.block_eas[a]? = some ea) (hb : idx.block_eas[b]? = some ea) : a = b := by
  obtain ⟨hlt, ha⟩ := List.getElem?_eq_some_iff.mp ha
  obtain ⟨hlt', hb⟩ := List.getElem?_eq_some_iff.mp hb
  exact (hnodup.getElem_inj_iff).mp (ha.trans hb.symm)

/-- In every partition of a graph in range with distinct addresses, the lists of a region are its
entries and its exits iff the graph satisfies the condition at the region. -/
theorem region_borders_iff (idx : CfgIndex) (opts : PartitionOptions) (p : Partition)
    (hrange : idx.InRange) (hnodup : idx.block_eas.Nodup)
    (hp : partition idx opts = (.ok p : Outcome ε Partition)) :
    ∀ r ∈ p.regions, ∀ a ∈ r.block_ids, r.Bordered idx ↔ idx.EntriesAgree opts a := by
  intro r hr a ha
  obtain ⟨p', hp', hsound⟩ := partition_sound (ε := ε) hrange (partition_chunks_pos hp)
  obtain rfl : p = p' := Outcome.ok.inj (hp.symm.trans hp')
  have hlisted := CfgIndex.mem_entry_exit_blocks (partition_borders hp r hr)
  have hmem := hsound.mem_region_iff hr ha
  have hlt : ∀ b ∈ r.block_ids, b < idx.block_eas.length := fun b hb => List.mem_range.mp
    (hsound.blocks.mem_iff.mp (List.mem_flatten.mpr ⟨_, List.mem_map.mpr ⟨r, hr, rfl⟩, hb⟩))
  -- block by block, since no two blocks share an address
  have hblocks : r.Bordered idx ↔
      ∀ b ∈ r.block_ids, idx.ListedEntry r.block_ids b ↔ idx.Entry r.block_ids b := by
    constructor
    · intro h b hb
      have hlen := hlt b hb
      have hea := List.getElem?_eq_getElem hlen
      have hiff := (hlisted _).1.symm.trans (h.entry idx.block_eas[b])
      constructor
      · intro hentry
        obtain ⟨b', -, hentry', hea'⟩ := hiff.mp ⟨b, hb, hentry, hea⟩
        exact CfgIndex.block_inj hnodup hea' hea ▸ hentry'
      · intro hentry
        obtain ⟨b', -, hentry', hea'⟩ := hiff.mpr ⟨b, hb, hentry, hea⟩
        exact CfgIndex.block_inj hnodup hea' hea ▸ hentry'
    · intro h
      refine ⟨fun ea => (hlisted ea).1.trans (exists_congr fun b => and_congr_right fun hb => ?_),
        fun ea => (hlisted ea).2⟩
      rw [h b hb]
  rw [hblocks, CfgIndex.EntriesAgree]
  refine forall_congr' fun b => ?_
  rw [hmem]
  refine imp_congr_right fun htog => ?_
  have hb : b ∈ r.block_ids := (hmem b).mpr htog
  have hone := length_eq_one_iff_of_nodup (hsound.block_ids_nodup hr) hb
  simp only [CfgIndex.ListedEntry, CfgIndex.Entry, hone, hmem]
  by_cases hext : ∃ q, ¬ idx.Together opts a q ∧ b ∈ idx.succ q
  · refine iff_of_true (iff_of_true (.inl hext) (.inl hext)) fun hin => ?_
    obtain ⟨q, hq, hbq⟩ := hext
    exact absurd (hin q hbq) hq
  · have hin : ∀ q, b ∈ idx.succ q → idx.Together opts a q := by
      intro q hbq
      by_contra hq
      exact hext ⟨q, hq, hbq⟩
    rw [or_iff_right hext, or_iff_right hext]
    exact ⟨fun h _ => h.symm, fun h => (h hin).symm⟩

/-- A loop with a block before it: the loop and the block have their entries. -/
theorem region_borders_iff_loop :
    let idx : CfgIndex := ⟨[0x1000, 0x1010, 0x1020], [[1], [2], [1]]⟩
    ∃ p, partition idx {} = (.ok p : Outcome Empty Partition) ∧
      ∀ r ∈ p.regions, ∀ a ∈ r.block_ids, r.Bordered idx ↔ idx.EntriesAgree {} a := by
  have hrange : CfgIndex.InRange ⟨[0x1000, 0x1010, 0x1020], [[1], [2], [1]]⟩ := by decide
  obtain ⟨p, hp, -⟩ := @partition_sound Empty _ hrange {} (by decide)
  exact ⟨p, hp, region_borders_iff _ {} p hrange (by decide) hp⟩

/-- A chain of three blocks: the last one is listed as the entry, the first one is not. -/
theorem chain_borders :
    let idx : CfgIndex := ⟨[0x1000, 0x1010, 0x1020], [[1], [2], []]⟩
    ∃ p, partition idx {} = (.ok p : Outcome Empty Partition) ∧ ∃ r ∈ p.regions,
      r.block_ids = [0, 1, 2] ∧ r.entry_blocks = [0x1020] ∧ ¬ r.Bordered idx := by
  have hrange : CfgIndex.InRange ⟨[0x1000, 0x1010, 0x1020], [[1], [2], []]⟩ := by decide
  obtain ⟨p, hp, -⟩ := @partition_sound Empty _ hrange {} (by decide)
  have hval : ((partition (ε := Empty) ⟨[0x1000, 0x1010, 0x1020], [[1], [2], []]⟩ {}) >>= fun q =>
      .ok (q.regions.map fun r => (r.block_ids, r.entry_blocks))) =
      .ok [([0, 1, 2], [0x1020])] := by
    decide +kernel
  rw [hp, Outcome.ok_bind] at hval
  have hmem : ([0, 1, 2], [0x1020]) ∈ p.regions.map fun r => (r.block_ids, r.entry_blocks) := by
    rw [Outcome.ok.inj hval]
    exact List.mem_singleton_self _
  obtain ⟨r, hr, heq⟩ := List.mem_map.mp hmem
  obtain ⟨hblocks, hentry⟩ := Prod.mk.inj heq
  refine ⟨p, hp, r, hr, hblocks, hentry, fun h => ?_⟩
  -- the first block has no predecessor
  have hfirst : (0x1000 : U64) ∈ r.entry_blocks := by
    refine (h.entry 0x1000).mpr ⟨0, by simp [hblocks], .inr fun q => ?_, rfl⟩
    match q with
    | 0 | 1 | 2 => decide
    | q + 3 => exact List.not_mem_nil
  rw [hentry] at hfirst
  exact absurd hfirst (by decide)

end ReverseMcp
