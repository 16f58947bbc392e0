import Mathlib.Data.List.Flatten
import Mathlib.Data.List.Perm.Basic
import ReverseMcp.Broker.Regions
import ReverseMcp.Rust.Reading

/-!
# Well-formedness of the region graph

The groups of blocks are disjoint and cover the graph (`groups_spec`), pushing them one after the
other keeps the map from blocks to regions in step with the regions (`Growing.Built`), and the pass
over the block edges fills both link maps alike (`Links.Holds`).  `Partition.Sound` is what follows
for the partition as a whole.
-/

namespace ReverseMcp

open Rust ReverseMcp.Graph

variable {ε : Type}

/-! ## Region ids -/

lemma regionId_inj {m n : ℕ} (h : regionId m = regionId n) : m = n := by
  have hchars : (toString (m + 1)).toList = (toString (n + 1)).toList := by
    have happend := congrArg String.toList h
    simpa [regionId] using happend
  have hdigits : Nat.toDigits 10 (m + 1) = Nat.toDigits 10 (n + 1) := by simpa using hchars
  have hsucc := toDigits_inj (by omega) (by omega) hdigits
  omega

lemma regionIds_nodup (n : ℕ) : ((List.range n).map regionId).Nodup :=
  List.nodup_range.map fun _ _ h => regionId_inj h

/-! ## The blocks of a region -/

namespace CfgIndex

variable {idx : CfgIndex} {b : ℕ}

lemma block_ea_eq (hb : b < idx.block_eas.length) :
    idx.block_ea b = (.ok (idx.block_eas[b]?.getD 0) : Outcome ε U64) := by
  simp [block_ea, List.getElem?_eq_getElem hb]

lemma InRange.row_eq (h : idx.InRange) (hb : b < idx.block_eas.length) :
    idx.row b = (.ok (idx.succ b) : Outcome ε (List ℕ)) := by
  have hlen : b < idx.succs.length := by rw [h.rows]; exact hb
  simp [row, succ, List.getElem?_eq_getElem hlen]

lemma pushIf_ok (hb : b < idx.block_eas.length) (c : Bool) (l : List U64) :
    ∃ l', idx.pushIf c b l = (.ok l' : Outcome ε (List U64)) := by
  rw [pushIf]
  rw [block_ea_eq hb]
  cases c
  · exact ⟨l, rfl⟩
  · exact ⟨_, rfl⟩

/-- The entry and exit blocks of blocks in range are found without a panic. -/
lemma InRange.entry_exit_blocks_ok (h : idx.InRange) {blocks : List ℕ}
    (hblocks : ∀ b ∈ blocks, b < idx.block_eas.length) :
    ∃ p, idx.entry_exit_blocks blocks = (.ok p : Outcome ε (List U64 × List U64)) := by
  have hloop : ∃ p, Outcome.foldList (idx.entryExit blocks) ([], []) blocks =
      (.ok p : Outcome ε (List U64 × List U64)) ∧ True := by
    refine Outcome.foldList_ok (I := fun _ _ => True) trivial ?_
    intro front b back acc hsplit _
    have hb : b < idx.block_eas.length := hblocks b (by simp [hsplit])
    rw [entryExit]
    rw [h.row_eq hb, Outcome.ok_bind]
    obtain ⟨entry, hentry⟩ := pushIf_ok hb _ acc.1
    obtain ⟨exit, hexit⟩ := pushIf_ok hb _ acc.2
    dsimp only
    rw [hentry, Outcome.ok_bind, hexit]
    exact ⟨(entry, exit), rfl, trivial⟩
  obtain ⟨p, hp, -⟩ := hloop
  rw [entry_exit_blocks, hp]
  exact ⟨_, rfl⟩

end CfgIndex

/-! ## Growing the regions -/

/-- The regions are those of the groups `gs`, in order. -/
structure Growing.Built (idx : CfgIndex) (gs : List Group) (g : Growing) : Prop where
  counter : g.region_counter = gs.length
  ids : g.regions.map Region.region_id = (List.range gs.length).map regionId
  groups : g.regions.map (fun r => (r.role, r.block_ids)) = gs.map fun x => (x.role, x.blocks)
  eas : ∀ r ∈ g.regions, r.block_eas = r.block_ids.map fun b => idx.block_eas[b]?.getD 0
  unlinked : ∀ r ∈ g.regions, r.pred_regions = [] ∧ r.succ_regions = []
  block_region : ∀ b id, g.block_region[b]? = some id ↔
    ∃ r ∈ g.regions, r.region_id = id ∧ b ∈ r.block_ids

lemma Growing.Built.mem_blocks {idx : CfgIndex} {gs : List Group} {g : Growing}
    (h : g.Built idx gs) {r : Region} (hr : r ∈ g.regions) {b : ℕ} (hb : b ∈ r.block_ids) :
    b ∈ gs.flatMap Group.blocks := by
  have hmem : (r.role, r.block_ids) ∈ gs.map fun x => (x.role, x.blocks) := by
    rw [← h.groups]
    exact List.mem_map.mpr ⟨r, hr, rfl⟩
  obtain ⟨x, hx, heq⟩ := List.mem_map.mp hmem
  refine List.mem_flatMap.mpr ⟨x, hx, ?_⟩
  rw [(Prod.mk.inj heq).2]
  exact hb

/-- Pushing a group whose blocks are new. -/
lemma Growing.Built.push {idx : CfgIndex} {gs : List Group} {g : Growing} (h : g.Built idx gs)
    (hrange : idx.InRange) {x : Group} (hblocks : ∀ b ∈ x.blocks, b < idx.block_eas.length)
    (hnew : ∀ b ∈ x.blocks, b ∉ gs.flatMap Group.blocks) :
    ∃ g', g.push idx x = (.ok g' : Outcome ε Growing) ∧ g'.Built idx (gs ++ [x]) := by
  obtain ⟨⟨entry, exit⟩, hentry⟩ := hrange.entry_exit_blocks_ok hblocks
  have heas : Outcome.mapList idx.block_ea x.blocks =
      (.ok (x.blocks.map fun b => idx.block_eas[b]?.getD 0) : Outcome ε (List U64)) :=
    Outcome.mapList_eq_ok fun b hb => CfgIndex.block_ea_eq (hblocks b hb)
  rw [Growing.push]
  rw [hentry, Outcome.ok_bind]
  dsimp only
  rw [heas, Outcome.ok_bind]
  refine ⟨_, rfl, ⟨?_, ?_, ?_, ?_, ?_, ?_⟩⟩
  · simp [h.counter]
  · simp [h.ids, h.counter, List.range_succ]
  · simp [h.groups]
  · intro r hr
    rcases List.mem_append.mp hr with hr | hr
    · exact h.eas r hr
    · rw [List.mem_singleton.mp hr]
  · intro r hr
    rcases List.mem_append.mp hr with hr | hr
    · exact h.unlinked r hr
    · rw [List.mem_singleton.mp hr]
      exact ⟨rfl, rfl⟩
  · intro b id
    simp only [getElem?_foldl_insert, List.mem_append, List.mem_singleton]
    by_cases hb : b ∈ x.blocks
    · -- no earlier region lists a block of the new one
      rw [if_pos hb]
      constructor
      · intro hid
        exact ⟨_, .inr rfl, Option.some.inj hid, hb⟩
      · rintro ⟨r, hr | rfl, hid, hbr⟩
        · exact absurd (h.mem_blocks hr hbr) (hnew b hb)
        · exact congrArg some hid
    · rw [if_neg hb, h.block_region]
      constructor
      · rintro ⟨r, hr, hid, hbr⟩
        exact ⟨r, .inl hr, hid, hbr⟩
      · rintro ⟨r, hr | rfl, hid, hbr⟩
        · exact ⟨r, hr, hid, hbr⟩
        · exact absurd hbr hb

/-- All groups are pushed. -/
lemma push_groups {idx : CfgIndex} (hrange : idx.InRange) {gs : List Group}
    (hperm : (gs.flatMap Group.blocks).Perm (List.range idx.block_eas.length)) :
    ∃ g, Outcome.foldList (Growing.push idx) {} gs = (.ok g : Outcome ε Growing) ∧
      g.Built idx gs := by
  refine Outcome.foldList_ok (I := fun front (g : Growing) => g.Built idx front) ?_ ?_
  · exact ⟨rfl, rfl, rfl, by simp, by simp, by simp⟩
  · intro front x back g hsplit hg
    have hnodup : (gs.flatMap Group.blocks).Nodup := hperm.nodup_iff.mpr List.nodup_range
    rw [hsplit, List.flatMap_append, List.nodup_append] at hnodup
    refine hg.push hrange (fun b hb => ?_) (fun b hb hold => ?_)
    · refine List.mem_range.mp (hperm.mem_iff.mp ?_)
      exact List.mem_flatMap.mpr ⟨x, by simp [hsplit], hb⟩
    · refine hnodup.2.2 b hold b ?_ rfl
      exact List.mem_flatMap.mpr ⟨x, by simp, hb⟩

/-! ## Which blocks belong together -/

namespace CfgIndex

/-- The block is alone in its strongly connected component. -/
def Lone (idx : CfgIndex) (b : ℕ) : Prop :=
  b < idx.block_eas.length ∧ ∀ w, SameScc idx.succ b w → w = b

open Classical in
/-- The number of blocks before `b` that are alone in their component. -/
noncomputable def rank (idx : CfgIndex) (b : ℕ) : ℕ :=
  ((List.range b).filter fun a => decide (idx.Lone a)).length

/-- Two blocks belong together: they are in the same strongly connected component, or both are alone
in theirs and fall into the same chunk. -/
def Together (idx : CfgIndex) (opts : PartitionOptions) (a b : ℕ) : Prop :=
  SameScc idx.succ a b ∨ (idx.Lone a ∧ idx.Lone b ∧
    idx.rank a / opts.max_chunk_blocks = idx.rank b / opts.max_chunk_blocks)

end CfgIndex

/-- The place of an element among those of a range that satisfy a condition. -/
lemma getElem?_filter_range {n b : ℕ} {keep : ℕ → Bool} (hb : b < n) (hkeep : keep b = true) :
    ((List.range n).filter keep)[((List.range b).filter keep).length]? = some b := by
  obtain ⟨m, rfl⟩ : ∃ m, n = b + (m + 1) := ⟨n - b - 1, by omega⟩
  have hhead : ((List.range (m + 1)).map (b + ·)).filter keep =
      b :: (((List.range m).map Nat.succ).map (b + ·)).filter keep := by
    rw [List.range_succ_eq_map, List.map_cons, List.filter_cons_of_pos (by simpa using hkeep)]
    rfl
  rw [List.range_add, List.filter_append, List.getElem?_append_right le_rfl, Nat.sub_self, hhead]
  rfl

/-! ## The groups -/

/-- Which blocks are in a loop. -/
lemma markLoop_spec {n : ℕ} {bs : List ℕ} (hbs : ∀ b ∈ bs, b < n) :
    ∃ in_loop, Outcome.foldList markLoop (List.replicate n false) bs =
      (.ok in_loop : Outcome ε (List Bool)) ∧
      in_loop.length = n ∧ ∀ b < n, in_loop[b]?.getD false = true ↔ b ∈ bs := by
  refine Outcome.foldList_ok
    (I := fun front (in_loop : List Bool) => in_loop.length = n ∧
      ∀ b < n, in_loop[b]?.getD false = true ↔ b ∈ front) ?_ ?_
  · refine ⟨by simp, fun b hb => ?_⟩
    simp [hb]
  · rintro front b back in_loop hsplit ⟨hlen, hmem⟩
    have hb : b < in_loop.length := by rw [hlen]; exact hbs b (by simp [hsplit])
    refine ⟨in_loop.set b true, by rw [markLoop, if_pos hb], by simpa using hlen, fun c hc => ?_⟩
    rw [List.getElem?_set]
    by_cases hbc : b = c
    · simp [hbc, hlen, hc]
    · have hcb : c ≠ b := fun h => hbc h.symm
      simp [hbc, hcb, hmem c hc]

/-- What the groups are: each block is in one of them, the chunks are bounded, and the others are
the strongly connected components of more than one block. -/
structure GroupsOf (idx : CfgIndex) (opts : PartitionOptions) (gs : List Group) : Prop where
  perm : (gs.flatMap Group.blocks).Perm (List.range idx.block_eas.length)
  ne_nil : ∀ x ∈ gs, x.blocks ≠ []
  chunk : ∀ x ∈ gs, x.role = .chunk → x.blocks.length ≤ opts.max_chunk_blocks ∧
    ∃ i, ∀ b, b ∈ x.blocks ↔ idx.Lone b ∧ idx.rank b / opts.max_chunk_blocks = i
  scc : ∀ x ∈ gs, x.role ≠ .chunk → 1 < x.blocks.length ∧
    ∀ v ∈ x.blocks, ∀ w, w ∈ x.blocks ↔ SameScc idx.succ v w
  dispatcher : ∀ x ∈ gs, x.role ≠ .chunk →
    (x.role = .dispatcher ↔ opts.min_dispatcher_scc ≤ x.blocks.length)
  loops : ∀ v < idx.block_eas.length, ∀ w, w ≠ v → SameScc idx.succ v w →
    ∃ x ∈ gs, x.role ≠ .chunk ∧ v ∈ x.blocks

lemma loopGroup_ne_chunk (opts : PartitionOptions) (scc : List ℕ) :
    (loopGroup opts scc).role ≠ .chunk := by
  rw [loopGroup]
  dsimp only
  split
  · simp
  · simp

lemma mem_loopGroup {opts : PartitionOptions} {scc : List ℕ} {b : ℕ} :
    b ∈ (loopGroup opts scc).blocks ↔ b ∈ scc := (sortByKey_perm id scc).mem_iff

lemma length_loopGroup (opts : PartitionOptions) (scc : List ℕ) :
    (loopGroup opts scc).blocks.length = scc.length := (sortByKey_perm id scc).length_eq

/-- The loops and what is left over are all blocks. -/
lemma loops_append_singles {n : ℕ} {sccs : List (List ℕ)} (hperm : sccs.flatten.Perm (List.range n))
    (keep : List ℕ → Bool) :
    ((sccs.filter keep).flatten ++
      (List.range n).filter fun b => decide (b ∉ (sccs.filter keep).flatten)).Perm
        (List.range n) := by
  have hsub : (sccs.filter keep).flatten.Sublist sccs.flatten := List.filter_sublist.flatten
  have hnodup : sccs.flatten.Nodup := hperm.nodup_iff.mpr List.nodup_range
  refine (List.perm_ext_iff_of_nodup ?_ List.nodup_range).mpr fun b => ?_
  · refine List.nodup_append.mpr ⟨hnodup.sublist hsub, List.nodup_range.filter _, ?_⟩
    rintro b hb c hc rfl
    have hnot := (List.mem_filter.mp hc).2
    exact (of_decide_eq_true hnot) hb
  · rw [List.mem_append, List.mem_filter, decide_eq_true_iff]
    constructor
    · rintro (hb | ⟨hb, -⟩)
      · exact hperm.mem_iff.mp (hsub.subset hb)
      · exact hb
    · intro hb
      by_cases hin : b ∈ (sccs.filter keep).flatten
      · exact .inl hin
      · exact .inr ⟨hb, hin⟩

/-- A block is in no component of more than one block exactly if it is alone in its own. -/
lemma not_mem_loops_iff {idx : CfgIndex} {sccs : List (List ℕ)}
    (hcomp : Components idx.succ (List.range idx.block_eas.length) sccs) {b : ℕ}
    (hb : b < idx.block_eas.length) :
    b ∉ (sccs.filter fun scc => decide (1 < scc.length)).flatten ↔ idx.Lone b := by
  obtain ⟨scc, hscc, hbs⟩ := List.mem_flatten.mp (hcomp.perm.mem_iff.mpr (List.mem_range.mpr hb))
  have hnodup : sccs.flatten.Nodup := hcomp.perm.nodup_iff.mpr List.nodup_range
  constructor
  · intro hnot
    have hlen : scc.length = 1 := by
      have hpos := List.length_pos_of_mem hbs
      by_contra hne
      refine hnot (List.mem_flatten.mpr ⟨scc, List.mem_filter.mpr ⟨hscc, ?_⟩, hbs⟩)
      exact decide_eq_true (by omega)
    obtain ⟨u, rfl⟩ := List.length_eq_one_iff.mp hlen
    refine ⟨hb, fun w hsame => ?_⟩
    have hw := (hcomp.scc _ hscc b hbs w).mpr hsame
    rw [List.mem_singleton] at hbs hw
    rw [hw, hbs]
  · rintro ⟨-, hlone⟩ hin
    obtain ⟨c, hc, hbc⟩ := List.mem_flatten.mp hin
    obtain ⟨hc, hlen⟩ := List.mem_filter.mp hc
    have hsub : c.Nodup := hnodup.sublist (List.sublist_flatten_of_mem hc)
    -- a component without repetitions has no room for two blocks
    have hall : ∀ w ∈ c, w = b := fun w hw => hlone w ((hcomp.scc c hc b hbc w).mp hw)
    have hone := length_le_one_of_nodup hsub hall
    have htwo := of_decide_eq_true hlen
    omega

open Classical in
/-- The chunk number `i` of the blocks alone in their component. -/
lemma mem_piece {idx : CfgIndex} {k : ℕ} (hk : 0 < k) {l : List ℕ}
    (hl : l = (List.range idx.block_eas.length).filter fun b => decide (idx.Lone b)) (b i : ℕ) :
    b ∈ (l.drop (i * k)).take k ↔ idx.Lone b ∧ idx.rank b / k = i := by
  by_cases hlone : idx.Lone b
  · have hplace : l[idx.rank b]? = some b := by
      rw [hl]
      exact getElem?_filter_range hlone.1 (decide_eq_true hlone)
    have hnodup : l.Nodup := hl ▸ List.nodup_range.filter _
    rw [mem_drop_take hk hnodup hplace]
    exact ⟨fun hi => ⟨hlone, hi⟩, And.right⟩
  · constructor
    · intro hb
      have hmem : b ∈ l := List.mem_of_mem_drop (List.mem_of_mem_take hb)
      rw [hl, List.mem_filter] at hmem
      exact absurd (of_decide_eq_true hmem.2) hlone
    · rintro ⟨h, -⟩
      exact absurd h hlone

open Classical in
/-- The blocks that the marks of the loops leave over are those alone in their component. -/
lemma markLoop_lone {idx : CfgIndex} {sccs : List (List ℕ)}
    (hcomp : Components idx.succ (List.range idx.block_eas.length) sccs) :
    ∃ in_loop, Outcome.foldList markLoop (List.replicate idx.block_eas.length false)
        (sccs.filter fun scc => decide (1 < scc.length)).flatten =
          (.ok in_loop : Outcome ε (List Bool)) ∧
      ((List.range idx.block_eas.length).filter fun b => !(in_loop[b]?.getD false)) =
        (List.range idx.block_eas.length).filter fun b => decide (idx.Lone b) := by
  have hloops := loops_append_singles hcomp.perm fun scc => decide (1 < scc.length)
  have hlt : ∀ b ∈ (sccs.filter fun scc => decide (1 < scc.length)).flatten,
      b < idx.block_eas.length := fun b hb =>
    List.mem_range.mp (hloops.mem_iff.mp (List.mem_append_left _ hb))
  obtain ⟨in_loop, hmark, -, hin⟩ := markLoop_spec (ε := ε) hlt
  refine ⟨in_loop, hmark, List.filter_congr fun b hb => ?_⟩
  have hblock := List.mem_range.mp hb
  have hlone : decide (idx.Lone b) =
      decide (b ∉ (sccs.filter fun scc => decide (1 < scc.length)).flatten) :=
    decide_eq_decide.mpr (not_mem_loops_iff hcomp hblock).symm
  rw [hlone]
  by_cases hmem : b ∈ (sccs.filter fun scc => decide (1 < scc.length)).flatten
  · simp [(hin b hblock).mpr hmem, hmem]
  · have hfalse : in_loop[b]?.getD false = false :=
      Bool.eq_false_iff.mpr fun htrue => hmem ((hin b hblock).mp htrue)
    simp [hfalse, hmem]

section Grouped

variable {idx : CfgIndex} {opts : PartitionOptions} {sccs pieces : List (List ℕ)}

open Classical in
/-- The groups of the loops and of the pieces have all blocks. -/
lemma grouped_perm (hcomp : Components idx.succ (List.range idx.block_eas.length) sccs)
    (hflat : pieces.flatten =
      (List.range idx.block_eas.length).filter fun b => decide (idx.Lone b)) :
    (((sccs.filter fun scc => decide (1 < scc.length)).map (loopGroup opts) ++
      pieces.map chunkGroup).flatMap Group.blocks).Perm (List.range idx.block_eas.length) := by
  have hloops := loops_append_singles hcomp.perm fun scc => decide (1 < scc.length)
  have hsingles : ((List.range idx.block_eas.length).filter fun b => decide (idx.Lone b)) =
      (List.range idx.block_eas.length).filter fun b =>
        decide (b ∉ (sccs.filter fun scc => decide (1 < scc.length)).flatten) :=
    List.filter_congr fun b hb =>
      decide_eq_decide.mpr (not_mem_loops_iff hcomp (List.mem_range.mp hb)).symm
  have hchunks : (pieces.map chunkGroup).flatMap Group.blocks = pieces.flatten := by
    rw [List.flatMap_map]
    exact List.flatMap_id
  rw [List.flatMap_append, List.flatMap_map, hchunks, hflat, hsingles]
  refine List.Perm.trans (List.Perm.append_right _ ?_) hloops
  -- sorting a component does not change which blocks it has
  rw [← List.flatMap_id]
  exact List.Perm.flatMap_left _ fun scc _ => sortByKey_perm id scc

/-- A block that has another one in its component is in the group of a loop. -/
lemma mem_grouped_loop
    (hcomp : Components idx.succ (List.range idx.block_eas.length) sccs) {v w : ℕ}
    (hv : v < idx.block_eas.length) (hne : w ≠ v) (hsame : SameScc idx.succ v w) :
    ∃ x ∈ (sccs.filter fun scc => decide (1 < scc.length)).map (loopGroup opts),
      x.role ≠ .chunk ∧ v ∈ x.blocks := by
  obtain ⟨scc, hscc, hvs⟩ := List.mem_flatten.mp (hcomp.perm.mem_iff.mpr (List.mem_range.mpr hv))
  have hws : w ∈ scc := (hcomp.scc scc hscc v hvs w).mpr hsame
  have hlen : 1 < scc.length := by
    by_contra hle
    obtain ⟨u, rfl⟩ := List.length_eq_one_iff.mp
      (show scc.length = 1 by have := List.length_pos_of_mem hvs; omega)
    rw [List.mem_singleton] at hvs hws
    exact hne (hws.trans hvs.symm)
  refine ⟨loopGroup opts scc, List.mem_map.mpr ⟨scc, ?_, rfl⟩, loopGroup_ne_chunk opts scc,
    mem_loopGroup.mpr hvs⟩
  exact List.mem_filter.mpr ⟨hscc, decide_eq_true hlen⟩

open Classical in
/-- The loops, and the other blocks in pieces, are the groups. -/
lemma groupsOf_grouped (hopts : 1 ≤ opts.max_chunk_blocks)
    (hcomp : Components idx.succ (List.range idx.block_eas.length) sccs)
    (hflat : pieces.flatten = (List.range idx.block_eas.length).filter fun b => decide (idx.Lone b))
    (hpieces : ∀ c ∈ pieces, c ≠ [] ∧
      ∃ i, c = (pieces.flatten.drop (i * opts.max_chunk_blocks)).take opts.max_chunk_blocks) :
    GroupsOf idx opts ((sccs.filter fun scc => decide (1 < scc.length)).map (loopGroup opts) ++
      pieces.map chunkGroup) := by
  have hcases : ∀ x ∈ (sccs.filter fun scc => decide (1 < scc.length)).map (loopGroup opts) ++
      pieces.map chunkGroup,
      (∃ scc ∈ sccs, 1 < scc.length ∧ x = loopGroup opts scc) ∨
        ∃ c ∈ pieces, x = chunkGroup c := by
    intro x hx
    rcases List.mem_append.mp hx with hx | hx
    · obtain ⟨scc, hscc, rfl⟩ := List.mem_map.mp hx
      obtain ⟨hscc, hlen⟩ := List.mem_filter.mp hscc
      exact .inl ⟨scc, hscc, of_decide_eq_true hlen, rfl⟩
    · obtain ⟨c, hc, rfl⟩ := List.mem_map.mp hx
      exact .inr ⟨c, hc, rfl⟩
  have hrole : ∀ scc : List ℕ, (loopGroup opts scc).role =
      if opts.min_dispatcher_scc ≤ scc.length then .dispatcher else .loop := fun _ => rfl
  refine ⟨grouped_perm hcomp hflat, ?_, ?_, ?_, ?_, ?_⟩
  · intro x hx
    rcases hcases x hx with ⟨scc, hscc, hlen, rfl⟩ | ⟨c, hc, rfl⟩
    · refine List.ne_nil_of_length_pos ?_
      rw [length_loopGroup]
      omega
    · exact (hpieces c hc).1
  · intro x hx hchunk
    rcases hcases x hx with ⟨scc, -, -, rfl⟩ | ⟨c, hc, rfl⟩
    · exact absurd hchunk (loopGroup_ne_chunk opts scc)
    · obtain ⟨-, i, hi⟩ := hpieces c hc
      refine ⟨?_, i, fun b => ?_⟩
      · show c.length ≤ _
        rw [hi]
        exact List.length_take_le _ _
      · show b ∈ c ↔ _
        rw [hi]
        exact mem_piece hopts hflat b i
  · intro x hx hchunk
    rcases hcases x hx with ⟨scc, hscc, hlen, rfl⟩ | ⟨c, -, rfl⟩
    · rw [length_loopGroup]
      refine ⟨hlen, fun v hv w => ?_⟩
      rw [mem_loopGroup] at hv ⊢
      exact hcomp.scc scc hscc v hv w
    · exact absurd rfl hchunk
  · intro x hx hchunk
    rcases hcases x hx with ⟨scc, -, -, rfl⟩ | ⟨c, -, rfl⟩
    · rw [length_loopGroup, hrole]
      split
      · rename_i hle
        exact ⟨fun _ => hle, fun _ => rfl⟩
      · rename_i hlt
        exact ⟨fun h => (by cases h), fun h => absurd h hlt⟩
    · exact absurd rfl hchunk
  · intro v hv w hne hsame
    obtain ⟨x, hx, hloop⟩ := mem_grouped_loop hcomp hv hne hsame
    exact ⟨x, List.mem_append_left _ hx, hloop⟩

end Grouped

lemma groups_spec {idx : CfgIndex} (hrange : idx.InRange) {opts : PartitionOptions}
    (hopts : 1 ≤ opts.max_chunk_blocks) :
    ∃ gs, idx.groups opts = (.ok gs : Outcome ε (List Group)) ∧ GroupsOf idx opts gs := by
  obtain ⟨sccs, hsccs, hcomp, -⟩ := CfgIndex.tarjan_sccs_components (ε := ε) hrange
  obtain ⟨in_loop, hmark, hleft⟩ := markLoop_lone (ε := ε) hcomp
  obtain ⟨pieces, hpieces, hflat, hsize⟩ := chunks_spec (ε := ε) hopts
    ((List.range idx.block_eas.length).filter fun b => !(in_loop[b]?.getD false))
  rw [← hflat] at hsize
  refine ⟨_, ?_, groupsOf_grouped hopts hcomp (hflat.trans hleft) hsize⟩
  rw [CfgIndex.groups, hsccs, Outcome.ok_bind]
  dsimp only
  rw [hmark, Outcome.ok_bind, hpieces]
  rfl

/-! ## The links -/

lemma mem_pushEntry {m : Std.ExtTreeMap String (List String)} {k x y z : String} :
    z ∈ (pushEntry m k x)[y]?.getD [] ↔ z ∈ m[y]?.getD [] ∨ (y = k ∧ z = x) := by
  rw [pushEntry]
  rw [getElem?_insert_eq_ite]
  by_cases hy : y = k
  · simp [hy]
  · simp [hy]

/-- Both maps hold the same relation, one from each side. -/
structure Links.Holds (P : String → String → Prop) (links : Links) : Prop where
  succ : ∀ x y, y ∈ links.succ[x]?.getD [] ↔ P x y
  pred : ∀ x y, x ∈ links.pred[y]?.getD [] ↔ P x y

namespace Links.Holds

variable {P Q : String → String → Prop} {links : Links} {m : Std.ExtTreeMap ℕ String}

lemma congr (h : links.Holds P) (hPQ : ∀ x y, P x y ↔ Q x y) : links.Holds Q where
  succ := fun x y => (h.succ x y).trans (hPQ x y)
  pred := fun x y => (h.pred x y).trans (hPQ x y)

/-- A block edge adds one link, if it goes to another region. -/
lemma edge (h : links.Holds P) (rb : String) (s : ℕ) :
    (links.edge m rb s).Holds fun x y => P x y ∨ (x = rb ∧ m[s]? = some y ∧ y ≠ x) := by
  rw [Links.edge]
  split
  · rename_i hnone
    exact h.congr fun x y => by simp [hnone]
  · rename_i rs hrs
    split
    · -- inside its region an edge is no link
      rename_i hsame
      refine h.congr fun x y => ?_
      constructor
      · exact .inl
      · rintro (hP | ⟨rfl, hy, hne⟩)
        · exact hP
        · rw [hrs] at hy
          exact absurd ((Option.some.inj hy).symm.trans hsame) hne
    · rename_i hdiff
      have hlink : ∀ x y, (x = rb ∧ y = rs) ↔ x = rb ∧ m[s]? = some y ∧ y ≠ x := by
        intro x y
        rw [hrs]
        constructor
        · rintro ⟨rfl, rfl⟩
          exact ⟨rfl, rfl, hdiff⟩
        · rintro ⟨rfl, hy, -⟩
          exact ⟨rfl, (Option.some.inj hy).symm⟩
      refine ⟨fun x y => ?_, fun x y => ?_⟩
      · rw [mem_pushEntry, h.succ, hlink]
      · rw [mem_pushEntry, h.pred, ← hlink, and_comm]

/-- The edges of a row of successors. -/
lemma row (rb : String) (ss : List ℕ) : ∀ {P : String → String → Prop} {links : Links},
    links.Holds P → (ss.foldl (Links.edge m rb) links).Holds fun x y =>
      P x y ∨ (x = rb ∧ ∃ s ∈ ss, m[s]? = some y ∧ y ≠ x) := by
  induction ss with
  | nil =>
    intro P links h
    exact h.congr fun x y => by simp
  | cons s ss ih =>
    intro P links h
    refine (ih (h.edge rb s)).congr fun x y => ?_
    rw [List.exists_mem_cons_iff, or_assoc, ← and_or_left]

end Links.Holds

/-- There is a block edge from the region `x` to the region `y`, two different ones. -/
def Crosses (idx : CfgIndex) (m : Std.ExtTreeMap ℕ String) (bs : List ℕ) (x y : String) : Prop :=
  ∃ b ∈ bs, m[b]? = some x ∧ ∃ s ∈ idx.succ b, m[s]? = some y ∧ y ≠ x

/-- The pass over all blocks. -/
lemma links_spec {idx : CfgIndex} (hrange : idx.InRange) (m : Std.ExtTreeMap ℕ String) :
    ∃ links, Outcome.foldList (Links.block idx m) {} (List.range idx.block_eas.length) =
      (.ok links : Outcome ε Links) ∧
      links.Holds (Crosses idx m (List.range idx.block_eas.length)) := by
  refine Outcome.foldList_ok (I := fun front (links : Links) => links.Holds (Crosses idx m front))
    ?_ ?_
  · constructor <;> simp [Crosses]
  · intro front b back links hsplit h
    have hb : b < idx.block_eas.length := by
      rw [← List.mem_range, hsplit]
      simp
    have hmore : ∀ x y, Crosses idx m (front ++ [b]) x y ↔ Crosses idx m front x y ∨
        (m[b]? = some x ∧ ∃ s ∈ idx.succ b, m[s]? = some y ∧ y ≠ x) := by
      intro x y
      unfold Crosses
      simp only [List.mem_append, List.mem_singleton, or_and_right, exists_or, exists_eq_left]
    unfold Links.block
    cases hrb : m[b]? with
    | none =>
      refine ⟨links, rfl, h.congr fun x y => ?_⟩
      rw [hmore, hrb]
      simp
    | some rb =>
      dsimp only
      rw [hrange.row_eq hb, Outcome.ok_bind]
      refine ⟨_, rfl, (Links.Holds.row rb (idx.succ b) h).congr fun x y => ?_⟩
      rw [hmore, hrb, Option.some_inj, eq_comm (a := x)]

lemma mem_dedup_sorted {x : String} (l : List String) : x ∈ dedup_sorted l ↔ x ∈ l := by
  rw [dedup_sorted, mem_dedupBy_id, (sortByKey_perm id l).mem_iff]

section Attach

variable (links : Links) (r : Region)

/-- Attaching the neighbours changes nothing else. -/
lemma attach_eq : links.attach r = { r with
    pred_regions := (links.attach r).pred_regions
    succ_regions := (links.attach r).succ_regions } := by
  rw [Links.attach]
  cases links.pred[r.region_id]? <;> dsimp only <;> cases links.succ[r.region_id]? <;> rfl

@[simp] lemma attach_region_id : (links.attach r).region_id = r.region_id := by rw [attach_eq]

@[simp] lemma attach_role : (links.attach r).role = r.role := by rw [attach_eq]

@[simp] lemma attach_block_ids : (links.attach r).block_ids = r.block_ids := by rw [attach_eq]

@[simp] lemma attach_block_eas : (links.attach r).block_eas = r.block_eas := by rw [attach_eq]

lemma mem_attach_succ (hr : r.succ_regions = []) {y : String} :
    y ∈ (links.attach r).succ_regions ↔ y ∈ links.succ[r.region_id]?.getD [] := by
  rw [Links.attach]
  cases links.pred[r.region_id]? <;> dsimp only <;> cases links.succ[r.region_id]? <;>
    simp [hr, mem_dedup_sorted]

lemma mem_attach_pred (hr : r.pred_regions = []) {x : String} :
    x ∈ (links.attach r).pred_regions ↔ x ∈ links.pred[r.region_id]?.getD [] := by
  rw [Links.attach]
  cases links.pred[r.region_id]? <;> dsimp only <;> cases links.succ[r.region_id]? <;>
    simp [hr, mem_dedup_sorted]

end Attach

/-! ## The partition -/

/-- There is a block edge from one region to the other. -/
def Region.Leads (idx : CfgIndex) (r t : Region) : Prop :=
  ∃ a ∈ r.block_ids, ∃ b ∈ t.block_ids, b ∈ idx.succ a

/-- What holds of every partition. -/
structure Partition.Sound (idx : CfgIndex) (opts : PartitionOptions) (p : Partition) : Prop where
  ids : p.regions.map Region.region_id = (List.range p.regions.length).map regionId
  blocks : (p.regions.map Region.block_ids).flatten.Perm (List.range idx.block_eas.length)
  ne_nil : ∀ r ∈ p.regions, r.block_ids ≠ []
  eas : ∀ r ∈ p.regions, r.block_eas = r.block_ids.map fun b => idx.block_eas[b]?.getD 0
  block_region : ∀ b id, p.block_region[b]? = some id ↔
    ∃ r ∈ p.regions, r.region_id = id ∧ b ∈ r.block_ids
  chunk : ∀ r ∈ p.regions, r.role = .chunk → r.block_ids.length ≤ opts.max_chunk_blocks ∧
    ∃ i, ∀ b, b ∈ r.block_ids ↔ idx.Lone b ∧ idx.rank b / opts.max_chunk_blocks = i
  scc : ∀ r ∈ p.regions, r.role ≠ .chunk → 1 < r.block_ids.length ∧
    ∀ v ∈ r.block_ids, ∀ w, w ∈ r.block_ids ↔ SameScc idx.succ v w
  dispatcher : ∀ r ∈ p.regions, r.role ≠ .chunk →
    (r.role = .dispatcher ↔ opts.min_dispatcher_scc ≤ r.block_ids.length)
  loops : ∀ v < idx.block_eas.length, ∀ w, w ≠ v → SameScc idx.succ v w →
    ∃ r ∈ p.regions, r.role ≠ .chunk ∧ v ∈ r.block_ids
  succ : ∀ r ∈ p.regions, ∀ y, y ∈ r.succ_regions ↔
    ∃ t ∈ p.regions, t.region_id = y ∧ y ≠ r.region_id ∧ r.Leads idx t
  pred : ∀ r ∈ p.regions, ∀ x, x ∈ r.pred_regions ↔
    ∃ t ∈ p.regions, t.region_id = x ∧ x ≠ r.region_id ∧ t.Leads idx r

namespace Growing.Built

variable {idx : CfgIndex} {gs : List Group} {g : Growing}

lemma eq_of_region_id (h : g.Built idx gs) {r t : Region} (hr : r ∈ g.regions)
    (ht : t ∈ g.regions) (heq : r.region_id = t.region_id) : r = t := by
  have hnodup : (g.regions.map Region.region_id).Nodup := by
    rw [h.ids]
    exact regionIds_nodup _
  exact List.inj_on_of_nodup_map hnodup hr ht heq

lemma group_of (h : g.Built idx gs) {r : Region} (hr : r ∈ g.regions) :
    ∃ x ∈ gs, x.role = r.role ∧ x.blocks = r.block_ids := by
  have hmem : (r.role, r.block_ids) ∈ gs.map fun x => (x.role, x.blocks) := by
    rw [← h.groups]
    exact List.mem_map.mpr ⟨r, hr, rfl⟩
  obtain ⟨x, hx, heq⟩ := List.mem_map.mp hmem
  exact ⟨x, hx, (Prod.mk.inj heq).1, (Prod.mk.inj heq).2⟩

lemma region_of (h : g.Built idx gs) {x : Group} (hx : x ∈ gs) :
    ∃ r ∈ g.regions, r.role = x.role ∧ r.block_ids = x.blocks := by
  have hmem : (x.role, x.blocks) ∈ g.regions.map fun r => (r.role, r.block_ids) := by
    rw [h.groups]
    exact List.mem_map.mpr ⟨x, hx, rfl⟩
  obtain ⟨r, hr, heq⟩ := List.mem_map.mp hmem
  exact ⟨r, hr, (Prod.mk.inj heq).1, (Prod.mk.inj heq).2⟩

/-- Block edges between the regions of the block map are edges between their blocks. -/
lemma crosses_iff (h : g.Built idx gs)
    (hperm : (gs.flatMap Group.blocks).Perm (List.range idx.block_eas.length)) (x y : String) :
    Crosses idx g.block_region (List.range idx.block_eas.length) x y ↔
      ∃ r ∈ g.regions, r.region_id = x ∧ ∃ t ∈ g.regions, t.region_id = y ∧ y ≠ x ∧
        r.Leads idx t := by
  rw [Crosses]
  simp only [h.block_region]
  constructor
  · rintro ⟨a, -, ⟨r, hr, hrx, har⟩, b, hb, ⟨t, ht, hty, hbt⟩, hne⟩
    exact ⟨r, hr, hrx, t, ht, hty, hne, a, har, b, hbt, hb⟩
  · rintro ⟨r, hr, hrx, t, ht, hty, hne, a, har, b, hbt, hb⟩
    exact ⟨a, hperm.mem_iff.mp (h.mem_blocks hr har), ⟨r, hr, hrx, har⟩, b, hb,
      ⟨t, ht, hty, hbt⟩, hne⟩

/-- Attaching the links to the regions of the groups gives a sound partition. -/
lemma sound (h : g.Built idx gs) {opts : PartitionOptions} (hgroups : GroupsOf idx opts gs)
    {links : Links}
    (hlinks : links.Holds (Crosses idx g.block_region (List.range idx.block_eas.length)))
    {p : Partition} (hregions : p.regions = g.regions.map links.attach)
    (hmap : p.block_region = g.block_region) : p.Sound idx opts := by
  have hcross := h.crosses_iff hgroups.perm
  have hlen : g.regions.length = gs.length := by
    have hlens := congrArg List.length h.groups
    simpa using hlens
  have hids : ∀ l : List Region, (l.map links.attach).map Region.region_id =
      l.map Region.region_id := fun l => by simp
  have hblocks : ∀ l : List Region, (l.map links.attach).map Region.block_ids =
      l.map Region.block_ids := fun l => by simp
  have hexists : ∀ P : Region → Prop, (∃ r ∈ g.regions.map links.attach, P r) ↔
      ∃ r ∈ g.regions, P (links.attach r) := fun P => by simp
  constructor <;> simp only [hregions, hmap, hids, hblocks, hexists, List.length_map,
    List.forall_mem_map, attach_region_id, attach_role, attach_block_ids, attach_block_eas]
  case ids => rw [h.ids, hlen]
  case blocks =>
    have hflat : (g.regions.map Region.block_ids).flatten = gs.flatMap Group.blocks := by
      have hsnd := congrArg (List.map Prod.snd) h.groups
      simp only [List.map_map] at hsnd
      exact congrArg List.flatten hsnd
    rw [hflat]
    exact hgroups.perm
  case ne_nil =>
    intro r hr
    obtain ⟨x, hx, -, hb⟩ := h.group_of hr
    exact hb ▸ hgroups.ne_nil x hx
  case eas => exact h.eas
  case block_region => exact h.block_region
  case chunk =>
    intro r hr hrole
    obtain ⟨x, hx, hxr, hb⟩ := h.group_of hr
    exact hb ▸ hgroups.chunk x hx (hxr.trans hrole)
  case scc =>
    intro r hr hrole
    obtain ⟨x, hx, hxr, hb⟩ := h.group_of hr
    exact hb ▸ hgroups.scc x hx (hxr ▸ hrole)
  case dispatcher =>
    intro r hr hrole
    obtain ⟨x, hx, hxr, hb⟩ := h.group_of hr
    rw [← hxr, ← hb]
    exact hgroups.dispatcher x hx (hxr ▸ hrole)
  case loops =>
    intro v hv w hne hsame
    obtain ⟨x, hx, hrole, hvx⟩ := hgroups.loops v hv w hne hsame
    obtain ⟨r, hr, hrx, hb⟩ := h.region_of hx
    exact ⟨r, hr, hrx ▸ hrole, hb ▸ hvx⟩
  case succ =>
    intro r hr y
    -- a link out of `r` is an edge out of a region with its id, and that is `r`
    rw [mem_attach_succ links r (h.unlinked r hr).2, hlinks.succ, hcross]
    constructor
    · rintro ⟨r', hr', hid, t, ht, hty, hne, hleads⟩
      obtain rfl := h.eq_of_region_id hr' hr hid
      exact ⟨t, ht, hty, hne, by simpa [Region.Leads] using hleads⟩
    · rintro ⟨t, ht, hty, hne, hleads⟩
      exact ⟨r, hr, rfl, t, ht, hty, hne, by simpa [Region.Leads] using hleads⟩
  case pred =>
    intro r hr x
    rw [mem_attach_pred links r (h.unlinked r hr).1, hlinks.pred, hcross]
    constructor
    · rintro ⟨t, ht, htx, r', hr', hid, hne, hleads⟩
      obtain rfl := h.eq_of_region_id hr' hr hid
      exact ⟨t, ht, htx, hne.symm, by simpa [Region.Leads] using hleads⟩
    · rintro ⟨t, ht, htx, hne, hleads⟩
      exact ⟨t, ht, htx, r, hr, rfl, hne.symm, by simpa [Region.Leads] using hleads⟩

end Growing.Built

/-- On every graph in range, with chunks of at least one block, the partition is sound. -/
theorem partition_sound {idx : CfgIndex} (hrange : idx.InRange) {opts : PartitionOptions}
    (hopts : 1 ≤ opts.max_chunk_blocks) :
    ∃ p, partition idx opts = (.ok p : Outcome ε Partition) ∧ p.Sound idx opts := by
  obtain ⟨gs, hgs, hgroups⟩ := groups_spec (ε := ε) hrange hopts
  obtain ⟨g, hpush, hg⟩ := push_groups (ε := ε) hrange hgroups.perm
  obtain ⟨links, hlinks, hholds⟩ := links_spec (ε := ε) hrange g.block_region
  rw [partition]
  rw [hgs, Outcome.ok_bind, hpush, Outcome.ok_bind]
  dsimp only
  rw [hlinks, Outcome.ok_bind]
  exact ⟨_, rfl, hg.sound hgroups hholds rfl rfl⟩

namespace Partition.Sound

variable {idx : CfgIndex} {opts : PartitionOptions} {p : Partition}

lemma ids_nodup (h : p.Sound idx opts) : (p.regions.map Region.region_id).Nodup := by
  rw [h.ids]
  exact regionIds_nodup _

lemma eq_of_region_id (h : p.Sound idx opts) {r t : Region} (hr : r ∈ p.regions)
    (ht : t ∈ p.regions) (heq : r.region_id = t.region_id) : r = t :=
  List.inj_on_of_nodup_map h.ids_nodup hr ht heq

/-- The regions list the addresses of the graph. -/
lemma eas_perm (h : p.Sound idx opts) :
    (p.regions.map Region.block_eas).flatten.Perm idx.block_eas := by
  have hmap : p.regions.map Region.block_eas =
      (p.regions.map Region.block_ids).map (List.map fun b => idx.block_eas[b]?.getD 0) := by
    rw [List.map_map]
    exact List.map_congr_left h.eas
  have hall : (List.range idx.block_eas.length).map (fun b => idx.block_eas[b]?.getD 0) =
      idx.block_eas := by
    refine List.ext_getElem (by simp) fun b hb hb' => ?_
    simp [List.getElem?_eq_getElem hb']
  rw [hmap, ← List.map_flatten]
  exact (h.blocks.map _).trans (List.Perm.of_eq hall)

/-- The regions are the blocks that belong together. -/
lemma together_iff (h : p.Sound idx opts) {a b : ℕ} (ha : a < idx.block_eas.length) :
    idx.Together opts a b ↔ ∃ r ∈ p.regions, a ∈ r.block_ids ∧ b ∈ r.block_ids := by
  obtain ⟨bs, hbs, har⟩ := List.mem_flatten.mp (h.blocks.mem_iff.mpr (List.mem_range.mpr ha))
  obtain ⟨r, hr, rfl⟩ := List.mem_map.mp hbs
  have hunique : ∀ t ∈ p.regions, a ∈ t.block_ids → t = r := by
    intro t ht hat
    have hmap := (h.block_region a t.region_id).mpr ⟨t, ht, rfl, hat⟩
    rw [(h.block_region a r.region_id).mpr ⟨r, hr, rfl, har⟩] at hmap
    exact h.eq_of_region_id ht hr (Option.some.inj hmap).symm
  constructor
  · intro htog
    refine ⟨r, hr, har, ?_⟩
    rcases htog with hsame | ⟨hla, hlb, hchunk⟩
    · by_cases hba : b = a
      · rw [hba]
        exact har
      · obtain ⟨t, ht, hrole, hat⟩ := h.loops a ha b hba hsame
        rw [hunique t ht hat] at hrole
        exact ((h.scc r hr hrole).2 a har b).mpr hsame
    · by_cases hrole : r.role = .chunk
      · obtain ⟨-, i, hi⟩ := h.chunk r hr hrole
        exact (hi b).mpr ⟨hlb, hchunk ▸ ((hi a).mp har).2⟩
      · -- a loop region has another block of the component
        obtain ⟨hlen, hscc⟩ := h.scc r hr hrole
        have hnodup : r.block_ids.Nodup :=
          (h.blocks.nodup_iff.mpr List.nodup_range).sublist (List.sublist_flatten_of_mem hbs)
        have hone := length_le_one_of_nodup hnodup fun w hw => hla.2 w ((hscc a har w).mp hw)
        omega
  · rintro ⟨t, ht, hat, hbt⟩
    obtain rfl := hunique t ht hat
    by_cases hrole : t.role = .chunk
    · obtain ⟨-, i, hi⟩ := h.chunk t hr hrole
      obtain ⟨hla, hca⟩ := (hi a).mp hat
      obtain ⟨hlb, hcb⟩ := (hi b).mp hbt
      exact .inr ⟨hla, hlb, hca.trans hcb.symm⟩
    · exact .inl (((h.scc t hr hrole).2 a hat b).mp hbt)

end Partition.Sound

/-- On every graph in range and for every positive chunk size, the partition has every block in
exactly one region; the region ids are unique; the block map names the region that lists the block;
the loop and dispatcher regions are the strongly connected components of more than one block; chunks
are bounded; and the links between two different regions, from both sides, are the block edges
between them. -/
theorem partition_wellFormed (idx : CfgIndex) (opts : PartitionOptions) (hrange : idx.InRange)
    (hopts : 1 ≤ opts.max_chunk_blocks) :
    ∃ p, partition idx opts = (.ok p : Outcome ε Partition) ∧
      (p.regions.map Region.block_ids).flatten.Perm (List.range idx.block_eas.length) ∧
      (p.regions.map Region.block_eas).flatten.Perm idx.block_eas ∧
      (p.regions.map Region.region_id).Nodup ∧
      (∀ b id, p.block_region[b]? = some id ↔
        ∃ r ∈ p.regions, r.region_id = id ∧ b ∈ r.block_ids) ∧
      (∀ r ∈ p.regions, r.role ≠ .chunk → 1 < r.block_ids.length ∧
        (r.role = .dispatcher ↔ opts.min_dispatcher_scc ≤ r.block_ids.length) ∧
        ∃ v ∈ r.block_ids, ∀ w, w ∈ r.block_ids ↔ SameScc idx.succ v w) ∧
      (∀ v < idx.block_eas.length, (∃ w, w ≠ v ∧ SameScc idx.succ v w) →
        ∃ r ∈ p.regions, r.role ≠ .chunk ∧ ∀ w, w ∈ r.block_ids ↔ SameScc idx.succ v w) ∧
      (∀ r ∈ p.regions, r.role = .chunk → r.block_ids.length ≤ opts.max_chunk_blocks) ∧
      ∀ r ∈ p.regions, ∀ t ∈ p.regions, r ≠ t →
        (t.region_id ∈ r.succ_regions ↔ r.Leads idx t) ∧
        (r.region_id ∈ t.pred_regions ↔ r.Leads idx t) := by
  obtain ⟨p, hp, h⟩ := partition_sound (ε := ε) hrange hopts
  refine ⟨p, hp, h.blocks, h.eas_perm, h.ids_nodup, h.block_region, ?_, ?_,
    fun r hr hrole => (h.chunk r hr hrole).1, ?_⟩
  · intro r hr hrole
    obtain ⟨hlen, hscc⟩ := h.scc r hr hrole
    obtain ⟨v, hv⟩ := List.exists_mem_of_ne_nil _ (h.ne_nil r hr)
    exact ⟨hlen, h.dispatcher r hr hrole, v, hv, hscc v hv⟩
  · rintro v hv ⟨w, hne, hsame⟩
    obtain ⟨r, hr, hrole, hvr⟩ := h.loops v hv w hne hsame
    exact ⟨r, hr, hrole, (h.scc r hr hrole).2 v hvr⟩
  · intro r hr t ht hne
    -- the links are between ids, which tell the regions apart
    have hids : r.region_id ≠ t.region_id := fun heq => hne (h.eq_of_region_id hr ht heq)
    constructor
    · rw [h.succ r hr]
      constructor
      · rintro ⟨t', ht', hid, -, hleads⟩
        exact h.eq_of_region_id ht' ht hid ▸ hleads
      · intro hleads
        exact ⟨t, ht, rfl, hids.symm, hleads⟩
    · rw [h.pred t ht]
      constructor
      · rintro ⟨r', hr', hid, -, hleads⟩
        exact h.eq_of_region_id hr' hr hid ▸ hleads
      · intro hleads
        exact ⟨r, hr, rfl, hids, hleads⟩

/-- The loop 1 → 2 → 1 and the chain before and behind it. -/
theorem partition_wellFormed_loop :
    let idx : CfgIndex := ⟨[0x1000, 0x1010, 0x1020, 0x1030, 0x1040], [[1], [2], [1, 3], [4], []]⟩
    idx.InRange ∧ ∃ p, partition idx {} = (.ok p : Outcome Empty Partition) ∧
      p.regions.map Region.block_ids = [[1, 2], [0, 3, 4]] ∧
      (p.regions.map Region.block_ids).flatten.Perm (List.range 5) ∧
      (p.regions.map Region.region_id).Nodup := by
  have h : CfgIndex.InRange
      ⟨[0x1000, 0x1010, 0x1020, 0x1030, 0x1040], [[1], [2], [1, 3], [4], []]⟩ := by decide
  obtain ⟨p, hp, hblocks, -, hids, -⟩ := partition_wellFormed (ε := Empty) _ {} h (by decide)
  have hval : ((partition (ε := Empty)
      ⟨[0x1000, 0x1010, 0x1020, 0x1030, 0x1040], [[1], [2], [1, 3], [4], []]⟩ {}) >>= fun q =>
        .ok (q.regions.map Region.block_ids)) = .ok [[1, 2], [0, 3, 4]] := by decide +kernel
  rw [hp] at hval
  exact ⟨h, p, hp, Outcome.ok.inj hval, hblocks, hids⟩

end ReverseMcp
