import ReverseMcp.Broker.GraphIndex
import ReverseMcp.Broker.RegionBorders
import ReverseMcp.Worker.Arms

/-!
# The addresses requested for a region

`tool_analyze_hierarchical` and `tool_analyze_region` ask the worker for the instructions of a
region from the start of its first block up to the start of its last one, or one byte further.  The
last block itself is cut off, all of it or behind its first instruction.
-/

namespace ReverseMcp

open Rust

variable {ε : Type}

/-- `partition_from_graph`. -/
def partition_from_graph (graph : Json) (ea : U64) (opts : PartitionOptions) :
    Outcome ε Partition := do
  let p ← partition (cfg_index_from_graph graph).toCfgIndex opts
  return { p with function_ea := ea }

/-! ## The requests -/

/-- `saturating_add(1)`. -/
def saturatingSucc (ea : U64) : U64 := asU64 (min (ea.val + 1) (2 ^ 64 - 1))

/-- The role as a value. -/
def RegionRole.to_value : RegionRole → Json
  | loop => "loop"
  | dispatcher => "dispatcher"
  | chunk => "chunk"

/-- `block_eas.first()`. -/
def Region.entry_ea (r : Region) : U64 := r.block_eas.head?.getD 0

/-- `block_eas.last()`. -/
def Region.exit_ea (r : Region) : U64 := r.block_eas.getLast?.getD 0

/-- The requests for the instructions of a region. -/
inductive RegionRequest where
  /-- `region.evidence` for `function_hierarchical`. -/
  | hierarchicalEvidence
  /-- `disassemble` for `function_region`. -/
  | regionDisassemble
  /-- `region.evidence` for `function_region`. -/
  | regionEvidence
deriving DecidableEq

namespace RegionRequest

/-- The parameters of the request. -/
def params (r : Region) (max_insns : U64) : RegionRequest → Json
  | hierarchicalEvidence => .object [("ea", .ea r.entry_ea), ("end_ea", .ea r.exit_ea),
      ("region_id", r.region_id), ("role", r.role.to_value), ("max_insns", .u64 4000)]
  | regionDisassemble => .object [("ea", .ea r.entry_ea), ("end", .ea (saturatingSucc r.exit_ea)),
      ("max_insns", .u64 max_insns)]
  | regionEvidence => .object [("ea", .ea r.entry_ea), ("end_ea", .ea (saturatingSucc r.exit_ea)),
      ("region_id", r.region_id), ("role", r.role.to_value), ("max_insns", .u64 max_insns)]

/-- The field that the worker reads the end from. -/
def endKey : RegionRequest → String
  | hierarchicalEvidence => "end_ea"
  | regionDisassemble => "end"
  | regionEvidence => "end_ea"

/-- The addresses between which the worker disassembles, as it reads them. -/
def window (q : RegionRequest) (r : Region) (max_insns : U64) : Result (U64 × Option U64) := do
  let ea ← ea_param (q.params r max_insns) "ea"
  let end_ea ← ea_param_opt (q.params r max_insns) q.endKey
  return (ea, end_ea)

/-- The end that is asked for. -/
def stop (r : Region) : RegionRequest → U64
  | hierarchicalEvidence => r.exit_ea
  | regionDisassemble => saturatingSucc r.exit_ea
  | regionEvidence => saturatingSucc r.exit_ea

lemma parse_ea_param_hex (ea : U64) : parse_ea_param (hex ea) = .ok ea :=
  ofParse_eq_ok.mpr (parseAddress_hex ea)

/-- The worker reads what was asked for. -/
lemma window_eq (q : RegionRequest) (r : Region) (max_insns : U64) :
    q.window r max_insns = .ok (r.entry_ea, some (q.stop r)) := by
  have hea : ea_param (q.params r max_insns) "ea" = .ok r.entry_ea := by
    cases q <;> exact parse_ea_param_hex r.entry_ea
  have hend : ea_param_opt (q.params r max_insns) q.endKey = .ok (some (q.stop r)) := by
    have hread : ea_param_opt (q.params r max_insns) q.endKey =
        (parse_ea_param (hex (q.stop r)) >>= fun ea => .ok (some ea)) := by
      cases q <;> rfl
    rw [hread, parse_ea_param_hex]
    rfl
  rw [window, hea, Outcome.ok_bind, hend]
  rfl

end RegionRequest

/-! ## The order of the blocks -/

/-- The blocks of a group are in ascending order. -/
lemma groups_ascending {idx : CfgIndex} {opts : PartitionOptions} {gs : List Group}
    (h : idx.groups opts = (.ok gs : Outcome ε (List Group))) :
    ∀ x ∈ gs, x.blocks.Pairwise (· ≤ ·) := by
  rw [CfgIndex.groups] at h
  obtain ⟨sccs, -, h⟩ := Outcome.bind_eq_ok.mp h
  obtain ⟨in_loop, -, h⟩ := Outcome.bind_eq_ok.mp h
  obtain ⟨pieces, hpieces, h⟩ := Outcome.bind_eq_ok.mp h
  cases h
  intro x hx
  rcases List.mem_append.mp hx with hx | hx
  · obtain ⟨scc, -, rfl⟩ := List.mem_map.mp hx
    exact (sortByKey_pairwise id scc).imp fun h => Nat.isLE_compare.mp h
  · obtain ⟨piece, hpiece, rfl⟩ := List.mem_map.mp hx
    have hpos : 0 < opts.max_chunk_blocks := by
      rw [chunks] at hpieces
      split at hpieces
      · cases hpieces
      · omega
    obtain ⟨pieces', hpieces', -, hsize⟩ := chunks_spec (ε := ε) hpos
      ((List.range idx.block_eas.length).filter fun b => !(in_loop[b]?.getD false))
    obtain rfl : pieces' = pieces := Outcome.ok.inj (hpieces'.symm.trans hpieces)
    obtain ⟨-, i, rfl⟩ := hsize piece hpiece
    have hrange : (List.range idx.block_eas.length).Pairwise (· ≤ ·) :=
      List.pairwise_lt_range.imp le_of_lt
    exact hrange.sublist (((List.take_sublist _ _).trans (List.drop_sublist _ _)).trans
      List.filter_sublist)

/-- The blocks of a region are in ascending order. -/
lemma partition_ascending {idx : CfgIndex} (hrange : idx.InRange) {opts : PartitionOptions}
    {p : Partition} (h : partition idx opts = (.ok p : Outcome ε Partition)) :
    ∀ r ∈ p.regions, r.block_ids.Pairwise (· ≤ ·) := by
  obtain ⟨gs, hgs, hgroups⟩ := groups_spec (ε := ε) hrange (partition_chunks_pos h)
  obtain ⟨g, hpush, hg⟩ := push_groups (ε := ε) hrange hgroups.perm
  rw [partition, hgs, Outcome.ok_bind, hpush, Outcome.ok_bind] at h
  obtain ⟨links, -, h⟩ := Outcome.bind_eq_ok.mp h
  cases h
  intro r' hr'
  obtain ⟨r, hr, rfl⟩ := List.mem_map.mp hr'
  obtain ⟨x, hx, -, hblocks⟩ := hg.group_of hr
  rw [attach_eq]
  show r.block_ids.Pairwise (· ≤ ·)
  rw [← hblocks]
  exact groups_ascending hgs x hx

/-! ## What is covered -/

/-- An address is in a block: the block reaches up to the next one, and the last one up to the end
of the function. -/
def CfgIndex.InBlock (idx : CfgIndex) (function_end : U64) (b : ℕ) (x : U64) : Prop :=
  ∃ start, idx.block_eas[b]? = some start ∧ start ≤ x ∧ x < idx.block_eas[b + 1]?.getD function_end

/-- The window has all instructions of the blocks of the region. -/
def Region.CoveredBy (r : Region) (idx : CfgIndex) (function_end : U64) (insns : List U64)
    (window : U64 × Option U64) : Prop :=
  ∀ b ∈ r.block_ids, ∀ x ∈ insns, idx.InBlock function_end b x →
    window.1 ≤ x ∧ ∀ stop, window.2 = some stop → x < stop

section Coverage

variable {idx : CfgIndex} {opts : PartitionOptions} {p : Partition} {r : Region}

/-- The ends of the list of blocks are the first and the last address of the region. -/
lemma Partition.Sound.region_ends (h : p.Sound idx opts) (hr : r ∈ p.regions)
    (hasc : r.block_ids.Pairwise (· ≤ ·)) :
    ∃ first last, r.block_ids.getLast? = some last ∧ last ∈ r.block_ids ∧
      (∀ b ∈ r.block_ids, first ≤ b ∧ b ≤ last) ∧
      idx.block_eas[first]? = some r.entry_ea ∧ idx.block_eas[last]? = some r.exit_ea := by
  have heas := h.eas r hr
  obtain ⟨first, blocks, hblocks⟩ := List.exists_cons_of_ne_nil (h.ne_nil r hr)
  have hlt : ∀ b ∈ r.block_ids, b < idx.block_eas.length := fun b hb => List.mem_range.mp
    (h.blocks.mem_iff.mp (List.mem_flatten.mpr ⟨_, List.mem_map.mpr ⟨r, hr, rfl⟩, hb⟩))
  have hget : ∀ b ∈ r.block_ids, idx.block_eas[b]? = some (idx.block_eas[b]?.getD 0) :=
    fun b hb => by
    rw [List.getElem?_eq_getElem (hlt b hb)]
    rfl
  have hlast : r.block_ids.getLast? = some (r.block_ids.getLast (h.ne_nil r hr)) :=
    List.getLast?_eq_some_getLast _
  have hmem := List.getLast_mem (h.ne_nil r hr)
  refine ⟨first, _, hlast, hmem, fun b hb => ⟨?_, ?_⟩, ?_, ?_⟩
  · rw [hblocks] at hb hasc
    rcases List.mem_cons.mp hb with rfl | hb
    · exact le_rfl
    · exact (List.pairwise_cons.mp hasc).1 b hb
  · have hsplit := List.dropLast_concat_getLast (h.ne_nil r hr)
    rw [← hsplit] at hb hasc
    rcases List.mem_append.mp hb with hb | hb
    · exact (List.pairwise_append.mp hasc).2.2 b hb _ (List.mem_singleton.mpr rfl)
    · exact (List.mem_singleton.mp hb).le
  · rw [hget first (by rw [hblocks]; exact List.mem_cons_self), Region.entry_ea, heas, hblocks]
    rfl
  · rw [hget _ hmem, Region.exit_ea, heas, List.getLast?_map, hlast]
    rfl

/-- Addresses of blocks are in the order of the blocks. -/
lemma block_eas_mono (hasc : idx.block_eas.Pairwise (· < ·)) {a b : ℕ} (hab : a ≤ b) {ea ea' : U64}
    (ha : idx.block_eas[a]? = some ea) (hb : idx.block_eas[b]? = some ea') : ea ≤ ea' := by
  obtain ⟨hlt, rfl⟩ := List.getElem?_eq_some_iff.mp ha
  obtain ⟨hlt', rfl⟩ := List.getElem?_eq_some_iff.mp hb
  rcases hab.lt_or_eq with hab | rfl
  · exact (List.pairwise_iff_getElem.mp hasc a b hlt hlt' hab).le
  · exact le_rfl

/-- All blocks but the last are before the last. -/
lemma inBlock_lt (hasc : idx.block_eas.Pairwise (· < ·)) {function_end x ea : U64} {b last : ℕ}
    (hx : idx.InBlock function_end b x) (hb : b < last) (hlast : idx.block_eas[last]? = some ea) :
    x < ea := by
  obtain ⟨start, -, -, hlt⟩ := hx
  obtain ⟨hlt', -⟩ := List.getElem?_eq_some_iff.mp hlast
  have hlen : b + 1 < idx.block_eas.length := by omega
  have hnext := List.getElem?_eq_getElem hlen
  rw [hnext] at hlt
  exact hlt.trans_le (block_eas_mono hasc hb hnext hlast)

lemma saturatingSucc_lt {x ea : U64} (hle : ea ≤ x) :
    x < saturatingSucc ea ↔ x = ea ∧ x.val + 1 < 2 ^ 64 := by
  have hval : (saturatingSucc ea).val = min (ea.val + 1) (2 ^ 64 - 1) := by
    rw [saturatingSucc, asU64_val]
    omega
  have hle' : ea.val ≤ x.val := hle
  rw [Fin.lt_def, hval, Fin.ext_iff]
  omega

/-- A window covers its region if and only if it has the instructions of the last block. -/
lemma coveredBy_iff (hasc : idx.block_eas.Pairwise (· < ·)) (h : p.Sound idx opts)
    (hr : r ∈ p.regions)
    (hblocks : r.block_ids.Pairwise (· ≤ ·)) (function_end : U64) (insns : List U64) {stop : U64}
    (hstop : r.exit_ea ≤ stop) :
    ∃ last, r.block_ids.getLast? = some last ∧ idx.block_eas[last]? = some r.exit_ea ∧
      (r.CoveredBy idx function_end insns (r.entry_ea, some stop) ↔
        ∀ x ∈ insns, idx.InBlock function_end last x → x < stop) := by
  obtain ⟨first, last, hlast, hmem, hbetween, hentry, hexit⟩ := h.region_ends hr hblocks
  refine ⟨last, hlast, hexit, fun hcov x hx hin => (hcov last hmem x hx hin).2 stop rfl, ?_⟩
  intro hcov b hb x hx hin
  obtain ⟨hfirst, hle⟩ := hbetween b hb
  refine ⟨?_, ?_⟩
  · obtain ⟨start, hstart, hlex, -⟩ := hin
    exact (block_eas_mono hasc hfirst hentry hstart).trans hlex
  · rintro _ ⟨⟩
    rcases hle.lt_or_eq with hlt | rfl
    · exact (inBlock_lt hasc hin hlt hexit).trans_le hstop
    · exact hcov x hx hin

end Coverage

lemma partition_from_graph_eq {graph : Json} {opts : PartitionOptions} {p : Partition}
    (hp : partition (cfg_index_from_graph graph).toCfgIndex opts = (.ok p : Outcome ε Partition))
    (ea : U64) :
    partition_from_graph graph ea opts =
      (.ok { p with function_ea := ea } : Outcome ε Partition) := by
  rw [partition_from_graph, hp]
  rfl

/-- The partition of a graph is sound. -/
lemma partition_from_graph_sound {graph : Json} {ea : U64} {opts : PartitionOptions}
    {p : Partition} (hp : partition_from_graph graph ea opts = (.ok p : Outcome ε Partition)) :
    p.Sound (cfg_index_from_graph graph).toCfgIndex opts := by
  obtain ⟨p', hp', heq⟩ := Outcome.bind_eq_ok.mp hp
  cases heq
  obtain ⟨p'', hp'', hsound⟩ := partition_sound (ε := ε) (cfg_index_inRange graph)
    (partition_chunks_pos hp')
  obtain rfl : p'' = p' := Outcome.ok.inj (hp''.symm.trans hp')
  exact { hsound with }

/-- For every region of every graph: the request of `function_hierarchical` covers the region if and
only if its last block has no instruction, and those of `function_region` do if and only if the last
block has none but the one at its start. -/
theorem region_window_covers_iff (graph : Json) (ea : U64) (opts : PartitionOptions) (p : Partition)
    (hp : partition_from_graph graph ea opts = (.ok p : Outcome ε Partition)) (function_end : U64)
    (insns : List U64) :
    ∀ r ∈ p.regions, ∃ last, r.block_ids.getLast? = some last ∧
      ∀ (q : RegionRequest) (max_insns : U64), ∃ window, q.window r max_insns = .ok window ∧
        (r.CoveredBy (cfg_index_from_graph graph).toCfgIndex function_end insns window ↔
          ∀ x ∈ insns, (cfg_index_from_graph graph).InBlock function_end last x →
            q ≠ .hierarchicalEvidence ∧ (cfg_index_from_graph graph).block_eas[last]? = some x ∧
              x.val + 1 < 2 ^ 64) := by
  intro r hr
  have hsound := partition_from_graph_sound hp
  obtain ⟨p', hp', heq⟩ := Outcome.bind_eq_ok.mp hp
  cases heq
  have hblocks := partition_ascending (cfg_index_inRange graph) hp' r hr
  have hasc := graphEas_ascending graph
  have hle : ∀ q : RegionRequest, r.exit_ea ≤ q.stop r := by
    have hsucc : r.exit_ea ≤ saturatingSucc r.exit_ea := by
      rw [Fin.le_def, saturatingSucc, asU64_val (by omega)]
      have := r.exit_ea.isLt
      omega
    intro q
    cases q with
    | hierarchicalEvidence => exact le_rfl
    | regionDisassemble => exact hsucc
    | regionEvidence => exact hsucc
  obtain ⟨first, last, hlast, -, -, -, hexit⟩ := hsound.region_ends hr hblocks
  refine ⟨last, hlast, fun q max_insns => ⟨_, q.window_eq r max_insns, ?_⟩⟩
  obtain ⟨last', hlast', -, hcovered⟩ :=
    coveredBy_iff hasc hsound hr hblocks function_end insns (hle q)
  obtain rfl : last' = last := Option.some.inj (hlast'.symm.trans hlast)
  rw [hcovered]
  refine forall₂_congr fun x _ => forall_congr' fun hin => ?_
  have hlex : r.exit_ea ≤ x := by
    obtain ⟨start, hstart, hlex, -⟩ := hin
    exact Option.some.inj (hexit.symm.trans hstart) ▸ hlex
  cases q with
  | hierarchicalEvidence => exact iff_of_false hlex.not_gt fun h => h.1 rfl
  | regionDisassemble | regionEvidence =>
    show x < saturatingSucc r.exit_ea ↔ _
    rw [saturatingSucc_lt hlex, hexit]
    simp [eq_comm]

/-- Two blocks of one instruction each are covered by the request of `function_region`. -/
theorem region_window_covers_iff_pair :
    let graph : Json := .object [("nodes", .array [nodeAt 0x1000 false, nodeAt 0x1004 false]),
      ("edges", .array [.object [("from", .u64 0x1000), ("to", .u64 0x1004)]])]
    ∃ p, partition_from_graph graph 0x1000 {} = (.ok p : Outcome Empty Partition) ∧
      ∀ r ∈ p.regions, ∃ window, RegionRequest.regionEvidence.window r 4000 = .ok window ∧
        r.CoveredBy (cfg_index_from_graph graph).toCfgIndex 0x1008 [0x1000, 0x1004] window := by
  intro graph
  obtain ⟨p, hp, -⟩ := @partition_sound Empty _ (cfg_index_inRange graph) {} (by decide)
  have hpart := partition_from_graph_eq hp 0x1000
  refine ⟨_, hpart, fun r hr => ?_⟩
  have hval : ((partition (ε := Empty) (cfg_index_from_graph graph).toCfgIndex {}) >>= fun q =>
      .ok (q.regions.map Region.block_ids)) = .ok [[0, 1]] := by decide +kernel
  rw [hp, Outcome.ok_bind] at hval
  have hblocks : r.block_ids = [0, 1] := by
    have hmem : r.block_ids ∈ p.regions.map Region.block_ids := List.mem_map_of_mem hr
    rw [Outcome.ok.inj hval] at hmem
    exact List.mem_singleton.mp hmem
  obtain ⟨last, hlast, hcovers⟩ := region_window_covers_iff graph 0x1000 {} _ hpart 0x1008
    [0x1000, 0x1004] r hr
  obtain rfl : last = 1 := by
    rw [hblocks] at hlast
    exact (Option.some.inj hlast).symm
  obtain ⟨window, hwindow, hiff⟩ := hcovers .regionEvidence 4000
  refine ⟨window, hwindow, hiff.mpr fun x hx hin => ?_⟩
  have heas : (cfg_index_from_graph graph).block_eas = [0x1000, 0x1004] := by decide +kernel
  obtain ⟨start, hstart, hle, -⟩ := hin
  rw [heas] at hstart ⊢
  cases hstart
  simp only [List.mem_cons, List.not_mem_nil, or_false] at hx
  rcases hx with rfl | rfl
  · exact absurd hle (by decide)
  · exact ⟨nofun, rfl, by decide⟩

/-- One block with two instructions: no request has the second one, and that of
`function_hierarchical` has neither. -/
theorem last_block_cut_off :
    let graph : Json := .object [("nodes", .array [nodeAt 0x1000 false]), ("edges", .array [])]
    ∃ p, partition_from_graph graph 0x1000 {} = (.ok p : Outcome Empty Partition) ∧
      ∃ r ∈ p.regions,
        RegionRequest.hierarchicalEvidence.window r 4000 = .ok (0x1000, some 0x1000) ∧
        RegionRequest.regionEvidence.window r 4000 = .ok (0x1000, some 0x1001) ∧
        ∀ q : RegionRequest, ∃ window, q.window r 4000 = .ok window ∧
          ¬ r.CoveredBy (cfg_index_from_graph graph).toCfgIndex 0x1008 [0x1000, 0x1004] window := by
  intro graph
  obtain ⟨p, hp, -⟩ := @partition_sound Empty _ (cfg_index_inRange graph) {} (by decide)
  have hval : ((partition (ε := Empty) (cfg_index_from_graph graph).toCfgIndex {}) >>= fun q =>
      .ok (q.regions.map fun r => (r.block_ids, r.block_eas))) = .ok [([0], [0x1000])] := by
    decide +kernel
  rw [hp, Outcome.ok_bind] at hval
  have hmem : ([0], [0x1000]) ∈ p.regions.map fun r => (r.block_ids, r.block_eas) := by
    rw [Outcome.ok.inj hval]
    exact List.mem_singleton_self _
  obtain ⟨r, hr, heq⟩ := List.mem_map.mp hmem
  obtain ⟨hblocks, heas⟩ := Prod.mk.inj heq
  have hentry : r.entry_ea = 0x1000 := by rw [Region.entry_ea, heas]; rfl
  have hexit : r.exit_ea = 0x1000 := by rw [Region.exit_ea, heas]; rfl
  have hstops : RegionRequest.hierarchicalEvidence.stop r = 0x1000 ∧
      RegionRequest.regionEvidence.stop r = 0x1001 := by
    refine ⟨hexit, ?_⟩
    show saturatingSucc r.exit_ea = _
    rw [hexit]
    decide
  refine ⟨{ p with function_ea := 0x1000 }, partition_from_graph_eq hp _, r, hr, ?_, ?_,
    fun q => ⟨_, q.window_eq r 4000, fun h => ?_⟩⟩
  · rw [RegionRequest.window_eq, hentry, hstops.1]
  · rw [RegionRequest.window_eq, hentry, hstops.2]
  · have hle : q.stop r ≤ 0x1001 := by
      cases q with
      | hierarchicalEvidence => exact hstops.1 ▸ by decide
      | regionDisassemble => exact hstops.2.le
      | regionEvidence => exact hstops.2.le
    have hidx : (cfg_index_from_graph graph).block_eas = [0x1000] := by decide +kernel
    have hin : (cfg_index_from_graph graph).InBlock 0x1008 0 0x1004 := by
      refine ⟨0x1000, by rw [hidx]; rfl, by decide, ?_⟩
      rw [hidx]
      decide
    obtain ⟨-, hlt⟩ := h 0 (by rw [hblocks]; exact List.mem_singleton_self _) 0x1004 (by decide) hin
    exact absurd ((hlt _ rfl).trans_le hle) (by decide)

end ReverseMcp
