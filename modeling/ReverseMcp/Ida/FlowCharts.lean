import Mathlib.Data.List.Dedup
import ReverseMcp.Broker.RegionCycles
import ReverseMcp.Broker.RegionWindows
import ReverseMcp.Ida.Graphs

/-!
# Flow charts of the real backend

`graph kind=cfg` on an open database, and what the broker makes of the answer.  The blocks of the
flow chart become nodes and the flows between them edges, unless there are as many of them as a cap
(`graph_cfg_exact`).  A block without successors flows to the next block behind it, also when it
returns.  From such an answer the broker cuts the function into regions: these cover the blocks of
the flow chart, the loops among them are its strongly connected components, and the links between
them are its flows (`flow_chart_regions`).
-/

namespace ReverseMcp

open Rust ReverseMcp.Graph

namespace Idb

/-! ## Flow charts -/

/-- Where the flows from an address lead, that from a block without successors among them: a return,
say, is linked to the next block behind it. -/
def leads (blocks : List BasicBlock) (u : U64) : List U64 :=
  (blocks.filter fun b => b.start = u).flatMap (flows blocks)

/-- The flows between blocks. -/
def flowEdges (blocks : List BasicBlock) : List (U64 × U64) :=
  blocks.flatMap fun b => (flows blocks b).map fun v => (b.start, v)

/-- The addresses of a flow chart. -/
def starts (root : Function) (blocks : List BasicBlock) : List U64 :=
  root.start :: blocks.map BasicBlock.start

section Flows

variable {blocks : List BasicBlock} {u v : U64}

lemma mem_leads : v ∈ leads blocks u ↔ ∃ b ∈ blocks, b.start = u ∧ v ∈ flows blocks b := by
  simp [leads, and_assoc]

lemma mem_flowEdges : (u, v) ∈ flowEdges blocks ↔ v ∈ leads blocks u := by
  rw [mem_leads, flowEdges, List.mem_flatMap]
  simp only [List.mem_map, Prod.mk.injEq]
  constructor
  · rintro ⟨b, hb, w, hw, rfl, rfl⟩
    exact ⟨b, hb, rfl, hw⟩
  · rintro ⟨b, hb, rfl, hv⟩
    exact ⟨b, hb, v, hv, rfl, rfl⟩

/-- A flow leads to the start of a block. -/
lemma mem_starts_of_flows {b : BasicBlock} (hv : v ∈ flows blocks b) :
    v ∈ blocks.map BasicBlock.start := by
  rw [flows] at hv
  split at hv
  · rw [Option.mem_toList, Option.map_eq_some_iff] at hv
    obtain ⟨n, hn, rfl⟩ := hv
    exact List.mem_map_of_mem (List.mem_of_find?_eq_some hn)
  · obtain ⟨id, -, hid⟩ := List.mem_filterMap.mp hv
    obtain ⟨n, hn, rfl⟩ := Option.map_eq_some_iff.mp hid
    exact List.mem_map_of_mem (List.mem_of_getElem? hn)

end Flows

end Idb

/-! ## The chart of an answer -/

namespace Graphing

variable {params : GraphParams} {g : Graphing} {vs : List U64} {es : List (U64 × U64)}

/-- The graph has these nodes and edges, each of them once, and is not cut off. -/
structure Chart (vs : List U64) (es : List (U64 × U64)) (g : Graphing) : Prop where
  nodes_nodup : g.addresses.Nodup
  mem_nodes : ∀ v, v ∈ g.addresses ↔ v ∈ vs
  seen_nodes : ∀ v, v ∈ g.seen_nodes ↔ v ∈ vs
  edges_nodup : (g.edges.map GraphEdge.ends).Nodup
  mem_edges : ∀ p, p ∈ g.edges.map GraphEdge.ends ↔ p ∈ es
  seen_edges : ∀ p, p ∈ g.seen_edges ↔ p ∈ es
  complete : g.truncated = false

/-- A list without repetition that has the elements of another one is as long as its `dedup`. -/
lemma length_eq_dedup {α : Type} [DecidableEq α] {l m : List α} (hl : l.Nodup)
    (hmem : ∀ x, x ∈ l ↔ x ∈ m) : l.length = m.dedup.length := by
  refine ((List.perm_ext_iff_of_nodup hl m.nodup_dedup).mpr fun x => ?_).length_eq
  rw [hmem, List.mem_dedup]

lemma dedup_length_append_le {α : Type} [DecidableEq α] (l m : List α) :
    l.dedup.length ≤ (l ++ m).dedup.length := by
  refine (l.nodup_dedup.subperm fun x hx => ?_).length_le
  rw [List.mem_dedup] at hx ⊢
  exact List.mem_append_left m hx

namespace Chart

lemma nodes_length (h : Chart vs es g) : g.nodes.length = vs.dedup.length := by
  rw [← length_eq_dedup h.nodes_nodup h.mem_nodes, addresses, List.length_map]

lemma edges_length (h : Chart vs es g) : g.edges.length = es.dedup.length := by
  rw [← length_eq_dedup h.edges_nodup h.mem_edges, List.length_map]

lemma add_node (h : Chart vs es g) (hroom : g.nodes.length < params.max_nodes) (ea : U64)
    (name : String) : Chart (vs ++ [ea]) es (g.add_node params ea name) := by
  by_cases hseen : ea ∈ g.seen_nodes
  · have hea : ∀ v, v ∈ vs ++ [ea] ↔ v ∈ vs := by
      intro v
      rw [List.mem_append, List.mem_singleton]
      exact ⟨fun hv => hv.elim id fun hv => hv ▸ (h.seen_nodes ea).mp hseen, .inl⟩
    rw [Graphing.add_node, if_pos hseen]
    exact { h with
      mem_nodes := fun v => (h.mem_nodes v).trans (hea v).symm
      seen_nodes := fun v => (h.seen_nodes v).trans (hea v).symm }
  · have hroom : ¬ params.max_nodes ≤ g.nodes.length := by omega
    have heq : g.add_node params ea name =
        { g with seen_nodes := ea :: g.seen_nodes, nodes := g.nodes ++ [(ea, name)] } := by
      rw [Graphing.add_node, if_neg hseen]
      exact if_neg hroom
    have haddresses : (g.add_node params ea name).addresses = g.addresses ++ [ea] := by
      rw [heq, addresses, List.map_append]
      rfl
    refine ⟨?_, ?_, ?_, ?_, ?_, ?_, ?_⟩
    · rw [haddresses, ← List.concat_eq_append]
      refine h.nodes_nodup.concat fun hea => hseen ?_
      rw [h.seen_nodes]
      exact (h.mem_nodes ea).mp hea
    · intro v
      rw [haddresses, List.mem_append, List.mem_append, h.mem_nodes]
    · intro v
      rw [mem_add_node_seen, List.mem_append, List.mem_singleton, h.seen_nodes]
    · rw [add_node_edges]
      exact h.edges_nodup
    · rw [add_node_edges]
      exact h.mem_edges
    · rw [add_node_seen_edges]
      exact h.seen_edges
    · rw [add_node_truncated]
      exact h.complete

lemma add_edge (h : Chart vs es g) (e : GraphEdge) : Chart vs (es ++ [e.ends]) (g.add_edge e) := by
  rw [Graphing.add_edge]
  split
  · rename_i hseen
    have he : ∀ p, p ∈ es ++ [e.ends] ↔ p ∈ es := by
      intro p
      rw [List.mem_append, List.mem_singleton]
      exact ⟨fun hp => hp.elim id fun hp => hp ▸ (h.seen_edges e.ends).mp hseen, .inl⟩
    exact { h with
      mem_edges := fun p => (h.mem_edges p).trans (he p).symm
      seen_edges := fun p => (h.seen_edges p).trans (he p).symm }
  · rename_i hnew
    have hends : (g.edges ++ [e]).map GraphEdge.ends = g.edges.map GraphEdge.ends ++ [e.ends] := by
      rw [List.map_append, List.map_singleton]
    exact { h with
      edges_nodup := by
        show ((g.edges ++ [e]).map GraphEdge.ends).Nodup
        rw [hends, ← List.concat_eq_append]
        refine h.edges_nodup.concat fun he => hnew ?_
        rw [h.seen_edges]
        exact (h.mem_edges _).mp he
      mem_edges := by
        intro p
        show p ∈ (g.edges ++ [e]).map GraphEdge.ends ↔ _
        rw [hends, List.mem_append, List.mem_append, h.mem_edges]
      seen_edges := by
        intro p
        show p ∈ e.ends :: g.seen_edges ↔ _
        rw [List.mem_cons, List.mem_append, List.mem_singleton, h.seen_edges, or_comm] }

lemma add_edges (h : Chart vs es g) (u : U64) (dsts : List U64) :
    Chart vs (es ++ dsts.map fun v => (u, v))
      (dsts.foldl (fun g dst => g.add_edge ⟨u, dst, none⟩) g) := by
  induction dsts generalizing g es with
  | nil => simpa using h
  | cons v rest ih =>
    rw [List.foldl_cons, List.map_cons, List.append_cons]
    exact ih (h.add_edge ⟨u, v, none⟩)

end Chart

/-! ## The loops over the blocks -/

section Cut

variable (params)

@[simp] lemma add_edge_truncated (e : GraphEdge) : (g.add_edge e).truncated = g.truncated := by
  rw [Graphing.add_edge]
  split
  · rfl
  · rfl

lemma add_edges_truncated (u : U64) (dsts : List U64) (g : Graphing) :
    (dsts.foldl (fun g dst => g.add_edge ⟨u, dst, none⟩) g).truncated = g.truncated := by
  induction dsts generalizing g with
  | nil => rfl
  | cons v rest ih => rw [List.foldl_cons, ih, add_edge_truncated]

/-- What has been cut off stays cut off. -/
lemma addFlows_truncated (blocks rest : List Idb.BasicBlock) (h : g.truncated = true) :
    (addFlows params blocks rest g).truncated = true := by
  induction rest generalizing g with
  | nil => exact h
  | cons b rest ih =>
    rw [addFlows]
    split
    · rfl
    · exact ih ((add_edges_truncated b.start _ g).trans h)

/-- The nodes of the blocks, unless there are too many. -/
lemma addBlocks_chart (blocks : List Idb.BasicBlock) (h : Chart vs es g) :
    Chart (vs ++ blocks.map Idb.BasicBlock.start) es (addBlocks params blocks g) ∨
      (addBlocks params blocks g).truncated = true ∧
        params.max_nodes ≤ (vs ++ blocks.map Idb.BasicBlock.start).dedup.length := by
  induction blocks generalizing g vs with
  | nil =>
    rw [List.map_nil, List.append_nil]
    exact .inl h
  | cons b rest ih =>
    rw [addBlocks]
    split
    · rename_i hcut
      rw [h.nodes_length] at hcut
      exact .inr ⟨rfl, hcut.trans (dedup_length_append_le _ _)⟩
    · rename_i hroom
      rw [List.map_cons, List.append_cons]
      exact ih (h.add_node (by omega) b.start _)

/-- The edges of the blocks, unless there are too many. -/
lemma addFlows_chart (blocks rest : List Idb.BasicBlock) (h : Chart vs es g) :
    Chart vs (es ++ rest.flatMap fun b => (Idb.flows blocks b).map fun v => (b.start, v))
        (addFlows params blocks rest g) ∨
      (addFlows params blocks rest g).truncated = true ∧ params.max_edges ≤
        (es ++ rest.flatMap fun b => (Idb.flows blocks b).map fun v => (b.start, v)).dedup.length
      := by
  induction rest generalizing g es with
  | nil =>
    rw [List.flatMap_nil, List.append_nil]
    exact .inl h
  | cons b rest ih =>
    rw [addFlows]
    split
    · rename_i hcut
      rw [h.edges_length] at hcut
      exact .inr ⟨rfl, hcut.trans (dedup_length_append_le _ _)⟩
    · rw [List.flatMap_cons, ← List.append_assoc]
      exact ih (h.add_edges b.start _)

end Cut

/-! ## The search in a flow chart -/

variable {idb : Idb} {root : Idb.Function} {blocks : List Idb.BasicBlock}

/-- A flow chart is searched in one level. -/
lemma search_cfg (hcfg : (idb.function_at root.start).bind idb.cfg = some blocks)
    (hkind : params.kind = "cfg") (hdepth : 0 < params.depth.val) :
    let g := addFlows params blocks blocks (addBlocks params blocks
      (({} : Graphing).add_node params root.start (root.name.getD "")))
    search idb params root = if g.Full params then { g with truncated := true } else g := by
  obtain ⟨f, hf, hblocks⟩ := Option.bind_eq_some_iff.mp hcfg
  obtain ⟨d, hd⟩ := Nat.exists_eq_succ_of_ne_zero (by omega : params.depth.val ≠ 0)
  have hvisit : ∀ g next, visit idb params (0 < d) root.start g next =
      some (addFlows params blocks blocks (addBlocks params blocks g), next) := by
    intro g next
    rw [visit, hf, hkind]
    dsimp only
    rw [hblocks]
    rfl
  dsimp only
  rw [search, hd, levels, if_neg (by simp), visitAll, hvisit]
  dsimp only
  split
  · rfl
  · rw [visitAll]
    dsimp only
    split
    · rfl
    · cases d with
      | zero => rfl
      | succ d => rfl

lemma Chart.start (hpos : 0 < params.max_nodes) (root : U64) (name : String) :
    Chart [root] [] (({} : Graphing).add_node params root name) := by
  have hempty : Chart [] [] {} := by
    refine ⟨?_, ?_, ?_, ?_, ?_, ?_, rfl⟩
    all_goals simp [addresses]
  exact hempty.add_node hpos root name

/-- The check behind a level. -/
lemma Chart.check (h : Chart vs es g ∨ g.truncated = true ∧
      (params.max_nodes ≤ vs.dedup.length ∨ params.max_edges ≤ es.dedup.length)) :
    let g' := if g.Full params then { g with truncated := true } else g
    (g'.truncated = true ↔
        params.max_nodes ≤ vs.dedup.length ∨ params.max_edges ≤ es.dedup.length) ∧
      (g'.truncated = false → Chart vs es g') := by
  dsimp only
  rcases h with h | ⟨htruncated, hcaps⟩
  · have hfull : g.Full params ↔
        params.max_nodes ≤ vs.dedup.length ∨ params.max_edges ≤ es.dedup.length := by
      rw [Full, h.nodes_length, h.edges_length, or_comm]
    split
    · rename_i hg
      refine ⟨⟨fun _ => hfull.mp hg, fun _ => rfl⟩, fun hopen => ?_⟩
      cases hopen
    · rename_i hg
      refine ⟨⟨fun htruncated => ?_, fun hcaps => absurd (hfull.mpr hcaps) hg⟩, fun _ => h⟩
      rw [h.complete] at htruncated
      cases htruncated
  · have hfinal : (if g.Full params then { g with truncated := true } else g).truncated = true := by
      split
      · rfl
      · exact htruncated
    refine ⟨⟨fun _ => hcaps, fun _ => hfinal⟩, fun hopen => ?_⟩
    rw [hfinal] at hopen
    cases hopen

/-- The answer is cut off exactly if there are as many addresses or flows as a cap, and has all of
them otherwise. -/
lemma search_chart (hcfg : (idb.function_at root.start).bind idb.cfg = some blocks)
    (hkind : params.kind = "cfg") (hdepth : 0 < params.depth.val) :
    ((search idb params root).truncated = true ↔
        params.max_nodes ≤ (Idb.starts root blocks).dedup.length ∨
          params.max_edges ≤ (Idb.flowEdges blocks).dedup.length) ∧
      ((search idb params root).truncated = false →
        Chart (Idb.starts root blocks) (Idb.flowEdges blocks) (search idb params root)) := by
  rw [search_cfg hcfg hkind hdepth]
  rcases Nat.eq_zero_or_pos params.max_nodes with hzero | hpos
  · -- there is no room for the root, and every graph is full
    rw [if_pos (.inr (by omega))]
    exact ⟨⟨fun _ => .inl (by omega), fun _ => rfl⟩, fun hopen => by cases hopen⟩
  refine Chart.check ?_
  have hstart : Chart [root.start] [] (({} : Graphing).add_node params root.start
      (root.name.getD "")) := .start hpos _ _
  rcases addBlocks_chart params blocks hstart with hnodes | ⟨hcut, hcap⟩
  · rcases addFlows_chart params blocks blocks hnodes with h | ⟨hcut, hcap⟩
    · exact .inl h
    · exact .inr ⟨hcut, .inr hcap⟩
  · exact .inr ⟨addFlows_truncated params blocks blocks hcut, .inl hcap⟩

end Graphing

/-- The answer to `graph kind=cfg` on a function with a flow chart is cut off if and only if the
flow chart has as many addresses or flows as a cap.  Otherwise its nodes are the start of the
function and those of the blocks, and its edges the flows between them, each of them once. -/
theorem graph_cfg_exact (idb : Idb) (ea : U64) (params : GraphParams) (root : Idb.Function)
    (blocks : List Idb.BasicBlock) (hroot : idb.function_at ea = some root)
    (hcfg : (idb.function_at root.start).bind idb.cfg = some blocks) (hkind : params.kind = "cfg")
    (hdepth : 0 < params.depth.val) :
    let g := Graphing.search idb params root
    idb.graph ea params = .ok (g.to_value "cfg" root.start) ∧
      (g.truncated = true ↔ params.max_nodes ≤ (Idb.starts root blocks).dedup.length ∨
        params.max_edges ≤ (Idb.flowEdges blocks).dedup.length) ∧
      (g.truncated = false →
        g.Chart (Idb.starts root blocks) (Idb.flowEdges blocks)) := by
  obtain ⟨hcut, hchart⟩ := Graphing.search_chart hcfg hkind hdepth
  refine ⟨?_, hcut, hchart⟩
  rw [Idb.graph, hroot, hkind]
  rfl

/-- A function that is a loop of two blocks, with a block before and one behind it. -/
def Idb.looping : Idb where
  function_at ea := if 16 ≤ ea ∧ ea < 80 then some ⟨16, 80, some "spin"⟩ else none
  insn_at _ := none
  fits _ _ h := by cases h
  xrefs_from _ := []
  cfg _ := some [⟨16, 32, [1]⟩, ⟨32, 48, [2]⟩, ⟨48, 64, [1, 3]⟩, ⟨64, 80, []⟩]

theorem graph_cfg_exact_looping :
    let params : GraphParams := ⟨"cfg", 1, 8, 8⟩
    let root : Idb.Function := ⟨16, 80, some "spin"⟩
    let g := Graphing.search Idb.looping params root
    Idb.looping.graph 40 params = .ok (g.to_value "cfg" 16) ∧
      g.addresses = [16, 32, 48, 64] ∧
      g.edges.map GraphEdge.ends = [(16, 32), (32, 48), (48, 32), (48, 64)] ∧
      (g.truncated = true ↔ 8 ≤ 4 ∨ 8 ≤ 4) := by
  obtain ⟨hgraph, hcut, -⟩ := graph_cfg_exact Idb.looping 40 ⟨"cfg", 1, 8, 8⟩ ⟨16, 80, some "spin"⟩
    [⟨16, 32, [1]⟩, ⟨32, 48, [2]⟩, ⟨48, 64, [1, 3]⟩, ⟨64, 80, []⟩] rfl rfl rfl (by decide)
  exact ⟨hgraph, by decide, by decide, hcut⟩

/-! ## The regions of a flow chart -/

section Regions

variable {vs : List U64} {es : List (U64 × U64)} {g : Graphing} {kind : String} {root : U64}

lemma graphNodes_to_value : graphNodes (g.to_value kind root) =
    g.nodes.map fun n => .object [("ea", .u64 n.1), ("name", .string n.2)] := rfl

lemma graphEdges_to_value :
    graphEdges (g.to_value kind root) = g.edges.map GraphEdge.to_value := rfl

/-- The broker finds the addresses of the nodes. -/
lemma mem_graphEas_to_value {v : U64} : v ∈ graphEas (g.to_value kind root) ↔ v ∈ g.addresses := by
  rw [mem_graphEas, graphNodes_to_value, Graphing.addresses]
  constructor
  · rintro ⟨_, hnode, hv⟩
    obtain ⟨n, hn, rfl⟩ := List.mem_map.mp hnode
    exact List.mem_map.mpr ⟨n, hn, Option.some.inj hv⟩
  · intro hv
    obtain ⟨n, hn, rfl⟩ := List.mem_map.mp hv
    exact ⟨_, List.mem_map_of_mem hn, rfl⟩

/-- The broker finds the ends of the edges. -/
lemma mem_succ_to_value {i j : ℕ} {u v : U64}
    (hu : (graphEas (g.to_value kind root))[i]? = some u)
    (hv : (graphEas (g.to_value kind root))[j]? = some v) :
    j ∈ (cfg_index_from_graph (g.to_value kind root)).succ i ↔
      (u, v) ∈ g.edges.map GraphEdge.ends := by
  rw [mem_succ_cfg_index, graphEdges_to_value, hu, hv, List.mem_map]
  constructor
  · rintro ⟨_, hedge, hsrc, hdst⟩
    obtain ⟨e, he, rfl⟩ := List.mem_map.mp hedge
    exact ⟨e, he, Prod.ext (Option.some.inj hsrc).symm (Option.some.inj hdst).symm⟩
  · rintro ⟨e, he, hends⟩
    obtain ⟨rfl, rfl⟩ := Prod.mk.inj hends
    exact ⟨_, List.mem_map_of_mem he, rfl, rfl⟩

variable {r : Idb.Function} {blocks : List Idb.BasicBlock}

/-- The places of the index stand for the addresses of the flow chart. -/
lemma Graphing.Chart.names (h : g.Chart (Idb.starts r blocks) (Idb.flowEdges blocks)) :
    Names (cfg_index_from_graph (g.to_value kind root)).succ (Idb.leads blocks)
      fun i v => (graphEas (g.to_value kind root))[i]? = some v where
  unique i u v hu hv := Option.some.inj (hu.symm.trans hv)
  inj i j v hi hj := by
    obtain ⟨hlt, hi⟩ := List.getElem?_eq_some_iff.mp hi
    obtain ⟨hlt', hj⟩ := List.getElem?_eq_some_iff.mp hj
    exact ((graphEas_nodup _).getElem_inj_iff).mp (hi.trans hj.symm)
  edge_iff i j u v hu hv := by
    rw [mem_succ_to_value hu hv, h.mem_edges, Idb.mem_flowEdges]
  named i j hj := by
    obtain ⟨e, -, -, hto⟩ := (mem_succ_cfg_index _ i j).mp hj
    exact ⟨_, hto⟩
  names u v hv := by
    obtain ⟨b, hb, -, hflow⟩ := Idb.mem_leads.mp hv
    have hstart : v ∈ Idb.starts r blocks :=
      List.mem_cons_of_mem _ (Idb.mem_starts_of_flows hflow)
    exact List.mem_iff_getElem?.mp (mem_graphEas_to_value.mpr ((h.mem_nodes v).mpr hstart))

end Regions

/-- The regions cut the flow chart up along its loops. -/
structure Partition.Charts (opts : PartitionOptions) (root : Idb.Function)
    (blocks : List Idb.BasicBlock) (p : Partition) : Prop where
  nodup : (p.regions.map Region.block_eas).flatten.Nodup
  covers : ∀ v, (∃ r ∈ p.regions, v ∈ r.block_eas) ↔ v ∈ Idb.starts root blocks
  chunk : ∀ r ∈ p.regions, r.role = .chunk → r.block_eas.length ≤ opts.max_chunk_blocks
  scc : ∀ r ∈ p.regions, r.role ≠ .chunk → 1 < r.block_eas.length ∧
    ∀ u ∈ r.block_eas, ∀ v, v ∈ r.block_eas ↔ SameScc (Idb.leads blocks) u v
  loops : ∀ u ∈ Idb.starts root blocks, ∀ v, v ≠ u → SameScc (Idb.leads blocks) u v →
    ∃ r ∈ p.regions, r.role ≠ .chunk ∧ u ∈ r.block_eas
  links : ∀ r ∈ p.regions, ∀ t ∈ p.regions, r ≠ t → (t.region_id ∈ r.succ_regions ↔
    ∃ u ∈ r.block_eas, ∃ v ∈ t.block_eas, v ∈ Idb.leads blocks u)

section Charts

variable {idx : CfgIndex} {opts : PartitionOptions} {p : Partition} {r : Region}

/-- The addresses of a region are those of its blocks. -/
lemma Partition.Sound.mem_block_eas (h : p.Sound idx opts) (hr : r ∈ p.regions) {v : U64} :
    v ∈ r.block_eas ↔ ∃ b ∈ r.block_ids, idx.block_eas[b]? = some v := by
  rw [h.eas r hr, List.mem_map]
  refine exists_congr fun b => and_congr_right fun hb => ?_
  rw [List.getElem?_eq_getElem (h.lt_of_mem hr hb), Option.getD_some, Option.some.injEq]

lemma Partition.Sound.length_block_eas (h : p.Sound idx opts) (hr : r ∈ p.regions) :
    r.block_eas.length = r.block_ids.length := by
  rw [h.eas r hr, List.length_map]

/-- What is known of the indices is known of the addresses. -/
lemma Partition.Sound.charts {root : Idb.Function} {blocks : List Idb.BasicBlock}
    (h : p.Sound idx opts) (hnodup : idx.block_eas.Nodup)
    (hmem : ∀ v, v ∈ idx.block_eas ↔ v ∈ Idb.starts root blocks)
    (hnames : Names idx.succ (Idb.leads blocks) fun i v => idx.block_eas[i]? = some v) :
    p.Charts opts root blocks where
  nodup := h.eas_perm.nodup_iff.mpr hnodup
  covers v := by
    rw [← hmem, ← h.eas_perm.mem_iff, List.mem_flatten]
    simp only [List.mem_map, exists_exists_and_eq_and]
  chunk r hr hrole := by
    rw [h.length_block_eas hr]
    exact (h.chunk r hr hrole).1
  scc r hr hrole := by
    obtain ⟨hlen, hscc⟩ := h.scc r hr hrole
    refine ⟨(h.length_block_eas hr).symm ▸ hlen, fun u hu v => ?_⟩
    obtain ⟨a, ha, hau⟩ := (h.mem_block_eas hr).mp hu
    rw [h.mem_block_eas hr]
    constructor
    · rintro ⟨b, hb, hbv⟩
      exact (hnames.sameScc_iff hau hbv).mp ((hscc a ha b).mp hb)
    · intro hsame
      -- what can be reached from a block has a place
      obtain ⟨b, hbv, -⟩ := hnames.symm.follow hau hsame.1
      exact ⟨b, (hscc a ha b).mpr ((hnames.sameScc_iff hau hbv).mpr hsame), hbv⟩
  loops u hu v hne hsame := by
    obtain ⟨a, hau⟩ := List.mem_iff_getElem?.mp ((hmem u).mpr hu)
    obtain ⟨b, hbv, -⟩ := hnames.symm.follow hau hsame.1
    have hab : b ≠ a := by
      rintro rfl
      exact hne (hnames.unique b v u hbv hau)
    obtain ⟨r, hr, hrole, har⟩ := h.loops a (List.getElem?_eq_some_iff.mp hau).1 b hab
      ((hnames.sameScc_iff hau hbv).mpr hsame)
    exact ⟨r, hr, hrole, (h.mem_block_eas hr).mpr ⟨a, har, hau⟩⟩
  links r hr t ht hne := by
    have hids : t.region_id ≠ r.region_id := fun heq => hne (h.eq_of_region_id ht hr heq).symm
    rw [h.succ r hr]
    constructor
    · rintro ⟨t', ht', hid, -, a, ha, b, hb, hedge⟩
      obtain rfl := h.eq_of_region_id ht' ht hid
      obtain ⟨v, hbv⟩ := hnames.named a b hedge
      have hau := List.getElem?_eq_getElem (h.lt_of_mem hr ha)
      exact ⟨_, (h.mem_block_eas hr).mpr ⟨a, ha, hau⟩, v, (h.mem_block_eas ht).mpr ⟨b, hb, hbv⟩,
        (hnames.edge_iff a b _ v hau hbv).mp hedge⟩
    · rintro ⟨u, hu, v, hv, hflow⟩
      obtain ⟨a, ha, hau⟩ := (h.mem_block_eas hr).mp hu
      obtain ⟨b, hb, hbv⟩ := (h.mem_block_eas ht).mp hv
      exact ⟨t, ht, rfl, hids, a, ha, b, hb, (hnames.edge_iff a b u v hau hbv).mpr hflow⟩

end Charts

/-- From the flow chart of a function to its regions: where the flow chart is below the caps of the
request, the partition of the answer covers the start of the function and those of the blocks, each
of them once, its loops and dispatchers are the strongly connected components of the flow chart, and
its links are the flows between the regions. -/
theorem flow_chart_regions (idb : Idb) (ea : U64) (params : GraphParams) (opts : PartitionOptions)
    (root : Idb.Function) (blocks : List Idb.BasicBlock) (hroot : idb.function_at ea = some root)
    (hcfg : (idb.function_at root.start).bind idb.cfg = some blocks) (hkind : params.kind = "cfg")
    (hdepth : 0 < params.depth.val)
    (hnodes : (Idb.starts root blocks).dedup.length < params.max_nodes)
    (hedges : (Idb.flowEdges blocks).dedup.length < params.max_edges)
    (hopts : 1 ≤ opts.max_chunk_blocks) :
    ∃ graph p, idb.graph ea params = .ok graph ∧
      partition_from_graph graph ea opts = (.ok p : Result Partition) ∧
      p.Charts opts root blocks := by
  obtain ⟨hcut, hchart⟩ := Graphing.search_chart hcfg hkind hdepth
  have hopen : (Graphing.search idb params root).truncated = false := by
    rw [Bool.eq_false_iff, Ne, hcut]
    omega
  have hchart := hchart hopen
  have hgraph : idb.graph ea params =
      .ok ((Graphing.search idb params root).to_value params.kind root.start) := by
    rw [Idb.graph, hroot]
    rfl
  obtain ⟨p, hp, hsound⟩ := partition_sound (ε := Error)
    (cfg_index_inRange ((Graphing.search idb params root).to_value params.kind root.start)) hopts
  refine ⟨_, { p with function_ea := ea }, hgraph, partition_from_graph_eq hp ea, ?_⟩
  have hcharts : p.Charts opts root blocks := hsound.charts (graphEas_nodup _)
    (fun v => mem_graphEas_to_value.trans (hchart.mem_nodes v)) hchart.names
  exact ⟨hcharts.nodup, hcharts.covers, hcharts.chunk, hcharts.scc, hcharts.loops, hcharts.links⟩

theorem flow_chart_regions_looping :
    let blocks : List Idb.BasicBlock :=
      [⟨16, 32, [1]⟩, ⟨32, 48, [2]⟩, ⟨48, 64, [1, 3]⟩, ⟨64, 80, []⟩]
    ∃ graph p, Idb.looping.graph 40 ⟨"cfg", 1, 200000, 400000⟩ = .ok graph ∧
      partition_from_graph graph 40 {} = (.ok p : Result Partition) ∧
      p.Charts {} ⟨16, 80, some "spin"⟩ blocks :=
  flow_chart_regions Idb.looping 40 ⟨"cfg", 1, 200000, 400000⟩ {} ⟨16, 80, some "spin"⟩
    [⟨16, 32, [1]⟩, ⟨32, 48, [2]⟩, ⟨48, 64, [1, 3]⟩, ⟨64, 80, []⟩] rfl rfl rfl (by decide)
    (by decide) (by decide) (by decide)

end ReverseMcp
