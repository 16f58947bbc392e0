import Std.Data.ExtTreeMap
import ReverseMcp.Broker.Preflight
import ReverseMcp.Rust.Json

/-!
# The block index of a graph

`cfg_index_from_graph` reads the block index off the answer to `graph kind=cfg`.  The addresses of
the nodes are sorted, and the edges are looked up by address.  The flags of the nodes are copied by
their place in the answer, which need not be the place of their addresses.
-/

namespace ReverseMcp

open Rust

/-- `CfgIndex` with the facts about blocks that no algorithm on graphs reads. -/
structure BlockIndex extends CfgIndex where
  block_ends : List U64
  /-- Indirect-transfer flags per block. -/
  indirect : List Bool
  direct_calls : ℕ
  indirect_calls : ℕ
  switches : ℕ
deriving DecidableEq

/-! ## `cfg_index_from_graph` -/

/-- `graph["nodes"]`. -/
def graphNodes (graph : Json) : List Json := (graph.idx "nodes").asArray.getD []

/-- `graph["edges"]`. -/
def graphEdges (graph : Json) : List Json := (graph.idx "edges").asArray.getD []

/-- `n["ea"]`. -/
def nodeEa (n : Json) : Option U64 := (n.idx "ea").asU64

/-- `n["indirect"]`. -/
def nodeIndirect (n : Json) : Bool := (n.idx "indirect").asBool.getD false

/-- The block starts. -/
def graphEas (graph : Json) : List U64 :=
  dedupBy id (sortByKey id ((graphNodes graph).filterMap nodeEa))

/-- The places of the block starts. -/
def ea_index (eas : List U64) : Std.ExtTreeMap U64 ℕ :=
  eas.zipIdx.foldl (fun m p => m.insert p.1 p.2) ∅

/-- An edge gives its source a successor.  The places in the map are those of rows. -/
def addEdge (ea_index : Std.ExtTreeMap U64 ℕ) (succs : List (List ℕ)) (e : Json) : List (List ℕ) :=
  match ea_index[(e.idx "from").asU64.getD 0]?, ea_index[(e.idx "to").asU64.getD 0]? with
  | some fi, some ti =>
    if ti ≥ succs.length then succs
    else succs.modify fi fun row => if ti ∈ row then row else row ++ [ti]
  | _, _ => succs

/-- The flag of the node at a place. -/
def setIndirect (indirect : List Bool) (p : Json × ℕ) : List Bool :=
  if p.2 < indirect.length then indirect.set p.2 (nodeIndirect p.1) else indirect

/-- `cfg_index_from_graph`. -/
def cfg_index_from_graph (graph : Json) : BlockIndex :=
  let eas := graphEas graph
  { block_eas := eas
    succs := (graphEdges graph).foldl (addEdge (ea_index eas)) (List.replicate eas.length [])
    block_ends := eas.drop 1 ++ [asU64 (2 ^ 64 - 1)]
    indirect := (graphNodes graph).zipIdx.foldl setIndirect (List.replicate eas.length false)
    direct_calls := 0
    indirect_calls := 0
    switches := 0 }

/-! ## Addresses -/

lemma graphEas_ascending (graph : Json) : (graphEas graph).Pairwise (· < ·) := by
  refine pairwise_lt_of_isChain_ne ?_ (dedupBy_chain _)
  refine ((sortByKey_pairwise id _).sublist (dedupBy_sublist _)).imp fun {a b} h => ?_
  exact Nat.isLE_compare.mp h

lemma graphEas_nodup (graph : Json) : (graphEas graph).Nodup :=
  (graphEas_ascending graph).imp ne_of_lt

lemma mem_graphEas {graph : Json} {ea : U64} :
    ea ∈ graphEas graph ↔ ∃ n ∈ graphNodes graph, nodeEa n = some ea := by
  rw [graphEas, mem_dedupBy_id, (sortByKey_perm id _).mem_iff, List.mem_filterMap]

/-- The addresses do not depend on the order of the nodes. -/
lemma graphEas_perm {graph graph' : Json} (h : (graphNodes graph').Perm (graphNodes graph)) :
    graphEas graph' = graphEas graph :=
  @eq_of_ascending _ _ _ id _ _ (graphEas_ascending graph') (graphEas_ascending graph) fun ea => by
    simp only [mem_graphEas, h.mem_iff]

/-- There is a node at every place of an address. -/
lemma graphEas_length_le (graph : Json) : (graphEas graph).length ≤ (graphNodes graph).length :=
  calc (graphEas graph).length
      ≤ (sortByKey id ((graphNodes graph).filterMap nodeEa)).length := (dedupBy_sublist _).length_le
    _ = ((graphNodes graph).filterMap nodeEa).length := (sortByKey_perm id _).length_eq
    _ ≤ (graphNodes graph).length := List.length_filterMap_le _ _

lemma getElem?_foldl_insert_zipIdx {eas : List U64} (hnodup : eas.Nodup) (k : ℕ)
    (m : Std.ExtTreeMap U64 ℕ) (ea : U64) :
    ((eas.zipIdx k).foldl (fun m p => m.insert p.1 p.2) m)[ea]? =
      if ea ∈ eas then some (k + eas.idxOf ea) else m[ea]? := by
  induction eas generalizing k m with
  | nil => rfl
  | cons a eas ih =>
    obtain ⟨ha, hnodup⟩ := List.nodup_cons.mp hnodup
    rw [List.zipIdx_cons, List.foldl_cons, ih hnodup]
    by_cases hea : ea = a
    · subst hea
      rw [if_neg ha, if_pos List.mem_cons_self, getElem?_insert_eq_ite, if_pos rfl,
        List.idxOf_cons_self]
      rfl
    · rw [getElem?_insert_eq_ite, if_neg hea, List.idxOf_cons_ne _ (Ne.symm hea)]
      simp only [List.mem_cons, hea, false_or]
      split <;> [(congr 1; omega); rfl]

/-- An address is found at its place. -/
lemma getElem?_ea_index {eas : List U64} (hnodup : eas.Nodup) {ea : U64} {i : ℕ} :
    (ea_index eas)[ea]? = some i ↔ eas[i]? = some ea := by
  rw [ea_index, getElem?_foldl_insert_zipIdx hnodup]
  constructor
  · intro h
    split at h
    · rename_i hmem
      obtain rfl : 0 + eas.idxOf ea = i := Option.some.inj h
      rw [Nat.zero_add]
      exact List.getElem?_idxOf hmem
    · simp at h
  · intro h
    obtain ⟨hi, rfl⟩ := List.getElem?_eq_some_iff.mp h
    rw [if_pos (List.getElem_mem hi), hnodup.idxOf_getElem, Nat.zero_add]

/-! ## Edges -/

/-- The map finds the places of rows. -/
def InRows (m : Std.ExtTreeMap U64 ℕ) (n : ℕ) : Prop := ∀ (ea : U64) i, m[ea]? = some i → i < n

section Edges

variable {m : Std.ExtTreeMap U64 ℕ} {succs : List (List ℕ)}

lemma addEdge_length (e : Json) : (addEdge m succs e).length = succs.length := by
  rw [addEdge]
  split
  · split
    · rfl
    · rw [List.length_modify]
  · rfl

/-- What an edge adds to a row. -/
lemma mem_addEdge (hm : InRows m succs.length) (e : Json) (i j : ℕ) :
    j ∈ (addEdge m succs e)[i]?.getD [] ↔ j ∈ succs[i]?.getD [] ∨
      (m[(e.idx "from").asU64.getD 0]? = some i ∧ m[(e.idx "to").asU64.getD 0]? = some j) := by
  rw [addEdge]
  split
  · rename_i fi ti hfrom hto
    have hti := hm _ _ hto
    have hfi := hm _ _ hfrom
    rw [if_neg (not_le.mpr hti), hfrom, hto]
    by_cases hi : fi = i
    · subst hi
      rw [List.getElem?_modify_eq, List.getElem?_eq_getElem hfi]
      show j ∈ (if ti ∈ succs[fi] then succs[fi] else succs[fi] ++ [ti]) ↔
        j ∈ succs[fi] ∨ some fi = some fi ∧ some ti = some j
      split
      · rename_i hmem
        refine ⟨.inl, fun h => ?_⟩
        rcases h with h | ⟨-, hj⟩
        · exact h
        · exact Option.some.inj hj ▸ hmem
      · simp [eq_comm]
    · rw [List.getElem?_modify_ne _ _ hi]
      simp [hi]
  · rename_i hnot
    refine ⟨.inl, fun h => ?_⟩
    rcases h with h | ⟨hfrom, hto⟩
    · exact h
    · exact absurd hto (hnot i j hfrom)

/-- What the edges add to the rows. -/
lemma mem_foldl_addEdge (hm : InRows m succs.length) (edges : List Json) (i j : ℕ) :
    j ∈ (edges.foldl (addEdge m) succs)[i]?.getD [] ↔ j ∈ succs[i]?.getD [] ∨
      ∃ e ∈ edges, m[(e.idx "from").asU64.getD 0]? = some i ∧
        m[(e.idx "to").asU64.getD 0]? = some j := by
  induction edges generalizing succs with
  | nil => simp
  | cons e edges ih =>
    rw [List.foldl_cons, ih (by rw [addEdge_length]; exact hm), mem_addEdge hm, or_assoc]
    simp only [List.mem_cons, exists_eq_or_imp]

lemma foldl_addEdge_length (edges : List Json) :
    (edges.foldl (addEdge m) succs).length = succs.length := by
  induction edges generalizing succs with
  | nil => rfl
  | cons e edges ih => rw [List.foldl_cons, ih, addEdge_length]

end Edges

/-! ## Flags -/

lemma setIndirect_length (indirect : List Bool) (p : Json × ℕ) :
    (setIndirect indirect p).length = indirect.length := by
  rw [setIndirect]
  split
  · rw [List.length_set]
  · rfl

lemma foldl_setIndirect_length (ps : List (Json × ℕ)) (indirect : List Bool) :
    (ps.foldl setIndirect indirect).length = indirect.length := by
  induction ps generalizing indirect with
  | nil => rfl
  | cons p ps ih => rw [List.foldl_cons, ih, setIndirect_length]

/-- A flag is that of the node at its place. -/
lemma getElem?_foldl_setIndirect (nodes : List Json) (k : ℕ) (indirect : List Bool) {i : ℕ}
    (hi : i < indirect.length) :
    ((nodes.zipIdx k).foldl setIndirect indirect)[i]? =
      if k ≤ i then (nodes[i - k]?.map nodeIndirect).or indirect[i]? else indirect[i]? := by
  induction nodes generalizing k indirect with
  | nil => simp
  | cons n nodes ih =>
    rw [List.zipIdx_cons, List.foldl_cons, ih _ _ (by rw [setIndirect_length]; exact hi)]
    have hset : (setIndirect indirect (n, k))[i]? =
        if k = i then some (nodeIndirect n) else indirect[i]? := by
      rw [setIndirect]
      by_cases hk : k < indirect.length
      · rw [if_pos hk, List.getElem?_set, if_pos hk]
      · rw [if_neg hk, if_neg (by omega)]
    rw [hset]
    rcases Nat.lt_trichotomy k i with hlt | rfl | hlt
    · rw [if_pos (Nat.succ_le_of_lt hlt), if_pos hlt.le, if_neg hlt.ne,
        show i - k = (i - (k + 1)) + 1 by omega, List.getElem?_cons_succ]
    · rw [if_neg (by omega), if_pos rfl, if_pos le_rfl, Nat.sub_self, List.getElem?_cons_zero]
      rfl
    · rw [if_neg (by omega), if_neg hlt.ne', if_neg (by omega)]

/-! ## The index of a graph -/

/-- The index says what the graph says. -/
structure BlockIndex.Faithful (idx : BlockIndex) (graph : Json) : Prop where
  ascending : idx.block_eas.Pairwise (· < ·)
  addresses : ∀ ea, ea ∈ idx.block_eas ↔ ∃ n ∈ graphNodes graph, nodeEa n = some ea
  in_range : idx.InRange
  edges : ∀ (i : ℕ) (ea : U64), idx.block_eas[i]? = some ea →
    ∀ (j : ℕ) (ea' : U64), idx.block_eas[j]? = some ea' → (j ∈ idx.succ i ↔ ∃ e ∈ graphEdges graph,
      (e.idx "from").asU64 = some ea ∧ (e.idx "to").asU64 = some ea')
  /-- A block has the flag of the nodes with its address. -/
  flags : ∀ (i : ℕ) (ea : U64), idx.block_eas[i]? = some ea →
    ∀ n ∈ graphNodes graph, nodeEa n = some ea → idx.indirect[i]? = some (nodeIndirect n)

section Index

variable {graph graph' : Json}

lemma ea_index_inRows (graph : Json) : InRows (ea_index (graphEas graph)) (graphEas graph).length :=
  fun _ _ h => (List.getElem?_eq_some_iff.mp ((getElem?_ea_index (graphEas_nodup graph)).mp h)).1

/-- The successors that the edges of the graph give. -/
lemma mem_succ_cfg_index (graph : Json) (i j : ℕ) :
    j ∈ (cfg_index_from_graph graph).succ i ↔ ∃ e ∈ graphEdges graph,
      (graphEas graph)[i]? = some ((e.idx "from").asU64.getD 0) ∧
        (graphEas graph)[j]? = some ((e.idx "to").asU64.getD 0) := by
  have hrows : InRows (ea_index (graphEas graph))
      (List.replicate (graphEas graph).length ([] : List ℕ)).length := by
    rw [List.length_replicate]
    exact ea_index_inRows graph
  have hempty : ¬ j ∈ (List.replicate (graphEas graph).length ([] : List ℕ))[i]?.getD [] := by
    rw [List.getElem?_replicate]
    split <;> simp
  show j ∈ ((graphEdges graph).foldl (addEdge (ea_index (graphEas graph))) _)[i]?.getD [] ↔ _
  rw [mem_foldl_addEdge hrows, or_iff_right hempty]
  simp only [getElem?_ea_index (graphEas_nodup graph)]

lemma cfg_index_inRange (graph : Json) : (cfg_index_from_graph graph).InRange := by
  have hrows : (cfg_index_from_graph graph).succs.length = (graphEas graph).length :=
    (foldl_addEdge_length _).trans List.length_replicate
  refine ⟨hrows, fun row hrow w hw => ?_⟩
  obtain ⟨i, hi⟩ := List.mem_iff_getElem?.mp hrow
  have hmem : w ∈ (cfg_index_from_graph graph).succ i := by
    rw [CfgIndex.succ, hi]
    exact hw
  obtain ⟨e, -, -, hto⟩ := (mem_succ_cfg_index graph i w).mp hmem
  exact (List.getElem?_eq_some_iff.mp hto).1

/-- The flag of a block is that of the node at its place. -/
lemma indirect_cfg_index {i : ℕ} (hi : i < (graphEas graph).length) {n : Json}
    (hn : (graphNodes graph)[i]? = some n) :
    (cfg_index_from_graph graph).indirect[i]? = some (nodeIndirect n) := by
  have hi' : i < (List.replicate (graphEas graph).length false).length := by
    rwa [List.length_replicate]
  show ((graphNodes graph).zipIdx.foldl setIndirect _)[i]? = _
  rw [getElem?_foldl_setIndirect _ 0 _ hi', if_pos (Nat.zero_le i), Nat.sub_zero, hn]
  rfl

lemma exists_node_at {i : ℕ} (hi : i < (graphEas graph).length) :
    ∃ n, (graphNodes graph)[i]? = some n ∧ n ∈ graphNodes graph := by
  have hlt : i < (graphNodes graph).length := hi.trans_le (graphEas_length_le graph)
  exact ⟨_, List.getElem?_eq_getElem hlt, List.getElem_mem hlt⟩

/-- Only the flags depend on the order of the nodes. -/
lemma cfg_index_congr (hnodes : (graphNodes graph').Perm (graphNodes graph))
    (hedges : graphEdges graph' = graphEdges graph)
    (hindirect : (cfg_index_from_graph graph').indirect = (cfg_index_from_graph graph).indirect) :
    cfg_index_from_graph graph' = cfg_index_from_graph graph := by
  have heas := graphEas_perm hnodes
  rw [cfg_index_from_graph, cfg_index_from_graph] at hindirect ⊢
  dsimp only at hindirect ⊢
  rw [hindirect, heas, hedges]

/-- The same edges with other nodes. -/
lemma exists_graph (graph : Json) (nodes : List Json) :
    ∃ graph', graphNodes graph' = nodes ∧ graphEdges graph' = graphEdges graph :=
  ⟨.object [("nodes", .array nodes), ("edges", graph.idx "edges")], rfl, rfl⟩

end Index

/-- The index of a graph with numeric addresses says what the graph says if and only if the flags of
the nodes agree with the order of their addresses.  It does so in every order of the nodes, and is
the same in every order, if and only if all nodes have the same flag. -/
theorem cfg_index_faithful_iff (graph : Json)
    (hnodes : ∀ n ∈ graphNodes graph, ∃ ea, nodeEa n = some ea)
    (hedges : ∀ e ∈ graphEdges graph,
      ∃ ea ea', (e.idx "from").asU64 = some ea ∧ (e.idx "to").asU64 = some ea') :
    ((cfg_index_from_graph graph).Faithful graph ↔
      ∀ (i : ℕ) (ea : U64) (m : Json), (graphEas graph)[i]? = some ea →
        (graphNodes graph)[i]? = some m → ∀ n ∈ graphNodes graph, nodeEa n = some ea →
        nodeIndirect n = nodeIndirect m) ∧
    ((∀ graph', (graphNodes graph').Perm (graphNodes graph) → graphEdges graph' = graphEdges graph →
        (cfg_index_from_graph graph').Faithful graph' ∧
          cfg_index_from_graph graph' = cfg_index_from_graph graph) ↔
      ∀ n ∈ graphNodes graph, ∀ m ∈ graphNodes graph, nodeIndirect n = nodeIndirect m) := by
  -- an index is faithful if its flags are
  have hflags : ∀ graph' : Json, graphEdges graph' = graphEdges graph →
      (∀ (i : ℕ) (ea : U64) (m : Json), (graphEas graph')[i]? = some ea →
        (graphNodes graph')[i]? = some m → ∀ n ∈ graphNodes graph', nodeEa n = some ea →
        nodeIndirect n = nodeIndirect m) →
      (cfg_index_from_graph graph').Faithful graph' := by
    intro graph' hedges' h
    refine ⟨graphEas_ascending graph', fun ea => mem_graphEas, cfg_index_inRange graph', ?_, ?_⟩
    · intro i ea hi j ea' hj
      rw [mem_succ_cfg_index]
      have hi' : (graphEas graph')[i]? = some ea := hi
      have hj' : (graphEas graph')[j]? = some ea' := hj
      rw [hi', hj']
      refine exists_congr fun e => and_congr_right fun he => ?_
      obtain ⟨a, a', ha, ha'⟩ := hedges e (hedges' ▸ he)
      rw [ha, ha']
      simp [eq_comm]
    · intro i ea hi n hn hea
      have hi' : (graphEas graph')[i]? = some ea := hi
      have hlt := (List.getElem?_eq_some_iff.mp hi').1
      obtain ⟨m, hm, -⟩ := exists_node_at hlt
      rw [indirect_cfg_index hlt hm, h i ea m hi' hm n hn hea]
  refine ⟨⟨fun h i ea m hi hm n hn hea => ?_, hflags graph rfl⟩, ⟨fun h => ?_, fun h => ?_⟩⟩
  · have hlt := (List.getElem?_eq_some_iff.mp hi).1
    have hflag := h.flags i ea hi n hn hea
    rw [indirect_cfg_index hlt hm] at hflag
    exact (Option.some.inj hflag).symm
  · -- a node that is put in front gives the first block its flag
    have hfront : ∀ n ∈ graphNodes graph,
        (cfg_index_from_graph graph).indirect[0]? = some (nodeIndirect n) := by
      intro n hn
      obtain ⟨graph', hnodes', hedges'⟩ := exists_graph graph (n :: (graphNodes graph).erase n)
      have hperm : (graphNodes graph').Perm (graphNodes graph) :=
        hnodes' ▸ (List.perm_cons_erase hn).symm
      obtain ⟨ea, hea⟩ := hnodes n hn
      have hlt : 0 < (graphEas graph').length := by
        rw [graphEas_perm hperm]
        exact List.length_pos_of_mem (mem_graphEas.mpr ⟨n, hn, hea⟩)
      rw [← (h graph' hperm hedges').2]
      exact indirect_cfg_index hlt (by rw [hnodes']; rfl)
    intro n hn m hm
    exact Option.some.inj ((hfront n hn).symm.trans (hfront m hm))
  · intro graph' hperm hedges'
    refine ⟨hflags graph' hedges' fun i ea m hi hm n hn hea => ?_, cfg_index_congr hperm hedges' ?_⟩
    · exact h n (hperm.mem_iff.mp hn) m (hperm.mem_iff.mp (List.mem_of_getElem? hm))
    · have hlength : ∀ g : Json, (cfg_index_from_graph g).indirect.length = (graphEas g).length :=
        fun g => (foldl_setIndirect_length _ _).trans List.length_replicate
      refine List.ext_getElem? fun i => ?_
      by_cases hi : i < (graphEas graph).length
      · have hi' : i < (graphEas graph').length := by rwa [graphEas_perm hperm]
        obtain ⟨n, hn, hmem⟩ := exists_node_at hi
        obtain ⟨m, hm, hmem'⟩ := exists_node_at hi'
        rw [indirect_cfg_index hi hn, indirect_cfg_index hi' hm,
          h m (hperm.mem_iff.mp hmem') n hmem]
      · rw [List.getElem?_eq_none (by rw [hlength, graphEas_perm hperm]; omega),
          List.getElem?_eq_none (by rw [hlength]; omega)]

/-- A node of a graph. -/
def nodeAt (ea : U64) (indirect : Bool) : Json :=
  .object [("ea", .u64 ea), ("indirect", .bool indirect)]

/-- Two blocks without indirect transfers, the second before the first and listed twice, and an
edge. -/
theorem cfg_index_faithful_iff_unordered :
    let graph : Json := .object
      [("nodes", .array [nodeAt 32 false, nodeAt 16 false, nodeAt 32 false]),
        ("edges", .array [.object [("from", .u64 16), ("to", .u64 32)]])]
    (cfg_index_from_graph graph).succs = [[1], []] ∧
      (cfg_index_from_graph graph).Faithful graph := by
  intro graph
  refine ⟨by decide +kernel, ((cfg_index_faithful_iff graph ?_ ?_).2.mpr ?_ graph (.refl _) rfl).1⟩
  · intro n hn
    have hmem : n ∈ [nodeAt 32 false, nodeAt 16 false, nodeAt 32 false] := hn
    simp only [List.mem_cons, List.not_mem_nil, or_false] at hmem
    rcases hmem with rfl | rfl | rfl <;> exact ⟨_, rfl⟩
  · intro e he
    obtain rfl : e = .object [("from", .u64 16), ("to", .u64 32)] := List.mem_singleton.mp he
    exact ⟨16, 32, rfl, rfl⟩
  · decide +kernel

/-- Two blocks, the second one first in the answer and marked. -/
def markedFirst : Json :=
  .object [("nodes", .array [nodeAt 32 true, nodeAt 16 false]), ("edges", .array [])]

/-- The mark goes to the block with the lower address. -/
theorem mark_on_wrong_block :
    (cfg_index_from_graph markedFirst).block_eas = [16, 32] ∧
      (cfg_index_from_graph markedFirst).indirect = [true, false] ∧
      ¬ (cfg_index_from_graph markedFirst).Faithful markedFirst := by
  have hindirect : (cfg_index_from_graph markedFirst).indirect = [true, false] := by decide +kernel
  have heas : (cfg_index_from_graph markedFirst).block_eas = [16, 32] := by decide +kernel
  refine ⟨heas, hindirect, fun h => ?_⟩
  have hflag := h.flags 0 16 (by rw [heas]; rfl) (nodeAt 16 false) (by decide +kernel) rfl
  rw [hindirect] at hflag
  exact absurd hflag (by decide)

end ReverseMcp
