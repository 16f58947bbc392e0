import ReverseMcp.Core.Backend
import ReverseMcp.Graph.Layers

/-!
# Graphs of the real backend

`IdaLibBackend::graph`: a breadth-first search through the functions that are called, or the flow
chart of one function, cut off at a number of nodes and of edges.  IDA is behind it; `Idb` is what
it answers on an open database.

An answer without `truncated` misses nothing: its nodes are the functions within `depth` calls of
the root, and its edges the calls of all but the last of these layers (`graph_calls_exact`).
-/

namespace ReverseMcp

open Rust ReverseMcp.Graph

/-! ## What IDA answers -/

namespace Idb

/-- A function. -/
structure Function where
  start : U64
  stop : U64
  name : Option String

/-- `addr()` and `value()` of an operand. -/
structure Operand where
  addr : Option U64
  value : Option U64

/-- A decoded instruction.  `decode` gives none that has no bytes. -/
structure Insn where
  size : ℕ
  pos : 0 < size
  is_call : Bool
  is_indirect_jump : Bool
  operands : List Operand

/-- A reference from an address. -/
structure XRef where
  dst : U64
  is_code : Bool

/-- A block of a flow chart, with the indices of its successors. -/
structure BasicBlock where
  start : U64
  stop : U64
  succs : List ℕ

end Idb

/-- An open database, as it is read. -/
structure Idb where
  function_at : U64 → Option Idb.Function
  insn_at : U64 → Option Idb.Insn
  /-- An instruction ends within the address space. -/
  fits : ∀ ea insn, insn_at ea = some insn → ea.val + insn.size < 2 ^ 64
  xrefs_from : U64 → List Idb.XRef
  /-- `Function::cfg`. -/
  cfg : Idb.Function → Option (List Idb.BasicBlock)
  functions : List Idb.Function := []
  strings : List (U64 × String) := []
  /-- `idalib_get_name`. -/
  get_name : U64 → String := fun _ => ""

namespace Idb

/-! ## Calls -/

/-- What the instruction at `cur` calls. -/
def callTargets (idb : Idb) (cur : U64) (insn : Insn) : List U64 :=
  if insn.is_call then
    insn.operands.filterMap Operand.addr ++
      ((idb.xrefs_from cur).filter XRef.is_code).map XRef.dst
  else []

/-- What the instructions from `cur` up to `stop` call. -/
def calleesFrom (idb : Idb) (stop cur : U64) : List U64 :=
  if _hcur : cur < stop then
    match hinsn : idb.insn_at cur with
    | none => []
    | some insn =>
      idb.callTargets cur insn ++
        idb.calleesFrom stop ⟨cur.val + insn.size, idb.fits cur insn hinsn⟩
  else []
termination_by stop.val - cur.val
decreasing_by
  have hpos := insn.pos
  have hlt : cur.val < stop.val := by assumption
  show stop.val - (cur.val + insn.size) < stop.val - cur.val
  omega

/-- A callee is shown as the function that contains it. -/
def resolve (idb : Idb) (dst : U64) : U64 × String :=
  match idb.function_at dst with
  | some c => (c.start, c.name.getD "")
  | none => (dst, "")

/-- What the function at an address calls. -/
def calls (idb : Idb) (ea : U64) : List U64 :=
  match idb.function_at ea with
  | some f => (idb.calleesFrom f.stop f.start).map fun dst => (idb.resolve dst).1
  | none => []

/-- Where a block leads: a block without successors to the next block behind it. -/
def flows (blocks : List BasicBlock) (b : BasicBlock) : List U64 :=
  let succs := b.succs.filterMap fun id => (blocks[id]?).map BasicBlock.start
  if succs = [] then ((blocks.find? fun n => b.stop ≤ n.start).map BasicBlock.start).toList
  else succs

end Idb

/-! ## The search -/

/-- An edge of a graph; a call has the address called. -/
structure GraphEdge where
  src : U64
  dst : U64
  callsite : Option U64

/-- The two ends. -/
def GraphEdge.ends (e : GraphEdge) : U64 × U64 := (e.src, e.dst)

/-- What `graph` builds.  The sets are lists of what has been inserted. -/
structure Graphing where
  nodes : List (U64 × String) := []
  edges : List GraphEdge := []
  seen_nodes : List U64 := []
  seen_edges : List (U64 × U64) := []
  truncated : Bool := false

namespace Graphing

variable (idb : Idb) (params : GraphParams)

/-- `add_node`. -/
def add_node (g : Graphing) (ea : U64) (name : String) : Graphing :=
  if ea ∈ g.seen_nodes then g
  else
    let g := { g with seen_nodes := ea :: g.seen_nodes }
    if params.max_nodes ≤ g.nodes.length then g else { g with nodes := g.nodes ++ [(ea, name)] }

/-- `seen_edges.insert` and `edges.push`. -/
def add_edge (g : Graphing) (e : GraphEdge) : Graphing :=
  if e.ends ∈ g.seen_edges then g
  else { g with seen_edges := e.ends :: g.seen_edges, edges := g.edges ++ [e] }

/-- A cap has been reached. -/
def Full (g : Graphing) : Prop :=
  params.max_edges ≤ g.edges.length ∨ params.max_nodes ≤ g.nodes.length

instance (g : Graphing) : Decidable (g.Full params) :=
  inferInstanceAs (Decidable (_ ∨ _))

/-- The loop over the callees of the function at `f_ea`. -/
def addCalls (deeper : Bool) (f_ea : U64) :
    List U64 → Graphing → List U64 → Graphing × List U64
  | [], g, next => (g, next)
  | dst :: rest, g, next =>
    if params.max_edges ≤ g.edges.length then ({ g with truncated := true }, next)
    else
      let callee := idb.resolve dst
      if (f_ea, callee.1) ∈ g.seen_edges then addCalls deeper f_ea rest g next
      else
        let g := { g with seen_edges := (f_ea, callee.1) :: g.seen_edges }
        if params.max_nodes ≤ g.nodes.length then ({ g with truncated := true }, next)
        else
          let g := g.add_node params callee.1 callee.2
          addCalls deeper f_ea rest { g with edges := g.edges ++ [⟨f_ea, callee.1, some dst⟩] }
            (if deeper then next ++ [callee.1] else next)

/-- The loop over the blocks that adds nodes. -/
def addBlocks : List Idb.BasicBlock → Graphing → Graphing
  | [], g => g
  | b :: rest, g =>
    if params.max_nodes ≤ g.nodes.length then { g with truncated := true }
    else addBlocks rest (g.add_node params b.start ("bb_" ++ hexText b.start.val))

/-- The loop over the blocks that adds edges. -/
def addFlows (blocks : List Idb.BasicBlock) : List Idb.BasicBlock → Graphing → Graphing
  | [], g => g
  | b :: rest, g =>
    if params.max_edges ≤ g.edges.length then { g with truncated := true }
    else addFlows blocks rest
      ((Idb.flows blocks b).foldl (fun g dst => g.add_edge ⟨b.start, dst, none⟩) g)

/-- A function of the frontier, unless it cannot be looked at. -/
def visit (deeper : Bool) (f_ea : U64) (g : Graphing) (next : List U64) :
    Option (Graphing × List U64) :=
  match idb.function_at f_ea with
  | none => none
  | some f =>
    match params.kind with
    | "cfg" =>
      match idb.cfg f with
      | none => none
      | some blocks => some (addFlows params blocks blocks (addBlocks params blocks g), next)
    | _ => some (addCalls idb params deeper f_ea (idb.calleesFrom f.stop f.start) g next)

/-- The loop over a frontier. -/
def visitAll (deeper : Bool) : List U64 → Graphing → List U64 → Graphing × List U64
  | [], g, next => (g, next)
  | f_ea :: rest, g, next =>
    match visit idb params deeper f_ea g next with
    | none => visitAll deeper rest g next
    | some (g, next) =>
      if g.Full params then ({ g with truncated := true }, next)
      else visitAll deeper rest g next

/-- The loop over the levels, `left` of which are left. -/
def levels : ℕ → List U64 → Graphing → Graphing
  | 0, _, g => g
  | left + 1, frontier, g =>
    if frontier.isEmpty then g
    else
      let (g, next) := visitAll idb params (0 < left) frontier g []
      if g.truncated then g else levels left next g

/-- The search from a root. -/
def search (root : Idb.Function) : Graphing :=
  levels idb params params.depth.val [root.start]
    (({} : Graphing).add_node params root.start (root.name.getD ""))

end Graphing

/-! ## The answer -/

/-- An edge as a value. -/
def GraphEdge.to_value (e : GraphEdge) : Json :=
  .object ([("from", .u64 e.src), ("to", .u64 e.dst)] ++
    (e.callsite.map fun c => ("callsite", Json.u64 c)).toList)

/-- The answer. -/
def Graphing.to_value (g : Graphing) (kind : String) (root : U64) : Json :=
  .object ([("kind", .string kind), ("root", .u64 root),
    ("nodes", .array (g.nodes.map fun n => .object [("ea", .u64 n.1), ("name", .string n.2)])),
    ("edges", .array (g.edges.map GraphEdge.to_value))] ++
    if g.truncated then [("truncated", .bool true)] else [])

/-- `IdaLibBackend::graph` on an open database. -/
def Idb.graph (idb : Idb) (ea : U64) (params : GraphParams) : Result Json := do
  let root ← Outcome.ofOption (.worker ("no function containing " ++ hex ea)) (idb.function_at ea)
  return (Graphing.search idb params root).to_value params.kind root.start

/-! ## Small steps -/

namespace Graphing

variable {idb : Idb} {params : GraphParams} {deeper : Bool} {u v ea : U64} {name : String}
  {g g' g'' : Graphing} {next next' next'' : List U64} {offered offered' : List (U64 × U64)}

@[simp] lemma add_node_edges : (g.add_node params ea name).edges = g.edges := by
  rw [add_node]
  split
  · rfl
  · dsimp only
    split
    · rfl
    · rfl

@[simp] lemma add_node_seen_edges : (g.add_node params ea name).seen_edges = g.seen_edges := by
  rw [add_node]
  split
  · rfl
  · dsimp only
    split
    · rfl
    · rfl

@[simp] lemma add_node_truncated : (g.add_node params ea name).truncated = g.truncated := by
  rw [add_node]
  split
  · rfl
  · dsimp only
    split
    · rfl
    · rfl

@[simp] lemma mem_add_node_seen :
    v ∈ (g.add_node params ea name).seen_nodes ↔ v ∈ g.seen_nodes ∨ v = ea := by
  rw [add_node]
  split
  · rename_i hseen
    exact ⟨.inl, fun h => h.elim id fun hv => hv ▸ hseen⟩
  · dsimp only
    split
    · rw [List.mem_cons, or_comm]
    · rw [List.mem_cons, or_comm]

/-- The call of a function that has not been seen becomes an edge. -/
def add_call (params : GraphParams) (g : Graphing) (f_ea dst : U64) (callee : U64 × String) :
    Graphing :=
  let g := { g with seen_edges := (f_ea, callee.1) :: g.seen_edges }
  let g := g.add_node params callee.1 callee.2
  { g with edges := g.edges ++ [⟨f_ea, callee.1, some dst⟩] }

/-- The cases of the loop over the callees. -/
lemma addCalls_cons (dst : U64) (rest : List U64) (g : Graphing) (next : List U64) :
    addCalls idb params deeper u (dst :: rest) g next =
      if params.max_edges ≤ g.edges.length then ({ g with truncated := true }, next)
      else if (u, (idb.resolve dst).1) ∈ g.seen_edges then
        addCalls idb params deeper u rest g next
      else if params.max_nodes ≤ g.nodes.length then
        ({ g with
          seen_edges := (u, (idb.resolve dst).1) :: g.seen_edges
          truncated := true }, next)
      else addCalls idb params deeper u rest (g.add_call params u dst (idb.resolve dst))
        (if deeper then next ++ [(idb.resolve dst).1] else next) := rfl

/-! ## What has been offered -/

/-- The vertex is at the end of a pair that has not been seen. -/
def News (offered : List (U64 × U64)) (g : Graphing) (v : U64) : Prop :=
  ∃ p ∈ offered, p ∉ g.seen_edges ∧ p.2 = v

lemma news_append (h : ∀ p, p ∈ g'.seen_edges ↔ p ∈ g.seen_edges ∨ p ∈ offered) :
    News (offered ++ offered') g v ↔ News offered g v ∨ News offered' g' v := by
  constructor
  · rintro ⟨p, hp, hnew, rfl⟩
    by_cases hoffered : p ∈ offered
    · exact .inl ⟨p, hoffered, hnew, rfl⟩
    · refine .inr ⟨p, (List.mem_append.mp hp).resolve_left hoffered, ?_, rfl⟩
      exact fun hseen => ((h p).mp hseen).elim hnew hoffered
  · rintro (⟨p, hp, hnew, rfl⟩ | ⟨p, hp, hnew, rfl⟩)
    · exact ⟨p, List.mem_append_left _ hp, hnew, rfl⟩
    · exact ⟨p, List.mem_append_right _ hp, fun hseen => hnew ((h p).mpr (.inl hseen)), rfl⟩

/-- The pairs that have not been seen have become edges, their ends nodes, and the nodes of the
next level have been collected. -/
structure Offers (deeper : Bool) (offered : List (U64 × U64)) (g : Graphing) (next : List U64)
    (g' : Graphing) (next' : List U64) : Prop where
  seen_edges : ∀ p, p ∈ g'.seen_edges ↔ p ∈ g.seen_edges ∨ p ∈ offered
  ends : ∀ p, p ∈ g'.edges.map GraphEdge.ends ↔
    p ∈ g.edges.map GraphEdge.ends ∨ (p ∈ offered ∧ p ∉ g.seen_edges)
  seen_nodes : ∀ v, v ∈ g'.seen_nodes ↔ v ∈ g.seen_nodes ∨ News offered g v
  next : ∀ v, v ∈ next' ↔ v ∈ next ∨ (deeper = true ∧ News offered g v)

lemma Offers.refl (deeper : Bool) (g : Graphing) (next : List U64) :
    Offers deeper [] g next g next where
  seen_edges := by simp
  ends := by simp
  seen_nodes := by simp [News]
  next := by simp [News]

lemma Offers.append (h : Offers deeper offered g next g' next')
    (h' : Offers deeper offered' g' next' g'' next'') :
    Offers deeper (offered ++ offered') g next g'' next'' where
  seen_edges p := by rw [h'.seen_edges, h.seen_edges, List.mem_append, or_assoc]
  ends p := by
    rw [h'.ends, h.ends, h.seen_edges, List.mem_append]
    tauto
  seen_nodes v := by rw [h'.seen_nodes, h.seen_nodes, news_append h.seen_edges, or_assoc]
  next v := by rw [h'.next, h.next, news_append h.seen_edges, and_or_left, or_assoc]

/-- A pair that has been seen is passed over. -/
lemma Offers.seen {p : U64 × U64} (hp : p ∈ g.seen_edges) : Offers deeper [p] g next g next where
  seen_edges q := by
    simp only [List.mem_singleton]
    exact ⟨.inl, fun h => h.elim id fun hq => hq ▸ hp⟩
  ends q := by
    simp only [List.mem_singleton]
    exact ⟨.inl, fun h => h.elim id fun hq => absurd (hq.1 ▸ hp) hq.2⟩
  seen_nodes v := by simp [News, hp]
  next v := by simp [News, hp]

/-- A pair that has not been seen. -/
lemma Offers.call {dst : U64} {callee : U64 × String} (hnew : (u, callee.1) ∉ g.seen_edges) :
    Offers deeper [(u, callee.1)] g next (g.add_call params u dst callee)
      (if deeper then next ++ [callee.1] else next) where
  seen_edges p := by
    simp only [add_call, add_node_seen_edges, List.mem_cons, List.not_mem_nil, or_false]
    rw [or_comm]
  ends p := by
    simp only [add_call, add_node_edges, List.map_append, List.mem_append, List.map_cons,
      List.map_nil, List.mem_singleton, GraphEdge.ends]
    refine or_congr_right ⟨fun hp => ⟨hp, hp ▸ hnew⟩, And.left⟩
  seen_nodes v := by
    simp only [add_call, mem_add_node_seen, News, List.mem_singleton]
    refine or_congr_right ⟨fun hv => ⟨_, rfl, hnew, hv.symm⟩, ?_⟩
    rintro ⟨p, rfl, -, hv⟩
    exact hv.symm
  next v := by
    have hnews : News [(u, callee.1)] g v ↔ v = callee.1 := by
      constructor
      · rintro ⟨p, hp, -, hv⟩
        obtain rfl := List.mem_singleton.mp hp
        exact hv.symm
      · exact fun hv => ⟨_, List.mem_singleton_self _, hnew, hv.symm⟩
    rw [hnews]
    cases deeper with
    | true => simp
    | false => simp

/-- The loop over the callees, when it is not cut off. -/
lemma addCalls_offers (dsts : List U64) (g : Graphing) (next : List U64)
    (h : (addCalls idb params deeper u dsts g next).1.truncated = false) :
    Offers deeper (dsts.map fun dst => (u, (idb.resolve dst).1)) g next
      (addCalls idb params deeper u dsts g next).1
      (addCalls idb params deeper u dsts g next).2 := by
  induction dsts generalizing g next with
  | nil => exact .refl _ _ _
  | cons dst rest ih =>
    rw [addCalls_cons] at h ⊢
    rw [List.map_cons, ← List.singleton_append]
    split at h
    · cases h
    rename_i hedges
    rw [if_neg hedges]
    split at h
    · rename_i hseen
      rw [if_pos hseen]
      exact (Offers.seen hseen).append (ih g next h)
    rename_i hnew
    rw [if_neg hnew]
    split at h
    · cases h
    rename_i hnodes
    rw [if_neg hnodes]
    exact (Offers.call hnew).append (ih _ _ h)

/-! ## What always holds -/

/-- The addresses of the nodes. -/
def addresses (g : Graphing) : List U64 := g.nodes.map Prod.fst

/-- What holds of a search that goes along `succ`, cut off or not. -/
structure Safe (succ : U64 → List U64) (root : U64) (params : GraphParams) (g : Graphing) :
    Prop where
  nodup : g.addresses.Nodup
  nodes_le : g.nodes.length ≤ params.max_nodes
  seen : ∀ v ∈ g.addresses, v ∈ g.seen_nodes
  shown : 0 < params.max_nodes → ∀ v ∈ g.seen_nodes, v ∈ g.addresses
  within : ∀ v ∈ g.addresses, Within succ [root] params.depth.val v
  ends_nodup : (g.edges.map GraphEdge.ends).Nodup
  edges_le : g.edges.length ≤ params.max_edges
  edges_seen : ∀ e ∈ g.edges, e.ends ∈ g.seen_edges
  edges : ∀ e ∈ g.edges, e.src ∈ g.addresses ∧ e.dst ∈ g.addresses ∧ e.dst ∈ succ e.src
  full : g.truncated = true → g.Full params

section Safe

variable {succ : U64 → List U64} {root : U64}

namespace Safe

/-- The search is cut off. -/
lemma cut (h : Safe succ root params g) (hfull : g.Full params) :
    Safe succ root params { g with truncated := true } :=
  { h with full := fun _ => hfull }

/-- An edge is marked as seen. -/
lemma mark (h : Safe succ root params g) (p : U64 × U64) :
    Safe succ root params { g with seen_edges := p :: g.seen_edges } :=
  { h with edges_seen := fun e he => List.mem_cons_of_mem p (h.edges_seen e he) }

/-- A node is added where there is room. -/
lemma add_node (h : Safe succ root params g) (hroom : g.nodes.length < params.max_nodes)
    (hwithin : Within succ [root] params.depth.val ea) :
    Safe succ root params (g.add_node params ea name) ∧
      ∀ v, v ∈ (g.add_node params ea name).addresses ↔ v ∈ g.addresses ∨ v = ea := by
  have hmax : 0 < params.max_nodes := by omega
  by_cases hseen : ea ∈ g.seen_nodes
  · rw [Graphing.add_node, if_pos hseen]
    exact ⟨h, fun v => ⟨.inl, fun hv => hv.elim id fun hv => hv ▸ h.shown hmax ea hseen⟩⟩
  · have heq : g.add_node params ea name =
        { g with seen_nodes := ea :: g.seen_nodes, nodes := g.nodes ++ [(ea, name)] } := by
      rw [Graphing.add_node, if_neg hseen]
      exact if_neg (by simpa using hroom)
    have haddresses : (g.add_node params ea name).addresses = g.addresses ++ [ea] := by
      rw [heq, addresses, List.map_append]
      rfl
    have hmem : ∀ v, v ∈ (g.add_node params ea name).addresses ↔ v ∈ g.addresses ∨ v = ea := by
      intro v
      rw [haddresses, List.mem_append, List.mem_singleton]
    refine ⟨⟨?_, ?_, ?_, ?_, ?_, ?_, ?_, ?_, ?_, ?_⟩, hmem⟩
    · rw [haddresses, ← List.concat_eq_append]
      exact h.nodup.concat fun hea => hseen (h.seen ea hea)
    · rw [heq, List.length_append]
      exact hroom
    · intro v hv
      rw [mem_add_node_seen]
      exact ((hmem v).mp hv).imp (h.seen v) id
    · intro hpos v hv
      rw [mem_add_node_seen] at hv
      exact (hmem v).mpr (hv.imp (h.shown hpos v) id)
    · intro v hv
      rcases (hmem v).mp hv with hv | rfl
      · exact h.within v hv
      · exact hwithin
    · rw [add_node_edges]
      exact h.ends_nodup
    · rw [add_node_edges]
      exact h.edges_le
    · rw [add_node_edges, add_node_seen_edges]
      exact h.edges_seen
    · rw [add_node_edges]
      intro e he
      obtain ⟨hsrc, hdst, hsucc⟩ := h.edges e he
      exact ⟨(hmem _).mpr (.inl hsrc), (hmem _).mpr (.inl hdst), hsucc⟩
    · rw [add_node_truncated]
      intro htruncated
      rw [Full, add_node_edges, heq, List.length_append]
      exact (h.full htruncated).imp id fun hnodes => by omega

/-- An edge is added where there is room. -/
lemma push {e : GraphEdge} (h : Safe succ root params g) (hroom : g.edges.length < params.max_edges)
    (hnew : e.ends ∉ g.edges.map GraphEdge.ends) (hseen : e.ends ∈ g.seen_edges)
    (hsrc : e.src ∈ g.addresses) (hdst : e.dst ∈ g.addresses) (hsucc : e.dst ∈ succ e.src) :
    Safe succ root params { g with edges := g.edges ++ [e] } :=
  { h with
    ends_nodup := by
      show ((g.edges ++ [e]).map GraphEdge.ends).Nodup
      rw [List.map_append, List.map_singleton, ← List.concat_eq_append]
      exact h.ends_nodup.concat hnew
    edges_le := by
      show (g.edges ++ [e]).length ≤ params.max_edges
      rw [List.length_append]
      exact hroom
    edges_seen := by
      intro e' he'
      rcases List.mem_append.mp he' with he' | he'
      · exact h.edges_seen e' he'
      · obtain rfl := List.mem_singleton.mp he'
        exact hseen
    edges := by
      intro e' he'
      rcases List.mem_append.mp he' with he' | he'
      · exact h.edges e' he'
      · obtain rfl := List.mem_singleton.mp he'
        exact ⟨hsrc, hdst, hsucc⟩
    full := by
      intro htruncated
      show params.max_edges ≤ (g.edges ++ [e]).length ∨ params.max_nodes ≤ g.nodes.length
      rw [List.length_append]
      exact (h.full htruncated).imp (fun hedges => by omega) id }

/-- A call is added where there is room. -/
lemma call {dst : U64} {callee : U64 × String} (h : Safe succ root params g)
    (hedges : g.edges.length < params.max_edges) (hnodes : g.nodes.length < params.max_nodes)
    (hu : u ∈ g.seen_nodes) (hnew : (u, callee.1) ∉ g.seen_edges) (hsucc : callee.1 ∈ succ u)
    (hwithin : Within succ [root] params.depth.val callee.1) :
    Safe succ root params (g.add_call params u dst callee) := by
  have hmax : 0 < params.max_nodes := by omega
  obtain ⟨hsafe, hmem⟩ := @add_node _ _ callee.2 _ _ _ (h.mark (u, callee.1)) hnodes hwithin
  refine hsafe.push ?_ ?_ ?_ ?_ ?_ hsucc
  · rw [add_node_edges]
    exact hedges
  · rw [add_node_edges]
    intro hends
    obtain ⟨e, he, hends⟩ := List.mem_map.mp hends
    have hends : e.ends = (u, callee.1) := hends
    exact hnew (hends ▸ h.edges_seen e he)
  · rw [add_node_seen_edges]
    exact List.mem_cons_self
  · exact (hmem u).mpr (.inl (h.shown hmax u hu))
  · exact (hmem callee.1).mpr (.inr rfl)

end Safe

/-! ## The loops of the search for calls -/

/-- The search within a level: the nodes of the next one lie within `n` calls. -/
structure Grown (succ : U64 → List U64) (root : U64) (params : GraphParams) (n : ℕ) (g : Graphing)
    (next : List U64) : Prop where
  safe : Safe succ root params g
  next : ∀ v ∈ next, v ∈ g.seen_nodes ∧ Within succ [root] n v

/-- What has been seen stays seen. -/
def Extends (g g' : Graphing) : Prop := ∀ v ∈ g.seen_nodes, v ∈ g'.seen_nodes

lemma addCalls_grown {n : ℕ} {dsts : List U64}
    (hdsts : ∀ dst ∈ dsts, (idb.resolve dst).1 ∈ succ u)
    (hwithin : ∀ w ∈ succ u, Within succ [root] n w) (hn : n ≤ params.depth.val)
    (h : Grown succ root params n g next) (hu : u ∈ g.seen_nodes) :
    Grown succ root params n (addCalls idb params deeper u dsts g next).1
        (addCalls idb params deeper u dsts g next).2 ∧
      g.Extends (addCalls idb params deeper u dsts g next).1 := by
  induction dsts generalizing g next with
  | nil => exact ⟨h, fun _ => id⟩
  | cons dst rest ih =>
    have hrest := fun d hd => hdsts d (List.mem_cons_of_mem dst hd)
    rw [addCalls_cons]
    split
    · rename_i hedges
      exact ⟨⟨h.safe.cut (.inl hedges), h.next⟩, fun _ => id⟩
    rename_i hedges
    split
    · exact ih hrest h hu
    rename_i hnew
    split
    · rename_i hnodes
      exact ⟨⟨(h.safe.mark _).cut (.inr hnodes), h.next⟩, fun _ => id⟩
    rename_i hnodes
    have hcall : (idb.resolve dst).1 ∈ succ u := hdsts dst List.mem_cons_self
    have hcallee := hwithin _ hcall
    have hextends : g.Extends (g.add_call params u dst (idb.resolve dst)) :=
      fun v hv => mem_add_node_seen.mpr (.inl hv)
    have hgrown : Grown succ root params n (g.add_call params u dst (idb.resolve dst))
        (if deeper then next ++ [(idb.resolve dst).1] else next) := by
      refine ⟨h.safe.call (by omega) (by omega) hu hnew hcall (hcallee.mono hn), fun v hv => ?_⟩
      have hv : v ∈ next ∨ v = (idb.resolve dst).1 := by
        cases deeper with
        | true => simpa using hv
        | false => exact .inl hv
      rcases hv with hv | rfl
      · exact (h.next v hv).imp (hextends v) id
      · exact ⟨mem_add_node_seen.mpr (.inr rfl), hcallee⟩
    obtain ⟨hfinal, hmore⟩ := ih hrest hgrown (hextends u hu)
    exact ⟨hfinal, fun v hv => hmore v (hextends v hv)⟩

end Safe

section Calls

variable (hkind : params.kind ≠ "cfg")

include hkind

/-- The cases of a visit. -/
lemma visit_calls (deeper : Bool) (f_ea : U64) (g : Graphing) (next : List U64) :
    visit idb params deeper f_ea g next = (idb.function_at f_ea).map fun f =>
      addCalls idb params deeper f_ea (idb.calleesFrom f.stop f.start) g next := by
  rw [visit]
  cases idb.function_at f_ea with
  | none => rfl
  | some f =>
    dsimp only
    split
    · exact absurd (by assumption) hkind
    · rfl

lemma visitAll_grown {n : ℕ} {root : U64} {frontier : List U64} (hn : n + 1 ≤ params.depth.val)
    (hfrontier : ∀ u ∈ frontier, u ∈ g.seen_nodes ∧ Within idb.calls [root] n u)
    (h : Grown idb.calls root params (n + 1) g next) :
    Grown idb.calls root params (n + 1) (visitAll idb params deeper frontier g next).1
      (visitAll idb params deeper frontier g next).2 := by
  induction frontier generalizing g next with
  | nil => exact h
  | cons u rest ih =>
    have hrest := fun v hv => hfrontier v (List.mem_cons_of_mem u hv)
    obtain ⟨hu, hwithin⟩ := hfrontier u List.mem_cons_self
    rw [visitAll, visit_calls hkind]
    cases hf : idb.function_at u with
    | none => exact ih hrest h
    | some f =>
      have hcalls : ∀ dst ∈ idb.calleesFrom f.stop f.start, (idb.resolve dst).1 ∈ idb.calls u := by
        intro dst hdst
        rw [Idb.calls, hf]
        exact List.mem_map_of_mem hdst
      obtain ⟨hgrown, hextends⟩ := addCalls_grown hcalls (fun w hw => hwithin.tail hw) hn h hu
      dsimp only [Option.map_some]
      split
      · rename_i hfull
        exact ⟨hgrown.safe.cut hfull, hgrown.next⟩
      · exact ih (fun v hv => (hrest v hv).imp (hextends v) id) hgrown

lemma levels_safe {root : U64} (left : ℕ) {n : ℕ} {frontier : List U64}
    (hn : n + left = params.depth.val)
    (hfrontier : ∀ u ∈ frontier, u ∈ g.seen_nodes ∧ Within idb.calls [root] n u)
    (h : Safe idb.calls root params g) :
    Safe idb.calls root params (levels idb params left frontier g) := by
  induction left generalizing n frontier g with
  | zero => exact h
  | succ left ih =>
    rw [levels]
    split
    · exact h
    have hgrown : Grown idb.calls root params (n + 1)
        (visitAll idb params (0 < left) frontier g []).1
        (visitAll idb params (0 < left) frontier g []).2 :=
      visitAll_grown hkind (by omega) hfrontier ⟨h, by simp⟩
    dsimp only
    split
    · exact hgrown.safe
    · exact ih (by omega) hgrown.next hgrown.safe

/-- What is offered at the end of an edge that leaves a frontier. -/
lemma visitAll_offers {n : ℕ} {root : U64} {frontier : List U64} (hn : n + 1 ≤ params.depth.val)
    (hfrontier : ∀ u ∈ frontier, u ∈ g.seen_nodes ∧ Within idb.calls [root] n u)
    (h : Grown idb.calls root params (n + 1) g next)
    (hcomplete : (visitAll idb params deeper frontier g next).1.truncated = false) :
    Offers deeper (edgesFrom idb.calls frontier) g next
      (visitAll idb params deeper frontier g next).1
      (visitAll idb params deeper frontier g next).2 := by
  induction frontier generalizing g next with
  | nil => exact .refl _ _ _
  | cons u rest ih =>
    have hrest := fun v hv => hfrontier v (List.mem_cons_of_mem u hv)
    obtain ⟨hu, hwithin⟩ := hfrontier u List.mem_cons_self
    have hedges : edgesFrom idb.calls (u :: rest) =
        (idb.calls u).map (fun w => (u, w)) ++ edgesFrom idb.calls rest := rfl
    rw [visitAll, visit_calls hkind] at hcomplete ⊢
    rw [hedges]
    cases hf : idb.function_at u with
    | none =>
      have hcalls : idb.calls u = [] := by
        rw [Idb.calls, hf]
      rw [hf] at hcomplete
      rw [hcalls]
      exact ih hrest h hcomplete
    | some f =>
      have hcalls : idb.calls u =
          (idb.calleesFrom f.stop f.start).map fun dst => (idb.resolve dst).1 := by
        rw [Idb.calls, hf]
      obtain ⟨hgrown, hextends⟩ := addCalls_grown
        (fun dst hdst => hcalls ▸ List.mem_map_of_mem hdst) (fun w hw => hwithin.tail hw) hn h hu
      rw [hf] at hcomplete
      dsimp only [Option.map_some] at hcomplete ⊢
      split at hcomplete
      · cases hcomplete
      rename_i hfull
      rw [if_neg hfull]
      have hopen := Bool.eq_false_iff.mpr fun htruncated => hfull (hgrown.safe.full htruncated)
      have hoffers := addCalls_offers _ g next hopen
      rw [hcalls, List.map_map]
      exact hoffers.append (ih (fun v hv => (hrest v hv).imp (hextends v) id) hgrown hcomplete)

end Calls

/-! ## What a complete search has followed -/

section Followed

variable {succ : U64 → List U64} {root : U64} {expanded : U64 → Prop} {frontier : List U64}

/-- The edges are those that leave what has been expanded, and the nodes are their ends. -/
structure Followed (succ : U64 → List U64) (root : U64) (expanded : U64 → Prop) (g : Graphing) :
    Prop where
  seen_edges : ∀ p, p ∈ g.seen_edges ↔ expanded p.1 ∧ p.2 ∈ succ p.1
  ends : ∀ p, p ∈ g.edges.map GraphEdge.ends ↔ p ∈ g.seen_edges
  seen_nodes : ∀ v, v ∈ g.seen_nodes ↔ v = root ∨ ∃ u, expanded u ∧ v ∈ succ u

/-- What is new at the end of an edge that leaves the frontier. -/
lemma Followed.news_iff (h : Followed succ root expanded g) :
    News (edgesFrom succ frontier) g v ↔ ∃ u ∈ frontier, ¬ expanded u ∧ v ∈ succ u := by
  constructor
  · rintro ⟨p, hp, hnew, rfl⟩
    obtain ⟨hu, hv⟩ := mem_edgesFrom.mp hp
    exact ⟨p.1, hu, fun hexpanded => hnew ((h.seen_edges p).mpr ⟨hexpanded, hv⟩), hv⟩
  · rintro ⟨u, hu, hnew, hv⟩
    refine ⟨(u, v), mem_edgesFrom.mpr ⟨hu, hv⟩, ?_, rfl⟩
    exact fun hseen => hnew ((h.seen_edges _).mp hseen).1

lemma Followed.step (h : Followed succ root expanded g)
    (hoffers : Offers deeper (edgesFrom succ frontier) g next g' next') :
    Followed succ root (fun v => expanded v ∨ v ∈ frontier) g' where
  seen_edges p := by rw [hoffers.seen_edges, h.seen_edges, mem_edgesFrom, or_and_right]
  ends p := by
    rw [hoffers.ends, h.ends, hoffers.seen_edges]
    tauto
  seen_nodes v := by
    rw [hoffers.seen_nodes, h.seen_nodes, h.news_iff, or_assoc]
    refine or_congr_right ⟨?_, ?_⟩
    · rintro (⟨u, hu, hv⟩ | ⟨u, hu, -, hv⟩)
      · exact ⟨u, .inl hu, hv⟩
      · exact ⟨u, .inr hu, hv⟩
    · rintro ⟨u, hu, hv⟩
      by_cases hexpanded : expanded u
      · exact .inl ⟨u, hexpanded, hv⟩
      · exact .inr ⟨u, hu.resolve_left hexpanded, hexpanded, hv⟩

lemma Followed.start (name : String) :
    Followed succ root (fun _ => False) (({} : Graphing).add_node params root name) where
  seen_edges p := by simp
  ends p := by simp
  seen_nodes v := by simp

/-- The loop over the levels, when it is not cut off: everything closer than `depth` has been
expanded. -/
lemma levels_followed (hkind : params.kind ≠ "cfg") (left : ℕ) {n : ℕ}
    (hn : n + left = params.depth.val)
    (hfrontier : ∀ u ∈ frontier, u ∈ g.seen_nodes ∧ Within idb.calls [root] n u)
    (hsafe : Safe idb.calls root params g)
    (hexpanded : ∀ v, expanded v ↔ ∃ m < n, Within idb.calls [root] m v)
    (hborder : 0 < left → Border idb.calls [root] n expanded frontier)
    (h : Followed idb.calls root expanded g)
    (hcomplete : (levels idb params left frontier g).truncated = false) :
    Followed idb.calls root (fun v => ∃ m < params.depth.val, Within idb.calls [root] m v)
      (levels idb params left frontier g) := by
  induction left generalizing n frontier g expanded with
  | zero =>
    obtain rfl : n = params.depth.val := hn
    have heq : expanded = fun v => ∃ m < params.depth.val, Within idb.calls [root] m v :=
      funext fun v => propext (hexpanded v)
    exact heq ▸ h
  | succ left ih =>
    have hborder := hborder (by omega)
    rw [levels] at hcomplete ⊢
    by_cases hnil : frontier = []
    · -- there is nothing behind an empty frontier
      subst hnil
      have heq : expanded = fun v => ∃ m < params.depth.val, Within idb.calls [root] m v := by
        funext v
        rw [← hn]
        exact propext (hborder.of_nil _ v)
      exact heq ▸ h
    have hempty : ¬ frontier.isEmpty = true := by simpa using hnil
    rw [if_neg hempty] at hcomplete ⊢
    have hgrown : Grown idb.calls root params (n + 1)
        (visitAll idb params (0 < left) frontier g []).1
        (visitAll idb params (0 < left) frontier g []).2 :=
      visitAll_grown hkind (by omega) hfrontier ⟨hsafe, by simp⟩
    dsimp only at hcomplete ⊢
    split at hcomplete
    · rename_i htruncated
      rw [htruncated] at hcomplete
      cases hcomplete
    rename_i hopen
    rw [if_neg hopen]
    have hoffers := visitAll_offers hkind (by omega) hfrontier ⟨hsafe, by simp⟩
      (Bool.eq_false_iff.mpr hopen)
    refine ih (by omega) hgrown.next hgrown.safe hborder.seen_next ?_ (h.step hoffers) hcomplete
    intro hleft
    refine hborder.next (fun v => Iff.rfl) fun v => ?_
    rw [hoffers.next, h.news_iff]
    simp [hleft]

end Followed

/-! ## The answer of the search -/

/-- What an answer says about the calls from a root, cut off or not. -/
structure CallGraph (idb : Idb) (root : U64) (params : GraphParams) (g : Graphing) : Prop where
  nodes_nodup : g.addresses.Nodup
  nodes_le : g.nodes.length ≤ params.max_nodes
  nodes_within : ∀ v ∈ g.addresses, Within idb.calls [root] params.depth.val v
  edges_nodup : (g.edges.map GraphEdge.ends).Nodup
  edges_le : g.edges.length ≤ params.max_edges
  edges_calls : ∀ e ∈ g.edges, e.src ∈ g.addresses ∧ e.dst ∈ g.addresses ∧ e.dst ∈ idb.calls e.src
  full : g.truncated = true → g.Full params
  nodes_exact : g.truncated = false → 0 < params.max_nodes →
    ∀ v, v ∈ g.addresses ↔ Within idb.calls [root] params.depth.val v
  edges_exact : g.truncated = false → ∀ u v, (u, v) ∈ g.edges.map GraphEdge.ends ↔
    (∃ m < params.depth.val, Within idb.calls [root] m u) ∧ v ∈ idb.calls u

lemma Safe.start {succ : U64 → List U64} (root : U64) (name : String) :
    Safe succ root params (({} : Graphing).add_node params root name) := by
  have hempty : Safe succ root params {} :=
    ⟨by simp [addresses], by simp, by simp [addresses], by simp, by simp [addresses], by simp,
      by simp, by simp, by simp, by simp⟩
  rcases Nat.eq_zero_or_pos params.max_nodes with hzero | hpos
  · -- there is no room for the root
    have heq : ({} : Graphing).add_node params root name = { seen_nodes := [root] } := by
      simp [Graphing.add_node, hzero]
    rw [heq]
    exact { hempty with
      seen := by simp [addresses]
      shown := fun h => by omega }
  · exact (hempty.add_node hpos (within_of_mem (by simp))).1

lemma search_callGraph (hkind : params.kind ≠ "cfg") (root : Idb.Function) :
    CallGraph idb root.start params (search idb params root) := by
  have hstart : Safe idb.calls root.start params
      (({} : Graphing).add_node params root.start (root.name.getD "")) := .start _ _
  have hfrontier : ∀ u ∈ [root.start],
      u ∈ (({} : Graphing).add_node params root.start (root.name.getD "")).seen_nodes ∧
        Within idb.calls [root.start] 0 u :=
    fun u hu => ⟨mem_add_node_seen.mpr (.inr (List.mem_singleton.mp hu)), within_zero.mpr hu⟩
  have hsafe : Safe idb.calls root.start params (search idb params root) :=
    levels_safe hkind _ (Nat.zero_add _) hfrontier hstart
  have hfollowed : (search idb params root).truncated = false →
      Followed idb.calls root.start
        (fun v => ∃ m < params.depth.val, Within idb.calls [root.start] m v)
        (search idb params root) :=
    levels_followed hkind _ (Nat.zero_add _) hfrontier hstart (by simp) (fun _ => .start)
      (.start _)
  refine ⟨hsafe.nodup, hsafe.nodes_le, hsafe.within, hsafe.ends_nodup, hsafe.edges_le, hsafe.edges,
    hsafe.full, ?_, ?_⟩
  · intro hcomplete hpos v
    have hshown : v ∈ (search idb params root).addresses ↔
        v ∈ (search idb params root).seen_nodes := ⟨hsafe.seen v, hsafe.shown hpos v⟩
    rw [hshown, (hfollowed hcomplete).seen_nodes, within_iff_tail, List.mem_singleton]
  · intro hcomplete u v
    rw [(hfollowed hcomplete).ends, (hfollowed hcomplete).seen_edges]

end Graphing

/-- The graph of the calls from the function at an address: its nodes are distinct functions within
`depth` calls of the root, its edges distinct calls between them, and no cap is exceeded.  If it is
not cut off, it has all these functions, and all the calls of those that are closer than `depth`;
and it is cut off only at a cap. -/
theorem graph_calls_exact (idb : Idb) (ea : U64) (params : GraphParams) (root : Idb.Function)
    (hroot : idb.function_at ea = some root) (hkind : params.kind ≠ "cfg") :
    idb.graph ea params =
        .ok ((Graphing.search idb params root).to_value params.kind root.start) ∧
      (Graphing.search idb params root).CallGraph idb root.start params := by
  refine ⟨?_, Graphing.search_callGraph hkind root⟩
  rw [Idb.graph, hroot]
  rfl

/-- An instruction of four bytes. -/
def Idb.Insn.four (is_call : Bool) (operands : List Operand) : Insn :=
  ⟨4, by decide, is_call, false, operands⟩

/-- Two functions that call each other, and one of them something that is no function. -/
def Idb.mutual : Idb where
  function_at ea :=
    if ea = 16 then some ⟨16, 20, some "ping"⟩
    else if ea = 32 then some ⟨32, 36, some "pong"⟩ else none
  insn_at ea :=
    if ea = 16 then some (.four true [⟨some 32, none⟩])
    else if ea = 32 then some (.four true [⟨some 16, none⟩, ⟨some 64, none⟩])
    else none
  fits ea insn h := by
    split at h
    · cases h
      subst ea
      decide
    split at h
    · cases h
      subst ea
      decide
    · cases h
  xrefs_from _ := []
  cfg _ := none

theorem graph_calls_exact_mutual :
    let params : GraphParams := ⟨"calls", 2, 8, 8⟩
    let root : Idb.Function := ⟨16, 20, some "ping"⟩
    Idb.mutual.graph 16 params =
        .ok ((Graphing.search Idb.mutual params root).to_value "calls" 16) ∧
      (Graphing.search Idb.mutual params root).CallGraph Idb.mutual 16 params :=
  graph_calls_exact Idb.mutual 16 ⟨"calls", 2, 8, 8⟩ ⟨16, 20, some "ping"⟩ rfl (by decide)

end ReverseMcp
