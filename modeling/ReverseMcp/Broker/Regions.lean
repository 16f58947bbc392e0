import ReverseMcp.Broker.Preflight

/-!
# Virtual regions

The partition of a function's control-flow graph into regions: the strongly connected components of
more than one block become loop or dispatcher regions, the other blocks are bucketed into chunks in
flow-chart order, and the block edges between different regions become the edges of the region
graph.  `loop_of_block` of the source is filled and never read; it is left out.
-/

namespace ReverseMcp

open Rust ReverseMcp.Graph

inductive RegionRole where
  | loop
  | dispatcher
  | chunk
deriving DecidableEq, Repr

structure Region where
  region_id : String
  role : RegionRole
  /-- Block start addresses. -/
  block_eas : List U64
  /-- Indices of the blocks. -/
  block_ids : List ℕ
  entry_blocks : List U64
  exit_blocks : List U64
  pred_regions : List String
  succ_regions : List String
  partition_reason : String
deriving DecidableEq, Repr

structure Partition where
  version : U32
  function_ea : U64
  regions : List Region
  /-- Block index to region id. -/
  block_region : Std.ExtTreeMap ℕ String
  diagnostics : List String

structure PartitionOptions where
  /-- Most blocks of a chunk. -/
  max_chunk_blocks : ℕ := 64
  /-- Components of this size on are dispatchers. -/
  min_dispatcher_scc : ℕ := 8

variable {ε : Type}

namespace CfgIndex

/-- `self.succs[b]`. -/
def row (idx : CfgIndex) (b : ℕ) : Outcome ε (List ℕ) :=
  match idx.succs[b]? with
  | some row => .ok row
  | none => .panic .index

/-- `self.block_eas[b]`. -/
def block_ea (idx : CfgIndex) (b : ℕ) : Outcome ε U64 :=
  match idx.block_eas[b]? with
  | some ea => .ok ea
  | none => .panic .index

/-- Pushes the address of a block onto a list if the condition holds. -/
def pushIf (idx : CfgIndex) (c : Bool) (b : ℕ) (l : List U64) : Outcome ε (List U64) := do
  if c then
    let ea ← idx.block_ea b
    return l ++ [ea]
  else return l

/-- The body of the loop of `entry_exit_blocks`. -/
def entryExit (idx : CfgIndex) (blocks : List ℕ) (acc : List U64 × List U64) (b : ℕ) :
    Outcome ε (List U64 × List U64) := do
  let external_pred := idx.succs.zipIdx.any fun p => !blocks.contains p.2 && p.1.contains b
  let row ← idx.row b
  let has_external_succ := row.any fun s => !blocks.contains s
  let internal_succ := row.any fun s => blocks.contains s
  let isolated := !internal_succ && !external_pred
  let entry ← idx.pushIf (external_pred || isolated || blocks.length == 1) b acc.1
  let exit ← idx.pushIf (has_external_succ || row.isEmpty) b acc.2
  return (entry, exit)

/-- The addresses of the blocks through which a region is entered and left, in ascending order. -/
def entry_exit_blocks (idx : CfgIndex) (blocks : List ℕ) : Outcome ε (List U64 × List U64) := do
  let (entry, exit) ← Outcome.foldList (idx.entryExit blocks) ([], []) blocks
  return (sortByKey id entry, sortByKey id exit)

end CfgIndex

/-- The blocks of a region to be, with its role and the reason for it. -/
structure Group where
  role : RegionRole
  blocks : List ℕ
  reason : String

/-- The part of a partition that is filled region by region. -/
structure Growing where
  regions : List Region := []
  block_region : Std.ExtTreeMap ℕ String := ∅
  region_counter : ℕ := 0

/-- `next_id`, when it has been called `n` times before. -/
def regionId (n : ℕ) : String := "R" ++ toString (n + 1)

/-- A group becomes the next region. -/
def Growing.push (idx : CfgIndex) (g : Growing) (group : Group) : Outcome ε Growing := do
  let region_id := regionId g.region_counter
  let (entry_blocks, exit_blocks) ← idx.entry_exit_blocks group.blocks
  let block_eas ← Outcome.mapList idx.block_ea group.blocks
  let region : Region :=
    { region_id, role := group.role, block_eas, block_ids := group.blocks, entry_blocks,
      exit_blocks, pred_regions := [], succ_regions := [], partition_reason := group.reason }
  return {
    regions := g.regions ++ [region]
    block_region := group.blocks.foldl (fun m b => m.insert b region_id) g.block_region
    region_counter := g.region_counter + 1 }

/-- The group of a strongly connected component. -/
def loopGroup (opts : PartitionOptions) (scc : List ℕ) : Group where
  role := if opts.min_dispatcher_scc ≤ scc.length then .dispatcher else .loop
  blocks := sortByKey id scc
  reason := "SCC of " ++ toString scc.length ++ " blocks (loop/dispatcher structure)"

/-- The group of a chunk. -/
def chunkGroup (blocks : List ℕ) : Group where
  role := .chunk
  blocks
  reason := "linear chunk of " ++ toString blocks.length ++ " blocks (fallback bucketing)"

/-- `in_loop[b] = true`. -/
def markLoop (in_loop : List Bool) (b : ℕ) : Outcome ε (List Bool) :=
  if b < in_loop.length then .ok (in_loop.set b true) else .panic .index

/-- `v.entry(k).or_default().push(x)`. -/
def pushEntry (m : Std.ExtTreeMap String (List String)) (k x : String) :
    Std.ExtTreeMap String (List String) :=
  m.insert k ((m[k]?.getD []) ++ [x])

/-- The maps from a region to its predecessors and to its successors. -/
structure Links where
  pred : Std.ExtTreeMap String (List String) := ∅
  succ : Std.ExtTreeMap String (List String) := ∅

/-- A block edge from the region `rb` to the block `s`. -/
def Links.edge (block_region : Std.ExtTreeMap ℕ String) (rb : String) (links : Links) (s : ℕ) :
    Links :=
  match block_region[s]? with
  | none => links
  | some rs =>
    if rs = rb then links
    else { pred := pushEntry links.pred rs rb, succ := pushEntry links.succ rb rs }

/-- The edges of one block. -/
def Links.block (idx : CfgIndex) (block_region : Std.ExtTreeMap ℕ String) (links : Links) (b : ℕ) :
    Outcome ε Links :=
  match block_region[b]? with
  | none => .ok links
  | some rb => do
    let row ← idx.row b
    return row.foldl (Links.edge block_region rb) links

/-- `dedup_sorted`. -/
def dedup_sorted (l : List String) : List String := dedupBy id (sortByKey id l)

/-- A region gets its neighbours. -/
def Links.attach (links : Links) (r : Region) : Region :=
  let r := match links.pred[r.region_id]? with
    | some ps => { r with pred_regions := dedup_sorted ps }
    | none => r
  match links.succ[r.region_id]? with
  | some ss => { r with succ_regions := dedup_sorted ss }
  | none => r

/-- The groups of blocks that become regions: first the components of more than one block, then the
chunks of the other blocks. -/
def CfgIndex.groups (idx : CfgIndex) (opts : PartitionOptions) : Outcome ε (List Group) := do
  let sccs ← idx.tarjan_sccs
  let loops := sccs.filter fun scc => decide (1 < scc.length)
  let n := idx.block_eas.length
  let in_loop ← Outcome.foldList markLoop (List.replicate n false) loops.flatten
  let singles := (List.range n).filter fun b => !(in_loop[b]?.getD false)
  let pieces ← chunks opts.max_chunk_blocks singles
  return loops.map (loopGroup opts) ++ pieces.map chunkGroup

/-- The partition of a control-flow graph into the virtual region graph. -/
def partition (idx : CfgIndex) (opts : PartitionOptions) : Outcome ε Partition := do
  let groups ← idx.groups opts
  let g ← Outcome.foldList (Growing.push idx) {} groups
  let n := idx.block_eas.length
  let links ← Outcome.foldList (Links.block idx g.block_region) {} (List.range n)
  let regions := g.regions.map links.attach
  let loops := (regions.filter fun r => r.role ≠ .chunk).length
  let pieces := (regions.filter fun r => r.role = .chunk).length
  return {
    version := 1
    function_ea := idx.block_eas.head?.getD 0
    regions
    block_region := g.block_region
    diagnostics :=
      [s!"{regions.length} regions from {n} blocks ({loops} loop/dispatcher, {pieces} chunks)"] }

end ReverseMcp
