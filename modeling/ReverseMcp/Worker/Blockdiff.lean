import ReverseMcp.Rust.Floats
import ReverseMcp.Worker.Deep

/-!
# Block-level diff

`rmcp_worker::blockdiff`: fingerprints of the basic blocks of a function, the greedy mapping
between two lists of fingerprints, and the diff of two exported fingerprint sets.

The similarity of two blocks is an exact fraction: it is one of six values, and the same one up to
the last place as in `f64`.  That of two functions, which takes many values, is an `F64`.
-/

namespace ReverseMcp

open Rust

/-- `blockdiff::BlockFp`. -/
structure BlockFp where
  ea : U64
  mnemonic_hash : U64
  const_hash : U64
  const_count : ℕ
  out_edges : ℕ
  in_edges : ℕ
  insn_count : ℕ
deriving DecidableEq

namespace Blockdiff

open Deep (items textOf)

/-- `BlockFp::shape_hash`. -/
def shape_hash (fp : BlockFp) : U64 :=
  fnv1a [fp.mnemonic_hash, fp.const_hash, asU64 fp.out_edges, asU64 fp.in_edges]

/-- `BlockFp::similarity`. -/
def similarity (a b : BlockFp) : ℚ :=
  let mnem : ℚ := if a.mnemonic_hash = b.mnemonic_hash then 1 else 0
  let consts : ℚ := if a.const_hash = b.const_hash then 1 else 0
  let edges : ℚ := if a.out_edges = b.out_edges ∧ a.in_edges = b.in_edges then 1 else 0
  6 / 10 * mnem + 2 / 10 * consts + 2 / 10 * edges

/-! ## Fingerprints -/

/-- The instruction loop: the block that each instruction belongs to, once one has started. -/
def perBlock (starts : List U64) :
    Option U64 → List InsnInfo → AddrMap (List InsnInfo) → AddrMap (List InsnInfo)
  | _, [], m => m
  | current, insn :: rest, m =>
    let current := if insn.ea ∈ starts then some insn.ea else current
    match current with
    | some cur => perBlock starts current rest (m.insert cur (m[cur]?.getD [] ++ [insn]))
    | none => perBlock starts current rest m

/-- The large immediates of an instruction. -/
def constants (insn : InsnInfo) : List U64 :=
  (splitTrim insn.operands).filterMap fun tok => do
    let digits ← stripHexMark tok.toList
    let v ← (fromStrRadix (2 ^ 64) 16 digits).toOption
    if 0x100 ≤ v.val then some v else none

/-- The fingerprint of one block. -/
def fingerprint (out_count in_count : U64 → ℕ) (block : U64 × List InsnInfo) : BlockFp :=
  let consts : AddrSet := (block.2.flatMap constants).foldl (·.insert ·) ∅
  { ea := block.1
    mnemonic_hash := fnv1a64 (block.2.flatMap fun insn =>
      bytes (toAsciiLowercase insn.mnemonic) ++ [0x1f])
    const_hash := fnv1a consts.toList
    const_count := consts.size
    out_edges := out_count block.1
    in_edges := in_count block.1
    insn_count := block.2.length }

/-- The ends of the edges of a graph. -/
def edgesOf (graph : Json) : List (U64 × U64) :=
  (items graph "edges").filterMap fun e => do
    let src ← (e.idx "from").asU64
    let dst ← (e.idx "to").asU64
    return (src, dst)

/-- `blockdiff::function_block_fingerprints`. -/
def function_block_fingerprints [Host] (b : MockBackend) (ea : U64) (max_blocks : ℕ) :
    Result (List BlockFp × Bool) := do
  let graph ← b.graph ea ⟨"cfg", 1, max_blocks, max_blocks * 4⟩
  let nodes ← Outcome.ofOption (Error.worker "graph: missing nodes") (graph.idx "nodes").asArray
  let truncated := ((graph.idx "truncated").asBool).getD false ||
    decide (max_blocks ≤ nodes.length)
  let starts := nodes.filterMap fun n => (n.idx "ea").asU64
  let f ← b.function_at ea
  let insns ← b.disassemble ea (some f.ea_end) (max_blocks * 64)
  let edges := edgesOf graph
  let out_count (a : U64) : ℕ := (edges.filter fun e => e.1 = a).length
  let in_count (a : U64) : ℕ := (edges.filter fun e => e.2 = a).length
  return ((perBlock starts none insns ∅).toList.map (fingerprint out_count in_count), truncated)

/-- `dispatch::block_fp_json`. -/
def block_fp_json (fp : BlockFp) : Json :=
  .object [("ea", .ea fp.ea), ("mnemonic_hash", hexPadded 16 fp.mnemonic_hash.val),
    ("const_hash", hexPadded 16 fp.const_hash.val), ("const_count", .nat fp.const_count),
    ("out_edges", .nat fp.out_edges), ("in_edges", .nat fp.in_edges),
    ("insn_count", .nat fp.insn_count)]

/-! ## Mapping blocks -/

/-- The classification of a row. -/
inductive RowKind where
  | equal
  | modified
  | removed
  | added
deriving DecidableEq

namespace RowKind

/-- The text of a classification. -/
def text : RowKind → String
  | equal => "equal"
  | modified => "modified"
  | removed => "removed"
  | added => "added"

/-- The rank in the order of the rows. -/
def rank : RowKind → ℕ
  | equal => 0
  | modified => 1
  | removed => 2
  | added => 3

end RowKind

/-- A classified pair, or an unmatched block. -/
structure BlockRow where
  kind : RowKind
  a : Option BlockFp
  b : Option BlockFp
  similarity : Option ℚ

/-- `blockdiff::block_row`. -/
def block_row (r : BlockRow) : Json :=
  let side (x : BlockFp) : Json := .object [("ea", .ea x.ea), ("insns", .nat x.insn_count)]
  .object [("kind", r.kind.text), ("a", .opt (r.a.map side)), ("b", .opt (r.b.map side)),
    ("similarity", .opt (r.similarity.map fun s => .string (fixed2 s)))]

/-- Positions paired so far, and the positions used on either side. -/
structure Pairing where
  pairs : List (ℕ × ℕ)
  used_a : List ℕ
  used_b : List ℕ

/-- A pair added. -/
def Pairing.add (p : Pairing) (ai bi : ℕ) : Pairing :=
  ⟨p.pairs ++ [(ai, bi)], ai :: p.used_a, bi :: p.used_b⟩

/-- The blocks of one side by shape, the last one on top. -/
def byShape (b : List BlockFp) : AddrMap (List ℕ) :=
  b.zipIdx.foldl (fun m p => m.insert (shape_hash p.1) (p.2 :: m[shape_hash p.1]?.getD [])) ∅

/-- Pass 1: exact shapes. -/
def exactPairs : List (BlockFp × ℕ) → AddrMap (List ℕ) → Pairing → Pairing
  | [], _, p => p
  | (blk, ai) :: rest, shapes, p =>
    match shapes[shape_hash blk]? with
    | some (bi :: stack) => exactPairs rest (shapes.insert (shape_hash blk) stack) (p.add ai bi)
    | _ => exactPairs rest shapes p

/-- The best unused partner of a block at or above the threshold, the first on a tie. -/
def bestPartner (b : List BlockFp) (threshold : ℚ) (used_b : List ℕ) (blk : BlockFp) :
    Option ℕ :=
  (b.zipIdx.foldl (fun (best : Option (ℕ × ℚ)) p =>
    let s := similarity blk p.1
    if p.2 ∈ used_b ∨ s < threshold then best
    else
      match best with
      | some (_, bs) => if bs < s then some (p.2, s) else best
      | none => some (p.2, s)) none).map Prod.fst

/-- Pass 2: best similarity among the rest. -/
def similarPairs (b : List BlockFp) (threshold : ℚ) : List (BlockFp × ℕ) → Pairing → Pairing
  | [], p => p
  | (blk, ai) :: rest, p =>
    if ai ∈ p.used_a then similarPairs b threshold rest p
    else
      match bestPartner b threshold p.used_b blk with
      | some bi => similarPairs b threshold rest (p.add ai bi)
      | none => similarPairs b threshold rest p

/-- The pairing of two fingerprint lists. -/
def pairing (a b : List BlockFp) (threshold : ℚ) : Pairing :=
  similarPairs b threshold a.zipIdx (exactPairs a.zipIdx (byShape b) ⟨[], [], []⟩)

/-- The row of a pair; `none` when a position is out of range. -/
def pairRow (a b : List BlockFp) (p : ℕ × ℕ) : Option BlockRow := do
  let x ← a[p.1]?
  let y ← b[p.2]?
  let s := similarity x y
  return ⟨if 999 / 1000 ≤ s then .equal else .modified, some x, some y, some s⟩

/-- The rows of a diff in their final order. -/
def diffRows (a b : List BlockFp) (threshold : ℚ) : Result (List BlockRow) := do
  let p := pairing a b threshold
  let paired ← Outcome.mapList (fun q =>
    match pairRow a b q with
    | some r => .ok r
    | none => .panic .index) p.pairs
  let removed := (a.zipIdx.filter fun q => q.2 ∉ p.used_a).map fun q =>
    BlockRow.mk .removed (some q.1) none none
  let added := (b.zipIdx.filter fun q => q.2 ∉ p.used_b).map fun q =>
    BlockRow.mk .added none (some q.1) none
  return sortByKey (fun r : BlockRow => (r.kind.rank, ((r.a.map fun x => hex x.ea).getD "")))
    (paired ++ removed ++ added)

/-- What a diff reports. -/
structure BlockDiff where
  blocks_a : ℕ
  blocks_b : ℕ
  rows : List BlockRow
  truncated : Bool

/-- The rows of one classification. -/
def BlockDiff.count (d : BlockDiff) (k : RowKind) : ℕ :=
  (d.rows.filter fun r => r.kind = k).length

/-- Serialized form of a diff. -/
def BlockDiff.to_value (d : BlockDiff) : Json :=
  .object [("blocks_a", .nat d.blocks_a), ("blocks_b", .nat d.blocks_b),
    ("equal", .nat (d.count .equal)), ("modified", .nat (d.count .modified)),
    ("added", .nat (d.count .added)), ("removed", .nat (d.count .removed)),
    ("rows", .array (d.rows.map block_row)), ("truncated", d.truncated)]

/-- `blockdiff::diff_blocks`: the counts are those of the rows that are shown. -/
def diff_blocks (a b : List BlockFp) (threshold : ℚ) (max_rows : ℕ) : Result BlockDiff := do
  let rows ← diffRows a b threshold
  return ⟨a.length, b.length, rows.take max_rows, decide (max_rows < rows.length)⟩

/-! ## Exported fingerprints -/

/-- `blockdiff::parse_ea`. -/
def parse_ea (s : String) : Result U64 := ofParse (badEa s) (parseAddress s)

/-- A hexadecimal hash of an exported row, 0 when it does not parse. -/
def hashField (r : Json) (key : String) : U64 :=
  match fromStrRadix (2 ^ 64) 16 (((r.idx key).asStr).getD "0").toList with
  | .ok v => v
  | .error _ => 0

/-- A count of an exported row. -/
def countField (r : Json) (key : String) : ℕ := (((r.idx key).asU64).getD 0).val

/-- One exported row. -/
def parse_block (r : Json) : Result BlockFp := do
  let ea ← parse_ea (((r.idx "ea").asStr).getD "0")
  return ⟨ea, hashField r "mnemonic_hash", hashField r "const_hash", countField r "const_count",
    countField r "out_edges", countField r "in_edges", countField r "insn_count"⟩

/-- `blockdiff::parse_fn_blocks`. -/
def parse_fn_blocks (f : Json) : Result (List BlockFp) :=
  Outcome.mapList parse_block (items f "blocks")

/-- Family evidence: size, constants, strings, imports. -/
structure Evidence where
  size : U64
  constants : List U64
  strings : List String
  imports : List String

/-- The evidence of an exported function. -/
def evidence (f : Json) : Evidence :=
  let e := f.idx "evidence"
  ⟨((e.idx "size").asU64).getD 0, (items e "constants").filterMap Json.asU64,
    (items e "strings").filterMap Json.asStr, (items e "imports").filterMap Json.asStr⟩

/-- The overlap of two sets of words. -/
def jaccard (a b : List U64) : F64 :=
  if a = [] ∧ b = [] then 1.0
  else if a = [] ∨ b = [] then 0.25
  else (a.dedup ∩ b.dedup).length / (max 1 (a.dedup ∪ b.dedup).length : ℕ)

/-- The similarity of two evidences. -/
def fam_sim (x y : Evidence) : F64 :=
  let hashes (l : List String) : List U64 := l.map fun s => fnv1a64 (bytes s)
  let big := max x.size.val y.size.val
  let small := min x.size.val y.size.val
  let size_sim : F64 := 1.0 - (big - small : ℕ) / (max 1 big : ℕ)
  0.30 * jaccard (hashes x.imports) (hashes y.imports) +
    0.25 * jaccard x.constants y.constants +
    0.25 * jaccard (hashes x.strings) (hashes y.strings) +
    0.20 * max 0.0 (min size_sim 1.0)

/-- Stage 1 of the pairing, by exact name: the pairs, the rest of `b` by name, and the rest of
`a`. -/
def namePairs : List Json → Std.ExtTreeMap String Json → List (Json × Json) → List Json →
    List (Json × Json) × Std.ExtTreeMap String Json × List Json
  | [], by_name, pairs, left => (pairs, by_name, left)
  | f :: fs, by_name, pairs, left =>
    match (f.idx "name").asStr with
    | none => namePairs fs by_name pairs (left ++ [f])
    | some name =>
      match by_name[name]? with
      | some g => namePairs fs (by_name.erase name) (pairs ++ [(f, g)]) left
      | none => namePairs fs by_name pairs (left ++ [f])

/-- The best remaining function by evidence, from 0.6 on, the first on a tie. -/
def bestEvidence (remaining : List Json) (f : Json) : Option Json :=
  (remaining.foldl (fun (best : Option (Json × F64)) g =>
    let s := fam_sim (evidence f) (evidence g)
    let better := match best with
      | some (_, bs) => decide (bs < s)
      | none => true
    if decide (0.6 ≤ s) && better then some (g, s) else best) none).map Prod.fst

/-- The function pairs of two binary exports. -/
def functionPairs (fa fb : List Json) : List (Json × Json) :=
  let by_name : Std.ExtTreeMap String Json := fb.foldl (fun m f =>
    match (f.idx "name").asStr with
    | some name => m.insert name f
    | none => m) ∅
  let (pairs, by_name, left) := namePairs fa by_name [] []
  let remaining := by_name.toList.map Prod.snd
  pairs ++ left.filterMap fun f => (bestEvidence remaining f).map fun g => (f, g)

/-- `blockdiff::diff_binary_json`. -/
def diff_binary_json (fa fb : List Json) (threshold : ℚ) (max_blocks : ℕ) : Result Json := do
  let pairs := functionPairs fa fb
  let rows ← Outcome.mapList (fun (p : Json × Json) => do
    let fps_a ← parse_fn_blocks p.1
    let fps_b ← parse_fn_blocks p.2
    let d ← diff_blocks fps_a fps_b threshold (max_blocks * 4)
    return if d.count .modified = 0 ∧ d.count .added = 0 ∧ d.count .removed = 0 then none
      else some (Json.object [("name", p.1.idx "name"), ("name_b", p.2.idx "name"),
        ("ea_a", p.1.idx "ea"), ("ea_b", p.2.idx "ea"),
        ("modified", .nat (d.count .modified)), ("added", .nat (d.count .added)),
        ("removed", .nat (d.count .removed)), ("rows", .array (d.rows.map block_row))])) pairs
  return .object [("matched_functions", .nat pairs.length),
    ("equal", .nat (rows.filter Option.isNone).length),
    ("changed", .array (rows.filterMap id)),
    ("pairing", "name + evidence-similarity fallback (stripped builds pair by evidence)")]

/-- A text field copied into a diff under another key, where it is there. -/
def withEa (out : Json) (key : String) (v : Json) : Json :=
  match (v.idx "ea").asStr with
  | some ea => out.set key ea
  | none => out

/-- `blockdiff::diff_from_json`. -/
def diff_from_json (a b : Json) (threshold : ℚ) (max_blocks : ℕ) : Result Json :=
  match (a.idx "functions").asArray, (b.idx "functions").asArray with
  | some fa, some fb => diff_binary_json fa fb threshold max_blocks
  | _, _ => do
    let fps_a ← parse_fn_blocks a
    let fps_b ← parse_fn_blocks b
    let d ← diff_blocks fps_a fps_b threshold (max_blocks * 4)
    return withEa (withEa d.to_value "ea_a" a) "ea_b" b

end Blockdiff

end ReverseMcp
