import Mathlib.Data.Fintype.Card
import ReverseMcp.Rust.Collections
import ReverseMcp.Rust.Reading
import ReverseMcp.Worker.Arms
import ReverseMcp.Worker.Reader

/-!
# Exported fingerprints

A function is compared with one of another database in two ways: by `blockdiff::diff_function` on
the two backends, or by `sig.diff` on the exports that `sig.fingerprints` makes of the two sides.
Every field of a fingerprint survives the export (`parse_block_json`), so both come to the same diff
of the same blocks.  The exports also say whether a graph was cut off, and only `diff_function`
reports that: `diff_exports_iff` is when it makes no difference.
-/

namespace ReverseMcp

open Rust

namespace Blockdiff

open Deep (items)

section
variable [Host]

/-! ## Over a backend -/

/-- `blockdiff::function_block_fingerprints` over any backend. -/
def function_block_fingerprintsIn (r : Reader) (ea : U64) (max_blocks : ℕ) :
    Result (List BlockFp × Bool) := do
  let graph ← r.graph ea ⟨"cfg", 1, max_blocks, max_blocks * 4⟩
  let nodes ← Outcome.ofOption (Error.worker "graph: missing nodes") (graph.idx "nodes").asArray
  let truncated := ((graph.idx "truncated").asBool).getD false ||
    decide (max_blocks ≤ nodes.length)
  let starts := nodes.filterMap fun n => (n.idx "ea").asU64
  let f ← r.function_at ea
  let insns ← r.disassemble ea (some f.ea_end) (max_blocks * 64)
  let edges := edgesOf graph
  let out_count (a : U64) : ℕ := (edges.filter fun e => e.1 = a).length
  let in_count (a : U64) : ℕ := (edges.filter fun e => e.2 = a).length
  return ((perBlock starts none insns ∅).toList.map (fingerprint out_count in_count), truncated)

lemma function_block_fingerprintsIn_reader (b : MockBackend) (ea : U64) (max_blocks : ℕ) :
    function_block_fingerprintsIn b.reader ea max_blocks =
    function_block_fingerprints b ea max_blocks :=
  rfl

/-- What `sig.fingerprints` answers about one function. -/
def exportIn (r : Reader) (ea : U64) (max_blocks : ℕ) : Result Json := do
  let (fps, truncated) ← function_block_fingerprintsIn r ea max_blocks
  return .object [("ea", .ea ea), ("blocks", .array (fps.map block_fp_json)),
    ("truncated", truncated)]

/-- On the mock this is the answer of the method. -/
lemma exportIn_reader (params v : Json) (s : WorkerState) :
    fingerprintsAt params v s = (do
      let ea ← ea_param_value v
      let b ← need_backend s
      exportIn b.reader ea (fingerprintBlocks params)) := rfl

/-- A function that is there. -/
def requireFunction (r : Reader) (ea : U64) (message : String) : Result Unit :=
  match r.function_at ea with
  | .ok _ => .ok ()
  | .err _ => fail message
  | .panic p => .panic p

/-- `blockdiff::diff_function`. -/
def diff_function (ra rb : Reader) (ea_a ea_b : U64) (max_blocks : ℕ) (threshold : ℚ) :
    Result Json := do
  requireFunction ra ea_a s!"db A: no function at {hex ea_a}"
  requireFunction rb ea_b s!"db B: no function at {hex ea_b}"
  let (fa, ta) ← function_block_fingerprintsIn ra ea_a max_blocks
  let (fb, tb) ← function_block_fingerprintsIn rb ea_b max_blocks
  let truncated := ta || tb
  let out ← diff_blocks fa fb threshold (max_blocks * 4)
  return ((out.to_value.set "ea_a" (.ea ea_a)).set "ea_b" (.ea ea_b)).set "truncated"
    (truncated || out.truncated : Bool)

/-- Both sides exported, and the exports compared. -/
def diff_exports (ra rb : Reader) (ea_a ea_b : U64) (max_blocks : ℕ) (threshold : ℚ) :
    Result Json := do
  let a ← exportIn ra ea_a max_blocks
  let b ← exportIn rb ea_b max_blocks
  diff_from_json a b threshold max_blocks

end

/-! ## A fingerprint in transit -/

/-- The counts of a fingerprint are numbers that JSON has. -/
structure Countable (fp : BlockFp) : Prop where
  const_count : fp.const_count < 2 ^ 64
  out_edges : fp.out_edges < 2 ^ 64
  in_edges : fp.in_edges < 2 ^ 64
  insn_count : fp.insn_count < 2 ^ 64

lemma countField_nat {r : Json} {key : String} {n : ℕ} (h : r.get key = some (.nat n))
    (hn : n < 2 ^ 64) : countField r key = n := by
  simp only [countField, Json.idx, h, Option.getD_some, Json.nat, Json.u64, Json.asU64]
  exact Nat.mod_eq_of_lt hn

lemma hashField_hexPadded {r : Json} {key : String} {v : U64}
    (h : r.get key = some (.string (hexPadded 16 v.val))) : hashField r key = v := by
  simp only [hashField, Json.idx, h, Option.getD_some, Json.asStr, fromStrRadix_hexPadded]

/-- An exported row is read back as the fingerprint it was made of. -/
lemma parse_block_json {fp : BlockFp} (h : Countable fp) :
    parse_block (block_fp_json fp) = .ok fp := by
  have hea : parse_ea ((((block_fp_json fp).idx "ea").asStr).getD "0") = .ok fp.ea := by
    have hfield : ((block_fp_json fp).idx "ea").asStr = some (hex fp.ea) := rfl
    rw [hfield, Option.getD_some, parse_ea, parseAddress_hex]
    rfl
  rw [parse_block]
  rw [hea, Outcome.ok_bind, hashField_hexPadded rfl, hashField_hexPadded rfl,
    countField_nat rfl h.const_count, countField_nat rfl h.out_edges, countField_nat rfl h.in_edges,
    countField_nat rfl h.insn_count]
  rfl

/-! ## The counts of a fingerprint -/

/-- A set of words that lacks one has a size that is a word. -/
lemma size_lt_of_not_mem {s : AddrSet} {v : U64} (h : v ∉ s) : s.size < 2 ^ 64 := by
  have hcons : (v :: s.toList).Nodup :=
    List.nodup_cons.mpr ⟨fun hmem => h (Std.ExtTreeSet.mem_toList.mp hmem), treeSet_toList_nodup s⟩
  have hcard := List.Nodup.length_le_card hcons
  rw [List.length_cons, Std.ExtTreeSet.length_toList, Fintype.card_fin] at hcard
  omega

/-- The constants of a block do not include zero. -/
lemma zero_not_mem_constants (insns : List InsnInfo) : (0 : U64) ∉ insns.flatMap constants := by
  intro hmem
  obtain ⟨insn, -, hmem⟩ := List.mem_flatMap.mp hmem
  obtain ⟨tok, -, htok⟩ := List.mem_filterMap.mp hmem
  obtain ⟨digits, -, htok⟩ := Option.bind_eq_some_iff.mp htok
  obtain ⟨v, -, htok⟩ := Option.bind_eq_some_iff.mp htok
  split at htok
  · rename_i hlarge
    rw [Option.some.inj htok] at hlarge
    exact absurd hlarge (by decide)
  · cases htok

/-- No block has more instructions than the listing. -/
lemma perBlock_length {starts : List U64} {current : Option U64} {insns : List InsnInfo}
    {m : AddrMap (List InsnInfo)} {n : ℕ}
    (h : ∀ (k : U64) (block : List InsnInfo), m[k]? = some block → block.length ≤ n) {k : U64}
    {block : List InsnInfo} (hk : (perBlock starts current insns m)[k]? = some block) :
    block.length ≤ n + insns.length := by
  induction insns generalizing current m n with
  | nil => exact h k block hk
  | cons insn insns ih =>
    rw [perBlock] at hk
    rw [List.length_cons, ← Nat.add_assoc, Nat.add_right_comm]
    split at hk
    · rename_i cur _
      -- the instruction goes to the block `cur`, which grows by one; the others stay
      refine ih (fun k' block' hk' => ?_) hk
      rw [getElem?_insert_eq_ite] at hk'
      split at hk'
      · rw [← Option.some.inj hk', List.length_append, List.length_singleton]
        refine Nat.succ_le_succ ?_
        cases hcur : m[cur]? with
        | none => exact Nat.zero_le _
        | some old => exact h cur old hcur
      · exact (h k' block' hk').trans (Nat.le_succ n)
    · exact ih (fun k' block' hk' => (h k' block' hk').trans (Nat.le_succ n)) hk

/-- The fingerprints of a function can be exported. -/
lemma fingerprints_countable {r : Reader} {ea : U64} {max_blocks : ℕ} {fps : List BlockFp}
    {truncated : Bool} (hmax : max_blocks ≤ 4096)
    (h : function_block_fingerprintsIn r ea max_blocks = .ok (fps, truncated)) :
    ∀ fp ∈ fps, Countable fp := by
  obtain ⟨graph, hgraph, h⟩ := Outcome.bind_eq_ok.mp h
  obtain ⟨nodes, hnodes, h⟩ := Outcome.bind_eq_ok.mp h
  obtain ⟨f, hf, h⟩ := Outcome.bind_eq_ok.mp h
  obtain ⟨insns, hinsns, h⟩ := Outcome.bind_eq_ok.mp h
  obtain ⟨rfl, -⟩ := Prod.mk.inj (Outcome.ok.inj h)
  intro fp hfp
  obtain ⟨⟨start, block⟩, hblock, rfl⟩ := List.mem_map.mp hfp
  have hedges : (edgesOf graph).length < 2 ^ 64 :=
    lt_of_le_of_lt (List.length_filterMap_le _ _) (r.graph_edges hgraph)
  -- the constants are fewer than `2 ^ 64` since none of them is zero; of edges and instructions the
  -- reader lists no more
  refine ⟨?_, ?_, ?_, ?_⟩
  · refine size_lt_of_not_mem (v := 0) fun hmem => ?_
    rcases (mem_treeSet_foldl_insert _ _).mp hmem with hmem | hmem
    · simp at hmem
    · exact zero_not_mem_constants _ hmem
  · exact lt_of_le_of_lt (List.length_filter_le _ _) hedges
  · exact lt_of_le_of_lt (List.length_filter_le _ _) hedges
  · have hlength := perBlock_length (n := 0) (by simp)
      (Std.ExtTreeMap.mem_toList_iff_getElem?_eq_some.mp hblock)
    have hlisting := r.disassemble_length hinsns
    show block.length < 2 ^ 64
    omega

/-- The blocks of an export are read back as the fingerprints. -/
lemma parse_fn_blocks_export {v : Json} {fps : List BlockFp}
    (hv : v.get "blocks" = some (.array (fps.map block_fp_json))) (h : ∀ fp ∈ fps, Countable fp) :
    parse_fn_blocks v = .ok fps := by
  have hitems :
      items v "blocks" = fps.map block_fp_json := by simp [items, Json.idx, hv, Json.asArray]
  rw [parse_fn_blocks, hitems]
  clear hv hitems
  induction fps with
  | nil => rfl
  | cons fp fps ih =>
    obtain ⟨hfp, hfps⟩ := List.forall_mem_cons.mp h
    rw [List.map_cons, Outcome.mapList, parse_block_json hfp, ih hfps]
    rfl

/-! ## The two ways -/

/-- Two answers are the same: the same fields, or the same failure. -/
def SameAnswer : Result Json → Result Json → Prop
  | .ok v, .ok w => ∀ key, v.get key = w.get key
  | .err e, .err e' => e = e'
  | .panic p, .panic p' => p = p'
  | _, _ => False

lemma SameAnswer.rfl {x : Result Json} : SameAnswer x x := by
  cases x with
  | ok v => exact fun _ => Eq.refl _
  | err e => exact Eq.refl e
  | panic p => exact Eq.refl p

/-- The flag of an answer. -/
def truncatedOf : Result Json → Json
  | .ok v => v.idx "truncated"
  | _ => .null

lemma SameAnswer.truncatedOf {x y : Result Json} (h : SameAnswer x y) :
    truncatedOf x = truncatedOf y := by
  cases x with
  | ok v =>
    cases y with
    | ok w => exact congrArg (·.getD .null) (h "truncated")
    | err e => exact h.elim
    | panic p => exact h.elim
  | err e =>
    cases y with
    | ok w => exact h.elim
    | err e => rfl
    | panic p => exact h.elim
  | panic p =>
    cases y with
    | ok w => exact h.elim
    | err e => exact h.elim
    | panic p => rfl

/-- The graph of a function does not fit into the blocks that were asked for. -/
def CutOff (r : Reader) (ea : U64) (max_blocks : ℕ) : Prop :=
  ∃ graph, r.graph ea ⟨"cfg", 1, max_blocks, max_blocks * 4⟩ = .ok graph ∧
    (graph.idx "truncated" = .bool true ∨ max_blocks ≤ (items graph "nodes").length)

/-- Fingerprints are truncated when the graph is cut off. -/
lemma truncated_iff {r : Reader} {ea : U64} {max_blocks : ℕ} {fps : List BlockFp} {truncated : Bool}
    (h : function_block_fingerprintsIn r ea max_blocks = .ok (fps, truncated)) :
    truncated = true ↔ CutOff r ea max_blocks := by
  obtain ⟨graph, hgraph, h⟩ := Outcome.bind_eq_ok.mp h
  obtain ⟨nodes, hnodes, h⟩ := Outcome.bind_eq_ok.mp h
  obtain ⟨f, hf, h⟩ := Outcome.bind_eq_ok.mp h
  obtain ⟨insns, hinsns, h⟩ := Outcome.bind_eq_ok.mp h
  obtain ⟨-, rfl⟩ := Prod.mk.inj (Outcome.ok.inj h)
  have hitems : items graph "nodes" = nodes := by
    cases harray : (graph.idx "nodes").asArray with
    | none =>
      rw [harray] at hnodes
      cases hnodes
    | some l =>
      rw [harray] at hnodes
      rw [items, harray, ← Outcome.ok.inj hnodes]
      rfl
  have hflag : ((graph.idx "truncated").asBool).getD false = true ↔
      graph.idx "truncated" = .bool true := by
    cases graph.idx "truncated" <;> simp [Json.asBool]
  -- what is left is the flag of this graph, and there is only one graph
  rw [Bool.or_eq_true, hflag, decide_eq_true_iff, ← hitems]
  constructor
  · exact fun hcut => ⟨graph, hgraph, hcut⟩
  · rintro ⟨graph', hgraph', hcut⟩
    rwa [Outcome.ok.inj (hgraph.symm.trans hgraph')]

/-- The export of fingerprints that can be exported is compared as they are. -/
lemma diff_exports_eq (ra rb : Reader) (ea_a ea_b : U64) {max_blocks : ℕ} (hmax : max_blocks ≤ 4096)
    (threshold : ℚ) :
    diff_exports ra rb ea_a ea_b max_blocks threshold = (do
      let (fa, _) ← function_block_fingerprintsIn ra ea_a max_blocks
      let (fb, _) ← function_block_fingerprintsIn rb ea_b max_blocks
      let out ← diff_blocks fa fb threshold (max_blocks * 4)
      return (out.to_value.set "ea_a" (.ea ea_a)).set "ea_b" (.ea ea_b)) := by
  unfold diff_exports exportIn
  cases hfa : function_block_fingerprintsIn ra ea_a max_blocks with
  | err e => rfl
  | panic p => rfl
  | ok xa =>
    cases hfb : function_block_fingerprintsIn rb ea_b max_blocks with
    | err e => rfl
    | panic p => rfl
    | ok xb =>
      obtain ⟨fa, ta⟩ := xa
      obtain ⟨fb, tb⟩ := xb
      simp only [Outcome.ok_bind, Outcome.pure_eq]
      rw [diff_from_json]
      rw [parse_fn_blocks_export rfl (fingerprints_countable hmax hfa),
        parse_fn_blocks_export rfl (fingerprints_countable hmax hfb)]
      rfl

/-- A field of an object in which one field was set. -/
lemma get_set (fields : List (String × Json)) (k key : String) (x : Json) :
    ((Json.object fields).set k x).get key =
      if key = k then some x else (Json.object fields).get key := by
  simp only [Json.set, Json.get, List.find?_append]
  by_cases hkey : key = k
  · subst hkey
    -- the old field is filtered away, and the new one is the last
    have hnone : (fields.filter fun f => f.1 != key).find? (fun f => f.1 == key) = none := by
      rw [List.find?_eq_none]
      intro f hf
      simpa using (List.mem_filter.mp hf).2
    simp [hnone]
  · -- another field is not touched by the filter
    have hsame : (fields.filter fun f => f.1 != k).find? (fun f => f.1 == key) =
        fields.find? fun f => f.1 == key := by
      rw [List.find?_filter]
      congr 1
      funext f
      by_cases hf : f.1 = key
      · simp [hf, hkey]
      · simp [hf]
    simp [hsame, Ne.symm hkey, hkey]

/-- Where a graph is cut off, the diff of the fingerprints itself has more rows than are shown. -/
def CutShows (ra rb : Reader) (ea_a ea_b : U64) (max_blocks : ℕ) (threshold : ℚ) : Prop :=
  ∀ fa ta fb tb rows, function_block_fingerprintsIn ra ea_a max_blocks = .ok (fa, ta) →
    function_block_fingerprintsIn rb ea_b max_blocks = .ok (fb, tb) →
    diffRows fa fb threshold = .ok rows →
    CutOff ra ea_a max_blocks ∨ CutOff rb ea_b max_blocks → max_blocks * 4 < rows.length

lemma cutShows_iff {ra rb : Reader} {ea_a ea_b : U64} {max_blocks : ℕ} {threshold : ℚ}
    {fa fb : List BlockFp} {ta tb : Bool}
    (hfa : function_block_fingerprintsIn ra ea_a max_blocks = .ok (fa, ta))
    (hfb : function_block_fingerprintsIn rb ea_b max_blocks = .ok (fb, tb)) :
    CutShows ra rb ea_a ea_b max_blocks threshold ↔ ∀ rows, diffRows fa fb threshold = .ok rows →
      (ta || tb) = true → max_blocks * 4 < rows.length := by
  rw [Bool.or_eq_true, truncated_iff hfa, truncated_iff hfb]
  constructor
  · exact fun h rows hrows => h fa ta fb tb rows hfa hfb hrows
  · intro h fa' ta' fb' tb' rows hfa' hfb' hrows
    cases hfa.symm.trans hfa'
    cases hfb.symm.trans hfb'
    exact h rows hrows

/-- The two diffs differ at most in the flag. -/
lemma sameAnswer_flag_iff (d : BlockDiff) (a b : Json) (t : Bool) :
    SameAnswer (.ok ((d.to_value.set "ea_a" a).set "ea_b" b))
      (.ok (((d.to_value.set "ea_a" a).set "ea_b" b).set "truncated" (t || d.truncated : Bool))) ↔
        (t = true → d.truncated = true) := by
  obtain ⟨fields, hfields⟩ :
      ∃ fields, (d.to_value.set "ea_a" a).set "ea_b" b = .object fields := ⟨_, rfl⟩
  have hflag : (Json.object fields).get "truncated" = some (.bool d.truncated) := by
    rw [← hfields]
    rfl
  rw [hfields]
  constructor
  · intro h ht
    -- the flags are among the fields
    have hsame := h "truncated"
    rw [get_set, if_pos rfl, hflag, ht] at hsame
    simpa using hsame
  · intro h key
    rw [get_set]
    split
    · rename_i hkey
      subst hkey
      rw [hflag]
      cases t with
      | false => simp
      | true => simp [h rfl]
    · rfl

/-- For two functions that are there: the diff of their exports is the diff of the functions exactly
when no graph is cut off unless the diff is, too. -/
theorem diff_exports_iff {ra rb : Reader} {ea_a ea_b : U64} {f_a f_b : FunctionInfo}
    (ha : ra.function_at ea_a = .ok f_a) (hb : rb.function_at ea_b = .ok f_b) (params : Json)
    (threshold : ℚ) :
    SameAnswer (diff_exports ra rb ea_a ea_b (fingerprintBlocks params) threshold)
        (diff_function ra rb ea_a ea_b (fingerprintBlocks params) threshold) ↔
      CutShows ra rb ea_a ea_b (fingerprintBlocks params) threshold := by
  have hmax : fingerprintBlocks params ≤ 4096 := by
    rw [fingerprintBlocks, clamp]
    omega
  rw [diff_exports_eq ra rb ea_a ea_b hmax, diff_function]
  simp only [requireFunction, ha, hb, Outcome.ok_bind]
  cases hfa : function_block_fingerprintsIn ra ea_a (fingerprintBlocks params) with
  | err e =>
    -- without fingerprints both ways fail with the same error
    simp only [Outcome.err_bind]
    refine ⟨fun _ fa ta _ _ _ hok => ?_, fun _ => .rfl⟩
    rw [hfa] at hok
    cases hok
  | panic p =>
    simp only [Outcome.panic_bind]
    refine ⟨fun _ fa ta _ _ _ hok => ?_, fun _ => .rfl⟩
    rw [hfa] at hok
    cases hok
  | ok xa =>
    cases hfb : function_block_fingerprintsIn rb ea_b (fingerprintBlocks params) with
    | err e =>
      simp only [Outcome.ok_bind, Outcome.err_bind]
      refine ⟨fun _ _ _ fb tb _ _ hok => ?_, fun _ => .rfl⟩
      rw [hfb] at hok
      cases hok
    | panic p =>
      simp only [Outcome.ok_bind, Outcome.panic_bind]
      refine ⟨fun _ _ _ fb tb _ _ hok => ?_, fun _ => .rfl⟩
      rw [hfb] at hok
      cases hok
    | ok xb =>
      obtain ⟨fa, ta⟩ := xa
      obtain ⟨fb, tb⟩ := xb
      simp only [Outcome.ok_bind, Outcome.pure_eq, diff_blocks]
      -- from here both ways compare the same fingerprints, and only the flag is set apart
      rw [cutShows_iff hfa hfb]
      cases hrows : diffRows fa fb threshold with
      | err e => exact ⟨fun _ => nofun, fun _ => .rfl⟩
      | panic p => exact ⟨fun _ => nofun, fun _ => .rfl⟩
      | ok rows =>
        refine (sameAnswer_flag_iff ⟨fa.length, fb.length, _, _⟩ _ _ (ta || tb)).trans ?_
        rw [decide_eq_true_iff]
        exact ⟨fun h rows' hrows' => Outcome.ok.inj hrows' ▸ h, fun h => h rows rfl⟩

/-! ## Blocks of one instruction -/

/-- A backend with one function, whose blocks are single instructions. -/
def insnBlocks (n : ℕ) : Reader where
  function_at _ := .ok ⟨0x401000, 0x401000 + asU64 n, "f", asU64 n⟩
  disassemble _ _ max_insns :=
    .ok (((List.range n).map fun i => ⟨0x401000 + asU64 i, "nop", "", "nop"⟩).take max_insns)
  graph _ params := .ok (.object [("root", .u64 0x401000),
    ("nodes", .array (((List.range n).take params.max_nodes).map fun i =>
      .object [("ea", .u64 (0x401000 + asU64 i)), ("name", "bb")])),
    ("edges", .array []), ("truncated", false)])
  xrefs_to _ := .ok []
  get_bytes _ _ := .ok .null
  disassemble_length h := by
    cases h
    exact List.length_take_le _ _
  graph_edges h := by
    cases h
    exact Nat.two_pow_pos 64

/-- A function of one block. -/
theorem diff_exports_iff_one_block :
    SameAnswer (diff_exports (insnBlocks 1) (insnBlocks 1) 0x401000 0x401000
      (fingerprintBlocks .null) 0.8) (diff_function (insnBlocks 1) (insnBlocks 1) 0x401000 0x401000
        (fingerprintBlocks .null) 0.8) := by
  refine (diff_exports_iff rfl rfl .null 0.8).mpr fun fa ta fb tb rows _ _ _ hcut => ?_
  have hshort : ¬CutOff (insnBlocks 1) 0x401000 (fingerprintBlocks .null) := by
    rintro ⟨graph, hgraph, hcut⟩
    cases hgraph
    revert hcut
    decide
  exact absurd hcut (by simp [hshort])

/-- With eight blocks, as many as are asked for, the diff of the functions says that it is
truncated, and the diff of the exports does not. -/
theorem diff_exports_not_same :
    let max_blocks := fingerprintBlocks (.object [("max_blocks", .nat 8)])
    ¬SameAnswer (diff_exports (insnBlocks 8) (insnBlocks 8) 0x401000 0x401000 max_blocks 0.8)
      (diff_function (insnBlocks 8) (insnBlocks 8) 0x401000 0x401000 max_blocks 0.8) := by
  intro max_blocks h
  exact absurd h.truncatedOf (by decide +kernel)

end Blockdiff

end ReverseMcp
