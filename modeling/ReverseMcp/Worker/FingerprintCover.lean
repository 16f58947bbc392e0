import Mathlib.Data.List.TakeWhile
import ReverseMcp.Worker.Exports

/-!
# What the fingerprints of a function cover

`function_block_fingerprints` takes the blocks from a graph and the instructions from a listing,
each with a bound of its own, and only the bound of the graph shows in the flag.  The instruction
loop puts every instruction from the first block start on into one block (`groups_perm`);
`fingerprints_complete_iff` is the exact condition under which nothing is left out.
-/

namespace ReverseMcp

open Rust

namespace Blockdiff

/-! ## Groups of a map -/

section Groups

variable {κ α : Type} [Ord κ] [Std.TransOrd κ] [Std.LawfulEqOrd κ] [DecidableEq κ]
  {m : Std.ExtTreeMap κ (List α)} {k : κ} {v : List α}

/-- The elements of all groups. -/
def allIn (m : Std.ExtTreeMap κ (List α)) : List α := m.toList.flatMap Prod.snd

omit [DecidableEq κ] in
lemma toList_nodup (m : Std.ExtTreeMap κ (List α)) : m.toList.Nodup := by
  refine Std.ExtTreeMap.distinct_keys_toList.imp fun {p q} hne heq => hne ?_
  rw [heq]
  exact Std.ReflCmp.compare_self

lemma getElem?_erase_eq_ite (m : Std.ExtTreeMap κ (List α)) (k x : κ) :
    (m.erase k)[x]? = if x = k then none else m[x]? := by
  rw [Std.ExtTreeMap.getElem?_erase]
  by_cases hx : x = k
  · simp [hx]
  · have hcmp : compare k x ≠ .eq := fun h => hx (Std.LawfulEqCmp.eq_of_compare h).symm
    simp [hx, hcmp]

/-- One group and the others. -/
lemma toList_perm_cons (h : m[k]? = some v) : m.toList.Perm ((k, v) :: (m.erase k).toList) := by
  have hmem : ∀ (m : Std.ExtTreeMap κ (List α)) (p : κ × List α),
      p ∈ m.toList ↔ m[p.1]? = some p.2 := fun m p =>
    Std.ExtTreeMap.mem_toList_iff_getElem?_eq_some
  have hout : (k, v) ∉ (m.erase k).toList := by
    rw [hmem, getElem?_erase_eq_ite, if_pos rfl]
    simp
  refine (List.perm_ext_iff_of_nodup (toList_nodup m)
    (List.nodup_cons.mpr ⟨hout, toList_nodup _⟩)).mpr fun p => ?_
  obtain ⟨x, w⟩ := p
  rw [List.mem_cons, hmem, hmem, getElem?_erase_eq_ite, Prod.mk.injEq]
  by_cases hx : x = k
  · subst hx
    simp [h, eq_comm]
  · simp [hx]

lemma erase_insert (m : Std.ExtTreeMap κ (List α)) (k : κ) (v : List α) :
    (m.insert k v).erase k = m.erase k := by
  ext1 x
  rw [getElem?_erase_eq_ite, getElem?_erase_eq_ite, getElem?_insert_eq_ite]
  split <;> rfl

/-- An element is added to one of the groups. -/
lemma allIn_append (m : Std.ExtTreeMap κ (List α)) (k : κ) (a : α) :
    (allIn (m.insert k (m[k]?.getD [] ++ [a]))).Perm (allIn m ++ [a]) := by
  have hinsert : (m.insert k (m[k]?.getD [] ++ [a]))[k]? = some (m[k]?.getD [] ++ [a]) := by
    rw [getElem?_insert_eq_ite, if_pos rfl]
  have hnew := (toList_perm_cons hinsert).flatMap_right Prod.snd
  rw [erase_insert, List.flatMap_cons] at hnew
  refine hnew.trans ?_
  cases hk : m[k]? with
  | none =>
    have hsame : m.erase k = m := by
      ext1 x
      rw [getElem?_erase_eq_ite]
      split
      · next hx => rw [hx, hk]
      · rfl
    rw [hsame]
    exact List.perm_append_comm
  | some v =>
    have hold := (toList_perm_cons hk).flatMap_right Prod.snd
    rw [List.flatMap_cons] at hold
    dsimp only [Option.getD_some] at hold ⊢
    rw [List.append_assoc]
    refine (List.Perm.append_left v List.perm_append_comm).trans ?_
    rw [← List.append_assoc]
    exact hold.symm.append_right [a]

end Groups

/-! ## The instruction loop -/

section Loop

variable {starts : List U64} {insns : List InsnInfo} {m : AddrMap (List InsnInfo)} {current : U64}

/-- Inside a block every instruction is kept. -/
lemma groups_perm_inside : (allIn (perBlock starts (some current) insns m)).Perm
    (allIn m ++ insns) := by
  induction insns generalizing current m with
  | nil => rw [perBlock, List.append_nil]
  | cons insn insns ih =>
    have hgo : ∀ cur, (allIn (perBlock starts (some cur) insns
        (m.insert cur (m[cur]?.getD [] ++ [insn])))).Perm (allIn m ++ insn :: insns) := by
      intro cur
      have hsplit : allIn m ++ insn :: insns = allIn m ++ [insn] ++ insns := by simp
      rw [hsplit]
      exact ih.trans ((allIn_append m cur insn).append_right insns)
    rw [perBlock]
    by_cases hstart : insn.ea ∈ starts
    · rw [if_pos hstart]
      exact hgo insn.ea
    · rw [if_neg hstart]
      exact hgo current

/-- The instructions from the first block start on are kept. -/
lemma groups_perm (starts : List U64) (insns : List InsnInfo) :
    (allIn (perBlock starts none insns ∅)).Perm
      (insns.dropWhile fun insn => insn.ea ∉ starts) := by
  induction insns with
  | nil => exact .refl _
  | cons insn insns ih =>
    rw [perBlock]
    by_cases hstart : insn.ea ∈ starts
    · rw [if_pos hstart, List.dropWhile_cons_of_neg (by simpa using hstart)]
      refine groups_perm_inside.trans ?_
      exact (allIn_append (∅ : AddrMap (List InsnInfo)) insn.ea insn).append_right insns
    · rw [if_neg hstart, List.dropWhile_cons_of_pos (by simpa using hstart)]
      exact ih

/-- The blocks that are there: those that start at an instruction. -/
lemma mem_perBlock {k : U64} {current : Option U64} (hcur : ∀ c ∈ current, c ∈ m) :
    k ∈ perBlock starts current insns m ↔ k ∈ m ∨ k ∈ starts ∧ ∃ i ∈ insns, i.ea = k := by
  induction insns generalizing current m with
  | nil => simp [perBlock]
  | cons insn insns ih =>
    have hgo : ∀ cur, (cur ∈ m ∨ cur ∈ starts ∧ insn.ea = cur) →
        (insn.ea ∈ starts → cur = insn.ea) →
        (k ∈ perBlock starts (some cur) insns (m.insert cur (m[cur]?.getD [] ++ [insn])) ↔
          k ∈ m ∨ k ∈ starts ∧ ∃ i ∈ insn :: insns, i.ea = k) := by
      intro cur hmem hstart
      rw [ih fun c hc => by rw [mem_treeMap_insert]; exact .inl (Option.some.inj hc).symm,
        mem_treeMap_insert, List.exists_mem_cons_iff]
      constructor
      · rintro ((rfl | hk) | ⟨hk, hi⟩)
        · exact hmem.imp_right fun h => ⟨h.1, .inl h.2⟩
        · exact .inl hk
        · exact .inr ⟨hk, .inr hi⟩
      · rintro (hk | ⟨hk, rfl | hi⟩)
        · exact .inl (.inr hk)
        · exact .inl (.inl (hstart hk).symm)
        · exact .inr ⟨hk, hi⟩
    rw [perBlock]
    by_cases hstart : insn.ea ∈ starts
    · rw [if_pos hstart]
      exact hgo insn.ea (.inr ⟨hstart, rfl⟩) fun _ => rfl
    · rw [if_neg hstart]
      cases current with
      | some cur => exact hgo cur (.inl (hcur cur rfl)) fun h => absurd h hstart
      | none =>
        dsimp only
        rw [ih hcur, List.exists_mem_cons_iff]
        refine or_congr_right (and_congr_right fun hk => (or_iff_right ?_).symm)
        rintro rfl
        exact hstart hk

end Loop

/-! ## Completeness -/

/-- The instructions that a backend lists from one address to another one: in the order of their
addresses, and as many as are asked for. -/
structure ListsFrom (r : Reader) (start stop : U64) (insns : List InsnInfo) : Prop where
  lists : ∀ n, r.disassemble start (some stop) n = .ok (insns.take n)
  first : ∀ i ∈ insns.head?, i.ea = start
  ascending : insns.Pairwise fun i j => i.ea < j.ea

/-- The blocks that fingerprints are made of, with their instructions. -/
def groupsOf (nodes : List Json) (insns : List InsnInfo) : List (U64 × List InsnInfo) :=
  (perBlock (nodes.filterMap fun n => (n.idx "ea").asU64) none insns ∅).toList

/-- Every node has exactly one fingerprint, every instruction of the function is in exactly one of
the blocks, and the fingerprints count all of them. -/
structure FingerprintsComplete (nodes : List Json) (code : List InsnInfo)
    (groups : List (U64 × List InsnInfo)) (fps : List BlockFp) : Prop where
  nodes : ∀ n ∈ nodes, (fps.filter fun fp => (n.idx "ea").asU64 = some fp.ea).length = 1
  blocks : fps.map (fun fp => (fp.ea, fp.insn_count)) = groups.map fun g => (g.1, g.2.length)
  instructions : (groups.flatMap Prod.snd).Perm code
  counts : (fps.map BlockFp.insn_count).sum = code.length

section Complete

variable {r : Reader} {ea : U64} {max_blocks : ℕ} {graph : Json} {nodes : List Json}
  {f : FunctionInfo} {code rest : List InsnInfo}

/-- What `function_block_fingerprints` gives. -/
lemma fingerprintsIn_eq (hgraph : r.graph ea ⟨"cfg", 1, max_blocks, max_blocks * 4⟩ = .ok graph)
    (hnodes : (graph.idx "nodes").asArray = some nodes) (hf : r.function_at ea = .ok f)
    (hrest : ListsFrom r ea f.ea_end rest) :
    function_block_fingerprintsIn r ea max_blocks =
      .ok ((groupsOf nodes (rest.take (max_blocks * 64))).map
          (fingerprint (fun a => ((edgesOf graph).filter fun e => e.1 = a).length)
            fun a => ((edgesOf graph).filter fun e => e.2 = a).length),
        ((graph.idx "truncated").asBool).getD false || decide (max_blocks ≤ nodes.length)) := by
  rw [function_block_fingerprintsIn, hgraph, Outcome.ok_bind, Outcome.ofOption_eq_ok.mpr hnodes,
    Outcome.ok_bind]
  dsimp only
  rw [hf, Outcome.ok_bind, hrest.lists, Outcome.ok_bind]
  rfl

/-- The flag of the answer is that of the graph. -/
lemma flag_iff (hgraph : r.graph ea ⟨"cfg", 1, max_blocks, max_blocks * 4⟩ = .ok graph)
    (hnodes : (graph.idx "nodes").asArray = some nodes) (hf : r.function_at ea = .ok f)
    (hrest : ListsFrom r ea f.ea_end rest) :
    (((graph.idx "truncated").asBool).getD false || decide (max_blocks ≤ nodes.length)) = true ↔
      CutOff r ea max_blocks :=
  truncated_iff (fingerprintsIn_eq hgraph hnodes hf hrest)

lemma groupsOf_keys (nodes : List Json) (insns : List InsnInfo) :
    ((groupsOf nodes insns).map Prod.fst).Nodup := by
  rw [groupsOf, List.Nodup, List.pairwise_map]
  refine Std.ExtTreeMap.distinct_keys_toList.imp fun {p q} hne heq => hne ?_
  rw [heq]
  exact Std.ReflCmp.compare_self

/-- The blocks that there are fingerprints of. -/
lemma mem_groupsOf_keys {insns : List InsnInfo} {k : U64} :
    k ∈ (groupsOf nodes insns).map Prod.fst ↔
      (∃ n ∈ nodes, (n.idx "ea").asU64 = some k) ∧ ∃ i ∈ insns, i.ea = k := by
  have hkeys : k ∈ (groupsOf nodes insns).map Prod.fst ↔
      k ∈ perBlock (nodes.filterMap fun n => (n.idx "ea").asU64) none insns ∅ := by
    rw [groupsOf, Std.ExtTreeMap.map_fst_toList_eq_keys, Std.ExtTreeMap.mem_keys]
  have hnone : ∀ c ∈ (none : Option U64), c ∈ (∅ : AddrMap (List InsnInfo)) := by simp
  rw [hkeys, mem_perBlock hnone, List.mem_filterMap]
  simp

/-- A node has one fingerprint iff it starts at an instruction that is listed. -/
lemma one_fingerprint_iff {out_count in_count : U64 → ℕ} {insns : List InsnInfo} {n : Json}
    (hn : n ∈ nodes) :
    (((groupsOf nodes insns).map (fingerprint out_count in_count)).filter fun fp =>
        (n.idx "ea").asU64 = some fp.ea).length = 1 ↔
      ∃ i ∈ insns, (n.idx "ea").asU64 = some i.ea := by
  have hkeys : (((groupsOf nodes insns).map (fingerprint out_count in_count)).filter fun fp =>
      (n.idx "ea").asU64 = some fp.ea).length =
        ((groupsOf nodes insns).map Prod.fst).countP fun k => (n.idx "ea").asU64 = some k := by
    rw [List.filter_map, List.length_map, List.countP_map, List.countP_eq_length_filter]
    rfl
  rw [hkeys]
  cases hea : (n.idx "ea").asU64 with
  | none => simp
  | some k =>
    have hcount : ((groupsOf nodes insns).map Prod.fst).countP (fun k' => some k = some k') =
        ((groupsOf nodes insns).map Prod.fst).count k := by
      rw [List.count]
      refine List.countP_congr fun k' _ => ?_
      rw [decide_eq_true_iff, Option.some.injEq, beq_iff_eq, eq_comm]
    have hmem := @mem_groupsOf_keys nodes insns k
    rw [and_iff_right ⟨n, hn, hea⟩] at hmem
    rw [hcount]
    constructor
    · intro hone
      obtain ⟨i, hi, hik⟩ := hmem.mp (List.count_pos_iff.mp (hone ▸ Nat.one_pos))
      exact ⟨i, hi, by rw [hik]⟩
    · rintro ⟨i, hi, hik⟩
      exact List.count_eq_one_of_mem (groupsOf_keys nodes insns)
        (hmem.mpr ⟨i, hi, (Option.some.inj hik).symm⟩)

/-- The fingerprints are complete iff every node starts at an instruction that is listed and the
instructions that are listed, from the first one that starts a node on, are those of the
function. -/
lemma complete_iff_listed {out_count in_count : U64 → ℕ} {insns : List InsnInfo} :
    FingerprintsComplete nodes code (groupsOf nodes insns)
        ((groupsOf nodes insns).map (fingerprint out_count in_count)) ↔
      (∀ n ∈ nodes, ∃ i ∈ insns, (n.idx "ea").asU64 = some i.ea) ∧
        (insns.dropWhile fun i => i.ea ∉ nodes.filterMap fun n => (n.idx "ea").asU64).Perm code := by
  have hall : ((groupsOf nodes insns).flatMap Prod.snd).Perm
      (insns.dropWhile fun i => i.ea ∉ nodes.filterMap fun n => (n.idx "ea").asU64) :=
    groups_perm _ insns
  constructor
  · intro h
    exact ⟨fun n hn => (one_fingerprint_iff hn).mp (h.nodes n hn), hall.symm.trans h.instructions⟩
  · rintro ⟨hnodes, hcode⟩
    have hperm := hall.trans hcode
    refine ⟨fun n hn => (one_fingerprint_iff hn).mpr (hnodes n hn), ?_, hperm, ?_⟩
    · rw [List.map_map]
      rfl
    · rw [← hperm.length_eq, List.length_flatMap, List.map_map]
      rfl

/-- There is one listing. -/
lemma ListsFrom.unique {start stop : U64} {l l' : List InsnInfo} (h : ListsFrom r start stop l)
    (h' : ListsFrom r start stop l') : l = l' := by
  have htake := Outcome.ok.inj ((h.lists (l.length + l'.length)).symm.trans
    (h'.lists (l.length + l'.length)))
  rwa [List.take_of_length_le (Nat.le_add_right _ _),
    List.take_of_length_le (Nat.le_add_left _ _)] at htake

/-- Where the listing is that of a function from an address in it, the instructions from the first
block start on are all of them iff the address is the start of the function, a block starts there
and the bound on the listing is not reached. -/
lemma listed_iff {n : ℕ} {starts : List U64} (hstart : f.ea_start ≤ ea)
    (hcode : ListsFrom r f.ea_start f.ea_end code) (hrest : ListsFrom r ea f.ea_end rest)
    (hne : code ≠ []) :
    ((rest.take n).dropWhile fun i => i.ea ∉ starts).Perm code ↔
      ea = f.ea_start ∧ f.ea_start ∈ starts ∧ code.length ≤ n := by
  obtain ⟨first, tail, rfl⟩ := List.exists_cons_of_ne_nil hne
  have hfirst : first.ea = f.ea_start := hcode.first first rfl
  have hsub : ((rest.take n).dropWhile fun i => i.ea ∉ starts).Sublist rest :=
    (List.dropWhile_suffix _).sublist.trans (List.take_sublist n rest)
  constructor
  · intro hperm
    -- the first instruction of the function is listed, so the listing begins there
    have hmem : first ∈ rest := hsub.subset (hperm.mem_iff.mpr List.mem_cons_self)
    have hle : ea ≤ first.ea := by
      obtain ⟨i, l, rfl⟩ := List.exists_cons_of_ne_nil (List.ne_nil_of_mem hmem)
      have hi : i.ea = ea := hrest.first i rfl
      rcases List.mem_cons.mp hmem with rfl | hmem
      · exact hi.ge
      · rw [← hi]
        exact ((List.pairwise_cons.mp hrest.ascending).1 first hmem).le
    have hea : ea = f.ea_start := le_antisymm (hfirst ▸ hle) hstart
    subst hea
    obtain rfl : rest = first :: tail := hrest.unique hcode
    have hlength := hperm.length_eq
    have hdrop := (List.dropWhile_suffix (l := (first :: tail).take n)
      fun i => decide (i.ea ∉ starts)).length_le
    rw [hlength, List.length_take] at hdrop
    have hlen : (first :: tail).length ≤ n := by omega
    refine ⟨rfl, ?_, hlen⟩
    rw [List.take_of_length_le hlen] at hlength
    by_contra hnot
    rw [← hfirst] at hnot
    rw [List.dropWhile_cons_of_pos (by simpa using hnot)] at hlength
    have hshort := (List.dropWhile_suffix (l := tail) fun i => decide (i.ea ∉ starts)).length_le
    rw [hlength, List.length_cons] at hshort
    omega
  · rintro ⟨hea, hmem, hlen⟩
    subst hea
    obtain rfl : rest = first :: tail := hrest.unique hcode
    rw [← hfirst] at hmem
    rw [List.take_of_length_le hlen, List.dropWhile_cons_of_neg (by simpa using hmem)]

/-- Fingerprints that are not said to be truncated are complete iff the graph is cut off, so that
they are said to be, or: every node has the address of an instruction of the function, and a
function that has instructions is asked for by its start, where a node starts, and has no more than
64 for each of the blocks that are asked for. -/
theorem fingerprints_complete_iff
    (hgraph : r.graph ea ⟨"cfg", 1, max_blocks, max_blocks * 4⟩ = .ok graph)
    (hnodes : (graph.idx "nodes").asArray = some nodes) (hf : r.function_at ea = .ok f)
    (hstart : f.ea_start ≤ ea) (hcode : ListsFrom r f.ea_start f.ea_end code)
    (hrest : ListsFrom r ea f.ea_end rest) :
    ∃ fps truncated, function_block_fingerprintsIn r ea max_blocks = .ok (fps, truncated) ∧
      ((truncated = false → FingerprintsComplete nodes code
          (groupsOf nodes (rest.take (max_blocks * 64))) fps) ↔
        CutOff r ea max_blocks ∨
          (∀ n ∈ nodes, ∃ i ∈ code, (n.idx "ea").asU64 = some i.ea) ∧
          (code ≠ [] → ea = f.ea_start ∧ (∃ n ∈ nodes, (n.idx "ea").asU64 = some f.ea_start) ∧
            code.length ≤ max_blocks * 64)) := by
  refine ⟨_, _, fingerprintsIn_eq hgraph hnodes hf hrest, ?_⟩
  rw [complete_iff_listed, ← flag_iff hgraph hnodes hf hrest, ← Bool.not_eq_true, imp_iff_not_or,
    not_not]
  refine or_congr_right ?_
  by_cases hne : code = []
  · subst hne
    rw [List.perm_nil, List.dropWhile_eq_nil_iff]
    constructor
    · rintro ⟨hlisted, hdropped⟩
      refine ⟨fun n hn => ?_, fun h => absurd rfl h⟩
      obtain ⟨i, hi, hea⟩ := hlisted n hn
      exact absurd (List.mem_filterMap.mpr ⟨n, hn, hea⟩) (of_decide_eq_true (hdropped i hi))
    · rintro ⟨hlisted, -⟩
      have hnil : nodes = [] := List.eq_nil_iff_forall_not_mem.mpr fun n hn => by
        obtain ⟨i, hi, -⟩ := hlisted n hn
        cases hi
      subst hnil
      simp
  · rw [listed_iff hstart hcode hrest hne, List.mem_filterMap]
    constructor
    · rintro ⟨hlisted, hea, hfirst, hlen⟩
      subst hea
      obtain rfl : rest = code := hrest.unique hcode
      rw [List.take_of_length_le hlen] at hlisted
      exact ⟨hlisted, fun _ => ⟨rfl, hfirst, hlen⟩⟩
    · rintro ⟨hlisted, hrest'⟩
      obtain ⟨hea, hfirst, hlen⟩ := hrest' hne
      subst hea
      obtain rfl : rest = code := hrest.unique hcode
      rw [List.take_of_length_le hlen]
      exact ⟨hlisted, rfl, hfirst, hlen⟩

end Complete

/-! ## A function of one block -/

/-- Instructions of one byte each, without a branch. -/
def straightCode (n : ℕ) : List InsnInfo :=
  (List.range n).map fun i => ⟨0x401000 + asU64 i, "nop", "", "nop"⟩

/-- The node of the block. -/
def straightNode : Json := .object [("ea", .u64 0x401000), ("name", "f")]

/-- A backend with one function of one block. -/
def straightLine (n : ℕ) : Reader where
  function_at _ := .ok ⟨0x401000, 0x401000 + asU64 n, "f", asU64 n⟩
  disassemble _ _ max_insns := .ok ((straightCode n).take max_insns)
  graph _ _ := .ok (.object [("root", .u64 0x401000), ("nodes", .array [straightNode]),
    ("edges", .array []), ("truncated", false)])
  xrefs_to _ := .ok []
  get_bytes _ _ := .ok .null
  disassemble_length h := by
    cases h
    exact List.length_take_le _ _
  graph_edges h := by
    cases h
    exact Nat.two_pow_pos 64

lemma straightLine_lists {n : ℕ} (hn : n < 2 ^ 32) (stop : U64) :
    ListsFrom (straightLine n) 0x401000 stop (straightCode n) := by
  refine ⟨fun _ => rfl, fun i hi => ?_, ?_⟩
  · cases n with
    | zero => simp [straightCode] at hi
    | succ n =>
      rw [straightCode, List.range_succ_eq_map, List.map_cons, List.head?_cons] at hi
      rw [← Option.some.inj hi]
      rfl
  · rw [straightCode, List.pairwise_map]
    refine List.pairwise_lt_range.imp_of_mem fun {i j} _ hj hlt => ?_
    have hj := List.mem_range.mp hj
    show (0x401000 + asU64 i : U64).val < (0x401000 + asU64 j : U64).val
    have hval : ∀ k, k < 2 ^ 32 → (0x401000 + asU64 k : U64).val = 0x401000 + k := by
      intro k hk
      rw [Fin.val_add, asU64_val (by omega)]
      exact Nat.mod_eq_of_lt (by show 0x401000 + k < 2 ^ 64; omega)
    rw [hval i (by omega), hval j (by omega)]
    omega

/-- Of two instructions none is left out. -/
theorem fingerprints_complete_iff_two : ∃ fps truncated,
    function_block_fingerprintsIn (straightLine 2) 0x401000 8 = .ok (fps, truncated) ∧
      (truncated = false → FingerprintsComplete [straightNode] (straightCode 2)
        (groupsOf [straightNode] ((straightCode 2).take (8 * 64))) fps) := by
  have hlists := straightLine_lists (n := 2) (by decide) (0x401000 + asU64 2)
  have hgraph : (straightLine 2).graph 0x401000 ⟨"cfg", 1, 8, 8 * 4⟩ = .ok _ := rfl
  obtain ⟨fps, truncated, heq, hiff⟩ :=
    fingerprints_complete_iff hgraph rfl rfl le_rfl hlists hlists
  refine ⟨fps, truncated, heq, hiff.mpr (.inr ⟨?_, fun _ => ⟨rfl, ?_, by decide⟩⟩)⟩
  · decide +kernel
  · decide +kernel

/-- Of 513 instructions of one block, with eight blocks asked for, the last one is in no block, and
nothing is said to be truncated. -/
theorem fingerprints_not_complete :
    ListsFrom (straightLine 513) 0x401000 (0x401000 + asU64 513) (straightCode 513) ∧
      ∃ fps, function_block_fingerprintsIn (straightLine 513) 0x401000 8 = .ok (fps, false) ∧
        ¬FingerprintsComplete [straightNode] (straightCode 513)
          (groupsOf [straightNode] ((straightCode 513).take (8 * 64))) fps := by
  have hlists := straightLine_lists (n := 513) (by decide) (0x401000 + asU64 513)
  refine ⟨hlists, _, fingerprintsIn_eq (r := straightLine 513) rfl rfl rfl hlists, fun h => ?_⟩
  -- the blocks have no more instructions than are listed
  have hlength := (h.instructions.symm.trans (groups_perm _ _)).length_eq
  have hdrop := (List.dropWhile_suffix (l := (straightCode 513).take (8 * 64)) fun i =>
    decide (i.ea ∉ [straightNode].filterMap fun n => (n.idx "ea").asU64)).length_le
  have hcode : (straightCode 513).length = 513 := by simp [straightCode]
  rw [← hlength, List.length_take, hcode] at hdrop
  omega

end Blockdiff

end ReverseMcp
