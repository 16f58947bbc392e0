import ReverseMcp.Rust.Hex
import ReverseMcp.Rust.Reading
import ReverseMcp.Worker.PatchRanges
import ReverseMcp.Worker.Sites

/-!
# The extents of the proposed patches

The pairs of instructions that T1 and T2 match become the patches of a proposal.  A listing has the
addresses and the texts of its instructions and not their lengths, so the number of bytes comes from
the texts, cut off at sixteen.  A patch covers its pair exactly when that number is the number of
bytes of the two instructions (`patch_extent_iff`).
-/

namespace ReverseMcp

open Rust

namespace Transforms

open Deep (items textOf)

/-! ## Listings -/

/-- A listed instruction with the number of its bytes. -/
structure SizedInsn where
  insn : InsnInfo
  size : ℕ
  pos : 0 < size

/-- The address behind an instruction, as a number. -/
def SizedInsn.stop (i : SizedInsn) : ℕ := i.insn.ea.val + i.size

/-- The bytes of every instruction end where the next one begins. -/
def Contiguous (l : List SizedInsn) : Prop := l.IsChain fun a b => a.stop = b.insn.ea.val

/-- The first `n` neighbours that match; where a pair is consumed whole, its second instruction is
in no other pair. -/
def pairsOf (found : InsnInfo → InsnInfo → Bool) (whole : Bool) :
    ℕ → List SizedInsn → List (SizedInsn × SizedInsn)
  | n + 1, a :: b :: rest =>
    if found a.insn b.insn then
      (a, b) :: if whole then pairsOf found whole n rest else pairsOf found whole n (b :: rest)
    else pairsOf found whole (n + 1) (b :: rest)
  | _, _ => []

/-- The pairs that a transform matches in a listing. -/
def matchedPairs (kind : TransformKind) (l : List SizedInsn) : List (SizedInsn × SizedInsn) :=
  match kind with
  | .T1OpaqueBranch => pairsOf isOpaquePair false MAX_SITES l
  | .T2JunkRemoval => pairsOf pair_is_roundtrip true MAX_SITES l
  | _ => []

/-- The site of a matched pair. -/
def pairSite (kind : TransformKind) (p : SizedInsn × SizedInsn) : Site :=
  match kind with
  | .T1OpaqueBranch => opaqueSite p.1.insn p.2.insn
  | _ => junkSite p.1.insn p.2.insn

/-- The number of bytes that the texts of a matched pair stand for: one for each word, but one for
each byte of the text of a jump. -/
def textExtent (kind : TransformKind) (a b : InsnInfo) : ℕ :=
  match kind with
  | .T1OpaqueBranch => min (insn_len a.text + max 1 (byteLen b.text.toList)) 16
  | _ => min (insn_len a.text + insn_len b.text) 16

lemma pairSite_ea (kind : TransformKind) (p : SizedInsn × SizedInsn) :
    (pairSite kind p).ea = p.1.insn.ea := by
  cases kind <;> rfl

lemma pairSite_len (kind : TransformKind) (p : SizedInsn × SizedInsn) :
    (pairSite kind p).len = textExtent kind p.1.insn p.2.insn := by
  cases kind <;> rfl

lemma pairsOf_length (found : InsnInfo → InsnInfo → Bool) (whole : Bool) (n : ℕ)
    (l : List SizedInsn) : (pairsOf found whole n l).length ≤ n := by
  fun_induction pairsOf found whole n l with
  | case1 n a b rest hfound hwhole hshare =>
    rw [List.length_cons]
    split <;> omega
  | case2 n a b rest hfound ih => exact ih
  | case3 => exact Nat.zero_le _

/-- The sites of the first pairs are the first sites of the listing. -/
lemma pairsOf_map (found : InsnInfo → InsnInfo → Bool) (whole : Bool)
    (site : InsnInfo → InsnInfo → Site) (n : ℕ) (l : List SizedInsn) :
    (pairsOf found whole n l).map (fun p => site p.1.insn p.2.insn) =
      (pairSites found whole site (l.map (·.insn))).take n := by
  fun_induction pairsOf found whole n l with
  | case1 n a b rest hfound hwhole hshare =>
    rw [List.map_cons, List.map_cons, List.map_cons, pairSites, if_pos hfound, List.take_succ_cons]
    cases whole with
    | true => rw [if_pos rfl, if_pos rfl, hwhole]
    | false => rw [if_neg (by decide), if_neg (by decide), hshare, List.map_cons]
  | case2 n a b rest hfound ih =>
    rw [List.map_cons, List.map_cons, pairSites, if_neg hfound, ih, List.map_cons]
  | case3 l n hl =>
    -- there is room for no pair, or there are fewer than two instructions
    cases n with
    | zero => rfl
    | succ n =>
      cases l with
      | nil => rfl
      | cons a l =>
        cases l with
        | nil => rfl
        | cons b rest => exact absurd rfl fun h => hl n a b rest rfl h

/-- The finders of T1 and T2 find the sites of the matched pairs. -/
lemma foundSites_eq_pairs {kind : TransformKind}
    (hkind : kind = .T1OpaqueBranch ∨ kind = .T2JunkRemoval) (l : List SizedInsn) :
    foundSites kind (l.map (·.insn)) = (matchedPairs kind l).map (pairSite kind) := by
  rw [foundSites_eq]
  rcases hkind with rfl | rfl
  · exact (pairsOf_map isOpaquePair false opaqueSite MAX_SITES l).symm
  · exact (pairsOf_map pair_is_roundtrip true junkSite MAX_SITES l).symm

/-- The plan of T1 or T2 has the sites of the matched pairs. -/
lemma proposeIn_eq_pairs [Host] {r : Reader} {idx : AnalysisIndex} {target : U64}
    {kind : TransformKind} (hkind : kind = .T1OpaqueBranch ∨ kind = .T2JunkRemoval)
    {f : FunctionFacts} (hf : idx.functions[target]? = some f) {l : List SizedInsn}
    (hlist : r.disassemble target (some f.ea_end) 2000 = .ok (l.map (·.insn))) :
    proposeIn r idx target kind =
      .ok (planJson target f.name kind ((matchedPairs kind l).map (pairSite kind))) := by
  have hnot : kind ≠ .T4Unflatten := by
    rintro rfl
    rcases hkind with h | h <;> cases h
  rw [proposeIn_eq hnot hf hlist, foundSites_eq_pairs hkind]

/-! ## What a patch covers -/

/-- The operation patches the bytes from an address up to another. -/
def Covers (op : Json) (start : U64) (stop : ℕ) : Prop :=
  OpAt op start ∧ start.val + opLen op = stop

lemma matchedPairs_length (kind : TransformKind) (l : List SizedInsn) :
    (matchedPairs kind l).length ≤ MAX_SITES := by
  cases kind with
  | T1OpaqueBranch => exact pairsOf_length _ _ _ _
  | T2JunkRemoval => exact pairsOf_length _ _ _ _
  | T3IndirectMaterialize => exact Nat.zero_le _
  | T4Unflatten => exact Nat.zero_le _

/-- The instructions of a pair are neighbours. -/
lemma pairsOf_contiguous {found : InsnInfo → InsnInfo → Bool} {whole : Bool} {n : ℕ}
    {l : List SizedInsn} (hl : Contiguous l) {p : SizedInsn × SizedInsn}
    (hp : p ∈ pairsOf found whole n l) : p.1.stop = p.2.insn.ea.val := by
  fun_induction pairsOf found whole n l with
  | case1 n a b rest hfound hwhole hshare =>
    obtain ⟨hab, hrest⟩ := List.isChain_cons_cons.mp hl
    rcases List.mem_cons.mp hp with rfl | hp
    · exact hab
    · -- T2 goes on behind the pair, T1 with its second instruction
      cases whole with
      | true => exact hwhole hrest.of_cons hp
      | false => exact hshare hrest hp
  | case2 n a b rest hfound ih => exact ih (List.isChain_cons_cons.mp hl).2 hp
  | case3 => cases hp

lemma matchedPairs_contiguous {kind : TransformKind} {l : List SizedInsn} (hl : Contiguous l)
    {p : SizedInsn × SizedInsn} (hp : p ∈ matchedPairs kind l) : p.1.stop = p.2.insn.ea.val := by
  cases kind with
  | T1OpaqueBranch => exact pairsOf_contiguous hl hp
  | T2JunkRemoval => exact pairsOf_contiguous hl hp
  | T3IndirectMaterialize => cases hp
  | T4Unflatten => cases hp

lemma parse_ea_hex (ea : U64) : parse_ea (hex ea) = .ok ea :=
  ofParse_eq_ok.mpr (parseAddress_hex ea)

lemma opAt_patchOp (site : Site) : OpAt (patchOp site) site.ea :=
  ⟨hex site.ea, rfl, parse_ea_hex site.ea⟩

lemma opLen_patchOp (site : Site) : opLen (patchOp site) = site.len := by
  have hbytes : byteLen (String.join (List.replicate site.len NOP)).toList = 2 * site.len := by
    rw [String.toList_join]
    induction site.len with
    | zero => rfl
    | succ n ih =>
      have hnop : NOP.toList = ['9', '0'] := by decide
      rw [List.replicate_succ, List.flatMap_cons, hnop, List.cons_append, List.cons_append,
        List.nil_append, byteLen_cons, byteLen_cons, ih, show ('9').utf8Size = 1 by decide,
        show ('0').utf8Size = 1 by decide]
      omega
  show byteLen (String.join (List.replicate site.len NOP)).toList / 2 = site.len
  rw [hbytes, Nat.mul_div_cancel_left _ (by decide)]

/-- The patch of a pair of neighbours covers it exactly when its texts stand for its bytes. -/
lemma covers_iff {kind : TransformKind} {p : SizedInsn × SizedInsn}
    (hp : p.1.stop = p.2.insn.ea.val) :
    Covers (patchOp (pairSite kind p)) p.1.insn.ea p.2.stop ↔
      textExtent kind p.1.insn p.2.insn = p.1.size + p.2.size := by
  have hat : OpAt (patchOp (pairSite kind p)) p.1.insn.ea := pairSite_ea kind p ▸ opAt_patchOp _
  rw [Covers, and_iff_right hat, opLen_patchOp, pairSite_len, SizedInsn.stop, ← hp, SizedInsn.stop]
  omega

/-- The operations of T1 and T2 on a contiguous listing cover the matched pairs, from the first
instruction to the one behind the second, exactly when the texts of each pair stand for as many
bytes as it has. -/
theorem patch_extent_iff [Host] {r : Reader} {idx : AnalysisIndex} {target : U64}
    {kind : TransformKind} (hkind : kind = .T1OpaqueBranch ∨ kind = .T2JunkRemoval)
    {f : FunctionFacts} (hf : idx.functions[target]? = some f) {l : List SizedInsn}
    (hlist : r.disassemble target (some f.ea_end) 2000 = .ok (l.map (·.insn)))
    (hl : Contiguous l) :
    ∃ plan, proposeIn r idx target kind = .ok plan ∧
      (List.Forall₂ (fun op p => Covers op p.1.insn.ea p.2.stop) (items plan "operations")
          (matchedPairs kind l) ↔
        ∀ p ∈ matchedPairs kind l, textExtent kind p.1.insn p.2.insn = p.1.size + p.2.size) := by
  refine ⟨_, proposeIn_eq_pairs hkind hf hlist, ?_⟩
  -- the operations are the patches of the pairs, in order, so the question is one about each pair
  rw [planJson_operations _ _ _ (by simpa using matchedPairs_length kind l), List.map_map,
    List.forall₂_map_left_iff, List.forall₂_same]
  exact forall₂_congr fun p hp => covers_iff (matchedPairs_contiguous hl hp)

/-- A backend with one listing. -/
def Reader.ofListing (l : List SizedInsn) : Reader where
  function_at ea := .ok ⟨ea, ea, "f", 0⟩
  disassemble _ _ max_insns := .ok ((l.map (·.insn)).take max_insns)
  graph _ _ := .ok .null
  xrefs_to _ := .ok []
  get_bytes _ _ := .ok .null
  disassemble_length h := by
    cases h
    exact List.length_take_le _ _
  graph_edges h := by
    cases h
    decide

/-- An index with one function. -/
def oneFunction : AnalysisIndex :=
  ⟨INDEX_SCHEMA_VERSION, "md5", 0, (∅ : AddrMap FunctionFacts).insert 0x401000
    { ea_start := 0x401000, ea_end := 0x401040, name := "f" }, []⟩

lemma oneFunction_facts : oneFunction.functions[(0x401000 : U64)]? =
    some { ea_start := 0x401000, ea_end := 0x401040, name := "f" } :=
  Std.ExtTreeMap.getElem?_insert_self

/-- A store and a load of three bytes each. -/
def roundtripListing : List SizedInsn :=
  [⟨⟨0x401000, "mov", "Displ, Reg", "mov [ebp-8], eax"⟩, 3, by decide⟩,
    ⟨⟨0x401003, "mov", "Reg, Displ", "mov eax, [ebp-8]"⟩, 3, by decide⟩,
    ⟨⟨0x401006, "retn", "", "retn"⟩, 1, by decide⟩]

/-- A compare and a jump of two bytes each. -/
def opaqueListing : List SizedInsn :=
  [⟨⟨0x401000, "cmp", "eax, eax", "cmp eax, eax"⟩, 2, by decide⟩,
    ⟨⟨0x401002, "jz", "loc_401010", "jz short loc_401010"⟩, 2, by decide⟩,
    ⟨⟨0x401004, "retn", "", "retn"⟩, 1, by decide⟩]

/-- The patch of the store and the load covers its six bytes. -/
theorem patch_extent_iff_roundtrip :
    letI : Host := Host.ascii false
    ∃ plan, proposeIn (Reader.ofListing roundtripListing) oneFunction 0x401000 .T2JunkRemoval =
        .ok plan ∧
      List.Forall₂ (fun op p => Covers op p.1.insn.ea p.2.stop) (items plan "operations")
        (matchedPairs .T2JunkRemoval roundtripListing) := by
  let : Host := Host.ascii false
  obtain ⟨plan, hplan, hiff⟩ := patch_extent_iff (r := Reader.ofListing roundtripListing)
    (l := roundtripListing) (Or.inr rfl) oneFunction_facts rfl
    (by simp [Contiguous, roundtripListing, SizedInsn.stop])
  exact ⟨plan, hplan, hiff.mpr (by decide)⟩

/-- The patch of the compare and the jump has sixteen bytes in place of four. -/
theorem patch_extent_not :
    letI : Host := Host.ascii false
    Contiguous opaqueListing ∧
    ∃ plan, proposeIn (Reader.ofListing opaqueListing) oneFunction 0x401000 .T1OpaqueBranch =
        .ok plan ∧
      (matchedPairs .T1OpaqueBranch opaqueListing).map (fun p => (p.1.insn.ea, p.2.stop)) =
        [(0x401000, 0x401004)] ∧
      (items plan "operations").map opLen = [16] := by
  refine ⟨by simp [Contiguous, opaqueListing, SizedInsn.stop], _, rfl, by decide, by decide⟩

end Transforms

end ReverseMcp
