import Mathlib.Data.List.Infix
import ReverseMcp.Worker.Extents

/-!
# The mark of a truncated plan

The proposal marks its plan as truncated when a finder has found more than `MAX_SITES` sites.  None
does: each stops at `MAX_SITES` of them, and it sees the first 2000 instructions only.  The mark is
right exactly for the functions of which nothing was left out (`truncated_mark_iff`).
-/

namespace ReverseMcp

open Rust

namespace Transforms

open Deep (items textOf)

/-! ## The front of a listing -/

lemma pairSites_prefix (found : InsnInfo → InsnInfo → Bool) (whole : Bool)
    (site : InsnInfo → InsnInfo → Site) (l back : List InsnInfo) :
    pairSites found whole site l <+: pairSites found whole site (l ++ back) := by
  fun_induction pairSites found whole site l with
  | case1 a b rest hfound hwhole hshare =>
    rw [List.cons_append, List.cons_append, pairSites, if_pos hfound, List.cons_prefix_cons]
    refine ⟨rfl, ?_⟩
    cases whole with
    | true =>
      rw [if_pos rfl, if_pos rfl]
      exact hwhole
    | false =>
      rw [if_neg (by decide), if_neg (by decide)]
      exact hshare
  | case2 a b rest hfound ih =>
    rw [List.cons_append, List.cons_append, pairSites, if_neg hfound]
    exact ih
  | case3 => exact List.nil_prefix

lemma indirectSites_prefix (l back : List InsnInfo) : ∀ prev : List InsnInfo,
    indirectSites prev l <+: indirectSites prev (l ++ back) := by
  induction l with
  | nil =>
    intro prev
    exact List.nil_prefix
  | cons insn rest ih =>
    intro prev
    rw [List.cons_append, indirectSites, indirectSites]
    cases indirectValue prev insn with
    | none => exact ih _
    | some v => exact List.cons_prefix_cons.mpr ⟨rfl, ih _⟩

/-- The sites of the front of a listing come first. -/
lemma allSites_prefix (kind : TransformKind) (l back : List InsnInfo) :
    allSites kind l <+: allSites kind (l ++ back) := by
  cases kind with
  | T1OpaqueBranch => exact pairSites_prefix _ _ _ l back
  | T2JunkRemoval => exact pairSites_prefix _ _ _ l back
  | T3IndirectMaterialize => exact indirectSites_prefix l back []
  | T4Unflatten => exact List.nil_prefix

/-- For a function with the instructions `l` the plan is marked as truncated exactly when it leaves
out sites of the function, if and only if there are at most `MAX_SITES` sites and all of them are
among the first 2000 instructions. -/
theorem truncated_mark_iff [Host] {r : Reader} {idx : AnalysisIndex} {target : U64}
    {kind : TransformKind}
    (hkind : kind ≠ .T4Unflatten) {f : FunctionFacts} (hf : idx.functions[target]? = some f)
    {l : List InsnInfo} (hlist : r.disassemble target (some f.ea_end) 2000 = .ok (l.take 2000)) :
    ∃ plan, proposeIn r idx target kind = .ok plan ∧
      ((plan.idx "truncated" = true ↔
          (items plan "operations").length < (allSites kind l).length) ↔
        (allSites kind l).length ≤ MAX_SITES ∧
          (allSites kind (l.take 2000)).length = (allSites kind l).length) := by
  refine ⟨_, proposeIn_eq hkind hf hlist, ?_⟩
  have hfound : (foundSites kind (l.take 2000)).length =
      min MAX_SITES (allSites kind (l.take 2000)).length := by
    rw [foundSites_eq, List.length_take]
  have hfront : (allSites kind (l.take 2000)).length ≤ (allSites kind l).length := by
    have hprefix := allSites_prefix kind (l.take 2000) (l.drop 2000)
    rw [List.take_append_drop] at hprefix
    exact hprefix.length_le
  -- the finder has stopped at `MAX_SITES`, so the mark is never set
  have hmark : (planJson target f.name kind (foundSites kind (l.take 2000))).idx "truncated" =
      Json.bool false := by
    have hnot : decide (MAX_SITES < (foundSites kind (l.take 2000)).length) = false := by
      rw [decide_eq_false_iff_not]
      omega
    rw [← hnot]
    rfl
  rw [hmark, planJson_operations _ _ _ (by omega), List.length_map, hfound]
  simp
  omega

/-- The first two instructions of `roundtripListing` and no more. -/
theorem truncated_mark_iff_roundtrip :
    letI : Host := Host.ascii false
    ∃ plan, proposeIn (Reader.ofListing roundtripListing) oneFunction 0x401000 .T2JunkRemoval =
        .ok plan ∧
      (plan.idx "truncated" = true ↔ (items plan "operations").length <
        (allSites .T2JunkRemoval (roundtripListing.map (·.insn))).length) := by
  let : Host := Host.ascii false
  have hkind : TransformKind.T2JunkRemoval ≠ .T4Unflatten := by decide
  obtain ⟨plan, hplan, hiff⟩ := truncated_mark_iff (r := Reader.ofListing roundtripListing)
    (l := roundtripListing.map (·.insn)) hkind oneFunction_facts rfl
  exact ⟨plan, hplan, hiff.mpr (by decide)⟩

/-- A function of one page. -/
def pageFunction : AnalysisIndex :=
  ⟨INDEX_SCHEMA_VERSION, "md5", 0, (∅ : AddrMap FunctionFacts).insert 0x401000
    { ea_start := 0x401000, ea_end := 0x402000, name := "f" }, []⟩

lemma pageFunction_facts : pageFunction.functions[(0x401000 : U64)]? =
    some { ea_start := 0x401000, ea_end := 0x402000, name := "f" } :=
  Std.ExtTreeMap.getElem?_insert_self

/-- Seventeen stores, each with a load of the same slot. -/
def crowdedListing : List SizedInsn :=
  (List.range 17).flatMap fun i =>
    [⟨⟨asU64 (0x401000 + 6 * i), "mov", "Displ, Reg", "mov [ebp-8], eax"⟩, 3, three_pos⟩,
      ⟨⟨asU64 (0x401003 + 6 * i), "mov", "Reg, Displ", "mov eax, [ebp-8]"⟩, 3, three_pos⟩]

/-- Of seventeen sites the plan lists sixteen, and it is not marked. -/
theorem truncated_mark_not :
    letI : Host := Host.ascii false
    ∃ plan, proposeIn (Reader.ofListing crowdedListing) pageFunction 0x401000 .T2JunkRemoval =
        .ok plan ∧
      (allSites .T2JunkRemoval (crowdedListing.map (·.insn))).length = 17 ∧
      (items plan "operations").length = 16 ∧ plan.idx "truncated" = Json.bool false := by
  let : Host := Host.ascii false
  have hkind : TransformKind.T2JunkRemoval ≠ .T4Unflatten := by decide
  have hplan := proposeIn_eq (r := Reader.ofListing crowdedListing) hkind pageFunction_facts rfl
  refine ⟨_, hplan, by decide, ?_, by decide⟩
  rw [planJson_operations _ _ _ (by decide)]
  decide

end Transforms

end ReverseMcp
