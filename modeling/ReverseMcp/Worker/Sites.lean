import ReverseMcp.Worker.Reader
import ReverseMcp.Worker.Transforms

/-!
# The sites of a proposal

`transforms::propose` over any backend.  Each of the three site finders goes through the listing
once and stops at `MAX_SITES` sites, so what it finds is the front of all the sites of the listing
(`foundSites_eq`).
-/

namespace ReverseMcp

open Rust

namespace Transforms

open Deep (items textOf)

/-! ## All sites of a listing -/

/-- A compare of an operand with itself, and a jump on the zero flag. -/
def isOpaquePair (a b : InsnInfo) : Bool := isSelfCompare a && isCondJump b

/-- The sites of all neighbours that match; where a pair is consumed whole, its second instruction
is in no other pair. -/
def pairSites (found : InsnInfo → InsnInfo → Bool) (whole : Bool)
    (site : InsnInfo → InsnInfo → Site) :
    List InsnInfo → List Site
  | a :: b :: rest =>
    if found a b then
      site a b :: if whole then pairSites found whole site rest
        else pairSites found whole site (b :: rest)
    else pairSites found whole site (b :: rest)
  | _ => []

/-- The sites of all jumps through a register; `prev` holds the instructions before, newest
first. -/
def indirectSites (prev : List InsnInfo) : List InsnInfo → List Site
  | [] => []
  | insn :: rest =>
    match indirectValue prev insn with
    | some v => indirectSite insn v :: indirectSites (insn :: prev) rest
    | none => indirectSites (insn :: prev) rest

/-- The sites of a transform in a listing. -/
def allSites (kind : TransformKind) (l : List InsnInfo) : List Site :=
  match kind with
  | .T1OpaqueBranch => pairSites isOpaquePair false opaqueSite l
  | .T2JunkRemoval => pairSites pair_is_roundtrip true junkSite l
  | .T3IndirectMaterialize => indirectSites [] l
  | .T4Unflatten => []

/-! ## What the finders find -/

/-- A loop over the neighbours of a listing that adds a site for each match stops at `MAX_SITES` of
them. -/
lemma loop_eq_take (loop : List InsnInfo → List Site → List Site)
    (found : InsnInfo → InsnInfo → Bool) (whole : Bool) (site : InsnInfo → InsnInfo → Site)
    (hstep : ∀ a b rest sites, loop (a :: b :: rest) sites =
      if found a b then
        if MAX_SITES ≤ (sites ++ [site a b]).length then sites ++ [site a b]
        else if whole then loop rest (sites ++ [site a b])
        else loop (b :: rest) (sites ++ [site a b])
      else loop (b :: rest) sites)
    (hnil : ∀ sites, loop [] sites = sites) (hone : ∀ a sites, loop [a] sites = sites)
    {l : List InsnInfo} {sites : List Site} (hroom : sites.length < MAX_SITES) :
    loop l sites =
      sites ++ (pairSites found whole site l).take (MAX_SITES - sites.length) := by
  fun_induction pairSites found whole site l generalizing sites with
  | case1 a b rest hfound hwhole hshare =>
    have hlength : (sites ++ [site a b]).length = sites.length + 1 := by simp
    obtain ⟨room, hroom'⟩ : ∃ room, MAX_SITES - sites.length = room + 1 :=
      ⟨MAX_SITES - sites.length - 1, by omega⟩
    rw [hstep, if_pos hfound, hroom', List.take_succ_cons, hlength]
    by_cases hfull : MAX_SITES ≤ sites.length + 1
    · -- this match is the last one that there is room for
      obtain rfl : room = 0 := by omega
      rw [if_pos hfull, List.take_zero]
    · have hrest : MAX_SITES - (sites ++ [site a b]).length = room := by omega
      rw [if_neg hfull]
      cases whole with
      | true =>
        rw [if_pos rfl, if_pos rfl, hwhole (by omega), hrest]
        simp
      | false =>
        rw [if_neg (by decide), if_neg (by decide), hshare (by omega), hrest]
        simp
  | case2 a b rest hfound ih =>
    rw [hstep, if_neg hfound]
    exact ih hroom
  | case3 l hl =>
    -- fewer than two instructions are left
    rw [List.take_nil, List.append_nil]
    cases l with
    | nil => exact hnil sites
    | cons a l =>
      cases l with
      | nil => exact hone a sites
      | cons b rest => exact absurd rfl fun h => hl a b rest h

lemma indirectFrom_eq_take (l : List InsnInfo) : ∀ (prev : List InsnInfo) (sites : List Site),
    sites.length < MAX_SITES → indirectFrom prev l sites =
      sites ++ (indirectSites prev l).take (MAX_SITES - sites.length) := by
  induction l with
  | nil =>
    intro prev sites _
    simp [indirectFrom, indirectSites]
  | cons insn rest ih =>
    intro prev sites hroom
    rw [indirectFrom, indirectSites]
    cases indirectValue prev insn with
    | none => exact ih _ _ hroom
    | some v =>
      have hlength : (sites ++ [indirectSite insn v]).length = sites.length + 1 := by simp
      obtain ⟨room, hroom'⟩ : ∃ room, MAX_SITES - sites.length = room + 1 :=
        ⟨MAX_SITES - sites.length - 1, by omega⟩
      dsimp only
      rw [hroom', List.take_succ_cons, hlength]
      split
      · obtain rfl : room = 0 := by omega
        rw [List.take_zero]
      · rw [ih _ _ (by omega), hlength, show MAX_SITES - (sites.length + 1) = room by omega]
        simp

/-- What the finder of a transform finds in a listing. -/
def foundSites (kind : TransformKind) (l : List InsnInfo) : List Site :=
  match kind with
  | .T1OpaqueBranch => opaqueFrom l []
  | .T2JunkRemoval => junkFrom l []
  | .T3IndirectMaterialize => indirectFrom [] l []
  | .T4Unflatten => []

lemma foundSites_eq (kind : TransformKind) (l : List InsnInfo) :
    foundSites kind l = (allSites kind l).take MAX_SITES := by
  cases kind with
  | T1OpaqueBranch =>
    exact loop_eq_take opaqueFrom isOpaquePair false opaqueSite (fun _ _ _ _ => rfl) (fun _ => rfl)
      (fun _ _ => rfl) (by decide)
  | T2JunkRemoval =>
    exact loop_eq_take junkFrom pair_is_roundtrip true junkSite (fun _ _ _ _ => rfl) (fun _ => rfl)
      (fun _ _ => rfl) (by decide)
  | T3IndirectMaterialize => exact indirectFrom_eq_take l [] [] (by decide)
  | T4Unflatten => rfl

/-! ## Proposals over a backend -/

variable [Host]

/-- `transforms::propose` over any backend. -/
def proposeIn (r : Reader) (idx : AnalysisIndex) (target : U64) (kind : TransformKind) :
    Result Json := do
  let f ← Outcome.ofOption (Error.worker s!"no function at {hex target}") idx.functions[target]?
  match kind with
  | .T4Unflatten =>
    return .object [("transform_id", s!"t4-unflatten-{hexText target.val}"), ("kind", kind.name),
      ("target", .ea target), ("proposable", false), ("reason", "requires_microcode"),
      ("note", "dispatcher elimination needs the microcode transform stack; no plan emitted")]
  | .T1OpaqueBranch =>
    let list ← r.disassemble target (some f.ea_end) 2000
    return planJson target f.name kind (opaqueFrom list [])
  | .T2JunkRemoval =>
    let list ← r.disassemble target (some f.ea_end) 2000
    return planJson target f.name kind (junkFrom list [])
  | .T3IndirectMaterialize =>
    let list ← r.disassemble target (some f.ea_end) 2000
    return planJson target f.name kind (indirectFrom [] list [])

/-- On the mock these are the proposals of its own. -/
theorem proposeIn_reader (b : MockBackend) (idx : AnalysisIndex) (target : U64)
    (kind : TransformKind) : proposeIn b.reader idx target kind = propose b idx target kind := by
  cases kind <;> simp only [proposeIn, propose, opaque_sites, junk_sites,
    indirect_sites, bind_assoc,
    Outcome.pure_eq, Outcome.ok_bind] <;> rfl

/-- The operations of a plan are the patches of its sites. -/
lemma planJson_operations (target : U64) (name : String) (kind : TransformKind) {sites : List Site}
    (h : sites.length ≤ MAX_SITES) :
    items (planJson target name kind sites) "operations" = sites.map patchOp := by
  have htake : sites.take MAX_SITES = sites := List.take_of_length_le h
  simp [planJson, items, Json.idx, Json.get, Json.asArray, htake]

/-- The plan of a transform that is proposed from the listing. -/
lemma proposeIn_eq {r : Reader} {idx : AnalysisIndex} {target : U64} {kind : TransformKind}
    (hkind : kind ≠ .T4Unflatten) {f : FunctionFacts} (hf : idx.functions[target]? = some f)
    {l : List InsnInfo} (hlist : r.disassemble target (some f.ea_end) 2000 = .ok l) :
    proposeIn r idx target kind = .ok (planJson target f.name kind (foundSites kind l)) := by
  rw [proposeIn, hf, Outcome.ofOption, Outcome.ok_bind]
  cases kind with
  | T4Unflatten => exact absurd rfl hkind
  | T1OpaqueBranch =>
    dsimp only
    rw [hlist]
    rfl
  | T2JunkRemoval =>
    dsimp only
    rw [hlist]
    rfl
  | T3IndirectMaterialize =>
    dsimp only
    rw [hlist]
    rfl

end Transforms

end ReverseMcp
