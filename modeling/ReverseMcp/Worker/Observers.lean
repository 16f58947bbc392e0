import ReverseMcp.Rust.Collections
import ReverseMcp.Rust.Reading
import ReverseMcp.Ida.Totality
import ReverseMcp.Worker.Types

/-!
# The functions that a structure is recovered from

`recover_structure` takes a list of functions and folds what each of them observes into one table
of fields.  The table does not depend on the order of the list (`proposalsOf_congr`): every number in
it is a sum over the list, the width is the most frequent one, and a pointer is a field that was
once accessed with eight bytes.

It does depend on repetitions.  A function that is listed twice is read twice, and its fields count
it as two functions.  `recover_structure_iff` says that nothing else matters: two lists of the same
functions give the same proposals when those functions that observe something occur equally often in
both, and only then.
-/

namespace ReverseMcp

open Rust

namespace Types

open Deep (items textOf)

/-! ## Backends as the recovery reads them -/

/-- What `recover_structure` asks of a backend. -/
structure TypeReader where
  type_member_evidence : U64 → ℕ → Result Json
  type_udt_match : List (U64 × U64) → Result Json
  evidence_returns : ∀ ea limit, (type_member_evidence ea limit).Returns
  match_returns : ∀ shape, (type_udt_match shape).Returns

/-- The mock as the recovery reads it. -/
def mockReader (b : MockBackend) : TypeReader where
  type_member_evidence := b.type_member_evidence
  type_udt_match := b.type_udt_match
  evidence_returns ea limit := by
    rw [MockBackend.type_member_evidence]
    exact b.require_open_bind_returns fun _ => (failIf_returns _ _).bind fun _ _ => trivial
  match_returns shape := by
    rw [MockBackend.type_udt_match]
    exact b.require_open_bind_returns fun _ => trivial

/-- `proposalRow` on any backend. -/
def proposalRowIn (r : TypeReader) (key : String) (fields : List (U64 × FieldProposal)) :
    Result Json := do
  let fields := sortByKey Prod.fst fields
  let shape := shapeOf fields
  let shape_match ← (r.type_udt_match shape).ok?
  return .object [("base", .object [("kind", (baseOf key).1), ("ea", (baseOf key).2)]),
    ("fields", .array (fields.map fieldRow)),
    ("proposed_shape", .array (shape.map fun p =>
      .object [("offset", .ea p.1), ("size", .u64 p.2)])),
    ("existing_type_match", .opt ((shape_match.bind fun m => (m.idx "match").asStr).map
      Json.string))]

/-- `recoverFunction` on any backend. -/
def recoverFunctionIn (b : TypeReader) (idx : AnalysisIndex) (max_members : ℕ) (r : Recovered)
    (ea : U64) : Result Recovered := do
  match ← (b.type_member_evidence ea max_members).ok? with
  | none => return r
  | some info =>
    let members := items info "members"
    return {
      fields := observeFunction r.fields members
      per_function := r.per_function ++ [.object [
        ("function", .object [("ea", .ea ea), ("name", idx.function_name ea)]),
        ("observations", .nat members.length)]]
      truncated_any := r.truncated_any || ((info.idx "truncated").asBool).getD false }

/-- `types::recover_structure` on any backend. -/
def recover_structureIn (b : TypeReader) (idx : AnalysisIndex) (function_eas : List U64)
    (max_members : ℕ) : Result Json := do
  failIf (function_eas = []) "recover_structure requires functions"
  let r ← Outcome.foldList (recoverFunctionIn b idx max_members) ⟨∅, [], false⟩ function_eas
  let proposals ← Outcome.mapList (fun g => proposalRowIn b g.1 g.2) (grouped r.fields).toList
  return .object [("functions", .array r.per_function), ("proposals", .array proposals),
    ("truncated", r.truncated_any),
    ("note", "preview only; apply via ida_types task=create_struct (explicit mutation)")]

lemma recover_structure_mock (b : MockBackend) (idx : AnalysisIndex) (function_eas : List U64)
    (max_members : ℕ) : recover_structure b idx function_eas max_members =
      recover_structureIn (mockReader b) idx function_eas max_members := rfl

/-! ## One field -/

/-- The access size of an observation. -/
def widthOf (m : Json) : ℕ := (((m.idx "access_size").asU64).getD 0).val % 2 ^ 32

/-- The observation is a write. -/
def isWrite (m : Json) : Bool := ((m.idx "is_write").asBool).getD false

/-- The proposal made of the observations `ms` of a field by `n` functions. -/
def seen (ms : List Json) (n : ℕ) : Option FieldProposal :=
  if ms = [] then none
  else some ⟨ms.countP fun m => !isWrite m, ms.countP isWrite, ms.map widthOf, n,
    ms.any fun m => widthOf m = 8⟩

lemma seen_of_ne_nil {ms : List Json} {n : ℕ} (h : ms ≠ []) :
    seen ms n = some ⟨ms.countP fun m => !isWrite m, ms.countP isWrite, ms.map widthOf, n,
      ms.any fun m => widthOf m = 8⟩ := if_neg h

/-- The observations of a field. -/
def about (k : String × U64) (ms : List Json) : List Json := ms.filter fun m => fieldKey m = k

lemma getElem?_observe (F : Fields) (m : Json) (k : String × U64) :
    (observe F m)[k]? =
      if k = fieldKey m then
        let p := F[k]?.getD ⟨0, 0, [], 0, widthOf m = 8 && !isWrite m⟩
        some { p with
          reads := if isWrite m then p.reads else p.reads + 1
          writes := if isWrite m then p.writes + 1 else p.writes
          widths := p.widths ++ [widthOf m]
          pointer_candidate := p.pointer_candidate || widthOf m = 8 }
      else F[k]? := by
  rw [observe, getElem?_insert_eq_ite]
  split
  · rename_i hk
    rw [hk]
    rfl
  · rfl

/-- The observations of one function added to those of a field. -/
lemma getElem?_foldl_observe {k : String × U64} (members : List Json) {F : Fields} {ms : List Json}
    {n : ℕ} (hF : F[k]? = seen ms n) (hn : ms = [] → n = 0) :
    (members.foldl observe F)[k]? = seen (ms ++ about k members) n := by
  induction members generalizing F ms with
  | nil => simpa [about] using hF
  | cons m members ih =>
    by_cases hk : k = fieldKey m
    · have hobs : (observe F m)[k]? = seen (ms ++ [m]) n := by
        rw [getElem?_observe, if_pos hk, hF]
        by_cases hms : ms = []
        · cases hw : isWrite m
          all_goals simp [seen, hms, hn hms, hw]
        · rw [seen_of_ne_nil hms, seen_of_ne_nil (by simp)]
          cases hw : isWrite m
          all_goals simp [List.countP_append, hw]
      have habout : about k (m :: members) = m :: about k members :=
        List.filter_cons_of_pos (by simp [hk])
      rw [List.foldl_cons, ih hobs (by simp), habout, List.append_assoc, List.singleton_append]
    · have hobs : (observe F m)[k]? = seen ms n := by rw [getElem?_observe, if_neg hk, hF]
      have habout : about k (m :: members) = about k members :=
        List.filter_cons_of_neg (by simpa using fun h => hk h.symm)
      rw [List.foldl_cons, ih hobs hn, habout]

lemma getElem?_foldl_modify (ks : List (String × U64)) (hnodup : ks.Nodup) (F : Fields)
    (f : FieldProposal → FieldProposal) (k : String × U64) :
    (ks.foldl (fun F k => F.modify k f) F)[k]? = if k ∈ ks then F[k]?.map f else F[k]? := by
  induction ks generalizing F with
  | nil => simp
  | cons x ks ih =>
    rw [List.nodup_cons] at hnodup
    rw [List.foldl_cons, ih hnodup.2, Std.ExtTreeMap.getElem?_modify]
    by_cases hx : k = x
    · subst hx
      simp [hnodup.1]
    · have hcmp : compare x k ≠ .eq := fun h => hx (Std.LawfulEqCmp.eq_of_compare h).symm
      simp [hx, hcmp]

/-- One function counted once for each field that it observes. -/
lemma getElem?_observeFunction {k : String × U64} (members : List Json) {F : Fields}
    {ms : List Json} {n : ℕ} (hF : F[k]? = seen ms n) (hn : ms = [] → n = 0) :
    (observeFunction F members)[k]? =
      seen (ms ++ about k members) (if about k members = [] then n else n + 1) := by
  have hmem : k ∈ (members.foldl (fun s m => s.insert (fieldKey m))
      (∅ : Std.ExtTreeSet (String × U64))).toList ↔ about k members ≠ [] := by
    rw [Std.ExtTreeSet.mem_toList, ← List.foldl_map (f := fieldKey), mem_treeSet_foldl_insert]
    simp [about, List.filter_eq_nil_iff]
  rw [observeFunction, getElem?_foldl_modify _ (treeSet_toList_nodup _),
    getElem?_foldl_observe members hF hn]
  by_cases habout : about k members = []
  · rw [if_neg (mt hmem.mp (not_not.mpr habout)), if_pos habout]
  · rw [if_pos (hmem.mpr habout), if_neg habout, seen_of_ne_nil (by simp [habout]),
      seen_of_ne_nil (by simp [habout])]
    rfl

/-- The fields after all functions of a list, given what each observes. -/
def fieldsOf (members : U64 → List Json) (eas : List U64) : Fields :=
  eas.foldl (fun F ea => observeFunction F (members ea)) ∅

/-- Each field sums up its observations over the list. -/
lemma getElem?_fieldsOf (members : U64 → List Json) (eas : List U64) (k : String × U64) :
    (fieldsOf members eas)[k]? =
      seen (eas.flatMap fun ea => about k (members ea))
        (eas.countP fun ea => about k (members ea) ≠ []) := by
  induction eas using List.reverseRecOn with
  | nil => simp [fieldsOf, seen]
  | append_singleton eas ea ih =>
    have hn : (eas.flatMap fun ea => about k (members ea)) = [] →
        (eas.countP fun ea => about k (members ea) ≠ []) = 0 := by
      simp [List.flatMap_eq_nil_iff, List.countP_eq_zero]
    rw [fieldsOf, List.foldl_concat, ← fieldsOf, getElem?_observeFunction _ ih hn,
      List.flatMap_append, List.countP_append]
    by_cases habout : about k (members ea) = []
    · simp [habout]
    · simp [habout]

/-! ## What the rows show of a field -/

/-- A field with its access sizes in ascending order. -/
def FieldProposal.canon (p : FieldProposal) : FieldProposal :=
  { p with widths := p.widths.insertionSort (· ≤ ·) }

/-- The most frequent size does not depend on the order of the sizes. -/
lemma width_congr {p q : FieldProposal} (h : p.widths.Perm q.widths) : p.width = q.width := by
  have hpos := h.filter (0 < ·)
  have hcount : ∀ w, (p.widths.filter (0 < ·)).count w = (q.widths.filter (0 < ·)).count w :=
    fun w => hpos.count_eq w
  simp only [FieldProposal.width, hcount]
  refine hpos.foldl_eq' (fun x _ y _ z => ?_) 0
  split_ifs <;> omega

@[simp] lemma width_canon (p : FieldProposal) : p.canon.width = p.width :=
  width_congr (List.perm_insertionSort _ _)

lemma fieldRow_canon (f : U64 × FieldProposal) : fieldRow (f.1, f.2.canon) = fieldRow f := by
  have hconfidence : f.2.canon.confidence = f.2.confidence := by
    simp only [FieldProposal.confidence, width_canon]
    rfl
  have htype : ∀ w, f.2.canon.candidate_type w = f.2.candidate_type w := fun _ => rfl
  simp only [fieldRow, width_canon, hconfidence, htype]
  rfl

lemma seen_canon_congr {ms ms' : List Json} (h : ms.Perm ms') (n : ℕ) :
    (seen ms n).map FieldProposal.canon = (seen ms' n).map FieldProposal.canon := by
  by_cases hnil : ms = []
  · subst hnil
    rw [List.nil_perm.mp h]
  · have hnil' : ms' ≠ [] := fun h' => hnil (List.perm_nil.mp (h' ▸ h))
    have hwidths : (ms.map widthOf).insertionSort (· ≤ ·) =
        (ms'.map widthOf).insertionSort (· ≤ ·) := by
      refine List.Perm.eq_of_pairwise (fun _ _ _ _ => le_antisymm) ?_ ?_ ?_
      · exact List.pairwise_insertionSort _ _
      · exact List.pairwise_insertionSort _ _
      · exact ((List.perm_insertionSort _ _).trans (h.map _)).trans
          (List.perm_insertionSort _ _).symm
    rw [seen_of_ne_nil hnil, seen_of_ne_nil hnil', Option.map_some, Option.map_some]
    simp only [FieldProposal.canon, hwidths, h.countP_eq, h.any_eq]

/-! ## The fields by object -/

/-- The proposals of an object changed one by one. -/
def mapFields (c : FieldProposal → FieldProposal) (fields : List (U64 × FieldProposal)) :
    List (U64 × FieldProposal) :=
  fields.map fun f => (f.1, c f.2)

lemma map_insert_treeMap {κ α β : Type} [Ord κ] [Std.TransOrd κ] [Std.LawfulEqOrd κ]
    [DecidableEq κ] (m : Std.ExtTreeMap κ α) (k : κ) (a : α) (f : α → β) :
    (m.insert k a).map (fun _ => f) = (m.map fun _ => f).insert k (f a) := by
  refine Std.ExtTreeMap.ext_getElem? fun x => ?_
  rw [Std.ExtTreeMap.getElem?_map, getElem?_insert_eq_ite, getElem?_insert_eq_ite,
    Std.ExtTreeMap.getElem?_map]
  split <;> rfl

lemma grouped_map (c : FieldProposal → FieldProposal) (F : Fields) :
    grouped (F.map fun _ => c) = (grouped F).map fun _ => mapFields c := by
  have hloop : ∀ (l : List ((String × U64) × FieldProposal))
      (m : Std.ExtTreeMap String (List (U64 × FieldProposal))),
      (l.map fun f => (f.1, c f.2)).foldl
        (fun m f => m.insert f.1.1 (m[f.1.1]?.getD [] ++ [(f.1.2, f.2)]))
        (m.map fun _ => mapFields c) =
      (l.foldl (fun m f => m.insert f.1.1 (m[f.1.1]?.getD [] ++ [(f.1.2, f.2)])) m).map
        fun _ => mapFields c := by
    intro l
    induction l with
    | nil => exact fun _ => rfl
    | cons f l ih =>
      intro m
      rw [List.map_cons, List.foldl_cons, List.foldl_cons, ← ih, map_insert_treeMap]
      congr 2
      rw [Std.ExtTreeMap.getElem?_map]
      cases m[f.1.1]? <;> simp [mapFields]
  rw [grouped, grouped, Std.ExtTreeMap.toList_map, ← hloop]
  rfl

variable (r : TypeReader)

lemma proposalRow_canon (key : String) (fields : List (U64 × FieldProposal)) :
    proposalRowIn r key (mapFields .canon fields) = proposalRowIn r key fields := by
  have hsort : sortByKey Prod.fst (mapFields .canon fields) =
      mapFields .canon (sortByKey Prod.fst fields) :=
    (List.map_insertionSort _ _ (fun f : U64 × FieldProposal => (f.1, f.2.canon)) fields
      fun _ _ _ _ => Iff.rfl).symm
  have hshape : ∀ l, shapeOf (mapFields .canon l) = shapeOf l := by
    intro l
    simp [shapeOf, mapFields, Function.comp_def]
  have hrows : ∀ l, (mapFields .canon l).map fieldRow = l.map fieldRow := by
    intro l
    simp [mapFields, Function.comp_def, fieldRow_canon]
  simp only [proposalRowIn, hsort, hshape, hrows]

/-- The proposals made of a table of fields. -/
def proposalsOf (F : Fields) : Result (List Json) :=
  Outcome.mapList (fun g => proposalRowIn r g.1 g.2) (grouped F).toList

lemma proposalsOf_canon (F : Fields) :
    proposalsOf r (F.map fun _ => FieldProposal.canon) = proposalsOf r F := by
  rw [proposalsOf, grouped_map, Std.ExtTreeMap.toList_map, Outcome.mapList_map]
  exact Outcome.mapList_congr fun g _ => proposalRow_canon r g.1 g.2

/-! ## What the answer shows -/

/-- The observations that a function reports. -/
def membersOf (max_members : ℕ) (ea : U64) : List Json :=
  match r.type_member_evidence ea max_members with
  | .ok info => items info "members"
  | _ => []

/-- The function reports an observation. -/
def observes (max_members : ℕ) (ea : U64) : Bool := !(membersOf r max_members ea).isEmpty

/-- The proposals of an answer. -/
def shownProposals (x : Result Json) : Result Json := do
  return (← x).idx "proposals"

variable {r} {idx : AnalysisIndex} {max_members : ℕ}

lemma recover_fields (idx : AnalysisIndex) (max_members : ℕ) (eas : List U64) :
    ∃ s, Outcome.foldList (recoverFunctionIn r idx max_members) ⟨∅, [], false⟩ eas = .ok s ∧
      s.fields = fieldsOf (membersOf r max_members) eas := by
  refine Outcome.foldList_ok (I := fun front (s : Recovered) =>
    s.fields = fieldsOf (membersOf r max_members) front) rfl fun front ea back s hsplit hs => ?_
  have hreturns := r.evidence_returns ea max_members
  have hstep : fieldsOf (membersOf r max_members) (front ++ [ea]) =
      observeFunction s.fields (membersOf r max_members ea) := by
    rw [fieldsOf, List.foldl_concat, ← fieldsOf, hs]
  rw [recoverFunctionIn, hstep, membersOf]
  cases hinfo : r.type_member_evidence ea max_members with
  | ok info => exact ⟨_, rfl, rfl⟩
  | err e => exact ⟨s, rfl, rfl⟩
  | panic p =>
    rw [hinfo] at hreturns
    exact hreturns.elim

/-- The proposals come from the summed fields alone. -/
lemma shownProposals_eq {eas : List U64} (hne : eas ≠ []) :
    shownProposals (recover_structureIn r idx eas max_members) = do
      return .array (← proposalsOf r (fieldsOf (membersOf r max_members) eas)) := by
  obtain ⟨s, hs, hfields⟩ := recover_fields (r := r) idx max_members eas
  rw [shownProposals, recover_structureIn, failIf, Outcome.errIf, if_neg hne]
  simp only [Outcome.ok_bind, hs, hfields, bind_assoc, proposalsOf]
  rfl

section
variable {l₁ l₂ : List U64}

/-- Only the functions that observe something leave a trace. -/
lemma flatMap_observes (k : String × U64) (eas : List U64) :
    (eas.flatMap fun ea => about k (membersOf r max_members ea)) =
      (eas.filter (observes r max_members)).flatMap
        fun ea => about k (membersOf r max_members ea) := by
  induction eas with
  | nil => rfl
  | cons ea eas ih =>
    rw [List.flatMap_cons, ih, List.filter_cons]
    split
    · rw [List.flatMap_cons]
    · rename_i hno
      have hnil : membersOf r max_members ea = [] := by simpa [observes] using hno
      rw [hnil]
      rfl

lemma countP_observes (k : String × U64) (eas : List U64) :
    (eas.countP fun ea => about k (membersOf r max_members ea) ≠ []) =
      (eas.filter (observes r max_members)).countP
        fun ea => about k (membersOf r max_members ea) ≠ [] := by
  rw [List.countP_filter]
  refine List.countP_congr fun ea _ => ?_
  cases hmembers : membersOf r max_members ea with
  | nil => simp [observes, hmembers, about]
  | cons m ms => simp [observes, hmembers]

/-- Lists in which the same functions observe something equally often lead to the same
proposals. -/
lemma proposalsOf_congr
    (h : (l₁.filter (observes r max_members)).Perm (l₂.filter (observes r max_members))) :
    proposalsOf r (fieldsOf (membersOf r max_members) l₁) =
      proposalsOf r (fieldsOf (membersOf r max_members) l₂) := by
  rw [← proposalsOf_canon, ← proposalsOf_canon r (fieldsOf _ l₂)]
  congr 1
  refine Std.ExtTreeMap.ext_getElem? fun k => ?_
  rw [Std.ExtTreeMap.getElem?_map, Std.ExtTreeMap.getElem?_map, getElem?_fieldsOf,
    getElem?_fieldsOf, flatMap_observes, flatMap_observes k l₂, countP_observes,
    countP_observes k l₂, h.countP_eq]
  exact seen_canon_congr (h.flatMap_right _) _

end

/-! ## Reading the proposals back -/

lemma mem_grouped (F : Fields) (base : String) (f : U64 × FieldProposal) :
    (∃ fields, (grouped F)[base]? = some fields ∧ f ∈ fields) ↔ F[(base, f.1)]? = some f.2 := by
  have hloop : ∀ l : List ((String × U64) × FieldProposal),
      (∃ fields, (l.foldl (fun m f => m.insert f.1.1 (m[f.1.1]?.getD [] ++ [(f.1.2, f.2)]))
        (∅ : Std.ExtTreeMap String (List (U64 × FieldProposal))))[base]? = some fields ∧
          f ∈ fields) ↔ ((base, f.1), f.2) ∈ l := by
    intro l
    induction l using List.reverseRecOn with
    | nil => simp
    | append_singleton l g ih =>
      rw [List.foldl_concat, getElem?_insert_eq_ite, List.mem_append, ← ih]
      obtain ⟨⟨base', offset⟩, p⟩ := g
      obtain ⟨offset', p'⟩ := f
      by_cases hbase : base = base'
      · subst hbase
        cases hget : (l.foldl (fun m f => m.insert f.1.1 (m[f.1.1]?.getD [] ++ [(f.1.2, f.2)]))
          (∅ : Std.ExtTreeMap String (List (U64 × FieldProposal))))[base]? with
        | none => simp
        | some fields => simp
      · simp [hbase]
  rw [grouped, hloop, Std.ExtTreeMap.mem_toList_iff_getElem?_eq_some]

/-- Tables with the same fields have the same objects in the same order. -/
lemma objects_eq {F₁ F₂ : Fields}
    (hkeys : ∀ k : String × U64, F₁[k]?.isSome = F₂[k]?.isSome) :
    (grouped F₁).toList.map Prod.fst = (grouped F₂).toList.map Prod.fst := by
  -- the tables are equal once their proposals are forgotten
  let blank : FieldProposal → FieldProposal := fun _ => ⟨0, 0, [], 0, false⟩
  have hblank : F₁.map (fun _ => blank) = F₂.map fun _ => blank := by
    refine Std.ExtTreeMap.ext_getElem? fun k => ?_
    have hk := hkeys k
    rw [Std.ExtTreeMap.getElem?_map, Std.ExtTreeMap.getElem?_map]
    cases h₁ : F₁[k]? <;> cases h₂ : F₂[k]? <;> simp [h₁, h₂, blank] at hk ⊢
  have hgrouped : (grouped F₁).map (fun _ => mapFields blank) =
      (grouped F₂).map fun _ => mapFields blank := by
    rw [← grouped_map, ← grouped_map, hblank]
  have hlists := congrArg (fun m => m.toList.map Prod.fst) hgrouped
  simpa [Std.ExtTreeMap.toList_map, Function.comp_def] using hlists

lemma proposalRow_fields (key : String) (fields : List (U64 × FieldProposal)) :
    ∃ v, proposalRowIn r key fields = .ok v ∧
      v.idx "fields" = .array ((sortByKey Prod.fst fields).map fieldRow) := by
  have hreturns := r.match_returns (shapeOf (sortByKey Prod.fst fields))
  rw [proposalRowIn]
  cases hmatch : r.type_udt_match (shapeOf (sortByKey Prod.fst fields)) with
  | ok m => exact ⟨_, rfl, rfl⟩
  | err e => exact ⟨_, rfl, rfl⟩
  | panic p =>
    rw [hmatch] at hreturns
    exact hreturns.elim

lemma proposalsOf_ok (F : Fields) : ∃ rows, proposalsOf r F = .ok rows :=
  Outcome.mapList_ok_iff.mpr fun g _ => (proposalRow_fields g.1 g.2).imp fun _ hv => hv.1

/-- Equal proposals have equal rows for each field. -/
lemma fieldRow_eq_of_proposals {F₁ F₂ : Fields}
    (hkeys : ∀ k : String × U64, F₁[k]?.isSome = F₂[k]?.isSome)
    (h : proposalsOf r F₁ = proposalsOf r F₂) {k : String × U64} {p₁ p₂ : FieldProposal}
    (hp₁ : F₁[k]? = some p₁) (hp₂ : F₂[k]? = some p₂) :
    fieldRow (k.2, p₁) = fieldRow (k.2, p₂) := by
  obtain ⟨rows, hrows⟩ := proposalsOf_ok (r := r) F₁
  have hlists := congrArg₂ List.zip (objects_eq hkeys)
    ((Outcome.map_of_mapList hrows).trans (Outcome.map_of_mapList (h ▸ hrows)).symm)
  rw [List.zip_map', List.zip_map'] at hlists
  obtain ⟨fields₁, hfields₁, hmem₁⟩ := (mem_grouped F₁ k.1 (k.2, p₁)).mpr hp₁
  have hmem : (k.1, proposalRowIn r k.1 fields₁) ∈
      (grouped F₂).toList.map fun g => (g.1, proposalRowIn r g.1 g.2) := by
    rw [← hlists]
    exact List.mem_map.mpr ⟨(k.1, fields₁),
      Std.ExtTreeMap.mem_toList_iff_getElem?_eq_some.mpr hfields₁, rfl⟩
  obtain ⟨g, hg, hrow⟩ := List.mem_map.mp hmem
  obtain ⟨hbase, hrow⟩ := Prod.mk.inj hrow
  have hfields₂ := Std.ExtTreeMap.mem_toList_iff_getElem?_eq_some.mp hg
  rw [hbase] at hfields₂ hrow
  -- the same rows in both answers, so that of `p₁` is the row of a field of the second
  obtain ⟨v₁, hv₁, hrows₁⟩ := proposalRow_fields (r := r) k.1 fields₁
  obtain ⟨v₂, hv₂, hrows₂⟩ := proposalRow_fields (r := r) k.1 g.2
  obtain rfl : v₂ = v₁ := by
    rw [hv₁, hv₂] at hrow
    exact Outcome.ok.inj hrow
  rw [hrows₁, Json.array.injEq] at hrows₂
  have hrow₁ : fieldRow (k.2, p₁) ∈ (sortByKey Prod.fst g.2).map fieldRow :=
    hrows₂ ▸ List.mem_map_of_mem ((sortByKey_perm _ _).mem_iff.mpr hmem₁)
  obtain ⟨f, hf, hfrow⟩ := List.mem_map.mp hrow₁
  have hoffset : f.1 = k.2 := by
    have hea := congrArg (fun v : Json => v.idx "offset") hfrow
    exact hex_inj (Json.string.inj hea)
  have hget := (mem_grouped F₂ k.1 f).mp ⟨g.2, hfields₂, (sortByKey_perm _ _).mem_iff.mp hf⟩
  rw [hoffset] at hget
  have hp : p₂ = f.2 := Option.some.inj (hp₂.symm.trans hget)
  rw [← hfrow, ← hoffset, hp]

lemma nat_inj {m n : ℕ} (hm : m < 2 ^ 64) (hn : n < 2 ^ 64) (h : Json.nat m = Json.nat n) :
    m = n := by
  have hval := congrArg Fin.val (Number.posInt.inj (Json.number.inj h))
  rwa [asU64_val hm, asU64_val hn] at hval

/-! ## Lists of the same functions -/

section
variable {l₁ l₂ : List U64}

lemma isSome_fieldsOf (members : U64 → List Json) (eas : List U64) (k : String × U64) :
    (fieldsOf members eas)[k]?.isSome = true ↔ ∃ ea ∈ eas, about k (members ea) ≠ [] := by
  have hnil : (eas.flatMap fun ea => about k (members ea)) = [] ↔
      ¬∃ ea ∈ eas, about k (members ea) ≠ [] := by
    rw [List.flatMap_eq_nil_iff]
    push Not
    rfl
  rw [getElem?_fieldsOf, seen]
  split
  · rename_i h
    exact iff_of_false Bool.false_ne_true (hnil.mp h)
  · rename_i h
    exact iff_of_true rfl (not_not.mp (mt hnil.mpr h))

/-- A field that a function of both lists observes shows equal counts when the proposals are
equal. -/
lemma counts_eq_of_shown (hsame : ∀ ea, ea ∈ l₁ ↔ ea ∈ l₂)
    (h : shownProposals (recover_structureIn r idx l₁ max_members) =
      shownProposals (recover_structureIn r idx l₂ max_members))
    {k : String × U64} {ea : U64} (hea : ea ∈ l₁)
    (habout : about k (membersOf r max_members ea) ≠ []) :
    Json.nat (l₁.countP fun ea => about k (membersOf r max_members ea) ≠ []) =
        .nat (l₂.countP fun ea => about k (membersOf r max_members ea) ≠ []) ∧
      Json.nat ((l₁.flatMap fun ea => about k (membersOf r max_members ea)).countP isWrite) =
        .nat ((l₂.flatMap fun ea => about k (membersOf r max_members ea)).countP isWrite) := by
  have hea₂ := (hsame ea).mp hea
  rw [shownProposals_eq (List.ne_nil_of_mem hea), shownProposals_eq (List.ne_nil_of_mem hea₂)] at h
  have hkeys : ∀ k : String × U64, (fieldsOf (membersOf r max_members) l₁)[k]?.isSome =
      (fieldsOf (membersOf r max_members) l₂)[k]?.isSome := by
    intro k
    rw [Bool.eq_iff_iff, isSome_fieldsOf, isSome_fieldsOf]
    simp only [hsame]
  have hproposals : proposalsOf r (fieldsOf (membersOf r max_members) l₁) =
      proposalsOf r (fieldsOf (membersOf r max_members) l₂) := by
    obtain ⟨rows₁, hrows₁⟩ := proposalsOf_ok (r := r) (fieldsOf (membersOf r max_members) l₁)
    obtain ⟨rows₂, hrows₂⟩ := proposalsOf_ok (r := r) (fieldsOf (membersOf r max_members) l₂)
    rw [hrows₁, hrows₂] at h ⊢
    exact congrArg _ (Json.array.inj (Outcome.ok.inj h))
  have hne : ∀ l : List U64, ea ∈ l →
      (l.flatMap fun ea => about k (membersOf r max_members ea)) ≠ [] := fun l hl hnil =>
    habout (List.flatMap_eq_nil_iff.mp hnil ea hl)
  have hget : ∀ l : List U64, ea ∈ l → (fieldsOf (membersOf r max_members) l)[k]? = _ :=
    fun l hl => (getElem?_fieldsOf _ l k).trans (seen_of_ne_nil (hne l hl))
  have hrow := fieldRow_eq_of_proposals hkeys hproposals (hget l₁ hea) (hget l₂ hea₂)
  have hfunctions := congrArg (fun v : Json => v.idx "functions_observing") hrow
  have hwrites := congrArg (fun v : Json => v.idx "write") hrow
  exact ⟨hfunctions, hwrites⟩

/-- Lists that the fields cannot tell apart give the same proposals. -/
lemma shownProposals_congr (hsame : ∀ ea, ea ∈ l₁ ↔ ea ∈ l₂)
    (h : (l₁.filter (observes r max_members)).Perm (l₂.filter (observes r max_members))) :
    shownProposals (recover_structureIn r idx l₁ max_members) =
      shownProposals (recover_structureIn r idx l₂ max_members) := by
  rcases l₁ with - | ⟨ea, l₁⟩
  · obtain rfl : l₂ = [] := List.eq_nil_iff_forall_not_mem.mpr fun ea hea => by
      simpa using (hsame ea).mpr hea
    rfl
  · have hne : l₂ ≠ [] := List.ne_nil_of_mem ((hsame ea).mp List.mem_cons_self)
    rw [shownProposals_eq (List.cons_ne_nil ea l₁), shownProposals_eq hne, proposalsOf_congr h]

/-- A list that repeats an observing function more often counts one of its fields for more
functions. -/
lemma perm_of_shownProposals (hsame : ∀ ea, ea ∈ l₁ ↔ ea ∈ l₂) (hlength₁ : l₁.length < 2 ^ 64)
    (hlength₂ : l₂.length < 2 ^ 64)
    (hsub : (l₁.filter (observes r max_members)).Subperm (l₂.filter (observes r max_members)))
    (h : shownProposals (recover_structureIn r idx l₁ max_members) =
      shownProposals (recover_structureIn r idx l₂ max_members)) :
    (l₁.filter (observes r max_members)).Perm (l₂.filter (observes r max_members)) := by
  by_contra hperm
  obtain ⟨ea, hea⟩ := hsub.exists_of_length_lt
    (lt_of_not_ge fun hle => hperm (hsub.perm_of_length_le hle))
  obtain ⟨hea₂, hobserves⟩ := List.mem_filter.mp (hea.subset List.mem_cons_self)
  -- a field that the function in excess observes
  obtain ⟨m, ms, hmembers⟩ : ∃ m ms, membersOf r max_members ea = m :: ms :=
    List.exists_cons_of_ne_nil (by simpa [observes] using hobserves)
  have habout : about (fieldKey m) (membersOf r max_members ea) ≠ [] :=
    List.ne_nil_of_mem (a := m) (List.mem_filter.mpr ⟨by simp [hmembers], by simp⟩)
  obtain ⟨hcounts, -⟩ := counts_eq_of_shown hsame h ((hsame ea).mpr hea₂) habout
  have hcounts := nat_inj (List.countP_le_length.trans_lt hlength₁)
    (List.countP_le_length.trans_lt hlength₂) hcounts
  rw [countP_observes, countP_observes _ l₂] at hcounts
  have hle := hea.countP_le fun ea => decide (about (fieldKey m) (membersOf r max_members ea) ≠ [])
  rw [List.countP_cons_of_pos (by simpa using habout), ← hcounts] at hle
  exact absurd hle (Nat.not_succ_le_self _)

end

/-! ## A backend that tells a function apart -/

/-- The one observation of a function: a write if it is the function `ea₀`, else a read. -/
def watched (ea₀ ea : U64) : Json :=
  .object [("base_text", "p"), ("is_global", false), ("offset", "0x0"),
    ("access_size", .nat 4), ("is_write", decide (ea = ea₀))]

/-- A backend on which the functions in `observing` observe one field. -/
def watcher (observing : U64 → Bool) (ea₀ : U64) : TypeReader where
  type_member_evidence ea _ :=
    .ok (.object [("members", .array (if observing ea then [watched ea₀ ea] else []))])
  type_udt_match _ := .err (.worker "no type library")
  evidence_returns _ _ := trivial
  match_returns _ := trivial

lemma membersOf_watcher (observing : U64 → Bool) (ea₀ : U64) (n : ℕ) (ea : U64) :
    membersOf (watcher observing ea₀) n ea = if observing ea then [watched ea₀ ea] else [] := rfl

lemma observes_watcher (observing : U64 → Bool) (ea₀ : U64) (n : ℕ) :
    observes (watcher observing ea₀) n = observing := by
  funext ea
  rw [observes, membersOf_watcher]
  cases observing ea <;> rfl

lemma fieldKey_watched (ea₀ ea : U64) : fieldKey (watched ea₀ ea) = ("e:p", 0) := by
  have hoffset : parseHexOrZero "0x0" = 0 := by decide +kernel
  rw [← hoffset]
  rfl

lemma isWrite_watched (ea₀ ea : U64) : isWrite (watched ea₀ ea) = decide (ea = ea₀) := rfl

lemma about_watcher (observing : U64 → Bool) (ea₀ : U64) (n : ℕ) (ea : U64) :
    about ("e:p", 0) (membersOf (watcher observing ea₀) n ea) =
      if observing ea then [watched ea₀ ea] else [] := by
  rw [membersOf_watcher]
  split
  · exact List.filter_cons_of_pos (by simp [fieldKey_watched])
  · rfl

/-- The writes of its field are the occurrences of the function. -/
lemma countP_isWrite_watcher {observing : U64 → Bool} {ea₀ : U64} (hea₀ : observing ea₀ = true)
    (n : ℕ) (eas : List U64) :
    (eas.flatMap fun ea => about ("e:p", 0) (membersOf (watcher observing ea₀) n ea)).countP
      isWrite = eas.count ea₀ := by
  induction eas with
  | nil => rfl
  | cons ea eas ih =>
    rw [List.flatMap_cons, List.countP_append, ih, List.count_cons, Nat.add_comm, about_watcher]
    congr 1
    by_cases hea : ea = ea₀
    · subst hea
      simp [hea₀, isWrite_watched]
    · cases observing ea <;> simp [isWrite_watched, hea]

/-! ## The answer depends on repetitions -/

/-- For two lists of the same functions: on a backend where none of the observing functions occurs
more often in the first list, the proposals are equal exactly when they occur equally often; and
for the functions `observing`, the proposals are equal on every backend where these observe
something exactly when they occur equally often. -/
theorem recover_structure_iff {l₁ l₂ : List U64} (hsame : ∀ ea, ea ∈ l₁ ↔ ea ∈ l₂)
    (hlength₁ : l₁.length < 2 ^ 64) (hlength₂ : l₂.length < 2 ^ 64) :
    (∀ (r : TypeReader) (idx : AnalysisIndex) (max_members : ℕ),
      (l₁.filter (observes r max_members)).Subperm (l₂.filter (observes r max_members)) →
      (shownProposals (recover_structureIn r idx l₁ max_members) =
          shownProposals (recover_structureIn r idx l₂ max_members) ↔
        (l₁.filter (observes r max_members)).Perm (l₂.filter (observes r max_members)))) ∧
    ∀ observing : U64 → Bool,
      (∀ (r : TypeReader) (idx : AnalysisIndex) (max_members : ℕ),
        observes r max_members = observing →
        shownProposals (recover_structureIn r idx l₁ max_members) =
          shownProposals (recover_structureIn r idx l₂ max_members)) ↔
      (l₁.filter observing).Perm (l₂.filter observing) := by
  constructor
  · intro r idx max_members hsub
    exact ⟨perm_of_shownProposals hsame hlength₁ hlength₂ hsub, shownProposals_congr hsame⟩
  · intro observing
    constructor
    · intro h
      rw [List.perm_iff_count]
      intro ea
      by_cases hea : ea ∈ l₁ ∧ observing ea = true
      · obtain ⟨hea, hobserving⟩ := hea
        have habout : about ("e:p", 0) (membersOf (watcher observing ea) 0 ea) ≠ [] := by
          simp [about_watcher, hobserving]
        obtain ⟨-, hwrites⟩ := counts_eq_of_shown hsame
          (h (watcher observing ea) ⟨1, "", 0, ∅, []⟩ 0 (observes_watcher observing ea 0))
          hea habout
        rw [countP_isWrite_watcher hobserving, countP_isWrite_watcher hobserving] at hwrites
        rw [List.count_filter hobserving, List.count_filter hobserving]
        exact nat_inj (List.count_le_length.trans_lt hlength₁)
          (List.count_le_length.trans_lt hlength₂) hwrites
      · have hnot : ∀ l : List U64, (ea ∈ l ↔ ea ∈ l₁) → (l.filter observing).count ea = 0 :=
          fun l hl => List.count_eq_zero.mpr fun hmem =>
            hea ((List.mem_filter.mp hmem).imp_left hl.mp)
        rw [hnot l₁ Iff.rfl, hnot l₂ (hsame ea).symm]
    · rintro hperm r idx max_members rfl
      exact shownProposals_congr hsame hperm

/-- The mock with a database open. -/
def openMock : TypeReader := mockReader { MockBackend.new with open_path := some "t.i64" }

/-- On a backend where both functions of the list observe something, order does not matter. -/
theorem recover_structure_iff_swapped :
    shownProposals (recover_structureIn openMock ⟨1, "", 0, ∅, []⟩ [0x401000, 0x401100] 64) =
      shownProposals (recover_structureIn openMock ⟨1, "", 0, ∅, []⟩ [0x401100, 0x401000] 64) := by
  have hswap : List.Perm [(0x401000 : U64), 0x401100] [0x401100, 0x401000] := List.Perm.swap _ _ []
  have hiff := recover_structure_iff (fun _ => hswap.mem_iff) (by decide) (by decide)
  exact (hiff.2 _).mpr (hswap.filter _) openMock _ 64 rfl

/-- A function that is listed twice counts as two functions. -/
theorem recover_structure_repeated :
    ¬∀ (r : TypeReader) (idx : AnalysisIndex) (max_members : ℕ) (l₁ l₂ : List U64),
      (∀ ea, ea ∈ l₁ ↔ ea ∈ l₂) →
        shownProposals (recover_structureIn r idx l₁ max_members) =
          shownProposals (recover_structureIn r idx l₂ max_members) := by
  intro h
  have hsame := h openMock ⟨1, "", 0, ∅, []⟩ 64 [0x401000] [0x401000, 0x401000] (by simp)
  have hfirst : observes openMock 64 0x401000 = true := by decide +kernel
  have hperm := perm_of_shownProposals (by simp) (by decide) (by decide)
    (by simp [hfirst]) hsame
  exact absurd hperm.length_eq (by simp [hfirst])

end Types

end ReverseMcp
