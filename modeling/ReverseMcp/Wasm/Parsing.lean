import ReverseMcp.Wasm.Module

/-!
# What parsing leaves of a module

Of a file's payloads the indirect calls read the functions and the element segments of the model.
`expected` says what `parse_with_budget` makes of these: one entry for each declared function,
numbered behind the imported ones, and one for each element segment (`parse_skeleton`).  The
imported functions are only counted.
-/

namespace ReverseMcp.Wasm

open Rust

variable {α : Type}

/-- The items that could be read. -/
def readItems (items : List (Except ReadError α)) : List α := items.filterMap Except.toOption

/-- The types of a payload. -/
def Payload.types : Payload → List CompositeType
  | .typeSection _ _ groups => (readItems groups).flatten
  | _ => []

/-- The type index of an imported function. -/
def TypeRef.funcType : TypeRef → Option U32
  | .func t => some t
  | _ => none

/-- The type indices of the functions that a payload imports. -/
def Payload.importTypes : Payload → List U32
  | .importSection _ _ imports => (readItems imports).filterMap fun i => i.2.2.funcType
  | _ => []

/-- The type indices of the functions that a payload declares. -/
def Payload.declaredTypes : Payload → List U32
  | .functionSection _ _ types => readItems types
  | _ => []

/-- The element segments of a payload. -/
def Payload.elements : Payload → List ElementType
  | .elementSection _ _ elements => readItems elements
  | _ => []

/-- The payload is the function section. -/
def Payload.isFunctionSection : Payload → Bool
  | .functionSection _ _ _ => true
  | _ => false

/-- The payload is the import section. -/
def Payload.isImportSection : Payload → Bool
  | .importSection _ _ _ => true
  | _ => false

/-- The one function section stands behind the imports. -/
def Ordered (payloads : List Payload) : Prop :=
  payloads.Pairwise fun p q => p.isFunctionSection = true →
    q.isFunctionSection = false ∧ q.isImportSection = false

/-- The table of a segment, in the model, and the functions that it lists by their indices. -/
def ElementType.listed (e : ElementType) : U32 × List U32 :=
  ((e.active.map fun a => a.1.getD 0).getD 0, e.functions.getD [])

/-- The part of the parsed model that indirect calls are resolved with. -/
structure Skeleton where
  imported_functions : U32
  functions : List (U32 × U32)
  elements : List (U32 × List U32)

/-- The skeleton of a model and of a count of imported functions. -/
def skeletonOf (model : ModuleModel) (imported_functions : U32) : Skeleton where
  imported_functions := imported_functions
  functions := model.functions.map fun f => (f.index, f.type_index)
  elements := model.elements.map fun e => (e.table_index, e.func_indices)

/-- The skeleton of a state. -/
def ParseState.skeleton (s : ParseState) : Skeleton := skeletonOf s.model s.imported_functions

/-- The skeleton that a list of payloads is to leave. -/
def expected (payloads : List Payload) : Skeleton where
  imported_functions := asU32 (payloads.flatMap Payload.importTypes).length
  functions := (payloads.flatMap Payload.declaredTypes).mapIdx fun i t =>
    (asU32 ((payloads.flatMap Payload.importTypes).length + i), t)
  elements := (payloads.flatMap Payload.elements).map ElementType.listed

/-! ## The rules of the loops -/

lemma readItems_cons {item : Except ReadError α} {items : List (Except ReadError α)} {a : α}
    (h : perr item = .ok a) : readItems (item :: items) = a :: readItems items := by
  cases item with
  | error e => cases h
  | ok b =>
    cases h
    rfl

/-- What every item of a section keeps for the items dealt with so far holds of all of them behind
it. -/
lemma eachItem_invariant {f : ℕ → α → ParseState → Outcome Error ParseState}
    {I : List α → ParseState → Prop} {items : List (Except ReadError α)} {s s' : ParseState}
    (h : eachItem f 0 items s = .ok s') (hnil : I [] s)
    (hstep : ∀ front a s s', I front s → f front.length a s = .ok s' → I (front ++ [a]) s') :
    I (readItems items) s' := by
  have hloop : ∀ (items : List (Except ReadError α)) (front : List α) (s : ParseState), I front s →
      eachItem f front.length items s = .ok s' → I (front ++ readItems items) s' := by
    intro items
    induction items with
    | nil =>
      intro front s hI hs
      cases hs
      rwa [readItems, List.filterMap_nil, List.append_nil]
    | cons item items ih =>
      intro front s hI hs
      obtain ⟨a, ha, hs⟩ := Outcome.bind_eq_ok.mp hs
      obtain ⟨c, hc, hs⟩ := Outcome.bind_eq_ok.mp hs
      have hlength : front.length + 1 = (front ++ [a]).length := by simp
      rw [hlength] at hs
      have hnext := ih (front ++ [a]) c (hstep front a s c hI hc) hs
      rwa [List.append_assoc, List.singleton_append, ← readItems_cons ha] at hnext
  exact hloop items [] s hnil h

/-- What every payload keeps for the payloads dealt with so far holds of all of them at the end. -/
lemma run_invariant [Host] {budget : ParseBudget} {I : List Payload → ParseState → Prop}
    {items : List (Except ReadError Payload)} {s s' : ParseState}
    (h : ParseState.run budget items s = .ok s') (hnil : I [] s)
    (hstep : ∀ front p back s s', readItems items = front ++ p :: back → I front s →
      s.payload budget p = .ok s' → I (front ++ [p]) s') : I (readItems items) s' := by
  have hloop : ∀ (back : List (Except ReadError Payload)) (front : List Payload) (s : ParseState),
      readItems items = front ++ readItems back → I front s →
        ParseState.run budget back s = .ok s' → I (readItems items) s' := by
    intro back
    induction back with
    | nil =>
      intro front s hitems hI hs
      cases hs
      rw [hitems]
      rwa [readItems, List.filterMap_nil, List.append_nil]
    | cons item back ih =>
      intro front s hitems hI hs
      obtain ⟨p, hp, hs⟩ := Outcome.bind_eq_ok.mp hs
      obtain ⟨c, hc, hs⟩ := Outcome.bind_eq_ok.mp hs
      rw [readItems_cons hp] at hitems
      exact ih (front ++ [p]) c (by simp [hitems]) (hstep front p _ s c hitems hI hc) hs
  exact hloop items [] s rfl hnil h

/-! ## The payloads that leave the skeleton alone -/

section
variable {s s' : ParseState} {budget : ParseBudget}

@[simp]
lemma skeleton_record_section (s : ParseState) (id : ℕ) (name : String) (start stop : ℕ) :
    (s.update fun m => record_section m id name start stop).skeleton = s.skeleton := by
  simp only [ParseState.skeleton, ParseState.update, record_section]
  split <;> rfl

lemma eachItem_frame {f : ℕ → α → ParseState → Outcome Error ParseState}
    {items : List (Except ReadError α)} (h : eachItem f 0 items s = .ok s')
    (hstep : ∀ i a s s', f i a s = .ok s' → s'.skeleton = s.skeleton) :
    s'.skeleton = s.skeleton :=
  eachItem_invariant (I := fun _ c => c.skeleton = s.skeleton) h rfl
    fun front a c c' hc hf => (hstep front.length a c c' hf).trans hc

lemma skeleton_addType {ty : CompositeType} (h : s.addType budget ty = .ok s') :
    s'.skeleton = s.skeleton := by
  rw [ParseState.addType] at h
  split at h
  · cases h
  · cases ty <;> cases h <;> rfl

lemma skeleton_addGroup {tys : List CompositeType} (h : s.addGroup budget tys = .ok s') :
    s'.skeleton = s.skeleton := by
  induction tys generalizing s with
  | nil =>
    cases h
    rfl
  | cons ty tys ih =>
    obtain ⟨c, hc, h⟩ := Outcome.bind_eq_ok.mp h
    exact (ih h).trans (skeleton_addType hc)

lemma skeleton_addTable (s : ParseState) (i : ℕ) (t : TableType) :
    (s.addTable i t).skeleton = s.skeleton := by
  rw [ParseState.addTable]
  split <;> rfl

lemma skeleton_addData {i : ℕ} {d : DataType} (h : s.addData budget i d = .ok s') :
    s'.skeleton = s.skeleton := by
  rw [ParseState.addData] at h
  split at h
  · cases h
  · cases h
    rfl

/-- A body gives its function locals and a place, and leaves its index and its type. -/
lemma skeleton_addBody {body : FunctionBody} (h : s.addBody body = .ok s') :
    s'.skeleton = s.skeleton := by
  rw [ParseState.addBody] at h
  split at h
  · cases h
  · rename_i entry hentry
    obtain ⟨items, -, h⟩ := Outcome.bind_eq_ok.mp h
    obtain ⟨local_types, -, h⟩ := Outcome.bind_eq_ok.mp h
    cases h
    simp only [ParseState.skeleton, skeletonOf, Skeleton.mk.injEq, true_and, and_true]
    obtain ⟨hlt, rfl⟩ := List.getElem?_eq_some_iff.mp hentry
    rw [List.map_set]
    refine List.ext_getElem (by simp) fun j _ _ => ?_
    rw [List.getElem_set]
    split
    · subst j
      simp
    · rfl

/-- A name changes nothing else of a function. -/
lemma map_setName {α : Type} {g : FunctionEntry → α}
    (hg : ∀ (f : FunctionEntry) (name : Option String), g { f with name } = g f) (index : U32)
    (name : String) (fs : List FunctionEntry) :
    (ParseState.setName index name fs).map g = fs.map g := by
  induction fs with
  | nil => rfl
  | cons f fs ih =>
    rw [ParseState.setName]
    split
    · rw [List.map_cons, List.map_cons, hg]
    · rw [List.map_cons, ih, List.map_cons]

lemma skeleton_addCustom (s : ParseState) (c : CustomSection) :
    (s.addCustom c).skeleton = s.skeleton := by
  cases c with
  | name functions =>
    simp only [ParseState.addCustom, ParseState.skeleton, ParseState.update, skeletonOf,
      Skeleton.mk.injEq, true_and, and_true]
    generalize s.model.functions = fs
    induction functions generalizing fs with
    | nil => rfl
    | cons item items ih => exact (ih _).trans (map_setName (fun _ _ => rfl) _ _ _)
  | producers fields => cases fields <;> rfl
  | other name => rfl

end

/-! ## The payloads that the skeleton comes from -/

lemma skeleton_addElement {s s' : ParseState} {budget : ParseBudget} {i : ℕ} {e : ElementType}
    (h : s.addElement budget i e = .ok s') :
    s'.skeleton = { s.skeleton with elements := s.skeleton.elements ++ [e.listed] } := by
  rw [ParseState.addElement] at h
  split at h
  · cases h
  · cases h
    obtain ⟨active, functions⟩ := e
    simp only [ParseState.skeleton, ParseState.update, skeletonOf, List.map_append, List.map_cons,
      List.map_nil, ElementType.listed]
    cases active <;> cases functions <;> rfl

lemma ordered_front {front back : List Payload} {p : Payload}
    (h : Ordered (front ++ p :: back))
    (hp : p.isFunctionSection = true ∨ p.isImportSection = true) :
    front.flatMap Payload.declaredTypes = [] := by
  rw [List.flatMap_eq_nil_iff]
  intro q hq
  have hpair := (List.pairwise_append.mp h).2.2 q hq p (by simp)
  cases q with
  | functionSection start stop types =>
    obtain ⟨hfun, himp⟩ := hpair rfl
    simp [hfun, himp] at hp
  | _ => rfl

section
variable [Host] {s s' : ParseState} {budget : ParseBudget}

lemma addU32_eq_asU32 {ε : Type} {n k : ℕ} {c : U32}
    (h : addU32 (asU32 n) (asU32 k) = (.ok c : Outcome ε U32)) : c = asU32 (n + k) := by
  rw [addU32] at h
  split at h
  · cases h
    exact Fin.ext (by simp [asU32, Fin.ofNat, Fin.val_add])
  · cases h

lemma skeleton_addImport {imp : String × String × TypeRef} {n : ℕ}
    (hn : s.imported_functions = asU32 n) (h : s.addImport imp = .ok s') :
    s'.skeleton =
      { s.skeleton with imported_functions := asU32 (n + (imp.2.2.funcType.toList).length) } := by
  obtain ⟨module, name, ty⟩ := imp
  cases ty with
  | func t =>
    obtain ⟨c, hc, h⟩ := Outcome.bind_eq_ok.mp h
    cases h
    rw [hn] at hc
    rw [addU32_eq_asU32 (k := 1) hc]
    rfl
  | _ =>
    cases h
    show s.skeleton = { s.skeleton with imported_functions := asU32 n }
    rw [← hn]
    rfl

lemma skeleton_addFunction {i n : ℕ} {t : U32} (hn : s.imported_functions = asU32 n)
    (h : s.addFunction budget i t = .ok s') :
    s'.skeleton =
    { s.skeleton with functions := s.skeleton.functions ++ [(asU32 (n + i), t)] } := by
  rw [ParseState.addFunction] at h
  split at h
  · cases h
  · obtain ⟨index, hindex, h⟩ := Outcome.bind_eq_ok.mp h
    cases h
    rw [hn] at hindex
    rw [addU32_eq_asU32 hindex]
    simp [ParseState.skeleton, ParseState.update, skeletonOf]

/-! ## One payload, all payloads -/

lemma payload_expected {front back : List Payload} {p : Payload}
    (horder : Ordered (front ++ p :: back)) (hs : s.skeleton = expected front)
    (h : s.payload budget p = .ok s') : s'.skeleton = expected (front ++ [p]) := by
  have himported : s.imported_functions = asU32 (front.flatMap Payload.importTypes).length :=
    congrArg Skeleton.imported_functions hs
  have hframe : s'.skeleton = s.skeleton → p.importTypes = [] → p.declaredTypes = [] →
      p.elements = [] → s'.skeleton = expected (front ++ [p]) := by
    intro hsame himports hdeclared helements
    rw [hsame, hs]
    simp [expected, himports, hdeclared, helements]
  cases p with
  | importSection start stop imports =>
    -- the sections are in order, so no function has been declared yet
    have hnone := ordered_front horder (Or.inr rfl)
    have hloop := eachItem_invariant (I := fun done c =>
      c.skeleton = { s.skeleton with
        imported_functions := asU32 ((front.flatMap Payload.importTypes).length +
          (done.filterMap fun i => i.2.2.funcType).length) }) h
      ((skeleton_record_section s 2 "import" start stop).trans (by rw [hs]; rfl)) ?_
    · rw [hloop, hs]
      simp [expected, hnone, Payload.importTypes, Payload.declaredTypes, Payload.elements]
    · intro done imp c c' hc hstep
      rw [skeleton_addImport (congrArg Skeleton.imported_functions hc) hstep, hc]
      cases himp : imp.2.2.funcType <;> simp [himp, Nat.add_assoc]
  | functionSection start stop types =>
    have hnone := ordered_front horder (Or.inl rfl)
    have hloop := eachItem_invariant (I := fun done c =>
      c.skeleton = { s.skeleton with functions := done.mapIdx fun i t =>
        (asU32 ((front.flatMap Payload.importTypes).length + i), t) }) h
      ((skeleton_record_section s 3 "function" start stop).trans ?_) ?_
    · rw [hloop, hs]
      simp [expected, hnone, Payload.importTypes, Payload.declaredTypes, Payload.elements]
    · rw [hs]
      simp [expected, hnone]
    · intro done t c c' hc hstep
      -- the indices go on behind the imported functions
      have hcount : c.imported_functions = asU32 (front.flatMap Payload.importTypes).length :=
        (congrArg Skeleton.imported_functions hc).trans himported
      rw [skeleton_addFunction hcount hstep, hc, List.mapIdx_concat]
  | elementSection start stop elements =>
    have hloop := eachItem_invariant (I := fun done c =>
      c.skeleton = { s.skeleton with
        elements := s.skeleton.elements ++ done.map ElementType.listed }) h
      ((skeleton_record_section s 9 "elem" start stop).trans (by simp)) ?_
    · rw [hloop, hs]
      simp [expected, Payload.importTypes, Payload.declaredTypes, Payload.elements]
    · intro done e c c' hc hstep
      rw [skeleton_addElement hstep, hc]
      simp
  | typeSection start stop groups =>
    exact hframe ((eachItem_frame h fun _ _ _ _ hc => skeleton_addGroup hc).trans
      (skeleton_record_section ..)) rfl rfl rfl
  | tableSection start stop tables =>
    refine hframe ((eachItem_frame h fun i t c c' hc => ?_).trans
      (skeleton_record_section ..)) rfl rfl rfl
    cases hc
    exact skeleton_addTable c i t
  | dataSection start stop datas =>
    exact hframe ((eachItem_frame h fun _ _ _ _ hc => skeleton_addData hc).trans
      (skeleton_record_section ..)) rfl rfl rfl
  | memorySection start stop memories =>
    refine hframe ((eachItem_frame h fun i m c c' hc => ?_).trans
      (skeleton_record_section ..)) rfl rfl rfl
    cases hc
    rfl
  | globalSection start stop globals =>
    refine hframe ((eachItem_frame h fun i g c c' hc => ?_).trans
      (skeleton_record_section ..)) rfl rfl rfl
    cases hc
    rfl
  | exportSection start stop exports =>
    refine hframe ((eachItem_frame h fun i e c c' hc => ?_).trans
      (skeleton_record_section ..)) rfl rfl rfl
    cases hc
    rfl
  | codeSectionEntry body => exact hframe (skeleton_addBody h) rfl rfl rfl
  | codeSectionStart start stop =>
    cases h
    exact hframe (skeleton_record_section ..) rfl rfl rfl
  | tagSection start stop =>
    cases h
    exact hframe (skeleton_record_section s 13 "tag" start stop) rfl rfl rfl
  | customSection section_ =>
    cases h
    exact hframe (skeleton_addCustom s section_) rfl rfl rfl
  | startSection func | version | other =>
    cases h
    exact hframe rfl rfl rfl rfl

/-- A parsed model is what the loop over the payloads leaves. -/
lemma parse_with_budget_eq_ok [ModuleParser] {bytes : List U8} {model : ModuleModel}
    (h : parse_with_budget bytes budget = .ok model) :
    ∃ version s, ParseState.run budget (ModuleParser.parse_all bytes)
      ⟨.empty version, .default, 0, 0⟩ = .ok s ∧ model = s.finish := by
  rw [parse_with_budget] at h
  split at h
  · cases h
  · obtain ⟨s, hs, h⟩ := Outcome.bind_eq_ok.mp h
    cases h
    exact ⟨_, s, hs, rfl⟩

/-- The functions and the element segments of a parsed model. -/
theorem parse_skeleton [ModuleParser] {bytes : List U8} {model : ModuleModel}
    (h : parse_with_budget bytes budget = .ok model)
    (horder : Ordered (readItems (ModuleParser.parse_all bytes))) :
    skeletonOf model model.imported_functions =
      expected (readItems (ModuleParser.parse_all bytes)) := by
  obtain ⟨version, s, hs, rfl⟩ := parse_with_budget_eq_ok h
  have hrun : s.skeleton = expected (readItems (ModuleParser.parse_all bytes)) :=
    run_invariant (I := fun done c => c.skeleton = expected done) hs rfl
      fun front p back c c' hfront hc hstep =>
        payload_expected (hfront ▸ horder : Ordered (front ++ p :: back)) hc hstep
  rw [← hrun]
  rfl

end

end ReverseMcp.Wasm
