import Mathlib.Algebra.Group.Fin.Basic
import ReverseMcp.Wasm.Parsing

/-!
# What a module holds, counted

The tally of a state is what it holds of each kind of item: the numbers given to functions, tables,
memories and globals, and how many there are of the others.  `Tally.after` says what a payload adds,
and the loop of `parse_with_budget` adds this for one payload after the other (`run_tally`).
-/

namespace ReverseMcp.Wasm

open Rust

/-- What there is of each kind of item. -/
@[ext]
structure Tally where
  sections : ℕ
  types : ℕ
  imports : List String
  imported_functions : U32
  functions : List U32
  locals : List ℕ
  bodies : ℕ
  tables : List U32
  memories : List U32
  globals : List U32
  elementFunctions : ℕ
  datas : ℕ

/-- The kind of a `TypeRef`. -/
def TypeRef.kind : TypeRef → ExternalKind
  | .func _ => .func
  | .table => .table
  | .memory => .memory
  | .global => .global
  | .tag => .tag

/-- The imports that a payload has of each kind. -/
@[simp]
def Payload.importKinds : Payload → List ExternalKind
  | .importSection _ _ imports => (readItems imports).map fun i => i.2.2.kind
  | _ => []

/-- The number of entries of a kind that a payload defines. -/
@[simp]
def Payload.definitions : Payload → ExternalKind → ℕ
  | .functionSection _ _ types, .func => (readItems types).length
  | .tableSection _ _ tables, .table => (readItems tables).length
  | .memorySection _ _ memories, .memory => (readItems memories).length
  | .globalSection _ _ globals, .global => (readItems globals).length
  | _, _ => 0

/-- The locals that a body declares, by their counts. -/
def FunctionBody.declaredLocals (body : FunctionBody) : ℕ :=
  match body.locals with
  | .ok items => ((readItems items).map fun item => item.1.val).sum
  | .error _ => 0

/-- The function indices that the element segments of a payload list. -/
@[simp]
def Payload.elementFunctions (p : Payload) : ℕ :=
  (p.elements.map fun e => (e.functions.getD []).length).sum

/-- The data segments of a payload. -/
@[simp]
def Payload.datas : Payload → ℕ
  | .dataSection _ _ datas => (readItems datas).length
  | _ => 0

/-- The payload is a section whose range is recorded. -/
@[simp]
def Payload.isRecorded : Payload → Bool
  | .version | .startSection _ | .codeSectionEntry _ | .customSection _ | .other => false
  | _ => true

/-- The numbers that `count` new entries get: their positions behind `base`. -/
def numbers (base : U32) (count : ℕ) : List U32 := (List.range count).map fun i => base + asU32 i

/-- The numbers of locals of the functions behind a payload. -/
@[simp]
def Payload.locals (p : Payload) (bodies : ℕ) (locals : List ℕ) : List ℕ :=
  match p with
  | .codeSectionEntry body => locals.set bodies body.declaredLocals
  | _ => locals

/-- The number of bodies of a payload. -/
@[simp]
def Payload.bodies : Payload → ℕ
  | .codeSectionEntry _ => 1
  | _ => 0

/-- What there is of each kind behind a payload. -/
def Tally.after (t : Tally) (p : Payload) : Tally where
  sections := if p.isRecorded = true ∧ t.sections < model_max_sections then t.sections + 1
    else t.sections
  types := t.types + p.types.length
  imports := t.imports ++ p.importKinds.map ExternalKind.text
  imported_functions := t.imported_functions + asU32 (p.importKinds.count .func)
  functions := t.functions ++ numbers t.imported_functions (p.definitions .func)
  locals := p.locals t.bodies (t.locals ++ List.replicate (p.definitions .func) 0)
  bodies := t.bodies + p.bodies
  tables := t.tables ++ numbers 0 (p.definitions .table)
  memories := t.memories ++ numbers 0 (p.definitions .memory)
  globals := t.globals ++ numbers 0 (p.definitions .global)
  elementFunctions := t.elementFunctions + p.elementFunctions
  datas := t.datas + p.datas

/-- What a model holds of each kind, with the counters of the loop. -/
def tallyOf (m : ModuleModel) (imported_functions : U32) (bodies : ℕ) : Tally where
  sections := m.sections.length
  types := m.types.length
  imports := m.imports.map (·.kind)
  imported_functions
  functions := m.functions.map (·.index)
  locals := m.functions.map (·.local_types.length)
  bodies
  tables := m.tables.map (·.index)
  memories := m.memories.map (·.index)
  globals := m.globals.map (·.index)
  elementFunctions := (m.elements.map (·.func_indices.length)).sum
  datas := m.datas.length

/-- The tally of a state. -/
def ParseState.tally (s : ParseState) : Tally :=
  tallyOf s.model s.imported_functions s.defined_fn_cursor

/-! ## The parts of the payloads -/

/-- The tally with one section more, up to the limit. -/
def Tally.record (t : Tally) : Tally :=
  { t with sections := if t.sections < model_max_sections then t.sections + 1 else t.sections }

section
variable {s s' : ParseState} {budget : ParseBudget}

lemma tally_record_section (s : ParseState) (id : ℕ) (name : String) (start stop : ℕ) :
    (s.update fun m => record_section m id name start stop).tally = s.tally.record := by
  simp only [ParseState.tally, ParseState.update, record_section, Tally.record, tallyOf]
  split <;> rename_i hlimit <;> simp [hlimit]

lemma tally_addType {ty : CompositeType} (h : s.addType budget ty = .ok s') :
    s'.tally = { s.tally with types := s.tally.types + 1 } := by
  rw [ParseState.addType] at h
  split at h
  · cases h
  · cases ty <;> cases h <;> simp [ParseState.tally, ParseState.update, tallyOf]

lemma tally_addGroup {tys : List CompositeType} (h : s.addGroup budget tys = .ok s') :
    s'.tally = { s.tally with types := s.tally.types + tys.length } := by
  induction tys generalizing s with
  | nil =>
    cases h
    rfl
  | cons ty tys ih =>
    obtain ⟨c, hc, h⟩ := Outcome.bind_eq_ok.mp h
    rw [ih h, tally_addType hc, List.length_cons, Nat.add_assoc, Nat.add_comm 1]

lemma tally_addTable (s : ParseState) (i : ℕ) (t : TableType) :
    (s.addTable i t).tally = { s.tally with tables := s.tally.tables ++ [asU32 i] } := by
  rw [ParseState.addTable]
  split <;> simp [ParseState.tally, ParseState.update, tallyOf]

lemma tally_addMemory (s : ParseState) (i : ℕ) (m : MemoryEntry) :
    (s.addMemory i m).tally = { s.tally with memories := s.tally.memories ++ [asU32 i] } := by
  simp [ParseState.addMemory, ParseState.tally, ParseState.update, tallyOf]

lemma tally_addGlobal (s : ParseState) (i : ℕ) (g : GlobalType) :
    (s.addGlobal i g).tally = { s.tally with globals := s.tally.globals ++ [asU32 i] } := by
  simp [ParseState.addGlobal, ParseState.tally, ParseState.update, tallyOf]

lemma tally_addElement {i : ℕ} {e : ElementType} (h : s.addElement budget i e = .ok s') :
    s'.tally = { s.tally with
      elementFunctions := s.tally.elementFunctions + (e.functions.getD []).length } := by
  rw [ParseState.addElement] at h
  split at h
  · cases h
  · cases h
    obtain ⟨active, functions⟩ := e
    cases active <;> cases functions <;> simp [ParseState.tally, ParseState.update, tallyOf]

lemma tally_addData {i : ℕ} {d : DataType} (h : s.addData budget i d = .ok s') :
    s'.tally = { s.tally with datas := s.tally.datas + 1 } := by
  rw [ParseState.addData] at h
  split at h
  · cases h
  · cases h
    simp [ParseState.tally, ParseState.update, tallyOf]

lemma length_localTypes {items : List (Except ReadError (U32 × String))} {tys : List String}
    (h : ParseState.localTypes items = .ok tys) :
    tys.length = ((readItems items).map fun item => item.1.val).sum := by
  induction items generalizing tys with
  | nil =>
    cases h
    rfl
  | cons item items ih =>
    obtain ⟨⟨n, ty⟩, ha, h⟩ := Outcome.bind_eq_ok.mp h
    obtain ⟨rest, hrest, h⟩ := Outcome.bind_eq_ok.mp h
    cases h
    rw [readItems_cons ha, List.length_append, List.length_replicate, ih hrest]
    rfl

/-- A body gives the function at the cursor its locals. -/
lemma tally_addBody {body : FunctionBody} (h : s.addBody body = .ok s') :
    s.tally.bodies < s.tally.locals.length ∧ s'.tally = { s.tally with
      locals := s.tally.locals.set s.tally.bodies body.declaredLocals
      bodies := s.tally.bodies + 1 } := by
  rw [ParseState.addBody] at h
  split at h
  · cases h
  · rename_i entry hentry
    obtain ⟨items, hitems, h⟩ := Outcome.bind_eq_ok.mp h
    obtain ⟨local_types, hlocals, h⟩ := Outcome.bind_eq_ok.mp h
    cases h
    obtain ⟨hlt, rfl⟩ := List.getElem?_eq_some_iff.mp hentry
    have hcount : body.declaredLocals = local_types.length := by
      rw [FunctionBody.declaredLocals]
      cases hread : body.locals with
      | error e => rw [hread] at hitems; cases hitems
      | ok items' =>
        rw [hread] at hitems
        cases hitems
        exact (length_localTypes hlocals).symm
    refine ⟨by simpa [ParseState.tally, tallyOf] using hlt, ?_⟩
    simp only [ParseState.tally, tallyOf, List.map_set, hcount, Tally.mk.injEq, true_and, and_true]
    refine List.ext_getElem (by simp) fun j _ _ => ?_
    rw [List.getElem_set]
    split
    · subst j
      simp
    · rfl

lemma tally_addCustom (s : ParseState) (c : CustomSection) : (s.addCustom c).tally = s.tally := by
  cases c with
  | name functions =>
    simp only [ParseState.addCustom, ParseState.tally, ParseState.update, tallyOf, Tally.mk.injEq,
      true_and, and_true]
    generalize s.model.functions = fs
    induction functions generalizing fs with
    | nil => exact ⟨rfl, rfl⟩
    | cons item items ih =>
      obtain ⟨hindex, hlocals⟩ := ih (ParseState.setName item.1 item.2 fs)
      exact ⟨hindex.trans (map_setName (fun _ _ => rfl) _ _ _),
        hlocals.trans (map_setName (fun _ _ => rfl) _ _ _)⟩
  | producers fields => cases fields <;> rfl
  | other name => rfl

variable [Host]

lemma tally_addImport {imp : String × String × TypeRef} (h : s.addImport imp = .ok s') :
    s'.tally = { s.tally with
      imports := s.tally.imports ++ [imp.2.2.kind.text]
      imported_functions := s.tally.imported_functions + asU32 ([imp.2.2.kind].count .func) } := by
  obtain ⟨module, name, ty⟩ := imp
  cases ty with
  | func t =>
    obtain ⟨c, hc, h⟩ := Outcome.bind_eq_ok.mp h
    cases h
    rw [addU32_eq_ok hc]
    simp [ParseState.tally, ParseState.update, tallyOf, TypeRef.kind, ExternalKind.text]
    rfl
  | _ =>
    cases h
    simp [ParseState.tally, ParseState.update, tallyOf, TypeRef.kind, ExternalKind.text, asU32_zero]

lemma tally_addFunction {i : ℕ} {t : U32} (h : s.addFunction budget i t = .ok s') :
    s'.tally = { s.tally with
      functions := s.tally.functions ++ [s.tally.imported_functions + asU32 i]
      locals := s.tally.locals ++ [0] } := by
  rw [ParseState.addFunction] at h
  split at h
  · cases h
  · obtain ⟨index, hindex, h⟩ := Outcome.bind_eq_ok.mp h
    cases h
    rw [addU32_eq_ok hindex]
    simp [ParseState.tally, ParseState.update, tallyOf]

end

/-! ## One payload, all payloads -/

@[simp]
lemma numbers_zero (base : U32) : numbers base 0 = [] := rfl

lemma numbers_succ (base : U32) (count : ℕ) :
    numbers base (count + 1) = numbers base count ++ [base + asU32 count] := by
  simp [numbers, List.range_succ]

section
variable [Host] {s s' : ParseState} {budget : ParseBudget}

lemma tally_payload {p : Payload} (h : s.payload budget p = .ok s') :
    s'.tally = s.tally.after p := by
  cases p with
  | typeSection start stop groups =>
    have hloop := eachItem_invariant (I := fun done c =>
      c.tally = { s.tally.record with types := s.tally.types + done.flatten.length }) h
      (tally_record_section s 1 "type" start stop) ?_
    · rw [hloop]
      simp [Tally.after, Tally.record, Payload.types, Payload.elements, asU32_zero]
    · intro done group c c' hc hstep
      rw [tally_addGroup hstep, hc]
      simp [Nat.add_assoc]
  | importSection start stop imports =>
    have hloop := eachItem_invariant (I := fun done c => c.tally = { s.tally.record with
        imports := s.tally.imports ++ done.map fun i => i.2.2.kind.text
        imported_functions :=
          s.tally.imported_functions + asU32 ((done.map fun i => i.2.2.kind).count .func) }) h
      ((tally_record_section s 2 "import" start stop).trans (by simp [asU32_zero, Tally.record])) ?_
    · rw [hloop]
      simp [Tally.after, Tally.record, Payload.types, Payload.elements]
    · intro done imp c c' hc hstep
      have hcount : ((done ++ [imp]).map fun i => i.2.2.kind).count .func =
          (done.map fun i => i.2.2.kind).count .func + [imp.2.2.kind].count .func := by
        rw [List.map_append, List.count_append]
        rfl
      rw [tally_addImport hstep, hc, hcount, asU32_add]
      simp [add_assoc]
  | functionSection start stop types =>
    have hloop := eachItem_invariant (I := fun done c => c.tally = { s.tally.record with
        functions := s.tally.functions ++ numbers s.tally.imported_functions done.length
        locals := s.tally.locals ++ List.replicate done.length 0 }) h
      ((tally_record_section s 3 "function" start stop).trans (by simp [Tally.record])) ?_
    · rw [hloop]
      simp [Tally.after, Tally.record, Payload.types, Payload.elements, asU32_zero]
    · intro done t c c' hc hstep
      rw [tally_addFunction hstep, hc]
      simp [Tally.record, numbers_succ, List.replicate_succ']
  | tableSection start stop tables =>
    have hloop := eachItem_invariant (I := fun done c => c.tally = { s.tally.record with
        tables := s.tally.tables ++ numbers 0 done.length }) h
      ((tally_record_section s 4 "table" start stop).trans (by simp [Tally.record])) ?_
    · rw [hloop]
      simp [Tally.after, Tally.record, Payload.types, Payload.elements, asU32_zero]
    · intro done t c c' hc hstep
      cases hstep
      rw [tally_addTable, hc]
      simp [Tally.record, numbers_succ]
  | memorySection start stop memories =>
    have hloop := eachItem_invariant (I := fun done c => c.tally = { s.tally.record with
        memories := s.tally.memories ++ numbers 0 done.length }) h
      ((tally_record_section s 5 "memory" start stop).trans (by simp [Tally.record])) ?_
    · rw [hloop]
      simp [Tally.after, Tally.record, Payload.types, Payload.elements, asU32_zero]
    · intro done m c c' hc hstep
      cases hstep
      rw [tally_addMemory, hc]
      simp [Tally.record, numbers_succ]
  | globalSection start stop globals =>
    have hloop := eachItem_invariant (I := fun done c => c.tally = { s.tally.record with
        globals := s.tally.globals ++ numbers 0 done.length }) h
      ((tally_record_section s 6 "global" start stop).trans (by simp [Tally.record])) ?_
    · rw [hloop]
      simp [Tally.after, Tally.record, Payload.types, Payload.elements, asU32_zero]
    · intro done g c c' hc hstep
      cases hstep
      rw [tally_addGlobal, hc]
      simp [Tally.record, numbers_succ]
  | elementSection start stop elements =>
    have hloop := eachItem_invariant (I := fun done c => c.tally = { s.tally.record with
        elementFunctions := s.tally.elementFunctions +
          (done.map fun e => (e.functions.getD []).length).sum }) h
      (tally_record_section s 9 "elem" start stop) ?_
    · rw [hloop]
      simp [Tally.after, Tally.record, Payload.types, Payload.elements, asU32_zero]
    · intro done e c c' hc hstep
      rw [tally_addElement hstep, hc]
      simp [Nat.add_assoc]
  | dataSection start stop datas =>
    have hloop := eachItem_invariant (I := fun done c => c.tally = { s.tally.record with
        datas := s.tally.datas + done.length }) h
      (tally_record_section s 11 "data" start stop) ?_
    · rw [hloop]
      simp [Tally.after, Tally.record, Payload.types, Payload.elements, asU32_zero]
    · intro done d c c' hc hstep
      rw [tally_addData hstep, hc]
      simp [Nat.add_assoc]
  | exportSection start stop exports =>
    have hloop := eachItem_invariant (I := fun _ c => c.tally = s.tally.record) h
      (tally_record_section s 7 "export" start stop) ?_
    · rw [hloop]
      simp [Tally.after, Tally.record, Payload.types, Payload.elements, asU32_zero]
    · intro done e c c' hc hstep
      cases hstep
      exact hc
  | codeSectionStart start stop =>
    cases h
    rw [tally_record_section]
    simp [Tally.after, Tally.record, Payload.types, Payload.elements, asU32_zero]
  | tagSection start stop =>
    cases h
    refine (tally_record_section s 13 "tag" start stop).trans ?_
    simp [Tally.after, Tally.record, Payload.types, Payload.elements, asU32_zero]
  | codeSectionEntry body =>
    rw [(tally_addBody h).2]
    simp [Tally.after, Payload.types, Payload.elements, asU32_zero]
  | customSection section_ =>
    cases h
    rw [tally_addCustom]
    simp [Tally.after, Payload.types, Payload.elements, asU32_zero]
  | startSection func | version | other =>
    cases h
    simp [Tally.after, Payload.types, Payload.elements, asU32_zero, ParseState.tally,
      ParseState.update, tallyOf]

/-- The payloads that could be read are tallied one after the other. -/
lemma run_tally {items : List (Except ReadError Payload)}
    (h : ParseState.run budget items s = .ok s') :
    s'.tally = (readItems items).foldl Tally.after s.tally :=
  run_invariant (I := fun done c => c.tally = done.foldl Tally.after s.tally) h rfl
    fun front p back c c' _ hc hstep => by
      rw [tally_payload hstep, hc, List.foldl_append, List.foldl_cons, List.foldl_nil]

end

end ReverseMcp.Wasm
