import Mathlib.Algebra.BigOperators.Group.List.Basic
import ReverseMcp.Wasm.IndexSpaces

/-!
# The size of a parsed module

What `parse_with_budget` stores, against the length of the file and the caps of the budget.  The
items of the sections are capped or take bytes of their own in the file.  The locals of a body are
declared in groups with a count each, which is written out with no cap, so the bound is a condition
on these counts (`parse_bounded_iff`).
-/

namespace ReverseMcp.Wasm

open Rust

/-- The items that a model stores: sections, types, imports, functions, the types of their locals,
the function indices of the element segments, and data segments. -/
def ModuleModel.stored (m : ModuleModel) : ℕ :=
  m.sections.length + m.types.length + m.imports.length + m.functions.length +
    (m.functions.map (·.local_types.length)).sum + (m.elements.map (·.func_indices.length)).sum +
    m.datas.length

/-- The sum of the caps. -/
def ParseBudget.caps (b : ParseBudget) : ℕ :=
  b.max_sections + b.max_types + b.max_functions + b.max_elements + b.max_datas

/-- The number of locals that a payload declares, one entry for a body. -/
def Payload.declaredLocals : Payload → List ℕ
  | .codeSectionEntry body => [body.declaredLocals]
  | _ => []

/-- The sum of the counts of the locals declarations of all bodies. -/
def declaredLocals (payloads : List Payload) : ℕ := (payloads.flatMap Payload.declaredLocals).sum

/-- What a payload adds to the model besides locals and its own section. -/
def Payload.items (p : Payload) : ℕ :=
  p.types.length + p.importKinds.length + p.definitions .func + p.elementFunctions + p.datas

/-- What the payloads add to the model besides locals. -/
def otherItems (payloads : List Payload) : ℕ :=
  min (payloads.countP Payload.isRecorded) model_max_sections + (payloads.map Payload.items).sum

/-- The sections, the imports and the listed function indices have bytes of their own in the
file. -/
def InFile (bytes : List U8) (payloads : List Payload) : Prop :=
  payloads.countP Payload.isRecorded + (payloads.map fun p => p.importKinds.length).sum +
    (payloads.map Payload.elementFunctions).sum ≤ bytes.length

/-! ## Tallies of many payloads -/

/-- A count that each payload adds its own to. -/
lemma fold_sum {f : Tally → ℕ} {g : Payload → ℕ} (h : ∀ t p, f (t.after p) = f t + g p)
    (ps : List Payload) (t : Tally) :
    f (ps.foldl Tally.after t) = f t + (ps.map g).sum := by
  induction ps generalizing t with
  | nil => rfl
  | cons p ps ih => rw [List.foldl_cons, ih, h, List.map_cons, List.sum_cons, Nat.add_assoc]

/-- The items besides sections and locals. -/
def Tally.items (t : Tally) : ℕ :=
  t.types + t.imports.length + t.functions.length + t.elementFunctions + t.datas

lemma items_after (t : Tally) (p : Payload) : (t.after p).items = t.items + p.items := by
  simp only [Tally.items, Tally.after, Payload.items, List.length_append, List.length_map,
    length_numbers]
  omega

lemma sections_fold (ps : List Payload) :
    (ps.foldl Tally.after .start).sections =
      min (ps.countP Payload.isRecorded) model_max_sections := by
  induction ps using List.reverseRecOn with
  | nil => rfl
  | append_singleton ps p ih =>
    rw [List.foldl_append, List.foldl_cons, List.foldl_nil, List.countP_append,
      List.countP_singleton]
    simp only [Tally.after, ih]
    cases p.isRecorded with
    | false => simp
    | true =>
      by_cases hlimit : ps.countP Payload.isRecorded < model_max_sections
      · simp [hlimit, Nat.le_of_lt hlimit, Nat.succ_le_of_lt hlimit]
      · rw [min_eq_right (Nat.le_of_not_lt hlimit), if_neg (by simp)]
        omega

lemma stored_eq (m : ModuleModel) (imported_functions : U32) (bodies : ℕ) :
    m.stored = (tallyOf m imported_functions bodies).sections +
      (tallyOf m imported_functions bodies).items +
      (tallyOf m imported_functions bodies).locals.sum := by
  simp only [ModuleModel.stored, Tally.items, tallyOf, List.length_map]
  omega

/-! ## The locals -/

/-- The functions whose bodies have been read have the locals that these declare, the others have
none yet. -/
def LocalsRead (payloads : List Payload) (t : Tally) : Prop :=
  t.bodies = (payloads.flatMap Payload.declaredLocals).length ∧
    ∃ rest, t.locals = payloads.flatMap Payload.declaredLocals ++ List.replicate rest 0

section
variable [Host] {s s' : ParseState} {budget : ParseBudget} {p : Payload}

lemma LocalsRead.payload {front : List Payload} (hs : LocalsRead front s.tally)
    (h : s.payload budget p = .ok s') : LocalsRead (front ++ [p]) s'.tally := by
  obtain ⟨hbodies, rest, hlocals⟩ := hs
  cases p with
  | codeSectionEntry body =>
    obtain ⟨hlt, htally⟩ := tally_addBody h
    rw [htally, LocalsRead, List.flatMap_append]
    obtain ⟨rest, rfl⟩ : ∃ n, rest = n + 1 := by
      rw [hlocals, List.length_append, List.length_replicate, hbodies] at hlt
      exact Nat.exists_eq_succ_of_ne_zero (by omega)
    refine ⟨by simp [Payload.declaredLocals, hbodies], rest, ?_⟩
    show s.tally.locals.set s.tally.bodies body.declaredLocals = _
    rw [hlocals, hbodies, List.set_append_right _ _ le_rfl, Nat.sub_self, List.replicate_succ]
    simp [Payload.declaredLocals]
  | functionSection start stop types =>
    rw [tally_payload h]
    refine ⟨by simp [Tally.after, Payload.declaredLocals, hbodies],
      rest + (readItems types).length, ?_⟩
    simp [Tally.after, Payload.declaredLocals, hlocals]
  | _ =>
    rw [tally_payload h]
    refine ⟨by simp [Tally.after, Payload.declaredLocals, hbodies], rest, ?_⟩
    simp [Tally.after, Payload.declaredLocals, hlocals]

end

/-! ## The caps -/

/-- The capped items are within their caps. -/
structure Capped (budget : ParseBudget) (t : Tally) : Prop where
  types : t.types ≤ budget.max_types
  functions : t.functions.length ≤ budget.max_functions
  datas : t.datas ≤ budget.max_datas

section
variable {s s' : ParseState} {budget : ParseBudget}

lemma addGroup_capped {tys : List CompositeType} (hs : s.tally.types ≤ budget.max_types)
    (h : s.addGroup budget tys = .ok s') : s'.tally.types ≤ budget.max_types := by
  induction tys generalizing s with
  | nil =>
    cases h
    exact hs
  | cons ty tys ih =>
    obtain ⟨c, hc, h⟩ := Outcome.bind_eq_ok.mp h
    refine ih ?_ h
    rw [tally_addType hc]
    rw [ParseState.addType] at hc
    split at hc
    · cases hc
    · rename_i hlimit
      exact Nat.lt_of_not_le hlimit

variable [Host] {p : Payload}

lemma payload_types_capped (hs : s.tally.types ≤ budget.max_types)
    (h : s.payload budget p = .ok s') : s'.tally.types ≤ budget.max_types := by
  cases p with
  | typeSection start stop groups =>
    refine eachItem_invariant (I := fun _ c => c.tally.types ≤ budget.max_types) h ?_
      fun _ _ _ _ hc hstep => addGroup_capped hc hstep
    rwa [tally_record_section]
  | _ =>
    rw [tally_payload h]
    exact hs

lemma payload_functions_capped (hs : s.tally.functions.length ≤ budget.max_functions)
    (h : s.payload budget p = .ok s') : s'.tally.functions.length ≤ budget.max_functions := by
  cases p with
  | functionSection start stop types =>
    refine eachItem_invariant (I := fun _ c => c.tally.functions.length ≤ budget.max_functions) h ?_
      fun front t c c' hc hstep => ?_
    · rwa [tally_record_section]
    · rw [tally_addFunction hstep]
      rw [ParseState.addFunction] at hstep
      split at hstep
      · cases hstep
      · rename_i hlimit
        have hlength : c.tally.functions.length = c.model.functions.length := List.length_map _
        rw [List.length_append, hlength]
        exact Nat.lt_of_not_le hlimit
  | _ =>
    rw [tally_payload h]
    simpa [Tally.after] using hs

lemma payload_datas_capped (hs : s.tally.datas ≤ budget.max_datas)
    (h : s.payload budget p = .ok s') : s'.tally.datas ≤ budget.max_datas := by
  cases p with
  | dataSection start stop datas =>
    refine eachItem_invariant (I := fun _ c => c.tally.datas ≤ budget.max_datas) h ?_
      fun front d c c' hc hstep => ?_
    · rwa [tally_record_section]
    · rw [tally_addData hstep]
      rw [ParseState.addData] at hstep
      split at hstep
      · cases hstep
      · rename_i hlimit
        exact Nat.lt_of_not_le hlimit
  | _ =>
    rw [tally_payload h]
    exact hs

lemma Capped.payload (hs : Capped budget s.tally) (h : s.payload budget p = .ok s') :
    Capped budget s'.tally :=
  ⟨payload_types_capped hs.types h, payload_functions_capped hs.functions h,
    payload_datas_capped hs.datas h⟩

end

/-! ## The parsed module -/

section
variable [Host] [ModuleParser] {bytes : List U8} {budget : ParseBudget} {model : ModuleModel}

/-- A parsed model stores the items of the payloads, and a type for each local that they declare. -/
lemma parse_stored (h : parse_with_budget bytes budget = .ok model) :
    model.stored = otherItems (readItems (ModuleParser.parse_all bytes)) +
      declaredLocals (readItems (ModuleParser.parse_all bytes)) := by
  obtain ⟨version, s, hs, rfl⟩ := parse_with_budget_eq_ok h
  have htally : s.tally = (readItems (ModuleParser.parse_all bytes)).foldl Tally.after .start :=
    run_tally hs
  obtain ⟨-, rest, hlocals⟩ := run_invariant (I := fun done c => LocalsRead done c.tally) hs
    ⟨rfl, 0, rfl⟩ fun front p back c c' _ hc hstep => hc.payload hstep
  have hitems := fold_sum items_after (readItems (ModuleParser.parse_all bytes)) .start
  have hsections := sections_fold (readItems (ModuleParser.parse_all bytes))
  rw [← htally] at hitems hsections
  have hstored : s.finish.stored = s.tally.sections + s.tally.items + s.tally.locals.sum :=
    stored_eq s.finish s.imported_functions s.defined_fn_cursor
  rw [hstored, hitems, hsections, hlocals, otherItems, declaredLocals, List.sum_append,
    List.sum_replicate]
  simp [Tally.items, Tally.start]

/-- What a parsed model stores besides locals is within the length of the file and the caps. -/
lemma otherItems_le (h : parse_with_budget bytes budget = .ok model)
    (hfile : InFile bytes (readItems (ModuleParser.parse_all bytes))) :
    otherItems (readItems (ModuleParser.parse_all bytes)) ≤ bytes.length + budget.caps := by
  obtain ⟨version, s, hs, rfl⟩ := parse_with_budget_eq_ok h
  have htally : s.tally = (readItems (ModuleParser.parse_all bytes)).foldl Tally.after .start :=
    run_tally hs
  have hcapped := run_invariant (I := fun _ c => Capped budget c.tally) hs
    ⟨Nat.zero_le _, Nat.zero_le _, Nat.zero_le _⟩ fun front p back c c' _ hc hstep =>
      hc.payload hstep
  have hitems := fold_sum items_after (readItems (ModuleParser.parse_all bytes)) .start
  have himports : s.tally.imports.length = _ := htally ▸ fold_sum (f := fun t => t.imports.length)
    (g := fun p => p.importKinds.length) (fun t p => by simp [Tally.after])
    (readItems (ModuleParser.parse_all bytes)) .start
  have helements : s.tally.elementFunctions = _ := htally ▸ fold_sum
    (f := Tally.elementFunctions) (g := Payload.elementFunctions) (fun _ _ => rfl)
    (readItems (ModuleParser.parse_all bytes)) .start
  rw [← htally] at hitems
  have htypes := hcapped.types
  have hfunctions := hcapped.functions
  have hdatas := hcapped.datas
  simp only [InFile, otherItems, Tally.items, Tally.start, ParseBudget.caps, List.length_nil] at *
  omega

/-- A model with no more items than the file has bytes and the budget allows: the locals that the
bodies declare, by their counts, are no more than what the other items leave.  These are always
within the bound. -/
theorem parse_bounded_iff (h : parse_with_budget bytes budget = .ok model)
    (hfile : InFile bytes (readItems (ModuleParser.parse_all bytes))) :
    otherItems (readItems (ModuleParser.parse_all bytes)) ≤ bytes.length + budget.caps ∧
      (model.stored ≤ bytes.length + budget.caps ↔
        declaredLocals (readItems (ModuleParser.parse_all bytes)) ≤
          bytes.length + budget.caps - otherItems (readItems (ModuleParser.parse_all bytes))) := by
  have hothers := otherItems_le h hfile
  refine ⟨hothers, ?_⟩
  rw [parse_stored h]
  omega

end

/-- A file with one function, whose locals are one group of `i32` with a count in LEB128. -/
def localsFile (leb : List U8) : List U8 :=
  [0x00, 0x61, 0x73, 0x6d, 1, 0, 0, 0, 0x01, 4, 1, 0x60, 0, 0, 0x03, 2, 1, 0,
    0x0a, Fin.ofNat _ (5 + leb.length), 1, Fin.ofNat _ (3 + leb.length), 1] ++ leb ++ [0x7f, 0x0b]

/-- Its payloads. -/
def localsPayloads (count : U32) (leb : List U8) : List Payload :=
  [.version, .typeSection 10 14 [.ok [.func [] []]], .functionSection 16 18 [.ok 0],
    .codeSectionStart 20 (25 + leb.length),
    .codeSectionEntry ⟨22, 25 + leb.length, .ok [.ok (count, "i32")], 24 + leb.length⟩]

/-- Two locals are within the bound. -/
theorem parse_bounded_iff_two :
    letI : Host := Host.ascii true
    letI : ModuleParser := ⟨fun _ => (localsPayloads 2 [2]).map .ok⟩
    ∃ model, parse (localsFile [2]) = .ok model ∧
      model.stored ≤ (localsFile [2]).length + ParseBudget.default.caps := by
  let : Host := Host.ascii true
  let : ModuleParser := ⟨fun _ => (localsPayloads 2 [2]).map .ok⟩
  obtain ⟨model, hmodel⟩ : ∃ model, parse (localsFile [2]) = .ok model := ⟨_, rfl⟩
  have hfile : InFile (localsFile [2]) (localsPayloads 2 [2]) := by
    rw [InFile]
    decide
  exact ⟨model, hmodel, (parse_bounded_iff hmodel hfile).2.mpr (by decide)⟩

/-- A file of thirty bytes with a local for each number of 32 bits but one. -/
theorem parse_not_bounded :
    letI : Host := Host.ascii true
    letI : ModuleParser :=
      ⟨fun _ => (localsPayloads 4294967295 [0xff, 0xff, 0xff, 0xff, 0x0f]).map .ok⟩
    ∃ model, parse (localsFile [0xff, 0xff, 0xff, 0xff, 0x0f]) = .ok model ∧
      ¬model.stored ≤
        (localsFile [0xff, 0xff, 0xff, 0xff, 0x0f]).length + ParseBudget.default.caps := by
  let : Host := Host.ascii true
  let : ModuleParser :=
    ⟨fun _ => (localsPayloads 4294967295 [0xff, 0xff, 0xff, 0xff, 0x0f]).map .ok⟩
  obtain ⟨model, hmodel⟩ : ∃ model,
      parse (localsFile [0xff, 0xff, 0xff, 0xff, 0x0f]) = .ok model := ⟨_, rfl⟩
  refine ⟨model, hmodel, ?_⟩
  rw [parse_stored hmodel]
  decide

end ReverseMcp.Wasm
