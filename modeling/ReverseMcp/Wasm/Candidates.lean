import Mathlib.Data.List.Dedup
import ReverseMcp.Rust.Collections
import ReverseMcp.Wasm.Parsing
import ReverseMcp.Wasm.Tables

/-!
# Candidates of an indirect call

A `WasmModule` is what a file says: its types, its functions with the imported ones first, and its
element segments.  At run time a `call_indirect` can invoke the functions of the table whose type
compares with the declared one.  Without a constant index the code reports the functions it finds in
the model: those that the module defines, under the declared type index itself, listed by their
indices (`mem_candidates_iff`).
-/

namespace ReverseMcp.Wasm

open Rust

/-- A module: its types, the type indices of its functions, and its element segments. -/
structure WasmModule where
  types : List CompositeType
  imports : List U32
  functions : List U32
  segments : List Segment

/-- The type index of a function; the imported ones come first. -/
def WasmModule.typeIndex (m : WasmModule) (f : U32) : Option U32 :=
  (m.imports ++ m.functions)[f.val]?

/-- A `call_indirect` of a declared type can invoke the function: it stands somewhere in the table,
and its type compares with the declared one. -/
def WasmModule.Invocable (m : WasmModule) (same : CompositeType → CompositeType → Prop)
    (tidx table_index f : U32) : Prop :=
  (∃ i, tableEntry table_index m.segments i = some (some f)) ∧
    ∃ t ty declared, m.typeIndex f = some t ∧ m.types[t.val]? = some ty ∧
      m.types[tidx.val]? = some declared ∧ same ty declared

/-- The file says this segment. -/
structure ElementType.Says (e : ElementType) (s : Segment) : Prop where
  passive : e.active = none → s.active = none
  active : ∀ t o, e.active = some (t, o) → ∃ start, s.active = some (t.getD 0, start)
  items : ∀ fs, e.functions = some fs → s.items = fs.map some

/-- The payloads of a valid file with this module. -/
structure Encodes (payloads : List Payload) (m : WasmModule) : Prop where
  types : payloads.flatMap Payload.types = m.types
  imports : payloads.flatMap Payload.importTypes = m.imports
  functions : payloads.flatMap Payload.declaredTypes = m.functions
  segments : List.Forall₂ ElementType.Says (payloads.flatMap Payload.elements) m.segments
  ordered : Ordered payloads
  index_space : m.imports.length + m.functions.length ≤ 2 ^ 32

section
variable [Host] [ModuleParser] {bytes : List U8} {budget : ParseBudget} {model : ModuleModel}
  {m : WasmModule}

/-- Of the parsed functions those with the declared type index are the defined ones that have it. -/
lemma mem_compatible_iff (hparse : parse_with_budget bytes budget = .ok model)
    (henc : Encodes (readItems (ModuleParser.parse_all bytes)) m) {tidx f : U32} :
    f ∈ compatible model tidx ↔ m.imports.length ≤ f.val ∧ m.typeIndex f = some tidx := by
  have hfunctions : model.functions.map (fun g => (g.index, g.type_index)) =
      m.functions.mapIdx fun i t => (asU32 (m.imports.length + i), t) := by
    have h := congrArg Skeleton.functions (parse_skeleton hparse henc.ordered)
    rw [expected, henc.imports, henc.functions] at h
    exact h
  have hmem : f ∈ compatible model tidx ↔
      (f, tidx) ∈ model.functions.map fun g => (g.index, g.type_index) := by
    simp only [compatible, List.mem_map, List.mem_filter, decide_eq_true_eq, Prod.mk.injEq]
    constructor
    · rintro ⟨g, ⟨hg, ht⟩, hf⟩
      exact ⟨g, hg, hf, ht⟩
    · rintro ⟨g, hg, hf, ht⟩
      exact ⟨g, ⟨hg, ht⟩, hf⟩
  rw [hmem, hfunctions, List.mem_mapIdx]
  constructor
  · rintro ⟨i, hi, heq⟩
    obtain ⟨hf, ht⟩ := Prod.mk.inj heq
    -- the indices of the defined functions go on behind the imports
    have hval : f.val = m.imports.length + i := by
      rw [← hf]
      exact Nat.mod_eq_of_lt (by have := henc.index_space; omega)
    refine ⟨by omega, ?_⟩
    rw [WasmModule.typeIndex, hval, List.getElem?_append_right (by omega), Nat.add_sub_cancel_left,
      List.getElem?_eq_getElem hi, ht]
  · rintro ⟨hle, htype⟩
    rw [WasmModule.typeIndex, List.getElem?_append_right hle] at htype
    obtain ⟨hi, ht⟩ := List.getElem?_eq_some_iff.mp htype
    refine ⟨f.val - m.imports.length, hi, Prod.ext (Fin.ext ?_) ht⟩
    show (m.imports.length + (f.val - m.imports.length)) % 2 ^ 32 = f.val
    rw [Nat.add_sub_cancel' hle]
    exact Nat.mod_eq_of_lt f.isLt

/-- What the code reports for a site without a constant index. -/
lemma mem_candidates_iff (hparse : parse_with_budget bytes budget = .ok model)
    (henc : Encodes (readItems (ModuleParser.parse_all bytes)) m)
    {const_indices : U64 → Option U64} {site : U64} (hidx : const_indices site = none)
    {tidx table_index f : U32} :
    f ∈ (resolveSite model const_indices site tidx table_index).targets ↔
      (∃ e ∈ (readItems (ModuleParser.parse_all bytes)).flatMap Payload.elements,
        e.listed.1 = table_index ∧ f ∈ e.listed.2) ∧
      m.imports.length ≤ f.val ∧ m.typeIndex f = some tidx := by
  have helements : model.elements.map (fun e => (e.table_index, e.func_indices)) =
      ((readItems (ModuleParser.parse_all bytes)).flatMap Payload.elements).map
        ElementType.listed :=
    congrArg Skeleton.elements (parse_skeleton hparse henc.ordered)
  have hlisted : f ∈ (segmentsOf model table_index).flatMap (·.func_indices) ↔
      ∃ p ∈ model.elements.map fun e => (e.table_index, e.func_indices),
        p.1 = table_index ∧ f ∈ p.2 := by
    simp [segmentsOf, and_assoc]
  rw [← mem_compatible_iff hparse henc]
  simp only [resolveSite, hidx, sortedSet]
  rw [(sortByKey_perm _ _).mem_iff, List.mem_dedup, List.mem_filter, decide_eq_true_eq,
    hlisted, helements]
  simp

/-- Without a constant index all functions that the call can invoke are reported exactly when the
module defines each of them, declares it with the type index of the call, and lists it by its
index. -/
theorem candidates_complete_iff (hparse : parse_with_budget bytes budget = .ok model)
    (henc : Encodes (readItems (ModuleParser.parse_all bytes)) m)
    (same : CompositeType → CompositeType → Prop) {const_indices : U64 → Option U64} {site : U64}
    (hidx : const_indices site = none) (tidx table_index : U32) :
    (∀ f, m.Invocable same tidx table_index f →
        ∀ r ∈ resolve_indirect model [(site, tidx, table_index)] const_indices, f ∈ r.targets) ↔
      ∀ f, m.Invocable same tidx table_index f →
        (∃ e ∈ (readItems (ModuleParser.parse_all bytes)).flatMap Payload.elements,
          e.listed.1 = table_index ∧ f ∈ e.listed.2) ∧
        m.imports.length ≤ f.val ∧ m.typeIndex f = some tidx := by
  simp only [resolve_indirect, List.map_cons, List.map_nil, List.mem_singleton, forall_eq,
    mem_candidates_iff hparse henc hidx]

end

/-- The payloads of a module with one type, with so many imported functions and two declared ones,
and an active segment for the front of table 0. -/
def samplePayloads (imported : ℕ) (listed : List U32) : List Payload :=
  [.typeSection 0 0 [.ok [.func [] []]],
    .importSection 0 0 (List.replicate imported (.ok ("env", "f", .func 0))),
    .functionSection 0 0 [.ok 0, .ok 0],
    .elementSection 0 0 [.ok ⟨some (none, some (.i32Const 0)), some listed⟩]]

/-- The module of these payloads. -/
def sampleModule (imported : ℕ) (listed : List U32) : WasmModule :=
  ⟨[.func [] []], List.replicate imported 0, [0, 0], [⟨some (0, 0), listed.map some⟩]⟩

/-- The header of a file. -/
def sampleBytes : List U8 := [0x00, 0x61, 0x73, 0x6d, 1, 0, 0, 0]

/-- Two functions that the module defines are both reported. -/
theorem candidates_complete_iff_defined :
    letI : Host := Host.ascii true
    letI : ModuleParser := ⟨fun _ => (samplePayloads 0 [0, 1]).map .ok⟩
    ∃ model, parse sampleBytes = .ok model ∧ ∀ f, (sampleModule 0 [0, 1]).Invocable Eq 0 0 f →
      ∀ r ∈ resolve_indirect model [(7, 0, 0)] (fun _ => none), f ∈ r.targets := by
  let : Host := Host.ascii true
  let : ModuleParser := ⟨fun _ => (samplePayloads 0 [0, 1]).map .ok⟩
  have hsays : ElementType.Says ⟨some (none, some (.i32Const 0)), some [0, 1]⟩
      ⟨some (0, 0), [some 0, some 1]⟩ := by
    refine ⟨nofun, fun t o h => ?_, fun fs h => ?_⟩
    · cases h
      exact ⟨0, rfl⟩
    · cases h
      rfl
  have hordered : Ordered (samplePayloads 0 [0, 1]) := by
    simp [Ordered, samplePayloads, Payload.isFunctionSection, Payload.isImportSection]
  have henc : Encodes (samplePayloads 0 [0, 1]) (sampleModule 0 [0, 1]) :=
    ⟨rfl, rfl, rfl, .cons hsays .nil, hordered, by decide⟩
  obtain ⟨model, hmodel⟩ : ∃ model, parse sampleBytes = .ok model := ⟨_, rfl⟩
  refine ⟨model, hmodel,
    (candidates_complete_iff (m := sampleModule 0 [0, 1]) hmodel henc Eq rfl 0 0).mpr ?_⟩
  rintro f ⟨⟨i, hi⟩, -⟩
  obtain ⟨b, hb, hat⟩ := (written_eq_some_iff.mp hi).mem
  have hmem : f ∈ [0, 1] := by
    obtain rfl : b = ⟨0, [some 0, some 1]⟩ := List.mem_singleton.mp hb
    rw [Block.at, if_pos (Nat.zero_le i)] at hat
    simpa using List.mem_of_getElem? hat
  refine ⟨⟨_, List.mem_singleton.mpr rfl, rfl, hmem⟩, Nat.zero_le _, ?_⟩
  rcases List.mem_pair.mp hmem with rfl | rfl <;> rfl

/-- An imported function in the table is not reported. -/
theorem candidates_not_complete :
    letI : Host := Host.ascii true
    letI : ModuleParser := ⟨fun _ => (samplePayloads 1 [0, 1]).map .ok⟩
    ∃ model, parse sampleBytes = .ok model ∧ (sampleModule 1 [0, 1]).Invocable Eq 0 0 0 ∧
      ∀ r ∈ resolve_indirect model [(7, 0, 0)] (fun _ => none), r.targets = [1] := by
  refine ⟨_, rfl, ⟨⟨0, by decide⟩, 0, .func [] [], .func [] [], rfl, rfl, rfl, rfl⟩, by decide⟩

end ReverseMcp.Wasm
