import ReverseMcp.Wasm.Calls
import ReverseMcp.Wasm.Overlay

/-!
# Tables and confirmed targets

What a table holds once the active element segments of its module have been applied, in order and
each over the ones before it, against the certainty of `resolve_indirect`.

A `Segment` is an element segment of a module, an `ElementSegment` what the model keeps of it: no
place for an offset that is not a constant, and no functions for items that are expressions.  With a
constant index the code takes the first segment over the index; the table has what the last one put
there (`confirmed_target_iff`).
-/

namespace ReverseMcp.Wasm

open Rust

/-- An element segment of a module: the table and the place of an active one, and its items; a null
reference is `none`. -/
structure Segment where
  active : Option (U32 × ℕ)
  items : List (Option U32)
deriving DecidableEq

/-- What a segment writes to a table. -/
def Segment.block (table_index : U32) (s : Segment) : Option (Block (Option U32)) :=
  match s.active with
  | some (t, start) => if t = table_index then some ⟨start, s.items⟩ else none
  | none => none

/-- The writes to a table, in the order of the segments. -/
def tableBlocks (table_index : U32) (segs : List Segment) : List (Block (Option U32)) :=
  segs.filterMap (Segment.block table_index)

/-- The entry of a table after the active segments have been applied. -/
def tableEntry (table_index : U32) (segs : List Segment) : ℕ → Option (Option U32) :=
  written (tableBlocks table_index segs)

/-- The model's view of a segment. -/
structure Describes (e : ElementSegment) (s : Segment) : Prop where
  place : ∀ o, e.offset = some o → s.active = some (e.table_index, o.val)
  table : ∀ t o, s.active = some (t, o) → e.table_index = t
  items : e.func_indices ≠ [] → s.items = e.func_indices.map some

/-- The segments of a model, where all of their offsets are constants and no items are
expressions. -/
def ModuleModel.segments (model : ModuleModel) : List Segment :=
  model.elements.map fun e =>
    ⟨e.offset.map fun o => (e.table_index, o.val), e.func_indices.map some⟩

/-- A model without unknown offsets describes its own segments. -/
lemma ModuleModel.describes_segments (model : ModuleModel) :
    List.Forall₂ Describes model.elements model.segments := by
  rw [ModuleModel.segments, List.forall₂_map_right_iff, List.forall₂_same]
  intro e _
  refine ⟨fun o ho => by simp [ho], fun t o h => ?_, fun _ => rfl⟩
  obtain ⟨o', -, ho'⟩ := Option.map_eq_some_iff.mp h
  exact congrArg Prod.fst ho'

/-- The function of a covering segment at the index. -/
def ElementSegment.target (s : ElementSegment) (idx : U64) : U32 :=
  s.func_indices.getD (idx.val - (s.offset.getD 0).val) 0

/-- The first function of the model with an index has the declared type. -/
def declaredWith (model : ModuleModel) (tidx f : U32) : Bool :=
  ((model.functions.find? fun g => g.index = f).map fun g => decide (g.type_index = tidx)).getD
  false

/-- The site is confirmed exactly with the function of the first covering segment, where this has
the declared type. -/
lemma confirmed_iff {model : ModuleModel} {const_indices : U64 → Option U64} {site : U64}
    {tidx table_index : U32} {idx : U64} (hidx : const_indices site = some idx) {t : U32} :
    (resolveSite model const_indices site tidx table_index).confidence = .confirmed ∧
        t ∈ (resolveSite model const_indices site tidx table_index).targets ↔
      ∃ s, (segmentsOf model table_index).find? (covers idx) = some s ∧ t = s.target idx ∧
        declaredWith model tidx t = true := by
  simp only [resolveSite, hidx]
  cases hfind : (segmentsOf model table_index).find? (covers idx) with
  | none => simp
  | some s =>
    simp only [Option.some.injEq, exists_eq_left']
    show (if declaredWith model tidx (s.target idx) = true then _ else _ :
      IndirectTarget).confidence
      = _ ∧ t ∈ (if declaredWith model tidx (s.target idx) = true then _ else _ :
        IndirectTarget).targets ↔ _
    split
    · rename_i htype
      simp only [true_and, List.mem_singleton]
      exact ⟨fun h => ⟨h, h ▸ htype⟩, And.left⟩
    · rename_i htype
      simp only [reduceCtorEq, false_and, false_iff, not_and]
      exact fun h => h ▸ htype

/-- A segment of the model over the index is a block over it, with the same function there. -/
lemma covering_block {model : ModuleModel} {segs : List Segment}
    (hsegs : List.Forall₂ Describes model.elements segs) {table_index : U32} {idx : U64}
    {e : ElementSegment} (he : e ∈ segmentsOf model table_index) (hcovers : covers idx e = true) :
    ∃ b ∈ tableBlocks table_index segs, b.at idx.val = some (some (e.target idx)) := by
  obtain ⟨he, htable⟩ := List.mem_filter.mp he
  obtain ⟨s, hs, hd⟩ : ∃ s ∈ segs, Describes e s := by
    obtain ⟨i, hi, rfl⟩ := List.mem_iff_getElem.mp he
    have hi' : i < segs.length := hsegs.length_eq ▸ hi
    exact ⟨segs[i], List.getElem_mem hi', hsegs.get hi hi'⟩
  rw [covers] at hcovers
  split at hcovers
  · rename_i o ho
    simp only [Bool.and_eq_true, decide_eq_true_eq] at hcovers
    obtain ⟨hle, hlt⟩ := hcovers
    have hne : e.func_indices ≠ [] := List.ne_nil_of_length_pos (by omega)
    refine ⟨⟨o.val, s.items⟩, List.mem_filterMap.mpr ⟨s, hs, ?_⟩, ?_⟩
    · -- a constant offset is the place of the segment
      rw [Segment.block, hd.place o ho]
      exact if_pos (by simpa using htable)
    · -- the items are the functions of the model, since it has some
      rw [Block.at, if_pos (Fin.le_def.mp hle), hd.items hne, List.getElem?_map,
        ElementSegment.target, ho, Option.getD_some, List.getD_eq_getElem?_getD,
        List.getElem?_eq_getElem hlt]
      rfl
  · cases hcovers

/-- With a constant index, what is confirmed is the entry of the table exactly when the last segment
over the index does not put anything else there than the first one of the model. -/
theorem confirmed_target_iff {model : ModuleModel} {segs : List Segment}
    (hsegs : List.Forall₂ Describes model.elements segs) {const_indices : U64 → Option U64}
    {site : U64} {tidx table_index : U32} {idx : U64} (hidx : const_indices site = some idx) :
    (∀ r ∈ resolve_indirect model [(site, tidx, table_index)] const_indices,
        r.confidence = .confirmed → ∀ t ∈ r.targets,
          tableEntry table_index segs idx.val = some (some t)) ↔
      ∀ s, (segmentsOf model table_index).find? (covers idx) = some s →
        declaredWith model tidx (s.target idx) = true →
          ∀ x, LastAt (tableBlocks table_index segs) idx.val x → x = some (s.target idx) := by
  simp only [resolve_indirect, List.map_cons, List.map_nil, List.mem_singleton,
    forall_eq, tableEntry]
  constructor
  · -- the confirmed function is the entry, and the entry is what was put there last
    intro h s hs htype x hx
    obtain ⟨hconf, ht⟩ := (confirmed_iff hidx).mpr ⟨s, hs, rfl, htype⟩
    have hentry := h hconf _ ht
    rw [written_eq_some_iff.mpr hx] at hentry
    exact Option.some.inj hentry
  · intro h hconf t ht
    obtain ⟨s, hs, rfl, htype⟩ := (confirmed_iff hidx).mp ⟨hconf, ht⟩
    obtain ⟨b, hb, hat⟩ := covering_block hsegs (List.mem_of_find?_eq_some hs)
      (List.find?_some hs)
    obtain ⟨x, hx⟩ := exists_lastAt hb (by rw [hat]; rfl)
    rw [← h s hs htype x hx]
    exact written_eq_some_iff.mpr hx

/-- A module with these segments, whose functions 0, 1 and 2 have type 0. -/
def ModuleModel.withTable (elements : List ElementSegment) : ModuleModel :=
  { ModuleModel.empty 1 with
    types := [⟨[], []⟩]
    functions := [⟨0, 0, 0, 0, [], none⟩, ⟨1, 0, 0, 0, [], none⟩, ⟨2, 0, 0, 0, [], none⟩]
    elements }

/-- A second segment that puts the same function over the place does no harm. -/
theorem confirmed_target_iff_overlap :
    let model := ModuleModel.withTable [⟨0, 0, some 0, [0, 1]⟩, ⟨1, 0, some 1, [1, 2]⟩]
    ∀ r ∈ resolve_indirect model [(7, 0, 0)] (fun _ => some 1), r.confidence = .confirmed →
      ∀ t ∈ r.targets, tableEntry 0 model.segments 1 = some (some t) := by
  intro model
  let const_indices : U64 → Option U64 := fun _ => some 1
  have hidx : const_indices 7 = some 1 := rfl
  refine (confirmed_target_iff model.describes_segments hidx).mpr ?_
  intro s hs _ x hx
  obtain rfl : s = ⟨0, 0, some 0, [0, 1]⟩ := (Option.some.inj hs).symm
  have hentry : written (tableBlocks 0 model.segments) 1 = some (some 1) := by decide
  rw [← written_eq_some_iff] at hx
  exact Option.some.inj (hx.symm.trans hentry)

/-- The second of two segments puts function 2 over function 1, and function 1 is confirmed. -/
theorem confirmed_target_not :
    let model := ModuleModel.withTable [⟨0, 0, some 0, [0, 1]⟩, ⟨1, 0, some 1, [2]⟩]
    (∃ r ∈ resolve_indirect model [(7, 0, 0)] (fun _ => some 1), r.confidence = .confirmed ∧
      r.targets = [1]) ∧ tableEntry 0 model.segments 1 = some (some 2) := by
  decide

end ReverseMcp.Wasm
