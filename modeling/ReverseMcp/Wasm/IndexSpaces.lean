import Mathlib.Data.List.Induction
import Mathlib.Data.List.Count
import ReverseMcp.Wasm.Tally

/-!
# Index spaces

A module has an index space for each of its functions, tables, memories and globals: the imports
first, then the definitions.  `parse_with_budget` numbers the declared functions behind the
functions imported so far, and the tables, memories and globals from zero in each section.  The
model has the indices of the format exactly where this comes to the same
(`parse_index_spaces_iff`).
-/

namespace ReverseMcp.Wasm

open Rust

/-- The imports of a kind. -/
def ModuleModel.importsOf (m : ModuleModel) (k : ExternalKind) : ℕ :=
  (m.imports.map (·.kind)).count k.text

/-- The indices of the entries of a kind, in order. -/
def ModuleModel.indices (m : ModuleModel) : ExternalKind → List U32
  | .func => m.functions.map (·.index)
  | .table => m.tables.map (·.index)
  | .memory => m.memories.map (·.index)
  | .global => m.globals.map (·.index)
  | .tag => []

/-- The entries are numbered one after the other from `n` on. -/
def Numbered (n : ℕ) (indices : List U32) : Prop :=
  indices.map Fin.val = List.range' n indices.length

/-- The definitions of a kind behind its imports: each has the number of imports and its position
as index, so an index selects the definition that it stands for. -/
structure IndexSpace (imports : ℕ) (indices : List U32) : Prop where
  numbered : Numbered imports indices
  selected : ∀ (i : U32) (j : ℕ),
    indices.findIdx? (fun index => index = i) = some j ↔ i.val = imports + j ∧ j < indices.length

/-- The imports of a kind that the payloads have. -/
def importsIn (k : ExternalKind) (payloads : List Payload) : ℕ :=
  (payloads.flatMap Payload.importKinds).count k

/-- The definitions of a kind that the payloads have. -/
def definitionsIn (k : ExternalKind) (payloads : List Payload) : ℕ :=
  (payloads.map fun p => p.definitions k).sum

/-- The imports of a kind that a section behind `front` numbers its entries behind: the functions
imported so far, and nothing of the other kinds. -/
def countedIn (k : ExternalKind) (front : List Payload) : ℕ :=
  match k with
  | .func => importsIn k front
  | _ => 0

/-- Where entries of a kind are defined, they are the first of the kind, every import of the kind
has been counted, and their indices fit into 32 bits. -/
def Aligned (k : ExternalKind) (payloads : List Payload) : Prop :=
  ∀ front p back, payloads = front ++ p :: back → p.definitions k ≠ 0 →
    definitionsIn k front = 0 ∧ countedIn k front = importsIn k payloads ∧
      importsIn k payloads + p.definitions k ≤ 2 ^ 32

/-! ## Numbered lists -/

lemma numbered_iff {n : ℕ} {indices : List U32} :
    Numbered n indices ↔ ∀ j (h : j < indices.length), (indices[j]).val = n + j := by
  rw [Numbered, List.ext_getElem_iff]
  simp

lemma Numbered.indexSpace {n : ℕ} {indices : List U32} (h : Numbered n indices) :
    IndexSpace n indices := by
  refine ⟨h, fun i j => ?_⟩
  rw [numbered_iff] at h
  rw [List.findIdx?_eq_some_iff_getElem]
  constructor
  · rintro ⟨hj, hi, -⟩
    have hval : indices[j] = i := of_decide_eq_true hi
    exact ⟨by rw [← hval, h j hj], hj⟩
  · rintro ⟨hi, hj⟩
    refine ⟨hj, decide_eq_true (Fin.ext (by rw [h j hj, hi])), fun l hl hli => ?_⟩
    have hval := congrArg Fin.val (of_decide_eq_true hli)
    rw [h l (hl.trans hj), hi] at hval
    omega

lemma numbered_append {n : ℕ} {xs ys : List U32} :
    Numbered n (xs ++ ys) ↔ Numbered n xs ∧ Numbered (n + xs.length) ys := by
  rw [Numbered, List.map_append, List.length_append, ← List.range'_append_1]
  exact ⟨fun h => List.append_inj h (by simp), fun ⟨hx, hy⟩ => by rw [hx, hy]⟩

@[simp]
lemma length_numbers (base : U32) (count : ℕ) : (numbers base count).length = count := by
  simp [numbers]

/-- New entries are numbered from `n` on when they start there, and the last of them fits. -/
lemma numbered_numbers_iff {n b k : ℕ} (hb : b ≤ n) :
    Numbered n (numbers (asU32 b) k) ↔ (k ≠ 0 → b = n ∧ n + k ≤ 2 ^ 32) := by
  have hval : ∀ j (h : j < (numbers (asU32 b) k).length),
      ((numbers (asU32 b) k)[j]).val = (b + j) % 2 ^ 32 := by
    intro j h
    simp only [numbers, List.getElem_map, List.getElem_range, ← asU32_add]
    rfl
  rw [numbered_iff]
  constructor
  · intro h hk
    have hfirst := h 0 (by rw [length_numbers]; omega)
    have hlast := h (k - 1) (by rw [length_numbers]; omega)
    rw [hval] at hfirst hlast
    omega
  · intro h j hj
    rw [length_numbers] at hj
    obtain ⟨rfl, hfit⟩ := h (by omega)
    rw [hval]
    omega

/-! ## The tallies -/

/-- The indices of the entries of a kind. -/
def Tally.indices (t : Tally) : ExternalKind → List U32
  | .func => t.functions
  | .table => t.tables
  | .memory => t.memories
  | .global => t.globals
  | .tag => []

/-- The tally of an empty model. -/
def Tally.start : Tally := ⟨0, 0, [], 0, [], [], 0, [], [], [], 0, 0⟩

lemma importsIn_append (k : ExternalKind) (ps qs : List Payload) :
    importsIn k (ps ++ qs) = importsIn k ps + importsIn k qs := by
  rw [importsIn, List.flatMap_append, List.count_append]
  rfl

lemma importsIn_concat (k : ExternalKind) (ps : List Payload) (p : Payload) :
    importsIn k (ps ++ [p]) = importsIn k ps + p.importKinds.count k := by
  simp [importsIn]

lemma definitionsIn_concat (k : ExternalKind) (ps : List Payload) (p : Payload) :
    definitionsIn k (ps ++ [p]) = definitionsIn k ps + p.definitions k := by
  simp [definitionsIn]

lemma text_injective : Function.Injective ExternalKind.text := by
  intro a b h
  cases a <;> cases b <;> first | rfl | exact absurd h (by decide)

lemma imports_fold (k : ExternalKind) (ps : List Payload) :
    (ps.foldl Tally.after .start).imports.count k.text = importsIn k ps := by
  induction ps using List.reverseRecOn with
  | nil => rfl
  | append_singleton ps p ih =>
    rw [List.foldl_append, List.foldl_cons, List.foldl_nil, importsIn_concat, ← ih]
    simp [Tally.after, List.count_append, List.count_map_of_injective _ _ text_injective]

lemma imported_functions_fold (ps : List Payload) :
    (ps.foldl Tally.after .start).imported_functions = asU32 (importsIn .func ps) := by
  induction ps using List.reverseRecOn with
  | nil => rfl
  | append_singleton ps p ih =>
    rw [List.foldl_append, List.foldl_cons, List.foldl_nil, importsIn_concat, asU32_add, ← ih]
    rfl

/-- A payload numbers the entries that it defines behind the imports counted so far. -/
lemma indices_fold_concat (k : ExternalKind) (ps : List Payload) (p : Payload) :
    ((ps ++ [p]).foldl Tally.after .start).indices k =
      (ps.foldl Tally.after .start).indices k ++
        numbers (asU32 (countedIn k ps)) (p.definitions k) := by
  rw [List.foldl_append, List.foldl_cons, List.foldl_nil]
  cases k with
  | func =>
    rw [countedIn, ← imported_functions_fold]
    rfl
  | tag => cases p <;> rfl
  | _ => rfl

lemma length_indices_fold (k : ExternalKind) (ps : List Payload) :
    ((ps.foldl Tally.after .start).indices k).length = definitionsIn k ps := by
  induction ps using List.reverseRecOn with
  | nil => cases k <;> rfl
  | append_singleton ps p ih =>
    rw [indices_fold_concat, List.length_append, ih, length_numbers, definitionsIn_concat]

lemma countedIn_le (k : ExternalKind) (front back : List Payload) :
    countedIn k front ≤ importsIn k (front ++ back) := by
  rw [importsIn_append]
  cases k with
  | func => exact Nat.le_add_right _ _
  | _ => exact Nat.zero_le _

/-- The entries are numbered from `n` on when those of each payload are. -/
lemma numbered_fold_iff {k : ExternalKind} {n : ℕ} {ps : List Payload}
    (hn : ∀ front back, ps = front ++ back → countedIn k front ≤ n) :
    Numbered n ((ps.foldl Tally.after .start).indices k) ↔
      ∀ front p back, ps = front ++ p :: back → p.definitions k ≠ 0 →
        countedIn k front = n + definitionsIn k front ∧
          n + definitionsIn k front + p.definitions k ≤ 2 ^ 32 := by
  induction ps using List.reverseRecOn with
  | nil =>
    refine ⟨fun _ front p back h => absurd h (by simp), fun _ => ?_⟩
    cases k <;> rfl
  | append_singleton ps q ih =>
    have hle : countedIn k ps ≤ n := hn ps [q] rfl
    rw [indices_fold_concat, numbered_append, length_indices_fold,
      ih fun front back h => hn front (back ++ [q]) (by rw [h, List.append_assoc]),
      numbered_numbers_iff (hle.trans (Nat.le_add_right _ _))]
    constructor
    · rintro ⟨hfront, hlast⟩ front p back h
      rcases List.eq_nil_or_concat back with rfl | ⟨back, q', rfl⟩
      · obtain ⟨rfl, hq⟩ := List.append_inj' h rfl
        obtain rfl := List.singleton_inj.mp hq
        exact hlast
      · rw [List.concat_eq_append, ← List.cons_append, ← List.append_assoc] at h
        exact hfront front p back (List.append_inj' h rfl).1
    · intro hall
      exact ⟨fun front p back h => hall front p (back ++ [q]) (by rw [h, List.append_assoc]; rfl),
        hall ps q [] rfl⟩

/-- The indices of a kind are those of the format exactly when its definitions are in place. -/
lemma numbered_importsIn_iff (k : ExternalKind) (ps : List Payload) :
    Numbered (importsIn k ps) ((ps.foldl Tally.after .start).indices k) ↔ Aligned k ps := by
  rw [numbered_fold_iff fun front back h => h ▸ countedIn_le k front back]
  refine forall_congr' fun front => forall_congr' fun p => forall_congr' fun back =>
    forall_congr' fun h => forall_congr' fun _ => ?_
  have hle : countedIn k front ≤ importsIn k ps := h ▸ countedIn_le k front (p :: back)
  omega

/-! ## The parsed module -/

section
variable [Host] [ModuleParser] {bytes : List U8} {budget : ParseBudget} {model : ModuleModel}

lemma parse_with_budget_tally (h : parse_with_budget bytes budget = .ok model) :
    ∃ bodies, tallyOf model model.imported_functions bodies =
      (readItems (ModuleParser.parse_all bytes)).foldl Tally.after .start := by
  obtain ⟨version, s, hs, rfl⟩ := parse_with_budget_eq_ok h
  exact ⟨s.defined_fn_cursor, run_tally hs⟩

/-- The functions, tables, memories and globals of a parsed module have the indices of the format,
and are selected by these, exactly when the definitions of each kind are in place: the tables, the
memories and the globals of a module that imports none of the kind, all in one section, and the
functions in one section behind the imports. -/
theorem parse_index_spaces_iff (h : parse bytes = .ok model) :
    (∀ k, IndexSpace (model.importsOf k) (model.indices k)) ↔
      ∀ k, Aligned k (readItems (ModuleParser.parse_all bytes)) := by
  obtain ⟨bodies, htally⟩ := parse_with_budget_tally h
  refine forall_congr' fun k => ?_
  have himports : model.importsOf k = importsIn k (readItems (ModuleParser.parse_all bytes)) := by
    rw [← imports_fold, ← htally]
    rfl
  have hindices : model.indices k =
      ((readItems (ModuleParser.parse_all bytes)).foldl Tally.after .start).indices k := by
    rw [← htally]
    cases k <;> rfl
  rw [← numbered_importsIn_iff, himports, hindices]
  exact ⟨IndexSpace.numbered, Numbered.indexSpace⟩

end

/-- What stands in front of the sections of a file. -/
def wasmHeader : List U8 := [0x00, 0x61, 0x73, 0x6d, 1, 0, 0, 0]

/-- The payloads of a module with an import of some type, a defined function and so many defined
globals. -/
def importingPayloads (ty : TypeRef) (globals : ℕ) : List Payload :=
  [.typeSection 0 0 [.ok [.func [] []]],
    .importSection 0 0 [.ok ("env", "x", ty)],
    .functionSection 0 0 [.ok 0],
    .globalSection 0 0 (List.replicate globals (.ok ⟨"i32", false, some (.i32Const 1), ""⟩))]

/-- A module that imports a function and defines a function and a global. -/
theorem parse_index_spaces_iff_function :
    letI : Host := Host.ascii true
    letI : ModuleParser := ⟨fun _ => (importingPayloads (.func 0) 1).map .ok⟩
    ∃ model, parse wasmHeader = .ok model ∧
      ((∀ k, IndexSpace (model.importsOf k) (model.indices k)) ↔
        ∀ k, Aligned k (importingPayloads (.func 0) 1)) := by
  let : Host := Host.ascii true
  let : ModuleParser := ⟨fun _ => (importingPayloads (.func 0) 1).map .ok⟩
  obtain ⟨model, hmodel⟩ : ∃ model, parse wasmHeader = .ok model := ⟨_, rfl⟩
  exact ⟨model, hmodel, parse_index_spaces_iff hmodel⟩

/-- The global behind an imported one gets the index of the imported one. -/
theorem parse_index_spaces_shifted :
    letI : Host := Host.ascii true
    letI : ModuleParser := ⟨fun _ => (importingPayloads .global 1).map .ok⟩
    ∃ model, parse wasmHeader = .ok model ∧ model.importsOf .global = 1 ∧
      model.indices .global = [0] ∧
      ¬∀ k, IndexSpace (model.importsOf k) (model.indices k) := by
  let : Host := Host.ascii true
  let : ModuleParser := ⟨fun _ => (importingPayloads .global 1).map .ok⟩
  obtain ⟨model, hmodel, himports, hindices⟩ : ∃ model, parse wasmHeader = .ok model ∧
      model.importsOf .global = 1 ∧ model.indices .global = [0] := ⟨_, rfl, rfl, rfl⟩
  refine ⟨model, hmodel, himports, hindices, fun h => ?_⟩
  have hnumbered := (h .global).numbered
  rw [himports, hindices, Numbered] at hnumbered
  exact absurd hnumbered (by decide)

end ReverseMcp.Wasm
