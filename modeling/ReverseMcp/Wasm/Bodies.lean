import Mathlib.Data.List.Forall2
import Mathlib.Data.List.Induction
import ReverseMcp.Wasm.Parsing
import ReverseMcp.Wasm.Decoder

/-!
# The bodies of a file

What the parsed model says about where the body of a function is (`parse_place`), and when two
ranges of a file can decode to the same operators: no encoding of an operator ends with another one
of the same operator, so that of two such ranges with the same end neither is longer
(`Reads.decoded_ne`).
-/

namespace ReverseMcp.Wasm

open Rust

/-- The function body of a payload. -/
def Payload.body : Payload → Option FunctionBody
  | .codeSectionEntry body => some body
  | _ => none

/-- The bytes of a file from one position to another. -/
def between (raw : List U8) (start stop : ℕ) : List U8 := (raw.take stop).drop start

/-- A range is cut in two. -/
lemma between_split {raw : List U8} {start middle stop : ℕ} (h : start ≤ middle)
    (h' : middle ≤ stop) :
    between raw start stop = between raw start middle ++ between raw middle stop := by
  have hfront : (between raw start stop).take (middle - start) = between raw start middle := by
    rw [between, between, ← List.drop_take, List.take_take, Nat.min_eq_left h']
  have hback : (between raw start stop).drop (middle - start) = between raw middle stop := by
    rw [between, between, List.drop_drop, Nat.add_sub_cancel' h]
  rw [← hfront, ← hback, List.take_append_drop]

lemma between_length {raw : List U8} {start stop : ℕ} (h : stop ≤ raw.length) :
    (between raw start stop).length = stop - start := by
  rw [between, List.length_drop, List.length_take, Nat.min_eq_left h]

/-! ## Where the model says that a body is -/

/-- The place of a function. -/
def FunctionEntry.place (f : FunctionEntry) : U64 × U64 := (f.code_offset, f.code_size)

/-- The place of a body. -/
def FunctionBody.place (f : FunctionBody) : U64 × U64 := (asU64 f.start, asU64 (f.stop - f.start))

namespace ParseState

/-- The places of the functions. -/
def places (s : ParseState) : List (U64 × U64) := s.model.functions.map FunctionEntry.place

/-- No place that is there changes, and no body is dealt with. -/
structure Extends (s s' : ParseState) : Prop where
  cursor : s'.defined_fn_cursor = s.defined_fn_cursor
  places : s.places <+: s'.places

variable {s s' : ParseState} {budget : ParseBudget}

lemma Extends.refl (s : ParseState) : Extends s s := ⟨rfl, List.prefix_refl _⟩

lemma Extends.trans {s'' : ParseState} (h : Extends s s') (h' : Extends s' s'') : Extends s s'' :=
  ⟨h'.cursor.trans h.cursor, h.places.trans h'.places⟩

/-- Most steps leave the functions alone. -/
lemma Extends.of_functions (h : s'.model.functions = s.model.functions)
    (hcursor : s'.defined_fn_cursor = s.defined_fn_cursor) : Extends s s' := by
  have hplaces : s'.places = s.places := congrArg (List.map FunctionEntry.place) h
  exact ⟨hcursor, hplaces ▸ List.prefix_refl _⟩

lemma extends_record_section (s : ParseState) (id : ℕ) (name : String) (start stop : ℕ) :
    Extends s (s.update fun m => record_section m id name start stop) := by
  refine .of_functions ?_ rfl
  simp only [update, record_section]
  split <;> rfl

/-- A section leaves the places alone when its items do. -/
lemma extends_eachItem {α : Type} {f : ℕ → α → ParseState → Outcome Error ParseState}
    {items : List (Except ReadError α)} {id : ℕ} {name : String} {start stop : ℕ}
    (h : eachItem f 0 items (s.update fun m => record_section m id name start stop) = .ok s')
    (hstep : ∀ i a c c', f i a c = .ok c' → Extends c c') : Extends s s' :=
  eachItem_invariant (I := fun _ c => Extends s c) h (extends_record_section s id name start stop)
    fun front a c c' hc hf => hc.trans (hstep front.length a c c' hf)

lemma extends_addType {ty : CompositeType} (h : s.addType budget ty = .ok s') : Extends s s' := by
  rw [addType] at h
  split at h
  · cases h
  · cases ty with
    | cont => cases h
    | func | struct | array =>
      cases h
      exact .of_functions rfl rfl

lemma extends_addGroup {tys : List CompositeType} (h : s.addGroup budget tys = .ok s') :
    Extends s s' := by
  induction tys generalizing s with
  | nil =>
    cases h
    exact .refl _
  | cons ty tys ih =>
    obtain ⟨c, hc, h⟩ := Outcome.bind_eq_ok.mp h
    exact (extends_addType hc).trans (ih h)

lemma extends_addImport [Host] {imp : String × String × TypeRef} (h : s.addImport imp = .ok s') :
    Extends s s' := by
  obtain ⟨module, name, ty⟩ := imp
  cases ty with
  | func t =>
    obtain ⟨c, -, h⟩ := Outcome.bind_eq_ok.mp h
    cases h
    exact .of_functions rfl rfl
  | _ =>
    cases h
    exact .of_functions rfl rfl

lemma extends_addFunction [Host] {i : ℕ} {t : U32} (h : s.addFunction budget i t = .ok s') :
    Extends s s' := by
  rw [addFunction] at h
  split at h
  · cases h
  · obtain ⟨index, -, h⟩ := Outcome.bind_eq_ok.mp h
    cases h
    refine ⟨rfl, ?_⟩
    rw [places, places, update, List.map_append]
    exact List.prefix_append _ _

lemma extends_addTable (s : ParseState) (i : ℕ) (t : TableType) : Extends s (s.addTable i t) := by
  rw [addTable]
  dsimp only
  split <;> exact .of_functions rfl rfl

lemma extends_addElement {i : ℕ} {e : ElementType} (h : s.addElement budget i e = .ok s') :
    Extends s s' := by
  rw [addElement] at h
  split at h
  · cases h
  · cases h
    exact .of_functions rfl rfl

lemma extends_addData {i : ℕ} {d : DataType} (h : s.addData budget i d = .ok s') :
    Extends s s' := by
  rw [addData] at h
  split at h
  · cases h
  · cases h
    exact .of_functions rfl rfl

lemma extends_addCustom (s : ParseState) (c : CustomSection) : Extends s (s.addCustom c) := by
  cases c with
  | name functions =>
    have hnames : ∀ fs : List FunctionEntry,
        (functions.foldl (fun fs item => setName item.1 item.2 fs) fs).map FunctionEntry.place =
          fs.map FunctionEntry.place := by
      induction functions with
      | nil => exact fun _ => rfl
      | cons item items ih => exact fun fs => (ih _).trans (map_setName (fun _ _ => rfl) _ _ _)
    have hplaces : (s.addCustom (.name functions)).places = s.places := hnames _
    exact ⟨rfl, hplaces ▸ List.prefix_refl _⟩
  | producers fields => cases fields <;> exact .of_functions rfl rfl
  | other name => exact .of_functions rfl rfl

/-- Only a body is put to a place. -/
lemma payload_extends [Host] {p : Payload} (hbody : p.body = none)
    (h : s.payload budget p = .ok s') :
    Extends s s' := by
  cases p with
  | codeSectionEntry body => cases hbody
  | typeSection start stop groups => exact extends_eachItem h fun _ _ _ _ hc => extends_addGroup hc
  | importSection start stop imports =>
    exact extends_eachItem h fun _ _ _ _ hc => extends_addImport hc
  | functionSection start stop types =>
    exact extends_eachItem h fun _ _ _ _ hc => extends_addFunction hc
  | elementSection start stop elements =>
    exact extends_eachItem h fun _ _ _ _ hc => extends_addElement hc
  | dataSection start stop datas => exact extends_eachItem h fun _ _ _ _ hc => extends_addData hc
  | tableSection start stop tables =>
    refine extends_eachItem h fun i t c c' hc => ?_
    cases hc
    exact extends_addTable c i t
  | memorySection start stop memories =>
    refine extends_eachItem h fun i m c c' hc => ?_
    cases hc
    exact .of_functions rfl rfl
  | globalSection start stop globals =>
    refine extends_eachItem h fun i g c c' hc => ?_
    cases hc
    exact .of_functions rfl rfl
  | exportSection start stop exports =>
    refine extends_eachItem h fun i e c c' hc => ?_
    cases hc
    exact .of_functions rfl rfl
  | codeSectionStart start stop =>
    cases h
    exact extends_record_section ..
  | tagSection start stop =>
    cases h
    exact (extends_record_section s 13 "tag" start stop).trans (.of_functions rfl rfl)
  | customSection section_ =>
    cases h
    exact extends_addCustom s section_
  | startSection func =>
    cases h
    exact .of_functions rfl rfl
  | version | other =>
    cases h
    exact .refl s

/-- A body is put to the place of the function at the cursor. -/
lemma places_addBody {body : FunctionBody} (h : s.addBody body = .ok s') :
    s.defined_fn_cursor < s.places.length ∧ s'.defined_fn_cursor = s.defined_fn_cursor + 1 ∧
      s'.places = s.places.set s.defined_fn_cursor body.place := by
  rw [addBody] at h
  split at h
  · cases h
  · rename_i entry hentry
    obtain ⟨items, -, h⟩ := Outcome.bind_eq_ok.mp h
    obtain ⟨local_types, -, h⟩ := Outcome.bind_eq_ok.mp h
    cases h
    obtain ⟨hlt, -⟩ := List.getElem?_eq_some_iff.mp hentry
    refine ⟨by rwa [places, List.length_map], rfl, ?_⟩
    rw [places, List.map_set, places]
    rfl

/-- The bodies dealt with are at their places, and the cursor is behind them. -/
structure Placed (bodies : List FunctionBody) (s : ParseState) : Prop where
  cursor : s.defined_fn_cursor = bodies.length
  place : ∀ (k : ℕ) (body : FunctionBody), bodies[k]? = some body → s.places[k]? = some body.place

lemma Placed.extends {bodies : List FunctionBody} (h : Placed bodies s) (hs : Extends s s') :
    Placed bodies s' := by
  refine ⟨hs.cursor.trans h.cursor, fun k body hk => ?_⟩
  obtain ⟨hlt, hplace⟩ := List.getElem?_eq_some_iff.mp (h.place k body hk)
  rw [List.prefix_iff_getElem?.mp hs.places k hlt, hplace]

lemma Placed.body {bodies : List FunctionBody} {body : FunctionBody} (h : Placed bodies s)
    (hs : s.addBody body = .ok s') : Placed (bodies ++ [body]) s' := by
  obtain ⟨hlt, hcursor, hplaces⟩ := places_addBody hs
  rw [h.cursor] at hlt hcursor hplaces
  refine ⟨by rw [hcursor, List.length_append, List.length_singleton], fun k b hk => ?_⟩
  rw [hplaces]
  rcases lt_or_ge k bodies.length with hfront | hback
  · -- a body from before is at another place
    rw [List.getElem?_append_left hfront] at hk
    rw [List.getElem?_set_ne hfront.ne']
    exact h.place k b hk
  · -- the new one is at the cursor
    rw [List.getElem?_append_right hback] at hk
    obtain ⟨hone, hb⟩ := List.getElem?_eq_some_iff.mp hk
    obtain rfl : k = bodies.length := by
      rw [List.length_singleton] at hone
      omega
    rw [List.getElem?_set_self hlt, ← hb]
    simp

end ParseState

/-- The bodies of a file, in order. -/
def bodiesOf [ModuleParser] (raw : List U8) : List FunctionBody :=
  (readItems (ModuleParser.parse_all raw)).filterMap Payload.body

/-- Every function of a parsed model that has a body has its place. -/
theorem parse_place [Host] [ModuleParser] {raw : List U8} {budget : ParseBudget}
    {model : ModuleModel}
    (h : parse_with_budget raw budget = .ok model) {k : ℕ} {body : FunctionBody}
    (hbody : (bodiesOf raw)[k]? = some body) {f : FunctionEntry}
    (hf : model.functions[k]? = some f) :
    f.place = body.place := by
  rw [parse_with_budget] at h
  split at h
  · cases h
  · obtain ⟨s, hs, h⟩ := Outcome.bind_eq_ok.mp h
    cases h
    -- over the payloads: a body is put to the cursor, every other payload leaves the places alone
    have hplaced : s.Placed (bodiesOf raw) :=
      run_invariant (I := fun done c => c.Placed (done.filterMap Payload.body)) hs
        ⟨rfl, fun k body hk => by cases hk⟩ fun front p back c c' _ hc hstep => by
          rw [List.filterMap_append]
          cases hp : p.body with
          | none =>
            simpa [hp] using hc.extends (ParseState.payload_extends hp hstep)
          | some b =>
            cases p with
            | codeSectionEntry body => exact hc.body hstep
            | _ => cases hp
    have hplace := hplaced.place k body hbody
    have hmap : s.places[k]? = some f.place := by
      rw [ParseState.places, List.getElem?_map]
      exact congrArg (Option.map FunctionEntry.place) hf
    exact Option.some.inj (hmap.symm.trans hplace)

/-! ## What decodes to the same operators -/

/-- What the analyses rely on in the parser: it reads the operators from the start of a slice, each
from its encoding, and no encoding of an operator ends with another one of the same operator. -/
structure Reads [Wasmparser] (encodes : Operator → List U8 → Prop) : Prop where
  split : ∀ bytes ops, (Wasmparser.operators bytes).decoded = some ops →
    ∃ cs, List.Forall₂ encodes ops cs ∧ cs.flatten = bytes
  suffix : ∀ op c d, encodes op c → encodes op (d ++ c) → d = []

section
variable {encodes : Operator → List U8 → Prop}

lemma forall₂_concat {ops : List Operator} {op : Operator} {cs : List (List U8)}
    (h : List.Forall₂ encodes (ops ++ [op]) cs) :
    ∃ cs' c, List.Forall₂ encodes ops cs' ∧ encodes op c ∧ cs = cs' ++ [c] := by
  induction ops generalizing cs with
  | nil =>
    obtain _ | ⟨hc, hnil⟩ := h
    cases hnil
    exact ⟨[], _, .nil, hc, rfl⟩
  | cons first ops ih =>
    obtain _ | ⟨hfirst, hrest⟩ := h
    obtain ⟨cs', c, hcs, hc, rfl⟩ := ih hrest
    exact ⟨_ :: cs', c, .cons hfirst hcs, hc, rfl⟩

/-- Two encodings of the same operators are the same, if one ends with the other. -/
lemma encoded_unique (hsuffix : ∀ op c d, encodes op c → encodes op (d ++ c) → d = [])
    {ops : List Operator} {cs ds : List (List U8)} {front : List U8}
    (hc : List.Forall₂ encodes ops cs) (hd : List.Forall₂ encodes ops ds)
    (heq : ds.flatten = front ++ cs.flatten) : front = [] := by
  induction ops using List.reverseRecOn generalizing cs ds with
  | nil =>
    cases hc
    cases hd
    simpa using heq
  | append_singleton ops op ih =>
    -- the last encodings end where the bytes end, so one of them ends with the other
    obtain ⟨cs, c, hcs, hcop, rfl⟩ := forall₂_concat hc
    obtain ⟨ds, d, hds, hdop, rfl⟩ := forall₂_concat hd
    simp only [List.flatten_append, List.flatten_singleton, ← List.append_assoc] at heq
    obtain rfl : d = c := by
      rcases List.append_eq_append_iff.mp heq with ⟨e, -, rfl⟩ | ⟨e, -, rfl⟩
      · rw [hsuffix op c e hcop hdop, List.nil_append]
      · rw [hsuffix op d e hdop hcop, List.nil_append]
    exact ih hcs hds (List.append_cancel_right heq)

/-- What decodes to some operators does not so with bytes in front of it. -/
lemma Reads.decoded_ne [Wasmparser] (h : Reads encodes) {front back : List U8} {ops : List Operator}
    (hfront : front ≠ []) (hback : (Wasmparser.operators back).decoded = some ops) :
    (Wasmparser.operators (front ++ back)).decoded ≠ some ops := by
  intro hboth
  obtain ⟨cs, hcs, rfl⟩ := h.split back ops hback
  obtain ⟨ds, hds, heq⟩ := h.split _ ops hboth
  exact hfront (encoded_unique h.suffix hcs hds heq)

end

/-- The decoder of the operators with at most one index reads them so. -/
lemma reads_basic :
    letI : Wasmparser := .basic
    Reads fun op c => readOperator c = some (op, []) :=
  let _ : Wasmparser := .basic
  ⟨fun _ _ h => readOperators_split (Nat.lt_succ_self _) h,
    fun _ _ _ h h' => readOperator_suffix h h'⟩

end ReverseMcp.Wasm
