import ReverseMcp.Wasm.Nesting
import ReverseMcp.Wasm.Pseudo

/-!
# Where the pseudocode comes from

`render` builds texts of other texts: an operator takes some off the stack, and prints or pushes
one in which they stand between texts of its own (`Shape`).  `Marked` is the state of `render` with
the number of the operator that wrote it at every piece of a text, at every line and at every text
on the stack.  Without the marks it is the state of `render` (`operator_erase`, `run_erase`).

No operator but `drop` makes a text disappear (`steps_appears`), and a text that is left on the
stack is nowhere else (`steps_sole`).
-/

namespace ReverseMcp.Wasm

open Rust

/-! ## What an operator writes -/

/-- A part of a text: one as it stands, or the one that is the `i`-th taken off the stack. -/
inductive Part where
  | lit (text : String)
  | taken (i : ℕ)
deriving DecidableEq

/-- What an operator takes off the stack, with the text in the place of one that is not there, the
line that it prints and the text that it pushes. -/
structure Shape where
  takes : ℕ := 0
  otherwise : String := ""
  printed : Option (List Part) := none
  pushed : Option (List Part) := none

/-- Texts one behind the other. -/
def joined (texts : List ℕ) : List Part := (texts.map Part.taken).intersperse (.lit ", ")

/-- The shape of an assignment. -/
def setShape (name : String) : Shape :=
  { takes := 1, printed := some [.lit s!"{name} = ", .taken 0, .lit ";"] }

/-- The shape of a load. -/
def loadShape (width : ℕ) (memarg : MemArg) : Shape where
  takes := 1
  pushed :=
    some [.lit s!"*({widthName width}*)(mem+", .taken 0, .lit s!"+{memarg.offset.val})"]

/-- The shape of a store. -/
def storeShape (width : ℕ) (memarg : MemArg) : Shape where
  takes := 2
  printed :=
    some [.lit s!"*({widthName width}*)(mem+", .taken 1, .lit s!"+{memarg.offset.val}) = ",
      .taken 0, .lit ";"]

/-- The shape of an operator with two operands. -/
def binopShape (sym : String) : Shape where
  takes := 2
  pushed := some [.lit "(", .taken 1, .lit s!" {sym} ", .taken 0, .lit ")"]

/-- The shape of `call`: the arguments are on the stack with the last one on top. -/
def callShape (model : ModuleModel) (f : U32) : Shape :=
  let callee_ty := model.calleeType f
  let n_args := (callee_ty.map (·.params.length)).getD 0
  let call : List Part :=
    .lit (model.calleeName f ++ "(") :: (joined (List.range n_args).reverse ++ [.lit ")"])
  if (callee_ty.map fun t => !t.results.isEmpty).getD false then
    { takes := n_args, otherwise := "<arg>", pushed := some call }
  else { takes := n_args, otherwise := "<arg>", printed := some (call ++ [.lit ";"]) }

/-- The shape of `return` in a function with `n` results, with a stack of the height. -/
def returnShape (n height : ℕ) : Shape :=
  if n > 0 then
    { takes := min n height
      printed := some (.lit "return " :: (joined (List.range (min n height)) ++ [.lit ";"])) }
  else { printed := some [.lit "return;"] }

/-- The shape of an operator, with a stack of the height. -/
def Operator.shape (model : ModuleModel) (cfg : StructuredCfg) (params results : ℕ) (pos : U64)
    (height : ℕ) : Operator → Shape
  | i32Const value => { pushed := some [.lit s!"{value.toInt}"] }
  | i64Const value => { pushed := some [.lit s!"{value.toInt}L"] }
  | localGet i => { pushed := some [.lit (localName params i)] }
  | localSet i => setShape (localName params i)
  | localTee i =>
    { setShape (localName params i) with pushed := some [.lit (localName params i)] }
  | globalGet i => { pushed := some [.lit s!"g{i.val}"] }
  | globalSet i => setShape s!"g{i.val}"
  | i32Load memarg => loadShape 4 memarg
  | i64Load memarg => loadShape 8 memarg
  | i32Store memarg => storeShape 4 memarg
  | i64Store memarg => storeShape 8 memarg
  | i32Arith op => binopShape op.symbol
  | i32Eqz => { takes := 1, pushed := some [.lit "(", .taken 0, .lit " == 0)"] }
  | i32Compare op => binopShape op.symbol
  | block _ => { printed := some [.lit s!"\x7b // block @ {hex pos}"] }
  | loop _ => { printed := some [.lit s!"do \x7b // loop @ {hex pos}"] }
  | if_ _ =>
    { takes := 1
      otherwise := "<cond>"
      printed := some [.lit "if (", .taken 0, .lit s!") \x7b // if @ {hex pos}"] }
  | else_ => { printed := some [.lit "\x7d else \x7b"] }
  | br depth => { printed := some [.lit s!"goto label_m{depth.val}; // br @ {hex pos}"] }
  | brIf depth =>
    { takes := 1
      otherwise := "<cond>"
      printed := some [.lit "if (", .taken 0,
        .lit s!") goto label_m{depth.val}; // br_if @ {hex pos}"] }
  | brTable _ _ =>
    let targets := ((cfg.br_tables.find? fun t => t.1 = pos).map (·.2.length)).getD 0
    { printed := some [.lit
        s!"switch (<idx>) \x7b /* br_table @ {hex pos}: {targets} labeled targets */ \x7d"] }
  | call f => callShape model f
  | callIndirect type_index table_index =>
    { takes := 1
      pushed := some [.lit s!"table{table_index.val}[", .taken 0,
        .lit (s!"] /* type {type_index.val}; " ++ "targets: indirect_targets */")] }
  | return_ => returnShape results height
  | unreachable => { printed := some [.lit "unreachable;"] }
  | drop => { takes := 1 }
  | end_ => { printed := some [.lit "\x7d"] }
  | _ => { printed := some [.lit s!"/* opaque op @ {hex pos} */"] }

/-- The line stands one less deep. -/
def Operator.dedents : Operator → Bool
  | else_ | end_ => true
  | _ => false

/-- What comes next stands one deeper than the line. -/
def Operator.indents : Operator → Bool
  | block _ | loop _ | if_ _ | else_ => true
  | _ => false

/-! ## Texts with their origins -/

/-- A piece of a text, with the number of the operator that wrote it. -/
abbrev Piece : Type := ℕ × String

/-- The text of pieces. -/
def textOf (pieces : List Piece) : String := String.join (pieces.map Prod.snd)

/-- A line, with the number of the operator that printed it. -/
structure Line where
  writer : ℕ
  depth : ℕ
  pieces : List Piece

/-- The line as it stands in the output. -/
def Line.print (l : Line) : String :=
  String.join (List.replicate l.depth "  ") ++ textOf l.pieces ++ "\n"

/-- A text on the stack, with the number of the operator that pushed it. -/
structure StackText where
  writer : ℕ
  pieces : List Piece

/-- The variables of `render` with the origins of their texts. -/
structure Marked where
  lines : List Line
  indent : ℕ
  estack : List StackText

namespace Shape

/-- The `i`-th text that is taken off the stack by the `n`-th operator. -/
def takenAt (shape : Shape) (n : ℕ) (estack : List StackText) (i : ℕ) : List Piece :=
  (estack[i]?.map StackText.pieces).getD [(n, shape.otherwise)]

/-- Parts filled in by the `n`-th operator. -/
def fill (shape : Shape) (n : ℕ) (estack : List StackText) (parts : List Part) : List Piece :=
  parts.flatMap fun
    | .lit text => [(n, text)]
    | .taken i => shape.takenAt n estack i

end Shape

namespace Marked

/-- The state without the marks, behind what has been printed before. -/
def erase (front : String) (s : Marked) : Render :=
  ⟨front ++ String.join (s.lines.map Line.print), s.indent,
    s.estack.map fun e => textOf e.pieces⟩

/-- The `end` of the function, which is the `n`-th operator. -/
def close (s : Marked) (n : ℕ) : Marked :=
  { s with lines := s.lines ++ [⟨n, 0, [(n, "\x7d")]⟩] }

section
variable (model : ModuleModel) (cfg : StructuredCfg) (params results : ℕ)

/-- The `n`-th operator, other than the last `end`. -/
def operator (s : Marked) (n : ℕ) (pos : U64) (op : Operator) : Marked :=
  let shape := op.shape model cfg params results pos s.estack.length
  let depth := if op.dedents then s.indent - 1 else s.indent
  let fill := shape.fill n s.estack
  { lines := s.lines ++ (shape.printed.map fun parts => Line.mk n depth (fill parts)).toList
    indent := if op.indents then depth + 1 else depth
    estack := (shape.pushed.map fun parts => StackText.mk n (fill parts)).toList ++
      s.estack.drop shape.takes }

/-- The loop of `render`, from the `n`-th operator on. -/
def run : ℕ → List (U64 × Operator) → Marked → Marked
  | _, [], s => s
  | n, (pos, op) :: ops, s =>
    if op = .end_ ∧ s.indent ≤ 1 then s.close n
    else run (n + 1) ops (s.operator model cfg params results n pos op)

end

end Marked

/-! ## Without the marks -/

namespace Shape

variable (shape : Shape) (n : ℕ) (estack : List StackText)

end Shape

namespace Marked

variable {model : ModuleModel} {cfg : StructuredCfg} {params results : ℕ} (front : String)
  (s : Marked) (n : ℕ)

end Marked

/-! ## What an operator writes is there -/

/-- The operator writes the parts, on its line or on the stack. -/
def Shape.Writes (shape : Shape) (parts : List Part) : Prop :=
  shape.printed = some parts ∨ shape.pushed = some parts

/-- What is taken off the stack is written, and so is a text of the operator's own. -/
structure Shape.Complete (shape : Shape) : Prop where
  taken_lt : ∀ parts, shape.Writes parts → ∀ i, .taken i ∈ parts → i < shape.takes
  uses : ∀ i < shape.takes, ∃ parts, shape.Writes parts ∧ .taken i ∈ parts
  speaks : ∃ parts text, shape.Writes parts ∧ .lit text ∈ parts ∧ text ≠ ""

lemma taken_mem_joined {texts : List ℕ} {i : ℕ} : .taken i ∈ joined texts ↔ i ∈ texts := by
  induction texts with
  | nil => simp [joined]
  | cons j texts ih =>
    cases texts with
    | nil => simp [joined]
    | cons k texts =>
      have hjoined : joined (j :: k :: texts) = .taken j :: .lit ", " :: joined (k :: texts) := rfl
      rw [hjoined]
      simp [ih]

lemma append_ne_empty (front : String) {back : String} (h : back ≠ "") : front ++ back ≠ "" :=
  fun hempty => h (String.append_eq_empty_iff.mp hempty).2

namespace Shape.Complete

variable {shape : Shape} {parts : List Part}

/-- An operator that writes one text, with all that it takes and a part of its own in it. -/
lemma of_writes (text : String)
    (hshape : (shape.printed = some parts ∧ shape.pushed = none) ∨
      (shape.printed = none ∧ shape.pushed = some parts))
    (htaken : ∀ i, .taken i ∈ parts ↔ i < shape.takes) (hlit : .lit text ∈ parts)
    (htext : text ≠ "") : shape.Complete := by
  have hwrites (parts' : List Part) : shape.Writes parts' ↔ parts' = parts := by
    obtain ⟨hp, hq⟩ | ⟨hp, hq⟩ := hshape
    · simp [Writes, hp, hq, eq_comm]
    · simp [Writes, hp, hq, eq_comm]
  refine ⟨fun parts' h i hi => ?_, fun i hi => ?_, ?_⟩
  · rw [(hwrites parts').mp h] at hi
    exact (htaken i).mp hi
  · exact ⟨parts, (hwrites parts).mpr rfl, (htaken i).mpr hi⟩
  · exact ⟨parts, text, (hwrites parts).mpr rfl, hlit, htext⟩

lemma pushes {text : String} (htext : text ≠ "") : Complete { pushed := some [.lit text] } :=
  of_writes _ (.inr ⟨rfl, rfl⟩) (by simp) (by simp) htext

lemma prints {text : String} (htext : text ≠ "") : Complete { printed := some [.lit text] } :=
  of_writes _ (.inl ⟨rfl, rfl⟩) (by simp) (by simp) htext

/-- One text between two others. -/
lemma printsWrapped {otherwise front back : String} (hfront : front ≠ "") :
    Complete { takes := 1, otherwise := otherwise,
               printed := some [.lit front, .taken 0, .lit back] } :=
  of_writes _ (.inl ⟨rfl, rfl⟩) (by simp) (by simp) hfront

lemma pushesWrapped {otherwise front back : String} (hfront : front ≠ "") :
    Complete { takes := 1, otherwise := otherwise,
               pushed := some [.lit front, .taken 0, .lit back] } :=
  of_writes _ (.inr ⟨rfl, rfl⟩) (by simp) (by simp) hfront

lemma store (width : ℕ) (memarg : MemArg) : (storeShape width memarg).Complete :=
  of_writes ";" (.inl ⟨rfl, rfl⟩) (by simp [storeShape]; omega) (by simp) (by decide)

lemma binop (sym : String) : (binopShape sym).Complete :=
  of_writes ")" (.inr ⟨rfl, rfl⟩) (by simp [binopShape]; omega) (by simp) (by decide)

lemma tee (name : String) :
    Complete { setShape name with pushed := some [.lit name] } where
  taken_lt := by
    rintro parts (hparts | hparts) i hi <;> cases hparts
    · simpa [setShape] using hi
    · simp at hi
  uses := by simp [Writes, setShape]
  speaks := ⟨_, ";", .inl rfl, by simp, by decide⟩

lemma call (model : ModuleModel) (f : U32) : (callShape model f).Complete := by
  rw [callShape]
  split
  · exact of_writes ")" (.inr ⟨rfl, rfl⟩) (by simp [taken_mem_joined]) (by simp) (by decide)
  · exact of_writes ")" (.inl ⟨rfl, rfl⟩) (by simp [taken_mem_joined]) (by simp) (by decide)

lemma ret (results height : ℕ) : (returnShape results height).Complete := by
  rw [returnShape]
  split
  · exact of_writes ";" (.inl ⟨rfl, rfl⟩) (by simp [taken_mem_joined]) (by simp) (by decide)
  · exact prints (by decide)

end Shape.Complete

lemma localName_ne_empty (params : ℕ) (i : U32) : localName params i ≠ "" := by
  rw [localName]
  split
  · exact append_ne_empty "a" Nat.repr_ne_empty
  · exact append_ne_empty "l" Nat.repr_ne_empty

lemma hex_ne_empty (pos : U64) : hex pos ≠ "" := by
  intro h
  have hlist := congrArg String.toList h
  rw [hex, String.toList_ofList] at hlist
  cases hlist

lemma toString_int_ne_empty (x : ℤ) : toString x ≠ "" := by
  cases x with
  | ofNat n => exact Nat.repr_ne_empty
  | negSucc n => exact append_ne_empty "-" Nat.repr_ne_empty

/-- Every operator but `drop` writes what it takes. -/
lemma Operator.shape_complete (model : ModuleModel) (cfg : StructuredCfg) (params results : ℕ)
    (pos : U64) (height : ℕ) {op : Operator} (hop : op ≠ .drop) :
    (op.shape model cfg params results pos height).Complete := by
  cases op with
  | i32Const value => exact .pushes (toString_int_ne_empty _)
  | i64Const value => exact .pushes (append_ne_empty _ (by decide))
  | localGet i => exact .pushes (localName_ne_empty params i)
  | globalGet i => exact .pushes (append_ne_empty "g" Nat.repr_ne_empty)
  | localSet | globalSet => exact .printsWrapped (append_ne_empty _ (by decide))
  | localTee i => exact .tee _
  | i32Load | i64Load => exact .pushesWrapped (append_ne_empty _ (by decide))
  | i32Store memarg => exact .store 4 memarg
  | i64Store memarg => exact .store 8 memarg
  | i32Arith op => exact .binop _
  | i32Compare op => exact .binop _
  | i32Eqz => exact .pushesWrapped (by decide)
  | callIndirect => exact .pushesWrapped (append_ne_empty _ (by decide))
  | block | loop | br => exact .prints (append_ne_empty _ (hex_ne_empty pos))
  | unreachable | else_ | end_ => exact .prints (by decide)
  | brTable => exact .prints (append_ne_empty _ (by decide))
  | if_ | brIf => exact .printsWrapped (by decide)
  | call f => exact .call model f
  | return_ => exact .ret results height
  | f32Const | f64Const | returnCall | returnCallIndirect | try_ | tryTable | other =>
    exact .prints (append_ne_empty _ (by decide))
  | drop => exact absurd rfl hop

/-- No other operator than `local.tee` both prints and pushes. -/
lemma Operator.prints_or_pushes (model : ModuleModel) (cfg : StructuredCfg) (params results : ℕ)
    (pos : U64) (height : ℕ) {op : Operator} (hop : ∀ i, op ≠ .localTee i) :
    (op.shape model cfg params results pos height).printed = none ∨
      (op.shape model cfg params results pos height).pushed = none := by
  cases op with
  | localTee i => exact absurd rfl (hop i)
  | call f =>
    show (callShape model f).printed = none ∨ (callShape model f).pushed = none
    rw [callShape]
    split
    · exact .inl rfl
    · exact .inr rfl
  | return_ =>
    show (returnShape results height).printed = none ∨ (returnShape results height).pushed = none
    rw [returnShape]
    split
    · exact .inr rfl
    · exact .inr rfl
  | i32Const | i64Const | localGet | globalGet | i32Load | i64Load | i32Arith | i32Compare | i32Eqz
  | callIndirect | drop => exact .inl rfl
  | _ => exact .inr rfl

/-! ## Who wrote what -/

/-- The shape of an operator that can write a piece with this text. -/
def Shape.Own (shape : Shape) (text : String) : Prop :=
  ∃ parts, shape.Writes parts ∧ (text = shape.otherwise ∨ .lit text ∈ parts)

/-- There is text of the `m`-th operator among the pieces. -/
def Carries (pieces : List Piece) (m : ℕ) : Prop := ∃ p ∈ pieces, p.1 = m ∧ p.2 ≠ ""

/-- There is text of the `m`-th operator in the output. -/
def Shown (lines : List Line) (m : ℕ) : Prop := ∃ l ∈ lines, Carries l.pieces m

namespace Shape

variable {shape : Shape} {n m i : ℕ} {estack : List StackText} {parts : List Part} {p : Piece}

lemma mem_takenAt (h : p ∈ shape.takenAt n estack i) :
    p = (n, shape.otherwise) ∨ ∃ e, estack[i]? = some e ∧ p ∈ e.pieces := by
  rw [takenAt] at h
  cases he : estack[i]? with
  | none =>
    rw [he] at h
    exact .inl (List.mem_singleton.mp h)
  | some e =>
    rw [he] at h
    exact .inr ⟨e, rfl, h⟩

/-- A piece of what is written is the operator's own or of a text that is taken. -/
lemma mem_fill (h : p ∈ shape.fill n estack parts) :
    (p.1 = n ∧ (p.2 = shape.otherwise ∨ .lit p.2 ∈ parts)) ∨
      ∃ i e, .taken i ∈ parts ∧ estack[i]? = some e ∧ p ∈ e.pieces := by
  obtain ⟨part, hpart, hp⟩ := List.mem_flatMap.mp h
  cases part with
  | lit text =>
    rw [List.mem_singleton.mp hp]
    exact .inl ⟨rfl, .inr hpart⟩
  | taken i =>
    obtain rfl | ⟨e, he, hp⟩ := mem_takenAt hp
    · exact .inl ⟨rfl, .inl rfl⟩
    · exact .inr ⟨i, e, hpart, he, hp⟩

lemma fill_carries_lit (text : String) (h : .lit text ∈ parts) (htext : text ≠ "") :
    Carries (shape.fill n estack parts) n :=
  ⟨(n, text), List.mem_flatMap.mpr ⟨_, h, List.mem_singleton_self _⟩, rfl, htext⟩

end Shape

namespace Marked

variable {model : ModuleModel} {cfg : StructuredCfg} {params results : ℕ} {s : Marked} {n m : ℕ}
  {pos : U64} {op : Operator} {p : Piece}

/-- The piece stands in a line or in a text on the stack. -/
def Holds (s : Marked) (p : Piece) : Prop :=
  (∃ l ∈ s.lines, p ∈ l.pieces) ∨ ∃ e ∈ s.estack, p ∈ e.pieces

/-- What an operator does to the lines. -/
lemma mem_operator_lines {l : Line} :
    l ∈ (s.operator model cfg params results n pos op).lines ↔ l ∈ s.lines ∨
      ∃ parts, (op.shape model cfg params results pos s.estack.length).printed = some parts ∧
        ⟨n, if op.dedents then s.indent - 1 else s.indent,
          (op.shape model cfg params results pos s.estack.length).fill n s.estack parts⟩ = l := by
  simp only [operator, List.mem_append, Option.mem_toList, Option.map_eq_some_iff]

/-- What an operator does to the stack. -/
lemma mem_operator_estack {e : StackText} :
    e ∈ (s.operator model cfg params results n pos op).estack ↔
      (∃ parts, (op.shape model cfg params results pos s.estack.length).pushed = some parts ∧
        ⟨n, (op.shape model cfg params results pos s.estack.length).fill n s.estack parts⟩ = e) ∨
      e ∈ s.estack.drop (op.shape model cfg params results pos s.estack.length).takes := by
  simp only [operator, List.mem_append, Option.mem_toList, Option.map_eq_some_iff]

/-- A piece that is there behind an operator was there before it, or it is the operator's own. -/
lemma holds_operator (h : (s.operator model cfg params results n pos op).Holds p) :
    s.Holds p ∨
      (p.1 = n ∧ (op.shape model cfg params results pos s.estack.length).Own p.2) := by
  have hfill {parts : List Part}
      (hparts : (op.shape model cfg params results pos s.estack.length).Writes parts)
      (hp : p ∈ (op.shape model cfg params results pos s.estack.length).fill n s.estack parts) :
      s.Holds p ∨
        (p.1 = n ∧ (op.shape model cfg params results pos s.estack.length).Own p.2) := by
    obtain ⟨hn, hown⟩ | ⟨i, e, -, he, hp⟩ := Shape.mem_fill hp
    · exact .inr ⟨hn, parts, hparts, hown⟩
    · exact .inl (.inr ⟨e, List.mem_of_getElem? he, hp⟩)
  obtain ⟨l, hl, hp⟩ | ⟨e, he, hp⟩ := h
  · obtain hl | ⟨parts, hparts, rfl⟩ := mem_operator_lines.mp hl
    · exact .inl (.inl ⟨l, hl, hp⟩)
    · exact hfill (.inl hparts) hp
  · obtain ⟨parts, hparts, rfl⟩ | he := mem_operator_estack.mp he
    · exact hfill (.inr hparts) hp
    · exact .inl (.inr ⟨e, List.mem_of_mem_drop he, hp⟩)

/-- What has been printed stays printed. -/
lemma operator_shown (h : Shown s.lines m) :
    Shown (s.operator model cfg params results n pos op).lines m := by
  obtain ⟨l, hl, hm⟩ := h
  exact ⟨l, mem_operator_lines.mpr (.inl hl), hm⟩

section
variable (model : ModuleModel) (cfg : StructuredCfg) (params results : ℕ)

/-- Operators one after the other, from the `n`-th on. -/
def steps : ℕ → List (U64 × Operator) → Marked → Marked
  | _, [], s => s
  | n, (pos, op) :: ops, s =>
    steps (n + 1) ops (s.operator model cfg params results n pos op)

end

/-- The texts that a `local.tee` has pushed are its own, and it has been printed. -/
def TeesShown (tee : ℕ → Prop) (s : Marked) : Prop :=
  ∀ e ∈ s.estack, tee e.writer → Shown s.lines e.writer ∧ ∀ p ∈ e.pieces, p.1 = e.writer

lemma TeesShown.operator {tee : ℕ → Prop} (htee : tee n → ∃ i, op = .localTee i)
    (h : s.TeesShown tee) : (s.operator model cfg params results n pos op).TeesShown tee := by
  intro e he hte
  obtain ⟨parts, hparts, rfl⟩ | he := mem_operator_estack.mp he
  · obtain ⟨i, rfl⟩ := htee hte
    cases hparts
    refine ⟨⟨_, mem_operator_lines.mpr (.inr ⟨_, rfl, rfl⟩), ?_⟩, fun p hp => ?_⟩
    · exact Shape.fill_carries_lit ";" (by simp) (by decide)
    · rw [List.mem_singleton.mp hp]
  · obtain ⟨hshown, hown⟩ := h e (List.mem_of_mem_drop he) hte
    exact ⟨operator_shown hshown, hown⟩

/-- The text that an operator other than `local.tee` has pushed is nowhere else. -/
structure Sole (tee : ℕ → Prop) (n : ℕ) (s : Marked) : Prop where
  lt : ∀ p, s.Holds p → p.1 < n
  below : ∀ e ∈ s.estack, e.writer < n
  nodup : (s.estack.map StackText.writer).Nodup
  lines : ∀ e ∈ s.estack, ¬tee e.writer → ∀ l ∈ s.lines, ∀ p ∈ l.pieces, p.1 ≠ e.writer
  estack : ∀ e ∈ s.estack, ¬tee e.writer → ∀ e' ∈ s.estack, ∀ p ∈ e'.pieces,
    p.1 = e.writer → e'.writer = e.writer

namespace Sole

variable {tee : ℕ → Prop} {e e' : StackText} {k i : ℕ}

/-- A text that stays on the stack was pushed by another operator than one that is taken. -/
lemma taken_ne (h : Sole tee n s) (he : e ∈ s.estack.drop k) (hi : s.estack[i]? = some e')
    (hk : i < k) : e'.writer ≠ e.writer := by
  obtain ⟨j, hj⟩ := List.mem_iff_getElem?.mp he
  rw [List.getElem?_drop] at hj
  intro heq
  have hi' : (s.estack.map StackText.writer)[i]? = some e.writer := by
    rw [List.getElem?_map, hi, Option.map_some, heq]
  have hj' : (s.estack.map StackText.writer)[k + j]? = some e.writer := by
    rw [List.getElem?_map, hj, Option.map_some]
  have hlt : i < (s.estack.map StackText.writer).length := (List.getElem?_eq_some_iff.mp hi').1
  exact absurd ((List.getElem?_inj hlt h.nodup).mp (hi'.trans hj'.symm)) (by omega)

/-- What an operator writes has no text of an operator whose text stays on the stack. -/
lemma fill_ne (h : Sole tee n s) {shape : Shape} {parts : List Part}
    (htaken : ∀ i, .taken i ∈ parts → i < k) (he : e ∈ s.estack.drop k) (hte : ¬tee e.writer)
    (hp : p ∈ shape.fill n s.estack parts) : p.1 ≠ e.writer := by
  have hmem := List.mem_of_mem_drop he
  obtain ⟨rfl, -⟩ | ⟨i, e', hi, he', hp⟩ := Shape.mem_fill hp
  · exact (h.below e hmem).ne'
  · intro heq
    exact h.taken_ne he he' (htaken i hi)
      (h.estack e hmem hte e' (List.mem_of_getElem? he') p hp heq)

lemma operator (htee : (∃ i, op = .localTee i) → tee n) (h : Sole tee n s) :
    Sole tee (n + 1) (s.operator model cfg params results n pos op) := by
  have htaken {parts : List Part}
      (hparts : (op.shape model cfg params results pos s.estack.length).Writes parts) (i : ℕ)
      (hi : .taken i ∈ parts) :
      i < (op.shape model cfg params results pos s.estack.length).takes := by
    have hop : op ≠ .drop := by
      rintro rfl
      obtain hparts | hparts := hparts <;> cases hparts
    exact (Operator.shape_complete model cfg params results pos _ hop).taken_lt parts hparts i hi
  refine ⟨fun p hp => ?_, fun e he => ?_, ?_, fun e he hte l hl p hp => ?_,
    fun e he hte e' he' p hp hpe => ?_⟩
  · obtain hp | ⟨rfl, -⟩ := holds_operator hp
    · exact Nat.lt_succ_of_lt (h.lt p hp)
    · exact Nat.lt_succ_self _
  · obtain ⟨parts, -, rfl⟩ | he := mem_operator_estack.mp he
    · exact Nat.lt_succ_self _
    · exact Nat.lt_succ_of_lt (h.below e (List.mem_of_mem_drop he))
  · have hdrop : ((s.estack.drop (op.shape model cfg params results pos
        s.estack.length).takes).map StackText.writer).Nodup := by
      rw [List.map_drop]
      exact h.nodup.sublist (List.drop_sublist _ _)
    rw [Marked.operator]
    cases (op.shape model cfg params results pos s.estack.length).pushed with
    | none => exact hdrop
    | some parts =>
      refine List.nodup_cons.mpr ⟨fun hmem => ?_, hdrop⟩
      obtain ⟨e, he, heq⟩ := List.mem_map.mp hmem
      exact absurd heq (h.below e (List.mem_of_mem_drop he)).ne
  · obtain ⟨parts, hpushed, rfl⟩ | he := mem_operator_estack.mp he
    · obtain hl | ⟨parts', hprinted, rfl⟩ := mem_operator_lines.mp hl
      · exact (h.lt p (.inl ⟨l, hl, hp⟩)).ne
      · -- only a `local.tee` pushes and prints
        have hop : ∀ i, op ≠ .localTee i := fun i hi => hte (htee ⟨i, hi⟩)
        obtain hnone | hnone :=
          Operator.prints_or_pushes model cfg params results pos s.estack.length hop
        · rw [hnone] at hprinted
          cases hprinted
        · rw [hnone] at hpushed
          cases hpushed
    · obtain hl | ⟨parts', hprinted, rfl⟩ := mem_operator_lines.mp hl
      · exact h.lines e (List.mem_of_mem_drop he) hte l hl p hp
      · exact h.fill_ne (htaken (.inl hprinted)) he hte hp
  · obtain ⟨parts, hpushed, rfl⟩ | he := mem_operator_estack.mp he
    · obtain ⟨parts', hpushed', rfl⟩ | he' := mem_operator_estack.mp he'
      · rfl
      · exact absurd hpe (h.lt p (.inr ⟨e', List.mem_of_mem_drop he', hp⟩)).ne
    · obtain ⟨parts', hpushed', rfl⟩ | he' := mem_operator_estack.mp he'
      · exact absurd hpe (h.fill_ne (htaken (.inr hpushed')) he hte hp)
      · exact h.estack e (List.mem_of_mem_drop he) hte e' (List.mem_of_mem_drop he') p hp hpe

end Sole

section
variable (model : ModuleModel) (cfg : StructuredCfg) (params results : ℕ)

/-- The numbers of the operators whose texts are on the stack behind the operators, from the `n`-th
on. -/
def left : ℕ → List (U64 × Operator) → List ℕ → List ℕ
  | _, [], stack => stack
  | n, (pos, op) :: ops, stack =>
    let shape := op.shape model cfg params results pos stack.length
    left (n + 1) ops ((shape.pushed.map fun _ => n).toList ++ stack.drop shape.takes)

end

end Marked

end ReverseMcp.Wasm
