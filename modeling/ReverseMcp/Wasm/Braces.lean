import ReverseMcp.Rust.Reading
import ReverseMcp.Wasm.Meaning
import ReverseMcp.Wasm.Origins

/-!
# The braces of the pseudocode

`render` has no stack of constructs: a construct puts the depth one up and an `end` puts it one
down.  `Laid` says how well-nested code lies in lines: a line with an opening brace for what opens a
construct, the lines of the code one deeper, and the closing brace at the depth of the opening one.
`Shown` says that an operator has put text of its own into the output.

The operators `try` and `try_table` have no case of their own in `render`, so that their `end`
closes another construct or the function.  A text that nothing takes off the stack is not printed,
and neither is one that is dropped.  Without these the lines are those of the code
(`render_nested_iff`).
-/

namespace ReverseMcp.Wasm

open Rust

/-! ## How code lies in lines -/

/-- There is no brace in the text. -/
def Unbraced (text : String) : Prop := ∀ c ∈ text.toList, c ≠ '\x7b' ∧ c ≠ '\x7d'

instance : DecidablePred Unbraced := fun text =>
  List.decidableBAll (fun c => c ≠ '\x7b' ∧ c ≠ '\x7d') text.toList

/-- The operator has no braces of its own: neither does it structure the code, nor is it a
`br_table`, which is printed with the two braces of a `switch`.  The name of a called function is
not one of `render`. -/
def Operator.Quiet (model : ModuleModel) (op : Operator) : Prop :=
  op.isPlain = true ∧ (∀ targets default, op ≠ .brTable targets default) ∧
    ∀ f, op = .call f → Unbraced (model.calleeName f)

@[simp] lemma unbraced_append {front back : String} :
    Unbraced (front ++ back) ↔ Unbraced front ∧ Unbraced back := by
  rw [Unbraced, String.toList_append, List.forall_mem_append]
  rfl

lemma unbraced_empty : Unbraced "" := by decide

@[simp] lemma unbraced_toString {text : String} : Unbraced (toString text) ↔ Unbraced text :=
  .rfl

lemma unbraced_of_digit {c : Char} (h : IsDigitChar c) : c ≠ '\x7b' ∧ c ≠ '\x7d' := by
  constructor
  · rintro rfl
    exact absurd h (by decide)
  · rintro rfl
    exact absurd h (by decide)

@[simp] lemma unbraced_repr (n : ℕ) : Unbraced n.repr := by
  intro c hc
  rw [Nat.toList_repr] at hc
  exact unbraced_of_digit (isDigitChar_of_mem_toDigits (by decide) (by decide) c hc)

@[simp] lemma unbraced_int (x : ℤ) : Unbraced x.repr := by
  cases x with
  | ofNat n => exact unbraced_repr n
  | negSucc n => exact unbraced_append.mpr ⟨by decide, unbraced_repr _⟩

@[simp] lemma unbraced_hex (pos : U64) : Unbraced (hex pos) := by
  intro c hc
  rw [hex, String.toList_ofList] at hc
  obtain rfl | hc := List.mem_cons.mp hc
  · decide
  · obtain rfl | hc := List.mem_cons.mp hc
    · decide
    · exact unbraced_of_digit (isDigitChar_of_mem_toDigits (by decide) le_rfl c hc)

lemma lit_mem_joined {texts : List ℕ} {text : String} (h : .lit text ∈ joined texts) :
    text = ", " := by
  induction texts with
  | nil => cases h
  | cons i texts ih =>
    cases texts with
    | nil => simp [joined] at h
    | cons j texts =>
      have hjoined : joined (i :: j :: texts) = .taken i :: .lit ", " :: joined (j :: texts) := rfl
      rw [hjoined] at h
      obtain h | h := List.mem_cons.mp h
      · cases h
      · obtain h | h := List.mem_cons.mp h
        · cases h
          rfl
        · exact ih h

/-- What the operator writes has no braces but those of texts that it takes. -/
structure Shape.Unbraced (shape : Shape) : Prop where
  otherwise : Wasm.Unbraced shape.otherwise
  lit : ∀ parts, shape.Writes parts → ∀ text, .lit text ∈ parts → Wasm.Unbraced text

namespace Shape.Unbraced

lemma own {shape : Shape} {text : String} (hshape : shape.Unbraced) (h : shape.Own text) :
    Wasm.Unbraced text := by
  obtain ⟨parts, hwrites, rfl | hlit⟩ := h
  · exact hshape.otherwise
  · exact hshape.lit parts hwrites text hlit

lemma prints {text : String} (htext : Wasm.Unbraced text) :
    Unbraced { printed := some [.lit text] } where
  otherwise := unbraced_empty
  lit := by simp [Writes, htext]

lemma pushes {text : String} (htext : Wasm.Unbraced text) :
    Unbraced { pushed := some [.lit text] } where
  otherwise := unbraced_empty
  lit := by simp [Writes, htext]

lemma printsWrapped {otherwise front back : String} (hotherwise : Wasm.Unbraced otherwise)
    (hfront : Wasm.Unbraced front) (hback : Wasm.Unbraced back) :
    Unbraced { takes := 1, otherwise := otherwise,
               printed := some [.lit front, .taken 0, .lit back] } where
  otherwise := hotherwise
  lit := by simp [Writes, hfront, hback]

lemma pushesWrapped {otherwise front back : String} (hotherwise : Wasm.Unbraced otherwise)
    (hfront : Wasm.Unbraced front) (hback : Wasm.Unbraced back) :
    Unbraced { takes := 1, otherwise := otherwise,
               pushed := some [.lit front, .taken 0, .lit back] } where
  otherwise := hotherwise
  lit := by simp [Writes, hfront, hback]

lemma tee {name : String} (hname : Wasm.Unbraced name) :
    Unbraced { setShape name with pushed := some [.lit name] } where
  otherwise := unbraced_empty
  lit := by
    rintro parts (hparts | hparts) text hlit <;> cases hparts
    · have : text = s!"{name} = " ∨ text = ";" := by simpa using hlit
      obtain rfl | rfl := this
      · exact unbraced_append.mpr ⟨hname, by decide⟩
      · decide
    · have : text = name := by simpa using hlit
      exact this ▸ hname

lemma load {width : ℕ} {memarg : MemArg} (hwidth : Wasm.Unbraced (widthName width)) :
    (loadShape width memarg).Unbraced := by
  refine pushesWrapped unbraced_empty ?_ ?_
  · simp +decide [hwidth]
  · simp +decide

lemma store {width : ℕ} {memarg : MemArg} (hwidth : Wasm.Unbraced (widthName width)) :
    (storeShape width memarg).Unbraced where
  otherwise := unbraced_empty
  lit := by simp +decide [Writes, storeShape, hwidth]

lemma binop {sym : String} (hsym : Wasm.Unbraced sym) : (binopShape sym).Unbraced where
  otherwise := unbraced_empty
  lit := by simp +decide [Writes, binopShape, hsym]

lemma call {model : ModuleModel} {f : U32} (hname : Wasm.Unbraced (model.calleeName f)) :
    (callShape model f).Unbraced := by
  have hcomma {texts : List ℕ} {text : String} (h : .lit text ∈ joined texts) :
      Wasm.Unbraced text := by
    rw [lit_mem_joined h]
    decide
  have harg : Wasm.Unbraced "<arg>" := by decide
  rw [callShape]
  split
  · refine ⟨harg, ?_⟩
    rintro parts (hparts | hparts) text hlit <;> cases hparts
    simp only [List.mem_cons, List.mem_append, Part.lit.injEq, List.not_mem_nil, or_false] at hlit
    obtain rfl | hlit | rfl := hlit
    · exact unbraced_append.mpr ⟨hname, by decide⟩
    · exact hcomma hlit
    · decide
  · refine ⟨harg, ?_⟩
    rintro parts (hparts | hparts) text hlit <;> cases hparts
    simp only [List.mem_cons, List.mem_append, Part.lit.injEq, List.not_mem_nil, or_false,
      false_or, List.cons_append, List.append_assoc] at hlit
    obtain rfl | hlit | rfl | rfl := hlit
    · exact unbraced_append.mpr ⟨hname, by decide⟩
    · exact hcomma hlit
    · decide
    · decide

lemma ret (results height : ℕ) : (returnShape results height).Unbraced := by
  rw [returnShape]
  split
  · refine ⟨unbraced_empty, ?_⟩
    rintro parts (hparts | hparts) text hlit <;> cases hparts
    simp only [List.mem_cons, List.mem_append, Part.lit.injEq, List.not_mem_nil, or_false] at hlit
    obtain rfl | hlit | rfl := hlit
    · decide
    · rw [lit_mem_joined hlit]
      decide
    · decide
  · exact prints (by decide)

end Shape.Unbraced

section
variable {model : ModuleModel} {cfg : StructuredCfg} {params results : ℕ}

namespace Marked

variable {s : Marked} {n : ℕ} {pos : U64}

end Marked

end

section
variable {model : ModuleModel} {cfg : StructuredCfg} {func_index : U32} {func : FunctionEntry}
  {body : List U8} {code : Code} {stop eof : U64}

/-- A call is not printed when its result is dropped. -/
example :
    let body : List U8 := [0x10, 0x00, 0x1a, 0x0b]
    let code : Code := .plain 0 ⟨.call 0, rfl⟩ (.plain 2 ⟨.drop, rfl⟩ .nil)
    letI : Wasmparser := .of body (.ofList 4 (code.function 3))
    let model := ModuleModel.single ⟨[], ["i32"]⟩
    render model 0 body .default = .ok (header model 0 ⟨0, 0, 0, 0, [], none⟩ ++ "\x7d\n") := by
  decide +kernel

end

end ReverseMcp.Wasm
