import Mathlib.Data.List.TakeWhile
import ReverseMcp.Rust.Reading

/-!
# Separated texts

A text is cut at a separator and every piece is trimmed.  Blanks around the text or around a piece
then do not count (`map_trimChars_splitChars`), so what is read from a joined list of pieces is what
was joined (`splitChars_joined`).
-/

namespace ReverseMcp.Rust

/-! ## Blanks -/

/-- Nothing but whitespace. -/
def Blanks (cs : List Char) : Prop := ∀ c ∈ cs, isWhitespace c = true

lemma blanks_nil : Blanks [] := by simp [Blanks]

/-- `str::trim_end` on the characters of a string. -/
def trimEnd (cs : List Char) : List Char := (cs.reverse.dropWhile isWhitespace).reverse

lemma Blanks.not_mem {b : List Char} (hb : Blanks b) {c : Char} (hc : isWhitespace c = false) :
    c ∉ b := by
  intro hmem
  rw [hb c hmem] at hc
  cases hc

lemma trimChars_eq_trimEnd (cs : List Char) :
    trimChars cs = trimEnd (cs.dropWhile isWhitespace) := rfl

lemma trimEnd_append_blanks (cs : List Char) {b : List Char} (hb : Blanks b) :
    trimEnd (cs ++ b) = trimEnd cs := by
  rw [trimEnd, List.reverse_append,
    List.dropWhile_append_of_pos fun c hc => hb c (List.mem_reverse.mp hc), trimEnd]

lemma exists_trimEnd (cs : List Char) : ∃ b, Blanks b ∧ cs = trimEnd cs ++ b := by
  refine ⟨(cs.reverse.takeWhile isWhitespace).reverse, fun c hc => ?_, ?_⟩
  · exact List.mem_takeWhile_imp (List.mem_reverse.mp hc)
  · rw [trimEnd, ← List.reverse_append, List.takeWhile_append_dropWhile, List.reverse_reverse]

/-- Characters up to one that is no blank stay. -/
lemma trimEnd_cons {c : Char} (hc : isWhitespace c = false) (cs : List Char) :
    trimEnd (c :: cs) = c :: trimEnd cs := by
  obtain ⟨b, hb, hcs⟩ := exists_trimEnd cs
  have hlast : ∀ t : List Char, trimEnd t = t → trimEnd (c :: t) = c :: t := by
    intro t ht
    rw [trimEnd, List.reverse_eq_iff] at ht ⊢
    rw [List.reverse_cons, List.dropWhile_append, ht]
    cases h : t.reverse with
    | nil => simp [hc]
    | cons d ds => simp
  have hidem : trimEnd (trimEnd cs) = trimEnd cs := by
    conv_rhs => rw [hcs, trimEnd_append_blanks _ hb]
  calc trimEnd (c :: cs) = trimEnd (c :: trimEnd cs ++ b) := by rw [List.cons_append, ← hcs]
    _ = trimEnd (c :: trimEnd cs) := trimEnd_append_blanks _ hb
    _ = c :: trimEnd cs := hlast _ hidem

lemma trimChars_append_left {b : List Char} (hb : Blanks b) (cs : List Char) :
    trimChars (b ++ cs) = trimChars cs := by
  rw [trimChars_eq_trimEnd, List.dropWhile_append_of_pos hb, trimChars_eq_trimEnd]

lemma trimChars_cons {c : Char} (hc : isWhitespace c = false) (cs : List Char) :
    trimChars (c :: cs) = c :: trimEnd cs := by
  rw [trimChars_eq_trimEnd, List.dropWhile_cons_of_neg (by simp [hc]), trimEnd_cons hc]

lemma trimChars_of_blanks {b : List Char} (hb : Blanks b) : trimChars b = [] := by
  rw [← List.append_nil b, trimChars_append_left hb]
  rfl

lemma trimChars_append_right (cs : List Char) {b : List Char} (hb : Blanks b) :
    trimChars (cs ++ b) = trimChars cs := by
  induction cs with
  | nil =>
    rw [List.nil_append, trimChars_of_blanks hb]
    rfl
  | cons c cs ih =>
    cases hc : isWhitespace c with
    | false =>
      rw [List.cons_append, trimChars_cons hc, trimChars_cons hc, trimEnd_append_blanks cs hb]
    | true =>
      have hone : Blanks [c] := by simpa [Blanks] using hc
      calc trimChars (c :: cs ++ b) = trimChars (cs ++ b) := trimChars_append_left hone _
        _ = trimChars cs := ih
        _ = trimChars (c :: cs) := (trimChars_append_left hone cs).symm

/-- A text is its trimmed part between blanks. -/
lemma exists_trimChars (cs : List Char) :
    ∃ a b, Blanks a ∧ Blanks b ∧ cs = a ++ (trimChars cs ++ b) := by
  obtain ⟨b, hb, h⟩ := exists_trimEnd (cs.dropWhile isWhitespace)
  refine ⟨cs.takeWhile isWhitespace, b, fun c hc => List.mem_takeWhile_imp hc, hb, ?_⟩
  rw [trimChars_eq_trimEnd, ← h, List.takeWhile_append_dropWhile]

lemma trimChars_trimChars (cs : List Char) : trimChars (trimChars cs) = trimChars cs := by
  obtain ⟨a, b, ha, hb, h⟩ := exists_trimChars cs
  conv_rhs => rw [h, trimChars_append_left ha, trimChars_append_right _ hb]

lemma trimEnd_prefix (cs : List Char) : trimEnd cs <+: cs := by
  obtain ⟨b, -, h⟩ := exists_trimEnd cs
  exact ⟨b, h.symm⟩

/-- Only blanks are lost. -/
lemma mem_trimChars {c : Char} (hc : isWhitespace c = false) {cs : List Char} :
    c ∈ trimChars cs ↔ c ∈ cs := by
  obtain ⟨a, b, ha, hb, h⟩ := exists_trimChars cs
  conv_rhs => rw [h]
  simp [ha.not_mem hc, hb.not_mem hc]

/-! ## Pieces -/

variable {sep : Char}

lemma splitChars_ne_nil (sep : Char) (cs : List Char) : splitChars sep cs ≠ [] := by
  cases cs with
  | nil => simp [splitChars]
  | cons c cs =>
    rw [splitChars]
    split
    · simp
    · split <;> simp

lemma splitChars_sep (cs : List Char) : splitChars sep (sep :: cs) = [] :: splitChars sep cs := by
  obtain ⟨w, ws, h⟩ := List.exists_cons_of_ne_nil (splitChars_ne_nil sep cs)
  rw [splitChars, h]
  simp

lemma splitChars_cons {c : Char} (hc : c ≠ sep) {cs w : List Char} {ws : List (List Char)}
    (h : splitChars sep cs = w :: ws) : splitChars sep (c :: cs) = (c :: w) :: ws := by
  rw [splitChars, h]
  simp [hc]

lemma splitChars_of_not_mem {w : List Char} (h : sep ∉ w) : splitChars sep w = [w] := by
  induction w with
  | nil => rfl
  | cons c w ih =>
    rw [List.mem_cons, not_or] at h
    exact splitChars_cons (Ne.symm h.1) (ih h.2)

lemma splitChars_append {w : List Char} (h : sep ∉ w) (cs : List Char) :
    splitChars sep (w ++ sep :: cs) = w :: splitChars sep cs := by
  induction w with
  | nil => exact splitChars_sep cs
  | cons c w ih =>
    rw [List.mem_cons, not_or] at h
    exact splitChars_cons (Ne.symm h.1) (ih h.2)

/-- The pieces of a joined text are what was joined. -/
lemma splitChars_joined {ws : List (List Char)} (hne : ws ≠ []) (h : ∀ w ∈ ws, sep ∉ w) :
    splitChars sep ([sep].intercalate ws) = ws := by
  induction ws with
  | nil => exact absurd rfl hne
  | cons w ws ih =>
    cases ws with
    | nil => simpa [List.intercalate] using splitChars_of_not_mem (h w (by simp))
    | cons v ws =>
      have hjoin : [sep].intercalate (w :: v :: ws) = w ++ sep :: [sep].intercalate (v :: ws) := by
        simp [List.intercalate]
      rw [hjoin, splitChars_append (h w (by simp)),
        ih (by simp) fun u hu => h u (List.mem_cons_of_mem w hu)]

/-! ## Trimmed pieces -/

lemma map_trimChars_append_left (hsep : isWhitespace sep = false) {b : List Char} (hb : Blanks b)
    (cs : List Char) :
    (splitChars sep (b ++ cs)).map trimChars = (splitChars sep cs).map trimChars := by
  induction b with
  | nil => rfl
  | cons c b ih =>
    have hone : Blanks [c] := fun x hx => hb x (by simp [List.mem_singleton.mp hx])
    have hc : c ≠ sep := fun hc => hone.not_mem hsep (by simp [hc])
    obtain ⟨w, ws, h⟩ := List.exists_cons_of_ne_nil (splitChars_ne_nil sep (b ++ cs))
    have hrest := ih fun x hx => hb x (List.mem_cons_of_mem c hx)
    rw [List.cons_append, splitChars_cons hc h, ← hrest, h, List.map_cons, List.map_cons]
    exact congrArg (· :: _) (trimChars_append_left hone w)

/-- Blanks behind a text go to its last piece. -/
lemma splitChars_append_blanks (hsep : isWhitespace sep = false) {b : List Char} (hb : Blanks b)
    (cs : List Char) :
    List.Forall₂ (fun u w => ∃ e, Blanks e ∧ u = w ++ e) (splitChars sep (cs ++ b))
      (splitChars sep cs) := by
  induction cs with
  | nil =>
    rw [List.nil_append, splitChars_of_not_mem (hb.not_mem hsep)]
    exact .cons ⟨b, hb, rfl⟩ .nil
  | cons c cs ih =>
    by_cases hc : c = sep
    · rw [hc, List.cons_append, splitChars_sep, splitChars_sep]
      exact .cons ⟨[], blanks_nil, rfl⟩ ih
    · obtain ⟨w, ws, h⟩ := List.exists_cons_of_ne_nil (splitChars_ne_nil sep cs)
      obtain ⟨u, us, h'⟩ := List.exists_cons_of_ne_nil (splitChars_ne_nil sep (cs ++ b))
      rw [h, h'] at ih
      rw [List.cons_append, splitChars_cons hc h, splitChars_cons hc h']
      cases ih with
      | cons hhead htail =>
        obtain ⟨e, he, rfl⟩ := hhead
        exact .cons ⟨e, he, rfl⟩ htail

lemma map_trimChars_append_right (hsep : isWhitespace sep = false) {b : List Char} (hb : Blanks b)
    (cs : List Char) :
    (splitChars sep (cs ++ b)).map trimChars = (splitChars sep cs).map trimChars := by
  have h := splitChars_append_blanks hsep hb cs
  generalize splitChars sep (cs ++ b) = us at h ⊢
  generalize splitChars sep cs = ws at h ⊢
  induction h with
  | nil => rfl
  | cons hhead _ ih =>
    obtain ⟨e, he, rfl⟩ := hhead
    rw [List.map_cons, List.map_cons, ih, trimChars_append_right _ he]

/-- Blanks around a text do not count in its trimmed pieces. -/
lemma map_trimChars_splitChars (hsep : isWhitespace sep = false) (cs : List Char) :
    (splitChars sep (trimChars cs)).map trimChars = (splitChars sep cs).map trimChars := by
  obtain ⟨a, b, ha, hb, h⟩ := exists_trimChars cs
  conv_rhs => rw [h, map_trimChars_append_left hsep ha, map_trimChars_append_right hsep hb]

lemma map_trimChars_trimEnd (hsep : isWhitespace sep = false) (cs : List Char) :
    (splitChars sep (trimEnd cs)).map trimChars = (splitChars sep cs).map trimChars := by
  obtain ⟨b, hb, h⟩ := exists_trimEnd cs
  conv_rhs => rw [h, map_trimChars_append_right hsep hb]

/-! ## Numbers in decimal -/

lemma IsDigitChar.ne {c d : Char} (hd : IsDigitChar d) (hc : ¬ IsDigitChar c) : d ≠ c := by
  rintro rfl
  exact hc hd

/-- A number in decimal behind `k` zeros. -/
def decimal (k : ℕ) (n : U32) : List Char := List.replicate k '0' ++ Nat.toDigits 10 n.val

lemma isDigitChar_decimal {k : ℕ} {n : U32} {c : Char} (hc : c ∈ decimal k n) : IsDigitChar c := by
  rcases List.mem_append.mp hc with hc | hc
  · rw [List.eq_of_mem_replicate hc]
    exact ⟨0, by decide, rfl⟩
  · exact isDigitChar_of_mem_toDigits (by decide) (by decide) c hc

lemma not_isDigitChar_of_isWhitespace {c : Char} (hc : isWhitespace c = true) :
    ¬ IsDigitChar c := by
  have hplain : ∀ d < 16, isWhitespace (Nat.digitChar d) = false := by decide
  rintro ⟨d, hd, rfl⟩
  rw [hplain d hd] at hc
  cases hc

lemma not_mem_decimal {k : ℕ} {n : U32} {c : Char} (hc : ¬ IsDigitChar c) : c ∉ decimal k n :=
  fun hmem => hc (isDigitChar_decimal hmem)

lemma exists_decimal (k : ℕ) (n : U32) :
    ∃ c cs, decimal k n = c :: cs ∧ IsDigitChar c ∧ isWhitespace c = false := by
  have hne : decimal k n ≠ [] := List.append_ne_nil_of_right_ne_nil _ Nat.toDigits_ne_nil
  obtain ⟨c, cs, h⟩ := List.exists_cons_of_ne_nil hne
  have hc : IsDigitChar c := isDigitChar_decimal (h ▸ List.mem_cons_self)
  exact ⟨c, cs, h, hc, Bool.eq_false_iff.mpr fun hw => not_isDigitChar_of_isWhitespace hw hc⟩

/-- `s.trim().parse::<u32>().ok()`. -/
def parseU32 (cs : List Char) : Option U32 :=
  (fromStrRadix (2 ^ 32) 10 (trimChars cs)).toOption

lemma parseU32_trimChars (cs : List Char) : parseU32 (trimChars cs) = parseU32 cs := by
  rw [parseU32, trimChars_trimChars, parseU32]

lemma trimChars_decimal {a b : List Char} (ha : Blanks a) (hb : Blanks b) (k : ℕ) (n : U32) :
    trimChars (a ++ (decimal k n ++ b)) = decimal k n := by
  rw [trimChars_append_left ha, trimChars_append_right _ hb]
  exact trimChars_of_forall fun c hc =>
    Bool.eq_false_iff.mpr fun hw => not_isDigitChar_of_isWhitespace hw (isDigitChar_decimal hc)

lemma trimChars_decimal_self (k : ℕ) (n : U32) : trimChars (decimal k n) = decimal k n := by
  simpa using trimChars_decimal blanks_nil blanks_nil k n

/-- A number is read back. -/
lemma parseU32_decimal (k : ℕ) (n : U32) : parseU32 (decimal k n) = some n := by
  rw [parseU32, trimChars_decimal_self, decimal,
    fromStrRadix_zeros_toDigits (by decide) (by decide)]
  rfl

end ReverseMcp.Rust
