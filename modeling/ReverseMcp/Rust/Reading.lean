import Mathlib.Tactic.IntervalCases
import ReverseMcp.Rust.Json

/-!
# Texts that can be read back

A format is readable if a value and what comes behind it can be told apart in a text: two texts
that start with a formatted value are equal only if the values are, and the rests.  Numbers have
no end mark of their own, so the rest must not go on with a digit.

The formats here are those that keys are made of: numbers in any base up to 16, the `{:#x}` format
of an address, and the compact JSON text of scalars, optional scalars and lists of numbers.
-/

namespace ReverseMcp.Rust

variable {α β : Type}

/-- A digit in some base up to 16. -/
def IsDigitChar (c : Char) : Prop := ∃ d < 16, c = Nat.digitChar d

instance : DecidablePred IsDigitChar := fun c =>
  inferInstanceAs (Decidable (∃ d < 16, c = Nat.digitChar d))

/-- The text does not go on with a digit. -/
def NoDigitNext (t : List Char) : Prop := ∀ c ∈ t.head?, ¬ IsDigitChar c

lemma noDigitNext_cons {c : Char} {t : List Char} (h : ¬ IsDigitChar c) : NoDigitNext (c :: t) := by
  intro d hd
  obtain rfl : c = d := Option.some.inj hd
  exact h

/-- A formatted value can be read off the front of a text. -/
def Readable (format : α → List Char) : Prop :=
  ∀ ⦃a b t u⦄, NoDigitNext t → NoDigitNext u → format a ++ t = format b ++ u → a = b ∧ t = u

/-! ## Combining formats -/

lemma Readable.comp {format : α → List Char} (h : Readable format) {f : β → α}
    (hf : Function.Injective f) : Readable (format ∘ f) := by
  intro a b t u ht hu heq
  obtain ⟨hab, htu⟩ := h ht hu heq
  exact ⟨hf hab, htu⟩

/-- A fixed text in front of a value. -/
lemma Readable.append_left {format : α → List Char} (h : Readable format) (l : List Char) :
    Readable fun a => l ++ format a := by
  intro a b t u ht hu heq
  rw [List.append_assoc, List.append_assoc] at heq
  exact h ht hu (List.append_cancel_left heq)

/-- An optional value, where the text for its absence is not the beginning of a value. -/
lemma Readable.option {format : α → List Char} (h : Readable format) {c : Char} {l : List Char}
    (hc : ∀ a t, (format a ++ t).head? ≠ some c) :
    Readable fun o : Option α => o.elim (c :: l) format := by
  intro a b t u ht hu heq
  cases a with
  | none =>
    cases b with
    | none => exact ⟨rfl, List.append_cancel_left heq⟩
    | some b => exact absurd (congrArg List.head? heq.symm) (hc b u)
  | some a =>
    cases b with
    | none => exact absurd (congrArg List.head? heq) (hc a t)
    | some b =>
      obtain ⟨rfl, htu⟩ := h ht hu heq
      exact ⟨rfl, htu⟩

/-! ## Numbers -/

lemma digitChar_inj {m n : ℕ} (hm : m < 16) (hn : n < 16)
    (h : Nat.digitChar m = Nat.digitChar n) : m = n := by
  have hall : ∀ m < 16, ∀ n < 16, Nat.digitChar m = Nat.digitChar n → m = n := by decide
  exact hall m hm n hn h

lemma isDigitChar_of_mem_toDigits {base n : ℕ} (hb : 1 < base) (hb' : base ≤ 16) :
    ∀ c ∈ Nat.toDigits base n, IsDigitChar c := by
  induction n using Nat.strong_induction_on with
  | _ n ih =>
    intro c hc
    by_cases hn : n < base
    · rw [Nat.toDigits_of_lt_base hn, List.mem_singleton] at hc
      exact ⟨n, by omega, hc⟩
    · rw [Nat.toDigits_of_base_le hb (by omega), List.mem_append, List.mem_singleton] at hc
      rcases hc with hc | hc
      · exact ih (n / base) (Nat.div_lt_self (by omega) hb) c hc
      · have hlt : n % base < base := Nat.mod_lt _ (by omega)
        exact ⟨n % base, by omega, hc⟩

lemma toDigits_inj {base m n : ℕ} (hb : 1 < base) (hb' : base ≤ 16)
    (h : Nat.toDigits base m = Nat.toDigits base n) : m = n := by
  induction m using Nat.strong_induction_on generalizing n with
  | _ m ih =>
    -- a number below the base has one digit, any other has more
    have hlong : ∀ k, base ≤ k → 1 < (Nat.toDigits base k).length := by
      intro k hk
      rw [Nat.toDigits_of_base_le hb hk, List.length_append, List.length_singleton]
      have := Nat.length_toDigits_pos (b := base) (n := k / base)
      omega
    by_cases hm : m < base
    · by_cases hn : n < base
      · rw [Nat.toDigits_of_lt_base hm, Nat.toDigits_of_lt_base hn] at h
        exact digitChar_inj (by omega) (by omega) (List.head_eq_of_cons_eq h)
      · have hlen := hlong n (by omega)
        rw [← h, Nat.toDigits_of_lt_base hm] at hlen
        simp at hlen
    · by_cases hn : n < base
      · have hlen := hlong m (by omega)
        rw [h, Nat.toDigits_of_lt_base hn] at hlen
        simp at hlen
      · rw [Nat.toDigits_of_base_le hb (Nat.le_of_not_lt hm),
          Nat.toDigits_of_base_le hb (Nat.le_of_not_lt hn)] at h
        obtain ⟨hdiv, hmod⟩ := List.append_inj' h rfl
        have hd := ih (m / base) (Nat.div_lt_self (by omega) hb) hdiv
        have hlt : ∀ k, k % base < base := fun k => Nat.mod_lt _ (by omega)
        have hm' := hlt m
        have hn' := hlt n
        have hr := digitChar_inj (by omega) (by omega) (List.head_eq_of_cons_eq hmod)
        rw [← Nat.div_add_mod m base, ← Nat.div_add_mod n base, hd, hr]

/-- Digits end where no digit follows. -/
lemma digits_append_inj {l l' t u : List Char} (hl : ∀ c ∈ l, IsDigitChar c)
    (hl' : ∀ c ∈ l', IsDigitChar c) (ht : NoDigitNext t) (hu : NoDigitNext u)
    (h : l ++ t = l' ++ u) : l = l' ∧ t = u := by
  induction l generalizing l' with
  | nil =>
    cases l' with
    | nil => exact ⟨rfl, h⟩
    | cons d l' =>
      rw [List.nil_append] at h
      exact absurd (hl' d (by simp)) (ht d (by rw [h]; rfl))
  | cons c l ih =>
    cases l' with
    | nil =>
      rw [List.nil_append] at h
      exact absurd (hl c (by simp)) (hu c (by rw [← h]; rfl))
    | cons d l' =>
      obtain ⟨rfl, hrest⟩ := List.cons.inj h
      obtain ⟨rfl, htu⟩ := ih (fun c hc => hl c (by simp [hc]))
        (fun c hc => hl' c (by simp [hc])) hrest
      exact ⟨rfl, htu⟩

lemma readable_toDigits {base : ℕ} (hb : 1 < base) (hb' : base ≤ 16) :
    Readable (Nat.toDigits base) := by
  intro m n t u ht hu h
  obtain ⟨hdigits, htu⟩ := digits_append_inj (isDigitChar_of_mem_toDigits hb hb')
    (isDigitChar_of_mem_toDigits hb hb') ht hu h
  exact ⟨toDigits_inj hb hb' hdigits, htu⟩

/-- A number starts with a digit. -/
lemma toDigits_head {c : Char} (hc : ¬ IsDigitChar c) (n : ℕ) (t : List Char) :
    (Nat.toDigits 10 n ++ t).head? ≠ some c := by
  intro h
  have hne : Nat.toDigits 10 n ≠ [] := Nat.toDigits_ne_nil
  obtain ⟨d, l, hl⟩ := List.exists_cons_of_ne_nil hne
  rw [hl] at h
  obtain rfl : d = c := Option.some.inj h
  have hdigits : ∀ c ∈ Nat.toDigits 10 n, IsDigitChar c :=
    isDigitChar_of_mem_toDigits (by decide) (by decide)
  exact hc (hdigits d (by rw [hl]; simp))

lemma readable_decimal : Readable fun n : ℕ => (toString n).toList := by
  have h : (fun n : ℕ => (toString n).toList) = Nat.toDigits 10 := by
    funext n
    exact Nat.toList_repr
  rw [h]
  exact readable_toDigits (by decide) (by decide)

lemma readable_hex : Readable fun v : U64 => (hex v).toList := by
  have h : (fun v : U64 => (hex v).toList) =
      fun v => ['0', 'x'] ++ (Nat.toDigits 16 ∘ Fin.val) v := by
    funext v
    rw [hex, String.toList_ofList]
    rfl
  rw [h]
  exact ((readable_toDigits (by decide) (by decide)).comp Fin.val_injective).append_left _

/-! ## Addresses -/

lemma parseDigits_append (n radix : ℕ) (cs ds : List Char) : ∀ acc : Fin n,
    parseDigits n radix acc (cs ++ ds) =
      (parseDigits n radix acc cs).bind fun a => parseDigits n radix a ds := by
  induction cs with
  | nil =>
    intro acc
    rfl
  | cons c cs ih =>
    intro acc
    simp only [List.cons_append, parseDigits]
    split
    · rfl
    · split
      · exact ih _
      · rfl

lemma toDigit_digitChar {radix d : ℕ} (hr : radix ≤ 16) (hd : d < radix) :
    toDigit radix (Nat.digitChar d) = some d := by
  have hall : ∀ radix ≤ 16, ∀ d < radix, toDigit radix (Nat.digitChar d) = some d := by decide
  exact hall radix hr d hd

/-- The digits of a number are read back. -/
lemma parseDigits_toDigits {n radix : ℕ} [NeZero n] (hb : 1 < radix) (hr : radix ≤ 16) {v : ℕ}
    (hv : v < n) : parseDigits n radix 0 (Nat.toDigits radix v) = .ok ⟨v, hv⟩ := by
  induction v using Nat.strong_induction_on with
  | _ v ih =>
    by_cases hlt : v < radix
    · rw [Nat.toDigits_of_lt_base hlt]
      have hval : ((0 : Fin n) : ℕ) * radix + v < n := by simpa using hv
      simp only [parseDigits, toDigit_digitChar hr hlt, dif_pos hval]
      simp
    · have hle : radix ≤ v := Nat.le_of_not_lt hlt
      have hdiv : v / radix < v := Nat.div_lt_self (by omega) hb
      have hmod : v % radix < radix := Nat.mod_lt _ (by omega)
      have hval : v / radix * radix + v % radix = v := Nat.div_add_mod' v radix
      rw [Nat.toDigits_of_base_le hb hle, parseDigits_append, ih (v / radix) hdiv (hdiv.trans hv)]
      simp only [Except.bind, parseDigits, toDigit_digitChar hr hmod, hval, dif_pos hv]

lemma trimChars_of_forall {cs : List Char} (h : ∀ c ∈ cs, isWhitespace c = false) :
    trimChars cs = cs := by
  have hdrop : ∀ l : List Char, (∀ c ∈ l, isWhitespace c = false) →
      l.dropWhile isWhitespace = l := by
    intro l hl
    cases l with
    | nil => rfl
    | cons c l => simp [hl c (by simp)]
  rw [trimChars]
  rw [hdrop cs h, hdrop cs.reverse fun c hc => h c (List.mem_reverse.mp hc), List.reverse_reverse]

/-- A digit of a formatted number is no blank, no mark and no sign. -/
lemma toDigits_plain {radix n : ℕ} (hb : 1 < radix) (hr : radix ≤ 16) {c : Char}
    (hc : c ∈ Nat.toDigits radix n) : isWhitespace c = false ∧ c ≠ 'x' ∧ c ≠ '+' := by
  have hplain : ∀ d < 16, isWhitespace (Nat.digitChar d) = false ∧ Nat.digitChar d ≠ 'x' ∧
      Nat.digitChar d ≠ '+' := by decide
  obtain ⟨d, hd, rfl⟩ := isDigitChar_of_mem_toDigits hb hr c hc
  exact hplain d hd

/-- Text without a sign is read digit by digit. -/
lemma fromStrRadix_of_unsigned {n radix : ℕ} [NeZero n] {cs : List Char} (hne : cs ≠ [])
    (h : ∀ c ∈ cs, c ≠ '+') : fromStrRadix n radix cs = parseDigits n radix 0 cs := by
  unfold fromStrRadix
  split
  · exact absurd rfl hne
  · exact absurd rfl (h '+' (by simp))
  · exact absurd rfl (h '+' (by simp))
  · rfl

/-- Leading zeros do not count. -/
lemma parseDigits_zeros {n radix : ℕ} [NeZero n] (hb : 1 < radix) (hr : radix ≤ 16) (k : ℕ) :
    parseDigits n radix 0 (List.replicate k '0') = .ok 0 := by
  have hzero : toDigit radix '0' = some 0 := toDigit_digitChar hr (Nat.zero_lt_of_lt hb)
  induction k with
  | zero => rfl
  | succ k ih =>
    have hval : ((0 : Fin n) : ℕ) * radix + 0 < n := by simpa using Nat.pos_of_neZero n
    rw [List.replicate_succ, parseDigits]
    simp only [hzero, dif_pos hval]
    simpa using ih

/-- A number that was formatted with leading zeros is read back. -/
lemma fromStrRadix_zeros_toDigits {n radix : ℕ} [NeZero n] (hb : 1 < radix) (hr : radix ≤ 16)
    (k : ℕ) (v : Fin n) :
    fromStrRadix n radix (List.replicate k '0' ++ Nat.toDigits radix v.val) = .ok v := by
  have hne : List.replicate k '0' ++ Nat.toDigits radix v.val ≠ [] :=
    List.append_ne_nil_of_right_ne_nil _ Nat.toDigits_ne_nil
  rw [fromStrRadix_of_unsigned hne, parseDigits_append, parseDigits_zeros hb hr]
  · exact parseDigits_toDigits hb hr v.isLt
  · intro c hc
    rcases List.mem_append.mp hc with hc | hc
    · rw [List.eq_of_mem_replicate hc]
      decide
    · exact (toDigits_plain hb hr hc).2.2

/-- A formatted address has no blanks. -/
lemma trimChars_hex (v : U64) :
    trimChars (hex v).toList = '0' :: 'x' :: Nat.toDigits 16 v.val := by
  rw [hex, String.toList_ofList]
  refine trimChars_of_forall fun d hd => ?_
  simp only [List.mem_cons] at hd
  rcases hd with rfl | rfl | hd
  · decide
  · decide
  · exact (toDigits_plain (by decide) le_rfl hd).1

/-- An address that was formatted is read back. -/
lemma parseAddress_hex (v : U64) : parseAddress (hex v) = .ok v := by
  rw [parseAddress]
  simp only [trimChars_hex, stripHexMark]
  exact fromStrRadix_zeros_toDigits (by decide) le_rfl 0 v

/-- A padded number that was formatted is read back. -/
lemma fromStrRadix_hexPadded (w : ℕ) (v : U64) :
    fromStrRadix (2 ^ 64) 16 (hexPadded w v.val).toList = .ok v := by
  rw [hexPadded, String.toList_ofList]
  exact fromStrRadix_zeros_toDigits (by decide) le_rfl _ v

/-- An address that was formatted is read back by the lenient reader. -/
lemma parseHexOrZero_hex (v : U64) : parseHexOrZero (hex v) = v := by
  obtain ⟨c, cs, hcs⟩ := List.exists_cons_of_ne_nil
    (Nat.toDigits_ne_nil (b := 16) (n := v.val))
  -- the digits hold no second mark
  have hmarks : trimHexMarks ('0' :: 'x' :: c :: cs) = c :: cs := by
    rw [trimHexMarks]
    cases cs with
    | nil => simp [trimHexMarks]
    | cons d cs =>
      have hd : d ≠ 'x' := (toDigits_plain (n := v.val) (by decide) le_rfl (hcs ▸ by simp)).2.1
      simp [trimHexMarks, hd]
  have hparse : fromStrRadix (2 ^ 64) 16 (c :: cs) = .ok v := by
    rw [← hcs]
    exact fromStrRadix_zeros_toDigits (by decide) le_rfl 0 v
  rw [parseHexOrZero]
  rw [trimChars_hex, hcs, hmarks, hparse]

lemma hex_inj {v w : U64} (h : hex v = hex w) : v = w := by
  rw [← parseHexOrZero_hex v, h, parseHexOrZero_hex]

/-! ## String literals -/

namespace Json

/-- The character that an escape stands for, and the text behind it. -/
def readEscape : List Char → Option (Char × List Char)
  | '\\' :: 'b' :: t => some (Char.ofNat 8, t)
  | '\\' :: 'f' :: t => some (Char.ofNat 12, t)
  | '\\' :: 'n' :: t => some (Char.ofNat 10, t)
  | '\\' :: 'r' :: t => some (Char.ofNat 13, t)
  | '\\' :: 't' :: t => some (Char.ofNat 9, t)
  | '\\' :: 'u' :: '0' :: '0' :: h :: l :: t =>
    some (Char.ofNat (16 * (toDigit 16 h).getD 0 + (toDigit 16 l).getD 0), t)
  | '\\' :: c :: t => some (c, t)
  | c :: t => some (c, t)
  | [] => none

lemma readEscape_control (n : ℕ) (hn : n < 32) (t : List Char) :
    readEscape (escapeChar (Char.ofNat n) ++ t) = some (Char.ofNat n, t) := by
  interval_cases n <;> rfl

/-- An escape is read back as the character it was written for. -/
lemma readEscape_escapeChar (c : Char) (t : List Char) :
    readEscape (escapeChar c ++ t) = some (c, t) := by
  by_cases hctl : c.toNat < 32
  · have h := readEscape_control c.toNat hctl t
    rwa [Char.ofNat_toNat] at h
  by_cases hq : c = '"'
  · subst hq
    rfl
  by_cases hs : c = '\\'
  · subst hs
    rfl
  have hplain : escapeChar c = [c] := by
    rw [escapeChar]
    rw [if_neg hq, if_neg hs, if_neg (by omega), if_neg (by omega), if_neg (by omega),
      if_neg (by omega), if_neg (by omega), if_neg hctl]
  rw [hplain, List.singleton_append]
  unfold readEscape
  split <;> simp_all

lemma escapeChar_head (c : Char) (t : List Char) : (escapeChar c ++ t).head? ≠ some '"' := by
  by_cases hq : c = '"'
  · subst hq
    simp [escapeChar]
  · rw [escapeChar]
    split_ifs <;> simp [hq]

lemma escaped_append_inj {cs ds t u : List Char} (h : escaped cs ++ t = escaped ds ++ u) :
    cs = ds ∧ t = u := by
  induction cs generalizing ds with
  | nil =>
    cases ds with
    | nil => exact ⟨rfl, List.append_cancel_left h⟩
    | cons d ds =>
      rw [escaped, escaped, List.append_assoc] at h
      exact absurd (congrArg List.head? h.symm) (escapeChar_head d _)
  | cons c cs ih =>
    cases ds with
    | nil =>
      rw [escaped, escaped, List.append_assoc] at h
      exact absurd (congrArg List.head? h) (escapeChar_head c _)
    | cons d ds =>
      rw [escaped, escaped, List.append_assoc, List.append_assoc] at h
      have hread := congrArg readEscape h
      rw [readEscape_escapeChar, readEscape_escapeChar] at hread
      simp only [Option.some.injEq, Prod.mk.injEq] at hread
      obtain ⟨rfl, htu⟩ := ih hread.2
      exact ⟨by rw [hread.1], htu⟩

/-- A string literal has an end mark of its own. -/
lemma readable_quoted : Readable quoted := by
  intro r s t u _ _ h
  obtain ⟨hcs, htu⟩ := escaped_append_inj (List.cons.inj h).2
  exact ⟨String.toList_injective hcs, htu⟩

/-! ## Compact JSON -/

variable [Host]

lemma readable_u64 : Readable fun n : U64 => (u64 n).compact := by
  have hdecimal : Readable (Nat.toDigits 10) := readable_toDigits (by decide) (by decide)
  exact hdecimal.comp Fin.val_injective

lemma readable_u32 : Readable fun n : U32 => (nat n.val).compact := by
  have hinj : Function.Injective fun n : U32 => Rust.asU64 n.val := by
    intro m n h
    have hval := congrArg Fin.val h
    simp only [Rust.asU64, Fin.val_ofNat] at hval
    exact Fin.ext (by omega)
  exact readable_u64.comp hinj

lemma readable_bool : Readable fun b : Bool => (Json.bool b).compact := by
  intro a b t u _ _ h
  cases a <;> cases b <;> simp_all [compact]

lemma readable_string : Readable fun s : String => (Json.string s).compact := readable_quoted

/-- An optional value that is not written like `null`. -/
lemma readable_opt {α : Type} {value : α → Json} (h : Readable fun a => (value a).compact)
    (hn : ∀ a t, ((value a).compact ++ t).head? ≠ some 'n') :
    Readable fun o : Option α => (Json.opt (o.map value)).compact := by
  have hopt := h.option (c := 'n') (l := "ull".toList) hn
  intro a b t u ht hu heq
  refine hopt ht hu ?_
  have hnull : compact .null = 'n' :: "ull".toList := rfl
  cases a <;> cases b <;> simpa [Json.opt, hnull] using heq

lemma u64_head {c : Char} (hc : ¬ IsDigitChar c) (n : U64) (t : List Char) :
    ((u64 n).compact ++ t).head? ≠ some c :=
  toDigits_head hc n.val t

lemma noDigitNext_compactItems (l : List Json) (t : List Char) :
    NoDigitNext (compactItems l ++ t) := by
  cases l with
  | nil => exact noDigitNext_cons (by decide)
  | cons x l => exact noDigitNext_cons (by decide)

lemma noDigitNext_compactFields (l : List (String × Json)) : NoDigitNext (compactFields l) := by
  cases l with
  | nil => exact noDigitNext_cons (by decide)
  | cons x l =>
    obtain ⟨k, v⟩ := x
    exact noDigitNext_cons (by decide)

lemma compactItems_append_inj {α : Type} {value : α → Json}
    (h : Readable fun a => (value a).compact) {as bs : List α} {t u : List Char}
    (heq : compactItems (as.map value) ++ t = compactItems (bs.map value) ++ u) :
    as = bs ∧ t = u := by
  induction as generalizing bs with
  | nil =>
    cases bs with
    | nil => exact ⟨rfl, List.append_cancel_left heq⟩
    | cons b bs => simp [compactItems] at heq
  | cons a as ih =>
    cases bs with
    | nil => simp [compactItems] at heq
    | cons b bs =>
      simp only [List.map_cons, compactItems, List.cons_append, List.cons.injEq, true_and,
        List.append_assoc] at heq
      obtain ⟨rfl, hrest⟩ := h (noDigitNext_compactItems _ _) (noDigitNext_compactItems _ _) heq
      obtain ⟨rfl, htu⟩ := ih hrest
      exact ⟨rfl, htu⟩

/-- A list of values none of which is written like the end of an array. -/
lemma readable_array {α : Type} {value : α → Json} (h : Readable fun a => (value a).compact)
    (hn : ∀ a t, ((value a).compact ++ t).head? ≠ some ']') :
    Readable fun l : List α => (Json.array (l.map value)).compact := by
  intro as bs t u _ _ heq
  cases as with
  | nil =>
    cases bs with
    | nil => exact ⟨rfl, List.append_cancel_left heq⟩
    | cons b bs =>
      have hhead : ']' :: t = (value b).compact ++ (compactItems (bs.map value) ++ u) := by
        simpa [compact] using heq
      exact absurd (congrArg List.head? hhead.symm) (hn b _)
  | cons a as =>
    cases bs with
    | nil =>
      have hhead : (value a).compact ++ (compactItems (as.map value) ++ t) = ']' :: u := by
        simpa [compact] using heq
      exact absurd (congrArg List.head? hhead) (hn a _)
    | cons b bs =>
      simp only [List.map_cons, compact, List.cons_append, List.cons.injEq, true_and,
        List.append_assoc] at heq
      obtain ⟨rfl, hrest⟩ := h (noDigitNext_compactItems _ _) (noDigitNext_compactItems _ _) heq
      obtain ⟨rfl, htu⟩ := compactItems_append_inj h hrest
      exact ⟨rfl, htu⟩

lemma compactFields_of_object {x y : String × Json} {xs ys : List (String × Json)}
    (h : (Json.object (x :: xs)).compact = (Json.object (y :: ys)).compact) :
    compactFields (x :: xs) = compactFields (y :: ys) := by
  obtain ⟨k, v⟩ := x
  obtain ⟨l, w⟩ := y
  simp only [compact, List.cons.injEq, true_and] at h
  rw [compactFields, compactFields, h]

/-- The first of the remaining fields of an object, and the rest of them. -/
lemma readable_field {α : Type} {value : α → Json} (h : Readable fun a => (value a).compact)
    {k : String} {a b : α} {xs ys : List (String × Json)}
    (heq : compactFields ((k, value a) :: xs) = compactFields ((k, value b) :: ys)) :
    a = b ∧ compactFields xs = compactFields ys := by
  simp only [compactFields, List.cons.injEq, true_and] at heq
  have hrest := (List.cons.inj (List.append_cancel_left heq)).2
  exact h (noDigitNext_compactFields xs) (noDigitNext_compactFields ys) hrest

end Json

end ReverseMcp.Rust
