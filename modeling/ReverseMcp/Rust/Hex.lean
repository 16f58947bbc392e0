import Mathlib.Data.List.TakeWhile
import ReverseMcp.Rust.Text

/-!
# When the hexadecimal decoders return

The decoders cut a text into slices of two bytes, and a slice that ends inside a character
panics.  `HexSafe` is the texts on which this does not happen, in terms of the first character
beyond ASCII; `decodePairs_returns_iff` says that it is exact.

What a text of digits denotes is `hexValue`.  `from_str_radix` takes a sign as well, so the decoders
accept more than these texts (`decodePairs_denotes`).
-/

namespace ReverseMcp.Rust

/-- One byte in UTF-8. -/
def isAscii (c : Char) : Bool := c.utf8Size = 1

/-- The pairs of a text, without a last character that has no partner, are all bytes. -/
def PairsParse : List Char → Prop
  | c :: d :: cs => (fromStrRadix 256 16 [c, d]).isOk = true ∧ PairsParse cs
  | _ => True

instance : (cs : List Char) → Decidable (PairsParse cs)
  | _ :: _ :: cs =>
    letI : Decidable (PairsParse cs) := instDecidablePairsParse cs
    inferInstanceAs (Decidable (_ ∧ _))
  | [_] => isTrue trivial
  | [] => isTrue trivial

/-- The decoder meets no slice that ends inside a character.  It looks at texts of an even number
of bytes, and stops at the first pair that is no byte; so only the first character beyond ASCII
matters, and it has to start a pair and to fill it. -/
def HexSafe (cs : List Char) : Prop :=
  byteLen cs % 2 = 0 → PairsParse (cs.takeWhile isAscii) →
    ∀ c ∈ (cs.dropWhile isAscii).head?, (cs.takeWhile isAscii).length % 2 = 0 ∧ c.utf8Size = 2

instance (cs : List Char) : Decidable (HexSafe cs) :=
  inferInstanceAs (Decidable (_ → _ → ∀ c ∈ (cs.dropWhile isAscii).head?, _))

lemma byteLen_cons (c : Char) (cs : List Char) : byteLen (c :: cs) = c.utf8Size + byteLen cs := rfl

/-- A pair that is a byte does not matter. -/
lemma hexSafe_pair {c d : Char} {cs : List Char} (hc : c.utf8Size = 1) (hd : d.utf8Size = 1)
    (hok : (fromStrRadix 256 16 [c, d]).isOk = true) : HexSafe (c :: d :: cs) ↔ HexSafe cs := by
  have hlen : byteLen (c :: d :: cs) % 2 = byteLen cs % 2 := by
    rw [byteLen_cons, byteLen_cons, hc, hd]
    omega
  have htake : (c :: d :: cs).takeWhile isAscii = c :: d :: cs.takeWhile isAscii := by
    simp [isAscii, hc, hd]
  have hdrop : (c :: d :: cs).dropWhile isAscii = cs.dropWhile isAscii := by
    simp [isAscii, hc, hd]
  have hparity : (c :: d :: cs.takeWhile isAscii).length % 2 =
      (cs.takeWhile isAscii).length % 2 := by
    simp only [List.length_cons]
    omega
  unfold HexSafe
  rw [hlen, htake, hdrop, hparity]
  simp only [PairsParse, hok, true_and]

/-- The texts on which a decoder returns. -/
theorem decodePairs_returns_iff {cs : List Char} (hlen : byteLen cs % 2 = 0) :
    (decodePairs cs).Returns ↔ HexSafe cs := by
  fun_induction decodePairs cs with
  | case1 => simp [HexSafe]
  | case2 c hc =>
    simp [byteLen, hc] at hlen
  | case3 c hc d rest hd b hb ih =>
    have hrest : byteLen rest % 2 = 0 := by
      rw [byteLen_cons, byteLen_cons, hc, hd] at hlen
      omega
    rw [hexSafe_pair hc hd (by rw [hb]; rfl), ← ih hrest]
    simp [Outcome.bind_returns]
  | case4 c hc d rest hd e he =>
    have hbad : ¬ PairsParse ((c :: d :: rest).takeWhile isAscii) := by
      simp [isAscii, hc, hd, PairsParse, he, Except.isOk, Except.toBool]
    simp [HexSafe, hbad]
  | case5 c hc d rest hd =>
    have hnot : ¬ HexSafe (c :: d :: rest) := fun h => by
      simpa [isAscii, hc, hd] using h hlen (by simp [isAscii, hc, hd, PairsParse])
    simp [hnot]
  | case6 c rest hc h2 =>
    have hsafe : HexSafe (c :: rest) := fun _ _ => by simp [isAscii, h2]
    simp [hsafe]
  | case7 c rest hc h2 =>
    have hnot : ¬ HexSafe (c :: rest) := fun h => by
      simpa [isAscii, hc, h2] using h hlen (by simp [isAscii, hc, PairsParse])
    simp [hnot]

/-! ## What the digits denote -/

/-- The bytes that a text of hexadecimal digits denotes, two digits for each. -/
def hexValue : List Char → Option (List U8)
  | [] => some []
  | [_] => none
  | c :: d :: cs => do
    let high ← toDigit 16 c
    let low ← toDigit 16 d
    let bs ← hexValue cs
    return Fin.ofNat 256 (16 * high + low) :: bs

/-- No pair of a text starts with a sign. -/
def Unsigned : List Char → Prop
  | c :: _ :: cs => c ≠ '+' ∧ Unsigned cs
  | _ => True

instance : (cs : List Char) → Decidable (Unsigned cs)
  | _ :: _ :: cs =>
    letI : Decidable (Unsigned cs) := instDecidableUnsigned cs
    inferInstanceAs (Decidable (_ ∧ _))
  | [_] => isTrue trivial
  | [] => isTrue trivial

/-- A pair that is parsed and has no sign is two digits. -/
lemma fromStrRadix_pair {c d : Char} {b : U8} (hc : c ≠ '+')
    (h : fromStrRadix 256 16 [c, d] = .ok b) :
    ∃ high low, toDigit 16 c = some high ∧ toDigit 16 d = some low ∧
      b = Fin.ofNat 256 (16 * high + low) := by
  have hparse : parseDigits 256 16 0 [c, d] = .ok b := by
    rw [← h]
    unfold fromStrRadix
    split <;> simp_all
  unfold parseDigits at hparse
  split at hparse
  · cases hparse
  rename_i high hhigh
  split at hparse
  · unfold parseDigits at hparse
    split at hparse
    · cases hparse
    rename_i low hlow
    split at hparse
    · rename_i hlt
      cases hparse
      refine ⟨high, low, hhigh, hlow, Fin.ext ?_⟩
      have hsum : (0 * 16 + high) * 16 + low < 256 := hlt
      show (0 * 16 + high) * 16 + low = (16 * high + low) % 256
      omega
    · cases hparse
  · cases hparse

/-- The decoder gives what the digits denote, unless it has read a sign. -/
lemma decodePairs_denotes {cs : List Char} {bs : List U8} (h : decodePairs cs = .ok bs) :
    hexValue cs = some bs ↔ Unsigned cs := by
  fun_induction decodePairs cs generalizing bs with
  | case1 =>
    cases h
    simp [hexValue, Unsigned]
  | case3 c hc d rest hd b hb ih =>
    obtain ⟨bs', hbs', h⟩ := Outcome.bind_eq_ok.mp h
    cases h
    by_cases hsign : c = '+'
    · -- a sign is no digit
      subst hsign
      have hplus : toDigit 16 '+' = none := by decide
      simp [hexValue, Unsigned, hplus]
    · obtain ⟨high, low, hhigh, hlow, rfl⟩ := fromStrRadix_pair hsign hb
      rw [Unsigned, ← ih hbs', hexValue, hhigh, hlow]
      cases hexValue rest <;> simp [hsign]
  | _ => cases h

/-! ## When a decoder is right -/

/-- A text of hexadecimal digits, two for each byte. -/
def HexText (cs : List Char) : Prop :=
  cs.length % 2 = 0 ∧ ∀ c ∈ cs, (toDigit 16 c).isSome = true

/-- The texts that denote bytes. -/
lemma hexValue_isSome_iff (cs : List Char) : (hexValue cs).isSome = true ↔ HexText cs := by
  fun_induction hexValue cs with
  | case1 => simp [HexText]
  | case2 c => simp [HexText]
  | case3 c d cs ih =>
    have hlength : (c :: d :: cs).length % 2 = cs.length % 2 := by
      simp only [List.length_cons]
      omega
    rw [HexText] at ih
    rw [HexText, hlength]
    cases hc : toDigit 16 c with
    | none => simp [hc]
    | some high =>
      cases hd : toDigit 16 d with
      | none => simp [hd]
      | some low =>
        have hall : (∀ x ∈ c :: d :: cs, (toDigit 16 x).isSome = true) ↔
            ∀ x ∈ cs, (toDigit 16 x).isSome = true := by
          simp [hc, hd]
        rw [hall, ← ih]
        cases hexValue cs <;> rfl

lemma utf8Size_of_digit {c : Char} {d : ℕ} (h : toDigit 16 c = some d) : c.utf8Size = 1 := by
  have hle : c.toNat ≤ 102 := by
    unfold toDigit at h
    dsimp only at h
    split_ifs at h <;> omega
  rw [Char.utf8Size_eq_one_iff, UInt32.le_iff_toNat_le]
  exact hle.trans (by decide)

/-- Two digits are a byte. -/
lemma fromStrRadix_digits {c d : Char} {high low : ℕ} (hc : toDigit 16 c = some high)
    (hd : toDigit 16 d = some low) :
    fromStrRadix 256 16 [c, d] = .ok (Fin.ofNat 256 (16 * high + low)) := by
  have hsign : c ≠ '+' := by
    rintro rfl
    have hplus : toDigit 16 '+' = none := by decide
    cases hplus.symm.trans hc
  have hlt {e : Char} {n : ℕ} (he : toDigit 16 e = some n) : n < 16 := by
    unfold toDigit at he
    dsimp only at he
    split_ifs at he
    all_goals
      obtain rfl := Option.some.inj he
      assumption
  have hhigh := hlt hc
  have hlow := hlt hd
  have hparse : fromStrRadix 256 16 [c, d] = parseDigits 256 16 0 [c, d] := by
    unfold fromStrRadix
    split <;> simp_all
  have hfirst : ((0 : U8) : ℕ) * 16 + high < 256 := by
    rw [Fin.val_zero]
    omega
  have hboth : (((0 : U8) : ℕ) * 16 + high) * 16 + low < 256 := by
    rw [Fin.val_zero]
    omega
  simp only [hparse, parseDigits, hc, hd, dif_pos hfirst, dif_pos hboth]
  refine congrArg Except.ok (Fin.ext ?_)
  change (0 * 16 + high) * 16 + low = (16 * high + low) % 256
  omega

/-- The decoder reads what a text of digits denotes. -/
lemma decodePairs_of_hexValue {cs : List Char} {bs : List U8} (h : hexValue cs = some bs) :
    byteLen cs % 2 = 0 ∧ decodePairs cs = .ok bs := by
  fun_induction hexValue cs generalizing bs with
  | case1 =>
    cases h
    exact ⟨rfl, rfl⟩
  | case2 c => cases h
  | case3 c d cs ih =>
    obtain ⟨high, hhigh, h⟩ := Option.bind_eq_some_iff.mp h
    obtain ⟨low, hlow, h⟩ := Option.bind_eq_some_iff.mp h
    obtain ⟨bs', hbs', h⟩ := Option.bind_eq_some_iff.mp h
    obtain ⟨heven, hrest⟩ := ih hbs'
    cases h
    have hc := utf8Size_of_digit hhigh
    have hd := utf8Size_of_digit hlow
    constructor
    · rw [byteLen_cons, byteLen_cons, hc, hd]
      omega
    · simp [decodePairs, hc, hd, fromStrRadix_digits hhigh hlow, hrest]

/-- Every pair of a text is a byte, and one of them starts with a sign. -/
def SignRead (cs : List Char) : Prop :=
  byteLen cs % 2 = 0 ∧ (∀ c ∈ cs, isAscii c = true) ∧ PairsParse cs ∧ ¬Unsigned cs

/-- The texts that a decoder accepts. -/
lemma decodePairs_isOk_iff {cs : List Char} (hlen : byteLen cs % 2 = 0) :
    (decodePairs cs).isOk = true ↔ (∀ c ∈ cs, isAscii c = true) ∧ PairsParse cs := by
  fun_induction decodePairs cs with
  | case1 => simp [PairsParse]
  | case2 c hc => simp [byteLen, hc] at hlen
  | case3 c hc d rest hd b hb ih =>
    have hrest : byteLen rest % 2 = 0 := by
      rw [byteLen_cons, byteLen_cons, hc, hd] at hlen
      omega
    have hpair : (fromStrRadix 256 16 [c, d]).isOk = true := by rw [hb]; rfl
    simp [Outcome.isOk_bind, ← Outcome.isOk_iff, ih hrest, isAscii, hc, hd, PairsParse, hpair]
  | case4 c hc d rest hd e he =>
    have hpair : (fromStrRadix 256 16 [c, d]).isOk = false := by rw [he]; rfl
    simp [PairsParse, hpair]
  | case5 c hc d rest hd => simp [isAscii, hd]
  | case6 c rest hc h2 => simp [isAscii, hc]
  | case7 c rest hc h2 => simp [isAscii, hc]

/-- A decoder gives what the digits of a text denote, and nothing for another text, unless it cuts
a character or reads a sign. -/
theorem decodePairs_right_iff {cs : List Char} (hlen : byteLen cs % 2 = 0) :
    ((∃ bs, decodePairs cs = .ok bs ∧ hexValue cs = some bs) ∨
      (∃ e, decodePairs cs = .err e) ∧ hexValue cs = none) ↔ HexSafe cs ∧ ¬SignRead cs := by
  rw [← decodePairs_returns_iff hlen]
  have haccepts := decodePairs_isOk_iff hlen
  cases hcs : decodePairs cs with
  | ok bs =>
    rw [hcs, Outcome.isOk_ok] at haccepts
    obtain ⟨hascii, hpairs⟩ := haccepts.mp rfl
    have hsign : SignRead cs ↔ ¬Unsigned cs :=
      ⟨fun h => h.2.2.2, fun h => ⟨hlen, hascii, hpairs, h⟩⟩
    simp [hsign, ← decodePairs_denotes hcs]
  | err e =>
    rw [hcs, Outcome.isOk_err] at haccepts
    have hsign : ¬SignRead cs := fun h => absurd (haccepts.mpr ⟨h.2.1, h.2.2.1⟩) Bool.false_ne_true
    have hnone : hexValue cs = none := by
      refine Option.eq_none_iff_forall_ne_some.mpr fun bs hbs => ?_
      cases hcs.symm.trans (decodePairs_of_hexValue hbs).2
    simp [hsign, hnone]
  | panic p => simp

end ReverseMcp.Rust
