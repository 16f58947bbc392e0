import ReverseMcp.Broker.Tools
import ReverseMcp.Rust.Radix
import ReverseMcp.Worker.Arms
import ReverseMcp.Worker.Blockdiff
import ReverseMcp.Worker.Plan
import ReverseMcp.Worker.Transforms

/-!
# The text of an address

The dispatcher, the plans, the transforms, the block diff and the tools of the broker read the text
of an address alike: hexadecimal behind `0x` or `0X`, decimal without a mark.  The parsers of the
deep analyses and of the value analysis are always hexadecimal, know only the mark `0x`, and make 0
of what they cannot read; immediates are hexadecimal first.

So all of them agree on the texts that the worker itself writes, and on a text that the dispatcher
accepts exactly if it has the mark `0x`, or is zero, or has no mark and one digit
(`address_parsers_iff`).
-/

namespace ReverseMcp

open Rust

/-- `deep::parse_ea`. -/
def Deep.parse_ea (s : String) : U64 := parseHexOrZero s

/-- `valuean::parse_ea`. -/
def Valuean.parse_ea (s : String) : U64 := parseHexOrZero s

/-- Every parser reads the address from the text. -/
structure Agree (s : String) (v : U64) : Prop where
  plan : Plan.parse_ea s = .ok v
  transforms : Transforms.parse_ea s = .ok v
  imm : Transforms.parse_imm s = some v
  blockdiff : Blockdiff.parse_ea s = .ok v
  tools : Tools.parse_ea (.string s) = some v
  deep : Deep.parse_ea s = v
  valuean : Valuean.parse_ea s = v

/-- The text of an address has the mark `0x`, or it is zero, or it has no mark and one digit besides
leading zeros. -/
def SharedText (s : String) (v : U64) : Prop :=
  (∃ digits, trimChars s.toList = '0' :: 'x' :: digits) ∨ v = 0 ∨
    stripHexMark (trimChars s.toList) = none ∧ v.val < 10

section
variable {cs : List Char} {s : String} {v : U64}

/-! ## Marks -/

/-- A number does not begin with a mark. -/
lemma not_marked {radix : ℕ} {c : Char} (hr : radix ≤ 16) (hc : toDigit 16 c = none) :
    fromStrRadix (2 ^ 64) radix ('0' :: c :: cs) ≠ .ok v := by
  intro h
  obtain ⟨-, h⟩ := fromStrRadix_eq_ok_iff.mp h
  obtain ⟨d, -, _, h⟩ := parseDigits_cons_eq_ok (show parseDigits _ _ _ ('0' :: c :: cs) = _ from h)
  obtain ⟨e, he, -⟩ := parseDigits_cons_eq_ok h
  cases hc.symm.trans (toDigit_mono hr he)

lemma trimHexMarks_of_number {radix : ℕ} (hr : radix ≤ 16)
    (h : fromStrRadix (2 ^ 64) radix cs = .ok v) :
    trimHexMarks cs = cs ∧ Transforms.trimUpperHexMarks cs = cs := by
  constructor
  · unfold trimHexMarks
    split
    · exact absurd h (not_marked hr (by decide))
    · rfl
  · unfold Transforms.trimUpperHexMarks
    split
    · exact absurd h (not_marked hr (by decide))
    · rfl

/-- The ways in which the dispatcher accepts a text. -/
lemma parseAddress_eq_ok (h : parseAddress s = .ok v) :
    (∃ cs, trimChars s.toList = '0' :: 'x' :: cs ∧ fromStrRadix (2 ^ 64) 16 cs = .ok v) ∨
    (∃ cs, trimChars s.toList = '0' :: 'X' :: cs ∧ fromStrRadix (2 ^ 64) 16 cs = .ok v) ∨
    stripHexMark (trimChars s.toList) = none ∧
      fromStrRadix (2 ^ 64) 10 (trimChars s.toList) = .ok v := by
  rw [parseAddress] at h
  split at h
  · rename_i digits hmark
    unfold stripHexMark at hmark
    split at hmark
    · rename_i cs htext
      obtain rfl := Option.some.inj hmark
      exact .inl ⟨_, htext, h⟩
    · rename_i cs htext
      obtain rfl := Option.some.inj hmark
      exact .inr (.inl ⟨_, htext, h⟩)
    · cases hmark
  · rename_i hmark
    exact .inr (.inr ⟨hmark, h⟩)

/-! ## The lenient parsers -/

lemma parseHexOrZero_of_ok (htrim : trimHexMarks (trimChars s.toList) = cs)
    (h : fromStrRadix (2 ^ 64) 16 cs = .ok v) : parseHexOrZero s = v := by
  rw [parseHexOrZero]
  rw [htrim, h]

lemma parse_imm_of_ok
    (htrim : Transforms.trimUpperHexMarks (trimHexMarks (trimChars s.toList)) = cs)
    (h : fromStrRadix (2 ^ 64) 16 cs = .ok v) : Transforms.parse_imm s = some v := by
  have hne : cs ≠ [] := by
    rintro rfl
    cases h
  rw [Transforms.parse_imm]
  rw [htrim, if_neg hne, h]
  rfl

/-- The mark `0x` is known to all parsers. -/
lemma lenient_of_lower (htext : trimChars s.toList = '0' :: 'x' :: cs)
    (hcs : fromStrRadix (2 ^ 64) 16 cs = .ok v) :
    Transforms.parse_imm s = some v ∧ parseHexOrZero s = v := by
  obtain ⟨hlower, hupper⟩ := trimHexMarks_of_number le_rfl hcs
  have htrim : trimHexMarks (trimChars s.toList) = cs := by
    rw [htext, trimHexMarks, hlower]
  exact ⟨parse_imm_of_ok (by rw [htrim, hupper]) hcs, parseHexOrZero_of_ok htrim hcs⟩

/-- The mark `0X` is no number for the lenient parsers. -/
lemma lenient_of_upper (htext : trimChars s.toList = '0' :: 'X' :: cs)
    (hcs : fromStrRadix (2 ^ 64) 16 cs = .ok v) :
    Transforms.parse_imm s = some v ∧ parseHexOrZero s = 0 := by
  obtain ⟨hlower, hupper⟩ := trimHexMarks_of_number le_rfl hcs
  have htrim : trimHexMarks (trimChars s.toList) = '0' :: 'X' :: cs := by
    rw [htext]
    rfl
  refine ⟨parse_imm_of_ok (by rw [htrim, Transforms.trimUpperHexMarks, hupper]) hcs, ?_⟩
  rw [parseHexOrZero]
  rw [htrim]
  split
  · rename_i w hw
    exact absurd hw (not_marked le_rfl (by decide))
  · rfl

/-- A decimal number is hexadecimal for the lenient parsers. -/
lemma lenient_of_decimal (hcs : fromStrRadix (2 ^ 64) 10 (trimChars s.toList) = .ok v) :
    (Transforms.parse_imm s = some v ∧ parseHexOrZero s = v) ↔ v.val < 10 := by
  obtain ⟨hlower, hupper⟩ := trimHexMarks_of_number (by decide) hcs
  have hradix : fromStrRadix (2 ^ 64) 16 (trimChars s.toList) = .ok v ↔ v.val < 10 :=
    fromStrRadix_radix_iff (by decide) (by decide) hcs
  rw [← hradix]
  constructor
  · rintro ⟨-, hlenient⟩
    rw [parseHexOrZero] at hlenient
    rw [hlower] at hlenient
    split at hlenient
    · rename_i w hw
      rwa [hlenient] at hw
    · -- a number that cannot be read is 0, which is read in every base
      rw [hradix, ← hlenient]
      decide
  · intro hsame
    exact ⟨parse_imm_of_ok (by rw [hlower, hupper]) hsame, parseHexOrZero_of_ok hlower hsame⟩

/-- What the lenient parsers make of a text that the dispatcher accepts. -/
lemma lenient_iff (h : parseAddress s = .ok v) :
    (Transforms.parse_imm s = some v ∧ parseHexOrZero s = v) ↔ SharedText s v := by
  rcases parseAddress_eq_ok h with ⟨cs, htext, hcs⟩ | ⟨cs, htext, hcs⟩ | ⟨hmark, hcs⟩
  · exact iff_of_true (lenient_of_lower htext hcs) (.inl ⟨cs, htext⟩)
  · obtain ⟨himm, hzero⟩ := lenient_of_upper htext hcs
    rw [hzero, SharedText, htext]
    simp [himm, stripHexMark, eq_comm]
  · have hmarked : ¬∃ digits, trimChars s.toList = '0' :: 'x' :: digits := by
      rintro ⟨digits, htext⟩
      rw [htext] at hmark
      cases hmark
    rw [lenient_of_decimal hcs, SharedText, or_iff_right hmarked, and_iff_right hmark]
    refine (or_iff_right_of_imp ?_).symm
    rintro rfl
    decide

end

/-- **The text of an address.**  The parsers agree with the dispatcher on a text that it accepts
exactly if the text is shared, and all of them read an address back from the text that the worker
writes. -/
theorem address_parsers_iff (s : String) (v w : U64) :
    (parse_ea_param s = .ok v → (Agree s v ↔ SharedText s v)) ∧
    parse_ea_param (hex w) = .ok w ∧ Agree (hex w) w := by
  have hagree {s : String} {v : U64} (h : parseAddress s = .ok v) :
      Agree s v ↔ SharedText s v := by
    rw [← lenient_iff h]
    constructor
    · exact fun hall => ⟨hall.imm, hall.deep⟩
    · rintro ⟨himm, hlenient⟩
      exact ⟨ofParse_eq_ok.mpr h, ofParse_eq_ok.mpr h, himm, ofParse_eq_ok.mpr h,
        by rw [Tools.parse_ea, h]; rfl, hlenient, hlenient⟩
  refine ⟨fun h => hagree (ofParse_eq_ok.mp h), ofParse_eq_ok.mpr (parseAddress_hex w), ?_⟩
  exact (hagree (parseAddress_hex w)).mpr (.inl ⟨_, trimChars_hex w⟩)

/-- All parsers read `0x401000`, with blanks around it. -/
theorem address_parsers_iff_marked : Agree " 0x401000" 0x401000 :=
  ((address_parsers_iff " 0x401000" 0x401000 0).1 rfl).mpr (.inl ⟨"401000".toList, rfl⟩)

/-- The dispatcher reads `16` as sixteen, the deep analyses as twenty-two. -/
theorem address_parsers_disagree :
    ¬((∀ (s : String) (v : U64), parse_ea_param s = .ok v → Agree s v) ∧
      ∀ v : U64, Agree (hex v) v) := by
  rintro ⟨h, -⟩
  have hdeep := (h "16" 16 rfl).deep
  exact absurd hdeep (by decide)

end ReverseMcp
