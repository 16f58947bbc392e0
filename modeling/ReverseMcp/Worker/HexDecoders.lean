import ReverseMcp.Ida.Mock
import ReverseMcp.Rust.Hex
import ReverseMcp.Worker.Crypto

/-!
# The hexadecimal decoders

`rules::decode_hex_str`, `hex::decode` of the mock backend and `crypto::decode_hex` cut a text into
slices of two bytes and leave each of them to `from_str_radix`.  A slice that ends inside a
character panics, and `from_str_radix` takes a sign for the first digit.  On all other texts they
are right (`hex_decoders_iff`).
-/

namespace ReverseMcp

open Rust

/-- The answer of a decoder is right: the bytes that the text denotes, and otherwise a refusal. -/
structure Decodes {α : Type} (cs : List Char) (accept : List U8 → α) (refusal : α → Prop)
    (x : α) : Prop where
  accepts : HexText cs → ∃ bs, hexValue cs = some bs ∧ x = accept bs
  refuses : ¬HexText cs → refusal x

/-- No slice ends inside a character, and no sign is taken for a digit. -/
def PlainHex (cs : List Char) : Prop := HexSafe cs ∧ ¬SignRead cs

/-- The text without its whitespace. -/
def withoutBlanks (s : String) : List Char := s.toList.filter fun c => !isWhitespace c

/-- A decoder that answers with an option is right. -/
def DecodesOption (cs : List Char) (x : Result (Option (List U8))) : Prop :=
  Decodes cs (fun bs => .ok (some bs)) (fun x => x = .ok none) x

/-- A decoder that answers with a result is right. -/
def DecodesResult (cs : List Char) (x : Outcome String (List U8)) : Prop :=
  Decodes cs .ok (fun x => ∃ e, x = .err e) x

section
variable {cs : List Char}

lemma decodes_some {α : Type} {accept : List U8 → α} {refusal : α → Prop} {x : α} {bs : List U8}
    (h : hexValue cs = some bs) : Decodes cs accept refusal x ↔ x = accept bs := by
  have htext : HexText cs := (hexValue_isSome_iff cs).mp (by rw [h]; rfl)
  constructor
  · rintro ⟨haccepts, -⟩
    obtain ⟨bs', hbs', hx⟩ := haccepts htext
    rwa [Option.some.inj (h.symm.trans hbs')]
  · exact fun hx => ⟨fun _ => ⟨bs, h, hx⟩, fun hno => absurd htext hno⟩

lemma decodes_none {α : Type} {accept : List U8 → α} {refusal : α → Prop} {x : α}
    (h : hexValue cs = none) : Decodes cs accept refusal x ↔ refusal x := by
  have htext : ¬HexText cs := by
    rw [← hexValue_isSome_iff, h]
    exact Bool.false_ne_true
  exact ⟨fun hx => hx.refuses htext, fun hx => ⟨fun hyes => absurd hyes htext, fun _ => hx⟩⟩

/-- A text of odd length denotes nothing, and is refused before it is cut. -/
lemma plainHex_of_odd (h : ¬byteLen cs % 2 = 0) : hexValue cs = none ∧ PlainHex cs := by
  refine ⟨Option.eq_none_iff_forall_ne_some.mpr fun bs hbs => ?_, ?_, ?_⟩
  · exact h (decodePairs_of_hexValue hbs).1
  · exact fun heven => absurd heven h
  · exact fun hsign => h hsign.1

/-- What a decoder makes of the outcome of the slicing loop. -/
lemma decodes_pairs_iff {α : Type} {accept : List U8 → α} {refusal : α → Prop} {x : α}
    (hlen : byteLen cs % 2 = 0) (hok : ∀ bs, decodePairs cs = .ok bs → x = accept bs)
    (herr : ∀ e, decodePairs cs = .err e → refusal x)
    (hpanic : ∀ p, decodePairs cs = .panic p → (∀ bs, x ≠ accept bs) ∧ ¬refusal x)
    (haccept : Function.Injective accept) (hrefusal : ∀ bs, ¬refusal (accept bs)) :
    Decodes cs accept refusal x ↔ PlainHex cs := by
  rw [PlainHex, ← decodePairs_right_iff hlen]
  cases hvalue : hexValue cs with
  | none =>
    rw [decodes_none hvalue]
    cases hpairs : decodePairs cs with
    | ok bs => simp [hok bs hpairs, hrefusal]
    | err e => simp [herr e hpairs]
    | panic p => simp [(hpanic p hpairs).2]
  | some bs =>
    rw [decodes_some hvalue]
    cases hpairs : decodePairs cs with
    | ok bs' => simp [hok bs' hpairs, haccept.eq_iff, eq_comm]
    | err e =>
      -- a text of digits is no error
      cases hpairs.symm.trans (decodePairs_of_hexValue hvalue).2
    | panic p => simp [(hpanic p hpairs).1]

lemma decodeEven_iff (cs : List Char) : DecodesOption cs (Rules.decodeEven cs) ↔ PlainHex cs := by
  rw [Rules.decodeEven]
  split
  · rename_i hlen
    refine decodes_pairs_iff hlen (fun bs h => ?_) (fun e h => ?_) (fun p h => ?_) ?_ ?_
    · rw [h]
    · rw [h]
    · rw [h]
      exact ⟨nofun, nofun⟩
    · exact fun bs bs' h => Option.some.inj (Outcome.ok.inj h)
    · exact fun bs h => nomatch h
  · rename_i hodd
    obtain ⟨hnone, hplain⟩ := plainHex_of_odd hodd
    exact iff_of_true ((decodes_none hnone).mpr rfl) hplain

lemma hexDecode_iff (cs : List Char) :
    DecodesResult cs (MockBackend.hexDecode cs) ↔ PlainHex cs := by
  rw [MockBackend.hexDecode]
  split
  · rename_i hlen
    refine decodes_pairs_iff hlen (fun bs h => ?_) (fun e h => ?_) (fun p h => ?_) ?_ ?_
    · rw [h]
    · rw [h]
      exact ⟨_, rfl⟩
    · rw [h]
      exact ⟨nofun, nofun⟩
    · exact fun bs bs' h => Outcome.ok.inj h
    · exact fun bs h => nomatch h
  · rename_i hodd
    obtain ⟨hnone, hplain⟩ := plainHex_of_odd hodd
    exact iff_of_true ((decodes_none hnone).mpr ⟨_, rfl⟩) hplain

end

/-- **The hexadecimal decoders.**  Each of the three is right on a text exactly when no slice of it
ends inside a character and no sign is taken for a digit. -/
theorem hex_decoders_iff (s : String) :
    (DecodesOption (withoutBlanks s) (Rules.decode_hex_str s) ↔ PlainHex (withoutBlanks s)) ∧
    (DecodesResult s.toList (MockBackend.hexDecode s.toList) ↔ PlainHex s.toList) ∧
    (DecodesOption (trimChars s.toList) (Crypto.decode_hex s) ↔ PlainHex (trimChars s.toList)) :=
  ⟨decodeEven_iff _, hexDecode_iff _, decodeEven_iff _⟩

/-- The text `+1` is read as the byte 1. -/
theorem hex_decoders_signed :
    ¬∀ s : String, DecodesOption (withoutBlanks s) (Rules.decode_hex_str s) ∧
      DecodesResult s.toList (MockBackend.hexDecode s.toList) ∧
      DecodesOption (trimChars s.toList) (Crypto.decode_hex s) := by
  intro h
  have hnone : hexValue "+1".toList = none := by decide
  obtain ⟨e, he⟩ := (decodes_none hnone).mp (h "+1").2.1
  cases he

end ReverseMcp
