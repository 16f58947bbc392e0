import Mathlib.Data.Nat.Notation
import Mathlib.Data.Rat.Init
import Mathlib.Algebra.Order.Ring.Nat
import Mathlib.Algebra.Order.Ring.Unbundled.Rat
import Mathlib.Order.Fin.Basic
import Mathlib.Data.List.Sort
import ReverseMcp.Rust.Outcome

/-!
# Machine integers, text and sorting

The part of Rust's standard library that the worker leans on: fixed-width integers with
overflow checks, `str::trim` and friends, `from_str_radix`, the `{:#x}` and decimal
formats, the slicing decoder behind the three hexadecimal decoders of the workspace, and
the stable sorts of vectors.

What the standard library takes from Unicode tables, and whether the build has overflow
checks, are fields of `Host`.
-/

namespace ReverseMcp.Rust

/-- `u64`, also used for `usize` (the targets are 64-bit). -/
abbrev U64 : Type := Fin (2 ^ 64)

/-- `u32`. -/
abbrev U32 : Type := Fin (2 ^ 32)

/-- `u8`. -/
abbrev U8 : Type := Fin 256

instance neZeroU64 : NeZero (2 ^ 64) := ⟨by decide⟩

instance neZeroU63 : NeZero (2 ^ 63) := ⟨by decide⟩

instance neZeroU32 : NeZero (2 ^ 32) := ⟨by decide⟩

instance neZeroU8 : NeZero 256 := ⟨by decide⟩

instance lawfulBEqU64 : LawfulBEq U64 := inferInstance

instance lawfulBEqU32 : LawfulBEq U32 := inferInstance

instance lawfulBEqBytes : LawfulBEq (List U8) := inferInstance

/-- Tuples are compared lexicographically. -/
instance instOrdPair {α β : Type} [Ord α] [Ord β] : Ord (α × β) := lexOrd

/-- What the model takes from the build and the standard library's Unicode tables. -/
class Host where
  /-- Integer overflow panics (`overflow-checks`); otherwise it wraps. -/
  overflowChecks : Bool
  /-- `str::to_lowercase`. -/
  toLowercase : String → String
  /-- `char::is_alphanumeric`. -/
  isAlphanumeric : Char → Bool
  /-- The shortest decimal text of a float. -/
  floatText : ℚ → List Char

/-- A host on ASCII text, with overflow checks as given; a float is shown as the integer part
of its value. -/
@[reducible] def Host.ascii (overflowChecks : Bool) : Host where
  overflowChecks
  toLowercase s := String.ofList (s.toList.map Char.toLower)
  isAlphanumeric := Char.isAlphanum
  floatText q := (toString q.floor ++ ".0").toList

/-- `a + b` on `u64`. -/
def addU64 [Host] {ε : Type} (a b : U64) : Outcome ε U64 :=
  if a.val + b.val < 2 ^ 64 ∨ Host.overflowChecks = false then .ok (a + b) else .panic .overflow

lemma addU64_of_lt [Host] {ε : Type} {a b : U64} (h : a.val + b.val < 2 ^ 64) :
    addU64 a b = (.ok ⟨a.val + b.val, h⟩ : Outcome ε U64) := by
  have hab : a + b = ⟨a.val + b.val, h⟩ := Fin.ext (by rw [Fin.val_add]; exact Nat.mod_eq_of_lt h)
  rw [addU64, if_pos (Or.inl h), hab]

/-- `n as u64` for a count. -/
def asU64 (n : ℕ) : U64 := Fin.ofNat (2 ^ 64) n

lemma asU64_val {n : ℕ} (h : n < 2 ^ 64) : (asU64 n).val = n := Nat.mod_eq_of_lt h

/-! ## Characters and trimming -/

/-- `char::is_whitespace`: the Unicode `White_Space` property. -/
def isWhitespace (c : Char) : Bool :=
  let n := c.toNat
  (9 ≤ n && n ≤ 13) || n == 0x20 || n == 0x85 || n == 0xa0 || n == 0x1680 ||
    (0x2000 ≤ n && n ≤ 0x200a) || n == 0x2028 || n == 0x2029 || n == 0x202f || n == 0x205f ||
    n == 0x3000

/-- `char::is_control`: the general category `Cc`. -/
def isControl (c : Char) : Bool := c.toNat < 0x20 || (0x7f ≤ c.toNat && c.toNat ≤ 0x9f)

/-- `str::trim` on the characters of a string. -/
def trimChars (cs : List Char) : List Char :=
  ((cs.dropWhile isWhitespace).reverse.dropWhile isWhitespace).reverse

/-- `str::trim`. -/
def trim (s : String) : String := String.ofList (trimChars s.toList)

/-- `str::to_ascii_lowercase`. -/
def toAsciiLowercase (s : String) : String := String.ofList (s.toList.map Char.toLower)

/-- `str::eq_ignore_ascii_case`. -/
def eqIgnoreAsciiCase (s t : String) : Bool := toAsciiLowercase s == toAsciiLowercase t

/-- `str::starts_with`. -/
def startsWith (s p : String) : Bool := p.toList.isPrefixOf s.toList

/-- `str::contains`. -/
def contains (s p : String) : Bool := s.toList.tails.any (p.toList.isPrefixOf ·)

/-- `str::split` at a character. -/
def splitChars (sep : Char) : List Char → List (List Char)
  | [] => [[]]
  | c :: cs =>
    match splitChars sep cs with
    | [] => [[c]]
    | w :: ws => if c = sep then [] :: w :: ws else (c :: w) :: ws

/-- The comma-separated parts of an operand text, trimmed. -/
def splitTrim (s : String) : List String :=
  (splitChars ',' s.toList).map fun p => String.ofList (trimChars p)

/-- `str::split_whitespace().count()`. -/
def countWords (s : String) : ℕ :=
  ((s.toList.splitBy fun a b => isWhitespace a == isWhitespace b).filter
    fun w => !(w.all isWhitespace)).length

/-- `str::lines().count()`. -/
def countLines (s : String) : ℕ :=
  let parts := splitChars '\n' s.toList
  if parts.getLast? = some [] then parts.length - 1 else parts.length

/-- `str::len`: the number of UTF-8 bytes. -/
def byteLen (cs : List Char) : ℕ := (cs.map Char.utf8Size).sum

/-- The slice of the first `n` bytes; `none` when it ends inside a character or behind the text. -/
def sliceTo (n : ℕ) : List Char → Option (List Char)
  | [] => if n = 0 then some [] else none
  | c :: cs =>
    if n = 0 then some []
    else if c.utf8Size ≤ n then (sliceTo (n - c.utf8Size) cs).map (c :: ·)
    else none

/-- The slice is the beginning of the text with that many bytes. -/
lemma sliceTo_eq_some_iff {n : ℕ} {cs ds : List Char} :
    sliceTo n cs = some ds ↔ ds <+: cs ∧ byteLen ds = n := by
  induction cs generalizing n ds with
  | nil =>
    rw [sliceTo, List.prefix_nil]
    constructor
    · intro h
      split at h
      · next hn =>
        cases h
        exact ⟨rfl, hn.symm⟩
      · cases h
    · rintro ⟨rfl, rfl⟩
      rfl
  | cons c cs ih =>
    have hpos : 0 < c.utf8Size := c.utf8Size_pos
    cases ds with
    | nil =>
      rw [sliceTo]
      by_cases hn : n = 0
      · simp [hn, byteLen]
      · have hne : 0 ≠ n := Ne.symm hn
        simp [hn, hne, byteLen]
    | cons d ds =>
      have hlen : byteLen (d :: ds) = d.utf8Size + byteLen ds := rfl
      rw [sliceTo, List.cons_prefix_cons, hlen]
      constructor
      · intro h
        split at h
        · cases h
        · split at h
          · next hle =>
            obtain ⟨es, hes, heq⟩ := Option.map_eq_some_iff.mp h
            obtain ⟨rfl, rfl⟩ := List.cons.inj heq
            obtain ⟨hpre, hn⟩ := ih.mp hes
            exact ⟨⟨rfl, hpre⟩, by omega⟩
          · cases h
      · rintro ⟨⟨rfl, hpre⟩, hn⟩
        have hrest : sliceTo (n - d.utf8Size) cs = some ds := ih.mpr ⟨hpre, by omega⟩
        rw [if_neg (by omega), if_pos (by omega), hrest, Option.map_some]

/-- `str::bytes`. -/
def bytes (s : String) : List U8 :=
  (s.toList.flatMap String.utf8EncodeChar).map fun b => Fin.ofNat 256 b.toNat

/-! ## Parsing integers -/

/-- The kinds of `ParseIntError` an unsigned parse can produce. -/
inductive ParseIntError where
  | empty
  | invalidDigit
  | posOverflow
deriving DecidableEq, Repr

/-- `Display` of a `ParseIntError`. -/
def ParseIntError.text : ParseIntError → String
  | empty => "cannot parse integer from empty string"
  | invalidDigit => "invalid digit found in string"
  | posOverflow => "number too large to fit in target type"

/-- `char::to_digit`, for radix at most 16. -/
def toDigit (radix : ℕ) (c : Char) : Option ℕ :=
  let n := c.toNat
  let d :=
    if 48 ≤ n ∧ n ≤ 57 then n - 48
    else if 97 ≤ n ∧ n ≤ 102 then n - 87
    else if 65 ≤ n ∧ n ≤ 70 then n - 55
    else 16
  if d < radix then some d else none

/-- The digit loop of `from_str_radix`, accumulating below `n`. -/
def parseDigits (n radix : ℕ) : Fin n → List Char → Except ParseIntError (Fin n)
  | acc, [] => .ok acc
  | acc, c :: cs =>
    match toDigit radix c with
    | none => .error .invalidDigit
    | some d =>
      if h : acc.val * radix + d < n then parseDigits n radix ⟨acc.val * radix + d, h⟩ cs
      else .error .posOverflow

/-- `from_str_radix` of an unsigned type with `n` values. -/
def fromStrRadix (n radix : ℕ) [NeZero n] : List Char → Except ParseIntError (Fin n)
  | [] => .error .empty
  | ['+'] => .error .invalidDigit
  | '+' :: cs => parseDigits n radix 0 cs
  | cs => parseDigits n radix 0 cs

/-- `strip_prefix("0x").or_else(|| strip_prefix("0X"))`. -/
def stripHexMark : List Char → Option (List Char)
  | '0' :: 'x' :: cs => some cs
  | '0' :: 'X' :: cs => some cs
  | _ => none

/-- The address parser shared by the worker's modules: `0x`-hexadecimal or decimal, after
trimming. -/
def parseAddress (s : String) : Except ParseIntError U64 :=
  let t := trimChars s.toList
  match stripHexMark t with
  | some hex => fromStrRadix (2 ^ 64) 16 hex
  | none => fromStrRadix (2 ^ 64) 10 t

/-- `trim_start_matches("0x")`: the mark is removed as often as it occurs. -/
def trimHexMarks : List Char → List Char
  | '0' :: 'x' :: cs => trimHexMarks cs
  | cs => cs

/-- The lenient address parser of the analysis modules: hexadecimal with or without marks,
and 0 for anything else. -/
def parseHexOrZero (s : String) : U64 :=
  match fromStrRadix (2 ^ 64) 16 (trimHexMarks (trimChars s.toList)) with
  | .ok v => v
  | .error _ => 0

/-! ## Formatting integers -/

/-- `{:x}`. -/
def hexText (n : ℕ) : String := String.ofList (Nat.toDigits 16 n)

/-- `{:#x}`. -/
def hex (v : U64) : String := String.ofList ('0' :: 'x' :: Nat.toDigits 16 v.val)

/-- `{:0wx}`: at least `w` hexadecimal digits. -/
def hexPadded (w n : ℕ) : String :=
  let ds := Nat.toDigits 16 n
  String.ofList (List.replicate (w - ds.length) '0' ++ ds)

/-- `{:.2}` of a float, computed on the exact value (ties to even). -/
def fixed2 (q : ℚ) : String :=
  let scaled := q * 100
  let low := scaled.floor
  let rest := scaled - low
  let n : ℤ := if rest < 1 / 2 then low else if 1 / 2 < rest then low + 1
    else if low % 2 = 0 then low else low + 1
  let m := n.natAbs
  let frac := Nat.toDigits 10 (m % 100)
  String.ofList ((if n < 0 then ['-'] else []) ++ Nat.toDigits 10 (m / 100) ++
    ['.'] ++ List.replicate (2 - frac.length) '0' ++ frac)

/-! ## Hexadecimal byte strings -/

/-- The loop `(0..len).step_by(2).map(|i| u8::from_str_radix(&s[i..i + 2], 16))`.  The slice
panics when byte `i + 2` is inside a character. -/
def decodePairs : List Char → Outcome ParseIntError (List U8)
  | [] => .ok []
  | c :: cs =>
    if c.utf8Size = 1 then
      match cs with
      | [] => .panic .index
      | d :: rest =>
        if d.utf8Size = 1 then
          match fromStrRadix 256 16 [c, d] with
          | .ok b => do
            let bs ← decodePairs rest
            return b :: bs
          | .error e => .err e
        else .panic .boundary
    else if c.utf8Size = 2 then .err .invalidDigit
    else .panic .boundary

/-! ## Vectors -/

/-- `sort_by_key`, which is stable. -/
def sortByKey {α κ : Type} [Ord κ] (key : α → κ) (l : List α) : List α :=
  l.insertionSort fun a b => (compare (key a) (key b)).isLE

/-- `dedup_by`: of consecutive elements with the same key the first stays. -/
def dedupBy {α κ : Type} [DecidableEq κ] (key : α → κ) : List α → List α
  | [] => []
  | [a] => [a]
  | a :: b :: l =>
    if key a = key b then
      match dedupBy key (b :: l) with
      | [] => [a]
      | _ :: rest => a :: rest
    else a :: dedupBy key (b :: l)

/-- `collect` into an `Option<Vec<_>>`: the values, or `none` when one is absent. -/
def allSome {α β : Type} (f : α → Option β) : List α → Option (List β)
  | [] => some []
  | a :: l => (f a).bind fun b => (allSome f l).map (b :: ·)

/-! ## Hashing -/

/-- FNV-1a over 64-bit words of input. -/
def fnv1a (words : List U64) : U64 :=
  words.foldl (fun h w => (h ^^^ w) * 0x100000001b3) 0xcbf29ce484222325

/-- FNV-1a 64 over bytes. -/
def fnv1a64 (bs : List U8) : U64 := fnv1a (bs.map fun b => asU64 b.val)

end ReverseMcp.Rust
