import Mathlib.Data.Prod.Lex
import ReverseMcp.Core.Error
import ReverseMcp.Rust.Fields

/-!
# Version requirements

`rmcp_core::discovery`: the versions of an installation and the requirements that
`ida_db.open` reads.

`Atom` is the grammar of one requirement, with the blanks that may stand in it, and `Understands`
says that a list of atoms is accepted and means what its atoms say.  It holds of exactly the lists
without the operator `=` (`requirement_language_iff`): that operator is not recognised, so its
atom goes to `Version::parse` as a whole and is refused.
-/

namespace ReverseMcp

open Rust

/-! ## The code -/

/-- `discovery::Version`. -/
structure Version where
  major : U32
  minor : U32
  build : U32
deriving DecidableEq

/-- `Version::parse`. -/
def Version.parse (s : String) : Option Version :=
  match splitChars '.' (trimChars s.toList) with
  | major :: minor :: rest => do
    let major ← parseU32 major
    let minor ← parseU32 minor
    let build := (rest.head?.bind parseU32).getD 0
    return { major, minor, build }
  | _ => none

/-- `Display` of a version. -/
def Version.text (v : Version) : String :=
  if v.build = 0 then s!"{v.major.val}.{v.minor.val}"
  else s!"{v.major.val}.{v.minor.val}.{v.build.val}"

/-- `discovery::Constraint`. -/
inductive Constraint where
  | exact (r : Version)
  | atLeast (r : Version)
  | atMost (r : Version)
  | greater (r : Version)
  | less (r : Version)
deriving DecidableEq

/-- `<` of a pair of numbers. -/
def pairLt (a b : U32 × U32) : Bool := a.1 < b.1 || (a.1 == b.1 && a.2 < b.2)

/-- `<=` of a pair of numbers. -/
def pairLe (a b : U32 × U32) : Bool := a.1 < b.1 || (a.1 == b.1 && a.2 ≤ b.2)

/-- `Constraint::matches`. -/
def Constraint.matches (c : Constraint) (v : Version) : Bool :=
  match c with
  | exact r => v.major == r.major && v.minor == r.minor
  | atLeast r => pairLe (r.major, r.minor) (v.major, v.minor)
  | atMost r => pairLe (v.major, v.minor) (r.major, r.minor)
  | greater r => pairLt (r.major, r.minor) (v.major, v.minor)
  | less r => pairLt (v.major, v.minor) (r.major, r.minor)

/-- `discovery::IdaRequirement`. -/
structure IdaRequirement where
  constraints : List Constraint
  latest : Bool

/-- `str::strip_prefix`. -/
def stripPrefix (p cs : List Char) : Option (List Char) := cs.dropPrefix? p

/-- `Version::parse(rest).ok_or_else(|| e)`. -/
def versionOr (rest : List Char) (e : Error) : Result Version :=
  match Version.parse (String.ofList rest) with
  | some v => .ok v
  | none => .err e

namespace IdaRequirement

/-- One round of the loop of `IdaRequirement::parse`, with the part already trimmed. -/
def parsePart (req part : List Char) : Result Constraint :=
  let bad := Error.config s!"bad version in requirement: '{String.ofList part}'"
  if let some rest := stripPrefix [ '>', '=' ] part then do
    let v ← versionOr rest bad
    return .atLeast v
  else if let some rest := stripPrefix [ '<', '=' ] part then do
    let v ← versionOr rest bad
    return .atMost v
  else if let some rest := stripPrefix [ '>' ] part then do
    let v ← versionOr rest bad
    return .greater v
  else if let some rest := stripPrefix [ '<' ] part then do
    let v ← versionOr rest bad
    return .less v
  else do
    let v ← versionOr part (.config (s!"bad version requirement '{String.ofList req}'" ++
      ": use \"9.2\", \"latest\" or \">=9.2,<9.4\""))
    return .exact v

/-- `IdaRequirement::parse`. -/
def parse (req : String) : Result IdaRequirement :=
  let req := trimChars req.toList
  if req.isEmpty || eqIgnoreAsciiCase (String.ofList req) "latest" then
    .ok { constraints := [], latest := true }
  else do
    let parts := (splitChars ',' req).map trimChars
    let constraints ← Outcome.mapList (parsePart req) parts
    return { constraints, latest := false }

end IdaRequirement

/-- `IdaRequirement::matches`. -/
def IdaRequirement.matches (r : IdaRequirement) (v : Version) : Bool :=
  r.constraints.all fun c => c.matches v

/-! ## Requirement atoms -/

/-- The operators of the documented forms; `bare` is the form without one. -/
inductive Op where
  | bare
  | eq
  | ge
  | le
  | gt
  | lt
deriving DecidableEq

/-- The operator as it is written. -/
def Op.chars : Op → List Char
  | bare => []
  | eq => ['=']
  | ge => [ '>', '=' ]
  | le => [ '<', '=' ]
  | gt => ['>']
  | lt => ['<']

/-- What the operator says of a version and the one behind it. -/
def Op.Holds (v r : Lex (U32 × U32)) : Op → Prop
  | bare => v = r
  | eq => v = r
  | ge => r ≤ v
  | le => v ≤ r
  | gt => r < v
  | lt => v < r

/-- Text that is only blank. -/
abbrev BlankText : Type := {cs : List Char // Blanks cs}

/-- One atom of a requirement: an operator and `M.m`, with blanks around every token and zeros in
front of the numbers. -/
structure Atom where
  op : Op
  major : U32
  minor : U32
  majorZeros : ℕ
  minorZeros : ℕ
  before : BlankText
  gap : BlankText
  beforeDot : BlankText
  afterDot : BlankText
  after : BlankText

namespace Atom

/-- The version part of an atom, as it is written. -/
def number (a : Atom) : List Char :=
  a.gap.val ++ (decimal a.majorZeros a.major ++ a.beforeDot.val) ++
    '.' :: (a.afterDot.val ++ (decimal a.minorZeros a.minor ++ a.after.val))

/-- An atom as it is written. -/
def chars (a : Atom) : List Char := a.before.val ++ (a.op.chars ++ a.number)

/-- What an atom says of a version. -/
def Holds (a : Atom) (v : Version) : Prop :=
  a.op.Holds (toLex (v.major, v.minor)) (toLex (a.major, a.minor))

/-- The version of an atom, as it is read. -/
def version (a : Atom) : Version := { major := a.major, minor := a.minor, build := 0 }

end Atom

/-- A comma-separated list of atoms. -/
def requirement (atoms : List Atom) : String :=
  String.ofList ([','].intercalate (atoms.map Atom.chars))

/-- The requirement is accepted and a version meets it iff every atom holds. -/
def Understands (atoms : List Atom) : Prop :=
  ∃ r, IdaRequirement.parse (requirement atoms) = .ok r ∧
    ∀ v, r.matches v = true ↔ ∀ a ∈ atoms, a.Holds v

/-! ## Versions -/

lemma version_parse_eq {s : String} {major minor : List Char} (rest : List (List Char))
    (h : (splitChars '.' s.toList).map trimChars = major :: minor :: rest) :
    Version.parse s = do
      let M ← parseU32 major
      let m ← parseU32 minor
      return { major := M, minor := m, build := (rest.head?.bind parseU32).getD 0 } := by
  rw [← map_trimChars_splitChars (by decide)] at h
  rw [Version.parse]
  cases hsplit : splitChars '.' (trimChars s.toList) with
  | nil => simp [hsplit] at h
  | cons u us =>
    cases us with
    | nil => simp [hsplit] at h
    | cons w ws =>
      simp only [hsplit, List.map_cons, List.cons.injEq] at h
      obtain ⟨rfl, rfl, rfl⟩ := h
      have hhead : ((ws.map trimChars).head?.bind parseU32) = ws.head?.bind parseU32 := by
        cases ws <;> simp [parseU32_trimChars]
      simp only [parseU32_trimChars, hhead]

lemma dot_not_mem_decimal (k : ℕ) (n : U32) : '.' ∉ decimal k n :=
  not_mem_decimal (by unfold IsDigitChar; decide)

/-- A version that was formatted is read back. -/
lemma version_parse_text (v : Version) : Version.parse v.text = some v := by
  obtain ⟨major, minor, build⟩ := v
  have hM := dot_not_mem_decimal 0 major
  have hm := dot_not_mem_decimal 0 minor
  have hb := dot_not_mem_decimal 0 build
  have hdot : (toString ".").toList = ['.'] := rfl
  by_cases h0 : build = 0
  · subst h0
    have htext : (Version.text ⟨major, minor, 0⟩).toList =
        decimal 0 major ++ '.' :: decimal 0 minor := by
      simp [Version.text, decimal, hdot]
    rw [version_parse_eq []
      (by rw [htext, splitChars_append hM, splitChars_of_not_mem hm]; rfl)]
    simp [trimChars_decimal_self, parseU32_decimal]
  · have htext : (Version.text ⟨major, minor, build⟩).toList =
        decimal 0 major ++ '.' :: (decimal 0 minor ++ '.' :: decimal 0 build) := by
      simp [Version.text, h0, decimal, hdot]
    rw [version_parse_eq [trimChars (decimal 0 build)]
      (by rw [htext, splitChars_append hM, splitChars_append hm, splitChars_of_not_mem hb]; rfl)]
    simp [trimChars_decimal_self, parseU32_decimal]

/-! ## One atom -/

lemma Blanks.dot_not_mem (b : BlankText) : '.' ∉ b.val := b.property.not_mem (by decide)

lemma stripPrefix_ne {c d : Char} (h : d ≠ c) (p cs : List Char) :
    stripPrefix (c :: p) (d :: cs) = none := by
  simp [stripPrefix, List.dropPrefix?, h]

lemma stripPrefix_self (p cs : List Char) : stripPrefix p (p ++ cs) = some cs := by
  rw [stripPrefix, List.dropPrefix?_append_of_beq cs (by simp)]

namespace Atom

variable (a : Atom)

/-- The pieces of a version part behind some text. -/
lemma splitChars_number {p : List Char} (hp : '.' ∉ p) :
    (splitChars '.' (p ++ a.number)).map trimChars =
      [trimChars (p ++ (a.gap.val ++ decimal a.majorZeros a.major)),
        decimal a.minorZeros a.minor] := by
  have hfront : '.' ∉ p ++ (a.gap.val ++ (decimal a.majorZeros a.major ++ a.beforeDot.val)) := by
    simp only [List.mem_append, not_or]
    exact ⟨hp, Blanks.dot_not_mem _, dot_not_mem_decimal _ _, Blanks.dot_not_mem _⟩
  have hback : '.' ∉ a.afterDot.val ++ (decimal a.minorZeros a.minor ++ a.after.val) := by
    simp only [List.mem_append, not_or]
    exact ⟨Blanks.dot_not_mem _, dot_not_mem_decimal _ _, Blanks.dot_not_mem _⟩
  have htrim : trimChars (p ++ (a.gap.val ++ (decimal a.majorZeros a.major ++ a.beforeDot.val))) =
      trimChars (p ++ (a.gap.val ++ decimal a.majorZeros a.major)) := by
    rw [← trimChars_append_right (p ++ (a.gap.val ++ decimal a.majorZeros a.major))
      a.beforeDot.property]
    simp only [List.append_assoc]
  rw [number, ← List.append_assoc p, splitChars_append hfront, splitChars_of_not_mem hback]
  simp only [List.map_cons, List.map_nil, htrim,
    trimChars_decimal a.afterDot.property a.after.property]

/-- The version part is read, whatever blanks were trimmed from it. -/
lemma parse_number {cs : List Char}
    (h : (splitChars '.' cs).map trimChars = (splitChars '.' a.number).map trimChars) :
    Version.parse (String.ofList cs) = some a.version := by
  have hmajor : trimChars (a.gap.val ++ decimal a.majorZeros a.major) =
      decimal a.majorZeros a.major := by
    rw [trimChars_append_left a.gap.property, trimChars_decimal_self]
  have hsplit := a.splitChars_number (p := []) (by simp)
  simp only [List.nil_append, hmajor] at hsplit
  rw [version_parse_eq [] (by rw [String.toList_ofList, h, hsplit])]
  simp [parseU32_decimal, version]

/-- Behind its blanks the version part begins with a digit. -/
lemma exists_number :
    ∃ d cs, a.number = a.gap.val ++ d :: cs ∧ IsDigitChar d ∧ isWhitespace d = false := by
  obtain ⟨d, ds, hds, hd, hw⟩ := exists_decimal a.majorZeros a.major
  refine ⟨d, ds ++ (a.beforeDot.val ++
    '.' :: (a.afterDot.val ++ (decimal a.minorZeros a.minor ++ a.after.val))), ?_, hd, hw⟩
  simp [number, hds]

lemma exists_trimChars_number : ∃ d cs, trimChars a.number = d :: cs ∧ IsDigitChar d := by
  obtain ⟨d, cs, h, hd, hw⟩ := a.exists_number
  exact ⟨d, trimEnd cs, by rw [h, trimChars_append_left a.gap.property, trimChars_cons hw], hd⟩

/-- No sign can be read across the border between an operator and its version. -/
lemma stripPrefix_trimEnd_number (c : Char) :
    stripPrefix [c, '='] (c :: trimEnd a.number) = none := by
  obtain ⟨d, cs, h, hd, -⟩ := a.exists_number
  cases hnumber : trimEnd a.number with
  | nil => simp [stripPrefix, List.dropPrefix?]
  | cons e es =>
    have hhead : a.number.head? = some e := by
      obtain ⟨b, hb⟩ := trimEnd_prefix a.number
      rw [← hb, hnumber]
      rfl
    have he : e ≠ '=' := by
      rw [h] at hhead
      cases hgap : a.gap.val with
      | nil =>
        rw [hgap] at hhead
        obtain rfl : d = e := by simpa using hhead
        exact hd.ne (by unfold IsDigitChar; decide)
      | cons b bs =>
        rw [hgap] at hhead
        obtain rfl : b = e := by simpa using hhead
        have hb := a.gap.property b (by simp [hgap])
        rintro rfl
        exact absurd hb (by decide)
    simp [stripPrefix, List.dropPrefix?, he]

/-- The constraint an atom stands for. -/
def constraint : Constraint :=
  match a.op with
  | .bare => .exact a.version
  | .eq => .exact a.version
  | .ge => .atLeast a.version
  | .le => .atMost a.version
  | .gt => .greater a.version
  | .lt => .less a.version

/-- The constraint means what the atom says. -/
lemma constraint_matches (v : Version) : a.constraint.matches v = true ↔ a.Holds v := by
  have hlt (x y : U32 × U32) : pairLt x y = true ↔ toLex x < toLex y := by
    simp [pairLt, Prod.Lex.toLex_lt_toLex]
  have hle (x y : U32 × U32) : pairLe x y = true ↔ toLex x ≤ toLex y := by
    simp [pairLe, Prod.Lex.toLex_le_toLex]
  cases hop : a.op <;>
    simp [constraint, hop, Constraint.matches, Holds, Op.Holds, hlt, hle, version]

lemma trimChars_chars_bare (h : a.op = .bare) : trimChars a.chars = trimChars a.number := by
  rw [chars, h, trimChars_append_left a.before.property]
  rfl

/-- Trimmed, an atom begins with its operator. -/
lemma trimChars_chars (h : a.op ≠ .bare) :
    trimChars a.chars = a.op.chars ++ trimEnd a.number := by
  rw [chars, trimChars_append_left a.before.property]
  have hone (c : Char) (hc : isWhitespace c = false) :
      trimChars ([c] ++ a.number) = [c] ++ trimEnd a.number := trimChars_cons hc _
  have htwo (c : Char) (hc : isWhitespace c = false) :
      trimChars ([c, '='] ++ a.number) = [c, '='] ++ trimEnd a.number :=
    (trimChars_cons hc _).trans (congrArg (c :: ·) (trimEnd_cons (by decide) _))
  cases hop : a.op with
  | bare => exact absurd hop h
  | eq => exact hone '=' (by decide)
  | ge => exact htwo '>' (by decide)
  | le => exact htwo '<' (by decide)
  | gt => exact hone '>' (by decide)
  | lt => exact hone '<' (by decide)

lemma versionOr_number {cs : List Char} (e : Error)
    (h : (splitChars '.' cs).map trimChars = (splitChars '.' a.number).map trimChars) :
    versionOr cs e = .ok a.version := by
  rw [versionOr, a.parse_number h]

/-- An atom with any operator but `=` is read as its constraint. -/
lemma parsePart_chars (req : List Char) (h : a.op ≠ .eq) :
    IdaRequirement.parsePart req (trimChars a.chars) = .ok a.constraint := by
  have hend (e : Error) : versionOr (trimEnd a.number) e = .ok a.version :=
    a.versionOr_number e (map_trimChars_trimEnd (by decide) _)
  by_cases hbare : a.op = .bare
  · obtain ⟨d, cs, hcs, hd⟩ := a.exists_trimChars_number
    have hgt : d ≠ '>' := hd.ne (by unfold IsDigitChar; decide)
    have hlt : d ≠ '<' := hd.ne (by unfold IsDigitChar; decide)
    have hversion (e : Error) : versionOr (d :: cs) e = .ok a.version := by
      rw [← hcs]
      exact a.versionOr_number e (map_trimChars_splitChars (by decide) _)
    rw [trimChars_chars_bare a hbare, hcs, IdaRequirement.parsePart]
    simp [stripPrefix_ne hgt, stripPrefix_ne hlt, hversion, constraint, hbare]
  · rw [a.trimChars_chars hbare]
    -- the operators are tried in the order of the source
    cases hop : a.op with
    | bare => exact absurd hop hbare
    | eq => exact absurd hop h
    | ge =>
      rw [Op.chars, IdaRequirement.parsePart, stripPrefix_self]
      simp [hend, constraint, hop]
    | le =>
      rw [Op.chars, IdaRequirement.parsePart, stripPrefix_self]
      simp [stripPrefix_ne, hend, constraint, hop]
    | gt =>
      rw [Op.chars, IdaRequirement.parsePart, stripPrefix_self]
      simp [stripPrefix_ne, stripPrefix_trimEnd_number, hend, constraint, hop]
    | lt =>
      rw [Op.chars, IdaRequirement.parsePart, stripPrefix_self]
      simp [stripPrefix_ne, stripPrefix_trimEnd_number, hend, constraint, hop]

/-- The operator `=` is not recognised: its atom is refused. -/
lemma parsePart_eq (req : List Char) (h : a.op = .eq) :
    ∃ e, IdaRequirement.parsePart req (trimChars a.chars) = .err e := by
  have htrim : trimChars a.chars = '=' :: trimEnd a.number := by
    rw [a.trimChars_chars (by rw [h]; decide), h]
    rfl
  have hpieces : (splitChars '.' ('=' :: trimEnd a.number)).map trimChars =
      [trimChars ('=' :: (a.gap.val ++ decimal a.majorZeros a.major)),
        decimal a.minorZeros a.minor] := by
    rw [← trimEnd_cons (by decide), map_trimChars_trimEnd (by decide)]
    exact a.splitChars_number (p := ['=']) (by decide)
  have hnone : parseU32 (trimChars ('=' :: (a.gap.val ++ decimal a.majorZeros a.major))) =
      none := by
    rw [parseU32_trimChars, parseU32, trimChars_cons (by decide)]
    rfl
  have hversion : Version.parse (String.ofList ('=' :: trimEnd a.number)) = none := by
    rw [version_parse_eq [] (by rw [String.toList_ofList, hpieces]), hnone]
    rfl
  have hor (e : Error) : versionOr ('=' :: trimEnd a.number) e = .err e := by
    rw [versionOr, hversion]
  rw [htrim, IdaRequirement.parsePart]
  simp [stripPrefix_ne, hor]

end Atom

/-! ## Requirements -/

lemma Atom.comma_not_mem_chars (a : Atom) : ',' ∉ a.chars := by
  have hblank (b : BlankText) : ',' ∉ b.val := b.property.not_mem (by decide)
  have hdigits (k : ℕ) (n : U32) : ',' ∉ decimal k n :=
    not_mem_decimal (by unfold IsDigitChar; decide)
  have hop : ',' ∉ a.op.chars := by cases a.op <;> decide
  simp [Atom.chars, Atom.number, hblank, hdigits, hop]

/-- A requirement with an atom is no `latest`: it holds a dot. -/
lemma requirement_not_latest {atoms : List Atom} (hne : atoms ≠ []) :
    ((trimChars (requirement atoms).toList).isEmpty || eqIgnoreAsciiCase
      (String.ofList (trimChars (requirement atoms).toList)) "latest") = false := by
  have hdot : '.' ∈ trimChars (requirement atoms).toList := by
    obtain ⟨a, rest, rfl⟩ := List.exists_cons_of_ne_nil hne
    have hchars : '.' ∈ a.chars := by simp [Atom.chars, Atom.number]
    rw [mem_trimChars (by decide), requirement, String.toList_ofList]
    cases rest with
    | nil => simpa [List.intercalate] using hchars
    | cons b rest => simp [List.intercalate, hchars]
  rw [Bool.or_eq_false_iff]
  constructor
  · rw [List.isEmpty_eq_false_iff]
    exact List.ne_nil_of_mem hdot
  · rw [eqIgnoreAsciiCase, beq_eq_false_iff_ne]
    intro h
    have hmem : '.' ∈ (toAsciiLowercase "latest").toList := by
      rw [← h, toAsciiLowercase, String.toList_ofList, String.toList_ofList]
      exact List.mem_map.mpr ⟨'.', hdot, by decide⟩
    exact absurd hmem (by decide)

/-- The parts of a requirement are its atoms, read one by one. -/
lemma parse_requirement {atoms : List Atom} (hne : atoms ≠ []) :
    IdaRequirement.parse (requirement atoms) = do
      let constraints ← Outcome.mapList (fun a : Atom =>
        IdaRequirement.parsePart (trimChars (requirement atoms).toList) (trimChars a.chars)) atoms
      return { constraints, latest := false } := by
  have hparts : (splitChars ',' (trimChars (requirement atoms).toList)).map trimChars =
      atoms.map fun a => trimChars a.chars := by
    rw [map_trimChars_splitChars (by decide), requirement, String.toList_ofList, splitChars_joined,
      List.map_map]
    · rfl
    · simpa using hne
    · intro w hw
      obtain ⟨a, -, rfl⟩ := List.mem_map.mp hw
      exact a.comma_not_mem_chars
  rw [IdaRequirement.parse]
  simp only [requirement_not_latest hne, hparts, Outcome.mapList_map]
  rfl

/-- **The requirement language.**  Every version is read back from its text.  A comma-separated
list of atoms is accepted, and means that every atom holds of the major and minor number in
lexicographic order, iff none of its atoms has the operator `=`. -/
theorem requirement_language_iff (v : Version) (atoms : List Atom) :
    Version.parse v.text = some v ∧ (Understands atoms ↔ ∀ a ∈ atoms, a.op ≠ .eq) := by
  refine ⟨version_parse_text v, ?_, ?_⟩
  · rintro ⟨r, hr, -⟩ a ha hop
    rw [parse_requirement (List.ne_nil_of_mem ha)] at hr
    obtain ⟨cs, hcs, -⟩ := Outcome.bind_eq_ok.mp hr
    obtain ⟨c, -, hc⟩ := Outcome.mem_mapList hcs ha
    obtain ⟨e, he⟩ := a.parsePart_eq _ hop
    rw [he] at hc
    cases hc
  · intro h
    by_cases hne : atoms = []
    · subst hne
      exact ⟨{ constraints := [], latest := true }, rfl, by simp [IdaRequirement.matches]⟩
    · refine ⟨{ constraints := atoms.map Atom.constraint, latest := false }, ?_, fun v => ?_⟩
      · rw [parse_requirement hne, Outcome.mapList_eq_ok fun a ha => a.parsePart_chars _ (h a ha)]
        rfl
      · simp [IdaRequirement.matches, Atom.constraint_matches]

/-- The atom `=9.2`. -/
def exactAtom : Atom where
  op := .eq
  major := 9
  minor := 2
  majorZeros := 0
  minorZeros := 0
  before := ⟨[], blanks_nil⟩
  gap := ⟨[], blanks_nil⟩
  beforeDot := ⟨[], blanks_nil⟩
  afterDot := ⟨[], blanks_nil⟩
  after := ⟨[], blanks_nil⟩

example : requirement [exactAtom] = "=9.2" := by decide

/-- The requirement `=9.2` of the documented form is refused. -/
theorem requirement_language_refuses :
    ¬ ((∀ atoms, Understands atoms) ∧ ∀ v : Version, Version.parse v.text = some v) := by
  rintro ⟨h, -⟩
  obtain ⟨r, hr, -⟩ := h [exactAtom]
  rw [parse_requirement (by simp)] at hr
  obtain ⟨cs, hcs, -⟩ := Outcome.bind_eq_ok.mp hr
  obtain ⟨c, -, hc⟩ := Outcome.mem_mapList hcs List.mem_cons_self
  obtain ⟨e, he⟩ := exactAtom.parsePart_eq _ rfl
  rw [he] at hc
  cases hc

end ReverseMcp
