import ReverseMcp.Rust.Reading

/-!
# Lines of a byte stream

`BufRead::read_line`: the bytes up to and including the next newline, read as UTF-8.  A text
without a newline that is written with one behind it is the next line of the stream
(`readLine_append`), and its bytes are read back as the text (`fromUtf8_bytes`).
-/

namespace ReverseMcp.Rust

/-- The byte `b'\n'`. -/
def newline : U8 := 10

/-- `String::from_utf8`. -/
def fromUtf8 (bs : List U8) : Option String :=
  String.fromUTF8? (bs.map fun b => UInt8.ofNat b.val).toByteArray

/-- A line of the stream with its newline, and what is behind it. -/
def readLine : List U8 → List U8 × List U8
  | [] => ([], [])
  | b :: bs =>
    if b = newline then ([b], bs)
    else
      let (line, rest) := readLine bs
      (b :: line, rest)

/-! ## Texts as bytes -/

lemma bytes_ofList (cs : List Char) :
    bytes (String.ofList cs) =
      (cs.flatMap String.utf8EncodeChar).map fun b => Fin.ofNat 256 b.toNat := by
  rw [bytes, String.toList_ofList]

lemma bytes_append (cs ds : List Char) :
    bytes (String.ofList (cs ++ ds)) = bytes (String.ofList cs) ++ bytes (String.ofList ds) := by
  simp only [bytes_ofList, List.flatMap_append, List.map_append]

/-- The bytes of a text are valid UTF-8, and they are that text. -/
lemma fromUtf8_bytes (s : String) : fromUtf8 (bytes s) = some s := by
  have hbytes :
      (bytes s).map (fun b => UInt8.ofNat b.val) = s.toList.flatMap String.utf8EncodeChar := by
    rw [bytes, List.map_map]
    refine (List.map_congr_left fun b _ => ?_).trans (List.map_id _)
    show UInt8.ofNat (b.toNat % 256) = b
    rw [Nat.mod_eq_of_lt b.toNat_lt, UInt8.ofNat_toNat]
  have harray : (s.toList.flatMap String.utf8EncodeChar).toByteArray = s.toByteArray := by
    rw [← List.utf8Encode, ← String.toByteArray_ofList, String.ofList_toList]
  rw [fromUtf8, hbytes, harray, String.fromUTF8?, dif_pos s.isValidUTF8]
  rfl

/-- A multi-byte character has no byte below `0x80`. -/
lemma newline_mem_utf8EncodeChar {c : Char} (h : (10 : UInt8) ∈ String.utf8EncodeChar c) :
    c = '\n' := by
  have hofNat : ∀ n, (10 : UInt8) = UInt8.ofNat n → n % 256 = 10 := by
    intro n hn
    have hnat := congrArg UInt8.toNat hn
    simpa using hnat.symm
  unfold String.utf8EncodeChar at h
  dsimp only at h
  split at h
  · have hmod := hofNat _ (List.mem_singleton.mp h)
    have hval : c.val.toNat = 10 := by omega
    exact Char.ext (UInt32.toNat_inj.mp hval)
  · exfalso
    -- every byte of a longer encoding has its top bit set
    split at h
    · rcases List.mem_pair.mp h with hb | hb
      all_goals
        have hmod := hofNat _ hb
        omega
    · split at h
      all_goals
        simp only [List.mem_cons, List.not_mem_nil, or_false] at h
        rcases h with hb | hb | hb
        all_goals
          first
          | have hmod := hofNat _ hb
            omega
          | rcases hb with hb | hb
            all_goals
              have hmod := hofNat _ hb
              omega

lemma newline_not_mem_bytes {cs : List Char} (h : '\n' ∉ cs) :
    newline ∉ bytes (String.ofList cs) := by
  rw [bytes_ofList]
  intro hmem
  obtain ⟨b, hb, hnl⟩ := List.mem_map.mp hmem
  obtain ⟨c, hc, hbc⟩ := List.mem_flatMap.mp hb
  have hb10 : b = 10 := by
    have hval := congrArg Fin.val hnl
    have hlt : b.toNat < 256 := b.toNat_lt
    simp only [newline, Fin.ofNat, Nat.mod_eq_of_lt hlt] at hval
    exact UInt8.toNat_inj.mp hval
  subst hb10
  rw [newline_mem_utf8EncodeChar hbc] at hc
  exact h hc

/-! ## Reading a line -/

/-- A line that was written whole is read whole. -/
lemma readLine_append {line : List U8} (h : newline ∉ line) (rest : List U8) :
    readLine (line ++ newline :: rest) = (line ++ [newline], rest) := by
  induction line with
  | nil => simp [readLine]
  | cons b line ih =>
    have hb : b ≠ newline := fun hb => h (by simp [hb])
    have hline : newline ∉ line := fun hl => h (by simp [hl])
    simp only [List.cons_append, readLine, if_neg hb, ih hline]

/-- The next line ends at the first newline, if there is one. -/
lemma readLine_cases (bs : List U8) :
    (newline ∉ bs ∧ readLine bs = (bs, [])) ∨
      ∃ line rest, newline ∉ line ∧ bs = line ++ newline :: rest ∧
        readLine bs = (line ++ [newline], rest) := by
  induction bs with
  | nil => exact Or.inl ⟨by simp, rfl⟩
  | cons b bs ih =>
    by_cases hb : b = newline
    · exact Or.inr ⟨[], bs, by simp, by simp [hb], by simp [readLine, hb]⟩
    · rcases ih with ⟨hmem, hread⟩ | ⟨line, rest, hmem, rfl, hread⟩
      · exact Or.inl ⟨by simp [hmem, Ne.symm hb], by simp [readLine, hb, hread]⟩
      · exact Or.inr
          ⟨b :: line, rest, by simp [hmem, Ne.symm hb], rfl, by simp [readLine, hb, hread]⟩

/-- Two streams that agree have the same first line. -/
lemma line_unique {line line' rest rest' : List U8} (h : newline ∉ line) (h' : newline ∉ line')
    (hpre : line ++ newline :: rest <+: line' ++ newline :: rest') :
    line = line' ∧ rest <+: rest' := by
  induction line generalizing line' with
  | nil =>
    cases line' with
    | nil => exact ⟨rfl, by simpa using hpre⟩
    | cons b line' =>
      have hb : newline = b := (List.cons_prefix_cons.mp hpre).1
      exact absurd (by simp [hb]) h'
  | cons b line ih =>
    cases line' with
    | nil =>
      have hb : b = newline := (List.cons_prefix_cons.mp hpre).1
      exact absurd (by simp [hb]) h
    | cons b' line' =>
      obtain ⟨rfl, htail⟩ := List.cons_prefix_cons.mp hpre
      obtain ⟨rfl, hrest⟩ := ih (fun hm => h (by simp [hm])) (fun hm => h' (by simp [hm])) htail
      exact ⟨rfl, hrest⟩

end ReverseMcp.Rust
