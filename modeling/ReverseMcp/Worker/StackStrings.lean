import ReverseMcp.Rust.Runs
import ReverseMcp.Worker.Crypto

/-!
# Strings recovered from immediates

`recover_strings` reads the numeric rows of a ctree as one stream of bytes and reports the printable
runs of it.  The loop stops at the bound, and a run that reaches the end of the stream is closed
behind it; still what it reports is `runs` of the stream, cut at the bound
(`printableRuns_eq`).

`recover_strings_exact` says so in terms of the rows: byte `i` of the stream is byte `i % 8` of the
numeric row `i / 8`.
-/

namespace ReverseMcp

open Rust

namespace Crypto

/-- `crypto::recover_strings` on any backend. -/
def recover_stringsIn (hr_cfunc : U64 → Bool → Bool → ℕ → Result Json) (idx : AnalysisIndex)
    (target : U64) (max_strings : ℕ) : Result Json := do
  let f ← Outcome.ofOption (Error.worker s!"no function at {hex target}") idx.functions[target]?
  let hr ← hr_cfunc target true false 8000
  match (hr.idx "ctree").asArray with
  | none => return .object [("target", .ea target), ("strings", .array []),
      ("note", "no ctree available")]
  | some rows =>
    return .object [("target", .ea target), ("name", f.name),
      ("strings", .array (printableRuns max_strings (immediates rows) [] [])),
      ("callers", .array (f.callers.map Json.ea)),
      ("note", "recovered from immediate-store analysis; the IDB is not patched")]

lemma recover_strings_mock [Host] (b : MockBackend) (idx : AnalysisIndex) (target : U64)
    (max_strings : ℕ) : recover_strings b idx target max_strings =
      recover_stringsIn b.hr_cfunc idx target max_strings := rfl

/-! ## The stream of bytes -/

/-- The rows of numbers. -/
def numericRows (rows : List Json) : List Json :=
  rows.filter fun row => (row.idx "is_expr").asBool = some true ∧ (row.idx "op").asU64 = some 68

/-- The bytes of a number, the lowest first. -/
def valueBytes (row : Json) : List U8 := toLeBytes (((row.idx "c").asU64).getD 0)

/-- The address of a row. -/
def rowEa (row : Json) : U64 := ((row.idx "ea").asU64).getD 0

/-- The bytes of all numbers. -/
def numericBytes (rows : List Json) : List U8 := (numericRows rows).flatMap valueBytes

/-- The address of the row that a byte comes from. -/
def siteOf (rows : List Json) (i : ℕ) : U64 := ((numericRows rows)[i / 8]?.map rowEa).getD 0

/-- The byte is a printable character. -/
def isPrintable (b : U8) : Bool := 0x20 ≤ b.val ∧ b.val < 0x7f

/-- The row of the string that a run of the bytes spells. -/
def stringRow (rows : List Json) (r : ℕ × ℕ) : Json :=
  .object [("value", String.ofList ((slice (numericBytes rows) r).map fun b => Char.ofNat b.val)),
    ("technique", "stack_or_array_immediates"),
    ("sites", .array ((List.range' r.1 (r.2 - r.1)).map fun i => .ea (siteOf rows i))),
    ("confidence", if r.1 + 6 ≤ r.2 then "0.8" else "0.6")]

lemma map_snd_immediates (rows : List Json) :
    (immediates rows).map Prod.snd = numericBytes rows := by
  rw [immediates, numericBytes, List.map_flatMap]
  simp only [List.map_map]
  exact List.flatMap_congr fun row _ => by simp [valueBytes, Function.comp_def]

lemma getElem?_flatMap_blocks {α β : Type} {n : ℕ} (hn : 0 < n) {f : α → List β}
    (hf : ∀ a, (f a).length = n) (l : List α) (i : ℕ) :
    (l.flatMap f)[i]? = l[i / n]?.bind fun a => (f a)[i % n]? := by
  induction l generalizing i with
  | nil => simp
  | cons a l ih =>
    rw [List.flatMap_cons]
    by_cases hi : i < n
    · rw [List.getElem?_append_left (by rwa [hf]), Nat.div_eq_of_lt hi, Nat.mod_eq_of_lt hi]
      rfl
    · have hdiv : i / n = (i - n) / n + 1 := by
        rw [← Nat.sub_add_cancel (not_lt.mp hi), Nat.add_div_right _ hn, Nat.add_sub_cancel]
      rw [List.getElem?_append_right (by rw [hf]; omega), hf, ih, hdiv, List.getElem?_cons_succ,
        Nat.mod_eq_sub_mod (not_lt.mp hi)]

/-- Each byte stands beside the address of its row. -/
lemma fst_immediates {rows : List Json} {i : ℕ} {x : U64 × U8}
    (h : (immediates rows)[i]? = some x) : x.1 = siteOf rows i := by
  rw [immediates, getElem?_flatMap_blocks (n := 8) (by decide) (by simp [toLeBytes])] at h
  obtain ⟨row, hrow, hx⟩ := Option.bind_eq_some_iff.mp h
  rw [List.getElem?_map] at hx
  obtain ⟨b, -, rfl⟩ := Option.map_eq_some_iff.mp hx
  rw [siteOf, numericRows, hrow]
  rfl

/-- A run of the stream has the row of the run of the bytes. -/
lemma runRow_slice {rows : List Json} {r : ℕ × ℕ} (hlo : r.1 ≤ r.2)
    (hhi : r.2 ≤ (numericBytes rows).length) :
    runRow (slice (immediates rows) r) = stringRow rows r := by
  rw [← map_snd_immediates, List.length_map] at hhi
  have hlength : (slice (immediates rows) r).length = r.2 - r.1 := by
    rw [slice, List.length_drop, List.length_take, min_eq_left hhi]
  have hbytes : (slice (immediates rows) r).map Prod.snd = slice (numericBytes rows) r := by
    rw [slice, List.map_drop, List.map_take, map_snd_immediates, slice]
  have hsites : (slice (immediates rows) r).map Prod.fst =
      (List.range' r.1 (r.2 - r.1)).map (siteOf rows) := by
    refine List.ext_getElem? fun i => ?_
    by_cases hi : i < r.2 - r.1
    · have hget := List.getElem?_eq_getElem (l := immediates rows) (i := r.1 + i) (by omega)
      rw [slice, List.getElem?_map, List.getElem?_drop, List.getElem?_take_of_lt (by omega), hget,
        List.getElem?_map, List.getElem?_range' hi, Nat.one_mul]
      exact congrArg some (fst_immediates hget)
    · rw [List.getElem?_eq_none (by simp [hlength]; omega), List.getElem?_eq_none (by simp; omega)]
  have hvalue : (slice (immediates rows) r).map (fun x => Char.ofNat x.2.val) =
      (slice (numericBytes rows) r).map fun b => Char.ofNat b.val := by
    rw [← hbytes, List.map_map]
    rfl
  have hea : (slice (immediates rows) r).map (fun x => Json.ea x.1) =
      (List.range' r.1 (r.2 - r.1)).map fun i => Json.ea (siteOf rows i) := by
    have hmap := congrArg (List.map Json.ea) hsites
    rwa [List.map_map, List.map_map] at hmap
  have hlong : 6 ≤ r.2 - r.1 ↔ r.1 + 6 ≤ r.2 := by omega
  rw [runRow, stringRow, hvalue, hea, hlength]
  simp only [hlong]

/-! ## The loop -/

lemma length_slice {α : Type} {l : List α} {pos run : ℕ} (hpos : pos ≤ l.length)
    (hrun : run ≤ pos) : (slice l (pos - run, pos)).length = run := by
  rw [slice, List.length_drop, List.length_take]
  dsimp only
  omega

/-- The loop collects the runs of the stream until the bound. -/
lemma printableRuns_eq {max_strings : ℕ} {stream rest : List (U64 × U8)} {pos run : ℕ}
    {strings : List Json} (hrest : stream.drop pos = rest) (hpos : pos ≤ stream.length)
    (hrun : run ≤ pos) (hroom : strings.length < max_strings) :
    printableRuns max_strings rest (slice stream (pos - run, pos)) strings =
      strings ++ (((runsFrom (isPrintable ∘ Prod.snd) 4 pos rest run).map fun r =>
        runRow (slice stream r)).take (max_strings - strings.length)) := by
  have hlength := length_slice hpos hrun
  induction rest generalizing pos run strings with
  | nil =>
    rw [printableRuns, runsFrom, hlength]
    by_cases hlong : 4 ≤ run
    · rw [if_pos ⟨hlong, hroom⟩, if_pos hlong, List.take_of_length_le (by simp; omega)]
      rfl
    · rw [if_neg fun h => hlong h.1, if_neg hlong]
      simp
  | cons x rest ih =>
    have hget : stream[pos]? = some x := by
      have hhead := congrArg List.head? hrest
      rwa [List.head?_drop] at hhead
    have hdrop : stream.drop (pos + 1) = rest := by
      have htail := congrArg List.tail hrest
      rwa [List.tail_drop] at htail
    have hpos' : pos + 1 ≤ stream.length := (List.getElem?_eq_some_iff.mp hget).1
    have hprintable : (isPrintable ∘ Prod.snd) x = true ↔ 0x20 ≤ x.2.val ∧ x.2.val < 0x7f := by
      simp [isPrintable]
    obtain ⟨ea, b⟩ := x
    by_cases hb : 0x20 ≤ b.val ∧ b.val < 0x7f
    · have hpush := ih hdrop hpos' (Nat.succ_le_succ hrun) hroom (length_slice hpos' (by omega))
      rw [Nat.add_sub_add_right, slice_push hget hrun] at hpush
      rw [printableRuns, if_pos hb, runsFrom, if_pos (hprintable.mpr hb), hpush]
    · have hfresh : slice stream (pos + 1 - 0, pos + 1) = [] := List.drop_eq_nil_of_le (by simp)
      have hnext := fun strings hroom => @ih (pos + 1) 0 strings hdrop hpos' (Nat.zero_le _) hroom
        (length_slice hpos' (by omega))
      rw [hfresh] at hnext
      rw [printableRuns, if_neg hb, hlength, runsFrom, if_neg (mt hprintable.mp hb)]
      by_cases hlong : 4 ≤ run
      · rw [if_pos hlong, if_pos hlong]
        have hroom' : max_strings - strings.length = max_strings - (strings.length + 1) + 1 := by
          omega
        dsimp only
        rw [List.singleton_append, List.map_cons, hroom', List.take_succ_cons, List.length_append,
          List.length_singleton]
        by_cases hfull : max_strings ≤ strings.length + 1
        · rw [if_pos hfull, Nat.sub_eq_zero_of_le hfull, List.take_zero]
        · rw [if_neg hfull, hnext _ (by simpa using hfull), List.append_assoc, List.length_append,
            List.length_singleton, List.singleton_append]
      · rw [if_neg hlong, if_neg hlong, hnext strings hroom, List.nil_append]

/-- What is reported are the first `max_strings` maximal runs of at least four printable bytes, in
order, each with the addresses of the rows that its bytes come from. -/
theorem recover_strings_exact {hr_cfunc : U64 → Bool → Bool → ℕ → Result Json}
    {idx : AnalysisIndex} {target : U64} {max_strings : ℕ} {f : FunctionFacts} {hr : Json}
    {rows : List Json} (hf : idx.functions[target]? = some f)
    (hhr : hr_cfunc target true false 8000 = .ok hr) (hrows : (hr.idx "ctree").asArray = some rows)
    (hmax : 1 ≤ max_strings) :
    ∃ rs : List (ℕ × ℕ), rs.Pairwise (fun r r' => r.2 < r'.1) ∧
      (∀ r, r ∈ rs ↔ IsRun isPrintable 4 (numericBytes rows) r) ∧
      ∃ v, recover_stringsIn hr_cfunc idx target max_strings = .ok v ∧
        v.idx "strings" = .array ((rs.take max_strings).map (stringRow rows)) := by
  have hmem : ∀ r, r ∈ runs isPrintable 4 (numericBytes rows) ↔
      IsRun isPrintable 4 (numericBytes rows) r := fun r => mem_runs (by decide)
  refine ⟨runs isPrintable 4 (numericBytes rows), runs_pairwise, hmem, ?_⟩
  have hloop : printableRuns max_strings (immediates rows) [] [] =
      ((runs isPrintable 4 (numericBytes rows)).take max_strings).map (stringRow rows) := by
    have heq : printableRuns max_strings (immediates rows) (slice (immediates rows) (0 - 0, 0)) [] =
        _ := printableRuns_eq List.drop_zero (Nat.zero_le _) le_rfl hmax
    have hruns : runsFrom (isPrintable ∘ Prod.snd) 4 0 (immediates rows) 0 =
        runs isPrintable 4 (numericBytes rows) := by
      rw [← map_snd_immediates, ← runs_map]
      rfl
    rw [hruns, ← List.map_take] at heq
    refine heq.trans (List.map_congr_left fun r hr => ?_)
    have hrun := (hmem r).mp (List.mem_of_mem_take hr)
    exact runRow_slice (le_of_add_le_left hrun.long) hrun.bound
  obtain ⟨v, hv, hstrings⟩ : ∃ v, recover_stringsIn hr_cfunc idx target max_strings = .ok v ∧
      v.idx "strings" = .array (printableRuns max_strings (immediates rows) [] []) := by
    rw [recover_stringsIn, hf, hhr]
    simp only [Outcome.ofOption, Outcome.ok_bind, hrows]
    exact ⟨_, rfl, rfl⟩
  exact ⟨v, hv, hstrings.trans (congrArg Json.array hloop)⟩

/-- An index of one function. -/
def soleFunction : AnalysisIndex :=
  ⟨1, "", 0, (∅ : AddrMap FunctionFacts).insert 0x401000
    { ea_start := 0x401000, ea_end := 0x401020, name := "f", size := 0x20 }, []⟩

/-- Two numbers in a row, which spell `ABCDEFGHIJ`. -/
def spelled : List Json :=
  [.object [("is_expr", true), ("op", .nat 68), ("c", .nat 0x4847464544434241),
      ("ea", .nat 0x401000)],
    .object [("is_expr", true), ("op", .nat 68), ("c", .nat 0x4a49), ("ea", .nat 0x401008)]]

/-- The rows of one string. -/
theorem recover_strings_exact_spelled :
    ∃ rs : List (ℕ × ℕ), rs.Pairwise (fun r r' => r.2 < r'.1) ∧
      (∀ r, r ∈ rs ↔ IsRun isPrintable 4 (numericBytes spelled) r) ∧
      ∃ v, recover_stringsIn (fun _ _ _ _ => .ok (.object [("ctree", .array spelled)]))
          soleFunction 0x401000 1 = .ok v ∧
        v.idx "strings" = .array ((rs.take 1).map (stringRow spelled)) :=
  recover_strings_exact Std.ExtTreeMap.getElem?_insert_self rfl rfl le_rfl

example : runs isPrintable 4 (numericBytes spelled) = [(0, 10)] := by decide +kernel

end Crypto

end ReverseMcp
