import Mathlib.Data.List.Sort
import ReverseMcp.Rust.Reading
import ReverseMcp.Worker.Crypto

/-!
# Confidence in API hashes

The resolver counts one row for every corpus entry whose hash is the low half of a constant, and
its confidence grows with the rows.  `Confident` says that two rows or more come with two distinct
constants that are hashes.

Rows and constants part in two ways: a constant that two entries share gives two rows, and a
constant above `2 ^ 32` gives a row although it is no hash.  `Misled` is a function where this
happens, and the answer is confident iff no function it looks at is misled (`confident_iff`).
-/

namespace ReverseMcp

namespace Crypto

open Rust
open Deep (items textOf)

/-! ## The resolver on any list of imports -/

/-- The names of an import list. -/
def import_names (imports : Json) : List String :=
  (items imports "modules").flatMap fun m =>
    (items m "entries").filterMap fun e => (e.idx "name").asStr

/-- What goes into the corpus, with its hash, in the order in which it does. -/
def corpusEntries (names : List String) : List (ℕ × CorpusHit) :=
  names.flatMap fun name => ALGOS.map fun algo =>
    ((algo.compute (normalized algo name)).toNat, ⟨algo.name, name, algo.wide⟩)

/-- One entry goes into the corpus. -/
def addEntry (corpus : Std.ExtTreeMap ℕ (List CorpusHit)) (e : ℕ × CorpusHit) :
    Std.ExtTreeMap ℕ (List CorpusHit) :=
  corpus.insert e.1 (corpus[e.1]?.getD [] ++ [e.2])

/-- The corpus of a list of names. -/
def corpusOf (names : List String) : Std.ExtTreeMap ℕ (List CorpusHit) :=
  (corpusEntries names).foldl addEntry ∅

/-- `crypto::resolve_api_hashes` on the reply to its import query. -/
def resolve_api_hashesOn (imports : Json) (idx : AnalysisIndex) (max_findings : ℕ) : Json :=
  let (findings, truncated) :=
    resolverRows (corpusOf (import_names imports)) max_findings idx.functions.toList []
  let ranked := findings.insertionSort fun a b => b.1 ≤ a.1
  .object [("kind", "api_hash_scan"), ("findings", .array (ranked.map Prod.snd)),
    ("truncated", truncated), ("algorithms", .strings algo_names),
    ("note", "algorithms verified against the DB's import-name corpus; low-confidence " ++
      "single-hash resolvers are flagged as such")]

lemma build_corpus_mock (b : MockBackend) :
    build_corpus b = do
      let imports ← b.imports none 0 20000
      return corpusOf (import_names imports) := by
  rw [build_corpus]
  refine congrArg _ (funext fun imports => ?_)
  rw [corpusOf, corpusEntries, ← import_names]
  have hentries : (import_names imports).flatMap (fun name => ALGOS.map fun algo =>
        ((algo.compute (normalized algo name)).toNat,
          (⟨algo.name, name, algo.wide⟩ : CorpusHit))) =
      ((import_names imports).flatMap fun name => ALGOS.map fun algo => (algo, name)).map
        fun p => ((p.1.compute (normalized p.1 p.2)).toNat, ⟨p.1.name, p.2, p.1.wide⟩) := by
    rw [List.map_flatMap]
    simp only [List.map_map]
    rfl
  rw [hentries, List.foldl_map]
  rfl

lemma resolve_api_hashes_mock (b : MockBackend) (idx : AnalysisIndex) (max_findings : ℕ) :
    resolve_api_hashes b idx max_findings = do
      let imports ← b.imports none 0 20000
      return resolve_api_hashesOn imports idx max_findings := by
  rw [resolve_api_hashes, build_corpus_mock]
  cases b.imports none 0 20000 <;> rfl

/-! ## The corpus -/

/-- The matches of a constant: the corpus entries whose hash is its low half. -/
def lowMatches (names : List String) (c : U64) : ℕ :=
  (corpusEntries names).countP fun e => e.1 == c.val % 2 ^ 32

lemma getElem?_foldl_addEntry (l : List (ℕ × CorpusHit)) (h : ℕ) :
    ∀ corpus : Std.ExtTreeMap ℕ (List CorpusHit), ((l.foldl addEntry corpus)[h]?).getD [] =
      (corpus[h]?).getD [] ++ (l.filter fun e => e.1 == h).map Prod.snd := by
  induction l with
  | nil => simp
  | cons e l ih =>
    intro corpus
    rw [List.foldl_cons, ih, addEntry, Std.ExtTreeMap.getElem?_insert]
    by_cases he : e.1 = h
    · subst he
      simp
    · simp [he]

/-- The corpus holds the matches of every hash. -/
lemma length_corpusOf (names : List String) (c : U64) :
    (((corpusOf names)[c.val % 2 ^ 32]?).getD []).length = lowMatches names c := by
  rw [corpusOf, getElem?_foldl_addEntry, lowMatches, List.countP_eq_length_filter]
  simp

/-! ## The rows of one function -/

/-- The matches of all constants of a list. -/
def allMatches (names : List String) (cs : List U64) : ℕ := (cs.map (lowMatches names)).sum

/-- Up to four rows stand for as many matches. -/
lemma length_verifiedRows_lt {k : ℕ} (hk : k ≤ 4) (names : List String) (cs : List U64) :
    ∀ rows : List Json, (verifiedRows (corpusOf names) cs rows).length < k ↔
      rows.length + allMatches names cs < k := by
  induction cs with
  | nil => simp [verifiedRows, allMatches]
  | cons c cs ih =>
    intro rows
    have hall : allMatches names (c :: cs) = lowMatches names c + allMatches names cs := rfl
    have hlength := length_corpusOf names c
    rw [verifiedRows, hall]
    split
    · rename_i h8
      simp only [List.length_append, List.length_map, List.length_take, hlength] at h8 ⊢
      omega
    · rw [ih]
      simp only [List.length_append, List.length_map, List.length_take, hlength]
      omega

lemma length_verifiedRows_le (corpus : Std.ExtTreeMap ℕ (List CorpusHit)) (cs : List U64) :
    ∀ rows : List Json, rows.length < 8 → (verifiedRows corpus cs rows).length < 12 := by
  induction cs with
  | nil =>
    intro rows h
    rw [verifiedRows]
    omega
  | cons c cs ih =>
    intro rows h
    rw [verifiedRows]
    split
    · simp only [List.length_append, List.length_map, List.length_take]
      omega
    · rename_i h8
      exact ih _ (Nat.lt_of_not_le h8)

/-- Two matches are those of one constant or of two. -/
lemma two_le_allMatches {names : List String} {cs : List U64} :
    2 ≤ allMatches names cs ↔ (∃ c ∈ cs, 2 ≤ lowMatches names c) ∨
      ∃ c d, [c, d].Sublist cs ∧ 0 < lowMatches names c ∧ 0 < lowMatches names d := by
  have hpos : ∀ l : List U64, 0 < allMatches names l ↔ ∃ d ∈ l, 0 < lowMatches names d := by
    intro l
    simp [allMatches, List.sum_pos_iff_exists_pos_nat]
  induction cs with
  | nil => simp [allMatches]
  | cons a cs ih =>
    have hall : allMatches names (a :: cs) = lowMatches names a + allMatches names cs := rfl
    constructor
    · intro h
      by_cases ha : 2 ≤ lowMatches names a
      · exact .inl ⟨a, List.mem_cons_self, ha⟩
      · by_cases hcs : 2 ≤ allMatches names cs
        · rcases ih.mp hcs with ⟨c, hc, hm⟩ | ⟨c, d, hsub, hc, hd⟩
          · exact .inl ⟨c, List.mem_cons_of_mem a hc, hm⟩
          · exact .inr ⟨c, d, hsub.trans (List.sublist_cons_self a cs), hc, hd⟩
        · -- one match each in the first constant and in the others
          obtain ⟨d, hd, hm⟩ := (hpos cs).mp (by omega)
          exact .inr ⟨a, d, (List.singleton_sublist.mpr hd).cons_cons a, by omega, hm⟩
    · rintro (⟨c, hc, hm⟩ | ⟨c, d, hsub, hc, hd⟩)
      · rcases List.mem_cons.mp hc with rfl | hc
        · omega
        · have := ih.mpr (.inl ⟨c, hc, hm⟩)
          omega
      · cases hsub with
        | cons _ hsub =>
          have := ih.mpr (.inr ⟨c, d, hsub, hc, hd⟩)
          omega
        | cons_cons _ hsub =>
          have := (hpos cs).mpr ⟨d, List.singleton_sublist.mp hsub, hd⟩
          omega

/-! ## The rows of the answer -/

/-- The finding for one function. -/
def resolverRow (corpus : Std.ExtTreeMap ℕ (List CorpusHit)) (p : U64 × FunctionFacts) :
    ℚ × Json :=
  let verified := verifiedRows corpus p.2.constants []
  (resolverConfidence verified.length, .object [("kind", "api_hash_resolver"),
    ("function", .object [("ea", .ea p.1), ("name", p.2.name)]),
    ("confidence", fixed2 (resolverConfidence verified.length)),
    ("verified_hashes", .array verified), ("verified_count", .nat verified.length),
    ("callers", .array (p.2.callers.map Json.ea))])

/-- The functions that are looked at: small ones with two constants or more, where the low half of
one is a hash. -/
def candidate (names : List String) (p : U64 × FunctionFacts) : Bool :=
  decide (p.2.ea_end.val - p.1.val ≤ 0x800) && decide (2 ≤ p.2.constants.length) &&
    p.2.constants.any fun c => decide (0 < lowMatches names c)

/-- The functions of the answer: the loop ends with the finding that fills it. -/
def reported (names : List String) (idx : AnalysisIndex) (max_findings : ℕ) :
    List (U64 × FunctionFacts) :=
  (idx.functions.toList.filter (candidate names)).take (max 1 max_findings)

lemma candidate_eq_false_iff {names : List String} {p : U64 × FunctionFacts} :
    candidate names p = false ↔ 0x800 < p.2.ea_end.val - p.1.val ∨ p.2.constants.length < 2 ∨
      (verifiedRows (corpusOf names) p.2.constants []).isEmpty = true := by
  have hempty : (verifiedRows (corpusOf names) p.2.constants []).isEmpty = true ↔
      allMatches names p.2.constants = 0 := by
    rw [List.isEmpty_iff_length_eq_zero, ← Nat.lt_one_iff,
      length_verifiedRows_lt (by decide), List.length_nil, Nat.zero_add, Nat.lt_one_iff]
  have hany : (p.2.constants.any fun c => decide (0 < lowMatches names c)) = false ↔
      allMatches names p.2.constants = 0 := by
    simp [allMatches, List.sum_eq_zero_iff_forall_eq_nat]
  rw [hempty, ← hany, candidate,
    Bool.and_eq_false_iff, Bool.and_eq_false_iff, decide_eq_false_iff_not, decide_eq_false_iff_not,
    Nat.not_le, Nat.not_le, or_assoc]

lemma resolverRows_eq (names : List String) (max_findings : ℕ) (fs : List (U64 × FunctionFacts)) :
    ∀ findings, (resolverRows (corpusOf names) max_findings fs findings).1 =
      findings ++ ((fs.filter (candidate names)).take (max 1 (max_findings - findings.length))).map
        (resolverRow (corpusOf names)) := by
  induction fs with
  | nil => simp [resolverRows]
  | cons p fs ih =>
    intro findings
    cases hp : candidate names p with
    | false =>
      rw [List.filter_cons_of_neg (by simp [hp]), ← ih]
      rcases candidate_eq_false_iff.mp hp with h | h | h
      · rw [resolverRows, if_pos (.inl h)]
      · rw [resolverRows, if_pos (.inr h)]
      · rw [resolverRows]
        simp only [h, if_true, ite_self]
    | true =>
      obtain ⟨hsize, hconsts, hempty⟩ : ¬ 0x800 < p.2.ea_end.val - p.1.val ∧
          ¬ p.2.constants.length < 2 ∧
          ¬ (verifiedRows (corpusOf names) p.2.constants []).isEmpty = true := by
        simpa only [not_or] using mt candidate_eq_false_iff.mpr (by rw [hp]; decide)
      rw [List.filter_cons_of_pos hp, resolverRows, if_neg (not_or.mpr ⟨hsize, hconsts⟩)]
      simp only [if_neg hempty]
      change (if max_findings ≤ (findings ++ [resolverRow (corpusOf names) p]).length then
          (findings ++ [resolverRow (corpusOf names) p], true)
        else resolverRows (corpusOf names) max_findings fs
          (findings ++ [resolverRow (corpusOf names) p])).1 = _
      rw [List.length_append, List.length_singleton]
      by_cases hfull : max_findings ≤ findings.length + 1
      · have hone : max 1 (max_findings - findings.length) = 1 := by omega
        rw [if_pos hfull, hone]
        rfl
      · have hmore : max 1 (max_findings - findings.length) =
            max 1 (max_findings - (findings.length + 1)) + 1 := by omega
        rw [if_neg hfull, ih, List.length_append, List.length_singleton, hmore,
          List.take_succ_cons, List.map_cons, List.append_assoc]
        rfl

/-! ## Confidence -/

/-- A constant is, as a full value, the hash of an import name under a registered algorithm. -/
def IsHash (names : List String) (c : U64) : Prop :=
  ∃ name ∈ names, ∃ algo ∈ ALGOS, c.val = (algo.compute (normalized algo name)).toNat

/-- A function that is reported with two verified hashes or more holds two constants that are
hashes. -/
def Confident (names : List String) (idx : AnalysisIndex) (answer : Json) : Prop :=
  ∀ row ∈ items answer "findings", ∀ n, (row.idx "verified_count").asU64 = some n → 2 ≤ n.val →
    ∃ ea f, idx.functions[ea]? = some f ∧ (row.idx "function").idx "ea" = .ea ea ∧
      ∃ c ∈ f.constants, ∃ d ∈ f.constants, c ≠ d ∧ IsHash names c ∧ IsHash names d

/-- At most one value among the constants of a function is a hash, but two of its constants match
the corpus in their low halves, or one matches two of its entries. -/
structure Misled (names : List String) (f : FunctionFacts) : Prop where
  few : ∀ c ∈ f.constants, ∀ d ∈ f.constants, IsHash names c → IsHash names d → c = d
  crowded : (∃ c ∈ f.constants, 2 ≤ lowMatches names c) ∨
    ∃ c d, [c, d].Sublist f.constants ∧ 0 < lowMatches names c ∧ 0 < lowMatches names d

/-- The rows of the answer are those of the reported functions. -/
lemma mem_findings {imports : Json} {idx : AnalysisIndex} {max_findings : ℕ} {row : Json} :
    row ∈ items (resolve_api_hashesOn imports idx max_findings) "findings" ↔
      ∃ p ∈ reported (import_names imports) idx max_findings,
        row = (resolverRow (corpusOf (import_names imports)) p).2 := by
  have hrows : items (resolve_api_hashesOn imports idx max_findings) "findings" =
      ((resolverRows (corpusOf (import_names imports)) max_findings idx.functions.toList
        []).1.insertionSort fun a b => b.1 ≤ a.1).map Prod.snd := rfl
  rw [hrows, resolverRows_eq, List.nil_append, List.length_nil, Nat.sub_zero, ← reported]
  simp only [List.mem_map, List.mem_insertionSort]
  constructor
  · rintro ⟨_, ⟨p, hp, rfl⟩, rfl⟩
    exact ⟨p, hp, rfl⟩
  · rintro ⟨p, hp, rfl⟩
    exact ⟨_, ⟨p, hp, rfl⟩, rfl⟩

/-- Two rows or more stand for a function iff its constants have two matches. -/
lemma resolverRow_count (names : List String) (p : U64 × FunctionFacts) :
    ∃ n, ((resolverRow (corpusOf names) p).2.idx "verified_count").asU64 = some n ∧
      (2 ≤ n.val ↔ 2 ≤ allMatches names p.2.constants) := by
  have hlt := length_verifiedRows_le (corpusOf names) p.2.constants [] (by decide)
  have htwo := @length_verifiedRows_lt 2 (by decide) names p.2.constants []
  refine ⟨asU64 (verifiedRows (corpusOf names) p.2.constants []).length, rfl, ?_⟩
  rw [asU64_val (by omega)]
  rw [List.length_nil, Nat.zero_add] at htwo
  omega

lemma lookup_of_reported {names : List String} {idx : AnalysisIndex} {max_findings : ℕ}
    {p : U64 × FunctionFacts} (hp : p ∈ reported names idx max_findings) :
    idx.functions[p.1]? = some p.2 := by
  have hmem := List.mem_of_mem_filter (List.mem_of_mem_take hp)
  exact Std.ExtTreeMap.mem_toList_iff_getElem?_eq_some.mp hmem

/-- A misled function is reported with two verified hashes that are not two constants. -/
lemma not_misled_of_confident {imports : Json} {idx : AnalysisIndex} {max_findings : ℕ}
    (h : Confident (import_names imports) idx (resolve_api_hashesOn imports idx max_findings))
    {p : U64 × FunctionFacts} (hp : p ∈ reported (import_names imports) idx max_findings) :
    ¬ Misled (import_names imports) p.2 := by
  rintro ⟨hfew, hcrowded⟩
  obtain ⟨n, hn, htwo⟩ := resolverRow_count (import_names imports) p
  obtain ⟨ea, f, hf, hea, c, hc, d, hd, hne, hash, hash'⟩ :=
    h _ (mem_findings.mpr ⟨p, hp, rfl⟩) n hn (htwo.mpr (two_le_allMatches.mpr hcrowded))
  obtain rfl : p.1 = ea := hex_inj (Json.string.inj hea)
  obtain rfl : p.2 = f := Option.some.inj ((lookup_of_reported hp).symm.trans hf)
  exact hne (hfew c hc d hd hash hash')

/-- **Confidence of the answer.**  On every list of imports and every index, two verified hashes of
a function are two of its constants iff none of the functions reported is misled. -/
theorem confident_iff (imports : Json) (idx : AnalysisIndex) (max_findings : ℕ) :
    Confident (import_names imports) idx (resolve_api_hashesOn imports idx max_findings) ↔
      ∀ p ∈ reported (import_names imports) idx max_findings,
        ¬ Misled (import_names imports) p.2 := by
  constructor
  · exact fun h p hp => not_misled_of_confident h hp
  · intro h row hrow n hn h2
    obtain ⟨p, hp, rfl⟩ := mem_findings.mp hrow
    obtain ⟨m, hm, htwo⟩ := resolverRow_count (import_names imports) p
    obtain rfl : n = m := Option.some.inj (hn.symm.trans hm)
    have hcrowded := two_le_allMatches.mp (htwo.mp h2)
    -- a function with two matches that is not misled holds two hashes
    have hnot : ¬ ∀ c ∈ p.2.constants, ∀ d ∈ p.2.constants,
        IsHash (import_names imports) c → IsHash (import_names imports) d → c = d :=
      fun hfew => h p hp ⟨hfew, hcrowded⟩
    push Not at hnot
    obtain ⟨c, hc, d, hd, hash, hash', hne⟩ := hnot
    exact ⟨p.1, p.2, lookup_of_reported hp, rfl, c, hc, d, hd, hne, hash, hash'⟩

/-- An import list with the name `send` in two modules. -/
def sendImports : Json :=
  let sends : Json := .array [.object [("name", "send")]]
  .object [("modules", .array [.object [("entries", sends)], .object [("entries", sends)]])]

/-- A function that holds the `ror13-add` hash of `send` and a constant above 32 bits. -/
def sendUser : FunctionFacts :=
  { ea_start := 0x401000, ea_end := 0x401100, name := "f", size := 0x100,
    constants := [0xcd274b80, 0x100000000] }

/-- The index of that one function. -/
def sendIndex : AnalysisIndex :=
  ⟨1, "", 0, (∅ : AddrMap FunctionFacts).insert 0x401000 sendUser, []⟩

lemma sendUser_reported :
    (0x401000, sendUser) ∈ reported (import_names sendImports) sendIndex 50 := by
  have hlist : sendIndex.functions.toList = [(0x401000, sendUser)] := by rfl
  have hcandidate : candidate (import_names sendImports) (0x401000, sendUser) = true := by
    decide +kernel
  rw [reported, hlist, List.filter_cons_of_pos hcandidate]
  exact List.mem_cons_self

lemma sendUser_misled : Misled (import_names sendImports) sendUser := by
  have hlarge : ¬ IsHash (import_names sendImports) 0x100000000 := by
    rintro ⟨name, -, algo, -, h⟩
    have hlt := (algo.compute (normalized algo name)).isLt
    rw [← h] at hlt
    exact absurd hlt (by decide)
  have hconsts : ∀ c ∈ sendUser.constants, IsHash (import_names sendImports) c →
      c = 0xcd274b80 := by
    intro c hc hash
    rcases List.mem_cons.mp hc with rfl | hc
    · rfl
    · rw [List.mem_singleton.mp hc] at hash
      exact absurd hash hlarge
  refine ⟨fun c hc d hd hash hash' => ?_, .inl ⟨0xcd274b80, List.mem_cons_self, ?_⟩⟩
  · rw [hconsts c hc hash, hconsts d hd hash']
  · decide +kernel

/-- One constant is counted twice. -/
theorem not_confident :
    ¬ ∀ (imports : Json) (idx : AnalysisIndex) (max_findings : ℕ),
      Confident (import_names imports) idx (resolve_api_hashesOn imports idx max_findings) := by
  exact fun h => not_misled_of_confident (h sendImports sendIndex 50) sendUser_reported
    sendUser_misled

end Crypto

end ReverseMcp
