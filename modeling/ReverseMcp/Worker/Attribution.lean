import ReverseMcp.Rust.Collections
import ReverseMcp.Rust.Reading
import ReverseMcp.Rust.Scan
import ReverseMcp.Worker.CryptoScan
import ReverseMcp.Worker.Workflow

/-!
# The function that an address belongs to

The index has the functions by their starts.  Two analyses name the function that an address lies
in, and both look up the function with the greatest start that is not above it (`lastUpTo`).  The
scan for constants then asks whether the address is at most the end of the function, which lets the
end itself through; `reference_context` does not ask at all.

With disjoint ranges, the name is right exactly when the address lies before the end
(`attributes_singleton_iff`); the two theorems say what that means for their answers.
-/

namespace ReverseMcp

open Rust

namespace AnalysisIndex

variable {idx : AnalysisIndex} {s t a : U64} {f : FunctionFacts}

/-- The address lies in the function that starts at `s`. -/
def Inside (idx : AnalysisIndex) (s a : U64) : Prop :=
  ∃ f, idx.functions[s]? = some f ∧ s ≤ a ∧ a < f.ea_end

/-- No address lies in two functions. -/
def DisjointRanges (idx : AnalysisIndex) : Prop :=
  ∀ s t a, Inside idx s a → Inside idx t a → s = t

/-- The named functions are those that the address lies in. -/
def Attributes (idx : AnalysisIndex) (a : U64) (named : List U64) : Prop :=
  (∀ s ∈ named, Inside idx s a) ∧ ∀ s, Inside idx s a → s ∈ named

lemma lastUpTo_eq_some (h : idx.lastUpTo a = some (s, f)) :
    idx.functions[s]? = some f ∧ s ≤ a ∧
      ∀ t g, idx.functions[t]? = some g → t ≤ a → t ≤ s := by
  obtain ⟨hmem, hle⟩ := List.mem_filter.mp (List.mem_of_getLast? h)
  refine ⟨Std.ExtTreeMap.mem_toList_iff_getElem?_eq_some.mp hmem, by simpa using hle, ?_⟩
  intro t g hg ht
  obtain ⟨front, hfront⟩ := List.getLast?_eq_some_iff.mp h
  have hmem' : (t, g) ∈ idx.functions.toList.filter fun f => f.1 ≤ a :=
    List.mem_filter.mpr ⟨Std.ExtTreeMap.mem_toList_iff_getElem?_eq_some.mpr hg, by simpa using ht⟩
  have hsorted := (Std.ExtTreeMap.ordered_keys_toList (t := idx.functions)).filter
    fun f => decide (f.1 ≤ a)
  rw [hfront] at hmem' hsorted
  rcases List.mem_append.mp hmem' with hlast | hlast
  · exact (compare_lt_iff_lt.mp
      ((List.pairwise_append.mp hsorted).2.2 _ hlast _ List.mem_cons_self)).le
  · exact le_of_eq (congrArg Prod.fst (List.mem_singleton.mp hlast))

lemma lastUpTo_eq_none (h : idx.lastUpTo a = none) : ¬Inside idx s a := by
  rintro ⟨f, hf, hle, -⟩
  rw [lastUpTo, List.getLast?_eq_none_iff, List.filter_eq_nil_iff] at h
  exact h (s, f) (Std.ExtTreeMap.mem_toList_iff_getElem?_eq_some.mpr hf) (by simpa using hle)

/-- Naming the function found is right exactly when the address lies before its end. -/
lemma attributes_singleton_iff (hdisjoint : DisjointRanges idx) (h : idx.lastUpTo a = some (s, f)) :
    Attributes idx a [s] ↔ a < f.ea_end := by
  obtain ⟨hf, hle, -⟩ := lastUpTo_eq_some h
  constructor
  · rintro ⟨hnamed, -⟩
    obtain ⟨g, hg, -, hlt⟩ := hnamed s List.mem_cons_self
    rwa [Option.some.inj (hf.symm.trans hg)]
  · intro hlt
    have hinside : Inside idx s a := ⟨f, hf, hle, hlt⟩
    refine ⟨fun t ht => ?_, fun t ht => ?_⟩
    · rwa [List.mem_singleton.mp ht]
    · exact List.mem_singleton.mpr (hdisjoint t s a ht hinside)

lemma attributes_nil_iff : Attributes idx a [] ↔ ∀ s, ¬Inside idx s a := by
  constructor
  · exact fun h s hs => List.not_mem_nil (h.2 s hs)
  · exact fun h => ⟨fun s hs => absurd hs List.not_mem_nil, fun s hs => absurd hs (h s)⟩

end AnalysisIndex

/-! ## The scan for constants -/

namespace Crypto

open AnalysisIndex

variable {idx : AnalysisIndex}

/-- A finding names the functions that it lies in. -/
def FindingAttributes (idx : AnalysisIndex) (row : Json) : Prop :=
  ∃ (a : U64) (named : List U64), row.idx "ea" = .ea a ∧
    row.idx "containing_function" = .array (named.map Json.ea) ∧ Attributes idx a named

/-- The function found for an address does not end at it, and if it ends before it, no other one
contains the address. -/
def OffEnd (idx : AnalysisIndex) (a : U64) : Prop :=
  ∀ s f, idx.lastUpTo a = some (s, f) → a ≠ f.ea_end ∧ (f.ea_end < a → ∀ t, ¬Inside idx t a)

/-- The functions that a finding names. -/
def containing (idx : AnalysisIndex) (a : U64) : List U64 :=
  match idx.lastUpTo a with
  | some (s, f) => if a ≤ f.ea_end then [s] else []
  | none => []

lemma findingRow_containing (idx : AnalysisIndex) (h : ConstHit) :
    (findingRow idx h).idx "ea" = .ea h.ea ∧
      (findingRow idx h).idx "containing_function" =
        .array ((containing idx h.ea).map Json.ea) := by
  refine ⟨rfl, ?_⟩
  rw [containing]
  cases hlast : idx.lastUpTo h.ea with
  | none =>
    simp only [findingRow, hlast]
    rfl
  | some g =>
    obtain ⟨s, f⟩ := g
    simp only [findingRow, hlast]
    split <;> rfl

lemma map_ea_inj {l l' : List U64} (h : l.map Json.ea = l'.map Json.ea) : l = l' :=
  (List.map_inj_right fun _ _ hea => hex_inj (Json.string.inj hea)).mp h

lemma findingAttributes_iff (idx : AnalysisIndex) (h : ConstHit) :
    FindingAttributes idx (findingRow idx h) ↔ Attributes idx h.ea (containing idx h.ea) := by
  obtain ⟨hea, hnamed⟩ := findingRow_containing idx h
  constructor
  · rintro ⟨a, named, ha, hrow, hattributes⟩
    obtain rfl : h.ea = a := hex_inj (Json.string.inj (hea.symm.trans ha))
    obtain rfl := map_ea_inj (Json.array.inj (hnamed.symm.trans hrow))
    exact hattributes
  · exact fun hattributes => ⟨h.ea, containing idx h.ea, hea, hnamed, hattributes⟩

/-- An address is attributed right exactly when it is off the end of the function found. -/
lemma attributes_containing_iff (hdisjoint : DisjointRanges idx) (a : U64) :
    Attributes idx a (containing idx a) ↔ OffEnd idx a := by
  rw [containing, OffEnd]
  cases hlast : idx.lastUpTo a with
  | none =>
    refine iff_of_true (attributes_nil_iff.mpr fun s => lastUpTo_eq_none hlast) ?_
    rintro s f ⟨⟩
  | some g =>
    obtain ⟨s, f⟩ := g
    have hone := attributes_singleton_iff hdisjoint hlast
    dsimp only
    by_cases hle : a ≤ f.ea_end
    · rw [if_pos hle, hone]
      constructor
      · rintro hlt _ _ ⟨⟩
        exact ⟨hlt.ne, fun h => absurd h hle.not_gt⟩
      · exact fun h => lt_of_le_of_ne hle (h s f rfl).1
    · rw [if_neg hle, attributes_nil_iff]
      have hgt : f.ea_end < a := not_le.mp hle
      constructor
      · rintro hnone _ _ ⟨⟩
        exact ⟨hgt.ne', fun _ => hnone⟩
      · exact fun h => (h s f rfl).2 hgt

/-- The findings of an answer name the functions that they lie in exactly when each of them is off
the end of the function found for it. -/
lemma crypto_scan_attributes_iff [Host] (hdisjoint : DisjointRanges idx)
    {get_bytes : U64 → ℕ → Result Json} {segments : Result (List SegmentInfo)} {max_hits : ℕ}
    {rules : Option RuleSet} {v : Json}
    (h : crypto_scanIn get_bytes segments idx max_hits rules = .ok v) :
    ∃ hits : List ConstHit, v.idx "findings" = .array (hits.map (findingRow idx)) ∧
      ((∀ row ∈ Deep.items v "findings", FindingAttributes idx row) ↔
        ∀ hit ∈ hits, OffEnd idx hit.ea) := by
  rw [crypto_scanIn] at h
  obtain ⟨segs, -, h⟩ := Outcome.bind_eq_ok.mp h
  obtain ⟨⟨hits, truncated⟩, -, h⟩ := Outcome.bind_eq_ok.mp h
  cases h
  refine ⟨(ranked hits).take max_hits, rfl, ?_⟩
  have hfindings : ∀ hit, FindingAttributes idx (findingRow idx hit) ↔ OffEnd idx hit.ea :=
    fun hit => (findingAttributes_iff idx hit).trans (attributes_containing_iff hdisjoint hit.ea)
  refine Iff.trans List.forall_mem_map ?_
  simp only [hfindings]

end Crypto

/-! ## The references to a target -/

namespace Workflow

open AnalysisIndex

section
variable [Host] (decompile : U64 → Result Json)

/-- `snippet` on any backend. -/
def snippetIn (ea : U64) (n : ℕ) : Result Json := do
  let d ← (decompile ea).ok?
  return .opt (d.bind fun d => (d.idx "pseudocode").asStr.map fun s =>
    .string (String.ofList (s.toList.take n)))

/-- `referenceRows` on any backend. -/
def referenceRowsIn (idx : AnalysisIndex) (detail : String) (max_functions : ℕ) :
    AddrSet → List XrefInfo → Result (List Json)
  | _, [] => .ok []
  | seen, x :: xs =>
    match idx.lastUpTo x.src with
    | none => referenceRowsIn idx detail max_functions seen xs
    | some (f_ea, facts) =>
      if seen.contains f_ea || max_functions < (seen.insert f_ea).size then
        referenceRowsIn idx detail max_functions (seen.insert f_ea) xs
      else do
        let snippet ← (if detail ≠ "summary" then snippetIn decompile f_ea 400 else .ok .null)
        let rest ← referenceRowsIn idx detail max_functions (seen.insert f_ea) xs
        return .object [("xref_from", .ea x.src), ("kind", x.kind),
          ("function", .object [("ea", .ea f_ea), ("name", facts.name)]),
          ("callers", eaTexts facts.callers), ("snippet", snippet)] :: rest

/-- `workflow::reference_context` on any backend. -/
def reference_contextIn (xrefs_to : U64 → Result (List XrefInfo)) (idx : AnalysisIndex)
    (req : WorkflowRequest) (max_functions : ℕ) : Result Json := do
  let ea ← Outcome.ofOption (Error.worker "reference_context requires 'ea'") req.ea
  let xrefs ← xrefs_to ea
  let items ← referenceRowsIn decompile idx req.budgets.detail max_functions ∅ (xrefs.take 100)
  return .object [("target", .ea ea), ("references", .array items),
    ("truncated", decide (max_functions ≤ items.length))]

variable (b : MockBackend)

lemma referenceRows_mock (idx : AnalysisIndex) (detail : String) (max_functions : ℕ)
    (seen : AddrSet) (xs : List XrefInfo) :
    referenceRows b idx detail max_functions seen xs =
      referenceRowsIn b.decompile idx detail max_functions seen xs := by
  induction xs generalizing seen with
  | nil => rfl
  | cons x xs ih =>
    rw [referenceRows, referenceRowsIn]
    simp only [ih]
    rfl

lemma reference_context_mock (idx : AnalysisIndex) (req : WorkflowRequest) (max_functions : ℕ) :
    reference_context b idx req max_functions =
      reference_contextIn b.decompile b.xrefs_to idx req max_functions := by
  rw [reference_context, reference_contextIn]
  simp only [referenceRows_mock]

end

/-- The functions found for some references. -/
def foundFor (idx : AnalysisIndex) (xs : List XrefInfo) : List U64 :=
  xs.filterMap fun x => (idx.lastUpTo x.src).map Prod.fst

/-- Behind the references `done`, the first one for which the function `s` is found, while there is
room for another function. -/
def FirstAfter (idx : AnalysisIndex) (max_functions : ℕ) (done xs : List XrefInfo) (x : XrefInfo)
    (s : U64) (f : FunctionFacts) : Prop :=
  ∃ front back, xs = front ++ x :: back ∧ idx.lastUpTo x.src = some (s, f) ∧
    s ∉ foundFor idx (done ++ front) ∧
    (foundFor idx (done ++ front)).toFinset.card < max_functions

/-- The row is that of a reference from the function `s`. -/
def RowOf (row : Json) (x : XrefInfo) (s : U64) : Prop :=
  row.idx "xref_from" = .ea x.src ∧ (row.idx "function").idx "ea" = .ea s

/-- A reference names the function that it comes from. -/
def ReferenceAttributes (idx : AnalysisIndex) (row : Json) : Prop :=
  ∃ a s : U64, row.idx "xref_from" = .ea a ∧ (row.idx "function").idx "ea" = .ea s ∧
    Attributes idx a [s]

/-- The references of an answer name the functions that they come from, and unless it is truncated
they name every function that one of the first hundred comes from. -/
structure ReferencesAttribute (idx : AnalysisIndex) (xrefs : List XrefInfo) (v : Json) :
    Prop where
  named : ∀ row ∈ Deep.items v "references", ReferenceAttributes idx row
  found : v.idx "truncated" = .bool false → ∀ x ∈ xrefs.take 100, ∀ s, Inside idx s x.src →
    ∃ row ∈ Deep.items v "references", (row.idx "function").idx "ea" = .ea s

variable {idx : AnalysisIndex} {max_functions : ℕ} {done xs : List XrefInfo} {x y : XrefInfo}
  {s : U64} {f : FunctionFacts}

lemma foundFor_concat_none (h : idx.lastUpTo x.src = none) :
    foundFor idx (done ++ [x]) = foundFor idx done := by
  rw [foundFor, List.filterMap_append, foundFor]
  simp [h]

lemma foundFor_concat_some (h : idx.lastUpTo x.src = some (s, f)) :
    foundFor idx (done ++ [x]) = foundFor idx done ++ [s] := by
  rw [foundFor, List.filterMap_append, foundFor]
  simp [h]

lemma firstAfter_nil : ¬FirstAfter idx max_functions done [] x s f := by
  rintro ⟨front, back, h, -⟩
  exact List.cons_ne_nil _ _ (List.append_eq_nil_iff.mp h.symm).2

lemma firstAfter_cons : FirstAfter idx max_functions done (y :: xs) x s f ↔
    (x = y ∧ idx.lastUpTo y.src = some (s, f) ∧ s ∉ foundFor idx done ∧
        (foundFor idx done).toFinset.card < max_functions) ∨
      FirstAfter idx max_functions (done ++ [y]) xs x s f := by
  constructor
  · rintro ⟨front, back, hsplit, hlast, hnew, hroom⟩
    rcases front with - | ⟨z, front⟩
    · obtain ⟨rfl, -⟩ := List.cons.inj hsplit
      rw [List.append_nil] at hnew hroom
      exact .inl ⟨rfl, hlast, hnew, hroom⟩
    · obtain ⟨rfl, rfl⟩ := List.cons.inj hsplit
      refine .inr ⟨front, back, rfl, hlast, ?_, ?_⟩
      · rwa [List.append_assoc]
      · rwa [List.append_assoc]
  · rintro (⟨rfl, hlast, hnew, hroom⟩ | ⟨front, back, rfl, hlast, hnew, hroom⟩)
    · refine ⟨[], xs, rfl, hlast, ?_, ?_⟩
      · rwa [List.append_nil]
      · rwa [List.append_nil]
    · rw [List.append_assoc] at hnew hroom
      exact ⟨y :: front, back, rfl, hlast, hnew, hroom⟩

lemma card_concat (l : List U64) (s : U64) :
    (l ++ [s]).toFinset.card = if s ∈ l then l.toFinset.card else l.toFinset.card + 1 := by
  rw [List.toFinset_append, List.toFinset_cons, List.toFinset_nil, insert_empty_eq,
    Finset.union_singleton]
  split
  · rename_i hs
    rw [Finset.insert_eq_of_mem (List.mem_toFinset.mpr hs)]
  · rename_i hs
    exact Finset.card_insert_of_notMem fun h => hs (List.mem_toFinset.mp h)

/-- The loop passes over a function that it has seen, and over any other one when it is full. -/
lemma skip_iff {seen : AddrSet} (hseen : ∀ k, k ∈ seen ↔ k ∈ foundFor idx done) :
    (seen.contains s || decide (max_functions < (seen.insert s).size)) = true ↔
      ¬(s ∉ foundFor idx done ∧ (foundFor idx done).toFinset.card < max_functions) := by
  have hsize : (seen.insert s).size = (foundFor idx done ++ [s]).toFinset.card :=
    treeSet_size_eq_card fun k => by
      rw [mem_treeSet_insert, hseen, List.mem_append, List.mem_singleton, or_comm]
  rw [Bool.or_eq_true, decide_eq_true_eq, Std.ExtTreeSet.contains_iff_mem, hseen, hsize,
    card_concat]
  by_cases hs : s ∈ foundFor idx done
  · simp [hs]
  · rw [if_neg hs, or_iff_right hs, not_and, Nat.not_lt]
    exact ⟨fun h _ => Nat.lt_succ_iff.mp h, fun h => Nat.lt_succ_of_le (h hs)⟩

/-- The rows report the first reference of each function that is found, while there is room. -/
structure Reports (idx : AnalysisIndex) (max_functions : ℕ) (done xs : List XrefInfo)
    (rows : List Json) : Prop where
  of_row : ∀ row ∈ rows, ∃ x s f, FirstAfter idx max_functions done xs x s f ∧ RowOf row x s
  row_of : ∀ x s f, FirstAfter idx max_functions done xs x s f → ∃ row ∈ rows, RowOf row x s
  length : rows.length + min max_functions (foundFor idx done).toFinset.card =
    min max_functions (foundFor idx (done ++ xs)).toFinset.card

namespace Reports

variable {row : Json} {rows : List Json}

lemma nil : Reports idx max_functions done [] [] :=
  ⟨fun row hrow => absurd hrow List.not_mem_nil,
    fun x s f hfirst => absurd hfirst firstAfter_nil, by simp⟩

/-- A reference without a function, or from one that is known or that there is no room for, has no
row. -/
lemma pass (h : Reports idx max_functions (done ++ [y]) xs rows)
    (hnot : ∀ s f, idx.lastUpTo y.src = some (s, f) → s ∉ foundFor idx done →
      max_functions ≤ (foundFor idx done).toFinset.card) :
    Reports idx max_functions done (y :: xs) rows := by
  refine ⟨fun row hrow => ?_, fun x t g hx => ?_, ?_⟩
  · obtain ⟨x, t, g, hx, hrow⟩ := h.of_row row hrow
    exact ⟨x, t, g, firstAfter_cons.mpr (.inr hx), hrow⟩
  · rcases firstAfter_cons.mp hx with ⟨-, hsome, hnew, hroom⟩ | hx
    · exact absurd (hnot t g hsome hnew) hroom.not_ge
    · exact h.row_of x t g hx
  · have hlength := h.length
    rw [List.append_assoc, List.singleton_append] at hlength
    cases hlast : idx.lastUpTo y.src with
    | none => rwa [foundFor_concat_none hlast] at hlength
    | some g =>
      obtain ⟨s, f⟩ := g
      rw [foundFor_concat_some hlast, card_concat] at hlength
      by_cases hs : s ∈ foundFor idx done
      · rwa [if_pos hs] at hlength
      · rw [if_neg hs] at hlength
        have hfull := hnot s f hlast hs
        omega

/-- The first reference of a function that there is room for has its row. -/
lemma report (h : Reports idx max_functions (done ++ [y]) xs rows)
    (hlast : idx.lastUpTo y.src = some (s, f)) (hnew : s ∉ foundFor idx done)
    (hroom : (foundFor idx done).toFinset.card < max_functions) (hrow : RowOf row y s) :
    Reports idx max_functions done (y :: xs) (row :: rows) := by
  refine ⟨fun row' hmem => ?_, fun x t g hx => ?_, ?_⟩
  · rcases List.mem_cons.mp hmem with rfl | hmem
    · exact ⟨y, s, f, firstAfter_cons.mpr (.inl ⟨rfl, hlast, hnew, hroom⟩), hrow⟩
    · obtain ⟨x, t, g, hx, hof⟩ := h.of_row row' hmem
      exact ⟨x, t, g, firstAfter_cons.mpr (.inr hx), hof⟩
  · rcases firstAfter_cons.mp hx with ⟨rfl, hsome, -⟩ | hx
    · obtain ⟨rfl, rfl⟩ := Prod.mk.inj (Option.some.inj (hlast.symm.trans hsome))
      exact ⟨row, List.mem_cons_self, hrow⟩
    · obtain ⟨row', hmem, hof⟩ := h.row_of x t g hx
      exact ⟨row', List.mem_cons_of_mem _ hmem, hof⟩
  · have hlength := h.length
    rw [List.append_assoc, List.singleton_append, foundFor_concat_some hlast, card_concat,
      if_neg hnew] at hlength
    rw [List.length_cons]
    omega

end Reports

lemma referenceRowsIn_spec [Host] {decompile : U64 → Result Json} {detail : String}
    {seen : AddrSet} {rows : List Json} (hseen : ∀ k, k ∈ seen ↔ k ∈ foundFor idx done)
    (h : referenceRowsIn decompile idx detail max_functions seen xs = .ok rows) :
    Reports idx max_functions done xs rows := by
  induction xs generalizing done seen rows with
  | nil =>
    cases h
    exact .nil
  | cons y xs ih =>
    rw [referenceRowsIn] at h
    cases hlast : idx.lastUpTo y.src with
    | none =>
      rw [hlast] at h
      have hreports := ih (by rwa [foundFor_concat_none hlast]) h
      refine hreports.pass fun s f hsome => ?_
      cases hlast.symm.trans hsome
    | some g =>
      obtain ⟨s, f⟩ := g
      have hseen' : ∀ k, k ∈ seen.insert s ↔ k ∈ foundFor idx (done ++ [y]) := by
        intro k
        rw [foundFor_concat_some hlast, mem_treeSet_insert, hseen, List.mem_append,
          List.mem_singleton, or_comm]
      rw [hlast] at h
      dsimp only at h
      by_cases hskip :
          (seen.contains s || decide (max_functions < (seen.insert s).size)) = true
      · rw [if_pos hskip] at h
        refine (ih hseen' h).pass fun t g hsome hnew => ?_
        obtain ⟨rfl, rfl⟩ := Prod.mk.inj (Option.some.inj (hlast.symm.trans hsome))
        exact not_lt.mp fun hroom => (skip_iff hseen).mp hskip ⟨hnew, hroom⟩
      · rw [if_neg hskip] at h
        obtain ⟨snippet, -, h⟩ := Outcome.bind_eq_ok.mp h
        obtain ⟨rest, hrest, h⟩ := Outcome.bind_eq_ok.mp h
        cases h
        obtain ⟨hnew, hroom⟩ := not_not.mp (mt (skip_iff hseen).mpr hskip)
        exact (ih hseen' hrest).report hlast hnew hroom ⟨rfl, rfl⟩

lemma rowOf_attributes {row : Json} (hrow : RowOf row x s) :
    ReferenceAttributes idx row ↔ Attributes idx x.src [s] := by
  constructor
  · rintro ⟨a, t, hfrom, hfunction, hattributes⟩
    obtain rfl : x.src = a := hex_inj (Json.string.inj (hrow.1.symm.trans hfrom))
    obtain rfl : s = t := hex_inj (Json.string.inj (hrow.2.symm.trans hfunction))
    exact hattributes
  · exact fun hattributes => ⟨x.src, s, hrow.1, hrow.2, hattributes⟩

/-- A function that is found for a reference is found for a first one. -/
lemma exists_first_reference (hx : x ∈ xs) (hlast : idx.lastUpTo x.src = some (s, f)) :
    ∃ front y back g, xs = front ++ y :: back ∧ idx.lastUpTo y.src = some (s, g) ∧
      s ∉ foundFor idx front := by
  obtain ⟨front, y, back, hsplit, hfront, hy⟩ := exists_first
    (p := fun y => (idx.lastUpTo y.src).map Prod.fst ≠ some s) fun hall =>
      hall x hx (by rw [hlast]; rfl)
  obtain ⟨⟨t, g⟩, hg, rfl⟩ := Option.map_eq_some_iff.mp (not_not.mp hy)
  refine ⟨front, y, back, g, hsplit, hg, fun hmem => ?_⟩
  obtain ⟨z, hz, hzs⟩ := List.mem_filterMap.mp hmem
  exact hfront z hz hzs

/-- The references of an answer are attributed right exactly when the first one of each function
that is found lies before its end. -/
lemma references_attribute_iff [Host] (hdisjoint : DisjointRanges idx)
    {decompile : U64 → Result Json} {xrefs_to : U64 → Result (List XrefInfo)}
    {req : WorkflowRequest} {ea : U64} {xrefs : List XrefInfo} {v : Json} (hea : req.ea = some ea)
    (hxrefs : xrefs_to ea = .ok xrefs)
    (h : reference_contextIn decompile xrefs_to idx req max_functions = .ok v) :
    ReferencesAttribute idx xrefs v ↔
      ∀ x s f, FirstAfter idx max_functions [] (xrefs.take 100) x s f → x.src < f.ea_end := by
  rw [reference_contextIn, hea] at h
  simp only [Outcome.ofOption, Outcome.ok_bind, hxrefs] at h
  obtain ⟨rows, hrows, h⟩ := Outcome.bind_eq_ok.mp h
  cases h
  have hseen : ∀ k, k ∈ (∅ : AddrSet) ↔ k ∈ foundFor idx [] := by simp [foundFor]
  obtain ⟨hof, hfirst, hlength⟩ := referenceRowsIn_spec hseen hrows
  constructor
  · rintro ⟨hnamed, -⟩ x s f hx
    obtain ⟨row, hrow, hrowof⟩ := hfirst x s f hx
    obtain ⟨front, back, -, hlast, -⟩ := hx
    exact (attributes_singleton_iff hdisjoint hlast).mp
      ((rowOf_attributes hrowof).mp (hnamed row hrow))
  · intro hends
    constructor
    · intro row hrow
      obtain ⟨x, s, f, hx, hrowof⟩ := hof row hrow
      have hlt := hends x s f hx
      obtain ⟨front, back, -, hlast, -⟩ := hx
      exact (rowOf_attributes hrowof).mpr ((attributes_singleton_iff hdisjoint hlast).mpr hlt)
    · intro hopen x hx t ht
      have hroom : (foundFor idx (xrefs.take 100)).toFinset.card < max_functions := by
        have hlt : rows.length < max_functions := by
          have hopen : decide (max_functions ≤ rows.length) = false := Json.bool.inj hopen
          simpa using hopen
        have hnone : (foundFor idx []).toFinset.card = 0 := rfl
        rw [List.nil_append, hnone] at hlength
        omega
      cases hlast : idx.lastUpTo x.src with
      | none => exact absurd ht (lastUpTo_eq_none hlast)
      | some g =>
        obtain ⟨s, f⟩ := g
        obtain ⟨front, y, back, g, hsplit, hlasty, hnew⟩ := exists_first_reference hx hlast
        have hfew : (foundFor idx front).toFinset.card < max_functions := by
          refine lt_of_le_of_lt (Finset.card_le_card fun k hk => ?_) hroom
          rw [List.mem_toFinset] at hk ⊢
          rw [hsplit, foundFor, List.filterMap_append]
          exact List.mem_append_left _ hk
        have hy : FirstAfter idx max_functions [] (xrefs.take 100) y s g :=
          ⟨front, back, hsplit, hlasty, hnew, hfew⟩
        obtain ⟨row, hrow, hrowof⟩ := hfirst y s g hy
        -- the function found starts in `t` and contains its own start, so it is `t`
        obtain ⟨hg, hley, -⟩ := lastUpTo_eq_some hlasty
        obtain ⟨-, hle, hmax⟩ := lastUpTo_eq_some hlast
        obtain ⟨k, hk, htx, hlt⟩ := ht
        have hsame : t = s := hdisjoint t s s
          ⟨k, hk, hmax t k hk htx, lt_of_le_of_lt hle hlt⟩
          ⟨g, hg, le_rfl, lt_of_le_of_lt hley (hends y s g hy)⟩
        exact ⟨row, hrow, hsame ▸ hrowof.2⟩

end Workflow

/-! ## Both -/

/-- With disjoint ranges, the findings of the scan for constants are attributed right exactly when
each of them is off the end of the function found for it, and the references of a target exactly
when the first one of each function found lies before its end. -/
theorem attribution_iff [Host] {idx : AnalysisIndex} (hdisjoint : idx.DisjointRanges) :
    (∀ (get_bytes : U64 → ℕ → Result Json) (segments : Result (List SegmentInfo)) (max_hits : ℕ)
        (rules : Option RuleSet) (v : Json),
      Crypto.crypto_scanIn get_bytes segments idx max_hits rules = .ok v →
      ∃ hits : List Crypto.ConstHit,
        v.idx "findings" = .array (hits.map (Crypto.findingRow idx)) ∧
        ((∀ row ∈ Deep.items v "findings", Crypto.FindingAttributes idx row) ↔
          ∀ hit ∈ hits, Crypto.OffEnd idx hit.ea)) ∧
    ∀ (decompile : U64 → Result Json) (xrefs_to : U64 → Result (List XrefInfo))
        (req : WorkflowRequest) (max_functions : ℕ) (ea : U64) (xrefs : List XrefInfo) (v : Json),
      req.ea = some ea → xrefs_to ea = .ok xrefs →
      Workflow.reference_contextIn decompile xrefs_to idx req max_functions = .ok v →
      (Workflow.ReferencesAttribute idx xrefs v ↔
        ∀ x s f, Workflow.FirstAfter idx max_functions [] (xrefs.take 100) x s f →
          x.src < f.ea_end) :=
  ⟨fun _ _ _ _ _ h => Crypto.crypto_scan_attributes_iff hdisjoint h,
    fun _ _ _ _ _ _ _ hea hxrefs h =>
      Workflow.references_attribute_iff hdisjoint hea hxrefs h⟩

/-- An index of one function, which ends at `0x402000`. -/
def endsBefore : AnalysisIndex :=
  ⟨1, "", 0, (∅ : AddrMap FunctionFacts).insert 0x401f00
    { ea_start := 0x401f00, ea_end := 0x402000, name := "f", size := 0x100 }, []⟩

lemma endsBefore_disjoint : endsBefore.DisjointRanges := by
  have hone : ∀ s a, endsBefore.Inside s a → s = 0x401f00 := by
    rintro s a ⟨f, hf, -⟩
    rw [endsBefore, getElem?_insert_eq_ite] at hf
    by_contra hs
    rw [if_neg hs] at hf
    simp at hf
  exact fun s t a hs ht => (hone s a hs).trans (hone t a ht).symm

/-- A request for the references to an address. -/
def referenceRequest : WorkflowRequest :=
  ⟨"reference_context", some 0x403000, none, none, [], ⟨1, 5, "summary", false⟩⟩

/-- References from one address. -/
def oneReference (src : U64) : U64 → Result (List XrefInfo) :=
  fun target => .ok [⟨src, target, "call"⟩]

/-- A backend without a decompiler. -/
def noDecompiler (_ : U64) : Result Json := .err (.worker "no decompiler")

/-- A reference from inside the function. -/
theorem attribution_iff_inside :
    letI : Host := Host.ascii false
    ∃ v, Workflow.reference_contextIn noDecompiler (oneReference 0x401f10) endsBefore
        referenceRequest 5 = .ok v ∧
      Workflow.ReferencesAttribute endsBefore [⟨0x401f10, 0x403000, "call"⟩] v := by
  let _ : Host := Host.ascii false
  obtain ⟨v, hv⟩ : ∃ v, Workflow.reference_contextIn noDecompiler (oneReference 0x401f10) endsBefore
      referenceRequest 5 = .ok v := ⟨_, rfl⟩
  refine ⟨v, hv, ((attribution_iff endsBefore_disjoint).2 _ _ _ _ _ _ v rfl rfl hv).mpr ?_⟩
  intro x s f hx
  rcases Workflow.firstAfter_cons.mp hx with ⟨rfl, hlast, -⟩ | hx
  · obtain ⟨hf, -⟩ := AnalysisIndex.lastUpTo_eq_some hlast
    rw [endsBefore, getElem?_insert_eq_ite] at hf
    split at hf
    · rw [← Option.some.inj hf]
      decide
    · simp at hf
  · exact absurd hx Workflow.firstAfter_nil

/-- A finding at the end of a function and a reference from behind it are both attributed to it. -/
theorem attribution_wrong :
    letI : Host := Host.ascii false
    ¬(∀ idx : AnalysisIndex, idx.DisjointRanges →
        ∀ (get_bytes : U64 → ℕ → Result Json) (segments : Result (List SegmentInfo))
          (max_hits : ℕ) (rules : Option RuleSet) (v : Json),
          Crypto.crypto_scanIn get_bytes segments idx max_hits rules = .ok v →
            ∀ row ∈ Deep.items v "findings", Crypto.FindingAttributes idx row) ∧
      ¬∀ idx : AnalysisIndex, idx.DisjointRanges →
        ∀ (decompile : U64 → Result Json) (xrefs_to : U64 → Result (List XrefInfo))
          (req : WorkflowRequest) (max_functions : ℕ) (ea : U64) (xrefs : List XrefInfo) (v : Json),
          req.ea = some ea → xrefs_to ea = .ok xrefs →
          Workflow.reference_contextIn decompile xrefs_to idx req max_functions = .ok v →
            Workflow.ReferencesAttribute idx xrefs v := by
  let _ : Host := Host.ascii false
  have hnot : ∀ a : U64, 0x402000 ≤ a → ¬endsBefore.Inside 0x401f00 a := by
    rintro a hle ⟨f, hf, -, hlt⟩
    rw [endsBefore, getElem?_insert_eq_ite, if_pos rfl] at hf
    rw [← Option.some.inj hf] at hlt
    exact absurd hle hlt.not_ge
  constructor
  · intro h
    have hrow := h _ endsBefore_disjoint Crypto.aaBackend (.ok [Crypto.twoBytes]) 1
      (some Crypto.aaRules) _ rfl _ List.mem_cons_self
    have hattributes := (Crypto.findingAttributes_iff _ _).mp hrow
    exact hnot _ (by decide +kernel) (hattributes.1 0x401f00 (by decide +kernel))
  · intro h
    have hall := h _ endsBefore_disjoint noDecompiler (oneReference 0x402010) referenceRequest 5
      0x403000 _ _ rfl rfl rfl
    obtain ⟨a, s, hfrom, hfunction, hattributes⟩ := hall.named _ List.mem_cons_self
    obtain rfl : (0x402010 : U64) = a := hex_inj (Json.string.inj hfrom)
    obtain rfl : (0x401f00 : U64) = s := hex_inj (Json.string.inj hfunction)
    exact hnot 0x402010 (by decide) (hattributes.1 0x401f00 List.mem_cons_self)

end ReverseMcp
