import ReverseMcp.Rust.Collections
import ReverseMcp.Rust.Reading
import ReverseMcp.Rust.Scan
import ReverseMcp.Worker.Arms
import Mathlib.Tactic.Linarith
import Mathlib.Tactic.Positivity

/-!
# Mapping by signatures

`sig.map` takes two signature indexes as JSON, makes analysis indexes of them and maps the functions
of one to those of the other; `map_functions` does the same with the analysis indexes that the
signatures were made of.  On the way everything that the scores read arrives but the numbers of
callees and callers (`rebuilt_sigs`), so that `sig.map` scores the calls of any two functions as
equal.

`sig_map_iff` says when that does not show: for every function that is reached, the first best
candidate, its rounded score and its kind are the same with the calls and without them.
-/

namespace ReverseMcp

open Rust

namespace Signatures

/-! ## What the worker writes -/

/-- `FunctionSig` as it is serialized. -/
def sig_to_value (s : FunctionSig) : Json :=
  .object [("ea", .u64 s.ea), ("name", s.name), ("size", .u64 s.size),
    ("imports", .strings s.imports),
    ("strings", .strings s.strings), ("constants", .array (s.constants.map Json.u64)),
    ("callee_count", .nat s.callee_count), ("caller_count", .nat s.caller_count)]

/-- `SigIndex` as it is serialized. -/
def to_value (s : SigIndex) : Json :=
  .object [("format", .nat s.format.val), ("binary_md5", s.binary_md5),
    ("functions", .array (s.functions.map sig_to_value))]

/-- A signature with its counts as JSON has them. -/
def counted (s : FunctionSig) : FunctionSig :=
  { s with callee_count := (asU64 s.callee_count).val, caller_count := (asU64 s.caller_count).val }

lemma allSome_map {α β γ : Type} {f : β → Option γ} {g : α → β} {h : α → γ}
    (hf : ∀ a, f (g a) = some (h a)) (l : List α) : allSome f (l.map g) = some (l.map h) := by
  induction l with
  | nil => rfl
  | cons a l ih => rw [List.map_cons, allSome, hf, ih]; rfl

lemma stringList_strings (l : List String) : stringList (.strings l) = some l := by
  have hall := allSome_map (f := Json.asStr) (g := Json.string) (h := id) (fun _ => rfl) l
  rwa [List.map_id] at hall

lemma u64List_array (l : List U64) : u64List (.array (l.map Json.u64)) = some l := by
  have hall := allSome_map (f := Json.asU64) (g := Json.u64) (h := id) (fun _ => rfl) l
  rwa [List.map_id] at hall

/-- A signature is read back with its counts as JSON has them. -/
lemma sig_from_to_value (s : FunctionSig) : sig_from_value (sig_to_value s) = some (counted s) := by
  simp only [sig_to_value, sig_from_value, Json.get]
  simp [sigOfFields, stringList_strings, u64List_array, Json.asU64, Json.u64, Json.asStr, counted,
    Json.nat]

/-- A signature index is read back. -/
lemma from_to_value (s : SigIndex) :
    from_value (to_value s) = some { s with functions := s.functions.map counted } := by
  have hformat : (Json.nat s.format.val).asU32 = some s.format := by
    have hword : (asU64 s.format.val).val = s.format.val :=
      asU64_val (s.format.isLt.trans (by decide))
    simp [Json.asU32, Json.nat, Json.u64, Json.asU64, hword]
  simp only [to_value, from_value, Json.get]
  simp [indexOfFields, Json.asStr, Json.asArray, hformat, allSome_map sig_from_to_value]

/-! ## Sorted vectors without repetitions -/

/-- Sorting and deduplicating changes nothing the second time. -/
lemma sortDedup_idem {α : Type} [Ord α] [Std.TransOrd α] [DecidableEq α] (l : List α) :
    sortDedup (sortDedup l) = sortDedup l := by
  have hsorted : (sortDedup l).Pairwise fun a b => (compare a b).isLE :=
    (sortByKey_pairwise id l).sublist (dedupBy_sublist _)
  have hsame : sortByKey id (sortDedup l) = sortDedup l := List.Pairwise.insertionSort_eq hsorted
  rw [sortDedup, hsame]
  exact dedupBy_eq_self (dedupBy_chain _)

/-! ## The indexes that are made of signatures -/

/-- The signatures of an index, in the order of their addresses. -/
def sigsOf (idx : AnalysisIndex) : List FunctionSig :=
  idx.functions.toList.map fun f => to_sig f.1 f.2

/-- The functions end inside the address space. -/
def Fits (idx : AnalysisIndex) : Prop := ∀ s ∈ sigsOf idx, s.ea.val + s.size.val < 2 ^ 64

/-- A signature without its calls. -/
def silent (s : FunctionSig) : FunctionSig := { s with callee_count := 0, caller_count := 0 }

lemma sigsOf_pairwise (idx : AnalysisIndex) : (sigsOf idx).Pairwise fun a b => a.ea < b.ea := by
  refine List.pairwise_map.mpr ((Std.ExtTreeMap.ordered_keys_toList (t := idx.functions)).imp ?_)
  exact fun h => compare_lt_iff_lt.mp h

/-- The signatures of an index are in order already. -/
lemma build_sig_index_functions (idx : AnalysisIndex) :
    (build_sig_index idx).functions = sigsOf idx := by
  refine List.Pairwise.insertionSort_eq ((sigsOf_pairwise idx).imp fun {a b} h => ?_)
  rw [compare_lt_iff_lt.mpr h]
  rfl

/-- The facts that `mk_idx` makes of a signature. -/
def factsOf (s : FunctionSig) : FunctionFacts :=
  { ea_start := s.ea, ea_end := s.ea + s.size, name := s.name, size := s.size, imports := s.imports
    strings := s.strings, constants := s.constants }

/-- `mk_idx` makes an index of signatures in order. -/
lemma mk_idx_eq_ok [Host] {sig : SigIndex} (hsorted : sig.functions.Pairwise fun a b => a.ea < b.ea)
    (hfits : ∀ s ∈ sig.functions, s.ea.val + s.size.val < 2 ^ 64) :
    ∃ idx, mk_idx sig = .ok idx ∧ idx.binary_md5 = sig.binary_md5 ∧
      idx.functions.toList = sig.functions.map fun s => (s.ea, factsOf s) := by
  have hloop : ∃ m : AddrMap FunctionFacts,
      Outcome.foldList (fun (m : AddrMap FunctionFacts) f => do
        let ea_end ← addU64 f.ea f.size
        return m.insert f.ea { ea_start := f.ea, ea_end, name := f.name, size := f.size
                               imports := f.imports, strings := f.strings
                               constants := f.constants }) ∅ sig.functions = (.ok m : Result _) ∧
      ∀ k v, m[k]? = some v ↔ (k, v) ∈ sig.functions.map fun s => (s.ea, factsOf s) := by
    refine Outcome.foldList_ok (I := fun front (m : AddrMap FunctionFacts) =>
      ∀ k v, m[k]? = some v ↔ (k, v) ∈ front.map fun s => (s.ea, factsOf s)) ?_ ?_
    · simp
    · intro front s back m hl hm
      have hs : s ∈ sig.functions := hl ▸ List.mem_append_right front List.mem_cons_self
      have hsum : (addU64 s.ea s.size : Result U64) = .ok (s.ea + s.size) := by
        rw [addU64, if_pos (Or.inl (hfits s hs))]
      -- the addresses are in order, so no insertion replaces another
      have hnew : ∀ s' ∈ front, s'.ea ≠ s.ea := by
        intro s' hs'
        rw [hl] at hsorted
        exact ((List.pairwise_append.mp hsorted).2.2 s' hs' s List.mem_cons_self).ne
      refine ⟨m.insert s.ea (factsOf s), by rw [hsum]; rfl, fun k v => ?_⟩
      rw [getElem?_insert_eq_ite, List.map_append, List.mem_append, ← hm, List.map_singleton,
        List.mem_singleton, Prod.mk.injEq]
      split
      · rename_i hk
        have hfree : m[k]? ≠ some v := by
          intro hkv
          obtain ⟨s', hs', heq⟩ := List.mem_map.mp ((hm k v).mp hkv)
          exact hnew s' hs' ((Prod.mk.inj heq).1.trans hk)
        simp [hk, hk ▸ hfree, eq_comm]
      · rename_i hk
        simp [hk]
  obtain ⟨m, hm, hentries⟩ := hloop
  refine ⟨⟨1, sig.binary_md5, 0, m, []⟩, by rw [mk_idx, hm]; rfl, rfl, ?_⟩
  -- two lists in the order of their addresses with the same members are the same
  refine @eq_of_ascending _ _ _ Prod.fst _ _ ?_ ?_ fun p => ?_
  · exact (Std.ExtTreeMap.ordered_keys_toList (t := m)).imp fun h => compare_lt_iff_lt.mp h
  · exact List.pairwise_map.mpr hsorted
  · exact Std.ExtTreeMap.mem_toList_iff_getElem?_eq_some.trans (hentries p.1 p.2)

/-- What arrives of the signatures of an index: everything but the calls. -/
lemma rebuilt_sigs [Host] {idx : AnalysisIndex} (hfits : Fits idx) :
    ∃ idx', mk_idx { build_sig_index idx with functions := (sigsOf idx).map counted } = .ok idx' ∧
      idx'.binary_md5 = idx.binary_md5 ∧ sigsOf idx' = (sigsOf idx).map silent := by
  let arrived : SigIndex := { build_sig_index idx with functions := (sigsOf idx).map counted }
  have hsorted : arrived.functions.Pairwise fun a b => a.ea < b.ea :=
    List.pairwise_map.mpr (sigsOf_pairwise idx)
  obtain ⟨idx', hok, hmd5, hentries⟩ := mk_idx_eq_ok hsorted (List.forall_mem_map.mpr hfits)
  refine ⟨idx', hok, hmd5, ?_⟩
  rw [sigsOf, hentries, List.map_map, List.map_map]
  refine List.map_congr_left fun s hs => ?_
  obtain ⟨f, -, rfl⟩ := List.mem_map.mp hs
  simp only [Function.comp_apply, factsOf, counted, silent, to_sig, sortDedup_idem]
  rfl

/-! ## What the loop collects -/

/-- A function that the loop passes over. -/
def PassedOver (f : FunctionSig) : Prop := f.size.val < 16 ∧ f.imports = [] ∧ f.constants = []

instance (f : FunctionSig) : Decidable (PassedOver f) := inferInstanceAs (Decidable (_ ∧ _))

/-- A function, its match, and their scores. -/
abbrev Match : Type := FunctionSig × FunctionSig × FamilyScores F64

/-- The match of a function. -/
def matchFor (t : Thresholds) (candidates : List FunctionSig) (f : FunctionSig) : Option Match :=
  if PassedOver f then none else (bestMatch t f candidates).map fun m => (f, m.1, m.2)

/-- The row of a match. -/
def Match.row (t : Thresholds) (m : Match) : Json := transferRow t m.1 m.2.1 m.2.2

/-- The match has a name conflict. -/
def Match.conflict (m : Match) : Bool := nameConflict m.1 m.2.1

section
variable (t : Thresholds) {max_transfers : ℕ} (candidates : List FunctionSig)

/-- The loop collects the matches, as many as it may. -/
lemma transfersFrom_eq (fs : List FunctionSig) {r : Transfers}
    (hr : r.rows.length < max_transfers) :
    (transfersFrom t max_transfers candidates fs r).rows = r.rows ++
        ((fs.filterMap (matchFor t candidates)).take (max_transfers - r.rows.length)).map
        (Match.row t) ∧
      (transfersFrom t max_transfers candidates fs r).conflicts = r.conflicts +
        ((fs.filterMap (matchFor t candidates)).take (max_transfers - r.rows.length)).countP
          Match.conflict := by
  induction fs generalizing r with
  | nil => simp [transfersFrom]
  | cons f fs ih =>
    rw [transfersFrom]
    by_cases hpassed : f.size.val < 16 ∧ f.imports = [] ∧ f.constants = []
    · have hnone : matchFor t candidates f = none := if_pos hpassed
      rw [if_pos hpassed, List.filterMap_cons_none hnone]
      exact ih hr
    · rw [if_neg hpassed]
      cases hbest : bestMatch t f candidates with
      | none =>
        have hnone : matchFor t candidates f = none := by
          rw [matchFor, hbest]
          exact if_neg hpassed
        rw [List.filterMap_cons_none hnone]
        exact ih hr
      | some best =>
        obtain ⟨g, s⟩ := best
        have hsome : matchFor t candidates f = some (f, g, s) := by
          rw [matchFor, hbest]
          exact if_neg hpassed
        -- a match: it takes one of the rows that are left
        obtain ⟨room, hroom⟩ : ∃ room, max_transfers - r.rows.length = room + 1 :=
          ⟨max_transfers - r.rows.length - 1, by omega⟩
        rw [List.filterMap_cons_some hsome, hroom, List.take_succ_cons, List.map_cons,
          List.countP_cons]
        have hcount : (if nameConflict f g then r.conflicts + 1 else r.conflicts) =
            r.conflicts + if Match.conflict (f, g, s) then 1 else 0 := by
          show _ = r.conflicts + if nameConflict f g then 1 else 0
          split <;> rfl
        dsimp only
        rw [hcount, List.length_append, List.length_singleton]
        split
        · -- the bound is reached
          obtain rfl : room = 0 := by omega
          simp [Match.row]
        · rename_i hmore
          have hlength : (r.rows ++ [transferRow t f g s]).length = r.rows.length + 1 := by simp
          have hrest : max_transfers - (r.rows.length + 1) = room := by omega
          obtain ⟨hrows, hconflicts⟩ := @ih
            { r with rows := r.rows ++ [transferRow t f g s]
                     conflicts := r.conflicts + if Match.conflict (f, g, s) then 1 else 0 }
            (by rw [hlength]; omega)
          rw [hrows, hconflicts]
          dsimp only
          rw [hlength, hrest]
          refine ⟨?_, by omega⟩
          rw [List.append_assoc]
          rfl

end

/-! ## What is compared -/

/-- What a transfer says: the pair, its score and kind, and whether the names are in conflict. -/
abbrev Shown : Type := Json × Json × Json × Json × Json

/-- What a row says. -/
def shown (row : Json) : Shown :=
  (row.idx "from", row.idx "to", row.idx "score", row.idx "match_kind",
    (row.idx "proposal").idx "conflict")

/-- Two answers have the same transfers. -/
def SameTransfers (v w : Json) : Prop :=
  (Deep.items v "transfers").map shown = (Deep.items w "transfers").map shown ∧
    v.idx "conflicts" = w.idx "conflicts"

/-- What the row of a match says. -/
def Match.shows (t : Thresholds) (m : Match) : Shown :=
  (.object [("ea", .ea m.1.ea), ("name", m.1.name)],
    .object [("ea", .ea m.2.1.ea), ("name", m.2.1.name)], scoreJson m.2.2.overall,
    .string (if isStrict t m.2.2 then "strict" else "relaxed"), .bool m.conflict)

/-- The score that is shown. -/
def shownScore (x : Shown) : ℚ := (x.2.2.1.asF64).getD 0

/-- The address of the function that is mapped. -/
def shownKey (x : Shown) : U64 := parseHexOrZero (((x.1.idx "ea").asStr).getD "")

/-- The address of the function that it is mapped to. -/
def shownTo (x : Shown) : U64 := parseHexOrZero (((x.2.1.idx "ea").asStr).getD "")

/-- The conflict that is shown. -/
def shownConflict (x : Shown) : Bool := (x.2.2.2.2.asBool).getD false

lemma shown_row (t : Thresholds) (m : Match) : shown (m.row t) = m.shows t := by
  have hkind := apply_ite Json.string (isStrict t m.2.2) "strict" "relaxed"
  simp [shown, Match.row, transferRow, Json.idx, Json.get, Match.shows, Match.conflict, hkind]

lemma shownKey_shows (t : Thresholds) (m : Match) : shownKey (m.shows t) = m.1.ea :=
  parseHexOrZero_hex m.1.ea

lemma shownTo_shows {t : Thresholds} {m : Match} : shownTo (m.shows t) = m.2.1.ea :=
  parseHexOrZero_hex m.2.1.ea

/-- The rows are sorted by the scores that they show. -/
lemma sort_shown (rows : List Json) :
    (rows.insertionSort fun a b =>
        ((b.idx "score").asF64).getD 0 ≤ ((a.idx "score").asF64).getD 0).map shown =
      (rows.map shown).insertionSort fun a b => shownScore b ≤ shownScore a :=
  List.map_insertionSort _ _ shown rows fun _ _ _ _ => Iff.rfl

/-- The matches that `map_functions` collects. -/
def matched (t : Thresholds) (max_transfers : ℕ) (source goal : List FunctionSig) : List Match :=
  (source.filterMap (matchFor t goal)).take max_transfers

section
variable {t : Thresholds} {max_transfers : ℕ} {source goal source' goal' : AnalysisIndex}

lemma map_functions_transfers (hmax : 0 < max_transfers) :
    (Deep.items (map_functions source goal t max_transfers) "transfers").map shown =
      ((matched t max_transfers (sigsOf source) (sigsOf goal)).map (Match.shows t)).insertionSort
        fun a b => shownScore b ≤ shownScore a := by
  have hrows := (transfersFrom_eq t (sigsOf goal) (sigsOf source) (r := ⟨[], 0, false⟩) hmax).1
  have hitems : Deep.items (map_functions source goal t max_transfers) "transfers" =
      (transfersFrom t max_transfers (sigsOf goal) (sigsOf source)
        ⟨[], 0, false⟩).rows.insertionSort
        fun a b => ((b.idx "score").asF64).getD 0 ≤ ((a.idx "score").asF64).getD 0 := by
    simp [Deep.items, map_functions, Json.idx, Json.get, Json.asArray, sigsOf]
  rw [hitems, sort_shown, hrows, List.nil_append, List.map_map]
  exact congrArg _ (List.map_congr_left fun m _ => shown_row t m)

lemma map_functions_conflicts (hmax : 0 < max_transfers) :
    (map_functions source goal t max_transfers).idx "conflicts" =
      .nat ((matched t max_transfers (sigsOf source) (sigsOf goal)).countP Match.conflict) := by
  have hconflicts := (transfersFrom_eq t (sigsOf goal) (sigsOf source) (r := ⟨[], 0, false⟩) hmax).2
  rw [List.length_nil, Nat.zero_add, Nat.sub_zero] at hconflicts
  rw [matched, ← hconflicts]
  simp [map_functions, Json.idx, Json.get, sigsOf]

lemma matchFor_fst {candidates : List FunctionSig} {f : FunctionSig} {m : Match}
    (h : matchFor t candidates f = some m) : m.1 = f := by
  rw [matchFor] at h
  split at h
  · exact absurd h nofun
  · obtain ⟨b, -, rfl⟩ := Option.map_eq_some_iff.mp h
    rfl

/-- The matches are in the order of the addresses. -/
lemma matched_pairwise (candidates : List FunctionSig) {sigs : List FunctionSig}
    (hsorted : sigs.Pairwise fun a b => a.ea < b.ea) :
    ((matched t max_transfers sigs candidates).map (Match.shows t)).Pairwise
      fun a b => shownKey a < shownKey b := by
  rw [List.pairwise_map, matched]
  refine (List.Pairwise.filterMap _ (fun a b hab x hx y hy => ?_) hsorted).take
  rw [shownKey_shows, shownKey_shows, matchFor_fst hx, matchFor_fst hy]
  exact hab

/-- The transfers are the same when the matches that are collected say the same. -/
lemma sameTransfers_iff (hmax : 0 < max_transfers) :
    SameTransfers (map_functions source' goal' t max_transfers)
        (map_functions source goal t max_transfers) ↔
      (matched t max_transfers (sigsOf source') (sigsOf goal')).map (Match.shows t) =
        (matched t max_transfers (sigsOf source) (sigsOf goal)).map (Match.shows t) := by
  rw [SameTransfers, map_functions_transfers hmax, map_functions_transfers hmax,
    map_functions_conflicts hmax, map_functions_conflicts hmax]
  constructor
  · rintro ⟨hsorted, -⟩
    -- sorting by scores keeps the members, and the addresses give the order back
    refine eq_of_ascending (matched_pairwise _ (sigsOf_pairwise source'))
      (matched_pairwise _ (sigsOf_pairwise source)) fun x => ?_
    rw [← List.mem_insertionSort fun a b => shownScore b ≤ shownScore a, hsorted,
      List.mem_insertionSort]
  · intro heq
    have hcount : ∀ l : List Match, l.countP Match.conflict =
        (l.map (Match.shows t)).countP shownConflict := fun l => by
      rw [List.countP_map]
      rfl
    exact ⟨by rw [heq], by rw [hcount, hcount, heq]⟩

end

/-! ## What the calls change -/

/-- The scores with equal calls. -/
def FamilyScores.bare (s : FamilyScores F64) : FamilyScores F64 := { s with calls := 1.0 }

/-- The overall score of two functions. -/
def score (f g : FunctionSig) : F64 := (similarity f g).overall

/-- The overall score of two functions with equal calls. -/
def bareScore (f g : FunctionSig) : F64 := (similarity f g).bare.overall

lemma countSim_le_one (a b : ℕ) : countSim a b ≤ (1.0 : F64) := by
  rw [countSim]
  split
  · exact le_rfl
  · exact F64.natCast_div_le_one min_le_max

/-- The score of the calls, by the scores of the callees and of the callers. -/
def callScore (callees callers : F64) : F64 := 0.6 * callees + 0.4 * callers

lemma callScore_mono {x y x' y' : F64} (hx : x ≤ x') (hy : y ≤ y') :
    callScore x y ≤ callScore x' y' :=
  add_le_add (mul_le_mul_of_nonneg_left hx (by decide +kernel))
    (mul_le_mul_of_nonneg_left hy (by decide +kernel))

lemma callScore_ones : callScore 1.0 1.0 = 1.0 := by decide +kernel

lemma call_sim_le_one (f g : FunctionSig) : call_sim f g ≤ (1.0 : F64) :=
  (callScore_mono (countSim_le_one _ _) (countSim_le_one _ _)).trans callScore_ones.le

/-- Equal calls only raise a score. -/
lemma score_le_bareScore (f g : FunctionSig) : score f g ≤ bareScore f g := by
  have hcalls : (similarity f g).calls ≤ (1.0 : F64) := call_sim_le_one f g
  simp only [score, bareScore, FamilyScores.overall, FamilyScores.bare]
  refine add_le_add (add_le_add le_rfl ?_) le_rfl
  exact mul_le_mul_of_nonneg_left hcalls (by decide +kernel)

lemma similarity_silent (f g : FunctionSig) :
    similarity (silent f) (silent g) = (similarity f g).bare := by
  have hcalls : call_sim (silent f) (silent g) = (1.0 : F64) := by
    show (0.6 : F64) * countSim 0 0 + 0.4 * countSim 0 0 = 1.0
    decide +kernel
  rw [similarity, hcalls]
  rfl

section
variable {t : Thresholds} {candidates : List FunctionSig} {f : FunctionSig}

/-- The best match is the first of the candidates with the highest score. -/
lemma bestMatch_eq (t : Thresholds) (f : FunctionSig) (candidates : List FunctionSig) :
    bestMatch t f candidates =
      (firstBest (score f) t.relaxed candidates).map fun g => (g, similarity f g) := by
  rw [bestMatch, firstBest]
  refine @List.foldl_hom _ _ _ (Option.map fun g => (g, similarity f g)) _ _ candidates none
    fun best g => ?_
  rw [apply_ite (Option.map fun g => (g, similarity f g))]
  cases best <;> rfl

lemma bestMatch_silent (t : Thresholds) (f : FunctionSig) (candidates : List FunctionSig) :
    bestMatch t (silent f) (candidates.map silent) =
      (firstBest (bareScore f) t.relaxed candidates).map
        fun g => (silent g, (similarity f g).bare) := by
  have hscore : (fun g => score (silent f) (silent g)) = bareScore f :=
    funext fun g => by rw [score, similarity_silent, bareScore]
  rw [bestMatch_eq, firstBest_map, hscore, Option.map_map]
  exact congrArg (Option.map · _) (funext fun g => by rw [Function.comp_apply, similarity_silent])

/-- A function is mapped alike with the calls and without them. -/
def Steady (t : Thresholds) (candidates : List FunctionSig) (f : FunctionSig) : Prop :=
  (∀ g ∈ candidates, bareScore f g < t.relaxed) ∨
    ∃ g, FirstBest (score f) candidates g ∧ FirstBest (bareScore f) candidates g ∧
      t.relaxed ≤ score f g ∧ round2 (score f g) = round2 (bareScore f g) ∧
      isStrict t (similarity f g) = isStrict t (similarity f g).bare

/-- Equal calls change nothing. -/
lemma steady_of_calls (h : ∀ g ∈ candidates, call_sim f g = (1.0 : F64)) :
    Steady t candidates f := by
  have hbare : ∀ g ∈ candidates, (similarity f g).bare = similarity f g := by
    intro g hg
    rw [similarity, h g hg]
    rfl
  have hsame : ∀ g ∈ candidates, bareScore f g = score f g := fun g hg => by
    rw [bareScore, hbare g hg, score]
  cases hbest : firstBest (score f) t.relaxed candidates with
  | none => exact Or.inl fun g hg => (hsame g hg).trans_lt (firstBest_eq_none_iff.mp hbest g hg)
  | some g =>
    obtain ⟨hfirst, hrelaxed⟩ := firstBest_eq_some_iff.mp hbest
    have hg := hfirst.mem
    exact Or.inr ⟨g, hfirst, (FirstBest.congr hsame).mpr hfirst, hrelaxed, by rw [hsame g hg],
      by rw [hbare g hg]⟩

/-- What the two rows of a pair have in common. -/
lemma shows_eq_iff {g : FunctionSig} {s s' : FamilyScores F64} :
    Match.shows t (f, g, s) = Match.shows t (f, g, s') ↔
      round2 s.overall = round2 s'.overall ∧ isStrict t s = isStrict t s' := by
  have hkind : (if isStrict t s then "strict" else "relaxed") =
      (if isStrict t s' then "strict" else "relaxed") ↔ isStrict t s = isStrict t s' := by
    cases isStrict t s <;> cases isStrict t s' <;> decide
  simp only [Match.shows, Prod.mk.injEq, true_and, scoreJson, Match.conflict, and_true,
    Json.number.injEq, Json.string.injEq, hkind]
  simp [F64.ext_iff]

/-- What is shown of a function is the same exactly when it is passed over or mapped alike. -/
lemma shown_eq_iff (hdistinct : candidates.Pairwise fun a b => a.ea < b.ea) :
    (matchFor t candidates f).map (Match.shows t) =
        (matchFor t (candidates.map silent) (silent f)).map (Match.shows t) ↔
      PassedOver f ∨ Steady t candidates f := by
  by_cases hpassed : PassedOver f
  · have hnone : matchFor t candidates f = none := if_pos hpassed
    have hnone' : matchFor t (candidates.map silent) (silent f) = none := if_pos hpassed
    simp [hnone, hnone', hpassed]
  have hleft : (matchFor t candidates f).map (Match.shows t) =
      (firstBest (score f) t.relaxed candidates).map
        fun g => Match.shows t (f, g, similarity f g) := by
    rw [matchFor, if_neg hpassed, bestMatch_eq, Option.map_map, Option.map_map]
    rfl
  have hright : (matchFor t (candidates.map silent) (silent f)).map (Match.shows t) =
      (firstBest (bareScore f) t.relaxed candidates).map
        fun g => Match.shows t (f, g, (similarity f g).bare) := by
    have hpassed' : ¬PassedOver (silent f) := hpassed
    rw [matchFor, if_neg hpassed', bestMatch_silent, Option.map_map, Option.map_map]
    rfl
  rw [hleft, hright, or_iff_right hpassed]
  cases hbare : firstBest (bareScore f) t.relaxed candidates with
  | none =>
    -- no candidate reaches the threshold even with equal calls
    have hlow := firstBest_eq_none_iff.mp hbare
    have hnone : firstBest (score f) t.relaxed candidates = none :=
      firstBest_eq_none_iff.mpr fun g hg => (score_le_bareScore f g).trans_lt (hlow g hg)
    simp only [hnone, Option.map_none, true_iff]
    exact Or.inl hlow
  | some g =>
    obtain ⟨hbest, hrelaxed⟩ := firstBest_eq_some_iff.mp hbare
    rw [Option.map_some, Option.map_eq_some_iff]
    constructor
    · rintro ⟨g', hg', hshows⟩
      obtain ⟨hbest', hrelaxed'⟩ := firstBest_eq_some_iff.mp hg'
      -- the addresses that are shown tell the candidates apart
      have hea : g'.ea = g.ea :=
        shownTo_shows.symm.trans ((congrArg shownTo hshows).trans shownTo_shows)
      have hnodup : (candidates.map FunctionSig.ea).Nodup :=
        List.pairwise_map.mpr (hdistinct.imp fun hlt => hlt.ne)
      obtain rfl : g' = g := List.inj_on_of_nodup_map hnodup hbest'.mem hbest.mem hea
      exact Or.inr ⟨g', hbest', hbest, hrelaxed', shows_eq_iff.mp hshows⟩
    · rintro (hlow | ⟨g', hbest', hbare', hrelaxed', hsame⟩)
      · exact absurd (hlow g hbest.mem) (not_lt.mpr hrelaxed)
      · obtain rfl : g' = g := hbare'.unique hbest
        exact ⟨g', firstBest_eq_some_iff.mpr ⟨hbest', hrelaxed'⟩, shows_eq_iff.mpr hsame⟩

/-- A function is mapped: it is not passed over, and a candidate reaches the threshold. -/
def Mapped (t : Thresholds) (candidates : List FunctionSig) (f : FunctionSig) : Prop :=
  ¬PassedOver f ∧ ∃ g ∈ candidates, t.relaxed ≤ score f g

instance (t : Thresholds) (candidates : List FunctionSig) : DecidablePred (Mapped t candidates) :=
  fun _ => inferInstanceAs (Decidable (_ ∧ _))

/-- The matches are those of the functions that are mapped. -/
lemma matchFor_isSome : (matchFor t candidates f).isSome ↔ Mapped t candidates f := by
  by_cases hpassed : PassedOver f
  · simp [matchFor, Mapped, hpassed]
  · rw [matchFor, if_neg hpassed, Option.isSome_map, bestMatch_eq, Option.isSome_map,
      ← not_iff_not, Option.not_isSome_iff_eq_none, firstBest_eq_none_iff]
    simp [Mapped, hpassed]

lemma filterMap_matchFor_length (fs : List FunctionSig) :
    (fs.filterMap (matchFor t candidates)).length =
      fs.countP fun f => decide (Mapped t candidates f) := by
  rw [List.length_filterMap_eq_countP]
  refine List.countP_congr fun f _ => ?_
  rw [matchFor_isSome, decide_eq_true_eq]

/-- The matches say the same without the calls exactly when every function that is reached is passed
over or mapped alike. -/
lemma shows_matched_eq_iff (t : Thresholds) {sigs candidates : List FunctionSig}
    (hsorted : sigs.Pairwise fun a b => a.ea < b.ea)
    (hdistinct : candidates.Pairwise fun a b => a.ea < b.ea) (n : ℕ) :
    (matched t n sigs candidates).map (Match.shows t) =
        (matched t n (sigs.map silent) (candidates.map silent)).map (Match.shows t) ↔
      ∀ front f back, sigs = front ++ f :: back →
        (front.countP fun f => decide (Mapped t candidates f)) < n →
        PassedOver f ∨ Steady t candidates f := by
  -- what is shown of a function tells which function it is
  have hkey : ∀ cands f x, (matchFor t cands f).map (Match.shows t) = some x →
      shownKey x = f.ea := by
    intro cands f x hx
    obtain ⟨m, hm, rfl⟩ := Option.map_eq_some_iff.mp hx
    rw [shownKey_shows, matchFor_fst hm]
  have hleft : (matched t n sigs candidates).map (Match.shows t) =
      (sigs.filterMap fun f => (matchFor t candidates f).map (Match.shows t)).take n := by
    rw [matched, List.map_take, List.map_filterMap]
  have hright : (matched t n (sigs.map silent) (candidates.map silent)).map (Match.shows t) =
      (sigs.filterMap fun f =>
        (matchFor t (candidates.map silent) (silent f)).map (Match.shows t)).take n := by
    rw [matched, List.map_take, List.map_filterMap, List.filterMap_map]
    rfl
  rw [hleft, hright, take_filterMap_eq_iff (hsorted.imp fun hlt => hlt.ne)
    (fun f _ => hkey candidates f) fun f _ => hkey _ (silent f)]
  refine forall₃_congr fun front f back => imp_congr_right fun _ => ?_
  rw [shown_eq_iff hdistinct, ← filterMap_matchFor_length, ← List.map_filterMap, List.length_map]

end

section
variable [Host] (env : Env) {source goal : AnalysisIndex}

/-- The bound that a request sets on the transfers. -/
def max_transfers_param (params : Json) : ℕ := clamp (count_param params "max_transfers" 100) 1 2000

omit [Host] in
lemma max_transfers_param_pos (params : Json) : 0 < max_transfers_param params :=
  lt_of_lt_of_le Nat.one_pos (le_max_left _ _)

omit [Host] in
lemma sig_param_eq_ok {params : Json} {key : String} {s : SigIndex}
    (h : params.get key = some (to_value s)) (missing bad : String) :
    sig_param env params key missing bad = .ok { s with functions := s.functions.map counted } := by
  rw [sig_param, h]
  show Outcome.ofOption _ (from_value (to_value s)) = _
  rw [from_to_value]
  rfl

/-- `sig.map` maps the functions without their calls. -/
lemma sigMap_eq_ok (hsource : Fits source) (hgoal : Fits goal) {params : Json}
    (hfrom : params.get "from" = some (to_value (build_sig_index source)))
    (hto : params.get "to" = some (to_value (build_sig_index goal))) :
    ∃ source' goal', sigsOf source' = (sigsOf source).map silent ∧
      sigsOf goal' = (sigsOf goal).map silent ∧
      sigMap env params =
        .ok (map_functions source' goal' .default (max_transfers_param params)) := by
  obtain ⟨source', hsource', -, hsigs⟩ := rebuilt_sigs hsource
  obtain ⟨goal', hgoal', -, hsigs'⟩ := rebuilt_sigs hgoal
  refine ⟨source', goal', hsigs, hsigs', ?_⟩
  rw [sigMap, sig_param_eq_ok env hfrom, sig_param_eq_ok env hto, Outcome.ok_bind, Outcome.ok_bind,
    sig_map_from_sigs, build_sig_index_functions, build_sig_index_functions, hsource', hgoal']
  rfl

end

/-! ## Indexes of one function -/

/-- An index of one function with the given callees. -/
def oneFunction (callees : List U64) : AnalysisIndex :=
  ⟨1, "", 0, (∅ : AddrMap FunctionFacts).insert 0x401000
    { ea_start := 0x401000, ea_end := 0x401020, name := "f", size := 0x20, callees }, []⟩

/-- A request to map signature indexes. -/
def mapRequest (source goal : AnalysisIndex) : Json :=
  .object [("from", to_value (build_sig_index source)), ("to", to_value (build_sig_index goal))]

/-- The signature of the function. -/
def oneSig (callees : ℕ) : FunctionSig := ⟨0x401000, "f", 0x20, [], [], [], callees, 0⟩

lemma sigsOf_oneFunction (callees : List U64) :
    sigsOf (oneFunction callees) = [oneSig callees.length] := rfl

lemma fits_oneFunction (callees : List U64) : Fits (oneFunction callees) := by
  rw [Fits, sigsOf_oneFunction]
  simp [oneSig]

/-! ## The answer of `sig.map` -/

variable [Host] (env : Env) {source goal : AnalysisIndex} in
/-- `sig.map` has the transfers of `map_functions` exactly when every function that is reached is
mapped alike with the calls and without them. -/
theorem sig_map_iff (hsource : Fits source) (hgoal : Fits goal) {params : Json}
    (hfrom : params.get "from" = some (to_value (build_sig_index source)))
    (hto : params.get "to" = some (to_value (build_sig_index goal))) :
    (∃ v, sigMap env params = .ok v ∧
        SameTransfers v (map_functions source goal .default (max_transfers_param params))) ↔
      ∀ front f back, sigsOf source = front ++ f :: back →
        (front.countP fun f => decide (Mapped .default (sigsOf goal) f)) <
        max_transfers_param params →
        PassedOver f ∨ Steady .default (sigsOf goal) f := by
  obtain ⟨source', goal', hsigs, hsigs', hok⟩ := sigMap_eq_ok env hsource hgoal hfrom hto
  have hsame : (∃ v, sigMap env params = .ok v ∧
        SameTransfers v (map_functions source goal .default (max_transfers_param params))) ↔
      SameTransfers (map_functions source' goal' .default (max_transfers_param params))
        (map_functions source goal .default (max_transfers_param params)) := by
    rw [hok]
    constructor
    · rintro ⟨v, hv, hsame⟩
      rwa [Outcome.ok.inj hv]
    · exact fun hsame => ⟨_, rfl, hsame⟩
  rw [hsame, sameTransfers_iff (max_transfers_param_pos params), hsigs, hsigs', eq_comm]
  exact shows_matched_eq_iff _ (sigsOf_pairwise source) (sigsOf_pairwise goal) _

/-- Two functions with as many callees. -/
theorem sig_map_iff_callees :
    letI : Host := Host.ascii true
    ∃ v, sigMap .bare (mapRequest (oneFunction [0x402000]) (oneFunction [0x403000])) = .ok v ∧
      SameTransfers v (map_functions (oneFunction [0x402000]) (oneFunction [0x403000]) .default
        (max_transfers_param (mapRequest (oneFunction [0x402000]) (oneFunction [0x403000])))) := by
  let _ : Host := Host.ascii true
  refine (sig_map_iff .bare (fits_oneFunction _) (fits_oneFunction _) rfl rfl).mpr
    fun front f back hsplit _ => Or.inr (steady_of_calls fun g hg => ?_)
  rw [sigsOf_oneFunction] at hsplit hg
  obtain rfl : f = oneSig 1 := by
    have hf : f ∈ [oneSig 1] := hsplit ▸ List.mem_append_right front List.mem_cons_self
    exact List.mem_singleton.mp hf
  rw [List.mem_singleton.mp hg]
  decide +kernel

/-- With one callee against none, the score of `sig.map` is 1 and that of `map_functions` is
0.91. -/
theorem sig_map_not_same :
    letI : Host := Host.ascii true
    ¬∃ v, sigMap .bare (mapRequest (oneFunction [0x402000]) (oneFunction [])) = .ok v ∧
      SameTransfers v (map_functions (oneFunction [0x402000]) (oneFunction []) .default
        (max_transfers_param (mapRequest (oneFunction [0x402000]) (oneFunction [])))) := by
  let _ : Host := Host.ascii true
  rintro ⟨v, hv, hrows, -⟩
  have hto : (mapRequest (oneFunction [0x402000]) (oneFunction [])).get "to" =
      some (to_value (build_sig_index (oneFunction []))) := rfl
  obtain ⟨source', goal', hsigs, hsigs', hok⟩ :=
    sigMap_eq_ok .bare (fits_oneFunction [0x402000]) (fits_oneFunction []) rfl hto
  rw [hok] at hv
  have hpos := max_transfers_param_pos (mapRequest (oneFunction [0x402000]) (oneFunction []))
  rw [← Outcome.ok.inj hv, map_functions_transfers hpos, map_functions_transfers hpos, hsigs,
    hsigs'] at hrows
  exact absurd (congrArg (List.map shownScore) hrows) (by decide +kernel)

end Signatures

end ReverseMcp
