import ReverseMcp.Worker.SimilarityLaws

/-!
# Identifying a function

`sig.identify` scores every function of a reference against one function and lists the best
candidates, the highest score first and equal scores by address (`identify_function_eq`).

With the export of a database as the reference, the first candidate for one of its own functions has
score 1 and is the first function with the same fingerprint (`identify_own_export`).  The scores are
rounded, so that this needs functions of less than `2 ^ 48` bytes (`Moderate`): of two sizes that
are close enough, the ratio is 1 as well.
-/

namespace ReverseMcp

open Rust

namespace Signatures

/-! ## The ranking -/

/-- The order of the candidates. -/
def Candidate.Ahead (a b : Candidate) : Prop :=
  b.scores.overall < a.scores.overall ∨ (a.scores.overall = b.scores.overall ∧ a.ea ≤ b.ea)

instance : DecidableRel Candidate.Ahead := fun a b =>
  inferInstanceAs (Decidable (b.scores.overall < a.scores.overall ∨
    (a.scores.overall = b.scores.overall ∧ a.ea ≤ b.ea)))

/-- A function of the reference, compared with the one to be identified. -/
def candidateFor (t : Thresholds) (probe rf : FunctionSig) : Candidate :=
  let s := similarity probe rf
  let kind := if isStrict t s then "strict" else if t.relaxed ≤ s.overall then "relaxed"
    else "weak"
  ⟨rf.ea, rf.name, s, kind⟩

/-- The functions of the reference, ranked. -/
def ranked (t : Thresholds) (probe : FunctionSig) (reference : SigIndex) : List Candidate :=
  (reference.functions.map (candidateFor t probe)).insertionSort Candidate.Ahead

/-- A candidate as it is listed. -/
def Candidate.row (c : Candidate) : Json :=
  .object [("candidate", .object [("ea", .ea c.ea), ("name", c.name)]),
    ("score", scoreJson c.scores.overall), ("match_kind", c.match_kind),
    ("evidence", c.scores.to_json)]

section Ranking

variable {idx : AnalysisIndex} {reference : SigIndex} {target : U64} {t : Thresholds} {n : ℕ}
  {a b c : Candidate} {probe : FunctionSig}

/-- What is listed are the first candidates. -/
lemma identify_function_eq (reference : SigIndex) (t : Thresholds) (n : ℕ) {f : FunctionFacts}
    (hf : idx.functions[target]? = some f) :
    ∃ v, identify_function idx reference target t n = .ok v ∧ v.idx "candidates" =
      .array (((ranked t (to_sig f.ea_start f) reference).take n).map Candidate.row) := by
  rw [identify_function, hf]
  exact ⟨_, rfl, rfl⟩

lemma Candidate.ahead_total (a b : Candidate) : a.Ahead b ∨ b.Ahead a := by
  rw [Candidate.Ahead, Candidate.Ahead]
  rcases lt_trichotomy a.scores.overall b.scores.overall with h | h | h
  · exact .inr (.inl h)
  · exact (le_total a.ea b.ea).imp (fun hea => .inr ⟨h, hea⟩) fun hea => .inr ⟨h.symm, hea⟩
  · exact .inl (.inl h)

lemma Candidate.Ahead.trans (hab : a.Ahead b) (hbc : b.Ahead c) : a.Ahead c := by
  rw [Candidate.Ahead] at hab hbc ⊢
  rcases hab with hab | ⟨hab, hea⟩
  · rcases hbc with hbc | ⟨hbc, -⟩
    · exact .inl (hbc.trans hab)
    · exact .inl (hbc ▸ hab)
  · rcases hbc with hbc | ⟨hbc, hea'⟩
    · exact .inl (hab ▸ hbc)
    · exact .inr ⟨hab.trans hbc, hea.trans hea'⟩

lemma ranked_perm :
    (ranked t probe reference).Perm (reference.functions.map (candidateFor t probe)) :=
  List.perm_insertionSort _ _

lemma ranked_pairwise : (ranked t probe reference).Pairwise Candidate.Ahead := by
  have htotal : Std.Total Candidate.Ahead := ⟨Candidate.ahead_total⟩
  have htrans : IsTrans Candidate Candidate.Ahead := ⟨fun _ _ _ => Candidate.Ahead.trans⟩
  exact List.pairwise_insertionSort _ _

/-- There is a first candidate, which is ahead of all others. -/
lemma exists_first (t : Thresholds) (probe : FunctionSig) {rf : FunctionSig}
    (hrf : rf ∈ reference.functions) :
    ∃ g ∈ reference.functions, ∃ rest, ranked t probe reference = candidateFor t probe g :: rest ∧
      ∀ h ∈ reference.functions, (candidateFor t probe g).Ahead (candidateFor t probe h) := by
  have hmem : ∀ c, c ∈ ranked t probe reference ↔
      ∃ h ∈ reference.functions, candidateFor t probe h = c :=
    fun c => ranked_perm.mem_iff.trans List.mem_map
  have hpairwise : (ranked t probe reference).Pairwise Candidate.Ahead := ranked_pairwise
  cases hranked : ranked t probe reference with
  | nil =>
    have hin := (hmem _).mpr ⟨rf, hrf, rfl⟩
    rw [hranked] at hin
    cases hin
  | cons c rest =>
    rw [hranked] at hmem hpairwise
    obtain ⟨g, hg, rfl⟩ := (hmem c).mp List.mem_cons_self
    refine ⟨g, hg, rest, rfl, fun h hh => ?_⟩
    rcases List.mem_cons.mp ((hmem _).mpr ⟨h, hh, rfl⟩) with heq | hrest
    · rw [heq]
      exact .inr ⟨rfl, le_rfl⟩
    · exact (List.pairwise_cons.mp hpairwise).1 _ hrest

/-- What is listed is ahead of what is not. -/
lemma ahead_of_not_listed (hc : c ∈ (ranked t probe reference).take n) {h : FunctionSig}
    (hh : h ∈ reference.functions)
    (hnot : candidateFor t probe h ∉ (ranked t probe reference).take n) :
    c.Ahead (candidateFor t probe h) := by
  have hin : candidateFor t probe h ∈ ranked t probe reference :=
    ranked_perm.mem_iff.mpr (List.mem_map_of_mem hh)
  have hpairwise : (ranked t probe reference).Pairwise Candidate.Ahead := ranked_pairwise
  rw [← List.take_append_drop n (ranked t probe reference)] at hin hpairwise
  exact (List.pairwise_append.mp hpairwise).2.2 c hc _ ((List.mem_append.mp hin).resolve_left hnot)

end Ranking

/-! ## The same fingerprint -/

section Sorted

variable {α : Type} [Ord α] [Std.TransOrd α] [Std.LawfulEqOrd α] [DecidableEq α]

omit [Std.LawfulEqOrd α] in
lemma sortDedup_pairwise (l : List α) : (sortDedup l).Pairwise fun a b => (compare a b).isLE :=
  (sortByKey_pairwise id l).sublist (dedupBy_sublist _)

lemma sortDedup_nodup (l : List α) : (sortDedup l).Nodup := by
  have hchain : (sortDedup l).IsChain (· ≠ ·) := dedupBy_chain _
  have hsorted := sortDedup_pairwise l
  generalize sortDedup l = m at hchain hsorted ⊢
  induction m with
  | nil => exact .nil
  | cons a l ih =>
    obtain ⟨ha, hl⟩ := List.pairwise_cons.mp hsorted
    refine List.nodup_cons.mpr ⟨fun hin => ?_, ih hchain.tail hl⟩
    cases l with
    | nil => cases hin
    | cons b l =>
      -- the neighbour lies between the two occurrences
      refine (List.isChain_cons_cons.mp hchain).1 ?_
      refine Std.LawfulEqCmp.eq_of_compare
        (Std.OrientedCmp.isLE_antisymm (ha b List.mem_cons_self) ?_)
      rcases List.mem_cons.mp hin with rfl | hin
      · exact ha a List.mem_cons_self
      · exact (List.pairwise_cons.mp hl).1 a hin

/-- Sorted vectors with the same elements are the same. -/
lemma sortDedup_ext {l m : List α} (h : ∀ x, x ∈ sortDedup l ↔ x ∈ sortDedup m) :
    sortDedup l = sortDedup m := by
  refine List.Perm.eq_of_pairwise ?_ (sortDedup_pairwise l) (sortDedup_pairwise m)
    ((List.perm_ext_iff_of_nodup (sortDedup_nodup l) (sortDedup_nodup m)).mpr h)
  intro a b _ _ hab hba
  exact Std.LawfulEqCmp.eq_of_compare (Std.OrientedCmp.isLE_antisymm hab hba)

end Sorted

section Fingerprints

/-- The signatures differ in nothing but address and name. -/
def SameFingerprint (a b : FunctionSig) : Prop := { a with ea := b.ea, name := b.name } = b

/-- The largest score that two counts below `2 ^ 48` have if they differ. -/
def almost : F64 := .ofRat (1 - 1 / 2 ^ 48)

/-- A count that is below `2 ^ 48` is not rounded. -/
lemma natCast_val {n : ℕ} (hn : n < 2 ^ 48) : (n : F64).val = n := by
  have habs : |(n : ℤ)| ≤ 2 ^ (52 + 1) := by
    rw [Nat.abs_cast]
    omega
  exact nearest_intCast habs

lemma ratio_le_almost {m n : ℕ} (hlt : m < n) (hn : n < 2 ^ 48) : (m : F64) / n ≤ almost := by
  have hpos : (0 : ℚ) < n := by exact_mod_cast (Nat.zero_le m).trans_lt hlt
  have hle : (m : ℚ) + 1 ≤ n := by exact_mod_cast hlt
  have hbound : (n : ℚ) ≤ 2 ^ 48 := by exact_mod_cast hn.le
  have hone : 1 ≤ 2 ^ 48 / (n : ℚ) := (one_le_div hpos).mpr hbound
  have hdiv : (m : F64).val / (n : F64).val ≤ 1 - 1 / 2 ^ 48 := by
    rw [natCast_val (hlt.trans hn), natCast_val hn, div_le_iff₀ hpos]
    have hinv : 1 / 2 ^ 48 * (n : ℚ) ≤ 1 := by
      rw [one_div, inv_mul_le_iff₀ (by positivity), mul_one]
      exact hbound
    linarith
  exact F64.ofRat_mono hdiv

lemma ratio_self {n : ℕ} (hpos : 0 < n) (hn : n < 2 ^ 48) : (n : F64) / n = 1.0 := by
  have hne : (n : ℚ) ≠ 0 := by exact_mod_cast hpos.ne'
  have hval : (n : F64).val / (n : F64).val = (1.0 : F64).val := by
    rw [natCast_val hn, div_self hne, F64.one_val]
  exact (congrArg F64.ofRat hval).trans (F64.ofRat_val 1.0)

/-! ### The families -/

section
variable {α : Type} [DecidableEq α] {a b : List α}

lemma length_union_le (a b : List α) : (a.dedup ∪ b.dedup).length ≤ a.length + b.length := by
  have hsub : (a.dedup ∪ b.dedup).Subperm (a ++ b) := by
    refine (b.nodup_dedup.union _).subperm fun x hx => ?_
    rw [List.mem_union_iff, List.mem_dedup, List.mem_dedup] at hx
    exact List.mem_append.mpr hx
  exact hsub.length_le.trans List.length_append.le

lemma set_sim_le_one (a b : List α) : (set_sim a b : F64) ≤ 1.0 := by
  rw [set_sim]
  split
  · exact le_rfl
  split
  · decide +kernel
  · exact F64.natCast_div_le_one (length_inter_le_union a b)

/-- Sets are as similar as can be only if they are equal. -/
lemma mem_iff_of_set_sim (ha : a.length < 2 ^ 47) (hb : b.length < 2 ^ 47)
    (h : almost < set_sim a b) (x : α) : x ∈ a ↔ x ∈ b := by
  rw [set_sim] at h
  split at h
  · rename_i hnil
    rw [hnil.1, hnil.2]
  split at h
  · exact absurd h (by decide +kernel)
  have hunion := length_union_le a b
  have hlength : (a.dedup ∩ b.dedup).length = (a.dedup ∪ b.dedup).length := by
    refine (length_inter_le_union a b).eq_or_lt.resolve_right fun hlt => ?_
    exact absurd h (not_lt.mpr (ratio_le_almost hlt (by omega)))
  -- the intersection has all elements of the union
  have hperm : (a.dedup ∩ b.dedup).Perm (a.dedup ∪ b.dedup) := by
    refine ((a.nodup_dedup.inter _).subperm fun y hy => ?_).perm_of_length_le hlength.ge
    exact List.mem_union_left (List.mem_inter_iff.mp hy).1 _
  have hmem := hperm.mem_iff (a := x)
  rw [List.mem_inter_iff, List.mem_union_iff, List.mem_dedup, List.mem_dedup] at hmem
  tauto

lemma set_sim_self_one (ha : a.length < 2 ^ 47) : (set_sim a a : F64) = 1.0 := by
  rcases eq_or_ne a [] with rfl | hne
  · rw [set_sim, if_pos ⟨rfl, rfl⟩]
  · have hle := (List.dedup_sublist a).length_le
    rw [set_sim_self_eq hne]
    exact ratio_self (dedup_length_pos hne) (by omega)

end

section
variable {m n : ℕ} {a b : U64}

lemma countSim_le_almost (hm : m < 2 ^ 48) (hn : n < 2 ^ 48) (hne : m ≠ n) :
    (countSim m n : F64) ≤ almost := by
  rw [countSim, if_neg (by omega)]
  exact ratio_le_almost (by omega) (by omega)

lemma countSim_self_one (hn : n < 2 ^ 48) : (countSim n n : F64) = 1.0 := by
  rw [countSim, max_self, min_self]
  split
  · rfl
  · exact ratio_self (by omega) hn

lemma size_sim_le_one (a b : U64) : (size_sim a b : F64) ≤ 1.0 := by
  rw [size_sim]
  split
  · decide +kernel
  · exact F64.natCast_div_le_one min_le_max

lemma size_sim_le_almost (ha : a.val < 2 ^ 48) (hb : b.val < 2 ^ 48) (hne : a ≠ b) :
    (size_sim a b : F64) ≤ almost := by
  have hval : a.val ≠ b.val := Fin.val_ne_of_ne hne
  rw [size_sim, if_neg (by omega)]
  exact ratio_le_almost (by omega) (by omega)

lemma size_sim_self_one (ha : a.val < 2 ^ 48) (hne : a.val ≠ 0) : (size_sim a a : F64) = 1.0 := by
  rw [size_sim, max_self, min_self, if_neg hne]
  exact ratio_self (by omega) ha

end

/-! ### The sum -/

/-- No score of `s` is above that of `u`. -/
structure FamilyScores.Below (s u : FamilyScores F64) : Prop where
  imports : s.imports ≤ u.imports
  strings : s.strings ≤ u.strings
  constants : s.constants ≤ u.constants
  calls : s.calls ≤ u.calls
  size : s.size ≤ u.size

lemma FamilyScores.Below.overall_le {s u : FamilyScores F64} (h : s.Below u) :
    s.overall ≤ u.overall := by
  have hweight : ∀ {w x y : F64}, 0 ≤ w → x ≤ y → w * x ≤ w * y :=
    fun hw hxy => mul_le_mul_of_nonneg_left hxy hw
  refine add_le_add (add_le_add (add_le_add (add_le_add ?_ ?_) ?_) ?_) ?_
  · exact hweight (by decide +kernel) h.imports
  · exact hweight (by decide +kernel) h.constants
  · exact hweight (by decide +kernel) h.strings
  · exact hweight (by decide +kernel) h.calls
  · exact hweight (by decide +kernel) h.size

/-- The highest scores. -/
def ones : FamilyScores F64 := ⟨1.0, 1.0, 1.0, 1.0, 1.0⟩

lemma similarity_below (a b : FunctionSig) : (similarity a b).Below ones :=
  ⟨set_sim_le_one _ _, set_sim_le_one _ _, set_sim_le_one _ _, call_sim_le_one a b,
    size_sim_le_one _ _⟩

/-- The largest sums that are possible if one of the families differs. -/
lemma overall_lt_one :
    { ones with imports := almost }.overall < 1.0 ∧ { ones with strings := almost }.overall < 1.0 ∧
      { ones with constants := almost }.overall < 1.0 ∧
      { ones with calls := callScore almost 1.0 }.overall < 1.0 ∧
      { ones with calls := callScore 1.0 almost }.overall < 1.0 ∧
      { ones with size := almost }.overall < 1.0 := by decide +kernel

/-- Nothing in the signature is so large that the scores would not tell it from the next. -/
structure Moderate (s : FunctionSig) : Prop where
  size : s.size.val < 2 ^ 48
  imports : s.imports.length < 2 ^ 47
  strings : s.strings.length < 2 ^ 47
  constants : s.constants.length < 2 ^ 47
  callees : s.callee_count < 2 ^ 48
  callers : s.caller_count < 2 ^ 48

section
variable {a b : FunctionSig} {ea ea' : U64} {f g : FunctionFacts}

/-- Scores below others whose sum is less than 1 do not sum to 1. -/
lemma not_below {s u : FamilyScores F64} (hs : 1.0 ≤ s.overall) (hu : u.overall < 1.0) :
    ¬s.Below u :=
  fun h => absurd (hs.trans h.overall_le) (not_le.mpr hu)

/-- The score of two functions of indexes is 1 only if their fingerprints are the same. -/
lemma sameFingerprint_of_overall (ha : Moderate (to_sig ea f)) (hb : Moderate (to_sig ea' g))
    (h : 1.0 ≤ (similarity (to_sig ea f) (to_sig ea' g) : FamilyScores F64).overall) :
    SameFingerprint (to_sig ea f) (to_sig ea' g) := by
  have hbelow := similarity_below (to_sig ea f) (to_sig ea' g)
  obtain ⟨hi, hs, hc, hcallees, hcallers, hz⟩ := overall_lt_one
  have himports : (to_sig ea f).imports = (to_sig ea' g).imports := by
    refine sortDedup_ext (mem_iff_of_set_sim ha.imports hb.imports (not_le.mp fun hle => ?_))
    exact not_below h hi { hbelow with imports := hle }
  have hstrings : (to_sig ea f).strings = (to_sig ea' g).strings := by
    refine sortDedup_ext (mem_iff_of_set_sim ha.strings hb.strings (not_le.mp fun hle => ?_))
    exact not_below h hs { hbelow with strings := hle }
  have hconstants : (to_sig ea f).constants = (to_sig ea' g).constants := by
    refine sortDedup_ext (mem_iff_of_set_sim ha.constants hb.constants (not_le.mp fun hle => ?_))
    exact not_below h hc { hbelow with constants := hle }
  have hcallees : (to_sig ea f).callee_count = (to_sig ea' g).callee_count := by
    by_contra hne
    have hle := countSim_le_almost ha.callees hb.callees hne
    exact not_below h hcallees { hbelow with calls := callScore_mono hle (countSim_le_one _ _) }
  have hcallers : (to_sig ea f).caller_count = (to_sig ea' g).caller_count := by
    by_contra hne
    have hle := countSim_le_almost ha.callers hb.callers hne
    exact not_below h hcallers { hbelow with calls := callScore_mono (countSim_le_one _ _) hle }
  have hsize : (to_sig ea f).size = (to_sig ea' g).size := by
    by_contra hne
    exact not_below h hz { hbelow with size := size_sim_le_almost ha.size hb.size hne }
  rw [SameFingerprint, hsize, himports, hstrings, hconstants, hcallees, hcallers]

/-- The same fingerprint, not of size 0, scores 1 in all families. -/
lemma similarity_of_same (ha : Moderate a) (h : SameFingerprint a b) (hsize : a.size.val ≠ 0) :
    similarity a b = ones := by
  have hself : (similarity a b : FamilyScores F64) = similarity a a := by
    rw [← h]
    rfl
  have hcalls : (call_sim a a : F64) = 1.0 := by
    rw [call_sim, countSim_self_one ha.callees, countSim_self_one ha.callers]
    exact callScore_ones
  rw [hself, similarity, set_sim_self_one ha.imports, set_sim_self_one ha.strings,
    set_sim_self_one ha.constants, hcalls, size_sim_self_one ha.size hsize, ones]

lemma overall_ones : ones.overall = 1.0 := by decide +kernel

end

end Fingerprints

/-! ## The export as the reference -/

lemma counted_of_moderate {idx : AnalysisIndex} (h : ∀ s ∈ sigsOf idx, Moderate s) :
    (build_sig_index idx).functions.map counted = sigsOf idx := by
  rw [build_sig_index_functions]
  have hid : ∀ s ∈ sigsOf idx, counted s = id s := by
    intro s hs
    have hcallees := (h s hs).callees
    have hcallers := (h s hs).callers
    rw [counted, asU64_val (by omega), asU64_val (by omega), id]
  rw [List.map_congr_left hid, List.map_id]

lemma mem_sigsOf {idx : AnalysisIndex} {ea : U64} {f : FunctionFacts}
    (hf : idx.functions[ea]? = some f) : to_sig ea f ∈ sigsOf idx :=
  List.mem_map.mpr ⟨(ea, f), Std.ExtTreeMap.mem_toList_iff_getElem?_eq_some.mpr hf, rfl⟩

lemma candidateFor_of_same {probe g : FunctionSig} (hprobe : Moderate probe)
    (h : SameFingerprint probe g) (hsize : probe.size.val ≠ 0) :
    candidateFor .default probe g = ⟨g.ea, g.name, ones, "strict"⟩ := by
  have hstrict : isStrict .default ones = true := by decide +kernel
  rw [candidateFor, similarity_of_same hprobe h hsize, if_pos hstrict]

/-- Export and identification: the export of an index can be read back, and as the reference for a
function of the index that is not empty, it lists as its first candidate, with all scores 1 and a
strict match, the function at the lowest address that has the same fingerprint.  A function that is
not listed comes behind all that are. -/
theorem identify_own_export (idx : AnalysisIndex) (target : U64) (f : FunctionFacts) (n : ℕ)
    (hmoderate : ∀ s ∈ sigsOf idx, Moderate s) (hf : idx.functions[target]? = some f) (hstart : f.ea_start = target)
    (hsize : f.size.val ≠ 0) (hn : 0 < n) :
    ∃ (reference : SigIndex) (v : Json) (g : FunctionSig) (listed : List Candidate),
      from_value (to_value (build_sig_index idx)) = some reference ∧
      identify_function idx reference target .default n = .ok v ∧
      v.idx "candidates" = .array (listed.map Candidate.row) ∧
      listed.head? = some ⟨g.ea, g.name, ones, "strict"⟩ ∧
      (g ∈ sigsOf idx ∧ SameFingerprint (to_sig target f) g ∧
        ∀ h ∈ sigsOf idx, SameFingerprint (to_sig target f) h → g.ea ≤ h.ea) ∧
      ∀ h ∈ sigsOf idx, candidateFor .default (to_sig target f) h ∈ listed ∨
        ∀ c ∈ listed, c.Ahead (candidateFor .default (to_sig target f) h) := by
  let reference : SigIndex := { build_sig_index idx with functions := sigsOf idx }
  have hread : from_value (to_value (build_sig_index idx)) = some reference := by
    rw [from_to_value, counted_of_moderate hmoderate]
  obtain ⟨v, hv, hrows⟩ := identify_function_eq reference .default n hf
  rw [hstart] at hrows
  have hself : SameFingerprint (to_sig target f) (to_sig target f) := rfl
  have hown : to_sig target f ∈ reference.functions := mem_sigsOf hf
  obtain ⟨g, hg, rest, hranked, hfirst⟩ := exists_first .default (to_sig target f) hown
  have hscore : ∀ h, SameFingerprint (to_sig target f) h →
      (candidateFor .default (to_sig target f) h).scores.overall = 1.0 := by
    intro h hsame
    rw [candidateFor_of_same (hmoderate _ hown) hsame hsize]
    exact overall_ones
  -- the first candidate is ahead of the function itself, which has the highest score there is
  have hone : (candidateFor .default (to_sig target f) g).scores.overall = 1.0 := by
    have hle : (similarity (to_sig target f) g).overall ≤ (1.0 : F64) :=
      (similarity_below (to_sig target f) g).overall_le.trans overall_ones.le
    rcases hfirst _ hown with hlt | ⟨heq, -⟩
    · rw [hscore _ hself] at hlt
      exact absurd hlt (not_lt.mpr hle)
    · exact heq.trans (hscore _ hself)
  have hsame : SameFingerprint (to_sig target f) g := by
    have hg' := hmoderate g hg
    obtain ⟨p, -, rfl⟩ := List.mem_map.mp hg
    exact sameFingerprint_of_overall (hmoderate _ hown) hg' hone.ge
  refine ⟨_, v, g, _, hread, hv, hrows, ?_, ⟨hg, hsame, fun h hh hsame' => ?_⟩, fun h hh => ?_⟩
  · rw [hranked, List.head?_take, if_neg (by omega), List.head?_cons,
      candidateFor_of_same (hmoderate _ hown) hsame hsize]
  · rcases hfirst h hh with hlt | ⟨-, hea⟩
    · rw [hone, hscore h hsame'] at hlt
      exact absurd hlt (lt_irrefl _)
    · exact hea
  · by_cases hin : candidateFor .default (to_sig target f) h ∈
        (ranked .default (to_sig target f) reference).take n
    · exact .inl hin
    · exact .inr fun c hc => ahead_of_not_listed hc hh hin

/-- Two functions that only differ in address and name. -/
def twins : AnalysisIndex :=
  ⟨INDEX_SCHEMA_VERSION, "md5", 0,
    ((∅ : AddrMap FunctionFacts).insert 0x401000
      { ea_start := 0x401000, name := "first", size := 0x20, imports := ["send"] }).insert
      0x402000 { ea_start := 0x402000, name := "second", size := 0x20, imports := ["send"] }, []⟩

/-- The second one is taken for the first one. -/
theorem identify_own_export_twins :
    ∃ (reference : SigIndex) (v : Json) (g : FunctionSig) (listed : List Candidate),
      from_value (to_value (build_sig_index twins)) = some reference ∧
      identify_function twins reference 0x402000 .default 5 = .ok v ∧
      v.idx "candidates" = .array (listed.map Candidate.row) ∧
      listed.head? = some ⟨g.ea, g.name, ones, "strict"⟩ ∧ g.ea ≤ 0x401000 := by
  have hmoderate : ∀ s ∈ sigsOf twins, Moderate s := by
    intro s hs
    have hmem : s ∈ [to_sig 0x401000 { ea_start := 0x401000, name := "first", size := 0x20
                                       imports := ["send"] },
        to_sig 0x402000 { ea_start := 0x402000, name := "second", size := 0x20
                          imports := ["send"] }] := hs
    obtain rfl | rfl := List.mem_pair.mp hmem <;> constructor <;> decide
  obtain ⟨reference, v, g, listed, hread, hv, hrows, hfirst, ⟨-, -, hleast⟩, -⟩ :=
    identify_own_export twins 0x402000
      { ea_start := 0x402000, name := "second", size := 0x20, imports := ["send"] } 5 hmoderate
      (by decide) rfl (by decide) (by decide)
  refine ⟨reference, v, g, listed, hread, hv, hrows, hfirst, hleast
    (to_sig 0x401000
      { ea_start := 0x401000, name := "first", size := 0x20, imports := ["send"] }) ?_ rfl⟩
  exact mem_sigsOf (by decide)

end Signatures

end ReverseMcp
