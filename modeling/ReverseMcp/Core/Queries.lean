import ReverseMcp.Core.AnalysisIndex
import ReverseMcp.Graph.Layers
import ReverseMcp.Rust.Collections

/-!
# Evidence queries

What the predicates of `rmcp_core::analysis_index` mean (`Predicate.Holds`), that `matches` computes
it, and what `AnalysisIndex::query` returns.  The query collects the first `limit` qualifying
functions in address order and sorts them afterwards, so its hits are the best ones only when no
later function scores more (`best_hits_iff`).
-/

namespace ReverseMcp

open Rust ReverseMcp.Graph

/-! ## The call graph of an index -/

/-- The call edges of an index: an address that it does not have calls nothing. -/
def AnalysisIndex.callees (idx : AnalysisIndex) (ea : U64) : List U64 :=
  match idx.functions[ea]? with
  | some f => f.callees
  | none => []

section Reachability

variable {idx : AnalysisIndex} {target : U64}

/-- The inner loop of `reachable` adds what has not been seen. -/
lemma foldl_unseen (cs : List U64) : ∀ next seen : List U64,
    cs.foldl (fun (acc : List U64 × List U64) c =>
      if c ∈ acc.2 then acc else (acc.1 ++ [c], c :: acc.2)) (next, seen) =
    (next ++ fresh seen cs, (fresh seen cs).reverse ++ seen) := by
  induction cs with
  | nil =>
    intro next seen
    simp [fresh]
  | cons c cs ih =>
    intro next seen
    rw [List.foldl_cons, fresh]
    by_cases hc : c ∈ seen
    · rw [if_pos hc, if_pos hc, ih]
    · rw [if_neg hc, if_neg hc, ih]
      simp

/-- A frontier of `reachable`: the target is a callee of one of its functions, or the new callees
are the next frontier. -/
lemma reachableLevel_eq (frontier : List U64) : ∀ next seen : List U64,
    reachableLevel idx target frontier next seen =
      if ∃ u ∈ frontier, target ∈ idx.callees u then none
      else some (next ++ fresh seen (frontier.flatMap idx.callees),
        (fresh seen (frontier.flatMap idx.callees)).reverse ++ seen) := by
  induction frontier with
  | nil =>
    intro next seen
    simp [reachableLevel, fresh]
  | cons u frontier ih =>
    intro next seen
    have hunfold : reachableLevel idx target (u :: frontier) next seen =
        if target ∈ idx.callees u then none
        else reachableLevel idx target frontier
          ((idx.callees u).foldl (fun (acc : List U64 × List U64) c =>
            if c ∈ acc.2 then acc else (acc.1 ++ [c], c :: acc.2)) (next, seen)).1
          ((idx.callees u).foldl (fun (acc : List U64 × List U64) c =>
            if c ∈ acc.2 then acc else (acc.1 ++ [c], c :: acc.2)) (next, seen)).2 := rfl
    rw [hunfold]
    by_cases hu : target ∈ idx.callees u
    · rw [if_pos hu, if_pos ⟨u, by simp, hu⟩]
    · rw [if_neg hu, foldl_unseen, ih, List.flatMap_cons, fresh_append]
      simp [hu]

/-- The level loop of `reachable` finds the target when it is a callee of some layer. -/
lemma reachableLoop_iff {root : U64} (n : ℕ) : ∀ {m : ℕ} {frontier seen : List U64},
    Layer idx.callees [root] m (· ∈ seen) frontier →
    (reachableLoop idx target n frontier seen = true ↔
      ∃ k, m ≤ k ∧ k < m + n ∧ ∃ u, AtDistance idx.callees [root] k u ∧
      target ∈ idx.callees u) := by
  induction n with
  | zero =>
    intro m frontier seen _
    simp only [reachableLoop, Bool.false_eq_true, false_iff]
    rintro ⟨k, hk, hlt, -⟩
    omega
  | succ n ih =>
    intro m frontier seen h
    rw [reachableLoop, reachableLevel_eq]
    by_cases hfound : ∃ u ∈ frontier, target ∈ idx.callees u
    · rw [if_pos hfound]
      simp only [true_iff]
      obtain ⟨u, hu, htarget⟩ := hfound
      exact ⟨m, le_rfl, by omega, u, (h.mem_frontier_iff u).mp hu, htarget⟩
    · rw [if_neg hfound]
      have hnext : Layer idx.callees [root] (m + 1)
          (· ∈ (fresh seen (frontier.flatMap idx.callees)).reverse ++ seen)
          ([] ++ fresh seen (frontier.flatMap idx.callees)) := by
        refine h.fresh.congr ?_
        intro v
        simp
      dsimp only
      rw [ih hnext]
      constructor
      · rintro ⟨k, hk, hlt, hat⟩
        exact ⟨k, by omega, by omega, hat⟩
      · rintro ⟨k, hk, hlt, u, hu, htarget⟩
        refine ⟨k, ?_, by omega, u, hu, htarget⟩
        -- the layer of this level has no caller of the target
        by_contra hlt'
        obtain rfl : k = m := by omega
        exact hfound ⟨u, (h.mem_frontier_iff u).mpr hu, htarget⟩

/-- `reachable` answers whether a call walk of at most `levels` edges ends at the target. -/
lemma reachable_iff {root : U64} {levels : U32} :
    reachable idx root levels target = true ↔
      ∃ k, 1 ≤ k ∧ k ≤ levels.val ∧ Steps idx.callees root k target := by
  rw [reachable, reachableLoop_iff levels.val .start, exists_steps_iff]
  constructor
  · rintro ⟨k, -, hlt, hat⟩
    exact ⟨k, by omega, hat⟩
  · rintro ⟨k, hlt, hat⟩
    exact ⟨k, by omega, by omega, hat⟩

end Reachability

/-! ## The meaning of the predicates -/

namespace Predicate

variable [Host]

mutual

/-- A function satisfies a predicate. -/
def Holds (idx : AnalysisIndex) : Predicate → FunctionFacts → Prop
  | nameContains needle, f =>
    Rust.contains (Host.toLowercase f.name) (Host.toLowercase needle) ∨
      Rust.contains (Host.toLowercase f.demangled) (Host.toLowercase needle)
  | importNamed name, f => ∃ i ∈ f.imports, eqIgnoreAsciiCase i name
  | stringContains needle, f =>
    ∃ s ∈ f.strings, Rust.contains (Host.toLowercase s) (Host.toLowercase needle)
  | hasIndirectCalls min, f => min ≤ f.indirect_calls
  | constant v, f => v ∈ f.constants
  | calleeMatches inner, f =>
    ∃ ea ∈ f.callees, ∃ callee, idx.functions[ea]? = some callee ∧ inner.Holds idx callee
  | callerMatches inner, f =>
    ∃ ea ∈ f.callers, ∃ caller, idx.functions[ea]? = some caller ∧ inner.Holds idx caller
  | all inner, f => HoldsAll idx inner f
  | any inner, f => HoldsAny idx inner f
  | not inner, f => ¬ inner.Holds idx f
  | reachableFrom root levels, f =>
    ∃ k, 1 ≤ k ∧ k ≤ levels.val ∧ Steps idx.callees root k f.ea_start

/-- A function satisfies every predicate of a list. -/
def HoldsAll (idx : AnalysisIndex) : List Predicate → FunctionFacts → Prop
  | [], _ => True
  | p :: ps, f => p.Holds idx f ∧ HoldsAll idx ps f

/-- A function satisfies some predicate of a list. -/
def HoldsAny (idx : AnalysisIndex) : List Predicate → FunctionFacts → Prop
  | [], _ => False
  | p :: ps, f => p.Holds idx f ∨ HoldsAny idx ps f

end

variable {idx : AnalysisIndex}

lemma holdsAll_iff {ps : List Predicate} {f : FunctionFacts} :
    HoldsAll idx ps f ↔ ∀ p ∈ ps, p.Holds idx f := by
  induction ps with
  | nil => simp [HoldsAll]
  | cons p ps ih => simp [HoldsAll, ih]

mutual

/-- `matches` gives evidence exactly for the functions that satisfy the predicate. -/
lemma isSome_matchOn : ∀ (p : Predicate) (f : FunctionFacts),
    (p.matchOn idx f).isSome ↔ p.Holds idx f
  | nameContains needle, f => by
    simp [matchOn, Holds]
  | importNamed name, f => by
    simp [matchOn, Holds]
  | stringContains needle, f => by
    simp [matchOn, Holds]
  | hasIndirectCalls min, f => by
    simp [matchOn, Holds]
  | constant v, f => by
    simp [matchOn, Holds]
  | calleeMatches inner, f => by
    rw [matchOn, Holds, List.findSome?_isSome_iff]
    refine exists_congr fun ea => and_congr_right fun _ => ?_
    cases idx.functions[ea]? with
    | none => simp
    | some callee => simp [isSome_matchOn inner callee]
  | callerMatches inner, f => by
    rw [matchOn, Holds, List.findSome?_isSome_iff]
    refine exists_congr fun ea => and_congr_right fun _ => ?_
    cases idx.functions[ea]? with
    | none => simp
    | some caller => simp [isSome_matchOn inner caller]
  | all inner, f => by
    rw [matchOn, Holds]
    exact isSome_matchesAll inner f
  | any inner, f => by
    rw [matchOn, Holds]
    exact isSome_matchesAny inner f
  | not inner, f => by
    rw [matchOn, Holds, ← isSome_matchOn inner f]
    cases inner.matchOn idx f with
    | none => simp
    | some ev => simp
  | reachableFrom root levels, f => by
    rw [matchOn, Holds, ← reachable_iff]
    cases reachable idx root levels f.ea_start with
    | false => simp
    | true => simp

lemma isSome_matchesAll : ∀ (ps : List Predicate) (f : FunctionFacts),
    (matchesAll idx ps f).isSome ↔ HoldsAll idx ps f
  | [], f => by simp [matchesAll, HoldsAll]
  | p :: ps, f => by
    rw [matchesAll, HoldsAll, ← isSome_matchOn p f, ← isSome_matchesAll ps f]
    cases p.matchOn idx f with
    | none => simp
    | some ev => simp

lemma isSome_matchesAny : ∀ (ps : List Predicate) (f : FunctionFacts),
    (matchesAny idx ps f).isSome ↔ HoldsAny idx ps f
  | [], f => by simp [matchesAny, HoldsAny]
  | p :: ps, f => by
    rw [matchesAny, HoldsAny, ← isSome_matchOn p f, ← isSome_matchesAny ps f]
    cases p.matchOn idx f with
    | none => simp
    | some ev => simp

end

end Predicate

/-! ## The hits of a query -/

/-- The predicates of a query. -/
def EvidenceQuery.predicates (q : EvidenceQuery) : List Predicate := q.all.getD []

/-- The result bound of a query. -/
def EvidenceQuery.bound (q : EvidenceQuery) : ℕ := clamp q.limit.val 1 1000

lemma EvidenceQuery.bound_pos (q : EvidenceQuery) : 0 < q.bound := by
  rw [bound, clamp]
  omega

namespace AnalysisIndex

variable [Host] {idx : AnalysisIndex}

/-- The evidence that a function satisfies every predicate. -/
def evidence (idx : AnalysisIndex) (ps : List Predicate) (f : FunctionFacts) : List String :=
  (Predicate.matchesAll idx ps f).getD []

/-- The hit of a function. -/
def hit (idx : AnalysisIndex) (ps : List Predicate) (f : FunctionFacts) : EvidenceHit :=
  ⟨f.name, f.ea_start, f.ea_end, (idx.evidence ps f).length, idx.evidence ps f⟩

/-- The functions that satisfy every predicate with some evidence, in address order. -/
def qualifying (idx : AnalysisIndex) (ps : List Predicate) : List FunctionFacts :=
  idx.values.filter fun f => idx.evidence ps f ≠ []

lemma mem_qualifying {ps : List Predicate} {f : FunctionFacts} : f ∈ idx.qualifying ps ↔
    f ∈ idx.values ∧ (∀ p ∈ ps, p.Holds idx f) ∧ idx.evidence ps f ≠ [] := by
  rw [qualifying, List.mem_filter, decide_eq_true_eq, ← Predicate.holdsAll_iff,
    ← Predicate.isSome_matchesAll, evidence]
  cases Predicate.matchesAll idx ps f with
  | none => simp
  | some matched => simp

/-- The scan collects the hits of the qualifying functions until there are `limit` of them. -/
lemma queryScan_eq {ps : List Predicate} {limit : ℕ} (fs : List FunctionFacts) :
    ∀ hits : List EvidenceHit, hits.length < limit →
      idx.queryScan ps limit hits fs = hits ++
        ((fs.filter fun f => idx.evidence ps f ≠ []).map (idx.hit ps)).take
          (limit - hits.length) := by
  induction fs with
  | nil =>
    intro hits _
    simp [queryScan]
  | cons f fs ih =>
    intro hits hlimit
    have hunfold : idx.queryScan ps limit hits (f :: fs) =
        if idx.evidence ps f = [] then idx.queryScan ps limit hits fs
        else if limit ≤ hits.length + 1 then hits ++ [idx.hit ps f]
        else idx.queryScan ps limit (hits ++ [idx.hit ps f]) fs := by
      rw [queryScan, hit, evidence]
      cases Predicate.matchesAll idx ps f with
      | none => simp [hlimit]
      | some matched =>
        cases matched with
        | nil => simp [hlimit]
        | cons e es => simp
    rw [hunfold]
    by_cases hev : idx.evidence ps f = []
    · rw [if_pos hev, ih hits hlimit, List.filter_cons_of_neg (by simpa using hev)]
    · rw [if_neg hev, List.filter_cons_of_pos (by simpa using hev), List.map_cons]
      obtain ⟨room, hroom⟩ : ∃ room, limit - hits.length = room + 1 :=
        ⟨limit - hits.length - 1, by omega⟩
      rw [hroom, List.take_succ_cons]
      split
      · obtain rfl : room = 0 := by omega
        simp
      · rw [ih _ (by simp; omega), List.append_assoc, List.singleton_append]
        congr 3
        simp
        omega

/-- A query sorts the hits of the first qualifying functions. -/
lemma query_eq (q : EvidenceQuery) : idx.query q =
    (((idx.qualifying q.predicates).take q.bound).map (idx.hit q.predicates)).insertionSort
      fun a b => b.score ≤ a.score := by
  have hscan : idx.queryScan q.predicates q.bound [] idx.values =
      ((idx.qualifying q.predicates).take q.bound).map (idx.hit q.predicates) := by
    rw [queryScan_eq idx.values [] q.bound_pos, List.map_take]
    simp [qualifying]
  rw [← hscan]
  rfl

lemma query_perm (q : EvidenceQuery) : (idx.query q).Perm
    (((idx.qualifying q.predicates).take q.bound).map (idx.hit q.predicates)) := by
  rw [query_eq]
  exact List.perm_insertionSort _ _

lemma query_sorted (q : EvidenceQuery) :
    (idx.query q).Pairwise fun a b => b.score ≤ a.score := by
  have htotal : Std.Total fun a b : EvidenceHit => b.score ≤ a.score :=
    ⟨fun a b => Nat.le_total b.score a.score⟩
  have htrans : IsTrans EvidenceHit fun a b => b.score ≤ a.score :=
    ⟨fun a b c hab hbc => Nat.le_trans hbc hab⟩
  rw [query_eq]
  exact List.pairwise_insertionSort _ _

/-- `matches` computes the meaning of every predicate.  A query whose qualifying functions fit into
its bound returns the hit of each of them once, higher scores first. -/
theorem query_spec (idx : AnalysisIndex) :
    (∀ (p : Predicate) (f : FunctionFacts), (p.matchOn idx f).isSome ↔ p.Holds idx f) ∧
    ∀ q : EvidenceQuery,
      (∀ f, f ∈ idx.qualifying q.predicates ↔ f ∈ idx.values ∧
        (∀ p ∈ q.predicates, p.Holds idx f) ∧ idx.evidence q.predicates f ≠ []) ∧
      ((idx.qualifying q.predicates).length ≤ q.bound →
        (idx.query q).Perm ((idx.qualifying q.predicates).map (idx.hit q.predicates))) ∧
      (idx.query q).Pairwise fun a b => b.score ≤ a.score := by
  refine ⟨Predicate.isSome_matchOn, ?_⟩
  intro q
  refine ⟨fun f => mem_qualifying, ?_, query_sorted q⟩
  intro hfit
  have hperm := idx.query_perm q
  rwa [List.take_of_length_le hfit] at hperm

/-- Two functions that import `send`, the second one under two spellings. -/
def twoSenders : AnalysisIndex :=
  ⟨INDEX_SCHEMA_VERSION, "md5", 0,
    ((∅ : AddrMap FunctionFacts).insert 0x401000
      { ea_start := 0x401000, name := "f", imports := ["send"], callees := [0x402000] }).insert
      0x402000 { ea_start := 0x402000, name := "g", imports := ["send", "SEND"] }, []⟩

/-- The query for the importers of `send`. -/
def sendQuery (limit : U64) : EvidenceQuery := ⟨some [.importNamed "send"], limit⟩

omit [Host] in
/-- A query with room for both functions returns both, the second one first. -/
theorem query_spec_senders :
    letI : Host := Host.ascii true
    (twoSenders.query (sendQuery 20)).Perm ((twoSenders.qualifying
      (sendQuery 20).predicates).map (twoSenders.hit (sendQuery 20).predicates)) ∧
    (twoSenders.query (sendQuery 20)).map (·.ea_start) = [0x402000, 0x401000] := by
  let : Host := Host.ascii true
  exact ⟨((query_spec twoSenders).2 (sendQuery 20)).2.1 (by decide), by decide⟩

/-- No function that satisfies the predicates and is not among the hits scores more than a hit. -/
def BestHits (idx : AnalysisIndex) (q : EvidenceQuery) : Prop :=
  ∀ f ∈ idx.values, (∀ p ∈ q.predicates, p.Holds idx f) →
    idx.hit q.predicates f ∉ idx.query q →
    ∀ h ∈ idx.query q, (idx.hit q.predicates f).score ≤ h.score

/-- The hits are the best ones exactly when every qualifying function behind the first `limit` ones
scores no more than each of these, or has a hit that is among theirs. -/
theorem best_hits_iff (idx : AnalysisIndex) (q : EvidenceQuery) : idx.BestHits q ↔
    ∀ f ∈ (idx.qualifying q.predicates).drop q.bound,
      idx.hit q.predicates f ∉ ((idx.qualifying q.predicates).take q.bound).map
        (idx.hit q.predicates) →
      ∀ g ∈ (idx.qualifying q.predicates).take q.bound,
        (idx.evidence q.predicates f).length ≤ (idx.evidence q.predicates g).length := by
  constructor
  · intro hbest f hf hnot g hg
    obtain ⟨hmem, hholds, -⟩ := mem_qualifying.mp (List.mem_of_mem_drop hf)
    refine hbest f hmem hholds ?_ (idx.hit q.predicates g) ?_
    · intro hf
      exact hnot ((query_perm q).mem_iff.mp hf)
    · exact (query_perm q).mem_iff.mpr (List.mem_map_of_mem hg)
  · intro hcond f hmem hholds hnot h hh
    obtain ⟨g, hg, rfl⟩ := List.mem_map.mp ((query_perm q).mem_iff.mp hh)
    have hnot' : idx.hit q.predicates f ∉ ((idx.qualifying q.predicates).take q.bound).map
        (idx.hit q.predicates) := by
      intro hf
      exact hnot ((query_perm q).mem_iff.mpr hf)
    by_cases hev : idx.evidence q.predicates f = []
    · simp [hit, hev]
    · -- the function qualifies, and it is not among the first ones
      have hq : f ∈ idx.qualifying q.predicates := mem_qualifying.mpr ⟨hmem, hholds, hev⟩
      rw [← List.take_append_drop q.bound (idx.qualifying q.predicates)] at hq
      rcases List.mem_append.mp hq with hfront | hback
      · exact absurd (List.mem_map_of_mem hfront) hnot'
      · exact hcond f hback hnot' g hg

omit [Host] in
/-- With room for one hit the query returns the first function, and the second one scores more. -/
theorem best_hits_not :
    letI : Host := Host.ascii true
    ¬ twoSenders.BestHits (sendQuery 1) := by
  let : Host := Host.ascii true
  intro hbest
  let g : FunctionFacts := { ea_start := 0x402000, name := "g", imports := ["send", "SEND"] }
  have hholds : ∀ p ∈ (sendQuery 1).predicates, p.Holds twoSenders g := by
    intro p hp
    obtain rfl := List.mem_singleton.mp hp
    rw [Predicate.Holds]
    decide
  have hstarts : (twoSenders.query (sendQuery 1)).map (·.ea_start) = [0x401000] := by decide
  have hnot : twoSenders.hit (sendQuery 1).predicates g ∉ twoSenders.query (sendQuery 1) := by
    intro hg
    have hstart := List.mem_map_of_mem (f := (·.ea_start)) hg
    rw [hstarts] at hstart
    exact absurd hstart (by decide)
  obtain ⟨h, hh⟩ : ∃ h, h ∈ twoSenders.query (sendQuery 1) ∧ h.score = 1 := by
    have hscores : (twoSenders.query (sendQuery 1)).map (·.score) = [1] := by decide
    have hmem : 1 ∈ (twoSenders.query (sendQuery 1)).map (·.score) := by simp [hscores]
    obtain ⟨h, hh, hone⟩ := List.mem_map.mp hmem
    exact ⟨h, hh, hone⟩
  have hscore := hbest g (by decide) hholds hnot h hh.1
  rw [hh.2] at hscore
  exact absurd hscore (by decide)

end AnalysisIndex

end ReverseMcp
