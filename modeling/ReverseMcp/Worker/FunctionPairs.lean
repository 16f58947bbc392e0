import Mathlib.Data.List.Pairwise
import ReverseMcp.Rust.Collections
import ReverseMcp.Rust.Scan
import ReverseMcp.Worker.Blockdiff

/-!
# The function pairs of a binary diff

Stage one of the pairing keeps the functions of `b` in a map by name, stage two looks through what
is left of the map without taking anything out.  The pairing is followed here with the positions of
the functions, which tell equal exports apart: `functionPairs_once_iff` is the exact condition under
which no function of `b` is paired twice or lost.
-/

namespace ReverseMcp

open Rust

namespace Blockdiff

/-- An exported function with its position. -/
abbrev Placed : Type := Json × ℕ

/-- The name of an exported function. -/
def nameOf (f : Json) : Option String := (f.idx "name").asStr

/-- The similarity of two exported functions. -/
def evidenceSim (f g : Json) : F64 := fam_sim (evidence f) (evidence g)

/-! ## The pairing with positions -/

/-- The functions of `b` by name. -/
def byNameAt (fb : List Placed) : Std.ExtTreeMap String Placed :=
  fb.foldl (fun m f =>
    match nameOf f.1 with
    | some name => m.insert name f
    | none => m) ∅

/-- `namePairs`, with positions. -/
def namePairsAt : List Placed → Std.ExtTreeMap String Placed → List (Placed × Placed) →
    List Placed → List (Placed × Placed) × Std.ExtTreeMap String Placed × List Placed
  | [], by_name, pairs, left => (pairs, by_name, left)
  | f :: fs, by_name, pairs, left =>
    match nameOf f.1 with
    | none => namePairsAt fs by_name pairs (left ++ [f])
    | some name =>
      match by_name[name]? with
      | some g => namePairsAt fs (by_name.erase name) (pairs ++ [(f, g)]) left
      | none => namePairsAt fs by_name pairs (left ++ [f])

/-- Stage one. -/
def stageOne (fa fb : List Json) :
    List (Placed × Placed) × Std.ExtTreeMap String Placed × List Placed :=
  namePairsAt fa.zipIdx (byNameAt fb.zipIdx) [] []

/-- The functions of `b` that stage two looks through. -/
def candidatesAt (fa fb : List Json) : List Placed := (stageOne fa fb).2.1.toList.map Prod.snd

/-- The best candidate. -/
def bestAt (candidates : List Placed) (f : Placed) : Option Placed :=
  firstBest (fun g : Placed => evidenceSim f.1 g.1) 0.6 candidates

/-- `functionPairs`, with positions. -/
def functionPairsAt (fa fb : List Json) : List (Placed × Placed) :=
  (stageOne fa fb).1 ++ (stageOne fa fb).2.2.filterMap fun f =>
    (bestAt (candidatesAt fa fb) f).map fun g => (f, g)

section Positions

variable {κ α β : Type} [Ord κ] [Std.TransOrd κ] [Std.LawfulEqOrd κ] [DecidableEq κ]

lemma treeMap_map_insert (m : Std.ExtTreeMap κ α) (k : κ) (a : α) (f : α → β) :
    (m.insert k a).map (fun _ => f) = (m.map fun _ => f).insert k (f a) := by
  refine Std.ExtTreeMap.ext_getElem? fun x => ?_
  rw [Std.ExtTreeMap.getElem?_map, getElem?_insert_eq_ite, getElem?_insert_eq_ite,
    Std.ExtTreeMap.getElem?_map]
  split <;> rfl

omit [DecidableEq κ] in
lemma treeMap_map_erase (m : Std.ExtTreeMap κ α) (k : κ) (f : α → β) :
    (m.erase k).map (fun _ => f) = (m.map fun _ => f).erase k := by
  refine Std.ExtTreeMap.ext_getElem? fun x => ?_
  rw [Std.ExtTreeMap.getElem?_map, Std.ExtTreeMap.getElem?_erase, Std.ExtTreeMap.getElem?_erase,
    Std.ExtTreeMap.getElem?_map]
  split <;> rfl

end Positions

/-- The pairing without the positions. -/
lemma namePairsAt_map (fs : List Placed) (m : Std.ExtTreeMap String Placed)
    (pairs : List (Placed × Placed)) (left : List Placed) :
    namePairs (fs.map Prod.fst) (m.map fun _ => Prod.fst) (pairs.map (Prod.map Prod.fst Prod.fst))
        (left.map Prod.fst) =
      ((namePairsAt fs m pairs left).1.map (Prod.map Prod.fst Prod.fst),
        (namePairsAt fs m pairs left).2.1.map fun _ => Prod.fst,
        (namePairsAt fs m pairs left).2.2.map Prod.fst) := by
  induction fs generalizing m pairs left with
  | nil => rfl
  | cons f fs ih =>
    rw [List.map_cons, namePairs, namePairsAt, ← nameOf]
    cases nameOf f.1 with
    | none =>
      have hleft := ih m pairs (left ++ [f])
      rw [List.map_append] at hleft
      exact hleft
    | some name =>
      dsimp only
      rw [Std.ExtTreeMap.getElem?_map]
      cases m[name]? with
      | none =>
        have hleft := ih m pairs (left ++ [f])
        rw [List.map_append] at hleft
        exact hleft
      | some g =>
        have hpair := ih (m.erase name) (pairs ++ [(f, g)]) left
        rw [List.map_append, treeMap_map_erase] at hpair
        exact hpair

/-- The functions of `b` by name, without positions. -/
def byName (fb : List Json) : Std.ExtTreeMap String Json :=
  fb.foldl (fun m f =>
    match nameOf f with
    | some name => m.insert name f
    | none => m) ∅

lemma byNameAt_map (fb : List Placed) :
    (byNameAt fb).map (fun _ => Prod.fst) = byName (fb.map Prod.fst) := by
  rw [byNameAt, byName]
  induction fb using List.reverseRecOn with
  | nil => exact Std.ExtTreeMap.ext_getElem? fun x => by simp
  | append_singleton l f ih =>
    rw [List.map_append, List.map_singleton, List.foldl_concat, List.foldl_concat, ← ih]
    cases nameOf f.1 with
    | none => rfl
    | some name => exact treeMap_map_insert _ name f Prod.fst

/-- The best remaining function is the first of the most similar ones. -/
lemma bestEvidence_eq (remaining : List Json) (f : Json) :
    bestEvidence remaining f = firstBest (evidenceSim f) 0.6 remaining := by
  have hmap : ∀ o : Option Json, o = (o.map fun g => (g, evidenceSim f g)).map Prod.fst := by
    intro o
    rw [Option.map_map]
    exact Option.map_id'.symm
  rw [bestEvidence, hmap (firstBest _ _ _), firstBest]
  refine congrArg (Option.map Prod.fst)
    (@List.foldl_hom _ _ _ (Option.map fun g => (g, evidenceSim f g)) _ _ remaining none
      fun best g => ?_)
  rw [apply_ite (Option.map fun g => (g, evidenceSim f g))]
  cases best with
  | none => exact if_congr (by rw [Bool.and_comm]; exact Iff.rfl) rfl rfl
  | some r => exact if_congr (by rw [Bool.and_comm]; exact Iff.rfl) rfl rfl

/-- The pairs are those of `functionPairs`. -/
lemma functionPairsAt_map (fa fb : List Json) :
    (functionPairsAt fa fb).map (Prod.map Prod.fst Prod.fst) = functionPairs fa fb := by
  have hstage := namePairsAt_map fa.zipIdx (byNameAt fb.zipIdx) [] []
  rw [byNameAt_map, List.zipIdx_map_fst, List.zipIdx_map_fst, ← stageOne, List.map_nil,
    List.map_nil] at hstage
  have hremaining : ((stageOne fa fb).2.1.map fun _ => Prod.fst).toList.map Prod.snd =
      (candidatesAt fa fb).map Prod.fst := by
    rw [Std.ExtTreeMap.toList_map, List.map_map, candidatesAt, List.map_map]
    rfl
  have hpairs : functionPairs fa fb = (namePairs fa (byName fb) [] []).1 ++
      (namePairs fa (byName fb) [] []).2.2.filterMap fun f =>
        (bestEvidence ((namePairs fa (byName fb) [] []).2.1.toList.map Prod.snd) f).map
          fun g => (f, g) := rfl
  rw [hpairs, hstage]
  dsimp only
  rw [hremaining, functionPairsAt, List.map_append, List.map_filterMap, List.filterMap_map]
  refine congrArg _ (List.filterMap_congr fun f _ => ?_)
  rw [Function.comp_apply, bestEvidence_eq, firstBest_map, Option.map_map, Option.map_map]
  rfl

/-! ## Stage one -/

section StageOne

variable {fs l : List Placed} {m : Std.ExtTreeMap String Placed} {f g : Placed} {n : String}

/-- The name of a function at a position. -/
def nameAt (f : Placed) : Option String := nameOf f.1

lemma byNameAt_some (h : (byNameAt l)[n]? = some g) : g ∈ l ∧ nameAt g = some n := by
  rw [byNameAt] at h
  induction l using List.reverseRecOn with
  | nil => simp at h
  | append_singleton l f ih =>
    rw [List.foldl_concat] at h
    have hmem : g ∈ l ∧ nameAt g = some n → g ∈ l ++ [f] ∧ nameAt g = some n := fun hg =>
      ⟨List.mem_append_left _ hg.1, hg.2⟩
    cases hf : nameOf f.1 with
    | none =>
      rw [hf] at h
      exact hmem (ih h)
    | some name =>
      rw [hf] at h
      dsimp only at h
      rw [getElem?_insert_eq_ite] at h
      split at h
      · next hn =>
        obtain rfl : f = g := Option.some.inj h
        exact ⟨List.mem_append_right _ (List.mem_singleton_self _), by rw [hn]; exact hf⟩
      · exact hmem (ih h)

lemma byNameAt_none (h : (byNameAt l)[n]? = none) : ∀ g ∈ l, nameAt g ≠ some n := by
  rw [byNameAt] at h
  induction l using List.reverseRecOn with
  | nil => simp
  | append_singleton l f ih =>
    rw [List.foldl_concat] at h
    have hlast : nameAt f ≠ some n → (∀ g ∈ l, nameAt g ≠ some n) →
        ∀ g ∈ l ++ [f], nameAt g ≠ some n := by
      intro hf hl g hg
      rcases List.mem_append.mp hg with hg | hg
      · exact hl g hg
      · rwa [List.mem_singleton.mp hg]
    cases hf : nameOf f.1 with
    | none =>
      rw [hf] at h
      exact hlast (by rw [nameAt, hf]; simp) (ih h)
    | some name =>
      rw [hf] at h
      dsimp only at h
      rw [getElem?_insert_eq_ite] at h
      split at h
      · cases h
      · next hn =>
        refine hlast (fun heq => hn ?_) (ih h)
        exact (Option.some.inj (hf.symm.trans heq)).symm

/-- A function takes the one with its name: no function before it has the name. -/
def Takes (fs : List Placed) (m : Std.ExtTreeMap String Placed) (f g : Placed) : Prop :=
  ∃ front back n, fs = front ++ f :: back ∧ nameAt f = some n ∧ m[n]? = some g ∧
    ∀ e ∈ front, nameAt e ≠ some n

/-- What stage one leaves behind. -/
structure NamePaired (fs : List Placed) (m : Std.ExtTreeMap String Placed)
    (r : List (Placed × Placed) × Std.ExtTreeMap String Placed × List Placed) : Prop where
  get : ∀ n g, r.2.1[n]? = some g ↔ m[n]? = some g ∧ ∀ f ∈ fs, nameAt f ≠ some n
  parts : (r.1.map Prod.fst ++ r.2.2).Perm fs
  takes : ∀ f g, (f, g) ∈ r.1 ↔ Takes fs m f g
  once : (∀ n g, m[n]? = some g → nameAt g = some n) → (r.1.map Prod.snd).Nodup

lemma namePairsAt_acc (fs : List Placed) (m : Std.ExtTreeMap String Placed)
    (pairs : List (Placed × Placed)) (left : List Placed) :
    namePairsAt fs m pairs left = (pairs ++ (namePairsAt fs m [] []).1,
      (namePairsAt fs m [] []).2.1, left ++ (namePairsAt fs m [] []).2.2) := by
  induction fs generalizing m pairs left with
  | nil => simp [namePairsAt]
  | cons f fs ih =>
    rw [namePairsAt, namePairsAt]
    cases nameOf f.1 with
    | none =>
      dsimp only
      rw [ih, ih m [] ([] ++ [f])]
      simp
    | some name =>
      dsimp only
      cases m[name]? with
      | none =>
        dsimp only
        rw [ih, ih m [] ([] ++ [f])]
        simp
      | some g =>
        dsimp only
        rw [ih, ih _ ([] ++ [(f, g)]) []]
        simp

/-- A function without a partner is left over. -/
lemma NamePaired.leave {r : List (Placed × Placed) × Std.ExtTreeMap String Placed × List Placed}
    (h : NamePaired fs m r) (hf : ∀ n, nameAt f = some n → m[n]? = none) :
    NamePaired (f :: fs) m (r.1, r.2.1, f :: r.2.2) := by
  refine ⟨fun n g => ?_, ?_, fun f' g => ?_, h.once⟩
  · rw [h.get, List.forall_mem_cons]
    refine and_congr_right fun hg => (and_iff_right fun hn => ?_).symm
    rw [hf n hn] at hg
    cases hg
  · exact List.perm_middle.trans (h.parts.cons f)
  · rw [h.takes]
    constructor
    · rintro ⟨front, back, n, rfl, hn, hg, hfront⟩
      refine ⟨f :: front, back, n, rfl, hn, hg, List.forall_mem_cons.mpr ⟨fun hfn => ?_, hfront⟩⟩
      rw [hf n hfn] at hg
      cases hg
    · rintro ⟨front, back, n, heq, hn, hg, hfront⟩
      cases front with
      | nil =>
        obtain ⟨rfl, -⟩ := List.cons.inj heq
        rw [hf n hn] at hg
        cases hg
      | cons e front =>
        obtain ⟨-, rfl⟩ := List.cons.inj heq
        exact ⟨front, back, n, rfl, hn, hg, (List.forall_mem_cons.mp hfront).2⟩

/-- A function takes its partner out of the map. -/
lemma NamePaired.take {r : List (Placed × Placed) × Std.ExtTreeMap String Placed × List Placed}
    (h : NamePaired fs (m.erase n) r) (hf : nameAt f = some n) (hg : m[n]? = some g) :
    NamePaired (f :: fs) m ((f, g) :: r.1, r.2) := by
  have herase : ∀ k e, (m.erase n)[k]? = some e ↔ m[k]? = some e ∧ k ≠ n := by
    intro k e
    rw [Std.ExtTreeMap.getElem?_erase]
    by_cases hk : k = n
    · simp [hk]
    · have hcmp : compare n k ≠ .eq := fun heq => hk (Std.LawfulEqCmp.eq_of_compare heq).symm
      simp [hk, hcmp]
  refine ⟨fun k e => ?_, h.parts.cons f, fun f' g' => ?_, fun hnamed => ?_⟩
  · rw [h.get, herase, List.forall_mem_cons, hf, and_assoc]
    refine and_congr_right fun _ => and_congr_left fun _ => ?_
    rw [ne_comm, Ne, Ne, Option.some.injEq]
  · rw [List.mem_cons, h.takes]
    constructor
    · rintro (heq | ⟨front, back, k, rfl, hk, hg', hfront⟩)
      · obtain ⟨rfl, rfl⟩ := Prod.mk.inj heq
        exact ⟨[], fs, n, rfl, hf, hg, by simp⟩
      · obtain ⟨hg', hkn⟩ := (herase k g').mp hg'
        refine ⟨f :: front, back, k, rfl, hk, hg', List.forall_mem_cons.mpr ⟨?_, hfront⟩⟩
        rw [hf]
        exact fun heq => hkn (Option.some.inj heq).symm
    · rintro ⟨front, back, k, heq, hk, hg', hfront⟩
      cases front with
      | nil =>
        obtain ⟨rfl, -⟩ := List.cons.inj heq
        obtain rfl : n = k := Option.some.inj (hf.symm.trans hk)
        exact .inl (by rw [Option.some.inj (hg.symm.trans hg')])
      | cons e front =>
        obtain ⟨rfl, rfl⟩ := List.cons.inj heq
        obtain ⟨hfk, hfront⟩ := List.forall_mem_cons.mp hfront
        refine .inr ⟨front, back, k, rfl, hk, (herase k g').mpr ⟨hg', ?_⟩, hfront⟩
        rintro rfl
        exact hfk hf
  · refine List.nodup_cons.mpr ⟨fun hmem => ?_, h.once fun k e he =>
      hnamed k e ((herase k e).mp he).1⟩
    -- the other partners have other names
    obtain ⟨⟨f', g'⟩, hpair, rfl⟩ := List.mem_map.mp hmem
    obtain ⟨-, -, k, -, -, hk, -⟩ := (h.takes f' g').mp hpair
    obtain ⟨hk, hkn⟩ := (herase k g').mp hk
    exact hkn (Option.some.inj ((hnamed k g' hk).symm.trans (hnamed n g' hg)))

lemma namePairsAt_spec (fs : List Placed) (m : Std.ExtTreeMap String Placed) :
    NamePaired fs m (namePairsAt fs m [] []) := by
  induction fs generalizing m with
  | nil =>
    refine ⟨by simp [namePairsAt], .refl _, fun f g => ?_, fun _ => List.nodup_nil⟩
    refine iff_of_false List.not_mem_nil ?_
    rintro ⟨front, back, n, heq, -⟩
    simp at heq
  | cons f fs ih =>
    rw [namePairsAt]
    cases hf : nameOf f.1 with
    | none =>
      dsimp only
      rw [namePairsAt_acc]
      exact (ih m).leave fun n hn => by rw [nameAt, hf] at hn; cases hn
    | some name =>
      dsimp only
      cases hg : m[name]? with
      | none =>
        dsimp only
        rw [namePairsAt_acc]
        refine (ih m).leave fun n hn => ?_
        rw [nameAt, hf] at hn
        rwa [← Option.some.inj hn]
      | some g =>
        dsimp only
        rw [namePairsAt_acc]
        exact (ih (m.erase name)).take hf hg

end StageOne

/-! ## Both stages -/

section Stages

variable {fa fb : List Json} {f g : Placed}

/-- A function of `a` that is not paired by name: no function of `b` has its name, or an earlier one
of `a` has it. -/
def LeftOver (fa fb : List Json) (f : Placed) : Prop :=
  f ∈ fa.zipIdx ∧ ∀ n, nameAt f = some n → (∃ g ∈ fb.zipIdx, nameAt g = some n) →
    ∃ e ∈ fa.zipIdx, e.2 < f.2 ∧ nameAt e = some n

/-- A function of `b` that has a name which no function of `a` has. -/
def Candidate (fa fb : List Json) (g : Placed) : Prop :=
  g ∈ fb.zipIdx ∧ ∃ n, nameAt g = some n ∧ ∀ f ∈ fa.zipIdx, nameAt f ≠ some n

/-- The name of a function comes before that of another one. -/
def NamedBefore (g g' : Placed) : Prop :=
  ∃ n n', nameAt g = some n ∧ nameAt g' = some n' ∧ compare n n' = .lt

/-- A candidate is the most similar one to a function, the first by name on a tie. -/
def Prefers (fa fb : List Json) (f g : Placed) : Prop :=
  Candidate fa fb g ∧ 0.6 ≤ evidenceSim f.1 g.1 ∧
    ∀ g', Candidate fa fb g' → g' ≠ g → evidenceSim f.1 g'.1 < evidenceSim f.1 g.1 ∨
      evidenceSim f.1 g'.1 = evidenceSim f.1 g.1 ∧ NamedBefore g g'

/-- No function comes up in two pairs, and those of `b` that are not paired by name are looked at in
stage two. -/
structure PairsOnce (fa fb : List Json) : Prop where
  left : ((functionPairsAt fa fb).map Prod.fst).Nodup
  right : ((functionPairsAt fa fb).map Prod.snd).Nodup
  considered : ∀ g ∈ fb.zipIdx, g ∉ (stageOne fa fb).1.map Prod.snd → g ∈ candidatesAt fa fb

lemma stageOne_spec (fa fb : List Json) :
    NamePaired fa.zipIdx (byNameAt fb.zipIdx) (stageOne fa fb) := namePairsAt_spec _ _

lemma zipIdx_nodup (l : List Json) : l.zipIdx.Nodup := by
  refine List.Nodup.of_map Prod.snd ?_
  rw [List.zipIdx_map_snd]
  exact List.nodup_range'

/-- What stands before a function has the smaller positions. -/
lemma mem_front_iff {front back : List Placed} {e : Placed} (h : fa.zipIdx = front ++ f :: back) :
    e ∈ front ↔ e ∈ fa.zipIdx ∧ e.2 < f.2 := by
  have hsorted : fa.zipIdx.Pairwise fun e e' => e.2 < e'.2 := by
    rw [← List.pairwise_map (f := Prod.snd) (R := (· < ·)), List.zipIdx_map_snd]
    exact List.pairwise_lt_range'
  rw [h] at hsorted ⊢
  obtain ⟨-, htail, hcross⟩ := List.pairwise_append.mp hsorted
  constructor
  · exact fun he => ⟨List.mem_append_left _ he, hcross e he f List.mem_cons_self⟩
  · rintro ⟨he, hlt⟩
    refine (List.mem_append.mp he).resolve_right fun hback => ?_
    rcases List.mem_cons.mp hback with rfl | hback
    · exact absurd hlt (lt_irrefl _)
    · exact absurd hlt ((List.pairwise_cons.mp htail).1 e hback).asymm

/-- The map has a function for every name in `b`. -/
lemma exists_byNameAt {n : String} :
    (∃ g, (byNameAt fb.zipIdx)[n]? = some g) ↔ ∃ g ∈ fb.zipIdx, nameAt g = some n := by
  constructor
  · rintro ⟨g, hg⟩
    exact ⟨g, byNameAt_some hg⟩
  · rintro ⟨g, hg, hn⟩
    cases hget : (byNameAt fb.zipIdx)[n]? with
    | none => exact absurd hn (byNameAt_none hget g hg)
    | some g' => exact ⟨g', rfl⟩

/-- What is left of `a` behind stage one. -/
lemma mem_left_iff : f ∈ (stageOne fa fb).2.2 ↔ LeftOver fa fb f := by
  have hspec := stageOne_spec fa fb
  obtain ⟨-, hleft, hdisjoint⟩ := List.nodup_append.mp
    (hspec.parts.nodup_iff.mpr (zipIdx_nodup fa))
  have htakes : (∃ g, Takes fa.zipIdx (byNameAt fb.zipIdx) f g) ↔
      f ∈ fa.zipIdx ∧ ∃ n, nameAt f = some n ∧ (∃ g ∈ fb.zipIdx, nameAt g = some n) ∧
        ∀ e ∈ fa.zipIdx, e.2 < f.2 → nameAt e ≠ some n := by
    constructor
    · rintro ⟨g, front, back, n, hsplit, hn, hg, hfront⟩
      refine ⟨by rw [hsplit]; simp, n, hn, exists_byNameAt.mp ⟨g, hg⟩, fun e he hlt => ?_⟩
      exact hfront e ((mem_front_iff hsplit).mpr ⟨he, hlt⟩)
    · rintro ⟨hf, n, hn, hexists, hfirst⟩
      obtain ⟨g, hg⟩ := exists_byNameAt.mpr hexists
      obtain ⟨front, back, hsplit⟩ := List.append_of_mem hf
      refine ⟨g, front, back, n, hsplit, hn, hg, fun e he => ?_⟩
      obtain ⟨he, hlt⟩ := (mem_front_iff hsplit).mp he
      exact hfirst e he hlt
  have hpaired : f ∈ (stageOne fa fb).1.map Prod.fst ↔
      ∃ g, Takes fa.zipIdx (byNameAt fb.zipIdx) f g := by
    rw [List.mem_map]
    constructor
    · rintro ⟨p, hp, rfl⟩
      exact ⟨p.2, (hspec.takes p.1 p.2).mp hp⟩
    · rintro ⟨g, hg⟩
      exact ⟨(f, g), (hspec.takes f g).mpr hg, rfl⟩
  have hparts : f ∈ fa.zipIdx ↔ f ∈ (stageOne fa fb).1.map Prod.fst ∨ f ∈ (stageOne fa fb).2.2 := by
    rw [← hspec.parts.mem_iff, List.mem_append]
  rw [LeftOver]
  constructor
  · intro hf
    have hmem := hparts.mpr (.inr hf)
    refine ⟨hmem, fun n hn hexists => ?_⟩
    by_contra hnone
    push Not at hnone
    exact hdisjoint f (hpaired.mpr (htakes.mpr ⟨hmem, n, hn, hexists, hnone⟩)) f hf rfl
  · rintro ⟨hmem, hall⟩
    refine (hparts.mp hmem).resolve_left fun hp => ?_
    obtain ⟨-, n, hn, hexists, hfirst⟩ := htakes.mp (hpaired.mp hp)
    obtain ⟨e, he, hlt, hen⟩ := hall n hn hexists
    exact hfirst e he hlt hen

lemma mem_candidatesAt : g ∈ candidatesAt fa fb ↔
    ∃ n, (byNameAt fb.zipIdx)[n]? = some g ∧ ∀ f ∈ fa.zipIdx, nameAt f ≠ some n := by
  rw [candidatesAt, List.mem_map]
  constructor
  · rintro ⟨⟨n, g⟩, hmem, rfl⟩
    exact ⟨n, ((stageOne_spec fa fb).get n g).mp
      (Std.ExtTreeMap.mem_toList_iff_getElem?_eq_some.mp hmem)⟩
  · rintro ⟨n, hg⟩
    exact ⟨(n, g), Std.ExtTreeMap.mem_toList_iff_getElem?_eq_some.mpr
      (((stageOne_spec fa fb).get n g).mpr hg), rfl⟩

/-- A function of `b` that is paired by name. -/
lemma mem_named : g ∈ (stageOne fa fb).1.map Prod.snd ↔
    ∃ n, (byNameAt fb.zipIdx)[n]? = some g ∧ ∃ f ∈ fa.zipIdx, nameAt f = some n := by
  rw [List.mem_map]
  constructor
  · rintro ⟨p, hp, rfl⟩
    obtain ⟨front, back, n, hsplit, hn, hg, -⟩ := ((stageOne_spec fa fb).takes p.1 p.2).mp hp
    exact ⟨n, hg, p.1, by rw [hsplit]; simp, hn⟩
  · rintro ⟨n, hg, f, hf, hn⟩
    -- the first function of the name takes it
    obtain ⟨e, he⟩ : ∃ e, fa.zipIdx.find? (fun f => nameAt f = some n) = some e := by
      rw [← Option.isSome_iff_exists, List.find?_isSome]
      exact ⟨f, hf, decide_eq_true hn⟩
    obtain ⟨hen, front, back, hsplit, hfront⟩ := List.find?_eq_some_iff_append.mp he
    refine ⟨(e, g), ((stageOne_spec fa fb).takes e g).mpr
      ⟨front, back, n, hsplit, of_decide_eq_true hen, hg, fun x hx => ?_⟩, rfl⟩
    simpa using hfront x hx

/-- Every function of `b` has a name of its own. -/
def OwnNames (fb : List Json) : Prop := none ∉ fb.map nameOf ∧ (fb.map nameOf).Nodup

/-- With names of their own, the map has every function under its name. -/
lemma OwnNames.get (h : OwnNames fb) {n : String} :
    (byNameAt fb.zipIdx)[n]? = some g ↔ g ∈ fb.zipIdx ∧ nameAt g = some n := by
  refine ⟨byNameAt_some, ?_⟩
  rintro ⟨hg, hn⟩
  obtain ⟨g', hg'⟩ := exists_byNameAt.mpr ⟨g, hg, hn⟩
  obtain ⟨hmem, hn'⟩ := byNameAt_some hg'
  have hnodup : (fb.zipIdx.map nameAt).Nodup := by
    have hmap : fb.zipIdx.map nameAt = fb.map nameOf := by
      rw [← List.zipIdx_map_fst 0 fb, List.map_map, List.zipIdx_map_fst]
      rfl
    rw [hmap]
    exact h.2
  rw [hg', List.inj_on_of_nodup_map hnodup hmem hg (hn'.trans hn.symm)]

/-- Every function of `b` is paired by name or looked at iff each has a name of its own. -/
lemma considered_iff : (∀ g ∈ fb.zipIdx, g ∉ (stageOne fa fb).1.map Prod.snd →
    g ∈ candidatesAt fa fb) ↔ OwnNames fb := by
  constructor
  · intro h
    have hget : ∀ g ∈ fb.zipIdx, ∃ n : String, (byNameAt fb.zipIdx)[n]? = some g := by
      intro g hg
      by_cases hnamed : g ∈ (stageOne fa fb).1.map Prod.snd
      · obtain ⟨n, hn, -⟩ := mem_named.mp hnamed
        exact ⟨n, hn⟩
      · obtain ⟨n, hn, -⟩ := mem_candidatesAt.mp (h g hg hnamed)
        exact ⟨n, hn⟩
    constructor
    · intro hnone
      obtain ⟨f, hf, hname⟩ := List.mem_map.mp hnone
      obtain ⟨i, hi⟩ := List.mem_iff_getElem?.mp hf
      obtain ⟨n, hn⟩ := hget (f, i) (List.mem_zipIdx_iff_getElem?.mpr hi)
      have hsome : nameOf f = some n := (byNameAt_some hn).2
      rw [hname] at hsome
      cases hsome
    · have hmap : fb.zipIdx.map nameAt = fb.map nameOf := by
        rw [← List.zipIdx_map_fst 0 fb, List.map_map, List.zipIdx_map_fst]
        rfl
      rw [← hmap]
      refine (zipIdx_nodup fb).map_on fun g hg g' hg' heq => ?_
      obtain ⟨n, hn⟩ := hget g hg
      obtain ⟨n', hn'⟩ := hget g' hg'
      have hnames := (byNameAt_some hn).2.symm.trans (heq.trans (byNameAt_some hn').2)
      rw [← Option.some.inj hnames, hn] at hn'
      exact Option.some.inj hn'
  · intro h g hg hnamed
    have hne : none ∉ fb.map nameOf := h.1
    cases hn : nameAt g with
    | none =>
      refine absurd (List.mem_map.mpr ⟨g.1, ?_, hn⟩) hne
      exact List.mem_of_getElem? (List.mem_zipIdx_iff_getElem?.mp hg)
    | some n =>
      refine mem_candidatesAt.mpr ⟨n, h.get.mpr ⟨hg, hn⟩, fun f hf hfn => hnamed ?_⟩
      exact mem_named.mpr ⟨n, h.get.mpr ⟨hg, hn⟩, f, hf, hfn⟩

lemma OwnNames.mem_candidates (h : OwnNames fb) :
    g ∈ candidatesAt fa fb ↔ Candidate fa fb g := by
  have hget : ∀ n : String, (byNameAt fb.zipIdx)[n]? = some g ↔
      g ∈ fb.zipIdx ∧ nameAt g = some n :=
    fun n => h.get
  rw [mem_candidatesAt, Candidate, ← exists_and_left]
  refine exists_congr fun n => ?_
  rw [hget, and_assoc]

lemma nameAt_of_toList {m : Std.ExtTreeMap String Placed} {p : String × Placed}
    (hm : ∀ (n : String) (g : Placed), m[n]? = some g → nameAt g = some n) (hp : p ∈ m.toList) :
    nameAt p.2 = some p.1 :=
  hm p.1 p.2 (Std.ExtTreeMap.mem_toList_iff_getElem?_eq_some.mp hp)

/-- The candidates are sorted by their names. -/
lemma candidatesAt_sorted (fa fb : List Json) : (candidatesAt fa fb).Pairwise NamedBefore := by
  have hnames : ∀ (n : String) (g : Placed), (stageOne fa fb).2.1[n]? = some g →
      nameAt g = some n := fun n g hg =>
    (byNameAt_some (((stageOne_spec fa fb).get n g).mp hg).1).2
  rw [candidatesAt, List.pairwise_map]
  refine Std.ExtTreeMap.ordered_keys_toList.imp_of_mem fun {p q} hp hq hlt => ?_
  exact ⟨p.1, q.1, nameAt_of_toList hnames hp, nameAt_of_toList hnames hq, hlt⟩

lemma NamedBefore.asymm {g g' : Placed} (h : NamedBefore g g') : ¬NamedBefore g' g := by
  rintro ⟨k', k, hk', hk, hlt'⟩
  obtain ⟨n, n', hn, hn', hlt⟩ := h
  rw [← Option.some.inj (hn.symm.trans hk), ← Option.some.inj (hn'.symm.trans hk')] at hlt'
  have hswap : compare n' n = (compare n n').swap := Std.OrientedCmp.eq_swap
  rw [hswap, hlt] at hlt'
  cases hlt'

/-- What stage two pairs a function with. -/
lemma OwnNames.bestAt_eq (h : OwnNames fb) :
    bestAt (candidatesAt fa fb) f = some g ↔ Prefers fa fb f g := by
  rw [bestAt, firstBest_eq_some_iff,
    firstBest_of_sorted (fun _ _ => NamedBefore.asymm) (candidatesAt_sorted fa fb), Prefers,
    h.mem_candidates, and_assoc, and_comm (b := 0.6 ≤ evidenceSim f.1 g.1)]
  simp only [h.mem_candidates]

/-- The functions of `a` in the pairs of stage two. -/
lemma stageTwo_fst (left : List Placed) (best : Placed → Option Placed) :
    ((left.filterMap fun f => (best f).map fun g => (f, g)).map Prod.fst).Sublist left := by
  have hfilter : (left.filterMap fun f => (best f).map fun g => (f, g)).map Prod.fst =
      left.filter fun f => (best f).isSome := by
    rw [List.map_filterMap, ← List.filterMap_eq_filter]
    refine List.filterMap_congr fun f _ => ?_
    cases hbest : best f <;> simp [Option.guard, hbest]
  rw [hfilter]
  exact List.filter_sublist

lemma stageTwo_snd (left : List Placed) (best : Placed → Option Placed) :
    (left.filterMap fun f => (best f).map fun g => (f, g)).map Prod.snd = left.filterMap best := by
  rw [List.map_filterMap]
  refine List.filterMap_congr fun f _ => ?_
  cases best f <;> rfl

/-- No function of `a` comes up twice. -/
lemma left_nodup (fa fb : List Json) : ((functionPairsAt fa fb).map Prod.fst).Nodup := by
  have hparts := (stageOne_spec fa fb).parts.nodup_iff.mpr (zipIdx_nodup fa)
  rw [functionPairsAt, List.map_append]
  exact hparts.sublist ((stageTwo_fst _ _).append_left _)

/-- No function of `b` comes up twice iff no two functions that are left over prefer the same
one. -/
lemma right_nodup_iff (h : OwnNames fb) : ((functionPairsAt fa fb).map Prod.snd).Nodup ↔
    ∀ f f' g, LeftOver fa fb f → LeftOver fa fb f' → Prefers fa fb f g → Prefers fa fb f' g →
      f = f' := by
  have hspec := stageOne_spec fa fb
  have hleft := (List.nodup_append.mp (hspec.parts.nodup_iff.mpr (zipIdx_nodup fa))).2.1
  have hone : ((stageOne fa fb).1.map Prod.snd).Nodup := hspec.once fun n g hg =>
    (byNameAt_some hg).2
  have hdisjoint : ∀ g ∈ (stageOne fa fb).1.map Prod.snd,
      ∀ g' ∈ (stageOne fa fb).2.2.filterMap (bestAt (candidatesAt fa fb)), g ≠ g' := by
    rintro g hg g' hg' rfl
    obtain ⟨f, -, hbest⟩ := List.mem_filterMap.mp hg'
    obtain ⟨n, hn, f', hf', hfn⟩ := mem_named.mp hg
    obtain ⟨-, k, hk, hnone⟩ := (h.bestAt_eq.mp hbest).1
    rw [← Option.some.inj ((byNameAt_some hn).2.symm.trans hk)] at hnone
    exact hnone f' hf' hfn
  rw [functionPairsAt, List.map_append, stageTwo_snd, List.nodup_append, and_iff_right hone,
    and_iff_left hdisjoint, nodup_filterMap_iff hleft]
  simp only [mem_left_iff, h.bestAt_eq]
  exact ⟨fun hall f f' g hf hf' => hall f hf f' hf' g, fun hall f hf f' hf' g => hall f f' g hf hf'⟩

/-- The pairs of functions are those of `functionPairs`; none of the functions comes up twice, and
none of `b` is lost, iff every function of `b` has a name of its own and no two functions of `a`
that are left over prefer the same candidate. -/
theorem functionPairs_once_iff (fa fb : List Json) :
    (functionPairsAt fa fb).map (Prod.map Prod.fst Prod.fst) = functionPairs fa fb ∧
      (PairsOnce fa fb ↔ OwnNames fb ∧ ∀ f f' g, LeftOver fa fb f → LeftOver fa fb f' →
        Prefers fa fb f g → Prefers fa fb f' g → f = f') := by
  refine ⟨functionPairsAt_map fa fb, fun h => ?_, fun h => ?_⟩
  · have hnames := considered_iff.mp h.considered
    exact ⟨hnames, (right_nodup_iff hnames).mp h.right⟩
  · exact ⟨left_nodup fa fb, (right_nodup_iff h.1).mpr h.2, considered_iff.mpr h.1⟩

end Stages

/-- An exported function without blocks and evidence. -/
def bare (name : String) : Json := .object [("name", name)]

/-- Two functions whose names are not in `b` are both paired with the only function of `b`. -/
theorem functionPairs_not_once :
    functionPairs [bare "f", bare "g"] [bare "h"] = [(bare "f", bare "h"), (bare "g", bare "h")] ∧
      ¬PairsOnce [bare "f", bare "g"] [bare "h"] := by
  have htwice : (functionPairsAt [bare "f", bare "g"] [bare "h"]).map Prod.snd =
      [(bare "h", 0), (bare "h", 0)] := by decide +kernel
  refine ⟨by decide +kernel, fun h => ?_⟩
  have hnodup := h.right
  rw [htwice] at hnodup
  exact absurd hnodup (by simp)

/-- A function without a name is not looked at. -/
example : functionPairs [bare "f"] [.object []] = [] := by decide +kernel

end Blockdiff

end ReverseMcp
