import ReverseMcp.Worker.SigMap

/-!
# Rename proposals

Every function that `map_functions` maps picks its target for itself, and the conflict flag of a
transfer looks at the name of the target only.  `map_functions_consistent_iff` is the exact
condition under which the proposals that are marked as safe do not contradict each other.
-/

namespace ReverseMcp

open Rust

namespace Signatures

/-! ## What a transfer proposes -/

/-- The target of a transfer. -/
def target (row : Json) : Json := (row.idx "to").idx "ea"

/-- The name that a transfer proposes. -/
def renameTo (row : Json) : Json := (row.idx "proposal").idx "rename_to"

/-- The transfer is marked as safe to apply. -/
def MarkedSafe (row : Json) : Prop := (row.idx "proposal").idx "conflict" = .bool false

instance : DecidablePred MarkedSafe := fun _ => inferInstanceAs (Decidable (_ = _))

/-- The transfers to a target that are marked as safe propose the same name. -/
def Consistent (out : Json) : Prop :=
  ∀ row ∈ Deep.items out "transfers", ∀ row' ∈ Deep.items out "transfers",
    target row = target row' → MarkedSafe row → MarkedSafe row' → renameTo row = renameTo row'

instance : DecidablePred Consistent := fun out =>
  inferInstanceAs (Decidable (∀ row ∈ Deep.items out "transfers",
    ∀ row' ∈ Deep.items out "transfers", target row = target row' → MarkedSafe row →
      MarkedSafe row' → renameTo row = renameTo row'))

/-- The name of a function was made by the disassembler. -/
def AutoNamed (g : FunctionSig) : Prop :=
  startsWith g.name "sub_" = true ∨ startsWith g.name "?" = false ∧ startsWith g.name "j_" = true

lemma nameConflict_eq_false {f g : FunctionSig} :
    nameConflict f g = false ↔ AutoNamed g ∨ g.name = f.name := by
  have hdef : nameConflict f g = (!(startsWith g.name "sub_" ||
    (!startsWith g.name "?" && startsWith g.name "j_")) && g.name != f.name) := rfl
  rw [hdef, AutoNamed, Bool.and_eq_false_iff, Bool.not_eq_false', Bool.or_eq_true,
    Bool.and_eq_true, Bool.not_eq_true', bne_eq_false_iff_eq]

section
variable {t : Thresholds} {candidates : List FunctionSig} {f g : FunctionSig} {m : Match} {n : ℕ}

lemma target_row (t : Thresholds) (m : Match) : target (m.row t) = .ea m.2.1.ea := rfl

lemma renameTo_row (t : Thresholds) (m : Match) : renameTo (m.row t) = .string m.1.name := rfl

lemma markedSafe_row : MarkedSafe (m.row t) ↔ AutoNamed m.2.1 ∨ m.2.1.name = m.1.name := by
  have hconflict : ((m.row t).idx "proposal").idx "conflict" = .bool (nameConflict m.1 m.2.1) := rfl
  rw [MarkedSafe, hconflict, Json.bool.injEq, nameConflict_eq_false]

/-! ## The matches that are collected -/

/-- A function is mapped to the first of the candidates with the highest score. -/
def MapsTo (t : Thresholds) (candidates : List FunctionSig) (f g : FunctionSig) : Prop :=
  ¬PassedOver f ∧ FirstBest (score f) candidates g ∧ t.relaxed ≤ score f g

lemma matchFor_eq_some : matchFor t candidates f = some m ↔
    ∃ g, MapsTo t candidates f g ∧ m = (f, g, similarity f g) := by
  rw [matchFor]
  split
  · next hpassed =>
    refine iff_of_false (by simp) ?_
    rintro ⟨g, hg, -⟩
    exact hg.1 hpassed
  · next hpassed =>
    rw [bestMatch_eq, Option.map_map, Option.map_eq_some_iff]
    refine exists_congr fun g => ?_
    rw [firstBest_eq_some_iff, MapsTo, and_iff_right hpassed, eq_comm (a := m)]
    rfl

/-- With a bound of 0 one row is collected, as with a bound of 1. -/
lemma transfersFrom_zero (t : Thresholds) (candidates fs : List FunctionSig) (r : Transfers) :
    transfersFrom t 0 candidates fs r = transfersFrom t 1 candidates fs r := by
  induction fs generalizing r with
  | nil => rfl
  | cons f fs ih =>
    rw [transfersFrom, transfersFrom]
    split
    · exact ih r
    · split
      · exact ih r
      · next g s hbest =>
        have hone : 1 ≤ (r.rows ++ [transferRow t f g s]).length := by simp
        dsimp only
        rw [if_pos (Nat.zero_le _), if_pos hone]

end

section
variable {t : Thresholds} {max_transfers : ℕ} {source goal : AnalysisIndex} {f g : FunctionSig}

lemma mem_transfers {row : Json} :
    row ∈ Deep.items (map_functions source goal t max_transfers) "transfers" ↔
      ∃ m ∈ matched t (max 1 max_transfers) (sigsOf source) (sigsOf goal), m.row t = row := by
  have hbound : transfersFrom t max_transfers (sigsOf goal) (sigsOf source) ⟨[], 0, false⟩ =
      transfersFrom t (max 1 max_transfers) (sigsOf goal) (sigsOf source) ⟨[], 0, false⟩ := by
    cases max_transfers with
    | zero => exact transfersFrom_zero _ _ _ _
    | succ n => rw [Nat.max_eq_right (Nat.succ_le_succ (Nat.zero_le n))]
  have hroom : ([] : List Json).length < max 1 max_transfers := by
    show 0 < max 1 max_transfers
    omega
  have hrows := (transfersFrom_eq t (sigsOf goal) (sigsOf source) (r := ⟨[], 0, false⟩) hroom).1
  have hitems : Deep.items (map_functions source goal t max_transfers) "transfers" =
      (transfersFrom t max_transfers (sigsOf goal) (sigsOf source)
        ⟨[], 0, false⟩).rows.insertionSort
        fun a b => ((b.idx "score").asF64).getD 0 ≤ ((a.idx "score").asF64).getD 0 := by
    simp [Deep.items, map_functions, Json.idx, Json.get, Json.asArray, sigsOf]
  rw [hitems, List.mem_insertionSort, hbound, hrows, List.nil_append, List.mem_map]
  rfl

/-- A function is mapped before the bound is reached; there is room for one even if the bound is
0. -/
def Reached (t : Thresholds) (max_transfers : ℕ) (source goal : AnalysisIndex) (f : FunctionSig) :
    Prop :=
  ∃ front back, sigsOf source = front ++ f :: back ∧
    (front.countP fun f => decide (Mapped t (sigsOf goal) f)) < max 1 max_transfers

lemma mem_matched {m : Match} :
    m ∈ matched t (max 1 max_transfers) (sigsOf source) (sigsOf goal) ↔
      ∃ f g, Reached t max_transfers source goal f ∧ MapsTo t (sigsOf goal) f g ∧
        m = (f, g, similarity f g) := by
  rw [matched, mem_take_filterMap]
  constructor
  · rintro ⟨front, f, back, hsplit, hmatch, hlt⟩
    obtain ⟨g, hg, rfl⟩ := matchFor_eq_some.mp hmatch
    rw [filterMap_matchFor_length] at hlt
    exact ⟨f, g, ⟨front, back, hsplit, hlt⟩, hg, rfl⟩
  · rintro ⟨f, g, ⟨front, back, hsplit, hlt⟩, hg, rfl⟩
    rw [← filterMap_matchFor_length] at hlt
    exact ⟨front, f, back, hsplit, matchFor_eq_some.mpr ⟨g, hg, rfl⟩, hlt⟩

lemma eq_of_ea {g g' : FunctionSig} (hg : g ∈ sigsOf goal) (hg' : g' ∈ sigsOf goal)
    (h : g.ea = g'.ea) : g = g' := by
  have hnodup : ((sigsOf goal).map FunctionSig.ea).Nodup :=
    List.pairwise_map.mpr ((sigsOf_pairwise goal).imp fun hlt => hlt.ne)
  exact List.inj_on_of_nodup_map hnodup hg hg' h

/-- The proposals that are marked as safe agree iff no two functions with different names are
mapped, before the bound is reached, to one target whose name was made by the disassembler. -/
theorem map_functions_consistent_iff (source goal : AnalysisIndex) (t : Thresholds)
    (max_transfers : ℕ) : Consistent (map_functions source goal t max_transfers) ↔
      ∀ f f' g, Reached t max_transfers source goal f → Reached t max_transfers source goal f' →
        MapsTo t (sigsOf goal) f g → MapsTo t (sigsOf goal) f' g → AutoNamed g →
          f.name = f'.name := by
  constructor
  · intro h f f' g hf hf' hg hg' hauto
    have hrow := mem_transfers.mpr ⟨_, mem_matched.mpr ⟨f, g, hf, hg, rfl⟩, rfl⟩
    have hrow' := mem_transfers.mpr ⟨_, mem_matched.mpr ⟨f', g, hf', hg', rfl⟩, rfl⟩
    have hsame := h _ hrow _ hrow' (by rw [target_row, target_row])
      (markedSafe_row.mpr (.inl hauto)) (markedSafe_row.mpr (.inl hauto))
    rw [renameTo_row, renameTo_row] at hsame
    exact Json.string.inj hsame
  · intro h row hrow row' hrow' htarget hsafe hsafe'
    obtain ⟨m, hm, rfl⟩ := mem_transfers.mp hrow
    obtain ⟨m', hm', rfl⟩ := mem_transfers.mp hrow'
    obtain ⟨f, g, hf, hg, rfl⟩ := mem_matched.mp hm
    obtain ⟨f', g', hf', hg', rfl⟩ := mem_matched.mp hm'
    rw [target_row, target_row, Json.ea, Json.ea, Json.string.injEq] at htarget
    obtain rfl : g = g' := eq_of_ea hg.2.1.mem hg'.2.1.mem (hex_inj htarget)
    rw [renameTo_row, renameTo_row]
    refine congrArg Json.string ?_
    -- a target with a name of its own is only marked as safe for that name
    rcases markedSafe_row.mp hsafe with hauto | hname
    · exact h f f' g hf hf' hg hg' hauto
    · rcases markedSafe_row.mp hsafe' with hauto | hname'
      · exact h f f' g hf hf' hg hg' hauto
      · exact hname.symm.trans hname'

end

/-- An index of functions of the same size, without any evidence. -/
def named (functions : List (U64 × String)) : AnalysisIndex :=
  ⟨1, "", 0, functions.foldl (fun m f => m.insert f.1
    { ea_start := f.1, ea_end := f.1 + 0x20, name := f.2, size := 0x20 }) ∅, []⟩

/-- Two clones with names of their own are mapped to the one function without a name, and both
transfers are marked as safe. -/
theorem map_functions_not_consistent :
    ¬Consistent (map_functions (named [(0x401000, "open"), (0x402000, "close")])
      (named [(0x501000, "sub_501000")]) .default 100) := by decide +kernel

end Signatures

end ReverseMcp
