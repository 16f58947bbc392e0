import ReverseMcp.Rust.Run
import Mathlib.Order.Lattice

/-!
# Version counters and guarded updates

A system whose states carry a version and a content: every step leads to a `Newer` state, so two
states of a run with one version have one content.  A client that reads the version and sends it
along with an update can have the update refused when the version has moved.

* `Run.same_content` – between a read and a later state with the version that was read, the
  content was the same all along;
* `Run.one_winner` – when updates that carry another version than the current one change nothing,
  at most one of the updates that carry a given version changes the content.
-/

namespace ReverseMcp.Rust

variable {σ ε ν κ : Type} [LinearOrder ν] {version : σ → ν} {content : σ → κ}

/-- The version did not decrease, and it moved if the content did. -/
structure Newer (version : σ → ν) (content : σ → κ) (s s' : σ) : Prop where
  le : version s ≤ version s'
  same : version s' = version s → content s' = content s

lemma Newer.trans {s t u : σ} (h₁ : Newer version content s t) (h₂ : Newer version content t u) :
    Newer version content s u := by
  refine ⟨h₁.le.trans h₂.le, fun hv => ?_⟩
  have ht : version t = version s := le_antisymm (hv ▸ h₂.le) h₁.le
  exact (h₂.same (hv.trans ht.symm)).trans (h₁.same ht)

instance : Std.Refl (Newer version content) := ⟨fun _ => ⟨le_rfl, fun _ => rfl⟩⟩

/-- The steps of a run, each with the states before and after it. -/
def transitions : σ → List (ε × σ) → List (σ × ε × σ)
  | _, [] => []
  | s, (e, s') :: tr => (s, e, s') :: transitions s' tr

/-- An update that carries the version `v` and changes the content. -/
def Wins (expected : ε → Option ν) (content : σ → κ) (v : ν) (t : σ × ε × σ) : Prop :=
  expected t.2.1 = some v ∧ content t.2.2 ≠ content t.1

instance [DecidableEq κ] (expected : ε → Option ν) (content : σ → κ) (v : ν) :
    DecidablePred (Wins expected content v : σ × ε × σ → Prop) :=
  fun _ => inferInstanceAs (Decidable (_ ∧ _))

namespace Run

variable {step : σ → ε → σ → Prop} {C : σ → ε → Prop}

/-- The last state of a run is newer than all its states, and they are newer than the first. -/
lemma newer_between {s : σ} {tr : List (ε × σ)} (h : Run step s tr) (hC : Along C s tr)
    (hN : ∀ s e s', step s e s' → C s e → Newer version content s s') :
    ∀ t ∈ statesOf s tr, Newer version content s t ∧ Newer version content t (lastOf s tr) := by
  induction h with
  | nil s =>
    intro t ht
    obtain rfl := List.mem_singleton.mp ht
    exact ⟨Std.Refl.refl t, Std.Refl.refl t⟩
  | cons hs _ ih =>
    have hstep := hN _ _ _ hs hC.1
    intro t ht
    rcases List.mem_cons.mp ht with rfl | ht
    · exact ⟨Std.Refl.refl t, hstep.trans (ih hC.2 _ (by simp [statesOf])).2⟩
    · obtain ⟨hfirst, hlast⟩ := ih hC.2 t ht
      exact ⟨hstep.trans hfirst, hlast⟩

/-- A run that ends with the version it started from had its content all along. -/
theorem same_content {s : σ} {tr : List (ε × σ)} (h : Run step s tr) (hC : Along C s tr)
    (hN : ∀ s e s', step s e s' → C s e → Newer version content s s')
    (hv : version (lastOf s tr) = version s) :
    ∀ t ∈ statesOf s tr, version t = version s ∧ content t = content s := by
  intro t ht
  obtain ⟨hfirst, hlast⟩ := h.newer_between hC hN t ht
  have hvt : version t = version s := le_antisymm (hv ▸ hlast.le) hfirst.le
  exact ⟨hvt, hfirst.same hvt⟩

variable [DecidableEq κ] {expected : ε → Option ν}

/-- Once the version has passed `v`, no update that carries `v` changes the content. -/
lemma no_winner {s : σ} {tr : List (ε × σ)} {v : ν} (h : Run step s tr) (hC : Along C s tr)
    (hN : ∀ s e s', step s e s' → C s e → Newer version content s s')
    (hG : ∀ s e s', step s e s' → C s e → expected e = some v → version s ≠ v →
      content s' = content s)
    (hv : v < version s) : (transitions s tr).filter (Wins expected content v) = [] := by
  induction h with
  | nil s => rfl
  | @cons s s' e tr hs ht ih =>
    have hno : ¬ Wins expected content v (s, e, s') := fun hw =>
      hw.2 (hG _ _ _ hs hC.1 hw.1 hv.ne')
    rw [transitions, List.filter_cons_of_neg (by simpa using hno)]
    exact ih hC.2 (hv.trans_le (hN _ _ _ hs hC.1).le)

/-- Of the updates that carry the version `v`, at most one changes the content. -/
theorem one_winner {s : σ} {tr : List (ε × σ)} {v : ν} (h : Run step s tr) (hC : Along C s tr)
    (hN : ∀ s e s', step s e s' → C s e → Newer version content s s')
    (hG : ∀ s e s', step s e s' → C s e → expected e = some v → version s ≠ v →
      content s' = content s) :
    ((transitions s tr).filter (Wins expected content v)).length ≤ 1 := by
  induction h with
  | nil s => exact Nat.zero_le 1
  | @cons s s' e tr hs ht ih =>
    rw [transitions]
    by_cases hw : Wins expected content v (s, e, s')
    · -- the version was `v` when the update won, and it has moved on since
      have hvs : version s = v := by
        by_contra hne
        exact hw.2 (hG _ _ _ hs hC.1 hw.1 hne)
      have hnew := hN _ _ _ hs hC.1
      have hlt : v < version s' :=
        hvs ▸ lt_of_le_of_ne hnew.le fun heq => hw.2 (hnew.same heq.symm)
      rw [List.filter_cons_of_pos (by simpa using hw), ht.no_winner hC.2 hN hG hlt]
      exact le_rfl
    · rw [List.filter_cons_of_neg (by simpa using hw)]
      exact ih hC.2

end Run

end ReverseMcp.Rust
