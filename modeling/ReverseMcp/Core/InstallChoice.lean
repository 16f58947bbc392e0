import ReverseMcp.Core.Installs

/-!
# The choice of an installation

`resolve_with` takes the highest version that a verified backend can drive.  Only where the request
leaves the version open does it fall back to an installation without such a backend; every other
request then fails.
-/

namespace ReverseMcp

open Rust

/-- The requirement is met. -/
def Match (r : IdaRequirement) (i : IdaInstallation) : Prop := r.matches i.version = true

/-- The requirement is met, and a verified backend drives the installation. -/
def ReadyMatch (r : IdaRequirement) (i : IdaInstallation) : Prop :=
  Match r i ∧ i.backend_ready = true

/-- What selecting one of some installations comes to: a match, the best of the ready ones if there
is one, another one only if any version will do, and otherwise an error. -/
structure Selects (all : List IdaInstallation) (r : IdaRequirement) (x : Result IdaInstallation) :
    Prop where
  returns : x.Returns
  found : ∀ i, x = .ok i → i ∈ all ∧ Match r i
  ready : ∀ i, x = .ok i → (∃ j ∈ all, ReadyMatch r j) →
    i.backend_ready = true ∧ ∀ j ∈ all, ReadyMatch r j → j.version ≤ i.version
  unready : ∀ i, x = .ok i → i.backend_ready = false →
    r.latest = true ∧ ¬∃ j ∈ all, ReadyMatch r j
  err_iff : (∃ e, x = .err e) ↔ (¬∃ j ∈ all, Match r j) ∨
    r.latest = false ∧ (∃ j ∈ all, Match r j) ∧ ¬∃ j ∈ all, ReadyMatch r j

/-- Only a request for the latest version leaves the version open. -/
lemma IdaRequirement.latest_iff {req : String} {r : IdaRequirement}
    (h : IdaRequirement.parse req = .ok r) : r.latest = true ↔
      trim req = "" ∨ eqIgnoreAsciiCase (trim req) "latest" = true := by
  have hempty : (trimChars req.toList).isEmpty = true ↔ trim req = "" := by
    rw [List.isEmpty_iff, trim, ← String.toList_inj, String.toList_ofList]
    rfl
  rw [← hempty, ← Bool.or_eq_true, trim]
  rw [IdaRequirement.parse] at h
  split at h
  · rename_i hlatest
    cases h
    exact iff_of_true rfl hlatest
  · rename_i hlatest
    obtain ⟨constraints, -, h⟩ := Outcome.bind_eq_ok.mp h
    cases h
    exact iff_of_false Bool.false_ne_true hlatest

section
variable {os : Os} {all : List IdaInstallation} {r : IdaRequirement}

/-- What selection does, by what there is to choose from. -/
lemma resolveAmong_cases (os : Os) (all : List IdaInstallation) (r : IdaRequirement) :
    ((¬∃ j ∈ all, Match r j) ∧ ∃ e, resolveAmong os all r = .err e) ∨
    (∃ i, resolveAmong os all r = .ok i ∧
      LastBest (fun j => j.version)
        ((all.filter fun j => r.matches j.version).filter fun j => j.backend_ready) i) ∨
    ((∃ j ∈ all, Match r j) ∧ (¬∃ j ∈ all, ReadyMatch r j) ∧
      ((r.latest = false ∧ ∃ e, resolveAmong os all r = .err e) ∨
        (r.latest = true ∧ ∃ i, resolveAmong os all r = .ok i ∧
          LastBest (fun j => j.version) (all.filter fun j => r.matches j.version) i))) := by
  have hmatching : (all.filter fun j => r.matches j.version).isEmpty = true ↔
      ¬∃ j ∈ all, Match r j := by
    simp [Match]
  by_cases hnone : (all.filter fun j => r.matches j.version).isEmpty = true
  · refine .inl ⟨hmatching.mp hnone, ?_⟩
    rw [resolveAmong]
    split
    · exact ⟨_, rfl⟩
    · simp only [hnone, if_true]
      exact ⟨_, rfl⟩
  · have hall : ¬all.isEmpty = true := by
      intro hnil
      rw [List.isEmpty_iff.mp hnil] at hnone
      exact hnone rfl
    rw [resolveAmong, if_neg hall]
    simp only [if_neg hnone]
    cases hbest : maxByKey (fun j : IdaInstallation => j.version)
        ((all.filter fun j => r.matches j.version).filter fun j => j.backend_ready) with
    | some i => exact .inr (.inl ⟨i, rfl, lastBest_of_maxByKey hbest⟩)
    | none =>
      refine .inr (.inr ⟨not_not.mp (mt hmatching.mpr hnone), ?_, ?_⟩)
      · rw [maxByKey_eq_none_iff] at hbest
        rintro ⟨j, hj, hmatch, hready⟩
        have hmem : j ∈ (all.filter fun j => r.matches j.version).filter fun j => j.backend_ready :=
          List.mem_filter.mpr ⟨List.mem_filter.mpr ⟨hj, hmatch⟩, hready⟩
        rw [hbest] at hmem
        exact List.not_mem_nil hmem
      · cases hlatest : r.latest with
        | false => exact .inl ⟨rfl, _, rfl⟩
        | true =>
          -- the highest match of all
          refine .inr ⟨rfl, ?_⟩
          cases hhighest : maxByKey (fun j : IdaInstallation => j.version)
              (all.filter fun j => r.matches j.version) with
          | none =>
            rw [maxByKey_eq_none_iff] at hhighest
            exact absurd (List.isEmpty_iff.mpr hhighest) hnone
          | some i => exact ⟨i, rfl, lastBest_of_maxByKey hhighest⟩

lemma resolveAmong_selects (os : Os) (all : List IdaInstallation) (r : IdaRequirement) :
    Selects all r (resolveAmong os all r) := by
  rcases resolveAmong_cases os all r with ⟨hnone, e, he⟩ | ⟨i, hi, hbest⟩ |
    ⟨hmatch, hunready, hrest⟩
  · rw [he]
    exact ⟨trivial, nofun, nofun, nofun, iff_of_true ⟨e, rfl⟩ (.inl hnone)⟩
  · rw [hi]
    obtain ⟨hmem, hready⟩ := List.mem_filter.mp hbest.mem
    obtain ⟨hall, hmatch⟩ := List.mem_filter.mp hmem
    have hexists : ∃ j ∈ all, ReadyMatch r j := ⟨i, hall, hmatch, hready⟩
    refine ⟨trivial, ?_, ?_, ?_, iff_of_false (by simp) ?_⟩
    · rintro _ ⟨⟩
      exact ⟨hall, hmatch⟩
    · rintro _ ⟨⟩ -
      refine ⟨hready, fun j hj hj' => hbest.le ?_⟩
      exact List.mem_filter.mpr ⟨List.mem_filter.mpr ⟨hj, hj'.1⟩, hj'.2⟩
    · rintro _ ⟨⟩ hunready
      cases hready.symm.trans hunready
    · rintro (hno | ⟨-, -, hno⟩)
      · exact hno ⟨i, hall, hmatch⟩
      · exact hno hexists
  · rcases hrest with ⟨hlatest, e, he⟩ | ⟨hlatest, i, hi, hbest⟩
    · rw [he]
      exact ⟨trivial, nofun, nofun, nofun, iff_of_true ⟨e, rfl⟩ (.inr ⟨hlatest, hmatch, hunready⟩)⟩
    · rw [hi]
      obtain ⟨hall, hmatches⟩ := List.mem_filter.mp hbest.mem
      refine ⟨trivial, ?_, ?_, ?_, iff_of_false (by simp) ?_⟩
      · rintro _ ⟨⟩
        exact ⟨hall, hmatches⟩
      · rintro _ ⟨⟩ hready
        exact absurd hready hunready
      · rintro _ ⟨⟩ -
        exact ⟨hlatest, hunready⟩
      · rintro (hno | ⟨hspecific, -⟩)
        · exact hno hmatch
        · cases hlatest.symm.trans hspecific

end

/-- **Selection of an installation.**  From any list of installations, and so on any machine, the
code selects what `Selects` asks for; any version will do for `latest` and for no text at all. -/
theorem resolve_with_selects (r : IdaRequirement) :
    (∀ os all, Selects all r (resolveAmong os all r)) ∧
    (∀ [Host] (m : Machine) (explicit : Option PathBuf),
      Selects (m.discover_all explicit) r (m.resolve_with explicit r)) ∧
    ∀ req, IdaRequirement.parse req = .ok r →
      (r.latest = true ↔ trim req = "" ∨ eqIgnoreAsciiCase (trim req) "latest" = true) :=
  ⟨fun os all => resolveAmong_selects os all r,
    fun m explicit => resolveAmong_selects m.os (m.discover_all explicit) r,
    fun _ => IdaRequirement.latest_iff⟩

section

/-- An installation of some version, with the backend that the registry has for it. -/
def installed (v : Version) : IdaInstallation where
  root := ⟨"/", ["opt", v.text]⟩
  version := v
  arch := .x64
  idalib := ⟨"/", ["opt", v.text, "libidalib.so"]⟩
  ida := ⟨"/", ["opt", v.text, "libida.so"]⟩
  decompilers := []
  source := .commonPaths
  backend := backend_status v

/-- With 9.2 and 9.3 installed, `Latest` selects 9.2. -/
theorem resolve_with_selects_latest :
    (trim " Latest" = "" ∨ eqIgnoreAsciiCase (trim " Latest") "latest" = true) ∧
    resolveAmong .linux [installed ⟨9, 3, 0⟩, installed ⟨9, 2, 0⟩]
      { constraints := [], latest := true } = .ok (installed ⟨9, 2, 0⟩) ∧
    (installed ⟨9, 2, 0⟩).backend_ready = true := by
  obtain ⟨hselects, -, hlatest⟩ := resolve_with_selects { constraints := [], latest := true }
  refine ⟨(hlatest " Latest" rfl).mp rfl, rfl, ?_⟩
  have hready : ReadyMatch { constraints := [], latest := true } (installed ⟨9, 2, 0⟩) :=
    ⟨rfl, by decide⟩
  exact ((hselects .linux [installed ⟨9, 3, 0⟩, installed ⟨9, 2, 0⟩]).ready _ rfl
    ⟨installed ⟨9, 2, 0⟩, by simp, hready⟩).1

end

end ReverseMcp
