import ReverseMcp.Ida.Discipline

/-!
# Restores that fail

`snapshot_restore` of the real backend closes the database without saving, copies the backup over
the database file and opens that file again.  Before it closes anything it makes sure that there is
a snapshot and a database file; the copy and the opening come after it, and when one of them fails
the database is gone with everything that was not saved.

`restore_keeps_iff` says when a failure leaves the database as it was, and `restore_again` what is
left to do when it does not: the backup is still known, so that the restore can be tried again.
-/

namespace ReverseMcp

open Rust

variable {D : Type}

namespace IdaLibBackend

section
variable [Host] {ida : Ida D} {copying : Option String} {opening : Option D → Except String D}
  {waiting : Effect D} {s s' : IdaLibBackend D}

lemma bump_ne_err {e : Error} : (bump s : Reply Error (IdaLibBackend D) U64) ≠ .err e s' := by
  rw [bump, Action.get_bind, Action.lift_bind]
  cases h : (addU64 s.revision 1 : Result U64) with
  | ok r => exact fun herr => by cases herr
  | err e => exact absurd h (addU64_ne_err _ _)
  | panic p => exact fun herr => by cases herr

/-- The copy and the opening succeed. -/
def Restorable (copying : Option String) (opening : Option D → Except String D)
    (backup : Option D) : Prop :=
  copying = none ∧ ∃ d, opening backup = .ok d

/-- What a restore does when there is a snapshot and a path. -/
lemma snapshot_restore_some (ida : Ida D) (copying : Option String)
    (opening : Option D → Except String D) (waiting : Effect D) {backup path : String}
    (hfile : s.snapshot_file = some backup)
    (hpath : s.path = some path) :
    (Restorable copying opening (s.files backup) ∧
      ∀ e s', snapshot_restore ida copying opening waiting s ≠ .err e s') ∨
    (¬Restorable copying opening (s.files backup) ∧ ∃ e s',
      snapshot_restore ida copying opening waiting s = .err e s' ∧ s'.idb = none ∧
        s'.snapshot_file = s.snapshot_file ∧ s'.path = s.path) := by
  rw [snapshot_restore, Action.get_bind]
  simp only [hfile, saved_db_file_bind, hpath, Action.modify_bind, copy_bind]
  cases copying with
  | some e =>
    refine .inr ⟨?_, _, _, rfl, rfl, rfl, rfl⟩
    rintro ⟨h, -⟩
    cases h
  | none =>
    dsimp only
    rw [Action.get_bind, Action.lift_bind]
    simp only [Function.update_self]
    cases hopening : opening (s.files backup) with
    | error e =>
      refine .inr ⟨?_, _, _, rfl, rfl, rfl, rfl⟩
      rintro ⟨-, d, hd⟩
      cases hopening.symm.trans hd
    | ok d =>
      refine .inl ⟨⟨rfl, d, hopening⟩, fun e s' h => ?_⟩
      dsimp only at h
      rw [Action.modify_bind] at h
      rcases Action.bind_eq_err.mp h with hbump | ⟨_, _, _, h⟩
      · exact bump_ne_err hbump
      · cases h

/-- A failed restore leaves the database as it was exactly when there was nothing to restore from or
to, or nothing failed. -/
theorem restore_keeps_iff {d : D} (hopen : s.idb = some d) :
    (∀ e s', snapshot_restore ida copying opening waiting s = .err e s' → s'.idb = some d) ↔
      ∀ backup ∈ s.snapshot_file, s.path.isSome →
        Restorable copying opening (s.files backup) := by
  cases hfile : s.snapshot_file with
  | none =>
    have hok : ∀ e s', snapshot_restore ida copying opening waiting s ≠ .err e s' := by
      intro e s' h
      rw [snapshot_restore, Action.get_bind, hfile] at h
      cases h
    simp [hok]
  | some backup =>
    cases hpath : s.path with
    | none =>
      have herr : snapshot_restore ida copying opening waiting s =
          .err (.worker "no db open") s := by
        rw [snapshot_restore, Action.get_bind, hfile]
        simp only [saved_db_file_bind, hpath]
      simp [herr, hopen]
    | some path =>
      rcases snapshot_restore_some ida copying opening waiting hfile hpath with
        ⟨hrestorable, hok⟩ | ⟨hnot, e, s', herr, hidb, -⟩
      · simp [hok, hrestorable]
      · refine iff_of_false (fun h => ?_) fun h => hnot (h backup rfl rfl)
        have hkept := h e s' herr
        rw [hidb] at hkept
        cases hkept

/-- A restore that closed the database and failed can be tried again: it succeeds as soon as the
copy and the opening do. -/
theorem restore_again {backup path : String} (hfile : s.snapshot_file = some backup)
    (hpath : s.path = some path) {e : Error}
    (hfailed : snapshot_restore ida copying opening waiting s = .err e s')
    {copying' : Option String} {opening' : Option D → Except String D}
    (hagain : Restorable copying' opening' (s'.files backup)) (e' : Error)
    (t : IdaLibBackend D) : snapshot_restore ida copying' opening' waiting s' ≠ .err e' t := by
  rcases snapshot_restore_some ida copying opening waiting hfile hpath with
    ⟨-, hok⟩ | ⟨-, e₁, s₁, herr, -, hfile', hpath'⟩
  · exact absurd hfailed (hok e s')
  · obtain ⟨rfl, rfl⟩ := Reply.err.inj (hfailed.symm.trans herr)
    rcases snapshot_restore_some ida copying' opening' waiting (hfile'.trans hfile)
      (hpath'.trans hpath) with ⟨-, hok⟩ | ⟨hnot, -⟩
    · exact hok e' t
    · exact absurd hagain hnot

end

/-- An open database with a snapshot that was taken before its last change. -/
def changed : IdaLibBackend ℕ :=
  ⟨some 2, some "t.i64", 2, some "t.i64.rmbak-1", 1,
    Function.update (fun _ => none) "t.i64.rmbak-1" (some 1)⟩

/-- What opening a file makes of it. -/
def openFile (file : Option ℕ) : Except String ℕ := file.elim (.error "no such file") .ok

/-- A restore whose copy and whose opening succeed. -/
theorem restore_keeps_iff_restorable :
    letI : Host := Host.ascii false
    changed.idb = some 2 ∧
      ∀ e s', snapshot_restore Ida.counting none openFile .keep changed = .err e s' →
        s'.idb = some 2 := by
  let _ : Host := Host.ascii false
  refine ⟨rfl, (restore_keeps_iff (s := changed) rfl).mpr ?_⟩
  rintro backup ⟨⟩ -
  exact ⟨rfl, 1, rfl⟩

/-- When the copy fails, the database is closed and its last change is lost. -/
theorem restore_not_keeps :
    letI : Host := Host.ascii false
    ¬∀ (copying : Option String) (opening : Option ℕ → Except String ℕ) (waiting : Effect ℕ)
        (s : IdaLibBackend ℕ) (d : ℕ), s.idb = some d →
      ∀ e s', snapshot_restore Ida.counting copying opening waiting s = .err e s' →
        s'.idb = some d := by
  let _ : Host := Host.ascii false
  intro h
  have hkept := h (some "disk full") openFile .keep changed 2 rfl _ _ rfl
  cases hkept

end IdaLibBackend

end ReverseMcp
