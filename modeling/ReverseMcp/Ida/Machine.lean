import ReverseMcp.Rust.Run
import ReverseMcp.Ida.Mutation

/-!
# The mock backend as a transition system

Seen from outside, a backend is opened and closed, takes mutations, and has its state pushed on
and popped from the snapshot stack; nothing else changes it.  `BackendStep` is that system and
`Run BackendStep` its runs.

* `Later` relates two backends when the revision tells them apart: it did not decrease, and it
  moved if the content did.  Every step but a restore is a step to a later backend, and a
  restore is one exactly when the revision it lands on was not used in between
  (`restore_later_iff`).
* `depthAfter` counts the snapshots above a base; a run that does not reach below the base
  leaves it alone (`Run.snapshots_append`).
-/

namespace ReverseMcp

open Rust

/-- What can happen to a backend. -/
inductive BackendEvent where
  | opened (path : String)
  | closed
  | mutated (out : MutationOutcome)
  | pushed
  | popped (revision_after : U64)

/-- The events of a request with the backends they lead to. -/
abbrev BackendTrace : Type := List (BackendEvent × MockBackend)

/-- The revision that an event reports, if it moved the counter. -/
def BackendEvent.bumped : BackendEvent → Option U64
  | mutated out => some out.revision_after
  | popped revision_after => some revision_after
  | _ => none

/-- The revisions that the events of a trace report, in order. -/
def BackendTrace.bumps (tr : BackendTrace) : List U64 := tr.filterMap fun e => e.1.bumped

/-- The steps of a backend. -/
inductive BackendStep [Host] : MockBackend → BackendEvent → MockBackend → Prop
  | opened {b : MockBackend} {path : String} (h : b.open_path = none) :
      BackendStep b (.opened path) { b with open_path := some path }
  | closed {b : MockBackend} : BackendStep b .closed { b with open_path := none }
  | mutated {b b' : MockBackend} {out : MutationOutcome} (h : b.Mutates out b') :
      BackendStep b (.mutated out) b'
  | pushed {b : MockBackend} (h : b.open_path.isSome) :
      BackendStep b .pushed b.pushed
  | popped {b : MockBackend} {snap : SnapshotState} {rest : List SnapshotState} {r : U64}
      (h : b.open_path.isSome) (hs : b.snapshots = snap :: rest)
      (hr : (addU64 snap.revision 1 : Result U64) = .ok r) :
      BackendStep b (.popped r) { b.rewind snap rest with revision := r }

/-! ## Revisions -/

section Revisions

variable [Host]

omit [Host] in
/-- The revision tells `b` and `b'` apart: it did not decrease, and where the content changed
it moved. -/
structure Later (b b' : MockBackend) : Prop where
  le : b.revision ≤ b'.revision
  moved : b.content ≠ b'.content → b.revision ≠ b'.revision

instance (b b' : MockBackend) : Decidable (Later b b') :=
  decidable_of_iff (b.revision ≤ b'.revision ∧ (b.content ≠ b'.content → b.revision ≠ b'.revision))
    ⟨fun h => ⟨h.1, h.2⟩, fun h => ⟨h.le, h.moved⟩⟩

omit [Host] in
lemma Later.of_eq {b b' : MockBackend} (hr : b'.revision = b.revision)
    (hc : b'.content = b.content) : Later b b' :=
  ⟨hr ▸ le_rfl, fun h => absurd hc.symm h⟩

omit [Host] in
lemma Later.of_lt {b b' : MockBackend} (h : b.revision < b'.revision) : Later b b' :=
  ⟨h.le, fun _ => h.ne⟩

omit [Host] in
/-- Equal revisions at the ends of a chain are equal all along it, so the content is too. -/
lemma Later.trans {b c d : MockBackend} (h₁ : Later b c) (h₂ : Later c d) : Later b d := by
  refine ⟨h₁.le.trans h₂.le, fun hc hr => ?_⟩
  have hbc : b.revision = c.revision := le_antisymm h₁.le (hr ▸ h₂.le)
  have h₁' : b.content = c.content := by
    by_contra hne
    exact h₁.moved hne hbc
  exact h₂.moved (h₁' ▸ hc) (hbc ▸ hr)

instance : Std.Refl Later := ⟨fun _ => .of_eq rfl rfl⟩

/-- The counter does not wrap in the next `n` bumps: overflow is checked, or there is room. -/
def NoWrap (revision : U64) (n : ℕ) : Prop :=
  Host.overflowChecks = true ∨ revision.val + n < 2 ^ 64

omit [Host] in
instance {_ : Host} (revision : U64) (n : ℕ) : Decidable (NoWrap revision n) :=
  inferInstanceAs (Decidable (_ ∨ _))

/-- A bump that does not wrap moves the counter by one. -/
lemma NoWrap.bump {r r' : U64} (h : NoWrap r 1) (hr : (addU64 r 1 : Result U64) = .ok r') :
    r'.val = r.val + 1 := by
  have hlt : r.val + (1 : U64).val < 2 ^ 64 := by
    unfold addU64 at hr
    split at hr
    · rcases h with h | h
      · simp_all
      · exact h
    · cases hr
  rw [addU64_of_lt hlt] at hr
  cases hr
  rfl

lemma NoWrap.mono {r : U64} {m n : ℕ} (h : NoWrap r n) (hmn : m ≤ n) : NoWrap r m :=
  h.imp id (lt_of_le_of_lt (by omega))

lemma NoWrap.succ {r r' : U64} {n : ℕ} (h : NoWrap r (n + 1)) (hr : r'.val = r.val + 1) :
    NoWrap r' n :=
  h.imp id fun h => by omega

/-- The content a restore brings back. -/
def SnapshotState.content (snap : SnapshotState) : Content :=
  (snap.names, snap.comments, snap.bytes)

omit [Host] in
/-- A restore lands on the revision after the snapshot's.  It is a step to a later backend iff
that revision was not reached yet, or is the current one with the content of the snapshot. -/
def RestoreOrdered (b : MockBackend) (snap : SnapshotState) : Prop :=
  b.revision.val ≤ snap.revision.val ∨
    (b.revision.val = snap.revision.val + 1 ∧ b.content = snap.content)

instance (b : MockBackend) (snap : SnapshotState) : Decidable (RestoreOrdered b snap) :=
  inferInstanceAs (Decidable (_ ∨ _))

omit [Host] in
/-- The condition on a restore is exact. -/
lemma restore_later_iff {b : MockBackend} {snap : SnapshotState} {rest : List SnapshotState}
    {r : U64} (hr : r.val = snap.revision.val + 1) :
    Later b { b.rewind snap rest with revision := r } ↔ RestoreOrdered b snap := by
  constructor
  · intro h
    have hle : b.revision.val ≤ r.val := h.le
    by_cases hlt : b.revision.val ≤ snap.revision.val
    · exact .inl hlt
    · have heq : b.revision = r := Fin.ext (by omega)
      refine .inr ⟨by omega, ?_⟩
      by_contra hne
      exact h.moved hne heq
  · rintro (hlt | ⟨heq, hc⟩)
    · exact .of_lt (Fin.lt_def.mpr (by show b.revision.val < r.val; omega))
    · exact .of_eq (Fin.ext (by show r.val = b.revision.val; omega)) hc.symm

/-- What a step needs so that it leads to a later backend. -/
def BackendEvent.Ordered (b : MockBackend) : BackendEvent → Prop
  | mutated _ => NoWrap b.revision 1
  | popped _ => ∀ snap ∈ b.snapshots.head?, RestoreOrdered b snap ∧ NoWrap snap.revision 1
  | _ => True

/-- Every step leads to a later backend, with the exception of a restore that lands on a
revision already used. -/
lemma BackendStep.later {b b' : MockBackend} {e : BackendEvent} (h : BackendStep b e b')
    (he : e.Ordered b) : Later b b' := by
  cases h with
  | opened h => exact .of_eq rfl rfl
  | closed => exact .of_eq rfl rfl
  | mutated h =>
    have hr := NoWrap.bump he h.bump
    exact .of_lt (Fin.lt_def.mpr (by omega))
  | pushed h => exact .of_eq rfl rfl
  | popped h hs hr =>
    obtain ⟨ho, hw⟩ := he _ (by rw [hs]; rfl)
    exact (restore_later_iff (hw.bump hr)).mpr ho

/-- A run of mutations leads to a later backend. -/
lemma later_of_mutations {b : MockBackend} {tr : BackendTrace} (h : Run BackendStep b tr)
    (hm : ∀ e ∈ tr, ∃ out, e.1 = .mutated out) (hw : NoWrap b.revision tr.length) :
    Later b (lastOf b tr) := by
  induction h with
  | nil b => exact .of_eq rfl rfl
  | @cons b c e tr hs _ ih =>
    obtain ⟨out, rfl⟩ : ∃ out, e = .mutated out := hm (e, c) (by simp)
    have hw₁ : NoWrap b.revision 1 := hw.mono (by simp)
    have hbc : Later b c := hs.later hw₁
    cases hs with
    | mutated hmut =>
      have hrev := hw₁.bump hmut.bump
      refine hbc.trans (ih (fun e he => hm e (by simp [he])) ?_)
      exact NoWrap.succ (by simpa using hw) hrev

end Revisions

/-! ## The snapshot stack -/

section Stack

/-- The number of snapshots above a base after some events; nothing when these reach below the
base. -/
def depthAfter : ℕ → List BackendEvent → Option ℕ
  | n, [] => some n
  | n, .pushed :: es => depthAfter (n + 1) es
  | n + 1, .popped _ :: es => depthAfter n es
  | 0, .popped _ :: _ => none
  | n, .opened _ :: es => depthAfter n es
  | n, .closed :: es => depthAfter n es
  | n, .mutated _ :: es => depthAfter n es

variable [Host]

/-- Steps above the base leave the base. -/
lemma Run.snapshots_append {b : MockBackend} {tr : BackendTrace} (h : Run BackendStep b tr)
    {top base : List SnapshotState} {n : ℕ} (hb : b.snapshots = top ++ base)
    (hd : depthAfter top.length (tr.map Prod.fst) = some n) :
    ∃ top', (lastOf b tr).snapshots = top' ++ base ∧ top'.length = n := by
  induction h generalizing top with
  | nil b =>
    simp only [List.map_nil, depthAfter, Option.some.injEq] at hd
    exact ⟨top, hb, hd⟩
  | @cons b _ _ _ hs _ ih =>
    rw [lastOf_cons]
    simp only [List.map_cons] at hd
    cases hs with
    | opened h => exact ih hb (by simpa [depthAfter] using hd)
    | closed => exact ih hb (by simpa [depthAfter] using hd)
    | mutated h => exact ih (by rw [h.snapshots, hb]) (by simpa [depthAfter] using hd)
    | pushed h =>
      refine @ih (b.snapshot :: top) ?_ (by simpa [depthAfter] using hd)
      simp [MockBackend.pushed, hb]
    | popped h hsnap hr =>
      cases top with
      | nil => simp [depthAfter] at hd
      | cons t top =>
        have hrest := (List.cons.inj (hsnap.symm.trans hb)).2
        exact ih (by simpa [MockBackend.rewind] using hrest) (by simpa [depthAfter] using hd)

end Stack

end ReverseMcp
