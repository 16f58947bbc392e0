import ReverseMcp.Ida.Discipline
import ReverseMcp.Worker.Validation

/-!
# Snapshots of the two backends

The mock backend keeps its snapshots on a stack that a restore pops; the real one keeps a copy of
the database file, the one made last, and a restore leaves it there.  Here the two take the same
mutations, snapshots and restores side by side (`TwinStep`), where every call into IDA and every
file operation succeeds.

`Books` are kept of such a sequence: the mutations that the database has, the snapshots that no
restore has popped yet, and the newest of all.  While a restore finds the newest of both the same,
the mock backend (`MockTracks`) and the real one (`IdaTracks`) are where the ledger says; the first
restore for which they differ tells the two backends apart (`snapshots_agree_iff`).
-/

namespace ReverseMcp

open Rust

variable {D : Type}

/-! ## One operation on both backends -/

/-- What a session does to a backend, with the call into IDA that a mutation makes. -/
inductive SnapshotOp (D : Type) where
  | mutate (op : PlannedOp) (changing : Effect D)
  | create
  | restore

/-- `plan::exec` on the real backend. -/
def Plan.execIda [Host] (ida : Ida D) (op : PlannedOp) (changing : Effect D) :
    IdaLibBackend.Method D MutationOutcome :=
  match op.kind with
  | .rename new_name => IdaLibBackend.rename op.ea new_name changing
  | .comment _ _ => IdaLibBackend.set_comment op.ea changing
  | .patchBytes bytes_hex => IdaLibBackend.patch_bytes ida op.ea bytes_hex changing
  | .funcCreate stop => IdaLibBackend.func_create op.ea stop changing
  | .funcDelete => IdaLibBackend.func_delete op.ea changing
  | .setType _ => IdaLibBackend.set_type

/-- Opening a database file succeeds when there is one. -/
def reopen : Option D → Except String D
  | some d => .ok d
  | none => .error "no such file"

/-- The report of a restore. -/
def restored (v : Json) : Bool := v.idx "restored" = true

/-- An operation with what the two backends report: that they restored something. -/
abbrev TwinEvent (D : Type) : Type := SnapshotOp D × Bool × Bool

/-- A step of the two backends, on each of which the operation returns `Ok`. -/
def TwinStep [Host] (ida : Ida D) (s : MockBackend × IdaLibBackend D) (e : TwinEvent D)
    (s' : MockBackend × IdaLibBackend D) : Prop :=
  match e.1 with
  | .mutate op changing =>
    (∃ out, Plan.exec op s.1 = .ok (out, s'.1)) ∧
      (∃ out, Plan.execIda ida op changing s.2 = .ok out s'.2) ∧ e.2 = (false, false)
  | .create =>
    (∃ v, s.1.snapshot_create = .ok (v, s'.1)) ∧
      (∃ v, IdaLibBackend.snapshot_create ida .keep none s.2 = .ok v s'.2) ∧ e.2 = (false, false)
  | .restore =>
    (∃ v, s.1.snapshot_restore = .ok (v, s'.1) ∧ e.2.1 = restored v) ∧
      (∃ v, IdaLibBackend.snapshot_restore ida none reopen .keep s.2 = .ok v s'.2 ∧
        e.2.2 = restored v)

/-- After the step the backends have reported the same and hold the same content. -/
def Together (Same : Content → D → Prop) (_ : MockBackend × IdaLibBackend D) (e : TwinEvent D)
    (s' : MockBackend × IdaLibBackend D) : Prop :=
  e.2.1 = e.2.2 ∧ ∃ d ∈ s'.2.idb, Same s'.1.content d

/-! ## The books -/

/-- A mutation, as it is for each of the backends. -/
abbrev TwinMutation (D : Type) : Type := PlannedOp × Effect D

/-- The mutations that the database has, the newest first; for every snapshot not restored yet,
those that it had then; and those of the newest snapshot. -/
structure Books (D : Type) where
  now : List (TwinMutation D)
  kept : List (List (TwinMutation D))
  last : Option (List (TwinMutation D))

/-- The ledger of a session that begins. -/
def Books.start : Books D := ⟨[], [], none⟩

/-- The ledger after an operation; a restore brings back the newest snapshot that is kept. -/
def Books.after (l : Books D) : SnapshotOp D → Books D
  | .mutate op changing => { l with now := (op, changing) :: l.now }
  | .create => { l with kept := l.now :: l.kept, last := some l.now }
  | .restore => { l with now := l.kept.head?.getD l.now, kept := l.kept.tail }

/-- Every restore finds that the newest snapshot not restored yet, if any, has the mutations of the
newest snapshot of all, if any. -/
def Books.Fits : Books D → List (SnapshotOp D) → Prop
  | _, [] => True
  | l, e :: es => (e = .restore → l.kept.head? = l.last) ∧ (l.after e).Fits es

/-- The content that mutations lead to. -/
def contentAfter (c : Content) : List (TwinMutation D) → Content
  | [] => c
  | m :: ms => (m.1.effect (contentAfter c ms)).getD (contentAfter c ms)

/-- The database that mutations lead to. -/
def dbAfter (d : D) : List (TwinMutation D) → D
  | [] => d
  | m :: ms => m.2.next (dbAfter d ms)

/-- A mutation means the same for both backends. -/
def Faithful (Same : Content → D → Prop) (es : List (SnapshotOp D)) : Prop :=
  ∀ op changing, .mutate op changing ∈ es → ∀ c d c', Same c d → op.effect c = some c' →
    Same c' (changing.next d)

/-- The mutations can be told apart: where a restore would bring back two snapshots, these are the
same content only if they have the same mutations. -/
def Distinguishable (Same : Content → D → Prop) (c : Content) (d : D) (l : Books D)
    (es : List (SnapshotOp D)) : Prop :=
  ∀ es', es' ++ [.restore] <+: es → ∀ h ∈ (es'.foldl Books.after l).kept.head?,
    ∀ h' ∈ (es'.foldl Books.after l).last, Same (contentAfter c h) (dbAfter d h') → h = h'

/-! ## The mock backend -/

/-- The mock backend has the content that the books say, and its stack. -/
structure MockTracks (c : Content) (now : List (TwinMutation D))
    (kept : List (List (TwinMutation D))) (b : MockBackend) : Prop where
  opened : b.open_path.isSome
  content : b.content = contentAfter c now
  snapshots : b.snapshots.map SnapshotState.content = kept.map (contentAfter c)

namespace MockTracks

variable [Host] {c : Content} {now : List (TwinMutation D)} {kept : List (List (TwinMutation D))}
  {b b' : MockBackend} {v : Json}

lemma mutate (h : MockTracks c now kept b) {op : PlannedOp} (changing : Effect D)
    {out : MutationOutcome} (hx : Plan.exec op b = .ok (out, b')) :
    op.effect b.content = some b'.content ∧ MockTracks c ((op, changing) :: now) kept b' := by
  have heffect : op.effect b.content = some b'.content := by
    have hagrees := exec_agrees op h.opened
    rwa [hx] at hagrees
  have hmut := Plan.exec_mutates hx
  refine ⟨heffect, hmut.open_path ▸ h.opened, ?_, hmut.snapshots ▸ h.snapshots⟩
  rw [h.content] at heffect
  simp [contentAfter, heffect]

omit [Host] in
lemma create (h : MockTracks c now kept b) (hx : b.snapshot_create = .ok (v, b')) :
    MockTracks c now (now :: kept) b' := by
  obtain ⟨_, rfl, _⟩ := MockBackend.snapshot_create_eq_ok.mp hx
  refine ⟨h.opened, h.content, ?_⟩
  rw [MockBackend.pushed, List.map_cons, List.map_cons, h.snapshots, ← h.content]
  rfl

/-- A restore pops the newest snapshot. -/
lemma restore_cons {newest : List (TwinMutation D)} {rest : List (List (TwinMutation D))}
    (h : MockTracks c now (newest :: rest) b) (hx : b.snapshot_restore = .ok (v, b')) :
    MockTracks c newest rest b' ∧ restored v = true := by
  cases hs : b.snapshots with
  | nil => simpa [hs] using h.snapshots
  | cons snap older =>
    obtain ⟨hsnap, holder⟩ := List.cons.inj (hs ▸ h.snapshots)
    simp only [MockBackend.snapshot_restore, MockBackend.require_open_of_isSome h.opened,
      Outcome.ok_bind, hs, Outcome.bind_eq_ok, Prod.exists, MockBackend.bump_eq_ok, Outcome.pure_eq,
      Outcome.ok.injEq, Prod.mk.injEq] at hx
    obtain ⟨r, b₁, ⟨-, rfl⟩, rfl, rfl⟩ := hx
    exact ⟨⟨h.opened, hsnap, holder⟩, rfl⟩

/-- Without a snapshot a restore reports so. -/
lemma restore_nil (h : MockTracks c now [] b) (hx : b.snapshot_restore = .ok (v, b')) :
    b' = b ∧ restored v = false := by
  have hs : b.snapshots = [] := by simpa using h.snapshots
  simp only [MockBackend.snapshot_restore, MockBackend.require_open_of_isSome h.opened,
    Outcome.ok_bind, hs, Outcome.pure_eq, Outcome.ok.injEq, Prod.mk.injEq] at hx
  obtain ⟨rfl, rfl⟩ := hx
  exact ⟨rfl, rfl⟩

end MockTracks

/-! ## The real backend -/

/-- The real backend has the database that the books say, and the file of the newest snapshot. -/
structure IdaTracks (ida : Ida D) (d : D) (now : List (TwinMutation D))
    (last : Option (List (TwinMutation D))) (s : IdaLibBackend D) : Prop where
  idb : s.idb = some (dbAfter d now)
  path : s.path.isSome
  file : match last with
    | none => s.snapshot_file = none
    | some newest => ∃ backup, s.snapshot_file = some backup ∧
      s.files backup = some (dbAfter d newest) ∧
        ∀ path ∈ s.path, backup ≠ IdaLibBackend.dbFile ida path

namespace IdaTracks

open IdaLibBackend

variable [Host] {ida : Ida D} {d : D} {now : List (TwinMutation D)}
  {last : Option (List (TwinMutation D))} {s s' : IdaLibBackend D} {v : Json}

/-- A bump touches nothing else. -/
lemma bump_eq_ok {s s' : IdaLibBackend D} {r : U64} (h : bump s = .ok r s') :
    s' = { s with revision := r } := by
  simp only [bump, Action.bind_eq_ok, Action.get_apply, Action.lift_eq_ok,
    Action.modify_apply, Action.pure_apply, Reply.ok.injEq] at h
  obtain ⟨_, _, ⟨rfl, rfl⟩, r', _, ⟨_, rfl⟩, _, _, ⟨_, rfl⟩, rfl, rfl⟩ := h
  rfl

omit [Host] in
/-- What needs an open database goes on with it. -/
lemma opened_eq_ok {α : Type} {f : D → IdaLibBackend.Method D α} {a : α} {d : D}
    (hd : s.idb = some d) (h : (IdaLibBackend.opened >>= f) s = .ok a s') : f d s = .ok a s' := by
  rw [IdaLibBackend.opened] at h
  rwa [Action.bind_apply, Action.get_bind, hd] at h

/-- A mutation that returns has changed the database by its last call. -/
lemma call_eq_ok {e : Effect D} {error : Error} {f : U64 → MutationOutcome} {out : MutationOutcome}
    {d : D} (h : (do
      let ok ← call e d
      Action.lift (Outcome.errIf (ok = false) error)
      let r ← bump
      return f r : IdaLibBackend.Method D MutationOutcome) s = .ok out s') :
    ∃ r, s' = { s with idb := some (e.next d), revision := r } := by
  obtain ⟨ok, t, hcall, h⟩ := Action.bind_eq_ok.mp h
  obtain ⟨_, _, h⟩ := Action.lift_bind_eq_ok.mp h
  obtain ⟨r, t', hbump, h⟩ := Action.bind_eq_ok.mp h
  have ht : t = { s with idb := some (e.next d) } := (Reply.ok.inj hcall).2.symm
  have ht' : t' = s' := by
    rw [Action.pure_apply] at h
    exact (Reply.ok.inj h).2
  exact ⟨r, by rw [← ht', bump_eq_ok hbump, ht]⟩

/-- A mutation changes the database by its call. -/
lemma execIda_eq_ok {op : PlannedOp} {changing : Effect D} {out : MutationOutcome} {d : D}
    (hd : s.idb = some d) (h : Plan.execIda ida op changing s = .ok out s') :
    ∃ r, s' = { s with idb := some (changing.next d), revision := r } := by
  obtain ⟨kind, ea⟩ := op
  cases kind with
  | rename new_name =>
    obtain ⟨_, _, h⟩ := Action.lift_bind_eq_ok.mp (opened_eq_ok hd h)
    exact call_eq_ok h
  | comment comment repeatable => exact call_eq_ok (opened_eq_ok hd h)
  | patchBytes bytes_hex =>
    obtain ⟨bytes, _, h⟩ := Action.lift_bind_eq_ok.mp (opened_eq_ok hd h)
    obtain ⟨_, _, h⟩ := Action.lift_bind_eq_ok.mp h
    obtain ⟨addresses, _, h⟩ := Action.lift_bind_eq_ok.mp h
    exact call_eq_ok h
  | funcCreate stop => exact call_eq_ok (opened_eq_ok hd h)
  | funcDelete => exact call_eq_ok (opened_eq_ok hd h)
  | setType decl => cases opened_eq_ok hd h

lemma mutate (h : IdaTracks ida d now last s) {op : PlannedOp} {changing : Effect D}
    {out : MutationOutcome} (hx : Plan.execIda ida op changing s = .ok out s') :
    IdaTracks ida d ((op, changing) :: now) last s' := by
  obtain ⟨r, rfl⟩ := execIda_eq_ok h.idb hx
  exact ⟨rfl, h.path, h.file⟩

omit [Host] in
/-- The file of a snapshot is not the database file. -/
lemma snapshot_path_ne (file : String) (seq : U64) : snapshot_path file seq ≠ file := by
  intro h
  have hlength := congrArg String.length h
  have hsuffix : (toString ".rmbak-").length = 7 := rfl
  have hfile : (toString file).length = file.length := rfl
  simp only [snapshot_path, String.length_append] at hlength
  omega

lemma create (h : IdaTracks ida d now last s)
    (hx : IdaLibBackend.snapshot_create ida .keep none s = .ok v s') :
    IdaTracks ida d now (some now) s' := by
  obtain ⟨path, hpath⟩ := Option.isSome_iff_exists.mp h.path
  unfold IdaLibBackend.snapshot_create save at hx
  rw [Action.bind_assoc] at hx
  have hx := opened_eq_ok h.idb hx
  rw [Action.bind_assoc, call_bind, Action.bind_assoc] at hx
  obtain ⟨_, _, hx⟩ := Action.lift_bind_eq_ok.mp hx
  rw [Action.modify_bind, saved_db_file_bind] at hx
  -- saved: the copy is taken of what is open
  simp only [hpath] at hx
  rw [Action.get_bind] at hx
  obtain ⟨seq, _, hx⟩ := Action.lift_bind_eq_ok.mp hx
  simp only [copy_bind, Action.modify_bind] at hx
  obtain ⟨r, t, hbump, hx⟩ := Action.bind_eq_ok.mp hx
  have ht : t = s' := (Reply.ok.inj hx).2
  rw [← ht, bump_eq_ok hbump]
  refine ⟨rfl, rfl, snapshot_path (dbFile ida path) seq, rfl, ?_, fun path' hpath' => ?_⟩
  · simp [Effect.keep]
  · rw [← Option.some.inj hpath']
    exact snapshot_path_ne _ _

/-- Without a snapshot a restore reports so. -/
lemma restore_none (h : IdaTracks ida d now none s)
    (hx : IdaLibBackend.snapshot_restore ida none reopen .keep s = .ok v s') :
    s' = s ∧ restored v = false := by
  rw [IdaLibBackend.snapshot_restore] at hx
  rw [Action.get_bind, h.file] at hx
  obtain ⟨rfl, rfl⟩ := Reply.ok.inj hx
  exact ⟨rfl, rfl⟩

/-- A restore goes back to the newest snapshot and keeps it. -/
lemma restore_some {newest : List (TwinMutation D)} (h : IdaTracks ida d now (some newest) s)
    (hx : IdaLibBackend.snapshot_restore ida none reopen .keep s = .ok v s') :
    IdaTracks ida d newest (some newest) s' ∧ restored v = true := by
  obtain ⟨path, hpath⟩ := Option.isSome_iff_exists.mp h.path
  obtain ⟨backup, hbackup, hfile, hne⟩ := h.file
  rw [IdaLibBackend.snapshot_restore] at hx
  rw [Action.get_bind, hbackup] at hx
  dsimp only at hx
  rw [saved_db_file_bind, hpath] at hx
  dsimp only at hx
  rw [Action.modify_bind, copy_bind] at hx
  dsimp only at hx
  rw [Action.get_bind] at hx
  simp only [Function.update_self, hfile, reopen] at hx
  obtain ⟨_, hd, hx⟩ := Action.lift_bind_eq_ok.mp hx
  rw [← Outcome.ok.inj hd, Action.modify_bind] at hx
  obtain ⟨r, t, hbump, hx⟩ := Action.bind_eq_ok.mp hx
  obtain ⟨rfl, ht⟩ := Reply.ok.inj hx
  rw [← ht, bump_eq_ok hbump]
  -- the copy went to the database file, so the backup is still there
  have hkept :=
    (Function.update_of_ne (hne path hpath) (some (dbAfter d newest)) s.files).trans hfile
  exact ⟨⟨rfl, h.path, backup, hbackup, hkept, hne⟩, rfl⟩

end IdaTracks

/-! ## Side by side -/

/-- Both backends are where the books say, and the books hold only what is the same for both. -/
structure Tracks (ida : Ida D) (Same : Content → D → Prop) (c : Content) (d : D) (l : Books D)
    (s : MockBackend × IdaLibBackend D) : Prop where
  mock : MockTracks c l.now l.kept s.1
  real : IdaTracks ida d l.now l.last s.2
  now : Same (contentAfter c l.now) (dbAfter d l.now)
  kept : ∀ h ∈ l.kept, Same (contentAfter c h) (dbAfter d h)
  empty : l.last = none → l.kept = []

section
variable [Host] {ida : Ida D} {Same : Content → D → Prop} {c : Content} {d : D} {l : Books D}
  {s s' : MockBackend × IdaLibBackend D} {e : TwinEvent D}

omit [Host] in
/-- Where the books say so the backends hold the same content. -/
lemma Tracks.same (h : Tracks ida Same c d l s) : ∃ db ∈ s.2.idb, Same s.1.content db :=
  ⟨_, h.real.idb, h.mock.content ▸ h.now⟩

/-- A step that fits leaves the backends where the books say. -/
lemma Tracks.step (h : Tracks ida Same c d l s) (hs : TwinStep ida s e s')
    (hfaithful : Faithful Same [e.1]) (hfits : e.1 = .restore → l.kept.head? = l.last) :
    Tracks ida Same c d (l.after e.1) s' ∧ e.2.1 = e.2.2 := by
  obtain ⟨op, rm, rr⟩ := e
  cases op with
  | mutate op changing =>
    obtain ⟨⟨out, hmock⟩, ⟨out', hreal⟩, hflags⟩ := hs
    obtain ⟨heffect, hmock'⟩ := h.mock.mutate changing hmock
    have hnow := hfaithful op changing (by simp) _ _ _ h.now (h.mock.content ▸ heffect)
    rw [hmock'.content] at hnow
    refine ⟨⟨hmock', h.real.mutate hreal, hnow, h.kept, h.empty⟩, ?_⟩
    rw [Prod.mk.injEq] at hflags
    exact hflags.1.trans hflags.2.symm
  | create =>
    obtain ⟨⟨v, hmock⟩, ⟨v', hreal⟩, hflags⟩ := hs
    refine ⟨⟨h.mock.create hmock, h.real.create hreal, h.now, ?_, nofun⟩, ?_⟩
    · exact List.forall_mem_cons.mpr ⟨h.now, h.kept⟩
    · rw [Prod.mk.injEq] at hflags
      exact hflags.1.trans hflags.2.symm
  | restore =>
    obtain ⟨⟨v, hmock, hrm⟩, v', hreal, hrr⟩ := hs
    obtain ⟨now, kept, last⟩ := l
    have hfits : kept.head? = last := hfits rfl
    cases kept with
    | nil =>
      -- no snapshot on either side: both report so and stay as they are
      obtain rfl : last = none := hfits.symm
      obtain ⟨hmock', hvm⟩ := h.mock.restore_nil hmock
      obtain ⟨hreal', hvr⟩ := h.real.restore_none hreal
      have hs : s' = s := Prod.ext hmock' hreal'
      exact ⟨hs ▸ h, by rw [hrm, hrr, hvm, hvr]⟩
    | cons newest rest =>
      -- the snapshot that the mock pops is the one that the real backend keeps
      obtain rfl : last = some newest := hfits.symm
      obtain ⟨hmock', hvm⟩ := h.mock.restore_cons hmock
      obtain ⟨hreal', hvr⟩ := h.real.restore_some hreal
      obtain ⟨hnewest, hrest⟩ := List.forall_mem_cons.mp h.kept
      exact ⟨⟨hmock', hreal', hnewest, hrest, nofun⟩, by rw [hrm, hrr, hvm, hvr]⟩

/-- A restore that does not fit tells the backends apart. -/
lemma Tracks.parts (h : Tracks ida Same c d l s) (hs : TwinStep ida s e s')
    (hrestore : e.1 = .restore)
    (hdist : ∀ m ∈ l.kept.head?, ∀ m' ∈ l.last, Same (contentAfter c m) (dbAfter d m') → m = m')
    (hfits : l.kept.head? ≠ l.last) : ¬Together Same s e s' := by
  obtain ⟨op, rm, rr⟩ := e
  obtain rfl : op = .restore := hrestore
  obtain ⟨⟨v, hmock, hrm⟩, v', hreal, hrr⟩ := hs
  obtain ⟨now, kept, last⟩ := l
  rintro ⟨hreports, db, hdb, hsame⟩
  cases last with
  | none =>
    obtain rfl : kept = [] := h.empty rfl
    exact hfits rfl
  | some newest =>
    obtain ⟨hreal', hvr⟩ := h.real.restore_some hreal
    cases kept with
    | nil =>
      -- the real backend restores, and the mock one has nothing left
      obtain ⟨_, hvm⟩ := h.mock.restore_nil hmock
      have hflags : restored v = restored v' := hrm.symm.trans (hreports.trans hrr)
      rw [hvm, hvr] at hflags
      cases hflags
    | cons kept rest =>
      -- both restore, the mock one an older snapshot
      obtain ⟨hmock', _⟩ := h.mock.restore_cons hmock
      rw [hmock'.content, Option.some.inj (hdb.symm.trans hreal'.idb)] at hsame
      exact hfits (congrArg some (hdist kept rfl newest rfl hsame))

/-- The operations of a run. -/
def opsOf (tr : List (TwinEvent D × (MockBackend × IdaLibBackend D))) : List (SnapshotOp D) :=
  tr.map fun p => p.1.1

lemma Tracks.throughout_iff {tr : List (TwinEvent D × (MockBackend × IdaLibBackend D))}
    (hrun : Run (TwinStep ida) s tr) (h : Tracks ida Same c d l s)
    (hfaithful : Faithful Same (opsOf tr)) (hdist : Distinguishable Same c d l (opsOf tr)) :
    Throughout (Together Same) s tr ↔ l.Fits (opsOf tr) := by
  induction hrun generalizing l with
  | nil s => exact ⟨fun _ => trivial, fun _ => trivial⟩
  | @cons s s' e tr hs _ ih =>
    have hhead : Faithful Same [e.1] := fun op changing hmem =>
      hfaithful op changing (by rw [List.mem_singleton.mp hmem]; exact List.mem_cons_self)
    have htail : Faithful Same (opsOf tr) := fun op changing hmem =>
      hfaithful op changing (List.mem_cons_of_mem _ hmem)
    have hdist' : Distinguishable Same c d (l.after e.1) (opsOf tr) := fun es hes =>
      hdist (e.1 :: es) (List.cons_prefix_cons.mpr ⟨rfl, hes⟩)
    -- a first step that fits keeps the books; one that does not tells the backends apart at once
    by_cases hfits : e.1 = .restore → l.kept.head? = l.last
    · obtain ⟨h', hflags⟩ := h.step hs hhead hfits
      have hrest := ih h' htail hdist'
      exact ⟨fun ht => ⟨hfits, hrest.mp ht.2⟩, fun hf => ⟨⟨hflags, h'.same⟩, hrest.mpr hf.2⟩⟩
    · obtain ⟨hrestore, hne⟩ := Classical.not_imp.mp hfits
      have hfirst : [] ++ [.restore] <+: opsOf ((e, s') :: tr) :=
        List.cons_prefix_cons.mpr ⟨hrestore.symm, List.nil_prefix⟩
      have hparts := h.parts hs hrestore (hdist [] hfirst) hne
      exact ⟨fun ht => absurd ht.1 hparts, fun hf => absurd hf.1 hfits⟩

end

/-- The backends are open on the same content and have taken no snapshot. -/
structure Fresh (Same : Content → D → Prop) (d : D) (s : MockBackend × IdaLibBackend D) : Prop where
  opened : s.1.open_path.isSome
  snapshots : s.1.snapshots = []
  idb : s.2.idb = some d
  path : s.2.path.isSome
  file : s.2.snapshot_file = none
  same : Same s.1.content d

/-- Over any sequence of mutations, snapshots and restores that return on both backends, with
mutations that mean the same for both and can be told apart: the backends report the same and hold
the same content after every step exactly when the sequence fits. -/
theorem snapshots_agree_iff [Host] {ida : Ida D} {Same : Content → D → Prop} {d : D}
    {s : MockBackend × IdaLibBackend D}
    {tr : List (TwinEvent D × (MockBackend × IdaLibBackend D))} (hrun : Run (TwinStep ida) s tr)
    (hfresh : Fresh Same d s) (hfaithful : Faithful Same (opsOf tr))
    (hdist : Distinguishable Same s.1.content d .start (opsOf tr)) :
    Throughout (Together Same) s tr ↔ Books.start.Fits (opsOf tr) := by
  refine Tracks.throughout_iff hrun ⟨⟨hfresh.opened, rfl, ?_⟩, ?_, hfresh.same, ?_, fun _ => rfl⟩
    hfaithful hdist
  · rw [hfresh.snapshots]
    rfl
  · exact ⟨hfresh.idb, hfresh.path, hfresh.file⟩
  · exact fun _ h => absurd h List.not_mem_nil

/-- Where every restore fits there is nothing to tell apart. -/
lemma Distinguishable.of_fits {Same : Content → D → Prop} {c : Content} {d : D} {l : Books D}
    {es : List (SnapshotOp D)} (h : l.Fits es) : Distinguishable Same c d l es := by
  intro es' hes m hm m' hm' _
  induction es' generalizing l es with
  | nil =>
    cases es with
    | nil => simp at hes
    | cons e es =>
      obtain ⟨he, -⟩ := List.cons_prefix_cons.mp hes
      have hfits := h.1 he.symm
      exact Option.some.inj (hm.symm.trans (hfits.trans hm'))
  | cons e' es' ih =>
    cases es with
    | nil => simp at hes
    | cons e es =>
      rw [List.cons_append] at hes
      obtain ⟨rfl, hes'⟩ := List.cons_prefix_cons.mp hes
      exact ih h.2 hes' hm hm'

/-! ## A session -/

/-- IDA on a database that is a content. -/
def Ida.plain : Ida Content where
  function_count c := c.1.size
  entries _ := []
  function_at _ _ := none
  executable _ := []
  original_byte _ _ := 0
  decompiler_available _ := false
  isDatabase _ := true

/-- The call into IDA that does what the operation does to a content. -/
def PlannedOp.calling (op : PlannedOp) : Effect Content where
  code _ := 0
  ok c := (op.effect c).isSome
  text _ := "refused"
  next c := (op.effect c).getD c
  fails c h := by
    rw [Option.isSome_eq_false_iff, Option.isNone_iff_eq_none] at h
    rw [h]
    rfl

/-- What a session begins with. -/
def sessionContent : Content := MockBackend.new.content

/-- The comment of the session. -/
def entryComment : PlannedOp := ⟨.comment "entry" false, 0x401000⟩

/-- What the session has with its comment. -/
def commentedContent : Content :=
  (sessionContent.1, sessionContent.2.1.insert (0x401000, false) "entry", sessionContent.2.2)

/-- The mock backend in the session. -/
def MockBackend.session (c : Content) (revision : U64) (snapshots : List SnapshotState) :
    MockBackend :=
  ⟨some "t.i64", revision, c.1, c.2.1, c.2.2, false, [], snapshots⟩

/-- The snapshot of the session at its beginning. -/
def sessionSnapshot : SnapshotState := ⟨0, sessionContent.1, sessionContent.2.1, sessionContent.2.2⟩

/-- The files of the session after its snapshot and some restores. -/
def sessionFiles : ℕ → String → Option Content
  | 0 => Function.update (Function.update (fun _ => none) "t.i64" (some sessionContent))
    "t.i64.rmbak-1" (some sessionContent)
  | n + 1 => Function.update (sessionFiles n) "t.i64" (some sessionContent)

/-- The real backend at the beginning of the session. -/
def IdaLibBackend.session : IdaLibBackend Content :=
  ⟨some sessionContent, some "t.i64", 0, none, 0, fun _ => none⟩

/-- The real backend after the snapshot of the session and some restores. -/
def IdaLibBackend.kept (c : Content) (revision : U64) (restores : ℕ) : IdaLibBackend Content :=
  ⟨some c, some "t.i64", revision, some "t.i64.rmbak-1", 1, sessionFiles restores⟩

lemma session_fresh :
    Fresh Eq sessionContent (MockBackend.session sessionContent 0 [], IdaLibBackend.session) :=
  ⟨rfl, rfl, rfl, rfl, rfl, rfl⟩

/-- A call that does what the operation does means the same for both. -/
lemma PlannedOp.calling_next {op : PlannedOp} {c d c' : Content} (hcd : c = d)
    (h : op.effect c = some c') : c' = op.calling.next d := by
  subst hcd
  simp [calling, h]

/-- A snapshot is taken and restored, after a comment. -/
theorem snapshots_agree_iff_restored :
    letI : Host := Host.ascii false
    Throughout (Together Eq)
      (MockBackend.session sessionContent 0 [], IdaLibBackend.session)
      [((.create, false, false),
          (.session sessionContent 0 [sessionSnapshot], .kept sessionContent 1 0)),
        ((.mutate entryComment entryComment.calling, false, false),
          (.session commentedContent 1 [sessionSnapshot], .kept commentedContent 2 0)),
        ((.restore, true, true), (.session sessionContent 1 [], .kept sessionContent 3 1))] := by
  let _ : Host := Host.ascii false
  have hcreate : TwinStep Ida.plain (.session sessionContent 0 [], .session)
      (.create, false, false)
      (.session sessionContent 0 [sessionSnapshot], .kept sessionContent 1 0) :=
    ⟨⟨_, rfl⟩, ⟨_, rfl⟩, rfl⟩
  have hmutate : TwinStep Ida.plain
      (.session sessionContent 0 [sessionSnapshot], .kept sessionContent 1 0)
      (.mutate entryComment entryComment.calling, false, false)
      (.session commentedContent 1 [sessionSnapshot], .kept commentedContent 2 0) :=
    ⟨⟨_, rfl⟩, ⟨_, rfl⟩, rfl⟩
  have hrestore : TwinStep Ida.plain
      (.session commentedContent 1 [sessionSnapshot], .kept commentedContent 2 0)
      (.restore, true, true) (.session sessionContent 1 [], .kept sessionContent 3 1) :=
    ⟨⟨_, rfl, rfl⟩, ⟨_, rfl, rfl⟩⟩
  have hfits : Books.start.Fits
      [.create, .mutate entryComment entryComment.calling, .restore] :=
    ⟨nofun, nofun, fun _ => rfl, trivial⟩
  refine (snapshots_agree_iff (.cons hcreate (.cons hmutate (.cons hrestore (.nil _))))
    session_fresh ?_ (.of_fits hfits)).mpr hfits
  intro op changing hmem c d c' hcd heffect
  obtain ⟨rfl, rfl⟩ : op = entryComment ∧ changing = entryComment.calling := by
    simpa [opsOf] using hmem
  exact PlannedOp.calling_next hcd heffect

/-- One snapshot is restored twice: the mock backend has none left, the real one has. -/
theorem snapshots_not_agree :
    letI : Host := Host.ascii false
    let s := (MockBackend.session sessionContent 0 [], IdaLibBackend.session)
    let tr := [((.create, false, false),
        (.session sessionContent 0 [sessionSnapshot], .kept sessionContent 1 0)),
      ((.restore, true, true), (.session sessionContent 1 [], .kept sessionContent 2 1)),
      ((.restore, false, true), (.session sessionContent 1 [], .kept sessionContent 3 2))]
    (Run (TwinStep Ida.plain) s tr ∧ Fresh Eq sessionContent s ∧ Faithful Eq (opsOf tr) ∧
      Distinguishable Eq s.1.content sessionContent .start (opsOf tr)) ∧
        ¬Throughout (Together Eq) s tr := by
  let _ : Host := Host.ascii false
  intro s tr
  have hcreate : TwinStep Ida.plain (.session sessionContent 0 [], .session)
      (.create, false, false)
      (.session sessionContent 0 [sessionSnapshot], .kept sessionContent 1 0) :=
    ⟨⟨_, rfl⟩, ⟨_, rfl⟩, rfl⟩
  have hrestore : TwinStep Ida.plain
      (.session sessionContent 0 [sessionSnapshot], .kept sessionContent 1 0)
      (.restore, true, true) (.session sessionContent 1 [], .kept sessionContent 2 1) :=
    ⟨⟨_, rfl, rfl⟩, ⟨_, rfl, rfl⟩⟩
  have hagain : TwinStep Ida.plain (.session sessionContent 1 [], .kept sessionContent 2 1)
      (.restore, false, true) (.session sessionContent 1 [], .kept sessionContent 3 2) :=
    ⟨⟨_, rfl, rfl⟩, ⟨_, rfl, rfl⟩⟩
  refine ⟨⟨.cons hcreate (.cons hrestore (.cons hagain (.nil _))), session_fresh, ?_, ?_⟩, ?_⟩
  · intro op changing hmem
    simp [opsOf, tr] at hmem
  · -- before the first restore both have the same snapshot, before the second one has none
    intro es hes h hh h' hh' _
    replace hes : es ++ [.restore] <+: [.create, .restore, .restore] := hes
    obtain _ | ⟨e, _ | ⟨e', _ | ⟨e'', es⟩⟩⟩ := es
    · obtain ⟨hhead, -⟩ := List.cons_prefix_cons.mp hes
      cases hhead
    · obtain ⟨rfl, -⟩ := List.cons_prefix_cons.mp hes
      exact Option.some.inj (hh.symm.trans hh')
    · obtain ⟨rfl, hes'⟩ := List.cons_prefix_cons.mp hes
      obtain ⟨rfl, -⟩ := List.cons_prefix_cons.mp hes'
      cases hh
    · have hlength := hes.length_le
      simp only [List.length_append, List.length_cons, List.length_nil] at hlength
      omega
  · intro h
    exact absurd h.2.2.1.1 (by decide)

end ReverseMcp
