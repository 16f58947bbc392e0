import ReverseMcp.Ida.IdaLib
import ReverseMcp.Ida.Machine

/-!
# The revision discipline of the real backend

An operation of `IdaLibBackend` that changes the database is to move the revision up, and one that
fails is to leave both alone (`Disciplined`).  An operation ends in one of three ways (`Ending`): it
fails with what its calls have left so far, it counts what it has done, or it returns without
counting.  The first is undisciplined when an earlier call of the operation has changed something,
the last when any has; and counting fails at the last revision.

`Meets` says when none of this happens, in terms of the calls.  `discipline_iff` is about runs of
any operations with any calls.
-/

namespace ReverseMcp

open Rust

variable {D : Type}

/-- An operation of the backend, with the calls it makes. -/
inductive IdaOp (D : Type) where
  | func_create (start : U64) (stop : Option U64) (adding : Effect D)
  | func_delete (ea : U64) (deleting : Effect D)
  | func_resize (ea : U64) (new_start new_end : Option U64) (moving ending : Effect D)
  | hr_lvar_rename (ea var_defea : U64) (new_name : String) (decompiling changing : Effect D)
  | analyze_wait (calls : ℕ → Effect D)
  | run_plugin (plugin : String) (args : Option String) (loading running : Effect D)
  | snapshot_create (saving : Effect D) (copying : Option String)
  | snapshot_restore (copying : Option String) (opening : Option D → Except String D)
      (waiting : Effect D)

namespace IdaOp

open IdaLibBackend

/-- The operation on the backend. -/
def run [Host] (ida : Ida D) : IdaOp D → IdaLibBackend.Method D Json
  | func_create start stop adding =>
    return (← IdaLibBackend.func_create start stop adding).to_value
  | func_delete ea deleting => return (← IdaLibBackend.func_delete ea deleting).to_value
  | func_resize ea new_start new_end moving ending =>
    return (← IdaLibBackend.func_resize ea new_start new_end moving ending).to_value
  | hr_lvar_rename ea var_defea new_name decompiling changing =>
    return (← IdaLibBackend.hr_lvar_rename ida ea var_defea new_name decompiling
      changing).to_value
  | analyze_wait calls => IdaLibBackend.analyze_wait ida calls
  | run_plugin plugin args loading running => IdaLibBackend.run_plugin plugin args loading running
  | snapshot_create saving copying => IdaLibBackend.snapshot_create ida saving copying
  | snapshot_restore copying opening waiting =>
    IdaLibBackend.snapshot_restore ida copying opening waiting

/-- An operation with whether it returned `Ok`. -/
abbrev Event (D : Type) : Type := IdaOp D × Bool

end IdaOp

/-- The steps of the backend. -/
def IdaStep [Host] (ida : Ida D) (s : IdaLibBackend D) (e : IdaOp.Event D) (s' : IdaLibBackend D) :
    Prop :=
  match e.2 with
  | true => ∃ v, e.1.run ida s = .ok v s'
  | false => ∃ error, e.1.run ida s = .err error s'

/-- A change of the database moves the revision up; an error changes neither. -/
structure Disciplined (s : IdaLibBackend D) (e : IdaOp.Event D) (s' : IdaLibBackend D) : Prop where
  counted : s'.idb ≠ s.idb → s.revision < s'.revision
  failed : e.2 = false → s'.idb = s.idb ∧ s'.revision = s.revision

/-! ## The three endings -/

/-- How an operation ends, with the database it leaves open. -/
inductive Ending (D : Type) where
  | failed (idb : Option D)
  | counted (idb : Option D)
  | uncounted (idb : Option D)

/-- What an ending leaves. -/
def Ending.Leaves [Host] (s : IdaLibBackend D) (ok : Bool) (s' : IdaLibBackend D) : Ending D → Prop
  | failed idb => ok = false ∧ s'.idb = idb ∧ s'.revision = s.revision
  | counted idb => ok = true ∧ s'.idb = idb ∧ (addU64 s.revision 1 : Result U64) = .ok s'.revision
  | uncounted idb => ok = true ∧ s'.idb = idb ∧ s'.revision = s.revision

/-- The ending is disciplined. -/
def Ending.Fair [Host] (s : IdaLibBackend D) : Ending D → Prop
  | failed idb => idb = s.idb
  | counted idb => idb ≠ s.idb → NoWrap s.revision 1
  | uncounted idb => idb = s.idb

section
variable [Host] {s s' : IdaLibBackend D}

/-- An addition returns or panics. -/
lemma addU64_ne_err {e : Error} (a b : U64) : (addU64 a b : Result U64) ≠ .err e := by
  intro h
  rw [addU64] at h
  split at h
  · cases h
  · cases h

/-- A bump that returns moves the revision up exactly when it does not wrap. -/
lemma lt_bump_iff {r r' : U64} (h : (addU64 r 1 : Result U64) = .ok r') : r < r' ↔ NoWrap r 1 := by
  constructor
  · intro hlt
    by_contra hwrap
    obtain ⟨hchecks, hlast⟩ := not_or.mp hwrap
    have hval : r' = r + 1 := by
      rw [addU64] at h
      split at h
      · exact (Outcome.ok.inj h).symm
      · cases h
    -- with no checks the last revision wraps to zero, which is no move up
    rw [hval, Fin.lt_def, Fin.val_add] at hlt
    have hone : (1 : U64).val = 1 := rfl
    rw [hone] at hlt
    have := r.isLt
    omega
  · intro hroom
    rw [Fin.lt_def, hroom.bump h]
    omega

lemma Ending.disciplined_iff {ending : Ending D} {op : IdaOp D} {ok : Bool}
    (h : ending.Leaves s ok s') : Disciplined s (op, ok) s' ↔ ending.Fair s := by
  cases ending with
  | failed idb =>
    obtain ⟨rfl, rfl, hrev⟩ := h
    exact ⟨fun hd => (hd.failed rfl).1, fun hf => ⟨fun hne => absurd hf hne, fun _ => ⟨hf, hrev⟩⟩⟩
  | counted idb =>
    obtain ⟨rfl, rfl, hrev⟩ := h
    refine ⟨fun hd hne => (lt_bump_iff hrev).mp (hd.counted hne), fun hf => ⟨fun hne => ?_, nofun⟩⟩
    exact (lt_bump_iff hrev).mpr (hf hne)
  | uncounted idb =>
    obtain ⟨rfl, rfl, hrev⟩ := h
    refine ⟨fun hd => ?_, fun hf => ⟨fun hne => absurd hf hne, nofun⟩⟩
    by_contra hne
    exact absurd (hd.counted hne) (hrev ▸ lt_irrefl _)

/-- A reply with which an operation from `s` ends so. -/
def Ending.Ends {α : Type} (s : IdaLibBackend D) (ending : Ending D) :
    Reply Error (IdaLibBackend D) α → Prop
  | .ok _ s' => ending.Leaves s true s'
  | .err _ s' => ending.Leaves s false s'
  | .panic _ => True

namespace Ending

variable {α β : Type} {ending : Ending D} {t : IdaLibBackend D}

lemma Ends.lift_bind {x : Result α} {f : α → IdaLibBackend.Method D β}
    (herr : ∀ e, x = .err e → ending.Leaves s false t)
    (hok : ∀ a, x = .ok a → ending.Ends s (f a t)) :
    ending.Ends s ((Action.lift x >>= f) t) := by
  cases x with
  | ok a => exact hok a rfl
  | err e => exact herr e rfl
  | panic p => trivial

/-- What is done with a reply does not matter to its ending. -/
lemma Ends.map {x : IdaLibBackend.Method D α} {f : α → β} (h : ending.Ends s (x t)) :
    ending.Ends s ((do let a ← x; return f a : IdaLibBackend.Method D β) t) := by
  rw [Action.bind_apply]
  cases hx : x t with
  | ok a t' => rwa [hx] at h
  | err e t' => rwa [hx] at h
  | panic p => trivial

/-- An operation that ends in a bump counts. -/
lemma ends_bump {f : U64 → α} (h : t.revision = s.revision) :
    (counted t.idb).Ends s ((do let r ← IdaLibBackend.bump; return f r : IdaLibBackend.Method D α)
      t) := by
  refine Ends.map ?_
  rw [IdaLibBackend.bump]
  rw [Action.get_bind, h]
  refine Ends.lift_bind (fun e he => absurd he (addU64_ne_err _ _)) fun r hr => ?_
  exact ⟨rfl, rfl, hr⟩

end Ending

end

/-! ## The calls of the analysis -/

section
variable (ida : Ida D) (calls : ℕ → Effect D)

/-- The database after the first `n` calls. -/
def callsAfter (d : D) : ℕ → D
  | 0 => d
  | n + 1 => (calls n).next (callsAfter d n)

variable {ida calls}

namespace IdaLibBackend.Analysis

/-- The database is what the calls made so far have left. -/
def Traced (calls : ℕ → Effect D) (d : D) (a : Analysis D) : Prop :=
  a.db = callsAfter calls d a.used

variable {d : D} {a : Analysis D}

lemma Traced.call (h : Traced calls d a) : Traced calls d (a.call calls).2 := by
  show (calls a.used).next a.db = (calls a.used).next (callsAfter calls d a.used)
  rw [h]

lemma Traced.addFunc (h : Traced calls d a) : Traced calls d (a.addFunc calls) := by
  rw [Analysis.addFunc]
  split
  · exact h.call
  · exact h.call

lemma Traced.entry (h : Traced calls d a) (ea : U64) : Traced calls d (a.entry ida calls ea) := by
  rw [Analysis.entry]
  split
  · dsimp only
    split
    · exact h.call.addFunc
    · exact h.call
  · exact h

lemma Traced.probe (h : Traced calls d a) (ea : U64) : Traced calls d (a.probe ida calls ea) := by
  rw [Analysis.probe]
  split
  · split
    · exact h.call.addFunc
    · exact h.call
  · exact h

lemma Traced.sweepFrom (h : Traced calls d a) (start : U64) (size n off : ℕ) :
    Traced calls d (a.sweepFrom ida calls start size n off) := by
  induction n generalizing off a with
  | zero => exact h
  | succ n ih =>
    rw [Analysis.sweepFrom]
    split
    · exact ih (h.probe _) _
    · exact h

lemma Traced.sweep (h : Traced calls d a) (segs : List ExecSegment) :
    Traced calls d (Analysis.sweep ida calls segs a) := by
  induction segs generalizing a with
  | nil => exact h
  | cons seg segs ih =>
    have hseg : Traced calls d (a.sweepFrom ida calls seg.start (seg.stop.val - seg.start.val)
        (seg.stop.val - seg.start.val) 0) := h.sweepFrom _ _ _ _
    unfold Analysis.sweep
    dsimp only
    split
    · exact hseg
    · exact ih hseg

lemma Traced.entries (h : Traced calls d a) (eas : List U64) :
    Traced calls d (eas.foldl (fun a ea => a.entry ida calls ea) a) := by
  induction eas generalizing a with
  | nil => exact h
  | cons ea eas ih => exact ih (h.entry ea)

lemma Traced.recover (h : Traced calls d a) : Traced calls d (a.recover ida calls).1 := by
  let seeded := ((ida.entries a.db).take 16).foldl (fun a ea => a.entry ida calls ea) a
  have hseeded : Traced calls d seeded := h.entries _
  have hswept : Traced calls d (seeded.sweep ida calls ((ida.executable seeded.db).take 16)) :=
    hseeded.sweep _
  unfold Analysis.recover
  dsimp only
  split
  · exact hswept.call
  · exact hswept

end IdaLibBackend.Analysis

open IdaLibBackend IdaLibBackend.Analysis

variable (ida calls)

/-- How many calls the analysis makes. -/
def callsMade (d : D) : ℕ := (analysed ida calls d).1.used

/-- The analysis leaves what its calls leave. -/
lemma analysed_db (d : D) :
    (analysed ida calls d).1.db = callsAfter calls d (callsMade ida calls d) := by
  have hfirst : Traced calls d ((⟨d, 0, 0⟩ : IdaLibBackend.Analysis D).call calls).2 :=
    Traced.call rfl
  unfold callsMade analysed
  dsimp only
  split
  · exact hfirst.recover
  · exact hfirst

end

/-! ## How each operation ends -/

/-- The database after a call that is only made when its argument is given. -/
def Effect.nextIf (e : Effect D) (given : Option U64) (d : D) : D :=
  if given.isSome then e.next d else d

/-- An operation on the open database. -/
def Ending.onOpen (s : IdaLibBackend D) (f : D → Ending D) : Ending D :=
  match s.idb with
  | some d => f d
  | none => failed none

/-- An operation whose last call is `e`. -/
def Ending.ofCall (e : Effect D) (d : D) : Ending D :=
  if e.ok d then counted (some (e.next d)) else failed (some (e.next d))

namespace IdaOp

open IdaLibBackend

/-- How the operation ends. -/
def ending (ida : Ida D) (s : IdaLibBackend D) : IdaOp D → Ending D
  | func_create _ _ adding => .onOpen s (.ofCall adding)
  | func_delete _ deleting => .onOpen s (.ofCall deleting)
  | func_resize _ new_start new_end moving ending => .onOpen s fun d =>
    match new_end with
    | some _ => .ofCall ending (moving.nextIf new_start d)
    | none => if new_start.isSome then .counted (some (moving.next d)) else .failed (some d)
  | hr_lvar_rename ea _ _ decompiling changing => .onOpen s fun d =>
    if ida.decompiler_available d = true ∧ (ida.function_at d ea).isSome then
      if decompiling.ok d then .ofCall changing (decompiling.next d)
      else .failed (some (decompiling.next d))
    else .failed (some d)
  | analyze_wait calls => .onOpen s fun d =>
    .uncounted (some (callsAfter calls d (callsMade ida calls d)))
  | run_plugin _ _ loading running => .onOpen s fun d =>
    if loading.ok d then .uncounted (some (running.next (loading.next d)))
    else .failed (some (loading.next d))
  | snapshot_create saving copying => .onOpen s fun d =>
    if saving.ok d ∧ s.path.isSome ∧ copying = none then .counted (some (saving.next d))
    else .failed (some (saving.next d))
  | snapshot_restore copying opening waiting =>
    match s.snapshot_file, s.path with
    | none, _ => .uncounted s.idb
    | some _, none => .failed s.idb
    | some backup, some _ =>
      match copying, opening (s.files backup) with
      | none, .ok d => .counted (some (waiting.next d))
      | _, _ => .failed none

section
variable [Host] {ida : Ida D} {s t : IdaLibBackend D} {α : Type}

/-- An operation that needs an open database. -/
lemma opened_ends {f : D → IdaLibBackend.Method D α} {g : D → Ending D}
    (h : ∀ d, s.idb = some d → (g d).Ends s (f d s)) :
    (Ending.onOpen s g).Ends s ((IdaLibBackend.opened >>= f) s) := by
  rw [IdaLibBackend.opened, Ending.onOpen]
  cases hidb : s.idb with
  | none =>
    rw [Action.bind_apply, Action.get_bind, hidb]
    exact ⟨rfl, hidb, rfl⟩
  | some d =>
    rw [Action.bind_apply, Action.get_bind, hidb]
    exact h d hidb

/-- The last call of an operation, which fails with the call. -/
lemma ofCall_ends {e : Effect D} {d : D} {message : String} {k : IdaLibBackend.Method D α}
    (ht : t.revision = s.revision)
    (hk : (Ending.counted (some (e.next d))).Ends s (k { t with idb := some (e.next d) })) :
    (Ending.ofCall e d).Ends s ((do
      let ok ← call e d
      Action.lift (failIf (ok = false) message)
      k : IdaLibBackend.Method D α) t) := by
  rw [call_bind]
  rw [Ending.ofCall]
  cases e.ok d with
  | false => exact ⟨rfl, rfl, ht⟩
  | true => exact hk

/-- A bump on the database `d`. -/
lemma bump_ends {d : D} {f : U64 → α} :
    (Ending.counted (some d)).Ends s ((do let r ← bump; return f r : IdaLibBackend.Method D α)
      { s with idb := some d }) :=
  Ending.ends_bump (t := { s with idb := some d }) rfl

lemma mutate_ends {changing : Effect D} {message : String} {detail : Json} :
    (Ending.onOpen s (.ofCall changing)).Ends s (mutate changing message detail s) :=
  opened_ends fun _ _ => ofCall_ends rfl bump_ends

lemma func_resize_ends {ea : U64} {new_start new_end : Option U64} {moving ending : Effect D} :
    ((func_resize ea new_start new_end moving ending).ending ida s).Ends s
      (IdaLibBackend.func_resize ea new_start new_end moving ending s) := by
  refine opened_ends fun d hd => ?_
  cases new_start with
  | none =>
    cases new_end with
    | none => exact ⟨rfl, hd, rfl⟩
    | some stop => exact ofCall_ends rfl bump_ends
  | some start =>
    cases new_end with
    | none => exact bump_ends
    | some stop => exact ofCall_ends (t := { s with idb := some (moving.next d) }) rfl bump_ends

lemma hr_lvar_rename_ends {ea var_defea : U64} {new_name : String}
    {decompiling changing : Effect D} :
    ((hr_lvar_rename ea var_defea new_name decompiling changing).ending ida s).Ends s
      (IdaLibBackend.hr_lvar_rename ida ea var_defea new_name decompiling changing s) := by
  refine opened_ends fun d hd => ?_
  refine Ending.Ends.lift_bind (fun e he => ?_) fun _ havailable => ?_
  · -- no decompiler: refused before the first call
    have hoff : ida.decompiler_available d = false := by
      by_contra hon
      rw [Outcome.errIf, if_neg hon] at he
      cases he
    rw [if_neg (by simp [hoff])]
    exact ⟨rfl, hd, rfl⟩
  rw [Outcome.errIf_eq_ok, Bool.not_eq_false] at havailable
  refine Ending.Ends.lift_bind (fun e he => ?_) fun found hf => ?_
  · -- no function: refused, still before the first call
    have hnone : ida.function_at d ea = none := by
      cases hat : ida.function_at d ea with
      | none => rfl
      | some f =>
        rw [hat] at he
        cases he
    rw [if_neg (by simp [hnone])]
    exact ⟨rfl, hd, rfl⟩
  · -- the decompiling call may change the database, and the rename is the last call
    obtain ⟨func_ea, func_name⟩ := found
    have hsome : (ida.function_at d ea).isSome := by
      cases hat : ida.function_at d ea with
      | none =>
        rw [hat] at hf
        cases hf
      | some f => rfl
    rw [if_pos ⟨havailable, hsome⟩]
    dsimp only
    rw [call_bind]
    cases decompiling.ok d with
    | false => exact ⟨rfl, rfl, rfl⟩
    | true =>
      exact ofCall_ends (t := { s with idb := some (decompiling.next d) }) rfl bump_ends

lemma analyze_wait_ends {calls : ℕ → Effect D} :
    ((analyze_wait calls).ending ida s).Ends s (IdaLibBackend.analyze_wait ida calls s) := by
  refine opened_ends fun d _ => ?_
  rw [← analysed_db]
  exact ⟨rfl, rfl, rfl⟩

lemma run_plugin_ends {plugin : String} {args : Option String} {loading running : Effect D} :
    ((run_plugin plugin args loading running).ending ida s).Ends s
      (IdaLibBackend.run_plugin plugin args loading running s) := by
  refine opened_ends fun d _ => ?_
  rw [call_bind]
  cases loading.ok d with
  | false => exact ⟨rfl, rfl, rfl⟩
  | true => exact ⟨rfl, rfl, rfl⟩

lemma snapshot_create_ends {saving : Effect D} {copying : Option String} :
    ((snapshot_create saving copying).ending ida s).Ends s
      (IdaLibBackend.snapshot_create ida saving copying s) := by
  rw [IdaLibBackend.snapshot_create, save]
  rw [Action.bind_assoc]
  refine opened_ends fun d _ => ?_
  rw [Action.bind_assoc, call_bind]
  cases saving.ok d with
  | false => exact ⟨rfl, rfl, rfl⟩
  | true =>
    rw [Action.bind_assoc]
    refine Ending.Ends.lift_bind (fun e he => by cases he) fun _ _ => ?_
    rw [Action.modify_bind, saved_db_file_bind]
    cases hpath : s.path with
    | none => exact ⟨rfl, rfl, rfl⟩
    | some path =>
      dsimp only
      rw [Action.get_bind]
      refine Ending.Ends.lift_bind (fun e he => absurd he (addU64_ne_err _ _)) fun seq _ => ?_
      rw [copy_bind]
      -- a copy that fails leaves what saving has left, uncounted
      cases copying with
      | some e => exact ⟨rfl, rfl, rfl⟩
      | none => exact Ending.ends_bump rfl

lemma snapshot_restore_ends {copying : Option String} {opening : Option D → Except String D}
    {waiting : Effect D} :
    ((snapshot_restore copying opening waiting).ending ida s).Ends s
      (IdaLibBackend.snapshot_restore ida copying opening waiting s) := by
  rw [IdaLibBackend.snapshot_restore, ending]
  rw [Action.get_bind]
  cases hfile : s.snapshot_file with
  | none => exact ⟨rfl, rfl, rfl⟩
  | some backup =>
    dsimp only
    rw [saved_db_file_bind]
    cases hpath : s.path with
    | none => exact ⟨rfl, rfl, rfl⟩
    | some path =>
      dsimp only
      -- the database is closed before the copy: what fails from here on leaves none open
      rw [Action.modify_bind, copy_bind]
      cases copying with
      | some e => exact ⟨rfl, rfl, rfl⟩
      | none =>
        dsimp only
        rw [Action.get_bind]
        simp only [Function.update_self]
        cases opening (s.files backup) with
        | error e => exact ⟨rfl, rfl, rfl⟩
        | ok d => exact Ending.ends_bump rfl

/-- Every step ends as its operation does. -/
lemma step_leaves {op : IdaOp D} {ok : Bool} {s' : IdaLibBackend D}
    (h : IdaStep ida s (op, ok) s') :
    (op.ending ida s).Leaves s ok s' := by
  have hends : (op.ending ida s).Ends s (op.run ida s) := by
    cases op with
    | func_create start stop adding => exact mutate_ends.map
    | func_delete ea deleting => exact mutate_ends.map
    | func_resize ea new_start new_end moving ending => exact func_resize_ends.map
    | hr_lvar_rename ea var_defea new_name decompiling changing => exact hr_lvar_rename_ends.map
    | analyze_wait calls => exact analyze_wait_ends
    | run_plugin plugin args loading running => exact run_plugin_ends
    | snapshot_create saving copying => exact snapshot_create_ends
    | snapshot_restore copying opening waiting => exact snapshot_restore_ends
  cases ok with
  | true =>
    obtain ⟨v, hv⟩ := h
    rwa [hv] at hends
  | false =>
    obtain ⟨error, herror⟩ := h
    rwa [herror] at hends

/-! ## When the discipline is kept -/

/-- There is room to count an operation that leads from `d` to `d'`. -/
def Room (s : IdaLibBackend D) (d d' : D) : Prop := d' ≠ d → NoWrap s.revision 1

/-- The condition under which the operation keeps the discipline. -/
def Meets (ida : Ida D) (s : IdaLibBackend D) : IdaOp D → Prop
  | func_create _ _ adding => ∀ d ∈ s.idb, Room s d (adding.next d)
  | func_delete _ deleting => ∀ d ∈ s.idb, Room s d (deleting.next d)
  | func_resize _ new_start new_end moving ending => ∀ d ∈ s.idb,
    (new_end.isSome → ending.ok (moving.nextIf new_start d) = false →
      moving.nextIf new_start d = d) ∧
      Room s d (ending.nextIf new_end (moving.nextIf new_start d))
  | hr_lvar_rename ea _ _ decompiling changing => ∀ d ∈ s.idb,
    ida.decompiler_available d = true → (ida.function_at d ea).isSome → decompiling.ok d = true →
      (changing.ok (decompiling.next d) = false → decompiling.next d = d) ∧
        Room s d (changing.next (decompiling.next d))
  | analyze_wait calls => ∀ d ∈ s.idb, callsAfter calls d (callsMade ida calls d) = d
  | run_plugin _ _ loading running => ∀ d ∈ s.idb, loading.ok d = true →
    running.next (loading.next d) = d
  | snapshot_create saving copying => ∀ d ∈ s.idb,
    (s.path = none ∨ copying.isSome → saving.next d = d) ∧ Room s d (saving.next d)
  | snapshot_restore copying opening waiting => ∀ backup ∈ s.snapshot_file, s.path.isSome →
    match copying, opening (s.files backup) with
    | none, .ok d => s.idb ≠ some (waiting.next d) → NoWrap s.revision 1
    | _, _ => s.idb = none

lemma onOpen_fair {g : D → Ending D} :
    (Ending.onOpen s g).Fair s ↔ ∀ d ∈ s.idb, (g d).Fair s := by
  rw [Ending.onOpen]
  cases hidb : s.idb with
  | none => simp [Ending.Fair, hidb]
  | some d => simp

/-- A last call is fair when it succeeds or what comes before it has changed nothing. -/
lemma ofCall_fair {e : Effect D} {d₀ d : D} (h : s.idb = some d₀) :
    (Ending.ofCall e d).Fair s ↔ (e.ok d = false → d = d₀) ∧ Room s d₀ (e.next d) := by
  rw [Ending.ofCall, Room]
  cases hok : e.ok d with
  | false =>
    have hnext := e.fails d hok
    simp only [Ending.Fair, h, hnext, Option.some.injEq, Bool.false_eq_true, if_false, true_implies]
    exact ⟨fun heq => ⟨heq, fun hne => absurd heq hne⟩, fun hm => hm.1⟩
  | true => simp [Ending.Fair, h]

lemma mutate_fair {e : Effect D} :
    (Ending.onOpen s (.ofCall e)).Fair s ↔ ∀ d ∈ s.idb, Room s d (e.next d) := by
  rw [onOpen_fair]
  refine forall₂_congr fun d hd => ?_
  rw [ofCall_fair hd]
  exact ⟨fun h => h.2, fun h => ⟨fun _ => rfl, h⟩⟩

lemma meets_iff (op : IdaOp D) : op.Meets ida s ↔ (op.ending ida s).Fair s := by
  cases op with
  | func_create start stop adding => exact mutate_fair.symm
  | func_delete ea deleting => exact mutate_fair.symm
  | func_resize ea new_start new_end moving ending =>
    refine Iff.trans ?_ onOpen_fair.symm
    refine forall₂_congr fun d hd => ?_
    cases new_end with
    | some stop =>
      -- the end is set last, so the call for the start comes before the one that can fail
      rw [ofCall_fair hd]
      simp [Effect.nextIf]
    | none =>
      cases new_start with
      | none => simp [Effect.nextIf, Ending.Fair, Room, Option.mem_def.mp hd]
      | some start => simp [Effect.nextIf, Ending.Fair, Room, Option.mem_def.mp hd]
  | hr_lvar_rename ea var_defea new_name decompiling changing =>
    refine Iff.trans ?_ onOpen_fair.symm
    refine forall₂_congr fun d hd => ?_
    split
    · rename_i hcan
      split
      · rename_i hok
        rw [ofCall_fair hd]
        simp [hcan, hok]
      · rename_i hok
        rw [Bool.not_eq_true] at hok
        simp [Ending.Fair, hok, decompiling.fails d hok, Option.mem_def.mp hd]
    · rename_i hcan
      simp only [Ending.Fair, Option.mem_def.mp hd, iff_true]
      exact fun havailable hf => absurd ⟨havailable, hf⟩ hcan
  | analyze_wait calls =>
    refine Iff.trans ?_ onOpen_fair.symm
    refine forall₂_congr fun d hd => ?_
    simp [Ending.Fair, Option.mem_def.mp hd]
  | run_plugin plugin args loading running =>
    refine Iff.trans ?_ onOpen_fair.symm
    refine forall₂_congr fun d hd => ?_
    split
    · rename_i hok
      simp [Ending.Fair, hok, Option.mem_def.mp hd]
    · rename_i hok
      rw [Bool.not_eq_true] at hok
      simp [Ending.Fair, hok, loading.fails d hok, Option.mem_def.mp hd]
  | snapshot_create saving copying =>
    refine Iff.trans ?_ onOpen_fair.symm
    refine forall₂_congr fun d hd => ?_
    split
    · rename_i hall
      -- saved, and the file copied: counted
      obtain ⟨_, hpath, rfl⟩ := hall
      simp [Ending.Fair, Room, Option.isSome_iff_ne_none.mp hpath, Option.mem_def.mp hd]
    · rename_i hnot
      -- one of the three failed: fair when saving has changed nothing
      simp only [Ending.Fair, Option.mem_def.mp hd, Option.some.injEq]
      constructor
      · rintro ⟨hfailed, -⟩
        cases hok : saving.ok d with
        | false => exact saving.fails d hok
        | true =>
          refine hfailed ?_
          by_contra hneither
          obtain ⟨hpath, hcopy⟩ := not_or.mp hneither
          exact hnot ⟨hok, Option.isSome_iff_ne_none.mpr hpath, by simpa using hcopy⟩
      · intro hkept
        exact ⟨fun _ => hkept, fun hne => absurd hkept hne⟩
  | snapshot_restore copying opening waiting =>
    rw [Meets, ending]
    cases hfile : s.snapshot_file with
    | none => simp [Ending.Fair]
    | some backup =>
      cases hpath : s.path with
      | none => simp [Ending.Fair]
      | some path =>
        cases copying with
        | some e => simp [Ending.Fair, eq_comm]
        | none =>
          cases hopen : opening (s.files backup) with
          | error e => simp [Ending.Fair, hopen, eq_comm]
          | ok d => simp [Ending.Fair, hopen, eq_comm]

end

end IdaOp

/-- In a run of any operations with any calls, every operation keeps the discipline exactly when
each meets its condition in the state it starts from. -/
theorem discipline_iff [Host] {ida : Ida D} {s : IdaLibBackend D}
    {tr : List (IdaOp.Event D × IdaLibBackend D)} (h : Run (IdaStep ida) s tr) :
    Throughout Disciplined s tr ↔ Along (fun s e => e.1.Meets ida s) s tr := by
  induction h with
  | nil s => exact ⟨fun _ => trivial, fun _ => trivial⟩
  | @cons s s' e tr hstep _ ih =>
    -- the first step, by its ending; the rest is the induction hypothesis
    have hone : Disciplined s e s' ↔ e.1.Meets ida s :=
      (Ending.disciplined_iff (IdaOp.step_leaves hstep)).trans (IdaOp.meets_iff e.1).symm
    exact and_congr hone ih

/-! ## A database that is a number of functions -/

/-- The call that adds a function. -/
def Effect.add : Effect ℕ where
  code _ := 0
  ok _ := true
  text _ := ""
  next d := d + 1
  fails _ h := by cases h

/-- The call that is refused. -/
def Effect.refused : Effect D where
  code _ := -1
  ok _ := false
  text _ := "refused"
  next d := d
  fails _ _ := rfl

/-- IDA on a number of functions. -/
def Ida.counting : Ida ℕ where
  function_count d := d
  entries _ := []
  function_at _ _ := none
  executable _ := []
  original_byte _ _ := 0
  decompiler_available _ := false
  isDatabase _ := true

/-- An open database with `n` functions. -/
def IdaLibBackend.counting (n : ℕ) (revision : U64) : IdaLibBackend ℕ :=
  ⟨some n, some "t.i64", revision, none, 0, fun _ => none⟩

/-- A function is created. -/
theorem discipline_iff_created :
    letI : Host := Host.ascii false
    Throughout Disciplined (.counting 1 0)
      [((.func_create 0x401000 none .add, true), .counting 2 1)] := by
  let _ : Host := Host.ascii false
  have hrun : Run (IdaStep Ida.counting) (.counting 1 0)
      [((.func_create 0x401000 none .add, true), .counting 2 1)] := .cons ⟨_, rfl⟩ (.nil _)
  exact (discipline_iff hrun).mpr ⟨fun _ _ _ => .inr (by decide), trivial⟩

/-- A resize moves the start of a function and then is refused its end: it fails, and the database
has changed.  The analysis changes it again; the revision is still the first. -/
theorem not_disciplined :
    letI : Host := Host.ascii false
    let tr := [((.func_resize 0x401000 (some 0x401010) (some 0x401020) .add .refused, false),
        .counting 2 0),
      ((.analyze_wait fun _ => .add, true), .counting 3 0)]
    Run (IdaStep Ida.counting) (.counting 1 0) tr ∧
    ¬ Throughout Disciplined (.counting 1 0) tr := by
  intro tr
  refine ⟨.cons ⟨_, rfl⟩ (.cons ⟨_, rfl⟩ (.nil _)), fun h => ?_⟩
  have hkept := (h.1.failed rfl).1
  exact absurd hkept (by decide)

end ReverseMcp
