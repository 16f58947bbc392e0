import ReverseMcp.Ida.Discipline
import ReverseMcp.Worker.Effects

/-!
# The worker with either backend

In a build for IDA `backend.select` also selects `IdaLibBackend`.  `AnyState` is the state of a
worker with either backend, or none, and `AnyState.handle` a request to it.  With the mock backend
and with none it is the request of `Dispatch`.

On the real backend the arms are told apart by what they borrow.  Those that call a method with
`&mut self` are `Action`s on the backend.  The others only have `&self` and come in with the request
(`IdaEnv.reading`): what they answer and what they keep can be anything, but there is no backend
among it.
-/

namespace ReverseMcp

open Rust

variable {D : Type}

/-! ## Opening and closing -/

namespace IdaLibBackend

/-- `IdaLibBackend::new`, with what the files hold. -/
def new (files : String → Option D) : IdaLibBackend D := ⟨none, none, 0, none, 0, files⟩

/-- `IdaBackend::open`, up to the info that it answers. -/
def openDb (path : String) (opening : String → Except String D) (waiting : Effect D) :
    Method D Unit := do
  let s ← Action.get
  Action.lift (failIf s.idb.isSome "a db is already open")
  let d ← Action.lift (match opening path with
    | .ok d => .ok d
    | .error e => .err (idalibError e))
  Action.modify fun s => { s with path := some path, idb := some (waiting.next d) }

/-- `IdaBackend::close`: dropping the database saves it. -/
def close (ida : Ida D) : Method D Unit :=
  Action.modify fun s => { s with
    idb := none
    path := none
    files := match s.path, s.idb with
      | some path, some d => Function.update s.files (dbFile ida path) (some d)
      | _, _ => s.files }

end IdaLibBackend

/-! ## What is left of a database -/

namespace IdaLibBackend

/-- The database, its revision and its snapshot are as before; the files may have been written. -/
def SameDatabase (s s' : IdaLibBackend D) : Prop := s' = { s with files := s'.files }

section
variable {ida : Ida D} {s s' : IdaLibBackend D}

lemma sameDatabase_idb_iff {idb : Option D} (h : s' = { s with idb, files := s'.files }) :
    SameDatabase s s' ↔ idb = s.idb := by
  rw [SameDatabase]
  constructor
  · intro hsame
    have hidb := congrArg IdaLibBackend.idb hsame
    rwa [h] at hidb
  · rintro rfl
    exact h

lemma openDb_same_iff {path : String} {opening : String → Except String D} {waiting : Effect D}
    (h : (openDb path opening waiting s).Leaves s') :
    SameDatabase s s' ↔ s.idb.isSome ∨ ∀ d, opening path ≠ .ok d := by
  rw [openDb, Action.get_bind] at h
  cases hidb : s.idb with
  | some d =>
    rw [hidb] at h
    obtain rfl : s = s' := h
    exact iff_of_true rfl (.inl rfl)
  | none =>
    rw [hidb] at h
    cases hopening : opening path with
    | error e =>
      rw [hopening] at h
      obtain rfl : s = s' := h
      exact iff_of_true rfl (.inr nofun)
    | ok d =>
      rw [hopening] at h
      obtain rfl : { s with path := some path, idb := some (waiting.next d) } = s' := h
      refine iff_of_false (fun hsame => ?_) (by simp)
      have hopened := congrArg IdaLibBackend.idb hsame
      cases hopened.trans hidb

lemma close_same_iff (h : (close ida s).Leaves s') :
    SameDatabase s s' ↔ s.idb = none ∧ s.path = none := by
  obtain rfl := h
  rw [SameDatabase]
  constructor
  · intro hsame
    have hidb := congrArg IdaLibBackend.idb hsame
    have hpath := congrArg IdaLibBackend.path hsame
    exact ⟨hidb.symm, hpath.symm⟩
  · rintro ⟨hidb, hpath⟩
    simp only [← hidb, ← hpath]

/-- What a method on the open database leaves. -/
lemma opened_leaves {α : Type} {f : D → Method D α} (h : ((opened >>= f) s).Leaves s') :
    (s.idb = none ∧ s' = s) ∨ ∃ d, s.idb = some d ∧ (f d s).Leaves s' := by
  rw [opened, Action.bind_assoc, Action.get_bind] at h
  cases hidb : s.idb with
  | none =>
    rw [hidb] at h
    exact .inl ⟨rfl, h.symm⟩
  | some d =>
    rw [hidb] at h
    exact .inr ⟨d, rfl, h⟩

lemma save_same_iff {saving : Effect D} (h : (save ida saving s).Leaves s') :
    SameDatabase s s' ↔ ∀ d, s.idb = some d → saving.next d = d := by
  rw [save] at h
  rcases opened_leaves h with ⟨hidb, rfl⟩ | ⟨d, hidb, h⟩
  · exact iff_of_true rfl (by simp [hidb])
  · rw [call_bind] at h
    have hs' : s' = { s with idb := some (saving.next d), files := s'.files } := by
      cases hok : saving.ok d with
      | false =>
        rw [hok] at h
        exact h.symm ▸ rfl
      | true =>
        rw [hok] at h
        exact h.symm ▸ rfl
    rw [sameDatabase_idb_iff hs', hidb]
    simp

lemma analyze_wait_same_iff {calls : ℕ → Effect D} (h : (analyze_wait ida calls s).Leaves s') :
    SameDatabase s s' ↔
      ∀ d, s.idb = some d → callsAfter calls d (callsMade ida calls d) = d := by
  rcases opened_leaves h with ⟨hidb, rfl⟩ | ⟨d, hidb, h⟩
  · exact iff_of_true rfl (by simp [hidb])
  · have hs' : s' = { s with
        idb := some (callsAfter calls d (callsMade ida calls d)), files := s'.files } := by
      rw [← analysed_db]
      exact h.symm ▸ rfl
    rw [sameDatabase_idb_iff hs', hidb]
    simp

lemma run_plugin_same_iff {plugin : String} {args : Option String} {loading running : Effect D}
    (h : (run_plugin plugin args loading running s).Leaves s') :
    SameDatabase s s' ↔
      ∀ d, s.idb = some d → loading.ok d = true → running.next (loading.next d) = d := by
  rcases opened_leaves h with ⟨hidb, rfl⟩ | ⟨d, hidb, h⟩
  · exact iff_of_true rfl (by simp [hidb])
  · rw [call_bind] at h
    cases hok : loading.ok d with
    | false =>
      rw [hok] at h
      have hs' : s' = { s with idb := some (loading.next d), files := s'.files } := h.symm ▸ rfl
      rw [sameDatabase_idb_iff hs', hidb, loading.fails d hok]
      simp [hok]
    | true =>
      rw [hok] at h
      have hs' : s' = { s with
        idb := some (running.next (loading.next d)), files := s'.files } := h.symm ▸ rfl
      rw [sameDatabase_idb_iff hs', hidb]
      simp [hok]

/-- The next number is another one, also where it wraps. -/
lemma addU64_one_ne [Host] {a b : U64} (h : (addU64 a 1 : Result U64) = .ok b) : b ≠ a := by
  rw [addU64] at h
  split at h
  · cases h
    intro heq
    have hval := congrArg Fin.val heq
    rw [Fin.val_add] at hval
    have hone : (1 : U64).val = 1 := rfl
    have := a.isLt
    omega
  · cases h

/-- A bump leaves the number of the snapshot. -/
lemma bump_bind_leaves_seq [Host] {α : Type} {f : U64 → α}
    (h : ((do let r ← bump; return f r : Method D α) s).Leaves s') :
    s'.snapshot_seq = s.snapshot_seq := by
  rw [bump] at h
  rw [Action.bind_assoc, Action.get_bind, Action.bind_assoc] at h
  obtain ⟨e, -, rfl⟩ | ⟨r, -, h⟩ := Action.lift_bind_leaves h
  · rfl
  · obtain rfl := h
    rfl

lemma snapshot_create_same_iff [Host] {saving : Effect D} {copying : Option String}
    (h : (snapshot_create ida saving copying s).Leaves s') :
    SameDatabase s s' ↔ ∀ d, s.idb = some d → saving.next d = d ∧
      ¬(saving.ok d = true ∧ s.path.isSome ∧ copying = none) := by
  rw [snapshot_create, save] at h
  rw [Action.bind_assoc] at h
  rcases opened_leaves h with ⟨hidb, rfl⟩ | ⟨d, hidb, h⟩
  · exact iff_of_true rfl (by simp [hidb])
  rw [Action.bind_assoc, call_bind] at h
  simp only [hidb, Option.some.injEq, forall_eq']
  -- where no snapshot comes of it, what is left is what saving has left
  have hfailed : ∀ files, { s with idb := some (saving.next d), files } = s' →
      ¬(saving.ok d = true ∧ s.path.isSome ∧ copying = none) →
      (SameDatabase s s' ↔ saving.next d = d ∧
        ¬(saving.ok d = true ∧ s.path.isSome ∧ copying = none)) := by
    rintro files rfl hnone
    rw [and_iff_left hnone, sameDatabase_idb_iff rfl, hidb, Option.some.injEq]
  cases hok : saving.ok d with
  | false =>
    rw [hok] at h hfailed
    exact hfailed _ h (by simp)
  | true =>
    rw [hok] at h hfailed
    rw [Action.bind_assoc] at h
    have h := (Action.lift_bind_leaves h).resolve_left (by rintro ⟨e, he, -⟩; cases he)
    obtain ⟨-, -, h⟩ := h
    rw [Action.modify_bind, saved_db_file_bind] at h
    cases hpath : s.path with
    | none =>
      simp only [hpath] at h
      rw [hpath] at hfailed
      exact hfailed _ h (by simp)
    | some path =>
      simp only [hpath] at h
      rw [hpath] at hfailed
      rw [Action.get_bind] at h
      obtain ⟨e, he, -⟩ | ⟨seq, hseq, h⟩ := Action.lift_bind_leaves h
      · exact absurd he (addU64_ne_err _ _)
      rw [copy_bind] at h
      cases copying with
      | some e => exact hfailed _ h (by simp)
      | none =>
        dsimp only at h
        rw [Action.modify_bind] at h
        -- the number of the snapshot has moved on
        refine iff_of_false (fun hsame => ?_) (by simp)
        have hnumber : s'.snapshot_seq = seq := bump_bind_leaves_seq h
        have hseq' := congrArg IdaLibBackend.snapshot_seq hsame
        exact addU64_one_ne hseq (hnumber.symm.trans hseq')

end

end IdaLibBackend

/-! ## The state -/

/-- `WorkerState` with `IdaLibBackend` selected. -/
structure IdaState (D : Type) where
  backend : IdaLibBackend D
  closed : Bool
  audit : List AuditEntry
  index : Option (AnalysisIndex × String)
  workflow_cache : WorkflowCache

/-- `WorkerState` with the mock backend, or none, selected, and with `IdaLibBackend`. -/
inductive AnyState (D : Type) where
  | mock (s : WorkerState)
  | idalib (s : IdaState D)

namespace AnyState

/-- The mock backend in place of the backend that is selected. -/
def withMock (b : MockBackend) : AnyState D → AnyState D
  | mock s => mock { s with backend := some b }
  | idalib s => mock ⟨some b, s.closed, s.audit, s.index, s.workflow_cache⟩

/-- `IdaLibBackend` in place of the backend that is selected. -/
def withIda (b : IdaLibBackend D) : AnyState D → AnyState D
  | mock s => idalib ⟨b, s.closed, s.audit, s.index, s.workflow_cache⟩
  | idalib s => idalib { s with backend := b }

/-- The state with an empty result cache. -/
def invalidated : AnyState D → AnyState D
  | mock s => mock { s with workflow_cache := s.workflow_cache.invalidate_all }
  | idalib s => idalib { s with workflow_cache := s.workflow_cache.invalidate_all }

end AnyState

/-- A call on a part of the state. -/
def Rust.Reply.within {ε σ τ α : Type} (f : σ → τ) : Reply ε σ α → Reply ε τ α
  | .ok a s => .ok a (f s)
  | .err e s => .err e (f s)
  | .panic p => .panic p

lemma Rust.Reply.within_leaves {ε σ τ α : Type} {f : σ → τ} {r : Reply ε σ α} {t : τ}
    (h : (r.within f).Leaves t) : ∃ s, r.Leaves s ∧ t = f s := by
  cases r with
  | ok a s => exact ⟨s, rfl, h.symm⟩
  | err e s => exact ⟨s, rfl, h.symm⟩
  | panic p => exact h.elim

/-! ## Requests -/

/-- What one request finds of IDA. -/
structure IdaEnv (D : Type) where
  /-- `compiled_backend_key`. -/
  compiled : Option String
  /-- The version that the library reports when it is loaded. -/
  runtime : Except String String
  ida : Ida D
  /-- What the files hold when the backend is selected. -/
  disk : String → Option D
  /-- What opening a path makes, and the `auto_wait` after it. -/
  opening : String → Except String D
  waiting : Effect D
  saving : Effect D
  /-- The calls of `analyze_wait`. -/
  analysing : ℕ → Effect D
  loading : Effect D
  running : Effect D
  /-- The error of `std::fs::copy`, if so. -/
  copying : Option String
  /-- `db_info` of a database that is open. -/
  info : IdaLibBackend D → Json
  /-- The arms that call methods with `&self` only: the answer, the index and the result cache. -/
  reading : Method → Json → IdaState D →
    Reply Error (Option (AnalysisIndex × String) × WorkflowCache) Json
  /-- The arms of the mutations, of plans, of restores and of what is applied. -/
  mutating : Method → Json → Action Error (IdaState D) Json

/-- A method with `&mut self` of the selected backend. -/
def IdaState.withBackend {α : Type} (x : IdaLibBackend.Method D α) : Action Error (IdaState D) α :=
  fun s => (x s.backend).within fun backend => { s with backend }

/-- What a method of the backend leaves in the state of the worker. -/
lemma IdaState.withBackend_leaves {α : Type} {x : IdaLibBackend.Method D α} {s s' : IdaState D}
    (h : (withBackend x s).Leaves s') :
    ∃ backend, (x s.backend).Leaves backend ∧ s' = { s with backend } :=
  Reply.within_leaves h

/-- So does what only answers after it. -/
lemma IdaState.withBackend_bind_leaves {α β : Type} {x : IdaLibBackend.Method D α}
    {f : α → Action Error (IdaState D) β} {s s' : IdaState D}
    (h : ((withBackend x >>= f) s).Leaves s') (hf : ∀ a t, (f a t).Leaves s' → s' = t) :
    ∃ backend, (x s.backend).Leaves backend ∧ s' = { s with backend } := by
  obtain ⟨e, he⟩ | ⟨a, t, ht, h⟩ := Action.bind_leaves h
  · refine withBackend_leaves ?_
    rw [he]
    rfl
  · refine withBackend_leaves ?_
    rw [hf a t h, ht]
    rfl

namespace IdaState

variable (x : IdaEnv D) (params : Json)

/-- The arm of `db.open`. -/
def dbOpen : Action Error (IdaState D) Json := do
  let path ← Action.lift (text_required params "path" "missing path")
  withBackend (IdaLibBackend.openDb path x.opening x.waiting)
  let s ← Action.get
  return x.info s.backend

/-- The arm of `db.close`. -/
def dbClose : Action Error (IdaState D) Json := do
  withBackend (IdaLibBackend.close x.ida)
  return .object [("closed", true)]

/-- The arm of `db.save`. -/
def dbSave : Action Error (IdaState D) Json := do
  withBackend (IdaLibBackend.save x.ida x.saving)
  return .object [("saved", true)]

/-- The arm of `run_plugin`. -/
def runPlugin : Action Error (IdaState D) Json := do
  let plugin ← Action.lift (text_required params "plugin" "missing plugin")
  withBackend (IdaLibBackend.run_plugin plugin (text_param params "args") x.loading x.running)

/-- The arms that only read. -/
def read (m : Method) : Action Error (IdaState D) Json := fun s =>
  (x.reading m params s).within fun r => { s with index := r.1, workflow_cache := r.2 }

end IdaState

variable [Host]

/-- The arms of the dispatcher on the real backend. -/
def Method.runIda (x : IdaEnv D) (m : Method) (params : Json) : Action Error (IdaState D) Json :=
  match m with
  | shutdown => do
    Action.modify fun s => { s with closed := true }
    return .object [("bye", true)]
  | dbOpen => IdaState.dbOpen x params
  | dbClose => IdaState.dbClose x
  | read .dbSave => IdaState.dbSave x
  | read .analyzeWait => IdaState.withBackend (IdaLibBackend.analyze_wait x.ida x.analysing)
  | read .runPlugin => IdaState.runPlugin x params
  | snapshotCreate => IdaState.withBackend (IdaLibBackend.snapshot_create x.ida x.saving x.copying)
  | mutate _ | planApply | snapshotRestore | typesApply | deobApply => x.mutating m params
  | _ => IdaState.read x params m

namespace AnyState

omit [Host] in
/-- The arm of `backend.select`. -/
def backendSelect (x : IdaEnv D) (params : Json) : Action Error (AnyState D) Json :=
  match (text_param params "kind").getD "mock" with
  | "mock" => do
    Action.modify (withMock .new)
    return .object [("backend", "mock")]
  | "idalib" =>
    match x.compiled with
    | none => Action.lift (.err (.capabilityUnavailable "idalib"
        "worker not built with an idalib feature"))
    | some compiled => do
      let runtime_key ← Action.lift (match x.runtime with
        | .ok key => .ok key
        | .error e => .err (.capabilityUnavailable "idalib"
            s!"IDA runtime version unavailable: {e}"))
      Action.lift (Outcome.errIf (runtime_key ≠ compiled) (.capabilityUnavailable "idalib"
        (s!"worker compiled for IDA backend {compiled} but the loaded IDA runtime reports " ++
          s!"{runtime_key}; refusing to mix ABIs")))
      Action.modify (withIda (.new x.disk))
      return .object [("backend", "idalib"), ("ida", runtime_key)]
  | other => Action.lift (fail s!"backend kind '{other}' not built into this worker")

/-- `dispatch::dispatch`. -/
def dispatch (x : IdaEnv D) (env : Env) (method : String) (params : Json) :
    Action Error (AnyState D) Json := fun s =>
  if Method.parse method = some .backendSelect then backendSelect x params s
  else
    match s with
    | mock s => (ReverseMcp.dispatch env method params s).within mock
    | idalib s =>
      match Method.parse method with
      | some m => (m.runIda x params s).within idalib
      | none => .err (.worker s!"unknown method '{method}'") (idalib s)

/-- `dispatch::handle`. -/
def handle (x : IdaEnv D) (env : Env) (req : WorkerRequest) (s : AnyState D) :
    Except Panic (WorkerResponse × AnyState D) :=
  match dispatch x env req.method req.params s with
  | .ok v s' => .ok (.ok req.id v, if req.method ∈ MUTATING_METHODS then s'.invalidated else s')
  | .err e s' => .ok (.err req.id e, s')
  | .panic p => .error p

/-- What `handle` leaves is what `dispatch` left, up to the result cache. -/
lemma handle_leaves {x : IdaEnv D} {env : Env} {req : WorkerRequest} {s s' : AnyState D}
    {resp : WorkerResponse} (h : handle x env req s = .ok (resp, s')) :
    ∃ t, (dispatch x env req.method req.params s).Leaves t ∧ (s' = t ∨ s' = t.invalidated) := by
  rw [handle] at h
  cases hd : dispatch x env req.method req.params s with
  | ok v t =>
    rw [hd] at h
    simp only [Except.ok.injEq, Prod.mk.injEq] at h
    obtain ⟨-, rfl⟩ := h
    refine ⟨t, rfl, ?_⟩
    split
    · exact .inr rfl
    · exact .inl rfl
  | err e t =>
    rw [hd] at h
    cases h
    exact ⟨s', rfl, .inl rfl⟩
  | panic p =>
    rw [hd] at h
    cases h

end AnyState

end ReverseMcp
