import ReverseMcp.Worker.Backends
import ReverseMcp.Broker.Tools

/-!
# Background jobs and the database

`ida_jobs` with `action=start` refuses the methods on a list of its own.  Eight methods of the
dispatcher that touch more than the index and the result cache are not on it: `backend.select`,
`shutdown`, `db.open`, `db.close`, `db.save`, `snapshot.create`, `run_plugin` and `analyze_wait`,
which the dispatcher's own list of mutating methods has.  On the mock backend `db.save`,
`run_plugin` and `analyze_wait` change nothing; on the real one IDA decides what they change.

`background_keeps_database_iff` says for each accepted request, with either backend, when it leaves
the database and the worker as they were.
-/

namespace ReverseMcp

open Rust

/-- The selected backend, with all that belongs to its database, and the closed flag of the worker
are as before. -/
def SameDatabase (s s' : WorkerState) : Prop := s'.backend = s.backend ∧ s'.closed = s.closed

instance : Blind SameDatabase where
  refl := fun _ => ⟨rfl, rfl⟩
  trans := fun _ _ _ h₁ h₂ => ⟨h₂.1.trans h₁.1, h₂.2.trans h₁.2⟩
  index := fun _ _ => ⟨rfl, rfl⟩
  cache := fun _ _ => ⟨rfl, rfl⟩

/-- The request finds nothing that it would change. -/
def Method.Idle (m : Method) (params : Json) (s : WorkerState) : Prop :=
  match m with
  | backendSelect => (text_param params "kind").getD "mock" = "mock" → s.backend = some .new
  | shutdown => s.closed = true
  | dbOpen => ∀ b, s.backend = some b → text_param params "path" = none ∨ b.open_path.isSome
  | dbClose | snapshotCreate => ∀ b, s.backend = some b → b.open_path = none
  | _ => True

/-- The methods with a step of the backend that the list has. -/
def Method.refused : Method → Bool
  | mutate _ | planApply | snapshotRestore | typesApply | deobApply => true
  | _ => false

lemma Method.mem_mutating {method : String} {m : Method} (h : parse method = some m)
    (hm : m.refused = true) : method ∈ Tools.MUTATING := by
  unfold parse at h
  split at h <;> cases h <;> first | decide | cases hm

section Arms

variable [Host] {env : Env} {params : Json} {s s' : WorkerState}

lemma run_shutdown_same_iff (h : (Method.shutdown.run env params s).Leaves s') :
    SameDatabase s s' ↔ Method.shutdown.Idle params s := by
  obtain rfl : { s with closed := true } = s' := h
  simp only [SameDatabase, Method.Idle, true_and]
  exact eq_comm

omit [Host] in
/-- A transaction on the backend leaves the closed flag. -/
lemma transact_closed {β : Type} {x : WorkerState → Result β}
    {backend : β → Option MockBackend} {answer : β → Json}
    (h : (Action.transact x (fun r s => { s with backend := backend r }) answer s).Leaves s') :
    s'.closed = s.closed := by
  obtain ⟨r, -, rfl⟩ | ⟨e, -, rfl⟩ := Action.transact_leaves h
  · rfl
  · rfl

lemma run_dbOpen_same_iff (h : (Method.dbOpen.run env params s).Leaves s') :
    SameDatabase s s' ↔ Method.dbOpen.Idle params s := by
  have heff := Method.run_effect (by decide) h
  simp only [Method.run, Worker.dbOpen_eq] at h
  have hclosed := transact_closed h
  cases hb : s.backend with
  | none => simp [SameDatabase, Method.Idle, hclosed, (heff.absent hb).1, hb]
  | some b =>
    simp only [SameDatabase, Method.Idle, hclosed, and_true, (heff.present b hb).1, hb,
      Option.some.injEq, forall_eq', Method.trace, Worker.openTrace]
    cases hpath : text_param params "path" with
    | none => simp
    | some path =>
      cases hopen : b.open_path with
      | some old => simp
      | none =>
        have hne : ({ b with open_path := some path } : MockBackend) ≠ b := by
          intro heq
          have hsome := congrArg MockBackend.open_path heq
          rw [hopen] at hsome
          cases hsome
        simp [hne]

lemma run_dbClose_same_iff (h : (Method.dbClose.run env params s).Leaves s') :
    SameDatabase s s' ↔ Method.dbClose.Idle params s := by
  have heff := Method.run_effect (by decide) h
  simp only [Method.run, Worker.dbClose_eq] at h
  have hclosed := transact_closed h
  cases hb : s.backend with
  | none => simp [SameDatabase, Method.Idle, hclosed, (heff.absent hb).1, hb]
  | some b =>
    have hsame : ({ b with open_path := none } : MockBackend) = b ↔ b.open_path = none := by
      constructor
      · intro heq
        exact (congrArg MockBackend.open_path heq).symm
      · intro hopen
        rw [← hopen]
    simpa [SameDatabase, Method.Idle, hclosed, (heff.present b hb).1, hb, Method.trace] using hsame

lemma run_snapshotCreate_same_iff (h : (Method.snapshotCreate.run env params s).Leaves s') :
    SameDatabase s s' ↔ Method.snapshotCreate.Idle params s := by
  have heff := Method.run_effect (by decide) h
  simp only [Method.run, Worker.snapshotCreate_eq] at h
  have hclosed := transact_closed h
  cases hb : s.backend with
  | none => simp [SameDatabase, Method.Idle, hclosed, (heff.absent hb).1, hb]
  | some b =>
    have hne : b.pushed ≠ b := by
      intro heq
      have hlength := congrArg (fun b => b.snapshots.length) heq
      simp [MockBackend.pushed] at hlength
    simp only [SameDatabase, Method.Idle, hclosed, and_true, (heff.present b hb).1, hb,
      Option.some.injEq, forall_eq', Method.trace]
    cases hopen : b.open_path with
    | none => simp
    | some path => simp [hne]

/-- What an accepted method leaves as it was. -/
lemma Method.run_same_iff {m : Method} (hm : m.refused = false) (hselect : m ≠ .backendSelect)
    (h : (m.run env params s).Leaves s') : SameDatabase s s' ↔ m.Idle params s := by
  cases m with
  | backendSelect => exact absurd rfl hselect
  | shutdown => exact run_shutdown_same_iff h
  | dbOpen => exact run_dbOpen_same_iff h
  | dbClose => exact run_dbClose_same_iff h
  | snapshotCreate => exact run_snapshotCreate_same_iff h
  | mutate m => cases hm
  | planApply => cases hm
  | snapshotRestore => cases hm
  | typesApply => cases hm
  | deobApply => cases hm
  | _ =>
    have hsame := run_keeps_blind SameDatabase env params rfl (by simp) s s' h
    exact iff_of_true hsame trivial

end Arms

/-- A job that was started has a method that is not on the list. -/
lemma Tools.tool_jobs_start_accepts {args params : Json} {b b' : Tools.Broker} {db method : String}
    {timeout : ℕ} (h : Tools.tool_jobs_start args b = .ok (db, method, params, timeout) b') :
    method ∉ Tools.MUTATING := by
  rw [tool_jobs_start] at h
  obtain ⟨m, b₁, -, h⟩ := Action.bind_eq_ok.mp h
  obtain ⟨db', b₂, -, h⟩ := Action.bind_eq_ok.mp h
  split at h
  · cases h
  · rename_i hmem
    cases h
    exact hmem

/-! ## Either backend -/

namespace IdaEnv

variable {D : Type}

/-- `backend.select` can select the real backend: the worker is built for the IDA that is loaded. -/
def Loads (x : IdaEnv D) : Prop := ∃ key, x.compiled = some key ∧ x.runtime = .ok key

end IdaEnv

namespace Method

variable {D : Type}

/-- The kind that `backend.select` is asked for. -/
def kindOf (params : Json) : String := (text_param params "kind").getD "mock"

/-- On the real backend the request finds nothing that it would change. -/
def IdaIdle (x : IdaEnv D) (m : Method) (params : Json) (s : IdaState D) : Prop :=
  match m with
  | backendSelect => kindOf params ≠ "mock" ∧
      (kindOf params = "idalib" → x.Loads → s.backend.SameDatabase (.new x.disk))
  | shutdown => s.closed = true
  | dbOpen => text_param params "path" = none ∨ s.backend.idb.isSome ∨
      ∀ path ∈ text_param params "path", ∀ d, x.opening path ≠ .ok d
  | dbClose => s.backend.idb = none ∧ s.backend.path = none
  | read .dbSave => ∀ d, s.backend.idb = some d → x.saving.next d = d
  | read .analyzeWait => ∀ d, s.backend.idb = some d →
      callsAfter x.analysing d (callsMade x.ida x.analysing d) = d
  | read .runPlugin => text_param params "plugin" = none ∨
      ∀ d, s.backend.idb = some d → x.loading.ok d = true → x.running.next (x.loading.next d) = d
  | snapshotCreate => ∀ d, s.backend.idb = some d → x.saving.next d = d ∧
      ¬(x.saving.ok d = true ∧ s.backend.path.isSome ∧ x.copying = none)
  | _ => True

end Method

namespace AnyState

variable {D : Type}

/-- The selected backend, with all that belongs to its database, and the closed flag of the worker
are as before. -/
def SameDatabase : AnyState D → AnyState D → Prop
  | mock s, mock s' => ReverseMcp.SameDatabase s s'
  | idalib s, idalib s' => s.backend.SameDatabase s'.backend ∧ s'.closed = s.closed
  | _, _ => False

/-- The request finds nothing that it would change. -/
def Idle (x : IdaEnv D) (m : Method) (params : Json) : AnyState D → Prop
  | mock s => m.Idle params s ∧
      (m = .backendSelect → Method.kindOf params = "idalib" → ¬x.Loads)
  | idalib s => m.IdaIdle x params s

end AnyState

/-- So does a request by its name; a method that does not exist changes nothing. -/
def BackgroundIdle {D : Type} (x : IdaEnv D) (method : String) (params : Json) (s : AnyState D) :
    Prop :=
  ∀ m, Method.parse method = some m → s.Idle x m params

section Either

variable {D : Type} {x : IdaEnv D} {env : Env} {m : Method} {params : Json}

lemma AnyState.sameDatabase_invalidated {s s' : AnyState D} :
    s.SameDatabase s'.invalidated ↔ s.SameDatabase s' := by
  cases s <;> cases s' <;> rfl

/-- What `backend.select` leaves. -/
lemma AnyState.backendSelect_leaves {s s' : AnyState D} (h : (backendSelect x params s).Leaves s') :
    (Method.kindOf params = "mock" ∧ s' = s.withMock .new) ∨
    (Method.kindOf params = "idalib" ∧ x.Loads ∧ s' = s.withIda (.new x.disk)) ∨
    (Method.kindOf params ≠ "mock" ∧ (Method.kindOf params = "idalib" → ¬x.Loads) ∧ s' = s) := by
  rw [backendSelect] at h
  rw [Method.kindOf]
  generalize (text_param params "kind").getD "mock" = kind at h ⊢
  split at h
  · exact .inl ⟨rfl, h.symm⟩
  · refine .inr ?_
    cases hcompiled : x.compiled with
    | none =>
      rw [hcompiled] at h
      refine .inr ⟨by decide, fun _ => ?_, h.symm⟩
      rintro ⟨key, hkey, -⟩
      cases hcompiled.symm.trans hkey
    | some compiled =>
      rw [hcompiled] at h
      rcases Action.lift_bind_leaves h with ⟨e, he, rfl⟩ | ⟨key, hkey, h⟩
      · refine .inr ⟨by decide, fun _ => ?_, rfl⟩
        rintro ⟨key, -, hkey⟩
        rw [hkey] at he
        cases he
      have hruntime : x.runtime = .ok key := by
        cases hx : x.runtime with
        | ok key' =>
          rw [hx] at hkey
          cases hkey
          rfl
        | error e =>
          rw [hx] at hkey
          cases hkey
      rcases Action.lift_bind_leaves h with ⟨e, he, rfl⟩ | ⟨_, hsame, h⟩
      · -- another version is loaded
        refine .inr ⟨by decide, fun _ => ?_, rfl⟩
        rintro ⟨key', hkey', hruntime'⟩
        obtain rfl : key = key' := Except.ok.inj (hruntime.symm.trans hruntime')
        obtain rfl : compiled = key := Option.some.inj (hcompiled.symm.trans hkey')
        rw [Outcome.errIf, if_neg (not_not.mpr rfl)] at he
        cases he
      · rw [Outcome.errIf_eq_ok, not_not] at hsame
        exact .inl ⟨rfl, ⟨key, hsame ▸ hcompiled, hruntime⟩, h.symm⟩
  · next hmock hidalib => exact .inr (.inr ⟨hmock, fun hkind => (hidalib hkind).elim, h.symm⟩)

/-- Selecting a backend changes nothing iff it is refused or the backend is a new one already. -/
lemma AnyState.backendSelect_same_iff {s s' : AnyState D}
    (h : (backendSelect x params s).Leaves s') :
    s.SameDatabase s' ↔ s.Idle x .backendSelect params := by
  obtain ⟨hkind, rfl⟩ | ⟨hkind, hloads, rfl⟩ | ⟨hmock, hloads, rfl⟩ := backendSelect_leaves h
  · cases s with
    | mock s =>
      have hnew : ReverseMcp.SameDatabase s { s with backend := some .new } ↔
          s.backend = some .new := by
        simp only [ReverseMcp.SameDatabase, and_true]
        exact eq_comm
      have hkind' : (text_param params "kind").getD "mock" = "mock" := hkind
      simp only [Idle, Method.Idle, hkind, hkind', true_implies, String.reduceEq, false_implies,
        implies_true, and_true]
      exact hnew
    | idalib s => exact iff_of_false id fun hidle => hidle.1 hkind
  · cases s with
    | mock s => exact iff_of_false id fun hidle => hidle.2 rfl hkind hloads
    | idalib s =>
      simp only [Idle, Method.IdaIdle, hkind, hloads, true_implies, SameDatabase, withIda, and_true,
        ne_eq, String.reduceEq, not_false_eq_true, true_and]
  · cases s' with
    | mock s => exact iff_of_true ⟨rfl, rfl⟩ ⟨fun hkind => absurd hkind hmock, fun _ => hloads⟩
    | idalib s =>
      exact iff_of_true ⟨rfl, rfl⟩ ⟨hmock, fun hkind hloads' => absurd hloads' (hloads hkind)⟩

variable [Host]

/-- What an accepted method leaves as it was on the real backend. -/
lemma Method.runIda_same_iff {s s' : IdaState D} (hm : m.refused = false)
    (hselect : m ≠ .backendSelect) (h : (m.runIda x params s).Leaves s') :
    s.backend.SameDatabase s'.backend ∧ s'.closed = s.closed ↔ m.IdaIdle x params s := by
  -- an arm with a method of the backend keeps the closed flag
  have harm : ∀ {α : Type} {y : IdaLibBackend.Method D α},
      (∃ backend, (y s.backend).Leaves backend ∧ s' = { s with backend }) →
        ∃ backend, (y s.backend).Leaves backend ∧
          (s.backend.SameDatabase s'.backend ∧ s'.closed = s.closed ↔
            s.backend.SameDatabase backend) := by
    rintro α y ⟨backend, hleaves, rfl⟩
    exact ⟨backend, hleaves, and_iff_left rfl⟩
  -- an arm that reads gives back an index and a cache
  have hread : ∀ {r : Reply Error (Option (AnalysisIndex × String) × WorkflowCache) Json},
      (r.within fun r => { s with index := r.1, workflow_cache := r.2 }).Leaves s' →
        s.backend.SameDatabase s'.backend ∧ s'.closed = s.closed := by
    intro r h
    obtain ⟨r, -, rfl⟩ := Reply.within_leaves h
    exact ⟨rfl, rfl⟩
  cases m with
  | backendSelect => exact absurd rfl hselect
  | shutdown =>
    obtain rfl : { s with closed := true } = s' := h
    exact (and_iff_right rfl).trans eq_comm
  | dbOpen =>
    have h : (IdaState.dbOpen x params s).Leaves s' := h
    rw [IdaState.dbOpen] at h
    obtain ⟨e, he, rfl⟩ | ⟨path, hpath, h⟩ := Action.lift_bind_leaves h
    · refine iff_of_true ⟨rfl, rfl⟩ (.inl ?_)
      cases hpath : text_param params "path" with
      | none => rfl
      | some path =>
        rw [text_required, hpath] at he
        cases he
    · rw [text_required, Outcome.ofOption_eq_ok] at hpath
      obtain ⟨backend, hleaves, hiff⟩ :=
        harm (IdaState.withBackend_bind_leaves h fun _ _ ht => Eq.symm ht)
      rw [hiff, IdaLibBackend.openDb_same_iff hleaves]
      simp [IdaIdle, hpath]
  | dbClose =>
    have h : (IdaState.dbClose x s).Leaves s' := h
    obtain ⟨backend, hleaves, hiff⟩ :=
      harm (IdaState.withBackend_bind_leaves h fun _ _ ht => Eq.symm ht)
    exact hiff.trans (IdaLibBackend.close_same_iff hleaves)
  | snapshotCreate =>
    obtain ⟨backend, hleaves, hiff⟩ := harm (IdaState.withBackend_leaves h)
    exact hiff.trans (IdaLibBackend.snapshot_create_same_iff hleaves)
  | mutate m => cases hm
  | planApply => cases hm
  | snapshotRestore => cases hm
  | typesApply => cases hm
  | deobApply => cases hm
  | read m =>
    cases m with
    | dbSave =>
      have h : (IdaState.dbSave x s).Leaves s' := h
      obtain ⟨backend, hleaves, hiff⟩ :=
        harm (IdaState.withBackend_bind_leaves h fun _ _ ht => Eq.symm ht)
      exact hiff.trans (IdaLibBackend.save_same_iff hleaves)
    | analyzeWait =>
      obtain ⟨backend, hleaves, hiff⟩ := harm (IdaState.withBackend_leaves h)
      exact hiff.trans (IdaLibBackend.analyze_wait_same_iff hleaves)
    | runPlugin =>
      have h : (IdaState.runPlugin x params s).Leaves s' := h
      rw [IdaState.runPlugin] at h
      obtain ⟨e, he, rfl⟩ | ⟨plugin, hplugin, h⟩ := Action.lift_bind_leaves h
      · refine iff_of_true ⟨rfl, rfl⟩ (.inl ?_)
        cases hplugin : text_param params "plugin" with
        | none => rfl
        | some plugin =>
          rw [text_required, hplugin] at he
          cases he
      · rw [text_required, Outcome.ofOption_eq_ok] at hplugin
        obtain ⟨backend, hleaves, hiff⟩ := harm (IdaState.withBackend_leaves h)
        rw [hiff, IdaLibBackend.run_plugin_same_iff hleaves]
        simp [IdaIdle, hplugin]
    | _ => exact iff_of_true (hread h) trivial
  | _ => exact iff_of_true (hread h) trivial

/-- What an accepted method leaves as it was on either backend. -/
lemma AnyState.dispatch_same_iff {method : String} {s s' : AnyState D}
    (hmethod : method ∉ Tools.MUTATING) (h : (dispatch x env method params s).Leaves s') :
    s.SameDatabase s' ↔ BackgroundIdle x method params s := by
  unfold dispatch at h
  split at h
  · next hselect =>
    rw [backendSelect_same_iff h, BackgroundIdle, hselect]
    simp only [Option.some.injEq, forall_eq']
  rename_i hselect
  cases hm : Method.parse method with
  | none =>
    refine iff_of_true ?_ fun m hm' => by rw [hm] at hm'; cases hm'
    cases s with
    | mock s =>
      simp only [ReverseMcp.dispatch, hm] at h
      obtain rfl : mock s = s' := h
      exact ⟨rfl, rfl⟩
    | idalib s =>
      simp only [hm] at h
      obtain rfl : idalib s = s' := h
      exact ⟨rfl, rfl⟩
  | some m =>
    have hrefused : m.refused = false := by
      by_contra hrefused
      exact hmethod (Method.mem_mutating hm (by simpa using hrefused))
    have hother : m ≠ .backendSelect := fun heq => hselect (heq ▸ hm)
    simp only [BackgroundIdle, hm, Option.some.injEq, forall_eq']
    cases s with
    | mock s =>
      obtain ⟨t, ht, rfl⟩ := Reply.within_leaves h
      rw [ReverseMcp.dispatch] at ht
      simp only [hm] at ht
      have hsame := Method.run_same_iff hrefused hother ht
      exact hsame.trans (and_iff_left fun heq => absurd heq hother).symm
    | idalib s =>
      simp only [hm] at h
      obtain ⟨t, ht, rfl⟩ := Reply.within_leaves h
      exact Method.runIda_same_iff hrefused hother ht

end Either

section Requests

variable [Host]

/-- A request that `ida_jobs` accepts leaves the database and the worker as they were, with either
backend, iff it finds nothing that it would change. -/
theorem background_keeps_database_iff {D : Type} {args params : Json} {b b' : Tools.Broker}
    {db method : String} {timeout : ℕ}
    (hstart : Tools.tool_jobs_start args b = .ok (db, method, params, timeout) b')
    {x : IdaEnv D} {env : Env} {id : U64} {s s' : AnyState D} {resp : WorkerResponse}
    (h : s.handle x env ⟨id, method, params⟩ = .ok (resp, s')) :
    s.SameDatabase s' ↔ BackgroundIdle x method params s := by
  have haccepted := Tools.tool_jobs_start_accepts hstart
  obtain ⟨t, ht, hs'⟩ := AnyState.handle_leaves h
  rw [← AnyState.dispatch_same_iff haccepted ht]
  rcases hs' with rfl | rfl
  · rfl
  · exact AnyState.sameDatabase_invalidated

omit [Host]

/-- A broker with one session of a new worker. -/
def idleBroker : Tools.Broker :=
  ⟨[("db-1", .serving .new)], [("db-1", "a.i64")], .new 3600, 20000⟩

/-- A database of IDA that is nothing but the number of its functions, and an analysis that finds
one more. -/
def findingOne : IdaEnv ℕ where
  compiled := some "9_4"
  runtime := .ok "9_4"
  ida := ⟨id, fun _ => [], fun _ _ => none, fun _ => [], fun _ _ => 0, fun _ => true, fun _ => true⟩
  disk := fun _ => none
  opening := fun _ => .ok 1
  waiting := .keep
  saving := .keep
  analysing := fun _ => { Effect.keep with next := (· + 1), fails := nofun }
  loading := .keep
  running := .keep
  copying := none
  info := fun _ => .null
  reading := fun _ _ s => .ok .null (s.index, s.workflow_cache)
  mutating := fun _ _ => return .null

/-- A worker with a database of one function. -/
def oneFunction : AnyState ℕ :=
  .idalib ⟨⟨some 1, some "a.i64", 0, none, 0, fun _ => none⟩, false, [], none, .empty⟩

/-- A job that waits for the analysis changes the database that the analysis changes. -/
theorem background_keeps_database_iff_analysis :
    letI : Host := Host.ascii true
    let args : Json := .object [("action", "start"), ("method", "analyze_wait")]
    Tools.tool_jobs_start args idleBroker =
      .ok ("db-1", "analyze_wait", .object [], 600000) idleBroker ∧
    ∃ resp s', oneFunction.handle findingOne .bare ⟨1, "analyze_wait", .object []⟩ =
        .ok (resp, s') ∧
      (oneFunction.SameDatabase s' ↔ BackgroundIdle findingOne "analyze_wait" (.object [])
        oneFunction) ∧
      ¬BackgroundIdle findingOne "analyze_wait" (.object []) oneFunction := by
  let _ : Host := Host.ascii true
  intro args
  have hstart : Tools.tool_jobs_start args idleBroker =
    .ok ("db-1", "analyze_wait", .object [], 600000) idleBroker := rfl
  have hanswer : ∃ resp s', oneFunction.handle findingOne .bare
      ⟨1, "analyze_wait", .object []⟩ = .ok (resp, s') := ⟨_, _, rfl⟩
  obtain ⟨resp, s', h⟩ := hanswer
  refine ⟨hstart, resp, s', h, background_keeps_database_iff hstart h, fun hidle => ?_⟩
  have hsame : (2 : ℕ) = 1 := hidle (.read .analyzeWait) rfl 1 rfl
  cases hsame

/-- A job can shut the worker down. -/
theorem background_keeps_database_not :
    letI : Host := Host.ascii true
    ¬ ∀ (args params : Json) (b b' : Tools.Broker) (db method : String) (timeout : ℕ)
      (x : IdaEnv ℕ) (env : Env) (id : U64) (s s' : AnyState ℕ) (resp : WorkerResponse),
      Tools.tool_jobs_start args b = .ok (db, method, params, timeout) b' →
      s.handle x env ⟨id, method, params⟩ = .ok (resp, s') → s.SameDatabase s' := by
  let _ : Host := Host.ascii true
  intro h
  have hsame := h (.object [("action", "start"), ("method", "shutdown")]) (.object []) idleBroker
    idleBroker "db-1" "shutdown" 600000 findingOne .bare 1 (.mock .new)
      (.mock { WorkerState.new with closed := true }) _ rfl rfl
  exact absurd hsame.2 (by decide)

end Requests

end ReverseMcp
