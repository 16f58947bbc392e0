import ReverseMcp.Broker.Surface
import ReverseMcp.Worker.Guard

/-!
# What a tool asks of the workers

A tool call works on the one database that it names: it asks the worker of that database a few
requests, and may put a result into the store.  `Serves` says so of the broker: the worker of a
session has answered requests that the call can make, the sessions that the call asks nothing are
as before, and the store has taken steps of its own.

`manner` sorts the calls by what they can ask: only requests that read, also mutations that carry
the `expected_revision` of the call, snapshots, the analysis, or the requests that close a database.
-/

namespace ReverseMcp.Tools

open Rust Rust.Action

/-! ## Kinds of calls -/

/-- The method reads, and it is not one of the two that hand the database over to IDA, which adds
functions and names to it then. -/
def readsOnly : Method → Bool
  | .read .analyzeWait | .read .runPlugin => false
  | m => m.reads

lemma reads_of_readsOnly {m : Method} (h : readsOnly m = true) : m.reads = true := by
  unfold readsOnly at h
  split at h
  · cases h
  · cases h
  · exact h

/-- The worker only reads for the method. -/
def ReadsMethod (method : String) : Prop := ∃ m, Method.parse method = some m ∧ readsOnly m = true

/-- What a tool call can ask for. -/
inductive Manner where
  | reads
  /-- Also mutations with the revision that the call expects. -/
  | edits
  | snapshots
  | analyses
  | closes
deriving DecidableEq

/-- The call can make the request. -/
def Manner.Asks (args : Json) (method : String) (params : Json) : Manner → Prop
  | reads => ReadsMethod method
  | edits => ReadsMethod method ∨ (method ∈ guardedMethods ∧
      Json.opt (params.get "expected_revision") = .opt (args.get "expected_revision"))
  | snapshots => ReadsMethod method ∨ method = "snapshot.create" ∨ method = "snapshot.restore"
  | analyses => ReadsMethod method ∨ method = "analyze_wait"
  | closes => ReadsMethod method ∨ method = "db.close"

lemma ReadsMethod.asks {method : String} (h : ReadsMethod method) (m : Manner)
    (args params : Json) : m.Asks args method params := by
  cases m with
  | reads => exact h
  | edits => exact .inl h
  | snapshots => exact .inl h
  | analyses => exact .inl h
  | closes => exact .inl h

/-- Actions of which some edit. -/
def editsIn (actions : List String) (action : String) : Manner :=
  if action ∈ actions then .edits else .reads

/-- Actions of which one edits and some take or restore snapshots. -/
def editsOr (edit : String) (snapshots : List String) (action : String) : Manner :=
  if action = edit then .edits else if action ∈ snapshots then .snapshots else .reads

/-- The manner of a call, by its tool and its action or task. -/
def manner (name : String) (args : Json) : Manner :=
  let action := fun default => (arg_str args "action").getD default
  let task := fun default => (arg_str args "task").getD default
  match name with
  | "ida_bytes" => editsIn ["patch"] (action "get")
  | "ida_types" => editsIn ["set"] (action "get")
  | "ida_func" => editsIn ["create", "delete", "resize"] (action "tails")
  | "ida_hr" => editsIn ["lvar_rename"] (action "cfunc")
  | "ida_edit" => .edits
  | "ida_mutation" => editsOr "apply" ["snapshot", "rollback"] (action "plan")
  | "ida_deep" => editsIn ["retype"] (task "deep_function")
  | "ida_type_recovery" => editsIn ["create_struct"] (task "propose")
  | "ida_deobfuscate" => editsOr "apply" ["rollback"] (task "analyze")
  | "ida_analysis" => .analyses
  | "ida_db" => if action "info" = "close" then .closes else .reads
  | _ => .reads

/-! ## The broker behind a call -/

variable [Host]

/-- The worker of a session has answered requests that `A` allows. -/
structure Session.Serves (A : String → Json → Prop) (s s' : Session)
    (tr : List (WorkerEvent × WorkerState)) : Prop where
  run : Run WorkerStep s.worker tr
  worker : lastOf s.worker tr = s'.worker
  asked : ∀ p ∈ tr, A p.1.req.method p.1.req.params
  session : s'.session = s.session

/-- What a call does to the broker that asks the workers only what `A` allows. -/
structure Serves (A : String → String → Json → Prop) (b b' : Broker) : Prop where
  open_dbs : b'.open_dbs = b.open_dbs
  sessions : ∀ h s, b.session h = some s →
    ∃ s' tr, b'.session h = some s' ∧ s.Serves (A h) s' tr
  frame : ∀ h, (∀ method params, ¬ A h method params) → b'.session h = b.session h
  store : ∃ tr, Run StoreStep b.results tr ∧ lastOf b.results tr = b'.results

namespace Session.Serves

variable {A A' : String → Json → Prop} {s s' s'' : Session}
  {tr tr' : List (WorkerEvent × WorkerState)}

lemma refl (A : String → Json → Prop) (s : Session) : s.Serves A s [] :=
  ⟨.nil _, rfl, by simp, rfl⟩

lemma append (h : s.Serves A s' tr) (h' : s'.Serves A s'' tr') : s.Serves A s'' (tr ++ tr') where
  run := h.run.append (by rw [h.worker]; exact h'.run)
  worker := by rw [lastOf_append, h.worker, h'.worker]
  asked := fun p hp => (List.mem_append.mp hp).elim (h.asked p) (h'.asked p)
  session := h'.session.trans h.session

lemma imp (h : s.Serves A s' tr) (hA : ∀ m p, A m p → A' m p) : s.Serves A' s' tr :=
  ⟨h.run, h.worker, fun p hp => hA _ _ (h.asked p hp), h.session⟩

end Session.Serves

namespace Serves

variable {A A' : String → String → Json → Prop} {b b' b'' : Broker}

lemma refl (A : String → String → Json → Prop) (b : Broker) : Serves A b b where
  open_dbs := rfl
  sessions := fun _ s hs => ⟨s, [], hs, .refl _ s⟩
  frame := fun _ _ => rfl
  store := ⟨[], .nil _, rfl⟩

lemma trans (h : Serves A b b') (h' : Serves A b' b'') : Serves A b b'' where
  open_dbs := h'.open_dbs.trans h.open_dbs
  sessions := by
    intro db s hs
    obtain ⟨s', tr, hs', htr⟩ := h.sessions db s hs
    obtain ⟨s'', tr', hs'', htr'⟩ := h'.sessions db s' hs'
    exact ⟨s'', tr ++ tr', hs'', htr.append htr'⟩
  frame := fun db hA => (h'.frame db hA).trans (h.frame db hA)
  store := by
    obtain ⟨tr, hrun, hlast⟩ := h.store
    obtain ⟨tr', hrun', hlast'⟩ := h'.store
    exact ⟨tr ++ tr', hrun.append (hlast ▸ hrun'), by rw [lastOf_append, hlast, hlast']⟩

instance : Std.Refl (Serves A) := ⟨refl A⟩

instance : IsTrans Broker (Serves A) := ⟨fun _ _ _ => trans⟩

lemma imp (h : Serves A b b') (hA : ∀ db m p, A db m p → A' db m p) : Serves A' b b' where
  open_dbs := h.open_dbs
  sessions := by
    intro db s hs
    obtain ⟨s', tr, hs', htr⟩ := h.sessions db s hs
    exact ⟨s', tr, hs', htr.imp (hA db)⟩
  frame := fun db hnone => h.frame db fun m p hm => hnone m p (hA db m p hm)
  store := h.store

end Serves

/-! ## Sessions -/

section Sessions

variable {b : Broker} {db h : String} {s s' : Session}

omit [Host]

lemma session_setSession_self (hs : b.session db = some s) :
    (b.setSession db s').session db = some s' := by
  obtain ⟨e, he, -⟩ := Option.map_eq_some_iff.mp hs
  have hfind : ∀ l : List (String × Session), (l.find? fun e => e.1 = db) = some e →
      ((l.set (l.findIdx fun e => e.1 = db) (db, s')).find? fun e => e.1 = db) =
        some (db, s') := by
    intro l hl
    induction l with
    | nil => simp at hl
    | cons a l ih =>
      by_cases ha : a.1 = db
      · simp [List.findIdx_cons, ha]
      · rw [List.find?_cons_of_neg (by simpa using ha)] at hl
        simpa [List.findIdx_cons, ha] using ih hl
  rw [Broker.session, Broker.setSession, hfind _ he]
  rfl

lemma session_setSession_ne (hne : h ≠ db) : (b.setSession db s').session h = b.session h := by
  have hfind : ((b.sessions.set (b.sessions.findIdx fun e => e.1 = db) (db, s')).find?
      fun e => e.1 = h) = b.sessions.find? fun e => e.1 = h := by
    induction b.sessions with
    | nil => rfl
    | cons a l ih =>
      by_cases ha : a.1 = db
      · simp [List.findIdx_cons, ha, hne.symm]
      · by_cases hah : a.1 = h
        · subst hah
          simp [List.findIdx_cons, ha]
        · simpa [List.findIdx_cons, ha, hah] using ih
  rw [Broker.session, Broker.setSession, hfind, Broker.session]

end Sessions

/-! ## Calls -/

section Calls

variable {A : String → String → Json → Prop} {env : Env} {db method : String} {params : Json}

/-- A session that makes a call. -/
lemma Session.call_serves {A : String → Json → Prop} (hA : A method params) (s : Session) :
    ∃ tr, s.Serves A (s.call env method params).2 tr := by
  rw [Session.call]
  split
  · exact ⟨[], .refl A s⟩
  · split
    · exact ⟨[], .refl A s⟩
    · split
      · rename_i resp worker hh
        refine ⟨[(⟨env, ⟨0, method, params⟩, resp⟩, worker)], .cons hh (.nil _), rfl, ?_, rfl⟩
        simpa using hA
      · exact ⟨[], .nil _, rfl, by simp, rfl⟩

/-- One request of a worker. -/
lemma callWith_serves (hA : A db method params) :
    Keeps (Serves A) (callWith env db method params) := by
  intro b b' hleaves
  rw [callWith] at hleaves
  cases hs : b.session db with
  | none =>
    rw [hs] at hleaves
    obtain rfl := hleaves
    exact .refl A b
  | some s =>
    obtain ⟨tr, htr⟩ : ∃ tr, s.Serves (A db) (s.call env method params).2 tr :=
      Session.call_serves hA s
    have hset : b' = b.setSession db (s.call env method params).2 := by
      rw [hs] at hleaves
      dsimp only at hleaves
      split at hleaves
      · exact hleaves.symm
      · exact hleaves.symm
      · exact hleaves.elim
    subst hset
    refine ⟨rfl, fun h t ht => ?_, fun h hnone => ?_, [], .nil _, rfl⟩
    · by_cases hdb : h = db
      · subst hdb
        obtain rfl := Option.some.inj (hs.symm.trans ht)
        exact ⟨_, tr, session_setSession_self hs, htr⟩
      · exact ⟨t, [], (session_setSession_ne hdb).trans ht, .refl _ t⟩
    · exact session_setSession_ne fun hdb => hnone method params (hdb ▸ hA)

lemma call_serves {params : List (String × Json)} (hA : A db method (.object params)) :
    Keeps (Serves A) (call env db method params) :=
  call_eq env db method params ▸ callWith_serves hA

/-- The broker with another result store. -/
lemma serves_of_store {b : Broker} {results : StoreSystem}
    {tr : List (StoreEvent × StoreSystem)} (hrun : Run StoreStep b.results tr)
    (hlast : lastOf b.results tr = results) :
    Serves A b { b with results } :=
  ⟨rfl, fun _ s hs => ⟨s, [], hs, .refl _ s⟩, fun _ _ => rfl, tr, hrun, hlast⟩

lemma bound_output_serves (tool : String) (payload : Json) :
    Keeps (Serves A) (bound_output tool payload) := by
  intro b b' h
  have hstep : ∃ results e, StoreStep b.results e results ∧ b' = { b with results } := by
    rw [bound_output] at h
    dsimp only at h
    split at h
    · exact ⟨_, _, .put rfl, h.symm⟩
    · exact ⟨_, _, .put rfl, h.symm⟩
  obtain ⟨results, e, hstep, rfl⟩ := hstep
  exact serves_of_store (.cons hstep (.nil _)) rfl

lemma reject_serves {α : Type} (code message : String) :
    Keeps (Serves A) (reject code message : Tool α) := .lift _

lemma orReject_serves {α : Type} (message : String) (o : Option α) :
    Keeps (Serves A) (orReject message o) := by
  cases o with
  | none => exact reject_serves _ _
  | some a => exact .pure a

/-- What a call of the store with its new state leaves. -/
lemma onStore_serves {α : Type} {f : StoreSystem → Result α × ResultStore}
    (h : ∀ r, ∃ tr, Run StoreStep r tr ∧ lastOf r tr = { r with store := (f r).2 }) :
    Keeps (Serves A) (onStore f) := by
  intro b b' hleaves
  obtain ⟨tr, hrun, hlast⟩ := h b.results
  have hb' : b' = { b with results := { b.results with store := (f b.results).2 } } := by
    rw [onStore] at hleaves
    dsimp only at hleaves
    split at hleaves
    · exact hleaves.symm
    · exact hleaves.symm
    · exact hleaves.elim
  subst hb'
  exact serves_of_store hrun hlast

end Calls

/-! ## The tools -/

/-- The tool makes only such requests, and only of the database that the arguments name. -/
def Asking {α : Type} (asks : String → Json → Prop) (args : Json) (x : Tool α) : Prop :=
  ∀ b b', (x b).Leaves b' → Serves (fun db m p => Names args b db ∧ asks m p) b b'

section Tools

variable {env : Env} {args : Json}

/-- A tool resolves the handle and then works with it. -/
lemma asking_of_resolve {α : Type} {asks : String → Json → Prop} {body : String → Tool α}
    (h : ∀ db, Keeps (Serves fun db' m p => db' = db ∧ asks m p) (body db)) :
    Asking asks args (resolve_db (arg_str args "db") >>= body) := by
  intro b b' hleaves
  obtain ⟨e, he⟩ | ⟨db, b₁, hdb, hbody⟩ := Action.bind_leaves hleaves
  · have hsame : Keeps (Serves fun db m p => Names args b db ∧ asks m p)
        (resolve_db (arg_str args "db")) := by
      rw [resolve_db]
      refine Keeps.get.bind fun b => ?_
      split
      · split
        · exact .pure _
        · exact reject_serves _ _
      · split
        · exact .pure _
        · exact reject_serves _ _
      · exact reject_serves _ _
      · exact reject_serves _ _
    exact hsame.of_err he
  · obtain ⟨rfl, -, hnames⟩ := resolve_db_eq_ok hdb
    refine (h db _ _ hbody).imp ?_
    rintro db' m p ⟨rfl, hm⟩
    exact ⟨hnames, hm⟩

/-- A request of the worker whose database the tool has resolved. -/
lemma call_asks {asks : String → Json → Prop} {db method : String} {params : List (String × Json)}
    (h : asks method (.object params)) :
    Keeps (Serves fun db' m p => db' = db ∧ asks m p) (call env db method params) :=
  call_serves ⟨rfl, h⟩

lemma callWith_asks {asks : String → Json → Prop} {db method : String} {params : Json}
    (h : asks method params) :
    Keeps (Serves fun db' m p => db' = db ∧ asks m p) (callWith env db method params) :=
  callWith_serves ⟨rfl, h⟩

/-- So is one that reads, whatever the call is. -/
lemma call_reads_asks {m : Manner} {db method : String} {params : List (String × Json)}
    (h : ReadsMethod method) :
    Keeps (Serves fun db' method p => db' = db ∧ m.Asks args method p)
      (call env db method params) :=
  call_asks (h.asks m args _)

lemma tool_functions_asks : Asking (Manner.reads.Asks args) args (tool_functions env args) :=
  asking_of_resolve fun _ => (call_reads_asks ⟨_, rfl, rfl⟩).bind fun _ =>
    (bound_output_serves _ _).bind fun _ => .pure _

lemma tool_inspect_asks : Asking (Manner.reads.Asks args) args (tool_inspect env args) :=
  asking_of_resolve fun _ => (orReject_serves _ _).bind fun _ =>
    (call_reads_asks ⟨_, rfl, rfl⟩).bind fun _ => (call_reads_asks ⟨_, rfl, rfl⟩).bind fun _ =>
      (call_reads_asks ⟨_, rfl, rfl⟩).bind fun _ => .pure _

lemma tool_disassemble_asks : Asking (Manner.reads.Asks args) args (tool_disassemble env args) :=
  asking_of_resolve fun _ => (orReject_serves _ _).bind fun _ =>
    (call_reads_asks ⟨_, rfl, rfl⟩).bind fun _ => (bound_output_serves _ _).bind fun _ => .pure _

lemma tool_decompile_asks : Asking (Manner.reads.Asks args) args (tool_decompile env args) :=
  asking_of_resolve fun _ => (orReject_serves _ _).bind fun _ =>
    (call_reads_asks ⟨_, rfl, rfl⟩).bind fun _ => (bound_output_serves _ _).bind fun _ => .pure _

lemma tool_xrefs_asks : Asking (Manner.reads.Asks args) args (tool_xrefs env args) := by
  refine asking_of_resolve fun db => (orReject_serves _ _).bind fun ea => ?_
  refine Keeps.bind ?_ fun _ => (bound_output_serves _ _).bind fun _ => .pure _
  refine call_reads_asks ?_
  split
  · exact ⟨_, rfl, rfl⟩
  · exact ⟨_, rfl, rfl⟩

lemma tool_search_asks : Asking (Manner.reads.Asks args) args (tool_search env args) := by
  refine asking_of_resolve fun db => ?_
  dsimp only
  split
  · exact (orReject_serves _ _).bind fun _ => (call_reads_asks ⟨_, rfl, rfl⟩).bind fun _ =>
      (bound_output_serves _ _).bind fun _ => .pure _
  · exact (orReject_serves _ _).bind fun _ => (call_reads_asks ⟨_, rfl, rfl⟩).bind fun _ =>
      (bound_output_serves _ _).bind fun _ => .pure _

lemma tool_segments_asks : Asking (Manner.reads.Asks args) args (tool_segments env args) :=
  asking_of_resolve fun _ => (call_reads_asks ⟨_, rfl, rfl⟩).bind fun _ => .pure _

lemma tool_metadata_asks : Asking (Manner.reads.Asks args) args (tool_metadata env args) :=
  asking_of_resolve fun _ => (call_reads_asks ⟨_, rfl, rfl⟩).bind fun _ =>
    (bound_output_serves _ _).bind fun _ => .pure _

lemma tool_imports_asks : Asking (Manner.reads.Asks args) args (tool_imports env args) :=
  asking_of_resolve fun _ => (call_reads_asks ⟨_, rfl, rfl⟩).bind fun _ =>
    (bound_output_serves _ _).bind fun _ => .pure _

lemma tool_fixups_asks : Asking (Manner.reads.Asks args) args (tool_fixups env args) :=
  asking_of_resolve fun _ => (call_reads_asks ⟨_, rfl, rfl⟩).bind fun _ =>
    (bound_output_serves _ _).bind fun _ => .pure _

lemma tool_filemap_asks : Asking (Manner.reads.Asks args) args (tool_filemap env args) :=
  asking_of_resolve fun _ => (orReject_serves _ _).bind fun _ =>
    (call_reads_asks ⟨_, rfl, rfl⟩).bind fun _ => .pure _

lemma tool_value_asks : Asking (Manner.reads.Asks args) args (tool_value env args) :=
  asking_of_resolve fun _ => (orReject_serves _ _).bind fun _ =>
    (call_reads_asks ⟨_, rfl, rfl⟩).bind fun _ => (bound_output_serves _ _).bind fun _ => .pure _

lemma tool_insn_asks : Asking (Manner.reads.Asks args) args (tool_insn env args) := by
  refine asking_of_resolve fun db => ?_
  dsimp only
  split
  · exact (orReject_serves _ _).bind fun _ => (call_reads_asks ⟨_, rfl, rfl⟩).bind fun _ => .pure _
  · exact (orReject_serves _ _).bind fun _ => (call_reads_asks ⟨_, rfl, rfl⟩).bind fun _ => .pure _
  · exact (reject_serves _ _).bind fun _ => .pure _

/-- A mutation that carries the revision that the call expects. -/
lemma call_edits_asks {db method : String} {params : List (String × Json)}
    (h : method ∈ guardedMethods) (hp : Json.opt ((Json.object params).get "expected_revision") =
      .opt (args.get "expected_revision")) :
    Keeps (Serves fun db' method p => db' = db ∧ Manner.edits.Asks args method p)
      (call env db method params) :=
  call_asks (.inr ⟨h, hp⟩)

lemma tool_bytes_asks :
    Asking ((editsIn ["patch"] ((arg_str args "action").getD "get")).Asks args) args
      (tool_bytes env args) := by
  refine asking_of_resolve fun db => (orReject_serves _ _).bind fun ea => ?_
  generalize (arg_str args "action").getD "get" = action
  split
  · exact (orReject_serves _ _).bind fun _ =>
      (call_edits_asks (by decide) rfl).bind fun _ => .pure _
  · exact (call_reads_asks ⟨_, rfl, rfl⟩).bind fun _ => .pure _

lemma tool_types_asks :
    Asking ((editsIn ["set"] ((arg_str args "action").getD "get")).Asks args) args
      (tool_types env args) := by
  refine asking_of_resolve fun db => ?_
  generalize (arg_str args "action").getD "get" = action
  split
  · split
    · exact (orReject_serves _ _).bind fun _ =>
        (call_edits_asks (by decide) rfl).bind fun _ => .pure _
    · exact reject_serves _ _
  · exact (call_reads_asks ⟨_, rfl, rfl⟩).bind fun _ =>
      (bound_output_serves _ _).bind fun _ => .pure _
  · exact (call_reads_asks ⟨_, rfl, rfl⟩).bind fun _ =>
      (bound_output_serves _ _).bind fun _ => .pure _
  · exact reject_serves _ _

lemma tool_func_asks :
    Asking ((editsIn ["create", "delete", "resize"] ((arg_str args "action").getD "tails")).Asks
      args) args (tool_func env args) := by
  refine asking_of_resolve fun db => ?_
  dsimp only
  generalize (arg_str args "action").getD "tails" = action
  split
  · exact (orReject_serves _ _).bind fun _ => (call_reads_asks ⟨_, rfl, rfl⟩).bind fun _ => .pure _
  · exact (orReject_serves _ _).bind fun _ =>
      (call_edits_asks (by decide) rfl).bind fun _ => .pure _
  · exact (orReject_serves _ _).bind fun _ =>
      (call_edits_asks (by decide) rfl).bind fun _ => .pure _
  · exact (orReject_serves _ _).bind fun _ =>
      (call_edits_asks (by decide) rfl).bind fun _ => .pure _
  · exact (orReject_serves _ _).bind fun _ => (call_reads_asks ⟨_, rfl, rfl⟩).bind fun _ => .pure _
  · exact (orReject_serves _ _).bind fun _ => (call_reads_asks ⟨_, rfl, rfl⟩).bind fun _ => .pure _
  · exact (reject_serves _ _).bind fun _ => .pure _

lemma tool_hr_asks :
    Asking ((editsIn ["lvar_rename"] ((arg_str args "action").getD "cfunc")).Asks args) args
      (tool_hr env args) := by
  refine asking_of_resolve fun db => (orReject_serves _ _).bind fun ea => ?_
  generalize (arg_str args "action").getD "cfunc" = action
  split
  · exact (call_reads_asks ⟨_, rfl, rfl⟩).bind fun _ =>
      (bound_output_serves _ _).bind fun _ => .pure _
  · exact (orReject_serves _ _).bind fun _ => (orReject_serves _ _).bind fun _ =>
      (call_edits_asks (by decide) rfl).bind fun _ => .pure _
  · exact (call_reads_asks ⟨_, rfl, rfl⟩).bind fun _ =>
      (bound_output_serves _ _).bind fun _ => .pure _
  · exact reject_serves _ _

lemma tool_edit_asks : Asking (Manner.edits.Asks args) args (tool_edit env args) := by
  refine asking_of_resolve fun db => (orReject_serves _ _).bind fun ea => ?_
  split
  · exact (call_edits_asks (by decide) rfl).bind fun _ => .pure _
  · exact (call_edits_asks (by decide) rfl).bind fun _ => .pure _
  · exact reject_serves _ _

lemma tool_graph_asks : Asking (Manner.reads.Asks args) args (tool_graph env args) := by
  refine asking_of_resolve fun db => (orReject_serves _ _).bind fun ea => ?_
  dsimp only
  split
  · exact (call_reads_asks ⟨_, rfl, rfl⟩).bind fun _ =>
      (bound_output_serves _ _).bind fun _ => .pure _
  · exact (call_reads_asks ⟨_, rfl, rfl⟩).bind fun _ =>
      (bound_output_serves _ _).bind fun _ => .pure _
  · exact (reject_serves _ _).bind fun _ => (call_reads_asks ⟨_, rfl, rfl⟩).bind fun _ =>
      (bound_output_serves _ _).bind fun _ => .pure _

lemma tool_analysis_asks : Asking (Manner.analyses.Asks args) args (tool_analysis env args) :=
  asking_of_resolve fun _ => (call_asks (.inr rfl)).bind fun _ => .pure _

lemma tool_capabilities_asks : Asking (Manner.reads.Asks args) args (tool_capabilities env args) :=
  asking_of_resolve fun _ => (call_reads_asks ⟨_, rfl, rfl⟩).bind fun _ =>
    (call_reads_asks ⟨_, rfl, rfl⟩).bind fun _ => Keeps.get.bind fun _ => .pure _

lemma tool_mutation_asks :
    Asking ((editsOr "apply" ["snapshot", "rollback"] ((arg_str args "action").getD "plan")).Asks
      args) args (tool_mutation env args) := by
  refine asking_of_resolve fun db => ?_
  dsimp only
  generalize (arg_str args "action").getD "plan" = action
  split
  · exact (orReject_serves _ _).bind fun _ => (call_reads_asks ⟨_, rfl, rfl⟩).bind fun _ => .pure _
  · exact (orReject_serves _ _).bind fun _ =>
      (call_edits_asks (by decide) rfl).bind fun _ => .pure _
  · exact (call_reads_asks ⟨_, rfl, rfl⟩).bind fun _ => .pure _
  · exact (call_asks (.inr (.inl rfl))).bind fun _ => .pure _
  · exact (call_asks (.inr (.inr rfl))).bind fun _ => .pure _
  · exact (reject_serves _ _).bind fun _ => .pure _

lemma tool_analyze_asks : Asking (Manner.reads.Asks args) args (tool_analyze env args) :=
  asking_of_resolve fun _ => (call_reads_asks ⟨_, rfl, rfl⟩).bind fun _ => .pure _

/-- A tool that passes its arguments on. -/
lemma taskTool_asks {default tasks key : String} {method : String → Option String}
    {m : String → Manner} (h : ∀ task k, method task = some k → (m task).Asks args k args) :
    Asking ((m ((arg_str args "task").getD default)).Asks args) args
      (taskTool env args default method tasks key) := by
  refine asking_of_resolve fun db => ?_
  generalize (arg_str args "task").getD default = task
  dsimp only
  split
  · rename_i k hk
    exact (callWith_asks (h task k hk)).bind fun _ => .pure _
  · exact .lift _

lemma tool_deep_asks :
    Asking ((editsIn ["retype"] ((arg_str args "task").getD "deep_function")).Asks args) args
      (tool_deep env args) := by
  refine taskTool_asks fun task k hk => ?_
  unfold deepMethod at hk
  split at hk
  · obtain rfl := Option.some.inj hk
    exact ReadsMethod.asks ⟨_, rfl, rfl⟩ _ _ _
  · obtain rfl := Option.some.inj hk
    exact ReadsMethod.asks ⟨_, rfl, rfl⟩ _ _ _
  · obtain rfl := Option.some.inj hk
    exact .inr ⟨by decide, rfl⟩
  · cases hk

lemma tool_type_recovery_asks :
    Asking ((editsIn ["create_struct"] ((arg_str args "task").getD "propose")).Asks args) args
      (tool_type_recovery env args) := by
  refine taskTool_asks fun task k hk => ?_
  unfold typeRecoveryMethod at hk
  split at hk
  · obtain rfl := Option.some.inj hk
    exact ReadsMethod.asks ⟨_, rfl, rfl⟩ _ _ _
  · obtain rfl := Option.some.inj hk
    exact ReadsMethod.asks ⟨_, rfl, rfl⟩ _ _ _
  · obtain rfl := Option.some.inj hk
    exact ReadsMethod.asks ⟨_, rfl, rfl⟩ _ _ _
  · obtain rfl := Option.some.inj hk
    exact .inr ⟨by decide, rfl⟩
  · cases hk

lemma tool_intel_asks : Asking (Manner.reads.Asks args) args (tool_intel env args) := by
  refine taskTool_asks (m := fun _ => .reads) fun task k hk => ?_
  unfold intelMethod at hk
  split at hk
  all_goals first
    | obtain rfl := Option.some.inj hk; exact ⟨_, rfl, rfl⟩
    | cases hk

lemma tool_sig_asks : Asking (Manner.reads.Asks args) args (tool_sig env args) := by
  refine taskTool_asks (m := fun _ => .reads) fun task k hk => ?_
  unfold sigMethod at hk
  split at hk
  all_goals first
    | obtain rfl := Option.some.inj hk; exact ⟨_, rfl, rfl⟩
    | cases hk

lemma tool_deobfuscate_asks :
    Asking ((editsOr "apply" ["rollback"] ((arg_str args "task").getD "analyze")).Asks args) args
      (tool_deobfuscate env args) := by
  refine asking_of_resolve fun db => ?_
  dsimp only
  generalize (arg_str args "task").getD "analyze" = task
  split
  · exact (callWith_asks (ReadsMethod.asks ⟨_, rfl, rfl⟩ _ _ _)).bind fun _ => .pure _
  · exact (callWith_asks (ReadsMethod.asks ⟨_, rfl, rfl⟩ _ _ _)).bind fun _ => .pure _
  · exact (orReject_serves _ _).bind fun _ => (call_reads_asks ⟨_, rfl, rfl⟩).bind fun _ => .pure _
  · exact (orReject_serves _ _).bind fun _ =>
      (call_edits_asks (by decide) rfl).bind fun _ => .pure _
  · exact (call_asks (.inr (.inr rfl))).bind fun _ => .pure _
  · exact (reject_serves _ _).bind fun _ => .pure _

lemma tool_evidence_asks : Asking (Manner.reads.Asks args) args (tool_evidence env args) := by
  refine asking_of_resolve fun db => ?_
  dsimp only
  split
  · exact (call_reads_asks ⟨_, rfl, rfl⟩).bind fun _ => .pure _
  · exact (call_reads_asks ⟨_, rfl, rfl⟩).bind fun _ => .pure _
  · exact (orReject_serves _ _).bind fun _ => (call_reads_asks ⟨_, rfl, rfl⟩).bind fun _ => .pure _
  · exact (reject_serves _ _).bind fun _ => .pure _

lemma tool_db_info_asks : Asking (Manner.reads.Asks args) args (tool_db_info env args) :=
  asking_of_resolve fun _ => (call_reads_asks ⟨_, rfl, rfl⟩).bind fun _ =>
    (bound_output_serves _ _).bind fun _ => .pure _

lemma tool_db_save_asks : Asking (Manner.reads.Asks args) args (tool_db_save env args) :=
  asking_of_resolve fun _ => (call_reads_asks ⟨_, rfl, rfl⟩).bind fun _ => .pure _

end Tools

end ReverseMcp.Tools
