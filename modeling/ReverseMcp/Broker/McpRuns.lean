import ReverseMcp.Broker.Registry
import ReverseMcp.Worker.LostUpdates

/-!
# Runs of calls

The broker as a system: agents call tools and read resources, jobs make requests of the workers, the
janitor and the clock move the result store, and workers exit.  The level below has the workers,
each with the mock backend and the requests that it answers, and the calls are runs of it:

* `calls_are_worker_runs` – whatever is called in whatever order, the worker of a database that
  stays open goes through a run of requests, those that the calls ask of this database;
* `one_call_per_revision` – of all the calls that carry one `expected_revision`, at most one changes
  the database;
* `quiet_calls` – calls that only read, or that carry a stale revision, change no database that they
  work on.
-/

namespace ReverseMcp.Tools

open Rust Rust.Action

/-! ## Calls -/

/-- What can happen to the broker. -/
inductive McpCall where
  | tool (o : Outside) (name : String) (args : Json)
  | resource (env : Env) (uri : String)
  /-- A request of a background job, or of a tool that the registry has not. -/
  | request (env : Env) (db method : String) (params : Json)
  | store (e : StoreEvent)
  | exit (db : String)

/-- The session of a worker that has exited, and that the monitor has marked. -/
def Session.crash (s : Session) : Session :=
  { session := s.session.mark_crashed, pumping := false, worker := s.worker,
    senderless := fun _ => rfl }

section Host

variable [Host]

namespace McpCall

/-- The call leads from one state of the broker to another. -/
def Leads (b b' : Broker) : McpCall → Prop
  | tool o name args => o.Fits b ∧ ∃ x, registry_call o name args = some x ∧ (x b).Leaves b'
  | resource env uri => (read env uri b).Leaves b'
  | request env db method params => (callWith env db method params b).Leaves b'
  | store e => ∃ results, StoreStep b.results e results ∧ b' = { b with results }
  | exit db => ∃ s, b.session db = some s ∧ b' = b.setSession db s.crash

omit [Host] in
/-- The call can make the request of a database. -/
def Asks (b : Broker) (db method : String) (params : Json) : McpCall → Prop
  | tool _ name args =>
    if name = "ida_batch" then BatchAsks (batchOps args) b db method params
    else Names args b db ∧ (manner name args).Asks args method params
  | resource _ uri => (∃ kind, splitUri uri = .ok (db, kind)) ∧ ReadsMethod method
  | request _ db' method' params' => db = db' ∧ method = method' ∧ params = params'
  | store _ => False
  | exit _ => False

end McpCall

/-- A call, with what each worker answers during it. -/
structure McpEvent where
  call : McpCall
  served : String → List (WorkerEvent × WorkerState)

/-- The workers of the databases that stay open have answered what was served, and nothing else was
served than the call asks. -/
structure Follows (asks : String → String → Json → Prop)
    (served : String → List (WorkerEvent × WorkerState)) (b b' : Broker) : Prop where
  run : ∀ db s s', b.session db = some s → b'.session db = some s' →
    Run WorkerStep s.worker (served db) ∧ lastOf s.worker (served db) = s'.worker
  asked : ∀ db, ∀ p ∈ served db, asks db p.1.req.method p.1.req.params

/-- A step of the broker with its workers. -/
def McpStep (b : Broker) (e : McpEvent) (b' : Broker) : Prop :=
  e.call.Leads b b' ∧ Follows (e.call.Asks b) e.served b b'

/-- A step of the broker. -/
def CallStep (b : Broker) (c : McpCall) (b' : Broker) : Prop := c.Leads b b'

section Follows

variable {asks : String → String → Json → Prop} {b b' b'' : Broker}

lemma Serves.follows (h : Serves asks b b') : ∃ served, Follows asks served b b' := by
  have htrace : ∀ db, ∃ tr : List (WorkerEvent × WorkerState),
      (∀ s s', b.session db = some s → b'.session db = some s' →
        Run WorkerStep s.worker tr ∧ lastOf s.worker tr = s'.worker) ∧
      ∀ p ∈ tr, asks db p.1.req.method p.1.req.params := by
    intro db
    cases hs : b.session db with
    | none => exact ⟨[], by simp, by simp⟩
    | some s =>
      obtain ⟨s', tr, hs', htr⟩ := h.sessions db s hs
      refine ⟨tr, ?_, htr.asked⟩
      intro t t' ht ht'
      obtain rfl := Option.some.inj ht
      obtain rfl := Option.some.inj (hs'.symm.trans ht')
      exact ⟨htr.run, htr.worker⟩
  choose served hrun hasked using htrace
  exact ⟨served, hrun, hasked⟩

/-- Nothing happened to the workers. -/
lemma follows_nothing (h : ∀ db s s', b.session db = some s → b'.session db = some s' →
    s'.worker = s.worker) : Follows asks (fun _ => []) b b' where
  run := fun db s s' hs hs' => ⟨.nil _, (h db s s' hs hs').symm⟩
  asked := by simp

lemma Follows.imp {asks' : String → String → Json → Prop}
    {served : String → List (WorkerEvent × WorkerState)} (h : Follows asks served b b')
    (hasks : ∀ db m p, asks db m p → asks' db m p) : Follows asks' served b b' :=
  ⟨h.run, fun db p hp => hasks _ _ _ (h.asked db p hp)⟩

end Follows

omit [Host] in
/-- A new session is found under its handle, which was not in use. -/
lemma session_append {b : Broker} {p : String × Session} {open_dbs : List (String × String)}
    (hfresh : b.session p.1 = none) (db : String) :
    ({ b with sessions := b.sessions ++ [p], open_dbs } : Broker).session db =
      if db = p.1 then some p.2 else b.session db := by
  rw [Broker.session, List.find?_append]
  split
  · rename_i hdb
    subst hdb
    rw [Broker.session, Option.map_eq_none_iff] at hfresh
    simp [hfresh]
  · rename_i hdb
    have hp : ([p].find? fun e => e.1 = db) = none := by simpa using Ne.symm hdb
    rw [hp, Option.or_none, Broker.session]

omit [Host] in
/-- A session that was dropped is not found any more. -/
lemma session_filter {b : Broker} {gone : String} {open_dbs : List (String × String)}
    (db : String) :
    ({ b with sessions := b.sessions.filter fun e => e.1 ≠ gone, open_dbs } : Broker).session db =
      if db = gone then none else b.session db := by
  rw [Broker.session, List.find?_filter]
  split
  · rename_i hdb
    subst hdb
    simp
  · rename_i hdb
    rw [Broker.session]
    congr 2
    funext e
    by_cases he : e.1 = db
    · simp [he, hdb]
    · simp [he]

/-- Opening and closing a database, and what `ida_db` reads. -/
lemma tool_db_follows {o : Outside} {args : Json} {b b' : Broker} (hfits : o.Fits b)
    (h : (tool_db (o.env 0) o.spawned args b).Leaves b') :
    ∃ served, Follows ((McpCall.tool o "ida_db" args).Asks b) served b b' := by
  have hasks : ∀ {m : Manner} {db method : String} {params : Json},
      manner "ida_db" args = m → Names args b db ∧ m.Asks args method params →
      (McpCall.tool o "ida_db" args).Asks b db method params := by
    rintro m db method params rfl hm
    simpa [McpCall.Asks] using hm
  by_cases hopen : (arg_str args "action").getD "info" = "open"
  · simp only [tool_db, hopen] at h
    obtain rfl | ⟨p, path, hp, hserves⟩ := tool_db_open_leaves h
    · exact ⟨fun _ => [], follows_nothing fun db s s' hs hs' => by
        obtain rfl := Option.some.inj (hs.symm.trans hs')
        rfl⟩
    · -- only the new session has been asked
      refine ⟨fun _ => [], follows_nothing fun db s s' hs hs' => ?_⟩
      have hne : db ≠ p.1 := by
        rintro rfl
        rw [hfits.fresh p hp] at hs
        cases hs
      rw [hserves.frame db fun m q hm => hne hm.1, session_append (hfits.fresh p hp),
        if_neg hne] at hs'
      obtain rfl := Option.some.inj (hs.symm.trans hs')
      rfl
  · by_cases hclose : (arg_str args "action").getD "info" = "close"
    · simp only [tool_db, hclose] at h
      have hmanner : manner "ida_db" args = .closes := if_pos hclose
      obtain ⟨b₁, hserves, hb'⟩ := tool_db_close_leaves h
      obtain ⟨served, hserved⟩ := (hserves.imp fun _ _ _ => hasks hmanner).follows
      rcases hb' with rfl | ⟨gone, -, rfl⟩
      · exact ⟨served, hserved⟩
      · refine ⟨served, fun db s s' hs hs' => ?_, hserved.asked⟩
        rw [session_filter] at hs'
        split at hs'
        · cases hs'
        · exact hserved.run db s s' hs hs'
    · have hmanner : manner "ida_db" args = .reads := if_neg hclose
      obtain ⟨served, hserved⟩ := (tool_db_asks hopen hclose b b' h).follows
      exact ⟨served, hserved.imp fun _ _ _ => hasks hmanner⟩

/-- Every call can be followed on the workers. -/
theorem McpCall.Leads.follows {b b' : Broker} {c : McpCall} (h : c.Leads b b') :
    ∃ served, Follows (c.Asks b) served b b' := by
  cases c with
  | tool o name args =>
    obtain ⟨hfits, x, hx, hleaves⟩ := h
    by_cases hbatch : name = "ida_batch"
    · subst hbatch
      obtain rfl := Option.some.inj hx
      obtain ⟨served, hserved⟩ := (tool_batch_asks hleaves).follows
      exact ⟨served, hserved.imp fun _ _ _ hm => by simpa [Asks] using hm⟩
    · by_cases hdb : name = "ida_db"
      · subst hdb
        obtain rfl := Option.some.inj hx
        exact tool_db_follows hfits hleaves
      · obtain ⟨served, hserved⟩ := (registry_call_asks hx hbatch hdb b b' hleaves).follows
        exact ⟨served, hserved.imp fun _ _ _ hm => by simpa [Asks, hbatch] using hm⟩
  | resource env uri => exact (read_asks h).follows
  | request env db method params => exact (callWith_serves ⟨rfl, rfl, rfl⟩ _ _ h).follows
  | store e =>
    obtain ⟨results, -, rfl⟩ := h
    refine ⟨fun _ => [], follows_nothing fun db s s' hs hs' => ?_⟩
    obtain rfl := Option.some.inj (hs.symm.trans hs')
    rfl
  | exit db =>
    obtain ⟨t, ht, rfl⟩ := h
    refine ⟨fun _ => [], follows_nothing fun h s s' hs hs' => ?_⟩
    by_cases hdb : h = db
    · subst hdb
      rw [session_setSession_self ht] at hs'
      obtain rfl := Option.some.inj hs'
      obtain rfl := Option.some.inj (ht.symm.trans hs)
      rfl
    · rw [session_setSession_ne hdb] at hs'
      obtain rfl := Option.some.inj (hs.symm.trans hs')
      rfl

/-! ## The runs of the workers -/

/-- A run of calls can be followed on the workers. -/
lemma exists_served {b : Broker} {ctr : List (McpCall × Broker)} (h : Run CallStep b ctr) :
    ∃ tr : List (McpEvent × Broker),
      tr.map (fun p => (p.1.call, p.2)) = ctr ∧ Run McpStep b tr := by
  induction h with
  | nil b => exact ⟨[], rfl, .nil b⟩
  | @cons b b' c ctr hs _ ih =>
    obtain ⟨tr, rfl, hrun⟩ := ih
    obtain ⟨served, hserved⟩ := McpCall.Leads.follows hs
    exact ⟨(⟨c, served⟩, b') :: tr, rfl, .cons ⟨hs, hserved⟩ hrun⟩

omit [Host] in
lemma statesOf_calls (b : Broker) (tr : List (McpEvent × Broker)) :
    statesOf b (tr.map fun p => (p.1.call, p.2)) = statesOf b tr := by
  simp [statesOf, Function.comp_def]

/-- The calls of a run. -/
lemma calls_run {b : Broker} {tr : List (McpEvent × Broker)} (h : Run McpStep b tr) :
    Run CallStep b (tr.map fun p => (p.1.call, p.2)) := by
  induction h with
  | nil b => exact .nil b
  | cons hs _ ih => exact .cons hs.1 ih

/-- What the worker of a database that stays open has answered in a run. -/
lemma worker_run {b : Broker} {tr : List (McpEvent × Broker)} (h : Run McpStep b tr) {db : String}
    (hopen : ∀ t ∈ statesOf b tr, (t.session db).isSome) {s : Session}
    (hs : b.session db = some s) :
    ∃ s', (lastOf b tr).session db = some s' ∧
      Run WorkerStep s.worker (tr.flatMap fun p => p.1.served db) ∧
      lastOf s.worker (tr.flatMap fun p => p.1.served db) = s'.worker := by
  induction h generalizing s with
  | nil b => exact ⟨s, hs, .nil _, rfl⟩
  | @cons b b' e tr hstep _ ih =>
    have htail : ∀ t ∈ statesOf b' tr, (t.session db).isSome :=
      fun t ht => hopen t (List.mem_cons_of_mem b ht)
    obtain ⟨s₁, hs₁⟩ := Option.isSome_iff_exists.mp (htail b' (by simp [statesOf]))
    obtain ⟨hfirst, hlast⟩ := hstep.2.run db s s₁ hs hs₁
    obtain ⟨s', hs', hrest, hlast'⟩ := ih htail hs₁
    refine ⟨s', hs', ?_, ?_⟩
    · exact hfirst.append (by rw [hlast]; exact hrest)
    · rw [List.flatMap_cons, lastOf_append, hlast, hlast']

/-- Whatever is called in whatever order: the calls can be followed on the workers, and the worker
of a database that stays open goes through a run of the requests that the calls ask of it. -/
theorem calls_are_worker_runs {b : Broker} {ctr : List (McpCall × Broker)}
    (h : Run CallStep b ctr) :
    ∃ tr : List (McpEvent × Broker), tr.map (fun p => (p.1.call, p.2)) = ctr ∧ Run McpStep b tr ∧
      ∀ db s, b.session db = some s → (∀ t ∈ statesOf b ctr, (t.session db).isSome) →
        ∃ s', (lastOf b tr).session db = some s' ∧
          Run WorkerStep s.worker (tr.flatMap fun p => p.1.served db) ∧
          lastOf s.worker (tr.flatMap fun p => p.1.served db) = s'.worker := by
  obtain ⟨tr, rfl, hrun⟩ := exists_served h
  refine ⟨tr, rfl, hrun, fun db s hs hopen => worker_run hrun ?_ hs⟩
  rwa [statesOf_calls] at hopen

/-! ## Calls that change nothing -/

omit [Host] in
/-- The revision of the database behind a handle, below every revision when there is none. -/
def Broker.version (b : Broker) (db : String) : WithBot U64 :=
  ((b.session db).map fun s => s.worker.version).getD ⊥

omit [Host] in
/-- What the database behind a handle says. -/
def Broker.content (b : Broker) (db : String) : Option Content :=
  (b.session db).bind fun s => s.worker.content

namespace McpCall

omit [Host] in
/-- The revision that all mutations of a call carry. -/
def expected : McpCall → Option (WithBot U64)
  | tool _ name args =>
    if name ≠ "ida_batch" ∧ manner name args = .edits then
      ((args.get "expected_revision").bind Json.asU64).map WithBot.some
    else none
  | _ => none

omit [Host] in
/-- The call asks the workers only to read. -/
def Reads : McpCall → Prop
  | tool _ name args =>
    if name = "ida_batch" then
      ∀ op ∈ batchOps args, manner (opTool op) (opArgs op) = .reads
    else manner name args = .reads
  | resource _ _ => True
  | request _ _ method _ => ReadsMethod method
  | store _ => True
  | exit _ => True

omit [Host] in
/-- The call only reads, or the revision that it expects of a database is not the current one. -/
def Quiet (db : String) (b : Broker) (c : McpCall) : Prop :=
  c.Reads ∨ ∃ r, c.expected = some r ∧ b.version db ≠ r

end McpCall

section Quiet

variable {b b' : Broker} {c : McpCall} {db method : String} {params : Json} {r : WithBot U64}

omit [Host] in
/-- What a call that only reads asks. -/
lemma McpCall.Reads.asks (h : c.Reads) (hasks : c.Asks b db method params) :
    ReadsMethod method := by
  cases c with
  | tool o name args =>
    simp only [Reads, Asks] at h hasks
    split at hasks
    · rename_i hbatch
      rw [if_pos hbatch] at h
      obtain ⟨op, hop, -, hm⟩ := hasks
      rw [h op hop] at hm
      exact hm
    · rename_i hbatch
      rw [if_neg hbatch] at h
      rw [h] at hasks
      exact hasks.2
  | resource env uri => exact hasks.2
  | request env db' method' params' =>
    obtain ⟨-, rfl, -⟩ := hasks
    exact h
  | store e => exact hasks.elim
  | exit db => exact hasks.elim

omit [Host] in
lemma bind_asU64_opt (o : Option Json) : o.bind Json.asU64 = (Json.opt o).asU64 := by
  cases o with
  | none => rfl
  | some v => rfl

omit [Host] in
/-- What a call that carries a revision asks. -/
lemma McpCall.asks_of_expected (h : c.expected = some r) {req : WorkerRequest}
    (hasks : c.Asks b db req.method req.params) :
    ReadsMethod req.method ∨ req.expected = some r := by
  cases c with
  | tool o name args =>
    simp only [expected] at h
    split at h
    · rename_i hedits
      simp only [Asks, if_neg hedits.1, hedits.2] at hasks
      refine hasks.2.imp id fun hguarded => ?_
      rw [WorkerRequest.expected, if_pos hguarded.1, bind_asU64_opt, hguarded.2, ← bind_asU64_opt]
      exact h
    · cases h
  | _ => cases h

/-- A run of requests that read or carry a revision that is not the current one. -/
lemma unchanged_of_stale {s : WorkerState} {tr : List (WorkerEvent × WorkerState)}
    (h : Run WorkerStep s tr) (hr : s.version ≠ r)
    (hall : ∀ p ∈ tr, ReadsMethod p.1.req.method ∨ p.1.req.expected = some r) :
    Unchanged s (lastOf s tr) := by
  induction h with
  | nil s => exact ⟨rfl, rfl⟩
  | @cons s s' e tr hs _ ih =>
    have hstep : Unchanged s s' := by
      obtain ⟨m, hm, hreads⟩ | hexpected := hall (e, s') List.mem_cons_self
      · exact hs.unchanged_of_reads hm (reads_of_readsOnly hreads)
      · exact hs.unchanged_of_stale hexpected hr
    have hrest := ih (by rw [hstep.version]; exact hr) fun p hp =>
      hall p (List.mem_cons_of_mem _ hp)
    exact ⟨hrest.1.trans hstep.1, hrest.2.trans hstep.2⟩

/-- A run of requests that read. -/
lemma unchanged_of_reads {s : WorkerState} {tr : List (WorkerEvent × WorkerState)}
    (h : Run WorkerStep s tr) (hall : ∀ p ∈ tr, ReadsMethod p.1.req.method) :
    Unchanged s (lastOf s tr) := by
  induction h with
  | nil s => exact ⟨rfl, rfl⟩
  | @cons s s' e tr hs _ ih =>
    obtain ⟨m, hm, hreads⟩ := hall (e, s') List.mem_cons_self
    have hstep := hs.unchanged_of_reads hm (reads_of_readsOnly hreads)
    have hrest := ih fun p hp => hall p (List.mem_cons_of_mem _ hp)
    exact ⟨hrest.1.trans hstep.1, hrest.2.trans hstep.2⟩

/-- A quiet call on the worker of a database that stays open. -/
lemma McpCall.Quiet.unchanged (hquiet : c.Quiet db b) (h : c.Leads b b') {s s' : Session}
    (hs : b.session db = some s) (hs' : b'.session db = some s') :
    Unchanged s.worker s'.worker := by
  obtain ⟨served, hserved⟩ := h.follows
  obtain ⟨hrun, hlast⟩ := hserved.run db s s' hs hs'
  rw [← hlast]
  rcases hquiet with hreads | ⟨r, hr, hstale⟩
  · exact unchanged_of_reads hrun fun p hp => hreads.asks (hserved.asked db p hp)
  · have hversion : s.worker.version ≠ r := by rwa [Broker.version, hs] at hstale
    exact unchanged_of_stale hrun hversion fun p hp =>
      asks_of_expected hr (hserved.asked db p hp)

/-- Calls that only read, or that carry a revision that is not the current one, leave a database as
it was, whatever tools they call: its names, comments and bytes, its snapshots, its revision and the
audit trail. -/
theorem quiet_calls {b : Broker} {ctr : List (McpCall × Broker)} (h : Run CallStep b ctr)
    (hquiet : Along (fun b c => c.Quiet db b) b ctr) {s : Session} (hs : b.session db = some s)
    (hopen : ∀ t ∈ statesOf b ctr, (t.session db).isSome) :
    ∀ t ∈ statesOf b ctr, ∃ s', t.session db = some s' ∧ Unchanged s.worker s'.worker := by
  induction h generalizing s with
  | nil b =>
    intro t ht
    obtain rfl := List.mem_singleton.mp ht
    exact ⟨s, hs, rfl, rfl⟩
  | @cons b b' c tr hstep _ ih =>
    have htail : ∀ t ∈ statesOf b' tr, (t.session db).isSome :=
      fun t ht => hopen t (List.mem_cons_of_mem b ht)
    obtain ⟨s₁, hs₁⟩ := Option.isSome_iff_exists.mp (htail b' (by simp [statesOf]))
    have hfirst := hquiet.1.unchanged hstep hs hs₁
    intro t ht
    rcases List.mem_cons.mp ht with rfl | ht
    · exact ⟨s, hs, rfl, rfl⟩
    · obtain ⟨s', hs', hrest⟩ := ih hquiet.2 hs₁ htail t ht
      exact ⟨s', hs', hrest.1.trans hfirst.1, hrest.2.trans hfirst.2⟩

end Quiet

/-! ## Calls that carry a revision -/

section Revisions

variable {b b' : Broker} {e : McpEvent} {db : String}

/-- What a worker serves leads to a newer state. -/
def Ordered (db : String) (b : Broker) (e : McpEvent) : Prop :=
  ∀ s ∈ b.session db, Along Guardable s.worker (e.served db)

lemma McpStep.newer (h : McpStep b e b') (hC : Ordered db b e) {s s' : Session}
    (hs : b.session db = some s) (hs' : b'.session db = some s') :
    Newer (fun b => b.version db) (fun b => b.content db) b b' := by
  obtain ⟨hrun, hlast⟩ := h.2.run db s s' hs hs'
  obtain ⟨-, hnewer⟩ := hrun.newer_between (hC s hs) (fun _ _ _ => WorkerStep.newer) s.worker
    (by simp [statesOf])
  rw [hlast] at hnewer
  constructor
  · simpa [Broker.version, hs, hs'] using hnewer.le
  · simpa [Broker.version, Broker.content, hs, hs'] using hnewer.same

/-- Of all the calls that carry one `expected_revision`, sent by whoever and in whatever order, with
any other calls in between, at most one changes a database that stays open. -/
theorem one_call_per_revision {b : Broker} {tr : List (McpEvent × Broker)} (h : Run McpStep b tr)
    (hC : Along (Ordered db) b tr) (hopen : ∀ t ∈ statesOf b tr, (t.session db).isSome)
    (r : WithBot U64) :
    ((transitions b tr).filter (Wins (fun e : McpEvent => e.call.expected)
      (fun b : Broker => b.content db) r)).length ≤ 1 := by
  have hnewer : ∀ (b : Broker) (e : McpEvent) (b' : Broker),
      (McpStep b e b' ∧ (b.session db).isSome ∧ (b'.session db).isSome) → Ordered db b e →
      Newer (fun b : Broker => b.version db) (fun b => b.content db) b b' := by
    rintro b e b' ⟨hstep, hb, hb'⟩ hC
    obtain ⟨s, hs⟩ := Option.isSome_iff_exists.mp hb
    obtain ⟨s', hs'⟩ := Option.isSome_iff_exists.mp hb'
    exact hstep.newer hC hs hs'
  refine (h.restrict hopen).one_winner hC hnewer ?_
  rintro b e b' ⟨hstep, hb, hb'⟩ - hr hstale
  obtain ⟨s, hs⟩ := Option.isSome_iff_exists.mp hb
  obtain ⟨s', hs'⟩ := Option.isSome_iff_exists.mp hb'
  have hquiet : e.call.Quiet db b := .inr ⟨r, hr, hstale⟩
  simpa [Broker.content, hs, hs'] using (hquiet.unchanged hstep.1 hs hs').content

end Revisions

/-! ## Two agents -/

omit [Host] in
/-- An agent renames `main` as long as the revision is 0. -/
def rivalCall (name : String) : McpCall :=
  .tool ⟨fun _ => .bare, fail "no worker", [], .blank⟩ "ida_edit" (.object [("ea", .nat 0x401000),
    ("rename", .string name), ("expected_revision", .nat 0)])

omit [Host] in
/-- What the call asks of the worker. -/
def rivalRequest (name : String) : WorkerRequest :=
  ⟨0, "rename", .object [("ea", .nat 0x401000), ("name", .string name),
    ("expected_revision", .nat 0)]⟩

omit [Host] in
/-- The call with what the worker answers to it. -/
def rivalEvent (name : String) (answer : ReverseMcp.WorkerResponse × WorkerState) : McpEvent :=
  ⟨rivalCall name, fun db =>
    if db = "db-1" then [(⟨.bare, rivalRequest name, answer.1⟩, answer.2)] else []⟩

omit [Host] in
/-- The session behind a request that the worker has answered. -/
def Session.answered (s : Session) (w : WorkerState) : Session :=
  { s with worker := w, pumping := !w.closed }

/-- What a call leaves when its answer is wrapped. -/
lemma call_bind_leaves {env : Env} {b : Broker} {db method : String} {s : Session}
    {params : List (String × Json)} {wrap : Json → Json} (hs : b.session db = some s) :
    ((call env db method params >>= fun out => pure (wrap out)) b).Leaves
      (b.setSession db (s.call env method (.object params)).2) := by
  obtain ⟨result, s', hcall, hne, -⟩ := s.call_cases env method (.object params)
  rw [Action.bind_apply]
  simp only [call, hs, hcall]
  cases result with
  | ok v => rfl
  | err e => rfl
  | panic p => exact absurd rfl (hne p)

/-- The call on a broker with one open database. -/
lemma rivalCall_step {b : Broker} {s : Session} {name path : String} {w : WorkerState}
    {resp : ReverseMcp.WorkerResponse} (hs : b.session "db-1" = some s)
    (hopen : b.open_dbs = [("db-1", path)]) (hlive : s.Live)
    (hresults : b.results = openBroker.results)
    (h : handle .bare (rivalRequest name) s.worker = .ok (resp, w)) :
    McpStep b (rivalEvent name (resp, w)) (b.setSession "db-1" (s.answered w)) := by
  have hcall : (s.call .bare "rename" (rivalRequest name).params).2 = s.answered w := by
    rw [Session.call, if_neg (by simp [hlive.1]), if_neg (by simp [hlive.2])]
    have hreq : (⟨0, "rename", (rivalRequest name).params⟩ : WorkerRequest) = rivalRequest name := rfl
    rw [hreq, h]
    rfl
  have hnames : Names (.object [("ea", .nat 0x401000), ("rename", .string name),
      ("expected_revision", .nat 0)]) b "db-1" := .inr ⟨rfl, path, hopen⟩
  refine ⟨⟨⟨?_, by simp [fail]⟩, _, rfl, ?_⟩, ?_, ?_⟩
  · rw [hresults]
    exact List.Perm.refl _
  · rw [tool_edit, Action.bind_apply, resolve_db_names hs hnames, ← hcall]
    exact call_bind_leaves hs
  · intro db t t' ht ht'
    by_cases hdb : db = "db-1"
    · subst hdb
      rw [session_setSession_self hs] at ht'
      obtain rfl := Option.some.inj (hs.symm.trans ht)
      obtain rfl := Option.some.inj ht'
      exact ⟨.cons h (.nil _), rfl⟩
    · rw [session_setSession_ne hdb] at ht'
      obtain rfl := Option.some.inj (ht.symm.trans ht')
      simpa [rivalEvent, hdb] using Run.nil _
  · intro db p hp
    by_cases hdb : db = "db-1"
    · subst hdb
      obtain rfl := List.mem_singleton.mp hp
      have hm : (rivalRequest name).method ∈ guardedMethods := by
        simp [rivalRequest, guardedMethods]
      exact ⟨hnames, .inr ⟨hm, rfl⟩⟩
    · simp [rivalEvent, hdb] at hp

end Host

/-- What the worker of the open database answers to the first of two rivals. -/
def firstAnswer : ReverseMcp.WorkerResponse × WorkerState :=
  @answer (Host.ascii true) .bare (rivalRequest "a") opened

/-- What it answers to the second. -/
def secondAnswer : ReverseMcp.WorkerResponse × WorkerState :=
  @answer (Host.ascii true) .bare (rivalRequest "b") firstAnswer.2

lemma rivals_answered :
    (@handle (Host.ascii true) .bare (rivalRequest "a") opened).isOk ∧
      (@handle (Host.ascii true) .bare (rivalRequest "b") firstAnswer.2).isOk ∧
      firstAnswer.2.closed = false := by
  decide +kernel

lemma rivals_guardable :
    @Guardable (Host.ascii true) opened ⟨.bare, rivalRequest "a", firstAnswer.1⟩ ∧
      @Guardable (Host.ascii true) firstAnswer.2 ⟨.bare, rivalRequest "b", secondAnswer.1⟩ := by
  decide +kernel

/-- The database behind the first call, and behind the second. -/
def rivalSessions : Session × Session :=
  ((Session.serving opened).answered firstAnswer.2,
    ((Session.serving opened).answered firstAnswer.2).answered secondAnswer.2)

/-- The broker behind the first call, and behind the second. -/
def rivalBrokers : Broker × Broker :=
  (openBroker.setSession "db-1" rivalSessions.1,
    (openBroker.setSession "db-1" rivalSessions.1).setSession "db-1" rivalSessions.2)

/-- One agent after the other. -/
def rivalRun : List (McpEvent × Broker) :=
  [(rivalEvent "a" firstAnswer, rivalBrokers.1), (rivalEvent "b" secondAnswer, rivalBrokers.2)]

lemma rivalRun_session : openBroker.session "db-1" = some (.serving opened) ∧
    rivalBrokers.1.session "db-1" = some rivalSessions.1 ∧
    rivalBrokers.2.session "db-1" = some rivalSessions.2 := by
  have h₀ : openBroker.session "db-1" = some (.serving opened) := rfl
  have h₁ : rivalBrokers.1.session "db-1" = some rivalSessions.1 := session_setSession_self h₀
  exact ⟨h₀, h₁, session_setSession_self h₁⟩

lemma rivalRun_run : @Run _ _ (@McpStep (Host.ascii true)) openBroker rivalRun := by
  let _ : Host := Host.ascii true
  obtain ⟨hfirst, hsecond, hclosed⟩ := rivals_answered
  obtain ⟨h₀, h₁, -⟩ := rivalRun_session
  refine .cons (rivalCall_step h₀ rfl ⟨rfl, rfl⟩ rfl (workerStep_answer hfirst)) ?_
  refine .cons (rivalCall_step h₁ rfl ⟨rfl, ?_⟩ rfl (workerStep_answer hsecond)) (.nil _)
  simp [Session.answered, hclosed]

lemma rivalRun_open : ∀ t ∈ statesOf openBroker rivalRun, (t.session "db-1").isSome := by
  obtain ⟨h₀, h₁, h₂⟩ := rivalRun_session
  intro t ht
  simp only [statesOf, rivalRun, List.map_cons, List.map_nil, List.mem_cons, List.not_mem_nil,
    or_false] at ht
  rcases ht with rfl | rfl | rfl
  · simp [h₀]
  · simp [h₁]
  · simp [h₂]

/-- Two agents rename `main`. -/
theorem calls_are_worker_runs_rivals : ∃ tr : List (McpEvent × Broker),
    tr.map (fun p => (p.1.call, p.2)) = rivalRun.map (fun p => (p.1.call, p.2)) ∧
      ∃ s', (lastOf openBroker tr).session "db-1" = some s' ∧
        @Run _ _ (@WorkerStep (Host.ascii true)) opened (tr.flatMap fun p => p.1.served "db-1") ∧
        lastOf opened (tr.flatMap fun p => p.1.served "db-1") = s'.worker := by
  let _ : Host := Host.ascii true
  obtain ⟨tr, htr, -, hworkers⟩ := calls_are_worker_runs (calls_run rivalRun_run)
  refine ⟨tr, htr, hworkers "db-1" _ rivalRun_session.1 ?_⟩
  rw [statesOf_calls]
  exact rivalRun_open

lemma firstAnswer_version : firstAnswer.2.version ≠ ((0 : U64) : WithBot U64) := by decide +kernel

/-- The second of them is too late. -/
theorem quiet_calls_late : ∃ s', rivalBrokers.2.session "db-1" = some s' ∧
    Unchanged rivalSessions.1.worker s'.worker := by
  let _ : Host := Host.ascii true
  obtain ⟨h₀, h₁, h₂⟩ := rivalRun_session
  have hrun : Run CallStep rivalBrokers.1 [(rivalCall "b", rivalBrokers.2)] := by
    cases calls_run rivalRun_run with
    | cons _ hrest => exact hrest
  have hquiet : (rivalCall "b").Quiet "db-1" rivalBrokers.1 := by
    refine .inr ⟨((0 : U64) : WithBot U64), rfl, ?_⟩
    rw [Broker.version, h₁]
    exact firstAnswer_version
  refine quiet_calls hrun ⟨hquiet, trivial⟩ h₁ ?_ _ (lastOf_mem _ _)
  intro t ht
  simp only [statesOf, List.map_cons, List.map_nil, List.mem_cons, List.not_mem_nil,
    or_false] at ht
  rcases ht with rfl | rfl
  · simp [h₁]
  · simp [h₂]

/-- Both rename `main` as long as the revision is 0. -/
theorem one_call_per_revision_rivals :
    ((transitions openBroker rivalRun).filter (Wins (fun e : McpEvent => e.call.expected)
      (fun b : Broker => b.content "db-1") (0 : U64))).length ≤ 1 := by
  obtain ⟨h₀, h₁, -⟩ := rivalRun_session
  refine @one_call_per_revision (Host.ascii true) _ _ _ rivalRun_run ?_ rivalRun_open _
  refine ⟨fun s hs => ?_, fun s hs => ?_, trivial⟩
  · obtain rfl := Option.some.inj (h₀.symm.trans hs)
    exact ⟨rivals_guardable.1, trivial⟩
  · obtain rfl := Option.some.inj (h₁.symm.trans hs)
    exact ⟨rivals_guardable.2, trivial⟩

end ReverseMcp.Tools
