import ReverseMcp.Rust.Run
import ReverseMcp.Core.Error
import ReverseMcp.Core.Handle

/-!
# The worker pool

`rmcp_broker::worker_pool` and `rmcp_broker::recovery`: sessions under handles, each with a pump
task that talks to the worker process and a monitor task that waits for the pump's report of a
crash.  `PoolStep` lets the calls, the pumps and the monitors take their steps in any order; the
session locks, which only rule orders out, are left out.  What a pool method does without giving
up the pool is `opening` and `recovery`: `spawn_for` and `recover` have the pool to themselves.

The request channel closes when its sender goes away with the session or in `mark_crashed`.  The
monitor keeps the session until the pump has reported or ended, so the pump sees a closed channel
only behind `mark_crashed`.
-/

namespace ReverseMcp

open Rust

/-- `recovery::WorkerHealth`. -/
inductive WorkerHealth where
  | healthy
  | crashed
  | recovering
  | dead
deriving DecidableEq

/-- `recovery::RestartPolicy`, without the time between two attempts. -/
structure RestartPolicy where
  max_restarts : ℕ
deriving DecidableEq

instance : Inhabited RestartPolicy := ⟨⟨3⟩⟩

/-- `recovery::SessionMeta`. -/
structure SessionMeta where
  db_path : String
  backend_kind : String
  ida_version : String
deriving DecidableEq

/-- `worker_pool::WorkerSession`; of the sender only whether it is there. -/
structure WorkerSession where
  tx : Bool
  session_meta : SessionMeta
  health : WorkerHealth
  restart_failures : ℕ
deriving DecidableEq

/-- `WorkerSession::mark_crashed`. -/
def WorkerSession.mark_crashed (s : WorkerSession) : WorkerSession :=
  { s with tx := false, health := .crashed }

/-- Where the monitor task of a session is. -/
inductive Monitor where
  | waiting
  /-- It has received the notice and has not marked the session yet. -/
  | marking
  | done
deriving DecidableEq

/-- A session with its tasks and the channels between them. -/
structure SessionTasks where
  session : WorkerSession
  /-- The requests in the channel. -/
  queue : List U64
  /-- The requests the pump has written and that have no answer yet. -/
  pending : List U64
  /-- The pump task has not ended. -/
  pumping : Bool
  /-- The crash channel. -/
  crash : Option String
  monitor : Monitor
deriving DecidableEq

namespace SessionTasks

/-- The session and the tasks that `spawn_for` starts behind the handshake. -/
def new (session_meta : SessionMeta) : SessionTasks :=
  { session := { tx := true, session_meta, health := .healthy, restart_failures := 0 }
    queue := [], pending := [], pumping := true, crash := none, monitor := .waiting }

/-- The sending half of `call_with_timeout`; a full channel makes the caller wait. -/
def send (w : SessionTasks) (id : U64) : Option (Result Unit × SessionTasks) :=
  if w.session.tx = false then some (fail "worker is dead; close and reopen the db", w)
  else if w.pumping = false then some (fail "worker request channel closed", w)
  else if w.queue.length < 64 then some (.ok (), { w with queue := w.queue ++ [id] })
  else none

/-- The pump ends: its half of the channel and everything it has not answered are gone. -/
def stopPump (w : SessionTasks) : SessionTasks :=
  { w with queue := [], pending := [], pumping := false }

/-- `pump_task`: a request is taken from the channel and written to the worker's stdin. -/
def receive (w : SessionTasks) (written : Bool) : Option SessionTasks :=
  match w.pumping, w.queue with
  | true, id :: rest =>
    if written then some { w with queue := rest, pending := id :: w.pending.filter (· ≠ id) }
    else some w.stopPump
  | _, _ => none

/-- `pump_task`: the request channel is closed. -/
def closed (w : SessionTasks) : Option SessionTasks :=
  match w.pumping, w.session.tx, w.queue with
  | true, false, [] => some w.stopPump
  | _, _, _ => none

/-- `pump_task`: a response frame. -/
def respond (w : SessionTasks) (id : U64) : Option SessionTasks :=
  if w.pumping then some { w with pending := w.pending.filter (· ≠ id) } else none

/-- `pump_task`: the worker's stdout ends or has a bad frame. -/
def crashed (w : SessionTasks) (why : String) : Option SessionTasks :=
  if w.pumping then some { w.stopPump with crash := some why } else none

/-- The monitor receives the notice, or learns that there will be none. -/
def notify (w : SessionTasks) : Option SessionTasks :=
  match w.monitor, w.crash, w.pumping with
  | .waiting, some _, _ => some { w with crash := none, monitor := .marking }
  | .waiting, none, false => some { w with monitor := .done }
  | _, _, _ => none

/-- The monitor marks the session. -/
def mark (w : SessionTasks) : Option SessionTasks :=
  if w.monitor = .marking then
    some { w with session := w.session.mark_crashed, monitor := .done }
  else none

/-- The part of `recover` that looks at the health: `none` when there is nothing to do. -/
def beginRecovery (w : SessionTasks) : Result (Option SessionTasks) :=
  match w.session.health with
  | .healthy => .ok none
  | .dead => fail "worker recovery budget exhausted; close and reopen the db"
  | _ => .ok (some { w with session := { w.session with health := .recovering } })

/-- A failed attempt of `recover`: whether it was the last one. -/
def failRecovery (w : SessionTasks) (policy : RestartPolicy) : Bool × SessionTasks :=
  let restart_failures := w.session.restart_failures + 1
  if policy.max_restarts < restart_failures then
    (true, { w with session := { w.session with restart_failures, health := .dead } })
  else (false, { w with session := { w.session with restart_failures } })

end SessionTasks

/-- What `spawn_for` is waiting for. -/
inductive Stage where
  | select (id : U64)
  | openDb (id : U64)
  | opened
deriving DecidableEq

/-- The pool with the tasks of all sessions, also of those that are not in it any more. -/
structure WorkerPool where
  workers : List SessionTasks
  /-- The handles with the indices of their sessions. -/
  sessions : List (String × ℕ)
  /-- The session that `spawn_for` is opening. -/
  opening : Option (ℕ × Stage)
  /-- The handle that `recover` is busy with, and its session. -/
  recovery : Option (String × ℕ)
  next_id : U64
  next_call : U64

namespace WorkerPool

/-- `WorkerPool::new`. -/
def new : WorkerPool := ⟨[], [], none, none, 1, 1⟩

/-- `WorkerPool::session`. -/
def session (p : WorkerPool) (db : String) : Option ℕ :=
  (p.sessions.find? fun e => e.1 = db).map Prod.snd

/-- One task of a session takes a step. -/
def onWorker (p : WorkerPool) (i : ℕ) (f : SessionTasks → Option SessionTasks) :
    Option WorkerPool :=
  p.workers[i]?.bind fun w => (f w).map fun w' => { p with workers := p.workers.set i w' }

/-- `spawn_for` from the handshake to its first call. -/
def spawn (p : WorkerPool) (session_meta : SessionMeta) : Option WorkerPool :=
  match p.opening with
  | some _ => none
  | none => some { p with
      workers := p.workers ++ [{ SessionTasks.new session_meta with queue := [p.next_call] }]
      opening := some (p.workers.length, .select p.next_call)
      next_call := p.next_call + 1 }

/-- `spawn_for` gives up when its call gets no answer. -/
def giveUp (p : WorkerPool) (i : ℕ) : WorkerPool :=
  match p.opening with
  | some (j, .select _) | some (j, .openDb _) => if i = j then { p with opening := none } else p
  | _ => p

/-- An answer to `backend.select` makes `spawn_for` send `db.open`. -/
def answered (p : WorkerPool) (i : ℕ) (id : U64) (ok : Bool) : Option WorkerPool :=
  match p.opening with
  | some (j, .select id') =>
    if i = j ∧ id = id' then
      if ok then
        (p.onWorker i fun w => (w.send p.next_call).map Prod.snd).map fun p' => { p' with
          opening := some (i, .openDb p.next_call), next_call := p.next_call + 1 }
      else some { p with opening := none }
    else some p
  | some (j, .openDb id') =>
    if i = j ∧ id = id' then some { p with opening := if ok then some (i, .opened) else none }
    else some p
  | _ => some p

/-- `spawn_for` puts the session into the pool; `recover` moves it to the slot of its handle. -/
def register (p : WorkerPool) : Option WorkerPool :=
  match p.opening with
  | some (i, .opened) =>
    let (handle, next_id) := Handle.new "db" p.next_id
    let pushed := p.sessions ++ [(handle.text, i)]
    match p.recovery with
    | none => some { p with sessions := pushed, opening := none, next_id }
    | some (db, _) =>
      (pushed.find? fun e => e.1 = handle.text).bind fun fresh =>
        let rest := pushed.eraseIdx (pushed.findIdx fun e => e.1 = handle.text)
        -- `expect("recovered handle still registered")`
        if rest.any fun e => e.1 = db then
          some { p with sessions := rest.set (rest.findIdx fun e => e.1 = db) (db, fresh.2)
                        opening := none, recovery := none, next_id }
        else none
  | _ => none

/-- The part of `close` that takes the session out of the pool; the calls it makes are requests. -/
def close (p : WorkerPool) (db : String) : Option WorkerPool :=
  if p.opening.isNone && p.recovery.isNone && (p.session db).isSome then
    some { p with sessions := p.sessions.eraseIdx (p.sessions.findIdx fun e => e.1 = db) }
  else none

/-- `recover` up to its first attempt: `none` when it answers `Ok` without doing anything. -/
def recover (p : WorkerPool) (db : String) : Result (Option WorkerPool) := do
  let i ← Outcome.ofOption (.unknownDb db) (p.session db)
  let w ← Outcome.ofOption (.unknownDb db) p.workers[i]?
  match ← w.beginRecovery with
  | none => return none
  | some w' => return some { p with workers := p.workers.set i w', recovery := some (db, i) }

/-- A failed attempt of `recover`. -/
def attemptFailed (p : WorkerPool) (policy : RestartPolicy) : Option WorkerPool :=
  match p.opening, p.recovery with
  | none, some (_, i) =>
    p.workers[i]?.map fun w =>
      let (last, w') := w.failRecovery policy
      { p with workers := p.workers.set i w', recovery := if last then none else p.recovery }
  | _, _ => none

end WorkerPool

/-! ## The system -/

/-- What can happen to the pool. -/
inductive PoolEvent where
  /-- `spawn_for` of a caller, with room for `max_workers` sessions. -/
  | spawn (max_workers : ℕ) (session_meta : SessionMeta)
  /-- An attempt of `recover`, with the kind of backend that was found for it. -/
  | respawn (backend_kind : String)
  /-- A tool calls the worker of a session. -/
  | request (i : ℕ)
  /-- The caller stops waiting; the request stays where it is. -/
  | timeout (i : ℕ)
  | receive (i : ℕ) (written : Bool)
  | closed (i : ℕ)
  | respond (i : ℕ) (id : U64) (ok : Bool)
  | crashed (i : ℕ) (why : String)
  | notify (i : ℕ)
  | mark (i : ℕ)
  | register
  | close (db : String)
  | recover (db : String)
  | attemptFailed (policy : RestartPolicy)
deriving DecidableEq

namespace WorkerPool

/-- One step; `none` when it cannot happen. -/
def act (p : WorkerPool) : PoolEvent → Option WorkerPool
  | .spawn max_workers session_meta =>
    if p.recovery.isNone && p.sessions.length < max_workers then p.spawn session_meta else none
  | .respawn backend_kind =>
    p.recovery.bind fun r => p.workers[r.2]?.bind fun w =>
      p.spawn { w.session.session_meta with backend_kind }
  | .request i =>
    if p.opening.any fun o => o.1 = i then none
    else (p.onWorker i fun w => (w.send p.next_call).map Prod.snd).map fun p' =>
      { p' with next_call := p.next_call + 1 }
  | .timeout i => some (p.giveUp i)
  | .receive i written =>
    (p.onWorker i (·.receive written)).map fun p' => if written then p' else p'.giveUp i
  | .closed i => (p.onWorker i SessionTasks.closed).map fun p' => p'.giveUp i
  | .respond i id ok =>
    p.workers[i]?.bind fun w => (p.onWorker i (·.respond id)).bind fun p' =>
      -- an answer to a request that is not pending is dropped
      if id ∈ w.pending then p'.answered i id ok else some p'
  | .crashed i why => (p.onWorker i (·.crashed why)).map fun p' => p'.giveUp i
  | .notify i => p.onWorker i SessionTasks.notify
  | .mark i => p.onWorker i SessionTasks.mark
  | .register => p.register
  | .close db => p.close db
  | .recover db =>
    if p.opening.isNone && p.recovery.isNone then
      match p.recover db with
      | .ok (some p') => some p'
      | _ => some p
    else none
  | .attemptFailed policy => p.attemptFailed policy

end WorkerPool

/-- The steps of the pool. -/
def PoolStep (p : WorkerPool) (e : PoolEvent) (p' : WorkerPool) : Prop := p.act e = some p'

end ReverseMcp
