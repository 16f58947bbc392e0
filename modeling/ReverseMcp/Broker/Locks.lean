import Mathlib.Logic.Relation
import ReverseMcp.Rust.Run

/-!
# The locks of the broker

The tool calls of the broker as sequences of lock steps.  There is the mutex of the worker pool,
the mutex of the list of open databases and one mutex for every session.  A call has at most one
guard of each kind at a time.  What a call does between two lock steps is `work` where it can fail:
worker calls, checks of arguments and the like, one or several of them.  A failure returns from the
handler and drops all its guards.

Sessions are numbered in the order in which they are spawned.
-/

namespace ReverseMcp

open Rust

/-- A mutex of the broker. -/
inductive Lock where
  | pool
  | openDbs
  | session (i : ℕ)
deriving DecidableEq

/-- What a mutex guards. -/
inductive LockKind where
  | pool
  | openDbs
  | session
deriving DecidableEq

/-- The kind of a mutex. -/
def Lock.kind : Lock → LockKind
  | pool => .pool
  | openDbs => .openDbs
  | session _ => .session

/-- The guards that a call has. -/
structure Guards where
  pool : Bool
  openDbs : Bool
  session : Option ℕ
deriving DecidableEq

namespace Guards

/-- No guard. -/
def none : Guards := ⟨false, false, .none⟩

/-- One of the guards is of the lock. -/
def Has (g : Guards) : Lock → Prop
  | .pool => g.pool = true
  | .openDbs => g.openDbs = true
  | .session i => g.session = some i

instance (g : Guards) : (l : Lock) → Decidable (g.Has l)
  | .pool => inferInstanceAs (Decidable (_ = _))
  | .openDbs => inferInstanceAs (Decidable (_ = _))
  | .session _ => inferInstanceAs (Decidable (_ = _))

/-- The guards with one more. -/
def add (g : Guards) : Lock → Guards
  | .pool => { g with pool := true }
  | .openDbs => { g with openDbs := true }
  | .session i => { g with session := some i }

/-- The guards without the one of a kind. -/
def drop (g : Guards) : LockKind → Guards
  | .pool => { g with pool := false }
  | .openDbs => { g with openDbs := false }
  | .session => { g with session := .none }

end Guards

/-- A step of a handler. -/
inductive Instr where
  | lockPool
  | lockOpenDbs
  /-- The session that the call has looked up or spawned. -/
  | lockSession
  | unlock (k : LockKind)
  /-- Work that takes no lock and may fail. -/
  | work
  /-- `pool.session(db)`; fails when there is none. -/
  | find
  /-- The worker of a new session is started. -/
  | spawn
  | register
  | unregister
  | pushDb
  | dropDb
  /-- The loop of `WorkerPool::list` over the sessions of the pool. -/
  | visitPool
  /-- The loop of `ida_health` over the open databases. -/
  | visitOpen
  /-- The rest of one of the two loops. -/
  | visit (is : List ℕ)
deriving DecidableEq

/-- The tool calls; the parameters are the ways through a handler. -/
inductive ToolCall where
  /-- `ida_db` with `action=open`. -/
  | openDb
  /-- `ida_db` with `action=close`. -/
  | close
  /-- `ida_db` with `action=list`. -/
  | list
  | health
  /-- A tool that resolves its database and calls the worker of the one session; `ida_db` with
  `action=info` and `action=save` too. -/
  | single
  /-- `function_hierarchical`, of a function that is large or not. -/
  | hierarchical (large : Bool)
  /-- `function_region`, with `try_hexrays=1` or without. -/
  | region (try_hexrays : Bool)
deriving DecidableEq

/-- `resolve_db`. -/
def resolve_db : List Instr :=
  [.lockOpenDbs, .unlock .openDbs, .work, .lockPool, .find, .unlock .pool]

/-- The handler of a tool call. -/
def ToolCall.handler : ToolCall → List Instr
  | openDb => [.lockPool, .work, .spawn, .lockSession, .work, .unlock .session, .register,
      .lockOpenDbs, .pushDb, .unlock .openDbs, .lockSession, .unlock .session, .unlock .pool]
  | close => resolve_db ++ [.lockSession, .work, .unlock .session, .lockPool, .unregister,
      .unlock .pool, .lockOpenDbs, .dropDb, .unlock .openDbs]
  | list => [.lockPool, .visitPool, .unlock .pool]
  | health => [.lockPool, .unlock .pool, .lockPool, .lockOpenDbs, .visitOpen, .unlock .openDbs,
      .unlock .pool]
  | single => resolve_db ++ [.work, .lockSession, .work, .unlock .session]
  | hierarchical false => resolve_db ++ [.work, .lockSession, .work, .unlock .session]
  -- the pool is asked for while the guard of the session is still there
  | hierarchical true => resolve_db ++ [.work, .lockSession, .work, .lockPool, .work, .unlock .pool,
      .unlock .session]
  | region false => resolve_db ++ [.work, .lockSession, .work, .unlock .session]
  | region true => resolve_db ++ [.work, .lockSession, .work, .lockPool, .unlock .pool,
      .unlock .session]

/-- A call that is under way. -/
structure RunningCall where
  call : ToolCall
  todo : List Instr
  guards : Guards
  /-- The session it has looked up or spawned. -/
  session : Option ℕ
deriving DecidableEq

namespace RunningCall

/-- A call at its start. -/
def new (call : ToolCall) : RunningCall := ⟨call, call.handler, .none, .none⟩

/-- The call returns with an error, which drops its guards. -/
def abort (c : RunningCall) : RunningCall := { c with todo := [], guards := .none }

/-- The lock that the call needs for its next step. -/
def wants (c : RunningCall) : Option Lock :=
  match c.todo with
  | .lockPool :: _ => some .pool
  | .lockOpenDbs :: _ => some .openDbs
  | .lockSession :: _ => c.session.map .session
  | .visit (i :: _) :: _ => some (.session i)
  | _ => none

end RunningCall

/-- The calls that are under way, with the two lists that the locks guard. -/
structure BrokerState where
  calls : List RunningCall
  /-- The sessions of the pool. -/
  sessions : List ℕ
  open_dbs : List ℕ
  /-- The number of the next session. -/
  spawned : ℕ
deriving DecidableEq

/-- What a step brings: a call begins, or one goes on.  `pick` is the session that `find` finds, and
`none` when a step fails that may fail. -/
inductive BrokerEvent where
  | start (call : ToolCall)
  | advance (c : ℕ) (pick : Option ℕ)
deriving DecidableEq

namespace BrokerState

/-- A broker that has just started. -/
def new : BrokerState := ⟨[], [], [], 0⟩

/-- No call has a guard of the lock. -/
def Free (s : BrokerState) (l : Lock) : Prop := ∀ c ∈ s.calls, ¬ c.guards.Has l

instance (s : BrokerState) (l : Lock) : Decidable (s.Free l) :=
  inferInstanceAs (Decidable (∀ c ∈ s.calls, _))

/-- The lock is granted when it is free; otherwise the call waits. -/
def grant (s : BrokerState) (c : RunningCall) (l : Lock) (todo : List Instr) : Option RunningCall :=
  if s.Free l then some { c with todo, guards := c.guards.add l } else none

/-- One step of a call: the call and the broker behind it. -/
def exec (s : BrokerState) (c : RunningCall) (pick : Option ℕ) :
    Option (RunningCall × BrokerState) :=
  match c.todo with
  | [] => none
  | .lockPool :: todo => (s.grant c .pool todo).map (·, s)
  | .lockOpenDbs :: todo => (s.grant c .openDbs todo).map (·, s)
  | .lockSession :: todo => c.session.bind fun i => (s.grant c (.session i) todo).map (·, s)
  | .unlock k :: todo => some ({ c with todo, guards := c.guards.drop k }, s)
  | .work :: todo => some (if pick.isSome then { c with todo } else c.abort, s)
  | .find :: todo =>
    match pick with
    | some i => if i ∈ s.sessions then some ({ c with todo, session := some i }, s) else none
    | none => some (c.abort, s)
  | .spawn :: todo =>
    some ({ c with todo, session := some s.spawned }, { s with spawned := s.spawned + 1 })
  | .register :: todo =>
    some ({ c with todo }, { s with sessions := s.sessions ++ c.session.toList })
  | .unregister :: todo =>
    some ({ c with todo }, { s with sessions := s.sessions.filter (some · ≠ c.session) })
  | .pushDb :: todo => some ({ c with todo }, { s with open_dbs := s.open_dbs ++ c.session.toList })
  | .dropDb :: todo =>
    some ({ c with todo }, { s with open_dbs := s.open_dbs.filter (some · ≠ c.session) })
  | .visitPool :: todo => some ({ c with todo := .visit s.sessions :: todo }, s)
  | .visitOpen :: todo =>
    some ({ c with todo := .visit (s.open_dbs.filter (· ∈ s.sessions)) :: todo }, s)
  | .visit [] :: todo => some ({ c with todo }, s)
  | .visit (i :: is) :: todo =>
    (s.grant c (.session i) (.unlock .session :: .visit is :: todo)).map (·, s)

/-- One step of the broker; `none` when the call does not exist, has ended, or has to wait. -/
def act (s : BrokerState) : BrokerEvent → Option BrokerState
  | .start call => some { s with calls := s.calls ++ [.new call] }
  | .advance k pick =>
    s.calls[k]?.bind fun c => (s.exec c pick).map fun r =>
      { r.2 with calls := s.calls.set k r.1 }

/-- Call `a` waits for a lock of which call `b` has the guard. -/
def WaitsFor (s : BrokerState) (a b : ℕ) : Prop :=
  ∃ c ∈ s.calls[a]?, ∃ d ∈ s.calls[b]?, ∃ l ∈ c.wants, d.guards.Has l

/-- There is no cycle of calls each waiting for a lock of the next. -/
def NoLockCycle (s : BrokerState) : Prop := ∀ a, ¬ Relation.TransGen s.WaitsFor a a

end BrokerState

/-- The steps of the broker. -/
def BrokerStep (s : BrokerState) (e : BrokerEvent) (s' : BrokerState) : Prop := s.act e = some s'

end ReverseMcp
