import Std.Data.ExtTreeMap
import ReverseMcp.Rust.Run
import ReverseMcp.Core.Error
import ReverseMcp.Core.Handle

/-!
# Background jobs

`rmcp_broker::jobs`: a registry of jobs, each with a detached task that performs one worker call
and then stores its outcome.  The calls of `JobManager` take the registry's lock once each, with
the exception of `sweep`, which takes it twice; a task takes it once, when its call has ended.
`JobSystem` is the registry with its tasks and its unfinished sweeps, and `JobStep` the steps that
calls and tasks take in any order.  Times are in nanoseconds.
-/

namespace ReverseMcp

open Rust

/-- `jobs::JobState`. -/
inductive JobState where
  | running
  | done (v : Json)
  | failed (m : String)
  | cancelled
deriving DecidableEq

/-- `jobs::Job`. -/
structure Job where
  db : String
  method : String
  summary : String
  state : JobState
  started : ℕ
  finished : Option ℕ
deriving DecidableEq

/-- `Job::status`. -/
def Job.status (j : Job) : String :=
  match j.state with
  | .running => "running"
  | .done _ => "done"
  | .failed _ => "failed"
  | .cancelled => "cancelled"

/-- `j.started.elapsed().as_secs()`. -/
def Job.elapsedSecs (j : Job) (now : ℕ) : Json := .nat ((now - j.started) / 10 ^ 9)

/-- `jobs::JobManager`. -/
structure JobManager where
  jobs : Std.ExtTreeMap String Job
  max_running : ℕ
  result_ttl : ℕ

namespace JobManager

/-- `JobManager::new`. -/
def new (max_running result_ttl : ℕ) : JobManager := ⟨∅, max max_running 1, result_ttl⟩

/-- The number of jobs that are running. -/
def running (m : JobManager) : ℕ :=
  (m.jobs.toList.filter fun e => e.2.status = "running").length

/-- The summary of the parameters; the cut at 200 bytes panics inside a character. -/
def summary [Host] (params : Json) : Result String :=
  let s := params.compact
  if 200 < byteLen s then
    match sliceTo 200 s with
    | some cs => .ok (String.ofList cs ++ "…")
    | none => .panic .boundary
  else .ok (String.ofList s)

/-- The registry part of `JobManager::start`: the id, the registry and the counter of handles. -/
def start [Host] (m : JobManager) (next_id : U64) (now : ℕ) (db method : String) (params : Json) :
    Result (String × JobManager × U64) := do
  failIf (m.max_running ≤ m.running)
    (s!"too many background jobs running ({m.running}/{m.max_running}); collect results with " ++
      "ida_jobs action=result first")
  let summary ← summary params
  let (handle, next_id) := Handle.new "job" next_id
  let job : Job := { db, method, summary, state := .running, started := now, finished := none }
  return (handle.text, { m with jobs := m.jobs.insert handle.text job }, next_id)

/-- The state that the outcome of a worker call stands for. -/
def outcomeState (outcome : Except Error Json) : JobState :=
  match outcome with
  | .ok v => .done v
  | .error (.worker m) =>
    if Rust.contains m "timed out" then
      .failed (s!"budget exhausted ({m}); the agent can restart the same call via ida_jobs " ++
        "action=start with a larger timeout_ms - revision caches make the retry cheap")
    else .failed (Error.worker m).text
  | .error e => .failed e.text

/-- What the task of a job does once its call has ended: it stores the outcome, whatever the job's
state is. -/
def store (m : JobManager) (now : ℕ) (id : String) (outcome : Except Error Json) : JobManager :=
  { m with jobs := m.jobs.modify id fun j =>
      { j with state := outcomeState outcome, finished := some now } }

/-- The job with an id. -/
def job (m : JobManager) (id : String) : Result Job :=
  Outcome.ofOption (.unknownResult id) m.jobs[id]?

/-- `JobManager::status`. -/
def status (m : JobManager) (now : ℕ) (id : String) : Result Json := do
  let j ← m.job id
  let note := match j.status with
    | "running" => "the agent can keep working; poll again or switch tasks"
    | "done" => "collect with action=result"
    | _ => "failed; the error explains the next move"
  return .object [("id", id), ("db", j.db), ("method", j.method), ("params", j.summary),
    ("status", j.status), ("elapsed_secs", j.elapsedSecs now), ("note", note)]

/-- `JobManager::result`. -/
def result (m : JobManager) (now : ℕ) (id : String) : Result Json := do
  let j ← m.job id
  match j.state with
  | .done v => return .object [("id", id), ("status", "done"),
      ("elapsed_secs", j.elapsedSecs now), ("result", v)]
  | .failed e => return .object [("id", id), ("status", "failed"), ("error", e),
      ("note", "revision caches make a retry with a larger budget cheap")]
  | .cancelled => fail s!"job {id} was cancelled"
  | .running => return .object [("id", id), ("status", "running"),
      ("elapsed_secs", j.elapsedSecs now),
      ("note", "result not ready; poll status or keep working")]

/-- The answer of a cancel that found its job running. -/
def cancelledAnswer (id : String) : Json :=
  .object [("id", id), ("cancelled", true),
    ("note", "the in-flight worker call cannot be interrupted mid-frame; its result will be discarded when it returns")]

/-- `JobManager::cancel`. -/
def cancel (m : JobManager) (now : ℕ) (id : String) : Result (Json × JobManager) := do
  let j ← m.job id
  match j.state with
  | .running =>
    let job : Job := { j with state := .cancelled, finished := some now }
    return (cancelledAnswer id, { m with jobs := m.jobs.insert id job })
  | _ => return (.object [("id", id), ("cancelled", false), ("status", j.status)], m)

/-- The ids that `JobManager::sweep` collects under the first lock. -/
def expired (m : JobManager) (now : ℕ) : List String :=
  (m.jobs.toList.filter fun e => e.2.status ≠ "running" &&
    (e.2.finished.map fun f => decide (m.result_ttl ≤ now - f)).getD false).map Prod.fst

/-- What `JobManager::sweep` removes under the second lock. -/
def remove (m : JobManager) (ids : List String) : JobManager :=
  { m with jobs := ids.foldl (fun jobs id => jobs.erase id) m.jobs }

end JobManager

/-! ## The system -/

/-- The registry with what runs next to it. -/
structure JobSystem where
  manager : JobManager
  /-- The process-wide counter of handles. -/
  next_id : U64
  now : ℕ
  /-- The job ids of the spawned tasks that have not finished. -/
  tasks : List String
  /-- What unfinished sweeps have collected and not removed yet. -/
  sweeps : List (List String)

/-- The system of a process that has just started. -/
def JobSystem.new (max_running result_ttl : ℕ) : JobSystem :=
  ⟨JobManager.new max_running result_ttl, 1, 0, [], []⟩

/-- What can happen to the system. -/
inductive JobCall where
  | start (db method : String) (params : Json)
  /-- The call of the `k`-th task ends, and the task stores the outcome. -/
  | complete (k : ℕ) (outcome : Except Error Json)
  | cancel (id : String)
  | status (id : String)
  | result (id : String)
  | sweepCollect
  /-- The `k`-th unfinished sweep removes what it has collected. -/
  | sweepRemove (k : ℕ)
  | tick (d : ℕ)
  /-- Another part of the process allocates a handle. -/
  | allocate

namespace JobSystem

/-- One step: the answer and the system behind it; `none` when the task or the sweep does not
exist.  A panic in `start` unwinds before anything is registered. -/
def act [Host] (s : JobSystem) : JobCall → Option (Result Json × JobSystem)
  | .start db method params =>
    match s.manager.start s.next_id s.now db method params with
    | .ok (id, manager, next_id) =>
      some (.ok id, { s with manager, next_id, tasks := s.tasks ++ [id] })
    | .err e => some (.err e, s)
    | .panic p => some (.panic p, s)
  | .complete k outcome =>
    s.tasks[k]?.map fun id => (.ok .null, { s with
      manager := s.manager.store s.now id outcome, tasks := s.tasks.eraseIdx k })
  | .cancel id =>
    match s.manager.cancel s.now id with
    | .ok (v, manager) => some (.ok v, { s with manager })
    | .err e => some (.err e, s)
    | .panic p => some (.panic p, s)
  | .status id => some (s.manager.status s.now id, s)
  | .result id => some (s.manager.result s.now id, s)
  | .sweepCollect => some (.ok .null, { s with sweeps := s.sweeps ++ [s.manager.expired s.now] })
  | .sweepRemove k =>
    s.sweeps[k]?.map fun ids => (.ok (.nat ids.length), { s with
      manager := s.manager.remove ids, sweeps := s.sweeps.eraseIdx k })
  | .tick d => some (.ok .null, { s with now := s.now + d })
  | .allocate => some (.ok .null, { s with next_id := s.next_id + 1 })

end JobSystem

/-- A call with its answer. -/
structure JobEvent where
  call : JobCall
  answer : Result Json

/-- The steps of the system. -/
def JobStep [Host] (s : JobSystem) (e : JobEvent) (s' : JobSystem) : Prop :=
  s.act e.call = some (e.answer, s')

/-- The calls made one after the other, up to the first that cannot happen. -/
def runJobs [Host] (s : JobSystem) : List JobCall → List (JobEvent × JobSystem)
  | [] => []
  | call :: calls =>
    match s.act call with
    | some (answer, s') => (⟨call, answer⟩, s') :: runJobs s' calls
    | none => []

lemma runJobs_run [Host] (s : JobSystem) (calls : List JobCall) :
    Run JobStep s (runJobs s calls) := by
  induction calls generalizing s with
  | nil => exact .nil s
  | cons call calls ih =>
    rw [runJobs]
    split
    · rename_i answer s' h
      exact .cons h (ih s')
    · exact .nil s

end ReverseMcp
