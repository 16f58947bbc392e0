import Std.Data.ExtTreeSet
import ReverseMcp.Worker.Plan

/-!
# The worker's state and its surroundings

`rmcp_worker::state::WorkerState` with the result cache of `workflow.rs`, and `Env`: what one
request finds outside the process (the rules directory, the file system, the clock) together
with the behaviour of `serde_json` that is not part of the repository.
-/

namespace ReverseMcp

open Rust

/-- `BTreeSet<u64>`. -/
abbrev AddrSet : Type := Std.ExtTreeSet U64

/-! ## The result cache -/

/-- The key of a cached result: the analysis, its arguments as text, and the revision. -/
abbrev CacheKey : Type := String × String × U64

instance transOrdCacheKey : Std.TransOrd CacheKey := inferInstance

/-- `WorkflowCache`. -/
structure WorkflowCache where
  entries : Std.ExtTreeMap CacheKey Json
  hits : U64
  misses : U64

namespace WorkflowCache

/-- The empty cache. -/
def empty : WorkflowCache := ⟨∅, 0, 0⟩

/-- `WorkflowCache::get`: the entry, and the cache with its counters moved. -/
def get [Host] (c : WorkflowCache) (key : CacheKey) : Result (Option Json × WorkflowCache) :=
  match c.entries[key]? with
  | some v => do
    let hits ← addU64 c.hits 1
    return (some v, { c with hits })
  | none => do
    let misses ← addU64 c.misses 1
    return (none, { c with misses })

/-- `WorkflowCache::put`. -/
def put (c : WorkflowCache) (key : CacheKey) (value : Json) : WorkflowCache :=
  { c with entries := c.entries.insert key value }

/-- `WorkflowCache::invalidate_all`. -/
def invalidate_all (c : WorkflowCache) : WorkflowCache := { c with entries := ∅ }

end WorkflowCache

/-! ## The state -/

/-- `WorkerState`, with the mock backend as the one that can be selected. -/
structure WorkerState where
  backend : Option MockBackend
  closed : Bool
  audit : List AuditEntry
  index : Option (AnalysisIndex × String)
  workflow_cache : WorkflowCache

/-- `WorkerState::new`. -/
def WorkerState.new : WorkerState := ⟨none, false, [], none, .empty⟩

/-! ## The surroundings of a request -/

/-- A wall-clock deadline: its `Debug` text, and whether it lies ahead at the `n`-th reading
of the clock. -/
structure Deadline where
  text : String
  ahead : ℕ → Bool

/-- A file of the rules directory: its name, and its bytes or the text of the read error. -/
structure RuleFile where
  file_name : String
  raw : Except String (List U8)

/-- What one request finds outside the process. -/
structure Env where
  /-- The `.json` files of `<exe dir>/rules` in path order; none when it cannot be read. -/
  rules : List RuleFile
  /-- `serde_json::from_slice`, with the text of its error. -/
  fromSlice : List U8 → Except String Json
  /-- The text of `serde_json`'s error for a value that is not of the named type. -/
  serdeError : String → Json → String
  /-- The text of the error with which a file cannot be written, if so. -/
  writeError : String → Option String
  /-- The deadline that lies the given number of milliseconds ahead. -/
  deadline : ℕ → Deadline

/-- Surroundings with no rules directory, a writable file system and no clock. -/
def Env.bare : Env where
  rules := []
  fromSlice := fun _ => .error "expected value at line 1 column 1"
  serdeError := fun _ _ => "invalid type"
  writeError := fun _ => none
  deadline := fun _ => ⟨"Instant", fun _ => true⟩

end ReverseMcp
