import ReverseMcp.Core.Protocol
import ReverseMcp.Worker.Arms

/-!
# The dispatcher

`dispatch::dispatch` and `dispatch::handle`: a request is matched by its method name, runs
against the worker state, and leaves a response and a new state.  After a successful request
whose method is on the list of mutating methods the result cache is emptied.

The worker is that of a build without IDA: its only backend is the mock backend.
-/

namespace ReverseMcp

open Rust

/-- `WorkerResponse`: a value, or the code and the message of an error. -/
structure WorkerResponse where
  id : U64
  result : Except (String × String) Json

namespace WorkerResponse

/-- `WorkerResponse::ok`. -/
def ok (id : U64) (v : Json) : WorkerResponse := ⟨id, .ok v⟩

/-- `WorkerResponse::err`. -/
def err (id : U64) (e : Error) : WorkerResponse := ⟨id, .error (e.code, e.text)⟩

end WorkerResponse

/-! ## Methods -/

/-- The methods of the dispatcher by the shape of their arms. -/
inductive Method where
  | read (m : ReadMethod)
  | indexed (m : IndexedMethod)
  | cached (m : CachedMethod)
  | mutate (m : MutateMethod)
  | backendSelect
  | shutdown
  | dbOpen
  | dbClose
  | planApply
  | snapshotCreate
  | snapshotRestore
  | indexBuild
  | hrMicrocode
  | typesApply
  | deobApply
deriving DecidableEq

/-- The method a name stands for.  `sig.fingerprints` reads one function when it is given an
address, and answers from the index otherwise. -/
def Method.parse (method : String) : Option Method :=
  match method with
  | "backend.select" => some backendSelect
  | "shutdown" => some shutdown
  | "db.open" => some dbOpen
  | "db.close" => some dbClose
  | "db.save" => some (read .dbSave)
  | "db.info" => some (read .dbInfo)
  | "capabilities" => some (read .capabilities)
  | "revision" => some (read .revision)
  | "functions" => some (read .functions)
  | "function_at" => some (read .functionAt)
  | "segments" => some (read .segments)
  | "strings" => some (read .strings)
  | "xrefs_to" => some (read .xrefsTo)
  | "xrefs_from" => some (read .xrefsFrom)
  | "disassemble" => some (read .disassemble)
  | "decompile" => some (read .decompile)
  | "graph" => some (read .graph)
  | "search_text" => some (read .searchText)
  | "search_immediate" => some (read .searchImmediate)
  | "get_bytes" => some (read .getBytes)
  | "patch_bytes" => some (mutate .patchBytes)
  | "get_comment" => some (read .getComment)
  | "set_comment" => some (mutate .setComment)
  | "rename" => some (mutate .rename)
  | "types" => some (read .types)
  | "set_type" => some (mutate .setType)
  | "analyze_wait" => some (read .analyzeWait)
  | "db.metadata" => some (read .dbMetadata)
  | "imports.list" => some (read .importsList)
  | "fixups.list" => some (read .fixupsList)
  | "file.map" => some (read .fileMap)
  | "func.tails" => some (read .funcTails)
  | "func.create" => some (mutate .funcCreate)
  | "func.delete" => some (mutate .funcDelete)
  | "func.resize" => some (mutate .funcResize)
  | "func.switch_info" => some (read .funcSwitchInfo)
  | "func.sp_delta" => some (read .funcSpDelta)
  | "hr.cfunc" => some (read .hrCfunc)
  | "region.evidence" => some (read .regionEvidence)
  | "hr.lvar_rename" => some (mutate .hrLvarRename)
  | "insn.features" => some (read .insnFeatures)
  | "names.demangle" => some (read .namesDemangle)
  | "list_plugins" => some (read .listPlugins)
  | "run_plugin" => some (read .runPlugin)
  | "plan.mutations" => some (read .planMutations)
  | "plan.apply" => some planApply
  | "mutation.audit" => some (read .mutationAudit)
  | "snapshot.create" => some snapshotCreate
  | "snapshot.restore" => some snapshotRestore
  | "index.build" => some indexBuild
  | "index.query" => some (indexed .indexQuery)
  | "index.status" => some (read .indexStatus)
  | "workflow.run" => some (cached .workflowRun)
  | "deep.function" => some (cached .deepFunction)
  | "deep.retype" => some (mutate .deepRetype)
  | "deep.dataflow" => some (cached .deepDataflow)
  | "value.propagate" => some (cached .valuePropagate)
  | "hr.microcode" => some hrMicrocode
  | "types.evidence" => some (read .typesEvidence)
  | "types.vtable" => some (read .typesVtable)
  | "types.propose" => some (indexed .typesPropose)
  | "types.apply" => some typesApply
  | "intel.crypto" => some (cached .intelCrypto)
  | "intel.packs" => some (read .intelPacks)
  | "intel.api_hashes" => some (indexed .intelApiHashes)
  | "intel.strings" => some (indexed .intelStrings)
  | "deob.run" => some (indexed .deobRun)
  | "deob.propose" => some (indexed .deobPropose)
  | "deob.validate" => some (read .deobValidate)
  | "deob.apply" => some deobApply
  | "sig.identify" => some (indexed .sigIdentify)
  | "sig.export" => some (indexed .sigExport)
  | "sig.map" => some (read .sigMap)
  | "sig.fingerprints" => some (indexed .sigFingerprints)
  | "sig.diff" => some (read .sigDiff)
  | _ => none

/-- The name of a method with an arm of its own. -/
def Method.ownName : Method → Option String
  | backendSelect => some "backend.select"
  | shutdown => some "shutdown"
  | dbOpen => some "db.open"
  | dbClose => some "db.close"
  | planApply => some "plan.apply"
  | snapshotCreate => some "snapshot.create"
  | snapshotRestore => some "snapshot.restore"
  | indexBuild => some "index.build"
  | hrMicrocode => some "hr.microcode"
  | typesApply => some "types.apply"
  | deobApply => some "deob.apply"
  | read _ | indexed _ | cached _ | mutate _ => none

lemma Method.eq_ownName {method name : String} {m : Method} (h : parse method = some m)
    (hname : m.ownName = some name) : method = name := by
  unfold parse at h
  split at h <;> cases h <;> cases hname
  all_goals rfl

/-- `dispatch::MUTATING_METHODS`. -/
def MUTATING_METHODS : List String :=
  ["patch_bytes", "set_comment", "rename", "set_type", "func.create", "func.delete",
    "func.resize", "hr.lvar_rename", "deep.retype", "types.apply", "deob.apply", "plan.apply",
    "snapshot.restore", "analyze_wait"]

/-! ## Shared steps -/

/-- A computation over the worker state. -/
abbrev Worker (α : Type) : Type := Action Error WorkerState α

namespace Worker

/-- The selected backend. -/
def backend : Worker MockBackend := do
  let s ← Action.get
  Action.lift (need_backend s)

/-- Replaces the backend. -/
def setBackend (b : MockBackend) : Worker Unit :=
  Action.modify fun s => { s with backend := some b }

variable [Host]

/-- The index in force: the one at hand when it was built at the current revision, else one
that is built now and kept. -/
def ensure_index (b : MockBackend) : Worker (AnalysisIndex × String) := do
  let s ← Action.get
  match s.index with
  | some (idx, md5) =>
    if idx.revision = b.revision then return (idx, md5)
    else
      let built ← Action.lift b.build_index
      Action.modify fun s => { s with index := some built }
      return built
  | none =>
    let built ← Action.lift b.build_index
    Action.modify fun s => { s with index := some built }
    return built

/-- An answer from the index. -/
def indexed (call : IndexedCall) : Worker Json := do
  let b ← backend
  let (idx, md5) ← ensure_index b
  Action.lift (call b idx md5)

omit [Host] in
/-- The answer of a cached method. -/
def cachedAnswer (cached : Bool) (hits : U64) (result : Json) : Json :=
  .object [("cached", cached), ("cache_hits", .u64 hits), ("result", result)]

/-- A cache lookup, which moves the counters. -/
def lookup (key : CacheKey) : Worker (Option Json) := do
  let s ← Action.get
  let (found, cache) ← Action.lift (s.workflow_cache.get key)
  Action.modify fun s => { s with workflow_cache := cache }
  return found

/-- The plain run of a cached method behind a cache miss. -/
def uncached (key : CacheKey) (run : Result Json) : Worker Json := do
  let result ← Action.lift run
  Action.modify fun s => { s with workflow_cache := s.workflow_cache.put key result }
  let s ← Action.get
  return cachedAnswer false s.workflow_cache.hits result

/-- An answer through the cache: a hit is returned as it is, a miss is computed and kept. -/
def throughCache (key : CacheKey) (run : Result Json) : Worker Json := do
  match ← lookup key with
  | some v =>
    let s ← Action.get
    return cachedAnswer true s.workflow_cache.hits v
  | none => uncached key run

/-- An answer that neither reads nor writes the cache. -/
def pastCache (run : Result Json) : Worker Json := do
  let result ← Action.lift run
  let s ← Action.get
  return cachedAnswer false s.workflow_cache.hits result

/-- An answer from the index through the cache. -/
def cached (call : CachedCall) : Worker Json := do
  let b ← backend
  let (idx, _) ← ensure_index b
  let (key, run) ← Action.lift call.prepare
  if call.bypass then pastCache (run b idx) else throughCache (key b.revision) (run b idx)

omit [Host] in
/-- A single mutation: guard, call, audit entry. -/
def mutate (params : Json) (call : Mutation) : Worker Json := do
  let b ← backend
  Action.lift (check_revision params b)
  let op ← Action.lift call.op
  let (out, b) ← Action.lift (op b)
  setBackend b
  Action.modify fun s => { s with audit := Plan.record_audit s.audit call.kind call.ea out }
  return out.to_value

/-! ## The arms that are shapes of their own -/

omit [Host] in
/-- The arm of `backend.select`, in a build without an `idalib` feature. -/
def backendSelect (params : Json) : Worker Json :=
  match (text_param params "kind").getD "mock" with
  | "mock" => do
    setBackend MockBackend.new
    return .object [("backend", "mock")]
  | "idalib" => Action.lift (.err (.capabilityUnavailable "idalib"
      "worker not built with an idalib feature"))
  | other => Action.lift (fail s!"backend kind '{other}' not built into this worker")

omit [Host] in
/-- The arm of `db.open`. -/
def dbOpen (params : Json) : Worker Json := do
  let path ← Action.lift (text_required params "path" "missing path")
  let b ← backend
  let (v, b) ← Action.lift (b.openDb path)
  setBackend b
  return v

omit [Host] in
/-- The arm of `db.close`. -/
def dbClose : Worker Json := do
  let b ← backend
  let b ← Action.lift b.close
  setBackend b
  return .object [("closed", true)]

/-- The arm of `plan.apply`. -/
def planApply (params : Json) : Worker Json := do
  let ops_json ← Action.lift (array_required params "operations" "missing 'operations' array")
  let ops ← Action.lift (Plan.parse_operations ops_json)
  let b ← backend
  Action.lift (Plan.check_plan_revision b ((params.get "expected_revision").bind Json.asU64))
  let s ← Action.get
  let (out, b, audit) ← Action.lift (Plan.apply ops b s.audit)
  Action.modify fun s => { s with backend := some b, audit := audit }
  return out

omit [Host] in
/-- The arm of `snapshot.create`. -/
def snapshotCreate : Worker Json := do
  let b ← backend
  let (v, b) ← Action.lift b.snapshot_create
  setBackend b
  return v

/-- The arm of `snapshot.restore`. -/
def snapshotRestore : Worker Json := do
  let b ← backend
  let (v, b) ← Action.lift b.snapshot_restore
  setBackend b
  return v

/-- The arm of `index.build`; a failure to write the index to disk is ignored. -/
def indexBuild : Worker Json := do
  let b ← backend
  let (idx, md5) ← Action.lift b.build_index
  Action.modify fun s => { s with index := some (idx, md5) }
  return idx.summary

/-- The arm of `hr.microcode`, which is cached but does not use the index. -/
def hrMicrocode (params : Json) : Worker Json := do
  let ea ← Action.lift (ea_param params "ea")
  let req_maturity := clamp (count_param params "maturity" 0) 0 7
  let max_insns := clamp (count_param params "max_insns" 2000) 1 20000
  let b ← backend
  throughCache ("hr_microcode", s!"{hex ea}|{req_maturity}|{max_insns}", b.revision)
    (b.hr_microcode ea req_maturity max_insns)

/-- The arm of `types.apply`, which leaves no audit entry. -/
def typesApply (params : Json) : Worker Json := do
  let name ← Action.lift (text_required params "name" "missing name")
  let fields ← Action.lift (array_required params "fields" "missing fields array")
  let b ← backend
  Action.lift (check_revision params b)
  let (v, b) ← Action.lift (Types.apply_struct b name (fields.filterMap Json.asStr))
  setBackend b
  Action.modify fun s => { s with workflow_cache := s.workflow_cache.invalidate_all }
  return v

/-- The arm of `deob.apply`. -/
def deobApply (params : Json) : Worker Json := do
  let plan ← Action.lift (Outcome.ofOption (Error.worker "missing 'plan'") (params.get "plan"))
  Transforms.apply plan ((params.get "expected_revision").bind Json.asU64)

end Worker

/-! ## Dispatch -/

variable [Host]

/-- The arms of the dispatcher. -/
def Method.run (env : Env) (m : Method) (params : Json) : Worker Json :=
  match m with
  | read m => do
    let s ← Action.get
    Action.lift (m.answer env params s)
  | indexed m =>
    match m, params.get "ea" with
    | .sigFingerprints, some v => do
      let s ← Action.get
      Action.lift (fingerprintsAt params v s)
    | m, _ => do
      let call ← Action.lift (m.call env params)
      Worker.indexed call
  | cached m => do
    let call ← Action.lift (m.call env params)
    Worker.cached call
  | mutate m => do
    let call ← Action.lift (m.call params)
    let v ← Worker.mutate params call
    if m = .deepRetype then
      Action.modify fun s => { s with workflow_cache := s.workflow_cache.invalidate_all }
    return v
  | backendSelect => Worker.backendSelect params
  | shutdown => do
    Action.modify fun s => { s with closed := true }
    return .object [("bye", true)]
  | dbOpen => Worker.dbOpen params
  | dbClose => Worker.dbClose
  | planApply => Worker.planApply params
  | snapshotCreate => Worker.snapshotCreate
  | snapshotRestore => Worker.snapshotRestore
  | indexBuild => Worker.indexBuild
  | hrMicrocode => Worker.hrMicrocode params
  | typesApply => Worker.typesApply params
  | deobApply => Worker.deobApply params

/-- `dispatch::dispatch`. -/
def dispatch (env : Env) (method : String) (params : Json) : Worker Json :=
  match Method.parse method with
  | some m => m.run env params
  | none => Action.lift (fail s!"unknown method '{method}'")

/-- `dispatch::handle`: the response and the state left, or the panic. -/
def handle (env : Env) (req : WorkerRequest) (s : WorkerState) :
    Except Panic (WorkerResponse × WorkerState) :=
  match dispatch env req.method req.params s with
  | .ok v s' =>
    let s' := if req.method ∈ MUTATING_METHODS then
      { s' with workflow_cache := s'.workflow_cache.invalidate_all } else s'
    .ok (.ok req.id v, s')
  | .err e s' => .ok (.err req.id e, s')
  | .panic p => .error p

end ReverseMcp
