import ReverseMcp.Broker.Batch

/-!
# The tools that are not in a batch

The other tools of `rmcp_broker::tools` that work on an open database or on the result store, and
the resources of `rmcp_broker::resources`.  Most of them resolve the handle, choose a method of the
worker by an action or a task, and pass their arguments on.

`spawn_for` is taken as what it returns, and with it the session that it has put into the pool.
-/

namespace ReverseMcp.Tools

open Rust

variable [Host]

/-! ## Calls -/

/-- `call_with_timeout`, with parameters that are passed on as they are. -/
def callWith (env : Env) (db method : String) (params : Json) : Tool Json := fun b =>
  match b.session db with
  | none => .err (mcp_code "unknown_db" "session gone") b
  | some s =>
    let (result, s') := s.call env method params
    match result with
    | .ok v => .ok v (b.setSession db s')
    | .err e => .err (err_from e) (b.setSession db s')
    | .panic p => .panic p

lemma call_eq (env : Env) (db method : String) (params : List (String × Json)) :
    call env db method params = callWith env db method (.object params) := rfl

omit [Host] in
/-- `.map_err(err_from)`. -/
def orMcp {α : Type} : Outcome Error α → Outcome McpError α
  | .ok a => .ok a
  | .err e => .err (err_from e)
  | .panic p => .panic p

omit [Host] in
/-- `.await.unwrap_or(json!({}))`. -/
def orEmpty (x : Tool Json) : Tool Json := fun b =>
  match x b with
  | .ok v b' => .ok v b'
  | .err _ b' => .ok (.object []) b'
  | .panic p => .panic p

omit [Host] in
/-- A call of the result store with `map_err(|e| mcp_code(..))`. -/
def onStore {α : Type} (f : StoreSystem → Result α × ResultStore) : Tool α := fun b =>
  let (result, store) := f b.results
  let b' := { b with results := { b.results with store } }
  match result with
  | .ok a => .ok a b'
  | .err e => .err (err_from e) b'
  | .panic p => .panic p

/-! ## Databases -/

/-- `tool_capabilities`. -/
def tool_capabilities (env : Env) (args : Json) : Tool Json := do
  let db ← resolve_db (arg_str args "db")
  let caps ← call env db "capabilities" []
  let info ← call env db "db.info" []
  let b ← Action.get
  let identity := Json.object [("backend", .opt (info.get "processor")),
    ("bits", .opt (info.get "bits")), ("decompiler", .opt (info.get "decompiler")),
    ("ida_version", .opt (info.get "ida_version")), ("revision", .opt (info.get "revision"))]
  let budgets := Json.object [("default_function_limit", .nat 100),
    ("max_limit_per_call", .nat 1000), ("result_threshold", .nat b.result_threshold),
    ("result_ttl_seconds", .nat (b.results.store.ttl / 10 ^ 9)),
    ("mutation_revision_guard",
      "expected_revision on every mutating call; stale -> revision_conflict")]
  return ((caps.set "db" db).set "identity" identity).set "budgets" budgets

/-- `ida_db` with `action=open`; `spawned` is what `spawn_for` returns, with the new session. -/
def tool_db_open (env : Env) (spawned : Outcome Error (String × Session)) (args : Json) :
    Tool Json := do
  let path ← orReject "open requires 'path'" (arg_str args "path")
  let (handle, session) ← Action.lift (orMcp spawned)
  Action.modify fun b => { b with sessions := b.sessions ++ [(handle, session)] }
  Action.modify fun b => { b with open_dbs := b.open_dbs ++ [(handle, path)] }
  let info ← orEmpty (call env handle "db.info" [])
  return .object [("db", handle), ("path", path), ("info", ← bound_output "ida_db" info)]

/-- `ida_db` with `action=info`. -/
def tool_db_info (env : Env) (args : Json) : Tool Json := do
  let db ← resolve_db (arg_str args "db")
  let info ← call env db "db.info" []
  return .object [("db", db), ("info", ← bound_output "ida_db" info)]

/-- `ida_db` with `action=save`. -/
def tool_db_save (env : Env) (args : Json) : Tool Json := do
  let db ← resolve_db (arg_str args "db")
  let _ ← call env db "db.save" []
  return .object [("db", db), ("saved", true)]

omit [Host] in
/-- `WorkerPool::list`. -/
def Broker.list (b : Broker) : Json :=
  .array (b.sessions.map fun e => .array [.string e.1, .string e.2.session.session_meta.db_path])

/-- `tool_db`. -/
def tool_db (env : Env) (spawned : Outcome Error (String × Session)) (args : Json) : Tool Json :=
  match (arg_str args "action").getD "info" with
  | "open" => tool_db_open env spawned args
  | "info" => tool_db_info env args
  | "save" => tool_db_save env args
  | "close" => tool_db_close env args
  | "list" => do
    let b ← Action.get
    return .object [("dbs", b.list)]
  | other => reject "invalid_args" s!"unknown action '{other}'"

/-! ## Reading and editing -/

/-- `tool_graph`. -/
def tool_graph (env : Env) (args : Json) : Tool Json := do
  let db ← resolve_db (arg_str args "db")
  let ea ← orReject "graph requires 'ea'" (arg_ea args "ea")
  let kind ← match (arg_str args "kind").getD "calls" with
    | "calls" => pure "calls"
    | "cfg" => pure "cfg"
    | other => reject "invalid_args" s!"unknown graph kind '{other}' (calls|cfg)"
  let out ← call env db "graph" [("ea", .u64 ea), ("kind", .string kind),
    ("depth", capped (arg_u64 args "depth" 1) 5),
    ("max_nodes", capped (arg_u64 args "max_nodes" 200) 5000),
    ("max_edges", capped (arg_u64 args "max_edges" 400) 10000)]
  return .object [("db", db), ("graph", ← bound_output "ida_graph" out)]

/-- `tool_edit`; a comment that comes with a new name is left out. -/
def tool_edit (env : Env) (args : Json) : Tool Json := do
  let db ← resolve_db (arg_str args "db")
  let ea ← orReject "edit requires 'ea'" (arg_ea args "ea")
  match arg_str args "rename", arg_str args "comment" with
  | some name, _ => do
    let out ← call env db "rename" [("ea", .u64 ea), ("name", name),
      passOn args "expected_revision"]
    return .object [("db", db), ("outcome", out)]
  | none, some comment => do
    let out ← call env db "set_comment" [("ea", .u64 ea), ("comment", comment),
      ("repeatable", .bool (arg_bool args "repeatable" false)), passOn args "expected_revision"]
    return .object [("db", db), ("outcome", out)]
  | none, none => reject "invalid_args" "edit requires 'rename' or 'comment'"

/-- `tool_analysis`. -/
def tool_analysis (env : Env) (args : Json) : Tool Json := do
  let db ← resolve_db (arg_str args "db")
  let out ← call env db "analyze_wait" []
  return .object [("db", db), ("analysis", out)]

/-- `tool_mutation`. -/
def tool_mutation (env : Env) (args : Json) : Tool Json := do
  let db ← resolve_db (arg_str args "db")
  let out ← match (arg_str args "action").getD "plan" with
    | "plan" => do
      let operations ← orReject "plan requires 'operations'" (args.get "operations")
      call env db "plan.mutations" [("operations", operations), passOn args "expected_revision"]
    | "apply" => do
      let operations ← orReject "apply requires 'operations'" (args.get "operations")
      call env db "plan.apply" [("operations", operations), passOn args "expected_revision"]
    | "audit" => call env db "mutation.audit" [("limit", .u64 (arg_u64 args "limit" 100))]
    | "snapshot" => call env db "snapshot.create" []
    | "rollback" => call env db "snapshot.restore" []
    | other =>
      reject "invalid_args"
        s!"unknown mutation action '{other}' (plan|apply|audit|snapshot|rollback)"
  return .object [("db", db), ("mutation", out)]

/-! ## Analyses -/

omit [Host] in
/-- `obj.remove(key)`. -/
def without (args : Json) (key : String) : Json :=
  match args with
  | .object fields => .object (fields.filter fun f => f.1 ≠ key)
  | v => v

/-- `tool_analyze`. -/
def tool_analyze (env : Env) (args : Json) : Tool Json := do
  let db ← resolve_db (arg_str args "db")
  let out ← call env db "workflow.run" [("workflow_req", without args "db")]
  return .object [("db", db), ("analysis", out)]

omit [Host] in
/-- `McpError::invalid_params` for a task that there is not. -/
def unknownTask {α : Type} (task tasks : String) : Tool α :=
  Action.lift (.err ⟨s!"unknown task '{task}' ({tasks})"⟩)

/-- A tool whose task chooses the method, and whose arguments are the parameters. -/
def taskTool (env : Env) (args : Json) (default : String) (method : String → Option String)
    (tasks key : String) : Tool Json := do
  let db ← resolve_db (arg_str args "db")
  let task := (arg_str args "task").getD default
  match method task with
  | some method => do
    let out ← callWith env db method args
    return .object [("db", db), (key, out)]
  | none => unknownTask task tasks

omit [Host] in
/-- The tasks of `tool_deep`. -/
def deepMethod : String → Option String
  | "deep_function" => some "deep.function"
  | "trace_dataflow" => some "deep.dataflow"
  | "retype" => some "deep.retype"
  | _ => none

/-- `tool_deep`. -/
def tool_deep (env : Env) (args : Json) : Tool Json :=
  taskTool env args "deep_function" deepMethod "deep_function|trace_dataflow|retype" "deep"

omit [Host] in
/-- The tasks of `tool_type_recovery`. -/
def typeRecoveryMethod : String → Option String
  | "evidence" => some "types.evidence"
  | "propose" => some "types.propose"
  | "vtable" => some "types.vtable"
  | "create_struct" => some "types.apply"
  | _ => none

/-- `tool_type_recovery`. -/
def tool_type_recovery (env : Env) (args : Json) : Tool Json :=
  taskTool env args "propose" typeRecoveryMethod "evidence|propose|vtable|create_struct" "types"

omit [Host] in
/-- The tasks of `tool_intel`. -/
def intelMethod : String → Option String
  | "crypto_scan" => some "intel.crypto"
  | "resolve_api_hashes" => some "intel.api_hashes"
  | "recover_strings" => some "intel.strings"
  | "packs_list" => some "intel.packs"
  | _ => none

/-- `tool_intel`. -/
def tool_intel (env : Env) (args : Json) : Tool Json :=
  taskTool env args "crypto_scan" intelMethod
    "crypto_scan|resolve_api_hashes|recover_strings|packs_list" "intel"

omit [Host] in
/-- The tasks of `tool_sig`. -/
def sigMethod : String → Option String
  | "export" => some "sig.export"
  | "identify" => some "sig.identify"
  | "map" => some "sig.map"
  | _ => none

/-- `tool_sig`. -/
def tool_sig (env : Env) (args : Json) : Tool Json :=
  taskTool env args "export" sigMethod "export|identify|map" "sig"

/-- `tool_deobfuscate`. -/
def tool_deobfuscate (env : Env) (args : Json) : Tool Json := do
  let db ← resolve_db (arg_str args "db")
  let out ← match (arg_str args "task").getD "analyze" with
    | "analyze" => callWith env db "deob.run" args
    | "propose" => callWith env db "deob.propose" args
    | "validate" => do
      let plan ← orReject "validate requires 'plan'" (args.get "plan")
      call env db "deob.validate" [("plan", plan)]
    | "apply" => do
      let plan ← orReject "apply requires 'plan'" (args.get "plan")
      call env db "deob.apply" [("plan", plan), passOn args "expected_revision"]
    | "rollback" => call env db "snapshot.restore" []
    | other =>
      reject "invalid_args"
        s!"unknown deobfuscate task '{other}' (analyze|propose|validate|apply|rollback)"
  return .object [("db", db), ("deob", out)]

omit [Host] in
/-- The hits of a query, cut to the limit of the request. -/
def limitHits (out : Json) (limit : Option U64) : Json :=
  match limit with
  | none => out
  | some n =>
    match out.get "hits" with
    | some (.array hits) =>
      (out.set "hits" (.array (hits.take n.val))).set "count" (.nat (hits.take n.val).length)
    | some _ => out
    | none => out.set "hits" .null

/-- `tool_evidence`. -/
def tool_evidence (env : Env) (args : Json) : Tool Json := do
  let db ← resolve_db (arg_str args "db")
  let out ← match (arg_str args "action").getD "query" with
    | "build" => call env db "index.build" []
    | "status" => call env db "index.status" []
    | "query" => do
      let query ← orReject "evidence query requires 'query'" (args.get "query")
      let out ← call env db "index.query" [("query", query)]
      return limitHits out ((args.get "limit").bind Json.asU64)
    | other => reject "invalid_args" s!"unknown evidence action '{other}' (query|build|status)"
  return .object [("db", db), ("evidence", out)]

/-! ## Results -/

omit [Host] in
/-- `serde_json::to_value` of a `StoredResultMeta`. -/
def StoredResultMeta.json (m : StoredResultMeta) : Json :=
  .object [("handle", m.handle), ("tool", m.tool), ("total_len", .nat m.total_len),
    ("ttl_secs", .nat m.ttl_secs), ("age_secs", .nat m.age_secs)]

/-- `tool_result`; `iter` are the entries in the order of the map. -/
def tool_result (iter : List (String × Entry)) (args : Json) : Tool Json :=
  match (arg_str args "action").getD "read" with
  | "read" => do
    let handle ← orReject "read requires 'handle'" (arg_str args "handle")
    onStore fun r => r.store.get r.now handle
  | "metadata" => do
    let handle ← orReject "metadata requires 'handle'" (arg_str args "handle")
    let m ← onStore fun r => (r.store.metadata r.now handle, r.store)
    return StoredResultMeta.json m
  | "find" => do
    let needle ← orReject "find requires 'text'" (arg_str args "text")
    let b ← Action.get
    return .object [("handles", .strings (ResultStore.find iter b.results.now needle))]
  | "release" => do
    let handle ← orReject "release requires 'handle'" (arg_str args "handle")
    let _ ← onStore fun r => r.store.release handle
    return .object [("released", handle)]
  | other => reject "invalid_args" s!"unknown action '{other}'"

/-! ## Resources -/

/-- `resources::call_session`. -/
def call_session (env : Env) (id method : String) : Tool Json := do
  let b ← Action.get
  if (b.session id).isSome then call env id method []
  else reject "unknown_db" s!"db handle '{id}' is unknown or closed"

omit [Host] in
/-- `uri.strip_prefix("ida://db/")` and `rest.split_once('/')`: the handle and the kind. -/
def splitUri (uri : String) : Outcome McpError (String × String) :=
  match uri.toList.dropPrefix? "ida://db/".toList with
  | none => .err (mcp_code "invalid_args"
      "unsupported resource URI (want ida://db/\x7bid\x7d/\x7bkind\x7d)")
  | some rest =>
    match rest.dropWhile (· ≠ '/') with
    | [] => .err (mcp_code "invalid_args" "URI must be ida://db/\x7bid\x7d/\x7bkind\x7d")
    | _ :: kind => .ok (String.ofList (rest.takeWhile (· ≠ '/')), String.ofList kind)

omit [Host] in
/-- The method that a kind of resource is read with. -/
def resourceMethod : String → Option String
  | "metadata" | "entrypoints" | "exports" => some "db.metadata"
  | "segments" => some "segments"
  | "imports" => some "imports.list"
  | "info" => some "db.info"
  | _ => none

/-- `resources::read`: the payload that is printed. -/
def read (env : Env) (uri : String) : Tool Json := do
  let (id, kind) ← Action.lift (splitUri uri)
  match resourceMethod kind with
  | some method => do
    let payload ← call_session env id method
    bound_output s!"resource:{kind}" payload
  | none => reject "invalid_args" (s!"unknown resource kind '{kind}' " ++
      "(metadata|segments|entrypoints|imports|exports|info)")

end ReverseMcp.Tools
