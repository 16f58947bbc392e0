import ReverseMcp.Core.ResultStore
import ReverseMcp.Worker.Dispatch
import ReverseMcp.Broker.Pump
import ReverseMcp.Broker.WorkerPool

/-!
# The tool layer

`rmcp_broker::tools`: a tool checks its arguments, resolves the database handle, calls the worker of
that database, and bounds the output through the result store.  A tool that has the sessions to
itself is an action on the broker's state; what the worker does with a call is `dispatch::handle`.

Besides closing a database and starting a background job the file has the tools that `ida_batch`
can run.
-/

namespace ReverseMcp.Tools

open Rust Protocol

/-- An MCP error; all errors of the tools are `invalid_params`. -/
structure McpError where
  message : String
deriving DecidableEq

/-- `mcp_code`. -/
def mcp_code (code message : String) : McpError := ⟨s!"[{code}] {message}"⟩

/-- `tools::err_from`. -/
def err_from (e : Error) : McpError := mcp_code e.code e.text

/-- A session with the worker behind it. -/
structure Session where
  session : WorkerSession
  /-- The pump takes requests from the channel. -/
  pumping : Bool
  worker : WorkerState
  /-- `mark_crashed` takes the sender away, and a recovery that fails does not bring it back. -/
  senderless : session.health ≠ .healthy → session.tx = false

/-- A live session that serves a worker. -/
def Session.serving (worker : WorkerState) : Session :=
  ⟨⟨true, ⟨"a.i64", "mock", ""⟩, .healthy, 0⟩, true, worker, fun h => absurd rfl h⟩

/-- The state that the tools work on. -/
structure Broker where
  sessions : List (String × Session)
  open_dbs : List (String × String)
  results : StoreSystem
  result_threshold : ℕ

/-- What a tool does. -/
abbrev Tool (α : Type) : Type := Action McpError Broker α

/-- `return Err(..)`. -/
def reject {α : Type} (code message : String) : Tool α := Action.lift (.err (mcp_code code message))

/-- `ok_or_else`. -/
def orReject {α : Type} (message : String) : Option α → Tool α
  | some a => pure a
  | none => reject "invalid_args" message

/-! ## Arguments -/

/-- `arg_str`. -/
def arg_str (args : Json) (name : String) : Option String := (args.get name).bind Json.asStr

/-- `arg_u64`. -/
def arg_u64 (args : Json) (name : String) (default : U64) : U64 :=
  ((args.get name).bind Json.asU64).getD default

/-- A flag with its default. -/
def arg_bool (args : Json) (name : String) (default : Bool) : Bool :=
  ((args.get name).bind Json.asBool).getD default

/-- `tools::parse_ea`. -/
def parse_ea : Json → Option U64
  | .string s => (parseAddress s).toOption
  | v => v.asU64

/-- `args.get(name).and_then(parse_ea)`. -/
def arg_ea (args : Json) (name : String) : Option U64 := (args.get name).bind parse_ea

/-- An argument that is passed on, `null` when absent. -/
def passOn (args : Json) (name : String) : String × Json := (name, .opt (args.get name))

/-! ## Sessions -/

/-- `WorkerPool::session`. -/
def Broker.session (b : Broker) (db : String) : Option Session :=
  (b.sessions.find? fun e => e.1 = db).map Prod.snd

/-- The session of a handle is left in a new state. -/
def Broker.setSession (b : Broker) (db : String) (s : Session) : Broker :=
  { b with sessions := b.sessions.set (b.sessions.findIdx fun e => e.1 = db) (db, s) }

/-- The message for a handle that was left out. -/
def ambiguous (dbs : List (String × String)) : String :=
  s!"db handle omitted and {dbs.length} DBs are open; specify one of: " ++
    ", ".intercalate (dbs.map Prod.fst)

/-- `resolve_db`: the handle whose session is used. -/
def resolve_db (db : Option String) : Tool String := do
  let b ← Action.get
  match db, b.open_dbs with
  | some h, _ =>
    if (b.session h).isSome then return h
    else reject "unknown_db" s!"db handle '{h}' is unknown or closed"
  | none, [(h, _)] => if (b.session h).isSome then return h else reject "unknown_db" "session gone"
  | none, [] => reject "unknown_db" "no db open; call ida_db(action=open) first"
  | none, dbs => reject "db_ambiguous" (ambiguous dbs)

/-- A response of the worker as it goes over the wire. -/
def frame (r : ReverseMcp.WorkerResponse) : Protocol.WorkerResponse :=
  match r.result with
  | .ok v => ⟨r.id, some v, none⟩
  | .error e => ⟨r.id, none, some ⟨e.1, e.2⟩⟩

variable [Host]

/-- `WorkerSession::call`.  A worker that panics, or that was told to shut down, is gone behind the
call, and its pump ends. -/
def Session.call (env : Env) (method : String) (params : Json) (s : Session) :
    Result Json × Session :=
  if s.session.tx = false then (fail "worker is dead; close and reopen the db", s)
  else if s.pumping = false then (fail "worker request channel closed", s)
  else
    match handle env ⟨0, method, params⟩ s.worker with
    | .ok (r, worker) =>
      (response_result (frame r).readBack, { s with worker, pumping := !worker.closed })
    | .error _ => (fail "worker exited unexpectedly", { s with pumping := false })

/-- `s.call(method, params).await.map_err(err_from)?`. -/
def call (env : Env) (db method : String) (params : List (String × Json)) : Tool Json := fun b =>
  match b.session db with
  | none => .err (mcp_code "unknown_db" "session gone") b
  | some s =>
    let (result, s') := s.call env method (.object params)
    match result with
    | .ok v => .ok v (b.setSession db s')
    | .err e => .err (err_from e) (b.setSession db s')
    | .panic p => .panic p

/-- `bound_output`. -/
def bound_output (tool : String) (payload : Json) : Tool Json := fun b =>
  let ((handle, preview, spilled), store, next_id) :=
    b.results.store.put b.results.next_id b.results.now tool payload b.result_threshold
  let b' := { b with results := { b.results with store, next_id } }
  if spilled then
    .ok (.object [("result_ref", handle), ("preview", preview),
      ("hint", "payload exceeded output budget; read it with ida_result(handle)")]) b'
  else .ok payload b'

/-! ## Closing a database -/

/-- `ida_db` with `action=close`. -/
def tool_db_close (env : Env) (args : Json) : Tool Json := do
  let db ← resolve_db (arg_str args "db")
  let _ ← call env db "db.save" []
  let _ ← call env db "db.close" []
  let _ ← call env db "shutdown" []
  Action.modify fun b => { b with sessions := b.sessions.filter fun e => e.1 ≠ db }
  Action.modify fun b => { b with open_dbs := b.open_dbs.filter fun e => e.1 ≠ db }
  return .object [("db", db), ("closed", true)]

/-! ## The tools of a batch -/

omit [Host] in
/-- `.min(n)` of a count that is passed on. -/
def capped (v : U64) (n : ℕ) : Json := .nat (min v.val n)

/-- `tool_functions`. -/
def tool_functions (env : Env) (args : Json) : Tool Json := do
  let db ← resolve_db (arg_str args "db")
  let out ← call env db "functions" [("offset", .u64 (arg_u64 args "offset" 0)),
    ("limit", capped (arg_u64 args "limit" 100) 1000)]
  return .object [("db", db), ("functions", ← bound_output "ida_functions" out)]

/-- `tool_inspect`. -/
def tool_inspect (env : Env) (args : Json) : Tool Json := do
  let db ← resolve_db (arg_str args "db")
  let ea ← orReject "inspect requires 'ea' (hex or decimal)" (arg_ea args "ea")
  let f ← call env db "function_at" [("ea", .u64 ea)]
  let comment ← call env db "get_comment" [("ea", .u64 ea), ("repeatable", false)]
  let bytes ← call env db "get_bytes" [("ea", .u64 ea), ("size", .nat 16)]
  return .object [("db", db), ("ea", hex ea), ("function", f), ("comment", comment),
    ("bytes", bytes)]

/-- `tool_disassemble`. -/
def tool_disassemble (env : Env) (args : Json) : Tool Json := do
  let db ← resolve_db (arg_str args "db")
  let ea ← orReject "disassemble requires 'ea'" (arg_ea args "ea")
  let out ← call env db "disassemble" [("ea", .u64 ea), passOn args "end",
    ("max_insns", capped (arg_u64 args "max_insns" 200) 5000)]
  return .object [("db", db), ("insns", ← bound_output "ida_disassemble" out)]

/-- `tool_decompile`. -/
def tool_decompile (env : Env) (args : Json) : Tool Json := do
  let db ← resolve_db (arg_str args "db")
  let ea ← orReject "decompile requires 'ea'" (arg_ea args "ea")
  let out ← call env db "decompile" [("ea", .u64 ea)]
  return .object [("db", db), ("pseudocode", ← bound_output "ida_decompile" out)]

/-- `tool_xrefs`. -/
def tool_xrefs (env : Env) (args : Json) : Tool Json := do
  let db ← resolve_db (arg_str args "db")
  let ea ← orReject "xrefs requires 'ea'" (arg_ea args "ea")
  let dir := (arg_str args "direction").getD "to"
  let method := if dir = "from" then "xrefs_from" else "xrefs_to"
  let out ← call env db method [("ea", .u64 ea)]
  return .object [("db", db), ("direction", dir), ("xrefs", ← bound_output "ida_xrefs" out)]

/-- `tool_search`. -/
def tool_search (env : Env) (args : Json) : Tool Json := do
  let db ← resolve_db (arg_str args "db")
  let limit := ("limit", Json.u64 (arg_u64 args "limit" 50))
  let out ← match (arg_str args "kind").getD "text" with
    | "immediate" => do
      let v ← orReject "immediate search requires 'value'" ((args.get "value").bind Json.asU64)
      call env db "search_immediate" [("value", .u64 v), limit]
    | _ => do
      let needle ← orReject "text search requires 'text'" (arg_str args "text")
      call env db "search_text" [("needle", needle), limit]
  return .object [("db", db), ("hits", ← bound_output "ida_search" out)]

/-- `tool_bytes`. -/
def tool_bytes (env : Env) (args : Json) : Tool Json := do
  let db ← resolve_db (arg_str args "db")
  let ea ← orReject "bytes requires 'ea'" (arg_ea args "ea")
  match (arg_str args "action").getD "get" with
  | "patch" => do
    let hex ← orReject "patch requires 'hex'" (arg_str args "hex")
    let out ← call env db "patch_bytes" [("ea", .u64 ea), ("hex", hex),
      passOn args "expected_revision"]
    return .object [("db", db), ("outcome", out)]
  | _ => do
    let out ← call env db "get_bytes" [("ea", .u64 ea),
      ("size", capped (arg_u64 args "size" 16) 4096)]
    return .object [("db", db), ("bytes", out)]

/-- `tool_types`. -/
def tool_types (env : Env) (args : Json) : Tool Json := do
  let db ← resolve_db (arg_str args "db")
  match (arg_str args "action").getD "get" with
  | "set" =>
    match arg_str args "decl", args.get "ea" with
    | some decl, some ea_val => do
      let ea ← orReject "bad ea" (parse_ea ea_val)
      let out ← call env db "set_type" [("ea", .u64 ea), ("decl", decl),
        passOn args "expected_revision"]
      return .object [("db", db), ("outcome", out)]
    | _, _ => reject "invalid_args" "set requires 'decl' and 'ea'"
  | "list" | "get" => do
    let out ← call env db "types" [("name", .opt ((arg_str args "name").map .string))]
    return .object [("db", db), ("types", ← bound_output "ida_types" out)]
  | other => reject "invalid_args" s!"unknown action '{other}'"

/-- `tool_segments`. -/
def tool_segments (env : Env) (args : Json) : Tool Json := do
  let db ← resolve_db (arg_str args "db")
  let out ← call env db "segments" []
  return .object [("db", db), ("segments", out)]

/-- `tool_metadata`. -/
def tool_metadata (env : Env) (args : Json) : Tool Json := do
  let db ← resolve_db (arg_str args "db")
  let out ← call env db "db.metadata" []
  return .object [("db", db), ("metadata", ← bound_output "ida_metadata" out)]

/-- `tool_imports`. -/
def tool_imports (env : Env) (args : Json) : Tool Json := do
  let db ← resolve_db (arg_str args "db")
  let out ← call env db "imports.list" [passOn args "module",
    ("offset", .u64 (arg_u64 args "offset" 0)), ("limit", capped (arg_u64 args "limit" 100) 1000)]
  return .object [("db", db), ("imports", ← bound_output "ida_imports" out)]

/-- `tool_fixups`. -/
def tool_fixups (env : Env) (args : Json) : Tool Json := do
  let db ← resolve_db (arg_str args "db")
  let out ← call env db "fixups.list" [("offset", .u64 (arg_u64 args "offset" 0)),
    ("limit", capped (arg_u64 args "limit" 100) 1000)]
  return .object [("db", db), ("fixups", ← bound_output "ida_fixups" out)]

/-- `tool_filemap`. -/
def tool_filemap (env : Env) (args : Json) : Tool Json := do
  let db ← resolve_db (arg_str args "db")
  let value ← orReject "filemap requires 'value' (ea or file offset)" (arg_ea args "value")
  let out ← call env db "file.map"
    [("value", .u64 value), ("to_ea", .bool (arg_bool args "to_ea" false))]
  return .object [("db", db), ("map", out)]

/-- `tool_func`. -/
def tool_func (env : Env) (args : Json) : Tool Json := do
  let db ← resolve_db (arg_str args "db")
  let action := (arg_str args "action").getD "tails"
  let out ← match action with
    | "tails" => do
      let ea ← orReject "tails requires 'ea'" (arg_ea args "ea")
      call env db "func.tails" [("ea", .u64 ea)]
    | "create" => do
      let start ← orReject "create requires 'start'" (arg_ea args "start")
      call env db "func.create" [("start", .u64 start), passOn args "end",
        passOn args "expected_revision"]
    | "delete" => do
      let ea ← orReject "delete requires 'ea'" (arg_ea args "ea")
      call env db "func.delete" [("ea", .u64 ea), passOn args "expected_revision"]
    | "resize" => do
      let ea ← orReject "resize requires 'ea'" (arg_ea args "ea")
      call env db "func.resize" [("ea", .u64 ea), passOn args "new_start", passOn args "new_end",
        passOn args "expected_revision"]
    | "switch_info" => do
      let ea ← orReject "switch_info requires 'ea'" (arg_ea args "ea")
      call env db "func.switch_info" [("ea", .u64 ea)]
    | "sp_delta" => do
      let ea ← orReject "sp_delta requires 'ea'" (arg_ea args "ea")
      call env db "func.sp_delta" [("ea", .u64 ea)]
    | other =>
      reject "invalid_args"
        s!"unknown func action '{other}' (tails|create|delete|resize|switch_info|sp_delta)"
  return .object [("db", db), ("action", action), ("result", out)]

/-- `tool_hr`. -/
def tool_hr (env : Env) (args : Json) : Tool Json := do
  let db ← resolve_db (arg_str args "db")
  let ea ← orReject "hr requires 'ea'" (arg_ea args "ea")
  match (arg_str args "action").getD "cfunc" with
  | "cfunc" => do
    let out ← call env db "hr.cfunc" [("ea", .u64 ea),
      ("include_ctree", .bool (arg_bool args "include_ctree" true)),
      ("include_lvars", .bool (arg_bool args "include_lvars" true)),
      ("limit", capped (arg_u64 args "limit" 2000) 50000)]
    return .object [("db", db), ("cfunc", ← bound_output "ida_hr" out)]
  | "lvar_rename" => do
    let var_defea ← orReject "lvar_rename requires 'var_defea'" (arg_ea args "var_defea")
    let name ← orReject "lvar_rename requires 'name'" (arg_str args "name")
    let out ← call env db "hr.lvar_rename" [("ea", .u64 ea), ("var_defea", .u64 var_defea),
      ("name", name), passOn args "expected_revision"]
    return .object [("db", db), ("outcome", out)]
  | "microcode" => do
    let out ← call env db "hr.microcode" [("ea", .u64 ea),
      ("maturity", .u64 (arg_u64 args "maturity" 0)),
      ("max_insns", capped (arg_u64 args "max_insns" 2000) 20000)]
    return .object [("db", db), ("microcode", ← bound_output "ida_hr" out)]
  | other => reject "invalid_args" s!"unknown hr action '{other}' (cfunc|microcode|lvar_rename)"

/-- `tool_value`. -/
def tool_value (env : Env) (args : Json) : Tool Json := do
  let db ← resolve_db (arg_str args "db")
  let ea ← orReject "value requires 'ea'" (arg_ea args "ea")
  let budgets := ["depth", "max_functions", "max_calls", "max_iterations", "timeout_ms"].filterMap
    fun key => ((args.get key).bind Json.asU64).map fun v => (key, Json.u64 v)
  let out ← call env db "value.propagate" (("ea", .u64 ea) :: budgets)
  return .object [("db", db), ("value", ← bound_output "ida_value" out)]

/-- `tool_insn`. -/
def tool_insn (env : Env) (args : Json) : Tool Json := do
  let db ← resolve_db (arg_str args "db")
  let out ← match (arg_str args "action").getD "features" with
    | "features" => do
      let ea ← orReject "features requires 'ea'" (arg_ea args "ea")
      call env db "insn.features" [("ea", .u64 ea)]
    | "demangle" => do
      let name ← orReject "demangle requires 'name'" (arg_str args "name")
      call env db "names.demangle" [("name", name)]
    | other => reject "invalid_args" s!"unknown insn action '{other}' (features|demangle)"
  return .object [("db", db), ("result", out)]

/-- `run_named`. -/
def run_named (env : Env) (tool : String) (args : Json) : Tool Json :=
  match tool with
  | "ida_functions" => tool_functions env args
  | "ida_inspect" => tool_inspect env args
  | "ida_disassemble" => tool_disassemble env args
  | "ida_decompile" => tool_decompile env args
  | "ida_xrefs" => tool_xrefs env args
  | "ida_search" => tool_search env args
  | "ida_bytes" => tool_bytes env args
  | "ida_types" => tool_types env args
  | "ida_segments" => tool_segments env args
  | "ida_metadata" => tool_metadata env args
  | "ida_imports" => tool_imports env args
  | "ida_fixups" => tool_fixups env args
  | "ida_filemap" => tool_filemap env args
  | "ida_func" => tool_func env args
  | "ida_hr" => tool_hr env args
  | "ida_value" => tool_value env args
  | "ida_insn" => tool_insn env args
  | other => reject "invalid_args" s!"batch cannot run '{other}'"

omit [Host] in
/-- The tool of an operation. -/
def opTool (op : Json) : String := ((op.get "tool").bind Json.asStr).getD ""

omit [Host] in
/-- The arguments of an operation. -/
def opArgs (op : Json) : Json := (op.get "args").getD (.object [])

omit [Host] in
/-- An error in the results of a batch; the code is that of `invalid_params`. -/
def McpError.json (e : McpError) : Json :=
  .object [("error", .object [("code", .number (.negInt 32601)), ("message", e.message)])]

/-- One operation of a batch; an error is part of its result. -/
def run_op (env : Env) (i : ℕ) (op : Json) : Tool Json := fun b =>
  let entry := fun (result : Json) =>
    Json.object [("index", .nat i), ("tool", opTool op), ("result", result)]
  match run_named env (opTool op) (opArgs op) b with
  | .ok v b' => .ok (entry v) b'
  | .err e b' => .ok (entry e.json) b'
  | .panic p => .panic p

/-- The loop of `tool_batch` at operation `i`; `env i` is what that operation finds outside. -/
def run_ops (env : ℕ → Env) : ℕ → List Json → Tool (List Json)
  | _, [] => pure []
  | i, op :: ops => do
    let r ← run_op (env i) i op
    let rs ← run_ops env (i + 1) ops
    return r :: rs

omit [Host] in
/-- The operations of a batch. -/
def batchOps (args : Json) : List Json := ((args.get "operations").bind Json.asArray).getD []

/-- `tool_batch`. -/
def tool_batch (env : ℕ → Env) (args : Json) : Tool Json :=
  if (batchOps args).length > 20 then reject "invalid_args" "batch limited to 20 operations"
  else do
    let results ← run_ops env 0 (batchOps args)
    return .object [("results", .array results)]

/-! ## Background jobs -/

/-- The methods that `ida_jobs` refuses. -/
def MUTATING : List String :=
  ["patch_bytes", "set_comment", "rename", "set_type", "func.create", "func.delete", "func.resize",
    "hr.lvar_rename", "deep.retype", "types.apply", "deob.apply", "plan.apply", "snapshot.restore"]

omit [Host] in
/-- `ida_jobs` with `action=start`, up to `JobManager::start`: the database, the method, the
parameters and the timeout in milliseconds that the job is started with. -/
def tool_jobs_start (args : Json) : Tool (String × String × Json × ℕ) := do
  let method ← orReject "start requires 'method'" (arg_str args "method")
  let db ← resolve_db (arg_str args "db")
  if method ∈ MUTATING then
    reject "invalid_args" "mutation methods cannot be backgrounded; run them synchronously"
  else
    let params := (args.get "params").getD (.object [])
    let timeout := ((params.get "timeout_ms").bind Json.asU64).map fun ms =>
      min (max ms.val 5000) 1800000
    return (db, method, params, timeout.getD 600000)

end ReverseMcp.Tools
