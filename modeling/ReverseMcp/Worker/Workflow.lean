import ReverseMcp.Worker.State

/-!
# Composite analysis workflows

`rmcp_worker::workflow`: six bounded analyses that run off the analysis index.  The walks over
the call graph keep the source's loops and their early exits, level by level.
-/

namespace ReverseMcp

open Rust

/-- `workflow::Budgets`. -/
structure Budgets where
  depth : U32
  max_functions : U32
  detail : String
  include_noise : Bool
deriving DecidableEq

/-- `workflow::WorkflowRequest`. -/
structure WorkflowRequest where
  workflow : String
  ea : Option U64
  target_ea : Option U64
  name : Option String
  roots : List U64
  budgets : Budgets
deriving DecidableEq

namespace WorkflowRequest

/-! ## Deserialization -/

/-- `de_ea`. -/
def de_ea : Json → Option U64
  | .number (.posInt n) => some n
  | .string s =>
    match parseAddress s with
    | .ok ea => some ea
    | .error _ => none
  | _ => none

/-- `de_opt_ea` of a field: the outer option is the failure. -/
def de_opt_ea : Option Json → Option (Option U64)
  | none | some .null => some none
  | some v => (de_ea v).map some

/-- `de_ea_list` of a field. -/
def de_ea_list : Option Json → Option (List U64)
  | none => some []
  | some (.array items) => allSome de_ea items
  | some _ => none

/-- A field with a default. -/
def fieldOr {α : Type} (default : α) (read : Json → Option α) : Option Json → Option α
  | none => some default
  | some v => read v

/-- The `name` field: absent or `null` is `None`. -/
def de_name : Option Json → Option (Option String)
  | none | some .null => some none
  | some v => v.asStr.map some

/-- `WorkflowRequest` from a value; with a flattened field only objects are accepted. -/
def from_value (v : Json) : Option WorkflowRequest :=
  if v.isObject then do
    let workflow ← (v.get "workflow").bind Json.asStr
    let ea ← de_opt_ea (v.get "ea")
    let target_ea ← de_opt_ea (v.get "target_ea")
    let name ← de_name (v.get "name")
    let roots ← de_ea_list (v.get "roots")
    let depth ← fieldOr 2 Json.asU32 (v.get "depth")
    let max_functions ← fieldOr 10 Json.asU32 (v.get "max_functions")
    let detail ← fieldOr "" Json.asStr (v.get "detail")
    let include_noise ← fieldOr false Json.asBool (v.get "include_noise")
    return ⟨workflow, ea, target_ea, name, roots, ⟨depth, max_functions, detail, include_noise⟩⟩
  else none

/-- Serialized form of a request, its keys in order. -/
def to_value (req : WorkflowRequest) : Json :=
  .object [("depth", .nat req.budgets.depth.val), ("detail", req.budgets.detail),
    ("ea", .opt (req.ea.map Json.u64)), ("include_noise", req.budgets.include_noise),
    ("max_functions", .nat req.budgets.max_functions.val),
    ("name", .opt (req.name.map Json.string)), ("roots", .array (req.roots.map Json.u64)),
    ("target_ea", .opt (req.target_ea.map Json.u64)), ("workflow", req.workflow)]

/-- `workflow::cache_key`; the key `budgets` that it removes is never there, because the
budgets are flattened. -/
def cache_key [Host] (req : WorkflowRequest) (revision : U64) : CacheKey :=
  (req.workflow, String.ofList req.to_value.compact, revision)

end WorkflowRequest

namespace Workflow

variable [Host]

/-! ## Names and noise -/

/-- `workflow::is_noise`. -/
def is_noise (name : String) : Bool :=
  let n := Host.toLowercase name
  ["j_", "?__", "__scrt", "__acrt", "_guard", "__report_gsfailure", "__crt", "__std_"].any
      (startsWith n ·)
    || ["memset", "memcpy", "memmove", "memcmp", "strcpy", "strlen"].contains n

/-- `workflow::find_by_name`. -/
def find_by_name (idx : AnalysisIndex) (name : String) : Option U64 :=
  let needle := Host.toLowercase name
  (idx.values.find? fun f =>
    Host.toLowercase f.name == needle || Host.toLowercase f.demangled == needle).map
      FunctionFacts.ea_start

/-- `workflow::filter_noise`. -/
def filter_noise (idx : AnalysisIndex) (eas : List U64) (include_noise : Bool) : List U64 :=
  if include_noise then eas
  else eas.filter fun ea =>
    match idx.functions[ea]? with
    | some f => !is_noise f.name
    | none => true

/-- The function a request names by address, else by name. -/
def requested (idx : AnalysisIndex) (req : WorkflowRequest) (message : String) : Result U64 :=
  Outcome.ofOption (.worker message) (req.ea.or (req.name.bind (find_by_name idx)))

omit [Host] in
/-- A function with its name, as a row. -/
def nameRow (idx : AnalysisIndex) (ea : U64) : Json :=
  .object [("ea", .ea ea), ("name", idx.function_name ea)]

omit [Host] in
/-- A list of addresses as texts. -/
def eaTexts (eas : List U64) : Json := .array (eas.map Json.ea)

/-! ## Single-function workflows -/

/-- `workflow::function_context`. -/
def function_context (b : MockBackend) (idx : AnalysisIndex) (req : WorkflowRequest)
    (detail_full : Bool) : Result Json := do
  let ea ← requested idx req "function_context requires 'ea' or 'name'"
  let facts ← Outcome.ofOption (Error.worker s!"no function at {hex ea}") idx.functions[ea]?
  let decompile ← (if detail_full then do
      let d ← (b.decompile ea).ok?
      return d.getD (.object [("unavailable", true)])
    else .ok .null)
  let xrefs ← b.xrefs_to ea
  let xrefs_to := (xrefs.take 50).map fun x =>
    Json.object [("from", .ea x.src), ("kind", x.kind)]
  return .object [("ea", .ea ea), ("name", facts.name),
    ("prototype_hint", .object [("imports_called", .strings facts.imports),
      ("indirect_calls", .nat facts.indirect_calls.val)]),
    ("strings", .strings facts.strings), ("constants", eaTexts facts.constants),
    ("callers", .array (facts.callers.map (nameRow idx))),
    ("callees", .array (facts.callees.map (nameRow idx))),
    ("xrefs_to", .array xrefs_to), ("decompile", decompile), ("detail", req.budgets.detail)]

/-- The first characters of a decompilation, where there is one. -/
def snippet (b : MockBackend) (ea : U64) (n : ℕ) : Result Json := do
  let d ← (b.decompile ea).ok?
  return .opt (d.bind fun d => (d.idx "pseudocode").asStr.map fun s =>
    .string (String.ofList (s.toList.take n)))

/-- The reference loop of `reference_context`. -/
def referenceRows (b : MockBackend) (idx : AnalysisIndex) (detail : String)
    (max_functions : ℕ) : AddrSet → List XrefInfo → Result (List Json)
  | _, [] => .ok []
  | seen, x :: xs =>
    match idx.lastUpTo x.src with
    | none => referenceRows b idx detail max_functions seen xs
    | some (f_ea, facts) =>
      if seen.contains f_ea || max_functions < (seen.insert f_ea).size then
        referenceRows b idx detail max_functions (seen.insert f_ea) xs
      else do
        let snippet ← (if detail ≠ "summary" then snippet b f_ea 400 else .ok .null)
        let rest ← referenceRows b idx detail max_functions (seen.insert f_ea) xs
        return .object [("xref_from", .ea x.src), ("kind", x.kind),
          ("function", .object [("ea", .ea f_ea), ("name", facts.name)]),
          ("callers", eaTexts facts.callers), ("snippet", snippet)] :: rest

/-- `workflow::reference_context`. -/
def reference_context (b : MockBackend) (idx : AnalysisIndex) (req : WorkflowRequest)
    (max_functions : ℕ) : Result Json := do
  let ea ← Outcome.ofOption (Error.worker "reference_context requires 'ea'") req.ea
  let xrefs ← b.xrefs_to ea
  let items ← referenceRows b idx req.budgets.detail max_functions ∅ (xrefs.take 100)
  return .object [("target", .ea ea), ("references", .array items),
    ("truncated", decide (max_functions ≤ items.length))]

/-- The scan of `import_usage`: stops once `max_functions` sites are collected. -/
def importSites (name : String) (max_functions : ℕ) : List Json → List FunctionFacts → List Json
  | sites, [] => sites
  | sites, f :: fs =>
    if f.imports.any fun i => eqIgnoreAsciiCase i name ||
        Rust.contains (Host.toLowercase i) (Host.toLowercase name) then
      let sites := sites ++ [.object [
        ("function", .object [("ea", .ea f.ea_start), ("name", f.name)]),
        ("callers", eaTexts f.callers)]]
      if max_functions ≤ sites.length then sites else importSites name max_functions sites fs
    else importSites name max_functions sites fs

/-- `workflow::import_usage`. -/
def import_usage (idx : AnalysisIndex) (req : WorkflowRequest) (max_functions : ℕ) :
    Result Json := do
  let name ← Outcome.ofOption (Error.worker "import_usage requires 'name'") req.name
  let sites := importSites name max_functions [] idx.values
  return .object [("import", name), ("sites", .array sites),
    ("truncated", decide (max_functions ≤ sites.length))]

/-! ## Walks over the call graph -/

/-- What a walk has collected: the functions seen, the next frontier, the edges. -/
structure Walk where
  visited : AddrSet
  next : List U64
  edges : List Json

/-- The loop over the callees of one function; it breaks once `max_functions` are seen. -/
def walkCallees (edge : U64 → Json) (max_functions : ℕ) : List U64 → Walk → Walk
  | [], w => w
  | c :: cs, w =>
    if max_functions ≤ w.visited.size then w
    else walkCallees edge max_functions cs
      { visited := w.visited.insert c
        next := if w.visited.contains c then w.next else w.next ++ [c]
        edges := w.edges ++ [edge c] }

/-- The loop over one frontier.  With `stop` it breaks once `max_functions` are seen. -/
def walkFrontier (idx : AnalysisIndex) (include_noise : Bool) (edge : U64 → U64 → Json)
    (max_functions : ℕ) (stop : Bool) : List U64 → Walk → Walk
  | [], w => w
  | cur :: rest, w =>
    match idx.functions[cur]? with
    | none => walkFrontier idx include_noise edge max_functions stop rest w
    | some f =>
      let w := walkCallees (edge cur) max_functions (filter_noise idx f.callees include_noise) w
      if stop && decide (max_functions ≤ w.visited.size) then w
      else walkFrontier idx include_noise edge max_functions stop rest w

/-- The level loop. -/
def walkLevels (idx : AnalysisIndex) (include_noise : Bool) (edge : U64 → U64 → Json)
    (max_functions : ℕ) (stop : Bool) : ℕ → List U64 → Walk → Walk
  | 0, _, w => w
  | n + 1, frontier, w =>
    let w := walkFrontier idx include_noise edge max_functions stop frontier { w with next := [] }
    if stop && decide (max_functions ≤ w.visited.size) then w
    else walkLevels idx include_noise edge max_functions stop n w.next w

/-- `workflow::call_neighborhood`. -/
def call_neighborhood (idx : AnalysisIndex) (req : WorkflowRequest) (max_functions : ℕ) :
    Result Json := do
  let ea ← requested idx req "call_neighborhood requires 'ea' or 'name'"
  failIf (ea ∉ idx.functions) s!"no function at {hex ea}"
  let edge (cur c : U64) : Json := .object [("from", .ea cur), ("to", .ea c),
    ("to_name", idx.function_name c)]
  let w := walkLevels idx req.budgets.include_noise edge max_functions true
    req.budgets.depth.val [ea] ⟨(∅ : AddrSet).insert ea, [], []⟩
  let row (ea : U64) : Json :=
    let f := idx.functions[ea]?
    .object [("ea", .ea ea), ("name", (f.map FunctionFacts.name).getD ""),
      ("strings", .strings ((f.map FunctionFacts.strings).getD [])),
      ("imports", .strings ((f.map FunctionFacts.imports).getD []))]
  return .object [("root", .ea ea), ("depth", .nat req.budgets.depth.val),
    ("functions", .array (w.visited.toList.map row)), ("edges", .array w.edges),
    ("truncated", decide (max_functions ≤ w.visited.size))]

/-- The rows of `subsystem_context`. -/
def subsystemRow (b : MockBackend) (idx : AnalysisIndex) (detail : String) (ea : U64) :
    Result (Option Json) :=
  match idx.functions[ea]? with
  | none => .ok none
  | some f => do
    let decomp ← (if detail = "normal" ∨ detail = "full" then snippet b ea 600 else .ok .null)
    return some (.object [("ea", .ea ea), ("name", f.name), ("strings", .strings f.strings),
      ("imports", .strings f.imports), ("constants", eaTexts f.constants),
      ("pseudocode_snippet", decomp)])

/-- `workflow::subsystem_context`. -/
def subsystem_context (b : MockBackend) (idx : AnalysisIndex) (req : WorkflowRequest)
    (max_functions : ℕ) : Result Json := do
  let roots ← (if req.roots ≠ [] then .ok req.roots else
    match req.ea with
    | some ea => .ok [ea]
    | none => fail "subsystem_context requires 'roots' (array of EAs) or 'ea'")
  match roots.find? fun r => !idx.functions.contains r with
  | some r => fail s!"no function at {hex r}"
  | none => pure ()
  let edge (cur c : U64) : Json := .object [("from", .ea cur), ("to", .ea c)]
  let w := walkLevels idx req.budgets.include_noise edge max_functions false
    req.budgets.depth.val roots ⟨roots.foldl (·.insert ·) ∅, [], []⟩
  let functions ← Outcome.mapList (subsystemRow b idx req.budgets.detail)
    (w.visited.toList.take max_functions)
  return .object [("roots", eaTexts roots), ("functions", .array (functions.filterMap id)),
    ("edges", .array w.edges), ("truncated", decide (max_functions < w.visited.size))]

/-! ## Call paths -/

omit [Host] in
/-- The callees of `cur` that have no parent yet, with `cur` as their parent. -/
def addParents (cur : U64) : List U64 → AddrMap U64 → List U64 → AddrMap U64 × List U64
  | [], parents, next => (parents, next)
  | c :: cs, parents, next =>
    if parents.contains c then addParents cur cs parents next
    else addParents cur cs (parents.insert c cur) (next ++ [c])

omit [Host] in
/-- The loop over one frontier: the parents, the next frontier, and whether `goal` was met. -/
def pathFrontier (idx : AnalysisIndex) (goal : U64) :
    List U64 → AddrMap U64 → List U64 → AddrMap U64 × List U64 × Bool
  | [], parents, next => (parents, next, false)
  | cur :: rest, parents, next =>
    if cur = goal then (parents, next, true)
    else
      match idx.functions[cur]? with
      | none => pathFrontier idx goal rest parents next
      | some f =>
        let (parents, next) := addParents cur f.callees parents next
        pathFrontier idx goal rest parents next

omit [Host] in
/-- The level loop of the search. -/
def pathLevels (idx : AnalysisIndex) (goal : U64) : ℕ → List U64 → AddrMap U64 → AddrMap U64
  | 0, _, parents => parents
  | n + 1, frontier, parents =>
    match pathFrontier idx goal frontier parents [] with
    | (parents, _, true) => parents
    | (parents, next, false) => pathLevels idx goal n next parents

omit [Host] in
/-- The reconstruction loop, from `cur` back to `source`, with at most `n` steps. -/
def pathBack (parents : AddrMap U64) (source : U64) : ℕ → U64 → List U64 → Result (List U64)
  | n, cur, path =>
    if cur = source then .ok path
    else
      match n, parents[cur]? with
      | _, none => .panic .index
      | 0, some _ => .panic .loop
      | n + 1, some p => pathBack parents source n p (p :: path)

/-- `workflow::trace_call_path`. -/
def trace_call_path (idx : AnalysisIndex) (req : WorkflowRequest) : Result Json := do
  let source ← requested idx req "trace_call_path requires 'ea' (source)"
  let goal ← Outcome.ofOption
    (Error.worker "trace_call_path requires 'target_ea' (destination)")
    (req.target_ea.or req.roots.head?)
  let parents := pathLevels idx goal req.budgets.depth.val [source]
    ((∅ : AddrMap U64).insert source source)
  if parents.contains goal then do
    let path ← pathBack parents source parents.size goal [goal]
    return .object [("from", .ea source), ("to", .ea goal),
      ("path", .array (path.map (nameRow idx))), ("found", true)]
  else
    return .object [("from", .ea source), ("to", .ea goal), ("path", .array []),
      ("found", false)]

/-- `workflow::run`. -/
def run (b : MockBackend) (idx : AnalysisIndex) (req : WorkflowRequest) : Result Json :=
  let detail_full := req.budgets.detail == "full"
  let max_functions := clamp req.budgets.max_functions.val 1 50
  match req.workflow with
  | "function_context" => function_context b idx req detail_full
  | "call_neighborhood" => call_neighborhood idx req max_functions
  | "reference_context" => reference_context b idx req max_functions
  | "import_usage" => import_usage idx req max_functions
  | "subsystem_context" => subsystem_context b idx req max_functions
  | "trace_call_path" => trace_call_path idx req
  | other => fail (s!"unknown workflow '{other}' (function_context|call_neighborhood|" ++
      "reference_context|import_usage|subsystem_context|trace_call_path)")

end Workflow

end ReverseMcp
