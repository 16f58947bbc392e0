import ReverseMcp.Worker.State

/-!
# Deep analysis

`rmcp_worker::deep`: the resumable walk over the call graph that collects one dossier per
function, the propagation of prototype changes over the dossiers, and the bounded data-flow
trace.

The frontier of the walk is a stack; here its top comes first.  The `while` loop of the walk
is given room for `max_functions` dossiers, which is all it can add: every dossier adds an
address to `visited`, and the walk stops when that set outgrows the budget.
-/

namespace ReverseMcp

open Rust

/-- `deep::DeepBudgets`. -/
structure DeepBudgets where
  depth : ℕ
  max_functions : ℕ
  max_iterations : ℕ
  max_calls : ℕ
  deadline : Option Deadline

namespace DeepBudgets

/-- `DeepBudgets::time_left` at the `n`-th reading of the clock. -/
def time_left (budgets : DeepBudgets) (n : ℕ) : Bool :=
  match budgets.deadline with
  | some d => d.ahead n
  | none => true

/-- `{:?}` of the budgets. -/
def debug (budgets : DeepBudgets) : String :=
  let deadline := match budgets.deadline with
    | some d => s!"Some({d.text})"
    | none => "None"
  s!"DeepBudgets \x7b depth: {budgets.depth}, max_functions: {budgets.max_functions}, " ++
    s!"max_iterations: {budgets.max_iterations}, max_calls: {budgets.max_calls}, " ++
    s!"deadline: {deadline} \x7d"

end DeepBudgets

/-- `deep::budgets_from`. -/
def budgets_from (env : Env) (params : Json) : DeepBudgets :=
  let g (k : String) : Option ℕ := ((params.get k).bind Json.asU64).map Fin.val
  { depth := clamp ((g "depth").getD 3) 1 8
    max_functions := clamp ((g "max_functions").getD 20) 1 100
    max_iterations := clamp ((g "max_iterations").getD 5) 1 20
    max_calls := clamp ((g "max_calls").getD 24) 1 200
    deadline := (g "timeout_ms").map fun ms => env.deadline (clamp ms 1000 1800000) }

namespace Deep

/-! ## Reading the backend's report of one function -/

/-- `deep::FunctionDossier`. -/
structure FunctionDossier where
  ea : U64
  name : String
  prototype : String
  callees : List (U64 × U64)
  indirect : List U64

/-- `deep::TypeChange`. -/
structure TypeChange where
  ea : U64
  name : String
  iteration : ℕ
  before : String
  after : String

/-- The direct call sites (site, target) and the indirect ones. -/
structure CallSites where
  direct : List (U64 × U64)
  indirect : List U64

/-- The items of an array field, none when it is no array. -/
def items (v : Json) (key : String) : List Json := ((v.idx key).asArray).getD []

/-- A text field, empty when it is no text. -/
def textOf (v : Json) (key : String) : String := ((v.idx key).asStr).getD ""

/-- `deep::extract_call_sites`. -/
def extract_call_sites (info : Json) : CallSites :=
  (items info "calls").foldl (fun out c =>
    let call_ea := parseHexOrZero (textOf c "call_ea")
    if ((c.idx "direct").asBool).getD false then
      { out with direct := out.direct ++ [(call_ea, parseHexOrZero (textOf c "target_ea"))] }
    else { out with indirect := out.indirect ++ [call_ea] }) ⟨[], []⟩

/-- `deep::render_prototype`. -/
def render_prototype (info : Json) : String :=
  let p := info.idx "prototype"
  if ((p.idx "known").asBool).getD false then
    let args := (items p "arg_types").filterMap Json.asStr
    textOf p "ret_type" ++ "(" ++ String.intercalate ", " args ++ ")"
  else ""

/-! ## The walk -/

/-- The state of the walk. -/
structure Walk where
  visited : AddrSet
  dossiers : AddrMap FunctionDossier
  frontier : List (U64 × ℕ)
  budget_hit : Bool
  /-- The readings of the clock so far. -/
  readings : ℕ

/-- A frontier entry that the walk skips. -/
def Walk.skips (w : Walk) (idx : AnalysisIndex) (p : U64 × ℕ) : Bool :=
  w.dossiers.contains p.1 || !idx.functions.contains p.1 || w.visited.contains p.1

/-- The walk after the dossier of `ea` was collected at level `depth`. -/
def Walk.collect (w : Walk) (idx : AnalysisIndex) (ea : U64) (depth : ℕ)
    (rest : List (U64 × ℕ)) (info : Json) : Walk :=
  let sites := extract_call_sites info
  let dossiers := w.dossiers.insert ea
    ⟨ea, idx.function_name ea, render_prototype info, sites.direct, sites.indirect⟩
  let pending := (sites.direct.map Prod.snd).filter fun c =>
    idx.functions.contains c && !dossiers.contains c
  { w with
    visited := w.visited.insert ea
    dossiers := dossiers
    frontier := pending.foldl (fun frontier c => (c, depth + 1) :: frontier) rest
    readings := w.readings + 1 }

variable [Host]

/-- The `while let Some(..) = frontier.pop()` loop, with room for `n` more dossiers.  When a
budget is hit the entry goes back on the frontier. -/
def walk (b : MockBackend) (idx : AnalysisIndex) (budgets : DeepBudgets) : ℕ → Walk → Result Walk
  | n, w =>
    match w.frontier.dropWhile (w.skips idx) with
    | [] => .ok { w with frontier := [] }
    | (ea, depth) :: rest =>
      if budgets.max_functions < (w.visited.insert ea).size ∨ budgets.depth ≤ depth ∨
          budgets.time_left w.readings = false then
        .ok { w with frontier := (ea, depth) :: rest, budget_hit := true }
      else
        match n with
        | 0 => .panic .loop
        | n + 1 =>
          match b.deep_function_info ea budgets.max_calls with
          | .ok info => walk b idx budgets n (w.collect idx ea depth rest info)
          | .err e => .err e
          | .panic p => .panic p

omit [Host] in
/-- A dossier of a resume token; `none` when its address is 0. -/
def resumeDossier (d : Json) : Option FunctionDossier :=
  let ea := parseHexOrZero (textOf d "ea")
  if ea = 0 then none
  else some
    { ea, name := textOf d "name", prototype := textOf d "prototype"
      callees := (items d "callees").filterMap fun c => do
        let target ← (c.idx "target_ea").asStr
        let call ← (c.idx "call_ea").asStr
        return (parseHexOrZero target, parseHexOrZero call)
      indirect := ((items d "indirect_calls").filterMap Json.asStr).map parseHexOrZero }

omit [Host] in
/-- The pending entries of a resume token, the top of the stack first. -/
def resumePending (root : U64) (token : Json) : List (U64 × ℕ) :=
  match (token.idx "pending").asArray with
  | none => [(root, 0)]
  | some entries => (entries.filterMap fun p => do
      let ea ← (p.idx "ea").asStr
      let depth ← (p.idx "depth").asU64
      return (parseHexOrZero ea, depth.val % 2 ^ 32)).reverse

omit [Host] in
/-- Where the walk starts: at the root, or where a resume token left off. -/
def start (root : U64) : Option Json → Result Walk
  | none => .ok ⟨∅, ∅, [(root, 0)], false, 0⟩
  | some token =>
    match (token.idx "dossiers").asArray with
    | none => fail "bad resume token: missing dossiers"
    | some dlist =>
      let ds := dlist.filterMap resumeDossier
      .ok ⟨ds.foldl (fun s d => s.insert d.ea) ∅, ds.foldl (fun m d => m.insert d.ea d) ∅,
        resumePending root token, false, 0⟩

/-! ## Prototype propagation -/

/-- The state of the propagation. -/
structure Propagation where
  dossiers : AddrMap FunctionDossier
  changes : List TypeChange
  changed_now : AddrSet

/-- The recheck of one dirty function. -/
def recheck (b : MockBackend) (budgets : DeepBudgets) (iteration : ℕ) (p : Propagation)
    (ea : U64) : Result Propagation :=
  match p.dossiers[ea]? with
  | none => .ok p
  | some d =>
    if d.callees.any fun c => p.changed_now.contains c.2 then do
      match ← (b.deep_function_info ea budgets.max_calls).ok? with
      | none => return p
      | some info =>
        let proto_now := render_prototype info
        if proto_now = d.prototype then return p
        else return {
          dossiers := p.dossiers.insert ea { d with prototype := proto_now }
          changes := p.changes ++ [⟨ea, d.name, iteration, d.prototype, proto_now⟩]
          changed_now := p.changed_now.insert ea }
    else .ok p

/-- The rounds of the propagation, `n` of them left: the dossiers, the changes, the trace and
whether it converged. -/
def propagate (b : MockBackend) (budgets : DeepBudgets) (callers : AddrMap (List U64)) :
    ℕ → ℕ → AddrSet → AddrMap FunctionDossier → List TypeChange → List Json →
      Result (AddrMap FunctionDossier × List TypeChange × List Json × Bool)
  | 0, _, _, dossiers, changes, trace => .ok (dossiers, changes, trace, false)
  | n + 1, iteration, dirty, dossiers, changes, trace => do
    let p ← Outcome.foldList (recheck b budgets iteration) ⟨dossiers, changes, ∅⟩ dirty.toList
    let trace := trace ++ [.object [("iteration", .nat iteration),
      ("type_changes", .nat p.changed_now.size)]]
    if p.changed_now.isEmpty then return (p.dossiers, p.changes, trace, true)
    let next : AddrSet := p.changed_now.toList.foldl
      (fun s ea => (callers[ea]?.getD []).foldl (·.insert ·) s) ∅
    if next.isEmpty then return (p.dossiers, p.changes, trace, true)
    propagate b budgets callers n (iteration + 1) next p.dossiers p.changes trace

omit [Host] in
/-- The callers map of the collected dossiers. -/
def callersOf (dossiers : AddrMap FunctionDossier) : AddrMap (List U64) :=
  (dossiers.toList.map Prod.snd).foldl (fun m d =>
    d.callees.foldl (fun m c => m.insert c.2 (m[c.2]?.getD [] ++ [d.ea])) m) ∅

/-! ## The report -/

omit [Host] in
/-- The report row of a dossier. -/
def dossierRow (d : FunctionDossier) : Json :=
  .object [("ea", .ea d.ea), ("name", d.name), ("prototype", d.prototype),
    ("direct_calls", .array (d.callees.map fun c =>
      .object [("call_ea", .ea c.1), ("target_ea", .ea c.2)])),
    ("indirect_calls", .array (d.indirect.map Json.ea))]

omit [Host] in
/-- `deep::finish`. -/
def finish (idx : AnalysisIndex) (root : U64) (budgets : DeepBudgets) (w : Walk)
    (dossiers : AddrMap FunctionDossier) (changes : List TypeChange) (convergence : Json) :
    Json :=
  let ds := dossiers.toList.map Prod.snd
  let functions := Json.array (ds.map dossierRow)
  let reason := if w.budget_hit then "budget" else "not reached"
  let skipped := ds.flatMap fun d => (d.callees.filter fun c =>
      !w.visited.contains c.2 && idx.functions.contains c.2).map fun c =>
    Json.object [("ea", .ea c.2), ("name", idx.function_name c.2), ("reason", reason)]
  let skipped := dedupBy (·.idx "ea") (sortByKey (textOf · "ea") skipped)
  let resume := if w.budget_hit then
      Json.object [("root", .ea root),
        ("pending", .array (w.frontier.reverse.map fun p =>
          .object [("ea", .ea p.1), ("depth", .nat p.2)])),
        ("dossiers", functions)]
    else .null
  .object [("root", .ea root), ("functions", functions), ("skipped", .array skipped),
    ("type_changes", .array (changes.map fun c =>
      .object [("function", .object [("ea", .ea c.ea), ("name", c.name)]),
        ("iteration", .nat c.iteration), ("from", c.before), ("to", c.after)])),
    ("type_change_count", .nat changes.length), ("convergence", convergence),
    ("budgets", .object [("depth", .nat budgets.depth),
      ("max_functions", .nat budgets.max_functions),
      ("max_iterations", .nat budgets.max_iterations), ("max_calls", .nat budgets.max_calls)]),
    ("budget_hit", w.budget_hit), ("visited_count", .nat w.visited.size), ("resume", resume),
    ("resume_hint", if w.budget_hit then
      "pass this object back as resume_from to continue; already-visited functions are not decompiled again"
    else "")]

/-- `deep::deep_function`. -/
def deep_function (b : MockBackend) (idx : AnalysisIndex) (root : U64) (budgets : DeepBudgets)
    (resume : Option Json) : Result Json := do
  failIf (root ∉ idx.functions) s!"no function at {hex root}"
  let w ← start root resume
  let w ← walk b idx budgets budgets.max_functions w
  let (dossiers, changes, trace, converged) ← propagate b budgets (callersOf w.dossiers)
    budgets.max_iterations 1 w.visited w.dossiers [] []
  return finish idx root budgets w dossiers changes (.object [("converged", converged),
    ("iterations", .nat trace.length), ("trace", .array trace),
    ("note", if converged then .null else "budget exhausted before convergence")])

/-! ## Data-flow evidence -/

/-- The state of the data-flow trace. -/
structure Trace where
  evidence : List Json
  visited : AddrSet
  truncated : Bool

omit [Host] in
/-- The loop over the call sites of one function. -/
def traceCalls (idx : AnalysisIndex) (direction : String) (max_calls : ℕ) (cur : U64) :
    List Json → Trace → Trace
  | [], t => t
  | call :: calls, t =>
    let direct := ((call.idx "direct").asBool).getD false
    if direction = "backward" ∧ direct = false then
      traceCalls idx direction max_calls cur calls t
    else
      let evidence := t.evidence ++ [.object [("at", textOf call "call_ea"),
        ("function", .object [("ea", .ea cur), ("name", idx.function_name cur)]),
        ("target", textOf call "target_name"), ("direct", direct),
        ("confidence", if direct then "confirmed" else "heuristic"),
        ("args", .strings (((items call "args").map fun a => a.asStr.getD "").take 8))]]
      if max_calls ≤ evidence.length then { t with evidence, truncated := true }
      else traceCalls idx direction max_calls cur calls { t with evidence }

omit [Host] in
/-- The functions next to `cur` in the requested direction. -/
def traceNext (idx : AnalysisIndex) (direction : String) (cur : U64) : List U64 :=
  match idx.functions[cur]? with
  | none => []
  | some f =>
    match direction with
    | "forward" => f.callees
    | "both" => f.callees ++ f.callers
    | _ => f.callers

/-- The loop over one frontier: the trace and the next frontier. -/
def traceFrontier (b : MockBackend) (idx : AnalysisIndex) (direction : String)
    (budgets : DeepBudgets) : List U64 → List U64 → Trace → Result (Trace × List U64)
  | [], next, t => .ok (t, next)
  | cur :: rest, next, t =>
    if t.visited.contains cur then traceFrontier b idx direction budgets rest next t
    else
      let t := { t with visited := t.visited.insert cur }
      if budgets.max_functions < t.visited.size then .ok ({ t with truncated := true }, next)
      else
        match b.deep_function_info cur budgets.max_calls with
        | .panic p => .panic p
        | .err _ => traceFrontier b idx direction budgets rest next t
        | .ok info =>
          let t := traceCalls idx direction budgets.max_calls cur (items info "calls") t
          if t.truncated then .ok (t, next)
          else traceFrontier b idx direction budgets rest (next ++ traceNext idx direction cur) t

/-- The level loop of the trace. -/
def traceLevels (b : MockBackend) (idx : AnalysisIndex) (direction : String)
    (budgets : DeepBudgets) : ℕ → List U64 → Trace → Result Trace
  | 0, _, t => .ok t
  | n + 1, frontier, t => do
    let (t, next) ← traceFrontier b idx direction budgets frontier [] t
    if t.truncated then return t
    traceLevels b idx direction budgets n next t

/-- `deep::trace_dataflow`. -/
def trace_dataflow (b : MockBackend) (idx : AnalysisIndex) (target : U64) (direction : String)
    (budgets : DeepBudgets) : Result Json := do
  failIf (target ∉ idx.functions) s!"no function at {hex target}"
  let t ← traceLevels b idx direction budgets budgets.depth [target] ⟨[], ∅, false⟩
  let count (c : String) : ℕ := (t.evidence.filter fun e => e.idx "confidence" == .string c).length
  return .object [("target", .ea target), ("direction", direction),
    ("evidence", .array t.evidence), ("confirmed", .nat (count "confirmed")),
    ("heuristic", .nat (count "heuristic")), ("truncated", t.truncated),
    ("visited", .array (t.visited.toList.map Json.ea))]

end Deep

end ReverseMcp
