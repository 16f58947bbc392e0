import ReverseMcp.Worker.Deep

/-!
# Value analysis

`rmcp_worker::valuean`: constant arguments at the call sites of a function and, level by
level, of its direct callees, with target proposals for indirect calls.
-/

namespace ReverseMcp

open Rust

namespace Valuean

open Deep (items textOf)

/-- `valuean::ValueRow`. -/
structure ValueRow where
  ea : U64
  function : String
  kind : String
  values : List U64
  sites : List U64

/-- `ValueRow::confidence`. -/
def ValueRow.confidence (r : ValueRow) : String :=
  match r.values.length with
  | 0 => "unknown"
  | 1 => "confirmed"
  | n => if n ≤ 4 then "set" else "heuristic"

/-- `ValueRow::to_json`. -/
def ValueRow.to_json (r : ValueRow) : Json :=
  .object [("kind", r.kind), ("function", r.function), ("ea", .ea r.ea),
    ("values", .array (r.values.map Json.ea)), ("at", .array (r.sites.map Json.ea)),
    ("confidence", r.confidence)]

/-- What the analysis has collected. -/
structure Collected where
  merged : Std.ExtTreeMap (U64 × String) ValueRow
  indirect : List Json
  truncated : Bool

/-! ## Rendered expressions -/

/-- `valuean::lookup_global`: the index stores no names of globals. -/
def lookup_global (_idx : AnalysisIndex) (_name : List Char) : Option U64 := none

/-- `valuean::parse_hex_or_dec`. -/
def parse_hex_or_dec (s : List Char) : Option U64 :=
  let t := trimChars s
  match stripHexMark t with
  | some digits => (fromStrRadix (2 ^ 64) 16 digits).toOption
  | none =>
    if t ≠ [] ∧ t.all Char.isDigit then (fromStrRadix (2 ^ 64) 10 t).toOption else none

/-- `valuean::parse_const_expr`. -/
def parse_const_expr (text : String) (idx : AnalysisIndex) : Option U64 :=
  let t := trimChars text.toList
  let inName (c : Char) : Bool := c ≠ '+' && c ≠ '-'
  match parse_hex_or_dec t with
  | some v => some v
  | none =>
    match t.takeWhile inName, t.dropWhile inName with
    | [], _ => none
    | _, [] => none
    | name, sign :: off_text => do
      let base ← lookup_global idx (trimChars name)
      let off := (parse_hex_or_dec off_text).getD 0
      return if sign = '-' then base - off else base + off

/-- The wrappers that `base_object` peels. -/
def peel : List Char → List Char
  | '(' :: '*' :: rest => peel rest
  | '(' :: '&' :: rest => peel rest
  | rest => rest

variable [Host]

/-- `valuean::base_object`. -/
def base_object (rendered : String) : Option (List Char) :=
  let rest := peel (trimChars rendered.toList)
  let inName (c : Char) : Bool := Host.isAlphanumeric c || c = '_' || c = '@'
  match rest.takeWhile inName, rest.dropWhile inName with
  | _, [] => none
  | [], _ => none
  | name, _ => if (fromStrRadix (2 ^ 64) 10 name).isOk then none else some name

/-! ## Collecting -/

omit [Host] in
/-- The slot loop of `indirect_proposal`; it breaks at four proposals. -/
def slotRows (base : List Char) : ℕ → List Json → List Json → List Json
  | _, [], rows => rows
  | n, slot :: slots, rows =>
    let target := parseHexOrZero (textOf slot "target_ea")
    if ((slot.idx "is_code").asBool).getD false = false ∨ target = 0 then
      slotRows base (n + 1) slots rows
    else
      let rows := rows ++ [.object [("target_ea", .ea target), ("name", textOf slot "name"),
        ("via", s!"{String.ofList base}+{n}"), ("confidence", "set")]]
      if 4 ≤ rows.length then rows else slotRows base (n + 1) slots rows

/-- `valuean::indirect_proposal`. -/
def indirect_proposal (b : MockBackend) (idx : AnalysisIndex) (ea : U64) (fname : String)
    (call_ea : U64) (call : Json) : Result Json := do
  let rendered := textOf call "target_name"
  let proposals ← (match (base_object rendered).bind fun base =>
      (lookup_global idx base).map fun base_ea => (base, base_ea) with
    | none => .ok []
    | some (base, base_ea) => do
      let slots ← (b.type_vtable_scan base_ea 8).ok?
      return slotRows base 0 (items (slots.getD .null) "slots") [])
  return .object [("function", fname), ("ea", .ea ea), ("call_ea", .ea call_ea),
    ("rendered", rendered), ("proposals", .array proposals),
    ("note", if proposals.isEmpty then "no resolvable target; evidence kept for the agent"
      else .null)]

omit [Host] in
/-- The constant argument `n` of a call site, merged into its row. -/
def addArg (idx : AnalysisIndex) (ea : U64) (fname : String) (call_ea : U64)
    (merged : Std.ExtTreeMap (U64 × String) ValueRow) (arg : Json × ℕ) :
    Std.ExtTreeMap (U64 × String) ValueRow :=
  match arg.1.asStr.bind (parse_const_expr · idx) with
  | none => merged
  | some v =>
    let kind := s!"arg{arg.2}"
    let row := merged[(ea, kind)]?.getD ⟨ea, fname, kind, [], []⟩
    merged.insert (ea, kind) { row with
      values := if v ∈ row.values then row.values else sortByKey id (row.values ++ [v])
      sites := if call_ea ∈ row.sites then row.sites else row.sites ++ [call_ea] }

/-- The body of the call loop of `collect_function_values`. -/
def collectCall (b : MockBackend) (idx : AnalysisIndex) (ea : U64) (fname : String)
    (max_calls : ℕ) (c : Collected) (call : Json) : Result Collected :=
  match (call.idx "call_ea").asStr with
  | none => .ok c
  | some text =>
    let call_ea := parseHexOrZero (String.ofList (text.toList.takeWhile (· ≠ '+')))
    if call_ea = 0 then .ok c
    else
      let merged := (items call "args").zipIdx.foldl (addArg idx ea fname call_ea) c.merged
      if ((call.idx "direct").asBool).getD false then .ok { c with merged }
      else if max_calls ≤ c.indirect.length then .ok { c with merged, truncated := true }
      else do
        let row ← indirect_proposal b idx ea fname call_ea call
        return { c with merged, indirect := c.indirect ++ [row] }

/-- `valuean::collect_function_values`. -/
def collect_function_values (b : MockBackend) (idx : AnalysisIndex) (ea : U64) (max_calls : ℕ)
    (c : Collected) : Result Collected := do
  let info ← b.deep_function_info ea max_calls
  Outcome.foldList (collectCall b idx ea (idx.function_name ea) max_calls) c
    ((items info "calls").take max_calls)

/-! ## The level loop -/

/-- The loop over the callees of one level: the collection, the functions seen, and the
callees of the next level. -/
def valueFrontier (b : MockBackend) (idx : AnalysisIndex) (budgets : DeepBudgets) :
    List U64 → List U64 → AddrSet → Collected → Result (Collected × AddrSet × List U64)
  | [], next, visited, c => .ok (c, visited, next)
  | callee :: rest, next, visited, c =>
    if budgets.max_functions ≤ visited.size then .ok ({ c with truncated := true }, visited, next)
    else if visited.contains callee || !idx.functions.contains callee then
      valueFrontier b idx budgets rest next (visited.insert callee) c
    else if budgets.max_calls ≤ c.merged.size + c.indirect.length then
      .ok ({ c with truncated := true }, visited.insert callee, next)
    else do
      let c ← collect_function_values b idx callee budgets.max_calls c
      let callees := match idx.functions[callee]? with
        | some f => f.callees
        | none => []
      valueFrontier b idx budgets rest (next ++ callees) (visited.insert callee) c

/-- The levels below `depth_used`, `n` of them left: the collection and the depth used. -/
def valueLevels (b : MockBackend) (idx : AnalysisIndex) (budgets : DeepBudgets) :
    ℕ → ℕ → List U64 → AddrSet → Collected → Result (Collected × ℕ)
  | 0, depth_used, _, _, c => .ok (c, depth_used)
  | n + 1, depth_used, frontier, visited, c =>
    if frontier.isEmpty then .ok (c, depth_used)
    else if !budgets.time_left (depth_used - 1) then .ok ({ c with truncated := true }, depth_used)
    else do
      let (c, visited, next) ← valueFrontier b idx budgets frontier [] visited c
      valueLevels b idx budgets n (depth_used + 1) next visited c

/-- `valuean::value_analysis`. -/
def value_analysis (b : MockBackend) (idx : AnalysisIndex) (root : U64) (budgets : DeepBudgets) :
    Result Json := do
  let f ← Outcome.ofOption (Error.worker s!"no function at {hex root}") idx.functions[root]?
  let c ← collect_function_values b idx root budgets.max_calls ⟨∅, [], false⟩
  let (c, depth_used) ← valueLevels b idx budgets (max budgets.depth 1 - 1) 1 f.callees
    ((∅ : AddrSet).insert root) c
  let rows := sortByKey (fun r : Json => (textOf r "function", textOf r "kind"))
    (c.merged.toList.map fun r => r.2.to_json)
  let truncated := c.truncated || decide (budgets.max_calls < rows.length) ||
    decide (budgets.max_calls < c.indirect.length)
  return .object [("ea", .ea root), ("function", idx.function_name root),
    ("depth_used", .nat depth_used), ("truncated", truncated),
    ("targets", .array (rows.take budgets.max_calls)),
    ("indirect", .array (c.indirect.take budgets.max_calls))]

end Valuean

end ReverseMcp
