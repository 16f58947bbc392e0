import ReverseMcp.Graph.Layers
import ReverseMcp.Rust.Collections
import ReverseMcp.Rust.Reading
import ReverseMcp.Worker.Valuean

/-!
# What the value analysis has seen

The analysis on any backend.  What it collects is described by a log: an `Observation` is a
constant that some call site passes at some position, and the merged rows hold exactly the values
and sites of the log (`Logged`).  The log of a function is read off the call sites that are used:
those among the first `max_calls` of the body that have an address.

The walk over the callees is a breadth-first search whose frontier may hold functions that were
visited before.  As long as nothing is marked as cut, it visits what lies within its depth and
collects what is indexed of that (`valueRun_spec`).
-/

namespace ReverseMcp

open Rust

namespace Valuean

open Deep (items textOf)

instance transOrdRowKey : Std.TransOrd (U64 × String) := inferInstance

/-! ## The analysis on any backend -/

/-- A backend that knows the call sites of functions: it hands out the first ones and says whether
there are more. -/
structure CallSource where
  body : U64 → List Json
  deep_function_info : U64 → ℕ → Result Json
  calls_eq : ∀ ea n info, deep_function_info ea n = .ok info →
    items info "calls" = (body ea).take n
  calls_truncated_eq : ∀ ea n info, deep_function_info ea n = .ok info →
    (info.idx "calls_truncated").asBool = some (decide (n < (body ea).length))

section
variable [Host] (src : CallSource) (type_vtable_scan : U64 → ℕ → Result Json)
  (idx : AnalysisIndex)

/-- `valuean::indirect_proposal` on any backend. -/
def indirect_proposalIn (ea : U64) (fname : String) (call_ea : U64) (call : Json) :
    Result Json := do
  let rendered := textOf call "target_name"
  let proposals ← (match (base_object rendered).bind fun base =>
      (lookup_global idx base).map fun base_ea => (base, base_ea) with
    | none => .ok []
    | some (base, base_ea) => do
      let slots ← (type_vtable_scan base_ea 8).ok?
      return slotRows base 0 (items (slots.getD .null) "slots") [])
  return .object [("function", fname), ("ea", .ea ea), ("call_ea", .ea call_ea),
    ("rendered", rendered), ("proposals", .array proposals),
    ("note", if proposals.isEmpty then "no resolvable target; evidence kept for the agent"
      else .null)]

/-- The body of the call loop of `collect_function_values` on any backend. -/
def collectCallIn (ea : U64) (fname : String) (max_calls : ℕ) (c : Collected) (call : Json) :
    Result Collected :=
  match (call.idx "call_ea").asStr with
  | none => .ok c
  | some text =>
    let call_ea := parseHexOrZero (String.ofList (text.toList.takeWhile (· ≠ '+')))
    if call_ea = 0 then .ok c
    else
      let merged := (items call "args").zipIdx.foldl (addArg idx ea fname call_ea) c.merged
      if ((call.idx "direct").asBool).getD false then .ok { c with merged }
      else if max_calls ≤ c.indirect.length then .ok { c with merged, truncated := true }
      else do
        let row ← indirect_proposalIn type_vtable_scan idx ea fname call_ea call
        return { c with merged, indirect := c.indirect ++ [row] }

/-- `valuean::collect_function_values` on any backend. -/
def collect_function_valuesIn (ea : U64) (max_calls : ℕ) (c : Collected) : Result Collected := do
  let info ← src.deep_function_info ea max_calls
  Outcome.foldList (collectCallIn type_vtable_scan idx ea (idx.function_name ea) max_calls) c
    ((items info "calls").take max_calls)

/-- The callees of a function of the index. -/
def calleesOf (ea : U64) : List U64 :=
  match idx.functions[ea]? with
  | some f => f.callees
  | none => []

/-- The loop over the callees of one level on any backend. -/
def valueFrontierIn (budgets : DeepBudgets) :
    List U64 → List U64 → AddrSet → Collected → Result (Collected × AddrSet × List U64)
  | [], next, visited, c => .ok (c, visited, next)
  | callee :: rest, next, visited, c =>
    if budgets.max_functions ≤ visited.size then .ok ({ c with truncated := true }, visited, next)
    else if visited.contains callee || !idx.functions.contains callee then
      valueFrontierIn budgets rest next (visited.insert callee) c
    else if budgets.max_calls ≤ c.merged.size + c.indirect.length then
      .ok ({ c with truncated := true }, visited.insert callee, next)
    else do
      let c ← collect_function_valuesIn src type_vtable_scan idx callee budgets.max_calls c
      valueFrontierIn budgets rest (next ++ calleesOf idx callee) (visited.insert callee) c

/-- The levels below `depth_used` on any backend, `n` of them left: the collection, the functions
visited and the depth used. -/
def valueLevelsIn (budgets : DeepBudgets) :
    ℕ → ℕ → List U64 → AddrSet → Collected → Result (Collected × AddrSet × ℕ)
  | 0, depth_used, _, visited, c => .ok (c, visited, depth_used)
  | n + 1, depth_used, frontier, visited, c =>
    if frontier.isEmpty then .ok (c, visited, depth_used)
    else if !budgets.time_left (depth_used - 1) then
      .ok ({ c with truncated := true }, visited, depth_used)
    else do
      let (c, visited, next) ←
        valueFrontierIn src type_vtable_scan idx budgets frontier [] visited c
      valueLevelsIn budgets n (depth_used + 1) next visited c

/-- The collecting part of `value_analysis`. -/
def valueRun (root : U64) (budgets : DeepBudgets) : Result (Collected × AddrSet × ℕ) := do
  let f ← Outcome.ofOption (Error.worker s!"no function at {hex root}") idx.functions[root]?
  let c ← collect_function_valuesIn src type_vtable_scan idx root budgets.max_calls ⟨∅, [], false⟩
  valueLevelsIn src type_vtable_scan idx budgets (max budgets.depth 1 - 1) 1 f.callees
    ((∅ : AddrSet).insert root) c

omit [Host] in
/-- The rows of the answer before they are cut. -/
def valueRows (c : Collected) : List Json :=
  sortByKey (fun r : Json => (textOf r "function", textOf r "kind"))
    (c.merged.toList.map fun r => r.2.to_json)

omit [Host] in
/-- The answer of `value_analysis`. -/
def valueAnswer (root : U64) (budgets : DeepBudgets) (c : Collected) (depth_used : ℕ) : Json :=
  let truncated := c.truncated || decide (budgets.max_calls < (valueRows c).length) ||
    decide (budgets.max_calls < c.indirect.length)
  .object [("ea", .ea root), ("function", idx.function_name root),
    ("depth_used", .nat depth_used), ("truncated", truncated),
    ("targets", .array ((valueRows c).take budgets.max_calls)),
    ("indirect", .array (c.indirect.take budgets.max_calls))]

/-- `valuean::value_analysis` on any backend. -/
def value_analysisIn (root : U64) (budgets : DeepBudgets) : Result Json := do
  let (c, _, depth_used) ← valueRun src type_vtable_scan idx root budgets
  return valueAnswer idx root budgets c depth_used

end

/-! ## The analysis on the mock -/

section
variable [Host] (b : MockBackend) (idx : AnalysisIndex) (budgets : DeepBudgets)

omit [Host] in
/-- The call sites of a function of the mock. -/
def mockBody (ea : U64) : List Json :=
  (MockBackend.knownCallees ea).map fun c =>
    if c = 0 then .object [("call_ea", hex ea ++ "+10"), ("direct", false),
      ("target_name", "(*(void (**)(void))(ptr))()"), ("args", .array [])]
    else .object [("call_ea", hex ea), ("direct", true), ("target_ea", hex c),
      ("target_name", b.names[c]?.getD ""), ("args", .array [])]

lemma mock_deep_function_info {ea : U64} {n : ℕ} {info : Json}
    (h : b.deep_function_info ea n = .ok info) :
    items info "calls" = (mockBody b ea).take n ∧
      (info.idx "calls_truncated").asBool = some (decide (n < (mockBody b ea).length)) := by
  obtain ⟨-, -, h⟩ := Outcome.bind_eq_ok.mp h
  obtain ⟨all, -, h⟩ := Outcome.bind_eq_ok.mp h
  obtain ⟨f, -, h⟩ := Outcome.bind_eq_ok.mp h
  cases h
  rw [mockBody, List.length_map, ← List.map_take]
  exact ⟨rfl, rfl⟩

/-- The mock as a source of call sites. -/
def mockCalls : CallSource where
  body := mockBody b
  deep_function_info := b.deep_function_info
  calls_eq _ _ _ h := (mock_deep_function_info b h).1
  calls_truncated_eq _ _ _ h := (mock_deep_function_info b h).2

lemma valueFrontier_mock (frontier : List U64) : ∀ next visited c,
    valueFrontier b idx budgets frontier next visited c =
      valueFrontierIn (mockCalls b) b.type_vtable_scan idx budgets frontier next visited c := by
  induction frontier with
  | nil =>
    intro next visited c
    rfl
  | cons callee rest ih =>
    intro next visited c
    simp only [valueFrontier, valueFrontierIn, ih]
    rfl

lemma valueLevels_mock (n : ℕ) : ∀ depth_used frontier visited c,
    valueLevels b idx budgets n depth_used frontier visited c = do
      let r ← valueLevelsIn (mockCalls b) b.type_vtable_scan idx budgets n depth_used frontier
        visited c
      return (r.1, r.2.2) := by
  induction n with
  | zero =>
    intro depth_used frontier visited c
    rfl
  | succ n ih =>
    intro depth_used frontier visited c
    rw [valueLevels, valueLevelsIn]
    split
    · rfl
    · split
      · rfl
      · rw [valueFrontier_mock]
        cases valueFrontierIn (mockCalls b) b.type_vtable_scan idx budgets frontier [] visited c
          with
        | ok r => exact ih _ _ _ _
        | err e => rfl
        | panic p => rfl

lemma value_analysis_mock (root : U64) :
    value_analysis b idx root budgets =
      value_analysisIn (mockCalls b) b.type_vtable_scan idx root budgets := by
  rw [value_analysis, value_analysisIn, valueRun]
  cases Outcome.ofOption (Error.worker s!"no function at {hex root}") idx.functions[root]? with
  | err e => rfl
  | panic p => rfl
  | ok f =>
    simp only [Outcome.ok_bind, valueLevels_mock]
    change (collect_function_valuesIn (mockCalls b) b.type_vtable_scan idx root budgets.max_calls
      ⟨∅, [], false⟩ >>= _) = _
    cases collect_function_valuesIn (mockCalls b) b.type_vtable_scan idx root budgets.max_calls
      ⟨∅, [], false⟩ with
    | err e => rfl
    | panic p => rfl
    | ok c =>
      simp only [Outcome.ok_bind]
      cases valueLevelsIn (mockCalls b) b.type_vtable_scan idx budgets (max budgets.depth 1 - 1) 1
        f.callees ((∅ : AddrSet).insert root) c <;> rfl

end

/-! ## The log of the constants -/

/-- A constant that a call site passes: the function, the position, the value and the site. -/
structure Observation where
  ea : U64
  kind : String
  value : U64
  site : U64

/-- The address of a call site, if it has one. -/
def siteOf (call : Json) : Option U64 :=
  match (call.idx "call_ea").asStr with
  | none => none
  | some text =>
    let call_ea := parseHexOrZero (String.ofList (text.toList.takeWhile (· ≠ '+')))
    if call_ea = 0 then none else some call_ea

/-- The constant that an argument is. -/
def constOf (idx : AnalysisIndex) (arg : Json) : Option U64 :=
  arg.asStr.bind (parse_const_expr · idx)

/-- The position of an argument as it is reported. -/
def argKind (n : ℕ) : String := s!"arg{n}"

/-- What one call site shows. -/
def callLog (idx : AnalysisIndex) (ea : U64) (call : Json) : List Observation :=
  match siteOf call with
  | none => []
  | some site => (items call "args").zipIdx.filterMap fun arg =>
    (constOf idx arg.1).map fun v => ⟨ea, argKind arg.2, v, site⟩

/-- The log of one function: what the call sites among the first ones show. -/
def functionLog (src : CallSource) (idx : AnalysisIndex) (max_calls : ℕ) (ea : U64) :
    List Observation :=
  ((src.body ea).take max_calls).flatMap (callLog idx ea)

/-- One observation goes into its row. -/
def observe (fname : String) (merged : Std.ExtTreeMap (U64 × String) ValueRow) (o : Observation) :
    Std.ExtTreeMap (U64 × String) ValueRow :=
  let row := merged[(o.ea, o.kind)]?.getD ⟨o.ea, fname, o.kind, [], []⟩
  merged.insert (o.ea, o.kind) { row with
    values := if o.value ∈ row.values then row.values else sortByKey id (row.values ++ [o.value])
    sites := if o.site ∈ row.sites then row.sites else row.sites ++ [o.site] }

lemma foldl_addArg {idx : AnalysisIndex} {ea site : U64} {fname : String} {call : Json}
    (hsite : siteOf call = some site) (merged : Std.ExtTreeMap (U64 × String) ValueRow) :
    (items call "args").zipIdx.foldl (addArg idx ea fname site) merged =
      (callLog idx ea call).foldl (observe fname) merged := by
  rw [callLog, hsite]
  simp only [List.foldl_filterMap]
  refine congrArg (fun f => List.foldl f merged _) (funext fun merged => funext fun arg => ?_)
  rw [addArg, ← constOf]
  cases constOf idx arg.1 <;> rfl

/-- The row of a key holds what the log has for it. -/
structure RowOf (log : List Observation) (k : U64 × String) (row : ValueRow) : Prop where
  ea_eq : row.ea = k.1
  kind_eq : row.kind = k.2
  nodup : row.values.Nodup
  mem_values : ∀ v, v ∈ row.values ↔ ∃ o ∈ log, (o.ea, o.kind) = k ∧ o.value = v
  mem_sites : ∀ a, a ∈ row.sites ↔ ∃ o ∈ log, (o.ea, o.kind) = k ∧ o.site = a

/-- The rows hold what the log has. -/
structure Logged (log : List Observation) (merged : Std.ExtTreeMap (U64 × String) ValueRow) :
    Prop where
  row : ∀ k row, merged[k]? = some row → RowOf log k row
  present : ∀ o ∈ log, ∃ row, merged[(o.ea, o.kind)]? = some row

lemma logged_nil : Logged [] ∅ where
  row k row h := by simp at h
  present o ho := by cases ho

/-- The row that an observation goes into, if only an empty one. -/
lemma Logged.rowOf_getD {log : List Observation}
    {merged : Std.ExtTreeMap (U64 × String) ValueRow} (h : Logged log merged) (fname : String)
    (k : U64 × String) : RowOf log k (merged[k]?.getD ⟨k.1, fname, k.2, [], []⟩) := by
  cases hrow : merged[k]? with
  | some row => exact h.row k row hrow
  | none =>
    have hnone : ∀ o ∈ log, (o.ea, o.kind) ≠ k := by
      intro o ho hk
      obtain ⟨row, hrow'⟩ := h.present o ho
      rw [hk, hrow] at hrow'
      cases hrow'
    have hempty : ∀ P : Observation → Prop, ¬ ∃ o ∈ log, (o.ea, o.kind) = k ∧ P o := by
      rintro P ⟨o, ho, hk, -⟩
      exact hnone o ho hk
    refine ⟨rfl, rfl, List.nodup_nil, fun v => ?_, fun a => ?_⟩
    · exact iff_of_false List.not_mem_nil (hempty _)
    · exact iff_of_false List.not_mem_nil (hempty _)

/-- The row of another key does not change. -/
lemma RowOf.append_of_ne {log : List Observation} {k : U64 × String} {row : ValueRow}
    (h : RowOf log k row) {o : Observation} (hne : (o.ea, o.kind) ≠ k) :
    RowOf (log ++ [o]) k row := by
  have hskip : ∀ P : Observation → Prop, (∃ p ∈ log ++ [o], (p.ea, p.kind) = k ∧ P p) ↔
      ∃ p ∈ log, (p.ea, p.kind) = k ∧ P p := by
    intro P
    simp [List.mem_append, or_and_right, exists_or, hne]
  refine ⟨h.ea_eq, h.kind_eq, h.nodup, fun v => ?_, fun a => ?_⟩
  · rw [hskip, h.mem_values]
  · rw [hskip, h.mem_sites]

lemma mem_insertSite {l : List U64} {v w : U64} :
    v ∈ (if w ∈ l then l else l ++ [w]) ↔ v ∈ l ∨ w = v := by
  split
  · rename_i hw
    constructor
    · exact .inl
    · rintro (hv | rfl)
      · exact hv
      · exact hw
  · rw [List.mem_append, List.mem_singleton, @eq_comm _ v]

lemma mem_insertValue {l : List U64} {v w : U64} :
    v ∈ (if w ∈ l then l else sortByKey id (l ++ [w])) ↔ v ∈ l ∨ w = v := by
  rw [← mem_insertSite]
  split
  · rfl
  · exact (sortByKey_perm id _).mem_iff

lemma nodup_insertValue {l : List U64} (h : l.Nodup) (w : U64) :
    (if w ∈ l then l else sortByKey id (l ++ [w])).Nodup := by
  split
  · exact h
  · rename_i hw
    rw [(sortByKey_perm id _).nodup_iff, List.nodup_append]
    refine ⟨h, List.nodup_singleton w, fun a ha b hb => ?_⟩
    rintro rfl
    exact hw (List.mem_singleton.mp hb ▸ ha)

/-- An observation is logged. -/
lemma Logged.observe {log : List Observation} {merged : Std.ExtTreeMap (U64 × String) ValueRow}
    (h : Logged log merged) (fname : String) (o : Observation) :
    Logged (log ++ [o]) (Valuean.observe fname merged o) := by
  have hlog : ∀ P : Observation → Prop,
      (∃ p ∈ log ++ [o], (p.ea, p.kind) = (o.ea, o.kind) ∧ P p) ↔
        (∃ p ∈ log, (p.ea, p.kind) = (o.ea, o.kind) ∧ P p) ∨ P o := by
    intro P
    simp [List.mem_append, or_and_right, exists_or]
  have hrow := h.rowOf_getD fname (o.ea, o.kind)
  constructor
  · intro k row hk
    rw [Valuean.observe, getElem?_insert_eq_ite] at hk
    split at hk
    · rename_i hkey
      subst hkey
      obtain rfl := Option.some.inj hk
      refine ⟨hrow.ea_eq, hrow.kind_eq, nodup_insertValue hrow.nodup _, fun v => ?_, fun a => ?_⟩
      · rw [hlog, ← hrow.mem_values]
        exact mem_insertValue
      · rw [hlog, ← hrow.mem_sites]
        exact mem_insertSite
    · rename_i hkey
      exact (h.row k row hk).append_of_ne (Ne.symm hkey)
  · intro p hp
    rw [Valuean.observe, getElem?_insert_eq_ite]
    split
    · exact ⟨_, rfl⟩
    · rename_i hne
      rcases List.mem_append.mp hp with hp | hp
      · exact h.present p hp
      · obtain rfl := List.mem_singleton.mp hp
        exact absurd rfl hne

lemma Logged.foldl (fname : String) (l : List Observation) : ∀ {log merged}, Logged log merged →
      Logged (log ++ l) (l.foldl (Valuean.observe fname) merged) := by
  induction l with
  | nil =>
    intro log merged h
    rwa [List.append_nil]
  | cons o l ih =>
    intro log merged h
    have hnext := ih (h.observe fname o)
    rwa [List.append_assoc, List.singleton_append] at hnext

/-! ## What a run collects -/

/-- The site of a call whose target is not known, with its function. -/
def callIndirect (ea : U64) (call : Json) : List (U64 × U64) :=
  match siteOf call with
  | none => []
  | some site => if ((call.idx "direct").asBool).getD false then [] else [(ea, site)]

/-- The calls without a known target among the first ones of a function. -/
def functionIndirect (src : CallSource) (max_calls : ℕ) (ea : U64) : List (U64 × U64) :=
  ((src.body ea).take max_calls).flatMap (callIndirect ea)

/-- The function and the site that a row of the indirect calls is about. -/
def indirectKey (row : Json) : Json × Json := (row.idx "ea", row.idx "call_ea")

/-- A function and a site as they stand in a row. -/
def eaPair (p : U64 × U64) : Json × Json := (.ea p.1, .ea p.2)

/-- The collection holds what the functions show, and, as long as it is not marked, all their calls
without a known target. -/
structure Collects (src : CallSource) (idx : AnalysisIndex) (max_calls : ℕ) (fs : List U64)
    (c : Collected) : Prop where
  logged : Logged (fs.flatMap (functionLog src idx max_calls)) c.merged
  indirect : c.truncated = false →
    c.indirect.map indirectKey = (fs.flatMap (functionIndirect src max_calls)).map eaPair
  answered : ∀ f ∈ fs, ∃ info, src.deep_function_info f max_calls = .ok info

section
variable [Host] {src : CallSource} {type_vtable_scan : U64 → ℕ → Result Json}
  {idx : AnalysisIndex} {ea : U64} {max_calls : ℕ} {c c' : Collected}

lemma indirectKey_proposal {fname : String} {site : U64} {call row : Json}
    (h : indirect_proposalIn type_vtable_scan idx ea fname site call = .ok row) :
    indirectKey row = eaPair (ea, site) := by
  obtain ⟨proposals, -, h⟩ := Outcome.bind_eq_ok.mp h
  cases h
  rfl

lemma collectCallIn_eq (fname : String) (call : Json) :
    collectCallIn type_vtable_scan idx ea fname max_calls c call =
      match siteOf call with
      | none => .ok c
      | some site =>
        let merged := (items call "args").zipIdx.foldl (addArg idx ea fname site) c.merged
        if ((call.idx "direct").asBool).getD false then .ok { c with merged }
        else if max_calls ≤ c.indirect.length then .ok { c with merged, truncated := true }
        else do
          let row ← indirect_proposalIn type_vtable_scan idx ea fname site call
          return { c with merged, indirect := c.indirect ++ [row] } := by
  rw [collectCallIn, siteOf]
  cases (call.idx "call_ea").asStr with
  | none => rfl
  | some text =>
    dsimp only
    generalize parseHexOrZero _ = call_ea
    by_cases hzero : call_ea = 0
    · rw [if_pos hzero, if_pos hzero]
    · rw [if_neg hzero, if_neg hzero]

/-- One call site: its constants go into the rows, and its target into the calls without one unless
there is no room. -/
lemma collectCallIn_spec {fname : String} {call : Json}
    (h : collectCallIn type_vtable_scan idx ea fname max_calls c call = .ok c') :
    c'.merged = (callLog idx ea call).foldl (observe fname) c.merged ∧
      (c'.truncated = false → c.truncated = false ∧
        c'.indirect.map indirectKey =
          c.indirect.map indirectKey ++ (callIndirect ea call).map eaPair) := by
  rw [collectCallIn_eq] at h
  cases hsite : siteOf call with
  | none =>
    rw [hsite] at h
    cases h
    simp [callLog, callIndirect, hsite]
  | some site =>
    simp only [hsite, foldl_addArg hsite] at h
    by_cases hdirect : ((call.idx "direct").asBool).getD false = true
    · rw [if_pos hdirect] at h
      cases h
      simp [callIndirect, hsite, hdirect]
    · rw [if_neg hdirect] at h
      split at h
      · cases h
        simp
      · obtain ⟨row, hrow, h⟩ := Outcome.bind_eq_ok.mp h
        cases h
        simp [callIndirect, hsite, hdirect, indirectKey_proposal hrow]

/-- A function is collected. -/
lemma collect_function_valuesIn_spec {fs : List U64} (hc : Collects src idx max_calls fs c)
    (h : collect_function_valuesIn src type_vtable_scan idx ea max_calls c = .ok c') :
    Collects src idx max_calls (fs ++ [ea]) c' ∧ (c'.truncated = false → c.truncated = false) := by
  obtain ⟨info, hinfo, h⟩ := Outcome.bind_eq_ok.mp h
  rw [src.calls_eq ea max_calls info hinfo, List.take_take, Nat.min_self] at h
  have hrun := @Outcome.foldList_invariant _ _ _ _ (fun front d =>
      Logged (fs.flatMap (functionLog src idx max_calls) ++ front.flatMap (callLog idx ea))
        d.merged ∧
      (d.truncated = false → c.truncated = false ∧ d.indirect.map indirectKey =
        c.indirect.map indirectKey ++ (front.flatMap (callIndirect ea)).map eaPair)) _ _ _ h
    ⟨by simpa using hc.logged, fun ht => ⟨ht, by simp⟩⟩ ?_
  · obtain ⟨hlogged, hindirect⟩ := hrun
    refine ⟨⟨?_, fun ht => ?_, fun f hf => ?_⟩, fun ht => (hindirect ht).1⟩
    · rw [List.flatMap_append, List.flatMap_singleton]
      exact hlogged
    · obtain ⟨ht', hmap⟩ := hindirect ht
      rw [hmap, hc.indirect ht', List.flatMap_append, List.flatMap_singleton, List.map_append]
      rfl
    · rcases List.mem_append.mp hf with hf | hf
      · exact hc.answered f hf
      · exact ⟨info, List.mem_singleton.mp hf ▸ hinfo⟩
  · intro front call d d' hd hstep
    obtain ⟨hlogged, hindirect⟩ := hd
    obtain ⟨hmerged, hnext⟩ := collectCallIn_spec hstep
    constructor
    · rw [hmerged, List.flatMap_append, List.flatMap_singleton, ← List.append_assoc]
      exact hlogged.foldl _ _
    · intro ht
      obtain ⟨ht', hmap'⟩ := hnext ht
      obtain ⟨ht'', hmap⟩ := hindirect ht'
      rw [hmap', hmap, List.flatMap_append, List.flatMap_singleton, List.map_append,
        List.append_assoc]
      exact ⟨ht'', rfl⟩

/-! ## The walk -/

variable {budgets : DeepBudgets}

omit [Host] in
lemma Collects.cut {fs : List U64} (h : Collects src idx max_calls fs c) :
    Collects src idx max_calls fs { c with truncated := true } :=
  ⟨h.logged, fun ht => (by cases ht), h.answered⟩

omit [Host] in
lemma calleesOf_of_not_mem {f : U64} (h : f ∉ idx.functions) : calleesOf idx f = [] := by
  rw [calleesOf, Std.ExtTreeMap.getElem?_eq_none h]

/-- One level: it collects functions, and without a mark these are the new ones of the frontier
that are indexed. -/
lemma valueFrontierIn_spec (frontier : List U64) :
    ∀ {next next' : List U64} {visited visited' : AddrSet} {c c' : Collected} {fs : List U64},
      Collects src idx budgets.max_calls fs c →
      valueFrontierIn src type_vtable_scan idx budgets frontier next visited c =
        .ok (c', visited', next') →
      ∃ new, Collects src idx budgets.max_calls (fs ++ new) c' ∧
        (c'.truncated = false → c.truncated = false ∧
          Graph.Level (calleesOf idx) (· ∈ idx.functions) frontier next (· ∈ visited) new next'
            (· ∈ visited')) := by
  induction frontier with
  | nil =>
    intro next next' visited visited' c c' fs hc h
    cases h
    exact ⟨[], by rwa [List.append_nil], fun ht => ⟨ht, .nil⟩⟩
  | cons callee rest ih =>
    intro next next' visited visited' c c' fs hc h
    have hinsert : ∀ f, f ∈ visited.insert callee ↔ f ∈ visited ∨ f = callee :=
      fun f => mem_treeSet_insert.trans or_comm
    rw [valueFrontierIn] at h
    split at h
    · cases h
      exact ⟨[], by rw [List.append_nil]; exact hc.cut, fun ht => by cases ht⟩
    · split at h
      · -- the callee is passed over
        rename_i hskip
        rw [Bool.or_eq_true, Std.ExtTreeSet.contains_iff_mem, Bool.not_eq_true',
          Bool.eq_false_iff, ne_eq, Std.ExtTreeMap.contains_iff_mem] at hskip
        obtain ⟨new, hnew, hspec⟩ := ih hc h
        refine ⟨new, hnew, fun ht => ⟨(hspec ht).1, (hspec ht).2.pass hinsert ?_⟩⟩
        exact hskip.imp_right fun hindexed => ⟨calleesOf_of_not_mem hindexed, hindexed⟩
      · rename_i hskip
        obtain ⟨hvisit, hindexed⟩ : callee ∉ visited ∧ callee ∈ idx.functions := by
          simpa using hskip
        split at h
        · cases h
          exact ⟨[], by rw [List.append_nil]; exact hc.cut, fun ht => by cases ht⟩
        · obtain ⟨d, hd, h⟩ := Outcome.bind_eq_ok.mp h
          obtain ⟨hcollect, hmark⟩ := collect_function_valuesIn_spec hc hd
          obtain ⟨new, hnew, hspec⟩ := ih hcollect h
          refine ⟨callee :: new, by simpa using hnew, fun ht => ?_⟩
          exact ⟨hmark (hspec ht).1, (hspec ht).2.take hinsert hvisit hindexed⟩

/-- What a run has that went through all levels without a mark: it has visited what lies within
fewer than `n` calls of the root, and collected what is indexed of that. -/
structure Covered (idx : AnalysisIndex) (root : U64) (n : ℕ) (fs : List U64) (visited : AddrSet) :
    Prop where
  mem_visited : ∀ f, f ∈ visited ↔ ∃ m < n, Graph.Within (calleesOf idx) [root] m f
  mem_iff : ∀ f, f ∈ fs ↔ f ∈ visited ∧ f ∈ idx.functions

/-- The levels: what they collect is logged, and without a mark they come to everything within
their depth. -/
lemma valueLevelsIn_spec {root : U64} {d' : ℕ} (n : ℕ) :
    ∀ {d : ℕ} {frontier : List U64} {visited visited' : AddrSet} {c c' : Collected}
      {fs : List U64}, Collects src idx budgets.max_calls fs c →
      (c.truncated = false → Graph.Border (calleesOf idx) [root] d (· ∈ visited) frontier ∧
        ∀ f, f ∈ fs ↔ f ∈ visited ∧ f ∈ idx.functions) →
      valueLevelsIn src type_vtable_scan idx budgets n d frontier visited c =
        .ok (c', visited', d') →
      ∃ gs, Collects src idx budgets.max_calls gs c' ∧
        (c'.truncated = false → Covered idx root (d + n) gs visited') := by
  induction n with
  | zero =>
    intro d frontier visited visited' c c' fs hc hborder h
    cases h
    exact ⟨fs, hc, fun ht => ⟨(hborder ht).1.seen_iff, (hborder ht).2⟩⟩
  | succ n ih =>
    intro d frontier visited visited' c c' fs hc hborder h
    rw [valueLevelsIn] at h
    split at h
    · -- the walk is over before the depth is used up
      rename_i hempty
      cases h
      refine ⟨fs, hc, fun ht => ⟨?_, (hborder ht).2⟩⟩
      have hnil := (hborder ht).1
      rw [List.isEmpty_iff.mp hempty] at hnil
      exact hnil.of_nil (n + 1)
    · split at h
      · cases h
        exact ⟨fs, hc.cut, fun ht => by cases ht⟩
      · obtain ⟨⟨e, visited₁, next⟩, he, h⟩ := Outcome.bind_eq_ok.mp h
        obtain ⟨new, hnew, hspec⟩ := valueFrontierIn_spec frontier hc he
        have hstep : e.truncated = false →
            Graph.Border (calleesOf idx) [root] (d + 1) (· ∈ visited₁) next ∧
              ∀ f, f ∈ fs ++ new ↔ f ∈ visited₁ ∧ f ∈ idx.functions := by
          intro ht
          obtain ⟨ht', hlevel⟩ := hspec ht
          obtain ⟨hB, hfs⟩ := hborder ht'
          refine ⟨hB.level hlevel, fun f => ?_⟩
          rw [List.mem_append, hfs, hlevel.new_iff, hlevel.seen_iff]
          tauto
        obtain ⟨gs, hgs, hcovered⟩ := ih hnew hstep h
        refine ⟨gs, hgs, fun ht => ?_⟩
        have hdepth : d + (n + 1) = d + 1 + n := by omega
        rw [hdepth]
        exact hcovered ht

/-- A run collects the functions it visits, and without a mark these are all within its depth. -/
lemma valueRun_spec {root : U64} {visited : AddrSet} {d : ℕ}
    (h : valueRun src type_vtable_scan idx root budgets = .ok (c, visited, d)) :
    ∃ fs, Collects src idx budgets.max_calls fs c ∧
      (c.truncated = false → Covered idx root (max budgets.depth 1) fs visited) := by
  obtain ⟨f, hf, h⟩ := Outcome.bind_eq_ok.mp h
  obtain ⟨c₁, hc₁, h⟩ := Outcome.bind_eq_ok.mp h
  have hroot : idx.functions[root]? = some f := by
    cases hlookup : idx.functions[root]? with
    | none =>
      rw [hlookup] at hf
      cases hf
    | some g =>
      rw [hlookup] at hf
      cases hf
      rfl
  have hempty : Collects src idx budgets.max_calls [] ⟨∅, [], false⟩ := 
    ⟨logged_nil, fun _ => rfl, by simp⟩
  obtain ⟨hcollect, -⟩ := collect_function_valuesIn_spec hempty hc₁
  have hborder : Graph.Border (calleesOf idx) [root] (0 + 1) (· ∈ (∅ : AddrSet).insert root)
      f.callees := by
    refine Graph.Border.start.next (fun v => ?_) fun v => ?_
    · rw [mem_treeSet_insert, List.mem_singleton]
      simp
    · simp [calleesOf, hroot]
  have hdepth : max budgets.depth 1 = 0 + 1 + (max budgets.depth 1 - 1) := by omega
  rw [hdepth]
  refine valueLevelsIn_spec _ hcollect (fun _ => ⟨hborder, fun g => ?_⟩) h
  rw [List.nil_append, List.mem_singleton, mem_treeSet_insert]
  constructor
  · rintro rfl
    exact ⟨.inl rfl, Std.ExtTreeMap.mem_iff_isSome_getElem?.mpr (by simp [hroot])⟩
  · rintro ⟨rfl | hg, -⟩
    · rfl
    · simp at hg

end

end Valuean

end ReverseMcp
