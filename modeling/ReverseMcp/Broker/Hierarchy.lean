import ReverseMcp.Broker.Frontier
import ReverseMcp.Broker.IsolatedRuns
import ReverseMcp.Broker.RegionCycles
import ReverseMcp.Broker.RegionWindows
import ReverseMcp.Broker.Serving

/-!
# Analysis by regions

`rmcp_broker::largefn_tools`: a function that the preflight finds too large is partitioned into
regions, and the first of them are analysed by disposable workers, one after the other.  The
overview says of each what has become of it, and which regions are left.

Its counts and its status account for every block of the function (`overview_accounts`).  Two things
come out otherwise than an agent would read them.  The frontier of the overview leaves out regions
that were not analysed (`overview_frontier_incomplete`), and a disposable worker selects the mock
backend, so that the evidence of a region is the same whatever the database is
(`overview_evidence_mock`).
-/

namespace ReverseMcp

open Rust

/-! ## The preflight -/

/-- `AnalysisMode`. -/
inductive AnalysisMode where
  | normal
  | large
  | pathological
deriving DecidableEq

/-- `Thresholds`. -/
structure Thresholds where
  large_blocks : ℕ := 1500
  large_edges : ℕ := 2500
  large_bytes : ℕ := 100000
  pathological_blocks : ℕ := 10000
  pathological_edges : ℕ := 20000
  pathological_bytes : ℕ := 500000
  pathological_sccs : ℕ := 50

/-- `FunctionComplexity`. -/
structure FunctionComplexity where
  byte_size : U64 := 0
  blocks : ℕ := 0
  edges : ℕ := 0
  cyclomatic : ℕ := 0
  indirect_blocks : ℕ := 0
  direct_calls : ℕ := 0
  indirect_calls : ℕ := 0
  switches : ℕ := 0
  chunks : ℕ := 0
  sccs : ℕ := 0
  max_scc_size : ℕ := 0
  loops : ℕ := 0
  instruction_density : ℚ := 0
  decompiler_available : Bool := false

namespace FunctionComplexity

/-- `FunctionComplexity::mode`. -/
def mode (c : FunctionComplexity) (t : Thresholds) : AnalysisMode :=
  if t.pathological_blocks ≤ c.blocks ∨ t.pathological_edges ≤ c.edges ∨
      t.pathological_bytes ≤ c.byte_size.val ∨ t.pathological_sccs ≤ c.sccs then .pathological
  else if t.large_blocks ≤ c.blocks ∨ t.large_edges ≤ c.edges ∨
      t.large_bytes ≤ c.byte_size.val then .large
  else .normal

/-- `Serialize`. -/
def to_value (c : FunctionComplexity) : Json :=
  .object [("byte_size", .u64 c.byte_size), ("blocks", .nat c.blocks), ("edges", .nat c.edges),
    ("cyclomatic", .nat c.cyclomatic), ("indirect_blocks", .nat c.indirect_blocks),
    ("direct_calls", .nat c.direct_calls), ("indirect_calls", .nat c.indirect_calls),
    ("switches", .nat c.switches), ("chunks", .nat c.chunks), ("sccs", .nat c.sccs),
    ("max_scc_size", .nat c.max_scc_size), ("loops", .nat c.loops),
    ("instruction_density", .number (.float c.instruction_density)),
    ("decompiler_available", c.decompiler_available)]

end FunctionComplexity

/-- `complexity_from_function_graph`; nothing counts the components of the graph. -/
def complexity_from_function_graph (func graph : Json) (decompiler_available : Bool) :
    FunctionComplexity :=
  let start := (func.idx "ea_start").asU64.getD 0
  let stop := (func.idx "ea_end").asU64.getD 0
  let blocks := (graphNodes graph).length
  let edges := (graphEdges graph).length
  { byte_size := asU64 (stop.val - start.val)
    blocks
    edges
    cyclomatic := edges - blocks + 2
    indirect_blocks := (graphNodes graph).countP nodeIndirect
    chunks := (graphNodes graph).countP fun n => (n.idx "chunk").asBool.getD false
    decompiler_available }

/-! ## Regions in disposable workers -/

/-- The digits of `frac` behind the point, without zeros at the end; `frac` is less than
`10 ^ width`. -/
def fractionDigits : ℕ → ℕ → List Char
  | 0, _ => []
  | width + 1, frac =>
    if frac = 0 then []
    else Nat.digitChar (frac / 10 ^ width) :: fractionDigits width (frac % 10 ^ width)

/-- A number with a fraction and a unit. -/
def decimalText (n width frac : ℕ) (unit : String) : String :=
  let digits := fractionDigits width frac
  toString n ++ (if digits = [] then "" else "." ++ String.ofList digits) ++ unit

/-- `Debug` of a duration in nanoseconds. -/
def debugDuration (duration : ℕ) : String :=
  let secs := duration / 10 ^ 9
  let nanos := duration % 10 ^ 9
  if 0 < secs then decimalText secs 9 nanos "s"
  else if 10 ^ 6 ≤ nanos then decimalText (nanos / 10 ^ 6) 6 (nanos % 10 ^ 6) "ms"
  else if 10 ^ 3 ≤ nanos then decimalText (nanos / 10 ^ 3) 3 (nanos % 10 ^ 3) "µs"
  else decimalText nanos 0 0 "ns"

/-- What the tools find outside of the broker: whether the executable of the worker has been found,
what the `i`-th `run_isolated` of `region.evidence` returns for a database path, the parameters and
the timeout, the counters behind it, and the clock of `run_dataflow`. -/
structure Disposables where
  worker_exe : Bool
  run : ℕ → String → Json → ℕ → Except Error DisposableOutcome
  stats : IsoStats
  clock : ℕ → ℕ

/-- `IsoStats::snapshot`. -/
def IsoStats.snapshot (s : IsoStats) : Json :=
  .object [("spawned", .u64 s.spawned), ("killed_timeout", .u64 s.killed_timeout),
    ("killed_crash", .u64 s.killed_crash), ("exited_clean", .u64 s.exited_clean),
    ("rejected_cap", .u64 s.rejected_cap)]

namespace Region

/-- The status of an analysed region, and its evidence. -/
def evidence (r : Region) : Except Error DisposableOutcome → String × Json
  | .ok (.ok v) => ("complete", v)
  | .ok (.badResponse detail _) => ("partial_fallback_raw",
      .object [("fallback", "raw_ida_disassembly"), ("hexrays_error", detail),
        ("blocks", .nat r.block_eas.length)])
  | .ok (.timeout after stage) => ("timeout",
      .object [("hexrays_error", s!"hard timeout after {debugDuration after}"), ("stage", stage),
        ("note", "disposable worker killed; primary session unaffected")])
  | .ok (.crashed detail stage) => ("crashed",
      .object [("hexrays_error", detail), ("stage", stage),
        ("note", "disposable worker killed; primary session unaffected")])
  | .error e => ("rejected",
      .object [("error", e.text),
        ("note", "isolation cap or setup failure; primary session unaffected")])

/-- The row of an analysed region. -/
def row (r : Region) (outcome : Except Error DisposableOutcome) : Json :=
  .object [("region_id", r.region_id), ("role", r.role.to_value),
    ("blocks", .nat r.block_eas.length), ("status", (r.evidence outcome).1),
    ("evidence", (r.evidence outcome).2)]

/-- What `function_region` shows of an attempt with Hex-Rays. -/
def attempt : Except Error DisposableOutcome → Json
  | .ok (.ok v) => v
  | .ok (.badResponse detail stage) =>
    .object [("status", "fallback_raw"), ("hexrays_error", detail), ("stage", stage)]
  | .ok (.timeout after stage) =>
    .object [("status", "timeout"), ("after", debugDuration after), ("stage", stage)]
  | .ok (.crashed detail stage) =>
    .object [("status", "crashed"), ("detail", detail), ("stage", stage)]
  | .error e => .object [("status", "rejected"), ("error", e.text)]

end Region

/-- The variables of the loop over the regions. -/
structure RegionRuns where
  region_outcomes : List Json := []
  facts : Std.ExtTreeMap String RegionFacts := ∅
  analyzed : ℕ := 0
  hexrays_failures : ℕ := 0

/-- The body of the loop, for the region at a place. -/
def RegionRuns.region (d : Disposables) (db_path : String) (hard_timeout : ℕ) (runs : RegionRuns)
    (p : Region × ℕ) : RegionRuns :=
  let outcome := d.run p.2 db_path (RegionRequest.hierarchicalEvidence.params p.1 4000) hard_timeout
  let counted := match outcome with
    | .ok (.ok _) => { runs with analyzed := runs.analyzed + 1 }
    | .ok (.badResponse _ _) =>
      { runs with analyzed := runs.analyzed + 1, hexrays_failures := runs.hexrays_failures + 1 }
    | _ => runs
  { counted with
    region_outcomes := runs.region_outcomes ++ [p.1.row outcome]
    facts := runs.facts.insert p.1.region_id ⟨[]⟩ }

/-- The loop over the regions. -/
def analyzeRegions (d : Disposables) (db_path : String) (hard_timeout : ℕ) (regions : List Region) :
    RegionRuns := regions.zipIdx.foldl (RegionRuns.region d db_path hard_timeout) {}

/-- The fixpoint over the partition, of which the first regions have been analysed. -/
def overviewFlow (d : Disposables) (db_path : String) (hard_timeout : ℕ) (p : Partition)
    (max_regions : ℕ) : DataflowResult :=
  run_dataflow p (analyzeRegions d db_path hard_timeout (p.regions.take max_regions)).facts {}
    d.clock

/-- The overview of a function that is not normal. -/
def overview (d : Disposables) (db_path : String) (ea : U64) (complexity : FunctionComplexity)
    (mode : AnalysisMode) (p : Partition) (max_regions hard_timeout : ℕ) : Json :=
  let runs := analyzeRegions d db_path hard_timeout (p.regions.take max_regions)
  let dataflow := overviewFlow d db_path hard_timeout p max_regions
  let remaining := p.regions.length - max_regions
  .object [
    ("mode", match mode with
      | .normal => "normal"
      | .large => "large_region"
      | .pathological => "pathological"),
    ("complexity", complexity.to_value),
    ("function_ea", .ea ea),
    ("partition", .object [("version", .nat p.version.val),
      ("regions_total", .nat p.regions.length), ("regions_requested", .nat max_regions),
      ("regions_skipped", .nat remaining), ("diagnostics", .strings p.diagnostics)]),
    ("important_regions", .array runs.region_outcomes),
    ("analysis_status", .string
      (if runs.analyzed < p.regions.length then "partial" else "complete")),
    ("hexrays_failures", .nat runs.hexrays_failures),
    ("resume", .object [("frontier", .strings dataflow.frontier),
      ("hint", .string (if 0 < remaining then
        "more regions remain: re-run with a larger max_regions or drill into a region via " ++
          "workflow=function_region"
        else "drill into a region via workflow=function_region with its region_id"))]),
    ("dataflow", .object [("iterations", .nat dataflow.iterations),
      ("converged", dataflow.converged), ("stop_reason", dataflow.stop_reason)]),
    ("isolation", d.stats.snapshot)]

/-! ## The tools -/

namespace Tools

variable [Host]

/-- `CFG_MAX_NODES`. -/
def CFG_MAX_NODES : U64 := 200000

/-- `CFG_MAX_EDGES`. -/
def CFG_MAX_EDGES : U64 := 400000

/-- The parameters for the control flow graph of a function. -/
def cfgParams (ea : U64) : List (String × Json) :=
  [("ea", .ea ea), ("kind", "cfg"), ("depth", .nat 1), ("max_nodes", .u64 CFG_MAX_NODES),
    ("max_edges", .u64 CFG_MAX_EDGES)]

/-- `WorkerSession::db_path` of the session. -/
def Broker.db_path (b : Broker) (db : String) : String :=
  ((b.session db).map fun s => s.session.session_meta.db_path).getD ""

/-- `hard_timeout_ms` of the arguments, in nanoseconds. -/
def hardTimeout (args : Json) : ℕ :=
  clamp (arg_u64 args "hard_timeout_ms" 120000).val 5000 1800000 * 10 ^ 6

/-- `tool_analyze_hierarchical`. -/
def tool_analyze_hierarchical (env : Env) (d : Disposables) (args : Json) : Tool Json := do
  let db ← resolve_db (arg_str args "db")
  let ea ← orReject "function_hierarchical requires 'ea'" (arg_ea args "ea")
  let max_regions := clamp (arg_u64 args "max_regions" 16).val 1 256
  let func ← call env db "function_at" [("ea", .ea ea)]
  let graph ← call env db "graph" (cfgParams ea)
  let caps ← call env db "capabilities" []
  let decompiler_available := ((caps.get "decompile").bind Json.asBool).getD false
  let complexity := complexity_from_function_graph func graph decompiler_available
  match complexity.mode {} with
  | .normal => do
    let req := (without args "db").set "workflow" "function_context"
    let out ← call env db "workflow.run" [("workflow_req", req)]
    return .object [("db", db), ("analysis", out), ("mode", "normal"),
      ("complexity", complexity.to_value)]
  | mode => do
    let p ← Action.lift (partition_from_graph graph ea {})
    if d.worker_exe = false then reject "worker_missing" "worker exe not found"
    else do
      let b ← Action.get
      let report := overview d (b.db_path db) ea complexity mode p max_regions (hardTimeout args)
      return .object [("db", db),
        ("analysis", ← bound_output "ida_analyze.function_hierarchical" report)]

/-- The answer for a region that there is not. -/
def unknownRegion (region_id : String) (ea : U64) (p : Partition) : String :=
  s!"region '{region_id}' not in partition of {hex ea}; valid regions: " ++
    ",".intercalate (p.regions.map Region.region_id)

/-- `tool_analyze_region`. -/
def tool_analyze_region (env : Env) (d : Disposables) (args : Json) : Tool Json := do
  let db ← resolve_db (arg_str args "db")
  let ea ← orReject "function_region requires 'ea'" (arg_ea args "ea")
  let region_id ← orReject "function_region requires 'region_id'" (arg_str args "region_id")
  let max_insns := asU64 (clamp (arg_u64 args "max_insns" 4000).val 10 20000)
  let graph ← call env db "graph" (cfgParams ea)
  let p ← Action.lift (partition_from_graph graph ea {})
  match p.region region_id with
  | none => reject "unknown_region" (unknownRegion region_id ea p)
  | some r => do
    let disasm ← callWith env db "disassemble" (RegionRequest.regionDisassemble.params r max_insns)
    let b ← Action.get
    let hexrays :=
      if arg_u64 args "try_hexrays" 1 = 1 ∧ d.worker_exe = true then
        some (Region.attempt (d.run 0 (b.db_path db)
          (RegionRequest.regionEvidence.params r max_insns) (hardTimeout args)))
      else none
    let out := Json.object [("function_ea", .ea ea), ("region_id", r.region_id),
      ("role", r.role.to_value), ("blocks", .nat r.block_eas.length),
      ("block_eas", .array (r.block_eas.map Json.ea)), ("pred_regions", .strings r.pred_regions),
      ("succ_regions", .strings r.succ_regions), ("partition_reason", r.partition_reason),
      ("disassembly", disasm), ("hexrays", .opt hexrays)]
    return .object [("db", db), ("region", ← bound_output "ida_analyze.function_region" out)]

variable {env : Env} {args : Json}

lemma tool_analyze_hierarchical_asks (d : Disposables) :
    Asking (Manner.reads.Asks args) args (tool_analyze_hierarchical env d args) := by
  refine asking_of_resolve fun db => (orReject_serves _ _).bind fun ea => ?_
  refine (call_reads_asks ⟨_, rfl, rfl⟩).bind fun func => ?_
  refine (call_reads_asks ⟨_, rfl, rfl⟩).bind fun graph => ?_
  refine (call_reads_asks ⟨_, rfl, rfl⟩).bind fun caps => ?_
  dsimp only
  split
  · exact (call_reads_asks ⟨_, rfl, rfl⟩).bind fun _ => .pure _
  · refine (Action.Keeps.lift _).bind fun p => ?_
    split
    · exact reject_serves _ _
    · exact Action.Keeps.get.bind fun _ => (bound_output_serves _ _).bind fun _ => .pure _

lemma tool_analyze_region_asks (d : Disposables) :
    Asking (Manner.reads.Asks args) args (tool_analyze_region env d args) := by
  refine asking_of_resolve fun db => (orReject_serves _ _).bind fun ea => ?_
  refine (orReject_serves _ _).bind fun region_id => ?_
  refine (call_reads_asks ⟨_, rfl, rfl⟩).bind fun graph => (Action.Keeps.lift _).bind fun p => ?_
  dsimp only
  split
  · exact reject_serves _ _
  · refine (callWith_asks (ReadsMethod.asks ⟨_, rfl, rfl⟩ .reads args _)).bind fun _ => ?_
    exact Action.Keeps.get.bind fun _ => (bound_output_serves _ _).bind fun _ => .pure _

end Tools

/-! ## The loop over the regions -/

section Loop

variable (d : Disposables) (db_path : String) (hard_timeout : ℕ)

/-- The outcome of the region at a place. -/
def Disposables.outcome (p : Region × ℕ) : Except Error DisposableOutcome :=
  d.run p.2 db_path (RegionRequest.hierarchicalEvidence.params p.1 4000) hard_timeout

/-- The worker for the region at a place has answered, be it with an error. -/
def Disposables.answered (p : Region × ℕ) : Bool :=
  match d.outcome db_path hard_timeout p with
  | .ok (.ok _) | .ok (.badResponse _ _) => true
  | _ => false

/-- The worker for the region at a place has answered with an error. -/
def Disposables.failed (p : Region × ℕ) : Bool :=
  match d.outcome db_path hard_timeout p with
  | .ok (.badResponse _ _) => true
  | _ => false

lemma RegionRuns.foldl_region (l : List (Region × ℕ)) (runs : RegionRuns) :
    (l.foldl (RegionRuns.region d db_path hard_timeout) runs).region_outcomes =
        runs.region_outcomes ++ l.map (fun p => p.1.row (d.outcome db_path hard_timeout p)) ∧
      ∀ x, x ∈ (l.foldl (RegionRuns.region d db_path hard_timeout) runs).facts ↔
        x ∈ runs.facts ∨ ∃ p ∈ l, p.1.region_id = x := by
  induction l generalizing runs with
  | nil => simp
  | cons p l ih =>
    obtain ⟨hrows, hfacts⟩ := ih (runs.region d db_path hard_timeout p)
    rw [List.foldl_cons]
    constructor
    · rw [hrows]
      simp [RegionRuns.region, Disposables.outcome]
    · intro x
      rw [hfacts]
      simp only [RegionRuns.region, Std.ExtTreeMap.mem_insert, Std.compare_eq_iff_eq,
        List.mem_cons, exists_eq_or_imp]
      tauto

/-- The rows are those of the regions, in their order. -/
lemma analyzeRegions_rows (regions : List Region) :
    (analyzeRegions d db_path hard_timeout regions).region_outcomes =
      regions.zipIdx.map fun p => p.1.row (d.outcome db_path hard_timeout p) := by
  rw [analyzeRegions, (RegionRuns.foldl_region d db_path hard_timeout _ {}).1]
  rfl

/-- There are facts of the analysed regions, and of no others. -/
lemma mem_analyzeRegions_facts {regions : List Region} {x : String} :
    x ∈ (analyzeRegions d db_path hard_timeout regions).facts ↔
      ∃ r ∈ regions, r.region_id = x := by
  rw [analyzeRegions, (RegionRuns.foldl_region d db_path hard_timeout _ {}).2]
  constructor
  · rintro (hx | ⟨⟨r, i⟩, hp, rfl⟩)
    · simp at hx
    · exact ⟨r, (List.mem_zipIdx' hp).2 ▸ List.getElem_mem _, rfl⟩
  · rintro ⟨r, hr, rfl⟩
    obtain ⟨i, hi, rfl⟩ := List.getElem_of_mem hr
    have hplace : (regions[i], i) ∈ regions.zipIdx :=
      List.mem_zipIdx_iff_getElem?.mpr (List.getElem?_eq_getElem hi)
    exact .inr ⟨(regions[i], i), hplace, rfl⟩

/-- A region is counted when its worker has answered. -/
lemma RegionRuns.region_counts (runs : RegionRuns) (p : Region × ℕ) :
    (runs.region d db_path hard_timeout p).analyzed =
        runs.analyzed + (if d.answered db_path hard_timeout p then 1 else 0) ∧
      (runs.region d db_path hard_timeout p).hexrays_failures =
        runs.hexrays_failures + (if d.failed db_path hard_timeout p then 1 else 0) := by
  rw [RegionRuns.region, Disposables.answered, Disposables.failed, Disposables.outcome]
  cases d.run p.2 db_path (RegionRequest.hierarchicalEvidence.params p.1 4000) hard_timeout with
  | error e => exact ⟨rfl, rfl⟩
  | ok outcome => cases outcome <;> exact ⟨rfl, rfl⟩

lemma RegionRuns.foldl_counts (l : List (Region × ℕ)) (runs : RegionRuns) :
    (l.foldl (RegionRuns.region d db_path hard_timeout) runs).analyzed =
        runs.analyzed + l.countP (d.answered db_path hard_timeout) ∧
      (l.foldl (RegionRuns.region d db_path hard_timeout) runs).hexrays_failures =
        runs.hexrays_failures + l.countP (d.failed db_path hard_timeout) := by
  induction l generalizing runs with
  | nil => exact ⟨rfl, rfl⟩
  | cons p l ih =>
    obtain ⟨hanalyzed, hfailures⟩ := ih (runs.region d db_path hard_timeout p)
    obtain ⟨hone, hone'⟩ := runs.region_counts d db_path hard_timeout p
    rw [List.foldl_cons, List.countP_cons, List.countP_cons]
    omega

/-- All regions have been analysed if and only if all workers have answered. -/
lemma analyzeRegions_analyzed (regions : List Region) :
    (analyzeRegions d db_path hard_timeout regions).analyzed ≤ regions.length ∧
      ((analyzeRegions d db_path hard_timeout regions).analyzed = regions.length ↔
        ∀ q ∈ regions.zipIdx, d.answered db_path hard_timeout q) := by
  rw [analyzeRegions, (RegionRuns.foldl_counts d db_path hard_timeout _ {}).1, Nat.zero_add,
    ← List.length_zipIdx (l := regions) (i := 0)]
  exact ⟨List.countP_le_length, List.countP_eq_length⟩

end Loop

/-! ## The frontier -/

/-- The regions of a graph are linked. -/
lemma partition_from_graph_linked {ε : Type} {graph : Json} {ea : U64} {p : Partition}
    (hp : partition_from_graph graph ea {} = (.ok p : Outcome ε Partition)) : p.Linked :=
  (partition_from_graph_sound hp).linked

/-- A region that was not analysed, with only analysed regions in front of it and none of them on a
cycle, is neither among the rows of the overview nor in its frontier, when the pass over the regions
has ended by itself. -/
theorem overview_frontier_incomplete (d : Disposables) (db_path : String) (hard_timeout : ℕ)
    (graph : Json) (ea : U64) (complexity : FunctionComplexity) (mode : AnalysisMode)
    (p : Partition) (max_regions : ℕ)
    (hp : partition_from_graph graph ea {} = (.ok p : Outcome Tools.McpError Partition))
    (hdeadline : (overviewFlow d db_path hard_timeout p max_regions).stop_reason ≠ "deadline")
    (hbudget : (overviewFlow d db_path hard_timeout p max_regions).stop_reason ≠
      "work budget (32)")
    (r : Region) (hr : r ∈ p.regions.drop max_regions)
    (hahead : ∀ q, Relation.TransGen p.Next q r.region_id →
      (∃ r' ∈ p.regions.take max_regions, r'.region_id = q) ∧ ¬ Relation.TransGen p.Next q q) :
    let report := overview d db_path ea complexity mode p max_regions hard_timeout
    (∃ ids, (report.idx "resume").idx "frontier" = .strings ids ∧ r.region_id ∉ ids) ∧
      ∃ rows, report.idx "important_regions" = .array rows ∧
        ∀ row ∈ rows, row.idx "region_id" ≠ .string r.region_id := by
  intro report
  have hlinked := partition_from_graph_linked hp
  refine ⟨⟨_, rfl, ?_⟩, ⟨_, rfl, ?_⟩⟩
  · have hmem : r ∈ p.regions := List.mem_of_mem_drop hr
    refine frontier_leaves_out hlinked hdeadline hbudget hmem fun q hq => ?_
    exact ⟨(mem_analyzeRegions_facts d db_path hard_timeout).mpr (hahead q hq).1, (hahead q hq).2⟩
  · intro row hrow
    rw [analyzeRegions_rows, List.mem_map] at hrow
    obtain ⟨⟨r', i⟩, hr', rfl⟩ := hrow
    have hid : r'.region_id ≠ r.region_id := by
      -- the ids of the regions are all different
      have hsplit : ((p.regions.take max_regions).map Region.region_id ++
          (p.regions.drop max_regions).map Region.region_id).Nodup := by
        rw [← List.map_append, List.take_append_drop]
        exact hlinked.nodup
      refine (List.nodup_append.mp hsplit).2.2 _ ?_ _ (List.mem_map_of_mem hr)
      exact List.mem_map_of_mem ((List.mem_zipIdx' hr').2 ▸ List.getElem_mem _)
    show Json.string r'.region_id ≠ .string r.region_id
    exact fun h => hid (Json.string.inj h)

/-- Disposable workers that answer `null`. -/
def Disposables.blank : Disposables :=
  ⟨true, fun _ _ _ _ => .ok (.ok .null), ⟨0, 0, 0, 0, 0⟩, fun _ => 0⟩

/-- A loop of two blocks with a block behind it: when one region is analysed, the other is left out
of the frontier as well. -/
theorem overview_frontier_incomplete_loop :
    let graph : Json := .object [
      ("nodes", .array [nodeAt 0x1000 false, nodeAt 0x1004 false, nodeAt 0x1008 false]),
      ("edges", .array [.object [("from", .u64 0x1000), ("to", .u64 0x1004)],
        .object [("from", .u64 0x1004), ("to", .u64 0x1000)],
        .object [("from", .u64 0x1004), ("to", .u64 0x1008)]])]
    ∃ p, partition_from_graph graph 0x1000 {} = (.ok p : Outcome Tools.McpError Partition) ∧
      ∃ r ∈ p.regions.drop 1,
        let report := overview .blank "a.i64" 0x1000 {} .large p 1 0
        (∃ ids, (report.idx "resume").idx "frontier" = .strings ids ∧ r.region_id ∉ ids) ∧
          ∃ rows, report.idx "important_regions" = .array rows ∧
            ∀ row ∈ rows, row.idx "region_id" ≠ .string r.region_id := by
  intro graph
  obtain ⟨p, hp, -⟩ := @partition_sound Tools.McpError _ (cfg_index_inRange graph) {} (by decide)
  have hpart := partition_from_graph_eq hp 0x1000
  have hval : ((partition (ε := Tools.McpError) (cfg_index_from_graph graph).toCfgIndex {}) >>=
      fun q => .ok (q.regions.map fun r => (r.region_id, r.pred_regions))) =
        .ok [("R1", []), ("R2", ["R1"])] := by decide +kernel
  have hstop : ((partition (ε := Tools.McpError) (cfg_index_from_graph graph).toCfgIndex {}) >>=
      fun q => .ok (overviewFlow .blank "a.i64" 0 { q with function_ea := 0x1000 } 1).stop_reason) =
        .ok "converged" := by decide +kernel
  rw [hp, Outcome.ok_bind] at hval hstop
  have hstop := Outcome.ok.inj hstop
  obtain ⟨r₁, rest, hregions, hr₁, hrest⟩ := List.map_eq_cons_iff.mp (Outcome.ok.inj hval)
  obtain ⟨r₂, rest, rfl, hr₂, hrest⟩ := List.map_eq_cons_iff.mp hrest
  obtain rfl := List.map_eq_nil_iff.mp hrest
  obtain ⟨hid₁, hpreds₁⟩ := Prod.mk.inj hr₁
  obtain ⟨hid₂, hpreds₂⟩ := Prod.mk.inj hr₂
  let p' : Partition := { p with function_ea := 0x1000 }
  have hnext : ∀ u v, p'.Next u v → u = "R1" ∧ v = "R2" := by
    rintro u v ⟨t, ht, rfl, hu⟩
    have ht : t ∈ [r₁, r₂] := hregions ▸ ht
    rcases List.mem_pair.mp ht with rfl | rfl
    · rw [hpreds₁] at hu
      exact absurd hu List.not_mem_nil
    · rw [hpreds₂] at hu
      exact ⟨List.mem_singleton.mp hu, hid₂⟩
  have hpath : ∀ u v, Relation.TransGen p'.Next u v → u = "R1" ∧ v = "R2" := by
    intro u v h
    obtain ⟨w, hw, -⟩ := Relation.TransGen.head'_iff.mp h
    obtain ⟨x, -, hx⟩ := Relation.TransGen.tail'_iff.mp h
    exact ⟨(hnext u w hw).1, (hnext x v hx).2⟩
  have hdrop : r₂ ∈ p'.regions.drop 1 := by
    rw [show p'.regions = [r₁, r₂] from hregions]
    exact List.mem_singleton_self _
  refine ⟨p', hpart, r₂, hdrop, overview_frontier_incomplete .blank "a.i64" 0 graph 0x1000 {} .large
    p' 1 hpart ?_ ?_ r₂ hdrop fun q hq => ⟨⟨r₁, ?_, ?_⟩, fun hcycle => ?_⟩⟩
  · rw [hstop]
    decide
  · rw [hstop]
    decide
  · rw [show p'.regions = [r₁, r₂] from hregions]
    exact List.mem_singleton_self _
  · rw [hid₁, (hpath q _ hq).1]
  · have h := (hpath q q hcycle).1.symm.trans (hpath q q hcycle).2
    exact absurd h (by decide)

/-! ## The accounts -/

/-- The overview accounts for the whole function.  The regions of its rows and those it skips share
out the blocks of the graph, it counts the workers that have answered with an error, and it is
complete if and only if it skips no region and every worker has answered. -/
theorem overview_accounts (d : Disposables) (db_path : String) (hard_timeout : ℕ) (graph : Json)
    (ea : U64) (complexity : FunctionComplexity) (mode : AnalysisMode) (p : Partition)
    (max_regions : ℕ)
    (hp : partition_from_graph graph ea {} = (.ok p : Outcome Tools.McpError Partition)) :
    let report := overview d db_path ea complexity mode p max_regions hard_timeout
    let taken := (p.regions.take max_regions).zipIdx
    let skipped := p.regions.drop max_regions
    report.idx "important_regions" =
        .array (taken.map fun q => q.1.row (d.outcome db_path hard_timeout q)) ∧
      (report.idx "partition").idx "regions_skipped" = .nat skipped.length ∧
      ((taken.map Prod.fst ++ skipped).map Region.block_eas).flatten.Perm (graphEas graph) ∧
      report.idx "hexrays_failures" = .nat (taken.countP (d.failed db_path hard_timeout)) ∧
      (report.idx "analysis_status" = .string "complete" ↔
        skipped = [] ∧ ∀ q ∈ taken, d.answered db_path hard_timeout q) := by
  intro report taken skipped
  have hall : taken.map Prod.fst ++ skipped = p.regions := by
    rw [List.zipIdx_map_fst, List.take_append_drop]
  have hlength : skipped.length = p.regions.length - max_regions := List.length_drop
  refine ⟨?_, ?_, ?_, ?_, ?_⟩
  · show Json.array
      (analyzeRegions d db_path hard_timeout (p.regions.take max_regions)).region_outcomes = _
    rw [analyzeRegions_rows]
  · rw [hlength]
    rfl
  · rw [hall]
    exact (partition_from_graph_sound hp).eas_perm
  · show Json.nat
      (analyzeRegions d db_path hard_timeout (p.regions.take max_regions)).hexrays_failures = _
    rw [analyzeRegions, (RegionRuns.foldl_counts d db_path hard_timeout taken {}).2]
    simp
  · have hshow : report.idx "analysis_status" = .string "complete" ↔
        ¬ (analyzeRegions d db_path hard_timeout (p.regions.take max_regions)).analyzed <
          p.regions.length := by
      show Json.string _ = .string "complete" ↔ _
      split <;> simp [*]
    obtain ⟨hle, heq⟩ :=
      analyzeRegions_analyzed d db_path hard_timeout (p.regions.take max_regions)
    have htaken := congrArg List.length hall
    rw [List.length_append, List.length_map, List.length_zipIdx] at htaken
    rw [hshow, ← heq, ← List.length_eq_zero_iff]
    omega

/-- A function of one block: its overview is complete when the worker answers, and partial when the
worker is killed at the timeout, though no region is skipped. -/
theorem overview_accounts_timeout :
    let graph : Json := .object [("nodes", .array [nodeAt 0x1000 false]), ("edges", .array [])]
    let silent : Disposables := { Disposables.blank with run := fun _ _ _ _ => .ok (.timeout 0 "") }
    ∃ p, partition_from_graph graph 0x1000 {} = (.ok p : Outcome Tools.McpError Partition) ∧
      (overview .blank "a.i64" 0x1000 {} .large p 16 0).idx "analysis_status" = "complete" ∧
      (overview silent "a.i64" 0x1000 {} .large p 16 0).idx "analysis_status" ≠ "complete" := by
  intro graph silent
  obtain ⟨p, hp, -⟩ := @partition_sound Tools.McpError _ (cfg_index_inRange graph) {} (by decide)
  have hpart := partition_from_graph_eq hp 0x1000
  have hval : ((partition (ε := Tools.McpError) (cfg_index_from_graph graph).toCfgIndex {}) >>=
      fun q => .ok q.regions.length) = .ok 1 := by decide +kernel
  rw [hp, Outcome.ok_bind] at hval
  obtain ⟨r, hregions⟩ := List.length_eq_one_iff.mp (Outcome.ok.inj hval)
  let p' : Partition := { p with function_ea := 0x1000 }
  have hskipped : p'.regions.drop 16 = [] := by
    rw [show p'.regions = [r] from hregions]
    rfl
  have htaken : (p'.regions.take 16).zipIdx = [(r, 0)] := by
    rw [show p'.regions = [r] from hregions]
    rfl
  obtain ⟨-, -, -, -, hblank⟩ :=
    overview_accounts .blank "a.i64" 0 graph 0x1000 {} .large p' 16 hpart
  obtain ⟨-, -, -, -, hsilent⟩ :=
    overview_accounts silent "a.i64" 0 graph 0x1000 {} .large p' 16 hpart
  refine ⟨p', hpart, hblank.mpr ⟨hskipped, fun _ _ => rfl⟩, fun hcomplete => ?_⟩
  have hanswered := (hsilent.mp hcomplete).2 (r, 0) (htaken ▸ List.mem_singleton_self _)
  exact Bool.false_ne_true hanswered

/-! ## The evidence -/

section Evidence

variable [Host]

/-- The process answers a request, or dies over it. -/
def answerTo (env : Env) (req : WorkerRequest) (s : WorkerState) : Answer × WorkerState :=
  match handle env req s with
  | .ok (r, s') => (.response (Tools.frame r).readBack, s')
  | .error _ => (.closed, s)

/-- A disposable worker that does its work, as `run_isolated` asks it: `worker_main` on its other
side. -/
def disposableWorker (envs : ℕ → Env) (db_path method : String) (params : Json) : Behaviour :=
  let select := answerTo (envs 0) ⟨1, "backend.select", .object [("kind", "mock")]⟩ .new
  let opened := answerTo (envs 1) ⟨2, "db.open", .object [("path", db_path)]⟩ select.2
  let risky := answerTo (envs 2) ⟨3, method, params⟩ opened.2
  ⟨.frame PROTOCOL_VERSION, select.1, opened.1, risky.1⟩

/-- Every disposable worker gets a permit and does its work. -/
def Disposables.Serving (d : Disposables) : Prop :=
  ∀ i db_path params hard_timeout, ∃ s envs, 0 < s.permits ∧
    (run_isolated s "region.evidence" hard_timeout
      (disposableWorker envs db_path "region.evidence" params)).1.answer =
        some (d.run i db_path params hard_timeout)

/-- A worker that has selected the mock backend. -/
def mockSelected : WorkerState := { WorkerState.new with backend := some MockBackend.new }

/-- A worker in which a mock database is open. -/
def mockOpened (db_path : String) : WorkerState :=
  { mockSelected with backend := some { MockBackend.new with open_path := some db_path } }

/-- What `run_isolated` makes of the evidence of a mock database. -/
def evidenceOutcome (params : Json) : DisposableOutcome :=
  match regionEvidence params (mockOpened "") with
  | .ok v => .ok v
  | .err e => sequenceFailed (Error.worker s!"region.evidence: {e.code} {e.text}").text
  | .panic _ => sequenceFailed (Error.worker "disposable worker died mid-sequence").text

lemma answerTo_select (env : Env) :
    answerTo env ⟨1, "backend.select", .object [("kind", "mock")]⟩ .new =
      (.response (.ok 1 (.object [("backend", "mock")])), mockSelected) := by
  rfl

lemma answerTo_open (env : Env) (db_path : String) :
    ∃ v, answerTo env ⟨2, "db.open", .object [("path", db_path)]⟩ mockSelected =
      (.response (.ok 2 v), mockOpened db_path) := by
  exact ⟨_, rfl⟩

/-- The path of the database is not in the evidence. -/
lemma regionEvidence_mockOpened (params : Json) (db_path : String) :
    regionEvidence params (mockOpened db_path) = regionEvidence params (mockOpened "") := by
  rfl

lemma answerTo_evidence (env : Env) (db_path : String) (params : Json) :
    (answerTo env ⟨3, "region.evidence", params⟩ (mockOpened db_path)).1 =
      match regionEvidence params (mockOpened "") with
      | .ok v => .response (Protocol.WorkerResponse.readBack (.ok 3 v))
      | .err e => .response (.err 3 e)
      | .panic _ => .closed := by
  have hdispatch : dispatch env "region.evidence" params (mockOpened db_path) =
      Action.lift (regionEvidence params (mockOpened "")) (mockOpened db_path) := by
    rw [← regionEvidence_mockOpened params db_path]
    rfl
  rw [answerTo, handle, hdispatch]
  cases regionEvidence params (mockOpened "") with
  | ok v => rfl
  | err e => rfl
  | panic p => rfl

omit [Host] in
/-- `run_isolated` of a worker that gets past the handshake returns what the sequence makes of its
answers. -/
lemma run_isolated_outcome {s : IsoSystem} {b : Behaviour} {method : String} {hard_timeout : ℕ}
    (hpermit : 0 < s.permits) (hhello : b.hello = .frame PROTOCOL_VERSION)
    {outcome : DisposableOutcome}
    (hexec : s.starting.exec (.started hard_timeout .sequence none)
        (sequence 0 (b.requests method)) =
      some (.started hard_timeout (.count outcome.counter true) (some (.ok outcome)),
        s.starting)) :
    (run_isolated s method hard_timeout b).1.answer = some (.ok outcome) := by
  obtain ⟨c, hfollow, -, hanswer⟩ := follow_count b method hard_timeout 0
    (some (.ok outcome)) hpermit outcome.counter true
  have hgreeting : s.starting.exec (.started hard_timeout .hello none) b.hello.reply =
      some (.started hard_timeout .sequence none, s.starting) := by
    rw [hhello]
    rfl
  have hrun : run_isolated s method hard_timeout b = (c, s.counting outcome.counter) := by
    rw [run_isolated, show 15 = 10 + 5 from rfl, follow_new hpermit, ← hfollow]
    exact (follow_exec hgreeting 9).trans (follow_exec hexec 8)
  rw [hrun]
  exact hanswer

/-- A disposable worker answers with the evidence of a mock database. -/
lemma run_isolated_mock {s : IsoSystem} (hpermit : 0 < s.permits) (envs : ℕ → Env)
    (db_path : String) (params : Json) (hard_timeout : ℕ) :
    (run_isolated s "region.evidence" hard_timeout
      (disposableWorker envs db_path "region.evidence" params)).1.answer =
        some (.ok (evidenceOutcome params)) := by
  obtain ⟨v, hopen⟩ := answerTo_open (envs 1) db_path
  have hworker : disposableWorker envs db_path "region.evidence" params =
      ⟨.frame PROTOCOL_VERSION, .response (.ok 1 (.object [("backend", "mock")])),
        .response (.ok 2 v),
        (answerTo (envs 2) ⟨3, "region.evidence", params⟩ (mockOpened db_path)).1⟩ := by
    rw [disposableWorker, answerTo_select, hopen]
  rw [hworker, answerTo_evidence]
  refine run_isolated_outcome hpermit rfl ?_
  rw [evidenceOutcome]
  cases regionEvidence params (mockOpened "") with
  | ok v => cases v <;> rfl
  | err e => rfl
  | panic _ => rfl

/-- Whatever the database is that a function is in, the rows of its overview are those of the mock
backend, and so are the attempts with Hex-Rays of `function_region`: with disposable workers that do
their work, they depend on nothing but the addresses of the regions. -/
theorem overview_evidence_mock (d : Disposables) (hd : d.Serving) (db_path : String) (ea : U64)
    (complexity : FunctionComplexity) (mode : AnalysisMode) (p : Partition)
    (max_regions hard_timeout : ℕ) :
    (overview d db_path ea complexity mode p max_regions hard_timeout).idx "important_regions" =
        .array ((p.regions.take max_regions).map fun r =>
          r.row (.ok (evidenceOutcome (RegionRequest.hierarchicalEvidence.params r 4000)))) ∧
      ∀ (i : ℕ) (r : Region) (max_insns : U64),
        Region.attempt
            (d.run i db_path (RegionRequest.regionEvidence.params r max_insns) hard_timeout) =
          Region.attempt
            (.ok (evidenceOutcome (RegionRequest.regionEvidence.params r max_insns))) := by
  have hrun : ∀ i params, d.run i db_path params hard_timeout = .ok (evidenceOutcome params) := by
    intro i params
    obtain ⟨s, envs, hpermit, hanswer⟩ := hd i db_path params hard_timeout
    rw [run_isolated_mock hpermit] at hanswer
    exact (Option.some.inj hanswer).symm
  refine ⟨?_, fun i r max_insns => by rw [hrun]⟩
  show Json.array
    (analyzeRegions d db_path hard_timeout (p.regions.take max_regions)).region_outcomes = _
  rw [analyzeRegions_rows]
  congr 1
  simp only [Disposables.outcome, hrun]
  conv_rhs => rw [← List.zipIdx_map_fst 0 (p.regions.take max_regions), List.map_map]
  rfl

/-- Disposable workers that do their work one after the other. -/
def Disposables.working : Disposables where
  worker_exe := true
  run _ db_path params hard_timeout :=
    ((run_isolated .new "region.evidence" hard_timeout
      (disposableWorker (fun _ => .bare) db_path "region.evidence" params)).1.answer).getD
        (.ok (.timeout 0 ""))
  stats := ⟨0, 0, 0, 0, 0⟩
  clock _ := 0

lemma Disposables.working_serving : Disposables.working.Serving := by
  intro i db_path params hard_timeout
  refine ⟨.new, fun _ => .bare, by decide, ?_⟩
  simp only [Disposables.working]
  rw [run_isolated_mock (by decide)]
  rfl

end Evidence

/-- The function at one address in two databases: its only region has the same evidence in both. -/
theorem overview_evidence_mock_paths :
    letI : Host := Host.ascii true
    let p : Partition :=
      ⟨1, 0x401000, [⟨"R1", .chunk, [0x401000], [0], [], [], [], [], "test"⟩], ∅, []⟩
    (overview .working "a.i64" 0x401000 {} .large p 16 5000).idx "important_regions" =
      (overview .working "b.i64" 0x401000 {} .large p 16 5000).idx "important_regions" := by
  let _ : Host := Host.ascii true
  intro p
  obtain ⟨ha, -⟩ := overview_evidence_mock .working Disposables.working_serving "a.i64" 0x401000 {}
    .large p 16 5000
  obtain ⟨hb, -⟩ := overview_evidence_mock .working Disposables.working_serving "b.i64" 0x401000 {}
    .large p 16 5000
  exact ha.trans hb.symm

end ReverseMcp
