import ReverseMcp.Worker.Workflow
import ReverseMcp.Worker.Valuean
import ReverseMcp.Worker.Types
import ReverseMcp.Worker.Crypto
import ReverseMcp.Worker.Deob
import ReverseMcp.Worker.Signatures
import ReverseMcp.Worker.Blockdiff

/-!
# The arms of the dispatcher

`rmcp_worker::dispatch` matches on a method name; its arms come in a few shapes, and each shape
is a group here:

* `ReadMethod`: parse the parameters, take the backend, answer; the state stays as it is;
* `IndexedMethod`: the same, answered from the analysis index;
* `CachedMethod`: the same, but the answer is looked up in the result cache first;
* `MutateMethod`: parse, check `expected_revision`, parse the rest, mutate, record.

Within a group every method keeps its own parameters, defaults, bounds and error texts, in the
order in which the source reads them.
-/

namespace ReverseMcp

open Rust

/-! ## Parameters -/

/-- `dispatch::need_backend`. -/
def need_backend (s : WorkerState) : Result MockBackend :=
  Outcome.ofOption (.worker "no db open") s.backend

lemma need_backend_of_none {s : WorkerState} (h : s.backend = none) :
    need_backend s = .err (.worker "no db open") := by
  rw [need_backend, h]
  rfl

lemma need_backend_of_some {s : WorkerState} {b : MockBackend} (h : s.backend = some b) :
    need_backend s = .ok b := by
  rw [need_backend, h]
  rfl

/-- `dispatch::parse_ea_param`. -/
def parse_ea_param (s : String) : Result U64 := ofParse (badEa (trim s)) (parseAddress s)

/-- `dispatch::ea_param`. -/
def ea_param (params : Json) (key : String) : Result U64 :=
  match params.get key with
  | some (.string s) => parse_ea_param s
  | some v => Outcome.ofOption (.worker s!"bad ea value for '{key}'") v.asU64
  | none => fail s!"missing '{key}'"

/-- `dispatch::ea_param_value`. -/
def ea_param_value (v : Json) : Result U64 :=
  match v with
  | .string s => parse_ea_param s
  | .number n => Outcome.ofOption (.worker "bad ea number") (Json.number n).asU64
  | _ => fail "bad ea value"

/-- An optional address: absent or `null` is `None`. -/
def ea_param_opt (params : Json) (key : String) : Result (Option U64) :=
  match params.get key with
  | none | some .null => .ok none
  | some _ => do return some (← ea_param params key)

/-- The address under `target`, else under `ea`. -/
def target_param (params : Json) : Result U64 :=
  (ea_param params "target").orElse (ea_param params "ea")

/-- A count with a default. -/
def count_param (params : Json) (key : String) (default : ℕ) : ℕ :=
  (((params.get key).bind Json.asU64).map Fin.val).getD default

/-- A flag with a default. -/
def flag_param (params : Json) (key : String) (default : Bool) : Bool :=
  ((params.get key).bind Json.asBool).getD default

/-- An optional text. -/
def text_param (params : Json) (key : String) : Option String := (params.get key).bind Json.asStr

/-- A required text. -/
def text_required (params : Json) (key message : String) : Result String :=
  Outcome.ofOption (.worker message) (text_param params key)

/-- A required array. -/
def array_required (params : Json) (key message : String) : Result (List Json) :=
  Outcome.ofOption (.worker message) ((params.get key).bind Json.asArray)

/-- `dispatch::check_revision`. -/
def check_revision (params : Json) (b : MockBackend) : Result Unit :=
  match params.get "expected_revision" with
  | none | some .null => .ok ()
  | some v =>
    match v.asU64 with
    | none => fail "expected_revision must be an integer"
    | some expected =>
      if expected = b.revision then .ok () else .err (.revisionConflict expected b.revision)

/-! ### The readers return -/

section Returns

variable (params : Json) (key message : String)

@[simp] lemma need_backend_returns (s : WorkerState) : (need_backend s).Returns :=
  Outcome.ofOption_returns _ _

@[simp] lemma parse_ea_param_returns (s : String) : (parse_ea_param s).Returns :=
  ofParse_returns _ _

@[simp] lemma ea_param_returns : (ea_param params key).Returns := by
  rw [ea_param]
  split <;> simp

@[simp] lemma ea_param_value_returns (v : Json) : (ea_param_value v).Returns := by
  unfold ea_param_value
  split <;> simp

@[simp] lemma ea_param_opt_returns : (ea_param_opt params key).Returns := by
  rw [ea_param_opt]
  split
  · simp
  · simp
  · exact (ea_param_returns _ _).bind fun _ _ => by simp

@[simp] lemma target_param_returns : (target_param params).Returns :=
  Outcome.orElse_returns (ea_param_returns _ _) (ea_param_returns _ _)

@[simp] lemma text_required_returns : (text_required params key message).Returns :=
  Outcome.ofOption_returns _ _

@[simp] lemma array_required_returns : (array_required params key message).Returns :=
  Outcome.ofOption_returns _ _

@[simp] lemma check_revision_returns (b : MockBackend) : (check_revision params b).Returns := by
  rw [check_revision]
  split
  · simp
  · simp
  · split
    · simp
    · split <;> simp

end Returns

/-! ## Reading methods -/

/-- The methods that leave the state as it is. -/
inductive ReadMethod where
  | dbSave | dbInfo | capabilities | revision | functions | functionAt | segments | strings
  | xrefsTo | xrefsFrom | disassemble | decompile | graph | searchText | searchImmediate
  | getBytes | getComment | types | analyzeWait | dbMetadata | importsList | fixupsList
  | fileMap | funcTails | funcSwitchInfo | funcSpDelta | hrCfunc | regionEvidence
  | insnFeatures | namesDemangle | listPlugins | runPlugin | planMutations | mutationAudit
  | indexStatus | typesEvidence | typesVtable | intelPacks | deobValidate | sigMap | sigDiff
deriving DecidableEq

/-- A list of records as a value. -/
def valueList {α : Type} (to_value : α → Json) (x : Result (List α)) : Result Json := do
  return .array ((← x).map to_value)

variable [Host]

/-- The arm of `region.evidence`: a failing decompiler is part of the answer. -/
def regionEvidence (params : Json) (s : WorkerState) : Result Json := do
  let ea ← ea_param params "ea"
  let end_ea ← ea_param_opt params "end_ea"
  let max_insns := clamp (count_param params "max_insns" 4000) 10 20000
  let b ← need_backend s
  let disasm ← b.disassemble ea end_ea max_insns
  let hexrays ← (match b.decompile ea with
    | .ok hr => .ok hr
    | .err e => .ok (.object [("status", "unavailable"), ("error", e.text)])
    | .panic p => .panic p)
  return .object [("region_ea", .ea ea), ("end_ea", .opt (end_ea.map Json.ea)),
    ("insns", .array (disasm.map fun i => .object [("ea", .ea i.ea), ("text", i.text)])),
    ("insns_truncated", decide (max_insns ≤ disasm.length)), ("hexrays", hexrays)]

/-- The arm of `graph`. -/
def graphArm (params : Json) (s : WorkerState) : Result Json := do
  let ea ← ea_param params "ea"
  let kind := (text_param params "kind").getD "calls"
  failIf (kind ≠ "calls" ∧ kind ≠ "cfg") s!"unknown graph kind '{kind}' (calls|cfg)"
  let b ← need_backend s
  b.graph ea ⟨kind, Fin.ofNat (2 ^ 32) (count_param params "depth" 1),
    count_param params "max_nodes" 200, count_param params "max_edges" 400⟩

/-- The arm of `plan.mutations`. -/
def planMutations (params : Json) (s : WorkerState) : Result Json := do
  let ops_json ← array_required params "operations" "missing 'operations' array"
  let ops ← Plan.parse_operations ops_json
  let b ← need_backend s
  Plan.check_plan_revision b ((params.get "expected_revision").bind Json.asU64)
  Plan.plan b ops

omit [Host] in
/-- The arm of `index.status`. -/
def indexStatus (s : WorkerState) : Result Json :=
  match s.index with
  | none => .ok (.object [("built", false)])
  | some (idx, md5) => do
    let b ← need_backend s
    return (idx.summary.set "md5" md5).set "current" (decide (idx.revision = b.revision))

omit [Host] in
/-- A signature index among the parameters. -/
def sig_param (env : Env) (params : Json) (key missing bad : String) : Result SigIndex := do
  let v ← Outcome.ofOption (Error.worker missing) (params.get key)
  let e := env.serdeError "SigIndex" v
  Outcome.ofOption (.worker s!"{bad}: {e}") (Signatures.from_value v)

/-- The arm of `sig.map`. -/
def sigMap (env : Env) (params : Json) : Result Json := do
  let source ← sig_param env params "from" "missing 'from' sig index" "bad 'from' sig index"
  let goal ← sig_param env params "to" "missing 'to' sig index" "bad 'to' sig index"
  Signatures.sig_map_from_sigs source goal (clamp (count_param params "max_transfers" 100) 1 2000)

omit [Host] in
/-- The arm of `sig.diff`. -/
def sigDiff (params : Json) : Result Json :=
  let threshold := max (1 / 2) (min (((params.get "threshold").bind Json.asF64).getD (8 / 10)) 1)
  Blockdiff.diff_from_json (params.idx "a") (params.idx "b") threshold
    (clamp (count_param params "max_blocks" 256) 8 4096)

/-- The arms of the reading methods. -/
def ReadMethod.answer (env : Env) (m : ReadMethod) (params : Json) (s : WorkerState) :
    Result Json :=
  match m with
  | dbSave => do
    (← need_backend s).save
    return .object [("saved", true)]
  | dbInfo => do (← need_backend s).db_info
  | capabilities => do return (← need_backend s).capabilities
  | revision => do return .object [("revision", .u64 (← need_backend s).revision)]
  | functions => do
    valueList FunctionInfo.to_value ((← need_backend s).functions
      (count_param params "offset" 0) (count_param params "limit" 100))
  | functionAt => do
    let ea ← ea_param params "ea"
    return ((← (← need_backend s).function_at ea).to_value)
  | segments => do valueList SegmentInfo.to_value (← need_backend s).segments
  | strings => do
    valueList StringInfo.to_value ((← need_backend s).strings
      (count_param params "offset" 0) (count_param params "limit" 100))
  | xrefsTo => do
    let ea ← ea_param params "ea"
    valueList XrefInfo.to_value ((← need_backend s).xrefs_to ea)
  | xrefsFrom => do
    let ea ← ea_param params "ea"
    valueList XrefInfo.to_value ((← need_backend s).xrefs_from ea)
  | disassemble => do
    let ea ← ea_param params "ea"
    let stop ← ea_param_opt params "end"
    valueList InsnInfo.to_value ((← need_backend s).disassemble ea stop
      (count_param params "max_insns" 200))
  | decompile => do
    let ea ← ea_param params "ea"
    (← need_backend s).decompile ea
  | graph => graphArm params s
  | searchText => do
    let needle ← text_required params "needle" "missing needle"
    valueList id ((← need_backend s).search_text needle (count_param params "limit" 50))
  | searchImmediate => do
    let value := ((params.get "value").bind Json.asU64).getD 0
    valueList id ((← need_backend s).search_immediate value (count_param params "limit" 50))
  | getBytes => do
    let ea ← ea_param params "ea"
    (← need_backend s).get_bytes ea (count_param params "size" 16)
  | getComment => do
    let ea ← ea_param params "ea"
    (← need_backend s).get_comment ea (flag_param params "repeatable" false)
  | types => do (← need_backend s).types (text_param params "name")
  | analyzeWait => do (← need_backend s).analyze_wait
  | dbMetadata => do (← need_backend s).db_metadata
  | importsList => do
    let module ← (match params.get "module" with
      | none | some .null => .ok none
      | some v => do return some (← Outcome.ofOption (Error.worker "bad 'module'") v.asU64).val)
    (← need_backend s).imports module (count_param params "offset" 0)
      (count_param params "limit" 100)
  | fixupsList => do
    (← need_backend s).fixups (count_param params "offset" 0) (count_param params "limit" 100)
  | fileMap => do
    let value ← (if (params.get "value").isSome then ea_param params "value"
      else ea_param params "ea")
    (← need_backend s).file_map value (flag_param params "to_ea" false)
  | funcTails => do
    let ea ← ea_param params "ea"
    (← need_backend s).func_tails ea
  | funcSwitchInfo => do
    let ea ← ea_param params "ea"
    (← need_backend s).func_switch_info ea
  | funcSpDelta => do
    let ea ← ea_param params "ea"
    (← need_backend s).func_sp_delta ea
  | hrCfunc => do
    let ea ← ea_param params "ea"
    (← need_backend s).hr_cfunc ea (flag_param params "include_ctree" true)
      (flag_param params "include_lvars" true) (count_param params "limit" 2000)
  | regionEvidence => ReverseMcp.regionEvidence params s
  | insnFeatures => do
    let ea ← ea_param params "ea"
    (← need_backend s).insn_features ea
  | namesDemangle => do
    let name ← text_required params "name" "missing name"
    (← need_backend s).demangle_name name
  | listPlugins => do (← need_backend s).list_plugins
  | runPlugin => do
    let plugin ← text_required params "plugin" "missing plugin"
    (← need_backend s).run_plugin plugin (text_param params "args")
  | planMutations => ReverseMcp.planMutations params s
  | mutationAudit => .ok (Plan.audit_tail s.audit (count_param params "limit" 100))
  | indexStatus => ReverseMcp.indexStatus s
  | typesEvidence => do
    let ea ← ea_param params "ea"
    (← need_backend s).type_member_evidence ea (clamp (count_param params "limit" 64) 1 512)
  | typesVtable => do
    let ea ← ea_param params "ea"
    (← need_backend s).type_vtable_scan ea (clamp (count_param params "max_entries" 32) 1 256)
  | intelPacks => do return Rules.packs_json (← Rules.load_effective env)
  | deobValidate => do
    let plan ← Outcome.ofOption (Error.worker "missing 'plan'") (params.get "plan")
    Transforms.validate (← need_backend s) plan
  | sigMap => ReverseMcp.sigMap env params
  | sigDiff => ReverseMcp.sigDiff params

/-! ## Methods answered from the index -/

/-- The methods that answer from the analysis index without the result cache. -/
inductive IndexedMethod where
  | indexQuery | typesPropose | intelApiHashes | intelStrings | deobRun | deobPropose
  | sigIdentify | sigExport | sigFingerprints
deriving DecidableEq

/-- An answer from the backend, the index and its `md5`. -/
abbrev IndexedCall : Type := MockBackend → AnalysisIndex → String → Result Json

omit [Host] in
/-- The functions that `types.propose` names. -/
def function_eas (params : Json) : Result (List U64) := do
  let eas ← array_required params "functions" "missing functions array"
  Outcome.mapList (fun v =>
    match v with
    | .string s => parse_ea_param s
    | .number n => Outcome.ofOption (.worker "bad function ea") (Json.number n).asU64
    | _ => fail "bad function ea") eas

/-- One function of a binary fingerprint export, with whether its blocks were cut off. -/
def fingerprintRow (b : MockBackend) (max_blocks : ℕ) (f : U64 × FunctionFacts) :
    Result (Json × Bool) := do
  let (fps, truncated) ← Blockdiff.function_block_fingerprints b f.1 max_blocks
  let sig := Signatures.to_sig f.1 f.2
  return (.object [("name", f.2.name), ("ea", .ea f.1),
    ("blocks", .array (fps.map Blockdiff.block_fp_json)),
    ("evidence", .object [("size", .u64 sig.size),
      ("constants", .array (sig.constants.map Json.u64)), ("strings", .strings sig.strings),
      ("imports", .strings sig.imports), ("callee_count", .nat sig.callee_count),
      ("caller_count", .nat sig.caller_count)])], truncated)

/-- The functions of a binary fingerprint export, the largest first, without thunks. -/
def exportCandidates (idx : AnalysisIndex) : List (U64 × FunctionFacts) :=
  (idx.functions.toList.filter fun f =>
    !startsWith f.2.name "j_" && decide (16 ≤ f.2.size.val)).insertionSort
      fun a b => b.2.size ≤ a.2.size

/-- `sig.fingerprints` of the largest functions. -/
def fingerprintsAll (params : Json) (max_blocks : ℕ) : IndexedCall := fun b idx _ => do
  let max_functions := clamp (count_param params "max_functions" 64) 1 1024
  let sorted := exportCandidates idx
  let rows ← Outcome.mapList (fingerprintRow b max_blocks) (sorted.take max_functions)
  return .object [("functions", .array (rows.map Prod.fst)),
    ("truncated", decide (max_functions < sorted.length) || rows.any Prod.snd),
    ("binary_md5", idx.binary_md5)]

/-- The parameters of `sig.fingerprints` bound the blocks of a function. -/
def fingerprintBlocks (params : Json) : ℕ := clamp (count_param params "max_blocks" 256) 8 4096

/-- `sig.fingerprints` of one function; it does not use the index. -/
def fingerprintsAt (params : Json) (v : Json) (s : WorkerState) : Result Json := do
  let ea ← ea_param_value v
  let b ← need_backend s
  let (fps, truncated) ← Blockdiff.function_block_fingerprints b ea (fingerprintBlocks params)
  return .object [("ea", .ea ea), ("blocks", .array (fps.map Blockdiff.block_fp_json)),
    ("truncated", truncated)]

/-- The parameters of an indexed method that are read before the index is looked at, and the
answer that is then computed. -/
def IndexedMethod.call (env : Env) (m : IndexedMethod) (params : Json) : Result IndexedCall :=
  match m with
  | indexQuery => do
    let v := (params.get "query").getD (.object [])
    let e := env.serdeError "EvidenceQuery" v
    let query ← Outcome.ofOption (Error.worker s!"bad query: {e}") (EvidenceQuery.from_value v)
    return fun _ idx md5 =>
      let hits := idx.query query
      .ok (.object [("count", .nat hits.length), ("md5", md5),
        ("hits", .array (hits.map EvidenceHit.to_value))])
  | typesPropose => do
    let eas ← function_eas params
    return fun b idx _ =>
      Types.recover_structure b idx eas (clamp (count_param params "limit" 64) 1 512)
  | intelApiHashes =>
    return fun b idx _ =>
      Crypto.resolve_api_hashes b idx (clamp (count_param params "max_findings" 50) 1 500)
  | intelStrings => do
    let target ← target_param params
    return fun b idx _ =>
      Crypto.recover_strings b idx target (clamp (count_param params "max_strings" 50) 1 500)
  | deobRun => do
    let target ← target_param params
    return fun b idx _ =>
      Deob.deobfuscate b idx target (clamp (count_param params "max_passes" 8) 1 16)
  | deobPropose => do
    let target ← target_param params
    let kind ← text_required params "kind" "missing 'kind'"
    let kind ← Transforms.TransformKind.parse kind
    return fun b idx _ => Transforms.propose b idx target kind
  | sigIdentify => do
    let target ← target_param params
    return fun _ idx _ => do
      let reference ← sig_param env params "reference" "missing reference sig index"
        "bad reference sig index"
      Signatures.identify_function idx reference target .default
        (clamp (count_param params "max_candidates" 10) 1 100)
  | sigExport =>
    return fun b idx _ => do
      let sig := Signatures.build_sig_index idx
      let path ← Signatures.save_sig_index env b
      return .object [("path", path), ("functions", .nat sig.functions.length),
        ("binary_md5", sig.binary_md5), ("format", .nat sig.format.val)]
  | sigFingerprints => return fingerprintsAll params (fingerprintBlocks params)

/-! ## Methods with cached results -/

/-- The methods that answer from the index through the result cache. -/
inductive CachedMethod where
  | workflowRun | deepFunction | deepDataflow | valuePropagate | intelCrypto
deriving DecidableEq

/-- What a cached method does after its parameters are read. -/
structure CachedCall where
  /-- A resumed walk neither reads nor writes the cache. -/
  bypass : Bool
  /-- The key at a revision, and the answer; computed once the index is there. -/
  prepare : Result ((U64 → CacheKey) × (MockBackend → AnalysisIndex → Result Json))

/-- The parameters of a cached method. -/
def CachedMethod.call (env : Env) (m : CachedMethod) (params : Json) : Result CachedCall :=
  match m with
  | workflowRun => do
    let v := (params.get "workflow_req").getD params
    let e := env.serdeError "WorkflowRequest" v
    let req ← Outcome.ofOption (Error.worker s!"bad workflow request: {e}")
      (WorkflowRequest.from_value v)
    return ⟨false, .ok (req.cache_key, fun b idx => Workflow.run b idx req)⟩
  | deepFunction => do
    let root ← target_param params
    let budgets := budgets_from env params
    let resume := (params.get "resume_from").filter Json.isObject
    return ⟨resume.isSome, .ok (fun rev => ("deep_function", s!"{hex root}|{budgets.debug}", rev),
      fun b idx => Deep.deep_function b idx root budgets resume)⟩
  | deepDataflow => do
    let target ← target_param params
    let direction := (text_param params "direction").getD "both"
    failIf (direction ∉ ["forward", "backward", "both"])
      s!"bad direction '{direction}' (forward|backward|both)"
    let budgets := budgets_from env params
    return ⟨false, .ok (
      fun rev => ("deep_dataflow", s!"{hex target}|{direction}|{budgets.debug}", rev),
      fun b idx => Deep.trace_dataflow b idx target direction budgets)⟩
  | valuePropagate => do
    let target ← target_param params
    let budgets := budgets_from env params
    return ⟨false, .ok (fun rev => ("value_propagate", s!"{hex target}|{budgets.debug}", rev),
      fun b idx => Valuean.value_analysis b idx target budgets)⟩
  | intelCrypto =>
    let max := clamp (count_param params "max_findings" 50) 1 500
    return ⟨false, do
      let ruleset ← Rules.load_effective env
      return (fun rev => ("intel_crypto", s!"{max}|{ruleset.set_hash}", rev),
        fun b idx => Crypto.crypto_scan b idx max (some ruleset))⟩

/-! ## Mutations -/

/-- The single mutations that are recorded in the audit trail. -/
inductive MutateMethod where
  | patchBytes | setComment | rename | setType | funcCreate | funcDelete | funcResize
  | hrLvarRename | deepRetype
deriving DecidableEq

/-- What a mutation does after the parameters in front of the guard are read. -/
structure Mutation where
  /-- The kind and the address of the audit entry. -/
  kind : String
  ea : U64
  /-- The parameters that are read behind the guard, and the backend call. -/
  op : Result (MockBackend → Result (MutationOutcome × MockBackend))

/-- The parameters of a mutation, in front of and behind the guard. -/
def MutateMethod.call (m : MutateMethod) (params : Json) : Result Mutation :=
  match m with
  | patchBytes => do
    let ea ← ea_param params "ea"
    return ⟨"patch_bytes", ea, do
      let hex ← text_required params "hex" "missing hex"
      return fun b => b.patch_bytes ea hex⟩
  | setComment => do
    let ea ← ea_param params "ea"
    return ⟨"comment", ea, do
      let comment ← text_required params "comment" "missing comment"
      return fun b => b.set_comment ea comment (flag_param params "repeatable" false)⟩
  | rename => do
    let ea ← ea_param params "ea"
    return ⟨"rename", ea, do
      let name ← text_required params "name" "missing name"
      return fun b => b.rename ea name⟩
  | setType => do
    let ea ← ea_param params "ea"
    return ⟨"set_type", ea, do
      let decl ← text_required params "decl" "missing decl"
      return fun b => b.set_type ea decl⟩
  | funcCreate => do
    let start ← ea_param params "start"
    let stop ← ea_param_opt params "end"
    return ⟨"func.create", start, return fun b => b.func_create start stop⟩
  | funcDelete => do
    let ea ← ea_param params "ea"
    return ⟨"func.delete", ea, return fun b => b.func_delete ea⟩
  | funcResize => do
    let ea ← ea_param params "ea"
    let new_start ← ea_param_opt params "new_start"
    let new_end ← ea_param_opt params "new_end"
    return ⟨"func.resize", ea, return fun b => b.func_resize ea new_start new_end⟩
  | hrLvarRename => do
    let ea ← ea_param params "ea"
    let var_defea ← ea_param params "var_defea"
    let name ← text_required params "name" "missing name"
    return ⟨"hr.lvar_rename", ea, return fun b => b.hr_lvar_rename ea var_defea name⟩
  | deepRetype => do
    let ea ← ea_param params "ea"
    let decl ← text_required params "decl" "missing decl"
    return ⟨"deep.retype", ea, return fun b => b.deep_apply_prototype ea decl⟩

/-- The parameters in front of the guard are read without a panic. -/
lemma MutateMethod.call_returns (m : MutateMethod) (params : Json) : (m.call params).Returns := by
  cases m with
  | funcCreate =>
    exact (ea_param_returns _ _).bind fun _ _ => (ea_param_opt_returns _ _).bind fun _ _ => by simp
  | funcResize =>
    exact (ea_param_returns _ _).bind fun _ _ => (ea_param_opt_returns _ _).bind fun _ _ =>
      (ea_param_opt_returns _ _).bind fun _ _ => by simp
  | hrLvarRename =>
    exact (ea_param_returns _ _).bind fun _ _ => (ea_param_returns _ _).bind fun _ _ =>
      (text_required_returns _ _ _).bind fun _ _ => by simp
  | deepRetype =>
    exact (ea_param_returns _ _).bind fun _ _ =>
      (text_required_returns _ _ _).bind fun _ _ => by simp
  | _ => exact (ea_param_returns _ _).bind fun _ _ => by simp

end ReverseMcp
