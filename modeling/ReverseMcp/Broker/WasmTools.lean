import ReverseMcp.Broker.Tools
import ReverseMcp.Wasm.Bodies
import ReverseMcp.Wasm.Calls
import ReverseMcp.Wasm.Pseudo

/-!
# The WebAssembly tool

`rmcp_broker::wasm_tools`: the actions `cfg`, `pseudocode` and `indirect_targets` parse the file,
look up the function, cut its body out of the file and analyse the operators that are read there.
The place of a body in the model begins with the locals declarations, and so do the bytes that are
analysed: they never decode to the operators of the function (`body_not_decoded`).
-/

namespace ReverseMcp.Wasm

open Rust

/-- `PARSE_LIMIT_BYTES`. -/
def PARSE_LIMIT_BYTES : ℕ := 256 * 1024 * 1024

/-- `map_err(|e| mcp_code(..))`. -/
def orCode {α : Type} (code what : String) : Outcome Error α → Outcome Tools.McpError α
  | .ok a => .ok a
  | .err e => .err (Tools.mcp_code code s!"{what}: {e.text}")
  | .panic p => .panic p

section
variable [Host]

/-- `parse_index`. -/
def parse_index : Json → Option U32
  | .string s => (fromStrRadix (2 ^ 32) 10 (trim s).toList).toOption
  | .number n => (Json.number n).asU64.map fun n => asU32 n.val
  | _ => none

/-- What all actions begin with. -/
def load_module [ModuleParser] (raw : List U8) : Outcome Tools.McpError ModuleModel :=
  if raw.length > PARSE_LIMIT_BYTES then
    .err (Tools.mcp_code "budget" s!"module exceeds parse budget ({PARSE_LIMIT_BYTES} bytes)")
  else orCode "wasm_parse" "not a parseable WASM module" (parse raw)

/-- `&raw[start..stop]`. -/
def sliceBytes (raw : List U8) (start stop : U64) : Outcome Tools.McpError (List U8) :=
  if start ≤ stop ∧ stop.val ≤ raw.length then .ok (between raw start.val stop.val)
  else .panic .index

/-- The function that the arguments name, and the bytes that are taken for its body. -/
def function_body (model : ModuleModel) (raw : List U8) (action : String) (args : Json) :
    Outcome Tools.McpError (U32 × List U8) := do
  let idx ← Outcome.ofOption (Tools.mcp_code "invalid_args" s!"{action} requires 'index'")
    ((args.get "index").bind parse_index)
  let f ← Outcome.ofOption
    (Tools.mcp_code "invalid_args" s!"function index {idx.val} not in module") (model.function idx)
  let stop ← addU64 f.code_offset f.code_size
  let body ← sliceBytes raw f.code_offset stop
  return (idx, body)

variable [ModuleParser] [Wasmparser]

/-- The action `cfg`. -/
def wasm_cfg (raw : List U8) (args : Json) : Outcome Tools.McpError StructuredCfg := do
  let model ← load_module raw
  let (_, body) ← function_body model raw "cfg" args
  orCode "wasm_cfg" "structured CFG failed" (analyze_body body)

/-- The action `pseudocode`. -/
def wasm_pseudocode (raw : List U8) (args : Json) : Outcome Tools.McpError String := do
  let model ← load_module raw
  let (idx, body) ← function_body model raw "pseudocode" args
  let cfg ← orCode "wasm_cfg" "structured CFG failed" (analyze_body body)
  orCode "wasm_pseudo" "pseudocode failed" (render model idx body cfg)

/-- The action `indirect_targets`; no index is known to be constant. -/
def wasm_indirect_targets (raw : List U8) (args : Json) :
    Outcome Tools.McpError (List IndirectTarget) := do
  let model ← load_module raw
  let (_, body) ← function_body model raw "indirect_targets" args
  let cfg ← orCode "wasm_cfg" "structured CFG failed" (analyze_body body)
  return resolve_indirect model cfg.indirect_calls fun _ => none

end

/-- What the parser says about the bodies of a file: the range of a body lies in the file, and
covers the locals declarations, of which there is at least the count, and then the operators. -/
def BodiesPlaced [ModuleParser] (raw : List U8) : Prop :=
  ∀ body ∈ bodiesOf raw,
    body.start < body.operators ∧ body.operators ≤ body.stop ∧ body.stop ≤ raw.length

section
variable [Host] [ModuleParser] {raw : List U8} {model : ModuleModel}

lemma load_module_eq_ok (h : load_module raw = .ok model) :
    raw.length ≤ PARSE_LIMIT_BYTES ∧ parse raw = .ok model := by
  rw [load_module] at h
  split at h
  · cases h
  · rename_i hlength
    refine ⟨not_lt.mp hlength, ?_⟩
    cases hparse : parse raw with
    | ok m =>
      rw [hparse] at h
      exact congrArg _ (Outcome.ok.inj h)
    | err e =>
      rw [hparse] at h
      cases h
    | panic p =>
      rw [hparse] at h
      cases h

/-- The whole body is taken, from its locals declarations on. -/
lemma function_body_eq_ok (hload : load_module raw = .ok model) (hplaced : BodiesPlaced raw)
    {args : Json} {idx : U32} (hidx : (args.get "index").bind parse_index = some idx)
    {f : FunctionEntry} (hf : model.function idx = some f) {k : ℕ}
    (hk : model.functions[k]? = some f) {body : FunctionBody}
    (hbody : (bodiesOf raw)[k]? = some body) (action : String) :
    function_body model raw action args = .ok (idx, between raw body.start body.stop) := by
  obtain ⟨hlimit, hparse⟩ := load_module_eq_ok hload
  obtain ⟨hlocals, hoperators, hstop⟩ := hplaced body (List.mem_of_getElem? hbody)
  have hplace : f.place = body.place := parse_place hparse hbody hk
  have hsmall : body.stop < 2 ^ 64 := by
    have hbound : PARSE_LIMIT_BYTES < 2 ^ 64 := by decide
    omega
  -- the body is small enough for its place to be kept as it is
  have hoffset : f.code_offset.val = body.start := by
    rw [show f.code_offset = asU64 body.start from congrArg Prod.fst hplace]
    exact asU64_val (by omega)
  have hsize : f.code_size.val = body.stop - body.start := by
    rw [show f.code_size = asU64 (body.stop - body.start) from congrArg Prod.snd hplace]
    exact asU64_val (by omega)
  have hlt : f.code_offset.val + f.code_size.val < 2 ^ 64 := by omega
  have hend : addU64 f.code_offset f.code_size =
      (.ok (f.code_offset + f.code_size) : Outcome Tools.McpError U64) := by
    rw [addU64, if_pos (Or.inl hlt)]
  have hval : (f.code_offset + f.code_size).val = body.stop := by
    rw [Fin.val_add, hoffset, hsize]
    omega
  have hslice : sliceBytes raw f.code_offset (f.code_offset + f.code_size) =
      .ok (between raw body.start body.stop) := by
    rw [sliceBytes, if_pos, hval, hoffset]
    refine ⟨?_, by omega⟩
    rw [Fin.le_def, hval, hoffset]
    omega
  rw [function_body, hidx]
  simp only [Outcome.ofOption, Outcome.ok_bind, hf, hend, hslice]
  rfl

/-- The three actions analyse these bytes for the body of the function. -/
structure Analysed [Wasmparser] (raw : List U8) (args : Json) (model : ModuleModel) (idx : U32)
    (bytes : List U8) : Prop where
  body : ∀ action, function_body model raw action args = .ok (idx, bytes)
  cfg : wasm_cfg raw args = orCode "wasm_cfg" "structured CFG failed" (analyze_body bytes)
  pseudocode : wasm_pseudocode raw args = (do
    let cfg ← orCode "wasm_cfg" "structured CFG failed" (analyze_body bytes)
    orCode "wasm_pseudo" "pseudocode failed" (render model idx bytes cfg))
  indirect_targets : wasm_indirect_targets raw args = (do
    let cfg ← orCode "wasm_cfg" "structured CFG failed" (analyze_body bytes)
    return resolve_indirect model cfg.indirect_calls fun _ => none)

lemma Analysed.of_body [Wasmparser] (hload : load_module raw = .ok model) {args : Json} {idx : U32}
    {bytes : List U8} (h : ∀ action, function_body model raw action args = .ok (idx, bytes)) :
    Analysed raw args model idx bytes where
  body := h
  cfg := by rw [wasm_cfg, hload, Outcome.ok_bind, h, Outcome.ok_bind]
  pseudocode := by rw [wasm_pseudocode, hload, Outcome.ok_bind, h, Outcome.ok_bind]
  indirect_targets := by rw [wasm_indirect_targets, hload, Outcome.ok_bind, h, Outcome.ok_bind]

/-- The bytes that the actions analyse never decode to the operators of the function. -/
theorem body_not_decoded [Wasmparser] {encodes : Operator → List U8 → Prop} (hreads : Reads encodes)
    (hload : load_module raw = .ok model) (hplaced : BodiesPlaced raw) {args : Json} {idx : U32}
    (hidx : (args.get "index").bind parse_index = some idx) {f : FunctionEntry}
    (hf : model.function idx = some f) {k : ℕ} (hk : model.functions[k]? = some f)
    {body : FunctionBody} (hbody : (bodiesOf raw)[k]? = some body) {ops : List Operator}
    (hops : (Wasmparser.operators (between raw body.operators body.stop)).decoded = some ops) :
    ∃ bytes, Analysed raw args model idx bytes ∧
      (Wasmparser.operators bytes).decoded ≠ some ops := by
  obtain ⟨hlocals, hoperators, hstop⟩ := hplaced body (List.mem_of_getElem? hbody)
  refine ⟨_, .of_body hload (function_body_eq_ok hload hplaced hidx hf hk hbody), ?_⟩
  rw [between_split hlocals.le hoperators]
  refine hreads.decoded_ne (fun hnil => ?_) hops
  have hlength : (between raw body.start body.operators).length = body.operators - body.start :=
    between_length (hoperators.trans hstop)
  rw [hnil, List.length_nil] at hlength
  omega

end

/-- A file with one function that has no locals and does nothing. -/
def emptyFunction : List U8 :=
  [0x00, 0x61, 0x73, 0x6d, 1, 0, 0, 0, 0x01, 0x04, 1, 0x60, 0, 0, 0x03, 0x02, 1, 0,
    0x0a, 0x04, 1, 0x02, 0x00, 0x0b]

/-- Its payloads. -/
def emptyFunctionPayloads : List Payload :=
  [.version, .typeSection 10 14 [.ok [.func [] []]], .functionSection 16 18 [.ok 0],
    .codeSectionStart 20 24, .codeSectionEntry ⟨22, 24, .ok [], 23⟩]

/-- Arguments with the first function. -/
def firstFunction : Json := .object [("index", .nat 0)]

/-- What is taken for the body of the empty function does not decode to its `end`. -/
theorem body_not_decoded_empty :
    letI : Host := Host.ascii true
    letI : ModuleParser := ⟨fun _ => emptyFunctionPayloads.map .ok⟩
    letI : Wasmparser := .basic
    ∃ model, load_module emptyFunction = .ok model ∧
      ∃ bytes, Analysed emptyFunction firstFunction model 0 bytes ∧
        (Wasmparser.operators bytes).decoded ≠ some [.end_] := by
  let _ : Host := Host.ascii true
  let _ : ModuleParser := ⟨fun _ => emptyFunctionPayloads.map .ok⟩
  let _ : Wasmparser := .basic
  have hplaced : BodiesPlaced emptyFunction := by
    intro body hbody
    obtain rfl := List.mem_singleton.mp hbody
    decide
  obtain ⟨model, hload⟩ : ∃ model, load_module emptyFunction = .ok model := ⟨_, rfl⟩
  have hfind : model.function 0 = some ⟨0, 0, 22, 2, [], none⟩ := by
    cases hload
    rfl
  have hentry : model.functions[0]? = some ⟨0, 0, 22, 2, [], none⟩ := by
    cases hload
    rfl
  have hbody : (bodiesOf emptyFunction)[0]? = some ⟨22, 24, .ok [], 23⟩ := rfl
  have hops : (Wasmparser.operators (between emptyFunction 23 24)).decoded = some [.end_] := rfl
  have hidx : (firstFunction.get "index").bind parse_index = some 0 := rfl
  exact ⟨model, hload,
    body_not_decoded reads_basic hload hplaced hidx hfind hentry hbody hops⟩

/-- The count of the locals declarations of the empty function is taken for an `unreachable`. -/
theorem body_decoded_unreachable :
    letI : Host := Host.ascii true
    letI : ModuleParser := ⟨fun _ => emptyFunctionPayloads.map .ok⟩
    letI : Wasmparser := .basic
    ∃ model bytes, load_module emptyFunction = .ok model ∧
      bodiesOf emptyFunction = [⟨22, 24, .ok [], 23⟩] ∧
      (Wasmparser.operators (between emptyFunction 23 24)).decoded = some [.end_] ∧
      function_body model emptyFunction "cfg" firstFunction = .ok (0, bytes) ∧
      (Wasmparser.operators bytes).decoded = some [.unreachable, .end_] :=
  ⟨_, _, rfl, rfl, rfl, rfl, rfl⟩

end ReverseMcp.Wasm
