import ReverseMcp.Worker.Deep

/-!
# Deobfuscation transforms

`rmcp_worker::transforms`: sites of three patterns are found in a function's listing and
proposed as NOP patches (`propose`), a plan is checked against the database (`validate`), and
a plan is applied behind a snapshot (`apply`).  The site scans are functions of the listing
alone.
-/

namespace ReverseMcp

open Rust

namespace Transforms

open Deep (items textOf)

/-- `transforms::MAX_SITES`. -/
def MAX_SITES : ℕ := 16

/-- `transforms::NOP`. -/
def NOP : String := "90"

/-- `transforms::TransformKind`. -/
inductive TransformKind where
  | T1OpaqueBranch
  | T2JunkRemoval
  | T3IndirectMaterialize
  | T4Unflatten
deriving DecidableEq

namespace TransformKind

/-- `TransformKind::parse`. -/
def parse (s : String) : Result TransformKind :=
  match s with
  | "T1_opaque_branch" => .ok T1OpaqueBranch
  | "T2_junk_removal" => .ok T2JunkRemoval
  | "T3_indirect_materialize" => .ok T3IndirectMaterialize
  | "T4_unflatten" => .ok T4Unflatten
  | other => fail (s!"unknown transform kind '{other}' (T1_opaque_branch|T2_junk_removal|" ++
      "T3_indirect_materialize|T4_unflatten)")

/-- `TransformKind::name`. -/
def name : TransformKind → String
  | T1OpaqueBranch => "T1_opaque_branch"
  | T2JunkRemoval => "T2_junk_removal"
  | T3IndirectMaterialize => "T3_indirect_materialize"
  | T4Unflatten => "T4_unflatten"

end TransformKind

/-- `transforms::Site`. -/
structure Site where
  ea : U64
  len : ℕ
  evidence : Json
deriving DecidableEq

/-- `transforms::parse_ea`; unlike its siblings it shows the text untrimmed. -/
def parse_ea (s : String) : Result U64 := ofParse (badEa s) (parseAddress s)

/-- `transforms::insn_len`: one byte for each word of the text. -/
def insn_len (text : String) : ℕ := max 1 (countWords text)

/-! ## T1: compare with itself, then branch -/

/-- A `cmp` or `test` of an operand with itself. -/
def isSelfCompare (insn : InsnInfo) : Bool :=
  let m := toAsciiLowercase insn.mnemonic
  (m = "cmp" || m = "test") &&
    match splitTrim insn.operands with
    | [a, b] => eqIgnoreAsciiCase a b && a ≠ "?"
    | _ => false

/-- A conditional jump on the zero flag. -/
def isCondJump (insn : InsnInfo) : Bool :=
  toAsciiLowercase insn.mnemonic ∈ ["jz", "jnz", "je", "jne"]

/-- The site of a compare and the jump after it.  The jump counts with the length of its text,
not with the number of its words. -/
def opaqueSite (insn next : InsnInfo) : Site where
  ea := insn.ea
  len := min (insn_len insn.text + max 1 (byteLen next.text.toList)) 16
  evidence := .object [("pattern", toAsciiLowercase insn.mnemonic ++ "_reg_reg"),
    ("text", insn.text)]

/-- The loop of `opaque_sites`. -/
def opaqueFrom : List InsnInfo → List Site → List Site
  | insn :: next :: rest, sites =>
    if isSelfCompare insn && isCondJump next then
      let sites := sites ++ [opaqueSite insn next]
      if MAX_SITES ≤ sites.length then sites else opaqueFrom (next :: rest) sites
    else opaqueFrom (next :: rest) sites
  | _, sites => sites

/-! ## T2: store and load of a slot -/

/-- The operand kinds of a `mov` with two operands. -/
def movKinds (insn : InsnInfo) : Option (String × String) :=
  if eqIgnoreAsciiCase insn.mnemonic "mov" then
    match splitTrim insn.operands with
    | [a, b] => some (a, b)
    | _ => none
  else none

/-- The operand kinds that stand for a memory slot. -/
def isMem (s : String) : Bool := s = "Displ" || s = "Phrase"

/-- `transforms::pair_is_roundtrip`. -/
def pair_is_roundtrip (a b : InsnInfo) : Bool :=
  match movKinds a, movKinds b with
  | some (a0, a1), some (b0, b1) =>
    (isMem a0 && a1 = "Reg" && b0 = "Reg" && isMem b1) ||
      (a0 = "Reg" && isMem a1 && b0 = "Reg" && isMem b1)
  | _, _ => false

/-- The site of a roundtrip pair. -/
def junkSite (a b : InsnInfo) : Site where
  ea := a.ea
  len := min (insn_len a.text + insn_len b.text) 16
  evidence := .object [("pattern", "store_load_roundtrip"), ("site", a.text),
    ("follower", b.text)]

/-- The loop of `junk_sites`: a selected pair is consumed whole. -/
def junkFrom : List InsnInfo → List Site → List Site
  | a :: b :: rest, sites =>
    if pair_is_roundtrip a b then
      let sites := sites ++ [junkSite a b]
      if MAX_SITES ≤ sites.length then sites else junkFrom rest sites
    else junkFrom (b :: rest) sites
  | _, sites => sites

/-! ## T3: jump through a register -/

/-- `transforms::is_reg`. -/
def is_reg (ops : String) : Bool :=
  ops ∈ ["eax", "ebx", "ecx", "edx", "esi", "edi", "ebp", "esp",
    "rax", "rbx", "rcx", "rdx", "rsi", "rdi", "rbp", "rsp"]

/-- `trim_start_matches("0X")`. -/
def trimUpperHexMarks : List Char → List Char
  | '0' :: 'X' :: cs => trimUpperHexMarks cs
  | cs => cs

/-- `transforms::parse_imm`: hexadecimal with or without marks, else decimal. -/
def parse_imm (s : String) : Option U64 :=
  let t := trimUpperHexMarks (trimHexMarks (trimChars s.toList))
  if t = [] then none
  else
    ((fromStrRadix (2 ^ 64) 16 t).toOption).or
      ((fromStrRadix (2 ^ 64) 10 (trimChars s.toList)).toOption)

/-- The constant that a `mov` writes to the register `reg`. -/
def movConst (reg : String) (insn : InsnInfo) : Option U64 :=
  if eqIgnoreAsciiCase insn.mnemonic "mov" then
    match splitTrim insn.operands with
    | [a, b] => if eqIgnoreAsciiCase a reg then parse_imm b else none
    | _ => none
  else none

/-- The register text of an instruction's operands. -/
def regText (insn : InsnInfo) : String := toAsciiLowercase (trim insn.operands)

/-- The value that makes `insn` a site: it jumps through a register, and the six instructions
before it, newest first in `prev`, write exactly one constant to that register. -/
def indirectValue (prev : List InsnInfo) (insn : InsnInfo) : Option U64 :=
  if toAsciiLowercase insn.mnemonic = "jmp" ∧ is_reg (regText insn) then
    let values : AddrSet := ((prev.take 6).filterMap (movConst (regText insn))).foldl
      (·.insert ·) ∅
    match values.toList with
    | [v] => some v
    | _ => none
  else none

/-- The site of a jump through a register. -/
def indirectSite (insn : InsnInfo) (v : U64) : Site where
  ea := insn.ea
  len := min (insn_len insn.text) 16
  evidence := .object [("pattern", "jmp_reg_const"), ("reg", regText insn), ("target", .ea v)]

/-- The loop of `indirect_sites`; `prev` holds the instructions before, newest first. -/
def indirectFrom (prev : List InsnInfo) : List InsnInfo → List Site → List Site
  | [], sites => sites
  | insn :: rest, sites =>
    match indirectValue prev insn with
    | some v =>
      let sites := sites ++ [indirectSite insn v]
      if MAX_SITES ≤ sites.length then sites else indirectFrom (insn :: prev) rest sites
    | none => indirectFrom (insn :: prev) rest sites

/-! ## Proposals -/

variable [Host]

/-- `transforms::opaque_sites`. -/
def opaque_sites (b : MockBackend) (target stop : U64) : Result (List Site) := do
  let list ← b.disassemble target (some stop) 2000
  return opaqueFrom list []

/-- `transforms::junk_sites`. -/
def junk_sites (b : MockBackend) (target stop : U64) : Result (List Site) := do
  let list ← b.disassemble target (some stop) 2000
  return junkFrom list []

/-- `transforms::indirect_sites`. -/
def indirect_sites (b : MockBackend) (target stop : U64) : Result (List Site) := do
  let list ← b.disassemble target (some stop) 2000
  return indirectFrom [] list []

omit [Host] in
/-- The patch of a site: one NOP byte for each byte of its length. -/
def patchOp (site : Site) : Json :=
  .object [("kind", "patch_bytes"), ("ea", .ea site.ea),
    ("hex", String.join (List.replicate site.len NOP))]

/-- The plan for the sites found. -/
def planJson (target : U64) (name : String) (kind : TransformKind) (sites : List Site) : Json :=
  let shown := sites.take MAX_SITES
  .object [("transform_id",
      s!"{Host.toLowercase kind.name}-{hexText target.val}-{sites.length}"),
    ("kind", kind.name), ("target", .ea target), ("function", name),
    ("proposable", !shown.isEmpty), ("truncated", decide (MAX_SITES < sites.length)),
    ("risk", "low"), ("reversible", true), ("requires_microcode", false),
    ("evidence", .array (shown.map fun site => .object [("ea", .ea site.ea),
      ("len", .nat site.len), ("evidence", site.evidence)])),
    ("operations", .array (shown.map patchOp)),
    ("note", "patch-level transform; validate re-checks bytes/xrefs at apply time")]

/-- `transforms::propose`. -/
def propose (b : MockBackend) (idx : AnalysisIndex) (target : U64) (kind : TransformKind) :
    Result Json := do
  let f ← Outcome.ofOption (Error.worker s!"no function at {hex target}") idx.functions[target]?
  match kind with
  | .T4Unflatten =>
    return .object [("transform_id", s!"t4-unflatten-{hexText target.val}"), ("kind", kind.name),
      ("target", .ea target), ("proposable", false), ("reason", "requires_microcode"),
      ("note", "dispatcher elimination needs the microcode transform stack; no plan emitted")]
  | .T1OpaqueBranch =>
    let sites ← opaque_sites b target f.ea_end
    return planJson target f.name kind sites
  | .T2JunkRemoval =>
    let sites ← junk_sites b target f.ea_end
    return planJson target f.name kind sites
  | .T3IndirectMaterialize =>
    let sites ← indirect_sites b target f.ea_end
    return planJson target f.name kind sites

/-! ## Validation -/

omit [Host] in
/-- The target of a plan. -/
def planTarget (plan : Json) : Result U64 := parse_ea (((plan.idx "target").asStr).getD "0")

omit [Host] in
lemma planTarget_returns (plan : Json) : (planTarget plan).Returns := ofParse_returns _ _

/-- The references into the bytes of a site other than by falling through. -/
def inboundXrefs (b : MockBackend) (ea : U64) (len : ℕ) : Result (List XrefInfo) := do
  let found ← Outcome.mapList (fun a => do
    let at_ea ← addU64 ea (asU64 a)
    b.xrefs_to at_ea) (List.range len)
  return found.flatten.filter fun x => x.kind ≠ "flow"

/-- The check of operation `i` of a plan: its rejection, if any. -/
def validateOp (b : MockBackend) (f : FunctionInfo) (entry : Json × ℕ) :
    Result (Option Json) := do
  let op := entry.1
  let i := entry.2
  match (op.idx "ea").asStr with
  | none => return some (.object [("index", .nat i), ("reason", "malformed_op")])
  | some ea_s =>
    let ea ← parse_ea ea_s
    let len := byteLen (textOf op "hex").toList / 2
    let stop ← addU64 ea (asU64 len)
    if ea < f.ea_start ∨ f.ea_end < stop then
      return some (.object [("index", .nat i), ("ea", ea_s), ("reason", "outside_target_function"),
        ("detail", s!"site [{hex ea},{hex stop}) not inside [{hex f.ea_start},{hex f.ea_end})")])
    let xrefs ← inboundXrefs b ea len
    if !xrefs.isEmpty then
      return some (.object [("index", .nat i), ("ea", ea_s), ("reason", "inbound_xrefs"),
        ("detail", "site bytes are referenced; NOPs would corrupt callers"),
        ("xrefs", .array (xrefs.map fun x => .object [("from", .ea x.src), ("kind", x.kind)]))])
    let raw ← b.get_bytes ea len
    if textOf raw "hex" = "" then
      return some (.object [("index", .nat i), ("ea", ea_s), ("reason", "bytes_unreadable")])
    return none

/-- `transforms::validate`. -/
def validate (b : MockBackend) (plan : Json) : Result Json := do
  let kind := textOf plan "kind"
  let target ← planTarget plan
  match b.function_at target with
  | .panic p => .panic p
  | .err e =>
    return .object [("valid", false), ("kind", kind),
      ("rejections", .array [.object [("reason", "target_function_gone"), ("detail", e.text)]])]
  | .ok f =>
    let ops := items plan "operations"
    let rejections ← Outcome.mapList (validateOp b f) ops.zipIdx
    let rejections := rejections.filterMap id
    return .object [("valid", rejections.isEmpty), ("kind", kind),
      ("operations", .nat ops.length), ("rejections", .array rejections)]

/-! ## Application -/

omit [Host] in
/-- `transforms::decompile_summary`. -/
def decompile_summary : Option Json → Json
  | none => .object [("unavailable", true)]
  | some d =>
    let text := (d.idx "pseudocode").asStr
    .object [("pseudocode_len", .opt (text.map fun s => .nat (byteLen s.toList))),
      ("lines", .opt (text.map fun s => .nat (countLines s))),
      ("sha_prefix", .opt (text.map fun s => .string (hexPadded 16 (fnv1a64 (bytes s)).val)))]

omit [Host] in
/-- The graph request of the after evidence. -/
def cfgParams : GraphParams := ⟨"cfg", 1, 400, 800⟩

omit [Host] in
/-- The number of items of an array of the graph, where there is one. -/
def cfgCount (cfg : Option Json) (key : String) : Json :=
  .opt ((cfg.bind fun g => (g.idx key).asArray).map fun l => .nat l.length)

/-- The steps of `apply` behind the snapshot: the summaries before and after, and the plan. -/
def applyPushed (plan : Json) (ops_json : List Json) (target : U64) (snapshot : Json)
    (b : MockBackend) : Action Error WorkerState Json := do
  let before ← Action.lift (b.decompile target).ok?
  let ops ← Action.lift (Plan.parse_operations ops_json)
  let s ← Action.get
  let (applied, b, audit) ← Action.lift (Plan.apply ops b s.audit)
  Action.modify fun s => { s with backend := some b, audit := audit }
  let after ← Action.lift (b.decompile target).ok?
  let cfg ← Action.lift (b.graph target cfgParams).ok?
  return .object [("transform_id", plan.idx "transform_id"),
    ("kind", ((plan.idx "kind").asStr).getD "unknown"), ("target", plan.idx "target"),
    ("applied", applied), ("before", decompile_summary before),
    ("after", decompile_summary after),
    ("cfg_after", .object [("nodes", cfgCount cfg "nodes"), ("edges", cfgCount cfg "edges")]),
    ("snapshot", snapshot),
    ("rollback", "ida_deobfuscate action=rollback (or ida_mutation action=rollback)")]

/-- `transforms::apply`.  The guard comes first, the snapshot second; an operation that does
not parse is only found after the snapshot was taken. -/
def apply (plan : Json) (expected_revision : Option U64) : Action Error WorkerState Json := do
  let ops_json := items plan "operations"
  Action.lift (failIf (ops_json = []) "plan has no operations")
  let target ← Action.lift (planTarget plan)
  let s ← Action.get
  match s.backend with
  | none => Action.lift (.panic .expect)
  | some b =>
    Action.lift (Plan.check_plan_revision b expected_revision)
    let (snapshot, b) ← Action.lift b.snapshot_create
    Action.modify fun s => { s with backend := some b }
    applyPushed plan ops_json target snapshot b

end Transforms

end ReverseMcp
