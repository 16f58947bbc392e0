import ReverseMcp.Rust.Floats
import ReverseMcp.Worker.Transforms

/-!
# Deobfuscation passes

`rmcp_worker::deob`: five analysis-only passes over one function, each reporting a confidence
and what it saw.
-/

namespace ReverseMcp

open Rust

namespace Deob

open Deep (items textOf)

/-- `deob::PassReport`. -/
structure PassReport where
  name : String
  version : ℕ
  confidence : F64
  evidence : Json
  proposed : Json
  failure : Option String

/-- `PassReport::to_json`. -/
def PassReport.to_json (r : PassReport) : Json :=
  .object [("pass", r.name), ("version", .nat r.version), ("confidence", fixed2 r.confidence.val),
    ("evidence", r.evidence), ("proposed", r.proposed),
    ("failure", .opt (r.failure.map Json.string))]

/-- `deob::pass_budget`. -/
def pass_budget (max_passes : ℕ) : ℕ := clamp max_passes 1 16

/-- The proposal of a pass that found nothing. -/
def noAction : Json := .object [("action", "none")]

/-- The report of a pass that could not run. -/
def failedPass (name reason : String) : PassReport :=
  ⟨name, 1, 0, .object [], noAction, some reason⟩

/-- The report of a pass that lists sites. -/
def sitesPass (name : String) (confidence : F64) (sites : List Json) (action note : String)
    (failure : Option String) : PassReport :=
  ⟨name, 1, confidence, .object [("sites", .array sites), ("count", .nat sites.length)],
    if sites.isEmpty then noAction else .object [("action", action), ("note", note)], failure⟩

/-- The loop that lists the sites of an instruction list, with the instructions before, newest
first in `prev`; it breaks at `limit`. -/
def siteRows (limit : ℕ) (site : List InsnInfo → InsnInfo → List InsnInfo → Option Json) :
    List InsnInfo → List InsnInfo → List Json → List Json
  | _, [], rows => rows
  | prev, insn :: rest, rows =>
    match site prev insn rest with
    | some row =>
      let rows := rows ++ [row]
      if limit ≤ rows.length then rows else siteRows limit site (insn :: prev) rest rows
    | none => siteRows limit site (insn :: prev) rest rows

/-- A listing that may be missing: its instructions, and the error in its place. -/
def listing (x : Result (List InsnInfo)) : Result (List InsnInfo × Option String) :=
  match x with
  | .ok list => .ok (list, none)
  | .err e => .ok ([], some e.text)
  | .panic p => .panic p

/-- The address and the text of an instruction. -/
def insnRow (insn : InsnInfo) : Json := .object [("ea", .ea insn.ea), ("text", insn.text)]

/-! ## The passes -/

variable [Host]

/-- `deob::flattening_pass`. -/
def flattening_pass (b : MockBackend) (target : U64) : Result PassReport :=
  match b.graph target Transforms.cfgParams with
  | .panic p => .panic p
  | .err e => .ok (failedPass "flatten_detect" s!"cfg unavailable: {e.text}")
  | .ok g =>
    let nodes := (items g "nodes").length
    let edges := (items g "edges").length
    let avg_in : F64 := if 0 < nodes then edges / nodes else 0.0
    let score : F64 := if 12 ≤ nodes ∧ 1.6 ≤ avg_in then min (avg_in / 3.0) 0.9
      else if 6 ≤ nodes ∧ 2.0 ≤ avg_in then 0.6
      else 0.2
    .ok ⟨"flatten_detect", 1, score,
      .object [("cfg_nodes", .nat nodes), ("cfg_edges", .nat edges),
        ("avg_in_degree", fixed2 avg_in.val),
        ("heuristic", "dispatcher-like block would show avg in-degree far above 1.0")],
      if 0.6 ≤ score then .object [("action", "unflatten"),
        ("note", "would require microcode-level transformation (proposed, not applied)")]
      else noAction, none⟩

omit [Host] in
/-- `str::split_once`. -/
def splitOnce (sep : List Char) : List Char → Option (List Char × List Char)
  | [] => none
  | c :: cs =>
    if sep.isPrefixOf (c :: cs) then some ([], (c :: cs).drop sep.length)
    else (splitOnce sep cs).map fun p => (c :: p.1, p.2)

omit [Host] in
/-- The text inside `if (..)`, or the text itself. -/
def condText (t : List Char) : List Char :=
  let mark := "if (".toList
  if mark.isPrefixOf t ∧ (t.drop mark.length).getLast? = some ')' then
    (t.drop mark.length).dropLast
  else t

omit [Host] in
/-- The pattern that a ctree line shows, if any. -/
def ctreeRow (row : Json) : Option Json :=
  match (row.idx "text").asStr with
  | none => none
  | some text =>
    let t := trimChars text.toList
    if t = "if (1)".toList ∨ t = "if (0)".toList ∨ t = "while (1)".toList then
      some (.object [("ea", row.idx "ea"), ("pattern", String.ofList t)])
    else
      let inner := condText t
      match (splitOnce "==".toList inner).or (splitOnce "!=".toList inner) with
      | none => none
      | some (x, y) =>
        if trimChars x = trimChars y ∧ trimChars x ≠ [] ∧ (trimChars x).getLast? ≠ some '=' then
          some (.object [("ea", row.idx "ea"), ("pattern", "self_comparison"),
            ("text", String.ofList t)])
        else none

omit [Host] in
/-- The ctree loop of `opaque_branch_pass`; it breaks at 16. -/
def ctreeRows : List Json → List Json → List Json
  | [], found => found
  | row :: rows, found =>
    if (row.idx "text").asStr.isNone then ctreeRows rows found
    else
      let found := found ++ (ctreeRow row).toList
      if 16 ≤ found.length then found else ctreeRows rows found

omit [Host] in
/-- An assembly-level opaque predicate. -/
def opaqueRow (_ : List InsnInfo) (insn : InsnInfo) (rest : List InsnInfo) : Option Json :=
  match rest with
  | next :: _ =>
    if Transforms.isSelfCompare insn && Transforms.isCondJump next then
      some (.object [("ea", .ea insn.ea),
        ("pattern", toAsciiLowercase insn.mnemonic ++ "_reg_reg"), ("text", insn.text)])
    else none
  | [] => none

omit [Host] in
/-- The confidence of a number of opaque branches. -/
def opaqueConfidence : ℕ → F64
  | 0 => 0.05
  | 1 => 0.4
  | 2 => 0.6
  | n => min (0.6 + 0.1 * (min n 4 : ℕ)) 0.95

/-- `deob::opaque_branch_pass`. -/
def opaque_branch_pass (b : MockBackend) (target : U64) : Result PassReport := do
  let hr ← (b.hr_cfunc target true false 4000).ok?
  let found := ctreeRows (items (hr.getD .null) "ctree") []
  let found ← (do
    match ← (b.function_at target).ok? with
    | none => return found
    | some f =>
      match ← (b.disassemble target (some f.ea_end) 2000).ok? with
      | none => return found
      | some list => return siteRows 16 opaqueRow [] list found)
  return sitesPass "opaque_branch" (opaqueConfidence found.length) found "simplify"
    "would fold constant/self comparisons in microcode (proposed, not applied)" none

omit [Host] in
/-- `deob::is_reg_only`. -/
def is_reg_only (ops : String) : Bool := Transforms.is_reg (toAsciiLowercase ops)

omit [Host] in
/-- An indirect jump or call. -/
def indirectRow (_ : List InsnInfo) (insn : InsnInfo) (_ : List InsnInfo) : Option Json :=
  let m := toAsciiLowercase insn.mnemonic
  let ops := trim insn.operands
  if (m = "jmp" ∨ m = "call") ∧
      (startsWith ops "[" || Rust.contains ops "reg" || is_reg_only ops) then
    some (insnRow insn)
  else none

omit [Host] in
/-- The confidence of a number of indirect transfers. -/
def indirectConfidence (n : ℕ) : F64 :=
  if n = 0 then 0.05 else if n = 1 then 0.35 else if n ≤ 4 then 0.55 else 0.75

/-- `deob::indirect_pass`. -/
def indirect_pass (b : MockBackend) (idx : AnalysisIndex) (target : U64) : Result PassReport :=
  match idx.functions[target]? with
  | none => .ok (failedPass "indirect_transfer" "function not indexed")
  | some f => do
    let (list, failure) ← listing (b.disassemble target (some f.ea_end) 2000)
    let found := siteRows 16 indirectRow [] list []
    return sitesPass "indirect_transfer" (indirectConfidence found.length) found "narrow_targets"
      "would resolve targets when a dominating assignment proves unique (proposed, not applied)"
      failure

omit [Host] in
/-- A store and load of a slot, or two loads. -/
def junkRow (_ : List InsnInfo) (insn : InsnInfo) (rest : List InsnInfo) : Option Json :=
  match rest with
  | next :: _ => if Transforms.pair_is_roundtrip insn next then some (insnRow insn) else none
  | [] => none

omit [Host] in
/-- The confidence of a number of junk pairs. -/
def junkConfidence (n : ℕ) : F64 :=
  if n = 0 then 0.05 else if n ≤ 2 then 0.3 else if n ≤ 6 then 0.55 else 0.8

/-- `deob::junk_pass`. -/
def junk_pass (b : MockBackend) (target : U64) : Result PassReport := do
  match ← (b.function_at target).ok? with
  | none => return failedPass "junk_code" "function not found"
  | some f =>
    let (list, failure) ← listing (b.disassemble target (some f.ea_end) 2000)
    let found := siteRows 16 junkRow [] list []
    return sitesPass "junk_code" (junkConfidence found.length) found "remove_noops"
      "would nop-free the instruction stream in microcode (proposed, not applied)" failure

omit [Host] in
/-- A jump through a register that one of the six instructions before assigns. -/
def tailRow (prev : List InsnInfo) (insn : InsnInfo) (_ : List InsnInfo) : Option Json :=
  let ops := trim insn.operands
  if toAsciiLowercase insn.mnemonic = "jmp" ∧ is_reg_only ops ∧
      (prev.take 6).any (fun p => eqIgnoreAsciiCase p.mnemonic "mov" &&
        (splitTrim p.operands).head? == some ops) then
    some (.object [("ea", .ea insn.ea), ("reg", ops)])
  else none

omit [Host] in
/-- The confidence of a number of tail jumps. -/
def tailConfidence (n : ℕ) : F64 :=
  if n = 0 then 0.05 else if n = 1 then 0.5 else if n ≤ 3 then 0.7 else 0.85

/-- `deob::tail_jump_pass`. -/
def tail_jump_pass (b : MockBackend) (target : U64) : Result PassReport := do
  match ← (b.function_at target).ok? with
  | none => return failedPass "tail_jump" "function not found"
  | some f =>
    let (list, failure) ← listing (b.disassemble target (some f.ea_end) 2000)
    let found := siteRows 8 tailRow [] list []
    return sitesPass "tail_jump" (tailConfidence found.length) found "convert_to_call"
      "would convert reg-jumps to explicit calls where the register assignment is unique (proposed, not applied)"
      failure

/-! ## The run -/

/-- The passes in order; the budget cuts the list. -/
def passes (b : MockBackend) (idx : AnalysisIndex) (target : U64) :
    List (Unit → Result PassReport) :=
  [fun _ => flattening_pass b target, fun _ => opaque_branch_pass b target,
    fun _ => indirect_pass b idx target, fun _ => junk_pass b target,
    fun _ => tail_jump_pass b target]

omit [Host] in
/-- The length of the pseudocode of a decompilation. -/
def pseudocodeLen (d : Json) : Option ℕ := ((d.idx "pseudocode").asStr).map fun s =>
  byteLen s.toList

/-- `deob::deobfuscate`. -/
def deobfuscate (b : MockBackend) (idx : AnalysisIndex) (target : U64) (max_passes : ℕ) :
    Result Json := do
  let f ← Outcome.ofOption (Error.worker s!"no function at {hex target}") idx.functions[target]?
  let budget := pass_budget max_passes
  let before ← (b.decompile target).ok?
  let reports ← Outcome.mapList (fun pass => pass ()) ((passes b idx target).take budget)
  let after ← (b.decompile target).ok?
  let improved := match before, after with
    | some x, some y => pseudocodeLen x != pseudocodeLen y
    | _, _ => false
  let triggered := reports.filter fun r => decide (0.6 ≤ r.confidence) && r.failure.isNone
  return .object [("target", .ea target), ("name", f.name), ("mode", "analysis_only"),
    ("passes_run", .nat reports.length), ("pass_budget", .nat budget),
    ("findings", .array (reports.map PassReport.to_json)),
    ("triggered_passes", .strings (triggered.map PassReport.name)),
    ("improved_after_redecompile", improved),
    ("before_after_note",
      "engine is read-only; before/after included for auditability, no IDB mutation occurred"),
    ("safety", "byte patches and IDB metadata repairs are separate explicit mutations (ida_mutation / plan)")]

end Deob

end ReverseMcp
