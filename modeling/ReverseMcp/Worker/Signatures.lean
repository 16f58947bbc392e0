import ReverseMcp.Rust.Floats
import ReverseMcp.Worker.State

/-!
# Function signatures

`rmcp_worker::signatures` with the cross-database mapping of `dispatch.rs`: fingerprints of
functions in five families, their similarity, and the ranking and mapping built on it.

The similarity is written for any type of numbers: the code computes with `F64`, and the laws that a
similarity should have are a matter of exact fractions.
-/

namespace ReverseMcp

open Rust

/-- `signatures::FunctionSig`. -/
structure FunctionSig where
  ea : U64
  name : String
  size : U64
  imports : List String
  strings : List String
  constants : List U64
  callee_count : ℕ
  caller_count : ℕ

/-- `signatures::SigIndex`. -/
structure SigIndex where
  format : U32
  binary_md5 : String
  functions : List FunctionSig

namespace Signatures

/-- `signatures::SIG_FORMAT`. -/
def SIG_FORMAT : U32 := 1

/-! ## Deserialization -/

/-- A list of texts. -/
def stringList : Json → Option (List String)
  | .array l => allSome Json.asStr l
  | _ => none

/-- A list of numbers. -/
def u64List : Json → Option (List U64)
  | .array l => allSome Json.asU64 l
  | _ => none

/-- The fields of a signature, in order. -/
def sigOfFields (ea name size imports strings constants callees callers : Json) :
    Option FunctionSig := do
  let ea ← ea.asU64
  let name ← name.asStr
  let size ← size.asU64
  let imports ← stringList imports
  let strings ← stringList strings
  let constants ← u64List constants
  let callees ← callees.asU64
  let callers ← callers.asU64
  return ⟨ea, name, size, imports, strings, constants, callees.val, callers.val⟩

/-- `FunctionSig` from a value: an object, or the sequence of its fields. -/
def sig_from_value : Json → Option FunctionSig
  | .object fields => do
    let v := Json.object fields
    sigOfFields (← v.get "ea") (← v.get "name") (← v.get "size") (← v.get "imports")
      (← v.get "strings") (← v.get "constants") (← v.get "callee_count") (← v.get "caller_count")
  | .array [ea, name, size, imports, strings, constants, callees, callers] =>
    sigOfFields ea name size imports strings constants callees callers
  | _ => none

/-- The fields of a signature index, in order. -/
def indexOfFields (format binary_md5 functions : Json) : Option SigIndex := do
  let format ← format.asU32
  let binary_md5 ← binary_md5.asStr
  let functions ← functions.asArray
  let functions ← allSome sig_from_value functions
  return ⟨format, binary_md5, functions⟩

/-- `SigIndex` from a value: an object, or the sequence of its fields. -/
def from_value : Json → Option SigIndex
  | .object fields => do
    let v := Json.object fields
    indexOfFields (← v.get "format") (← v.get "binary_md5") (← v.get "functions")
  | .array [format, binary_md5, functions] => indexOfFields format binary_md5 functions
  | _ => none

/-! ## Building and saving -/

/-- A vector sorted and without repetitions. -/
def sortDedup {α : Type} [Ord α] [DecidableEq α] (l : List α) : List α :=
  dedupBy id (sortByKey id l)

/-- `signatures::to_sig`. -/
def to_sig (ea : U64) (f : FunctionFacts) : FunctionSig :=
  ⟨ea, f.name, f.size, sortDedup f.imports, sortDedup f.strings, sortDedup f.constants,
    f.callees.length, f.callers.length⟩

/-- `signatures::build_sig_index`; the functions come in address order already. -/
def build_sig_index (idx : AnalysisIndex) : SigIndex :=
  ⟨SIG_FORMAT, idx.binary_md5,
    sortByKey FunctionSig.ea (idx.functions.toList.map fun f => to_sig f.1 f.2)⟩

/-- `signatures::save_sig_index`: the path written. -/
def save_sig_index (env : Env) (b : MockBackend) : Result String := do
  let info ← b.db_info
  let path ← Outcome.ofOption (Error.worker "no db path for sig index") (info.idx "path").asStr
  let path := path ++ ".rsig.json"
  match env.writeError path with
  | some e => .err (.ipc s!"write sig index: {e}")
  | none => return path

/-! ## Similarity -/

/-- `signatures::FamilyScores`. -/
structure FamilyScores (κ : Type) where
  imports : κ
  strings : κ
  constants : κ
  calls : κ
  size : κ

section Scores

variable {κ : Type} [Add κ] [Mul κ] [Div κ] [NatCast κ] [OfScientific κ]

/-- `FamilyScores::overall`. -/
def FamilyScores.overall (s : FamilyScores κ) : κ :=
  0.30 * s.imports + 0.25 * s.constants + 0.20 * s.strings + 0.15 * s.calls + 0.10 * s.size

/-- `signatures::set_sim`. -/
def set_sim {α : Type} [DecidableEq α] (a b : List α) : κ :=
  if a = [] ∧ b = [] then 1.0
  else if a = [] ∨ b = [] then 0.25
  else (a.dedup ∩ b.dedup).length / (a.dedup ∪ b.dedup).length

/-- `signatures::size_sim`. -/
def size_sim (a b : U64) : κ :=
  if max a.val b.val = 0 then 0.5 else (min a.val b.val : ℕ) / (max a.val b.val : ℕ)

/-- The ratio of two counts, 1 when both are 0. -/
def countSim (a b : ℕ) : κ := if max a b = 0 then 1.0 else (min a b : ℕ) / (max a b : ℕ)

/-- `signatures::call_sim`. -/
def call_sim (a b : FunctionSig) : κ :=
  0.6 * countSim a.callee_count b.callee_count + 0.4 * countSim a.caller_count b.caller_count

/-- `signatures::similarity`. -/
def similarity (a b : FunctionSig) : FamilyScores κ :=
  ⟨set_sim a.imports b.imports, set_sim a.strings b.strings, set_sim a.constants b.constants,
    call_sim a b, size_sim a.size b.size⟩

end Scores

/-- `signatures::round2`. -/
def round2 (v : F64) : F64 := (v * 100.0).round / 100.0

/-- A score as a value. -/
def scoreJson (v : F64) : Json := .number (.float (round2 v).val)

/-- `FamilyScores::to_json`. -/
def FamilyScores.to_json (s : FamilyScores F64) : Json :=
  .object [("imports", scoreJson s.imports), ("constants", scoreJson s.constants),
    ("strings", scoreJson s.strings), ("calls", scoreJson s.calls), ("size", scoreJson s.size)]

/-- `signatures::Thresholds`; an infinite one or NaN decides as one above or below every score. -/
structure Thresholds where
  strict : F64
  relaxed : F64
  strict_family_floor : F64

/-- The default thresholds. -/
def Thresholds.default : Thresholds := ⟨0.85, 0.60, 0.50⟩

/-- The score is a strict match. -/
def isStrict (t : Thresholds) (s : FamilyScores F64) : Bool :=
  t.strict ≤ s.overall ∧ t.strict_family_floor ≤ s.imports ∧
    t.strict_family_floor ≤ s.constants ∧ t.strict_family_floor ≤ s.strings

/-! ## Identification and mapping -/

/-- `signatures::Candidate`. -/
structure Candidate where
  ea : U64
  name : String
  scores : FamilyScores F64
  match_kind : String

/-- `signatures::identify_function`. -/
def identify_function (idx : AnalysisIndex) (reference : SigIndex) (target : U64)
    (t : Thresholds) (max_candidates : ℕ) : Result Json := do
  let f ← Outcome.ofOption (Error.worker s!"no function at {hex target}") idx.functions[target]?
  let probe := to_sig f.ea_start f
  let candidates := reference.functions.map fun rf =>
    let s : FamilyScores F64 := similarity probe rf
    let kind := if isStrict t s then "strict" else if t.relaxed ≤ s.overall then "relaxed"
      else "weak"
    Candidate.mk rf.ea rf.name s kind
  let ranked := candidates.insertionSort fun a b =>
    b.scores.overall < a.scores.overall ∨ (a.scores.overall = b.scores.overall ∧ a.ea ≤ b.ea)
  return .object [("target", .ea target), ("name", probe.name),
    ("reference_binary_md5", reference.binary_md5),
    ("candidates", .array ((ranked.take max_candidates).map fun c =>
      .object [("candidate", .object [("ea", .ea c.ea), ("name", c.name)]),
        ("score", scoreJson c.scores.overall), ("match_kind", c.match_kind),
        ("evidence", c.scores.to_json)])),
    ("thresholds", .object [("strict", .number (.float t.strict.val)),
      ("relaxed", .number (.float t.relaxed.val)),
      ("family_floor", .number (.float t.strict_family_floor.val))]),
    ("note", "strict matches are rename-proposal material; relaxed are hints only")]

/-- The best match of a function, if one reaches the relaxed threshold. -/
def bestMatch (t : Thresholds) (f : FunctionSig) (candidates : List FunctionSig) :
    Option (FunctionSig × FamilyScores F64) :=
  candidates.foldl (fun best g =>
    let s : FamilyScores F64 := similarity f g
    let better := match best with
      | some (_, bs) => decide (bs.overall < s.overall)
      | none => true
    if better && decide (t.relaxed ≤ s.overall) then some (g, s) else best) none

/-- The target already has a name of its own that differs. -/
def nameConflict (f g : FunctionSig) : Bool :=
  let auto_named := startsWith g.name "sub_" ||
    (!startsWith g.name "?" && startsWith g.name "j_")
  !auto_named && g.name != f.name

/-- The row of one transfer proposal. -/
def transferRow (t : Thresholds) (f g : FunctionSig) (s : FamilyScores F64) : Json :=
  let conflict := nameConflict f g
  .object [("from", .object [("ea", .ea f.ea), ("name", f.name)]),
    ("to", .object [("ea", .ea g.ea), ("name", g.name)]), ("score", scoreJson s.overall),
    ("match_kind", if isStrict t s then "strict" else "relaxed"), ("evidence", s.to_json),
    ("proposal", .object [("rename_to", f.name), ("conflict", conflict),
      ("note", if conflict then
        "target has a meaningful name; transfer requires explicit approval"
      else "safe to apply (target is auto-named)")])]

/-- What `map_functions` has collected. -/
structure Transfers where
  rows : List Json
  conflicts : ℕ
  truncated : Bool

/-- The loop of `map_functions`. -/
def transfersFrom (t : Thresholds) (max_transfers : ℕ) (candidates : List FunctionSig) :
    List FunctionSig → Transfers → Transfers
  | [], r => r
  | f :: fs, r =>
    if f.size.val < 16 ∧ f.imports = [] ∧ f.constants = [] then
      transfersFrom t max_transfers candidates fs r
    else
      match bestMatch t f candidates with
      | none => transfersFrom t max_transfers candidates fs r
      | some (g, s) =>
        let r := { r with
          rows := r.rows ++ [transferRow t f g s]
          conflicts := if nameConflict f g then r.conflicts + 1 else r.conflicts }
        if max_transfers ≤ r.rows.length then { r with truncated := true }
        else transfersFrom t max_transfers candidates fs r

/-- `signatures::map_functions`. -/
def map_functions (source goal : AnalysisIndex) (t : Thresholds) (max_transfers : ℕ) : Json :=
  let sigs (idx : AnalysisIndex) := idx.functions.toList.map fun f => to_sig f.1 f.2
  let r := transfersFrom t max_transfers (sigs goal) (sigs source) ⟨[], 0, false⟩
  let score (v : Json) : ℚ := ((v.idx "score").asF64).getD 0
  .object [("from_binary_md5", source.binary_md5), ("to_binary_md5", goal.binary_md5),
    ("transfers", .array (r.rows.insertionSort fun a b => score b ≤ score a)),
    ("conflicts", .nat r.conflicts), ("truncated", r.truncated),
    ("note", "PROPOSALS ONLY: apply via explicit rename mutations with expected_revision; nothing is applied here")]

variable [Host]

/-- The index-shaped view of a signature index, the `mk_idx` of `sig_map_from_sigs`. -/
def mk_idx (sig : SigIndex) : Result AnalysisIndex := do
  let functions ← Outcome.foldList (fun (m : AddrMap FunctionFacts) (f : FunctionSig) => do
    let ea_end ← addU64 f.ea f.size
    return m.insert f.ea
      { ea_start := f.ea, ea_end, name := f.name, size := f.size, imports := f.imports
        strings := f.strings, constants := f.constants }) ∅ sig.functions
  return ⟨1, sig.binary_md5, 0, functions, []⟩

/-- `dispatch::sig_map_from_sigs`. -/
def sig_map_from_sigs (source goal : SigIndex) (max : ℕ) : Result Json := do
  let source_idx ← mk_idx source
  let goal_idx ← mk_idx goal
  return map_functions source_idx goal_idx .default max

end Signatures

end ReverseMcp
