import Std.Data.ExtTreeMap
import ReverseMcp.Core.Backend

/-!
# The analysis index

`rmcp_core::analysis_index`: the per-function facts of one database revision, and the
structured evidence queries over them.  The maps are ordered maps with extensional equality,
so two indexes are equal exactly when they hold the same facts.
-/

namespace ReverseMcp

open Rust

instance transOrdU64 : Std.TransOrd U64 := inferInstance

instance lawfulEqOrdU64 : Std.LawfulEqOrd U64 := inferInstance

/-- `BTreeMap<u64, V>`. -/
abbrev AddrMap (V : Type) : Type := Std.ExtTreeMap U64 V

/-- One indexed function and the facts that can be queried. -/
structure FunctionFacts where
  ea_start : U64 := 0
  ea_end : U64 := 0
  name : String := ""
  demangled : String := ""
  size : U64 := 0
  imports : List String := []
  strings : List String := []
  constants : List U64 := []
  indirect_calls : U32 := 0
  callees : List U64 := []
  callers : List U64 := []
  globals : List U64 := []
deriving DecidableEq

/-- A global string with the functions that reference it. -/
structure IndexedString where
  ea : U64
  text : String
  refs : List U64
deriving DecidableEq

/-- The full index of one database. -/
structure AnalysisIndex where
  schema_version : U32
  binary_md5 : String
  /-- Database revision at build time. -/
  revision : U64
  functions : AddrMap FunctionFacts
  strings : List IndexedString
deriving DecidableEq

/-- `INDEX_SCHEMA_VERSION`. -/
def INDEX_SCHEMA_VERSION : U32 := 1

namespace AnalysisIndex

/-- The functions in address order. -/
def values (idx : AnalysisIndex) : List FunctionFacts := idx.functions.toList.map Prod.snd

/-- `AnalysisIndex::summary`. -/
def summary (idx : AnalysisIndex) : Json :=
  .object [("schema_version", .nat idx.schema_version.val), ("binary_md5", idx.binary_md5),
    ("revision", .u64 idx.revision), ("functions", .nat idx.functions.size),
    ("strings", .nat idx.strings.length)]

/-- The name of the function at `ea`, or the automatic name. -/
def function_name (idx : AnalysisIndex) (ea : U64) : String :=
  match idx.functions[ea]? with
  | some f => f.name
  | none => "sub_" ++ hexText ea.val

/-- `idx.functions.range(..=ea).next_back()`. -/
def lastUpTo (idx : AnalysisIndex) (ea : U64) : Option (U64 × FunctionFacts) :=
  (idx.functions.toList.filter fun f => f.1 ≤ ea).getLast?

end AnalysisIndex

/-! ## Predicates -/

/-- Structured predicate over the functions of an index. -/
inductive Predicate where
  | nameContains (needle : String)
  | importNamed (name : String)
  | stringContains (needle : String)
  | hasIndirectCalls (min : U32)
  | constant (v : U64)
  | calleeMatches (inner : Predicate)
  | callerMatches (inner : Predicate)
  | all (inner : List Predicate)
  | any (inner : List Predicate)
  | not (inner : Predicate)
  | reachableFrom (root_ea : U64) (levels : U32)

/-- One frontier of `reachable`: `none` when the target was found, else the next frontier and
the addresses seen. -/
def reachableLevel (idx : AnalysisIndex) (target : U64) :
    List U64 → List U64 → List U64 → Option (List U64 × List U64)
  | [], next, seen => some (next, seen)
  | ea :: rest, next, seen =>
    let callees := match idx.functions[ea]? with
      | some f => f.callees
      | none => []
    if target ∈ callees then none
    else
      let fresh := callees.foldl
        (fun (acc : List U64 × List U64) c =>
          if c ∈ acc.2 then acc else (acc.1 ++ [c], c :: acc.2)) (next, seen)
      reachableLevel idx target rest fresh.1 fresh.2

/-- The level loop of `reachable`. -/
def reachableLoop (idx : AnalysisIndex) (target : U64) :
    ℕ → List U64 → List U64 → Bool
  | 0, _, _ => false
  | n + 1, frontier, seen =>
    match reachableLevel idx target frontier [] seen with
    | none => true
    | some (next, seen) => reachableLoop idx target n next seen

/-- Breadth-first reachability from `root` within `levels` call edges. -/
def reachable (idx : AnalysisIndex) (root : U64) (levels : U32) (target : U64) : Bool :=
  reachableLoop idx target levels.val [root] [root]

namespace Predicate

variable [Host]

mutual

/-- `Predicate::matches`: the evidence, or `none`. -/
def matchOn (idx : AnalysisIndex) : Predicate → FunctionFacts → Option (List String)
  | nameContains needle, f =>
    let needle := Host.toLowercase needle
    if Rust.contains (Host.toLowercase f.name) needle
        || Rust.contains (Host.toLowercase f.demangled) needle then
      some ["name:" ++ f.name]
    else none
  | importNamed name, f =>
    let hits := (f.imports.filter (eqIgnoreAsciiCase · name)).map ("import:" ++ ·)
    if hits.isEmpty then none else some hits
  | stringContains needle, f =>
    let needle := Host.toLowercase needle
    let hits := (f.strings.filter fun s => Rust.contains (Host.toLowercase s) needle).map
      ("string:" ++ ·)
    if hits.isEmpty then none else some hits
  | hasIndirectCalls min, f =>
    if min ≤ f.indirect_calls then some [s!"indirect_calls:{f.indirect_calls.val}"] else none
  | constant v, f => if v ∈ f.constants then some ["constant:" ++ hex v] else none
  | calleeMatches inner, f =>
    f.callees.findSome? fun ea =>
      match idx.functions[ea]? with
      | some callee => (inner.matchOn idx callee).map (("callee:" ++ hex ea) :: ·)
      | none => none
  | callerMatches inner, f =>
    f.callers.findSome? fun ea =>
      match idx.functions[ea]? with
      | some caller => (inner.matchOn idx caller).map (("caller:" ++ hex ea) :: ·)
      | none => none
  | all inner, f => matchesAll idx inner f
  | any inner, f => matchesAny idx inner f
  | not inner, f =>
    match inner.matchOn idx f with
    | none => some ["not:<predicate>"]
    | some _ => none
  | reachableFrom root levels, f =>
    if reachable idx root levels f.ea_start then
      some [s!"reachable_from:{hex root} within {levels.val} levels"]
    else none

/-- Every predicate of a list, with the evidence of all of them. -/
def matchesAll (idx : AnalysisIndex) : List Predicate → FunctionFacts → Option (List String)
  | [], _ => some []
  | p :: ps, f =>
    match p.matchOn idx f with
    | none => none
    | some ev => (matchesAll idx ps f).map (ev ++ ·)

/-- The first predicate of a list that holds. -/
def matchesAny (idx : AnalysisIndex) : List Predicate → FunctionFacts → Option (List String)
  | [], _ => none
  | p :: ps, f =>
    match p.matchOn idx f with
    | some ev => some ev
    | none => matchesAny idx ps f

end

end Predicate

/-- A query: predicates and a result bound. -/
structure EvidenceQuery where
  all : Option (List Predicate)
  limit : U64

/-- One search hit. -/
structure EvidenceHit where
  function : String
  ea_start : U64
  ea_end : U64
  score : ℕ
  matched : List String

/-- Serialized form of a hit. -/
def EvidenceHit.to_value (h : EvidenceHit) : Json :=
  .object [("function", h.function), ("ea_start", .u64 h.ea_start), ("ea_end", .u64 h.ea_end),
    ("score", .nat h.score), ("matched", .strings h.matched)]

/-- `clamp` of a count. -/
def clamp (n lo hi : ℕ) : ℕ := max lo (min n hi)

namespace AnalysisIndex

variable [Host]

/-- The scan of `query`: stops once `limit` hits are collected. -/
def queryScan (idx : AnalysisIndex) (predicates : List Predicate) (limit : ℕ) :
    List EvidenceHit → List FunctionFacts → List EvidenceHit
  | hits, [] => hits
  | hits, f :: fs =>
    let hits := match Predicate.matchesAll idx predicates f with
      | some matched =>
        if matched.isEmpty then hits
        else hits ++ [⟨f.name, f.ea_start, f.ea_end, matched.length, matched⟩]
      | none => hits
    if limit ≤ hits.length then hits else queryScan idx predicates limit hits fs

/-- `AnalysisIndex::query`. -/
def query (idx : AnalysisIndex) (q : EvidenceQuery) : List EvidenceHit :=
  let limit := clamp q.limit.val 1 1000
  let hits := queryScan idx (q.all.getD []) limit [] idx.values
  hits.insertionSort fun a b => b.score ≤ a.score

end AnalysisIndex

/-! ## Deserialization of queries -/

/-- A `u32` field. -/
def Rust.Json.asU32 (v : Json) : Option U32 :=
  match v.asU64 with
  | some n => if h : n.val < 2 ^ 32 then some ⟨n.val, h⟩ else none
  | none => none

namespace Predicate

mutual

/-- `Predicate` from a value: externally tagged, snake case. -/
def from_value : Json → Option Predicate
  | .object [(tag, v)] =>
    match tag with
    | "name_contains" => v.asStr.map nameContains
    | "import" => v.asStr.map importNamed
    | "string_contains" => v.asStr.map stringContains
    | "has_indirect_calls" =>
      if v.isObject then (v.get "min").bind fun m => m.asU32.map hasIndirectCalls else none
    | "constant" => v.asU64.map constant
    | "callee_matches" => (from_value v).map calleeMatches
    | "caller_matches" => (from_value v).map callerMatches
    | "all" =>
      match v with
      | .array items => (from_values items).map all
      | _ => none
    | "any" =>
      match v with
      | .array items => (from_values items).map any
      | _ => none
    | "not" => (from_value v).map not
    | "reachable_from" =>
      (v.get "root_ea").bind fun r => r.asU64.bind fun root =>
        (v.get "levels").bind fun l => l.asU32.map (reachableFrom root)
    | _ => none
  | _ => none

/-- A list of predicates. -/
def from_values : List Json → Option (List Predicate)
  | [] => some []
  | v :: vs => (from_value v).bind fun p => (from_values vs).map (p :: ·)

end

end Predicate

namespace EvidenceQuery

/-- The `all` field of a query: absent or `null` is `None`. -/
def allField : Option Json → Option (Option (List Predicate))
  | none | some .null => some none
  | some (.array items) => (Predicate.from_values items).map some
  | some _ => none

/-- `EvidenceQuery` from a value: an object, or the sequence of its fields. -/
def from_value : Json → Option EvidenceQuery
  | .object fields =>
    (allField ((Json.object fields).get "all")).bind fun all =>
      match (Json.object fields).get "limit" with
      | none => some ⟨all, 20⟩
      | some l => l.asU64.map (EvidenceQuery.mk all)
  | .array [a] => (allField (some a)).map fun all => ⟨all, 20⟩
  | .array [a, l] => (allField (some a)).bind fun all => l.asU64.map (EvidenceQuery.mk all)
  | _ => none

end EvidenceQuery

end ReverseMcp
