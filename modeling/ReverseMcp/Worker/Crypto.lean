import ReverseMcp.Worker.Deep
import ReverseMcp.Worker.Rules

/-!
# Binary intelligence

`rmcp_worker::crypto`: the scan of the segments for known constants, the resolver of API
hashes, and the recovery of strings from immediate stores.
-/

namespace ReverseMcp

open Rust

namespace Crypto

open Deep (items textOf)

/-- A constant rule flattened with its provenance. -/
structure PackedRule where
  label : String
  pack_name : String
  pack_sha : String
  rule_id : String
  pattern : List U8
  table_size : ℕ
  rarity : ℚ

/-- `crypto::ConstHit`. -/
structure ConstHit where
  ea : U64
  rule : PackedRule

variable [Host]

/-- The rules that a scan runs with. -/
def packedRules : Option RuleSet → List PackedRule
  | none => CONST_PACKS.map fun p =>
    ⟨p.name, "builtin", "builtin", builtinId p.name, p.bytes, p.table_size, p.rarity⟩
  | some set => (set.packs.filter RulePack.enabled).flatMap fun pack =>
    pack.constants.map fun r =>
      ⟨r.label, pack.name, pack.sha256, r.id, r.bytes, r.table_size, r.rarity⟩

/-! ## Scanning -/

/-- The window loop of one rule from offset `i` on; the flag says that `limit` was reached. -/
def scanWindows (base : U64) (rule : PackedRule) (limit : ℕ) :
    ℕ → List U8 → List ConstHit → Result (List ConstHit × Bool)
  | _, [], hits => .ok (hits, false)
  | i, b :: bs, hits =>
    if rule.pattern.isPrefixOf (b :: bs) then do
      let ea ← addU64 base (asU64 i)
      let hits := hits ++ [⟨ea, rule⟩]
      if limit ≤ hits.length then return (hits, true)
      else scanWindows base rule limit (i + 1) bs hits
    else scanWindows base rule limit (i + 1) bs hits

/-- The rule loop over the bytes of one chunk. -/
def scanRules (base : U64) (limit : ℕ) (bytes : List U8) :
    List PackedRule → List ConstHit → Result (List ConstHit × Bool)
  | [], hits => .ok (hits, false)
  | rule :: rules, hits =>
    if rule.pattern.isEmpty || decide (bytes.length < rule.pattern.length) then
      scanRules base limit bytes rules hits
    else do
      let (hits, truncated) ← scanWindows base rule limit 0 bytes hits
      if truncated then return (hits, true)
      else scanRules base limit bytes rules hits

omit [Host] in
/-- `crypto::decode_hex`. -/
def decode_hex (s : String) : Result (Option (List U8)) := Rules.decodeEven (trimChars s.toList)

/-- The chunk loop of one segment; a chunk that cannot be read ends the segment. -/
def scanChunks (b : MockBackend) (rules : List PackedRule) (limit : ℕ) :
    List (U64 × ℕ) → List ConstHit → Result (List ConstHit × Bool)
  | [], hits => .ok (hits, false)
  | (base, want) :: rest, hits => do
    match ← (b.get_bytes base want).ok? with
    | none => return (hits, false)
    | some v =>
      match (v.idx "hex").asStr with
      | none => return (hits, false)
      | some text =>
        match ← decode_hex text with
        | none | some [] => return (hits, false)
        | some bytes =>
          let (hits, truncated) ← scanRules base limit bytes rules hits
          if truncated then return (hits, true)
          else scanChunks b rules limit rest hits

omit [Host] in
/-- The bound on one read. -/
def CHUNK : ℕ := 1024 * 1024

omit [Host] in
/-- The chunks of a segment: the addresses that `base` runs through, with the bytes wanted. -/
def chunks (seg : SegmentInfo) : List (U64 × ℕ) :=
  let size := seg.stop.val - seg.start.val
  (List.range ((size + CHUNK - 1) / CHUNK)).map fun k =>
    (asU64 (seg.start.val + CHUNK * k), min CHUNK (size - CHUNK * k))

omit [Host] in
/-- The segments that are not scanned. -/
def skipSegment (seg : SegmentInfo) : Bool :=
  let size := seg.stop.val - seg.start.val
  size = 0 || decide (64 * 1024 * 1024 < size) ||
    ('x' ∈ seg.perms.toList && 'w' ∉ seg.perms.toList && 'r' ∉ seg.perms.toList)

/-- The segment loop. -/
def scanSegments (b : MockBackend) (rules : List PackedRule) (limit : ℕ) :
    List SegmentInfo → List ConstHit → Result (List ConstHit × Bool)
  | [], hits => .ok (hits, false)
  | seg :: segs, hits =>
    if skipSegment seg then scanSegments b rules limit segs hits
    else do
      let (hits, truncated) ← scanChunks b rules limit (chunks seg) hits
      if truncated then return (hits, true)
      else scanSegments b rules limit segs hits

omit [Host] in
/-- The row of one hit, with the function that contains it and its callers. -/
def findingRow (idx : AnalysisIndex) (h : ConstHit) : Json :=
  let funcs : List (U64 × FunctionFacts) := match idx.lastUpTo h.ea with
    | some (start, f) => if h.ea ≤ f.ea_end then [(start, f)] else []
    | none => []
  let callers : AddrSet := (funcs.flatMap fun f => f.2.callers).foldl (·.insert ·) ∅
  .object [("kind", "crypto_constant"), ("rule", h.rule.rule_id), ("label", h.rule.label),
    ("ea", .ea h.ea), ("table_size", .nat h.rule.table_size),
    ("confidence", fixed2 h.rule.rarity),
    ("containing_function", .array (funcs.map fun f => .ea f.1)),
    ("callers", .array (callers.toList.map Json.ea)), ("pack", h.rule.pack_name),
    ("pack_sha256", h.rule.pack_sha)]

/-- `crypto::crypto_scan`, for bounds with `max_hits * 4 < 2 ^ 64`: `usize` multiplies there, and the
dispatcher passes 500 at most. -/
def crypto_scan (b : MockBackend) (idx : AnalysisIndex) (max_hits : ℕ)
    (rules : Option RuleSet) : Result Json := do
  let segs ← b.segments
  let (hits, truncated) ← scanSegments b (packedRules rules) (max_hits * 4) segs []
  let ranked := hits.insertionSort fun a b =>
    b.rule.rarity < a.rule.rarity ∨ (a.rule.rarity = b.rule.rarity ∧ a.ea ≤ b.ea)
  return .object [("kind", "crypto_scan"),
    ("findings", .array ((ranked.take max_hits).map (findingRow idx))),
    ("truncated", truncated), ("packs", .nat CONST_PACKS.length),
    ("note", "ranked by confidence; callers come from the analysis index")]

/-! ## API hashes -/

/-- Corpus entry: the algorithm, the API name, and whether the wide name was hashed. -/
structure CorpusHit where
  algo : String
  name : String
  wide : Bool

omit [Host] in
/-- `str::encode_utf16` of one character, as little-endian bytes. -/
def utf16le (c : Char) : List U8 :=
  let unit (n : ℕ) : List U8 := [Fin.ofNat 256 (n % 256), Fin.ofNat 256 (n / 256)]
  let n := c.toNat
  if n < 0x10000 then unit n
  else unit (0xd800 + (n - 0x10000) / 0x400) ++ unit (0xdc00 + (n - 0x10000) % 0x400)

omit [Host] in
/-- The bytes of a name that an algorithm hashes. -/
def normalized (algo : HashAlgo) (name : String) : List U8 :=
  if algo.wide then name.toList.flatMap utf16le ++ [0, 0] else bytes name ++ [0]

omit [Host] in
/-- `crypto::build_corpus`. -/
def build_corpus (b : MockBackend) : Result (Std.ExtTreeMap ℕ (List CorpusHit)) := do
  let imports ← b.imports none 0 20000
  let names := (items imports "modules").flatMap fun m =>
    (items m "entries").filterMap fun e => (e.idx "name").asStr
  return (names.flatMap fun name => ALGOS.map fun algo => (algo, name)).foldl (fun corpus p =>
    let h := (p.1.compute (normalized p.1 p.2)).toNat
    corpus.insert h (corpus[h]?.getD [] ++ [⟨p.1.name, p.2, p.1.wide⟩])) ∅

omit [Host] in
/-- The constant loop over one function: at most four rows a constant, until eight. -/
def verifiedRows (corpus : Std.ExtTreeMap ℕ (List CorpusHit)) :
    List U64 → List Json → List Json
  | [], verified => verified
  | c :: cs, verified =>
    let key := c.val % 2 ^ 32
    let verified := verified ++ (((corpus[key]?).getD []).take 4).map fun h =>
      Json.object [("constant", "0x" ++ hexPadded 8 key), ("algorithm", h.algo),
        ("api", h.name), ("wide", h.wide)]
    if 8 ≤ verified.length then verified else verifiedRows corpus cs verified

omit [Host] in
/-- The confidence that a number of verified constants gives. -/
def resolverConfidence : ℕ → ℚ
  | 1 => 45 / 100
  | 2 => 75 / 100
  | 3 => 88 / 100
  | _ => 95 / 100

omit [Host] in
/-- The function loop of `resolve_api_hashes`; each finding is kept with its confidence, which
the source reads back from the row. -/
def resolverRows (corpus : Std.ExtTreeMap ℕ (List CorpusHit)) (max_findings : ℕ) :
    List (U64 × FunctionFacts) → List (ℚ × Json) → List (ℚ × Json) × Bool
  | [], findings => (findings, false)
  | (ea, f) :: fs, findings =>
    if 0x800 < f.ea_end.val - ea.val ∨ f.constants.length < 2 then
      resolverRows corpus max_findings fs findings
    else
      let verified := verifiedRows corpus f.constants []
      if verified.isEmpty then resolverRows corpus max_findings fs findings
      else
        let confidence := resolverConfidence verified.length
        let findings := findings ++ [(confidence, .object [("kind", "api_hash_resolver"),
          ("function", .object [("ea", .ea ea), ("name", f.name)]),
          ("confidence", fixed2 confidence), ("verified_hashes", .array verified),
          ("verified_count", .nat verified.length),
          ("callers", .array (f.callers.map Json.ea))])]
        if max_findings ≤ findings.length then (findings, true)
        else resolverRows corpus max_findings fs findings

omit [Host] in
/-- `crypto::resolve_api_hashes`. -/
def resolve_api_hashes (b : MockBackend) (idx : AnalysisIndex) (max_findings : ℕ) :
    Result Json := do
  let corpus ← build_corpus b
  let (findings, truncated) := resolverRows corpus max_findings idx.functions.toList []
  let ranked := findings.insertionSort fun a b => b.1 ≤ a.1
  return .object [("kind", "api_hash_scan"), ("findings", .array (ranked.map Prod.snd)),
    ("truncated", truncated), ("algorithms", .strings algo_names),
    ("note", "algorithms verified against the DB's import-name corpus; low-confidence single-hash resolvers are flagged as such")]

/-! ## Strings built from immediates -/

omit [Host] in
/-- `u64::to_le_bytes`. -/
def toLeBytes (v : U64) : List U8 :=
  (List.range 8).map fun i => Fin.ofNat 256 (v.val / 256 ^ i)

omit [Host] in
/-- The immediate stream of a ctree: each byte with the address it is stored at. -/
def immediates (rows : List Json) : List (U64 × U8) :=
  (rows.filter fun row => (row.idx "is_expr").asBool = some true ∧
    (row.idx "op").asU64 = some 68).flatMap fun row =>
      (toLeBytes (((row.idx "c").asU64).getD 0)).map fun b => (((row.idx "ea").asU64).getD 0, b)

omit [Host] in
/-- The row of one printable run. -/
def runRow (run : List (U64 × U8)) : Json :=
  .object [("value", String.ofList (run.map fun p => Char.ofNat p.2.val)),
    ("technique", "stack_or_array_immediates"), ("sites", .array (run.map fun p => .ea p.1)),
    ("confidence", if 6 ≤ run.length then "0.8" else "0.6")]

omit [Host] in
/-- The run loop: printable runs of at least four bytes, until `max_strings`. -/
def printableRuns (max_strings : ℕ) :
    List (U64 × U8) → List (U64 × U8) → List Json → List Json
  | [], run, strings =>
    if 4 ≤ run.length ∧ strings.length < max_strings then strings ++ [runRow run] else strings
  | (ea, b) :: rest, run, strings =>
    if 0x20 ≤ b.val ∧ b.val < 0x7f then printableRuns max_strings rest (run ++ [(ea, b)]) strings
    else if 4 ≤ run.length then
      let strings := strings ++ [runRow run]
      if max_strings ≤ strings.length then strings
      else printableRuns max_strings rest [] strings
    else printableRuns max_strings rest [] strings

/-- `crypto::recover_strings`. -/
def recover_strings (b : MockBackend) (idx : AnalysisIndex) (target : U64) (max_strings : ℕ) :
    Result Json := do
  let f ← Outcome.ofOption (Error.worker s!"no function at {hex target}") idx.functions[target]?
  let hr ← b.hr_cfunc target true false 8000
  match (hr.idx "ctree").asArray with
  | none => return .object [("target", .ea target), ("strings", .array []),
      ("note", "no ctree available")]
  | some rows =>
    return .object [("target", .ea target), ("name", f.name),
      ("strings", .array (printableRuns max_strings (immediates rows) [] [])),
      ("callers", .array (f.callers.map Json.ea)),
      ("note", "recovered from immediate-store analysis; the IDB is not patched")]

end Crypto

end ReverseMcp
