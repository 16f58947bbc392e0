import ReverseMcp.Worker.State

/-!
# Rule packs

`rmcp_worker::rules`, with the compiled-in tables of `crypto.rs` that the built-in pack is
generated from.  A pack is data: it is parsed fail-closed, rule by rule, and carries a digest
of its file.  Rarities are exact rationals.
-/

namespace ReverseMcp

open Rust

/-! ## Compiled-in content -/

/-- `crypto::ConstPack`. -/
structure ConstPack where
  name : String
  bytes : List U8
  table_size : ℕ
  rarity : ℚ

/-- `crypto::CONST_PACKS`. -/
def CONST_PACKS : List ConstPack := [
  ⟨"AES S-box", [0x63, 0x7c, 0x77, 0x7b, 0xf2, 0x6b, 0x6f, 0xc5, 0x30, 0x01, 0x67, 0x2b, 0xfe,
    0xd7, 0xab, 0x76], 256, 99 / 100⟩,
  ⟨"AES inverse S-box", [0x52, 0x09, 0x6a, 0xd5, 0x30, 0x36, 0xa5, 0x38, 0xbf, 0x40, 0xa3,
    0x9e, 0x81, 0xf3, 0xd7, 0xfb], 256, 99 / 100⟩,
  ⟨"SHA-256 initial hash (H0)", [0x67, 0xe6, 0x09, 0x6a, 0x85, 0xae, 0x67, 0xbb, 0x72, 0xf3,
    0x6e, 0x3c, 0x3a, 0xf5, 0x4f, 0xa5], 32, 97 / 100⟩,
  ⟨"SHA-256 round constants (K)", [0x42, 0x8a, 0x2f, 0x98, 0x71, 0x37, 0x44, 0x91, 0xb5, 0xc0,
    0xfb, 0xcf, 0xe9, 0xb5, 0xdb, 0xa5], 256, 97 / 100⟩,
  ⟨"SHA-1 initial hash (H0)", [0x67, 0x45, 0x23, 0x01, 0xef, 0xcd, 0xab, 0x89, 0x98, 0xba,
    0xdc, 0xfe, 0x10, 0x32, 0x54, 0x76], 20, 95 / 100⟩,
  ⟨"MD5 initial state (A,B,C,D)", [0x01, 0x23, 0x45, 0x67, 0x89, 0xab, 0xcd, 0xef, 0xfe, 0xdc,
    0xba, 0x98, 0x76, 0x54, 0x32, 0x10], 16, 92 / 100⟩,
  ⟨"CRC-32 polynomial table (reflected)", [0x00, 0x00, 0x00, 0x00, 0x96, 0x30, 0x07, 0x77,
    0x2c, 0x61, 0x0e, 0xee, 0xba, 0x51, 0x09, 0x99], 1024, 85 / 100⟩,
  ⟨"Blowfish P-array (pi digits)", [0x24, 0x3f, 0x6a, 0x88, 0x85, 0xa3, 0x08, 0xd3, 0x13, 0x19,
    0x8a, 0x2e, 0x03, 0x70, 0x73, 0x44], 72, 97 / 100⟩,
  ⟨"TEA/XTEA delta", [0xb9, 0x79, 0x37, 0x9e], 4, 8 / 10⟩]

/-- The rule id of a compiled-in pack. -/
def builtinId [Host] (name : String) : String :=
  "builtin." ++ String.ofList ((Host.toLowercase name).toList.map fun c =>
    if c ∈ [' ', '(', ')', '/', ','] then '_' else c)

/-- The lower-case digits of a byte string. -/
def hexBytes (bs : List U8) : String := String.join (bs.map fun b => hexPadded 2 b.val)

/-- `crypto::const_packs_json`. -/
def const_packs_json [Host] : Json :=
  .object [("format", .nat 1), ("name", "builtin"), ("version", "1"),
    ("source", "compiled-in CONST_PACKS (#12)"),
    ("rules", .array (CONST_PACKS.map fun p => .object [("kind", "constant"),
      ("id", builtinId p.name), ("hex", hexBytes p.bytes), ("label", p.name),
      ("table_size", .nat p.table_size), ("rarity", .number (.float p.rarity))]))]

/-- `crypto::HashAlgo`. -/
structure HashAlgo where
  name : String
  compute : List U8 → BitVec 32
  wide : Bool

/-- `ror13_add` and its variants: rotate, then combine with the next byte. -/
def rotateHash (rotate : BitVec 32 → BitVec 32) (combine : BitVec 32 → BitVec 32 → BitVec 32)
    (data : List U8) : BitVec 32 :=
  data.foldl (fun h b => combine (rotate h) (BitVec.ofNat 32 b.val)) 0

/-- `crypto::ror13_add`. -/
def ror13_add : List U8 → BitVec 32 := rotateHash (·.rotateRight 13) (· + ·)

/-- `crypto::ror15_add`. -/
def ror15_add : List U8 → BitVec 32 := rotateHash (·.rotateRight 15) (· + ·)

/-- `crypto::rol7_xor`. -/
def rol7_xor : List U8 → BitVec 32 := rotateHash (·.rotateLeft 7) (· ^^^ ·)

/-- One bit of `crc32`. -/
def crcBit (h : BitVec 32) : BitVec 32 := (h >>> 1) ^^^ (0xEDB88320#32 &&& -(h &&& 1))

/-- `crypto::crc32`. -/
def crc32 (data : List U8) : BitVec 32 :=
  ~~~(data.foldl (fun h b => crcBit^[8] (h ^^^ BitVec.ofNat 32 b.val)) (~~~0#32))

/-- `crypto::ALGOS`. -/
def ALGOS : List HashAlgo := [⟨"ror13-add", ror13_add, false⟩,
  ⟨"ror13-add-wide", ror13_add, true⟩, ⟨"ror15-add", ror15_add, false⟩,
  ⟨"rol7-xor", rol7_xor, false⟩, ⟨"crc32", crc32, false⟩]

/-- `crypto::algo_names`. -/
def algo_names : List String := ALGOS.map HashAlgo.name

/-! ## Rules and packs -/

/-- `rules::ConstantRule`. -/
structure ConstantRule where
  id : String
  bytes : List U8
  label : String
  table_size : ℕ
  rarity : ℚ

/-- `rules::ApiHashRule`. -/
structure ApiHashRule where
  id : String
  algo : String
  seed : U32
  rotate : ℕ
  candidates : List String

/-- `rules::StringRule`. -/
structure StringRule where
  id : String
  literal : String
  encoding : String

/-- `rules::RulePack`. -/
structure RulePack where
  name : String
  version : String
  source : String
  sha256 : String
  enabled : Bool
  constants : List ConstantRule
  api_hashes : List ApiHashRule
  strings : List StringRule

/-- `rules::RuleSet`. -/
structure RuleSet where
  packs : List RulePack

namespace RuleSet

/-- The fingerprint of one pack in the digest of a set. -/
def fingerprint (p : RulePack) : String :=
  s!"{p.sha256}|{p.constants.length}|{p.api_hashes.length}|{p.strings.length}|{p.enabled}"

/-- `RuleSet::set_hash`. -/
def set_hash (set : RuleSet) : String :=
  hexPadded 16 (fnv1a64 ((sortByKey id (set.packs.map fingerprint)).flatMap bytes)).val

end RuleSet

namespace Rules

/-- `rules::PACK_FORMAT`. -/
def PACK_FORMAT : U64 := 1

/-- `rules::MAX_RULES_PER_PACK`. -/
def MAX_RULES_PER_PACK : ℕ := 10000

/-- `rules::MAX_PATTERN_BYTES`. -/
def MAX_PATTERN_BYTES : ℕ := 4096

/-- `rules::MAX_LITERAL_LEN`. -/
def MAX_LITERAL_LEN : ℕ := 1024

/-- `rules::MAX_CANDIDATES_PER_RULE`. -/
def MAX_CANDIDATES_PER_RULE : ℕ := 256

/-- `rules::valid_rule_id`. -/
def valid_rule_id (id : String) : Bool :=
  id ≠ "" && decide (byteLen id.toList ≤ 128) &&
    id.toList.all fun c => c.isAlphanum || c ∈ ['_', '.', ':', '-']

/-- A hexadecimal byte string of even length; `none` for a bad digit. -/
def decodeEven (cs : List Char) : Result (Option (List U8)) :=
  if byteLen cs % 2 = 0 then
    match decodePairs cs with
    | .ok bs => .ok (some bs)
    | .err _ => .ok none
    | .panic p => .panic p
  else .ok none

/-- `rules::decode_hex_str`. -/
def decode_hex_str (s : String) : Result (Option (List U8)) :=
  decodeEven (s.toList.filter fun c => !isWhitespace c)

/-- A text field of a rule, empty when it is no text. -/
def field (rule : Json) (key : String) : String := ((rule.idx key).asStr).getD ""

/-- The text of an error of a pack at a rule. -/
def errorAt (pack_file : String) (line : ℕ) (reason : String) : String :=
  s!"rule pack '{pack_file}' line {line}: {reason}"

/-- A rule of kind `constant`. -/
def parse_constant (pack_file : String) (line : ℕ) (id : String) (rule : Json) :
    Result ConstantRule := do
  let decoded ← decode_hex_str (field rule "hex")
  let bytes ← Outcome.ofOption (.worker (errorAt pack_file line s!"rule '{id}': bad 'hex'")) decoded
  failIf (bytes = [] ∨ MAX_PATTERN_BYTES < bytes.length) (errorAt pack_file line
    s!"rule '{id}': pattern length out of bounds (1..{MAX_PATTERN_BYTES})")
  let rarity := max (1 / 10) (min (((rule.idx "rarity").asF64).getD (9 / 10)) 1)
  return { id, bytes, label := ((rule.idx "label").asStr).getD id
           table_size := (((rule.idx "table_size").asU64).getD 0).val, rarity }

/-- A rule of kind `string`. -/
def parse_string (pack_file : String) (line : ℕ) (id : String) (rule : Json) :
    Result StringRule := do
  let lit ← Outcome.ofOption
    (.worker (errorAt pack_file line s!"rule '{id}': string rules require 'literal'"))
    (rule.idx "literal").asStr
  failIf (lit = "" ∨ MAX_LITERAL_LEN < byteLen lit.toList) (errorAt pack_file line
    s!"rule '{id}': literal length out of bounds (1..{MAX_LITERAL_LEN})")
  failIf (lit.toList.any fun c => isControl c && c ≠ '\t')
    (errorAt pack_file line s!"rule '{id}': control characters in literal")
  return ⟨id, lit, ((rule.idx "encoding").asStr).getD "ascii"⟩

/-- A rule of kind `api_hash`. -/
def parse_api_hash (pack_file : String) (line : ℕ) (id : String) (rule : Json)
    (algos : List String) : Result ApiHashRule := do
  let algo := field rule "algo"
  let registered := String.intercalate ", " algos
  failIf (algo ∉ algos) (errorAt pack_file line
    s!"rule '{id}': unknown algo '{algo}' (registered: {registered})")
  let candidates := (((rule.idx "candidates").asArray).getD []).filterMap Json.asStr
  failIf (candidates = [] ∨ MAX_CANDIDATES_PER_RULE < candidates.length)
    (errorAt pack_file line
      s!"rule '{id}': candidates count out of bounds (1..{MAX_CANDIDATES_PER_RULE})")
  return { id, algo, seed := Fin.ofNat (2 ^ 32) (((rule.idx "seed").asU64).getD 0).val
           rotate := clamp (((rule.idx "rotate").asU64).getD 13).val 1 31, candidates }

/-- The body of the rule loop: the ids seen and the pack so far. -/
def parse_rule (pack_file : String) (algos : List String)
    (acc : Std.ExtTreeSet String × RulePack) (entry : Json × ℕ) :
    Result (Std.ExtTreeSet String × RulePack) := do
  let line := entry.2 + 1
  let rule := entry.1
  let id := field rule "id"
  failIf (valid_rule_id id = false) (errorAt pack_file line s!"bad rule id '{id}'")
  failIf (id ∈ acc.1) (errorAt pack_file line s!"duplicate rule id '{id}'")
  let pack := acc.2
  match field rule "kind" with
  | "constant" =>
    let r ← parse_constant pack_file line id rule
    return (acc.1.insert id, { pack with constants := pack.constants ++ [r] })
  | "string" =>
    let r ← parse_string pack_file line id rule
    return (acc.1.insert id, { pack with strings := pack.strings ++ [r] })
  | "api_hash" =>
    let r ← parse_api_hash pack_file line id rule algos
    return (acc.1.insert id, { pack with api_hashes := pack.api_hashes ++ [r] })
  | other =>
    fail (errorAt pack_file line
      s!"rule '{id}': unknown kind '{other}' (constant|string|api_hash)")

/-- `rules::parse_rules_value`. -/
def parse_rules_value (pack_file : String) (v : Json) (algos : List String) :
    Result RulePack := do
  failIf ((v.idx "format").asU64 ≠ some PACK_FORMAT)
    (errorAt pack_file 0 s!"'format' must be {PACK_FORMAT.val}")
  let name ← Outcome.ofOption (Error.worker s!"rule pack '{pack_file}': missing 'name'")
    ((v.idx "name").asStr.filter fun s => trim s ≠ "")
  let rules ← Outcome.ofOption
    (Error.worker s!"rule pack '{pack_file}': missing 'rules' array") (v.idx "rules").asArray
  failIf (MAX_RULES_PER_PACK < rules.length)
    (errorAt pack_file 0 s!"too many rules (max {MAX_RULES_PER_PACK})")
  let (_, pack) ← Outcome.foldList (parse_rule pack_file algos)
    (∅, { name, version := ((v.idx "version").asStr).getD "0", source := field v "source"
          sha256 := "", enabled := ((v.idx "enabled").asBool).getD true
          constants := [], api_hashes := [], strings := [] }) rules.zipIdx
  return pack

/-- The digest text that stands for a pack's `sha256`. -/
def digest (raw : List U8) : String := hexPadded 16 (fnv1a64 raw).val

/-- One file of the rules directory. -/
def load_file (env : Env) (algos : List String) (f : RuleFile) : Result RulePack := do
  match f.raw with
  | .error e => fail s!"rule pack '{f.file_name}': read failed: {e}"
  | .ok raw =>
    match env.fromSlice raw with
    | .error e => fail s!"rule pack '{f.file_name}': bad JSON: {e}"
    | .ok v =>
      let pack ← parse_rules_value f.file_name v algos
      return { pack with sha256 := digest raw }

/-- `rules::load_dir`. -/
def load_dir (env : Env) (algos : List String) : Result RuleSet := do
  let packs ← Outcome.mapList (load_file env algos) env.rules
  return ⟨sortByKey RulePack.name packs⟩

/-- `rules::builtin_packs`. -/
def builtin_packs [Host] : Result RuleSet := do
  let pack ← parse_rules_value "<builtin>" const_packs_json algo_names
  return ⟨[{ pack with
    name := "builtin", version := "1", source := "compiled-in CONST_PACKS + ALGOS (#12)"
    sha256 := digest (bytes "builtin") }]⟩

/-- `rules::load_effective`. -/
def load_effective [Host] (env : Env) : Result RuleSet := do
  let set ← load_dir env algo_names
  if set.packs.isEmpty then builtin_packs else return set

/-- The answer of `intel.packs`. -/
def packs_json (set : RuleSet) : Json :=
  .object [("packs", .array (set.packs.map fun p => .object [("name", p.name),
      ("version", p.version), ("source", p.source), ("sha256", p.sha256),
      ("enabled", p.enabled),
      ("rules", .object [("constants", .nat p.constants.length),
        ("api_hashes", .nat p.api_hashes.length), ("strings", .nat p.strings.length)])])),
    ("set_hash", set.set_hash),
    ("note",
      "packs load from <exe dir>/rules/*.json (fail-closed); built-in pack covers #12 content")]

end Rules

end ReverseMcp
