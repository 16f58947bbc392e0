import ReverseMcp.Core.AnalysisIndex

/-!
# The mock backend

`rmcp_ida::MockBackend`: a deterministic in-memory database shaped like the C fixtures.  Every
method of the `IdaBackend` interface is here, with the data it returns.  A method that takes
`&mut self` returns the new backend; all of them fail before they change anything, so on an
error there is no new backend to report.
-/

namespace ReverseMcp

open Rust

instance transOrdComment : Std.TransOrd (U64 × Bool) := inferInstance

instance lawfulEqOrdComment : Std.LawfulEqOrd (U64 × Bool) := inferInstance

/-- `BTreeMap<(u64, bool), String>`. -/
abbrev CommentMap : Type := Std.ExtTreeMap (U64 × Bool) String

/-- The names, comments and bytes of a database. -/
abbrev Content : Type := AddrMap String × CommentMap × AddrMap (List U8)

instance : DecidableEq Content := fun a b => inferInstanceAs (Decidable (a = b))

/-- Full copy of the mutable database state for rollback. -/
structure SnapshotState where
  revision : U64
  names : AddrMap String
  comments : CommentMap
  bytes : AddrMap (List U8)
deriving DecidableEq

/-- The mock database. -/
structure MockBackend where
  open_path : Option String
  revision : U64
  names : AddrMap String
  comments : CommentMap
  bytes : AddrMap (List U8)
  decompile_off : Bool
  extra_xrefs : List XrefInfo
  /-- Snapshot stack, the newest snapshot first. -/
  snapshots : List SnapshotState
deriving DecidableEq

namespace MockBackend

/-- `MockBackend::new`. -/
def new : MockBackend where
  open_path := none
  revision := 0
  names := Std.ExtTreeMap.ofList ([(0x401000, "main"), (0x401100, "helper"),
    (0x401200, "decrypt_packet"), (0x401300, "dispatch"), (0x401400, "call_via_ptr")] :
      List (U64 × String))
  comments := ∅
  bytes := Std.ExtTreeMap.ofList ([(0x401000, [0x55, 0x48, 0x89, 0xe5, 0xc3]),
    (0x401100, [0x55, 0xc3])] : List (U64 × List U8))
  decompile_off := false
  extra_xrefs := []
  snapshots := []

/-- The content that a revision stands for. -/
def content (b : MockBackend) : Content := (b.names, b.comments, b.bytes)

/-- `MockBackend::require_open`. -/
def require_open (b : MockBackend) : Result Unit :=
  if b.open_path.isSome then .ok () else fail "no db open"

variable [Host]

/-- `MockBackend::bump`. -/
def bump (b : MockBackend) : Result (U64 × MockBackend) := do
  let revision ← addU64 b.revision 1
  return (revision, { b with revision })

/-- The tail of every mutation: bump the revision and report the outcome. -/
def commit (b : MockBackend) (detail : Json) : Result (MutationOutcome × MockBackend) := do
  let (revision_after, b) ← b.bump
  return (⟨true, revision_after, detail⟩, b)

/-- `MockBackend::functions_vec`. -/
def functions_vec (b : MockBackend) : Result (List FunctionInfo) :=
  Outcome.mapList (fun (e : U64 × String) => do
    let ea_end ← addU64 e.1 0x40
    return ⟨e.1, ea_end, e.2, 0x40⟩) b.names.toList

/-! ## Opening and closing -/

/-- `IdaBackend::open`. -/
def openDb (b : MockBackend) (path : String) : Result (Json × MockBackend) :=
  if b.open_path.isSome then fail "a db is already open"
  else .ok (.object [("path", path), ("arch", "x86_64"), ("bits", .nat 64)],
    { b with open_path := some path })

/-- `IdaBackend::close`. -/
def close (b : MockBackend) : Result MockBackend := .ok { b with open_path := none }

/-- `IdaBackend::save`: nothing to do on an open database. -/
def save (b : MockBackend) : Result Unit := b.require_open

/-- `IdaBackend::db_info`. -/
def db_info (b : MockBackend) : Result Json := do
  b.require_open
  return .object [("path", .opt (b.open_path.map Json.string)), ("arch", "x86_64"),
    ("bits", .nat 64), ("function_count", .nat b.names.size), ("revision", .u64 b.revision)]

/-- `IdaBackend::capabilities`, serialized. -/
def capabilities (b : MockBackend) : Json :=
  let hexrays : Json := .bool (!b.decompile_off)
  .object [("decompile", hexrays), ("types", true), ("imports_exports", true),
    ("patch_bytes", true), ("rename", true), ("comments", true), ("bookmarks", true),
    ("plugins", true), ("ctree", hexrays), ("lvars", hexrays), ("microcode", hexrays),
    ("switches", true), ("fixups", true), ("tails", true), ("sp_delta", true),
    ("file_map", true)]

/-! ## Reading -/

/-- `IdaBackend::functions`. -/
def functions (b : MockBackend) (offset limit : ℕ) : Result (List FunctionInfo) := do
  b.require_open
  let all ← b.functions_vec
  return (all.drop offset).take limit

/-- `IdaBackend::function_at`. -/
def function_at (b : MockBackend) (ea : U64) : Result FunctionInfo := do
  b.require_open
  let all ← b.functions_vec
  Outcome.ofOption (.worker ("no function containing " ++ hex ea))
    (all.find? fun f => f.ea_start ≤ ea && ea < f.ea_end)

/-- `IdaBackend::segments`. -/
def segments (b : MockBackend) : Result (List SegmentInfo) := do
  b.require_open
  return [⟨".text", 0x401000, 0x402000, "r-x"⟩, ⟨".data", 0x402000, 0x403000, "rw-"⟩]

/-- `IdaBackend::strings`. -/
def strings (b : MockBackend) (offset limit : ℕ) : Result (List StringInfo) := do
  b.require_open
  let all : List StringInfo :=
    [⟨0x402010, "usage: %s <file>", 16⟩, ⟨0x402030, "decrypt: bad key", 16⟩]
  return (all.drop offset).take limit

/-- `IdaBackend::xrefs_to`. -/
def xrefs_to (b : MockBackend) (ea : U64) : Result (List XrefInfo) := do
  b.require_open
  return b.extra_xrefs.filter (fun x => x.dst == ea)
    ++ (if ea = 0x401100 then [⟨0x401020, ea, "call"⟩] else [])
    ++ (if ea = 0x401200 then [⟨0x401030, ea, "call"⟩] else [])

/-- `IdaBackend::xrefs_from`. -/
def xrefs_from (b : MockBackend) (ea : U64) : Result (List XrefInfo) := do
  b.require_open
  return if ea = 0x401000 then [⟨ea, 0x401100, "call"⟩, ⟨ea, 0x401200, "call"⟩] else []

/-- The instruction the mock shows at every address. -/
def insnAt (ea : U64) : InsnInfo := ⟨ea, "mov", "eax, ebx", "mov eax, ebx ; " ++ hex ea⟩

/-- The loop of `disassemble`, with room for `n` more instructions. -/
def disassembleFrom (stop : U64) : ℕ → U64 → Result (List InsnInfo)
  | 0, _ => .ok []
  | n + 1, ea =>
    if ea < stop then do
      let next ← addU64 ea 4
      let rest ← disassembleFrom stop n next
      return insnAt ea :: rest
    else .ok []

/-- `IdaBackend::disassemble`.  The default end is computed even when an end is given. -/
def disassemble (b : MockBackend) (ea_start : U64) (ea_end : Option U64) (max_insns : ℕ) :
    Result (List InsnInfo) := do
  b.require_open
  let default_end ← addU64 ea_start 0x10
  disassembleFrom (ea_end.getD default_end) max_insns ea_start

/-- The error of a Hex-Rays method without the decompiler. -/
def noHexrays : Error :=
  .capabilityUnavailable "decompile" "hexrays not available in this backend"

/-- `IdaBackend::decompile`. -/
def decompile (b : MockBackend) (ea : U64) : Result Json := do
  Outcome.errIf b.decompile_off noHexrays
  b.require_open
  let f ← b.function_at ea
  return .object [("function", f.name), ("ea", .u64 f.ea_start),
    ("pseudocode", "// " ++ hex f.ea_start ++ "\nint " ++ f.name ++
      "(int a, int b) \x7b\n    return a + b;\n\x7d")]

/-- A graph node. -/
def node (f : FunctionInfo) : Json := .object [("ea", .u64 f.ea_start), ("name", f.name)]

/-- `IdaBackend::graph`. -/
def graph (b : MockBackend) (ea : U64) (params : GraphParams) : Result Json := do
  b.require_open
  let f ← b.function_at ea
  let callees ← (if 1 ≤ params.depth.val then do
      let xs ← b.xrefs_from f.ea_start
      let found ← Outcome.mapList (fun (x : XrefInfo) => (b.function_at x.dst).ok?) xs
      return found.filterMap id
    else .ok [])
  return .object [("root", .u64 f.ea_start), ("nodes", .array (node f :: callees.map node)),
    ("edges", .array (callees.map fun c =>
      .object [("from", .u64 f.ea_start), ("to", .u64 c.ea_start)]))]

/-- `IdaBackend::search_text`: at least one hit is reported when there is any. -/
def search_text (b : MockBackend) (needle : String) (limit : ℕ) : Result (List Json) := do
  b.require_open
  let all ← b.strings 0 (2 ^ 64 - 1)
  return ((all.filter fun s => Rust.contains s.value needle).map fun s =>
    .object [("ea", .u64 s.ea), ("text", s.value)]).take (max 1 limit)

/-- The loop of `search_immediate`. -/
def searchKeys (value : U64) (limit : ℕ) : List Json → List U64 → List Json
  | out, [] => out
  | out, ea :: rest =>
    let out := if ea = value then
      out ++ [.object [("ea", .u64 ea), ("context", "function start")]] else out
    if limit ≤ out.length then out else searchKeys value limit out rest

/-- `IdaBackend::search_immediate`. -/
def search_immediate (b : MockBackend) (value : U64) (limit : ℕ) : Result (List Json) := do
  b.require_open
  return searchKeys value limit [] b.names.keys

/-- `IdaBackend::get_bytes`. -/
def get_bytes (b : MockBackend) (ea : U64) (size : ℕ) : Result Json := do
  b.require_open
  let bs := (b.bytes[ea]?.getD []).take size
  return .object [("ea", .u64 ea), ("size", .nat bs.length),
    ("hex", String.join (bs.map fun x => hexPadded 2 x.val))]

/-- `IdaBackend::get_comment`. -/
def get_comment (b : MockBackend) (ea : U64) (repeatable : Bool) : Result Json := do
  b.require_open
  return .object [("ea", .u64 ea), ("repeatable", repeatable),
    ("comment", b.comments[(ea, repeatable)]?.getD "")]

/-- `IdaBackend::types`. -/
def types (b : MockBackend) (name : Option String) : Result Json := do
  b.require_open
  let all : List Json := [
    .object [("name", "packet_header"),
      ("decl", "struct packet_header \x7b uint32_t magic; uint16_t len; \x7d")],
    .object [("name", "status_t"), ("decl", "enum status_t \x7b OK = 0, ERR = 1 \x7d")]]
  match name with
  | some n =>
    Outcome.ofOption (.worker s!"type '{n}' not found")
      (all.find? fun t => t.idx "name" == .string n)
  | none => return .array all

/-- `IdaBackend::db_metadata`. -/
def db_metadata (b : MockBackend) : Result Json := do
  b.require_open
  return .object [("md5", "d41d8cd98f00b204e9800998ecf8427e"),
    ("sha256", "e3b0c44298fc1c149afbf4c8996fb92427ae41e4649b934ca495991b7852b855"),
    ("imagebase", .nat 0x400000), ("entry_count", .nat 1),
    ("entries", .array [.object [("ordinal", .nat 0), ("ea", .nat 0x401000),
      ("name", "main")]]),
    ("tls_callbacks", .null), ("tls_callbacks_supported", false),
    ("exception_handlers_supported", false)]

/-- `IdaBackend::imports`. -/
def imports (b : MockBackend) (module : Option ℕ) (offset limit : ℕ) : Result Json := do
  b.require_open
  let all : List Json := [
    .object [("ea", .nat 0x403000), ("name", "CreateFileA"), ("ordinal", .nat 0)],
    .object [("ea", .nat 0x403004), ("name", "ReadFile"), ("ordinal", .nat 1)]]
  let modules : List Json := [.object [("index", .nat 0), ("name", "KERNEL32.dll"),
    ("entries", .array ((all.drop offset).take limit))]]
  let shown := match module with
    | some i => if modules.length ≤ i then [] else modules
    | none => modules
  return .object [("modules", .array shown), ("module_count", .nat 1)]

/-- `IdaBackend::fixups`. -/
def fixups (b : MockBackend) (offset limit : ℕ) : Result Json := do
  b.require_open
  let row (ea off : ℕ) : Json := .object [("ea", .nat ea), ("kind", .nat 1), ("flags", .nat 0),
    ("base", .nat 0), ("sel", .nat 0), ("off", .nat off), ("displacement", .nat 0)]
  let all := [row 0x402000 0x403000, row 0x402008 0x403004]
  return .object [("total", .nat all.length),
    ("fixups", .array ((all.drop offset).take limit))]

/-- `IdaBackend::file_map`. -/
def file_map (b : MockBackend) (value : U64) (to_ea : Bool) : Result Json := do
  b.require_open
  if to_ea then
    failIf (value.val < 0x400) s!"file offset {hex value} does not map to an address"
    let ea ← addU64 (asU64 (value.val - 0x400)) 0x400000
    return .object [("file_offset", .u64 value), ("ea", .u64 ea)]
  else
    failIf (value.val < 0x400000) s!"address {hex value} does not map into the input file"
    let off ← addU64 (asU64 (value.val - 0x400000)) 0x400
    return .object [("ea", .u64 value), ("file_offset", .u64 off)]

/-- `IdaBackend::func_tails`. -/
def func_tails (b : MockBackend) (ea : U64) : Result Json := do
  let f ← b.function_at ea
  return .object [("function", .u64 f.ea_start),
    ("chunks", .array [.object [("start", .u64 f.ea_start), ("end", .u64 f.ea_end),
      ("size", .u64 f.size)]]),
    ("is_tail_target", false)]

/-- `IdaBackend::func_switch_info`. -/
def func_switch_info (b : MockBackend) (ea : U64) : Result Json := do
  b.require_open
  failIf (ea ≠ 0x401310) ("no switch information at " ++ hex ea)
  return .object [("ea", .u64 ea), ("jump_table", .nat 0x402100), ("ncases", .nat 4),
    ("elbase", .nat 0x401300), ("lowcase", .nat 0), ("regnum", .nat 0)]

/-- `IdaBackend::func_sp_delta`. -/
def func_sp_delta (b : MockBackend) (ea : U64) : Result Json := do
  let _ ← b.function_at ea
  return .object [("ea", .u64 ea), ("sp_delta", .number (.negInt 7))]

/-- `IdaBackend::hr_cfunc`. -/
def hr_cfunc (b : MockBackend) (ea : U64) (include_ctree include_lvars : Bool) (limit : ℕ) :
    Result Json := do
  Outcome.errIf b.decompile_off noHexrays
  let f ← b.function_at ea
  let out : Json := .object [("function", f.name), ("ea", .u64 f.ea_start),
    ("return_type", "int")]
  let out ← (if include_ctree then do
      let body ← addU64 f.ea_start 4
      let row (ea : U64) (text : String) : Json := .object [("ea", .u64 ea), ("op", .nat 0),
        ("is_expr", false), ("text", text)]
      let rows := [row f.ea_start "int main(int a, int b)", row body "return a + b"]
      return (out.set "ctree" (.array (rows.take limit))).set "ctree_truncated" false
    else .ok out)
  if include_lvars then do
    let body ← addU64 f.ea_start 4
    let row (defea : U64) (name : String) : Json := .object [("defea", .u64 defea),
      ("name", name), ("type_text", "int"), ("width", .nat 4), ("is_arg", true),
      ("is_result", false)]
    return (out.set "lvars" (.array [row f.ea_start "a", row body "b"])).set
      "lvars_truncated" false
  else return out

/-- `IdaBackend::insn_features`. -/
def insn_features (b : MockBackend) (ea : U64) : Result Json := do
  b.require_open
  return .object [("ea", .u64 ea), ("features", .nat 0x0500), ("mnemonic", "mov")]

/-- `IdaBackend::demangle_name`. -/
def demangle_name (b : MockBackend) (name : String) : Result Json := do
  b.require_open
  let demangled := if startsWith name "?" || startsWith name "_Z" then name ++ "_demangled"
    else name
  return .object [("name", name), ("demangled", demangled), ("changed", demangled != name)]

/-- `IdaBackend::hr_microcode`. -/
def hr_microcode (b : MockBackend) (ea : U64) (req_maturity : ℕ) (max_insns : ℕ) :
    Result Json := do
  b.require_open
  Outcome.errIf b.decompile_off noHexrays
  let f ← b.function_at ea
  let maturity := if req_maturity = 0 then 5 else min req_maturity 7
  let body_ea ← addU64 f.ea_start 4
  let block (serial : ℕ) (start stop : U64) (n_pred n_succ n_insns : ℕ) : Json :=
    .object [("serial", .nat serial), ("type", .nat 0), ("start_ea", .u64 start),
      ("end_ea", .u64 stop), ("n_pred", .nat n_pred), ("n_succ", .nat n_succ),
      ("n_insns", .nat n_insns)]
  let add_ea ← addU64 body_ea 2
  let jz_ea ← addU64 body_ea 4
  let insn (opcode : ℕ) (ea : U64) (l_type r_type d_type d_size n_value : ℕ) (text : String) :
      Json := .object [("block", .nat 1), ("opcode", .nat opcode), ("ea", .u64 ea),
        ("l_type", .nat l_type), ("r_type", .nat r_type), ("d_type", .nat d_type),
        ("d_size", .nat d_size), ("n_value", .nat n_value), ("text", text)]
  let insns := [insn 4 body_ea 2 0 1 4 0x5A "mov #0x5A, eax.4",
    insn 12 add_ea 1 1 1 4 0 "add eax.4, ebx.4", insn 44 jz_ea 1 0 7 0 0 "jz 1"]
  return .object [("ea", .u64 f.ea_start), ("function", f.name), ("maturity", .nat maturity),
    ("qty", .nat 3), ("truncated", decide (max_insns < insns.length)),
    ("blocks", .array [block 0 f.ea_start body_ea 0 1 0, block 1 body_ea f.ea_end 2 2 3,
      block 2 0 0 2 0 0]),
    ("insns", .array (insns.take max_insns))]

/-- `IdaBackend::list_plugins`. -/
def list_plugins (_ : MockBackend) : Result Json :=
  .ok (.array [.object [("name", "sample_audit"), ("source", "reverse-mcp plugins dir")]])

/-- `IdaBackend::run_plugin`. -/
def run_plugin (b : MockBackend) (plugin : String) (args : Option String) : Result Json := do
  b.require_open
  return .object [("plugin", plugin), ("args", .opt (args.map Json.string)), ("ran", true)]

/-- `IdaBackend::analyze_wait`. -/
def analyze_wait (b : MockBackend) : Result Json := do
  b.require_open
  return .object [("analyzed", true), ("functions", .nat b.names.size)]

/-! ## The analysis index and the deep-analysis primitives -/

/-- The fixed call edges of the index. -/
def indexEdges : List (U64 × U64) :=
  [(0x401000, 0x401100), (0x401000, 0x401200), (0x401000, 0x401300), (0x401000, 0x401400)]

/-- One call edge added to the facts of its two ends, where these are indexed. -/
def addEdge (functions : AddrMap FunctionFacts) (edge : U64 × U64) : AddrMap FunctionFacts :=
  let functions := functions.modify edge.1 fun f => { f with callees := f.callees ++ [edge.2] }
  functions.modify edge.2 fun f => { f with callers := f.callers ++ [edge.1] }

/-- The facts of one listed function. -/
def factsOf (f : FunctionInfo) : FunctionFacts :=
  { ea_start := f.ea_start, ea_end := f.ea_end, name := f.name }

/-- `IdaBackend::build_index`. -/
def build_index (b : MockBackend) : Result (AnalysisIndex × String) := do
  let fns ← b.functions_vec
  let functions :=
    fns.foldl (fun (m : AddrMap FunctionFacts) f => m.insert f.ea_start (factsOf f)) ∅
  return (⟨INDEX_SCHEMA_VERSION, "mock-md5", b.revision, indexEdges.foldl addEdge functions, []⟩,
    "mock-md5")

/-- The fixed call graph of `deep_function_info`; 0 marks an indirect site. -/
def knownCallees (ea : U64) : List U64 :=
  if ea = 0x401000 then [0x401100, 0x401200, 0x401300, 0x401400]
  else if ea = 0x401400 then [0]
  else []

/-- `IdaBackend::deep_function_info`. -/
def deep_function_info (b : MockBackend) (ea : U64) (max_calls : ℕ) : Result Json := do
  b.require_open
  let all ← b.functions_vec
  let f ← Outcome.ofOption (Error.worker ("no function at " ++ hex ea))
    (all.find? fun f => f.ea_start == ea)
  let known := knownCallees ea
  let call (c : U64) : Json :=
    if c = 0 then .object [("call_ea", hex ea ++ "+10"), ("direct", false),
      ("target_name", "(*(void (**)(void))(ptr))()"), ("args", .array [])]
    else .object [("call_ea", hex ea), ("direct", true), ("target_ea", hex c),
      ("target_name", b.names[c]?.getD ""), ("args", .array [])]
  return .object [("ea", hex ea), ("name", f.name),
    ("prototype", .object [("known", true), ("ret_type", "int"),
      ("arg_types", .strings ["int", "int"])]),
    ("calls", .array ((known.take max_calls).map call)),
    ("calls_truncated", decide (max_calls < known.length))]

/-- `IdaBackend::type_member_evidence`. -/
def type_member_evidence (b : MockBackend) (ea : U64) (limit : ℕ) : Result Json := do
  b.require_open
  failIf (ea ∉ b.names) ("no function at " ++ hex ea)
  let member (off size : ℕ) (wr : Bool) : Json := .object [("base_text", "obj"),
    ("is_global", true), ("base_ea", hex ea), ("offset", hex (asU64 off)),
    ("access_size", .nat size), ("is_write", wr), ("at_ea", hex ea)]
  let obs := [member 0x0 4 false, member 0x8 8 false, member 0x8 8 true, member 0x10 4 false]
  return .object [("ea", hex ea), ("members", .array (obs.take limit)),
    ("truncated", decide (limit < obs.length))]

/-- `IdaBackend::type_vtable_scan`. -/
def type_vtable_scan (b : MockBackend) (ea : U64) (max_entries : ℕ) : Result Json := do
  b.require_open
  let targets : List U64 := [0x401100, 0x401200, 0x401300]
  let slots := (targets.take max_entries).mapIdx fun i t =>
    Json.object [("slot", .nat i), ("target_ea", hex t), ("is_code", true),
      ("name", b.names[t]?.getD "")]
  return .object [("ea", hex ea), ("slots", .array slots),
    ("truncated", decide (max_entries < targets.length))]

/-- `IdaBackend::type_udt_match`. -/
def type_udt_match (b : MockBackend) (shape : List (U64 × U64)) : Result Json := do
  b.require_open
  let known : List (U64 × U64) := [(0x0, 4), (0x8, 8), (0x10, 4)]
  return .object [("shape", .array (shape.map fun p =>
      .object [("offset", hex p.1), ("size", .u64 p.2)])),
    ("match", if shape = known then "mock_shape_t" else .null)]

/-! ## Mutations -/

/-- `hex::decode` of `mock.rs`. -/
def hexDecode (cs : List Char) : Outcome String (List U8) :=
  if byteLen cs % 2 = 0 then
    match decodePairs cs with
    | .ok bs => .ok bs
    | .err e => .err e.text
    | .panic p => .panic p
  else .err "odd hex length"

/-- `IdaBackend::patch_bytes`. -/
def patch_bytes (b : MockBackend) (ea : U64) (bytes_hex : String) :
    Result (MutationOutcome × MockBackend) := do
  b.require_open
  match hexDecode ((trimChars bytes_hex.toList).filter (· ≠ ' ')) with
  | .ok decoded =>
    commit { b with bytes := b.bytes.insert ea decoded } (.object [("ea", .u64 ea)])
  | .err e => fail s!"bad hex: {e}"
  | .panic p => .panic p

/-- `IdaBackend::set_comment`. -/
def set_comment (b : MockBackend) (ea : U64) (comment : String) (repeatable : Bool) :
    Result (MutationOutcome × MockBackend) := do
  b.require_open
  commit { b with comments := b.comments.insert (ea, repeatable) comment }
    (.object [("ea", .u64 ea)])

/-- `IdaBackend::rename`. -/
def rename (b : MockBackend) (ea : U64) (new_name : String) :
    Result (MutationOutcome × MockBackend) := do
  b.require_open
  match b.names[ea]? with
  | none => fail ("no function at " ++ hex ea)
  | some old =>
    commit { b with names := b.names.insert ea new_name }
      (.object [("ea", .u64 ea), ("old", old), ("new", new_name)])

/-- `IdaBackend::set_type`. -/
def set_type (b : MockBackend) (ea : U64) (type_decl : String) :
    Result (MutationOutcome × MockBackend) := do
  b.require_open
  b.commit (.object [("ea", .u64 ea), ("applied", type_decl)])

/-- `IdaBackend::func_create`. -/
def func_create (b : MockBackend) (start : U64) (stop : Option U64) :
    Result (MutationOutcome × MockBackend) := do
  b.require_open
  commit { b with names := b.names.insertIfNew start ("sub_" ++ hexText start.val) }
    (.object [("start", .u64 start), ("end", .opt (stop.map Json.u64))])

/-- `IdaBackend::func_delete`. -/
def func_delete (b : MockBackend) (ea : U64) : Result (MutationOutcome × MockBackend) := do
  b.require_open
  failIf (ea ∉ b.names) ("no function at " ++ hex ea)
  commit { b with names := b.names.erase ea } (.object [("ea", .u64 ea)])

/-- `IdaBackend::func_resize`. -/
def func_resize (b : MockBackend) (ea : U64) (new_start new_end : Option U64) :
    Result (MutationOutcome × MockBackend) := do
  b.require_open
  failIf (new_start = none ∧ new_end = none) "func_resize requires new_start and/or new_end"
  b.commit (.object [("ea", .u64 ea), ("start", .opt (new_start.map Json.u64)),
    ("end", .opt (new_end.map Json.u64))])

/-- `IdaBackend::hr_lvar_rename`. -/
def hr_lvar_rename (b : MockBackend) (ea var_defea : U64) (new_name : String) :
    Result (MutationOutcome × MockBackend) := do
  Outcome.errIf b.decompile_off noHexrays
  let f ← b.function_at ea
  b.commit (.object [("function", .u64 f.ea_start), ("var_defea", .u64 var_defea),
    ("new", new_name)])

/-- `IdaBackend::deep_apply_prototype`. -/
def deep_apply_prototype (b : MockBackend) (ea : U64) (decl : String) :
    Result (MutationOutcome × MockBackend) := do
  b.require_open
  failIf (ea ∉ b.names) ("no function at " ++ hex ea)
  failIf (trim decl = "") "empty prototype declaration"
  b.commit (.object [("ea", .u64 ea), ("decl", decl)])

/-- `IdaBackend::type_udt_create`. -/
def type_udt_create (b : MockBackend) (name : String) (fields : List String) :
    Result (MutationOutcome × MockBackend) := do
  b.require_open
  failIf (trim name = "" ∨ fields = []) "udt create needs a name and fields"
  b.commit (.object [("name", name), ("fields", .strings fields)])

/-! ## Snapshots -/

/-- The snapshot of the current state. -/
def snapshot (b : MockBackend) : SnapshotState := ⟨b.revision, b.names, b.comments, b.bytes⟩

/-- The backend with its state on the snapshot stack. -/
def pushed (b : MockBackend) : MockBackend := { b with snapshots := b.snapshot :: b.snapshots }

/-- `IdaBackend::snapshot_create`. -/
def snapshot_create (b : MockBackend) : Result (Json × MockBackend) := do
  b.require_open
  let b := b.pushed
  return (.object [("snapshot", .nat b.snapshots.length), ("revision", .u64 b.revision),
    ("rollback", true)], b)

/-- The state that `snapshot_restore` rewinds to before it bumps the revision. -/
def rewind (b : MockBackend) (snap : SnapshotState) (rest : List SnapshotState) : MockBackend :=
  { b with revision := snap.revision, names := snap.names, comments := snap.comments,
           bytes := snap.bytes, snapshots := rest }

/-- `IdaBackend::snapshot_restore`. -/
def snapshot_restore (b : MockBackend) : Result (Json × MockBackend) := do
  b.require_open
  match b.snapshots with
  | snap :: rest => do
    let (revision_after, b) ← (b.rewind snap rest).bump
    return (.object [("restored", true), ("restored_to_revision", .u64 snap.revision),
      ("revision_after", .u64 revision_after)], b)
  | [] => return (.object [("restored", false), ("reason", "no snapshot taken")], b)

end MockBackend

end ReverseMcp
