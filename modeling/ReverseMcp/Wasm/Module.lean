import ReverseMcp.Wasm.Operator

/-!
# The module model

`rmcp_wasm::module`: the payloads that `wasmparser::Parser` gives for a file, folded into a
`ModuleModel`.  The payloads are what the parser has read, with an error where it stopped; a
section is the range of its bytes and what its reader gives, item by item.
-/

namespace ReverseMcp.Wasm

open Rust

/-- `SectionInfo`. -/
structure SectionInfo where
  id : ℕ
  name : String
  offset : U64
  size : U64
deriving DecidableEq

/-- `FuncType`; the types are the texts of the parser. -/
structure FuncType where
  params : List String
  results : List String
deriving DecidableEq

/-- `ImportEntry`. -/
structure ImportEntry where
  module : String
  name : String
  kind : String
  type_index : Option U32
  wasi : Bool
deriving DecidableEq

/-- `ExportEntry`. -/
structure ExportEntry where
  name : String
  kind : String
  index : U32
deriving DecidableEq

/-- `FunctionEntry`. -/
structure FunctionEntry where
  index : U32
  type_index : U32
  code_offset : U64
  code_size : U64
  local_types : List String
  name : Option String
deriving DecidableEq

/-- `GlobalEntry`. -/
structure GlobalEntry where
  index : U32
  ty : String
  mutable : Bool
  init : Option String
deriving DecidableEq

/-- `TableEntry`. -/
structure TableEntry where
  index : U32
  elem_ty : String
  initial : U64
  maximum : Option U64
deriving DecidableEq

/-- `ElementSegment`. -/
structure ElementSegment where
  index : U32
  table_index : U32
  offset : Option U64
  func_indices : List U32
deriving DecidableEq

/-- `MemoryEntry`. -/
structure MemoryEntry where
  index : U32
  initial_pages : U64
  maximum_pages : Option U64
  shared : Bool
  memory64 : Bool
  page_size_log2 : Option U32
deriving DecidableEq

/-- `DataSegment`. -/
structure DataSegment where
  index : U32
  memory_index : U32
  offset : Option U64
  len : U32
  file_offset : U64
deriving DecidableEq

/-- `FeatureMap`. -/
structure FeatureMap where
  multi_value : Bool
  bulk_memory : Bool
  reference_types : Bool
  simd : Bool
  relaxed_simd : Bool
  tail_call : Bool
  exception_handling : Bool
  threads : Bool
  memory64 : Bool
  multi_memory : Bool
  function_references : Bool
  gc : Bool
deriving DecidableEq

/-- `CustomInfo`. -/
structure CustomInfo where
  name_section : Bool
  producers : Option (List (String × String))
  other_names : List String
deriving DecidableEq

/-- `ModuleModel`; `binary_sha256` is set by nobody. -/
structure ModuleModel where
  version : ℕ
  sections : List SectionInfo
  types : List FuncType
  imports : List ImportEntry
  exports : List ExportEntry
  functions : List FunctionEntry
  globals : List GlobalEntry
  tables : List TableEntry
  elements : List ElementSegment
  memories : List MemoryEntry
  datas : List DataSegment
  features : FeatureMap
  custom : CustomInfo
  start : Option U32
  imported_functions : U32
  binary_sha256 : String
deriving DecidableEq

/-- `FeatureMap::default`. -/
def FeatureMap.default : FeatureMap :=
  ⟨false, false, false, false, false, false, false, false, false, false, false, false⟩

/-- `ModuleModel::default` with a version. -/
def ModuleModel.empty (version : ℕ) : ModuleModel :=
  ⟨version, [], [], [], [], [], [], [], [], [], [], .default, ⟨false, none, []⟩, none, 0, ""⟩

/-- `ParseBudget`; nothing reads `max_sections`. -/
structure ParseBudget where
  max_sections : ℕ
  max_types : ℕ
  max_functions : ℕ
  max_elements : ℕ
  max_datas : ℕ
deriving DecidableEq

/-- `ParseBudget::default`. -/
def ParseBudget.default : ParseBudget := ⟨4096, 100000, 500000, 100000, 100000⟩

/-! ## What the parser gives -/

/-- `wasmparser::BinaryReaderError`. -/
structure ReadError where
  offset : U64
  message : String
deriving DecidableEq

/-- `wasmparser::CompositeInnerType`; a function type has the texts of its types. -/
inductive CompositeType where
  | func (params results : List String)
  | struct
  | array
  | cont
deriving DecidableEq

/-- `wasmparser::TypeRef`. -/
inductive TypeRef where
  | func (type_index : U32)
  | table
  | memory
  | global
  | tag
deriving DecidableEq

/-- `wasmparser::ExternalKind`. -/
inductive ExternalKind where
  | func
  | table
  | memory
  | global
  | tag
deriving DecidableEq

/-- The name of a kind of export. -/
def ExternalKind.text : ExternalKind → String
  | .func => "func"
  | .table => "table"
  | .memory => "memory"
  | .global => "global"
  | .tag => "tag"

/-- `wasmparser::Table`, with the text of the element type. -/
structure TableType where
  elem_ty : String
  is_reference : Bool
  initial : U64
  maximum : Option U64
deriving DecidableEq

/-- `wasmparser::Global`: the text of its type, and the first operator of its initialiser, if that
can be read, with the texts of `to_string` for a float. -/
structure GlobalType where
  content_type : String
  mutable : Bool
  init : Option Operator
  floatText : String
deriving DecidableEq

/-- `wasmparser::Element`.  The mode of an active segment is its table and the first operator of its
offset; the functions are what can be read of a payload of function indices. -/
structure ElementType where
  active : Option (Option U32 × Option Operator)
  functions : Option (List U32)
deriving DecidableEq

/-- `wasmparser::Data`. -/
structure DataType where
  active : Option (U32 × Option Operator)
  len : ℕ
  start : ℕ
deriving DecidableEq

/-- `wasmparser::FunctionBody`: the range of its bytes in the file, its locals declarations, each
with a count, and where the operators begin. -/
structure FunctionBody where
  start : ℕ
  stop : ℕ
  locals : Except ReadError (List (Except ReadError (U32 × String)))
  operators : ℕ

/-- What is read of a custom section: the names of functions of the name section, in order, up to
the first subsection that cannot be read; the fields of the producers section. -/
inductive CustomSection where
  | name (functions : List (U32 × String))
  | producers (fields : Option (List (String × String)))
  | other (name : String)
deriving DecidableEq

/-- `wasmparser::Payload`. -/
inductive Payload where
  | version
  | typeSection (start stop : ℕ) (groups : List (Except ReadError (List CompositeType)))
  | importSection (start stop : ℕ) (imports : List (Except ReadError (String × String × TypeRef)))
  | functionSection (start stop : ℕ) (types : List (Except ReadError U32))
  | tableSection (start stop : ℕ) (tables : List (Except ReadError TableType))
  | memorySection (start stop : ℕ) (memories : List (Except ReadError MemoryEntry))
  | globalSection (start stop : ℕ) (globals : List (Except ReadError GlobalType))
  | exportSection (start stop : ℕ)
      (exports : List (Except ReadError (String × ExternalKind × U32)))
  | startSection (func : U32)
  | elementSection (start stop : ℕ) (elements : List (Except ReadError ElementType))
  | codeSectionStart (start stop : ℕ)
  | codeSectionEntry (body : FunctionBody)
  | dataSection (start stop : ℕ) (datas : List (Except ReadError DataType))
  | tagSection (start stop : ℕ)
  | customSection (section_ : CustomSection)
  | other

/-- `wasmparser::Parser::new(0).parse_all`: the payloads up to the first error. -/
class ModuleParser where
  parse_all : List U8 → List (Except ReadError Payload)

/-! ## Folding the payloads -/

/-- The variables of `parse_with_budget`. -/
structure ParseState where
  model : ModuleModel
  feature : FeatureMap
  imported_functions : U32
  defined_fn_cursor : ℕ
deriving DecidableEq

/-- `map_err(perr)?`. -/
def perr {α : Type} : Except ReadError α → Outcome Error α
  | .ok a => .ok a
  | .error e => .err (.parse e.offset e.message)

/-- `model_max_sections`. -/
def model_max_sections : ℕ := 4096

/-- `record_section`. -/
def record_section (model : ModuleModel) (id : ℕ) (name : String) (start stop : ℕ) : ModuleModel :=
  if model.sections.length < model_max_sections then
    { model with
      sections := model.sections ++ [⟨id, name, asU64 start, asU64 (stop - start)⟩] }
  else model

/-- `const_expr_u64` on the first operator of the expression. -/
def const_expr_u64 : Option Operator → Option U64
  | some (.i32Const value) => some (asU64 value.toNat)
  | some (.i64Const value) => some (asU64 value.toNat)
  | _ => none

/-- The items of a section with their positions, up to the first that cannot be read. -/
def eachItem {α : Type} (f : ℕ → α → ParseState → Outcome Error ParseState) :
    ℕ → List (Except ReadError α) → ParseState → Outcome Error ParseState
  | _, [], s => .ok s
  | i, item :: items, s => do
    let a ← perr item
    let s ← f i a s
    eachItem f (i + 1) items s

namespace ParseState

/-- The model changes. -/
def update (s : ParseState) (f : ModuleModel → ModuleModel) : ParseState :=
  { s with model := f s.model }

/-- One type of a group. -/
def addType (budget : ParseBudget) (s : ParseState) (ty : CompositeType) :
    Outcome Error ParseState :=
  if s.model.types.length ≥ budget.max_types then .err (.budget "types")
  else
    let push (s : ParseState) (ft : FuncType) : ParseState :=
      s.update fun m => { m with types := m.types ++ [ft] }
    match ty with
    | .func params results => .ok (push s ⟨params, results⟩)
    | .struct => .ok (push { s with feature := { s.feature with gc := true } } ⟨["struct"], []⟩)
    | .array => .ok (push { s with feature := { s.feature with gc := true } } ⟨["array"], []⟩)
    | .cont => .err (.parse 0 "stack switching (cont) types unsupported")

/-- The types of a group. -/
def addGroup (budget : ParseBudget) (s : ParseState) : List CompositeType → Outcome Error ParseState
  | [] => .ok s
  | ty :: tys => do
    let s ← s.addType budget ty
    s.addGroup budget tys

/-- An import. -/
def addImport [Host] (s : ParseState) (imp : String × String × TypeRef) :
    Outcome Error ParseState := do
  let wasi := startsWith imp.1 "wasi_" || imp.1 == "wasi_unstable" ||
    imp.1 == "wasi_snapshot_preview1"
  let push (s : ParseState) (kind : String) (tidx : Option U32) : ParseState :=
    s.update fun m => { m with imports := m.imports ++ [⟨imp.1, imp.2.1, kind, tidx, wasi⟩] }
  match imp.2.2 with
  | .func t =>
    let imported_functions ← addU32 s.imported_functions 1
    pure (push { s with imported_functions } "func" (some t))
  | .table => pure (push s "table" none)
  | .memory => pure (push s "memory" none)
  | .global => pure (push s "global" none)
  | .tag => pure (push s "tag" none)

/-- A declared function. -/
def addFunction [Host] (budget : ParseBudget) (s : ParseState) (i : ℕ) (t : U32) :
    Outcome Error ParseState :=
  if s.model.functions.length ≥ budget.max_functions then .err (.budget "functions")
  else do
    let index ← addU32 s.imported_functions (asU32 i)
    pure (s.update fun m => { m with functions := m.functions ++ [⟨index, t, 0, 0, [], none⟩] })

/-- A table. -/
def addTable (s : ParseState) (i : ℕ) (t : TableType) : ParseState :=
  let s := if t.is_reference then { s with feature := { s.feature with reference_types := true } }
    else s
  s.update fun m =>
    { m with tables := m.tables ++ [⟨asU32 i, t.elem_ty, t.initial, t.maximum⟩] }

/-- A memory. -/
def addMemory (s : ParseState) (i : ℕ) (m : MemoryEntry) : ParseState :=
  let feature := { s.feature with
    multi_memory := s.feature.multi_memory || decide (1 ≤ i)
    memory64 := s.feature.memory64 || m.memory64
    threads := s.feature.threads || m.shared }
  { s with feature }.update fun model =>
    { model with memories := model.memories ++ [{ m with index := asU32 i }] }

/-- The text of a constant initialiser. -/
def initText (g : GlobalType) : Option String :=
  match g.init with
  | some (.i32Const value) => some (toString value.toInt)
  | some (.i64Const value) => some (toString value.toInt)
  | some (.f32Const _) | some (.f64Const _) => some g.floatText
  | _ => none

/-- A global. -/
def addGlobal (s : ParseState) (i : ℕ) (g : GlobalType) : ParseState :=
  s.update fun m =>
    { m with globals := m.globals ++ [⟨asU32 i, g.content_type, g.mutable, initText g⟩] }

/-- An export. -/
def addExport (s : ParseState) (e : String × ExternalKind × U32) : ParseState :=
  s.update fun m => { m with exports := m.exports ++ [⟨e.1, e.2.1.text, e.2.2⟩] }

/-- An element segment. -/
def addElement (budget : ParseBudget) (s : ParseState) (i : ℕ) (e : ElementType) :
    Outcome Error ParseState :=
  if s.model.elements.length ≥ budget.max_elements then .err (.budget "elements")
  else
    let seg : ElementSegment :=
      match e.active with
      | some (table_index, offset) => ⟨asU32 i, table_index.getD 0, const_expr_u64 offset, []⟩
      | none => ⟨asU32 i, 0, none, []⟩
    let seg := match e.functions with
      | some func_indices => { seg with func_indices }
      | none => seg
    .ok (s.update fun m => { m with elements := m.elements ++ [seg] })

/-- The types of the declared locals, one for each local. -/
def localTypes : List (Except ReadError (U32 × String)) → Outcome Error (List String)
  | [] => .ok []
  | item :: items => do
    let (n, ty) ← perr item
    let rest ← localTypes items
    pure (List.replicate n.val ty ++ rest)

/-- The body of the function at the cursor. -/
def addBody (s : ParseState) (f : FunctionBody) : Outcome Error ParseState :=
  match s.model.functions[s.defined_fn_cursor]? with
  | none => .err (.budget "code entries exceed declared functions")
  | some entry => do
    let items ← perr f.locals
    let local_types ← localTypes items
    let entry := { entry with
      local_types
      code_offset := asU64 f.start
      code_size := asU64 (f.stop - f.start) }
    pure { s with
      model := { s.model with functions := s.model.functions.set s.defined_fn_cursor entry }
      defined_fn_cursor := s.defined_fn_cursor + 1 }

/-- A data segment. -/
def addData (budget : ParseBudget) (s : ParseState) (i : ℕ) (d : DataType) :
    Outcome Error ParseState :=
  if s.model.datas.length ≥ budget.max_datas then .err (.budget "datas")
  else
    let seg : DataSegment :=
      match d.active with
      | some (memory_index, offset) =>
        ⟨asU32 i, memory_index, const_expr_u64 offset, asU32 d.len, asU64 d.start⟩
      | none => ⟨asU32 i, 0, none, asU32 d.len, asU64 d.start⟩
    .ok ({ s with feature := { s.feature with bulk_memory := true } }.update fun m =>
      { m with datas := m.datas ++ [seg] })

/-- The first function with an index gets a name. -/
def setName (index : U32) (name : String) : List FunctionEntry → List FunctionEntry
  | [] => []
  | f :: fs => if f.index = index then { f with name := some name } :: fs
    else f :: setName index name fs

/-- A custom section. -/
def addCustom (s : ParseState) : CustomSection → ParseState
  | .name functions =>
    s.update fun m => { m with
      custom := { m.custom with name_section := true }
      functions := functions.foldl (fun fs item => setName item.1 item.2 fs) m.functions }
  | .producers none => s
  | .producers (some fields) =>
    s.update fun m => { m with custom := { m.custom with producers := some fields } }
  | .other name =>
    s.update fun m =>
      { m with custom := { m.custom with other_names := m.custom.other_names ++ [name] } }

/-- One payload. -/
def payload [Host] (budget : ParseBudget) (s : ParseState) : Payload → Outcome Error ParseState
  | .version => .ok s
  | .typeSection start stop groups =>
    eachItem (fun _ group s => s.addGroup budget group) 0 groups
      (s.update fun m => record_section m 1 "type" start stop)
  | .importSection start stop imports =>
    eachItem (fun _ imp s => s.addImport imp) 0 imports
      (s.update fun m => record_section m 2 "import" start stop)
  | .functionSection start stop types =>
    eachItem (fun i t s => s.addFunction budget i t) 0 types
      (s.update fun m => record_section m 3 "function" start stop)
  | .tableSection start stop tables =>
    eachItem (fun i t s => .ok (s.addTable i t)) 0 tables
      (s.update fun m => record_section m 4 "table" start stop)
  | .memorySection start stop memories =>
    eachItem (fun i m s => .ok (s.addMemory i m)) 0 memories
      (s.update fun m => record_section m 5 "memory" start stop)
  | .globalSection start stop globals =>
    eachItem (fun i g s => .ok (s.addGlobal i g)) 0 globals
      (s.update fun m => record_section m 6 "global" start stop)
  | .exportSection start stop exports =>
    eachItem (fun _ e s => .ok (s.addExport e)) 0 exports
      (s.update fun m => record_section m 7 "export" start stop)
  | .startSection func => .ok (s.update fun m => { m with start := some func })
  | .elementSection start stop elements =>
    eachItem (fun i e s => s.addElement budget i e) 0 elements
      (s.update fun m => record_section m 9 "elem" start stop)
  | .codeSectionStart start stop =>
    .ok (s.update fun m => record_section m 10 "code" start stop)
  | .codeSectionEntry body => s.addBody body
  | .dataSection start stop datas =>
    eachItem (fun i d s => s.addData budget i d) 0 datas
      (s.update fun m => record_section m 11 "data" start stop)
  | .tagSection start stop =>
    .ok { s.update fun m => record_section m 13 "tag" start stop with
      feature := { s.feature with exception_handling := true } }
  | .customSection section_ => .ok (s.addCustom section_)
  | .other => .ok s

/-- The loop over the payloads. -/
def run [Host] (budget : ParseBudget) : List (Except ReadError Payload) → ParseState →
    Outcome Error ParseState
  | [], s => .ok s
  | item :: items, s => do
    let p ← perr item
    let s ← s.payload budget p
    run budget items s

/-- What is set behind the loop. -/
def finish (s : ParseState) : ModuleModel :=
  let feature :=
    if s.model.functions.any fun f => f.local_types.any fun t => contains t "v128" then
      { s.feature with simd := true }
    else s.feature
  { s.model with features := feature, imported_functions := s.imported_functions }

end ParseState

/-- `parse_with_budget`. -/
def parse_with_budget [Host] [ModuleParser] (bytes : List U8) (budget : ParseBudget) :
    Outcome Error ModuleModel :=
  if bytes.length < 8 ∨ bytes.take 4 ≠ [0x00, 0x61, 0x73, 0x6d] then
    .err (.parse 0 "not a WASM module (bad magic)")
  else do
    let version := (bytes.getD 6 0).val + 256 * (bytes.getD 7 0).val
    let s ← ParseState.run budget (ModuleParser.parse_all bytes)
      ⟨.empty version, .default, 0, 0⟩
    pure s.finish

/-- `parse`. -/
def parse [Host] [ModuleParser] (bytes : List U8) : Outcome Error ModuleModel :=
  parse_with_budget bytes .default

end ReverseMcp.Wasm
