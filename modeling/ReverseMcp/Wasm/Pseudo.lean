import ReverseMcp.Wasm.Module
import ReverseMcp.Wasm.Cfg

/-!
# Pseudocode

`rmcp_wasm::pseudo`: one pass over the operators with a stack of expression texts.  An operator that
only produces a value puts a text on the stack; one that has an effect prints a line with the texts
it takes; blocks are printed as braces.
-/

namespace ReverseMcp.Wasm

open Rust

/-- The name of a local: the parameters are `a0`, `a1`, … and the other ones `l2`, `l3`, …, whether
they are declared or not. -/
def localName (params : ℕ) (i : U32) : String :=
  if i.val < params then s!"a{i.val}" else s!"l{i.val}"

/-- The symbol of an operator that keeps the type. -/
def I32Arith.symbol : I32Arith → String
  | add => "+"
  | sub => "-"
  | mul => "*"
  | and => "&"
  | or => "|"
  | xor => "^"

/-- The symbol of a comparison. -/
def I32Compare.symbol : I32Compare → String
  | eq => "=="
  | ne => "!="
  | ltU => "<u"
  | geU => ">=u"

/-- The name of the type of a memory access. -/
def widthName (width : ℕ) : String := if width = 4 then "i32" else "i64"

/-- The function with an index. -/
def ModuleModel.function (model : ModuleModel) (index : U32) : Option FunctionEntry :=
  model.functions.find? fun f => f.index = index

/-- The type of the function with an index; imported functions are not among the functions. -/
def ModuleModel.calleeType (model : ModuleModel) (index : U32) : Option FuncType :=
  (model.function index).bind fun f => model.types[f.type_index.val]?

/-- The name under which a function is called. -/
def ModuleModel.calleeName (model : ModuleModel) (index : U32) : String :=
  ((model.function index).bind (·.name)).getD s!"wasm_fn_{index.val}"

/-- The variables of `render`; the top of the stack comes first. -/
structure Render where
  out : String
  indent : ℕ
  estack : List String
deriving DecidableEq

namespace Render

/-- `estack.pop()`, or a text in its place. -/
def pop (s : Render) (otherwise : String) : String × Render :=
  match s.estack with
  | e :: estack => (e, { s with estack })
  | [] => (otherwise, s)

/-- `estack.push`. -/
def push (s : Render) (e : String) : Render := { s with estack := e :: s.estack }

/-- A line at the current depth. -/
def line (s : Render) (text : String) : Render :=
  { s with out := s.out ++ String.join (List.replicate s.indent "  ") ++ text ++ "\n" }

/-- `local.set`. -/
def localSet (params : ℕ) (s : Render) (i : U32) : Render :=
  let (v, s) := s.pop ""
  s.line s!"{localName params i} = {v};"

/-- `local.tee`. -/
def localTee (params : ℕ) (s : Render) (i : U32) : Render :=
  let (v, s) := s.pop ""
  (s.line s!"{localName params i} = {v};").push (localName params i)

/-- `global.set`. -/
def globalSet (s : Render) (i : U32) : Render :=
  let (v, s) := s.pop ""
  s.line s!"g{i.val} = {v};"

/-- `i32.eqz`. -/
def eqz (s : Render) : Render :=
  let (a, s) := s.pop ""
  s.push s!"({a} == 0)"

/-- `binop`. -/
def binop (s : Render) (sym : String) : Render :=
  let (b, s) := s.pop ""
  let (a, s) := s.pop ""
  s.push s!"({a} {sym} {b})"

/-- `i32.load` and `i64.load`. -/
def load (s : Render) (width : ℕ) (memarg : MemArg) : Render :=
  let (a, s) := s.pop ""
  s.push s!"*({widthName width}*)(mem+{a}+{memarg.offset.val})"

/-- `i32.store` and `i64.store`. -/
def store (s : Render) (width : ℕ) (memarg : MemArg) : Render :=
  let (v, s) := s.pop ""
  let (a, s) := s.pop ""
  s.line s!"*({widthName width}*)(mem+{a}+{memarg.offset.val}) = {v};"

/-- `n` texts off the stack, the last one first. -/
def popArgs : ℕ → Render → List String × Render
  | 0, s => ([], s)
  | n + 1, s =>
    let (a, s) := s.pop "<arg>"
    let (args, s) := popArgs n s
    (a :: args, s)

/-- `call`. -/
def call (model : ModuleModel) (s : Render) (f : U32) : Render :=
  let callee_ty := model.calleeType f
  let n_args := (callee_ty.map (·.params.length)).getD 0
  let (args, s) := popArgs n_args s
  let args := ", ".intercalate args.reverse
  let call := s!"{model.calleeName f}({args})"
  if (callee_ty.map fun t => !t.results.isEmpty).getD false then s.push call
  else s.line s!"{call};"

/-- `return` in a function with `n` results. -/
def ret (n : ℕ) (s : Render) : Render :=
  let vals := ", ".intercalate (s.estack.take n)
  if n > 0 then { s with estack := s.estack.drop n }.line s!"return {vals};"
  else s.line "return;"

/-- One operator, other than the last `end`. -/
def operator (model : ModuleModel) (cfg : StructuredCfg) (params results : ℕ) (s : Render)
    (pos : U64) : Operator → Render
  | .i32Const value => s.push s!"{value.toInt}"
  | .i64Const value => s.push s!"{value.toInt}L"
  | .localGet i => s.push (localName params i)
  | .localSet i => s.localSet params i
  | .localTee i => s.localTee params i
  | .globalGet i => s.push s!"g{i.val}"
  | .globalSet i => s.globalSet i
  | .i32Load memarg => s.load 4 memarg
  | .i64Load memarg => s.load 8 memarg
  | .i32Store memarg => s.store 4 memarg
  | .i64Store memarg => s.store 8 memarg
  | .i32Arith op => s.binop op.symbol
  | .i32Eqz => s.eqz
  | .i32Compare op => s.binop op.symbol
  | .block _ => opened (s.line s!"\x7b // block @ {hex pos}")
  | .loop _ => opened (s.line s!"do \x7b // loop @ {hex pos}")
  | .if_ _ =>
    let (cond, s) := s.pop "<cond>"
    opened (s.line s!"if ({cond}) \x7b // if @ {hex pos}")
  | .else_ => opened ({ s with indent := s.indent - 1 }.line "\x7d else \x7b")
  | .br depth => s.line s!"goto label_m{depth.val}; // br @ {hex pos}"
  | .brIf depth =>
    let (c, s) := s.pop "<cond>"
    s.line s!"if ({c}) goto label_m{depth.val}; // br_if @ {hex pos}"
  | .brTable _ _ =>
    let targets := ((cfg.br_tables.find? fun t => t.1 = pos).map (·.2.length)).getD 0
    s.line s!"switch (<idx>) \x7b /* br_table @ {hex pos}: {targets} labeled targets */ \x7d"
  | .call f => s.call model f
  | .callIndirect type_index table_index =>
    let (a, s) := s.pop ""
    s.push (s!"table{table_index.val}[{a}] /* type {type_index.val}; " ++
      "targets: indirect_targets */")
  | .return_ => s.ret results
  | .unreachable => s.line "unreachable;"
  | .drop => (s.pop "").2
  | .end_ => { s with indent := s.indent - 1 }.line "\x7d"
  | _ => s.line s!"/* opaque op @ {hex pos} */"
where
  /-- A brace has been opened. -/
  opened (s : Render) : Render := { s with indent := s.indent + 1 }

/-- The loop of `render`. -/
def run (model : ModuleModel) (cfg : StructuredCfg) (params results : ℕ) :
    OperatorsReader → Render → Outcome Error String
  | .eof _, s => .ok s.out
  | .failed _ offset message, _ => .err (.parse offset message)
  | .read pos op rest, s =>
    if op = .end_ ∧ s.indent ≤ 1 then .ok (s.out ++ "\x7d\n")
    else run model cfg params results rest (s.operator model cfg params results pos op)

end Render

/-- The type of a function; without one in the model it has neither parameters nor results. -/
def ModuleModel.typeOf (model : ModuleModel) (func : FunctionEntry) : FuncType :=
  model.types[func.type_index.val]?.getD ⟨[], []⟩

/-- What `render` prints before the first operator. -/
def header (model : ModuleModel) (func_index : U32) (func : FunctionEntry) : String :=
  let ty := model.typeOf func
  let fname := func.name.getD s!"wasm_fn_{func.index.val}"
  let params := ", ".intercalate (ty.params.mapIdx fun i t => s!"{t} a{i}")
  let ret :=
    match ty.results with
    | [] => "void"
    | [t] => t
    | results => s!"(multi {results.length})"
  let locals_decl := String.join (func.local_types.mapIdx fun i t =>
    s!"  {t} l{ty.params.length + i};\n")
  "// WASM-native pseudocode (reverse-mcp; not Hex-Rays output)\n" ++
    s!"// func {func_index.val} @ code {hex func.code_offset} ({func.code_size.val} bytes)\n" ++
    s!"{ret} {fname}({params}) \x7b\n" ++ locals_decl

/-- `render`. -/
def render [Wasmparser] (model : ModuleModel) (func_index : U32) (body : List U8)
    (cfg : StructuredCfg) : Outcome Error String :=
  match model.function func_index with
  | none => .err (.ambiguous s!"function {func_index.val} not in model")
  | some func =>
    let ty := model.typeOf func
    Render.run model cfg ty.params.length ty.results.length (Wasmparser.operators body)
      ⟨header model func_index func, 1, []⟩

end ReverseMcp.Wasm
