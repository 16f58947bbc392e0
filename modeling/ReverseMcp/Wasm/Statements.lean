import ReverseMcp.Wasm.Pseudo
import ReverseMcp.Wasm.Machine

/-!
# The statements of the pseudocode

What `render` prints for a body without blocks, as statements: `lift` follows `render` with
expressions in the place of texts, and `run_lift` says that the text that is printed is theirs.  A
statement runs with its expressions evaluated from left to right where it stands.  A declared local
holds zero before it is written, as in WebAssembly, and `mem` is the first memory.
-/

namespace ReverseMcp.Wasm

open Rust

/-- The expressions that are printed. -/
inductive Expr where
  | i32Const (v : BitVec 32)
  | i64Const (v : BitVec 64)
  | localGet (i : U32)
  | globalGet (i : U32)
  | load (width : Width) (offset : U64) (addr : Expr)
  | arith (op : I32Arith) (a b : Expr)
  | eqz (a : Expr)
  | compare (op : I32Compare) (a b : Expr)
  | call (f : U32) (args : List Expr)
  /-- What stands in the place of an operand that is not there. -/
  | missing (text : String)

/-- The statements that are printed. -/
inductive Stmt where
  | localSet (i : U32) (v : Expr)
  | globalSet (i : U32) (v : Expr)
  | store (width : Width) (offset : U64) (addr v : Expr)
  | call (f : U32) (args : List Expr)
  | ret (values : List Expr)
  | retVoid
  | comment (pos : U64)

/-- The bytes of an access. -/
def Width.bytes : Width → ℕ
  | w4 => 4
  | w8 => 8

/-! ## Text -/

section Text

variable (model : ModuleModel) (params : ℕ)

mutual

/-- The text of an expression. -/
def Expr.text : Expr → String
  | .i32Const v => s!"{v.toInt}"
  | .i64Const v => s!"{v.toInt}L"
  | .localGet i => localName params i
  | .globalGet i => s!"g{i.val}"
  | .load width offset addr => s!"*({widthName width.bytes}*)(mem+{addr.text}+{offset.val})"
  | .arith op a b => s!"({a.text} {op.symbol} {b.text})"
  | .eqz a => s!"({a.text} == 0)"
  | .compare op a b => s!"({a.text} {op.symbol} {b.text})"
  | .call f args =>
    let args := ", ".intercalate (texts args)
    s!"{model.calleeName f}({args})"
  | .missing text => text

/-- The texts of expressions. -/
def texts : List Expr → List String
  | [] => []
  | e :: es => e.text :: texts es

end

/-- The text of a statement. -/
def Stmt.text : Stmt → String
  | .localSet i v => s!"{localName params i} = {v.text model params};"
  | .globalSet i v => s!"g{i.val} = {v.text model params};"
  | .store width offset addr v =>
    let a := addr.text model params
    let v := v.text model params
    s!"*({widthName width.bytes}*)(mem+{a}+{offset.val}) = {v};"
  | .call f args => s!"{(Expr.call f args).text model params};"
  | .ret values =>
    let vals := ", ".intercalate (texts model params values)
    s!"return {vals};"
  | .retVoid => "return;"
  | .comment pos => s!"/* opaque op @ {hex pos} */"

/-- The lines of statements. -/
def printed (stmts : List Stmt) : String :=
  String.join (stmts.map fun s => "  " ++ s.text model params ++ "\n")

end Text

/-! ## Running statements -/

/-- What statements run on. -/
structure Frame where
  locals : List Value
  world : World
  calls : List (U32 × List Value)
deriving DecidableEq

/-- The two operands of an operator of `i32`. -/
def ofI32 (f : BitVec 32 → BitVec 32 → Value) : Value → Value → Option Value
  | .i32 a, .i32 b => some (f a b)
  | _, _ => none

/-- A function is called. -/
def Frame.call (I : Instance) (σ : Frame) (f : U32) (args : List Value) :
    Option (List Value × Frame) := do
  let (values, world) ← I.invoke f args σ.world
  some (values, { σ with world, calls := σ.calls ++ [(f, args)] })

mutual

/-- The value of an expression, and what its calls leave. -/
def Expr.eval (I : Instance) : Expr → Frame → Option (Value × Frame)
  | .i32Const v, σ => some (.i32 v, σ)
  | .i64Const v, σ => some (.i64 v, σ)
  | .localGet i, σ => σ.locals[i.val]?.map (·, σ)
  | .globalGet i, σ => (σ.world.getGlobal i).map (·, σ)
  | .load width offset addr, σ => do
    let (a, σ) ← addr.eval I σ
    let v ← σ.world.load width 0 offset a
    some (v, σ)
  | .arith op a b, σ => do
    let (x, σ) ← a.eval I σ
    let (y, σ) ← b.eval I σ
    let v ← ofI32 (fun a b => .i32 (op.eval a b)) x y
    some (v, σ)
  | .eqz a, σ => do
    let (x, σ) ← a.eval I σ
    let v ← ofI32 (fun a _ => .ofBool (a = 0)) x x
    some (v, σ)
  | .compare op a b, σ => do
    let (x, σ) ← a.eval I σ
    let (y, σ) ← b.eval I σ
    let v ← ofI32 (fun a b => .ofBool (op.eval a b)) x y
    some (v, σ)
  | .call f args, σ => do
    let (xs, σ) ← evalAll I args σ
    let (values, σ) ← σ.call I f xs
    match values with
    | [v] => some (v, σ)
    | _ => none
  | .missing _, _ => none

/-- Expressions from left to right. -/
def evalAll (I : Instance) : List Expr → Frame → Option (List Value × Frame)
  | [], σ => some ([], σ)
  | e :: es, σ => do
    let (v, σ) ← e.eval I σ
    let (vs, σ) ← evalAll I es σ
    some (v :: vs, σ)

end

/-- A statement that does not return. -/
def Stmt.exec (I : Instance) (σ : Frame) : Stmt → Option Frame
  | .localSet i v => do
    let (v, σ) ← v.eval I σ
    if i.val < σ.locals.length then some { σ with locals := σ.locals.set i.val v } else none
  | .globalSet i v => do
    let (v, σ) ← v.eval I σ
    let world ← σ.world.setGlobal i v
    some { σ with world }
  | .store width offset addr v => do
    let (a, σ) ← addr.eval I σ
    let (v, σ) ← v.eval I σ
    let world ← σ.world.store width 0 offset a v
    some { σ with world }
  | .call f args => do
    let (xs, σ) ← evalAll I args σ
    let (_, σ) ← σ.call I f xs
    some σ
  | .comment _ => some σ
  | .ret _ | .retVoid => none

/-- Statements up to the first `return`, or to the closing brace. -/
def runStmts (I : Instance) : List Stmt → Frame → Option (List Value × Frame)
  | [], σ => some ([], σ)
  | .ret values :: _, σ => evalAll I values σ
  | .retVoid :: _, σ => some ([], σ)
  | s :: ss, σ => do
    let σ ← s.exec I σ
    runStmts I ss σ

/-! ## From operators to statements -/

/-- The operators of straight-line code. -/
def Operator.StraightLine : Operator → Bool
  | i32Const _ | i64Const _ | f32Const _ | f64Const _ | localGet _ | localSet _ | localTee _
  | globalGet _ | globalSet _ | i32Load _ | i64Load _ | i32Store _ | i64Store _ | i32Arith _
  | i32Eqz | i32Compare _ | call _ | return_ | drop | end_ => true
  | _ => false

/-- The variables of `render` with expressions in the place of texts. -/
structure Lifted where
  stmts : List Stmt
  estack : List Expr

namespace Lifted

/-- `estack.pop()`, or a text in its place. -/
def pop (s : Lifted) (otherwise : String) : Expr × Lifted :=
  match s.estack with
  | e :: estack => (e, { s with estack })
  | [] => (.missing otherwise, s)

/-- `estack.push`. -/
def push (s : Lifted) (e : Expr) : Lifted := { s with estack := e :: s.estack }

/-- A statement is printed. -/
def print (s : Lifted) (stmt : Stmt) : Lifted := { s with stmts := s.stmts ++ [stmt] }

/-- `local.set`. -/
def localSet (s : Lifted) (i : U32) : Lifted :=
  let (v, s) := s.pop ""
  s.print (.localSet i v)

/-- `local.tee`. -/
def localTee (s : Lifted) (i : U32) : Lifted :=
  let (v, s) := s.pop ""
  (s.print (.localSet i v)).push (.localGet i)

/-- `global.set`. -/
def globalSet (s : Lifted) (i : U32) : Lifted :=
  let (v, s) := s.pop ""
  s.print (.globalSet i v)

/-- `i32.eqz`. -/
def eqz (s : Lifted) : Lifted :=
  let (a, s) := s.pop ""
  s.push (.eqz a)

/-- `binop`. -/
def binop (s : Lifted) (make : Expr → Expr → Expr) : Lifted :=
  let (b, s) := s.pop ""
  let (a, s) := s.pop ""
  s.push (make a b)

/-- A load. -/
def load (s : Lifted) (width : Width) (memarg : MemArg) : Lifted :=
  let (a, s) := s.pop ""
  s.push (.load width memarg.offset a)

/-- A store. -/
def store (s : Lifted) (width : Width) (memarg : MemArg) : Lifted :=
  let (v, s) := s.pop ""
  let (a, s) := s.pop ""
  s.print (.store width memarg.offset a v)

/-- `n` expressions off the stack, the last one first. -/
def popArgs : ℕ → Lifted → List Expr × Lifted
  | 0, s => ([], s)
  | n + 1, s =>
    let (a, s) := s.pop "<arg>"
    let (args, s) := popArgs n s
    (a :: args, s)

/-- A call. -/
def call (model : ModuleModel) (s : Lifted) (f : U32) : Lifted :=
  let callee_ty := model.calleeType f
  let (args, s) := popArgs ((callee_ty.map (·.params.length)).getD 0) s
  if (callee_ty.map fun t => !t.results.isEmpty).getD false then s.push (.call f args.reverse)
  else s.print (.call f args.reverse)

/-- `return` in a function with `n` results. -/
def ret (n : ℕ) (s : Lifted) : Lifted :=
  if n > 0 then { s with estack := s.estack.drop n }.print (.ret (s.estack.take n))
  else s.print .retVoid

/-- One operator, other than `end`. -/
def operator (model : ModuleModel) (results : ℕ) (s : Lifted) (pos : U64) : Operator → Lifted
  | .i32Const v => s.push (.i32Const v)
  | .i64Const v => s.push (.i64Const v)
  | .localGet i => s.push (.localGet i)
  | .localSet i => s.localSet i
  | .localTee i => s.localTee i
  | .globalGet i => s.push (.globalGet i)
  | .globalSet i => s.globalSet i
  | .i32Load memarg => s.load .w4 memarg
  | .i64Load memarg => s.load .w8 memarg
  | .i32Store memarg => s.store .w4 memarg
  | .i64Store memarg => s.store .w8 memarg
  | .i32Arith op => s.binop (.arith op)
  | .i32Eqz => s.eqz
  | .i32Compare op => s.binop (.compare op)
  | .call f => s.call model f
  | .return_ => s.ret results
  | .drop => (s.pop "").2
  | _ => s.print (.comment pos)

/-- The operators up to the final `end`. -/
def run (model : ModuleModel) (results : ℕ) : OperatorsReader → Lifted → List Stmt
  | .read pos op rest, s =>
    if op = .end_ then s.stmts else run model results rest (s.operator model results pos op)
  | _, s => s.stmts

end Lifted

/-! ## What is printed -/

section Printed

variable (model : ModuleModel) (cfg : StructuredCfg) (params results : ℕ) (out : String)

lemma texts_eq_map (es : List Expr) : texts model params es = es.map (Expr.text model params) := by
  induction es with
  | nil => rfl
  | cons e es ih => rw [texts, ih, List.map_cons]

/-- The texts that `render` has where `lift` has expressions. -/
def Lifted.view (s : Lifted) : Render :=
  ⟨out ++ printed model params s.stmts, 1, texts model params s.estack⟩

variable (s : Lifted)

lemma view_pop (otherwise : String) : (s.view model params out).pop otherwise =
    ((s.pop otherwise).1.text model params, (s.pop otherwise).2.view model params out) := by
  obtain ⟨stmts, estack⟩ := s
  cases estack <;> rfl

lemma view_push (e : Expr) : (s.view model params out).push (e.text model params) =
    (s.push e).view model params out := rfl

lemma view_print (stmt : Stmt) : (s.view model params out).line (stmt.text model params) =
    (s.print stmt).view model params out := by
  have hprinted : printed model params (s.stmts ++ [stmt]) =
      printed model params s.stmts ++ ("  " ++ stmt.text model params ++ "\n") := by
    simp [printed, String.join_append]
  simp only [Lifted.view, Lifted.print, Render.line, hprinted]
  simp [String.append_assoc, String.join]

lemma view_popArgs (n : ℕ) : Render.popArgs n (s.view model params out) =
    (texts model params (s.popArgs n).1, (s.popArgs n).2.view model params out) := by
  induction n generalizing s with
  | zero => rfl
  | succ n ih =>
    simp only [Render.popArgs, Lifted.popArgs, view_pop, ih, texts]

lemma view_localSet (i : U32) : (s.view model params out).localSet params i =
    (s.localSet i).view model params out := by
  simp only [Render.localSet, Lifted.localSet, view_pop]
  exact view_print model params out _ (.localSet i _)

lemma view_localTee (i : U32) : (s.view model params out).localTee params i =
    (s.localTee i).view model params out := by
  simp only [Render.localTee, Lifted.localTee, view_pop]
  rw [← view_push, ← view_print]
  rfl

lemma view_globalSet (i : U32) : (s.view model params out).globalSet i =
    (s.globalSet i).view model params out := by
  simp only [Render.globalSet, Lifted.globalSet, view_pop]
  exact view_print model params out _ (.globalSet i _)

lemma view_eqz : (s.view model params out).eqz = s.eqz.view model params out := by
  simp only [Render.eqz, Lifted.eqz, view_pop]
  exact view_push model params out _ (.eqz _)

lemma view_binop (sym : String) (make : Expr → Expr → Expr)
    (h : ∀ a b, (make a b).text model params =
      s!"({a.text model params} {sym} {b.text model params})") :
    (s.view model params out).binop sym = (s.binop make).view model params out := by
  simp only [Render.binop, Lifted.binop, view_pop, ← h, view_push]

lemma view_load (width : Width) (memarg : MemArg) :
    (s.view model params out).load width.bytes memarg =
      (s.load width memarg).view model params out := by
  simp only [Render.load, Lifted.load, view_pop]
  rfl

lemma view_store (width : Width) (memarg : MemArg) :
    (s.view model params out).store width.bytes memarg =
      (s.store width memarg).view model params out := by
  simp only [Render.store, Lifted.store, view_pop]
  exact view_print model params out _ (.store width memarg.offset _ _)

lemma view_call (f : U32) :
    (s.view model params out).call model f = (s.call model f).view model params out := by
  have htext (args : List Expr) : (Expr.call f args.reverse).text model params =
      let joined := ", ".intercalate (texts model params args).reverse
      s!"{model.calleeName f}({joined})" := by
    simp only [Expr.text, texts_eq_map, List.map_reverse]
  simp only [Render.call, Lifted.call, view_popArgs, ← htext]
  split
  · exact view_push model params out _ _
  · exact view_print model params out _ (.call f _)

lemma view_ret : (s.view model params out).ret results =
    (s.ret results).view model params out := by
  have hvals : (s.view model params out).estack.take results =
      texts model params (s.estack.take results) := by
    rw [texts_eq_map, List.map_take, ← texts_eq_map]
    rfl
  have hrest :
      { s.view model params out with estack := (s.view model params out).estack.drop results } =
      { s with estack := s.estack.drop results }.view model params out := by
    simp only [Lifted.view, texts_eq_map, List.map_drop]
  rw [Render.ret, Lifted.ret]
  split
  · rw [hvals, hrest]
    exact view_print model params out _ (.ret _)
  · exact view_print model params out s .retVoid

/-- One operator. -/
lemma view_operator (pos : U64) (op : Operator) (hline : op.StraightLine) (hend : op ≠ .end_) :
    (s.view model params out).operator model cfg params results pos op =
      (s.operator model results pos op).view model params out := by
  cases op with
  | i32Const v | i64Const v | localGet i | globalGet i => rfl
  | localSet i => exact view_localSet model params out s i
  | localTee i => exact view_localTee model params out s i
  | globalSet i => exact view_globalSet model params out s i
  | i32Load memarg => exact view_load model params out s .w4 memarg
  | i64Load memarg => exact view_load model params out s .w8 memarg
  | i32Store memarg => exact view_store model params out s .w4 memarg
  | i64Store memarg => exact view_store model params out s .w8 memarg
  | i32Arith op => exact view_binop model params out s _ _ fun _ _ => rfl
  | i32Eqz => exact view_eqz model params out s
  | i32Compare op => exact view_binop model params out s _ _ fun _ _ => rfl
  | call f => exact view_call model params out s f
  | return_ => exact view_ret model params results out s
  | drop => exact congrArg Prod.snd (view_pop model params out s "")
  | f32Const v | f64Const v => exact view_print model params out s (.comment pos)
  | end_ => exact absurd rfl hend
  | block | loop | if_ | else_ | try_ | tryTable | br | brIf | brTable | callIndirect | returnCall
  | returnCallIndirect | unreachable | other => cases hline

/-- The lines that `render` prints are those of the statements. -/
theorem run_lift {r : OperatorsReader} {ops : List Operator} (hops : r.decoded = some ops)
    (hline : ∀ op ∈ ops, op.StraightLine) (hend : .end_ ∈ ops) :
    Render.run model cfg params results r (s.view model params out) =
      .ok (out ++ printed model params (Lifted.run model results r s) ++ "\x7d\n") := by
  induction r generalizing s ops with
  | eof position =>
    cases hops
    cases hend
  | failed position offset message => cases hops
  | read pos op rest ih =>
    obtain ⟨rest_ops, hrest, rfl⟩ := Option.map_eq_some_iff.mp hops
    by_cases hop : op = .end_
    · subst hop
      simp [Render.run, Lifted.run, Lifted.view]
    · have hmem : .end_ ∈ rest_ops := (List.mem_cons.mp hend).resolve_left (Ne.symm hop)
      rw [Render.run, if_neg (fun h => hop h.1), Lifted.run, if_neg hop,
        view_operator model cfg params results out s pos op (hline op (by simp)) hop]
      exact ih _ hrest (fun op' hop' => hline op' (by simp [hop'])) hmem

end Printed

end ReverseMcp.Wasm
