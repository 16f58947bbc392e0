import ReverseMcp.Wasm.Rendered
import ReverseMcp.Wasm.Typing
import ReverseMcp.Wasm.Decoder

/-!
# What the pseudocode means

The statements that are printed for a body, the text that `render` makes of them, and what it is for
them to mean what the operators mean.
-/

namespace ReverseMcp.Wasm

open Rust

section Meaning

variable [Wasmparser]

/-- The statements that are printed for a function. -/
def statements (model : ModuleModel) (func : FunctionEntry) (body : List U8) : List Stmt :=
  Lifted.run model (model.typeOf func).results.length (Wasmparser.operators body) ⟨[], []⟩

/-- Whatever the operators return, leave in the globals and memories, and call with which arguments,
so do the printed statements. -/
def PreservesMeaning (I : Instance) (model : ModuleModel) (func : FunctionEntry) (body : List U8)
    (ops : List Operator) : Prop :=
  ∀ locals world values m,
    Machine.run I (model.typeOf func).results.length ⟨[], locals, world, []⟩ ops =
    some (values, m) →
    ∃ σ, runStmts I (statements model func body) ⟨locals, world, []⟩ = some (values, σ) ∧
      σ.world = m.world ∧ σ.calls = m.calls

/-- The text of straight-line code is that of its statements. -/
lemma render_statements {model : ModuleModel} {index : U32} {func : FunctionEntry} {body : List U8}
    {cfg : StructuredCfg} {ops : List Operator} (hfunc : model.function index = some func)
    (hops : (Wasmparser.operators body).decoded = some ops)
    (hline : ∀ op ∈ ops, op.StraightLine) (hend : .end_ ∈ ops) :
    render model index body cfg = .ok (header model index func ++
      printed model (model.typeOf func).params.length (statements model func body) ++
      "\x7d\n") := by
  have hrun := run_lift model cfg (model.typeOf func).params.length
    (model.typeOf func).results.length (header model index func) ⟨[], []⟩ hops hline hend
  rw [← statements] at hrun
  rw [render, hfunc, ← hrun]
  simp [Lifted.view, printed, texts]

/-- Straight-line code keeps its meaning when everything is printed in time. -/
theorem render_preserves {model : ModuleModel} {index : U32} {func : FunctionEntry} {body : List U8}
    {cfg : StructuredCfg} {ops : List Operator} {I : Instance}
    (hfunc : model.function index = some func)
    (hops : (Wasmparser.operators body).decoded = some ops)
    (hline : ∀ op ∈ ops, op.StraightLine) (hend : .end_ ∈ ops)
    (hprint : Printable model I.arity (model.typeOf func).results.length [] ops) :
    render model index body cfg = .ok (header model index func ++
      printed model (model.typeOf func).params.length (statements model func body) ++ "\x7d\n") ∧
      PreservesMeaning I model func body ops := by
  refine ⟨render_statements hfunc hops hline hend, fun locals world values m hrun => ?_⟩
  have hstart : Renders I ⟨locals, world, []⟩ [] ⟨[], []⟩ ⟨[], locals, world, []⟩ :=
    ⟨[], ⟨locals, world, []⟩, rfl, rfl, rfl, rfl, Gives.nil_iff.mpr rfl, fun p hp => nomatch hp⟩
  exact ⟨m.frame, hstart.run hops hprint hrun, rfl, rfl⟩

/-- Values that are on the stack at the final `end` are lost: a function with results and without
`return` keeps its meaning only if it never gets there. -/
theorem not_preserves_of_end {model : ModuleModel} {func : FunctionEntry} {body : List U8}
    {ops : List Operator} {I : Instance} (hops : (Wasmparser.operators body).decoded = some ops)
    (hreturn : .return_ ∉ ops) (hpreserves : PreservesMeaning I model func body ops)
    {locals : List Value} {world : World} {values : List Value} {m : Machine}
    (hrun : Machine.run I (model.typeOf func).results.length ⟨[], locals, world, []⟩ ops =
      some (values, m)) : values = [] := by
  obtain ⟨σ, hσ, -, -⟩ := hpreserves locals world values m hrun
  exact runStmts_nil_of_ne_ret hσ (Lifted.run_ne_ret model _ hops hreturn (fun s hs => nomatch hs))

end Meaning

/-- An instance whose functions have neither parameters nor results, and do nothing. -/
def Instance.idle : Instance := ⟨fun _ => some (0, 0), fun _ _ w => some ([], w)⟩

/-- A module with one function. -/
def ModuleModel.single (type : FuncType) : ModuleModel :=
  { ModuleModel.empty 1 with types := [type], functions := [⟨0, 0, 0, 0, [], none⟩] }

/-- A sum goes to a local and to a global before it is returned. -/
theorem render_preserves_add :
    letI : Wasmparser := .basic
    let body : List U8 := [0x20, 0, 0x20, 0, 0x6a, 0x22, 0, 0x24, 0, 0x20, 0, 0x0f, 0x0b]
    let model := ModuleModel.single ⟨["i32"], ["i32"]⟩
    ∃ func ops, model.function 0 = some func ∧
      (Wasmparser.operators body).decoded = some ops ∧
      Context.Valid ⟨[.i32], [.i32], [(.i32, true)], [], []⟩ ops ∧
      (render model 0 body .default = .ok (header model 0 func ++
          printed model 1 (statements model func body) ++ "\x7d\n") ∧
        PreservesMeaning Instance.idle model func body ops) ∧
      printed model 1 (statements model func body) =
        "  a0 = (a0 + a0);\n  g0 = a0;\n  return a0;\n" ∧
      ∃ m, Machine.run Instance.idle 1 ⟨[], [.i32 3], ⟨[.i32 0], []⟩, []⟩ ops =
        some ([.i32 6], m) := by
  let _ : Wasmparser := .basic
  intro body model
  refine ⟨_, _, rfl, rfl, by decide, ?_, by decide, _, rfl⟩
  exact render_preserves rfl rfl (by decide) (by decide) (by decide)

/-- Two globals change places, but in the pseudocode they do not. -/
theorem render_loses_swap :
    letI : Wasmparser := .basic
    let body : List U8 := [0x23, 0, 0x23, 1, 0x24, 0, 0x24, 1, 0x0b]
    let model := ModuleModel.single ⟨[], []⟩
    ∃ func ops, model.function 0 = some func ∧
      (Wasmparser.operators body).decoded = some ops ∧
      (∀ op ∈ ops, op.StraightLine) ∧
      Context.Valid ⟨[], [], [(.i32, true), (.i32, true)], [], []⟩ ops ∧
      render model 0 body .default = .ok (header model 0 func ++
        printed model 0 (statements model func body) ++ "\x7d\n") ∧
      printed model 0 (statements model func body) = "  g0 = g1;\n  g1 = g0;\n" ∧
      ¬PreservesMeaning Instance.idle model func body ops := by
  let _ : Wasmparser := .basic
  intro body model
  refine ⟨_, _, rfl, rfl, by decide, by decide, ?_, by decide, fun h => ?_⟩
  · exact render_statements rfl rfl (by decide) (by decide)
  · obtain ⟨σ, hσ, hworld, -⟩ := h [] ⟨[.i32 1, .i32 2], []⟩ _ _ rfl
    cases hσ
    exact absurd hworld (by decide)

end ReverseMcp.Wasm
