import ReverseMcp.Wasm.Printable

/-!
# Printed statements against operators

Where everything is printed in time, the statements that `render` prints do what the operators do.
`Renders` connects the two while both run: the expressions on the stack whose text is not stale have
the values of the operand stack when they are evaluated now, from the bottom up, and that makes the
calls that are still to be made.
-/

namespace ReverseMcp.Wasm

open Rust

/-! ## Runs -/

/-- The operators up to the one that leaves the function. -/
def Machine.run (I : Instance) (results : ℕ) : Machine → List Operator →
    Option (List Value × Machine)
  | _, [] => none
  | m, op :: ops =>
    match m.exec I results op with
    | some (.next m) => run I results m ops
    | some (.done values m) => some (values, m)
    | none => none

variable {I : Instance}

lemma runStmts_append (ts : List Stmt) {ss : List Stmt} {σ τ : Frame}
    (h : ss.foldlM (Stmt.exec I) σ = some τ) :
    runStmts I (ss ++ ts) σ = runStmts I ts τ := by
  induction ss generalizing σ with
  | nil =>
    cases h
    rfl
  | cons s ss ih =>
    rw [List.foldlM_cons, Option.bind_eq_bind, Option.bind_eq_some_iff] at h
    obtain ⟨ρ, hs, hss⟩ := h
    have hrest := ih hss
    cases s with
    | ret values => cases hs
    | retVoid => cases hs
    | _ => simpa [runStmts, hs] using hrest

/-- Only a `return` with values gives values. -/
lemma runStmts_nil_of_ne_ret {ss : List Stmt} {σ τ : Frame} {values : List Value}
    (h : runStmts I ss σ = some (values, τ)) (hss : ∀ s ∈ ss, ∀ es, s ≠ .ret es) : values = [] := by
  induction ss generalizing σ with
  | nil =>
    cases h
    rfl
  | cons s ss ih =>
    have hrest : ∀ s' ∈ ss, ∀ es, s' ≠ .ret es := fun s' hs' => hss s' (by simp [hs'])
    cases s with
    | ret es => exact absurd rfl (hss (.ret es) (by simp) es)
    | retVoid =>
      cases h
      rfl
    | comment pos => exact ih h hrest
    | _ =>
      obtain ⟨ρ, -, h⟩ := Option.bind_eq_some_iff.mp h
      exact ih h hrest

/-! ## One operator -/

lemma Lifted.pop_of_cons {s : Lifted} {e : Expr} {es : List Expr} (h : s.estack = e :: es)
    (t : String) : s.pop t = (e, { s with estack := es }) := by rw [pop, h]

/-- The statements that have been printed and the machine have come equally far: the expressions
`ps` are on the stack, and `σ` is what the statements have led to. -/
structure Sim (I : Instance) (σ₀ : Frame) (s : Lifted) (m : Machine) (ps : List Pending)
    (σ : Frame) : Prop where
  ran : s.stmts.foldlM (Stmt.exec I) σ₀ = some σ
  estack : s.estack = ps.map Pending.expr
  stack : m.stack = ps.map Pending.value
  gives : Gives I (live ps) σ m.frame
  pure : ∀ p ∈ ps, p.stale = true → p.expr.foot.call = false

/-- The statements that have been printed and the machine have come equally far. -/
def Renders (I : Instance) (σ₀ : Frame) (os : List Operand) (s : Lifted) (m : Machine) : Prop :=
  ∃ ps σ, os = ps.map Pending.operand ∧ Sim I σ₀ s m ps σ

namespace Renders

variable {σ₀ : Frame} {os os' : List Operand} {s : Lifted} {m m' : Machine} {n : ℕ}
  {make : Footprint → Footprint} {stale : Bool}

/-- An operator that makes one expression of `n`. -/
lemma produce (h : Renders I σ₀ os s m) (hos : produce n make stale os = some os') :
    ∃ es rest, s.estack = es ++ rest ∧ es.length = n ∧
      ∀ e v m', e.foot = make (footAll es.reverse) →
        (∀ f, (make f).call = false → f.call = false ∧ m'.frame = m.frame) →
        m'.stack = v :: m.stack.drop n →
        (stale = false → ∀ ρ, evalAll I es.reverse ρ = some ((m.stack.take n).reverse, m.frame) →
          e.eval I ρ = some (v, m'.frame)) →
        Renders I σ₀ os' { s with estack := e :: rest } m' := by
  obtain ⟨ps, σ, rfl, hran, hestack, hstack, hgives, hpure⟩ := h
  simp only [Wasm.produce, ← List.map_take, ← List.map_drop] at hos
  split at hos
  case isTrue => cases hos
  case isFalse hnot =>
    cases hos
    have hlen : n ≤ ps.length := by
      by_contra hlt
      exact hnot (.inl (by simpa using hlt))
    refine ⟨(ps.take n).map Pending.expr, (ps.drop n).map Pending.expr, ?_, by simp [hlen], ?_⟩
    · rw [hestack, ← List.map_append, List.take_append_drop]
    intro e v m' hfoot hframe hstack' heval
    rw [uses_operand] at hnot ⊢
    have hes : ((ps.take n).map Pending.expr).reverse = (ps.take n).reverse.map Pending.expr :=
      List.map_reverse.symm
    have hdepends : e.foot = make (depends (ps.take n).reverse) := by rw [hfoot, hes]; rfl
    have hvs : (m.stack.take n).reverse = (ps.take n).reverse.map Pending.value := by
      rw [hstack, ← List.map_take, List.map_reverse]
    obtain ⟨ρ, hrest, hused⟩ : ∃ ρ, Gives I (live (ps.drop n)) σ ρ ∧
        Gives I (live (ps.take n)) ρ m.frame := by
      rw [← Gives.append_iff, ← live_append, List.take_append_drop]
      exact hgives
    rw [← hdepends] at hnot ⊢
    set st := ((ps.take n).map Pending.operand).any Operand.stale || stale with hst
    refine ⟨⟨e, v, st⟩ :: ps.drop n, σ, rfl, hran, rfl, ?_, ?_, ?_⟩
    · rw [hstack', hstack, ← List.map_drop]
      rfl
    · rw [live_cons]
      cases hs : st with
      | false =>
        -- all of `used` is there, so the new expression has its value
        obtain ⟨hfresh, hstale⟩ := Bool.or_eq_false_iff.mp (hst.symm.trans hs)
        rw [live_of_fresh (fresh_of_any hfresh)] at hused
        have hone : e.eval I ρ = some (v, m'.frame) := by
          refine heval hstale ρ ?_
          rw [hes, hvs]
          exact hused
        exact Gives.append_iff.mpr
          ⟨ρ, hrest, Gives.cons_iff.mpr ⟨m'.frame, hone, Gives.nil_iff.mpr rfl⟩⟩
      | true =>
        have hcall : (make (depends (ps.take n).reverse)).call = false := by
          rw [← hdepends]
          simpa [hs] using fun h => hnot (.inr h)
        obtain ⟨hcall, hframe⟩ := hframe _ hcall
        have hρ : m.frame = ρ := hused.pure <| depends_call_eq_false.mpr fun p hp =>
          depends_call_eq_false.mp hcall p (List.mem_filter.mp hp).1
        simpa [hframe, hρ] using hrest
    · rintro p (_ | ⟨_, hp⟩) hstale
      · change st = true at hstale
        simpa [hstale] using fun h => hnot (.inr h)
      · exact hpure p (List.mem_of_mem_drop hp) hstale

/-- An operator that prints a statement with `n` expressions: these are evaluated first, and then
the ones that wait still have their values. -/
lemma consume {w : Write} (h : Renders I σ₀ os s m) (hos : consume n w os = some os') :
    ∃ es rest, s.estack = es ++ rest ∧ es.length = n ∧
      ∀ stmt m', m'.stack = m.stack.drop n →
        (∀ σ ρ, evalAll I es.reverse σ = some ((m.stack.take n).reverse, ρ) →
          ρ.locals = m.locals → (w.shared = true → ρ = m.frame) →
          ∃ τ, stmt.exec I σ = some τ ∧ w.Follows ρ m.frame τ m'.frame) →
        Renders I σ₀ os' { stmts := s.stmts ++ [stmt], estack := rest } m' := by
  obtain ⟨ps, σ, rfl, hran, hestack, hstack, hgives, hpure⟩ := h
  simp only [Wasm.consume, ← List.map_take, ← List.map_drop] at hos
  split at hos
  case isTrue => cases hos
  case isFalse hnot =>
    cases hos
    obtain ⟨hlen, hfresh, hfree⟩ := not_or.mp hnot |>.imp_right not_or.mp
    rw [uses_operand, Bool.not_eq_true] at hfree
    have hlen : n ≤ ps.length := by simpa using hlen
    have hfree : Free (depends (ps.take n).reverse) w (ps.drop n) := free_of_any hfree
    rw [← List.take_append_drop n ps] at hgives
    obtain ⟨ρ, hused, hrest⟩ :=
      hgives.cross (fresh_of_any (Bool.not_eq_true _ ▸ hfresh)) hfree
    refine ⟨(ps.take n).map Pending.expr, (ps.drop n).map Pending.expr, ?_, by simp [hlen], ?_⟩
    · rw [hestack, ← List.map_append, List.take_append_drop]
    intro stmt m' hstack' hexec
    rw [uses_operand]
    set used := depends (ps.take n).reverse
    set rest := (ps.drop n).map (Pending.cross used w) with hrest_eq
    -- a statement that changes what is shared leaves no call among the expressions that wait
    have hcall : w.shared = true → (depends (live rest)).call = false := by
      intro hw
      refine depends_call_eq_false.mpr fun p hp => ?_
      by_contra hcall
      obtain ⟨-, hw', -⟩ := hfree p (mem_live_cross hp).1 (by simpa using hcall)
      rw [hw] at hw'
      cases hw'
    obtain ⟨τ, hτ, hfollows⟩ := hexec σ ρ
      (by rw [hstack, ← List.map_take, ← List.map_reverse, ← List.map_reverse]; exact hused)
      hrest.locals.symm (fun hw => (hrest.pure (hcall hw)).symm)
    refine ⟨rest, τ, ?_, ?_, ?_, ?_, ?_, ?_⟩
    · simp only [rest, List.map_map]
      rfl
    · rw [List.foldlM_append, hran]
      simpa using hτ
    · simp only [rest, List.map_map]
      rfl
    · rw [hstack', hstack, ← List.map_drop]
      simp only [rest, List.map_map]
      rfl
    · refine hfollows.gives hrest (fun p hp => ?_) hcall
      exact (Bool.or_eq_false_iff.mp (mem_live_cross hp).2).1
    · -- an expression becomes stale only where it does not call
      intro p hp hstale
      obtain ⟨q, hq, rfl⟩ := List.mem_map.mp hp
      by_contra hqcall
      have hqcall : q.expr.foot.call = true := by simpa [Pending.cross] using hqcall
      obtain ⟨hshared, -, htouch⟩ := hfree q hq hqcall
      have hfresh : q.stale = false := by
        by_contra hq'
        have hcall' := hpure q (List.mem_of_mem_drop hq) (by simpa using hq')
        rw [hqcall] at hcall'
        cases hcall'
      simp [Pending.cross, hfresh, Write.moves, htouch, used, Footprint.call_of_shared hshared]
        at hstale

/-- An operator without operands. -/
lemma leaf (h : Renders I σ₀ os s m) {e : Expr} {v : Value}
    (hos : Wasm.produce 0 make false os = some os') (hfoot : e.foot = make .none)
    (hmake : ∀ f, (make f).call = f.call) (heval : e.eval I m.frame = some (v, m.frame)) :
    Renders I σ₀ os' (s.push e) (m.push v) := by
  obtain ⟨es, rest, hstack, hlen, hnext⟩ := h.produce hos
  obtain rfl := List.length_eq_zero_iff.mp hlen
  have hrest : s.push e = { s with estack := e :: rest } := by rw [Lifted.push, hstack]; rfl
  rw [hrest]
  refine hnext e v (m.push v) hfoot (fun f hf => ⟨hmake f ▸ hf, rfl⟩) rfl fun _ ρ hρ => ?_
  cases hρ
  exact heval

/-- An operator with one operand. -/
lemma unary (mk : Expr → Expr) (h : Renders I σ₀ os s m) {x v : Value} {stack : List Value}
    (hos : Wasm.produce 1 make stale os = some os') (hfoot : ∀ a, (mk a).foot = make a.foot)
    (hmake : ∀ f, (make f).call = f.call) (hstack : m.stack = x :: stack)
    (heval : stale = false → ∀ a ρ, a.eval I ρ = some (x, m.frame) →
      (mk a).eval I ρ = some (v, m.frame)) :
    Renders I σ₀ os' ((s.pop "").2.push (mk (s.pop "").1)) { m with stack := v :: stack } := by
  obtain ⟨es, rest, hes, hlen, hnext⟩ := h.produce hos
  obtain ⟨a, rfl⟩ := List.length_eq_one_iff.mp hlen
  rw [Lifted.pop_of_cons hes]
  refine hnext (mk a) v _ ?_ (fun f hf => ⟨hmake f ▸ hf, rfl⟩) (by rw [hstack]; rfl) ?_
  · simpa [footAll] using hfoot a
  · intro hstale ρ hρ
    rw [hstack] at hρ
    exact heval hstale a ρ ((evalAll_one I).mp hρ)

/-- An operator with two operands. -/
lemma binary (h : Renders I σ₀ os s m) {mk : Expr → Expr → Expr} {x y v : Value}
    {stack : List Value} (hos : Wasm.produce 2 id false os = some os')
    (hfoot : ∀ a b, (mk a b).foot = a.foot.union b.foot) (hstack : m.stack = y :: x :: stack)
    (heval : ∀ a b ρ ρ', a.eval I ρ = some (x, ρ') → b.eval I ρ' = some (y, m.frame) →
      (mk a b).eval I ρ = some (v, m.frame)) :
    Renders I σ₀ os' (s.binop mk) { m with stack := v :: stack } := by
  obtain ⟨es, rest, hes, hlen, hnext⟩ := h.produce hos
  obtain ⟨b, a, rfl⟩ := List.length_eq_two.mp hlen
  have hpop : s.binop mk = { s with estack := mk a b :: rest } := by
    obtain ⟨stmts, estack⟩ := s
    cases hes
    rfl
  rw [hpop]
  refine hnext (mk a b) v _ ?_ (fun f hf => ⟨hf, rfl⟩) (by rw [hstack]; rfl) ?_
  · simpa [footAll] using hfoot a b
  · intro _ ρ hρ
    rw [hstack] at hρ
    obtain ⟨ρ', hx, hy⟩ := evalAll_two I hρ
    exact heval a b ρ ρ' hx hy

/-- A load. -/
lemma load {width : Width} {memarg : MemArg} {a v : Value} {stack : List Value}
    (h : Renders I σ₀ os s m)
    (hos : Wasm.produce 1
      (fun f => { f with memory := true }) (memarg.memory.val ≠ 0) os = some os')
    (hstack : m.stack = a :: stack)
    (hload : m.world.load width memarg.memory memarg.offset a = some v) :
    Renders I σ₀ os' (s.load width memarg) { m with stack := v :: stack } := by
  refine h.unary (.load width memarg.offset) hos (fun _ => rfl) (fun _ => rfl) hstack ?_
  intro hzero ea ρ ha
  have hzero : memarg.memory = 0 := Fin.ext (by simpa using hzero)
  have hload : m.frame.world.load width 0 memarg.offset a = some v := hzero ▸ hload
  simp [Expr.eval, ha, hload]

/-- A statement with one operand. -/
lemma print (mk : Expr → Stmt) (h : Renders I σ₀ os s m) {w : Write} {x : Value}
    (hos : Wasm.consume 1 w os = some os') (hstack : m.stack = x :: m'.stack)
    (hexec : ∀ a σ ρ, a.eval I σ = some (x, ρ) → ρ.locals = m.locals →
      (w.shared = true → ρ = m.frame) →
      ∃ τ, (mk a).exec I σ = some τ ∧ w.Follows ρ m.frame τ m'.frame) :
    Renders I σ₀ os' ((s.pop "").2.print (mk (s.pop "").1)) m' := by
  obtain ⟨es, rest, hes, hlen, hnext⟩ := h.consume hos
  obtain ⟨a, rfl⟩ := List.length_eq_one_iff.mp hlen
  rw [Lifted.pop_of_cons hes]
  refine hnext (mk a) m' (by rw [hstack]; rfl) fun σ ρ hρ hlocals hworld => ?_
  rw [hstack] at hρ
  exact hexec a σ ρ ((evalAll_one I).mp hρ) hlocals hworld

/-- A local is written. -/
lemma setLocal {i : U32} {x : Value} (h : Renders I σ₀ os s m)
    (hos : Wasm.consume 1 (.localSet i) os = some os') (hstack : m.stack = x :: m'.stack)
    (hlt : i.val < m.locals.length) (hframe : m'.frame = m.frame.put i.val x) :
    Renders I σ₀ os' (s.localSet i) m' := by
  refine h.print (.localSet i) hos hstack fun a σ ρ ha hlocals _ => ?_
  refine ⟨ρ.put i.val x, ?_, hframe ▸ .put i x ρ m.frame⟩
  have hlt : i.val < ρ.locals.length := by rw [hlocals]; exact hlt
  simp [Stmt.exec, ha, hlt, Frame.put]

/-- A global is written. -/
lemma globalSet {i : U32} {x : Value} {stack : List Value} {world : World}
    (h : Renders I σ₀ os s m) (hos : Wasm.consume 1 (.globalSet i) os = some os')
    (hstack : m.stack = x :: stack) (hset : m.world.setGlobal i x = some world) :
    Renders I σ₀ os' (s.globalSet i) { m with stack, world } := by
  refine h.print (.globalSet i) hos hstack fun a σ ρ ha _ hworld => ?_
  obtain rfl := hworld rfl
  refine ⟨{ m.frame with world }, ?_, .world rfl ?_⟩
  · have hset : m.frame.world.setGlobal i x = some world := hset
    simp [Stmt.exec, ha, hset]
  · exact Write.changes_global hset

/-- A store. -/
lemma store {width : Width} {memarg : MemArg} {x a : Value} {stack : List Value} {world : World}
    (h : Renders I σ₀ os s m) (hos : printStore memarg os = some os')
    (hstack : m.stack = x :: a :: stack)
    (hstore : m.world.store width memarg.memory memarg.offset a x = some world) :
    Renders I σ₀ os' (s.store width memarg) { m with stack, world } := by
  obtain ⟨hzero, hos⟩ : memarg.memory.val = 0 ∧ Wasm.consume 2 .memory os = some os' := by
    simpa [printStore] using hos
  obtain ⟨es, rest, hes, hlen, hnext⟩ := h.consume hos
  obtain ⟨ex, ea, rfl⟩ := List.length_eq_two.mp hlen
  have hpop : s.store width memarg =
      ⟨s.stmts ++ [.store width memarg.offset ea ex], rest⟩ := by
    obtain ⟨stmts, estack⟩ := s
    cases hes
    rfl
  rw [hpop]
  refine hnext _ _ (by rw [hstack]; rfl) fun σ ρ hρ _ hworld => ?_
  obtain rfl := hworld rfl
  rw [hstack] at hρ
  obtain ⟨ρ', ha, hx⟩ := evalAll_two I hρ
  refine ⟨{ m.frame with world }, ?_, .world rfl (Write.changes_memory hstore)⟩
  have hmem : memarg.memory = 0 := Fin.ext hzero
  have hstore : m.frame.world.store width 0 memarg.offset a x = some world := hmem ▸ hstore
  simp [Stmt.exec, ha, hx, hstore]

lemma popArgs_append (es rest : List Expr) (stmts : List Stmt) :
    Lifted.popArgs es.length ⟨stmts, es ++ rest⟩ = (es, ⟨stmts, rest⟩) := by
  induction es with
  | nil => rfl
  | cons e es ih =>
    have hpop : Lifted.pop ⟨stmts, e :: (es ++ rest)⟩ "<arg>" = (e, ⟨stmts, es ++ rest⟩) := rfl
    simp only [List.length_cons, List.cons_append, Lifted.popArgs, hpop, ih]

/-- What is printed for a call whose operands are there. -/
lemma call_append {model : ModuleModel} {f : U32} {es rest : List Expr} {results : ℕ}
    (hknown : model.knownArity f = (es.length, results)) (hes : s.estack = es ++ rest) :
    s.call model f =
      if results = 0 then ⟨s.stmts ++ [.call f es.reverse], rest⟩
      else { s with estack := .call f es.reverse :: rest } := by
  obtain ⟨stmts, estack⟩ := s
  obtain rfl : estack = es ++ rest := hes
  have hargs : ((model.calleeType f).map (·.params.length)).getD 0 = es.length := by
    have hfst : (model.knownArity f).1 = es.length := congrArg Prod.fst hknown
    rw [← hfst, ModuleModel.knownArity]
    cases model.calleeType f <;> rfl
  have hresults : ((model.calleeType f).map fun t => !t.results.isEmpty).getD false =
      !decide (results = 0) := by
    have hsnd : (model.knownArity f).2 = results := congrArg Prod.snd hknown
    rw [← hsnd, ModuleModel.knownArity]
    cases model.calleeType f with
    | none => rfl
    | some t => cases h : t.results <;> simp [h]
  simp only [Lifted.call, hargs, popArgs_append, hresults]
  by_cases h : results = 0
  · simp [h, Lifted.print]
  · simp [h, Lifted.push]

/-- A call. -/
lemma call {model : ModuleModel} {f : U32} (h : Renders I σ₀ os s m)
    (hos : printCall model I.arity f os = some os') (hcall : m.call I f = some m') :
    Renders I σ₀ os' (s.call model f) m' := by
  obtain ⟨params, results, values, world, harity, hle, hinvoke, hlen, rfl⟩ :=
    Machine.call_eq_some.mp hcall
  rw [printCall] at hos
  split at hos
  case isFalse => cases hos
  case isTrue hknown =>
    obtain hknown : (params, results) = model.knownArity f :=
      Option.some.inj (harity.symm.trans hknown)
    rw [← hknown] at hos
    match results, hos with
    -- without a result the call is printed as a statement
    | 0, hos =>
      obtain rfl := List.length_eq_zero_iff.mp hlen
      obtain ⟨es, rest, hes, hlen, hnext⟩ := h.consume hos
      obtain rfl := hlen
      rw [call_append hknown.symm hes, if_pos rfl]
      refine hnext _ _ rfl fun σ ρ hρ _ hworld => ?_
      obtain rfl := hworld rfl
      refine ⟨_, ?_, .world rfl (Write.changes_call (f := f))⟩
      have hinvoke : I.invoke f (m.stack.take es.length).reverse m.frame.world =
        some ([], world) := hinvoke
      simp [Stmt.exec, hρ, Frame.call, hinvoke]
      rfl
    -- with a result it waits as an expression
    | 1, hos =>
      obtain ⟨v, rfl⟩ := List.length_eq_one_iff.mp hlen
      obtain ⟨es, rest, hes, hlen, hnext⟩ := h.produce hos
      obtain rfl := hlen
      rw [call_append hknown.symm hes, if_neg Nat.one_ne_zero]
      refine hnext _ v _ rfl (fun f hf => by cases hf) rfl fun _ ρ hρ => ?_
      have hinvoke : I.invoke f (m.stack.take es.length).reverse m.frame.world =
        some ([v], world) := hinvoke
      simp [Expr.eval, hρ, Frame.call, hinvoke]
      rfl

/-- `drop`: the expression is never evaluated. -/
lemma drop (h : Renders I σ₀ os s m) (hos : discard os = some os') {x : Value} {stack : List Value}
    (hstack : m.stack = x :: stack) : Renders I σ₀ os' (s.pop "").2 { m with stack } := by
  obtain ⟨ps, σ, rfl, hran, hestack, hstack', hgives, hpure⟩ := h
  cases ps with
  | nil => cases hos
  | cons p ps =>
    have hos : (if p.expr.foot.call = true then none else some (ps.map Pending.operand)) =
      some os' := hos
    obtain ⟨hcall, rfl⟩ : p.expr.foot.call = false ∧ ps.map Pending.operand = os' := by
      simpa using hos
    rw [Lifted.pop_of_cons hestack]
    refine ⟨ps, σ, rfl, hran, rfl, ?_, ?_, fun q hq => hpure q (by simp [hq])⟩
    · rw [hstack, List.map_cons] at hstack'
      exact (List.cons.inj hstack').2
    · rw [live_cons, Gives.append_iff] at hgives
      obtain ⟨ρ, hrest, hp⟩ := hgives
      -- it calls nothing, so leaving it out changes nothing
      have hρ : m.frame = ρ := by
        refine hp.pure (depends_call_eq_false.mpr fun q hq => ?_)
        split at hq
        · cases hq
        · obtain rfl := List.mem_singleton.mp hq
          exact hcall
      rw [← hρ] at hrest
      exact hrest

/-- One operator, other than `return` and `end`. -/
theorem operator {model : ModuleModel} {results : ℕ} {op : Operator} {flow : Flow}
    (h : Renders I σ₀ os s m) (pos : U64) (hos : printOperator model I.arity os op = some os')
    (hexec : m.exec I results op = some flow) :
    ∃ m', flow = .next m' ∧ Renders I σ₀ os' (s.operator model results pos op) m' := by
  cases op with
  | i32Const v =>
    cases hexec
    refine ⟨_, rfl, ?_⟩
    exact h.leaf hos rfl (fun _ => rfl) rfl
  | i64Const v =>
    cases hexec
    refine ⟨_, rfl, ?_⟩
    exact h.leaf hos rfl (fun _ => rfl) rfl
  | localGet i =>
    obtain ⟨v, hv, hm⟩ := Machine.localGet_eq_some.mp hexec
    subst hm
    have hv : m.frame.locals[i.val]? = some v := hv
    have hos : Wasm.produce 0 (fun f => { f with locals := [i] }) false os = some os' := hos
    refine ⟨_, rfl, ?_⟩
    exact h.leaf hos rfl (fun _ => rfl) (by simp [Expr.eval, hv])
  | globalGet i =>
    obtain ⟨v, hv, hm⟩ := Machine.globalGet_eq_some.mp hexec
    subst hm
    have hv : m.frame.world.getGlobal i = some v := hv
    have hos : Wasm.produce 0 (fun f => { f with globals := [i] }) false os = some os' := hos
    refine ⟨_, rfl, ?_⟩
    exact h.leaf hos rfl (fun _ => rfl) (by simp [Expr.eval, hv])
  | localSet i =>
    obtain ⟨v, stack, m₁, hstack, hset, hm⟩ := Machine.localSet_eq_some.mp hexec
    subst hm
    obtain ⟨hlt, rfl⟩ := Machine.setLocal_eq_some.mp hset
    refine ⟨_, rfl, ?_⟩
    exact h.setLocal hos hstack hlt rfl
  | localTee i =>
    obtain ⟨v, stack, m₁, hstack, hset, hm⟩ := Machine.localTee_eq_some.mp hexec
    subst hm
    obtain ⟨hlt, rfl⟩ := Machine.setLocal_eq_some.mp hset
    obtain ⟨os₁, hos₁, hos⟩ := Option.bind_eq_some_iff.mp hos
    have hset : Renders I σ₀ os₁ (s.localSet i)
        { m with stack, locals := m.locals.set i.val v } := h.setLocal hos₁ hstack hlt rfl
    have hget := hset.leaf (e := .localGet i) (v := v) hos rfl (fun _ => rfl)
      (by simp [Expr.eval, Machine.frame, hlt])
    rw [Machine.push, ← hstack] at hget
    exact ⟨_, rfl, hget⟩
  | globalSet i =>
    obtain ⟨v, stack, world, hstack, hset, hm⟩ := Machine.globalSet_eq_some.mp hexec
    subst hm
    refine ⟨_, rfl, ?_⟩
    exact h.globalSet hos hstack hset
  | i32Load memarg =>
    obtain ⟨a, stack, v, hstack, hload, hm⟩ := Machine.load_eq_some.mp hexec
    subst hm
    refine ⟨_, rfl, ?_⟩
    exact h.load hos hstack hload
  | i64Load memarg =>
    obtain ⟨a, stack, v, hstack, hload, hm⟩ := Machine.load_eq_some.mp hexec
    subst hm
    refine ⟨_, rfl, ?_⟩
    exact h.load hos hstack hload
  | i32Store memarg =>
    obtain ⟨v, a, stack, world, hstack, hstore, hm⟩ := Machine.store_eq_some.mp hexec
    subst hm
    refine ⟨_, rfl, ?_⟩
    exact h.store hos hstack hstore
  | i64Store memarg =>
    obtain ⟨v, a, stack, world, hstack, hstore, hm⟩ := Machine.store_eq_some.mp hexec
    subst hm
    refine ⟨_, rfl, ?_⟩
    exact h.store hos hstack hstore
  | i32Arith op =>
    obtain ⟨b, a, stack, hstack, hm⟩ := Machine.binary_eq_some.mp hexec
    subst hm
    refine ⟨_, rfl, ?_⟩
    exact h.binary hos (fun _ _ => rfl) hstack fun ea eb ρ ρ' ha hb => by
      simp [Expr.eval, ha, hb, ofI32]
  | i32Compare op =>
    obtain ⟨b, a, stack, hstack, hm⟩ := Machine.binary_eq_some.mp hexec
    subst hm
    refine ⟨_, rfl, ?_⟩
    exact h.binary hos (fun _ _ => rfl) hstack fun ea eb ρ ρ' ha hb => by
      simp [Expr.eval, ha, hb, ofI32]
  | i32Eqz =>
    obtain ⟨a, stack, hstack, hm⟩ := Machine.eqz_eq_some.mp hexec
    subst hm
    refine ⟨_, rfl, ?_⟩
    exact h.unary .eqz hos (fun _ => rfl) (fun _ => rfl) hstack fun _ ea ρ ha => by
      simp [Expr.eval, ha, ofI32]
  | call f =>
    obtain ⟨m₁, hcall, hm⟩ := Option.map_eq_some_iff.mp hexec
    subst hm
    refine ⟨_, rfl, ?_⟩
    exact h.call hos hcall
  | drop =>
    obtain ⟨v, stack, hstack, hm⟩ := Machine.drop_eq_some.mp hexec
    subst hm
    refine ⟨_, rfl, ?_⟩
    exact h.drop hos hstack
  | _ => cases hos

end Renders

/-! ## Whole bodies -/

namespace Lifted

variable (model : ModuleModel) (results : ℕ)

@[simp] lemma pop_stmts (s : Lifted) (t : String) : (s.pop t).2.stmts = s.stmts := by
  obtain ⟨stmts, estack⟩ := s
  cases estack <;> rfl

@[simp] lemma popArgs_stmts (s : Lifted) (n : ℕ) : (popArgs n s).2.stmts = s.stmts := by
  induction n generalizing s with
  | zero => rfl
  | succ n ih => exact (ih _).trans (pop_stmts s _)

/-- An operator prints at most one statement, and only `return` prints one that returns values. -/
lemma operator_stmts (s : Lifted) (pos : U64) (op : Operator) :
    (s.operator model results pos op).stmts = s.stmts ∨
      ∃ stmt, (s.operator model results pos op).stmts = s.stmts ++ [stmt] ∧
        (op ≠ .return_ → ∀ values, stmt ≠ .ret values) := by
  cases op with
  | i32Const | i64Const | localGet | globalGet => exact .inl rfl
  | i32Load | i64Load | i32Eqz | drop => exact .inl (pop_stmts s "")
  | i32Arith | i32Compare => exact .inl ((pop_stmts _ "").trans (pop_stmts s ""))
  | localSet | localTee | globalSet =>
    exact .inr ⟨_, congrArg (· ++ [_]) (pop_stmts s ""), fun _ _ h => by cases h⟩
  | i32Store | i64Store =>
    exact .inr ⟨_, congrArg (· ++ [_]) ((pop_stmts _ "").trans (pop_stmts s "")),
      fun _ _ h => by cases h⟩
  | call f =>
    show (s.call model f).stmts = _ ∨ ∃ stmt, (s.call model f).stmts = _ ∧ _
    simp only [Lifted.call]
    split
    · exact .inl (popArgs_stmts s _)
    · exact .inr ⟨_, congrArg (· ++ [_]) (popArgs_stmts s _), fun _ _ h => by cases h⟩
  | return_ =>
    show (s.ret results).stmts = _ ∨ ∃ stmt, (s.ret results).stmts = _ ∧ _
    rw [Lifted.ret]
    split <;> exact .inr ⟨_, rfl, fun h => absurd rfl h⟩
  | _ => exact .inr ⟨_, rfl, fun _ _ h => by cases h⟩

/-- What has been printed stays printed. -/
lemma run_stmts (r : OperatorsReader) (s : Lifted) : s.stmts <+: run model results r s := by
  induction r generalizing s with
  | eof | failed => exact List.prefix_refl _
  | read pos op rest ih =>
    rw [run]
    split
    · exact List.prefix_refl _
    · refine List.IsPrefix.trans ?_ (ih _)
      obtain h | ⟨stmt, h, -⟩ := operator_stmts model results s pos op
      · exact h ▸ List.prefix_refl _
      · exact h ▸ List.prefix_append _ _

/-- Without `return` no statement returns values. -/
lemma run_ne_ret {r : OperatorsReader} {ops : List Operator} {s : Lifted}
    (hops : r.decoded = some ops) (hreturn : .return_ ∉ ops)
    (hs : ∀ stmt ∈ s.stmts, ∀ values, stmt ≠ .ret values) :
    ∀ stmt ∈ run model results r s, ∀ values, stmt ≠ .ret values := by
  induction r generalizing s ops with
  | eof | failed => exact hs
  | read pos op rest ih =>
    obtain ⟨rest_ops, hrest, rfl⟩ := Option.map_eq_some_iff.mp hops
    obtain ⟨hop, hreturn⟩ := not_or.mp (mt List.mem_cons.mpr hreturn)
    rw [run]
    split
    · exact hs
    · refine ih hrest hreturn ?_
      obtain h | ⟨stmt, h, hstmt⟩ := operator_stmts model results s pos op
      · rw [h]
        exact hs
      · rw [h]
        intro stmt' hmem
        obtain hmem | hmem := List.mem_append.mp hmem
        · exact hs stmt' hmem
        · obtain rfl := List.mem_singleton.mp hmem
          exact hstmt (Ne.symm hop)

end Lifted

namespace Renders

variable {model : ModuleModel} {results : ℕ} {σ₀ : Frame} {os : List Operand} {s : Lifted}
  {m m' : Machine} {values : List Value}

/-- The final `end` of a function without results. -/
lemma exit (h : Renders I σ₀ os s m) (hexec : m.exec I 0 .end_ = some (.done values m')) :
    runStmts I s.stmts σ₀ = some (values, m'.frame) := by
  obtain ⟨ps, σ, rfl, hran, hestack, hstack, hgives, hpure⟩ := h
  have hexec : (if m.stack.length = 0 then m.ret 0 else none) = some (.done values m') := hexec
  split at hexec
  case isFalse => cases hexec
  case isTrue hlen =>
    obtain ⟨-, hdone⟩ := Machine.ret_eq_some.mp hexec
    cases hdone
    have hps : ps = [] := by
      have hlen := congrArg List.length hstack
      simp only [List.length_map] at hlen
      exact List.length_eq_zero_iff.mp (by omega)
    subst hps
    have hσ : m.frame = σ := Gives.nil_iff.mp hgives
    have happend := runStmts_append [] hran
    rw [List.append_nil] at happend
    rw [happend, hσ]
    rfl

/-- `return`. -/
lemma ret {tail : List Stmt} (h : Renders I σ₀ os s m) (hos : printReturn results os)
    (hexec : m.ret results = some (.done values m')) :
    runStmts I ((s.ret results).stmts ++ tail) σ₀ = some (values, m'.frame) := by
  obtain ⟨ps, σ, rfl, hran, hestack, hstack, hgives, hpure⟩ := h
  obtain ⟨hle, hdone⟩ := Machine.ret_eq_some.mp hexec
  cases hdone
  obtain ⟨⟨hone, hfresh⟩, hrest⟩ : (results ≤ 1 ∧
      ((ps.map Pending.operand).take results).any Operand.stale = false) ∧
      (uses ((ps.map Pending.operand).drop results)).call = false := by
    simpa only [printReturn, Bool.and_eq_true, decide_eq_true_eq, Bool.not_eq_true'] using hos
  rw [← List.map_take] at hfresh
  rw [← List.map_drop, uses_operand, depends_call_eq_false] at hrest
  -- what is left on the stack calls nothing, so the values are those of the returned expressions
  have htop : Gives I (ps.take results).reverse σ m.frame := by
    rw [← List.take_append_drop results ps, live_append, live_of_fresh (fresh_of_any hfresh),
      Gives.append_iff] at hgives
    obtain ⟨ρ, hdrop, htake⟩ := hgives
    have hρ : ρ = σ := hdrop.pure <| depends_call_eq_false.mpr fun p hp =>
      hrest p (List.mem_filter.mp hp).1
    exact hρ ▸ htake
  have hstep (stmt : Stmt) : runStmts I (s.stmts ++ [stmt] ++ tail) σ₀ =
      runStmts I (stmt :: tail) σ := by
    rw [List.append_assoc, runStmts_append _ hran]
    rfl
  match results, hone, hle, htop with
  | 0, _, _, htop =>
    have hσ : m.frame = σ := Gives.nil_iff.mp htop
    show runStmts I (s.stmts ++ [.retVoid] ++ tail) σ₀ = _
    rw [hstep, hσ]
    rfl
  | 1, _, hle, htop =>
    cases ps with
    | nil =>
      rw [hstack] at hle
      exact absurd hle (by simp)
    | cons p ps =>
      have hret : (s.ret 1).stmts = s.stmts ++ [.ret [p.expr]] := by
        show s.stmts ++ [.ret (s.estack.take 1)] = _
        rw [hestack]
        rfl
      rw [hret, hstep, hstack]
      exact htop

end Renders

/-- Where everything is printed in time, the printed statements do what the operators do. -/
theorem Renders.run {model : ModuleModel} {results : ℕ} {σ₀ : Frame} {os : List Operand}
    {s : Lifted} {m m' : Machine} {r : OperatorsReader} {ops : List Operator} {values : List Value}
    (h : Renders I σ₀ os s m) (hops : r.decoded = some ops)
    (hprint : Printable model I.arity results os ops)
    (hrun : m.run I results ops = some (values, m')) :
    runStmts I (Lifted.run model results r s) σ₀ = some (values, m'.frame) := by
  induction r generalizing os s m ops with
  | eof position =>
    cases hops
    cases hrun
  | failed position offset message => cases hops
  | read pos op rest ih =>
    obtain ⟨rest_ops, hrest, rfl⟩ := Option.map_eq_some_iff.mp hops
    rw [Printable] at hprint
    rw [Machine.run] at hrun
    rw [Lifted.run]
    -- `end` and `return` leave the loop; every other operator keeps the invariant
    by_cases hend : op = .end_
    · subst hend
      rw [if_pos rfl] at hprint ⊢
      obtain rfl : results = 0 := by simpa using hprint
      split at hrun
      case h_1 hexec => exact absurd hexec (Machine.exec_end_ne_next I 0 m _)
      case h_2 values m' hexec =>
        cases hrun
        exact h.exit hexec
      case h_3 => cases hrun
    · rw [if_neg hend] at hprint ⊢
      by_cases hret : op = .return_
      · subst hret
        rw [if_pos rfl] at hprint
        have hexec : m.exec I results .return_ = m.ret results := rfl
        rw [hexec] at hrun
        split at hrun
        case h_1 hnext => exact absurd (Machine.ret_eq_some.mp hnext).2 (by simp)
        case h_2 values m' hdone =>
          cases hrun
          obtain ⟨tail, htail⟩ := Lifted.run_stmts model results rest
            (s.operator model results pos .return_)
          rw [← htail]
          exact h.ret hprint hdone
        case h_3 => cases hrun
      · rw [if_neg hret] at hprint
        split at hprint
        case h_2 => cases hprint
        case h_1 os' hos =>
          split at hrun
          case h_1 m₁ hnext =>
            obtain ⟨m₂, hm, htracks⟩ := h.operator pos hos hnext
            cases hm
            exact ih htracks hrest hprint hrun
          case h_2 hdone =>
            obtain ⟨m₂, hm, -⟩ := h.operator pos hos hdone
            cases hm
          case h_3 => cases hrun

end ReverseMcp.Wasm
