import ReverseMcp.Worker.Effects

/-!
# Snapshot stack discipline

A `snapshot.restore` brings back the content at its own `snapshot.create`, whatever was done in
between, as long as the requests in between pop no more snapshots than they push: the stack below
the snapshot is never touched, and all that a snapshot must bring back is copied into it.
-/

namespace ReverseMcp

open Rust

/-- What a request does to the snapshot stack. -/
inductive StackOp where
  | push
  | pop
  | keep
deriving DecidableEq

/-- What a request does to the snapshot stack of the backend `b`: `snapshot.create` pushes on an
open database, `deob.apply` when it gets as far as its snapshot, and `snapshot.restore` pops
what there is to pop on an open database. -/
def WorkerRequest.stackOp (req : WorkerRequest) (b : MockBackend) : StackOp :=
  match Method.parse req.method with
  | some .snapshotCreate => if b.open_path.isSome then .push else .keep
  | some .deobApply =>
    match req.params.get "plan" with
    | some plan =>
      if Transforms.TakesSnapshot plan ((req.params.get "expected_revision").bind Json.asU64) b
      then .push else .keep
    | none => .keep
  | some .snapshotRestore => if b.open_path.isSome ∧ b.snapshots ≠ [] then .pop else .keep
  | _ => .keep

/-- The stack operations of a run. -/
def stackOps (s : WorkerState) : List (WorkerEvent × WorkerState) → List StackOp
  | [] => []
  | (e, s') :: tr => ((s.backend.map e.req.stackOp).getD .keep) :: stackOps s' tr

/-- No prefix pops more than it pushed, and in the end as much was popped as pushed. -/
structure Balanced (ops : List StackOp) : Prop where
  never_below : ∀ k, (ops.take k).count .pop ≤ (ops.take k).count .push
  totals : ops.count .pop = ops.count .push

instance (ops : List StackOp) : Decidable (Balanced ops) :=
  decidable_of_iff ((∀ k ≤ ops.length, (ops.take k).count .pop ≤ (ops.take k).count .push) ∧
      ops.count .pop = ops.count .push) <| by
    refine ⟨fun h => ⟨fun k => ?_, h.2⟩, fun h => ⟨fun k _ => h.never_below k, h.totals⟩⟩
    by_cases hk : k ≤ ops.length
    · exact h.1 k hk
    · rw [List.take_of_length_le (by omega)]
      exact h.2.le

section Host

variable [Host]

/-! ## One request -/

omit [Host] in
lemma depthAfter_of_mutated {n : ℕ} {es : List BackendEvent}
    (h : ∀ e ∈ es, ∃ out, e = .mutated out) : depthAfter n es = some n := by
  induction es with
  | nil => rfl
  | cons e es ih =>
    obtain ⟨out, rfl⟩ := h e (by simp)
    simpa [depthAfter] using ih fun e he => h e (by simp [he])

lemma plan_depthAfter (n : ℕ) (ops : List PlannedOp) (b : MockBackend) :
    depthAfter n ((Plan.trace ops b).map Prod.fst) = some n := by
  refine depthAfter_of_mutated fun e he => ?_
  obtain ⟨p, hp, rfl⟩ := List.mem_map.mp he
  exact Plan.trace_mutated ops b p hp

omit [Host] in
lemma mutationTrace_depthAfter (n : ℕ) (x : Result (MutationOutcome × MockBackend)) :
    depthAfter n ((mutationTrace x).map Prod.fst) = some n := by
  unfold mutationTrace
  split <;> rfl

/-- A restore that returned did not overflow the revision of the snapshot. -/
lemma restore_bumped {s s' : WorkerState} {e : WorkerEvent} {b : MockBackend}
    {snap : SnapshotState} {rest : List SnapshotState} (h : WorkerStep s e s')
    (hm : Method.parse e.req.method = some .snapshotRestore) (hb : s.backend = some b)
    (ho : b.open_path.isSome) (hs : b.snapshots = snap :: rest) :
    ∃ r, (addU64 snap.revision 1 : Result U64) = .ok r := by
  obtain ⟨t, ht, -⟩ := handle_leaves h
  simp only [dispatch, hm, Method.run, Worker.snapshotRestore_eq] at ht
  have hrestore : ∃ v, b.snapshot_restore = .ok v := by
    obtain ⟨v, hv, -⟩ | ⟨err, herr, -⟩ := Action.transact_leaves ht
    · rw [need_backend_of_some hb, Outcome.ok_bind] at hv
      exact ⟨v, hv⟩
    · rw [need_backend_of_some hb, Outcome.ok_bind] at herr
      simp only [MockBackend.snapshot_restore, MockBackend.require_open_of_isSome ho,
        Outcome.ok_bind, hs, MockBackend.bump, MockBackend.rewind] at herr
      cases hadd : (addU64 snap.revision 1 : Result U64) with
      | ok r => simp [hadd] at herr
      | err e' =>
        rw [addU64] at hadd
        split at hadd <;> cases hadd
      | panic p => simp [hadd] at herr
  obtain ⟨⟨v, b'⟩, hv⟩ := hrestore
  obtain ⟨-, ⟨hnil, -⟩ | ⟨snap', rest', r, hs', hr, -⟩⟩ := MockBackend.snapshot_restore_eq_ok hv
  · simp [hs] at hnil
  · rw [hs] at hs'
    cases hs'
    exact ⟨r, hr⟩

/-- The depth of the stack after a request, as its operation says. -/
lemma depthAfter_trace {s s' : WorkerState} {e : WorkerEvent} {b : MockBackend}
    (h : WorkerStep s e s') (hb : s.backend = some b) (n : ℕ) :
    depthAfter n ((e.req.trace b).map Prod.fst) =
      match e.req.stackOp b with
      | .push => some (n + 1)
      | .pop => if n = 0 then none else some (n - 1)
      | .keep => some n := by
  rw [WorkerRequest.trace, WorkerRequest.stackOp]
  cases hm : Method.parse e.req.method with
  | none => rfl
  | some m =>
    cases m with
    | mutate m => exact mutationTrace_depthAfter n _
    | typesApply => exact mutationTrace_depthAfter n _
    | planApply =>
      simp only [Method.trace]
      split
      · exact plan_depthAfter n _ _
      · rfl
    | deobApply =>
      simp only [Method.trace]
      cases e.req.params.get "plan" with
      | none => rfl
      | some plan =>
        dsimp only
        rw [Transforms.trace]
        split
        · -- the rollback anchor is pushed before the operations, which leave the stack alone
          simp only [List.map_cons, depthAfter]
          split
          · exact plan_depthAfter (n + 1) _ _
          · rfl
        · rfl
    | dbOpen =>
      simp only [Method.trace, Worker.openTrace]
      split <;> rfl
    | dbClose => rfl
    | snapshotCreate =>
      simp only [Method.trace]
      split <;> rfl
    | snapshotRestore =>
      simp only [Method.trace, Worker.popTrace]
      -- a restore pops when the database is open and there is a snapshot
      cases ho : b.open_path with
      | none => rfl
      | some path =>
        cases hs : b.snapshots with
        | nil => rfl
        | cons snap rest =>
          obtain ⟨r, hr⟩ := restore_bumped h hm hb (by rw [ho]; rfl) hs
          cases n with
          | zero => simp [hr, depthAfter]
          | succ n => simp [hr, depthAfter]
    | _ => rfl

/-! ## Whole runs -/

/-- Along a run that stays above `base`, the stack is `base` under as many snapshots as were
pushed and not popped. -/
lemma Run.stack_above {s : WorkerState} {tr : List (WorkerEvent × WorkerState)}
    (h : Run WorkerStep s tr) (hsel : ∀ e ∈ tr, e.1.req.method ≠ "backend.select")
    {b : MockBackend} {top base : List SnapshotState} (hb : s.backend = some b)
    (hstack : b.snapshots = top ++ base)
    (hbelow : ∀ k, ((stackOps s tr).take k).count .pop ≤
      top.length + ((stackOps s tr).take k).count .push) :
    ∃ b' top', (lastOf s tr).backend = some b' ∧ b'.snapshots = top' ++ base ∧
      top'.length + (stackOps s tr).count .pop = top.length + (stackOps s tr).count .push := by
  induction h generalizing b top with
  | nil s => exact ⟨b, top, hb, hstack, rfl⟩
  | @cons s s' e tr hstep _ ih =>
    have hops : stackOps s ((e, s') :: tr) = e.req.stackOp b :: stackOps s' tr := by
      simp [stackOps, hb]
    rw [hops] at hbelow ⊢
    have hb' := ((handle_effect hstep (hsel (e, s') (by simp))).present b hb).1
    -- the depth after the request, and what its operation counts for
    have hdepth : ∃ d, depthAfter top.length ((e.req.trace b).map Prod.fst) = some d ∧
        d + [e.req.stackOp b].count .pop = top.length + [e.req.stackOp b].count .push := by
      have h1 := hbelow 1
      rw [depthAfter_trace hstep hb]
      cases hop : e.req.stackOp b with
      | push => exact ⟨top.length + 1, rfl, by simp⟩
      | pop =>
        have hpos : top.length ≠ 0 := by
          simp [hop] at h1
          omega
        refine ⟨top.length - 1, by simp [hpos], ?_⟩
        simp
        omega
      | keep => exact ⟨top.length, rfl, by simp⟩
    obtain ⟨d, hd, hcount⟩ := hdepth
    obtain ⟨top₁, hs₁, hlen₁⟩ := Run.snapshots_append (e.req.trace_run b) hstack hd
    have hcons : ∀ (op op' : StackOp) (ops : List StackOp),
        (op :: ops).count op' = [op].count op' + ops.count op' := by
      intro op op' ops
      rw [← List.count_append]
      rfl
    obtain ⟨c, top', hc, hs', hlen⟩ := ih (fun p hp => hsel p (by simp [hp])) hb' hs₁ fun k => by
      have hk := hbelow (k + 1)
      rw [List.take_succ_cons, hcons, hcons _ .push] at hk
      omega
    refine ⟨c, top', hc, hs', ?_⟩
    rw [hcons, hcons _ .push]
    omega

/-- `snapshot.create`, then requests that pop as much as they push and never more than they
pushed, then a `snapshot.restore` that finds the database open: the content and the snapshot
stack are those at the beginning. -/
theorem rollback_restores {s s₁ s₂ : WorkerState} {b c : MockBackend} {e₁ e₂ : WorkerEvent}
    {w : List (WorkerEvent × WorkerState)} (hb : s.backend = some b) (ho : b.open_path.isSome)
    (h₁ : WorkerStep s e₁ s₁) (he₁ : e₁.req.method = "snapshot.create")
    (hw : Run WorkerStep s₁ w) (hsel : ∀ e ∈ w, e.1.req.method ≠ "backend.select")
    (hbal : Balanced (stackOps s₁ w)) (hc : (lastOf s₁ w).backend = some c)
    (hco : c.open_path.isSome) (h₂ : WorkerStep (lastOf s₁ w) e₂ s₂)
    (he₂ : e₂.req.method = "snapshot.restore") :
    ∃ b', s₂.backend = some b' ∧ b'.content = b.content ∧ b'.snapshots = b.snapshots := by
  have hm₁ : Method.parse e₁.req.method = some .snapshotCreate := by rw [he₁]; rfl
  have hm₂ : Method.parse e₂.req.method = some .snapshotRestore := by rw [he₂]; rfl
  have hb₁ : s₁.backend = some b.pushed := by
    have heff := ((handle_effect h₁ (by simp [he₁])).present b hb).1
    simpa [WorkerRequest.trace, hm₁, Method.trace, ho] using heff
  -- the requests in between leave the stack as `snapshot.create` left it
  have hpushed : b.pushed.snapshots = [] ++ (b.snapshot :: b.snapshots) := rfl
  obtain ⟨c', top, hc', hstack, hlen⟩ := Run.stack_above hw hsel hb₁ hpushed
    fun k => by simpa using hbal.never_below k
  obtain rfl : c = c' := Option.some.inj (hc.symm.trans hc')
  have htop : top = [] := by
    have htotals := hbal.totals
    simp only [List.length_nil] at hlen
    exact List.length_eq_zero_iff.mp (by omega)
  have hsnaps : c.snapshots = b.snapshot :: b.snapshots := by rw [hstack, htop]; rfl
  obtain ⟨r, hr⟩ := restore_bumped h₂ hm₂ hc hco hsnaps
  obtain ⟨path, hpath⟩ := Option.isSome_iff_exists.mp hco
  have heff := ((handle_effect h₂ (by simp [he₂])).present c hc).1
  refine ⟨{ c.rewind b.snapshot b.snapshots with revision := r }, ?_, rfl, rfl⟩
  simpa [WorkerRequest.trace, hm₂, Method.trace, Worker.popTrace, hpath, hsnaps, hr] using heff

end Host

/-- A nested snapshot with mutations on both levels. -/
theorem rollback_restores_nested :
    let create : WorkerRequest := .call "snapshot.create" []
    let restore : WorkerRequest := .call "snapshot.restore" []
    let s₁ := (@answer (Host.ascii true) .bare create opened).2
    let w := @serve (Host.ascii true) .bare s₁
      [.call "rename" [("ea", "0x401000"), ("name", "a")], create,
        .call "patch_bytes" [("ea", "0x401000"), ("hex", "90")], restore]
    ∃ b', (@answer (Host.ascii true) .bare restore (lastOf s₁ w)).2.backend = some b' ∧
      b'.content = MockBackend.new.content ∧ b'.snapshots = MockBackend.new.snapshots := by
  intro create restore s₁ w
  exact @rollback_restores (Host.ascii true) opened s₁ _
    { MockBackend.new with open_path := some "a.bin" } ((lastOf s₁ w).backend.getD MockBackend.new)
    _ _ w (by decide +kernel) rfl (@workerStep_answer (Host.ascii true) _ _ _ (by decide +kernel))
    rfl (@serve_run (Host.ascii true) _ _ _) (by decide +kernel) (by decide +kernel)
    (by decide +kernel) (by decide +kernel)
    (@workerStep_answer (Host.ascii true) _ _ _ (by decide +kernel)) rfl

end ReverseMcp
