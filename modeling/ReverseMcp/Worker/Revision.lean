import ReverseMcp.Worker.Effects

/-!
# Revision soundness

Clients guard their mutations with the revision they saw, so a revision should stand for one
content.  It does as long as no snapshot is restored: every mutation moves the counter, and
nothing else changes the content.  `snapshot_restore` first rewinds the counter to the
snapshot's and then moves it by one, so it lands on a revision that an earlier mutation may have
used for another content.

`revision_sound` is the exact state of affairs: over a whole run, revisions separate contents if
every restore lands on a revision not used before.
-/

namespace ReverseMcp

open Rust

section Host

variable [Host]

/-- The number of mutations that a request asks for. -/
def WorkerRequest.opCount (req : WorkerRequest) : ℕ :=
  match Method.parse req.method with
  | some (.mutate _) => 1
  | some .typesApply => 1
  | some .planApply => (((req.params.get "operations").bind Json.asArray).getD []).length
  | some .deobApply => (Deep.items ((req.params.get "plan").getD .null) "operations").length
  | _ => 0

omit [Host] in
/-- The snapshot that a request pops: the newest one, when a `snapshot.restore` finds the
database open. -/
def WorkerRequest.pops (req : WorkerRequest) (b : MockBackend) : Option SnapshotState :=
  if req.method = "snapshot.restore" ∧ b.open_path.isSome then b.snapshots.head? else none

/-- The restore of the request, if it is one, lands on a revision not used before, and the
counter does not wrap. -/
def RevisionSafe (s : WorkerState) (e : WorkerEvent) : Prop :=
  ∀ b ∈ s.backend, NoWrap b.revision e.req.opCount ∧
    ∀ snap ∈ e.req.pops b, RestoreOrdered b snap ∧ NoWrap snap.revision 1

omit [Host] in
instance {_ : Host} (s : WorkerState) (e : WorkerEvent) : Decidable (RevisionSafe s e) :=
  inferInstanceAs (Decidable (∀ b ∈ s.backend, _ ∧ ∀ snap ∈ e.req.pops b, _ ∧ _))

omit [Host] in
/-- The revision tells the contents of two worker states apart. -/
def RevisionLater (s s' : WorkerState) : Prop :=
  ∀ b ∈ s.backend, ∃ b' ∈ s'.backend, Later b b'

instance (s s' : WorkerState) : Decidable (RevisionLater s s') :=
  inferInstanceAs (Decidable (∀ b ∈ s.backend, ∃ b' ∈ s'.backend, _))

instance : IsTrans WorkerState RevisionLater := by
  refine ⟨fun s₁ s₂ s₃ h₁ h₂ b hb => ?_⟩
  obtain ⟨c, hc, hbc⟩ := h₁ b hb
  obtain ⟨d, hd, hcd⟩ := h₂ c hc
  exact ⟨d, hd, hbc.trans hcd⟩

/-! ## One request -/

omit [Host] in
lemma parse_operations_length {ops : List Json} {parsed : List PlannedOp}
    (h : Plan.parse_operations ops = .ok parsed) : parsed.length = ops.length := by
  have hlen := Outcome.mapList_length h
  rwa [List.length_zipIdx] at hlen

lemma mutationTrace_later {b : MockBackend} {x : Result (MutationOutcome × MockBackend)}
    (h : ∀ out b', x = .ok (out, b') → b.Mutates out b') (hw : NoWrap b.revision 1) :
    Later b (lastOf b (mutationTrace x)) := by
  refine later_of_mutations (mutationTrace_run h) ?_ (hw.mono ?_)
  · unfold mutationTrace
    split <;> simp
  · unfold mutationTrace
    split <;> simp

lemma plan_later (ops : List PlannedOp) (b : MockBackend) (hw : NoWrap b.revision ops.length) :
    Later b (lastOf b (Plan.trace ops b)) :=
  later_of_mutations (Plan.trace_run ops b) (Plan.trace_mutated ops b)
    (hw.mono (Plan.trace_length_le ops b))

lemma popTrace_later {b : MockBackend} (h : b.open_path.isSome → ∀ snap ∈ b.snapshots.head?,
    RestoreOrdered b snap ∧ NoWrap snap.revision 1) :
    Later b (lastOf b (Worker.popTrace b)) := by
  rw [Worker.popTrace]
  split
  · rename_i path snap rest hp hs
    split
    · rename_i r hr
      have hopen : b.open_path.isSome := by rw [hp]; rfl
      exact (BackendStep.popped hopen hs hr).later (h hopen)
    · exact Std.Refl.refl b
  · exact Std.Refl.refl b

lemma deobTrace_later {plan : Json} {expected_revision : Option U64} {b : MockBackend}
    (hw : NoWrap b.revision (Deep.items plan "operations").length) :
    Later b (lastOf b (Transforms.trace plan expected_revision b)) := by
  rw [Transforms.trace]
  split
  · -- the snapshot changes neither the revision nor the content
    have hpush : Later b b.pushed := .of_eq rfl rfl
    rw [lastOf_cons]
    split
    · rename_i ops hops
      refine hpush.trans (plan_later ops b.pushed ?_)
      rw [parse_operations_length hops]
      exact hw
    · exact hpush
  · exact Std.Refl.refl b

/-- The backend at the end of a request's trace is later than the one it started from. -/
lemma WorkerRequest.trace_later {req : WorkerRequest} {b : MockBackend}
    (hw : NoWrap b.revision req.opCount)
    (hpop : ∀ snap ∈ req.pops b, RestoreOrdered b snap ∧ NoWrap snap.revision 1) :
    Later b (lastOf b (req.trace b)) := by
  rw [trace]
  rw [opCount] at hw
  split
  · rename_i m hm
    rw [hm] at hw
    cases m with
    | mutate m =>
      -- one mutation, one revision
      refine mutationTrace_later (fun out b' h => ?_) hw
      simp only [Outcome.bind_eq_ok, Worker.mutation] at h
      obtain ⟨call, hcall, _, -, op, hop, h⟩ := h
      exact MutateMethod.call_mutates hcall hop h
    | typesApply =>
      exact mutationTrace_later (fun out b' h => Worker.structMutation_mutates h) hw
    | planApply =>
      simp only [Method.trace]
      split
      · rename_i ops hops
        -- as many revisions as the plan has operations
        refine plan_later ops b ?_
        simp only [Worker.planInput, Outcome.bind_eq_ok, array_required, Outcome.ofOption_eq_ok,
          Outcome.pure_eq, Outcome.ok.injEq] at hops
        obtain ⟨ops_json, hjson, parsed, hparsed, _, -, rfl⟩ := hops
        rw [parse_operations_length hparsed]
        simpa [hjson] using hw
      · exact Std.Refl.refl b
    | deobApply =>
      simp only [Method.trace]
      split
      · rename_i plan hplan
        refine deobTrace_later ?_
        simpa [hplan] using hw
      · exact Std.Refl.refl b
    | dbOpen =>
      simp only [Method.trace, Worker.openTrace]
      split
      · exact .of_eq rfl rfl
      · exact Std.Refl.refl b
    | dbClose => exact .of_eq rfl rfl
    | snapshotCreate =>
      simp only [Method.trace]
      split
      · exact .of_eq rfl rfl
      · exact Std.Refl.refl b
    | snapshotRestore =>
      -- a restore rewinds, and the condition is about the snapshot that it pops
      refine popTrace_later fun hopen => ?_
      have hpops : req.pops b = b.snapshots.head? := by
        rw [pops, if_pos ⟨Method.eq_ownName hm rfl, hopen⟩]
      rwa [hpops] at hpop
    | _ => exact Std.Refl.refl b
  · exact Std.Refl.refl b

/-- A request that meets the condition leads to a later state. -/
lemma WorkerStep.revisionLater {s s' : WorkerState} {e : WorkerEvent} (h : WorkerStep s e s')
    (hsafe : RevisionSafe s e) (hsel : e.req.method ≠ "backend.select") : RevisionLater s s' := by
  intro b hb
  obtain ⟨hw, hpop⟩ := hsafe b hb
  have hs' := ((handle_effect h hsel).present b hb).1
  exact ⟨_, hs', WorkerRequest.trace_later hw hpop⟩

/-! ## Whole runs -/

/-- In every run without `backend.select` whose restores land on unused revisions, the revision
never decreases, and two states with different contents have different revisions. -/
theorem revision_sound {s : WorkerState} {tr : List (WorkerEvent × WorkerState)}
    (h : Run WorkerStep s tr) (hsel : ∀ e ∈ tr, e.1.req.method ≠ "backend.select")
    (hsafe : Along RevisionSafe s tr) : (statesOf s tr).Pairwise RevisionLater :=
  h.pairwise (hsafe.and_forall hsel) fun _ _ _ hs hC => hs.revisionLater hC.1 hC.2

end Host

/-- A restore right after its snapshot lands on a new revision. -/
theorem revision_sound_restore_at_once :
    (statesOf opened (@serve (Host.ascii true) .bare opened
      [.call "rename" [("ea", "0x401000"), ("name", "a")], .call "snapshot.create" [],
        .call "snapshot.restore" [],
        .call "rename" [("ea", "0x401000"), ("name", "b")]])).Pairwise RevisionLater :=
  @revision_sound (Host.ascii true) _ _ (@serve_run (Host.ascii true) _ _ _)
    (by decide +kernel) (by decide +kernel)

/-- Snapshot, two renames, restore: the revision goes from 2 back to 1, which stood for the
content after the first rename. -/
theorem revision_not_sound :
    ∃ tr, @Run _ _ (@WorkerStep (Host.ascii true)) opened tr ∧
      (∀ e ∈ tr, e.1.req.method ≠ "backend.select") ∧
      ¬ (statesOf opened tr).Pairwise RevisionLater := by
  refine ⟨@serve (Host.ascii true) .bare opened
    [.call "snapshot.create" [], .call "rename" [("ea", "0x401000"), ("name", "a")],
      .call "rename" [("ea", "0x401000"), ("name", "b")], .call "snapshot.restore" []],
    @serve_run (Host.ascii true) _ _ _, by decide +kernel, by decide +kernel⟩

end ReverseMcp
