import ReverseMcp.Worker.Effects

/-!
# Validated plans

`transforms::validate` checks that a plan patches bytes of its target function that nothing
refers to; the note of a proposal says that this is checked again at apply time.
`transforms::apply` does not do so: it goes from the revision guard to the snapshot and on to the
plan.

The content that a plan leaves is `netEffect`, a function of its operations and of the content
alone.  `apply_validated_iff` says that `apply` changes content only under a valid plan, exactly
when the plan is valid or its net effect is nil.
-/

namespace ReverseMcp

open Rust

/-- What an operation does to the content; nothing when it fails. -/
def PlannedOp.effect (op : PlannedOp) (c : Content) : Option Content :=
  match op.kind with
  | .rename new_name =>
    if op.ea ∈ c.1 then some (c.1.insert op.ea new_name, c.2.1, c.2.2) else none
  | .comment comment repeatable =>
    some (c.1, c.2.1.insert (op.ea, repeatable) comment, c.2.2)
  | .patchBytes bytes_hex =>
    match MockBackend.hexDecode ((trimChars bytes_hex.toList).filter (· ≠ ' ')) with
    | .ok decoded => some (c.1, c.2.1, c.2.2.insert op.ea decoded)
    | _ => none
  | .funcCreate _ => some (c.1.insertIfNew op.ea ("sub_" ++ hexText op.ea.val), c.2.1, c.2.2)
  | .funcDelete => if op.ea ∈ c.1 then some (c.1.erase op.ea, c.2.1, c.2.2) else none
  | .setType _ => some c

/-- What the operations of a plan do to the content, up to the first that fails. -/
def netEffect : List PlannedOp → Content → Content
  | [], c => c
  | op :: ops, c =>
    match op.effect c with
    | some c' => netEffect ops c'
    | none => c

section Host

variable [Host]

/-- `validate` accepts the plan. -/
def validated (b : MockBackend) (plan : Json) : Bool :=
  match Transforms.validate b plan with
  | .ok v => v.idx "valid" = true
  | _ => false

/-- How the outcome of an operation relates to its effect. -/
def Agrees (effect : Option Content) : Result (MutationOutcome × MockBackend) → Prop
  | .ok (_, b') => effect = some b'.content
  | .err _ => effect = none
  | .panic _ => True

/-- A commit keeps the content, and does not fail. -/
lemma commit_agrees (b : MockBackend) (detail : Json) :
    Agrees (some b.content) (b.commit detail) := by
  cases h : b.commit detail with
  | ok r =>
    obtain ⟨out, b'⟩ := r
    obtain ⟨-, hb, -⟩ := MockBackend.commit_eq_ok.mp h
    show some b.content = some b'.content
    rw [hb]
    rfl
  | err e =>
    simp only [MockBackend.commit, MockBackend.bump, addU64] at h
    split at h <;> simp at h
  | panic p => trivial

/-- On an open database an operation has its effect, or fails when it has none. -/
lemma exec_agrees (op : PlannedOp) {b : MockBackend} (ho : b.open_path.isSome) :
    Agrees (op.effect b.content) (Plan.exec op b) := by
  obtain ⟨kind, ea⟩ := op
  cases kind with
  | rename new_name =>
    simp only [Plan.exec, MockBackend.rename, MockBackend.require_open_of_isSome ho,
      Outcome.ok_bind, PlannedOp.effect, Std.ExtTreeMap.mem_iff_isSome_getElem?,
      MockBackend.content]
    cases b.names[ea]? with
    | none => rfl
    | some old => exact commit_agrees _ _
  | comment comment repeatable =>
    simp only [Plan.exec, MockBackend.set_comment, MockBackend.require_open_of_isSome ho,
      Outcome.ok_bind, PlannedOp.effect]
    exact commit_agrees _ _
  | patchBytes bytes_hex =>
    simp only [Plan.exec, MockBackend.patch_bytes, MockBackend.require_open_of_isSome ho,
      Outcome.ok_bind, PlannedOp.effect]
    cases MockBackend.hexDecode ((trimChars bytes_hex.toList).filter (· ≠ ' ')) with
    | ok decoded => exact commit_agrees _ _
    | err e => rfl
    | panic p => trivial
  | funcCreate stop =>
    simp only [Plan.exec, MockBackend.func_create, MockBackend.require_open_of_isSome ho,
      Outcome.ok_bind, PlannedOp.effect]
    exact commit_agrees _ _
  | funcDelete =>
    simp only [Plan.exec, MockBackend.func_delete, MockBackend.require_open_of_isSome ho,
      Outcome.ok_bind, PlannedOp.effect, MockBackend.content, failIf, Outcome.errIf]
    by_cases hmem : ea ∈ b.names
    · simp only [hmem, not_true_eq_false, if_false, Outcome.ok_bind, if_true]
      exact commit_agrees _ _
    · simp [hmem, Agrees]
  | setType decl =>
    simp only [Plan.exec, MockBackend.set_type, MockBackend.require_open_of_isSome ho,
      Outcome.ok_bind, PlannedOp.effect]
    exact commit_agrees _ _

/-- A plan that returns leaves its net effect. -/
lemma applyFrom_content {i : ℕ} {results : List Json} {ops : List PlannedOp} {b : MockBackend}
    {audit : List AuditEntry} {r : Json × MockBackend × List AuditEntry}
    (ho : b.open_path.isSome) (h : Plan.applyFrom i results ops b audit = .ok r) :
    r.2.1.content = netEffect ops b.content := by
  induction ops generalizing i results b audit with
  | nil =>
    cases h
    rfl
  | cons op ops ih =>
    have hagrees := exec_agrees op ho
    rw [Plan.applyFrom] at h
    rw [netEffect]
    cases hx : Plan.exec op b with
    | ok q =>
      obtain ⟨out, b'⟩ := q
      rw [hx] at h hagrees
      rw [show op.effect b.content = some b'.content from hagrees]
      exact ih ((Plan.exec_mutates hx).open_path ▸ ho) h
    | err e =>
      rw [hx] at h hagrees
      cases h
      rw [show op.effect b.content = none from hagrees]
    | panic p =>
      rw [hx] at h
      cases h

/-! ## Application -/

omit [Host] in
/-- The plan gets as far as its snapshot, its operations parse, and their net effect on the
content is not nil. -/
def ChangesContent (plan : Json) (expected_revision : Option U64) (b : MockBackend) : Prop :=
  Transforms.TakesSnapshot plan expected_revision b ∧
    ∃ ops, Plan.parse_operations (Deep.items plan "operations") = .ok ops ∧
      netEffect ops b.content ≠ b.content

/-- What a call of `apply` that returns does to the content. -/
lemma apply_content_iff {plan : Json} {expected_revision : Option U64} {s s' : WorkerState}
    {b : MockBackend} (hb : s.backend = some b)
    (h : (Transforms.apply plan expected_revision s).Leaves s') :
    s'.backend.map MockBackend.content ≠ s.backend.map MockBackend.content ↔
      ChangesContent plan expected_revision b := by
  by_cases ht : Transforms.TakesSnapshot plan expected_revision b
  · obtain ⟨target, snapshot, happly⟩ := Transforms.apply_of_takesSnapshot hb ht
    rw [happly] at h
    obtain ⟨e, he, rfl⟩ | ⟨ops, r, hops, hr, rfl⟩ := Transforms.applyPushed_leaves h
    · simp [ChangesContent, hb, he, MockBackend.pushed, MockBackend.content]
    · have hcontent := applyFrom_content (b := b.pushed) ht.2.2.2 hr
      have hpushed : b.pushed.content = b.content := rfl
      simp [ChangesContent, ht, hops, hb, hcontent, hpushed]
  · obtain ⟨e, he⟩ := Transforms.apply_of_not_takesSnapshot hb ht
    rw [he] at h
    have hs : s = s' := h
    simp [ChangesContent, ht, hs]

/-- Whatever the state and the plan, a call of `apply` that returns changes content only if
`validate` had accepted the plan, iff the plan is valid or its net effect is nil. -/
theorem apply_validated_iff {plan : Json} {expected_revision : Option U64} {s s' : WorkerState}
    {b : MockBackend} (hb : s.backend = some b)
    (h : (Transforms.apply plan expected_revision s).Leaves s') :
    (s'.backend.map MockBackend.content ≠ s.backend.map MockBackend.content →
        validated b plan) ↔
      (validated b plan ∨ ¬ ChangesContent plan expected_revision b) := by
  rw [apply_content_iff hb h]
  tauto

end Host

/-- A plan for `main` with one patch. -/
def patchPlan (ea : String) : Json :=
  .object [("kind", "T2_junk_removal"), ("target", "0x401000"), ("operations", .array [
    .object [("kind", "patch_bytes"), ("ea", .string ea), ("hex", "90")]])]

/-- The state that an application of the plan leaves. -/
def patched (ea : String) : WorkerState :=
  (@Transforms.apply (Host.ascii true) (patchPlan ea) none opened).state?.getD opened

/-- A patch of the bytes of `main` is valid, and changes them. -/
theorem apply_validated_inside :
    (patched "0x401000").backend.map MockBackend.content ≠
      opened.backend.map MockBackend.content ∧
    @validated (Host.ascii true) { MockBackend.new with open_path := some "a.bin" }
      (patchPlan "0x401000") := by
  have hchanged : (patched "0x401000").backend.map MockBackend.content ≠
      opened.backend.map MockBackend.content := by decide +kernel
  refine ⟨hchanged, ?_⟩
  exact (@apply_validated_iff (Host.ascii true) _ _ opened (patched "0x401000") _
    (by decide +kernel) (Reply.leaves_getD (by decide +kernel) _)).mpr
      (.inl (by decide +kernel)) hchanged

/-- A patch outside of `main` is rejected by `validate` and written by `apply`. -/
theorem apply_not_validated :
    ∃ b, opened.backend = some b ∧
      (@Transforms.apply (Host.ascii true) (patchPlan "0x402000") none opened).Leaves
        (patched "0x402000") ∧
      (patched "0x402000").backend.map MockBackend.content ≠
        opened.backend.map MockBackend.content ∧
      ¬ @validated (Host.ascii true) b (patchPlan "0x402000") :=
  ⟨{ MockBackend.new with open_path := some "a.bin" }, by decide +kernel,
    Reply.leaves_getD (by decide +kernel) _, by decide +kernel, by decide +kernel⟩

end ReverseMcp
