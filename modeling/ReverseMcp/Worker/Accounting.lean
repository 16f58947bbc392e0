import ReverseMcp.Rust.Hex
import ReverseMcp.Worker.Validation

/-!
# The account of an applied plan

`plan::apply` runs the operations of a plan until one fails, and is to leave three things in step:
its report, the audit trail and the backend (`Accounted`).  An operation that fails before it has
changed anything keeps them so.  Two do not fail: a patch whose hexadecimal text has a character cut
in two by the decoder panics, and a commit at the last revision wraps.  `Safe` says, of the content
and the revision alone, that the plan meets neither (`plan_accounted_iff`).
-/

namespace ReverseMcp

open Rust

/-! ## What is to be accounted for -/

namespace Plan

/-- All operations, one after the other; with what each reports. -/
def execAll [Host] : List PlannedOp → MockBackend → Result (List MutationOutcome × MockBackend)
  | [], b => .ok ([], b)
  | op :: ops, b => do
    let (out, b) ← exec op b
    let (outs, b) ← execAll ops b
    return (out :: outs, b)

/-- The entries of operations, behind `n` others: their positions, kinds and addresses, and
revisions that climb from `rev` on. -/
structure Trail (n : ℕ) (rev : U64) (ops : List PlannedOp) (entries : List AuditEntry) : Prop where
  keys : entries.map (fun e => (e.seq, e.kind, e.ea)) =
    ops.mapIdx fun j op => (n + j, op.kind_name, op.ea)
  above : ∀ e ∈ entries, rev < e.revision_after
  increasing : (entries.map AuditEntry.revision_after).Pairwise (· < ·)

/-- Report, backend and trail after `k` operations, where `i` were applied before. -/
structure Accounted [Host] (i : ℕ) (ops : List PlannedOp) (b : MockBackend)
    (audit : List AuditEntry)
    (v : Json) (b' : MockBackend) (audit' : List AuditEntry) (k : ℕ) : Prop where
  applied : v.idx "applied" = .nat (i + k)
  le : k ≤ ops.length
  ran : ∃ outs, execAll (ops.take k) b = .ok (outs, b')
  trail : ∃ entries, audit' = audit ++ entries ∧
    Trail audit.length b.revision (ops.take k) entries
  revision : b'.revision.val = b.revision.val + k
  partial_ : v.idx "partial" = .bool (decide (k < ops.length))
  failed : ∀ op, ops[k]? = some op → v.idx "failed_at" = .nat (i + k) ∧ ∃ e, exec op b' = .err e

lemma Trail.nil (n : ℕ) (rev : U64) : Trail n rev [] [] := ⟨rfl, by simp, by simp⟩

lemma Trail.length {n : ℕ} {rev : U64} {ops : List PlannedOp} {entries : List AuditEntry}
    (h : Trail n rev ops entries) : entries.length = ops.length := by
  simpa using congrArg List.length h.keys

lemma Trail.cons {n : ℕ} {rev rev' : U64} {op : PlannedOp} {ops : List PlannedOp}
    {entries : List AuditEntry} {detail : Json} (hrev : rev < rev')
    (h : Trail (n + 1) rev' ops entries) :
    Trail n rev (op :: ops) (⟨n, op.kind_name, op.ea, rev', detail⟩ :: entries) := by
  refine ⟨?_, ?_, ?_⟩
  · rw [List.map_cons, h.keys, List.mapIdx_cons]
    refine congrArg₂ _ rfl (List.ext_getElem (by simp) fun j _ _ => ?_)
    simp [Nat.add_assoc, Nat.add_comm 1]
  · rintro e (_ | ⟨_, he⟩)
    · exact hrev
    · exact hrev.trans (h.above e he)
  · rw [List.map_cons, List.pairwise_cons]
    refine ⟨fun r hr => ?_, h.increasing⟩
    obtain ⟨e, he, rfl⟩ := List.mem_map.mp hr
    exact h.above e he

end Plan

/-! ## What an operation meets -/

/-- The decoder of a patch meets no slice that ends inside a character. -/
def PlannedOp.DecodeSafe (op : PlannedOp) : Prop :=
  match op.kind with
  | .patchBytes bytes_hex => HexSafe ((trimChars bytes_hex.toList).filter (· ≠ ' '))
  | _ => True

/-- Along the operations, up to the first without effect, the decoder is safe, and the revision of
each that has an effect can be counted. -/
def Plan.Safe : List PlannedOp → Content → ℕ → Prop
  | [], _, _ => True
  | op :: ops, c, rev =>
    op.DecodeSafe ∧ ∀ c', op.effect c = some c' → rev + 1 < 2 ^ 64 ∧ Plan.Safe ops c' (rev + 1)

/-- A backend with other content. -/
def MockBackend.withContent (b : MockBackend) (c : Content) : MockBackend :=
  { b with names := c.1, comments := c.2.1, bytes := c.2.2 }

namespace Plan

section
variable [Host] {b b' : MockBackend} {op : PlannedOp}

omit [Host] in
lemma hexDecode_panics {cs : List Char} (h : ¬HexSafe cs) :
    ∃ p, MockBackend.hexDecode cs = .panic p := by
  have hlen : byteLen cs % 2 = 0 := by
    by_contra hodd
    exact h fun heven => absurd heven hodd
  -- a text of odd length is refused, so the length is even and the pairs are cut
  rw [← decodePairs_returns_iff hlen] at h
  rw [MockBackend.hexDecode, if_pos hlen]
  cases hpairs : decodePairs cs with
  | ok bs => simp [hpairs] at h
  | err e => simp [hpairs] at h
  | panic p => exact ⟨p, rfl⟩

omit [Host] in
lemma hexDecode_returns {cs : List Char} (h : HexSafe cs) : (MockBackend.hexDecode cs).Returns := by
  rw [MockBackend.hexDecode]
  split
  · rename_i hlen
    have hret := (decodePairs_returns_iff hlen).mpr h
    split
    · simp
    · simp
    · rename_i p hp
      simp [hp] at hret
  · simp

/-- Without a safe decoding there is no return. -/
lemma exec_panics (ho : b.open_path.isSome) (h : ¬op.DecodeSafe) : ∃ p, exec op b = .panic p := by
  obtain ⟨kind, ea⟩ := op
  cases kind with
  | patchBytes bytes_hex =>
    obtain ⟨p, hp⟩ := hexDecode_panics h
    refine ⟨p, ?_⟩
    simp only [exec, MockBackend.patch_bytes, MockBackend.require_open_of_isSome ho,
      Outcome.ok_bind, hp]
  -- only a patch decodes
  | _ => exact absurd trivial h

/-- An operation without effect fails. -/
lemma exec_fails (ho : b.open_path.isSome) (hsafe : op.DecodeSafe)
    (h : op.effect b.content = none) : ∃ e, exec op b = .err e := by
  obtain ⟨kind, ea⟩ := op
  cases kind with
  | rename new_name =>
    have hmem : ea ∉ b.names := fun hea => by simp [PlannedOp.effect, MockBackend.content, hea] at h
    refine ⟨.worker ("no function at " ++ hex ea), ?_⟩
    simp only [exec, MockBackend.rename, MockBackend.require_open_of_isSome ho, Outcome.ok_bind,
      Std.ExtTreeMap.getElem?_eq_none hmem]
    rfl
  | patchBytes bytes_hex =>
    have hret := hexDecode_returns hsafe
    simp only [PlannedOp.effect] at h
    simp only [exec, MockBackend.patch_bytes, MockBackend.require_open_of_isSome ho,
      Outcome.ok_bind]
    split at h
    · cases h
    · cases hdecode : MockBackend.hexDecode ((trimChars bytes_hex.toList).filter (· ≠ ' ')) with
      | ok decoded => simp_all
      | err e => exact ⟨_, rfl⟩
      | panic p =>
        rw [hdecode] at hret
        cases hret
  | funcDelete =>
    have hmem : ea ∉ b.names := fun hea => by simp [PlannedOp.effect, MockBackend.content, hea] at h
    refine ⟨.worker ("no function at " ++ hex ea), ?_⟩
    simp only [exec, MockBackend.func_delete, MockBackend.require_open_of_isSome ho,
      Outcome.ok_bind,
      failIf, Outcome.errIf, if_pos hmem]
    rfl
  -- these have an effect on every database
  | comment comment repeatable => cases h
  | funcCreate stop => cases h
  | setType decl => cases h

/-- An operation commits its effect. -/
lemma exec_commits (ho : b.open_path.isSome) {c : Content} (h : op.effect b.content = some c) :
    ∃ detail, exec op b = (b.withContent c).commit detail := by
  obtain ⟨kind, ea⟩ := op
  cases kind with
  | rename new_name =>
    simp only [PlannedOp.effect] at h
    split at h
    · rename_i hmem
      cases h
      obtain ⟨old, hold⟩ := Option.isSome_iff_exists.mp
        (Std.ExtTreeMap.mem_iff_isSome_getElem?.mp hmem)
      refine ⟨.object [("ea", .u64 ea), ("old", old), ("new", new_name)], ?_⟩
      simp only [exec, MockBackend.rename, MockBackend.require_open_of_isSome ho, Outcome.ok_bind,
        show b.names[ea]? = some old from hold]
      rfl
    · cases h
  | patchBytes bytes_hex =>
    simp only [PlannedOp.effect] at h
    split at h
    · rename_i decoded hdecode
      cases h
      refine ⟨.object [("ea", .u64 ea)], ?_⟩
      simp only [exec, MockBackend.patch_bytes, MockBackend.require_open_of_isSome ho,
        Outcome.ok_bind, hdecode]
      rfl
    · cases h
  | funcDelete =>
    simp only [PlannedOp.effect] at h
    split at h
    · rename_i hmem
      cases h
      refine ⟨.object [("ea", .u64 ea)], ?_⟩
      simp only [exec, MockBackend.func_delete, MockBackend.require_open_of_isSome ho,
        Outcome.ok_bind, failIf, Outcome.errIf, if_neg (not_not.mpr (show ea ∈ b.names from hmem))]
      rfl
    · cases h
  | comment comment repeatable =>
    cases h
    refine ⟨.object [("ea", .u64 ea)], ?_⟩
    simp only [exec, MockBackend.set_comment, MockBackend.require_open_of_isSome ho,
      Outcome.ok_bind]
    rfl
  | funcCreate stop =>
    cases h
    refine ⟨.object [("start", .u64 ea), ("end", .opt (stop.map Json.u64))], ?_⟩
    simp only [exec, MockBackend.func_create, MockBackend.require_open_of_isSome ho,
      Outcome.ok_bind]
    rfl
  | setType decl =>
    cases h
    refine ⟨.object [("ea", .u64 ea), ("applied", decl)], ?_⟩
    simp only [exec, MockBackend.set_type, MockBackend.require_open_of_isSome ho, Outcome.ok_bind]
    rfl

/-- On a closed database every operation fails. -/
lemma exec_closed (ho : ¬b.open_path.isSome) (op : PlannedOp) : ∃ e, exec op b = .err e := by
  have hclosed : b.require_open = fail "no db open" := if_neg ho
  obtain ⟨kind, ea⟩ := op
  refine ⟨.worker "no db open", ?_⟩
  cases kind <;>
    simp only [exec, MockBackend.rename, MockBackend.set_comment, MockBackend.patch_bytes,
      MockBackend.func_create, MockBackend.func_delete, MockBackend.set_type, hclosed] <;> rfl

/-- Below the last revision an operation with an effect counts. -/
lemma exec_counts (ho : b.open_path.isSome) {c : Content} (h : op.effect b.content = some c)
    (hlt : b.revision.val + 1 < 2 ^ 64) :
    ∃ out b₁, exec op b = .ok (out, b₁) ∧ out.revision_after = b₁.revision ∧
      b₁.revision.val = b.revision.val + 1 ∧ b₁.content = c ∧ b₁.open_path = b.open_path := by
  obtain ⟨detail, hexec⟩ := exec_commits ho h
  have hone : (1 : U64).val = 1 := rfl
  have hsum : (addU64 b.revision 1 : Result U64) = .ok ⟨b.revision.val + 1, hlt⟩ :=
    addU64_of_lt (b := (1 : U64)) (by rw [hone]; exact hlt)
  have hcommit : (b.withContent c).commit detail =
      .ok (⟨true, ⟨b.revision.val + 1, hlt⟩, detail⟩,
        { b.withContent c with revision := ⟨b.revision.val + 1, hlt⟩ }) := by
    rw [MockBackend.commit, MockBackend.bump, show (b.withContent c).revision = b.revision from rfl,
      hsum]
    rfl
  exact ⟨_, _, hexec.trans hcommit, rfl, rfl, rfl, rfl⟩

/-! ## One operation, the whole plan -/

variable {i : ℕ} {results : List Json} {ops : List PlannedOp}
  {audit audit' : List AuditEntry} {v : Json}

/-- A plan that stops at its first operation. -/
lemma accounted_of_err {e : Error} (h : exec op b = .err e) :
    ∃ v, applyFrom i results (op :: ops) b audit = .ok (v, b, audit) ∧
      Accounted i (op :: ops) b audit v b audit 0 := by
  refine ⟨_, by rw [applyFrom, h], rfl, Nat.zero_le _, ⟨[], rfl⟩, ⟨[], by simp, .nil _ _⟩,
    rfl, ?_, ?_⟩
  · rw [List.length_cons, decide_eq_true (Nat.succ_pos _)]
    rfl
  · intro op' hop
    cases hop
    exact ⟨rfl, e, h⟩

/-- The account of a plan from that of the rest behind an operation that was applied. -/
lemma Accounted.cons {out : MutationOutcome} {b₁ : MockBackend} {k : ℕ}
    (hexec : exec op b = .ok (out, b₁)) (hout : out.revision_after = b₁.revision)
    (hrev : b₁.revision.val = b.revision.val + 1)
    (h : Accounted (i + 1) ops b₁ (record_audit audit op.kind_name op.ea out) v b' audit' k) :
    Accounted i (op :: ops) b audit v b' audit' (k + 1) := by
  obtain ⟨outs, houts⟩ := h.ran
  obtain ⟨entries, hentries, htrail⟩ := h.trail
  refine ⟨?_, Nat.succ_le_succ h.le, ⟨out :: outs, ?_⟩, ?_, ?_, ?_, fun op' hop => ?_⟩
  · rw [h.applied, Nat.add_right_comm]
    rfl
  · rw [List.take_succ_cons, execAll, hexec, Outcome.ok_bind]
    simp only [houts]
    rfl
  · refine ⟨⟨audit.length, op.kind_name, op.ea, b₁.revision, out.detail⟩ :: entries, ?_, ?_⟩
    · rw [hentries, record_audit, hout, List.append_assoc]
      rfl
    · rw [record_audit, List.length_append] at htrail
      exact htrail.cons (Fin.lt_def.mpr (by omega))
  · rw [h.revision, hrev]
    omega
  · rw [h.partial_, List.length_cons]
    simp
  · have hfailed := h.failed op' (by simpa using hop)
    rw [Nat.add_right_comm] at hfailed
    exact hfailed

/-- Where the plan is safe, the loop ends with its account. -/
lemma accounted_of_safe (ho : b.open_path.isSome) (h : Safe ops b.content b.revision.val) :
    ∃ v b' audit' k, applyFrom i results ops b audit = .ok (v, b', audit') ∧
      Accounted i ops b audit v b' audit' k := by
  induction ops generalizing i results b audit with
  | nil =>
    exact ⟨_, b, audit, 0, rfl, rfl, le_rfl, ⟨[], rfl⟩, ⟨[], by simp, .nil _ _⟩, rfl, rfl, nofun⟩
  | cons op ops ih =>
    obtain ⟨hsafe, hrest⟩ := h
    cases heffect : op.effect b.content with
    -- without effect: the plan stops here
    | none =>
      obtain ⟨e, he⟩ := exec_fails ho hsafe heffect
      obtain ⟨v, hv, hacc⟩ := accounted_of_err he
      exact ⟨v, b, audit, 0, hv, hacc⟩
    -- applied: the account of the rest, one entry and one revision further
    | some c =>
      obtain ⟨hlt, hrest⟩ := hrest c heffect
      obtain ⟨out, b₁, hexec, hout, hrev, rfl, hopen⟩ := exec_counts ho heffect hlt
      obtain ⟨v, b', audit', k, hv, hacc⟩ := ih (hopen ▸ ho) (hrev ▸ hrest)
      refine ⟨v, b', audit', k + 1, ?_, hacc.cons hexec hout hrev⟩
      rw [applyFrom, hexec]
      exact hv

lemma trail_length_le (h : applyFrom i results ops b audit = .ok (v, b', audit')) :
    audit.length ≤ audit'.length := by
  induction ops generalizing i results b audit with
  | nil =>
    cases h
    exact le_rfl
  | cons op ops ih =>
    rw [applyFrom] at h
    split at h
    · refine le_trans ?_ (ih h)
      rw [record_audit, List.length_append]
      exact Nat.le_add_right _ _
    · cases h
      exact le_rfl
    · cases h

/-- A plan that returns, with as many revisions as there are new entries, was safe. -/
lemma safe_of_counted (ho : b.open_path.isSome)
    (h : applyFrom i results ops b audit = .ok (v, b', audit')) {k : ℕ}
    (hk : audit'.length = audit.length + k) (hrev : b'.revision.val = b.revision.val + k) :
    Safe ops b.content b.revision.val := by
  induction ops generalizing i results b audit k with
  | nil => trivial
  | cons op ops ih =>
    -- otherwise the plan would not have returned
    have hsafe : op.DecodeSafe := by
      by_contra hunsafe
      obtain ⟨p, hp⟩ := exec_panics ho hunsafe
      rw [applyFrom, hp] at h
      cases h
    refine ⟨hsafe, fun c heffect => ?_⟩
    rw [applyFrom] at h
    split at h
    · rename_i out b₁ hok
      -- the entries of the rest are at least one fewer, and so are its revisions
      have hlength := trail_length_le h
      rw [record_audit, List.length_append, List.length_singleton] at hlength
      have hlt : b.revision.val + 1 < 2 ^ 64 := by
        have := b'.revision.isLt
        omega
      obtain ⟨out', b₂, hexec, -, hrev₂, rfl, hopen⟩ := exec_counts ho heffect hlt
      rw [hexec] at hok
      cases hok
      obtain ⟨n, rfl⟩ : ∃ n, k = n + 1 := ⟨k - 1, by omega⟩
      refine ⟨hlt, hrev₂ ▸ ih (k := n) (hopen ▸ ho) h ?_ ?_⟩
      · rw [hk, record_audit, List.length_append, List.length_singleton]
        omega
      · omega
    · rename_i e he
      have hagrees := exec_agrees op ho
      rw [he, heffect] at hagrees
      cases hagrees
    · cases h

/-- Whatever the plan, the backend and the trail: `apply` returns with everything accounted for
exactly when the database is closed or the plan is safe. -/
theorem plan_accounted_iff (ops : List PlannedOp) (b : MockBackend) (audit : List AuditEntry) :
    (∃ v b' audit' k, apply ops b audit = .ok (v, b', audit') ∧
        Accounted 0 ops b audit v b' audit' k) ↔
      (b.open_path.isSome → Safe ops b.content b.revision.val) := by
  constructor
  · rintro ⟨v, b', audit', k, h, hacc⟩ ho
    obtain ⟨entries, rfl, htrail⟩ := hacc.trail
    refine safe_of_counted ho h ?_ hacc.revision
    rw [List.length_append, htrail.length, List.length_take_of_le hacc.le]
  · intro h
    -- on a closed database the first operation fails, whatever it is
    by_cases ho : b.open_path.isSome
    · exact accounted_of_safe ho (h ho)
    · cases ops with
      | nil =>
        exact ⟨_, b, audit, 0, rfl, rfl, le_rfl, ⟨[], rfl⟩, ⟨[], by simp, .nil _ _⟩,
          rfl, rfl, nofun⟩
      | cons op ops =>
        obtain ⟨e, he⟩ := exec_closed ho op
        obtain ⟨v, hv, hacc⟩ := accounted_of_err he
        exact ⟨v, b, audit, 0, hv, hacc⟩

end

/-- A patch of `aéb`, four bytes whose second pair starts inside a character, does not return. -/
theorem plan_not_accounted :
    letI : Host := Host.ascii false
    apply [⟨.patchBytes "aéb", 0x401000⟩] { MockBackend.new with open_path := some "t.i64" } [] =
      .panic .boundary := by
  decide

end Plan

end ReverseMcp
