import ReverseMcp.Ida.Mock

/-!
# What a mutation of the mock backend does

Every mutating method of the backend ends in `commit`: it needs an open database, moves the
revision by one, reports the new revision, and touches nothing but the content.  `Mutates` says
this once, for all of them; `open_path`, the snapshot stack and the capabilities are framed.
-/

namespace ReverseMcp

open Rust

namespace MockBackend

variable [Host]

/-- `b'` agrees with `b` outside the content. -/
structure SameFrame (b b' : MockBackend) : Prop where
  open_path : b'.open_path = b.open_path
  revision : b'.revision = b.revision
  decompile_off : b'.decompile_off = b.decompile_off
  extra_xrefs : b'.extra_xrefs = b.extra_xrefs
  snapshots : b'.snapshots = b.snapshots

/-- One successful mutation: it leads from `b` to `b'` and reports `out`. -/
structure Mutates (b : MockBackend) (out : MutationOutcome) (b' : MockBackend) : Prop where
  opened : b.open_path.isSome
  open_path : b'.open_path = b.open_path
  bump : (addU64 b.revision 1 : Result U64) = .ok b'.revision
  reported : out.revision_after = b'.revision
  decompile_off : b'.decompile_off = b.decompile_off
  extra_xrefs : b'.extra_xrefs = b.extra_xrefs
  snapshots : b'.snapshots = b.snapshots

omit [Host] in
lemma require_open_eq_ok {b : MockBackend} {u : Unit} :
    b.require_open = .ok u ↔ b.open_path.isSome := by
  rw [require_open]
  split <;> simp_all [fail]

omit [Host] in
lemma require_open_of_isSome {b : MockBackend} (h : b.open_path.isSome) :
    b.require_open = .ok () := by
  simp [require_open, h]

omit [Host] in
@[simp] lemma require_open_returns (b : MockBackend) : b.require_open.Returns := by
  rw [require_open]
  split <;> simp

/-- The shape of a bumped backend. -/
lemma bump_eq_ok {b b' : MockBackend} {r : U64} :
    b.bump = .ok (r, b') ↔
      (addU64 b.revision 1 : Result U64) = .ok r ∧ b' = { b with revision := r } := by
  simp only [bump, Outcome.bind_eq_ok, Outcome.pure_eq, Outcome.ok.injEq, Prod.mk.injEq]
  constructor
  · rintro ⟨a, ha, rfl, rfl⟩
    exact ⟨ha, rfl⟩
  · rintro ⟨ha, rfl⟩
    exact ⟨r, ha, rfl, rfl⟩

/-- The shape of a committed backend. -/
lemma commit_eq_ok {b b' : MockBackend} {detail : Json} {out : MutationOutcome} :
    b.commit detail = .ok (out, b') ↔
      (addU64 b.revision 1 : Result U64) = .ok b'.revision ∧
        b' = { b with revision := b'.revision } ∧ out = ⟨true, b'.revision, detail⟩ := by
  simp only [commit, Outcome.bind_eq_ok, Prod.exists, bump_eq_ok, Outcome.pure_eq,
    Outcome.ok.injEq, Prod.mk.injEq]
  constructor
  · rintro ⟨r, c, ⟨hr, rfl⟩, rfl, rfl⟩
    exact ⟨hr, rfl, rfl⟩
  · rintro ⟨hr, hb, rfl⟩
    exact ⟨b'.revision, b', ⟨hr, hb⟩, rfl, rfl⟩

/-- A mutation is a commit of a backend with new content. -/
lemma Mutates.of_commit {b c b' : MockBackend} {detail : Json} {out : MutationOutcome}
    (ho : b.open_path.isSome) (h : c.commit detail = .ok (out, b')) (hc : SameFrame b c) :
    Mutates b out b' := by
  obtain ⟨hr, hb, rfl⟩ := commit_eq_ok.mp h
  refine ⟨ho, ?_, hc.revision ▸ hr, rfl, ?_, ?_, ?_⟩
  · rw [hb, ← hc.open_path]
  · rw [hb, ← hc.decompile_off]
  · rw [hb, ← hc.extra_xrefs]
  · rw [hb, ← hc.snapshots]

omit [Host] in
lemma SameFrame.rfl {b : MockBackend} : SameFrame b b :=
  ⟨Eq.refl _, Eq.refl _, Eq.refl _, Eq.refl _, Eq.refl _⟩

/-! ## The mutating methods -/

section Methods

variable {b b' : MockBackend} {out : MutationOutcome}

lemma patch_bytes_mutates {ea : U64} {bytes_hex : String}
    (h : b.patch_bytes ea bytes_hex = .ok (out, b')) : Mutates b out b' := by
  simp only [patch_bytes, Outcome.bind_eq_ok, require_open_eq_ok] at h
  obtain ⟨_, ho, h⟩ := h
  split at h
  · exact .of_commit ho h ⟨rfl, rfl, rfl, rfl, rfl⟩
  · cases h
  · cases h

lemma set_comment_mutates {ea : U64} {comment : String} {repeatable : Bool}
    (h : b.set_comment ea comment repeatable = .ok (out, b')) : Mutates b out b' := by
  simp only [set_comment, Outcome.bind_eq_ok, require_open_eq_ok] at h
  obtain ⟨_, ho, h⟩ := h
  exact .of_commit ho h ⟨rfl, rfl, rfl, rfl, rfl⟩

lemma rename_mutates {ea : U64} {new_name : String}
    (h : b.rename ea new_name = .ok (out, b')) : Mutates b out b' := by
  simp only [rename, Outcome.bind_eq_ok, require_open_eq_ok] at h
  obtain ⟨_, ho, h⟩ := h
  split at h
  · cases h
  · exact .of_commit ho h ⟨rfl, rfl, rfl, rfl, rfl⟩

lemma set_type_mutates {ea : U64} {type_decl : String}
    (h : b.set_type ea type_decl = .ok (out, b')) : Mutates b out b' := by
  simp only [set_type, Outcome.bind_eq_ok, require_open_eq_ok] at h
  obtain ⟨_, ho, h⟩ := h
  exact .of_commit ho h .rfl

lemma func_create_mutates {start : U64} {stop : Option U64}
    (h : b.func_create start stop = .ok (out, b')) : Mutates b out b' := by
  simp only [func_create, Outcome.bind_eq_ok, require_open_eq_ok] at h
  obtain ⟨_, ho, h⟩ := h
  exact .of_commit ho h ⟨rfl, rfl, rfl, rfl, rfl⟩

lemma func_delete_mutates {ea : U64} (h : b.func_delete ea = .ok (out, b')) :
    Mutates b out b' := by
  simp only [func_delete, Outcome.bind_eq_ok, require_open_eq_ok] at h
  obtain ⟨_, ho, _, _, h⟩ := h
  exact .of_commit ho h ⟨rfl, rfl, rfl, rfl, rfl⟩

lemma func_resize_mutates {ea : U64} {new_start new_end : Option U64}
    (h : b.func_resize ea new_start new_end = .ok (out, b')) : Mutates b out b' := by
  simp only [func_resize, Outcome.bind_eq_ok, require_open_eq_ok] at h
  obtain ⟨_, ho, _, _, h⟩ := h
  exact .of_commit ho h .rfl

omit [Host] in
lemma function_at_open [Host] {ea : U64} {f : FunctionInfo} (h : b.function_at ea = .ok f) :
    b.open_path.isSome := by
  simp only [function_at, Outcome.bind_eq_ok, require_open_eq_ok] at h
  obtain ⟨_, ho, _⟩ := h
  exact ho

lemma hr_lvar_rename_mutates {ea var_defea : U64} {new_name : String}
    (h : b.hr_lvar_rename ea var_defea new_name = .ok (out, b')) : Mutates b out b' := by
  simp only [hr_lvar_rename, Outcome.bind_eq_ok] at h
  obtain ⟨_, _, f, hf, h⟩ := h
  exact .of_commit (function_at_open hf) h .rfl

lemma deep_apply_prototype_mutates {ea : U64} {decl : String}
    (h : b.deep_apply_prototype ea decl = .ok (out, b')) : Mutates b out b' := by
  simp only [deep_apply_prototype, Outcome.bind_eq_ok, require_open_eq_ok] at h
  obtain ⟨_, ho, _, _, _, _, h⟩ := h
  exact .of_commit ho h .rfl

lemma type_udt_create_mutates {name : String} {fields : List String}
    (h : b.type_udt_create name fields = .ok (out, b')) : Mutates b out b' := by
  simp only [type_udt_create, Outcome.bind_eq_ok, require_open_eq_ok] at h
  obtain ⟨_, ho, _, _, h⟩ := h
  exact .of_commit ho h .rfl

end Methods

/-! ## Snapshots -/

omit [Host] in
/-- `snapshot_create` pushes the current state. -/
lemma snapshot_create_eq_ok {b b' : MockBackend} {v : Json} :
    b.snapshot_create = .ok (v, b') ↔ b.open_path.isSome ∧
      b' = b.pushed ∧
      v = .object [("snapshot", .nat (b.snapshots.length + 1)), ("revision", .u64 b.revision),
        ("rollback", true)] := by
  simp only [snapshot_create, Outcome.bind_eq_ok, require_open_eq_ok, Outcome.pure_eq,
    Outcome.ok.injEq, Prod.mk.injEq, pushed, List.length_cons]
  constructor
  · rintro ⟨_, ho, rfl, rfl⟩
    exact ⟨ho, rfl, rfl⟩
  · rintro ⟨ho, rfl, rfl⟩
    exact ⟨(), ho, rfl, rfl⟩

/-- `snapshot_restore` on an empty stack changes nothing; otherwise it rewinds to the top
snapshot and moves the revision by one. -/
lemma snapshot_restore_eq_ok {b b' : MockBackend} {v : Json}
    (h : b.snapshot_restore = .ok (v, b')) : b.open_path.isSome ∧
      ((b.snapshots = [] ∧ b' = b) ∨
        ∃ snap rest r, b.snapshots = snap :: rest ∧
          (addU64 snap.revision 1 : Result U64) = .ok r ∧
          b' = { b.rewind snap rest with revision := r }) := by
  simp only [snapshot_restore, Outcome.bind_eq_ok, require_open_eq_ok] at h
  obtain ⟨_, ho, h⟩ := h
  refine ⟨ho, ?_⟩
  split at h
  · rename_i snap rest hs
    simp only [Outcome.bind_eq_ok, Prod.exists, bump_eq_ok, Outcome.pure_eq, Outcome.ok.injEq,
      Prod.mk.injEq] at h
    obtain ⟨r, c, ⟨hr, rfl⟩, -, rfl⟩ := h
    exact .inr ⟨snap, rest, r, hs, hr, rfl⟩
  · rename_i hs
    simp only [Outcome.pure_eq, Outcome.ok.injEq, Prod.mk.injEq] at h
    exact .inl ⟨hs, h.2.symm⟩

end MockBackend

end ReverseMcp
