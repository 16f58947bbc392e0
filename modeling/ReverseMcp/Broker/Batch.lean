import ReverseMcp.Worker.Effects
import ReverseMcp.Broker.OpenDbs

/-!
# What a batch does to the databases

`ida_batch` runs seventeen tools by name.  Thirteen of them only read; `ida_bytes`, `ida_types`,
`ida_func` and `ida_hr` also have actions that mutate, and the batch passes these on.  An operation
changes a database exactly when it is such a mutation and its worker accepts it
(`run_named_effect`), and a batch changes one exactly when one of its operations does
(`batch_read_only_iff`): the audit trail of a worker only grows.
-/

namespace ReverseMcp.Tools

open Rust Rust.Action

/-! ## Databases -/

/-- The content of a database with its function set, snapshot stack and revision, and the audit
trail of its worker. -/
def Session.contents (s : Session) :
    Option (AddrMap String × CommentMap × AddrMap (List U8) × List SnapshotState × U64) ×
      List AuditEntry :=
  (s.worker.backend.map fun b => (b.names, b.comments, b.bytes, b.snapshots, b.revision),
    s.worker.audit)

/-- The open databases by their handles. -/
def Broker.databases (b : Broker) := b.sessions.map fun e => (e.1, e.2.contents)

/-- Every database is as before. -/
def SameDatabases (b b' : Broker) : Prop := b'.databases = b.databases

instance : Std.Refl SameDatabases := ⟨fun _ => rfl⟩

instance : IsTrans Broker SameDatabases := ⟨fun _ _ _ h₁ h₂ => h₂.trans h₁⟩

lemma contents_of_same {s s' : Session} (h : SameBackend s.worker s'.worker) :
    s'.contents = s.contents := by
  rw [Session.contents, Session.contents, h.1, h.2]

/-- The length of the audit trail at a position. -/
def Broker.recorded (b : Broker) (j : ℕ) : ℕ := (b.databases[j]?.map fun d => d.2.2.length).getD 0

/-- No audit trail has become shorter. -/
def Recording (b b' : Broker) : Prop := ∀ j, b.recorded j ≤ b'.recorded j

lemma SameDatabases.recording {b b' : Broker} (h : SameDatabases b b') : Recording b b' := by
  intro j
  rw [Broker.recorded, Broker.recorded, h]

/-- What happened recorded a mutation if `P`, and left the databases as they were if not. -/
structure Effect (P : Prop) (b b' : Broker) : Prop where
  recording : Recording b b'
  records : P → ∃ j, b.recorded j < b'.recorded j
  quiet : ¬ P → SameDatabases b b'

namespace Effect

variable {P Q : Prop} {b b' b'' : Broker}

lemma of_same (h : SameDatabases b b') (hP : ¬ P) : Effect P b b' :=
  ⟨h.recording, fun hp => absurd hp hP, fun _ => h⟩

lemma of_records (h : Recording b b') {j : ℕ} (hj : b.recorded j < b'.recorded j) (hP : P) :
    Effect P b b' :=
  ⟨h, fun _ => ⟨j, hj⟩, fun hnot => absurd hP hnot⟩

lemma trans (h : Effect P b b') (h' : Effect Q b' b'') : Effect (P ∨ Q) b b'' where
  recording := fun j => (h.recording j).trans (h'.recording j)
  records := by
    rintro (hp | hq)
    · obtain ⟨j, hj⟩ := h.records hp
      exact ⟨j, hj.trans_le (h'.recording j)⟩
    · obtain ⟨j, hj⟩ := h'.records hq
      exact ⟨j, (h.recording j).trans_lt hj⟩
  quiet := by
    intro hnot
    rw [not_or] at hnot
    exact (h'.quiet hnot.2).trans (h.quiet hnot.1)

lemma same_iff (h : Effect P b b') : SameDatabases b b' ↔ ¬ P := by
  refine ⟨fun hsame hp => ?_, h.quiet⟩
  obtain ⟨j, hj⟩ := h.records hp
  rw [Broker.recorded, Broker.recorded, hsame] at hj
  exact lt_irrefl _ hj

end Effect

section Sessions

variable {b : Broker} {db : String} {s s' : Session}

/-- Where a handle is first found. -/
def Broker.position (b : Broker) (db : String) : ℕ := b.sessions.findIdx fun e => e.1 = db

lemma databases_position (h : b.session db = some s) :
    b.databases[b.position db]? = some (db, s.contents) := by
  obtain ⟨e, he, rfl⟩ := Option.map_eq_some_iff.mp h
  have hdb : e.1 = db := by simpa using List.find?_some he
  rw [Broker.databases, List.getElem?_map, Broker.position, ← List.find?_eq_getElem?_findIdx, he,
    ← hdb]
  rfl

lemma databases_setSession (b : Broker) (db : String) (s' : Session) :
    (b.setSession db s').databases = b.databases.set (b.position db) (db, s'.contents) := by
  rw [Broker.databases, Broker.setSession, Broker.databases, List.map_set, Broker.position]

/-- A session in a new state with the contents it had. -/
lemma setSession_same (h : b.session db = some s) (hs : s'.contents = s.contents) :
    SameDatabases b (b.setSession db s') := by
  obtain ⟨hlt, hget⟩ := List.getElem?_eq_some_iff.mp (databases_position h)
  rw [SameDatabases, databases_setSession, hs, ← hget, List.set_getElem_self]

/-- A session in a new state with a longer audit trail. -/
lemma setSession_records (h : b.session db = some s)
    (hs : s.worker.audit.length < s'.worker.audit.length) :
    Recording b (b.setSession db s') ∧
      b.recorded (b.position db) < (b.setSession db s').recorded (b.position db) := by
  have hget := databases_position h
  obtain ⟨hlt, -⟩ := List.getElem?_eq_some_iff.mp hget
  have hold : b.recorded (b.position db) = s.worker.audit.length := by
    rw [Broker.recorded, hget]
    rfl
  have hnew : (b.setSession db s').recorded (b.position db) = s'.worker.audit.length := by
    rw [Broker.recorded, databases_setSession, List.getElem?_set_self hlt]
    rfl
  have hmore : b.recorded (b.position db) < (b.setSession db s').recorded (b.position db) := by
    rw [hold, hnew]
    exact hs
  refine ⟨fun j => ?_, hmore⟩
  by_cases hj : j = b.position db
  · subst hj
    exact hmore.le
  · refine le_of_eq ?_
    rw [Broker.recorded, Broker.recorded, databases_setSession, List.getElem?_set_ne (Ne.symm hj)]

end Sessions

/-! ## Calls -/

variable [Host]

section Calls

variable {env : Env} {b b' : Broker} {db method : String} {params : List (String × Json)}

/-- The worker answers calls. -/
def Session.Live (s : Session) : Prop := s.session.tx = true ∧ s.pumping = true

/-- What a call does: without a session or a live worker nothing, otherwise what the worker does;
a worker that panics is gone with what it was about to do. -/
inductive CallEffect (env : Env) (db method : String) (params : List (String × Json))
    (b b' : Broker) : Prop
  | absent (hs : b.session db = none) (h : b' = b)
  | lost (s s' : Session) (hs : b.session db = some s) (hworker : s'.worker = s.worker)
      (hlost : s.Live → ∃ p, handle env ⟨0, method, .object params⟩ s.worker = .error p)
      (h : b' = b.setSession db s')
  | handled (s s' : Session) (resp : ReverseMcp.WorkerResponse) (hs : b.session db = some s)
      (hlive : s.Live)
      (hh : handle env ⟨0, method, .object params⟩ s.worker = .ok (resp, s'.worker))
      (h : b' = b.setSession db s')

omit [Host] in
lemma response_result_ne_panic (r : Protocol.WorkerResponse) (p : Panic) :
    response_result r ≠ .panic p := by
  rw [response_result]
  split
  · simp
  · split <;> simp [fail]

/-- The session behind a call, and that the call returns. -/
lemma Session.call_cases (env : Env) (method : String) (params : Json) (s : Session) :
    ∃ result s', s.call env method params = (result, s') ∧ (∀ p, result ≠ .panic p) ∧
      ((s'.worker = s.worker ∧ (s.Live → ∃ p, handle env ⟨0, method, params⟩ s.worker = .error p)) ∨
        (s.Live ∧ ∃ resp, handle env ⟨0, method, params⟩ s.worker = .ok (resp, s'.worker))) := by
  rw [Session.call]
  split
  · rename_i htx
    refine ⟨_, s, rfl, by simp [fail], .inl ⟨rfl, fun hlive => ?_⟩⟩
    rw [hlive.1] at htx
    cases htx
  · rename_i htx
    split
    · rename_i hpump
      refine ⟨_, s, rfl, by simp [fail], .inl ⟨rfl, fun hlive => ?_⟩⟩
      rw [hlive.2] at hpump
      cases hpump
    · rename_i hpump
      have hlive : s.Live := ⟨by simpa using htx, by simpa using hpump⟩
      split
      · rename_i resp worker hh
        exact ⟨_, _, rfl, response_result_ne_panic _, .inr ⟨hlive, resp, hh⟩⟩
      · rename_i p hh
        exact ⟨_, _, rfl, by simp [fail], .inl ⟨rfl, fun _ => ⟨p, hh⟩⟩⟩

lemma call_effect (env : Env) (db method : String) (params : List (String × Json)) (b : Broker) :
    ∃ b', (call env db method params b).Leaves b' ∧ CallEffect env db method params b b' := by
  cases hs : b.session db with
  | none => exact ⟨b, by simp [call, hs, Reply.Leaves], .absent hs rfl⟩
  | some s =>
    obtain ⟨result, s', hcall, hne, hcases⟩ := s.call_cases env method (.object params)
    refine ⟨b.setSession db s', ?_, ?_⟩
    · simp only [call, hs, hcall]
      cases result with
      | ok v => rfl
      | err e => rfl
      | panic p => exact absurd rfl (hne p)
    · rcases hcases with ⟨hworker, hlost⟩ | ⟨hlive, resp, hh⟩
      · exact .lost s s' hs hworker hlost rfl
      · exact .handled s s' resp hs hlive hh rfl

/-- What a call leaves is its effect. -/
lemma CallEffect.of_leaves (h : (call env db method params b).Leaves b') :
    CallEffect env db method params b b' := by
  obtain ⟨b₁, hleaves, heffect⟩ := call_effect env db method params b
  obtain rfl := Reply.leaves_unique h hleaves
  exact heffect

/-- A method that reads leaves all databases. -/
lemma call_reads {m : Method} (hm : Method.parse method = some m) (hreads : m.reads = true) :
    Keeps SameDatabases (call env db method params) := by
  intro b b' h
  cases CallEffect.of_leaves h with
  | absent hs h => exact h ▸ rfl
  | lost s s' hs hworker hlost h =>
    subst h
    exact setSession_same hs (contents_of_same ⟨congrArg _ hworker, congrArg _ hworker⟩)
  | handled s s' resp hs hlive hh h =>
    subst h
    refine setSession_same hs (contents_of_same ?_)
    obtain ⟨t, ht, hs'⟩ := handle_leaves hh
    simp only [dispatch, hm] at ht
    have hsame := Method.run_keeps env (.object params) hreads s.worker t ht
    rcases hs' with hs' | hs'
    · rw [hs']
      exact hsame
    · rw [hs']
      exact hsame

end Calls

/-! ## The tools that read -/

section Reads

variable {env : Env} {args : Json}

omit [Host] in
lemma reject_reads {α : Type} (code message : String) :
    Keeps SameDatabases (reject code message : Tool α) := by
  rw [reject]
  exact .lift _

omit [Host] in
lemma resolve_db_reads (db : Option String) : Keeps SameDatabases (resolve_db db) := by
  rw [resolve_db]
  refine Keeps.get.bind fun b => ?_
  split
  · split
    · exact .pure _
    · exact reject_reads _ _
  · split
    · exact .pure _
    · exact reject_reads _ _
  · exact reject_reads _ _
  · exact reject_reads _ _

omit [Host] in
lemma orReject_reads {α : Type} (message : String) (o : Option α) :
    Keeps SameDatabases (orReject message o) := by
  cases o with
  | none => exact reject_reads _ _
  | some a => exact .pure a

lemma bound_output_reads (tool : String) (payload : Json) :
    Keeps SameDatabases (bound_output tool payload) := by
  intro b b' h
  rw [bound_output] at h
  dsimp only at h
  split at h
  · obtain rfl := h
    rfl
  · obtain rfl := h
    rfl

lemma tool_functions_reads : Keeps SameDatabases (tool_functions env args) :=
  (resolve_db_reads _).bind fun _ => (call_reads rfl rfl).bind fun _ =>
    (bound_output_reads _ _).bind fun _ => .pure _

lemma tool_inspect_reads : Keeps SameDatabases (tool_inspect env args) :=
  (resolve_db_reads _).bind fun _ => (orReject_reads _ _).bind fun _ =>
    (call_reads rfl rfl).bind fun _ => (call_reads rfl rfl).bind fun _ =>
      (call_reads rfl rfl).bind fun _ => .pure _

lemma tool_disassemble_reads : Keeps SameDatabases (tool_disassemble env args) :=
  (resolve_db_reads _).bind fun _ => (orReject_reads _ _).bind fun _ =>
    (call_reads rfl rfl).bind fun _ => (bound_output_reads _ _).bind fun _ => .pure _

lemma tool_decompile_reads : Keeps SameDatabases (tool_decompile env args) :=
  (resolve_db_reads _).bind fun _ => (orReject_reads _ _).bind fun _ =>
    (call_reads rfl rfl).bind fun _ => (bound_output_reads _ _).bind fun _ => .pure _

lemma tool_xrefs_reads : Keeps SameDatabases (tool_xrefs env args) := by
  refine (resolve_db_reads _).bind fun db => (orReject_reads _ _).bind fun ea => ?_
  have hcall : ∀ method, method = "xrefs_from" ∨ method = "xrefs_to" →
      Keeps SameDatabases (call env db method [("ea", .u64 ea)]) := by
    rintro method (rfl | rfl)
    · exact call_reads rfl rfl
    · exact call_reads rfl rfl
  refine (hcall _ ?_).bind fun _ => (bound_output_reads _ _).bind fun _ => .pure _
  split
  · exact .inl rfl
  · exact .inr rfl

lemma tool_search_reads : Keeps SameDatabases (tool_search env args) := by
  refine (resolve_db_reads _).bind fun db => ?_
  dsimp only
  split
  · exact (orReject_reads _ _).bind fun _ => (call_reads rfl rfl).bind fun _ =>
      (bound_output_reads _ _).bind fun _ => .pure _
  · exact (orReject_reads _ _).bind fun _ => (call_reads rfl rfl).bind fun _ =>
      (bound_output_reads _ _).bind fun _ => .pure _

lemma tool_segments_reads : Keeps SameDatabases (tool_segments env args) :=
  (resolve_db_reads _).bind fun _ => (call_reads rfl rfl).bind fun _ => .pure _

lemma tool_metadata_reads : Keeps SameDatabases (tool_metadata env args) :=
  (resolve_db_reads _).bind fun _ => (call_reads rfl rfl).bind fun _ =>
    (bound_output_reads _ _).bind fun _ => .pure _

lemma tool_imports_reads : Keeps SameDatabases (tool_imports env args) :=
  (resolve_db_reads _).bind fun _ => (call_reads rfl rfl).bind fun _ =>
    (bound_output_reads _ _).bind fun _ => .pure _

lemma tool_fixups_reads : Keeps SameDatabases (tool_fixups env args) :=
  (resolve_db_reads _).bind fun _ => (call_reads rfl rfl).bind fun _ =>
    (bound_output_reads _ _).bind fun _ => .pure _

lemma tool_filemap_reads : Keeps SameDatabases (tool_filemap env args) :=
  (resolve_db_reads _).bind fun _ => (orReject_reads _ _).bind fun _ =>
    (call_reads rfl rfl).bind fun _ => .pure _

lemma tool_value_reads : Keeps SameDatabases (tool_value env args) :=
  (resolve_db_reads _).bind fun _ => (orReject_reads _ _).bind fun _ =>
    (call_reads rfl rfl).bind fun _ => (bound_output_reads _ _).bind fun _ => .pure _

lemma tool_insn_reads : Keeps SameDatabases (tool_insn env args) := by
  refine (resolve_db_reads _).bind fun db => ?_
  dsimp only
  split
  · exact (orReject_reads _ _).bind fun _ => (call_reads rfl rfl).bind fun _ => .pure _
  · exact (orReject_reads _ _).bind fun _ => (call_reads rfl rfl).bind fun _ => .pure _
  · exact (reject_reads _ _).bind fun _ => .pure _

end Reads

/-! ## Mutations -/

/-- The mutations that a batch can reach; an address that the worker parses is passed on as it
is. -/
inductive BatchMutation where
  | patch (ea : U64) (hex : String)
  | setType (ea : U64) (decl : String)
  | create (start : U64) (stop : Json)
  | delete (ea : U64)
  | resize (ea : U64) (new_start new_end : Json)
  | lvarRename (ea var_defea : U64) (name : String)

namespace BatchMutation

/-- The method of the worker. -/
def method : BatchMutation → String
  | patch _ _ => "patch_bytes"
  | setType _ _ => "set_type"
  | create _ _ => "func.create"
  | delete _ => "func.delete"
  | resize _ _ _ => "func.resize"
  | lvarRename _ _ _ => "hr.lvar_rename"

/-- The method as the dispatcher knows it. -/
def kind : BatchMutation → MutateMethod
  | patch _ _ => .patchBytes
  | setType _ _ => .setType
  | create _ _ => .funcCreate
  | delete _ => .funcDelete
  | resize _ _ _ => .funcResize
  | lvarRename _ _ _ => .hrLvarRename

/-- The parameters of the call. -/
def params (expected_revision : Json) : BatchMutation → List (String × Json)
  | patch ea hex => [("ea", .u64 ea), ("hex", hex), ("expected_revision", expected_revision)]
  | setType ea decl => [("ea", .u64 ea), ("decl", decl), ("expected_revision", expected_revision)]
  | create start stop =>
    [("start", .u64 start), ("end", stop), ("expected_revision", expected_revision)]
  | delete ea => [("ea", .u64 ea), ("expected_revision", expected_revision)]
  | resize ea new_start new_end => [("ea", .u64 ea), ("new_start", new_start),
      ("new_end", new_end), ("expected_revision", expected_revision)]
  | lvarRename ea var_defea name => [("ea", .u64 ea), ("var_defea", .u64 var_defea),
      ("name", name), ("expected_revision", expected_revision)]

end BatchMutation

/-- The mutation of `ida_bytes`, if any. -/
def bytesMutation (args : Json) : Option BatchMutation :=
  if (arg_str args "action").getD "get" = "patch" then do
    return .patch (← arg_ea args "ea") (← arg_str args "hex")
  else none

/-- The mutation of `ida_types`, if any. -/
def typesMutation (args : Json) : Option BatchMutation :=
  if (arg_str args "action").getD "get" = "set" then do
    return .setType (← arg_ea args "ea") (← arg_str args "decl")
  else none

/-- The mutation of `ida_func`, if any. -/
def funcMutation (args : Json) : Option BatchMutation :=
  match (arg_str args "action").getD "tails" with
  | "create" => do return .create (← arg_ea args "start") (.opt (args.get "end"))
  | "delete" => do return .delete (← arg_ea args "ea")
  | "resize" => do
    return .resize (← arg_ea args "ea") (.opt (args.get "new_start")) (.opt (args.get "new_end"))
  | _ => none

/-- The mutation of `ida_hr`, if any. -/
def hrMutation (args : Json) : Option BatchMutation :=
  if (arg_str args "action").getD "cfunc" = "lvar_rename" then do
    return .lvarRename (← arg_ea args "ea") (← arg_ea args "var_defea") (← arg_str args "name")
  else none

/-- The mutation that an operation of a batch asks for, if any. -/
def batchMutation (tool : String) (args : Json) : Option BatchMutation :=
  match tool with
  | "ida_bytes" => bytesMutation args
  | "ida_types" => typesMutation args
  | "ida_func" => funcMutation args
  | "ida_hr" => hrMutation args
  | _ => none

section Mixed

variable {env : Env} {args : Json}

omit [Host] in
@[simp] lemma orReject_none_bind {α β : Type} (message : String) (f : α → Tool β) :
    (orReject message none >>= f) = reject "invalid_args" message := rfl

omit [Host] in
@[simp] lemma orReject_some_bind {α β : Type} (message : String) (a : α) (f : α → Tool β) :
    (orReject message (some a) >>= f) = f a := rfl

/-- The tool passes a mutation on to the worker. -/
def passes (env : Env) (args : Json) (m : BatchMutation) (answer : String → Json → Json) :
    Tool Json := do
  let db ← resolve_db (arg_str args "db")
  let out ← call env db m.method (m.params (.opt (args.get "expected_revision")))
  return answer db out

/-- A tool that reads, or passes the mutation on. -/
def Classified (env : Env) (args : Json) (o : Option BatchMutation) (x : Tool Json) : Prop :=
  match o with
  | some m => ∃ answer, x = passes env args m answer
  | none => Keeps SameDatabases x

lemma tool_bytes_classified : Classified env args (bytesMutation args) (tool_bytes env args) := by
  rw [bytesMutation, tool_bytes]
  cases hea : arg_ea args "ea" with
  | none =>
    have hreads : Keeps SameDatabases (resolve_db (arg_str args "db") >>= fun _ =>
        (reject "invalid_args" "bytes requires 'ea'" : Tool Json)) :=
      (resolve_db_reads _).bind fun _ => reject_reads _ _
    split <;> exact hreads
  | some ea =>
    simp only [orReject_some_bind]
    split
    · rename_i haction
      simp only [haction]
      cases hhex : arg_str args "hex" with
      | none => exact (resolve_db_reads _).bind fun _ => reject_reads _ _
      | some hex => exact ⟨fun db out => .object [("db", db), ("outcome", out)], rfl⟩
    · rename_i haction
      refine (resolve_db_reads _).bind fun db => ?_
      split
      · rename_i hpatch
        exact absurd hpatch haction
      · exact (call_reads rfl rfl).bind fun _ => .pure _

lemma tool_types_classified : Classified env args (typesMutation args) (tool_types env args) := by
  rw [typesMutation, tool_types]
  split
  · -- `set` with both of its arguments is a mutation; without one it is rejected
    rename_i haction
    simp only [haction]
    cases hdecl : arg_str args "decl" with
    | none =>
      have hreads : Keeps SameDatabases (resolve_db (arg_str args "db") >>= fun _ =>
          (reject "invalid_args" "set requires 'decl' and 'ea'" : Tool Json)) :=
        (resolve_db_reads _).bind fun _ => reject_reads _ _
      cases arg_ea args "ea" <;> exact hreads
    | some decl =>
      rw [arg_ea]
      cases hea : args.get "ea" with
      | none => exact (resolve_db_reads _).bind fun _ => reject_reads _ _
      | some v =>
        cases hparse : parse_ea v with
        | none =>
          simp only [Option.bind_some, hparse, orReject_none_bind]
          exact (resolve_db_reads _).bind fun _ => reject_reads _ _
        | some ea =>
          simp only [Option.bind_some, hparse, orReject_some_bind]
          exact ⟨fun db out => .object [("db", db), ("outcome", out)], rfl⟩
  · rename_i haction
    refine (resolve_db_reads _).bind fun db => ?_
    split
    · rename_i hset
      exact absurd hset haction
    · exact (call_reads rfl rfl).bind fun _ => (bound_output_reads _ _).bind fun _ => .pure _
    · exact (call_reads rfl rfl).bind fun _ => (bound_output_reads _ _).bind fun _ => .pure _
    · exact reject_reads _ _

lemma tool_func_classified : Classified env args (funcMutation args) (tool_func env args) := by
  have hreject : ∀ message, Keeps SameDatabases (resolve_db (arg_str args "db") >>= fun _ =>
      (reject "invalid_args" message : Tool Json)) :=
    fun _ => (resolve_db_reads _).bind fun _ => reject_reads _ _
  rw [funcMutation, tool_func]
  generalize (arg_str args "action").getD "tails" = action
  split
  · -- `create`
    cases arg_ea args "start" with
    | none => exact hreject "create requires 'start'"
    | some start =>
      exact ⟨fun db out => .object [("db", db), ("action", "create"), ("result", out)], rfl⟩
  · -- `delete`
    cases arg_ea args "ea" with
    | none => exact hreject "delete requires 'ea'"
    | some ea =>
      exact ⟨fun db out => .object [("db", db), ("action", "delete"), ("result", out)], rfl⟩
  · -- `resize`
    cases arg_ea args "ea" with
    | none => exact hreject "resize requires 'ea'"
    | some ea =>
      exact ⟨fun db out => .object [("db", db), ("action", "resize"), ("result", out)], rfl⟩
  · -- every other action only reads
    rename_i hcreate hdelete hresize
    refine (resolve_db_reads _).bind fun db => ?_
    dsimp only
    split
    · exact (orReject_reads _ _).bind fun _ => (call_reads rfl rfl).bind fun _ => .pure _
    · exact absurd rfl hcreate
    · exact absurd rfl hdelete
    · exact absurd rfl hresize
    · exact (orReject_reads _ _).bind fun _ => (call_reads rfl rfl).bind fun _ => .pure _
    · exact (orReject_reads _ _).bind fun _ => (call_reads rfl rfl).bind fun _ => .pure _
    · exact (reject_reads _ _).bind fun _ => .pure _

lemma tool_hr_classified : Classified env args (hrMutation args) (tool_hr env args) := by
  have hreject : ∀ message, Keeps SameDatabases (resolve_db (arg_str args "db") >>= fun _ =>
      (reject "invalid_args" message : Tool Json)) :=
    fun _ => (resolve_db_reads _).bind fun _ => reject_reads _ _
  rw [hrMutation, tool_hr]
  cases hea : arg_ea args "ea" with
  | none => split <;> exact hreject "hr requires 'ea'"
  | some ea =>
    simp only [orReject_some_bind]
    split
    · rename_i haction
      simp only [haction]
      cases arg_ea args "var_defea" with
      | none => exact hreject "lvar_rename requires 'var_defea'"
      | some var_defea =>
        cases arg_str args "name" with
        | none => exact hreject "lvar_rename requires 'name'"
        | some name => exact ⟨fun db out => .object [("db", db), ("outcome", out)], rfl⟩
    · rename_i haction
      refine (resolve_db_reads _).bind fun db => ?_
      split
      · exact (call_reads rfl rfl).bind fun _ => (bound_output_reads _ _).bind fun _ => .pure _
      · rename_i hrename
        exact absurd hrename haction
      · exact (call_reads rfl rfl).bind fun _ => (bound_output_reads _ _).bind fun _ => .pure _
      · exact reject_reads _ _

/-- Every operation of a batch reads, or passes a mutation on. -/
lemma run_named_classified (env : Env) (tool : String) (args : Json) :
    Classified env args (batchMutation tool args) (run_named env tool args) := by
  unfold batchMutation
  split
  · exact tool_bytes_classified
  · exact tool_types_classified
  · exact tool_func_classified
  · exact tool_hr_classified
  · rename_i hbytes htypes hfunc hhr
    unfold run_named Classified
    dsimp only
    split
    · exact tool_functions_reads
    · exact tool_inspect_reads
    · exact tool_disassemble_reads
    · exact tool_decompile_reads
    · exact tool_xrefs_reads
    · exact tool_search_reads
    · exact absurd rfl hbytes
    · exact absurd rfl htypes
    · exact tool_segments_reads
    · exact tool_metadata_reads
    · exact tool_imports_reads
    · exact tool_fixups_reads
    · exact tool_filemap_reads
    · exact absurd rfl hfunc
    · exact absurd rfl hhr
    · exact tool_value_reads
    · exact tool_insn_reads
    · exact reject_reads _ _

end Mixed

/-! ## Mutations that the worker accepts -/

omit [Host] in
/-- An optional address that the worker can read. -/
def EaOrNull (v : Json) : Prop := v = .null ∨ (parse_ea v).isSome

namespace BatchMutation

/-- What the mutation needs of its own arguments. -/
def Valid (b : MockBackend) : BatchMutation → Prop
  | patch _ hex => (MockBackend.hexDecode ((trimChars hex.toList).filter (· ≠ ' '))).isOk = true
  | setType _ _ => True
  | create _ stop => EaOrNull stop
  | delete ea => ea ∈ b.names
  | resize _ new_start new_end =>
    EaOrNull new_start ∧ EaOrNull new_end ∧ (new_start ≠ .null ∨ new_end ≠ .null)
  | lvarRename ea _ _ => b.decompile_off = false ∧ (b.function_at ea).isOk = true

/-- The mutation is accepted: the database is open, the expected revision is absent or right, the
arguments are valid, and the revision can be counted up. -/
structure Accepted (m : BatchMutation) (expected_revision : Json) (b : MockBackend) : Prop where
  opened : b.open_path.isSome
  revision : expected_revision = .null ∨ expected_revision.asU64 = some b.revision
  valid : m.Valid b
  room : b.revision.val + 1 < 2 ^ 64 ∨ Host.overflowChecks = false

/-- The mutation as the worker runs it. -/
def outcome (m : BatchMutation) (expected_revision : Json) (b : MockBackend) :
    Result (MutationOutcome × MockBackend) := do
  let params := Json.object (m.params expected_revision)
  let call ← m.kind.call params
  Worker.mutation params call b

end BatchMutation

lemma commit_isOk (b : MockBackend) (detail : Json) : (b.commit detail).isOk = true ↔
    b.revision.val + 1 < 2 ^ 64 ∨ Host.overflowChecks = false := by
  rw [MockBackend.commit, MockBackend.bump, addU64]
  split
  · rename_i h
    exact iff_of_true rfl h
  · rename_i h
    exact iff_of_false (by simp) h

omit [Host] in
lemma check_revision_isOk {params : Json} {expected_revision : Json} (b : MockBackend)
    (h : params.get "expected_revision" = some expected_revision) :
    check_revision params b = .ok () ↔
      expected_revision = .null ∨ expected_revision.asU64 = some b.revision := by
  rw [check_revision]
  rw [h]
  cases expected_revision with
  | null => simp
  | number n =>
    cases n with
    | posInt n =>
      simp only [Json.asU64]
      split <;> simp_all
    | negInt n => simp [Json.asU64, fail]
    | float q => simp [Json.asU64, fail]
  | _ => simp [Json.asU64, fail]

omit [Host] in
/-- The worker reads an address that is there as the tools do. -/
lemma ea_param_isOk {params v : Json} {key : String} (h : params.get key = some v) :
    (ea_param params key).isOk = (parse_ea v).isSome := by
  rw [ea_param]
  rw [h]
  cases v with
  | string s =>
    simp only [parse_ea_param, parse_ea]
    cases parseAddress s with
    | ok ea => rfl
    | error e => rfl
  | number n => cases n <;> rfl
  | _ => rfl

omit [Host] in
lemma ea_param_opt_isOk {params v : Json} {key : String} (h : params.get key = some v) :
    (ea_param_opt params key).isOk = true ↔ EaOrNull v := by
  rw [ea_param_opt, EaOrNull]
  rw [h]
  cases v with
  | null => simp
  | _ =>
    have hread := ea_param_isOk h
    simp only [reduceCtorEq, false_or, ← hread]
    cases ea_param params key <;> rfl

omit [Host] in
/-- An optional address is absent exactly when it is `null`. -/
lemma ea_param_opt_eq_none {params v : Json} {key : String} {o : Option U64}
    (h : params.get key = some v) (ho : ea_param_opt params key = .ok o) :
    o = none ↔ v = .null := by
  rw [ea_param_opt] at ho
  rw [h] at ho
  cases v with
  | null =>
    cases ho
    simp
  | _ =>
    obtain ⟨ea, -, ho⟩ := Outcome.bind_eq_ok.mp ho
    cases ho
    simp

namespace BatchMutation

variable {expected_revision : Json} {b : MockBackend}

/-- A mutation whose parameters are read is, behind the revision check, a call of the backend. -/
lemma outcome_isOk {m : BatchMutation} {call : Mutation}
    {op : MockBackend → Result (MutationOutcome × MockBackend)}
    (hcall : m.kind.call (.object (m.params expected_revision)) = .ok call)
    (hop : call.op = .ok op) :
    (m.outcome expected_revision b).isOk = true ↔
      (expected_revision = .null ∨ expected_revision.asU64 = some b.revision) ∧
        (op b).isOk = true := by
  have hget : (Json.object (m.params expected_revision)).get "expected_revision" =
      some expected_revision := by
    cases m <;> rfl
  have hx : m.outcome expected_revision b =
      check_revision (.object (m.params expected_revision)) b >>= fun _ => op b := by
    simp only [outcome, hcall, Worker.mutation, hop, Outcome.ok_bind]
  rw [hx, Outcome.isOk_bind_unit, check_revision_isOk b hget]

/-- One whose parameters cannot be read fails. -/
lemma outcome_not_isOk {m : BatchMutation}
    (hcall : (m.kind.call (.object (m.params expected_revision))).isOk = false) :
    (m.outcome expected_revision b).isOk = false := by
  by_contra hok
  obtain ⟨call, hok, -⟩ := Outcome.isOk_bind.mp (by simpa [outcome] using hok)
  rw [hok] at hcall
  cases hcall

/-- The conditions in the order in which the worker meets them. -/
lemma accepted_iff {m : BatchMutation} : m.Accepted expected_revision b ↔
    (expected_revision = .null ∨ expected_revision.asU64 = some b.revision) ∧
      b.open_path.isSome ∧ m.Valid b ∧
      (b.revision.val + 1 < 2 ^ 64 ∨ Host.overflowChecks = false) :=
  ⟨fun h => ⟨h.revision, h.opened, h.valid, h.room⟩, fun ⟨hr, ho, hv, hm⟩ => ⟨ho, hr, hv, hm⟩⟩

lemma create_isOk_iff (start : U64) (stop : Json) :
    ((create start stop).outcome expected_revision b).isOk = true ↔
      (create start stop).Accepted expected_revision b := by
  let P := Json.object ((create start stop).params expected_revision)
  have hread : (ea_param_opt P "end").isOk = true ↔ EaOrNull stop := ea_param_opt_isOk rfl
  have hcall : (create start stop).kind.call P = ea_param_opt P "end" >>= fun o =>
      pure ⟨"func.create", start, pure fun b => b.func_create start o⟩ := rfl
  rw [accepted_iff, Valid, ← hread]
  cases ho : ea_param_opt P "end" with
  | ok o =>
    rw [ho] at hcall
    rw [outcome_isOk hcall rfl, MockBackend.func_create, Outcome.isOk_bind_unit,
      MockBackend.require_open_eq_ok, commit_isOk]
    simp
  | err e =>
    rw [ho] at hcall
    have hnot := outcome_not_isOk (b := b) (by rw [hcall]; rfl)
    simp [hnot]
  | panic p =>
    rw [ho] at hcall
    have hnot := outcome_not_isOk (b := b) (by rw [hcall]; rfl)
    simp [hnot]

lemma resize_isOk_iff (ea : U64) (new_start new_end : Json) :
    ((resize ea new_start new_end).outcome expected_revision b).isOk = true ↔
      (resize ea new_start new_end).Accepted expected_revision b := by
  let P := Json.object ((resize ea new_start new_end).params expected_revision)
  have hstart : (ea_param_opt P "new_start").isOk = true ↔ EaOrNull new_start :=
    ea_param_opt_isOk rfl
  have hend : (ea_param_opt P "new_end").isOk = true ↔ EaOrNull new_end := ea_param_opt_isOk rfl
  have hcall : (resize ea new_start new_end).kind.call P = ea_param_opt P "new_start" >>= fun o =>
      ea_param_opt P "new_end" >>= fun o' =>
        pure ⟨"func.resize", ea, pure fun b => b.func_resize ea o o'⟩ := rfl
  rw [accepted_iff, Valid]
  -- arguments that cannot be read are refused before the database is touched
  by_cases hread : EaOrNull new_start ∧ EaOrNull new_end
  · obtain ⟨o, ho⟩ := Outcome.isOk_iff.mp (hstart.mpr hread.1)
    obtain ⟨o', ho'⟩ := Outcome.isOk_iff.mp (hend.mpr hread.2)
    have hnone : o = none ↔ new_start = .null := ea_param_opt_eq_none rfl ho
    have hnone' : o' = none ↔ new_end = .null := ea_param_opt_eq_none rfl ho'
    rw [ho, ho'] at hcall
    rw [outcome_isOk hcall rfl, MockBackend.func_resize, Outcome.isOk_bind_unit,
      MockBackend.require_open_eq_ok, Outcome.isOk_bind_unit, failIf_eq_ok, commit_isOk, hnone,
      hnone', not_and_or]
    simp only [hread.1, hread.2, true_and]
  · have hnot : ((resize ea new_start new_end).outcome expected_revision b).isOk = false := by
      refine outcome_not_isOk ?_
      by_contra hok
      rw [hcall, Bool.not_eq_false, Outcome.isOk_bind] at hok
      obtain ⟨o, ho, hok⟩ := hok
      obtain ⟨o', ho', -⟩ := Outcome.isOk_bind.mp hok
      exact hread ⟨hstart.mp (Outcome.isOk_iff.mpr ⟨o, ho⟩),
        hend.mp (Outcome.isOk_iff.mpr ⟨o', ho'⟩)⟩
    rw [hnot]
    simp only [Bool.false_eq_true, false_iff]
    rintro ⟨-, -, ⟨hs, he, -⟩, -⟩
    exact hread ⟨hs, he⟩

/-- The worker carries a mutation out exactly when it is accepted. -/
lemma outcome_isOk_iff (m : BatchMutation) :
    (m.outcome expected_revision b).isOk = true ↔ m.Accepted expected_revision b := by
  cases m with
  | patch ea hex =>
    rw [accepted_iff, outcome_isOk rfl rfl, MockBackend.patch_bytes, Outcome.isOk_bind_unit,
      MockBackend.require_open_eq_ok, Valid]
    cases MockBackend.hexDecode ((trimChars hex.toList).filter (· ≠ ' ')) with
    | ok decoded => simp [commit_isOk]
    | err e => simp [fail]
    | panic p => simp
  | setType ea decl =>
    rw [accepted_iff, outcome_isOk rfl rfl, MockBackend.set_type, Outcome.isOk_bind_unit,
      MockBackend.require_open_eq_ok, commit_isOk]
    simp [Valid]
  | create start stop => exact create_isOk_iff start stop
  | delete ea =>
    rw [accepted_iff, outcome_isOk rfl rfl, MockBackend.func_delete, Outcome.isOk_bind_unit,
      MockBackend.require_open_eq_ok, Outcome.isOk_bind_unit, failIf_eq_ok, commit_isOk]
    simp [Valid]
  | resize ea new_start new_end => exact resize_isOk_iff ea new_start new_end
  | lvarRename ea var_defea name =>
    rw [accepted_iff, outcome_isOk rfl rfl, MockBackend.hr_lvar_rename, Outcome.isOk_bind_unit,
      Outcome.errIf_eq_ok, Valid]
    cases hf : b.function_at ea with
    | ok f =>
      have hopen := MockBackend.function_at_open hf
      simp [commit_isOk, hopen]
    | err e => simp
    | panic p => simp

end BatchMutation

/-! ## One operation -/

section Operation

variable {env : Env} {m : BatchMutation} {expected_revision : Json} {s s' : WorkerState}

omit [Host] in
lemma parse_method (m : BatchMutation) : Method.parse m.method = some (.mutate m.kind) := by
  cases m <;> rfl

/-- A worker with an accepted mutation answers, and records it. -/
lemma handle_accepted (env : Env) {b : MockBackend} (hb : s.backend = some b)
    (h : m.Accepted expected_revision b) :
    ∃ resp s', handle env ⟨0, m.method, .object (m.params expected_revision)⟩ s = .ok (resp, s') ∧
      s.audit.length < s'.audit.length := by
  obtain ⟨⟨out, b'⟩, hout⟩ := Outcome.isOk_iff.mp ((m.outcome_isOk_iff).mpr h)
  obtain ⟨call, hcall, hmutation⟩ := Outcome.bind_eq_ok.mp hout
  let P := Json.object (m.params expected_revision)
  let t : WorkerState := { s with
    backend := some b', audit := Plan.record_audit s.audit call.kind call.ea out }
  have hmutate : Worker.mutate P call s = .ok out.to_value t := by
    rw [Worker.mutate_eq, Action.transact_eq_ok]
    refine ⟨(out, b'), ?_, rfl, rfl⟩
    rw [need_backend_of_some hb]
    exact hmutation
  have hne : m.kind ≠ .deepRetype := by
    cases m <;> simp [BatchMutation.kind]
  have hrun : dispatch env m.method P s = .ok out.to_value t := by
    simp only [dispatch, parse_method, Method.run, hne, if_false]
    rw [Action.bind_apply, show (Action.lift (m.kind.call P) : Worker Mutation) s = .ok call s by
      rw [hcall]; rfl]
    dsimp only
    rw [Action.bind_apply, hmutate]
    rfl
  refine ⟨_, _, handle_of_ok hrun, ?_⟩
  have hlength : s.audit.length < t.audit.length := by simp [t, Plan.record_audit]
  split <;> exact hlength

/-- A worker without an accepted mutation is left as it was. -/
lemma handle_refused {resp : ReverseMcp.WorkerResponse}
    (h : handle env ⟨0, m.method, .object (m.params expected_revision)⟩ s = .ok (resp, s'))
    (hrefused : ∀ b, s.backend = some b → ¬ m.Accepted expected_revision b) : SameBackend s s' := by
  have hnone : ∀ call r, m.kind.call (.object (m.params expected_revision)) = .ok call →
      (need_backend s >>= Worker.mutation (.object (m.params expected_revision)) call) ≠ .ok r := by
    intro call r hcall hr
    obtain ⟨b, hb, hr⟩ := Outcome.bind_eq_ok.mp hr
    rw [need_backend, Outcome.ofOption_eq_ok] at hb
    refine hrefused b hb (m.outcome_isOk_iff.mp (Outcome.isOk_iff.mpr ⟨r, ?_⟩))
    simp only [BatchMutation.outcome, hcall, Outcome.ok_bind]
    exact hr
  obtain ⟨t, ht, hs'⟩ := handle_leaves h
  have hsame : SameBackend s t := by
    simp only [dispatch, parse_method, Method.run] at ht
    obtain ⟨e, he, rfl⟩ | ⟨call, hcall, ht⟩ := Action.lift_bind_leaves ht
    · exact ⟨rfl, rfl⟩
    · obtain ⟨e, he⟩ | ⟨v, t', ht', -⟩ := Action.bind_leaves ht
      · rw [Worker.mutate_eq] at he
        obtain ⟨-, rfl⟩ := Action.transact_eq_err.mp he
        exact ⟨rfl, rfl⟩
      · rw [Worker.mutate_eq] at ht'
        obtain ⟨r, hr, -⟩ := Action.transact_eq_ok.mp ht'
        exact absurd hr (hnone call r hcall)
  rcases hs' with rfl | rfl
  · exact hsame
  · exact hsame

omit [Host] in
lemma resolve_db_eq_ok {args : Json} {b b' : Broker} {db : String}
    (h : resolve_db (arg_str args "db") b = .ok db b') :
    b' = b ∧ (b.session db).isSome ∧ Names args b db := by
  rw [resolve_db, Action.get_bind] at h
  rw [Names]
  cases hname : arg_str args "db" with
  | some name =>
    simp only [hname] at h
    split at h
    · rename_i hsome
      cases h
      exact ⟨rfl, hsome, .inl rfl⟩
    · cases h
  | none =>
    -- without a name there has to be exactly one open database
    cases hopen : b.open_dbs with
    | nil =>
      simp only [hname, hopen] at h
      cases h
    | cons e rest =>
      cases rest with
      | nil =>
        simp only [hname, hopen] at h
        split at h
        · rename_i hsome
          cases h
          exact ⟨rfl, hsome, .inr ⟨rfl, e.2, rfl⟩⟩
        · cases h
      | cons e' rest =>
        simp only [hname, hopen] at h
        cases h

/-- The operation is a mutation that a live worker accepts. -/
def Changes (tool : String) (args : Json) (b : Broker) : Prop :=
  ∃ m db s bk, batchMutation tool args = some m ∧ Names args b db ∧ b.session db = some s ∧
    s.Live ∧ s.worker.backend = some bk ∧ m.Accepted (.opt (args.get "expected_revision")) bk

/-- A mutation that is passed on. -/
lemma passes_effect {args : Json} {answer : String → Json → Json} {b b' : Broker}
    (h : (passes env args m answer b).Leaves b') :
    Effect (∃ db s bk, Names args b db ∧ b.session db = some s ∧ s.Live ∧
      s.worker.backend = some bk ∧ m.Accepted (.opt (args.get "expected_revision")) bk) b b' := by
  rw [passes] at h
  obtain ⟨e, he⟩ | ⟨db, b₁, hdb, hrest⟩ := Action.bind_leaves h
  · refine .of_same ((resolve_db_reads _).of_err he) ?_
    rintro ⟨db, s, bk, hargs, hs, -⟩
    rw [resolve_db_names hs hargs] at he
    cases he
  obtain ⟨rfl, hsome, hargs⟩ := resolve_db_eq_ok hdb
  have hcall : (call env db m.method (m.params (.opt (args.get "expected_revision"))) b₁).Leaves
      b' := by
    obtain ⟨e, he⟩ | ⟨v, b₂, hv, hb₂⟩ := Action.bind_leaves hrest
    · rw [he]
      rfl
    · rw [hv]
      exact hb₂
  have honly : ∀ db' s', Names args b₁ db' → b₁.session db' = some s' → db' = db := by
    intro db' s' hargs' hs'
    have hok := resolve_db_names hs' hargs'
    rw [hdb] at hok
    cases hok
    rfl
  cases CallEffect.of_leaves hcall with
  | absent hs h =>
    rw [hs] at hsome
    cases hsome
  | lost s s' hs hworker hlost h =>
    subst h
    have hsame := setSession_same hs
      (contents_of_same ⟨congrArg WorkerState.backend hworker, congrArg WorkerState.audit hworker⟩)
    refine .of_same hsame ?_
    rintro ⟨db', t, bk, hargs', ht, hlive, hbk, haccepted⟩
    obtain rfl := honly db' t hargs' ht
    rw [hs] at ht
    cases ht
    -- a worker that accepts the mutation answers
    obtain ⟨p, hp⟩ := hlost hlive
    obtain ⟨resp, w, hw, -⟩ := handle_accepted env hbk haccepted
    rw [hp] at hw
    cases hw
  | handled s s' resp hs hlive hh h =>
    subst h
    by_cases haccepted : ∃ bk, s.worker.backend = some bk ∧
        m.Accepted (.opt (args.get "expected_revision")) bk
    · obtain ⟨bk, hbk, haccepted⟩ := haccepted
      obtain ⟨resp', w, hw, hlength⟩ := handle_accepted env hbk haccepted
      rw [hh] at hw
      cases hw
      obtain ⟨hrecording, hmore⟩ := setSession_records hs hlength
      exact .of_records hrecording hmore ⟨db, s, bk, hargs, hs, hlive, hbk, haccepted⟩
    · have hsame := handle_refused hh fun bk hbk hacc => haccepted ⟨bk, hbk, hacc⟩
      refine .of_same (setSession_same hs (contents_of_same hsame)) ?_
      rintro ⟨db', t, bk, hargs', ht, -, hbk, hacc⟩
      obtain rfl := honly db' t hargs' ht
      rw [hs] at ht
      cases ht
      exact haccepted ⟨bk, hbk, hacc⟩

/-- An operation changes the databases exactly when it is an accepted mutation. -/
lemma run_named_effect {tool : String} {args : Json} {b b' : Broker}
    (h : (run_named env tool args b).Leaves b') : Effect (Changes tool args b) b b' := by
  have hclass := run_named_classified env tool args
  rw [Changes]
  cases hm : batchMutation tool args with
  | none =>
    rw [hm] at hclass
    refine .of_same (hclass b b' h) ?_
    rintro ⟨m, db, s, bk, hm', -⟩
    cases hm'
  | some m =>
    rw [hm] at hclass
    obtain ⟨answer, hpasses⟩ := hclass
    rw [hpasses] at h
    simpa only [Option.some.injEq, exists_and_left, exists_eq_left'] using passes_effect h

end Operation

/-! ## A batch -/

/-- One of the operations, in the state that it finds, is a mutation that a live worker accepts. -/
def BatchChanges (env : ℕ → Env) : ℕ → List Json → Broker → Prop
  | _, [], _ => False
  | i, op :: ops, b => Changes (opTool op) (opArgs op) b ∨
      ∃ b', (run_named (env i) (opTool op) (opArgs op) b).Leaves b' ∧
      BatchChanges env (i + 1) ops b'

lemma run_op_leaves {env : Env} {i : ℕ} {op : Json} {b b' : Broker}
    (h : (run_op env i op b).Leaves b') : (run_named env (opTool op) (opArgs op) b).Leaves b' := by
  rw [run_op] at h
  dsimp only at h
  split at h
  · rename_i v b₁ hv
    rw [hv]
    exact h
  · rename_i e b₁ he
    rw [he]
    exact h
  · exact h.elim

/-- The operations from the `i`-th on. -/
lemma run_ops_effect {env : ℕ → Env} {i : ℕ} {ops : List Json} {b b' : Broker}
    (h : (run_ops env i ops b).Leaves b') : Effect (BatchChanges env i ops b) b b' := by
  induction ops generalizing i b with
  | nil =>
    obtain rfl : b = b' := h
    exact .of_same rfl id
  | cons op ops ih =>
    rw [run_ops] at h
    obtain ⟨e, he⟩ | ⟨r, b₁, hr, hrest⟩ := Action.bind_leaves h
    · -- an operation does not fail as a whole
      rw [run_op] at he
      dsimp only at he
      split at he <;> cases he
    · have hop : (run_named (env i) (opTool op) (opArgs op) b).Leaves b₁ :=
        run_op_leaves (by rw [hr]; rfl)
      have hops : (run_ops env (i + 1) ops b₁).Leaves b' := by
        obtain ⟨e, he⟩ | ⟨rs, b₂, hrs, hb₂⟩ := Action.bind_leaves hrest
        · rw [he]
          rfl
        · rw [hrs]
          exact hb₂
      have hrest : (∃ b₂, (run_named (env i) (opTool op) (opArgs op) b).Leaves b₂ ∧
          BatchChanges env (i + 1) ops b₂) ↔ BatchChanges env (i + 1) ops b₁ := by
        constructor
        · rintro ⟨b₂, hb₂, hchanges⟩
          rw [Reply.leaves_unique hop hb₂]
          exact hchanges
        · exact fun hchanges => ⟨b₁, hop, hchanges⟩
      rw [BatchChanges, hrest]
      exact (run_named_effect hop).trans (ih hops)

/-- What a batch does; one with too many operations is not run. -/
lemma tool_batch_effect {env : ℕ → Env} {args : Json} {b b' : Broker}
    (h : (tool_batch env args b).Leaves b') :
    Effect ((batchOps args).length ≤ 20 ∧ BatchChanges env 0 (batchOps args) b) b b' := by
  rw [tool_batch] at h
  split at h
  · rename_i hmany
    obtain rfl : b = b' := h
    exact .of_same rfl fun hfew => absurd hfew.1 (by omega)
  · rename_i hfew
    have hops : (run_ops env 0 (batchOps args) b).Leaves b' := by
      obtain ⟨e, he⟩ | ⟨rs, b₂, hrs, hb₂⟩ := Action.bind_leaves h
      · rw [he]
        rfl
      · rw [hrs]
        exact hb₂
    have hle : (batchOps args).length ≤ 20 := by omega
    simpa only [hle, true_and] using run_ops_effect hops

/-- A batch leaves every database as it was iff it has too many operations to be run, or none of
them is, in the state that it finds, a mutation that a live worker accepts. -/
theorem batch_read_only_iff {env : ℕ → Env} {args : Json} {b b' : Broker}
    (h : (tool_batch env args b).Leaves b') :
    b'.databases = b.databases ↔
      20 < (batchOps args).length ∨ ¬ BatchChanges env 0 (batchOps args) b := by
  have hiff := (tool_batch_effect h).same_iff
  rw [not_and_or, not_le] at hiff
  exact hiff

omit [Host]

/-- A broker with one open database. -/
def openBroker : Broker :=
  ⟨[("db-1", .serving opened)], [("db-1", "a.i64")], .new 3600, 20000⟩

/-- A batch of one operation on `main`. -/
def oneOp (tool : String) (fields : List (String × Json)) : Json :=
  .object [("operations", .array [.object [("tool", tool),
    ("args", .object (("ea", .nat 0x401000) :: fields))]])]

/-- A batch that reads the bytes of a function. -/
theorem batch_read_only_iff_bytes :
    letI : Host := Host.ascii true
    let args := oneOp "ida_bytes" [("action", "get")]
    ∃ b', (tool_batch (fun _ => .bare) args openBroker).Leaves b' ∧
      (b'.databases = openBroker.databases ↔ 20 < (batchOps args).length ∨
        ¬ BatchChanges (fun _ => .bare) 0 (batchOps args) openBroker) := by
  intro args
  let _ : Host := Host.ascii true
  have hleaves : ∃ b', (tool_batch (fun _ => .bare) args openBroker).Leaves b' := ⟨_, rfl⟩
  obtain ⟨b', h⟩ := hleaves
  exact ⟨b', h, batch_read_only_iff h⟩

/-- A batch can set a type, which counts the revision up. -/
theorem batch_read_only_not :
    letI : Host := Host.ascii true
    ¬ ∀ (env : ℕ → Env) (args : Json) (b b' : Broker), (tool_batch env args b).Leaves b' →
      b'.databases = b.databases := by
  intro h
  let _ : Host := Host.ascii true
  let args := oneOp "ida_types" [("action", "set"), ("decl", "int main(void)")]
  have hleaves : ∃ b', (tool_batch (fun _ => .bare) args openBroker).Leaves b' := ⟨_, rfl⟩
  obtain ⟨b', hb'⟩ := hleaves
  refine (tool_batch_effect hb').same_iff.mp (h _ _ _ _ hb') ⟨by decide, .inl ?_⟩
  refine ⟨.setType 0x401000 "int main(void)", "db-1", _, _, rfl, .inr ⟨rfl, "a.i64", rfl⟩, rfl,
    ⟨rfl, rfl⟩, rfl, ⟨rfl, .inl rfl, trivial, .inl (by decide)⟩⟩

end ReverseMcp.Tools
