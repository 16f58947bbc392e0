import ReverseMcp.Broker.Hierarchy

/-!
# The registry of tools

`registry::call` chooses a tool by its name.  Of what a call of it asks the workers `McpCall.Asks`
is a bound, and `McpCall.Leads.follows` shows that the call stays within it: every worker of an
open database answers requests of the call and nothing else, and none is asked whose database the
call does not name.

The tools that look at the installations (`ida_installations`, `ida_health`), the jobs
(`ida_jobs`) and the WebAssembly tool are not chosen here; the requests that they make of a worker
are events of their own.
-/

namespace ReverseMcp.Tools

open Rust Rust.Action

/-- What a tool finds outside of the broker: the surroundings of the workers, what `spawn_for`
returns, the order of the result map, and the disposable workers. -/
structure Outside where
  env : ℕ → Env
  spawned : Outcome Error (String × Session)
  iter : List (String × Entry)
  disposables : Disposables

/-- The result map is iterated over its entries, and a new handle is a new one. -/
structure Outside.Fits (o : Outside) (b : Broker) : Prop where
  iter : o.iter.Perm b.results.store.entries.toList
  fresh : ∀ p, o.spawned = .ok p → b.session p.1 = none

section Host

variable [Host]

/-- `registry::call`. -/
def registry_call (o : Outside) (name : String) (args : Json) : Option (Tool Json) :=
  match name with
  | "ida_capabilities" => some (tool_capabilities (o.env 0) args)
  | "ida_db" => some (tool_db (o.env 0) o.spawned args)
  | "ida_functions" => some (tool_functions (o.env 0) args)
  | "ida_inspect" => some (tool_inspect (o.env 0) args)
  | "ida_decompile" => some (tool_decompile (o.env 0) args)
  | "ida_disassemble" => some (tool_disassemble (o.env 0) args)
  | "ida_xrefs" => some (tool_xrefs (o.env 0) args)
  | "ida_graph" => some (tool_graph (o.env 0) args)
  | "ida_search" => some (tool_search (o.env 0) args)
  | "ida_bytes" => some (tool_bytes (o.env 0) args)
  | "ida_types" => some (tool_types (o.env 0) args)
  | "ida_edit" => some (tool_edit (o.env 0) args)
  | "ida_analysis" => some (tool_analysis (o.env 0) args)
  | "ida_batch" => some (tool_batch o.env args)
  | "ida_result" => some (tool_result o.iter args)
  | "ida_segments" => some (tool_segments (o.env 0) args)
  | "ida_installations" | "ida_health" | "ida_jobs" | "ida_wasm" => none
  | "ida_evidence" => some (tool_evidence (o.env 0) args)
  | "ida_analyze" =>
    match (arg_str args "workflow").getD "" with
    | "function_hierarchical" => some (tool_analyze_hierarchical (o.env 0) o.disposables args)
    | "function_region" => some (tool_analyze_region (o.env 0) o.disposables args)
    | _ => some (tool_analyze (o.env 0) args)
  | "ida_deep" => some (tool_deep (o.env 0) args)
  | "ida_type_recovery" => some (tool_type_recovery (o.env 0) args)
  | "ida_intel" => some (tool_intel (o.env 0) args)
  | "ida_deobfuscate" => some (tool_deobfuscate (o.env 0) args)
  | "ida_sig" => some (tool_sig (o.env 0) args)
  | "ida_metadata" => some (tool_metadata (o.env 0) args)
  | "ida_imports" => some (tool_imports (o.env 0) args)
  | "ida_fixups" => some (tool_fixups (o.env 0) args)
  | "ida_filemap" => some (tool_filemap (o.env 0) args)
  | "ida_func" => some (tool_func (o.env 0) args)
  | "ida_hr" => some (tool_hr (o.env 0) args)
  | "ida_value" => some (tool_value (o.env 0) args)
  | "ida_insn" => some (tool_insn (o.env 0) args)
  | "ida_mutation" => some (tool_mutation (o.env 0) args)
  | other => some (Action.lift (.err ⟨s!"unknown tool '{other}'"⟩))

/-! ## Tools that name no database -/

section Tools

variable {A : String → String → Json → Prop} {env : Env} {args : Json}

lemma tool_result_serves (iter : List (String × Entry)) :
    Keeps (Serves A) (tool_result iter args) := by
  rw [tool_result]
  split
  · refine (orReject_serves _ _).bind fun handle => onStore_serves fun r => ?_
    exact ⟨_, .cons (.get rfl) (.nil _), rfl⟩
  · refine (orReject_serves _ _).bind fun handle => ?_
    refine (onStore_serves fun r => ?_).bind fun _ => .pure _
    exact ⟨[], .nil _, rfl⟩
  · exact (orReject_serves _ _).bind fun _ => Keeps.get.bind fun _ => .pure _
  · refine (orReject_serves _ _).bind fun handle => ?_
    refine (onStore_serves fun r => ?_).bind fun _ => .pure _
    exact ⟨_, .cons (.release rfl) (.nil _), rfl⟩
  · exact reject_serves _ _

/-- A tool that asks nothing. -/
lemma asking_of_serves {x : Tool Json} (h : ∀ A, Keeps (Serves A) x) (m : Manner) :
    Asking (m.Asks args) args x := fun b b' hleaves => h _ b b' hleaves

omit [Host] in
lemma orEmpty_keeps {R : Broker → Broker → Prop} {x : Tool Json} (h : Keeps R x) :
    Keeps R (orEmpty x) := by
  intro b b' hleaves
  rw [orEmpty] at hleaves
  split at hleaves
  · rename_i hx
    exact hleaves ▸ h.of_ok hx
  · rename_i hx
    exact hleaves ▸ h.of_err hx
  · exact hleaves.elim

end Tools

/-! ## Opening and closing -/

section Databases

variable {env : Env} {args : Json} {b b' : Broker}

/-- A session is appended, and the new database is read. -/
lemma tool_db_open_leaves {spawned : Outcome Error (String × Session)}
    (h : (tool_db_open env spawned args b).Leaves b') :
    b' = b ∨ ∃ p path, spawned = .ok p ∧
      Serves (fun db m _ => db = p.1 ∧ ReadsMethod m)
        { b with sessions := b.sessions ++ [p], open_dbs := b.open_dbs ++ [(p.1, path)] } b' := by
  rw [tool_db_open] at h
  cases hpath : arg_str args "path" with
  | none =>
    rw [hpath, orReject_none_bind] at h
    exact .inl h.symm
  | some path =>
    rw [hpath, orReject_some_bind] at h
    obtain ⟨e, -, rfl⟩ | ⟨p, hp, hrest⟩ := Action.lift_bind_leaves h
    · exact .inl rfl
    · have hspawned : spawned = .ok p := by
        cases spawned with
        | ok q => exact congrArg Outcome.ok (Outcome.ok.inj hp)
        | err e => cases hp
        | panic q => cases hp
      refine .inr ⟨p, path, hspawned, ?_⟩
      have hkeeps : Keeps (Serves fun db m _ => db = p.1 ∧ ReadsMethod m) (do
          let info ← orEmpty (call env p.1 "db.info" [])
          return .object [("db", .string p.1), ("path", .string path),
            ("info", ← bound_output "ida_db" info)] : Tool Json) :=
        (orEmpty_keeps (call_serves ⟨rfl, _, rfl, rfl⟩)).bind fun _ =>
          (bound_output_serves _ _).bind fun _ => .pure _
      exact hkeeps _ _ hrest

/-- The worker closes its database, and then the session is dropped. -/
lemma tool_db_close_leaves (h : (tool_db_close env args b).Leaves b') :
    ∃ b₁, Serves (fun db m p => Names args b db ∧ Manner.closes.Asks args m p) b b₁ ∧
      (b' = b₁ ∨ ∃ db, Names args b db ∧
        b' = { b₁ with
          sessions := b₁.sessions.filter fun e => e.1 ≠ db
          open_dbs := b₁.open_dbs.filter fun e => e.1 ≠ db }) := by
  let calls : String → Tool Json := fun db => do
    let _ ← call env db "db.save" []
    let _ ← call env db "db.close" []
    call env db "shutdown" []
  have hcalls : Asking (Manner.closes.Asks args) args (resolve_db (arg_str args "db") >>= calls) :=
    asking_of_resolve fun db => (call_asks (.inl ⟨_, rfl, rfl⟩)).bind fun _ =>
      (call_asks (.inr rfl)).bind fun _ => call_asks (.inl ⟨_, rfl, rfl⟩)
  rw [tool_db_close] at h
  obtain ⟨e, he⟩ | ⟨db, b₀, hdb, hrest⟩ := Action.bind_leaves h
  · refine ⟨b', hcalls b b' ?_, .inl rfl⟩
    rw [Action.bind_apply, he]
    rfl
  · obtain ⟨rfl, -, hnames⟩ := resolve_db_eq_ok hdb
    have hresolved : ∀ b₁, (calls db b₀).Leaves b₁ →
        Serves (fun db m p => Names args b₀ db ∧ Manner.closes.Asks args m p) b₀ b₁ := by
      intro b₁ hb₁
      refine hcalls b₀ b₁ ?_
      rw [Action.bind_apply, hdb]
      exact hb₁
    have hsplit : ((calls db >>= fun _ => do
        Action.modify fun b => { b with sessions := b.sessions.filter fun e => e.1 ≠ db }
        Action.modify fun b => { b with open_dbs := b.open_dbs.filter fun e => e.1 ≠ db }
        return .object [("db", .string db), ("closed", true)] : Tool Json) b₀).Leaves b' := by
      simp only [calls, Action.bind_assoc]
      exact hrest
    obtain ⟨e, he⟩ | ⟨v, b₁, hv, hdrop⟩ := Action.bind_leaves hsplit
    · exact ⟨b', hresolved b' (by rw [he]; rfl), .inl rfl⟩
    · exact ⟨b₁, hresolved b₁ (by rw [hv]; rfl), .inr ⟨db, hnames, hdrop.symm⟩⟩

end Databases

/-! ## Chosen tools -/

section Chosen

variable {o : Outside} {name : String} {args : Json} {x : Tool Json}

lemma tool_db_asks {env : Env} {spawned : Outcome Error (String × Session)}
    (hopen : (arg_str args "action").getD "info" ≠ "open")
    (hclose : (arg_str args "action").getD "info" ≠ "close") :
    Asking (Manner.reads.Asks args) args (tool_db env spawned args) := by
  rw [tool_db]
  split
  · exact absurd (by assumption) hopen
  · exact tool_db_info_asks
  · exact tool_db_save_asks
  · exact absurd (by assumption) hclose
  · exact asking_of_serves (fun A => Keeps.get.bind fun _ => .pure _) .reads
  · exact asking_of_serves (fun A => reject_serves _ _) .reads

/-- A tool asks what its manner allows. -/
lemma registry_call_asks (h : registry_call o name args = some x) (hbatch : name ≠ "ida_batch")
    (hdb : name ≠ "ida_db") : Asking ((manner name args).Asks args) args x := by
  unfold registry_call at h
  split at h
  · obtain rfl := Option.some.inj h
    exact tool_capabilities_asks
  · exact absurd rfl hdb
  · obtain rfl := Option.some.inj h
    exact tool_functions_asks
  · obtain rfl := Option.some.inj h
    exact tool_inspect_asks
  · obtain rfl := Option.some.inj h
    exact tool_decompile_asks
  · obtain rfl := Option.some.inj h
    exact tool_disassemble_asks
  · obtain rfl := Option.some.inj h
    exact tool_xrefs_asks
  · obtain rfl := Option.some.inj h
    exact tool_graph_asks
  · obtain rfl := Option.some.inj h
    exact tool_search_asks
  · obtain rfl := Option.some.inj h
    exact tool_bytes_asks
  · obtain rfl := Option.some.inj h
    exact tool_types_asks
  · obtain rfl := Option.some.inj h
    exact tool_edit_asks
  · obtain rfl := Option.some.inj h
    exact tool_analysis_asks
  · exact absurd rfl hbatch
  · obtain rfl := Option.some.inj h
    exact asking_of_serves (fun A => tool_result_serves _) .reads
  · obtain rfl := Option.some.inj h
    exact tool_segments_asks
  · cases h
  · cases h
  · cases h
  · cases h
  · obtain rfl := Option.some.inj h
    exact tool_evidence_asks
  · split at h
    · obtain rfl := Option.some.inj h
      exact tool_analyze_hierarchical_asks _
    · obtain rfl := Option.some.inj h
      exact tool_analyze_region_asks _
    · obtain rfl := Option.some.inj h
      exact tool_analyze_asks
  · obtain rfl := Option.some.inj h
    exact tool_deep_asks
  · obtain rfl := Option.some.inj h
    exact tool_type_recovery_asks
  · obtain rfl := Option.some.inj h
    exact tool_intel_asks
  · obtain rfl := Option.some.inj h
    exact tool_deobfuscate_asks
  · obtain rfl := Option.some.inj h
    exact tool_sig_asks
  · obtain rfl := Option.some.inj h
    exact tool_metadata_asks
  · obtain rfl := Option.some.inj h
    exact tool_imports_asks
  · obtain rfl := Option.some.inj h
    exact tool_fixups_asks
  · obtain rfl := Option.some.inj h
    exact tool_filemap_asks
  · obtain rfl := Option.some.inj h
    exact tool_func_asks
  · obtain rfl := Option.some.inj h
    exact tool_hr_asks
  · obtain rfl := Option.some.inj h
    exact tool_value_asks
  · obtain rfl := Option.some.inj h
    exact tool_insn_asks
  · obtain rfl := Option.some.inj h
    exact tool_mutation_asks
  · obtain rfl := Option.some.inj h
    exact asking_of_serves (fun A => .lift _) _

/-- So does an operation of a batch. -/
lemma run_named_asks (env : Env) (tool : String) (args : Json) :
    Asking ((manner tool args).Asks args) args (run_named env tool args) := by
  unfold run_named
  split
  · exact tool_functions_asks
  · exact tool_inspect_asks
  · exact tool_disassemble_asks
  · exact tool_decompile_asks
  · exact tool_xrefs_asks
  · exact tool_search_asks
  · exact tool_bytes_asks
  · exact tool_types_asks
  · exact tool_segments_asks
  · exact tool_metadata_asks
  · exact tool_imports_asks
  · exact tool_fixups_asks
  · exact tool_filemap_asks
  · exact tool_func_asks
  · exact tool_hr_asks
  · exact tool_value_asks
  · exact tool_insn_asks
  · exact asking_of_serves (fun A => reject_serves _ _) _

/-- What the operations of a batch can ask. -/
def BatchAsks (ops : List Json) (b : Broker) (db method : String) (params : Json) : Prop :=
  ∃ op ∈ ops, Names (opArgs op) b db ∧
    (manner (opTool op) (opArgs op)).Asks (opArgs op) method params

omit [Host] in
/-- A handle is resolved by the open databases. -/
lemma names_congr {b b' : Broker} (h : b'.open_dbs = b.open_dbs) (db : String) :
    Names args b' db ↔ Names args b db := by
  rw [Names, Names, h]

lemma run_ops_asks {env : ℕ → Env} {i : ℕ} {ops : List Json} {b b' : Broker}
    (h : (run_ops env i ops b).Leaves b') : Serves (BatchAsks ops b) b b' := by
  induction ops generalizing i b with
  | nil =>
    obtain rfl : b = b' := h
    exact .refl _ b
  | cons op ops ih =>
    rw [run_ops] at h
    have hop : ∀ b₁, (run_op (env i) i op b).Leaves b₁ → Serves (BatchAsks (op :: ops) b) b b₁ := by
      intro b₁ hb₁
      refine (run_named_asks (env i) (opTool op) (opArgs op) b b₁ (run_op_leaves hb₁)).imp ?_
      rintro db m p ⟨hnames, hm⟩
      exact ⟨op, List.mem_cons_self, hnames, hm⟩
    obtain ⟨e, he⟩ | ⟨r, b₁, hr, hrest⟩ := Action.bind_leaves h
    · exact hop b' (by rw [he]; rfl)
    · have hfirst := hop b₁ (by rw [hr]; rfl)
      have hops : (run_ops env (i + 1) ops b₁).Leaves b' := by
        obtain ⟨e, he⟩ | ⟨rs, b₂, hrs, hb₂⟩ := Action.bind_leaves hrest
        · rw [he]
          rfl
        · rw [hrs]
          exact hb₂
      refine hfirst.trans ((ih hops).imp ?_)
      rintro db m p ⟨op', hop', hnames, hm⟩
      exact ⟨op', List.mem_cons_of_mem op hop', (names_congr hfirst.open_dbs db).mp hnames, hm⟩

lemma tool_batch_asks {env : ℕ → Env} {b b' : Broker} (h : (tool_batch env args b).Leaves b') :
    Serves (BatchAsks (batchOps args) b) b b' := by
  rw [tool_batch] at h
  split at h
  · exact reject_serves _ _ _ _ h
  · obtain ⟨e, he⟩ | ⟨rs, b₁, hrs, hb₁⟩ := Action.bind_leaves h
    · exact run_ops_asks (by rw [he]; rfl)
    · exact run_ops_asks (by rw [hrs]; exact hb₁)

lemma read_asks {env : Env} {uri : String} {b b' : Broker} (h : (read env uri b).Leaves b') :
    Serves (fun db m _ => (∃ kind, splitUri uri = .ok (db, kind)) ∧ ReadsMethod m) b b' := by
  rw [read] at h
  obtain ⟨e, -, rfl⟩ | ⟨p, hp, hrest⟩ := Action.lift_bind_leaves h
  · exact .refl _ _
  · obtain ⟨id, kind⟩ := p
    have hcall : ∀ method, ReadsMethod method →
        Keeps (Serves fun db m _ => (∃ kind, splitUri uri = .ok (db, kind)) ∧ ReadsMethod m)
          (call_session env id method) := by
      intro method hm
      rw [call_session]
      refine Keeps.get.bind fun b => ?_
      split
      · exact call_serves ⟨⟨kind, hp⟩, hm⟩
      · exact reject_serves _ _
    have hmethod : ∀ method, resourceMethod kind = some method → ReadsMethod method := by
      intro method hm
      unfold resourceMethod at hm
      split at hm
      all_goals first
        | obtain rfl := Option.some.inj hm; exact ⟨_, rfl, rfl⟩
        | cases hm
    cases hm : resourceMethod kind with
    | none =>
      simp only [hm] at hrest
      exact reject_serves _ _ _ _ hrest
    | some method =>
      simp only [hm] at hrest
      exact ((hcall method (hmethod method hm)).bind fun _ => bound_output_serves _ _) _ _ hrest

end Chosen

end Host

end ReverseMcp.Tools
