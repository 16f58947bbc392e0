import ReverseMcp.Worker.CacheKeys

/-!
# The analyses do not look at the snapshot stack

A cached result is kept while snapshots come and go.  That is right because nothing of an analysis
depends on the snapshots: the backend calls do not, and so neither do the loops around them.
-/

namespace ReverseMcp

open Rust

/-- The backend with another snapshot stack. -/
def MockBackend.withSnapshots (b : MockBackend) (snapshots : List SnapshotState) : MockBackend :=
  { b with snapshots }

variable [Host] (b : MockBackend) (l : List SnapshotState) (idx : AnalysisIndex)

/-! ## Backend calls -/

namespace MockBackend

omit [Host] in
@[simp] lemma xrefs_to_withSnapshots (ea : U64) :
    (b.withSnapshots l).xrefs_to ea = b.xrefs_to ea := rfl

@[simp] lemma deep_function_info_withSnapshots (ea : U64) (max_calls : ℕ) :
    (b.withSnapshots l).deep_function_info ea max_calls = b.deep_function_info ea max_calls := rfl

omit [Host] in
@[simp] lemma get_bytes_withSnapshots (ea : U64) (n : ℕ) :
    (b.withSnapshots l).get_bytes ea n = b.get_bytes ea n := rfl

omit [Host] in
@[simp] lemma segments_withSnapshots : (b.withSnapshots l).segments = b.segments := rfl

@[simp] lemma hr_microcode_withSnapshots (ea : U64) (maturity max_insns : ℕ) :
    (b.withSnapshots l).hr_microcode ea maturity max_insns =
      b.hr_microcode ea maturity max_insns := rfl

end MockBackend

/-! ## Workflows -/

namespace Workflow

lemma snippet_withSnapshots (ea : U64) (n : ℕ) :
    snippet (b.withSnapshots l) ea n = snippet b ea n := rfl

lemma referenceRows_withSnapshots (detail : String) (max_functions : ℕ) (seen : AddrSet)
    (xs : List XrefInfo) : referenceRows (b.withSnapshots l) idx detail max_functions seen xs =
      referenceRows b idx detail max_functions seen xs := by
  induction xs generalizing seen with
  | nil => rfl
  | cons x xs ih => simp only [referenceRows, ih, snippet_withSnapshots]

lemma run_withSnapshots (req : WorkflowRequest) :
    run (b.withSnapshots l) idx req = run b idx req := by
  have hcontext : ∀ full, function_context (b.withSnapshots l) idx req full =
      function_context b idx req full := fun full => rfl
  have hreference : ∀ n, reference_context (b.withSnapshots l) idx req n =
      reference_context b idx req n := by
    intro n
    simp only [reference_context, referenceRows_withSnapshots, MockBackend.xrefs_to_withSnapshots]
  have hrow : ∀ detail, subsystemRow (b.withSnapshots l) idx detail = subsystemRow b idx detail :=
    fun detail => rfl
  have hsubsystem : ∀ n, subsystem_context (b.withSnapshots l) idx req n =
      subsystem_context b idx req n := by
    intro n
    simp only [subsystem_context, hrow]
  simp only [run, hcontext, hreference, hsubsystem]

end Workflow

/-! ## Deep analysis -/

namespace Deep

variable (budgets : DeepBudgets)

lemma walk_withSnapshots (n : ℕ) (w : Walk) :
    walk (b.withSnapshots l) idx budgets n w = walk b idx budgets n w := by
  induction n generalizing w with
  | zero =>
    unfold walk
    rfl
  | succ n ih =>
    unfold walk
    simp only [MockBackend.deep_function_info_withSnapshots, ih]

lemma propagate_withSnapshots (callers : AddrMap (List U64)) (n iteration : ℕ) (dirty : AddrSet)
    (dossiers : AddrMap FunctionDossier) (changes : List TypeChange) (trace : List Json) :
    propagate (b.withSnapshots l) budgets callers n iteration dirty dossiers changes trace =
      propagate b budgets callers n iteration dirty dossiers changes trace := by
  have hrecheck : ∀ i, recheck (b.withSnapshots l) budgets i = recheck b budgets i := fun i => rfl
  induction n generalizing iteration dirty dossiers changes trace with
  | zero => rfl
  | succ n ih => simp only [propagate, hrecheck, ih]

lemma deep_function_withSnapshots (root : U64) (resume : Option Json) :
    deep_function (b.withSnapshots l) idx root budgets resume =
      deep_function b idx root budgets resume := by
  simp only [deep_function, walk_withSnapshots, propagate_withSnapshots]

lemma traceFrontier_withSnapshots (direction : String) (frontier next : List U64) (t : Trace) :
    traceFrontier (b.withSnapshots l) idx direction budgets frontier next t =
      traceFrontier b idx direction budgets frontier next t := by
  induction frontier generalizing next t with
  | nil => rfl
  | cons cur rest ih =>
    simp only [traceFrontier, MockBackend.deep_function_info_withSnapshots, ih]

lemma trace_dataflow_withSnapshots (target : U64) (direction : String) :
    trace_dataflow (b.withSnapshots l) idx target direction budgets =
      trace_dataflow b idx target direction budgets := by
  have hlevels :
      ∀ n frontier t, traceLevels (b.withSnapshots l) idx direction budgets n frontier t =
      traceLevels b idx direction budgets n frontier t := by
    intro n
    induction n with
    | zero => exact fun _ _ => rfl
    | succ n ih =>
      intro frontier t
      simp only [traceLevels, traceFrontier_withSnapshots, ih]
  simp only [trace_dataflow, hlevels]

end Deep

/-! ## Value analysis -/

namespace Valuean

variable (budgets : DeepBudgets)

lemma valueFrontier_withSnapshots (frontier next : List U64) (visited : AddrSet) (c : Collected) :
    valueFrontier (b.withSnapshots l) idx budgets frontier next visited c =
      valueFrontier b idx budgets frontier next visited c := by
  have hcollect : ∀ ea n c, collect_function_values (b.withSnapshots l) idx ea n c =
      collect_function_values b idx ea n c := fun ea n c => rfl
  induction frontier generalizing next visited c with
  | nil => rfl
  | cons callee rest ih => simp only [valueFrontier, hcollect, ih]

lemma value_analysis_withSnapshots (root : U64) :
    value_analysis (b.withSnapshots l) idx root budgets = value_analysis b idx root budgets := by
  have hcollect : ∀ ea n c, collect_function_values (b.withSnapshots l) idx ea n c =
      collect_function_values b idx ea n c := fun ea n c => rfl
  have hlevels : ∀ n depth frontier visited c,
      valueLevels (b.withSnapshots l) idx budgets n depth frontier visited c =
        valueLevels b idx budgets n depth frontier visited c := by
    intro n
    induction n with
    | zero => exact fun _ _ _ _ => rfl
    | succ n ih =>
      intro depth frontier visited c
      simp only [valueLevels, valueFrontier_withSnapshots, ih]
  simp only [value_analysis, hcollect, hlevels]

end Valuean

/-! ## Constant scans -/

namespace Crypto

lemma scanChunks_withSnapshots (rules : List PackedRule) (limit : ℕ) (chunks : List (U64 × ℕ))
    (hits : List ConstHit) : scanChunks (b.withSnapshots l) rules limit chunks hits =
      scanChunks b rules limit chunks hits := by
  induction chunks generalizing hits with
  | nil => rfl
  | cons chunk rest ih =>
    obtain ⟨base, want⟩ := chunk
    simp only [scanChunks, MockBackend.get_bytes_withSnapshots, ih]

lemma crypto_scan_withSnapshots (max_hits : ℕ) (rules : Option RuleSet) :
    crypto_scan (b.withSnapshots l) idx max_hits rules = crypto_scan b idx max_hits rules := by
  have hsegments : ∀ rules limit segs hits, scanSegments (b.withSnapshots l) rules limit segs hits =
      scanSegments b rules limit segs hits := by
    intro rules limit segs
    induction segs with
    | nil => exact fun _ => rfl
    | cons seg segs ih =>
      intro hits
      simp only [scanSegments, scanChunks_withSnapshots, ih]
  simp only [crypto_scan, hsegments, MockBackend.segments_withSnapshots]

end Crypto

end ReverseMcp
