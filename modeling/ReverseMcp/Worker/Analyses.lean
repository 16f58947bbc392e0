import ReverseMcp.Worker.CacheRuns
import ReverseMcp.Worker.Freshness

/-!
# The methods that answer through the cache

A request to one of the six cached methods is an analysis answered through the cache, or it does
not get as far as the cache (`Method.run_cases`).
-/

namespace ReverseMcp

open Rust

/-- The method is one of those that answer through the cache. -/
def Method.answersThrough : Method → Bool
  | cached _ | hrMicrocode => true
  | _ => false

section Host

variable [Host]

omit [Host] in
/-- The computation gives `v` on the backend `b`, with the index at hand if it needs one. -/
def CacheRun.Gives (r : CacheRun) (b : MockBackend) (index : Option (AnalysisIndex × String))
    (v : Json) : Prop :=
  match r with
  | plain run => run b = .ok v
  | indexed run => ∃ p ∈ index, p.1.revision = b.revision ∧ run b p.1 = .ok v

/-- The analysis does not see the snapshot stack. -/
lemma Analysis.gives_withSnapshots (a : Analysis) {b : MockBackend} {l : List SnapshotState}
    {index : Option (AnalysisIndex × String)} {v : Json} (h : a.run.Gives b index v) :
    a.run.Gives (b.withSnapshots l) index v := by
  cases a with
  | workflow req =>
    obtain ⟨p, hp, hrev, hrun⟩ := h
    exact ⟨p, hp, hrev, (Workflow.run_withSnapshots b l p.1 req).trans hrun⟩
  | deepFunction root budgets =>
    obtain ⟨p, hp, hrev, hrun⟩ := h
    exact ⟨p, hp, hrev, (Deep.deep_function_withSnapshots b l p.1 budgets root none).trans hrun⟩
  | deepDataflow target direction budgets =>
    obtain ⟨p, hp, hrev, hrun⟩ := h
    exact ⟨p, hp, hrev,
      (Deep.trace_dataflow_withSnapshots b l p.1 budgets target direction).trans hrun⟩
  | valuePropagate target budgets =>
    obtain ⟨p, hp, hrev, hrun⟩ := h
    exact ⟨p, hp, hrev, (Valuean.value_analysis_withSnapshots b l p.1 budgets target).trans hrun⟩
  | intelCrypto max ruleset =>
    obtain ⟨p, hp, hrev, hrun⟩ := h
    exact ⟨p, hp, hrev, (Crypto.crypto_scan_withSnapshots b l p.1 max (some ruleset)).trans hrun⟩
  | hrMicrocode ea maturity max_insns =>
    exact (MockBackend.hr_microcode_withSnapshots b l ea maturity max_insns).trans h

/-! ## An analysis through the cache -/

namespace Worker

/-- The answer of an analysis through the cache. -/
def analyze (a : Analysis) : Worker Json := do
  let b ← backend
  match a.run with
  | .plain run => throughCache (a.key b.revision) (run b)
  | .indexed run =>
    let (idx, _) ← ensure_index b
    throughCache (a.key b.revision) (run b idx)

variable {a : Analysis} {s s' : WorkerState} {b : MockBackend}

lemma indexInForce_revision {p : AnalysisIndex × String} (h : indexInForce b s = .ok p) :
    p.1.revision = b.revision := by
  rw [indexInForce] at h
  split at h
  · split at h
    · rename_i hrev
      cases h
      exact hrev
    · exact build_index_revision h
  · exact build_index_revision h

/-- With a backend, the answer is one through the cache, from a state that differs in the index
only. -/
lemma analyze_cases (hb : s.backend = some b) :
    (∃ run t, analyze a s = throughCache (a.key b.revision) run t ∧ t.backend = s.backend ∧
        t.workflow_cache = s.workflow_cache ∧
        (∀ v, run = .ok v → a.run.Gives b t.index v)) ∨
      (∃ e, analyze a s = .err e s) ∨ ∃ p, analyze a s = .panic p := by
  rw [analyze]
  rw [backend_bind_of_some hb]
  cases hrun : a.run with
  | plain run => exact .inl ⟨run b, s, rfl, rfl, rfl, fun v hv => hv⟩
  | indexed run =>
    dsimp only
    rw [ensure_index_bind]
    cases hp : indexInForce b s with
    | ok p =>
      refine .inl ⟨run b p.1, { s with index := some p }, rfl, rfl, rfl, fun v hv => ?_⟩
      exact ⟨p, rfl, indexInForce_revision hp, hv⟩
    | err e => exact .inr (.inl ⟨e, rfl⟩)
    | panic e => exact .inr (.inr ⟨e, rfl⟩)

lemma analyze_of_none (hb : s.backend = none) : analyze a s = .err (.worker "no db open") s :=
  backend_bind_of_none hb _

/-- An answer out of the cache is an entry of it. -/
lemma analyze_hit {v : Json} (h : analyze a s = .ok v s') (hv : v.idx "cached" = true) :
    ∃ b, s.backend = some b ∧
      s.workflow_cache.entries[a.key b.revision]? = some (v.idx "result") := by
  cases hb : s.backend with
  | none =>
    rw [analyze_of_none hb] at h
    cases h
  | some b =>
    rcases @analyze_cases _ a s b hb with ⟨run, t, heq, -, hcache, -⟩ | ⟨e, heq⟩ | ⟨p, heq⟩
    · rw [heq] at h
      refine ⟨b, rfl, ?_⟩
      rw [← hcache]
      exact throughCache_hit h hv
    · rw [heq] at h
      cases h
    · rw [heq] at h
      cases h

/-- With an empty cache, the answer is what the computation gives. -/
lemma analyze_empty {r : Json} (hb : s.backend = some b) (hs : s.workflow_cache = .empty)
    (hr : a.run.Gives b s.index r) : ∃ v s', analyze a s = .ok v s' ∧ v.idx "result" = r := by
  rw [analyze]
  rw [backend_bind_of_some hb]
  cases hrun : a.run with
  | plain run =>
    rw [hrun] at hr
    exact throughCache_empty hs hr
  | indexed run =>
    rw [hrun] at hr
    obtain ⟨p, hp, hrev, hgives⟩ := hr
    have hforce : indexInForce b s = .ok p := by
      rw [indexInForce, show s.index = some p from hp]
      exact if_pos hrev
    dsimp only
    rw [ensure_index_bind, hforce]
    exact throughCache_empty hs hgives

/-- What an analysis leaves in the cache. -/
lemma analyze_entries (h : (analyze a s).Leaves s') :
    s'.workflow_cache.entries = s.workflow_cache.entries ∨
      ∃ b v, s'.backend = some b ∧ s.backend = some b ∧ a.run.Gives b s'.index v ∧
        s'.workflow_cache.entries = s.workflow_cache.entries.insert (a.key b.revision) v := by
  cases hb : s.backend with
  | none =>
    rw [analyze_of_none hb] at h
    exact .inl (by rw [← show s = s' from h])
  | some b =>
    rcases @analyze_cases _ a s b hb with ⟨run, t, heq, htb, hcache, hgives⟩ | ⟨e, heq⟩ | ⟨p, heq⟩
    · rw [heq] at h
      obtain ⟨hb', hidx, hsame | ⟨v, hv, hins⟩⟩ := throughCache_leaves h
      · exact .inl (by rw [hsame, hcache])
      · refine .inr ⟨b, v, hb'.trans (htb.trans hb), rfl, ?_, by rw [hins, hcache]⟩
        rw [hidx]
        exact hgives v hv
    · rw [heq] at h
      exact .inl (by rw [← show s = s' from h])
    · rw [heq] at h
      exact h.elim

end Worker

/-! ## Requests -/

omit [Host] in
lemma budgets_from_deadline {env : Env} {params : Json} (h : params.get "timeout_ms" = none) :
    (budgets_from env params).deadline = none := by
  simp [budgets_from, h]

/-- What a cached method prepares is the key and the computation of an analysis. -/
lemma CachedMethod.call_analysis {env : Env} {m : CachedMethod} {params : Json} {call : CachedCall}
    {key : U64 → CacheKey} {run : MockBackend → AnalysisIndex → Result Json}
    (ht : params.get "timeout_ms" = none) (hcall : m.call env params = .ok call)
    (hb : call.bypass = false) (hprep : call.prepare = .ok (key, run)) :
    ∃ a : Analysis, a.Admitted { r | Rules.load_effective env = .ok r } ∧ a.key = key ∧
      a.run = .indexed run := by
  have hbudgets : (budgets_from env params).deadline = none := budgets_from_deadline ht
  cases m with
  | workflowRun =>
    simp only [CachedMethod.call, Outcome.bind_eq_ok, Outcome.pure_eq, Outcome.ok.injEq] at hcall
    obtain ⟨req, -, rfl⟩ := hcall
    cases hprep
    exact ⟨.workflow req, trivial, rfl, rfl⟩
  | deepFunction =>
    simp only [CachedMethod.call, Outcome.bind_eq_ok, Outcome.pure_eq, Outcome.ok.injEq] at hcall
    obtain ⟨root, -, rfl⟩ := hcall
    cases hprep
    -- a call that resumes goes past the cache, so nothing is resumed here
    have hresume : (params.get "resume_from").filter Json.isObject = none :=
      Option.isSome_eq_false_iff.mp hb |> Option.isNone_iff_eq_none.mp
    exact ⟨.deepFunction root (budgets_from env params), hbudgets, rfl, by rw [hresume]; rfl⟩
  | deepDataflow =>
    simp only [CachedMethod.call, Outcome.bind_eq_ok, Outcome.pure_eq, Outcome.ok.injEq,
      failIf_eq_ok] at hcall
    obtain ⟨target, -, _, hdir, rfl⟩ := hcall
    cases hprep
    exact ⟨.deepDataflow target _ (budgets_from env params), ⟨not_not.mp hdir, hbudgets⟩, rfl, rfl⟩
  | valuePropagate =>
    simp only [CachedMethod.call, Outcome.bind_eq_ok, Outcome.pure_eq, Outcome.ok.injEq] at hcall
    obtain ⟨target, -, rfl⟩ := hcall
    cases hprep
    exact ⟨.valuePropagate target (budgets_from env params), hbudgets, rfl, rfl⟩
  | intelCrypto =>
    simp only [CachedMethod.call, Outcome.pure_eq, Outcome.ok.injEq] at hcall
    subst hcall
    simp only [Outcome.bind_eq_ok, Outcome.ok.injEq, Prod.mk.injEq] at hprep
    obtain ⟨ruleset, hload, rfl, rfl⟩ := hprep
    exact ⟨.intelCrypto _ ruleset, hload, rfl, rfl⟩

/-- The call neither writes the cache nor answers from it. -/
structure Worker.Past (x : Worker Json) : Prop where
  entries : ∀ s s', (x s).Leaves s' → s'.workflow_cache.entries = s.workflow_cache.entries
  computed : ∀ s v s', x s = .ok v s' → v.idx "cached" ≠ true

namespace Worker

omit [Host] in
lemma Past.lift_bind {α : Type} {x : Result α} {f : α → Worker Json}
    (h : ∀ a, x = .ok a → Past (f a)) : Past (Action.lift x >>= f) := by
  refine ⟨fun s s' hs => ?_, fun s v s' hs => ?_⟩
  · obtain ⟨e, -, rfl⟩ | ⟨a, ha, hs⟩ := Action.lift_bind_leaves hs
    · rfl
    · exact (h a ha).entries s s' hs
  · obtain ⟨a, ha, hs⟩ := Action.lift_bind_eq_ok.mp hs
    exact (h a ha).computed s v s' hs

omit [Host] in
lemma past_pastCache (run : Result Json) : Past (pastCache run) := by
  refine Past.lift_bind fun r _ => ⟨fun s s' hs => ?_, fun s v s' hs => ?_⟩
  · rw [← show s = s' from hs]
  · cases hs
    simp [cachedAnswer, Json.idx, Json.get]

/-- A resumed walk, and an analysis that cannot be prepared, go past the cache. -/
lemma cachedBehind_past {call : CachedCall} (h : call.bypass = true ∨ ∀ r, call.prepare ≠ .ok r)
    (b : MockBackend) (idx : AnalysisIndex) : Past (cachedBehind call b idx) := by
  refine Past.lift_bind fun ⟨key, run⟩ hprep => ?_
  rcases h with hbypass | hnone
  · dsimp only
    rw [if_pos hbypass]
    exact past_pastCache _
  · exact absurd hprep (hnone _)

lemma cached_cases (call : CachedCall) (s : WorkerState) :
    (∃ b p, cached call s = cachedBehind call b p.1 { s with index := some p }) ∨
      (∃ e, cached call s = .err e s) ∨ ∃ p, cached call s = .panic p := by
  cases hb : s.backend with
  | none => exact .inr (.inl ⟨_, backend_bind_of_none hb _⟩)
  | some b =>
    have heq := @cached_of_some _ s b hb call
    cases hp : indexInForce b s with
    | ok p => exact .inl ⟨b, p, by rw [heq, hp, hb]⟩
    | err e => exact .inr (.inl ⟨e, by rw [heq, hp]⟩)
    | panic e => exact .inr (.inr ⟨e, by rw [heq, hp]⟩)

lemma cached_past {call : CachedCall} (h : ∀ b idx, Past (cachedBehind call b idx)) :
    Past (cached call) := by
  constructor
  · intro s s' hs
    rcases cached_cases call s with ⟨b, p, heq⟩ | ⟨e, heq⟩ | ⟨e, heq⟩
    · rw [heq] at hs
      exact (h b p.1).entries { s with index := some p } s' hs
    · rw [heq] at hs
      rw [← show s = s' from hs]
    · rw [heq] at hs
      exact hs.elim
  · intro s v s' hs
    rcases cached_cases call s with ⟨b, p, heq⟩ | ⟨e, heq⟩ | ⟨e, heq⟩
    · rw [heq] at hs
      exact (h b p.1).computed { s with index := some p } v s' hs
    · rw [heq] at hs
      cases hs
    · rw [heq] at hs
      cases hs

end Worker

/-- A request to a cached method is an analysis through the cache, or goes past the cache. -/
theorem Method.run_cases {env : Env} {m : Method} {params : Json} (hm : m.answersThrough)
    (ht : params.get "timeout_ms" = none) :
    (∃ a : Analysis, a.Admitted { r | Rules.load_effective env = .ok r } ∧
        m.run env params = Worker.analyze a) ∨
      Worker.Past (m.run env params) := by
  cases m with
  | cached m =>
    simp only [run]
    cases hcall : m.call env params with
    | err e => exact .inr (Worker.Past.lift_bind (by simp))
    | panic p => exact .inr (Worker.Past.lift_bind (by simp))
    | ok call =>
      have hrun : (Action.lift (.ok call) >>= Worker.cached : Worker Json) =
        Worker.cached call := rfl
      rw [hrun]
      -- what fails before the lookup, or bypasses it, goes past the cache
      cases hbypass : call.bypass with
      | true => exact .inr (Worker.cached_past (Worker.cachedBehind_past (.inl hbypass)))
      | false =>
        cases hprep : call.prepare with
        | err e => exact .inr (Worker.cached_past
            (Worker.cachedBehind_past (.inr (by simp [hprep]))))
        | panic p =>
          exact .inr (Worker.cached_past (Worker.cachedBehind_past (.inr (by simp [hprep]))))
        | ok r =>
          obtain ⟨key, run⟩ := r
          obtain ⟨a, ha, hkey, harun⟩ := CachedMethod.call_analysis ht hcall hbypass hprep
          refine .inl ⟨a, ha, ?_⟩
          rw [Worker.cached, Worker.analyze]
          rw [harun, hprep, hbypass, hkey]
          rfl
  | hrMicrocode =>
    simp only [run, Worker.hrMicrocode]
    cases hea : ea_param params "ea" with
    | err e => exact .inr (Worker.Past.lift_bind (by simp))
    | panic p => exact .inr (Worker.Past.lift_bind (by simp))
    | ok ea => exact .inl ⟨.hrMicrocode ea _ _, trivial, rfl⟩
  | _ => cases hm

end Host

end ReverseMcp
