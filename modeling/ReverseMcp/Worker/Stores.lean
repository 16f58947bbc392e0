import ReverseMcp.Worker.Effects

/-!
# What a request does to the index and to the result cache

Besides the backend the worker holds an analysis index, rebuilt when its revision is not the
current one, and a cache of results.  Most arms leave the index alone and leave the cache alone or
empty it (`SameStores`); the four that do more have an inversion lemma each.
-/

namespace ReverseMcp

open Rust

/-- The index is as before, and the cache is as before or empty. -/
structure SameStores (s s' : WorkerState) : Prop where
  index : s'.index = s.index
  entries : s'.workflow_cache.entries = s.workflow_cache.entries ∨
    s'.workflow_cache.entries = ∅

instance : Std.Refl SameStores := ⟨fun _ => ⟨rfl, .inl rfl⟩⟩

instance : IsTrans WorkerState SameStores := by
  refine ⟨fun s₁ s₂ s₃ h₁ h₂ => ⟨h₂.index.trans h₁.index, ?_⟩⟩
  rcases h₂.entries with h | h
  · rw [h]
    exact h₁.entries
  · exact .inr h

variable [Host]

/-! ## The arms that keep the stores -/

namespace Worker

open Rust.Action (Keeps)

omit [Host] in
lemma backend_keeps_stores : Keeps SameStores backend := by
  rw [backend]
  exact Keeps.get.bind fun s => .lift _

omit [Host] in
lemma setBackend_keeps_stores (b : MockBackend) : Keeps SameStores (setBackend b) :=
  Keeps.modify fun _ => ⟨rfl, .inl rfl⟩

omit [Host] in
lemma invalidate_keeps_stores : Keeps SameStores
    (Action.modify fun s => { s with workflow_cache := s.workflow_cache.invalidate_all } :
      Worker Unit) :=
  Keeps.modify fun _ => ⟨rfl, .inr rfl⟩

omit [Host] in
lemma mutate_keeps_stores (params : Json) (call : Mutation) :
    Keeps SameStores (mutate params call) := by
  rw [mutate]
  refine backend_keeps_stores.bind fun b => (Keeps.lift _).bind fun _ => ?_
  refine (Keeps.lift _).bind fun op => (Keeps.lift _).bind fun r => ?_
  refine (setBackend_keeps_stores _).bind fun _ => (Keeps.modify fun s => ?_).bind fun _ => .pure _
  exact ⟨rfl, .inl rfl⟩

omit [Host] in
lemma backendSelect_keeps_stores (params : Json) : Keeps SameStores (backendSelect params) := by
  rw [backendSelect]
  generalize (text_param params "kind").getD "mock" = kind
  split
  · exact (setBackend_keeps_stores _).bind fun _ => .pure _
  · exact .lift _
  · exact .lift _

omit [Host] in
lemma dbOpen_keeps_stores (params : Json) : Keeps SameStores (dbOpen params) := by
  rw [dbOpen]
  refine (Keeps.lift _).bind fun path => backend_keeps_stores.bind fun b => ?_
  exact (Keeps.lift _).bind fun r => (setBackend_keeps_stores _).bind fun _ => .pure _

omit [Host] in
lemma dbClose_keeps_stores : Keeps SameStores dbClose := by
  rw [dbClose]
  refine backend_keeps_stores.bind fun b => (Keeps.lift _).bind fun b' => ?_
  exact (setBackend_keeps_stores _).bind fun _ => .pure _

omit [Host] in
lemma snapshotCreate_keeps_stores : Keeps SameStores snapshotCreate := by
  rw [snapshotCreate]
  refine backend_keeps_stores.bind fun b => (Keeps.lift _).bind fun r => ?_
  exact (setBackend_keeps_stores _).bind fun _ => .pure _

lemma snapshotRestore_keeps_stores : Keeps SameStores snapshotRestore := by
  rw [snapshotRestore]
  refine backend_keeps_stores.bind fun b => (Keeps.lift _).bind fun r => ?_
  exact (setBackend_keeps_stores _).bind fun _ => .pure _

lemma planApply_keeps_stores (params : Json) : Keeps SameStores (planApply params) := by
  rw [planApply]
  refine (Keeps.lift _).bind fun ops_json => (Keeps.lift _).bind fun ops => ?_
  refine backend_keeps_stores.bind fun b => (Keeps.lift _).bind fun _ => ?_
  refine Keeps.get.bind fun s => (Keeps.lift _).bind fun r => ?_
  exact (Keeps.modify fun s => ⟨rfl, .inl rfl⟩).bind fun _ => .pure _

lemma typesApply_keeps_stores (params : Json) : Keeps SameStores (typesApply params) := by
  rw [typesApply]
  refine (Keeps.lift _).bind fun name => (Keeps.lift _).bind fun fields => ?_
  refine backend_keeps_stores.bind fun b => (Keeps.lift _).bind fun _ => ?_
  refine (Keeps.lift _).bind fun r => (setBackend_keeps_stores _).bind fun _ => ?_
  exact invalidate_keeps_stores.bind fun _ => .pure _

lemma deobApply_keeps_stores (params : Json) : Keeps SameStores (deobApply params) := by
  unfold deobApply Transforms.apply Transforms.applyPushed
  refine (Keeps.lift _).bind fun plan => (Keeps.lift _).bind fun _ => ?_
  refine (Keeps.lift _).bind fun target => Keeps.get.bind fun s => ?_
  cases s.backend with
  | none => exact .lift _
  | some b =>
    refine (Keeps.lift _).bind fun _ => (Keeps.lift _).bind fun r => ?_
    refine (Keeps.modify fun s => ⟨rfl, .inl rfl⟩).bind fun _ => ?_
    refine (Keeps.lift _).bind fun before => (Keeps.lift _).bind fun ops => ?_
    refine Keeps.get.bind fun s => (Keeps.lift _).bind fun q => ?_
    refine (Keeps.modify fun s => ⟨rfl, .inl rfl⟩).bind fun _ => ?_
    exact (Keeps.lift _).bind fun after => (Keeps.lift _).bind fun cfg => .pure _

end Worker

/-- The methods that use neither the index nor the result cache. -/
def Method.storeless : Method → Bool
  | indexed _ | cached _ | indexBuild | hrMicrocode => false
  | _ => true

lemma Method.run_keeps_stores (env : Env) {m : Method} (params : Json) (hm : m.storeless) :
    Action.Keeps SameStores (m.run env params) := by
  cases m with
  | read m => exact Action.Keeps.get.bind fun s => .lift _
  | mutate m =>
    refine (Action.Keeps.lift _).bind fun call => ?_
    refine (Worker.mutate_keeps_stores _ _).bind fun v => ?_
    dsimp only
    split
    · exact Worker.invalidate_keeps_stores.bind fun _ => .pure _
    · exact .pure _
  | backendSelect => exact Worker.backendSelect_keeps_stores params
  | shutdown => exact (Action.Keeps.modify fun s => ⟨rfl, .inl rfl⟩).bind fun _ => .pure _
  | dbOpen => exact Worker.dbOpen_keeps_stores params
  | dbClose => exact Worker.dbClose_keeps_stores
  | planApply => exact Worker.planApply_keeps_stores params
  | snapshotCreate => exact Worker.snapshotCreate_keeps_stores
  | snapshotRestore => exact Worker.snapshotRestore_keeps_stores
  | typesApply => exact Worker.typesApply_keeps_stores params
  | deobApply => exact Worker.deobApply_keeps_stores params
  | _ => cases hm

/-! ## The arms that use the index and the cache -/

namespace Worker

variable {s s' : WorkerState} {b : MockBackend}

omit [Host] in
lemma backend_bind_of_none {α : Type} (hb : s.backend = none) (f : MockBackend → Worker α) :
    (backend >>= f) s = .err (.worker "no db open") s := by
  have hbackend : (backend >>= f) s = (Action.lift (need_backend s) >>= f) s := rfl
  rw [hbackend, Action.lift_bind, need_backend_of_none hb]

omit [Host] in
lemma backend_bind_of_some {α : Type} (hb : s.backend = some b) (f : MockBackend → Worker α) :
    (backend >>= f) s = f b s := by
  have hbackend : (backend >>= f) s = (Action.lift (need_backend s) >>= f) s := rfl
  rw [hbackend, Action.lift_bind, need_backend_of_some hb]

/-- The index in force: the one at hand if it has the current revision, else a new one. -/
def indexInForce (b : MockBackend) (s : WorkerState) : Result (AnalysisIndex × String) :=
  match s.index with
  | some p => if p.1.revision = b.revision then .ok p else b.build_index
  | none => b.build_index

/-- The index in force is kept. -/
lemma ensure_index_eq (b : MockBackend) :
    ensure_index b = Action.transact (indexInForce b)
      (fun p s => { s with index := some p }) id := by
  funext s
  obtain ⟨backend, closed, audit, index, cache⟩ := s
  unfold ensure_index indexInForce Action.transact
  rw [Action.get_bind]
  cases index with
  | none =>
    dsimp only
    rw [Action.lift_bind]
    cases b.build_index <;> rfl
  | some p =>
    obtain ⟨idx, md5⟩ := p
    dsimp only
    split
    · rfl
    · rw [Action.lift_bind]
      cases b.build_index <;> rfl

/-- What comes behind the index is run with the index in force. -/
lemma ensure_index_bind {α : Type} (f : AnalysisIndex × String → Worker α) :
    (ensure_index b >>= f) s = match indexInForce b s with
      | .ok p => f p { s with index := some p }
      | .err e => .err e s
      | .panic p => .panic p := by
  rw [Action.bind_apply, ensure_index_eq, Action.transact]
  cases indexInForce b s <;> rfl

/-- A lookup finds what there is, and moves a counter. -/
lemma lookup_eq (key : CacheKey) :
    lookup key = Action.transact (fun s => s.workflow_cache.get key)
      (fun r s => { s with workflow_cache := r.2 }) Prod.fst := by
  rw [lookup]
  simp only [Action.lift_modify, Action.get_transact]

lemma get_eq_ok {c c' : WorkflowCache} {key : CacheKey} {found : Option Json}
    (h : c.get key = .ok (found, c')) : found = c.entries[key]? ∧ c'.entries = c.entries := by
  rw [WorkflowCache.get] at h
  split at h
  · rename_i v hv
    obtain ⟨hits, -, h⟩ := Outcome.bind_eq_ok.mp h
    cases h
    exact ⟨hv.symm, rfl⟩
  · rename_i hv
    obtain ⟨misses, -, h⟩ := Outcome.bind_eq_ok.mp h
    cases h
    exact ⟨hv.symm, rfl⟩

lemma get_ne_err (c : WorkflowCache) (key : CacheKey) (e : Error) : c.get key ≠ .err e := by
  unfold WorkflowCache.get addU64
  split
  · split <;> simp
  · split <;> simp

/-- How an answer through the cache comes about, and what it leaves. -/
lemma throughCache_leaves {key : CacheKey} {run : Result Json}
    (h : (throughCache key run s).Leaves s') :
    s'.backend = s.backend ∧ s'.index = s.index ∧
      (s'.workflow_cache.entries = s.workflow_cache.entries ∨
        ∃ v, run = .ok v ∧
          s'.workflow_cache.entries = s.workflow_cache.entries.insert key v) := by
  rw [throughCache] at h
  rw [lookup_eq] at h
  obtain ⟨e, he⟩ | ⟨found, t, ht, h⟩ := Action.bind_leaves h
  · exact absurd (Action.transact_eq_err.mp he).1 (get_ne_err _ _ _)
  obtain ⟨⟨found, c⟩, hget, rfl, rfl⟩ := Action.transact_eq_ok.mp ht
  obtain ⟨-, hc⟩ := get_eq_ok hget
  cases found with
  | some v =>
    have hs' : _ = s' := h
    subst hs'
    exact ⟨rfl, rfl, .inl hc⟩
  | none =>
    obtain ⟨e, -, rfl⟩ | ⟨v, hv, h⟩ := Action.lift_bind_leaves h
    · exact ⟨rfl, rfl, .inl hc⟩
    · have hs' : _ = s' := h
      subst hs'
      refine ⟨rfl, rfl, .inr ⟨v, hv, ?_⟩⟩
      show c.entries.insert key v = _
      rw [hc]

/-- An answer out of the cache is an entry of it. -/
lemma throughCache_hit {key : CacheKey} {run : Result Json} {v : Json}
    (h : throughCache key run s = .ok v s') (hv : v.idx "cached" = true) :
    s.workflow_cache.entries[key]? = some (v.idx "result") := by
  rw [throughCache] at h
  rw [lookup_eq] at h
  obtain ⟨found, t, ht, h⟩ := Action.bind_eq_ok.mp h
  obtain ⟨⟨found, c⟩, hget, rfl, rfl⟩ := Action.transact_eq_ok.mp ht
  obtain ⟨hfound, -⟩ := get_eq_ok hget
  cases found with
  | some r =>
    cases h
    exact hfound.symm
  | none =>
    -- a computed answer says so
    rw [uncached] at h
    obtain ⟨r, t, -, h⟩ := Action.bind_eq_ok.mp h
    cases h
    exact absurd hv (by simp [cachedAnswer, Json.idx, Json.get])

/-- With an empty cache an answer is computed. -/
lemma throughCache_empty {key : CacheKey} {run : Result Json} {r : Json}
    (hs : s.workflow_cache = .empty) (hr : run = .ok r) :
    ∃ v s', throughCache key run s = .ok v s' ∧ v.idx "result" = r := by
  have hget : s.workflow_cache.get key = .ok (none, { WorkflowCache.empty with misses := 1 }) := by
    have hmiss : WorkflowCache.empty.entries[key]? = none := Std.ExtTreeMap.getElem?_empty
    rw [hs, WorkflowCache.get, hmiss]
    rfl
  have hlookup : lookup key s =
      .ok none { s with workflow_cache := { WorkflowCache.empty with misses := 1 } } := by
    rw [lookup_eq]
    exact Action.transact_eq_ok.mpr ⟨_, hget, rfl, rfl⟩
  rw [throughCache]
  rw [Action.bind_apply, hlookup]
  dsimp only
  rw [uncached, Action.lift_bind, hr]
  exact ⟨_, _, rfl, rfl⟩

/-- The index that the request leaves was in force for it. -/
def TakesIndex (s s' : WorkerState) : Prop :=
  ∃ b p, s.backend = some b ∧ indexInForce b s = .ok p ∧ s'.index = some p

/-- The index that the request leaves was built by it. -/
def BuildsIndex (s s' : WorkerState) : Prop :=
  ∃ b p, s.backend = some b ∧ b.build_index = .ok p ∧ s'.index = some p

/-- An answer from the index, with a backend. -/
lemma indexed_of_some (hb : s.backend = some b) (call : IndexedCall) :
    indexed call s = match indexInForce b s with
      | .ok p => Action.lift (call b p.1 p.2) { s with index := some p }
      | .err e => .err e s
      | .panic p => .panic p := by
  rw [indexed]
  rw [backend_bind_of_some hb, ensure_index_bind]

lemma indexBuild_eq :
    indexBuild = Action.transact (fun s => need_backend s >>= fun b => b.build_index)
      (fun p s => { s with index := some p }) (fun p => p.1.summary) := by
  simp only [indexBuild, Action.lift_modify]
  exact backend_transact _ _ _

/-- The rest of a cached method behind the index. -/
def cachedBehind (call : CachedCall) (b : MockBackend) (idx : AnalysisIndex) : Worker Json := do
  let (key, run) ← Action.lift call.prepare
  if call.bypass then pastCache (run b idx) else throughCache (key b.revision) (run b idx)

/-- An answer from the index through the cache, with a backend. -/
lemma cached_of_some (hb : s.backend = some b) (call : CachedCall) :
    cached call s = match indexInForce b s with
      | .ok p => cachedBehind call b p.1 { s with index := some p }
      | .err e => .err e s
      | .panic p => .panic p := by
  rw [cached]
  rw [backend_bind_of_some hb, ensure_index_bind]
  rfl

lemma cachedBehind_index {call : CachedCall} {idx : AnalysisIndex}
    (h : (cachedBehind call b idx s).Leaves s') : s'.index = s.index := by
  rw [cachedBehind] at h
  obtain ⟨e, -, rfl⟩ | ⟨⟨key, run⟩, -, h⟩ := Action.lift_bind_leaves h
  · rfl
  dsimp only at h
  split at h
  · obtain ⟨e, -, rfl⟩ | ⟨v, -, h⟩ := Action.lift_bind_leaves h
    · rfl
    · rw [← show s = s' from h]
  · exact (throughCache_leaves h).2.1

end Worker

/-! ## The index that a request leaves -/

/-- The method is answered from the index; `sig.fingerprints` is not when it names a function. -/
def IndexedMethod.readsIndex (m : IndexedMethod) (params : Json) : Bool :=
  m ≠ .sigFingerprints || (params.get "ea").isNone

/-- The method is answered from the index. -/
def Method.usesIndex (m : Method) (params : Json) : Bool :=
  match m with
  | indexed m => m.readsIndex params
  | cached _ => true
  | _ => false

lemma Method.run_indexed (env : Env) {m : IndexedMethod} {params : Json}
    (h : m.readsIndex params) :
    (indexed m).run env params = Action.lift (m.call env params) >>= Worker.indexed := by
  simp only [run]
  cases m <;> try rfl
  cases hea : params.get "ea" with
  | none => rfl
  | some v => simp [IndexedMethod.readsIndex, hea] at h

lemma Method.run_fingerprints (env : Env) {m : IndexedMethod} {params : Json}
    (h : m.readsIndex params = false) (s : WorkerState) :
    ∃ x, (indexed m).run env params s = Action.lift x s := by
  simp only [IndexedMethod.readsIndex, Bool.or_eq_false_iff, decide_eq_false_iff_not, ne_eq,
    not_not] at h
  obtain ⟨rfl, hea⟩ := h
  cases hv : params.get "ea" with
  | none => simp [hv] at hea
  | some v => exact ⟨fingerprintsAt params v s, by simp only [run, hv, Action.get_bind]⟩

namespace Worker

variable {s s' : WorkerState}

/-- A method that goes on from the index in force leaves all as it is, and has no value, or goes
on. -/
lemma fromIndex_leaves {a : Worker Json} {k : MockBackend → AnalysisIndex × String → Worker Json}
    (hnone : s.backend = none → a s = .err (.worker "no db open") s)
    (hsome : ∀ b, s.backend = some b → a s = match indexInForce b s with
      | .ok p => k b p { s with index := some p }
      | .err e => .err e s
      | .panic p => .panic p)
    (h : (a s).Leaves s') : (s' = s ∧ ∀ v, a s ≠ .ok v s') ∨ ∃ b p, s.backend = some b ∧
      indexInForce b s = .ok p ∧ (k b p { s with index := some p }).Leaves s' := by
  by_cases hb : s.backend = none
  · rw [hnone hb] at h ⊢
    exact .inl ⟨h.symm, by simp⟩
  · obtain ⟨b, hb⟩ := Option.ne_none_iff_exists'.mp hb
    rw [hsome b hb] at h ⊢
    cases hp : indexInForce b s with
    | panic p =>
      rw [hp] at h
      exact h.elim
    | err e =>
      rw [hp] at h
      exact .inl ⟨h.symm, by simp⟩
    | ok p =>
      rw [hp] at h
      exact .inr ⟨b, p, hb, hp, h⟩

/-- An index-backed method leaves the index alone or takes the one in force; it takes it if it
succeeds. -/
lemma indexed_leaves {call : IndexedCall} (h : (indexed call s).Leaves s') :
    (s' = s ∧ ∀ v, indexed call s ≠ .ok v s') ∨
      TakesIndex s s' ∧ s'.workflow_cache = s.workflow_cache := by
  obtain hsame | ⟨b, p, hb, hp, hcall⟩ := fromIndex_leaves (fun hb => backend_bind_of_none hb _)
    (fun b hb => indexed_of_some hb call) h
  · exact .inl hsame
  · obtain rfl := Action.lift_leaves hcall
    exact .inr ⟨⟨b, p, hb, hp, rfl⟩, rfl⟩

/-- A cached method that is given a backend leaves the index alone or takes the one in force; it
takes it if it succeeds. -/
lemma cached_leaves {call : CachedCall} (h : (cached call s).Leaves s') :
    (s' = s ∧ ∀ v, cached call s ≠ .ok v s') ∨ TakesIndex s s' := by
  obtain hsame | ⟨b, p, hb, hp, hcall⟩ := fromIndex_leaves (fun hb => backend_bind_of_none hb _)
    (fun b hb => cached_of_some hb call) h
  · exact .inl hsame
  · exact .inr ⟨b, p, hb, hp, cachedBehind_index hcall⟩

end Worker

/-- The index that a request leaves is the one it found, or the one in force, or built by
`index.build`. -/
lemma Method.run_index {env : Env} {m : Method} {params : Json} {s s' : WorkerState}
    (h : (m.run env params s).Leaves s') :
    s'.index = s.index ∨ m.reads ∧ Worker.TakesIndex s s' ∨
      m = indexBuild ∧ Worker.BuildsIndex s s' := by
  by_cases hm : m.storeless
  · exact .inl (run_keeps_stores env params hm s s' h).index
  cases m with
  -- these methods take the index, except for fingerprints
  | indexed m =>
    cases hr : m.readsIndex params with
    | true =>
      rw [run_indexed env hr] at h
      obtain ⟨e, -, rfl⟩ | ⟨call, -, h⟩ := Action.lift_bind_leaves h
      · exact .inl rfl
      obtain ⟨rfl, -⟩ | ⟨htakes, -⟩ := Worker.indexed_leaves h
      · exact .inl rfl
      · exact .inr (.inl ⟨rfl, htakes⟩)
    | false =>
      obtain ⟨x, hx⟩ := run_fingerprints env hr s
      rw [hx] at h
      exact .inl (by rw [Action.lift_leaves h])
  | cached m =>
    simp only [run] at h
    obtain ⟨e, -, rfl⟩ | ⟨call, -, h⟩ := Action.lift_bind_leaves h
    · exact .inl rfl
    obtain ⟨rfl, -⟩ | htakes := Worker.cached_leaves h
    · exact .inl rfl
    · exact .inr (.inl ⟨rfl, htakes⟩)
  | indexBuild =>
    simp only [run, Worker.indexBuild_eq] at h
    obtain ⟨p, hp, rfl⟩ | ⟨e, -, rfl⟩ := Action.transact_leaves h
    · obtain ⟨b, hb, hp⟩ := Outcome.bind_eq_ok.mp hp
      exact .inr (.inr ⟨rfl, b, p, Outcome.ofOption_eq_ok.mp hb, hp, rfl⟩)
    · exact .inl rfl
  | hrMicrocode =>
    -- through the cache, but not with the index
    simp only [run, Worker.hrMicrocode] at h
    obtain ⟨e, -, rfl⟩ | ⟨ea, -, h⟩ := Action.lift_bind_leaves h
    · exact .inl rfl
    cases hb : s.backend with
    | none =>
      rw [Worker.backend_bind_of_none hb] at h
      exact .inl (by rw [← show s = s' from h])
    | some b =>
      rw [Worker.backend_bind_of_some hb] at h
      exact .inl (Worker.throughCache_leaves h).2.1
  | _ => exact absurd rfl hm

/-- A method that is answered from the index has taken the index. -/
lemma Method.run_takesIndex {env : Env} {m : Method} {params v : Json} {s s' : WorkerState}
    (hm : m.usesIndex params) (h : m.run env params s = .ok v s') : Worker.TakesIndex s s' := by
  cases m with
  | indexed m =>
    rw [run_indexed env hm] at h
    obtain ⟨call, -, h⟩ := Action.lift_bind_eq_ok.mp h
    obtain ⟨-, hne⟩ | ⟨htakes, -⟩ := Worker.indexed_leaves (Reply.leaves_of_ok h)
    · exact absurd h (hne v)
    · exact htakes
  | cached m =>
    simp only [run] at h
    obtain ⟨call, -, h⟩ := Action.lift_bind_eq_ok.mp h
    obtain ⟨-, hne⟩ | htakes := Worker.cached_leaves (Reply.leaves_of_ok h)
    · exact absurd h (hne v)
    · exact htakes
  | _ => cases hm

end ReverseMcp
