import ReverseMcp.Worker.Analyses

/-!
# Cache coherence

A cached result is found again under the analysis, its arguments and the revision.  It is right as
long as the revision stands for everything that the analysis depends on: the content of the
database, whether it is open, and the index.  Three requests change one of these and keep both the
cache and the revision: `db.open` and `db.close`, `backend.select`, and an `index.build` that
replaces an outdated index.

`cache_coherent` is about every run in which these find the cache without an entry that they could
make wrong.
-/

namespace ReverseMcp

open Rust

/-- The response has `cached` set, from a method that answers through the cache. -/
def WorkerEvent.AnsweredFromCache (e : WorkerEvent) : Prop :=
  (∃ m ∈ Method.parse e.req.method, m.answersThrough) ∧
    ∃ v ∈ e.resp.result.toOption, v.idx "cached" = true

instance (e : WorkerEvent) : Decidable e.AnsweredFromCache :=
  inferInstanceAs (Decidable ((∃ m ∈ Method.parse e.req.method, _) ∧
    ∃ v ∈ e.resp.result.toOption, _))

/-- The request opens a closed database or closes an open one. -/
def WorkerRequest.toggles (req : WorkerRequest) (b : MockBackend) : Prop :=
  (req.method = "db.open" ∧ b.open_path = none ∧ (text_param req.params "path").isSome) ∨
    (req.method = "db.close" ∧ b.open_path.isSome)

instance (req : WorkerRequest) (b : MockBackend) : Decidable (req.toggles b) :=
  inferInstanceAs (Decidable (_ ∨ _))

/-- The cache has an entry of the current revision. -/
def WorkerState.HasCurrent (s : WorkerState) (b : MockBackend) : Prop :=
  ∃ k ∈ s.workflow_cache.entries.keys, k.2.2 = b.revision

instance (s : WorkerState) (b : MockBackend) : Decidable (s.HasCurrent b) :=
  inferInstanceAs (Decidable (∃ k ∈ s.workflow_cache.entries.keys, _))

section Host

variable [Host]

/-- The request does not take away from under the cache what its entries depend on. -/
def CacheSafe (s : WorkerState) (e : WorkerEvent) : Prop :=
  (e.req.selectsMock → s.workflow_cache.entries.isEmpty) ∧
    ∀ b ∈ s.backend, NoWrap b.revision e.req.opCount ∧
      (e.req.toggles b → ¬ s.HasCurrent b) ∧
      (e.req.method = "index.build" → ∀ p ∈ s.index, p.1.revision = b.revision →
        b.build_index = .ok p ∨ ¬ s.HasCurrent b)

omit [Host] in
instance {_ : Host} (s : WorkerState) (e : WorkerEvent) : Decidable (CacheSafe s e) :=
  inferInstanceAs (Decidable ((_ → _) ∧ ∀ b ∈ s.backend, _ ∧ (_ → ¬ s.HasCurrent b) ∧
    (_ → ∀ p ∈ s.index, _ → _ ∨ ¬ s.HasCurrent b)))

/-- The entries are not of later revisions, and those of the current one are what an analysis
gives now. -/
def CacheSound (R : Set RuleSet) (s : WorkerState) : Prop :=
  ∀ key v, s.workflow_cache.entries[key]? = some v → ∃ b ∈ s.backend, key.2.2 ≤ b.revision ∧
    (key.2.2 = b.revision → ∃ a : Analysis, a.Admitted R ∧ a.key b.revision = key ∧
      a.run.Gives b s.index v)

/-- A request answered from the cache would, with an empty cache, have got the same result. -/
def AnswersCoherent (s : WorkerState) (e : WorkerEvent) (_ : WorkerState) : Prop :=
  e.AnsweredFromCache → ∃ v ∈ e.resp.result.toOption,
    ∃ r ∈ (handle e.env e.req { s with workflow_cache := .empty }).toOption,
      ∃ v' ∈ r.1.result.toOption, v'.idx "result" = v.idx "result"

omit [Host] in
instance {_ : Host} (s : WorkerState) (e : WorkerEvent) (s' : WorkerState) :
    Decidable (AnswersCoherent s e s') :=
  inferInstanceAs (Decidable (_ → ∃ v ∈ e.resp.result.toOption,
    ∃ r ∈ (handle e.env e.req { s with workflow_cache := .empty }).toOption,
      ∃ v' ∈ r.1.result.toOption, _))

/-! ## The backend under the cache -/

/-- The event leaves the database open or closed as it was. -/
def BackendEvent.keepsOpen : BackendEvent → Bool
  | opened _ | closed => false
  | _ => true

/-- Steps that do not open or close change the content, the revision and the snapshots only. -/
lemma Run.frame {b : MockBackend} {tr : BackendTrace} (h : Run BackendStep b tr)
    (hk : ∀ e ∈ tr, e.1.keepsOpen) : (lastOf b tr).open_path = b.open_path ∧
      (lastOf b tr).decompile_off = b.decompile_off ∧
      (lastOf b tr).extra_xrefs = b.extra_xrefs := by
  induction h with
  | nil b => exact ⟨rfl, rfl, rfl⟩
  | @cons b c e tr hs _ ih =>
    have hstep : c.open_path = b.open_path ∧ c.decompile_off = b.decompile_off ∧
        c.extra_xrefs = b.extra_xrefs := by
      have he := hk (e, c) (by simp)
      cases hs with
      | opened h => cases he
      | closed => cases he
      | mutated h => exact ⟨h.open_path, h.decompile_off, h.extra_xrefs⟩
      | pushed h => exact ⟨rfl, rfl, rfl⟩
      | popped h hs hr => exact ⟨rfl, rfl, rfl⟩
    obtain ⟨h₁, h₂, h₃⟩ := ih fun e he => hk e (by simp [he])
    exact ⟨h₁.trans hstep.1, h₂.trans hstep.2.1, h₃.trans hstep.2.2⟩

lemma plan_keepsOpen (ops : List PlannedOp) (b : MockBackend) :
    ∀ e ∈ Plan.trace ops b, e.1.keepsOpen := by
  intro e he
  obtain ⟨out, hout⟩ := Plan.trace_mutated ops b e he
  rw [hout]
  rfl

/-- Only `db.open` and `db.close` open and close. -/
lemma Method.trace_keepsOpen {m : Method} {params : Json} {b : MockBackend} (ho : m ≠ dbOpen)
    (hc : m ≠ dbClose) : ∀ e ∈ m.trace params b, e.1.keepsOpen := by
  have hmut : ∀ x, ∀ e ∈ mutationTrace x, e.1.keepsOpen := by
    intro x e he
    unfold mutationTrace at he
    split at he
    · rw [List.mem_singleton] at he
      rw [he]
      rfl
    · simp at he
  cases m with
  | dbOpen => exact absurd rfl ho
  | dbClose => exact absurd rfl hc
  | mutate m => exact hmut _
  | typesApply => exact hmut _
  | planApply =>
    simp only [trace]
    split
    · exact plan_keepsOpen _ _
    · simp
  | deobApply =>
    simp only [trace]
    split
    · -- a snapshot and then the operations of the plan
      rw [Transforms.trace]
      split
      · intro e he
        rcases List.mem_cons.mp he with rfl | he
        · rfl
        · split at he
          · exact plan_keepsOpen _ _ e he
          · simp at he
      · simp
    · simp
  | snapshotCreate =>
    simp only [trace]
    split
    · simp [BackendEvent.keepsOpen]
    · simp
  | snapshotRestore =>
    simp only [trace, Worker.popTrace]
    split
    · split
      · simp [BackendEvent.keepsOpen]
      · simp
    · simp
  | _ => simp [trace]

/-- A request that does not toggle the database leaves it open or closed as it was. -/
lemma WorkerRequest.trace_frame {req : WorkerRequest} {b : MockBackend} (h : ¬ req.toggles b) :
    (lastOf b (req.trace b)).open_path = b.open_path ∧
      (lastOf b (req.trace b)).decompile_off = b.decompile_off ∧
      (lastOf b (req.trace b)).extra_xrefs = b.extra_xrefs := by
  rw [trace]
  cases hm : Method.parse req.method with
  | none => exact ⟨rfl, rfl, rfl⟩
  | some m =>
    dsimp only
    by_cases ho : m = .dbOpen
    · -- without a path, or on an open database, nothing happens
      subst ho
      simp only [Method.trace, Worker.openTrace]
      split
      · rename_i path hpath hnone
        exact absurd (.inl ⟨Method.eq_ownName hm rfl, hnone, by rw [hpath]; rfl⟩) h
      · exact ⟨rfl, rfl, rfl⟩
    by_cases hc : m = .dbClose
    · subst hc
      have hnone : b.open_path = none := by
        by_contra hne
        exact h (.inr ⟨Method.eq_ownName hm rfl, Option.isSome_iff_ne_none.mpr hne⟩)
      exact ⟨hnone.symm, rfl, rfl⟩
    exact Run.frame (Method.trace_run m req.params b) (Method.trace_keepsOpen ho hc)

omit [Host] in
/-- Backends that agree on all that an analysis sees differ in the snapshots only. -/
lemma eq_withSnapshots {b b' : MockBackend} (hrev : b'.revision = b.revision)
    (hcontent : b'.content = b.content) (hframe : b'.open_path = b.open_path ∧
      b'.decompile_off = b.decompile_off ∧ b'.extra_xrefs = b.extra_xrefs) :
    b' = b.withSnapshots b'.snapshots := by
  obtain ⟨open_path, revision, names, comments, bytes, decompile_off, extra_xrefs, snapshots⟩ := b
  obtain ⟨open_path', revision', names', comments', bytes', decompile_off', extra_xrefs',
    snapshots'⟩ := b'
  simp only [MockBackend.content, Prod.mk.injEq] at hcontent
  simp_all [MockBackend.withSnapshots]

/-- The backend that a request leaves has moved on, or is the same up to the snapshots. -/
lemma WorkerStep.backend_same_or_moved {s s' : WorkerState} {e : WorkerEvent} {b : MockBackend}
    (h : WorkerStep s e s') (hb : s.backend = some b) (hsel : e.req.method ≠ "backend.select")
    (hw : NoWrap b.revision e.req.opCount) (hpop : e.req.pops b = none) :
    ∃ b', s'.backend = some b' ∧ b.revision ≤ b'.revision ∧
      (b.revision = b'.revision → e.req.toggles b ∨ b' = b.withSnapshots b'.snapshots) := by
  have hb' := ((handle_effect h hsel).present b hb).1
  have hlater : Later b (lastOf b (e.req.trace b)) := e.req.trace_later hw (by simp [hpop])
  refine ⟨_, hb', hlater.le, fun hrev => ?_⟩
  by_cases htog : e.req.toggles b
  · exact .inl htog
  · have hcontent : b.content = (lastOf b (e.req.trace b)).content := by
      by_contra hne
      exact hlater.moved hne hrev
    exact .inr (eq_withSnapshots hrev.symm hcontent.symm (WorkerRequest.trace_frame htog))

/-! ## One request -/

/-- A restore that finds something to restore empties the cache. -/
lemma WorkerStep.restore_empties {s s' : WorkerState} {e : WorkerEvent} {b : MockBackend}
    {snap : SnapshotState} (h : WorkerStep s e s') (hb : s.backend = some b)
    (hpop : e.req.pops b = some snap) : s'.workflow_cache.entries = ∅ := by
  obtain ⟨r, rest, hr, -⟩ := h.popped hb hpop
  rw [WorkerRequest.pops] at hpop
  split at hpop
  · rename_i hcond
    obtain ⟨hm, hopen⟩ := hcond
    obtain ⟨rest, hs⟩ : ∃ rest, b.snapshots = snap :: rest := by
      cases hs : b.snapshots with
      | nil => simp [hs] at hpop
      | cons top rest =>
        rw [hs] at hpop
        exact ⟨rest, by rw [Option.some.inj hpop]⟩
    have hrestore : ∃ v, b.snapshot_restore = .ok v := by
      simp [MockBackend.snapshot_restore, MockBackend.require_open_of_isSome hopen, hs,
        MockBackend.bump, MockBackend.rewind, hr]
    obtain ⟨v, hv⟩ := hrestore
    have hparse : Method.parse "snapshot.restore" = some .snapshotRestore := rfl
    have hd : dispatch e.env e.req.method e.req.params s =
        .ok v.1 { s with backend := some v.2 } := by
      rw [hm]
      simp only [dispatch, hparse, Method.run, Worker.snapshotRestore_eq]
      refine Action.transact_eq_ok.mpr ⟨v, ?_, rfl, rfl⟩
      rw [need_backend_of_some hb, Outcome.ok_bind, hv]
    -- a mutating method that succeeds clears the cache
    have hmut : e.req.method ∈ MUTATING_METHODS := by
      rw [hm]
      decide
    rw [WorkerStep] at h
    rw [handle_of_ok hd, if_pos hmut] at h
    rw [← (Prod.mk.inj (Except.ok.inj h)).2]
    rfl
  · cases hpop

/-- An index of the current revision stays, unless `index.build` replaces it. -/
lemma WorkerStep.index_kept {s s' : WorkerState} {e : WorkerEvent} {b : MockBackend}
    {p : AnalysisIndex × String} (h : WorkerStep s e s') (hb : s.backend = some b)
    (hp : s.index = some p) (hrev : p.1.revision = b.revision)
    (hbuild : e.req.method = "index.build" → b.build_index = .ok p) : s'.index = some p := by
  rcases h.index with hidx | ⟨-, ⟨c, q, hc, hq, hidx⟩ | ⟨hm, c, q, hc, hq, hidx⟩⟩
  · exact hidx.trans hp
  · obtain rfl : b = c := Option.some.inj (hb.symm.trans hc)
    have hforce : Worker.indexInForce b s = .ok p := by
      rw [Worker.indexInForce, hp]
      exact if_pos hrev
    rw [hforce] at hq
    cases hq
    exact hidx
  · obtain rfl : b = c := Option.some.inj (hb.symm.trans hc)
    rw [hbuild hm] at hq
    cases hq
    exact hidx

/-- What a request does to the entries of the cache. -/
lemma WorkerStep.entries {s s' : WorkerState} {e : WorkerEvent} (h : WorkerStep s e s')
    (ht : e.req.params.get "timeout_ms" = none) :
    s'.workflow_cache.entries = ∅ ∨ s'.workflow_cache.entries = s.workflow_cache.entries ∨
      ∃ (a : Analysis) (b : MockBackend) (v : Json),
        a.Admitted { r | Rules.load_effective e.env = .ok r } ∧ s.backend = some b ∧
        s'.backend = some b ∧ a.run.Gives b s'.index v ∧
        s'.workflow_cache.entries = s.workflow_cache.entries.insert (a.key b.revision) v := by
  obtain ⟨t, hd, rfl | rfl⟩ := handle_leaves h
  swap
  · exact .inl rfl
  rw [dispatch] at hd
  cases hm : Method.parse e.req.method with
  | none =>
    rw [hm] at hd
    exact .inr (.inl (by rw [Action.lift_leaves hd]))
  | some m =>
    rw [hm] at hd
    change (m.run e.env e.req.params s).Leaves s' at hd
    by_cases hstoreless : m.storeless
    · rcases (Method.run_keeps_stores e.env e.req.params hstoreless s s' hd).entries
        with hsame | hnone
      · exact .inr (.inl hsame)
      · exact .inl hnone
    -- the analyses insert at most their own key; what neither clears nor inserts is left
    by_cases hthrough : m.answersThrough
    · rcases @Method.run_cases _ e.env m _ hthrough ht with ⟨a, ha, hrun⟩ | hpast
      · rw [hrun] at hd
        rcases Worker.analyze_entries hd with hsame | ⟨b, v, hb', hb, hgives, hins⟩
        · exact .inr (.inl hsame)
        · exact .inr (.inr ⟨a, b, v, ha, hb, hb', hgives, hins⟩)
      · exact .inr (.inl (hpast.entries s s' hd))
    right
    left
    cases m with
    | indexed m =>
      cases hr : m.readsIndex e.req.params with
      | true =>
        rw [Method.run_indexed e.env hr] at hd
        obtain ⟨err, -, rfl⟩ | ⟨call, -, hd⟩ := Action.lift_bind_leaves hd
        · rfl
        obtain ⟨rfl, -⟩ | ⟨-, hcache⟩ := Worker.indexed_leaves hd
        · rfl
        · rw [hcache]
      | false =>
        obtain ⟨x, hx⟩ := Method.run_fingerprints e.env hr s
        rw [hx] at hd
        rw [Action.lift_leaves hd]
    | indexBuild =>
      simp only [Method.run, Worker.indexBuild_eq] at hd
      obtain ⟨p, -, rfl⟩ | ⟨err, -, rfl⟩ := Action.transact_leaves hd
      · rfl
      · rfl
    | cached m => exact absurd rfl hthrough
    | hrMicrocode => exact absurd rfl hthrough
    | _ => exact absurd rfl hstoreless

/-- A request keeps the entries right. -/
lemma WorkerStep.cacheSound {R : Set RuleSet} {s s' : WorkerState} {e : WorkerEvent}
    (h : WorkerStep s e s') (hsafe : CacheSafe s e) (ht : e.req.params.get "timeout_ms" = none)
    (hrules : ∀ r, Rules.load_effective e.env = .ok r → r ∈ R) (hs : CacheSound R s) :
    CacheSound R s' := by
  obtain ⟨hmock, hsafe⟩ := hsafe
  intro key v hv
  -- an entry that was there before the request
  have hold : s.workflow_cache.entries[key]? = some v → ∃ b ∈ s'.backend, key.2.2 ≤ b.revision ∧
      (key.2.2 = b.revision → ∃ a : Analysis, a.Admitted R ∧ a.key b.revision = key ∧
        a.run.Gives b s'.index v) := by
    intro hv₀
    obtain ⟨b, hb, hle, hnow⟩ := hs key v hv₀
    obtain ⟨hw, htog, hbuild⟩ := hsafe b hb
    have hcurrent : key.2.2 = b.revision → s.HasCurrent b := fun hkey =>
      ⟨key, Std.ExtTreeMap.mem_keys.mpr
        (Std.ExtTreeMap.mem_iff_isSome_getElem?.mpr (by simp [hv₀])),
        hkey⟩
    -- the backend is the same up to the snapshots, or the entry is not of the current revision
    obtain ⟨b', hb', hle', hsame⟩ : ∃ b', s'.backend = some b' ∧ b.revision ≤ b'.revision ∧
        (b.revision = b'.revision → e.req.toggles b ∨ b' = b.withSnapshots b'.snapshots) := by
      by_cases hsel : e.req.method = "backend.select"
      · rcases h.select hsel with ⟨hmocks, -⟩ | hsame
        · have hempty := Std.ExtTreeMap.isEmpty_iff.mp (hmock hmocks)
          simp [hempty] at hv₀
        · exact ⟨b, hsame.trans hb, le_rfl, fun _ => .inr rfl⟩
      cases hpop : e.req.pops b with
      | none => exact h.backend_same_or_moved hb hsel hw hpop
      | some snap => simp [h.restore_empties hb hpop] at hv
    refine ⟨b', hb', hle.trans hle', fun hkey => ?_⟩
    have hrev : b.revision = b'.revision := le_antisymm hle' (hkey ▸ hle)
    have hkeyb : key.2.2 = b.revision := hkey.trans hrev.symm
    obtain ⟨a, ha, hakey, hgives⟩ := hnow hkeyb
    rcases hsame hrev with htoggles | hsnap
    · exact absurd (hcurrent hkeyb) (htog htoggles)
    · refine ⟨a, ha, by rw [← hrev, hakey], ?_⟩
      rw [hsnap]
      refine a.gives_withSnapshots ?_
      cases hrun : a.run with
      | plain run => rwa [hrun] at hgives
      | indexed run =>
        rw [hrun] at hgives
        obtain ⟨p, hp, hprev, hgives⟩ := hgives
        refine ⟨p, h.index_kept hb hp hprev fun hm => ?_, hprev, hgives⟩
        exact (hbuild hm p hp hprev).resolve_right (not_not.mpr (hcurrent hkeyb))
  rcases h.entries ht with hnone | hsame | ⟨a, b, w, ha, hb, hb', hgives, hins⟩
  · rw [hnone] at hv
    simp at hv
  · exact hold (hsame ▸ hv)
  · rw [hins, Std.ExtTreeMap.getElem?_insert] at hv
    split at hv
    · rename_i heq
      obtain rfl : w = v := Option.some.inj hv
      obtain rfl : a.key b.revision = key := Std.LawfulEqOrd.eq_of_compare heq
      exact ⟨b, hb', (a.key_revision _).le, fun _ => ⟨a, ha.mono hrules, rfl, hgives⟩⟩
    · exact hold hv

/-- An entry that is right is the answer that an empty cache would have given. -/
lemma WorkerStep.answersCoherent {R : Set RuleSet} {s s' : WorkerState} {e : WorkerEvent}
    (hR : Analysis.HashesApart R) (h : WorkerStep s e s')
    (ht : e.req.params.get "timeout_ms" = none)
    (hrules : ∀ r, Rules.load_effective e.env = .ok r → r ∈ R) (hs : CacheSound R s) :
    AnswersCoherent s e s' := by
  rintro ⟨⟨m, hm, hthrough⟩, v, hv, hcached⟩
  have hok : e.resp.result.isOk := by
    cases hr : e.resp.result with
    | ok w => rfl
    | error w => simp [hr, Except.toOption] at hv
  obtain ⟨w, t, hd, hresp, -⟩ := handle_succeeds h hok
  obtain rfl : w = v := by
    rw [hresp] at hv
    exact Option.some.inj hv
  have hparse : Method.parse e.req.method = some m := hm
  have hdispatch : ∀ s, dispatch e.env e.req.method e.req.params s =
      m.run e.env e.req.params s := fun s => by rw [dispatch, hparse]
  rw [hdispatch] at hd
  rcases @Method.run_cases _ e.env m _ hthrough ht with ⟨a, ha, hrun⟩ | hpast
  swap
  · exact absurd hcached (hpast.computed s w t hd)
  rw [hrun] at hd
  -- the answer is an entry, which was right for this revision and hence for this content
  obtain ⟨b, hb, hentry⟩ := Worker.analyze_hit hd hcached
  obtain ⟨c, hc, -, hnow⟩ := hs _ _ hentry
  obtain rfl : b = c := Option.some.inj (hb.symm.trans hc)
  obtain ⟨a', ha', hkey, hgives⟩ := hnow (a.key_revision _)
  have haR : a.Admitted R := ha.mono hrules
  rw [Analysis.run_eq_of_key_eq hR ha' haR hkey] at hgives
  obtain ⟨v', s'', hempty, hresult⟩ :=
    @Worker.analyze_empty _ a { s with workflow_cache := .empty } b _ hb rfl hgives
  have hfresh : dispatch e.env e.req.method e.req.params { s with workflow_cache := .empty } =
      .ok v' s'' := by
    rw [hdispatch, hrun]
    exact hempty
  have hhandle := handle_of_ok hfresh
  exact ⟨w, by rw [hresp]; rfl, _, congrArg Except.toOption hhandle, v', rfl, hresult⟩

/-! ## Whole runs -/

/-- The rule sets that the requests of a run find. -/
def rulesOf (tr : List (WorkerEvent × WorkerState)) : Set RuleSet :=
  { r | ∃ e ∈ tr, Rules.load_effective e.1.env = .ok r }

/-- In every run from a new worker, of requests without `timeout_ms`, that opens, closes, selects
and rebuilds only where the cache has nothing to lose, and whose rule sets differ in their hashes,
what is answered from the cache is what would have been computed. -/
theorem cache_coherent {tr : List (WorkerEvent × WorkerState)} (h : Run WorkerStep .new tr)
    (ht : ∀ e ∈ tr, e.1.req.params.get "timeout_ms" = none) (hsafe : Along CacheSafe .new tr)
    (hhash : Analysis.HashesApart (rulesOf tr)) : Throughout AnswersCoherent .new tr := by
  have hrules : ∀ e ∈ tr, ∀ r, Rules.load_effective e.1.env = .ok r → r ∈ rulesOf tr :=
    fun e he r hr => ⟨e, he, hr⟩
  have htimed := hsafe.and_forall (P := fun e => e.req.params.get "timeout_ms" = none) ht
  have hsafe := htimed.and_forall
    (P := fun e => ∀ r, Rules.load_effective e.env = .ok r → r ∈ rulesOf tr) hrules
  have h0 : CacheSound (rulesOf tr) .new := by
    intro key v hv
    simp [WorkerState.new, WorkflowCache.empty] at hv
  exact h.throughout hsafe h0
    (fun s e s' hstep hC hs => hstep.cacheSound hC.1.1 hC.1.2 hC.2 hs)
    (fun s e s' hstep hC hs => hstep.answersCoherent hhash hC.1.2 hC.2 hs)

end Host

/-- Two analyses, each asked for twice, with a snapshot and a rebuilt index in between. -/
theorem cache_coherent_with_snapshot :
    @Throughout _ _ (@AnswersCoherent (Host.ascii true)) .new
      (@serve (Host.ascii true) .bare .new
        [.call "backend.select" [], .call "db.open" [("path", "a.bin")],
          .call "hr.microcode" [("ea", "0x401000")], .call "snapshot.create" [],
          .call "hr.microcode" [("ea", "0x401000")],
          .call "value.propagate" [("ea", "0x401000")], .call "index.build" [],
          .call "value.propagate" [("ea", "0x401000")]]) := by
  refine @cache_coherent (Host.ascii true) _ (@serve_run (Host.ascii true) _ _ _)
    (by decide +kernel) (by decide +kernel) ?_
  -- all the requests find the same rule set
  rintro r ⟨e, he, hr⟩ r' ⟨e', he', hr'⟩ -
  rw [@serve_env (Host.ascii true) _ _ _ e he] at hr
  rw [@serve_env (Host.ascii true) _ _ _ e' he'] at hr'
  obtain rfl : r = r' := Outcome.ok.inj (hr.symm.trans hr')
  rfl

/-- After `db.close` the cache still answers for an analysis that would fail. -/
theorem cache_not_coherent :
    ∃ tr, @Run _ _ (@WorkerStep (Host.ascii true)) .new tr ∧
      (∀ e ∈ tr, e.1.req.params.get "timeout_ms" = none) ∧
      ¬ @Throughout _ _ (@AnswersCoherent (Host.ascii true)) .new tr := by
  refine ⟨@serve (Host.ascii true) .bare .new
    [.call "backend.select" [], .call "db.open" [("path", "a.bin")],
      .call "hr.microcode" [("ea", "0x401000")], .call "db.close" [],
      .call "hr.microcode" [("ea", "0x401000")]],
    @serve_run (Host.ascii true) _ _ _, by decide +kernel, by decide +kernel⟩

end ReverseMcp
