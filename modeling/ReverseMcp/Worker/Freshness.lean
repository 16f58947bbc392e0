import ReverseMcp.Worker.Revision
import ReverseMcp.Worker.Rollback
import ReverseMcp.Worker.Stores

/-!
# Index freshness

The index at hand is taken for current when its revision is the current one.  That is right as
long as a revision stands for one content: the invariant is that the index is at most as new as
the backend, and is its index when it is equally new (`IndexSound`).  Two requests can break it.
`snapshot.restore` goes back to a revision the index may be at or ahead of, and `backend.select`
starts again at revision 0 without dropping the index.
-/

namespace ReverseMcp

open Rust

/-- The request is answered from the index. -/
def WorkerRequest.usesIndex (req : WorkerRequest) : Bool :=
  match Method.parse req.method with
  | some m => m.usesIndex req.params
  | none => false

/-- The request replaces the backend by a new mock backend. -/
def WorkerRequest.selectsMock (req : WorkerRequest) : Prop :=
  req.method = "backend.select" ∧ (text_param req.params "kind").getD "mock" = "mock"

instance (req : WorkerRequest) : Decidable req.selectsMock := inferInstanceAs (Decidable (_ ∧ _))

section Host

variable [Host]

/-- The backend that a restore of `snap` leaves, as far as the index is concerned. -/
def MockBackend.restoredTo (b : MockBackend) (snap : SnapshotState) : MockBackend :=
  { b with names := snap.names, revision := snap.revision + 1 }

/-- The request neither goes back to or behind the revision of the index at hand, nor puts another
backend under it, unless that index is right there as well; and the counter does not wrap. -/
def IndexSafe (s : WorkerState) (e : WorkerEvent) : Prop :=
  (e.req.selectsMock → ∀ p ∈ s.index, MockBackend.new.build_index = .ok p) ∧
    ∀ b ∈ s.backend, NoWrap b.revision e.req.opCount ∧
      ∀ snap ∈ e.req.pops b, NoWrap snap.revision 1 ∧
        ∀ p ∈ s.index, p.1.revision ≤ snap.revision ∨ (b.restoredTo snap).build_index = .ok p

omit [Host] in
instance {_ : Host} (s : WorkerState) (e : WorkerEvent) : Decidable (IndexSafe s e) :=
  inferInstanceAs (Decidable ((_ → ∀ p ∈ s.index, _) ∧
    ∀ b ∈ s.backend, _ ∧ ∀ snap ∈ e.req.pops b, _ ∧ ∀ p ∈ s.index, _ ∨ _))

/-- The index is at most as new as the backend, and is its index when it is equally new. -/
def IndexSound (s : WorkerState) : Prop :=
  ∀ p ∈ s.index, ∃ b ∈ s.backend, p.1.revision ≤ b.revision ∧
    (p.1.revision = b.revision → b.build_index = .ok p)

/-- A request that is answered from the index is answered from the one that would be built. -/
def AnswersFresh (_ : WorkerState) (e : WorkerEvent) (s' : WorkerState) : Prop :=
  e.req.usesIndex → e.resp.result.isOk →
    ∃ b ∈ s'.backend, ∃ p ∈ s'.index, b.build_index = .ok p

omit [Host] in
instance {_ : Host} (s : WorkerState) (e : WorkerEvent) (s' : WorkerState) :
    Decidable (AnswersFresh s e s') :=
  inferInstanceAs (Decidable (_ → _ → ∃ b ∈ s'.backend, ∃ p ∈ s'.index, _))

/-! ## The index of a backend -/

/-- The index is a function of the names and the revision. -/
lemma build_index_congr {b b' : MockBackend} (hn : b'.names = b.names)
    (hr : b'.revision = b.revision) : b'.build_index = b.build_index := by
  unfold MockBackend.build_index MockBackend.functions_vec
  rw [hn, hr]

lemma build_index_revision {b : MockBackend} {p : AnalysisIndex × String}
    (h : b.build_index = .ok p) : p.1.revision = b.revision := by
  rw [MockBackend.build_index] at h
  obtain ⟨fns, -, h⟩ := Outcome.bind_eq_ok.mp h
  cases h
  rfl

lemma IndexSound.inForce_fresh {s : WorkerState} {b : MockBackend} {p : AnalysisIndex × String}
    (h : IndexSound s) (hb : s.backend = some b) (hp : Worker.indexInForce b s = .ok p) :
    b.build_index = .ok p := by
  rw [Worker.indexInForce] at hp
  split at hp
  · rename_i q hq
    split at hp
    · rename_i hrev
      cases hp
      obtain ⟨c, hc, -, hfresh⟩ := h p hq
      obtain rfl : b = c := Option.some.inj (hb.symm.trans hc)
      exact hfresh hrev
    · exact hp
  · exact hp

/-! ## One request -/

/-- The index that a request leaves. -/
lemma WorkerStep.index {s s' : WorkerState} {e : WorkerEvent} (h : WorkerStep s e s') :
    s'.index = s.index ∨ s'.backend = s.backend ∧ (Worker.TakesIndex s s' ∨
      e.req.method = "index.build" ∧ Worker.BuildsIndex s s') := by
  obtain ⟨t, ht, hs'⟩ := handle_leaves h
  have hsame : s'.index = t.index ∧ s'.backend = t.backend := by
    rcases hs' with rfl | rfl
    · exact ⟨rfl, rfl⟩
    · exact ⟨rfl, rfl⟩
  rw [dispatch] at ht
  cases hm : Method.parse e.req.method with
  | none =>
    rw [hm] at ht
    left
    rw [hsame.1, Action.lift_leaves ht]
  | some m =>
    rw [hm] at ht
    have hkept : m.reads → s'.backend = s.backend := fun hreads =>
      hsame.2.trans (Method.run_keeps e.env e.req.params hreads s t ht).1
    rcases Method.run_index ht with hidx | ⟨hreads, b, p, hb, hp, hidx⟩ | ⟨rfl, b, p, hb, hp, hidx⟩
    · exact .inl (hsame.1.trans hidx)
    · exact .inr ⟨hkept hreads, .inl ⟨b, p, hb, hp, hsame.1.trans hidx⟩⟩
    · exact .inr ⟨hkept rfl, .inr ⟨Method.eq_ownName hm rfl, b, p, hb, hp,
        hsame.1.trans hidx⟩⟩

lemma WorkerStep.takesIndex {s s' : WorkerState} {e : WorkerEvent} (h : WorkerStep s e s')
    (huse : e.req.usesIndex) (hok : e.resp.result.isOk) :
    s'.backend = s.backend ∧ Worker.TakesIndex s s' := by
  obtain ⟨v, t, hd, -, hs'⟩ := handle_succeeds h hok
  rw [WorkerRequest.usesIndex] at huse
  rw [dispatch] at hd
  cases hm : Method.parse e.req.method with
  | none =>
    rw [hm] at huse
    cases huse
  | some m =>
    rw [hm] at huse hd
    have hreads : m.reads := by
      cases m <;> first | rfl | cases huse
    have hb := (Method.run_keeps e.env e.req.params hreads).of_ok hd
    obtain ⟨b, p, hbs, hp, hidx⟩ := Method.run_takesIndex huse hd
    rcases hs' with rfl | rfl
    · exact ⟨hb.1, b, p, hbs, hp, hidx⟩
    · exact ⟨hb.1, b, p, hbs, hp, hidx⟩

/-- Another backend was selected, or the request was refused. -/
lemma WorkerStep.select {s s' : WorkerState} {e : WorkerEvent} (h : WorkerStep s e s')
    (hm : e.req.method = "backend.select") :
    (e.req.selectsMock ∧ s'.backend = some .new) ∨ s'.backend = s.backend := by
  obtain ⟨t, ht, hs'⟩ := handle_leaves h
  have hbt : s'.backend = t.backend := by
    rcases hs' with rfl | rfl
    · rfl
    · rfl
  rw [hbt]
  have hparse : Method.parse "backend.select" = some .backendSelect := rfl
  simp only [dispatch, hm, hparse, Method.run, Worker.backendSelect] at ht
  rw [WorkerRequest.selectsMock]
  generalize (text_param e.req.params "kind").getD "mock" = kind at ht ⊢
  split at ht
  · have hst : { s with backend := some MockBackend.new } = t := ht
    exact .inl ⟨⟨hm, rfl⟩, by rw [← hst]⟩
  · exact .inr (by rw [Action.lift_leaves ht])
  · exact .inr (by rw [Action.lift_leaves ht])

/-- Where the backend is only ever later than before, the index stays sound. -/
lemma IndexSound.later {s s' : WorkerState} (h : IndexSound s) (hidx : s'.index = s.index)
    (hlater : RevisionLater s s') : IndexSound s' := by
  intro p hp
  rw [hidx] at hp
  obtain ⟨b, hb, hle, hfresh⟩ := h p hp
  obtain ⟨b', hb', hbb'⟩ := hlater b hb
  refine ⟨b', hb', hle.trans hbb'.le, fun heq => ?_⟩
  -- the revision did not move, so neither did the names
  have hrev : b'.revision = b.revision := le_antisymm (heq ▸ hle) hbb'.le
  have hcontent : b.content = b'.content := by
    by_contra hne
    exact hbb'.moved hne hrev.symm
  have hnames : b'.names = b.names := (congrArg Prod.fst hcontent).symm
  rw [build_index_congr hnames hrev]
  exact hfresh (heq.trans hrev)

/-- A restore keeps the index sound if it passes the index by, or lands on its content. -/
lemma IndexSound.restored {s s' : WorkerState} {b b' : MockBackend} {snap : SnapshotState}
    (hidx : s'.index = s.index) (hb' : s'.backend = some b') (hnames : b'.names = snap.names)
    (hrev : b'.revision.val = snap.revision.val + 1)
    (hsafe : ∀ p ∈ s.index,
      p.1.revision ≤ snap.revision ∨ (b.restoredTo snap).build_index = .ok p) :
    IndexSound s' := by
  intro p hp
  rw [hidx] at hp
  refine ⟨b', hb', ?_⟩
  rcases hsafe p hp with hle | hbuilt
  · have hlt : p.1.revision < b'.revision := by
      rw [Fin.lt_def]
      have := Fin.le_def.mp hle
      omega
    exact ⟨hlt.le, fun heq => absurd heq hlt.ne⟩
  · have hrestored : b'.revision = (b.restoredTo snap).revision := by
      have hlt := b'.revision.isLt
      refine Fin.ext ?_
      show b'.revision.val = (snap.revision.val + 1) % 2 ^ 64
      omega
    have hfresh : b'.build_index = .ok p := (build_index_congr hnames hrestored).trans hbuilt
    exact ⟨(build_index_revision hfresh).le, fun _ => hfresh⟩

/-- A request that pops a snapshot leaves what the snapshot holds, one revision further. -/
lemma WorkerStep.popped {s s' : WorkerState} {e : WorkerEvent} {b : MockBackend}
    {snap : SnapshotState} (h : WorkerStep s e s') (hb : s.backend = some b)
    (hpop : e.req.pops b = some snap) :
    ∃ r rest, (addU64 snap.revision 1 : Result U64) = .ok r ∧
      lastOf b (e.req.trace b) = { b.rewind snap rest with revision := r } := by
  rw [WorkerRequest.pops] at hpop
  split at hpop
  · rename_i hcond
    obtain ⟨hm, hopen⟩ := hcond
    have hparse : Method.parse e.req.method = some .snapshotRestore := by rw [hm]; rfl
    cases hs : b.snapshots with
    | nil => simp [hs] at hpop
    | cons top rest =>
      rw [hs] at hpop
      obtain rfl : top = snap := Option.some.inj hpop
      obtain ⟨r, hr⟩ := restore_bumped h hparse hb hopen hs
      obtain ⟨path, hpath⟩ := Option.isSome_iff_exists.mp hopen
      refine ⟨r, rest, hr, ?_⟩
      simp only [WorkerRequest.trace, hparse, Method.trace, Worker.popTrace, hpath, hs, hr,
        lastOf_cons, lastOf_nil]
  · cases hpop

lemma WorkerStep.indexSound {s s' : WorkerState} {e : WorkerEvent} (h : WorkerStep s e s')
    (hsafe : IndexSafe s e) (hs : IndexSound s) : IndexSound s' := by
  rcases h.index with hidx | ⟨hb, hnew⟩
  swap
  · -- the index was taken from the backend there is
    obtain ⟨b, p, hbs, hfresh, hidx⟩ : Worker.BuildsIndex s s' := by
      rcases hnew with ⟨b, p, hbs, hp, hidx⟩ | ⟨-, hbuilt⟩
      · exact ⟨b, p, hbs, hs.inForce_fresh hbs hp, hidx⟩
      · exact hbuilt
    intro q hq
    obtain rfl : p = q := Option.some.inj (hidx.symm.trans hq)
    exact ⟨b, hb.trans hbs, (build_index_revision hfresh).le, fun _ => hfresh⟩
  by_cases hsel : e.req.method = "backend.select"
  · rcases h.select hsel with ⟨hmock, hb⟩ | hb
    · intro p hp
      rw [hidx] at hp
      have hfresh := hsafe.1 hmock p hp
      exact ⟨.new, hb, (build_index_revision hfresh).le, fun _ => hfresh⟩
    · exact hs.later hidx fun b hbs => ⟨b, hb.trans hbs, Std.Refl.refl b⟩
  cases hbs : s.backend with
  | none =>
    intro p hp
    rw [hidx] at hp
    obtain ⟨b, hb, -⟩ := hs p hp
    rw [hbs] at hb
    cases hb
  | some b =>
    obtain ⟨hw, hpops⟩ := hsafe.2 b hbs
    have hb' := ((handle_effect h hsel).present b hbs).1
    cases hpop : e.req.pops b with
    | none =>
      refine hs.later hidx fun c hc => ?_
      obtain rfl : b = c := Option.some.inj (hbs.symm.trans hc)
      exact ⟨_, hb', WorkerRequest.trace_later hw (by simp [hpop])⟩
    | some snap =>
      obtain ⟨hwrap, hsafe⟩ := hpops snap hpop
      obtain ⟨r, rest, hr, htrace⟩ := WorkerStep.popped h hbs hpop
      rw [htrace] at hb'
      exact IndexSound.restored hidx hb' rfl (hwrap.bump hr) hsafe

/-! ## Whole runs -/

/-- In every run from a new worker whose restores and selections respect the index at hand, the
index-backed methods answer from the index that the backend has. -/
theorem index_fresh {tr : List (WorkerEvent × WorkerState)} (h : Run WorkerStep .new tr)
    (hsafe : Along IndexSafe .new tr) : Throughout AnswersFresh .new tr := by
  have h0 : IndexSound .new := fun p hp => by cases hp
  refine h.throughout hsafe h0 (fun s e s' hstep hC hs => hstep.indexSound hC hs) ?_
  intro s e s' hstep _ hs huse hok
  obtain ⟨hb, b, p, hbs, hp, hidx⟩ := hstep.takesIndex huse hok
  exact ⟨b, hb.trans hbs, p, hidx, hs.inForce_fresh hbs hp⟩

end Host

/-- A session that renames a function between two queries, and restores the snapshot it took
before it ever built an index past it. -/
theorem index_fresh_after_restore :
    @Throughout _ _ (@AnswersFresh (Host.ascii true)) .new (@serve (Host.ascii true) .bare .new
      [.call "backend.select" [], .call "db.open" [("path", "a.bin")],
        .call "index.query" [], .call "snapshot.create" [],
        .call "rename" [("ea", "0x401000"), ("name", "a")],
        .call "snapshot.restore" [], .call "sig.export" []]) :=
  @index_fresh (Host.ascii true) _ (@serve_run (Host.ascii true) _ _ _) (by decide +kernel)

/-- Snapshot, rename, query, restore: the restored database has the revision at which the index
was built, and the next query is answered with the name that was rolled back. -/
theorem index_not_fresh :
    ∃ tr, @Run _ _ (@WorkerStep (Host.ascii true)) .new tr ∧
      ¬ @Throughout _ _ (@AnswersFresh (Host.ascii true)) .new tr := by
  refine ⟨@serve (Host.ascii true) .bare .new
    [.call "backend.select" [], .call "db.open" [("path", "a.bin")],
      .call "snapshot.create" [], .call "rename" [("ea", "0x401000"), ("name", "a")],
      .call "sig.export" [], .call "snapshot.restore" [], .call "sig.export" []],
    @serve_run (Host.ascii true) _ _ _, by decide +kernel⟩

end ReverseMcp
