import ReverseMcp.Broker.Locks

/-!
# Lock order

The handlers take the pool before the list of open databases and that before a session, with two
exceptions: `function_hierarchical` of a large function and `function_region` with `try_hexrays=1`
ask for the pool while they have the guard of a session.  `ida_db` with `action=list` and
`ida_health` have the guard of the pool while they ask for one session after the other, and a call
of either sort is enough to close a cycle.

Each sort has an order of its own.  Without the calls that invert the order, locks are taken in the
order pool, open databases, session.  Without the calls that sweep over the sessions, they are taken
in the order session, pool, open databases; the one session that `ida_db` with `action=open` locks
below the pool has not been given to any other call yet.  So a run in which the two sorts of calls
do not overlap has no cycle (`no_lock_cycle`).
-/

namespace ReverseMcp

open Rust

/-- A relation is free of cycles when it climbs along every two of its edges. -/
lemma no_cycle_of_climb {α : Type} {W : α → α → Prop} (f : α → ℕ)
    (h : ∀ a b c, W a b → W b c → f a < f b) (a : α) : ¬ Relation.TransGen W a a := by
  have hclimb : ∀ a b, Relation.TransGen W a b → (∃ c, W b c) → f a < f b := by
    intro a b hab
    induction hab with
    | single hab =>
      rintro ⟨c, hbc⟩
      exact h _ _ c hab hbc
    | tail _ hbc ih =>
      rintro ⟨d, hcd⟩
      exact (ih ⟨_, hbc⟩).trans (h _ _ d hbc hcd)
  intro hcycle
  obtain ⟨b, hab, -⟩ := Relation.TransGen.head'_iff.mp hcycle
  exact lt_irrefl _ (hclimb a a hcycle ⟨b, hab⟩)

/-- The call asks for the pool while it has the guard of a session. -/
def ToolCall.inverts : ToolCall → Bool
  | hierarchical true | region true => true
  | _ => false

/-- The call asks for sessions while it has the guard of the pool. -/
def ToolCall.sweeps : ToolCall → Bool
  | list | health => true
  | _ => false

/-! ## Checking a handler -/

/-- What is known of the guards of a call: their kinds, and whether it has a session. -/
structure Shape where
  pool : Bool
  openDbs : Bool
  session : Bool
  bound : Bool

/-- The shape of a call. -/
def RunningCall.shape (c : RunningCall) : Shape :=
  ⟨c.guards.pool, c.guards.openDbs, c.guards.session.isSome, c.session.isSome⟩

/-- A lock of kind `k` comes behind all guards in the order. -/
def Shape.below (rank : LockKind → ℕ) (g : Shape) (k : LockKind) : Bool :=
  (!g.pool || rank .pool < rank k) && (!g.openDbs || rank .openDbs < rank k) &&
    (!g.session || rank .session < rank k)

/-- A handler takes its locks in an order.  A call that owns its session, because it has spawned it,
may lock it below the pool: it never looks a session up, and has none before it has the pool. -/
def climbs (rank : LockKind → ℕ) (owns : Bool) : Shape → List Instr → Bool
  | g, [] => !g.pool && !g.openDbs && !g.session
  | g, .lockPool :: todo =>
    g.below rank .pool && !(owns && g.bound) && climbs rank owns { g with pool := true } todo
  | g, .lockOpenDbs :: todo =>
    g.below rank .openDbs && climbs rank owns { g with openDbs := true } todo
  | g, .lockSession :: todo =>
    (g.below rank .session || (owns && g.pool && !g.session)) &&
      climbs rank owns { g with session := true } todo
  | g, .unlock .pool :: todo => climbs rank owns { g with pool := false } todo
  | g, .unlock .openDbs :: todo => climbs rank owns { g with openDbs := false } todo
  | g, .unlock .session :: todo => climbs rank owns { g with session := false } todo
  | g, .find :: todo =>
    g.pool && !g.session && !owns && climbs rank owns { g with bound := true } todo
  | g, .spawn :: todo => !g.session && climbs rank owns { g with bound := true } todo
  | g, .visitPool :: todo | g, .visitOpen :: todo | g, .visit _ :: todo =>
    g.pool && g.below rank .session && !g.session && climbs rank owns g todo
  | g, .work :: todo | g, .register :: todo | g, .unregister :: todo | g, .pushDb :: todo
  | g, .dropDb :: todo => climbs rank owns g todo

/-- Pool, open databases, session. -/
def poolFirst : LockKind → ℕ
  | .pool => 0
  | .openDbs => 1
  | .session => 2

/-- Session, pool, open databases. -/
def sessionFirst : LockKind → ℕ
  | .session => 0
  | .pool => 1
  | .openDbs => 2

/-- Only `ida_db` with `action=open` spawns its session. -/
def ToolCall.owns : ToolCall → Bool
  | openDb => true
  | _ => false

/-- A call that does not invert the order takes its locks pool first. -/
lemma handler_poolFirst (call : ToolCall) (h : call.inverts = false) :
    climbs poolFirst call.owns (RunningCall.new call).shape call.handler = true := by
  revert h
  cases call with
  | hierarchical large => cases large <;> decide
  | region try_hexrays => cases try_hexrays <;> decide
  | _ => decide

/-- A call that does not sweep takes its locks session first. -/
lemma handler_sessionFirst (call : ToolCall) (h : call.sweeps = false) :
    climbs sessionFirst call.owns (RunningCall.new call).shape call.handler = true := by
  revert h
  cases call with
  | hierarchical large => cases large <;> decide
  | region try_hexrays => cases try_hexrays <;> decide
  | _ => decide

/-! ## One step of a call -/

section Step

variable {s s' : BrokerState} {c c' : RunningCall} {pick : Option ℕ}

lemma grant_eq_some {l : Lock} {todo : List Instr} (h : s.grant c l todo = some c') :
    s.Free l ∧ c' = { c with todo, guards := c.guards.add l } := by
  rw [BrokerState.grant] at h
  split at h
  · rename_i hfree
    cases h
    exact ⟨hfree, rfl⟩
  · cases h

/-- What the first instruction of a call does to the call and to the broker. -/
inductive Executed (s : BrokerState) (c : RunningCall) :
    List Instr → RunningCall → BrokerState → Prop
  | lockPool {todo : List Instr} (hfree : s.Free .pool) :
    Executed s c (.lockPool :: todo) { c with todo, guards := c.guards.add .pool } s
  | lockOpenDbs {todo : List Instr} (hfree : s.Free .openDbs) :
    Executed s c (.lockOpenDbs :: todo) { c with todo, guards := c.guards.add .openDbs } s
  | lockSession {todo : List Instr} (i : ℕ) (hi : c.session = some i)
      (hfree : s.Free (.session i)) :
    Executed s c (.lockSession :: todo) { c with todo, guards := c.guards.add (.session i) } s
  | unlock {todo : List Instr} (k : LockKind) :
    Executed s c (.unlock k :: todo) { c with todo, guards := c.guards.drop k } s
  | worked {todo : List Instr} : Executed s c (.work :: todo) { c with todo } s
  | failed {todo : List Instr} : Executed s c (.work :: todo) c.abort s
  | found {todo : List Instr} (i : ℕ) (hi : i ∈ s.sessions) :
    Executed s c (.find :: todo) { c with todo, session := some i } s
  | missed {todo : List Instr} : Executed s c (.find :: todo) c.abort s
  | spawn {todo : List Instr} :
    Executed s c (.spawn :: todo) { c with todo, session := some s.spawned }
      { s with spawned := s.spawned + 1 }
  | register {todo : List Instr} :
    Executed s c (.register :: todo) { c with todo }
      { s with sessions := s.sessions ++ c.session.toList }
  | unregister {todo : List Instr} :
    Executed s c (.unregister :: todo) { c with todo }
      { s with sessions := s.sessions.filter (some · ≠ c.session) }
  | pushDb {todo : List Instr} :
    Executed s c (.pushDb :: todo) { c with todo }
      { s with open_dbs := s.open_dbs ++ c.session.toList }
  | dropDb {todo : List Instr} :
    Executed s c (.dropDb :: todo) { c with todo }
      { s with open_dbs := s.open_dbs.filter (some · ≠ c.session) }
  | visitPool {todo : List Instr} :
    Executed s c (.visitPool :: todo) { c with todo := .visit s.sessions :: todo } s
  | visitOpen {todo : List Instr} :
    Executed s c (.visitOpen :: todo)
      { c with todo := .visit (s.open_dbs.filter (· ∈ s.sessions)) :: todo } s
  | visited {todo : List Instr} : Executed s c (.visit [] :: todo) { c with todo } s
  | visit {todo : List Instr} (i : ℕ) (is : List ℕ) (hfree : s.Free (.session i)) :
    Executed s c (.visit (i :: is) :: todo)
      { c with
        todo := .unlock .session :: .visit is :: todo
        guards := c.guards.add (.session i) } s

lemma exec_eq_some (h : s.exec c pick = some (c', s')) : Executed s c c.todo c' s' := by
  have hgrant : ∀ l todo, (s.grant c l todo).map (·, s) = some (c', s') →
      s.Free l ∧ c' = { c with todo, guards := c.guards.add l } ∧ s' = s := by
    intro l todo hg
    obtain ⟨d, hd, heq⟩ := Option.map_eq_some_iff.mp hg
    obtain ⟨hfree, rfl⟩ := grant_eq_some hd
    cases heq
    exact ⟨hfree, rfl, rfl⟩
  rw [BrokerState.exec] at h
  cases htodo : c.todo with
  | nil =>
    rw [htodo] at h
    cases h
  | cons instr todo =>
    rw [htodo] at h
    cases instr with
    | lockPool =>
      obtain ⟨hfree, rfl, rfl⟩ := hgrant .pool todo h
      exact .lockPool hfree
    | lockOpenDbs =>
      obtain ⟨hfree, rfl, rfl⟩ := hgrant .openDbs todo h
      exact .lockOpenDbs hfree
    | lockSession =>
      -- of the session that the call has
      obtain ⟨i, hi, h⟩ := Option.bind_eq_some_iff.mp h
      obtain ⟨hfree, rfl, rfl⟩ := hgrant (.session i) todo h
      exact .lockSession i hi hfree
    | unlock k =>
      cases h
      exact .unlock k
    | work =>
      cases h
      split
      · exact .worked
      · exact .failed
    | find =>
      dsimp only at h
      split at h
      · rename_i i
        split at h
        · rename_i hi
          cases h
          exact .found i hi
        · cases h
      · cases h
        exact .missed
    | spawn =>
      cases h
      exact .spawn
    | register =>
      cases h
      exact .register
    | unregister =>
      cases h
      exact .unregister
    | pushDb =>
      cases h
      exact .pushDb
    | dropDb =>
      cases h
      exact .dropDb
    | visitPool =>
      cases h
      exact .visitPool
    | visitOpen =>
      cases h
      exact .visitOpen
    | visit is =>
      cases is with
      | nil =>
        cases h
        exact .visited
      | cons i is =>
        -- the guard of the first session is dropped before that of the next is taken
        obtain ⟨hfree, rfl, rfl⟩ := hgrant (.session i) (.unlock .session :: .visit is :: todo) h
        exact .visit i is hfree

/-- What a step does to the guards of its call: it takes the free lock that the call wants, lets go
of one, drops all of them, or leaves them. -/
inductive GuardChange (s : BrokerState) (c c' : RunningCall) : Prop
  | taken (l : Lock) (hwants : c.wants = some l) (hfree : s.Free l)
      (h : c'.guards = c.guards.add l) (hsession : c'.session = c.session)
  | dropped (k : LockKind) (h : c'.guards = c.guards.drop k) (hsession : c'.session = c.session)
  | aborted (h : c' = c.abort)
  | kept (h : c'.guards = c.guards)

lemma exec_guards (h : s.exec c pick = some (c', s')) : GuardChange s c c' := by
  have hexec := exec_eq_some h
  generalize htodo : c.todo = todo at hexec
  cases hexec with
  | lockPool hfree => exact .taken .pool (by rw [RunningCall.wants, htodo]) hfree rfl rfl
  | lockOpenDbs hfree => exact .taken .openDbs (by rw [RunningCall.wants, htodo]) hfree rfl rfl
  | lockSession i hi hfree =>
    exact .taken (.session i) (by rw [RunningCall.wants, htodo, hi]; rfl) hfree rfl rfl
  | visit i is hfree =>
    exact .taken (.session i) (by rw [RunningCall.wants, htodo]) hfree rfl rfl
  | unlock k => exact .dropped k rfl rfl
  | failed | missed => exact .aborted rfl
  | worked | found | spawn | register | unregister | pushDb | dropDb | visitPool | visitOpen
  | visited => exact .kept rfl

/-- What a step does to the session of its call and to the sessions of the broker. -/
inductive SessionChange (s : BrokerState) (c c' : RunningCall) (s' : BrokerState) : Prop
  | found (i : ℕ) (todo : List Instr) (htodo : c.todo = .find :: todo) (hi : i ∈ s.sessions)
      (hc : c'.session = some i) (hs : s' = s)
  | spawned (todo : List Instr) (htodo : c.todo = .spawn :: todo)
      (hc : c'.session = some s.spawned) (hs : s' = { s with spawned := s.spawned + 1 })
  | kept (hc : c'.session = c.session) (hs : s'.spawned = s.spawned)
      (hsessions : ∀ i ∈ s'.sessions, i ∈ s.sessions ∨ c.session = some i)

lemma exec_session (h : s.exec c pick = some (c', s')) : SessionChange s c c' s' := by
  have hexec := exec_eq_some h
  generalize htodo : c.todo = todo at hexec
  cases hexec with
  | found i hi => exact .found i _ htodo hi rfl rfl
  | spawn => exact .spawned _ htodo rfl rfl
  | register =>
    -- the session of the call joins the list
    refine .kept rfl rfl fun i hi => ?_
    rcases List.mem_append.mp hi with hi | hi
    · exact .inl hi
    · exact .inr (Option.mem_toList.mp hi)
  | unregister => exact .kept rfl rfl fun i hi => .inl (List.mem_of_mem_filter hi)
  | lockPool | lockOpenDbs | lockSession | unlock | worked | failed | missed | pushDb | dropDb
  | visitPool | visitOpen | visited | visit => exact .kept rfl rfl fun i hi => .inl hi

/-- A step leaves a handler that takes its locks in order. -/
lemma exec_climbs {rank : LockKind → ℕ} (h : s.exec c pick = some (c', s'))
    (hc : climbs rank c.call.owns c.shape c.todo = true) :
    c'.call = c.call ∧ climbs rank c.call.owns c'.shape c'.todo = true := by
  have hexec := exec_eq_some h
  generalize htodo : c.todo = todo at hexec hc
  cases hexec with
  | lockPool | lockOpenDbs | lockSession | found | spawn | visited =>
    simp only [climbs, Bool.and_eq_true] at hc
    exact ⟨rfl, hc.2⟩
  | unlock k =>
    refine ⟨rfl, ?_⟩
    cases k <;> exact hc
  | failed | missed => exact ⟨rfl, rfl⟩
  | worked | register | unregister | pushDb | dropDb | visitPool | visitOpen => exact ⟨rfl, hc⟩
  | @visit todo i is hfree =>
    simp only [climbs, Bool.and_eq_true] at hc
    refine ⟨rfl, ?_⟩
    -- behind the guard of this session the call is where it was
    have hshape : { RunningCall.shape { c with
        todo := .unlock .session :: .visit is :: todo, guards := c.guards.add (.session i) } with
        session := false } = c.shape := by
      have hnone : c.guards.session.isSome = false := by simpa [RunningCall.shape] using hc.1.2
      simp [RunningCall.shape, Guards.add, hnone]
    have hsame : climbs rank c.call.owns c.shape (.visit is :: todo) = true := by
      simpa only [climbs, Bool.and_eq_true] using hc
    show climbs rank c.call.owns { RunningCall.shape { c with
        todo := .unlock .session :: .visit is :: todo, guards := c.guards.add (.session i) } with
        session := false } (.visit is :: todo) = true
    rw [hshape]
    exact hsame

/-- A lock that a call wants comes behind its guards, or is the session it has spawned. -/
lemma climbs_wants {rank : LockKind → ℕ} {owns : Bool} {l : Lock}
    (hc : climbs rank owns c.shape c.todo = true) (hwants : c.wants = some l) :
    c.shape.below rank l.kind = true ∨
      (owns = true ∧ c.guards.pool = true ∧ c.guards.session = none ∧
        ∃ i, c.session = some i ∧ l = .session i) := by
  rw [RunningCall.wants] at hwants
  split at hwants
  · rename_i todo htodo
    cases hwants
    simp only [htodo, climbs, Bool.and_eq_true] at hc
    exact .inl hc.1.1
  · rename_i todo htodo
    cases hwants
    simp only [htodo, climbs, Bool.and_eq_true] at hc
    exact .inl hc.1
  · rename_i todo htodo
    obtain ⟨i, hi, rfl⟩ := Option.map_eq_some_iff.mp hwants
    simp only [htodo, climbs, Bool.and_eq_true, Bool.or_eq_true] at hc
    rcases hc.1 with hbelow | hown
    · exact .inl hbelow
    · simp only [RunningCall.shape, Bool.not_eq_true', Option.isSome_eq_false_iff] at hown
      exact .inr ⟨hown.1.1, hown.1.2, by simpa using hown.2, i, hi, rfl⟩
  · rename_i i is todo htodo
    cases hwants
    simp only [htodo, climbs, Bool.and_eq_true] at hc
    exact .inl hc.1.1.2
  · cases hwants

/-- A guard of a call is of a kind that its shape shows. -/
lemma below_of_has {rank : LockKind → ℕ} {k : LockKind} {l : Lock}
    (hbelow : c.shape.below rank k = true) (hhas : c.guards.Has l) : rank l.kind < rank k := by
  simp only [Shape.below, RunningCall.shape, Bool.and_eq_true, Bool.or_eq_true,
    Bool.not_eq_true', decide_eq_true_eq] at hbelow
  obtain ⟨⟨hpool, hopen⟩, hsession⟩ := hbelow
  cases l with
  | pool =>
    have hhas' : c.guards.pool = true := hhas
    exact hpool.resolve_left (by simp [hhas'])
  | openDbs =>
    have hhas' : c.guards.openDbs = true := hhas
    exact hopen.resolve_left (by simp [hhas'])
  | session i =>
    have hhas' : c.guards.session = some i := hhas
    exact hsession.resolve_left (by simp [hhas'])

/-- A call that has ended has no guards. -/
lemma climbs_nil {rank : LockKind → ℕ} {owns : Bool} (hc : climbs rank owns c.shape c.todo = true)
    (htodo : c.todo = []) (l : Lock) : ¬ c.guards.Has l := by
  rw [htodo] at hc
  simp only [climbs, RunningCall.shape, Bool.and_eq_true, Bool.not_eq_true'] at hc
  obtain ⟨⟨hpool, hopen⟩, hsession⟩ := hc
  cases l with
  | pool => simp [Guards.Has, hpool]
  | openDbs => simp [Guards.Has, hopen]
  | session i =>
    intro hhas
    have hhas' : c.guards.session = some i := hhas
    simp [hhas'] at hsession

end Step

/-! ## The broker -/

/-- There is no cycle when every call that somebody waits for and that waits itself waits for a lock
further up. -/
lemma BrokerState.no_cycle_of_rank {s : BrokerState} (rank : LockKind → ℕ)
    (h : ∀ (b : ℕ) (c : RunningCall), s.calls[b]? = some c → ∀ l l' : Lock, c.guards.Has l →
      c.wants = some l' → ∀ (e : ℕ) (d : RunningCall), s.calls[e]? = some d → d.guards.Has l' →
      rank l.kind < rank l'.kind) :
    s.NoLockCycle := by
  let wanted : ℕ → ℕ := fun a =>
    ((s.calls[a]?.bind RunningCall.wants).map fun l => rank l.kind).getD 0
  have hwanted : ∀ (a : ℕ) (c : RunningCall) (l : Lock), s.calls[a]? = some c →
      c.wants = some l → wanted a = rank l.kind := by
    intro a c l hc hl
    simp only [wanted, hc, Option.bind_some, hl, Option.map_some, Option.getD_some]
  intro a
  refine no_cycle_of_climb wanted ?_ a
  rintro a b e ⟨c, hc, d, hd, l, hl, hhas⟩ ⟨d', hd', g, hg, l', hl', hhas'⟩
  obtain rfl : d = d' := Option.some.inj (hd.symm.trans hd')
  rw [hwanted a c l hc hl, hwanted b d l' hd hl']
  exact h b d hd l l' hhas hl' e g hg hhas'

/-- What holds of the guards in every run. -/
structure BrokerState.Guarded (s : BrokerState) : Prop where
  /-- Two calls do not have the guard of the pool at once. -/
  exclusive : ∀ (a b : ℕ) (c d : RunningCall), s.calls[a]? = some c → s.calls[b]? = some d → a ≠ b →
    c.guards.pool = true → d.guards.pool = false
  /-- Sessions are numbered below the next number. -/
  sessions_lt : ∀ i ∈ s.sessions, i < s.spawned
  bound_lt : ∀ c ∈ s.calls, ∀ i, c.session = some i → i < s.spawned
  /-- Every call takes its locks in one of the two orders. -/
  climbs : ∀ c ∈ s.calls, ∃ rank, climbs rank c.call.owns c.shape c.todo = true
  /-- The session of a call that has spawned it is nobody else's while the call has the pool. -/
  fresh : ∀ (a b : ℕ) (c d : RunningCall) (i : ℕ), s.calls[a]? = some c → s.calls[b]? = some d →
    a ≠ b → c.call.owns = true → c.guards.pool = true → c.session = some i → d.session ≠ some i

/-- The invariant of the broker. -/
structure BrokerState.Orderly (s : BrokerState) : Prop where
  /-- Two calls do not have the guard of the pool at once. -/
  exclusive : ∀ (a b : ℕ) (c d : RunningCall), s.calls[a]? = some c → s.calls[b]? = some d → a ≠ b →
    c.guards.pool = true → d.guards.pool = false
  /-- Sessions are numbered below the next number. -/
  sessions_lt : ∀ i ∈ s.sessions, i < s.spawned
  bound_lt : ∀ c ∈ s.calls, ∀ i, c.session = some i → i < s.spawned
  poolFirst : ∀ c ∈ s.calls, c.call.inverts = false →
    climbs poolFirst c.call.owns c.shape c.todo = true
  sessionFirst : ∀ c ∈ s.calls, c.call.sweeps = false →
    climbs sessionFirst c.call.owns c.shape c.todo = true
  /-- A call that does not sweep has no session guard but that of its session. -/
  own : ∀ c ∈ s.calls, c.call.sweeps = false → ∀ i, c.guards.session = some i → c.session = some i
  /-- The session of a call that has spawned it is nobody else's while the call has the pool. -/
  fresh : ∀ (a b : ℕ) (c d : RunningCall) (i : ℕ), s.calls[a]? = some c → s.calls[b]? = some d →
    a ≠ b → c.call.owns = true → c.guards.pool = true → c.session = some i → d.session ≠ some i
  /-- A call that inverts the order and one that sweeps are not both under way. -/
  apart : ∀ c ∈ s.calls, ∀ d ∈ s.calls, c.call.inverts = true → d.call.sweeps = true →
    c.todo = [] ∨ d.todo = []

namespace BrokerState.Orderly

variable {s : BrokerState}

lemma new : BrokerState.new.Orderly := by
  constructor <;> simp [BrokerState.new]

/-- An orderly broker is guarded. -/
lemma guarded (h : s.Orderly) : s.Guarded where
  exclusive := h.exclusive
  sessions_lt := h.sessions_lt
  bound_lt := h.bound_lt
  climbs := by
    intro c hc
    by_cases hinv : c.call.inverts = true
    · have hsweep : c.call.sweeps = false := by
        cases hcall : c.call <;> simp [hcall, ToolCall.inverts, ToolCall.sweeps] at hinv ⊢
      exact ⟨_, h.sessionFirst c hc hsweep⟩
    · exact ⟨_, h.poolFirst c hc (by simpa using hinv)⟩
  fresh := h.fresh

/-- A call that has ended has no guards. -/
lemma no_guards (h : s.Orderly) {c : RunningCall} (hc : c ∈ s.calls) (htodo : c.todo = [])
    (l : Lock) : ¬ c.guards.Has l := by
  obtain ⟨rank, hclimbs⟩ := h.guarded.climbs c hc
  exact climbs_nil hclimbs htodo l

/-- Without calls that invert the order, waiting climbs from the pool to the sessions. -/
lemma climb_poolFirst (h : s.Orderly)
    (hnone : ∀ c ∈ s.calls, c.call.inverts = true → c.todo = []) : s.NoLockCycle := by
  refine s.no_cycle_of_rank ReverseMcp.poolFirst ?_
  intro b c hc l l' hhas hwants e d _ _
  have hmem : c ∈ s.calls := List.mem_of_getElem? hc
  have hinv : c.call.inverts = false := by
    by_contra hinv
    exact h.no_guards hmem (hnone c hmem (by simpa using hinv)) l hhas
  rcases climbs_wants (h.poolFirst c hmem hinv) hwants with hbelow | ⟨-, -, hguard, i, -, rfl⟩
  · exact below_of_has hbelow hhas
  · -- the session of the call itself comes last in this order anyway
    cases l with
    | pool => simp [Lock.kind, ReverseMcp.poolFirst]
    | openDbs => simp [Lock.kind, ReverseMcp.poolFirst]
    | session j =>
      have hsome : c.guards.session = some j := hhas
      rw [hguard] at hsome
      cases hsome

/-- Without calls that sweep, waiting climbs from the sessions to the pool. -/
lemma climb_sessionFirst (h : s.Orderly)
    (hnone : ∀ d ∈ s.calls, d.call.sweeps = true → d.todo = []) : s.NoLockCycle := by
  have hsweeps : ∀ c ∈ s.calls, ∀ l, c.guards.Has l → c.call.sweeps = false := by
    intro c hc l hhas
    by_contra hsweep
    exact h.no_guards hc (hnone c hc (by simpa using hsweep)) l hhas
  refine s.no_cycle_of_rank ReverseMcp.sessionFirst ?_
  intro b c hc l l' hhas hwants e d hd hhas'
  have hmem : c ∈ s.calls := List.mem_of_getElem? hc
  rcases climbs_wants (h.sessionFirst c hmem (hsweeps c hmem l hhas)) hwants with
    hbelow | ⟨howns, hpool, hguard, i, hi, rfl⟩
  · exact below_of_has hbelow hhas
  · -- nobody has the guard of a session that its call has just spawned
    exfalso
    have hmem' : d ∈ s.calls := List.mem_of_getElem? hd
    have hown := h.own d hmem' (hsweeps d hmem' _ hhas') i hhas'
    by_cases hbe : b = e
    · subst hbe
      obtain rfl : c = d := Option.some.inj (hc.symm.trans hd)
      have hsome : c.guards.session = some i := hhas'
      rw [hguard] at hsome
      cases hsome
    · exact h.fresh b e c d i hc hd hbe howns hpool hi hown

/-- An orderly broker has no cycle. -/
lemma acyclic (h : s.Orderly) : s.NoLockCycle := by
  by_cases hinv : ∀ c ∈ s.calls, c.call.inverts = true → c.todo = []
  · exact h.climb_poolFirst hinv
  · push Not at hinv
    obtain ⟨c, hc, hcinv, htodo⟩ := hinv
    exact h.climb_sessionFirst
      fun d hd hsweep => (h.apart c hc d hd hcinv hsweep).resolve_left htodo

end BrokerState.Orderly

/-! ## Steps and runs -/

/-- A call that inverts the order does not begin while one that sweeps is under way, nor the other
way round. -/
def BrokerEvent.Apart (s : BrokerState) : BrokerEvent → Prop
  | .start call =>
    (call.inverts = true → ∀ d ∈ s.calls, d.call.sweeps = true → d.todo = []) ∧
    (call.sweeps = true → ∀ c ∈ s.calls, c.call.inverts = true → c.todo = [])
  | .advance _ _ => True

instance BrokerEvent.decidableApart (s : BrokerState) : (e : BrokerEvent) → Decidable (e.Apart s)
  | .start call => inferInstanceAs (Decidable (
      (call.inverts = true → ∀ d ∈ s.calls, d.call.sweeps = true → d.todo = []) ∧
      (call.sweeps = true → ∀ c ∈ s.calls, c.call.inverts = true → c.todo = [])))
  | .advance _ _ => isTrue trivial

section Steps

variable {s s' : BrokerState} {c c' : RunningCall} {k : ℕ} {pick : Option ℕ}

/-- The calls with one more. -/
lemma getElem?_calls_append {calls : List RunningCall} {call : ToolCall} {a : ℕ}
    (hc : (calls ++ [RunningCall.new call])[a]? = some c) :
    calls[a]? = some c ∨ c = .new call := by
  rw [List.getElem?_append] at hc
  split at hc
  · exact .inl hc
  · refine .inr ?_
    have hsingle := List.mem_of_getElem? hc
    simpa using hsingle

/-- Every handler takes its locks in one of the two orders. -/
lemma handler_climbs (call : ToolCall) :
    ∃ rank, climbs rank call.owns (RunningCall.new call).shape call.handler = true := by
  by_cases hinv : call.inverts = true
  · refine ⟨_, handler_sessionFirst call ?_⟩
    cases hcall : call <;> simp [hcall, ToolCall.inverts, ToolCall.sweeps] at hinv ⊢
  · exact ⟨_, handler_poolFirst call (by simpa using hinv)⟩

/-- A call begins. -/
lemma BrokerState.Guarded.start (h : s.Guarded) (call : ToolCall) :
    Guarded { s with calls := s.calls ++ [.new call] } := by
  have hmem : ∀ c ∈ s.calls ++ [RunningCall.new call], c ∈ s.calls ∨ c = .new call := by
    intro c hc
    simpa using hc
  constructor
  · intro a b c d hc hd hab hpool
    rcases getElem?_calls_append hc with hc | rfl
    · rcases getElem?_calls_append hd with hd | rfl
      · exact h.exclusive a b c d hc hd hab hpool
      · rfl
    · cases hpool
  · exact h.sessions_lt
  · intro c hc i hi
    rcases hmem c hc with hc | rfl
    · exact h.bound_lt c hc i hi
    · cases hi
  · intro c hc
    rcases hmem c hc with hc | rfl
    · exact h.climbs c hc
    · exact handler_climbs call
  · intro a b c d i hc hd hab howns hpool hi
    rcases getElem?_calls_append hc with hc | rfl
    · rcases getElem?_calls_append hd with hd | rfl
      · exact h.fresh a b c d i hc hd hab howns hpool hi
      · simp [RunningCall.new]
    · cases hi

/-- A call begins that does not let the two sorts of calls overlap. -/
lemma BrokerState.Orderly.start (h : s.Orderly) {call : ToolCall}
    (ha : (BrokerEvent.start call).Apart s) :
    Orderly { s with calls := s.calls ++ [.new call] } := by
  have hmem : ∀ c ∈ s.calls ++ [RunningCall.new call], c ∈ s.calls ∨ c = .new call := by
    intro c hc
    simpa using hc
  have hguarded := h.guarded.start call
  refine ⟨hguarded.exclusive, hguarded.sessions_lt, hguarded.bound_lt, ?_, ?_, ?_,
    hguarded.fresh, ?_⟩
  · intro c hc hinv
    rcases hmem c hc with hc | rfl
    · exact h.poolFirst c hc hinv
    · exact handler_poolFirst call hinv
  · intro c hc hsweep
    rcases hmem c hc with hc | rfl
    · exact h.sessionFirst c hc hsweep
    · exact handler_sessionFirst call hsweep
  · intro c hc hsweep i hi
    rcases hmem c hc with hc | rfl
    · exact h.own c hc hsweep i hi
    · cases hi
  · intro c hc d hd hinv hsweep
    rcases hmem c hc with hc | rfl
    · rcases hmem d hd with hd | rfl
      · exact h.apart c hc d hd hinv hsweep
      · exact .inl (ha.2 hsweep c hc hinv)
    · rcases hmem d hd with hd | rfl
      · exact .inr (ha.1 hinv d hd hsweep)
      · cases call <;> simp [RunningCall.new, ToolCall.inverts, ToolCall.sweeps] at hinv hsweep

/-- The calls with one of them moved on. -/
lemma getElem?_calls_set {calls : List RunningCall} (hk : calls[k]? = some c) {a : ℕ}
    {d : RunningCall} (ha : (calls.set k c')[a]? = some d) :
    (a = k ∧ d = c') ∨ (a ≠ k ∧ calls[a]? = some d) := by
  obtain ⟨hlt, -⟩ := List.getElem?_eq_some_iff.mp hk
  by_cases hak : a = k
  · subst hak
    rw [List.getElem?_set_self hlt] at ha
    exact .inl ⟨rfl, (Option.some.inj ha).symm⟩
  · rw [List.getElem?_set_ne (Ne.symm hak)] at ha
    exact .inr ⟨hak, ha⟩

/-- A guard of the pool that is new was free. -/
lemma GuardChange.pool (h : GuardChange s c c') (hpool : c'.guards.pool = true) :
    c.guards.pool = true ∨ (s.Free .pool ∧ c.wants = some .pool ∧ c'.session = c.session) := by
  cases h with
  | taken l hwants hfree hg hsession =>
    cases l with
    | pool => exact .inr ⟨hfree, hwants, hsession⟩
    | openDbs | session i =>
      rw [hg] at hpool
      exact .inl hpool
  | dropped k hg _ =>
    rw [hg] at hpool
    cases k with
    | pool => cases hpool
    | openDbs | session => exact .inl hpool
  | aborted hc =>
    rw [hc] at hpool
    cases hpool
  | kept hg =>
    rw [hg] at hpool
    exact .inl hpool

/-- A call that does not sweep takes no session guard but that of its session. -/
lemma wants_session (hc : climbs sessionFirst c.call.owns c.shape c.todo = true) {i : ℕ}
    (hwants : c.wants = some (.session i)) : c.session = some i := by
  rw [RunningCall.wants] at hwants
  split at hwants
  · cases hwants
  · cases hwants
  · obtain ⟨j, hj, heq⟩ := Option.map_eq_some_iff.mp hwants
    cases heq
    exact hj
  · rename_i j is todo htodo
    -- sweeping happens under the pool, which comes behind the sessions in this order
    simp only [htodo, climbs, Shape.below, Bool.and_eq_true, Bool.or_eq_true] at hc
    have hpool := hc.1.1.1
    have hbelow := hc.1.1.2.1.1
    simp [hpool, sessionFirst] at hbelow
  · cases hwants

/-- The calls that look a session up or spawn one. -/
lemma climbs_find {rank : LockKind → ℕ} {owns : Bool} {todo : List Instr}
    (hc : climbs rank owns c.shape c.todo = true) (htodo : c.todo = .find :: todo) :
    c.guards.pool = true ∧ c.guards.session = none ∧ owns = false := by
  simp only [htodo, climbs, RunningCall.shape, Bool.and_eq_true, Bool.not_eq_true'] at hc
  exact ⟨hc.1.1.1, by simpa using hc.1.1.2, hc.1.2⟩

lemma climbs_spawn {rank : LockKind → ℕ} {owns : Bool} {todo : List Instr}
    (hc : climbs rank owns c.shape c.todo = true) (htodo : c.todo = .spawn :: todo) :
    c.guards.session = none := by
  simp only [htodo, climbs, RunningCall.shape, Bool.and_eq_true, Bool.not_eq_true'] at hc
  simpa using hc.1

lemma climbs_lockPool {rank : LockKind → ℕ} (hc : climbs rank true c.shape c.todo = true)
    (hwants : c.wants = some .pool) : c.session = none := by
  rw [RunningCall.wants] at hwants
  split at hwants
  · rename_i todo htodo
    simp only [htodo, climbs, RunningCall.shape, Bool.and_eq_true, Bool.not_eq_true',
      Bool.true_and] at hc
    simpa using hc.1.2
  · cases hwants
  · obtain ⟨j, -, heq⟩ := Option.map_eq_some_iff.mp hwants
    cases heq
  · cases hwants
  · cases hwants

/-- A session guard that is new is of the session of the call. -/
lemma own_advance (hc : climbs sessionFirst c.call.owns c.shape c.todo = true)
    (hown : ∀ i, c.guards.session = some i → c.session = some i)
    (hexec : s.exec c pick = some (c', s')) {i : ℕ} (hi : c'.guards.session = some i) :
    c'.session = some i := by
  cases exec_guards hexec with
  | taken l hwants hfree hg hsession =>
    rw [hsession]
    rw [hg] at hi
    cases l with
    | pool | openDbs => exact hown i hi
    | session j =>
      -- the lock wanted is that of the session of the call
      have hji : some j = some i := hi
      cases hji
      exact wants_session hc hwants
  | dropped k hg hsession =>
    rw [hsession]
    rw [hg] at hi
    cases k with
    | pool | openDbs => exact hown i hi
    | session => cases hi
  | aborted hc' =>
    rw [hc'] at hi
    cases hi
  | kept hg =>
    rw [hg] at hi
    -- the guards are the same, so a new session would have come with a guard on another
    cases exec_session hexec with
    | found j todo htodo hj hc' hs =>
      rw [(climbs_find hc htodo).2.1] at hi
      cases hi
    | spawned todo htodo hc' hs =>
      rw [climbs_spawn hc htodo] at hi
      cases hi
    | kept hc' hs hsessions =>
      rw [hc']
      exact hown i hi

namespace BrokerState.Guarded

lemma advance_exclusive (h : s.Guarded) (hk : s.calls[k]? = some c)
    (hexec : s.exec c pick = some (c', s')) {a b : ℕ} {d e : RunningCall}
    (hd : (s.calls.set k c')[a]? = some d) (he : (s.calls.set k c')[b]? = some e) (hab : a ≠ b)
    (hpool : d.guards.pool = true) : e.guards.pool = false := by
  have hguards := exec_guards hexec
  rcases getElem?_calls_set hk hd with ⟨rfl, rfl⟩ | ⟨ha, hd₀⟩
  · rcases getElem?_calls_set hk he with ⟨hb, -⟩ | ⟨hb, he₀⟩
    · exact absurd hb.symm hab
    · rcases hguards.pool hpool with hold | ⟨hfree, -, -⟩
      · exact h.exclusive a b c e hk he₀ hab hold
      · have hnot := hfree e (List.mem_of_getElem? he₀)
        simpa [Guards.Has] using hnot
  · rcases getElem?_calls_set hk he with ⟨rfl, rfl⟩ | ⟨hb, he₀⟩
    · by_contra hnew
      rcases hguards.pool (by simpa using hnew) with hold | ⟨hfree, -, -⟩
      · have hfalse := h.exclusive a b d c hd₀ hk hab hpool
        rw [hold] at hfalse
        cases hfalse
      · exact hfree d (List.mem_of_getElem? hd₀) hpool
    · exact h.exclusive a b d e hd₀ he₀ hab hpool

lemma advance_sessions (h : s.Guarded) (hc : c ∈ s.calls) (hexec : s.exec c pick = some (c', s')) :
    s.spawned ≤ s'.spawned ∧ (∀ i ∈ s'.sessions, i < s'.spawned) ∧
      ∀ i, c'.session = some i → i < s'.spawned := by
  cases exec_session hexec with
  | found j todo htodo hj hc' hs =>
    subst hs
    refine ⟨le_rfl, h.sessions_lt, fun i hi => ?_⟩
    rw [hc'] at hi
    cases hi
    exact h.sessions_lt _ hj
  | spawned todo htodo hc' hs =>
    subst hs
    refine ⟨Nat.le_succ _, fun i hi => (h.sessions_lt i hi).trans (Nat.lt_succ_self _),
      fun i hi => ?_⟩
    rw [hc'] at hi
    cases hi
    exact Nat.lt_succ_self _
  | kept hc' hs hsessions =>
    rw [hs]
    refine ⟨le_rfl, fun i hi => ?_, fun i hi => h.bound_lt c hc i (hc' ▸ hi)⟩
    rcases hsessions i hi with hi | hi
    · exact h.sessions_lt i hi
    · exact h.bound_lt c hc i hi

lemma advance_fresh (h : s.Guarded) (hk : s.calls[k]? = some c)
    (hexec : s.exec c pick = some (c', s')) (hcall : c'.call = c.call) {a b : ℕ}
    {d e : RunningCall} {i : ℕ} (hd : (s.calls.set k c')[a]? = some d)
    (he : (s.calls.set k c')[b]? = some e) (hab : a ≠ b) (howns : d.call.owns = true)
    (hpool : d.guards.pool = true) (hi : d.session = some i) : e.session ≠ some i := by
  have hc : c ∈ s.calls := List.mem_of_getElem? hk
  obtain ⟨rank, hclimbs⟩ := h.climbs c hc
  intro hei
  rcases getElem?_calls_set hk hd with ⟨rfl, rfl⟩ | ⟨ha, hd₀⟩
  · rcases getElem?_calls_set hk he with ⟨hb, -⟩ | ⟨hb, he₀⟩
    · exact hab hb.symm
    rw [hcall] at howns
    rw [howns] at hclimbs
    -- the call that has spawned the session goes on
    cases exec_session hexec with
    | found j todo htodo hj hc' hs => cases (climbs_find hclimbs htodo).2.2
    | spawned todo htodo hc' hs =>
      rw [hc'] at hi
      cases hi
      exact lt_irrefl _ (h.bound_lt e (List.mem_of_getElem? he₀) _ hei)
    | kept hc' hs hsessions =>
      rw [hc'] at hi
      rcases (exec_guards hexec).pool hpool with hold | ⟨-, hwants, -⟩
      · exact h.fresh a b c e i hk he₀ hab howns hold hi hei
      · rw [climbs_lockPool hclimbs hwants] at hi
        cases hi
  · rcases getElem?_calls_set hk he with ⟨rfl, rfl⟩ | ⟨hb, he₀⟩
    · -- another call goes on
      cases exec_session hexec with
      | found j todo htodo hj hc' hs =>
        have hfalse := h.exclusive a b d c hd₀ hk hab hpool
        rw [(climbs_find hclimbs htodo).1] at hfalse
        cases hfalse
      | spawned todo htodo hc' hs =>
        rw [hc'] at hei
        cases hei
        exact lt_irrefl _ (h.bound_lt d (List.mem_of_getElem? hd₀) _ hi)
      | kept hc' hs hsessions =>
        rw [hc'] at hei
        exact h.fresh a b d c i hd₀ hk hab howns hpool hi hei
    · exact h.fresh a b d e i hd₀ he₀ hab howns hpool hi hei

/-- A call goes on. -/
lemma advance (h : s.Guarded) (hk : s.calls[k]? = some c)
    (hexec : s.exec c pick = some (c', s')) : Guarded { s' with calls := s.calls.set k c' } := by
  have hc : c ∈ s.calls := List.mem_of_getElem? hk
  obtain ⟨rank, hclimbs⟩ := h.climbs c hc
  obtain ⟨hcall, hclimbs'⟩ := exec_climbs hexec hclimbs
  obtain ⟨hle, hsessions, hbound⟩ := h.advance_sessions hc hexec
  have hmem : ∀ d ∈ s.calls.set k c', d = c' ∨ d ∈ s.calls :=
    fun d hd => (List.mem_or_eq_of_mem_set hd).symm
  refine ⟨fun a b d e hd he hab => h.advance_exclusive hk hexec hd he hab, hsessions, ?_, ?_,
    fun a b d e i hd he hab => h.advance_fresh hk hexec hcall hd he hab⟩
  · intro d hd i hi
    rcases hmem d hd with rfl | hd₀
    · exact hbound i hi
    · exact (h.bound_lt d hd₀ i hi).trans_le hle
  · intro d hd
    rcases hmem d hd with rfl | hd₀
    · rw [hcall]
      exact ⟨rank, hclimbs'⟩
    · exact h.climbs d hd₀

end BrokerState.Guarded

/-- A call goes on. -/
lemma BrokerState.Orderly.advance (h : s.Orderly) (hk : s.calls[k]? = some c)
    (hexec : s.exec c pick = some (c', s')) : Orderly { s' with calls := s.calls.set k c' } := by
  have hc : c ∈ s.calls := List.mem_of_getElem? hk
  obtain ⟨rank, hclimbs⟩ := h.guarded.climbs c hc
  obtain ⟨hcall, -⟩ := exec_climbs hexec hclimbs
  have hguarded := h.guarded.advance hk hexec
  -- the call that goes on has not ended, so it is the other one that has
  have hrunning : c.todo ≠ [] := by
    intro hnil
    rw [exec] at hexec
    rw [hnil] at hexec
    cases hexec
  have hmem : ∀ d ∈ s.calls.set k c', d = c' ∨ d ∈ s.calls :=
    fun d hd => (List.mem_or_eq_of_mem_set hd).symm
  refine ⟨hguarded.exclusive, hguarded.sessions_lt, hguarded.bound_lt, ?_, ?_, ?_,
    hguarded.fresh, ?_⟩
  · intro d hd hinv
    rcases hmem d hd with rfl | hd₀
    · rw [hcall] at hinv ⊢
      exact (exec_climbs hexec (h.poolFirst c hc hinv)).2
    · exact h.poolFirst d hd₀ hinv
  · intro d hd hsweep
    rcases hmem d hd with rfl | hd₀
    · rw [hcall] at hsweep ⊢
      exact (exec_climbs hexec (h.sessionFirst c hc hsweep)).2
    · exact h.sessionFirst d hd₀ hsweep
  · intro d hd hsweep i hi
    rcases hmem d hd with rfl | hd₀
    · rw [hcall] at hsweep
      exact own_advance (h.sessionFirst c hc hsweep) (h.own c hc hsweep) hexec hi
    · exact h.own d hd₀ hsweep i hi
  · intro d hd e he hinv hsweep
    rcases hmem d hd with rfl | hd₀
    · rw [hcall] at hinv
      rcases hmem e he with rfl | he₀
      · rw [hcall] at hsweep
        exact absurd (h.apart c hc c hc hinv hsweep) (by simp [hrunning])
      · exact .inr ((h.apart c hc e he₀ hinv hsweep).resolve_left hrunning)
    · rcases hmem e he with rfl | he₀
      · rw [hcall] at hsweep
        exact .inl ((h.apart d hd₀ c hc hinv hsweep).resolve_right hrunning)
      · exact h.apart d hd₀ e he₀ hinv hsweep

/-- A step that does not let the two sorts of calls overlap keeps the broker orderly. -/
lemma BrokerStep.orderly {e : BrokerEvent} (hstep : BrokerStep s e s') (ha : e.Apart s)
    (h : s.Orderly) : s'.Orderly := by
  cases e with
  | start call =>
    cases hstep
    exact h.start ha
  | advance k pick =>
    obtain ⟨c, hk, hstep⟩ := Option.bind_eq_some_iff.mp hstep
    obtain ⟨⟨c', s₁⟩, hexec, rfl⟩ := Option.map_eq_some_iff.mp hstep
    exact h.advance hk hexec

end Steps

/-- In every run in which the calls that invert the lock order and the calls that sweep over the
sessions do not overlap, no state has a cycle of calls that wait for each other. -/
theorem no_lock_cycle {tr : List (BrokerEvent × BrokerState)} (h : Run BrokerStep .new tr)
    (ha : Along (fun s e => e.Apart s) .new tr) : ∀ s ∈ statesOf .new tr, s.NoLockCycle := by
  intro s hs
  have horderly := h.invariant ha BrokerState.Orderly.new
    (fun _ _ _ hstep hapart hs => hstep.orderly hapart hs) s hs
  exact horderly.acyclic

/-- The steps of one call, with a session that is found and nothing that fails. -/
def advances (k n : ℕ) : List BrokerEvent := List.replicate n (.advance k (some 0))

/-- A database is opened; a list waits for the session of another call. -/
theorem no_lock_cycle_list :
    let events := .start .openDb :: advances 0 13 ++ .start .single :: advances 1 8 ++
      .start .list :: advances 2 2
    let tr := follow BrokerState.act .new events
    tr.length = 26 ∧ (lastOf .new tr).WaitsFor 2 1 ∧ (lastOf .new tr).NoLockCycle := by
  intro events tr
  refine ⟨by decide +kernel, ?_, ?_⟩
  · refine ⟨⟨.list, [.visit [0], .unlock .pool], ⟨true, false, none⟩, none⟩, by decide +kernel,
      ⟨.single, [.work, .unlock .session], ⟨false, false, some 0⟩, some 0⟩, by decide +kernel,
      .session 0, by decide, by decide⟩
  · exact no_lock_cycle (follow_run BrokerState.act .new events) (by decide +kernel) _
      (List.mem_of_getElem? (i := 26) (by rfl))

/-- `function_hierarchical` has the session and waits for the pool, `ida_db` with `action=list` has
the pool and waits for the session. -/
theorem no_lock_cycle_not : ¬ ∀ tr, Run BrokerStep .new tr → ∀ s ∈ statesOf .new tr,
    s.NoLockCycle := by
  intro h
  let events := .start .openDb :: advances 0 13 ++ .start (.hierarchical true) :: advances 1 9 ++
    .start .list :: advances 2 2
  let tr := follow BrokerState.act .new events
  have hnone := h tr (follow_run BrokerState.act .new events) (lastOf .new tr)
    (List.mem_of_getElem? (i := 27) (by rfl)) 1
  let hierarchical : RunningCall := ⟨.hierarchical true,
    [.lockPool, .work, .unlock .pool, .unlock .session], ⟨false, false, some 0⟩, some 0⟩
  let list : RunningCall := ⟨.list, [.visit [0], .unlock .pool], ⟨true, false, none⟩, none⟩
  have hout : (lastOf .new tr).WaitsFor 1 2 :=
    ⟨hierarchical, by decide +kernel, list, by decide +kernel, .pool, by decide, by decide⟩
  have hback : (lastOf .new tr).WaitsFor 2 1 :=
    ⟨list, by decide +kernel, hierarchical, by decide +kernel, .session 0, by decide, by decide⟩
  exact hnone (.tail (.single hout) hback)

end ReverseMcp
