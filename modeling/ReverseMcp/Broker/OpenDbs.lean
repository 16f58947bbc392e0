import ReverseMcp.Broker.Deadlock
import ReverseMcp.Broker.Tools

/-!
# Open databases

An open database stands in two lists: the sessions of the pool, of which there may be `max_workers`,
and the open databases of the broker.  Each has its own mutex, and `ida_db` with `action=open` and
with `action=close` update them one after the other.  Whenever no tool call is in progress the two
agree (`BrokerState.Listed.agree`): what can be in one of them only is the session of a call that is
between its two updates.

Closing the database of a dead worker does not get that far.  Its first call of the worker fails,
and the handler returns the error with both lists as they were (`tool_db_close_dead`).
-/

namespace ReverseMcp

open Rust

/-! ## Between the two lists -/

/-- What a call has yet to do to the two lists. -/
inductive ListPhase where
  /-- The session is in neither list. -/
  | registering
  /-- It is in the pool and not yet an open database. -/
  | pushing
  | closing
  /-- It has left the pool and may still be an open database. -/
  | dropping
  | settled
deriving DecidableEq

/-- The next change of the lists. -/
def listPhase (todo : List Instr) : ListPhase :=
  if .register ∈ todo then .registering
  else if .pushDb ∈ todo then .pushing
  else if .unregister ∈ todo then .closing
  else if .dropDb ∈ todo then .dropping
  else .settled

/-- The instruction changes one of the lists. -/
def Instr.lists : Instr → Bool
  | register | pushDb | unregister | dropDb => true
  | _ => false

lemma listPhase_cons {i : Instr} (h : i.lists = false) (todo : List Instr) :
    listPhase (i :: todo) = listPhase todo := by
  have hne : .register ≠ i ∧ .pushDb ≠ i ∧ .unregister ≠ i ∧ .dropDb ≠ i := by
    refine ⟨?_, ?_, ?_, ?_⟩ <;> rintro rfl <;> cases h
  simp [listPhase, hne]

/-- What a call in a phase has: `p` that it has the guard of the pool, `b` that it has a session. -/
def ListPhase.fits (owns p b : Bool) : ListPhase → Bool
  | registering => !b || (p && owns)
  | pushing => p && b && owns
  | dropping => b
  | closing | settled => true

/-- A handler changes both lists or none, and it does not return in between. -/
def tidy (owns : Bool) : Bool → Bool → List Instr → Bool
  | _, _, [] => true
  | p, b, i :: todo =>
    (listPhase (i :: todo)).fits owns p b &&
    match i with
    | .lockPool => tidy owns true b todo
    | .unlock .pool => tidy owns false b todo
    | .work => (listPhase todo ≠ .pushing ∧ listPhase todo ≠ .dropping) && tidy owns p b todo
    | .find => (listPhase todo = .closing ∨ listPhase todo = .settled) && tidy owns p true todo
    | .spawn => (listPhase todo = .registering) && tidy owns p true todo
    | .register => p && b && (listPhase todo = .pushing) && tidy owns p b todo
    | .pushDb =>
      (listPhase (i :: todo) = .pushing ∧ listPhase todo = .settled) && tidy owns p b todo
    | .unregister => (listPhase (i :: todo) = .closing ∧ listPhase todo = .dropping) && p && b &&
      tidy owns p b todo
    | .dropDb =>
      (listPhase (i :: todo) = .dropping ∧ listPhase todo = .settled) && tidy owns p b todo
    | _ => tidy owns p b todo

/-- The call does so from where it is. -/
def RunningCall.Tidy (c : RunningCall) : Prop :=
  tidy c.call.owns c.guards.pool c.session.isSome c.todo = true

/-- All handlers do. -/
lemma RunningCall.new_tidy (call : ToolCall) : (new call).Tidy := by
  rw [Tidy]
  cases call with
  | hierarchical large => cases large <;> decide
  | region try_hexrays => cases try_hexrays <;> decide
  | _ => decide

lemma RunningCall.Tidy.fits {c : RunningCall} (h : c.Tidy) (hne : c.todo ≠ []) :
    (listPhase c.todo).fits c.call.owns c.guards.pool c.session.isSome = true := by
  obtain ⟨i, todo, htodo⟩ := List.exists_cons_of_ne_nil hne
  unfold Tidy at h
  rw [htodo] at h ⊢
  unfold tidy at h
  exact (Bool.and_eq_true_iff.mp h).1

/-! ## One step of a call -/

/-- What a step does to the session of its call and to the lists. -/
inductive ListChange (s : BrokerState) (c c' : RunningCall) (s' : BrokerState) : Prop
  | kept (hs : s' = s) (hsession : c'.session = c.session)
      (hphase : listPhase c'.todo = listPhase c.todo)
  | ended (hs : s' = s) (hc : c' = c.abort) (hpushing : listPhase c.todo ≠ .pushing)
      (hdropping : listPhase c.todo ≠ .dropping)
  | found (i : ℕ) (hs : s' = s) (hi : i ∈ s.sessions) (hsession : c'.session = some i)
      (hphase : listPhase c.todo = .closing ∨ listPhase c.todo = .settled)
      (hphase' : listPhase c'.todo = listPhase c.todo)
  | spawned (hs : s' = { s with spawned := s.spawned + 1 }) (hsession : c'.session = some s.spawned)
      (hphase : listPhase c.todo = .registering) (hphase' : listPhase c'.todo = .registering)
  | registered (i : ℕ) (hi : c.session = some i) (hsession : c'.session = some i)
      (hphase : listPhase c.todo = .registering) (hphase' : listPhase c'.todo = .pushing)
      (hs : s' = { s with sessions := s.sessions ++ [i] })
  | pushed (i : ℕ) (hi : c.session = some i) (hsession : c'.session = some i)
      (hphase : listPhase c.todo = .pushing) (hphase' : listPhase c'.todo = .settled)
      (hs : s' = { s with open_dbs := s.open_dbs ++ [i] })
  | unregistered (i : ℕ) (hi : c.session = some i) (hsession : c'.session = some i)
      (hphase : listPhase c.todo = .closing) (hphase' : listPhase c'.todo = .dropping)
      (hpool : c.guards.pool = true)
      (hs : s' = { s with sessions := s.sessions.filter (some · ≠ some i) })
  | dropped (i : ℕ) (hi : c.session = some i) (hsession : c'.session = some i)
      (hphase : listPhase c.todo = .dropping) (hphase' : listPhase c'.todo = .settled)
      (hs : s' = { s with open_dbs := s.open_dbs.filter (some · ≠ some i) })

section Step

variable {s s' : BrokerState} {c c' : RunningCall} {pick : Option ℕ}

/-- What a step does to the lists, and that the call goes on tidily. -/
lemma exec_lists (h : s.exec c pick = some (c', s')) (hc : c.Tidy) :
    ListChange s c c' s' ∧ c'.Tidy := by
  have habort : c.abort.Tidy := rfl
  rw [RunningCall.Tidy] at hc
  have hexec := exec_eq_some h
  generalize htodo : c.todo = instrs at hexec hc
  cases hexec with
  | lockPool | lockOpenDbs | lockSession =>
    simp only [tidy, Bool.and_eq_true] at hc
    exact ⟨.kept rfl rfl (by rw [htodo, listPhase_cons rfl]), hc.2⟩
  | unlock k =>
    refine ⟨.kept rfl rfl (by rw [htodo, listPhase_cons rfl]), ?_⟩
    simp only [tidy, Bool.and_eq_true] at hc
    cases k <;> exact hc.2
  | worked =>
    simp only [tidy, Bool.and_eq_true, decide_eq_true_eq] at hc
    exact ⟨.kept rfl rfl (by rw [htodo, listPhase_cons rfl]), hc.2.2⟩
  | @failed todo =>
    -- the guards are dropped, in no phase between the two updates
    have hphase : listPhase todo = listPhase c.todo := by rw [htodo, listPhase_cons rfl]
    simp only [tidy, Bool.and_eq_true, decide_eq_true_eq] at hc
    exact ⟨.ended rfl rfl (hphase ▸ hc.2.1.1) (hphase ▸ hc.2.1.2), habort⟩
  | @found todo i hi =>
    have hphase : listPhase todo = listPhase c.todo := by rw [htodo, listPhase_cons rfl]
    simp only [tidy, Bool.and_eq_true, decide_eq_true_eq] at hc
    exact ⟨.found i rfl hi rfl (hphase ▸ hc.2.1) hphase, hc.2.2⟩
  | @missed todo =>
    have hphase : listPhase todo = listPhase c.todo := by rw [htodo, listPhase_cons rfl]
    simp only [tidy, Bool.and_eq_true, decide_eq_true_eq] at hc
    obtain ⟨-, hsettled, -⟩ := hc
    rw [hphase] at hsettled
    refine ⟨.ended rfl rfl ?_ ?_, habort⟩ <;> rcases hsettled with h | h <;> rw [h] <;> decide
  | @spawn todo =>
    have hphase : listPhase todo = listPhase c.todo := by rw [htodo, listPhase_cons rfl]
    simp only [tidy, Bool.and_eq_true, decide_eq_true_eq] at hc
    exact ⟨.spawned rfl rfl (hphase ▸ hc.2.1) hc.2.1, hc.2.2⟩
  | register =>
    simp only [tidy, Bool.and_eq_true, decide_eq_true_eq] at hc
    obtain ⟨-, ⟨⟨-, hsome⟩, hphase'⟩, htidy⟩ := hc
    obtain ⟨i, hi⟩ := Option.isSome_iff_exists.mp hsome
    refine ⟨.registered i hi hi ?_ hphase' (by rw [hi]; rfl), htidy⟩
    simp [htodo, listPhase]
  | unregister =>
    simp only [tidy, Bool.and_eq_true, decide_eq_true_eq] at hc
    obtain ⟨-, ⟨⟨⟨hphase, hphase'⟩, hpool⟩, hsome⟩, htidy⟩ := hc
    obtain ⟨i, hi⟩ := Option.isSome_iff_exists.mp hsome
    exact ⟨.unregistered i hi hi (htodo ▸ hphase) hphase' hpool (by rw [hi]), htidy⟩
  | pushDb =>
    simp only [tidy, Bool.and_eq_true, decide_eq_true_eq] at hc
    obtain ⟨hfits, ⟨hphase, hphase'⟩, htidy⟩ := hc
    rw [hphase] at hfits
    simp only [ListPhase.fits, Bool.and_eq_true] at hfits
    obtain ⟨i, hi⟩ := Option.isSome_iff_exists.mp hfits.1.2
    exact ⟨.pushed i hi hi (htodo ▸ hphase) hphase' (by rw [hi]; rfl), htidy⟩
  | dropDb =>
    simp only [tidy, Bool.and_eq_true, decide_eq_true_eq] at hc
    obtain ⟨hfits, ⟨hphase, hphase'⟩, htidy⟩ := hc
    rw [hphase] at hfits
    obtain ⟨i, hi⟩ := Option.isSome_iff_exists.mp hfits
    exact ⟨.dropped i hi hi (htodo ▸ hphase) hphase' (by rw [hi]), htidy⟩
  | visitPool | visitOpen =>
    -- it becomes a visit of the sessions that are registered, or open and registered, now
    simp only [tidy, listPhase_cons (i := .visitPool) rfl, listPhase_cons (i := .visitOpen) rfl]
      at hc
    refine ⟨.kept rfl rfl ?_, ?_⟩
    · rw [htodo, listPhase_cons rfl, listPhase_cons rfl]
    · simpa only [RunningCall.Tidy, tidy, listPhase_cons (i := .visit _) rfl] using hc
  | visited =>
    simp only [tidy, Bool.and_eq_true] at hc
    exact ⟨.kept rfl rfl (by rw [htodo, listPhase_cons rfl]), hc.2⟩
  | visit i is hfree =>
    simp only [tidy, Bool.and_eq_true, listPhase_cons (i := .visit _) rfl] at hc
    refine ⟨.kept rfl rfl ?_, ?_⟩
    · rw [htodo, listPhase_cons rfl, listPhase_cons rfl, listPhase_cons rfl]
    · simp only [RunningCall.Tidy, tidy, listPhase_cons (i := .visit _) rfl,
        listPhase_cons (i := .unlock _) rfl, Bool.and_eq_true]
      exact ⟨hc.1, hc.1, hc.2⟩

end Step

/-! ## The two lists in a run -/

namespace BrokerState

/-- A call whose session is `i` is in a phase. -/
def InPhase (s : BrokerState) (p : ListPhase) (i : ℕ) : Prop :=
  ∃ (a : ℕ) (c : RunningCall), s.calls[a]? = some c ∧ c.session = some i ∧ listPhase c.todo = p

/-- No tool call is in progress. -/
def Idle (s : BrokerState) : Prop := ∀ c ∈ s.calls, c.todo = []

instance (s : BrokerState) : Decidable s.Idle := inferInstanceAs (Decidable (∀ c ∈ s.calls, _))

/-- The two lists agree up to the sessions of calls that are between their two updates. -/
structure Listed (s : BrokerState) : Prop where
  guarded : s.Guarded
  tidy : ∀ c ∈ s.calls, c.Tidy
  open_lt : ∀ i ∈ s.open_dbs, i < s.spawned
  registering : ∀ i, s.InPhase .registering i → i ∉ s.sessions ∧ i ∉ s.open_dbs
  pushing : ∀ i, s.InPhase .pushing i → i ∈ s.sessions
  dropping : ∀ i, s.InPhase .dropping i → i ∉ s.sessions
  listed : ∀ i ∈ s.sessions, i ∈ s.open_dbs ∨ s.InPhase .pushing i
  opened : ∀ i ∈ s.open_dbs, i ∈ s.sessions ∨ s.InPhase .dropping i

namespace Listed

variable {s s' : BrokerState} {c c' : RunningCall} {k : ℕ} {pick : Option ℕ}

lemma new : BrokerState.new.Listed := by
  have hnone : ∀ p i, ¬ BrokerState.new.InPhase p i := by
    rintro p i ⟨a, c, hc, -⟩
    simp [BrokerState.new] at hc
  have hguarded : BrokerState.new.Guarded := Orderly.new.guarded
  refine ⟨hguarded, ?_, ?_, fun i hi => absurd hi (hnone _ _), fun i hi => absurd hi (hnone _ _),
    fun i hi => absurd hi (hnone _ _), ?_, ?_⟩ <;> simp [BrokerState.new]

/-- Between two calls the lists are the same. -/
lemma agree (h : s.Listed) (hidle : s.Idle) (i : ℕ) : i ∈ s.sessions ↔ i ∈ s.open_dbs := by
  have hnone : ∀ p, p ≠ .settled → ¬ s.InPhase p i := by
    rintro p hp ⟨a, c, hc, -, hphase⟩
    rw [hidle c (List.mem_of_getElem? hc)] at hphase
    exact hp hphase.symm
  constructor
  · intro hi
    exact (h.listed i hi).resolve_right (hnone _ (by decide))
  · intro hi
    exact (h.opened i hi).resolve_right (hnone _ (by decide))

/-- A call begins. -/
lemma start (h : s.Listed) (call : ToolCall) :
    Listed { s with calls := s.calls ++ [.new call] } := by
  have hphase : ∀ p i, InPhase { s with calls := s.calls ++ [.new call] } p i ↔ s.InPhase p i := by
    intro p i
    constructor
    · rintro ⟨a, c, hc, hi, hp⟩
      rcases getElem?_calls_append hc with hc | rfl
      · exact ⟨a, c, hc, hi, hp⟩
      · cases hi
    · rintro ⟨a, c, hc, hi, hp⟩
      refine ⟨a, c, ?_, hi, hp⟩
      obtain ⟨hlt, -⟩ := List.getElem?_eq_some_iff.mp hc
      rw [← hc]
      exact List.getElem?_append_left hlt
  refine ⟨h.guarded.start call, ?_, h.open_lt, ?_, ?_, ?_, ?_, ?_⟩
  · intro c hc
    rcases List.mem_append.mp hc with hc | hc
    · exact h.tidy c hc
    · rw [List.mem_singleton.mp hc]
      exact RunningCall.new_tidy call
  · exact fun i hi => h.registering i ((hphase _ i).mp hi)
  · exact fun i hi => h.pushing i ((hphase _ i).mp hi)
  · exact fun i hi => h.dropping i ((hphase _ i).mp hi)
  · exact fun i hi => (h.listed i hi).imp_right (hphase _ i).mpr
  · exact fun i hi => (h.opened i hi).imp_right (hphase _ i).mpr

/-- A call other than the `k`-th whose session is `i` is in a phase. -/
def Others (s : BrokerState) (k : ℕ) (p : ListPhase) (i : ℕ) : Prop :=
  ∃ (a : ℕ) (c : RunningCall), a ≠ k ∧ s.calls[a]? = some c ∧ c.session = some i ∧
    listPhase c.todo = p

lemma inPhase_iff (hk : s.calls[k]? = some c) (p : ListPhase) (i : ℕ) :
    s.InPhase p i ↔ (c.session = some i ∧ listPhase c.todo = p) ∨ Others s k p i := by
  constructor
  · rintro ⟨a, d, hd, hi, hp⟩
    by_cases hak : a = k
    · subst hak
      rw [hk] at hd
      cases hd
      exact .inl ⟨hi, hp⟩
    · exact .inr ⟨a, d, hak, hd, hi, hp⟩
  · rintro (⟨hi, hp⟩ | ⟨a, d, -, hd, hi, hp⟩)
    · exact ⟨k, c, hk, hi, hp⟩
    · exact ⟨a, d, hd, hi, hp⟩

lemma inPhase_set_iff (hk : s.calls[k]? = some c) (p : ListPhase) (i : ℕ) :
    InPhase { s' with calls := s.calls.set k c' } p i ↔
      (c'.session = some i ∧ listPhase c'.todo = p) ∨ Others s k p i := by
  obtain ⟨hlt, -⟩ := List.getElem?_eq_some_iff.mp hk
  constructor
  · rintro ⟨a, d, hd, hi, hp⟩
    rcases getElem?_calls_set hk hd with ⟨-, rfl⟩ | ⟨hak, hd⟩
    · exact .inl ⟨hi, hp⟩
    · exact .inr ⟨a, d, hak, hd, hi, hp⟩
  · rintro (⟨hi, hp⟩ | ⟨a, d, hak, hd, hi, hp⟩)
    · exact ⟨k, c', List.getElem?_set_self hlt, hi, hp⟩
    · refine ⟨a, d, ?_, hi, hp⟩
      rw [← hd]
      exact List.getElem?_set_ne (Ne.symm hak)

/-- A call that has spawned a session and has not yet listed it in both lists has the pool. -/
lemma owner (h : s.Listed) (hc : c ∈ s.calls) {i : ℕ} (hi : c.session = some i)
    (hphase : listPhase c.todo = .registering ∨ listPhase c.todo = .pushing) :
    c.guards.pool = true ∧ c.call.owns = true := by
  have hne : c.todo ≠ [] := by
    intro hnil
    rw [hnil] at hphase
    revert hphase
    decide
  have hfits := (h.tidy c hc).fits hne
  rcases hphase with hphase | hphase
  · rw [hphase] at hfits
    simpa [ListPhase.fits, hi] using hfits
  · rw [hphase] at hfits
    simpa [ListPhase.fits, hi] using hfits

/-- No other call has such a session. -/
lemma not_others (h : s.Listed) (hk : s.calls[k]? = some c) {i : ℕ} (hi : c.session = some i)
    (hphase : listPhase c.todo = .registering ∨ listPhase c.todo = .pushing) (p : ListPhase) :
    ¬ Others s k p i := by
  rintro ⟨a, d, hak, hd, hdi, -⟩
  obtain ⟨hpool, howns⟩ := h.owner (List.mem_of_getElem? hk) hi hphase
  exact h.guarded.fresh k a c d i hk hd (Ne.symm hak) howns hpool hi hdi

/-- Nor has a call the session that another one is listing, or the pool. -/
lemma of_others (h : s.Listed) (hk : s.calls[k]? = some c) {p : ListPhase} {i : ℕ}
    (hp : p = .registering ∨ p = .pushing) (ho : Others s k p i) :
    c.session ≠ some i ∧ c.guards.pool = false := by
  obtain ⟨a, d, hak, hd, hdi, hdp⟩ := ho
  rw [← hdp] at hp
  obtain ⟨hpool, howns⟩ := h.owner (List.mem_of_getElem? hd) hdi hp
  exact ⟨h.guarded.fresh a k d c i hd hk hak howns hpool hdi,
    h.guarded.exclusive a k d c hd hk hak hpool⟩

/-- A step that changes neither list, nor who is between its updates. -/
lemma of_same (h : s.Listed) (hguarded : s'.Guarded) (htidy : ∀ c ∈ s'.calls, c.Tidy)
    (hsessions : s'.sessions = s.sessions) (hopen : s'.open_dbs = s.open_dbs)
    (hspawned : s.spawned ≤ s'.spawned)
    (hreg : ∀ i, s'.InPhase .registering i → s.InPhase .registering i ∨ i = s.spawned)
    (hphase : ∀ p i, p = .pushing ∨ p = .dropping → (s'.InPhase p i ↔ s.InPhase p i)) :
    s'.Listed := by
  refine ⟨hguarded, htidy, ?_, ?_, ?_, ?_, ?_, ?_⟩
  · intro i hi
    rw [hopen] at hi
    exact (h.open_lt i hi).trans_le hspawned
  · intro i hi
    rw [hsessions, hopen]
    rcases hreg i hi with hi | rfl
    · exact h.registering i hi
    · exact ⟨fun hmem => lt_irrefl _ (h.guarded.sessions_lt _ hmem),
        fun hmem => lt_irrefl _ (h.open_lt _ hmem)⟩
  · intro i hi
    rw [hsessions]
    exact h.pushing i ((hphase _ i (.inl rfl)).mp hi)
  · intro i hi
    rw [hsessions]
    exact h.dropping i ((hphase _ i (.inr rfl)).mp hi)
  · intro i hi
    rw [hsessions] at hi
    rw [hopen]
    exact (h.listed i hi).imp_right (hphase _ i (.inl rfl)).mpr
  · intro i hi
    rw [hopen] at hi
    rw [hsessions]
    exact (h.opened i hi).imp_right (hphase _ i (.inr rfl)).mpr

/-- Who is in a phase before and behind a step of a call that keeps its session. -/
lemma inPhase_own_iff (s' : BrokerState) (hk : s.calls[k]? = some c) {i : ℕ}
    (hi : c.session = some i) (hsession : c'.session = some i) :
    (∀ p j, s.InPhase p j ↔ (i = j ∧ listPhase c.todo = p) ∨ Others s k p j) ∧
      ∀ p j, InPhase { s' with calls := s.calls.set k c' } p j ↔
        (i = j ∧ listPhase c'.todo = p) ∨ Others s k p j := by
  constructor
  · intro p j
    rw [inPhase_iff hk, hi, Option.some.injEq]
  · intro p j
    rw [inPhase_set_iff hk, hsession, Option.some.injEq]

/-- The session of a call is registered. -/
lemma registered (h : s.Listed) (hk : s.calls[k]? = some c) {i : ℕ} (hi : c.session = some i)
    (hsession : c'.session = some i) (hphase : listPhase c.todo = .registering)
    (hphase' : listPhase c'.todo = .pushing)
    (hguarded : Guarded { s with sessions := s.sessions ++ [i], calls := s.calls.set k c' })
    (htidy : ∀ d ∈ s.calls.set k c', d.Tidy) :
    Listed { s with sessions := s.sessions ++ [i], calls := s.calls.set k c' } := by
  obtain ⟨hold, hnew⟩ := inPhase_own_iff { s with sessions := s.sessions ++ [i] } hk hi hsession
  simp only [hphase, hphase'] at hold hnew
  refine ⟨hguarded, htidy, h.open_lt, fun j hj => ?_, fun j hj => ?_, fun j hj => ?_,
    fun j hj => ?_, fun j hj => ?_⟩
  · have ho : Others s k .registering j := ((hnew _ j).mp hj).resolve_left (by simp)
    obtain ⟨hsessions, hopen⟩ := h.registering j ((hold _ j).mpr (.inr ho))
    have hne : j ≠ i := by
      rintro rfl
      exact (h.of_others hk (.inl rfl) ho).1 hi
    exact ⟨by simp [hsessions, hne], hopen⟩
  · rcases (hnew _ j).mp hj with ⟨rfl, -⟩ | ho
    · simp
    · have hmem := h.pushing j ((hold _ j).mpr (.inr ho))
      simp [hmem]
  · have ho : Others s k .dropping j := ((hnew _ j).mp hj).resolve_left (by simp)
    have hsessions := h.dropping j ((hold _ j).mpr (.inr ho))
    have hne : j ≠ i := by
      rintro rfl
      exact h.not_others hk hi (.inl hphase) _ ho
    simp [hsessions, hne]
  · rw [hnew]
    rcases List.mem_append.mp hj with hj | hj
    · refine (h.listed j hj).imp_right fun hp => ?_
      rw [hold] at hp
      exact .inr (hp.resolve_left (by simp))
    · exact .inr (.inl ⟨(List.mem_singleton.mp hj).symm, rfl⟩)
  · rw [hnew]
    rcases h.opened j hj with hmem | hp
    · exact .inl (List.mem_append.mpr (.inl hmem))
    · rw [hold] at hp
      exact .inr (.inr (hp.resolve_left (by simp)))

/-- The session of a call is listed as open. -/
lemma pushed (h : s.Listed) (hk : s.calls[k]? = some c) {i : ℕ} (hi : c.session = some i)
    (hsession : c'.session = some i) (hphase : listPhase c.todo = .pushing)
    (hphase' : listPhase c'.todo = .settled)
    (hguarded : Guarded { s with open_dbs := s.open_dbs ++ [i], calls := s.calls.set k c' })
    (htidy : ∀ d ∈ s.calls.set k c', d.Tidy) :
    Listed { s with open_dbs := s.open_dbs ++ [i], calls := s.calls.set k c' } := by
  obtain ⟨hold, hnew⟩ := inPhase_own_iff { s with open_dbs := s.open_dbs ++ [i] } hk hi hsession
  simp only [hphase, hphase'] at hold hnew
  have hlisted : i ∈ s.sessions := h.pushing i ((hold _ i).mpr (.inl ⟨rfl, rfl⟩))
  refine ⟨hguarded, htidy, fun j hj => ?_, fun j hj => ?_, fun j hj => ?_, fun j hj => ?_,
    fun j hj => ?_, fun j hj => ?_⟩
  · rcases List.mem_append.mp hj with hj | hj
    · exact h.open_lt j hj
    · rw [List.mem_singleton.mp hj]
      exact h.guarded.sessions_lt i hlisted
  · have ho : Others s k .registering j := ((hnew _ j).mp hj).resolve_left (by simp)
    obtain ⟨hsessions, hopen⟩ := h.registering j ((hold _ j).mpr (.inr ho))
    have hne : j ≠ i := by
      rintro rfl
      exact hsessions hlisted
    exact ⟨hsessions, by simp [hopen, hne]⟩
  · have ho : Others s k .pushing j := ((hnew _ j).mp hj).resolve_left (by simp)
    exact h.pushing j ((hold _ j).mpr (.inr ho))
  · have ho : Others s k .dropping j := ((hnew _ j).mp hj).resolve_left (by simp)
    exact h.dropping j ((hold _ j).mpr (.inr ho))
  · rw [hnew]
    rcases h.listed j hj with hmem | hp
    · exact .inl (List.mem_append.mpr (.inl hmem))
    · rcases (hold _ j).mp hp with ⟨rfl, -⟩ | ho
      · exact .inl (by simp)
      · exact .inr (.inr ho)
  · rw [hnew]
    rcases List.mem_append.mp hj with hj | hj
    · refine (h.opened j hj).imp_right fun hp => ?_
      rw [hold] at hp
      exact .inr (hp.resolve_left (by simp))
    · rw [List.mem_singleton.mp hj]
      exact .inl hlisted

/-- The session of a call is taken out of the pool. -/
lemma unregistered (h : s.Listed) (hk : s.calls[k]? = some c) {i : ℕ} (hi : c.session = some i)
    (hsession : c'.session = some i) (hphase : listPhase c.todo = .closing)
    (hphase' : listPhase c'.todo = .dropping) (hpool : c.guards.pool = true)
    (hguarded : Guarded { s with
      sessions := s.sessions.filter (some · ≠ some i)
      calls := s.calls.set k c' })
    (htidy : ∀ d ∈ s.calls.set k c', d.Tidy) :
    Listed { s with
      sessions := s.sessions.filter (some · ≠ some i)
      calls := s.calls.set k c' } := by
  obtain ⟨hold, hnew⟩ :=
    inPhase_own_iff { s with sessions := s.sessions.filter (some · ≠ some i) } hk hi hsession
  simp only [hphase, hphase'] at hold hnew
  have hsub : ∀ j, j ∈ s.sessions.filter (some · ≠ some i) ↔ j ∈ s.sessions ∧ j ≠ i := by
    intro j
    simp
  refine ⟨hguarded, htidy, h.open_lt, fun j hj => ?_, fun j hj => ?_, fun j hj => ?_,
    fun j hj => ?_, fun j hj => ?_⟩
  · have ho : Others s k .registering j := ((hnew _ j).mp hj).resolve_left (by simp)
    obtain ⟨hsessions, hopen⟩ := h.registering j ((hold _ j).mpr (.inr ho))
    exact ⟨fun hmem => hsessions ((hsub j).mp hmem).1, hopen⟩
  · -- a call that is pushing has the pool, and so has this one
    have ho : Others s k .pushing j := ((hnew _ j).mp hj).resolve_left (by simp)
    rw [(h.of_others hk (.inr rfl) ho).2] at hpool
    cases hpool
  · intro hmem
    obtain ⟨hsessions, hne⟩ := (hsub j).mp hmem
    rcases (hnew _ j).mp hj with ⟨rfl, -⟩ | ho
    · exact hne rfl
    · exact h.dropping j ((hold _ j).mpr (.inr ho)) hsessions
  · rw [hnew]
    refine (h.listed j ((hsub j).mp hj).1).imp_right fun hp => ?_
    rw [hold] at hp
    exact .inr (hp.resolve_left (by simp))
  · rw [hnew]
    by_cases hji : j = i
    · exact .inr (.inl ⟨hji.symm, rfl⟩)
    · rcases h.opened j hj with hmem | hp
      · exact .inl ((hsub j).mpr ⟨hmem, hji⟩)
      · rw [hold] at hp
        exact .inr (.inr (hp.resolve_left (by simp)))

/-- The session of a call is no longer listed as open. -/
lemma dropped (h : s.Listed) (hk : s.calls[k]? = some c) {i : ℕ} (hi : c.session = some i)
    (hsession : c'.session = some i) (hphase : listPhase c.todo = .dropping)
    (hphase' : listPhase c'.todo = .settled)
    (hguarded : Guarded { s with
      open_dbs := s.open_dbs.filter (some · ≠ some i)
      calls := s.calls.set k c' })
    (htidy : ∀ d ∈ s.calls.set k c', d.Tidy) :
    Listed { s with
      open_dbs := s.open_dbs.filter (some · ≠ some i)
      calls := s.calls.set k c' } := by
  obtain ⟨hold, hnew⟩ :=
    inPhase_own_iff { s with open_dbs := s.open_dbs.filter (some · ≠ some i) } hk hi hsession
  simp only [hphase, hphase'] at hold hnew
  have hgone : i ∉ s.sessions := h.dropping i ((hold _ i).mpr (.inl ⟨rfl, rfl⟩))
  have hsub : ∀ j, j ∈ s.open_dbs.filter (some · ≠ some i) ↔ j ∈ s.open_dbs ∧ j ≠ i := by
    intro j
    simp
  refine ⟨hguarded, htidy, fun j hj => ?_, fun j hj => ?_, fun j hj => ?_, fun j hj => ?_,
    fun j hj => ?_, fun j hj => ?_⟩
  · exact h.open_lt j ((hsub j).mp hj).1
  · have ho : Others s k .registering j := ((hnew _ j).mp hj).resolve_left (by simp)
    obtain ⟨hsessions, hopen⟩ := h.registering j ((hold _ j).mpr (.inr ho))
    exact ⟨hsessions, fun hmem => hopen ((hsub j).mp hmem).1⟩
  · have ho : Others s k .pushing j := ((hnew _ j).mp hj).resolve_left (by simp)
    exact h.pushing j ((hold _ j).mpr (.inr ho))
  · have ho : Others s k .dropping j := ((hnew _ j).mp hj).resolve_left (by simp)
    exact h.dropping j ((hold _ j).mpr (.inr ho))
  · rw [hnew]
    rcases h.listed j hj with hmem | hp
    · refine .inl ((hsub j).mpr ⟨hmem, ?_⟩)
      rintro rfl
      exact hgone hj
    · rw [hold] at hp
      exact .inr (.inr (hp.resolve_left (by simp)))
  · rw [hnew]
    obtain ⟨hopen, hne⟩ := (hsub j).mp hj
    refine (h.opened j hopen).imp_right fun hp => ?_
    rcases (hold _ j).mp hp with ⟨rfl, -⟩ | ho
    · exact absurd rfl hne
    · exact .inr ho

/-- A call goes on. -/
lemma advance (h : s.Listed) (hk : s.calls[k]? = some c)
    (hexec : s.exec c pick = some (c', s')) : Listed { s' with calls := s.calls.set k c' } := by
  have hc : c ∈ s.calls := List.mem_of_getElem? hk
  obtain ⟨hchange, htidy'⟩ := exec_lists hexec (h.tidy c hc)
  have hguarded := h.guarded.advance hk hexec
  have htidy : ∀ d ∈ s.calls.set k c', d.Tidy := by
    intro d hd
    rcases List.mem_or_eq_of_mem_set hd with hd | rfl
    · exact h.tidy d hd
    · exact htidy'
  have hold : ∀ p i, s.InPhase p i ↔ (c.session = some i ∧ listPhase c.todo = p) ∨
      Others s k p i := fun p i => inPhase_iff hk p i
  have hnew : ∀ p i, InPhase { s' with calls := s.calls.set k c' } p i ↔
      (c'.session = some i ∧ listPhase c'.todo = p) ∨ Others s k p i :=
    fun p i => inPhase_set_iff hk p i
  cases hchange with
  | kept hs hsession hphase =>
    have hsame : ∀ p i, InPhase { s' with calls := s.calls.set k c' } p i ↔ s.InPhase p i := by
      intro p i
      rw [hnew, hold, hsession, hphase]
    subst hs
    exact h.of_same hguarded htidy rfl rfl le_rfl (fun i hi => .inl ((hsame _ i).mp hi))
      fun p i _ => hsame p i
  | ended hs hc' hpushing hdropping =>
    subst hs
    have hsettled : listPhase c'.todo = .settled := by rw [hc']; rfl
    refine h.of_same hguarded htidy rfl rfl le_rfl (fun i hi => ?_) fun p i hp => ?_
    · rw [hnew, hsettled] at hi
      exact .inl ((hold _ i).mpr (.inr (hi.resolve_left (by simp))))
    · rw [hnew, hold, hsettled]
      rcases hp with rfl | rfl <;> simp [hpushing, hdropping]
  | found i hs hi hsession hphase hphase' =>
    subst hs
    refine h.of_same hguarded htidy rfl rfl le_rfl (fun j hj => ?_) fun p j hp => ?_
    · rw [hnew, hphase'] at hj
      refine .inl ((hold _ j).mpr (.inr (hj.resolve_left ?_)))
      rcases hphase with hphase | hphase <;> simp [hphase]
    · rw [hnew, hold, hphase']
      rcases hphase with hphase | hphase <;> rcases hp with rfl | rfl <;> simp [hphase]
  | spawned hs hsession hphase hphase' =>
    subst hs
    refine h.of_same hguarded htidy rfl rfl (Nat.le_succ _) (fun j hj => ?_) fun p j hp => ?_
    · rw [hnew, hsession] at hj
      rcases hj with ⟨hj, -⟩ | hj
      · exact .inr (Option.some.inj hj).symm
      · exact .inl ((hold _ j).mpr (.inr hj))
    · rw [hnew, hold, hphase, hphase']
      rcases hp with rfl | rfl <;> simp
  | registered i hi hsession hphase hphase' hs =>
    subst hs
    exact h.registered hk hi hsession hphase hphase' hguarded htidy
  | pushed i hi hsession hphase hphase' hs =>
    subst hs
    exact h.pushed hk hi hsession hphase hphase' hguarded htidy
  | unregistered i hi hsession hphase hphase' hpool hs =>
    subst hs
    exact h.unregistered hk hi hsession hphase hphase' hpool hguarded htidy
  | dropped i hi hsession hphase hphase' hs =>
    subst hs
    exact h.dropped hk hi hsession hphase hphase' hguarded htidy

end Listed

end BrokerState

/-- Every step keeps the two lists together. -/
lemma BrokerStep.listed {s s' : BrokerState} {e : BrokerEvent} (hstep : BrokerStep s e s')
    (h : s.Listed) : s'.Listed := by
  cases e with
  | start call =>
    cases hstep
    exact h.start call
  | advance k pick =>
    obtain ⟨c, hk, hstep⟩ := Option.bind_eq_some_iff.mp hstep
    obtain ⟨⟨c', s₁⟩, hexec, rfl⟩ := Option.map_eq_some_iff.mp hstep
    exact h.advance hk hexec

/-- In every run the two lists agree whenever no tool call is in progress. -/
lemma lists_agree {tr : List (BrokerEvent × BrokerState)} (h : Run BrokerStep .new tr)
    {s : BrokerState} (hs : s ∈ statesOf .new tr) (hidle : s.Idle) (i : ℕ) :
    i ∈ s.sessions ↔ i ∈ s.open_dbs := by
  have hlisted := h.invariant (along_true _ _) BrokerState.Listed.new
    (fun _ _ _ hstep _ hl => hstep.listed hl) s hs
  exact hlisted.agree hidle i

/-! ## Closing the database of a dead worker -/

namespace Tools

/-- The worker of the session can no longer answer. -/
def Session.Dead (s : Session) : Prop :=
  s.session.health = .crashed ∨ s.session.health = .dead ∨ s.session.tx = false ∨ s.pumping = false

/-- The slot of a handle has been freed: it has left both lists, and nothing else has. -/
structure Freed (db : String) (b b' : Broker) : Prop where
  sessions : b'.sessions = b.sessions.filter fun e => e.1 ≠ db
  open_dbs : b'.open_dbs = b.open_dbs.filter fun e => e.1 ≠ db
  count : b'.sessions.length + 1 = b.sessions.length

/-- The arguments lead to the handle. -/
def Names (args : Json) (b : Broker) (db : String) : Prop :=
  arg_str args "db" = some db ∨ (arg_str args "db" = none ∧ ∃ path, b.open_dbs = [(db, path)])

lemma Broker.setSession_self {b : Broker} {db : String} {s : Session} (h : b.session db = some s) :
    b.setSession db s = b := by
  obtain ⟨e, he, rfl⟩ := Option.map_eq_some_iff.mp h
  have hdb : e.1 = db := by simpa using List.find?_some he
  have hget : b.sessions[b.sessions.findIdx fun e => e.1 = db]? = some (db, e.2) := by
    rw [← List.find?_eq_getElem?_findIdx, he, ← hdb]
  obtain ⟨hlt, hget⟩ := List.getElem?_eq_some_iff.mp hget
  have hset : b.sessions.set (b.sessions.findIdx fun e => e.1 = db) (db, e.2) = b.sessions := by
    rw [← hget, List.set_getElem_self]
  rw [setSession, hset]

lemma resolve_db_names {args : Json} {b : Broker} {db : String} {s : Session}
    (h : b.session db = some s) (hargs : Names args b db) :
    resolve_db (arg_str args "db") b = .ok db b := by
  rw [resolve_db, Action.get_bind]
  rcases hargs with hargs | ⟨hargs, path, hpath⟩
  · simp only [hargs, h, Option.isSome_some, if_true]
    rfl
  · simp only [hargs, hpath, h, Option.isSome_some, if_true]
    rfl

variable [Host]

/-- The worker of a dead session is not asked. -/
lemma Session.call_dead {s : Session} (h : s.Dead) (env : Env) (method : String) (params : Json) :
    ∃ message, s.call env method params = (fail message, s) := by
  rw [Session.call]
  split
  · exact ⟨_, rfl⟩
  · rename_i htx
    have hhealthy : s.session.health = .healthy := by
      by_contra hne
      exact htx (s.senderless hne)
    rcases h with h | h | h | h
    · rw [hhealthy] at h
      cases h
    · rw [hhealthy] at h
      cases h
    · exact absurd h htx
    · rw [if_pos h]
      exact ⟨_, rfl⟩

lemma call_dead {b : Broker} {db : String} {s : Session} (hs : b.session db = some s)
    (hdead : s.Dead) (env : Env) (method : String) (params : List (String × Json)) :
    ∃ e, call env db method params b = .err e b := by
  obtain ⟨message, hcall⟩ := Session.call_dead hdead env method (.object params)
  refine ⟨err_from (.worker message), ?_⟩
  simp only [call, hs, hcall, fail, Broker.setSession_self hs]

/-- Closing a database whose worker is dead fails and changes nothing. -/
lemma tool_db_close_dead {b : Broker} {db : String} {s : Session} (hs : b.session db = some s)
    (hdead : s.Dead) (env : Env) (args : Json) (hargs : Names args b db) :
    ∃ e, tool_db_close env args b = .err e b := by
  obtain ⟨e, he⟩ := call_dead hs hdead env "db.save" []
  refine ⟨e, ?_⟩
  simp [tool_db_close, Action.bind_apply, resolve_db_names hs hargs, he]

omit [Host] in
/-- A handle with a session has not been freed when nothing has changed. -/
lemma not_freed (db : String) (b : Broker) : ¬ Freed db b b := by
  intro h
  have hcount := h.count
  omega

/-- Closing a database whose worker is dead never frees its slot: the handler returns an error and
changes nothing.  The two lists agree whenever no tool call is in progress. -/
theorem dead_db_keeps_slot :
    (∀ (env : Env) (args : Json) (b : Broker) (db : String) (s : Session), b.session db = some s →
      s.Dead → Names args b db → ∃ e, tool_db_close env args b = .err e b ∧ ¬ Freed db b b) ∧
    ∀ tr, Run BrokerStep .new tr → ∀ s ∈ statesOf .new tr, s.Idle →
      ∀ i, i ∈ s.sessions ↔ i ∈ s.open_dbs := by
  refine ⟨fun env args b db s hs hdead hargs => ?_, fun tr h s hs hidle => lists_agree h hs hidle⟩
  obtain ⟨e, he⟩ := tool_db_close_dead hs hdead env args hargs
  exact ⟨e, he, not_freed db b⟩

omit [Host]

/-- A session whose worker has crashed. -/
def crashedSession : Session where
  session := ⟨false, ⟨"a.i64", "mock", ""⟩, .crashed, 0⟩
  pumping := false
  worker := .new
  senderless := fun _ => rfl

/-- A broker with room for one worker, which has crashed. -/
def fullBroker : Broker := ⟨[("db-1", crashedSession)], [("db-1", "a.i64")], .new 3600, 20000⟩

/-- The database of the crashed worker stays; one that is opened and closed is gone from both
lists. -/
theorem dead_db_keeps_slot_full :
    letI : Host := Host.ascii true
    let events := .start .openDb :: advances 0 13 ++ .start .openDb :: advances 1 13 ++
      .start .close :: advances 2 15
    let tr := follow BrokerState.act .new events
    (∃ e, tool_db_close .bare (.object [("action", "close"), ("db", "db-1")]) fullBroker =
      .err e fullBroker ∧ ¬ Freed "db-1" fullBroker fullBroker) ∧
    (lastOf .new tr).sessions = [1] ∧ (lastOf .new tr).open_dbs = [1] ∧
    (0 ∈ (lastOf .new tr).sessions ↔ 0 ∈ (lastOf .new tr).open_dbs) := by
  intro events tr
  let _ : Host := Host.ascii true
  refine ⟨?_, by decide +kernel, by decide +kernel, ?_⟩
  · exact dead_db_keeps_slot.1 .bare _ fullBroker "db-1" crashedSession rfl (.inl rfl) (.inl rfl)
  · exact dead_db_keeps_slot.2 tr (follow_run BrokerState.act .new events) _
      (List.mem_of_getElem? (i := 44) (by rfl)) (by decide +kernel) 0

/-- The user who is told to close the database cannot. -/
theorem dead_db_freed_not :
    letI : Host := Host.ascii true
    ¬ ∀ (env : Env) (args : Json) (b : Broker) (db : String) (s : Session), b.session db = some s →
      s.Dead → Names args b db → ∃ b', (tool_db_close env args b).Leaves b' ∧ Freed db b b' := by
  intro h
  let _ : Host := Host.ascii true
  let args : Json := .object [("action", "close"), ("db", "db-1")]
  have hsession : fullBroker.session "db-1" = some crashedSession := rfl
  obtain ⟨b', hleaves, hfreed⟩ := h .bare args fullBroker "db-1" crashedSession hsession (.inl rfl)
    (.inl rfl)
  obtain ⟨e, he⟩ := tool_db_close_dead hsession (.inl rfl) .bare args (.inl rfl)
  rw [he] at hleaves
  obtain rfl : fullBroker = b' := hleaves
  exact not_freed "db-1" fullBroker hfreed

end Tools

end ReverseMcp
