import ReverseMcp.Rust.Run
import ReverseMcp.Broker.Pump

/-!
# Routing of responses

`WorkerSession::call_with_timeout` and `worker_pool::pump_task` with frames as units, for any
number of sessions and callers: a call draws an id from the counter of the process, sends its
request with the sender of a oneshot channel, and waits for an answer, an error or its timeout.
The pump keeps the senders by id.

A call is known by its number, the count of the ids drawn before it.  `responses_routed`: while no
id is drawn a second time, a call completes once, and with the worker's answer to its own request
or with an error; the calls that the end of a pump finds are not left waiting.
-/

namespace ReverseMcp

open Rust Protocol

/-- Where a call is. -/
inductive CallState where
  /-- The request has its id and waits for room in the channel. -/
  | sending
  /-- The request is sent, and the call waits for its reply channel. -/
  | waiting
  /-- The call has returned with a response. -/
  | answered (r : Protocol.WorkerResponse)
  /-- The call has returned with an error of the broker. -/
  | failed (e : Error)
deriving DecidableEq

/-- A call that has drawn its id. -/
structure Call where
  session : ℕ
  id : U64
  state : CallState
deriving DecidableEq

/-- A request with the sender of its call. -/
structure Ticket where
  id : U64
  call : ℕ
deriving DecidableEq

/-- A session: its channel, its pump and the worker behind it. -/
structure RoutedSession where
  /-- The session has its sender. -/
  tx : Bool
  queue : List Ticket
  pending : List Ticket
  pumping : Bool
  /-- The requests that the worker has to answer. -/
  inbox : List Ticket
  /-- The responses on their way, with the calls the worker wrote them for. -/
  outbox : List (ℕ × Protocol.WorkerResponse)
  exited : Bool
deriving DecidableEq

/-- All sessions and calls of the process. -/
structure Router where
  sessions : List RoutedSession
  calls : List Call
  /-- The counter of `next_call_id`. -/
  next : U64
  /-- What the workers have answered. -/
  answers : List (ℕ × Protocol.WorkerResponse)
deriving DecidableEq

/-- What can happen to the calls. -/
inductive RouterEvent where
  | spawn
  /-- A call on session `i` draws its id. -/
  | call (i : ℕ)
  /-- The request of call `c` goes into the channel, or finds it closed. -/
  | enqueue (c : ℕ)
  | timeout (c : ℕ) (secs : ℕ)
  /-- The pump takes a request, whether or not it can be written. -/
  | receive (i : ℕ) (written : Bool)
  /-- The worker answers one of its requests. -/
  | answer (i k : ℕ) (body : Except Error Json)
  /-- The pump reads a response. -/
  | respond (i : ℕ)
  /-- The worker exits. -/
  | exit (i : ℕ)
  /-- The pump reads the end of the worker's stdout. -/
  | eof (i : ℕ)
  /-- The session gives up its sender. -/
  | close (i : ℕ)
  /-- The pump finds the channel closed. -/
  | hangup (i : ℕ)
deriving DecidableEq

namespace Call

/-- An error goes into the reply channel, or the channel closes: a waiting call returns. -/
def failWith (e : Error) (k : Call) : Call :=
  if k.state = .waiting then { k with state := .failed e } else k

/-- A response goes into the reply channel; a call that has timed out does not see it. -/
def answerWith (r : Protocol.WorkerResponse) (k : Call) : Call :=
  if k.state = .waiting then { k with state := .answered r } else k

end Call

/-- The reply channel was dropped. -/
def droppedResponse : Error := .worker "worker dropped response (crashed?)"

/-- The calls with the given senders get an error. -/
def settle (e : Error) (tickets : List Ticket) (calls : List Call) : List Call :=
  calls.mapIdx fun c k => if c ∈ tickets.map Ticket.call then k.failWith e else k

namespace Router

/-- No session yet. -/
def new : Router := ⟨[], [], 1, []⟩

/-- The pump of session `i` ends: the pending senders get the error, and those still in the
channel are dropped. -/
def endPump (s : Router) (i : ℕ) (w : RoutedSession) (e : Error) : Router :=
  { s with
    sessions := s.sessions.set i { w with queue := [], pending := [], pumping := false }
    calls := settle droppedResponse w.queue (settle e w.pending s.calls) }

/-- `call_with_timeout` up to the id; without a sender the call fails before it. -/
def call (s : Router) (i : ℕ) (w : RoutedSession) : Option Router :=
  if w.tx then
    some { s with calls := s.calls ++ [⟨i, s.next, .sending⟩], next := s.next + 1 }
  else none

/-- `tx.send(..)`. -/
def enqueue (s : Router) (c : ℕ) (k : Call) : Option Router :=
  if k.state = .sending then
    s.sessions[k.session]?.bind fun w =>
      if w.pumping = false then
        let closed := .failed (.worker "worker request channel closed")
        some { s with calls := s.calls.set c { k with state := closed } }
      else if w.queue.length < 64 then
        some { s with
          sessions := s.sessions.set k.session { w with queue := w.queue ++ [⟨k.id, c⟩] }
          calls := s.calls.set c { k with state := .waiting } }
      else none
  else none

/-- The text of a timeout. -/
def timeoutText (secs : ℕ) : String :=
  s!"worker timed out after {secs}s (budget: the agent may pass timeout_ms, 5000..1800000)"

/-- `pump_task`: a request is inserted and written; `insert` drops a sender under the same id. -/
def receive (s : Router) (i : ℕ) (w : RoutedSession) (written : Bool) : Option Router :=
  match w.queue with
  | [] => none
  | t :: rest =>
    let s' := { s with
      calls := settle droppedResponse (w.pending.filter fun p => p.id = t.id) s.calls }
    let w' := { w with queue := rest, pending := t :: w.pending.filter fun p => p.id ≠ t.id }
    if written then
      some { s' with sessions := s.sessions.set i { w' with inbox := w.inbox ++ [t] } }
    else some (s'.endPump i w' (.worker "worker stdin write failed"))

/-- The worker answers a request with the id of that request. -/
def answer (s : Router) (i : ℕ) (w : RoutedSession) (k : ℕ) (body : Except Error Json) :
    Option Router :=
  w.inbox[k]?.map fun t =>
    let r : Protocol.WorkerResponse :=
      match body with
      | .ok v => .ok t.id v
      | .error e => .err t.id e
    { s with
      sessions := s.sessions.set i
        { w with inbox := w.inbox.eraseIdx k, outbox := w.outbox ++ [(t.call, r)] }
      answers := s.answers ++ [(t.call, r)] }

/-- `pump_task`: a response goes to the sender under its id. -/
def respond (s : Router) (i : ℕ) (w : RoutedSession) : Option Router :=
  match w.outbox with
  | [] => none
  | p :: rest =>
    match w.pending.find? fun t => t.id = p.2.id with
    | none => some { s with sessions := s.sessions.set i { w with outbox := rest } }
    | some t => some { s with
        sessions := s.sessions.set i
          { w with outbox := rest, pending := w.pending.filter fun t => t.id ≠ p.2.id }
        calls := s.calls.modify t.call (Call.answerWith p.2) }

/-- One step; `none` when it cannot happen. -/
def act (s : Router) : RouterEvent → Option Router
  | .spawn => some { s with sessions := s.sessions ++ [⟨true, [], [], true, [], [], false⟩] }
  | .call i => s.sessions[i]?.bind (s.call i)
  | .enqueue c => s.calls[c]?.bind (s.enqueue c)
  | .timeout c secs =>
    s.calls[c]?.bind fun k =>
      if k.state = .waiting then
        some { s with calls := s.calls.set c (k.failWith (.worker (timeoutText secs))) }
      else none
  | .receive i written =>
    s.sessions[i]?.bind fun w => if w.pumping then s.receive i w written else none
  | .answer i k body =>
    s.sessions[i]?.bind fun w => if w.exited then none else s.answer i w k body
  | .respond i => s.sessions[i]?.bind fun w => if w.pumping then s.respond i w else none
  | .exit i => s.sessions[i]?.map fun w =>
      { s with sessions := s.sessions.set i { w with exited := true } }
  | .eof i => s.sessions[i]?.bind fun w =>
      if w.pumping ∧ w.exited ∧ w.outbox = [] then
        some (s.endPump i w (.worker "worker exited unexpectedly"))
      else none
  | .close i => s.sessions[i]?.map fun w =>
      { s with sessions := s.sessions.set i { w with tx := false } }
  | .hangup i => s.sessions[i]?.bind fun w =>
      -- a call that is sending holds the sender
      if w.pumping ∧ w.tx = false ∧ w.queue = [] ∧
          ∀ k ∈ s.calls, k.session = i → k.state ≠ .sending then
        some (s.endPump i w droppedResponse)
      else none

end Router

/-- The steps of the calls. -/
def RouterStep (s : Router) (e : RouterEvent) (s' : Router) : Prop := s.act e = some s'

/-- The entries of a list one of whose entries was replaced. -/
lemma getElem?_set_eq_some {α : Type} {l : List α} {i j : ℕ} {a v : α}
    (h : (l.set i a)[j]? = some v) : (j = i ∧ v = a) ∨ (j ≠ i ∧ l[j]? = some v) := by
  by_cases hj : i = j
  · subst hj
    rw [List.getElem?_set_self'] at h
    obtain ⟨_, -, rfl⟩ := Option.map_eq_some_iff.mp h
    exact Or.inl ⟨rfl, rfl⟩
  · rw [List.getElem?_set_ne hj] at h
    exact Or.inr ⟨Ne.symm hj, h⟩

/-! ## Calls -/

namespace Call

/-- The call has returned. -/
def Done (k : Call) : Prop := k.state ≠ .sending ∧ k.state ≠ .waiting

/-- The session and the id of a call, which it keeps. -/
def origin (k : Call) : ℕ × U64 := (k.session, k.id)

@[simp] lemma failWith_origin (e : Error) (k : Call) : (k.failWith e).origin = k.origin := by
  rw [failWith]
  split <;> rfl

@[simp] lemma answerWith_origin (r : Protocol.WorkerResponse) (k : Call) :
    (k.answerWith r).origin = k.origin := by
  rw [answerWith]
  split <;> rfl

lemma Done.failWith {k : Call} (h : k.Done) (e : Error) : k.failWith e = k := if_neg h.2

lemma Done.answerWith {k : Call} (h : k.Done) (r : Protocol.WorkerResponse) :
    k.answerWith r = k := if_neg h.2

/-- A call that is waiting did not get an error. -/
lemma failWith_waiting {k : Call} {e : Error} : (k.failWith e).state ≠ .waiting := by
  rw [Call.failWith]
  split
  · simp
  · assumption

lemma answerWith_waiting {k : Call} {r : Protocol.WorkerResponse} :
    (k.answerWith r).state ≠ .waiting := by
  rw [Call.answerWith]
  split
  · simp
  · assumption

/-- An error is not an answer. -/
lemma failWith_answered {k : Call} {e : Error} {r : Protocol.WorkerResponse}
    (h : (k.failWith e).state = .answered r) : k.state = .answered r := by
  rw [Call.failWith] at h
  split at h
  · simp at h
  · exact h

lemma answerWith_answered {k : Call} {r r' : Protocol.WorkerResponse}
    (h : (k.answerWith r).state = .answered r') :
    k.state = .answered r' ∨ (k.state = .waiting ∧ r' = r) := by
  rw [Call.answerWith] at h
  split at h
  · rename_i hwaiting
    exact Or.inr ⟨hwaiting, by simpa using h.symm⟩
  · exact Or.inl h

end Call

lemma getElem?_settle (e : Error) (ts : List Ticket) (calls : List Call) (c : ℕ) :
    (settle e ts calls)[c]? =
      calls[c]?.map fun k => if c ∈ ts.map Ticket.call then k.failWith e else k := by
  rw [settle, List.getElem?_mapIdx]

lemma settle_origin (e : Error) (ts : List Ticket) (calls : List Call) :
    (settle e ts calls).map Call.origin = calls.map Call.origin := by
  apply List.ext_getElem?
  intro c
  rw [List.getElem?_map, List.getElem?_map, getElem?_settle, Option.map_map]
  congr 1
  funext k
  show Call.origin (if _ then _ else _) = _
  split <;> simp

lemma modify_origin (r : Protocol.WorkerResponse) (calls : List Call) (c : ℕ) :
    (calls.modify c (Call.answerWith r)).map Call.origin = calls.map Call.origin := by
  apply List.ext_getElem?
  intro c'
  rw [List.getElem?_map, List.getElem?_map, List.getElem?_modify, Option.map_eq_map,
    Option.map_map]
  congr 1
  funext k
  show Call.origin (if _ then _ else _) = _
  split <;> simp

/-- What has returned before stays as it is, and nothing gets an answer. -/
structure Quiet (calls calls' : List Call) : Prop where
  done : ∀ (c : ℕ) (k : Call), calls[c]? = some k → k.Done → calls'[c]? = some k
  answered : ∀ (c : ℕ) (k' : Call) (r : Protocol.WorkerResponse), calls'[c]? = some k' →
     k'.state = .answered r → calls[c]? = some k'

lemma Quiet.refl (calls : List Call) : Quiet calls calls := ⟨fun _ _ h _ => h, fun _ _ _ h _ => h⟩

lemma Quiet.trans {calls calls' calls'' : List Call} (h : Quiet calls calls')
    (h' : Quiet calls' calls'') : Quiet calls calls'' :=
  ⟨fun c k hk hd => h'.done c k (h.done c k hk hd) hd,
    fun c k r hk hr => h.answered c k r (h'.answered c k r hk hr) hr⟩

lemma quiet_settle (e : Error) (ts : List Ticket) (calls : List Call) :
    Quiet calls (settle e ts calls) where
  done c k hk hd := by
    rw [getElem?_settle, hk, Option.map_some, hd.failWith, ite_self]
  answered c k' r hk' hr := by
    rw [getElem?_settle] at hk'
    obtain ⟨k, hk, rfl⟩ := Option.map_eq_some_iff.mp hk'
    by_cases hc : c ∈ ts.map Ticket.call
    · rw [if_pos hc] at hr ⊢
      have hanswered := Call.failWith_answered hr
      rw [hk, Call.Done.failWith ⟨by simp [hanswered], by simp [hanswered]⟩]
    · rw [if_neg hc]
      exact hk

/-- A call that waits after some senders were settled waited before, and its sender is not one of
them. -/
lemma settle_waiting {e : Error} {ts : List Ticket} {calls : List Call} {c : ℕ} {k : Call}
    (hk : (settle e ts calls)[c]? = some k) (hw : k.state = .waiting) :
    calls[c]? = some k ∧ c ∉ ts.map Ticket.call := by
  rw [getElem?_settle] at hk
  obtain ⟨k₀, hk₀, rfl⟩ := Option.map_eq_some_iff.mp hk
  by_cases hc : c ∈ ts.map Ticket.call
  · rw [if_pos hc] at hw
    exact absurd hw Call.failWith_waiting
  · rw [if_neg hc]
    exact ⟨hk₀, hc⟩

/-! ## The invariant -/

namespace Router

/-- The id of the call with the given number. -/
def idOf (c : ℕ) : U64 := Fin.ofNat (2 ^ 64) (c + 1)

lemma idOf_inj {c c' : ℕ} (hc : c < 2 ^ 64) (hc' : c' < 2 ^ 64) (h : idOf c = idOf c') :
    c = c' := by
  have hval := congrArg Fin.val h
  simp only [idOf, Fin.ofNat] at hval
  omega

/-- The ids tie the senders, the requests and the responses of a session to their calls. -/
structure Routes (s : Router) : Prop where
  few : s.calls.length ≤ 2 ^ 64
  next : s.next = idOf s.calls.length
  ids : ∀ c p, (s.calls.map Call.origin)[c]? = some p → p.2 = idOf c
  tickets : ∀ (i : ℕ) (w : RoutedSession), s.sessions[i]? = some w →
    ∀ t ∈ w.queue ++ (w.pending ++ w.inbox), (s.calls.map Call.origin)[t.call]? = some (i, t.id)
  outbox : ∀ (i : ℕ) (w : RoutedSession), s.sessions[i]? = some w →
    ∀ p ∈ w.outbox, p ∈ s.answers ∧ (s.calls.map Call.origin)[p.1]? = some (i, p.2.id)
  answered : ∀ (c : ℕ) (k : Call) (r : Protocol.WorkerResponse), s.calls[c]? = some k →
    k.state = .answered r → (c, r) ∈ s.answers
  waiting : ∀ (c : ℕ) (k : Call), s.calls[c]? = some k → k.state = .waiting →
    ∃ w, s.sessions[k.session]? = some w ∧ c ∈ (w.queue ++ w.pending).map Ticket.call
  ended : ∀ (i : ℕ) (w : RoutedSession), s.sessions[i]? = some w → w.pumping = false →
    w.queue = [] ∧ w.pending = []

lemma routes_new : Routes new where
  few := Nat.zero_le _
  next := rfl
  ids c p h := by simp [new] at h
  tickets i w h := by simp [new] at h
  outbox i w h := by simp [new] at h
  answered c k r h := by simp [new] at h
  waiting c k h := by simp [new] at h
  ended i w h := by simp [new] at h

variable {s s' : Router}

/-- Two numbers under one id are one call. -/
lemma Routes.eq_of_id (h : s.Routes) {c c' : ℕ} {p p' : ℕ × U64}
    (hp : (s.calls.map Call.origin)[c]? = some p) (hp' : (s.calls.map Call.origin)[c']? = some p')
    (heq : p.2 = p'.2) : c = c' := by
  have hlt : ∀ (c : ℕ) (p : ℕ × U64), (s.calls.map Call.origin)[c]? = some p → c < 2 ^ 64 := by
    intro c p hp
    have hc := (List.getElem?_eq_some_iff.mp hp).1
    rw [List.length_map] at hc
    exact Nat.lt_of_lt_of_le hc h.few
  refine idOf_inj (hlt c p hp) (hlt c' p' hp') ?_
  rw [← h.ids c p hp, ← h.ids c' p' hp', heq]

/-- One session and the calls change; no ticket appears that was not there. -/
lemma Routes.update (h : s.Routes) {i : ℕ} {w w' : RoutedSession} {calls : List Call}
    (answers : List (ℕ × Protocol.WorkerResponse)) (hw : s.sessions[i]? = some w)
    (horigin : calls.map Call.origin = s.calls.map Call.origin)
    (htickets : ∀ t ∈ w'.queue ++ (w'.pending ++ w'.inbox), t ∈ w.queue ++ (w.pending ++ w.inbox))
    (hanswers : s.answers ⊆ answers)
    (houtbox : ∀ p ∈ w'.outbox, p ∈ w.outbox ∨
      (p ∈ answers ∧ (s.calls.map Call.origin)[p.1]? = some (i, p.2.id)))
    (hanswered : ∀ (c : ℕ) (k : Call) (r : Protocol.WorkerResponse), calls[c]? = some k →
      k.state = .answered r → (c, r) ∈ answers)
    (hwaiting : ∀ (c : ℕ) (k : Call), calls[c]? = some k → k.state = .waiting →
      s.calls[c]? = some k ∧ (c ∈ (w.queue ++ w.pending).map Ticket.call → k.session = i →
        c ∈ (w'.queue ++ w'.pending).map Ticket.call))
    (hended : w'.pumping = false → w'.queue = [] ∧ w'.pending = []) :
    Routes { s with sessions := s.sessions.set i w', calls, answers } := by
  have hlen : calls.length = s.calls.length := by
    have := congrArg List.length horigin
    simpa using this
  have hi : i < s.sessions.length := (List.getElem?_eq_some_iff.mp hw).1
  constructor
  · exact hlen ▸ h.few
  · show s.next = idOf calls.length
    rw [hlen]
    exact h.next
  · show ∀ c p, (calls.map Call.origin)[c]? = some p → _
    rw [horigin]
    exact h.ids
  · intro j v hv
    show ∀ t ∈ v.queue ++ (v.pending ++ v.inbox), (calls.map Call.origin)[t.call]? = some (j, t.id)
    rw [horigin]
    rcases getElem?_set_eq_some hv with ⟨rfl, rfl⟩ | ⟨-, hv⟩
    · exact fun t ht => h.tickets j w hw t (htickets t ht)
    · exact h.tickets j v hv
  · intro j v hv
    show ∀ p ∈ v.outbox, p ∈ answers ∧ (calls.map Call.origin)[p.1]? = _
    rw [horigin]
    rcases getElem?_set_eq_some hv with ⟨rfl, rfl⟩ | ⟨-, hv⟩
    · intro p hp
      rcases houtbox p hp with hp | hp
      · exact ⟨hanswers (h.outbox j w hw p hp).1, (h.outbox j w hw p hp).2⟩
      · exact hp
    · exact fun p hp => ⟨hanswers (h.outbox j v hv p hp).1, (h.outbox j v hv p hp).2⟩
  · exact hanswered
  · intro c k hk hwait
    obtain ⟨hk₀, hmove⟩ := hwaiting c k hk hwait
    obtain ⟨v, hv, hmem⟩ := h.waiting c k hk₀ hwait
    -- a call that waits at this session stays in its lists; one of another session is not touched
    by_cases hses : k.session = i
    · rw [hses, hw] at hv
      cases hv
      exact ⟨w', by rw [hses]; exact List.getElem?_set_self hi, hmove hmem hses⟩
    · exact ⟨v, by rw [List.getElem?_set_ne (Ne.symm hses)]; exact hv, hmem⟩
  · intro j v hv hpump
    rcases getElem?_set_eq_some hv with ⟨rfl, rfl⟩ | ⟨-, hv⟩
    · exact hended hpump
    · exact h.ended j v hv hpump

/-- Only calls change. -/
lemma Routes.of_calls (h : s.Routes) {calls : List Call}
    (horigin : calls.map Call.origin = s.calls.map Call.origin)
    (hanswered : ∀ (c : ℕ) (k : Call) (r : Protocol.WorkerResponse), calls[c]? = some k →
      k.state = .answered r → s.calls[c]? = some k)
    (hwaiting : ∀ (c : ℕ) (k : Call), calls[c]? = some k → k.state = .waiting →
      s.calls[c]? = some k) : Routes { s with calls } := by
  have hlen : calls.length = s.calls.length := by
    have hmap := congrArg List.length horigin
    simpa using hmap
  constructor
  · exact hlen ▸ h.few
  · show s.next = idOf calls.length
    rw [hlen]
    exact h.next
  · show ∀ c p, (calls.map Call.origin)[c]? = some p → p.2 = idOf c
    rw [horigin]
    exact h.ids
  · intro i w hw
    show ∀ t ∈ w.queue ++ (w.pending ++ w.inbox), (calls.map Call.origin)[t.call]? = some (i, t.id)
    rw [horigin]
    exact h.tickets i w hw
  · intro i w hw
    show ∀ p ∈ w.outbox, p ∈ s.answers ∧ (calls.map Call.origin)[p.1]? = some (i, p.2.id)
    rw [horigin]
    exact h.outbox i w hw
  · exact fun c k r hk hr => h.answered c k r (hanswered c k r hk hr) hr
  · exact fun c k hk hw => h.waiting c k (hwaiting c k hk hw) hw
  · exact h.ended

/-! ## Steps -/

/-- What a step does to the calls: those that have returned stay as they are, and a call gets an
answer only from a response that the worker wrote for its own request, while it waits. -/
structure Routed (s : Router) (e : RouterEvent) (s' : Router) : Prop where
  done : ∀ (c : ℕ) (k : Call), s.calls[c]? = some k → k.Done → s'.calls[c]? = some k
  answered : ∀ (c : ℕ) (k : Call) (r : Protocol.WorkerResponse), s'.calls[c]? = some k →
    k.state = .answered r → s.calls[c]? = some k ∨
      ∃ i w rest k₀, e = .respond i ∧ s.sessions[i]? = some w ∧ w.outbox = (c, r) :: rest ∧
        s.calls[c]? = some k₀ ∧ k₀.state = .waiting

lemma Routed.of_quiet {e : RouterEvent} (h : Quiet s.calls s'.calls) : Routed s e s' :=
  ⟨h.done, fun c k r hk hr => Or.inl (h.answered c k r hk hr)⟩

/-- A call is set to a state that is no answer. -/
lemma quiet_set {calls : List Call} {c : ℕ} {k k' : Call} (hk : calls[c]? = some k)
    (hdone : ¬ k.Done) (hstate : ∀ r, k'.state ≠ .answered r) : Quiet calls (calls.set c k') where
  done c₀ k₀ hk₀ hd := by
    have hne : c ≠ c₀ := by
      rintro rfl
      rw [hk] at hk₀
      exact hdone (Option.some.inj hk₀ ▸ hd)
    rw [List.getElem?_set_ne hne]
    exact hk₀
  answered c₀ k₀ r hk₀ hr := by
    rcases getElem?_set_eq_some hk₀ with ⟨rfl, rfl⟩ | ⟨-, hk₀⟩
    · exact absurd hr (hstate r)
    · exact hk₀

/-- The end of a pump. -/
lemma Routes.endPump (h : s.Routes) {i : ℕ} {w : RoutedSession} (hw : s.sessions[i]? = some w)
    (e : Error) : Routes (s.endPump i w e) ∧ Quiet s.calls (s.endPump i w e).calls := by
  have hquiet : Quiet s.calls (settle droppedResponse w.queue (settle e w.pending s.calls)) :=
    (quiet_settle e w.pending s.calls).trans (quiet_settle _ _ _)
  refine ⟨h.update s.answers hw ?_ ?_ (List.Subset.refl _) (fun p hp => Or.inl hp) ?_ ?_
    fun _ => ⟨rfl, rfl⟩, hquiet⟩
  · rw [settle_origin, settle_origin]
  · intro t ht
    simp only [List.nil_append] at ht
    simp [ht]
  · exact fun c k r hk hr => h.answered c k r (hquiet.answered c k r hk hr) hr
  · intro c k hk hwait
    -- what was queued or pending has been settled, so a call that still waits is in neither
    obtain ⟨hk, hqueue⟩ := settle_waiting hk hwait
    obtain ⟨hk, hpending⟩ := settle_waiting hk hwait
    refine ⟨hk, fun hmem _ => ?_⟩
    rw [List.map_append, List.mem_append] at hmem
    exact absurd hmem (not_or.mpr ⟨hqueue, hpending⟩)

lemma Routes.spawn (h : s.Routes) (w : RoutedSession) (hqueue : w.queue = [])
    (hpending : w.pending = []) (hinbox : w.inbox = []) (houtbox : w.outbox = []) :
    Routes { s with sessions := s.sessions ++ [w] } := by
  have hget : ∀ (i : ℕ) (v : RoutedSession), (s.sessions ++ [w])[i]? = some v →
      v = w ∨ s.sessions[i]? = some v := by
    intro i v hv
    rw [List.getElem?_append] at hv
    split at hv
    · exact Or.inr hv
    · exact Or.inl (List.mem_singleton.mp (List.mem_of_getElem? hv))
  refine ⟨h.few, h.next, h.ids, fun i v hv => ?_, fun i v hv => ?_, h.answered,
    fun c k hk hwait => ?_,
    fun i v hv hpump => ?_⟩
  · rcases hget i v hv with rfl | hv
    · simp [hqueue, hpending, hinbox]
    · exact h.tickets i v hv
  · rcases hget i v hv with rfl | hv
    · simp [houtbox]
    · exact h.outbox i v hv
  · obtain ⟨v, hv, hmem⟩ := h.waiting c k hk hwait
    have hlt := (List.getElem?_eq_some_iff.mp hv).1
    exact ⟨v, by rw [List.getElem?_append_left hlt]; exact hv, hmem⟩
  · rcases hget i v hv with rfl | hv
    · exact ⟨hqueue, hpending⟩
    · exact h.ended i v hv hpump

/-- A call draws its id. -/
lemma Routes.call (h : s.Routes) (hfew : s.calls.length < 2 ^ 64) (i : ℕ) :
    Routes { s with calls := s.calls ++ [⟨i, s.next, .sending⟩], next := s.next + 1 } ∧
      Quiet s.calls (s.calls ++ [⟨i, s.next, .sending⟩]) := by
  have horigin : ∀ (c : ℕ) (p : ℕ × U64), (s.calls.map Call.origin)[c]? = some p →
      ((s.calls ++ [(⟨i, s.next, .sending⟩ : Call)]).map Call.origin)[c]? = some p := by
    intro c p hp
    rw [List.map_append, List.getElem?_append_left (List.getElem?_eq_some_iff.mp hp).1]
    exact hp
  -- a call of the longer list is an old one or the new one
  have hlast : ∀ (c : ℕ) (k : Call), (s.calls ++ [⟨i, s.next, .sending⟩])[c]? = some k →
      s.calls[c]? = some k ∨ (c = s.calls.length ∧ k = ⟨i, s.next, .sending⟩) := by
    intro c k hk
    rw [List.getElem?_append] at hk
    split at hk
    · exact Or.inl hk
    · obtain ⟨hlt, hk⟩ := List.getElem?_eq_some_iff.mp hk
      simp only [List.length_singleton, Nat.lt_one_iff] at hlt
      exact Or.inr ⟨by omega, by simp [← hk]⟩
  refine ⟨⟨?_, ?_, ?_, ?_, ?_, ?_, ?_, h.ended⟩, ⟨?_, ?_⟩⟩
  · show (s.calls ++ [_]).length ≤ 2 ^ 64
    rw [List.length_append, List.length_singleton]
    exact hfew
  · show s.next + 1 = idOf (s.calls ++ [_]).length
    rw [h.next, List.length_append, List.length_singleton]
    exact Fin.ext (by simp [idOf, Fin.ofNat, Fin.val_add])
  · intro c p hp
    change ((s.calls ++ [_]).map Call.origin)[c]? = some p at hp
    rw [List.getElem?_map] at hp
    obtain ⟨k, hk, rfl⟩ := Option.map_eq_some_iff.mp hp
    rcases hlast c k hk with hk | ⟨rfl, rfl⟩
    · exact h.ids c k.origin (by rw [List.getElem?_map, hk]; rfl)
    · exact h.next
  · exact fun j w hw t ht => horigin _ _ (h.tickets j w hw t ht)
  · exact fun j w hw p hp => ⟨(h.outbox j w hw p hp).1, horigin _ _ (h.outbox j w hw p hp).2⟩
  · intro c k r hk hr
    rcases hlast c k hk with hk | ⟨rfl, rfl⟩
    · exact h.answered c k r hk hr
    · cases hr
  · intro c k hk hwait
    rcases hlast c k hk with hk | ⟨rfl, rfl⟩
    · exact h.waiting c k hk hwait
    · cases hwait
  · intro c k hk _
    rw [List.getElem?_append_left (List.getElem?_eq_some_iff.mp hk).1]
    exact hk
  · intro c k r hk hr
    rcases hlast c k hk with hk | ⟨rfl, rfl⟩
    · exact hk
    · cases hr

/-- The request of a call goes into the channel. -/
lemma Routes.enqueue (h : s.Routes) {c : ℕ} {k : Call} (hk : s.calls[c]? = some k)
    {w : RoutedSession} (hw : s.sessions[k.session]? = some w) (hpump : w.pumping ≠ false) :
    Routes { s with
      sessions := s.sessions.set k.session { w with queue := w.queue ++ [⟨k.id, c⟩] }
      calls := s.calls.set c { k with state := .waiting } } := by
  have hc : c < s.calls.length := (List.getElem?_eq_some_iff.mp hk).1
  have hi : k.session < s.sessions.length := (List.getElem?_eq_some_iff.mp hw).1
  have horigin : (s.calls.set c { k with state := .waiting }).map Call.origin =
      s.calls.map Call.origin := by
    rw [List.map_set]
    apply List.ext_getElem?
    intro c'
    by_cases hcc : c = c'
    · subst hcc
      rw [List.getElem?_set_self (by simpa using hc), List.getElem?_map, hk]
      rfl
    · rw [List.getElem?_set_ne hcc]
  constructor
  · simpa using h.few
  · simpa using h.next
  · simpa only [horigin] using h.ids
  · intro j v hv t ht
    simp only [horigin]
    rcases getElem?_set_eq_some hv with ⟨rfl, rfl⟩ | ⟨-, hv⟩
    · simp only [List.append_assoc, List.mem_append, List.mem_singleton] at ht
      -- the new ticket is that of the call, the others were there
      rcases ht with ht | rfl | ht
      · exact h.tickets _ w hw t (by simp [ht])
      · rw [List.getElem?_map, hk]
        rfl
      · exact h.tickets _ w hw t (by simp [ht])
    · exact h.tickets j v hv t ht
  · intro j v hv p hp
    simp only [horigin]
    rcases getElem?_set_eq_some hv with ⟨rfl, rfl⟩ | ⟨-, hv⟩
    · exact h.outbox _ w hw p hp
    · exact h.outbox j v hv p hp
  · intro c' k' r hk' hr
    rcases getElem?_set_eq_some hk' with ⟨rfl, rfl⟩ | ⟨-, hk'⟩
    · cases hr
    · exact h.answered c' k' r hk' hr
  · intro c' k' hk' hwait
    rcases getElem?_set_eq_some hk' with ⟨rfl, rfl⟩ | ⟨-, hk'⟩
    · exact ⟨_, List.getElem?_set_self hi, by simp⟩
    · obtain ⟨v, hv, hmem⟩ := h.waiting c' k' hk' hwait
      by_cases hj : k.session = k'.session
      · rw [← hj, hw] at hv
        cases hv
        refine ⟨_, by rw [← hj]; exact List.getElem?_set_self hi, ?_⟩
        simp only [List.map_append, List.mem_append] at hmem ⊢
        rcases hmem with hmem | hmem
        · exact Or.inl (Or.inl hmem)
        · exact Or.inr hmem
      · exact ⟨v, by rw [List.getElem?_set_ne hj]; exact hv, hmem⟩
  · intro j v hv hp
    rcases getElem?_set_eq_some hv with ⟨rfl, rfl⟩ | ⟨-, hv⟩
    · exact absurd hp hpump
    · exact h.ended j v hv hp

/-- The pump takes a request. -/
lemma Routes.receive (h : s.Routes) {i : ℕ} {w : RoutedSession} (hw : s.sessions[i]? = some w)
    {t : Ticket} {rest : List Ticket} (hqueue : w.queue = t :: rest) (hpump : w.pumping = true)
    (inbox : List Ticket) (hinbox : ∀ u ∈ inbox, u ∈ w.inbox ∨ u = t) :
    Routes { s with
      calls := settle droppedResponse (w.pending.filter fun p => p.id = t.id) s.calls
      sessions := s.sessions.set i
        { w with
          queue := rest
          pending := t :: w.pending.filter fun p => p.id ≠ t.id
          inbox } } := by
  have hquiet := quiet_settle droppedResponse (w.pending.filter fun p => p.id = t.id) s.calls
  refine h.update s.answers hw (settle_origin _ _ _) ?_ (List.Subset.refl _) (fun p hp => Or.inl hp)
    (fun c k r hk hr => h.answered c k r (hquiet.answered c k r hk hr) hr) ?_ ?_
  · intro u hu
    simp only [List.mem_append, List.mem_cons, List.mem_filter] at hu
    simp only [hqueue, List.mem_append, List.mem_cons]
    rcases hu with hu | (rfl | ⟨hu, -⟩) | hu
    · exact Or.inl (Or.inr hu)
    · exact Or.inl (Or.inl rfl)
    · exact Or.inr (Or.inl hu)
    · rcases hinbox u hu with hu | rfl
      · exact Or.inr (Or.inr hu)
      · exact Or.inl (Or.inl rfl)
  · intro c k hk hwait
    obtain ⟨hk, hnot⟩ := settle_waiting hk hwait
    refine ⟨hk, fun hmem _ => ?_⟩
    -- its sender was not the one that `insert` dropped
    simp only [hqueue, List.map_append, List.map_cons, List.mem_append, List.mem_cons,
      List.mem_map] at hmem ⊢
    rcases hmem with (rfl | hmem) | ⟨u, hu, rfl⟩
    · exact Or.inr (Or.inl rfl)
    · exact Or.inl hmem
    · refine Or.inr (Or.inr ⟨u, ?_, rfl⟩)
      by_cases hid : u.id = t.id
      · exact absurd (List.mem_map_of_mem (by simp [hu, hid])) hnot
      · simp [hu, hid]
  · intro hp
    rw [hpump] at hp
    cases hp

/-- The worker answers a request. -/
lemma Routes.answer (h : s.Routes) {i : ℕ} {w : RoutedSession}
    (hw : s.sessions[i]? = some w) {k : ℕ}
    {t : Ticket} (ht : w.inbox[k]? = some t) {r : Protocol.WorkerResponse} (hr : r.id = t.id) :
    Routes { s with
      sessions := s.sessions.set i
        { w with inbox := w.inbox.eraseIdx k, outbox := w.outbox ++ [(t.call, r)] }
      answers := s.answers ++ [(t.call, r)] } := by
  have hissued := h.tickets i w hw t (by simp [List.mem_of_getElem? ht])
  refine h.update (s.answers ++ [(t.call, r)]) hw rfl ?_ (List.subset_append_left _ _) ?_
    (fun c k r hk hr => List.mem_append_left _ (h.answered c k r hk hr))
    (fun c k hk _ => ⟨hk, fun hmem _ => hmem⟩) (h.ended i w hw)
  · intro u hu
    simp only [List.mem_append] at hu ⊢
    rcases hu with hu | hu | hu
    · exact Or.inl hu
    · exact Or.inr (Or.inl hu)
    · exact Or.inr (Or.inr (List.mem_of_mem_eraseIdx hu))
  · intro p hp
    rcases List.mem_append.mp hp with hp | hp
    · exact Or.inl hp
    · obtain rfl := List.mem_singleton.mp hp
      exact Or.inr ⟨by simp, by rw [hr]; exact hissued⟩

/-- A response goes to the sender under its id, which is that of its own call. -/
lemma Routes.respond (h : s.Routes) {i : ℕ} {w : RoutedSession} (hw : s.sessions[i]? = some w)
    (hpump : w.pumping = true) (hstep : s.respond i w = some s') :
    Routes s' ∧ Routed s (.respond i) s' := by
  rw [Router.respond] at hstep
  split at hstep
  · cases hstep
  · rename_i p rest houtbox
    have hrest : ∀ q ∈ rest, q ∈ w.outbox := fun q hq => by simp [houtbox, hq]
    split at hstep
    · cases hstep
      refine ⟨h.update s.answers hw rfl (fun t ht => ht) (List.Subset.refl _)
        (fun q hq => Or.inl (hrest q hq)) h.answered (fun c k hk _ => ⟨hk, fun hmem _ => hmem⟩)
        (h.ended i w hw), .of_quiet (Quiet.refl _)⟩
    · rename_i t hfind
      cases hstep
      have hid : t.id = p.2.id := by simpa using List.find?_some hfind
      have hmem : t ∈ w.pending := List.mem_of_find?_eq_some hfind
      -- the sender and the response are of one call
      have hcall : t.call = p.1 := by
        have hp := (h.outbox i w hw p (by simp [houtbox])).2
        exact h.eq_of_id (h.tickets i w hw t (by simp [hmem])) hp hid
      have hmodify : ∀ (c : ℕ) (k : Call),
          (s.calls.modify t.call (Call.answerWith p.2))[c]? = some k →
          (c = p.1 ∧ ∃ k₀, s.calls[c]? = some k₀ ∧ k = k₀.answerWith p.2) ∨
            (c ≠ p.1 ∧ s.calls[c]? = some k) := by
        intro c k hk
        rw [List.getElem?_modify, hcall] at hk
        obtain ⟨k₀, hk₀, rfl⟩ := Option.map_eq_some_iff.mp hk
        by_cases hc : p.1 = c
        · exact Or.inl ⟨hc.symm, k₀, hk₀, by rw [if_pos hc]⟩
        · exact Or.inr ⟨Ne.symm hc, by rw [if_neg hc]; exact hk₀⟩
      refine ⟨h.update s.answers hw (modify_origin _ _ _) ?_ (List.Subset.refl _)
        (fun q hq => Or.inl (hrest q hq)) ?_ ?_ ?_, ?_, ?_⟩
      · intro u hu
        simp only [List.mem_append, List.mem_filter] at hu ⊢
        rcases hu with hu | ⟨hu, -⟩ | hu
        · exact Or.inl hu
        · exact Or.inr (Or.inl hu)
        · exact Or.inr (Or.inr hu)
      · intro c k r hk hr
        rcases hmodify c k hk with ⟨rfl, k₀, hk₀, rfl⟩ | ⟨-, hk⟩
        · rcases Call.answerWith_answered hr with hr | ⟨-, rfl⟩
          · exact h.answered _ k₀ r hk₀ hr
          · exact (h.outbox i w hw p (by simp [houtbox])).1
        · exact h.answered c k r hk hr
      · intro c k hk hwait
        rcases hmodify c k hk with ⟨rfl, k₀, hk₀, rfl⟩ | ⟨hne, hk⟩
        · exact absurd hwait Call.answerWith_waiting
        · refine ⟨hk, fun hmem _ => ?_⟩
          simp only [List.map_append, List.mem_append, List.mem_map] at hmem ⊢
          rcases hmem with hmem | ⟨u, hu, rfl⟩
          · exact Or.inl hmem
          · refine Or.inr ⟨u, ?_, rfl⟩
            -- another sender is under another id
            have huid : u.id ≠ p.2.id := by
              intro huid
              have hp := (h.outbox i w hw p (by simp [houtbox])).2
              exact hne (h.eq_of_id (h.tickets i w hw u (by simp [hu])) hp huid)
            simp [hu, huid]
      · intro hp
        rw [hpump] at hp
        cases hp
      · intro c k hk hd
        show (s.calls.modify t.call (Call.answerWith p.2))[c]? = some k
        rw [List.getElem?_modify, hk]
        simp only [Option.map_eq_map, Option.map_some, hd.answerWith, ite_self]
      · intro c k r hk hr
        rcases hmodify c k hk with ⟨rfl, k₀, hk₀, rfl⟩ | ⟨-, hk⟩
        · rcases Call.answerWith_answered hr with hr' | ⟨hwait, rfl⟩
          · have hd : k₀.Done := ⟨by simp [hr'], by simp [hr']⟩
            exact Or.inl (by rw [hd.answerWith]; exact hk₀)
          · exact Or.inr ⟨i, w, rest, k₀, rfl, hw, by rw [houtbox], hk₀, hwait⟩
        · exact Or.inl hk

/-- The id that a call draws was not drawn before. -/
def FreshId (s : Router) : RouterEvent → Prop
  | .call _ => s.calls.length < 2 ^ 64
  | _ => True

instance (s : Router) : (e : RouterEvent) → Decidable (FreshId s e)
  | .call _ => inferInstanceAs (Decidable (s.calls.length < 2 ^ 64))
  | .spawn | .enqueue _ | .timeout _ _ | .receive _ _ | .answer _ _ _ | .respond _ | .exit _
  | .eof _ | .close _ | .hangup _ => inferInstanceAs (Decidable True)

/-- The tickets of a session stay where they are. -/
lemma Routes.keep (h : s.Routes) {i : ℕ} {w w' : RoutedSession} (hw : s.sessions[i]? = some w)
    (hqueue : w'.queue = w.queue) (hpending : w'.pending = w.pending) (hinbox : w'.inbox = w.inbox)
    (houtbox : w'.outbox = w.outbox) (hpump : w'.pumping = w.pumping) :
    Routes { s with sessions := s.sessions.set i w' } := by
  refine h.update s.answers hw rfl ?_ (List.Subset.refl _) ?_ h.answered
    (fun c k hk _ => ⟨hk, fun hmem _ => ?_⟩) ?_
  · rw [hqueue, hpending, hinbox]
    exact fun t ht => ht
  · rw [houtbox]
    exact fun p hp => Or.inl hp
  · rwa [hqueue, hpending]
  · rw [hqueue, hpending, hpump]
    exact h.ended i w hw

/-- A call that was sending or waiting fails. -/
lemma Routes.set_failed (h : s.Routes) {c : ℕ} {k : Call} (hk : s.calls[c]? = some k)
    (hdone : ¬ k.Done) (e : Error) :
    Routes { s with calls := s.calls.set c { k with state := .failed e } } ∧
      Quiet s.calls (s.calls.set c { k with state := .failed e }) := by
  have hquiet : Quiet s.calls (s.calls.set c { k with state := .failed e }) :=
    quiet_set hk hdone (by simp)
  refine ⟨h.of_calls ?_ hquiet.answered ?_, hquiet⟩
  · rw [List.map_set]
    apply List.ext_getElem?
    intro c'
    by_cases hc : c = c'
    · subst hc
      have hlt := (List.getElem?_eq_some_iff.mp hk).1
      rw [List.getElem?_set_self (by simpa using hlt), List.getElem?_map, hk]
      rfl
    · rw [List.getElem?_set_ne hc]
  · intro c' k' hk' hwait
    rcases getElem?_set_eq_some hk' with ⟨rfl, rfl⟩ | ⟨-, hk'⟩
    · cases hwait
    · exact hk'

/-- Every step keeps the ids tied to their calls, and routes what it routes to the right call. -/
lemma Routes.step (h : s.Routes) {e : RouterEvent} (hstep : RouterStep s e s') (hC : FreshId s e) :
    Routes s' ∧ Routed s e s' := by
  cases e with
  | spawn =>
    cases hstep
    exact ⟨h.spawn _ rfl rfl rfl rfl, .of_quiet (Quiet.refl _)⟩
  | call i =>
    obtain ⟨w, -, hstep⟩ := Option.bind_eq_some_iff.mp hstep
    rw [Router.call] at hstep
    split at hstep
    · cases hstep
      exact ⟨(h.call hC i).1, .of_quiet (h.call hC i).2⟩
    · cases hstep
  | enqueue c =>
    obtain ⟨k, hk, hstep⟩ := Option.bind_eq_some_iff.mp hstep
    rw [Router.enqueue] at hstep
    split at hstep
    · rename_i hsending
      have hdone : ¬ k.Done := fun hd => hd.1 hsending
      obtain ⟨w, hw, hstep⟩ := Option.bind_eq_some_iff.mp hstep
      split at hstep
      · cases hstep
        exact ⟨(h.set_failed hk hdone _).1, .of_quiet (h.set_failed hk hdone _).2⟩
      · rename_i hpump
        split at hstep
        · cases hstep
          exact ⟨h.enqueue hk hw hpump, .of_quiet (quiet_set hk hdone (by simp))⟩
        · cases hstep
    · cases hstep
  | timeout c secs =>
    obtain ⟨k, hk, hstep⟩ := Option.bind_eq_some_iff.mp hstep
    split at hstep
    · rename_i hwait
      cases hstep
      have hdone : ¬ k.Done := fun hd => hd.2 hwait
      rw [Call.failWith, if_pos hwait]
      exact ⟨(h.set_failed hk hdone _).1, .of_quiet (h.set_failed hk hdone _).2⟩
    · cases hstep
  | receive i written =>
    obtain ⟨w, hw, hstep⟩ := Option.bind_eq_some_iff.mp hstep
    split at hstep
    · rename_i hpump
      rw [Router.receive] at hstep
      split at hstep
      · cases hstep
      · rename_i t rest hqueue
        -- a ticket under the same id is replaced, and its call settled
        have hquiet := quiet_settle droppedResponse (w.pending.filter fun p => p.id = t.id) s.calls
        split at hstep
        · cases hstep
          refine ⟨h.receive hw hqueue hpump (w.inbox ++ [t]) ?_, .of_quiet hquiet⟩
          simp
        · cases hstep
          -- the write failed: the ticket is pending when the pump ends
          have hi := (List.getElem?_eq_some_iff.mp hw).1
          have hroutes := h.receive hw hqueue hpump w.inbox fun u hu => Or.inl hu
          have hend := hroutes.endPump (List.getElem?_set_self hi)
            (.worker "worker stdin write failed")
          rw [Router.endPump, List.set_set] at hend
          exact ⟨hend.1, .of_quiet (hquiet.trans hend.2)⟩
    · cases hstep
  | answer i k body =>
    obtain ⟨w, hw, hstep⟩ := Option.bind_eq_some_iff.mp hstep
    split at hstep
    · cases hstep
    · obtain ⟨t, ht, rfl⟩ := Option.map_eq_some_iff.mp hstep
      refine ⟨h.answer hw ht ?_, .of_quiet (Quiet.refl _)⟩
      cases body <;> rfl
  | respond i =>
    obtain ⟨w, hw, hstep⟩ := Option.bind_eq_some_iff.mp hstep
    split at hstep
    · rename_i hpump
      exact h.respond hw hpump hstep
    · cases hstep
  | exit i =>
    obtain ⟨w, hw, rfl⟩ := Option.map_eq_some_iff.mp hstep
    exact ⟨h.keep hw rfl rfl rfl rfl rfl, .of_quiet (Quiet.refl _)⟩
  | eof i =>
    obtain ⟨w, hw, hstep⟩ := Option.bind_eq_some_iff.mp hstep
    split at hstep
    · cases hstep
      exact ⟨(h.endPump hw _).1, .of_quiet (h.endPump hw _).2⟩
    · cases hstep
  | close i =>
    obtain ⟨w, hw, rfl⟩ := Option.map_eq_some_iff.mp hstep
    exact ⟨h.keep hw rfl rfl rfl rfl rfl, .of_quiet (Quiet.refl _)⟩
  | hangup i =>
    obtain ⟨w, hw, hstep⟩ := Option.bind_eq_some_iff.mp hstep
    split at hstep
    · cases hstep
      exact ⟨(h.endPump hw _).1, .of_quiet (h.endPump hw _).2⟩
    · cases hstep

/-- A call that has returned has returned for good. -/
def Settles (s t : Router) : Prop :=
  ∀ (c : ℕ) (k : Call), s.calls[c]? = some k → k.Done → t.calls[c]? = some k

instance : IsTrans Router Settles := ⟨fun _ _ _ h h' c k hk hd => h' c k (h c k hk hd) hd⟩

/-- No call of a session waits behind the end of its pump, and none is in its channel. -/
def Abandoned (s : Router) (i : ℕ) (w : RoutedSession) : Prop :=
  w.queue = [] ∧ w.pending = [] ∧
    ∀ (c : ℕ) (k : Call), s.calls[c]? = some k → k.session = i → k.state ≠ .waiting

lemma Routes.abandoned (h : s.Routes) {i : ℕ} {w : RoutedSession} (hw : s.sessions[i]? = some w)
    (hpump : w.pumping = false) : s.Abandoned i w := by
  obtain ⟨hqueue, hpending⟩ := h.ended i w hw hpump
  refine ⟨hqueue, hpending, fun c k hk hi hwait => ?_⟩
  obtain ⟨v, hv, hmem⟩ := h.waiting c k hk hwait
  rw [hi, hw] at hv
  cases hv
  simp [hqueue, hpending] at hmem

end Router

/-- In every run of the process in which at most `2 ^ 64` calls draw an id, a call returns once, an
answer that it returns is the worker's answer to its own request, no response reaches another call,
and a pump leaves no call waiting when it ends. -/
theorem responses_routed {tr : List (RouterEvent × Router)} (h : Run RouterStep Router.new tr)
    (hC : Along Router.FreshId Router.new tr) :
    Throughout Router.Routed Router.new tr ∧ (statesOf Router.new tr).Pairwise Router.Settles ∧
      ∀ t ∈ statesOf Router.new tr,
        (∀ (c : ℕ) (k : Call) (r : Protocol.WorkerResponse), t.calls[c]? = some k →
          k.state = .answered r → (c, r) ∈ t.answers) ∧
        ∀ (i : ℕ) (w : RoutedSession), t.sessions[i]? = some w → w.pumping = false →
          t.Abandoned i w := by
  have hstep : ∀ s e s', RouterStep s e s' → s.FreshId e → s.Routes → s'.Routes :=
    fun s e s' hs hC hr => (hr.step hs hC).1
  refine ⟨h.throughout hC Router.routes_new hstep fun s e s' hs hC hr => (hr.step hs hC).2,
    h.pairwise_of_invariant hC Router.routes_new hstep
      fun s e s' hs hC hr => (hr.step hs hC).2.done, fun t ht => ?_⟩
  have hroutes := h.invariant hC Router.routes_new hstep t ht
  exact ⟨hroutes.answered, fun i w hw hpump => hroutes.abandoned hw hpump⟩

/-- Two sessions: a late answer on the first, and a worker of the second that exits. -/
def lateAnswer : List RouterEvent :=
  [.spawn, .spawn, .call 0, .call 1, .enqueue 1, .enqueue 0, .receive 0 true, .receive 1 true,
    .timeout 0 120, .call 0, .enqueue 2, .receive 0 true, .answer 0 0 (.ok "first"), .respond 0,
    .answer 0 0 (.ok "second"), .respond 0, .exit 1, .eof 1]

theorem responses_routed_lateAnswer :
    (lastOf .new (follow Router.act .new lateAnswer)).calls.map Call.state =
        [.failed (.worker (Router.timeoutText 120)), .failed (.worker "worker exited unexpectedly"),
          .answered (.ok 3 "second")] ∧
      (2, .ok 3 "second") ∈ (lastOf .new (follow Router.act .new lateAnswer)).answers := by
  refine ⟨by decide +kernel, ?_⟩
  have hrouted := responses_routed (follow_run Router.act .new lateAnswer) (by decide +kernel)
  refine (hrouted.2.2 _ ?_).1 2 ⟨0, 3, .answered (.ok 3 "second")⟩ (.ok 3 "second")
    (by decide +kernel) rfl
  decide +kernel

/-! ## The counter comes round -/

namespace Router

/-- Calls on a session whose pump has ended draw an id each and fail. -/
lemma burn_ids (n : ℕ) : ∀ (s : Router) (i : ℕ) (w : RoutedSession), s.sessions[i]? = some w →
    w.tx = true → w.pumping = false → ∃ tr failed, Run RouterStep s tr ∧ failed.length = n ∧
      lastOf s tr =
      { s with calls := s.calls ++ failed, next := s.next + Fin.ofNat (2 ^ 64) n } := by
  induction n with
  | zero =>
    intro s i w _ _ _
    exact ⟨[], [], .nil s, rfl, by simp⟩
  | succ n ih =>
    intro s i w hw htx hpump
    let k : Call := ⟨i, s.next, .sending⟩
    let k' : Call := { k with state := .failed (.worker "worker request channel closed") }
    let s₁ : Router := { s with calls := s.calls ++ [k], next := s.next + 1 }
    let s₂ : Router := { s₁ with calls := s.calls ++ [k'] }
    have hcall : RouterStep s (.call i) s₁ := by
      simp [RouterStep, act, call, hw, htx, s₁, k]
    have henqueue : RouterStep s₁ (.enqueue s.calls.length) s₂ := by
      simp [RouterStep, act, enqueue, hw, hpump, s₁, s₂, k', k]
    obtain ⟨tr, failed, hrun, hlen, hlast⟩ := ih s₂ i w hw htx hpump
    refine ⟨(.call i, s₁) :: (.enqueue s.calls.length, s₂) :: tr, k' :: failed,
      .cons hcall (.cons henqueue hrun), by simp [hlen], ?_⟩
    rw [lastOf_cons, lastOf_cons, hlast]
    have hnext : s.next + 1 + Fin.ofNat (2 ^ 64) n = s.next + Fin.ofNat (2 ^ 64) (n + 1) := by
      have hone : (1 : U64).val = 1 := rfl
      apply Fin.ext
      simp only [Fin.val_add, Fin.ofNat, hone]
      omega
    simp only [s₂, s₁, List.append_assoc, List.cons_append, List.nil_append, hnext]

end Router

/-- A call on the second session, whose pump ends on it, and one on the first that times out. -/
def beforeTheBurn : List RouterEvent :=
  [.spawn, .spawn, .call 1, .enqueue 0, .receive 1 false, .call 0, .enqueue 1, .receive 0 true,
    .timeout 1 120]

/-- Where the first session waits for an answer that its caller does not want any more. -/
def burning : Router where
  sessions := [⟨true, [], [⟨2, 1⟩], true, [⟨2, 1⟩], [], false⟩,
    ⟨true, [], [], false, [], [], false⟩]
  calls := [⟨1, 1, .failed (.worker "worker stdin write failed")⟩,
    ⟨0, 2, .failed (.worker (Router.timeoutText 120))⟩]
  next := 3
  answers := []

/-- The next call on the first session takes the id of the one that timed out, and gets the
worker's answer to it. -/
lemma reused_id (failed : List Call) :
    let s : Router := { burning with calls := burning.calls ++ failed, next := 2 }
    ∃ tr k, Run RouterStep s tr ∧ (lastOf s tr).calls[s.calls.length]? = some k ∧
      k.state = .answered (.ok 2 "first") ∧ (lastOf s tr).answers = [(1, .ok 2 "first")] := by
  intro s
  let c := s.calls.length
  let b : RoutedSession := ⟨true, [], [], false, [], [], false⟩
  let r : Protocol.WorkerResponse := .ok 2 "first"
  let waiting := s.calls ++ [⟨0, 2, .waiting⟩]
  let settled := settle droppedResponse [⟨2, 1⟩] waiting
  let s₁ : Router := { s with calls := s.calls ++ [⟨0, 2, .sending⟩], next := 3 }
  let s₂ : Router := { s₁ with
    sessions := [⟨true, [⟨2, c⟩], [⟨2, 1⟩], true, [⟨2, 1⟩], [], false⟩, b], calls := waiting }
  let s₃ : Router := { s₁ with
    sessions := [⟨true, [], [⟨2, c⟩], true, [⟨2, 1⟩, ⟨2, c⟩], [], false⟩, b], calls := settled }
  let s₄ : Router := { s₃ with
    sessions := [⟨true, [], [⟨2, c⟩], true, [⟨2, c⟩], [(1, r)], false⟩, b], answers := [(1, r)] }
  let s₅ : Router := { s₄ with
    sessions := [⟨true, [], [], true, [⟨2, c⟩], [], false⟩, b]
    calls := settled.modify c (Call.answerWith r) }
  have h₁ : RouterStep s (.call 0) s₁ := rfl
  have h₂ : RouterStep s₁ (.enqueue c) s₂ := by
    simp [RouterStep, Router.act, Router.enqueue, s₁, s₂, s, c, b, waiting, burning]
  have h₃ : RouterStep s₂ (.receive 0 true) s₃ := rfl
  have h₄ : RouterStep s₃ (.answer 0 0 (.ok "first")) s₄ := rfl
  have h₅ : RouterStep s₄ (.respond 0) s₅ := rfl
  have hc : c ∉ [(⟨2, 1⟩ : Ticket)].map Ticket.call := by
    simp [c, s, burning]
  have hwaiting : settled[c]? = some ⟨0, 2, .waiting⟩ := by
    rw [getElem?_settle]
    simp only [if_neg hc, waiting, c, List.getElem?_concat_length, Option.map_some]
  refine ⟨[(.call 0, s₁), (.enqueue c, s₂), (.receive 0 true, s₃), (.answer 0 0 (.ok "first"), s₄),
    (.respond 0, s₅)], ⟨0, 2, .answered r⟩,
    .cons h₁ (.cons h₂ (.cons h₃ (.cons h₄ (.cons h₅ (.nil s₅))))), ?_, rfl, rfl⟩
  show (settled.modify c (Call.answerWith r))[c]? = _
  rw [List.getElem?_modify, hwaiting]
  simp [Call.answerWith]

/-- After `2 ^ 64` more calls a call on the first session has the id of the one that timed out, and
gets the worker's answer to it. -/
theorem response_misrouted :
    ∃ (tr : List (RouterEvent × Router)) (c : ℕ) (k : Call) (r : Protocol.WorkerResponse),
      Run RouterStep Router.new tr ∧ (lastOf Router.new tr).calls[c]? = some k ∧
      k.state = .answered r ∧ (c, r) ∉ (lastOf Router.new tr).answers := by
  have hstart : lastOf .new (follow Router.act .new beforeTheBurn) = burning := by decide +kernel
  obtain ⟨burn, failed, hburn, -, hlast⟩ :=
    Router.burn_ids (2 ^ 64 - 1) burning 1 ⟨true, [], [], false, [], [], false⟩ rfl rfl rfl
  have hnext : burning.next + Fin.ofNat (2 ^ 64) (2 ^ 64 - 1) = 2 := by decide +kernel
  rw [hnext] at hlast
  obtain ⟨tr, k, hrun, hk, hstate, hanswers⟩ := reused_id failed
  rw [← hlast] at hrun hk hanswers
  refine ⟨follow Router.act .new beforeTheBurn ++ (burn ++ tr), (lastOf burning burn).calls.length,
    k, .ok 2 "first",
    (follow_run _ _ _).append ?_, ?_, hstate, ?_⟩
  · rw [hstart]
    exact hburn.append hrun
  · rw [lastOf_append, lastOf_append, hstart]
    exact hk
  · rw [lastOf_append, lastOf_append, hstart, hanswers, hlast]
    simp [burning]

end ReverseMcp
