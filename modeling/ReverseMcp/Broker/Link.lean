import ReverseMcp.Broker.Ledger
import ReverseMcp.Broker.WorkerProcess

/-!
# Broker and worker, end to end

The pump of a session and the worker process behind it, joined by the worker's stdin and stdout:
calls enter the channel, the pump writes them to stdin as frames, the worker reads a line, handles
the request, and writes its response in any portions, which the pump reads in any portions.  All of
this is interleaved freely; a call may give up before its answer is there.

`answers_end_to_end`: the worker carries out the requests of the calls in the order of the calls,
none twice; and what a call gets is what the worker answered to the request of that call, or an
error of the pump, and it gets it once.

What this rests on: no id is drawn twice, no request is taken while a line is partly read
(`BetweenLines`), the worker is not killed in the midst of a frame, and the frames are such that
`serde_json` reads back what it wrote.
-/

namespace ReverseMcp

open Rust Protocol

/-- The two sides of a session. -/
structure LinkState where
  pump : PumpState
  /-- The requests of the calls so far. -/
  sent : List WorkerRequest
  /-- What is in the worker's stdin. -/
  stdin : List U8
  worker : WorkerState
  /-- What the worker has not written yet of its response. -/
  out : List U8
  /-- The requests that the worker has handled. -/
  events : List (WorkerEvent × WorkerState)

/-- What can happen on either side. -/
inductive LinkEvent where
  | call (req : WorkerRequest)
  /-- A call gives up. -/
  | timeout
  /-- The pump takes a request and writes it. -/
  | receive
  /-- The pump takes a request that the worker is not there to read. -/
  | refuse
  | hangup
  | poll (n : ℕ)
  /-- The worker reads a line and handles the request. -/
  | serve (env : Env)
  /-- The worker writes the next `n` bytes of its response. -/
  | flush (n : ℕ)
  /-- The worker exits. -/
  | exit

namespace LinkState

/-- Behind the handshake. -/
def new : LinkState := ⟨.new, [], [], .new, [], []⟩

/-- The responses of the worker, as they go over the wire. -/
def responses (s : LinkState) : List Protocol.WorkerResponse :=
  s.events.map fun p => Tools.frame p.1.resp

variable [Host] [Serde]

/-- The pump takes a step. -/
def pumped (s : LinkState) (e : PumpEvent) : Option LinkState :=
  (s.pump.act e).map fun pump => { s with pump }

/-- One round of the loop in `worker_main`, up to the write; `none` when the round does not end
with a response. -/
def serve (s : LinkState) (env : Env) : Option LinkState :=
  match FrameReader.read (T := WorkerRequest) s.stdin with
  | (.ok (some req), stdin) =>
    match handle env req s.worker with
    | .ok (resp, worker) => some { s with
        stdin, worker, out := write_frame [] (Tools.frame resp)
        events := s.events ++ [(⟨env, req, resp⟩, worker)] }
    | .error _ => none
  | _ => none

/-- One step; `none` when it cannot happen. -/
def act (s : LinkState) : LinkEvent → Option LinkState
  | .call req => (s.pumped (.call req.id)).map fun s' => { s' with sent := s.sent ++ [req] }
  | .timeout => s.pumped .timeout
  | .receive =>
    (s.pump.queue.head?.bind fun id => s.sent.find? fun req => req.id = id).bind fun req =>
      (s.pumped (.receive true)).map fun s' => { s' with stdin := write_frame s.stdin req }
  | .refuse => if s.pump.exited then s.pumped (.receive false) else none
  | .hangup => s.pumped .hangup
  | .poll n => s.pumped (.poll n)
  | .serve env =>
    if s.pump.exited = false ∧ s.out = [] ∧ s.worker.closed = false ∧ newline ∈ s.stdin then
      s.serve env
    else none
  | .flush n =>
    (s.pumped (.write (s.out.take n))).map fun s' => { s' with out := s.out.drop n }
  | .exit => s.pumped .exit

end LinkState

section Sides

variable [Host] [Serde]

/-- The steps of the two sides. -/
def LinkStep (s : LinkState) (e : LinkEvent) (s' : LinkState) : Prop := s.act e = some s'

/-- What the run rests on. -/
def Dependable (s : LinkState) : LinkEvent → Prop
  | .call req => req.id ∉ s.sent.map WorkerRequest.id ∧ WorkerMain.Readable [req]
  | .receive | .refuse => s.pump.line = []
  | .serve env => ∀ s' ∈ s.serve env, PumpState.Wellformed s'.responses
  | .exit => s.out = []
  | _ => True

/-- Those who wait at the pump wait for the requests whose responses were not read yet. -/
def PumpState.Waits (p : PumpState) (taken : List WorkerRequest) : Prop :=
  ∀ id ∈ p.pending, id ∈ (taken.drop p.seen.length).map WorkerRequest.id

omit [Serde] in
/-- The worker answers under the id of the request. -/
lemma WorkerStep.resp_id {w w' : WorkerState} {e : WorkerEvent} (h : WorkerStep w e w') :
    e.resp.id = e.req.id := by
  obtain ⟨v, t, -, hresp, -⟩ | ⟨err, -, hresp⟩ := handle_eq_ok h
  · rw [hresp]
    rfl
  · rw [hresp]
    rfl

namespace LinkState

/-- How the two sides fit together. -/
structure Linked (s : LinkState) : Prop where
  /-- What the worker has done is a run of the worker. -/
  run : Run WorkerStep .new s.events
  worker : s.worker = lastOf .new s.events
  wellformed : PumpState.Wellformed s.responses
  tracks : s.pump.Tracks s.responses
  /-- What the worker has written and what it has still to write are its responses. -/
  written : s.pump.written ++ s.out = encode s.responses
  exited : s.pump.exited = true → s.out = []
  /-- The requests of the calls are those handled, those in the pipe, and those in the channel. -/
  inOrder : ∃ unread queued, s.sent = s.events.map (·.1.req) ++ (unread ++ queued) ∧
    s.stdin = WorkerMain.requests unread ∧
    (s.pump.ended = none → s.pump.queue = queued.map WorkerRequest.id ∧
      s.pump.Waits (s.events.map (·.1.req) ++ unread))
  readable : WorkerMain.Readable s.sent
  fresh : (s.sent.map WorkerRequest.id).Nodup
  once : s.pump.known.Nodup
  known : s.pump.known ⊆ s.sent.map WorkerRequest.id
  sound : s.pump.Sound

lemma linked_new : Linked new where
  run := .nil _
  worker := rfl
  wellformed := ⟨by simp [responses, new], by simp [responses, new]⟩
  tracks := PumpState.tracks_new _
  written := rfl
  exited h := by cases h
  inOrder := ⟨[], [], rfl, rfl, fun _ => ⟨rfl, by simp [PumpState.Waits, new, PumpState.new]⟩⟩
  readable := ⟨by simp [new], by simp [new]⟩
  fresh := by simp [new]
  once := by simp [new, PumpState.known, PumpState.new]
  known := by simp [new, PumpState.known, PumpState.new]
  sound := by simp [new, PumpState.Sound, PumpState.new]

/-! ## One step -/

variable {s s' : LinkState}

omit [Serde] in
/-- More responses do not change what the pump has read. -/
lemma tracks_append {p : PumpState} {frames : List Protocol.WorkerResponse}
    (h : p.Tracks frames) (hopen : p.exited = false) (more : List Protocol.WorkerResponse) :
    p.Tracks (frames ++ more) := by
  have hlen : p.seen.length ≤ frames.length := by
    have hseen := congrArg List.length h.seen
    simp only [List.length_map, List.length_take] at hseen
    omega
  have htake : (frames ++ more).take p.seen.length = frames.take p.seen.length :=
    List.take_append_of_le_length hlen
  constructor
  · rw [encode_append]
    exact h.fed.trans (List.prefix_append _ _)
  · intro hexit
    rw [hopen] at hexit
    cases hexit
  · rw [htake]
    exact h.seen
  · exact h.partly
  · rw [htake]
    exact h.account
  · exact h.ended

omit [Host] in
lemma pumped_eq_some {e : PumpEvent} (h : s.pumped e = some s') :
    ∃ p, PumpStep s.pump e p ∧ s' = { s with pump := p } := by
  obtain ⟨p, hp, rfl⟩ := Option.map_eq_some_iff.mp h
  exact ⟨p, hp, rfl⟩

/-- What a step of the pump keeps, unless a call is made. -/
lemma Linked.pump (h : s.Linked) {e : PumpEvent} {p : PumpState} (hp : PumpStep s.pump e p)
    (hfeeds : Feeds s.responses s.pump e) (hbetween : BetweenLines s.pump e)
    (hcall : ∀ id, e ≠ .call id) :
    p.Tracks s.responses ∧ p.known.Nodup ∧ p.known ⊆ s.sent.map WorkerRequest.id ∧ p.Sound := by
  have hsub := hp.books.known_subperm hcall
  refine ⟨h.tracks.step h.wellformed hp ⟨hfeeds, hbetween⟩, ?_, ?_, hp.books.sound h.sound⟩
  · obtain ⟨l, hl, hsub⟩ := hsub
    exact hl.nodup_iff.mp (h.once.sublist hsub)
  · exact fun id hid => h.known (hsub.subset hid)

omit [Host] [Serde] in
lemma frame_id (r : WorkerResponse) : (Tools.frame r).id = r.id := by
  rw [Tools.frame]
  split <;> rfl

/-- The pump has read no more than the worker has answered. -/
lemma Linked.seen_le (h : s.Linked) : s.pump.seen.length ≤ s.events.length := by
  have hseen := congrArg List.length h.tracks.seen
  simp only [List.length_map, List.length_take, responses] at hseen
  omega

/-- A response is read: it is the next one, and the others wait on. -/
lemma Linked.waits_delivered (h : s.Linked) {p : PumpState} {r : Protocol.WorkerResponse}
    {unread : List WorkerRequest} (htracks : p.Tracks s.responses)
    (hseen : p.seen = s.pump.seen ++ [r]) (hpending : p.pending = s.pump.pending.filter (· ≠ r.id))
    (hwaits : s.pump.Waits (s.events.map (·.1.req) ++ unread)) :
    p.Waits (s.events.map (·.1.req) ++ unread) := by
  have hlast := htracks.seen
  have hlen : p.seen.length = s.pump.seen.length + 1 := by simp [hseen]
  have hr : some r = (s.responses[s.pump.seen.length]?).map Protocol.WorkerResponse.readBack := by
    have hget := congrArg (·[s.pump.seen.length]?) hlast
    rw [hlen] at hget
    simpa [hseen] using hget
  obtain ⟨f, hf, hrf⟩ := Option.map_eq_some_iff.mp hr.symm
  rw [responses, List.getElem?_map] at hf
  obtain ⟨q, hq, rfl⟩ := Option.map_eq_some_iff.mp hf
  -- the id of the response is that of the request it was read for
  obtain ⟨t, ht⟩ := h.run.step_of_mem (List.mem_of_getElem? hq)
  have hid : r.id = q.1.req.id := by
    rw [← hrf, ← ht.resp_id]
    exact frame_id q.1.resp
  have htaken : (s.events.map (·.1.req) ++ unread)[s.pump.seen.length]? = some q.1.req := by
    have hlt := (List.getElem?_eq_some_iff.mp hq).1
    rw [List.getElem?_append_left (by simpa using hlt), List.getElem?_map, hq]
    rfl
  intro id hmem
  rw [hpending] at hmem
  obtain ⟨hmem, hne⟩ := List.mem_filter.mp hmem
  have hdrop := hwaits id hmem
  obtain ⟨hlt, hget⟩ := List.getElem?_eq_some_iff.mp htaken
  rw [List.drop_eq_getElem_cons hlt, hget, List.map_cons, List.mem_cons] at hdrop
  rcases hdrop with heq | hdrop
  · exact absurd (heq.trans hid.symm) (by simpa using hne)
  · rwa [hlen]

/-- The pump takes a step that leaves the channel alone, or ends. -/
lemma Linked.pumped (h : s.Linked) {e : PumpEvent} {p : PumpState} (hp : PumpStep s.pump e p)
    (hbetween : BetweenLines s.pump e) (hcall : ∀ id, e ≠ .call id) (hreceive : e ≠ .receive true)
    (hwrite : ∀ bs, e ≠ .write bs) (hexit : e ≠ .exit) : Linked { s with pump := p } := by
  have hfeeds : Feeds s.responses s.pump e := by
    cases e with
    | write bs => exact absurd rfl (hwrite bs)
    | exit => exact absurd rfl hexit
    | _ => trivial
  obtain ⟨htracks, honce, hknown, hsound⟩ := h.pump hp hfeeds hbetween hcall
  obtain ⟨hwritten, hexited⟩ := Prod.mk.inj (PumpState.output_of_step hp hwrite hexit)
  obtain ⟨unread, queued, hsent, hstdin, hchannel⟩ := h.inOrder
  refine ⟨h.run, h.worker, h.wellformed, htracks, ?_, fun hx => h.exited (hexited ▸ hx),
    ⟨unread, queued, hsent, hstdin, fun hrun => ?_⟩, h.readable, h.fresh, honce, hknown, hsound⟩
  · show p.written ++ s.out = _
    rw [hwritten]
    exact h.written
  · have hrun : p.ended = none := hrun
    -- a pump that goes on has left the channel alone
    cases hp.books with
    | same _ _ _ hq hpend _ hseen he =>
      obtain ⟨hqueue, hwaits⟩ := hchannel (he ▸ hrun)
      exact ⟨hq.trans hqueue, by rw [PumpState.Waits, hpend, hseen]; exact hwaits⟩
    | called id => exact absurd rfl (hcall id)
    | received => exact absurd rfl hreceive
    | delivered r hr hq hseen hpend =>
      obtain ⟨hqueue, hwaits⟩ := hchannel hr
      exact ⟨hq.trans hqueue, h.waits_delivered htracks hseen hpend hwaits⟩
    | halted _ _ _ _ _ _ _ _ _ _ he => exact absurd hrun he

/-- A call is made: its request is the last one. -/
lemma Linked.call (h : s.Linked) {req : WorkerRequest} {p : PumpState}
    (hp : PumpStep s.pump (.call req.id) p) (hfresh : req.id ∉ s.sent.map WorkerRequest.id)
    (hreadable : WorkerMain.Readable [req]) :
    Linked { s with pump := p, sent := s.sent ++ [req] } := by
  obtain ⟨unread, queued, hsent, hstdin, hchannel⟩ := h.inOrder
  obtain ⟨hwritten, hexited⟩ := Prod.mk.inj (PumpState.output_of_step hp (by simp) (by simp))
  have hknown := hp.books.known_call
  refine ⟨h.run, h.worker, h.wellformed, h.tracks.step h.wellformed hp ⟨trivial, trivial⟩, ?_,
    fun hx => h.exited (hexited ▸ hx), ⟨unread, queued ++ [req], ?_, hstdin, fun _ => ?_⟩, ?_, ?_,
    ?_, ?_, hp.books.sound h.sound⟩
  · show p.written ++ s.out = _
    rw [hwritten]
    exact h.written
  · simp [hsent]
  · cases hp.books with
    | same hc => exact absurd rfl (hc _)
    | called _ hrun hq hpend _ hseen =>
      obtain ⟨hqueue, hwaits⟩ := hchannel hrun
      refine ⟨by simp [hq, hqueue], ?_⟩
      rw [PumpState.Waits, hpend, hseen]
      exact hwaits
    | halted hc => exact absurd rfl (hc _)
  · constructor
    · intro r hr
      rcases List.mem_append.mp hr with hr | hr
      · exact h.readable.parse r hr
      · exact hreadable.parse r hr
    · intro r hr
      rcases List.mem_append.mp hr with hr | hr
      · exact h.readable.line r hr
      · exact hreadable.line r hr
  · rw [List.map_append]
    exact List.Nodup.append h.fresh (List.nodup_singleton _) (by simpa using hfresh)
  · rw [hknown]
    exact List.Nodup.append h.once (List.nodup_singleton _)
      (by simpa using fun hmem => hfresh (h.known hmem))
  · rw [hknown, List.map_append]
    intro id hid
    rcases List.mem_append.mp hid with hid | hid
    · exact List.mem_append_left _ (h.known hid)
    · exact List.mem_append_right _ hid

omit [Serde] in
lemma requests_append (reqs reqs' : List WorkerRequest) :
    WorkerMain.requests (reqs ++ reqs') = WorkerMain.requests reqs ++ WorkerMain.requests reqs' :=
  List.flatMap_append

/-- The pump writes the next request to the worker's stdin. -/
lemma Linked.receive (h : s.Linked) {req : WorkerRequest} {id : U64} {p : PumpState}
    (hhead : s.pump.queue.head? = some id) (hfind : s.sent.find? (fun r => r.id = id) = some req)
    (hp : PumpStep s.pump (.receive true) p) (hline : s.pump.line = []) :
    Linked { s with pump := p, stdin := write_frame s.stdin req } := by
  obtain ⟨unread, queued, hsent, hstdin, hchannel⟩ := h.inOrder
  obtain ⟨htracks, honce, hknown, hsound⟩ := h.pump hp trivial hline (by simp)
  obtain ⟨hwritten, hexited⟩ := Prod.mk.inj (PumpState.output_of_step hp (by simp) (by simp))
  cases hp.books with
  | same _ hr => exact absurd rfl (hr true)
  | halted _ hr => exact absurd rfl hr
  | @received id' rest hrun hq hq' hpend _ hseen hrun' =>
    obtain ⟨hqueue, hwaits⟩ := hchannel hrun
    have hids := hqueue.symm.trans hq
    cases queued with
    | nil => cases hids
    | cons r queued =>
      obtain ⟨hid', hrest⟩ := List.cons.inj hids
      -- the request under the id at the head of the channel is the next one that was sent
      have hr : req = r := by
        have hmem : r ∈ s.sent := by simp [hsent]
        have hreq : req ∈ s.sent := List.mem_of_find?_eq_some hfind
        have hreqid : req.id = id := by simpa using List.find?_some hfind
        have hidid : id' = id := by
          rw [hq, List.head?_cons] at hhead
          exact Option.some.inj hhead
        exact List.inj_on_of_nodup_map h.fresh hreq hmem (by rw [hreqid, ← hidid, ← hid'])
      subst hr
      refine ⟨h.run, h.worker, h.wellformed, htracks, ?_, fun hx => h.exited (hexited ▸ hx),
        ⟨unread ++ [req], queued, by simp [hsent], ?_, fun _ => ?_⟩, h.readable, h.fresh, honce,
        hknown, hsound⟩
      · show p.written ++ s.out = _
        rw [hwritten]
        exact h.written
      · show write_frame s.stdin req = _
        rw [requests_append, ← hstdin]
        simp [WorkerMain.requests, write_frame]
      · refine ⟨hq'.trans hrest.symm, fun id hid => ?_⟩
        have hle : s.pump.seen.length ≤ (s.events.map (·.1.req) ++ unread).length := by
          have hseen_le := h.seen_le
          simp only [List.length_append, List.length_map]
          omega
        rw [hpend] at hid
        rw [hseen, ← List.append_assoc, List.drop_append_of_le_length hle, List.map_append,
          List.mem_append]
        rcases List.mem_cons.mp hid with rfl | hid
        · exact .inr (by simp [hid'])
        · exact .inl (hwaits id (List.mem_of_mem_filter hid))

/-- The worker handles the request at the front of its stdin. -/
lemma Linked.serve (h : s.Linked) {env : Env} (hopen : s.pump.exited = false) (hout : s.out = [])
    (hline : newline ∈ s.stdin) (hs : s.serve env = some s')
    (hwf : PumpState.Wellformed s'.responses) : s'.Linked := by
  obtain ⟨unread, queued, hsent, hstdin, hchannel⟩ := h.inOrder
  cases unread with
  | nil =>
    rw [hstdin] at hline
    cases hline
  | cons req unread =>
    have hmem : req ∈ s.sent := by simp [hsent]
    have hread : FrameReader.read (T := WorkerRequest) s.stdin =
        (.ok (some req), WorkerMain.requests unread) := by
      rw [hstdin, WorkerMain.requests_cons]
      exact FrameReader.read_written rfl (deserializeRequest_serializeRequest req)
        (h.readable.parse req hmem) (h.readable.line req hmem) _
    simp only [LinkState.serve, hread] at hs
    cases hh : handle env req s.worker with
    | error p =>
      rw [hh] at hs
      cases hs
    | ok answered =>
      obtain ⟨resp, worker⟩ := answered
      rw [hh] at hs
      obtain rfl := Option.some.inj hs
      have hresponses : responses { s with
          stdin := WorkerMain.requests unread, worker, out := write_frame [] (Tools.frame resp)
          events := s.events ++ [(⟨env, req, resp⟩, worker)] } =
          s.responses ++ [Tools.frame resp] := by
        simp [responses]
      refine ⟨h.run.append ?_, by simp [lastOf_append], hwf, ?_, ?_, ?_,
        ⟨unread, queued, by simp [hsent], rfl, fun hrun => by simpa using hchannel hrun⟩,
        h.readable, h.fresh, h.once, h.known, h.sound⟩
      · rw [← h.worker]
        exact .cons hh (.nil worker)
      · rw [hresponses]
        exact tracks_append h.tracks hopen _
      · rw [hresponses, encode_append]
        have hall : s.pump.written = encode s.responses := by
          simpa [hout] using h.written
        rw [← hall]
        simp [encode]
      · intro hx
        rw [hopen] at hx
        cases hx

/-- The worker writes a part of its response. -/
lemma Linked.flush (h : s.Linked) {n : ℕ} {p : PumpState}
    (hp : PumpStep s.pump (.write (s.out.take n)) p) :
    Linked { s with pump := p, out := s.out.drop n } := by
  have hfeeds : s.pump.written ++ s.out.take n <+: encode s.responses := by
    rw [← h.written]
    exact (List.prefix_append_right_inj _).mpr (List.take_prefix n s.out)
  obtain ⟨htracks, honce, hknown, hsound⟩ := h.pump hp hfeeds trivial (by simp)
  obtain ⟨unread, queued, hsent, hstdin, hchannel⟩ := h.inOrder
  simp only [PumpStep, PumpState.act] at hp
  split at hp
  · cases hp
  · rename_i hopen
    cases hp
    refine ⟨h.run, h.worker, h.wellformed, htracks, ?_, fun hx => absurd hx hopen,
      ⟨unread, queued, hsent, hstdin, hchannel⟩, h.readable, h.fresh, honce, hknown, hsound⟩
    show s.pump.written ++ s.out.take n ++ s.out.drop n = _
    rw [List.append_assoc, List.take_append_drop]
    exact h.written

/-- The worker exits behind its last response. -/
lemma Linked.exit (h : s.Linked) {p : PumpState} (hp : PumpStep s.pump .exit p)
    (hout : s.out = []) : Linked { s with pump := p } := by
  have hfeeds : s.pump.written = encode s.responses := by
    simpa [hout] using h.written
  obtain ⟨htracks, honce, hknown, hsound⟩ := h.pump hp hfeeds trivial (by simp)
  obtain ⟨unread, queued, hsent, hstdin, hchannel⟩ := h.inOrder
  simp only [PumpStep, PumpState.act] at hp
  split at hp
  · cases hp
  · cases hp
    exact ⟨h.run, h.worker, h.wellformed, htracks, h.written, fun _ => hout,
      ⟨unread, queued, hsent, hstdin, hchannel⟩, h.readable, h.fresh, honce, hknown, hsound⟩

/-- Every step keeps the two sides together. -/
lemma Linked.step (h : s.Linked) {e : LinkEvent} (hs : LinkStep s e s') (hC : Dependable s e) :
    s'.Linked := by
  cases e with
  | call req =>
    obtain ⟨t, ht, rfl⟩ := Option.map_eq_some_iff.mp hs
    obtain ⟨p, hp, rfl⟩ := pumped_eq_some ht
    exact h.call hp hC.1 hC.2
  | timeout =>
    obtain ⟨p, hp, rfl⟩ := pumped_eq_some hs
    exact h.pumped hp trivial (by simp) (by simp) (by simp) (by simp)
  | receive =>
    obtain ⟨req, hreq, hs⟩ := Option.bind_eq_some_iff.mp hs
    obtain ⟨id, hid, hfind⟩ := Option.bind_eq_some_iff.mp hreq
    obtain ⟨t, ht, rfl⟩ := Option.map_eq_some_iff.mp hs
    obtain ⟨p, hp, rfl⟩ := pumped_eq_some ht
    exact h.receive hid hfind hp hC
  | refuse =>
    simp only [LinkStep, act] at hs
    split at hs
    · obtain ⟨p, hp, rfl⟩ := pumped_eq_some hs
      exact h.pumped hp hC (by simp) (by simp) (by simp) (by simp)
    · cases hs
  | hangup =>
    obtain ⟨p, hp, rfl⟩ := pumped_eq_some hs
    exact h.pumped hp trivial (by simp) (by simp) (by simp) (by simp)
  | poll n =>
    obtain ⟨p, hp, rfl⟩ := pumped_eq_some hs
    exact h.pumped hp trivial (by simp) (by simp) (by simp) (by simp)
  | serve env =>
    simp only [LinkStep, act] at hs
    split at hs
    · rename_i hopen
      exact h.serve hopen.1 hopen.2.1 hopen.2.2.2 hs (hC s' hs)
    · cases hs
  | flush n =>
    obtain ⟨t, ht, rfl⟩ := Option.map_eq_some_iff.mp hs
    obtain ⟨p, hp, rfl⟩ := pumped_eq_some ht
    exact h.flush hp
  | exit =>
    obtain ⟨p, hp, rfl⟩ := pumped_eq_some hs
    exact h.exit hp hC

/-! ## Whole runs -/

omit [Host] [Serde] in
/-- What the caller gets for what the worker answered: an answer of `null` is taken for none. -/
def received (r : WorkerResponse) : Result Json :=
  match r.result with
  | .ok v => if v = .null then fail "worker error" else .ok v
  | .error e => .err (error_from_code e.1 e.2)

omit [Host] [Serde] in
lemma response_result_readBack (r : WorkerResponse) :
    response_result (Tools.frame r).readBack = received r := by
  obtain ⟨id, result⟩ := r
  cases result with
  | ok v =>
    by_cases hv : v = .null
    · subst hv
      rfl
    · have hkept : (some v).filter (fun v => v ≠ .null) = some v :=
        Option.filter_some_pos (by simpa using hv)
      simp only [response_result, Tools.frame, Protocol.WorkerResponse.readBack, received,
        if_neg hv, hkept]
  | error e => rfl

/-- A response that was read is one that the worker gave. -/
lemma Linked.of_seen (h : s.Linked) {r : Protocol.WorkerResponse} (hr : r ∈ s.pump.seen) :
    ∃ p ∈ s.events, r = (Tools.frame p.1.resp).readBack := by
  rw [h.tracks.seen] at hr
  obtain ⟨f, hf, rfl⟩ := List.mem_map.mp hr
  obtain ⟨p, hp, rfl⟩ := List.mem_map.mp (List.mem_of_mem_take hf)
  exact ⟨p, hp, rfl⟩

end LinkState

/-- However the two sides of a session are interleaved and however their bytes are portioned, in
every state that is reached the worker has handled the requests of the first calls, in the order of
the calls and each once; every call has got at most one answer; and that is an error of the pump or
what the worker answered to the request of this very call. -/
theorem answers_end_to_end {tr : List (LinkEvent × LinkState)} (h : Run LinkStep .new tr)
    (hC : Along Dependable .new tr) : ∀ s ∈ statesOf .new tr,
    Run WorkerStep .new s.events ∧ s.events.map (·.1.req) <+: s.sent ∧
      (s.sent.map WorkerRequest.id).Nodup ∧ (s.pump.answered.map Prod.fst).Nodup ∧
      ∀ p ∈ s.pump.answered, (∃ why, p.2 = fail why) ∨
        ∃ q ∈ s.events,
          q.1.req ∈ s.sent ∧ q.1.req.id = p.1 ∧ p.2 = LinkState.received q.1.resp := by
  intro s hs
  have hlinked := h.invariant hC LinkState.linked_new (fun _ _ _ hs hC h => h.step hs hC) s hs
  obtain ⟨unread, queued, hsent, -, -⟩ := hlinked.inOrder
  have hprefix : s.events.map (·.1.req) <+: s.sent := ⟨unread ++ queued, hsent.symm⟩
  refine ⟨hlinked.run, hprefix, hlinked.fresh, hlinked.once.of_append_left, fun p hp => ?_⟩
  refine (hlinked.sound p hp).imp id ?_
  rintro ⟨r, hr, hid, hres⟩
  obtain ⟨q, hq, rfl⟩ := hlinked.of_seen hr
  obtain ⟨t, ht⟩ := hlinked.run.step_of_mem hq
  refine ⟨q, hq, hprefix.subset (List.mem_map_of_mem hq), ?_, ?_⟩
  · rw [← hid, ← ht.resp_id]
    exact (LinkState.frame_id q.1.resp).symm
  · rw [hres, LinkState.response_result_readBack]

instance (frames : List Protocol.WorkerResponse) : Decidable (PumpState.Wellformed frames) :=
  decidable_of_iff ((∀ f ∈ frames, Serde.parse (to_string f) = .ok (Frame.serialize f)) ∧
    ∀ f ∈ frames, '\n' ∉ (to_string f).toList) ⟨fun h => ⟨h.1, h.2⟩, fun h => ⟨h.1, h.2⟩⟩

instance (reqs : List WorkerRequest) : Decidable (WorkerMain.Readable reqs) :=
  decidable_of_iff ((∀ r ∈ reqs, Serde.parse (to_string r) = .ok (Frame.serialize r)) ∧
    ∀ r ∈ reqs, '\n' ∉ (to_string r).toList) ⟨fun h => ⟨h.1, h.2⟩, fun h => ⟨h.1, h.2⟩⟩

instance (s : LinkState) : (e : LinkEvent) → Decidable (Dependable s e)
  | .call req => inferInstanceAs (Decidable (_ ∧ WorkerMain.Readable [req]))
  | .receive | .refuse => inferInstanceAs (Decidable (s.pump.line = []))
  | .serve env =>
    inferInstanceAs (Decidable (∀ s' ∈ s.serve env, PumpState.Wellformed s'.responses))
  | .exit => inferInstanceAs (Decidable (s.out = []))
  | .timeout | .hangup | .poll _ | .flush _ => inferInstanceAs (Decidable True)

end Sides

/-- A call to a worker without a backend. -/
def saveCall : WorkerRequest := ⟨1, "db.save", .object []⟩

/-- A parser that knows the request and its answer. -/
@[reducible] def Serde.saveCall [Host] : Serde :=
  Serde.ofFrames [.request ReverseMcp.saveCall,
    .response (.err 1 (.worker "no db open"))]

/-- The call is made, and its answer comes in two portions. -/
def saveScript : List LinkEvent :=
  [.call saveCall, .receive, .serve .bare, .flush 9, .poll 8192, .flush 200, .poll 8192]

lemma saveScript_dependable :
    letI : Host := Host.ascii true
    letI : Serde := Serde.saveCall
    Along Dependable .new (follow LinkState.act .new saveScript) := by
  decide +kernel

theorem answers_end_to_end_save :
    letI : Host := Host.ascii true
    letI : Serde := Serde.saveCall
    (follow LinkState.act .new saveScript).length = saveScript.length ∧
      ∀ s ∈ statesOf .new (follow LinkState.act .new saveScript),
        (s.pump.answered.map Prod.fst).Nodup := by
  let _ : Host := Host.ascii true
  let _ : Serde := Serde.saveCall
  refine ⟨by decide +kernel, fun s hs => ?_⟩
  exact (answers_end_to_end (follow_run _ _ _) saveScript_dependable s hs).2.2.2.1

end ReverseMcp
