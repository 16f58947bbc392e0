import ReverseMcp.Rust.Run
import ReverseMcp.Broker.Pump

/-!
# The pump's reads

`worker_pool::pump_task` between its two channels: the requests of the session and the bytes of
the worker's stdout.  A read future moves the bytes of a line, chunk by chunk as they arrive, into
a buffer of its own; `select!` drops it when a request is taken first, and the bytes it had moved
are gone with it.

`no_lost_frame`: as long as no request is taken while a line is partly read, the pump reads the
stream frame by frame whatever the chunks are, reports no frame error, and gives every response to
the caller that is pending for it.
-/

namespace ReverseMcp

open Rust Protocol

/-- Why the pump has ended. -/
inductive PumpEnd where
  /-- The request channel is closed. -/
  | hangup
  /-- A request could not be written to the worker's stdin. -/
  | stdin
  /-- The worker's stdout has ended. -/
  | exited
  | frameError (e : Error)
deriving DecidableEq

/-- The pump of a session with what it reads from. -/
structure PumpState where
  /-- Everything the worker has written to its stdout. -/
  written : List U8
  /-- The worker has closed its stdout. -/
  exited : Bool
  /-- The bytes in the pipe. -/
  pipe : List U8
  /-- The bytes in the `BufReader`. -/
  buffer : List U8
  /-- The bytes that the read in progress has moved out of the reader. -/
  line : List U8
  /-- The requests in the channel. -/
  queue : List U64
  pending : List U64
  /-- The call that waits for its answer; it holds the session. -/
  caller : Option U64
  /-- The responses read so far. -/
  seen : List Protocol.WorkerResponse
  /-- What went into the reply channels. -/
  answered : List (U64 × Result Json)
  ended : Option PumpEnd
deriving DecidableEq

/-- What can happen at the pump. -/
inductive PumpEvent where
  /-- The worker writes bytes. -/
  | write (bs : List U8)
  | exit
  /-- `call_with_timeout` sends its request. -/
  | call (id : U64)
  /-- The caller stops waiting. -/
  | timeout
  /-- `select!` takes a request, whether or not it can be written. -/
  | receive (written : Bool)
  | hangup
  /-- The read future is polled; the pipe has up to `n` bytes for it. -/
  | poll (n : ℕ)
deriving DecidableEq

namespace PumpState

/-- The pump behind the handshake. -/
def new : PumpState :=
  ⟨[], false, [], [], [], [], [], none, [], [], none⟩

/-- The pump ends; what is still in the channel is dropped with it. -/
def finish (s : PumpState) (reason : PumpEnd) : PumpState :=
  { s with queue := [], pending := [], caller := none, ended := some reason }

/-- `fail_all`, then the end of the pump. -/
def failAll (s : PumpState) (why : String) (reason : PumpEnd) : PumpState :=
  { s with answered := s.answered ++ s.pending.map fun id => (id, fail why) }.finish reason

/-- A response goes to the caller that is pending for it. -/
def deliver (s : PumpState) (r : Protocol.WorkerResponse) : PumpState :=
  if r.id ∈ s.pending then
    { s with
      seen := s.seen ++ [r]
      pending := s.pending.filter (· ≠ r.id)
      answered := s.answered ++ [(r.id, response_result r)]
      caller := s.caller.filter (· ≠ r.id) }
  else { s with seen := s.seen ++ [r] }

/-- The read future is ready with its line, and the pump handles what it gives. -/
def complete [Serde] (s : PumpState) : PumpState :=
  match readFrame s.line with
  | .ok (some r) => { s with line := [] }.deliver r
  | .ok none => { s with line := [] }.failAll "worker exited unexpectedly" .exited
  | .err e => { s with line := [] }.failAll s!"worker frame error: {e.text}" (.frameError e)
  | .panic _ => s

/-- `read_line` takes what the reader has, up to the end of the line. -/
def consume [Serde] (s : PumpState) : PumpState :=
  let (moved, rest) := readLine s.buffer
  let s' := { s with line := s.line ++ moved, buffer := rest }
  if moved.getLast? = some newline then s'.complete else s'

/-- One round of `read_line`; `none` while there is nothing to read. -/
def poll [Serde] (s : PumpState) (n : ℕ) : Option PumpState :=
  match s.buffer, s.pipe with
  | _ :: _, _ => some s.consume
  | [], _ :: _ =>
    -- `fill_buf`, with the capacity of the reader
    if 0 < n ∧ n ≤ 8192 then
      some { s with buffer := s.pipe.take n, pipe := s.pipe.drop n }.consume
    else none
  | [], [] => if s.exited then some s.complete else none

/-- `select!` takes a request: the read future is dropped with what it has moved. -/
def receive (s : PumpState) (written : Bool) : Option PumpState :=
  match s.queue with
  | [] => none
  | id :: rest =>
    let s' := { s with line := [], queue := rest, pending := id :: s.pending.filter (· ≠ id) }
    if written then some s' else some (s'.failAll "worker stdin write failed" .stdin)

/-- One step; `none` when it cannot happen. -/
def act [Serde] (s : PumpState) (e : PumpEvent) : Option PumpState :=
  match e with
  | .write bs =>
    if s.exited then none else some { s with written := s.written ++ bs, pipe := s.pipe ++ bs }
  | .exit => if s.exited then none else some { s with exited := true }
  | .timeout => some { s with caller := none }
  | .call id =>
    if s.ended = none ∧ s.caller = none ∧ s.queue.length < 64 then
      some { s with queue := s.queue ++ [id], caller := some id }
    else none
  | .receive written => if s.ended = none then s.receive written else none
  | .hangup =>
    if s.ended = none ∧ s.queue = [] ∧ s.caller = none then
      some ({ s with line := [] }.finish .hangup) else none
  | .poll n => if s.ended = none then s.poll n else none

end PumpState

/-- The steps of the pump. -/
def PumpStep [Serde] (s : PumpState) (e : PumpEvent) (s' : PumpState) : Prop := s.act e = some s'

/-- The bytes of a sequence of responses. -/
def encode [Host] (frames : List Protocol.WorkerResponse) : List U8 :=
  frames.flatMap (write_frame [])

/-- The worker writes the bytes of the frames, in any portions, and exits between two of them. -/
def Feeds [Host] (frames : List Protocol.WorkerResponse) (s : PumpState) : PumpEvent → Prop
  | .write bs => s.written ++ bs <+: encode frames
  | .exit => s.written = encode frames
  | _ => True

/-- No request is taken while a line is partly read. -/
def BetweenLines (s : PumpState) : PumpEvent → Prop
  | .receive _ => s.line = []
  | _ => True

instance [Host] (frames : List Protocol.WorkerResponse) (s : PumpState) :
    (e : PumpEvent) → Decidable (Feeds frames s e)
  | .write bs => inferInstanceAs (Decidable (s.written ++ bs <+: encode frames))
  | .exit => inferInstanceAs (Decidable (s.written = encode frames))
  | .call _ | .timeout | .receive _ | .hangup | .poll _ => inferInstanceAs (Decidable True)

instance (s : PumpState) : (e : PumpEvent) → Decidable (BetweenLines s e)
  | .receive _ => inferInstanceAs (Decidable (s.line = []))
  | .write _ | .exit | .call _ | .timeout | .hangup | .poll _ => inferInstanceAs (Decidable True)

/-! ## The bytes of a sequence of responses -/

section Encode

variable [Host] {frames : List Protocol.WorkerResponse}

lemma encode_cons (f : Protocol.WorkerResponse) :
    encode (f :: frames) = bytes (to_string f) ++ newline :: encode frames := by
  simp [encode, write_frame]

lemma encode_append (fs gs : List Protocol.WorkerResponse) :
    encode (fs ++ gs) = encode fs ++ encode gs := List.flatMap_append

lemma encode_take_append_drop (frames : List Protocol.WorkerResponse) (k : ℕ) :
    encode (frames.take k) ++ encode (frames.drop k) = encode frames := by
  rw [← encode_append, List.take_append_drop]

lemma newline_not_mem_text {f : Protocol.WorkerResponse} (h : '\n' ∉ (to_string f).toList) :
    newline ∉ bytes (to_string f) := by
  rw [to_string] at h ⊢
  exact newline_not_mem_bytes (by rwa [String.toList_ofList] at h)

/-- A stream without a newline holds no frame. -/
lemma encode_eq_nil (h : newline ∉ encode frames) : frames = [] := by
  cases frames with
  | nil => rfl
  | cons f frames => exact absurd (by simp [encode_cons]) h

end Encode

/-! ## What one step does -/

namespace PumpState

section Fields

variable (s : PumpState) (r : Protocol.WorkerResponse)

@[simp] lemma deliver_seen : (s.deliver r).seen = s.seen ++ [r] := by
  rw [deliver]
  split <;> rfl

@[simp] lemma deliver_written : (s.deliver r).written = s.written := by
  rw [deliver]
  split <;> rfl

@[simp] lemma deliver_exited : (s.deliver r).exited = s.exited := by
  rw [deliver]
  split <;> rfl

@[simp] lemma deliver_pipe : (s.deliver r).pipe = s.pipe := by
  rw [deliver]
  split <;> rfl

@[simp] lemma deliver_buffer : (s.deliver r).buffer = s.buffer := by
  rw [deliver]
  split <;> rfl

@[simp] lemma deliver_line : (s.deliver r).line = s.line := by
  rw [deliver]
  split <;> rfl

@[simp] lemma deliver_ended : (s.deliver r).ended = s.ended := by
  rw [deliver]
  split <;> rfl

/-- The caller that is pending for a response gets it. -/
lemma mem_answered_deliver (h : r.id ∈ s.pending) :
    (r.id, response_result r) ∈ (s.deliver r).answered := by
  simp [deliver, h]

lemma mem_pending_deliver {id : U64} (h : id ∈ s.pending) (hne : r.id ≠ id) :
    id ∈ (s.deliver r).pending := by
  rw [deliver]
  split
  · simpa using ⟨h, fun heq => hne heq.symm⟩
  · exact h

end Fields

variable [Host] [Serde]

/-- The texts of the frames are parsed back, and each is one line. -/
structure Wellformed (frames : List Protocol.WorkerResponse) : Prop where
  parse : ∀ f ∈ frames, Serde.parse (to_string f) = .ok (Frame.serialize f)
  line : ∀ f ∈ frames, '\n' ∉ (to_string f).toList

/-- The pump has read the stream frame by frame, and everything behind the last frame it has read
is still there. -/
structure Tracks (frames : List Protocol.WorkerResponse) (s : PumpState) : Prop where
  fed : s.written <+: encode frames
  whole : s.exited = true → s.written = encode frames
  seen : s.seen = (frames.take s.seen.length).map Protocol.WorkerResponse.readBack
  partly : newline ∉ s.line
  account : s.ended = none →
    s.written = encode (frames.take s.seen.length) ++ (s.line ++ (s.buffer ++ s.pipe))
  ended : ∀ e, s.ended ≠ some (.frameError e)

variable {frames : List Protocol.WorkerResponse} {s s' : PumpState}

omit [Serde] in
/-- The unread part of the stream begins with the frames that were not read yet. -/
lemma Tracks.unread (h : s.Tracks frames) (hrun : s.ended = none) :
    s.line ++ (s.buffer ++ s.pipe) <+: encode (frames.drop s.seen.length) := by
  have hfed := h.fed
  rw [h.account hrun, ← encode_take_append_drop frames s.seen.length] at hfed
  exact (List.prefix_append_right_inj _).mp hfed

/-- A whole line is the next frame. -/
lemma complete_line (hwf : Wellformed frames) {f : Protocol.WorkerResponse} (hf : f ∈ frames)
    (hline : s.line = bytes (to_string f) ++ [newline]) :
    s.complete = { s with line := [] }.deliver f.readBack := by
  have hread : readFrame s.line = .ok (some f.readBack) := by
    rw [hline]
    exact readFrame_line rfl (deserializeResponse_serialize f) (hwf.parse f hf)
  rw [complete, hread]

/-- What the read future can do with the bytes in its reader: it takes all of them into its line,
or it ends the line and the next frame is delivered. -/
lemma consume_cases (hwf : Wellformed frames) (h : s.Tracks frames) (hrun : s.ended = none) :
    (newline ∉ s.buffer ∧ s.consume = { s with line := s.line ++ s.buffer, buffer := [] }) ∨
      ∃ f moved rest, frames[s.seen.length]? = some f ∧ s.buffer = moved ++ newline :: rest ∧
        s.line ++ moved = bytes (to_string f) ∧
        s.consume = { s with line := [], buffer := rest }.deliver f.readBack := by
  rcases readLine_cases s.buffer with ⟨hmem, hread⟩ | ⟨moved, rest, hmem, hbuffer, hread⟩
  · left
    have hlast : s.buffer.getLast? ≠ some newline := fun hlast => hmem (List.mem_of_getLast? hlast)
    refine ⟨hmem, ?_⟩
    simp only [consume, hread, if_neg hlast]
  · right
    -- there is an end of line, so a frame that has not been read is still in the stream
    have hunread := h.unread hrun
    rw [hbuffer, List.append_assoc, ← List.append_assoc, List.cons_append] at hunread
    obtain hdrop | ⟨f, fs, hdrop⟩ : frames.drop s.seen.length = [] ∨
        ∃ f fs, frames.drop s.seen.length = f :: fs := by
      cases frames.drop s.seen.length with
      | nil => exact Or.inl rfl
      | cons f fs => exact Or.inr ⟨f, fs, rfl⟩
    · rw [hdrop] at hunread
      simp [encode] at hunread
    · have hget : frames[s.seen.length]? = some f := by
        rw [← List.head?_drop, hdrop]
        rfl
      have hf : f ∈ frames := List.mem_of_getElem? hget
      rw [hdrop, encode_cons] at hunread
      have hline : newline ∉ s.line ++ moved := by simp [h.partly, hmem]
      obtain ⟨htext, -⟩ := line_unique hline (newline_not_mem_text (hwf.line f hf)) hunread
      refine ⟨f, moved, rest, hget, hbuffer, htext, ?_⟩
      -- with what was read before, the line is the text of that frame
      have hwhole : s.line ++ (moved ++ [newline]) = bytes (to_string f) ++ [newline] := by
        rw [← htext, List.append_assoc]
      have hcomplete :=
        complete_line (s := { s with line := s.line ++ (moved ++ [newline]), buffer := rest })
        hwf hf hwhole
      simp only [consume, hread, List.getLast?_append, List.getLast?_singleton,
        Option.some_or, if_true]
      exact hcomplete

omit [Serde] in
/-- The reader is filled from the pipe. -/
lemma Tracks.fill (h : s.Tracks frames) (hbuffer : s.buffer = []) (n : ℕ) :
    Tracks frames { s with buffer := s.pipe.take n, pipe := s.pipe.drop n } where
  fed := h.fed
  whole := h.whole
  seen := h.seen
  partly := h.partly
  account hrun := by simpa [hbuffer] using h.account hrun
  ended := h.ended

/-- At the end of the stream there is no line left over. -/
lemma complete_exited (h : s.Tracks frames) (hrun : s.ended = none) (hexit : s.exited = true)
    (hbuffer : s.buffer = []) (hpipe : s.pipe = []) :
    s.complete = { s with line := [] }.failAll "worker exited unexpectedly" .exited := by
  have hstream := h.account hrun
  rw [h.whole hexit, hbuffer, hpipe, ← encode_take_append_drop frames s.seen.length,
    List.append_nil, List.append_nil] at hstream
  have hrest : encode (frames.drop s.seen.length) = s.line := List.append_cancel_left hstream
  have hdrop : frames.drop s.seen.length = [] := encode_eq_nil (hrest ▸ h.partly)
  have hline : s.line = [] := by rw [← hrest, hdrop]; rfl
  simp [complete, readFrame, hline]

/-- What a poll can do: the reader's bytes are taken in, a frame is delivered, or the stream has
ended behind the last frame. -/
lemma poll_cases (hwf : Wellformed frames) (h : s.Tracks frames) (hrun : s.ended = none) {n : ℕ}
    (hstep : s.poll n = some s') :
    (∃ moved pipe, moved ≠ [] ∧ newline ∉ moved ∧ s.buffer ++ s.pipe = moved ++ pipe ∧
        s' = { s with line := s.line ++ moved, buffer := [], pipe }) ∨
      (∃ f moved rest pipe, frames[s.seen.length]? = some f ∧
        s.buffer ++ s.pipe = moved ++ newline :: (rest ++ pipe) ∧
        s.line ++ moved = bytes (to_string f) ∧
        s' = { s with line := [], buffer := rest, pipe }.deliver f.readBack) ∨
      (s.buffer ++ s.pipe = [] ∧
        s' = { s with line := [] }.failAll "worker exited unexpectedly" .exited) := by
  rw [poll] at hstep
  split at hstep
  · rename_i b bs _ hbuffer
    cases hstep
    -- there is something in the buffer: it is searched for the end of the line
    rcases consume_cases hwf h hrun with ⟨hmem, heq⟩ | ⟨f, moved, rest, hget, hsplit, htext, heq⟩
    · exact Or.inl ⟨s.buffer, s.pipe, by simp [hbuffer], hmem, rfl, heq⟩
    · exact Or.inr (Or.inl ⟨f, moved, rest, s.pipe, hget, by simp [hsplit], htext, heq⟩)
  · rename_i c cs hbuffer hpipe
    split at hstep
    · rename_i hn
      cases hstep
      -- the buffer is empty and is filled from the pipe
      have hne : s.pipe.take n ≠ [] := by
        rw [hpipe, List.take_cons hn.1]
        simp
      have hall : s.pipe.take n ++ s.pipe.drop n = s.buffer ++ s.pipe := by simp [hbuffer]
      rcases consume_cases hwf (h.fill hbuffer n) hrun with
        ⟨hmem, heq⟩ | ⟨f, moved, rest, hget, hsplit, htext, heq⟩
      · exact Or.inl ⟨s.pipe.take n, s.pipe.drop n, hne, hmem, hall.symm, heq⟩
      · have hsplit : s.pipe.take n = moved ++ newline :: rest := hsplit
        refine Or.inr (Or.inl ⟨f, moved, rest, s.pipe.drop n, hget, ?_, htext, heq⟩)
        rw [← hall, hsplit]
        simp
    · cases hstep
  · rename_i hbuffer hpipe
    split at hstep
    · -- nothing is left, and the worker has exited
      rename_i hexit
      cases hstep
      exact Or.inr (Or.inr ⟨by simp [hbuffer, hpipe], complete_exited h hrun hexit hbuffer hpipe⟩)
    · cases hstep

/-! ## Runs -/

omit [Serde] in
/-- A frame that ends keeps the account of the stream. -/
lemma Tracks.deliver (h : s.Tracks frames) (hrun : s.ended = none) {f : Protocol.WorkerResponse}
    {moved rest pipe : List U8} (hget : frames[s.seen.length]? = some f)
    (hall : s.buffer ++ s.pipe = moved ++ newline :: (rest ++ pipe))
    (htext : s.line ++ moved = bytes (to_string f)) :
    Tracks frames ({ s with line := [], buffer := rest, pipe }.deliver f.readBack) := by
  have htake : frames.take (s.seen.length + 1) = frames.take s.seen.length ++ [f] := by
    rw [List.take_add_one, hget]
    rfl
  constructor
  · simpa using h.fed
  · simpa using h.whole
  · have hseen := h.seen
    simp only [deliver_seen, List.length_append, List.length_singleton, htake, List.map_append,
      List.map_singleton]
    rw [← hseen]
  · simp
  · intro _
    have hframe : encode [f] = s.line ++ (moved ++ [newline]) := by
      rw [encode_cons, ← htext, List.append_assoc]
      rfl
    simp only [deliver_written, deliver_seen, deliver_line, deliver_buffer, deliver_pipe,
      List.length_append, List.length_singleton, htake, encode_append, List.nil_append]
    rw [h.account hrun, hall, hframe]
    simp
  · simpa using h.ended

omit [Serde] in
/-- A pump that has ended for another reason than a frame error. -/
lemma Tracks.of_ended (h : s.Tracks frames) (hwritten : s'.written = s.written)
    (hexited : s'.exited = s.exited) (hseen : s'.seen = s.seen) (hline : s'.line = [])
    {reason : PumpEnd} (hended : s'.ended = some reason) (hreason : ∀ e, reason ≠ .frameError e) :
    s'.Tracks frames where
  fed := hwritten ▸ h.fed
  whole := by rw [hwritten, hexited]; exact h.whole
  seen := by rw [hseen]; exact h.seen
  partly := by simp [hline]
  account hrun := by rw [hended] at hrun; cases hrun
  ended e he := by
    rw [hended] at he
    exact hreason e (Option.some.inj he)

/-- A step keeps the account of the stream, if it is not a request that drops a partly read
line. -/
lemma Tracks.step (hwf : Wellformed frames) (h : s.Tracks frames) {e : PumpEvent}
    (hstep : PumpStep s e s') (hC : Feeds frames s e ∧ BetweenLines s e) : Tracks frames s' := by
  obtain ⟨hfeeds, hbetween⟩ := hC
  cases e with
  | write bs =>
    simp only [PumpStep, act] at hstep
    split at hstep
    · cases hstep
    · rename_i hopen
      cases hstep
      exact ⟨hfeeds, fun hexit => absurd hexit hopen, h.seen, h.partly,
        fun hrun => by simp [h.account hrun], h.ended⟩
  | exit =>
    simp only [PumpStep, act] at hstep
    split at hstep
    · cases hstep
    · cases hstep
      exact ⟨h.fed, fun _ => hfeeds, h.seen, h.partly, h.account, h.ended⟩
  | call id =>
    simp only [PumpStep, act] at hstep
    split at hstep
    · cases hstep
      exact ⟨h.fed, h.whole, h.seen, h.partly, h.account, h.ended⟩
    · cases hstep
  | timeout =>
    cases hstep
    exact ⟨h.fed, h.whole, h.seen, h.partly, h.account, h.ended⟩
  | receive written =>
    -- the line that is dropped is empty, by the condition
    have hline : s.line = [] := hbetween
    simp only [PumpStep, act, receive] at hstep
    split at hstep
    · rename_i hrun
      split at hstep
      · cases hstep
      · split at hstep
        · cases hstep
          exact ⟨h.fed, h.whole, h.seen, by simp, fun hrun => by simpa [hline] using h.account hrun,
            h.ended⟩
        · cases hstep
          exact h.of_ended rfl rfl rfl rfl rfl (by simp)
    · cases hstep
  | hangup =>
    simp only [PumpStep, act] at hstep
    split at hstep
    · cases hstep
      exact h.of_ended rfl rfl rfl rfl rfl (by simp)
    · cases hstep
  | poll n =>
    simp only [PumpStep, act] at hstep
    split at hstep
    · rename_i hrun
      -- bytes move to the line, or a frame ends, or the stream does
      rcases poll_cases hwf h hrun hstep with
        ⟨moved, pipe, -, hmem, hall, rfl⟩ |
        ⟨f, moved, rest, pipe, hget, hall, htext, rfl⟩ | ⟨-, rfl⟩
      · refine ⟨h.fed, h.whole, h.seen, by simp [h.partly, hmem], fun _ => ?_, h.ended⟩
        rw [h.account hrun, hall]
        simp
      · exact h.deliver hrun hget hall htext
      · exact h.of_ended rfl rfl rfl rfl rfl (by simp)
    · cases hstep

omit [Serde] in
lemma tracks_new (frames : List Protocol.WorkerResponse) : Tracks frames new where
  fed := List.nil_prefix
  whole h := by cases h
  seen := rfl
  partly := by simp [new]
  account _ := rfl
  ended e h := by cases h

/-- The frame number `i` is the next one for its id, whose caller is pending. -/
structure Awaits (frames : List Protocol.WorkerResponse) (i : ℕ) (f : Protocol.WorkerResponse)
    (s : PumpState) : Prop where
  get : frames[i]? = some f
  unread : s.seen.length ≤ i
  pending : f.id ∈ s.pending
  first : ∀ j g, s.seen.length ≤ j → j < i → frames[j]? = some g → g.id ≠ f.id

omit [Serde] in
/-- A frame that was written whole and not read yet is still before the pump. -/
lemma Tracks.buffered (h : s.Tracks frames) (hrun : s.ended = none) {i : ℕ}
    {f : Protocol.WorkerResponse} (hget : frames[i]? = some f) (hle : s.seen.length ≤ i)
    (hwritten : encode (frames.take (i + 1)) <+: s.written) : s.buffer ++ s.pipe ≠ [] := by
  intro hnil
  have hsplit : frames.take (i + 1) =
      frames.take s.seen.length ++ (frames.take (i + 1)).drop s.seen.length := by
    have htake := List.take_append_drop s.seen.length (frames.take (i + 1))
    rw [List.take_take, Nat.min_eq_left (by omega)] at htake
    exact htake.symm
  rw [h.account hrun, hnil, List.append_nil, hsplit, encode_append, List.prefix_append_right_inj]
    at hwritten
  -- what was written behind the frames read so far has no newline
  have hdrop := encode_eq_nil fun hmem => h.partly (hwritten.subset hmem)
  have hi : i < frames.length := (List.getElem?_eq_some_iff.mp hget).1
  have hlen := congrArg List.length hdrop
  simp only [List.length_drop, List.length_take, List.length_nil] at hlen
  omega

omit [Host] in
/-- With bytes before it, the read future can be polled. -/
lemma exists_poll (h : s.buffer ++ s.pipe ≠ []) : ∃ s', s.poll 1 = some s' := by
  rw [poll]
  split
  · exact ⟨_, rfl⟩
  · exact ⟨_, if_pos (by decide)⟩
  · rename_i hbuffer hpipe
    exact absurd (by simp [hbuffer, hpipe]) h

/-- A poll reads on towards the frame, or gives it to its caller. -/
lemma Awaits.poll (hwf : Wellformed frames) (h : s.Tracks frames) (hrun : s.ended = none) {i n : ℕ}
    {f : Protocol.WorkerResponse} (hawaits : s.Awaits frames i f) (hne : s.buffer ++ s.pipe ≠ [])
    (hpoll : s.poll n = some s') :
    s'.ended = none ∧ s'.written = s.written ∧
      (s'.buffer ++ s'.pipe).length < (s.buffer ++ s.pipe).length ∧
      (s'.Awaits frames i f ∨ (f.id, response_result f.readBack) ∈ s'.answered) := by
  rcases poll_cases hwf h hrun hpoll with
    ⟨moved, pipe, hmoved, -, hall, rfl⟩ | ⟨g, moved, rest, pipe, hg, hall, -, rfl⟩ | ⟨hnil, -⟩
  · have hpos : 0 < moved.length := List.length_pos_iff.mpr hmoved
    refine ⟨hrun, rfl, ?_, Or.inl ⟨hawaits.get, hawaits.unread, hawaits.pending, hawaits.first⟩⟩
    rw [hall]
    simpa using hpos
  · refine ⟨by simpa using hrun, by simp, ?_, ?_⟩
    · rw [hall, deliver_buffer, deliver_pipe]
      simp only [List.length_append, List.length_cons]
      omega
    · by_cases hi : s.seen.length = i
      · -- the frame itself
        have hgf : g = f := by
          have hget := hawaits.get
          rw [← hi, hg] at hget
          exact Option.some.inj hget
        subst hgf
        exact Or.inr (mem_answered_deliver _ _ hawaits.pending)
      · have hlt : s.seen.length < i := Nat.lt_of_le_of_ne hawaits.unread hi
        have hother : g.id ≠ f.id := hawaits.first s.seen.length g le_rfl hlt hg
        have hread : s.seen.length + 1 ≤ i := hlt
        refine Or.inl ⟨hawaits.get, by simpa using hread, ?_, fun j g' hj => ?_⟩
        · exact mem_pending_deliver _ _ hawaits.pending hother
        · simp only [deliver_seen, List.length_append, List.length_singleton] at hj
          exact hawaits.first j g' (by omega)
  · exact absurd hnil hne

/-- A running pump with a whole frame before it reads on until the caller of that frame has got
it. -/
lemma Awaits.reads_on (hwf : Wellformed frames) {i : ℕ} {f : Protocol.WorkerResponse} (n : ℕ) :
    ∀ s : PumpState, (s.buffer ++ s.pipe).length ≤ n → s.Tracks frames → s.ended = none →
      encode (frames.take (i + 1)) <+: s.written → s.Awaits frames i f →
      ∃ tr, Run PumpStep s tr ∧ (∀ p ∈ tr, ∃ n, p.1 = .poll n) ∧
        (f.id, response_result f.readBack) ∈ (lastOf s tr).answered := by
  induction n with
  | zero =>
    intro s hlen h hrun hwritten hawaits
    have hnil : s.buffer ++ s.pipe = [] := List.length_eq_zero_iff.mp (Nat.le_zero.mp hlen)
    exact absurd hnil (h.buffered hrun hawaits.get hawaits.unread hwritten)
  | succ n ih =>
    intro s hlen h hrun hwritten hawaits
    have hne := h.buffered hrun hawaits.get hawaits.unread hwritten
    obtain ⟨s', hpoll⟩ := exists_poll hne
    have hstep : PumpStep s (.poll 1) s' := by
      simp only [PumpStep, act, if_pos hrun]
      exact hpoll
    obtain ⟨hrun', hw', hshorter, hnext⟩ := hawaits.poll hwf h hrun hne hpoll
    rcases hnext with hawaits' | hans
    · obtain ⟨tr, htr, hpolls, hans⟩ := ih s' (by omega) (h.step hwf hstep ⟨trivial, trivial⟩)
        hrun' (hw' ▸ hwritten) hawaits'
      refine ⟨(.poll 1, s') :: tr, .cons hstep htr, ?_, hans⟩
      intro p hp
      rcases List.mem_cons.mp hp with rfl | hp
      · exact ⟨1, rfl⟩
      · exact hpolls p hp
    · exact ⟨[(.poll 1, s')], .cons hstep (.nil s'), by simp, hans⟩

/-- A frame that is read for a pending caller goes to that caller in the same step. -/
def Delivers (s : PumpState) (_ : PumpEvent) (s' : PumpState) : Prop :=
  ∀ r, s'.seen = s.seen ++ [r] → r.id ∈ s.pending →
    (r.id, response_result r) ∈ s'.answered

omit [Host] [Serde] in
lemma Delivers.of_seen {e : PumpEvent} (h : s'.seen = s.seen) : Delivers s e s' := by
  intro r hr
  rw [h] at hr
  simp at hr

lemma Tracks.delivers (hwf : Wellformed frames) (h : s.Tracks frames) {e : PumpEvent}
    (hstep : PumpStep s e s') : Delivers s e s' := by
  cases e with
  | write bs =>
    simp only [PumpStep, act] at hstep
    split at hstep <;> cases hstep
    exact .of_seen rfl
  | exit =>
    simp only [PumpStep, act] at hstep
    split at hstep <;> cases hstep
    exact .of_seen rfl
  | call id =>
    simp only [PumpStep, act] at hstep
    split at hstep <;> cases hstep
    exact .of_seen rfl
  | timeout =>
    cases hstep
    exact .of_seen rfl
  | receive written =>
    simp only [PumpStep, act, receive] at hstep
    split at hstep
    · split at hstep
      · cases hstep
      · split at hstep <;> cases hstep
        · exact .of_seen rfl
        · exact .of_seen rfl
    · cases hstep
  | hangup =>
    simp only [PumpStep, act] at hstep
    split at hstep <;> cases hstep
    exact .of_seen rfl
  | poll n =>
    simp only [PumpStep, act] at hstep
    split at hstep
    · rename_i hrun
      -- only a poll reads a frame
      rcases poll_cases hwf h hrun hstep with
        ⟨moved, pipe, -, -, -, rfl⟩ | ⟨f, moved, rest, pipe, -, -, -, rfl⟩ | ⟨-, rfl⟩
      · exact .of_seen rfl
      · intro r hr hpending
        rw [deliver_seen, List.append_cancel_left_eq, List.singleton_inj] at hr
        exact hr ▸ mem_answered_deliver _ _ (hr ▸ hpending)
      · exact .of_seen rfl
    · cases hstep

end PumpState

/-- In every run in which no request is taken while a line is partly read, a worker that writes
whole frames, in any portions, never makes the pump report a frame error; the responses are read in
order and without loss, each goes to the caller that is pending for it, and one that was written
whole for a pending caller is read by polling on. -/
theorem no_lost_frame [Host] [Serde] {frames : List Protocol.WorkerResponse}
    (hwf : PumpState.Wellformed frames) {tr : List (PumpEvent × PumpState)}
    (h : Run PumpStep PumpState.new tr)
    (hC : Along (fun s e => Feeds frames s e ∧ BetweenLines s e) PumpState.new tr) :
    Throughout PumpState.Delivers PumpState.new tr ∧ ∀ t ∈ statesOf PumpState.new tr,
      (∀ e, t.ended ≠ some (.frameError e)) ∧
      t.seen = (frames.take t.seen.length).map Protocol.WorkerResponse.readBack ∧
      (t.ended = none →
        t.written = encode (frames.take t.seen.length) ++ (t.line ++ (t.buffer ++ t.pipe)) ∧
        ∀ i f, t.Awaits frames i f → encode (frames.take (i + 1)) <+: t.written →
          ∃ tr', Run PumpStep t tr' ∧ (∀ p ∈ tr', ∃ n, p.1 = .poll n) ∧
            (f.id, response_result f.readBack) ∈ (lastOf t tr').answered) := by
  have hstep : ∀ s e s', PumpStep s e s' → (Feeds frames s e ∧ BetweenLines s e) →
      s.Tracks frames → s'.Tracks frames := fun s e s' hs hC ht => ht.step hwf hs hC
  refine ⟨h.throughout hC (PumpState.tracks_new frames) hstep
    fun s e s' hs _ ht => ht.delivers hwf hs, fun t ht => ?_⟩
  have htracks := h.invariant hC (PumpState.tracks_new frames) hstep t ht
  exact ⟨htracks.ended, htracks.seen, fun hrun => ⟨htracks.account hrun,
    fun i f hawaits hwritten => hawaits.reads_on hwf _ t le_rfl htracks hrun hwritten⟩⟩

/-- The responses of a worker to two calls. -/
def twoAnswers : List Protocol.WorkerResponse := [.ok 1 "first", .ok 2 true]

/-- A parser that knows the two responses. -/
@[reducible] def Serde.twoAnswers [Host] : Serde :=
  Serde.ofFrames (ReverseMcp.twoAnswers.map .response)

/-- The second call is made between the two responses; both come in portions. -/
def callsInTurn [Host] : List PumpEvent :=
  let first := write_frame [] (Protocol.WorkerResponse.ok 1 "first")
  let second := write_frame [] (Protocol.WorkerResponse.ok 2 true)
  [.call 1, .receive true, .write (first.take 9), .poll 8192, .write (first.drop 9), .poll 3,
    .poll 8192, .call 2, .receive true, .write (second.take 1), .poll 8192, .write (second.drop 1)]

/-- The first call times out while its response is arriving, and the second call is made. -/
def callsOverlap [Host] : List PumpEvent :=
  let first := write_frame [] (Protocol.WorkerResponse.ok 1 "first")
  [.call 1, .receive true, .write (first.take 9), .poll 8192, .timeout, .call 2, .receive true,
    .write (first.drop 9), .poll 8192]

lemma callsInTurn_along :
    letI : Host := Host.ascii true
    letI : Serde := Serde.twoAnswers
    Along (fun s e => Feeds twoAnswers s e ∧ BetweenLines s e) .new
      (follow PumpState.act .new callsInTurn) := by
  decide +kernel

theorem no_lost_frame_calls_in_turn :
    letI : Host := Host.ascii true
    letI : Serde := Serde.twoAnswers
    (follow PumpState.act .new callsInTurn).length = callsInTurn.length ∧
      ∀ t ∈ statesOf .new (follow PumpState.act .new callsInTurn),
        ∀ e, t.ended ≠ some (.frameError e) := by
  let _ : Host := Host.ascii true
  let _ : Serde := Serde.twoAnswers
  have hwf : PumpState.Wellformed twoAnswers := ⟨by decide +kernel, by decide +kernel⟩
  exact ⟨by decide +kernel,
    fun t ht => ((no_lost_frame hwf (follow_run _ _ _) callsInTurn_along).2 t ht).1⟩

/-- The bytes of the first response that had arrived are dropped with its read, and what is left
of the line is a frame error, which the second call gets for its answer. -/
theorem frame_lost_by_request :
    letI : Host := Host.ascii true
    letI : Serde := Serde.twoAnswers
    let tr := follow PumpState.act .new callsOverlap
    let e : Error := .ipc "bad frame: expected value at line 1 column 1"
    tr.length = callsOverlap.length ∧ Along (Feeds twoAnswers) .new tr ∧
      (lastOf .new tr).ended = some (.frameError e) ∧ (lastOf .new tr).seen = [] ∧
      (2, fail s!"worker frame error: {e.text}") ∈ (lastOf .new tr).answered := by
  decide +kernel

end ReverseMcp
