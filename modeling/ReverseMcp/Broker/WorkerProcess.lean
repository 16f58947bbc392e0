import ReverseMcp.Broker.FrameReads
import ReverseMcp.Broker.Tools
import ReverseMcp.Worker.Effects

/-!
# The worker process

`rmcp_worker::worker_main` between its two pipes: a hello frame, and then one response frame for
every request frame, until the input ends, a line is no request, the database was closed for good,
or a response cannot be written.

`worker_main_serves` is the refinement of the process to a run of the worker: for every input that
begins with the frames of some requests, the output is the hello frame and the frames of the
answers that the run gives to the first of these requests, in their order, and the exit code says
why it stopped there.
-/

namespace ReverseMcp

open Rust Protocol

/-- `WorkerHello`. -/
structure WorkerHello where
  protocol : U32
  ida_version : String
  pid : U32
  ida_dir : String
  idausr : String

/-- `Serialize` of the hello. -/
def WorkerHello.serialize (h : WorkerHello) : Json :=
  .object [("protocol", .nat h.protocol.val), ("ida_version", h.ida_version),
    ("pid", .nat h.pid.val), ("ida_dir", h.ida_dir), ("idausr", h.idausr)]

/-- How the process ends. -/
inductive ProcessEnd where
  | exit (code : ℕ)
  | panicked (p : Panic)
deriving DecidableEq

namespace WorkerMain

variable [Host] [Serde]

/-- The line that `write_frame` writes for the hello. -/
def helloFrame (h : WorkerHello) : List U8 :=
  bytes (String.ofList h.serialize.compact) ++ [newline]

/-- The loop of `worker_main` from request number `n` on: what it has written in the end, and how
it ends.  `envs` is what the requests find outside the process, and `writes` says whether the
response to a request can be written. -/
def loop (envs : ℕ → Env) (writes : ℕ → Bool) :
    ℕ → ℕ → WorkerState → List U8 → List U8 → List U8 × ProcessEnd
  | 0, _, _, _, out => (out, .panicked .loop)
  | fuel + 1, n, state, input, out =>
    match FrameReader.read (T := WorkerRequest) input with
    | (.ok (some req), rest) =>
      match handle (envs n) req state with
      | .error p => (out, .panicked p)
      | .ok (resp, state) =>
        if writes n = false then (out, .exit 3)
        else if state.closed then (write_frame out (Tools.frame resp), .exit 0)
        else loop envs writes fuel (n + 1) state rest (write_frame out (Tools.frame resp))
    | _ => (out, .exit 0)

/-- `worker_main`: the bytes written to stdout, and how the process ends. -/
def worker_main (hello : WorkerHello) (greets : Bool) (envs : ℕ → Env) (writes : ℕ → Bool)
    (input : List U8) : List U8 × ProcessEnd :=
  if greets then loop envs writes (input.length + 1) 0 .new input (helloFrame hello)
  else ([], .exit 3)

/-- The bytes of a sequence of requests. -/
def requests (reqs : List WorkerRequest) : List U8 := reqs.flatMap (write_frame [])

/-- The texts of the requests are parsed back, and each is one line. -/
structure Readable (reqs : List WorkerRequest) : Prop where
  parse : ∀ r ∈ reqs, Serde.parse (to_string r) = .ok (Frame.serialize r)
  line : ∀ r ∈ reqs, '\n' ∉ (to_string r).toList

/-- The lines at the beginning of the input are read as these requests, one after the other, and
the next line is not read as one, or is not there. -/
inductive Reads : List U8 → List WorkerRequest → Prop
  | stop {input : List U8}
      (h : ∀ req, (FrameReader.read (T := WorkerRequest) input).1 ≠ .ok (some req)) :
      Reads input []
  | line {input rest : List U8} {req : WorkerRequest} {reqs : List WorkerRequest}
      (h : FrameReader.read (T := WorkerRequest) input = (.ok (some req), rest))
      (hrest : Reads rest reqs) : Reads input (req :: reqs)

/-- Why a process ends that was sent `reqs` and has answered the requests of `tr`, the `n`-th
first. -/
def Ends (envs : ℕ → Env) (writes : ℕ → Bool) (n : ℕ) (s : WorkerState)
    (reqs : List WorkerRequest) (tr : List (WorkerEvent × WorkerState)) : ProcessEnd → Prop
  | .exit 0 => reqs = tr.map (·.1.req) ∨ tr ≠ [] ∧ (lastOf s tr).closed = true
  | .exit 3 => tr.length < reqs.length ∧ writes (n + tr.length) = false
  | .exit _ => False
  | .panicked p => ∃ req ∈ reqs[tr.length]?,
      handle (envs (n + tr.length)) req (lastOf s tr) = .error p

/-- What a process that was sent `reqs` does: it answers the first of them, one after the other. -/
structure Serves (envs : ℕ → Env) (writes : ℕ → Bool) (n : ℕ) (s : WorkerState)
    (reqs : List WorkerRequest) (tr : List (WorkerEvent × WorkerState)) (e : ProcessEnd) :
    Prop where
  run : Run WorkerStep s tr
  prefix_of : tr.map (·.1.req) <+: reqs
  surroundings : ∀ (k : ℕ) (p : WorkerEvent × WorkerState), tr[k]? = some p →
    p.1.env = envs (n + k)
  open_until : ∀ (k : ℕ) (p : WorkerEvent × WorkerState), tr[k]? = some p → k + 1 < tr.length →
    p.2.closed = false
  ends : Ends envs writes n s reqs tr e

variable {envs : ℕ → Env} {writes : ℕ → Bool} {reqs : List WorkerRequest}

omit [Serde] in
lemma requests_cons (r : WorkerRequest) :
    requests (r :: reqs) = write_frame [] r ++ requests reqs := by
  rw [requests, List.flatMap_cons, requests]

omit [Serde] in
/-- One more request is answered before the others. -/
lemma Serves.cons {n : ℕ} {s s' : WorkerState} {req : WorkerRequest} {resp : WorkerResponse}
    {tr : List (WorkerEvent × WorkerState)} {e : ProcessEnd}
    (h : handle (envs n) req s = .ok (resp, s')) (hopen : s'.closed = false)
    (ht : Serves envs writes (n + 1) s' reqs tr e) :
    Serves envs writes n s (req :: reqs) ((⟨envs n, req, resp⟩, s') :: tr) e where
  run := .cons h ht.run
  prefix_of := List.cons_prefix_cons.mpr ⟨rfl, ht.prefix_of⟩
  surroundings k p hp := by
    cases k with
    | zero =>
      obtain rfl := Option.some.inj ((List.getElem?_cons_zero).symm.trans hp)
      rfl
    | succ k =>
      rw [ht.surroundings k p hp]
      congr 1
      omega
  open_until k p hp hk := by
    cases k with
    | zero =>
      obtain rfl := Option.some.inj ((List.getElem?_cons_zero).symm.trans hp)
      exact hopen
    | succ k => exact ht.open_until k p hp (by simpa using hk)
  ends := by
    have hlen : n + (tr.length + 1) = n + 1 + tr.length := by omega
    have hends := ht.ends
    cases e with
    | exit code =>
      match code with
      | 0 =>
        rcases hends with rfl | ⟨-, hclosed⟩
        · exact .inl rfl
        · exact .inr ⟨by simp, hclosed⟩
      | 3 => exact ⟨by simpa using hends.1, by simpa [hlen] using hends.2⟩
    | panicked p => simpa [Ends, hlen] using hends

omit [Host] in
/-- A line that is read as a request is taken from the input. -/
lemma read_shorter {input rest : List U8} {req : WorkerRequest}
    (h : FrameReader.read (T := WorkerRequest) input = (.ok (some req), rest)) :
    rest.length < input.length := by
  obtain ⟨hfirst, rfl⟩ := Prod.mk.inj h
  rcases readLine_cases input with ⟨-, hline⟩ | ⟨line, rest, -, rfl, hline⟩
  · -- the last line of the input has no newline, but it is a line
    rw [hline] at hfirst ⊢
    have hne : input ≠ [] := fun hnil => by simp [hnil, readFrame] at hfirst
    simpa using List.length_pos_iff.mpr hne
  · rw [hline]
    simp only [List.length_append, List.length_cons]
    omega

omit [Host] in
/-- Every input is read as some requests. -/
lemma exists_reads (input : List U8) : ∃ reqs, Reads input reqs := by
  by_cases hstop : ∀ req, (FrameReader.read (T := WorkerRequest) input).1 ≠ .ok (some req)
  · exact ⟨[], .stop hstop⟩
  · push Not at hstop
    obtain ⟨req, hreq⟩ := hstop
    have hread : FrameReader.read (T := WorkerRequest) input =
        (.ok (some req), (readLine input).2) := Prod.ext hreq rfl
    have hlt := read_shorter hread
    obtain ⟨reqs, hreqs⟩ := exists_reads (readLine input).2
    exact ⟨req :: reqs, .line hread hreqs⟩
termination_by input.length

omit [Host] in
/-- An input has at least as many bytes as requests. -/
lemma Reads.length_le {input : List U8} (h : Reads input reqs) : reqs.length ≤ input.length := by
  induction h with
  | stop => exact Nat.zero_le _
  | line h _ ih =>
    have hlt := read_shorter h
    rw [List.length_cons]
    omega

/-- Requests that were written at the beginning of the input are read there. -/
lemma Reads.written {written : List WorkerRequest} (hwf : Readable written) {tail : List U8}
    (h : Reads (requests written ++ tail) reqs) : written <+: reqs := by
  induction written generalizing reqs with
  | nil => exact List.nil_prefix
  | cons r written ih =>
    have hread : FrameReader.read (T := WorkerRequest) (requests (r :: written) ++ tail) =
        (.ok (some r), requests written ++ tail) := by
      rw [requests_cons, List.append_assoc]
      exact FrameReader.read_written rfl (deserializeRequest_serializeRequest r)
        (hwf.parse r (by simp)) (hwf.line r (by simp)) _
    have hwf' : Readable written :=
      ⟨fun r hr => hwf.parse r (by simp [hr]), fun r hr => hwf.line r (by simp [hr])⟩
    generalize requests (r :: written) ++ tail = input at h hread
    cases h with
    | stop hstop => exact absurd (congrArg Prod.fst hread) (hstop r)
    | line hline hrest =>
      obtain ⟨hreq, rfl⟩ := Prod.mk.inj (hread.symm.trans hline)
      obtain rfl := Option.some.inj (Outcome.ok.inj hreq)
      exact List.cons_prefix_cons.mpr ⟨rfl, ih hwf' hrest⟩

/-- The loop serves the requests that it reads. -/
lemma loop_serves {input : List U8} (h : Reads input reqs) (fuel n : ℕ) (s : WorkerState)
    (out : List U8) (hfuel : reqs.length < fuel) :
    ∃ tr e, loop envs writes fuel n s input out =
        (out ++ encode (tr.map fun p => Tools.frame p.1.resp), e) ∧
      Serves envs writes n s reqs tr e := by
  induction h generalizing fuel n s out with
  | @stop input hstop =>
    obtain ⟨fuel, rfl⟩ := Nat.exists_eq_add_one_of_ne_zero (Nat.ne_of_gt hfuel)
    refine ⟨[], .exit 0, ?_, .nil s, List.nil_prefix, by simp, by simp, .inl rfl⟩
    rw [loop]
    split
    · rename_i req rest hread
      exact absurd (congrArg Prod.fst hread) (hstop req)
    · simp [encode]
  | @line input rest req reqs hread hrest ih =>
    obtain ⟨fuel, rfl⟩ := Nat.exists_eq_add_one_of_ne_zero (Nat.ne_of_gt (Nat.zero_lt_of_lt hfuel))
    simp only [loop, hread]
    cases hh : handle (envs n) req s with
    | error p =>
      exact ⟨[], .panicked p, by simp [encode], .nil s, List.nil_prefix, by simp, by simp,
        req, rfl, hh⟩
    | ok answered =>
      obtain ⟨resp, s'⟩ := answered
      dsimp only
      split
      · -- the response cannot be written
        rename_i hw
        exact ⟨[], .exit 3, by simp [encode], .nil s, List.nil_prefix, by simp, by simp,
          by simp, hw⟩
      · split
        · -- the database is closed for good
          rename_i hclosed
          refine ⟨[(⟨envs n, req, resp⟩, s')], .exit 0, ?_, .cons hh (.nil s'), ?_, ?_, ?_, ?_⟩
          · simp [encode, write_frame]
          · exact List.cons_prefix_cons.mpr ⟨rfl, List.nil_prefix⟩
          · intro k p hp
            cases k with
            | zero =>
              obtain rfl := Option.some.inj ((List.getElem?_cons_zero).symm.trans hp)
              rfl
            | succ k => simp at hp
          · intro k p hp hk
            simp at hk
          · exact .inr ⟨by simp, hclosed⟩
        · rename_i hopen
          obtain ⟨tr, e, hloop, hserves⟩ := ih fuel (n + 1) s'
            (write_frame out (Tools.frame resp)) (by simpa using hfuel)
          refine ⟨_, e, ?_, hserves.cons hh (by simpa using hopen)⟩
          rw [hloop]
          simp [encode, write_frame]

/-- Whatever bytes the worker finds on its stdin, its stdout is the hello and the answers that a run
of the worker gives to the first of the requests it reads there, and it ends with the exit code that
belongs to the first one it did not answer.  Requests that were written as frames are read. -/
theorem worker_main_serves (hello : WorkerHello) (envs : ℕ → Env) (writes : ℕ → Bool)
    (input : List U8) :
    ∃ reqs tr e, Reads input reqs ∧
      worker_main hello true envs writes input =
        (helloFrame hello ++ encode (tr.map fun p => Tools.frame p.1.resp), e) ∧
      Serves envs writes 0 .new reqs tr e ∧
      ∀ written tail, Readable written → input = requests written ++ tail → written <+: reqs := by
  obtain ⟨reqs, hreads⟩ := exists_reads input
  obtain ⟨tr, e, hloop, hserves⟩ := @loop_serves _ _ envs writes reqs input hreads
    (input.length + 1) 0 .new (helloFrame hello) (Nat.lt_succ_of_le hreads.length_le)
  refine ⟨reqs, tr, e, hreads, by rw [worker_main, if_pos rfl, hloop], hserves, ?_⟩
  rintro written tail hwf rfl
  exact hreads.written hwf

end WorkerMain

end ReverseMcp
