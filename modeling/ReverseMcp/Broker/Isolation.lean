import Mathlib.Algebra.BigOperators.Group.List.Basic
import Mathlib.Algebra.Order.BigOperators.Group.List
import ReverseMcp.Rust.Run
import ReverseMcp.Rust.Collections
import ReverseMcp.Core.Error

/-!
# Disposable workers

`rmcp_broker::isolation`: a risky request runs in a worker process of its own, behind a semaphore of
two permits and under a guard whose `Drop` kills the process.  A call of `run_isolated` is a record
with the point of the program where it stands; one step does one thing that other calls can see, and
`IsoStep` lets the calls take their steps in any order.  A future can be dropped where it awaits:
the handshake, the sequence of requests, and the reaping of a killed process.

The counters are `fetch_add` on `u64`, which wraps.  Every terminal counter is incremented beside
the place where the guard is told so, or by the guard's `Drop` (`ledger_balances`).
-/

namespace ReverseMcp

open Rust

/-- `IsoStats`. -/
structure IsoStats where
  spawned : U64
  killed_timeout : U64
  killed_crash : U64
  exited_clean : U64
  rejected_cap : U64
deriving DecidableEq

/-- `DisposableOutcome`; durations in nanoseconds. -/
inductive DisposableOutcome where
  | ok (v : Json)
  | timeout (after : ℕ) (stage : String)
  | crashed (detail stage : String)
  | badResponse (detail stage : String)
deriving DecidableEq

/-- `MAX_CONCURRENT`. -/
def MAX_CONCURRENT : ℕ := 2

/-- `PROTOCOL_VERSION`. -/
def PROTOCOL_VERSION : ℕ := 1

/-- `DisposableGuard`, with whether its process has not been killed. -/
structure DisposableGuard where
  alive : Bool
  accounted : Bool
deriving DecidableEq

/-- The terminal counters. -/
inductive Terminal where
  | killedTimeout
  | killedCrash
  | exitedClean
deriving DecidableEq

/-- The counter that `finish` increments for an outcome. -/
def DisposableOutcome.counter : DisposableOutcome → Terminal
  | ok _ | badResponse _ _ => .exitedClean
  | timeout _ _ => .killedTimeout
  | crashed _ _ => .killedCrash

/-- Where a call of `run_isolated` stands.  The calls of `kill_tree` are followed by `drop(permit)`
when `release` is set. -/
inductive IsoPoint where
  | acquire
  | spawn
  | countSpawned
  | takeStdin
  | takeStdout
  /-- Awaits the hello frame. -/
  | hello
  /-- Awaits the answers to the three requests. -/
  | sequence
  | count (terminal : Terminal) (release : Bool)
  | account (release : Bool)
  | kill (release : Bool)
  /-- `kill_tree` awaits the end of the process, five seconds at most. -/
  | reap (release : Bool)
  | release
  /-- `Drop` of the guard, up to the counter. -/
  | dropGuard
  /-- `Drop` of the guard kills the process. -/
  | dropChild
  /-- The permit is dropped after the guard. -/
  | leave
  | ended
deriving DecidableEq

/-- A call of `run_isolated`. -/
structure IsoCall where
  hard_timeout : ℕ
  point : IsoPoint
  permit : Bool
  guard : Option DisposableGuard
  /-- What the call returns; nothing when its future is dropped. -/
  answer : Option (Except Error DisposableOutcome)
  /-- The call has been counted as spawned. -/
  spawned : Bool
  /-- How often the call has incremented one of the terminal counters. -/
  terminal : ℕ
deriving DecidableEq

namespace IsoCall

/-- A call at its start. -/
def new (hard_timeout : ℕ) : IsoCall := ⟨hard_timeout, .acquire, false, none, none, false, 0⟩

/-- `return`: what is left in the frame is dropped, the guard before the permit. -/
def ret (c : IsoCall) (answer : Except Error DisposableOutcome) : IsoCall :=
  { c with answer := some answer, point := if c.guard.isSome then .dropGuard else .leave }

/-- At most half the hard timeout, and at most a minute. -/
def hello_budget (c : IsoCall) : ℕ := min c.hard_timeout (120 * 10 ^ 9) / 2

/-- The call awaits something. -/
def Awaits (c : IsoCall) : Prop :=
  c.point = .hello ∨ c.point = .sequence ∨ ∃ release, c.point = .reap release

end IsoCall

/-- The calls with what they share. -/
structure IsoSystem where
  stats : IsoStats
  /-- The free permits of the semaphore. -/
  permits : ℕ
  calls : List IsoCall
deriving DecidableEq

/-- A process that has just started. -/
def IsoSystem.new : IsoSystem := ⟨⟨0, 0, 0, 0, 0⟩, MAX_CONCURRENT, []⟩

/-- `fetch_add(1)` of a terminal counter. -/
def IsoStats.add (s : IsoStats) : Terminal → IsoStats
  | .killedTimeout => { s with killed_timeout := s.killed_timeout + 1 }
  | .killedCrash => { s with killed_crash := s.killed_crash + 1 }
  | .exitedClean => { s with exited_clean := s.exited_clean + 1 }

/-- What a step of a call meets outside. -/
inductive IsoReply where
  /-- The step succeeds. -/
  | done
  /-- It fails, with the text of the error; the end of the stream is `none`. -/
  | failed (detail : Option String)
  | timedOut
  /-- The hello frame. -/
  | hello (protocol : ℕ)
  /-- The answer to the third request. -/
  | value (v : Json)
deriving DecidableEq

/-- `BadResponse` of an error of the sequence. -/
def sequenceFailed (detail : String) : DisposableOutcome :=
  .badResponse detail (if startsWith detail "backend.select:" || startsWith detail "db.open:" then
    "open" else "risky")

namespace IsoSystem

/-- One step of a call: the call and the system behind it. -/
def exec (s : IsoSystem) (c : IsoCall) (r : IsoReply) : Option (IsoCall × IsoSystem) :=
  match c.point, r with
  | .acquire, .done =>
    if 0 < s.permits then
      some ({ c with permit := true, point := .spawn }, { s with permits := s.permits - 1 })
    else
      some ({ c with
        answer := some (.error (.worker
          s!"disposable analysis worker cap ({MAX_CONCURRENT}) reached; retry shortly"))
        point := .ended },
        { s with stats := { s.stats with rejected_cap := s.stats.rejected_cap + 1 } })
  | .spawn, .failed (some e) => some (c.ret (.error (.worker s!"spawn disposable worker: {e}")), s)
  | .spawn, .done => some ({ c with guard := some ⟨true, false⟩, point := .countSpawned }, s)
  | .countSpawned, .done =>
    some ({ c with spawned := true, point := .takeStdin },
      { s with stats := { s.stats with spawned := s.stats.spawned + 1 } })
  | .takeStdin, .failed none => some (c.ret (.error (.worker "no disposable stdin")), s)
  | .takeStdin, .done => some ({ c with point := .takeStdout }, s)
  | .takeStdout, .failed none => some (c.ret (.error (.worker "no disposable stdout")), s)
  | .takeStdout, .done => some ({ c with point := .hello }, s)
  | .hello, .failed none =>
    some (c.ret (.ok (.crashed "disposable worker died before hello" "startup")), s)
  | .hello, .failed (some e) =>
    some (c.ret (.ok (.crashed s!"disposable hello frame: {e}" "startup")), s)
  | .hello, .timedOut =>
    some ({ c with
      answer := some (.ok (.timeout c.hello_budget "startup"))
      point := .count .killedTimeout false }, s)
  | .hello, .hello protocol =>
    if protocol ≠ PROTOCOL_VERSION then
      some (c.ret (.ok (.crashed s!"disposable protocol {protocol} != {PROTOCOL_VERSION}"
        "startup")), s)
    else some ({ c with point := .sequence }, s)
  | .sequence, .timedOut =>
    some ({ c with
      answer := some (.ok (.timeout c.hard_timeout "risky"))
      point := .count .killedTimeout true }, s)
  | .sequence, .failed (some e) =>
    let outcome := sequenceFailed (Error.worker e).text
    some ({ c with answer := some (.ok outcome), point := .count outcome.counter true }, s)
  | .sequence, .failed none =>
    let outcome := .badResponse "no response" "risky"
    some ({ c with answer := some (.ok outcome), point := .count outcome.counter true }, s)
  | .sequence, .value v =>
    let outcome := .ok v
    some ({ c with answer := some (.ok outcome), point := .count outcome.counter true }, s)
  | .count terminal release, .done =>
    some ({ c with terminal := c.terminal + 1, point := .account release },
      { s with stats := s.stats.add terminal })
  | .account release, .done =>
    some ({ c with guard := c.guard.map fun g => { g with accounted := true }
                   point := .kill release }, s)
  | .kill release, .done =>
    some ({ c with guard := c.guard.map fun g => { g with alive := false }
                   point := .reap release }, s)
  | .reap release, .done => some ({ c with point := if release then .release else .dropGuard }, s)
  | .release, .done =>
    some ({ c with permit := false, point := .dropGuard }, { s with permits := s.permits + 1 })
  | .dropGuard, .done =>
    if c.guard.any (·.accounted) then some ({ c with point := .dropChild }, s)
    else some ({ c with terminal := c.terminal + 1, point := .dropChild },
      { s with stats := s.stats.add .killedCrash })
  | .dropChild, .done => some ({ c with guard := none, point := .leave }, s)
  | .leave, .done =>
    some ({ c with permit := false, point := .ended },
      { s with permits := if c.permit then s.permits + 1 else s.permits })
  | _, _ => none

end IsoSystem

/-- What happens: a call begins, takes a step, or has its future dropped. -/
inductive IsoEvent where
  | start (hard_timeout : ℕ)
  | advance (k : ℕ) (r : IsoReply)
  | drop (k : ℕ)
deriving DecidableEq

namespace IsoSystem

/-- One step of the system. -/
def act (s : IsoSystem) : IsoEvent → Option IsoSystem
  | .start hard_timeout => some { s with calls := s.calls ++ [.new hard_timeout] }
  | .advance k r =>
    s.calls[k]?.bind fun c => (s.exec c r).map fun p => { p.2 with calls := s.calls.set k p.1 }
  | .drop k =>
    s.calls[k]?.bind fun c =>
      match c.point with
      | .hello | .sequence | .reap _ =>
        some { s with calls := s.calls.set k { c with answer := none, point := .dropGuard } }
      | _ => none

end IsoSystem

/-- The steps of the system. -/
def IsoStep (s : IsoSystem) (e : IsoEvent) (s' : IsoSystem) : Prop := s.act e = some s'

/-! ## What a call owes -/

namespace IsoCall

/-- The guard has a process that has not been killed. -/
def aliveGuard (c : IsoCall) : Bool := c.guard.any (·.alive)

/-- The guard is there and has not been accounted. -/
def unaccounted (c : IsoCall) : Bool := c.guard.any fun g => !g.accounted

/-- The call stands between a counter and the guard that goes with it: the guard is made and not
counted, or it is counted and not marked, or its `Drop` has counted it and has not finished. -/
def between (c : IsoCall) : Bool :=
  match c.point with
  | .countSpawned | .account _ => true
  | .dropChild => c.unaccounted
  | _ => false

/-- What a call has when it stands at its point. -/
def Fits (c : IsoCall) : Prop :=
  match c.point with
  | .acquire => c.permit = false ∧ c.guard = none ∧ c.spawned = false ∧ c.terminal = 0
  | .spawn => c.permit = true ∧ c.guard = none ∧ c.spawned = false ∧ c.terminal = 0
  | .countSpawned =>
    c.permit = true ∧ c.guard = some ⟨true, false⟩ ∧ c.spawned = false ∧ c.terminal = 0
  | .takeStdin | .takeStdout | .hello | .sequence | .count _ _ =>
    c.permit = true ∧ c.guard = some ⟨true, false⟩ ∧ c.spawned = true ∧ c.terminal = 0
  | .account _ =>
    c.permit = true ∧ c.guard = some ⟨true, false⟩ ∧ c.spawned = true ∧ c.terminal = 1
  | .kill _ => c.permit = true ∧ c.guard = some ⟨true, true⟩ ∧ c.spawned = true ∧ c.terminal = 1
  | .reap _ | .release =>
    c.permit = true ∧ c.guard = some ⟨false, true⟩ ∧ c.spawned = true ∧ c.terminal = 1
  | .dropGuard =>
    c.spawned = true ∧ (c.permit = true ∧ c.guard = some ⟨true, false⟩ ∧ c.terminal = 0 ∨
      c.guard = some ⟨false, true⟩ ∧ c.terminal = 1)
  | .dropChild =>
    c.spawned = true ∧ c.terminal = 1 ∧ (c.permit = true ∧ c.guard = some ⟨true, false⟩ ∨
      c.guard = some ⟨false, true⟩)
  | .leave => c.guard = none ∧ c.terminal = c.spawned.toNat
  | .ended => c.permit = false ∧ c.guard = none ∧ c.terminal = c.spawned.toNat

lemma fits_new (hard_timeout : ℕ) : (new hard_timeout).Fits := ⟨rfl, rfl, rfl, rfl⟩

variable {c : IsoCall}

/-- A process that has not been killed is behind a permit. -/
lemma Fits.alive_le_permit (h : c.Fits) : c.aliveGuard.toNat ≤ c.permit.toNat := by
  rw [Fits] at h
  rw [aliveGuard]
  split at h <;> grind

/-- What a call has been counted for, and what it will be counted for. -/
lemma Fits.balance (h : c.Fits) :
    c.spawned.toNat + c.between.toNat = c.terminal + c.unaccounted.toNat := by
  rw [Fits] at h
  unfold between unaccounted
  split at h <;> grind

/-- A call that has ended has been counted once if it was counted as spawned. -/
lemma Fits.ended (h : c.Fits) (hend : c.point = .ended) : c.terminal = c.spawned.toNat := by
  simp only [Fits, hend] at h
  exact h.2.2

end IsoCall

/-! ## One step -/

/-- The three terminal counters together; the sum is taken modulo `2 ^ 64`. -/
def IsoStats.terminals (s : IsoStats) : ℕ :=
  s.killed_timeout.val + s.killed_crash.val + s.exited_clean.val

lemma IsoStats.terminals_add (s : IsoStats) (t : Terminal) :
    (s.add t).terminals % 2 ^ 64 = (s.terminals + 1) % 2 ^ 64 := by
  have h1 : ((1 : U64) : ℕ) = 1 := rfl
  cases t <;> simp only [IsoStats.add, terminals, Fin.val_add, h1] <;> omega

@[simp] lemma IsoStats.add_spawned (s : IsoStats) (t : Terminal) :
    (s.add t).spawned = s.spawned := by
  cases t <;> rfl

/-- A call went on from `c` to `c'` and the system from `s` to `s'`: what the call holds and has
been counted for is what the system gave. -/
structure IsoSystem.Moves (s : IsoSystem) (c c' : IsoCall) (s' : IsoSystem) : Prop where
  fits : c'.Fits
  permits : s'.permits + c'.permit.toNat = s.permits + c.permit.toNat
  spawned : (s'.stats.spawned.val + c.spawned.toNat) % 2 ^ 64 =
    (s.stats.spawned.val + c'.spawned.toNat) % 2 ^ 64
  terminals : (s'.stats.terminals + c.terminal) % 2 ^ 64 =
    (s.stats.terminals + c'.terminal) % 2 ^ 64

namespace IsoSystem

variable {s s' : IsoSystem} {c c' : IsoCall} {r : IsoReply}

/-- A step that the system does not see. -/
lemma Moves.quiet (hfits : c'.Fits) (hpermit : c'.permit = c.permit)
    (hspawned : c'.spawned = c.spawned) (hterminal : c'.terminal = c.terminal) :
    s.Moves c c' s :=
  ⟨hfits, by rw [hpermit], by rw [hspawned], by rw [hterminal]⟩

/-- A call that returns while its process runs leaves the guard to its `Drop`. -/
lemma Moves.ret (hpermit : c.permit = true) (hguard : c.guard = some ⟨true, false⟩)
    (hspawned : c.spawned = true) (hterminal : c.terminal = 0)
    (answer : Except Error DisposableOutcome) : s.Moves c (c.ret answer) s := by
  refine .quiet ?_ rfl rfl rfl
  simp [IsoCall.ret, IsoCall.Fits, hguard, hpermit, hspawned, hterminal]

/-- Every step keeps the table, and the system has for the call what the call has had from it. -/
lemma exec_moves (h : s.exec c r = some (c', s')) (hc : c.Fits) : s.Moves c c' s' := by
  rw [IsoCall.Fits] at hc
  cases hp : c.point with
  | acquire =>
    simp only [hp] at hc
    obtain ⟨hpermit, hguard, hspawned, hterminal⟩ := hc
    -- a permit is taken, or the call ends without one
    cases r <;> simp only [exec, hp, reduceCtorEq] at h
    split at h
    · cases h
      refine ⟨by simp [IsoCall.Fits, hguard, hspawned, hterminal], ?_, rfl, rfl⟩
      simp only [hpermit, Bool.toNat_true, Bool.toNat_false]
      omega
    · cases h
      exact ⟨by simp [IsoCall.Fits, hpermit, hguard, hspawned, hterminal], rfl, rfl, rfl⟩
  | spawn =>
    simp only [hp] at hc
    obtain ⟨hpermit, hguard, hspawned, hterminal⟩ := hc
    rcases r with _ | (_ | e) | _ | _ | _ <;> simp only [exec, hp, reduceCtorEq] at h
    · cases h
      exact .quiet (by simp [IsoCall.Fits, hpermit, hspawned, hterminal]) rfl rfl rfl
    · cases h
      refine .quiet ?_ rfl rfl rfl
      simp [IsoCall.ret, IsoCall.Fits, hguard, hspawned, hterminal]
  | countSpawned =>
    simp only [hp] at hc
    obtain ⟨hpermit, hguard, hspawned, hterminal⟩ := hc
    cases r <;> simp only [exec, hp, reduceCtorEq] at h
    cases h
    refine ⟨by simp [IsoCall.Fits, hpermit, hguard, hterminal], rfl, ?_, rfl⟩
    -- the process is counted, and from here on the call is one of those spawned
    have h1 : ((1 : U64) : ℕ) = 1 := rfl
    simp only [hspawned, Bool.toNat_true, Bool.toNat_false, Fin.val_add, h1]
    omega
  | takeStdin | takeStdout =>
    simp only [hp] at hc
    obtain ⟨hpermit, hguard, hspawned, hterminal⟩ := hc
    rcases r with _ | (_ | e) | _ | _ | _ <;> simp only [exec, hp, reduceCtorEq] at h
    · cases h
      exact .quiet (by simp [IsoCall.Fits, hpermit, hguard, hspawned, hterminal]) rfl rfl rfl
    · cases h
      exact .ret hpermit hguard hspawned hterminal _
  | hello =>
    simp only [hp] at hc
    obtain ⟨hpermit, hguard, hspawned, hterminal⟩ := hc
    rcases r with _ | (_ | e) | _ | _ | _ <;> simp only [exec, hp, reduceCtorEq] at h
    · cases h
      exact .ret hpermit hguard hspawned hterminal _
    · cases h
      exact .ret hpermit hguard hspawned hterminal _
    · cases h
      exact .quiet (by simp [IsoCall.Fits, hpermit, hguard, hspawned, hterminal]) rfl rfl rfl
    · split at h
      · cases h
        exact .ret hpermit hguard hspawned hterminal _
      · cases h
        exact .quiet (by simp [IsoCall.Fits, hpermit, hguard, hspawned, hterminal]) rfl rfl rfl
  | sequence =>
    simp only [hp] at hc
    obtain ⟨hpermit, hguard, hspawned, hterminal⟩ := hc
    rcases r with _ | (_ | e) | _ | _ | _ <;> simp only [exec, hp, reduceCtorEq] at h
    all_goals
      cases h
      exact .quiet (by simp [IsoCall.Fits, hpermit, hguard, hspawned, hterminal]) rfl rfl rfl
  | count terminal release =>
    simp only [hp] at hc
    obtain ⟨hpermit, hguard, hspawned, hterminal⟩ := hc
    cases r <;> simp only [exec, hp, reduceCtorEq] at h
    cases h
    refine ⟨by simp [IsoCall.Fits, hpermit, hguard, hspawned, hterminal], rfl, by simp, ?_⟩
    -- one of the three terminal counters moves up, and the call has been counted once more
    have hadd := s.stats.terminals_add terminal
    simp only
    omega
  | account release | kill release =>
    simp only [hp] at hc
    obtain ⟨hpermit, hguard, hspawned, hterminal⟩ := hc
    cases r <;> simp only [exec, hp, reduceCtorEq] at h
    cases h
    exact .quiet (by simp [IsoCall.Fits, hpermit, hguard, hspawned, hterminal]) rfl rfl rfl
  | reap release =>
    simp only [hp] at hc
    obtain ⟨hpermit, hguard, hspawned, hterminal⟩ := hc
    cases r <;> simp only [exec, hp, reduceCtorEq] at h
    cases h
    refine .quiet ?_ rfl rfl rfl
    cases release <;> simp [IsoCall.Fits, hpermit, hguard, hspawned, hterminal]
  | release =>
    simp only [hp] at hc
    obtain ⟨hpermit, hguard, hspawned, hterminal⟩ := hc
    cases r <;> simp only [exec, hp, reduceCtorEq] at h
    cases h
    exact ⟨by simp [IsoCall.Fits, hguard, hspawned, hterminal], by simp [hpermit], rfl, rfl⟩
  | dropGuard =>
    simp only [hp] at hc
    cases r <;> simp only [exec, hp, reduceCtorEq] at h
    -- a guard that nobody has accounted for counts as a crash when it is dropped
    obtain ⟨hspawned, ⟨hpermit, hguard, hterminal⟩ | ⟨hguard, hterminal⟩⟩ := hc
    · simp only [hguard, Option.any_some, Bool.false_eq_true, if_false] at h
      cases h
      refine ⟨by simp [IsoCall.Fits, hpermit, hspawned, hterminal], rfl, by simp, ?_⟩
      have hadd := s.stats.terminals_add .killedCrash
      simp only
      omega
    · simp only [hguard, Option.any_some, if_true] at h
      cases h
      exact .quiet (by simp [IsoCall.Fits, hspawned, hterminal]) rfl rfl rfl
  | dropChild =>
    simp only [hp] at hc
    obtain ⟨hspawned, hterminal, -⟩ := hc
    cases r <;> simp only [exec, hp, reduceCtorEq] at h
    cases h
    exact .quiet (by simp [IsoCall.Fits, hspawned, hterminal]) rfl rfl rfl
  | leave =>
    simp only [hp] at hc
    obtain ⟨hguard, hterminal⟩ := hc
    cases r <;> simp only [exec, hp, reduceCtorEq] at h
    cases h
    refine ⟨by simp [IsoCall.Fits, hguard, hterminal], ?_, rfl, rfl⟩
    cases hpermit : c.permit <;> simp
  | ended => simp [exec, hp] at h

/-! ## Every run -/

/-- The number of calls with a property. -/
def number (s : IsoSystem) (p : IsoCall → Bool) : ℕ := (s.calls.map fun c => (p c).toNat).sum

/-- The books of the system: every call stands as its point says, a permit is free or held, and the
counters are what the calls have been counted for. -/
structure Books (s : IsoSystem) : Prop where
  fits : ∀ c ∈ s.calls, c.Fits
  permits : s.permits + s.number (·.permit) = MAX_CONCURRENT
  spawned : s.stats.spawned.val = s.number (·.spawned) % 2 ^ 64
  terminals : s.stats.terminals % 2 ^ 64 = (s.calls.map (·.terminal)).sum % 2 ^ 64

lemma books_new : Books .new := ⟨by simp [new], rfl, rfl, rfl⟩

/-- A call of the list goes on. -/
lemma Books.set {k : ℕ} (h : s.Books) (hk : s.calls[k]? = some c) (hm : s.Moves c c' s') :
    ({ s' with calls := s.calls.set k c' } : IsoSystem).Books := by
  have hpermits := h.permits
  have hspawned := h.spawned
  have hterminals := h.terminals
  simp only [number] at hpermits hspawned
  -- each sum changes by what the one call has changed by
  refine ⟨fun d hd => ?_, ?_, ?_, ?_⟩
  · rcases List.mem_or_eq_of_mem_set hd with hd | rfl
    · exact h.fits d hd
    · exact hm.fits
  · have hset := sum_map_set hk (fun c => c.permit.toNat) c'
    have hmove := hm.permits
    simp only [number]
    omega
  · have hset := sum_map_set hk (fun c => c.spawned.toNat) c'
    have hmove := hm.spawned
    have hlt := s'.stats.spawned.isLt
    simp only [number]
    omega
  · have hset := sum_map_set hk (·.terminal) c'
    have hmove := hm.terminals
    simp only
    omega

/-- A future that awaits can be dropped. -/
lemma drop_moves (hc : c.Fits) (h : c.Awaits) :
    s.Moves c { c with answer := none, point := .dropGuard } s := by
  refine .quiet ?_ rfl rfl rfl
  obtain hp | hp | ⟨b, hp⟩ := h
  all_goals
    simp only [IsoCall.Fits, hp] at hc
    obtain ⟨hpermit, hguard, hspawned, hterminal⟩ := hc
    simp [IsoCall.Fits, hpermit, hguard, hspawned, hterminal]

/-- The books stay in order. -/
lemma Books.step {e : IsoEvent} (hstep : IsoStep s e s') (h : s.Books) : s'.Books := by
  cases e with
  | start hard_timeout =>
    cases hstep
    refine ⟨fun c hc => ?_, ?_, ?_, ?_⟩
    · rcases List.mem_append.mp hc with hc | hc
      · exact h.fits c hc
      · rw [List.mem_singleton.mp hc]
        exact IsoCall.fits_new hard_timeout
    · simpa [number, IsoCall.new] using h.permits
    · simpa [number, IsoCall.new] using h.spawned
    · simpa [IsoCall.new] using h.terminals
  | advance k r =>
    obtain ⟨c, hk, hstep⟩ := Option.bind_eq_some_iff.mp hstep
    obtain ⟨⟨c', t⟩, hexec, rfl⟩ := Option.map_eq_some_iff.mp hstep
    exact h.set hk (exec_moves hexec (h.fits c (List.mem_of_getElem? hk)))
  | drop k =>
    obtain ⟨c, hk, hstep⟩ := Option.bind_eq_some_iff.mp hstep
    have hc := h.fits c (List.mem_of_getElem? hk)
    split at hstep
    case h_1 hp =>
      cases hstep
      exact h.set hk (drop_moves hc (.inl hp))
    case h_2 hp =>
      cases hstep
      exact h.set hk (drop_moves hc (.inr (.inl hp)))
    case h_3 hp =>
      cases hstep
      exact h.set hk (drop_moves hc (.inr (.inr ⟨_, hp⟩)))
    case h_4 => cases hstep

/-- The calls together have been counted for what each of them has been. -/
lemma Books.balance (h : s.Books) : s.number (·.spawned) + s.number (·.between) =
    (s.calls.map (·.terminal)).sum + s.number (·.unaccounted) := by
  unfold number
  rw [← List.sum_map_add, ← List.sum_map_add]
  exact congrArg List.sum (List.map_congr_left fun c hc => (h.fits c hc).balance)

/-- No more processes are alive than there are permits. -/
lemma Books.alive_le (h : s.Books) : s.number (·.aliveGuard) ≤ MAX_CONCURRENT := by
  have hle : s.number (·.aliveGuard) ≤ s.number (·.permit) :=
    List.sum_le_sum fun c hc => (h.fits c hc).alive_le_permit
  have := h.permits
  omega

/-- The ledger, with the calls that stand between a counter and its guard. -/
lemma Books.ledger (h : s.Books) :
    s.stats.spawned + asU64 (s.number (·.between)) = s.stats.killed_timeout + s.stats.killed_crash +
      s.stats.exited_clean + asU64 (s.number (·.unaccounted)) := by
  have hbalance := h.balance
  have hspawned := h.spawned
  have hterminals := h.terminals
  rw [IsoStats.terminals] at hterminals
  refine Fin.ext ?_
  simp only [Fin.val_add, asU64, Fin.val_ofNat]
  omega

end IsoSystem

/-- In every state of every run of calls, whose futures may be dropped where they await: the workers
spawned are the ones counted at their end and the guards that wait to be, where a call that stands
between a counter and its guard is on both sides; every call has been counted at its end as often as
the counters say, and once when it has ended and had spawned a worker; two processes are alive at
most. -/
theorem ledger_balances {tr : List (IsoEvent × IsoSystem)} (h : Run IsoStep .new tr) :
    ∀ t ∈ statesOf .new tr,
      (t.stats.spawned + asU64 (t.number (·.between)) =
        t.stats.killed_timeout + t.stats.killed_crash + t.stats.exited_clean +
          asU64 (t.number (·.unaccounted))) ∧
      ((∀ c ∈ t.calls, c.between = false) →
        t.stats.spawned = t.stats.killed_timeout + t.stats.killed_crash + t.stats.exited_clean +
          asU64 (t.number (·.unaccounted))) ∧
      t.stats.terminals % 2 ^ 64 = (t.calls.map (·.terminal)).sum % 2 ^ 64 ∧
      (∀ c ∈ t.calls, c.point = .ended → c.spawned = true → c.terminal = 1) ∧
      t.number (·.aliveGuard) ≤ 2 := by
  have hbooks : ∀ t ∈ statesOf .new tr, t.Books :=
    h.invariant (along_true _ tr) IsoSystem.books_new fun _ _ _ hs _ hb => hb.step hs
  intro t ht
  have hb := hbooks t ht
  refine ⟨hb.ledger, fun hbetween => ?_, hb.terminals, fun c hc hend hspawned => ?_, hb.alive_le⟩
  · have hzero : t.number (·.between) = 0 := by
      refine List.sum_eq_zero fun n hn => ?_
      obtain ⟨c, hc, rfl⟩ := List.mem_map.mp hn
      simp [hbetween c hc]
    have hledger := hb.ledger
    rw [hzero] at hledger
    rw [← hledger]
    exact (Fin.add_zero _).symm
  · rw [(hb.fits c hc).ended hend, hspawned]
    rfl

/-- Three calls: the first is dropped while it awaits the hello frame, the second runs out of its
time there and is dropped while its process is reaped, the third finds no permit. -/
def droppedCalls : List IsoEvent :=
  [.start 4, .start 4, .start 4, .advance 0 .done, .advance 1 .done, .advance 2 .done,
    .advance 0 .done, .advance 1 .done, .advance 0 .done, .advance 1 .done, .advance 0 .done,
    .advance 0 .done, .advance 1 .done, .advance 1 .done, .drop 0, .advance 0 .done,
    .advance 1 .timedOut, .advance 0 .done, .advance 0 .done, .advance 1 .done, .advance 1 .done,
    .advance 1 .done, .drop 1, .advance 1 .done, .advance 1 .done, .advance 1 .done]

theorem ledger_balances_dropped :
    Run IsoStep .new (follow IsoSystem.act .new droppedCalls) ∧
      (follow IsoSystem.act .new droppedCalls).length = droppedCalls.length ∧
      (lastOf .new (follow IsoSystem.act .new droppedCalls)).stats = ⟨2, 1, 1, 0, 1⟩ ∧
      ∀ t ∈ statesOf .new (follow IsoSystem.act .new droppedCalls), t.number (·.aliveGuard) ≤ 2 :=
  ⟨follow_run _ _ _, by decide +kernel, by decide +kernel,
    fun t ht => (ledger_balances (follow_run _ _ _) t ht).2.2.2.2⟩

end ReverseMcp
