import ReverseMcp.Rust.Json

/-!
# The unified error type

`rmcp_core::error::Error` with its `Display` texts and its stable codes.
-/

namespace ReverseMcp

open Rust

/-- `rmcp_core::error::Error`; the payload of `Io` is the text of the I/O error. -/
inductive Error where
  | idaNotFound (s : String)
  | idaVersionMismatch (found detail : String)
  | config (s : String)
  | capabilityUnavailable (capability reason : String)
  | unknownDb (handle : String)
  | dbAmbiguous (count : ℕ) (candidates : String)
  | unknownResult (handle : String)
  | revisionConflict (expected current : U64)
  | worker (s : String)
  | ipc (s : String)
  | io (s : String)
deriving DecidableEq

namespace Error

/-- `Error::code`. -/
def code : Error → String
  | idaNotFound _ => "ida_not_found"
  | idaVersionMismatch _ _ => "ida_version_mismatch"
  | config _ => "config"
  | capabilityUnavailable _ _ => "capability_unavailable"
  | unknownDb _ => "unknown_db"
  | dbAmbiguous _ _ => "db_ambiguous"
  | unknownResult _ => "unknown_result"
  | revisionConflict _ _ => "revision_conflict"
  | worker _ => "worker_failure"
  | ipc _ => "ipc_failure"
  | io _ => "io"

/-- `Display` of an error. -/
def text : Error → String
  | idaNotFound s => s!"ida not found: {s}"
  | idaVersionMismatch found detail =>
    s!"ida version mismatch: found {found}, require 9.2.x: {detail}"
  | config s => s!"config error: {s}"
  | capabilityUnavailable capability reason =>
    s!"capability unavailable: {capability}: {reason}"
  | unknownDb handle => s!"db handle '{handle}' is unknown or closed"
  | dbAmbiguous count candidates =>
    s!"db handle omitted and {count} DBs are open; specify one of: {candidates}"
  | unknownResult handle => s!"result handle '{handle}' is unknown or expired"
  | revisionConflict expected current =>
    s!"revision conflict: expected {expected.val}, current {current.val}"
  | worker s => s!"worker failure: {s}"
  | ipc s => s!"ipc failure: {s}"
  | io s => s!"io: {s}"

end Error

/-- `rmcp_core::error::Result`. -/
abbrev Result (α : Type) : Type := Outcome Error α

/-- `Err(Error::Worker(..))`. -/
def fail {α : Type} (s : String) : Result α := .err (.worker s)

@[simp] lemma fail_returns {α : Type} (s : String) : (fail s : Result α).Returns := trivial

/-- `if c { return Err(Error::Worker(..)) }`. -/
def failIf (c : Prop) [Decidable c] (s : String) : Result Unit := Outcome.errIf c (.worker s)

lemma failIf_eq_ok {c : Prop} [Decidable c] {s : String} {u : Unit} :
    failIf c s = .ok u ↔ ¬ c := Outcome.errIf_eq_ok

@[simp] lemma failIf_returns (c : Prop) [Decidable c] (s : String) : (failIf c s).Returns :=
  Outcome.errIf_returns _ _

/-- A parsed integer, or the worker error built from the parser's text. -/
def ofParse {α : Type} (message : String → String) : Except ParseIntError α → Result α
  | .ok v => .ok v
  | .error e => fail (message e.text)

@[simp] lemma ofParse_returns {α : Type} (message : String → String)
    (x : Except ParseIntError α) : (ofParse message x).Returns := by
  cases x <;> simp [ofParse]

lemma ofParse_eq_ok {α : Type} {message : String → String} {x : Except ParseIntError α} {a : α} :
    ofParse message x = .ok a ↔ x = .ok a := by
  cases x <;> simp [ofParse, fail]

end ReverseMcp
