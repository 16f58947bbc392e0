import ReverseMcp.Ida.Totality
import ReverseMcp.Worker.Effects

/-!
# Failed transforms

`deob.apply` checks the guard before it takes its snapshot, but parses the operations only after
it.  So a plan whose operations do not parse is rejected and leaves the snapshot on the stack, and
the next restore pops that snapshot in place of the caller's.  Every other rejection leaves the
backend as it was.
-/

namespace ReverseMcp

open Rust

namespace Transforms

section Host

variable [Host] {plan : Json} {expected_revision : Option U64} {s : WorkerState}

/-- A call that is rejected leaves the backend as it was: the content, the revision and the
snapshot stack. -/
def FailsAtomically (plan : Json) (expected_revision : Option U64) (s : WorkerState) : Prop :=
  ∀ e s', apply plan expected_revision s = .err e s' → s'.backend = s.backend

/-- Behind the snapshot, operations that do not parse are the only reason for a rejection. -/
lemma applyPushed_eq_err {ops_json : List Json} {target : U64} {snapshot : Json}
    {b : MockBackend} {e : Error} {s s' : WorkerState}
    (h : applyPushed plan ops_json target snapshot b s = .err e s') :
    Plan.parse_operations ops_json = .err e ∧ s' = s := by
  rw [applyPushed] at h
  obtain ⟨he, -⟩ | ⟨before, -, h⟩ := Action.lift_bind_eq_err.mp h
  · exact absurd he (Outcome.ok?_ne_err _ _)
  obtain he | ⟨ops, -, h⟩ := Action.lift_bind_eq_err.mp h
  · exact he
  -- the operations parse, and nothing behind them is an error
  rw [Action.get_bind] at h
  obtain ⟨he, -⟩ | ⟨⟨applied, b', audit⟩, -, h⟩ := Action.lift_bind_eq_err.mp h
  · exact absurd he (Plan.apply_ne_err _ _ _ _)
  dsimp only at h
  rw [Action.modify_bind] at h
  obtain ⟨he, -⟩ | ⟨after, -, h⟩ := Action.lift_bind_eq_err.mp h
  · exact absurd he (Outcome.ok?_ne_err _ _)
  obtain ⟨he, -⟩ | ⟨cfg, -, h⟩ := Action.lift_bind_eq_err.mp h
  · exact absurd he (Outcome.ok?_ne_err _ _)
  cases h

/-- Behind the snapshot, operations that do not parse are rejected, provided that the
decompilation in front of them returns. -/
lemma applyPushed_of_err {ops_json : List Json} {target : U64} {snapshot : Json}
    {b : MockBackend} {e : Error} {s : WorkerState} (hret : (b.decompile target).Returns)
    (hops : Plan.parse_operations ops_json = .err e) :
    applyPushed plan ops_json target snapshot b s = .err e s := by
  rw [applyPushed]
  cases hd : b.decompile target with
  | ok v => simp [Outcome.ok?, Action.lift_bind, hops]
  | err e' => simp [Outcome.ok?, Action.lift_bind, hops]
  | panic p => simp [hd] at hret

/-- The call is rejected without a trace exactly when it does not get as far as the snapshot, its
operations parse, or the decompilation behind the snapshot panics, so that there is no rejection
at all. -/
theorem fails_atomically_iff : FailsAtomically plan expected_revision s ↔
    ∀ b, s.backend = some b → TakesSnapshot plan expected_revision b →
      (Plan.parse_operations (Deep.items plan "operations")).isOk = true ∨
        (b.decompile_off = false ∧ ¬ b.EndsInRange) := by
  constructor
  · intro h b hb ht
    by_contra hcon
    obtain ⟨hparse, hret⟩ := not_or.mp hcon
    obtain ⟨target, snapshot, happly⟩ := apply_of_takesSnapshot hb ht
    have hdec : (b.pushed.decompile target).Returns := by
      rw [MockBackend.decompile_returns_iff]
      by_contra hpanic
      obtain ⟨hoff, hopen⟩ := not_or.mp hpanic
      exact hret ⟨by simpa [MockBackend.pushed] using hoff, (not_or.mp hopen).2⟩
    cases hops : Plan.parse_operations (Deep.items plan "operations") with
    | ok ops => simp [hops, Outcome.isOk] at hparse
    | panic p => simpa [hops] using Plan.parse_operations_returns (Deep.items plan "operations")
    | err e =>
      have hs := h e _ (happly.trans (applyPushed_of_err hdec hops))
      -- the stack has grown by the snapshot
      rw [hb, Option.some.injEq] at hs
      have hlen := congrArg (fun b : MockBackend => b.snapshots.length) hs
      simp [MockBackend.pushed] at hlen
  · intro h e s' happly
    cases hb : s.backend with
    | none =>
      have hs : s' = s := apply_leaves_of_none hb (by rw [happly]; rfl)
      rw [hs, hb]
    | some b =>
      by_cases ht : TakesSnapshot plan expected_revision b
      · obtain ⟨target, snapshot, hpushed⟩ := apply_of_takesSnapshot hb ht
        rw [hpushed] at happly
        have hdec : (b.pushed.decompile target).Returns := by
          by_contra hpanic
          rw [applyPushed] at happly
          cases hd : b.pushed.decompile target with
          | ok v => simp [hd] at hpanic
          | err e' => simp [hd] at hpanic
          | panic p => simp [hd, Outcome.ok?, Action.lift_bind] at happly
        obtain ⟨herr, -⟩ := applyPushed_eq_err happly
        rcases h b hb ht with hparse | ⟨hoff, hends⟩
        · simp [herr, Outcome.isOk] at hparse
        · rcases MockBackend.decompile_returns_iff.mp hdec with h₁ | h₁ | h₁
          · simp [MockBackend.pushed, hoff] at h₁
          · have hopen := ht.2.2.2
            rw [show b.open_path = none from h₁] at hopen
            cases hopen
          · exact absurd h₁ hends
      · obtain ⟨e', he'⟩ := apply_of_not_takesSnapshot hb ht
        rw [he'] at happly
        cases happly
        exact hb

end Host

/-- A plan whose operation has no address is rejected behind the snapshot. -/
theorem fails_atomically_not : ¬ @FailsAtomically (Host.ascii true)
    (.object [("target", "0x401000"), ("operations", .array [.object [("kind", "func.delete")]])])
    none opened := by
  intro h
  have hstate := h (.worker "op 0: missing 'ea'") _ (by rfl)
  exact absurd hstate (by decide +kernel)

end Transforms

end ReverseMcp
