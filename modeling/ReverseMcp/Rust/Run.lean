import Mathlib.Data.List.Chain
import Mathlib.Tactic.Lemma
import Mathlib.Tactic.Common

/-!
# Runs of a transition system

A system is a relation `step s e s'`: in state `s` the event `e` leads to `s'`.  A run is a list
of events with the states they lead to.  The file has the rules that turn a fact about one
step into a fact about whole runs:

* `Run.invariant` – an invariant kept by every step that meets a condition holds in every state
  of a run whose steps all meet it;
* `Run.throughout` – so does what the invariant gives for every step;
* `Run.pairwise`, `Run.pairwise_of_invariant` – a transitive relation between the ends of every
  step relates any two states of a run, the earlier to the later one.
-/

namespace ReverseMcp.Rust

variable {σ ε : Type}

/-- `Run step s tr`: from `s`, the events of `tr` lead in turn to the states of `tr`. -/
inductive Run (step : σ → ε → σ → Prop) : σ → List (ε × σ) → Prop
  | nil (s : σ) : Run step s []
  | cons {s s' : σ} {e : ε} {tr : List (ε × σ)} (h : step s e s') (t : Run step s' tr) :
      Run step s ((e, s') :: tr)

/-- The states of a run, the first one included. -/
def statesOf (s : σ) (tr : List (ε × σ)) : List σ := s :: tr.map Prod.snd

/-- The last state of a run. -/
def lastOf (s : σ) : List (ε × σ) → σ
  | [] => s
  | (_, s') :: tr => lastOf s' tr

@[simp] lemma lastOf_nil (s : σ) : lastOf s ([] : List (ε × σ)) = s := rfl

@[simp] lemma lastOf_cons (s s' : σ) (e : ε) (tr : List (ε × σ)) :
    lastOf s ((e, s') :: tr) = lastOf s' tr := rfl

lemma lastOf_append (s : σ) (tr tr' : List (ε × σ)) :
    lastOf s (tr ++ tr') = lastOf (lastOf s tr) tr' := by
  induction tr generalizing s with
  | nil => rfl
  | cons p tr ih => exact ih p.2

lemma lastOf_mem (s : σ) (tr : List (ε × σ)) : lastOf s tr ∈ statesOf s tr := by
  induction tr generalizing s with
  | nil => exact List.mem_singleton_self s
  | cons p tr ih => exact List.mem_cons_of_mem s (ih p.2)

/-- Every step of the run meets the condition, which sees the state before the step. -/
def Along (C : σ → ε → Prop) : σ → List (ε × σ) → Prop
  | _, [] => True
  | s, (e, s') :: tr => C s e ∧ Along C s' tr

@[simp] lemma along_nil (C : σ → ε → Prop) (s : σ) : Along C s [] := trivial

@[simp] lemma along_cons {C : σ → ε → Prop} {s s' : σ} {e : ε} {tr : List (ε × σ)} :
    Along C s ((e, s') :: tr) ↔ C s e ∧ Along C s' tr := Iff.rfl

/-- A run without a condition. -/
lemma along_true (s : σ) (tr : List (ε × σ)) : Along (fun _ _ => True) s tr := by
  induction tr generalizing s with
  | nil => trivial
  | cons p tr ih => exact ⟨trivial, ih p.2⟩

instance {C : σ → ε → Prop} [∀ s e, Decidable (C s e)] :
    (s : σ) → (tr : List (ε × σ)) → Decidable (Along C s tr)
  | _, [] => isTrue trivial
  | _, (_, s') :: tr =>
    letI : Decidable (Along C s' tr) := instDecidableAlong s' tr
    inferInstanceAs (Decidable (_ ∧ _))

/-- A condition that does not look at the states holds along a run iff it holds of its events. -/
lemma Along.and_forall {C : σ → ε → Prop} {P : ε → Prop} {s : σ} {tr : List (ε × σ)}
    (h : Along C s tr) (hP : ∀ e ∈ tr, P e.1) : Along (fun s e => C s e ∧ P e) s tr := by
  induction tr generalizing s with
  | nil => trivial
  | cons p tr ih =>
    exact ⟨⟨h.1, hP p (by simp)⟩, ih h.2 fun e he => hP e (by simp [he])⟩

/-- A run that is continued meets the condition if both of its parts do. -/
lemma Along.append {C : σ → ε → Prop} {s : σ} {tr tr' : List (ε × σ)} (h : Along C s tr)
    (h' : Along C (lastOf s tr) tr') : Along C s (tr ++ tr') := by
  induction tr generalizing s with
  | nil => exact h'
  | cons p tr ih => exact ⟨h.1, ih h.2 h'⟩

/-- Every step of the run has the property, which sees the states before and after the step. -/
def Throughout (Q : σ → ε → σ → Prop) : σ → List (ε × σ) → Prop
  | _, [] => True
  | s, (e, s') :: tr => Q s e s' ∧ Throughout Q s' tr

instance {Q : σ → ε → σ → Prop} [∀ s e s', Decidable (Q s e s')] :
    (s : σ) → (tr : List (ε × σ)) → Decidable (Throughout Q s tr)
  | _, [] => isTrue trivial
  | _, (_, s') :: tr =>
    letI : Decidable (Throughout Q s' tr) := instDecidableThroughout s' tr
    inferInstanceAs (Decidable (_ ∧ _))

namespace Run

variable {step : σ → ε → σ → Prop}

lemma append {s : σ} {tr tr' : List (ε × σ)} (h : Run step s tr)
    (h' : Run step (lastOf s tr) tr') : Run step s (tr ++ tr') := by
  induction h with
  | nil s => exact h'
  | cons hs _ ih => exact .cons hs (ih h')

/-- What comes before an event of a run is a run, and the event is a step from its last state. -/
lemma split {s s' : σ} {e : ε} {tr tr' : List (ε × σ)} (h : Run step s (tr ++ (e, s') :: tr')) :
    Run step s tr ∧ step (lastOf s tr) e s' := by
  induction tr generalizing s with
  | nil =>
    cases h with
    | cons hs _ => exact ⟨.nil s, hs⟩
  | cons p tr ih =>
    cases h with
    | cons hs ht =>
      obtain ⟨hrun, hstep⟩ := ih ht
      exact ⟨.cons hs hrun, hstep⟩

/-- An invariant holds in every state of a run whose steps meet the condition. -/
theorem invariant {C : σ → ε → Prop} {I : σ → Prop} {s : σ} {tr : List (ε × σ)}
    (h : Run step s tr) (hC : Along C s tr) (h0 : I s)
    (hI : ∀ s e s', step s e s' → C s e → I s → I s') : ∀ t ∈ statesOf s tr, I t := by
  induction h with
  | nil s => simpa [statesOf] using h0
  | cons hs _ ih =>
    obtain ⟨hc, hC⟩ := hC
    intro t ht
    rcases List.mem_cons.mp ht with rfl | ht
    · exact h0
    · exact ih hC (hI _ _ _ hs hc h0) t ht

/-- What an invariant gives for one step holds throughout a run. -/
theorem throughout {C : σ → ε → Prop} {I : σ → Prop} {Q : σ → ε → σ → Prop} {s : σ}
    {tr : List (ε × σ)} (h : Run step s tr) (hC : Along C s tr) (h0 : I s)
    (hI : ∀ s e s', step s e s' → C s e → I s → I s')
    (hQ : ∀ s e s', step s e s' → C s e → I s → Q s e s') : Throughout Q s tr := by
  induction h with
  | nil s => trivial
  | cons hs _ ih =>
    exact ⟨hQ _ _ _ hs hC.1 h0, ih hC.2 (hI _ _ _ hs hC.1 h0)⟩

/-- A relation between the ends of every step relates neighbouring states. -/
lemma chain {C : σ → ε → Prop} {R : σ → σ → Prop} {s : σ} {tr : List (ε × σ)}
    (h : Run step s tr) (hC : Along C s tr) (hR : ∀ s e s', step s e s' → C s e → R s s') :
    List.IsChain R (statesOf s tr) := by
  induction h with
  | nil s => simp [statesOf]
  | cons hs _ ih => exact List.IsChain.cons_cons (hR _ _ _ hs hC.1) (ih hC.2)

/-- A run whose states all have a property is a run of the steps between such states. -/
lemma restrict {P : σ → Prop} {s : σ} {tr : List (ε × σ)} (h : Run step s tr)
    (hP : ∀ t ∈ statesOf s tr, P t) : Run (fun s e s' => step s e s' ∧ P s ∧ P s') s tr := by
  induction h with
  | nil s => exact .nil s
  | @cons s s' e tr hs _ ih =>
    have htail : ∀ t ∈ statesOf s' tr, P t := fun t ht => hP t (List.mem_cons_of_mem s ht)
    exact .cons ⟨hs, hP s (by simp [statesOf]), htail s' (by simp [statesOf])⟩ (ih htail)

/-- Every event of a run is a step to the state behind it. -/
lemma step_of_mem {s : σ} {tr : List (ε × σ)} (h : Run step s tr) {p : ε × σ} (hp : p ∈ tr) :
    ∃ t, step t p.1 p.2 := by
  induction h with
  | nil s => simp at hp
  | cons hs _ ih =>
    rcases List.mem_cons.mp hp with rfl | hp
    · exact ⟨_, hs⟩
    · exact ih hp

/-- A transitive relation between the ends of every step that starts in the invariant relates any
two states of a run. -/
theorem pairwise_of_invariant {C : σ → ε → Prop} {I : σ → Prop} {R : σ → σ → Prop} [IsTrans σ R]
    {s : σ} {tr : List (ε × σ)} (h : Run step s tr) (hC : Along C s tr) (h0 : I s)
    (hI : ∀ s e s', step s e s' → C s e → I s → I s')
    (hR : ∀ s e s', step s e s' → C s e → I s → R s s') : (statesOf s tr).Pairwise R := by
  refine List.isChain_iff_pairwise.mp ?_
  induction h with
  | nil s => simp [statesOf]
  | cons hs _ ih =>
    exact List.IsChain.cons_cons (hR _ _ _ hs hC.1 h0) (ih hC.2 (hI _ _ _ hs hC.1 h0))

/-- A transitive relation between the ends of every step relates any two states of a run. -/
theorem pairwise {C : σ → ε → Prop} {R : σ → σ → Prop} [IsTrans σ R] {s : σ}
    {tr : List (ε × σ)} (h : Run step s tr) (hC : Along C s tr)
    (hR : ∀ s e s', step s e s' → C s e → R s s') : (statesOf s tr).Pairwise R :=
  List.isChain_iff_pairwise.mp (h.chain hC hR)

end Run

/-! ## Running a step function -/

/-- The events one after the other, up to the first that cannot happen. -/
def follow (act : σ → ε → Option σ) (s : σ) : List ε → List (ε × σ)
  | [] => []
  | e :: es =>
    match act s e with
    | some s' => (e, s') :: follow act s' es
    | none => []

lemma follow_run (act : σ → ε → Option σ) (s : σ) (es : List ε) :
    Run (fun s e s' => act s e = some s') s (follow act s es) := by
  induction es generalizing s with
  | nil => exact .nil s
  | cons e es ih =>
    rw [follow]
    split
    · rename_i s' h
      exact .cons h (ih s')
    · exact .nil s

/-- The events that have happened are the first ones. -/
lemma follow_events (act : σ → ε → Option σ) (s : σ) (es : List ε) :
    (follow act s es).map Prod.fst <+: es := by
  induction es generalizing s with
  | nil => exact List.prefix_rfl
  | cons e es ih =>
    rw [follow]
    split
    · rename_i s' h
      exact (List.prefix_cons_inj e).mpr (ih s')
    · exact List.nil_prefix

end ReverseMcp.Rust
