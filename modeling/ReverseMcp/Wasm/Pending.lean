import ReverseMcp.Wasm.Footprint

/-!
# Expressions that are still to be printed

The expressions on the stack of `render`, each with the value that the operand stack has in its
place.  They are evaluated where they are printed; `Gives` says that they have their values there.
Two groups can be evaluated in either order unless one calls and the other depends on globals,
memory or calls (`Gives.swap`).
-/

namespace ReverseMcp.Wasm

open Rust

/-- An expression on the stack, the value it stands for, and whether it is known to have that value
no more. -/
structure Pending where
  expr : Expr
  value : Value
  stale : Bool

/-- What expressions depend on together. -/
def depends (ps : List Pending) : Footprint := footAll (ps.map Pending.expr)

section Depends

variable {ps qs : List Pending} {p : Pending}

@[simp] lemma depends_cons : depends (p :: ps) = p.expr.foot.union (depends ps) := rfl

@[simp] lemma depends_nil : depends [] = .none := rfl

lemma depends_call : (depends ps).call = true ↔ ∃ p ∈ ps, p.expr.foot.call = true := by
  induction ps with
  | nil => simp
  | cons p ps ih => simp [ih]

lemma depends_call_eq_false :
    (depends ps).call = false ↔ ∀ p ∈ ps, p.expr.foot.call = false := by
  rw [← Bool.not_eq_true, depends_call]
  simp

lemma depends_shared : (depends ps).shared = true ↔ ∃ p ∈ ps, p.expr.foot.shared = true := by
  induction ps with
  | nil => simp
  | cons p ps ih => simp [ih]

lemma mem_depends_locals {i : U32} :
    i ∈ (depends ps).locals ↔ ∃ p ∈ ps, i ∈ p.expr.foot.locals := by
  induction ps with
  | nil => simp
  | cons p ps ih => simp [ih]

lemma depends_agree {σ τ : Frame} (h : ∀ p ∈ ps, p.expr.foot.Agree σ τ) :
    (depends ps).Agree σ τ := by
  induction ps with
  | nil => exact Footprint.agree_none
  | cons p ps ih => exact (h p (by simp)).union (ih fun q hq => h q (by simp [hq]))

end Depends

/-- Evaluated from left to right, the expressions have their values. -/
def Gives (I : Instance) (ps : List Pending) (σ τ : Frame) : Prop :=
  evalAll I (ps.map Pending.expr) σ = some (ps.map Pending.value, τ)

namespace Gives

variable {I : Instance} {ps qs : List Pending} {p : Pending} {σ τ ρ : Frame}

@[simp] lemma nil_iff : Gives I [] σ τ ↔ τ = σ := by
  simp [Gives, evalAll, @eq_comm _ σ]

lemma cons_iff : Gives I (p :: ps) σ τ ↔
    ∃ ρ, p.expr.eval I σ = some (p.value, ρ) ∧ Gives I ps ρ τ := by
  simp only [Gives, List.map_cons, evalAll, Option.bind_eq_bind, Option.bind_eq_some_iff]
  constructor
  · rintro ⟨⟨v, ρ⟩, hv, ⟨vs, ρ'⟩, hvs, h⟩
    cases h
    exact ⟨ρ, hv, hvs⟩
  · rintro ⟨ρ, hv, hvs⟩
    exact ⟨_, hv, _, hvs, rfl⟩

lemma append_iff : Gives I (ps ++ qs) σ τ ↔ ∃ ρ, Gives I ps σ ρ ∧ Gives I qs ρ τ := by
  induction ps generalizing σ with
  | nil => simp
  | cons p ps ih =>
    simp only [List.cons_append, cons_iff, ih]
    constructor
    · rintro ⟨ρ, hp, ρ', hps, hqs⟩
      exact ⟨ρ', ⟨ρ, hp, hps⟩, hqs⟩
    · rintro ⟨ρ', ⟨ρ, hp, hps⟩, hqs⟩
      exact ⟨ρ, hp, ρ', hps, hqs⟩

/-- Without calls nothing changes. -/
lemma pure (h : Gives I ps σ τ) (hcall : (depends ps).call = false) : τ = σ := by
  have hagree : (depends ps).Agree σ σ := ⟨fun _ _ => rfl, fun _ _ => rfl, fun _ => rfl⟩
  exact (evalAll_frame I hcall hagree h).1

/-- Without calls the values are the same where the footprint looks the same. -/
lemma frame (h : Gives I ps σ τ) (hcall : (depends ps).call = false)
    (hagree : (depends ps).Agree σ ρ) : Gives I ps ρ ρ :=
  (evalAll_frame I hcall hagree h).2

lemma locals (h : Gives I ps σ τ) : τ.locals = σ.locals := evalAll_locals I h

lemma put (h : Gives I ps σ τ) {i : U32} (x : Value) (hi : i ∉ (depends ps).locals) :
    Gives I ps (σ.put i.val x) (τ.put i.val x) :=
  evalAll_put I x hi h

/-- Expressions without calls can be left out. -/
lemma filter {keep : Pending → Bool} (hpure : ∀ p ∈ ps, keep p = false → p.expr.foot.call = false)
    (h : Gives I ps σ τ) : Gives I (ps.filter keep) σ τ := by
  induction ps generalizing σ with
  | nil => exact h
  | cons p ps ih =>
    obtain ⟨ρ, hp, hps⟩ := cons_iff.mp h
    have hrest : Gives I (ps.filter keep) ρ τ := ih (fun q hq => hpure q (by simp [hq])) hps
    cases hkeep : keep p with
    | true =>
      rw [List.filter_cons_of_pos hkeep]
      exact cons_iff.mpr ⟨ρ, hp, hrest⟩
    | false =>
      have hone : Gives I [p] σ ρ := cons_iff.mpr ⟨ρ, hp, nil_iff.mpr rfl⟩
      have hρ : ρ = σ := hone.pure (by simp [hpure p (by simp) hkeep])
      rw [List.filter_cons_of_neg (by simp [hkeep]), ← hρ]
      exact hrest

/-- What depends on locals only can be evaluated before or after the rest. -/
lemma swap (h : Gives I (ps ++ qs) σ τ)
    (hqs : (depends qs).call = true → (depends ps).shared = false)
    (hps : (depends ps).call = true → (depends qs).shared = false) : Gives I (qs ++ ps) σ τ := by
  obtain ⟨ρ, hp, hq⟩ := append_iff.mp h
  refine append_iff.mpr ?_
  by_cases hpcall : (depends ps).call = true
  · -- `qs` depends on locals only
    have hshared := hps hpcall
    have hqcall : (depends qs).call = false := Footprint.call_of_shared hshared
    obtain rfl := hq.pure hqcall
    exact ⟨σ, hq.frame hqcall (Footprint.agree_of_locals hshared hp.locals), hp⟩
  · have hpcall : (depends ps).call = false := by simpa using hpcall
    obtain rfl := hp.pure hpcall
    refine ⟨τ, hq, ?_⟩
    by_cases hqcall : (depends qs).call = true
    · exact hp.frame hpcall (Footprint.agree_of_locals (hqs hqcall) hq.locals.symm)
    · obtain rfl := hq.pure (by simpa using hqcall)
      exact hp

end Gives

end ReverseMcp.Wasm
