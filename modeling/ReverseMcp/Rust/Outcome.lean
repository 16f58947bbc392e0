import Mathlib.Tactic.Lemma
import Mathlib.Tactic.Common
import Mathlib.Order.Defs.Unbundled

/-!
# Results, panics and stateful calls

A Rust function that returns a `Result` can end in three ways: with a value, with an error
value, or with a panic.  `Outcome ε α` is that trichotomy, with the monad that `?` denotes.
A function that also owns a `&mut` state is an `Action ε σ α`: on a value *and on an error*
the state it leaves behind is observable, while a panic leaves nothing.

The file states the inversion rules of both monads once (`bind_eq_ok`, `bind_returns`, …);
every proof about a computation built with `do` peels it apart with these.
-/

namespace ReverseMcp.Rust

/-- The ways in which a Rust computation can fail to return. -/
inductive Panic where
  /-- An addition on a fixed-width integer overflowed with overflow checks on. -/
  | overflow
  /-- `expect` or `unwrap` on an absent value. -/
  | expect
  /-- A string slice whose end is not a character boundary. -/
  | boundary
  /-- Indexing a map or a slice at an absent position. -/
  | index
  /-- Cutting a slice into chunks of size zero. -/
  | chunk
  /-- A `while` loop went past the bound the model gives it. -/
  | loop
deriving DecidableEq, Repr

/-- The ways in which a call can end. -/
inductive Outcome (ε α : Type) where
  | ok (a : α)
  | err (e : ε)
  | panic (p : Panic)
deriving DecidableEq, Repr

namespace Outcome

variable {ε α β γ : Type}

/-- Sequencing with `?`: errors and panics are passed on. -/
protected def bind (x : Outcome ε α) (f : α → Outcome ε β) : Outcome ε β :=
  match x with
  | ok a => f a
  | err e => err e
  | panic p => panic p

instance : Monad (Outcome ε) where
  pure := ok
  bind := Outcome.bind

@[simp] lemma pure_eq (a : α) : (pure a : Outcome ε α) = ok a := rfl

@[simp] lemma ok_bind (a : α) (f : α → Outcome ε β) : ok a >>= f = f a := rfl

@[simp] lemma err_bind (e : ε) (f : α → Outcome ε β) : err e >>= f = err e := rfl

@[simp] lemma panic_bind (p : Panic) (f : α → Outcome ε β) :
    (panic p : Outcome ε α) >>= f = panic p := rfl

instance : LawfulMonad (Outcome ε) :=
  LawfulMonad.mk' (Outcome ε) (fun x => by cases x <;> rfl) (fun _ _ => rfl)
    (fun x _ _ => by cases x <;> rfl)

/-- Inversion of a successful sequence. -/
lemma bind_eq_ok {x : Outcome ε α} {f : α → Outcome ε β} {b : β} :
    x >>= f = ok b ↔ ∃ a, x = ok a ∧ f a = ok b := by
  cases x <;> simp

/-- Inversion of a failed sequence. -/
lemma bind_eq_err {x : Outcome ε α} {f : α → Outcome ε β} {e : ε} :
    x >>= f = err e ↔ x = err e ∨ ∃ a, x = ok a ∧ f a = err e := by
  cases x <;> simp

/-- The call returns: it ends with a value or an error. -/
def Returns : Outcome ε α → Prop
  | panic _ => False
  | _ => True

instance : DecidablePred (Returns (ε := ε) (α := α))
  | ok _ => isTrue trivial
  | err _ => isTrue trivial
  | panic _ => isFalse id

@[simp] lemma returns_ok (a : α) : (ok a : Outcome ε α).Returns := trivial

@[simp] lemma returns_err (e : ε) : (err e : Outcome ε α).Returns := trivial

@[simp] lemma not_returns_panic (p : Panic) : ¬ (panic p : Outcome ε α).Returns := id

/-- `Result::is_ok`. -/
def isOk : Outcome ε α → Bool
  | ok _ => true
  | _ => false

lemma isOk_iff {x : Outcome ε α} : x.isOk = true ↔ ∃ a, x = ok a := by
  cases x <;> simp [isOk]

@[simp] lemma isOk_ok (a : α) : (ok a : Outcome ε α).isOk = true := rfl

@[simp] lemma isOk_err (e : ε) : (err e : Outcome ε α).isOk = false := rfl

@[simp] lemma isOk_panic (p : Panic) : (panic p : Outcome ε α).isOk = false := rfl

lemma isOk_bind {x : Outcome ε α} {f : α → Outcome ε β} :
    (x >>= f).isOk = true ↔ ∃ a, x = ok a ∧ (f a).isOk = true := by
  cases x <;> simp

lemma isOk_bind_unit {x : Outcome ε Unit} {y : Outcome ε β} :
    (x >>= fun _ => y).isOk = true ↔ x = ok () ∧ y.isOk = true := by
  cases x <;> simp

/-- A sequence returns when its first part does and every continuation does. -/
lemma bind_returns {x : Outcome ε α} {f : α → Outcome ε β} :
    (x >>= f).Returns ↔ x.Returns ∧ ∀ a, x = ok a → (f a).Returns := by
  cases x <;> simp

lemma Returns.bind {x : Outcome ε α} {f : α → Outcome ε β} (hx : x.Returns)
    (hf : ∀ a, x = ok a → (f a).Returns) : (x >>= f).Returns :=
  bind_returns.mpr ⟨hx, hf⟩

/-- `if c { return Err(e) }`. -/
def errIf (c : Prop) [Decidable c] (e : ε) : Outcome ε Unit := if c then err e else ok ()

lemma errIf_eq_ok {c : Prop} [Decidable c] {e : ε} {u : Unit} : errIf c e = ok u ↔ ¬ c := by
  rw [errIf]
  split <;> simp_all

@[simp] lemma errIf_returns (c : Prop) [Decidable c] (e : ε) : (errIf c e).Returns := by
  rw [errIf]
  split <;> simp

/-- `Option::ok_or_else`. -/
def ofOption (e : ε) : Option α → Outcome ε α
  | some a => ok a
  | none => err e

@[simp] lemma ofOption_returns (e : ε) (o : Option α) : (ofOption e o).Returns := by
  cases o <;> simp [ofOption]

lemma ofOption_eq_ok {e : ε} {o : Option α} {a : α} : ofOption e o = ok a ↔ o = some a := by
  cases o <;> simp [ofOption]

/-- The value of a call that ended with one. -/
def value? : Outcome ε α → Option α
  | ok a => some a
  | _ => none

@[simp] lemma mem_value? {x : Outcome ε α} {a : α} : a ∈ x.value? ↔ x = ok a := by
  cases x <;> simp [value?]

/-- `Result::ok`: an error becomes `None`, a panic stays a panic. -/
def ok? : Outcome ε α → Outcome ε (Option α)
  | ok a => ok (some a)
  | err _ => ok none
  | panic p => panic p

@[simp] lemma ok?_returns (x : Outcome ε α) : x.ok?.Returns ↔ x.Returns := by
  cases x <;> simp [ok?]

lemma ok?_ne_err (x : Outcome ε α) (e : ε) : x.ok? ≠ err e := by
  cases x <;> simp [ok?]

/-- `Result::or_else` where the error is dropped. -/
def orElse (x y : Outcome ε α) : Outcome ε α :=
  match x with
  | err _ => y
  | r => r

lemma orElse_returns {x y : Outcome ε α} (hx : x.Returns) (hy : y.Returns) :
    (x.orElse y).Returns := by
  cases x <;> simp_all [orElse]

/-- Runs `f` over a list from the left, collecting the results: `map(..).collect()` into a
`Result<Vec<_>>`, which stops at the first error. -/
def mapList (f : α → Outcome ε β) : List α → Outcome ε (List β)
  | [] => ok []
  | a :: l => do
    let b ← f a
    let bs ← mapList f l
    return b :: bs

lemma mapList_returns {f : α → Outcome ε β} {l : List α} (h : ∀ a ∈ l, (f a).Returns) :
    (mapList f l).Returns := by
  induction l with
  | nil => simp [mapList]
  | cons a l ih =>
    refine (h a (by simp)).bind fun b _ => ?_
    exact (ih fun x hx => h x (by simp [hx])).bind fun bs _ => by simp

/-- Without errors every element is reached, so one panic is enough. -/
lemma mapList_returns_iff {f : α → Outcome ε β} (hf : ∀ a e, f a ≠ err e) {l : List α} :
    (mapList f l).Returns ↔ ∀ a ∈ l, (f a).Returns := by
  induction l with
  | nil => simp [mapList]
  | cons a l ih =>
    rw [List.forall_mem_cons, ← ih, mapList, bind_returns]
    constructor
    · rintro ⟨ha, hl⟩
      refine ⟨ha, ?_⟩
      cases hfa : f a with
      | ok b => exact (bind_returns.mp (hl b hfa)).1
      | err e => exact absurd hfa (hf a e)
      | panic p => simp [hfa] at ha
    · rintro ⟨ha, hl⟩
      exact ⟨ha, fun b _ => hl.bind fun bs _ => by simp⟩

lemma mapList_length {f : α → Outcome ε β} {l : List α} {bs : List β}
    (h : mapList f l = ok bs) : bs.length = l.length := by
  induction l generalizing bs with
  | nil =>
    cases h
    rfl
  | cons a l ih =>
    obtain ⟨b, -, h⟩ := bind_eq_ok.mp h
    obtain ⟨cs, hcs, h⟩ := bind_eq_ok.mp h
    cases h
    simp [ih hcs]

lemma mem_mapList {f : α → Outcome ε β} {l : List α} {bs : List β} (h : mapList f l = ok bs) {a : α}
    (ha : a ∈ l) : ∃ b ∈ bs, f a = ok b := by
  induction l generalizing bs with
  | nil => cases ha
  | cons c l ih =>
    obtain ⟨b, hb, h⟩ := bind_eq_ok.mp h
    obtain ⟨cs, hcs, h⟩ := bind_eq_ok.mp h
    cases h
    rcases List.mem_cons.mp ha with rfl | ha
    · exact ⟨b, by simp, hb⟩
    · obtain ⟨b', hb', hfa⟩ := ih hcs ha
      exact ⟨b', by simp [hb'], hfa⟩

lemma mem_of_mapList {f : α → Outcome ε β} {l : List α} {bs : List β}
    (h : mapList f l = ok bs) {b : β} (hb : b ∈ bs) : ∃ a ∈ l, f a = ok b := by
  induction l generalizing bs with
  | nil =>
    cases h
    cases hb
  | cons c l ih =>
    obtain ⟨b', hb', h⟩ := bind_eq_ok.mp h
    obtain ⟨cs, hcs, h⟩ := bind_eq_ok.mp h
    cases h
    rcases List.mem_cons.mp hb with rfl | hb
    · exact ⟨c, by simp, hb'⟩
    · obtain ⟨a, ha, hfa⟩ := ih hcs hb
      exact ⟨a, by simp [ha], hfa⟩

lemma mapList_ok_iff {f : α → Outcome ε β} {l : List α} :
    (∃ bs, mapList f l = ok bs) ↔ ∀ a ∈ l, ∃ b, f a = ok b := by
  constructor
  · rintro ⟨bs, h⟩ a ha
    obtain ⟨b, -, hb⟩ := mem_mapList h ha
    exact ⟨b, hb⟩
  · intro h
    induction l with
    | nil => exact ⟨[], rfl⟩
    | cons a l ih =>
      obtain ⟨b, hb⟩ := h a (by simp)
      obtain ⟨bs, hbs⟩ := ih fun x hx => h x (by simp [hx])
      exact ⟨b :: bs, by rw [mapList, hb, ok_bind, hbs, ok_bind, pure_eq]⟩

lemma mapList_congr {f g : α → Outcome ε β} {l : List α} (h : ∀ a ∈ l, f a = g a) :
    mapList f l = mapList g l := by
  induction l with
  | nil => rfl
  | cons a l ih => rw [mapList, mapList, h a (by simp), ih fun x hx => h x (by simp [hx])]

lemma mapList_map (f : β → Outcome ε γ) (g : α → β) (l : List α) :
    mapList f (l.map g) = mapList (fun a => f (g a)) l := by
  induction l with
  | nil => rfl
  | cons a l ih => rw [List.map_cons, mapList, mapList, ih]

lemma map_of_mapList {f : α → Outcome ε β} {l : List α} {bs : List β}
    (h : mapList f l = ok bs) : l.map f = bs.map ok := by
  induction l generalizing bs with
  | nil =>
    cases h
    rfl
  | cons a l ih =>
    obtain ⟨b, hb, h⟩ := bind_eq_ok.mp h
    obtain ⟨bs', hbs', h⟩ := bind_eq_ok.mp h
    cases h
    rw [List.map_cons, hb, ih hbs', List.map_cons]

/-- A `for` loop over a list that threads an accumulator. -/
def foldList (f : β → α → Outcome ε β) : β → List α → Outcome ε β
  | b, [] => ok b
  | b, a :: l => do
    let b ← f b a
    foldList f b l

/-- The rule of loops: an invariant over the elements dealt with so far holds of all of them when
the loop ends, if every round that it allows ends with a value and keeps it. -/
lemma foldList_ok {f : β → α → Outcome ε β} {I : List α → β → Prop} {l : List α} {b : β}
    (hnil : I [] b)
    (hstep : ∀ front a back b, l = front ++ a :: back → I front b →
      ∃ b', f b a = ok b' ∧ I (front ++ [a]) b') :
    ∃ b', foldList f b l = ok b' ∧ I l b' := by
  have hloop : ∀ back front b, l = front ++ back → I front b →
      ∃ b', foldList f b back = ok b' ∧ I l b' := by
    intro back
    induction back with
    | nil =>
      intro front b hl hb
      rw [List.append_nil] at hl
      exact ⟨b, rfl, hl ▸ hb⟩
    | cons a back ih =>
      intro front b hl hb
      obtain ⟨b₁, hb₁, hI⟩ := hstep front a back b hl hb
      obtain ⟨b₂, hb₂, hI'⟩ := ih (front ++ [a]) b₁ (by simp [hl]) hI
      exact ⟨b₂, by rw [foldList, hb₁, ok_bind, hb₂], hI'⟩
  exact hloop l [] b rfl hnil

/-- A loop that ended with a value went through its rounds one after the other: what every round
keeps for the elements dealt with so far holds of all of them. -/
lemma foldList_invariant {f : β → α → Outcome ε β} {I : List α → β → Prop} {l : List α} {b b' : β}
    (h : foldList f b l = ok b') (hnil : I [] b)
    (hstep : ∀ front a b b', I front b → f b a = ok b' → I (front ++ [a]) b') : I l b' := by
  have hloop : ∀ back front b, I front b → foldList f b back = ok b' → I (front ++ back) b' := by
    intro back
    induction back with
    | nil =>
      intro front b hI hb
      cases hb
      rwa [List.append_nil]
    | cons a back ih =>
      intro front b hI hb
      obtain ⟨c, hc, hb⟩ := bind_eq_ok.mp hb
      have hnext := ih (front ++ [a]) c (hstep front a b c hI hc) hb
      rwa [List.append_assoc, List.singleton_append] at hnext
  exact hloop l [] b hnil h

lemma mapList_eq_ok {f : α → Outcome ε β} {g : α → β} {l : List α}
    (h : ∀ a ∈ l, f a = ok (g a)) : mapList f l = ok (l.map g) := by
  induction l with
  | nil => rfl
  | cons a l ih =>
    rw [mapList, h a (by simp), ok_bind, ih fun x hx => h x (by simp [hx])]
    rfl

end Outcome

/-! ## Stateful calls -/

/-- What a stateful call leaves behind. -/
inductive Reply (ε σ α : Type) where
  | ok (a : α) (s : σ)
  | err (e : ε) (s : σ)
  | panic (p : Panic)

/-- The call returned, and left the state `s`. -/
def Reply.Leaves {ε σ α : Type} (r : Reply ε σ α) (s : σ) : Prop :=
  match r with
  | .ok _ s' => s' = s
  | .err _ s' => s' = s
  | .panic _ => False

/-- There is one state that a call leaves. -/
lemma Reply.leaves_unique {ε σ α : Type} {r : Reply ε σ α} {s s' : σ} (h : r.Leaves s)
    (h' : r.Leaves s') : s = s' := by
  cases r with
  | ok a t => exact h.symm.trans h'
  | err e t => exact h.symm.trans h'
  | panic p => exact h.elim

lemma Reply.leaves_of_ok {ε σ α : Type} {r : Reply ε σ α} {a : α} {s : σ} (h : r = .ok a s) :
    r.Leaves s := by
  rw [h]
  rfl

/-- The call returned: it ended with a value or an error. -/
def Reply.Returns {ε σ α : Type} : Reply ε σ α → Prop
  | .panic _ => False
  | _ => True

/-- The state that the call left, if it returned. -/
def Reply.state? {ε σ α : Type} : Reply ε σ α → Option σ
  | .ok _ s => some s
  | .err _ s => some s
  | .panic _ => none

lemma Reply.leaves_getD {ε σ α : Type} {r : Reply ε σ α} (h : r.state?.isSome) (d : σ) :
    r.Leaves (r.state?.getD d) := by
  cases r with
  | ok a s => rfl
  | err e s => rfl
  | panic p => cases h

/-- A call that owns a mutable state of type `σ`. -/
def Action (ε σ α : Type) : Type := σ → Reply ε σ α

namespace Action

variable {ε σ α β : Type}

instance : Monad (Action ε σ) where
  pure a := fun s => .ok a s
  bind x f := fun s =>
    match x s with
    | .ok a s' => f a s'
    | .err e s' => .err e s'
    | .panic p => .panic p

/-- A computation that does not touch the state. -/
def lift (x : Outcome ε α) : Action ε σ α := fun s =>
  match x with
  | .ok a => .ok a s
  | .err e => .err e s
  | .panic p => .panic p

instance : MonadLift (Outcome ε) (Action ε σ) := ⟨lift⟩

/-- Reads the state. -/
def get : Action ε σ σ := fun s => .ok s s

/-- Updates the state. -/
def modify (f : σ → σ) : Action ε σ Unit := fun s => .ok () (f s)

@[simp] lemma pure_apply (a : α) (s : σ) : (pure a : Action ε σ α) s = .ok a s := rfl

@[simp] lemma get_apply (s : σ) : (get : Action ε σ σ) s = .ok s s := rfl

@[simp] lemma modify_apply (f : σ → σ) (s : σ) :
    (modify f : Action ε σ Unit) s = .ok () (f s) := rfl

@[simp] lemma lift_ok (a : α) (s : σ) : (lift (.ok a) : Action ε σ α) s = .ok a s := rfl

@[simp] lemma lift_err (e : ε) (s : σ) : (lift (.err e) : Action ε σ α) s = .err e s := rfl

@[simp] lemma lift_panic (p : Panic) (s : σ) :
    (lift (.panic p) : Action ε σ α) s = .panic p := rfl

@[simp] lemma monadLift_eq (x : Outcome ε α) :
    (MonadLiftT.monadLift x : Action ε σ α) = lift x := rfl

lemma bind_apply (x : Action ε σ α) (f : α → Action ε σ β) (s : σ) :
    (x >>= f) s = match x s with
      | .ok a s' => f a s'
      | .err e s' => .err e s'
      | .panic p => .panic p := rfl

lemma bind_assoc {γ : Type} (x : Action ε σ α) (f : α → Action ε σ β) (g : β → Action ε σ γ) :
    (x >>= f) >>= g = x >>= fun a => f a >>= g := by
  funext s
  simp only [bind_apply]
  cases x s <;> rfl

/-- Inversion of a successful sequence. -/
lemma bind_eq_ok {x : Action ε σ α} {f : α → Action ε σ β} {s s' : σ} {b : β} :
    (x >>= f) s = .ok b s' ↔ ∃ a t, x s = .ok a t ∧ f a t = .ok b s' := by
  rw [bind_apply]
  cases x s <;> simp

/-- Inversion of a failed sequence. -/
lemma bind_eq_err {x : Action ε σ α} {f : α → Action ε σ β} {s s' : σ} {e : ε} :
    (x >>= f) s = .err e s' ↔ x s = .err e s' ∨ ∃ a t, x s = .ok a t ∧ f a t = .err e s' := by
  rw [bind_apply]
  cases x s <;> simp

/-- What a sequence leaves. -/
lemma bind_leaves {x : Action ε σ α} {f : α → Action ε σ β} {s s' : σ}
    (h : ((x >>= f) s).Leaves s') :
    (∃ e, x s = .err e s') ∨ ∃ a t, x s = .ok a t ∧ (f a t).Leaves s' := by
  rw [bind_apply] at h
  cases hx : x s with
  | ok a t =>
    rw [hx] at h
    exact .inr ⟨a, t, rfl, h⟩
  | err e t =>
    rw [hx] at h
    exact .inl ⟨e, by rw [show t = s' from h]⟩
  | panic p =>
    rw [hx] at h
    exact h.elim

lemma lift_eq_ok {x : Outcome ε α} {s s' : σ} {a : α} :
    (lift x : Action ε σ α) s = .ok a s' ↔ x = .ok a ∧ s' = s := by
  cases x <;> simp [eq_comm]

lemma lift_leaves {x : Outcome ε α} {s s' : σ} (h : (lift x s : Reply ε σ α).Leaves s') :
    s' = s := by
  cases x with
  | ok a => exact h.symm
  | err e => exact h.symm
  | panic p => exact h.elim

/-- A computation that does not touch the state, and what comes after it. -/
lemma lift_bind (x : Outcome ε α) (f : α → Action ε σ β) (s : σ) :
    (lift x >>= f) s = match x with
      | .ok a => f a s
      | .err e => .err e s
      | .panic p => .panic p := by
  cases x <;> rfl

lemma lift_bind_eq_ok {x : Outcome ε α} {f : α → Action ε σ β} {s s' : σ} {b : β} :
    (lift x >>= f) s = .ok b s' ↔ ∃ a, x = .ok a ∧ f a s = .ok b s' := by
  rw [lift_bind]
  cases x <;> simp

lemma lift_bind_eq_err {x : Outcome ε α} {f : α → Action ε σ β} {s s' : σ} {e : ε} :
    (lift x >>= f) s = .err e s' ↔ (x = .err e ∧ s' = s) ∨ ∃ a, x = .ok a ∧ f a s = .err e s' := by
  rw [lift_bind]
  cases x <;> simp [eq_comm]

/-- What a computation that does not touch the state, and what comes after it, leave. -/
lemma lift_bind_leaves {x : Outcome ε α} {f : α → Action ε σ β} {s s' : σ}
    (h : ((lift x >>= f) s).Leaves s') :
    (∃ e, x = .err e ∧ s' = s) ∨ ∃ a, x = .ok a ∧ (f a s).Leaves s' := by
  rw [lift_bind] at h
  cases x with
  | ok a => exact .inr ⟨a, rfl, h⟩
  | err e => exact .inl ⟨e, rfl, h.symm⟩
  | panic p => exact h.elim

/-- A call that computes from the state it finds, and updates it only on success. -/
def transact (x : σ → Outcome ε β) (update : β → σ → σ) (answer : β → α) : Action ε σ α :=
  fun s =>
    match x s with
    | .ok b => .ok (answer b) (update b s)
    | .err e => .err e s
    | .panic p => .panic p

lemma transact_eq_ok {x : σ → Outcome ε β} {update : β → σ → σ} {answer : β → α} {s s' : σ}
    {a : α} : transact x update answer s = .ok a s' ↔
      ∃ b, x s = .ok b ∧ a = answer b ∧ s' = update b s := by
  rw [transact]
  cases x s <;> simp [eq_comm]

lemma transact_eq_err {x : σ → Outcome ε β} {update : β → σ → σ} {answer : β → α} {s s' : σ}
    {e : ε} : transact x update answer s = .err e s' ↔ x s = .err e ∧ s' = s := by
  rw [transact]
  cases x s <;> simp [eq_comm]

/-- A transaction updates the state or leaves it as it was. -/
lemma transact_leaves {x : σ → Outcome ε β} {update : β → σ → σ} {answer : β → α} {s s' : σ}
    (h : (transact x update answer s).Leaves s') :
    (∃ b, x s = .ok b ∧ s' = update b s) ∨ ∃ e, x s = .err e ∧ s' = s := by
  rw [transact] at h
  cases hx : x s with
  | ok b =>
    rw [hx] at h
    exact .inl ⟨b, rfl, h.symm⟩
  | err e =>
    rw [hx] at h
    exact .inr ⟨e, rfl, h.symm⟩
  | panic p =>
    rw [hx] at h
    exact h.elim

/-- What is computed before a transaction is part of it. -/
lemma lift_transact {γ : Type} (x : Outcome ε γ) (y : γ → σ → Outcome ε β) (u : β → σ → σ)
    (v : β → α) :
    (lift x >>= fun c => transact (y c) u v) = transact (fun s => x >>= fun c => y c s) u v := by
  funext s
  rw [lift_bind]
  cases x <;> rfl

/-- What a transaction reads from the state is part of it. -/
lemma get_transact (y : σ → σ → Outcome ε β) (u : β → σ → σ) (v : β → α) :
    (get >>= fun t => transact (y t) u v) = transact (fun s => y s s) u v := rfl

/-- A computation with its update is a transaction. -/
lemma lift_modify (x : Outcome ε β) (u : β → σ → σ) (v : β → α) :
    (lift x >>= fun b => modify (u b) >>= fun _ => pure (v b)) = transact (fun _ => x) u v := by
  funext s
  rw [lift_bind]
  cases x <;> rfl

lemma modify_modify (f g : σ → σ) (x : Unit → Action ε σ α) :
    (modify f >>= fun _ => modify g >>= x) = (modify (g ∘ f) >>= x) := rfl

/-- A call that reads the state and then goes on. -/
lemma get_bind (f : σ → Action ε σ β) (s : σ) : (get >>= f) s = f s s := rfl

/-- A call that updates the state and then goes on. -/
lemma modify_bind (g : σ → σ) (f : Unit → Action ε σ β) (s : σ) :
    (modify g >>= f) s = f () (g s) := rfl

/-! ### Relations kept by a call -/

/-- The state that the call leaves, on a value or on an error, is related to the one it
found. -/
def Keeps (R : σ → σ → Prop) (x : Action ε σ α) : Prop :=
  ∀ s s', (x s).Leaves s' → R s s'

section Keeps

variable {R : σ → σ → Prop}

lemma Keeps.of_ok {x : Action ε σ α} (h : Keeps R x) {s s' : σ} {a : α} (hx : x s = .ok a s') :
    R s s' :=
  h s s' (by rw [hx]; rfl)

lemma Keeps.of_err {x : Action ε σ α} (h : Keeps R x) {s s' : σ} {e : ε}
    (hx : x s = .err e s') : R s s' :=
  h s s' (by rw [hx]; rfl)

lemma Keeps.bind [IsTrans σ R] {x : Action ε σ α} {f : α → Action ε σ β} (hx : Keeps R x)
    (hf : ∀ a, Keeps R (f a)) : Keeps R (x >>= f) := by
  intro s s'' h
  rw [bind_apply] at h
  cases hs : x s with
  | ok a s' =>
    rw [hs] at h
    exact IsTrans.trans _ _ _ (hx.of_ok hs) (hf a s' s'' h)
  | err e s' =>
    rw [hs] at h
    exact h ▸ hx.of_err hs
  | panic p =>
    rw [hs] at h
    exact h.elim

lemma Keeps.pure [Std.Refl R] (a : α) : Keeps R (pure a : Action ε σ α) := by
  rintro s s' rfl
  exact Std.Refl.refl s

lemma Keeps.get [Std.Refl R] : Keeps R (get : Action ε σ σ) := by
  rintro s s' rfl
  exact Std.Refl.refl s

lemma Keeps.lift [Std.Refl R] (x : Outcome ε α) : Keeps R (lift x : Action ε σ α) := by
  intro s s' h
  cases x with
  | ok a => exact h ▸ Std.Refl.refl s
  | err e => exact h ▸ Std.Refl.refl s
  | panic p => exact h.elim

lemma Keeps.modify {g : σ → σ} (h : ∀ s, R s (g s)) :
    Keeps R (modify g : Action ε σ Unit) := by
  rintro s s' rfl
  exact h s

end Keeps

end Action

end ReverseMcp.Rust
