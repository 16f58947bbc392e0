import ReverseMcp.Rust.Reading

/-!
# One text in two bases

A text of digits is a number in every base that has these digits.  In a larger base the number is
larger, unless it has only one digit besides leading zeros (`fromStrRadix_radix_iff`).
-/

namespace ReverseMcp.Rust

variable {n radix radix' : ℕ} {c : Char} {cs : List Char}

lemma toDigit_mono {d : ℕ} (hr : radix ≤ radix') (h : toDigit radix c = some d) :
    toDigit radix' c = some d := by
  unfold toDigit at h ⊢
  simp only [Option.ite_none_right_eq_some] at h ⊢
  exact ⟨h.1.trans_le hr, h.2⟩

lemma toDigit_lt {d : ℕ} (h : toDigit radix c = some d) : d < radix := by
  unfold toDigit at h
  simp only [Option.ite_none_right_eq_some] at h
  obtain ⟨hlt, hd⟩ := h
  rwa [Option.some.inj hd] at hlt

/-- One step of the digit loop. -/
lemma parseDigits_cons_eq_ok {acc v : Fin n} (h : parseDigits n radix acc (c :: cs) = .ok v) :
    ∃ d, toDigit radix c = some d ∧ ∃ hlt : acc.val * radix + d < n,
      parseDigits n radix ⟨acc.val * radix + d, hlt⟩ cs = .ok v := by
  rw [parseDigits] at h
  split at h
  · cases h
  · rename_i d hd
    split at h
    · rename_i hlt
      exact ⟨d, hd, hlt, h⟩
    · cases h

/-- The accumulator only grows. -/
lemma le_of_parseDigits (hr : 0 < radix) : ∀ {acc v : Fin n},
    parseDigits n radix acc cs = .ok v → acc ≤ v := by
  induction cs with
  | nil =>
    intro acc v h
    cases h
    exact le_rfl
  | cons c cs ih =>
    intro acc v h
    obtain ⟨d, -, hlt, hrest⟩ := parseDigits_cons_eq_ok h
    have hstep : acc.val ≤ acc.val * radix := Nat.le_mul_of_pos_right _ hr
    exact le_trans (Fin.mk_le_mk.mpr (by omega)) (ih hrest)

/-- From a larger accumulator, and in a larger base, more is read. -/
lemma parseDigits_lt_parseDigits (hr : 0 < radix) (hrr : radix ≤ radix') : ∀ {a b v w : Fin n},
    a < b → parseDigits n radix a cs = .ok v → parseDigits n radix' b cs = .ok w → v < w := by
  induction cs with
  | nil =>
    intro a b v w hab hv hw
    cases hv
    cases hw
    exact hab
  | cons c cs ih =>
    intro a b v w hab hv hw
    obtain ⟨d, hd, hlt, hv⟩ := parseDigits_cons_eq_ok hv
    obtain ⟨e, he, hlt', hw⟩ := parseDigits_cons_eq_ok hw
    obtain rfl : d = e := Option.some.inj ((toDigit_mono hrr hd).symm.trans he)
    refine ih (Fin.mk_lt_mk.mpr ?_) hv hw
    have hmul : a.val * radix < b.val * radix' := by
      calc a.val * radix < b.val * radix := (Nat.mul_lt_mul_right hr).mpr hab
        _ ≤ b.val * radix' := Nat.mul_le_mul_left _ hrr
    omega

/-- A number of one digit is the same in every base. -/
lemma parseDigits_of_lt (hrr : radix ≤ radix') : ∀ {acc v : Fin n},
    parseDigits n radix acc cs = .ok v → v.val < radix → parseDigits n radix' acc cs = .ok v := by
  induction cs with
  | nil =>
    intro acc v h _
    exact h
  | cons c cs ih =>
    intro acc v h hv
    obtain ⟨d, hd, hlt, hrest⟩ := parseDigits_cons_eq_ok h
    have hle : acc.val * radix + d ≤ v.val := le_of_parseDigits (Nat.zero_lt_of_lt hv) hrest
    -- a digit in front of another one is zero
    have hzero : acc.val = 0 := by
      by_contra hpos
      have hmul : 1 * radix ≤ acc.val * radix :=
        Nat.mul_le_mul_right _ (Nat.one_le_iff_ne_zero.mpr hpos)
      omega
    have hsame : acc.val * radix' + d = acc.val * radix + d := by rw [hzero, zero_mul, zero_mul]
    have hlt' : acc.val * radix' + d < n := hsame ▸ hlt
    have hacc : (⟨acc.val * radix' + d, hlt'⟩ : Fin n) = ⟨acc.val * radix + d, hlt⟩ :=
      Fin.ext hsame
    rw [parseDigits]
    simp only [toDigit_mono hrr hd, dif_pos hlt', hacc]
    exact ih hrest hv

/-- A number of more digits is larger in a larger base. -/
lemma lt_of_parseDigits (hrr : radix < radix') : ∀ {acc v w : Fin n}, acc.val < radix →
    parseDigits n radix acc cs = .ok v → radix ≤ v.val → parseDigits n radix' acc cs = .ok w →
    v < w := by
  induction cs with
  | nil =>
    intro acc v w hacc hv hle _
    cases hv
    exact absurd hacc hle.not_gt
  | cons c cs ih =>
    intro acc v w hacc hv hle hw
    obtain ⟨d, hd, hlt, hv⟩ := parseDigits_cons_eq_ok hv
    obtain ⟨e, he, hlt', hw⟩ := parseDigits_cons_eq_ok hw
    obtain rfl : d = e := Option.some.inj ((toDigit_mono hrr.le hd).symm.trans he)
    by_cases hzero : acc.val = 0
    · have hsame : acc.val * radix' + d = acc.val * radix + d := by rw [hzero, zero_mul, zero_mul]
      simp only [hsame] at hw
      have hdigit : acc.val * radix + d < radix := by
        rw [hzero, zero_mul, zero_add]
        exact toDigit_lt hd
      exact ih hdigit hv hle hw
    · have hmul : acc.val * radix < acc.val * radix' :=
        (Nat.mul_lt_mul_left (Nat.pos_of_ne_zero hzero)).mpr hrr
      exact parseDigits_lt_parseDigits (Nat.zero_lt_of_lt hacc) hrr.le
        (Fin.mk_lt_mk.mpr (by omega)) hv hw

/-- The text behind a sign. -/
def dropSign : List Char → List Char
  | '+' :: cs => cs
  | cs => cs

variable [NeZero n]

lemma fromStrRadix_eq_ok_iff {v : Fin n} : fromStrRadix n radix cs = .ok v ↔
    dropSign cs ≠ [] ∧ parseDigits n radix 0 (dropSign cs) = .ok v := by
  unfold fromStrRadix
  split
  · simp [dropSign]
  · simp [dropSign]
  · rename_i ds hne
    have hds : ds ≠ [] := fun hnil => hne (by rw [hnil])
    simp [dropSign, hds]
  · rename_i hnil _ hsign
    have hsame : dropSign cs = cs := by
      unfold dropSign
      split
      · exact absurd rfl (hsign _)
      · rfl
    rw [hsame]
    exact (and_iff_right hnil).symm

/-- A number is the same in a larger base iff it has one digit. -/
theorem fromStrRadix_radix_iff (hrr : radix < radix') (hr : 0 < radix) {v : Fin n}
    (h : fromStrRadix n radix cs = .ok v) :
    fromStrRadix n radix' cs = .ok v ↔ v.val < radix := by
  obtain ⟨hne, hds⟩ := fromStrRadix_eq_ok_iff.mp h
  rw [fromStrRadix_eq_ok_iff]
  constructor
  · rintro ⟨-, hds'⟩
    by_contra hle
    have hacc : ((0 : Fin n) : ℕ) < radix := by rwa [Fin.val_zero]
    exact lt_irrefl v (lt_of_parseDigits hrr hacc hds (Nat.le_of_not_lt hle) hds')
  · exact fun hlt => ⟨hne, parseDigits_of_lt hrr.le hds hlt⟩

end ReverseMcp.Rust
