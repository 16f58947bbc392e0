import Mathlib.Algebra.Order.Field.Rat
import Mathlib.Algebra.Order.Floor.Ring
import Mathlib.Algebra.Order.Group.Defs
import Mathlib.Algebra.Order.GroupWithZero.Defs
import Mathlib.Data.Int.Log
import Mathlib.Data.Rat.Floor
import Mathlib.Tactic.Linarith
import Mathlib.Tactic.NormNum

/-!
# Floating-point numbers

A floating-point operation takes the exact result and rounds it, to the nearest number with a
leading bit and `p` bits behind it, and to the one with an even last bit where two are as near
(`nearest`).  Rounding keeps the order (`nearest_mono`) and leaves alone what fits
(`nearest_of_lt`).

`F64` are the numbers that fit for `p = 52`, with the operations of `f64`.  Their exponents have no
bounds, and there are neither infinities nor NaN: this is the arithmetic of `f64` as long as nothing
is divided by 0 and no result is too large or too small for it.
-/

namespace ReverseMcp.Rust

/-! ## Rounding to an integer -/

/-- The nearest integer, the even one where two are as near. -/
def roundEven (q : ℚ) : ℤ :=
  let n := ⌊q⌋
  if q - n < 1 / 2 then n else if 1 / 2 < q - n then n + 1 else if n % 2 = 0 then n else n + 1

/-- The integer is at most one half away, and even if it is that far. -/
structure RoundsEven (q : ℚ) (n : ℤ) : Prop where
  le : n ≤ q + 1 / 2
  ge : q ≤ n + 1 / 2
  even : q = n - 1 / 2 ∨ q = n + 1 / 2 → n % 2 = 0

lemma roundEven_spec (q : ℚ) : RoundsEven q (roundEven q) := by
  have hfloor : (⌊q⌋ : ℚ) ≤ q := Int.floor_le q
  have hlt : q < ⌊q⌋ + 1 := Int.lt_floor_add_one q
  rw [roundEven]
  split
  · refine ⟨by linarith, by linarith, ?_⟩
    rintro (h | h) <;> linarith
  split
  · refine ⟨by push_cast; linarith, by push_cast; linarith, ?_⟩
    push_cast
    rintro (h | h) <;> linarith
  split
  · rename_i heven
    exact ⟨by linarith, by linarith, fun _ => heven⟩
  · rename_i hodd
    exact ⟨by push_cast; linarith, by push_cast; linarith, fun _ => by omega⟩

section Integers

variable {a b : ℚ} {m n : ℤ}

/-- Rounding keeps the order: two neighbours are not both even. -/
lemma RoundsEven.mono (hm : RoundsEven a m) (hn : RoundsEven b n) (hab : a ≤ b) : m ≤ n := by
  by_contra hlt
  have hstep : (n : ℚ) + 1 ≤ m := by exact_mod_cast Int.add_one_le_of_lt (not_le.mp hlt)
  have hle := hm.le
  have hge := hn.ge
  -- both numbers lie in the middle between `n` and `m`
  have ha : a = m - 1 / 2 := by linarith
  have hb : b = n + 1 / 2 := by linarith
  have hnext : m = n + 1 := by
    have hcast : (m : ℚ) = n + 1 := by linarith
    exact_mod_cast hcast
  have hmeven := hm.even (.inl ha)
  have hneven := hn.even (.inr hb)
  omega

lemma RoundsEven.unique (hm : RoundsEven a m) (hn : RoundsEven a n) : m = n :=
  le_antisymm (hm.mono hn le_rfl) (hn.mono hm le_rfl)

lemma RoundsEven.neg (h : RoundsEven a n) : RoundsEven (-a) (-n) := by
  have hle := h.le
  have hge := h.ge
  refine ⟨by push_cast; linarith, by push_cast; linarith, fun hmiddle => ?_⟩
  push_cast at hmiddle
  have heven := h.even (hmiddle.symm.imp (fun h => by linarith) fun h => by linarith)
  omega

lemma roundEven_intCast (n : ℤ) : roundEven n = n := by simp [roundEven]

lemma roundEven_neg (q : ℚ) : roundEven (-q) = -roundEven q :=
  (roundEven_spec (-q)).unique (roundEven_spec q).neg

lemma roundEven_mono (hab : a ≤ b) : roundEven a ≤ roundEven b :=
  (roundEven_spec a).mono (roundEven_spec b) hab

end Integers

/-! ## Rounding to `p` bits behind the leading one -/

/-- The last place of a number with `p` bits behind the leading one. -/
def ulp (p : ℕ) (q : ℚ) : ℚ := 2 ^ (Int.log 2 |q| - p)

/-- The nearest number with `p` bits behind the leading one. -/
def nearest (p : ℕ) (q : ℚ) : ℚ := roundEven (q / ulp p q) * ulp p q

section Nearest

variable {p : ℕ} {q r : ℚ}

lemma ulp_pos (p : ℕ) (q : ℚ) : 0 < ulp p q := zpow_pos two_pos _

lemma ulp_neg (p : ℕ) (q : ℚ) : ulp p (-q) = ulp p q := by rw [ulp, ulp, abs_neg]

/-- A multiple of the last place is as it was. -/
lemma nearest_of_mul (n : ℤ) (h : q = n * ulp p q) : nearest p q = q := by
  have hdiv : q / ulp p q = n := (div_eq_iff (ulp_pos p q).ne').mpr h
  rw [nearest, hdiv, roundEven_intCast]
  exact h.symm

/-- Rounding does not pass a multiple of the last place. -/
lemma nearest_le_of_mul (n : ℤ) (h : q ≤ n * ulp p q) : nearest p q ≤ n * ulp p q := by
  have hdiv : q / ulp p q ≤ n := (div_le_iff₀ (ulp_pos p q)).mpr h
  have hround : roundEven (q / ulp p q) ≤ n := (roundEven_mono hdiv).trans (roundEven_intCast n).le
  exact mul_le_mul_of_nonneg_right (Int.cast_le.mpr hround) (ulp_pos p q).le

lemma le_nearest_of_mul (n : ℤ) (h : n * ulp p q ≤ q) : n * ulp p q ≤ nearest p q := by
  have hdiv : (n : ℚ) ≤ q / ulp p q := (le_div_iff₀ (ulp_pos p q)).mpr h
  have hround : n ≤ roundEven (q / ulp p q) := (roundEven_intCast n).ge.trans (roundEven_mono hdiv)
  exact mul_le_mul_of_nonneg_right (Int.cast_le.mpr hround) (ulp_pos p q).le

lemma nearest_zero (p : ℕ) : nearest p 0 = 0 := nearest_of_mul 0 (by simp)

lemma nearest_neg (p : ℕ) (q : ℚ) : nearest p (-q) = -nearest p q := by
  rw [nearest, nearest, ulp_neg, neg_div, roundEven_neg, Int.cast_neg, neg_mul]

lemma nearest_nonneg (p : ℕ) (h : 0 ≤ q) : 0 ≤ nearest p q := by
  have hle := le_nearest_of_mul (p := p) (q := q) 0 (by simpa using h)
  simpa using hle

/-- A power of two that is not below the last place is a multiple of it. -/
lemma zpow_eq_mul_ulp (p : ℕ) (q : ℚ) (k : ℕ) :
    (2 : ℚ) ^ (Int.log 2 |q| - p + k) = ((2 ^ k : ℤ) : ℚ) * ulp p q := by
  rw [ulp, zpow_add₀ two_ne_zero, zpow_natCast, Int.cast_pow, Int.cast_ofNat, mul_comm]

/-- A positive number and the rounded one lie between the same powers of two. -/
lemma zpow_log_le_nearest (p : ℕ) (hq : 0 < q) : (2 : ℚ) ^ Int.log 2 |q| ≤ nearest p q := by
  have hle : (2 : ℚ) ^ Int.log 2 |q| ≤ q := by
    rw [abs_of_pos hq]
    exact Int.zpow_log_le_self (b := 2) (by decide) hq
  have hpow : (2 : ℚ) ^ Int.log 2 |q| = ((2 ^ p : ℤ) : ℚ) * ulp p q := by
    rw [← zpow_eq_mul_ulp, sub_add_cancel]
  rw [hpow] at hle ⊢
  exact le_nearest_of_mul _ hle

lemma nearest_le_zpow_log (p : ℕ) (hq : 0 < q) :
    nearest p q ≤ (2 : ℚ) ^ (Int.log 2 |q| + 1) := by
  have hlt : q < (2 : ℚ) ^ (Int.log 2 |q| + 1) := by
    rw [abs_of_pos hq]
    exact Int.lt_zpow_succ_log_self (b := 2) (by decide) q
  have hpow : (2 : ℚ) ^ (Int.log 2 |q| + 1) = ((2 ^ (p + 1) : ℤ) : ℚ) * ulp p q := by
    rw [← zpow_eq_mul_ulp]
    congr 1
    push_cast
    ring
  rw [hpow] at hlt ⊢
  exact nearest_le_of_mul _ hlt.le

lemma nearest_mono_of_pos (p : ℕ) (hq : 0 < q) (hqr : q ≤ r) : nearest p q ≤ nearest p r := by
  have hr : 0 < r := hq.trans_le hqr
  have hlog : Int.log 2 |q| ≤ Int.log 2 |r| := by
    rw [abs_of_pos hq, abs_of_pos hr]
    exact Int.log_mono_right hq hqr
  rcases hlog.eq_or_lt with heq | hlt
  · -- the last place is the same
    have hulp : ulp p q = ulp p r := by rw [ulp, ulp, heq]
    rw [nearest, nearest, hulp]
    refine mul_le_mul_of_nonneg_right (Int.cast_le.mpr (roundEven_mono ?_)) (ulp_pos p r).le
    exact div_le_div_of_nonneg_right hqr (ulp_pos p r).le
  · -- a power of two lies between them
    calc nearest p q
        ≤ (2 : ℚ) ^ (Int.log 2 |q| + 1) := nearest_le_zpow_log p hq
      _ ≤ (2 : ℚ) ^ Int.log 2 |r| := zpow_le_zpow_right₀ one_le_two hlt
      _ ≤ nearest p r := zpow_log_le_nearest p hr

/-- Rounding keeps the order. -/
lemma nearest_mono (p : ℕ) : Monotone (nearest p) := by
  intro q r hqr
  rcases lt_trichotomy q 0 with hq | rfl | hq
  · rcases lt_or_ge r 0 with hr | hr
    · have hneg := nearest_mono_of_pos p (neg_pos.mpr hr) (neg_le_neg hqr)
      rwa [nearest_neg, nearest_neg, neg_le_neg_iff] at hneg
    · have hneg := nearest_nonneg p (neg_nonneg.mpr hq.le)
      rw [nearest_neg] at hneg
      exact (neg_nonneg.mp hneg).trans (nearest_nonneg p hr)
  · rw [nearest_zero]
    exact nearest_nonneg p hqr
  · exact nearest_mono_of_pos p hq hqr

/-- A number of at most `p + 1` bits is not rounded. -/
lemma nearest_of_lt (p : ℕ) {m : ℤ} (hm : |m| < 2 ^ (p + 1)) (k : ℤ) :
    nearest p (m * 2 ^ k) = m * 2 ^ k := by
  rcases eq_or_ne m 0 with rfl | hne
  · simp [nearest_zero]
  have hpow : (0 : ℚ) < 2 ^ k := zpow_pos two_pos k
  have habs : |(m : ℚ) * 2 ^ k| = |m| * 2 ^ k := by rw [abs_mul, abs_of_pos hpow, Int.cast_abs]
  have hpos : 0 < |(m : ℚ) * 2 ^ k| := by
    rw [habs]
    exact mul_pos (by exact_mod_cast abs_pos.mpr hne) hpow
  -- the last place is at most `2 ^ k`
  have hlog : Int.log 2 |(m : ℚ) * 2 ^ k| < p + 1 + k := by
    refine (Int.lt_zpow_iff_log_lt (b := 2) (by decide) hpos).mp ?_
    rw [habs, zpow_add₀ (by norm_num : ((2 : ℕ) : ℚ) ≠ 0)]
    refine mul_lt_mul_of_pos_right ?_ hpow
    exact_mod_cast hm
  obtain ⟨j, hj⟩ := Int.eq_ofNat_of_zero_le
    (show 0 ≤ k - (Int.log 2 |(m : ℚ) * 2 ^ k| - p) by omega)
  refine nearest_of_mul (m * 2 ^ j) ?_
  rw [Int.cast_mul, mul_assoc, ← zpow_eq_mul_ulp]
  congr 2
  omega

/-- Neither is a power of two, which one more bit would not hold. -/
lemma nearest_of_le (p : ℕ) {m : ℤ} (hm : |m| ≤ 2 ^ (p + 1)) (k : ℤ) :
    nearest p (m * 2 ^ k) = m * 2 ^ k := by
  rcases hm.lt_or_eq with hlt | heq
  · exact nearest_of_lt p hlt k
  · obtain ⟨n, rfl⟩ : ∃ n, m = 2 * n := by
      have hdvd : (2 : ℤ) ∣ |m| := heq ▸ Dvd.intro_left (2 ^ p) rfl
      exact (dvd_abs 2 m).mp hdvd
    have hn : |n| < 2 ^ (p + 1) := by
      rw [abs_mul, abs_two, pow_succ] at heq
      have hpos : (0 : ℤ) < 2 ^ p := by positivity
      rw [pow_succ]
      omega
    have hshift : ((2 * n : ℤ) : ℚ) * 2 ^ k = n * 2 ^ (k + 1) := by
      rw [zpow_add_one₀ two_ne_zero]
      push_cast
      ring
    rw [hshift, nearest_of_lt p hn]

lemma roundEven_abs_le {n : ℤ} (h : |q| ≤ n) : |roundEven q| ≤ n := by
  obtain ⟨hlo, hhi⟩ := abs_le.mp h
  refine abs_le.mpr ⟨?_, ?_⟩
  · rw [← roundEven_intCast n, ← roundEven_neg]
    exact roundEven_mono hlo
  · rw [← roundEven_intCast n]
    exact roundEven_mono hhi

/-- What has been rounded is not rounded again. -/
lemma nearest_nearest (p : ℕ) (q : ℚ) : nearest p (nearest p q) = nearest p q := by
  have hlt : |q / ulp p q| < ((2 ^ (p + 1) : ℤ) : ℚ) := by
    rw [abs_div, abs_of_pos (ulp_pos p q), div_lt_iff₀ (ulp_pos p q), ← zpow_eq_mul_ulp]
    have hself : |q| < (2 : ℚ) ^ (Int.log 2 |q| + 1) :=
      Int.lt_zpow_succ_log_self (b := 2) (by decide) |q|
    have hexp : Int.log 2 |q| - p + ((p + 1 : ℕ) : ℤ) = Int.log 2 |q| + 1 := by
      push_cast
      ring
    rwa [hexp]
  exact nearest_of_le p (roundEven_abs_le hlt.le) _

lemma nearest_intCast {n : ℤ} (hn : |n| ≤ 2 ^ (p + 1)) : nearest p n = n := by
  simpa using nearest_of_le p hn 0

end Nearest

/-! ## `f64` -/

/-- A number with a leading bit and 52 bits behind it. -/
@[ext]
structure F64 where
  val : ℚ
  exact : nearest 52 val = val

namespace F64

/-- The nearest `f64`. -/
def ofRat (q : ℚ) : F64 := ⟨nearest 52 q, nearest_nearest 52 q⟩

instance : Zero F64 := ⟨0, nearest_zero 52⟩
instance : Add F64 := ⟨fun x y => ofRat (x.val + y.val)⟩
instance : Sub F64 := ⟨fun x y => ofRat (x.val - y.val)⟩
instance : Mul F64 := ⟨fun x y => ofRat (x.val * y.val)⟩
instance : Div F64 := ⟨fun x y => ofRat (x.val / y.val)⟩

/-- `n as f64`. -/
instance : NatCast F64 := ⟨fun n => ofRat n⟩

/-- A literal. -/
instance : OfScientific F64 :=
  ⟨fun m negative e => ofRat (OfScientific.ofScientific m negative e)⟩

instance : LinearOrder F64 := LinearOrder.lift' val fun _ _ => F64.ext

/-- `f64::round`: to the nearest integer, and away from zero in the middle between two. -/
def round (x : F64) : F64 :=
  if 0 ≤ x.val then ofRat ⌊x.val + 1 / 2⌋ else ofRat (-⌊1 / 2 - x.val⌋)

variable {x y z : F64}

lemma le_def : x ≤ y ↔ x.val ≤ y.val := Iff.rfl

lemma ofRat_val (x : F64) : ofRat x.val = x := F64.ext x.exact

lemma ofRat_mono : Monotone ofRat := fun _ _ h => nearest_mono 52 h

instance : AddLeftMono F64 :=
  ⟨fun x _ _ h => ofRat_mono (add_le_add_right (le_def.mp h) x.val)⟩

instance : AddRightMono F64 :=
  ⟨fun x _ _ h => ofRat_mono (add_le_add_left (le_def.mp h) x.val)⟩

instance : PosMulMono F64 :=
  ⟨fun _ hx _ _ h => ofRat_mono (mul_le_mul_of_nonneg_left (le_def.mp h) (le_def.mp hx))⟩

lemma natCast_mono : Monotone (Nat.cast : ℕ → F64) := fun _ _ h => ofRat_mono (Nat.cast_le.mpr h)

lemma natCast_nonneg (n : ℕ) : 0 ≤ (n : F64) := nearest_nonneg 52 (Nat.cast_nonneg n)

lemma one_val : (1.0 : F64).val = 1 := by decide +kernel

/-- The quotient of two counts is at most 1, whatever is rounded. -/
lemma natCast_div_le_one {m n : ℕ} (h : m ≤ n) : (m : F64) / n ≤ 1.0 := by
  have hdiv : (m : F64).val / (n : F64).val ≤ 1 :=
    div_le_one_of_le₀ (natCast_mono h) (natCast_nonneg n)
  calc (m : F64) / n
      = ofRat ((m : F64).val / (n : F64).val) := rfl
    _ ≤ ofRat (1.0 : F64).val := ofRat_mono (by rwa [one_val])
    _ = 1.0 := ofRat_val 1.0

end F64

end ReverseMcp.Rust
