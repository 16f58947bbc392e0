import ReverseMcp.Rust.Text

/-!
# More machine integers

Additions on `u32`, arithmetic on `i128` and the narrowing casts to `i32`.
-/

namespace ReverseMcp.Rust

section
variable [Host] {ε : Type}

/-- `a + b` on `u32`. -/
def addU32 (a b : U32) : Outcome ε U32 :=
  if a.val + b.val < 2 ^ 32 ∨ Host.overflowChecks = false then .ok (a + b) else .panic .overflow

lemma addU32_of_lt {a b : U32} (h : a.val + b.val < 2 ^ 32) :
    addU32 a b = (.ok ⟨a.val + b.val, h⟩ : Outcome ε U32) := by
  have hab : a + b = ⟨a.val + b.val, h⟩ := Fin.ext (by rw [Fin.val_add]; exact Nat.mod_eq_of_lt h)
  rw [addU32, if_pos (Or.inl h), hab]

lemma addU32_eq_ok {a b c : U32} (h : addU32 a b = (.ok c : Outcome ε U32)) : c = a + b := by
  rw [addU32] at h
  split at h
  · cases h
    rfl
  · cases h

/-- The result of an operation on `i128`. -/
def i128 (z : ℤ) : Outcome ε ℤ :=
  if -2 ^ 127 ≤ z ∧ z < 2 ^ 127 then .ok z
  else if Host.overflowChecks then .panic .overflow else .ok (z.bmod (2 ^ 128))

end

/-- `z as i32`. -/
def asI32 (z : ℤ) : ℤ := z.bmod (2 ^ 32)

/-- `n as u32` for a count. -/
def asU32 (n : ℕ) : U32 := Fin.ofNat (2 ^ 32) n

lemma asU32_zero : asU32 0 = 0 := rfl

lemma asU32_add (m n : ℕ) : asU32 (m + n) = asU32 m + asU32 n :=
  Fin.ext (by simp [asU32, Fin.ofNat, Fin.val_add])

end ReverseMcp.Rust
