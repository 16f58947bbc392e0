import ReverseMcp.Rust.Reading

/-!
# Handles

`rmcp_core::handle::Handle`: a kind and a number from the process-wide counter `NEXT_ID`, shown
as `r17` or `job3`.  `fetch_add` wraps, so a handle comes back after 2^64 allocations.
-/

namespace ReverseMcp

open Rust

/-- `rmcp_core::handle::Handle`. -/
structure Handle where
  kind : String
  n : U64
deriving DecidableEq

namespace Handle

/-- `Handle::new`: the handle, and the counter behind it. -/
def new (kind : String) (next_id : U64) : Handle × U64 := (⟨kind, next_id⟩, next_id + 1)

/-- `Display` of a handle. -/
def text (h : Handle) : String := h.kind ++ toString h.n.val

/-- Handles of one kind are told apart by their texts. -/
lemma text_inj {kind : String} {m n : U64} (h : (Handle.mk kind m).text = (Handle.mk kind n).text) :
    m = n := by
  have hchars : (toString m.val).toList = (toString n.val).toList := by
    have happend := congrArg String.toList h
    simpa [text] using happend
  have hdigits : Nat.toDigits 10 m.val = Nat.toDigits 10 n.val := by simpa using hchars
  exact Fin.ext (toDigits_inj (by omega) (by omega) hdigits)

end Handle

/-- A counter that does not wrap moves by one. -/
lemma val_add_one {n : U64} (h : n.val + 1 < 2 ^ 64) : (n + 1).val = n.val + 1 := by
  rw [Fin.val_add]
  exact Nat.mod_eq_of_lt h

/-- The counter behind `n` allocations of a process that has just started. -/
lemma asU64_add_one (n : ℕ) : asU64 (1 + n) + 1 = asU64 (1 + (n + 1)) := by
  have hone : (1 : U64).val = 1 := rfl
  refine Fin.ext ?_
  rw [Fin.val_add, hone]
  simp only [asU64, Fin.val_ofNat]
  omega

end ReverseMcp
