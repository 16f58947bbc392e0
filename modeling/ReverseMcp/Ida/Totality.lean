import ReverseMcp.Rust.Hex
import ReverseMcp.Ida.Machine

/-!
# When the backend returns

The mock computes the end of every function by adding to its start, so a function in the last 64
bytes of the address space makes nearly every call panic.  `Fits` says that there is none; under it
the reading calls return whatever their arguments are, with the exceptions of `disassemble` and
`file_map`, which add to an address they are given.  A mutation needs room in the revision counter,
and `patch_bytes` a text that its decoder can cut.
-/

namespace ReverseMcp

open Rust

/-- There is room for the 0x40 bytes of a function. -/
def RoomBehind (ea : U64) : Prop := ea.val + 0x40 < 2 ^ 64

instance (ea : U64) : Decidable (RoomBehind ea) := inferInstanceAs (Decidable (_ < _))

/-- The listed function has room, and its end is where it should be. -/
structure FunctionInfo.Fits (f : FunctionInfo) : Prop where
  room : RoomBehind f.ea_start
  end_eq : f.ea_end.val = f.ea_start.val + 0x40

namespace MockBackend

/-- All functions have room. -/
def Fits (b : MockBackend) : Prop := ∀ ea ∈ b.names.keys, RoomBehind ea

instance (b : MockBackend) : Decidable b.Fits := inferInstanceAs (Decidable (∀ ea ∈ _, _))

variable [Host] {b : MockBackend}

/-! ## Functions -/

omit [Host] in
lemma mem_names_of_mem_toList {e : U64 × String} (he : e ∈ b.names.toList) : e.1 ∈ b.names := by
  rw [← Std.ExtTreeMap.mem_keys, ← Std.ExtTreeMap.map_fst_toList_eq_keys]
  exact List.mem_map_of_mem he

omit [Host] in
lemma require_open_bind_returns {α : Type} {f : Unit → Result α}
    (h : b.open_path.isSome → (f ()).Returns) : (b.require_open >>= f).Returns := by
  rw [require_open]
  split
  · exact h ‹_›
  · exact Outcome.returns_err _

/-- The end of every function can be computed: it lies in the address space, or overflow is not
checked. -/
def EndsInRange (b : MockBackend) : Prop :=
  Host.overflowChecks = false ∨ ∀ ea ∈ b.names, ea.val + 0x40 < 2 ^ 64

lemma functions_vec_returns_iff : b.functions_vec.Returns ↔ b.EndsInRange := by
  rw [functions_vec]
  rw [Outcome.mapList_returns_iff]
  · -- each row adds the fixed size to its address, and nothing else can go wrong
    have hrow : ∀ e : U64 × String, ((do
        let ea_end ← addU64 e.1 0x40
        return ⟨e.1, ea_end, e.2, 0x40⟩ : Result FunctionInfo)).Returns ↔
        Host.overflowChecks = false ∨ e.1.val + 0x40 < 2 ^ 64 := by
      intro e
      have hval : (0x40 : U64).val = 0x40 := rfl
      rw [Outcome.bind_returns, addU64, hval]
      split
      · rename_i h
        simpa [or_comm] using h
      · rename_i h
        simpa [or_comm] using h
    simp only [hrow]
    rw [EndsInRange]
    constructor
    · intro h
      by_cases hc : Host.overflowChecks = false
      · exact .inl hc
      · refine .inr fun ea hea => ?_
        obtain ⟨name, hname⟩ := Option.isSome_iff_exists.mp
          (Std.ExtTreeMap.mem_iff_isSome_getElem?.mp hea)
        have hmem := Std.ExtTreeMap.mem_toList_iff_getElem?_eq_some.mpr hname
        exact (h (ea, name) hmem).resolve_left hc
    · rintro (hc | h) e he
      · exact .inl hc
      · exact .inr (h e.1 (mem_names_of_mem_toList he))
  · intro e err he
    rw [addU64] at he
    split at he <;> cases he

lemma function_at_returns_iff {ea : U64} :
    (b.function_at ea).Returns ↔ b.open_path = none ∨ b.EndsInRange := by
  rw [← functions_vec_returns_iff]
  rw [function_at, require_open]
  cases b.open_path with
  | none => simp [fail]
  | some path => simp [Outcome.bind_returns]

/-- A decompilation panics exactly when it gets as far as the list of functions and the end of one
of them cannot be computed. -/
lemma decompile_returns_iff {ea : U64} :
    (b.decompile ea).Returns ↔ b.decompile_off = true ∨ b.open_path = none ∨ b.EndsInRange := by
  rw [decompile]
  rw [Outcome.bind_returns]
  cases hoff : b.decompile_off with
  | true => simp [Outcome.errIf]
  | false =>
    have hfn : (b.function_at ea).Returns ↔ b.open_path = none ∨ b.EndsInRange :=
      function_at_returns_iff
    cases ho : b.open_path with
    | none => simp [Outcome.errIf, require_open, ho, fail]
    | some path =>
      rw [ho] at hfn
      simp [Outcome.errIf, require_open, ho, Outcome.bind_returns, hfn]

/-! ## Listings -/

omit [Host] in
/-- The last address that a listing from `ea` can step on. -/
def lastSlot (ea : U64) : ℕ := 2 ^ 64 - 4 + ea.val % 4

omit [Host] in
/-- A listing stays in the address space: the default end can be computed, and neither the end
that is given nor the number of instructions takes it past the last address. -/
def Listable (ea : U64) (stop : Option U64) (max_insns : ℕ) : Prop :=
  ea.val + 0x10 < 2 ^ 64 ∧
    ∀ e : U64, e ∈ stop → e.val ≤ lastSlot ea ∨ ea.val + 4 * max_insns ≤ lastSlot ea

instance (ea : U64) (stop : Option U64) (max_insns : ℕ) : Decidable (Listable ea stop max_insns) :=
  inferInstanceAs (Decidable (_ ∧ ∀ e ∈ stop, _))

end MockBackend

end ReverseMcp
