import ReverseMcp.Worker.Transforms

/-!
# What junk removal does to a program

`junk_sites` takes a `mov` of a register to or from memory with a load behind it for a roundtrip.
It sees the kinds of the operands only, so the text stands for every choice of registers and
slots.  The choices are an `Assignment`, a `mov` with one is a move between two locations, and
every other instruction may do anything.

`junk_removal_preserves_iff` compares a listing with what is left of it when the selected pairs
are no-ops, over all assignments, all surroundings and all initial states: they agree only when
nothing is selected.
-/

namespace ReverseMcp

open Rust

namespace Transforms

/-! ## Selected positions -/

/-- The positions that the loop of `junk_sites` selects when it has found `n` sites so far. -/
def junkMask (n : ℕ) : List InsnInfo → List Bool
  | a :: b :: rest =>
    if pair_is_roundtrip a b then
      true :: true :: if MAX_SITES ≤ n + 1 then rest.map fun _ => false else junkMask (n + 1) rest
    else false :: junkMask n (b :: rest)
  | l => l.map fun _ => false

/-- The sites of the selected pairs. -/
def maskSites : List InsnInfo → List Bool → List Site
  | a :: b :: rest, true :: true :: mask => junkSite a b :: maskSites rest mask
  | _ :: rest, _ :: mask => maskSites rest mask
  | _, _ => []

lemma maskSites_false (l : List InsnInfo) : maskSites l (l.map fun _ => false) = [] := by
  induction l with
  | nil => rfl
  | cons a l ih => simpa [maskSites] using ih

/-- The mask is that of `junk_sites`: the sites found are those of the selected pairs. -/
theorem junkFrom_eq_maskSites (l : List InsnInfo) (sites : List Site) :
    junkFrom l sites = sites ++ maskSites l (junkMask sites.length l) := by
  fun_induction junkFrom l sites with
  | case1 a b rest sites h sites' hmax =>
    have hlen : MAX_SITES ≤ sites.length + 1 := by simpa [sites'] using hmax
    rw [junkMask, if_pos h, if_pos hlen, maskSites, maskSites_false]
  | case2 a b rest sites h sites' hmax ih =>
    have hlen : ¬ MAX_SITES ≤ sites.length + 1 := by simpa [sites'] using hmax
    rw [junkMask, if_pos h, if_neg hlen, maskSites, ih]
    simp [sites']
  | case3 a b rest sites h ih =>
    rw [junkMask, if_neg h, maskSites, ih]
    simp
  | case4 l sites h =>
    have hl : junkMask sites.length l = l.map fun _ => false := by
      cases l with
      | nil => rfl
      | cons a l =>
        cases l with
        | nil => rfl
        | cons b rest => exact absurd rfl (h a b rest)
    rw [hl, maskSites_false, List.append_nil]

/-- Without a roundtrip pair nothing is selected. -/
lemma junkMask_of_isChain (n : ℕ) {l : List InsnInfo}
    (h : l.IsChain fun a b => ¬ pair_is_roundtrip a b) :
    junkMask n l = l.map fun _ => false := by
  induction l with
  | nil => rfl
  | cons a l ih =>
    cases l with
    | nil => rfl
    | cons b rest =>
      obtain ⟨hab, hrest⟩ := List.isChain_cons_cons.mp h
      rw [junkMask, if_neg hab, ih hrest]
      rfl

/-- With one, a load of a register from memory is selected. -/
lemma exists_selected_load (n : ℕ) {l : List InsnInfo}
    (h : ¬ l.IsChain fun a b => ¬ pair_is_roundtrip a b) :
    ∃ (j : ℕ) (insn : InsnInfo) (src : String), l[j]? = some insn ∧
      (junkMask n l)[j]? = some true ∧ movKinds insn = some ("Reg", src) ∧ isMem src := by
  induction l with
  | nil => exact absurd List.IsChain.nil h
  | cons a l ih =>
    cases l with
    | nil => exact absurd (List.IsChain.singleton a) h
    | cons b rest =>
      by_cases hab : pair_is_roundtrip a b
      · -- in both patterns the second instruction of the pair is a load
        refine ⟨1, b, ?_⟩
        have hload : ∃ src, movKinds b = some ("Reg", src) ∧ isMem src := by
          simp only [pair_is_roundtrip] at hab
          split at hab
          · rename_i a0 a1 b0 b1 ha hb
            simp only [Bool.or_eq_true, Bool.and_eq_true, decide_eq_true_eq] at hab
            obtain ⟨⟨_, hb0⟩, hb1⟩ | ⟨⟨_, hb0⟩, hb1⟩ := hab
            · exact ⟨b1, by rw [hb, hb0], hb1⟩
            · exact ⟨b1, by rw [hb, hb0], hb1⟩
          · cases hab
        obtain ⟨src, hsrc, hmem⟩ := hload
        refine ⟨src, rfl, ?_, hsrc, hmem⟩
        rw [junkMask, if_pos hab]
        rfl
      · have hrest : ¬ (b :: rest).IsChain fun a b => ¬ pair_is_roundtrip a b :=
          fun hc => h (List.isChain_cons_cons.mpr ⟨hab, hc⟩)
        obtain ⟨j, insn, src, hj, hmask, hsrc⟩ := ih hrest
        refine ⟨j + 1, insn, src, by simpa using hj, ?_, hsrc⟩
        rw [junkMask, if_neg hab]
        simpa using hmask

/-! ## Concrete instructions -/

/-- A general purpose register. -/
abbrev Register : Type := Fin 16

/-- A place that a `mov` reads or writes. -/
inductive Loc where
  | reg (r : Register)
  | slot (ea : U64)
deriving DecidableEq

/-- The registers and the memory. -/
abbrev Machine : Type := Loc → U64

/-- The register or the memory slot that each operand stands for, by the position of the
instruction and by whether it is the second operand. -/
structure Assignment where
  reg : ℕ → Bool → Register
  slot : ℕ → Bool → U64

/-- The place that an operand of the given kind stands for. -/
def operandLoc (σ : Assignment) (i : ℕ) (second : Bool) (kind : String) : Option Loc :=
  if kind = "Reg" then some (.reg (σ.reg i second))
  else if isMem kind then some (.slot (σ.slot i second))
  else none

/-- The destination and the source of a `mov` between registers and memory. -/
def movLocs (σ : Assignment) (i : ℕ) (insn : InsnInfo) : Option (Loc × Loc) :=
  (movKinds insn).bind fun kinds =>
    (operandLoc σ i false kinds.1).bind fun dst =>
      (operandLoc σ i true kinds.2).map fun src => (dst, src)

/-- One instruction: a move, or whatever the surroundings do at this position. -/
def execInsn (σ : Assignment) (other : ℕ → Machine → Machine) (i : ℕ) (insn : InsnInfo)
    (st : Machine) : Machine :=
  match movLocs σ i insn with
  | some (dst, src) => Function.update st dst (st src)
  | none => other i st

/-- A straight-line execution from position `i`; instructions marked `true` are no-ops. -/
def runListing (σ : Assignment) (other : ℕ → Machine → Machine) (i : ℕ) :
    List (InsnInfo × Bool) → Machine → Machine
  | [], st => st
  | (insn, removed) :: rest, st =>
    runListing σ other (i + 1) rest (if removed then st else execInsn σ other i insn st)

/-- The listing as it stands. -/
def original (l : List InsnInfo) : List (InsnInfo × Bool) := l.zip (l.map fun _ => false)

/-- The listing with the pairs that `junk_sites` selects replaced by no-ops. -/
def junkRemoved (l : List InsnInfo) : List (InsnInfo × Bool) := l.zip (junkMask 0 l)

/-! ## A distinguishing execution -/

section Distinguish

variable (j : ℕ)

/-- Position `j` uses register 1 and slot 1, every other position register 0 and slot 0. -/
def apart : Assignment where
  reg i _ := if i = j then 1 else 0
  slot i _ := if i = j then 1 else 0

/-- Slot 1 holds 1, everything else 0. -/
def marked : Machine := fun loc => if loc = .slot 1 then 1 else 0

lemma operandLoc_apart {i : ℕ} (hi : i ≠ j) {second : Bool} {kind : String} {loc : Loc}
    (h : operandLoc (apart j) i second kind = some loc) : loc = .reg 0 ∨ loc = .slot 0 := by
  rw [operandLoc] at h
  split at h
  · simp only [apart, hi, if_false, Option.some.injEq] at h
    exact .inl h.symm
  · split at h
    · simp only [apart, hi, if_false, Option.some.injEq] at h
      exact .inr h.symm
    · cases h

/-- The other positions leave register 1 and slot 1 alone. -/
lemma execInsn_apart {i : ℕ} (hi : i ≠ j) (insn : InsnInfo) (st : Machine) {loc : Loc}
    (hloc : loc = .reg 1 ∨ loc = .slot 1) :
    execInsn (apart j) (fun _ st => st) i insn st loc = st loc := by
  rw [execInsn]
  cases h : movLocs (apart j) i insn with
  | none => rfl
  | some p =>
    obtain ⟨dst, src⟩ := p
    have hdst : dst = .reg 0 ∨ dst = .slot 0 := by
      simp only [movLocs, Option.bind_eq_some_iff, Option.map_eq_some_iff, Prod.mk.injEq] at h
      obtain ⟨kinds, -, d, hd, s, -, rfl, -⟩ := h
      exact operandLoc_apart j hi hd
    refine Function.update_of_ne ?_ _ _
    rcases hloc with rfl | rfl <;> rcases hdst with rfl | rfl <;> decide

/-- So does an execution that does not come to position `j`, or finds a no-op there. -/
lemma runListing_apart {i : ℕ} {l : List (InsnInfo × Bool)} {st : Machine} {loc : Loc}
    (hloc : loc = .reg 1 ∨ loc = .slot 1)
    (h : ∀ k p, l[k]? = some p → i + k = j → p.2 = true) :
    runListing (apart j) (fun _ st => st) i l st loc = st loc := by
  induction l generalizing i st with
  | nil => rfl
  | cons p l ih =>
    obtain ⟨insn, removed⟩ := p
    rw [runListing, ih fun k p hp hk => h (k + 1) p (by simpa using hp) (by omega)]
    split
    · rfl
    · rename_i hr
      refine execInsn_apart j (fun hi => hr ?_) insn st hloc
      simpa using h 0 (insn, removed) rfl (by omega)

/-- The load at position `j` brings the mark to register 1. -/
lemma execInsn_marks {insn : InsnInfo} {src : String} (hsrc : movKinds insn = some ("Reg", src))
    (hmem : isMem src) {st : Machine} (hst : st (.slot 1) = 1) :
    execInsn (apart j) (fun _ st => st) j insn st (.reg 1) = 1 := by
  have hne : src ≠ "Reg" := by
    rintro rfl
    exact absurd hmem (by decide)
  have hlocs : movLocs (apart j) j insn = some (.reg 1, .slot 1) := by
    simp [movLocs, hsrc, operandLoc, hne, hmem, apart]
  rw [execInsn, hlocs]
  simpa using hst

/-- There it stays. -/
lemma runListing_marks {i k : ℕ} {l : List InsnInfo} {insn : InsnInfo} {src : String}
    {st : Machine} (hk : l[k]? = some insn) (hij : i + k = j)
    (hsrc : movKinds insn = some ("Reg", src)) (hmem : isMem src) (hst : st (.slot 1) = 1) :
    runListing (apart j) (fun _ st => st) i (original l) st (.reg 1) = 1 := by
  induction l generalizing i k st with
  | nil => simp at hk
  | cons a l ih =>
    have hcons : original (a :: l) = (a, false) :: original l := rfl
    rw [hcons, runListing]
    cases k with
    | zero =>
      obtain rfl : a = insn := by simpa using hk
      obtain rfl : i = j := by omega
      rw [runListing_apart i (.inl rfl) fun k p _ hk => by omega]
      simpa using execInsn_marks i hsrc hmem hst
    | succ k =>
      refine ih (by simpa using hk) (by omega) ?_
      have hi : i ≠ j := by omega
      simpa using (execInsn_apart j hi a st (.inr rfl)).trans hst

lemma original_marks {l : List InsnInfo} {insn : InsnInfo} {src : String}
    (hj : l[j]? = some insn) (hsrc : movKinds insn = some ("Reg", src)) (hmem : isMem src) :
    runListing (apart j) (fun _ st => st) 0 (original l) marked (.reg 1) = 1 :=
  runListing_marks j hj (by omega) hsrc hmem rfl

/-- Without it register 1 keeps its 0. -/
lemma junkRemoved_unmarked {l : List InsnInfo} (hmask : (junkMask 0 l)[j]? = some true) :
    runListing (apart j) (fun _ st => st) 0 (junkRemoved l) marked (.reg 1) = 0 := by
  rw [runListing_apart j (.inl rfl)]
  · rfl
  · intro k p hp hk
    obtain ⟨-, hp⟩ := List.getElem?_zip_eq_some.mp hp
    obtain rfl : k = j := by omega
    rw [hmask] at hp
    exact (Option.some.inj hp).symm

end Distinguish

/-- For every listing: whatever registers and slots the operands stand for, whatever the other
instructions do and whatever the initial state, the code without the selected pairs ends with
the registers and the memory of the original, iff no two neighbours of the listing match the
pattern. -/
theorem junk_removal_preserves_iff (l : List InsnInfo) :
    (∀ (σ : Assignment) (other : ℕ → Machine → Machine) (st : Machine),
        runListing σ other 0 (junkRemoved l) st = runListing σ other 0 (original l) st) ↔
      l.IsChain fun a b => ¬ pair_is_roundtrip a b := by
  constructor
  · intro hpres
    by_contra hchain
    obtain ⟨j, insn, src, hj, hmask, hsrc, hmem⟩ := exists_selected_load 0 hchain
    have heq := congrFun (hpres (apart j) (fun _ st => st) marked) (.reg 1)
    rw [junkRemoved_unmarked j hmask, original_marks j hj hsrc hmem] at heq
    exact absurd heq (by decide)
  · intro hchain σ other st
    rw [junkRemoved, junkMask_of_isChain 0 hchain, original]

/-- A store of register 0 to slot 0 with a load of register 1 from slot 1 behind it is taken for
a roundtrip; without the pair register 1 is not loaded. -/
theorem junk_removal_not_preserving :
    ∃ (l : List InsnInfo) (σ : Assignment) (other : ℕ → Machine → Machine) (st : Machine),
      runListing σ other 0 (junkRemoved l) st ≠ runListing σ other 0 (original l) st := by
  refine ⟨[⟨0x401000, "mov", "Displ, Reg", "mov Displ, Reg"⟩,
    ⟨0x401004, "mov", "Reg, Displ", "mov Reg, Displ"⟩], apart 1, fun _ st => st, marked, ?_⟩
  intro heq
  exact absurd (congrFun heq (.reg 1)) (by decide +kernel)

end Transforms

end ReverseMcp
