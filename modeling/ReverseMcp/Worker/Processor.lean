import ReverseMcp.Worker.Transforms

/-!
# Running a listing

A processor that runs the instructions of a listing, as far as the branch transforms depend on it:
a compare sets the flags, a conditional jump reads the zero flag, a jump through a register goes to
its value, and a `mov` to a register writes it.  Every other instruction may do anything
(`Semantics`).  A listing has no lengths, so an instruction ends where the next one begins.

`stepPatched` runs the code with no-ops in the place of the bytes of some sites, one byte each.
-/

namespace ReverseMcp

open Rust

namespace Transforms

/-! ## Instructions -/

/-- The values of the operands, by their text in lower case. -/
abbrev Operands : Type := String → U64

/-- The zero flag, and the other ones together. -/
structure Flags where
  zero : Bool
  rest : ℕ

/-- The state of the processor. -/
structure Cpu where
  pc : U64
  flags : Flags
  store : Operands

/-- What an instruction does, as far as it is fixed. -/
inductive InsnKind where
  | compare
  | condJump
  | regJump (reg : String)
  | regMove (dst src : String)
  | other
deriving DecidableEq

/-- The registers that a `mov` writes. -/
def moveKind (insn : InsnInfo) : InsnKind :=
  match splitTrim insn.operands with
  | [a, b] =>
    if is_reg (toAsciiLowercase a) then .regMove (toAsciiLowercase a) (toAsciiLowercase b)
    else .other
  | _ => .other

/-- The kind of an instruction. -/
def kindOf (insn : InsnInfo) : InsnKind :=
  let m := toAsciiLowercase insn.mnemonic
  if (m = "cmp" ∨ m = "test") ∧ (splitTrim insn.operands).length = 2 then .compare
  else if isCondJump insn then .condJump
  else if m = "jmp" ∧ is_reg (regText insn) then .regJump (regText insn)
  else if m = "mov" then moveKind insn
  else .other

/-- The zero flag after a compare. -/
def zeroFlag (values : Operands) (insn : InsnInfo) : Bool :=
  match splitTrim insn.operands with
  | [a, b] =>
    let x := values (toAsciiLowercase a)
    let y := values (toAsciiLowercase b)
    if toAsciiLowercase insn.mnemonic = "cmp" then x = y else x.val &&& y.val = 0
  | _ => false

/-- A jump on the zero flag is taken. -/
def taken (zf : Bool) (insn : InsnInfo) : Bool :=
  if toAsciiLowercase insn.mnemonic ∈ ["jz", "je"] then zf else !zf

/-- What a register holds after a value has been written to it: 64 bits, or the lower 32. -/
def held (reg : String) (v : U64) : U64 :=
  if reg ∈ ["eax", "ebx", "ecx", "edx", "esi", "edi", "ebp", "esp"] then
    Fin.ofNat (2 ^ 64) (v.val % 2 ^ 32)
  else v

/-- What is not fixed: the other flags of a compare, the targets of direct jumps, what a write to a
register does to the other operands, and the other instructions.  Of these it is known which read
flags and which set all of them. -/
structure Semantics where
  rest : InsnInfo → Operands → ℕ
  target : InsnInfo → U64
  write : Operands → String → U64 → Operands
  other : InsnInfo → U64 → Cpu → Cpu
  reads : InsnInfo → Bool
  sets : InsnInfo → Bool
  write_self (values : Operands) (reg : String) (v : U64) : write values reg v reg = held reg v
  other_pc (insn : InsnInfo) (next : U64) (c : Cpu) (flags : Flags) :
    reads insn = false → (other insn next { c with flags := flags }).pc = (other insn next c).pc
  other_store (insn : InsnInfo) (next : U64) (c : Cpu) (flags : Flags) :
    reads insn = false →
      (other insn next { c with flags := flags }).store = (other insn next c).store
  other_flags (insn : InsnInfo) (next : U64) (c : Cpu) (flags : Flags) :
    reads insn = false → sets insn = true →
      (other insn next { c with flags := flags }).flags = (other insn next c).flags

namespace Semantics

variable (sem : Semantics)

/-- An instruction, with the address behind it. -/
def exec (insn : InsnInfo) (next : U64) (c : Cpu) : Cpu :=
  match kindOf insn with
  | .compare => { c with pc := next, flags := ⟨zeroFlag c.store insn, sem.rest insn c.store⟩ }
  | .condJump => { c with pc := if taken c.flags.zero insn then sem.target insn else next }
  | .regJump reg => { c with pc := c.store reg }
  | .regMove dst src => { c with pc := next, store := sem.write c.store dst (c.store src) }
  | .other => sem.other insn next c

/-- The instruction depends on the flags. -/
def readsFlags (insn : InsnInfo) : Bool :=
  match kindOf insn with
  | .condJump => true
  | .other => sem.reads insn
  | _ => false

/-- The instruction sets all flags. -/
def setsFlags (insn : InsnInfo) : Bool :=
  match kindOf insn with
  | .compare => true
  | .other => sem.sets insn
  | _ => false

variable {sem} {insn : InsnInfo} {next : U64}

lemma exec_compare (h : kindOf insn = .compare) (c : Cpu) : sem.exec insn next c =
    { c with pc := next, flags := ⟨zeroFlag c.store insn, sem.rest insn c.store⟩ } := by
  rw [exec, h]

lemma exec_condJump (h : kindOf insn = .condJump) (c : Cpu) : sem.exec insn next c =
    { c with pc := if taken c.flags.zero insn then sem.target insn else next } := by
  rw [exec, h]

lemma exec_regJump {reg : String} (h : kindOf insn = .regJump reg) (c : Cpu) :
    sem.exec insn next c = { c with pc := c.store reg } := by
  rw [exec, h]

lemma exec_regMove {dst src : String} (h : kindOf insn = .regMove dst src) (c : Cpu) :
    sem.exec insn next c =
      { c with pc := next, store := sem.write c.store dst (c.store src) } := by
  rw [exec, h]

end Semantics

/-- Two states are alike: they differ in the flags at most, and only if those are stale. -/
structure Alike (stale : Bool) (c c' : Cpu) : Prop where
  pc : c'.pc = c.pc
  store : c'.store = c.store
  flags : stale = false → c'.flags = c.flags

/-- An instruction that does not read stale flags keeps states alike. -/
lemma Alike.exec {sem : Semantics} {stale : Bool} {c c' : Cpu} {insn : InsnInfo}
    (h : Alike stale c c') (hreads : stale = true → sem.readsFlags insn = false) (next : U64) :
    Alike (stale && !sem.setsFlags insn) (sem.exec insn next c) (sem.exec insn next c') := by
  obtain ⟨pc, flags, store⟩ := c
  obtain ⟨pc', flags', store'⟩ := c'
  obtain ⟨rfl, rfl, hflags⟩ := h
  cases stale with
  | false =>
    obtain rfl := hflags rfl
    exact ⟨rfl, rfl, fun _ => rfl⟩
  | true =>
    have hreads := hreads rfl
    rw [Semantics.readsFlags] at hreads
    rw [Semantics.setsFlags]
    cases hkind : kindOf insn with
    | compare =>
      rw [Semantics.exec_compare hkind, Semantics.exec_compare hkind]
      exact ⟨rfl, rfl, fun _ => rfl⟩
    | condJump =>
      rw [hkind] at hreads
      cases hreads
    | regJump reg =>
      rw [Semantics.exec_regJump hkind, Semantics.exec_regJump hkind]
      exact ⟨rfl, rfl, nofun⟩
    | regMove dst src =>
      rw [Semantics.exec_regMove hkind, Semantics.exec_regMove hkind]
      exact ⟨rfl, rfl, nofun⟩
    | other =>
      rw [hkind] at hreads
      rw [Semantics.exec, Semantics.exec, hkind]
      dsimp only
      refine ⟨sem.other_pc insn next ⟨pc', flags, store'⟩ flags' hreads,
        sem.other_store insn next ⟨pc', flags, store'⟩ flags' hreads, fun hsets => ?_⟩
      rw [Bool.true_and, Bool.not_eq_false'] at hsets
      exact sem.other_flags insn next ⟨pc', flags, store'⟩ flags' hreads hsets

/-! ## Programs -/

/-- The address behind an instruction: that of the next one, or the end of the function. -/
def behind (stop : U64) : List InsnInfo → U64
  | next :: _ => next.ea
  | [] => stop

/-- The instruction at an address, with the address behind it. -/
def insnAt (stop : U64) : List InsnInfo → U64 → Option (InsnInfo × U64)
  | [], _ => none
  | insn :: rest, a => if insn.ea = a then some (insn, behind stop rest) else insnAt stop rest a

/-- Instructions that stand one behind the other, run in order. -/
def runDown (sem : Semantics) (stop : U64) : List InsnInfo → Cpu → Cpu
  | [], c => c
  | insn :: rest, c => runDown sem stop rest (sem.exec insn (behind stop rest) c)

/-- Code that is replaced: its instructions, with the addresses behind them, and the site of the
patch. -/
structure Removal where
  own : List (InsnInfo × U64)
  site : Site

/-- The code that is replaced, run in order. -/
def Removal.exec (sem : Semantics) (r : Removal) (c : Cpu) : Cpu :=
  r.own.foldl (fun c e => sem.exec e.1 e.2 c) c

/-- The address behind the last no-op of the site, as a number. -/
def Site.stop (site : Site) : ℕ := site.ea.val + site.len

/-- The byte is one of the no-ops. -/
def covered (rs : List Removal) (a : U64) : Bool :=
  rs.any fun r => r.site.ea.val ≤ a.val && a.val < r.site.stop

/-- No byte of the instruction between the addresses is overwritten. -/
def intact (rs : List Removal) (a next : U64) : Bool :=
  rs.all fun r => next.val ≤ r.site.ea.val || r.site.stop ≤ a.val

section
variable (sem : Semantics) (stop : U64) (l : List InsnInfo) (rs : List Removal)

/-- A step of the code as it stands: the code of a site, or another instruction, which is what is
observed of the step. -/
def stepOriginal (c : Cpu) : Option (Option U64 × Cpu) :=
  match rs.find? fun r => r.site.ea = c.pc with
  | some r => some (none, r.exec sem c)
  | none => (insnAt stop l c.pc).map fun e => (some c.pc, sem.exec e.1 e.2 c)

/-- A step of the patched code: a no-op, or an instruction of which every byte is left.  What is
left of the other ones is not an instruction of the listing. -/
def stepPatched (c : Cpu) : Option (Option U64 × Cpu) :=
  if covered rs c.pc then some (none, { c with pc := c.pc + 1 })
  else ((insnAt stop l c.pc).filter fun e => intact rs c.pc e.2).map fun e =>
    (some c.pc, sem.exec e.1 e.2 c)

end

/-- What is observed in `n` steps. -/
def observed (step : Cpu → Option (Option U64 × Cpu)) : ℕ → Cpu → List U64
  | 0, _ => []
  | n + 1, c =>
    match step c with
    | some (seen, c') => seen.toList ++ observed step n c'
    | none => []

section
variable {sem : Semantics} {stop : U64} {l : List InsnInfo} {rs : List Removal}

/-- The no-ops up to an address take as many steps as there are bytes, and nothing else happens. -/
lemma observed_slide {k m : ℕ} {c : Cpu} {a : U64} (hk : c.pc.val + k = a.val)
    (hcovered : ∀ b : U64, c.pc.val ≤ b.val → b.val < a.val → covered rs b = true) :
    observed (stepPatched sem stop l rs) (k + m) c =
      observed (stepPatched sem stop l rs) m { c with pc := a } := by
  induction k generalizing c with
  | zero =>
    obtain rfl : c.pc = a := Fin.ext (by simpa using hk)
    rw [Nat.zero_add]
  | succ k ih =>
    have hsucc : (c.pc + 1).val = c.pc.val + 1 := by
      rw [Fin.val_add]
      exact Nat.mod_eq_of_lt (by have := a.isLt; simp; omega)
    have hstep : stepPatched sem stop l rs c = some (none, { c with pc := c.pc + 1 }) := by
      rw [stepPatched, if_pos (hcovered c.pc le_rfl (by omega))]
    rw [Nat.add_right_comm, observed, hstep]
    exact ih (by rw [hsucc]; omega) fun b hb hb' => hcovered b (by rw [hsucc] at hb; omega) hb'

lemma observed_of_step {step : Cpu → Option (Option U64 × Cpu)} {c c' : Cpu} {seen : Option U64}
    (h : step c = some (seen, c')) (n : ℕ) :
    observed step (n + 1) c = seen.toList ++ observed step n c' := by
  rw [observed, h]

lemma observed_of_stop {step : Cpu → Option (Option U64 × Cpu)} {c : Cpu} (h : step c = none)
    (n : ℕ) : observed step n c = [] := by
  cases n with
  | zero => rfl
  | succ n => rw [observed, h]

end

end Transforms

end ReverseMcp
