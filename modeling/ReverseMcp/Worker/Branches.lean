import ReverseMcp.Rust.Collections
import ReverseMcp.Worker.Junk
import ReverseMcp.Worker.Processor

/-!
# What the branch transforms do to control flow

T1 replaces a compare of an operand with itself and the jump on the zero flag behind it, T3 a jump
through a register, by no-ops, as many as the text of the instructions suggests.

`branch_removal_preserves_iff` says for every listing when the code of a site goes on where the
no-ops do: a T1 site falls through iff it is a `cmp` with `jnz`/`jne`, or a `test` whose operand
happens to have the right value, and the no-ops must end where it does; a T3 site goes to what the
last `mov` has written, and that must be the address behind the no-ops.  In a run in which this is
so at every site the patched code executes the other instructions that the original one does.
-/

namespace ReverseMcp

open Rust

namespace Transforms

/-! ## Selected sites -/

/-- A compare and the jump behind it, with the address behind the jump. -/
structure OpaquePair where
  compare : InsnInfo
  jump : InsnInfo
  fall : U64
deriving DecidableEq

/-- The pairs that the loop of `opaque_sites` selects when it has found `n` sites so far. -/
def opaqueSelected (stop : U64) (n : ℕ) : List InsnInfo → List OpaquePair
  | insn :: next :: rest =>
    if isSelfCompare insn && isCondJump next then
      ⟨insn, next, behind stop rest⟩ ::
        if MAX_SITES ≤ n + 1 then [] else opaqueSelected stop (n + 1) (next :: rest)
    else opaqueSelected stop n (next :: rest)
  | _ => []

/-- The selection is that of `opaque_sites`. -/
theorem opaqueFrom_eq_selected (stop : U64) (l : List InsnInfo) (sites : List Site) :
    opaqueFrom l sites =
      sites ++ (opaqueSelected stop sites.length l).map fun p => opaqueSite p.compare p.jump := by
  fun_induction opaqueFrom l sites with
  | case1 insn next rest sites h sites' hmax =>
    have hlen : MAX_SITES ≤ sites.length + 1 := by simpa [sites'] using hmax
    rw [opaqueSelected, if_pos h, if_pos hlen]
    rfl
  | case2 insn next rest sites h sites' hmax ih =>
    have hlen : ¬ MAX_SITES ≤ sites.length + 1 := by simpa [sites'] using hmax
    rw [opaqueSelected, if_pos h, if_neg hlen, ih]
    simp [sites']
  | case3 insn next rest sites h ih => rw [opaqueSelected, if_neg h, ih]
  | case4 l sites h =>
    have hl : opaqueSelected stop sites.length l = [] := by
      cases l with
      | nil => rfl
      | cons a l =>
        cases l with
        | nil => rfl
        | cons b rest => exact absurd rfl (h a b rest)
    rw [hl, List.map_nil, List.append_nil]

/-- What is selected matches the pattern. -/
lemma opaqueSelected_matches (stop : U64) (n : ℕ) (l : List InsnInfo) :
    ∀ p ∈ opaqueSelected stop n l, isSelfCompare p.compare ∧ isCondJump p.jump := by
  induction l generalizing n with
  | nil => simp [opaqueSelected]
  | cons a l ih =>
    cases l with
    | nil => simp [opaqueSelected]
    | cons b rest =>
      rw [opaqueSelected]
      split
      · rename_i h
        intro p hp
        rcases List.mem_cons.mp hp with rfl | hp
        · simpa using h
        · split at hp
          · simp at hp
          · exact ih (n + 1) p hp
      · exact ih n

/-- A jump through a register, with the constant found for it, the address behind it and the
instructions in front of it, the newest first. -/
structure IndirectJump where
  jump : InsnInfo
  value : U64
  fall : U64
  before : List InsnInfo
deriving DecidableEq

/-- The jumps that the loop of `indirect_sites` selects when it has found `n` sites so far. -/
def indirectSelected (stop : U64) (n : ℕ) (prev : List InsnInfo) :
    List InsnInfo → List IndirectJump
  | [] => []
  | insn :: rest =>
    match indirectValue prev insn with
    | some v => ⟨insn, v, behind stop rest, prev⟩ ::
        if MAX_SITES ≤ n + 1 then [] else indirectSelected stop (n + 1) (insn :: prev) rest
    | none => indirectSelected stop n (insn :: prev) rest

/-- The selection is that of `indirect_sites`. -/
theorem indirectFrom_eq_selected (stop : U64) (prev l : List InsnInfo) (sites : List Site) :
    indirectFrom prev l sites =
      sites ++ (indirectSelected stop sites.length prev l).map fun p =>
        indirectSite p.jump p.value := by
  fun_induction indirectFrom prev l sites with
  | case1 prev sites => simp [indirectSelected]
  | case2 prev insn rest sites v h sites' hmax =>
    have hlen : MAX_SITES ≤ sites.length + 1 := by simpa [sites'] using hmax
    simp [indirectSelected, h, hlen, sites']
  | case3 prev insn rest sites v h sites' hmax ih =>
    have hlen : ¬ MAX_SITES ≤ sites.length + 1 := by simpa [sites'] using hmax
    simp [indirectSelected, h, hlen, ih, sites']
  | case4 prev insn rest sites h ih => simp [indirectSelected, h, ih]

/-- What is selected matches the pattern. -/
lemma indirectSelected_matches (stop : U64) (n : ℕ) (prev l : List InsnInfo) :
    ∀ p ∈ indirectSelected stop n prev l, indirectValue p.before p.jump = some p.value := by
  induction l generalizing n prev with
  | nil => simp [indirectSelected]
  | cons insn rest ih =>
    rw [indirectSelected]
    split
    · rename_i v hv
      intro p hp
      rcases List.mem_cons.mp hp with rfl | hp
      · exact hv
      · split at hp
        · simp at hp
        · exact ih (n + 1) _ p hp
    · exact ih n _

/-! ## T1 -/

namespace OpaquePair

variable (p : OpaquePair) (sem : Semantics)

/-- The code of the site, and the no-ops in its place. -/
def removal : Removal := ⟨[(p.compare, p.jump.ea), (p.jump, p.fall)], opaqueSite p.compare p.jump⟩

/-- The site falls through, and the no-ops end there. -/
def Preserved (c : Cpu) : Prop :=
  (p.removal.exec sem c).pc = p.fall ∧ p.removal.site.stop = p.fall.val

/-- The operand that the compare compares with itself. -/
def operand : String :=
  match splitTrim p.compare.operands with
  | a :: _ => toAsciiLowercase a
  | [] => ""

/-- A `cmp` falls through with `jnz` or `jne`, a `test` with `jz` or `je` iff its operand is not
zero and with `jnz` or `jne` iff it is; or the jump leads there anyway. -/
def FallsThrough (values : Operands) : Prop :=
  (toAsciiLowercase p.compare.mnemonic = "cmp" ∧
      toAsciiLowercase p.jump.mnemonic ∈ ["jnz", "jne"]) ∨
    (toAsciiLowercase p.compare.mnemonic = "test" ∧
      toAsciiLowercase p.jump.mnemonic ∈ ["jz", "je"] ∧ values p.operand ≠ 0) ∨
    (toAsciiLowercase p.compare.mnemonic = "test" ∧
      toAsciiLowercase p.jump.mnemonic ∈ ["jnz", "jne"] ∧ values p.operand = 0) ∨
    sem.target p.jump = p.fall

/-- The words of the compare and the bytes of the text of the jump are as many as the bytes of the
two instructions, up to sixteen. -/
def Fits : Prop := p.compare.ea.val +
  min (insn_len p.compare.text + max 1 (byteLen p.jump.text.toList)) 16 = p.fall.val

instance : Decidable p.Fits := inferInstanceAs (Decidable (_ = _))

variable {p sem}

lemma fits_iff : p.Fits ↔ p.removal.site.stop = p.fall.val := Iff.rfl

lemma kindOf_compare (h : isSelfCompare p.compare) : kindOf p.compare = .compare := by
  rw [isSelfCompare, Bool.and_eq_true, Bool.or_eq_true, decide_eq_true_eq, decide_eq_true_eq] at h
  obtain ⟨hm, hops⟩ := h
  have hlength : (splitTrim p.compare.operands).length = 2 := by
    split at hops
    · rename_i a b hsplit
      rw [hsplit]
      rfl
    · cases hops
  rw [kindOf]
  exact if_pos ⟨hm, hlength⟩

lemma kindOf_condJump {insn : InsnInfo} (h : isCondJump insn) : kindOf insn = .condJump := by
  have hm :
      ¬(toAsciiLowercase insn.mnemonic = "cmp" ∨ toAsciiLowercase insn.mnemonic = "test") := by
    rw [isCondJump, decide_eq_true_eq] at h
    rintro (hm | hm)
    · rw [hm] at h
      exact absurd h (by decide)
    · rw [hm] at h
      exact absurd h (by decide)
  rw [kindOf, if_neg fun hc => hm hc.1, if_pos h]

/-- A compare of an operand with itself sets the zero flag, and a test does if it is zero. -/
lemma zeroFlag_of_selfCompare {values : Operands} (h : isSelfCompare p.compare) :
    (toAsciiLowercase p.compare.mnemonic = "cmp" ∧ zeroFlag values p.compare = true) ∨
      (toAsciiLowercase p.compare.mnemonic = "test" ∧
        (zeroFlag values p.compare = true ↔ values p.operand = 0)) := by
  simp only [isSelfCompare, Bool.and_eq_true, Bool.or_eq_true, decide_eq_true_eq] at h
  obtain ⟨hm, hops⟩ := h
  split at hops
  · rename_i a b hsplit
    simp only [eqIgnoreAsciiCase, beq_iff_eq, Bool.and_eq_true] at hops
    have hab : toAsciiLowercase a = toAsciiLowercase b := hops.1
    rcases hm with hm | hm
    · refine .inl ⟨hm, ?_⟩
      simp [zeroFlag, hsplit, hm, hab]
    · refine .inr ⟨hm, ?_⟩
      have hne : ("test" : String) ≠ "cmp" := by decide
      simp only [zeroFlag, operand, hsplit, hm, hab, hne, if_false, Nat.and_self,
        decide_eq_true_eq]
      exact ⟨fun h => Fin.ext h, fun h => congrArg Fin.val h⟩
  · cases hops

/-- What the code of the site does. -/
lemma exec_removal (hc : isSelfCompare p.compare) (hj : isCondJump p.jump) (c : Cpu) :
    p.removal.exec sem c =
      { c with
        pc := if taken (zeroFlag c.store p.compare) p.jump then sem.target p.jump else p.fall
        flags := ⟨zeroFlag c.store p.compare, sem.rest p.compare c.store⟩ } := by
  rw [Removal.exec, removal, List.foldl_cons, List.foldl_cons, List.foldl_nil,
    Semantics.exec_compare (kindOf_compare hc), Semantics.exec_condJump (kindOf_condJump hj)]

/-- The exact condition at one T1 site. -/
lemma preserved_iff (hc : isSelfCompare p.compare) (hj : isCondJump p.jump) (c : Cpu) :
    p.Preserved sem c ↔ p.FallsThrough sem c.store ∧ p.Fits := by
  rw [Preserved, fits_iff, exec_removal hc hj]
  refine and_congr_left fun _ => ?_
  have hcont : (if taken (zeroFlag c.store p.compare) p.jump then sem.target p.jump else p.fall) =
      p.fall ↔ taken (zeroFlag c.store p.compare) p.jump = false ∨ sem.target p.jump = p.fall := by
    split
    · rename_i ht
      simp [ht]
    · rename_i ht
      simp [ht]
  rw [hcont]
  -- the four jumps come in two senses
  have hsense : (toAsciiLowercase p.jump.mnemonic ∈ ["jz", "je"] ∧
        toAsciiLowercase p.jump.mnemonic ∉ ["jnz", "jne"]) ∨
      (toAsciiLowercase p.jump.mnemonic ∉ ["jz", "je"] ∧
        toAsciiLowercase p.jump.mnemonic ∈ ["jnz", "jne"]) := by
    simp only [isCondJump, List.mem_cons, List.not_mem_nil, or_false, decide_eq_true_eq] at hj
    rcases hj with hj | hj | hj | hj <;> rw [hj] <;> decide
  rcases @zeroFlag_of_selfCompare p c.store hc with ⟨hm, hz⟩ | ⟨hm, hz⟩
  · rcases hsense with ⟨hz1, hn1⟩ | ⟨hz1, hn1⟩
    · simp [FallsThrough, taken, hm, hz, hz1, hn1]
    · simp [FallsThrough, taken, hm, hz, hz1, hn1]
  · rcases hsense with ⟨hz1, hn1⟩ | ⟨hz1, hn1⟩
    · simp [FallsThrough, taken, hm, hz1, hn1, ← hz]
    · simp [FallsThrough, taken, hm, hz1, hn1, ← hz]

end OpaquePair

/-! ## T3 -/

namespace IndirectJump

variable (p : IndirectJump) (sem : Semantics)

/-- The register. -/
def reg : String := regText p.jump

/-- The code of the site, and the no-ops in its place. -/
def removal : Removal := ⟨[(p.jump, p.fall)], indirectSite p.jump p.value⟩

/-- The jump leads to the address behind the no-ops. -/
def Preserved (c : Cpu) : Prop := (p.removal.exec sem c).pc.val = p.removal.site.stop

/-- The no-ops end at this address. -/
def EndsAt (a : U64) : Prop := p.jump.ea.val + min (insn_len p.jump.text) 16 = a.val

/-- The six instructions in front of the jump, the newest first, up to the last `mov` of a constant
to the register. -/
def between : List InsnInfo :=
  (p.before.take 6).takeWhile fun insn => (movConst p.reg insn).isNone

/-- The last `mov` of a constant to the register. -/
def assignment : Option InsnInfo :=
  (p.before.take 6).find? fun insn => (movConst p.reg insn).isSome

/-- The state at the jump, when the code is run from that `mov` on. -/
def arrive (mov : InsnInfo) (c : Cpu) : Cpu :=
  runDown sem p.jump.ea (mov :: p.between.reverse) c

/-- The instructions between the `mov` and the jump leave the register alone. -/
def Keeps (mov : InsnInfo) (c : Cpu) : Prop :=
  (p.arrive sem mov c).store p.reg =
    (sem.exec mov (behind p.jump.ea p.between.reverse) c).store p.reg

variable {p sem}

instance (a : U64) : Decidable (p.EndsAt a) := inferInstanceAs (Decidable (_ = _))

lemma endsAt_iff {a : U64} : p.EndsAt a ↔ a.val = p.removal.site.stop := eq_comm

/-- The jump is one through a register, and the code reads the constant in the last `mov`. -/
lemma indirectValue_spec (h : indirectValue p.before p.jump = some p.value) :
    kindOf p.jump = .regJump p.reg ∧ is_reg p.reg ∧
      ∃ mov, p.assignment = some mov ∧ movConst p.reg mov = some p.value := by
  rw [indirectValue] at h
  split at h
  · rename_i hjump
    obtain ⟨hm, hreg⟩ := hjump
    have hkind : kindOf p.jump = .regJump p.reg := by
      have hcond : isCondJump p.jump = false := by
        rw [isCondJump, hm]
        decide
      rw [kindOf, hm, if_neg (fun hc => absurd hc.1 (by decide)), hcond, if_neg (by decide),
        if_pos ⟨rfl, hreg⟩]
      rfl
    refine ⟨hkind, hreg, ?_⟩
    dsimp only at h
    split at h
    · rename_i v hvalues
      cases h
      -- the constants of the six instructions are one
      have hone (x : U64) (insn : InsnInfo) (hinsn : insn ∈ p.before.take 6)
          (hx : movConst p.reg insn = some x) : x = p.value := by
        have hmem : x ∈ (((p.before.take 6).filterMap (movConst (regText p.jump))).foldl
            (·.insert ·) (∅ : AddrSet)).toList := by
          rw [Std.ExtTreeSet.mem_toList, mem_treeSet_foldl_insert]
          exact .inr (List.mem_filterMap.mpr ⟨insn, hinsn, hx⟩)
        rw [hvalues] at hmem
        exact List.mem_singleton.mp hmem
      have hfound : p.value ∈ (((p.before.take 6).filterMap (movConst (regText p.jump))).foldl
          (·.insert ·) (∅ : AddrSet)).toList := hvalues ▸ List.mem_singleton_self _
      rw [Std.ExtTreeSet.mem_toList, mem_treeSet_foldl_insert, List.mem_filterMap] at hfound
      obtain hfound | ⟨insn, hinsn, hvalue⟩ := hfound
      · exact absurd hfound Std.ExtTreeSet.not_mem_empty
      · have hsome : p.assignment.isSome := by
          rw [assignment, List.find?_isSome]
          exact ⟨insn, hinsn, by rw [reg, hvalue]; rfl⟩
        obtain ⟨mov, hmov⟩ := Option.isSome_iff_exists.mp hsome
        have hconst : (movConst p.reg mov).isSome :=
          List.find?_some (p := fun insn => (movConst p.reg insn).isSome) hmov
        obtain ⟨x, hx⟩ := Option.isSome_iff_exists.mp hconst
        exact ⟨mov, hmov, hone x mov (List.mem_of_find?_eq_some hmov) hx ▸ hx⟩
    · cases h
  · cases h

lemma lower_reg {r : String} (h : is_reg r) : toAsciiLowercase r = r := by
  have hall : ∀ r ∈ ["eax", "ebx", "ecx", "edx", "esi", "edi", "ebp", "esp",
      "rax", "rbx", "rcx", "rdx", "rsi", "rdi", "rbp", "rsp"], toAsciiLowercase r = r := by decide
  rw [is_reg, decide_eq_true_eq] at h
  exact hall r h

/-- A `mov` of a constant to a register is run as one. -/
lemma kindOf_movConst {r : String} (hr : is_reg r) {mov : InsnInfo} {v : U64}
    (h : movConst r mov = some v) : ∃ src, kindOf mov = .regMove r src := by
  rw [movConst] at h
  split at h
  · rename_i hm
    rw [eqIgnoreAsciiCase, beq_iff_eq, show toAsciiLowercase "mov" = "mov" by decide] at hm
    split at h
    · rename_i a b hsplit
      split at h
      · rename_i ha
        rw [eqIgnoreAsciiCase, beq_iff_eq, lower_reg hr] at ha
        have hcond : isCondJump mov = false := by
          rw [isCondJump, hm]
          decide
        refine ⟨toAsciiLowercase b, ?_⟩
        rw [kindOf, hm, if_neg (fun hc => absurd hc.1 (by decide)), hcond, if_neg (by decide),
          if_neg (fun hc => absurd hc.1 (by decide)), if_pos rfl, moveKind, hsplit]
        dsimp only
        rw [ha, if_pos hr]
      · cases h
    · cases h
  · cases h

/-- What the code of the site does. -/
lemma exec_removal (h : kindOf p.jump = .regJump p.reg) (c : Cpu) :
    p.removal.exec sem c = { c with pc := c.store p.reg } := by
  rw [Removal.exec, removal, List.foldl_cons, List.foldl_nil, Semantics.exec_regJump h]

/-- The exact condition at one T3 site. -/
lemma preserved_iff (h : kindOf p.jump = .regJump p.reg) (c : Cpu) :
    p.Preserved sem c ↔ p.EndsAt (c.store p.reg) := by
  rw [Preserved, exec_removal h, endsAt_iff]

/-- The exact condition from the `mov` on. -/
lemma preserved_arrive_iff (h : kindOf p.jump = .regJump p.reg) {mov : InsnInfo} {src : String}
    (hmov : kindOf mov = .regMove p.reg src) {c : Cpu} (hkeeps : p.Keeps sem mov c) :
    p.Preserved sem (p.arrive sem mov c) ↔ p.EndsAt (held p.reg (c.store src)) := by
  rw [preserved_iff h, hkeeps, Semantics.exec_regMove hmov]
  exact (congrArg p.EndsAt (sem.write_self c.store p.reg (c.store src))).to_iff

end IndirectJump

/-! ## Runs -/

/-- A site of T1 or T3. -/
inductive BranchSite where
  | t1 (p : OpaquePair)
  | t3 (p : IndirectJump)
deriving DecidableEq

namespace BranchSite

/-- The code of the site, and the no-ops in its place. -/
def removal : BranchSite → Removal
  | t1 p => p.removal
  | t3 p => p.removal

/-- The code of the site goes on behind the no-ops. -/
def Goes (sem : Semantics) (c : Cpu) : BranchSite → Prop
  | t1 p => p.FallsThrough sem c.store ∧ p.Fits
  | t3 p => p.EndsAt (c.store p.reg)

/-- The flags are not set any more when the code of the site is replaced. -/
def unsets : BranchSite → Bool
  | t1 _ => true
  | t3 _ => false

end BranchSite

/-- The sites that a transform selects in a listing. -/
def branchSites (stop : U64) (l : List InsnInfo) (kind : TransformKind) : List BranchSite :=
  match kind with
  | .T1OpaqueBranch => (opaqueSelected stop 0 l).map .t1
  | .T3IndirectMaterialize => (indirectSelected stop 0 [] l).map .t3
  | _ => []

section
variable (sem : Semantics) (stop : U64) (l : List InsnInfo) (bs : List BranchSite)

/-- In `n` steps from a state the code of every site that is come to goes on behind the no-ops, and
of what else is run no byte is overwritten and nothing depends on the flags of a compare that is
not run any more. -/
def Undisturbed : ℕ → Bool → Cpu → Prop
  | 0, _, _ => True
  | n + 1, stale, c =>
    match bs.find? fun b => b.removal.site.ea = c.pc with
    | some b => b.Goes sem c ∧ Undisturbed n (stale || b.unsets) (b.removal.exec sem c)
    | none =>
      covered (bs.map BranchSite.removal) c.pc = false ∧
        ∀ e, insnAt stop l c.pc = some e →
          intact (bs.map BranchSite.removal) c.pc e.2 = true ∧
            (stale = true → sem.readsFlags e.1 = false) ∧
            Undisturbed n (stale && !sem.setsFlags e.1) (sem.exec e.1 e.2 c)

end

namespace BranchSite

/-- The site matches the pattern. -/
def Matches : BranchSite → Prop
  | t1 p => isSelfCompare p.compare = true ∧ isCondJump p.jump = true
  | t3 p => kindOf p.jump = .regJump p.reg

variable {sem : Semantics} {b : BranchSite} {c : Cpu}

lemma len_pos (b : BranchSite) : 0 < b.removal.site.len := by
  cases b with
  | t1 p =>
    show 0 < min (max 1 _ + max 1 _) 16
    omega
  | t3 p =>
    show 0 < min (max 1 _) 16
    omega

/-- What the code of a site does that goes on behind the no-ops. -/
lemma Goes.exec (hgoes : b.Goes sem c) (hb : b.Matches) :
    (b.removal.exec sem c).pc.val = b.removal.site.stop ∧
      (b.removal.exec sem c).store = c.store ∧
      (b.unsets = false → (b.removal.exec sem c).flags = c.flags) := by
  cases b with
  | t1 p =>
    obtain ⟨hpc, hstop⟩ := (OpaquePair.preserved_iff hb.1 hb.2 c).mpr hgoes
    refine ⟨(congrArg Fin.val hpc).trans hstop.symm, ?_, nofun⟩
    rw [removal, OpaquePair.exec_removal hb.1 hb.2]
  | t3 p =>
    refine ⟨(IndirectJump.preserved_iff hb c).mpr hgoes, ?_, fun _ => ?_⟩
    · rw [removal, IndirectJump.exec_removal hb]
    · rw [removal, IndirectJump.exec_removal hb]

end BranchSite

/-- The sites are those of `opaque_sites` and `indirect_sites`. -/
theorem branchSites_eq (stop : U64) (l : List InsnInfo) :
    (branchSites stop l .T1OpaqueBranch).map (fun b => b.removal.site) = opaqueFrom l [] ∧
      (branchSites stop l .T3IndirectMaterialize).map (fun b => b.removal.site) =
        indirectFrom [] l [] := by
  rw [opaqueFrom_eq_selected stop, indirectFrom_eq_selected stop, branchSites, branchSites,
    List.map_map, List.map_map]
  exact ⟨rfl, rfl⟩

lemma branchSites_match (stop : U64) (l : List InsnInfo) (kind : TransformKind) :
    ∀ b ∈ branchSites stop l kind, b.Matches := by
  intro b hb
  cases kind with
  | T1OpaqueBranch =>
    obtain ⟨p, hp, rfl⟩ := List.mem_map.mp hb
    exact opaqueSelected_matches stop 0 l p hp
  | T3IndirectMaterialize =>
    obtain ⟨p, hp, rfl⟩ := List.mem_map.mp hb
    exact (IndirectJump.indirectValue_spec (indirectSelected_matches stop 0 [] l p hp)).1
  | T2JunkRemoval | T4Unflatten => cases hb

/-- In an undisturbed run the patched code does what the original code does. -/
lemma observed_eq {sem : Semantics} {stop : U64} {l : List InsnInfo} {bs : List BranchSite}
    (hbs : ∀ b ∈ bs, b.Matches) {n : ℕ} {stale : Bool} {c c' : Cpu}
    (h : Undisturbed sem stop l bs n stale c) (halike : Alike stale c c') :
    ∃ m ≥ n, observed (stepPatched sem stop l (bs.map BranchSite.removal)) m c' =
      observed (stepOriginal sem stop l (bs.map BranchSite.removal)) n c := by
  induction n generalizing stale c c' with
  | zero => exact ⟨0, le_rfl, rfl⟩
  | succ n ih =>
    have horiginal : (bs.map BranchSite.removal).find? (fun r => r.site.ea = c.pc) =
        (bs.find? fun b => b.removal.site.ea = c.pc).map BranchSite.removal := List.find?_map
    rw [Undisturbed] at h
    cases hfind : bs.find? fun b => b.removal.site.ea = c.pc with
    | some b =>
      -- the code of a site is run on one side, its no-ops on the other
      rw [hfind] at h horiginal
      obtain ⟨hgoes, hrest⟩ := h
      have hb := List.mem_of_find?_eq_some hfind
      have hea : b.removal.site.ea = c.pc := by simpa using List.find?_some hfind
      obtain ⟨hpc, hstore, hflags⟩ := hgoes.exec (hbs b hb)
      have hstep : stepOriginal sem stop l (bs.map BranchSite.removal) c =
          some (none, b.removal.exec sem c) := by
        rw [stepOriginal, horiginal]
        rfl
      have halike' : Alike (stale || b.unsets) (b.removal.exec sem c)
          { c' with pc := (b.removal.exec sem c).pc } := by
        refine ⟨rfl, halike.store.trans hstore.symm, fun hstale => ?_⟩
        rw [Bool.or_eq_false_iff] at hstale
        exact (halike.flags hstale.1).trans (hflags hstale.2).symm
      have hlen : c'.pc.val + b.removal.site.len = (b.removal.exec sem c).pc.val := by
        rw [hpc, halike.pc, ← hea]
        rfl
      have hcovered (a : U64) (ha : c'.pc.val ≤ a.val)
          (ha' : a.val < (b.removal.exec sem c).pc.val) :
          covered (bs.map BranchSite.removal) a = true := by
        rw [halike.pc, ← hea] at ha
        rw [hpc] at ha'
        refine List.any_eq_true.mpr ⟨b.removal, List.mem_map_of_mem hb, ?_⟩
        rw [Bool.and_eq_true, decide_eq_true_eq, decide_eq_true_eq]
        exact ⟨ha, ha'⟩
      obtain ⟨m, hm, hobserved⟩ := ih hrest halike'
      have hpos := b.len_pos
      refine ⟨b.removal.site.len + m, by omega, ?_⟩
      rw [observed_slide hlen hcovered, hobserved, observed_of_step hstep]
      rfl
    | none =>
      rw [hfind] at h horiginal
      obtain ⟨hfree, hnext⟩ := h
      have hfree' : ¬covered (bs.map BranchSite.removal) c'.pc = true := by
        rw [halike.pc, hfree]
        decide
      cases hinsn : insnAt stop l c.pc with
      | none =>
        have hstop : stepOriginal sem stop l (bs.map BranchSite.removal) c = none := by
          rw [stepOriginal, horiginal, hinsn]
          rfl
        have hstop' : stepPatched sem stop l (bs.map BranchSite.removal) c' = none := by
          rw [stepPatched, if_neg hfree', halike.pc, hinsn]
          rfl
        exact ⟨n + 1, le_rfl, by rw [observed_of_stop hstop, observed_of_stop hstop']⟩
      | some e =>
        obtain ⟨hintact, hreads, hrest⟩ := hnext e hinsn
        have hstep : stepOriginal sem stop l (bs.map BranchSite.removal) c =
            some (some c.pc, sem.exec e.1 e.2 c) := by
          rw [stepOriginal, horiginal, hinsn]
          rfl
        have hstep' : stepPatched sem stop l (bs.map BranchSite.removal) c' =
            some (some c.pc, sem.exec e.1 e.2 c') := by
          rw [stepPatched, if_neg hfree', halike.pc, hinsn, Option.filter_some, if_pos hintact]
          rfl
        obtain ⟨m, hm, hobserved⟩ := ih hrest (halike.exec hreads e.2)
        refine ⟨m + 1, Nat.succ_le_succ hm, ?_⟩
        rw [observed_of_step hstep', observed_of_step hstep, hobserved]

/-- For every listing, and whatever is not fixed of the processor.  The code of a T1 site goes on
behind the no-ops iff it falls through and its texts stand for its bytes.  The code of a T3 site
does iff its register has the address behind them, and when it is run from the last `mov` of a
constant to the register on, and nothing in between changes that, iff the constant is this address.
In a run in which it is so at every site that is come to, the patched code executes the same other
instructions. -/
theorem branch_removal_preserves_iff (sem : Semantics) (stop : U64) (l : List InsnInfo) :
    (∀ p ∈ opaqueSelected stop 0 l, ∀ c,
        p.Preserved sem c ↔ p.FallsThrough sem c.store ∧ p.Fits) ∧
      (∀ p ∈ indirectSelected stop 0 [] l,
        (∀ c, p.Preserved sem c ↔ p.EndsAt (c.store p.reg)) ∧
        ∃ mov src, p.assignment = some mov ∧ kindOf mov = .regMove p.reg src ∧
          ∀ c, p.Keeps sem mov c →
            (p.Preserved sem (p.arrive sem mov c) ↔ p.EndsAt (held p.reg (c.store src)))) ∧
      ∀ kind c, (∀ n, Undisturbed sem stop l (branchSites stop l kind) n false c) →
        ∀ n, ∃ m ≥ n,
          observed (stepPatched sem stop l ((branchSites stop l kind).map BranchSite.removal)) m
              c =
            observed (stepOriginal sem stop l ((branchSites stop l kind).map BranchSite.removal))
              n c := by
  refine ⟨fun p hp c => ?_, fun p hp => ?_, fun kind c h n => ?_⟩
  · obtain ⟨hc, hj⟩ := opaqueSelected_matches stop 0 l p hp
    exact OpaquePair.preserved_iff hc hj c
  · obtain ⟨hkind, hreg, mov, hmov, hconst⟩ :=
      IndirectJump.indirectValue_spec (indirectSelected_matches stop 0 [] l p hp)
    obtain ⟨src, hsrc⟩ := IndirectJump.kindOf_movConst hreg hconst
    exact ⟨IndirectJump.preserved_iff hkind, mov, src, hmov, hsrc,
      fun c => IndirectJump.preserved_arrive_iff hkind hsrc⟩
  · exact observed_eq (branchSites_match stop l kind) (h n) ⟨rfl, rfl, fun _ => rfl⟩

/-! ## Two listings -/

/-- A processor on which `retn` leaves the listing and every direct jump goes to one address. -/
def Semantics.plain (target : U64) : Semantics where
  rest _ _ := 0
  target _ := target
  write values reg v := Function.update values reg (held reg v)
  other insn next c := { c with pc := if insn.mnemonic = "retn" then 0 else next }
  reads _ := false
  sets _ := false
  write_self values reg v := Function.update_self reg (held reg v) values
  other_pc _ _ _ _ _ := rfl
  other_store _ _ _ _ _ := rfl
  other_flags _ _ _ _ _ h := nomatch h

/-- A compare with a jump of two and six bytes, and the end of the function. -/
def fitting : List InsnInfo :=
  [⟨0x401000, "cmp", "eax, eax", "cmp eax, eax"⟩, ⟨0x401002, "jnz", "L", "jnz L"⟩,
    ⟨0x401008, "retn", "", "retn"⟩]

/-- The state in front of the listings. -/
def Cpu.start (pc : U64) : Cpu := ⟨pc, ⟨false, 0⟩, fun _ => 0⟩

lemma branchSites_fitting : branchSites 0x401009 fitting .T1OpaqueBranch =
    [.t1 ⟨⟨0x401000, "cmp", "eax, eax", "cmp eax, eax"⟩, ⟨0x401002, "jnz", "L", "jnz L"⟩,
      0x401008⟩] := by
  decide +kernel

/-- Its site falls through, and the `retn` behind it is run. -/
lemma undisturbed_fitting (n : ℕ) : Undisturbed (.plain 0x401020) 0x401009 fitting
    (branchSites 0x401009 fitting .T1OpaqueBranch) n false (.start 0x401000) := by
  rw [branchSites_fitting]
  cases n with
  | zero => trivial
  | succ n =>
    refine ⟨⟨.inl (by decide), by decide⟩, ?_⟩
    cases n with
    | zero => trivial
    | succ n =>
      refine ⟨by decide +kernel, fun e he => ?_⟩
      obtain rfl : (⟨0x401008, "retn", "", "retn"⟩, 0x401009) = e :=
        Option.some.inj (Eq.trans (by decide +kernel) he)
      refine ⟨by decide +kernel, fun _ => by decide +kernel, ?_⟩
      cases n with
      | zero => trivial
      | succ n => exact ⟨by decide +kernel, fun e he => nomatch he⟩

/-- A jump to the instruction behind it. -/
def landing : List InsnInfo :=
  [⟨0x401000, "mov", "rax, 0x401009", "mov rax, 0x401009"⟩, ⟨0x401007, "jmp", "rax", "jmp rax"⟩,
    ⟨0x401009, "retn", "", "retn"⟩]

/-- The jump of that listing. -/
def landingJump : IndirectJump :=
  ⟨⟨0x401007, "jmp", "rax", "jmp rax"⟩, 0x401009, 0x401009,
    [⟨0x401000, "mov", "rax, 0x401009", "mov rax, 0x401009"⟩]⟩

/-- `cmp eax, eax` with a near `jnz` can be replaced, and so can a jump to the instruction behind
it. -/
theorem branch_removal_preserves_iff_fitting :
    (∀ n, ∃ m ≥ n,
      observed (stepPatched (.plain 0x401020) 0x401009 fitting
          ((branchSites 0x401009 fitting .T1OpaqueBranch).map BranchSite.removal)) m
          (.start 0x401000) =
        observed (stepOriginal (.plain 0x401020) 0x401009 fitting
          ((branchSites 0x401009 fitting .T1OpaqueBranch).map BranchSite.removal)) n
          (.start 0x401000)) ∧
      ∃ mov, landingJump.assignment = some mov ∧
        landingJump.Preserved (.plain 0x401020) (landingJump.arrive (.plain 0x401020) mov
          ⟨0x401000, ⟨false, 0⟩, fun _ => 0x401009⟩) := by
  refine ⟨(branch_removal_preserves_iff (.plain 0x401020) 0x401009 fitting).2.2 .T1OpaqueBranch
    (.start 0x401000) undisturbed_fitting, ?_⟩
  obtain ⟨-, mov, src, hmov, -, hiff⟩ :=
    (branch_removal_preserves_iff (.plain 0x401020) 0x40100a landing).2.1 landingJump
      (by decide +kernel)
  have hbetween : landingJump.between = [] := by decide +kernel
  refine ⟨mov, hmov, (hiff _ ?_).mpr ?_⟩
  · rw [IndirectJump.Keeps, IndirectJump.arrive, hbetween]
    rfl
  · show landingJump.EndsAt (held landingJump.reg 0x401009)
    decide +kernel

/-- A compare and a short jump with more code behind them. -/
def overrun : List InsnInfo :=
  [⟨0x401000, "cmp", "eax, eax", "cmp eax, eax"⟩,
    ⟨0x401002, "jnz", "0x401020", "jnz 0x401020"⟩, ⟨0x401004, "mov", "eax, 1", "mov eax, 1"⟩,
    ⟨0x401009, "retn", "", "retn"⟩]

lemma branchSites_overrun : branchSites 0x40100a overrun .T1OpaqueBranch =
    [.t1 ⟨⟨0x401000, "cmp", "eax, eax", "cmp eax, eax"⟩,
      ⟨0x401002, "jnz", "0x401020", "jnz 0x401020"⟩, 0x401004⟩] := by
  decide +kernel

/-- The no-ops are all that is left of it. -/
lemma covered_overrun {a : U64} (ha : 0x401000 ≤ a.val) (ha' : a.val < 0x40100f) :
    covered ((branchSites 0x40100a overrun .T1OpaqueBranch).map BranchSite.removal) a = true := by
  have hsite : ∃ b ∈ branchSites 0x40100a overrun .T1OpaqueBranch,
      b.removal.site.ea.val = 0x401000 ∧ b.removal.site.stop = 0x40100f := by
    rw [branchSites_overrun]
    exact ⟨_, List.mem_singleton_self _, by decide, by decide⟩
  obtain ⟨b, hb, hea, hstop⟩ := hsite
  refine List.any_eq_true.mpr ⟨b.removal, List.mem_map_of_mem hb, ?_⟩
  rw [hea, hstop, Bool.and_eq_true, decide_eq_true_eq, decide_eq_true_eq]
  exact ⟨ha, ha'⟩

lemma observed_overrun (m : ℕ) : observed (stepPatched (.plain 0x401020) 0x40100a overrun
    ((branchSites 0x40100a overrun .T1OpaqueBranch).map BranchSite.removal)) m
    (.start 0x401000) = [] := by
  by_cases hm : m < 15
  · have hlt : 0x401000 + m < 2 ^ 64 := by omega
    exact observed_slide (a := ⟨0x401000 + m, hlt⟩) (m := 0) rfl fun b hb hb' =>
      covered_overrun hb (hb'.trans_le (by show 0x401000 + m ≤ _; omega))
  · obtain ⟨k, rfl⟩ := Nat.exists_eq_add_of_le (not_lt.mp hm)
    rw [observed_slide (a := 0x40100f) rfl fun b hb hb' => covered_overrun hb hb']
    exact observed_of_stop (by rw [branchSites_overrun]; decide +kernel) k

/-- The jump of `cmp eax, eax; jz` is always taken, fifteen no-ops are more than the bytes of
`cmp eax, eax` and a short `jnz`, so that the two instructions behind them are not run any more, and
`jmp rax` leads to the constant in `rax`. -/
theorem branch_removal_not_preserving :
    (∃ p ∈ opaqueSelected 0x401005 0
        [⟨0x401000, "cmp", "eax, eax", "cmp eax, eax"⟩,
          ⟨0x401002, "jz", "0x401020", "jz 0x401020"⟩, ⟨0x401004, "retn", "", "retn"⟩],
      (p.removal.exec (.plain 0x401020) (.start 0x401000)).pc ≠ p.fall) ∧
    (observed (stepOriginal (.plain 0x401020) 0x40100a overrun
          ((branchSites 0x40100a overrun .T1OpaqueBranch).map BranchSite.removal)) 3
          (.start 0x401000) = [0x401004, 0x401009] ∧
      ∀ m, observed (stepPatched (.plain 0x401020) 0x40100a overrun
          ((branchSites 0x40100a overrun .T1OpaqueBranch).map BranchSite.removal)) m
          (.start 0x401000) = []) ∧
    ∃ p ∈ indirectSelected 0x401009 0 []
        [⟨0x401000, "mov", "rax, 0x401020", "mov rax, 0x401020"⟩,
          ⟨0x401007, "jmp", "rax", "jmp rax"⟩],
      ∃ mov, p.assignment = some mov ∧ ¬p.Preserved (.plain 0x401020)
        (p.arrive (.plain 0x401020) mov ⟨0x401000, ⟨false, 0⟩, fun _ => 0x401020⟩) := by
  refine ⟨⟨⟨⟨0x401000, "cmp", "eax, eax", "cmp eax, eax"⟩,
      ⟨0x401002, "jz", "0x401020", "jz 0x401020"⟩, 0x401004⟩, by decide +kernel, by decide +kernel⟩,
    ⟨by rw [branchSites_overrun]; decide +kernel, observed_overrun⟩,
    ⟨⟨0x401007, "jmp", "rax", "jmp rax"⟩, 0x401020, 0x401009,
      [⟨0x401000, "mov", "rax, 0x401020", "mov rax, 0x401020"⟩]⟩, by decide +kernel,
    ⟨0x401000, "mov", "rax, 0x401020", "mov rax, 0x401020"⟩, by decide +kernel, ?_⟩
  rw [IndirectJump.Preserved]
  decide +kernel

end Transforms

end ReverseMcp
