import Mathlib.Data.List.TakeWhile
import ReverseMcp.Wasm.Decoder
import ReverseMcp.Wasm.ValueFlow

/-!
# Use-def chains

`analyze_values` names a value by the position of the reader behind the operator that produces it,
and notes a use at the position behind the operator that takes it; `local.get`, which takes nothing,
notes one too.  So the chains are exact only where there is nothing to chain
(`analyze_values_use_def_iff`).
-/

namespace ReverseMcp.Wasm

open Rust

/-- The positions of the operators that give a value, in order. -/
def producers (ops : List (U64 × Operator)) : List U64 :=
  (ops.filter fun e => e.2.gives).map Prod.fst

/-- What the operators of a function with so many parameters take: the positions and the numbers of
the values, the parameters first. -/
def consumptions (n_params : ℕ) (ops : List (U64 × Operator)) : List (U64 × ℕ) :=
  (ValueFlow.start id n_params).consumptions (fun k _ => k) ops

/-- The positions of the operators that take a value, once for each operand. -/
def consumers (n_params : ℕ) (ops : List (U64 × Operator)) (k : ℕ) : List U64 :=
  ((consumptions n_params ops).filter fun c => c.2 = k).map Prod.fst

/-- The chains of the values are exact. -/
structure UseDefExact (n_params : ℕ) (ops : List (U64 × Operator)) (out : SsaBody) : Prop where
  /-- The values behind the parameters are named by the operators that produce them. -/
  defined : ∀ (k : ℕ) (fact : ValueFact), out.values[k]? = some fact → n_params ≤ k →
    (producers ops)[k - n_params]? = some fact.name.def_offset
  distinct : (out.values.map fun fact => fact.name.version).Nodup
  /-- The uses of a value are the operators that take it, and nothing else. -/
  used : ∀ (k : ℕ) (fact : ValueFact), out.values[k]? = some fact →
    fact.uses.Perm (consumers n_params ops k)

/-- An operator neither gives a value nor reads a parameter. -/
def Unchained (n_params : ℕ) (op : Operator) : Prop :=
  op.gives = false ∧ ∀ i, op = .localGet i → n_params ≤ i.val

/-! ## What stays of a value -/

/-- The values keep their names and their uses. -/
def Grows (fs gs : List ValueFact) : Prop :=
  ∀ (k : ℕ) (f : ValueFact), fs[k]? = some f →
    ∃ g : ValueFact, gs[k]? = some g ∧ g.name = f.name ∧ f.uses ⊆ g.uses

lemma Grows.refl (fs : List ValueFact) : Grows fs fs :=
  fun _ f hf => ⟨f, hf, rfl, List.Subset.refl _⟩

lemma Grows.trans {fs gs hs : List ValueFact} (h : Grows fs gs) (h' : Grows gs hs) :
    Grows fs hs := by
  intro k f hf
  obtain ⟨g, hg, hname, huses⟩ := h k f hf
  obtain ⟨i, hi, hname', huses'⟩ := h' k g hg
  exact ⟨i, hi, hname'.trans hname, List.Subset.trans huses huses'⟩

lemma grows_addUse (v : SsaName) (site : U64) (fs : List ValueFact) :
    Grows fs (addUse v site fs) := by
  induction fs with
  | nil => exact .refl _
  | cons f fs ih =>
    intro k g hg
    rw [addUse]
    split
    · cases k with
      | zero =>
        cases hg
        exact ⟨_, rfl, rfl, List.subset_append_left _ _⟩
      | succ k => exact ⟨g, hg, rfl, List.Subset.refl _⟩
    · cases k with
      | zero => exact ⟨g, hg, rfl, List.Subset.refl _⟩
      | succ k => exact ih k g hg

lemma grows_addUses (uses : List (SsaName × U64)) (fs : List ValueFact) :
    Grows fs (addUses uses fs) := by
  induction uses generalizing fs with
  | nil => exact .refl _
  | cons u uses ih => exact (grows_addUse u.1 u.2 fs).trans (ih _)

lemma grows_append (fs gs : List ValueFact) : Grows fs (fs ++ gs) := by
  intro k f hf
  have hlt := (List.getElem?_eq_some_iff.mp hf).1
  exact ⟨f, by rw [List.getElem?_append_left hlt, hf], rfl, List.Subset.refl _⟩

/-- A name that there is gets its use. -/
lemma addUse_notes {v : SsaName} (site : U64) {fs : List ValueFact} (h : v ∈ fs.map (·.name)) :
    ∃ (k : ℕ) (g : ValueFact), (addUse v site fs)[k]? = some g ∧ site ∈ g.uses := by
  induction fs with
  | nil => cases h
  | cons f fs ih =>
    rw [addUse]
    split
    · exact ⟨0, _, rfl, List.mem_append_right _ (List.mem_singleton_self site)⟩
    · rename_i hne
      have htail : v ∈ fs.map (·.name) := by
        rcases List.mem_cons.mp h with heq | h
        · exact absurd heq.symm hne
        · exact h
      obtain ⟨k, g, hg, hsite⟩ := ih htail
      exact ⟨k + 1, g, hg, hsite⟩

section
variable [Host] [Wasmparser] {s s' : SsaState} {out : SsaBody}

lemma run_grows {r : OperatorsReader} (h : SsaState.run r s = .ok out) :
    Grows s.out.values out.values := by
  induction r generalizing s with
  | eof position =>
    cases h
    exact .refl _
  | failed position offset message => cases h
  | read pos op rest ih =>
    obtain ⟨s₁, hcounted, h⟩ := Outcome.bind_eq_ok.mp h
    obtain ⟨-, rfl⟩ := SsaState.counted_eq_ok.mp hcounted
    split at h
    · cases h
      exact .refl _
    · obtain ⟨s₂, hop, h⟩ := Outcome.bind_eq_ok.mp h
      obtain ⟨uses, facts, hvalues, -⟩ := (operator_values hop).values
      have hstep : Grows s.out.values s₂.out.values := by
        rw [hvalues]
        exact (grows_addUses uses _).trans (grows_append _ facts)
      exact hstep.trans (ih h)

/-! ## Operators that chain nothing -/

/-- Before anything is chained the stack is empty, and only the parameters are locals. -/
structure Idle (n_params : ℕ) (s : SsaState) : Prop where
  stack : s.stack = []
  unknown : ∀ i : U32, n_params ≤ i.val → s.locals[i]? = none
  known : ∀ i : U32, i.val < n_params →
    ∃ v, s.locals[i]? = some v ∧ v ∈ s.out.values.map (·.name)

variable {n_params : ℕ} {pos next : U64} {op : Operator}

omit [Host] [Wasmparser] in
lemma Idle.alike (hs : Idle n_params s) (h : s.Alike s') : Idle n_params s' :=
  ⟨h.stack.trans hs.stack, h.locals ▸ hs.unknown, by rw [h.locals, h.values]; exact hs.known⟩

omit [Host] [Wasmparser] in
lemma popUse_idle (hs : Idle n_params s) (next : U64) :
    (s.popUse next).1 = none ∧ Idle n_params (s.popUse next).2 ∧
      (s.popUse next).2.out.values = s.out.values := by
  rw [SsaState.popUse, hs.stack]
  exact ⟨rfl, ⟨rfl, hs.unknown, hs.known⟩, rfl⟩

omit [Host] [Wasmparser] in
lemma counted_idle (hs : Idle n_params s) (h : s.counted = .ok s') :
    Idle n_params s' ∧ s'.out.values = s.out.values := by
  obtain ⟨-, rfl⟩ := SsaState.counted_eq_ok.mp h
  exact ⟨⟨hs.stack, hs.unknown, hs.known⟩, rfl⟩

/-- An operator that chains nothing leaves the values alone. -/
lemma operator_idle (hs : Idle n_params s) (hop : Unchained n_params op)
    (h : s.operator pos op next = .ok s') : Idle n_params s' ∧ s'.out.values = s.out.values := by
  obtain ⟨hnone, hpop, hvalues⟩ := popUse_idle hs next
  obtain ⟨-, hpop', hvalues'⟩ := popUse_idle hpop next
  have hsame : ∀ text, Idle n_params { s with out := { s.out with
      diagnostics := s.out.diagnostics ++ [text] } } := fun _ => ⟨hs.stack, hs.unknown, hs.known⟩
  cases op with
  | i32Const | i64Const | f32Const | f64Const | globalGet | i32Load | i64Load | i32Arith | i32Eqz
  | i32Compare => exact absurd hop.1.symm Bool.false_ne_true
  | localGet i =>
    cases h
    rw [SsaState.localGet, hs.unknown i (hop.2 i rfl)]
    exact ⟨hs, rfl⟩
  | localSet i | localTee i =>
    cases h
    rw [SsaState.localSet]
    split
    · next v s₁ heq => rw [heq] at hnone; cases hnone
    · next s₁ heq =>
      rw [heq] at hpop hvalues
      exact ⟨hpop, hvalues⟩
  | globalSet i =>
    cases h
    have halike := globalSet_alike s pos next i
    exact ⟨hpop.alike halike, halike.values.trans hvalues⟩
  | i32Store memarg | i64Store memarg =>
    cases h
    rw [SsaState.store]
    dsimp only
    split
    · next a v ha hv => rw [hnone] at hv; cases hv
    · exact ⟨hpop', hvalues'.trans hvalues⟩
  | brIf depth =>
    cases h
    have halike := brIf_alike s pos next
    exact ⟨hpop.alike halike, halike.values.trans hvalues⟩
  | brTable targets default =>
    cases h
    have halike := brTable_alike s pos next
    exact ⟨hpop.alike halike, halike.values.trans hvalues⟩
  | return_ | drop =>
    cases h
    exact ⟨hpop, hvalues⟩
  | call callee =>
    cases h
    exact ⟨⟨hs.stack, hs.unknown, hs.known⟩, rfl⟩
  | block | loop | if_ | else_ | try_ | tryTable | br | callIndirect | returnCall
  | returnCallIndirect | unreachable | end_ | other =>
    cases h
    exact ⟨hsame _, rfl⟩

/-- The loop goes on over operators that chain nothing. -/
lemma run_idle {eof : U64} {front back : List (U64 × Operator)}
    (hfront : ∀ e ∈ front, Unchained n_params e.2 ∧ e.2 ≠ .end_) (hs : Idle n_params s)
    (h : SsaState.run (.ofList eof (front ++ back)) s = .ok out) :
    ∃ s₁, Idle n_params s₁ ∧ s₁.out.values = s.out.values ∧
      SsaState.run (.ofList eof back) s₁ = .ok out := by
  induction front generalizing s with
  | nil => exact ⟨s, hs, rfl, h⟩
  | cons e front ih =>
    obtain ⟨hop, hend⟩ := hfront e List.mem_cons_self
    obtain ⟨s₁, hcounted, h⟩ := Outcome.bind_eq_ok.mp h
    obtain ⟨hidle₁, hvalues₁⟩ := counted_idle hs hcounted
    rw [if_neg hend] at h
    obtain ⟨s₂, hs₂, h⟩ := Outcome.bind_eq_ok.mp h
    obtain ⟨hidle₂, hvalues₂⟩ := operator_idle hidle₁ hop hs₂
    obtain ⟨s₃, hidle₃, hvalues₃, hrun⟩ := ih
      (fun e he => hfront e (List.mem_cons_of_mem _ he)) hidle₂ h
    exact ⟨s₃, hidle₃, (hvalues₃.trans hvalues₂).trans hvalues₁, hrun⟩

/-- The operator behind those that chain nothing. -/
lemma run_first {eof : U64} {front back : List (U64 × Operator)} {e : U64 × Operator}
    (hfront : ∀ e ∈ front, Unchained n_params e.2 ∧ e.2 ≠ .end_) (hend : e.2 ≠ .end_)
    (hs : Idle n_params s)
    (h : SsaState.run (.ofList eof (front ++ e :: back)) s = .ok out) :
    ∃ s₁ s₂, Idle n_params s₁ ∧ s₁.out.values = s.out.values ∧
      s₁.operator e.1 e.2 (OperatorsReader.ofList eof back).original_position = .ok s₂ ∧
      Grows s₂.out.values out.values := by
  obtain ⟨s₁, hidle₁, hvalues₁, h⟩ := run_idle hfront hs h
  obtain ⟨s₂, hcounted, h⟩ := Outcome.bind_eq_ok.mp h
  obtain ⟨hidle₂, hvalues₂⟩ := counted_idle hidle₁ hcounted
  rw [if_neg hend] at h
  obtain ⟨s₃, hs₃, h⟩ := Outcome.bind_eq_ok.mp h
  exact ⟨s₂, s₃, hidle₂, hvalues₂.trans hvalues₁, hs₃, run_grows h⟩

omit [Wasmparser] in
/-- The parameters are the values at the beginning, with no uses. -/
lemma params_idle (h : SsaState.params n_params = .ok s) :
    Idle n_params s ∧ s.version = asU32 n_params ∧ (∀ f ∈ s.out.values, f.uses = []) ∧
      s.out.values.map (fun f => f.name.version) = (List.range n_params).map asU32 := by
  induction n_params generalizing s with
  | zero =>
    cases h
    refine ⟨⟨rfl, fun i _ => Std.ExtTreeMap.getElem?_empty, fun i hi => ?_⟩, rfl, ?_, rfl⟩
    · exact absurd hi (Nat.not_lt_zero _)
    · intro f hf
      cases hf
  | succ n ih =>
    obtain ⟨s₀, hs₀, h⟩ := Outcome.bind_eq_ok.mp h
    obtain ⟨version, hadd, h⟩ := Outcome.bind_eq_ok.mp h
    cases h
    obtain ⟨hidle, hversion, huses, hversions⟩ := ih hs₀
    refine ⟨⟨hidle.stack, fun i hi => ?_, fun i hi => ?_⟩, ?_, fun f hf => ?_, ?_⟩
    · show (s₀.locals.insert (asU32 n) _)[i]? = none
      have hle : (asU32 n).val ≤ n := Nat.mod_le n (2 ^ 32)
      have hne : i ≠ asU32 n := by
        rintro rfl
        omega
      rw [getElem?_insert_eq_ite, if_neg hne]
      exact hidle.unknown i (by omega)
    · show ∃ v, (s₀.locals.insert (asU32 n) _)[i]? = some v ∧ _
      rw [getElem?_insert_eq_ite]
      split
      · exact ⟨_, rfl, by simp⟩
      · next hne =>
        have hlt : i.val < n := by
          refine lt_of_le_of_ne (Nat.lt_succ_iff.mp hi) fun heq => hne ?_
          exact Fin.ext (by rw [← heq]; exact (Nat.mod_eq_of_lt i.isLt).symm)
        obtain ⟨v, hv, hmem⟩ := hidle.known i hlt
        exact ⟨v, hv, by rw [List.map_append]; exact List.mem_append_left _ hmem⟩
    · rw [addU32_eq_ok hadd, hversion, asU32_add]
      rfl
    · rcases List.mem_append.mp hf with hf | hf
      · exact huses f hf
      · rw [List.mem_singleton.mp hf]
    · rw [List.map_append, hversions, List.range_succ, List.map_append, List.map_singleton,
        List.map_singleton, hversion]

end

/-! ## The chains -/

lemma nodup_versions_iff (n : ℕ) : ((List.range n).map asU32).Nodup ↔ n ≤ 2 ^ 32 := by
  constructor
  · intro h
    have hcard := h.length_le_card
    rwa [List.length_map, List.length_range, Fintype.card_fin] at hcard
  · intro hn
    refine List.Nodup.map_on (fun i hi j hj heq => ?_) List.nodup_range
    have hval : i % 2 ^ 32 = j % 2 ^ 32 := congrArg Fin.val heq
    rw [List.mem_range] at hi hj
    rwa [Nat.mod_eq_of_lt (hi.trans_le hn), Nat.mod_eq_of_lt (hj.trans_le hn)] at hval

section
variable [Host] [Wasmparser] {n_params : ℕ} {eof : U64} {front back : List (U64 × Operator)}
  {e : U64 × Operator} {s : SsaState} {out : SsaBody}

/-- The first value that is produced is named by the position behind its operator. -/
lemma not_exact_of_gives (hascending : Ascending eof (front ++ e :: back))
    (hfront : ∀ e ∈ front, Unchained n_params e.2 ∧ e.2 ≠ .end_) (hend : e.2 ≠ .end_)
    (hs : Idle n_params s) (hlength : s.out.values.length = n_params) (hgives : e.2.gives = true)
    (h : SsaState.run (.ofList eof (front ++ e :: back)) s = .ok out) :
    ¬UseDefExact n_params (front ++ e :: back) out := by
  intro hexact
  obtain ⟨s₁, s₂, -, hvalues, hop, hgrows⟩ := run_first hfront hend hs h
  obtain ⟨uses, facts, hyields, hnames⟩ := (operator_values hop).values
  rw [hgives, if_pos rfl] at hnames
  obtain ⟨fact, rfl, hname⟩ := List.map_eq_singleton_iff.mp hnames
  have hold : (addUses uses s₁.out.values).length = n_params := by
    have hkeys := congrArg List.length (map_addUses uses s₁.out.values)
    rwa [List.length_map, List.length_map, hvalues, hlength, ← hvalues] at hkeys
  have hnew : s₂.out.values[n_params]? = some fact := by
    rw [hyields, List.getElem?_append_right (hold.le), hold, Nat.sub_self]
    rfl
  obtain ⟨g, hg, hsame, -⟩ := hgrows n_params fact hnew
  have hdefined := hexact.defined n_params g hg le_rfl
  have hnone : front.filter (fun e => e.2.gives) = [] :=
    List.filter_eq_nil_iff.mpr fun x hx => by simp [(hfront x hx).1.1]
  have hfirst : (e :: back).filter (fun e => e.2.gives) = e :: back.filter (fun e => e.2.gives) :=
    List.filter_cons_of_pos hgives
  rw [Nat.sub_self, producers, List.filter_append, hnone, List.nil_append, hfirst, List.map_cons,
    List.getElem?_cons_zero, hsame, hname] at hdefined
  exact absurd (Option.some.inj hdefined) (ne_of_lt hascending.next)

/-- The first parameter that is read gets a use, though nothing takes it there. -/
lemma not_exact_of_localGet (hascending : Ascending eof (front ++ e :: back))
    (hfront : ∀ e ∈ front, Unchained n_params e.2 ∧ e.2 ≠ .end_) (hs : Idle n_params s) {i : U32}
    (hget : e.2 = .localGet i) (hi : i.val < n_params)
    (h : SsaState.run (.ofList eof (front ++ e :: back)) s = .ok out) :
    ¬UseDefExact n_params (front ++ e :: back) out := by
  intro hexact
  have hend : e.2 ≠ .end_ := by
    rw [hget]
    exact Operator.noConfusion
  obtain ⟨s₁, s₂, hidle, -, hop, hgrows⟩ := run_first hfront hend hs h
  obtain ⟨v, hv, hmem⟩ := hidle.known i hi
  have hvalues : s₂.out.values = addUse v e.1 s₁.out.values := by
    rw [hget] at hop
    cases hop
    rw [SsaState.localGet, hv]
    rfl
  obtain ⟨k, f, hf, hsite⟩ := addUse_notes e.1 hmem
  rw [← hvalues] at hf
  obtain ⟨g, hg, -, huses⟩ := hgrows k f hf
  have hconsumer := (hexact.used k g hg).mem_iff.mp (huses hsite)
  obtain ⟨c, hc, hpos⟩ := List.mem_map.mp hconsumer
  obtain ⟨e', he', hpos', htakes⟩ := ValueFlow.mem_consumptions (List.mem_filter.mp hc).1
  obtain rfl : e' = e := hascending.eq_of_fst_eq he' (by simp) (hpos'.trans hpos)
  rw [hget] at htakes
  exact htakes rfl

/-- Where the pass ends, the values stay as they are. -/
lemma run_over (hback : ∀ e ∈ back.head?, e.2 = .end_)
    (h : SsaState.run (.ofList eof back) s = .ok out) : out.values = s.out.values := by
  cases back with
  | nil =>
    cases h
    rfl
  | cons e back =>
    obtain ⟨s₁, hcounted, h⟩ := Outcome.bind_eq_ok.mp h
    obtain ⟨-, rfl⟩ := SsaState.counted_eq_ok.mp hcounted
    rw [if_pos (hback e rfl)] at h
    cases h
    rfl

end

/-- The chains of a body are exact when there are none: before the first `end` no operator gives a
value or reads a parameter, nothing behind takes a parameter either, and the numbers of the
parameters fit into 32 bits. -/
theorem analyze_values_use_def_iff [Host] [Wasmparser] {body : List U8} {n_params : ℕ}
    {out : SsaBody} {eof : U64} {ops : List (U64 × Operator)}
    (h : analyze_values body n_params = .ok out)
    (hreads : Wasmparser.operators body = .ofList eof ops) (hascending : Ascending eof ops) :
    UseDefExact n_params ops out ↔
      n_params ≤ 2 ^ 32 ∧
        (∀ e ∈ ops.takeWhile (fun e => e.2 ≠ .end_), Unchained n_params e.2) ∧
        ∀ c ∈ consumptions n_params ops, n_params ≤ c.2 := by
  rw [analyze_values, hreads] at h
  obtain ⟨s, hs, h⟩ := Outcome.bind_eq_ok.mp h
  obtain ⟨hidle, -, hunused, hversions⟩ := params_idle hs
  have hlength : s.out.values.length = n_params := by
    have hmap := congrArg List.length hversions
    rwa [List.length_map, List.length_map, List.length_range] at hmap
  have hread : ∀ e ∈ ops.takeWhile (fun e => e.2 ≠ .end_), e.2 ≠ .end_ :=
    fun e he => by simpa using List.mem_takeWhile_imp he
  have hsplit := List.takeWhile_append_dropWhile (p := fun e : U64 × Operator => e.2 ≠ .end_)
    (l := ops)
  by_cases hfront : ∀ e ∈ ops.takeWhile (fun e => e.2 ≠ .end_), Unchained n_params e.2
  · have hvalues : out.values = s.out.values := by
      rw [← hsplit] at h
      obtain ⟨s₁, -, hvalues₁, hrest⟩ :=
        run_idle (fun e he => ⟨hfront e he, hread e he⟩) hidle h
      rw [run_over (fun e he => ?_) hrest, hvalues₁]
      have hhead := List.head?_dropWhile_not (fun e : U64 × Operator => e.2 ≠ .end_) ops
      rw [Option.mem_def.mp he] at hhead
      simpa using hhead
    constructor
    · intro hexact
      refine ⟨?_, hfront, fun c hc => ?_⟩
      · have hdistinct := hexact.distinct
        rwa [hvalues, hversions, nodup_versions_iff] at hdistinct
      · by_contra hlt
        obtain ⟨fact, hfact⟩ : ∃ fact, s.out.values[c.2]? = some fact :=
          ⟨_, List.getElem?_eq_getElem (by omega)⟩
        have hused := hexact.used _ _ (hvalues ▸ hfact)
        rw [hunused _ (List.mem_of_getElem? hfact)] at hused
        have hmem : c.1 ∈ consumers n_params ops c.2 :=
          List.mem_map_of_mem (List.mem_filter.mpr ⟨hc, decide_eq_true rfl⟩)
        rw [← hused.mem_iff] at hmem
        cases hmem
    · rintro ⟨hroom, -, htaken⟩
      refine ⟨fun k fact hk hle => ?_, ?_, fun k fact hk => ?_⟩
      · have hlt := (List.getElem?_eq_some_iff.mp hk).1
        rw [hvalues, hlength] at hlt
        exact absurd hle (not_le.mpr hlt)
      · rw [hvalues, hversions]
        exact (nodup_versions_iff n_params).mpr hroom
      · have hlt := (List.getElem?_eq_some_iff.mp hk).1
        have hnone : consumers n_params ops k = [] := by
          rw [consumers, List.map_eq_nil_iff, List.filter_eq_nil_iff]
          intro c hc heq
          have hle := htaken c hc
          rw [hvalues, hlength, ← of_decide_eq_true heq] at hlt
          exact absurd hle (not_le.mpr hlt)
        rw [hnone, hunused fact (hvalues ▸ List.mem_of_getElem? hk)]
  · refine iff_of_false ?_ fun hcond => hfront hcond.2.1
    obtain ⟨front, e, back, htake, hpre, hchained⟩ := exists_first hfront
    have hops : ops = front ++ e :: (back ++ ops.dropWhile (fun e => e.2 ≠ .end_)) := by
      rw [← List.cons_append, ← List.append_assoc, ← htake, hsplit]
    have hidles : ∀ x ∈ front, Unchained n_params x.2 ∧ x.2 ≠ .end_ := fun x hx =>
      ⟨hpre x hx, hread x (by rw [htake]; exact List.mem_append_left _ hx)⟩
    have hend : e.2 ≠ .end_ := hread e (by rw [htake]; simp)
    rw [hops] at h hascending ⊢
    by_cases hgives : e.2.gives = true
    · exact not_exact_of_gives hascending hidles hend hidle hlength hgives h
    · rw [Unchained, not_and] at hchained
      obtain ⟨i, hi⟩ := not_forall.mp (hchained (Bool.eq_false_of_not_eq_true hgives))
      obtain ⟨hget, hlt⟩ := Classical.not_imp.mp hi
      exact not_exact_of_localGet hascending hidles hidle hget (not_le.mp hlt) h

/-- A function with a parameter that only calls another one. -/
theorem analyze_values_use_def_iff_call :
    letI : Host := Host.ascii true
    letI : Wasmparser := .basic
    ∃ out, analyze_values [0x10, 0, 0x0b] 1 = .ok out ∧
      UseDefExact 1 [(0, .call 0), (2, .end_)] out := by
  let _ : Host := Host.ascii true
  let _ : Wasmparser := .basic
  have hreads : Wasmparser.operators [0x10, 0, 0x0b] =
      .ofList 3 [(0, .call 0), (2, .end_)] := by decide +kernel
  have hascending : Ascending 3 [(0, .call 0), (2, .end_)] := by
    rw [Ascending]
    decide
  obtain ⟨out, hout⟩ : ∃ out, analyze_values [0x10, 0, 0x0b] 1 = .ok out := ⟨_, rfl⟩
  refine ⟨out, hout, (analyze_values_use_def_iff hout hreads hascending).mpr
    ⟨by decide, fun e he => ?_, by decide⟩⟩
  obtain rfl : e = (0, .call 0) := by simpa using he
  exact ⟨rfl, fun i hi => by cases hi⟩

/-- `i32.const 1`, `drop`, `end`. -/
def constDropped : List (U64 × Operator) := [(0, .i32Const 1), (2, .drop), (3, .end_)]

/-- The constant is named by the position of `drop`, and used at that of `end`. -/
theorem use_def_shifted :
    letI : Host := Host.ascii true
    letI : Wasmparser := .of [0x41, 1, 0x1a, 0x0b] (.ofList 4 constDropped)
    ∃ out fact, analyze_values [0x41, 1, 0x1a, 0x0b] 0 = .ok out ∧ out.values = [fact] ∧
      fact.name.def_offset = 2 ∧ fact.uses = [3] ∧ producers constDropped = [0] ∧
      consumers 0 constDropped 0 = [2] ∧ ¬UseDefExact 0 constDropped out := by
  refine ⟨_, _, rfl, rfl, rfl, rfl, rfl, rfl, fun h => ?_⟩
  have hdefined := h.defined 0 _ rfl le_rfl
  exact absurd hdefined (by decide)

end ReverseMcp.Wasm
