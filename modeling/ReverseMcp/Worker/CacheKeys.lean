import ReverseMcp.Rust.Reading
import ReverseMcp.Worker.Dispatch

/-!
# What is kept in the result cache

Six methods keep their results under keys made by hand: the name of an analysis, its arguments as
text, and the revision.  `Analysis` lists what is behind the keys, and `Analysis.run_eq_of_key_eq`
says that a key stands for one computation: the texts can be read back.  One argument is only
present as a hash, the rule set of a constant scan, so there it takes that no two rule sets in use
have the same hash.
-/

namespace ReverseMcp

open Rust

/-- The computation behind a cache miss, on the backend alone or with the index. -/
inductive CacheRun where
  | plain (run : MockBackend → Result Json)
  | indexed (run : MockBackend → AnalysisIndex → Result Json)

/-- An analysis with its arguments. -/
inductive Analysis where
  | workflow (req : WorkflowRequest)
  | deepFunction (root : U64) (budgets : DeepBudgets)
  | deepDataflow (target : U64) (direction : String) (budgets : DeepBudgets)
  | valuePropagate (target : U64) (budgets : DeepBudgets)
  | intelCrypto (max : ℕ) (ruleset : RuleSet)
  | hrMicrocode (ea : U64) (maturity max_insns : ℕ)

namespace Analysis

variable [Host]

/-- The key of an analysis at a revision. -/
def key (a : Analysis) (rev : U64) : CacheKey :=
  match a with
  | workflow req => req.cache_key rev
  | deepFunction root budgets => ("deep_function", s!"{hex root}|{budgets.debug}", rev)
  | deepDataflow target direction budgets =>
    ("deep_dataflow", s!"{hex target}|{direction}|{budgets.debug}", rev)
  | valuePropagate target budgets => ("value_propagate", s!"{hex target}|{budgets.debug}", rev)
  | intelCrypto max ruleset => ("intel_crypto", s!"{max}|{ruleset.set_hash}", rev)
  | hrMicrocode ea maturity max_insns =>
    ("hr_microcode", s!"{hex ea}|{maturity}|{max_insns}", rev)

@[simp] lemma key_revision (a : Analysis) (rev : U64) : (a.key rev).2.2 = rev := by
  cases a <;> rfl

/-- The computation of an analysis. -/
def run : Analysis → CacheRun
  | workflow req => .indexed fun b idx => Workflow.run b idx req
  | deepFunction root budgets => .indexed fun b idx => Deep.deep_function b idx root budgets none
  | deepDataflow target direction budgets =>
    .indexed fun b idx => Deep.trace_dataflow b idx target direction budgets
  | valuePropagate target budgets =>
    .indexed fun b idx => Valuean.value_analysis b idx target budgets
  | intelCrypto max ruleset => .indexed fun b idx => Crypto.crypto_scan b idx max (some ruleset)
  | hrMicrocode ea maturity max_insns => .plain fun b => b.hr_microcode ea maturity max_insns

omit [Host] in
/-- The arguments are such as the dispatcher makes them without a deadline, and the rule set is
one of `R`. -/
def Admitted (R : Set RuleSet) : Analysis → Prop
  | workflow _ => True
  | deepFunction _ budgets => budgets.deadline = none
  | deepDataflow _ direction budgets =>
    direction ∈ ["forward", "backward", "both"] ∧ budgets.deadline = none
  | valuePropagate _ budgets => budgets.deadline = none
  | intelCrypto _ ruleset => ruleset ∈ R
  | hrMicrocode _ _ _ => True

omit [Host] in
lemma Admitted.mono {R R' : Set RuleSet} {a : Analysis} (h : a.Admitted R)
    (hR : ∀ r ∈ R, r ∈ R') : a.Admitted R' := by
  cases a with
  | intelCrypto max ruleset => exact hR ruleset h
  | _ => exact h

/-- No two rule sets of `R` with different constants have the same hash. -/
def HashesApart (R : Set RuleSet) : Prop :=
  ∀ r ∈ R, ∀ r' ∈ R, r.set_hash = r'.set_hash →
    Crypto.packedRules (some r) = Crypto.packedRules (some r')

end Analysis

/-! ## Reading keys back -/

/-- The text of budgets without a deadline, as the sequence of its parts. -/
lemma DeepBudgets.debug_toList {budgets : DeepBudgets} (h : budgets.deadline = none) :
    budgets.debug.toList =
      "DeepBudgets \x7b depth: ".toList ++ ((toString budgets.depth).toList ++
      (", max_functions: ".toList ++ ((toString budgets.max_functions).toList ++
      (", ".toList ++ ("max_iterations: ".toList ++ ((toString budgets.max_iterations).toList ++
      (", max_calls: ".toList ++ ((toString budgets.max_calls).toList ++
      (", ".toList ++ ("deadline: ".toList ++ ("None".toList ++ " \x7d".toList))))))))))) := by
  obtain ⟨depth, max_functions, max_iterations, max_calls, deadline⟩ := budgets
  obtain rfl : deadline = none := h
  unfold debug
  simp only [String.toList_append, List.append_assoc]
  rfl

lemma DeepBudgets.eq_of_debug_eq {budgets budgets' : DeepBudgets} (h : budgets.deadline = none)
    (h' : budgets'.deadline = none) (heq : budgets.debug.toList = budgets'.debug.toList) :
    budgets = budgets' := by
  rw [debug_toList h, debug_toList h'] at heq
  have hfns : ∀ t, NoDigitNext (", max_functions: ".toList ++ t) := fun t =>
    noDigitNext_cons (by decide)
  have hcalls : ∀ t, NoDigitNext (", max_calls: ".toList ++ t) := fun t =>
    noDigitNext_cons (by decide)
  have hcomma : ∀ t, NoDigitNext (", ".toList ++ t) := fun t => noDigitNext_cons (by decide)
  obtain ⟨h₁, heq⟩ := readable_decimal (hfns _) (hfns _) (List.append_cancel_left heq)
  obtain ⟨h₂, heq⟩ := readable_decimal (hcomma _) (hcomma _) (List.append_cancel_left heq)
  obtain ⟨h₃, heq⟩ := readable_decimal (hcalls _) (hcalls _)
    (List.append_cancel_left (List.append_cancel_left heq))
  obtain ⟨h₄, -⟩ := readable_decimal (hcomma _) (hcomma _) (List.append_cancel_left heq)
  obtain ⟨depth, max_functions, max_iterations, max_calls, deadline⟩ := budgets
  obtain ⟨depth', max_functions', max_iterations', max_calls', deadline'⟩ := budgets'
  dsimp only at *
  rw [h₁, h₂, h₃, h₄, h, h']

section Host

variable [Host]

/-- The compact text of a workflow request determines it. -/
lemma WorkflowRequest.eq_of_text_eq {req req' : WorkflowRequest}
    (h : req.to_value.compact = req'.to_value.compact) : req = req' := by
  have hea := Json.readable_opt Json.readable_u64 (Json.u64_head (by decide))
  have hname := Json.readable_opt Json.readable_string (by simp [Json.compact, Json.quoted])
  have hroots := Json.readable_array Json.readable_u64 (Json.u64_head (by decide))
  have h := Json.compactFields_of_object h
  obtain ⟨h₁, h⟩ := Json.readable_field Json.readable_u32 h
  obtain ⟨h₂, h⟩ := Json.readable_field Json.readable_string h
  obtain ⟨h₃, h⟩ := Json.readable_field hea h
  obtain ⟨h₄, h⟩ := Json.readable_field Json.readable_bool h
  obtain ⟨h₅, h⟩ := Json.readable_field Json.readable_u32 h
  obtain ⟨h₆, h⟩ := Json.readable_field hname h
  obtain ⟨h₇, h⟩ := Json.readable_field hroots h
  obtain ⟨h₈, h⟩ := Json.readable_field hea h
  obtain ⟨h₉, -⟩ := Json.readable_field Json.readable_string h
  obtain ⟨workflow, ea, target_ea, name, roots, depth, max_functions, detail, include_noise⟩ := req
  obtain ⟨workflow', ea', target_ea', name', roots', depth', max_functions', detail',
    include_noise'⟩ := req'
  dsimp only at *
  rw [h₁, h₂, h₃, h₄, h₅, h₆, h₇, h₈, h₉]

namespace Analysis

omit [Host] in
/-- An address, a bar, and what comes behind it. -/
lemma hex_bar_inj {ea ea' : U64} {s s' : String}
    (h : hex ea ++ ("|" ++ s) = hex ea' ++ ("|" ++ s')) : ea = ea' ∧ s = s' := by
  have hlist := congrArg String.toList h
  simp only [String.toList_append] at hlist
  have hbar : ∀ t, NoDigitNext ("|".toList ++ t) := fun t => noDigitNext_cons (by decide)
  obtain ⟨hea, hrest⟩ := readable_hex (hbar _) (hbar _) hlist
  exact ⟨hea, String.toList_injective (List.append_cancel_left hrest)⟩

omit [Host] in
/-- A number, a bar, and what comes behind it. -/
lemma decimal_bar_inj {n n' : ℕ} {s s' : String}
    (h : toString n ++ ("|" ++ s) = toString n' ++ ("|" ++ s')) : n = n' ∧ s = s' := by
  have hlist := congrArg String.toList h
  simp only [String.toList_append] at hlist
  have hbar : ∀ t, NoDigitNext ("|".toList ++ t) := fun t => noDigitNext_cons (by decide)
  obtain ⟨hn, hrest⟩ := readable_decimal (hbar _) (hbar _) hlist
  exact ⟨hn, String.toList_injective (List.append_cancel_left hrest)⟩

/-- The arguments of a workflow are an object, those of the other analyses start with a number. -/
lemma key_head {a : Analysis} (h : ∀ req, a ≠ workflow req) (rev : U64) :
    (a.key rev).2.1.toList.head? ≠ some '\x7b' := by
  have hhex : ∀ ea s, (hex ea ++ s).toList.head? ≠ some '\x7b' := by
    intro ea s
    rw [String.toList_append, hex, String.toList_ofList]
    exact Option.some_inj.not.mpr (by decide)
  cases a with
  | workflow req => exact absurd rfl (h req)
  | intelCrypto max ruleset =>
    have hdecimal := toDigits_head (by decide : ¬ IsDigitChar '\x7b') max
      ("|" ++ ruleset.set_hash).toList
    rw [← Nat.toList_repr, ← String.toList_append, ← String.append_assoc] at hdecimal
    exact hdecimal
  | deepFunction root budgets =>
    simp only [key, String.append_assoc]
    exact hhex root _
  | deepDataflow target direction budgets =>
    simp only [key, String.append_assoc]
    exact hhex target _
  | valuePropagate target budgets =>
    simp only [key, String.append_assoc]
    exact hhex target _
  | hrMicrocode ea maturity max_insns =>
    simp only [key, String.append_assoc]
    exact hhex ea _

lemma workflow_key_head (req : WorkflowRequest) (rev : U64) :
    ((workflow req).key rev).2.1.toList.head? = some '\x7b' := by
  show (String.ofList req.to_value.compact).toList.head? = _
  rw [String.toList_ofList]
  rfl

omit [Host] in
lemma direction_bar_inj {d d' s s' : String} (hd : d ∈ ["forward", "backward", "both"])
    (hd' : d' ∈ ["forward", "backward", "both"]) (h : d ++ ("|" ++ s) = d' ++ ("|" ++ s')) :
    d = d' ∧ s = s' := by
  -- the direction is what stands before the first bar
  have htake : ∀ d ∈ ["forward", "backward", "both"], ∀ t,
      (d.toList ++ ("|".toList ++ t)).takeWhile (· ≠ '|') = d.toList := by
    intro d hd t
    have hbar : ∀ c ∈ d.toList, decide (c ≠ '|') = true := by
      revert d
      simp
    rw [List.takeWhile_append_of_pos hbar]
    simp
  have hlist := congrArg String.toList h
  simp only [String.toList_append] at hlist
  have hdd : d.toList = d'.toList := by
    rw [← htake d hd s.toList, ← htake d' hd' s'.toList, hlist]
  rw [hdd] at hlist
  exact ⟨String.toList_injective hdd, String.toList_injective
    (List.append_cancel_left (List.append_cancel_left hlist))⟩

/-- A key stands for one computation. -/
theorem run_eq_of_key_eq {R : Set RuleSet} (hR : HashesApart R) {a a' : Analysis} {rev rev' : U64}
    (ha : a.Admitted R) (ha' : a'.Admitted R) (h : a.key rev = a'.key rev') :
    a.run = a'.run := by
  have hkey := congrArg (fun k : CacheKey => k.2.1) h
  have htext := congrArg (fun s : String => s.toList.head?) hkey
  cases a with
  | workflow req =>
    cases a' with
    | workflow req' =>
      rw [WorkflowRequest.eq_of_text_eq (String.ofList_injective hkey)]
    | _ => exact absurd (htext.symm.trans (workflow_key_head req rev)) (key_head (by simp) rev')
  | deepFunction root budgets =>
    cases a' with
    | workflow req =>
      exact absurd (htext.trans (workflow_key_head req rev')) (key_head (by simp) rev)
    | deepFunction root' budgets' =>
      simp only [key, String.append_assoc] at hkey
      obtain ⟨rfl, hdebug⟩ := hex_bar_inj hkey
      rw [DeepBudgets.eq_of_debug_eq ha ha' (congrArg String.toList hdebug)]
    | _ => simp [key] at h
  | deepDataflow target direction budgets =>
    cases a' with
    | workflow req =>
      exact absurd (htext.trans (workflow_key_head req rev')) (key_head (by simp) rev)
    | deepDataflow target' direction' budgets' =>
      simp only [key, String.append_assoc] at hkey
      obtain ⟨rfl, hrest⟩ := hex_bar_inj hkey
      obtain ⟨rfl, hdebug⟩ := direction_bar_inj ha.1 ha'.1 hrest
      rw [DeepBudgets.eq_of_debug_eq ha.2 ha'.2 (congrArg String.toList hdebug)]
    | _ => simp [key] at h
  | valuePropagate target budgets =>
    cases a' with
    | workflow req =>
      exact absurd (htext.trans (workflow_key_head req rev')) (key_head (by simp) rev)
    | valuePropagate target' budgets' =>
      simp only [key, String.append_assoc] at hkey
      obtain ⟨rfl, hdebug⟩ := hex_bar_inj hkey
      rw [DeepBudgets.eq_of_debug_eq ha ha' (congrArg String.toList hdebug)]
    | _ => simp [key] at h
  | intelCrypto max ruleset =>
    cases a' with
    | workflow req =>
      exact absurd (htext.trans (workflow_key_head req rev')) (key_head (by simp) rev)
    | intelCrypto max' ruleset' =>
      simp only [key, String.append_assoc] at hkey
      obtain ⟨rfl, hhash⟩ := decimal_bar_inj hkey
      -- the scan sees the constants of the rule set only
      have hrules := hR ruleset ha ruleset' ha' hhash
      simp only [run, Crypto.crypto_scan, hrules]
    | _ => simp [key] at h
  | hrMicrocode ea maturity max_insns =>
    cases a' with
    | workflow req =>
      exact absurd (htext.trans (workflow_key_head req rev')) (key_head (by simp) rev)
    | hrMicrocode ea' maturity' max_insns' =>
      simp only [key, String.append_assoc] at hkey
      obtain ⟨rfl, hrest⟩ := hex_bar_inj hkey
      obtain ⟨rfl, hlast⟩ := decimal_bar_inj hrest
      obtain ⟨rfl, -⟩ := readable_decimal (t := []) (u := []) (by simp [NoDigitNext])
        (by simp [NoDigitNext]) (congrArg (fun s : String => s.toList ++ []) hlast)
      rfl
    | _ => simp [key] at h

end Analysis

end Host

end ReverseMcp
