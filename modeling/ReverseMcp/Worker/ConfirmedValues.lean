import ReverseMcp.Worker.ValueEvidence

/-!
# Confirmed values

A row of the value analysis is marked `confirmed` when its log shows one constant.  The call sites
that are not read and the arguments that are no constants leave no trace in the log, and it is they
that decide whether the function always passes the constant (`confirmed_value_iff`).
-/

namespace ReverseMcp

open Rust

namespace Valuean

open Deep (items textOf)

/-! ## Call sites and what they pass -/

/-- The call passes an argument at a position. -/
def Passes (call : Json) (n : ℕ) (arg : Json) : Prop := (items call "args")[n]? = some arg

/-- The call sites that the analysis reads. -/
def usedCalls (max_calls : ℕ) (body : List Json) : List Json :=
  (body.take max_calls).filter fun call => (siteOf call).isSome

/-- The call sites that it passes over: those behind the first ones, and those without address. -/
def ignoredCalls (max_calls : ℕ) (body : List Json) : List Json :=
  body.drop max_calls ++ (body.take max_calls).filter fun call => (siteOf call).isNone

/-- The answer has the argument position of the function as confirmed, with a value. -/
def Reports (answer : Json) (f : U64) (n : ℕ) (v : U64) : Prop :=
  ∃ row ∈ items answer "targets", row.idx "kind" = .string (argKind n) ∧ row.idx "ea" = .ea f ∧
    row.idx "confidence" = .string "confirmed" ∧ row.idx "values" = .array [.ea v]

/-- Every call site of the body that passes an argument at the position passes the constant. -/
def ReallyConstant (src : CallSource) (idx : AnalysisIndex) (f : U64) (n : ℕ) (v : U64) : Prop :=
  ∀ call ∈ src.body f, ∀ arg, Passes call n arg → constOf idx arg = some v

/-- No call site of the body passes anything but a constant at the position, and none that is
passed over passes another constant than one that is read. -/
structure Unanimous (src : CallSource) (idx : AnalysisIndex) (max_calls : ℕ) (f : U64) (n : ℕ) :
    Prop where
  constant : ∀ call ∈ src.body f, ∀ arg, Passes call n arg → (constOf idx arg).isSome
  agree : ∀ call ∈ ignoredCalls max_calls (src.body f), ∀ arg v, Passes call n arg →
    constOf idx arg = some v → ∀ call' ∈ usedCalls max_calls (src.body f), ∀ arg' v',
      Passes call' n arg' → constOf idx arg' = some v' → v = v'

lemma mem_used_or_ignored {max_calls : ℕ} {body : List Json} {call : Json} :
    call ∈ body ↔ call ∈ usedCalls max_calls body ∨ call ∈ ignoredCalls max_calls body := by
  conv_lhs => rw [← List.take_append_drop max_calls body]
  rw [usedCalls, ignoredCalls, List.mem_append, List.mem_append, List.mem_filter, List.mem_filter]
  cases siteOf call <;> simp [or_comm]

lemma argKind_inj {m n : ℕ} (h : argKind m = argKind n) : m = n := by
  have hchars : (toString m).toList = (toString n).toList := by
    have happend := congrArg String.toList h
    simpa [argKind] using happend
  have hdigits : Nat.toDigits 10 m = Nat.toDigits 10 n := by simpa using hchars
  exact toDigits_inj (by omega) (by omega) hdigits

/-- What a function shows is a constant argument of a call site that is read. -/
lemma mem_functionLog {src : CallSource} {idx : AnalysisIndex} {max_calls : ℕ} {f : U64}
    {o : Observation} :
    o ∈ functionLog src idx max_calls f ↔ ∃ call ∈ (src.body f).take max_calls,
      ∃ site, siteOf call = some site ∧ ∃ n arg, Passes call n arg ∧ ∃ v,
        constOf idx arg = some v ∧ o = ⟨f, argKind n, v, site⟩ := by
  rw [functionLog, List.mem_flatMap]
  refine exists_congr fun call => and_congr_right fun _ => ?_
  rw [callLog]
  cases hsite : siteOf call with
  | none => simp
  | some site =>
    simp only [List.mem_filterMap, Option.map_eq_some_iff, Option.some.injEq, exists_eq_left']
    constructor
    · rintro ⟨⟨arg, n⟩, hmem, v, hv, rfl⟩
      exact ⟨n, arg, List.mk_mem_zipIdx_iff_getElem?.mp hmem, v, hv, rfl⟩
    · rintro ⟨n, arg, hpass, v, hv, rfl⟩
      exact ⟨(arg, n), List.mk_mem_zipIdx_iff_getElem?.mpr hpass, v, hv, rfl⟩

/-- The log has a value at a position iff a call site that is read passes it there. -/
lemma exists_mem_functionLog {src : CallSource} {idx : AnalysisIndex} {max_calls n : ℕ}
    {f v : U64} :
    (∃ o ∈ functionLog src idx max_calls f, (o.ea, o.kind) = (f, argKind n) ∧ o.value = v) ↔
      ∃ call ∈ usedCalls max_calls (src.body f), ∃ arg, Passes call n arg ∧
        constOf idx arg = some v := by
  constructor
  · rintro ⟨o, ho, hkey, rfl⟩
    obtain ⟨call, hcall, site, hsite, m, arg, hpass, v, hv, rfl⟩ := mem_functionLog.mp ho
    obtain rfl : m = n := argKind_inj (Prod.mk.inj hkey).2
    exact ⟨call, List.mem_filter.mpr ⟨hcall, by rw [hsite]; rfl⟩, arg, hpass, hv⟩
  · rintro ⟨call, hcall, arg, hpass, hv⟩
    obtain ⟨hmem, hused⟩ := List.mem_filter.mp hcall
    obtain ⟨site, hsite⟩ := Option.isSome_iff_exists.mp hused
    exact ⟨_, mem_functionLog.mpr ⟨call, hmem, site, hsite, n, arg, hpass, v, hv, rfl⟩, rfl, rfl⟩

/-- A row of the answer is a row of the collection. -/
lemma mem_targets {idx : AnalysisIndex} {root : U64} {budgets : DeepBudgets} {c : Collected}
    {d : ℕ} {row : Json}
    (h : row ∈ items (valueAnswer idx root budgets c d) "targets") :
    ∃ (k : U64 × String) (r : ValueRow), c.merged[k]? = some r ∧ row = r.to_json := by
  have hrow : row ∈ (valueRows c).take budgets.max_calls := h
  have hmem := (sortByKey_perm _ _).mem_iff.mp (List.mem_of_mem_take hrow)
  obtain ⟨p, hp, rfl⟩ := List.mem_map.mp hmem
  exact ⟨p.1, p.2, Std.ExtTreeMap.mem_toList_iff_getElem?_eq_some.mp hp, rfl⟩

/-- What is confirmed for a position is the one constant that the call sites pass there that are
read. -/
lemma Reports.used [Host] {src : CallSource} {type_vtable_scan : U64 → ℕ → Result Json}
    {idx : AnalysisIndex} {root f v : U64} {budgets : DeepBudgets} {answer : Json} {n : ℕ}
    (hrow : Reports answer f n v)
    (h : value_analysisIn src type_vtable_scan idx root budgets = .ok answer) (w : U64) :
    (∃ call ∈ usedCalls budgets.max_calls (src.body f), ∃ arg, Passes call n arg ∧
      constOf idx arg = some w) ↔ w = v := by
  obtain ⟨⟨c, visited, d⟩, hrun, h⟩ := Outcome.bind_eq_ok.mp h
  cases h
  obtain ⟨fs, hcollects, -⟩ := valueRun_spec hrun
  obtain ⟨row, hmem, hkind, hea, -, hvalues⟩ := hrow
  obtain ⟨k, r, hr, rfl⟩ := mem_targets hmem
  have hrow := hcollects.logged.row k r hr
  have hk : k = (f, argKind n) := by
    refine Prod.ext ?_ ?_
    · rw [← hrow.ea_eq]
      exact hex_inj (Json.string.inj hea)
    · rw [← hrow.kind_eq]
      exact Json.string.inj hkind
  have hinj : Function.Injective Json.ea := fun a b hab => hex_inj (Json.string.inj hab)
  have hv : r.values = [v] := List.map_injective_iff.mpr hinj (Json.array.inj hvalues)
  have hlog : ∀ u, (∃ o ∈ fs.flatMap (functionLog src idx budgets.max_calls),
      (o.ea, o.kind) = (f, argKind n) ∧ o.value = u) ↔ u = v := by
    intro u
    rw [← hk, ← hrow.mem_values, hv, List.mem_singleton]
  -- the row comes from a function that was collected, and that function is `f`
  have hf : f ∈ fs := by
    obtain ⟨o, ho, hkey, -⟩ := (hlog v).mpr rfl
    obtain ⟨g, hg, ho⟩ := List.mem_flatMap.mp ho
    obtain ⟨call, -, site, -, m, arg, -, u, -, rfl⟩ := mem_functionLog.mp ho
    obtain rfl : g = f := (Prod.mk.inj hkey).1
    exact hg
  rw [← hlog, ← exists_mem_functionLog]
  constructor
  · rintro ⟨o, ho, hkey, hval⟩
    exact ⟨o, List.mem_flatMap.mpr ⟨f, hf, ho⟩, hkey, hval⟩
  · rintro ⟨o, ho, hkey, hval⟩
    obtain ⟨g, -, ho⟩ := List.mem_flatMap.mp ho
    obtain ⟨call, hcall, site, hsite, m, arg, hpass, u, hu, rfl⟩ := mem_functionLog.mp ho
    obtain rfl : g = f := (Prod.mk.inj hkey).1
    exact ⟨_, ho, hkey, hval⟩

/-- **Confirmed values.**  On every backend, a value that is reported as confirmed for an argument
position of a function is what every call site of the body passes there iff the call sites are
unanimous, the ones included that leave no evidence. -/
theorem confirmed_value_iff [Host] {src : CallSource} {type_vtable_scan : U64 → ℕ → Result Json}
    {idx : AnalysisIndex} {root f v : U64} {budgets : DeepBudgets} {answer : Json} {n : ℕ}
    (h : value_analysisIn src type_vtable_scan idx root budgets = .ok answer)
    (hrow : Reports answer f n v) :
    ReallyConstant src idx f n v ↔ Unanimous src idx budgets.max_calls f n := by
  constructor
  · intro hconst
    refine ⟨fun call hcall arg hpass => by rw [hconst call hcall arg hpass]; rfl, ?_⟩
    intro call hcall arg w hpass hw call' hcall' arg' w' hpass' hw'
    rw [hconst call (mem_used_or_ignored.mpr (.inr hcall)) arg hpass] at hw
    rw [hconst call' (mem_used_or_ignored.mpr (.inl hcall')) arg' hpass'] at hw'
    rw [← Option.some.inj hw, ← Option.some.inj hw']
  · rintro ⟨hconstant, hagree⟩ call hcall arg hpass
    obtain ⟨w, hw⟩ := Option.isSome_iff_exists.mp (hconstant call hcall arg hpass)
    rcases mem_used_or_ignored.mp hcall with hused | hignored
    · rw [hw, (hrow.used h w).mp ⟨call, hused, arg, hpass, hw⟩]
    · -- some site that is read passes the value that is reported
      obtain ⟨call', hused, arg', hpass', hv⟩ := (hrow.used h v).mpr rfl
      rw [hw, hagree call hignored arg w hpass hw call' hused arg' v hpass' hv]

/-- A backend that answers from a table of bodies. -/
def CallSource.ofBody (body : U64 → List Json) : CallSource where
  body := body
  deep_function_info ea n := .ok (.object [("calls", .array ((body ea).take n)),
    ("calls_truncated", decide (n < (body ea).length))])
  calls_eq _ _ _ h := by
    cases h
    rfl
  calls_truncated_eq _ _ _ h := by
    cases h
    rfl

/-- A direct call with one argument. -/
def callWith (site : U64) (arg : String) : Json :=
  .object [("call_ea", .ea site), ("direct", true), ("target_name", "g"),
    ("args", .array [.string arg])]

/-- An index of one function. -/
def oneFunction : AnalysisIndex :=
  ⟨1, "", 0, (∅ : AddrMap FunctionFacts).insert 0x401000
    { ea_start := 0x401000, ea_end := 0x401100, name := "f", size := 0x100 }, []⟩

/-- Small budgets without a deadline. -/
def smallBudgets (max_calls : ℕ) : DeepBudgets := ⟨1, 8, 1, max_calls, none⟩

/-- No table of virtual functions can be read. -/
def noVtables (_ : U64) (_ : ℕ) : Result Json := fail "no vtable"

/-- One call site passes 5 and the two others pass variables. -/
def mixedSource : CallSource := .ofBody fun _ =>
  [callWith 0x401010 "5", callWith 0x401020 "v1", callWith 0x401030 "v2"]

lemma mixed_reports :
    letI : Host := Host.ascii false
    ∃ answer, value_analysisIn mixedSource noVtables oneFunction 0x401000 (smallBudgets 8) =
      .ok answer ∧ Reports answer 0x401000 0 5 := by
  let _ : Host := Host.ascii false
  exact ⟨_, rfl, _, List.mem_cons_self, rfl, rfl, rfl, rfl⟩

lemma mixed_not_constant : ¬ ReallyConstant mixedSource oneFunction 0x401000 0 5 := by
  intro h
  have hv := h (callWith 0x401020 "v1") (by simp [mixedSource, CallSource.ofBody])
    (.string "v1") rfl
  have hnone : constOf oneFunction (.string "v1") = none := by decide
  rw [hnone] at hv
  cases hv

/-- The two call sites that leave no evidence do not agree with the first one. -/
theorem confirmed_value_iff_mixed : ¬ Unanimous mixedSource oneFunction 8 0x401000 0 := by
  let _ : Host := Host.ascii false
  obtain ⟨answer, h, hrow⟩ := mixed_reports
  exact fun hagree => mixed_not_constant ((confirmed_value_iff h hrow).mpr hagree)

/-- A value is confirmed that one call site in three passes. -/
theorem confirmed_not_constant :
    letI : Host := Host.ascii false
    ¬ ∀ (src : CallSource) (type_vtable_scan : U64 → ℕ → Result Json) (idx : AnalysisIndex)
        (root : U64) (budgets : DeepBudgets) (answer : Json) (f : U64) (n : ℕ) (v : U64),
      value_analysisIn src type_vtable_scan idx root budgets = .ok answer →
      Reports answer f n v → ReallyConstant src idx f n v := by
  let _ : Host := Host.ascii false
  intro h
  obtain ⟨answer, hrun, hrow⟩ := mixed_reports
  exact mixed_not_constant (h _ _ _ _ _ answer _ _ _ hrun hrow)

end Valuean

end ReverseMcp
