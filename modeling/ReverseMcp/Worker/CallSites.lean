import ReverseMcp.Worker.ConfirmedValues

/-!
# Call sites that are left out

The value analysis and the data-flow trace mark an answer as truncated when they leave something
out.  Without the mark, both have visited everything within their depth, and of the call sites that
the backend handed out no evidence is missing.

What the mark does not tell is that the backend had more call sites than it was asked for: nobody
reads `calls_truncated`.  So an answer without the mark is complete iff no function within its depth
has more than `max_calls` call sites (`truncation_honest_iff`).
-/

namespace ReverseMcp

open Rust

/-- The backend has no more call sites of a function exactly when it does not say that there are
more. -/
lemma Valuean.CallSource.uncut_iff {src : CallSource} {f : U64} {n : ℕ} {info : Json}
    (hinfo : src.deep_function_info f n = .ok info) :
    (info.idx "calls_truncated").asBool = some false ↔ (src.body f).length ≤ n := by
  rw [src.calls_truncated_eq f n info hinfo, Option.some.injEq, decide_eq_false_iff_not, Nat.not_lt]

namespace Deep

open Valuean (CallSource mockCalls)

/-! ## The trace on any backend -/

section
variable (src : CallSource) (idx : AnalysisIndex) (direction : String) (budgets : DeepBudgets)

/-- The loop over one frontier on any backend. -/
def traceFrontierIn : List U64 → List U64 → Trace → Result (Trace × List U64)
  | [], next, t => .ok (t, next)
  | cur :: rest, next, t =>
    if t.visited.contains cur then traceFrontierIn rest next t
    else
      let t := { t with visited := t.visited.insert cur }
      if budgets.max_functions < t.visited.size then .ok ({ t with truncated := true }, next)
      else
        match src.deep_function_info cur budgets.max_calls with
        | .panic p => .panic p
        | .err _ => traceFrontierIn rest next t
        | .ok info =>
          let t := traceCalls idx direction budgets.max_calls cur (items info "calls") t
          if t.truncated then .ok (t, next)
          else traceFrontierIn rest (next ++ traceNext idx direction cur) t

/-- The level loop of the trace on any backend. -/
def traceLevelsIn : ℕ → List U64 → Trace → Result Trace
  | 0, _, t => .ok t
  | n + 1, frontier, t => do
    let (t, next) ← traceFrontierIn src idx direction budgets frontier [] t
    if t.truncated then return t
    traceLevelsIn n next t

/-- The collecting part of `trace_dataflow`. -/
def traceRun (target : U64) : Result Trace := do
  failIf (target ∉ idx.functions) s!"no function at {hex target}"
  traceLevelsIn src idx direction budgets budgets.depth [target] ⟨[], ∅, false⟩

/-- The answer of `trace_dataflow`. -/
def traceAnswer (target : U64) (t : Trace) : Json :=
  let count (c : String) : ℕ := (t.evidence.filter fun e => e.idx "confidence" == .string c).length
  .object [("target", .ea target), ("direction", direction),
    ("evidence", .array t.evidence), ("confirmed", .nat (count "confirmed")),
    ("heuristic", .nat (count "heuristic")), ("truncated", t.truncated),
    ("visited", .array (t.visited.toList.map Json.ea))]

/-- `deep::trace_dataflow` on any backend. -/
def trace_dataflowIn (target : U64) : Result Json := do
  let t ← traceRun src idx direction budgets target
  return traceAnswer direction target t

end

section
variable [Host] (b : MockBackend) (idx : AnalysisIndex) (direction : String)
  (budgets : DeepBudgets)

lemma traceFrontier_mock (frontier : List U64) : ∀ next t,
    traceFrontier b idx direction budgets frontier next t =
      traceFrontierIn (mockCalls b) idx direction budgets frontier next t := by
  induction frontier with
  | nil =>
    intro next t
    rfl
  | cons cur rest ih =>
    intro next t
    simp only [traceFrontier, traceFrontierIn, ih]
    rfl

lemma traceLevels_mock (n : ℕ) : ∀ frontier t,
    traceLevels b idx direction budgets n frontier t =
      traceLevelsIn (mockCalls b) idx direction budgets n frontier t := by
  induction n with
  | zero =>
    intro frontier t
    rfl
  | succ n ih =>
    intro frontier t
    simp only [traceLevels, traceLevelsIn, traceFrontier_mock, ih]

lemma trace_dataflow_mock (target : U64) :
    trace_dataflow b idx target direction budgets =
      trace_dataflowIn (mockCalls b) idx direction budgets target := by
  rw [trace_dataflow, trace_dataflowIn, traceRun]
  simp only [traceLevels_mock]
  cases failIf (target ∉ idx.functions) s!"no function at {hex target}" <;> rfl

end

/-! ## What a trace collects -/

/-- The direction of the trace admits the call. -/
def Admits (direction : String) (call : Json) : Prop :=
  direction = "backward" → ((call.idx "direct").asBool).getD false = true

instance (direction : String) (call : Json) : Decidable (Admits direction call) :=
  inferInstanceAs (Decidable (_ → _))

/-- The evidence for one call. -/
def evidenceRow (idx : AnalysisIndex) (cur : U64) (call : Json) : Json :=
  let direct := ((call.idx "direct").asBool).getD false
  .object [("at", textOf call "call_ea"),
    ("function", .object [("ea", .ea cur), ("name", idx.function_name cur)]),
    ("target", textOf call "target_name"), ("direct", direct),
    ("confidence", if direct then "confirmed" else "heuristic"),
    ("args", .strings (((items call "args").map fun a => a.asStr.getD "").take 8))]

/-- The evidence for the calls of one function. -/
def evidenceOf (idx : AnalysisIndex) (direction : String) (cur : U64) (calls : List Json) :
    List Json :=
  (calls.filter fun call => Admits direction call).map (evidenceRow idx cur)

section
variable {idx : AnalysisIndex} {direction : String} {max_calls : ℕ} {cur : U64}

lemma traceCalls_skip {call : Json} (h : ¬ Admits direction call) (calls : List Json) (t : Trace) :
    traceCalls idx direction max_calls cur (call :: calls) t =
      traceCalls idx direction max_calls cur calls t := by
  have hskip : direction = "backward" ∧ ((call.idx "direct").asBool).getD false = false := by
    simpa [Admits] using h
  rw [traceCalls]
  exact if_pos hskip

lemma traceCalls_take {call : Json} (h : Admits direction call) (calls : List Json) (t : Trace) :
    traceCalls idx direction max_calls cur (call :: calls) t =
      let evidence := t.evidence ++ [evidenceRow idx cur call]
      if max_calls ≤ evidence.length then { t with evidence, truncated := true }
      else traceCalls idx direction max_calls cur calls { t with evidence } := by
  have htake : ¬ (direction = "backward" ∧ ((call.idx "direct").asBool).getD false = false) := by
    simpa [Admits] using h
  rw [traceCalls]
  exact if_neg htake

/-- The loop over the calls visits nothing, and without a mark it has taken all of them and has
room left. -/
lemma traceCalls_spec (calls : List Json) : ∀ {t : Trace},
    (traceCalls idx direction max_calls cur calls t).visited = t.visited ∧
      ((traceCalls idx direction max_calls cur calls t).truncated = false →
        t.truncated = false ∧
        (traceCalls idx direction max_calls cur calls t).evidence =
          t.evidence ++ evidenceOf idx direction cur calls ∧
        (t.evidence.length < max_calls →
          (traceCalls idx direction max_calls cur calls t).evidence.length < max_calls)) := by
  induction calls with
  | nil =>
    intro t
    exact ⟨rfl, fun ht => ⟨ht, (List.append_nil _).symm, id⟩⟩
  | cons call calls ih =>
    intro t
    by_cases hadmits : Admits direction call
    · have hrow : evidenceOf idx direction cur (call :: calls) =
          evidenceRow idx cur call :: evidenceOf idx direction cur calls := by
        simp [evidenceOf, hadmits]
      rw [traceCalls_take hadmits, hrow]
      dsimp only
      split
      · exact ⟨rfl, fun ht => by cases ht⟩
      · rename_i hroom
        obtain ⟨hvisited, hspec⟩ :=
          @ih { t with evidence := t.evidence ++ [evidenceRow idx cur call] }
        refine ⟨hvisited, fun ht => ?_⟩
        obtain ⟨ht', hevidence, hlt⟩ := hspec ht
        refine ⟨ht', hevidence.trans ?_, fun _ => hlt (Nat.lt_of_not_le hroom)⟩
        rw [List.append_assoc, List.singleton_append]
    · have hnone : evidenceOf idx direction cur (call :: calls) =
          evidenceOf idx direction cur calls := by
        simp [evidenceOf, hadmits]
      rw [traceCalls_skip hadmits, hnone]
      exact ih

end

/-- What the trace has of the functions it expanded, as long as it is not marked: their evidence,
and that there is room for more. -/
structure Traces (src : CallSource) (idx : AnalysisIndex) (direction : String) (max_calls : ℕ)
    (fs : List U64) (t : Trace) : Prop where
  evidence : t.evidence =
    fs.flatMap fun f => evidenceOf idx direction f ((src.body f).take max_calls)
  room : 0 < max_calls → t.evidence.length < max_calls

/-- Without a mark, the calls of a function leave a trace of it too. -/
lemma Traces.calls {src : CallSource} {idx : AnalysisIndex} {direction : String} {max_calls : ℕ}
    {fs : List U64} {cur : U64} {t : Trace}
    (hfs : Traces src idx direction max_calls fs t)
    (ht : (traceCalls idx direction max_calls cur ((src.body cur).take max_calls) t).truncated =
      false) :
    Traces src idx direction max_calls (fs ++ [cur])
      (traceCalls idx direction max_calls cur ((src.body cur).take max_calls) t) := by
  obtain ⟨-, hevidence, hroom⟩ := (traceCalls_spec _).2 ht
  refine ⟨?_, fun hpos => hroom (hfs.room hpos)⟩
  rw [hevidence, hfs.evidence, List.flatMap_append, List.flatMap_singleton]

/-- The functions that the trace goes to from one: none if the backend does not answer. -/
def traceSucc (src : CallSource) (idx : AnalysisIndex) (direction : String) (max_calls : ℕ)
    (f : U64) : List U64 :=
  if (src.deep_function_info f max_calls).isOk then traceNext idx direction f else []

section
variable {src : CallSource} {idx : AnalysisIndex} {direction : String} {budgets : DeepBudgets}

/-- One level: without a mark, what is new in the frontier is visited, and the functions that the
backend knows give their evidence. -/
lemma traceFrontierIn_spec (frontier : List U64) :
    ∀ {next next' fs : List U64} {t t' : Trace},
      traceFrontierIn src idx direction budgets frontier next t = .ok (t', next') →
      t'.truncated = false → t.truncated = false ∧
        (Traces src idx direction budgets.max_calls fs t →
          ∃ new, Traces src idx direction budgets.max_calls (fs ++ new) t' ∧
            Graph.Level (traceSucc src idx direction budgets.max_calls)
              (fun f => (src.deep_function_info f budgets.max_calls).isOk = true) frontier next
              (· ∈ t.visited) new next' (· ∈ t'.visited)) := by
  induction frontier with
  | nil =>
    intro next next' fs t t' h ht
    cases h
    exact ⟨ht, fun hfs => ⟨[], by rwa [List.append_nil], .nil⟩⟩
  | cons cur rest ih =>
    intro next next' fs t t' h ht
    have hinsert : ∀ f, f ∈ t.visited.insert cur ↔ f ∈ t.visited ∨ f = cur :=
      fun f => mem_treeSet_insert.trans or_comm
    rw [traceFrontierIn] at h
    split at h
    · rename_i hseen
      have hold : cur ∈ t.visited := Std.ExtTreeSet.contains_iff_mem.mp hseen
      obtain ⟨ht', htraces⟩ := ih h ht
      refine ⟨ht', fun hfs => ?_⟩
      obtain ⟨new, hnew, hlevel⟩ := htraces hfs
      refine ⟨new, hnew, hlevel.pass (fun f => ?_) (.inl hold)⟩
      constructor
      · exact .inl
      · rintro (hf | rfl)
        · exact hf
        · exact hold
    · rename_i hseen
      have hvisit : cur ∉ t.visited := fun hmem => hseen (Std.ExtTreeSet.contains_iff_mem.mpr hmem)
      dsimp only at h
      split at h
      · cases h
        cases ht
      · split at h
        · cases h
        · -- the backend does not answer
          rename_i e herr
          have hnot : ¬ (src.deep_function_info cur budgets.max_calls).isOk = true := by
            rw [herr]
            exact Bool.false_ne_true
          obtain ⟨ht', htraces⟩ := ih h ht
          refine ⟨ht', fun hfs => ?_⟩
          obtain ⟨new, hnew, hlevel⟩ := htraces ⟨hfs.evidence, hfs.room⟩
          exact ⟨new, hnew, hlevel.pass hinsert (.inr ⟨if_neg hnot, hnot⟩)⟩
        · rename_i info hinfo
          have hok : (src.deep_function_info cur budgets.max_calls).isOk = true := by
            rw [hinfo]
            rfl
          rw [src.calls_eq cur budgets.max_calls info hinfo] at h
          split at h
          · rename_i hmark
            cases h
            exact absurd (ht.symm.trans hmark) Bool.false_ne_true
          · obtain ⟨ht', htraces⟩ := @ih _ _ (fs ++ [cur]) _ _ h ht
            obtain ⟨hvisited, hcalls⟩ := @traceCalls_spec idx direction budgets.max_calls cur
              ((src.body cur).take budgets.max_calls) { t with visited := t.visited.insert cur }
            refine ⟨(hcalls ht').1, fun hfs => ?_⟩
            have hall := Traces.calls
              (⟨hfs.evidence, hfs.room⟩ : Traces src idx direction budgets.max_calls fs
                { t with visited := t.visited.insert cur }) ht'
            obtain ⟨new, hnew, hlevel⟩ := htraces hall
            have hsucc : traceSucc src idx direction budgets.max_calls cur =
                traceNext idx direction cur := if_pos hok
            rw [hvisited, ← hsucc] at hlevel
            exact ⟨cur :: new, by simpa using hnew, hlevel.take hinsert hvisit hok⟩

/-- What a trace has that went through all levels without a mark: it has visited what lies within
fewer than `n` steps of the target, and has the evidence of what the backend knows of that. -/
structure Traced (src : CallSource) (idx : AnalysisIndex) (direction : String) (max_calls : ℕ)
    (target : U64) (n : ℕ) (t : Trace) : Prop where
  mem_visited : ∀ f, f ∈ t.visited ↔
    ∃ m < n, Graph.Within (traceSucc src idx direction max_calls) [target] m f
  traces : ∃ fs, Traces src idx direction max_calls fs t ∧
    ∀ f, f ∈ fs ↔ f ∈ t.visited ∧ (src.deep_function_info f max_calls).isOk = true

lemma traceLevelsIn_spec {target : U64} (n : ℕ) :
    ∀ {d : ℕ} {frontier fs : List U64} {t t' : Trace},
      traceLevelsIn src idx direction budgets n frontier t = .ok t' → t'.truncated = false →
      Traces src idx direction budgets.max_calls fs t →
      (∀ f, f ∈ fs ↔ f ∈ t.visited ∧
        (src.deep_function_info f budgets.max_calls).isOk = true) →
      Graph.Border (traceSucc src idx direction budgets.max_calls) [target] d (· ∈ t.visited)
        frontier →
      Traced src idx direction budgets.max_calls target (d + n) t' := by
  induction n with
  | zero =>
    intro d frontier fs t t' h ht hfs hmem hborder
    cases h
    exact ⟨hborder.seen_iff, fs, hfs, hmem⟩
  | succ n ih =>
    intro d frontier fs t t' h ht hfs hmem hborder
    obtain ⟨⟨t₁, next⟩, hstep, h⟩ := Outcome.bind_eq_ok.mp h
    dsimp only at h
    split at h
    · rename_i hmark
      cases h
      exact absurd (ht.symm.trans hmark) Bool.false_ne_true
    · rename_i hmark
      have ht₁ : t₁.truncated = false := Bool.eq_false_iff.mpr hmark
      obtain ⟨new, hnew, hlevel⟩ := (traceFrontierIn_spec frontier hstep ht₁).2 hfs
      have hdepth : d + (n + 1) = d + 1 + n := by omega
      rw [hdepth]
      refine ih h ht hnew (fun f => ?_) (hborder.level hlevel)
      rw [List.mem_append, hmem, hlevel.new_iff, hlevel.seen_iff]
      tauto

/-- A trace without a mark has come to everything within its depth. -/
lemma traceRun_spec {target : U64} {t : Trace}
    (h : traceRun src idx direction budgets target = .ok t) (ht : t.truncated = false) :
    Traced src idx direction budgets.max_calls target budgets.depth t := by
  obtain ⟨-, -, h⟩ := Outcome.bind_eq_ok.mp h
  have hstart : Graph.Border (traceSucc src idx direction budgets.max_calls) [target] 0
      (· ∈ (∅ : AddrSet)) [target] := by
    have hnone : (fun v => v ∈ (∅ : AddrSet)) = fun _ => False :=
      funext fun v => eq_false Std.ExtTreeSet.not_mem_empty
    rw [hnone]
    exact .start
  have hfinish := @traceLevelsIn_spec _ _ _ _ target budgets.depth 0 [target] [] _ _ h ht
    ⟨rfl, id⟩ (fun f => by simp) hstart
  rwa [Nat.zero_add] at hfinish

/-! ## What a trace leaves out -/

/-- Nothing is left out of the evidence of the functions visited: the backend has no more call
sites, and every one in the direction of the trace has its row. -/
def NothingLeftOut (src : CallSource) (idx : AnalysisIndex) (direction : String) (max_calls : ℕ)
    (visited : AddrSet) (answer : Json) : Prop :=
  ∀ f ∈ visited, ∀ info, src.deep_function_info f max_calls = .ok info →
    (info.idx "calls_truncated").asBool = some false ∧
      ∀ call ∈ src.body f, Admits direction call →
        evidenceRow idx f call ∈ items answer "evidence"

/-- No function within the depth of the trace has more call sites than the backend is asked for. -/
def Fits (src : CallSource) (idx : AnalysisIndex) (direction : String) (budgets : DeepBudgets)
    (target : U64) : Prop :=
  ∀ f, (∃ m < budgets.depth,
      Graph.Within (traceSucc src idx direction budgets.max_calls) [target] m f) →
    (src.deep_function_info f budgets.max_calls).isOk = true →
    (src.body f).length ≤ budgets.max_calls

lemma nothingLeftOut_iff {target : U64} {t : Trace}
    (h : traceRun src idx direction budgets target = .ok t) (ht : t.truncated = false) :
    NothingLeftOut src idx direction budgets.max_calls t.visited (traceAnswer direction target t) ↔
      Fits src idx direction budgets target := by
  obtain ⟨hvisited, fs, hfs, hmem⟩ := traceRun_spec h ht
  constructor
  · intro hall f hreach hok
    obtain ⟨info, hinfo⟩ := Outcome.isOk_iff.mp hok
    obtain ⟨hcut, -⟩ := hall f ((hvisited f).mpr hreach) info hinfo
    exact (CallSource.uncut_iff hinfo).mp hcut
  · intro hfits f hf info hinfo
    have hok : (src.deep_function_info f budgets.max_calls).isOk = true := by
      rw [hinfo]
      rfl
    have hlength := hfits f ((hvisited f).mp hf) hok
    refine ⟨(CallSource.uncut_iff hinfo).mpr hlength, fun call hcall hadmits => ?_⟩
    change evidenceRow idx f call ∈ t.evidence
    rw [hfs.evidence]
    refine List.mem_flatMap.mpr ⟨f, (hmem f).mpr ⟨hf, hok⟩, ?_⟩
    rw [List.take_of_length_le hlength]
    exact List.mem_map.mpr ⟨call, List.mem_filter.mpr ⟨hcall, decide_eq_true hadmits⟩, rfl⟩

end

end Deep

namespace Valuean

open Deep (items)

/-! ## What the value analysis leaves out -/

/-- A call site has its evidence in the answer: its constants in the rows, and its target, where it
is not known, among the indirect calls. -/
structure Evident (idx : AnalysisIndex) (answer : Json) (f : U64) (call : Json) (site : U64) :
    Prop where
  constants : ∀ n arg v, Passes call n arg → constOf idx arg = some v →
    ∃ row ∈ items answer "targets", row.idx "kind" = .string (argKind n) ∧ row.idx "ea" = .ea f ∧
      Json.ea v ∈ items row "values" ∧ Json.ea site ∈ items row "at"
  target : ((call.idx "direct").asBool).getD false = false →
    ∃ row ∈ items answer "indirect", row.idx "ea" = .ea f ∧ row.idx "call_ea" = .ea site

/-- Nothing is left out of the evidence of the functions visited: the backend has no more call
sites, and every one with an address has its evidence. -/
def NothingLeftOut (src : CallSource) (idx : AnalysisIndex) (max_calls : ℕ) (visited : AddrSet)
    (answer : Json) : Prop :=
  ∀ f ∈ visited, f ∈ idx.functions →
    (∀ info, src.deep_function_info f max_calls = .ok info →
      (info.idx "calls_truncated").asBool = some false) ∧
    ∀ call ∈ src.body f, ∀ site, siteOf call = some site → Evident idx answer f call site

/-- No function within the depth of the analysis has more call sites than the backend is asked
for. -/
def Fits (src : CallSource) (idx : AnalysisIndex) (budgets : DeepBudgets) (root : U64) : Prop :=
  ∀ f, (∃ m < max budgets.depth 1, Graph.Within (calleesOf idx) [root] m f) →
    f ∈ idx.functions → (src.body f).length ≤ budgets.max_calls

section
variable [Host] {src : CallSource} {type_vtable_scan : U64 → ℕ → Result Json}
  {idx : AnalysisIndex} {budgets : DeepBudgets} {root f site : U64} {c : Collected} {d : ℕ}

omit [Host] in
lemma not_truncated (h : (valueAnswer idx root budgets c d).idx "truncated" = .bool false) :
    c.truncated = false ∧ (valueRows c).length ≤ budgets.max_calls ∧
      c.indirect.length ≤ budgets.max_calls := by
  have hflag : (c.truncated || decide (budgets.max_calls < (valueRows c).length) ||
      decide (budgets.max_calls < c.indirect.length)) = false := Json.bool.inj h
  simpa [and_assoc] using hflag

omit [Host] in
/-- In an answer that is not cut, a function that was collected has the evidence of its first call
sites. -/
lemma Collects.evident {fs : List U64} {call : Json}
    (hc : Collects src idx budgets.max_calls fs c)
    (h : (valueAnswer idx root budgets c d).idx "truncated" = .bool false) (hf : f ∈ fs)
    (hcall : call ∈ (src.body f).take budgets.max_calls) (hsite : siteOf call = some site) :
    Evident idx (valueAnswer idx root budgets c d) f call site := by
  obtain ⟨hmark, hrows, hindirect⟩ := not_truncated h
  constructor
  · intro n arg v hpass hv
    have ho : (⟨f, argKind n, v, site⟩ : Observation) ∈
        fs.flatMap (functionLog src idx budgets.max_calls) :=
      List.mem_flatMap.mpr ⟨f, hf, mem_functionLog.mpr
        ⟨call, hcall, site, hsite, n, arg, hpass, v, hv, rfl⟩⟩
    obtain ⟨r, hr⟩ := hc.logged.present _ ho
    have hrow := hc.logged.row _ r hr
    refine ⟨r.to_json, ?_, ?_, ?_, ?_, ?_⟩
    · change r.to_json ∈ (valueRows c).take budgets.max_calls
      rw [List.take_of_length_le hrows, valueRows, (sortByKey_perm _ _).mem_iff]
      exact List.mem_map.mpr ⟨_, Std.ExtTreeMap.mem_toList_iff_getElem?_eq_some.mpr hr, rfl⟩
    · exact congrArg Json.string hrow.kind_eq
    · exact congrArg Json.ea hrow.ea_eq
    · exact List.mem_map_of_mem ((hrow.mem_values v).mpr ⟨_, ho, rfl, rfl⟩)
    · exact List.mem_map_of_mem ((hrow.mem_sites site).mpr ⟨_, ho, rfl, rfl⟩)
  · intro hdirect
    have hp : eaPair (f, site) ∈ c.indirect.map indirectKey := by
      rw [hc.indirect hmark]
      refine List.mem_map_of_mem (List.mem_flatMap.mpr ⟨f, hf, List.mem_flatMap.mpr
        ⟨call, hcall, ?_⟩⟩)
      simp [callIndirect, hsite, hdirect]
    obtain ⟨row, hrow, hkey⟩ := List.mem_map.mp hp
    refine ⟨row, ?_, (Prod.mk.inj hkey).1, (Prod.mk.inj hkey).2⟩
    change row ∈ c.indirect.take budgets.max_calls
    rwa [List.take_of_length_le hindirect]

lemma nothingLeftOut_iff {visited : AddrSet}
    (hrun : valueRun src type_vtable_scan idx root budgets = .ok (c, visited, d))
    (h : (valueAnswer idx root budgets c d).idx "truncated" = .bool false) :
    NothingLeftOut src idx budgets.max_calls visited (valueAnswer idx root budgets c d) ↔
      Fits src idx budgets root := by
  obtain ⟨fs, hc, hcovered⟩ := valueRun_spec hrun
  obtain ⟨hvisited, hmem⟩ := hcovered (not_truncated h).1
  constructor
  · intro hall g hreach hindexed
    have hg : g ∈ visited := (hvisited g).mpr hreach
    obtain ⟨info, hinfo⟩ := hc.answered g ((hmem g).mpr ⟨hg, hindexed⟩)
    exact (CallSource.uncut_iff hinfo).mp ((hall g hg hindexed).1 info hinfo)
  · intro hfits g hg hindexed
    have hlength := hfits g ((hvisited g).mp hg) hindexed
    refine ⟨fun info hinfo => (CallSource.uncut_iff hinfo).mpr hlength,
      fun call hcall site hsite => ?_⟩
    refine hc.evident h ((hmem g).mpr ⟨hg, hindexed⟩) ?_ hsite
    rwa [List.take_of_length_le hlength]

end

end Valuean

/-! ## Both analyses -/

/-- **What the mark does not tell.**  On every backend, an answer of the value analysis or of the
data-flow trace that is not marked as truncated leaves no call site out iff no function within its
depth has more call sites than the backend is asked for. -/
theorem truncation_honest_iff [Host] (src : Valuean.CallSource)
    (type_vtable_scan : U64 → ℕ → Result Json) (idx : AnalysisIndex) (ea : U64)
    (direction : String) (budgets : DeepBudgets) :
    (∀ c visited d, Valuean.valueRun src type_vtable_scan idx ea budgets = .ok (c, visited, d) →
      (Valuean.valueAnswer idx ea budgets c d).idx "truncated" = .bool false →
      (Valuean.NothingLeftOut src idx budgets.max_calls visited
          (Valuean.valueAnswer idx ea budgets c d) ↔
        Valuean.Fits src idx budgets ea)) ∧
    ∀ t, Deep.traceRun src idx direction budgets ea = .ok t →
      (Deep.traceAnswer direction ea t).idx "truncated" = .bool false →
      (Deep.NothingLeftOut src idx direction budgets.max_calls t.visited
          (Deep.traceAnswer direction ea t) ↔
        Deep.Fits src idx direction budgets ea) :=
  ⟨fun _ _ _ hrun h => Valuean.nothingLeftOut_iff hrun h,
    fun _ hrun h => Deep.nothingLeftOut_iff hrun (Json.bool.inj h)⟩

section

open Valuean

/-- Three call sites fit where eight are asked for. -/
theorem truncation_honest_iff_mixed :
    letI : Host := Host.ascii false
    ∃ c visited d,
      valueRun mixedSource noVtables oneFunction 0x401000 (smallBudgets 8) =
        .ok (c, visited, d) ∧
      NothingLeftOut mixedSource oneFunction 8 visited
        (valueAnswer oneFunction 0x401000 (smallBudgets 8) c d) := by
  let _ : Host := Host.ascii false
  refine ⟨_, _, _, rfl, ?_⟩
  refine ((truncation_honest_iff mixedSource noVtables oneFunction 0x401000 "backward"
    (smallBudgets 8)).1 _ _ _ rfl rfl).mpr ?_
  intro f _ _
  change 3 ≤ 8
  decide

/-- The backend is asked for one of three call sites, and the answer is not marked. -/
theorem truncation_not_honest :
    letI : Host := Host.ascii false
    ¬ ∀ (src : CallSource) (type_vtable_scan : U64 → ℕ → Result Json) (idx : AnalysisIndex)
        (ea : U64) (direction : String) (budgets : DeepBudgets),
      (∀ c visited d, valueRun src type_vtable_scan idx ea budgets = .ok (c, visited, d) →
        (valueAnswer idx ea budgets c d).idx "truncated" = .bool false →
        NothingLeftOut src idx budgets.max_calls visited (valueAnswer idx ea budgets c d)) ∧
      ∀ t, Deep.traceRun src idx direction budgets ea = .ok t →
        (Deep.traceAnswer direction ea t).idx "truncated" = .bool false →
        Deep.NothingLeftOut src idx direction budgets.max_calls t.visited
          (Deep.traceAnswer direction ea t) := by
  let _ : Host := Host.ascii false
  intro h
  have hall := (h mixedSource noVtables oneFunction 0x401000 "backward" (smallBudgets 1)).1
    _ _ _ rfl rfl 0x401000 (by decide) (by decide)
  have hcut := hall.1 _ rfl
  cases hcut

end

end ReverseMcp
