import ReverseMcp.Graph.DepthFirst
import ReverseMcp.Worker.Resume

/-!
# What a deep analysis covers

The walk of `deep::deep_function` pops its frontier from the end, so it goes through the call graph
depth first, and it stops for good at the first function that comes too deep or too late.  A
function that lies within the depth may then still be on the frontier.  The run covers all functions
within the depth exactly when the depth-first order has them before its first visit that is too deep
(`deep_coverage_iff`).
-/

namespace ReverseMcp

open Rust ReverseMcp.Graph

namespace Deep

/-- The functions of the index that the backend reports as called directly. -/
def calls (info : InfoOf) (idx : AnalysisIndex) (max_calls : ℕ) (ea : U64) : List U64 :=
  match info ea max_calls with
  | .ok i => ((extract_call_sites i).direct.map Prod.snd).filter fun c => idx.functions.contains c
  | .err _ => []
  | .panic _ => []

/-- The report has a dossier for the function. -/
def HasDossier (out : Json) (ea : U64) : Prop :=
  ∃ row ∈ items out "functions", row.idx "ea" = .ea ea

/-! ## The dossiers of a walk -/

/-- A walk has a dossier for every function that it has visited, each under its own address. -/
structure Walk.Matched (w : Walk) : Prop where
  mem_dossiers_iff : ∀ k, k ∈ w.dossiers ↔ k ∈ w.visited
  own : ∀ (k : U64) (d : FunctionDossier), w.dossiers[k]? = some d → d.ea = k

section Walk

variable {info : InfoOf} {idx : AnalysisIndex} {budgets : DeepBudgets} {w : Walk}

lemma fresh_matched (root : U64) : (fresh root).Matched where
  mem_dossiers_iff k := by simp [fresh]
  own k d h := by simp [fresh] at h

lemma Walk.Matched.collect (h : w.Matched) (ea : U64) (depth : ℕ) (rest : List (U64 × ℕ))
    (i : Json) :
    (w.collect idx ea depth rest i).Matched where
  mem_dossiers_iff k := by
    rw [Walk.collect]
    rw [mem_treeMap_insert, mem_treeSet_insert, h.mem_dossiers_iff]
  own k d hd := by
    rw [collect_dossier] at hd
    split at hd
    · rename_i hk
      cases hd
      exact hk.symm
    · exact h.own k d hd

/-- The report of a walk has the dossiers of the walk. -/
lemma hasDossier_finish (h : w.Matched) {root : U64} {changes : List TypeChange}
    {convergence : Json}
    (v : U64) : HasDossier (finish idx root budgets w w.dossiers changes convergence) v ↔
      v ∈ w.dossiers := by
  have hrows : items (finish idx root budgets w w.dossiers changes convergence) "functions" =
      (w.dossiers.toList.map Prod.snd).map dossierRow := rfl
  have hea : ∀ d : FunctionDossier, (dossierRow d).idx "ea" = .ea d.ea := fun d => rfl
  rw [HasDossier, hrows]
  constructor
  · rintro ⟨row, hrow, hv⟩
    obtain ⟨d, hd, rfl⟩ := List.mem_map.mp hrow
    obtain ⟨⟨k, d⟩, hkd, rfl⟩ := List.mem_map.mp hd
    have hget := Std.ExtTreeMap.mem_toList_iff_getElem?_eq_some.mp hkd
    rw [hea, Json.ea, Json.ea, Json.string.injEq] at hv
    obtain rfl : k = v := by rw [← h.own k d hget, hex_inj hv]
    rw [Std.ExtTreeMap.mem_iff_isSome_getElem?, hget]
    rfl
  · intro hv
    obtain ⟨d, hd⟩ := Option.isSome_iff_exists.mp (Std.ExtTreeMap.mem_iff_isSome_getElem?.mp hv)
    have hmem : d ∈ w.dossiers.toList.map Prod.snd :=
      List.mem_map.mpr ⟨(v, d), Std.ExtTreeMap.mem_toList_iff_getElem?_eq_some.mpr hd, rfl⟩
    exact ⟨dossierRow d, List.mem_map_of_mem hmem, by rw [hea, h.own v d hd]⟩

/-- A run whose walk returns reports it. -/
lemma deepFunction_of_walk {root : U64} {resume : Option Json} (hroot : root ∈ idx.functions)
    {w₀ : Walk} (hstart : start root resume = .ok w₀)
    (hwalk : walkOn info idx budgets budgets.max_functions w₀ = .ok w) :
    ∃ convergence, deepFunction info idx root budgets resume =
      .ok (finish idx root budgets w w.dossiers [] convergence) := by
  obtain ⟨trace, converged, hprop⟩ := @propagateOn_spec info budgets (callersOf w.dossiers)
    budgets.max_iterations 1 w.visited w.dossiers [] []
  have hok : failIf (root ∉ idx.functions) s!"no function at {hex root}" = .ok () :=
    failIf_eq_ok.mpr (not_not.mpr hroot)
  rw [deepFunction, hok, Outcome.ok_bind, hstart, Outcome.ok_bind, hwalk, Outcome.ok_bind, hprop]
  exact ⟨_, rfl⟩

/-! ## The rounds of the walk -/

/-- Whether the walk stops in front of a function. -/
def Stops (budgets : DeepBudgets) (w : Walk) (ea : U64) (depth : ℕ) : Prop :=
  budgets.max_functions < (w.visited.insert ea).size ∨ budgets.depth ≤ depth

/-- Without a deadline the walk goes on where no budget stops it. -/
lemma goes_on (hdeadline : budgets.deadline = none) {ea : U64} {depth : ℕ}
    (hgo : ¬Stops budgets w ea depth) :
    ¬(budgets.max_functions < (w.visited.insert ea).size ∨ budgets.depth ≤ depth ∨
      budgets.time_left w.readings = false) := by
  have htime : budgets.time_left w.readings = true := by
    simp [DeepBudgets.time_left, hdeadline]
  rw [htime]
  simpa [Stops] using hgo

lemma walkOn_done (n : ℕ) (h : w.frontier.dropWhile (w.skips idx) = []) :
    walkOn info idx budgets n w = .ok { w with frontier := [] } := by
  rw [walkOn]
  rw [h]

lemma walkOn_stop (n : ℕ) {ea : U64} {depth : ℕ} {rest : List (U64 × ℕ)}
    (h : w.frontier.dropWhile (w.skips idx) = (ea, depth) :: rest)
    (hstop : Stops budgets w ea depth) :
    walkOn info idx budgets n w =
      .ok { w with frontier := (ea, depth) :: rest, budget_hit := true } := by
  have hfull : budgets.max_functions < (w.visited.insert ea).size ∨ budgets.depth ≤ depth ∨
      budgets.time_left w.readings = false := hstop.imp_right .inl
  rw [walkOn]
  rw [h]
  exact if_pos hfull

lemma walkOn_collect (hdeadline : budgets.deadline = none) (n : ℕ) {ea : U64} {depth : ℕ}
    {rest : List (U64 × ℕ)} (h : w.frontier.dropWhile (w.skips idx) = (ea, depth) :: rest)
    (hgo : ¬Stops budgets w ea depth) : walkOn info idx budgets (n + 1) w =
      info ea budgets.max_calls >>= fun i =>
      walkOn info idx budgets n (w.collect idx ea depth rest i) := by
  rw [walkOn]
  rw [h]
  refine (if_neg (goes_on hdeadline hgo)).trans ?_
  cases info ea budgets.max_calls with
  | ok i => rfl
  | err e => rfl
  | panic p => rfl

/-! ## The walk against the order -/

/-- Of the functions of the index the walk skips those that it has visited. -/
lemma dropWhile_skips (hw : w.Matched) {seen : List U64} (hseen : ∀ k, k ∈ w.visited ↔ k ∈ seen)
    (hfrontier : ∀ p ∈ w.frontier, p.1 ∈ idx.functions) :
    w.frontier.dropWhile (w.skips idx) = w.frontier.dropWhile fun p => p.1 ∈ seen := by
  refine dropWhile_congr ?_
  intro p hp
  rw [Walk.skips]
  by_cases hmem : p.1 ∈ seen
  · have hdossier : w.dossiers.contains p.1 = true :=
      Std.ExtTreeMap.contains_iff_mem.mpr ((hw.mem_dossiers_iff _).mpr ((hseen _).mpr hmem))
    simp [hdossier, hmem]
  · have hvisited : w.visited.contains p.1 = false :=
      Bool.eq_false_iff.mpr fun h => hmem ((hseen _).mp h)
    have hdossier : w.dossiers.contains p.1 = false :=
      Bool.eq_false_iff.mpr fun h => hmem ((hseen _).mp ((hw.mem_dossiers_iff _).mp h))
    simp only [hmem, hvisited, hdossier, Std.ExtTreeMap.contains_iff_mem.mpr (hfrontier p hp)]
    rfl

/-- The walk goes on with the order behind a function that it has collected. -/
lemma collect_order (hw : w.Matched) {seen : List U64}
    (hseen : ∀ k, k ∈ w.visited ↔ k ∈ seen) {v : U64}
    {d : ℕ} {rest order : List (U64 × ℕ)} {i : Json} (hi : info v budgets.max_calls = .ok i)
    (h : DepthFirst (calls info idx budgets.max_calls) (v :: seen)
      (pushAll (calls info idx budgets.max_calls v) (d + 1) rest) order) :
    DepthFirst (calls info idx budgets.max_calls) (v :: seen) (w.collect idx v d rest i).frontier
      order := by
  refine h.congr ?_
  have hcalls : calls info idx budgets.max_calls v =
      ((extract_call_sites i).direct.map Prod.snd).filter fun c => idx.functions.contains c := by
    rw [calls, hi]
  have hfrontier : (w.collect idx v d rest i).frontier =
      pushAll (((extract_call_sites i).direct.map Prod.snd).filter fun c =>
        idx.functions.contains c && !(w.collect idx v d rest i).dossiers.contains c)
          (d + 1) rest := rfl
  rw [hfrontier, filter_pushAll (fun x => decide (x ∉ v :: seen)),
    filter_pushAll (fun x => decide (x ∉ v :: seen)), hcalls, List.filter_filter,
    List.filter_filter]
  congr 1
  refine List.filter_congr ?_
  intro c _
  -- a callee that was left out has a dossier, so it was seen
  by_cases hc : c ∈ v :: seen
  · simp [hc]
  · have hdossier : (w.collect idx v d rest i).dossiers.contains c = false := by
      refine Bool.eq_false_iff.mpr fun h => hc ?_
      rcases mem_treeMap_insert.mp (Std.ExtTreeMap.contains_iff_mem.mp h) with rfl | h
      · simp
      · exact List.mem_cons_of_mem _ ((hseen c).mp ((hw.mem_dossiers_iff c).mp h))
    simp [hc, hdossier]

lemma collect_indexed {v : U64} {d : ℕ} {rest : List (U64 × ℕ)} {i : Json}
    (hrest : ∀ p ∈ rest, p.1 ∈ idx.functions) :
    ∀ p ∈ (w.collect idx v d rest i).frontier, p.1 ∈ idx.functions := by
  intro p hp
  rcases mem_pushAll.mp hp with ⟨hmem, -⟩ | hp
  · rw [List.mem_filter, Bool.and_eq_true] at hmem
    exact Std.ExtTreeMap.contains_iff_mem.mp hmem.2.1
  · exact hrest p hp

/-- The walk collects the functions of the order before the first visit that is too deep, if the
backend answers for all of them and there is room. -/
lemma walkOn_order (hdeadline : budgets.deadline = none) (order : List (U64 × ℕ)) :
    ∀ {n : ℕ} {w : Walk} {seen : List U64}, w.Matched →
    (∀ k, k ∈ w.visited ↔ k ∈ seen) → (∀ p ∈ w.frontier, p.1 ∈ idx.functions) →
    DepthFirst (calls info idx budgets.max_calls) seen w.frontier order →
    n + w.visited.size = budgets.max_functions →
    (order.takeWhile fun p => p.2 < budgets.depth).length ≤ n →
    ((∃ w', walkOn info idx budgets n w = .ok w') ↔
      ∀ v ∈ (order.takeWhile fun p => p.2 < budgets.depth).map Prod.fst,
        ∃ i, info v budgets.max_calls = .ok i) ∧
    ∀ w', walkOn info idx budgets n w = .ok w' → w'.Matched ∧ ∀ k, k ∈ w'.dossiers ↔
      k ∈ seen ∨ k ∈ (order.takeWhile fun p => p.2 < budgets.depth).map Prod.fst := by
  induction order with
  | nil =>
    intro n w seen hw hseen hfrontier h _ _
    have hnil : w.frontier.dropWhile (w.skips idx) = [] := by
      rw [dropWhile_skips hw hseen hfrontier]
      rcases h.next with ⟨hnil, -⟩ | ⟨v, d, rest, order', -, heq, -⟩
      · exact hnil
      · cases heq
    rw [walkOn_done n hnil]
    refine ⟨iff_of_true ⟨_, rfl⟩ (by simp), ?_⟩
    intro w' hw'
    cases hw'
    refine ⟨⟨hw.mem_dossiers_iff, hw.own⟩, ?_⟩
    intro k
    simp [hw.mem_dossiers_iff, hseen]
  | cons p order ih =>
    intro n w seen hw hseen hfrontier h hroom hfits
    rcases h.next with ⟨-, heq⟩ | ⟨v, d, rest, order', hcons, heq, hv, h⟩
    · cases heq
    obtain ⟨rfl, rfl⟩ := List.cons.inj heq
    rw [← dropWhile_skips hw hseen hfrontier] at hcons
    have hrest : ∀ p ∈ rest, p.1 ∈ idx.functions := by
      intro p hp
      have hmem : p ∈ w.frontier.dropWhile (w.skips idx) := by
        rw [hcons]
        exact List.mem_cons_of_mem _ hp
      exact hfrontier p ((List.dropWhile_sublist _).subset hmem)
    have hsize : (w.visited.insert v).size = w.visited.size + 1 :=
      treeSet_size_insert fun h => hv ((hseen v).mp h)
    by_cases hd : d < budgets.depth
    · -- there is room for this one, so the walk collects it
      rw [List.takeWhile_cons_of_pos (by simpa using hd)] at hfits ⊢
      rw [List.length_cons] at hfits
      obtain ⟨m, rfl⟩ : ∃ m, n = m + 1 := ⟨n - 1, by omega⟩
      have hgo : ¬Stops budgets w v d := by
        rw [Stops, hsize]
        omega
      rw [walkOn_collect hdeadline m hcons hgo, List.map_cons, List.forall_mem_cons]
      cases hi : info v budgets.max_calls with
      | ok i =>
        have hseen' : ∀ k, k ∈ (w.collect idx v d rest i).visited ↔ k ∈ v :: seen := by
          intro k
          rw [List.mem_cons, ← hseen]
          exact mem_treeSet_insert
        have hroom' : m + (w.collect idx v d rest i).visited.size = budgets.max_functions := by
          have hcollected : (w.collect idx v d rest i).visited.size = w.visited.size + 1 := hsize
          omega
        obtain ⟨hok, hall⟩ := ih (hw.collect v d rest i) hseen' (collect_indexed hrest)
          (collect_order hw hseen hi h) hroom' (by omega)
        rw [Outcome.ok_bind, hok]
        refine ⟨by simp, ?_⟩
        intro w' hw'
        obtain ⟨hmatched, hmem⟩ := hall w' hw'
        refine ⟨hmatched, ?_⟩
        intro k
        rw [hmem, List.mem_cons, List.mem_cons]
        tauto
      | err e => simp
      | panic p => simp
    · -- too deep: the walk stops
      rw [List.takeWhile_cons_of_neg (by simpa using hd),
        walkOn_stop n hcons (Or.inr (Nat.le_of_not_lt hd))]
      refine ⟨iff_of_true ⟨_, rfl⟩ (by simp), ?_⟩
      intro w' hw'
      cases hw'
      refine ⟨⟨hw.mem_dossiers_iff, hw.own⟩, ?_⟩
      intro k
      simp [hw.mem_dossiers_iff, hseen]

/-! ## The run -/

/-- The front of the depth-first order is within the depth. -/
lemma front_reaches {root : U64} {order : List (U64 × ℕ)}
    (h : DepthFirst (calls info idx budgets.max_calls) [] [(root, 0)] order) {v : U64}
    (hv : v ∈ (order.takeWhile fun p => p.2 < budgets.depth).map Prod.fst) :
    ∃ k < budgets.depth, Steps (calls info idx budgets.max_calls) root k v := by
  obtain ⟨p, hp, rfl⟩ := List.mem_map.mp hv
  have hroot : ∀ p ∈ [(root, 0)], Steps (calls info idx budgets.max_calls) root p.2 p.1 := by
    intro p hp
    obtain rfl := List.mem_singleton.mp hp
    exact .refl
  have hdepth := List.all_eq_true.mp List.all_takeWhile p hp
  exact ⟨p.2, by simpa using hdepth, h.steps hroot p ((List.takeWhile_sublist _).subset hp)⟩

/-- A fresh run with room for all functions within the depth has dossiers for the front of the
depth-first order. -/
lemma walkOn_fresh_order (hdeadline : budgets.deadline = none) {root : U64}
    (hroot : root ∈ idx.functions) {reach : Finset U64}
    (hreach : ∀ v, v ∈ reach ↔
      ∃ k < budgets.depth, Steps (calls info idx budgets.max_calls) root k v)
    (hcard : reach.card ≤ budgets.max_functions) {order : List (U64 × ℕ)}
    (h : DepthFirst (calls info idx budgets.max_calls) [] [(root, 0)] order) :
    ((∃ w', walkOn info idx budgets budgets.max_functions (fresh root) = .ok w') ↔
      ∀ v ∈ (order.takeWhile fun p => p.2 < budgets.depth).map Prod.fst,
        ∃ i, info v budgets.max_calls = .ok i) ∧
    ∀ w', walkOn info idx budgets budgets.max_functions (fresh root) = .ok w' → w'.Matched ∧
      ∀ k, k ∈ w'.dossiers ↔ k ∈ (order.takeWhile fun p => p.2 < budgets.depth).map Prod.fst := by
  have hfits : (order.takeWhile fun p => p.2 < budgets.depth).length ≤ budgets.max_functions := by
    have hnodup : ((order.takeWhile fun p => p.2 < budgets.depth).map Prod.fst).Nodup :=
      h.nodup.sublist ((List.takeWhile_sublist _).map _)
    have hsub : ((order.takeWhile fun p => p.2 < budgets.depth).map Prod.fst).toFinset ⊆ reach := by
      intro v hv
      exact (hreach v).mpr (front_reaches h (List.mem_toFinset.mp hv))
    have hle := Finset.card_le_card hsub
    rw [List.toFinset_card_of_nodup hnodup, List.length_map] at hle
    omega
  have hrun := @walkOn_order info idx budgets hdeadline order budgets.max_functions (fresh root) []
    (fresh_matched root) (fun k => by simp [fresh]) (fun p hp => by
      obtain rfl := List.mem_singleton.mp hp
      exact hroot) h (by simp [fresh]) hfits
  simpa using hrun

/-- The order of a depth-first search from a function of the index. -/
lemma exists_depthFirst {root : U64} (hroot : root ∈ idx.functions) :
    ∃ order, DepthFirst (calls info idx budgets.max_calls) [] [(root, 0)] order := by
  refine @DepthFirst.exists_order _ _ _ idx.functions.keys ?_ _ [] [(root, 0)]
    (Nat.lt_succ_self _) ?_
  · intro v _ c hc
    rw [Std.ExtTreeMap.mem_keys]
    rw [calls] at hc
    cases hi : info v budgets.max_calls with
    | ok i =>
      rw [hi] at hc
      exact Std.ExtTreeMap.contains_iff_mem.mp (List.mem_filter.mp hc).2
    | err e =>
      rw [hi] at hc
      cases hc
    | panic p =>
      rw [hi] at hc
      cases hc
  · intro p hp
    obtain rfl := List.mem_singleton.mp hp
    exact Std.ExtTreeMap.mem_keys.mpr hroot

end Walk

/-- With room for all functions within the depth, a fresh run without a deadline has dossiers for
exactly these functions if and only if the backend answers for them and the depth-first order of the
calls has them all before its first visit that is too deep. -/
theorem deep_coverage_iff {info : InfoOf} {idx : AnalysisIndex} {root : U64} {budgets : DeepBudgets}
    (hdeadline : budgets.deadline = none) {reach : Finset U64}
    (hreach : ∀ v, v ∈ reach ↔
      ∃ k < budgets.depth, Steps (calls info idx budgets.max_calls) root k v)
    (hcard : reach.card ≤ budgets.max_functions) :
    (∃ out, deepFunction info idx root budgets none = .ok out ∧ ∀ v, HasDossier out v ↔ v ∈ reach) ↔
      root ∈ idx.functions ∧ (∀ v ∈ reach, ∃ i, info v budgets.max_calls = .ok i) ∧
        ∃ order, DepthFirst (calls info idx budgets.max_calls) [] [(root, 0)] order ∧
          ∀ v ∈ reach, v ∈ (order.takeWhile fun p => p.2 < budgets.depth).map Prod.fst := by
  constructor
  · rintro ⟨out, hout, hall⟩
    obtain ⟨hroot, w₀, w, convergence, hw₀, hw, rfl⟩ := deepFunction_eq_ok hout
    cases hw₀
    obtain ⟨order, horder⟩ := @exists_depthFirst info idx budgets root hroot
    obtain ⟨hanswers, hmem⟩ := walkOn_fresh_order hdeadline hroot hreach hcard horder
    obtain ⟨hmatched, hmem⟩ := hmem w hw
    have hfront : ∀ v ∈ reach, v ∈ (order.takeWhile fun p => p.2 < budgets.depth).map Prod.fst := by
      intro v hv
      exact (hmem v).mp ((hasDossier_finish hmatched v).mp ((hall v).mpr hv))
    exact ⟨hroot, fun v hv => hanswers.mp ⟨w, hw⟩ v (hfront v hv), order, horder, hfront⟩
  · rintro ⟨hroot, hanswer, order, horder, hfront⟩
    obtain ⟨hanswers, hmem⟩ := walkOn_fresh_order hdeadline hroot hreach hcard horder
    have hback : ∀ v ∈ (order.takeWhile fun p => p.2 < budgets.depth).map Prod.fst, v ∈ reach :=
      fun v hv => (hreach v).mpr (front_reaches horder hv)
    obtain ⟨w, hw⟩ := hanswers.mpr fun v hv => hanswer v (hback v hv)
    obtain ⟨hmatched, hmem⟩ := hmem w hw
    obtain ⟨convergence, hout⟩ := @deepFunction_of_walk info idx budgets w root none hroot _ rfl hw
    refine ⟨_, hout, ?_⟩
    intro v
    rw [hasDossier_finish hmatched, hmem]
    exact ⟨hback v, hfront v⟩

/-- A backend that reports a call graph. -/
def infoOf (succ : U64 → List U64) : InfoOf := fun ea _ =>
  .ok (.object [("calls", .array ((succ ea).map fun c =>
    .object [("call_ea", .ea ea), ("target_ea", .ea c), ("direct", true)]))])

lemma calls_infoOf (succ : U64 → List U64) (idx : AnalysisIndex) (max_calls : ℕ) (ea : U64) :
    calls (infoOf succ) idx max_calls ea = (succ ea).filter fun c => idx.functions.contains c := by
  have hsites : ∀ cs : List U64, ∀ sites : CallSites,
      ((cs.map fun c =>
        Json.object [("call_ea", .ea ea), ("target_ea", .ea c), ("direct", true)]).foldl
        (fun out c =>
          let call_ea := parseHexOrZero (textOf c "call_ea")
          if ((c.idx "direct").asBool).getD false then
            { out with direct := out.direct ++ [(call_ea, parseHexOrZero (textOf c "target_ea"))] }
          else { out with indirect := out.indirect ++ [call_ea] }) sites).direct.map Prod.snd =
        sites.direct.map Prod.snd ++ cs := by
    intro cs
    induction cs with
    | nil =>
      intro sites
      exact (List.append_nil _).symm
    | cons c cs ih =>
      intro sites
      have htarget : parseHexOrZero (hex c) = c := parseHexOrZero_hex c
      rw [List.map_cons, List.foldl_cons, ih]
      simp [textOf, Json.idx, Json.get, Json.asBool, Json.asStr, Json.ea, htarget]
  exact congrArg (List.filter fun c => idx.functions.contains c) (hsites (succ ea) ⟨[], []⟩)

/-- `main` at 0x1000 calls two functions, and the second one of them calls one more. -/
def branchCalls (ea : U64) : List U64 :=
  if ea = 0x1000 then [0x2000, 0x3000] else if ea = 0x3000 then [0x4000] else []

/-- The index of the four functions. -/
def branchIndex : AnalysisIndex where
  schema_version := INDEX_SCHEMA_VERSION
  binary_md5 := ""
  revision := 1
  functions := ((((∅ : AddrMap FunctionFacts).insert 0x1000 { name := "main" }).insert 0x2000
    { name := "first" }).insert 0x3000 { name := "second" }).insert 0x4000 { name := "last" }
  strings := []

lemma calls_branch (max_calls : ℕ) :
    calls (infoOf branchCalls) branchIndex max_calls = branchCalls := by
  funext ea
  rw [calls_infoOf, List.filter_eq_self]
  intro c hc
  rw [branchCalls] at hc
  split at hc
  · rcases List.mem_pair.mp hc with rfl | rfl
    · decide +kernel
    · decide +kernel
  · split at hc
    · obtain rfl := List.mem_singleton.mp hc
      decide +kernel
    · cases hc

lemma branch_order : DepthFirst branchCalls [] [(0x1000, 0)]
    [(0x1000, 0), (0x3000, 1), (0x4000, 2), (0x2000, 1)] :=
  .visit (by decide) (.visit (by decide) (.visit (by decide) (.visit (by decide) .done)))

/-- Room for `n` functions of a depth. -/
def branchBudgets (depth n : ℕ) : DeepBudgets := ⟨depth, n, 5, 24, none⟩

lemma branch_steps_one (v : U64) : Steps branchCalls 0x1000 1 v ↔ v = 0x2000 ∨ v = 0x3000 := by
  have hcalls : branchCalls 0x1000 = [0x2000, 0x3000] := by decide
  simp [steps_succ, steps_zero, hcalls]

lemma branch_steps_two (v : U64) : Steps branchCalls 0x1000 2 v ↔ v = 0x4000 := by
  have hfirst : branchCalls 0x2000 = [] := by decide
  have hsecond : branchCalls 0x3000 = [0x4000] := by decide
  rw [steps_succ]
  simp only [branch_steps_one]
  constructor
  · rintro ⟨w, rfl | rfl, hv⟩
    · rw [hfirst] at hv
      cases hv
    · rw [hsecond] at hv
      exact List.mem_singleton.mp hv
  · rintro rfl
    exact ⟨0x3000, Or.inr rfl, by decide⟩

/-- With three levels the walk covers all four functions. -/
theorem deep_coverage_iff_branch :
    ∃ out, deepFunction (infoOf branchCalls) branchIndex 0x1000 (branchBudgets 3 4) none = .ok out ∧
      ∀ v, HasDossier out v ↔ v ∈ ({0x1000, 0x2000, 0x3000, 0x4000} : Finset U64) := by
  have hreach : ∀ v, v ∈ ({0x1000, 0x2000, 0x3000, 0x4000} : Finset U64) ↔ ∃ k < 3,
      Steps (calls (infoOf branchCalls) branchIndex 24) 0x1000 k v := by
    intro v
    rw [calls_branch]
    constructor
    · intro hv
      simp only [Finset.mem_insert, Finset.mem_singleton] at hv
      rcases hv with rfl | rfl | rfl | rfl
      · exact ⟨0, by decide, .refl⟩
      · exact ⟨1, by decide, (branch_steps_one _).mpr (Or.inl rfl)⟩
      · exact ⟨1, by decide, (branch_steps_one _).mpr (Or.inr rfl)⟩
      · exact ⟨2, by decide, (branch_steps_two _).mpr rfl⟩
    · rintro ⟨k, hk, hsteps⟩
      interval_cases k
      · simp [steps_zero.mp hsteps]
      · rcases (branch_steps_one v).mp hsteps with rfl | rfl
        · decide
        · decide
      · simp [(branch_steps_two v).mp hsteps]
  have hfront : ∀ v ∈ ({0x1000, 0x2000, 0x3000, 0x4000} : Finset U64),
      v ∈ (([(0x1000, 0), (0x3000, 1), (0x4000, 2), (0x2000, 1)] : List (U64 × ℕ)).takeWhile
        fun p => p.2 < 3).map Prod.fst := by
    intro v hv
    simp only [Finset.mem_insert, Finset.mem_singleton] at hv
    rcases hv with rfl | rfl | rfl | rfl <;> decide
  exact (@deep_coverage_iff _ _ _ (branchBudgets 3 4) rfl _ hreach (by decide)).mpr
    ⟨by decide +kernel, fun v _ => ⟨_, rfl⟩, _, (calls_branch 24).symm ▸ branch_order, hfront⟩

/-- With two levels the walk stops at the fourth function, and the first callee is left out. -/
theorem deep_coverage_not :
    (∀ v, v ∈ ({0x1000, 0x2000, 0x3000} : Finset U64) ↔ ∃ k < 2,
      Steps (calls (infoOf branchCalls) branchIndex 24) 0x1000 k v) ∧
    ∃ out, deepFunction (infoOf branchCalls) branchIndex 0x1000 (branchBudgets 2 3) none = .ok out ∧
      (items out "functions").map (·.idx "ea") = [.ea 0x1000, .ea 0x3000] ∧
      ¬HasDossier out 0x2000 := by
  constructor
  · intro v
    rw [calls_branch]
    constructor
    · intro hv
      simp only [Finset.mem_insert, Finset.mem_singleton] at hv
      rcases hv with rfl | rfl | rfl
      · exact ⟨0, by decide, .refl⟩
      · exact ⟨1, by decide, (branch_steps_one _).mpr (Or.inl rfl)⟩
      · exact ⟨1, by decide, (branch_steps_one _).mpr (Or.inr rfl)⟩
    · rintro ⟨k, hk, hsteps⟩
      interval_cases k
      · simp [steps_zero.mp hsteps]
      · rcases (branch_steps_one v).mp hsteps with rfl | rfl
        · decide
        · decide
  · have hrun : (deepFunction (infoOf branchCalls) branchIndex 0x1000 (branchBudgets 2 3) none >>=
        fun out => (.ok (decide ((items out "functions").map (·.idx "ea") =
          [.ea 0x1000, .ea 0x3000])) : Result Bool)) = .ok true := by decide +kernel
    obtain ⟨out, hout, hrun⟩ := Outcome.bind_eq_ok.mp hrun
    have heas := of_decide_eq_true (Outcome.ok.inj hrun)
    refine ⟨out, hout, heas, ?_⟩
    rintro ⟨row, hrow, hea⟩
    have hmem : Json.ea 0x2000 ∈ (items out "functions").map (·.idx "ea") := by
      rw [← hea]
      exact List.mem_map_of_mem hrow
    rw [heas] at hmem
    revert hmem
    decide +kernel

end Deep

end ReverseMcp
