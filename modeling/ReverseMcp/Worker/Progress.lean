import Mathlib.Data.List.TakeWhile
import ReverseMcp.Worker.Coverage

/-!
# Repeated resumption

A run of `deep::deep_function` that stops hands back a token, and the next call goes on from it.
The restored dossiers count against `max_functions` as they did before, and the entry that was too
deep or too much is the first one to be popped again, so with the same budgets the next call stops
where the last one did.  The one exception is a dossier at address 0, which is dropped on the way
and leaves room for one more function (`deep_resume_progress_iff`).
-/

namespace ReverseMcp

open Rust Relation

namespace Deep

/-- The addresses of a token's dossiers. -/
def tokenEas (token : Json) : List U64 :=
  (items token "dossiers").map fun row => parseHexOrZero (textOf row "ea")

/-! ## Walks that have stopped -/

/-- What holds of a walk that has stopped in front of `ea`, with `rest` pending behind it. -/
structure Walk.Stopped (idx : AnalysisIndex) (budgets : DeepBudgets) (w : Walk)
    (ea : U64) (depth : ℕ) (rest : List (U64 × ℕ)) : Prop where
  matched : w.Matched
  frontier_eq : w.frontier = (ea, depth) :: rest
  not_visited : ea ∉ w.visited
  indexed : ea ∈ idx.functions
  stops : Stops budgets w ea depth
  bounded : ∀ p ∈ w.frontier, p.2 < 2 ^ 32
  hit : w.budget_hit = true

section Walk

variable {info : InfoOf} {idx : AnalysisIndex} {budgets : DeepBudgets} {w : Walk}
  {ea : U64} {depth : ℕ} {rest : List (U64 × ℕ)}

lemma walkOn_panics (hdeadline : budgets.deadline = none)
    (h : w.frontier.dropWhile (w.skips idx) = (ea, depth) :: rest)
    (hgo : ¬Stops budgets w ea depth) :
    walkOn info idx budgets 0 w = .panic .loop := by
  rw [walkOn]
  rw [h]
  exact if_neg (goes_on hdeadline hgo)

/-- What a round of the walk does: it ends the walk, or it collects a function above the last
level. -/
lemma walkOn_round (hdeadline : budgets.deadline = none) {n : ℕ} {w' : Walk} (hw : w.Matched)
    (hhit : w.budget_hit = false) (hbounded : ∀ p ∈ w.frontier, p.2 < 2 ^ 32)
    (h : walkOn info idx budgets n w = .ok w') :
    (w'.budget_hit = false ∨ ∃ ea depth rest, w'.Stopped idx budgets ea depth rest) ∨
    ∃ m ea depth rest i, n = m + 1 ∧ depth < budgets.depth ∧ (∀ p ∈ rest, p ∈ w.frontier) ∧
      walkOn info idx budgets m (w.collect idx ea depth rest i) = .ok w' := by
  cases hdrop : w.frontier.dropWhile (w.skips idx) with
  | nil =>
    rw [walkOn_done n hdrop] at h
    cases h
    exact .inl (.inl hhit)
  | cons p rest =>
    obtain ⟨ea, depth⟩ := p
    obtain ⟨-, hindexed, hnew⟩ := not_skipped hdrop
    have hsub : ∀ p ∈ (ea, depth) :: rest, p ∈ w.frontier := by
      intro p hp
      rw [← hdrop] at hp
      exact (List.dropWhile_sublist _).subset hp
    by_cases hstop : Stops budgets w ea depth
    · rw [walkOn_stop n hdrop hstop] at h
      cases h
      exact .inl (.inr ⟨ea, depth, rest, ⟨hw.mem_dossiers_iff, hw.own⟩, rfl, hnew, hindexed, hstop,
        fun p hp => hbounded p (hsub p hp), rfl⟩)
    · cases n with
      | zero =>
        rw [walkOn_panics hdeadline hdrop hstop] at h
        cases h
      | succ m =>
        rw [walkOn_collect hdeadline m hdrop hstop] at h
        obtain ⟨i, -, h⟩ := Outcome.bind_eq_ok.mp h
        rw [Stops, not_or, Nat.not_le] at hstop
        exact .inr ⟨m, ea, depth, rest, i, rfl, hstop.2,
          fun p hp => hsub p (List.mem_cons_of_mem _ hp), h⟩

/-- However a walk ends. -/
lemma walkOn_ends (hdeadline : budgets.deadline = none) (hdepth : budgets.depth < 2 ^ 32) (n : ℕ) :
    ∀ {w w' : Walk}, w.Matched → w.budget_hit = false → (∀ p ∈ w.frontier, p.2 < 2 ^ 32) →
      walkOn info idx budgets n w = .ok w' →
      w'.budget_hit = false ∨ ∃ ea depth rest, w'.Stopped idx budgets ea depth rest := by
  induction n with
  | zero =>
    intro w w' hw hhit hbounded h
    rcases walkOn_round hdeadline hw hhit hbounded h with hend | ⟨m, ea, depth, rest, i, hm, -⟩
    · exact hend
    · cases hm
  | succ n ih =>
    intro w w' hw hhit hbounded h
    rcases walkOn_round hdeadline hw hhit hbounded h with
      hend | ⟨m, ea, depth, rest, i, hm, hlt, hrest, h⟩
    · exact hend
    · obtain rfl := Nat.succ.inj hm
      refine ih (hw.collect ea depth rest i) hhit ?_ h
      intro p hp
      rcases ReverseMcp.Graph.mem_pushAll.mp hp with ⟨-, hd⟩ | hp
      · omega
      · exact hbounded p (hrest p hp)

/-! ## Where a run starts -/

/-- The dossiers that are read back are restored each under its own address. -/
lemma restored_matched (ds : List FunctionDossier) (frontier : List (U64 × ℕ)) :
    Walk.Matched ⟨ds.foldl (fun s d => s.insert d.ea) ∅, ds.foldl (fun m d => m.insert d.ea d) ∅,
      frontier, false, 0⟩ := by
  induction ds using List.reverseRecOn with
  | nil => exact ⟨(fresh_matched 0).mem_dossiers_iff, (fresh_matched 0).own⟩
  | append_singleton ds d ih =>
    simp only [List.foldl_concat]
    constructor
    · intro k
      rw [mem_treeMap_insert, mem_treeSet_insert]
      exact or_congr_right (ih.mem_dossiers_iff k)
    · intro k e he
      rw [getElem?_insert_eq_ite] at he
      split at he
      · rename_i hk
        cases he
        exact hk.symm
      · exact ih.own k e he

lemma mem_restored {ds : List FunctionDossier} {k : U64} :
    k ∈ ds.foldl (fun s d => s.insert d.ea) (∅ : AddrSet) ↔ ∃ d ∈ ds, d.ea = k := by
  have hmap : ds.foldl (fun s d => s.insert d.ea) (∅ : AddrSet) =
      (ds.map FunctionDossier.ea).foldl (·.insert ·) ∅ := List.foldl_map.symm
  rw [hmap, mem_treeSet_foldl_insert, List.mem_map]
  simp

lemma resumePending_bounded {root : U64} {token : Json} :
    ∀ p ∈ resumePending root token, p.2 < 2 ^ 32 := by
  intro p hp
  rw [resumePending] at hp
  split at hp
  · obtain rfl := List.mem_singleton.mp hp
    exact Nat.two_pow_pos 32
  · obtain ⟨entry, -, hentry⟩ := List.mem_filterMap.mp (List.mem_reverse.mp hp)
    simp only [Option.bind_eq_bind, Option.bind_eq_some_iff, Option.pure_def, Option.some.injEq]
      at hentry
    obtain ⟨ea, -, depth, -, rfl⟩ := hentry
    exact Nat.mod_lt _ (by decide)

/-- Wherever a run starts. -/
lemma start_matched {root : U64} {resume : Option Json} (h : start root resume = .ok w) :
    w.Matched ∧ w.budget_hit = false ∧ ∀ p ∈ w.frontier, p.2 < 2 ^ 32 := by
  cases resume with
  | none =>
    cases h
    refine ⟨fresh_matched root, rfl, ?_⟩
    intro p hp
    obtain rfl := List.mem_singleton.mp hp
    exact Nat.two_pow_pos 32
  | some token =>
    rw [start] at h
    dsimp only at h
    split at h
    · cases h
    · cases h
      exact ⟨restored_matched _ _, rfl, resumePending_bounded⟩

end Walk

/-! ## What a token hands over -/

section Token

variable {info : InfoOf} {idx : AnalysisIndex} {budgets : DeepBudgets} {w : Walk} {root : U64}

lemma resumePending_tokenOf (hbounded : ∀ p ∈ w.frontier, p.2 < 2 ^ 32) :
    resumePending root (tokenOf root w w.dossiers) = w.frontier := by
  have hpending : ((tokenOf root w w.dossiers).idx "pending").asArray =
      some (w.frontier.reverse.map fun p => .object [("ea", .ea p.1), ("depth", .nat p.2)]) := rfl
  rw [resumePending]
  rw [hpending]
  dsimp only
  rw [List.filterMap_map]
  have hread : ∀ p ∈ w.frontier.reverse, (do
      let ea ← ((Json.object [("ea", .ea p.1), ("depth", .nat p.2)]).idx "ea").asStr
      let depth ← ((Json.object [("ea", .ea p.1), ("depth", .nat p.2)]).idx "depth").asU64
      return (parseHexOrZero ea, depth.val % 2 ^ 32)) = some p := by
    intro p hp
    have hlt := hbounded p (List.mem_reverse.mp hp)
    have hval : (asU64 p.2).val = p.2 := asU64_val (by omega)
    show some (parseHexOrZero (hex p.1), (asU64 p.2).val % 2 ^ 32) = some p
    rw [parseHexOrZero_hex, hval, Nat.mod_eq_of_lt hlt]
  have hall := List.filterMap_congr hread
  rw [List.filterMap_some] at hall
  exact (congrArg List.reverse hall).trans (List.reverse_reverse _)

lemma resumeDossier_zero {d : FunctionDossier} (hd : d.ea = 0) :
    resumeDossier (dossierRow d) = none := by
  have hea : parseHexOrZero (textOf (dossierRow d) "ea") = d.ea := parseHexOrZero_hex d.ea
  rw [resumeDossier]
  rw [hea]
  exact if_pos hd

/-- A walk that goes on from another one, without the dossier at address 0. -/
structure Walk.Restores (w w₀ : Walk) : Prop where
  matched : w₀.Matched
  hit : w₀.budget_hit = false
  frontier_eq : w₀.frontier = w.frontier
  mem_visited_iff : ∀ k, k ∈ w₀.visited ↔ k ∈ w.visited ∧ k ≠ 0

/-- The dossier at address 0 is not read back. -/
lemma start_tokenOf (hw : w.Matched) (hbounded : ∀ p ∈ w.frontier, p.2 < 2 ^ 32) :
    ∃ w₀, start root (some (tokenOf root w w.dossiers)) = .ok w₀ ∧ w.Restores w₀ := by
  have hpending : resumePending root (tokenOf root w w.dossiers) = w.frontier :=
    resumePending_tokenOf hbounded
  refine ⟨_, rfl, restored_matched _ _, rfl, hpending, ?_⟩
  intro k
  rw [← hw.mem_dossiers_iff]
  refine mem_restored.trans ?_
  constructor
  · rintro ⟨e, he, rfl⟩
    obtain ⟨row, hrow, hread⟩ := List.mem_filterMap.mp he
    obtain ⟨d, hd, rfl⟩ := List.mem_map.mp hrow
    obtain ⟨⟨k, d⟩, hkd, rfl⟩ := List.mem_map.mp hd
    have hget := Std.ExtTreeMap.mem_toList_iff_getElem?_eq_some.mp hkd
    have hzero : d.ea ≠ 0 := by
      intro h
      rw [resumeDossier_zero h] at hread
      cases hread
    obtain ⟨d', hd', hea, -⟩ := resumeDossier_row d hzero
    obtain rfl := Option.some.inj (hd'.symm.trans hread)
    have hown := hw.own k d hget
    rw [hea, hown]
    refine ⟨?_, fun h => hzero (hown.trans h)⟩
    rw [Std.ExtTreeMap.mem_iff_isSome_getElem?, hget]
    rfl
  · rintro ⟨hk, hzero⟩
    obtain ⟨d, hd⟩ := Option.isSome_iff_exists.mp (Std.ExtTreeMap.mem_iff_isSome_getElem?.mp hk)
    have hown := hw.own k d hd
    obtain ⟨d', hd', hea, -⟩ := resumeDossier_row d (by rw [hown]; exact hzero)
    have hmem : d ∈ w.dossiers.toList.map Prod.snd :=
      List.mem_map.mpr ⟨(k, d), Std.ExtTreeMap.mem_toList_iff_getElem?_eq_some.mpr hd, rfl⟩
    exact ⟨d', List.mem_filterMap.mpr ⟨dossierRow d, List.mem_map_of_mem hmem, hd'⟩, hea.trans hown⟩

lemma tokenEas_tokenOf (hw : w.Matched) :
    tokenEas (tokenOf root w w.dossiers) = w.dossiers.keys := by
  have hrows : items (tokenOf root w w.dossiers) "dossiers" =
      (w.dossiers.toList.map Prod.snd).map dossierRow := rfl
  rw [tokenEas, hrows, List.map_map, List.map_map, ← Std.ExtTreeMap.map_fst_toList_eq_keys]
  refine List.map_congr_left ?_
  rintro ⟨k, d⟩ hkd
  have hea : parseHexOrZero (textOf (dossierRow d) "ea") = d.ea := parseHexOrZero_hex d.ea
  rw [Function.comp_apply, Function.comp_apply, hea]
  exact hw.own k d (Std.ExtTreeMap.mem_toList_iff_getElem?_eq_some.mp hkd)

lemma mem_tokenEas (hw : w.Matched) {k : U64} :
    k ∈ tokenEas (tokenOf root w w.dossiers) ↔ k ∈ w.visited := by
  rw [tokenEas_tokenOf hw, Std.ExtTreeMap.mem_keys, hw.mem_dossiers_iff]

lemma tokenEas_length (hw : w.Matched) :
    (tokenEas (tokenOf root w w.dossiers)).length = w.visited.size := by
  have hmem : ∀ k, k ∈ w.visited ↔ k ∈ w.dossiers.keys := by
    intro k
    rw [Std.ExtTreeMap.mem_keys, hw.mem_dossiers_iff]
  rw [tokenEas_tokenOf hw, treeSet_size_eq_card hmem,
    List.toFinset_card_of_nodup Std.ExtTreeMap.nodup_keys]

end Token

/-! ## The next call -/

/-- The pending entry on top of the token is above the last level, the backend answers for its
function, and there is room for it because a dossier at address 0 is dropped. -/
structure GoesOn (info : InfoOf) (root : U64) (budgets : DeepBudgets) (token : Json) (ea : U64)
    (depth : ℕ) (rest : List (U64 × ℕ)) : Prop where
  pending : resumePending root token = (ea, depth) :: rest
  above : depth < budgets.depth
  dropped : 0 ∈ tokenEas token
  room : (tokenEas token).length ≤ budgets.max_functions
  answers : ∃ i, info ea budgets.max_calls = .ok i

/-- All that is pending behind the top entry, or called by its function, has a dossier by then or is
not in the index. -/
def NothingElse (info : InfoOf) (idx : AnalysisIndex) (budgets : DeepBudgets)
    (token : Json) (ea : U64) (rest : List (U64 × ℕ)) : Prop :=
  ∀ c ∈ rest.map Prod.fst ++ calls info idx budgets.max_calls ea,
    c ∈ idx.functions → c = ea ∨ (c ≠ 0 ∧ c ∈ tokenEas token)

section NextCall

variable {info : InfoOf} {idx : AnalysisIndex} {budgets : DeepBudgets} {w w₀ : Walk} {root ea : U64}
  {depth : ℕ} {rest : List (U64 × ℕ)}

lemma Walk.Restores.not_visited (hr : w.Restores w₀) (hs : w.Stopped idx budgets ea depth rest) :
    ea ∉ w₀.visited := fun h => hs.not_visited ((hr.mem_visited_iff ea).mp h).1

/-- The restored walk looks at the same entry first. -/
lemma restored_first (hs : w.Stopped idx budgets ea depth rest) (hr : w.Restores w₀) :
    w₀.frontier.dropWhile (w₀.skips idx) = (ea, depth) :: rest := by
  have hnot := hr.not_visited hs
  have hvisited : w₀.visited.contains ea = false := Bool.eq_false_iff.mpr hnot
  have hdossier : w₀.dossiers.contains ea = false :=
    Bool.eq_false_iff.mpr fun h => hnot ((hr.matched.mem_dossiers_iff ea).mp h)
  rw [hr.frontier_eq, hs.frontier_eq]
  refine List.dropWhile_cons_of_neg ?_
  simp only [Walk.skips, hvisited, hdossier, Std.ExtTreeMap.contains_iff_mem.mpr hs.indexed]
  decide

lemma Walk.Restores.size_of_zero (hr : w.Restores w₀) (hzero : 0 ∈ w.visited) :
    w.visited.size = w₀.visited.size + 1 := by
  have hdropped : w.visited = w₀.visited.insert 0 := by
    refine Std.ExtTreeSet.ext_mem fun k => ?_
    rw [mem_treeSet_insert, hr.mem_visited_iff]
    by_cases hk : k = 0
    · simp [hk, hzero]
    · simp [hk]
  rw [hdropped]
  exact treeSet_size_insert fun h => ((hr.mem_visited_iff 0).mp h).2 rfl

/-- It stops there again unless a dossier was dropped. -/
lemma not_stops_restored_iff (hs : w.Stopped idx budgets ea depth rest) (hr : w.Restores w₀) :
    ¬Stops budgets w₀ ea depth ↔
      depth < budgets.depth ∧ 0 ∈ w.visited ∧ w.visited.size ≤ budgets.max_functions := by
  have hsize : (w.visited.insert ea).size = w.visited.size + 1 := treeSet_size_insert hs.not_visited
  have hsize₀ : (w₀.visited.insert ea).size = w₀.visited.size + 1 :=
    treeSet_size_insert (hr.not_visited hs)
  have hstops := hs.stops
  rw [Stops, hsize] at hstops
  rw [Stops, hsize₀]
  by_cases hzero : 0 ∈ w.visited
  · have hone := hr.size_of_zero hzero
    simp only [hzero, true_and]
    omega
  · have hsame : w₀.visited = w.visited := by
      refine Std.ExtTreeSet.ext_mem fun k => ?_
      rw [hr.mem_visited_iff]
      refine and_iff_left_of_imp ?_
      rintro hk rfl
      exact hzero hk
    rw [hsame]
    simp only [hzero, false_and, and_false, iff_false, not_not]
    omega

/-- A walk without room for another function collects no more. -/
lemma walkOn_full (n : ℕ) (hfull : budgets.max_functions ≤ w.visited.size) (hw : w.Matched)
    (hhit : w.budget_hit = false) : ∃ w', walkOn info idx budgets n w = .ok w' ∧ w'.Matched ∧
      w'.visited = w.visited ∧
      (w'.budget_hit = false ↔ ∀ p ∈ w.frontier, w.skips idx p = true) := by
  rw [← List.dropWhile_eq_nil_iff]
  cases hdrop : w.frontier.dropWhile (w.skips idx) with
  | nil =>
    exact ⟨_, walkOn_done n hdrop, ⟨hw.mem_dossiers_iff, hw.own⟩, rfl, iff_of_true hhit rfl⟩
  | cons p rest =>
    obtain ⟨ea, depth⟩ := p
    have hstop : Stops budgets w ea depth := by
      refine Or.inl ?_
      rw [treeSet_size_insert (not_skipped hdrop).2.2]
      omega
    refine ⟨_, walkOn_stop n hdrop hstop, ⟨hw.mem_dossiers_iff, hw.own⟩, rfl, ?_⟩
    simp

lemma skips_iff (hw : w.Matched) (p : U64 × ℕ) :
    w.skips idx p = true ↔ (p.1 ∈ idx.functions → p.1 ∈ w.visited) := by
  have hdossier : w.dossiers.contains p.1 = true ↔ p.1 ∈ w.visited :=
    Std.ExtTreeMap.contains_iff_mem.trans (hw.mem_dossiers_iff p.1)
  have hvisited : w.visited.contains p.1 = true ↔ p.1 ∈ w.visited := Iff.rfl
  rw [Walk.skips, Bool.or_eq_true, Bool.or_eq_true, hdossier, hvisited, Bool.not_eq_true',
    ← Bool.not_eq_true, Std.ExtTreeMap.contains_iff_mem]
  tauto

/-- All that is left behind the top entry is skipped when nothing else is pending. -/
lemma skips_collect_iff (hr : w.Restores w₀) (hw : w.Matched) {i : Json}
    (hi : info ea budgets.max_calls = .ok i) :
    (∀ p ∈ (w₀.collect idx ea depth rest i).frontier,
        (w₀.collect idx ea depth rest i).skips idx p = true) ↔
      NothingElse info idx budgets (tokenOf root w w.dossiers) ea rest := by
  have hmatched : (w₀.collect idx ea depth rest i).Matched := hr.matched.collect ea depth rest i
  have hvisited : ∀ k, k ∈ (w₀.collect idx ea depth rest i).visited ↔
      k = ea ∨ (k ≠ 0 ∧ k ∈ tokenEas (tokenOf root w w.dossiers)) := by
    intro k
    rw [mem_tokenEas hw, and_comm, ← hr.mem_visited_iff]
    exact mem_treeSet_insert
  have hcalls : calls info idx budgets.max_calls ea =
      ((extract_call_sites i).direct.map Prod.snd).filter fun c => idx.functions.contains c := by
    rw [calls, hi]
  rw [NothingElse]
  simp only [skips_iff hmatched, ← hvisited]
  constructor
  · intro h c hc hindexed
    by_contra hnot
    rcases List.mem_append.mp hc with hc | hc
    · obtain ⟨p, hp, rfl⟩ := List.mem_map.mp hc
      exact hnot (h p (ReverseMcp.Graph.mem_pushAll.mpr (.inr hp)) hindexed)
    · -- a callee without a dossier is pending
      have hdossier : (w₀.collect idx ea depth rest i).dossiers.contains c = false :=
        Bool.eq_false_iff.mpr fun h => hnot ((hmatched.mem_dossiers_iff c).mp h)
      rw [hcalls, List.mem_filter] at hc
      refine hnot (h (c, depth + 1) (ReverseMcp.Graph.mem_pushAll.mpr (.inl ⟨?_, rfl⟩)) hindexed)
      refine List.mem_filter.mpr ⟨hc.1, ?_⟩
      rw [hc.2, Bool.true_and, Bool.not_eq_true']
      exact hdossier
  · intro h p hp hindexed
    refine h p.1 (List.mem_append.mpr ?_) hindexed
    rcases ReverseMcp.Graph.mem_pushAll.mp hp with ⟨hmem, -⟩ | hp
    · rw [List.mem_filter, Bool.and_eq_true] at hmem
      rw [hcalls]
      exact .inr (List.mem_filter.mpr ⟨hmem.1, hmem.2.1⟩)
    · exact .inl (List.mem_map_of_mem hp)

/-- With room the restored walk collects the function on top, and no other. -/
lemma walkOn_restored (hdeadline : budgets.deadline = none)
    (hs : w.Stopped idx budgets ea depth rest)
    (hr : w.Restores w₀) (hgo : ¬Stops budgets w₀ ea depth) {i : Json}
    (hi : info ea budgets.max_calls = .ok i) :
    ∃ w', walkOn info idx budgets budgets.max_functions w₀ = .ok w' ∧ w'.Matched ∧
      (∀ k, k ∈ w'.visited ↔ k = ea ∨ k ∈ w.visited ∧ k ≠ 0) ∧
      (w'.budget_hit = false ↔
        NothingElse info idx budgets (tokenOf root w w.dossiers) ea rest) := by
  obtain ⟨habove, hzero, hroom⟩ := (not_stops_restored_iff hs hr).mp hgo
  have hone := hr.size_of_zero hzero
  have hmatched : (w₀.collect idx ea depth rest i).Matched := hr.matched.collect ea depth rest i
  -- after the function there is no room for another one
  have hcollected : (w₀.collect idx ea depth rest i).visited.size = w₀.visited.size + 1 :=
    treeSet_size_insert (hr.not_visited hs)
  have hfull : budgets.max_functions ≤ (w₀.collect idx ea depth rest i).visited.size := by
    have hstops := hs.stops
    rw [Stops, treeSet_size_insert hs.not_visited] at hstops
    omega
  obtain ⟨m, hm⟩ : ∃ m, budgets.max_functions = m + 1 := ⟨budgets.max_functions - 1, by omega⟩
  obtain ⟨w', hw', hmatched', hvisited, hhit⟩ :=
    @walkOn_full info idx budgets (w₀.collect idx ea depth rest i) m hfull hmatched hr.hit
  refine ⟨w', ?_, hmatched', ?_, ?_⟩
  · rw [hm, walkOn_collect hdeadline m (restored_first hs hr) hgo, hi, Outcome.ok_bind, hw']
  · intro k
    rw [hvisited, ← hr.mem_visited_iff]
    exact mem_treeSet_insert
  · rw [hhit, ← skips_collect_iff hr hs.matched hi]

/-- The token has all that `GoesOn` asks for exactly when the restored walk does not stop. -/
lemma goesOn_iff (hs : w.Stopped idx budgets ea depth rest) (hr : w.Restores w₀) :
    GoesOn info root budgets (tokenOf root w w.dossiers) ea depth rest ↔
      ¬Stops budgets w₀ ea depth ∧ ∃ i, info ea budgets.max_calls = .ok i := by
  rw [not_stops_restored_iff hs hr]
  constructor
  · intro h
    refine ⟨⟨h.above, (mem_tokenEas hs.matched).mp h.dropped, ?_⟩, h.answers⟩
    rw [← tokenEas_length hs.matched]
    exact h.room
  · rintro ⟨⟨habove, hzero, hroom⟩, hanswers⟩
    refine ⟨(resumePending_tokenOf hs.bounded).trans hs.frontier_eq, habove,
      (mem_tokenEas hs.matched).mpr hzero, ?_, hanswers⟩
    rw [tokenEas_length hs.matched]
    exact hroom

/-- The next call stops where the last one did, or it collects the function on top. -/
lemma resume_cases (hdeadline : budgets.deadline = none) (hdepth : budgets.depth < 2 ^ 32)
    (hs : w.Stopped idx budgets ea depth rest) {out : Json}
    (h : deepFunction info idx root budgets (some (tokenOf root w w.dossiers)) = .ok out) :
    ∃ w' convergence, out = finish idx root budgets w' w'.dossiers [] convergence ∧ w'.Matched ∧
      (w'.budget_hit = false ∨ ∃ ea depth rest, w'.Stopped idx budgets ea depth rest) ∧
      ((w'.budget_hit = true ∧ ∀ k, k ∈ w'.visited ↔ k ∈ w.visited ∧ k ≠ 0) ∨
        (GoesOn info root budgets (tokenOf root w w.dossiers) ea depth rest ∧
          (∀ k, k ∈ w'.visited ↔ k = ea ∨ k ∈ w.visited ∧ k ≠ 0) ∧
          (w'.budget_hit = false ↔
            NothingElse info idx budgets (tokenOf root w w.dossiers) ea rest))) := by
  obtain ⟨-, w₀', w', convergence, hw₀', hw', rfl⟩ := deepFunction_eq_ok h
  obtain ⟨w₀, hw₀, hr⟩ := @start_tokenOf w root hs.matched hs.bounded
  obtain rfl := Outcome.ok.inj (hw₀.symm.trans hw₀')
  have hends := walkOn_ends hdeadline hdepth _ hr.matched hr.hit
    (fun p hp => hs.bounded p (hr.frontier_eq ▸ hp)) hw'
  refine ⟨w', convergence, rfl, ?_⟩
  by_cases hstop : Stops budgets w₀ ea depth
  · rw [walkOn_stop _ (restored_first hs hr) hstop] at hw'
    cases hw'
    exact ⟨⟨hr.matched.mem_dossiers_iff, hr.matched.own⟩, hends, .inl ⟨rfl, hr.mem_visited_iff⟩⟩
  · obtain ⟨i, hi⟩ : ∃ i, info ea budgets.max_calls = .ok i := by
      obtain ⟨m, hm⟩ : ∃ m, budgets.max_functions = m + 1 := by
        rw [Stops, treeSet_size_insert (hr.not_visited hs)] at hstop
        exact ⟨budgets.max_functions - 1, by omega⟩
      have hrun := hw'
      rw [hm, walkOn_collect hdeadline m (restored_first hs hr) hstop] at hrun
      exact (Outcome.bind_eq_ok.mp hrun).imp fun i h => h.1
    obtain ⟨w'', hw'', hmatched, hvisited, hhit⟩ :=
      @walkOn_restored info idx budgets w w₀ root ea depth rest hdeadline hs hr hstop i hi
    obtain rfl := Outcome.ok.inj (hw''.symm.trans hw')
    exact ⟨hmatched, hends, .inr ⟨(goesOn_iff hs hr).mpr ⟨hstop, i, hi⟩, hvisited, hhit⟩⟩

/-- With room the next call returns. -/
lemma exists_resume (hdeadline : budgets.deadline = none) (hroot : root ∈ idx.functions)
    (hs : w.Stopped idx budgets ea depth rest)
    (hgo : GoesOn info root budgets (tokenOf root w w.dossiers) ea depth rest) :
    ∃ out, deepFunction info idx root budgets (some (tokenOf root w w.dossiers)) = .ok out ∧
      HasDossier out ea ∧ (NothingElse info idx budgets (tokenOf root w w.dossiers) ea rest →
        out.idx "budget_hit" = false) := by
  obtain ⟨w₀, hw₀, hr⟩ := @start_tokenOf w root hs.matched hs.bounded
  obtain ⟨hstop, i, hi⟩ := (goesOn_iff hs hr).mp hgo
  obtain ⟨w', hw', hmatched, hvisited, hhit⟩ :=
    @walkOn_restored info idx budgets w w₀ root ea depth rest hdeadline hs hr hstop i hi
  obtain ⟨convergence, hout⟩ := deepFunction_of_walk hroot hw₀ hw'
  refine ⟨_, hout, ?_, ?_⟩
  · rw [hasDossier_finish hmatched, hmatched.mem_dossiers_iff, hvisited]
    exact .inl rfl
  · intro hnothing
    exact congrArg Json.bool (hhit.mpr hnothing)

end NextCall

/-! ## Repeated calls -/

/-- The next call with the same budgets and the token of the last report. -/
def ResumesTo (info : InfoOf) (idx : AnalysisIndex) (root : U64) (budgets : DeepBudgets)
    (out out' : Json) : Prop :=
  out.idx "budget_hit" = true ∧
    deepFunction info idx root budgets (some (out.idx "resume")) = .ok out'

/-- The report is of a walk that has stopped without a dossier at address 0. -/
def Stalled (idx : AnalysisIndex) (root : U64) (budgets : DeepBudgets) (out : Json) : Prop :=
  ∃ w convergence ea depth rest, out = finish idx root budgets w w.dossiers [] convergence ∧
    w.Stopped idx budgets ea depth rest ∧ 0 ∉ w.visited

section Runs

variable {info : InfoOf} {idx : AnalysisIndex} {budgets : DeepBudgets} {root : U64}
  {out out' : Json}

lemma budget_hit_finish {w : Walk} {convergence : Json} :
    (finish idx root budgets w w.dossiers [] convergence).idx "budget_hit" =
    .bool w.budget_hit := rfl

lemma resume_of_stopped {w : Walk} {convergence : Json} {ea : U64} {depth : ℕ}
    {rest : List (U64 × ℕ)} (hs : w.Stopped idx budgets ea depth rest) :
    (finish idx root budgets w w.dossiers [] convergence).idx "resume" =
    tokenOf root w w.dossiers := by
  rw [finish_resume]
  exact if_pos hs.hit

/-- A run that reports that a budget was hit has stopped. -/
lemma stopped_of_hit (hdeadline : budgets.deadline = none) (hdepth : budgets.depth < 2 ^ 32)
    {resume : Option Json} (h : deepFunction info idx root budgets resume = .ok out)
    (hhit : out.idx "budget_hit" = true) : root ∈ idx.functions ∧
      ∃ w convergence ea depth rest, out = finish idx root budgets w w.dossiers [] convergence ∧
        w.Stopped idx budgets ea depth rest := by
  obtain ⟨hroot, w₀, w, convergence, hw₀, hw, rfl⟩ := deepFunction_eq_ok h
  obtain ⟨hmatched, hfirst, hbounded⟩ := start_matched hw₀
  rw [budget_hit_finish, Json.bool.injEq] at hhit
  rcases walkOn_ends hdeadline hdepth _ hmatched hfirst hbounded hw with hno | ⟨ea, depth, rest, hs⟩
  · rw [hno] at hhit
    cases hhit
  · exact ⟨hroot, w, convergence, ea, depth, rest, rfl, hs⟩

/-- A run that stalled stalls again. -/
lemma Stalled.resumesTo (hdeadline : budgets.deadline = none) (hdepth : budgets.depth < 2 ^ 32)
    (h : Stalled idx root budgets out) (hnext : ResumesTo info idx root budgets out out') :
    Stalled idx root budgets out' := by
  obtain ⟨w, convergence, ea, depth, rest, rfl, hs, hzero⟩ := h
  obtain ⟨-, hout⟩ := hnext
  rw [resume_of_stopped hs] at hout
  obtain ⟨w', convergence', rfl, hmatched, hends, hcases⟩ := resume_cases hdeadline hdepth hs hout
  rcases hcases with ⟨hhit, hvisited⟩ | ⟨hgo, -⟩
  · rcases hends with hno | ⟨ea', depth', rest', hs'⟩
    · rw [hno] at hhit
      cases hhit
    · exact ⟨w', convergence', ea', depth', rest', rfl, hs', fun h => ((hvisited 0).mp h).2 rfl⟩
  · exact absurd ((mem_tokenEas hs.matched).mp hgo.dropped) hzero

/-- However often a run that stalled is resumed, the budget is hit. -/
lemma Stalled.hit (hdeadline : budgets.deadline = none) (hdepth : budgets.depth < 2 ^ 32)
    (h : Stalled idx root budgets out)
    (hruns : ReflTransGen (ResumesTo info idx root budgets) out out') :
    out'.idx "budget_hit" = true := by
  have hstalled : Stalled idx root budgets out' := by
    induction hruns with
    | refl => exact h
    | tail _ hnext ih => exact ih.resumesTo hdeadline hdepth hnext
  obtain ⟨w, convergence, ea, depth, rest, rfl, hs, -⟩ := hstalled
  exact congrArg Json.bool hs.hit

variable {w : Walk} {convergence : Json} {ea : U64} {depth : ℕ} {rest : List (U64 × ℕ)}

/-- The next call gets on exactly when the token leaves room for the entry on top. -/
lemma progress_iff (hdeadline : budgets.deadline = none) (hdepth : budgets.depth < 2 ^ 32)
    (hroot : root ∈ idx.functions) (hs : w.Stopped idx budgets ea depth rest) :
    (∃ out', deepFunction info idx root budgets (some (tokenOf root w w.dossiers)) = .ok out' ∧
      (out'.idx "budget_hit" = false ∨
        ∃ v, HasDossier out' v ∧ v ∉ tokenEas (tokenOf root w w.dossiers))) ↔
      GoesOn info root budgets (tokenOf root w w.dossiers) ea depth rest := by
  constructor
  · rintro ⟨out', hout, hprogress⟩
    obtain ⟨w', convergence', rfl, hmatched, -, hcases⟩ := resume_cases hdeadline hdepth hs hout
    rcases hcases with ⟨hhit, hvisited⟩ | ⟨hgo, -⟩
    · rcases hprogress with hno | ⟨v, hv, hnew⟩
      · rw [budget_hit_finish, hhit, Json.bool.injEq] at hno
        cases hno
      · -- all dossiers of a run that stalled are in the token
        rw [hasDossier_finish hmatched, hmatched.mem_dossiers_iff, hvisited] at hv
        exact absurd ((mem_tokenEas hs.matched).mpr hv.1) hnew
    · exact hgo
  · intro hgo
    obtain ⟨out', hout, hnew, -⟩ := exists_resume hdeadline hroot hs hgo
    exact ⟨out', hout, .inr ⟨ea, hnew, fun h => hs.not_visited ((mem_tokenEas hs.matched).mp h)⟩⟩

/-- Repeated calls come to an end exactly when the next one gets on and nothing else is pending. -/
lemma comes_to_end_iff (hdeadline : budgets.deadline = none) (hdepth : budgets.depth < 2 ^ 32)
    (hroot : root ∈ idx.functions) (hs : w.Stopped idx budgets ea depth rest) :
    (∃ out', ReflTransGen (ResumesTo info idx root budgets)
        (finish idx root budgets w w.dossiers [] convergence) out' ∧
        out'.idx "budget_hit" = false) ↔
      GoesOn info root budgets (tokenOf root w w.dossiers) ea depth rest ∧
        NothingElse info idx budgets (tokenOf root w w.dossiers) ea rest := by
  constructor
  · rintro ⟨out', hruns, hno⟩
    rcases hruns.cases_head with rfl | ⟨out₁, ⟨-, hout⟩, hruns⟩
    · rw [budget_hit_finish, hs.hit, Json.bool.injEq] at hno
      cases hno
    · rw [resume_of_stopped hs] at hout
      obtain ⟨w', convergence', rfl, -, hends, hcases⟩ := resume_cases hdeadline hdepth hs hout
      -- a second stop would be for good, since address 0 has no dossier any more
      have hlast : 0 ∉ w'.visited → w'.budget_hit = false := by
        intro hzero
        rcases hends with hend | ⟨ea', depth', rest', hs'⟩
        · exact hend
        · have hstalled : Stalled idx root budgets
              (finish idx root budgets w' w'.dossiers [] convergence') :=
            ⟨w', convergence', ea', depth', rest', rfl, hs', hzero⟩
          have hhit := hstalled.hit hdeadline hdepth hruns
          rw [hhit, Json.bool.injEq] at hno
          cases hno
      rcases hcases with ⟨hhit, hvisited⟩ | ⟨hgo, hvisited, hend⟩
      · rw [hlast fun h => ((hvisited 0).mp h).2 rfl] at hhit
        cases hhit
      · refine ⟨hgo, hend.mp (hlast ?_)⟩
        intro hzero
        rcases (hvisited 0).mp hzero with heq | ⟨-, hne⟩
        · exact hs.not_visited (heq ▸ (mem_tokenEas hs.matched).mp hgo.dropped)
        · exact hne rfl
  · rintro ⟨hgo, hnothing⟩
    obtain ⟨out', hout, -, hend⟩ := exists_resume hdeadline hroot hs hgo
    refine ⟨out', .single ⟨congrArg Json.bool hs.hit, ?_⟩, hend hnothing⟩
    rw [resume_of_stopped hs]
    exact hout

end Runs

/-- When a run without a deadline has hit a budget, the next call with the same budgets collects a
new function or hits none if and only if a dossier at address 0 is dropped, which leaves room for
the entry on top, and that one is above the last level and the backend answers for it; and repeated
calls come to an end if and only if nothing else is pending then. -/
theorem deep_resume_progress_iff {info : InfoOf} {idx : AnalysisIndex} {root : U64}
    {budgets : DeepBudgets} (hdeadline : budgets.deadline = none) (hdepth : budgets.depth < 2 ^ 32)
    {resume : Option Json} {out : Json} (h : deepFunction info idx root budgets resume = .ok out)
    (hhit : out.idx "budget_hit" = true) :
    ((∃ out', deepFunction info idx root budgets (some (out.idx "resume")) = .ok out' ∧
        (out'.idx "budget_hit" = false ∨ ∃ v, HasDossier out' v ∧
          v ∉ tokenEas (out.idx "resume"))) ↔
      ∃ ea depth rest, GoesOn info root budgets (out.idx "resume") ea depth rest) ∧
    ((∃ out', ReflTransGen (ResumesTo info idx root budgets) out out' ∧
        out'.idx "budget_hit" = false) ↔
      ∃ ea depth rest, GoesOn info root budgets (out.idx "resume") ea depth rest ∧
        NothingElse info idx budgets (out.idx "resume") ea rest) := by
  obtain ⟨hroot, w, convergence, ea, depth, rest, rfl, hs⟩ := stopped_of_hit hdeadline hdepth h hhit
  rw [resume_of_stopped hs]
  have htop : ∀ {ea' depth' rest'},
      GoesOn info root budgets (tokenOf root w w.dossiers) ea' depth' rest' →
        ea' = ea ∧ depth' = depth ∧ rest' = rest := by
    intro ea' depth' rest' hgo
    have hpending := hgo.pending
    rw [resumePending_tokenOf hs.bounded, hs.frontier_eq, List.cons.injEq,
      Prod.mk.injEq] at hpending
    exact ⟨hpending.1.1.symm, hpending.1.2.symm, hpending.2.symm⟩
  constructor
  · rw [progress_iff hdeadline hdepth hroot hs]
    constructor
    · intro hgo
      exact ⟨ea, depth, rest, hgo⟩
    · rintro ⟨ea', depth', rest', hgo⟩
      obtain ⟨rfl, rfl, rfl⟩ := htop hgo
      exact hgo
  · rw [comes_to_end_iff hdeadline hdepth hroot hs]
    constructor
    · intro hgo
      exact ⟨ea, depth, rest, hgo⟩
    · rintro ⟨ea', depth', rest', hgo, hnothing⟩
      obtain ⟨rfl, rfl, rfl⟩ := htop hgo
      exact ⟨hgo, hnothing⟩

/-- A function at address 0 that calls one at 0x2000. -/
def zeroCalls (ea : U64) : List U64 := if ea = 0 then [0x2000] else []

/-- The index of the two functions. -/
def zeroIndex : AnalysisIndex where
  schema_version := INDEX_SCHEMA_VERSION
  binary_md5 := ""
  revision := 1
  functions := ((∅ : AddrMap FunctionFacts).insert 0 { name := "start" }).insert 0x2000
    { name := "leaf" }
  strings := []

/-- With room for one function the run from address 0 comes to an end when it is resumed. -/
theorem deep_resume_progress_iff_zero :
    ∃ out, deepFunction (infoOf zeroCalls) zeroIndex 0 (branchBudgets 3 1) none = .ok out ∧
      out.idx "budget_hit" = true ∧
      ∃ out', ReflTransGen (ResumesTo (infoOf zeroCalls) zeroIndex 0 (branchBudgets 3 1)) out out' ∧
        out'.idx "budget_hit" = false := by
  have hrun : (deepFunction (infoOf zeroCalls) zeroIndex 0 (branchBudgets 3 1) none >>= fun out =>
      (.ok (decide (out.idx "budget_hit" = true ∧
        resumePending 0 (out.idx "resume") = [(0x2000, 1)] ∧
        tokenEas (out.idx "resume") = [0])) : Result Bool)) = .ok true := by decide +kernel
  obtain ⟨out, hout, hrun⟩ := Outcome.bind_eq_ok.mp hrun
  obtain ⟨hhit, hpending, heas⟩ := of_decide_eq_true (Outcome.ok.inj hrun)
  have hgo : GoesOn (infoOf zeroCalls) 0 (branchBudgets 3 1) (out.idx "resume") 0x2000 1 [] :=
    ⟨hpending, by decide, by rw [heas]; exact List.mem_singleton.mpr rfl, by rw [heas]; decide,
      _, rfl⟩
  have hnothing : NothingElse (infoOf zeroCalls) zeroIndex (branchBudgets 3 1) (out.idx "resume")
      0x2000 [] := by
    have hcalls : zeroCalls 0x2000 = [] := by decide
    intro c hc
    rw [calls_infoOf, hcalls] at hc
    cases hc
  exact ⟨out, hout, hhit, (deep_resume_progress_iff rfl (by decide) hout hhit).2.mpr
    ⟨0x2000, 1, [], hgo, hnothing⟩⟩

/-- With room for `main` only, the resumed run stops in front of `leaf` again. -/
theorem deep_resume_progress_not : ∃ out out' : Json,
    deepFunction callerInfo callerIndex 0x1000 (callerBudgets 1) none = .ok out ∧
    out.idx "budget_hit" = true ∧
    deepFunction callerInfo callerIndex 0x1000 (callerBudgets 1)
      (some (out.idx "resume")) = .ok out' ∧
    out'.idx "budget_hit" = true ∧
    ∀ v, HasDossier out' v → v ∈ tokenEas (out.idx "resume") := by
  have hruns : (deepFunction callerInfo callerIndex 0x1000 (callerBudgets 1) none >>= fun out =>
      deepFunction callerInfo callerIndex 0x1000 (callerBudgets 1) (some (out.idx "resume")) >>=
        fun out' => (.ok (decide (out.idx "budget_hit" = true ∧ out'.idx "budget_hit" = true ∧
          (items out' "functions").map (·.idx "ea") = [.ea 0x1000] ∧
          tokenEas (out.idx "resume") = [0x1000])) : Result Bool)) = .ok true := by decide +kernel
  obtain ⟨out, hout, hruns⟩ := Outcome.bind_eq_ok.mp hruns
  obtain ⟨out', hout', hruns⟩ := Outcome.bind_eq_ok.mp hruns
  obtain ⟨hhit, hhit', hfunctions, heas⟩ := of_decide_eq_true (Outcome.ok.inj hruns)
  refine ⟨out, out', hout, hhit, hout', hhit', ?_⟩
  rintro v ⟨row, hrow, hv⟩
  have hmem : Json.ea v ∈ (items out' "functions").map (·.idx "ea") := by
    rw [← hv]
    exact List.mem_map_of_mem hrow
  rw [hfunctions, List.mem_singleton, Json.ea, Json.ea, Json.string.injEq] at hmem
  rw [heas, hex_inj hmem]
  exact List.mem_singleton.mpr rfl

end Deep

end ReverseMcp
