import ReverseMcp.Rust.Collections
import ReverseMcp.Rust.Reading
import ReverseMcp.Worker.Deep

/-!
# Resuming a deep analysis

`deep::deep_function` over any backend: all it takes from the backend is what
`deep_function_info` reports of a function (`deepFunction`; `deep_function_eq` is the mock backend's
instance).  The token that a stopped run hands back holds its report rows as dossiers, but the rows
have the direct calls under `direct_calls`, and the resuming run looks for them under `callees`.  So
a restored dossier has no direct calls (`resumeDossier_row`), while the root of a run that stopped
had some, or nothing would have been pending (`stopped_root`).
-/

namespace ReverseMcp

open Rust

namespace Deep

/-- What a backend reports of a function. -/
abbrev InfoOf : Type := U64 → ℕ → Result Json

section AnyBackend

variable (info : InfoOf)

/-- `walk` over any backend. -/
def walkOn (idx : AnalysisIndex) (budgets : DeepBudgets) : ℕ → Walk → Result Walk
  | n, w =>
    match w.frontier.dropWhile (w.skips idx) with
    | [] => .ok { w with frontier := [] }
    | (ea, depth) :: rest =>
      if budgets.max_functions < (w.visited.insert ea).size ∨ budgets.depth ≤ depth ∨
          budgets.time_left w.readings = false then
        .ok { w with frontier := (ea, depth) :: rest, budget_hit := true }
      else
        match n with
        | 0 => .panic .loop
        | n + 1 =>
          match info ea budgets.max_calls with
          | .ok i => walkOn idx budgets n (w.collect idx ea depth rest i)
          | .err e => .err e
          | .panic p => .panic p

/-- `recheck` over any backend. -/
def recheckOn (budgets : DeepBudgets) (iteration : ℕ) (p : Propagation) (ea : U64) :
    Result Propagation :=
  match p.dossiers[ea]? with
  | none => .ok p
  | some d =>
    if d.callees.any fun c => p.changed_now.contains c.2 then do
      match ← (info ea budgets.max_calls).ok? with
      | none => return p
      | some i =>
        let proto_now := render_prototype i
        if proto_now = d.prototype then return p
        else return {
          dossiers := p.dossiers.insert ea { d with prototype := proto_now }
          changes := p.changes ++ [⟨ea, d.name, iteration, d.prototype, proto_now⟩]
          changed_now := p.changed_now.insert ea }
    else .ok p

/-- `propagate` over any backend. -/
def propagateOn (budgets : DeepBudgets) (callers : AddrMap (List U64)) :
    ℕ → ℕ → AddrSet → AddrMap FunctionDossier → List TypeChange → List Json →
      Result (AddrMap FunctionDossier × List TypeChange × List Json × Bool)
  | 0, _, _, dossiers, changes, trace => .ok (dossiers, changes, trace, false)
  | n + 1, iteration, dirty, dossiers, changes, trace => do
    let p ← Outcome.foldList (recheckOn info budgets iteration) ⟨dossiers, changes, ∅⟩ dirty.toList
    let trace := trace ++ [.object [("iteration", .nat iteration),
      ("type_changes", .nat p.changed_now.size)]]
    if p.changed_now.isEmpty then return (p.dossiers, p.changes, trace, true)
    let next : AddrSet := p.changed_now.toList.foldl
      (fun s ea => (callers[ea]?.getD []).foldl (·.insert ·) s) ∅
    if next.isEmpty then return (p.dossiers, p.changes, trace, true)
    propagateOn budgets callers n (iteration + 1) next p.dossiers p.changes trace

/-- `deep::deep_function` over any backend. -/
def deepFunction (idx : AnalysisIndex) (root : U64) (budgets : DeepBudgets)
    (resume : Option Json) : Result Json := do
  failIf (root ∉ idx.functions) s!"no function at {hex root}"
  let w ← start root resume
  let w ← walkOn info idx budgets budgets.max_functions w
  let (dossiers, changes, trace, converged) ← propagateOn info budgets (callersOf w.dossiers)
    budgets.max_iterations 1 w.visited w.dossiers [] []
  return finish idx root budgets w dossiers changes (.object [("converged", converged),
    ("iterations", .nat trace.length), ("trace", .array trace),
    ("note", if converged then .null else "budget exhausted before convergence")])

end AnyBackend

section Mock

variable [Host] (b : MockBackend)

lemma walk_eq (idx : AnalysisIndex) (budgets : DeepBudgets) (n : ℕ) :
    ∀ w, walk b idx budgets n w = walkOn b.deep_function_info idx budgets n w := by
  induction n with
  | zero =>
    intro w
    unfold walk walkOn
    rfl
  | succ n ih =>
    intro w
    rw [walk, walkOn]
    cases w.frontier.dropWhile (w.skips idx) with
    | nil => rfl
    | cons entry rest =>
      obtain ⟨ea, depth⟩ := entry
      dsimp only
      split
      · rfl
      · cases b.deep_function_info ea budgets.max_calls with
        | ok info => exact ih _
        | err e => rfl
        | panic p => rfl

lemma propagate_eq (budgets : DeepBudgets) (callers : AddrMap (List U64)) (n : ℕ) :
    propagate b budgets callers n = propagateOn b.deep_function_info budgets callers n := by
  have hrecheck : recheck b budgets = recheckOn b.deep_function_info budgets := rfl
  induction n with
  | zero => rfl
  | succ n ih =>
    funext iteration dirty dossiers changes trace
    rw [propagate, propagateOn]
    rw [hrecheck, ih]

/-- The mock backend is one of them. -/
lemma deep_function_eq (idx : AnalysisIndex) (root : U64) (budgets : DeepBudgets)
    (resume : Option Json) : deep_function b idx root budgets resume =
      deepFunction b.deep_function_info idx root budgets resume := by
  rw [deep_function, deepFunction]
  simp only [walk_eq, propagate_eq]

end Mock

/-! ## The propagation changes nothing -/

section Propagation

variable {info : InfoOf} {budgets : DeepBudgets}

/-- Nothing is rechecked before something has changed. -/
lemma recheckOn_empty (iteration : ℕ) (dossiers : AddrMap FunctionDossier)
    (changes : List TypeChange) (ea : U64) :
    recheckOn info budgets iteration ⟨dossiers, changes, ∅⟩ ea = .ok ⟨dossiers, changes, ∅⟩ := by
  rw [recheckOn]
  cases dossiers[ea]? with
  | none => rfl
  | some d => simp

lemma foldList_recheckOn (iteration : ℕ) (dossiers : AddrMap FunctionDossier)
    (changes : List TypeChange) (eas : List U64) :
    Outcome.foldList (recheckOn info budgets iteration) ⟨dossiers, changes, ∅⟩ eas =
      .ok ⟨dossiers, changes, ∅⟩ := by
  induction eas with
  | nil => rfl
  | cons ea eas ih => rw [Outcome.foldList, recheckOn_empty, Outcome.ok_bind, ih]

lemma propagateOn_spec (callers : AddrMap (List U64)) (n iteration : ℕ) (dirty : AddrSet)
    (dossiers : AddrMap FunctionDossier) (changes : List TypeChange) (trace : List Json) :
    ∃ trace' converged, propagateOn info budgets callers n iteration dirty dossiers changes trace =
      .ok (dossiers, changes, trace', converged) := by
  cases n with
  | zero => exact ⟨trace, false, rfl⟩
  | succ n =>
    rw [propagateOn]
    rw [foldList_recheckOn, Outcome.ok_bind]
    exact ⟨trace ++ [.object [("iteration", .nat iteration), ("type_changes", .nat 0)]], true,
      by simp⟩

/-- A run is its walk and the report of it. -/
lemma deepFunction_eq_ok {idx : AnalysisIndex} {root : U64} {resume : Option Json} {out : Json}
    (h : deepFunction info idx root budgets resume = .ok out) :
    root ∈ idx.functions ∧ ∃ w₀ w convergence, start root resume = .ok w₀ ∧
      walkOn info idx budgets budgets.max_functions w₀ = .ok w ∧
      out = finish idx root budgets w w.dossiers [] convergence := by
  obtain ⟨_, hroot, h⟩ := Outcome.bind_eq_ok.mp h
  obtain ⟨w₀, hw₀, h⟩ := Outcome.bind_eq_ok.mp h
  obtain ⟨w, hw, h⟩ := Outcome.bind_eq_ok.mp h
  obtain ⟨⟨dossiers, changes, trace, converged⟩, hprop, h⟩ := Outcome.bind_eq_ok.mp h
  obtain ⟨trace', converged', heq⟩ : ∃ trace' converged', propagateOn info budgets
      (callersOf w.dossiers) budgets.max_iterations 1 w.visited w.dossiers [] [] =
        .ok (w.dossiers, [], trace', converged') := propagateOn_spec _ _ _ _ _ _ _
  rw [heq] at hprop
  cases hprop
  cases h
  exact ⟨by simpa using failIf_eq_ok.mp hroot, w₀, w, _, hw₀, hw, rfl⟩

end Propagation

/-! ## The walk -/

section Walk

variable {info : InfoOf} {idx : AnalysisIndex} {budgets : DeepBudgets}

/-- The entry that the walk looks at is of a function of the index that was not reached before. -/
lemma not_skipped {w : Walk} {ea : U64} {depth : ℕ} {rest : List (U64 × ℕ)}
    (h : w.frontier.dropWhile (w.skips idx) = (ea, depth) :: rest) :
    ea ∉ w.dossiers ∧ ea ∈ idx.functions ∧ ea ∉ w.visited := by
  have hhead := List.head?_dropWhile_not (w.skips idx) w.frontier
  rw [h] at hhead
  simp only [List.head?_cons, Walk.skips, Bool.or_eq_false_iff, Bool.not_eq_false'] at hhead
  obtain ⟨⟨hdossier, hindexed⟩, hvisited⟩ := hhead
  exact ⟨Bool.eq_false_iff.mp hdossier, Std.ExtTreeMap.contains_iff_mem.mp hindexed,
    Bool.eq_false_iff.mp hvisited⟩

/-- What a round of the walk that returns has done. -/
lemma walkOn_cases {n : ℕ} {w w' : Walk} (h : walkOn info idx budgets n w = .ok w') :
    (w.frontier.dropWhile (w.skips idx) = [] ∧ w' = { w with frontier := [] }) ∨
    (∃ frontier, w' = { w with frontier, budget_hit := true }) ∨
    ∃ m ea depth rest i, n = m + 1 ∧
      w.frontier.dropWhile (w.skips idx) = (ea, depth) :: rest ∧
      info ea budgets.max_calls = .ok i ∧
      walkOn info idx budgets m (w.collect idx ea depth rest i) = .ok w' := by
  unfold walkOn at h
  split at h
  · rename_i hnil
    cases h
    exact .inl ⟨hnil, rfl⟩
  · rename_i ea depth rest hcons
    split at h
    · cases h
      exact .inr (.inl ⟨_, rfl⟩)
    · cases n with
      | zero => cases h
      | succ m =>
        dsimp only at h
        split at h
        · rename_i i hi
          exact .inr (.inr ⟨m, ea, depth, rest, i, rfl, hcons, hi, h⟩)
        · cases h
        · cases h

/-- Collected dossiers stay, each under its own address. -/
structure Keeps (w w' : Walk) : Prop where
  dossier : ∀ (k : U64) (d : FunctionDossier), w.dossiers[k]? = some d → w'.dossiers[k]? = some d
  own : (∀ (k : U64) (d : FunctionDossier), w.dossiers[k]? = some d → d.ea = k) →
    ∀ (k : U64) (d : FunctionDossier), w'.dossiers[k]? = some d → d.ea = k

lemma collect_dossier (w : Walk) (ea : U64) (depth : ℕ) (rest : List (U64 × ℕ)) (i : Json)
    (k : U64) : (w.collect idx ea depth rest i).dossiers[k]? = if k = ea then
      some ⟨ea, idx.function_name ea, render_prototype i, (extract_call_sites i).direct,
        (extract_call_sites i).indirect⟩ else w.dossiers[k]? :=
  getElem?_insert_eq_ite w.dossiers ea k _

lemma walkOn_keeps (n : ℕ) : ∀ {w w' : Walk}, walkOn info idx budgets n w = .ok w' →
    Keeps w w' := by
  induction n with
  | zero =>
    intro w w' h
    rcases walkOn_cases h with ⟨-, rfl⟩ | ⟨frontier, rfl⟩ | ⟨m, ea, depth, rest, i, hm, -⟩
    · exact ⟨fun _ _ hk => hk, fun hown => hown⟩
    · exact ⟨fun _ _ hk => hk, fun hown => hown⟩
    · cases hm
  | succ n ih =>
    intro w w' h
    rcases walkOn_cases h with ⟨-, rfl⟩ | ⟨frontier, rfl⟩ | ⟨m, ea, depth, rest, i, hm, hcons, -, h⟩
    · exact ⟨fun _ _ hk => hk, fun hown => hown⟩
    · exact ⟨fun _ _ hk => hk, fun hown => hown⟩
    · obtain rfl : n = m := Nat.succ.inj hm
      have hkeeps := ih h
      -- the entry was not skipped, so it had no dossier
      have hnew : w.dossiers[ea]? = none := Std.ExtTreeMap.getElem?_eq_none (not_skipped hcons).1
      refine ⟨fun k d hk => hkeeps.dossier k d ?_, fun hown => hkeeps.own fun k d hk => ?_⟩
      · rw [collect_dossier, if_neg]
        · exact hk
        · rintro rfl
          rw [hnew] at hk
          cases hk
      · rw [collect_dossier] at hk
        split at hk
        · rename_i hea
          cases hk
          exact hea.symm
        · exact hown k d hk

/-- Where a fresh run starts. -/
def fresh (root : U64) : Walk := ⟨∅, ∅, [(root, 0)], false, 0⟩

lemma fresh_first {root : U64} (hroot : root ∈ idx.functions) :
    (fresh root).frontier.dropWhile ((fresh root).skips idx) = [(root, 0)] := by
  simp [fresh, Walk.skips, hroot]

lemma fresh_size (root : U64) : ((fresh root).visited.insert root).size = 1 := by
  rw [Std.ExtTreeSet.size_insert]
  simp [fresh]

/-- A fresh run with no room for its root stops there. -/
lemma walkOn_fresh_stop {root : U64} (hroot : root ∈ idx.functions) (n : ℕ)
    (hstop : budgets.max_functions = 0 ∨ budgets.depth = 0) :
    walkOn info idx budgets n (fresh root) = .ok { fresh root with budget_hit := true } := by
  have hfull : budgets.max_functions < ((fresh root).visited.insert root).size ∨
      budgets.depth ≤ 0 ∨ budgets.time_left (fresh root).readings = false := by
    rcases hstop with hstop | hstop
    · refine .inl ?_
      rw [fresh_size, hstop]
      exact Nat.zero_lt_one
    · exact .inr (.inl (by omega))
  rw [walkOn]
  rw [fresh_first hroot]
  simp only [if_pos hfull]
  rfl

/-- A fresh run with room for its root collects it first. -/
lemma walkOn_fresh {root : U64} (hroot : root ∈ idx.functions) {w : Walk}
    (hm : 0 < budgets.max_functions) (hd : 0 < budgets.depth) (hdeadline : budgets.deadline = none)
    (h : walkOn info idx budgets budgets.max_functions (fresh root) = .ok w) :
    ∃ n i, info root budgets.max_calls = .ok i ∧
      walkOn info idx budgets n ((fresh root).collect idx root 0 [] i) = .ok w := by
  have hroom : ¬ (budgets.max_functions < ((fresh root).visited.insert root).size ∨
      budgets.depth ≤ 0 ∨ budgets.time_left (fresh root).readings = false) := by
    have htime : budgets.time_left (fresh root).readings = true := by
      simp [DeepBudgets.time_left, hdeadline]
    rw [fresh_size, htime]
    simp only [Bool.true_eq_false, or_false]
    omega
  obtain ⟨n, hn⟩ : ∃ n, budgets.max_functions = n + 1 := ⟨budgets.max_functions - 1, by omega⟩
  unfold walkOn at h
  rw [fresh_first hroot] at h
  simp only [if_neg hroom] at h
  rw [hn] at h
  dsimp only at h
  split at h
  · rename_i i hi
    exact ⟨n, i, hi, h⟩
  · cases h
  · cases h

/-- A run that stops after its root has left something pending: the root has a direct call. -/
lemma stopped_root {root : U64} {n : ℕ} {i : Json} {w : Walk}
    (h : walkOn info idx budgets n ((fresh root).collect idx root 0 [] i) = .ok w)
    (hhit : w.budget_hit = true) : (extract_call_sites i).direct ≠ [] := by
  intro hnil
  have hfrontier : ((fresh root).collect idx root 0 [] i).frontier = [] := by
    simp [Walk.collect, hnil]
  unfold walkOn at h
  rw [hfrontier] at h
  cases h
  simp [Walk.collect, fresh] at hhit

end Walk

/-! ## The token -/

section Token

variable {idx : AnalysisIndex} {root : U64} {budgets : DeepBudgets} {w : Walk}
  {dossiers : AddrMap FunctionDossier} {changes : List TypeChange} {convergence : Json}

/-- The resume token of a walk that has hit its budget. -/
def tokenOf (root : U64) (w : Walk) (dossiers : AddrMap FunctionDossier) : Json :=
  .object [("root", .ea root),
    ("pending", .array (w.frontier.reverse.map fun p =>
      .object [("ea", .ea p.1), ("depth", .nat p.2)])),
    ("dossiers", .array ((dossiers.toList.map Prod.snd).map dossierRow))]

lemma finish_functions : (finish idx root budgets w dossiers changes convergence).idx "functions" =
    .array ((dossiers.toList.map Prod.snd).map dossierRow) := rfl

lemma finish_resume : (finish idx root budgets w dossiers changes convergence).idx "resume" =
    if w.budget_hit then tokenOf root w dossiers else .null := rfl

/-- A row of the report has no field `callees`, so the dossier read from it has no direct calls. -/
lemma resumeDossier_row (d : FunctionDossier) (hd : d.ea ≠ 0) :
    ∃ d', resumeDossier (dossierRow d) = some d' ∧ d'.ea = d.ea ∧ d'.callees = [] := by
  have hea : parseHexOrZero (textOf (dossierRow d) "ea") = d.ea := parseHexOrZero_hex d.ea
  have hnone : items (dossierRow d) "callees" = [] := rfl
  unfold resumeDossier
  rw [hea, hnone]
  dsimp only
  rw [if_neg hd]
  exact ⟨_, rfl, rfl, rfl⟩

lemma resumeDossier_callees {d : FunctionDossier} {d' : FunctionDossier}
    (h : resumeDossier (dossierRow d) = some d') : d'.callees = [] := by
  have hnone : items (dossierRow d) "callees" = [] := rfl
  unfold resumeDossier at h
  rw [hnone] at h
  dsimp only at h
  split at h
  · cases h
  · cases h
    rfl

/-- A dossier at an address other than 0 is restored without its direct calls. -/
lemma start_token {k : U64} {d : FunctionDossier} (hk : k ≠ 0) (hd : dossiers[k]? = some d)
    (hea : d.ea = k) : ∃ w₀, start root (some (tokenOf root w dossiers)) = .ok w₀ ∧
      (∃ d', w₀.dossiers[k]? = some d' ∧ d'.callees = [] ∧ d'.ea = k) := by
  refine ⟨_, rfl, ?_⟩
  have hmem : d ∈ dossiers.toList.map Prod.snd :=
    List.mem_map.mpr ⟨(k, d), Std.ExtTreeMap.mem_toList_iff_getElem?_eq_some.mpr hd, rfl⟩
  obtain ⟨e, he, hke, -⟩ := resumeDossier_row d (by rw [hea]; exact hk)
  have hlist : ∃ a ∈ ((dossiers.toList.map Prod.snd).map dossierRow).filterMap resumeDossier,
      a.ea = k := by
    refine ⟨e, List.mem_filterMap.mpr ⟨dossierRow d, List.mem_map.mpr ⟨d, hmem, rfl⟩, he⟩, ?_⟩
    rw [hke, hea]
  obtain ⟨d', hd', hkey, hget⟩ := exists_getElem?_foldl_insert ∅ hlist
  refine ⟨d', hget, ?_, hkey⟩
  obtain ⟨row, hrow, hres⟩ := List.mem_filterMap.mp hd'
  obtain ⟨c, -, rfl⟩ := List.mem_map.mp hrow
  exact resumeDossier_callees hres

/-- The token of a run that stopped at its root is where a fresh run starts. -/
lemma start_fresh_token :
    start root (some (tokenOf root { fresh root with budget_hit := true } ∅)) =
      .ok (fresh root) := by
  have hpending : resumePending root (tokenOf root { fresh root with budget_hit := true } ∅) =
      [(root, 0)] := by
    have hroot : parseHexOrZero (hex root) = root := parseHexOrZero_hex root
    simp [resumePending, tokenOf, fresh, Json.idx, Json.get, Json.asArray, Json.asStr, Json.asU64,
      Json.ea, Json.nat, Json.u64, hroot, asU64]
  have hnone : ((tokenOf root { fresh root with budget_hit := true } ∅).idx "dossiers").asArray =
      some [] := by
    simp [tokenOf, Json.idx, Json.get, Json.asArray]
  simp only [start, hnone, hpending]
  rfl

end Token

/-! ## Stopping and resuming -/

/-- The run that resumes from the report `out₁` agrees with the uninterrupted run `out₂` on the
functions and on the skipped ones. -/
def Resumes (info : InfoOf) (idx : AnalysisIndex) (root : U64) (budgets : DeepBudgets)
    (out₁ out₂ : Json) : Prop :=
  ∃ out, deepFunction info idx root budgets (some (out₁.idx "resume")) = .ok out ∧
    out.idx "functions" = out₂.idx "functions" ∧ out.idx "skipped" = out₂.idx "skipped"

section Runs

variable {info : InfoOf} {idx : AnalysisIndex} {root : U64} {b₁ : DeepBudgets} {m : ℕ}
  {out₁ out₂ : Json}

/-- A run that returned a token. -/
lemma stopped_walk (h₁ : deepFunction info idx root b₁ none = .ok out₁)
    (htoken : out₁.idx "resume" ≠ .null) : root ∈ idx.functions ∧
      ∃ w, walkOn info idx b₁ b₁.max_functions (fresh root) = .ok w ∧ w.budget_hit = true ∧
        out₁.idx "resume" = tokenOf root w w.dossiers := by
  obtain ⟨hroot, w₀, w, convergence, hw₀, hw, rfl⟩ := deepFunction_eq_ok h₁
  cases hw₀
  rw [finish_resume] at htoken ⊢
  cases hhit : w.budget_hit with
  | false =>
    rw [hhit] at htoken
    exact absurd rfl htoken
  | true => exact ⟨hroot, w, hw, hhit, rfl⟩

/-- A run that stopped at its root resumes where it started. -/
lemma resumes_of_stop (h₁ : deepFunction info idx root b₁ none = .ok out₁)
    (htoken : out₁.idx "resume" ≠ .null)
    (h₂ : deepFunction info idx root { b₁ with max_functions := m } none = .ok out₂)
    (hstop : b₁.max_functions = 0 ∨ b₁.depth = 0) :
    Resumes info idx root { b₁ with max_functions := m } out₁ out₂ := by
  obtain ⟨hroot, w, hw, -, hresume⟩ := stopped_walk h₁ htoken
  rw [walkOn_fresh_stop hroot _ hstop] at hw
  cases hw
  have hstart : start root (some (out₁.idx "resume")) = start root none := by
    rw [hresume]
    exact start_fresh_token
  refine ⟨out₂, ?_, rfl, rfl⟩
  rw [← h₂]
  unfold deepFunction
  rw [hstart]

/-- A resumed run has lost the direct calls of its root. -/
lemma stop_of_resumes (hm : b₁.max_functions < m) (hdeadline : b₁.deadline = none)
    (h₁ : deepFunction info idx root b₁ none = .ok out₁) (htoken : out₁.idx "resume" ≠ .null)
    (h₂ : deepFunction info idx root { b₁ with max_functions := m } none = .ok out₂)
    (hzero : root ≠ 0) (h : Resumes info idx root { b₁ with max_functions := m } out₁ out₂) :
    b₁.max_functions = 0 ∨ b₁.depth = 0 := by
  by_contra hroom
  rw [not_or] at hroom
  obtain ⟨hroot, w₁, hw₁, hhit, hresume⟩ := stopped_walk h₁ htoken
  obtain ⟨n₁, i, hi, hrest₁⟩ := walkOn_fresh hroot (by omega) (by omega) hdeadline hw₁
  have hcalls := stopped_root hrest₁ hhit
  -- the root's dossier as both runs collect it
  have hcollected : ((fresh root).collect idx root 0 [] i).dossiers[root]? =
      some ⟨root, idx.function_name root, render_prototype i, (extract_call_sites i).direct,
        (extract_call_sites i).indirect⟩ := by
    rw [collect_dossier, if_pos rfl]
  have hfirst : ∀ (k : U64) (d : FunctionDossier), (fresh root).dossiers[k]? = some d →
      d.ea = k := by
    intro k d hk
    simp [fresh] at hk
  obtain ⟨-, w₀, w₂, convergence₂, hw₀, hw₂, rfl⟩ := deepFunction_eq_ok h₂
  cases hw₀
  have hdeadline₂ : DeepBudgets.deadline { b₁ with max_functions := m } = none := hdeadline
  obtain ⟨n₂, i', hi', hrest₂⟩ := walkOn_fresh hroot
    (by show 0 < m; omega) (by show 0 < b₁.depth; omega) hdeadline₂ hw₂
  obtain rfl : i = i' := Outcome.ok.inj (hi.symm.trans hi')
  have hd₁ := (walkOn_keeps n₁ hrest₁).dossier _ _ hcollected
  have hd₂ := (walkOn_keeps n₂ hrest₂).dossier _ _ hcollected
  have hown₂ := (walkOn_keeps _ hw₂).own hfirst
  -- the root's dossier in the resumed run has no direct calls
  obtain ⟨out, hout, hfunctions, -⟩ := h
  rw [hresume] at hout
  obtain ⟨-, w₀', w, convergence, hw₀', hw, rfl⟩ := deepFunction_eq_ok hout
  obtain ⟨w₀'', hstart, d', hd', hcallees, hea⟩ := start_token (w := w₁) hzero hd₁ rfl
  obtain rfl : w₀'' = w₀' := Outcome.ok.inj (hstart.symm.trans hw₀')
  have hd := (walkOn_keeps _ hw).dossier root d' hd'
  rw [finish_functions, finish_functions, Json.array.injEq] at hfunctions
  have hrow : dossierRow d' ∈ (w₂.dossiers.toList.map Prod.snd).map dossierRow := by
    rw [← hfunctions]
    exact List.mem_map.mpr ⟨d', List.mem_map.mpr ⟨(root, d'),
      Std.ExtTreeMap.mem_toList_iff_getElem?_eq_some.mpr hd, rfl⟩, rfl⟩
  obtain ⟨e, he, heq⟩ := List.mem_map.mp hrow
  obtain ⟨⟨k, e'⟩, hke, rfl⟩ := List.mem_map.mp he
  have hget := Std.ExtTreeMap.mem_toList_iff_getElem?_eq_some.mp hke
  simp only [dossierRow, Json.object.injEq, List.cons.injEq, Prod.mk.injEq, true_and, and_true,
    Json.ea, Json.string.injEq, Json.array.injEq, hcallees, List.map_nil, List.map_eq_nil_iff]
    at heq
  obtain ⟨hhex, -, -, hnone, -⟩ := heq
  have hk : k = root := by
    rw [← hown₂ k e' hget, hex_inj hhex, hea]
  rw [hk, hd₂] at hget
  cases hget
  exact hcalls hnone

/-- For any backend that reports the same of a function whenever it is asked, and budgets that
differ in the number of functions only: when a run stops and the uninterrupted run with the larger
budget returns, the resumed run reports the same functions and the same skipped ones if the first
run had no room for a single function, and otherwise it never does (for a root other than
address 0). -/
theorem deep_resume_iff (info : InfoOf) (idx : AnalysisIndex) (root : U64) (b₁ : DeepBudgets)
    (m : ℕ) (out₁ out₂ : Json) (hm : b₁.max_functions < m) (hdeadline : b₁.deadline = none)
    (h₁ : deepFunction info idx root b₁ none = .ok out₁) (htoken : out₁.idx "resume" ≠ .null)
    (h₂ : deepFunction info idx root { b₁ with max_functions := m } none = .ok out₂) :
    ((b₁.max_functions = 0 ∨ b₁.depth = 0) →
      Resumes info idx root { b₁ with max_functions := m } out₁ out₂) ∧
    (root ≠ 0 → (Resumes info idx root { b₁ with max_functions := m } out₁ out₂ ↔
      b₁.max_functions = 0 ∨ b₁.depth = 0)) := by
  have hstop := resumes_of_stop h₁ htoken h₂
  refine ⟨hstop, fun hzero => ⟨?_, hstop⟩⟩
  exact stop_of_resumes hm hdeadline h₁ htoken h₂ hzero

end Runs

/-- `main` at 0x1000 calls `leaf` at 0x2000, which calls nothing. -/
def callerIndex : AnalysisIndex where
  schema_version := INDEX_SCHEMA_VERSION
  binary_md5 := ""
  revision := 1
  functions := ((∅ : AddrMap FunctionFacts).insert 0x1000 { name := "main" }).insert 0x2000
    { name := "leaf" }
  strings := []

/-- What a backend reports of the two functions. -/
def callerInfo : InfoOf := fun ea _ =>
  .ok (.object [("prototype", .object [("known", true), ("ret_type", "int"),
      ("arg_types", .array [])]),
    ("calls", .array (if ea = 0x1000 then
      [.object [("call_ea", .ea 0x1004), ("target_ea", .ea 0x2000), ("target_name", "leaf"),
        ("direct", true), ("args", .array [])]] else []))])

/-- Room for `n` functions. -/
def callerBudgets (n : ℕ) : DeepBudgets := ⟨3, n, 5, 24, none⟩

/-- A run with room for `main` only stops with a token, and the uninterrupted run returns. -/
lemma caller_stops : ∃ out₁ out₂ : Json,
    deepFunction callerInfo callerIndex 0x1000 (callerBudgets 1) none = .ok out₁ ∧
    deepFunction callerInfo callerIndex 0x1000 (callerBudgets 2) none = .ok out₂ ∧
    out₁.idx "resume" ≠ .null := by
  have hruns : (deepFunction callerInfo callerIndex 0x1000 (callerBudgets 1) none >>= fun out₁ =>
      deepFunction callerInfo callerIndex 0x1000 (callerBudgets 2) none >>= fun _ =>
        (.ok (decide (out₁.idx "resume" ≠ .null)) : Result Bool)) = .ok true := by decide +kernel
  obtain ⟨out₁, h₁, hruns⟩ := Outcome.bind_eq_ok.mp hruns
  obtain ⟨out₂, h₂, hruns⟩ := Outcome.bind_eq_ok.mp hruns
  exact ⟨out₁, out₂, h₁, h₂, of_decide_eq_true (Outcome.ok.inj hruns)⟩

/-- With room for `main` only, resuming does not give what the uninterrupted run gives. -/
theorem deep_resume_iff_caller : ∃ out₁ out₂ : Json,
    deepFunction callerInfo callerIndex 0x1000 (callerBudgets 1) none = .ok out₁ ∧
    deepFunction callerInfo callerIndex 0x1000 (callerBudgets 2) none = .ok out₂ ∧
    out₁.idx "resume" ≠ .null ∧
    ¬ Resumes callerInfo callerIndex 0x1000 (callerBudgets 2) out₁ out₂ := by
  obtain ⟨out₁, out₂, h₁, h₂, htoken⟩ := caller_stops
  have hiff := (deep_resume_iff callerInfo callerIndex 0x1000 (callerBudgets 1) 2 out₁ out₂
    (by decide) rfl h₁ htoken h₂).2 (by decide)
  refine ⟨out₁, out₂, h₁, h₂, htoken, fun h => ?_⟩
  have hroom : ¬ ((callerBudgets 1).max_functions = 0 ∨ (callerBudgets 1).depth = 0) := by decide
  exact hroom (hiff.mp h)

/-- The resumed run reports `main` without its call of `leaf`. -/
theorem deep_resume_not : ∃ out₁ out₂ out : Json,
    deepFunction callerInfo callerIndex 0x1000 (callerBudgets 1) none = .ok out₁ ∧
    deepFunction callerInfo callerIndex 0x1000 (callerBudgets 2) none = .ok out₂ ∧
    out₁.idx "resume" ≠ .null ∧
    deepFunction callerInfo callerIndex 0x1000 (callerBudgets 2) (some (out₁.idx "resume")) =
      .ok out ∧
    out₂.idx "functions" = .array
      [dossierRow ⟨0x1000, "main", "int()", [(0x1004, 0x2000)], []⟩,
        dossierRow ⟨0x2000, "leaf", "int()", [], []⟩] ∧
    out.idx "functions" = .array
      [dossierRow ⟨0x1000, "main", "int()", [], []⟩,
        dossierRow ⟨0x2000, "leaf", "int()", [], []⟩] ∧
    out.idx "functions" ≠ out₂.idx "functions" := by
  have hruns : (deepFunction callerInfo callerIndex 0x1000 (callerBudgets 1) none >>= fun out₁ =>
      deepFunction callerInfo callerIndex 0x1000 (callerBudgets 2) none >>= fun out₂ =>
      deepFunction callerInfo callerIndex 0x1000 (callerBudgets 2) (some (out₁.idx "resume")) >>=
        fun out => (.ok (decide (out₁.idx "resume" ≠ .null ∧
          out₂.idx "functions" = .array
            [dossierRow ⟨0x1000, "main", "int()", [(0x1004, 0x2000)], []⟩,
              dossierRow ⟨0x2000, "leaf", "int()", [], []⟩] ∧
          out.idx "functions" = .array
            [dossierRow ⟨0x1000, "main", "int()", [], []⟩,
              dossierRow ⟨0x2000, "leaf", "int()", [], []⟩] ∧
          out.idx "functions" ≠ out₂.idx "functions")) : Result Bool)) = .ok true := by
    decide +kernel
  obtain ⟨out₁, h₁, hruns⟩ := Outcome.bind_eq_ok.mp hruns
  obtain ⟨out₂, h₂, hruns⟩ := Outcome.bind_eq_ok.mp hruns
  obtain ⟨out, h, hruns⟩ := Outcome.bind_eq_ok.mp hruns
  obtain ⟨htoken, hrest⟩ := of_decide_eq_true (Outcome.ok.inj hruns)
  exact ⟨out₁, out₂, out, h₁, h₂, htoken, h, hrest⟩

end Deep

end ReverseMcp
