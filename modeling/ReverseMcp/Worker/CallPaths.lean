import Mathlib.Data.List.Chain
import ReverseMcp.Core.Queries
import ReverseMcp.Worker.Workflow

/-!
# Call paths

`workflow::trace_call_path` is an exact search for a shortest call path.  Its parents map is a tree
of shortest paths at every moment (`Tree`), also when the search stops in the middle of a level, so
the reconstruction loop finds a parent for everything it meets and ends at the source.
-/

namespace ReverseMcp

open Rust ReverseMcp.Graph

namespace Workflow

variable {idx : AnalysisIndex} {source goal : U64}

/-! ## The tree of parents -/

/-- Every key but the source has a parent that is one call edge nearer to the source. -/
structure Tree (idx : AnalysisIndex) (source : U64) (parents : AddrMap U64) : Prop where
  source_mem : source ∈ parents
  parent : ∀ c p, parents[c]? = some p → c ≠ source → p ∈ parents ∧ ∃ n,
    AtDistance idx.callees [source] n p ∧ AtDistance idx.callees [source] (n + 1) c ∧
      c ∈ idx.callees p

lemma tree_start : Tree idx source ((∅ : AddrMap U64).insert source source) where
  source_mem := by simp
  parent c p hp hc := by
    rw [getElem?_insert_eq_ite, if_neg hc] at hp
    simp at hp

/-- A new callee of the outermost layer becomes a leaf. -/
lemma Tree.insert {parents : AddrMap U64} (h : Tree idx source parents) {n : ℕ} {cur c : U64}
    (hcur : AtDistance idx.callees [source] n cur) (hmem : cur ∈ parents)
    (hseen : ∀ v, Within idx.callees [source] n v → v ∈ parents) (hc : c ∈ idx.callees cur)
    (hnew : c ∉ parents) : Tree idx source (parents.insert c cur) where
  source_mem := mem_treeMap_insert.mpr (.inr h.source_mem)
  parent d p hp hd := by
    rw [getElem?_insert_eq_ite] at hp
    by_cases hdc : d = c
    · rw [if_pos hdc] at hp
      cases hp
      subst hdc
      refine ⟨mem_treeMap_insert.mpr (.inr hmem), n, hcur, ?_, hc⟩
      exact atDistance_succ.mpr ⟨fun hwithin => hnew (hseen d hwithin), cur, hcur, hc⟩
    · rw [if_neg hdc] at hp
      obtain ⟨hpmem, hedge⟩ := h.parent d p hp hd
      exact ⟨mem_treeMap_insert.mpr (.inr hpmem), hedge⟩

/-! ## The loops of the search -/

/-- The loop over the callees of one function. -/
lemma mem_addParents (cur : U64) (cs : List U64) : ∀ (parents : AddrMap U64) (next : List U64),
    (∀ v, v ∈ (addParents cur cs parents next).1 ↔ v ∈ parents ∨ v ∈ cs) ∧
    ∀ v, v ∈ (addParents cur cs parents next).2 ↔ v ∈ next ∨ (v ∉ parents ∧ v ∈ cs) := by
  induction cs with
  | nil =>
    intro parents next
    simp [addParents]
  | cons c cs ih =>
    intro parents next
    rw [addParents]
    by_cases hc : parents.contains c = true
    · have hmem : c ∈ parents := hc
      rw [if_pos hc]
      constructor
      · intro v
        rw [(ih parents next).1, List.mem_cons]
        by_cases hv : v = c
        · simp [hv, hmem]
        · simp [hv]
      · intro v
        rw [(ih parents next).2, List.mem_cons]
        by_cases hv : v = c
        · simp [hv, hmem]
        · simp [hv]
    · have hmem : c ∉ parents := hc
      rw [if_neg hc]
      constructor
      · intro v
        rw [(ih _ _).1, mem_treeMap_insert, List.mem_cons, or_comm (a := v = c), or_assoc]
      · intro v
        rw [(ih _ _).2, mem_treeMap_insert, List.mem_cons, List.mem_append, List.mem_singleton]
        by_cases hv : v = c
        · simp [hv, hmem]
        · simp [hv]

lemma Tree.addParents {n : ℕ} {cur : U64} (hcur : AtDistance idx.callees [source] n cur)
    (cs : List U64) : ∀ {parents : AddrMap U64} {next : List U64}, Tree idx source parents →
    cur ∈ parents → (∀ v, Within idx.callees [source] n v → v ∈ parents) →
    (∀ c ∈ cs, c ∈ idx.callees cur) →
    Tree idx source (Workflow.addParents cur cs parents next).1 := by
  induction cs with
  | nil =>
    intro parents next h _ _ _
    exact h
  | cons c cs ih =>
    intro parents next h hmem hseen hcs
    have hrest : ∀ d ∈ cs, d ∈ idx.callees cur := fun d hd => hcs d (by simp [hd])
    rw [Workflow.addParents]
    by_cases hc : parents.contains c = true
    · rw [if_pos hc]
      exact ih h hmem hseen hrest
    · rw [if_neg hc]
      refine ih (h.insert hcur hmem hseen (hcs c (by simp)) hc) ?_ ?_ hrest
      · exact mem_treeMap_insert.mpr (.inr hmem)
      · intro v hv
        exact mem_treeMap_insert.mpr (.inr (hseen v hv))

/-- What the loop over a part of the outermost layer leaves: the tree, and unless it has met the
goal, the callees of that part. -/
lemma pathFrontier_spec {n : ℕ} (frontier : List U64) :
    ∀ {parents : AddrMap U64} {next : List U64}, Tree idx source parents →
    (∀ v, Within idx.callees [source] n v → v ∈ parents) →
    (∀ u ∈ frontier, AtDistance idx.callees [source] n u) →
    Tree idx source (pathFrontier idx goal frontier parents next).1 ∧
    (∀ v ∈ parents, v ∈ (pathFrontier idx goal frontier parents next).1) ∧
    ((pathFrontier idx goal frontier parents next).2.2 = true → goal ∈ frontier) ∧
    ((pathFrontier idx goal frontier parents next).2.2 = false →
      (∀ v, v ∈ (pathFrontier idx goal frontier parents next).1 ↔
        v ∈ parents ∨ ∃ u ∈ frontier, v ∈ idx.callees u) ∧
      ∀ v, v ∈ (pathFrontier idx goal frontier parents next).2.1 ↔
        v ∈ next ∨ (v ∉ parents ∧ ∃ u ∈ frontier, v ∈ idx.callees u)) := by
  induction frontier with
  | nil =>
    intro parents next h _ _
    refine ⟨h, fun v hv => hv, ?_, ?_⟩
    · intro hmet
      cases hmet
    · intro _
      simp [pathFrontier]
  | cons cur frontier ih =>
    intro parents next h hseen hat
    have hcur : AtDistance idx.callees [source] n cur := hat cur (by simp)
    have hrest : ∀ u ∈ frontier, AtDistance idx.callees [source] n u :=
      fun u hu => hat u (by simp [hu])
    by_cases hgoal : cur = goal
    · rw [pathFrontier, if_pos hgoal]
      refine ⟨h, fun v hv => hv, fun _ => by simp [hgoal], ?_⟩
      intro hmet
      cases hmet
    · -- a function outside the index has no callees
      have hstep : pathFrontier idx goal (cur :: frontier) parents next =
          pathFrontier idx goal frontier (addParents cur (idx.callees cur) parents next).1
            (addParents cur (idx.callees cur) parents next).2 := by
        rw [pathFrontier, if_neg hgoal, AnalysisIndex.callees]
        cases idx.functions[cur]? with
        | none => rfl
        | some f => rfl
      obtain ⟨hparents, hnext⟩ := mem_addParents cur (idx.callees cur) parents next
      have htree : Tree idx source (addParents cur (idx.callees cur) parents next).1 :=
        Tree.addParents hcur (idx.callees cur) h (hseen cur hcur.1) hseen fun c hc => hc
      have hseen' : ∀ v, Within idx.callees [source] n v →
          v ∈ (addParents cur (idx.callees cur) parents next).1 :=
        fun v hv => (hparents v).mpr (.inl (hseen v hv))
      obtain ⟨htree', hkeep, hmet, hall⟩ :=
        @ih _ (addParents cur (idx.callees cur) parents next).2 htree hseen' hrest
      rw [hstep]
      refine ⟨htree', fun v hv => hkeep v ((hparents v).mpr (.inl hv)), ?_, ?_⟩
      · intro h
        exact List.mem_cons_of_mem _ (hmet h)
      · intro h
        obtain ⟨hall₁, hall₂⟩ := hall h
        constructor
        · intro v
          rw [hall₁, hparents, or_assoc]
          simp
        · intro v
          rw [hall₂, hnext, hparents]
          by_cases hv : v ∈ parents
          · simp [hv]
          · by_cases hc : v ∈ idx.callees cur
            · simp [hv, hc]
            · simp [hv, hc]

/-- The levels of the search leave a tree, and it has the goal exactly when the goal is within
them. -/
lemma pathLevels_spec (k : ℕ) : ∀ {n : ℕ} {frontier : List U64} {parents : AddrMap U64},
    Tree idx source parents → Layer idx.callees [source] n (· ∈ parents) frontier →
    Tree idx source (pathLevels idx goal k frontier parents) ∧
    (goal ∈ pathLevels idx goal k frontier parents ↔
      Within idx.callees [source] (n + k) goal) := by
  induction k with
  | zero =>
    intro n frontier parents h hlayer
    exact ⟨h, hlayer.seen_iff goal⟩
  | succ k ih =>
    intro n frontier parents h hlayer
    obtain ⟨htree, hkeep, hmet, hall⟩ := @pathFrontier_spec idx source goal n frontier parents [] h
      (fun v hv => (hlayer.seen_iff v).mpr hv) (fun u hu => (hlayer.mem_frontier_iff u).mp hu)
    rw [pathLevels]
    generalize pathFrontier idx goal frontier parents [] = reached at htree hkeep hmet hall ⊢
    obtain ⟨parents', next, met⟩ := reached
    cases met with
    | true =>
      -- the goal is in the frontier, so it was there before this level
      have hgoal := (hlayer.mem_frontier_iff goal).mp (hmet rfl)
      refine ⟨htree, ?_⟩
      constructor
      · intro _
        exact hgoal.1.mono (by omega)
      · intro _
        exact hkeep goal ((hlayer.seen_iff goal).mpr hgoal.1)
    | false =>
      obtain ⟨hseen, hnext⟩ := hall rfl
      have hlayer' : Layer idx.callees [source] (n + 1) (· ∈ parents') next := by
        refine hlayer.next hseen ?_
        intro v
        rw [hnext]
        simp
      have := ih htree hlayer'
      rwa [show n + 1 + k = n + (k + 1) by omega] at this

/-! ## The reconstruction -/

/-- The keys on the way to a key at distance `n`. -/
lemma Tree.exists_keys {parents : AddrMap U64} (h : Tree idx source parents) (n : ℕ) :
    ∀ c ∈ parents, AtDistance idx.callees [source] n c → ∃ keys : List U64, keys.Nodup ∧
      keys.length = n + 1 ∧ ∀ x ∈ keys, x ∈ parents ∧
        ∃ m ≤ n, AtDistance idx.callees [source] m x := by
  induction n with
  | zero =>
    intro c hc hat
    refine ⟨[c], by simp, rfl, ?_⟩
    intro x hx
    obtain rfl := List.mem_singleton.mp hx
    exact ⟨hc, 0, le_rfl, hat⟩
  | succ n ih =>
    intro c hc hat
    obtain ⟨p, hp⟩ := Option.isSome_iff_exists.mp (Std.ExtTreeMap.mem_iff_isSome_getElem?.mp hc)
    have hne : c ≠ source := by
      rintro rfl
      have := hat.unique (atDistance_zero.mpr (by simp))
      omega
    obtain ⟨hpmem, m, hpat, hcat, -⟩ := h.parent c p hp hne
    obtain rfl : m = n := by
      have := hcat.unique hat
      omega
    obtain ⟨keys, hnodup, hlen, hkeys⟩ := ih p hpmem hpat
    refine ⟨c :: keys, ?_, by simp [hlen], ?_⟩
    · rw [List.nodup_cons]
      refine ⟨?_, hnodup⟩
      intro hmem
      obtain ⟨-, k, hk, hkat⟩ := hkeys c hmem
      have := hkat.unique hat
      omega
    · intro x hx
      rcases List.mem_cons.mp hx with rfl | hx
      · exact ⟨hc, m + 1, le_rfl, hat⟩
      · obtain ⟨hxmem, k, hk, hkat⟩ := hkeys x hx
        exact ⟨hxmem, k, by omega, hkat⟩

/-- The reconstruction loop goes back from a key to the source, edge by edge. -/
lemma Tree.pathBack {parents : AddrMap U64} (h : Tree idx source parents) (n : ℕ) :
    ∀ {fuel : ℕ} {cur : U64} {rest : List U64}, n ≤ fuel → cur ∈ parents →
    AtDistance idx.callees [source] n cur →
    ∃ front : List U64, Workflow.pathBack parents source fuel cur (cur :: rest) =
        .ok (front ++ cur :: rest) ∧ front.length = n ∧ (front ++ [cur]).head? = some source ∧
      (front ++ [cur]).IsChain fun a b => b ∈ idx.callees a := by
  induction n with
  | zero =>
    intro fuel cur rest _ _ hat
    obtain rfl : cur = source := by simpa using atDistance_zero.mp hat
    refine ⟨[], ?_, rfl, rfl, by simp⟩
    unfold Workflow.pathBack
    rw [if_pos rfl]
    rfl
  | succ n ih =>
    intro fuel cur rest hfuel hmem hat
    obtain ⟨p, hp⟩ := Option.isSome_iff_exists.mp (Std.ExtTreeMap.mem_iff_isSome_getElem?.mp hmem)
    have hne : cur ≠ source := by
      rintro rfl
      have := hat.unique (atDistance_zero.mpr (by simp))
      omega
    obtain ⟨hpmem, m, hpat, hcat, hedge⟩ := h.parent cur p hp hne
    obtain rfl : m = n := by
      have := hcat.unique hat
      omega
    obtain ⟨fuel, rfl⟩ : ∃ fuel', fuel = fuel' + 1 := ⟨fuel - 1, by omega⟩
    obtain ⟨front, hback, hlen, hhead, hchain⟩ := @ih fuel p (cur :: rest) (by omega)
      hpmem hpat
    refine ⟨front ++ [p], ?_, by simp [hlen], ?_, ?_⟩
    · unfold Workflow.pathBack
      rw [if_neg hne, hp]
      dsimp only
      rw [hback]
      simp
    · rw [List.head?_append, hhead]
      rfl
    · rw [List.append_assoc, List.singleton_append, List.isChain_split]
      exact ⟨hchain, by simpa using hedge⟩

/-! ## The whole search -/

/-- `trace_call_path` finds a path exactly when a walk of at most `depth` call edges leads from the
source to the goal, and then the path is such a walk, and no walk is shorter. -/
theorem trace_call_path_spec [Host] {idx : AnalysisIndex} {req : WorkflowRequest}
    {source goal : U64}
    (hsource : requested idx req "trace_call_path requires 'ea' (source)" = .ok source)
    (hgoal : req.target_ea.or req.roots.head? = some goal) :
    ∃ (path : List U64) (found : Bool),
      trace_call_path idx req = .ok (.object [("from", .ea source), ("to", .ea goal),
        ("path", .array (path.map (nameRow idx))), ("found", found)]) ∧
      (found = true ↔ ∃ k ≤ req.budgets.depth.val, Steps idx.callees source k goal) ∧
      (found = true → path.head? = some source ∧ path.getLast? = some goal ∧
        path.IsChain (fun a b => b ∈ idx.callees a) ∧
        ∀ k, Steps idx.callees source k goal → path.length ≤ k + 1) := by
  have hstart : Layer idx.callees [source] 0 (· ∈ (∅ : AddrMap U64).insert source source)
      [source] := by
    refine Layer.start.congr ?_
    intro v
    rw [mem_treeMap_insert]
    simp
  obtain ⟨htree, hfound⟩ :=
    @pathLevels_spec idx source goal req.budgets.depth.val _ _ _ tree_start hstart
  rw [Nat.zero_add] at hfound
  have hwithin : Within idx.callees [source] req.budgets.depth.val goal ↔
      ∃ k ≤ req.budgets.depth.val, Steps idx.callees source k goal := by
    simp [Within]
  rw [trace_call_path, hsource, Outcome.ok_bind, hgoal, Outcome.ofOption, Outcome.ok_bind]
  by_cases hmem : goal ∈ pathLevels idx goal req.budgets.depth.val [source]
      ((∅ : AddrMap U64).insert source source)
  · obtain ⟨n, -, hat⟩ := (hfound.mp hmem).exists_atDistance
    -- there are enough parents for the way back
    obtain ⟨keys, hnodup, hlen, hkeys⟩ := htree.exists_keys n goal hmem hat
    have hfuel := length_le_size hnodup fun x hx => (hkeys x hx).1
    have hfuel' : n ≤ (pathLevels idx goal req.budgets.depth.val [source]
        ((∅ : AddrMap U64).insert source source)).size := by omega
    obtain ⟨front, hback, hfront, hhead, hchain⟩ :=
      @Tree.pathBack _ _ _ htree n _ _ [] hfuel' hmem hat
    refine ⟨front ++ [goal], true, ?_, ?_, ?_⟩
    · dsimp only
      rw [if_pos (Std.ExtTreeMap.contains_iff_mem.mpr hmem), hback]
      rfl
    · simp only [true_iff]
      exact hwithin.mp (hfound.mp hmem)
    · intro _
      refine ⟨hhead, by simp, hchain, ?_⟩
      intro k hk
      -- a shorter walk would put the goal into an earlier layer
      by_contra hlt
      have hlt' : k < n := by
        simp [hfront] at hlt
        omega
      exact hat.2 k hlt' ⟨source, by simp, k, le_rfl, hk⟩
  · refine ⟨[], false, ?_, ?_, ?_⟩
    · dsimp only
      rw [if_neg (fun h => hmem (Std.ExtTreeMap.contains_iff_mem.mp h))]
      rfl
    · rw [← hwithin, ← hfound]
      simp [hmem]
    · intro h
      cases h

/-- A request for a call path. -/
def pathRequest (source goal : U64) : WorkflowRequest :=
  ⟨"trace_call_path", some source, some goal, none, [], ⟨2, 10, "", false⟩⟩

/-- The path along the one call of an index. -/
theorem trace_call_path_spec_call :
    letI : Host := Host.ascii true
    ∃ path : List U64, trace_call_path AnalysisIndex.twoSenders (pathRequest 0x401000 0x402000) =
        .ok (.object [("from", .ea 0x401000), ("to", .ea 0x402000),
          ("path", .array (path.map (nameRow AnalysisIndex.twoSenders))), ("found", true)]) ∧
      path.head? = some 0x401000 ∧ path.getLast? = some 0x402000 := by
  let : Host := Host.ascii true
  obtain ⟨path, found, heq, hfound, hpath⟩ := @trace_call_path_spec _ AnalysisIndex.twoSenders
    (pathRequest 0x401000 0x402000) 0x401000 0x402000 rfl rfl
  have hcall : (0x402000 : U64) ∈ AnalysisIndex.twoSenders.callees 0x401000 := by decide
  obtain rfl : found = true := hfound.mpr ⟨1, by decide, Steps.refl.tail hcall⟩
  exact ⟨path, heq, (hpath rfl).1, (hpath rfl).2.1⟩

end Workflow

end ReverseMcp
