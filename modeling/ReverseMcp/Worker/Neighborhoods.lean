import ReverseMcp.Core.Queries
import ReverseMcp.Worker.Workflow

/-!
# Bounded walks over the call graph

`workflow::call_neighborhood` and `workflow::subsystem_context` go breadth-first over the call edges
that are not noise, and look at no more edges once they have seen `max_functions` functions.  Both
follow the edges in the order of an unbounded search up to that point (`taken`, `walkLevels_eq`), so
they are exact when nothing is left over.  The first one says so; the second one tests for more than
`max_functions` functions and stops at exactly that many (`subsystem_context_iff`).
-/

namespace ReverseMcp

open Rust ReverseMcp.Graph

namespace Workflow

/-! ## Looking at edges -/

/-- The edges that a walk looks at before it has seen `max_functions` functions. -/
def taken (max_functions : ℕ) : AddrSet → List (U64 × U64) → List (U64 × U64)
  | _, [] => []
  | visited, e :: es =>
    if max_functions ≤ visited.size then [] else e :: taken max_functions (visited.insert e.2) es

/-- What has been seen when the targets of some edges were added. -/
def seenAfter (visited : AddrSet) (es : List (U64 × U64)) : AddrSet :=
  (es.map Prod.snd).foldl (·.insert ·) visited

/-- The walk after it has looked at some edges. -/
def Walk.follow (edge : U64 → U64 → Json) (w : Walk) (es : List (U64 × U64)) : Walk where
  visited := seenAfter w.visited es
  next := w.next ++ fresh w.visited.toList (es.map Prod.snd)
  edges := w.edges ++ es.map fun e => edge e.1 e.2

section Taken

variable {max_functions : ℕ} {visited : AddrSet} {es fs : List (U64 × U64)}

lemma mem_seenAfter {v : U64} : v ∈ seenAfter visited es ↔ v ∈ visited ∨ v ∈ es.map Prod.snd :=
  mem_treeSet_foldl_insert _ _

lemma seenAfter_append :
    seenAfter visited (es ++ fs) = seenAfter (seenAfter visited es) fs := by
  rw [seenAfter, List.map_append, List.foldl_append]
  rfl

lemma size_le_seenAfter (es : List (U64 × U64)) : ∀ visited : AddrSet,
    visited.size ≤ (seenAfter visited es).size := by
  induction es with
  | nil =>
    intro visited
    exact le_rfl
  | cons e es ih =>
    intro visited
    exact Std.ExtTreeSet.size_le_size_insert.trans (ih (visited.insert e.2))

lemma taken_of_le (h : max_functions ≤ visited.size) : taken max_functions visited es = [] := by
  cases es with
  | nil => rfl
  | cons e es => rw [taken, if_pos h]

lemma taken_append (es : List (U64 × U64)) : ∀ visited : AddrSet,
    taken max_functions visited (es ++ fs) = taken max_functions visited es ++
      taken max_functions (seenAfter visited (taken max_functions visited es)) fs := by
  induction es with
  | nil =>
    intro visited
    rfl
  | cons e es ih =>
    intro visited
    by_cases hfull : max_functions ≤ visited.size
    · rw [taken_of_le hfull, taken_of_le hfull]
      exact (taken_of_le hfull).symm
    · rw [List.cons_append, taken, if_neg hfull, taken, if_neg hfull, ih, List.cons_append]
      rfl

/-- The edges that are looked at come first. -/
lemma taken_front (es : List (U64 × U64)) : ∀ visited : AddrSet,
    taken max_functions visited es <+: es := by
  induction es with
  | nil =>
    intro visited
    exact List.prefix_rfl
  | cons e es ih =>
    intro visited
    rw [taken]
    split
    · exact List.nil_prefix
    · exact List.cons_prefix_cons.mpr ⟨rfl, ih _⟩

/-- No more than `max_functions` functions are seen. -/
lemma size_taken_le (es : List (U64 × U64)) : ∀ visited : AddrSet, visited.size ≤ max_functions →
    (seenAfter visited (taken max_functions visited es)).size ≤ max_functions := by
  induction es with
  | nil =>
    intro visited h
    exact h
  | cons e es ih =>
    intro visited h
    rw [taken]
    split
    · exact h
    · have hinsert := Std.ExtTreeSet.size_insert_le (t := visited) (k := e.2)
      exact ih (visited.insert e.2) (by omega)

/-- A walk that has seen fewer functions has looked at every edge. -/
lemma taken_eq_self (es : List (U64 × U64)) : ∀ visited : AddrSet,
    (seenAfter visited (taken max_functions visited es)).size < max_functions →
    taken max_functions visited es = es := by
  induction es with
  | nil =>
    intro visited _
    rfl
  | cons e es ih =>
    intro visited h
    rw [taken] at h ⊢
    split at h
    · rename_i hfull
      exact absurd h (Nat.not_lt.mpr hfull)
    · rename_i hroom
      rw [if_neg hroom, ih (visited.insert e.2) h]

/-- While the targets of some edges leave room, all of these edges are looked at. -/
lemma taken_append_of_lt (front : List (U64 × U64)) : ∀ visited : AddrSet,
    (seenAfter visited front).size < max_functions →
    taken max_functions visited (front ++ fs) =
      front ++ taken max_functions (seenAfter visited front) fs := by
  induction front with
  | nil =>
    intro visited _
    rfl
  | cons e front ih =>
    intro visited h
    have hroom := size_le_seenAfter (e :: front) visited
    rw [List.cons_append, taken, if_neg (by omega), ih (visited.insert e.2) h]
    rfl

/-- When the targets of some edges leave no room, nothing behind these edges is looked at. -/
lemma taken_append_of_le (front : List (U64 × U64)) (visited : AddrSet)
    (h : max_functions ≤ (seenAfter visited front).size) :
    taken max_functions visited (front ++ fs) = taken max_functions visited front := by
  rw [taken_append]
  by_cases hfull : max_functions ≤ (seenAfter visited (taken max_functions visited front)).size
  · rw [taken_of_le hfull, List.append_nil]
  · rw [taken_eq_self front visited (by omega)] at hfull
    omega

/-- Every edge is looked at exactly when each one, where it comes first, comes while there is
room. -/
lemma taken_complete_iff : (∀ e ∈ es, e ∈ taken max_functions visited es) ↔
    ∀ front e back, es = front ++ e :: back → e ∉ front →
      (seenAfter visited front).size < max_functions := by
  constructor
  · intro h front e back hsplit hfirst
    by_contra hfull
    have hmem := h e (by simp [hsplit])
    rw [hsplit, taken_append_of_le front visited (by omega)] at hmem
    exact hfirst ((taken_front front visited).subset hmem)
  · intro h e he
    obtain ⟨front, back, hsplit, hfirst⟩ := List.eq_append_cons_of_mem he
    have hroom := h front e back hsplit hfirst
    rw [hsplit, taken_append_of_lt front visited hroom, taken, if_neg (by omega)]
    simp

end Taken

/-! ## The walk -/

section Walk

variable [Host] {idx : AnalysisIndex} {include_noise : Bool} {edge : U64 → U64 → Json}
  {max_functions : ℕ}

/-- The call edges that are not noise. -/
def quietCallees (idx : AnalysisIndex) (include_noise : Bool) (ea : U64) : List U64 :=
  filter_noise idx (idx.callees ea) include_noise

omit [Host] in
lemma Walk.follow_nil (w : Walk) : w.follow edge [] = w := by
  rw [Walk.follow, seenAfter]
  simp [fresh]

omit [Host] in
lemma Walk.follow_append (w : Walk) (es fs : List (U64 × U64)) :
    (w.follow edge es).follow edge fs = w.follow edge (es ++ fs) := by
  have hseen : ∀ v, v ∈ (seenAfter w.visited es).toList ↔
      v ∈ (fresh w.visited.toList (es.map Prod.snd)).reverse ++ w.visited.toList := by
    intro v
    rw [Std.ExtTreeSet.mem_toList, mem_seenAfter, List.mem_append, List.mem_reverse, mem_fresh,
      Std.ExtTreeSet.mem_toList]
    by_cases hv : v ∈ w.visited
    · simp [hv]
    · simp [hv]
  rw [Walk.follow, Walk.follow, Walk.follow]
  simp only [seenAfter_append, List.map_append, fresh_append, fresh_congr _ hseen,
    List.append_assoc]

omit [Host] in
lemma walkCallees_eq (cur : U64) (cs : List U64) : ∀ w : Walk,
    walkCallees (edge cur) max_functions cs w =
      w.follow edge (taken max_functions w.visited (cs.map fun c => (cur, c))) := by
  induction cs with
  | nil =>
    intro w
    exact w.follow_nil.symm
  | cons c cs ih =>
    intro w
    rw [walkCallees, List.map_cons, taken]
    by_cases hfull : max_functions ≤ w.visited.size
    · rw [if_pos hfull, if_pos hfull, w.follow_nil]
    · have hlook : ({ visited := w.visited.insert c
                      next := if w.visited.contains c then w.next else w.next ++ [c]
                      edges := w.edges ++ [edge cur c] } : Walk) =
          w.follow edge [(cur, c)] := by
        rw [Walk.follow, seenAfter]
        by_cases hc : w.visited.contains c = true
        · have hmem : c ∈ w.visited := hc
          simp [hmem, fresh]
        · have hmem : c ∉ w.visited := hc
          simp [hmem, fresh]
      rw [if_neg hfull, if_neg hfull, hlook, ih, Walk.follow_append, List.singleton_append]
      rfl

omit [Host] in
lemma edgesFrom_cons (succ : U64 → List U64) (u : U64) (us : List U64) :
    edgesFrom succ (u :: us) = (succ u).map (fun c => (u, c)) ++ edgesFrom succ us := by
  rw [edgesFrom, List.flatMap_cons]
  rfl

/-- A frontier: the walk looks at the edges that leave it. -/
lemma walkFrontier_eq (stop : Bool) (frontier : List U64) : ∀ w : Walk,
    walkFrontier idx include_noise edge max_functions stop frontier w =
      w.follow edge (taken max_functions w.visited
        (edgesFrom (quietCallees idx include_noise) frontier)) := by
  induction frontier with
  | nil =>
    intro w
    exact w.follow_nil.symm
  | cons cur rest ih =>
    intro w
    have hcallees := @walkCallees_eq edge max_functions cur (quietCallees idx include_noise cur) w
    rw [walkFrontier, edgesFrom_cons, taken_append, ← Walk.follow_append]
    rw [quietCallees, AnalysisIndex.callees] at hcallees
    cases hcur : idx.functions[cur]? with
    | none =>
      have hnone : quietCallees idx include_noise cur = [] := by
        rw [quietCallees, AnalysisIndex.callees, hcur, filter_noise]
        simp
      rw [hnone]
      dsimp only
      rw [ih, List.map_nil, show taken max_functions w.visited [] = [] from rfl, Walk.follow_nil]
      rfl
    | some f =>
      have hsome : quietCallees idx include_noise cur =
          filter_noise idx f.callees include_noise := by
        rw [quietCallees, AnalysisIndex.callees, hcur]
      rw [hcur] at hcallees
      dsimp only at hcallees ⊢
      rw [hcallees, hsome]
      split
      · rename_i hstop
        -- the early exit leaves out a loop that does nothing
        rw [Bool.and_eq_true, decide_eq_true_eq, Walk.follow] at hstop
        rw [taken_of_le hstop.2, Walk.follow_nil]
      · exact ih _

/-- The levels: the walk looks at the edges in the order of an unbounded search. -/
lemma walkLevels_eq (stop : Bool) (n : ℕ) : ∀ (frontier seen : List U64) (w : Walk),
    (∀ v, v ∈ seen ↔ v ∈ w.visited) →
    (walkLevels idx include_noise edge max_functions stop n frontier w).visited =
      seenAfter w.visited (taken max_functions w.visited (edgesFrom (quietCallees idx include_noise)
        (levelOrder (quietCallees idx include_noise) n frontier seen))) ∧
    (walkLevels idx include_noise edge max_functions stop n frontier w).edges =
      w.edges ++ (taken max_functions w.visited (edgesFrom (quietCallees idx include_noise)
        (levelOrder (quietCallees idx include_noise) n frontier seen))).map
          fun e => edge e.1 e.2 := by
  induction n with
  | zero =>
    intro frontier seen w _
    simp [walkLevels, levelOrder, edgesFrom, taken, seenAfter]
  | succ n ih =>
    intro frontier seen w hseen
    rw [walkLevels, walkFrontier_eq, levelOrder, edgesFrom_append, taken_append]
    dsimp only
    by_cases hfull : max_functions ≤ (seenAfter w.visited (taken max_functions w.visited
        (edgesFrom (quietCallees idx include_noise) frontier))).size
    · rw [taken_of_le hfull, List.append_nil]
      split
      · exact ⟨rfl, rfl⟩
      · -- without the early exit the later levels look at nothing
        obtain ⟨hvisited, hedges⟩ := ih _ _ (Walk.follow edge { w with next := [] }
          (taken max_functions w.visited (edgesFrom (quietCallees idx include_noise) frontier)))
          fun v => Std.ExtTreeSet.mem_toList
        rw [hvisited, hedges]
        dsimp only [Walk.follow]
        rw [taken_of_le hfull]
        simp [seenAfter]
    · have hall : taken max_functions w.visited (edgesFrom (quietCallees idx include_noise)
          frontier) = edgesFrom (quietCallees idx include_noise) frontier :=
        taken_eq_self _ w.visited (Nat.lt_of_not_le hfull)
      rw [hall] at hfull ⊢
      have hgoes : ¬ (stop && decide (max_functions ≤ (Walk.follow edge { w with next := [] }
          (edgesFrom (quietCallees idx include_noise) frontier)).visited.size)) = true := by
        rw [Bool.and_eq_true, decide_eq_true_eq, Walk.follow]
        intro h
        exact hfull h.2
      rw [if_neg hgoes]
      have hnext : (Walk.follow edge { w with next := [] }
          (edgesFrom (quietCallees idx include_noise) frontier)).next =
          fresh seen (frontier.flatMap (quietCallees idx include_noise)) := by
        rw [Walk.follow, List.nil_append, map_snd_edgesFrom]
        refine fresh_congr _ ?_
        intro v
        rw [Std.ExtTreeSet.mem_toList, hseen]
      have hseen' :
          ∀ v, v ∈ fresh seen (frontier.flatMap (quietCallees idx include_noise)) ++ seen ↔
          v ∈ (Walk.follow edge { w with next := [] }
            (edgesFrom (quietCallees idx include_noise) frontier)).visited := by
        intro v
        rw [Walk.follow, mem_seenAfter, map_snd_edgesFrom, List.mem_append, mem_fresh, hseen]
        by_cases hv : v ∈ w.visited
        · simp [hv]
        · simp [hv]
      obtain ⟨hvisited, hedges⟩ := ih _ _ _ hseen'
      rw [hnext, hvisited, hedges]
      dsimp only [Walk.follow]
      rw [seenAfter_append, List.map_append, List.append_assoc]
      exact ⟨rfl, rfl⟩

end Walk

/-! ## The neighborhood of a function -/

/-- The row of a function in a neighborhood. -/
def neighborRow (idx : AnalysisIndex) (ea : U64) : Json :=
  let f := idx.functions[ea]?
  .object [("ea", .ea ea), ("name", (f.map FunctionFacts.name).getD ""),
    ("strings", .strings ((f.map FunctionFacts.strings).getD [])),
    ("imports", .strings ((f.map FunctionFacts.imports).getD []))]

/-- The row of a call edge in a neighborhood. -/
def neighborEdge (idx : AnalysisIndex) (e : U64 × U64) : Json :=
  .object [("from", .ea e.1), ("to", .ea e.2), ("to_name", idx.function_name e.2)]

lemma call_neighborhood_eq [Host] {idx : AnalysisIndex} {req : WorkflowRequest} {ea : U64}
    {max_functions : ℕ}
    (hroot : requested idx req "call_neighborhood requires 'ea' or 'name'" = .ok ea)
    (hea : ea ∈ idx.functions) {w : Walk}
    (hw : walkLevels idx req.budgets.include_noise (fun cur c => neighborEdge idx (cur, c))
      max_functions true req.budgets.depth.val [ea] ⟨(∅ : AddrSet).insert ea, [], []⟩ = w) :
    call_neighborhood idx req max_functions = .ok (.object [("root", .ea ea),
      ("depth", .nat req.budgets.depth.val),
      ("functions", .array (w.visited.toList.map (neighborRow idx))), ("edges", .array w.edges),
      ("truncated", decide (max_functions ≤ w.visited.size))]) := by
  have hindexed : failIf (ea ∉ idx.functions) s!"no function at {hex ea}" = .ok () := by
    rw [failIf_eq_ok]
    simpa using hea
  rw [call_neighborhood, hroot, Outcome.ok_bind, hindexed, ← hw]
  rfl

/-- A neighborhood has at most `max_functions` functions, and the ends of its edges are among them.
When it is not marked as truncated, the functions are all that lies within `depth` call edges, and
the edges are all that leave what lies within fewer. -/
theorem call_neighborhood_spec [Host] {idx : AnalysisIndex} {req : WorkflowRequest} {ea : U64}
    {max_functions : ℕ} (hmax : 0 < max_functions)
    (hroot : requested idx req "call_neighborhood requires 'ea' or 'name'" = .ok ea)
    (hea : ea ∈ idx.functions) :
    ∃ (functions : List U64) (edges : List (U64 × U64)) (truncated : Bool),
      call_neighborhood idx req max_functions = .ok (.object [("root", .ea ea),
        ("depth", .nat req.budgets.depth.val),
        ("functions", .array (functions.map (neighborRow idx))),
        ("edges", .array (edges.map (neighborEdge idx))), ("truncated", truncated)]) ∧
      functions.Nodup ∧ functions.length ≤ max_functions ∧
      (∀ e ∈ edges, e.1 ∈ functions ∧ e.2 ∈ functions) ∧
      (truncated = false →
        (∀ u, u ∈ functions ↔ Within (quietCallees idx req.budgets.include_noise) [ea]
          req.budgets.depth.val u) ∧
        ∃ order : List U64, order.Nodup ∧
          (∀ u, u ∈ order ↔ ∃ m < req.budgets.depth.val,
            Within (quietCallees idx req.budgets.include_noise) [ea] m u) ∧
          edges = edgesFrom (quietCallees idx req.budgets.include_noise) order) := by
  let succ : U64 → List U64 := quietCallees idx req.budgets.include_noise
  let order := levelOrder succ req.budgets.depth.val [ea] [ea]
  let visited : AddrSet := (∅ : AddrSet).insert ea
  let edges := taken max_functions visited (edgesFrom succ order)
  have hvisited : ∀ v, v ∈ [ea] ↔ v ∈ visited := by
    intro v
    rw [mem_treeSet_insert]
    simp
  obtain ⟨hseen, hedges⟩ := @walkLevels_eq _ idx req.budgets.include_noise
    (fun cur c => neighborEdge idx (cur, c)) max_functions true req.budgets.depth.val [ea] [ea]
    ⟨visited, [], []⟩ hvisited
  refine ⟨(seenAfter visited edges).toList, edges,
    decide (max_functions ≤ (seenAfter visited edges).size), ?_, ?_, ?_, ?_, ?_⟩
  · rw [call_neighborhood_eq hroot hea rfl, hseen, hedges]
    rfl
  · exact treeSet_toList_nodup _
  · rw [Std.ExtTreeSet.length_toList]
    refine size_taken_le _ _ ?_
    rw [treeSet_size_eq_card fun v => (hvisited v).symm]
    exact hmax
  · intro e he
    rw [Std.ExtTreeSet.mem_toList, Std.ExtTreeSet.mem_toList, mem_seenAfter, mem_seenAfter]
    obtain ⟨front, back, hsplit⟩ := List.append_of_mem he
    obtain ⟨rest, hrest⟩ := @taken_front max_functions (edgesFrom succ order) visited
    have hall : edgesFrom succ order = front ++ e :: (back ++ rest) := by
      rw [← hrest, show taken max_functions visited (edgesFrom succ order) = edges from rfl, hsplit]
      simp
    constructor
    · rcases levelOrder_leaves_seen _ (List.Subset.refl [ea]) front e _ hall with h | h
      · exact .inl ((hvisited _).mp h)
      · right
        rw [hsplit, List.map_append]
        exact List.mem_append_left _ h
    · exact .inr (List.mem_map_of_mem he)
  · intro htruncated
    rw [decide_eq_false_iff_not] at htruncated
    have hall : edges = edgesFrom succ order :=
      taken_eq_self _ visited (Nat.lt_of_not_le htruncated)
    constructor
    · intro u
      rw [Std.ExtTreeSet.mem_toList, mem_seenAfter, hall, ← hvisited]
      have hwithin := @within_iff_edges _ succ [ea] u _ req.budgets.depth.val _ _ _ .start
      rw [Nat.zero_add] at hwithin
      exact hwithin.symm
    · exact ⟨order, levelOrder_nodup _ .start (by simp), fun u => mem_levelOrder_start, hall⟩

/-- A request for a walk from `0x401000`, one level deep. -/
def walkRequest (workflow : String) : WorkflowRequest :=
  ⟨workflow, some 0x401000, none, none, [], ⟨1, 10, "", false⟩⟩

/-- The neighborhood of a function with one call. -/
theorem call_neighborhood_spec_call :
    letI : Host := Host.ascii true
    ∃ (functions : List U64) (edges : List (U64 × U64)) (truncated : Bool),
      call_neighborhood AnalysisIndex.twoSenders (walkRequest "call_neighborhood") 10 =
        .ok (.object [("root", .ea 0x401000), ("depth", .nat 1),
          ("functions", .array (functions.map (neighborRow AnalysisIndex.twoSenders))),
          ("edges", .array (edges.map (neighborEdge AnalysisIndex.twoSenders))),
          ("truncated", truncated)]) ∧
      functions.length ≤ 10 := by
  let : Host := Host.ascii true
  obtain ⟨functions, edges, truncated, heq, -, hlen, -⟩ := @call_neighborhood_spec _
    AnalysisIndex.twoSenders (walkRequest "call_neighborhood") 0x401000 10
      (by decide) rfl (by decide)
  exact ⟨functions, edges, truncated, heq, hlen⟩

/-! ## The context of a subsystem -/

/-- The roots of a subsystem. -/
def subsystemRoots (req : WorkflowRequest) : List U64 :=
  if req.roots ≠ [] then req.roots else req.ea.toList

/-- The row of a call edge in a subsystem. -/
def subsystemEdge (e : U64 × U64) : Json := .object [("from", .ea e.1), ("to", .ea e.2)]

/-- Every edge of an unbounded search, where it comes first, comes before `max_functions` functions
have been seen. -/
def EdgesFit [Host] (idx : AnalysisIndex) (req : WorkflowRequest) (max_functions : ℕ) : Prop :=
  ∀ front e back, edgesFrom (quietCallees idx req.budgets.include_noise)
      (levelOrder (quietCallees idx req.budgets.include_noise) req.budgets.depth.val
        (subsystemRoots req) (subsystemRoots req)) = front ++ e :: back →
    e ∉ front → (subsystemRoots req ++ front.map Prod.snd).toFinset.card < max_functions

section Subsystem

variable [Host] {b : MockBackend} {idx : AnalysisIndex} {req : WorkflowRequest}
  {max_functions : ℕ}

/-- The rows are those of the indexed functions. -/
lemma subsystemRows_eas {detail : String} (eas : List U64) : ∀ {rows : List (Option Json)},
    Outcome.mapList (subsystemRow b idx detail) eas = .ok rows →
    (rows.filterMap id).map (·.idx "ea") =
      (eas.filter fun ea => idx.functions.contains ea).map Json.ea := by
  induction eas with
  | nil =>
    intro rows h
    cases h
    rfl
  | cons ea eas ih =>
    intro rows h
    obtain ⟨row, hrow, h⟩ := Outcome.bind_eq_ok.mp h
    obtain ⟨rest, hrest, h⟩ := Outcome.bind_eq_ok.mp h
    cases h
    rw [subsystemRow] at hrow
    cases hf : idx.functions[ea]? with
    | none =>
      have hnot : ¬ idx.functions.contains ea = true := by
        rw [Std.ExtTreeMap.contains_iff_mem, Std.ExtTreeMap.mem_iff_isSome_getElem?, hf]
        simp
      rw [hf] at hrow
      cases hrow
      rw [List.filter_cons_of_neg hnot, ← ih hrest]
      rfl
    | some f =>
      have hmem : idx.functions.contains ea = true := by
        rw [Std.ExtTreeMap.contains_iff_mem, Std.ExtTreeMap.mem_iff_isSome_getElem?, hf]
        rfl
      rw [hf] at hrow
      obtain ⟨decomp, -, hrow⟩ := Outcome.bind_eq_ok.mp hrow
      cases hrow
      rw [List.filter_cons_of_pos hmem, List.map_cons, ← ih hrest]
      rfl

/-- A run that returns has the walk from its roots in its report. -/
lemma subsystem_context_eq_ok {v : Json}
    (h : subsystem_context b idx req max_functions = .ok v) {w : Walk}
    (hw : walkLevels idx req.budgets.include_noise (fun cur c => subsystemEdge (cur, c))
      max_functions false req.budgets.depth.val (subsystemRoots req)
      ⟨(subsystemRoots req).foldl (·.insert ·) ∅, [], []⟩ = w) :
    ∃ rows : List Json, v = .object [("roots", eaTexts (subsystemRoots req)),
        ("functions", .array rows), ("edges", .array w.edges),
        ("truncated", decide (max_functions < w.visited.size))] ∧
      rows.map (·.idx "ea") = ((w.visited.toList.take max_functions).filter
        fun ea => idx.functions.contains ea).map Json.ea := by
  obtain ⟨roots, hroots, h⟩ := Outcome.bind_eq_ok.mp h
  obtain rfl : roots = subsystemRoots req := by
    rw [subsystemRoots]
    split at hroots
    · rename_i hne
      rw [if_pos hne]
      exact (Outcome.ok.inj hroots).symm
    · rename_i hne
      rw [if_neg hne]
      cases hea : req.ea with
      | none =>
        rw [hea] at hroots
        cases hroots
      | some ea =>
        rw [hea] at hroots
        exact (Outcome.ok.inj hroots).symm
  dsimp only at h
  split at h
  · cases h
  obtain ⟨rows, hrows, h⟩ := Outcome.bind_eq_ok.mp h
  cases h
  rw [← hw]
  exact ⟨rows.filterMap id, rfl, subsystemRows_eas _ hrows⟩

/-- A subsystem that is not marked as truncated is complete exactly when the roots alone are too
many, or no edge comes up for the first time when `max_functions` functions have been seen. -/
theorem subsystem_context_iff {v : Json}
    (h : subsystem_context b idx req max_functions = .ok v) :
    ∃ (functions : List U64) (rows : List Json) (edges : List (U64 × U64)) (truncated : Bool),
      v = .object [("roots", eaTexts (subsystemRoots req)), ("functions", .array rows),
        ("edges", .array (edges.map subsystemEdge)), ("truncated", truncated)] ∧
      rows.map (·.idx "ea") = functions.map Json.ea ∧
      ((truncated = false →
          (∀ u, u ∈ functions ↔ u ∈ idx.functions ∧
            Within (quietCallees idx req.budgets.include_noise) (subsystemRoots req)
              req.budgets.depth.val u) ∧
          ∀ e : U64 × U64, e ∈ edges ↔ e.2 ∈ quietCallees idx req.budgets.include_noise e.1 ∧
            ∃ m < req.budgets.depth.val,
              Within (quietCallees idx req.budgets.include_noise) (subsystemRoots req) m e.1) ↔
        max_functions < (subsystemRoots req).toFinset.card ∨ EdgesFit idx req max_functions) := by
  let succ : U64 → List U64 := quietCallees idx req.budgets.include_noise
  let order := levelOrder succ req.budgets.depth.val (subsystemRoots req) (subsystemRoots req)
  let visited : AddrSet := (subsystemRoots req).foldl (·.insert ·) ∅
  let edges := taken max_functions visited (edgesFrom succ order)
  have hvisited : ∀ v, v ∈ subsystemRoots req ↔ v ∈ visited := by
    intro v
    rw [mem_treeSet_foldl_insert]
    simp
  obtain ⟨hseen, hedges⟩ := @walkLevels_eq _ idx req.budgets.include_noise
    (fun cur c => subsystemEdge (cur, c)) max_functions false req.budgets.depth.val
    (subsystemRoots req) (subsystemRoots req) ⟨visited, [], []⟩ hvisited
  obtain ⟨rows, hv, hrows⟩ := subsystem_context_eq_ok h rfl
  rw [hseen] at hv hrows
  rw [hedges] at hv
  refine ⟨_, rows, edges, _, hv, hrows, ?_⟩
  have hsize : ∀ front : List (U64 × U64), (seenAfter visited front).size =
      (subsystemRoots req ++ front.map Prod.snd).toFinset.card := by
    intro front
    refine treeSet_size_eq_card ?_
    intro x
    rw [mem_seenAfter, ← hvisited, List.mem_append]
  have hfit : EdgesFit idx req max_functions ↔ ∀ e ∈ edgesFrom succ order, e ∈ edges := by
    rw [taken_complete_iff, EdgesFit]
    simp only [hsize]
    rfl
  have hmem : ∀ e : U64 × U64, e ∈ edgesFrom succ order ↔ e.2 ∈ succ e.1 ∧
      ∃ m < req.budgets.depth.val, Within succ (subsystemRoots req) m e.1 := by
    intro e
    rw [mem_edgesFrom, mem_levelOrder_start, and_comm]
  have hroots : visited.size = (subsystemRoots req).toFinset.card :=
    treeSet_size_eq_card fun v => (hvisited v).symm
  constructor
  · intro hexact
    by_contra hnot
    rw [not_or] at hnot
    have hle := @size_taken_le max_functions (edgesFrom succ order) visited (by omega)
    obtain ⟨-, hall⟩ := hexact (decide_eq_false (by exact Nat.not_lt.mpr hle))
    refine hnot.2 (hfit.mpr ?_)
    intro e he
    exact (hall e).mpr ((hmem e).mp he)
  · intro hcond htruncated
    have hle : (seenAfter visited edges).size ≤ max_functions :=
      Nat.not_lt.mp (of_decide_eq_false htruncated)
    have hge := size_le_seenAfter edges visited
    have hall : ∀ e, e ∈ edges ↔ e ∈ edgesFrom succ order := by
      intro e
      constructor
      · intro he
        exact (taken_front _ _).subset he
      · exact hfit.mp (hcond.resolve_left (by omega)) e
    constructor
    · intro u
      have hwithin :=
        @within_iff_edges _ succ (subsystemRoots req) u _ req.budgets.depth.val _ _ _ .start
      rw [Nat.zero_add] at hwithin
      rw [List.take_of_length_le (by rw [Std.ExtTreeSet.length_toList]; exact hle),
        List.mem_filter, Std.ExtTreeSet.mem_toList, Std.ExtTreeMap.contains_iff_mem, and_comm,
        hwithin]
      refine and_congr_right fun _ => ?_
      show u ∈ seenAfter visited edges ↔ _
      rw [mem_seenAfter, ← hvisited]
      refine or_congr_right ?_
      rw [List.mem_map, List.mem_map]
      exact exists_congr fun e => and_congr_left fun _ => hall e
    · intro e
      rw [hall, hmem]

end Subsystem

/-- With room for ten functions the context of a function with one call is complete. -/
theorem subsystem_context_iff_call :
    letI : Host := Host.ascii true
    ∃ (functions : List U64) (rows : List Json) (edges : List (U64 × U64)) (truncated : Bool),
      subsystem_context MockBackend.new AnalysisIndex.twoSenders
          (walkRequest "subsystem_context") 10 =
        .ok (.object [("roots", eaTexts [0x401000]), ("functions", .array rows),
          ("edges", .array (edges.map subsystemEdge)), ("truncated", truncated)]) ∧
      rows.map (·.idx "ea") = functions.map Json.ea ∧
      (truncated = false → ∀ u, u ∈ functions ↔ u ∈ AnalysisIndex.twoSenders.functions ∧
        Within (quietCallees AnalysisIndex.twoSenders false) [0x401000] 1 u) := by
  let : Host := Host.ascii true
  have hrun : (subsystem_context MockBackend.new AnalysisIndex.twoSenders
      (walkRequest "subsystem_context") 10).isOk = true := by decide
  obtain ⟨v, hv⟩ := Outcome.isOk_iff.mp hrun
  obtain ⟨functions, rows, edges, truncated, heq, hrows, hiff⟩ := subsystem_context_iff hv
  refine ⟨functions, rows, edges, truncated, hv.trans (congrArg _ heq), hrows, ?_⟩
  intro htruncated
  refine (hiff.mpr (.inr ?_) htruncated).1
  intro front e back hsplit _
  have hone : edgesFrom (quietCallees AnalysisIndex.twoSenders false)
      (levelOrder (quietCallees AnalysisIndex.twoSenders false) 1 [0x401000] [0x401000]) =
      [(0x401000, 0x402000)] := by decide
  have hlen := congrArg List.length (hone.symm.trans hsplit)
  obtain rfl : front = [] := by
    rw [List.length_append, List.length_cons, List.length_cons, List.length_nil] at hlen
    exact List.length_eq_zero_iff.mp (by omega)
  decide

/-- With room for one function the call is left out, and nothing says so. -/
theorem subsystem_context_not :
    letI : Host := Host.ascii true
    subsystem_context MockBackend.new AnalysisIndex.twoSenders
        (walkRequest "subsystem_context") 1 =
      .ok (.object [("roots", eaTexts [0x401000]),
        ("functions", .array [.object [("ea", .ea 0x401000), ("name", "f"),
          ("strings", .strings []), ("imports", .strings ["send"]), ("constants", eaTexts []),
          ("pseudocode_snippet", .null)]]),
        ("edges", .array []), ("truncated", false)]) ∧
    0x402000 ∈ AnalysisIndex.twoSenders.functions ∧
    Within (quietCallees AnalysisIndex.twoSenders false) [0x401000] 1 0x402000 := by
  let : Host := Host.ascii true
  have hcall : (0x402000 : U64) ∈ quietCallees AnalysisIndex.twoSenders false 0x401000 := by decide
  exact ⟨rfl, by decide, (within_of_mem (n := 0) (by simp)).tail hcall⟩

end Workflow

end ReverseMcp
