import ReverseMcp.Graph.Tarjan
import ReverseMcp.Rust.Collections

/-!
# The control-flow graph of a function

`CfgIndex` is the block adjacency list that the complexity preflight and the region partitioner
read, and `tarjan_sccs` its iterative Tarjan.  The vectors `index`, `low` and `on_stack` of the
source are the maps of `Graph.Search`: the unvisited mark `usize::MAX` is `none`, and reading or
writing them outside the blocks is a panic.

Neither loop of the source has a bound of its own.  The inner one is given one round for every block
and every edge, and `visit_spec` shows that it needs no more.
-/

namespace ReverseMcp

open Rust ReverseMcp.Graph

/-- The facts about the blocks of a function that the graph algorithms read. -/
structure CfgIndex where
  /-- Block start addresses in flow-chart order. -/
  block_eas : List U64
  /-- Successor indices per block. -/
  succs : List (List ℕ)
deriving DecidableEq, Repr

namespace CfgIndex

variable {ε : Type}

/-- The number of block edges. -/
def edge_count (idx : CfgIndex) : ℕ := (idx.succs.map List.length).sum

/-- One round of the inner loop, on the top of the call stack. -/
def round (idx : CfgIndex) (s : Search ℕ) : Outcome ε (Search ℕ) :=
  match s.call with
  | [] => .ok s
  | (v, ci) :: rest =>
    match idx.succs[v]? with
    | none => .panic .index
    | some row =>
      match row[ci]? with
      | some w =>
        if w < idx.block_eas.length then
          .ok (Search.lookAt { s with call := (v, ci + 1) :: rest } v w)
        else .panic .index
      | none => .ok (Search.emit (Search.propagate { s with call := rest } v) v)

/-- The inner loop: `while let Some(..) = call.last_mut()`. -/
def visit (idx : CfgIndex) : ℕ → Search ℕ → Outcome ε (Search ℕ)
  | fuel, s =>
    if s.call.isEmpty then .ok s
    else
      match fuel with
      | 0 => .panic .loop
      | fuel + 1 => idx.round s >>= visit idx fuel

/-- The body of the outer loop. -/
def start (idx : CfgIndex) (s : Search ℕ) (b : ℕ) : Outcome ε (Search ℕ) :=
  if (s.index b).isSome then .ok s
  else idx.visit (idx.block_eas.length + idx.edge_count) (s.enter b)

/-- The strongly connected components as lists of block indices, largest first. -/
def tarjan_sccs (idx : CfgIndex) : Outcome ε (List (List ℕ)) := do
  let s ← Outcome.foldList idx.start .new (List.range idx.block_eas.length)
  return sortByKey (fun c => Reverse.mk c.length) s.out

/-- The successors of a block. -/
def succ (idx : CfgIndex) (b : ℕ) : List ℕ := idx.succs[b]?.getD []

/-- There is one row of successors for each block, and the successors are blocks. -/
structure InRange (idx : CfgIndex) : Prop where
  rows : idx.succs.length = idx.block_eas.length
  targets : ∀ row ∈ idx.succs, ∀ w ∈ row, w < idx.block_eas.length

instance : DecidablePred InRange := fun idx =>
  decidable_of_iff (idx.succs.length = idx.block_eas.length ∧
    ∀ row ∈ idx.succs, ∀ w ∈ row, w < idx.block_eas.length)
    ⟨fun h => ⟨h.1, h.2⟩, fun h => ⟨h.rows, h.targets⟩⟩

/-! ## The loops -/

section Loops

variable {idx : CfgIndex} {s : Search ℕ}

lemma InRange.succ_lt (h : idx.InRange) {b w : ℕ} (hw : w ∈ idx.succ b) :
    w < idx.block_eas.length := by
  rw [succ] at hw
  cases hrow : idx.succs[b]? with
  | none => simp [hrow] at hw
  | some row =>
    rw [hrow] at hw
    exact h.targets row (List.mem_of_getElem? hrow) w hw

lemma InRange.closed (h : idx.InRange) : ∀ v ∈ List.range idx.block_eas.length,
    ∀ w ∈ idx.succ v, w ∈ List.range idx.block_eas.length :=
  fun _ _ _ hw => List.mem_range.mpr (h.succ_lt hw)

/-- On a graph in range no index of a round is out of bounds. -/
lemma InRange.round_eq (h : idx.InRange)
    (hinv : s.Inv idx.succ (List.range idx.block_eas.length)) :
    idx.round s = (.ok (s.step idx.succ) : Outcome ε (Search ℕ)) := by
  rw [round, Search.step]
  cases hcall : s.call with
  | nil => rfl
  | cons p rest =>
    obtain ⟨v, ci⟩ := p
    have hv : v < idx.succs.length := by
      rw [h.rows, ← List.mem_range]
      exact hinv.seen_mem v (hinv.stack_seen v (hinv.call_stack (v, ci) (by simp [hcall])))
    have hrow : idx.succs[v]? = some (idx.succ v) := by
      simp [succ, List.getElem?_eq_getElem hv]
    simp only [hrow]
    cases hw : (idx.succ v)[ci]? with
    | none => rfl
    | some w => exact if_pos (h.succ_lt (List.mem_of_getElem? hw))

/-- What a part of the search ensures: it goes on to a state with an empty call stack, and what was
seen before is still seen. -/
structure Searched (idx : CfgIndex) (s s' : Search ℕ) : Prop where
  inv : s'.Inv idx.succ (List.range idx.block_eas.length)
  call : s'.call = []
  work : s'.work idx.succ (List.range idx.block_eas.length) ≤
    s.work idx.succ (List.range idx.block_eas.length)
  seen : ∀ v, s.Seen v → s'.Seen v

lemma visit_spec (h : idx.InRange) (fuel : ℕ) :
    ∀ s : Search ℕ, s.Inv idx.succ (List.range idx.block_eas.length) →
      s.work idx.succ (List.range idx.block_eas.length) ≤ fuel →
      ∃ s', idx.visit fuel s = (.ok s' : Outcome ε (Search ℕ)) ∧ idx.Searched s s' := by
  induction fuel with
  | zero =>
    intro s hinv hwork
    have hcall : s.call = [] := by
      by_contra hne
      have hless := Search.work_step hinv List.nodup_range h.closed hne
      omega
    exact ⟨s, by simp [visit, hcall], hinv, hcall, le_rfl, fun _ hv => hv⟩
  | succ fuel ih =>
    intro s hinv hwork
    by_cases hcall : s.call = []
    · exact ⟨s, by simp [visit, hcall], hinv, hcall, le_rfl, fun _ hv => hv⟩
    · have hless := Search.work_step hinv List.nodup_range h.closed hcall
      obtain ⟨s', heq, hs'⟩ := ih (s.step idx.succ) (hinv.step h.closed) (by omega)
      refine ⟨s', ?_, hs'.inv, hs'.call, hs'.work.trans hless.le, fun v hv => hs'.seen v hv.step⟩
      rw [visit, h.round_eq hinv, Outcome.ok_bind, if_neg (by simpa using hcall)]
      exact heq

lemma work_new (h : idx.InRange) :
    (Search.new : Search ℕ).work idx.succ (List.range idx.block_eas.length) =
      idx.block_eas.length + idx.edge_count := by
  have hrows : (List.range idx.block_eas.length).map idx.succ = idx.succs := by
    refine List.ext_getElem (by simp [h.rows]) fun b hb hb' => ?_
    simp [succ, List.getElem?_eq_getElem hb']
  have hsum : ∀ vs : List ℕ, (vs.map fun v => (idx.succ v).length + 1).sum =
      vs.length + ((vs.map idx.succ).map List.length).sum := by
    intro vs
    induction vs with
    | nil => rfl
    | cons v vs ih =>
      simp only [List.map_cons, List.sum_cons, List.length_cons, ih]
      omega
  simp only [Search.work, Search.new, if_true, List.map_nil, List.sum_nil, Nat.add_zero, hsum,
    List.length_range, hrows, edge_count]

/-- One start: everything reachable from the block has been seen behind it. -/
lemma start_spec (h : idx.InRange) {b : ℕ} (hb : b < idx.block_eas.length)
    (hs : idx.Searched .new s) :
    ∃ s', idx.start s b = (.ok s' : Outcome ε (Search ℕ)) ∧ idx.Searched .new s' ∧
      s'.Seen b ∧ ∀ v, s.Seen v → s'.Seen v := by
  rw [start]
  split
  · rename_i hseen
    exact ⟨s, rfl, hs, hseen, fun _ hv => hv⟩
  · rename_i hseen
    have hmem : b ∈ List.range idx.block_eas.length := List.mem_range.mpr hb
    have henter : Search.Enters idx.succ (List.range idx.block_eas.length) s b s.call :=
      ⟨hseen, hmem, rfl, fun _ _ => .inl, by simp [hs.call]⟩
    have hinv : (s.enter b).Inv idx.succ (List.range idx.block_eas.length) := hs.inv.enter henter
    have hwork : (s.enter b).work idx.succ (List.range idx.block_eas.length) ≤
        idx.block_eas.length + idx.edge_count := by
      rw [Search.work_enter List.nodup_range hmem hseen, ← work_new h]
      exact hs.work
    obtain ⟨s', heq, hs'⟩ := visit_spec h _ _ hinv hwork
    have hseen' : ∀ v, v = b ∨ s.Seen v → s'.Seen v :=
      fun v hv => hs'.seen v (Search.seen_enter.mpr hv)
    refine ⟨s', heq, ⟨hs'.inv, hs'.call, ?_, fun v hv => ?_⟩, hseen' b (.inl rfl),
      fun v hv => hseen' v (.inr hv)⟩
    · rw [work_new h]
      exact hs'.work.trans hwork
    · simp [Search.Seen, Search.new] at hv

/-- The outer loop sees every block it starts from. -/
lemma foldList_start_spec (h : idx.InRange) (bs : List ℕ) :
    ∀ s, (∀ b ∈ bs, b < idx.block_eas.length) → idx.Searched .new s →
      ∃ s', Outcome.foldList idx.start s bs = (.ok s' : Outcome ε (Search ℕ)) ∧
        idx.Searched .new s' ∧ ∀ v, s.Seen v ∨ v ∈ bs → s'.Seen v := by
  induction bs with
  | nil =>
    intro s _ hs
    exact ⟨s, rfl, hs, fun v hv => by simpa using hv⟩
  | cons b bs ih =>
    intro s hlt hs
    obtain ⟨s₁, heq, hs₁, hb, hkeep⟩ := start_spec h (hlt b (by simp)) hs
    obtain ⟨s₂, heq₂, hs₂, hseen⟩ := ih s₁ (fun c hc => hlt c (by simp [hc])) hs₁
    refine ⟨s₂, ?_, hs₂, ?_⟩
    · rw [Outcome.foldList, heq, Outcome.ok_bind, heq₂]
    · rintro v (hv | hv)
      · exact hseen v (.inl (hkeep v hv))
      · rcases List.mem_cons.mp hv with rfl | hv
        · exact hseen v (.inl hb)
        · exact hseen v (.inr hv)

end Loops

/-- The iterative Tarjan terminates and returns the strongly connected components, each block in
exactly one of them, the larger ones first. -/
theorem tarjan_sccs_components {idx : CfgIndex} (h : idx.InRange) :
    ∃ sccs, idx.tarjan_sccs = (.ok sccs : Outcome ε (List (List ℕ))) ∧
      Components idx.succ (List.range idx.block_eas.length) sccs ∧
      sccs.Pairwise fun a b => b.length ≤ a.length := by
  have hnew : idx.Searched .new .new := ⟨Search.inv_new, rfl, le_rfl, fun _ hv => hv⟩
  obtain ⟨s, heq, hs, hseen⟩ := foldList_start_spec h (List.range idx.block_eas.length) .new
    (fun _ hb => List.mem_range.mp hb) hnew
  refine ⟨sortByKey (fun c => Reverse.mk c.length) s.out, ?_, ?_, ?_⟩
  · rw [tarjan_sccs, heq, Outcome.ok_bind, Outcome.pure_eq]
  · have hfound := hs.inv.components List.nodup_range hs.call fun v hv => hseen v (.inr hv)
    exact hfound.reorder (sortByKey_perm _ _)
  · refine (sortByKey_pairwise _ _).imp fun hle => ?_
    exact Nat.isLE_compare.mp hle

/-- On every graph in range (with self loops, repeated successors and unreachable blocks) the search
terminates without a panic; the lists it returns hold every block exactly once, are the strongly
connected components of the graph, and do not grow in length. -/
theorem tarjan_sccs_correct (idx : CfgIndex) (h : idx.InRange) :
    ∃ sccs, idx.tarjan_sccs = (.ok sccs : Outcome ε (List (List ℕ))) ∧
      sccs.flatten.Perm (List.range idx.block_eas.length) ∧
      (∀ c ∈ sccs, ∃ v ∈ c, ∀ w, w ∈ c ↔ SameScc idx.succ v w) ∧
      (∀ v < idx.block_eas.length, ∃ c ∈ sccs, ∀ w, w ∈ c ↔ SameScc idx.succ v w) ∧
      sccs.Pairwise fun a b => b.length ≤ a.length := by
  obtain ⟨sccs, heq, hcomp, hsorted⟩ := tarjan_sccs_components h
  refine ⟨sccs, heq, hcomp.perm, ?_, ?_, hsorted⟩
  · intro c hc
    obtain ⟨v, hv⟩ := List.exists_mem_of_ne_nil c (hcomp.ne_nil c hc)
    exact ⟨v, hv, hcomp.scc c hc v hv⟩
  · intro v hv
    obtain ⟨c, hc, hvc⟩ := List.mem_flatten.mp (hcomp.perm.mem_iff.mpr (List.mem_range.mpr hv))
    exact ⟨c, hc, hcomp.scc c hc v hvc⟩

/-- A loop of two blocks between an entry and an exit: 0 → 1 → 2 → 1 and 2 → 3. -/
theorem tarjan_sccs_correct_loop :
    let idx : CfgIndex := ⟨[0, 1, 2, 3], [[1], [2], [1, 3], []]⟩
    idx.InRange ∧ (idx.tarjan_sccs : Outcome Empty _) = .ok [[2, 1], [3], [0]] ∧
      ∃ sccs, idx.tarjan_sccs = (.ok sccs : Outcome Empty (List (List ℕ))) ∧
        sccs.flatten.Perm (List.range 4) ∧
        (∀ c ∈ sccs, ∃ v ∈ c, ∀ w, w ∈ c ↔ SameScc idx.succ v w) ∧
        (∀ v < 4, ∃ c ∈ sccs, ∀ w, w ∈ c ↔ SameScc idx.succ v w) ∧
        sccs.Pairwise fun a b => b.length ≤ a.length := by
  have h : InRange ⟨[0, 1, 2, 3], [[1], [2], [1, 3], []]⟩ := by decide
  exact ⟨h, by decide +kernel, tarjan_sccs_correct _ h⟩

end CfgIndex

end ReverseMcp
