import Mathlib.Data.List.Basic
import ReverseMcp.Wasm.Cfg
import ReverseMcp.Wasm.Nesting

/-!
# The regions of well-nested code

What `analyze_body` should find in the code of a function is read off the tree: the regions with
their parents and ends, and at every operator the ids of the constructs around it, which are the
labels of its branches.  `run_code` is the pass over any part of the code: it adds the regions of
that part and notes the branches, and leaves the two stacks as they were.
-/

namespace ReverseMcp.Wasm

open Rust

/-! ## What is read off the tree -/

/-- The kind of region that a construct without `else` becomes. -/
def Opener.kind : Opener → BlockKind
  | block _ => .block
  | loop _ => .loop
  | if_ _ => .if_ false
  | try_ _ => .try_
  | tryTable _ => .try_

/-- What is noted at the beginning of a construct. -/
def Opener.notices (pos : U64) : Opener → List String
  | try_ _ => [s!"try construct at {hex pos}: exception-handling proposal"]
  | tryTable _ => [s!"try construct at {hex pos}: exception-handling proposal"]
  | _ => []

/-- The construct counts against the budget of regions. -/
def Opener.counts : Opener → Bool
  | block _ => true
  | _ => false

/-- The depths that a branch names. -/
def Operator.depths : Operator → List U32
  | br depth => [depth]
  | brIf depth => [depth]
  | brTable targets default => targets ++ [default]
  | _ => []

lemma head?_append {a : String} {c : Char} (h : a.toList.head? = some c) (b : String) :
    (a ++ b).toList.head? = some c := by
  rw [String.toList_append, List.head?_append, h]
  rfl

/-- A plain operator in its place: its position, and the ids of the constructs around it, from the
inside; the last one is that of the function. -/
structure Site where
  pos : U64
  op : Operator
  labels : List ℕ

namespace Site

/-- The constructs that the operator branches to. -/
def resolved (x : Site) : List ℕ := x.op.depths.filterMap fun d => x.labels[d.val]?

/-- The branches of the operator, each with the operator's position. -/
def targets (x : Site) : List (ℕ × U64) := x.resolved.map fun id => (id, x.pos)

/-- The entry of a `br_table`. -/
def table (x : Site) : List (U64 × List ℕ) :=
  match x.op with
  | .brTable _ _ => [(x.pos, x.resolved)]
  | _ => []

/-- What is noted about a branch out of range. -/
def outOfRange (x : Site) (name : String) (depth : U32) : List String :=
  if x.labels[depth.val]? = none then
    [s!"{name} at {hex x.pos}: depth {depth.val} out of range"]
  else []

/-- What is noted at the operator. -/
def notices (x : Site) : List String :=
  match x.op with
  | .br depth => x.outOfRange "br" depth
  | .brIf depth => x.outOfRange "br_if" depth
  | .returnCall _ => [s!"tail call at {hex x.pos}: tail-call proposal"]
  | .returnCallIndirect _ _ => [s!"tail call_indirect at {hex x.pos}"]
  | _ => []

lemma outOfRange_eq {x : Site} {name : String} {depth : U32} {text : String}
    (h : text ∈ x.outOfRange name depth) :
    text = s!"{name} at {hex x.pos}: depth {depth.val} out of range" := by
  rw [outOfRange] at h
  split at h
  · exact List.mem_singleton.mp h
  · cases h

lemma notices_head {x : Site} {text : String} (h : text ∈ x.notices) :
    text.toList.head? = some 't' ∨ text.toList.head? = some 'b' := by
  obtain ⟨pos, op, labels⟩ := x
  cases op with
  | br depth =>
    rw [outOfRange_eq h]
    exact .inr (head?_append
      (head?_append (head?_append (head?_append (head?_append rfl _) _) _) _) _)
  | brIf depth =>
    rw [outOfRange_eq h]
    exact .inr (head?_append
      (head?_append (head?_append (head?_append (head?_append rfl _) _) _) _) _)
  | returnCall f =>
    rw [List.mem_singleton.mp h]
    exact .inl (head?_append (head?_append rfl _) _)
  | returnCallIndirect t table =>
    rw [List.mem_singleton.mp h]
    exact .inl (head?_append rfl _)
  | _ => cases h

end Site

namespace Code

/-- The regions of the code inside `parent`, when `next` is the next id. -/
def outlines : Code → ℕ → ℕ → List Region
  | nil, _, _ => []
  | plain _ _ rest, next, parent => rest.outlines next parent
  | construct pos opener body stop rest, next, parent =>
    ⟨next, opener.kind, pos, [], stop, some parent⟩ ::
      (body.outlines (next + 1) next ++ rest.outlines (next + 1 + body.size) parent)
  | ifElse pos _ body _ alt stop rest, next, parent =>
    ⟨next, .if_ true, pos, [], stop, some parent⟩ ::
      (body.outlines (next + 1) next ++ alt.outlines (next + 1 + body.size) next ++
        rest.outlines (next + 1 + body.size + alt.size) parent)

/-- The plain operators in their places. -/
def sites : Code → List ℕ → ℕ → List Site
  | nil, _, _ => []
  | plain pos op rest, labels, next => ⟨pos, op.val, labels⟩ :: rest.sites labels next
  | construct _ _ body _ rest, labels, next =>
    body.sites (next :: labels) (next + 1) ++ rest.sites labels (next + 1 + body.size)
  | ifElse _ _ body _ alt _ rest, labels, next =>
    body.sites (next :: labels) (next + 1) ++ alt.sites (next :: labels) (next + 1 + body.size) ++
      rest.sites labels (next + 1 + body.size + alt.size)

/-- What is noted in the code, in order. -/
def notices : Code → List ℕ → ℕ → List String
  | nil, _, _ => []
  | plain pos op rest, labels, next =>
    (Site.mk pos op.val labels).notices ++ rest.notices labels next
  | construct pos opener body _ rest, labels, next =>
    opener.notices pos ++ (body.notices (next :: labels) (next + 1) ++
      rest.notices labels (next + 1 + body.size))
  | ifElse _ _ body _ alt _ rest, labels, next =>
    body.notices (next :: labels) (next + 1) ++
      alt.notices (next :: labels) (next + 1 + body.size) ++
      rest.notices labels (next + 1 + body.size + alt.size)

/-- The blocks keep the budget of regions. -/
def Within : Code → ℕ → Prop
  | nil, _ => True
  | plain _ _ rest, next => rest.Within next
  | construct _ opener body _ rest, next =>
    (opener.counts = true → next + 1 ≤ 1000000) ∧ body.Within (next + 1) ∧
      rest.Within (next + 1 + body.size)
  | ifElse _ _ body _ alt _ rest, next =>
    body.Within (next + 1) ∧ alt.Within (next + 1 + body.size) ∧
      rest.Within (next + 1 + body.size + alt.size)

/-- The ids of the regions run from `next` on. -/
lemma outlines_ids (code : Code) (next parent : ℕ) :
    (code.outlines next parent).map Region.id = List.range' next code.size := by
  induction code generalizing next parent with
  | nil => rfl
  | plain pos op rest ih => exact ih next parent
  | construct pos opener body stop rest ihBody ihRest =>
    have hrange : List.range' next (1 + body.size + rest.size) =
        next :: (List.range' (next + 1) body.size ++
          List.range' (next + 1 + body.size) rest.size) := by
      rw [List.range'_append_1, Nat.add_assoc, Nat.add_comm 1, List.range'_succ]
    rw [outlines, List.map_cons, List.map_append, ihBody, ihRest, size, hrange]
  | ifElse pos t body mid alt stop rest ihBody ihAlt ihRest =>
    have hrange : List.range' next (1 + body.size + alt.size + rest.size) =
        next :: (List.range' (next + 1) body.size ++ List.range' (next + 1 + body.size) alt.size ++
          List.range' (next + 1 + body.size + alt.size) rest.size) := by
      rw [List.range'_append_1, Nat.add_assoc (next + 1), List.range'_append_1,
        show 1 + body.size + alt.size + rest.size = (body.size + alt.size + rest.size) + 1 by omega,
        List.range'_succ]
    rw [outlines, List.map_cons, List.map_append, List.map_append, ihBody, ihAlt, ihRest,
      size, hrange]

lemma outlines_length (code : Code) (next parent : ℕ) :
    (code.outlines next parent).length = code.size := by
  have hlength := congrArg List.length (code.outlines_ids next parent)
  rwa [List.length_map, List.length_range'] at hlength

lemma le_id {code : Code} {next parent : ℕ} {r : Region} (hr : r ∈ code.outlines next parent) :
    next ≤ r.id ∧ r.id < next + code.size := by
  have hmem : r.id ∈ List.range' next code.size :=
    code.outlines_ids next parent ▸ List.mem_map_of_mem hr
  exact List.mem_range'_1.mp hmem

/-- Branches are not noted in advance. -/
lemma outlines_sources {code : Code} {next parent : ℕ} {r : Region}
    (hr : r ∈ code.outlines next parent) : r.branch_sources = [] := by
  induction code generalizing next parent with
  | nil => cases hr
  | plain pos op rest ih => exact ih hr
  | construct pos opener body stop rest ihBody ihRest =>
    rcases List.mem_cons.mp hr with rfl | hr
    · rfl
    · rcases List.mem_append.mp hr with hr | hr
      · exact ihBody hr
      · exact ihRest hr
  | ifElse pos t body mid alt stop rest ihBody ihAlt ihRest =>
    rcases List.mem_cons.mp hr with rfl | hr
    · rfl
    · rcases List.mem_append.mp hr with hr | hr
      · rcases List.mem_append.mp hr with hr | hr
        · exact ihBody hr
        · exact ihAlt hr
      · exact ihRest hr

/-- Inside a construct its own number is a label. -/
lemma mem_labels_inner {labels : List ℕ} {next id start stop last : ℕ}
    (h : id ∈ next :: labels ∨ (start ≤ id ∧ id < stop)) (hstart : next ≤ start)
    (hstop : stop ≤ last) (hlast : next < last) : id ∈ labels ∨ (next ≤ id ∧ id < last) := by
  rcases h with h | h
  · rcases List.mem_cons.mp h with rfl | h
    · exact .inr ⟨le_rfl, hlast⟩
    · exact .inl h
  · exact .inr ⟨hstart.trans h.1, h.2.trans_le hstop⟩

/-- The labels at a site are those around the code, or constructs of it. -/
lemma mem_labels {code : Code} {labels : List ℕ} {next : ℕ} {x : Site}
    (hx : x ∈ code.sites labels next) {id : ℕ} (hid : id ∈ x.labels) :
    id ∈ labels ∨ (next ≤ id ∧ id < next + code.size) := by
  induction code generalizing labels next with
  | nil => cases hx
  | plain pos op rest ih =>
    rcases List.mem_cons.mp hx with rfl | hx
    · exact .inl hid
    · exact ih hx
  | construct pos opener body stop rest ihBody ihRest =>
    rw [size]
    rcases List.mem_append.mp hx with hx | hx
    · exact mem_labels_inner (ihBody hx) (by omega) (by omega) (by omega)
    · exact (ihRest hx).imp_right fun h => by omega
  | ifElse pos t body mid alt stop rest ihBody ihAlt ihRest =>
    rw [size]
    rcases List.mem_append.mp hx with hx | hx
    · rcases List.mem_append.mp hx with hx | hx
      · exact mem_labels_inner (ihBody hx) (by omega) (by omega) (by omega)
      · exact mem_labels_inner (ihAlt hx) (by omega) (by omega) (by omega)
    · exact (ihRest hx).imp_right fun h => by omega

/-- The code is a part and what is behind it. -/
structure Splits (code first after : Code) : Prop where
  outlines : ∀ next parent, code.outlines next parent =
    first.outlines next parent ++ after.outlines (next + first.size) parent
  sites : ∀ labels next, code.sites labels next =
    first.sites labels next ++ after.sites labels (next + first.size)
  notices : ∀ labels next, code.notices labels next =
    first.notices labels next ++ after.notices labels (next + first.size)
  within : ∀ next, code.Within next → after.Within (next + first.size)
  length : code.ops.length = first.ops.length + after.ops.length

lemma length_construct (pos : U64) (opener : Opener) (body : Code) (stop : U64) :
    (construct pos opener body stop nil).ops.length = 1 + body.ops.length + 1 := by
  simp only [ops, List.length_cons, List.length_append, List.length_nil]
  omega

lemma length_ifElse (pos : U64) (t : ℕ) (body : Code) (mid : U64) (alt : Code) (stop : U64) :
    (ifElse pos t body mid alt stop nil).ops.length =
      1 + (body.ops.length + 1 + alt.ops.length) + 1 := by
  simp only [ops, List.length_cons, List.length_append, List.length_nil]
  omega

lemma splits_plain (pos : U64) (op : Plain) (after : Code) :
    (plain pos op after).Splits (plain pos op nil) after where
  outlines _ _ := rfl
  sites _ _ := rfl
  notices labels next := by
    rw [notices, notices, notices, List.append_nil]
    rfl
  within _ h := h
  length := Nat.add_comm _ 1

lemma splits_construct (pos : U64) (opener : Opener) (body : Code) (stop : U64) (after : Code) :
    (construct pos opener body stop after).Splits (construct pos opener body stop nil) after where
  outlines next parent := by
    simp only [outlines, size, List.append_nil, List.cons_append, Nat.add_zero, ← Nat.add_assoc]
  sites labels next := by
    simp only [sites, size, List.append_nil, Nat.add_zero, ← Nat.add_assoc]
  notices labels next := by
    simp only [notices, size, List.append_nil, List.append_assoc, Nat.add_zero, ← Nat.add_assoc]
  within next h := by simpa only [size, Nat.add_zero, ← Nat.add_assoc] using h.2.2
  length := by
    simp only [ops, List.length_cons, List.length_append, List.length_nil]
    omega

lemma splits_ifElse (pos : U64) (t : ℕ) (body : Code) (mid : U64) (alt : Code) (stop : U64)
    (after : Code) : (ifElse pos t body mid alt stop after).Splits
      (ifElse pos t body mid alt stop nil) after where
  outlines next parent := by
    simp only [outlines, size, List.append_nil, List.cons_append, Nat.add_zero, ← Nat.add_assoc]
  sites labels next := by
    simp only [sites, size, List.append_nil, Nat.add_zero, ← Nat.add_assoc]
  notices labels next := by
    simp only [notices, size, List.append_nil, Nat.add_zero, ← Nat.add_assoc]
  within next h := by simpa only [size, Nat.add_zero, ← Nat.add_assoc] using h.2.2
  length := by
    simp only [ops, List.length_cons, List.length_append, List.length_nil]
    omega

end Code

/-! ## Regions that change -/

/-- A region with the branches to it. -/
def addSources (targets : List (ℕ × U64)) (r : Region) : Region :=
  { r with branch_sources :=
      r.branch_sources ++ (targets.filter fun t => t.1 = r.id).map Prod.snd }

lemma addSources_nil (r : Region) : addSources [] r = r := by
  simp [addSources]

lemma map_addSources_nil (l : List Region) : l.map (addSources []) = l :=
  (List.map_congr_left fun r _ => addSources_nil r).trans (List.map_id l)

lemma addSources_append (ts us : List (ℕ × U64)) (r : Region) :
    addSources us (addSources ts r) = addSources (ts ++ us) r := by
  simp only [addSources, List.filter_append, List.map_append, List.append_assoc]
  rfl

lemma addSources_of_forall_ne {ts : List (ℕ × U64)} {r : Region} (h : ∀ t ∈ ts, t.1 ≠ r.id) :
    addSources ts r = r := by
  have hnil : (ts.filter fun t => t.1 = r.id) = [] :=
    List.filter_eq_nil_iff.mpr fun t ht => by simpa using h t ht
  simp [addSources, hnil]

lemma map_addSources_ids (ts : List (ℕ × U64)) (l : List Region) :
    (l.map (addSources ts)).map Region.id = l.map Region.id := by
  rw [List.map_map]
  rfl

lemma updateRegion_ids {id : ℕ} {f : Region → Region} (hf : ∀ r, (f r).id = r.id)
    {l : List Region} :
    (updateRegion id f l).map Region.id = l.map Region.id := by
  induction l with
  | nil => rfl
  | cons r l ih =>
    rw [updateRegion]
    split
    · rw [List.map_cons, List.map_cons, hf]
    · rw [List.map_cons, List.map_cons, ih]

/-- The first region with the id is behind those with other ids. -/
lemma updateRegion_append {id : ℕ} {f : Region → Region} {l l' : List Region} {r : Region}
    (hl : ∀ x ∈ l, x.id ≠ id) (hr : r.id = id) :
    updateRegion id f (l ++ r :: l') = l ++ f r :: l' := by
  induction l with
  | nil => rw [List.nil_append, updateRegion, if_pos hr, List.nil_append]
  | cons x l ih =>
    rw [List.cons_append, updateRegion, if_neg (hl x List.mem_cons_self),
      ih fun y hy => hl y (List.mem_cons_of_mem _ hy), List.cons_append]

/-- Where ids are unique, a branch is added to the region with its id, if there is one. -/
lemma record_branch_regions {cfg : StructuredCfg}
    (hids : (cfg.regions.map Region.id).Nodup) (id : ℕ) (site : U64) :
    (record_branch cfg id site).regions = cfg.regions.map (addSources [(id, site)]) := by
  show updateRegion id _ cfg.regions = _
  have hne : ∀ r : Region, r.id ≠ id → addSources [(id, site)] r = r := fun r hr =>
    addSources_of_forall_ne fun t ht => by rw [List.mem_singleton.mp ht]; exact Ne.symm hr
  revert hids
  generalize cfg.regions = l
  intro hids
  induction l with
  | nil => rfl
  | cons r l ih =>
    obtain ⟨hr, hl⟩ := List.nodup_cons.mp hids
    rw [updateRegion, List.map_cons]
    by_cases hid : r.id = id
    · have hrest : l.map (addSources [(id, site)]) = l := by
        refine (List.map_congr_left fun x hx => hne x ?_).trans (List.map_id l)
        rintro rfl
        exact hr (hid ▸ List.mem_map_of_mem hx)
      rw [if_pos hid, hrest]
      simp [addSources, hid]
    · rw [if_neg hid, hne r hid, ih hl]

/-- The regions are numbered from 1 on, in the order they are opened. -/
structure CfgState.Numbered (s : CfgState) : Prop where
  ids : s.cfg.regions.map Region.id = List.range' 1 s.cfg.regions.length
  next : s.next_id = s.cfg.regions.length + 1

lemma CfgState.Numbered.nodup {s : CfgState} (h : s.Numbered) :
    (s.cfg.regions.map Region.id).Nodup := by
  rw [h.ids]
  exact List.nodup_range'

lemma CfgState.Numbered.id_lt {s : CfgState} (h : s.Numbered) {r : Region}
    (hr : r ∈ s.cfg.regions) :
    1 ≤ r.id ∧ r.id < s.next_id := by
  have hmem : r.id ∈ List.range' 1 s.cfg.regions.length := h.ids ▸ List.mem_map_of_mem hr
  have hrange := List.mem_range'_1.mp hmem
  have hnext := h.next
  omega

/-! ## The pass -/

/-- What a part of the code makes of a state: the stacks are as they were, the regions are there,
with the branches to all regions, and the rest has been noted. -/
structure CfgState.Extends (s s' : CfgState) (added : List Region) (sites : List Site)
    (notices : List String) (n : ℕ) : Prop where
  stack : s'.stack = s.stack
  open_regions : s'.open_regions = s.open_regions
  next_id : s'.next_id = s.next_id + added.length
  regions : s'.cfg.regions = (s.cfg.regions ++ added).map (addSources (sites.flatMap Site.targets))
  br_tables : s'.cfg.br_tables = s.cfg.br_tables ++ sites.flatMap Site.table
  diagnostics : s'.cfg.diagnostics = s.cfg.diagnostics ++ notices
  count : s'.cfg.operator_count = s.cfg.operator_count + n

namespace CfgState.Extends

variable {s s₁ s₂ : CfgState} {added added₁ : List Region} {sites sites₁ : List Site}
  {notices notices₁ : List String} {n n₁ : ℕ}

lemma refl (s : CfgState) : s.Extends s [] [] [] 0 :=
  ⟨rfl, rfl, rfl, by rw [List.append_nil]; exact (map_addSources_nil _).symm, by simp, by simp, rfl⟩

/-- The parts one after the other: the first does not branch into the second. -/
lemma trans (h : s.Extends s₁ added sites notices n) (h₁ : s₁.Extends s₂ added₁ sites₁ notices₁ n₁)
    (hids : ∀ t ∈ sites.flatMap Site.targets, ∀ r ∈ added₁, t.1 ≠ r.id) :
    s.Extends s₂ (added ++ added₁) (sites ++ sites₁) (notices ++ notices₁) (n + n₁) := by
  refine ⟨h₁.stack.trans h.stack, h₁.open_regions.trans h.open_regions, ?_, ?_, ?_, ?_, ?_⟩
  · rw [h₁.next_id, h.next_id, List.length_append, Nat.add_assoc]
  · have hkept : added₁.map (addSources (sites.flatMap Site.targets)) = added₁ :=
      (List.map_congr_left fun r hr => addSources_of_forall_ne fun t ht => hids t ht r hr).trans
        (List.map_id added₁)
    have hcomp :
        addSources (sites₁.flatMap Site.targets) ∘ addSources (sites.flatMap Site.targets) =
        addSources ((sites ++ sites₁).flatMap Site.targets) := by
      funext r
      rw [Function.comp_apply, addSources_append, List.flatMap_append]
    rw [h₁.regions, h.regions, ← List.append_assoc, @List.map_append _ _ _ (s.cfg.regions ++ added),
      ← hcomp]
    nth_rewrite 1 [← hkept]
    rw [List.map_append, List.map_map, List.map_map]
  · rw [h₁.br_tables, h.br_tables, List.flatMap_append, List.append_assoc]
  · rw [h₁.diagnostics, h.diagnostics, List.append_assoc]
  · rw [h₁.count, h.count, Nat.add_assoc]

/-- The added regions are numbered on. -/
lemma numbered (h : s.Extends s₁ added sites notices n) (hs : s.Numbered)
    (hadded : added.map Region.id = List.range' s.next_id added.length) : s₁.Numbered := by
  have hlength : s₁.cfg.regions.length = s.cfg.regions.length + added.length := by
    rw [h.regions, List.length_map, List.length_append]
  refine ⟨?_, ?_⟩
  · rw [hlength, h.regions, map_addSources_ids, List.map_append, hs.ids, hadded, hs.next,
      Nat.add_comm _ 1, List.range'_append_1]
  · rw [h.next_id, hlength, hs.next]
    omega

/-- A region that was opened before the part changes: it does not matter when. -/
lemma mark {r : Region} {l : List Region} {f : Region → Region}
    (h : s.Extends s₁ added sites notices n) (hregions : s.cfg.regions = l ++ [r])
    (hl : ∀ x ∈ l, x.id ≠ r.id) (hf : ∀ ts x, f (addSources ts x) = addSources ts (f x)) :
    CfgState.Extends { s with cfg := { s.cfg with regions := l ++ [f r] } }
      { s₁ with cfg := { s₁.cfg with regions := updateRegion r.id f s₁.cfg.regions } }
      added sites notices n := by
  refine ⟨h.stack, h.open_regions, h.next_id, ?_, h.br_tables, h.diagnostics, h.count⟩
  show updateRegion r.id f s₁.cfg.regions = _
  rw [h.regions, hregions]
  simp only [List.map_append, List.map_cons, List.append_assoc, List.singleton_append]
  have hr : (addSources (sites.flatMap Site.targets) r).id = r.id := rfl
  rw [updateRegion_append (fun x hx => ?_) hr, hf]
  obtain ⟨y, hy, rfl⟩ := List.mem_map.mp hx
  exact hl y hy

end CfgState.Extends

namespace CfgState

variable {s : CfgState}

/-- The branches of a `br_table`, one after the other. -/
lemma record_branches (cfg : StructuredCfg) (hids : (cfg.regions.map Region.id).Nodup)
    (ids : List ℕ) (pos : U64) :
    (ids.foldl (fun cfg id => record_branch cfg id pos) cfg) =
      { cfg with regions := cfg.regions.map (addSources (ids.map fun id => (id, pos))) } := by
  induction ids generalizing cfg with
  | nil =>
    rw [List.foldl_nil, List.map_nil, map_addSources_nil]
  | cons id ids ih =>
    have hregions := record_branch_regions hids id pos
    rw [List.foldl_cons, ih _ (by rw [hregions, map_addSources_ids]; exact hids), hregions,
      List.map_map, List.map_cons]
    have hcomp : addSources (ids.map fun id => (id, pos)) ∘ addSources [(id, pos)] =
        addSources ((id, pos) :: ids.map fun id => (id, pos)) := by
      funext r
      exact addSources_append [(id, pos)] _ r
    rw [hcomp]
    rfl

/-- A branch, in range or not. -/
lemma branch_extends (hs : s.Numbered) (name : String) (depth : U32) (pos : U64) {op : Operator}
    (hdepths : op.depths = [depth])
    (htable : (Site.mk pos op s.stack).table = [])
    (hnotices : (Site.mk pos op s.stack).notices = (Site.mk pos op s.stack).outOfRange name depth) :
    s.Extends (s.branch name depth pos) [] [⟨pos, op, s.stack⟩]
      (Site.mk pos op s.stack).notices 0 := by
  have hresolved : (Site.mk pos op s.stack).resolved = s.stack[depth.val]?.toList := by
    rw [Site.resolved, hdepths, List.filterMap_cons]
    cases s.stack[depth.val]? <;> rfl
  rw [branch, resolve_label, hnotices, Site.outOfRange]
  have hflat : [Site.mk pos op s.stack].flatMap Site.targets =
      s.stack[depth.val]?.toList.map fun id => (id, pos) := by
    rw [List.flatMap_singleton, Site.targets, hresolved]
  cases hlabel : s.stack[depth.val]? with
  | none =>
    rw [hlabel] at hflat
    refine ⟨rfl, rfl, rfl, ?_, ?_, ?_, rfl⟩
    · rw [hflat, List.append_nil]
      exact (map_addSources_nil _).symm
    · simp [htable, diagnose]
    · simp [diagnose]
  | some id =>
    rw [hlabel] at hflat
    refine ⟨rfl, rfl, rfl, ?_, ?_, ?_, rfl⟩
    · rw [hflat]
      simpa using record_branch_regions hs.nodup id pos
    · simp [htable, record_branch]
    · simp [record_branch]

/-- A plain operator. -/
lemma plain_extends (hs : s.Numbered) (pos : U64) (op : Plain) :
    ∃ s', s.operator pos op.val = .ok s' ∧
      s.Extends s' [] [⟨pos, op.val, s.stack⟩] (Site.mk pos op.val s.stack).notices 0 := by
  -- an operator that only notes something
  have hquiet : ∀ op : Operator, op.depths = [] →
      (Site.mk pos op s.stack).table = [] → ∀ notices, ∀ s' : CfgState,
      s'.stack = s.stack → s'.open_regions = s.open_regions → s'.next_id = s.next_id →
      s'.cfg.regions = s.cfg.regions → s'.cfg.br_tables = s.cfg.br_tables →
      s'.cfg.diagnostics = s.cfg.diagnostics ++ notices →
      s'.cfg.operator_count = s.cfg.operator_count →
      s.Extends s' [] [⟨pos, op, s.stack⟩] notices 0 := by
    intro op hdepths htable notices s' h₁ h₂ h₃ h₄ h₅ h₆ h₇
    have hflat : [Site.mk pos op s.stack].flatMap Site.targets = [] := by
      rw [List.flatMap_singleton, Site.targets, Site.resolved, hdepths]
      rfl
    refine ⟨h₁, h₂, h₃, ?_, ?_, h₆, h₇⟩
    · rw [hflat, h₄, List.append_nil]
      exact (map_addSources_nil _).symm
    · rw [List.flatMap_singleton, htable, List.append_nil, h₅]
  obtain ⟨op, hplain⟩ := op
  cases op with
  | block | loop | if_ | else_ | try_ | tryTable | end_ => cases hplain
  | br depth => exact ⟨_, rfl, branch_extends hs "br" depth pos rfl rfl rfl⟩
  | brIf depth => exact ⟨_, rfl, branch_extends hs "br_if" depth pos rfl rfl rfl⟩
  | brTable targets default =>
    refine ⟨_, rfl, ?_⟩
    have hresolved : targets.filterMap (resolve_label s.stack) ++
        (resolve_label s.stack default).toList =
          (Site.mk pos (.brTable targets default) s.stack).resolved := by
      show _ = (targets ++ [default]).filterMap (resolve_label s.stack)
      rw [List.filterMap_append, List.filterMap_cons]
      cases resolve_label s.stack default <;> rfl
    rw [brTable, hresolved]
    dsimp only
    rw [record_branches { s.cfg with br_tables := s.cfg.br_tables ++ [(pos, _)] } hs.nodup]
    refine ⟨rfl, rfl, rfl, ?_, ?_, (List.append_nil _).symm, rfl⟩
    · rw [List.append_nil, List.flatMap_singleton]
      rfl
    · rw [List.flatMap_singleton]
      rfl
  | returnCall f => exact ⟨_, rfl, hquiet _ rfl rfl _ _ rfl rfl rfl rfl rfl rfl rfl⟩
  | returnCallIndirect t u => exact ⟨_, rfl, hquiet _ rfl rfl _ _ rfl rfl rfl rfl rfl rfl rfl⟩
  | i32Const | i64Const | f32Const | f64Const | localGet | localSet | localTee
  | globalGet | globalSet
  | i32Load | i64Load | i32Store | i64Store | i32Arith | i32Eqz | i32Compare | call | callIndirect
  | return_ | unreachable | drop | other =>
    exact ⟨_, rfl, hquiet _ rfl rfl _ _ rfl rfl rfl rfl rfl (List.append_nil _).symm rfl⟩

end CfgState

/-! ## Constructs -/

namespace CfgState

/-- An operator is counted. -/
def counted (s : CfgState) : CfgState :=
  { s with cfg := { s.cfg with operator_count := s.cfg.operator_count + 1 } }

/-- A construct has been opened, and its region is `r`. -/
structure Opened (s s₁ : CfgState) (r : Region) (notices : List String) : Prop where
  stack : s₁.stack = s.next_id :: s.stack
  open_regions : ∃ start, s₁.open_regions = (s.next_id, start) :: s.open_regions
  next_id : s₁.next_id = s.next_id + 1
  regions : s₁.cfg.regions = s.cfg.regions ++ [r]
  id : r.id = s.next_id
  br_tables : s₁.cfg.br_tables = s.cfg.br_tables
  diagnostics : s₁.cfg.diagnostics = s.cfg.diagnostics ++ notices
  count : s₁.cfg.operator_count = s.cfg.operator_count + 1

variable {s s₁ s₂ : CfgState} {r : Region} {added : List Region} {sites : List Site}
  {notices notices₁ : List String} {n : ℕ}

lemma Numbered.counted (hs : s.Numbered) : s.counted.Numbered := ⟨hs.ids, hs.next⟩

lemma Extends.counted (h : s.Extends s₁ added sites notices n) :
    s.Extends s₁.counted added sites notices (n + 1) :=
  ⟨h.stack, h.open_regions, h.next_id, h.regions, h.br_tables, h.diagnostics,
    congrArg (· + 1) h.count⟩

/-- The operators of openers open regions. -/
lemma openRegion_opened (s : CfgState) (kind : BlockKind) (pos : U64) :
    s.Opened (s.counted.openRegion kind pos) ⟨s.next_id, kind, pos, [], 0, s.stack.head?⟩ [] :=
  ⟨rfl, ⟨pos, rfl⟩, rfl, rfl, rfl, rfl, (List.append_nil _).symm, rfl⟩

lemma Opened.diagnose (h : s.Opened s₁ r []) (text : String) :
    s.Opened (s₁.diagnose text) r [text] :=
  ⟨h.stack, h.open_regions, h.next_id, h.regions, h.id, h.br_tables,
    congrArg (· ++ [text]) (h.diagnostics.trans (List.append_nil _)), h.count⟩

/-- An operator that opens a construct, within the budget. -/
lemma operator_opened (s : CfgState) (pos : U64) (opener : Opener)
    (hwithin : opener.counts = true → s.next_id + 1 ≤ 1000000) :
    ∃ s₁, s.counted.operator pos opener.operator = .ok s₁ ∧
      s.Opened s₁ ⟨s.next_id, opener.kind, pos, [], 0, s.stack.head?⟩ (opener.notices pos) := by
  cases opener with
  | block t => exact ⟨_, if_neg (not_lt.mpr (hwithin rfl)), s.openRegion_opened .block pos⟩
  | loop t => exact ⟨_, rfl, s.openRegion_opened .loop pos⟩
  | if_ t => exact ⟨_, rfl, s.openRegion_opened (.if_ false) pos⟩
  | try_ t => exact ⟨_, rfl, (s.openRegion_opened .try_ pos).diagnose _⟩
  | tryTable t => exact ⟨_, rfl, (s.openRegion_opened .try_ pos).diagnose _⟩

lemma Opened.numbered (h : s.Opened s₁ r notices) (hs : s.Numbered) : s₁.Numbered := by
  refine ⟨?_, ?_⟩
  · rw [h.regions, List.map_append, hs.ids, List.map_singleton, h.id, hs.next, List.length_append,
      List.length_singleton, List.range'_1_concat, Nat.add_comm]
  · rw [h.next_id, h.regions, hs.next, List.length_append, List.length_singleton]

/-- The new construct is a label for the code in it. -/
lemma Opened.labels (h : s.Opened s₁ r notices) (hlabels : ∀ l ∈ s.stack, l < s.next_id) :
    ∀ l ∈ s₁.stack, l < s₁.next_id := by
  rw [h.stack, h.next_id]
  intro l hl
  rcases List.mem_cons.mp hl with rfl | hl
  · exact Nat.lt_succ_self _
  · exact (hlabels l hl).trans (Nat.lt_succ_self _)

/-- The region of an open construct changes. -/
lemma Opened.mark (h : s.Opened s₁ r notices) {f : Region → Region} (hf : (f r).id = r.id) :
    s.Opened { s₁ with cfg := { s₁.cfg with regions := s.cfg.regions ++ [f r] } } (f r) notices :=
  ⟨h.stack, h.open_regions, h.next_id, rfl, hf.trans h.id, h.br_tables, h.diagnostics, h.count⟩

/-- A construct is closed behind its code. -/
lemma Opened.close (h : s.Opened s₁ r notices) (hs : s.Numbered)
    (hext : s₁.Extends s₂ added sites notices₁ n) (stop : U64) :
    s.Extends (s₂.counted.close stop) ({ r with end_offset := stop } :: added) sites
      (notices ++ notices₁) (1 + n + 1) := by
  obtain ⟨start, hopen⟩ := h.open_regions
  have hfresh : ∀ x ∈ s.cfg.regions, x.id ≠ r.id := fun x hx heq => by
    have hlt := (hs.id_lt hx).2
    rw [heq, h.id] at hlt
    exact absurd hlt (lt_irrefl _)
  have hmark :=
    hext.mark (f := fun r => { r with end_offset := stop }) h.regions hfresh fun _ _ => rfl
  have hclose : s₂.counted.close stop =
      { cfg := { s₂.counted.cfg with
          regions := updateRegion r.id (fun r => { r with end_offset := stop }) s₂.cfg.regions }
        stack := s₂.stack.tail
        next_id := s₂.next_id
        open_regions := s.open_regions } := by
    have hs₂ : s₂.counted.open_regions = (s.next_id, start) :: s.open_regions :=
      hext.open_regions.trans hopen
    rw [CfgState.close]
    dsimp only
    rw [hs₂, ← h.id]
    rfl
  rw [hclose]
  refine ⟨?_, rfl, ?_, ?_, ?_, ?_, ?_⟩
  · show s₂.stack.tail = s.stack
    rw [hext.stack, h.stack, List.tail_cons]
  · show s₂.next_id = _
    rw [hext.next_id, h.next_id, List.length_cons]
    omega
  · refine hmark.regions.trans ?_
    simp only [List.append_assoc, List.singleton_append]
  · show s₂.cfg.br_tables = _
    rw [hext.br_tables, h.br_tables]
  · show s₂.cfg.diagnostics = _
    rw [hext.diagnostics, h.diagnostics, List.append_assoc]
  · show s₂.cfg.operator_count + 1 = _
    rw [hext.count, h.count]
    omega

/-- The mark that an `else` sets. -/
def markElse (r : Region) : Region :=
  match r.kind with
  | .if_ _ => { r with kind := .if_ true }
  | _ => r

lemma markElse_addSources (ts : List (ℕ × U64)) (r : Region) :
    markElse (addSources ts r) = addSources ts (markElse r) := by
  obtain ⟨id, kind, start, sources, stop, parent⟩ := r
  cases kind <;> rfl

lemma else_eq {id : ℕ} {stack : List ℕ} (h : s.stack = id :: stack) :
    s.else_ = { s with cfg := { s.cfg with
      regions := updateRegion id markElse s.cfg.regions } } := by
  obtain ⟨cfg, _, next_id, open_regions⟩ := s
  dsimp only at h
  subst h
  rfl

@[simp] lemma else_stack (s : CfgState) : s.else_.stack = s.stack := by
  obtain ⟨cfg, stack, next_id, open_regions⟩ := s
  cases stack <;> rfl

@[simp] lemma else_next_id (s : CfgState) : s.else_.next_id = s.next_id := by
  obtain ⟨cfg, stack, next_id, open_regions⟩ := s
  cases stack <;> rfl

@[simp] lemma else_count (s : CfgState) : s.else_.cfg.operator_count = s.cfg.operator_count := by
  obtain ⟨cfg, stack, next_id, open_regions⟩ := s
  cases stack <;> rfl

/-- An `else` does not change the numbers of the regions. -/
lemma Numbered.else_ (hs : s.Numbered) : s.else_.Numbered := by
  cases hstack : s.stack with
  | nil =>
    rw [CfgState.else_, hstack]
    exact hs
  | cons id stack =>
    have hids : (updateRegion id markElse s.cfg.regions).map Region.id =
        s.cfg.regions.map Region.id := updateRegion_ids fun r => by
      obtain ⟨id, kind, start, sources, stop, parent⟩ := r
      cases kind <;> rfl
    have hlength := congrArg List.length hids
    rw [List.length_map, List.length_map] at hlength
    rw [else_eq hstack]
    exact ⟨by rw [hids, hs.ids, hlength], hs.next.trans (by rw [hlength])⟩

/-- An `else` marks the region of the construct around it. -/
lemma Opened.else_ (h : s.Opened s₁ r notices) (hs : s.Numbered)
    (hext : s₁.Extends s₂ added sites notices₁ n) (hr : (markElse r).id = r.id) :
    ∃ s₁', s.Opened s₁' (markElse r) notices ∧
      s₁'.Extends s₂.counted.else_ added sites notices₁ (n + 1) := by
  have hfresh : ∀ x ∈ s.cfg.regions, x.id ≠ r.id := fun x hx heq => by
    have hlt := (hs.id_lt hx).2
    rw [heq, h.id] at hlt
    exact absurd hlt (lt_irrefl _)
  have helse : s₂.counted.else_ = counted { s₂ with cfg := { s₂.cfg with
      regions := updateRegion r.id markElse s₂.cfg.regions } } := by
    have hstack : s₂.counted.stack = r.id :: s.stack := by
      rw [h.id]
      exact hext.stack.trans h.stack
    exact else_eq hstack
  rw [helse]
  exact ⟨_, h.mark hr, (hext.mark h.regions hfresh markElse_addSources).counted⟩

end CfgState

/-! ## The pass over code -/

section Run

variable {eof : U64} {s s' : CfgState}

/-- One operator of the pass, unless it is the last `end`. -/
lemma run_step {pos : U64} {op : Operator} {ops : List (U64 × Operator)}
    (hcount : s.cfg.operator_count + 1 ≤ 5000000) (hop : s.counted.operator pos op = .ok s')
    (hgo : op = .end_ → s'.stack ≠ []) :
    CfgState.run (.ofList eof ((pos, op) :: ops)) s = CfgState.run (.ofList eof ops) s' := by
  have hgo' : ¬ (op = .end_ ∧ s'.stack.isEmpty = true) := fun h =>
    hgo h.1 (List.isEmpty_iff.mp h.2)
  rw [OperatorsReader.ofList, CfgState.run]
  dsimp only
  rw [if_neg (not_lt.mpr hcount)]
  show (s.counted.operator pos op >>= _) = _
  rw [hop, Outcome.ok_bind, if_neg hgo']

/-- The branches of code go to the labels around it, or to its own constructs. -/
lemma targets_bound {code : Code} {labels : List ℕ} {next : ℕ} {t : ℕ × U64}
    (ht : t ∈ (code.sites labels next).flatMap Site.targets) :
    t.1 ∈ labels ∨ (next ≤ t.1 ∧ t.1 < next + code.size) := by
  obtain ⟨x, hx, ht⟩ := List.mem_flatMap.mp ht
  obtain ⟨id, hid, rfl⟩ := List.mem_map.mp ht
  obtain ⟨depth, -, hdepth⟩ := List.mem_filterMap.mp hid
  exact Code.mem_labels hx (List.mem_of_getElem? hdepth)

/-- Code branches to no region of the code behind it. -/
lemma targets_ne {code after : Code} {labels : List ℕ} {next next' parent : ℕ}
    (hlabels : ∀ l ∈ labels, l < next') (hnext : next + code.size ≤ next') :
    ∀ t ∈ (code.sites labels next).flatMap Site.targets, ∀ r ∈ after.outlines next' parent,
      t.1 ≠ r.id := by
  intro t ht r hr heq
  have hid := (Code.le_id hr).1
  rcases targets_bound ht with h | h
  · have hlt := hlabels _ h
    omega
  · omega

/-- The pass has been over a part of the code that is nested in nothing else. -/
abbrev Passed (s s' : CfgState) (code : Code) (parent : ℕ) : Prop :=
  s.Extends s' (code.outlines s.next_id parent) (code.sites s.stack s.next_id)
    (code.notices s.stack s.next_id) code.ops.length

namespace Passed

variable {code after : Code} {parent : ℕ}

lemma next_id (h : Passed s s' code parent) : s'.next_id = s.next_id + code.size := by
  rw [CfgState.Extends.next_id h, Code.outlines_length]

lemma numbered (h : Passed s s' code parent) (hs : s.Numbered) : s'.Numbered :=
  CfgState.Extends.numbered h hs (by rw [Code.outlines_ids, Code.outlines_length])

lemma labels (h : Passed s s' code parent) (hlabels : ∀ l ∈ s.stack, l < s.next_id) :
    ∀ l ∈ s'.stack, l < s'.next_id := by
  rw [CfgState.Extends.stack h, h.next_id]
  exact fun l hl => (hlabels l hl).trans_le (Nat.le_add_right _ _)

/-- A part of the code and what is behind it. -/
lemma trans {s'' : CfgState} {whole : Code} (h : Passed s s' code parent)
    (h' : Passed s' s'' after parent) (hsplits : whole.Splits code after)
    (hlabels : ∀ l ∈ s.stack, l < s.next_id) : Passed s s'' whole parent := by
  rw [Passed, CfgState.Extends.stack h, h.next_id] at h'
  rw [Passed, hsplits.outlines, hsplits.sites, hsplits.notices, hsplits.length]
  exact CfgState.Extends.trans h h'
    (targets_ne (fun l hl => (hlabels l hl).trans_le (Nat.le_add_right _ _)) le_rfl)

end Passed

/-- The state behind the first branch of a conditional and its `else`. -/
structure AtElse (s s' : CfgState) (body : Code) : Prop where
  stack : s'.counted.else_.stack = s.next_id :: s.stack
  next_id : s'.counted.else_.next_id = s.next_id + 1 + body.size
  count : s'.counted.else_.cfg.operator_count = s'.cfg.operator_count + 1
  numbered : s'.counted.else_.Numbered
  labels : ∀ l ∈ s'.counted.else_.stack, l < s'.counted.else_.next_id

lemma atElse {s₁ : CfgState} {body : Code} {r : Region} {notices : List String}
    (hopened : s.Opened s₁ r notices) (hs : s.Numbered) (hlabels : ∀ l ∈ s.stack, l < s.next_id)
    (hbody : Passed s₁ s' body s.next_id) : AtElse s s' body where
  stack := by
    rw [CfgState.else_stack]
    exact hbody.stack.trans hopened.stack
  next_id := by
    rw [CfgState.else_next_id]
    exact hbody.next_id.trans (by rw [hopened.next_id])
  count := CfgState.else_count _
  numbered := CfgState.Numbered.else_
    (CfgState.Numbered.counted (hbody.numbered (hopened.numbered hs)))
  labels := by
    rw [CfgState.else_stack, CfgState.else_next_id]
    exact hbody.labels (hopened.labels hlabels)

/-- The `else` between the branches. -/
lemma run_else {mid : U64} {ops : List (U64 × Operator)}
    (hcount : s.cfg.operator_count + 1 ≤ 5000000) :
    CfgState.run (.ofList eof ((mid, .else_) :: ops)) s =
      CfgState.run (.ofList eof ops) s.counted.else_ :=
  run_step hcount rfl fun h => by cases h

/-- The pass over a part of the code. -/
lemma run_code (eof : U64) (code : Code) {parent : ℕ} (rest : List (U64 × Operator))
    (hs : s.Numbered)
    (hlabels : ∀ l ∈ s.stack, l < s.next_id) (hparent : s.stack.head? = some parent)
    (hcount : s.cfg.operator_count + code.ops.length ≤ 5000000) (hwithin : code.Within s.next_id) :
    ∃ s', CfgState.run (.ofList eof (code.ops ++ rest)) s = CfgState.run (.ofList eof rest) s' ∧
      Passed s s' code parent := by
  have hne : s.stack ≠ [] := by
    rintro hnil
    rw [hnil] at hparent
    cases hparent
  induction code generalizing s parent rest with
  | nil => exact ⟨s, rfl, .refl s⟩
  | plain pos op after ih =>
    have hsplits := Code.splits_plain pos op after
    have hlen := hsplits.length
    have hone : (Code.plain pos op .nil).ops.length = 1 := rfl
    obtain ⟨s₁, hop, hext⟩ := CfgState.plain_extends hs.counted pos op
    have hend : op.val ≠ .end_ := fun h => absurd op.property (by rw [h]; exact Bool.false_ne_true)
    have hfirst : Passed s s₁ (.plain pos op .nil) parent :=
      ⟨hext.stack, hext.open_regions, hext.next_id, hext.regions, hext.br_tables,
        hext.diagnostics.trans (by rw [Code.notices, Code.notices, List.append_nil]; rfl),
        hext.count⟩
    have hcount₁ := CfgState.Extends.count hfirst
    obtain ⟨s', hrun, hrest⟩ := @ih s₁ parent rest (hfirst.numbered hs) (hfirst.labels hlabels)
      (by rw [hfirst.stack]; exact hparent) (by omega)
      (by rw [hfirst.next_id]; exact hsplits.within _ hwithin) (by rw [hfirst.stack]; exact hne)
    refine ⟨s', ?_, hfirst.trans hrest hsplits hlabels⟩
    rw [← hrun]
    exact run_step (by omega) hop fun h => absurd h hend
  | construct pos opener body stop after ihBody ihAfter =>
    have hsplits := Code.splits_construct pos opener body stop after
    have hlen := hsplits.length
    have hlen₁ := Code.length_construct pos opener body stop
    obtain ⟨hblock, hbody, -⟩ := id hwithin
    -- the construct is opened, and closed behind its code
    obtain ⟨s₁, hop, hopened⟩ := s.operator_opened pos opener hblock
    have hopen : s₁.stack ≠ [] := hopened.stack ▸ List.cons_ne_nil _ _
    have hcount₁ := hopened.count
    obtain ⟨s₂, hrun₂, hext₂⟩ := @ihBody s₁ s.next_id ((stop, .end_) :: (after.ops ++ rest))
      (hopened.numbered hs) (hopened.labels hlabels) (by rw [hopened.stack]; rfl) (by omega)
      (by rw [hopened.next_id]; exact hbody) hopen
    have hcount₂ := hext₂.count
    rw [Passed, hopened.stack, hopened.next_id] at hext₂
    have hclosed := hopened.close hs hext₂ stop
    have hfirst :
        Passed s (s₂.counted.close stop) (.construct pos opener body stop .nil) parent := by
      rw [Passed, hlen₁]
      rw [hparent] at hclosed
      simpa only [Code.outlines, Code.sites, Code.notices, List.append_nil] using hclosed
    have hcount₃ := CfgState.Extends.count hfirst
    obtain ⟨s', hrun', hrest⟩ := @ihAfter (s₂.counted.close stop) parent rest (hfirst.numbered hs)
      (hfirst.labels hlabels) (by rw [hfirst.stack]; exact hparent) (by omega)
      (by rw [hfirst.next_id]; exact hsplits.within _ hwithin) (by rw [hfirst.stack]; exact hne)
    refine ⟨s', ?_, hfirst.trans hrest hsplits hlabels⟩
    rw [← hrun', Code.ops, List.cons_append, run_step (by omega) hop fun _ => hopen,
      List.append_assoc, List.cons_append, hrun₂]
    exact run_step (by omega) rfl fun _ => by rw [hfirst.stack]; exact hne
  | ifElse pos t body mid alt stop after ihBody ihAlt ihAfter =>
    have hsplits := Code.splits_ifElse pos t body mid alt stop after
    have hlen := hsplits.length
    have hlen₁ := Code.length_ifElse pos t body mid alt stop
    obtain ⟨hbody, halt, -⟩ := id hwithin
    obtain ⟨s₁, hop, hopened⟩ := s.operator_opened pos (.if_ t)
      fun h => absurd h Bool.false_ne_true
    have hopen : s₁.stack ≠ [] := hopened.stack ▸ List.cons_ne_nil _ _
    have hcount₁ := hopened.count
    obtain ⟨s₂, hrun₂, hext₂⟩ := @ihBody s₁ s.next_id
      ((mid, .else_) :: (alt.ops ++ (stop, .end_) :: (after.ops ++ rest)))
      (hopened.numbered hs) (hopened.labels hlabels) (by rw [hopened.stack]; rfl) (by omega)
      (by rw [hopened.next_id]; exact hbody) hopen
    have hcount₂ := hext₂.count
    -- the mark of the `else` might as well have been there from the beginning
    obtain ⟨s₁', hopened', hext'⟩ := hopened.else_ hs hext₂ rfl
    obtain ⟨hstack', hnext', -, hnumbered', hlabels'⟩ := atElse hopened hs hlabels hext₂
    have hcount' := hext'.count
    have hcount₁' := hopened'.count
    obtain ⟨s₃, hrun₃, hext₃⟩ := @ihAlt s₂.counted.else_ s.next_id
      ((stop, .end_) :: (after.ops ++ rest)) hnumbered' hlabels' (by rw [hstack']; rfl) (by omega)
      (by rw [hnext']; exact halt) (by rw [hstack']; exact List.cons_ne_nil _ _)
    have hcount₃ := hext₃.count
    rw [Passed, hstack', hnext'] at hext₃
    rw [hopened.stack, hopened.next_id] at hext'
    have hboth := hext'.trans hext₃ (targets_ne (fun l hl => by
      have hlt := hopened'.labels hlabels l (by rw [hopened'.stack]; exact hl)
      rw [hopened'.next_id] at hlt
      omega) le_rfl)
    have hclosed := hopened'.close hs hboth stop
    have hfirst :
        Passed s (s₃.counted.close stop) (.ifElse pos t body mid alt stop .nil) parent := by
      rw [hparent] at hclosed
      rw [Passed, hlen₁]
      simp only [Code.outlines, Code.sites, Code.notices, List.append_nil]
      exact hclosed
    have hcount₄ := CfgState.Extends.count hfirst
    obtain ⟨s', hrun', hrest⟩ := @ihAfter (s₃.counted.close stop) parent rest (hfirst.numbered hs)
      (hfirst.labels hlabels) (by rw [hfirst.stack]; exact hparent) (by omega)
      (by rw [hfirst.next_id]; exact hsplits.within _ hwithin) (by rw [hfirst.stack]; exact hne)
    refine ⟨s', ?_, hfirst.trans hrest hsplits hlabels⟩
    have hif : s.counted.operator pos (.if_ t) = .ok s₁ := hop
    rw [← hrun', Code.ops, List.cons_append, run_step (by omega) hif fun _ => hopen,
      List.append_assoc, List.cons_append, List.append_assoc, List.cons_append, hrun₂,
      run_else (by omega), hrun₃]
    exact run_step (by omega) rfl fun _ => by rw [hfirst.stack]; exact hne

lemma run_step_ok {pos : U64} {op : Operator} {ops : List (U64 × Operator)} {cfg : StructuredCfg}
    (h : CfgState.run (.ofList eof ((pos, op) :: ops)) s = .ok cfg) :
    s.cfg.operator_count + 1 ≤ 5000000 ∧ ∃ s', s.counted.operator pos op = .ok s' := by
  rw [OperatorsReader.ofList, CfgState.run] at h
  dsimp only at h
  split at h
  · cases h
  · rename_i hcount
    refine ⟨not_lt.mp hcount, ?_⟩
    obtain ⟨s', hs', -⟩ := Outcome.bind_eq_ok.mp h
    exact ⟨s', hs'⟩

lemma operator_opened_budget {pos : U64} {opener : Opener}
    (h : s.counted.operator pos opener.operator = .ok s') :
    opener.counts = true → s.next_id + 1 ≤ 1000000 := by
  intro hcounts
  cases opener with
  | block t =>
    by_contra hlt
    have herr : s.counted.operator pos (.block t) = .err (.budget "region count") :=
      if_pos (not_le.mp hlt)
    rw [show (Opener.block t).operator = .block t from rfl, herr] at h
    cases h
  | _ => cases hcounts

/-- Code within the budgets, and what is behind it. -/
lemma Passed.budget {code after : Code} {parent : ℕ} (h : Passed s s' code parent)
    (hafter : s'.cfg.operator_count + after.ops.length ≤ 5000000 ∧ after.Within s'.next_id) :
    s.cfg.operator_count + code.ops.length + after.ops.length ≤ 5000000 ∧
      after.Within (s.next_id + code.size) := by
  rwa [CfgState.Extends.count h, h.next_id] at hafter

/-- A pass that goes well is within the budgets. -/
lemma run_code_budget (code : Code) {parent : ℕ} {rest : List (U64 × Operator)}
    {cfg : StructuredCfg} (hs : s.Numbered) (hlabels : ∀ l ∈ s.stack, l < s.next_id)
    (hparent : s.stack.head? = some parent) (hcount : s.cfg.operator_count ≤ 5000000)
    (hrun : CfgState.run (.ofList eof (code.ops ++ rest)) s = .ok cfg) :
    s.cfg.operator_count + code.ops.length ≤ 5000000 ∧ code.Within s.next_id := by
  have hne : s.stack ≠ [] := by
    rintro hnil
    rw [hnil] at hparent
    cases hparent
  induction code generalizing s parent rest with
  | nil => exact ⟨hcount, trivial⟩
  | plain pos op after ih =>
    have hsplits := Code.splits_plain pos op after
    have hlen := hsplits.length
    obtain ⟨hone, -⟩ := run_step_ok hrun
    have hops : (Code.plain pos op after).ops = (Code.plain pos op .nil).ops ++ after.ops := rfl
    obtain ⟨s', hrun', hfirst⟩ := run_code eof (.plain pos op .nil) (after.ops ++ rest) hs
      hlabels hparent hone trivial
    have hcount' := CfgState.Extends.count hfirst
    have hone' : (Code.plain pos op .nil).ops.length = 1 := rfl
    rw [hops, List.append_assoc, hrun'] at hrun
    have hafter := hfirst.budget (@ih s' parent rest (hfirst.numbered hs) (hfirst.labels hlabels)
      (by rw [hfirst.stack]; exact hparent) (by omega) hrun (by rw [hfirst.stack]; exact hne))
    exact ⟨by omega, hafter.2⟩
  | construct pos opener body stop after ihBody ihAfter =>
    have hsplits := Code.splits_construct pos opener body stop after
    have hlen := hsplits.length
    have hlen₁ := Code.length_construct pos opener body stop
    have hops : (Code.construct pos opener body stop after).ops ++ rest =
        (pos, opener.operator) :: (body.ops ++ (stop, .end_) :: (after.ops ++ rest)) := by
      simp only [Code.ops, List.cons_append, List.append_assoc]
    have hops₁ : (Code.construct pos opener body stop after).ops ++ rest =
        (Code.construct pos opener body stop .nil).ops ++ (after.ops ++ rest) := by
      simp only [Code.ops, List.cons_append, List.append_assoc, List.nil_append]
    -- the budgets of the construct
    have hinner := hops ▸ hrun
    obtain ⟨hone, s₁, hop⟩ := run_step_ok hinner
    have hblock := operator_opened_budget hop
    obtain ⟨s₁, hop, hopened⟩ := s.operator_opened pos opener hblock
    have hopen : s₁.stack ≠ [] := hopened.stack ▸ List.cons_ne_nil _ _
    have hcount₁ := hopened.count
    rw [run_step hone hop fun _ => hopen] at hinner
    obtain ⟨hbody, hwithin⟩ := @ihBody s₁ s.next_id _ (hopened.numbered hs) (hopened.labels hlabels)
      (by rw [hopened.stack]; rfl) (by omega) hinner hopen
    obtain ⟨s₂, hrun₂, hext₂⟩ := run_code eof body ((stop, .end_) :: (after.ops ++ rest))
      (hopened.numbered hs) (hopened.labels hlabels) (by rw [hopened.stack]; rfl) hbody hwithin
    have hcount₂ := hext₂.count
    rw [hrun₂] at hinner
    obtain ⟨hend, -⟩ := run_step_ok hinner
    rw [hopened.next_id] at hwithin
    -- what is behind it
    obtain ⟨s', hrun', hfirst⟩ := run_code eof (.construct pos opener body stop .nil)
      (after.ops ++ rest) hs hlabels hparent (by omega) ⟨hblock, hwithin, trivial⟩
    have hcount' := CfgState.Extends.count hfirst
    rw [hops₁, hrun'] at hrun
    have hafter :=
      hfirst.budget (@ihAfter s' parent rest (hfirst.numbered hs) (hfirst.labels hlabels)
      (by rw [hfirst.stack]; exact hparent) (by omega) hrun (by rw [hfirst.stack]; exact hne))
    refine ⟨by omega, hblock, hwithin, ?_⟩
    simpa only [Code.size, Nat.add_zero, ← Nat.add_assoc] using hafter.2
  | ifElse pos t body mid alt stop after ihBody ihAlt ihAfter =>
    have hsplits := Code.splits_ifElse pos t body mid alt stop after
    have hlen := hsplits.length
    have hlen₁ := Code.length_ifElse pos t body mid alt stop
    have hops : (Code.ifElse pos t body mid alt stop after).ops ++ rest =
        (pos, .if_ t) :: (body.ops ++ (mid, .else_) :: (alt.ops ++ (stop, .end_) ::
          (after.ops ++ rest))) := by
      simp only [Code.ops, List.cons_append, List.append_assoc]
    have hops₁ : (Code.ifElse pos t body mid alt stop after).ops ++ rest =
        (Code.ifElse pos t body mid alt stop .nil).ops ++ (after.ops ++ rest) := by
      simp only [Code.ops, List.cons_append, List.append_assoc, List.nil_append]
    have hinner := hops ▸ hrun
    obtain ⟨hone, -⟩ := run_step_ok hinner
    obtain ⟨s₁, hop, hopened⟩ := s.operator_opened pos (.if_ t)
      fun h => absurd h Bool.false_ne_true
    have hopen : s₁.stack ≠ [] := hopened.stack ▸ List.cons_ne_nil _ _
    have hcount₁ := hopened.count
    have hif : s.counted.operator pos (.if_ t) = .ok s₁ := hop
    rw [run_step hone hif fun _ => hopen] at hinner
    obtain ⟨hbody, hwithin⟩ := @ihBody s₁ s.next_id _ (hopened.numbered hs) (hopened.labels hlabels)
      (by rw [hopened.stack]; rfl) (by omega) hinner hopen
    obtain ⟨s₂, hrun₂, hext₂⟩ := run_code eof body ((mid, .else_) :: (alt.ops ++
      (stop, .end_) :: (after.ops ++ rest))) (hopened.numbered hs) (hopened.labels hlabels)
      (by rw [hopened.stack]; rfl) hbody hwithin
    have hcount₂ := hext₂.count
    rw [hrun₂] at hinner
    obtain ⟨hmid, -⟩ := run_step_ok hinner
    rw [run_else hmid] at hinner
    obtain ⟨hstack', hnext', hcount', hnumbered', hlabels'⟩ := atElse hopened hs hlabels hext₂
    obtain ⟨halt, hwithin'⟩ := @ihAlt s₂.counted.else_ s.next_id _ hnumbered' hlabels'
      (by rw [hstack']; rfl) (by omega) hinner (by rw [hstack']; exact List.cons_ne_nil _ _)
    obtain ⟨s₃, hrun₃, hext₃⟩ := run_code eof alt ((stop, .end_) :: (after.ops ++ rest))
      hnumbered' hlabels' (by rw [hstack']; rfl) halt hwithin'
    have hcount₃ := hext₃.count
    rw [hrun₃] at hinner
    obtain ⟨hend, -⟩ := run_step_ok hinner
    rw [hopened.next_id] at hwithin
    rw [hnext'] at hwithin'
    obtain ⟨s', hrun', hfirst⟩ := run_code eof (.ifElse pos t body mid alt stop .nil)
      (after.ops ++ rest) hs hlabels hparent (by omega) ⟨hwithin, hwithin', trivial⟩
    have hcount₄ := CfgState.Extends.count hfirst
    rw [hops₁, hrun'] at hrun
    have hafter :=
      hfirst.budget (@ihAfter s' parent rest (hfirst.numbered hs) (hfirst.labels hlabels)
      (by rw [hfirst.stack]; exact hparent) (by omega) hrun (by rw [hfirst.stack]; exact hne))
    refine ⟨by omega, hwithin, hwithin', ?_⟩
    simpa only [Code.size, Nat.add_zero, ← Nat.add_assoc] using hafter.2

end Run

lemma updateRegion_of_forall_ne {id : ℕ} {f : Region → Region} {l : List Region}
    (h : ∀ x ∈ l, x.id ≠ id) : updateRegion id f l = l := by
  induction l with
  | nil => rfl
  | cons x l ih =>
    rw [updateRegion, if_neg (h x List.mem_cons_self),
      ih fun y hy => h y (List.mem_cons_of_mem _ hy)]

/-- The pass over a function. -/
lemma analyze_body_code [Wasmparser] {body : List U8} {code : Code} {stop eof : U64}
    (hreads : Wasmparser.operators body = .ofList eof (code.function stop))
    (hlength : (code.function stop).length ≤ 5000000) (hwithin : code.Within 1) :
    ∃ cfg, analyze_body body = .ok cfg ∧
      cfg.regions = (code.outlines 1 0).map (addSources ((code.sites [0] 1).flatMap Site.targets)) ∧
      cfg.br_tables = (code.sites [0] 1).flatMap Site.table ∧
      cfg.diagnostics = code.notices [0] 1 := by
  rw [Code.function, List.length_append, List.length_singleton] at hlength
  obtain ⟨s, hrun, hext⟩ := run_code eof (s := ⟨.default, [0], 1, [(0, 0)]⟩) code
    [(stop, .end_)] ⟨rfl, rfl⟩ (by simp) rfl
    (by show 0 + _ ≤ _; omega) hwithin
  have hcount : s.cfg.operator_count = 0 + code.ops.length := CfgState.Extends.count hext
  have hstack : s.stack = [0] := CfgState.Extends.stack hext
  have hopen : s.counted.open_regions = [(0, 0)] := CfgState.Extends.open_regions hext
  have hregions : s.cfg.regions = ([] ++ code.outlines 1 0).map _ := CfgState.Extends.regions hext
  -- the function is not in the list of regions
  have hnone : ∀ x ∈ s.cfg.regions, x.id ≠ 0 := by
    intro x hx
    rw [hregions] at hx
    obtain ⟨y, hy, rfl⟩ := List.mem_map.mp hx
    exact Nat.ne_of_gt (Code.le_id hy).1
  have hclose : s.counted.close stop =
      { s.counted with stack := [], open_regions := [] } := by
    rw [CfgState.close]
    dsimp only
    rw [hopen]
    dsimp only
    show CfgState.mk
      { s.counted.cfg with regions := updateRegion 0 _ s.cfg.regions } s.stack.tail _ _ = _
    rw [updateRegion_of_forall_ne hnone, hstack]
    rfl
  refine ⟨s.counted.cfg, ?_, hregions, CfgState.Extends.br_tables hext,
    CfgState.Extends.diagnostics hext⟩
  rw [analyze_body, hreads, Code.function, hrun, OperatorsReader.ofList, CfgState.run]
  dsimp only
  rw [if_neg (by omega)]
  show (Outcome.ok (s.counted.close stop) >>= _) = _
  rw [Outcome.ok_bind, hclose]
  rfl

/-- The pass goes well within the budgets only. -/
lemma analyze_body_budget [Wasmparser] {body : List U8} {code : Code} {stop eof : U64}
    {cfg : StructuredCfg} (hreads : Wasmparser.operators body = .ofList eof (code.function stop))
    (h : analyze_body body = .ok cfg) :
    (code.function stop).length ≤ 5000000 ∧ code.Within 1 := by
  rw [analyze_body, hreads, Code.function] at h
  have hlabels : ∀ l ∈ [0], l < 1 := by simp
  obtain ⟨hlength, hwithin⟩ := run_code_budget code ⟨rfl, rfl⟩ hlabels rfl (Nat.zero_le _) h
  obtain ⟨s, hrun, hext⟩ := run_code eof code [(stop, .end_)] ⟨rfl, rfl⟩ hlabels rfl hlength
    hwithin
  rw [hrun] at h
  have hcount : s.cfg.operator_count = 0 + code.ops.length := CfgState.Extends.count hext
  obtain ⟨hlast, -⟩ := run_step_ok h
  refine ⟨?_, hwithin⟩
  rw [Code.function, List.length_append, List.length_singleton]
  omega

/-! ## Nested intervals -/

/-- The construct of `r` is around that of `x`. -/
def Region.Encloses (r x : Region) : Prop :=
  r.start_offset < x.start_offset ∧ x.end_offset < r.end_offset

/-- The parent of `r` is the innermost one of the regions around it, or `outer` if there is none. -/
def Region.ParentIn (outer : ℕ) (l : List Region) (r : Region) : Prop :=
  ∃ p < r.id, r.parent = some p ∧
    ((p = outer ∧ ∀ q ∈ l, ¬ q.Encloses r) ∨
      ∃ q ∈ l, q.id = p ∧ q.Encloses r ∧ ∀ q' ∈ l, q'.Encloses r → q' = q ∨ q'.Encloses q)

/-- The regions of code in `outer`: each is an interval, of two of them the first is around the
other or before it, and the parents are those that the intervals give. -/
structure Forest (outer : ℕ) (l : List Region) : Prop where
  spans : ∀ r ∈ l, r.start_offset < r.end_offset
  apart : l.Pairwise fun r x => r.Encloses x ∨ r.end_offset < x.start_offset
  parents : ∀ r ∈ l, r.ParentIn outer l

namespace Forest

variable {outer : ℕ} {l l' : List Region} {r : Region}

lemma nil : Forest outer [] := ⟨by simp, .nil, by simp⟩

/-- The regions are listed in the order of their starts. -/
lemma starts (h : Forest outer l) : (l.map Region.start_offset).Pairwise (· < ·) := by
  rw [List.pairwise_map]
  refine h.apart.imp_of_mem fun {r x} hr _ hrx => ?_
  rcases hrx with hrx | hrx
  · exact hrx.1
  · exact (h.spans r hr).trans hrx

/-- Code behind code. -/
lemma append (h : Forest outer l) (h' : Forest outer l')
    (hbefore : ∀ r ∈ l, ∀ x ∈ l', r.end_offset < x.start_offset) : Forest outer (l ++ l') := by
  have hleft : ∀ q ∈ l, ∀ x ∈ l', ¬ q.Encloses x := fun q hq x hx hqx =>
    absurd ((hbefore q hq x hx).trans (h'.spans x hx)) hqx.2.not_gt
  have hright : ∀ q ∈ l', ∀ x ∈ l, ¬ q.Encloses x := fun q hq x hx hqx =>
    absurd ((h.spans x hx).trans (hbefore x hx q hq)) hqx.1.not_gt
  refine ⟨?_, ?_, ?_⟩
  · intro r hr
    rcases List.mem_append.mp hr with hr | hr
    · exact h.spans r hr
    · exact h'.spans r hr
  · exact List.pairwise_append.mpr ⟨h.apart, h'.apart, fun r hr x hx => .inr (hbefore r hr x hx)⟩
  · intro r hr
    rcases List.mem_append.mp hr with hr | hr
    · obtain ⟨p, hp, hparent, ⟨houter, hnone⟩ | ⟨q, hq, hid, hqr, hinner⟩⟩ := h.parents r hr
      · refine ⟨p, hp, hparent, .inl ⟨houter, fun q hq => ?_⟩⟩
        rcases List.mem_append.mp hq with hq | hq
        · exact hnone q hq
        · exact hright q hq r hr
      · refine ⟨p, hp, hparent,
          .inr ⟨q, List.mem_append_left _ hq, hid, hqr, fun q' hq' hqr' => ?_⟩⟩
        rcases List.mem_append.mp hq' with hq' | hq'
        · exact hinner q' hq' hqr'
        · exact absurd hqr' (hright q' hq' r hr)
    · obtain ⟨p, hp, hparent, ⟨houter, hnone⟩ | ⟨q, hq, hid, hqr, hinner⟩⟩ := h'.parents r hr
      · refine ⟨p, hp, hparent, .inl ⟨houter, fun q hq => ?_⟩⟩
        rcases List.mem_append.mp hq with hq | hq
        · exact hleft q hq r hr
        · exact hnone q hq
      · refine ⟨p, hp, hparent,
          .inr ⟨q, List.mem_append_right _ hq, hid, hqr, fun q' hq' hqr' => ?_⟩⟩
        rcases List.mem_append.mp hq' with hq' | hq'
        · exact absurd hqr' (hleft q' hq' r hr)
        · exact hinner q' hq' hqr'

/-- A construct around code. -/
lemma wrap (h : Forest r.id l) (hspan : r.start_offset < r.end_offset)
    (hinside : ∀ x ∈ l, r.Encloses x) (hparent : r.parent = some outer) (hid : outer < r.id) :
    Forest outer (r :: l) := by
  refine ⟨?_, ?_, ?_⟩
  · exact List.forall_mem_cons.mpr ⟨hspan, h.spans⟩
  · exact List.pairwise_cons.mpr ⟨fun x hx => .inl (hinside x hx), h.apart⟩
  · intro x hx
    rcases List.mem_cons.mp hx with rfl | hx
    · refine ⟨outer, hid, hparent, .inl ⟨rfl, fun q hq hqx => ?_⟩⟩
      rcases List.mem_cons.mp hq with rfl | hq
      · exact lt_irrefl _ hqx.1
      · exact lt_asymm hqx.1 (hinside q hq).1
    · obtain ⟨p, hp, hparent, ⟨rfl, hnone⟩ | ⟨q, hq, hid, hqx, hinner⟩⟩ := h.parents x hx
      · refine ⟨_, hp, hparent,
          .inr ⟨r, List.mem_cons_self, rfl, hinside x hx, fun q' hq' hqx' => ?_⟩⟩
        rcases List.mem_cons.mp hq' with rfl | hq'
        · exact .inl rfl
        · exact absurd hqx' (hnone q' hq')
      · refine ⟨p, hp, hparent,
          .inr ⟨q, List.mem_cons_of_mem _ hq, hid, hqx, fun q' hq' hqx' => ?_⟩⟩
        rcases List.mem_cons.mp hq' with rfl | hq'
        · exact .inr (hinside q hq)
        · exact hinner q' hq' hqx'

/-- The branches to the regions do not matter. -/
lemma map_addSources (h : Forest outer l) (ts : List (ℕ × U64)) :
    Forest outer (l.map (addSources ts)) := by
  refine ⟨?_, ?_, ?_⟩
  · rintro _ hmem
    obtain ⟨r, hr, rfl⟩ := List.mem_map.mp hmem
    exact h.spans r hr
  · exact List.pairwise_map.mpr h.apart
  · rintro _ hmem
    obtain ⟨r, hr, rfl⟩ := List.mem_map.mp hmem
    obtain ⟨p, hp, hparent, ⟨houter, hnone⟩ | ⟨q, hq, hid, hqr, hinner⟩⟩ := h.parents r hr
    · refine ⟨p, hp, hparent, .inl ⟨houter, fun q hmem => ?_⟩⟩
      obtain ⟨q, hq, rfl⟩ := List.mem_map.mp hmem
      exact hnone q hq
    · refine ⟨p, hp, hparent, .inr ⟨_, List.mem_map_of_mem hq, hid, hqr, fun q' hmem hqr' => ?_⟩⟩
      obtain ⟨q', hq', rfl⟩ := List.mem_map.mp hmem
      rcases hinner q' hq' hqr' with rfl | hq'q
      · exact .inl rfl
      · exact .inr hq'q

end Forest

namespace Code

/-- The positions of the operators. -/
def positions (code : Code) : List U64 := code.ops.map Prod.fst

lemma positions_construct (pos : U64) (opener : Opener) (body : Code) (stop : U64) (rest : Code) :
    (construct pos opener body stop rest).positions =
      pos :: (body.positions ++ stop :: rest.positions) := by
  simp only [positions, ops, List.map_cons, List.map_append]

lemma positions_ifElse (pos : U64) (t : ℕ) (body : Code) (mid : U64) (alt : Code) (stop : U64)
    (rest : Code) : (ifElse pos t body mid alt stop rest).positions =
      pos :: (body.positions ++ mid :: (alt.positions ++ stop :: rest.positions)) := by
  simp only [positions, ops, List.map_cons, List.map_append]

/-- Regions begin and end at operators of the code. -/
lemma outlines_positions {code : Code} {next parent : ℕ} {r : Region}
    (hr : r ∈ code.outlines next parent) :
    r.start_offset ∈ code.positions ∧ r.end_offset ∈ code.positions := by
  induction code generalizing next parent with
  | nil => cases hr
  | plain pos op rest ih =>
    obtain ⟨hstart, hend⟩ := ih hr
    exact ⟨List.mem_cons_of_mem _ hstart, List.mem_cons_of_mem _ hend⟩
  | construct pos opener body stop rest ihBody ihRest =>
    rw [positions_construct]
    rcases List.mem_cons.mp hr with rfl | hr
    · simp
    · rcases List.mem_append.mp hr with hr | hr
      · obtain ⟨hstart, hend⟩ := ihBody hr
        simp [hstart, hend]
      · obtain ⟨hstart, hend⟩ := ihRest hr
        simp [hstart, hend]
  | ifElse pos t body mid alt stop rest ihBody ihAlt ihRest =>
    rw [positions_ifElse]
    rcases List.mem_cons.mp hr with rfl | hr
    · simp
    · rcases List.mem_append.mp hr with hr | hr
      · rcases List.mem_append.mp hr with hr | hr
        · obtain ⟨hstart, hend⟩ := ihBody hr
          simp [hstart, hend]
        · obtain ⟨hstart, hend⟩ := ihAlt hr
          simp [hstart, hend]
      · obtain ⟨hstart, hend⟩ := ihRest hr
        simp [hstart, hend]

/-- The regions of code whose operators are in the order of their positions. -/
lemma outlines_forest {code : Code} (h : code.positions.Pairwise (· < ·)) {next outer : ℕ}
    (houter : outer < next) : Forest outer (code.outlines next outer) := by
  induction code generalizing next outer with
  | nil => exact .nil
  | plain pos op rest ih => exact ih (List.pairwise_cons.mp h).2 houter
  | construct pos opener body stop rest ihBody ihRest =>
    rw [positions_construct] at h
    obtain ⟨hpos, h⟩ := List.pairwise_cons.mp h
    obtain ⟨hbody, h, hcross⟩ := List.pairwise_append.mp h
    obtain ⟨hstop, hrest⟩ := List.pairwise_cons.mp h
    have hwrap : Forest outer (⟨next, opener.kind, pos, [], stop, some outer⟩ ::
        body.outlines (next + 1) next) := by
      refine .wrap (ihBody hbody (Nat.lt_succ_self _)) (hpos stop (by simp))
        (fun x hx => ?_) rfl houter
      obtain ⟨hstart, hend⟩ := outlines_positions hx
      exact ⟨hpos _ (by simp [hstart]), hcross _ hend stop (by simp)⟩
    have hafter := @ihRest hrest (next + 1 + body.size) outer (by omega)
    refine hwrap.append hafter fun r hr x hx => ?_
    have hx := (outlines_positions hx).1
    rcases List.mem_cons.mp hr with rfl | hr
    · exact hstop _ hx
    · exact hcross _ (outlines_positions hr).2 _ (List.mem_cons_of_mem _ hx)
  | ifElse pos t body mid alt stop rest ihBody ihAlt ihRest =>
    rw [positions_ifElse] at h
    obtain ⟨hpos, h⟩ := List.pairwise_cons.mp h
    obtain ⟨hbody, h, hcross⟩ := List.pairwise_append.mp h
    obtain ⟨-, h⟩ := List.pairwise_cons.mp h
    obtain ⟨halt, h, hcross'⟩ := List.pairwise_append.mp h
    obtain ⟨hstop, hrest⟩ := List.pairwise_cons.mp h
    have hboth : Forest next (body.outlines (next + 1) next ++
        alt.outlines (next + 1 + body.size) next) := by
      refine (ihBody hbody (Nat.lt_succ_self _)).append (ihAlt halt (by omega)) fun r hr x hx => ?_
      have hx := (outlines_positions hx).1
      exact hcross _ (outlines_positions hr).2 _ (by simp [hx])
    have hwrap : Forest outer (⟨next, .if_ true, pos, [], stop, some outer⟩ ::
        (body.outlines (next + 1) next ++ alt.outlines (next + 1 + body.size) next)) := by
      refine .wrap hboth (hpos stop (by simp)) (fun x hx => ?_) rfl houter
      rcases List.mem_append.mp hx with hx | hx
      · obtain ⟨hstart, hend⟩ := outlines_positions hx
        exact ⟨hpos _ (by simp [hstart]), hcross _ hend stop (by simp)⟩
      · obtain ⟨hstart, hend⟩ := outlines_positions hx
        exact ⟨hpos _ (by simp [hstart]), hcross' _ hend stop (by simp)⟩
    have hafter := @ihRest hrest (next + 1 + body.size + alt.size) outer (by omega)
    refine hwrap.append hafter fun r hr x hx => ?_
    have hx := (outlines_positions hx).1
    rcases List.mem_cons.mp hr with rfl | hr
    · exact hstop _ hx
    · rcases List.mem_append.mp hr with hr | hr
      · exact hcross _ (outlines_positions hr).2 _ (by simp [hx])
      · exact hcross' _ (outlines_positions hr).2 _ (List.mem_cons_of_mem _ hx)

/-- What is noted is about a `try`, a tail call or a branch. -/
lemma notices_head {code : Code} {labels : List ℕ} {next : ℕ} {text : String}
    (h : text ∈ code.notices labels next) :
    text.toList.head? = some 't' ∨ text.toList.head? = some 'b' := by
  induction code generalizing labels next with
  | nil => cases h
  | plain pos op rest ih =>
    rcases List.mem_append.mp h with h | h
    · exact Site.notices_head h
    · exact ih h
  | construct pos opener body stop rest ihBody ihRest =>
    rcases List.mem_append.mp h with h | h
    · cases opener <;> simp only [Opener.notices, List.mem_singleton, List.not_mem_nil] at h
      all_goals
        subst h
        exact .inl (head?_append (head?_append rfl _) _)
    · rcases List.mem_append.mp h with h | h
      · exact ihBody h
      · exact ihRest h
  | ifElse pos t body mid alt stop rest ihBody ihAlt ihRest =>
    rcases List.mem_append.mp h with h | h
    · rcases List.mem_append.mp h with h | h
      · exact ihBody h
      · exact ihAlt h
    · exact ihRest h

/-- Nothing that is noted begins with a number. -/
lemma number_not_mem_notices (code : Code) (labels : List ℕ) (next n : ℕ) (text : String) :
    s!"{n}{text}" ∉ code.notices labels next := by
  intro h
  obtain ⟨c, cs, hcs⟩ := List.exists_cons_of_ne_nil (Nat.toDigits_ne_nil (b := 10) (n := n))
  have hhead : (s!"{n}{text}").toList.head? = some c := by
    simp [toString, Nat.repr, hcs]
  have hdigit : c.isDigit = true :=
    Nat.isDigit_of_mem_toDigits (b := 10) (n := n) (by decide) (by decide) (by rw [hcs]; simp)
  rcases notices_head h with hc | hc
  all_goals
    obtain rfl := Option.some.inj (hhead.symm.trans hc)
    exact absurd hdigit (by decide)

end Code

/-! ## The regions of a function -/

/-- A well-nested function within the budgets: the regions are the constructs, numbered from 1 in
the order of their starts, each with the position of its `end` and, if it is an `if`, the note
whether it has an `else`; the parent is the construct around it, which is the innermost interval
around its own.  No region is left unclosed. -/
theorem analyze_body_regions [Wasmparser] (body : List U8) (code : Code) (stop eof : U64)
    (hreads : Wasmparser.operators body = .ofList eof (code.function stop))
    (hlength : (code.function stop).length ≤ 5000000) (hwithin : code.Within 1)
    (hpositions : ((code.function stop).map Prod.fst).Pairwise (· < ·)) :
    ∃ cfg, analyze_body body = .ok cfg ∧
      (cfg.regions.map fun r => { r with branch_sources := [] }) = code.outlines 1 0 ∧
      cfg.regions.map Region.id = List.range' 1 code.size ∧
      (cfg.regions.map Region.start_offset).Pairwise (· < ·) ∧
      Forest 0 cfg.regions ∧
      ∀ n : ℕ, s!"{n} region(s) left unclosed at function end" ∉ cfg.diagnostics := by
  obtain ⟨cfg, hcfg, hregions, -, hdiagnostics⟩ := analyze_body_code hreads hlength hwithin
  have hforest : Forest 0 cfg.regions := by
    rw [Code.function, List.map_append] at hpositions
    rw [hregions]
    exact (Code.outlines_forest
      (List.pairwise_append.mp hpositions).1 Nat.zero_lt_one).map_addSources _
  refine ⟨cfg, hcfg, ?_, ?_, hforest.starts, hforest, fun n => ?_⟩
  · rw [hregions, List.map_map]
    refine (List.map_congr_left fun r hr => ?_).trans (List.map_id _)
    have hsources := Code.outlines_sources hr
    show { r with branch_sources := [] } = r
    rw [← hsources]
  · rw [hregions, map_addSources_ids, Code.outlines_ids]
  · rw [hdiagnostics]
    exact code.number_not_mem_notices [0] 1 n " region(s) left unclosed at function end"

/-- A block with an `if` in it, which branches to the block and has an empty `else`. -/
theorem analyze_body_regions_nested :
    let code : Code := .construct 0 (.block 0x40)
      (.plain 2 ⟨.i32Const 0, rfl⟩ (.ifElse 4 0x40 (.plain 6 ⟨.br 1, rfl⟩ .nil) 8 .nil 9 .nil)) 10
      .nil
    let body : List U8 := [0x02, 0x40, 0x41, 0, 0x04, 0x40, 0x0c, 1, 0x05, 0x0b, 0x0b, 0x0b]
    letI : Wasmparser := .of body (.ofList 12 (code.function 11))
    ∃ cfg, analyze_body body = .ok cfg ∧
      (cfg.regions.map fun r => { r with branch_sources := [] }) =
        [⟨1, .block, 0, [], 10, some 0⟩, ⟨2, .if_ true, 4, [], 9, some 1⟩] ∧
      Forest 0 cfg.regions := by
  intro code body
  let _ : Wasmparser := .of body (.ofList 12 (code.function 11))
  obtain ⟨cfg, hcfg, hregions, -, -, hforest, -⟩ := analyze_body_regions body code 11 12
    (if_pos rfl) (by decide) ⟨fun _ => by decide, ⟨trivial, trivial, trivial⟩, trivial⟩ (by decide)
  exact ⟨cfg, hcfg, hregions, hforest⟩

end ReverseMcp.Wasm