import Mathlib.Data.List.Basic
import ReverseMcp.Wasm.StructuredRegions

/-!
# Branches and their targets

An operand of a branch counts constructs from the inside, and the function is the outermost one.
The function has no region: a branch to it is noted nowhere.  An operand of a `br_table` that is out
of range is left out of the table, and nothing is noted about it.
-/

namespace ReverseMcp.Wasm

open Rust

/-- What is noted about the operator has nothing to do with operands. -/
def Operator.noted : Operator → Bool
  | try_ _ => true
  | tryTable _ => true
  | returnCall _ => true
  | returnCallIndirect _ _ => true
  | _ => false

namespace Site

/-- The entry that a `br_table` should have: its targets, the default last. -/
def entry (x : Site) : List (U64 × List (Option ℕ)) :=
  match x.op with
  | .brTable targets default => [(x.pos, (targets ++ [default]).map fun d => x.labels[d.val]?)]
  | _ => []

/-- The operands that are out of range. -/
def outside (x : Site) : List U32 := x.op.depths.filter fun d => x.labels[d.val]? = none

/-- Those of a `br_table`. -/
def unreported (x : Site) : List U32 :=
  match x.op with
  | .brTable _ _ => x.outside
  | _ => []

/-- The branches to a construct. -/
def sourcesOf (x : Site) (id : ℕ) : List U64 :=
  (x.op.depths.filter fun d => x.labels[d.val]? = some id).map fun _ => x.pos

end Site

/-- Every operand of a branch in the code has been seen to. -/
structure StructuredCfg.Resolves (cfg : StructuredCfg) (code : Code) : Prop where
  /-- An operand in range is noted at its target. -/
  recorded : ∀ x ∈ code.sites [0] 1, ∀ d ∈ x.op.depths, ∀ id, x.labels[d.val]? = some id →
    ∃ r ∈ cfg.regions, r.id = id ∧ x.pos ∈ r.branch_sources
  /-- Nothing else is noted. -/
  sources : ∀ r ∈ cfg.regions,
    r.branch_sources = (code.sites [0] 1).flatMap fun x => x.sourcesOf r.id
  tables : (cfg.br_tables.map fun t => (t.1, t.2.map some)) = (code.sites [0] 1).flatMap Site.entry
  /-- An operand out of range has a diagnostic of its own. -/
  reported : (code.ops.countP fun e => e.2.noted) +
    ((code.sites [0] 1).flatMap Site.outside).length ≤
    cfg.diagnostics.length

/-! ## Labels -/

namespace Code

/-- The labels at a site are new ones before those around the code. -/
lemma labels_split {code : Code} {labels : List ℕ} {next : ℕ} {x : Site}
    (hx : x ∈ code.sites labels next) :
    ∃ front, x.labels = front ++ labels ∧ ∀ id ∈ front, next ≤ id := by
  induction code generalizing labels next with
  | nil => cases hx
  | plain pos op rest ih =>
    rcases List.mem_cons.mp hx with rfl | hx
    · exact ⟨[], rfl, by simp⟩
    · exact ih hx
  | construct pos opener body stop rest ihBody ihRest =>
    rcases List.mem_append.mp hx with hx | hx
    · obtain ⟨front, hlabels, hfront⟩ := ihBody hx
      refine ⟨front ++ [next], by rw [hlabels, List.append_assoc, List.singleton_append], ?_⟩
      intro id hid
      rcases List.mem_append.mp hid with hid | hid
      · exact (Nat.le_succ _).trans (hfront id hid)
      · rw [List.mem_singleton.mp hid]
    · obtain ⟨front, hlabels, hfront⟩ := ihRest hx
      exact ⟨front, hlabels, fun id hid => by have hle := hfront id hid; omega⟩
  | ifElse pos t body mid alt stop rest ihBody ihAlt ihRest =>
    rcases List.mem_append.mp hx with hx | hx
    · have hinner : ∃ front, x.labels = front ++ next :: labels ∧ ∀ id ∈ front, next ≤ id := by
        rcases List.mem_append.mp hx with hx | hx
        · obtain ⟨front, hlabels, hfront⟩ := ihBody hx
          exact ⟨front, hlabels, fun id hid => by have hle := hfront id hid; omega⟩
        · obtain ⟨front, hlabels, hfront⟩ := ihAlt hx
          exact ⟨front, hlabels, fun id hid => by have hle := hfront id hid; omega⟩
      obtain ⟨front, hlabels, hfront⟩ := hinner
      refine ⟨front ++ [next], by rw [hlabels, List.append_assoc, List.singleton_append], ?_⟩
      intro id hid
      rcases List.mem_append.mp hid with hid | hid
      · exact hfront id hid
      · rw [List.mem_singleton.mp hid]
    · obtain ⟨front, hlabels, hfront⟩ := ihRest hx
      exact ⟨front, hlabels, fun id hid => by have hle := hfront id hid; omega⟩

/-- The function is the outermost label. -/
lemma resolve_function {code : Code} {x : Site} (hx : x ∈ code.sites [0] 1) (d : U32) :
    x.labels[d.val]? = some 0 ↔ d.val + 1 = x.labels.length := by
  obtain ⟨front, hlabels, hfront⟩ := labels_split hx
  rw [hlabels, List.length_append, List.length_singleton]
  constructor
  · intro h
    by_cases hd : d.val < front.length
    · rw [List.getElem?_append_left hd] at h
      exact absurd (hfront 0 (List.mem_of_getElem? h)) (by decide)
    · obtain ⟨hlt, -⟩ := List.getElem?_eq_some_iff.mp h
      rw [List.length_append, List.length_singleton] at hlt
      omega
  · intro h
    rw [show d.val = front.length by omega, List.getElem?_concat_length]

/-- A label that is not the function's is that of a region. -/
lemma exists_outline {code : Code} {x : Site} (hx : x ∈ code.sites [0] 1) {id : ℕ}
    (hid : id ∈ x.labels) (hne : id ≠ 0) : ∃ r ∈ code.outlines 1 0, r.id = id := by
  have hrange : id ∈ List.range' 1 code.size := by
    rcases mem_labels hx hid with h | h
    · exact absurd (List.mem_singleton.mp h) hne
    · exact List.mem_range'_1.mpr h
  rw [← code.outlines_ids 1 0] at hrange
  exact List.mem_map.mp hrange

end Code

/-! ## What is noted -/

namespace Site

/-- The branches that the pass finds are those to the construct. -/
lemma targets_filter (x : Site) (id : ℕ) :
    (x.targets.filter fun t => t.1 = id).map Prod.snd = x.sourcesOf id := by
  rw [targets, resolved, sourcesOf]
  induction x.op.depths with
  | nil => rfl
  | cons d ds ih =>
    cases hd : x.labels[d.val]? with
    | none =>
      rw [List.filterMap_cons_none (f := fun d : U32 => x.labels[d.val]?) hd,
        List.filter_cons_of_neg (by simp [hd])]
      exact ih
    | some target =>
      rw [List.filterMap_cons_some (f := fun d : U32 => x.labels[d.val]?) hd, List.map_cons]
      by_cases htarget : target = id
      · rw [List.filter_cons_of_pos (by simp [htarget]),
          List.filter_cons_of_pos (by simp [hd, htarget]),
          List.map_cons, List.map_cons, ih]
      · rw [List.filter_cons_of_neg (by simp [htarget]),
          List.filter_cons_of_neg (by simp [hd, htarget])]
        exact ih

/-- A table whose operands are in range has its entry. -/
lemma table_eq_entry {x : Site} (h : x.unreported = []) :
    (x.table.map fun t => (t.1, t.2.map some)) = x.entry := by
  obtain ⟨pos, op, labels⟩ := x
  cases op with
  | brTable targets default =>
    have hall : ∀ d ∈ targets ++ [default], labels[d.val]? ≠ none := fun d hd hnone =>
      List.filter_eq_nil_iff.mp h d hd (decide_eq_true hnone)
    have hmap : ∀ ds : List U32, (∀ d ∈ ds, labels[d.val]? ≠ none) →
        (ds.filterMap fun d => labels[d.val]?).map some = ds.map fun d => labels[d.val]? := by
      intro ds hds
      induction ds with
      | nil => rfl
      | cons d ds ih =>
        obtain ⟨id, hid⟩ := Option.ne_none_iff_exists'.mp (hds d List.mem_cons_self)
        rw [List.filterMap_cons_some (f := fun d : U32 => labels[d.val]?) hid, List.map_cons,
          List.map_cons, hid, ih fun d hd => hds d (List.mem_cons_of_mem _ hd)]
    exact congrArg (fun l => [(pos, l)]) (hmap (targets ++ [default]) hall)
  | _ => rfl

/-- At an operator, each operand out of range is noted unless it is one of a `br_table`. -/
lemma notices_length {x : Site} (hplain : x.op.isPlain = true) :
    x.notices.length + x.unreported.length = (if x.op.noted then 1 else 0) + x.outside.length := by
  obtain ⟨pos, op, labels⟩ := x
  have hone : ∀ (name : String) (depth : U32), ∀ op : Operator, op.depths = [depth] →
      ((Site.mk pos op labels).outOfRange name depth).length =
      (Site.mk pos op labels).outside.length := by
    intro name depth op hop
    rw [outOfRange, outside, hop]
    by_cases h : labels[depth.val]? = none
    · rw [if_pos h, List.filter_cons_of_pos (by simpa using h)]
      rfl
    · rw [if_neg h, List.filter_cons_of_neg (by simpa using h)]
      rfl
  cases op with
  | br depth => exact (hone "br" depth _ rfl).trans (Nat.zero_add _).symm
  | brIf depth => exact (hone "br_if" depth _ rfl).trans (Nat.zero_add _).symm
  | brTable targets default => rfl
  | try_ | tryTable => cases hplain
  | _ => rfl

end Site

namespace Code

/-- Every operand out of range is noted but those of `br_table`s. -/
lemma notices_length (code : Code) (labels : List ℕ) (next : ℕ) :
    (code.notices labels next).length + ((code.sites labels next).flatMap Site.unreported).length =
      (code.ops.countP fun e => e.2.noted) +
      ((code.sites labels next).flatMap Site.outside).length := by
  have hend : Operator.end_.noted = false := rfl
  have helse : Operator.else_.noted = false := rfl
  have hif : ∀ t, (Operator.if_ t).noted = false := fun _ => rfl
  induction code generalizing labels next with
  | nil => rfl
  | plain pos op rest ih =>
    have hsite := Site.notices_length (x := ⟨pos, op.val, labels⟩) op.property
    have hrest := ih labels next
    simp only [notices, sites, ops, List.flatMap_cons, List.length_append, List.countP_cons]
    dsimp only at hsite
    omega
  | construct pos opener body stop rest ihBody ihRest =>
    have hopener : (opener.notices pos).length = if opener.operator.noted then 1 else 0 := by
      cases opener <;> rfl
    have hbody := ihBody (next :: labels) (next + 1)
    have hrest := ihRest labels (next + 1 + body.size)
    simp only [notices, sites, ops, List.flatMap_append, List.length_append, List.countP_cons,
      List.countP_append, hopener, hend, Bool.false_eq_true, if_false]
    omega
  | ifElse pos t body mid alt stop rest ihBody ihAlt ihRest =>
    have hbody := ihBody (next :: labels) (next + 1)
    have halt := ihAlt (next :: labels) (next + 1 + body.size)
    have hrest := ihRest labels (next + 1 + body.size + alt.size)
    simp only [notices, sites, ops, List.flatMap_append, List.length_append, List.countP_cons,
      List.countP_append, hif, helse, hend, Bool.false_eq_true, if_false]
    omega

end Code

/-! ## The branches of a function -/

/-- The pass over a function has noted the branches to the regions, and to nothing else. -/
lemma analyze_body_sources [Wasmparser] {body : List U8} {code : Code} {stop eof : U64}
    {cfg : StructuredCfg} (hreads : Wasmparser.operators body = .ofList eof (code.function stop))
    (h : analyze_body body = .ok cfg) :
    cfg.regions.map Region.id = (code.outlines 1 0).map Region.id ∧
      (∀ r ∈ cfg.regions,
        r.branch_sources = (code.sites [0] 1).flatMap fun x => x.sourcesOf r.id) ∧
      cfg.br_tables = (code.sites [0] 1).flatMap Site.table ∧
      cfg.diagnostics = code.notices [0] 1 := by
  obtain ⟨hlength, hwithin⟩ := analyze_body_budget hreads h
  obtain ⟨cfg', hcfg', hregions, htables, hdiagnostics⟩ := analyze_body_code hreads hlength hwithin
  obtain rfl : cfg' = cfg := Outcome.ok.inj (hcfg'.symm.trans h)
  refine ⟨by rw [hregions, map_addSources_ids], fun r' hr' => ?_, htables, hdiagnostics⟩
  rw [hregions] at hr'
  obtain ⟨r, hr, rfl⟩ := List.mem_map.mp hr'
  have hnone : r.branch_sources = [] := Code.outlines_sources hr
  show r.branch_sources ++ _ = _
  rw [hnone, List.nil_append, List.filter_flatMap, List.map_flatMap]
  exact List.flatMap_congr fun x _ => Site.targets_filter x r.id

/-- Where the pass goes well, every operand has been seen to if and only if no branch is to the
function and the operands of each `br_table` are in range. -/
theorem branches_resolved_iff [Wasmparser] (body : List U8) (code : Code) (stop eof : U64)
    (hreads : Wasmparser.operators body = .ofList eof (code.function stop)) :
    (∀ cfg, analyze_body body = .ok cfg →
      (cfg.Resolves code ↔
        (∀ x ∈ code.sites [0] 1, ∀ d ∈ x.op.depths, d.val + 1 ≠ x.labels.length) ∧
        ∀ x ∈ code.sites [0] 1, ∀ targets default, x.op = .brTable targets default →
          ∀ d ∈ targets ++ [default], d.val < x.labels.length)) ∧
    ((∃ cfg, analyze_body body = .ok cfg) ↔
      (code.function stop).length ≤ 5000000 ∧ code.Within 1) := by
  refine ⟨fun cfg hcfg => ?_, ?_⟩
  · obtain ⟨hids, hsources, htables, hdiagnostics⟩ := analyze_body_sources hreads hcfg
    have hcount := code.notices_length [0] 1
    -- a depth is in range if it is less than the number of labels
    have hrange : ∀ (x : Site) (d : U32), x.labels[d.val]? = none ↔
        ¬ d.val < x.labels.length :=
      fun x d => List.getElem?_eq_none_iff.trans not_lt.symm
    constructor
    · intro h
      refine ⟨fun x hx d hd heq => ?_, fun x hx targets default hop d hd => ?_⟩
      · obtain ⟨r, hr, hid, -⟩ := h.recorded x hx d hd 0 ((Code.resolve_function hx d).mpr heq)
        obtain ⟨y, hy, hyr⟩ := List.mem_map.mp (hids ▸ List.mem_map_of_mem (f := Region.id) hr)
        have hpos := (Code.le_id hy).1
        omega
      · have hreported := h.reported
        rw [hdiagnostics] at hreported
        have hnil : (code.sites [0] 1).flatMap Site.unreported = [] :=
          List.length_eq_zero_iff.mp (by omega)
        have hsite : x.unreported = [] := List.flatMap_eq_nil_iff.mp hnil x hx
        obtain ⟨pos, op, labels⟩ := x
        obtain rfl : op = .brTable targets default := hop
        by_contra hout
        exact List.filter_eq_nil_iff.mp hsite d hd
          (decide_eq_true ((hrange ⟨pos, _, labels⟩ d).mpr hout))
    · rintro ⟨hfunction, hin⟩
      have hunreported : ∀ x ∈ code.sites [0] 1, x.unreported = [] := by
        intro x hx
        have hin := hin x hx
        obtain ⟨pos, op, labels⟩ := x
        cases op with
        | brTable targets default =>
          refine List.filter_eq_nil_iff.mpr fun d hd hnone => ?_
          exact (hrange _ d).mp (of_decide_eq_true hnone) (hin targets default rfl d hd)
        | _ => rfl
      refine ⟨fun x hx d hd id hid => ?_, hsources, ?_, ?_⟩
      · have hne : id ≠ 0 := by
          rintro rfl
          exact hfunction x hx d hd ((Code.resolve_function hx d).mp hid)
        obtain ⟨y, hy, hyid⟩ := Code.exists_outline hx (List.mem_of_getElem? hid) hne
        obtain ⟨r, hr, hrid⟩ := List.mem_map.mp (hids ▸ List.mem_map_of_mem (f := Region.id) hy)
        have hr_id : r.id = id := hrid.trans hyid
        refine ⟨r, hr, hr_id, ?_⟩
        rw [hsources r hr]
        refine List.mem_flatMap.mpr ⟨x, hx, List.mem_map.mpr ⟨d, List.mem_filter.mpr ⟨hd, ?_⟩, rfl⟩⟩
        exact decide_eq_true (hid.trans (by rw [hr_id]))
      · rw [htables, List.map_flatMap]
        exact List.flatMap_congr fun x hx => Site.table_eq_entry (hunreported x hx)
      · have hnil : (code.sites [0] 1).flatMap Site.unreported = [] :=
          List.flatMap_eq_nil_iff.mpr hunreported
        rw [hnil, List.length_nil] at hcount
        rw [hdiagnostics]
        omega
  · constructor
    · rintro ⟨cfg, hcfg⟩
      exact analyze_body_budget hreads hcfg
    · rintro ⟨hlength, hwithin⟩
      obtain ⟨cfg, hcfg, -⟩ := analyze_body_code hreads hlength hwithin
      exact ⟨cfg, hcfg⟩

/-- A loop that a `br_if` continues and a block that a `br_table` leaves. -/
theorem branches_resolved_iff_loop :
    let code : Code := .construct 0 (.loop 0x40)
      (.construct 2 (.block 0x40) (.plain 4 ⟨.brIf 1, rfl⟩ (.plain 6 ⟨.brTable [0, 1] 0, rfl⟩ .nil))
        11 .nil) 12 .nil
    let body : List U8 := [0x03, 0x40, 0x02, 0x40, 0x0d, 1, 0x0e, 2, 0, 1, 0, 0x0b, 0x0b, 0x0b]
    letI : Wasmparser := .of body (.ofList 14 (code.function 13))
    ∃ cfg, analyze_body body = .ok cfg ∧ cfg.Resolves code := by
  intro code body
  let _ : Wasmparser := .of body (.ofList 14 (code.function 13))
  obtain ⟨hresolves, hok⟩ := branches_resolved_iff body code 13 14 (if_pos rfl)
  obtain ⟨cfg, hcfg⟩ := hok.mpr
    ⟨by decide, fun h => absurd h Bool.false_ne_true,
      ⟨fun _ => by decide, trivial, trivial⟩, trivial⟩
  have hsites : ∀ x ∈ code.sites [0] 1, x = ⟨4, .brIf 1, [2, 1, 0]⟩ ∨
      x = ⟨6, .brTable [0, 1] 0, [2, 1, 0]⟩ := by simp [code, Code.sites]
  have hdepths : ∀ d : U32, d = 0 ∨ d = 1 → d.val + 1 ≠ 3 ∧ d.val < 3 := by
    rintro d (rfl | rfl)
    · exact ⟨by decide, Nat.zero_lt_succ 2⟩
    · exact ⟨by decide, Nat.one_lt_succ_succ 1⟩
  refine ⟨cfg, hcfg,
    (hresolves cfg hcfg).mpr ⟨fun x hx d hd => ?_, fun x hx targets default hop d hd => ?_⟩⟩
  · rcases hsites x hx with rfl | rfl
    · exact (hdepths d (.inr (List.mem_singleton.mp hd))).1
    · exact (hdepths d (by simpa [Operator.depths, or_comm] using hd)).1
  · rcases hsites x hx with rfl | rfl
    · cases hop
    · cases hop
      exact (hdepths d (by simpa [or_comm] using hd)).2

/-- `br 0` and the `end` of the function: the branch is to the function, and is lost without a
sign. -/
theorem branch_to_function_lost :
    let code : Code := .plain 0 ⟨.br 0, rfl⟩ .nil
    letI : Wasmparser := .of [0x0c, 0, 0x0b] (.ofList 3 (code.function 2))
    analyze_body [0x0c, 0, 0x0b] = .ok ⟨[], [], [], [], [], 2⟩ ∧
    ¬ ∃ cfg, analyze_body [0x0c, 0, 0x0b] = .ok cfg ∧ cfg.Resolves code := by
  intro code
  let _ : Wasmparser := .of [0x0c, 0, 0x0b] (.ofList 3 (code.function 2))
  have hrun : analyze_body [0x0c, 0, 0x0b] = .ok ⟨[], [], [], [], [], 2⟩ := rfl
  refine ⟨hrun, ?_⟩
  rintro ⟨cfg, hcfg, hresolves⟩
  obtain rfl : _ = cfg := Outcome.ok.inj (hrun.symm.trans hcfg)
  obtain ⟨r, hr, -⟩ :=
    hresolves.recorded ⟨0, .br 0, [0]⟩ List.mem_cons_self 0 List.mem_cons_self 0 rfl
  cases hr

end ReverseMcp.Wasm
