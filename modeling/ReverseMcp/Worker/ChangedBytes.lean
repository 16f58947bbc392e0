import ReverseMcp.Worker.Extents

/-!
# Bytes that changed after the proposal

A plan has the addresses and the lengths of its sites and not the bytes that the proposal saw there.
`transforms::validate` reads the bytes of each site again and compares them with nothing: it asks
only that there are some.  A plan whose bytes have changed is rejected exactly when one of the other
checks fails (`changed_bytes_iff`).
-/

namespace ReverseMcp

open Rust

namespace Transforms

open Deep (items textOf)

section
variable [Host]

/-! ## The checks of a range -/

/-- The end of the range is computed, by a sum that fits or one that wraps silently. -/
def EndComputes (ea : U64) (len : ℕ) : Prop := ea.val + len < 2 ^ 64 ∨ Host.overflowChecks = false

omit [Host] in
/-- The range leaves the function; its end is the sum of machine words. -/
def LeavesFunction (f : FunctionInfo) (ea : U64) (len : ℕ) : Prop :=
  ea < f.ea_start ∨ f.ea_end < ea + asU64 len

omit [Host] in
/-- The backend knows the references to every byte of the range. -/
def RefsKnown (r : Reader) (ea : U64) (len : ℕ) : Prop :=
  ∀ a < len, ∃ xs, r.xrefs_to (ea + asU64 a) = .ok xs

omit [Host] in
/-- A byte of the range is referenced other than by falling through. -/
def Referenced (r : Reader) (ea : U64) (len : ℕ) : Prop :=
  ∃ a < len, ∃ xs, r.xrefs_to (ea + asU64 a) = .ok xs ∧ ∃ x ∈ xs, x.kind ≠ "flow"

omit [Host] in
/-- The read of the range brings no byte. -/
def Unreadable (r : Reader) (ea : U64) (len : ℕ) : Prop :=
  ∃ raw, r.get_bytes ea len = .ok raw ∧ textOf raw "hex" = ""

/-- The backend answers all that the checks of a range ask. -/
def Answers (r : Reader) (f : FunctionInfo) (ea : U64) (len : ℕ) : Prop :=
  EndComputes ea len ∧ (LeavesFunction f ea len ∨
    RefsKnown r ea len ∧ (Referenced r ea len ∨ ∃ raw, r.get_bytes ea len = .ok raw))

omit [Host] in
/-- The range leaves the function, is referenced or cannot be read. -/
def FailsCheck (r : Reader) (f : FunctionInfo) (ea : U64) (len : ℕ) : Prop :=
  LeavesFunction f ea len ∨ Referenced r ea len ∨ Unreadable r ea len

lemma addU64_isOk {ea : U64} {n : ℕ} (hn : n < 2 ^ 64) :
    (∃ c, addU64 ea (asU64 n) = (.ok c : Result U64)) ↔ EndComputes ea n := by
  have hval : (asU64 n).val = n := Nat.mod_eq_of_lt hn
  unfold addU64 EndComputes
  rw [hval]
  split
  case isTrue h => exact iff_of_true ⟨_, rfl⟩ h
  case isFalse h =>
    refine iff_of_false ?_ h
    rintro ⟨c, hc⟩
    cases hc

lemma EndComputes.addU64 {ea : U64} {n : ℕ} (h : EndComputes ea n) (hn : n < 2 ^ 64) :
    addU64 ea (asU64 n) = (.ok (ea + asU64 n) : Result U64) := by
  obtain ⟨c, hc⟩ := (addU64_isOk hn).mpr h
  rw [hc, addU64_eq_ok hc]

lemma EndComputes.mono {ea : U64} {m n : ℕ} (h : EndComputes ea n) (hmn : m ≤ n) :
    EndComputes ea m :=
  h.imp_left fun h => by omega

/-- In a range whose end is computed no sum overflows. -/
lemma inboundXrefsIn_eq {r : Reader} {ea : U64} {len : ℕ} (hend : EndComputes ea len)
    (hlen : len < 2 ^ 64) : inboundXrefsIn r ea len = (do
      let found ← Outcome.mapList (fun a => r.xrefs_to (ea + asU64 a)) (List.range len)
      return found.flatten.filter fun x => x.kind ≠ "flow") := by
  have hcalls : Outcome.mapList (fun a => do
      let at_ea ← addU64 ea (asU64 a)
      r.xrefs_to at_ea) (List.range len) =
      Outcome.mapList (fun a => r.xrefs_to (ea + asU64 a)) (List.range len) := by
    refine Outcome.mapList_congr fun a ha => ?_
    have hlt := List.mem_range.mp ha
    rw [(hend.mono hlt.le).addU64 (by omega), Outcome.ok_bind]
  rw [inboundXrefsIn, hcalls]

lemma inboundXrefsIn_isOk {r : Reader} {ea : U64} {len : ℕ} (hend : EndComputes ea len)
    (hlen : len < 2 ^ 64) :
    (∃ xrefs, inboundXrefsIn r ea len = .ok xrefs) ↔ RefsKnown r ea len := by
  have hknown := Outcome.mapList_ok_iff (f := fun a => r.xrefs_to (ea + asU64 a))
    (l := List.range len)
  simp only [List.mem_range] at hknown
  rw [inboundXrefsIn_eq hend hlen, RefsKnown, ← hknown]
  constructor
  · rintro ⟨xrefs, h⟩
    obtain ⟨found, hfound, -⟩ := Outcome.bind_eq_ok.mp h
    exact ⟨found, hfound⟩
  · rintro ⟨found, hfound⟩
    exact ⟨_, by rw [hfound, Outcome.ok_bind, Outcome.pure_eq]⟩

/-- There is an inbound reference exactly when a byte of the range is referenced. -/
lemma inboundXrefsIn_ne_nil {r : Reader} {ea : U64} {len : ℕ} (hend : EndComputes ea len)
    (hlen : len < 2 ^ 64) {xrefs : List XrefInfo} (h : inboundXrefsIn r ea len = .ok xrefs) :
    xrefs ≠ [] ↔ Referenced r ea len := by
  rw [inboundXrefsIn_eq hend hlen] at h
  obtain ⟨found, hfound, h⟩ := Outcome.bind_eq_ok.mp h
  obtain rfl := Outcome.ok.inj h
  constructor
  · intro hne
    obtain ⟨x, hx⟩ := List.exists_mem_of_ne_nil _ hne
    obtain ⟨hx, hkind⟩ := List.mem_filter.mp hx
    obtain ⟨xs, hxs, hx⟩ := List.mem_flatten.mp hx
    obtain ⟨a, ha, hfa⟩ := Outcome.mem_of_mapList hfound hxs
    exact ⟨a, List.mem_range.mp ha, xs, hfa, x, hx, by simpa using hkind⟩
  · rintro ⟨a, ha, xs, hxs, x, hx, hkind⟩
    obtain ⟨xs', hxs', hfa⟩ := Outcome.mem_mapList hfound (List.mem_range.mpr ha)
    obtain rfl := Outcome.ok.inj (hxs.symm.trans hfa)
    refine List.ne_nil_of_mem (a := x) ?_
    exact List.mem_filter.mpr ⟨List.mem_flatten.mpr ⟨xs, hxs', hx⟩, by simpa using hkind⟩

/-! ## The checks of an operation -/

/-- The checks that read the backend, with what they reject with. -/
def readChecks (r : Reader) (ea : U64) (len : ℕ) (refs : List XrefInfo → Json) (unread : Json) :
    Result (Option Json) := do
  let xrefs ← inboundXrefsIn r ea len
  if !xrefs.isEmpty then
    return some (refs xrefs)
  let raw ← r.get_bytes ea len
  if textOf raw "hex" = "" then
    return some unread
  return none

section
variable {r : Reader} {f : FunctionInfo} {op : Json} {i : ℕ} {ea : U64}

lemma validateOpIn_panics (hat : OpAt op ea) (hlen : opLen op < 2 ^ 64)
    (hend : ¬EndComputes ea (opLen op)) (rejection : Option Json) :
    validateOpIn r f (op, i) ≠ .ok rejection := by
  obtain ⟨ea_s, hea_s, hea⟩ := hat
  intro h
  rw [validateOpIn] at h
  simp only [hea_s, hea, Outcome.ok_bind] at h
  obtain ⟨stop, hstop, -⟩ := Outcome.bind_eq_ok.mp h
  exact hend ((addU64_isOk hlen).mp ⟨stop, hstop⟩)

lemma validateOpIn_leaves (hat : OpAt op ea) (hlen : opLen op < 2 ^ 64)
    (hend : EndComputes ea (opLen op)) (hleaves : LeavesFunction f ea (opLen op)) :
    ∃ rejection, validateOpIn r f (op, i) = .ok (some rejection) := by
  obtain ⟨ea_s, hea_s, hea⟩ := hat
  rw [LeavesFunction] at hleaves
  rw [validateOpIn]
  simp only [hea_s, hea, Outcome.ok_bind, ← opLen.eq_1]
  rw [hend.addU64 hlen, Outcome.ok_bind, if_pos hleaves]
  exact ⟨_, rfl⟩

lemma validateOpIn_inside (hat : OpAt op ea) (hlen : opLen op < 2 ^ 64)
    (hend : EndComputes ea (opLen op)) (hinside : ¬LeavesFunction f ea (opLen op)) :
    ∃ refs unread, validateOpIn r f (op, i) = readChecks r ea (opLen op) refs unread := by
  obtain ⟨ea_s, hea_s, hea⟩ := hat
  rw [LeavesFunction] at hinside
  rw [validateOpIn]
  simp only [hea_s, hea, Outcome.ok_bind, ← opLen.eq_1]
  rw [hend.addU64 hlen, Outcome.ok_bind, if_neg hinside]
  exact ⟨_, _, rfl⟩

end

lemma readChecks_spec {r : Reader} {ea : U64} {len : ℕ} (hend : EndComputes ea len)
    (hlen : len < 2 ^ 64) (refs : List XrefInfo → Json) (unread : Json) :
    ((∃ rejection, readChecks r ea len refs unread = .ok rejection) ↔
        RefsKnown r ea len ∧ (Referenced r ea len ∨ ∃ raw, r.get_bytes ea len = .ok raw)) ∧
      ∀ rejection, readChecks r ea len refs unread = .ok rejection →
        (rejection ≠ none ↔ Referenced r ea len ∨ Unreadable r ea len) := by
  rw [readChecks]
  by_cases hknown : RefsKnown r ea len
  · obtain ⟨xrefs, hxrefs⟩ := (inboundXrefsIn_isOk hend hlen).mpr hknown
    have hne := inboundXrefsIn_ne_nil hend hlen hxrefs
    rw [hxrefs, Outcome.ok_bind]
    cases xrefs with
    | cons x xrefs =>
      have href : Referenced r ea len := hne.mp (List.cons_ne_nil _ _)
      refine ⟨iff_of_true ⟨_, rfl⟩ ⟨hknown, Or.inl href⟩, fun rejection h => ?_⟩
      obtain rfl := Outcome.ok.inj h
      exact iff_of_true (Option.some_ne_none _) (Or.inl href)
    | nil =>
      have hnone : ¬Referenced r ea len := fun h => hne.mpr h rfl
      simp only [hnone, hknown, false_or, true_and, List.isEmpty_nil, Bool.not_true,
        Bool.false_eq_true, if_false, Unreadable]
      cases r.get_bytes ea len with
      | ok raw =>
        by_cases hhex : textOf raw "hex" = ""
        · simp [hhex]
        · simp [hhex]
      | err e => simp
      | panic p => simp
  · have hfails : ∀ xrefs, inboundXrefsIn r ea len ≠ .ok xrefs :=
      fun xrefs h => hknown ((inboundXrefsIn_isOk hend hlen).mp ⟨xrefs, h⟩)
    simp only [Outcome.bind_eq_ok, hfails, hknown]
    simp

/-- An operation is checked to the end when the backend answers what its checks ask, and it is
rejected when one of them fails. -/
lemma validateOpIn_spec {r : Reader} {f : FunctionInfo} {op : Json} {ea : U64} (hat : OpAt op ea)
    (hlen : opLen op < 2 ^ 64) (i : ℕ) :
    ((∃ rejection, validateOpIn r f (op, i) = .ok rejection) ↔ Answers r f ea (opLen op)) ∧
      ∀ rejection, validateOpIn r f (op, i) = .ok rejection →
        (rejection ≠ none ↔ FailsCheck r f ea (opLen op)) := by
  by_cases hend : EndComputes ea (opLen op)
  · by_cases hleaves : LeavesFunction f ea (opLen op)
    · obtain ⟨rejection, hrejection⟩ := validateOpIn_leaves (r := r) (i := i) hat hlen hend hleaves
      refine ⟨iff_of_true ⟨_, hrejection⟩ ⟨hend, Or.inl hleaves⟩, fun rejection' h => ?_⟩
      obtain rfl := Outcome.ok.inj (hrejection.symm.trans h)
      exact iff_of_true (Option.some_ne_none _) (Or.inl hleaves)
    · obtain ⟨refs, unread, hform⟩ := validateOpIn_inside (r := r) (i := i) hat hlen hend hleaves
      obtain ⟨hanswers, hfails⟩ := readChecks_spec (r := r) hend hlen refs unread
      rw [hform, hanswers, Answers, FailsCheck]
      simp only [hend, hleaves, false_or, true_and]
      exact hfails
  · have hpanics := validateOpIn_panics (r := r) (f := f) (i := i) hat hlen hend
    refine ⟨iff_of_false ?_ fun h => hend h.1, fun rejection h => absurd h (hpanics rejection)⟩
    rintro ⟨rejection, h⟩
    exact hpanics rejection h

/-! ## What a proposal hands over -/

omit [Host] in
lemma pairSites_len {found : InsnInfo → InsnInfo → Bool} {whole : Bool}
    {site : InsnInfo → InsnInfo → Site} {n : ℕ} (hsite : ∀ a b, (site a b).len ≤ n)
    {l : List InsnInfo} : ∀ s ∈ pairSites found whole site l, s.len ≤ n := by
  fun_induction pairSites found whole site l with
  | case1 a b rest hfound hwhole hshare =>
    rw [List.forall_mem_cons]
    refine ⟨hsite a b, ?_⟩
    cases whole with
    | true => exact hwhole
    | false => exact hshare
  | case2 a b rest hfound ih => exact ih
  | case3 => exact List.forall_mem_nil _

omit [Host] in
lemma indirectSites_len (l : List InsnInfo) : ∀ prev, ∀ s ∈ indirectSites prev l, s.len ≤ 16 := by
  induction l with
  | nil => exact fun _ => List.forall_mem_nil _
  | cons insn rest ih =>
    intro prev
    rw [indirectSites]
    cases indirectValue prev insn with
    | none => exact ih _
    | some v => exact List.forall_mem_cons.mpr ⟨Nat.min_le_right _ _, ih _⟩

omit [Host] in
/-- No site has more than sixteen bytes. -/
lemma allSites_len (kind : TransformKind) (l : List InsnInfo) :
    ∀ s ∈ allSites kind l, s.len ≤ 16 := by
  cases kind with
  | T1OpaqueBranch => exact pairSites_len fun a b => Nat.min_le_right _ _
  | T2JunkRemoval => exact pairSites_len fun a b => Nat.min_le_right _ _
  | T3IndirectMaterialize => exact indirectSites_len l []
  | T4Unflatten => exact List.forall_mem_nil _

/-- A plan names the target that it was proposed for, and its operations are patches of at most
sixteen bytes. -/
lemma proposeIn_plan {r : Reader} {idx : AnalysisIndex} {target : U64} {kind : TransformKind}
    {plan : Json} (h : proposeIn r idx target kind = .ok plan) :
    planTarget plan = .ok target ∧
      ∀ op ∈ items plan "operations", ∃ site : Site, op = patchOp site ∧ site.len ≤ 16 := by
  obtain ⟨f, hf, hplan⟩ := Outcome.bind_eq_ok.mp h
  rw [Outcome.ofOption_eq_ok] at hf
  by_cases hkind : kind = .T4Unflatten
  · subst hkind
    obtain rfl := Outcome.ok.inj hplan
    exact ⟨parse_ea_hex target, List.forall_mem_nil _⟩
  · obtain ⟨l, hlist⟩ : ∃ l, r.disassemble target (some f.ea_end) 2000 = .ok l := by
      cases kind with
      | T4Unflatten => exact absurd rfl hkind
      | T1OpaqueBranch => exact (Outcome.bind_eq_ok.mp hplan).imp fun l h => h.1
      | T2JunkRemoval => exact (Outcome.bind_eq_ok.mp hplan).imp fun l h => h.1
      | T3IndirectMaterialize => exact (Outcome.bind_eq_ok.mp hplan).imp fun l h => h.1
    obtain rfl := Outcome.ok.inj ((proposeIn_eq hkind hf hlist).symm.trans h)
    refine ⟨parse_ea_hex target, ?_⟩
    rw [foundSites_eq, planJson_operations _ _ _ (List.length_take_le _ _)]
    intro op hop
    obtain ⟨site, hsite, rfl⟩ := List.mem_map.mp hop
    exact ⟨site, rfl, allSites_len kind l site (List.mem_of_mem_take hsite)⟩

/-! ## What is rejected -/

/-- The bytes of an operation are not those of the other state. -/
def BytesChanged (r r' : Reader) (plan : Json) : Prop :=
  ∃ op ∈ items plan "operations", ∃ ea, OpAt op ea ∧
    r.get_bytes ea (opLen op) ≠ r'.get_bytes ea (opLen op)

/-- What `validate` rejects of the plans for a function that there is: the backend answers what all
checks ask, and a check fails. -/
def Rejected (r : Reader) (f : FunctionInfo) (ops : List Json) : Prop :=
  (∀ op ∈ ops, ∀ ea, OpAt op ea → Answers r f ea (opLen op)) ∧
    ∃ op ∈ ops, ∃ ea, OpAt op ea ∧ FailsCheck r f ea (opLen op)

omit [Host] in
lemma exists_mem_zipIdx {ops : List Json} {op : Json} (hop : op ∈ ops) :
    ∃ i, (op, i) ∈ ops.zipIdx := by
  obtain ⟨i, hi, rfl⟩ := List.mem_iff_getElem.mp hop
  exact ⟨i, List.mk_mem_zipIdx_iff_getElem?.mpr (List.getElem?_eq_getElem hi)⟩

/-- The loop over the operations ends with a rejection exactly when one of them is rejected. -/
lemma rejections_iff {r : Reader} {f : FunctionInfo} {ops : List Json}
    (hops : ∀ op ∈ ops, ∃ ea, OpAt op ea ∧ opLen op < 2 ^ 64) :
    (∃ rejections, Outcome.mapList (validateOpIn r f) ops.zipIdx = .ok rejections ∧
        rejections.filterMap id ≠ []) ↔ Rejected r f ops := by
  constructor
  · rintro ⟨rejections, hloop, hne⟩
    constructor
    · intro op hop ea hat
      obtain ⟨ea', hat', hlen⟩ := hops op hop
      obtain ⟨i, hi⟩ := exists_mem_zipIdx hop
      obtain ⟨rejection, -, hcall⟩ := Outcome.mem_mapList hloop hi
      exact (validateOpIn_spec hat hlen i).1.mp ⟨rejection, hcall⟩
    · obtain ⟨x, hx⟩ := List.exists_mem_of_ne_nil _ hne
      obtain ⟨rejection, hrejection, rfl⟩ := List.mem_filterMap.mp hx
      obtain ⟨⟨op, i⟩, hi, hcall⟩ := Outcome.mem_of_mapList hloop hrejection
      have hop : op ∈ ops := List.fst_mem_of_mem_zipIdx hi
      obtain ⟨ea, hat, hlen⟩ := hops op hop
      exact ⟨op, hop, ea, hat, ((validateOpIn_spec hat hlen i).2 _ hcall).mp (by simp)⟩
  · rintro ⟨hanswers, op, hop, ea, hat, hfails⟩
    have hcalls : ∀ entry ∈ ops.zipIdx, ∃ rejection, validateOpIn r f entry = .ok rejection := by
      rintro ⟨op', i⟩ hi
      have hop' : op' ∈ ops := List.fst_mem_of_mem_zipIdx hi
      obtain ⟨ea', hat', hlen'⟩ := hops op' hop'
      exact (validateOpIn_spec hat' hlen' i).1.mpr (hanswers op' hop' ea' hat')
    obtain ⟨rejections, hloop⟩ := Outcome.mapList_ok_iff.mpr hcalls
    refine ⟨rejections, hloop, ?_⟩
    obtain ⟨i, hi⟩ := exists_mem_zipIdx hop
    obtain ⟨rejection, hmem, hcall⟩ := Outcome.mem_mapList hloop hi
    obtain ⟨-, -, hlen⟩ := hops op hop
    obtain ⟨x, rfl⟩ := Option.ne_none_iff_exists'.mp
      (((validateOpIn_spec hat hlen i).2 _ hcall).mpr hfails)
    exact List.ne_nil_of_mem (List.mem_filterMap.mpr ⟨some x, hmem, rfl⟩)

/-- A plan whose bytes have changed since its proposal is reported as not valid exactly when the
function of its target is gone, or when the backend answers what the checks ask and a range leaves
the function, is referenced or cannot be read. -/
theorem changed_bytes_iff {r r' : Reader} {idx : AnalysisIndex} {target : U64}
    {kind : TransformKind}
    {plan : Json} (h : proposeIn r idx target kind = .ok plan) (_ : BytesChanged r r' plan) :
    (∃ v, validateIn r' plan = .ok v ∧ v.idx "valid" = false) ↔
      (∃ e, r'.function_at target = .err e) ∨
        ∃ f, r'.function_at target = .ok f ∧ Rejected r' f (items plan "operations") := by
  obtain ⟨htarget, hsites⟩ := proposeIn_plan h
  have hops : ∀ op ∈ items plan "operations", ∃ ea, OpAt op ea ∧ opLen op < 2 ^ 64 := by
    intro op hop
    obtain ⟨site, rfl, hlen⟩ := hsites op hop
    exact ⟨site.ea, opAt_patchOp site, by rw [opLen_patchOp]; omega⟩
  rw [validateIn]
  rw [htarget, Outcome.ok_bind]
  cases hf : r'.function_at target with
  | panic p => simp
  | err e => simp [Json.idx, Json.get]
  | ok f =>
    have hrejected := rejections_iff (r := r') (f := f) hops
    simp only [reduceCtorEq, exists_false, false_or, Outcome.ok.injEq, exists_eq_left', ← hrejected]
    constructor
    · rintro ⟨v, hv, hvalid⟩
      obtain ⟨rejections, hloop, hv⟩ := Outcome.bind_eq_ok.mp hv
      obtain rfl := Outcome.ok.inj hv
      refine ⟨rejections, hloop, ?_⟩
      simpa [Json.idx, Json.get] using hvalid
    · rintro ⟨rejections, hloop, hne⟩
      refine ⟨_, by rw [hloop, Outcome.ok_bind, Outcome.pure_eq], ?_⟩
      simpa [Json.idx, Json.get] using hne

end

/-- A backend with one listing in a function up to `0x401040`, and bytes from `0x401000` on. -/
def Reader.ofMemory (l : List SizedInsn) (memory : List String) : Reader :=
  { Reader.ofListing l with
    function_at := fun ea => .ok ⟨ea, 0x401040, "f", 0⟩
    get_bytes := fun ea size => .ok (.object [("ea", .nat ea.val),
      ("hex", String.join ((memory.drop (ea.val - 0x401000)).take size))]) }

/-- The bytes of `roundtripListing`. -/
def roundtripBytes : List String := ["89", "45", "f8", "8b", "45", "f8", "c3"]

/-- The listing with a load of another slot. -/
def otherLoadListing : List SizedInsn :=
  [⟨⟨0x401000, "mov", "Displ, Reg", "mov [ebp-8], eax"⟩, 3, Nat.succ_pos _⟩,
    ⟨⟨0x401003, "mov", "Reg, Displ", "mov eax, [ebp-4]"⟩, 3, Nat.succ_pos _⟩,
    ⟨⟨0x401006, "retn", "", "retn"⟩, 1, Nat.succ_pos _⟩]

/-- The bytes with a load of another slot. -/
def otherLoadBytes : List String := ["89", "45", "f8", "8b", "45", "fc", "c3"]

/-- The only operation of the plan for `roundtripListing`. -/
def roundtripOp : Json :=
  .object [("kind", "patch_bytes"), ("ea", "0x401000"), ("hex", "909090909090")]

lemma roundtripOp_at : OpAt roundtripOp 0x401000 := ⟨"0x401000", rfl, rfl⟩

/-- Bytes that are gone altogether are noticed. -/
theorem changed_bytes_iff_gone :
    letI : Host := Host.ascii false
    ∃ plan, proposeIn (Reader.ofMemory roundtripListing roundtripBytes) oneFunction 0x401000
        .T2JunkRemoval = .ok plan ∧
      ∃ v, validateIn (Reader.ofMemory roundtripListing []) plan = .ok v ∧
      v.idx "valid" = false := by
  let : Host := Host.ascii false
  obtain ⟨plan, hplan, hops⟩ : ∃ plan, proposeIn (Reader.ofMemory roundtripListing roundtripBytes)
      oneFunction 0x401000 .T2JunkRemoval = .ok plan ∧ items plan "operations" = [roundtripOp] :=
    ⟨_, rfl, by decide⟩
  have hchanged : BytesChanged (Reader.ofMemory roundtripListing roundtripBytes)
      (Reader.ofMemory roundtripListing []) plan :=
    ⟨roundtripOp, by rw [hops]; exact List.mem_singleton.mpr rfl, 0x401000,
      roundtripOp_at, by decide⟩
  refine ⟨plan, hplan, (changed_bytes_iff hplan hchanged).mpr (Or.inr ⟨_, rfl, ?_⟩)⟩
  rw [hops]
  constructor
  · intro op hop ea hat
    obtain rfl := List.mem_singleton.mp hop
    obtain rfl := hat.unique roundtripOp_at
    exact ⟨Or.inl (by decide), Or.inr ⟨fun _ _ => ⟨[], rfl⟩, Or.inr ⟨_, rfl⟩⟩⟩
  · exact ⟨roundtripOp, List.mem_singleton.mpr rfl, _, roundtripOp_at,
      Or.inr (Or.inr ⟨_, rfl, by decide⟩)⟩

/-- With the load changed to one of another slot the plan is still valid. -/
theorem changed_bytes_not :
    letI : Host := Host.ascii false
    ∃ plan, proposeIn (Reader.ofMemory roundtripListing roundtripBytes) oneFunction 0x401000
        .T2JunkRemoval = .ok plan ∧
      BytesChanged (Reader.ofMemory roundtripListing roundtripBytes)
        (Reader.ofMemory otherLoadListing otherLoadBytes) plan ∧
      ∃ v, validateIn (Reader.ofMemory otherLoadListing otherLoadBytes) plan = .ok v ∧
        v.idx "valid" = true := by
  let : Host := Host.ascii false
  obtain ⟨plan, hplan, hops⟩ : ∃ plan, proposeIn (Reader.ofMemory roundtripListing roundtripBytes)
      oneFunction 0x401000 .T2JunkRemoval = .ok plan ∧ items plan "operations" = [roundtripOp] :=
    ⟨_, rfl, by decide⟩
  have hmem : roundtripOp ∈ items plan "operations" := by
    rw [hops]
    exact List.mem_singleton.mpr rfl
  refine ⟨plan, hplan, ⟨roundtripOp, hmem, 0x401000, roundtripOp_at, by decide⟩, ?_⟩
  rw [validateIn]
  rw [(proposeIn_plan hplan).1, Outcome.ok_bind, hops]
  exact ⟨_, rfl, rfl⟩

end Transforms

end ReverseMcp
