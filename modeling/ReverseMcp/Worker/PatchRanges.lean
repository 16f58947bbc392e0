import ReverseMcp.Worker.Reader
import ReverseMcp.Worker.Transforms

/-!
# The ranges of a valid plan

`transforms::validate` over any backend: each operation is to lie inside the function of the plan's
target, with no reference into it other than by falling through.  The end of a range is a sum of
machine words.  With it wrapped the checks look at another range, and that this does not happen is
all they miss (`validate_sound_iff`).
-/

namespace ReverseMcp

open Rust

namespace Transforms

open Deep (items textOf)

section
variable [Host]

/-! ## The checks over a backend -/

/-- The references into the bytes of a site other than by falling through. -/
def inboundXrefsIn (r : Reader) (ea : U64) (len : ℕ) : Result (List XrefInfo) := do
  let found ← Outcome.mapList (fun a => do
    let at_ea ← addU64 ea (asU64 a)
    r.xrefs_to at_ea) (List.range len)
  return found.flatten.filter fun x => x.kind ≠ "flow"

/-- The check of operation `i` of a plan: its rejection, if any. -/
def validateOpIn (r : Reader) (f : FunctionInfo) (entry : Json × ℕ) : Result (Option Json) := do
  let op := entry.1
  let i := entry.2
  match (op.idx "ea").asStr with
  | none => return some (.object [("index", .nat i), ("reason", "malformed_op")])
  | some ea_s =>
    let ea ← parse_ea ea_s
    let len := byteLen (textOf op "hex").toList / 2
    let stop ← addU64 ea (asU64 len)
    if ea < f.ea_start ∨ f.ea_end < stop then
      return some (.object [("index", .nat i), ("ea", ea_s), ("reason", "outside_target_function"),
        ("detail", s!"site [{hex ea},{hex stop}) not inside [{hex f.ea_start},{hex f.ea_end})")])
    let xrefs ← inboundXrefsIn r ea len
    if !xrefs.isEmpty then
      return some (.object [("index", .nat i), ("ea", ea_s), ("reason", "inbound_xrefs"),
        ("detail", "site bytes are referenced; NOPs would corrupt callers"),
        ("xrefs", .array (xrefs.map fun x => .object [("from", .ea x.src), ("kind", x.kind)]))])
    let raw ← r.get_bytes ea len
    if textOf raw "hex" = "" then
      return some (.object [("index", .nat i), ("ea", ea_s), ("reason", "bytes_unreadable")])
    return none

/-- `transforms::validate` over any backend. -/
def validateIn (r : Reader) (plan : Json) : Result Json := do
  let kind := textOf plan "kind"
  let target ← planTarget plan
  match r.function_at target with
  | .panic p => .panic p
  | .err e =>
    return .object [("valid", false), ("kind", kind),
      ("rejections", .array [.object [("reason", "target_function_gone"), ("detail", e.text)]])]
  | .ok f =>
    let ops := items plan "operations"
    let rejections ← Outcome.mapList (validateOpIn r f) ops.zipIdx
    let rejections := rejections.filterMap id
    return .object [("valid", rejections.isEmpty), ("kind", kind),
      ("operations", .nat ops.length), ("rejections", .array rejections)]

/-- On the mock these are the checks of its own. -/
theorem validateIn_reader (b : MockBackend) (plan : Json) :
    validateIn b.reader plan = validate b plan :=
  rfl

/-! ## What a plan is to be -/

omit [Host] in
/-- The address of an operation. -/
def OpAt (op : Json) (ea : U64) : Prop := ∃ s, (op.idx "ea").asStr = some s ∧ parse_ea s = .ok ea

omit [Host] in
/-- The number of bytes that an operation patches. -/
def opLen (op : Json) : ℕ := byteLen (textOf op "hex").toList / 2

omit [Host] in
lemma OpAt.unique {op : Json} {ea ea' : U64} (h : OpAt op ea) (h' : OpAt op ea') : ea = ea' := by
  obtain ⟨s, hs, hea⟩ := h
  obtain ⟨s', hs', hea'⟩ := h'
  obtain rfl : s = s' := Option.some.inj (hs.symm.trans hs')
  exact Outcome.ok.inj (hea.symm.trans hea')

/-- The bytes of an operation lie inside the function, and nothing refers to one of them other than
by falling through.  The bounds are those of numbers. -/
def RangeSound (r : Reader) (f : FunctionInfo) (ea : U64) (len : ℕ) : Prop :=
  f.ea_start.val ≤ ea.val ∧ ea.val + len ≤ f.ea_end.val ∧
    ∀ a : U64, ea.val ≤ a.val → a.val < ea.val + len →
      ∃ xs, r.xrefs_to a = .ok xs ∧ ∀ x ∈ xs, x.kind = "flow"

/-- Every operation of the plan is sound in the function of its target. -/
def PlanSound (r : Reader) (plan : Json) : Prop :=
  ∃ target f, planTarget plan = .ok target ∧ r.function_at target = .ok f ∧
    ∀ op ∈ items plan "operations", ∃ ea, OpAt op ea ∧ RangeSound r f ea (opLen op)

/-! ## What is accepted -/

lemma addU64_eq_ok {ε : Type} {a b c : U64} (h : addU64 a b = (.ok c : Outcome ε U64)) :
    c = a + b := by
  rw [addU64] at h
  split at h
  · exact (Outcome.ok.inj h).symm
  · cases h

omit [Host] in
/-- The address behind `n` bytes, where it is one. -/
lemma val_add_asU64 {ea : U64} {n : ℕ} (h : ea.val + n < 2 ^ 64) :
    (ea + asU64 n).val = ea.val + n := by
  have hn : (asU64 n).val = n := Nat.mod_eq_of_lt (by omega)
  rw [Fin.val_add, hn]
  exact Nat.mod_eq_of_lt h

/-- An operation without rejection: what its checks have seen. -/
lemma validateOpIn_none {r : Reader} {f : FunctionInfo} {op : Json} {i : ℕ}
    (h : validateOpIn r f (op, i) = .ok none) :
    ∃ ea, OpAt op ea ∧ f.ea_start ≤ ea ∧ ea + asU64 (opLen op) ≤ f.ea_end ∧
      inboundXrefsIn r ea (opLen op) = .ok [] := by
  rw [validateOpIn] at h
  simp only at h
  split at h
  · cases h
  · rename_i ea_s hea_s
    obtain ⟨ea, hea, h⟩ := Outcome.bind_eq_ok.mp h
    obtain ⟨stop, hstop, h⟩ := Outcome.bind_eq_ok.mp h
    split at h
    · cases h
    · rename_i hinside
      -- the two bounds are compared with the sum as the code has it, which may have wrapped
      rw [not_or, not_lt, not_lt] at hinside
      obtain ⟨xrefs, hxrefs, h⟩ := Outcome.bind_eq_ok.mp h
      split at h
      · cases h
      · rename_i hempty
        have hnil : xrefs = [] := by simpa using hempty
        rw [addU64_eq_ok hstop] at hinside
        exact ⟨ea, ⟨ea_s, hea_s, hea⟩, hinside.1, hinside.2, hnil ▸ hxrefs⟩

/-- Without inbound references each byte of a range that does not wrap has only those that fall
through. -/
lemma flow_of_inboundXrefsIn {r : Reader} {ea : U64} {len : ℕ} (hfits : ea.val + len < 2 ^ 64)
    (h : inboundXrefsIn r ea len = .ok []) {a : U64} (hle : ea.val ≤ a.val)
    (hlt : a.val < ea.val + len) : ∃ xs, r.xrefs_to a = .ok xs ∧ ∀ x ∈ xs, x.kind = "flow" := by
  obtain ⟨found, hfound, h⟩ := Outcome.bind_eq_ok.mp h
  have hnone : found.flatten.filter (fun x => x.kind ≠ "flow") = [] := Outcome.ok.inj h
  have hmem : a.val - ea.val ∈ List.range len := List.mem_range.mpr (by omega)
  -- the references to `a` are asked for when the loop is at its offset
  obtain ⟨xs, hxs, hcall⟩ := Outcome.mem_mapList hfound hmem
  obtain ⟨at_ea, hat, hcall⟩ := Outcome.bind_eq_ok.mp hcall
  have hat_ea : at_ea = a := by
    rw [addU64_eq_ok hat]
    refine Fin.ext ?_
    rw [val_add_asU64 (by omega)]
    omega
  refine ⟨xs, hat_ea ▸ hcall, fun x hx => ?_⟩
  have hflow := List.filter_eq_nil_iff.mp hnone x (List.mem_flatten.mpr ⟨xs, hxs, hx⟩)
  simpa using hflow

/-- A plan that is reported as valid has no rejection. -/
lemma validateIn_valid {r : Reader} {plan v : Json} (h : validateIn r plan = .ok v)
    (hvalid : v.idx "valid" = true) :
    ∃ target f, planTarget plan = .ok target ∧ r.function_at target = .ok f ∧
      ∀ op ∈ items plan "operations", ∃ i, validateOpIn r f (op, i) = .ok none := by
  obtain ⟨target, htarget, h⟩ := Outcome.bind_eq_ok.mp h
  split at h
  · cases h
  · cases h
    cases hvalid
  · rename_i f hf
    obtain ⟨rejections, hrejections, h⟩ := Outcome.bind_eq_ok.mp h
    cases h
    have hnone : rejections.filterMap id = [] := by simpa [Json.idx, Json.get] using hvalid
    refine ⟨target, f, htarget, hf, fun op hop => ?_⟩
    obtain ⟨i, hi, rfl⟩ := List.mem_iff_getElem.mp hop
    have hmem : ((items plan "operations")[i], i) ∈ (items plan "operations").zipIdx :=
      List.mk_mem_zipIdx_iff_getElem?.mpr (List.getElem?_eq_getElem hi)
    obtain ⟨rejection, hin, hcall⟩ := Outcome.mem_mapList hrejections hmem
    refine ⟨i, ?_⟩
    rw [hcall]
    exact congrArg Outcome.ok (List.filterMap_eq_nil_iff.mp hnone rejection hin)

/-- A valid plan is sound exactly when no operation runs over the last address. -/
theorem validate_sound_iff {r : Reader} {plan v : Json} (h : validateIn r plan = .ok v)
    (hvalid : v.idx "valid" = true) :
    PlanSound r plan ↔ ∀ op ∈ items plan "operations", ∀ ea, OpAt op ea →
      ea.val + opLen op < 2 ^ 64 := by
  obtain ⟨target, f, htarget, hf, hops⟩ := validateIn_valid h hvalid
  constructor
  · rintro ⟨target', f', htarget', hf', hsound⟩ op hop ea hea
    obtain ⟨ea', hea', -, hend, -⟩ := hsound op hop
    obtain rfl := hea.unique hea'
    exact lt_of_le_of_lt hend f'.ea_end.isLt
  · intro hfits
    refine ⟨target, f, htarget, hf, fun op hop => ?_⟩
    obtain ⟨i, hi⟩ := hops op hop
    obtain ⟨ea, hea, hstart, hend, hxrefs⟩ := validateOpIn_none hi
    have hfit := hfits op hop ea hea
    refine ⟨ea, hea, Fin.le_def.mp hstart, ?_, fun a hle hlt =>
      flow_of_inboundXrefsIn hfit hxrefs hle hlt⟩
    -- without a wrap the sum of the check is the end of the range
    rw [← val_add_asU64 hfit]
    exact Fin.le_def.mp hend

end

/-- A plan for the function at `0x401000` that patches two bytes. -/
def patchPlan (ea : String) : Json :=
  .object [("kind", "T2_junk_removal"), ("target", "0x401000"), ("operations", .array [
    .object [("kind", "patch_bytes"), ("ea", ea), ("hex", "9090")]])]

/-- The mock, open, with two bytes patched at the last address. -/
def edgeBackend : MockBackend :=
  { MockBackend.new with
    open_path := some "t.i64"
    bytes := MockBackend.new.bytes.insert 0xffffffffffffffff [0x90, 0x90] }

/-- Two bytes at the start of the function. -/
theorem validate_sound_iff_inside :
    letI : Host := Host.ascii false
    ∃ v, validate edgeBackend (patchPlan "0x401000") = .ok v ∧ v.idx "valid" = true ∧
      PlanSound edgeBackend.reader (patchPlan "0x401000") := by
  let : Host := Host.ascii false
  obtain ⟨v, hv, hvalid⟩ : ∃ v, validate edgeBackend (patchPlan "0x401000") = .ok v ∧
      v.idx "valid" = true := ⟨_, rfl, by decide⟩
  refine ⟨v, hv, hvalid, (validate_sound_iff (r := edgeBackend.reader) hv hvalid).mpr ?_⟩
  rintro op hop ea hea
  obtain rfl := List.mem_singleton.mp hop
  obtain rfl : ea = 0x401000 := hea.unique ⟨"0x401000", rfl, rfl⟩
  decide

/-- Two bytes at the last address are accepted as inside the function. -/
theorem validate_not_sound :
    letI : Host := Host.ascii false
    ∃ v, validate edgeBackend (patchPlan "0xffffffffffffffff") = .ok v ∧ v.idx "valid" = true ∧
      ¬PlanSound edgeBackend.reader (patchPlan "0xffffffffffffffff") := by
  let : Host := Host.ascii false
  refine ⟨_, rfl, by decide, ?_⟩
  rintro ⟨target, f, htarget, hf, hsound⟩
  obtain ⟨ea, hea, -, hend, -⟩ := hsound _ (List.mem_singleton.mpr rfl)
  obtain rfl : ea = 0xffffffffffffffff := hea.unique ⟨"0xffffffffffffffff", rfl, rfl⟩
  have hlt : 2 ^ 64 - 1 + 2 < 2 ^ 64 := lt_of_le_of_lt hend f.ea_end.isLt
  omega

end Transforms

end ReverseMcp
