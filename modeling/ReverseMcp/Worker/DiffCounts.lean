import ReverseMcp.Worker.BlockMatching

/-!
# The counts of a binary diff

`diff_binary_json` decides with the counts of the rows that are shown whether a function has
changed.  The rows are sorted by their classification, so that a cut takes the changes first:
`diff_binary_json_exact_iff` is the exact condition under which the answer is right.
-/

namespace ReverseMcp

open Rust

namespace Blockdiff

open Deep (items)

variable {rows : List BlockRow} {n : ℕ} {t : ℚ}

/-! ## Cutting off rows -/

/-- No row says that something has changed. -/
def AllEqual (rows : List BlockRow) : Prop :=
  kindCount .modified rows = 0 ∧ kindCount .added rows = 0 ∧ kindCount .removed rows = 0

instance : DecidablePred AllEqual := fun _ => inferInstanceAs (Decidable (_ ∧ _ ∧ _))

lemma allEqual_iff : AllEqual rows ↔ ∀ r ∈ rows, r.kind = .equal := by
  have hzero : ∀ k, kindCount k rows = 0 ↔ ∀ r ∈ rows, r.kind ≠ k := by
    intro k
    rw [kindCount, List.length_eq_zero_iff, List.filter_eq_nil_iff]
    simp
  rw [AllEqual, hzero, hzero, hzero]
  constructor
  · rintro ⟨hmodified, hadded, hremoved⟩ r hr
    cases hkind : r.kind with
    | equal => rfl
    | modified => exact absurd hkind (hmodified r hr)
    | removed => exact absurd hkind (hremoved r hr)
    | added => exact absurd hkind (hadded r hr)
  · intro h
    refine ⟨fun r hr => ?_, fun r hr => ?_, fun r hr => ?_⟩ <;>
    · rw [h r hr]
      decide

lemma AllEqual.take (h : AllEqual rows) (n : ℕ) : AllEqual (rows.take n) :=
  allEqual_iff.mpr fun r hr => allEqual_iff.mp h r (List.mem_of_mem_take hr)

lemma sortedRows_ranks (a b : List BlockFp) (t : ℚ) :
    (sortedRows a b t).Pairwise fun r r' => r.kind.rank ≤ r'.kind.rank := by
  refine (sortByKey_pairwise rowKey _).imp fun {r r'} hle => ?_
  have hlex : compare (rowKey r) (rowKey r') =
      (compare r.kind.rank r'.kind.rank).then (compare (rowKey r).2 (rowKey r').2) := rfl
  rw [hlex] at hle
  exact Nat.isLE_compare.mp (Ordering.isLE_left_of_isLE_then hle)

lemma RowKind.eq_equal {k : RowKind} (h : k.rank ≤ RowKind.equal.rank) : k = .equal := by
  cases k with
  | equal => rfl
  | modified | removed | added => exact absurd h (by decide)

/-- Where rows in order are cut off and there is a change, a change is lost. -/
lemma exists_count_lt (hsorted : rows.Pairwise fun r r' => r.kind.rank ≤ r'.kind.rank)
    (hchanged : ¬AllEqual rows) (hcut : n < rows.length) :
    ∃ k, k ≠ .equal ∧ kindCount k (rows.take n) < kindCount k rows := by
  have hlost : ∃ r ∈ rows.drop n, r.kind ≠ .equal := by
    by_contra hnone
    push Not at hnone
    refine hchanged (allEqual_iff.mpr fun r hr => ?_)
    rw [← List.take_append_drop n rows] at hr hsorted
    rcases List.mem_append.mp hr with hr | hr
    · -- what is left is not behind what has been cut off
      have hne : rows.drop n ≠ [] := by rwa [Ne, List.drop_eq_nil_iff, not_le]
      obtain ⟨last, hlast⟩ := List.exists_mem_of_ne_nil _ hne
      have hle := (List.pairwise_append.mp hsorted).2.2 r hr last hlast
      rw [hnone last hlast] at hle
      exact RowKind.eq_equal hle
    · exact hnone r hr
  obtain ⟨r, hr, hkind⟩ := hlost
  refine ⟨r.kind, hkind, ?_⟩
  have hpos : 0 < kindCount r.kind (rows.drop n) := by
    rw [kindCount, List.length_pos_iff_exists_mem]
    exact ⟨r, List.mem_filter.mpr ⟨hr, decide_eq_true rfl⟩⟩
  have hsum : kindCount r.kind rows =
      kindCount r.kind (rows.take n) + kindCount r.kind (rows.drop n) := by
    rw [← kindCount_append, List.take_append_drop]
  omega

/-! ## One pair of functions -/

/-- The blocks of an exported function. -/
def blocksIn (f : Json) : List BlockFp := (parse_fn_blocks f).value?.getD []

/-- All rows of the diff of two functions. -/
def fullRows (t : ℚ) (p : Json × Json) : List BlockRow :=
  sortedRows (blocksIn p.1) (blocksIn p.2) t

/-- No block of either function is modified, added or removed. -/
def Unchanged (t : ℚ) (p : Json × Json) : Prop := AllEqual (fullRows t p)

instance (t : ℚ) : DecidablePred (Unchanged t) := fun p =>
  inferInstanceAs (Decidable (AllEqual (fullRows t p)))

/-- A function that has changed, with some of the rows of its diff. -/
def changedWith (p : Json × Json) (rows : List BlockRow) : Option Json :=
  if AllEqual rows then none
  else some (.object [("name", p.1.idx "name"), ("name_b", p.2.idx "name"),
    ("ea_a", p.1.idx "ea"), ("ea_b", p.2.idx "ea"),
    ("modified", .nat (kindCount .modified rows)), ("added", .nat (kindCount .added rows)),
    ("removed", .nat (kindCount .removed rows)), ("rows", .array (rows.map block_row))])

/-- What an entry of `changed` says of a function. -/
def listedAs (r : Json) : List Json :=
  [r.idx "name", r.idx "name_b", r.idx "ea_a", r.idx "ea_b", r.idx "modified", r.idx "added",
    r.idx "removed"]

/-- What is said of a function that has changed when these are the rows of its diff. -/
def saidOf (p : Json × Json) (rows : List BlockRow) : Option (List Json) :=
  if AllEqual rows then none
  else some [p.1.idx "name", p.2.idx "name", p.1.idx "ea", p.2.idx "ea",
    .nat (kindCount .modified rows), .nat (kindCount .added rows),
    .nat (kindCount .removed rows)]

/-- What has to be said of a pair of functions. -/
def changedRow (t : ℚ) (p : Json × Json) : Option (List Json) := saidOf p (fullRows t p)

/-- The answer counts the function pairs without changes as equal, and lists the others with their
full counts. -/
structure ExactDiff (t : ℚ) (pairs : List (Json × Json)) (out : Json) : Prop where
  equal : out.idx "equal" = .nat (pairs.countP fun p => Unchanged t p)
  changed : ∃ rows, out.idx "changed" = .array rows ∧
    rows.map listedAs = pairs.filterMap (changedRow t)

lemma changedWith_listedAs (p : Json × Json) (rows : List BlockRow) :
    (changedWith p rows).map listedAs = saidOf p rows := by
  rw [changedWith, saidOf]
  split <;> rfl

lemma nat_injective {a b : ℕ} (ha : a < 2 ^ 64) (hb : b < 2 ^ 64) (h : Json.nat a = Json.nat b) :
    a = b := by
  have hwords : asU64 a = asU64 b := Number.posInt.inj (Json.number.inj h)
  rw [← asU64_val ha, ← asU64_val hb, hwords]

lemma kindCount_le (k : RowKind) (rows : List BlockRow) : kindCount k rows ≤ rows.length :=
  List.length_filter_le _ _

/-- The rows that are left say what has to be said iff nothing has changed or nothing has been cut
off. -/
lemma saidOf_take_iff {p : Json × Json} (hshort : (fullRows t p).length < 2 ^ 64) :
    saidOf p ((fullRows t p).take n) = changedRow t p ↔
      Unchanged t p ∨ (fullRows t p).length ≤ n := by
  by_cases hsame : AllEqual (fullRows t p)
  · refine iff_of_true ?_ (.inl hsame)
    rw [saidOf, if_pos (hsame.take n), changedRow, saidOf, if_pos hsame]
  have hiff : Unchanged t p ∨ (fullRows t p).length ≤ n ↔ (fullRows t p).length ≤ n :=
    or_iff_right hsame
  rw [hiff]
  constructor
  · intro h
    by_contra hcut
    obtain ⟨k, hk, hlt⟩ := exists_count_lt (sortedRows_ranks _ _ t) hsame (not_le.mp hcut)
    rw [saidOf, changedRow, saidOf, if_neg hsame] at h
    split at h
    · cases h
    -- every count would be that of all rows
    have hfit : ∀ k, kindCount k (fullRows t p) < 2 ^ 64 := fun k =>
      (kindCount_le k _).trans_lt hshort
    have hfit' : ∀ k, kindCount k ((fullRows t p).take n) < 2 ^ 64 := fun k =>
      (kindCount_le k _).trans_lt ((List.length_take_le' n _).trans_lt hshort)
    simp only [Option.some.injEq, List.cons.injEq, and_true, true_and] at h
    obtain ⟨hmodified, hadded, hremoved⟩ := h
    have heq : kindCount k ((fullRows t p).take n) = kindCount k (fullRows t p) := by
      cases k with
      | equal => exact absurd rfl hk
      | modified => exact nat_injective (hfit' _) (hfit _) hmodified
      | removed => exact nat_injective (hfit' _) (hfit _) hremoved
      | added => exact nat_injective (hfit' _) (hfit _) hadded
    exact absurd heq hlt.ne
  · intro h
    rw [List.take_of_length_le h, changedRow]

lemma fullRows_length (t : ℚ) (p : Json × Json) :
    (fullRows t p).length + (pairing (blocksIn p.1) (blocksIn p.2) t).pairs.length =
      (blocksIn p.1).length + (blocksIn p.2).length := by
  have hvalid := (pairing_spec (blocksIn p.1) (blocksIn p.2) t).1
  have ha := removedRows_length hvalid
  have hb := addedRows_length hvalid
  rw [fullRows, (sortedRows_perm _ _ t).length_eq, unsortedRows, List.length_append,
    List.length_append, pairedRows_length hvalid.matching]
  omega

/-! ## All pairs -/

lemma blocksIn_eq {f : Json} {fps : List BlockFp} (h : parse_fn_blocks f = .ok fps) :
    blocksIn f = fps := by
  rw [blocksIn, h]
  rfl

/-- What `diff_binary_json` gives. -/
lemma diff_binary_json_eq {fa fb : List Json} {max_blocks : ℕ} {out : Json}
    (h : diff_binary_json fa fb t max_blocks = .ok out) :
    (∀ p ∈ functionPairs fa fb, parse_fn_blocks p.1 = .ok (blocksIn p.1) ∧
      parse_fn_blocks p.2 = .ok (blocksIn p.2)) ∧
    ∃ rows, rows = (functionPairs fa fb).map
        (fun p => changedWith p ((fullRows t p).take (max_blocks * 4))) ∧
      out = .object [("matched_functions", .nat (functionPairs fa fb).length),
        ("equal", .nat (rows.filter Option.isNone).length),
        ("changed", .array (rows.filterMap id)),
        ("pairing", "name + evidence-similarity fallback (stripped builds pair by evidence)")] := by
  rw [diff_binary_json] at h
  obtain ⟨rows, hrows, hout⟩ := Outcome.bind_eq_ok.mp h
  have hparsed : ∀ p ∈ functionPairs fa fb, parse_fn_blocks p.1 = .ok (blocksIn p.1) ∧
      parse_fn_blocks p.2 = .ok (blocksIn p.2) := by
    intro p hp
    obtain ⟨row, -, hrow⟩ := Outcome.mem_mapList hrows hp
    obtain ⟨x, hx, hrow⟩ := Outcome.bind_eq_ok.mp hrow
    obtain ⟨y, hy, -⟩ := Outcome.bind_eq_ok.mp hrow
    exact ⟨by rw [blocksIn_eq hx, hx], by rw [blocksIn_eq hy, hy]⟩
  refine ⟨hparsed, rows, ?_, (Outcome.ok.inj hout).symm⟩
  rw [Outcome.mapList_eq_ok (g := fun p => changedWith p ((fullRows t p).take (max_blocks * 4)))
    fun p hp => ?_] at hrows
  · exact (Outcome.ok.inj hrows).symm
  · obtain ⟨hx, hy⟩ := hparsed p hp
    rw [hx, Outcome.ok_bind, hy, Outcome.ok_bind, diff_blocks_eq]
    rfl

/-- The answer is right iff every function pair either has no changes or has no more rows than are
shown. -/
theorem diff_binary_json_exact_iff {fa fb : List Json} {max_blocks : ℕ} {out : Json}
    (hlen : ∀ p ∈ functionPairs fa fb,
      (items p.1 "blocks").length < 2 ^ 63 ∧ (items p.2 "blocks").length < 2 ^ 63)
    (h : diff_binary_json fa fb t max_blocks = .ok out) :
    ExactDiff t (functionPairs fa fb) out ↔ ∀ p ∈ functionPairs fa fb, Unchanged t p ∨
      (blocksIn p.1).length + (blocksIn p.2).length ≤
        max_blocks * 4 + (pairing (blocksIn p.1) (blocksIn p.2) t).pairs.length := by
  obtain ⟨hparsed, rows, hrows, rfl⟩ := diff_binary_json_eq h
  have hshort : ∀ p ∈ functionPairs fa fb, (fullRows t p).length < 2 ^ 64 := by
    intro p hp
    obtain ⟨ha, hb⟩ := hlen p hp
    obtain ⟨hpa, hpb⟩ := hparsed p hp
    have hla := Outcome.mapList_length hpa
    have hlb := Outcome.mapList_length hpb
    have hrows := fullRows_length t p
    omega
  have hchanged : (rows.filterMap id).map listedAs = (functionPairs fa fb).filterMap
      fun p => saidOf p ((fullRows t p).take (max_blocks * 4)) := by
    rw [hrows, List.filterMap_map, List.map_filterMap]
    exact List.filterMap_congr fun p _ => changedWith_listedAs p _
  have hiff : (rows.filterMap id).map listedAs = (functionPairs fa fb).filterMap (changedRow t) ↔
      ∀ p ∈ functionPairs fa fb, saidOf p ((fullRows t p).take (max_blocks * 4)) =
        changedRow t p := by
    rw [hchanged]
    refine filterMap_eq_iff fun p _ hnone => ?_
    rw [changedRow, saidOf] at hnone
    split at hnone
    · next hsame => rw [saidOf, if_pos (hsame.take _)]
    · cases hnone
  have hlength : ∀ p, (blocksIn p.1).length + (blocksIn p.2).length ≤
      max_blocks * 4 + (pairing (blocksIn p.1) (blocksIn p.2) t).pairs.length ↔
        (fullRows t p).length ≤ max_blocks * 4 := by
    intro p
    rw [← fullRows_length]
    exact Nat.add_le_add_iff_right
  constructor
  · rintro ⟨-, listed, hlisted, hsaid⟩ p hp
    obtain rfl : rows.filterMap id = listed := Json.array.inj hlisted
    rw [hlength]
    exact (saidOf_take_iff (hshort p hp)).mp (hiff.mp hsaid p hp)
  · intro hall
    have hsaid : ∀ p ∈ functionPairs fa fb,
        saidOf p ((fullRows t p).take (max_blocks * 4)) = changedRow t p := by
      intro p hp
      refine (saidOf_take_iff (hshort p hp)).mpr ?_
      rw [← hlength]
      exact hall p hp
    refine ⟨?_, _, rfl, hiff.mpr hsaid⟩
    have hcount : (rows.filter Option.isNone).length =
        (functionPairs fa fb).countP fun p => Unchanged t p := by
      rw [hrows, List.filter_map, List.length_map, ← List.countP_eq_length_filter]
      refine List.countP_congr fun p hp => ?_
      rw [Function.comp_apply, Option.isNone_iff_eq_none, decide_eq_true_iff]
      rw [← Option.map_eq_none_iff (f := listedAs), changedWith_listedAs, hsaid p hp, changedRow,
        saidOf]
      split
      · next hsame => exact iff_of_true rfl hsame
      · next hdiff => exact iff_of_false (by simp) hdiff
    rw [← hcount]
    rfl

/-- An exported function with copies of one block. -/
def copies (n : ℕ) : Json :=
  .object [("name", "f"), ("blocks", .array (List.replicate n (.object [("ea", "0x10")])))]

/-- A block is removed. -/
theorem diff_binary_json_exact_iff_one_block : ∃ out,
    diff_binary_json [copies 2] [copies 1] (8 / 10) 8 = .ok out ∧
      ExactDiff (8 / 10) (functionPairs [copies 2] [copies 1]) out := by
  obtain ⟨out, hout⟩ : ∃ out, diff_binary_json [copies 2] [copies 1] (8 / 10) 8 = .ok out :=
    Outcome.isOk_iff.mp (by decide +kernel)
  refine ⟨out, hout, (diff_binary_json_exact_iff ?_ hout).mpr ?_⟩
  · decide +kernel
  · decide +kernel

/-- Of 33 blocks one is removed; with 32 rows shown, the function counts as equal. -/
theorem diff_binary_json_not_exact : ∃ out,
    diff_binary_json [copies 33] [copies 32] (8 / 10) 8 = .ok out ∧
      out.idx "equal" = .nat 1 ∧ out.idx "changed" = .array [] ∧
      ¬ExactDiff (8 / 10) (functionPairs [copies 33] [copies 32]) out := by
  obtain ⟨out, hout⟩ : ∃ out, diff_binary_json [copies 33] [copies 32] (8 / 10) 8 = .ok out :=
    Outcome.isOk_iff.mp (by decide +kernel)
  have hshown : (diff_binary_json [copies 33] [copies 32] (8 / 10) 8).value?.map
      (fun out => (out.idx "equal", out.idx "changed")) = some (.nat 1, .array []) := by
    decide +kernel
  rw [hout] at hshown
  obtain ⟨hequal, hchanged⟩ := Prod.mk.inj (Option.some.inj hshown)
  refine ⟨out, hout, hequal, hchanged, fun h => ?_⟩
  have hnone : (functionPairs [copies 33] [copies 32]).countP
      (fun p => Unchanged (8 / 10) p) = 0 := by decide +kernel
  have hzero := h.equal
  rw [hnone, hequal] at hzero
  exact absurd hzero (by decide)

end Blockdiff

end ReverseMcp
