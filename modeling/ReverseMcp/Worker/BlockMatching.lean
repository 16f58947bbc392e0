import ReverseMcp.Rust.Collections
import ReverseMcp.Rust.Matching
import ReverseMcp.Rust.Scan
import ReverseMcp.Worker.Blockdiff

/-!
# The pairs of a block diff

The two passes of `diff_blocks` share the positions that are used up.  The invariant of the first
one (`ExactAt`) ties the stacks of positions by shape to the pairs that are there; what the second
one leaves unmatched on both sides is below the threshold.
-/

namespace ReverseMcp

open Rust

namespace Blockdiff

variable {a b : List BlockFp} {threshold : ℚ} {m n i j : ℕ} {p : Pairing}

/-- The positions used are those of the pairs, and no position comes up twice. -/
structure Pairing.Valid (m n : ℕ) (p : Pairing) : Prop where
  matching : Matches m n p.pairs
  used_a : p.used_a = (p.pairs.map Prod.fst).reverse
  used_b : p.used_b = (p.pairs.map Prod.snd).reverse

namespace Pairing.Valid

lemma empty (m n : ℕ) : Pairing.Valid m n ⟨[], [], []⟩ := ⟨.nil m n, rfl, rfl⟩

lemma mem_used_a (h : p.Valid m n) : i ∈ p.used_a ↔ i ∈ p.pairs.map Prod.fst := by
  rw [h.used_a, List.mem_reverse]

lemma mem_used_b (h : p.Valid m n) : j ∈ p.used_b ↔ j ∈ p.pairs.map Prod.snd := by
  rw [h.used_b, List.mem_reverse]

lemma add (h : p.Valid m n) (hi : i < m) (hj : j < n) (hi' : i ∉ p.used_a) (hj' : j ∉ p.used_b) :
    (p.add i j).Valid m n := by
  refine ⟨h.matching.concat hi hj (mt h.mem_used_a.mpr hi') (mt h.mem_used_b.mpr hj'), ?_, ?_⟩
  · rw [Pairing.add, h.used_a]
    simp
  · rw [Pairing.add, h.used_b]
    simp

end Pairing.Valid

/-! ## The exact pass -/

/-- The blocks of a shape. -/
def blocksOf (shape : U64) (l : List BlockFp) : ℕ := l.countP fun x => shape_hash x = shape

/-- The pairs whose block in `a` has a shape. -/
def pairsOf (shape : U64) (a : List BlockFp) (pairs : List (ℕ × ℕ)) : ℕ :=
  pairs.countP fun p => a[p.1]?.map shape_hash = some shape

/-- The positions on the stack of a shape. -/
def stackOf (shapes : AddrMap (List ℕ)) (shape : U64) : List ℕ := shapes[shape]?.getD []

lemma stackOf_insert (shapes : AddrMap (List ℕ)) (shape shape' : U64) (stack : List ℕ) :
    stackOf (shapes.insert shape stack) shape' =
      if shape' = shape then stack else stackOf shapes shape' := by
  rw [stackOf, getElem?_insert_eq_ite]
  split <;> rfl

/-- The stack of a shape has the positions of its blocks, the last one on top. -/
lemma stackOf_byShape (b : List BlockFp) (shape : U64) : stackOf (byShape b) shape =
    ((b.zipIdx.filter fun q => shape_hash q.1 = shape).map Prod.snd).reverse := by
  rw [byShape]
  induction b.zipIdx using List.reverseRecOn with
  | nil => rfl
  | append_singleton l q ih =>
    rw [List.foldl_concat, stackOf_insert]
    rw [List.filter_append, List.map_append, List.reverse_append, ← ih]
    by_cases hq : shape = shape_hash q.1
    · subst hq
      simp [stackOf]
    · simp [hq, Ne.symm hq]

/-- The exact pass before position `k` of `a`. -/
structure ExactAt (a b : List BlockFp) (k : ℕ) (shapes : AddrMap (List ℕ)) (p : Pairing) :
    Prop where
  valid : p.Valid a.length b.length
  before : ∀ q ∈ p.pairs, q.1 < k
  same : ∀ q ∈ p.pairs, a[q.1]?.map shape_hash = b[q.2]?.map shape_hash
  mem_stack : ∀ shape j, j ∈ stackOf shapes shape ↔
    b[j]?.map shape_hash = some shape ∧ j ∉ p.pairs.map Prod.snd
  stack_nodup : ∀ shape, (stackOf shapes shape).Nodup
  left : ∀ shape, pairsOf shape a p.pairs + (stackOf shapes shape).length = blocksOf shape b
  count : ∀ shape, pairsOf shape a p.pairs = min (blocksOf shape (a.take k)) (blocksOf shape b)

namespace ExactAt

variable {shapes : AddrMap (List ℕ)} {blk : BlockFp} {k : ℕ} {stack : List ℕ}

lemma start (a b : List BlockFp) : ExactAt a b 0 (byShape b) ⟨[], [], []⟩ := by
  have hpositions : ∀ shape, stackOf (byShape b) shape =
      ((b.zipIdx.filter fun q => shape_hash q.1 = shape).map Prod.snd).reverse :=
    stackOf_byShape b
  refine ⟨.empty _ _, by simp, by simp, fun shape j => ?_, fun shape => ?_, fun shape => ?_,
    fun shape => ?_⟩
  · rw [hpositions, List.mem_reverse, List.mem_map]
    constructor
    · rintro ⟨q, hq, rfl⟩
      obtain ⟨hmem, hshape⟩ := List.mem_filter.mp hq
      refine ⟨?_, List.not_mem_nil⟩
      rw [List.mem_zipIdx_iff_getElem?.mp hmem, Option.map_some, of_decide_eq_true hshape]
    · rintro ⟨hj, -⟩
      obtain ⟨x, hx, hshape⟩ := Option.map_eq_some_iff.mp hj
      refine ⟨(x, j), List.mem_filter.mpr ⟨?_, decide_eq_true hshape⟩, rfl⟩
      exact List.mem_zipIdx_iff_getElem?.mpr hx
  · rw [hpositions, List.nodup_reverse]
    refine List.Nodup.sublist (List.filter_sublist.map Prod.snd) ?_
    rw [List.zipIdx_map_snd]
    exact List.nodup_range'
  · rw [hpositions, List.length_reverse, List.length_map, ← List.countP_eq_length_filter]
    have hfst : blocksOf shape b = blocksOf shape (b.zipIdx.map Prod.fst) := by
      rw [List.zipIdx_map_fst]
    rw [hfst, blocksOf, List.countP_map, pairsOf, List.countP_nil, Nat.zero_add]
    rfl
  · rw [List.take_zero, pairsOf, List.countP_nil, blocksOf, List.countP_nil, Nat.zero_min]

lemma blocksOf_take_succ (hk : a[k]? = some blk) (shape : U64) :
    blocksOf shape (a.take (k + 1)) =
      blocksOf shape (a.take k) + if shape_hash blk = shape then 1 else 0 := by
  rw [List.take_add_one, hk, blocksOf, List.countP_append, blocksOf]
  simp [List.countP_cons]

/-- There is a partner of the same shape. -/
lemma pair (h : ExactAt a b k shapes p) (hk : a[k]? = some blk)
    (hstack : stackOf shapes (shape_hash blk) = j :: stack) :
    ExactAt a b (k + 1) (shapes.insert (shape_hash blk) stack) (p.add k j) := by
  have hlt : k < a.length := (List.getElem?_eq_some_iff.mp hk).1
  have hj := (h.mem_stack (shape_hash blk) j).mp (by rw [hstack]; exact List.mem_cons_self)
  obtain ⟨y, hy, hshape⟩ := Option.map_eq_some_iff.mp hj.1
  have hnodup := h.stack_nodup (shape_hash blk)
  rw [hstack] at hnodup
  have hk' : k ∉ p.used_a := by
    rw [h.valid.mem_used_a]
    intro hmem
    obtain ⟨q, hq, rfl⟩ := List.mem_map.mp hmem
    exact absurd (h.before q hq) (lt_irrefl _)
  have hpairs : ∀ shape, pairsOf shape a (p.add k j).pairs =
      pairsOf shape a p.pairs + if shape_hash blk = shape then 1 else 0 := by
    intro shape
    rw [Pairing.add, pairsOf, List.countP_append, pairsOf]
    simp [List.countP_cons, hk]
  refine ⟨h.valid.add hlt (List.getElem?_eq_some_iff.mp hy).1 hk' (mt h.valid.mem_used_b.mp hj.2),
    fun q hq => ?_, fun q hq => ?_, fun shape i => ?_, fun shape => ?_, fun shape => ?_,
    fun shape => ?_⟩
  · rcases List.mem_append.mp hq with hq | hq
    · exact (h.before q hq).trans (Nat.lt_succ_self k)
    · rw [List.mem_singleton.mp hq]
      exact Nat.lt_succ_self k
  · rcases List.mem_append.mp hq with hq | hq
    · exact h.same q hq
    · rw [List.mem_singleton.mp hq, hk, hy, Option.map_some, Option.map_some, hshape]
  · have hold := h.mem_stack shape i
    have hmem : i ∉ (p.add k j).pairs.map Prod.snd ↔ i ∉ p.pairs.map Prod.snd ∧ i ≠ j := by
      rw [Pairing.add, List.map_append, List.mem_append, not_or]
      simp
    rw [stackOf_insert, hmem]
    by_cases hsame : shape = shape_hash blk
    · subst hsame
      rw [hstack, List.mem_cons] at hold
      rw [if_pos rfl, ← and_assoc, ← hold]
      constructor
      · intro hi
        refine ⟨.inr hi, ?_⟩
        rintro rfl
        exact (List.nodup_cons.mp hnodup).1 hi
      · rintro ⟨rfl | hi, hne⟩
        · exact absurd rfl hne
        · exact hi
    · rw [if_neg hsame, hold, ← and_assoc]
      refine (and_iff_left_of_imp ?_).symm
      rintro ⟨hi, -⟩ rfl
      exact hsame (Option.some.inj (hi.symm.trans hj.1))
  · rw [stackOf_insert]
    split
    · exact (List.nodup_cons.mp hnodup).2
    · exact h.stack_nodup shape
  · have hleft := h.left shape
    rw [hpairs, stackOf_insert]
    by_cases hsame : shape = shape_hash blk
    · subst hsame
      rw [hstack, List.length_cons] at hleft
      rw [if_pos rfl, if_pos rfl]
      omega
    · rw [if_neg hsame, if_neg (Ne.symm hsame)]
      exact hleft
  · have hleft := h.left shape
    have hcount := h.count shape
    rw [hpairs, blocksOf_take_succ hk]
    by_cases hsame : shape_hash blk = shape
    · subst hsame
      rw [hstack, List.length_cons] at hleft
      rw [if_pos rfl]
      omega
    · rw [if_neg hsame]
      exact hcount

/-- No partner of the shape is left. -/
lemma skip (h : ExactAt a b k shapes p) (hk : a[k]? = some blk)
    (hstack : stackOf shapes (shape_hash blk) = []) : ExactAt a b (k + 1) shapes p := by
  refine ⟨h.valid, fun q hq => (h.before q hq).trans (Nat.lt_succ_self k), h.same, h.mem_stack,
    h.stack_nodup, h.left, fun shape => ?_⟩
  have hleft := h.left shape
  have hcount := h.count shape
  rw [blocksOf_take_succ hk]
  by_cases hsame : shape_hash blk = shape
  · subst hsame
    rw [hstack, List.length_nil] at hleft
    rw [if_pos rfl]
    omega
  · rw [if_neg hsame]
    exact hcount

/-- The exact pass over the rest of `a`. -/
lemma run {rest : List BlockFp} (h : ExactAt a b k shapes p) (hrest : a.drop k = rest) :
    ∃ shapes', ExactAt a b a.length shapes' (exactPairs (rest.zipIdx k) shapes p) := by
  induction rest generalizing k shapes p with
  | nil =>
    refine ⟨shapes, h.valid, fun q hq => h.valid.matching.left_lt q hq, h.same, h.mem_stack,
      h.stack_nodup, h.left, fun shape => ?_⟩
    have hall : a.take k = a := List.take_of_length_le (List.drop_eq_nil_iff.mp hrest)
    rw [List.take_length, ← hall, ← h.count shape, hall]
    rfl
  | cons blk rest ih =>
    have hk : a[k]? = some blk := by
      rw [← Nat.add_zero k, ← List.getElem?_drop, hrest, List.getElem?_cons_zero]
    have hnext : a.drop (k + 1) = rest := by
      rw [← List.drop_drop, hrest, List.drop_one, List.tail_cons]
    rw [List.zipIdx_cons, exactPairs]
    split
    · next j stack hget =>
      exact ih (h.pair hk (by rw [stackOf, hget]; rfl)) hnext
    · next hnot =>
      refine ih (h.skip hk ?_) hnext
      rw [stackOf]
      cases hget : shapes[shape_hash blk]? with
      | none => rfl
      | some stack =>
        cases stack with
        | nil => rfl
        | cons j stack => exact absurd hget (hnot j stack)

end ExactAt

/-! ## The second pass -/

/-- The partner is the first of the most similar free blocks. -/
lemma bestPartner_eq (b : List BlockFp) (threshold : ℚ) (used_b : List ℕ) (blk : BlockFp) :
    bestPartner b threshold used_b blk =
      (firstBest (fun q : BlockFp × ℕ => similarity blk q.1) threshold
        (b.zipIdx.filter fun q => q.2 ∉ used_b)).map Prod.snd := by
  have hmap : ∀ o : Option (BlockFp × ℕ),
      o.map Prod.snd = (o.map fun q => (q.2, similarity blk q.1)).map Prod.fst := by
    intro o
    rw [Option.map_map]
    rfl
  rw [bestPartner, hmap, firstBest, List.foldl_filter]
  refine congrArg (Option.map Prod.fst)
    (@List.foldl_hom _ _ _ (Option.map fun q : BlockFp × ℕ => (q.2, similarity blk q.1))
      _ _ b.zipIdx none fun best q => ?_)
  by_cases hused : q.2 ∈ used_b
  · simp [hused]
  · by_cases hlow : similarity blk q.1 < threshold
    · simp [hused, hlow, replaces, not_le.mpr hlow]
    · cases best with
      | none => simp [hused, hlow, replaces, not_lt.mp hlow]
      | some r =>
        by_cases hbetter : similarity blk r.1 < similarity blk q.1
        · simp [hused, hlow, replaces, not_lt.mp hlow, hbetter]
        · simp [hused, hlow, replaces, hbetter]

/-- The free blocks. -/
lemma mem_free {used_b : List ℕ} {q : BlockFp × ℕ} :
    q ∈ b.zipIdx.filter (fun q => q.2 ∉ used_b) ↔ b[q.2]? = some q.1 ∧ q.2 ∉ used_b := by
  rw [List.mem_filter, decide_eq_true_eq, List.mem_zipIdx_iff_getElem?]

/-- Two blocks that neither side has used are not similar enough. -/
def Apart (a b : List BlockFp) (threshold : ℚ) (p : Pairing) (i : ℕ) : Prop :=
  ∀ x j y, a[i]? = some x → b[j]? = some y → i ∉ p.used_a → j ∉ p.used_b →
    similarity x y < threshold

/-- More pairs use more positions. -/
lemma Apart.mono {p' : Pairing} (h : Apart a b threshold p i) (ha : p.used_a ⊆ p'.used_a)
    (hb : p.used_b ⊆ p'.used_b) : Apart a b threshold p' i :=
  fun x j y hx hy hi hj => h x j y hx hy (fun hmem => hi (ha hmem)) fun hmem => hj (hb hmem)

/-- The second pass over the rest of `a`. -/
lemma similarPairs_spec {rest : List BlockFp} {k : ℕ} (hvalid : p.Valid a.length b.length)
    (hapart : ∀ i < k, Apart a b threshold p i) (hrest : a.drop k = rest) :
    (similarPairs b threshold (rest.zipIdx k) p).Valid a.length b.length ∧
      p.pairs <+: (similarPairs b threshold (rest.zipIdx k) p).pairs ∧
      ∀ i < a.length, Apart a b threshold (similarPairs b threshold (rest.zipIdx k) p) i := by
  induction rest generalizing k p with
  | nil =>
    exact ⟨hvalid, List.prefix_rfl, fun i hi =>
      hapart i (hi.trans_le (List.drop_eq_nil_iff.mp hrest))⟩
  | cons blk rest ih =>
    have hk : a[k]? = some blk := by
      rw [← Nat.add_zero k, ← List.getElem?_drop, hrest, List.getElem?_cons_zero]
    have hnext : a.drop (k + 1) = rest := by
      rw [← List.drop_drop, hrest, List.drop_one, List.tail_cons]
    rw [List.zipIdx_cons, similarPairs]
    by_cases hused : k ∈ p.used_a
    · rw [if_pos hused]
      refine ih hvalid (fun i hi => ?_) hnext
      rcases Nat.lt_succ_iff_lt_or_eq.mp hi with hi | rfl
      · exact hapart i hi
      · exact fun x j y _ _ hfree => absurd hused hfree
    rw [if_neg hused, bestPartner_eq]
    cases hbest : firstBest (fun q : BlockFp × ℕ => similarity blk q.1) threshold
        (b.zipIdx.filter fun q => q.2 ∉ p.used_b) with
    | none =>
      refine ih hvalid (fun i hi => ?_) hnext
      rcases Nat.lt_succ_iff_lt_or_eq.mp hi with hi | rfl
      · exact hapart i hi
      · intro x j y hx hy _ hj
        obtain rfl : blk = x := Option.some.inj (hk.symm.trans hx)
        exact firstBest_eq_none_iff.mp hbest (y, j) (mem_free.mpr ⟨hy, hj⟩)
    | some q =>
      obtain ⟨hy, hj⟩ := mem_free.mp (firstBest_eq_some_iff.mp hbest).1.mem
      have hadd := hvalid.add (List.getElem?_eq_some_iff.mp hk).1
        (List.getElem?_eq_some_iff.mp hy).1 hused hj
      have hapart' : ∀ i < k + 1, Apart a b threshold (p.add k q.2) i := by
        intro i hi
        rcases Nat.lt_succ_iff_lt_or_eq.mp hi with hi | rfl
        · exact (hapart i hi).mono (List.subset_cons_self _ _) (List.subset_cons_self _ _)
        · exact fun x j y _ _ hfree => absurd List.mem_cons_self hfree
      obtain ⟨hvalid', hprefix, hall⟩ := ih hadd hapart' hnext
      exact ⟨hvalid', (List.prefix_append p.pairs [(k, q.2)]).trans hprefix, hall⟩

/-! ## The pairs and the rows -/

/-- The pairs of the exact pass. -/
def exactPairing (a b : List BlockFp) : Pairing := exactPairs a.zipIdx (byShape b) ⟨[], [], []⟩

/-- A partial matching of two lists of blocks that begins with as many pairs of every shape as there
can be, and cannot be extended at the threshold. -/
structure MaximalMatching (a b : List BlockFp) (threshold : ℚ) (exact pairs : List (ℕ × ℕ)) :
    Prop where
  matching : Matches a.length b.length pairs
  begins : exact <+: pairs
  same : ∀ p ∈ exact, a[p.1]?.map shape_hash = b[p.2]?.map shape_hash
  count : ∀ shape, pairsOf shape a exact = min (blocksOf shape a) (blocksOf shape b)
  maximal : ∀ i x j y, a[i]? = some x → b[j]? = some y → i ∉ pairs.map Prod.fst →
    j ∉ pairs.map Prod.snd → similarity x y < threshold

lemma pairing_spec (a b : List BlockFp) (threshold : ℚ) :
    (pairing a b threshold).Valid a.length b.length ∧
      MaximalMatching a b threshold (exactPairing a b).pairs (pairing a b threshold).pairs := by
  obtain ⟨shapes, hexact⟩ := (ExactAt.start a b).run List.drop_zero
  have hnone : ∀ i < 0, Apart a b threshold (exactPairing a b) i :=
    fun i hi => absurd hi (Nat.not_lt_zero i)
  obtain ⟨hvalid, hprefix, hapart⟩ := similarPairs_spec hexact.valid hnone List.drop_zero
  refine ⟨hvalid, hvalid.matching, hprefix, hexact.same, fun shape => ?_, ?_⟩
  · have hcount := hexact.count shape
    rwa [List.take_length] at hcount
  · intro i x j y hx hy hi hj
    exact hapart i (List.getElem?_eq_some_iff.mp hx).1 x j y hx hy (mt hvalid.mem_used_a.mp hi)
      (mt hvalid.mem_used_b.mp hj)

/-- The rows of the pairs. -/
def pairedRows (a b : List BlockFp) (p : Pairing) : List BlockRow :=
  p.pairs.filterMap (pairRow a b)

/-- The rows of the blocks of `a` without a partner. -/
def removedRows (a : List BlockFp) (p : Pairing) : List BlockRow :=
  (a.zipIdx.filter fun q => q.2 ∉ p.used_a).map fun q => .mk .removed (some q.1) none none

/-- The rows of the blocks of `b` without a partner. -/
def addedRows (b : List BlockFp) (p : Pairing) : List BlockRow :=
  (b.zipIdx.filter fun q => q.2 ∉ p.used_b).map fun q => .mk .added none (some q.1) none

/-- The rows of a diff before they are sorted. -/
def unsortedRows (a b : List BlockFp) (p : Pairing) : List BlockRow :=
  pairedRows a b p ++ removedRows a p ++ addedRows b p

/-- The key of the rows when they are sorted. -/
def rowKey (r : BlockRow) : ℕ × String := (r.kind.rank, (r.a.map fun x => hex x.ea).getD "")

/-- The rows of a diff, sorted. -/
def sortedRows (a b : List BlockFp) (threshold : ℚ) : List BlockRow :=
  sortByKey rowKey (unsortedRows a b (pairing a b threshold))

lemma sortedRows_perm (a b : List BlockFp) (threshold : ℚ) :
    (sortedRows a b threshold).Perm (unsortedRows a b (pairing a b threshold)) :=
  sortByKey_perm rowKey _

/-- The rows of one classification. -/
def kindCount (k : RowKind) (rows : List BlockRow) : ℕ := (rows.filter fun r => r.kind = k).length

lemma pairRow_of_lt {q : ℕ × ℕ} (hi : q.1 < a.length) (hj : q.2 < b.length) :
    ∃ r, pairRow a b q = some r ∧ (r.kind = .equal ∨ r.kind = .modified) := by
  refine ⟨_, by rw [pairRow, List.getElem?_eq_getElem hi, List.getElem?_eq_getElem hj]; rfl, ?_⟩
  dsimp only
  split
  · exact .inl rfl
  · exact .inr rfl

/-- A call that succeeds on every element, with what a partial function gives. -/
lemma mapList_eq_filterMap {ε α β : Type} {f : α → Outcome ε β} {g : α → Option β} {l : List α}
    (h : ∀ x ∈ l, ∃ y, g x = some y ∧ f x = .ok y) : Outcome.mapList f l = .ok (l.filterMap g) := by
  induction l with
  | nil => rfl
  | cons x l ih =>
    obtain ⟨y, hg, hf⟩ := h x List.mem_cons_self
    rw [Outcome.mapList, hf, List.filterMap_cons_some hg,
      ih fun z hz => h z (List.mem_cons_of_mem _ hz)]
    rfl

/-- The diff has the rows of the pairs, and one for every block without a partner. -/
lemma diffRows_eq (a b : List BlockFp) (threshold : ℚ) :
    diffRows a b threshold = .ok (sortedRows a b threshold) := by
  have hvalid := (pairing_spec a b threshold).1
  rw [diffRows, mapList_eq_filterMap (g := pairRow a b) fun q hq => ?_]
  · rfl
  · obtain ⟨r, hr, -⟩ :=
      pairRow_of_lt (hvalid.matching.left_lt q hq) (hvalid.matching.right_lt q hq)
    exact ⟨r, hr, by rw [hr]⟩

lemma kindCount_append (k : RowKind) (r r' : List BlockRow) :
    kindCount k (r ++ r') = kindCount k r + kindCount k r' := by
  rw [kindCount, List.filter_append, List.length_append]
  rfl

lemma kindCount_all {k : RowKind} {rows : List BlockRow} (h : ∀ r ∈ rows, r.kind = k) :
    kindCount k rows = rows.length := by
  rw [kindCount, List.filter_eq_self.mpr fun r hr => decide_eq_true (h r hr)]

lemma kindCount_none {k : RowKind} {rows : List BlockRow} (h : ∀ r ∈ rows, r.kind ≠ k) :
    kindCount k rows = 0 := by
  rw [kindCount, List.filter_eq_nil_iff.mpr fun r hr => by simpa using h r hr, List.length_nil]

lemma removedRows_kind : ∀ r ∈ removedRows a p, r.kind = .removed := by
  intro r hr
  obtain ⟨q, -, rfl⟩ := List.mem_map.mp hr
  rfl

lemma addedRows_kind : ∀ r ∈ addedRows b p, r.kind = .added := by
  intro r hr
  obtain ⟨q, -, rfl⟩ := List.mem_map.mp hr
  rfl

lemma pairedRows_kind (h : Matches a.length b.length p.pairs) :
    ∀ r ∈ pairedRows a b p, r.kind = .equal ∨ r.kind = .modified := by
  intro r hr
  obtain ⟨q, hq, hqr⟩ := List.mem_filterMap.mp hr
  obtain ⟨r', hr', hkind⟩ := pairRow_of_lt (h.left_lt q hq) (h.right_lt q hq)
  rwa [Option.some.inj (hqr.symm.trans hr')]

lemma pairedRows_length (h : Matches a.length b.length p.pairs) :
    (pairedRows a b p).length = p.pairs.length := by
  rw [pairedRows, List.length_filterMap_eq_countP, List.countP_eq_length]
  intro q hq
  obtain ⟨r, hr, -⟩ := pairRow_of_lt (h.left_lt q hq) (h.right_lt q hq)
  rw [hr, Option.isSome_some]

lemma removedRows_length (h : p.Valid a.length b.length) :
    (removedRows a p).length + p.pairs.length = a.length := by
  have hnodup : p.used_a.Nodup := by
    rw [h.used_a, List.nodup_reverse]
    exact h.matching.left_nodup
  have hused := length_outside a hnodup fun i hi => by
    obtain ⟨q, hq, rfl⟩ := List.mem_map.mp (h.mem_used_a.mp hi)
    exact h.matching.left_lt q hq
  rw [h.used_a, List.length_reverse, List.length_map] at hused
  rw [removedRows, List.length_map, h.used_a, hused]

lemma addedRows_length (h : p.Valid a.length b.length) :
    (addedRows b p).length + p.pairs.length = b.length := by
  have hnodup : p.used_b.Nodup := by
    rw [h.used_b, List.nodup_reverse]
    exact h.matching.right_nodup
  have hused := length_outside b hnodup fun j hj => by
    obtain ⟨q, hq, rfl⟩ := List.mem_map.mp (h.mem_used_b.mp hj)
    exact h.matching.right_lt q hq
  rw [h.used_b, List.length_reverse, List.length_map] at hused
  rw [addedRows, List.length_map, h.used_b, hused]

/-- Every pair and every block without a partner is counted once. -/
lemma unsorted_counts (h : p.Valid a.length b.length) :
    kindCount .equal (unsortedRows a b p) + kindCount .modified (unsortedRows a b p) =
        p.pairs.length ∧
      kindCount .removed (unsortedRows a b p) + p.pairs.length = a.length ∧
      kindCount .added (unsortedRows a b p) + p.pairs.length = b.length := by
  have hpaired := pairedRows_kind h.matching
  have hkinds : ∀ k, kindCount k (unsortedRows a b p) = kindCount k (pairedRows a b p) +
      kindCount k (removedRows a p) + kindCount k (addedRows b p) := by
    intro k
    rw [unsortedRows, kindCount_append, kindCount_append]
  have hremoved : ∀ k, k ≠ .removed → kindCount k (removedRows a p) = 0 := fun k hk =>
    kindCount_none fun r hr heq => hk (heq.symm.trans (removedRows_kind r hr))
  have hadded : ∀ k, k ≠ .added → kindCount k (addedRows b p) = 0 := fun k hk =>
    kindCount_none fun r hr heq => hk (heq.symm.trans (addedRows_kind r hr))
  have hunpaired : ∀ k, k ≠ .equal → k ≠ .modified → kindCount k (pairedRows a b p) = 0 := by
    intro k hequal hmodified
    refine kindCount_none fun r hr heq => ?_
    rcases hpaired r hr with hk | hk
    · exact hequal (heq.symm.trans hk)
    · exact hmodified (heq.symm.trans hk)
  -- a pair is equal or modified
  have hsplit : kindCount .equal (pairedRows a b p) + kindCount .modified (pairedRows a b p) =
      p.pairs.length := by
    rw [← pairedRows_length h.matching, kindCount, kindCount, ← List.countP_eq_length_filter,
      ← List.countP_eq_length_filter, List.length_eq_countP_add_countP fun r => r.kind = .equal]
    refine congrArg _ (List.countP_congr fun r hr => ?_)
    rcases hpaired r hr with hk | hk <;> simp [hk]
  rw [hkinds, hkinds, hkinds, hkinds, kindCount_all removedRows_kind, kindCount_all addedRows_kind,
    hremoved .equal (by decide), hremoved .modified (by decide), hremoved .added (by decide),
    hadded .equal (by decide), hadded .modified (by decide), hadded .removed (by decide),
    hunpaired .removed (by decide) (by decide), hunpaired .added (by decide) (by decide)]
  have ha := removedRows_length h
  have hb := addedRows_length h
  omega

/-- The counts do not depend on the order of the rows. -/
lemma kindCount_perm {rows rows' : List BlockRow} (h : rows.Perm rows') (k : RowKind) :
    kindCount k rows = kindCount k rows' := (h.filter _).length_eq

/-- What `diff_blocks` gives. -/
lemma diff_blocks_eq (a b : List BlockFp) (threshold : ℚ) (max_rows : ℕ) :
    diff_blocks a b threshold max_rows = .ok ⟨a.length, b.length,
      (sortedRows a b threshold).take max_rows,
      decide (max_rows < (sortedRows a b threshold).length)⟩ := by
  rw [diff_blocks, diffRows_eq, Outcome.ok_bind]
  rfl

/-- The pairs of a diff are a partial matching that takes as many pairs of every shape as there can
be and cannot be extended at the threshold; the counts of a diff that is not cut off account for
every block of both sides. -/
theorem diff_blocks_maximal (a b : List BlockFp) (threshold : ℚ) (max_rows : ℕ) :
    MaximalMatching a b threshold (exactPairing a b).pairs (pairing a b threshold).pairs ∧
      ∃ d, diff_blocks a b threshold max_rows = .ok d ∧ (d.truncated = false →
        d.rows.Perm (unsortedRows a b (pairing a b threshold)) ∧
        d.count .equal + d.count .modified + d.count .removed = a.length ∧
        d.count .equal + d.count .modified + d.count .added = b.length) := by
  obtain ⟨hvalid, hmaximal⟩ := pairing_spec a b threshold
  refine ⟨hmaximal, _, diff_blocks_eq a b threshold max_rows, fun hwhole => ?_⟩
  have hall : (sortedRows a b threshold).take max_rows = sortedRows a b threshold :=
    List.take_of_length_le (not_lt.mp (of_decide_eq_false hwhole))
  rw [hall]
  have hperm := sortedRows_perm a b threshold
  have hcount := kindCount_perm hperm
  obtain ⟨hpaired, ha, hb⟩ := unsorted_counts hvalid
  rw [← hcount, ← hcount] at hpaired
  rw [← hcount] at ha hb
  have hleft : kindCount .equal (sortedRows a b threshold) +
      kindCount .modified (sortedRows a b threshold) +
        kindCount .removed (sortedRows a b threshold) = a.length := by omega
  have hright : kindCount .equal (sortedRows a b threshold) +
      kindCount .modified (sortedRows a b threshold) +
        kindCount .added (sortedRows a b threshold) = b.length := by omega
  exact ⟨hperm, hleft, hright⟩

end Blockdiff

end ReverseMcp
