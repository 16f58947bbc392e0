import ReverseMcp.Rust.Collections
import ReverseMcp.Worker.Crypto
import Mathlib.Data.Multiset.Bind
import Mathlib.Tactic.IntervalCases

/-!
# What the scan for constants finds

`crypto_scan` reads the segments in chunks and looks for each pattern in each chunk on its own.  It
stops, truncated, at four times the bound; below that it keeps the best `max_hits` of what it has
found and says nothing about the rest.  So an answer that is not truncated can lack occurrences for
two reasons: they lie across the border of two chunks, or they are the ones that were dropped.

`crypto_scan_complete_iff` says that there is no third one.  The bytes of the database are a
function from addresses to bytes, and a backend that reads them answers each request inside a
segment with the bytes of its range (`Reads`).
-/

namespace ReverseMcp

open Rust

namespace Crypto

/-! ## The scan on any backend -/

section
variable [Host] (get_bytes : U64 → ℕ → Result Json)

/-- `scanChunks` on any backend. -/
def scanChunksIn (rules : List PackedRule) (limit : ℕ) :
    List (U64 × ℕ) → List ConstHit → Result (List ConstHit × Bool)
  | [], hits => .ok (hits, false)
  | (base, want) :: rest, hits => do
    match ← (get_bytes base want).ok? with
    | none => return (hits, false)
    | some v =>
      match (v.idx "hex").asStr with
      | none => return (hits, false)
      | some text =>
        match ← decode_hex text with
        | none | some [] => return (hits, false)
        | some bytes =>
          let (hits, truncated) ← scanRules base limit bytes rules hits
          if truncated then return (hits, true)
          else scanChunksIn rules limit rest hits

/-- `scanSegments` on any backend. -/
def scanSegmentsIn (rules : List PackedRule) (limit : ℕ) :
    List SegmentInfo → List ConstHit → Result (List ConstHit × Bool)
  | [], hits => .ok (hits, false)
  | seg :: segs, hits =>
    if skipSegment seg then scanSegmentsIn rules limit segs hits
    else do
      let (hits, truncated) ← scanChunksIn get_bytes rules limit (chunks seg) hits
      if truncated then return (hits, true)
      else scanSegmentsIn rules limit segs hits

omit [Host] in
/-- The hits in the order of the answer. -/
def ranked (hits : List ConstHit) : List ConstHit :=
  hits.insertionSort fun a b =>
    b.rule.rarity < a.rule.rarity ∨ (a.rule.rarity = b.rule.rarity ∧ a.ea ≤ b.ea)

/-- `crypto::crypto_scan` on any backend; again for bounds with `max_hits * 4 < 2 ^ 64`. -/
def crypto_scanIn (segments : Result (List SegmentInfo)) (idx : AnalysisIndex) (max_hits : ℕ)
    (rules : Option RuleSet) : Result Json := do
  let segs ← segments
  let (hits, truncated) ← scanSegmentsIn get_bytes (packedRules rules) (max_hits * 4) segs []
  return .object [("kind", "crypto_scan"),
    ("findings", .array (((ranked hits).take max_hits).map (findingRow idx))),
    ("truncated", truncated), ("packs", .nat CONST_PACKS.length),
    ("note", "ranked by confidence; callers come from the analysis index")]

end

section
variable [Host] (b : MockBackend)

lemma scanChunks_mock (rules : List PackedRule) (limit : ℕ) (cs : List (U64 × ℕ))
    (hits : List ConstHit) :
    scanChunks b rules limit cs hits = scanChunksIn b.get_bytes rules limit cs hits := by
  induction cs generalizing hits with
  | nil => rfl
  | cons c cs ih =>
    obtain ⟨base, want⟩ := c
    have hrest : scanChunks b rules limit cs = scanChunksIn b.get_bytes rules limit cs := funext ih
    rw [scanChunks, hrest]
    rfl

lemma scanSegments_mock (rules : List PackedRule) (limit : ℕ) (segs : List SegmentInfo)
    (hits : List ConstHit) :
    scanSegments b rules limit segs hits = scanSegmentsIn b.get_bytes rules limit segs hits := by
  induction segs generalizing hits with
  | nil => rfl
  | cons seg segs ih =>
    rw [scanSegments, scanSegmentsIn]
    simp only [ih, scanChunks_mock]

lemma crypto_scan_mock (idx : AnalysisIndex) (max_hits : ℕ) (rules : Option RuleSet) :
    crypto_scan b idx max_hits rules =
      crypto_scanIn b.get_bytes b.segments idx max_hits rules := by
  rw [crypto_scan, crypto_scanIn]
  simp only [scanSegments_mock]
  rfl

end

/-! ## Occurrences -/

/-- The bytes from an address on. -/
def readBytes (mem : ℕ → U8) (a n : ℕ) : List U8 := (List.range' a n).map mem

/-- The pattern of a rule stands at an address, and ends before `stop`. -/
def standsAt (mem : ℕ → U8) (rule : PackedRule) (stop a : ℕ) : Bool :=
  !rule.pattern.isEmpty && decide (a + rule.pattern.length ≤ stop) &&
    decide (readBytes mem a rule.pattern.length = rule.pattern)

/-- The hit of a rule at an address. -/
def hitAt (rule : PackedRule) (a : ℕ) : ConstHit := ⟨asU64 a, rule⟩

/-- The occurrences of a rule between two addresses. -/
def occurrences (mem : ℕ → U8) (rule : PackedRule) (start stop : ℕ) : List ConstHit :=
  ((List.range' start (stop - start)).filter (standsAt mem rule stop)).map (hitAt rule)

/-- The segments that are scanned. -/
def scanned (segs : List SegmentInfo) : List SegmentInfo := segs.filter fun seg => !skipSegment seg

/-- The occurrences of all rules in the segments that are scanned. -/
def allOccurrences (mem : ℕ → U8) (rules : List PackedRule) (segs : List SegmentInfo) :
    List ConstHit :=
  (scanned segs).flatMap fun seg =>
    rules.flatMap fun rule => occurrences mem rule seg.start.val seg.stop.val

/-- The occurrences that a segment has in one of its chunks. -/
def chunkOccurrences (mem : ℕ → U8) (rules : List PackedRule) (seg : SegmentInfo) :
    List ConstHit :=
  (chunks seg).flatMap fun c =>
    rules.flatMap fun rule => occurrences mem rule c.1.val (c.1.val + c.2)

/-- The backend reads the bytes of the segments. -/
def Reads (get_bytes : U64 → ℕ → Result Json) (mem : ℕ → U8) (segs : List SegmentInfo) : Prop :=
  ∀ seg ∈ segs, ∀ (base : U64) (want : ℕ), seg.start ≤ base → base.val + want ≤ seg.stop.val →
    ∃ v text, get_bytes base want = .ok v ∧ (v.idx "hex").asStr = some text ∧
      decode_hex text = .ok (some (readBytes mem base.val want))

/-! ## Collecting up to a limit -/

/-- A part of the scan adds `new` to the hits, unless it stops at the limit. -/
def Collects (limit : ℕ) (hits new : List ConstHit) (r : Result (List ConstHit × Bool)) : Prop :=
  ∃ hs t, r = .ok (hs, t) ∧ (t = true ↔ new ≠ [] ∧ limit ≤ (hits ++ new).length) ∧
    (t = false → hs = hits ++ new)

variable {limit : ℕ} {hits new later : List ConstHit} {r : Result (List ConstHit × Bool)}

lemma Collects.nothing (limit : ℕ) (hits : List ConstHit) :
    Collects limit hits [] (.ok (hits, false)) :=
  ⟨hits, false, rfl, by simp, fun _ => (List.append_nil hits).symm⟩

/-- One part after the other. -/
lemma Collects.andThen (next : List ConstHit → Result (List ConstHit × Bool))
    (h : Collects limit hits new r)
    (hnext : Collects limit (hits ++ new) later (next (hits ++ new))) :
    Collects limit hits (new ++ later) (do
      let (hits, truncated) ← r
      if truncated then return (hits, true) else next hits) := by
  obtain ⟨hs, t, rfl, ht, hs'⟩ := h
  cases t with
  | true =>
    obtain ⟨hne, hlimit⟩ := ht.mp rfl
    refine ⟨hs, true, rfl, iff_of_true rfl ⟨by simp [hne], ?_⟩, fun h => by cases h⟩
    rw [← List.append_assoc, List.length_append]
    exact hlimit.trans (Nat.le_add_right _ _)
  | false =>
    obtain rfl := hs' rfl
    obtain ⟨hs₂, t₂, h₂, ht₂, hs₂'⟩ := hnext
    refine ⟨hs₂, t₂, h₂, ?_, fun h => (hs₂' h).trans (List.append_assoc _ _ _)⟩
    rw [ht₂, ← List.append_assoc]
    have hopen : ¬(new ≠ [] ∧ limit ≤ (hits ++ new).length) := fun h => by
      cases ht.mpr h
    constructor
    · rintro ⟨hne, hlimit⟩
      exact ⟨by simp [hne], hlimit⟩
    · rintro ⟨hne, hlimit⟩
      refine ⟨fun hnil => hopen ?_, hlimit⟩
      subst hnil
      rw [List.append_nil] at hne hlimit
      exact ⟨hne, hlimit⟩

lemma Collects.one (limit : ℕ) (hits : List ConstHit) (h : ConstHit) :
    Collects limit hits [h] (.ok (hits ++ [h], decide (limit ≤ (hits ++ [h]).length))) :=
  ⟨_, _, rfl, by simp, fun _ => rfl⟩

/-! ## One chunk -/

variable {mem : ℕ → U8} {rule : PackedRule} {stop a : ℕ}

lemma length_readBytes (mem : ℕ → U8) (a n : ℕ) : (readBytes mem a n).length = n := by
  rw [readBytes, List.length_map, List.length_range']

/-- A pattern stands at the start of the bytes that are read from an address. -/
lemma isPrefixOf_readBytes (hne : rule.pattern ≠ []) (n : ℕ) :
    rule.pattern.isPrefixOf (readBytes mem a n) = standsAt mem rule (a + n) a := by
  rw [Bool.eq_iff_iff, List.isPrefixOf_iff_prefix, List.prefix_iff_eq_take, standsAt]
  have htake : ∀ k ≤ n, (readBytes mem a n).take k = readBytes mem a k := by
    intro k hk
    rw [readBytes, ← List.map_take, List.take_range'_of_length_ge hk, readBytes]
  constructor
  · intro h
    have hle : rule.pattern.length ≤ n := by
      have hlength := congrArg List.length h
      rw [List.length_take, length_readBytes] at hlength
      omega
    rw [htake _ hle] at h
    simp [hne, hle, ← h]
  · intro h
    simp only [Bool.and_eq_true, decide_eq_true_eq] at h
    rw [htake _ (by omega)]
    exact h.2.symm

lemma occurrences_nil (h : stop ≤ a) : occurrences mem rule a stop = [] := by
  rw [occurrences, Nat.sub_eq_zero_of_le h]
  rfl

lemma occurrences_cons (h : a < stop) : occurrences mem rule a stop =
    (if standsAt mem rule stop a then [hitAt rule a] else []) ++
      occurrences mem rule (a + 1) stop := by
  obtain ⟨n, rfl⟩ : ∃ n, stop = a + (n + 1) := ⟨stop - a - 1, by omega⟩
  have hnext : a + (n + 1) - (a + 1) = n := by omega
  rw [occurrences, occurrences, Nat.add_sub_cancel_left, hnext, List.range'_succ, List.filter_cons]
  split <;> rfl

/-! ## Chunks against segments -/

/-- The chunks of a segment start in it. -/
lemma chunk_start {seg : SegmentInfo} {k : ℕ}
    (hk : k ∈ List.range ((seg.stop.val - seg.start.val + CHUNK - 1) / CHUNK)) :
    CHUNK * k < seg.stop.val - seg.start.val ∧
      (asU64 (seg.start.val + CHUNK * k)).val = seg.start.val + CHUNK * k := by
  have hmul := (Nat.le_div_iff_mul_le (by decide)).mp (List.mem_range.mp hk)
  have hchunk : 0 < CHUNK := by decide
  have hstop := seg.stop.isLt
  rw [Nat.succ_mul, Nat.mul_comm] at hmul
  exact ⟨by omega, asU64_val (by omega)⟩

/-- An occurrence that ends in a later chunk of its segment than it starts in. -/
def crosses (seg : SegmentInfo) (h : ConstHit) : Bool :=
  let start := h.ea.val - seg.start.val
  start / CHUNK ≠ (start + h.rule.pattern.length - 1) / CHUNK

/-- The occurrences of all rules in the segments that are scanned, but for those that cross the
border of a chunk. -/
def unbroken (mem : ℕ → U8) (rules : List PackedRule) (segs : List SegmentInfo) : List ConstHit :=
  (scanned segs).flatMap fun seg => rules.flatMap fun rule =>
    (occurrences mem rule seg.start.val seg.stop.val).filter fun h => !crosses seg h

/-- A range is the chunks of it. -/
lemma range'_chunks (start n c m : ℕ) :
    (List.range m).flatMap (fun k => List.range' (start + c * k) (min c (n - c * k))) =
      List.range' start (min (c * m) n) := by
  induction m with
  | zero => simp
  | succ m ih =>
    rw [List.range_succ, List.flatMap_append, ih, List.flatMap_singleton, Nat.mul_succ]
    by_cases hle : c * m ≤ n
    · rw [Nat.min_eq_left hle, List.range'_append_1]
      congr 1
      omega
    · have hnone : n - c * m = 0 := by omega
      rw [hnone, Nat.min_zero, List.range'_zero, List.append_nil]
      congr 1
      omega

/-- In a chunk, a pattern that stands before the end of the segment stands before the end of the
chunk unless it crosses the border. -/
lemma standsAt_chunk {seg : SegmentInfo} {k a : ℕ}
    (hlo : seg.start.val + CHUNK * k ≤ a)
    (hhi : a < seg.start.val + CHUNK * k + min CHUNK (seg.stop.val - seg.start.val - CHUNK * k)) :
    standsAt mem rule (seg.start.val + CHUNK * k +
        min CHUNK (seg.stop.val - seg.start.val - CHUNK * k)) a =
      (!crosses seg (hitAt rule a) && standsAt mem rule seg.stop.val a) := by
  have hea : (hitAt rule a).ea.val = a := by
    have hstop := seg.stop.isLt
    exact asU64_val (by omega)
  obtain ⟨o, rfl⟩ := Nat.exists_eq_add_of_le (le_of_add_le_left hlo)
  by_cases hempty : rule.pattern.length = 0
  · simp [standsAt, List.length_eq_zero_iff.mp hempty]
  have hblock : ∀ x, CHUNK * k ≤ x → (x / CHUNK = k ↔ x < CHUNK * k + CHUNK) := by
    intro x hx
    rw [Nat.div_eq_iff (by decide), Nat.mul_comm k]
    omega
  have hstart : o / CHUNK = k := (hblock o (by omega)).mpr (by omega)
  have hend := hblock (o + rule.pattern.length - 1) (by omega)
  have hcross : crosses seg (hitAt rule (seg.start.val + o)) = false ↔
      o + rule.pattern.length - 1 < CHUNK * k + CHUNK := by
    rw [← hend, ← Bool.not_eq_true, crosses, decide_eq_true_iff, hea, Nat.add_sub_cancel_left,
      hstart]
    exact not_not.trans eq_comm
  rw [Bool.eq_iff_iff]
  simp only [standsAt, Bool.and_eq_true, Bool.not_eq_true', decide_eq_true_eq, hcross]
  constructor
  · rintro ⟨⟨hne, hle⟩, hread⟩
    exact ⟨by omega, ⟨hne, by omega⟩, hread⟩
  · rintro ⟨hlt, ⟨hne, hle⟩, hread⟩
    exact ⟨⟨hne, by omega⟩, hread⟩

/-- The chunks of a segment have the occurrences that do not cross their borders. -/
lemma occurrences_chunks (mem : ℕ → U8) (rule : PackedRule) (seg : SegmentInfo) :
    ((chunks seg).flatMap fun c => occurrences mem rule c.1.val (c.1.val + c.2)) =
      (occurrences mem rule seg.start.val seg.stop.val).filter fun h => !crosses seg h := by
  have hstop := seg.stop.isLt
  have hchunk : 0 < CHUNK := by decide
  have hcount : seg.stop.val - seg.start.val ≤
      CHUNK * ((seg.stop.val - seg.start.val + CHUNK - 1) / CHUNK) := by
    have hmod := Nat.div_add_mod (seg.stop.val - seg.start.val + CHUNK - 1) CHUNK
    have hlt := Nat.mod_lt (seg.stop.val - seg.start.val + CHUNK - 1) hchunk
    omega
  rw [occurrences, List.filter_map, List.filter_filter, ← Nat.min_eq_right hcount, ← range'_chunks,
    List.filter_flatMap, List.map_flatMap, chunks, List.flatMap_map]
  refine List.flatMap_congr fun k hk => ?_
  obtain ⟨hlt, hbase⟩ := chunk_start hk
  rw [hbase, occurrences, Nat.add_sub_cancel_left]
  refine congrArg _ (List.filter_congr fun a ha => ?_)
  obtain ⟨hlo, hhi⟩ := List.mem_range'_1.mp ha
  exact standsAt_chunk hlo hhi

lemma flatMap_swap_perm {α β γ : Type} (l : List α) (l' : List β) (f : α → β → List γ) :
    (l.flatMap fun a => l'.flatMap fun b => f a b).Perm
      (l'.flatMap fun b => l.flatMap fun a => f a b) := by
  rw [← Multiset.coe_eq_coe]
  have hswap := Multiset.bind_bind (l : Multiset α) (l' : Multiset β)
    (f := fun a b => (f a b : Multiset γ))
  simpa only [Multiset.coe_bind] using hswap

lemma chunkOccurrences_perm (rules : List PackedRule) (segs : List SegmentInfo) :
    ((scanned segs).flatMap (chunkOccurrences mem rules)).Perm (unbroken mem rules segs) := by
  refine List.Perm.flatMap_left _ fun seg _ => ?_
  refine (flatMap_swap_perm _ _ _).trans (List.Perm.of_eq ?_)
  exact List.flatMap_congr fun rule _ => occurrences_chunks mem rule seg

lemma length_flatMap_le {α β : Type} {l : List α} {f g : α → List β} {P : α → Prop}
    (h : ∀ a ∈ l, (f a).length ≤ (g a).length ∧ ((f a).length = (g a).length ↔ P a)) :
    (l.flatMap f).length ≤ (l.flatMap g).length ∧
      ((l.flatMap f).length = (l.flatMap g).length ↔ ∀ a ∈ l, P a) := by
  induction l with
  | nil => simp
  | cons a l ih =>
    obtain ⟨⟨hle, hiff⟩, hl⟩ := List.forall_mem_cons.mp h
    obtain ⟨hles, hiffs⟩ := ih hl
    rw [List.flatMap_cons, List.flatMap_cons, List.length_append, List.length_append,
      List.forall_mem_cons, ← hiff, ← hiffs]
    omega

/-- What crosses a border is all that is missing from the chunks. -/
lemma length_unbroken (mem : ℕ → U8) (rules : List PackedRule) (segs : List SegmentInfo) :
    (unbroken mem rules segs).length ≤ (allOccurrences mem rules segs).length ∧
      ((unbroken mem rules segs).length = (allOccurrences mem rules segs).length ↔
        ∀ seg ∈ scanned segs, ∀ rule ∈ rules,
          ∀ h ∈ occurrences mem rule seg.start.val seg.stop.val, crosses seg h = false) := by
  refine length_flatMap_le fun seg _ => length_flatMap_le fun rule _ => ⟨?_, ?_⟩
  · exact List.length_filter_le _ _
  · rw [List.length_filter_eq_length_iff]
    simp only [Bool.not_eq_true']

lemma unbroken_eq {rules : List PackedRule} {segs : List SegmentInfo}
    (h : ∀ seg ∈ scanned segs, ∀ rule ∈ rules,
      ∀ h ∈ occurrences mem rule seg.start.val seg.stop.val, crosses seg h = false) :
    unbroken mem rules segs = allOccurrences mem rules segs := by
  refine List.flatMap_congr fun seg hseg => List.flatMap_congr fun rule hrule => ?_
  exact List.filter_eq_self.mpr fun x hx => by simp [h seg hseg rule hrule x hx]

/-! ## The loops -/

section
variable [Host] {get_bytes : U64 → ℕ → Result Json}

/-- The window loop collects the occurrences of its rule. -/
lemma scanWindows_collects {base : U64} (hne : rule.pattern ≠ []) (n i : ℕ)
    (hfit : base.val + i + n < 2 ^ 64) (hits : List ConstHit) :
    Collects limit hits (occurrences mem rule (base.val + i) (base.val + i + n))
      (scanWindows base rule limit i (readBytes mem (base.val + i) n) hits) := by
  induction n generalizing i hits with
  | zero =>
    rw [Nat.add_zero, occurrences_nil le_rfl]
    exact Collects.nothing limit hits
  | succ n ih =>
    have hread : readBytes mem (base.val + i) (n + 1) =
        mem (base.val + i) :: readBytes mem (base.val + (i + 1)) n := by
      rw [readBytes, List.range'_succ, List.map_cons, readBytes, Nat.add_assoc]
    have hstop : base.val + i + (n + 1) = base.val + (i + 1) + n := by omega
    have hrest := fun hits => ih (i + 1) (by omega) hits
    rw [occurrences_cons (by omega), ← isPrefixOf_readBytes hne, hread, scanWindows, Nat.add_assoc,
      hstop]
    by_cases hstands : rule.pattern.isPrefixOf (mem (base.val + i) ::
        readBytes mem (base.val + (i + 1)) n) = true
    · have hea : (addU64 base (asU64 i) : Result U64) = .ok (asU64 (base.val + i)) := by
        have hi : (asU64 i).val = i := asU64_val (by omega)
        rw [addU64_of_lt (by omega)]
        refine congrArg _ (Fin.ext ?_)
        exact (congrArg (base.val + ·) hi).trans (asU64_val (by omega)).symm
      rw [if_pos hstands, if_pos hstands, hea]
      have hboth := Collects.andThen
        (scanWindows base rule limit (i + 1) (readBytes mem (base.val + (i + 1)) n))
        (Collects.one limit hits (hitAt rule (base.val + i))) (hrest _)
      simpa [hitAt] using hboth
    · rw [if_neg hstands, if_neg hstands, List.nil_append]
      exact hrest hits

/-- The rule loop collects the occurrences of its rules in the chunk. -/
lemma scanRules_collects {base : U64} {n : ℕ} (hfit : base.val + n < 2 ^ 64)
    (rules : List PackedRule) (hits : List ConstHit) :
    Collects limit hits (rules.flatMap fun rule => occurrences mem rule base.val (base.val + n))
      (scanRules base limit (readBytes mem base.val n) rules hits) := by
  induction rules generalizing hits with
  | nil => exact Collects.nothing limit hits
  | cons rule rules ih =>
    rw [scanRules, List.flatMap_cons, length_readBytes]
    by_cases hskip : (rule.pattern.isEmpty || decide (n < rule.pattern.length)) = true
    · have hnone : occurrences mem rule base.val (base.val + n) = [] := by
        rw [occurrences, List.map_eq_nil_iff, List.filter_eq_nil_iff]
        intro a ha hstands
        obtain ⟨hle, -⟩ := List.mem_range'_1.mp ha
        simp only [standsAt, Bool.and_eq_true, decide_eq_true_eq] at hstands
        simp only [Bool.or_eq_true, decide_eq_true_eq] at hskip
        rcases hskip with hempty | hlong
        · simp [hempty] at hstands
        · omega
      rw [if_pos hskip, hnone]
      exact ih hits
    · have hne : rule.pattern ≠ [] := fun h => hskip (by simp [h])
      have hwindows : Collects limit hits (occurrences mem rule base.val (base.val + n))
          (scanWindows base rule limit 0 (readBytes mem base.val n) hits) :=
        scanWindows_collects hne n 0 hfit hits
      rw [if_neg hskip]
      exact hwindows.andThen _ (ih _)

/-- The chunk loop collects the occurrences in its chunks. -/
lemma scanChunks_collects (rules : List PackedRule) {cs : List (U64 × ℕ)}
    (hcs : ∀ c ∈ cs, 0 < c.2 ∧ c.1.val + c.2 < 2 ^ 64 ∧ ∃ v text, get_bytes c.1 c.2 = .ok v ∧
      (v.idx "hex").asStr = some text ∧ decode_hex text = .ok (some (readBytes mem c.1.val c.2)))
    (hits : List ConstHit) :
    Collects limit hits
      (cs.flatMap fun c => rules.flatMap fun rule =>
        occurrences mem rule c.1.val (c.1.val + c.2))
      (scanChunksIn get_bytes rules limit cs hits) := by
  induction cs generalizing hits with
  | nil => exact Collects.nothing limit hits
  | cons c cs ih =>
    obtain ⟨base, want⟩ := c
    obtain ⟨⟨hpos, hfit, v, text, hget, htext, hdecode⟩, hcs⟩ := List.forall_mem_cons.mp hcs
    obtain ⟨x, xs, hbytes⟩ : ∃ x xs, readBytes mem base.val want = x :: xs := by
      refine List.exists_cons_of_ne_nil (List.ne_nil_of_length_pos ?_)
      rwa [length_readBytes]
    have hscan : Collects limit hits _ (scanRules base limit (readBytes mem base.val want) rules
        hits) := scanRules_collects hfit rules hits
    have hboth := hscan.andThen (scanChunksIn get_bytes rules limit cs) (ih hcs _)
    rw [scanChunksIn, hget, List.flatMap_cons]
    simp only [Outcome.ok?, Outcome.ok_bind, htext, hdecode, hbytes]
    rw [hbytes] at hboth
    exact hboth

/-- The segment loop collects the occurrences in the chunks of the segments that it does not
skip. -/
lemma scanSegments_collects (rules : List PackedRule) {segs : List SegmentInfo}
    (hreads : Reads get_bytes mem (scanned segs)) (hits : List ConstHit) :
    Collects limit hits ((scanned segs).flatMap (chunkOccurrences mem rules))
      (scanSegmentsIn get_bytes rules limit segs hits) := by
  induction segs generalizing hits with
  | nil => exact Collects.nothing limit hits
  | cons seg segs ih =>
    rw [scanned, List.filter_cons] at hreads ⊢
    rw [scanSegmentsIn]
    by_cases hskip : skipSegment seg = true
    · rw [if_neg (by simp [hskip])] at hreads ⊢
      rw [if_pos hskip]
      exact ih hreads hits
    · rw [if_pos (by simp [hskip])] at hreads ⊢
      obtain ⟨hseg, hsegs⟩ := List.forall_mem_cons.mp hreads
      rw [if_neg hskip, List.flatMap_cons]
      have hchunks : Collects limit hits (chunkOccurrences mem rules seg)
          (scanChunksIn get_bytes rules limit (chunks seg) hits) := by
        refine scanChunks_collects rules (fun c hc => ?_) hits
        obtain ⟨k, hk, rfl⟩ := List.mem_map.mp hc
        obtain ⟨hlt, hbase⟩ := chunk_start hk
        have hchunk : 0 < CHUNK := by decide
        have hstop := seg.stop.isLt
        dsimp only
        refine ⟨by omega, by omega, hseg _ _ (Fin.le_def.mpr ?_) (by omega)⟩
        omega
      exact hchunks.andThen _ (ih hsegs _)

end

/-! ## Complete answers -/

/-- An answer that is not truncated has the findings of all occurrences, each of them once. -/
def CompleteUnlessTruncated (idx : AnalysisIndex) (all : List ConstHit) (v : Json) : Prop :=
  v.idx "truncated" = .bool false →
    ∃ findings, v.idx "findings" = .array findings ∧ findings.Perm (all.map (findingRow idx))

/-- An answer is complete unless it is truncated exactly when the limit of the scan is reached, or
no occurrence crosses the border of a chunk and all of them fit into the answer. -/
theorem crypto_scan_complete_iff [Host] {get_bytes : U64 → ℕ → Result Json}
    {segs : List SegmentInfo}
    (hreads : Reads get_bytes mem (scanned segs)) (idx : AnalysisIndex) (max_hits : ℕ)
    (rules : Option RuleSet) :
    ∃ v, crypto_scanIn get_bytes (.ok segs) idx max_hits rules = .ok v ∧
      (CompleteUnlessTruncated idx (allOccurrences mem (packedRules rules) segs) v ↔
        (unbroken mem (packedRules rules) segs ≠ [] ∧
          max_hits * 4 ≤ (unbroken mem (packedRules rules) segs).length) ∨
        ((unbroken mem (packedRules rules) segs).length ≤ max_hits ∧
          ∀ seg ∈ scanned segs, ∀ rule ∈ packedRules rules,
            ∀ h ∈ occurrences mem rule seg.start.val seg.stop.val, crosses seg h = false)) := by
  have hcollects : Collects (max_hits * 4) [] _
      (scanSegmentsIn get_bytes (packedRules rules) (max_hits * 4) segs []) :=
    scanSegments_collects (packedRules rules) hreads []
  obtain ⟨hits, truncated, hscan, htruncated, hhits⟩ := hcollects
  have hperm : ((scanned segs).flatMap (chunkOccurrences mem (packedRules rules))).Perm
      (unbroken mem (packedRules rules) segs) := chunkOccurrences_perm _ segs
  obtain ⟨hle, hcross⟩ := length_unbroken mem (packedRules rules) segs
  have hempty : (scanned segs).flatMap (chunkOccurrences mem (packedRules rules)) = [] ↔
      unbroken mem (packedRules rules) segs = [] :=
    ⟨fun h => List.nil_perm.mp (h ▸ hperm), fun h => List.perm_nil.mp (h ▸ hperm)⟩
  rw [List.nil_append, hperm.length_eq, ne_eq, hempty] at htruncated
  rw [crypto_scanIn, Outcome.ok_bind, hscan]
  refine ⟨_, rfl, ?_⟩
  rw [← htruncated, ← hcross]
  cases truncated with
  | true => exact iff_of_true (fun h => by cases h) (.inl rfl)
  | false =>
    have hranked : (ranked hits).Perm (unbroken mem (packedRules rules) segs) := by
      rw [hhits rfl, List.nil_append]
      exact (List.perm_insertionSort _ _).trans hperm
    have hlength := hranked.length_eq
    constructor
    · intro h
      obtain ⟨findings, hfindings, hall⟩ := h rfl
      obtain rfl := Json.array.inj hfindings
      have hlengths := hall.length_eq
      rw [List.length_map, List.length_map, List.length_take] at hlengths
      exact .inr ⟨by omega, by omega⟩
    · rintro (h | ⟨hfit, hsame⟩) -
      · cases h
      refine ⟨_, rfl, List.Perm.map _ ?_⟩
      rw [List.take_of_length_le (by omega), ← unbroken_eq (hcross.mp hsame)]
      exact hranked

/-! ## Two bytes -/

/-- A segment of two bytes. -/
def twoBytes : SegmentInfo := ⟨".data", 0x402000, 0x402002, "rw-"⟩

/-- A backend on which every byte is `0xaa`. -/
def aaBackend (_ : U64) (want : ℕ) : Result Json :=
  .ok (.object [("hex", String.join (List.replicate want "aa"))])

/-- The rules whose one pattern is that byte. -/
def aaRules : RuleSet :=
  ⟨[⟨"p", "1", "p.jsonl", "0", true, [⟨"aa", [0xaa], "aa", 0, 1⟩], [], []⟩]⟩

lemma aaBackend_reads : Reads aaBackend (fun _ => 0xaa) (scanned [twoBytes]) := by
  intro seg hseg base want hbase hwant
  obtain rfl : seg = twoBytes := List.mem_singleton.mp (List.mem_of_mem_filter hseg)
  refine ⟨_, _, rfl, rfl, ?_⟩
  have hread : readBytes (fun _ => 0xaa) base.val want = List.replicate want 0xaa := by
    rw [readBytes, List.map_const', List.length_range']
  have hle : want ≤ 2 := by
    have hstart : twoBytes.start.val = 0x402000 := rfl
    have hstop : twoBytes.stop.val = 0x402002 := rfl
    have hlo := Fin.le_def.mp hbase
    omega
  rw [hread]
  interval_cases want
  all_goals decide +kernel

/-- Both occurrences fit into the answer. -/
theorem crypto_scan_complete_iff_fits :
    letI : Host := Host.ascii false
    ∃ v, crypto_scanIn aaBackend (.ok [twoBytes]) ⟨1, "", 0, ∅, []⟩ 2 (some aaRules) = .ok v ∧
      CompleteUnlessTruncated ⟨1, "", 0, ∅, []⟩
        (allOccurrences (fun _ => 0xaa) (packedRules (some aaRules)) [twoBytes]) v := by
  let _ : Host := Host.ascii false
  obtain ⟨v, hv, hiff⟩ := crypto_scan_complete_iff aaBackend_reads ⟨1, "", 0, ∅, []⟩ 2
    (some aaRules)
  exact ⟨v, hv, hiff.mpr (.inr (by decide +kernel))⟩

/-- With room for one finding, the second occurrence is lost and the answer is not truncated. -/
theorem crypto_scan_not_complete :
    letI : Host := Host.ascii false
    ¬∀ (get_bytes : U64 → ℕ → Result Json) (mem : ℕ → U8) (segs : List SegmentInfo),
      Reads get_bytes mem (scanned segs) →
      ∀ (idx : AnalysisIndex) (max_hits : ℕ) (rules : Option RuleSet) (v : Json),
        crypto_scanIn get_bytes (.ok segs) idx max_hits rules = .ok v →
          CompleteUnlessTruncated idx (allOccurrences mem (packedRules rules) segs) v := by
  let _ : Host := Host.ascii false
  intro h
  have hcomplete := h _ _ _ aaBackend_reads ⟨1, "", 0, ∅, []⟩ 1 (some aaRules) _ rfl
  obtain ⟨findings, hfindings, hperm⟩ := hcomplete rfl
  obtain rfl := Json.array.inj hfindings
  exact absurd hperm.length_eq (by decide +kernel)

end Crypto

end ReverseMcp
