import ReverseMcp.Wasm.Operator

/-!
# A decoder

The binary format of the operators with at most one index, which is enough to read whole bodies:
an operator is its opcode and an index in LEB128, seven bits in a byte and the last byte without
its high bit.  An index may be padded, so an operator has many encodings; but none of them ends
with another one (`readOperator_suffix`), since only the last byte of an index is below 128.
-/

namespace ReverseMcp.Wasm

open Rust

/-- An index of at most `n` bytes and what is behind it. -/
def readIndex : ℕ → List U8 → Option (ℕ × List U8)
  | 0, _ => none
  | _ + 1, [] => none
  | n + 1, b :: bytes =>
    if b.val < 128 then some (b.val, bytes)
    else (readIndex n bytes).map fun p => (b.val - 128 + 128 * p.1, p.2)

/-- The operators without an index. -/
def plainOperator : ℕ → Option Operator
  | 0x00 => some .unreachable
  | 0x01 => some (.other 1)
  | 0x0b => some .end_
  | 0x0f => some .return_
  | 0x1a => some .drop
  | 0x45 => some .i32Eqz
  | 0x6a => some (.i32Arith .add)
  | 0x6b => some (.i32Arith .sub)
  | _ => none

/-- The operators with an index. -/
def indexOperator : ℕ → Option (U32 → Operator)
  | 0x0d => some .brIf
  | 0x10 => some .call
  | 0x20 => some .localGet
  | 0x21 => some .localSet
  | 0x22 => some .localTee
  | 0x23 => some .globalGet
  | 0x24 => some .globalSet
  | _ => none

/-- An operator and what is behind it. -/
def readOperator : List U8 → Option (Operator × List U8)
  | [] => none
  | b :: bytes =>
    match plainOperator b.val with
    | some op => some (op, bytes)
    | none => do
      let make ← indexOperator b.val
      let (i, rest) ← readIndex 5 bytes
      if h : i < 2 ^ 32 then some (make ⟨i, h⟩, rest) else none

/-! ## Encodings -/

/-- An index is read from a prefix, and all its bytes but the last one have their high bit. -/
lemma readIndex_eq_some {n i : ℕ} {bytes rest : List U8} (h : readIndex n bytes = some (i, rest)) :
    ∃ front last, bytes = front ++ last :: rest ∧ (∀ b ∈ front, 128 ≤ b.val) ∧ last.val < 128 ∧
      readIndex n (front ++ [last]) = some (i, []) := by
  induction n generalizing i bytes with
  | zero => cases h
  | succ n ih =>
    cases bytes with
    | nil => cases h
    | cons b bytes =>
      rw [readIndex] at h
      split at h
      · rename_i hlast
        cases h
        exact ⟨[], b, rfl, nofun, hlast, by rw [List.nil_append, readIndex, if_pos hlast]⟩
      · rename_i hmore
        obtain ⟨⟨j, rest'⟩, hj, h⟩ := Option.map_eq_some_iff.mp h
        cases h
        obtain ⟨front, last, rfl, hfront, hlast, hread⟩ := ih hj
        refine ⟨b :: front, last, rfl,
          List.forall_mem_cons.mpr ⟨not_lt.mp hmore, hfront⟩, hlast, ?_⟩
        rw [List.cons_append, readIndex, if_neg hmore, hread]
        rfl

/-- The opcode of an operator with an index is below 128, and no other operator is the same. -/
lemma indexOperator_eq_some {opcode : ℕ} {make : U32 → Operator}
    (h : indexOperator opcode = some make) :
    opcode < 128 ∧ ∀ i n, plainOperator n ≠ some (make i) := by
  rw [indexOperator.eq_def] at h
  split at h
  case h_8 => cases h
  all_goals
    cases h
    refine ⟨by decide, fun i n => ?_⟩
    rw [plainOperator.eq_def]
    split <;> simp

/-- How an operator is read. -/
lemma readOperator_cases {op : Operator} {bytes rest : List U8}
    (h : readOperator bytes = some (op, rest)) :
    (∃ b, bytes = b :: rest ∧ plainOperator b.val = some op) ∨
      ∃ b make i front last, bytes = b :: (front ++ last :: rest) ∧ plainOperator b.val = none ∧
        indexOperator b.val = some make ∧ (∀ x ∈ front, 128 ≤ x.val) ∧
        readIndex 5 (front ++ [last]) = some (i, []) ∧ ∃ hi : i < 2 ^ 32, op = make ⟨i, hi⟩ := by
  cases bytes with
  | nil => cases h
  | cons b bytes =>
    rw [readOperator] at h
    split at h
    · rename_i op' hplain
      cases h
      exact Or.inl ⟨b, rfl, hplain⟩
    · rename_i hplain
      obtain ⟨make, hmake, h⟩ := Option.bind_eq_some_iff.mp h
      obtain ⟨⟨i, rest'⟩, hindex, h⟩ := Option.bind_eq_some_iff.mp h
      dsimp only at h
      split at h
      · rename_i hi
        cases h
        obtain ⟨front, last, rfl, hfront, -, hread⟩ := readIndex_eq_some hindex
        exact Or.inr ⟨b, make, i, front, last, rfl, hplain, hmake, hfront, hread, hi, rfl⟩
      · cases h

/-- An operator is read from its encoding. -/
lemma readOperator_eq_some {op : Operator} {bytes rest : List U8}
    (h : readOperator bytes = some (op, rest)) :
    ∃ c, bytes = c ++ rest ∧ c ≠ [] ∧ readOperator c = some (op, []) := by
  rcases readOperator_cases h with ⟨b, rfl, hplain⟩ |
    ⟨b, make, i, front, last, rfl, hplain, hmake, -, hread, hi, rfl⟩
  · exact ⟨[b], rfl, List.cons_ne_nil _ _, by rw [readOperator, hplain]⟩
  · refine ⟨b :: (front ++ [last]), by simp, List.cons_ne_nil _ _, ?_⟩
    rw [readOperator, hplain, hmake]
    simpa [hread] using hi

/-- No encoding of an operator ends with another one of the same operator: behind the opcode only
the last byte of an index is below 128, and an opcode is. -/
lemma readOperator_suffix {op : Operator} {c d : List U8} (h : readOperator c = some (op, []))
    (h' : readOperator (d ++ c) = some (op, [])) : d = [] := by
  cases d with
  | nil => rfl
  | cons x d =>
    rcases readOperator_cases h with ⟨b, rfl, hplain⟩ |
      ⟨b, make, i, front, last, rfl, -, hmake, -⟩
    · rcases readOperator_cases h' with ⟨b', heq, -⟩ |
        ⟨b', make, i, front, last, -, -, hmake, -, -, hi, rfl⟩
      · simp at heq
      · exact absurd hplain ((indexOperator_eq_some hmake).2 _ _)
    · rcases readOperator_cases h' with ⟨b', heq, -⟩ |
        ⟨b', make', i', front', last', heq, -, -, hfront', -⟩
      · simp at heq
      · -- the opcode is among the bytes with the high bit
        have htail : d ++ b :: front = front' := by
          have heq' : (d ++ b :: front) ++ [last] = front' ++ [last'] := by
            simpa using (List.cons.inj heq).2
          exact (List.append_inj' heq' rfl).1
        have hhigh : 128 ≤ b.val := hfront' b (htail ▸ by simp)
        exact absurd (indexOperator_eq_some hmake).1 (not_lt.mpr hhigh)

/-! ## Bodies -/

/-- The operators of a body of `n` bytes, of which `bytes` are left. -/
def readOperators (n : ℕ) : ℕ → List U8 → OperatorsReader
  | 0, _ => .eof (asU64 n)
  | fuel + 1, bytes =>
    let position := asU64 (n - bytes.length)
    if bytes.isEmpty then .eof position
    else
      match readOperator bytes with
      | some (op, rest) => .read position op (readOperators n fuel rest)
      | none => .failed position position "illegal opcode"

/-- The operators of a body are read from their encodings, one after the other. -/
lemma readOperators_split {n fuel : ℕ} {bytes : List U8} {ops : List Operator}
    (hfuel : bytes.length < fuel) (h : (readOperators n fuel bytes).decoded = some ops) :
    ∃ cs, List.Forall₂ (fun op c => readOperator c = some (op, [])) ops cs ∧
    cs.flatten = bytes := by
  induction fuel generalizing bytes ops with
  | zero => exact absurd hfuel (Nat.not_lt_zero _)
  | succ fuel ih =>
    rw [readOperators] at h
    split at h
    · rename_i hempty
      cases h
      exact ⟨[], .nil, (List.isEmpty_iff.mp hempty).symm⟩
    · split at h
      · rename_i op rest hread
        obtain ⟨ops', hops', rfl⟩ := Option.map_eq_some_iff.mp h
        obtain ⟨c, rfl, hne, hc⟩ := readOperator_eq_some hread
        have hshorter : rest.length < fuel := by
          have hlength : 0 < c.length := List.length_pos_iff.mpr hne
          rw [List.length_append] at hfuel
          omega
        obtain ⟨cs, hcs, rfl⟩ := ih hshorter hops'
        exact ⟨c :: cs, .cons hc hcs, rfl⟩
      · cases h

/-- The parser for these operators. -/
@[reducible] def Wasmparser.basic : Wasmparser where
  operators body := readOperators body.length (body.length + 1) body
  discriminant _ := "Discriminant"

end ReverseMcp.Wasm
