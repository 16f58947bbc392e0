import ReverseMcp.Core.Queries
import ReverseMcp.Ida.Graphs
import ReverseMcp.Rust.Collections

/-!
# The index of the real backend

`IdaLibBackend::build_index`: one pass over the instructions of every function, and then the lists
that go the other way, from the strings to the functions and from the callees to the callers.

The callers mirror the callees, call by call (`index_call_graph`).  The strings do not mirror
the functions: a function lists the strings that its references lead to, and a string lists the
functions that have its address in an operand (`index_strings_exact`).
-/

namespace ReverseMcp

open Rust ReverseMcp.Graph

/-- `trim_start_matches`, on a text of `n` characters. -/
def dropPrefixes (p : List Char) : ℕ → List Char → List Char
  | 0, cs => cs
  | n + 1, cs =>
    match cs.dropPrefix? p with
    | some rest => dropPrefixes p n rest
    | none => cs

/-- `trim_start_matches`. -/
def trim_start_matches (s p : String) : String :=
  String.ofList (dropPrefixes p.toList s.toList.length s.toList)

/-- `sort_unstable` and `dedup`. -/
def sorted {α : Type} [Ord α] [DecidableEq α] (l : List α) : List α := dedupBy id (sortByKey id l)

namespace Idb

variable (idb : Idb)

/-! ## The facts of a function -/

/-- The instructions of a function from `ea` on, at most `n` of them. -/
def heads (stop : U64) : ℕ → U64 → List (U64 × Insn)
  | 0, _ => []
  | n + 1, ea =>
    if ea < stop then
      match hinsn : idb.insn_at ea with
      | none => []
      | some insn => (ea, insn) :: heads stop n ⟨ea.val + insn.size, idb.fits ea insn hinsn⟩
    else []

/-- The operands of a call: the first one with an address or a value counts. -/
def addCall : List Operand → FunctionFacts → FunctionFacts
  | [], f => f
  | op :: rest, f =>
    match op.addr with
    | some target =>
      match idb.function_at target with
      | some tf =>
        let tname := idb.get_name tf.start
        let f := { f with callees := f.callees ++ [tf.start] }
        if startsWith tname "j_" || startsWith tname "__imp_" then
          { f with imports := f.imports ++
              [trim_start_matches (trim_start_matches tname "j_") "__imp_"] }
        else f
      | none => f
    | none =>
      match op.value with
      | some v => if 0x10000 ≤ v then { f with constants := f.constants ++ [v] } else f
      | none => addCall rest f

/-- An operand of another instruction. -/
def addOperand (f : FunctionFacts) (op : Operand) : FunctionFacts :=
  let f := match op.value with
    | some v =>
      if 0x10000 ≤ v ∧ f.constants.getLast? ≠ some v then
        { f with constants := f.constants ++ [v] }
      else f
    | none => f
  match op.addr with
  | some t => { f with globals := f.globals ++ [t] }
  | none => f

/-- A reference, to a string or to something else. -/
def addXref (strings : List (U64 × String)) (f : FunctionFacts) (x : XRef) : FunctionFacts :=
  match strings.find? fun s => s.1 = x.dst with
  | some s => if s.2 ∈ f.strings then f else { f with strings := f.strings ++ [s.2] }
  | none => { f with globals := f.globals ++ [x.dst] }

/-- An instruction. -/
def addHead (f : FunctionFacts) (h : U64 × Insn) : FunctionFacts :=
  let f := if h.2.is_call then idb.addCall h.2.operands f
    else if h.2.is_indirect_jump then { f with indirect_calls := f.indirect_calls + 1 }
    else h.2.operands.foldl addOperand f
  (idb.xrefs_from h.1).foldl (addXref idb.strings) f

/-- What is collected from the instructions. -/
def collected (f : Function) : FunctionFacts :=
  (idb.heads f.stop 200000 f.start).foldl idb.addHead
    { ea_start := f.start, ea_end := f.stop, name := idb.get_name f.start,
      size := asU64 (f.stop.val - f.start.val) }

/-- The facts of a function. -/
def facts (f : Function) : FunctionFacts :=
  let c := idb.collected f
  { c with
    constants := sorted c.constants, globals := sorted c.globals, imports := sorted c.imports }

/-! ## The index -/

/-- The functions. -/
def functionMap : AddrMap FunctionFacts :=
  idb.functions.foldl (fun m f => m.insert f.start (idb.facts f)) ∅

/-- The functions that have the address among their globals. -/
def refsTo (functions : AddrMap FunctionFacts) (sea : U64) : List U64 :=
  (functions.toList.filter fun f => sea ∈ f.2.globals).map Prod.fst

/-- The strings that are referenced. -/
def indexedStrings (functions : AddrMap FunctionFacts) : List IndexedString :=
  idb.strings.filterMap fun s =>
    let refs := refsTo functions s.1
    if refs = [] then none else some ⟨s.1, s.2, refs⟩

/-- The calls between functions. -/
def callEdges (functions : AddrMap FunctionFacts) : List (U64 × U64) :=
  functions.toList.flatMap fun f => f.2.callees.map fun c => (f.1, c)

/-- A call is listed at the callee, if that is indexed. -/
def addCaller (functions : AddrMap FunctionFacts) (e : U64 × U64) : AddrMap FunctionFacts :=
  functions.modify e.2 fun f => { f with callers := f.callers ++ [e.1] }

/-- `IdaLibBackend::build_index`, of a file and at a revision. -/
def build_index (md5 : String) (revision : U64) : AnalysisIndex × String :=
  let functions := idb.functionMap
  ({ schema_version := INDEX_SCHEMA_VERSION, binary_md5 := md5, revision
     functions := (callEdges functions).foldl addCaller functions
     strings := idb.indexedStrings functions }, md5)

/-! ## What an instruction adds -/

/-- What a call is a call of. -/
def called : List Operand → List U64
  | [] => []
  | op :: rest =>
    match op.addr with
    | some target => ((idb.function_at target).map Function.start).toList
    | none =>
      match op.value with
      | some _ => []
      | none => called rest

/-- The string at an address. -/
def stringAt (v : U64) : Option String := (idb.strings.find? fun s => s.1 = v).map Prod.snd

/-- What an instruction calls. -/
def headCallees (h : U64 × Insn) : List U64 := if h.2.is_call then idb.called h.2.operands else []

/-- The addresses in the operands of an instruction that does not go elsewhere. -/
def headOperands (h : U64 × Insn) : List U64 :=
  if h.2.is_call ∨ h.2.is_indirect_jump then [] else h.2.operands.filterMap Operand.addr

/-- The references of an instruction to something other than strings. -/
def headXrefs (h : U64 × Insn) : List U64 :=
  ((idb.xrefs_from h.1).map XRef.dst).filter fun v => idb.stringAt v = none

/-- The strings that an instruction refers to. -/
def headStrings (h : U64 × Insn) : List String :=
  ((idb.xrefs_from h.1).map XRef.dst).filterMap idb.stringAt

/-- The instruction jumps somewhere that is not known. -/
def jumpsIndirectly (h : U64 × Insn) : Bool := !h.2.is_call && h.2.is_indirect_jump

variable {idb} {f f' f'' : FunctionFacts} {hs hs' : List (U64 × Insn)}

lemma addCall_eq (ops : List Operand) (f : FunctionFacts) : ∃ imports constants,
    idb.addCall ops f =
      { f with
        callees := f.callees ++ idb.called ops, imports := imports, constants := constants } := by
  induction ops with
  | nil => exact ⟨f.imports, f.constants, by simp [addCall, called]⟩
  | cons op rest ih =>
    rw [addCall, called]
    cases op.addr with
    | some target =>
      dsimp only
      cases idb.function_at target with
      | none => exact ⟨f.imports, f.constants, by simp⟩
      | some tf =>
        dsimp only
        split
        · exact ⟨_, f.constants, rfl⟩
        · exact ⟨f.imports, f.constants, rfl⟩
    | none =>
      dsimp only
      cases op.value with
      | none => exact ih
      | some v =>
        dsimp only
        split
        · exact ⟨f.imports, f.constants ++ [v], by simp⟩
        · exact ⟨f.imports, f.constants, by simp⟩

lemma addOperand_eq (f : FunctionFacts) (op : Operand) : ∃ constants, addOperand f op =
    { f with constants := constants, globals := f.globals ++ op.addr.toList } := by
  rw [addOperand]
  cases op.addr with
  | none =>
    cases op.value with
    | none => exact ⟨f.constants, by simp⟩
    | some v =>
      dsimp only
      split
      · exact ⟨f.constants ++ [v], by simp⟩
      · exact ⟨f.constants, by simp⟩
  | some t =>
    cases op.value with
    | none => exact ⟨f.constants, by simp⟩
    | some v =>
      dsimp only
      split
      · exact ⟨f.constants ++ [v], by simp⟩
      · exact ⟨f.constants, by simp⟩

lemma addOperands_eq (ops : List Operand) (f : FunctionFacts) : ∃ constants,
    ops.foldl addOperand f =
      { f with constants := constants, globals := f.globals ++ ops.filterMap Operand.addr } := by
  induction ops generalizing f with
  | nil => exact ⟨f.constants, by simp⟩
  | cons op rest ih =>
    obtain ⟨_, hop⟩ := addOperand_eq f op
    obtain ⟨constants, hrest⟩ := ih (addOperand f op)
    refine ⟨constants, ?_⟩
    rw [List.foldl_cons, hrest, hop]
    cases h : op.addr with
    | none => simp [h]
    | some t => simp [h]

lemma addXref_cases (f : FunctionFacts) (x : XRef) : addXref idb.strings f x =
    match idb.stringAt x.dst with
    | some t => if t ∈ f.strings then f else { f with strings := f.strings ++ [t] }
    | none => { f with globals := f.globals ++ [x.dst] } := by
  rw [addXref, stringAt]
  cases idb.strings.find? fun s => s.1 = x.dst with
  | none => rfl
  | some s => rfl

lemma addXref_eq (f : FunctionFacts) (x : XRef) : ∃ strings,
    addXref idb.strings f x =
      { f with
        strings := strings
        globals := f.globals ++ [x.dst].filter fun v => idb.stringAt v = none } ∧
    (∀ t, t ∈ strings ↔ t ∈ f.strings ∨ t ∈ [x.dst].filterMap idb.stringAt) ∧
    (f.strings.Nodup → strings.Nodup) := by
  rw [addXref_cases]
  cases h : idb.stringAt x.dst with
  | none => exact ⟨f.strings, by simp [h], by simp [h], id⟩
  | some t =>
    dsimp only
    split
    · rename_i ht
      refine ⟨f.strings, by simp [h], fun u => ?_, id⟩
      have hu : u ∈ [x.dst].filterMap idb.stringAt ↔ u = t := by simp [h]
      rw [hu]
      exact ⟨.inl, fun hu => hu.elim id fun hu => hu ▸ ht⟩
    · rename_i ht
      refine ⟨f.strings ++ [t], by simp [h], fun u => by simp [h], fun hnodup => ?_⟩
      rw [← List.concat_eq_append]
      exact hnodup.concat ht

lemma addXrefs_eq (xs : List XRef) (f : FunctionFacts) : ∃ strings,
    xs.foldl (addXref idb.strings) f =
      { f with
        strings := strings
        globals := f.globals ++ (xs.map XRef.dst).filter fun v => idb.stringAt v = none } ∧
    (∀ t, t ∈ strings ↔ t ∈ f.strings ∨ t ∈ (xs.map XRef.dst).filterMap idb.stringAt) ∧
    (f.strings.Nodup → strings.Nodup) := by
  induction xs generalizing f with
  | nil => exact ⟨f.strings, by simp, by simp, id⟩
  | cons x rest ih =>
    obtain ⟨strings, hx, hmem, hnodup⟩ := idb.addXref_eq f x
    obtain ⟨strings', hrest, hmem', hnodup'⟩ := ih (addXref idb.strings f x)
    rw [hx] at hmem' hnodup'
    have hsplit : (x :: rest).map XRef.dst = [x.dst] ++ rest.map XRef.dst := rfl
    refine ⟨strings', ?_, fun t => ?_, fun h => hnodup' (hnodup h)⟩
    · rw [List.foldl_cons, hrest, hx, hsplit, List.filter_append]
      simp only [List.append_assoc]
    · rw [hmem', hmem, hsplit, List.filterMap_append, List.mem_append, or_assoc]

/-- What has been added to the facts by some instructions. -/
structure Adds (idb : Idb) (hs : List (U64 × Insn)) (f f' : FunctionFacts) : Prop where
  fixed : (f'.ea_start, f'.ea_end, f'.name, f'.size, f'.callers) =
    (f.ea_start, f.ea_end, f.name, f.size, f.callers)
  callees : f'.callees = f.callees ++ hs.flatMap idb.headCallees
  globals : ∀ v, v ∈ f'.globals ↔
    v ∈ f.globals ∨ ∃ h ∈ hs, v ∈ headOperands h ∨ v ∈ idb.headXrefs h
  strings : ∀ t, t ∈ f'.strings ↔ t ∈ f.strings ∨ ∃ h ∈ hs, t ∈ idb.headStrings h
  strings_nodup : f.strings.Nodup → f'.strings.Nodup
  indirect_calls : f'.indirect_calls.val =
    (f.indirect_calls.val + hs.countP jumpsIndirectly) % 2 ^ 32

lemma Adds.refl (f : FunctionFacts) : Adds idb [] f f where
  fixed := rfl
  callees := by simp
  globals := by simp
  strings := by simp
  strings_nodup := id
  indirect_calls := (Nat.mod_eq_of_lt f.indirect_calls.isLt).symm

lemma Adds.append (h : Adds idb hs f f') (h' : Adds idb hs' f' f'') :
    Adds idb (hs ++ hs') f f'' where
  fixed := h'.fixed.trans h.fixed
  callees := by rw [h'.callees, h.callees, List.flatMap_append, List.append_assoc]
  globals v := by
    rw [h'.globals, h.globals, or_assoc]
    simp only [List.mem_append, or_and_right, exists_or]
  strings t := by
    rw [h'.strings, h.strings, or_assoc]
    simp only [List.mem_append, or_and_right, exists_or]
  strings_nodup hnodup := h'.strings_nodup (h.strings_nodup hnodup)
  indirect_calls := by
    rw [h'.indirect_calls, h.indirect_calls, List.countP_append]
    omega

/-- The facts behind the operands. -/
lemma operands_eq (f : FunctionFacts) (h : U64 × Insn) : ∃ imports constants,
    (if h.2.is_call then idb.addCall h.2.operands f
      else if h.2.is_indirect_jump then { f with indirect_calls := f.indirect_calls + 1 }
      else h.2.operands.foldl addOperand f) =
    { f with
      callees := f.callees ++ idb.headCallees h
      globals := f.globals ++ headOperands h
      indirect_calls := if jumpsIndirectly h then f.indirect_calls + 1 else f.indirect_calls
      imports := imports, constants := constants } := by
  rw [headCallees, headOperands, jumpsIndirectly]
  by_cases hcall : h.2.is_call = true
  · obtain ⟨imports, constants, heq⟩ := idb.addCall_eq h.2.operands f
    exact ⟨imports, constants, by simp [hcall, heq]⟩
  by_cases hjump : h.2.is_indirect_jump = true
  · exact ⟨f.imports, f.constants, by simp [hcall, hjump]⟩
  · obtain ⟨constants, heq⟩ := addOperands_eq h.2.operands f
    exact ⟨f.imports, constants, by simp [hcall, hjump, heq]⟩

lemma Adds.head (f : FunctionFacts) (h : U64 × Insn) : Adds idb [h] f (idb.addHead f h) := by
  obtain ⟨imports, constants, hops⟩ := idb.operands_eq f h
  rw [addHead, hops]
  obtain ⟨strings, hxrefs, hmem, hnodup⟩ := idb.addXrefs_eq (idb.xrefs_from h.1)
    { f with
      callees := f.callees ++ idb.headCallees h
      globals := f.globals ++ headOperands h
      indirect_calls := if jumpsIndirectly h then f.indirect_calls + 1 else f.indirect_calls
      imports := imports, constants := constants }
  dsimp only at hxrefs ⊢
  rw [hxrefs]
  refine ⟨rfl, by simp, fun v => ?_, fun t => ?_, hnodup, ?_⟩
  · simp [headXrefs]
  · rw [hmem]
    simp [headStrings]
  · rw [List.countP_singleton]
    cases jumpsIndirectly h with
    | true => exact Fin.val_add _ _
    | false => exact (Nat.mod_eq_of_lt f.indirect_calls.isLt).symm

lemma adds_heads (hs : List (U64 × Insn)) (f : FunctionFacts) :
    Adds idb hs f (hs.foldl idb.addHead f) := by
  induction hs generalizing f with
  | nil => exact .refl f
  | cons h rest ih => exact (Adds.head f h).append (ih _)

/-! ## Functions and calls -/

/-- The last function that starts at an address is indexed there. -/
lemma getElem?_functionMap (a : U64) : idb.functionMap[a]? =
    (idb.functions.reverse.find? fun f => f.start = a).map idb.facts := by
  rw [functionMap]
  induction idb.functions using List.reverseRecOn with
  | nil => rfl
  | append_singleton l f ih =>
    rw [List.foldl_concat, getElem?_insert_eq_ite, List.reverse_append, List.reverse_singleton,
      List.singleton_append, List.find?_cons]
    by_cases ha : a = f.start
    · simp [ha]
    · have hne : ¬ f.start = a := fun h => ha h.symm
      simp [ha, hne, ih]

lemma exists_of_functionMap {a : U64} (h : idb.functionMap[a]? = some f) :
    ∃ fn ∈ idb.functions, fn.start = a ∧ f = idb.facts fn := by
  rw [getElem?_functionMap, Option.map_eq_some_iff] at h
  obtain ⟨fn, hfn, rfl⟩ := h
  exact ⟨fn, List.mem_reverse.mp (List.mem_of_find?_eq_some hfn),
    by simpa using List.find?_some hfn, rfl⟩

lemma mem_functionMap {a : U64} : a ∈ idb.functionMap ↔ ∃ fn ∈ idb.functions, fn.start = a := by
  rw [Std.ExtTreeMap.mem_iff_isSome_getElem?, getElem?_functionMap, Option.isSome_map,
    List.find?_isSome]
  simp

/-- The callers are those of the calls. -/
lemma getElem?_addCallers (edges : List (U64 × U64)) (m : AddrMap FunctionFacts) (b : U64) :
    (edges.foldl addCaller m)[b]? = m[b]?.map fun f =>
      { f with callers := f.callers ++ (edges.filter fun e => e.2 = b).map Prod.fst } := by
  induction edges generalizing m with
  | nil => simp
  | cons e rest ih =>
    rw [List.foldl_cons, ih, addCaller, Std.ExtTreeMap.getElem?_modify, List.filter_cons]
    by_cases he : e.2 = b
    · subst he
      cases m[e.2]? with
      | none => simp
      | some f => simp
    · have hcmp : compare e.2 b ≠ .eq := fun h => he (Std.LawfulEqCmp.eq_of_compare h)
      rw [if_neg hcmp]
      simp [he]

end Idb

/-- Among lists under distinct keys, a pair of a key is counted in the list under the key. -/
lemma count_flatMap_keys {κ α β : Type} [DecidableEq κ] [DecidableEq β] (g : α → List β) {k : κ}
    {x : α} {y : β} {l : List (κ × α)} (hnodup : (l.map Prod.fst).Nodup) (hmem : (k, x) ∈ l) :
    (l.flatMap fun p => (g p.2).map fun z => (p.1, z)).count (k, y) = (g x).count y := by
  have hother : ∀ p : κ × α, p.1 ≠ k → ((g p.2).map fun z => (p.1, z)).count (k, y) = 0 := by
    intro p hp
    refine List.count_eq_zero.mpr fun hin => ?_
    obtain ⟨z, -, hz⟩ := List.mem_map.mp hin
    exact hp (congrArg Prod.fst hz)
  induction l with
  | nil => cases hmem
  | cons p rest ih =>
    obtain ⟨hp, hrest⟩ := List.nodup_cons.mp hnodup
    rw [List.flatMap_cons, List.count_append]
    rcases List.mem_cons.mp hmem with rfl | hin
    · -- the key does not occur in the rest
      have hzero : (rest.flatMap fun p => (g p.2).map fun z => (p.1, z)).count (k, y) = 0 := by
        refine List.count_eq_zero.mpr fun hin => ?_
        obtain ⟨q, hq, hin⟩ := List.mem_flatMap.mp hin
        obtain ⟨z, -, hz⟩ := List.mem_map.mp hin
        have hkey : q.1 = k := congrArg Prod.fst hz
        exact hp (List.mem_map.mpr ⟨q, hq, hkey⟩)
      rw [hzero, Nat.add_zero]
      exact List.count_map_of_injective _ _ (Prod.mk_right_injective k) y
    · have hne : p.1 ≠ k := fun heq => hp (heq ▸ List.mem_map.mpr ⟨_, hin, rfl⟩)
      rw [hother p hne, Nat.zero_add]
      exact ih hrest hin

/-- The keys of a map are distinct. -/
lemma AddrMap.keys_nodup {V : Type} (m : AddrMap V) : (m.toList.map Prod.fst).Nodup := by
  refine List.pairwise_map.mpr (Std.ExtTreeMap.distinct_keys_toList.imp fun {p q} h heq => h ?_)
  rw [heq]
  exact Std.ReflCmp.compare_self

namespace Idb

variable {idb : Idb} {f : FunctionFacts} {md5 : String} {revision : U64}

/-- The functions of the index, with their callers. -/
lemma getElem?_build_index (b : U64) : (idb.build_index md5 revision).1.functions[b]? =
    idb.functionMap[b]?.map fun f =>
      { f with callers := f.callers ++
        ((callEdges idb.functionMap).filter fun e => e.2 = b).map Prod.fst } :=
  getElem?_addCallers _ _ _

/-- A count of the callers of a function is one of the callees of the caller. -/
lemma count_callers {a b : U64} (ha : idb.functionMap[a]? = some f) :
    (((callEdges idb.functionMap).filter fun e => e.2 = b).map Prod.fst).count a =
      f.callees.count b := by
  have hedges : (((callEdges idb.functionMap).filter fun e => e.2 = b).map Prod.fst).count a =
      (callEdges idb.functionMap).count (a, b) := by
    induction callEdges idb.functionMap with
    | nil => rfl
    | cons e rest ih =>
      rw [List.count_cons, List.filter_cons, ← ih]
      by_cases he : e.2 = b
      · subst he
        simp [List.count_cons, Prod.ext_iff]
      · simp [he, Prod.ext_iff]
  rw [hedges]
  exact count_flatMap_keys FunctionFacts.callees (AddrMap.keys_nodup _)
    (Std.ExtTreeMap.mem_toList_iff_getElem?_eq_some.mpr ha)

lemma facts_adds (fn : Function) : Adds idb (idb.heads fn.stop 200000 fn.start)
    { ea_start := fn.start, ea_end := fn.stop, name := idb.get_name fn.start,
      size := asU64 (fn.stop.val - fn.start.val) } (idb.collected fn) := adds_heads _ _

/-- The callees of a function are those of its instructions. -/
lemma facts_callees (fn : Function) :
    (idb.facts fn).callees = (idb.heads fn.stop 200000 fn.start).flatMap idb.headCallees :=
  (facts_adds fn).callees

lemma facts_callers (fn : Function) : (idb.facts fn).callers = [] :=
  (Prod.mk.inj (Prod.mk.inj (Prod.mk.inj (Prod.mk.inj (facts_adds fn).fixed).2).2).2).2

lemma mem_sorted {α : Type} [Ord α] [DecidableEq α] {x : α} {l : List α} :
    x ∈ sorted l ↔ x ∈ l := by
  rw [sorted, mem_dedupBy_id, (sortByKey_perm id l).mem_iff]

/-! ## The index and the graphs -/

lemma exists_of_called {ops : List Operand} {c : U64} (h : c ∈ idb.called ops) :
    ∃ target ∈ ops.filterMap Operand.addr, ∃ tf, idb.function_at target = some tf ∧
      tf.start = c := by
  induction ops with
  | nil => cases h
  | cons op rest ih =>
    rw [called] at h
    cases hop : op.addr with
    | some target =>
      rw [hop] at h
      obtain ⟨tf, htf, hc⟩ := Option.map_eq_some_iff.mp (Option.mem_toList.mp h)
      exact ⟨target, by simp [hop], tf, htf, hc⟩
    | none =>
      rw [hop] at h
      cases hval : op.value with
      | some v =>
        rw [hval] at h
        cases h
      | none =>
        rw [hval] at h
        obtain ⟨target, htarget, hcalled⟩ := ih h
        exact ⟨target, by simpa [hop] using htarget, hcalled⟩

lemma insn_at_of_mem_heads {stop : U64} {h : U64 × Insn} (n : ℕ) {ea : U64}
    (hh : h ∈ idb.heads stop n ea) : idb.insn_at h.1 = some h.2 := by
  induction n generalizing ea with
  | zero => cases hh
  | succ n ih =>
    rw [heads] at hh
    split at hh
    · split at hh
      · cases hh
      · rename_i insn hinsn
        rcases List.mem_cons.mp hh with rfl | hh
        · exact hinsn
        · exact ih hh
    · cases hh

lemma calleesFrom_some {stop ea : U64} {insn : Insn} (hlt : ea < stop)
    (hinsn : idb.insn_at ea = some insn) : idb.calleesFrom stop ea = idb.callTargets ea insn ++
      idb.calleesFrom stop ⟨ea.val + insn.size, idb.fits ea insn hinsn⟩ := by
  rw [calleesFrom, dif_pos hlt]
  split
  · rename_i hnone
    rw [hinsn] at hnone
    cases hnone
  · rename_i insn' hinsn'
    obtain rfl : insn' = insn := Option.some.inj (hinsn'.symm.trans hinsn)
    rfl

/-- The graph looks at all instructions that the index looks at. -/
lemma mem_calleesFrom {stop : U64} {h : U64 × Insn} {v : U64} (n : ℕ) {ea : U64}
    (hh : h ∈ idb.heads stop n ea) (hv : v ∈ idb.callTargets h.1 h.2) :
    v ∈ idb.calleesFrom stop ea := by
  induction n generalizing ea with
  | zero => cases hh
  | succ n ih =>
    rw [heads] at hh
    split at hh
    · rename_i hlt
      split at hh
      · cases hh
      · rename_i insn hinsn
        rw [calleesFrom_some hlt hinsn]
        rcases List.mem_cons.mp hh with rfl | hh
        · exact List.mem_append_left _ hv
        · exact List.mem_append_right _ (ih hh)
    · cases hh

/-- What the index has as a callee is a call of the graph. -/
lemma mem_calls_of_facts {fn : Function} (hstart : idb.function_at fn.start = some fn) {c : U64}
    (hc : c ∈ (idb.facts fn).callees) :
    c ∈ idb.calls fn.start ∧ ∃ ea tf, idb.function_at ea = some tf ∧ tf.start = c := by
  rw [facts_callees] at hc
  obtain ⟨h, hh, hc⟩ := List.mem_flatMap.mp hc
  rw [headCallees] at hc
  split at hc
  · rename_i hcall
    obtain ⟨target, htarget, tf, htf, rfl⟩ := exists_of_called hc
    have hv : target ∈ idb.callTargets h.1 h.2 := by
      rw [callTargets, if_pos hcall]
      exact List.mem_append_left _ htarget
    refine ⟨?_, target, tf, htf, rfl⟩
    rw [calls, hstart]
    refine List.mem_map.mpr ⟨target, mem_calleesFrom _ hh hv, ?_⟩
    rw [resolve, htf]
  · cases hc

/-- The functions of a database: each one is found at its start, and what is found somewhere is one
of them. -/
structure Listed (idb : Idb) : Prop where
  at_start : ∀ fn ∈ idb.functions, idb.function_at fn.start = some fn
  listed : ∀ ea fn, idb.function_at ea = some fn → fn ∈ idb.functions

end Idb

namespace Idb.Listed

variable {idb : Idb} {md5 : String} {revision : U64}

lemma functionMap_eq (h : idb.Listed) {fn : Idb.Function} (hfn : fn ∈ idb.functions) :
    idb.functionMap[fn.start]? = some (idb.facts fn) := by
  have hmem : fn.start ∈ idb.functionMap := Idb.mem_functionMap.mpr ⟨fn, hfn, rfl⟩
  obtain ⟨f, hf⟩ := Option.isSome_iff_exists.mp (Std.ExtTreeMap.mem_iff_isSome_getElem?.mp hmem)
  obtain ⟨fn', hfn', hstart, rfl⟩ := Idb.exists_of_functionMap hf
  have hsame : some fn' = some fn := by
    rw [← h.at_start fn' hfn', ← h.at_start fn hfn, hstart]
  rw [hf, Option.some.inj hsame]

/-- The facts of a function in the index. -/
lemma getElem?_index (h : idb.Listed) {fn : Idb.Function} (hfn : fn ∈ idb.functions) :
    (idb.build_index md5 revision).1.functions[fn.start]? = some { idb.facts fn with
      callers := ((callEdges idb.functionMap).filter fun e => e.2 = fn.start).map Prod.fst } := by
  rw [getElem?_build_index, h.functionMap_eq hfn, Option.map_some, facts_callers, List.nil_append]

lemma mem_index (h : idb.Listed) {a : U64} {f : FunctionFacts}
    (hf : (idb.build_index md5 revision).1.functions[a]? = some f) :
    ∃ fn ∈ idb.functions, fn.start = a ∧ f = { idb.facts fn with
      callers := ((callEdges idb.functionMap).filter fun e => e.2 = a).map Prod.fst } := by
  have hmap := hf
  rw [getElem?_build_index, Option.map_eq_some_iff] at hmap
  obtain ⟨f₀, hf₀, -⟩ := hmap
  obtain ⟨fn, hfn, rfl, -⟩ := exists_of_functionMap hf₀
  rw [h.getElem?_index hfn] at hf
  exact ⟨fn, hfn, rfl, (Option.some.inj hf).symm⟩

/-- The functions that have the address of a string among their globals have it in an operand. -/
lemma mem_refsTo (h : idb.Listed) {v : U64} (hv : idb.stringAt v ≠ none) {a : U64} :
    a ∈ refsTo idb.functionMap v ↔ ∃ fn ∈ idb.functions, fn.start = a ∧
      ∃ i ∈ idb.heads fn.stop 200000 fn.start, v ∈ headOperands i := by
  have hglobals : ∀ fn, v ∈ (idb.facts fn).globals ↔
      ∃ i ∈ idb.heads fn.stop 200000 fn.start, v ∈ headOperands i := by
    intro fn
    show v ∈ sorted (idb.collected fn).globals ↔ _
    rw [mem_sorted, (facts_adds fn).globals, or_iff_right List.not_mem_nil]
    refine exists_congr fun i => and_congr_right fun _ => or_iff_left fun hxref => ?_
    exact hv (by simpa using (List.mem_filter.mp hxref).2)
  rw [refsTo, List.mem_map]
  constructor
  · rintro ⟨p, hp, rfl⟩
    obtain ⟨hp, hglobal⟩ := List.mem_filter.mp hp
    obtain ⟨fn, hfn, hstart, hfacts⟩ :=
      exists_of_functionMap (Std.ExtTreeMap.mem_toList_iff_getElem?_eq_some.mp hp)
    rw [hfacts] at hglobal
    exact ⟨fn, hfn, hstart, (hglobals fn).mp (of_decide_eq_true hglobal)⟩
  · rintro ⟨fn, hfn, rfl, hop⟩
    refine ⟨(fn.start, idb.facts fn), List.mem_filter.mpr ⟨?_, ?_⟩, rfl⟩
    · exact Std.ExtTreeMap.mem_toList_iff_getElem?_eq_some.mpr (h.functionMap_eq hfn)
    · exact decide_eq_true ((hglobals fn).mpr hop)

end Idb.Listed

/-- The first function calls the second one and has the address of a string in an operand; the
second one refers to another string. -/
def Idb.greeting : Idb where
  function_at ea :=
    if 16 ≤ ea ∧ ea < 24 then some ⟨16, 24, some "main"⟩
    else if 32 ≤ ea ∧ ea < 36 then some ⟨32, 36, some "greet"⟩ else none
  insn_at ea :=
    if ea = 16 then some (.four true [⟨some 32, none⟩])
    else if ea = 20 then some (.four false [⟨some 256, none⟩])
    else if ea = 32 then some (.four false []) else none
  fits ea insn h := by
    repeat' split at h
    all_goals cases h
    all_goals subst ea
    all_goals decide
  xrefs_from ea := if ea = 20 then [⟨256, false⟩] else if ea = 32 then [⟨512, false⟩] else []
  cfg _ := none
  functions := [⟨16, 24, some "main"⟩, ⟨32, 36, some "greet"⟩]
  strings := [(256, "usage"), (512, "hello")]

lemma Idb.greeting_listed : Idb.greeting.Listed where
  at_start := by
    intro fn hfn
    rcases List.mem_cons.mp hfn with rfl | hfn
    · rfl
    · obtain rfl := List.mem_singleton.mp hfn
      rfl
  listed := by
    intro ea fn hfn
    simp only [greeting] at hfn ⊢
    split at hfn
    · cases hfn
      simp
    split at hfn
    · cases hfn
      simp
    · cases hfn

/-- The call graph of an index: it has the functions of the database; callees are indexed, and
callers mirror callees, call by call; and what it reaches in `levels` calls is within as many calls
in the graphs of the backend. -/
theorem index_call_graph (idb : Idb) (md5 : String) (revision : U64) (h : idb.Listed) :
    let idx := (idb.build_index md5 revision).1
    (∀ a, a ∈ idx.functions ↔ ∃ fn ∈ idb.functions, fn.start = a) ∧
    (∀ (a : U64) (f : FunctionFacts), idx.functions[a]? = some f →
      ∀ c ∈ f.callees, c ∈ idx.functions) ∧
    (∀ (a : U64) (f : FunctionFacts), idx.functions[a]? = some f →
      ∀ (b : U64) (g : FunctionFacts), idx.functions[b]? = some g →
        g.callers.count a = f.callees.count b) ∧
    (∀ (b : U64) (g : FunctionFacts), idx.functions[b]? = some g →
      ∀ a ∈ g.callers, a ∈ idx.functions) ∧
    ∀ root levels target, reachable idx root levels target = true →
      Within idb.calls [root] levels.val target := by
  have hmem : ∀ a, a ∈ (idb.build_index md5 revision).1.functions ↔
      ∃ fn ∈ idb.functions, fn.start = a := by
    intro a
    rw [Std.ExtTreeMap.mem_iff_isSome_getElem?, Idb.getElem?_build_index, Option.isSome_map,
      ← Std.ExtTreeMap.mem_iff_isSome_getElem?, Idb.mem_functionMap]
  have hcallee : ∀ (a : U64) (f : FunctionFacts),
      (idb.build_index md5 revision).1.functions[a]? = some f → ∀ c ∈ f.callees,
        c ∈ idb.calls a ∧ c ∈ (idb.build_index md5 revision).1.functions := by
    intro a f hf c hc
    obtain ⟨fn, hfn, rfl, rfl⟩ := h.mem_index hf
    obtain ⟨hcalls, ea, tf, htf, hstart⟩ := Idb.mem_calls_of_facts (h.at_start fn hfn) hc
    exact ⟨hcalls, (hmem c).mpr ⟨tf, h.listed ea tf htf, hstart⟩⟩
  refine ⟨hmem, fun a f hf c hc => (hcallee a f hf c hc).2, ?_, ?_, ?_⟩
  · intro a f hf b g hg
    obtain ⟨fn, hfn, rfl, rfl⟩ := h.mem_index hf
    obtain ⟨_, -, -, rfl⟩ := h.mem_index hg
    have hcount := Idb.count_callers (h.functionMap_eq hfn) (b := b)
    exact hcount
  · intro b g hg a ha
    obtain ⟨_, -, -, hg⟩ := h.mem_index hg
    rw [hg] at ha
    obtain ⟨e, he, rfl⟩ := List.mem_map.mp ha
    obtain ⟨p, hp, hedge⟩ := List.mem_flatMap.mp (List.mem_filter.mp he).1
    obtain ⟨c, -, rfl⟩ := List.mem_map.mp hedge
    obtain ⟨fn, hfn, hstart, -⟩ :=
      Idb.exists_of_functionMap (Std.ExtTreeMap.mem_toList_iff_getElem?_eq_some.mp hp)
    exact (hmem _).mpr ⟨fn, hfn, hstart⟩
  · intro root levels target hreach
    obtain ⟨k, -, hk, hsteps⟩ := reachable_iff.mp hreach
    refine ⟨root, by simp, k, hk, ?_⟩
    clear hk hreach
    induction hsteps with
    | refl => exact .refl
    | @tail n u w _ hw ih =>
      refine ih.tail ?_
      rw [AnalysisIndex.callees] at hw
      split at hw
      · rename_i f hf
        exact (hcallee u f hf w hw).1
      · cases hw

theorem index_call_graph_greeting :
    let idx := (Idb.greeting.build_index "md5" 7).1
    (∀ a, a ∈ idx.functions ↔ a = 16 ∨ a = 32) ∧
      ∀ levels target, reachable idx 16 levels target = true →
        Within Idb.greeting.calls [16] levels.val target := by
  obtain ⟨hmem, -, -, -, hreach⟩ := index_call_graph Idb.greeting "md5" 7 Idb.greeting_listed
  refine ⟨fun a => (hmem a).trans ?_, hreach 16⟩
  simp [Idb.greeting, eq_comm]

/-- The strings of an index: a function lists, each once, the strings that a reference of one of its
instructions leads to, while a string lists the functions that have its address in an operand.  A
string without such a function is left out. -/
theorem index_strings_exact (idb : Idb) (md5 : String) (revision : U64) (h : idb.Listed) :
    let idx := (idb.build_index md5 revision).1
    (∀ fn ∈ idb.functions, ∃ f, idx.functions[fn.start]? = some f ∧ f.strings.Nodup ∧
      ∀ t, t ∈ f.strings ↔
        ∃ i ∈ idb.heads fn.stop 200000 fn.start, t ∈ idb.headStrings i) ∧
    (∀ s ∈ idx.strings, (s.ea, s.text) ∈ idb.strings ∧ ∀ a, a ∈ s.refs ↔
      ∃ fn ∈ idb.functions, fn.start = a ∧
        ∃ i ∈ idb.heads fn.stop 200000 fn.start, s.ea ∈ Idb.headOperands i) ∧
    ∀ v t, (v, t) ∈ idb.strings → ((∃ s ∈ idx.strings, s.ea = v ∧ s.text = t) ↔
      ∃ fn ∈ idb.functions, ∃ i ∈ idb.heads fn.stop 200000 fn.start,
        v ∈ Idb.headOperands i) := by
  have hstring : ∀ v t, (v, t) ∈ idb.strings → idb.stringAt v ≠ none := by
    intro v t hv hnone
    rw [Idb.stringAt, Option.map_eq_none_iff, List.find?_eq_none] at hnone
    exact hnone (v, t) hv (by simp)
  -- a string of the index is one of the database that is referenced
  have hindexed : ∀ s : IndexedString, s ∈ (idb.build_index md5 revision).1.strings ↔
      (s.ea, s.text) ∈ idb.strings ∧ s.refs = Idb.refsTo idb.functionMap s.ea ∧ s.refs ≠ [] := by
    intro s
    show s ∈ idb.indexedStrings idb.functionMap ↔ _
    rw [Idb.indexedStrings, List.mem_filterMap]
    constructor
    · rintro ⟨p, hp, hs⟩
      dsimp only at hs
      split at hs
      · cases hs
      · rename_i hrefs
        cases hs
        exact ⟨hp, rfl, hrefs⟩
    · rintro ⟨hp, hrefs, hne⟩
      refine ⟨_, hp, ?_⟩
      dsimp only
      rw [← hrefs, if_neg hne]
  refine ⟨?_, ?_, ?_⟩
  · intro fn hfn
    refine ⟨_, h.getElem?_index hfn, (Idb.facts_adds fn).strings_nodup .nil, fun t => ?_⟩
    exact ((Idb.facts_adds fn).strings t).trans (or_iff_right List.not_mem_nil)
  · intro s hs
    obtain ⟨hp, hrefs, -⟩ := (hindexed s).mp hs
    refine ⟨hp, fun a => ?_⟩
    rw [hrefs, h.mem_refsTo (hstring s.ea s.text hp)]
  · intro v t hv
    have hrefs := fun a => h.mem_refsTo (hstring v t hv) (a := a)
    constructor
    · rintro ⟨s, hs, rfl, rfl⟩
      obtain ⟨-, heq, hne⟩ := (hindexed s).mp hs
      obtain ⟨a, ha⟩ := List.exists_mem_of_ne_nil _ hne
      rw [heq, hrefs] at ha
      obtain ⟨fn, hfn, -, hop⟩ := ha
      exact ⟨fn, hfn, hop⟩
    · rintro ⟨fn, hfn, hop⟩
      refine ⟨⟨v, t, Idb.refsTo idb.functionMap v⟩, (hindexed _).mpr ⟨hv, rfl, ?_⟩, rfl, rfl⟩
      exact List.ne_nil_of_mem ((hrefs fn.start).mpr ⟨fn, hfn, rfl, hop⟩)

/-- The second function lists its string, and the string is not in the index. -/
theorem index_strings_exact_greeting :
    let idx := (Idb.greeting.build_index "md5" 7).1
    (∃ f, idx.functions[(32 : U64)]? = some f ∧ "hello" ∈ f.strings) ∧
      ∀ s ∈ idx.strings, s.ea ≠ 512 := by
  obtain ⟨hfunctions, hstrings, hindexed⟩ :=
    index_strings_exact Idb.greeting "md5" 7 Idb.greeting_listed
  constructor
  · obtain ⟨f, hf, -, hmem⟩ := hfunctions ⟨32, 36, some "greet"⟩ (by simp [Idb.greeting])
    refine ⟨f, hf, (hmem "hello").mpr ⟨(32, .four false []), ?_, by decide⟩⟩
    exact List.mem_cons_self
  · rintro ⟨ea, text, refs⟩ hs rfl
    obtain ⟨hp, -⟩ := hstrings _ hs
    obtain rfl : text = "hello" := by simpa [Idb.greeting] using hp
    obtain ⟨fn, -, ⟨ea, insn⟩, hi, hop⟩ :=
      (hindexed 512 "hello" (by simp [Idb.greeting])).mp ⟨_, hs, rfl, rfl⟩
    -- no instruction has the address in an operand
    have hinsn := Idb.insn_at_of_mem_heads _ hi
    simp only [Idb.greeting] at hinsn
    repeat' split at hinsn
    all_goals cases hinsn
    all_goals simp [Idb.headOperands, Idb.Insn.four] at hop

end ReverseMcp
