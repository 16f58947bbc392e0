import ReverseMcp.Worker.Deep

/-!
# Backends as they are read

The worker's analyses take a `&dyn IdaBackend` and ask it for functions, listings, graphs,
references and bytes.  A `Reader` is what a backend answers in one state; the mock is one, and any
other backend is another.  What comes back is bounded as the requests are: a listing by its
`max_insns`, and a graph by what a vector can hold.
-/

namespace ReverseMcp

open Rust

/-- What a backend answers in one state. -/
structure Reader where
  function_at : U64 → Result FunctionInfo
  disassemble : U64 → Option U64 → ℕ → Result (List InsnInfo)
  graph : U64 → GraphParams → Result Json
  xrefs_to : U64 → Result (List XrefInfo)
  get_bytes : U64 → ℕ → Result Json
  disassemble_length : ∀ {start stop max_insns insns},
    disassemble start stop max_insns = .ok insns → insns.length ≤ max_insns
  graph_edges : ∀ {ea params g}, graph ea params = .ok g → (Deep.items g "edges").length < 2 ^ 64

namespace MockBackend

variable [Host]

lemma disassembleFrom_length {stop : U64} {n : ℕ} {ea : U64} {insns : List InsnInfo}
    (h : disassembleFrom stop n ea = .ok insns) : insns.length ≤ n := by
  induction n generalizing ea insns with
  | zero =>
    cases h
    exact le_rfl
  | succ n ih =>
    rw [disassembleFrom] at h
    split at h
    · obtain ⟨next, -, h⟩ := Outcome.bind_eq_ok.mp h
      obtain ⟨rest, hrest, h⟩ := Outcome.bind_eq_ok.mp h
      cases h
      exact Nat.succ_le_succ (ih hrest)
    · cases h
      exact Nat.zero_le _

lemma disassemble_length {b : MockBackend} {start : U64} {stop : Option U64} {max_insns : ℕ}
    {insns : List InsnInfo} (h : b.disassemble start stop max_insns = .ok insns) :
    insns.length ≤ max_insns := by
  obtain ⟨-, -, h⟩ := Outcome.bind_eq_ok.mp h
  obtain ⟨default_end, -, h⟩ := Outcome.bind_eq_ok.mp h
  exact disassembleFrom_length h

omit [Host] in
lemma xrefs_from_length {b : MockBackend} {ea : U64} {xs : List XrefInfo}
    (h : b.xrefs_from ea = .ok xs) : xs.length ≤ 2 := by
  obtain ⟨-, -, h⟩ := Outcome.bind_eq_ok.mp h
  split at h
  all_goals
    cases h
    simp

lemma graph_edges_length {b : MockBackend} {ea : U64} {params : GraphParams} {g : Json}
    (h : b.graph ea params = .ok g) : (Deep.items g "edges").length ≤ 2 := by
  obtain ⟨-, -, h⟩ := Outcome.bind_eq_ok.mp h
  obtain ⟨f, -, h⟩ := Outcome.bind_eq_ok.mp h
  obtain ⟨callees, hcallees, h⟩ := Outcome.bind_eq_ok.mp h
  cases h
  have hlength : callees.length ≤ 2 := by
    split at hcallees
    · obtain ⟨xs, hxs, hcallees⟩ := Outcome.bind_eq_ok.mp hcallees
      obtain ⟨found, hfound, hcallees⟩ := Outcome.bind_eq_ok.mp hcallees
      cases hcallees
      calc (found.filterMap id).length ≤ found.length := List.length_filterMap_le _ _
        _ = xs.length := Outcome.mapList_length hfound
        _ ≤ 2 := xrefs_from_length hxs
    · cases hcallees
      exact Nat.zero_le _
  simpa [Deep.items, Json.idx, Json.get, Json.asArray] using hlength

/-- The mock as it is read. -/
def reader (b : MockBackend) : Reader where
  function_at := b.function_at
  disassemble := b.disassemble
  graph := b.graph
  xrefs_to := b.xrefs_to
  get_bytes := b.get_bytes
  disassemble_length := disassemble_length
  graph_edges h := lt_of_le_of_lt (graph_edges_length h) (by decide)

end MockBackend

end ReverseMcp
