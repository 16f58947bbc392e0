import Std.Data.ExtTreeSet
import ReverseMcp.Broker.Regions

/-!
# The cross-region fixpoint

`run_dataflow` hands the facts of each region to its successors, in rounds: a region is visited when
all its predecessors have been.  The map `preds` of the source is filled and never read, and the
closure `_fact_of` is never called; both are left out, and so are the fields of `RegionFacts` that
the pass does not read.  `clock i` is the time that has passed at the check before round `i`.
-/

namespace ReverseMcp

open Rust

inductive Confidence where
  | confirmed
  | heuristic
  | unknown
deriving DecidableEq, Repr

/-- A propagated fact. -/
structure Fact where
  key : String
  value : Option U64
  confidence : Confidence
deriving DecidableEq, Repr

/-- The facts that leave a region through its exit blocks. -/
structure RegionFacts where
  out_facts : List Fact

structure DataflowLimits where
  max_iterations : ℕ := 32
  max_facts_per_region : ℕ := 512
  /-- In nanoseconds. -/
  deadline : ℕ := 30 * 10 ^ 9

structure DataflowResult where
  /-- Facts that reached each region from its predecessors. -/
  in_facts : Std.ExtTreeMap String (List Fact)
  completed : List String
  /-- Regions that have not been completed. -/
  frontier : List String
  iterations : ℕ
  converged : Bool
  stop_reason : String

/-- The variables of the loop. -/
structure Flow where
  in_facts : Std.ExtTreeMap String (List Fact) := ∅
  completed : List String := []
  pending : Std.ExtTreeSet String
  next_ready : List String := []

/-- What is pushed onto `completed` when a region cannot take another fact. -/
def capWarning (len max : ℕ) (succ : String) : String :=
  "WARN: fact cap " ++ toString len ++ "/" ++ toString max ++ " reached at " ++ succ

/-- The facts of a region reach the successor `succ`, whose facts are `entry`. -/
def joinFacts (max : ℕ) (succ : String) :
    List Fact → List Fact → List String → List Fact × List String
  | [], entry, completed => (entry, completed)
  | f :: fs, entry, completed =>
    if f ∈ entry then joinFacts max succ fs entry completed
    else if entry.length < max then joinFacts max succ fs (entry ++ [f]) completed
    else (entry, completed ++ [capWarning entry.length max succ])

/-- `partition.regions.iter().find(..)`. -/
def Partition.region (p : Partition) (id : String) : Option Region :=
  p.regions.find? fun r => r.region_id = id

/-- `all_preds_done`, when the region `rid` is being visited. -/
def Partition.allPredsDone (p : Partition) (completed : List String) (rid succ : String) : Bool :=
  match p.region succ with
  | some r => r.pred_regions.all fun q => q == rid || completed.contains q
  | none => false

namespace Flow

variable (p : Partition) (limits : DataflowLimits)

/-- The facts of the region `rid` reach one of its successors. -/
def reach (rid : String) (out_facts : List Fact) (st : Flow) (succ : String) : Flow :=
  let (entry, completed) :=
    joinFacts limits.max_facts_per_region succ out_facts (st.in_facts[succ]?.getD []) st.completed
  let in_facts := st.in_facts.insert succ entry
  if p.allPredsDone completed rid succ && st.pending.contains succ then
    { in_facts, completed, pending := st.pending.erase succ, next_ready := st.next_ready ++ [succ] }
  else { st with in_facts, completed }

/-- A ready region is visited. -/
def visit (region_facts : Std.ExtTreeMap String RegionFacts) (st : Flow) (rid : String) : Flow :=
  let st := { st with completed := st.completed ++ [rid] }
  match region_facts[rid]? with
  | none => st
  | some rf =>
    let succs := ((p.region rid).map Region.succ_regions).getD []
    succs.foldl (reach p limits rid rf.out_facts) st

end Flow

/-- The regions that have no predecessors start ready. -/
def Partition.ready (p : Partition) : List String :=
  (p.regions.filter fun r => r.pred_regions.isEmpty).map Region.region_id

/-- The other regions start pending. -/
def Flow.start (p : Partition) : Flow where
  pending := Std.ExtTreeSet.ofList
    ((p.regions.filter fun r => !r.pred_regions.isEmpty).map Region.region_id)

/-- How the loop ended. -/
structure Stopped where
  flow : Flow
  ready : List String
  iterations : ℕ
  stop : String

/-- The loop, with `left` iterations left of the work budget. -/
def rounds (p : Partition) (region_facts : Std.ExtTreeMap String RegionFacts)
    (limits : DataflowLimits) (clock : ℕ → ℕ) : ℕ → ℕ → List String → Flow → Stopped
  | left, iterations, ready, st =>
    if ready.isEmpty then ⟨st, ready, iterations, ""⟩
    else
      match left with
      | 0 => ⟨st, ready, iterations, "work budget (" ++ toString limits.max_iterations ++ ")"⟩
      | left + 1 =>
        if limits.deadline ≤ clock iterations then ⟨st, ready, iterations, "deadline"⟩
        else
          let st := ready.foldl (Flow.visit p limits region_facts) { st with next_ready := [] }
          rounds p region_facts limits clock left (iterations + 1) st.next_ready st

/-- The bounded fixpoint over a partition. -/
def run_dataflow (p : Partition) (region_facts : Std.ExtTreeMap String RegionFacts)
    (limits : DataflowLimits) (clock : ℕ → ℕ) : DataflowResult :=
  let ids := p.regions.map Region.region_id
  let s := rounds p region_facts limits clock limits.max_iterations 0 p.ready (.start p)
  let settled := s.ready.isEmpty && s.stop.isEmpty
  let converged := settled && s.flow.pending.isEmpty
  { in_facts := s.flow.in_facts
    completed := s.flow.completed
    frontier := ids.filter fun id => !s.flow.completed.contains id
    iterations := s.iterations
    converged
    stop_reason :=
      if converged then "converged"
      else if settled then "frontier settled: " ++ toString s.flow.pending.size ++
        " region(s) with unsatisfied preds"
      else s.stop }

end ReverseMcp
