import ReverseMcp.Core.Installs

/-!
# The order of discovery

`discover_all` goes through its sources by priority and keeps the first valid candidate of each
installation root.  So every root is listed once and belongs to the first source that comes up with
it.

The documented order is by source, and by version only within a source.  The sort at the end looks
at versions alone, so the order is the documented one exactly when no source comes up with a version
above one of an earlier source (`discovery_order_iff`).
-/

namespace ReverseMcp

open Rust

/-- The place of a source in the documented order. -/
def DiscoverySource.priority : DiscoverySource → ℕ
  | explicit => 0
  | envVar => 1
  | config => 2
  | osNative => 3
  | commonPaths => 4
  | regHint => 5
  | driveScan => 6

lemma DiscoverySource.priority_injective : Function.Injective DiscoverySource.priority := by
  intro s t h
  cases s <;> cases t <;> first | rfl | cases h

/-- A candidate of a source. -/
structure Candidate where
  root : PathBuf
  source : DiscoverySource
  hint : Option String

namespace Machine

section
variable (m : Machine)

/-- What the sources come up with, in the order in which they are asked. -/
def sources : List (DiscoverySource × List (PathBuf × Option String)) :=
  [(.envVar, (m.idadir.toList.flatMap fun root => root :: root.ancestors.take 2).map (·, none)),
    (.config, m.ida_config_dirs.map (·, none)),
    (.osNative, m.os_native_candidates),
    (.commonPaths, m.common_paths.map (·, none)),
    (.regHint, m.reg_hint_candidates.map (·, none)),
    (.driveScan, m.cached_drive_scan.toList.map (·, none))]

/-- All candidates in the order in which they are pushed. -/
def candidates : List Candidate :=
  m.sources.flatMap fun s => s.2.map fun c => { root := c.1, source := s.1, hint := c.2 }

variable [Host]

/-- The installation at a valid candidate. -/
def install? (c : Candidate) : Option IdaInstallation :=
  match m.validate c.root c.source c.hint with
  | .ok i => some i
  | _ => none

/-- The candidate is an installation. -/
def Valid (c : Candidate) : Prop := (m.install? c).isSome = true

/-- The version that is detected at a candidate. -/
def version (c : Candidate) : Version :=
  (m.detect_version c.root c.hint).getD { major := 0, minor := 0, build := 0 }

/-- The first valid candidate at its root. -/
def First (c : Candidate) : Prop :=
  FirstAccepted (fun c : Candidate => m.canonical c.root) m.Valid m.candidates c

/-- The installations are listed as documented: each root once, with the first source that comes up
with it, by source, and within a source with the highest version first. -/
structure Lists (out : List IdaInstallation) : Prop where
  once : (out.map fun i => m.canonical i.root).Nodup
  complete : ∀ c ∈ m.candidates, m.Valid c → ∃ i ∈ out, m.canonical i.root = m.canonical c.root
  listed : ∀ i ∈ out, ∃ c ∈ m.candidates, m.install? c = some i
  attributed : ∀ i ∈ out, ∀ c ∈ m.candidates, m.Valid c →
    m.canonical c.root = m.canonical i.root → i.source.priority ≤ c.source.priority
  ordered : out.Pairwise fun i j =>
    i.source.priority < j.source.priority ∨ i.source = j.source ∧ j.version ≤ i.version

/-- Of the first valid candidates at two roots, the one of the later source has no higher
version. -/
def Aligned : Prop :=
  ∀ c d, m.First c → m.First d → c.source.priority < d.source.priority → m.version d ≤ m.version c

end

variable [Host] {m : Machine} {c : Candidate} {i : IdaInstallation}

/-! ## One candidate -/

lemma install?_eq_some (h : m.install? c = some i) :
    i.root = c.root ∧ i.source = c.source ∧ i.version = m.version c := by
  rw [install?] at h
  split at h
  · rename_i j hvalid
    cases h
    obtain ⟨hroot, hsource, -, hversion⟩ := validate_eq_ok hvalid
    exact ⟨hroot, hsource, hversion⟩
  · cases h

/-- What is kept after some candidates: their installations and their roots. -/
structure Collects (m : Machine) (cs kept : List Candidate) (d : Discovered) : Prop where
  merged : Merged (fun c : Candidate => m.canonical c.root) m.Valid cs kept
  out_eq : d.out = kept.filterMap m.install?
  seen_eq : d.seen = kept.map fun c => m.canonical c.root

/-- One push keeps the candidate or passes over it. -/
lemma Collects.push {cs kept : List Candidate} {d : Discovered} (h : Collects m cs kept d)
    (c : Candidate) :
    ∃ kept', Collects m (cs ++ [c]) kept' (m.push c.source d c.root c.hint) := by
  rw [Machine.push]
  split
  · rename_i hseen
    rw [h.seen_eq, List.contains_iff_mem] at hseen
    exact ⟨kept, h.merged.skip fun _ => hseen, h.out_eq, h.seen_eq⟩
  · rename_i hseen
    rw [h.seen_eq, List.contains_iff_mem] at hseen
    cases hvalid : m.validate c.root c.source c.hint with
    | ok i =>
      have hinstall : m.install? c = some i := by rw [install?, hvalid]
      have hok : m.Valid c := by rw [Valid, hinstall, Option.isSome_some]
      refine ⟨kept ++ [c], h.merged.keep hok hseen, ?_, ?_⟩
      · simp [h.out_eq, hinstall]
      · simp [h.seen_eq]
    | _ =>
      have hno : ¬m.Valid c := by simp [Valid, install?, hvalid]
      exact ⟨kept, h.merged.skip fun hok => absurd hok hno, h.out_eq, h.seen_eq⟩

/-! ## All candidates -/

lemma exists_collects (m : Machine) (cs : List Candidate) :
    ∃ kept, Collects m cs kept
      (cs.foldl (fun d c => m.push c.source d c.root c.hint) { out := [], seen := [] }) := by
  induction cs using List.reverseRecOn with
  | nil => exact ⟨[], .nil, rfl, rfl⟩
  | append_singleton cs c ih =>
    obtain ⟨kept, h⟩ := ih
    rw [List.foldl_append, List.foldl_cons, List.foldl_nil]
    exact h.push c

/-- The loops of `discover_all` are one loop over all candidates. -/
lemma discover_all_none (m : Machine) :
    m.discover_all none = sortByKey (fun i => Reverse.mk i.version)
      (m.candidates.foldl (fun d c => m.push c.source d c.root c.hint)
        { out := [], seen := [] }).out := by
  have hscan (d : Discovered) : m.cached_drive_scan.elim d (fun root => m.push .driveScan d root
      none) = m.cached_drive_scan.toList.foldl (fun d root => m.push .driveScan d root none) d := by
    cases m.cached_drive_scan <;> rfl
  rw [discover_all]
  simp only [Option.elim_none, Option.isSome_none, Bool.false_and, Bool.false_eq_true, if_false,
    hscan, candidates, sources, List.flatMap_cons, List.flatMap_nil, List.append_nil,
    List.foldl_append, List.foldl_map]

omit [Host] in
lemma candidates_pairwise (m : Machine) :
    m.candidates.Pairwise fun c d => c.source.priority ≤ d.source.priority := by
  rw [candidates, List.pairwise_flatMap]
  constructor
  · intro s _
    exact List.pairwise_map.mpr (List.pairwise_of_forall fun _ _ => le_rfl)
  · have hsources : m.sources.Pairwise fun s t => s.1.priority ≤ t.1.priority := by
      simp [sources, DiscoverySource.priority]
    refine hsources.imp fun {s t} hle c hc d hd => ?_
    obtain ⟨-, -, rfl⟩ := List.mem_map.mp hc
    obtain ⟨-, -, rfl⟩ := List.mem_map.mp hd
    exact hle

/-- A candidate is not before the first one at its root. -/
lemma First.priority_le (h : m.First c) {d : Candidate} (hd : d ∈ m.candidates) (hvalid : m.Valid d)
    (hroot : m.canonical d.root = m.canonical c.root) :
    c.source.priority ≤ d.source.priority := by
  obtain ⟨-, front, back, hsplit, hfirst⟩ := h
  have hpairwise := m.candidates_pairwise
  rw [hsplit] at hd hpairwise
  rcases List.mem_append.mp hd with hd | hd
  · exact absurd hroot (hfirst d hd hvalid)
  · rcases List.mem_cons.mp hd with rfl | hd
    · exact le_rfl
    · exact (List.pairwise_cons.mp (List.pairwise_append.mp hpairwise).2.1).1 d hd

/-! ## The list -/

section
variable {kept : List Candidate} {d : Discovered}

lemma Collects.mem_out (h : Collects m m.candidates kept d) :
    i ∈ d.out ↔ ∃ c, m.First c ∧ m.install? c = some i := by
  rw [h.out_eq, List.mem_filterMap]
  simp only [h.merged.mem_iff]
  rfl

lemma Collects.roots (h : Collects m m.candidates kept d) :
    (d.out.map fun i => m.canonical i.root) = kept.map fun c => m.canonical c.root := by
  have hvalid : ∀ c ∈ kept, (m.install? c).map (fun i => m.canonical i.root) =
      some (m.canonical c.root) := by
    intro c hc
    obtain ⟨i, hi⟩ := Option.isSome_iff_exists.mp ((h.merged.mem_iff c).mp hc).1
    rw [hi, Option.map_some, (install?_eq_some hi).1]
  rw [h.out_eq, List.map_filterMap, List.filterMap_congr hvalid, List.filterMap_eq_map']

lemma Collects.pairwise (h : Collects m m.candidates kept d) :
    d.out.Pairwise fun i j => i.source.priority ≤ j.source.priority := by
  rw [h.out_eq, List.pairwise_filterMap]
  refine (m.candidates_pairwise.sublist h.merged.sublist).imp fun {c c'} hle i hi j hj => ?_
  rwa [(install?_eq_some hi).2.1, (install?_eq_some hj).2.1]

/-- Whatever the order, each root is listed once, with the first source that comes up with it. -/
lemma Collects.lists (h : Collects m m.candidates kept d) {out : List IdaInstallation}
    (hperm : out.Perm d.out) (hordered : out.Pairwise fun i j =>
      i.source.priority < j.source.priority ∨ i.source = j.source ∧ j.version ≤ i.version) :
    m.Lists out := by
  refine ⟨?_, fun c hc hvalid => ?_, fun i hi => ?_, fun i hi c hc hvalid hroot => ?_, hordered⟩
  · rw [(hperm.map _).nodup_iff, h.roots]
    exact h.merged.nodup
  · have hmem := h.merged.covers hc hvalid
    rw [← h.roots] at hmem
    obtain ⟨i, hi, hroot⟩ := List.mem_map.mp hmem
    exact ⟨i, hperm.mem_iff.mpr hi, hroot⟩
  · obtain ⟨c, hc, hinstall⟩ := h.mem_out.mp (hperm.mem_iff.mp hi)
    exact ⟨c, hc.mem, hinstall⟩
  · obtain ⟨c', hc', hinstall⟩ := h.mem_out.mp (hperm.mem_iff.mp hi)
    obtain ⟨hroot', hsource, -⟩ := install?_eq_some hinstall
    rw [hsource]
    exact First.priority_le hc' hc hvalid (hroot' ▸ hroot)

/-- The sort leaves the documented order exactly when the candidates are aligned. -/
lemma Collects.ordered_iff (h : Collects m m.candidates kept d) :
    ((sortByKey (fun i => Reverse.mk i.version) d.out).Pairwise fun i j =>
      i.source.priority < j.source.priority ∨ i.source = j.source ∧ j.version ≤ i.version) ↔
    m.Aligned := by
  have hroots : (d.out.map fun i => m.canonical i.root).Nodup := by
    rw [h.roots]
    exact h.merged.nodup
  have hsort := sortByKey_order_iff (fun i : IdaInstallation => Reverse.mk i.version)
    (fun i => i.source.priority) (List.Nodup.of_map _ hroots) h.pairwise
  simp only [isLE_compare_reverse, DiscoverySource.priority_injective.eq_iff] at hsort
  rw [hsort]
  constructor
  · intro hall c c' hc hc' hlt
    obtain ⟨i, hi⟩ := Option.isSome_iff_exists.mp hc.1
    obtain ⟨j, hj⟩ := Option.isSome_iff_exists.mp hc'.1
    obtain ⟨-, hsource, hversion⟩ := install?_eq_some hi
    obtain ⟨-, hsource', hversion'⟩ := install?_eq_some hj
    rw [← hsource, ← hsource'] at hlt
    rw [← hversion, ← hversion']
    exact hall i (h.mem_out.mpr ⟨c, hc, hi⟩) j (h.mem_out.mpr ⟨c', hc', hj⟩) hlt
  · intro haligned i hi j hj hlt
    obtain ⟨c, hc, hinstall⟩ := h.mem_out.mp hi
    obtain ⟨c', hc', hinstall'⟩ := h.mem_out.mp hj
    obtain ⟨-, hsource, hversion⟩ := install?_eq_some hinstall
    obtain ⟨-, hsource', hversion'⟩ := install?_eq_some hinstall'
    rw [hsource, hsource'] at hlt
    rw [hversion, hversion']
    exact haligned c c' hc hc' hlt

end

end Machine

/-- **The order of discovery.**  Without an explicit directory the installations are listed as
documented iff no source comes up with a version above one that an earlier source comes up
with. -/
theorem discovery_order_iff [Host] (m : Machine) :
    m.Lists (m.discover_all none) ↔ m.Aligned := by
  obtain ⟨kept, h⟩ := m.exists_collects m.candidates
  rw [m.discover_all_none, ← h.ordered_iff]
  exact ⟨fun hlists => hlists.ordered, h.lists (sortByKey_perm _ _)⟩

section

/-- A machine with an installation 9.2 that `IDADIR` points at, and 9.4 in a common place. -/
def twoInstalls : Machine where
  os := .linux
  is_file p := p.parts.take 2 == ["opt", "ida-9.2"] || p.parts.take 2 == ["opt", "ida-9.4"]
  canonicalize p := some p
  pe_file_version _ := none
  registry_version_for_dir _ := none
  idadir := some ⟨"/", ["opt", "ida-9.2"]⟩
  ida_config_dirs := []
  os_native_candidates := []
  common_paths := [⟨"/", ["opt", "ida-9.2"]⟩, ⟨"/", ["opt", "ida-9.4"]⟩]
  reg_hint_candidates := []
  cached_drive_scan := none

/-- The installation that `IDADIR` points at comes second. -/
theorem discovery_order_by_version :
    letI : Host := Host.ascii false
    ¬∀ m : Machine, m.Lists (m.discover_all none) := by
  let _ : Host := Host.ascii false
  intro h
  exact absurd (h twoInstalls).ordered (by decide)

end

end ReverseMcp
