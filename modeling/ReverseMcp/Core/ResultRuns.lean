import ReverseMcp.Rust.Collections
import ReverseMcp.Core.ResultStore

/-!
# The result store over whole runs

What the store is for is said by a ledger: every spilled payload with its handle and the time it
was stored, and whether it has been released or evicted since.  The ledger never forgets an entry
by itself; `Record.Live` is the entry's age against the time to live.  The store forgets expired
entries in `get` and in `sweep`, at moments of its own, and `result_store_refines` says that no
answer shows it: along every run the answers are the ones the ledger gives.

Handles are numbers of the process-wide counter, which wraps, so this holds for as long as no more
than 2^64 handles have been allocated.
-/

namespace ReverseMcp

open Rust

/-- A payload that was stored. -/
structure Record where
  handle : String
  payload : Json
  created : ℕ
  /-- It has been released or evicted. -/
  dropped : Bool

/-- The record is neither dropped nor older than the time to live. -/
def Record.Live (r : Record) (now ttl : ℕ) : Prop := r.dropped = false ∧ now - r.created < ttl

/-- The record, dropped if its handle is one of `handles`. -/
def Record.drop (handles : List String) (r : Record) : Record :=
  { r with dropped := r.dropped || decide (r.handle ∈ handles) }

/-- The ledger: all records of a run, in the order of the calls. -/
abbrev Ledger : Type := List Record

/-- What an event at time `now` adds to the ledger. -/
def Ledger.note (l : Ledger) (now : ℕ) : StoreEvent → Ledger
  | .put _ payload _ (handle, _, true) => l ++ [⟨handle, payload, now, false⟩]
  | .release handle (.ok ()) => l.map (Record.drop [handle])
  | .enforceCap _ evicted => l.map (Record.drop evicted)
  | _ => l

/-- The ledger of a run. -/
def Ledger.along (l : Ledger) (s : StoreSystem) : List (StoreEvent × StoreSystem) → Ledger
  | [] => l
  | (e, s') :: tr => (l.note s.now e).along s' tr

/-- The number of handles that an event allocates. -/
def StoreEvent.allocations : StoreEvent → ℕ
  | .put _ _ _ (_, _, true) => 1
  | .allocate => 1
  | _ => 0

/-- The number of handles that a run allocates. -/
def allocations (tr : List (StoreEvent × StoreSystem)) : ℕ :=
  (tr.map fun p => p.1.allocations).sum

/-- The handles that the puts of a run have returned. -/
def handlesOf (tr : List (StoreEvent × StoreSystem)) : List String :=
  tr.filterMap fun p =>
    match p.1 with
    | .put _ _ _ (handle, _, true) => some handle
    | _ => none

/-! ## What an event promises -/

/-- The answer of `get`, read off the ledger. -/
structure GetAnswer (l : Ledger) (s : StoreSystem) (handle : String) (answer : Result Json) :
    Prop where
  payload : ∀ v, answer = .ok v ↔
    ∃ r ∈ l, r.handle = handle ∧ r.payload = v ∧ r.Live s.now s.store.ttl
  unknown : (∀ v, answer ≠ .ok v) → answer = .err (.unknownResult handle)

/-- The hits of `find`, read off the ledger. -/
structure FindAnswer [Host] (l : Ledger) (s : StoreSystem) (needle : String) (hits : List String) :
    Prop where
  sound : ∀ handle ∈ hits, ∃ r ∈ l, r.handle = handle ∧ r.Live s.now s.store.ttl ∧
    Rust.contains (String.ofList r.payload.compact) needle
  complete : hits.length < 20 → ∀ r ∈ l, r.Live s.now s.store.ttl →
    Rust.contains (String.ofList r.payload.compact) needle → r.handle ∈ hits

/-- Exactly the handles of `removed`, each of them once, are missing behind the step. -/
structure Removes (s : StoreSystem) (removed : List String) (s' : StoreSystem) : Prop where
  nodup : removed.Nodup
  mem : ∀ handle ∈ removed, handle ∈ s.store.entries
  entries : ∀ handle, s'.store.entries[handle]? =
    if handle ∈ removed then none else s.store.entries[handle]?

/-- `sweep` removes exactly the expired entries. -/
structure SweepLeaves (s : StoreSystem) (removed : List String) (s' : StoreSystem) : Prop
    extends Removes s removed s' where
  expired : ∀ handle entry, s.store.entries[handle]? = some entry →
    (handle ∈ removed ↔ entry.expired s.now)

/-- `enforce_cap` leaves the youngest `max` entries, and nothing to remove for a second call. -/
structure CapLeaves [Host] (s : StoreSystem) (max : ℕ) (evicted : List String) (s' : StoreSystem) :
    Prop extends Removes s evicted s' where
  size : s'.store.entries.size = min s.store.entries.size max
  oldest : ∀ out ∈ evicted, ∀ gone, s.store.entries[out]? = some gone →
    ∀ (handle : String) (kept : Entry), s'.store.entries[handle]? = some kept →
    gone.created ≤ kept.created
  idempotent : ∀ again s'', StoreStep s' (.enforceCap max again) s'' → again = [] ∧ s'' = s'

/-- What the answer of an event and the store behind it have to be. -/
def Answers [Host] (l : Ledger) (s : StoreSystem) (e : StoreEvent) (s' : StoreSystem) : Prop :=
  match e with
  | .get handle answer => GetAnswer l s handle answer
  | .metadata handle answer =>
    (∃ v, answer = .ok v) ↔ ∃ r ∈ l, r.handle = handle ∧ r.Live s.now s.store.ttl
  | .find needle hits => FindAnswer l s needle hits
  | .sweep removed => SweepLeaves s removed s'
  | .enforceCap max evicted => CapLeaves s max evicted s'
  | _ => True

/-! ## The simulation -/

lemma Record.drop_of_not_mem {r : Record} {handles : List String} (h : r.handle ∉ handles) :
    r.drop handles = r := by
  simp [drop, h]

lemma Record.live_drop {r : Record} {handles : List String} {now ttl : ℕ} :
    (r.drop handles).Live now ttl ↔ r.Live now ttl ∧ r.handle ∉ handles := by
  simp only [Live, drop, Bool.or_eq_false_iff, decide_eq_false_iff_not]
  constructor
  · rintro ⟨⟨hd, hm⟩, ha⟩
    exact ⟨⟨hd, ha⟩, hm⟩
  · rintro ⟨⟨hd, ha⟩, hm⟩
    exact ⟨⟨hd, hm⟩, ha⟩

/-- The record that an entry of the store stands for. -/
def Entry.record (handle : String) (e : Entry) : Record := ⟨handle, e.payload, e.created, false⟩

/-- The store against the ledger, when `n` handles have been allocated. -/
structure Simulates (l : Ledger) (n : ℕ) (s : StoreSystem) : Prop where
  counter : s.next_id = asU64 (1 + n)
  handles : ∀ r ∈ l, ∃ i < n, r.handle = (Handle.mk "r" (asU64 (1 + i))).text
  nodup : (l.map Record.handle).Nodup
  ttl : ∀ (handle : String) (e : Entry), s.store.entries[handle]? = some e → e.ttl = s.store.ttl
  sound : ∀ (handle : String) (e : Entry), s.store.entries[handle]? = some e → e.record handle ∈ l
  complete : ∀ r ∈ l, r.Live s.now s.store.ttl → r.handle ∈ s.store.entries

namespace Simulates

variable {l : Ledger} {n : ℕ} {s s' : StoreSystem}

/-- A fresh process simulates the empty ledger. -/
lemma new (ttl : ℕ) : Simulates [] 0 (StoreSystem.new ttl) where
  counter := rfl
  handles := by simp
  nodup := by simp
  ttl := by simp [StoreSystem.new, ResultStore.new]
  sound := by simp [StoreSystem.new, ResultStore.new]
  complete := by simp

/-- A handle has one record. -/
lemma eq_of_handle (h : Simulates l n s) {r r' : Record} (hr : r ∈ l) (hr' : r' ∈ l)
    (heq : r.handle = r'.handle) : r = r' :=
  List.inj_on_of_nodup_map h.nodup hr hr' heq

/-- A live record of a handle is an entry of the store that has not expired. -/
lemma live_iff (h : Simulates l n s) (handle : String) {P : Record → Prop} :
    (∃ r ∈ l, r.handle = handle ∧ P r ∧ r.Live s.now s.store.ttl) ↔
      ∃ e : Entry, s.store.entries[handle]? = some e ∧ e.expired s.now = false ∧
        P (e.record handle) := by
  constructor
  · rintro ⟨r, hr, rfl, hP, hlive⟩
    obtain ⟨e, he⟩ := Option.isSome_iff_exists.mp
      (Std.ExtTreeMap.mem_iff_isSome_getElem?.mp (h.complete r hr hlive))
    have hrec : r = e.record r.handle := h.eq_of_handle hr (h.sound _ _ he) rfl
    refine ⟨e, he, ?_, hrec ▸ hP⟩
    have hcreated : r.created = e.created := congrArg Record.created hrec
    have hage := hlive.2
    rw [hcreated, ← h.ttl _ _ he] at hage
    simp only [Entry.expired, decide_eq_false_iff_not]
    omega
  · rintro ⟨e, he, hexp, hP⟩
    refine ⟨e.record handle, h.sound _ _ he, rfl, hP, rfl, ?_⟩
    simp only [Entry.expired, decide_eq_false_iff_not] at hexp
    rw [← h.ttl _ _ he]
    exact not_le.mp hexp

/-- Entries may leave the store when the ledger drops them or they have expired; the clock may
move on. -/
lemma shrink (h : Simulates l n s) (removed dropped : List String)
    (hid : s'.next_id = s.next_id) (httl : s'.store.ttl = s.store.ttl) (hnow : s.now ≤ s'.now)
    (hentries : ∀ handle, s'.store.entries[handle]? =
      if handle ∈ removed then none else s.store.entries[handle]?)
    (hsub : ∀ handle ∈ dropped, handle ∈ removed)
    (hexp : ∀ handle ∈ removed, handle ∉ dropped → ∀ e : Entry,
      s.store.entries[handle]? = some e → e.expired s.now) :
    Simulates (l.map (Record.drop dropped)) n s' := by
  have hkeep : ∀ (handle : String) (e : Entry), s'.store.entries[handle]? = some e →
      handle ∉ removed ∧ s.store.entries[handle]? = some e := by
    intro handle e he
    rw [hentries] at he
    split at he
    · cases he
    · rename_i hnot
      exact ⟨hnot, he⟩
  refine ⟨hid.trans h.counter, ?_, ?_, ?_, ?_, ?_⟩
  · intro r hr
    obtain ⟨r₀, hr₀, rfl⟩ := List.mem_map.mp hr
    exact h.handles r₀ hr₀
  · rw [List.map_map]
    exact h.nodup
  · intro handle e he
    rw [httl]
    exact h.ttl _ _ (hkeep handle e he).2
  · intro handle e he
    obtain ⟨hnot, he⟩ := hkeep handle e he
    refine List.mem_map.mpr ⟨e.record handle, h.sound _ _ he, Record.drop_of_not_mem ?_⟩
    exact fun hd => hnot (hsub _ hd)
  · intro r' hr' hlive
    obtain ⟨r, hr, rfl⟩ := List.mem_map.mp hr'
    obtain ⟨⟨hd, hage⟩, hnd⟩ := Record.live_drop.mp hlive
    -- the record was live before, so the store had it
    have hbefore : r.Live s.now s.store.ttl := ⟨hd, by omega⟩
    obtain ⟨e, he, hfresh, -⟩ := (h.live_iff _ (P := fun _ => True)).mp
      ⟨r, hr, rfl, trivial, hbefore⟩
    have hnot : r.handle ∉ removed := by
      intro hrem
      rw [hexp _ hrem hnd e he] at hfresh
      cases hfresh
    refine Std.ExtTreeMap.mem_iff_isSome_getElem?.mpr ?_
    show (s'.store.entries[r.handle]?).isSome
    rw [hentries, if_neg hnot, he]
    rfl

/-- Expired entries may leave the store with nothing said in the ledger. -/
lemma forget (h : Simulates l n s) (removed : List String)
    (hid : s'.next_id = s.next_id) (httl : s'.store.ttl = s.store.ttl) (hnow : s.now ≤ s'.now)
    (hentries : ∀ handle, s'.store.entries[handle]? =
      if handle ∈ removed then none else s.store.entries[handle]?)
    (hexp : ∀ handle ∈ removed, ∀ e : Entry, s.store.entries[handle]? = some e →
      e.expired s.now) : Simulates l n s' := by
  have hshrink := h.shrink removed [] hid httl hnow hentries (by simp)
    (fun k hk _ => hexp k hk)
  have hsame : l.map (Record.drop []) = l :=
    List.map_id'' (fun r => Record.drop_of_not_mem List.not_mem_nil) l
  rwa [hsame] at hshrink

/-- A put takes the next number of the counter, which no record has while fewer than 2^64 have been
allocated. -/
lemma put (h : Simulates l n s) (hn : n < 2 ^ 64) (entry : Entry) (hcreated : entry.created = s.now)
    (httl : entry.ttl = s.store.ttl) {store : ResultStore} (hstore : store = { s.store with
      entries := s.store.entries.insert (Handle.mk "r" s.next_id).text entry }) :
    Simulates (l ++ [⟨(Handle.mk "r" s.next_id).text, entry.payload, s.now, false⟩]) (n + 1)
      { s with store, next_id := s.next_id + 1 } := by
  subst hstore
  have hfresh : ∀ r ∈ l, r.handle ≠ (Handle.mk "r" s.next_id).text := by
    intro r hr heq
    obtain ⟨i, hi, hhandle⟩ := h.handles r hr
    -- two handles with the same text have the same number, and those in use are below the counter
    have hval := congrArg Fin.val (Handle.text_inj (hhandle.symm.trans heq))
    rw [h.counter] at hval
    simp only [asU64, Fin.val_ofNat] at hval
    omega
  have hget : ∀ (handle : String) (e : Entry),
      (s.store.entries.insert (Handle.mk "r" s.next_id).text entry)[handle]? = some e →
      (handle = (Handle.mk "r" s.next_id).text ∧ e = entry) ∨
        s.store.entries[handle]? = some e := by
    intro handle e he
    rw [Std.ExtTreeMap.getElem?_insert] at he
    split at he
    · rename_i hcmp
      exact .inl ⟨(Std.LawfulEqCmp.eq_of_compare hcmp).symm, (Option.some.inj he).symm⟩
    · exact .inr he
  refine ⟨?_, ?_, ?_, ?_, ?_, ?_⟩
  · show s.next_id + 1 = _
    rw [h.counter, asU64_add_one]
  · intro r hr
    rcases List.mem_append.mp hr with hr | hr
    · obtain ⟨i, hi, hhandle⟩ := h.handles r hr
      exact ⟨i, by omega, hhandle⟩
    · rw [List.mem_singleton.mp hr]
      exact ⟨n, by omega, by rw [h.counter]⟩
  · rw [List.map_append, List.nodup_append]
    refine ⟨h.nodup, by simp, ?_⟩
    intro a ha b hb
    obtain ⟨r, hr, rfl⟩ := List.mem_map.mp ha
    simp only [List.map_cons, List.map_nil, List.mem_singleton] at hb
    exact hb ▸ hfresh r hr
  · intro handle e he
    obtain ⟨-, rfl⟩ | he := hget handle e he
    · exact httl
    · exact h.ttl handle e he
  · intro handle e he
    obtain ⟨rfl, rfl⟩ | he := hget handle e he
    · refine List.mem_append.mpr (.inr (List.mem_singleton.mpr ?_))
      rw [Entry.record, hcreated]
    · exact List.mem_append.mpr (.inl (h.sound handle e he))
  · intro r hr hlive
    refine Std.ExtTreeMap.mem_insert.mpr ?_
    rcases List.mem_append.mp hr with hr | hr
    · exact .inr (h.complete r hr hlive)
    · rw [List.mem_singleton.mp hr]
      exact .inl Std.ReflCmp.compare_self

/-- Another part of the process takes a number. -/
lemma allocate (h : Simulates l n s) : Simulates l (n + 1) { s with next_id := s.next_id + 1 } where
  counter := by
    show s.next_id + 1 = _
    rw [h.counter, asU64_add_one]
  handles := fun r hr => by
    obtain ⟨i, hi, hhandle⟩ := h.handles r hr
    exact ⟨i, by omega, hhandle⟩
  nodup := h.nodup
  ttl := h.ttl
  sound := h.sound
  complete := h.complete

end Simulates

/-! ## What is removed -/

section Iteration

variable {s : StoreSystem} {iter : List (String × Entry)}

/-- The iteration visits every handle once. -/
lemma iter_nodup (h : iter.Perm s.store.entries.toList) : (iter.map Prod.fst).Nodup := by
  rw [(h.map Prod.fst).nodup_iff, Std.ExtTreeMap.map_fst_toList_eq_keys]
  exact Std.ExtTreeMap.nodup_keys

/-- The iteration visits exactly the entries. -/
lemma mem_iter (h : iter.Perm s.store.entries.toList) {handle : String} {e : Entry} :
    (handle, e) ∈ iter ↔ s.store.entries[handle]? = some e := by
  rw [h.mem_iff]
  exact Std.ExtTreeMap.mem_toList_iff_getElem?_eq_some

lemma length_iter (h : iter.Perm s.store.entries.toList) :
    iter.length = s.store.entries.size := by
  rw [h.length_eq, Std.ExtTreeMap.length_toList]

/-- Removing handles that the iteration visited. -/
lemma removeAll_removes (h : iter.Perm s.store.entries.toList) {handles : List String}
    (hnodup : handles.Nodup) (hmem : ∀ handle ∈ handles, handle ∈ iter.map Prod.fst) :
    Removes s handles { s with store := s.store.removeAll handles } where
  nodup := hnodup
  mem := by
    intro handle hh
    obtain ⟨⟨k, e⟩, he, rfl⟩ := List.mem_map.mp (hmem handle hh)
    exact Std.ExtTreeMap.mem_iff_isSome_getElem?.mpr (by rw [(mem_iter h).mp he]; rfl)
  entries := fun handle => getElem?_foldl_erase handles s.store.entries handle

/-- `sweep` collects exactly the expired entries. -/
lemma sweep_leaves (h : iter.Perm s.store.entries.toList) :
    SweepLeaves s (ResultStore.expiredHandles iter s.now)
      { s with store := s.store.removeAll (ResultStore.expiredHandles iter s.now) } where
  toRemoves := by
    have hsub : (ResultStore.expiredHandles iter s.now).Sublist (iter.map Prod.fst) :=
      List.Sublist.map Prod.fst List.filter_sublist
    exact removeAll_removes h (hsub.nodup (iter_nodup h)) fun handle hh => hsub.subset hh
  expired := by
    intro handle entry hentry
    rw [ResultStore.expiredHandles]
    constructor
    · intro hmem
      obtain ⟨⟨k, e⟩, he, rfl⟩ := List.mem_map.mp hmem
      obtain ⟨he, hexp⟩ := List.mem_filter.mp he
      have : some e = some entry := ((mem_iter h).mp he).symm.trans hentry
      cases this
      exact hexp
    · intro hexp
      exact List.mem_map.mpr ⟨(handle, entry),
        List.mem_filter.mpr ⟨(mem_iter h).mpr hentry, hexp⟩, rfl⟩

lemma evict_of_le {max : ℕ} (h : iter.length ≤ max) : ResultStore.evict iter max = [] := if_pos h

/-- The handles by age: a permutation of the iteration, oldest first. -/
lemma byAge_perm (iter : List (String × Entry)) :
    (sortByKey Prod.snd (iter.map fun e => (e.1, e.2.created))).Perm
      (iter.map fun e => (e.1, e.2.created)) := sortByKey_perm _ _

lemma byAge_pairwise (iter : List (String × Entry)) :
    (sortByKey Prod.snd (iter.map fun e => (e.1, e.2.created))).Pairwise
      fun a b => a.2 ≤ b.2 :=
  (sortByKey_pairwise Prod.snd (iter.map fun e => (e.1, e.2.created))).imp
    fun hle => Nat.isLE_compare.mp hle

/-- What is evicted is as many of the oldest entries as there are too many. -/
lemma evict_eq (iter : List (String × Entry)) (max : ℕ) : ResultStore.evict iter max =
    ((sortByKey Prod.snd (iter.map fun e => (e.1, e.2.created))).take
      (iter.length - max)).map Prod.fst := by
  rw [ResultStore.evict]
  split
  · rename_i hle
    simp [Nat.sub_eq_zero_of_le hle]
  · rfl

lemma evict_length (iter : List (String × Entry)) (max : ℕ) :
    (ResultStore.evict iter max).length = iter.length - max := by
  rw [evict_eq, List.length_map, List.length_take, (byAge_perm iter).length_eq, List.length_map]
  omega

lemma byAge_handles (iter : List (String × Entry)) :
    ((sortByKey Prod.snd (iter.map fun e => (e.1, e.2.created))).map Prod.fst).Perm
      (iter.map Prod.fst) := by
  have h := (byAge_perm iter).map Prod.fst
  rwa [List.map_map] at h

lemma evict_removes (h : iter.Perm s.store.entries.toList) (max : ℕ) :
    Removes s (ResultStore.evict iter max)
      { s with store := s.store.removeAll (ResultStore.evict iter max) } := by
  have hsub : (ResultStore.evict iter max).Sublist
      ((sortByKey Prod.snd (iter.map fun e => (e.1, e.2.created))).map Prod.fst) := by
    rw [evict_eq]
    exact (List.take_sublist _ _).map Prod.fst
  refine removeAll_removes h (hsub.nodup ((byAge_handles iter).nodup_iff.mpr (iter_nodup h))) ?_
  exact fun handle hh => (byAge_handles iter).mem_iff.mp (hsub.subset hh)

/-- An evicted entry is no younger than one that stays. -/
lemma evict_oldest (h : iter.Perm s.store.entries.toList) {max : ℕ} {out handle : String}
    {gone kept : Entry} (hout : out ∈ ResultStore.evict iter max)
    (hgone : s.store.entries[out]? = some gone) (hkept : s.store.entries[handle]? = some kept)
    (hnot : handle ∉ ResultStore.evict iter max) : gone.created ≤ kept.created := by
  rw [evict_eq] at hout hnot
  have hsorted := byAge_pairwise iter
  have hkeptMem : (handle, kept.created) ∈
      sortByKey Prod.snd (iter.map fun e => (e.1, e.2.created)) :=
    (byAge_perm iter).mem_iff.mpr (List.mem_map.mpr ⟨(handle, kept), (mem_iter h).mpr hkept, rfl⟩)
  rw [← List.take_append_drop (iter.length - max)
    (sortByKey Prod.snd (iter.map fun e => (e.1, e.2.created)))] at hsorted hkeptMem
  have hkeptDrop := (List.mem_append.mp hkeptMem).resolve_left
    fun hin => hnot (List.mem_map.mpr ⟨_, hin, rfl⟩)
  obtain ⟨⟨k, created⟩, hin, rfl⟩ := List.mem_map.mp hout
  -- the pair that was evicted is the entry of its handle
  have hpair := (byAge_perm iter).mem_iff.mp (List.mem_of_mem_take hin)
  obtain ⟨⟨k', e⟩, he, heq⟩ := List.mem_map.mp hpair
  simp only [Prod.mk.injEq] at heq
  obtain ⟨rfl, rfl⟩ := heq
  have hsame : some e = some gone := ((mem_iter h).mp he).symm.trans hgone
  cases hsame
  exact (List.pairwise_append.mp hsorted).2.2 _ hin _ hkeptDrop

end Iteration

section Host

variable [Host] {l : Ledger} {n : ℕ} {s s' : StoreSystem} {e : StoreEvent}

/-- `enforce_cap` on a store that is not over the cap changes nothing. -/
lemma enforceCap_of_le {max : ℕ} (hle : s.store.entries.size ≤ max) {again : List String}
    (h : StoreStep s (.enforceCap max again) s') : again = [] ∧ s' = s := by
  cases h with
  | enforceCap _ hiter =>
    rw [evict_of_le (by rw [length_iter hiter]; exact hle)]
    exact ⟨rfl, rfl⟩

lemma cap_leaves (max : ℕ) {iter : List (String × Entry)}
    (h : iter.Perm s.store.entries.toList) :
    CapLeaves s max (ResultStore.evict iter max)
      { s with store := s.store.removeAll (ResultStore.evict iter max) } := by
  have hrem := evict_removes h max
  have hsize : (s.store.removeAll (ResultStore.evict iter max)).entries.size =
      min s.store.entries.size max := by
    have hfold := size_foldl_erase (ResultStore.evict iter max) s.store.entries hrem.nodup hrem.mem
    rw [evict_length, length_iter h] at hfold
    refine hfold.trans ?_
    omega
  refine ⟨hrem, hsize, ?_, ?_⟩
  · intro out hout gone hgone handle kept hkept
    rw [hrem.entries] at hkept
    split at hkept
    · cases hkept
    · rename_i hnot
      exact evict_oldest h hout hgone hkept hnot
  · intro again s'' hagain
    exact enforceCap_of_le (by rw [hsize]; exact min_le_right _ _) hagain

/-! ## One step -/

omit [Host] in
/-- What `get` does: an entry that has not expired is answered, one that has is forgotten. -/
lemma ResultStore.get_cases (store : ResultStore) (now : ℕ) (handle : String) :
    (∃ e : Entry, store.entries[handle]? = some e ∧ e.expired now = false ∧
      store.get now handle = (.ok e.payload, store)) ∨
    ((∀ e : Entry, store.entries[handle]? = some e → e.expired now) ∧
      ∃ removed, (removed = [] ∨ removed = [handle]) ∧
        store.get now handle = (.err (.unknownResult handle), store.removeAll removed)) := by
  rw [ResultStore.get]
  split
  · rename_i hnone
    exact .inr ⟨by simp [hnone], [], .inl rfl, rfl⟩
  · rename_i e he
    split
    · rename_i hexp
      refine .inr ⟨fun e' he' => ?_, [handle], .inr rfl, rfl⟩
      rw [he] at he'
      cases he'
      exact hexp
    · rename_i hexp
      exact .inl ⟨e, he, by simpa using hexp, rfl⟩

/-- A step keeps the simulation. -/
lemma StoreStep.simulates (h : StoreStep s e s') (hs : Simulates l n s)
    (hn : n + e.allocations ≤ 2 ^ 64) :
    Simulates (l.note s.now e) (n + e.allocations) s' := by
  cases h with
  | put hput =>
    rw [ResultStore.put] at hput
    dsimp only at hput
    split at hput
    · cases hput
      exact hs
    · cases hput
      simp only [StoreEvent.allocations] at hn
      exact hs.put (by omega) ⟨_, _, _, s.now, s.store.ttl⟩ rfl rfl rfl
  | get hget =>
    rename_i handle answer store
    rcases s.store.get_cases s.now handle with ⟨e, -, -, heq⟩ | ⟨hexp, removed, hrem, heq⟩
    · rw [heq] at hget
      cases hget
      exact hs
    · rw [heq] at hget
      cases hget
      -- an expired entry is removed as it is looked up
      refine hs.forget removed rfl rfl le_rfl
        (fun k => getElem?_foldl_erase removed s.store.entries k) ?_
      intro k hk e he
      rcases hrem with rfl | rfl
      · simp at hk
      · rw [List.mem_singleton.mp hk] at he
        exact hexp e he
  | metadata handle => exact hs
  | find needle hiter => exact hs
  | release hrelease =>
    rename_i handle answer store
    rw [ResultStore.release] at hrelease
    split at hrelease
    · cases hrelease
      exact hs
    · cases hrelease
      exact hs.shrink [handle] [handle] rfl rfl le_rfl
        (fun k => getElem?_foldl_erase [handle] s.store.entries k) (by simp)
        (fun k hk hnot => absurd hk hnot)
  | sweep hiter =>
    have hleaves := sweep_leaves hiter
    exact hs.forget _ rfl rfl le_rfl hleaves.entries
      (fun k hk e he => (hleaves.expired k e he).mp hk)
  | enforceCap max hiter =>
    exact hs.shrink _ _ rfl rfl le_rfl (evict_removes hiter max).entries (fun _ hk => hk)
      (fun k hk hnot => absurd hk hnot)
  | allocate => exact hs.allocate
  | tick d =>
    exact hs.forget [] rfl rfl (Nat.le_add_right _ _) (by simp) (by simp)

/-- `find` hits entries that have not expired and whose text has the needle in it. -/
lemma mem_find_iff {iter : List (String × Entry)} (h : iter.Perm s.store.entries.toList)
    (needle handle : String) : handle ∈ (((iter.filter fun e => !e.2.expired s.now).filter fun e =>
      Rust.contains (String.ofList e.2.payload.compact) needle).map Prod.fst) ↔
      ∃ e : Entry, s.store.entries[handle]? = some e ∧ e.expired s.now = false ∧
        Rust.contains (String.ofList e.payload.compact) needle := by
  constructor
  · intro hmem
    obtain ⟨⟨k, e⟩, he, rfl⟩ := List.mem_map.mp hmem
    obtain ⟨he, hneedle⟩ := List.mem_filter.mp he
    obtain ⟨he, hexp⟩ := List.mem_filter.mp he
    exact ⟨e, (mem_iter h).mp he, by simpa using hexp, hneedle⟩
  · rintro ⟨e, he, hexp, hneedle⟩
    refine List.mem_map.mpr ⟨(handle, e), List.mem_filter.mpr ⟨?_, hneedle⟩, rfl⟩
    exact List.mem_filter.mpr ⟨(mem_iter h).mpr he, by simpa using hexp⟩

/-- The hits of `find` are the ones the ledger has. -/
lemma find_answer (hs : Simulates l n s) {iter : List (String × Entry)}
    (h : iter.Perm s.store.entries.toList) (needle : String) :
    FindAnswer l s needle (ResultStore.find iter s.now needle) where
  sound := by
    intro handle hmem
    have hhit := (mem_find_iff h needle handle).mp (List.mem_of_mem_take hmem)
    obtain ⟨r, hr, hhandle, hneedle, hlive⟩ := (hs.live_iff handle (P := fun r =>
      Rust.contains (String.ofList r.payload.compact) needle = true)).mpr hhit
    exact ⟨r, hr, hhandle, hlive, hneedle⟩
  complete := by
    intro hlen r hr hlive hneedle
    have hmem := (mem_find_iff h needle r.handle).mpr
      ((hs.live_iff _ (P := fun r =>
        Rust.contains (String.ofList r.payload.compact) needle = true)).mp
        ⟨r, hr, rfl, hneedle, hlive⟩)
    rw [ResultStore.find] at hlen ⊢
    rwa [List.take_of_length_le (by rw [List.length_take] at hlen; omega)]

/-- Every answer is the one the ledger gives. -/
lemma StoreStep.answers (h : StoreStep s e s') (hs : Simulates l n s) : Answers l s e s' := by
  cases h with
  | put hput => trivial
  | get hget =>
    rename_i handle answer store
    rcases s.store.get_cases s.now handle with ⟨e, he, hfresh, heq⟩ | ⟨hexp, removed, -, heq⟩
    · rw [heq] at hget
      cases hget
      -- a fresh entry: its payload is that of the live record
      refine ⟨fun v => ?_, fun hnot => absurd rfl (hnot e.payload)⟩
      rw [hs.live_iff handle (P := fun r => r.payload = v)]
      constructor
      · intro hv
        cases hv
        exact ⟨e, he, hfresh, rfl⟩
      · rintro ⟨e', he', -, rfl⟩
        rw [he] at he'
        cases he'
        rfl
    · rw [heq] at hget
      cases hget
      -- nothing fresh: no record under the handle is live
      refine ⟨fun v => ?_, fun _ => rfl⟩
      rw [hs.live_iff handle (P := fun r => r.payload = v)]
      constructor
      · intro hv
        cases hv
      · rintro ⟨e, he, hfresh, -⟩
        rw [hexp e he] at hfresh
        cases hfresh
  | metadata handle =>
    have hlive := hs.live_iff handle (P := fun _ => True)
    simp only [true_and, and_true] at hlive
    show (∃ v, s.store.metadata s.now handle = .ok v) ↔ _
    rw [hlive]
    rw [ResultStore.metadata]
    split
    · rename_i hnone
      simp [hnone]
    · rename_i e he
      split <;> simp [*]
  | find needle hiter => exact find_answer hs hiter needle
  | release hrelease => trivial
  | sweep hiter => exact sweep_leaves hiter
  | enforceCap max hiter => exact cap_leaves max hiter
  | allocate => trivial
  | tick d => trivial

/-! ## Whole runs -/

/-- The simulation holds behind every run that does not exhaust the counter. -/
lemma Simulates.along {tr : List (StoreEvent × StoreSystem)} (hs : Simulates l n s)
    (h : Run StoreStep s tr) (hn : n + allocations tr ≤ 2 ^ 64) :
    Simulates (l.along s tr) (n + allocations tr) (lastOf s tr) := by
  induction h generalizing l n with
  | nil s => exact hs
  | cons hstep _ ih =>
    rename_i s s' e tr hrun
    have hsum : allocations ((e, s') :: tr) = e.allocations + allocations tr := by
      simp [allocations]
    rw [hsum] at hn ⊢
    rw [← Nat.add_assoc] at hn ⊢
    exact ih (hstep.simulates hs (by omega)) hn

omit [Host] in
/-- The records of a run are the ones of its puts. -/
lemma Ledger.along_handles (l : Ledger) (s : StoreSystem) (tr : List (StoreEvent × StoreSystem)) :
    (l.along s tr).map Record.handle = l.map Record.handle ++ handlesOf tr := by
  induction tr generalizing l s with
  | nil => simp [along, handlesOf]
  | cons p tr ih =>
    obtain ⟨e, s'⟩ := p
    have hdrop : ∀ handles : List String,
        (l.map (Record.drop handles)).map Record.handle = l.map Record.handle := by
      intro handles
      rw [List.map_map]
      rfl
    show ((l.note s.now e).along s' tr).map Record.handle = _
    rw [ih]
    unfold handlesOf note
    split <;> simp_all

/-- Along every run that allocates at most 2^64 handles, the store answers as the ledger says, and
no handle is given out twice. -/
theorem result_store_refines {ttl : ℕ} {tr : List (StoreEvent × StoreSystem)}
    (h : Run StoreStep (.new ttl) tr) (hn : allocations tr ≤ 2 ^ 64) :
    (handlesOf tr).Nodup ∧
    ∀ tr₁ e s' tr₂, tr = tr₁ ++ (e, s') :: tr₂ →
      Answers (Ledger.along [] (.new ttl) tr₁) (lastOf (.new ttl) tr₁) e s' := by
  have hall : ∀ tr : List (StoreEvent × StoreSystem), Run StoreStep (.new ttl) tr →
      allocations tr ≤ 2 ^ 64 → Simulates (Ledger.along [] (.new ttl) tr) (0 + allocations tr)
        (lastOf (.new ttl) tr) :=
    fun tr h hn => (Simulates.new ttl).along h (by omega)
  refine ⟨?_, ?_⟩
  · have hnodup := (hall tr h hn).nodup
    rwa [Ledger.along_handles, List.map_nil, List.nil_append] at hnodup
  · rintro tr₁ e s' tr₂ rfl
    obtain ⟨hrun, hstep⟩ := h.split
    refine hstep.answers (hall tr₁ hrun ?_)
    have hsum : allocations (tr₁ ++ (e, s') :: tr₂) =
        allocations tr₁ + allocations ((e, s') :: tr₂) := by simp [allocations]
    omega

/-- The other parts of the process allocate `k` handles. -/
lemma run_allocate (s : StoreSystem) (k : ℕ) : ∃ tr, Run StoreStep s tr ∧ handlesOf tr = [] ∧
    lastOf s tr = { s with next_id := s.next_id + asU64 k } := by
  induction k generalizing s with
  | zero =>
    refine ⟨[], .nil s, rfl, ?_⟩
    have hzero : s.next_id + asU64 0 = s.next_id := Fin.add_zero s.next_id
    rw [hzero]
    rfl
  | succ k ih =>
    obtain ⟨tr, hrun, hhandles, hlast⟩ := ih { s with next_id := s.next_id + 1 }
    refine ⟨(.allocate, _) :: tr, .cons .allocate hrun, hhandles, ?_⟩
    rw [lastOf_cons, hlast]
    have hcount : s.next_id + 1 + asU64 k = s.next_id + asU64 (k + 1) := by
      have hone : (1 : U64).val = 1 := rfl
      refine Fin.ext ?_
      simp only [Fin.val_add, hone, asU64, Fin.val_ofNat]
      omega
    rw [hcount]

end Host

/-- A payload is stored, read, and gone when its time is over. -/
theorem result_store_refines_expired :
    letI := Host.ascii true
    let p := (ResultStore.new 5).put 1 0 "ida_decompile" .null 0
    let s₁ : StoreSystem := ⟨p.2.1, p.2.2, 0⟩
    let s₂ : StoreSystem := { s₁ with now := 5 }
    (s₁.store.get 0 "r1").1 = .ok .null ∧
      GetAnswer [⟨"r1", .null, 0, false⟩] s₂ "r1" (s₂.store.get 5 "r1").1 := by
  let := Host.ascii true
  intro p s₁ s₂
  have hput : StoreStep (.new 5) (.put "ida_decompile" .null 0 p.1) s₁ := .put rfl
  have hget : StoreStep s₁ (.get "r1" (s₁.store.get 0 "r1").1)
      { s₁ with store := (s₁.store.get 0 "r1").2 } := .get rfl
  have hsame : (s₁.store.get 0 "r1").2 = s₁.store := by
    rcases s₁.store.get_cases 0 "r1" with ⟨e, -, -, heq⟩ | ⟨-, removed, -, heq⟩
    · rw [heq]
    · have hok : (s₁.store.get 0 "r1").1.isOk = true := by decide +kernel
      rw [heq] at hok
      cases hok
  rw [hsame] at hget
  have htick : StoreStep s₁ (.tick 5) s₂ := .tick 5
  have hlate : StoreStep s₂ (.get "r1" (s₂.store.get 5 "r1").1)
      { s₂ with store := (s₂.store.get 5 "r1").2 } := .get rfl
  have hrun := Run.cons hput (.cons hget (.cons htick (.cons hlate (.nil _))))
  have hrefines := (result_store_refines hrun (by decide +kernel)).2 [_, _, _] _ _ [] rfl
  exact ⟨by decide +kernel, hrefines⟩

/-- Behind 2^64 allocations the counter is where it was, and a handle is given out again. -/
theorem result_store_refines_not :
    letI := Host.ascii true
    ¬ ∀ ttl tr, Run StoreStep (.new ttl) tr → (handlesOf tr).Nodup ∧
      ∀ tr₁ e s' tr₂, tr = tr₁ ++ (e, s') :: tr₂ →
        Answers (Ledger.along [] (.new ttl) tr₁) (lastOf (.new ttl) tr₁) e s' := by
  let := Host.ascii true
  intro h
  let p := (ResultStore.new 5).put 1 0 "ida_decompile" .null 0
  let s₁ : StoreSystem := ⟨p.2.1, p.2.2, 0⟩
  have hput : StoreStep (.new 5) (.put "ida_decompile" .null 0 p.1) s₁ := .put rfl
  obtain ⟨tr, hrun, hhandles, hlast⟩ := run_allocate s₁ (2 ^ 64 - 1)
  have hcounter : s₁.next_id + asU64 (2 ^ 64 - 1) = 1 := by decide +kernel
  rw [hcounter] at hlast
  let q := s₁.store.put 1 0 "ida_decompile" .null 0
  have hagain : StoreStep (lastOf s₁ tr) (.put "ida_decompile" .null 0 q.1)
      ⟨q.2.1, q.2.2, 0⟩ := by
    rw [hlast]
    exact .put rfl
  have hwhole : Run StoreStep s₁ (tr ++ [(.put "ida_decompile" .null 0 q.1, ⟨q.2.1, q.2.2, 0⟩)]) :=
    hrun.append (.cons hagain (.nil _))
  have hnodup := (h 5 _ (.cons hput hwhole)).1
  have htwice : handlesOf ((.put "ida_decompile" .null 0 p.1, s₁) ::
      (tr ++ [(.put "ida_decompile" .null 0 q.1, ⟨q.2.1, q.2.2, 0⟩)])) = ["r1", "r1"] := by
    have happend : ∀ tr tr' : List (StoreEvent × StoreSystem),
        handlesOf (tr ++ tr') = handlesOf tr ++ handlesOf tr' := by
      intro tr tr'
      exact List.filterMap_append
    rw [← List.singleton_append, happend, happend, hhandles]
    decide +kernel
  rw [htwice] at hnodup
  exact absurd hnodup (by decide)

end ReverseMcp
