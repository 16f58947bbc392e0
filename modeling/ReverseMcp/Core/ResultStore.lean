import Std.Data.ExtTreeMap
import ReverseMcp.Rust.Run
import ReverseMcp.Core.Error
import ReverseMcp.Core.Handle

/-!
# The result store

`rmcp_core::result_store`: payloads that are too large to be answered inline, kept under a handle
for a limited time.  A `HashMap` is iterated in an order of its own, which the functions that do so
take as an argument; `StoreStep` lets it be any order of the entries.  Times are in nanoseconds.
-/

namespace ReverseMcp

open Rust

/-- `result_store::Entry`. -/
structure Entry where
  payload : Json
  tool : String
  total_len : ℕ
  created : ℕ
  ttl : ℕ

/-- `e.created.elapsed() >= e.ttl`. -/
def Entry.expired (e : Entry) (now : ℕ) : Bool := e.ttl ≤ now - e.created

/-- `result_store::StoredResultMeta`. -/
structure StoredResultMeta where
  handle : String
  tool : String
  total_len : ℕ
  ttl_secs : ℕ
  age_secs : ℕ
deriving DecidableEq

/-- `result_store::ResultStore`. -/
structure ResultStore where
  entries : Std.ExtTreeMap String Entry
  ttl : ℕ
  preview_chars : ℕ

/-- The loop of `preview_of` that moves the cut back to a character boundary, and the slice. -/
def cutBack (s : List Char) : ℕ → List Char
  | 0 => []
  | cut + 1 =>
    match sliceTo (cut + 1) s with
    | some cs => cs
    | none => cutBack s cut

/-- `result_store::preview_of`. -/
def preview_of [Host] (payload : Json) (max_chars : ℕ) : String :=
  let s := payload.compact
  if byteLen s ≤ max_chars then String.ofList s
  else String.ofList (cutBack s max_chars) ++ "…"

namespace ResultStore

/-- `ResultStore::new`. -/
def new (ttl : ℕ) : ResultStore := ⟨∅, ttl, 400⟩

/-- `ResultStore::put`: handle, preview and whether the payload was spilled, with the store and the
counter of handles behind it. -/
def put [Host] (s : ResultStore) (next_id : U64) (now : ℕ) (tool : String) (payload : Json)
    (threshold : ℕ) : (String × String × Bool) × ResultStore × U64 :=
  let serialized_len := byteLen payload.compact
  if serialized_len ≤ threshold then (("", "", false), s, next_id)
  else
    let (handle, next_id) := Handle.new "r" next_id
    let preview := preview_of payload s.preview_chars
    let entry : Entry :=
      { payload, tool, total_len := serialized_len, created := now, ttl := s.ttl }
    ((handle.text, preview, true),
      { s with entries := s.entries.insert handle.text entry }, next_id)

/-- `ResultStore::get`. -/
def get (s : ResultStore) (now : ℕ) (handle : String) : Result Json × ResultStore :=
  match s.entries[handle]? with
  | none => (.err (.unknownResult handle), s)
  | some entry =>
    if entry.expired now then
      (.err (.unknownResult handle), { s with entries := s.entries.erase handle })
    else (.ok entry.payload, s)

/-- `ResultStore::metadata`. -/
def metadata (s : ResultStore) (now : ℕ) (handle : String) : Result StoredResultMeta :=
  match s.entries[handle]? with
  | none => .err (.unknownResult handle)
  | some e =>
    if e.expired now then .err (.unknownResult handle)
    else .ok { handle, tool := e.tool, total_len := e.total_len, ttl_secs := e.ttl / 10 ^ 9,
               age_secs := (now - e.created) / 10 ^ 9 }

/-- `ResultStore::find`, with the entries in the order of the iteration. -/
def find [Host] (iter : List (String × Entry)) (now : ℕ) (needle : String) : List String :=
  (((iter.filter fun e => !e.2.expired now).filter fun e =>
    Rust.contains (String.ofList e.2.payload.compact) needle).map Prod.fst).take 20

/-- `ResultStore::release`. -/
def release (s : ResultStore) (handle : String) : Result Unit × ResultStore :=
  match s.entries[handle]? with
  | none => (.err (.unknownResult handle), s)
  | some _ => (.ok (), { s with entries := s.entries.erase handle })

/-- `map.remove` of several handles. -/
def removeAll (s : ResultStore) (handles : List String) : ResultStore :=
  { s with entries := handles.foldl (fun entries k => entries.erase k) s.entries }

/-- The handles that `ResultStore::sweep` removes. -/
def expiredHandles (iter : List (String × Entry)) (now : ℕ) : List String :=
  (iter.filter fun e => e.2.expired now).map Prod.fst

/-- The handles that `ResultStore::enforce_cap` removes: of more than `max` entries the oldest, in
the order of a stable sort. -/
def evict (iter : List (String × Entry)) (max : ℕ) : List String :=
  if iter.length ≤ max then []
  else
    let by_age := sortByKey Prod.snd (iter.map fun e => (e.1, e.2.created))
    (by_age.take (iter.length - max)).map Prod.fst

end ResultStore

/-! ## The system -/

/-- The store of a process, with the process-wide counter of handles and the clock. -/
structure StoreSystem where
  store : ResultStore
  next_id : U64
  now : ℕ

/-- A process that has just started. -/
def StoreSystem.new (ttl : ℕ) : StoreSystem := ⟨ResultStore.new ttl, 1, 0⟩

/-- The calls with their answers; `enforce_cap` and `sweep` answer with the number of the handles
they removed. -/
inductive StoreEvent where
  | put (tool : String) (payload : Json) (threshold : ℕ) (answer : String × String × Bool)
  | get (handle : String) (answer : Result Json)
  | metadata (handle : String) (answer : Result StoredResultMeta)
  | find (needle : String) (hits : List String)
  | release (handle : String) (answer : Result Unit)
  | sweep (removed : List String)
  | enforceCap (max : ℕ) (evicted : List String)
  /-- Another part of the process allocates a handle. -/
  | allocate
  | tick (d : ℕ)

/-- The steps of the system. -/
inductive StoreStep [Host] (s : StoreSystem) : StoreEvent → StoreSystem → Prop
  | put {tool : String} {payload : Json} {threshold : ℕ} {answer : String × String × Bool}
      {store : ResultStore} {next_id : U64}
      (h : s.store.put s.next_id s.now tool payload threshold = (answer, store, next_id)) :
      StoreStep s (.put tool payload threshold answer) { s with store, next_id }
  | get {handle : String} {answer : Result Json} {store : ResultStore}
      (h : s.store.get s.now handle = (answer, store)) :
      StoreStep s (.get handle answer) { s with store }
  | metadata (handle : String) :
      StoreStep s (.metadata handle (s.store.metadata s.now handle)) s
  | find (needle : String) {iter : List (String × Entry)} (h : iter.Perm s.store.entries.toList) :
      StoreStep s (.find needle (ResultStore.find iter s.now needle)) s
  | release {handle : String} {answer : Result Unit} {store : ResultStore}
      (h : s.store.release handle = (answer, store)) :
      StoreStep s (.release handle answer) { s with store }
  | sweep {iter : List (String × Entry)} (h : iter.Perm s.store.entries.toList) :
      StoreStep s (.sweep (ResultStore.expiredHandles iter s.now))
        { s with store := s.store.removeAll (ResultStore.expiredHandles iter s.now) }
  | enforceCap (max : ℕ) {iter : List (String × Entry)} (h : iter.Perm s.store.entries.toList) :
      StoreStep s (.enforceCap max (ResultStore.evict iter max))
        { s with store := s.store.removeAll (ResultStore.evict iter max) }
  | allocate : StoreStep s .allocate { s with next_id := s.next_id + 1 }
  | tick (d : ℕ) : StoreStep s (.tick d) { s with now := s.now + d }

end ReverseMcp
