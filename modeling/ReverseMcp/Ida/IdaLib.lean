import ReverseMcp.Ida.Mock

/-!
# The real backend

`rmcp_ida::IdaLibBackend`, as far as it changes a database.  IDA is behind it: `D` is what an open
database holds, `Ida` how it is read, and every call into IDA that may change it is an `Effect`,
which succeeds or fails and then has changed nothing.  The calls of an operation come with the
operation, so that each of them can do anything.

A method that takes `&mut self` is an `Action`: what it leaves behind can be seen on an error as
well.  The files that it saves to and copies are part of the state.
-/

namespace ReverseMcp

open Rust

variable {D : Type}

/-- A call into IDA: what it answers, as a number and as a success, the message of a failure, and
the database it leaves. -/
structure Effect (D : Type) where
  code : D → ℤ
  ok : D → Bool
  text : D → String
  next : D → D
  fails : ∀ d, ok d = false → next d = d

/-- The call that succeeds and changes nothing. -/
def Effect.keep : Effect D where
  code _ := 0
  ok _ := true
  text _ := ""
  next d := d
  fails _ _ := rfl

/-- An executable segment. -/
structure ExecSegment where
  start : U64
  stop : U64
  le : start ≤ stop

/-- How IDA is asked about a database. -/
structure Ida (D : Type) where
  function_count : D → ℕ
  /-- The entrypoints. -/
  entries : D → List U64
  /-- The start and the name of the function at an address. -/
  function_at : D → U64 → Option (U64 × String)
  executable : D → List ExecSegment
  /-- The byte of the input file at an address. -/
  original_byte : D → U64 → U8
  decompiler_available : D → Bool
  /-- The extension of a path is `i64`. -/
  isDatabase : String → Bool

/-- `IdaLibBackend`, and what the files hold. -/
structure IdaLibBackend (D : Type) where
  idb : Option D
  path : Option String
  revision : U64
  snapshot_file : Option String
  snapshot_seq : U64
  files : String → Option D

namespace IdaLibBackend

/-- A method of the backend. -/
abbrev Method (D α : Type) : Type := Action Error (IdaLibBackend D) α

/-- `IdaLibBackend::idb`. -/
def opened : Method D D := do
  let s ← Action.get
  Action.lift (Outcome.ofOption (.worker "no db open") s.idb)

/-- A call into IDA on the open database. -/
def call (e : Effect D) (d : D) : Method D Bool := do
  Action.modify fun s => { s with idb := some (e.next d) }
  return e.ok d

lemma call_bind {α : Type} (e : Effect D) (d : D) (f : Bool → Method D α) (s : IdaLibBackend D) :
    (call e d >>= f) s = f (e.ok d) { s with idb := some (e.next d) } := rfl

/-- A code that IDA answers. -/
def codeJson (code : ℤ) : Json :=
  if 0 ≤ code then .nat code.toNat else .number (.negInt (Fin.ofNat _ (-code - 1).toNat))

/-- `err` of `idalib_backend.rs`. -/
def idalibError (text : String) : Error := .worker s!"idalib: {text}"

/-- Bytes in hexadecimal. -/
def joinedHex (bytes : List U8) : String := String.join (bytes.map fun x => hexPadded 2 x.val)

/-- `IdaLibBackend::snapshot_path`. -/
def snapshot_path (db_file : String) (seq : U64) : String := s!"{db_file}.rmbak-{seq.val}"

section
variable [Host] (ida : Ida D)

/-- `IdaLibBackend::bump`. -/
def bump : Method D U64 := do
  let s ← Action.get
  let revision ← Action.lift (addU64 s.revision 1)
  Action.modify fun s => { s with revision }
  return revision

omit [Host] in
/-- `IdaLibBackend::saved_db_file` of a path. -/
def dbFile (path : String) : String := if ida.isDatabase path then path else path ++ ".i64"

omit [Host] in
/-- `IdaLibBackend::saved_db_file`. -/
def saved_db_file : Method D String := do
  let s ← Action.get
  let path ← Action.lift (Outcome.ofOption (Error.worker "no db open") s.path)
  return dbFile ida path

omit [Host] in
lemma saved_db_file_bind {α : Type} (f : String → Method D α) (s : IdaLibBackend D) :
    (saved_db_file ida >>= f) s = match s.path with
      | some path => f (dbFile ida path) s
      | none => .err (.worker "no db open") s := by
  rw [saved_db_file]
  rw [Action.bind_assoc, Action.get_bind]
  cases s.path <;> rfl

omit [Host] in
/-- `IdaBackend::save`: on a success IDA has written the database to its file. -/
def save (saving : Effect D) : Method D Unit := do
  let d ← opened
  let ok ← call saving d
  Action.lift (failIf (ok = false) "idalib: save_database failed")
  Action.modify fun s => { s with
    files := match s.path with
      | some path => Function.update s.files (dbFile ida path) s.idb
      | none => s.files }

/-! ## Functions and variables -/

/-- A mutation that is one call into IDA. -/
def mutate (changing : Effect D) (message : String) (detail : Json) : Method D MutationOutcome := do
  let d ← opened
  let ok ← call changing d
  Action.lift (failIf (ok = false) message)
  let revision_after ← bump
  return ⟨true, revision_after, detail⟩

/-- `IdaBackend::func_create`. -/
def func_create (start : U64) (stop : Option U64) (adding : Effect D) : Method D MutationOutcome :=
  mutate adding s!"function creation failed at {hex start}"
    (.object [("start", .u64 start), ("end", .opt (stop.map Json.u64))])

/-- `IdaBackend::func_delete`. -/
def func_delete (ea : U64) (deleting : Effect D) : Method D MutationOutcome :=
  mutate deleting s!"function deletion failed at {hex ea}" (.object [("ea", .u64 ea)])

/-- `IdaBackend::func_resize`: the code of `set_func_start` is reported and not looked at. -/
def func_resize (ea : U64) (new_start new_end : Option U64) (moving ending : Effect D) :
    Method D MutationOutcome := do
  let d ← opened
  let detail : Json := .object [("ea", .u64 ea)]
  let (d, detail) ← match new_start with
    | some _ => do
      let _ ← call moving d
      pure (moving.next d, detail.set "start_move_code" (codeJson (moving.code d)))
    | none => pure (d, detail)
  let detail ← match new_end with
    | some stop => do
      let ok ← call ending d
      Action.lift (failIf (ok = false) s!"set_func_end failed at {hex ea} -> {hex stop}")
      pure (detail.set "end" (.u64 stop))
    | none => pure detail
  Action.lift (failIf (new_start = none ∧ new_end = none)
    "func_resize requires new_start and/or new_end")
  let revision_after ← bump
  return ⟨true, revision_after, detail⟩

/-- `IdaBackend::hr_lvar_rename`. -/
def hr_lvar_rename (ea var_defea : U64) (new_name : String) (decompiling changing : Effect D) :
    Method D MutationOutcome := do
  let d ← opened
  Action.lift (Outcome.errIf (ida.decompiler_available d = false)
    (Error.capabilityUnavailable "decompile" "hexrays decompiler not available"))
  let (func_ea, func_name) ← Action.lift
    (Outcome.ofOption (Error.worker s!"no function containing {hex ea}") (ida.function_at d ea))
  let ok ← call decompiling d
  Action.lift (Outcome.errIf (ok = false) (idalibError (decompiling.text d)))
  let ok ← call changing (decompiling.next d)
  Action.lift (failIf (ok = false) s!"lvar rename failed: no lvar defined at {hex var_defea}")
  let revision_after ← bump
  return ⟨true, revision_after, .object [("function", .u64 func_ea), ("name", func_name),
    ("var_defea", .u64 var_defea), ("new", new_name)]⟩

/-! ## Bytes, comments and names -/

/-- `IdaBackend::patch_bytes`: the original bytes are read for the audit trail. -/
def patch_bytes (ea : U64) (bytes_hex : String) (patching : Effect D) :
    Method D MutationOutcome := do
  let d ← opened
  let bytes ← Action.lift
    (match MockBackend.hexDecode ((trimChars bytes_hex.toList).filter (· ≠ ' ')) with
    | .ok decoded => .ok decoded
    | .err e => fail s!"bad hex: {e}"
    | .panic p => .panic p)
  Action.lift (failIf (bytes = []) "empty patch")
  let addresses ← Action.lift
    (Outcome.mapList (fun i => addU64 ea (asU64 i)) (List.range bytes.length))
  let ok ← call patching d
  Action.lift (failIf (ok = false) s!"patch failed at {hex ea}")
  let revision_after ← bump
  return ⟨true, revision_after, .object [("ea", .ea ea), ("size", .nat bytes.length),
    ("original", joinedHex (addresses.map (ida.original_byte d))), ("patched", joinedHex bytes)]⟩

/-- `IdaBackend::set_comment`. -/
def set_comment (ea : U64) (commenting : Effect D) : Method D MutationOutcome := do
  let d ← opened
  let ok ← call commenting d
  Action.lift (Outcome.errIf (ok = false) (idalibError (commenting.text d)))
  let revision_after ← bump
  return ⟨true, revision_after, .object [("ea", .u64 ea)]⟩

/-- `IdaBackend::rename`: a name becomes a C string first. -/
def rename (ea : U64) (new_name : String) (naming : Effect D) : Method D MutationOutcome := do
  let d ← opened
  let nul := byteLen (new_name.toList.takeWhile (· ≠ '\x00'))
  Action.lift (failIf ('\x00' ∈ new_name.toList)
    s!"bad name: nul byte found in provided data at position: {nul}")
  let ok ← call naming d
  Action.lift (failIf (ok = false) s!"rename failed at {hex ea} (name invalid or in use)")
  let revision_after ← bump
  return ⟨true, revision_after, .object [("ea", .u64 ea), ("new", new_name)]⟩

omit [Host] in
/-- `IdaBackend::set_type`, which the bridge does not have. -/
def set_type : Method D MutationOutcome := do
  let _ ← opened
  Action.lift (.err (Error.capabilityUnavailable "types"
    "type application not exposed via idalib bridge yet"))

end

/-! ## Analysis -/

/-- `MAX_RECOVERED`. -/
def MAX_RECOVERED : ℕ := 2000

/-- `SWEEP_STEP`. -/
def SWEEP_STEP : ℕ := 4

/-- The analysis under way: the database, how many calls have been made, how many functions
added. -/
structure Analysis (D : Type) where
  db : D
  used : ℕ
  added : ℕ

section
variable (ida : Ida D) (calls : ℕ → Effect D)

/-- The next call. -/
def Analysis.call (a : Analysis D) : Bool × Analysis D :=
  ((calls a.used).ok a.db, { a with db := (calls a.used).next a.db, used := a.used + 1 })

/-- `add_func`, counted. -/
def Analysis.addFunc (a : Analysis D) : Analysis D :=
  if (a.call calls).1 then { (a.call calls).2 with added := a.added + 1 } else (a.call calls).2

/-- No function at the address. -/
def Analysis.isFree (a : Analysis D) (ea : U64) : Bool := (ida.function_at a.db ea).isNone

/-- The recovery at an entrypoint: the answer of `create_insn` is not looked at. -/
def Analysis.entry (a : Analysis D) (ea : U64) : Analysis D :=
  if a.isFree ida ea then
    let a := (a.call calls).2
    if a.isFree ida ea then a.addFunc calls else a
  else a

/-- The recovery at an address of a segment. -/
def Analysis.probe (a : Analysis D) (ea : U64) : Analysis D :=
  if a.isFree ida ea then
    if (a.call calls).1 then (a.call calls).2.addFunc calls else (a.call calls).2
  else a

/-- The sweep through a segment of `size` bytes, from an offset on, with room for `n` more steps. -/
def Analysis.sweepFrom (start : U64) (size : ℕ) : ℕ → ℕ → Analysis D → Analysis D
  | 0, _, a => a
  | n + 1, off, a =>
    if off < size ∧ a.added < MAX_RECOVERED then
      sweepFrom start size n (off + SWEEP_STEP) (a.probe ida calls (start + asU64 off))
    else a

/-- The sweep through the segments. -/
def Analysis.sweep : List ExecSegment → Analysis D → Analysis D
  | [], a => a
  | seg :: segs, a =>
    let size := seg.stop.val - seg.start.val
    let a := a.sweepFrom ida calls seg.start size size 0
    if MAX_RECOVERED ≤ a.added then a else sweep segs a

/-- The recovery of a database without functions, with what it reports. -/
def Analysis.recover (a : Analysis D) : Analysis D × List Json :=
  let entrypoints := (ida.entries a.db).take 16
  let a := entrypoints.foldl (fun a ea => a.entry ida calls ea) a
  let via : List Json := if entrypoints.isEmpty then []
    else [.object [("step", "entrypoints"), ("seeds", .nat entrypoints.length),
      ("added", .nat a.added)]]
  let a := a.sweep ida calls ((ida.executable a.db).take 16)
  if 0 < a.added then
    ((a.call calls).2, via ++ [.object [("step", "executable_segment_sweep"),
      ("added", .nat a.added)]])
  else (a, via)

/-- The analysis of `analyze_wait`, with what the recovery reports: the first call is
`auto_wait`. -/
def analysed (d : D) : Analysis D × List Json :=
  let a := ((⟨d, 0, 0⟩ : Analysis D).call calls).2
  if ida.function_count a.db = 0 then a.recover ida calls else (a, [])

/-- What `analyze_wait` answers about a database and its recovery. -/
def analysisJson (d : D) (recovered_via : List Json) : Json :=
  if ida.function_count d = 0 then
    .object [("analyzed", true), ("functions", .nat 0), ("functions_recovered", false),
      ("reason", "auto-analysis and generic recovery produced no functions; executable bytes are not decodable as instructions by this processor"),
      ("recovered_via", .array recovered_via)]
  else
    .object [("analyzed", true), ("functions", .nat (ida.function_count d)),
      ("functions_recovered", !recovered_via.isEmpty), ("recovered_via", .array recovered_via)]

/-- `IdaBackend::analyze_wait`. -/
def analyze_wait : Method D Json := do
  let d ← opened
  let (a, recovered_via) := analysed ida calls d
  Action.modify fun s => { s with idb := some a.db }
  return analysisJson ida a.db recovered_via

end

/-- `IdaBackend::run_plugin`; the number among the arguments only goes to IDA. -/
def run_plugin (plugin : String) (args : Option String) (loading running : Effect D) :
    Method D Json := do
  let d ← opened
  let ok ← call loading d
  Action.lift (Outcome.errIf (ok = false) (idalibError (loading.text d)))
  let ran ← call running (loading.next d)
  return .object [("plugin", plugin), ("args", .opt (args.map Json.string)), ("ran", ran)]

/-! ## Snapshots -/

section
variable [Host] (ida : Ida D)

omit [Host] in
/-- `std::fs::copy`, or the message of its failure. -/
def copy (source target : String) (failure : Option String) (message : String) : Method D Unit := do
  Action.lift (match failure with
    | some e => fail s!"{message}: {e}"
    | none => .ok ())
  Action.modify fun s => { s with files := Function.update s.files target (s.files source) }

omit [Host] in
lemma copy_bind {α : Type} {source target message : String} {failure : Option String}
    (f : Unit → Method D α) (s : IdaLibBackend D) :
    (copy source target failure message >>= f) s = match failure with
      | some e => .err (.worker s!"{message}: {e}") s
      | none => f () { s with files := Function.update s.files target (s.files source) } := by
  unfold copy
  rw [Action.bind_assoc]
  cases failure <;> rfl

/-- `IdaBackend::snapshot_create`. -/
def snapshot_create (saving : Effect D) (copying : Option String) : Method D Json := do
  save ida saving
  let db_file ← saved_db_file ida
  let s ← Action.get
  let snapshot_seq ← Action.lift (addU64 s.snapshot_seq 1)
  let backup := snapshot_path db_file snapshot_seq
  copy db_file backup copying "snapshot copy failed"
  Action.modify fun s => { s with snapshot_seq, snapshot_file := some backup }
  let revision_after ← bump
  return .object [("snapshot", true), ("revision_after", .u64 revision_after), ("rollback", true)]

/-- `IdaBackend::snapshot_restore`; `opening` is what IDA makes of the database file. -/
def snapshot_restore (copying : Option String) (opening : Option D → Except String D)
    (waiting : Effect D) : Method D Json := do
  let s ← Action.get
  match s.snapshot_file with
  | none =>
    return .object
      [("restored", false), ("reason", "no snapshot taken"), ("rollback", false)]
  | some backup =>
    let db_file ← saved_db_file ida
    Action.modify fun s => { s with idb := none }
    copy backup db_file copying "snapshot restore failed"
    let s ← Action.get
    let d ← Action.lift (match opening (s.files db_file) with
      | .ok d => .ok d
      | .error e => .err (idalibError e))
    Action.modify fun s => { s with idb := some (waiting.next d) }
    let revision_after ← bump
    return .object [("restored", true), ("file", backup), ("revision_after", .u64 revision_after),
      ("rollback", true)]

end

end IdaLibBackend

end ReverseMcp
