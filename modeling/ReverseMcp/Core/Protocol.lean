import ReverseMcp.Rust.Lines
import ReverseMcp.Core.Error

/-!
# The protocol between broker and worker

`rmcp_core::protocol`: newline-delimited compact JSON.  The derived serializers are written out,
with their skipped and defaulted fields; the JSON parser and the texts of its errors are taken
from `serde_json` (`Serde`).

A frame that was written is read back (`FrameReader.read_written`), except that a response whose
result is `null` comes back without a result.
-/

namespace ReverseMcp

open Rust

/-- `WorkerRequest`. -/
structure WorkerRequest where
  id : U64
  method : String
  params : Json
deriving DecidableEq

namespace Protocol

/-- `WorkerErrorBody`. -/
structure WorkerErrorBody where
  code : String
  message : String
deriving DecidableEq

/-- `WorkerResponse` as it goes over the wire. -/
structure WorkerResponse where
  id : U64
  result : Option Json
  error : Option WorkerErrorBody
deriving DecidableEq

namespace WorkerResponse

/-- `WorkerResponse::ok`. -/
def ok (id : U64) (result : Json) : WorkerResponse := ⟨id, some result, none⟩

/-- `WorkerResponse::err`. -/
def err (id : U64) (e : Error) : WorkerResponse := ⟨id, none, some ⟨e.code, e.text⟩⟩

end WorkerResponse

/-! ## Serialized forms -/

/-- `Serialize` of a request. -/
def serializeRequest (r : WorkerRequest) : Json :=
  .object [("id", .u64 r.id), ("method", r.method), ("params", r.params)]

/-- `Serialize` of an error body. -/
def WorkerErrorBody.serialize (e : WorkerErrorBody) : Json :=
  .object [("code", e.code), ("message", e.message)]

/-- `Serialize` of a response: absent fields are skipped. -/
def WorkerResponse.serialize (r : WorkerResponse) : Json :=
  .object (("id", .u64 r.id) :: ((r.result.map fun v => ("result", v)).toList ++
    (r.error.map fun e => ("error", e.serialize)).toList))

/-- What a derived `Deserialize` can object to. -/
inductive DataError where
  | invalidType (expected : String)
  | missingField (name : String)
  | duplicateField (name : String)
  | invalidLength (n : ℕ) (expected : String)
  | trailing
deriving DecidableEq

/-- `Deserialize` of a `u64`. -/
def deserializeU64 : Json → Except DataError U64
  | .number (.posInt n) => .ok n
  | _ => .error (.invalidType "u64")

/-- `Deserialize` of a `String`. -/
def deserializeString : Json → Except DataError String
  | .string s => .ok s
  | _ => .error (.invalidType "a string")

/-- `Deserialize` of a `Value`. -/
def deserializeValue (v : Json) : Except DataError Json := .ok v

/-- `Deserialize` of an `Option`: `null` is `None`. -/
def deserializeOption {α : Type} (f : Json → Except DataError α) :
    Json → Except DataError (Option α)
  | .null => .ok none
  | v => (f v).map some

/-- One field of a struct in `visit_map`: it may come once. -/
def visitField {α : Type} (name : String) (f : Json → Except DataError α) (seen : Option α)
    (v : Json) : Except DataError (Option α) :=
  match seen with
  | some _ => .error (.duplicateField name)
  | none => (f v).map some

/-- A field that has to be there. -/
def required {α : Type} (name : String) : Option α → Except DataError α
  | some a => .ok a
  | none => .error (.missingField name)

/-- `visit_map` of a request; fields of other names are passed over. -/
def requestMap (id : Option U64) (method : Option String) (params : Option Json) :
    List (String × Json) → Except DataError WorkerRequest
  | [] => do
    let id ← required "id" id
    let method ← required "method" method
    return ⟨id, method, params.getD .null⟩
  | (k, v) :: rest =>
    if k = "id" then do
      let id ← visitField "id" deserializeU64 id v
      requestMap id method params rest
    else if k = "method" then do
      let method ← visitField "method" deserializeString method v
      requestMap id method params rest
    else if k = "params" then do
      let params ← visitField "params" deserializeValue params v
      requestMap id method params rest
    else requestMap id method params rest

/-- `Deserialize` of a request: a map, or the fields in a row. -/
def deserializeRequest : Json → Except DataError WorkerRequest
  | .object fields => requestMap none none none fields
  | .array [] => .error (.invalidLength 0 "struct WorkerRequest with 3 elements")
  | .array [id] => do
    let _ ← deserializeU64 id
    .error (.invalidLength 1 "struct WorkerRequest with 3 elements")
  | .array [id, method] => do
    return ⟨← deserializeU64 id, ← deserializeString method, .null⟩
  | .array [id, method, params] => do
    return ⟨← deserializeU64 id, ← deserializeString method, params⟩
  | .array (id :: method :: _) => do
    let _ ← deserializeU64 id
    let _ ← deserializeString method
    .error .trailing
  | _ => .error (.invalidType "struct WorkerRequest")

/-- `visit_map` of an error body. -/
def errorBodyMap (code message : Option String) :
    List (String × Json) → Except DataError WorkerErrorBody
  | [] => do return ⟨← required "code" code, ← required "message" message⟩
  | (k, v) :: rest =>
    if k = "code" then do
      let code ← visitField "code" deserializeString code v
      errorBodyMap code message rest
    else if k = "message" then do
      let message ← visitField "message" deserializeString message v
      errorBodyMap code message rest
    else errorBodyMap code message rest

/-- `Deserialize` of an error body. -/
def deserializeErrorBody : Json → Except DataError WorkerErrorBody
  | .object fields => errorBodyMap none none fields
  | .array [] => .error (.invalidLength 0 "struct WorkerErrorBody with 2 elements")
  | .array [code] => do
    let _ ← deserializeString code
    .error (.invalidLength 1 "struct WorkerErrorBody with 2 elements")
  | .array [code, message] => do
    return ⟨← deserializeString code, ← deserializeString message⟩
  | .array (code :: message :: _) => do
    let _ ← deserializeString code
    let _ ← deserializeString message
    .error .trailing
  | _ => .error (.invalidType "struct WorkerErrorBody")

/-- `visit_map` of a response; an absent optional field is `None`. -/
def responseMap (id : Option U64) (result : Option (Option Json))
    (error : Option (Option WorkerErrorBody)) :
    List (String × Json) → Except DataError WorkerResponse
  | [] => do return ⟨← required "id" id, result.join, error.join⟩
  | (k, v) :: rest =>
    if k = "id" then do
      let id ← visitField "id" deserializeU64 id v
      responseMap id result error rest
    else if k = "result" then do
      let result ← visitField "result" (deserializeOption deserializeValue) result v
      responseMap id result error rest
    else if k = "error" then do
      let error ← visitField "error" (deserializeOption deserializeErrorBody) error v
      responseMap id result error rest
    else responseMap id result error rest

/-- `Deserialize` of a response. -/
def deserializeResponse : Json → Except DataError WorkerResponse
  | .object fields => responseMap none none none fields
  | .array [] => .error (.invalidLength 0 "struct WorkerResponse with 3 elements")
  | .array [id] => do
    let _ ← deserializeU64 id
    .error (.invalidLength 1 "struct WorkerResponse with 3 elements")
  | .array [id, result] => do
    let _ ← deserializeU64 id
    let _ ← deserializeOption deserializeValue result
    .error (.invalidLength 2 "struct WorkerResponse with 3 elements")
  | .array [id, result, error] => do
    return ⟨← deserializeU64 id, ← deserializeOption deserializeValue result,
      ← deserializeOption deserializeErrorBody error⟩
  | .array (id :: result :: error :: _) => do
    let _ ← deserializeU64 id
    let _ ← deserializeOption deserializeValue result
    let _ ← deserializeOption deserializeErrorBody error
    .error .trailing
  | _ => .error (.invalidType "struct WorkerResponse")

/-! ## Frames -/

/-- What the protocol takes from `serde_json`. -/
class Serde where
  /-- The parser; an object has its fields as they stand in the text. -/
  parse : String → Except String Json
  /-- The text of an error of `Deserialize`, with its place in the text. -/
  display : DataError → String → String

/-- The types that go over the wire. -/
class Frame (T : Type) where
  serialize : T → Json
  deserialize : Json → Except DataError T

instance : Frame WorkerRequest := ⟨serializeRequest, deserializeRequest⟩

instance : Frame WorkerResponse := ⟨WorkerResponse.serialize, deserializeResponse⟩

variable {T : Type}

/-- `serde_json::to_string`. -/
def to_string [Host] [Frame T] (value : T) : String :=
  String.ofList (Frame.serialize value).compact

/-- `serde_json::from_str`. -/
def from_str [Serde] [Frame T] (s : String) : Except String T :=
  match Serde.parse s with
  | .error e => .error e
  | .ok v =>
    match Frame.deserialize v with
    | .ok value => .ok value
    | .error e => .error (Serde.display e s)

/-- What `FrameReader::read` makes of a line. -/
def readFrame [Serde] [Frame T] (line : List U8) : Result (Option T) :=
  if line = [] then .ok none
  else
    match fromUtf8 line with
    | none => .err (.io "stream did not contain valid UTF-8")
    | some text =>
      match from_str (trim text) with
      | .ok value => .ok (some value)
      | .error e => .err (.ipc s!"bad frame: {e}")

/-- `FrameReader::read`, with the rest of the stream. -/
def FrameReader.read [Serde] [Frame T] (stream : List U8) : Result (Option T) × List U8 :=
  (readFrame (readLine stream).1, (readLine stream).2)

/-- `write_frame` to a vector. -/
def write_frame [Host] [Frame T] (w : List U8) (value : T) : List U8 :=
  w ++ (bytes (to_string value) ++ [newline])

/-! ## Reading what was written -/

lemma deserializeRequest_serializeRequest (r : WorkerRequest) :
    deserializeRequest (serializeRequest r) = .ok r := rfl

/-- A response as it comes back: a `null` result is taken for an absent one. -/
def WorkerResponse.readBack (r : WorkerResponse) : WorkerResponse :=
  { r with result := r.result.filter fun v => v ≠ .null }

lemma deserializeResponse_serialize (r : WorkerResponse) :
    deserializeResponse r.serialize = .ok r.readBack := by
  obtain ⟨id, result, error⟩ := r
  cases result with
  | none => cases error <;> rfl
  | some v => cases v <;> cases error <;> rfl

lemma compactFields_ends [Host] (l : List (String × Json)) :
    ∃ cs, Json.compactFields l = cs ++ ['}'] := by
  induction l with
  | nil => exact ⟨[], by simp [Json.compactFields]⟩
  | cons x l ih =>
    obtain ⟨cs, hcs⟩ := ih
    refine ⟨',' :: (Json.quoted x.1 ++ ':' :: (x.2.compact ++ cs)), ?_⟩
    simp [Json.compactFields, hcs]

/-- The text of an object stands between its braces. -/
lemma compact_object [Host] (x : String × Json) (l : List (String × Json)) :
    ∃ cs, (Json.object (x :: l)).compact = '{' :: (cs ++ ['}']) := by
  obtain ⟨cs, hcs⟩ := compactFields_ends l
  exact ⟨Json.quoted x.1 ++ ':' :: (x.2.compact ++ cs), by simp [Json.compact, hcs]⟩

/-- The newline behind an object is trimmed away, and nothing else. -/
lemma trim_line (cs : List Char) :
    trim (String.ofList ('{' :: (cs ++ ['}']) ++ ['\n'])) =
      String.ofList ('{' :: (cs ++ ['}'])) := by
  have hopen : isWhitespace '{' = false := by decide
  have hclose : isWhitespace '}' = false := by decide
  have hnewline : isWhitespace '\n' = true := by decide
  simp [trim, trimChars, hopen, hclose, hnewline]

variable [Host] [Serde] [Frame T]

/-- A value that serializes to an object is read back from its line. -/
lemma readFrame_line {value value' : T} {x : String × Json} {l : List (String × Json)}
    (hobject : Frame.serialize value = .object (x :: l))
    (hback : Frame.deserialize (Frame.serialize value) = .ok value')
    (hparse : Serde.parse (to_string value) = .ok (Frame.serialize value)) :
    readFrame (bytes (to_string value) ++ [newline]) = .ok (some value') := by
  obtain ⟨cs, hcs⟩ := compact_object x l
  have htext : to_string value = String.ofList ('{' :: (cs ++ ['}'])) := by
    rw [to_string, hobject, hcs]
  have hline : bytes (to_string value) ++ [newline] =
      bytes (String.ofList ('{' :: (cs ++ ['}']) ++ ['\n'])) := by
    rw [bytes_append, htext]
    rfl
  have hne : bytes (to_string value) ++ [newline] ≠ [] := by simp
  rw [readFrame, if_neg hne, hline, fromUtf8_bytes]
  simp only [trim_line, ← htext, from_str, hparse, hback]

/-- The reader reads what `write_frame` wrote, and leaves what is behind it. -/
lemma FrameReader.read_written {v v' : T} {x : String × Json} {l : List (String × Json)}
    (hobject : Frame.serialize v = .object (x :: l))
    (hback : Frame.deserialize (Frame.serialize v) = .ok v')
    (hparse : Serde.parse (to_string v) = .ok (Frame.serialize v))
    (hline : '\n' ∉ (to_string v).toList) (rest : List U8) :
    FrameReader.read (write_frame [] v ++ rest) = (.ok (some v'), rest) := by
  have hbytes : newline ∉ bytes (to_string v) := by
    rw [to_string] at hline ⊢
    exact newline_not_mem_bytes (by rwa [String.toList_ofList] at hline)
  have hread : readLine (write_frame [] v ++ rest) =
      (bytes (to_string v) ++ [newline], rest) := by
    rw [write_frame, List.nil_append, List.append_assoc]
    exact readLine_append hbytes rest
  rw [FrameReader.read, hread, readFrame_line hobject hback hparse]

end Protocol

end ReverseMcp
