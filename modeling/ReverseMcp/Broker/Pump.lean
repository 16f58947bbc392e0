import Mathlib.Data.List.Infix
import ReverseMcp.Core.Protocol

/-!
# Responses at the pump

What `worker_pool::pump_task` makes of a response frame: the result, or the error rebuilt from
its stable code.  `frames_read_back_iff` is the round trip of the protocol up to the caller: every
sequence of requests and responses comes back from the wire as it was written, and an `ok`
response as the value it carries, unless a response carries `null`.  `error_from_code_text` is the
round trip of the errors: their fields are found again in the text, whatever they hold.
-/

namespace ReverseMcp

open Rust Protocol

/-- `str::split_once`. -/
def splitOnce (sep : List Char) : List Char → Option (List Char × List Char)
  | [] => if sep = [] then some ([], []) else none
  | c :: cs =>
    match sep.isPrefixOf? (c :: cs) with
    | some rest => some ([], rest)
    | none => (splitOnce sep cs).map fun p => (c :: p.1, p.2)

/-- `s.trim().parse::<u64>().ok()`. -/
def parseU64 (s : List Char) : Option U64 :=
  match fromStrRadix (2 ^ 64) 10 (trimChars s) with
  | .ok n => some n
  | .error _ => none

/-- `worker_pool::error_from_code`. -/
def error_from_code (code message : String) : Error :=
  if code = "revision_conflict" then
    let parsed := do
      let rest ← "revision conflict: expected ".toList.isPrefixOf? message.toList
      let (expected, current) ← splitOnce ", current ".toList rest
      return Error.revisionConflict (← parseU64 expected) (← parseU64 current)
    parsed.getD (.worker message)
  else if code = "unknown_db" then
    let handle := do
      let rest ← "db handle '".toList.isPrefixOf? message.toList
      "' is unknown or closed".toList.isSuffixOf? rest
    .unknownDb ((handle.map String.ofList).getD message)
  else if code = "capability_unavailable" then
    let parsed := do
      let rest ← "capability unavailable: ".toList.isPrefixOf? message.toList
      let (capability, reason) ← splitOnce ": ".toList rest
      return Error.capabilityUnavailable (String.ofList capability) (String.ofList reason)
    parsed.getD (.worker message)
  else if code = "db_ambiguous" then .dbAmbiguous 0 ""
  else .worker message

/-- `pump_task`: the value that the caller of a request gets for its response. -/
def response_result (r : Protocol.WorkerResponse) : Result Json :=
  match r.result with
  | some v => .ok v
  | none =>
    match r.error with
    | some e => .err (error_from_code e.code e.message)
    | none => fail "worker error"

/-! ## Errors from their texts -/

lemma isPrefixOf?_append (l r : List Char) : l.isPrefixOf? (l ++ r) = some r := by
  induction l with
  | nil => cases r <;> rfl
  | cons c l ih =>
    rw [List.cons_append, List.isPrefixOf?, if_pos (beq_self_eq_true c), ih]

lemma isSuffixOf?_append (l r : List Char) : r.isSuffixOf? (l ++ r) = some l := by
  rw [List.isSuffixOf?, List.reverse_append, isPrefixOf?_append, Option.map_some,
    List.reverse_reverse]

lemma isPrefix_of_isPrefixOf? {l r t : List Char} (h : l.isPrefixOf? r = some t) : l <+: r := by
  induction l generalizing r with
  | nil => exact List.nil_prefix
  | cons c l ih =>
    cases r with
    | nil => cases h
    | cons d r =>
      rw [List.isPrefixOf?] at h
      split at h
      · next heq =>
        rw [beq_iff_eq.mp heq]
        exact List.cons_prefix_cons.mpr ⟨rfl, ih h⟩
      · cases h

/-- A text is split at a separator that does not begin earlier. -/
lemma splitOnce_append {sep l r : List Char} (hsep : sep ≠ [])
    (h : ∀ t, t <:+ l → t ≠ [] → ¬ sep <+: t ++ (sep ++ r)) :
    splitOnce sep (l ++ (sep ++ r)) = some (l, r) := by
  induction l with
  | nil =>
    obtain ⟨c, cs, rfl⟩ := List.exists_cons_of_ne_nil hsep
    have hpre := isPrefixOf?_append (c :: cs) r
    rw [List.nil_append]
    rw [List.cons_append] at hpre ⊢
    rw [splitOnce, hpre]
  | cons c l ih =>
    have hnot : sep.isPrefixOf? (c :: (l ++ (sep ++ r))) = none := by
      cases hpre : sep.isPrefixOf? (c :: (l ++ (sep ++ r))) with
      | none => rfl
      | some t => exact absurd (isPrefix_of_isPrefixOf? hpre) (h (c :: l) List.suffix_rfl (by simp))
    have hrest := ih fun t ht => h t (ht.trans (List.suffix_cons c l))
    rw [List.cons_append, splitOnce, hnot, hrest]
    rfl

/-- No two-character separator begins in a text without it, when its characters differ. -/
lemma not_isPrefix_pair {a b : Char} (hab : a ≠ b) {l t r : List Char} (hl : ¬ [a, b] <:+: l)
    (ht : t <:+ l) (hne : t ≠ []) : ¬ [a, b] <+: t ++ ([a, b] ++ r) := by
  obtain ⟨c, t, rfl⟩ := List.exists_cons_of_ne_nil hne
  cases t with
  | nil =>
    -- the separator would overlap itself
    intro h
    have hcons := List.cons_prefix_cons.mp h
    exact hab (List.cons_prefix_cons.mp hcons.2).1.symm
  | cons d t =>
    intro h
    obtain ⟨rfl, hrest⟩ := List.cons_prefix_cons.mp h
    obtain ⟨rfl, -⟩ := List.cons_prefix_cons.mp hrest
    exact hl (List.IsInfix.trans ⟨[], t, rfl⟩ ht.isInfix)

/-- A formatted integer is read back. -/
lemma parseU64_toString (v : U64) : parseU64 (toString v.val).toList = some v := by
  have hdigits : (toString v.val).toList = Nat.toDigits 10 v.val := Nat.toList_repr
  have hplain : ∀ c ∈ Nat.toDigits 10 v.val, isWhitespace c = false ∧ c ≠ 'x' ∧ c ≠ '+' :=
    fun c hc => toDigits_plain (by decide) (by decide) hc
  rw [parseU64, hdigits, trimChars_of_forall fun c hc => (hplain c hc).1,
    fromStrRadix_of_unsigned Nat.toDigits_ne_nil fun c hc => (hplain c hc).2.2,
    parseDigits_toDigits (by decide) (by decide) v.isLt]

lemma splitOnce_current (m : ℕ) (r : List Char) :
    splitOnce ", current ".toList ((toString m).toList ++ (", current ".toList ++ r)) =
      some ((toString m).toList, r) := by
  refine splitOnce_append (by decide) fun t ht hne h => ?_
  obtain ⟨c, t, rfl⟩ := List.exists_cons_of_ne_nil hne
  have hmem : c ∈ Nat.toDigits 10 m := Nat.toList_repr ▸ ht.subset List.mem_cons_self
  -- a digit is no comma
  have hc : IsDigitChar c := isDigitChar_of_mem_toDigits (by decide) (by decide) c hmem
  obtain rfl : ',' = c := (List.cons_prefix_cons.mp h).1
  exact absurd hc (by decide)

/-- The text does not hold the part. -/
lemma not_isInfix_of_contains {s p : String} (h : contains s p = false) :
    ¬ p.toList <:+: s.toList := by
  rintro ⟨front, back, hs⟩
  rw [contains, List.any_eq_false] at h
  refine h (p.toList ++ back) ?_ ?_
  · rw [List.mem_tails]
    exact ⟨front, by rw [← hs, List.append_assoc]⟩
  · rw [List.isPrefixOf_iff_prefix]
    exact List.prefix_append _ _

/-- The errors whose fields cross the process boundary as parts of their text. -/
def Error.Structured : Error → Prop
  | .revisionConflict _ _ => True
  | .unknownDb _ => True
  | .capabilityUnavailable capability _ => contains capability ": " = false
  | _ => False

instance : DecidablePred Error.Structured
  | .revisionConflict _ _ => inferInstanceAs (Decidable True)
  | .unknownDb _ => inferInstanceAs (Decidable True)
  | .capabilityUnavailable capability _ =>
    inferInstanceAs (Decidable (contains capability ": " = false))
  | .idaNotFound _ | .idaVersionMismatch _ _ | .config _ | .dbAmbiguous _ _ | .unknownResult _
  | .worker _ | .ipc _ | .io _ => inferInstanceAs (Decidable False)

lemma error_from_code_revisionConflict (expected current : U64) :
    error_from_code (Error.revisionConflict expected current).code
      (Error.revisionConflict expected current).text = .revisionConflict expected current := by
  have hcode : (Error.revisionConflict expected current).code = "revision_conflict" := rfl
  have htext : (Error.revisionConflict expected current).text =
      "revision conflict: expected " ++ toString expected.val ++ ", current " ++
        toString current.val := rfl
  rw [hcode, htext, error_from_code, if_pos rfl]
  simp only [String.toList_append, List.append_assoc, isPrefixOf?_append, splitOnce_current,
    parseU64_toString, Option.pure_def, Option.bind_eq_bind, Option.bind_some, Option.getD_some]

lemma error_from_code_unknownDb (handle : String) :
    error_from_code (Error.unknownDb handle).code (Error.unknownDb handle).text =
      .unknownDb handle := by
  have hcode : (Error.unknownDb handle).code = "unknown_db" := rfl
  have htext :
      (Error.unknownDb handle).text = "db handle '" ++ handle ++ "' is unknown or closed" :=
    rfl
  rw [hcode, htext, error_from_code, if_neg (by decide), if_pos rfl]
  simp only [String.toList_append, List.append_assoc, isPrefixOf?_append, isSuffixOf?_append,
    Option.bind_eq_bind, Option.bind_some, Option.map_some, Option.getD_some, String.ofList_toList]

lemma error_from_code_capabilityUnavailable {capability : String} (reason : String)
    (h : contains capability ": " = false) :
    error_from_code (Error.capabilityUnavailable capability reason).code
      (Error.capabilityUnavailable capability reason).text =
        .capabilityUnavailable capability reason := by
  have hcode :
      (Error.capabilityUnavailable capability reason).code = "capability_unavailable" := rfl
  have htext : (Error.capabilityUnavailable capability reason).text =
      "capability unavailable: " ++ capability ++ ": " ++ reason := rfl
  have hsplit : splitOnce ": ".toList (capability.toList ++ (": ".toList ++ reason.toList)) =
      some (capability.toList, reason.toList) :=
    splitOnce_append (by decide) fun t ht hne =>
      not_isPrefix_pair (by decide) (not_isInfix_of_contains h) ht hne
  rw [hcode, htext, error_from_code, if_neg (by decide), if_neg (by decide), if_pos rfl]
  simp only [String.toList_append, List.append_assoc, isPrefixOf?_append, hsplit, Option.pure_def,
    Option.bind_eq_bind, Option.bind_some, Option.getD_some, String.ofList_toList]

/-- A structured error is rebuilt from its code and its text. -/
theorem error_from_code_text (e : Error) (h : e.Structured) :
    error_from_code e.code e.text = e := by
  cases e with
  | revisionConflict expected current => exact error_from_code_revisionConflict expected current
  | unknownDb handle => exact error_from_code_unknownDb handle
  | capabilityUnavailable capability reason => exact error_from_code_capabilityUnavailable reason h
  | idaNotFound | idaVersionMismatch | config | dbAmbiguous | unknownResult | worker | ipc | io =>
    exact h.elim

/-- A reason that repeats the message, and a capability that ends in a colon. -/
theorem error_from_code_text_nested :
    let e := Error.capabilityUnavailable "hexrays:" "capability unavailable: x: 'y', current 3"
    e.Structured ∧ error_from_code e.code e.text = e :=
  ⟨by decide +kernel, error_from_code_text _ (by decide +kernel)⟩

/-! ## Sequences of frames -/

/-- A frame of either direction. -/
inductive AnyFrame where
  | request (r : WorkerRequest)
  | response (r : Protocol.WorkerResponse)
deriving DecidableEq

/-- The type a reader asks for. -/
inductive FrameKind where
  | request
  | response
deriving DecidableEq

namespace AnyFrame

/-- The type of a frame. -/
def kind : AnyFrame → FrameKind
  | request _ => .request
  | response _ => .response

/-- The value a frame is written as. -/
def value : AnyFrame → Json
  | request r => Frame.serialize r
  | response r => Frame.serialize r

/-- The text of a frame. -/
def text [Host] : AnyFrame → String
  | request r => to_string r
  | response r => to_string r

/-- `write_frame`. -/
def write [Host] (w : List U8) : AnyFrame → List U8
  | request r => write_frame w r
  | response r => write_frame w r

/-- `reader.read::<T>()`, for either type. -/
def read [Serde] (stream : List U8) : FrameKind → Result (Option AnyFrame) × List U8
  | .request =>
    let (value, rest) := FrameReader.read (T := WorkerRequest) stream
    (value >>= fun o => .ok (o.map request), rest)
  | .response =>
    let (value, rest) := FrameReader.read (T := Protocol.WorkerResponse) stream
    (value >>= fun o => .ok (o.map response), rest)

/-- All frames, written one after the other. -/
def writeAll [Host] (frames : List AnyFrame) : List U8 := frames.foldl write []

/-- One read for every type of the list. -/
def readAll [Serde] : List FrameKind → List U8 → List (Result (Option AnyFrame))
  | [], _ => []
  | k :: kinds, stream =>
    let (value, rest) := read stream k
    value :: readAll kinds rest

/-- A frame as it comes back. -/
def readBack : AnyFrame → AnyFrame
  | request r => request r
  | response r => response r.readBack

/-- The frame is a response that carries `null`. -/
def CarriesNull : AnyFrame → Prop
  | request _ => False
  | response r => r.result = some .null

instance : DecidablePred CarriesNull
  | request _ => inferInstanceAs (Decidable False)
  | response r => inferInstanceAs (Decidable (r.result = some .null))

end AnyFrame

/-- What the pump gives to the caller for the first response on the stream. -/
def firstAnswer [Serde] (stream : List U8) : Option (Result Json) :=
  match (FrameReader.read (T := Protocol.WorkerResponse) stream).1 with
  | .ok (some r) => some (response_result r)
  | _ => none

/-! ## The round trip -/

namespace AnyFrame

lemma write_eq [Host] (w : List U8) (f : AnyFrame) : write w f = w ++ write [] f := by
  cases f <;> simp [write, write_frame]

lemma writeAll_eq [Host] (frames : List AnyFrame) :
    writeAll frames = frames.flatMap (write []) := by
  have hfold : ∀ w, frames.foldl write w = w ++ frames.flatMap (write []) := by
    induction frames with
    | nil => simp
    | cons f frames ih =>
      intro w
      rw [List.foldl_cons, ih, write_eq, List.flatMap_cons, List.append_assoc]
  exact (hfold []).trans (List.nil_append _)

lemma readBack_eq_iff (f : AnyFrame) : f.readBack = f ↔ ¬ f.CarriesNull := by
  cases f with
  | request r => simp [readBack, CarriesNull]
  | response r =>
    obtain ⟨id, result, error⟩ := r
    cases result with
    | none => simp [readBack, CarriesNull, Protocol.WorkerResponse.readBack]
    | some v =>
      by_cases hv : v = .null
      · simp [readBack, CarriesNull, Protocol.WorkerResponse.readBack, hv]
      · simp [readBack, CarriesNull, Protocol.WorkerResponse.readBack, hv]

variable [Host] [Serde]

/-- A frame that was written is read by a reader of its type. -/
lemma read_written {f : AnyFrame} (hparse : Serde.parse f.text = .ok f.value)
    (hline : '\n' ∉ f.text.toList) (rest : List U8) :
    read (write [] f ++ rest) f.kind = (.ok (some f.readBack), rest) := by
  cases f with
  | request r =>
    have hread := FrameReader.read_written (v := r) rfl
      (congrArg _ rfl |>.trans (deserializeRequest_serializeRequest r)) hparse hline rest
    simp only [read, write, kind, hread]
    rfl
  | response r =>
    have hread := FrameReader.read_written (v := r) rfl (deserializeResponse_serialize r) hparse
      hline rest
    simp only [read, write, kind, hread]
    rfl

/-- The reader gets every frame in its turn, and then the end of the stream. -/
lemma readAll_writeAll {frames : List AnyFrame} (last : FrameKind)
    (hparse : ∀ f ∈ frames, Serde.parse f.text = .ok f.value)
    (hline : ∀ f ∈ frames, '\n' ∉ f.text.toList) :
    readAll (frames.map kind ++ [last]) (writeAll frames) =
      frames.map (fun f => .ok (some f.readBack)) ++ [.ok none] := by
  rw [writeAll_eq]
  induction frames with
  | nil => cases last <;> rfl
  | cons f frames ih =>
    have hread := read_written (hparse f (by simp)) (hline f (by simp)) (frames.flatMap (write []))
    have hrest := ih (fun g hg => hparse g (by simp [hg])) fun g hg => hline g (by simp [hg])
    simp only [List.map_cons, List.cons_append, List.flatMap_cons, readAll, hread, hrest]

end AnyFrame

/-- The answer that goes to the caller of a request whose worker answered `ok` with `v`. -/
lemma firstAnswer_ok [Host] [Serde] {id : U64} {v : Json}
    (hparse : Serde.parse (to_string (Protocol.WorkerResponse.ok id v)) =
      .ok (Frame.serialize (Protocol.WorkerResponse.ok id v)))
    (hline : '\n' ∉ (to_string (Protocol.WorkerResponse.ok id v)).toList) :
    firstAnswer (write_frame [] (Protocol.WorkerResponse.ok id v)) =
      some (if v = .null then fail "worker error" else .ok v) := by
  have hread := FrameReader.read_written rfl
    (deserializeResponse_serialize (Protocol.WorkerResponse.ok id v)) hparse hline []
  rw [List.append_nil] at hread
  by_cases hv : v = .null
  · subst hv
    rw [firstAnswer, hread]
    rfl
  · rw [firstAnswer, hread, if_neg hv]
    have hkept : (some v).filter (fun v => v ≠ .null) = some v :=
      Option.filter_some_pos (by simpa using hv)
    simp only [response_result, Protocol.WorkerResponse.readBack, Protocol.WorkerResponse.ok, hkept]

/-- Every sequence of frames comes back as it was written, and an `ok` response as its value, iff
no response carries `null`. -/
theorem frames_read_back_iff [Host] [Serde] (frames : List AnyFrame) (last : FrameKind) (id : U64)
    (v : Json)
    (hparse : ∀ f ∈ .response (.ok id v) :: frames, Serde.parse f.text = .ok f.value)
    (hline : ∀ f ∈ .response (.ok id v) :: frames, '\n' ∉ f.text.toList) :
    (AnyFrame.readAll (frames.map AnyFrame.kind ++ [last]) (AnyFrame.writeAll frames) =
        frames.map (fun f => .ok (some f)) ++ [.ok none] ∧
      firstAnswer (write_frame [] (Protocol.WorkerResponse.ok id v)) = some (.ok v)) ↔
      (∀ f ∈ frames, ¬ f.CarriesNull) ∧ v ≠ .null := by
  have hread := AnyFrame.readAll_writeAll last (fun f hf => hparse f (List.mem_cons_of_mem _ hf))
    fun f hf => hline f (List.mem_cons_of_mem _ hf)
  have hanswer := firstAnswer_ok (hparse (.response (.ok id v)) List.mem_cons_self)
    (hline (.response (.ok id v)) List.mem_cons_self)
  rw [hread, hanswer]
  refine and_congr ?_ ?_
  · rw [List.append_left_inj, List.map_inj_left]
    refine forall₂_congr fun f _ => ?_
    rw [Outcome.ok.injEq, Option.some.injEq, AnyFrame.readBack_eq_iff]
  · by_cases hv : v = .null
    · simp [hv, fail]
    · simp [hv]

/-- A parser that knows the texts of the given frames. -/
@[reducible] def Serde.ofFrames [Host] (frames : List AnyFrame) : Serde where
  parse s :=
    match frames.find? fun f => f.text = s with
    | some f => .ok f.value
    | none => .error "expected value at line 1 column 1"
  display _ _ := "invalid type at line 1 column 1"

/-- Three frames and an answer that come back. -/
def sampleFrames : List AnyFrame :=
  [.request ⟨7, "functions", .object [("offset", .u64 0)]⟩, .response (.ok 8 true),
    .response (.err 9 (.unknownDb "db9"))]

theorem frames_read_back_iff_sample :
    letI : Host := Host.ascii true
    letI : Serde := Serde.ofFrames (.response (.ok 10 "done") :: sampleFrames)
    AnyFrame.readAll (sampleFrames.map AnyFrame.kind ++ [.response])
      (AnyFrame.writeAll sampleFrames) =
        sampleFrames.map (fun f => .ok (some f)) ++ [.ok none] ∧
      firstAnswer (write_frame [] (Protocol.WorkerResponse.ok 10 "done")) = some (.ok "done") := by
  let _ : Host := Host.ascii true
  let _ : Serde := Serde.ofFrames (.response (.ok 10 "done") :: sampleFrames)
  exact (frames_read_back_iff sampleFrames .response 10 "done" (by decide +kernel)
    (by decide +kernel)).mpr (by decide +kernel)

/-- The worker answers `null`: the response comes back without a result, and the caller gets an
error. -/
theorem null_result_lost :
    letI : Host := Host.ascii true
    letI : Serde := Serde.ofFrames [.response (.ok 8 .null)]
    let frame : AnyFrame := .response (.ok 8 .null)
    Serde.parse frame.text = .ok frame.value ∧ '\n' ∉ frame.text.toList ∧
      AnyFrame.readAll [.response, .response] (AnyFrame.writeAll [frame]) ≠
        [.ok (some frame), .ok none] ∧
      firstAnswer (write_frame [] (Protocol.WorkerResponse.ok 8 .null)) =
        some (fail "worker error") := by
  decide +kernel

end ReverseMcp
