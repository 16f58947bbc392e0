import ReverseMcp.Rust.Hex
import ReverseMcp.Worker.Rules

/-!
# What an accepted rule pack holds

`rules::parse_rules_value` compiles the rules of a pack one after the other and stops at the first
that fails a check.  `Validated` is what the scans rely on: every rule of the input is in the pack,
under its own id and within the bounds.

The loop keeps `Loaded`, which has the pattern of a constant rule as the decoder reads it.  The
decoder takes a sign in front of a digit, so a pattern is what its text denotes exactly when the
text has none (`accepted_pack_validated_iff`).
-/

namespace ReverseMcp

open Rust

/-- The ids of the rules of a pack. -/
def RulePack.ids (pack : RulePack) : List String :=
  pack.constants.map ConstantRule.id ++ (pack.strings.map StringRule.id ++
    pack.api_hashes.map ApiHashRule.id)

namespace Rules

/-! ## What the scans rely on -/

/-- The rules of the input. -/
def inputRules (v : Json) : List Json := ((v.idx "rules").asArray).getD []

/-- The rules of one kind, in their order. -/
def ofKind (kind : String) (rules : List Json) : List Json :=
  rules.filter fun rule => field rule "kind" = kind

/-- `[A-Za-z0-9_.:-]{1,128}`. -/
structure IsRuleId (id : String) : Prop where
  pos : 1 ≤ id.toList.length
  le : id.toList.length ≤ 128
  chars : ∀ c ∈ id.toList, c.isAlphanum ∨ c ∈ ['_', '.', ':', '-']

/-- The text of a pattern, without whitespace. -/
def patternText (rule : Json) : List Char :=
  (field rule "hex").toList.filter fun c => !isWhitespace c

/-- A constant rule as its input has it. -/
structure IsConstant (rule : Json) (r : ConstantRule) : Prop where
  id : r.id = field rule "id"
  denoted : hexValue (patternText rule) = some r.bytes
  pos : 1 ≤ r.bytes.length
  le : r.bytes.length ≤ 4096

/-- A string rule as its input has it. -/
structure IsString (rule : Json) (r : StringRule) : Prop where
  id : r.id = field rule "id"
  literal : rule.idx "literal" = .string r.literal
  pos : 1 ≤ byteLen r.literal.toList
  le : byteLen r.literal.toList ≤ 1024
  printable : ∀ c ∈ r.literal.toList, isControl c → c = '\t'

/-- A hash rule as its input has it. -/
structure IsApiHash (algos : List String) (rule : Json) (r : ApiHashRule) : Prop where
  id : r.id = field rule "id"
  algo : r.algo = field rule "algo"
  registered : r.algo ∈ algos
  candidates : r.candidates = (((rule.idx "candidates").asArray).getD []).filterMap Json.asStr
  pos : 1 ≤ r.candidates.length
  le : r.candidates.length ≤ 256

/-- The pack is exactly the rules of the input, each kind in its order, and within the bounds. -/
structure Validated (algos : List String) (rules : List Json) (pack : RulePack) : Prop where
  count : rules.length ≤ 10000
  nodup : pack.ids.Nodup
  ids : ∀ id ∈ pack.ids, IsRuleId id
  kinds : ∀ rule ∈ rules, field rule "kind" ∈ ["constant", "string", "api_hash"]
  constants : List.Forall₂ IsConstant (ofKind "constant" rules) pack.constants
  strings : List.Forall₂ IsString (ofKind "string" rules) pack.strings
  api_hashes : List.Forall₂ (IsApiHash algos) (ofKind "api_hash" rules) pack.api_hashes

/-! ## Single rules -/

lemma length_le_byteLen (cs : List Char) : cs.length ≤ byteLen cs := by
  induction cs with
  | nil => exact Nat.zero_le _
  | cons c cs ih =>
    have hpos := c.utf8Size_pos
    rw [byteLen_cons, List.length_cons]
    omega

lemma isRuleId_of_valid {id : String} (h : valid_rule_id id = true) : IsRuleId id := by
  simp only [valid_rule_id, Bool.and_eq_true, decide_eq_true_eq, List.all_eq_true,
    Bool.or_eq_true] at h
  obtain ⟨⟨hne, hlen⟩, hchars⟩ := h
  refine ⟨List.length_pos_iff.mpr fun hnil => hne ?_, (length_le_byteLen _).trans hlen, hchars⟩
  exact String.toList_injective hnil

/-- A constant rule as the decoder reads it. -/
structure IsDecoded (rule : Json) (r : ConstantRule) : Prop where
  id : r.id = field rule "id"
  decoded : decodePairs (patternText rule) = .ok r.bytes
  pos : 1 ≤ r.bytes.length
  le : r.bytes.length ≤ 4096

/-- The decoder's reading is what the text denotes when it has no sign. -/
lemma IsDecoded.isConstant_iff {rule : Json} {r : ConstantRule} (h : IsDecoded rule r) :
    IsConstant rule r ↔ Unsigned (patternText rule) := by
  rw [← decodePairs_denotes h.decoded]
  exact ⟨fun hc => hc.denoted, fun hd => ⟨h.id, hd, h.pos, h.le⟩⟩

lemma decodeEven_eq_some {cs : List Char} {bs : List U8} (h : decodeEven cs = .ok (some bs)) :
    decodePairs cs = .ok bs := by
  rw [decodeEven] at h
  split at h
  · split at h <;> simp_all
  · cases h

section SingleRule

variable {pack_file : String} {line : ℕ} {algos : List String} {id : String} {rule : Json}

lemma parse_constant_spec {r : ConstantRule} (hid : field rule "id" = id)
    (h : parse_constant pack_file line id rule = .ok r) : IsDecoded rule r := by
  simp only [parse_constant, Outcome.bind_eq_ok, Outcome.ofOption_eq_ok, failIf_eq_ok] at h
  obtain ⟨decoded, hdecoded, bs, rfl, _, hlen, hr⟩ := h
  cases hr
  have hpos : bs ≠ [] := fun hnil => hlen (Or.inl hnil)
  exact ⟨hid.symm, decodeEven_eq_some hdecoded, List.length_pos_iff.mpr hpos,
    Nat.le_of_not_lt fun hlt => hlen (Or.inr hlt)⟩

lemma parse_string_spec {r : StringRule} (hid : field rule "id" = id)
    (h : parse_string pack_file line id rule = .ok r) : IsString rule r := by
  simp only [parse_string, Outcome.bind_eq_ok, Outcome.ofOption_eq_ok, failIf_eq_ok] at h
  obtain ⟨lit, hlit, _, hlen, _, hcontrol, hr⟩ := h
  cases hr
  have hliteral : rule.idx "literal" = .string lit := by
    cases hv : rule.idx "literal" <;> simp_all [Json.asStr]
  have hpos : 0 < lit.toList.length :=
    List.length_pos_iff.mpr fun hnil => hlen (Or.inl (String.toList_injective hnil))
  refine ⟨hid.symm, hliteral, hpos.trans_le (length_le_byteLen _),
    Nat.le_of_not_lt fun hlt => hlen (Or.inr hlt), fun c hc hctl => ?_⟩
  by_contra htab
  exact hcontrol (List.any_eq_true.mpr ⟨c, hc, by simp [hctl, htab]⟩)

lemma parse_api_hash_spec {r : ApiHashRule} (hid : field rule "id" = id)
    (h : parse_api_hash pack_file line id rule algos = .ok r) : IsApiHash algos rule r := by
  simp only [parse_api_hash, Outcome.bind_eq_ok, failIf_eq_ok] at h
  obtain ⟨_, halgo, _, hlen, hr⟩ := h
  cases hr
  exact ⟨hid.symm, rfl, not_not.mp halgo, rfl,
    List.length_pos_iff.mpr fun hnil => hlen (Or.inl hnil),
    Nat.le_of_not_lt fun hlt => hlen (Or.inr hlt)⟩

end SingleRule

/-! ## The loop -/

/-- What the rounds of the loop keep for the rules dealt with so far. -/
structure Loaded (algos : List String) (rules : List Json) (seen : Std.ExtTreeSet String)
    (pack : RulePack) : Prop where
  seen : ∀ id, id ∈ seen ↔ id ∈ pack.ids
  nodup : pack.ids.Nodup
  ids : ∀ id ∈ pack.ids, IsRuleId id
  kinds : ∀ rule ∈ rules, field rule "kind" ∈ ["constant", "string", "api_hash"]
  constants : List.Forall₂ IsDecoded (ofKind "constant" rules) pack.constants
  strings : List.Forall₂ IsString (ofKind "string" rules) pack.strings
  api_hashes : List.Forall₂ (IsApiHash algos) (ofKind "api_hash" rules) pack.api_hashes

/-- One more rule of a kind. -/
lemma forall₂_ofKind {α : Type} {R : Json → α → Prop} {kind : String} {rules : List Json}
    {rule : Json} {out : List α} (h : List.Forall₂ R (ofKind kind rules) out)
    (hkind : field rule "kind" = kind) {r : α} (hr : R rule r) :
    List.Forall₂ R (ofKind kind (rules ++ [rule])) (out ++ [r]) := by
  have hlast : ofKind kind (rules ++ [rule]) = ofKind kind rules ++ [rule] := by
    simp [ofKind, List.filter_append, hkind]
  rw [hlast]
  exact List.rel_append h (.cons hr .nil)

/-- A rule of another kind. -/
lemma ofKind_skip {kind : String} {rules : List Json} {rule : Json}
    (hkind : field rule "kind" ≠ kind) : ofKind kind (rules ++ [rule]) = ofKind kind rules := by
  simp [ofKind, List.filter_append, hkind]

section Loop

variable {pack_file : String} {algos : List String} {rules : List Json}
  {seen : Std.ExtTreeSet String} {pack pack' : RulePack} {rule : Json}

/-- A rule with a new id is added to one of the three lists. -/
lemma Loaded.add (h : Loaded algos rules seen pack)
    (hvalid : valid_rule_id (field rule "id") = true)
    (hfresh : field rule "id" ∉ seen) (hids : pack'.ids.Perm (field rule "id" :: pack.ids))
    (hkind : field rule "kind" ∈ ["constant", "string", "api_hash"])
    (hconstants : List.Forall₂ IsDecoded (ofKind "constant" (rules ++ [rule])) pack'.constants)
    (hstrings : List.Forall₂ IsString (ofKind "string" (rules ++ [rule])) pack'.strings)
    (hhashes : List.Forall₂ (IsApiHash algos)
      (ofKind "api_hash" (rules ++ [rule])) pack'.api_hashes) :
    Loaded algos (rules ++ [rule]) (seen.insert (field rule "id")) pack' where
  seen id := by
    rw [hids.mem_iff, List.mem_cons, ← h.seen id, Std.ExtTreeSet.mem_insert,
      Std.LawfulEqOrd.compare_eq_iff_eq, eq_comm]
  nodup := by
    rw [hids.nodup_iff, List.nodup_cons]
    exact ⟨fun hmem => hfresh ((h.seen _).mpr hmem), h.nodup⟩
  ids id hid := by
    rcases List.mem_cons.mp (hids.mem_iff.mp hid) with rfl | hid
    · exact isRuleId_of_valid hvalid
    · exact h.ids id hid
  kinds r hr := by
    rcases List.mem_append.mp hr with hr | hr
    · exact h.kinds r hr
    · rwa [List.mem_singleton.mp hr]
  constants := hconstants
  strings := hstrings
  api_hashes := hhashes

/-- One round. -/
lemma Loaded.round {i : ℕ} {acc : Std.ExtTreeSet String × RulePack}
    (h : Loaded algos rules seen pack)
    (hok : parse_rule pack_file algos (seen, pack) (rule, i) = .ok acc) :
    Loaded algos (rules ++ [rule]) acc.1 acc.2 := by
  simp only [parse_rule, Outcome.bind_eq_ok, failIf_eq_ok, Bool.not_eq_false] at hok
  obtain ⟨_, hvalid, _, hfresh, hok⟩ := hok
  split at hok
  · rename_i hkind
    -- a constant: its list grows by the rule, the others see a rule of another kind
    obtain ⟨r, hr, hok⟩ := Outcome.bind_eq_ok.mp hok
    cases hok
    have hspec := parse_constant_spec rfl hr
    refine h.add hvalid hfresh ?_ (by simp [hkind]) (forall₂_ofKind h.constants hkind hspec) ?_ ?_
    · simp only [RulePack.ids, List.map_append, List.map_cons, List.map_nil, hspec.id]
      rw [List.append_assoc, List.singleton_append]
      exact List.perm_middle
    · rw [ofKind_skip (by simp [hkind])]
      exact h.strings
    · rw [ofKind_skip (by simp [hkind])]
      exact h.api_hashes
  · rename_i hkind
    obtain ⟨r, hr, hok⟩ := Outcome.bind_eq_ok.mp hok
    cases hok
    have hspec := parse_string_spec rfl hr
    refine h.add hvalid hfresh ?_ (by simp [hkind]) ?_ (forall₂_ofKind h.strings hkind hspec) ?_
    · simp only [RulePack.ids, List.map_append, List.map_cons, List.map_nil, hspec.id]
      rw [List.append_assoc, List.singleton_append, ← List.append_assoc, ← List.append_assoc]
      exact List.perm_middle
    · rw [ofKind_skip (by simp [hkind])]
      exact h.constants
    · rw [ofKind_skip (by simp [hkind])]
      exact h.api_hashes
  · rename_i hkind
    obtain ⟨r, hr, hok⟩ := Outcome.bind_eq_ok.mp hok
    cases hok
    have hspec := parse_api_hash_spec rfl hr
    refine h.add hvalid hfresh ?_ (by simp [hkind]) ?_ ?_ (forall₂_ofKind h.api_hashes hkind hspec)
    · simp only [RulePack.ids, List.map_append, List.map_cons, List.map_nil, hspec.id]
      simp only [← List.append_assoc]
      exact List.perm_append_singleton _ _
    · rw [ofKind_skip (by simp [hkind])]
      exact h.constants
    · rw [ofKind_skip (by simp [hkind])]
      exact h.strings
  · cases hok

end Loop

/-- An accepted pack went through all rounds. -/
lemma parse_rules_value_loaded {pack_file : String} {v : Json} {algos : List String}
    {pack : RulePack} (h : parse_rules_value pack_file v algos = .ok pack) :
    (inputRules v).length ≤ 10000 ∧ ∃ seen, Loaded algos (inputRules v) seen pack := by
  simp only [parse_rules_value, Outcome.bind_eq_ok, Outcome.ofOption_eq_ok, failIf_eq_ok] at h
  obtain ⟨_, _, name, _, rules, hrules, _, hcount, ⟨seen, pack'⟩, hloop, hpack⟩ := h
  obtain rfl : pack' = pack := Outcome.ok.inj hpack
  have hinput : inputRules v = rules := by rw [inputRules, hrules]; rfl
  rw [hinput]
  refine ⟨Nat.le_of_not_lt hcount, seen, ?_⟩
  have hloaded : Loaded algos (rules.zipIdx.map Prod.fst) seen pack' := by
    -- the rounds carry the invariant from no rules to all of them
    refine Outcome.foldList_invariant
      (I := fun front acc => Loaded algos (front.map Prod.fst) acc.1 acc.2) hloop ?_ ?_
    · exact ⟨by simp [RulePack.ids], .nil, by simp [RulePack.ids], by simp, .nil, .nil, .nil⟩
    · intro front entry acc acc' hacc hround
      rw [List.map_append]
      exact hacc.round hround
  rwa [List.zipIdx_map_fst] at hloaded

/-- The patterns are what their texts denote when none of the texts has a sign. -/
lemma isConstant_iff_unsigned {rules : List Json} {out : List ConstantRule}
    (h : List.Forall₂ IsDecoded rules out) :
    List.Forall₂ IsConstant rules out ↔ ∀ rule ∈ rules, Unsigned (patternText rule) := by
  induction h with
  | nil => simp
  | cons hr _ ih => rw [List.forall₂_cons, List.forall_mem_cons, hr.isConstant_iff, ih]

/-- An accepted pack is validated exactly when the pattern of no constant rule has a sign in it. -/
theorem accepted_pack_validated_iff {pack_file : String} {v : Json} {algos : List String}
    {pack : RulePack} (h : parse_rules_value pack_file v algos = .ok pack) :
    Validated algos (inputRules v) pack ↔
      ∀ rule ∈ ofKind "constant" (inputRules v), Unsigned (patternText rule) := by
  obtain ⟨hcount, seen, hloaded⟩ := parse_rules_value_loaded h
  rw [← isConstant_iff_unsigned hloaded.constants]
  exact ⟨fun hv => hv.constants, fun hc => ⟨hcount, hloaded.nodup, hloaded.ids, hloaded.kinds, hc,
    hloaded.strings, hloaded.api_hashes⟩⟩

/-- A pack with these rules. -/
def packJson (rules : List Json) : Json :=
  .object [("format", .nat 1), ("name", "sample"), ("rules", .array rules)]

/-- A pack with a rule of each kind. -/
theorem accepted_pack_validated_iff_sample :
    let v := packJson [
      .object [("kind", "constant"), ("id", "c1"), ("hex", "63 7c")],
      .object [("kind", "string"), ("id", "s1"), ("literal", "SUCCESS")],
      .object [("kind", "api_hash"), ("id", "h1"), ("algo", "crc32"),
        ("candidates", .strings ["LoadLibraryA"])]]
    ∃ pack, parse_rules_value "t.json" v ["crc32"] = .ok pack ∧
      Validated ["crc32"] (inputRules v) pack := by
  intro v
  obtain ⟨pack, hok⟩ : ∃ pack, parse_rules_value "t.json" v ["crc32"] = .ok pack := ⟨_, rfl⟩
  exact ⟨pack, hok, (accepted_pack_validated_iff hok).mpr (by decide)⟩

/-- The text `+5` is accepted as a pattern of one byte. -/
theorem accepted_pack_not_validated :
    let v := packJson [.object [("kind", "constant"), ("id", "c1"), ("hex", "+5")]]
    ∃ pack, parse_rules_value "t.json" v ["crc32"] = .ok pack ∧
    pack.constants.map (·.bytes) = [[5]] ∧
      ¬Validated ["crc32"] (inputRules v) pack := by
  intro v
  refine ⟨_, rfl, rfl, fun h => ?_⟩
  obtain ⟨hrule, -⟩ := List.forall₂_cons.mp h.constants
  exact absurd hrule.denoted (by decide)

end Rules

end ReverseMcp
