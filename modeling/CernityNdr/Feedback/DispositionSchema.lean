import CernityNdr.Case.Verdicts
import CernityNdr.Finding.QualityCache
import CernityNdr.Framework.Schema

/-! # The Schema of Dispositions

    `contracts/disposition.schema.json` (disposition.v1) as the router of
    `feedback-service/router.py` applies it: with the format check
    `valid_timestamp`.

    What the interpreter makes of a date (`fromisoformat`), and the capitals
    that it has for a text, are parameters.

    * `dispositionV1_iff`: when a record that names all fields is valid. -/

namespace FeedbackService

open Json (Dict)
open JsonSchema
open QualityCache (isoText)

/-! ### Timestamps -/

/-- `\d`. -/
def isDecimal (c : Char) : Bool := (Text.decimalValue c).isSome

/-- `([Zz]|[+-]\d{2}:\d{2})`, the whole text. -/
def matchesOffset : List Char → Bool
  | [z] => z = 'Z' || z = 'z'
  | [sign, h₁, h₂, colon, m₁, m₂] =>
    (sign = '+' || sign = '-') && [h₁, h₂, m₁, m₂].all isDecimal && colon = ':'
  | _ => false

/-- `(\.\d+)?` and the offset. -/
def matchesFraction (cs : List Char) : Bool :=
  if cs.head? = some '.' then
    !(cs.tail.takeWhile isDecimal).isEmpty && matchesOffset (cs.tail.dropWhile isDecimal)
  else matchesOffset cs

/-- `$` also matches in front of a line break that ends the text. -/
def withoutBreak (cs : List Char) : List Char :=
  if cs.getLast? = some '\n' then cs.dropLast else cs

/-- `^\d{4}-\d{2}-\d{2}[Tt]\d{2}:\d{2}:\d{2}(\.\d+)?([Zz]|[+-]\d{2}:\d{2})$`. -/
def matchesTimestamp (s : String) : Bool :=
  match withoutBreak s.toList with
  | y₁ :: y₂ :: y₃ :: y₄ :: d₁ :: m₁ :: m₂ :: d₂ :: a :: b :: t :: h₁ :: h₂ :: c₁ :: i₁ :: i₂ ::
      c₂ :: s₁ :: s₂ :: rest =>
    [y₁, y₂, y₃, y₄, m₁, m₂, a, b, h₁, h₂, i₁, i₂, s₁, s₂].all isDecimal && d₁ = '-' &&
      d₂ = '-' && (t = 'T' || t = 't') && c₁ = ':' && c₂ = ':' && matchesFraction rest
  | _ => false

section Schema

variable {τ : Type} (upper : String → String) (fromisoformat : String → Option (Option τ))

/-- `valid_timestamp`. `fromisoformat` gives the instant of a text; `some none`
    is a moment without a zone. -/
def validTimestamp (value : Json) : Bool :=
  match value with
  | .str s => (fromisoformat (isoText (upper s))).join.isSome
  | _ => true

/-- The entity that a disposition is about. -/
def entitySchema : Schema := all
  [type [.object],
   noOthers ["type", "value"],
   required ["type", "value"],
   properties
     [("type", enum ["ip", "hostname", "domain", "asset"]),
      ("value", all [type [.string], minLength 1, maxLength 512, pattern Text.notBlank])]]

/-- disposition.v1. -/
def dispositionV1 : Schema := all
  [type [.object],
   noOthers ["finding_id", "entity", "verdict", "reason", "analyst", "tenant", "ts", "scope"],
   required ["finding_id", "entity", "verdict", "reason", "analyst", "ts", "scope"],
   properties
     [("finding_id", all [type [.string, .null], minLength 1, maxLength 256]),
      ("entity", entitySchema),
      ("verdict", enum ["true_positive", "false_positive", "benign", "allowlist"]),
      ("reason", all [type [.string], minLength 1, maxLength 4096, pattern Text.notBlank]),
      ("analyst", all [type [.string], minLength 1, maxLength 256]),
      ("tenant", all [type [.string], minLength 1, maxLength 256]),
      ("ts", all [type [.string], validTimestamp upper fromisoformat, pattern matchesTimestamp]),
      ("scope", enum ["finding", "entity", "tenant"])],
   all [ifThenElse (properties [("verdict", const "allowlist")])
     (properties [("scope", const "entity")])
     (properties [("finding_id", all [type [.string], pattern Text.notBlank])])]]

end Schema

/-! ### Records -/

section Records

open CaseApi

variable {τ : Type} {upper : String → String} {fromisoformat : String → Option (Option τ)}

theorem one_le_length {s : String} (h : Text.notBlank s = true) : 1 ≤ s.length := by
  obtain ⟨c, hc, -⟩ := List.any_eq_true.mp h
  rw [← String.length_toList]
  exact List.length_pos_of_mem hc

/-- An entity that the case API links is valid. -/
theorem entitySchema_of_linkable {x : Json} (h : LinkableEntity x) : entitySchema x = true := by
  obtain ⟨etype, hetype, value, ⟨hblank, hlength⟩, rfl | rfl⟩ := h
  all_goals
    have hpos := one_le_length hblank
    simpa [entitySchema, type, Kind.holds, noOthers, required, properties, Dict.get?, minLength,
      maxLength, pattern, hblank, hlength, hpos] using hetype

section Record

variable {findingId verdict tenant : String} {entity reason analyst ts : Json}

/-- The rule for the scope: an allowlist entry is about the entity. -/
theorem scopeRule_record (hfinding : Fits 256 findingId) :
    ifThenElse (properties [("verdict", const "allowlist")]) (properties [("scope", const "entity")])
      (properties [("finding_id", all [type [.string], pattern Text.notBlank])])
      (.obj (dispositionRecord (.str findingId) entity (.str verdict) reason analyst (.str tenant)
        ts)) = true := by
  have hverdict : Dict.get? (dispositionRecord (.str findingId) entity (.str verdict) reason analyst
      (.str tenant) ts) "verdict" = some (.str verdict) := rfl
  have hid : Dict.get? (dispositionRecord (.str findingId) entity (.str verdict) reason analyst
      (.str tenant) ts) "finding_id" = some (.str findingId) := rfl
  by_cases hallow : verdict = "allowlist"
  · subst hallow
    rfl
  · have hpattern : all [type [.string], pattern Text.notBlank] (.str findingId) = true :=
      (string_iff _).mpr ⟨findingId, rfl, by simp [pattern, hfinding.1]⟩
    simp [ifThenElse, properties, hverdict, hallow, hid, hpattern]

/-- The scope is one that the schema names. -/
theorem scopeText_record (findingId entity reason analyst tenant ts : Json) :
    ∃ scope, Dict.get? (dispositionRecord findingId entity (.str verdict) reason analyst tenant ts)
      "scope" = some (.str scope) ∧ scope ∈ ["finding", "entity", "tenant"] := by
  refine ⟨_, rfl, ?_⟩
  split <;> simp

/-- Of a record that `case_dispositions` makes of a linkable case, the schema
    leaves open what nothing has checked. -/
theorem dispositionV1_iff (hfinding : Fits 256 findingId) (hentity : LinkableEntity entity)
    (hverdict : verdict ∈ CaseManagement.dispositionVerdicts) (htenant : Fits 256 tenant) :
    dispositionV1 upper fromisoformat (.obj (dispositionRecord (.str findingId) entity
        (.str verdict) reason analyst (.str tenant) ts)) = true ↔
      (∃ s, reason = .str s ∧ Fits 4096 s) ∧ (∃ s, analyst = .str s ∧ 1 ≤ s.length ∧ s.length ≤ 256) ∧
        ∃ s, ts = .str s ∧ matchesTimestamp s = true ∧
          validTimestamp upper fromisoformat (.str s) = true := by
  -- what the record has been given
  have hfindingSchema : all [type [.string, .null], minLength 1, maxLength 256] (.str findingId) =
      true := by
    simp [type, Kind.holds, minLength, maxLength, one_le_length hfinding.1, hfinding.2]
  have hentitySchema := entitySchema_of_linkable hentity
  have hverdictSchema : enum ["true_positive", "false_positive", "benign", "allowlist"]
      (.str verdict) = true := by
    simpa [CaseManagement.dispositionVerdicts] using hverdict
  have htenantSchema : all [type [.string], minLength 1, maxLength 256] (.str tenant) = true :=
    (text_iff 1 256 []).mpr ⟨tenant, rfl, one_le_length htenant.1, htenant.2, rfl⟩
  obtain ⟨scope, hscope, hscopes⟩ := @scopeText_record verdict (.str findingId) entity reason analyst
    (.str tenant) ts
  have hscopeSchema : enum ["finding", "entity", "tenant"] (.str scope) = true := by
    simpa using hscopes
  -- what is left open
  have hreason : all [type [.string], minLength 1, maxLength 4096, pattern Text.notBlank] reason =
      true ↔ ∃ s, reason = .str s ∧ Fits 4096 s := by
    rw [text_iff]
    refine exists_congr fun s => and_congr_right fun _ => ?_
    constructor
    · rintro ⟨-, hlength, hblank⟩
      exact ⟨by simpa [pattern] using hblank, hlength⟩
    · rintro ⟨hblank, hlength⟩
      exact ⟨one_le_length hblank, hlength, by simpa [pattern] using hblank⟩
  have hanalyst : all [type [.string], minLength 1, maxLength 256] analyst = true ↔
      ∃ s, analyst = .str s ∧ 1 ≤ s.length ∧ s.length ≤ 256 := by
    rw [text_iff]
    simp
  have hts : all [type [.string], validTimestamp upper fromisoformat, pattern matchesTimestamp] ts =
      true ↔ ∃ s, ts = .str s ∧ matchesTimestamp s = true ∧
        validTimestamp upper fromisoformat (.str s) = true := by
    rw [string_iff]
    simp [pattern, and_comm]
  rw [← hreason, ← hanalyst, ← hts, dispositionV1, all_cons, all_cons, all_cons, all_cons, all_cons,
    all_cons, scopeRule_record hfinding]
  generalize hrecord : dispositionRecord (.str findingId) entity (.str verdict) reason analyst
    (.str tenant) ts = r at hscope ⊢
  have hget : ∀ key v, (key, v) ∈ r → r.get? key = some v := by
    intro key v hmem
    exact (Dict.get?_eq_some (by simp [← hrecord, dispositionRecord])).mpr hmem
  have hmem : ∀ m ∈ [("finding_id", Json.str findingId), ("entity", entity), ("verdict", .str verdict),
      ("reason", reason), ("analyst", analyst), ("tenant", .str tenant), ("ts", ts)],
      r.get? m.1 = some m.2 := by
    intro m hm
    refine hget m.1 m.2 ?_
    rw [← hrecord]
    exact List.mem_append_left [_] hm
  simp only [List.forall_mem_cons] at hmem
  obtain ⟨h₁, h₂, h₃, h₄, h₅, h₆, h₇, -⟩ := hmem
  have htype : type [.object] (.obj r) = true := rfl
  have hothers : noOthers ["finding_id", "entity", "verdict", "reason", "analyst", "tenant", "ts",
      "scope"] (.obj r) = true := by
    simp [← hrecord, noOthers, dispositionRecord]
  have hrequired : required ["finding_id", "entity", "verdict", "reason", "analyst", "ts", "scope"]
      (.obj r) = true := by
    simp [required, h₁, h₂, h₃, h₄, h₅, h₇, hscope]
  simp only [htype, hothers, hrequired, properties, ofMembers_obj, List.all_cons, List.all_nil, h₁, h₂,
    h₃, h₄, h₅, h₆, h₇, hscope, Option.all_some, hfindingSchema, hentitySchema, hverdictSchema,
    htenantSchema, hscopeSchema, all_nil, Bool.true_and, Bool.and_true, Bool.and_eq_true]

end Record

end Records

end FeedbackService
