import CernityNdr.Detectors.Replay
import CernityNdr.Framework.Affix
import CernityNdr.Framework.Joining
import CernityNdr.Framework.Number

/-! # Flow Identities

    What `_flow_identity` of `behavioral-detectors/app.py` tells apart. A
    record is decided by one of three tiers; each joins the fields it uses by
    `|`, and the last one hashes the text.

    * `flowIdentity_eq`: the identity of a record of texts by its fields.
    * `flow_identity_holds`: which records have one identity, and which do
      not. -/

namespace Behavioral

/-! ### The fields of a record -/

/-- The text of a member; a member that is absent is empty. -/
def textOf (d : Json.Dict) (key : String) : String :=
  match d.get? key with
  | some (.str s) => s
  | _ => ""

def IsText (d : Json.Dict) (key : String) : Prop :=
  d.get? key = none ∨ ∃ s, d.get? key = some (.str s)

/-- A flow record whose `flow_id` is absent or an integer, and whose other
    fields are absent or texts. -/
structure Textual (e f : Json.Dict) : Prop where
  flowId : e.get? "flow_id" = none ∨ ∃ n, e.get? "flow_id" = some (.int n)
  texts : ∀ key ∈ ["host", "sensor_id", "community_id", "src_ip", "src_port", "dest_ip",
    "dest_port", "proto", "timestamp"], IsText e key
  start : IsText f "start"

/-- The fields that an identity can be made of. -/
structure FlowFields where
  sensor : String
  flowId : Option Int
  communityId : String
  srcIp : String
  srcPort : String
  destIp : String
  destPort : String
  proto : String
  start : String
  timestamp : String

def fieldsOfRecord (e f : Json.Dict) : FlowFields where
  sensor := if textOf e "host" = "" then textOf e "sensor_id" else textOf e "host"
  flowId := match e.get? "flow_id" with
    | some (.int n) => some n
    | _ => none
  communityId := textOf e "community_id"
  srcIp := textOf e "src_ip"
  srcPort := textOf e "src_port"
  destIp := textOf e "dest_ip"
  destPort := textOf e "dest_port"
  proto := textOf e "proto"
  start := textOf f "start"
  timestamp := textOf e "timestamp"

/-! ### Tiers -/

inductive Tier where
  | flowId
  | communityId
  | digest
  deriving DecidableEq

namespace FlowFields

/-- The start of the flow, else the time at which its record was emitted. -/
def started (x : FlowFields) : String := if x.start = "" then x.timestamp else x.start

/-- The tier that decides. -/
def tier (x : FlowFields) : Tier :=
  if x.sensor ≠ "" ∧ x.flowId.isSome then .flowId
  else if x.communityId ≠ "" then .communityId
  else .digest

/-- The texts that the tier uses beside the flow id. -/
def used (x : FlowFields) : List String :=
  match x.tier with
  | .flowId => [x.sensor]
  | .communityId => [x.sensor, x.communityId, x.started]
  | .digest => [x.sensor, x.srcIp, x.srcPort, x.destIp, x.destPort, x.proto, x.started]

def flowIdText (x : FlowFields) : String := (x.flowId.map fun n => String.ofList (Json.intText n)).getD ""

/-- The fields of the tier, joined. -/
def joined (x : FlowFields) : String := String.intercalate "|" (x.used ++ [x.flowIdText])

/-- The identity of these fields. -/
def identity (sha1Hex : String → String) (x : FlowFields) : String :=
  match x.tier with
  | .flowId => "s|" ++ x.joined
  | .communityId => "c|" ++ x.joined
  | .digest => "x|" ++ String.ofList ((sha1Hex x.joined).toList.take 20)

/-- No text that the tier uses has the delimiter. -/
def Undelimited (x : FlowFields) : Prop := ∀ s ∈ x.used, '|' ∉ s.toList

/-- The fields agree, the time of emission apart. -/
def SameFlow (x y : FlowFields) : Prop := x = { y with timestamp := x.timestamp }

end FlowFields

/-! ### The identity of a record -/

section Record

variable {env : Env} {e f d d' : Json.Dict} {key key' : String}

theorem get_of_isText (h : IsText d key) :
    (d.get key = .null ∧ textOf d key = "") ∨ d.get key = .str (textOf d key) := by
  rcases h with hnone | ⟨s, hs⟩
  · exact Or.inl ⟨by simp [Json.Dict.get, hnone], by simp [textOf, hnone]⟩
  · exact Or.inr (by simp [Json.Dict.get, textOf, hs])

theorem truthy_of_isText (h : IsText d key) : (d.get key).truthy = decide (textOf d key ≠ "") := by
  rcases get_of_isText h with ⟨hget, htext⟩ | hget
  · simp [hget, htext, Json.truthy]
  · simp [hget, Json.truthy]

theorem getD_of_isText (h : IsText d key) : getD d key (.str "") = .str (textOf d key) := by
  rcases h with hnone | ⟨s, hs⟩
  · simp [getD, textOf, hnone]
  · simp [getD, textOf, hs]

/-- `d.get(key) or d'.get(key') or ""`. -/
theorem or_of_isText (h : IsText d key) (h' : IsText d' key') :
    ((d.get key).or (d'.get key')).or (.str "") =
      .str (if textOf d key = "" then textOf d' key' else textOf d key) := by
  by_cases hempty : textOf d key = ""
  · have hfalse : (d.get key).truthy = false := by simp [truthy_of_isText h, hempty]
    rw [if_pos hempty, Json.or, Json.or, hfalse]
    simp only [Bool.false_eq_true, if_false, truthy_of_isText h', decide_eq_true_eq]
    split
    · next hne =>
      rcases get_of_isText h' with ⟨-, htext⟩ | hget
      · exact absurd htext hne
      · exact hget
    · next heq => rw [not_not.mp heq]
  · have htrue : (d.get key).truthy = true := by simp [truthy_of_isText h, hempty]
    have hget : d.get key = .str (textOf d key) := by
      rcases get_of_isText h with ⟨-, htext⟩ | hget
      · exact absurd htext hempty
      · exact hget
    rw [if_neg hempty, Json.or, Json.or, if_pos htrue, if_pos htrue, hget]

theorem str_of_truthy (h : IsText d key) (hne : textOf d key ≠ "") :
    env.str (d.get key) = textOf d key := by
  rcases get_of_isText h with ⟨-, htext⟩ | hget
  · exact absurd htext hne
  · rw [hget]
    rfl

/-- The flow id: whether there is one, and its text. -/
theorem flowId_of_textual (env : Env) (h : Textual e f) :
    (e.get "flow_id").beq .null = (fieldsOfRecord e f).flowId.isNone ∧
      (if (fieldsOfRecord e f).flowId.isNone then "" else env.str (e.get "flow_id")) =
        (fieldsOfRecord e f).flowIdText := by
  rcases h.flowId with hnone | ⟨n, hn⟩
  · simp [Json.Dict.get, fieldsOfRecord, FlowFields.flowIdText, hnone, Json.beq]
  · simp [Json.Dict.get, fieldsOfRecord, FlowFields.flowIdText, hn, Json.beq, Env.str]

/-- What `_flow_identity` computes for a record of texts. -/
theorem flowIdentity_eq (h : Textual e f) :
    flowIdentity env e f = (fieldsOfRecord e f).identity env.sha1Hex := by
  have htext : ∀ key ∈ _, IsText e key := h.texts
  have hcid := htext "community_id" (by simp)
  obtain ⟨hnone, hfid⟩ := flowId_of_textual env h
  have hsensor : ((e.get "host").or (e.get "sensor_id")).or (.str "") =
      .str (fieldsOfRecord e f).sensor :=
    or_of_isText (htext "host" (by simp)) (htext "sensor_id" (by simp))
  have hstarted : ((f.get "start").or (e.get "timestamp")).or (.str "") =
      .str (fieldsOfRecord e f).started :=
    or_of_isText h.start (htext "timestamp" (by simp))
  have hstr : ∀ s : String, env.str (.str s) = s := fun _ => rfl
  have hfirst : ((Json.str (fieldsOfRecord e f).sensor).truthy &&
      !(fieldsOfRecord e f).flowId.isNone) = true ↔
      (fieldsOfRecord e f).sensor ≠ "" ∧ (fieldsOfRecord e f).flowId.isSome = true := by
    cases (fieldsOfRecord e f).flowId <;> simp [Json.truthy]
  have hsecond : (e.get "community_id").truthy = true ↔ (fieldsOfRecord e f).communityId ≠ "" := by
    rw [truthy_of_isText hcid]
    exact decide_eq_true_iff
  unfold flowIdentity FlowFields.identity FlowFields.joined FlowFields.used FlowFields.tier
  simp only [hsensor, hstarted, hnone, hfid, hstr]
  by_cases h1 : (fieldsOfRecord e f).sensor ≠ "" ∧ (fieldsOfRecord e f).flowId.isSome = true
  · rw [if_pos (hfirst.mpr h1), if_pos h1]
    change _ = "s|" ++ ((fieldsOfRecord e f).sensor ++ "|" ++ (fieldsOfRecord e f).flowIdText)
    simp only [String.append_assoc]
  · rw [if_neg (fun hc => h1 (hfirst.mp hc)), if_neg h1]
    by_cases h2 : (fieldsOfRecord e f).communityId ≠ ""
    · rw [if_pos (hsecond.mpr h2), if_pos h2, str_of_truthy hcid h2]
      change _ = "c|" ++ ((fieldsOfRecord e f).sensor ++ "|" ++ textOf e "community_id" ++ "|" ++
        (fieldsOfRecord e f).started ++ "|" ++ (fieldsOfRecord e f).flowIdText)
      simp only [String.append_assoc]
    · rw [if_neg (fun hc => h2 (hsecond.mp hc)), if_neg h2]
      rw [getD_of_isText (htext "src_ip" (by simp)), getD_of_isText (htext "src_port" (by simp)),
        getD_of_isText (htext "dest_ip" (by simp)), getD_of_isText (htext "dest_port" (by simp)),
        getD_of_isText (htext "proto" (by simp))]
      rfl

end Record

/-! ### What an identity tells apart -/

namespace FlowFields

variable {x y : FlowFields} {sha1Hex : String → String}

theorem joined_toList (x : FlowFields) : x.joined.toList =
    ['|'].intercalate (x.used.map String.toList ++ [x.flowIdText.toList]) := by
  rw [joined, String.toList_intercalate]
  simp

theorem flowIdText_injective (h : x.flowIdText = y.flowIdText) : x.flowId = y.flowId := by
  have hne : ∀ n, String.ofList (Json.intText n) ≠ "" := by
    intro n hn
    have hnil : Json.intText n = [] := String.ofList_injective hn
    cases n with
    | ofNat n => exact Nat.toDigits_ne_nil hnil
    | negSucc n => cases hnil
  unfold flowIdText at h
  cases hx : x.flowId with
  | none =>
    cases hy : y.flowId with
    | none => rfl
    | some n =>
      rw [hx, hy] at h
      exact absurd h.symm (hne n)
  | some m =>
    cases hy : y.flowId with
    | none =>
      rw [hx, hy] at h
      exact absurd h (hne m)
    | some n =>
      rw [hx, hy] at h
      rw [Number.intText_injective (String.ofList_injective h)]

theorem pipe_notMem_flowIdText (x : FlowFields) : '|' ∉ x.flowIdText.toList := by
  unfold flowIdText
  cases x.flowId with
  | none => simp
  | some n =>
    rw [Option.map_some, Option.getD_some, String.toList_ofList]
    exact Number.notMem_intText (by decide) (by decide) n

/-- The fields of a tier, the flow id last. -/
def fields (x : FlowFields) : List (List Char) := x.used.map String.toList ++ [x.flowIdText.toList]

theorem length_fields (h : x.tier = y.tier) : x.fields.length = y.fields.length := by
  have hused : x.used.length = y.used.length := by
    unfold used
    rw [h]
    cases y.tier <;> rfl
  simp [fields, hused]

theorem fields_injective (h : x.fields = y.fields) : x.used = y.used ∧ x.flowId = y.flowId := by
  obtain ⟨hused, hid⟩ := List.append_inj' h rfl
  refine ⟨List.map_injective_iff.mpr (fun _ _ => String.toList_injective) hused, flowIdText_injective ?_⟩
  exact String.toList_injective (List.cons.inj hid).1

theorem pipe_notMem_fields (h : x.Undelimited) : ∀ l ∈ x.fields, '|' ∉ l := by
  intro l hl
  rcases List.mem_append.mp hl with hl | hl
  · obtain ⟨s, hs, rfl⟩ := List.mem_map.mp hl
    exact h s hs
  · rw [List.mem_singleton.mp hl]
    exact pipe_notMem_flowIdText x

/-- The joined texts of one tier have the same fields, unless the delimiter
    is in a text of both. A flow id has none, so behind it the sensor of the
    first tier is cut off right in any case. -/
theorem fields_of_joined_eq (htier : x.tier = y.tier)
    (hfree : x.tier = .flowId ∨ x.Undelimited ∨ y.Undelimited) (h : x.joined = y.joined) :
    x.used = y.used ∧ x.flowId = y.flowId := by
  have hlist := congrArg String.toList h
  rw [joined_toList, joined_toList] at hlist
  rcases hfree with hfirst | hx | hy
  · have hx : x.used = [x.sensor] := by simp [used, hfirst]
    have hy : y.used = [y.sensor] := by simp [used, ← htier, hfirst]
    rw [hx, hy] at hlist ⊢
    have hcut := congrArg (Affix.rpartition '|') hlist
    simp only [List.map_cons, List.map_nil, List.cons_append, List.nil_append,
      List.intercalate_cons_cons, List.intercalate_singleton, List.append_assoc] at hcut
    rw [Affix.rpartition_append (pipe_notMem_flowIdText x),
      Affix.rpartition_append (pipe_notMem_flowIdText y), Prod.mk.injEq] at hcut
    refine ⟨?_, flowIdText_injective (String.toList_injective hcut.2)⟩
    rw [String.toList_injective hcut.1]
  · exact fields_injective
      (Joining.intercalate_injective (length_fields htier) (pipe_notMem_fields hx) hlist)
  · exact fields_injective
      (Joining.intercalate_injective (length_fields htier.symm) (pipe_notMem_fields hy)
        hlist.symm).symm

/-- The texts that the identities of two records hash do not collide. -/
def NoCollision (sha1Hex : String → String) (x y : FlowFields) : Prop :=
  x.tier = .digest → y.tier = .digest →
    (sha1Hex x.joined).toList.take 20 = (sha1Hex y.joined).toList.take 20 → x.joined = y.joined

/-- Each tier has a letter of its own. -/
def letter : Tier → Char
  | .flowId => 's'
  | .communityId => 'c'
  | .digest => 'x'

theorem identity_letter (sha1Hex : String → String) (x : FlowFields) :
    ∃ rest, x.identity sha1Hex = String.ofList (letter x.tier :: rest) := by
  unfold identity
  cases x.tier
  · exact ⟨'|' :: x.joined.toList, String.toList_injective (by simp [letter])⟩
  · exact ⟨'|' :: x.joined.toList, String.toList_injective (by simp [letter])⟩
  · exact ⟨'|' :: (sha1Hex x.joined).toList.take 20, String.toList_injective (by simp [letter])⟩

theorem tier_of_identity_eq (h : x.identity sha1Hex = y.identity sha1Hex) : x.tier = y.tier := by
  obtain ⟨rest, hx⟩ := identity_letter sha1Hex x
  obtain ⟨rest', hy⟩ := identity_letter sha1Hex y
  rw [hx, hy] at h
  have hletter := (List.cons.inj (String.ofList_injective h)).1
  cases hxt : x.tier <;> cases hyt : y.tier <;> rw [hxt, hyt] at hletter <;>
    first | rfl | exact absurd hletter (by decide)

theorem joined_of_identity_eq (hhash : NoCollision sha1Hex x y)
    (h : x.identity sha1Hex = y.identity sha1Hex) : x.joined = y.joined := by
  have htier := tier_of_identity_eq h
  unfold identity at h
  rw [htier] at h
  cases hy : y.tier with
  | flowId =>
    simp only [hy] at h
    exact (String.append_right_inj _).mp h
  | communityId =>
    simp only [hy] at h
    exact (String.append_right_inj _).mp h
  | digest =>
    simp only [hy] at h
    exact hhash (htier.trans hy) hy (String.ofList_injective ((String.append_right_inj _).mp h))

theorem tier_of_sameFlow (h : SameFlow x y) : x.tier = y.tier := by
  rw [h]
  rfl

/-- The time of emission matters only where a tier falls back to it. -/
theorem identity_of_sameFlow (h : SameFlow x y)
    (hstart : x.tier = .flowId ∨ x.start ≠ "" ∨ x.timestamp = y.timestamp) :
    x.identity sha1Hex = y.identity sha1Hex := by
  have htier := tier_of_sameFlow h
  have hid : x.flowIdText = y.flowIdText := by
    rw [h]
    rfl
  have hstarted : x.tier = .flowId ∨ x.started = y.started := by
    rcases hstart with hfirst | hne | heq
    · exact Or.inl hfirst
    · have hsame : x.start = y.start := by rw [h]
      refine Or.inr ?_
      rw [started, started, if_neg hne, if_neg (hsame ▸ hne), hsame]
    · refine Or.inr ?_
      rw [h, heq]
  have hused : x.used = y.used := by
    unfold used
    rw [htier]
    rcases hstarted with hfirst | hstarted
    · rw [← htier, hfirst]
      rw [h]
    · rw [hstarted, h]
  unfold identity joined
  rw [htier, hused, hid]

end FlowFields

/-- Two records of one flow have one identity, whatever the times of their
    emission, if the start of the flow is there or the flow id decides.
    Records have different identities when different tiers decide, or one
    with different fields; the delimiter is to be in the texts of one of them
    at most, unless the flow id decides. -/
theorem flow_identity_holds (env : Env) (e f e' f' : Json.Dict) (h : Textual e f)
    (h' : Textual e' f')
    (hhash : FlowFields.NoCollision env.sha1Hex (fieldsOfRecord e f) (fieldsOfRecord e' f')) :
    let x := fieldsOfRecord e f
    let y := fieldsOfRecord e' f'
    (x.SameFlow y → (x.tier = .flowId ∨ x.start ≠ "" ∨ x.timestamp = y.timestamp) →
      flowIdentity env e f = flowIdentity env e' f') ∧
    (x.tier ≠ y.tier → flowIdentity env e f ≠ flowIdentity env e' f') ∧
    (x.tier = y.tier → (x.used ≠ y.used ∨ x.flowId ≠ y.flowId) →
      (x.tier = .flowId ∨ x.Undelimited ∨ y.Undelimited) →
      flowIdentity env e f ≠ flowIdentity env e' f') := by
  intro x y
  rw [flowIdentity_eq h, flowIdentity_eq h']
  refine ⟨FlowFields.identity_of_sameFlow, ?_, ?_⟩
  · intro hne heq
    exact hne (FlowFields.tier_of_identity_eq heq)
  · intro htier hfields hfree heq
    obtain ⟨hused, hid⟩ := FlowFields.fields_of_joined_eq htier hfree
      (FlowFields.joined_of_identity_eq hhash heq)
    exact hfields.elim (fun hne => hne hused) fun hne => hne hid

/-- A record of a community without a start. -/
def communityRecord (timestamp : String) : Json.Dict :=
  [("event_type", .str "flow"), ("community_id", .str "1:a="), ("timestamp", .str timestamp)]

/-- A record of a 5-tuple without ids. -/
def tupleRecord (port : String) : Json.Dict :=
  [("src_ip", .str "10.0.0.11"), ("src_port", .str port), ("dest_ip", .str "203.0.113.9"),
    ("dest_port", .str "443"), ("proto", .str "TCP"), ("timestamp", .str "10:00")]

/-- The two digests that the witness needs. -/
def shaEnv : Env :=
  { labEnv with
    sha1Hex := fun raw =>
      if raw = "|10.0.0.11|5001|203.0.113.9|443|TCP|10:00|" then
        "387b3e2f839177d80df49491a020d120c2672c15"
      else "3ccde6910cca469571320d2e994cd0cb4d0a9388" }

theorem textual_of_texts {e : Json.Dict} (hid : e.get? "flow_id" = none)
    (h : ∀ m ∈ e, ∃ s, m.2 = .str s) : Textual e [] where
  flowId := Or.inl hid
  texts := by
    intro key _
    cases hget : e.get? key with
    | none => exact Or.inl hget
    | some v =>
      obtain ⟨m, hm, rfl⟩ := Option.map_eq_some_iff.mp hget
      obtain ⟨s, hs⟩ := h m (List.mem_reverse.mp (List.mem_of_find?_eq_some hm))
      exact Or.inr ⟨s, by rw [hget, hs]⟩
  start := Or.inl rfl

theorem textual_communityRecord (timestamp : String) : Textual (communityRecord timestamp) [] :=
  textual_of_texts rfl (by simp [communityRecord])

theorem textual_tupleRecord (port : String) : Textual (tupleRecord port) [] :=
  textual_of_texts rfl (by simp [tupleRecord])

theorem flow_identity_ports :
    let x := fieldsOfRecord (tupleRecord "5001") []
    let y := fieldsOfRecord (tupleRecord "5002") []
    (x.SameFlow y → (x.tier = .flowId ∨ x.start ≠ "" ∨ x.timestamp = y.timestamp) →
      flowIdentity shaEnv (tupleRecord "5001") [] = flowIdentity shaEnv (tupleRecord "5002") []) ∧
    (x.tier ≠ y.tier →
      flowIdentity shaEnv (tupleRecord "5001") [] ≠ flowIdentity shaEnv (tupleRecord "5002") []) ∧
    (x.tier = y.tier → (x.used ≠ y.used ∨ x.flowId ≠ y.flowId) →
      (x.tier = .flowId ∨ x.Undelimited ∨ y.Undelimited) →
      flowIdentity shaEnv (tupleRecord "5001") [] ≠ flowIdentity shaEnv (tupleRecord "5002") []) :=
  flow_identity_holds shaEnv _ _ _ _ (textual_tupleRecord _) (textual_tupleRecord _) (by
    intro _ _ hhash
    exact absurd hhash (by decide))

/-- Two records of one flow without a start, emitted at two times. -/
theorem emission_splits_flow :
    (fieldsOfRecord (communityRecord "10:00") []).SameFlow
        (fieldsOfRecord (communityRecord "10:05") []) ∧
      flowIdentity labEnv (communityRecord "10:00") [] ≠
        flowIdentity labEnv (communityRecord "10:05") [] := by
  refine ⟨rfl, ?_⟩
  rw [flowIdentity_eq (textual_communityRecord _), flowIdentity_eq (textual_communityRecord _)]
  decide

end Behavioral
