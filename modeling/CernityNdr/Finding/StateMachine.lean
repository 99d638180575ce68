import Mathlib.Tactic.NormNum
import CernityNdr.Framework.JsonText
import CernityNdr.Framework.Text

/-! # The Finding Lifecycle

    The model of `finding-service/state_machine.py`: a candidate is given an
    enrichment policy and a route (`build_finding`); an enrichment result or
    the lack of one takes the finding to its terminal state
    (`apply_enrichment_result`, `finalize_timeout`).

    A finding is one record from candidate to final document, as the
    dictionary of the source is; a member that may be missing is an
    `Option`. Timestamps have a type `τ` of their own, since a finding read
    back from the database carries them in another form than a live one. -/

namespace FindingService

/-! ### Findings -/

/-- `LIFECYCLE`. -/
inductive LifecycleState
  | candidate | scored | captureRequested | enriched | enrichmentFailed | suppressed | final
  deriving DecidableEq, Repr

inductive EnrichmentState
  | notRequired | required | pending | enriched | enrichmentFailed | timeout
  deriving DecidableEq, Repr

/-- A finding, at any stage of its life. -/
structure Finding (τ : Type) where
  findingId : String
  tenantId : Option String
  sensorIds : Option (List String)
  /-- the single sensor of an old producer -/
  sensorId : Option String
  detectorId : String
  detectorVersion : String
  category : String
  severity : Option Int
  confidence : ℚ
  firstSeen : Option τ
  lastSeen : Option τ
  /-- an array of entities, or the text of one -/
  entities : Option Json
  evidenceRefs : Option (List String)
  summary : Option Json
  iocs : Option Json
  sourceEvents : Option Json
  observationQuality : Option Json
  mitre : Option (List String)
  state : Option LifecycleState
  enrichmentState : Option EnrichmentState
  revision : Option Int
  captureJobIds : Option (List String)
  suppressionReason : Option String
  communityId : Option Json
  geo : Option Json
  intel : Option Json
  /-- only on a finding read back from the database -/
  ingestedAt : Option τ
  /-- members that no handler reads or writes -/
  others : Json.Dict

variable {τ : Type}

/-- A candidate with the members that the contract requires and no other. -/
def Finding.minimal (findingId : String) (tenantId : Option String) (detectorId category : String)
    (severity : Int) (confidence : ℚ) (seen : τ) : Finding τ where
  findingId := findingId
  tenantId := tenantId
  sensorIds := none
  sensorId := none
  detectorId := detectorId
  detectorVersion := "1.0"
  category := category
  severity := some severity
  confidence := confidence
  firstSeen := some seen
  lastSeen := some seen
  entities := none
  evidenceRefs := none
  summary := none
  iocs := none
  sourceEvents := none
  observationQuality := none
  mitre := none
  state := some .candidate
  enrichmentState := none
  revision := none
  captureJobIds := none
  suppressionReason := none
  communityId := none
  geo := none
  intel := none
  ingestedAt := none
  others := []

/-- The number of the revision, 1 when there is none (`int(revision or 1)`). -/
def Finding.revisionNo (f : Finding τ) : Int :=
  match f.revision with
  | none => 1
  | some r => if r = 0 then 1 else r

/-- `f.get("evidence_refs", [])`. -/
def Finding.refs (f : Finding τ) : List String := f.evidenceRefs.getD []

/-! ### Policy -/

/-- The environment settings of the state machine. The quality factors are
    in (0, 1]: `quality_adjust` raises on others. -/
structure Policy where
  suppressMaxSeverity : Int
  ndpiDeliverAll : Bool
  degradedFactor : ℚ
  blindFactor : ℚ
  confidenceFloor : ℚ
  factors_ok : (0 < confidenceFloor ∧ confidenceFloor ≤ 1) ∧
    (0 < degradedFactor ∧ degradedFactor ≤ 1) ∧ (0 < blindFactor ∧ blindFactor ≤ 1)
  /-- the literal that the encoder prints for a number -/
  floatText : ℚ → FloatText

/-- The settings of a deployment that sets nothing. -/
def Policy.default (floatText : ℚ → FloatText) : Policy where
  suppressMaxSeverity := 5
  ndpiDeliverAll := false
  degradedFactor := 7 / 10
  blindFactor := 4 / 10
  confidenceFloor := 5 / 100
  factors_ok := by norm_num
  floatText := floatText

/-- `CATEGORY_MITRE.get(category, [])`. -/
def categoryMitre (category : String) : List String :=
  match category with
  | "recon" => ["T1046"]
  | "discovery" => ["T1046"]
  | "c2" => ["T1071"]
  | "dns_tunnel" => ["T1071.004"]
  | "lateral" => ["T1021"]
  | "exfil" => ["TA0010"]
  | "bruteforce" => ["T1110"]
  | "credential_access" => ["T1110"]
  | "defense_evasion" => ["T1571"]
  | "impact" => ["T1486"]
  | _ => []

/-- `CONFIRMED_THREAT_SOURCES`. -/
def confirmedThreatSources : List String := ["ids_signature", "threat_intel", "file_malware_hash"]

/-- `NDPI_STRUCTURED_VERSION`. -/
def ndpiStructuredVersion : String := "2.0"

/-- `_ndpi_deliver_exempt`. -/
def ndpiDeliverExempt (p : Policy) (cand : Finding τ) : Bool :=
  p.ndpiDeliverAll && cand.detectorId = "ndpi_risk" &&
    cand.detectorVersion = ndpiStructuredVersion && cand.category ≠ ""

inductive Enrichment
  | metadataSufficient | packetsNeeded
  deriving DecidableEq, Repr

/-- `decide_enrichment`. -/
def decideEnrichment (cand : Finding τ) : Enrichment :=
  if cand.detectorId ∈ confirmedThreatSources then .packetsNeeded
  else if cand.category ∈
      ["recon", "discovery", "credential_access", "lateral", "impact", "defense_evasion"] then
    .metadataSufficient
  else if cand.detectorId = "low_slow_exfil" then .metadataSufficient
  else if cand.detectorId = "ndpi_risk" then .metadataSufficient
  else if cand.confidence ≥ 9 / 10 then .metadataSufficient
  else .packetsNeeded

/-- `suppress_delivery`. -/
def suppressDelivery (p : Policy) (cand : Finding τ) : Bool :=
  if cand.detectorId ∈ confirmedThreatSources then false
  else if ndpiDeliverExempt p cand then false
  else
    -- `cand.get("severity", 10) or 10`
    let severity := match cand.severity with
      | none => 10
      | some s => if s = 0 then 10 else s
    severity ≤ p.suppressMaxSeverity

/-- The reason recorded on a suppressed finding. -/
def suppressionText (f : Finding τ) : String :=
  let severity := match f.severity with
    | none => "None"
    | some s => toString s
  "low-severity (" ++ severity ++
    ") non-threat finding; kept for correlation and audit, not delivered"

/-- `_terminal_state`: the state and the suppression reason of a terminal
    revision. -/
def terminalState (p : Policy) (finding : Finding τ) : LifecycleState × String :=
  if finding.state = some .final then (.final, finding.suppressionReason.getD "")
  else if suppressDelivery p finding then (.suppressed, suppressionText finding)
  else (.final, "")

/-! ### Observation quality -/

/-- What the quality cache answers for a sensor. -/
structure QualityRecord where
  quality : String
  reasons : List String
  deriving DecidableEq

/-- `quality_lookup`: tenant and sensor. -/
abbrev QualityLookup := Option String → String → Option QualityRecord

/-- `quality_adjust`: the adjusted confidence and the effective factor. -/
def qualityAdjust (p : Policy) (confidence : ℚ) (quality : String) : ℚ × ℚ :=
  if quality ≠ "degraded" ∧ quality ≠ "blind" then (confidence, 1)
  else
    let factor := if quality = "blind" then p.blindFactor else p.degradedFactor
    let base := max 0 (min 1 confidence)
    let adjusted := min base (max p.confidenceFloor (base * factor))
    (adjusted, if base = 0 then 1 else adjusted / base)

/-- The sensor that one source event names: its record's `sensor_id`, else
    its `host`. -/
def eventSensor (event : Json) : Option String := do
  let record ← (← event.obj?).get? "record"
  let record ← record.obj?
  ["sensor_id", "host"].findSome? fun name =>
    ((record.get? name).bind Json.str?).filter Text.notBlank

/-- `_quality_sensors`. -/
def qualitySensors (cand : Finding τ) : List String :=
  let ids := (cand.sensorIds.getD []).filter Text.notBlank
  if ids ≠ [] then ids.eraseDups
  else
    ((cand.sourceEvents.bind Json.arr?).getD []).foldl (fun ids event =>
      match eventSensor event with
      | some sensor => if sensor ∈ ids then ids else ids ++ [sensor]
      | none => ids) []

/-- `rank.get(quality, 0)`. -/
def qualityRank (record : Option QualityRecord) : Nat :=
  match record.map QualityRecord.quality with
  | some "good" => 1
  | some "degraded" => 2
  | some "blind" => 3
  | _ => 0

/-- `max` by rank: the first of the highest. -/
def worstQuality (records : List (String × Option QualityRecord)) :
    Option (String × Option QualityRecord) :=
  records.foldl (fun best x =>
    match best with
    | none => some x
    | some b => if qualityRank b.2 < qualityRank x.2 then some x else best) none

/-- `_apply_quality`. -/
def applyQuality (p : Policy) (lookup : QualityLookup) (f : Finding τ) : Finding τ :=
  let sensors := qualitySensors f
  let worst := worstQuality (sensors.map fun s => (s, lookup f.tenantId s))
  let record := worst.bind Prod.snd
  let quality := (record.map QualityRecord.quality).getD "unknown"
  let verdict := if quality ∈ ["unknown", "good", "degraded", "blind"] then quality else "unknown"
  let adjusted := qualityAdjust p f.confidence verdict
  { f with
    sensorIds := some sensors
    confidence := adjusted.1
    observationQuality := some (.obj [
      ("quality", .str verdict),
      ("reasons", .arr (((record.map QualityRecord.reasons).getD []).map .str)),
      ("sensor_id", ((worst.map Prod.fst).map Json.str).getD .null),
      ("factor", .float (p.floatText adjusted.2)),
      ("original_confidence", .float (p.floatText f.confidence))]) }

/-! ### Building a finding -/

/-- Where a new finding goes. -/
inductive Route
  | final | capture | finalAndCapture
  deriving DecidableEq, Repr

/-- The finding is delivered at once. -/
def Route.delivers : Route → Bool
  | .final | .finalAndCapture => true
  | .capture => false

/-- Packets are requested for the finding. -/
def Route.captures : Route → Bool
  | .capture | .finalAndCapture => true
  | .final => false

/-- The part of `build_finding` before the policy decides. -/
def initialRevision (p : Policy) (cand : Finding τ) (lookup : Option QualityLookup) : Finding τ :=
  let f := { cand with
    sensorIds := some (cand.sensorIds.getD [])
    evidenceRefs := some cand.refs }
  let f := match lookup with
    | none => f
    | some lookup => applyQuality p lookup f
  { f with
    revision := some 1
    mitre := some (match cand.mitre with
      | some (t :: ts) => t :: ts
      | _ => categoryMitre cand.category)
    captureJobIds := some []
    suppressionReason := some "" }

/-- `build_finding`. -/
def buildFinding (p : Policy) (cand : Finding τ) (lookup : Option QualityLookup) :
    Finding τ × Route :=
  let f := initialRevision p cand lookup
  match decideEnrichment cand with
  | .metadataSufficient =>
    if suppressDelivery p cand then
      ({ f with
        enrichmentState := some .notRequired
        state := some .suppressed
        suppressionReason := some (suppressionText f) }, .final)
    else ({ f with enrichmentState := some .notRequired, state := some .final }, .final)
  | .packetsNeeded =>
    if cand.detectorId ∈ confirmedThreatSources then
      ({ f with state := some .final, enrichmentState := some .pending }, .finalAndCapture)
    else
      ({ f with enrichmentState := some .required, state := some .captureRequested }, .capture)

/-! ### Finalization -/

/-- An enrichment result. -/
structure EnrichmentResult where
  findingId : Option String
  tenantId : Option String
  status : Option String
  evidenceRefs : Option (List String)
  summary : Option Json
  iocs : Option Json

/-- Append the references that are not there yet. -/
def mergeRefs (seen new : List String) : List String :=
  new.foldl (fun seen r => if r ∈ seen then seen else seen ++ [r]) seen

/-- `sorted(set(old) | set(new))` of two lists of indicators. -/
def unionIocs (old new : List Json) : List Json :=
  (((old ++ new).filterMap Json.str?).dedup.insertionSort (· ≤ ·)).map .str

/-- Merge the indicators of a result: lists are united, other values
    replaced. -/
def mergeIocs (merged new : Json.Dict) : Json.Dict :=
  new.foldl (fun merged kv =>
    match kv.2 with
    | .arr xs => merged.set kv.1 (.arr (unionIocs (((merged.get? kv.1).bind Json.arr?).getD []) xs))
    | v => merged.set kv.1 v) merged

/-- What a result leaves of the finding's enrichment members. -/
def attachEvidence (f : Finding τ) (result : EnrichmentResult) : Finding τ :=
  if result.status = some "ok" then
    { f with
      enrichmentState := some .enriched
      evidenceRefs := some (mergeRefs f.refs (result.evidenceRefs.getD []))
      summary := match result.summary with
        | some (.obj ms) => some (.obj ms)
        | _ => f.summary
      iocs := match result.iocs with
        | some (.obj ms) => some (.obj (mergeIocs ((f.iocs.bind Json.obj?).getD []) ms))
        | _ => f.iocs }
  else { f with enrichmentState := some .enrichmentFailed }

/-- `apply_enrichment_result`. -/
def applyEnrichmentResult (p : Policy) (finding : Finding τ) (result : EnrichmentResult) :
    Finding τ :=
  { attachEvidence finding result with
    state := some (terminalState p finding).1
    suppressionReason := some (terminalState p finding).2
    revision := some (finding.revisionNo + 1) }

/-- `finalize_timeout`. -/
def finalizeTimeout (p : Policy) (finding : Finding τ) : Finding τ :=
  { finding with
    state := some (terminalState p finding).1
    suppressionReason := some (terminalState p finding).2
    enrichmentState := some .timeout
    revision := some (finding.revisionNo + 1) }

/-! ### Capture requests -/

/-- `_ENTITY_PROFILE.get(type)`. -/
def entityProfile (kind : String) : Option String :=
  match kind with
  | "ip" => some "ip"
  | "domain" => some "sni"
  | "sni" => some "sni"
  | "dns" => some "dns"
  | "fingerprint" => some "ja4"
  | "ja3" => some "ja4"
  | "ja4" => some "ja4"
  | _ => none

/-- `_TARGET_ROLES`. -/
def targetRoles : List String :=
  ["dst", "peer", "server", "c2", "destination", "target", "scanner"]

/-- The entities of a finding, in either form. -/
def entityList (entities : Option Json) : List Json :=
  match entities with
  | some (.arr xs) => xs
  | some (.str text) =>
    match Json.loads text.toList with
    | some (.arr xs) => xs
    | _ => []
  | _ => []

/-- `_first_sensor`. -/
def firstSensor (f : Finding τ) : String :=
  match f.sensorIds with
  | some (s :: _) => s
  | _ =>
    match f.sensorId with
    | some s => if s = "" then "sensor-1" else s
    | none => "sensor-1"

/-- The profile and the value of an entity that a capture can target. -/
def usableTarget (e : Json.Dict) : Option (String × Json) := do
  let kind ← (e.get "type").str?
  let profile ← entityProfile kind
  if (e.get "value").truthy then some (profile, e.get "value") else none

/-- `_capture_target`: the first usable entity in a target role, else the
    first usable one. -/
def captureTarget (f : Finding τ) : String × Json :=
  let usable := ((entityList f.entities).filterMap Json.obj?).filter
    fun e => (usableTarget e).isSome
  let inRole := usable.find? fun e => (e.get "role").str?.any (· ∈ targetRoles)
  ((inRole.orElse fun _ => usable.head?).bind usableTarget).getD ("ip", .str "")

/-- The capture directive for the orchestrator. -/
structure CaptureJob where
  findingId : String
  tenantId : Option String
  sensorId : String
  captureProfile : String
  /-- `str(value)` of this entity value -/
  value : Json
  entities : Option Json

/-- `capture_job`. -/
def captureJob (f : Finding τ) : CaptureJob where
  findingId := f.findingId
  tenantId := f.tenantId
  sensorId := firstSensor f
  captureProfile := (captureTarget f).1
  value := (captureTarget f).2
  entities := f.entities

end FindingService
