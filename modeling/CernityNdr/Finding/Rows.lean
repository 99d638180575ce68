import CernityNdr.Framework.Registry
import CernityNdr.Finding.StateMachine

/-! # Rows of the Finding Table

    The part of `finding-service/app.py` that writes findings to the
    database (`_row`, `_persist`) and rebuilds the pending map from it after
    a restart (`_pending_from_rows`). The database returns the column values
    that were written. -/

namespace FindingService

variable {τ : Type}

/-- Microseconds since the epoch, UTC. -/
abbrev Instant := Int

/-! ### Keys and entries -/

/-- A tenant and a finding id, UTF-8 texts. -/
abbrev PKey := String × Option String

/-- `tenant or "default"`. -/
def orDefault (tenant : Option String) : String :=
  match tenant with
  | none => "default"
  | some t => if t = "" then "default" else t

/-- `_pk`: the tenant-safe key of a finding. -/
def pk (tenant fid : Option String) : PKey := (orDefault tenant, fid)

/-- The key of a finding. -/
def Finding.key (f : Finding τ) : PKey := pk f.tenantId (some f.findingId)

/-- An entry of the pending map. -/
structure Entry (τ : Type) where
  finding : Finding τ
  delivered : Bool
  /-- on the monotonic clock -/
  deadline : Int

/-- The key an entry is stored under. -/
def Entry.key (e : Entry τ) : PKey := e.finding.key

/-- `pending`: the findings whose enrichment is awaited. -/
abbrev Pending (τ : Type) := Registry (Entry.key (τ := τ))

/-! ### Writing -/

/-- One row, its columns in the order of `COLS`. -/
structure Row where
  findingId : String
  tenantId : Option String
  sensorIds : List String
  detectorId : String
  detectorVersion : String
  category : String
  severity : Int
  confidence : ℚ
  firstSeen : Instant
  lastSeen : Instant
  entities : Json
  evidenceRefs : List String
  mitre : List String
  state : Option LifecycleState
  /-- `none` is the empty string -/
  enrichmentState : Option EnrichmentState
  captureJobIds : List String
  suppressionReason : String
  summary : List Char
  iocs : List Char
  sourceEvents : List Char
  observationQuality : List Char
  revision : Int
  ingestedAt : Instant

/-- `v in (None, "", [], {})`. -/
def blank : Option Json → Bool
  | none | some .null | some (.str "") | some (.arr []) | some (.obj []) => true
  | _ => false

/-- The text of an object column. -/
def column (v : Option Json) : List Char :=
  if blank v then [] else ((v.map Json.dumps).getD [])

/-- `_dt`: a timestamp, or the current time when it cannot be read. -/
def dt (fromisoformat : τ → Option Instant) (clock : Instant) (s : Option τ) : Instant :=
  (s.bind fromisoformat).getD clock

/-- `_row`. -/
def row (fromisoformat : τ → Option Instant) (clock : Instant) (f : Finding τ) : Row where
  findingId := f.findingId
  tenantId := f.tenantId
  sensorIds := f.sensorIds.getD []
  detectorId := f.detectorId
  detectorVersion := f.detectorVersion
  category := f.category
  severity := f.severity.getD 0
  confidence := f.confidence
  firstSeen := dt fromisoformat clock f.firstSeen
  lastSeen := dt fromisoformat clock f.lastSeen
  entities := (f.entities.getD .null).or (.str "")
  evidenceRefs := f.refs
  mitre := f.mitre.getD []
  state := f.state
  enrichmentState := f.enrichmentState
  captureJobIds := f.captureJobIds.getD []
  suppressionReason := f.suppressionReason.getD ""
  summary := column f.summary
  iocs := column f.iocs
  sourceEvents := column f.sourceEvents
  observationQuality := column f.observationQuality
  revision := f.revisionNo
  ingestedAt := clock

/-! ### Reading back -/

/-- An object column read back: the value of its text, the text itself when
    it does not decode, no member when it is empty. -/
def uncolumn (text : List Char) : Option Json :=
  if text = [] then none
  else
    match Json.loads text with
    | some v => some v
    | none => some (.str (String.ofList text))

/-- The dictionary of one row, with its object columns decoded. -/
def recoverFinding (r : Row) : Finding Instant where
  findingId := r.findingId
  tenantId := r.tenantId
  sensorIds := some r.sensorIds
  sensorId := none
  detectorId := r.detectorId
  detectorVersion := r.detectorVersion
  category := r.category
  severity := some r.severity
  confidence := r.confidence
  firstSeen := some r.firstSeen
  lastSeen := some r.lastSeen
  entities := some r.entities
  evidenceRefs := some r.evidenceRefs
  summary := uncolumn r.summary
  iocs := uncolumn r.iocs
  sourceEvents := uncolumn r.sourceEvents
  observationQuality := uncolumn r.observationQuality
  mitre := some r.mitre
  state := r.state
  enrichmentState := r.enrichmentState
  revision := some r.revision
  captureJobIds := some r.captureJobIds
  suppressionReason := some r.suppressionReason
  communityId := none
  geo := none
  intel := none
  ingestedAt := some r.ingestedAt
  others := []

/-- `_UNFINALIZED`. -/
def unfinalized (s : Option EnrichmentState) : Bool :=
  s = some .pending || s = some .required

/-- One row of `_pending_from_rows`. -/
def recoverRow (now : Int) (pending : Pending Instant) (r : Row) : Pending Instant :=
  let f := recoverFinding r
  if f.findingId = "" ∨ unfinalized f.enrichmentState = false then pending
  else pending.put ⟨f, f.state = some .final, now⟩

/-- `_pending_from_rows`. -/
def pendingFromRows (rows : List Row) (now : Int) : Pending Instant :=
  rows.foldl (recoverRow now) .empty

end FindingService
