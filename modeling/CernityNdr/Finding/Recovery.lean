import CernityNdr.Framework.JsonRoundTrip
import CernityNdr.Finding.Descent

/-! # Recovery after a Restart

    A capture-bound finding is written to the table when its candidate is
    handled, and after a restart it is rebuilt from its row and finalized by
    the next sweep. The timestamps of the rebuilt finding are the database's
    datetime values, which the serializer of the producer refuses. -/

namespace FindingService

open Machine

variable {τ : Type}

/-! ### The producer's serializer -/

def LifecycleState.text : LifecycleState → String
  | .candidate => "CANDIDATE"
  | .scored => "SCORED"
  | .captureRequested => "CAPTURE_REQUESTED"
  | .enriched => "ENRICHED"
  | .enrichmentFailed => "ENRICHMENT_FAILED"
  | .suppressed => "SUPPRESSED"
  | .final => "FINAL"

def EnrichmentState.text : EnrichmentState → String
  | .notRequired => "NOT_REQUIRED"
  | .required => "REQUIRED"
  | .pending => "PENDING"
  | .enriched => "ENRICHED"
  | .enrichmentFailed => "ENRICHMENT_FAILED"
  | .timeout => "TIMEOUT"

/-- A list of texts as a value. -/
def textArray (xs : List String) : Json := .arr (xs.map .str)

/-- A member that holds a timestamp. A timestamp that is no JSON value has
    no encoding. -/
def stampMember (stamp : τ → Option Json) (name : String) (t : Option τ) : Option Json.Dict :=
  match t with
  | none => some []
  | some t => (stamp t).map fun v => [(name, v)]

/-- The members of a finding that are not timestamps. -/
def plainMembers (p : Policy) (f : Finding τ) : Json.Dict :=
  [("finding_id", some (.str f.findingId)),
    ("tenant_id", f.tenantId.map .str),
    ("sensor_ids", f.sensorIds.map textArray),
    ("sensor_id", f.sensorId.map .str),
    ("detector_id", some (.str f.detectorId)),
    ("detector_version", some (.str f.detectorVersion)),
    ("category", some (.str f.category)),
    ("severity", f.severity.map .int),
    ("confidence", some (.float (p.floatText f.confidence))),
    ("entities", f.entities),
    ("evidence_refs", f.evidenceRefs.map textArray),
    ("summary", f.summary),
    ("iocs", f.iocs),
    ("source_events", f.sourceEvents),
    ("observation_quality", f.observationQuality),
    ("mitre", f.mitre.map textArray),
    ("state", f.state.map (.str ·.text)),
    ("enrichment_state", f.enrichmentState.map (.str ·.text)),
    ("revision", f.revision.map .int),
    ("capture_job_ids", f.captureJobIds.map textArray),
    ("suppression_reason", f.suppressionReason.map .str),
    ("community_id", f.communityId),
    ("geo", f.geo),
    ("intel", f.intel)].filterMap (fun m => m.2.map (m.1, ·)) ++ f.others

/-- `value_serializer`: `json.dumps` of a finding, which raises on a
    timestamp that is no JSON value. -/
def serialize (p : Policy) (stamp : τ → Option Json) (f : Finding τ) : Option (List Char) := do
  let first ← stampMember stamp "first_seen" f.firstSeen
  let last ← stampMember stamp "last_seen" f.lastSeen
  let ingested ← stampMember stamp "ingested_at" f.ingestedAt
  pure (Json.dumps (.obj (plainMembers p f ++ first ++ last ++ ingested)))

/-- A datetime value is no JSON value. -/
def datetimeJson (_ : Instant) : Option Json := none

/-! ### Live and recovered documents -/

section Documents

variable (cfg : Config τ) (env env' : Env) (now now' : Int) (cand : Finding τ)

/-- The document that the process would have emitted for the candidate on a
    timeout, had it not been restarted. -/
def liveDoc : Finding τ := expired cfg env' (firstEntry cfg env now cand)

/-- The entry that a restarted process rebuilds from what was written for
    the candidate. -/
def recoveredEntry : Option (Entry Instant) :=
  (pendingFromRows (handleCandidate cfg env now cand .start).table now').get? cand.key

/-- The document that the restarted process makes of it on a timeout. -/
def recoveredDoc (e : Entry Instant) : Finding Instant :=
  finalDoc env' e.delivered (finalizeTimeout cfg.toPolicy e.finding)

end Documents

/-- The recovered document says what the live one says. Timestamps agree when
    they are the same instant. -/
structure Agrees (fromisoformat : τ → Option Instant) (doc : Finding Instant)
    (live : Finding τ) : Prop where
  findingId : doc.findingId = live.findingId
  tenantId : doc.tenantId = live.tenantId
  detectorId : doc.detectorId = live.detectorId
  category : doc.category = live.category
  severity : doc.severity = live.severity
  confidence : doc.confidence = live.confidence
  firstSeen : doc.firstSeen = live.firstSeen.bind fromisoformat
  lastSeen : doc.lastSeen = live.lastSeen.bind fromisoformat
  entities : doc.entities = live.entities
  mitre : doc.mitre = live.mitre
  refs : doc.refs = live.refs
  state : doc.state = live.state
  enrichmentState : doc.enrichmentState = live.enrichmentState
  revisionNo : doc.revisionNo = live.revisionNo
  summary : blank live.summary = false → doc.summary = live.summary
  iocs : blank live.iocs = false → doc.iocs = live.iocs
  sourceEvents : blank live.sourceEvents = false → doc.sourceEvents = live.sourceEvents
  observationQuality : blank live.observationQuality = false →
    doc.observationQuality = live.observationQuality

/-- The finding is recovered, and its document is accepted by the serializer
    and agrees with the live one. -/
def Recovers (cfg : Config τ) (env env' : Env) (now now' : Int) (cand : Finding τ) : Prop :=
  ∃ e, recoveredEntry cfg env now now' cand = some e ∧
    (serialize cfg.toPolicy datetimeJson (recoveredDoc cfg env' e)).isSome = true ∧
    Agrees cfg.fromisoformat (recoveredDoc cfg env' e) (liveDoc cfg env env' now cand)

/-! ### The serializer refuses every recovered document -/

/-- A document with a timestamp from the database is refused. -/
theorem serialize_datetime {p : Policy} {f : Finding Instant} (h : f.firstSeen.isSome = true) :
    serialize p datetimeJson f = none := by
  obtain ⟨t, ht⟩ := Option.isSome_iff_exists.mp h
  simp [serialize, stampMember, ht, datetimeJson]

/-- Every entry rebuilt from rows has a timestamp. -/
theorem firstSeen_of_pendingFromRows (rows : List Row) (now : Int) :
    ∀ e ∈ (pendingFromRows rows now).vals, e.finding.firstSeen.isSome = true := by
  suffices hstep : ∀ (pending : Pending Instant) (r : Row),
      (∀ e ∈ pending.vals, e.finding.firstSeen.isSome = true) →
      ∀ e ∈ (recoverRow now pending r).vals, e.finding.firstSeen.isSome = true from
    run_invariant hstep (by simp) rows
  intro pending r h
  unfold recoverRow
  dsimp only
  split
  · exact h
  · intro e he
    rcases Registry.mem_put he with he | rfl
    · exact h e he
    · rfl

/-- **No recovered document is accepted.** For every candidate, wherever it
    is routed, what the restarted process makes of its row is not what the
    live process would have delivered. -/
theorem not_recovers (cfg : Config τ) (env env' : Env) (now now' : Int) (cand : Finding τ) :
    ¬ Recovers cfg env env' now now' cand := by
  rintro ⟨e, he, haccept, -⟩
  have hseen := firstSeen_of_pendingFromRows _ _ e (Registry.get?_eq_some.mp he).1
  have hdoc : (recoveredDoc cfg env' e).firstSeen.isSome = true := by
    unfold recoveredDoc
    cases e.delivered <;> exact hseen
  rw [serialize_datetime hdoc] at haccept
  cases haccept

/-- A deployment with a database that reads every timestamp as one instant. -/
def dbConfig : Config String :=
  { Config.demo with persists := true, fromisoformat := fun _ => some 1767225600000000 }

/-- A confirmed threat is rebuilt, and the serializer refuses its document. -/
theorem threat_refused_after_restart :
    (recoveredEntry dbConfig .quiet 0 0 threatCandidate).isSome = true ∧
      ¬ Recovers dbConfig .quiet .quiet 0 0 threatCandidate := by
  refine ⟨by decide, ?_⟩
  rintro ⟨e, he, haccept, -⟩
  have hrefuse : ((recoveredEntry dbConfig .quiet 0 0 threatCandidate).map fun e =>
      (serialize dbConfig.toPolicy datetimeJson (recoveredDoc dbConfig .quiet e)).isSome) =
        some false := by decide
  rw [he, Option.map_some, haccept] at hrefuse
  cases hrefuse

end FindingService
