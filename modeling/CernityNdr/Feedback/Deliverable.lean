import CernityNdr.Case.Emissions
import CernityNdr.Feedback.DispositionSchema
import CernityNdr.Feedback.Router

/-! # Which Dispositions Can Be Delivered

    The outbox of the case store next to the schema that the router checks.
    `case_dispositions` looks at three fields of a verdict; its reason, its
    analyst and its time reach the outbox as the caller stated them, and the
    schema may refuse them (`WellFormed`). A record that it refuses stays in
    the outbox.

    * `stored_deliverable`: over every interleaving of requests of the API and
      of callers that emit. -/

namespace FeedbackService.Deliverable

open Json (Dict)
open CaseApi
open CaseManagement (CaseDoc Verdict Disposition)

section Verdicts

variable {τ : Type} (upper : String → String) (fromisoformat : String → Option (Option τ))

/-- What the schema asks of the fields of a verdict that nothing else looks
    at. -/
structure WellFormed (v : Dict) : Prop where
  reason : ∃ s, v.get? "reason" = some (.str s) ∧ Fits 4096 s
  analyst : ∃ s, v.get? "analyst" = some (.str s) ∧ 1 ≤ s.length ∧ s.length ≤ 256
  ts : ∃ s, v.get? "ts" = some (.str s) ∧ matchesTimestamp s = true ∧
    validTimestamp upper fromisoformat (.str s) = true

variable {upper fromisoformat}

/-- A record is valid when the verdict is that it was made of. -/
theorem valid_iff {v record : Dict} {reason analyst ts : Json}
    (h : RecordOf v record reason analyst ts) :
    dispositionV1 upper fromisoformat (.obj record) = true ↔ WellFormed upper fromisoformat v := by
  obtain ⟨findingId, entity, verdict, tenant, rfl, hfinding, hentity, hverdict, htenant⟩ := h.shape
  rw [dispositionV1_iff hfinding hentity hverdict htenant]
  constructor
  · rintro ⟨⟨s, rfl, hs⟩, ⟨a, rfl, ha⟩, t, rfl, ht⟩
    exact ⟨⟨s, h.get_reason, hs⟩, ⟨a, h.get_analyst, ha⟩, t, h.get_ts, ht⟩
  · rintro ⟨⟨s, hreason, hs⟩, ⟨a, hanalyst, ha⟩, t, hts, ht⟩
    exact ⟨⟨s, Option.some.inj (h.get_reason.symm.trans hreason), hs⟩,
      ⟨a, Option.some.inj (h.get_analyst.symm.trans hanalyst), ha⟩,
      t, Option.some.inj (h.get_ts.symm.trans hts), ht⟩

end Verdicts

/-! ### The outbox -/

/-- **A stored disposition is deliverable when its verdict was well formed**:
    every row of the outbox is the record of a verdict that a caller stated,
    and it passes the validation of the router exactly when that verdict is
    well formed. -/
theorem stored_deliverable {θ τ : Type} [DecidableEq θ] (upper : String → String)
    (fromisoformat : String → Option (Option τ)) (sha1 sha256 : List Char → String)
    (int : String → Option Int) (sessions : Dict) (run : List (Mutex.Input θ CaseApi.Call Bool)) :
    ((∀ v, StatedIn run v → WellFormed upper fromisoformat v) →
      ∀ row ∈ (ranStore sha1 sha256 int sessions run).store.dispositions.vals,
        ∃ record, row.load = some record ∧
          dispositionV1 upper fromisoformat (.obj record) = true) ∧
    ∀ row ∈ (ranStore sha1 sha256 int sessions run).store.dispositions.vals,
      ∃ v record reason analyst ts, StatedIn run v ∧ row.load = some record ∧
        RecordOf v record reason analyst ts ∧
        (dispositionV1 upper fromisoformat (.obj record) = true ↔
          WellFormed upper fromisoformat v) := by
  have hkept := outbox_made sha1 sha256 int sessions run
  constructor
  · intro hstated row hrow
    obtain ⟨v, record, reason, analyst, ts, hv, hload, hof⟩ := hkept.outbox row hrow
    exact ⟨record, hload, (valid_iff hof).mpr (hstated v hv)⟩
  · intro row hrow
    obtain ⟨v, record, reason, analyst, ts, hv, hload, hof⟩ := hkept.outbox row hrow
    exact ⟨v, record, reason, analyst, ts, hv, hload, hof, valid_iff hof⟩

section Sample

def sampleSessions : Dict :=
  [("t1", .obj [("tenant", .str "acme"), ("analyst", .str "alice"),
    ("expires_at", .int 1800000000), ("case_write", .bool true)])]

/-- `alice` opens a case. -/
def openCase : Request where
  command := .post
  authorization := "Bearer t1"
  target := some ("/cases".toList, [])
  contentLength := ["19"]
  transferEncoding := false
  body := .json (.obj [("title", .str "beacon")])
  now := 1767225600
  ts := "2026-01-01T00:00:00+00:00"
  caseId := "c1"
  auditId := "a1"
  requestId := "r1"
  source := "192.0.2.7"

def sampleEntity : Json := .obj [("type", .str "ip"), ("value", .str "192.0.2.1")]

def sampleVerdict (reason : String) : Dict :=
  [("finding_id", .str "f1"), ("entity", sampleEntity), ("verdict", .str "benign"),
    ("reason", .str reason), ("analyst", .str "alice"), ("ts", .str "2026-01-01T00:05:00Z")]

/-- The case is worked, resolved, and its verdict emitted. -/
def resolveCase (reason : String) : Emission where
  caseId := "c1"
  tenants := ["acme"]
  script :=
    [.change .linkFinding (.str "f1") "alice" "2026-01-01T00:01:00Z",
     .change .linkEntity sampleEntity "alice" "2026-01-01T00:02:00Z",
     .change .status (.str "investigating") "alice" "2026-01-01T00:03:00Z",
     .change .status (.str "resolved") "alice" "2026-01-01T00:04:00Z",
     .emit [sampleVerdict reason]]

def sampleRun (reason : String) : List (Mutex.Input Bool CaseApi.Call Bool) :=
  [.arrive false (.inl openCase), .advance false false, .advance false false,
   .arrive true (.inr (resolveCase reason)), .advance true false, .advance true false]

def sampleInt (s : String) : Option Int := (Text.int s.toList).map Int.ofNat

/-- `fromisoformat`, at the time of the sample. -/
def sampleMoment (s : String) : Option (Option ℚ) :=
  if s = "2026-01-01T00:05:00+00:00" then some (some 1767225900) else none

def sampleOutbox (reason : String) : List OutboxRow :=
  (ranStore String.ofList (fun _ => "d1") sampleInt sampleSessions
    (sampleRun reason)).store.dispositions.vals

/-- A verdict with a reason is stored and can be delivered. -/
theorem confirmed_deliverable : (sampleOutbox "confirmed").length = 1 ∧
    ∀ row ∈ sampleOutbox "confirmed", ∃ record, row.load = some record ∧
      dispositionV1 String.toUpper sampleMoment (.obj record) = true := by
  refine ⟨by decide +kernel, ?_⟩
  refine (stored_deliverable String.toUpper sampleMoment String.ofList (fun _ => "d1") sampleInt
    sampleSessions (sampleRun "confirmed")).1 ?_
  rintro v ⟨t, e, harrive, verdicts, hemit, hv⟩
  obtain ⟨-, rfl⟩ : t = true ∧ e = resolveCase "confirmed" := by simpa [sampleRun] using harrive
  obtain rfl : verdicts = [sampleVerdict "confirmed"] := by simpa [resolveCase] using hemit
  obtain rfl := List.mem_singleton.mp hv
  exact ⟨⟨"confirmed", rfl, by decide, by decide⟩, ⟨"alice", rfl, by decide, by decide⟩,
    "2026-01-01T00:05:00Z", rfl, by decide +kernel, by decide +kernel⟩

/-- A verdict with a blank reason is stored all the same. -/
theorem blank_reason_stored : ¬ ∀ row ∈ sampleOutbox " ", ∃ record, row.load = some record ∧
    dispositionV1 String.toUpper sampleMoment (.obj record) = true := by
  intro h
  have hrefused : ((sampleOutbox " ").any fun row => row.load.any fun record =>
      !dispositionV1 String.toUpper sampleMoment (.obj record)) = true := by decide +kernel
  obtain ⟨row, hrow, hany⟩ := List.any_eq_true.mp hrefused
  obtain ⟨record, hload, hvalid⟩ := h row hrow
  rw [hload] at hany
  simp [hvalid] at hany

end Sample

end FeedbackService.Deliverable
