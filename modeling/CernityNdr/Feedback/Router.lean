import Mathlib.Algebra.Order.Field.Rat
import CernityNdr.Case.Cases
import CernityNdr.Framework.Registry
import CernityNdr.Framework.Text
import CernityNdr.Framework.Transaction

/-! # The Feedback Router

    The model of `feedback-service/router.py`: `consume` authenticates the
    caller, validates the disposition and stores a suggestion and its audit
    event in one transaction, both under ids that it has just drawn.

    The JSON schema is a parameter. -/

namespace FeedbackService

open CaseManagement

/-! ### Sessions -/

/-- A session of the server's token map. A field of the wrong type is
    `none`, and so is an expiry that is not finite. -/
structure Session where
  emitter : Option String
  analyst : Option String
  tenant : Option String
  expiresAt : Option ℚ
  dispositionWrite : Bool

structure Identity where
  emitter : String
  analyst : String
  tenant : String
deriving DecidableEq

/-- What `consume` raises. -/
inductive Refusal
  /-- `PermissionError`: `unauthorized` -/
  | unauthorized
  /-- `PermissionError`: `invalid session` -/
  | invalidSession
  /-- `PermissionError`: `expired or unauthorized session` -/
  | expired
  /-- `ValidationError` -/
  | invalid
  /-- `KeyError`: no sink for the verdict -/
  | noSink
  /-- a statement or the commit raises -/
  | sqliteError
deriving DecidableEq, Repr

/-- The token of an `Authorization` header. -/
def bearer (authorization : String) : Option String :=
  if "Bearer ".toList.isPrefixOf authorization.toList then
    some (String.ofList (authorization.toList.drop 7))
  else none

/-- `authenticate`. -/
def authenticate (tokens : String → Option Session) (authorization : String) (now : ℚ) :
    Except Refusal Identity :=
  match ((bearer authorization).filter (· ≠ "")).bind tokens with
  | none => .error .unauthorized
  | some session =>
    match session.emitter.filter Text.notBlank, session.analyst.filter Text.notBlank,
      session.tenant.filter Text.notBlank with
    | some emitter, some analyst, some tenant =>
      match session.expiresAt with
      | none => .error .expired
      | some expiry =>
        if now < expiry ∧ session.dispositionWrite then .ok ⟨emitter, analyst, tenant⟩
        else .error .expired
    | _, _, _ => .error .invalidSession

/-! ### Tables -/

inductive Sink
  | anomalyGroundTruth
  | detectorFpCandidate
  | ignoreList
deriving DecidableEq, Repr

/-- `SINKS`. -/
def sinks : String → Option Sink
  | "true_positive" => some .anomalyGroundTruth
  | "benign" => some .anomalyGroundTruth
  | "false_positive" => some .detectorFpCandidate
  | "allowlist" => some .ignoreList
  | _ => none

structure Capabilities where
  dispositionV1 : Bool
  advisoryOnly : Bool
  autoSuppression : Bool
deriving DecidableEq

/-- `CAPABILITIES`. -/
def capabilities : Capabilities := ⟨true, true, false⟩

/-- The suggestion that is made of a disposition. -/
structure Suggestion where
  id : String
  auditId : String
  tenant : String
  owner : String
  analyst : String
  emitter : String
  scope : Scope
  findingId : String
  entity : Entity
  verdict : String
  justification : String
  sourceTs : String
  createdAt : ℚ
  expiresAt : ℚ
  status : String
  sink : Sink
  capabilities : Capabilities

/-- The audit event of a suggestion. -/
structure Accepted where
  auditId : String
  tenant : String
  actor : String
  emitter : String
  action : String
  resourceType : String
  resourceId : String
  timestamp : ℚ
  sourceIp : String
  outcome : String
  reason : String
  record : Suggestion

/-- A row of `feedback`. -/
structure FeedbackRow where
  id : String
  tenant : String
  sink : Sink
  record : Suggestion

/-- A row of `audit`. -/
structure AuditRow where
  id : String
  tenant : String
  event : Accepted

structure Tables where
  feedback : Registry FeedbackRow.id
  audit : Registry AuditRow.id

def Tables.empty : Tables := ⟨.empty, .empty⟩

inductive Statement
  | insertFeedback (row : FeedbackRow)
  | insertAudit (row : AuditRow)

/-- An insert whose id is new. -/
def Statement.apply (t : Tables) : Statement → Tables
  | insertFeedback row => { t with feedback := t.feedback.put row }
  | insertAudit row => { t with audit := t.audit.put row }

/-! ### Consuming a disposition -/

/-- A router: the token map, and how long a suggestion lives. -/
structure Router where
  tokens : String → Option Session
  ttl : ℚ
  ttl_pos : 0 < ttl
  /-- at most 30 days -/
  ttl_le : ttl ≤ 2592000

/-- A call of `consume` next to its payload: the arguments, the clock, the
    two ids that it draws, and where its transaction is interrupted. -/
structure Call where
  authorization : String
  sourceIp : String
  now : ℚ
  identifier : String
  auditId : String
  fault : Fault

namespace Router

variable (valid : Disposition → Bool) (router : Router)

/-- The record that `consume` builds. -/
def suggestion (identity : Identity) (sink : Sink) (payload : Disposition) (call : Call) :
    Suggestion where
  id := call.identifier
  auditId := call.auditId
  tenant := identity.tenant
  owner := identity.analyst
  analyst := identity.analyst
  emitter := identity.emitter
  -- the scope of the payload is a claim, never a grant
  scope := if payload.verdict = "allowlist" then .entity else .finding
  findingId := payload.findingId
  entity := payload.entity
  verdict := payload.verdict
  justification := payload.reason
  sourceTs := payload.ts
  createdAt := call.now
  expiresAt := call.now + router.ttl
  status := "suggested"
  sink := sink
  capabilities := capabilities

/-- The audit event that `consume` builds. -/
def accepted (identity : Identity) (record : Suggestion) (payload : Disposition) (call : Call) :
    Accepted where
  auditId := call.auditId
  tenant := identity.tenant
  actor := identity.analyst
  emitter := identity.emitter
  action := "disposition.accepted"
  resourceType := "feedback"
  resourceId := call.identifier
  timestamp := call.now
  sourceIp := call.sourceIp
  outcome := "suggested"
  reason := payload.reason
  record := record

/-- The two inserts. -/
def inserts (identity : Identity) (record : Suggestion) (payload : Disposition) (call : Call) :
    List Statement :=
  [.insertFeedback ⟨call.identifier, identity.tenant, record.sink, record⟩,
   .insertAudit ⟨call.auditId, identity.tenant, accepted identity record payload call⟩]

/-- The insert that raises because its id is taken. -/
def clash (db : Tables) (call : Call) : Fault :=
  if call.identifier ∈ db.feedback.keys then some 0
  else if call.auditId ∈ db.audit.keys then some 1
  else none

/-- `consume`, on a connection of its own. -/
def consume (db : Tables) (payload : Disposition) (call : Call) :
    Except Refusal Suggestion × Tables :=
  match authenticate router.tokens call.authorization call.now with
  | .error e => (.error e, db)
  | .ok identity =>
    if valid payload then
      match sinks payload.verdict with
      | none => (.error .noSink, db)
      | some sink =>
        let record := router.suggestion identity sink payload call
        match (Connection.fresh db).writeOrRollback Statement.apply
          (inserts identity record payload call) (clash db call <|> call.fault) with
        | (.ok _, c) => (.ok record, c.committed)
        | (.error _, c) => (.error .sqliteError, c.committed)
    else (.error .invalid, db)

/-! ### When it commits -/

/-- The caller and the payload are accepted, both ids are new, and nothing
    interrupts the transaction. -/
structure Accepts (db : Tables) (payload : Disposition) (call : Call) : Prop where
  identity : ∃ identity, authenticate router.tokens call.authorization call.now = .ok identity
  valid : valid payload = true
  sink : ∃ sink, sinks payload.verdict = some sink
  fresh : call.identifier ∉ db.feedback.keys
  freshAudit : call.auditId ∉ db.audit.keys
  whole : ∀ n, call.fault = some n → 2 < n

/-- What a call of `consume` can do. -/
inductive Consumed (db : Tables) (payload : Disposition) (call : Call) :
    Except Refusal Suggestion → Tables → Prop
  | raised (h : ¬ router.Accepts valid db payload call) (e : Refusal) :
      Consumed db payload call (.error e) db
  | stored (h : router.Accepts valid db payload call) (row : FeedbackRow) (event : AuditRow)
      (hrow : row.id = call.identifier) (hevent : event.id = call.auditId) :
      Consumed db payload call (.ok row.record)
        ⟨db.feedback.put row, db.audit.put event⟩

variable {valid router} {db : Tables} {payload : Disposition} {call : Call}

theorem clash_eq_none (db : Tables) (call : Call) :
    clash db call = none ↔ call.identifier ∉ db.feedback.keys ∧ call.auditId ∉ db.audit.keys := by
  unfold clash
  split
  · next h => simp [h]
  · next h =>
    split
    · next h' => simp [h']
    · next h' => simp [h, h']

theorem clash_le {n : Nat} (h : clash db call = some n) : n ≤ 2 := by
  unfold clash at h
  split at h
  · cases h
    omega
  · split at h
    · cases h
      omega
    · cases h

theorem consume_cases (valid : Disposition → Bool) (router : Router) (db : Tables)
    (payload : Disposition) (call : Call) :
    router.Consumed valid db payload call (router.consume valid db payload call).1
      (router.consume valid db payload call).2 := by
  unfold consume
  cases hidentity : authenticate router.tokens call.authorization call.now with
  | error e =>
    refine .raised (fun h => ?_) e
    obtain ⟨identity, hok⟩ := h.identity
    rw [hidentity] at hok
    cases hok
  | ok identity =>
    simp only
    by_cases hvalid : valid payload = true
    · rw [if_pos hvalid]
      cases hsink : sinks payload.verdict with
      | none =>
        refine .raised (fun h => ?_) _
        obtain ⟨sink, hsome⟩ := h.sink
        rw [hsink] at hsome
        cases hsome
      | some sink =>
        simp only
        split
        · next hw =>
          obtain ⟨hfault, rfl⟩ := Connection.writeOrRollback_eq_ok hw
          have hclash : clash db call = none := by
            cases hc : clash db call with
            | none => rfl
            | some n =>
              have hlt : 2 < n := hfault n (by rw [hc]; rfl)
              exact absurd hlt (not_lt_of_ge (clash_le hc))
          obtain ⟨hfresh, hfreshAudit⟩ := (clash_eq_none db call).mp hclash
          refine .stored ⟨⟨identity, hidentity⟩, hvalid, ⟨sink, hsink⟩, hfresh, hfreshAudit, ?_⟩
            ⟨call.identifier, identity.tenant, sink, router.suggestion identity sink payload call⟩
            ⟨call.auditId, identity.tenant, _⟩ rfl rfl
          intro n hn
          exact hfault n (by rw [hclash, hn]; rfl)
        · next hw =>
          obtain ⟨⟨n, hfault, hle⟩, rfl⟩ := Connection.writeOrRollback_eq_error hw
          refine .raised (fun h => ?_) _
          rw [(clash_eq_none db call).mpr ⟨h.fresh, h.freshAudit⟩] at hfault
          have hlt : 2 < n := h.whole n hfault
          exact absurd hlt (not_lt_of_ge hle)
    · rw [if_neg hvalid]
      exact .raised (fun h => hvalid h.valid) _

end Router

end FeedbackService
