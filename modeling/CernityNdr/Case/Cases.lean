import Mathlib.Data.List.Basic

/-! # Cases

    The model of `finding-service/cases.py`: a case document (case.v1), the
    nine operations that analysts have on it, and the dispositions that a
    resolved case feeds back (`caseDispositions`).

    Every operation that changes the document appends one event to its audit
    trail (`touch`). The operations are pure; `Op` names them so that a
    history of a case is a list. -/

namespace CaseManagement

/-! ### Documents -/

/-- `CASE_STATUSES`. -/
inductive Status
  | new | investigating | resolved | closed
deriving DecidableEq, Repr

inductive EntityType
  | ip | hostname | domain | asset
deriving DecidableEq, Repr

structure Entity where
  etype : EntityType
  value : String
deriving DecidableEq, Repr

structure Note where
  author : String
  text : String
  ts : String
deriving DecidableEq, Repr

/-- The name of an audit event with its detail. -/
inductive Change
  | created (owner : Option String) (title : String)
  | ownerChanged (old next : Option String)
  | assigneeAdded (assignee : String)
  | assigneeRemoved (assignee : String)
  | statusChanged (old next : Status)
  | noteAdded
  | findingLinked (findingId : String)
  | findingUnlinked (findingId : String)
  | entityLinked (entity : Entity)
  | entityUnlinked (entity : Entity)
deriving DecidableEq, Repr

structure AuditEvent where
  change : Change
  actor : String
  ts : String
deriving DecidableEq, Repr

/-- A case.v1 document. -/
structure CaseDoc where
  caseId : String
  tenant : String
  title : String
  owner : Option String
  assignees : List String
  status : Status
  notes : List Note
  linkedFindings : List String
  linkedEntities : List Entity
  created : String
  updated : String
  audit : List AuditEvent
deriving DecidableEq, Repr

/-! ### Operations -/

/-- The `ValueError`s of this module. -/
inductive CaseError
  /-- `illegal case transition` -/
  | illegalTransition (current next : Status)
  /-- `unsupported disposition verdict` -/
  | unsupportedVerdict (verdict : String)
  /-- `verdict finding ... not linked to case` -/
  | findingNotLinked (findingId caseId : String)
  /-- `verdict entity ... not linked to case` -/
  | entityNotLinked (entity : Entity) (caseId : String)
  /-- `tenant is immutable` -/
  | tenantImmutable
  /-- a statement or a commit of the store raises -/
  | sqliteError
deriving DecidableEq, Repr

/-- `_touch`. -/
def touch (case : CaseDoc) (event : AuditEvent) : CaseDoc :=
  { case with audit := case.audit ++ [event], updated := event.ts }

/-- `new_case`. -/
def newCase (caseId tenant title : String) (owner : Option String) (actor ts : String) : CaseDoc where
  caseId := caseId
  tenant := tenant
  title := title
  owner := owner
  assignees := []
  status := .new
  notes := []
  linkedFindings := []
  linkedEntities := []
  created := ts
  updated := ts
  audit := [⟨.created owner title, actor, ts⟩]

/-- `change_owner`. -/
def changeOwner (case : CaseDoc) (owner : Option String) (actor ts : String) : CaseDoc :=
  { touch case ⟨.ownerChanged case.owner owner, actor, ts⟩ with owner := owner }

/-- A list of the document. -/
structure ListField (α : Type) where
  get : CaseDoc → List α
  set : CaseDoc → List α → CaseDoc

def assigneesField : ListField String := ⟨CaseDoc.assignees, fun c l => { c with assignees := l }⟩

def findingsField : ListField String :=
  ⟨CaseDoc.linkedFindings, fun c l => { c with linkedFindings := l }⟩

def entitiesField : ListField Entity :=
  ⟨CaseDoc.linkedEntities, fun c l => { c with linkedEntities := l }⟩

/-- Add a member, with its event; nothing when it is there already. -/
def addOnce {α : Type} [DecidableEq α] (field : ListField α) (case : CaseDoc) (a : α)
    (event : AuditEvent) : CaseDoc :=
  if a ∈ field.get case then case else field.set (touch case event) (field.get case ++ [a])

/-- Remove a member, with its event; nothing when it is not there. -/
def removeAll {α : Type} [DecidableEq α] (field : ListField α) (case : CaseDoc) (a : α)
    (event : AuditEvent) : CaseDoc :=
  if a ∉ field.get case then case
  else field.set (touch case event) ((field.get case).filter (· ≠ a))

/-- `assign`. -/
def assign (case : CaseDoc) (assignee actor ts : String) : CaseDoc :=
  addOnce assigneesField case assignee ⟨.assigneeAdded assignee, actor, ts⟩

/-- `unassign`. -/
def unassign (case : CaseDoc) (assignee actor ts : String) : CaseDoc :=
  removeAll assigneesField case assignee ⟨.assigneeRemoved assignee, actor, ts⟩

/-- `add_note`. -/
def addNote (case : CaseDoc) (author text ts : String) : CaseDoc :=
  { touch case ⟨.noteAdded, author, ts⟩ with notes := case.notes ++ [⟨author, text, ts⟩] }

/-- `valid_case_transition`, over `CASE_TRANSITIONS`. -/
def validCaseTransition (current next : Status) : Bool :=
  match current with
  | .new => next ∈ [Status.investigating, .closed]
  | .investigating => next ∈ [Status.resolved, .closed]
  | .resolved => next ∈ [Status.closed, .investigating]
  | .closed => next ∈ [Status.investigating]

/-- `transition`. -/
def transition (case : CaseDoc) (status : Status) (actor ts : String) : Except CaseError CaseDoc :=
  if validCaseTransition case.status status then
    .ok { touch case ⟨.statusChanged case.status status, actor, ts⟩ with status := status }
  else .error (.illegalTransition case.status status)

/-- `link_finding`. -/
def linkFinding (case : CaseDoc) (findingId actor ts : String) : CaseDoc :=
  addOnce findingsField case findingId ⟨.findingLinked findingId, actor, ts⟩

/-- `unlink_finding`. -/
def unlinkFinding (case : CaseDoc) (findingId actor ts : String) : CaseDoc :=
  removeAll findingsField case findingId ⟨.findingUnlinked findingId, actor, ts⟩

/-- `link_entity`. -/
def linkEntity (case : CaseDoc) (entity : Entity) (actor ts : String) : CaseDoc :=
  addOnce entitiesField case entity ⟨.entityLinked entity, actor, ts⟩

/-- `unlink_entity`. -/
def unlinkEntity (case : CaseDoc) (entity : Entity) (actor ts : String) : CaseDoc :=
  removeAll entitiesField case entity ⟨.entityUnlinked entity, actor, ts⟩

/-- A call of one of the operations. -/
inductive Op
  | changeOwner (owner : Option String) (actor ts : String)
  | assign (assignee actor ts : String)
  | unassign (assignee actor ts : String)
  | addNote (author text ts : String)
  | transition (status : Status) (actor ts : String)
  | linkFinding (findingId actor ts : String)
  | unlinkFinding (findingId actor ts : String)
  | linkEntity (entity : Entity) (actor ts : String)
  | unlinkEntity (entity : Entity) (actor ts : String)
deriving DecidableEq, Repr

def Op.apply (case : CaseDoc) : Op → Except CaseError CaseDoc
  | changeOwner owner actor ts => .ok (CaseManagement.changeOwner case owner actor ts)
  | assign assignee actor ts => .ok (CaseManagement.assign case assignee actor ts)
  | unassign assignee actor ts => .ok (CaseManagement.unassign case assignee actor ts)
  | addNote author text ts => .ok (CaseManagement.addNote case author text ts)
  | transition status actor ts => CaseManagement.transition case status actor ts
  | linkFinding findingId actor ts => .ok (CaseManagement.linkFinding case findingId actor ts)
  | unlinkFinding findingId actor ts => .ok (CaseManagement.unlinkFinding case findingId actor ts)
  | linkEntity entity actor ts => .ok (CaseManagement.linkEntity case entity actor ts)
  | unlinkEntity entity actor ts => .ok (CaseManagement.unlinkEntity case entity actor ts)

/-! ### Dispositions -/

/-- An analyst's verdict on one finding. -/
structure Verdict where
  findingId : String
  entity : Entity
  verdict : String
  reason : String
  analyst : String
  ts : String
deriving DecidableEq, Repr

inductive Scope
  | entity | finding
deriving DecidableEq, Repr

/-- A disposition.v1 record. -/
structure Disposition where
  findingId : String
  entity : Entity
  verdict : String
  reason : String
  analyst : String
  tenant : String
  ts : String
  scope : Scope
deriving DecidableEq, Repr

/-- `_DISPOSITION_VERDICTS`. -/
def dispositionVerdicts : List String :=
  ["true_positive", "false_positive", "benign", "allowlist"]

/-- The record of one verdict. -/
def caseDisposition (case : CaseDoc) (v : Verdict) : Except CaseError Disposition :=
  if v.verdict ∉ dispositionVerdicts then .error (.unsupportedVerdict v.verdict)
  else if v.findingId ∉ case.linkedFindings then
    .error (.findingNotLinked v.findingId case.caseId)
  else if v.entity ∉ case.linkedEntities then .error (.entityNotLinked v.entity case.caseId)
  else .ok { findingId := v.findingId, entity := v.entity, verdict := v.verdict,
             reason := v.reason, analyst := v.analyst, tenant := case.tenant, ts := v.ts,
             scope := if v.verdict = "allowlist" then .entity else .finding }

/-- `case_dispositions`. -/
def caseDispositions (case : CaseDoc) (verdicts : List Verdict) :
    Except CaseError (List Disposition) :=
  if case.status = .resolved ∨ case.status = .closed then verdicts.mapM (caseDisposition case)
  else .ok []

end CaseManagement
