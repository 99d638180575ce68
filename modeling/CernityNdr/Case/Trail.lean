import CernityNdr.Case.Cases
import CernityNdr.Framework.Run

/-! # The Audit Trail as a Log

    What the trail of a case says of the case, over every history of
    operations: nothing is taken out of it, its events are the changes of
    the document, and the document can be read back from it (`replay`).

    * `op_cases`: an operation changes nothing, or it appends one event that
      says what it did.
    * `trail_complete_iff`: the trail is a complete log of a history,
      exactly when the history never hands a case to the owner it has. -/

namespace CaseManagement

/-! ### Reading the trail back -/

/-- What the trail says of a document. -/
@[ext] structure Snapshot where
  owner : Option String
  assignees : List String
  status : Status
  linkedFindings : List String
  linkedEntities : List Entity
  noteAuthors : List String
deriving DecidableEq, Repr

/-- An empty case. -/
def Snapshot.empty : Snapshot := ⟨none, [], .new, [], [], []⟩

/-- What one event adds. -/
def Snapshot.next (s : Snapshot) (event : AuditEvent) : Snapshot :=
  match event.change with
  | .created owner _ => { s with owner := owner }
  | .ownerChanged _ owner => { s with owner := owner }
  | .assigneeAdded a => { s with assignees := s.assignees ++ [a] }
  | .assigneeRemoved a => { s with assignees := s.assignees.filter (· ≠ a) }
  | .statusChanged _ status => { s with status := status }
  | .noteAdded => { s with noteAuthors := s.noteAuthors ++ [event.actor] }
  | .findingLinked f => { s with linkedFindings := s.linkedFindings ++ [f] }
  | .findingUnlinked f => { s with linkedFindings := s.linkedFindings.filter (· ≠ f) }
  | .entityLinked e => { s with linkedEntities := s.linkedEntities ++ [e] }
  | .entityUnlinked e => { s with linkedEntities := s.linkedEntities.filter (· ≠ e) }

def replay (trail : List AuditEvent) : Snapshot := trail.foldl Snapshot.next .empty

namespace CaseDoc

/-- The fields that the trail is a log of. -/
def snapshot (case : CaseDoc) : Snapshot where
  owner := case.owner
  assignees := case.assignees
  status := case.status
  linkedFindings := case.linkedFindings
  linkedEntities := case.linkedEntities
  noteAuthors := case.notes.map Note.author

/-- All fields but the trail and its time. -/
def content (case : CaseDoc) : CaseDoc := { case with audit := [], updated := "" }

/-- The operation hands the case to the owner it has. -/
def Reaffirms (case : CaseDoc) : Op → Prop
  | .changeOwner owner _ _ => owner = case.owner
  | _ => False

/-- An operation on a case; one that raises leaves it unchanged. -/
def step (case : CaseDoc) (op : Op) : CaseDoc :=
  match op.apply case with
  | .ok case' => case'
  | .error _ => case

end CaseDoc

/-! ### One operation -/

/-- `after` is `before` with one event, which says what changed. -/
structure Logged (before after : CaseDoc) (event : AuditEvent) : Prop where
  audit : after.audit = before.audit ++ [event]
  updated : after.updated = event.ts
  snapshot : after.snapshot = before.snapshot.next event

theorem append_ne_self {α : Type} (l : List α) (a : α) : l ++ [a] ≠ l := by
  intro h
  have := congrArg List.length h
  simp at this

section Fields

variable {α : Type} [DecidableEq α] {field : ListField α} {case : CaseDoc} {a : α}
  {event : AuditEvent}

/-- Adding a member changes nothing, or is logged and changes the list. -/
theorem addOnce_cases (hcontent : ∀ c c', c.content = c'.content → field.get c = field.get c')
    (hget : ∀ c l, field.get (field.set c l) = l)
    (hlog : Logged case (field.set (touch case event) (field.get case ++ [a])) event) :
    addOnce field case a event = case ∨ Logged case (addOnce field case a event) event ∧
      (addOnce field case a event).content ≠ case.content := by
  unfold addOnce
  by_cases ha : a ∈ field.get case
  · rw [if_pos ha]
    exact Or.inl rfl
  · rw [if_neg ha]
    refine Or.inr ⟨hlog, fun h => ?_⟩
    have hlist := hcontent _ _ h
    rw [hget] at hlist
    exact append_ne_self _ _ hlist

/-- Removing a member changes nothing, or is logged and changes the list. -/
theorem removeAll_cases (hcontent : ∀ c c', c.content = c'.content → field.get c = field.get c')
    (hget : ∀ c l, field.get (field.set c l) = l)
    (hlog : Logged case (field.set (touch case event) ((field.get case).filter (· ≠ a))) event) :
    removeAll field case a event = case ∨ Logged case (removeAll field case a event) event ∧
      (removeAll field case a event).content ≠ case.content := by
  unfold removeAll
  by_cases ha : a ∈ field.get case
  · rw [if_neg (not_not.mpr ha)]
    refine Or.inr ⟨hlog, fun h => ?_⟩
    have hlist := hcontent _ _ h
    rw [hget, List.filter_eq_self] at hlist
    simpa using hlist a ha
  · rw [if_pos ha]
    exact Or.inl rfl

end Fields

theorem assignees_of_content (c c' : CaseDoc) (h : c.content = c'.content) :
    assigneesField.get c = assigneesField.get c' := by
  have hlist := congrArg CaseDoc.assignees h
  exact hlist

theorem findings_of_content (c c' : CaseDoc) (h : c.content = c'.content) :
    findingsField.get c = findingsField.get c' := by
  have hlist := congrArg CaseDoc.linkedFindings h
  exact hlist

theorem entities_of_content (c c' : CaseDoc) (h : c.content = c'.content) :
    entitiesField.get c = entitiesField.get c' := by
  have hlist := congrArg CaseDoc.linkedEntities h
  exact hlist

/-- What an operation did: nothing, or one event. -/
def OpOutcome (before after : CaseDoc) (reaffirms : Prop) : Prop :=
  (after = before ∧ ¬ reaffirms) ∨
    ∃ event, Logged before after event ∧ (after.content = before.content ↔ reaffirms)

/-- The outcome of the operations that never reaffirm. -/
theorem OpOutcome.of_cases {before after : CaseDoc} {event : AuditEvent}
    (h : after = before ∨ Logged before after event ∧ after.content ≠ before.content) :
    OpOutcome before after False := by
  rcases h with h | ⟨hlog, hne⟩
  · exact Or.inl ⟨h, id⟩
  · exact Or.inr ⟨event, hlog, hne, False.elim⟩

/-- An operation changes nothing, or appends one event. Only a change of
    owner can append one and leave the other fields as they were. -/
theorem op_cases (case : CaseDoc) (op : Op) :
    OpOutcome case (case.step op) (case.Reaffirms op) := by
  cases op with
  | changeOwner owner actor ts =>
    refine Or.inr ⟨⟨.ownerChanged case.owner owner, actor, ts⟩, ⟨rfl, rfl, rfl⟩, ?_⟩
    constructor
    · intro h
      exact congrArg CaseDoc.owner h
    · intro (h : owner = case.owner)
      subst h
      rfl
  | assign a actor ts =>
    exact .of_cases (addOnce_cases assignees_of_content (fun _ _ => rfl) ⟨rfl, rfl, rfl⟩)
  | unassign a actor ts =>
    exact .of_cases (removeAll_cases assignees_of_content (fun _ _ => rfl) ⟨rfl, rfl, rfl⟩)
  | addNote author text ts =>
    refine @OpOutcome.of_cases _ _ ⟨.noteAdded, author, ts⟩ (Or.inr ⟨⟨rfl, rfl, ?_⟩, fun h => ?_⟩)
    · simp [CaseDoc.step, Op.apply, addNote, touch, CaseDoc.snapshot, Snapshot.next]
    · exact append_ne_self case.notes _ (congrArg CaseDoc.notes h)
  | transition status actor ts =>
    by_cases hvalid : validCaseTransition case.status status = true
    · have hstep : case.step (.transition status actor ts) =
          { touch case ⟨.statusChanged case.status status, actor, ts⟩ with status := status } := by
        simp only [CaseDoc.step, Op.apply, transition, if_pos hvalid]
      rw [hstep]
      refine @OpOutcome.of_cases _ _ ⟨.statusChanged case.status status, actor, ts⟩
        (Or.inr ⟨⟨rfl, rfl, rfl⟩, fun h => ?_⟩)
      -- the table has no move from a status to itself
      have hsame : status = case.status := congrArg CaseDoc.status h
      rw [hsame] at hvalid
      revert hvalid
      cases case.status <;> decide
    · refine @OpOutcome.of_cases _ _ ⟨.noteAdded, actor, ts⟩ (Or.inl ?_)
      simp only [CaseDoc.step, Op.apply, transition, if_neg hvalid]
  | linkFinding f actor ts =>
    exact .of_cases (addOnce_cases findings_of_content (fun _ _ => rfl) ⟨rfl, rfl, rfl⟩)
  | unlinkFinding f actor ts =>
    exact .of_cases (removeAll_cases findings_of_content (fun _ _ => rfl) ⟨rfl, rfl, rfl⟩)
  | linkEntity e actor ts =>
    exact .of_cases (addOnce_cases entities_of_content (fun _ _ => rfl) ⟨rfl, rfl, rfl⟩)
  | unlinkEntity e actor ts =>
    exact .of_cases (removeAll_cases entities_of_content (fun _ _ => rfl) ⟨rfl, rfl, rfl⟩)

/-! ### Histories -/

namespace CaseDoc

/-- One step, as the trail should log it: one event when another field
    changes, none when nothing does. -/
structure StepLogged (before after : CaseDoc) : Prop where
  changed : after.content ≠ before.content → ∃ event, after.audit = before.audit ++ [event]
  unchanged : after.content = before.content → after.audit = before.audit

/-- The trail of a document accounts for it. -/
structure Accounted (case : CaseDoc) : Prop where
  updated : case.audit.getLast?.map AuditEvent.ts = some case.updated
  replayed : replay case.audit = case.snapshot

/-- The trail is a complete log of the history `ops`. -/
structure TrailComplete (start : CaseDoc) (ops : List Op) : Prop where
  grows : ∀ pre more, pre <+: more → more <+: ops →
    (Machine.run step start pre).audit <+: (Machine.run step start more).audit
  logged : ∀ pre op, pre ++ [op] <+: ops →
    StepLogged (Machine.run step start pre) (Machine.run step start (pre ++ [op]))
  accounted : ∀ pre, pre <+: ops → Accounted (Machine.run step start pre)

theorem audit_step (case : CaseDoc) (op : Op) : case.audit <+: (case.step op).audit := by
  rcases op_cases case op with ⟨h, -⟩ | ⟨event, hlog, -⟩
  · rw [h]
  · rw [hlog.audit]
    exact List.prefix_append _ _

theorem audit_run (case : CaseDoc) (ops : List Op) :
    case.audit <+: (Machine.run step case ops).audit := by
  induction ops generalizing case with
  | nil => exact List.prefix_refl _
  | cons op ops ih => exact (audit_step case op).trans (ih (case.step op))

theorem Accounted.step {case : CaseDoc} (h : Accounted case) (op : Op) :
    Accounted (case.step op) := by
  rcases op_cases case op with ⟨heq, -⟩ | ⟨event, hlog, -⟩
  · rwa [heq]
  · constructor
    · rw [hlog.audit, hlog.updated]
      simp
    · rw [hlog.audit, hlog.snapshot, ← h.replayed]
      simp [replay]

theorem accounted_newCase (caseId tenant title : String) (owner : Option String)
    (actor ts : String) : Accounted (newCase caseId tenant title owner actor ts) := ⟨rfl, rfl⟩

/-- A step is logged as it should be unless it reaffirms the owner. -/
theorem stepLogged_iff (case : CaseDoc) (op : Op) :
    StepLogged case (case.step op) ↔ ¬ case.Reaffirms op := by
  rcases op_cases case op with ⟨heq, hnot⟩ | ⟨event, hlog, hiff⟩
  · rw [heq]
    exact ⟨fun _ => hnot, fun _ => ⟨fun h => absurd rfl h, fun _ => rfl⟩⟩
  · constructor
    · intro h hre
      have hsame := h.unchanged (hiff.mpr hre)
      rw [hlog.audit] at hsame
      exact append_ne_self _ _ hsame
    · intro hnot
      exact ⟨fun _ => ⟨event, hlog.audit⟩, fun h => absurd (hiff.mp h) hnot⟩

/-- **The trail is a complete log** of a history, exactly when no operation
    of it hands the case to the owner it has. -/
theorem trail_complete_iff (caseId tenant title : String) (owner : Option String)
    (actor ts : String) (ops : List Op) :
    TrailComplete (newCase caseId tenant title owner actor ts) ops ↔
      Machine.Meets step (fun case op => ¬ case.Reaffirms op)
        (newCase caseId tenant title owner actor ts) ops := by
  constructor
  · intro h pre op post heq
    have hstep := h.logged pre op ⟨post, by rw [heq]; simp⟩
    rw [Machine.run_snoc] at hstep
    exact (stepLogged_iff _ op).mp hstep
  · intro h
    constructor
    · rintro pre more ⟨rest, rfl⟩ -
      rw [Machine.run_append]
      exact audit_run _ rest
    · intro pre op hpre
      rw [Machine.run_snoc]
      exact (stepLogged_iff _ op).mpr (h.of_initial hpre).last
    · intro pre _
      exact Machine.run_invariant (P := Accounted) (fun _ op hacc => hacc.step op)
        (accounted_newCase caseId tenant title owner actor ts) pre

/-- A new case is handed to its owner: an event for no change. -/
theorem reaffirmed_owner_logged :
    ¬ TrailComplete (newCase "c1" "acme" "beacon" (some "alice") "alice" "2026-09-01T00:00:00Z")
      [.changeOwner (some "alice") "alice" "2026-09-01T00:00:00Z"] := by
  intro h
  have hlogged := (h.logged [] _ (List.prefix_refl _)).unchanged rfl
  exact absurd hlogged (by decide)

end CaseDoc

end CaseManagement
