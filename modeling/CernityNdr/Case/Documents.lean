import CernityNdr.Case.Store
import CernityNdr.Framework.Conversion
import CernityNdr.Framework.Text

/-! # Case Documents

    The documents that the case API reads and stores, and what
    `finding-service/cases.py` does to them. Here a document is a dictionary,
    as it is in the source: the API writes details into the events of the
    trail that the operations know nothing of.

    * `apply_json`: on the dictionary of a case an operation does what it
      does to the case. -/

namespace CaseApi

open Json

/-- `list(d.get(key, []))`. -/
def items (d : Dict) (key : String) : List Json :=
  match d.get? key with
  | some (.arr xs) => xs
  | _ => []

/-! ### Operations -/

/-- `_audit`. -/
def auditEvent (event actor ts : String) (detail : Dict) : Dict :=
  [("event", .str event), ("actor", .str actor), ("ts", .str ts)] ++
    if detail.isEmpty then [] else [("detail", .obj detail)]

/-- `_touch`. -/
def touch (case event : Dict) : Dict :=
  (case.set "audit" (.arr (items case "audit" ++ [.obj event]))).set "updated" (event.get "ts")

/-- `new_case`. -/
def newCase (caseId tenant title : String) (owner : Json) (actor ts : String) : Dict :=
  [("case_id", .str caseId),
   ("tenant", .str tenant),
   ("title", .str title),
   ("owner", owner),
   ("assignees", .arr []),
   ("status", .str "new"),
   ("notes", .arr []),
   ("linked_findings", .arr []),
   ("linked_entities", .arr []),
   ("created", .str ts),
   ("updated", .str ts),
   ("audit", .arr [.obj (auditEvent "created" actor ts
      [("owner", owner), ("title", .str title)])])]

/-- `change_owner`. -/
def changeOwner (case : Dict) (owner : Json) (actor ts : String) : Dict :=
  (touch case (auditEvent "owner_changed" actor ts
    [("from", case.get "owner"), ("to", owner)])).set "owner" owner

/-- `a == b`, of values in which no member is repeated and no number stands. -/
def same (a b : Json) : Bool := (sortKeys a).beq (sortKeys b)

/-- Add a member to the list `field`, with its event; nothing when it is
    there already. -/
def addOnce (field : String) (case : Dict) (value : Json) (event : Dict) : Dict :=
  if (items case field).any (same value) then case
  else (touch case event).set field (.arr (items case field ++ [value]))

/-- Remove a member of the list `field`, with its event; nothing when it is
    not there. -/
def removeAll (field : String) (case : Dict) (value : Json) (event : Dict) : Dict :=
  if !(items case field).any (same value) then case
  else (touch case event).set field (.arr ((items case field).filter fun a => !same value a))

/-- `assign`. -/
def assign (case : Dict) (assignee : Json) (actor ts : String) : Dict :=
  addOnce "assignees" case assignee (auditEvent "assignee_added" actor ts [("assignee", assignee)])

/-- `unassign`. -/
def unassign (case : Dict) (assignee : Json) (actor ts : String) : Dict :=
  removeAll "assignees" case assignee
    (auditEvent "assignee_removed" actor ts [("assignee", assignee)])

/-- `add_note`. -/
def addNote (case : Dict) (author : String) (text : Json) (ts : String) : Dict :=
  (touch case (auditEvent "note_added" author ts [])).set "notes"
    (.arr (items case "notes" ++
      [.obj [("author", .str author), ("text", text), ("ts", .str ts)]]))

/-- `CASE_TRANSITIONS.get(current, set())`. -/
def caseTransitions (current : Json) : List String :=
  match current with
  | .str "new" => ["investigating", "closed"]
  | .str "investigating" => ["resolved", "closed"]
  | .str "resolved" => ["closed", "investigating"]
  | .str "closed" => ["investigating"]
  | _ => []

/-- `valid_case_transition`. -/
def validCaseTransition (current next : Json) : Bool :=
  (caseTransitions current).any fun status => next.beq (.str status)

/-- `transition`; `none` where it raises `ValueError`. -/
def transition (case : Dict) (status : Json) (actor ts : String) : Option Dict :=
  if validCaseTransition (case.get "status") status then
    some ((touch case (auditEvent "status_changed" actor ts
      [("from", case.get "status"), ("to", status)])).set "status" status)
  else none

/-- `link_finding`. -/
def linkFinding (case : Dict) (findingId : Json) (actor ts : String) : Dict :=
  addOnce "linked_findings" case findingId
    (auditEvent "finding_linked" actor ts [("finding_id", findingId)])

/-- `unlink_finding`. -/
def unlinkFinding (case : Dict) (findingId : Json) (actor ts : String) : Dict :=
  removeAll "linked_findings" case findingId
    (auditEvent "finding_unlinked" actor ts [("finding_id", findingId)])

/-- `link_entity`. -/
def linkEntity (case : Dict) (entity : Json) (actor ts : String) : Dict :=
  addOnce "linked_entities" case entity (auditEvent "entity_linked" actor ts [("entity", entity)])

/-- `unlink_entity`. -/
def unlinkEntity (case : Dict) (entity : Json) (actor ts : String) : Dict :=
  removeAll "linked_entities" case entity
    (auditEvent "entity_unlinked" actor ts [("entity", entity)])

/-! ### Reading after writing -/

@[simp] theorem get?_set_self (d : Dict) (key : String) (v : Json) :
    (d.set key v).get? key = some v :=
  Dict.get?_set_self d key v

theorem items_of_get? {d : Dict} {key : String} {xs : List Json} (h : d.get? key = some (.arr xs)) :
    items d key = xs := by
  rw [items, h]

/-! ### One event -/

/-- The trail of `after` is that of `before` and one event of `actor`. -/
structure Recorded (actor : String) (before after : Dict) : Prop where
  audit : ∃ event : Dict, after.get? "audit" = some (.arr (items before "audit" ++ [.obj event])) ∧
    Dict.get? event "actor" = some (.str actor)

theorem get?_actor_auditEvent (event actor ts : String) (detail : Dict) :
    (auditEvent event actor ts detail).get? "actor" = some (.str actor) := by
  unfold auditEvent
  split
  · simp [Dict.get?]
  · simp [Dict.get?]

theorem recorded_touch (case : Dict) (event actor ts : String) (detail : Dict) :
    Recorded actor case (touch case (auditEvent event actor ts detail)) :=
  ⟨_, by rw [touch, Dict.get?_set_ne _ _ (by decide), Dict.get?_set_self],
    get?_actor_auditEvent event actor ts detail⟩

/-- Setting another member leaves the trail. -/
theorem Recorded.set {actor : String} {before after : Dict} (h : Recorded actor before after)
    {key : String} (hkey : "audit" ≠ key) (v : Json) : Recorded actor before (after.set key v) := by
  obtain ⟨event, haudit, hactor⟩ := h
  exact ⟨event, by rw [Dict.get?_set_ne _ _ hkey, haudit], hactor⟩

/-- Nothing changed, or one event was recorded. -/
def Mutated (actor : String) (before after : Dict) : Prop :=
  after = before ∨ Recorded actor before after

theorem mutated_addOnce {field : String} (hfield : "audit" ≠ field) (case : Dict) (value : Json)
    (event actor ts : String) (detail : Dict) :
    Mutated actor case (addOnce field case value (auditEvent event actor ts detail)) := by
  unfold addOnce
  split
  · exact Or.inl rfl
  · exact Or.inr ((recorded_touch case event actor ts detail).set hfield _)

theorem mutated_removeAll {field : String} (hfield : "audit" ≠ field) (case : Dict) (value : Json)
    (event actor ts : String) (detail : Dict) :
    Mutated actor case (removeAll field case value (auditEvent event actor ts detail)) := by
  unfold removeAll
  split
  · exact Or.inl rfl
  · exact Or.inr ((recorded_touch case event actor ts detail).set hfield _)

/-! ### The dictionary of a case -/

section Dictionary

open CaseManagement (CaseDoc AuditEvent Change Note Entity Status Op ListField)

/-- The text of an owner, or `null`. -/
def ownerJson : Option String → Json
  | none => .null
  | some owner => .str owner

def statusJson : Status → Json
  | .new => .str "new"
  | .investigating => .str "investigating"
  | .resolved => .str "resolved"
  | .closed => .str "closed"

def noteJson (n : Note) : Json :=
  .obj [("author", .str n.author), ("text", .str n.text), ("ts", .str n.ts)]

/-- The name of an event. -/
def changeName : Change → String
  | .created _ _ => "created"
  | .ownerChanged _ _ => "owner_changed"
  | .assigneeAdded _ => "assignee_added"
  | .assigneeRemoved _ => "assignee_removed"
  | .statusChanged _ _ => "status_changed"
  | .noteAdded => "note_added"
  | .findingLinked _ => "finding_linked"
  | .findingUnlinked _ => "finding_unlinked"
  | .entityLinked _ => "entity_linked"
  | .entityUnlinked _ => "entity_unlinked"

def changeDetail : Change → Dict
  | .created owner title => [("owner", ownerJson owner), ("title", .str title)]
  | .ownerChanged old next => [("from", ownerJson old), ("to", ownerJson next)]
  | .assigneeAdded a => [("assignee", .str a)]
  | .assigneeRemoved a => [("assignee", .str a)]
  | .statusChanged old next => [("from", statusJson old), ("to", statusJson next)]
  | .noteAdded => []
  | .findingLinked f => [("finding_id", .str f)]
  | .findingUnlinked f => [("finding_id", .str f)]
  | .entityLinked e => [("entity", e.json)]
  | .entityUnlinked e => [("entity", e.json)]

def eventJson (e : AuditEvent) : Dict :=
  auditEvent (changeName e.change) e.actor e.ts (changeDetail e.change)

def caseJson (c : CaseDoc) : Dict :=
  [("case_id", .str c.caseId),
   ("tenant", .str c.tenant),
   ("title", .str c.title),
   ("owner", ownerJson c.owner),
   ("assignees", .arr (c.assignees.map .str)),
   ("status", statusJson c.status),
   ("notes", .arr (c.notes.map noteJson)),
   ("linked_findings", .arr (c.linkedFindings.map .str)),
   ("linked_entities", .arr (c.linkedEntities.map Entity.json)),
   ("created", .str c.created),
   ("updated", .str c.updated),
   ("audit", .arr (c.audit.map fun e => .obj (eventJson e)))]

/-- An operation on the dictionary. -/
def applyJson (case : Dict) : Op → Option Dict
  | .changeOwner owner actor ts => some (changeOwner case (ownerJson owner) actor ts)
  | .assign assignee actor ts => some (assign case (.str assignee) actor ts)
  | .unassign assignee actor ts => some (unassign case (.str assignee) actor ts)
  | .addNote author text ts => some (addNote case author (.str text) ts)
  | .transition status actor ts => transition case (statusJson status) actor ts
  | .linkFinding findingId actor ts => some (linkFinding case (.str findingId) actor ts)
  | .unlinkFinding findingId actor ts => some (unlinkFinding case (.str findingId) actor ts)
  | .linkEntity entity actor ts => some (linkEntity case entity.json actor ts)
  | .unlinkEntity entity actor ts => some (unlinkEntity case entity.json actor ts)

theorem newCase_json (caseId tenant title : String) (owner : Option String) (actor ts : String) :
    newCase caseId tenant title (ownerJson owner) actor ts =
      caseJson (CaseManagement.newCase caseId tenant title owner actor ts) := rfl

theorem get_event_ts (e : AuditEvent) : (eventJson e).get "ts" = .str e.ts := by
  obtain ⟨change, actor, ts⟩ := e
  cases change <;> rfl

theorem touch_json (c : CaseDoc) (e : AuditEvent) :
    touch (caseJson c) (eventJson e) = caseJson (CaseManagement.touch c e) := by
  rw [touch, get_event_ts]
  simp [items, Dict.get?, Dict.set, caseJson, CaseManagement.touch]

theorem same_str (a b : String) : same (.str a) (.str b) = decide (a = b) := by
  rw [Bool.eq_iff_iff]
  simp [same, sortKeys, Json.beq]

theorem same_entity (a b : Entity) : same a.json b.json = decide (a = b) := by
  obtain ⟨s, v⟩ := a
  obtain ⟨t, w⟩ := b
  rw [Bool.eq_iff_iff]
  cases s <;> cases t <;>
    simp [same, sortKeys, sortKeys.members, Json.beq, Json.beq.members, Entity.json,
      CaseManagement.EntityType.text, List.insertionSort]

section Lists

variable {α : Type} [DecidableEq α] {json : α → Json}
  (hsame : ∀ a b, same (json a) (json b) = decide (a = b))
include hsame

theorem any_same (l : List α) (a : α) : (l.map json).any (same (json a)) = decide (a ∈ l) := by
  rw [Bool.eq_iff_iff, List.any_map, List.any_eq_true, decide_eq_true_iff]
  constructor
  · rintro ⟨b, hb, heq⟩
    rw [Function.comp_apply, hsame, decide_eq_true_iff] at heq
    exact heq ▸ hb
  · intro ha
    exact ⟨a, ha, by rw [Function.comp_apply, hsame, decide_eq_true_iff]⟩

theorem filter_same (l : List α) (a : α) :
    (l.map json).filter (fun b => !same (json a) b) = (l.filter (· ≠ a)).map json := by
  rw [List.filter_map]
  congr 1
  apply List.filter_congr
  intro b _
  simp [hsame, eq_comm]

variable {field : ListField α} {key : String} {c : CaseDoc}
  (hitems : items (caseJson c) key = (field.get c).map json)
  (hset : ∀ d l, (caseJson d).set key (.arr (l.map json)) = caseJson (field.set d l))
include hitems hset

theorem addOnce_json (a : α) (e : AuditEvent) :
    addOnce key (caseJson c) (json a) (eventJson e) =
      caseJson (CaseManagement.addOnce field c a e) := by
  unfold addOnce CaseManagement.addOnce
  rw [hitems, any_same hsame, touch_json]
  by_cases ha : a ∈ field.get c
  · simp [ha]
  · have hmap : (field.get c).map json ++ [json a] = (field.get c ++ [a]).map json := by simp
    rw [hmap, hset]
    simp [ha]

theorem removeAll_json (a : α) (e : AuditEvent) :
    removeAll key (caseJson c) (json a) (eventJson e) =
      caseJson (CaseManagement.removeAll field c a e) := by
  unfold removeAll CaseManagement.removeAll
  rw [hitems, any_same hsame, touch_json, filter_same hsame, hset]
  by_cases ha : a ∈ field.get c
  · simp [ha]
  · simp [ha]

end Lists

theorem assignees_set (d : CaseDoc) (l : List String) :
    (caseJson d).set "assignees" (.arr (l.map .str)) =
      caseJson (CaseManagement.assigneesField.set d l) := by
  simp [Dict.set, caseJson, CaseManagement.assigneesField]

theorem findings_set (d : CaseDoc) (l : List String) :
    (caseJson d).set "linked_findings" (.arr (l.map .str)) =
      caseJson (CaseManagement.findingsField.set d l) := by
  simp [Dict.set, caseJson, CaseManagement.findingsField]

theorem entities_set (d : CaseDoc) (l : List Entity) :
    (caseJson d).set "linked_entities" (.arr (l.map Entity.json)) =
      caseJson (CaseManagement.entitiesField.set d l) := by
  simp [Dict.set, caseJson, CaseManagement.entitiesField]

theorem assignees_items (c : CaseDoc) : items (caseJson c) "assignees" =
    (CaseManagement.assigneesField.get c).map .str := by
  simp [items, Dict.get?, caseJson, CaseManagement.assigneesField]

theorem findings_items (c : CaseDoc) : items (caseJson c) "linked_findings" =
    (CaseManagement.findingsField.get c).map .str := by
  simp [items, Dict.get?, caseJson, CaseManagement.findingsField]

theorem entities_items (c : CaseDoc) : items (caseJson c) "linked_entities" =
    (CaseManagement.entitiesField.get c).map Entity.json := by
  simp [items, Dict.get?, caseJson, CaseManagement.entitiesField]

theorem validCaseTransition_json (current next : Status) :
    validCaseTransition (statusJson current) (statusJson next) =
      CaseManagement.validCaseTransition current next := by
  cases current <;> cases next <;> rfl

/-- On the dictionary of a case an operation does what it does to the case. -/
theorem apply_json (c : CaseDoc) (op : Op) :
    applyJson (caseJson c) op = (op.apply c).toOption.map caseJson := by
  cases op with
  | changeOwner owner actor ts =>
    have howner : (caseJson c).get "owner" = ownerJson c.owner := rfl
    have htouch := touch_json c ⟨.ownerChanged c.owner owner, actor, ts⟩
    simp only [eventJson, changeName, changeDetail] at htouch
    rw [applyJson, changeOwner, howner, htouch]
    simp [Dict.set, caseJson, Op.apply, CaseManagement.changeOwner, Except.toOption]
  | assign a actor ts =>
    exact congrArg some (addOnce_json same_str (assignees_items c) assignees_set a
      ⟨.assigneeAdded a, actor, ts⟩)
  | unassign a actor ts =>
    exact congrArg some (removeAll_json same_str (assignees_items c) assignees_set a
      ⟨.assigneeRemoved a, actor, ts⟩)
  | addNote author text ts =>
    have hnotes : items (caseJson c) "notes" = c.notes.map noteJson := by
      simp [items, Dict.get?, caseJson]
    have htouch := touch_json c ⟨.noteAdded, author, ts⟩
    simp only [eventJson, changeName, changeDetail] at htouch
    rw [applyJson, addNote, htouch, hnotes]
    simp [Dict.set, caseJson, noteJson, Op.apply, CaseManagement.addNote, Except.toOption]
  | transition status actor ts =>
    have hstatus : (caseJson c).get "status" = statusJson c.status := rfl
    have htouch := touch_json c ⟨.statusChanged c.status status, actor, ts⟩
    simp only [eventJson, changeName, changeDetail] at htouch
    rw [applyJson, transition, hstatus, htouch, validCaseTransition_json]
    by_cases hvalid : CaseManagement.validCaseTransition c.status status = true
    · simp [hvalid, Dict.set, caseJson, Op.apply, CaseManagement.transition, Except.toOption]
    · simp [hvalid, Op.apply, CaseManagement.transition, Except.toOption]
  | linkFinding f actor ts =>
    exact congrArg some (addOnce_json same_str (findings_items c) findings_set f
      ⟨.findingLinked f, actor, ts⟩)
  | unlinkFinding f actor ts =>
    exact congrArg some (removeAll_json same_str (findings_items c) findings_set f
      ⟨.findingUnlinked f, actor, ts⟩)
  | linkEntity e actor ts =>
    exact congrArg some (addOnce_json same_entity (entities_items c) entities_set e
      ⟨.entityLinked e, actor, ts⟩)
  | unlinkEntity e actor ts =>
    exact congrArg some (removeAll_json same_entity (entities_items c) entities_set e
      ⟨.entityUnlinked e, actor, ts⟩)

end Dictionary

end CaseApi
