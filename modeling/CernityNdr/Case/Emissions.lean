import CernityNdr.Case.HashChain
import CernityNdr.Case.Verdicts

/-! # Emissions into the Outbox

    The whole database of `CaseStore`: the cases that the API changes, and the
    outbox of dispositions. A caller of `mutate` passes a function that
    changes the case as the routes of the API do and collects the records of
    `case_dispositions`; the new document and the records are stored in one
    transaction. Requests of the API and such callers are threads that share
    the lock of the store.

    * `RowsLinkable`: what a step under the lock keeps of the cases.
    * `outbox_made`: over every interleaving, each row of the outbox is the
      record of a verdict that a caller stated. -/

namespace CaseApi

open Json

/-! ### Functions of a mutation -/

/-- A step of the function that a caller passes. -/
inductive Action
  /-- a route of the API, with the value of its request -/
  | change (route : Route) (value : Json) (actor ts : String)
  | emit (verdicts : List Dict)

/-- The function: the document is changed step by step, and the records are
    collected; `none` where it raises. -/
def runScript : Dict → List Action → Option (Dict × List Dict)
  | case, [] => some (case, [])
  | case, .change route value actor ts :: rest => do
    let value ← (checked route value).toOption
    let changed ← route.apply case value actor ts
    runScript changed rest
  | case, .emit verdicts :: rest => do
    let records ← caseDispositions case verdicts
    let out ← runScript case rest
    some (out.1, records ++ out.2)

/-- A call of `mutate`. -/
structure Emission where
  caseId : String
  tenants : List String
  script : List Action

/-- The call states the verdict. -/
def Emission.States (e : Emission) (v : Dict) : Prop :=
  ∃ verdicts, Action.emit verdicts ∈ e.script ∧ v ∈ verdicts

/-! ### The database -/

/-- A row of `dispositions`: the record is text. -/
structure OutboxRow where
  id : String
  caseId : String
  tenant : String
  record : List Char
  delivered : Bool

abbrev Outbox := Registry OutboxRow.id

structure Database where
  cases : Rows
  dispositions : Outbox

def Database.empty : Database := ⟨.empty, .empty⟩

/-- `json.loads` of the record. -/
def OutboxRow.load (row : OutboxRow) : Option Dict := (loads row.record).bind obj?

/-- `INSERT OR IGNORE`. -/
def insertRow (rows : Outbox) (row : OutboxRow) : Outbox :=
  match rows.get? row.id with
  | some _ => rows
  | none => rows.put row

section Mutate

variable (sha1 : List Char → String)

/-- The text that a value has in a key, which holds no other values. -/
def keyText (v : Json) : List Char := (v.str?.getD "").toList

/-- `_disp_id`. -/
def dispId (caseId : String) (seq : Nat) (record : Dict) : String :=
  let zero : Char := Char.ofNat 0
  sha1 (caseId.toList ++ zero :: (intText seq ++ zero :: (keyText (record.get "finding_id") ++
    zero :: ((sortKeys (record.get "entity")).dumps ++ zero :: keyText (record.get "verdict")))))

/-- The row of a record. Its sequence number is the length of the new trail. -/
def outboxRow (caseId : String) (new record : Dict) : OutboxRow where
  id := dispId sha1 caseId (items new "audit").length record
  caseId := caseId
  tenant := ((new.get "tenant").str?).getD ""
  record := dumps (.obj record)
  delivered := false

/-- What `mutate` comes to. -/
inductive Outcome
  /-- it returns `None` -/
  | absent
  /-- the function, the check of the tenant, a statement or the commit raises -/
  | raised
  | stored (new : Dict)

/-- `mutate`, under the lock. `fails` says that a statement or the commit
    raises; the transaction is rolled back. -/
def mutateCase (e : Emission) (fails : Bool) (db : Database) : Database × Outcome :=
  match (db.cases.get? e.caseId).filter fun row => row.tenant ∈ e.tenants with
  | none => (db, .absent)
  | some row =>
    match row.load.bind fun doc => runScript doc e.script with
    | none => (db, .raised)
    | some (new, records) =>
      if !(new.get "tenant").beq (.str row.tenant) || fails then (db, .raised)
      else
        (⟨db.cases.put { row with doc := dumps (.obj new) },
          (records.map (outboxRow sha1 e.caseId new)).foldl insertRow db.dispositions⟩, .stored new)

end Mutate

/-! ### Threads -/

/-- A request of the API, or a call of `mutate`. -/
abbrev Call := Request ⊕ Emission

/-- What a thread does under the lock. -/
inductive Job
  | task (t : Task)
  | mutation (e : Emission)

abbrev Reply := Answer ⊕ Outcome

instance : Nonempty Reply := ⟨.inr .absent⟩

section Threads

variable (sha1 sha256 : List Char → String) (int : String → Option Int) (sessions : Dict)

/-- Up to the lock. -/
def startCall : Call → Job ⊕ Reply
  | .inl r =>
    match start sha256 int sessions r with
    | .inl task => .inl (.task task)
    | .inr a => .inr (.inl a)
  | .inr e => .inl (.mutation e)

/-- One step of a thread that has the lock. -/
def work (job : Job) (fails : Bool) (db : Database) : Database × (Job ⊕ Reply) :=
  match job with
  | .task task =>
    match handle sha256 task fails db.cases with
    | (rows, .inl next) => ({ db with cases := rows }, .inl (.task next))
    | (rows, .inr a) => ({ db with cases := rows }, .inr (.inl a))
  | .mutation e =>
    let out := mutateCase sha1 e fails db
    (out.1, .inr (.inr out.2))

/-- The store after a run of threads from an empty database. -/
abbrev ranStore {θ : Type} [DecidableEq θ] (run : List (Mutex.Input θ Call Bool)) :
    Mutex.System θ Database Call Job Reply :=
  Machine.run (Mutex.step (startCall sha256 int sessions) (work sha1 sha256)) (.initial .empty) run

end Threads

/-! ### What is kept of the cases -/

/-- Every case was written by the API. -/
def RowsLinkable (rows : Rows) : Prop := ∀ row ∈ rows.vals, ∃ doc, row.load = some doc ∧ Linkable doc

theorem RowsLinkable.put {rows : Rows} (h : RowsLinkable rows) {new : Dict} (hnew : Linkable new)
    (caseId tenant : String) : RowsLinkable (rows.put ⟨caseId, tenant, dumps (.obj new)⟩) := by
  intro row hrow
  rcases Registry.mem_put hrow with hold | rfl
  · exact h row hold
  · exact ⟨new, load_dumps caseId tenant new, hnew⟩

theorem RowsLinkable.load {rows : Rows} (h : RowsLinkable rows) {caseId : String} {row : Row}
    (hrow : rows.get? caseId = some row) {doc : Dict} (hload : row.load = some doc) :
    Linkable doc := by
  obtain ⟨doc', hload', hdoc⟩ := h row (Registry.get?_eq_some.mp hrow).1
  obtain rfl : doc = doc' := Option.some.inj (hload.symm.trans hload')
  exact hdoc

section Tasks

variable {sha256 : List Char → String} {int : String → Option Int} {sessions : Dict}
  {session : Session} {r : Request}

theorem fits_of_authenticate (h : authenticate sessions r = .ok session) :
    Fits 256 session.tenant := by
  unfold authenticate at h
  split at h
  · split at h
    · next d _ =>
      unfold live at h
      split at h
      · cases h
      · split at h
        · cases h
        · split at h
          · cases h
          · cases hidentity : identity d with
            | error e =>
              rw [hidentity] at h
              cases h
            | ok s =>
              rw [hidentity] at h
              obtain rfl : s = session := Except.ok.inj h
              obtain ⟨tenant, htenant, hrest⟩ := Except.bind_eq_ok.mp hidentity
              obtain ⟨analyst, -, hs⟩ := Except.bind_eq_ok.mp hrest
              cases hs
              exact (string_eq_ok.mp htenant).2
    · cases h
  · cases h

theorem Linkable.audited {before after : Dict} (h : Linkable after) (event : String) :
    Linkable (audited sha256 session r before after event) := by
  refine h.congr fun key hkey => ?_
  exact get?_audited (ne_of_linked hkey).1 (ne_of_linked hkey).2 event

/-- What a thread of the API has in hand. -/
def TaskLinkable : Task → Prop
  | .queued _ _ (.create doc) => Linkable doc
  | .queued _ _ (.mutate _ route value) => LinkableBy route value
  | .queued _ _ (.list _ _ _) => True
  | .queued _ _ (.get _) => True
  | .loaded _ _ new => Linkable new

theorem linkableBy_of_mutation {parts : List String} {ms : Dict} {caseId : String} {route : Route}
    {value : Json} (h : mutation r parts ms = .ok (.mutate caseId route value)) :
    LinkableBy route value := by
  unfold mutation at h
  split at h
  · split at h
    · cases h
    · split at h
      · obtain ⟨w, hchecked, heq⟩ := Except.map_eq_ok.mp h
        cases heq
        exact linkableBy_checked hchecked
      · cases h
  · cases h

theorem linkableBy_of_command {caseId : String} {route : Route} {value : Json}
    (h : command sha256 int session r = .ok (.mutate caseId route value)) :
    LinkableBy route value := by
  unfold command at h
  split at h
  · cases h
  · split at h
    · cases h
    · dsimp only at h
      split at h
      · cases h
      · split at h
        · cases h
        · split at h
          · next hget =>
            have hasks := @asks_of_reading sha256 int session r _ _ _ hget h
            cases hasks
            contradiction
          · obtain ⟨ms, -, h⟩ := Except.bind_eq_ok.mp h
            split at h
            · unfold creation at h
              split at h
              · obtain ⟨title, -, h⟩ := Except.bind_eq_ok.mp h
                obtain ⟨owner, -, h⟩ := Except.bind_eq_ok.mp h
                cases h
              · cases h
            · exact linkableBy_of_mutation h

theorem taskLinkable_start {task : Task} (h : start sha256 int sessions r = .inl task) :
    TaskLinkable task := by
  unfold start at h
  split at h
  · cases h
  · next session hsession =>
    split at h
    · cases h
    · next c hcommand =>
      cases h
      cases c with
      | list limit offset filters => trivial
      | get caseId => trivial
      | create doc =>
        cases asks_of_command hcommand with
        | create hwrite title owner =>
          exact (linkable_newCase (fits_of_authenticate hsession) _ _ _ _ _).audited _
      | mutate caseId route value => exact linkableBy_of_command hcommand

/-- A step of the API under the lock. -/
theorem linkable_handle {rows rows' : Rows} {task : Task} (hrows : RowsLinkable rows)
    (htask : TaskLinkable task) {fails : Bool} {out : Task ⊕ Answer}
    (h : handle sha256 task fails rows = (rows', out)) :
    RowsLinkable rows' ∧ ∀ next, out = .inl next → TaskLinkable next := by
  have hsame : ∀ a : Answer, (rows, .inr a) = (rows', out) →
      RowsLinkable rows' ∧ ∀ next, out = .inl next → TaskLinkable next := by
    intro a heq
    cases heq
    exact ⟨hrows, fun next hnext => by cases hnext⟩
  unfold handle at h
  split at h
  · exact hsame _ h
  · split at h
    · exact hsame _ h
    · split at h
      · exact hsame _ h
      · exact hsame _ h
    · split at h
      · exact hsame _ h
      · cases h
        exact ⟨hrows.put htask _ _, fun next hnext => by cases hnext⟩
    · split at h
      · exact hsame _ h
      · next row hgranted =>
        split at h
        · exact hsame _ h
        · next doc hload =>
          split at h
          · exact hsame _ h
          · next new hnew =>
            split at h
            · cases h
              obtain ⟨hrow, -⟩ := Option.filter_eq_some_iff.mp hgranted
              obtain ⟨changed, happly, rfl⟩ := Option.map_eq_some_iff.mp hnew
              have hdoc := hrows.load hrow hload
              refine ⟨hrows, fun next hnext => ?_⟩
              cases hnext
              exact (hdoc.apply htask happly).audited _
            · exact hsame _ h
    · cases h
      exact ⟨hrows.put htask _ _, fun next hnext => by cases hnext⟩

end Tasks

/-! ### What is kept of the outbox -/

/-- The row holds the record of one of the verdicts `V`. -/
def Made (V : Dict → Prop) (row : OutboxRow) : Prop :=
  ∃ v record reason analyst ts, V v ∧ row.load = some record ∧ RecordOf v record reason analyst ts

/-- The database of callers that state no verdicts but `V`. -/
structure Database.Kept (V : Dict → Prop) (db : Database) : Prop where
  cases : RowsLinkable db.cases
  outbox : ∀ row ∈ db.dispositions.vals, Made V row

theorem eq_ok_of_toOption {ε α : Type} {x : Except ε α} {a : α} (h : x.toOption = some a) :
    x = .ok a := by
  cases x with
  | error e => cases h
  | ok b =>
    cases h
    rfl

/-- A function that returned was given a linkable case, and so returned one
    and records of its verdicts. -/
theorem linkable_runScript {case new : Dict} {script : List Action} {records : List Dict}
    (hcase : Linkable case) (h : runScript case script = some (new, records)) :
    Linkable new ∧ ∀ record ∈ records, ∃ verdicts, Action.emit verdicts ∈ script ∧
      ∃ v ∈ verdicts, ∃ reason analyst ts, RecordOf v record reason analyst ts := by
  induction script generalizing case records with
  | nil =>
    cases h
    exact ⟨hcase, fun record hrecord => by cases hrecord⟩
  | cons action script ih =>
    cases action with
    | change route value actor ts =>
      obtain ⟨w, hchecked, h⟩ := Option.bind_eq_some_iff.mp h
      obtain ⟨changed, happly, h⟩ := Option.bind_eq_some_iff.mp h
      have hw := linkableBy_checked (eq_ok_of_toOption hchecked)
      obtain ⟨hnew, hrecords⟩ := ih (hcase.apply hw happly) h
      refine ⟨hnew, fun record hrecord => ?_⟩
      obtain ⟨verdicts, hmem, hof⟩ := hrecords record hrecord
      exact ⟨verdicts, List.mem_cons_of_mem _ hmem, hof⟩
    | emit verdicts =>
      obtain ⟨rs, hrs, h⟩ := Option.bind_eq_some_iff.mp h
      obtain ⟨out, hout, h⟩ := Option.bind_eq_some_iff.mp h
      cases h
      obtain ⟨hnew, hrecords⟩ := ih hcase hout
      refine ⟨hnew, fun record hrecord => ?_⟩
      rcases List.mem_append.mp hrecord with hrecord | hrecord
      · obtain ⟨v, hv, hdisposition⟩ := exists_of_mem_caseDispositions hrs hrecord
        exact ⟨verdicts, List.mem_cons_self, v, hv, recordOf_caseDisposition hcase hdisposition⟩
      · obtain ⟨verdicts', hmem, hof⟩ := hrecords record hrecord
        exact ⟨verdicts', List.mem_cons_of_mem _ hmem, hof⟩

/-- Every row is an old one or one of those that were inserted. -/
theorem mem_insertRows {rows : Outbox} {inserted : List OutboxRow} {row : OutboxRow}
    (h : row ∈ (inserted.foldl insertRow rows).vals) : row ∈ rows.vals ∨ row ∈ inserted := by
  induction inserted generalizing rows with
  | nil => exact Or.inl h
  | cons r inserted ih =>
    rcases ih h with hold | hnew
    · unfold insertRow at hold
      split at hold
      · exact Or.inl hold
      · rcases Registry.mem_put hold with hold | rfl
        · exact Or.inl hold
        · exact Or.inr List.mem_cons_self
    · exact Or.inr (List.mem_cons_of_mem r hnew)

section Runs

variable {V : Dict → Prop} {sha1 sha256 : List Char → String} {int : String → Option Int}
  {sessions : Dict}

theorem kept_mutateCase {db : Database} (h : db.Kept V) {e : Emission} (he : ∀ v, e.States v → V v)
    (fails : Bool) : (mutateCase sha1 e fails db).1.Kept V := by
  unfold mutateCase
  split
  · exact h
  · next row hgranted =>
    split
    · exact h
    · next new records hscript =>
      split
      · exact h
      · obtain ⟨hrow, -⟩ := Option.filter_eq_some_iff.mp hgranted
        obtain ⟨doc, hload, hrun⟩ := Option.bind_eq_some_iff.mp hscript
        obtain ⟨hnew, hrecords⟩ := linkable_runScript (h.cases.load hrow hload) hrun
        constructor
        · exact h.cases.put hnew row.caseId row.tenant
        · intro r hr
          rcases mem_insertRows hr with hold | hinserted
          · exact h.outbox r hold
          · obtain ⟨record, hrecord, rfl⟩ := List.mem_map.mp hinserted
            obtain ⟨verdicts, hemit, v, hv, reason, analyst, ts, hof⟩ := hrecords record hrecord
            refine ⟨v, record, reason, analyst, ts, he v ⟨verdicts, hemit, hv⟩, ?_, hof⟩
            rw [OutboxRow.load, outboxRow, loads_dumps]
            rfl

/-- What a thread has in hand under the lock. -/
def JobLinkable (V : Dict → Prop) : Job → Prop
  | .task task => TaskLinkable task
  | .mutation e => ∀ v, e.States v → V v

/-- One step under the lock. -/
theorem kept_work {db db' : Database} (h : db.Kept V) {job : Job} (hjob : JobLinkable V job)
    {fails : Bool} {out : Job ⊕ Reply} (hwork : work sha1 sha256 job fails db = (db', out)) :
    db'.Kept V ∧ ∀ next, out = .inl next → JobLinkable V next := by
  cases job with
  | task task =>
    cases hhandle : handle sha256 task fails db.cases with
    | mk rows result =>
      obtain ⟨hrows, hnext⟩ := linkable_handle h.cases hjob hhandle
      simp only [work, hhandle] at hwork
      cases result with
      | inl next =>
        cases hwork
        refine ⟨⟨hrows, h.outbox⟩, fun job hjob => ?_⟩
        cases hjob
        exact hnext next rfl
      | inr a =>
        cases hwork
        exact ⟨⟨hrows, h.outbox⟩, fun job hjob => by cases hjob⟩
  | mutation e =>
    cases hwork
    exact ⟨kept_mutateCase h hjob fails, fun job hjob => by cases hjob⟩

/-- A caller of the run states the verdict. -/
def StatedIn {θ : Type} (run : List (Mutex.Input θ Call Bool)) (v : Dict) : Prop :=
  ∃ t e, .arrive t (.inr e) ∈ run ∧ e.States v

/-- **Every row of the outbox is the record of a verdict that a caller
    stated**, over every interleaving of requests and callers. -/
theorem outbox_made {θ : Type} [DecidableEq θ] (sha1 sha256 : List Char → String)
    (int : String → Option Int) (sessions : Dict) (run : List (Mutex.Input θ Call Bool)) :
    (ranStore sha1 sha256 int sessions run).store.Kept (StatedIn run) := by
  refine Mutex.store_run (A := fun call => ∃ t, .arrive t call ∈ run)
    (Q := fun job _ => JobLinkable (StatedIn run) job) ?_ ?_ ?_ ?_ fun t call hmem => ⟨t, hmem⟩
  · rintro call job db ⟨t, hmem⟩ hstart -
    cases call with
    | inl r =>
      simp only [startCall] at hstart
      split at hstart
      · next htask =>
        cases hstart
        exact taskLinkable_start htask
      · cases hstart
    | inr e =>
      cases hstart
      exact fun v hv => ⟨t, e, hmem, hv⟩
  · intro job fails db db' next hkept hjob hwork
    obtain ⟨hkept', hnext⟩ := kept_work hkept hjob hwork
    exact ⟨hkept', hnext next rfl⟩
  · intro job fails db db' a hkept hjob hwork
    exact (kept_work hkept hjob hwork).1
  · constructor
    · intro row hrow
      cases hrow
    · intro row hrow
      cases hrow

end Runs

end CaseApi
