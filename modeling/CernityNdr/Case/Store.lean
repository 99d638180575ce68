import CernityNdr.Case.Cases
import CernityNdr.Framework.Json
import CernityNdr.Framework.Registry
import CernityNdr.Framework.Transaction

/-! # The Case Store

    The model of `CaseStore` of `finding-service/store.py`: case documents
    and the outbox of dispositions behind one connection. `mutate` is the
    only way to change a document; the dispositions that the change emits are
    inserted in the same transaction, under an id that is derived from the
    length of the audit trail (`dispId`).

    The hash function is a parameter. -/

namespace CaseManagement

/-! ### Tables -/

/-- A row of `cases`. -/
structure CaseRow where
  caseId : String
  tenant : String
  doc : CaseDoc

/-- A row of `dispositions`. -/
structure DispRow where
  id : String
  caseId : String
  tenant : String
  record : Disposition
  delivered : Bool
deriving DecidableEq

structure Tables where
  cases : Registry CaseRow.caseId
  dispositions : Registry DispRow.id

/-- The statements of the store. -/
inductive Statement
  | insertCase (row : CaseRow)
  | updateDoc (caseId : String) (doc : CaseDoc)
  /-- `INSERT OR IGNORE` -/
  | insertDisposition (row : DispRow)
  | markDelivered (id : String)

def Statement.apply (t : Tables) : Statement → Tables
  | insertCase row => { t with cases := t.cases.put row }
  | updateDoc caseId doc =>
    match t.cases.get? caseId with
    | none => t
    | some row => { t with cases := t.cases.put { row with doc := doc } }
  | insertDisposition row =>
    match t.dispositions.get? row.id with
    | some _ => t
    | none => { t with dispositions := t.dispositions.put row }
  | markDelivered id =>
    match t.dispositions.get? id with
    | none => t
    | some row => { t with dispositions := t.dispositions.put { row with delivered := true } }

/-! ### The id of a disposition -/

def EntityType.text : EntityType → String
  | ip => "ip"
  | hostname => "hostname"
  | domain => "domain"
  | asset => "asset"

def Entity.json (e : Entity) : Json :=
  .obj [("type", .str e.etype.text), ("value", .str e.value)]

/-- The text that `_disp_id` hashes: its parts with a zero character between. -/
def dispKey (caseId : String) (seq : Nat) (record : Disposition) : List Char :=
  let zero : Char := Char.ofNat 0
  caseId.toList ++ zero :: (Json.intText seq ++ zero :: (record.findingId.toList ++
    zero :: ((Json.sortKeys record.entity.json).dumps ++ zero :: record.verdict.toList)))

variable (sha1 : List Char → String)

/-- `_disp_id`. -/
def dispId (caseId : String) (seq : Nat) (record : Disposition) : String :=
  sha1 (dispKey caseId seq record)

/-! ### Methods -/

abbrev CaseStore := Connection Tables

namespace CaseStore

/-- `CaseStore()` over a new database. -/
def empty : CaseStore := .fresh ⟨.empty, .empty⟩

/-- `create`: false when the case exists. -/
def create (s : CaseStore) (case : CaseDoc) (fault : Fault) : Except CaseError Bool × CaseStore :=
  match s.view.cases.get? case.caseId with
  | some _ => (.ok false, s.rollback)
  | none =>
    match s.writeOrRollback Statement.apply [.insertCase ⟨case.caseId, case.tenant, case⟩] fault with
    | (.ok _, s') => (.ok true, s')
    | (.error _, s') => (.error .sqliteError, s')

/-- The row that a caller with these grants sees. -/
def granted (s : CaseStore) (caseId : String) (tenants : List String) : Option CaseRow :=
  (s.view.cases.get? caseId).filter fun row => row.tenant ∈ tenants

/-- A function that `mutate` applies: the new document, and the dispositions
    to enqueue with it. -/
abbrev Mutation := CaseDoc → Except CaseError (CaseDoc × List Disposition)

/-- The inserts of the records of a mutation. Their sequence number is the
    length of the new trail. -/
def inserts (caseId : String) (new : CaseDoc) (records : List Disposition) : List Statement :=
  records.map fun r =>
    .insertDisposition ⟨dispId sha1 caseId new.audit.length r, caseId, new.tenant, r, false⟩

/-- The statements that store what a mutation returned. -/
def statements (caseId : String) (new : CaseDoc) (records : List Disposition) : List Statement :=
  .updateDoc caseId new :: inserts sha1 caseId new records

/-- `mutate`. -/
def mutate (s : CaseStore) (caseId : String) (tenants : List String) (fn : Mutation)
    (fault : Fault) : Except CaseError (Option CaseDoc) × CaseStore :=
  match s.granted caseId tenants with
  | none => (.ok none, s)
  | some row =>
    match fn row.doc with
    | .error e => (.error e, s)
    | .ok (new, records) =>
      if new.tenant ≠ row.tenant then (.error .tenantImmutable, s)
      else
        match s.writeOrRollback Statement.apply (statements sha1 caseId new records) fault with
        | (.ok _, s') => (.ok (some new), s')
        | (.error _, s') => (.error .sqliteError, s')

/-- The undelivered rows of a tenant, in the order of their ids. -/
def pendingRows (s : CaseStore) (tenant : String) : List DispRow :=
  (s.view.dispositions.vals.filter fun row => row.tenant = tenant && !row.delivered).insertionSort
    fun a b => a.id ≤ b.id

/-! ### What a mutation leaves -/

/-- What a call of `mutate` can do to a store in which nothing is open. -/
inductive Mutated (s : CaseStore) (caseId : String) (tenants : List String) (fn : Mutation) :
    Except CaseError (Option CaseDoc) → CaseStore → Prop
  | absent (h : s.granted caseId tenants = none) : Mutated s caseId tenants fn (.ok none) s
  /-- the function, the tenant check, a statement or the commit raises -/
  | raised (e : CaseError) : Mutated s caseId tenants fn (.error e) s
  | stored (row : CaseRow) (new : CaseDoc) (records : List Disposition)
      (h : s.granted caseId tenants = some row) (hfn : fn row.doc = .ok (new, records))
      (htenant : new.tenant = row.tenant) :
      Mutated s caseId tenants fn (.ok (some new))
        (s.execute Statement.apply (statements sha1 caseId new records)).commit

variable {sha1}

theorem mutate_cases (sha1 : List Char → String) {s : CaseStore} (hclean : s.Clean)
    (caseId : String) (tenants : List String) (fn : Mutation) (fault : Fault) :
    Mutated sha1 s caseId tenants fn (s.mutate sha1 caseId tenants fn fault).1
      (s.mutate sha1 caseId tenants fn fault).2 := by
  unfold mutate
  cases hrow : s.granted caseId tenants with
  | none => exact .absent hrow
  | some row =>
    simp only
    cases hfn : fn row.doc with
    | error e => exact .raised e
    | ok out =>
      obtain ⟨new, records⟩ := out
      simp only
      by_cases htenant : new.tenant = row.tenant
      · rw [if_neg (not_not.mpr htenant)]
        split
        · next hw =>
          obtain ⟨-, rfl⟩ := Connection.writeOrRollback_eq_ok hw
          exact .stored row new records hrow hfn htenant
        · next hw =>
          obtain ⟨-, rfl⟩ := Connection.writeOrRollback_eq_error hw
          rw [hclean.rollback_eq]
          exact .raised _
      · rw [if_pos htenant]
        exact .raised _

theorem Mutated.clean {s s' : CaseStore} {caseId : String} {tenants : List String} {fn : Mutation}
    {res : Except CaseError (Option CaseDoc)} (h : Mutated sha1 s caseId tenants fn res s')
    (hclean : s.Clean) : s'.Clean := by
  cases h with
  | absent _ => exact hclean
  | raised _ => exact hclean
  | stored row new records _ _ _ => exact Connection.clean_commit _

theorem granted_eq_some {s : CaseStore} {caseId : String} {tenants : List String} {row : CaseRow} :
    s.granted caseId tenants = some row ↔
      s.view.cases.get? caseId = some row ∧ row.tenant ∈ tenants := by
  simp [granted, Option.filter_eq_some_iff]

end CaseStore

/-! ### What the statements of a mutation leave -/

namespace Tables

/-- The outbox of `t'` is that of `t` with undelivered rows added. -/
structure Extends (t t' : Tables) : Prop where
  old : ∀ id row, t.dispositions.get? id = some row → t'.dispositions.get? id = some row
  added : ∀ id row, t'.dispositions.get? id = some row →
    t.dispositions.get? id = some row ∨ t.dispositions.get? id = none ∧ row.delivered = false

theorem Extends.refl (t : Tables) : Extends t t := ⟨fun _ _ h => h, fun _ _ h => Or.inl h⟩

theorem Extends.of_eq {t t' : Tables} (h : t'.dispositions = t.dispositions) : Extends t t' := by
  constructor
  · intro id row hrow
    rwa [h]
  · intro id row hrow
    rw [h] at hrow
    exact Or.inl hrow

theorem Extends.trans {t t' t'' : Tables} (h : Extends t t') (h' : Extends t' t'') :
    Extends t t'' := by
  constructor
  · exact fun id row hrow => h'.old id row (h.old id row hrow)
  · intro id row hrow
    rcases h'.added id row hrow with hmid | ⟨hnone, hnew⟩
    · exact h.added id row hmid
    · right
      refine ⟨?_, hnew⟩
      cases hold : t.dispositions.get? id with
      | none => rfl
      | some old =>
        rw [h.old id old hold] at hnone
        cases hnone

theorem dispositions_updateDoc (t : Tables) (caseId : String) (doc : CaseDoc) :
    (Statement.apply t (.updateDoc caseId doc)).dispositions = t.dispositions := by
  simp only [Statement.apply]
  split
  · rfl
  · rfl

theorem extends_insertDisposition (t : Tables) {row : DispRow} (h : row.delivered = false) :
    Extends t (Statement.apply t (.insertDisposition row)) := by
  simp only [Statement.apply]
  cases hrow : t.dispositions.get? row.id with
  | some old => exact .refl t
  | none =>
    constructor
    · intro id r hr
      have hne : row.id ≠ id := by
        intro heq
        rw [← heq, hrow] at hr
        cases hr
      exact (Registry.get?_put_ne _ hne).trans hr
    · intro id r hr
      simp only [Registry.get?_put] at hr
      by_cases hid : row.id = id
      · rw [if_pos hid] at hr
        cases hr
        exact Or.inr ⟨hid ▸ hrow, h⟩
      · rw [if_neg hid] at hr
        exact Or.inl hr

/-- The row of an inserted id is there. -/
theorem exists_insertDisposition (t : Tables) (row : DispRow) :
    ∃ r, (Statement.apply t (.insertDisposition row)).dispositions.get? row.id = some r := by
  simp only [Statement.apply]
  cases hrow : t.dispositions.get? row.id with
  | some old => exact ⟨old, hrow⟩
  | none => exact ⟨row, Registry.get?_put_self _ row⟩

/-- Inserting an id that is there changes nothing. -/
theorem insertDisposition_of_get? {t : Tables} {row r : DispRow}
    (h : t.dispositions.get? row.id = some r) : Statement.apply t (.insertDisposition row) = t := by
  simp only [Statement.apply, h]

theorem cases_insertDisposition (t : Tables) (row : DispRow) :
    (Statement.apply t (.insertDisposition row)).cases = t.cases := by
  simp only [Statement.apply]
  split
  · rfl
  · rfl

end Tables

section Inserts

open CaseStore

variable {sha1} {caseId : String} {new : CaseDoc}

theorem extends_inserts (t : Tables) (records : List Disposition) :
    t.Extends ((inserts sha1 caseId new records).foldl Statement.apply t) := by
  induction records generalizing t with
  | nil => exact .refl t
  | cons r records ih => exact (Tables.extends_insertDisposition t rfl).trans (ih _)

theorem extends_statements (t : Tables) (records : List Disposition) :
    t.Extends ((statements sha1 caseId new records).foldl Statement.apply t) :=
  (Tables.Extends.of_eq (Tables.dispositions_updateDoc t caseId new)).trans
    (extends_inserts _ records)

theorem cases_inserts (t : Tables) (records : List Disposition) :
    ((inserts sha1 caseId new records).foldl Statement.apply t).cases = t.cases := by
  induction records generalizing t with
  | nil => rfl
  | cons r records ih => exact (ih _).trans (Tables.cases_insertDisposition t _)

/-- Every record has a row afterwards. -/
theorem exists_inserts (t : Tables) {records : List Disposition} {r : Disposition}
    (hr : r ∈ records) : ∃ row, ((inserts sha1 caseId new records).foldl Statement.apply
      t).dispositions.get? (dispId sha1 caseId new.audit.length r) = some row := by
  induction records generalizing t with
  | nil => cases hr
  | cons r' records ih =>
    rcases List.mem_cons.mp hr with rfl | hr
    · obtain ⟨row, hrow⟩ := Tables.exists_insertDisposition t
        ⟨dispId sha1 caseId new.audit.length r, caseId, new.tenant, r, false⟩
      exact ⟨row, (extends_inserts _ records).old _ row hrow⟩
    · exact ih _ hr

/-- Records that all have a row add none. -/
theorem inserts_of_stored {t : Tables} {records : List Disposition}
    (h : ∀ r ∈ records, ∃ row,
      t.dispositions.get? (dispId sha1 caseId new.audit.length r) = some row) :
    (inserts sha1 caseId new records).foldl Statement.apply t = t := by
  induction records with
  | nil => rfl
  | cons r records ih =>
    obtain ⟨row, hrow⟩ := h r List.mem_cons_self
    have hsame : Statement.apply t (.insertDisposition
        ⟨dispId sha1 caseId new.audit.length r, caseId, new.tenant, r, false⟩) = t :=
      Tables.insertDisposition_of_get? hrow
    show (inserts sha1 caseId new records).foldl Statement.apply (Statement.apply t _) = t
    rw [hsame]
    exact ih fun r' hr' => h r' (List.mem_cons_of_mem r hr')

end Inserts

end CaseManagement
