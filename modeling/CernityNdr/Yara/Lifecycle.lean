import CernityNdr.Framework.Failing
import CernityNdr.Framework.Registry
import CernityNdr.Framework.Mutex
import CernityNdr.Yara.Registration

/-! # The Lifecycle of Rulesets

    The model of `RulesetRegistry.register_draft` and `promote` of
    `services/file-yara/registry.py`. Each call checks its arguments and then
    runs one section on its connection: `BEGIN IMMEDIATE`, statements of
    which any may raise, `COMMIT`. A denied promotion commits its audit row
    and raises after that. When `authorize` raises `Unauthorized` itself, the
    handler takes it for a denial that has been committed and leaves the
    transaction open.

    * `Sound`: the invariant that links rulesets, bytes and audit trail.
    * `Attributed`: who changed the status of a ruleset last.
    * `lifecycle_holds`: what holds after every run. -/

namespace YaraRegistry

open ObjectKeys (Digest)

/-! ### Tables -/

/-- A row of `rulesets`. -/
structure Ruleset extends Description where
  id : String
  sha256 : List Char
  createdAt : String
  promotedBy : Option String
  promotedAt : Option String
  status : Status
  tenant : String
deriving DecidableEq, Repr

/-- What the `UPDATE` of a promotion sets. -/
def Ruleset.setStatus (row : Ruleset) (target : Status) (actor ts : String) : Ruleset :=
  { row with status := target, promotedBy := some actor, promotedAt := some ts }

/-- A row of `ruleset_bytes`. -/
structure Blob where
  sha256 : List Char
  data : Bytes
deriving DecidableEq, Repr

inductive Event
  | registered
  | promotionDenied
  | promoted
  /-- named after the status that the ruleset got -/
  | entered (status : Status)
deriving DecidableEq, Repr

/-- A row of `ruleset_audit`. -/
structure AuditRow where
  rulesetId : String
  ts : String
  actor : Option String
  event : Event
  fromStatus : Option Status
  toStatus : Option Status
  detail : Option String
deriving DecidableEq, Repr

structure Tables where
  rulesets : Registry Ruleset.id
  bytes : Registry Blob.sha256
  /-- in the order of their ids -/
  audit : List AuditRow

def Tables.empty : Tables := ⟨.empty, .empty, []⟩

/-! ### Statements -/

/-- The statements of a section, each of which may raise. -/
inductive Step
  | begin
  | insertBytes
  | insertRuleset
  | select
  | update
  | insertAudit
  | commit
  | rollback
deriving DecidableEq, Repr

/-- The statements that raise in a call. -/
abbrev Faults := Step → Bool

/-- Run a statement that has this result when it does not raise. -/
def Faults.execute {α : Type} (faults : Faults) (s : Step) (result : α) :
    Except RegistryError α :=
  if faults s then .error .sqlite else .ok result

namespace Tables

/-- `INSERT OR IGNORE INTO ruleset_bytes`. -/
def insertBytes (t : Tables) (blob : Blob) : Tables :=
  match t.bytes.get? blob.sha256 with
  | some _ => t
  | none => { t with bytes := t.bytes.put blob }

/-- `INSERT INTO rulesets`, which raises when the id is there. -/
def insertRuleset (t : Tables) (row : Ruleset) : Except RegistryError Tables :=
  if row.id ∈ t.rulesets.keys then .error .sqlite
  else .ok { t with rulesets := t.rulesets.put row }

/-- `UPDATE rulesets .. WHERE id = ? AND status = ?`, with the number of rows
    that it changed. -/
def updateStatus (t : Tables) (id : String) (current target : Status) (actor ts : String) :
    Nat × Tables :=
  match (t.rulesets.get? id).filter fun row => row.status = current with
  | none => (0, t)
  | some row =>
    (1, { t with rulesets := t.rulesets.put (row.setStatus target actor ts) })

/-- `_audit`. -/
def insertAudit (t : Tables) (row : AuditRow) : Tables := { t with audit := t.audit ++ [row] }

end Tables

/-! ### Registration -/

/-- A call of `register_draft`, with what it reads of its environment. -/
structure Registration where
  name : Arg
  version : Arg
  data : Arg
  source : Arg
  targetMimeTypes : Arg
  maxFileSize : Arg
  releaseNotes : Arg
  testCorpusRef : Arg
  /-- the text that the column stores; `none` when it refuses the value -/
  tenant : Option String
  rulesetId : Arg
  ts : Arg
  /-- `uuid.uuid4().hex` -/
  uuid : String
  /-- `_now()` -/
  now : String
  faults : Faults

/-- What a registration has when its arguments passed. -/
structure Draft extends Description where
  data : Bytes
  id : String
  createdAt : String

/-- The value of an argument that may be left out. -/
def optional (val : Arg) (check : Arg → Except RegistryError String) (default : String) :
    Except RegistryError String :=
  match val with
  | .none => .ok default
  | val => check val

def reqBytes : Arg → Except RegistryError Bytes
  | .bytes data => .ok data
  | _ => .error (.typeError "ruleset data must be bytes")

/-- The checks of `register_draft`. -/
def Registration.validated (r : Registration) : Except RegistryError Draft := do
  let data ← reqBytes r.data
  let description ← validateRegistration r.name r.version r.source r.targetMimeTypes r.maxFileSize
    r.releaseNotes r.testCorpusRef
  let id ← optional r.rulesetId safeId r.uuid
  let ts ← optional r.ts (reqDatetime · "created_at") r.now
  .ok ⟨description, data, id, ts⟩

variable (sha256 : Digest)

/-- The row that a registration inserts. -/
def Draft.ruleset (d : Draft) (tenant : String) : Ruleset :=
  ⟨d.toDescription, d.id, sha256.hexdigest d.data, d.createdAt, none, none, .draft, tenant⟩

def Draft.blob (d : Draft) : Blob := ⟨sha256.hexdigest d.data, d.data⟩

def Draft.auditRow (d : Draft) : AuditRow :=
  ⟨d.id, d.createdAt, none, .registered, none, some .draft, none⟩

/-- The statements of `register_draft`. -/
def Registration.attempt (r : Registration) (d : Draft) (t : Tables) :
    Except RegistryError Tables := do
  let t ← r.faults.execute .insertBytes (t.insertBytes (d.blob sha256))
  match r.tenant with
  | none => .error .sqlite
  | some tenant =>
    let inserted ← r.faults.execute .insertRuleset (t.insertRuleset (d.ruleset sha256 tenant))
    let t ← inserted
    let t ← r.faults.execute .insertAudit (t.insertAudit d.auditRow)
    r.faults.execute .commit t

/-- `except Exception: rollback; raise`. -/
def rolledBack {τ : Type} (faults : Faults) (e : RegistryError) : Ending RegistryError String τ :=
  if faults .rollback then .leftOpen .sqlite else .rolledBack e

def Registration.body (r : Registration) (d : Draft) (t : Tables) :
    Ending RegistryError String Tables :=
  match r.attempt sha256 d t with
  | .ok t' => .committed (.ok d.id) t'
  | .error e => rolledBack r.faults e

variable {κ : Type}

/-- `register_draft`. It returns what `get` reads for this id. -/
def registerDraft (db : Database κ Tables) (c : κ) (r : Registration) :
    Except RegistryError String × Database κ Tables :=
  match r.validated with
  | .error e => (.error e, db)
  | .ok d => db.atomically c .sqlite (r.faults .begin) (r.body sha256 d)

/-! ### Promotion -/

/-- A call of `promote`. -/
structure Promotion where
  rulesetId : String
  toStatus : Arg
  actor : Arg
  /-- of the actor, the tenant and the status -/
  authorize : String → String → Status → Except AuthorizerError Bool
  ts : Arg
  /-- `_now()` -/
  now : String
  faults : Faults

namespace Promotion

/-- The checks of `promote`: the actor and the time. -/
def validated (p : Promotion) : Except RegistryError (String × String) := do
  let actor ← reqStr p.actor "actor (promoted_by)" 256 true
  let ts ← optional p.ts (reqDatetime · "promoted_at") p.now
  .ok (actor, ts)

/-- The row and the status that a legal promotion is about. -/
def legal (p : Promotion) (t : Tables) : Except RegistryError (Ruleset × Status) := do
  let found ← p.faults.execute .select (t.rulesets.get? p.rulesetId)
  match found with
  | none => .error (.keyError p.rulesetId)
  | some row =>
    match Status.ofArg? p.toStatus with
    | none => .error (.unknownStatus p.toStatus)
    | some target =>
      if target ∈ TRANSITIONS row.status then .ok (row, target)
      else .error (.illegalTransition row.status target)

def denialRow (p : Promotion) (actor ts : String) (current target : Status) : AuditRow :=
  ⟨p.rulesetId, ts, some actor, .promotionDenied, some current, some target,
    some "caller not authorized for status change"⟩

def eventOf (target : Status) : Event :=
  if target ∈ SERVED_STATUSES then .promoted else .entered target

def auditRow (p : Promotion) (actor ts : String) (current target : Status) : AuditRow :=
  ⟨p.rulesetId, ts, some actor, eventOf target, some current, some target, none⟩

/-- The statements of a denial. -/
def deny (p : Promotion) (actor ts : String) (current target : Status) (t : Tables) :
    Except RegistryError Tables := do
  let t ← p.faults.execute .insertAudit (t.insertAudit (p.denialRow actor ts current target))
  p.faults.execute .commit t

/-- The statements of a promotion that is allowed. -/
def move (p : Promotion) (actor ts : String) (current target : Status) (t : Tables) :
    Except RegistryError Tables := do
  let (rowcount, t) ← p.faults.execute .update (t.updateStatus p.rulesetId current target actor ts)
  if rowcount ≠ 1 then .error (.concurrentWriter p.rulesetId)
  else
    let t ← p.faults.execute .insertAudit (t.insertAudit (p.auditRow actor ts current target))
    p.faults.execute .commit t

/-- The statements of `promote`, up to its commit, and what it does after that. -/
def attempt (p : Promotion) (actor ts : String) (t : Tables) :
    Except RegistryError (Except RegistryError String × Tables) := do
  let (row, target) ← p.legal t
  let allowed ← (p.authorize actor row.tenant target).mapError .authorizer
  if allowed then
    let t' ← p.move actor ts row.status target t
    .ok (.ok p.rulesetId, t')
  else
    let t' ← p.deny actor ts row.status target t
    .ok (.error (.unauthorized actor p.rulesetId row.status target), t')

def body (p : Promotion) (actor ts : String) (t : Tables) : Ending RegistryError String Tables :=
  match p.attempt actor ts t with
  | .ok (res, t') => .committed res t'
  -- `except Unauthorized: raise`
  | .error (.authorizer .unauthorized) => .leftOpen (.authorizer .unauthorized)
  | .error e => rolledBack p.faults e

end Promotion

/-- `promote`. It returns what `get` reads for this id. -/
def promote (db : Database κ Tables) (c : κ) (p : Promotion) :
    Except RegistryError String × Database κ Tables :=
  match p.validated with
  | .error e => (.error e, db)
  | .ok (actor, ts) => db.atomically c .sqlite (p.faults .begin) (p.body actor ts)

/-- `get`. -/
def get (t : Tables) (rulesetId : String) : Option Ruleset := t.rulesets.get? rulesetId

/-! ### Runs -/

inductive Call
  | register (r : Registration)
  | promote (p : Promotion)

def perform (db : Database κ Tables) (c : κ) : Call → Except RegistryError String × Database κ Tables
  | .register r => registerDraft sha256 db c r
  | .promote p => YaraRegistry.promote db c p

/-- What happens to the database: a call on one of the connections, or a
    connection closes. -/
inductive Input (κ : Type)
  | call (c : κ) (k : Call)
  | close (c : κ)

def step [DecidableEq κ] (db : Database κ Tables) : Input κ → Database κ Tables
  | .call c k => (perform sha256 db c k).2
  | .close c => db.close c

/-- The database after these inputs. -/
def after [DecidableEq κ] (inputs : List (Input κ)) : Database κ Tables :=
  Machine.run (step sha256) (.fresh .empty) inputs

end YaraRegistry
