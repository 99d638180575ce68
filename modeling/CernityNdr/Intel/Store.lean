import Mathlib.Data.Prod.Lex
import Mathlib.Data.Rat.Lemmas
import Mathlib.Algebra.Order.Ring.Rat
import CernityNdr.Framework.Json
import CernityNdr.Framework.Registry
import CernityNdr.Framework.Text
import CernityNdr.Framework.Transaction

/-! # Intel Records

    The data of `contracts/intel.schema.json` (intel.v1): an indicator of one
    tenant and its provenance, which holds one assertion for each feed that
    reported it. -/

namespace ThreatIntel

/-- The types of indicator. -/
inductive IndicatorType
  | ip | domain | url | hash | ja3 | ja4 | cert
deriving DecidableEq, Repr

def IndicatorType.text : IndicatorType → String
  | ip => "ip"
  | domain => "domain"
  | url => "url"
  | hash => "hash"
  | ja3 => "ja3"
  | ja4 => "ja4"
  | cert => "cert"

/-- `TLP_LEVELS`. -/
inductive Tlp
  | clear | green | amber | amberStrict | red
deriving DecidableEq, Repr

/-- `_TLP_RANK`. -/
def Tlp.rank : Tlp → Nat
  | clear => 0
  | green => 1
  | amber => 2
  | amberStrict => 3
  | red => 4

inductive Disposition
  | active | suppressed | expired
deriving DecidableEq, Repr

/-- What one feed asserts of an indicator. -/
structure Provenance where
  source : String
  feed : String
  score : ℚ
  tlp : Tlp
  sourceTrust : ℚ
  firstSeen : String
  lastSeen : String
  expiry : Option String
deriving DecidableEq, Repr

/-- The feed that a provenance entry comes from, as `merge` keys it. -/
abbrev Feed := String × String

def Provenance.origin (p : Provenance) : Feed := (p.source, p.feed)

/-- The primary key of the indicators table: tenant, type, indicator. -/
abbrev Key := String × IndicatorType × String

/-- An intel.v1 record. -/
structure IntelRecord where
  indicator : String
  itype : IndicatorType
  source : String
  feed : String
  score : ℚ
  tlp : Tlp
  sourceTrust : ℚ
  firstSeen : String
  lastSeen : String
  expiry : String
  disposition : Disposition
  tenant : String
  provenance : List Provenance
deriving DecidableEq, Repr

def IntelRecord.key (r : IntelRecord) : Key := (r.tenant, r.itype, r.indicator)

/-- A withdrawal marker of a feed. -/
structure Revocation where
  tenant : String
  itype : IndicatorType
  indicator : String
  source : String
  feed : String
deriving DecidableEq, Repr

def Revocation.key (rv : Revocation) : Key := (rv.tenant, rv.itype, rv.indicator)

def Revocation.origin (rv : Revocation) : Feed := (rv.source, rv.feed)

end ThreatIntel

/-! ## The Intel Store

    The model of `IntelStore` of `threat-intel/store.py`: three tables behind
    one connection that all methods share. Every writing method takes a
    `Fault`: the statement, or the commit, that raises in this call, if any. -/

namespace ThreatIntel

/-- The exceptions of the modelled code. -/
inductive Failure
  | valueError
  | sqliteError
deriving DecidableEq, Repr

/-! ### Tables -/

/-- A row of `suppressions`. -/
structure Suppression where
  id : String
  tenant : String
  itype : IndicatorType
  indicator : String
  owner : String
  justification : String
  createdAt : ℚ
  expiresAt : ℚ
deriving DecidableEq

/-- A row of `audit`, by its action. -/
inductive AuditEvent
  /-- `intel.suppress` -/
  | intelSuppress (id tenant actor resourceId justification : String) (expiresAt timestamp : ℚ)
  /-- `intel.match` -/
  | intelMatch (id tenant : String) (timestamp : ℚ) (hit : IntelRecord) (observation : Json.Dict)

/-- The audit event of a suppression. -/
def Suppression.event (s : Suppression) (aid : String) : AuditEvent :=
  .intelSuppress aid s.tenant s.owner (s.itype.text ++ ":" ++ s.indicator) s.justification
    s.expiresAt s.createdAt

/-- The tables of the database. -/
structure Tables where
  indicators : Registry IntelRecord.key
  suppressions : List Suppression
  audit : List AuditEvent

def Tables.empty : Tables := ⟨.empty, [], []⟩

/-- A statement that changes data. -/
inductive Statement
  /-- `_UPSERT` -/
  | upsert (r : IntelRecord)
  | delete (k : Key)
  | insertSuppression (s : Suppression)
  | insertAudit (e : AuditEvent)

def Statement.apply (t : Tables) : Statement → Tables
  | upsert r => { t with indicators := t.indicators.put r }
  | delete k => { t with indicators := t.indicators.pop k }
  | insertSuppression s => { t with suppressions := t.suppressions ++ [s] }
  | insertAudit e => { t with audit := t.audit ++ [e] }

def Tables.execute (t : Tables) (statements : List Statement) : Tables :=
  statements.foldl Statement.apply t

theorem Tables.execute_append (t : Tables) (as bs : List Statement) :
    t.execute (as ++ bs) = (t.execute as).execute bs := List.foldl_append

/-! ### Methods -/

abbrev IntelStore := Connection Tables

namespace IntelStore

/-- `IntelStore()` over a new database. -/
def empty : IntelStore := .fresh .empty

/-- `upsert_many`. -/
def upsertMany (s : IntelStore) (records : List IntelRecord) (deletes : List Key) (fault : Fault) :
    Except Failure Unit × IntelStore :=
  if records = [] ∧ deletes = [] then (.ok (), s)
  else
    match s.writeOrRollback Statement.apply (records.map .upsert ++ deletes.map .delete) fault with
    | (.ok _, s') => (.ok (), s')
    | (.error _, s') => (.error .sqliteError, s')

/-- `get`. -/
def get (s : IntelStore) (k : Key) : Option IntelRecord := s.view.indicators.get? k

/-- The arguments of `suppress`, with the clock and the two ids it draws.
    `expiresAt` is `none` for an infinity or a NaN. -/
structure SuppressArgs where
  tenant : String
  itype : IndicatorType
  indicator : String
  owner : String
  justification : String
  expiresAt : Option ℚ
  now : ℚ
  sid : String
  aid : String

/-- The checks of `suppress`: the row that it will insert. -/
def SuppressArgs.row (a : SuppressArgs) : Except Failure Suppression :=
  if !Text.notBlank a.owner || !Text.notBlank a.justification then .error .valueError
  else
    match a.expiresAt with
    | none => .error .valueError
    | some expiresAt =>
      if expiresAt ≤ a.now then .error .valueError
      else .ok { id := a.sid, tenant := a.tenant, itype := a.itype, indicator := a.indicator,
                 owner := a.owner, justification := a.justification, createdAt := a.now,
                 expiresAt := expiresAt }

/-- `suppress`. Nothing rolls back when a statement raises. -/
def suppress (s : IntelStore) (a : SuppressArgs) (fault : Fault) :
    Except Failure Suppression × IntelStore :=
  match a.row with
  | .error e => (.error e, s)
  | .ok supp =>
    match s.write Statement.apply [.insertSuppression supp, .insertAudit (supp.event a.aid)]
        fault with
    | (.ok _, s') => (.ok supp, s')
    | (.error _, s') => (.error .sqliteError, s')

/-- `is_suppressed`. -/
def isSuppressed (s : IntelStore) (k : Key) (now : ℚ) : Bool :=
  s.view.suppressions.any fun row =>
    row.tenant = k.1 && row.itype = k.2.1 && row.indicator = k.2.2 && now < row.expiresAt

/-- The fields of an observation that `record_match` keeps. -/
def observationFields : List String :=
  ["src_ip", "dest_ip", "timestamp", "community_id", "flow_id", "tx_id"]

/-- The audit event of a hit. -/
def matchEvent (id tenant : String) (now : ℚ) (hit : IntelRecord) (observation : Json.Dict) :
    AuditEvent :=
  .intelMatch id tenant now hit
    (observationFields.filterMap fun k => (observation.get? k).map (k, ·))

/-- `record_match`, with the id it draws. Nothing rolls back here either. -/
def recordMatch (s : IntelStore) (tenant : String) (hit : IntelRecord) (observation : Json.Dict)
    (now : ℚ) (id : String) (fault : Fault) : Except Failure Unit × IntelStore :=
  if hit.tenant ≠ tenant then (.error .valueError, s)
  else
    match s.write Statement.apply [.insertAudit (matchEvent id tenant now hit observation)]
        fault with
    | (.ok _, s') => (.ok (), s')
    | (.error _, s') => (.error .sqliteError, s')

end IntelStore

end ThreatIntel
