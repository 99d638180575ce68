import Mathlib.Data.List.MinMax
import CernityNdr.Framework.Failing
import CernityNdr.Intel.Store

/-! # The Intel Lifecycle

    The rules of `threat-intel/lifecycle.py`: merging the assertions of
    feeds (`merge`), the effective fields that depend on the time
    (`derive`), one refresh of a feed (`ingest`) and the lookup of the
    matchers (`matchIndicator`).

    Parsing a timestamp (`epoch`) and the canonical form of an indicator
    (`norm_indicator`) are parameters: nothing here depends on what they
    return. -/

namespace ThreatIntel

variable (epoch : String → Except Failure ℚ) (normIndicator : IndicatorType → String → String)

/-! ### Effective fields -/

/-- `most_restrictive_tlp`. -/
def mostRestrictiveTlp (tlps : List Tlp) : Option Tlp := tlps.argmax Tlp.rank

/-- `_earlier`. -/
def earlier (a b : String) : Except Failure String := do
  return if (← epoch a) ≤ (← epoch b) then a else b

/-- `_later`. -/
def later (a b : String) : Except Failure String := do
  return if (← epoch a) ≥ (← epoch b) then a else b

/-- `_rank`: source trust first, score second. -/
def Provenance.rank (p : Provenance) : ℚ ×ₗ ℚ := toLex (p.sourceTrust, p.score)

/-- `_prov_expiry`. -/
def provExpiry (p : Provenance) (recordExpiry : String) : String :=
  match p.expiry with
  | some e => if e = "" then recordExpiry else e
  | none => recordExpiry

/-- Each entry with the end of its validity. -/
def validUntil (provs : List Provenance) (recordExpiry : String) :
    Except Failure (List (Provenance × ℚ)) :=
  provs.mapM fun p => (p, ·) <$> epoch (provExpiry p recordExpiry)

/-- `_valid_provs`. -/
def validProvs (provs : List Provenance) (recordExpiry : String) (now : ℚ) :
    Except Failure (List Provenance) := do
  return ((← validUntil epoch provs recordExpiry).filter fun e => now < e.2).map Prod.fst

/-- `max(items, key=...)`, which raises on an empty list. -/
def maxBy {α β : Type} [LinearOrder β] (key : α → β) (items : List α) : Except Failure α :=
  match items.argmax key with
  | some a => .ok a
  | none => .error .valueError

/-- `best_provenance`. -/
def bestProvenance (provs : List Provenance) (recordExpiry : String) (now : ℚ) :
    Except Failure Provenance := do
  let valid ← validProvs epoch provs recordExpiry now
  maxBy Provenance.rank (if valid.isEmpty then provs else valid)

/-- `derive`. -/
def derive (record : IntelRecord) (now : ℚ) : Except Failure IntelRecord := do
  let provs := record.provenance
  let last ← maxBy Prod.snd (← validUntil epoch provs record.expiry)
  let expiry := provExpiry last.1 record.expiry
  let winner ← bestProvenance epoch provs expiry now
  let valid ← validProvs epoch provs expiry now
  return { record with
    expiry := expiry
    score := winner.score
    source := winner.source
    feed := winner.feed
    sourceTrust := winner.sourceTrust
    tlp := (mostRestrictiveTlp (provs.map Provenance.tlp)).getD record.tlp
    disposition := if valid.isEmpty then .expired else .active }

/-- `is_expired`. -/
def isExpired (record : IntelRecord) (now : ℚ) : Except Failure Bool := do
  return (← epoch record.expiry) ≤ now

/-- `is_active`. -/
def isActive (record : IntelRecord) (now : ℚ) : Except Failure Bool :=
  if record.disposition = .active then return !(← isExpired epoch record now) else return false

/-! ### Assertions come and go -/

/-- `merge`. -/
def merge (existing : Option IntelRecord) (incoming : IntelRecord) : Except Failure IntelRecord :=
  match existing with
  | none => .ok incoming
  | some existing => do
    let refreshed := incoming.provenance.map Provenance.origin
    let provs := existing.provenance.filter (fun p => p.origin ∉ refreshed) ++ incoming.provenance
    let firstSeen ← earlier epoch existing.firstSeen incoming.firstSeen
    let lastSeen ← later epoch existing.lastSeen incoming.lastSeen
    return { existing with provenance := provs, firstSeen := firstSeen, lastSeen := lastSeen }

/-- `_apply_revocation`. -/
def applyRevocation (base : IntelRecord) (rv : Revocation) (now : ℚ) :
    Except Failure (Option IntelRecord) :=
  let remaining := base.provenance.filter fun p => p.origin ≠ rv.origin
  if remaining = [] then .ok none
  else some <$> derive epoch { base with provenance := remaining } now

/-! ### One refresh -/

/-- The records that a refresh has touched, by key. -/
abbrev Working := Registry (Prod.fst : Key × IntelRecord → Key)

/-- `working[key] if key in working else store.get(*key)`. -/
def baseRecord (store : IntelStore) (working : Working) (k : Key) : Option IntelRecord :=
  (working.lookup k).or (store.get k)

/-- One record of the batch. -/
def ingestRecord (store : IntelStore) (now : ℚ) (working : Working) (record : IntelRecord) :
    Except Failure Working := do
  let merged ← merge epoch (baseRecord store working record.key) record
  let derived ← derive epoch merged now
  return working.put (record.key, derived)

/-- The working map and the keys to delete. -/
abbrev Draft := Working × List Key

/-- One revocation of the batch. -/
def ingestRevocation (store : IntelStore) (now : ℚ) (draft : Draft) (rv : Revocation) :
    Except Failure Draft :=
  match baseRecord store draft.1 rv.key with
  | none => .ok draft
  | some base => do
    match ← applyRevocation epoch base rv now with
    | none => return (draft.1.pop rv.key, draft.2 ++ [rv.key])
    | some updated => return (draft.1.put (rv.key, updated), draft.2)

/-- The part of `ingest` that runs in memory. -/
def drafted (store : IntelStore) (records : List IntelRecord) (now : ℚ)
    (revocations : List Revocation) : Except Failure Draft := do
  let working ← records.foldlM (ingestRecord epoch store now) .empty
  revocations.foldlM (ingestRevocation epoch store now) (working, [])

/-- `ingest`. -/
def ingest (store : IntelStore) (records : List IntelRecord) (now : ℚ)
    (revocations : List Revocation) (fault : Fault) :
    Except Failure (List IntelRecord) × IntelStore :=
  match drafted epoch store records now revocations with
  | .error e => (.error e, store)
  | .ok (working, deletes) =>
    let out := working.vals.map Prod.snd
    match store.upsertMany out deletes fault with
    | (.error e, store') => (.error e, store')
    | (.ok _, store') => (.ok out, store')

/-! ### Lookup -/

/-- `match`. -/
def matchIndicator (store : IntelStore) (tenant : String) (itype : IndicatorType) (value : String)
    (now : ℚ) : Except Failure (Option IntelRecord) :=
  let ind := normIndicator itype value
  match store.get (tenant, itype, ind) with
  | none => return none
  | some record => do
    let record ← derive epoch record now
    if !(← isActive epoch record now) then return none
    else if store.isSuppressed (tenant, itype, ind) now then return none
    else return some record

end ThreatIntel
