import Mathlib.Algebra.Order.Ring.Rat
import CernityNdr.Asset.Resolution
import CernityNdr.Framework.Selection

/-! # Evidence, Facts and Their Intervals

    The model of `asset-service/resolution.py` from the EVE record to the
    intervals of a fact: the observations of a record (`extract_evidence`),
    the entity they resolve to (`asset_key`), the fact candidates they give
    (`derive_facts`), the winner at each instant (`resolve_conflict`,
    `fold_facts`) and the interval list of a predicate (`_rebuild`).

    A record is modelled by the fields `extract_evidence` reads; a field
    that is absent is `none`, and an empty string counts as absent wherever
    the source tests truth. -/

namespace AssetService

/-! ### EVE records and their observations -/

/-- A field that is present and not empty. -/
def given (v : Option String) : Option String := v.filter (fun s => s ≠ "")

/-- A Suricata EVE record. -/
inductive Eve where
  | flow (srcIp destIp : Option String)
  | arp (srcIp srcMac : Option String)
  | dhcp (assignedIp clientIp clientMac hostname : Option String) (leaseTime : Option Int)
  | tls (srcIp destIp ja4 ja4s subject issuerdn fingerprint : Option String)
  | http (srcIp destIp userAgent host : Option String)
  | other

/-- One row of `extract_evidence`. -/
structure Obs where
  ip : Option String
  mac : Option String := none
  hostname : Option String := none
  leaseSecs : Option Int := none
  src : String
  applications : List String := []
  certificates : List String := []
  ja4 : List String := []
  deriving DecidableEq

/-- `int(lease) if lease else None`. -/
def leaseTime (lease : Option Int) : Option Int := lease.filter (fun n => n ≠ 0)

/-- `extract_evidence`. -/
def extractEvidence : Eve → List Obs
  | .flow srcIp destIp =>
    [srcIp, destIp].filterMap fun ip => (given ip).map fun ip => { ip := some ip, src := "flow" }
  | .arp srcIp srcMac =>
    match given srcIp with
    | some ip => [{ ip := some ip, mac := srcMac, src := "arp" }]
    | none => []
  | .dhcp assignedIp clientIp clientMac hostname lease =>
    -- `or` takes the second address when the first is empty
    match given ((given assignedIp).or clientIp) with
    | some ip =>
      [{ ip := some ip, mac := clientMac, hostname := hostname, leaseSecs := leaseTime lease,
         src := "dhcp" }]
    | none => []
  | .tls srcIp destIp ja4 ja4s subject issuerdn fingerprint =>
    let clientJa4 := (given ja4).toList
    let serverJa4 := (given ja4s).toList
    let certs := [subject, issuerdn, fingerprint].filterMap given
    -- each value attaches to the end of the handshake that it attests
    (if (given srcIp).isSome && !clientJa4.isEmpty then
        [{ ip := srcIp, src := "tls", ja4 := clientJa4 }] else []) ++
      (if (given destIp).isSome && (!serverJa4.isEmpty || !certs.isEmpty) then
        [{ ip := destIp, src := "tls", ja4 := serverJa4, certificates := certs }] else [])
  | .http srcIp destIp userAgent host =>
    -- the user agent is the client's, the Host header names the server
    (if (given srcIp).isSome && (given userAgent).isSome then
        [{ ip := srcIp, src := "http", applications := userAgent.toList }] else []) ++
      (if (given destIp).isSome && (given host).isSome then
        [{ ip := destIp, src := "http", hostname := host }] else [])
  | .other => []

/-! ### The entity an observation resolves to -/

/-- `lease_expiry`. -/
def leaseExpiry (ts : Instant) (leaseSecs : Option Int) : Option Iso :=
  (leaseTime leaseSecs).map fun secs => iso (ts + 1000000 * secs)

/-- `asset_key`: the MAC of the observation, else the MAC that owns its
    address at `ts`, else the address. -/
def assetKey (obs : Obs) (bindings : Bindings) (ts : Instant) : String :=
  match given obs.mac with
  | some mac => macSubject mac.toLower
  | none =>
    match given obs.ip with
    | some ip =>
      match given (resolveMac bindings ip ts) with
      | some bound => macSubject bound
      | none => "ip:" ++ ip
    | none => "ip:unknown"

/-! ### Fact candidates -/

/-- What a fact says about its subject. The `ip` facts are derived from the
    bindings, the others from candidates. -/
inductive Predicate where
  | hostname
  | mac
  | ip
  deriving DecidableEq

/-- One fact candidate of an observation. -/
structure Candidate where
  predicate : Predicate
  value : String
  confidence : ℚ
  validFrom : Iso
  expires : Option Iso
  sourceType : String
  observationId : String
  method : String
  classifierVersion : String
  deriving DecidableEq

/-- `SOURCE_CONFIDENCE.get(src, 0.4)`. -/
def factConfidence (src : String) : ℚ :=
  if src = "dhcp" then 9 / 10 else if src = "arp" then 8 / 10 else 4 / 10

/-- The candidate that one field of an observation gives. -/
def candidateOf (predicate : Predicate) (obs : Obs) (obsId : String) (ts : Instant)
    (value : String) : Candidate where
  predicate := predicate
  value := value
  confidence := factConfidence obs.src
  validFrom := iso ts
  expires := none
  sourceType := obs.src
  observationId := obsId
  method := obs.src
  classifierVersion := classifierVersion

/-- `derive_facts`. -/
def deriveFacts (obs : Obs) (obsId : String) (ts : Instant) : List Candidate :=
  ((given obs.hostname).map (candidateOf .hostname obs obsId ts)).toList ++
    ((given obs.mac).map fun mac => candidateOf .mac obs obsId ts mac.toLower).toList

/-- `SOURCE_RANK.get(src, 0)`. -/
def sourceRank (src : String) : Int :=
  if src = "dhcp" then 3 else if src = "arp" then 2 else if src = "flow" then 1 else 0

/-- The sort key of `resolve_conflict`: the strongest source, the highest
    confidence, the smallest value, then the source and the evidence. -/
def conflictKey (c : Candidate) : Int ×ₗ ℚ ×ₗ String ×ₗ String ×ₗ String :=
  toLex (-sourceRank c.sourceType, toLex (-c.confidence, toLex (c.value,
    toLex (c.sourceType, c.observationId))))

/-- The winners of one predicate, keyed by their instant. -/
abbrev ByTs := Registry Candidate.validFrom

/-- `resolve_conflict([existing, c])`. -/
def resolveConflict (existing c : Candidate) : Candidate :=
  if conflictKey c < conflictKey existing then c else existing

/-- One round of `fold_facts`. -/
def foldCandidate (byTs : ByTs) (c : Candidate) : ByTs :=
  match byTs.get? c.validFrom with
  | none => byTs.put c
  | some existing => byTs.put (resolveConflict existing c)

/-- `_fact_state`: the winners of each subject and predicate; a subject or
    predicate that is not there has none. -/
abbrev FactState := String → Predicate → ByTs

/-- `fold_facts`: fold the candidates, grouped by their predicate. -/
def foldFacts (state : FactState) (subject : String) (cands : List Candidate) : FactState :=
  fun s p =>
    if s = subject then (cands.filter (fun c => c.predicate = p)).foldl foldCandidate (state s p)
    else state s p

/-- The predicates `fold_facts` touches, each once. -/
def touchedPredicates (cands : List Candidate) : List Predicate :=
  (cands.map Candidate.predicate).eraseDups

/-! ### The interval list of a predicate -/

/-- An interval under construction, with its lease bound. -/
structure Draft where
  interval : FactInterval
  expires : Option Iso

/-- The interval that `c` opens. -/
def Draft.opened (c : Candidate) : Draft where
  interval :=
    { value := c.value, validFrom := iso c.validFrom.instant, validTo := none,
      confidence := c.confidence, sourceType := c.sourceType, observationId := c.observationId,
      method := c.method, classifierVersion := c.classifierVersion }
  expires := c.expires

/-- Whether `c` continues the open interval: the same value, before the
    lease bound. -/
def Draft.continues (cur : Draft) (c : Candidate) : Bool :=
  cur.interval.value = c.value && cur.interval.validTo = none &&
    cur.expires.all (fun e => c.validFrom.instant < e.instant)

/-- A renewal keeps the higher confidence and extends the lease bound. -/
def Draft.renew (cur : Draft) (c : Candidate) : Draft where
  interval := { cur.interval with confidence := max cur.interval.confidence c.confidence }
  expires :=
    match c.expires, cur.expires with
    | some e, some e' => if e'.instant < e.instant then some e else some e'
    | some e, none => some e
    | none, old => old

/-- A change at `t` closes the open interval, at its lease bound when that
    is earlier. -/
def Draft.close (cur : Draft) (t : Instant) : Draft :=
  if cur.interval.validTo = none then
    { cur with interval := { cur.interval with validTo := some (iso (match cur.expires with
        | some e => if e.instant < t then e.instant else t
        | none => t)) } }
  else cur

/-- One round of the loop of `_rebuild`. -/
def rebuildStep (drafts : List Draft) (c : Candidate) : List Draft :=
  match drafts.getLast? with
  | none => [Draft.opened c]
  | some cur =>
    if cur.continues c then drafts.dropLast ++ [cur.renew c]
    else drafts.dropLast ++ [cur.close c.validFrom.instant, Draft.opened c]

/-- The last interval ends at its lease bound when it has one. -/
def Draft.finish (cur : Draft) : FactInterval :=
  if cur.interval.validTo = none then { cur.interval with validTo := cur.expires }
  else cur.interval

/-- `_rebuild`. -/
def rebuildIntervals (byTs : ByTs) : List FactInterval :=
  let items := byTs.vals.insertionSort (fun a b => a.validFrom.instant ≤ b.validFrom.instant)
  let drafts := items.foldl rebuildStep []
  match drafts.getLast? with
  | none => []
  | some cur => drafts.dropLast.map Draft.interval ++ [cur.finish]

/-! ### The durable evidence row -/

/-- The kind of an entity of an evidence row. -/
inductive EntityType where
  | ip
  | mac
  | hostname
  deriving DecidableEq

/-- A row of `ndr.identity_observation`, its `observation` document read. -/
structure IdentityRow where
  tenantId : String
  obsId : String
  normalizedTime : Iso
  entities : List (EntityType × String)
  type : String
  leaseSecs : Option Int
  deriving DecidableEq

/-- `identity_observation`. -/
def identityObservation (obs : Obs) (obsId tenant : String) (ts : Instant) : IdentityRow where
  tenantId := tenant
  obsId := obsId
  normalizedTime := iso ts
  entities := ((given obs.ip).map (Prod.mk .ip)).toList ++
    ((given obs.mac).map fun mac => (.mac, mac.toLower)).toList ++
    ((given obs.hostname).map (Prod.mk .hostname)).toList
  type := obs.src
  leaseSecs := obs.leaseSecs

/-- The first entity of a kind. -/
def IdentityRow.entity (row : IdentityRow) (kind : EntityType) : Option String :=
  (row.entities.find? (fun e => e.1 = kind)).map Prod.snd

/-- `reconstruct_obs`. -/
def reconstructObs (row : IdentityRow) : Obs where
  ip := row.entity .ip
  mac := row.entity .mac
  hostname := row.entity .hostname
  leaseSecs := row.leaseSecs
  src := row.type

end AssetService
