import Mathlib.Data.List.Sort
import Mathlib.Data.List.Dedup
import Mathlib.Data.Prod.Lex
import Mathlib.Data.String.Basic
import Mathlib.Data.Rat.Defs
import Mathlib.Algebra.Order.Group.Int
import CernityNdr.Framework.Registry
import CernityNdr.Framework.Plot

/-! # Time-Bounded Identity Bindings

    The model of `asset-service/resolution.py`, section "time-bounded
    identity bindings": the raw leases of an address (`record_binding`), the
    ownership oracle (`owner_at`, `resolve_mac`) and the interval cache
    derived from it (`ownership_intervals`).

    Instants are microseconds; a stored timestamp is the canonical text
    `_iso` writes, which has millisecond precision and is represented by its
    number of milliseconds. A MAC is ASCII, where `toLower` is `str.lower`. -/

namespace AssetService

/-! ### Canonical time -/

/-- A point in time: microseconds since the epoch, UTC. -/
abbrev Instant := Int

/-- The canonical text of a timestamp (UTC, milliseconds, `Z`). -/
structure Iso where
  ms : Int
  deriving DecidableEq

/-- `_instant` of a canonical text. -/
def Iso.instant (v : Iso) : Instant := 1000 * v.ms

/-- `_iso`: the text drops what is finer than a millisecond. -/
def iso (t : Instant) : Iso := ⟨t / 1000⟩

@[simp] theorem iso_instant (v : Iso) : iso v.instant = v := by
  obtain ⟨ms⟩ := v
  simp [iso, Iso.instant]

/-! ### Leases -/

/-- One lease or ARP binding record of an address. -/
structure Lease where
  mac : String
  validFrom : Iso
  expires : Option Iso
  obsId : String
  src : String
  deriving DecidableEq

/-- The instant a lease starts. -/
def Lease.start (c : Lease) : Instant := c.validFrom.instant

/-- `bindings`: the raw leases of each address, in arrival order. -/
abbrev Bindings := Registry (Prod.fst : String × List Lease → String)

/-- `bindings.get(ip) or []`. -/
def Bindings.leases (bindings : Bindings) (ip : String) : List Lease :=
  ((bindings.get? ip).map Prod.snd).getD []

/-- `record_binding`: append the record unless one with the same MAC, start
    and observation is there. -/
def recordBinding (bindings : Bindings) (ip mac : String) (validFrom : Instant)
    (expires : Option Instant) (obsId src : String) : Bindings :=
  let lst := bindings.leases ip
  let b : Lease := ⟨mac.toLower, iso validFrom, expires.map iso, obsId, src⟩
  if lst.any (fun x => (x.mac, x.validFrom, x.obsId) = (b.mac, b.validFrom, b.obsId)) then
    bindings.put (ip, lst)
  else bindings.put (ip, lst ++ [b])

/-! ### The ownership oracle -/

/-- `_lease_id`: the tie-break between leases that start together. -/
def leaseId (c : Lease) : String ×ₗ String := toLex (c.obsId, c.mac)

/-- The winning leases, keyed by their start. -/
abbrev ByStart := Registry Lease.start

/-- One round of `_winning_by_start`. -/
def keepWinner (byStart : ByStart) (c : Lease) : ByStart :=
  match byStart.get? c.start with
  | none => byStart.put c
  | some prev => if leaseId c < leaseId prev then byStart.put c else byStart

/-- `_winning_by_start`: one lease for each distinct start, the one with the
    smallest id. -/
def winningByStart (leases : List Lease) : ByStart :=
  leases.foldl keepWinner .empty

/-- `sorted(win)`, each start with the lease that won it. -/
def winners (leases : List Lease) : List Lease :=
  (winningByStart leases).vals.insertionSort (fun a b => a.start ≤ b.start)

/-- `_lease_end`: the earlier of the next distinct start and the lease's own
    expiry. -/
def leaseEnd (c : Lease) (next : Option Instant) : Option Instant :=
  (next.toList ++ (c.expires.map Iso.instant).toList).min?

/-- The loop of `owner_at` over the starts still ahead. -/
def ownerScan (t : Instant) : List Lease → Option String
  | [] => none
  | c :: rest =>
    let stop := leaseEnd c (rest.head?.map Lease.start)
    if c.start ≤ t ∧ stop.all (fun e => t < e) then some c.mac else ownerScan t rest

/-- `owner_at`: the MAC that owns the address at `t`. -/
def ownerAt (leases : List Lease) (t : Instant) : Option String :=
  ownerScan t (winners leases)

/-- `resolve_mac`. -/
def resolveMac (bindings : Bindings) (ip : String) (ts : Instant) : Option String :=
  ownerAt (bindings.leases ip) ts

/-! ### The interval cache -/

/-- `CLASSIFIER_VERSION`. -/
def classifierVersion : String := "asset-fp-u7"

/-- `SOURCE_CONFIDENCE.get(src, 0.0)`. -/
def sourceConfidence (src : String) : ℚ :=
  if src = "dhcp" then 9 / 10 else if src = "arp" then 8 / 10
  else if src = "flow" then 4 / 10 else 0

/-- One interval of the cache, with the evidence of the lease that opened it. -/
structure Interval where
  mac : String
  value : String
  validFrom : Iso
  validTo : Option Iso
  confidence : ℚ
  sourceType : String
  observationId : String
  method : String
  classifierVersion : String
  deriving DecidableEq

/-- `t` lies in the interval. -/
def Interval.Covers (iv : Interval) (t : Instant) : Prop :=
  iv.validFrom.instant ≤ t ∧ ∀ x ∈ iv.validTo, t < x.instant

/-- A dictionary lookup under a key that is not there. -/
structure KeyError where
  key : Instant
  deriving DecidableEq

/-- The interval that lease `c` opens at the boundary `b`. -/
def openInterval (ip : String) (c : Lease) (mac : String) (b : Instant) (nb : Option Instant) :
    Interval where
  mac := mac
  value := ip
  validFrom := iso b
  validTo := nb.map iso
  confidence := sourceConfidence c.src
  sourceType := c.src
  observationId := c.obsId
  method := c.src
  classifierVersion := classifierVersion

/-- Whether the last interval ends at `b` with the same owner, so that the
    segment from `b` coalesces with it. -/
def coalesces (intervals : List Interval) (mac : String) (b : Instant) : Bool :=
  match intervals.getLast? with
  | some last => last.mac = mac && last.validTo = some (iso b)
  | none => false

/-- `last["valid_to"] = …`. -/
def moveEnd (intervals : List Interval) (nb : Option Instant) : List Interval :=
  match intervals.getLast? with
  | some last => intervals.dropLast ++ [{ last with validTo := nb.map iso }]
  | none => intervals

/-- The loop of `ownership_intervals` over the boundaries still ahead. -/
def intervalLoop (ip : String) (leases : List Lease) (win : ByStart) :
    List Interval → List Instant → Except KeyError (List Interval)
  | intervals, [] => .ok intervals
  | intervals, b :: rest =>
    match ownerAt leases b with
    | none => intervalLoop ip leases win intervals rest
    | some mac =>
      if coalesces intervals mac b then
        intervalLoop ip leases win (moveEnd intervals rest.head?) rest
      else
        match win.get? b with
        | none => .error ⟨b⟩
        | some c =>
          intervalLoop ip leases win (intervals ++ [openInterval ip c mac b rest.head?]) rest

/-- Every start and every expiry, sorted. -/
def bounds (leases : List Lease) : List Instant :=
  ((winningByStart leases).keys ++
    leases.filterMap (fun c => c.expires.map Iso.instant)).dedup.insertionSort (· ≤ ·)

/-- `ownership_intervals`. -/
def ownershipIntervals (ip : String) (leases : List Lease) : Except KeyError (List Interval) :=
  intervalLoop ip leases (winningByStart leases) [] (bounds leases)

/-! ### The intervals of every MAC subject -/

/-- A validity interval of one fact of a subject. -/
structure FactInterval where
  value : String
  validFrom : Iso
  validTo : Option Iso
  confidence : ℚ
  sourceType : String
  observationId : String
  method : String
  classifierVersion : String
  deriving DecidableEq

/-- An ownership interval as a fact of its owner: without the MAC. -/
def Interval.fact (iv : Interval) : FactInterval where
  value := iv.value
  validFrom := iv.validFrom
  validTo := iv.validTo
  confidence := iv.confidence
  sourceType := iv.sourceType
  observationId := iv.observationId
  method := iv.method
  classifierVersion := iv.classifierVersion

/-- The `ip` intervals of each subject. -/
abbrev Owned := Registry (Prod.fst : String × List FactInterval → String)

/-- The subject a MAC names. -/
def macSubject (mac : String) : String := "mac:" ++ mac

/-- `owned.setdefault("mac:" + iv["mac"], []).append(…)`. -/
def Owned.add (owned : Owned) (iv : Interval) : Owned :=
  owned.put (macSubject iv.mac, (owned.lookup (macSubject iv.mac)).getD [] ++ [iv.fact])

/-- Every subject that has ever claimed an address, with an empty list. -/
def Owned.claimed (leases : List Lease) : Owned :=
  leases.foldl (fun (owned : Owned) c => owned.put (macSubject c.mac, [])) .empty

/-- `ivs.sort(key=…)`: by the start, equal starts in their order. -/
def sortByStart (ivs : List FactInterval) : List FactInterval :=
  ivs.insertionSort (fun a b => a.validFrom.instant ≤ b.validFrom.instant)

/-- `rebuild_ip_ownership`. -/
def rebuildIpOwnership (bindings : Bindings) : Except KeyError Owned := do
  let owned ← bindings.vals.foldlM (fun (owned : Owned) entry => do
    let intervals ← ownershipIntervals entry.1 entry.2
    pure (intervals.foldl Owned.add owned)) (Owned.claimed (bindings.vals.flatMap Prod.snd))
  pure (owned.mapSnd sortByStart)

end AssetService
