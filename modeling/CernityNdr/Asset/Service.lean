import CernityNdr.Asset.Arrival
import CernityNdr.Asset.Facts
import CernityNdr.Framework.Run

/-! # The Asset Service Process

    The model of the fact path of `asset-service/app.py`: one observation
    (`_fold_observation`), one record (`observe`), the writes (`flush`) and
    the start of a process (`_load_emitted`, `restore_state`), over the two
    tables they read and write.

    An input of the machine is one call: the record that `observe` is given,
    or, for `flush`, the insert that raises (if any) and the time that
    passes before the next stamp. The tables of entities and relationships
    are written by the same `flush`; here they only matter as inserts that
    may raise. -/

namespace AssetService

/-! ### The fact table -/

/-- The columns `flush` writes (`FACT_COLS`). -/
structure FactCols where
  tenantId : String
  subject : String
  predicate : Predicate
  value : String
  confidence : ℚ
  validFrom : Iso
  validTo : Option Iso
  sourceType : String
  observationId : String
  method : String
  classifierVersion : String
  isDeleted : Bool

/-- A row of `ndr.asset_fact`: the columns and the stamp of their insert. -/
structure FactRow extends FactCols where
  updatedAt : Int

/-- The full identity of an interval: the `ORDER BY` key of the table. -/
def FactCols.key (r : FactCols) : String × String × Predicate × String × Iso × String :=
  (r.tenantId, r.subject, r.predicate, r.value, r.validFrom, r.observationId)

/-- `bool(valid_to) or bool(is_deleted)`. -/
def FactCols.isFinal (r : FactCols) : Bool := r.validTo.isSome || r.isDeleted

/-- The newest versions `_authoritative` has met. -/
abbrev Versions := Registry (fun r : FactRow => r.key)

/-- One round of `_authoritative`: a row supersedes when it is newer, or as
    new and more final. -/
def keepNewest (best : Versions) (r : FactRow) : Versions :=
  match best.get? r.key with
  | none => best.put r
  | some cur =>
    if cur.updatedAt < r.updatedAt ||
        (r.updatedAt = cur.updatedAt && (r.isFinal && !cur.isFinal)) then best.put r
    else best

/-- `_authoritative`. -/
def authoritative (rows : List FactRow) : List FactRow :=
  (rows.foldl keepNewest .empty).vals.filter (fun r => !r.isDeleted)

/-- The table: the rows of all inserts. No stamp is ahead of the clock. -/
structure FactTable where
  rows : List FactRow
  clock : Int
  stamped : ∀ r ∈ rows, r.updatedAt ≤ clock

/-- One insert, under a stamp larger than all before. -/
def FactTable.insert (t : FactTable) (delay : Nat) (cols : List FactCols) : FactTable where
  rows := t.rows ++ cols.map (fun c => ⟨c, t.clock + 1 + delay⟩)
  clock := t.clock + 1 + delay
  stamped := by
    intro r hr
    rcases List.mem_append.mp hr with hr | hr
    · have := t.stamped r hr
      omega
    · obtain ⟨c, -, rfl⟩ := List.mem_map.mp hr
      exact le_refl _

/-- The table before the first insert. -/
def FactTable.empty (clock : Int) : FactTable := ⟨[], clock, by simp⟩

/-! ### The process -/

/-- A subject and a predicate. -/
abbrev FactId := String × Predicate

/-- What tells the intervals of one `FactId` apart. -/
abbrev IntervalKey := Iso × String × String

/-- `(valid_from, value, observation_id)`. -/
def FactInterval.key (iv : FactInterval) : IntervalKey := (iv.validFrom, iv.value, iv.observationId)

/-- `_pending_facts`. -/
abbrev Pending := Registry (Prod.fst : FactId × List FactInterval → FactId)

/-- The state of one process. -/
structure Process where
  bindings : Bindings
  factState : FactState
  pendingFacts : Pending
  emitted : FactId → List IntervalKey
  pendingObs : Registry IdentityRow.obsId

/-- A process that has not read or observed anything. -/
def Process.fresh : Process where
  bindings := .empty
  factState := fun _ _ => .empty
  pendingFacts := .empty
  emitted := fun _ => []
  pendingObs := .empty

/-- The binding an observation records: it carries a MAC and an address. -/
def bindingOf (obs : Obs) (obsId : String) (ts : Instant) : Option BindingObs :=
  match given obs.mac, given obs.ip with
  | some mac, some ip =>
    some ⟨ip, mac, ts, (leaseExpiry ts obs.leaseSecs).map Iso.instant, obsId, obs.src⟩
  | _, _ => none

/-- Store the rebuilt list of each touched predicate. -/
def Pending.putTouched (pending : Pending) (state : FactState) (key : String)
    (preds : List Predicate) : Pending :=
  preds.foldl (fun pending p => pending.put ((key, p), rebuildIntervals (state key p))) pending

/-- Store the `ip` list of each subject. -/
def Pending.putOwned (pending : Pending) (owned : Owned) : Pending :=
  owned.vals.foldl (fun pending e => pending.put ((e.1, .ip), e.2)) pending

/-- `_fold_observation`: the process after the observation and the key it
    resolved to. -/
def foldObservation (tenant : String) (p : Process) (obs : Obs) (obsId : String) (ts : Instant) :
    Except KeyError (String × Process) := do
  let binding := bindingOf obs obsId ts
  let bindings := binding.elim p.bindings p.bindings.record
  let key := assetKey obs bindings ts
  let cands := deriveFacts obs obsId ts
  let pendingObs :=
    if !cands.isEmpty || binding.isSome then
      p.pendingObs.put (identityObservation obs obsId tenant ts)
    else p.pendingObs
  let factState := foldFacts p.factState key cands
  let pending := p.pendingFacts.putTouched factState key (touchedPredicates cands)
  -- a binding can move the ownership of every claimant
  let pending ←
    if binding.isSome then do
      let owned ← rebuildIpOwnership bindings
      pure (pending.putOwned owned)
    else pure pending
  pure (key, { p with
    bindings := bindings, factState := factState, pendingFacts := pending,
    pendingObs := pendingObs })

/-- A record of the bus, under its canonical observation id. -/
structure BusRecord where
  eve : Eve
  obsId : String
  ts : Instant

/-- `observe`. -/
def observe (tenant : String) (p : Process) (r : BusRecord) : Except KeyError Process :=
  (extractEvidence r.eve).foldlM (fun p obs => do
    let (_, p) ← foldObservation tenant p obs r.obsId r.ts
    pure p) p

/-! ### The writes -/

/-- The process and the tables. -/
structure World where
  proc : Process
  facts : FactTable
  identity : List IdentityRow

/-- The inserts of `flush`, in their order. -/
inductive Insert where
  | asset
  | identityObservation
  | assetFact
  | entityRelationship
  deriving DecidableEq

/-- The row of an interval. -/
def liveCols (tenant : String) (k : FactId) (iv : FactInterval) : FactCols where
  tenantId := tenant
  subject := k.1
  predicate := k.2
  value := iv.value
  confidence := iv.confidence
  validFrom := iv.validFrom
  validTo := iv.validTo
  sourceType := iv.sourceType
  observationId := iv.observationId
  method := iv.method
  classifierVersion := iv.classifierVersion
  isDeleted := false

/-- The row that retires an interval. -/
def tombstone (tenant : String) (k : FactId) (key : IntervalKey) : FactCols where
  tenantId := tenant
  subject := k.1
  predicate := k.2
  value := key.2.1
  confidence := 0
  validFrom := key.1
  validTo := none
  sourceType := ""
  observationId := key.2.2
  method := ""
  classifierVersion := ""
  isDeleted := true

/-- The rows of one pending entry: its intervals, and a tombstone for each
    emitted interval that is gone. -/
def entryRows (tenant : String) (emitted : FactId → List IntervalKey)
    (entry : FactId × List FactInterval) : List FactCols :=
  let current := entry.2.map FactInterval.key
  entry.2.map (liveCols tenant entry.1) ++
    ((emitted entry.1).filter (fun key => !current.contains key)).map (tombstone tenant entry.1)

/-- `_emitted.update(new_emitted)`. -/
def updateEmitted (emitted : FactId → List IntervalKey) (pending : Pending) :
    FactId → List IntervalKey :=
  fun k =>
    match pending.lookup k with
    | some ivs => ivs.map FactInterval.key
    | none => emitted k

/-- The second block of `flush`, its insert done. -/
def flushObservations (w : World) : World :=
  { w with
    identity := w.identity ++ w.proc.pendingObs.vals
    proc := { w.proc with pendingObs := .empty } }

/-- The third block of `flush`, its insert done. -/
def flushFacts (tenant : String) (w : World) (delay : Nat) : World :=
  { w with
    facts := w.facts.insert delay
      (w.proc.pendingFacts.vals.flatMap (entryRows tenant w.proc.emitted))
    proc := { w.proc with
      emitted := updateEmitted w.proc.emitted w.proc.pendingFacts
      pendingFacts := .empty } }

/-- `flush`: whether it returns, and what it leaves. An insert that is made
    and raises ends it. -/
def flush (tenant : String) (w : World) (fault : Option Insert) (delay : Nat) : Bool × World :=
  if fault = some .asset then (false, w)
  else if fault = some .identityObservation ∧ w.proc.pendingObs.vals ≠ [] then (false, w)
  else
    let w := flushObservations w
    if fault = some .assetFact ∧ w.proc.pendingFacts.vals ≠ [] then (false, w)
    else
      let w := if w.proc.pendingFacts.vals = [] then w else flushFacts tenant w delay
      (fault ≠ some .entityRelationship, w)

/-! ### The start of a process -/

/-- The rows `_authoritative` selects for a subject and predicate of the
    tenant. -/
def liveRows (tenant : String) (t : FactTable) (k : FactId) : List FactRow :=
  (authoritative t.rows).filter fun r => r.tenantId = tenant ∧ (r.subject, r.predicate) = k

/-- The key of the interval a row stores. -/
def FactRow.intervalKey (r : FactRow) : IntervalKey := (r.validFrom, r.value, r.observationId)

/-- `_load_emitted`: the intervals that the processes before have left
    live. The query reads with `FINAL`, which leaves out versions that a
    newer one supersedes; `_authoritative` leaves them out as well. -/
def loadEmitted (tenant : String) (t : FactTable) : FactId → List IntervalKey :=
  fun k => (liveRows tenant t k).map FactRow.intervalKey

/-- A process that has loaded what was emitted before. -/
def World.loaded (tenant : String) (t : FactTable) (identity : List IdentityRow) : World where
  proc := { Process.fresh with emitted := loadEmitted tenant t }
  facts := t
  identity := identity

/-- The time and the observation id of an evidence row. -/
def IdentityRow.order (row : IdentityRow) : Int ×ₗ String :=
  toLex (row.normalizedTime.ms, row.obsId)

/-- The query of `restore_state`: the last row of each observation, in the
    order of time and observation id. -/
def selectIdentity (tenant : String) (rows : List IdentityRow) : List IdentityRow :=
  let latest := (rows.filter fun row => row.tenantId = tenant).foldl
    (fun (latest : Registry IdentityRow.obsId) row => latest.put row) .empty
  latest.vals.insertionSort (fun a b => a.order ≤ b.order)

/-- The replay loop of `restore_state`. -/
def replay (tenant : String) (p : Process) (rows : List IdentityRow) : Except KeyError Process :=
  rows.foldlM (fun p row => do
    let (_, p) ← foldObservation tenant p (reconstructObs row) row.obsId row.normalizedTime.instant
    pure p) p

/-- `restore_state`: load, replay, and repair with a flush. -/
def restoreState (tenant : String) (t : FactTable) (identity : List IdentityRow)
    (fault : Option Insert) (delay : Nat) : Except KeyError (Bool × World) := do
  let w := World.loaded tenant t identity
  let p ← replay tenant w.proc (selectIdentity tenant identity)
  pure (flush tenant { w with proc := { p with pendingObs := .empty } } fault delay)

/-! ### Runs -/

/-- One call. -/
inductive Input where
  | observe (r : BusRecord)
  | flush (fault : Option Insert) (delay : Nat)

/-- The state after the call. -/
def step (tenant : String) (w : World) : Input → World
  | .observe r =>
    match observe tenant w.proc r with
    | .ok p => { w with proc := p }
    | .error _ => w
  | .flush fault delay => (flush tenant w fault delay).2

/-! ### What the process holds -/

/-- The interval list of a subject and predicate, as the caches give it. -/
def Process.intervals (p : Process) (k : FactId) : List FactInterval :=
  match k.2 with
  | .ip =>
    match rebuildIpOwnership p.bindings with
    | .ok owned => (owned.lookup k.1).getD []
    | .error _ => []
  | pred => rebuildIntervals (p.factState k.1 pred)

/-- The process has folded evidence of this subject and predicate. -/
def Process.Holds (p : Process) (k : FactId) : Prop :=
  match k.2 with
  | .ip => ∃ c ∈ claims p.bindings, macSubject c.mac = k.1
  | pred => (p.factState k.1 pred).vals ≠ []

end AssetService
