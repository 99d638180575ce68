import Mathlib.Data.Prod.Lex
import Mathlib.Data.List.SplitBy
import CernityNdr.Framework.Emission
import CernityNdr.Framework.Selection
import CernityNdr.Framework.Number
import CernityNdr.Framework.Statistics
import CernityNdr.Objects.Keys
import CernityNdr.Window.Memory

/-! # The Outbound Bytes Model

    The model of `OutboundBytesModel` of `anomaly-detector/anomaly.py`. A row
    has what one entity sent in one window. It is compared with the rows that
    were learned before: those of the same entity, and those of its peers in
    the cohort. The rows are kept in a list or in a store.

    A call takes its rows window by window: all rows of a window are scored
    before any of them is learned. -/

open CappedMap (FieldMap)

namespace OutboundBytes

/-! ### Rows -/

structure Cohort where
  subnet : String
  role : String
  method : String
  deriving DecidableEq, Repr

/-- What is learned of a row. -/
structure Learned where
  tenant : String
  cohort : Cohort
  entity : String
  start : Number
  endTime : Number
  bytesOut : Number
  deriving DecidableEq, Repr

/-- What one entity sent in one window, as `FeatureExtractor` gives it. -/
structure Row extends Learned where
  timeMethods : List String
  evidenceRefs : List String
  sensorIds : List String
  deriving DecidableEq, Repr

def Cohort.toJson (c : Cohort) : Json :=
  .obj [("subnet", .str c.subnet), ("role", .str c.role), ("method", .str c.method)]

def Cohort.ofJson (v : Json) : Option Cohort := do
  let d ← v.obj?
  let subnet ← (← d.get? "subnet").str?
  let role ← (← d.get? "role").str?
  let method ← (← d.get? "method").str?
  return ⟨subnet, role, method⟩

/-- `{k: row[k] for k in (..)}`. -/
def Learned.toJson (r : Learned) : Json :=
  .obj [("tenant", .str r.tenant), ("cohort", r.cohort.toJson), ("entity", .str r.entity),
    ("start", r.start.toJson), ("end", r.endTime.toJson), ("bytes_out", r.bytesOut.toJson)]

/-- The fields of a row that was read from the store; `none` where one is
    missing. -/
def Learned.ofJson (v : Json) : Option Learned := do
  let d ← v.obj?
  let tenant ← (← d.get? "tenant").str?
  let cohort ← Cohort.ofJson (← d.get? "cohort")
  let entity ← (← d.get? "entity").str?
  let start ← Number.ofJson (← d.get? "start")
  let endTime ← Number.ofJson (← d.get? "end")
  let bytesOut ← Number.ofJson (← d.get? "bytes_out")
  return ⟨tenant, cohort, entity, start, endTime, bytesOut⟩

/-! ### The configuration -/

/-- The arguments that the constructor accepts. -/
structure Config where
  historyWindows : Nat
  minSamples : Nat
  minPeers : Nat
  threshold : ℚ
  scaleFloor : ℚ
  retentionSeconds : ℚ
  samples_pos : 1 ≤ minSamples
  samples_le : minSamples ≤ historyWindows
  peers_pos : 1 ≤ minPeers
  threshold_pos : 0 < threshold
  floor_pos : 0 < scaleFloor
  retention_pos : 0 < retentionSeconds

def Config.default : Config where
  historyWindows := 288
  minSamples := 3
  minPeers := 2
  threshold := 6
  scaleFloor := 1024
  retentionSeconds := 28 * 86400
  samples_pos := by decide
  samples_le := by decide
  peers_pos := by decide
  threshold_pos := by norm_num
  floor_pos := by norm_num
  retention_pos := by norm_num

/-- What the model is given from outside. -/
structure Env where
  /-- `iso(epoch)` -/
  iso : ℚ → String
  sha256 : ObjectKeys.Digest
  /-- what the clocks of the model and of the store show at each reading -/
  time : Nat → ℚ

/-! ### Baselines -/

/-- What a baseline that has rows was trained to. -/
structure Trained where
  median : ℚ
  mad : ℚ
  scale : ℚ
  trainedFrom : String
  trainedTo : String
  deriving DecidableEq, Repr

structure Baseline where
  available : Bool
  samples : Nat
  trained : Option Trained
  deriving DecidableEq, Repr

/-- `baseline`. -/
def baseline (cfg : Config) (env : Env) (rows : List Learned) : Baseline :=
  let values := rows.map fun r => r.bytesOut.value
  if values.isEmpty then ⟨false, 0, none⟩
  else
    let center := Statistics.median values
    let mad := Statistics.medianDistance center values
    { available := cfg.minSamples ≤ values.length
      samples := values.length
      trained := some {
        median := center
        mad := mad
        scale := max (max (14826 / 10000 * mad) cfg.scaleFloor) (center * (1 / 10))
        trainedFrom := env.iso (Statistics.least (rows.map fun r => r.start.value))
        trainedTo := env.iso (Statistics.greatest (rows.map fun r => r.endTime.value)) } }

/-! ### Findings -/

def VERSION : String := "1.0.0"

structure Features where
  bytesOut : Number
  unit : String
  schemaVersion : String
  semantics : String
  timeMethods : List String
  deriving DecidableEq, Repr

structure CohortDetail where
  cohort : Cohort
  tenant : String
  entity : String
  peerMembers : List String
  excludesScoredEntity : Bool
  deriving DecidableEq, Repr

structure ModelDetail where
  name : String
  version : String
  type : String
  historyWindows : Nat
  minSamples : Nat
  minPeers : Nat
  scaleFloorBytes : ℚ
  relativeScaleFloor : ℚ
  madMultiplier : ℚ
  deriving DecidableEq, Repr

structure Explanation where
  schema : String
  features : Features
  window : String × String
  entityBaseline : Baseline
  peerBaseline : Baseline
  cohort : CohortDetail
  model : ModelDetail
  mode : String
  score : ℚ
  threshold : ℚ
  deviations : List (String × ℚ)
  topContributors : List (String × ℚ)
  evidenceRefs : List String
  deriving DecidableEq, Repr

structure Finding where
  findingId : List Char
  tenantId : String
  sensorIds : List String
  detectorId : String
  detectorVersion : String
  category : String
  severity : Nat
  confidence : ℚ
  firstSeen : String
  lastSeen : String
  entities : List Char
  evidenceRefs : List String
  anomaly : Explanation
  state : String
  deriving DecidableEq, Repr

/-- `json.dumps([tenant, entity, start, VERSION], separators=(',', ':'))`. -/
def findingIdentity (row : Row) : List Char :=
  '[' :: Json.quote row.tenant ++ ',' :: Json.quote row.entity ++ ',' :: row.start.str ++
    ',' :: Json.quote VERSION ++ [']']

/-- The bytes of a text. -/
def bytes (text : List Char) : List UInt8 := ObjectKeys.encode (String.ofList text)

def findingId (env : Env) (row : Row) : List Char :=
  "outbytes-".toList ++ env.sha256.hexdigest (bytes (findingIdentity row))

/-! ### Scoring -/

/-- The rows of the history that a row is compared with. -/
def relevant (history : List Learned) (row : Row) : List Learned :=
  history.filter fun r =>
    r.tenant = row.tenant ∧ r.cohort = row.cohort ∧ r.endTime.value ≤ row.start.value

/-- `sorted({r['entity'] for r in peers})`. -/
def members (peers : List Learned) : List String :=
  Statistics.sorted (peers.map fun r => r.entity).dedup

/-- The deviations from the baselines that are available. -/
def deviations (row : Row) (own peer : Baseline) : List (String × ℚ) :=
  [("entity", own), ("peer", peer)].filterMap fun b =>
    if b.2.available then
      b.2.trained.map fun t => (b.1, max 0 ((row.bytesOut.value - t.median) / t.scale))
    else none

def explain (cfg : Config) (env : Env) (row : Row) (own peer : Baseline) (members : List String)
    (deviations : List (String × ℚ)) (score : ℚ) : Explanation where
  schema := "cernity.anomaly.v1"
  features :=
    { bytesOut := row.bytesOut
      unit := "bytes"
      schemaVersion := "outbound-bytes.v1"
      semantics := "conn bytes_toserver attributed at normalized observation time"
      timeMethods := row.timeMethods }
  window := (env.iso row.start.value, env.iso row.endTime.value)
  entityBaseline := own
  peerBaseline := peer
  cohort := ⟨row.cohort, row.tenant, row.entity, members, true⟩
  model :=
    { name := "outbound-bytes-baseline"
      version := VERSION
      type := "median-mad"
      historyWindows := cfg.historyWindows
      minSamples := cfg.minSamples
      minPeers := cfg.minPeers
      scaleFloorBytes := cfg.scaleFloor
      relativeScaleFloor := 1 / 10
      madMultiplier := 14826 / 10000 }
  mode := if own.available then "entity-and-peer" else "peer-only-cold-start"
  score := score
  threshold := cfg.threshold
  deviations := deviations
  topContributors := [("bytes_out", 1)]
  evidenceRefs := row.evidenceRefs

def finding (env : Env) (row : Row) (own : Baseline) (anomaly : Explanation) : Finding where
  findingId := findingId env row
  tenantId := row.tenant
  sensorIds := row.sensorIds
  detectorId := "outbound_bytes_anomaly"
  detectorVersion := VERSION
  category := "anomaly"
  severity := 6
  confidence := if own.available then 8 / 10 else 1 / 2
  firstSeen := env.iso row.start.value
  lastSeen := env.iso row.endTime.value
  entities := Json.dumps (.arr [.obj [("type", .str "ip"), ("role", .str "src"),
    ("value", .str row.entity)]])
  evidenceRefs := row.evidenceRefs
  anomaly := anomaly
  state := "CANDIDATE"

/-- What `score` makes of a row and of the rows that it is compared with. -/
def assess (cfg : Config) (env : Env) (row : Row) (relevant : List Learned) : Option Finding :=
  let own := baseline cfg env (relevant.filter fun r => r.entity = row.entity)
  let peers := relevant.filter fun r => r.entity ≠ row.entity
  let members := members peers
  let peer := baseline cfg env peers
  let peer := { peer with available := peer.available && decide (cfg.minPeers ≤ members.length) }
  let deviations := deviations row own peer
  if peer.available then
    let score := Statistics.least (deviations.map Prod.snd)
    if score ≤ cfg.threshold then none
    else some (finding env row own (explain cfg env row own peer members deviations score))
  else none

/-- A row that was scored: what it was compared with, and the finding. -/
structure Scored where
  row : Row
  relevant : List Learned
  finding : Option Finding
  deriving DecidableEq, Repr

/-- `score`, with the history that the row is compared with. -/
def score (cfg : Config) (env : Env) (history : List Learned) (row : Row) : Scored :=
  let relevant := relevant history row
  ⟨row, relevant, assess cfg env row relevant⟩

/-- The findings among what was scored. -/
def findings (out : List Scored) : List Finding := out.filterMap fun s => s.finding

/-! ### The history in a store -/

/-- `json.dumps([row['tenant'], row['cohort']], sort_keys=True)`. -/
def cohortIdentity (tenant : String) (cohort : Cohort) : List Char :=
  Json.dumps (Json.sortKeys (.arr [.str tenant, cohort.toJson]))

/-- `json.dumps(row['entity'])`. -/
def entityIdentity (entity : String) : List Char := Json.dumps (.str entity)

/-- `history_prefix`. -/
def historyPrefix (env : Env) (r : Learned) : String :=
  String.ofList ("ob:v1:".toList ++ env.sha256.hexdigest (bytes (cohortIdentity r.tenant r.cohort)) ++
    [':'])

/-- The key of a row. -/
def rowKey (env : Env) (r : Learned) : String :=
  String.ofList ((historyPrefix env r).toList ++
    env.sha256.hexdigest (bytes (entityIdentity r.entity)) ++ ':' :: r.start.str)

/-- `float(key.rsplit(':', 1)[1])`. -/
def keyStart (key : String) : Option ℚ :=
  if ':' ∈ key.toList then Number.ofText (Affix.rpartition ':' key.toList).2 else none

/-- The store, and how often the clocks have been read. -/
structure External where
  store : InMemoryStore
  readings : Nat

/-- The oldest start that counts for a row. -/
def cutoff (cfg : Config) (row : Learned) : ℚ :=
  row.start.value - cfg.historyWindows * (row.endTime.value - row.start.value)

/-- The rows under the keys whose start is in `[since, before)`. -/
def readKeys (env : Env) (since before : ℚ) : List String → External →
    Option (List Learned × External)
  | [], e => some ([], e)
  | key :: keys, e => do
    let start ← keyStart key
    if since ≤ start ∧ start < before then
      let (v, store) := e.store.kvGet key (env.time e.readings)
      let (rows, e) ← readKeys env since before keys ⟨store, e.readings + 1⟩
      match v with
      | none => return (rows, e)
      | some v => return ((← Learned.ofJson v) :: rows, e)
    else readKeys env since before keys e

/-- `_stored_history`. -/
def storedHistory (cfg : Config) (env : Env) (row : Row) (e : External) :
    Option (List Learned × External) :=
  let keys := e.store.keysMatching (historyPrefix env row.toLearned) (env.time e.readings)
  readKeys env (cutoff cfg row.toLearned) row.start.value keys ⟨e.store, e.readings + 1⟩

/-- One read for each cohort of a window. -/
def takeSnapshot (cfg : Config) (env : Env) : List Row → FieldMap String (List Learned) → External →
    Option (FieldMap String (List Learned) × External)
  | [], snapshot, e => some (snapshot, e)
  | row :: batch, snapshot, e =>
    if historyPrefix env row.toLearned ∈ snapshot.keys then takeSnapshot cfg env batch snapshot e
    else do
      let (rows, e) ← storedHistory cfg env row e
      takeSnapshot cfg env batch (snapshot.put (historyPrefix env row.toLearned, rows)) e

/-- `_learn`. -/
def learn (cfg : Config) (env : Env) (e : External) (row : Row) : External :=
  let ttl := row.endTime.value + cfg.retentionSeconds - env.time e.readings
  ⟨(e.store.kvSetOnce (rowKey env row.toLearned) row.toLearned.toJson ttl
    (env.time (e.readings + 1))).2, e.readings + 2⟩

/-! ### Evaluation -/

/-- The history of the model; `store` is none for the history in memory. The
    list in memory keeps whole rows, of which `score` reads what is learned. -/
structure Model where
  history : List Learned
  store : Option External

/-- `OutboundBytesModel()`. -/
def Model.inMemory : Model := ⟨[], none⟩

/-- `OutboundBytesModel(store=InMemoryStore())`. -/
def Model.stored : Model := ⟨[], some ⟨.empty, 0⟩⟩

/-- The body of the loop of `evaluate`, for the rows of one window. -/
def evaluateWindow (cfg : Config) (env : Env) (m : Model) (batch : List Row) :
    Option (List Scored × Model) :=
  match batch with
  -- `groupby` makes no window without rows
  | [] => some ([], m)
  | first :: _ =>
    let history := m.history.filter fun r => cutoff cfg first.toLearned ≤ r.start.value
    match m.store with
    | none => some (batch.map (score cfg env history), ⟨history ++ batch.map Row.toLearned, none⟩)
    | some e => do
      let (snapshot, e) ← takeSnapshot cfg env batch .empty e
      let out ← batch.mapM fun row =>
        (snapshot.lookup (historyPrefix env row.toLearned)).map fun rows => score cfg env rows row
      return (out, ⟨history, some (batch.foldl (learn cfg env) e)⟩)

/-- `(r['start'], r['tenant'], r['entity'])`. -/
def sortKey (row : Row) : ℚ ×ₗ String ×ₗ String :=
  toLex (row.start.value, toLex (row.tenant, row.entity))

/-- `groupby(sorted(rows, ..), ..)`. -/
def windows (rows : List Row) : List (List Row) :=
  (Keyset.sort sortKey rows).splitBy fun a b => a.start.value = b.start.value

/-- `evaluate`; `none` where it raises. -/
def evaluate (cfg : Config) (env : Env) (m : Model) (rows : List Row) : Option (List Scored × Model) :=
  Emission.run (evaluateWindow cfg env) m (windows rows)

/-- Calls of `evaluate`, one after the other. -/
def evaluateCalls (cfg : Config) (env : Env) (m : Model) (calls : List (List Row)) :
    Option (List Scored × Model) :=
  Emission.run (evaluate cfg env) m calls

end OutboundBytes
