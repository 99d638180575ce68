import CernityNdr.Evidence.Paging
import CernityNdr.Intel.Dimensions

/-! # The Hunt Worker

    The model of `intel-hunt/hunt.py` and `intel-hunt/store.py`: a job looks
    for indicators in the observations of a window. A step reads one page of
    evidence, matches it, and stores the hits together with the cursor of the
    next page.

    A time of a job or an observation is a text that `parseTs` reads; the
    cursor of a state is kept as the time that its text stands for. -/

namespace IntelHunt

open EvidenceService ThreatIntel Json

/-! ### Jobs -/

structure Indicator where
  itype : IndicatorType
  indicator : String
  intelKnownAt : String
deriving DecidableEq

/-- hunt.v1; `stop` is its `to` -/
structure Job where
  huntId : String
  tenant : String
  frm : String
  stop : String
  pageSize : Option Int
  intelSet : Option String
  indicators : Option (List Indicator)
deriving DecidableEq

/-- What `prepare` uses of a record of a saved intel set. -/
structure SavedRecord where
  tenant : String
  itype : IndicatorType
  indicator : String
  /-- `observed_at` of the provenance -/
  observedAt : List (Option String)

/-- What a step raises. -/
inductive HuntError
  /-- `ValidationError` -/
  | invalidJob
  /-- `PermissionError`: `hunt tenant mismatch` -/
  | tenantMismatch
  /-- `from/to must be ISO8601 datetimes`, `to must be after from` -/
  | badWindow
  /-- `hunt window must not exceed 31 days` -/
  | windowTooLong
  /-- `saved intel set not found` -/
  | setNotFound
  /-- `saved intel set must contain 1..100 records` -/
  | setSize
  /-- `saved intel set tenant mismatch` -/
  | setTenant
  /-- `saved intel lacks acquisition timestamp` -/
  | noAcquisition
  /-- a time or an indicator that does not parse -/
  | badValue
  /-- `empty indicator` -/
  | emptyIndicator
  /-- `hunt_id already belongs to a different request` -/
  | otherRequest
  /-- the evidence query raises -/
  | unavailable
  /-- an observation lacks a member or has one of a wrong type -/
  | badObservation
  /-- `evidence tenant mismatch` -/
  | evidenceTenant
  /-- `evidence outside hunt window` -/
  | outsideWindow
  /-- `evidence cursor did not advance within window` -/
  | cursorStuck
  /-- `KeyError` -/
  | notFound
  /-- a statement or a commit raises, or the process ends here -/
  | storeError
deriving DecidableEq, Repr

/-- What is not in the repository: the standard library, `_parse_ts` of a
    value in microseconds, the job schema and the hash function. -/
structure Env where
  lib : Library
  parseTs : Json → Option Int
  valid : Job → Bool
  sha256 : List Char → String

variable (env : Env)

/-- `parse_window`. -/
def parseWindow (frm stop : String) : Except HuntError (Int × Int) :=
  match env.parseTs (.str frm), env.parseTs (.str stop) with
  | some a, some b => if b ≤ a then .error .badWindow else .ok (a, b)
  | _, _ => .error .badWindow

/-- The earliest of some times, and the first of its texts. -/
def earliest : List String → Except HuntError String
  | [] => .error .noAcquisition
  | date :: dates =>
    if (env.parseTs (.str date)).isNone then .error .badValue
    else dates.foldlM (fun best d =>
      match env.parseTs (.str d), env.parseTs (.str best) with
      | some t, some u => .ok (if t < u then d else best)
      | _, _ => .error .badValue) date

/-- `saved_indicators`. -/
def savedIndicators (records : List SavedRecord) (tenant : String) :
    Except HuntError (List Indicator) :=
  if records.length < 1 ∨ 100 < records.length then .error .setSize
  else records.mapM fun record =>
    if record.tenant ≠ tenant then .error .setTenant
    else do
      let known ← earliest env (record.observedAt.filterMap fun d => d.filter (· ≠ ""))
      return ⟨record.itype, record.indicator, known⟩

/-- The form of an indicator in which it is compared. -/
def normalized (ind : Indicator) : Except HuntError Indicator :=
  match env.parseTs (.str ind.intelKnownAt), normIndicator env.lib ind.itype ind.indicator with
  | some _, some v =>
    if v = "" then .error .emptyIndicator
    else if ind.itype = .ip ∧ env.lib.isNetwork v = false then .error .badValue
    else .ok { ind with indicator := v }
  | _, _ => .error .badValue

/-- 31 days. -/
def MAX_HUNT : Int := 31 * 86400 * 1000000

/-- The indicators that a job names, itself or through a saved set. -/
def resolve (saved : String → String → Option (List SavedRecord)) (job : Job) (tenant : String) :
    Except HuntError (List Indicator) :=
  match job.indicators with
  | some indicators => .ok indicators
  | none =>
    match job.intelSet.bind (saved tenant) with
    | none => .error .setNotFound
    | some records => savedIndicators env records tenant

/-- `prepare`: the indicators of a job, in the form in which they are
    compared. -/
def prepare (saved : String → String → Option (List SavedRecord)) (job : Job) (tenant : String) :
    Except HuntError (List Indicator) :=
  if !env.valid job then .error .invalidJob
  else if job.tenant ≠ tenant then .error .tenantMismatch
  else do
    let window ← parseWindow env job.frm job.stop
    if MAX_HUNT < window.2 - window.1 then .error .windowTooLong
    else do
      let indicators ← resolve env saved job tenant
      if !env.valid { job with intelSet := none, indicators := some indicators } then
        .error .invalidJob
      else indicators.mapM (normalized env)

/-! ### The store -/

inductive Status
  | pending | complete
deriving DecidableEq, Repr

/-- The progress of a job, with the snapshot of its indicators. -/
structure State where
  status : Status
  frm : Int
  after : String
  indicators : List Indicator
  /-- `dimension not yet supported` -/
  unsupported : List Indicator

structure Hit where
  hitId : String
  tenant : String
  obsId : String
  indicator : Indicator
  observedAt : Json
  observationTs : Json
  sourceRef : Json
  matchedFields : List String
  learnedAfterObservation : Bool

/-- A row of `jobs`. -/
structure JobRow where
  tenant : String
  id : String
  request : Job
  state : State

def JobRow.key (row : JobRow) : String × String := (row.tenant, row.id)

/-- A row of `hits`. -/
structure HitRow where
  tenant : String
  job : String
  id : String
  record : Hit

def HitRow.key (row : HitRow) : String × String × String := (row.tenant, row.job, row.id)

structure Tables where
  jobs : Registry JobRow.key
  hits : Registry HitRow.key

inductive Statement
  /-- `INSERT OR REPLACE` -/
  | replaceJob (row : JobRow)
  /-- `INSERT OR IGNORE` -/
  | insertHit (row : HitRow)

def Statement.apply (t : Tables) : Statement → Tables
  | replaceJob row => { t with jobs := t.jobs.put row }
  | insertHit row =>
    match t.hits.get? row.key with
    | some _ => t
    | none => { t with hits := t.hits.put row }

abbrev HuntStore := Connection Tables

/-- What `results` returns. -/
structure Results where
  huntId : String
  tenant : String
  status : Status
  unsupported : List Indicator
  hits : List Hit
  nextAfter : Option String

namespace HuntStore

/-- `load`. -/
def load (s : HuntStore) (tenant jobId : String) : Option (Job × State) :=
  (s.view.jobs.get? (tenant, jobId)).map fun row => (row.request, row.state)

/-- The hits of a job. -/
def hitsOf (s : HuntStore) (tenant jobId : String) : List HitRow :=
  s.view.hits.vals.filter fun row => row.tenant = tenant && row.job = jobId

/-- The statements of `save`. -/
def statements (tenant jobId : String) (request : Job) (state : State) (hits : List Hit) :
    List Statement :=
  .replaceJob ⟨tenant, jobId, request, state⟩ ::
    hits.map fun h => .insertHit ⟨tenant, jobId, h.hitId, h⟩

/-- `save`. -/
def save (s : HuntStore) (tenant jobId : String) (request : Job) (state : State) (hits : List Hit)
    (fault : Fault) : Except SqlError Unit × HuntStore :=
  s.writeOrRollback Statement.apply (statements tenant jobId request state hits) fault

/-- `results`. -/
def results (s : HuntStore) (tenant jobId after : String) (limit : Nat) : Except HuntError Results :=
  if limit < 1 ∨ 1000 < limit then .error .badValue
  else
    match s.load tenant jobId with
    | none => .error .notFound
    | some (_, state) =>
      let rows := (((s.hitsOf tenant jobId).filter fun row => after < row.id).insertionSort
        fun a b => a.id ≤ b.id).take (limit + 1)
      .ok { huntId := jobId, tenant := tenant, status := state.status,
            unsupported := state.unsupported, hits := (rows.take limit).map HitRow.record,
            nextAfter := if limit < rows.length then rows[limit - 1]?.map HitRow.id else none }

end HuntStore

/-! ### Matching a page -/

/-- `SUPPORTED`. -/
def supported (itype : IndicatorType) : Bool := itype ≠ .url

/-- `OBS_TYPES`. -/
def obsTypes : List String := ["conn", "dns", "tls", "http", "file"]

/-- `matches`. -/
def isMatch (ind : Indicator) (kind : IndicatorType) (value : String) : Bool :=
  if ind.itype ≠ kind then false
  else if kind = .ip then env.lib.inNetwork ind.indicator value
  else normIndicator env.lib kind value = some ind.indicator

/-- `sorted({...})`. -/
def sortedSet (fields : List String) : List String := fields.dedup.insertionSort (· ≤ ·)

def indicatorJson (ind : Indicator) : Json :=
  .obj [("type", .str ind.itype.text), ("indicator", .str ind.indicator),
    ("intel_known_at", .str ind.intelKnownAt)]

/-- The identity of a hit: its observation and its indicator. -/
def hitId (tenant huntId obsId : String) (ind : Indicator) : String :=
  env.sha256 (Json.sortKeys (.arr [.str tenant, .str huntId, .str obsId, indicatorJson ind])).dumps

/-- The value of a member that has to be there. -/
def member (d : Dict) (key : String) : Except HuntError Json :=
  (d.get? key).elim (.error .badObservation) .ok

/-- A member that has to be an object. -/
def objMember (d : Dict) (key : String) : Except HuntError Dict :=
  (d.get? key >>= Json.obj?).elim (.error .badObservation) .ok

/-- The hit of one indicator, if one of its dimensions matches. -/
def hitOf (tenant huntId : String) (obs : Dict) (dims : List Dimension) (ind : Indicator) :
    Except HuntError (Option Hit) :=
  let fields := sortedSet ((dims.filter fun d => supported d.kind && isMatch env ind d.kind d.value).map
    Dimension.field)
  if fields = [] then .ok none
  else do
    let obsId ← ((← member obs "obs_id").str?).elim (.error .badObservation) .ok
    let ts ← objMember obs "ts"
    let observed ← member ts "sensor"
    let sourceRef ← member obs "source_ref"
    match env.parseTs (.str ind.intelKnownAt), env.parseTs observed with
    | some known, some seen =>
      .ok (some ⟨hitId env tenant huntId obsId ind, tenant, obsId, ind, observed, .obj ts, sourceRef,
        fields, seen < known⟩)
    | _, _ => .error .badValue

/-- The dimensions of an observation. -/
def dimensionsOf (obs : Dict) : Except HuntError (List Dimension) :=
  if (obs.get "type").beq (.str "file") then (dimensions env.lib obs).elim (.error .badObservation) .ok
  else do
    let fields ← objMember obs "fields"
    (dimensions env.lib fields).elim (.error .badObservation) .ok

/-- The hits of one observation. -/
def observationHits (tenant huntId : String) (window : Int × Int) (indicators : List Indicator)
    (obs : Dict) : Except HuntError (List Hit) := do
  let owner ← member obs "tenant"
  if !owner.beq (.str tenant) then .error .evidenceTenant
  else do
    let normalizedTs ← member (← objMember obs "ts") "normalized"
    match env.parseTs normalizedTs with
    | none => .error .badValue
    | some t =>
      if ¬ (window.1 ≤ t ∧ t < window.2) then .error .outsideWindow
      else do
        let otype ← member obs "type"
        if !(otype.str?.any fun s => s ∈ obsTypes) then .ok []
        else do
          let dims ← dimensionsOf env obs
          let hits ← indicators.mapM (hitOf env tenant huntId obs dims)
          .ok (hits.filterMap id)

/-! ### A step -/

/-- `clamp_page_size`. -/
def clampPageSize (raw : Int) : Except HuntError Nat :=
  if raw < 1 then .error .badValue else .ok (min raw 1000).toNat

/-- The evidence: the table, its observations, and how the database binds
    times. -/
structure Evidence where
  binding : Binding
  table : List Row
  /-- the canonical JSON of a row -/
  observation : Row → Dict

/-- The query of a page: one tenant and nothing else. -/
def pageQuery (tenant : String) (pageSize : Nat) : Query := ⟨[tenant], none, none, none, pageSize⟩

variable (evidence : Evidence)

/-- `fetch_hunt_page`. -/
def fetchHuntPage (tenant : String) (frm stop : Int) (pageSize : Int) (after : String) :
    Except HuntError Page :=
  if tenant = "" then .error .badValue
  else if stop ≤ frm then .error .badWindow
  else do
    let size ← clampPageSize pageSize
    (fetchObservations evidence.binding evidence.table (pageQuery tenant size) frm stop after).elim
      (.error .unavailable) .ok

/-- The key of a cursor. -/
def State.cursor (state : State) : Int ×ₗ String := toLex (state.frm, state.after)

/-- One page: the next state, and the hits of the page. -/
def advance (job : Job) (tenant : String) (state : State) (readFails : Bool) :
    Except HuntError (State × List Hit) :=
  if state.indicators = [] then .ok ({ state with status := .complete }, [])
  else if readFails then .error .unavailable
  else do
    let window ← parseWindow env job.frm job.stop
    let page ← fetchHuntPage evidence tenant state.frm window.2 (job.pageSize.getD 500) state.after
    let hits ← page.observations.mapM fun r =>
      observationHits env tenant job.huntId window state.indicators (evidence.observation r)
    match page.next with
    | none => .ok ({ state with status := .complete }, hits.flatten)
    | some (frm, after) =>
      if state.cursor < toLex (frm, after) ∧ toLex (frm, after) < toLex (window.2, "") then
        .ok ({ state with frm := frm, after := after }, hits.flatten)
      else .error .cursorStuck

/-- Where a step is interrupted: in its first `save`, in its read, in its
    last `save`, or after it. -/
structure Interruption where
  first : Fault
  read : Bool
  last : Fault
  answer : Bool

/-- What a step does once a state is stored. -/
def proceed (s : HuntStore) (job : Job) (tenant : String) (state : State) (i : Interruption) :
    Except HuntError Results × HuntStore :=
  let answer (s : HuntStore) :=
    if i.answer then .error .storeError else s.results tenant job.huntId "" 500
  if state.status = .complete then (answer s, s)
  else
    match advance env evidence job tenant state i.read with
    | .error e => (.error e, s)
    | .ok (state', hits) =>
      match s.save tenant job.huntId job state' hits i.last with
      | (.error _, s') => (.error .storeError, s')
      | (.ok _, s') => (answer s', s')

/-- The state of a new job. -/
def startState (job : Job) (indicators : List Indicator) : State where
  status := .pending
  -- `prepare` has parsed it
  frm := (env.parseTs (.str job.frm)).getD 0
  after := ""
  indicators := indicators.filter fun ind => supported ind.itype
  unsupported := indicators.filter fun ind => !supported ind.itype

/-- `HuntWorker.step`. -/
def step (saved : String → String → Option (List SavedRecord)) (s : HuntStore) (job : Job)
    (tenant : String) (i : Interruption) : Except HuntError Results × HuntStore :=
  if !env.valid job then (.error .invalidJob, s)
  else if job.tenant ≠ tenant then (.error .tenantMismatch, s)
  else
    match s.load tenant job.huntId with
    | some (original, state) =>
      if original ≠ job then (.error .otherRequest, s) else proceed env evidence s job tenant state i
    | none =>
      match prepare env saved job tenant with
      | .error e => (.error e, s)
      | .ok indicators =>
        let state := startState env job indicators
        match s.save tenant job.huntId job state [] i.first with
        | (.error _, s') => (.error .storeError, s')
        | (.ok _, s') => proceed env evidence s' job tenant state i

end IntelHunt
