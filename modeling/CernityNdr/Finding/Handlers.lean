import CernityNdr.Framework.Run
import CernityNdr.Finding.Rows

/-! # The Finding Service

    The model of the handlers of `finding-service/app.py`: candidates,
    enrichment results, capture statuses and the timeout sweep, over the map
    of pending findings and the bounded cache of finalized ones. Whatever the
    environment decides (clock readings, sensor quality, what the enrichers
    look up) comes with the event. -/

namespace FindingService

open Json (Dict)

variable {τ : Type}

/-! ### Enrichers -/

/-- What the environment contributes to the handling of one event. -/
structure Env where
  quality : QualityLookup
  /-- country and ASN of an external address -/
  geoLookup : String → Dict
  /-- reverse DNS, domain age, reputation and fingerprint names -/
  intelLookup : List Dict → Dict
  /-- `datetime.now` -/
  clock : Instant

/-- An environment that contributes nothing: no sensor has been measured and
    no enricher finds anything. -/
def Env.quiet : Env := ⟨fun _ _ => none, fun _ => [], fun _ => [], 0⟩

/-- The entities of a finding that are dictionaries. -/
def entityDicts (f : Finding τ) : List Dict := (entityList f.entities).filterMap Json.obj?

/-- `geoenrich.enrich_finding`: adds `geo` and lifts the community id. -/
def enrichFinding (env : Env) (f : Finding τ) : Finding τ :=
  let items := entityDicts f
  let lifted := (items.find? fun it =>
    (it.get "type").str? = some "community_id" ∧ (it.get "value").truthy).map (·.get "value")
  let geo := items.foldl (fun (geo : Dict) it =>
    match it.get "type", it.get "value" with
    | .str "ip", .str ip =>
      if ip ≠ "" ∧ (geo.get? ip).isNone ∧ env.geoLookup ip ≠ [] then
        geo.set ip (.obj (env.geoLookup ip))
      else geo
    | _, _ => geo) []
  { f with
    communityId := f.communityId.orElse fun _ => lifted
    geo := if geo = [] then f.geo else some (.obj geo) }

/-- `intel.enrich`: adds `intel` when an adapter found something. -/
def enrichIntel (env : Env) (f : Finding τ) : Finding τ :=
  let intel := env.intelLookup (entityDicts f)
  { f with intel := if intel = [] then f.intel else some (.obj intel) }

/-- Both enrichers, as they run before a delivery. -/
def enrich (env : Env) (f : Finding τ) : Finding τ := enrichIntel env (enrichFinding env f)

/-! ### State -/

/-- The settings of the service. -/
structure Config (τ : Type) extends Policy where
  /-- `ENRICH_TIMEOUT_SECS` -/
  timeout : Int
  /-- `_MAX_FINALIZED` -/
  maxFinalized : Nat
  /-- a database is configured (`ch is not None`) -/
  persists : Bool
  fromisoformat : τ → Option Instant

/-- The settings of a deployment that sets nothing, without a database. Times
    are in microseconds. -/
def Config.default (floatText : ℚ → FloatText) (fromisoformat : τ → Option Instant) :
    Config τ where
  toPolicy := Policy.default floatText
  timeout := 120000000
  maxFinalized := 5000
  persists := false
  fromisoformat := fromisoformat

/-- The default settings over timestamps that are texts, for runs on concrete
    inputs: no timestamp is parsed and every number prints as `1.0`. -/
def Config.demo : Config String :=
  .default (fun _ => ⟨['1', '.', '0'], by decide⟩) (fun _ => none)

/-- An entry of the cache of finalized findings. -/
structure Remembered (τ : Type) where
  finding : Finding τ
  delivered : Bool

def Remembered.key (r : Remembered τ) : PKey := r.finding.key

/-- A message the service produces. -/
inductive Sent (τ : Type)
  /-- to `ndr.finding.final.v1`, with its partition key -/
  | final (doc : Finding τ) (partition : String)
  /-- to `ndr.capture.request.v1` -/
  | capture (job : CaptureJob)

structure Service (τ : Type) where
  pending : Pending τ
  /-- `_finalized_capture` -/
  finalized : Registry (Remembered.key (τ := τ))
  /-- everything produced so far, oldest first -/
  sent : List (Sent τ)
  /-- the rows inserted so far -/
  table : List Row

/-- The service when it starts without a backlog. -/
def Service.start : Service τ := ⟨.empty, .empty, [], []⟩

def Sent.doc? : Sent τ → Option (Finding τ)
  | .final doc _ => some doc
  | .capture _ => none

/-- The documents on the final topic, oldest first. -/
def Service.docs (s : Service τ) : List (Finding τ) := s.sent.filterMap Sent.doc?

/-! ### Sending and finalizing -/

/-- `_pkey`: the partition key, by tenant and by the first client address,
    else by the first address, else by the finding id. -/
def pkey (f : Finding τ) : String :=
  let ips := (entityDicts f).filter fun e => (e.get "type").str? = some "ip"
  let client := (ips.find? fun e =>
    (e.get "role").str?.any (· ∈ ["src", "subject", "client"])).bind fun e => (e.get "value").str?
  let ip := client.orElse fun _ => ips.head?.bind fun e => (e.get "value").str?
  let fid := if f.findingId = "" then "unkeyed" else f.findingId
  let base := match ip with
    | some ip => if ip = "" then fid else "ip:" ++ ip
    | none => fid
  orDefault f.tenantId ++ "|" ++ base

/-- `_persist`. -/
def persist (cfg : Config τ) (env : Env) (f : Finding τ) (s : Service τ) : Service τ :=
  if cfg.persists then { s with table := s.table ++ [row cfg.fromisoformat env.clock f] } else s

/-- `producer.send` of a final document. -/
def sendFinal (f : Finding τ) (s : Service τ) : Service τ :=
  { s with sent := s.sent ++ [.final f (pkey f)] }

/-- `producer.send` of a capture request. -/
def sendCapture (f : Finding τ) (s : Service τ) : Service τ :=
  { s with sent := s.sent ++ [.capture (captureJob f)] }

/-- The document of a finalized finding: a capture-only one is enriched on
    its first delivery. -/
def finalDoc (env : Env) (delivered : Bool) (done : Finding τ) : Finding τ :=
  if delivered then done else enrich env done

/-- `_emit_finalized`. -/
def emitFinalized (cfg : Config τ) (env : Env) (delivered : Bool) (done : Finding τ)
    (s : Service τ) : Service τ :=
  sendFinal (finalDoc env delivered done) (persist cfg env (finalDoc env delivered done) s)

/-- `_remember_finalized`. -/
def rememberFinalized (cfg : Config τ) (f : Finding τ) (delivered : Bool) (s : Service τ) :
    Service τ :=
  { s with finalized := (s.finalized.push ⟨f, delivered⟩).trim cfg.maxFinalized }

/-- `_pop_pending`: by the composite key when the message carries a tenant,
    else by the finding id when it is pending for one tenant only. -/
def popPending (pending : Pending τ) (tenant fid : Option String) : Option (Entry τ) × Pending τ :=
  match tenant with
  | some t => (pending.get? (pk (some t) fid), pending.pop (pk (some t) fid))
  | none =>
    match pending.keys.filter (fun k => k.2 = fid) with
    | [k] => (pending.get? k, pending.pop k)
    | _ => (none, pending)

/-! ### Handlers -/

/-- `_handle_candidate`, from the finding and the route that
    `build_finding` gave. -/
def enroll (cfg : Config τ) (env : Env) (now : Int) (f : Finding τ) (route : Route)
    (s : Service τ) : Service τ :=
  let s := persist cfg env f s
  -- the enrichers work in place, so the pending entry keeps what they added
  let f := if route.delivers then enrich env f else f
  let s := if route.delivers then sendFinal f s else s
  if route.captures then
    let s := sendCapture f s
    { s with pending := s.pending.put ⟨f, route = .finalAndCapture, now + cfg.timeout⟩ }
  else s

/-- `_handle_candidate`. -/
def handleCandidate (cfg : Config τ) (env : Env) (now : Int) (cand : Finding τ) (s : Service τ) :
    Service τ :=
  let built := buildFinding cfg.toPolicy cand (some env.quality)
  enroll cfg env now built.1 built.2 s

/-- The pending entry `e` is finalized by an enrichment result. -/
def answer (cfg : Config τ) (env : Env) (result : EnrichmentResult) (e : Entry τ)
    (s : Service τ) : Service τ :=
  emitFinalized cfg env e.delivered (applyEnrichmentResult cfg.toPolicy e.finding result)
    { s with pending := s.pending.pop e.key }

/-- The finalized finding `prev` is emitted again after a late result. -/
def reopen (cfg : Config τ) (env : Env) (result : EnrichmentResult) (prev : Remembered τ)
    (s : Service τ) : Service τ :=
  emitFinalized cfg env true (applyEnrichmentResult cfg.toPolicy prev.finding result)
    { s with finalized := s.finalized.pop prev.key }

/-- The pending entry `e` is finalized without a result. -/
def expire (cfg : Config τ) (env : Env) (s : Service τ) (e : Entry τ) : Service τ :=
  let done := finalizeTimeout cfg.toPolicy e.finding
  rememberFinalized cfg (finalDoc env e.delivered done) e.delivered
    (emitFinalized cfg env e.delivered done { s with pending := s.pending.pop e.key })

/-- `_handle_result`. -/
def handleResult (cfg : Config τ) (env : Env) (result : EnrichmentResult) (s : Service τ) :
    Service τ :=
  match popPending s.pending result.tenantId result.findingId with
  | (some e, _) => answer cfg env result e s
  | (none, _) =>
    match s.finalized.get? (pk result.tenantId result.findingId) with
    | some prev => reopen cfg env result prev s
    | none => s

/-- A capture status. -/
structure CaptureStatus where
  findingId : Option String
  tenantId : Option String
  state : Option String
  armed : Option Bool

/-- The status is terminal and no result will follow. -/
def CaptureStatus.finalizes (m : CaptureStatus) : Bool :=
  m.state ≠ some "completed" &&
    (m.armed = some false ||
      m.state.any (· ∈ ["failed", "rejected", "refused", "no_data"]))

/-- `_handle_status`. -/
def handleStatus (cfg : Config τ) (env : Env) (status : CaptureStatus) (s : Service τ) :
    Service τ :=
  if status.finalizes then
    match popPending s.pending status.tenantId status.findingId with
    | (some e, _) => expire cfg env s e
    | (none, _) => s
  else s

/-- `_sweep_timeouts`. -/
def sweepTimeouts (cfg : Config τ) (env : Env) (now : Int) (s : Service τ) : Service τ :=
  (s.pending.vals.filter (fun e => e.deadline ≤ now)).foldl (expire cfg env) s

/-! ### Runs -/

/-- What the service reacts to. -/
inductive Event (τ : Type)
  | candidate (cand : Finding τ) (now : Int)
  | result (r : EnrichmentResult)
  | status (m : CaptureStatus)
  | sweep (now : Int)

/-- One event, with what the environment contributes to it. -/
structure Input (τ : Type) where
  event : Event τ
  env : Env

/-- One round of the service loop. -/
def handle (cfg : Config τ) (s : Service τ) (i : Input τ) : Service τ :=
  match i.event with
  | .candidate cand now => handleCandidate cfg i.env now cand s
  | .result r => handleResult cfg i.env r s
  | .status m => handleStatus cfg i.env m s
  | .sweep now => sweepTimeouts cfg i.env now s

/-- A confirmed threat, for runs on concrete inputs. -/
def threatCandidate : Finding String :=
  .minimal "sig-1" (some "acme") "ids_signature" "c2" 8 (9 / 10) "2026-01-01T00:00:00Z"

/-- The result of its capture. -/
def threatResult : EnrichmentResult :=
  ⟨some "sig-1", some "acme", some "ok", some ["minio://x"], none, none⟩

/-- The candidates among the inputs. -/
def candidates (is : List (Input τ)) : List (Finding τ) :=
  is.filterMap fun i =>
    match i.event with
    | .candidate cand _ => some cand
    | _ => none

end FindingService
