import CernityNdr.Window.Memory

/-! # Flow Records of the Behavioral Detectors

    The write path of `behavioral-detectors/app.py`: the flow branch of
    `_handle` up to its inline detectors, the buffered writes and their flush.
    A flow to an external destination leaves one field for its identity under
    the key of its (source, destination) pair, with the cumulative value that
    the record carries.

    Parsing of texts and floats, the hash and the tables of addresses are
    parameters. -/

open CappedMap (FieldMap)
open InMemoryStore (WriteOp)

namespace Behavioral

/-! ### Parameters -/

/-- The process and the functions that `_handle` uses. -/
structure Env where
  tenant : String
  window : ℚ
  flowCap : Int
  enumIndex : Bool
  i2dTtl : ℚ
  i2dNegTtl : ℚ
  i2dCacheMax : Nat
  isExternal : String → Bool
  beaconNoiseDst : String → Bool
  ndpiRisks : Json.Dict → Json
  /-- `str` of a list or a dictionary -/
  repr : Json → String
  /-- `int` of a text or a float -/
  parseInt : Json → Option Int
  /-- `float` of a text or a float -/
  parseFloat : Json → Option ℚ
  /-- the timestamp of an RFC 3339 text -/
  parseTime : Json → Option ℚ
  sha1Hex : String → String
  window_pos : 0 < window

namespace Env

variable (env : Env)

/-- `str(v)`. -/
def str : Json → String
  | .null => "None"
  | .bool true => "True"
  | .bool false => "False"
  | .int n => String.ofList (Json.intText n)
  | .float x => String.ofList x.text
  | .nan => "nan"
  | .infinity negative => if negative then "-inf" else "inf"
  | .str s => s
  | v => env.repr v

/-- `int(v)`, none when it raises. -/
def int : Json → Option Int
  | .int n => some n
  | .bool b => some (if b then 1 else 0)
  | .null | .arr _ | .obj _ => none
  | v => env.parseInt v

/-- `float(v)`, none when it raises. -/
def float : Json → Option ℚ
  | .int n => some n
  | .bool b => some (if b then 1 else 0)
  | .null | .arr _ | .obj _ => none
  | v => env.parseFloat v

end Env

/-- `d.get(key, default)`. -/
def getD (d : Json.Dict) (key : String) (default : Json) : Json := (d.get? key).getD default

variable (env : Env)

/-- `_tenant_of`. -/
def tenantOf (e : Json.Dict) : String :=
  if (e.get "tenant").truthy then env.str (e.get "tenant")
  else if (e.get "site").truthy then env.str (e.get "site")
  else env.tenant

/-- `_event_epoch`: the start of the flow, else the time of the record, else
    the wall clock. -/
def eventEpoch (e f : Json.Dict) (wall : ℚ) : ℚ :=
  let ts := (f.get "start").or (e.get "timestamp")
  if ts.truthy then (env.parseTime ts).getD wall else wall

/-- `_flow_identity`. -/
def flowIdentity (e f : Json.Dict) : String :=
  let fid := e.get "flow_id"
  let fidText := if fid.beq .null then "" else env.str fid
  let sensor := ((e.get "host").or (e.get "sensor_id")).or (.str "")
  if sensor.truthy && !fid.beq .null then "s|" ++ env.str sensor ++ "|" ++ fidText
  else
    let started := ((f.get "start").or (e.get "timestamp")).or (.str "")
    let cid := e.get "community_id"
    if cid.truthy then
      "c|" ++ env.str sensor ++ "|" ++ env.str cid ++ "|" ++ env.str started ++ "|" ++ fidText
    else
      let raw := String.intercalate "|" [env.str sensor, env.str (getD e "src_ip" (.str "")),
        env.str (getD e "src_port" (.str "")), env.str (getD e "dest_ip" (.str "")),
        env.str (getD e "dest_port" (.str "")), env.str (getD e "proto" (.str "")),
        env.str started, fidText]
      "x|" ++ String.ofList ((env.sha1Hex raw).toList.take 20)

theorem append_ne_refused {tier : String} (h : tier.toList.head?.all (· ≠ '#') ∧ tier.toList ≠ [])
    (rest : String) : tier ++ rest ≠ REFUSED_FIELD := by
  intro heq
  have hlist := congrArg String.toList heq
  rw [String.toList_append] at hlist
  cases htier : tier.toList with
  | nil => exact h.2 htier
  | cons c cs =>
    rw [htier] at h hlist
    have hc : c = '#' := (List.cons.inj hlist).1
    simp [hc] at h

/-- No identity is the field that counts refused writes. -/
theorem flowIdentity_ne_refused (e f : Json.Dict) : flowIdentity env e f ≠ REFUSED_FIELD := by
  unfold flowIdentity
  simp only [String.append_assoc]
  split
  · exact append_ne_refused (by decide) _
  · split
    · exact append_ne_refused (by decide) _
    · exact append_ne_refused (by decide) _

/-! ### Keys -/

def EX_PFX : String := "exf:"

def LC_PFX : String := "lcf:"

/-- `prefix:partition:tenant:entity`, where the prefix ends in its colon. -/
def stateKey (pfx : String) (part : Nat) (ten entity : String) : String :=
  pfx ++ toString part ++ ":" ++ ten ++ ":" ++ entity

/-- `_index_key`. -/
def indexKey (pfx : String) (part : Nat) : String := "idx:" ++ pfx ++ toString part

/-- `_idx`. -/
def idx (pfx : String) (part : Nat) : Option String :=
  if env.enumIndex then some (indexKey pfx part) else none

/-! ### What a record says -/

/-- What `_handle` has read of a flow record when it starts to write. -/
structure Sighting where
  ten : String
  src : String
  dst : String
  evt : ℚ
  breed : Json
  risks : Json
  identity : String
  b2s : Int
  b2c : Int
  age : ℚ
  identity_ne : identity ≠ REFUSED_FIELD

/-- A record as it is handled: its partition, the time of the poll, and what
    the wall clock says at its readings during the call. -/
structure Arrival where
  record : Json
  part : Nat
  now : ℚ
  clock : Nat → ℚ

/-- The flow branch of `_handle` before its first write, for a destination
    that is external. None when it returns or raises. -/
def sighting (a : Arrival) : Option Sighting := do
  let e ← a.record.obj?
  guard ((e.get "event_type").beq (.str "flow"))
  let src := e.get "src_ip"
  let dst := e.get "dest_ip"
  guard (src.truthy && dst.truthy)
  let f ← ((e.get "flow").or (.obj [])).obj?
  let evt := eventEpoch env e f (a.clock 0)
  let n ← ((e.get "ndpi").or (.obj [])).obj?
  let risks := env.ndpiRisks n
  let breed := (n.get "breed").or (.str "")
  let b2s ← env.int ((getD f "bytes_toserver" (.int 0)).or (.int 0))
  let b2c ← env.int ((getD f "bytes_toclient" (.int 0)).or (.int 0))
  let age ← env.float ((f.get "age").or (.int 0))
  let dstText ← dst.str?
  guard (env.isExternal dstText)
  return ⟨tenantOf env e, env.str src, dstText, evt, breed, risks, flowIdentity env e f, b2s, b2c,
    age, flowIdentity_ne_refused env e f⟩

/-! ### The write path -/

/-- The store, `_pending` and `_i2d_cache`. -/
structure Detector where
  store : InMemoryStore
  pending : List WriteOp
  /-- value, time of insertion and time to live -/
  i2dCache : FieldMap String (Option Json × ℚ × ℚ)

/-- `_i2d_put`. -/
def i2dPut (d : Detector) (key : String) (value : Option Json) (ttl now : ℚ) : Detector :=
  let cache := if env.i2dCacheMax ≤ d.i2dCache.vals.length then .empty else d.i2dCache
  { d with i2dCache := cache.put (key, value, now, ttl) }

/-- `_i2d_get`. -/
def i2dGet (d : Detector) (key : String) (now wall : ℚ) : Option Json × Detector :=
  match (d.i2dCache.lookup key).filter fun hit => now - hit.2.1 < hit.2.2 with
  | some hit => (hit.1, d)
  | none =>
    let (v, store) := d.store.kvGet key wall
    (v, i2dPut env { d with store := store } key v
      (if v.isSome then env.i2dTtl else env.i2dNegTtl) now)

def Sighting.pair (g : Sighting) : String := g.src ++ "|" ++ g.dst

/-- The writes that every sighting makes. -/
def Sighting.writes (g : Sighting) (part : Nat) (firstSeen : ℚ) : List WriteOp :=
  [.kv ("ctx:" ++ g.ten ++ ":" ++ g.pair) (.arr [g.breed, g.risks]) env.window,
    .sadd ("pv:" ++ g.ten ++ ":" ++ g.dst) g.src env.window,
    .fset (stateKey EX_PFX part g.ten g.pair) g.identity g.b2s env.window (idx env EX_PFX part)
      (some env.flowCap),
    .win (stateKey "exo:" part g.ten g.pair) (idx env "exo:" part) g.evt (.int 0) env.window,
    .fset (stateKey LC_PFX part g.ten g.pair) g.identity g.age env.window (idx env LC_PFX part)
      (some env.flowCap),
    .znx (stateKey "kd:" part g.ten g.src) g.dst firstSeen env.window (idx env "kd:" part)]

/-- The write to the window of the destination's address. -/
def Sighting.beaconWrites (g : Sighting) (part : Nat) : List WriteOp :=
  if env.beaconNoiseDst g.dst then []
  else [.win (stateKey "bc:" part g.ten g.pair) (idx env "bc:" part) g.evt (.int (g.b2s + g.b2c))
    env.window]

/-- The writes to the window of the destination's domain, when it has one. -/
def Sighting.domainWrites (g : Sighting) (part : Nat) : Option Json → List WriteOp
  | some (.arr (dom :: _)) =>
    [.win (stateKey "bf:" part g.ten (g.src ++ "|" ++ env.str dom)) (idx env "bf:" part) g.evt
      (.int (g.b2s + g.b2c)) env.window,
      .sadd ("fi:" ++ g.ten ++ ":" ++ g.src ++ "|" ++ env.str dom) g.dst env.window]
  | _ => []

/-- The flow branch of `_handle`, before its inline detectors. -/
def handleFlow (d : Detector) (a : Arrival) : Detector :=
  match sighting env a with
  | none => d
  | some g =>
    let d := { d with pending := d.pending ++ g.writes env a.part (a.clock 1) }
    let (dom, d) := i2dGet env d ("i2d:" ++ g.ten ++ ":" ++ g.dst) a.now (a.clock 2)
    { d with pending := d.pending ++ g.beaconWrites env a.part ++ g.domainWrites env a.part dom }

/-- `_flush_pending`, with the time of each write. -/
def flushPending (d : Detector) (clock : Nat → ℚ) : Detector :=
  { d with
    store := d.store.pipelineOps (d.pending.zipIdx.map fun op => (op.1, clock op.2))
    pending := [] }

/-- A poll batch: its records, and the times of the writes of its flush. -/
structure Batch where
  arrivals : List Arrival
  clock : Nat → ℚ

/-- The records of a batch are handled and their writes are flushed. -/
def handleBatch (d : Detector) (b : Batch) : Detector :=
  flushPending (b.arrivals.foldl (handleFlow env) d) b.clock

/-- Batches in order. -/
def feed (d : Detector) (batches : List Batch) : Detector := batches.foldl (handleBatch env) d

end Behavioral

/-! ## Aggregates of a Pair

    What `evaluate` derives from the per-flow fields of a pair, and the checks
    of `behavioral-detectors/detectors.py` that it makes on it. The thresholds
    that a score is divided by are not zero. -/

open CappedMap (FieldMap)

namespace Behavioral

/-- The snapshot of the managed configuration, with the allowlist that a
    reload leaves in the detectors. -/
structure Config where
  beaconThreshold : ℚ
  beaconCountTarget : ℚ
  strobeMinConns : ℚ
  exfilBytes : ℚ
  dnsMinQueries : ℚ
  dnsLenThreshold : ℚ
  dnsEntropyThreshold : ℚ
  explodedMinSubdomains : ℚ
  longconnCumSecs : Option ℚ
  longconnCumMinConns : ℚ
  exfilAllow : List String

/-- The default of `exfil_material_flow_bytes`, which no configuration sets. -/
def materialFlowBytes : ℚ := 100000

/-- What the fields of a pair add up to. -/
structure FlowTotals where
  total : ℚ
  conns : Nat
  materialFlows : Nat
deriving DecidableEq

def flowTotals (flows : FieldMap String ℚ) : FlowTotals where
  total := (flows.vals.map Prod.snd).sum
  conns := flows.vals.length
  materialFlows := flows.vals.countP fun f => materialFlowBytes ≤ f.2

/-! ### Checks -/

/-- `round(x, 3)`. -/
def round3 (x : ℚ) : ℚ :=
  let y := x * 1000
  let rest := y - ⌊y⌋
  let up := 1 / 2 < rest ∨ rest = 1 / 2 ∧ ⌊y⌋ % 2 = 1
  ((if up then ⌊y⌋ + 1 else ⌊y⌋ : Int) : ℚ) / 1000

/-- `round(min(1.0, a / b), 3)`. -/
def scoreOf (a b : ℚ) : ℚ := round3 (min 1 (a / b))

/-- `any(dst.startswith(p) for p in _EXFIL_ALLOW)`. -/
def exfilAllowed (cfg : Config) (dst : String) : Bool :=
  cfg.exfilAllow.any fun p => p.toList.isPrefixOf dst.toList

variable (env : Env) (cfg : Config)

/-- `exfil_check`. -/
def exfilCheck (bytesToServer : Int) (dst : String) : Bool × ℚ :=
  if !env.isExternal dst then (false, 0)
  else if exfilAllowed cfg dst then (false, 0)
  else if bytesToServer < cfg.exfilBytes then (false, 0)
  else (true, scoreOf bytesToServer (cfg.exfilBytes * 4))

/-- `low_slow_exfil` with its default floor of bytes and of connections. -/
def lowSlowExfil (bytesToServer : Int) (connCount : Nat) (dst : String) (materialFlows : Nat) :
    Bool × ℚ :=
  let lowFloor : Int := 5000000
  let minConns : Nat := 10
  let minMaterialFlows : Nat := 5
  if !env.isExternal dst then (false, 0)
  else if exfilAllowed cfg dst then (false, 0)
  else if cfg.exfilBytes ≤ bytesToServer then (false, 0)
  else if bytesToServer < lowFloor ∨ connCount < minConns then (false, 0)
  else if materialFlows < minMaterialFlows then (false, 0)
  else (true, scoreOf connCount (minConns * 5))

/-- `cfg["longconn_cum_secs"] or CUM_LONGCONN_SECS`. -/
def longconnThreshold (cumLongconnSecs : ℚ) : ℚ :=
  match cfg.longconnCumSecs with
  | none => cumLongconnSecs
  | some secs => if secs = 0 then cumLongconnSecs else secs

/-- `longconn_cumulative_check`. -/
def longconnCumulativeCheck (totalSecs : ℚ) (nConns : Nat) (dst : String) (thresholdSecs : ℚ) :
    Bool × ℚ :=
  if !env.isExternal dst ∨ nConns < cfg.longconnCumMinConns ∨ totalSecs < thresholdSecs then
    (false, 0)
  else (true, scoreOf totalSecs (thresholdSecs * 6))

/-! ### The checks of a pair -/

/-- What the checks of a pair say of the fields under its `exf:` key. -/
def exfilVerdicts (dst : String) (flows : FieldMap String ℚ) :
    (Bool × ℚ) × (Bool × ℚ) :=
  let t := flowTotals flows
  (exfilCheck env cfg (truncate t.total) dst,
    lowSlowExfil env cfg (truncate t.total) t.conns dst t.materialFlows)

/-- What the check of a pair says of the fields under its `lcf:` key. -/
def longconnVerdict (cumLongconnSecs : ℚ) (dst : String) (flows : FieldMap String ℚ) :
    Bool × ℚ :=
  let t := flowTotals flows
  longconnCumulativeCheck env cfg t.total t.conns dst (longconnThreshold cfg cumLongconnSecs)

end Behavioral
