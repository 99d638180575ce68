import CernityNdr.Asset.Restart
import CernityNdr.Framework.Replacing

/-! # Relationship Edges

    The model of `asset-service/relationships.py` and of the edges of
    `asset-service/app.py`: the edges of a record (`build_edges`), the
    cumulative spans that `observe` keeps for them, the last block of `flush`
    and the reload at the start of a process (`_load_edges`). The rest of a
    call is the one of the fact path.

    `ndr.entity_relationship` is a replacing table whose key is the tenant,
    the two entities and the kind, and whose versions are insert times. -/

namespace AssetService

/-! ### The edges of a record -/

/-- An answer of a dns record. -/
structure DnsAnswer where
  rrtype : Option String
  rdata : Option String

/-- What `build_edges` reads of a dns record; `queries` are their names. -/
structure DnsFields where
  srcIp : Option String
  rrname : Option String
  queries : List (Option String)
  answers : List DnsAnswer

/-- A record: what `extract_evidence` reads, and what `build_edges` reads
    beside it. A dns record is of no type that `extract_evidence` knows. -/
structure EdgeRecord extends BusRecord where
  appProto : Option String
  proto : Option String
  dns : Option DnsFields

inductive EdgeKind where
  | resolves
  | communicatesWith
  deriving DecidableEq

/-- `(src_entity, dst_entity, kind)`. -/
abbrev EdgeKey := String × String × EdgeKind

structure EdgeEvidence where
  eventType : String
  observedAt : Iso
  detail : String

/-- One edge of `build_edges`. -/
structure Edge where
  key : EdgeKey
  evidence : EdgeEvidence

/-- `_entity`. -/
def entityAt (ip : String) (bindings : Bindings) (ts : Instant) : String :=
  assetKey { ip := some ip, src := "" } bindings ts

/-- `_edge`. -/
def edgeOf (src dst : String) (kind : EdgeKind) (eventType : String) (ts : Instant)
    (detail : String) : Edge :=
  ⟨(src, dst, kind), ⟨eventType, iso ts, detail⟩⟩

/-- `_IP_RRTYPES`. -/
def isIpRrtype (rrtype : Option String) : Bool := rrtype = some "A" || rrtype = some "AAAA"

/-- `_dns_edges`: one edge for each answered address. -/
def dnsEdges (d : DnsFields) (bindings : Bindings) (ts : Instant) : List Edge :=
  match given d.srcIp with
  | none => []
  | some src =>
    let name := ((d.queries.head?).getD d.rrname).getD ""
    d.answers.filterMap fun a =>
      if isIpRrtype a.rrtype then
        (given a.rdata).map fun rdata => edgeOf (entityAt src bindings ts)
          (entityAt rdata bindings ts) .resolves "dns" ts name
      else none

/-- `_flow_edges`. -/
def flowEdges (srcIp destIp appProto proto : Option String) (bindings : Bindings)
    (ts : Instant) : List Edge :=
  match given srcIp, given destIp with
  | some src, some dst =>
    [edgeOf (entityAt src bindings ts) (entityAt dst bindings ts) .communicatesWith "flow" ts
      (((given appProto).or proto).getD "")]
  | _, _ => []

/-- `build_edges`. -/
def buildEdges (r : EdgeRecord) (bindings : Bindings) : List Edge :=
  match r.eve with
  | .flow srcIp destIp => flowEdges srcIp destIp r.appProto r.proto bindings r.ts
  | .other =>
    match r.dns with
    | some d => dnsEdges d bindings r.ts
    | none => []
  | _ => []

/-! ### The spans of a process -/

/-- The span of an edge, with the evidence of its last observation. -/
structure EdgeSlot where
  firstSeen : Instant
  lastSeen : Instant
  evidence : EdgeEvidence

/-- `_edges` and `_edges_dirty`. -/
structure EdgeCache where
  edges : Registry (Prod.fst : EdgeKey × EdgeSlot → EdgeKey)
  dirty : List EdgeKey

/-- The slot after an observation: an early one moves its start, a late one
    its end and its evidence. -/
def EdgeSlot.widen (slot : EdgeSlot) (ts : Instant) (evidence : EdgeEvidence) : EdgeSlot where
  firstSeen := if ts < slot.firstSeen then ts else slot.firstSeen
  lastSeen := if slot.lastSeen ≤ ts then ts else slot.lastSeen
  evidence := if slot.lastSeen ≤ ts then evidence else slot.evidence

/-- One round of the edge loop of `observe`. -/
def EdgeCache.note (ts : Instant) (c : EdgeCache) (e : Edge) : EdgeCache :=
  match c.edges.lookup e.key with
  | none =>
    { edges := c.edges.put (e.key, ⟨ts, ts, e.evidence⟩), dirty := c.dirty.insert e.key }
  | some slot =>
    { edges := c.edges.put (e.key, slot.widen ts e.evidence)
      dirty := if ts < slot.firstSeen ∨ slot.lastSeen ≤ ts then c.dirty.insert e.key
        else c.dirty }

/-! ### The rows -/

/-- A row of `ndr.entity_relationship` (`EDGE_COLS`), its `evidence` document
    read. -/
structure EdgeRow where
  tenantId : String
  key : EdgeKey
  firstSeen : Iso
  lastSeen : Iso
  evidence : EdgeEvidence

/-- The `ORDER BY` key of the table. -/
def EdgeRow.order (r : EdgeRow) : String × EdgeKey := (r.tenantId, r.key)

/-- The row of a slot: the columns have millisecond precision. -/
def edgeRow (tenant : String) (k : EdgeKey) (slot : EdgeSlot) : EdgeRow where
  tenantId := tenant
  key := k
  firstSeen := iso slot.firstSeen
  lastSeen := iso slot.lastSeen
  evidence := slot.evidence

/-- The rows of the dirty edges. -/
def EdgeCache.rows (tenant : String) (c : EdgeCache) : Option (List EdgeRow) :=
  c.dirty.mapM fun k => (c.edges.lookup k).map (edgeRow tenant k)

/-- The slot that a row is read back as. -/
def EdgeRow.slot (r : EdgeRow) : EdgeSlot := ⟨r.firstSeen.instant, r.lastSeen.instant, r.evidence⟩

/-- The rows a read with `FINAL` returns for the tenant: for each key that
    has rows, the one that is left of them. -/
def finalRows (tenant : String) (t : ReplacingTable EdgeRow) : List EdgeRow :=
  ((t.rows.map fun r => r.1.order).dedup.filterMap (t.final EdgeRow.order)).filter fun r =>
    r.tenantId = tenant

/-- `_load_edges`. -/
def loadEdges (tenant : String) (t : ReplacingTable EdgeRow) : EdgeCache where
  edges := (finalRows tenant t).foldl (fun edges r => edges.put (r.key, r.slot)) .empty
  dirty := []

/-! ### The calls -/

/-- The process, its edges and the tables. -/
structure EdgeWorld where
  base : World
  cache : EdgeCache
  table : ReplacingTable EdgeRow

/-- `observe`, with its edge loop: the endpoints see the bindings of the
    record. A record that raises leaves the edges alone. -/
def observeEdges (tenant : String) (w : EdgeWorld) (r : EdgeRecord) : EdgeWorld :=
  match observe tenant w.base.proc r.toBusRecord with
  | .ok p =>
    { w with
      base := { w.base with proc := p }
      cache := (buildEdges r p.bindings).foldl (EdgeCache.note r.ts) w.cache }
  | .error _ => w

/-- How a flush ended: whether it returned, and whether the dirty edges are
    in the table. -/
structure FlushEnd where
  returned : Bool
  written : Bool

/-- `flush` with its last block. An insert that raises may have been applied
    (`applied`). -/
def flushEdges (tenant : String) (w : EdgeWorld) (fault : Option Insert) (applied : Bool)
    (delay edgeDelay : Nat) : FlushEnd × EdgeWorld :=
  let early := fault.filter (fun i => i ≠ .entityRelationship)
  let (ok, base) := flush tenant w.base early delay
  let w := { w with base := base }
  if ok = false then (⟨false, false⟩, w)
  else if w.cache.dirty = [] then (⟨true, true⟩, w)
  else
    match w.cache.rows tenant with
    | none => (⟨false, false⟩, w)
    | some rows =>
      if fault = some .entityRelationship then
        if applied then (⟨false, true⟩, { w with table := w.table.insert edgeDelay rows })
        else (⟨false, false⟩, w)
      else
        (⟨true, true⟩, { w with
          table := w.table.insert edgeDelay rows
          cache := { w.cache with dirty := [] } })

/-- A new process: what it loads and replays, and its repair flush, which
    finds no dirty edge. -/
def restartEdges (tenant : String) (w : EdgeWorld) (fault : Option Insert) (delay : Nat) :
    EdgeWorld :=
  let cache := loadEdges tenant w.table
  match restoreState tenant w.base.facts w.base.identity fault delay with
  | .ok (_, base) => { w with base := base, cache := cache }
  | .error _ => { w with cache := cache }

/-! ### Runs -/

/-- One call, or the start of a new process. -/
inductive EdgeInput where
  | observe (r : EdgeRecord)
  | flush (fault : Option Insert) (applied : Bool) (delay edgeDelay : Nat)
  | restart (fault : Option Insert) (delay : Nat)

/-- The state, with the observations that the service was given: those no
    crash has lost, and among them those that a flush has written. -/
structure EdgeRun where
  world : EdgeWorld
  seen : List (EdgeKey × Instant)
  saved : List (EdgeKey × Instant)

/-- The state before the first record. -/
def EdgeRun.initial (tenant : String) (clock edgeClock : Int) : EdgeRun where
  world := ⟨World.initial tenant clock, ⟨.empty, []⟩, .empty edgeClock⟩
  seen := []
  saved := []

/-- The run after the call. The observations of a record are its edges between
    the entities that the bindings then resolve. -/
def edgeStep (tenant : String) (s : EdgeRun) : EdgeInput → EdgeRun
  | .observe r =>
    let world := observeEdges tenant s.world r
    { s with
      world := world
      seen := s.seen ++ (buildEdges r world.base.proc.bindings).map fun e => (e.key, r.ts) }
  | .flush fault applied delay edgeDelay =>
    let (flushEnd, world) := flushEdges tenant s.world fault applied delay edgeDelay
    { s with world := world, saved := if flushEnd.written then s.seen else s.saved }
  | .restart fault delay =>
    -- what was not written is lost with the process
    { world := restartEdges tenant s.world fault delay, seen := s.saved, saved := s.saved }

end AssetService
