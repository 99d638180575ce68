import CernityNdr.Detectors.Flow
import CernityNdr.Framework.EmitOnce
import CernityNdr.Framework.Program

/-! # The Evaluate Pass

    The model of `evaluate` of `behavioral-detectors/app.py`: a program that
    reads the window store, drops index entries of keys that have expired, and
    offers candidates. An offer is a call of `_candidate`, which claims the
    emit-once key, and of `producer.send` when the key was fresh. The pass has
    six sections in a fixed order; before the last one, the rare destinations,
    it moves its cursor.

    The scores of the detectors are parameters. -/

open CappedMap (FieldMap)

namespace Behavioral

/-! ### Candidates -/

/-- The arguments of a call of `_candidate`. -/
structure Candidate where
  detectorId : String
  category : String
  severity : Int
  confidence : ℚ
  entities : String
  tenant : String
  obs : Option ℚ × Option ℚ
deriving DecidableEq

/-- The pure functions of `detectors.py` and the constants that a pass uses. -/
structure Scoring where
  beaconScore : Config → List ℚ → List Json → Bool × ℚ
  beaconAutocorr : List ℚ → List Json → Bool × ℚ × ℚ
  strobeCheck : Config → Nat → String → Bool → Bool × ℚ
  fqdnBeacon : List ℚ → List Json → Nat → Nat → Bool × ℚ
  dnsTunnelScore : Config → List Json → Bool × ℚ
  dnsExplodedScore : Config → List Json → Bool × ℚ × String
  gatedSeverity : Int → Json → Json → Option Nat → Int
  timingEvidence : List ℚ → List Json
  methodEvidence : String → ℚ → List ℚ → List Json
  /-- `_stable` -/
  stable : String → Nat
  autocorr : Bool
  fqdnBeaconMinIps : Nat
  cumLongconnSecs : ℚ

/-- The parts of an emit-once key. -/
structure EmitKey where
  tenant : String
  detectorId : String
  dedupKey : Nat
  bucket : Int
deriving DecidableEq

/-- `int(time.time() // WINDOW)`. -/
def bucket (env : Env) (now : ℚ) : Int := ⌊now / env.window⌋

def Candidate.emitKey (env : Env) (det : Scoring) (now : ℚ) (c : Candidate) : EmitKey where
  tenant := c.tenant
  detectorId := c.detectorId
  dedupKey := det.stable c.entities % 10 ^ 12
  bucket := bucket env now

/-- The message of a candidate. -/
structure Finding where
  findingId : String
  tenantId : String
  detectorId : String
  detectorVersion : String
  category : String
  severity : Int
  confidence : ℚ
  firstSeen : ℚ
  lastSeen : ℚ
  observed : Bool
  emittedAt : ℚ
  entities : String
  state : String

/-- What `_candidate` returns for a fresh key. -/
def Candidate.finding (env : Env) (det : Scoring) (now : ℚ) (c : Candidate) : Finding where
  findingId := c.detectorId ++ "-" ++ toString (det.stable c.entities % 10 ^ 10) ++ "-" ++
    toString (bucket env now)
  tenantId := c.tenant
  detectorId := c.detectorId
  detectorVersion := "1.0"
  category := c.category
  severity := c.severity
  confidence := c.confidence
  firstSeen := c.obs.1.getD now
  lastSeen := match c.obs with
    | (none, _) => now
    | (some omin, omax) => omax.getD omin
  observed := c.obs.1.isSome
  emittedAt := now
  entities := c.entities
  state := "CANDIDATE"

/-- Offers under one emit-once key are one finding. -/
theorem findingId_of_emitKey {env : Env} {det : Scoring} {now now' : ℚ} {c c' : Candidate}
    (h : c.emitKey env det now = c'.emitKey env det now') :
    (c.finding env det now).findingId = (c'.finding env det now').findingId := by
  simp only [Candidate.emitKey, EmitKey.mk.injEq] at h
  obtain ⟨-, hdetector, hdedup, hbucket⟩ := h
  -- the id has the last ten of the twelve digits of the key
  have hdvd : 10 ^ 10 ∣ 10 ^ 12 := ⟨100, rfl⟩
  have hstable : det.stable c.entities % 10 ^ 10 = det.stable c'.entities % 10 ^ 10 := by
    rw [← Nat.mod_mod_of_dvd _ hdvd, hdedup, Nat.mod_mod_of_dvd _ hdvd]
  simp only [Candidate.finding, hdetector, hstable, hbucket]

/-! ### Questions and calls -/

/-- The reads of a pass. A window is read from the floor of the pass on; both
    reads of a first-seen set are functions of the set. -/
inductive Query
  | keysMatching (pfx : String)
  | setMembers (key : String)
  | windowRange (key : String)
  | setLen (key : String)
  | kvGet (key : String)
  | fieldsGet (key : String)
  | zset (key : String)
deriving DecidableEq

def Query.Answer : Query → Type
  | keysMatching _ | setMembers _ => List String
  | windowRange _ => List (ℚ × Json)
  | setLen _ => Nat
  | kvGet _ => Option Json
  | fieldsGet _ => FieldMap String ℚ × Int
  | zset _ => FieldMap String ℚ

/-- What a pass does besides offering candidates. -/
inductive Access
  | read (q : Query)
  | flush
  | setRemove (idx key : String)
  /-- `_rare_last_eval = t`, no call of the store -/
  | advance (t : ℚ)
  | kvPrune
deriving DecidableEq

abbrev Call := EmitOnce.Call Access Candidate

abbrev Pass := Program Query Query.Answer Call

def ask (q : Query) : Pass q.Answer := .question q

def keysMatching (pfx : String) : Pass (List String) := ask (.keysMatching pfx)

def setMembers (key : String) : Pass (List String) := ask (.setMembers key)

def windowRange (key : String) : Pass (List (ℚ × Json)) := ask (.windowRange key)

def setLen (key : String) : Pass Nat := ask (.setLen key)

def kvGet (key : String) : Pass (Option Json) := ask (.kvGet key)

def fieldsGet (key : String) : Pass (FieldMap String ℚ × Int) := ask (.fieldsGet key)

def zset (key : String) : Pass (FieldMap String ℚ) := ask (.zset key)

/-- `zset_since`. -/
def zsetSince (key : String) (minScore : ℚ) : Pass (List String) := do
  let zs ← zset key
  return InMemoryStore.sinceOf zs minScore

/-- `zset_rank`. -/
def zsetRank (key member : String) : Pass (Option Nat) := do
  let zs ← zset key
  return InMemoryStore.rankOf zs member

def access (a : Access) : Pass Unit := .call (.other a)

/-- `c = _candidate(...)`, and `producer.send` when there is one. -/
def offer (c : Candidate) : Pass Unit := .call (.offer c)

/-! ### Keys -/

def afterColon (cs : List Char) : List Char := (cs.dropWhile (· ≠ ':')).drop 1

/-- `_key_parts`. Every scanned key has its four parts. -/
def keyParts (key : String) : String × String :=
  let rest := afterColon (afterColon key.toList)
  (String.ofList (rest.takeWhile (· ≠ ':')), String.ofList (afterColon rest))

/-- `_pair`. -/
def pair (entity : String) : String × String :=
  (String.ofList (entity.toList.takeWhile (· ≠ '|')),
    String.ofList ((entity.toList.dropWhile (· ≠ '|')).drop 1))

/-- `_part_of`. -/
def partOf (key : String) : String :=
  String.ofList ((afterColon key.toList).takeWhile (· ≠ ':'))

/-- `key.split(":", 1)[0] + ":"`. -/
def prefixOf (key : String) : String := String.ofList (key.toList.takeWhile (· ≠ ':')) ++ ":"

/-- `seg.isdigit() and int(seg) in parts`. -/
def segmentIn (parts : List Nat) (seg : String) : Bool :=
  !seg.toList.isEmpty && seg.toList.all Char.isDigit &&
    decide (Nat.ofDigitChars 10 seg.toList 0 ∈ parts)

/-! ### The sections -/

variable (env : Env) (det : Scoring) (cfg : Config)

/-- `_scoped_keys`. -/
def scopedKeys (pfx : String) (parts : Option (List Nat)) : Pass (List String) :=
  match parts with
  | none => keysMatching pfx
  | some parts =>
    if env.enumIndex then members parts
    else do
      let keys ← keysMatching pfx
      return keys.filter fun k => segmentIn parts (partOf k)
where
  members : List Nat → Pass (List String)
  | [] => return []
  | p :: ps => do
    let out ← setMembers (indexKey pfx p)
    let rest ← members ps
    return out ++ rest

/-- `_prune_index`. -/
def pruneIndex (key : String) : Pass Unit :=
  if env.enumIndex then access (.setRemove ("idx:" ++ prefixOf key ++ partOf key) key)
  else return ()

/-- An item of the evidence: its type, its role when it has one, its value. -/
def item (type : String) (role : Option String) (value : Json) : Json :=
  match role with
  | none => .obj [("type", .str type), ("value", value)]
  | some role => .obj [("type", .str type), ("role", .str role), ("value", value)]

/-- `json.dumps`. -/
def dumps (items : List Json) : String := String.ofList (Json.dumps (.arr items))

/-- `breed, risks = _store.kv_get("ctx:...") or ["", []]`. -/
def contextOf (v : Option Json) : Json × Json :=
  match v with
  | some (.arr [breed, risks]) => (breed, risks)
  | _ => (.str "", .arr [])

def srcDst (src dst : String) : List Json :=
  [item "ip" (some "src") (.str src), item "ip" (some "dst") (.str dst)]

/-- `_refused_evidence`. -/
def refusedEvidence (n : Int) : List Json :=
  if n = 0 then [] else [item "flow_updates_refused_at_cap" none (.int n)]

/-- Beacon and strobe, for one `bc:` key. -/
def beacon (key : String) : Pass Unit := do
  let (ten, entity) := keyParts key
  let (src, dst) := pair entity
  let rng ← windowRange key
  if rng.isEmpty then
    pruneIndex env key
  else
    let ts := rng.map Prod.fst
    let sizes := rng.map Prod.snd
    let assets ← setLen ("pv:" ++ ten ++ ":" ++ dst)
    let ctx ← kvGet ("ctx:" ++ ten ++ ":" ++ src ++ "|" ++ dst)
    let (breed, risks) := contextOf ctx
    let (regular, regularScore) := det.beaconScore cfg ts sizes
    let (isB, score, method, period) :=
      if !regular && det.autocorr then
        let (found, score, period) := det.beaconAutocorr ts sizes
        (found, score, "autocorrelation", period)
      else (regular, regularScore, "regularity", 0)
    let obs := (ts.head?, ts.getLast?)
    if isB then
      offer ⟨"beacon", "c2", det.gatedSeverity 7 breed risks (some assets), score,
        dumps (srcDst src dst ++ det.timingEvidence ts ++ det.methodEvidence method period ts), ten,
        obs⟩
    let (isS, sscore) := det.strobeCheck cfg rng.length dst isB
    if isS then
      offer ⟨"strobe", "c2", det.gatedSeverity 5 breed risks (some assets), sscore,
        dumps (srcDst src dst ++ [item "connections" none (.int rng.length)]), ten, obs⟩

/-- Beacon to a domain, for one `bf:` key. -/
def fqdnBeacon (key : String) : Pass Unit := do
  let (ten, entity) := keyParts key
  let (src, dom) := pair entity
  let rng ← windowRange key
  if rng.isEmpty then
    pruneIndex env key
  else
    let nIps ← setLen ("fi:" ++ ten ++ ":" ++ src ++ "|" ++ dom)
    let fts := rng.map Prod.fst
    let sizes := rng.map Prod.snd
    let (regular, regularScore) := det.fqdnBeacon fts sizes nIps det.fqdnBeaconMinIps
    let (isFb, fscore, method, period) :=
      if !regular && det.autocorr && decide (det.fqdnBeaconMinIps ≤ nIps) then
        let (found, score, period) := det.beaconAutocorr fts sizes
        (found, score, "autocorrelation", period)
      else (regular, regularScore, "regularity", 0)
    if isFb then
      offer ⟨"beacon_fqdn", "c2", det.gatedSeverity 8 (.str "") (.arr []) none, fscore,
        dumps ([item "ip" (some "src") (.str src), item "domain" (some "c2") (.str dom),
          item "rotating_ips" none (.int nIps)] ++ det.methodEvidence method period fts), ten,
        (fts.head?, fts.getLast?)⟩

/-- DNS tunnel and exploded DNS, for one `dn:` key. -/
def dnsTunnel (key : String) : Pass Unit := do
  let (ten, client) := keyParts key
  let rng ← windowRange key
  if rng.isEmpty then
    pruneIndex env key
  else
    let qnames := rng.map Prod.snd
    let obs := ((rng.map Prod.fst).head?, (rng.map Prod.fst).getLast?)
    let (isT, tscore) := det.dnsTunnelScore cfg qnames
    if isT then
      offer ⟨"dns_tunnel", "dns_tunnel", 6, tscore,
        dumps [item "ip" (some "client") (.str client)], ten, obs⟩
    let (isX, xscore, parent) := det.dnsExplodedScore cfg qnames
    if isX then
      offer ⟨"dns_exploded", "dns_tunnel", 6, xscore,
        dumps [item "ip" (some "client") (.str client),
          item "domain" (some "tunnel_parent") (.str parent)], ten, obs⟩

/-- Exfiltration, for one `exf:` key. -/
def exfil (key : String) : Pass Unit := do
  let (ten, entity) := keyParts key
  let (src, dst) := pair entity
  let (flows, capped) ← fieldsGet key
  let t := flowTotals flows
  if flows.vals.isEmpty && capped = 0 then
    pruneIndex env key
  else if t.total = 0 then
    return ()
  else
    let exo ← windowRange ("exo:" ++ String.ofList (key.toList.drop EX_PFX.length))
    let obs := ((exo.map Prod.fst).head?, (exo.map Prod.fst).getLast?)
    let (isE, escore) := exfilCheck env cfg (truncate t.total) dst
    let bytes := item "bytes" none (.int (truncate t.total))
    if isE then
      let ctx ← kvGet ("ctx:" ++ ten ++ ":" ++ src ++ "|" ++ dst)
      let (breed, risks) := contextOf ctx
      let assets ← setLen ("pv:" ++ ten ++ ":" ++ dst)
      offer ⟨"exfil", "exfil", det.gatedSeverity 8 breed risks (some assets), escore,
        dumps (srcDst src dst ++ [bytes] ++ refusedEvidence capped), ten, obs⟩
    else
      let (isLs, lscore) := lowSlowExfil env cfg (truncate t.total) t.conns dst t.materialFlows
      if isLs then
        offer ⟨"low_slow_exfil", "exfil", 6, lscore,
          dumps (srcDst src dst ++ [bytes, item "connections" none (.int t.conns)] ++
            refusedEvidence capped), ten, obs⟩

/-- Cumulative long connections, for one `lcf:` key. -/
def longconnCumulative (key : String) : Pass Unit := do
  let (ten, entity) := keyParts key
  let (src, dst) := pair entity
  let (flows, capped) ← fieldsGet key
  let t := flowTotals flows
  if flows.vals.isEmpty && capped = 0 then
    pruneIndex env key
  else if t.total = 0 then
    return ()
  else
    let (isLc, lcs) := longconnVerdict env cfg det.cumLongconnSecs dst flows
    if isLc then
      let ctx ← kvGet ("ctx:" ++ ten ++ ":" ++ src ++ "|" ++ dst)
      let (breed, risks) := contextOf ctx
      let assets ← setLen ("pv:" ++ ten ++ ":" ++ dst)
      offer ⟨"long_connection_cumulative", "c2", det.gatedSeverity 5 breed risks (some assets), lcs,
        dumps (srcDst src dst ++ [item "total_duration_s" none (.int (truncate t.total)),
          item "connections" none (.int t.conns)] ++ refusedEvidence capped), ten, (none, none)⟩

/-- The candidate of a rare destination. -/
def rareCandidate (ten src dst : String) : Candidate :=
  ⟨"rare_destination", "anomaly", 4, 1 / 2,
    dumps [item "ip" (some "src") (.str src), item "ip" (some "new_dst") (.str dst)], ten,
    (none, none)⟩

/-- One destination that was first seen since the last pass. -/
def rareDestination (key dst : String) : Pass Unit := do
  let (ten, src) := keyParts key
  let rank ← zsetRank key dst
  if rank.any (15 ≤ ·) then
    offer (rareCandidate ten src dst)

/-- Rare destinations, for one `kd:` key. -/
def rareDestinations (rareSince : ℚ) (key : String) : Pass Unit := do
  let news ← zsetSince key rareSince
  if !news.isEmpty then
    Program.each news (rareDestination key)
  else
    let known ← zsetSince key 0
    if known.isEmpty then
      pruneIndex env key

/-! ### The pass -/

/-- A section: the prefix of its keys, the partitions that are assigned, and
    what it does for a key. -/
structure Scan where
  pfx : String
  parts : Option (List Nat)
  body : String → Pass Unit

def Scan.run (scan : Scan) : Pass Unit := do
  let keys ← scopedKeys env scan.pfx scan.parts
  Program.each keys scan.body

variable (flowParts dnsParts : Option (List Nat))

/-- The sections before the cursor moves. -/
def windowScans : List Scan :=
  [⟨"bc:", flowParts, beacon env det cfg⟩, ⟨"bf:", flowParts, fqdnBeacon env det⟩,
    ⟨"dn:", dnsParts, dnsTunnel env det cfg⟩, ⟨EX_PFX, flowParts, exfil env det cfg⟩,
    ⟨LC_PFX, flowParts, longconnCumulative env det cfg⟩]

def rareScan (rareSince : ℚ) : Scan := ⟨"kd:", flowParts, rareDestinations env rareSince⟩

/-- `evaluate`, with `_rare_last_eval` at `rareSince`. -/
def evaluate (rareSince now : ℚ) : Pass Unit := do
  access .flush
  Program.each (windowScans env det cfg flowParts dnsParts) (Scan.run env)
  access (.advance now)
  (rareScan env flowParts rareSince).run env
  access .kvPrune

end Behavioral
