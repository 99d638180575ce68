import CernityNdr.Framework.Registry
import CernityNdr.Ingest.Occurrence

/-! # Normalizer Transforms

    The model of `normalizer/models.py`: one decoded EVE record becomes a
    typed row and an observation, is passed over, or is quarantined. The
    service never passes a clock offset, so `observation` has none here.

    * `typedRow_names`: the columns of a table do not depend on the record.
    * `made_of_observation`: what an observation and its row are made of. -/

namespace Normalizer

open Json Ingest Interpreter

/-! ### Tables -/

/-- The keys of `OBSERVATION_TABLES`. -/
inductive EventType
  | flow
  | tls
  | dns
  | http
deriving DecidableEq

def EventType.name : EventType → String
  | flow => "flow"
  | tls => "tls"
  | dns => "dns"
  | http => "http"

/-- `OBSERVATION_TABLES`. -/
def EventType.table : EventType → String
  | flow => "network_flow"
  | tls => "tls_observation"
  | dns => "dns_transaction"
  | http => "http_observation"

def EventType.ofJson? : Json → Option EventType
  | .str s => [EventType.flow, .tls, .dns, .http].find? fun et => et.name = s
  | _ => none

/-- A value of a row: a JSON value, or the date and time that the service
    has put in the place of its text. -/
inductive Cell
  | json (v : Json)
  | time (t : LocalTime)

/-- A row, column after column. -/
abbrev Row := List (String × Cell)

variable (lib : Library)

/-! ### Typed rows -/

/-- `int(v or 0)`. -/
def intOrZero (v : Json) : Except Failure Json := do
  let n ← lib.int (v.or (.int 0))
  return .int n

/-- `str(v)`. -/
def text (v : Json) : Except Failure Json := do
  let s ← lib.str v
  return .str s

/-- `_ndpi`. -/
def ndpi (eve : Dict) : Dict := (eve.get "ndpi").obj?.getD []

/-- `_risks`. -/
def risks (n : Dict) : Except Failure (List Json) :=
  match n.get "risk" with
  | .arr xs => xs.mapM (text lib)
  | .obj ms => .ok (ms.map fun m => .str m.1)
  | r => if r.truthy then do return [← text lib r] else .ok []

/-- `flow_row`. -/
def flowRow (eve : Dict) (tenant : String) (sensor : Json) : Except Failure (List (String × Json)) := do
  let f := (eve.getD "flow" (.obj [])).or (.obj [])
  let n := ndpi eve
  let flowId ← intOrZero lib (eve.getD "flow_id" (.int 0))
  let srcPort ← intOrZero lib (eve.getD "src_port" (.int 0))
  let dstPort ← intOrZero lib (eve.getD "dest_port" (.int 0))
  let protocol ← text lib (n.getD "proto" (.str ""))
  let application ← text lib (n.getD "app_protocol" (n.getD "application" (.str "")))
  let riskSet ← risks lib n
  let f ← members f
  let pktsToServer ← intOrZero lib (f.getD "pkts_toserver" (.int 0))
  let pktsToClient ← intOrZero lib (f.getD "pkts_toclient" (.int 0))
  let bytesToServer ← intOrZero lib (f.getD "bytes_toserver" (.int 0))
  let bytesToClient ← intOrZero lib (f.getD "bytes_toclient" (.int 0))
  return [("tenant_id", .str tenant), ("sensor_id", sensor),
    ("event_time", eve.getD "timestamp" (.str "")), ("flow_id", flowId),
    ("community_id", eve.getD "community_id" (.str "")), ("src_ip", eve.getD "src_ip" (.str "")),
    ("src_port", srcPort), ("dst_ip", eve.getD "dest_ip" (.str "")), ("dst_port", dstPort),
    ("transport", eve.getD "proto" (.str "")), ("app_proto", eve.getD "app_proto" (.str "")),
    ("ndpi_protocol", protocol), ("ndpi_application", application),
    ("ndpi_risk_set", .arr riskSet), ("pkts_to_server", pktsToServer),
    ("pkts_to_client", pktsToClient), ("bytes_to_server", bytesToServer),
    ("bytes_to_client", bytesToClient), ("state", f.getD "state" (.str "")),
    ("alerted", .int (if (eve.get "alert").truthy then 1 else 0))]

/-- `v.get("hash", "") if isinstance(v, dict) else str(v or "")`. -/
def fingerprint (v : Json) : Except Failure Json :=
  match v with
  | .obj ms => .ok (Dict.getD ms "hash" (.str ""))
  | v => text lib (v.or (.str ""))

/-- `tls_row`. -/
def tlsRow (eve : Dict) (tenant : String) (sensor : Json) : Except Failure (List (String × Json)) := do
  let t ← members ((eve.getD "tls" (.obj [])).or (.obj []))
  let dstPort ← intOrZero lib (eve.getD "dest_port" (.int 0))
  let ja3 ← fingerprint lib (t.getD "ja3" (.obj []))
  let ja3s ← fingerprint lib (t.getD "ja3s" (.obj []))
  let application ← text lib ((ndpi eve).getD "app_protocol" (.str ""))
  return [("tenant_id", .str tenant), ("sensor_id", sensor),
    ("event_time", eve.getD "timestamp" (.str "")),
    ("community_id", eve.getD "community_id" (.str "")), ("src_ip", eve.getD "src_ip" (.str "")),
    ("dst_ip", eve.getD "dest_ip" (.str "")), ("dst_port", dstPort),
    ("sni", t.getD "sni" (.str "")), ("tls_version", t.getD "version" (.str "")), ("ja3", ja3),
    ("ja3s", ja3s), ("ja4", (t.getD "ja4" (.str "")).or (.str "")),
    ("ndpi_application", application)]

/-- `queries[0] if queries else d`. -/
def firstQuery (queries : Json) (d : Dict) : Except Failure Json :=
  if queries.truthy then
    match queries with
    | .arr (q :: _) => .ok q
    | .str s => .ok (.str (String.ofList (s.toList.take 1)))
    | .obj _ => .error .key
    -- a number cannot be indexed; an empty array is not truthy
    | _ => .error .type
  else .ok (.obj d)

def versionMessage (shown : String) (streamVersion : Int) : String :=
  s!"dns version {shown} != stream {String.ofList (intText streamVersion)}"

/-- The check of the declared version. -/
def checkVersion (declared : Json) (streamVersion : Int) : Except Failure Unit :=
  match declared with
  | .null => .ok ()
  | declared => do
    let version ← lib.int declared
    if version ≠ streamVersion then
      let shown ← lib.str declared
      throw (.own (.quarantine (versionMessage shown streamVersion)))

/-- `dns_row`. -/
def dnsRow (eve : Dict) (tenant : String) (sensor : Json) (streamVersion : Int) :
    Except Failure (List (String × Json)) := do
  let d ← members ((eve.getD "dns" (.obj [])).or (.obj []))
  checkVersion lib (d.get "version") streamVersion
  let q0 ← firstQuery ((d.get "queries").or (.arr [])) d
  let q0 ← members q0
  return [("tenant_id", .str tenant), ("sensor_id", sensor),
    ("event_time", eve.getD "timestamp" (.str "")), ("dns_version", .int streamVersion),
    ("community_id", eve.getD "community_id" (.str "")),
    ("client_ip", eve.getD "src_ip" (.str "")), ("resolver_ip", eve.getD "dest_ip" (.str "")),
    ("query_name", q0.getD "rrname" (d.getD "rrname" (.str ""))),
    ("query_type", q0.getD "rrtype" (d.getD "rrtype" (.str ""))),
    ("rcode", d.getD "rcode" (.str ""))]

/-- `normalize`; `None` for what is not persisted. -/
def normalize (eve : Dict) (tenant cfgSensor : String) (dnsVersion : Int) :
    Except Failure (Option (List (String × Json))) := do
  let et := eve.get "event_type"
  hash et
  let sensor := injectIdentity eve cfgSensor
  match EventType.ofJson? et with
  | some .flow => return some (← flowRow lib eve tenant sensor)
  | some .tls => return some (← tlsRow lib eve tenant sensor)
  | some .dns => return some (← dnsRow lib eve tenant sensor dnsVersion)
  | some .http | none => return none

/-! ### Observations -/

/-- `_datetime`. -/
def datetime (value : Json) : Except Failure Int :=
  quarantined "invalid or missing observation timestamp" do
    match value with
    | .str s => lib.parseUtc (replaceZ s)
    | _ => throw .attribute

/-- The typed part of the row. -/
def typedRow (et : EventType) (eve : Dict) (tenant sensor : String) (dnsVersion : Int) :
    Except Failure (List (String × Json)) :=
  match et with
  | .http => .ok [("tenant_id", .str tenant), ("sensor_id", .str sensor),
      ("event_time", eve.get "timestamp")]
  | _ => do
    match ← normalize lib eve tenant sensor dnsVersion with
    | some row => return row
    | none => throw .type

/-- The members that an observation copies as they are. -/
def copiedKeys : List String :=
  ["flow_id", "community_id", "src_ip", "src_port", "dest_ip", "dest_port", "proto", "app_proto",
    "tx_id"]

/-- `{key: copy.deepcopy(eve[key]) for key in copied_keys if key in eve}`. -/
def copiedFields (eve : Dict) : Except Failure Dict :=
  (copiedKeys.filterMap fun key => (eve.get? key).map fun v => (key, v)).mapM fun m => do
    let v ← lib.deepcopy m.2
    return (m.1, v)

/-- The payload of the event. -/
def payloadOf (et : EventType) (eve : Dict) : Except Failure Dict :=
  match eve.get et.name with
  | .obj (m :: ms) => .ok (m :: ms)
  | _ => .error (.own (.quarantine s!"missing {et.name} evidence"))

/-- `capabilities`. -/
def capabilities (et : EventType) (fields payload : Dict) : List Json :=
  let first := match et with
    | .flow => "flow-only"
    | .dns => "dns-transaction"
    | .tls => "tls-handshake"
    | .http => "http-metadata"
  let community := if (fields.get "community_id").truthy then ["community-id"] else []
  let fingerprints := match et with
    | .tls => ["ja3", "ja4"].filter fun name =>
      let value := match payload.get name with
        | .obj ms => Dict.get ms "hash"
        | v => v
      match value with
      | .str s => s ≠ ""
      | _ => false
    | _ => []
  (first :: community ++ fingerprints).map .str

/-- `source_ref`. -/
def sourceRef (c : Coordinates) (et : EventType) (tenant obsId rawHash : String) : Json :=
  .obj [("kind", .str "clickhouse-row"), ("table", .str ("ndr." ++ et.table)),
    ("tenant", .str tenant), ("obs_id", .str obsId), ("sha256", .str rawHash),
    ("topic", .str c.topic), ("partition", .int c.partition), ("offset", .int c.offset)]

/-- The times of an observation without a clock offset. -/
def timesOf (sensor : Json) (ingested : String) : Json :=
  .obj [("sensor", sensor), ("normalized", .str ingested), ("ingested", .str ingested),
    ("method", .str "ingest-fallback"), ("clock_offset_ms", .null)]

/-- The members of an observation. -/
def document (c : Coordinates) (et : EventType) (eve : Dict) (tenant sensor obsId : String)
    (ingested rawHash : String) (fields payload : Dict) : Dict :=
  [("schema", .str "cernity.observation.v1"), ("obs_id", .str obsId), ("tenant", .str tenant),
    ("sensor_id", .str sensor), ("ts", timesOf (eve.get "timestamp") ingested),
    ("entities", .arr (entities eve)),
    ("type", .str (if et = .flow then "conn" else et.name)), ("fields", .obj fields),
    ("capabilities", .arr (capabilities et fields payload)),
    ("source_ref", sourceRef c et tenant obsId rawHash)]

/-- What `observation` returns. -/
structure Observed where
  table : String
  row : Row
  doc : Json

/-- `observation`; `None` for an event of no table. -/
def observation (eve : Json) (tenant cfgSensor : String) (dnsVersion : Int) (c : Coordinates)
    (ingestedAt : String) : Except Failure (Option Observed) := do
  let eve ← members eve
  hash (eve.get "event_type")
  match EventType.ofJson? (eve.get "event_type") with
  | none => return none
  | some et =>
    let sensor ← identity eve tenant cfgSensor
    let _ ← datetime lib (eve.get "timestamp")
    let ingestTime ← datetime lib (.str ingestedAt)
    let row ← typedRow lib et eve tenant sensor dnsVersion
    let raw ← lib.canonicalJson (.obj eve)
    let obsId ← lib.obsId c tenant sensor
    let fields ← copiedFields lib eve
    let payload ← payloadOf et eve
    let evidence ← lib.deepcopy (.obj payload)
    let doc := Json.obj (document c et eve tenant sensor obsId (lib.isoformat ingestTime)
      (lib.sha256 raw) (fields ++ [(et.name, evidence)]) payload)
    let encoded ← lib.canonicalJson doc
    return some ⟨et.table,
      row.map (fun m => (m.1, .json m.2)) ++
        [("observation", .json (.str (String.ofList encoded))),
          ("raw_record", .json (.str (String.ofList raw)))], doc⟩

/-! ### Columns -/

/-- The typed columns of the table of an event. -/
def EventType.columns : EventType → List String
  | flow => ["tenant_id", "sensor_id", "event_time", "flow_id", "community_id", "src_ip",
      "src_port", "dst_ip", "dst_port", "transport", "app_proto", "ndpi_protocol",
      "ndpi_application", "ndpi_risk_set", "pkts_to_server", "pkts_to_client", "bytes_to_server",
      "bytes_to_client", "state", "alerted"]
  | tls => ["tenant_id", "sensor_id", "event_time", "community_id", "src_ip", "dst_ip",
      "dst_port", "sni", "tls_version", "ja3", "ja3s", "ja4", "ndpi_application"]
  | dns => ["tenant_id", "sensor_id", "event_time", "dns_version", "community_id", "client_ip",
      "resolver_ip", "query_name", "query_type", "rcode"]
  | http => ["tenant_id", "sensor_id", "event_time"]

variable {lib} {eve : Dict} {tenant sensor : String} {s : Json} {version : Int}
  {row : List (String × Json)}

theorem flowRow_names (h : flowRow lib eve tenant s = .ok row) :
    row.map Prod.fst = EventType.flow.columns ∧
      row.lookup "event_time" = some (eve.getD "timestamp" (.str "")) := by
  unfold flowRow at h
  repeat
    obtain ⟨_, -, h⟩ := Except.bind_eq_ok.mp h
  cases h
  exact ⟨rfl, rfl⟩

theorem tlsRow_names (h : tlsRow lib eve tenant s = .ok row) :
    row.map Prod.fst = EventType.tls.columns ∧
      row.lookup "event_time" = some (eve.getD "timestamp" (.str "")) := by
  unfold tlsRow at h
  repeat
    obtain ⟨_, -, h⟩ := Except.bind_eq_ok.mp h
  cases h
  exact ⟨rfl, rfl⟩

theorem dnsRow_names (h : dnsRow lib eve tenant s version = .ok row) :
    row.map Prod.fst = EventType.dns.columns ∧
      row.lookup "event_time" = some (eve.getD "timestamp" (.str "")) := by
  unfold dnsRow at h
  repeat
    obtain ⟨_, -, h⟩ := Except.bind_eq_ok.mp h
  cases h
  exact ⟨rfl, rfl⟩

theorem EventType.eq_of_ofJson? {v : Json} {et : EventType} (h : EventType.ofJson? v = some et) :
    v = .str et.name := by
  cases v with
  | str name =>
    have hname : et.name = name := by simpa using List.find?_some h
    rw [hname]
  | _ => cases h

/-- The typed part has the columns of its table, and the time as it came. -/
theorem typedRow_names {et : EventType} {time : String}
    (het : EventType.ofJson? (eve.get "event_type") = some et)
    (htime : eve.get "timestamp" = .str time)
    (h : typedRow lib et eve tenant sensor version = .ok row) :
    row.map Prod.fst = et.columns ∧ row.lookup "event_time" = some (.str time) := by
  have hgetD : eve.getD "timestamp" (.str "") = .str time := by
    cases hget : eve.get? "timestamp" with
    | none =>
      rw [Dict.get, hget] at htime
      cases htime
    | some v =>
      rw [Dict.getD, hget, Option.getD_some, ← htime, Dict.get_of_get? hget]
  have hnormal (hhttp : et ≠ .http)
      (hn : normalize lib eve tenant sensor version = .ok (some row)) :
      row.map Prod.fst = et.columns ∧ row.lookup "event_time" = some (.str time) := by
    obtain ⟨-, -, hn⟩ := Except.bind_eq_ok.mp hn
    simp only [het] at hn
    cases et with
    | flow =>
      obtain ⟨_, hrow, hn⟩ := Except.bind_eq_ok.mp hn
      cases hn
      exact hgetD ▸ flowRow_names hrow
    | tls =>
      obtain ⟨_, hrow, hn⟩ := Except.bind_eq_ok.mp hn
      cases hn
      exact hgetD ▸ tlsRow_names hrow
    | dns =>
      obtain ⟨_, hrow, hn⟩ := Except.bind_eq_ok.mp hn
      cases hn
      exact hgetD ▸ dnsRow_names hrow
    | http => exact absurd rfl hhttp
  cases et with
  | http =>
    cases h
    exact ⟨rfl, by rw [htime]; rfl⟩
  | flow | tls | dns =>
    obtain ⟨n, hn, h⟩ := Except.bind_eq_ok.mp h
    cases n with
    | none => cases h
    | some typed =>
      cases h
      exact hnormal (by decide) hn

/-! ### What an observation is made of -/

theorem datetime_eq_ok {v : Json} {t : Int} (h : datetime lib v = .ok t) :
    ∃ s time, v = .str s ∧ lib.fromisoformat (replaceZ s) = some time := by
  cases v with
  | str s =>
    cases hiso : lib.fromisoformat (replaceZ s) with
    | none =>
      simp only [datetime, Library.parseUtc, hiso, quarantined] at h
      cases h
    | some time => exact ⟨s, time, rfl, hiso⟩
  | _ => cases h

/-- What an observation of the occurrence `c` and its row are made of. -/
structure Made (lib : Library) (c : Coordinates) (o : Observed) : Prop where
  doc : ∃ et eve tenant sensor obsId ingested rawHash fields payload,
    o.doc = .obj (document c et eve tenant sensor obsId ingested rawHash fields payload) ∧
      lib.obsId c tenant sensor = .ok obsId
  columns : ∃ et : EventType, o.table = et.table ∧
    o.row.map Prod.fst = et.columns ++ ["observation", "raw_record"]
  encoded : o.row.lookup "observation" =
    some (.json (.str (String.ofList (compact (sortKeys o.doc)))))
  time : ∃ s t, o.row.lookup "event_time" = some (.json (.str s)) ∧
    lib.fromisoformat (replaceZ s) = some t

theorem lookup_append_of_notMem {l l' : Row} {key : String} (h : key ∉ l.map Prod.fst) :
    (l ++ l').lookup key = l'.lookup key := by
  rw [List.lookup_append, List.lookup_eq_none_iff.mpr, Option.none_or]
  rintro ⟨k, v⟩ hmem
  have hne : k ≠ key := fun hk => h (hk ▸ List.mem_map.mpr ⟨(k, v), hmem, rfl⟩)
  simpa using Ne.symm hne

theorem made_of_observation {v : Json} {c : Coordinates} {ingestedAt : String} {o : Observed}
    (h : observation lib v tenant sensor version c ingestedAt = .ok (some o)) : Made lib c o := by
  obtain ⟨eve, -, h⟩ := Except.bind_eq_ok.mp h
  obtain ⟨-, -, h⟩ := Except.bind_eq_ok.mp h
  cases het : EventType.ofJson? (eve.get "event_type") with
  | none =>
    simp only [het] at h
    cases h
  | some et =>
    simp only [het] at h
    obtain ⟨s, -, h⟩ := Except.bind_eq_ok.mp h
    obtain ⟨_, htime, h⟩ := Except.bind_eq_ok.mp h
    obtain ⟨ingest, -, h⟩ := Except.bind_eq_ok.mp h
    obtain ⟨row, hrow, h⟩ := Except.bind_eq_ok.mp h
    obtain ⟨raw, -, h⟩ := Except.bind_eq_ok.mp h
    obtain ⟨obsId, hid, h⟩ := Except.bind_eq_ok.mp h
    obtain ⟨fields, -, h⟩ := Except.bind_eq_ok.mp h
    obtain ⟨payload, -, h⟩ := Except.bind_eq_ok.mp h
    obtain ⟨evidence, -, h⟩ := Except.bind_eq_ok.mp h
    obtain ⟨encoded, hencoded, h⟩ := Except.bind_eq_ok.mp h
    obtain ⟨-, -, rfl⟩ := canonicalJson_eq_ok.mp hencoded
    obtain ⟨text, parsed, htext, hparsed⟩ := datetime_eq_ok htime
    obtain ⟨hnames, hlookup⟩ := typedRow_names het htext hrow
    cases h
    have hcells : (row.map fun m => (m.1, Cell.json m.2)).map Prod.fst = et.columns := by
      rw [List.map_map, ← hnames]
      rfl
    constructor
    · exact ⟨et, eve, tenant, s, obsId, _, _, _, payload, rfl, hid⟩
    · exact ⟨et, rfl, by rw [List.map_append, hcells]; rfl⟩
    · show List.lookup _ (_ ++ _) = _
      rw [lookup_append_of_notMem]
      · rfl
      · rw [hcells]
        cases et <;> decide
    · refine ⟨text, parsed, ?_, hparsed⟩
      show List.lookup _ (_ ++ _) = _
      rw [List.lookup_append]
      rw [Registry.lookup_map_snd, hlookup]
      rfl

end Normalizer
