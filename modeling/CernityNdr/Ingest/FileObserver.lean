import CernityNdr.Ingest.Occurrence

/-! # File-Observer

    The model of `file-observer/observe.py`, of `hash_is_complete` of
    `file-threat/filematch.py`, and of the per-record part of
    `file-observer/app.py`: one record becomes the row of a file observation,
    is passed over, or is skipped as poison. The service never passes a clock
    offset, so `fileObservation` has none here. -/

namespace FileObserver

open Json Ingest Interpreter

/-- What `json.loads(b.decode("utf-8"))` makes of a record's bytes. -/
inductive Decoded
  | value (v : Json)
  /-- `UnicodeDecodeError` or `JSONDecodeError` -/
  | malformed
  /-- a plain `ValueError`: an integer has more digits than `int` reads -/
  | digits
  | recursion

structure Library extends Ingest.Library where
  loads : List UInt8 → Decoded
  lower : String → String
  upper : String → String
  /-- the message of the `ValidationError` of the contract validator -/
  violation : Json → Option String

variable (lib : Library)

/-- `_datetime`. -/
def datetime (value : Json) : Except Failure Int :=
  quarantined "invalid or missing observation timestamp" do
    let s ← lib.str value
    lib.parseUtc (replaceZ s)

/-- `hash_is_complete`. -/
def hashIsComplete (fi : Dict) : Except Failure Bool :=
  if !(fi.get "sha256").truthy then .ok false
  else do
    let state ← lib.str (fi.getD "state" (.str ""))
    if lib.upper state ≠ "CLOSED" then return false
    else if !(fi.get "gaps").beq (.bool false) then return false
    else
      match fi.get "start" with
      | .null => return true
      | start =>
        match lib.int start with
        | .ok n => return n = 0
        | .error .type | .error .value => return false
        | .error e => throw e

/-- `_str`. -/
def strOrNull (v : Json) : Json :=
  match v with
  | .str s => if s = "" then .null else .str s
  | _ => .null

/-- `_u64`. -/
def u64 (v : Json) : Json :=
  match v with
  | .int n => if 0 ≤ n ∧ n ≤ 18446744073709551615 then .int n else .null
  | _ => .null

def isHexLower (c : Char) : Bool :=
  (97 ≤ c.toNat && c.toNat ≤ 102) || (48 ≤ c.toNat && c.toNat ≤ 57)

/-- The digest of one algorithm, with the length that it has. -/
def digest (fi found : Dict) (alg : String × Nat) : Except Failure Dict :=
  if !(fi.get alg.1).truthy then .ok found
  else
    match fi.get alg.1 with
    | .str s =>
      if (lib.lower s).toList.length = alg.2 ∧ (lib.lower s).toList.all isHexLower then
        .ok (found ++ [(alg.1, .str (lib.lower s))])
      else .error (.own (.quarantine s!"malformed {alg.1} digest on a completed capture"))
    | _ => .error (.own (.quarantine s!"malformed {alg.1} digest on a completed capture"))

/-- The digests of a completed capture. -/
def digests (fi : Dict) : Except Failure Dict :=
  [("sha256", 64), ("sha1", 40), ("md5", 32)].foldlM (digest lib fi) []

/-- `f"{label}:{v}"`. -/
def reference (label : String) (v : Json) : Except Failure Json := do
  let s ← lib.str v
  return .str (label ++ ":" ++ s)

/-- `transfer_ref`. -/
def transferRef (txId : Json) : Except Failure Json :=
  match txId with
  | .null => .ok .null
  | txId => reference lib "tx" txId

/-- `session_ref`. -/
def sessionRef (eve : Dict) : Except Failure Json :=
  if (eve.get "flow_id").truthy then reference lib "flow" (eve.get "flow_id")
  else .ok (strOrNull (eve.get "community_id"))

/-- Hashes attach only to a file that was captured whole. -/
def attached (fi : Dict) (state : String) : Except Failure Dict :=
  if state = "hashes_only" then digests lib fi else .ok []

/-- `file_fields`. -/
def fileFields (eve fi : Dict) (sensorTs state : String) : Except Failure Dict := do
  let transfer ← transferRef lib (fi.getD "tx_id" (eve.get "tx_id"))
  let session ← sessionRef lib eve
  let hashes ← attached lib fi state
  return [("state", .str state), ("first_seen", .str sensorTs), ("last_seen", .str sensorTs),
    ("mime", strOrNull (fi.get "mime_type")), ("size", u64 (fi.get "size")),
    ("filename", strOrNull (fi.get "filename")), ("transfer_ref", transfer),
    ("session_ref", session), ("source_obs_ref", .null), ("file_artifact_id", .null)] ++ hashes

/-- The `fileinfo` of an event. -/
def fileinfoOf (eve : Dict) : Except Failure Dict :=
  match eve.get "fileinfo" with
  | .obj (m :: ms) => .ok (m :: ms)
  | _ => .error (.own (.quarantine "missing fileinfo evidence"))

/-- The observation of a file. -/
def document (c : Coordinates) (eve : Dict) (tenant sensor obsId sensorTs ingested : String)
    (rawHash : String) (file : Dict) : Json :=
  .obj [("schema", .str "cernity.observation.v1"), ("obs_id", .str obsId), ("tenant", .str tenant),
    ("sensor_id", .str sensor),
    ("ts", .obj [("sensor", .str sensorTs), ("normalized", .str ingested),
      ("ingested", .str ingested), ("method", .str "ingest-fallback"), ("clock_offset_ms", .null)]),
    ("entities", .arr (entities eve)), ("type", .str "file"),
    ("fields", .obj [("file", .obj file)]), ("capabilities", .arr []),
    ("source_ref", .obj [("kind", .str "clickhouse-row"), ("table", .str "ndr.file_observation"),
      ("tenant", .str tenant), ("obs_id", .str obsId), ("sha256", .str rawHash),
      ("topic", .str c.topic), ("partition", .int c.partition), ("offset", .int c.offset)])]

/-- The row of a file observation. -/
structure Row where
  observation : List Char
  rawRecord : List Char

/-- `file_observation` of an object. -/
def eventObservation (eve : Dict) (tenant cfgSensor : String) (c : Coordinates)
    (ingestedAt : String) : Except Failure (Option Row) :=
  if !(eve.get "event_type").beq (.str "fileinfo") then .ok none
  else do
    let fi ← fileinfoOf eve
    let sensor ← identity eve tenant cfgSensor
    let sensorTime ← datetime lib (eve.get "timestamp")
    let ingestTime ← datetime lib (.str ingestedAt)
    let complete ← hashIsComplete lib fi
    let state := if complete then "hashes_only" else "metadata_only"
    let raw ← lib.canonicalJson (.obj eve)
    let obsId ← lib.obsId c tenant sensor
    let file ← fileFields lib eve fi (lib.isoformat sensorTime) state
    let doc := document c eve tenant sensor obsId (lib.isoformat sensorTime)
      (lib.isoformat ingestTime) (lib.sha256 raw) file
    match lib.violation doc with
    | some message =>
      throw (.own (.quarantine s!"observation violates the pinned contract: {message}"))
    | none =>
      let encoded ← lib.canonicalJson doc
      return some ⟨encoded, raw⟩

/-- `file_observation`; `None` for other events. -/
def fileObservation (eve : Json) (tenant cfgSensor : String) (c : Coordinates)
    (ingestedAt : String) : Except Failure (Option Row) :=
  match eve with
  | .obj eve => eventObservation lib eve tenant cfgSensor c ingestedAt
  | _ => .error (.own (.quarantine "record is not a JSON object"))

/-! ### The loop -/

structure Record where
  /-- the bytes, or `None` for a tombstone -/
  value : Option (List UInt8)
  timestampType : Int
  timestamp : Option Int

/-- `json.loads(rec.value.decode("utf-8"))`. -/
def decode (bytes : List UInt8) : Except Failure Json :=
  match lib.loads bytes with
  | .value v => .ok v
  | .malformed => .error .decode
  | .digits => .error .value
  | .recursion => .error .recursion

/-- The body of `try`. -/
def observe (tenant cfgSensor : String) (c : Coordinates) (r : Record) :
    Except Failure (Option Row) :=
  match r.timestamp with
  | some ms =>
    if r.timestampType ≠ 1 ∨ ms < 0 then
      throw (.own (.runtime "file-observer requires input topics with LogAppendTime"))
    else
      match r.value with
      | none => throw (.own (.quarantine "empty record value"))
      | some bytes => do
        let eve ← decode lib bytes
        let ingested ← (lib.fromtimestamp ms).elim (.error .value) .ok
        fileObservation lib eve tenant cfgSensor c (lib.isoformat ingested)
  | none => throw (.own (.runtime "file-observer requires input topics with LogAppendTime"))

/-- One round of the loop over the records. -/
def handle (tenant cfgSensor : String) (c : Coordinates) (rows : List Row) (r : Record) :
    Except Failure (List Row) :=
  match observe lib tenant cfgSensor c r with
  | .ok (some row) => .ok (rows ++ [row])
  | .ok none => .ok rows
  | .error (.own (.quarantine _)) | .error .decode => .ok rows
  | .error e => .error e

end FileObserver
