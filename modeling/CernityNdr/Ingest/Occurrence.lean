import CernityNdr.Framework.Conversion
import CernityNdr.Framework.JsonRoundTrip

/-! # Bus Occurrences

    What `models.py` of the normalizer and `observe.py` of the file-observer
    have in common: the trusted-ingress identity, the timestamps, and the
    observation id of one occurrence on the bus.

    * `Library.obsId_injective`: two occurrences have two ids. -/

namespace Ingest

open Json Interpreter

/-- A date and time, in microseconds since the start of year 1, with its
    distance from UTC when it has one. -/
structure LocalTime where
  wall : Int
  offset : Option Int
deriving DecidableEq, Repr

/-- What the standard library does with texts. -/
structure Library extends Interpreter where
  /-- `datetime.fromisoformat(s)`, unless it raises -/
  fromisoformat : String → Option LocalTime
  /-- the text of an instant in UTC -/
  isoformat : Int → String
  /-- `datetime.fromtimestamp(ms / 1000, timezone.utc)`, unless it raises -/
  fromtimestamp : Int → Option Int
  /-- `hashlib.sha256(s.encode()).hexdigest()` of a text of the encoder -/
  sha256 : List Char → String

/-- The exceptions of the services, with their messages. -/
inductive Own
  | quarantine (message : String)
  | runtime (message : String)
deriving DecidableEq, Repr

abbrev Failure := Raised Own

/-- Where a record is on the bus. -/
structure Coordinates where
  topic : String
  partition : Nat
  offset : Nat
deriving DecidableEq

/-! ### Timestamps -/

/-- The end of year 9999. -/
def maxInstant : Int := 315537897600000000

/-- `s.replace("Z", "+00:00")`. -/
def replaceZ (s : String) : String :=
  String.ofList (s.toList.flatMap fun c => if c = 'Z' then "+00:00".toList else [c])

/-- `fromisoformat`, the check of the timezone and `astimezone(timezone.utc)`. -/
def Library.parseUtc (lib : Library) (text : String) : Except Failure Int :=
  match lib.fromisoformat text with
  | some ⟨wall, some offset⟩ =>
    let t := wall - offset
    -- a date outside of the years 1 to 9999
    if 0 ≤ t ∧ t < maxInstant then .ok t else .error .overflow
  | some ⟨_, none⟩ | none => .error .value

/-- `except (ValueError, TypeError, AttributeError)` with a quarantine. -/
def quarantined {α : Type} (message : String) (x : Except Failure α) : Except Failure α :=
  match x with
  | .error .value | .error .decode | .error .type | .error .attribute
  | .error (.own (.quarantine _)) => .error (.own (.quarantine message))
  | x => x

/-! ### Identity -/

/-- `inject_identity`: the sensor. The tenant is always the configured one. -/
def injectIdentity (eve : Dict) (cfgSensor : String) : Json :=
  ((eve.get "host").or (eve.get "sensor_id")).or (.str cfgSensor)

/-- The tenant and the sensor of an observation. -/
def identity (eve : Dict) (tenant cfgSensor : String) : Except Failure String :=
  match injectIdentity eve cfgSensor with
  | .str sensor =>
    if tenant = "" ∨ sensor = "" then .error (.own (.quarantine "observation identity required"))
    else .ok sensor
  | _ => .error (.own (.quarantine "observation identity required"))

/-- `identity` of one occurrence. -/
def Coordinates.identityJson (c : Coordinates) (tenant sensor : String) : Json :=
  .arr [.str tenant, .str sensor, .str c.topic, .int c.partition, .int c.offset]

def Library.obsId (lib : Library) (c : Coordinates) (tenant sensor : String) :
    Except Failure String := do
  let text ← lib.canonicalJson (c.identityJson tenant sensor)
  return "obs:" ++ lib.sha256 text

/-- The observation ids of two occurrences differ. -/
theorem Library.obsId_injective {lib : Library} (hsha : Function.Injective lib.sha256)
    {c c' : Coordinates} {tenant tenant' sensor sensor' id : String}
    (h : lib.obsId c tenant sensor = .ok id) (h' : lib.obsId c' tenant' sensor' = .ok id) :
    c = c' := by
  obtain ⟨text, htext, hid⟩ := Except.bind_eq_ok.mp h
  obtain ⟨text', htext', hid'⟩ := Except.bind_eq_ok.mp h'
  obtain ⟨-, -, rfl⟩ := canonicalJson_eq_ok.mp htext
  obtain ⟨-, -, rfl⟩ := canonicalJson_eq_ok.mp htext'
  have heq : "obs:" ++ lib.sha256 (compact (sortKeys (c.identityJson tenant sensor))) =
      "obs:" ++ lib.sha256 (compact (sortKeys (c'.identityJson tenant' sensor'))) :=
    Except.ok.inj (hid.trans hid'.symm)
  have hjson := compact_injective (hsha ((String.append_right_inj "obs:").mp heq))
  simp only [Coordinates.identityJson, sortKeys, sortKeys.items, Json.arr.injEq, List.cons.injEq,
    Json.str.injEq, Json.int.injEq, Int.natCast_inj] at hjson
  obtain ⟨-, -, htopic, hpartition, hoffset, -⟩ := hjson
  cases c
  cases c'
  simp_all

/-- `entities`. -/
def entities (eve : Dict) : List Json :=
  [("src_ip", "src"), ("dest_ip", "dst")].filterMap fun (key, role) =>
    match eve.get key with
    | .str ip =>
      if ip = "" then none
      else some (.obj [("type", .str "ip"), ("role", .str role), ("value", .str ip)])
    | _ => none

end Ingest
