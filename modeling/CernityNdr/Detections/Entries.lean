import CernityNdr.Feedback.DispositionSchema

/-! # Entries of the Detection Registry

    `contracts/detection-registry.schema.json` (detection-registry.v1) as the
    typed entry that it describes. Every bound of the schema is a field of the
    type, so an entry that breaks one cannot be built, and the reader refuses
    what the schema refuses.

    * `Entry`: one detection with its append-only `change_history`.
    * `Entry.ofJson?`: a value as an entry.
    * `Entry.ofJson?_toJson`: what has been written reads back. -/

namespace DetectionRegistry

open Json (Dict)
open JsonSchema
open FeedbackService (withoutBreak one_le_length)

/-! ### Status and source -/

inductive Status
  | draft
  | shadow
  | active
  | retired
deriving DecidableEq, Repr

def Status.all : List Status := [.draft, .shadow, .active, .retired]

def Status.text : Status → String
  | draft => "draft"
  | shadow => "shadow"
  | active => "active"
  | retired => "retired"

/-- The engine that a detection belongs to. -/
inductive Source
  | suricataSig
  | behavioral
  | dns
  | anomaly
  | yara
  | tiPolicy
deriving DecidableEq, Repr

def Source.all : List Source := [.suricataSig, .behavioral, .dns, .anomaly, .yara, .tiPolicy]

def Source.text : Source → String
  | suricataSig => "suricata-sig"
  | behavioral => "behavioral"
  | dns => "dns"
  | anomaly => "anomaly"
  | yara => "yara"
  | tiPolicy => "ti-policy"

def Status.ofText? (s : String) : Option Status := Status.all.find? fun st => st.text = s

def Source.ofText? (s : String) : Option Source := Source.all.find? fun src => src.text = s

/-! ### Texts -/

/-- A text of at most `high` characters that is not blank. -/
structure Token (high : Nat) where
  text : String
  notBlank : Text.notBlank text = true
  fits : text.length ≤ high
deriving DecidableEq

/-- The text of a moment, of any length. -/
structure Stamp where
  text : String
  notBlank : Text.notBlank text = true
deriving DecidableEq

def manifestDir : List Char := "detections/manifest/".toList

def manifestSuffix : List Char := ".manifest.json".toList

/-- `[^/]+\.manifest\.json`. -/
def matchesManifestName (cs : List Char) : Bool :=
  manifestSuffix.isSuffixOf cs && manifestSuffix.length < cs.length &&
    (cs.take (cs.length - manifestSuffix.length)).all fun c => c ≠ '/'

/-- `^detections/manifest/[^/]+\.manifest\.json$`. -/
def matchesManifestRef (s : String) : Bool :=
  manifestDir.isPrefixOf (withoutBreak s.toList) &&
    matchesManifestName ((withoutBreak s.toList).drop manifestDir.length)

/-- A text of the shape that `manifest_ref` has to have. -/
structure ManifestRef where
  text : String
  shape : matchesManifestRef text = true
deriving DecidableEq

/-! ### Entries -/

/-- A record of `change_history`. -/
structure Change where
  ts : Stamp
  actor : Token 256
  /-- `none` in the record of a creation -/
  fromStatus : Option Status
  toStatus : Status
deriving DecidableEq

structure Entry where
  detectionId : Token 256
  source : Source
  status : Status
  version : Token 128
  manifestRef : ManifestRef
  changeHistory : List Change
deriving DecidableEq

/-! ### Readers -/

def Token.ofText? (high : Nat) (s : String) : Option (Token high) :=
  if h : Text.notBlank s = true ∧ s.length ≤ high then some ⟨s, h.1, h.2⟩ else none

def Stamp.ofText? (s : String) : Option Stamp :=
  if h : Text.notBlank s = true then some ⟨s, h⟩ else none

def ManifestRef.ofText? (s : String) : Option ManifestRef :=
  if h : matchesManifestRef s = true then some ⟨s, h⟩ else none

/-- `from`, which may be `null`. -/
def fromOfJson? : Json → Option (Option Status)
  | .null => some none
  | v => (v.str?.bind Status.ofText?).map some

def Change.ofJson? : Json → Option Change := record ["ts", "actor", "from", "to"] fun d => do
  let ts ← member (fun v => v.str?.bind Stamp.ofText?) "ts" d
  let actor ← member (fun v => v.str?.bind (Token.ofText? 256)) "actor" d
  let fromStatus ← member fromOfJson? "from" d
  let toStatus ← member (fun v => v.str?.bind Status.ofText?) "to" d
  some ⟨ts, actor, fromStatus, toStatus⟩

def Entry.ofJson? : Json → Option Entry :=
  record ["detection_id", "source", "status", "version", "manifest_ref", "change_history"] fun d => do
    let detectionId ← member (fun v => v.str?.bind (Token.ofText? 256)) "detection_id" d
    let source ← member (fun v => v.str?.bind Source.ofText?) "source" d
    let status ← member (fun v => v.str?.bind Status.ofText?) "status" d
    let version ← member (fun v => v.str?.bind (Token.ofText? 128)) "version" d
    let manifestRef ← member (fun v => v.str?.bind ManifestRef.ofText?) "manifest_ref" d
    let changeHistory ← member (readItems Change.ofJson?) "change_history" d
    some ⟨detectionId, source, status, version, manifestRef, changeHistory⟩

/-! ### Writers -/

def fromJson : Option Status → Json
  | none => .null
  | some st => .str st.text

/-- The record that `promote` and every caller write. -/
def changeJson (ts actor : String) (fromStatus : Option Status) (toStatus : Status) : Json :=
  .obj [("ts", .str ts), ("actor", .str actor), ("from", fromJson fromStatus),
    ("to", .str toStatus.text)]

def Change.toJson (c : Change) : Json :=
  changeJson c.ts.text c.actor.text c.fromStatus c.toStatus

/-- An entry of which the status and the history are given. -/
def Entry.jsonWith (e : Entry) (status : Status) (history : List Json) : Json :=
  .obj [("detection_id", .str e.detectionId.text), ("source", .str e.source.text),
    ("status", .str status.text), ("version", .str e.version.text),
    ("manifest_ref", .str e.manifestRef.text), ("change_history", .arr history)]

/-! ### What has been written reads back -/

@[simp] theorem Status.ofText?_text (st : Status) : Status.ofText? st.text = some st := by
  cases st <;> decide

@[simp] theorem Source.ofText?_text (src : Source) : Source.ofText? src.text = some src := by
  cases src <;> decide

@[simp] theorem Token.ofText?_text {high : Nat} (t : Token high) :
    Token.ofText? high t.text = some t := by
  unfold Token.ofText?
  rw [dif_pos ⟨t.notBlank, t.fits⟩]

@[simp] theorem Stamp.ofText?_text (t : Stamp) : Stamp.ofText? t.text = some t := by
  unfold Stamp.ofText?
  rw [dif_pos t.notBlank]

@[simp] theorem ManifestRef.ofText?_text (m : ManifestRef) : ManifestRef.ofText? m.text = some m := by
  unfold ManifestRef.ofText?
  rw [dif_pos m.shape]

@[simp] theorem fromOfJson?_fromJson (fromStatus : Option Status) :
    fromOfJson? (fromJson fromStatus) = some fromStatus := by
  cases fromStatus with
  | none => rfl
  | some st =>
    show (Status.ofText? st.text).map some = _
    rw [Status.ofText?_text]
    rfl

/-- A record of which the actor is given as text. -/
theorem Change.ofJson?_changeJson (ts : Stamp) (actor : String) (fromStatus : Option Status)
    (toStatus : Status) :
    Change.ofJson? (changeJson ts.text actor fromStatus toStatus) =
      (Token.ofText? 256 actor).map fun a => ⟨ts, a, fromStatus, toStatus⟩ := by
  have hread : Change.ofJson? (changeJson ts.text actor fromStatus toStatus) =
      (do
        let ts ← Stamp.ofText? ts.text
        let actor ← Token.ofText? 256 actor
        let fromStatus ← fromOfJson? (fromJson fromStatus)
        let toStatus ← Status.ofText? toStatus.text
        some ⟨ts, actor, fromStatus, toStatus⟩) := rfl
  rw [hread, Stamp.ofText?_text, fromOfJson?_fromJson, Status.ofText?_text]
  cases Token.ofText? 256 actor <;> rfl

theorem Change.ofJson?_toJson (c : Change) : Change.ofJson? c.toJson = some c := by
  rw [Change.toJson, Change.ofJson?_changeJson, Token.ofText?_text]
  rfl

/-- The reader on an entry with another status and another history. -/
theorem Entry.ofJson?_jsonWith (e : Entry) (status : Status) (history : List Json) :
    Entry.ofJson? (e.jsonWith status history) =
      (readItems Change.ofJson? (.arr history)).map fun h =>
        { e with status := status, changeHistory := h } := by
  have hread : Entry.ofJson? (e.jsonWith status history) =
      (do
        let detectionId ← Token.ofText? 256 e.detectionId.text
        let source ← Source.ofText? e.source.text
        let status ← Status.ofText? status.text
        let version ← Token.ofText? 128 e.version.text
        let manifestRef ← ManifestRef.ofText? e.manifestRef.text
        let changeHistory ← readItems Change.ofJson? (.arr history)
        some ⟨detectionId, source, status, version, manifestRef, changeHistory⟩) := rfl
  rw [hread, Token.ofText?_text, Source.ofText?_text, Status.ofText?_text, Token.ofText?_text,
    ManifestRef.ofText?_text]
  cases readItems Change.ofJson? (.arr history) <;> rfl

end DetectionRegistry
