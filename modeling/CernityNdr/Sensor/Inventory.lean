import Mathlib.Data.Rat.Defs
import CernityNdr.Framework.Conversion
import CernityNdr.Framework.Registry
import CernityNdr.Framework.Run

/-! # The Sensor Inventory

    The model of `sensor-registry`: heartbeats are checked against the
    enrollment of the principal that the transport has authenticated, and
    written to the inventory. The two stores change independently.

    * `inventory_verified`: what is in the inventory after any run.
    * `moved_sensor_refused`: a sensor that was enrolled anew, for another
      tenant, is not stored again. -/

namespace SensorRegistry

open Json (Dict)

/-- What the code takes from the language and from SQLite. -/
structure Runtime where
  /-- `s.encode()` does not raise: a `str` may hold lone surrogates -/
  encodes : String → Bool
  /-- `float(n)`, unless it overflows -/
  float : Int → Option FloatText
  /-- how deep a value may be nested for `json.dumps` -/
  dumpsRoom : Nat

/-! ### Heartbeats -/

/-- What is stored of a heartbeat. -/
structure Heartbeat where
  sensorUuid : String
  tenant : String
  site : String
  observedAt : String
  versions : Dict
  clockOffsetMs : Option FloatText
  clockStatus : Option String

/-- A text of a heartbeat: neither empty nor one that SQLite cannot bind. -/
def text? (rt : Runtime) (v : Json) : Option String :=
  match v with
  | .str s => if s ≠ "" ∧ rt.encodes s = true then some s else none
  | _ => none

/-- `clock_offset_ms` as a finite double. -/
def offset? (rt : Runtime) (v : Json) : Option (Option FloatText) :=
  match v with
  | .null => some none
  | .int n => (rt.float n).map some
  | .float x => some (some x)
  -- a boolean, `NaN` and the infinities are no measurements
  | _ => none

def status? (rt : Runtime) (v : Json) : Option (Option String) :=
  match v with
  | .null => some none
  | .str s => if rt.encodes s then some (some s) else none
  | _ => none

/-- `_well_formed`, with what `upsert_heartbeat` reads of the record. -/
def heartbeat? (rt : Runtime) (record : Json) : Option Heartbeat := do
  let d ← record.obj?
  if (d.get "schema_version").beq (.str "sensor-health.v1") then
    let sensorUuid ← text? rt (d.get "sensor_uuid")
    let tenant ← text? rt (d.get "tenant")
    let site ← text? rt (d.get "site")
    let observedAt ← text? rt (d.get "observed_at")
    let versions ← (d.get "versions").obj?
    let clockOffsetMs ← offset? rt (d.get "clock_offset_ms")
    let clockStatus ← status? rt (d.get "clock_status")
    some ⟨sensorUuid, tenant, site, observedAt, versions, clockOffsetMs, clockStatus⟩
  else none

/-! ### The two stores -/

/-- A row of `sensors`. -/
structure SensorRow where
  sensorUuid : String
  tenant : String
  site : String
  tags : String
  groups : String
  capabilities : String
  versions : String
  lastSeen : String
  receivedAt : ℚ
  certFingerprint : Option String
  clockOffsetMs : Option FloatText
  clockStatus : Option String
  producerVerified : Bool
deriving DecidableEq

abbrev Sensors := Registry SensorRow.sensorUuid

/-- A row of `enrollments`. -/
structure Enrollment where
  principal : String
  sensorUuid : String
  tenant : String
deriving DecidableEq

abbrev EnrollmentStore := Registry Enrollment.principal

/-- The row of a heartbeat, with the enrollment's columns of the row that is there. -/
def Heartbeat.row (hb : Heartbeat) (old : Option SensorRow) (producerVerified : Bool)
    (receivedAt : ℚ) : SensorRow where
  sensorUuid := hb.sensorUuid
  tenant := hb.tenant
  site := hb.site
  tags := (old.map SensorRow.tags).getD "[]"
  groups := (old.map SensorRow.groups).getD "[]"
  capabilities := (old.map SensorRow.capabilities).getD "[]"
  versions := String.ofList (Json.dumps (.obj hb.versions))
  lastSeen := hb.observedAt
  receivedAt := receivedAt
  certFingerprint := old.bind SensorRow.certFingerprint
  clockOffsetMs := hb.clockOffsetMs
  clockStatus := hb.clockStatus
  producerVerified := producerVerified

/-- What a call of `upsert_heartbeat` ends with. -/
inductive Upserted
  | stored (sensors : Sensors)
  /-- `False` -/
  | dropped
  /-- `json.dumps` raises -/
  | raised

/-- `upsert_heartbeat`. -/
def upsertHeartbeat (rt : Runtime) (sensors : Sensors) (record : Json) (producerVerified : Bool)
    (receivedAt : ℚ) : Upserted :=
  match heartbeat? rt record with
  | none => .dropped
  | some hb =>
    let owner := sensors.get? hb.sensorUuid
    if owner.any fun row => row.tenant ≠ hb.tenant then .dropped
    else if (Json.obj hb.versions).depth ≤ rt.dumpsRoom then
      .stored (sensors.put (hb.row owner producerVerified receivedAt))
    else .raised

/-- `enroll`, where SQLite can bind the texts. -/
def enroll (rt : Runtime) (store : EnrollmentStore) (principal sensorUuid tenant : String) :
    EnrollmentStore :=
  if rt.encodes principal ∧ rt.encodes sensorUuid ∧ rt.encodes tenant then
    store.put ⟨principal, sensorUuid, tenant⟩
  else store

/-- `verifies`; `none` where SQLite cannot bind the principal. -/
def verifies (rt : Runtime) (store : EnrollmentStore) (principal : String)
    (sensorUuid tenant : Json) : Option Bool :=
  if principal = "" then some false
  else if rt.encodes principal then
    some ((store.get? principal).any fun e =>
      sensorUuid.beq (.str e.sensorUuid) && tenant.beq (.str e.tenant))
  else none

/-! ### The loop -/

/-- What `_verify_producer` returns. -/
inductive Verdict
  /-- `False`: no enrollment is wired -/
  | unverified
  /-- `True` -/
  | verified
  /-- `None` -/
  | rejected
deriving DecidableEq

/-- The member of a record that is a dictionary, else `None`. -/
def claimed (record : Json) (key : String) : Json := (record.obj?.getD []).get key

/-- `_verify_producer`; `none` where it raises. -/
def verifyProducer (rt : Runtime) (enrollment : Option EnrollmentStore) (principal : Option String)
    (record : Json) : Option Verdict :=
  match enrollment with
  | none => some .unverified
  | some store =>
    let principal := principal.getD ""
    if principal = "" then some .rejected
    else
      (verifies rt store principal (claimed record "sensor_uuid") (claimed record "tenant")).map
        fun ok => if ok then .verified else .rejected

/-- A message of the bus, and the time at which it is dealt with. -/
structure Message where
  principal : Option String
  value : Json
  receivedAt : ℚ

structure World where
  enrollments : EnrollmentStore
  sensors : Sensors
  /-- no exception has ended the loop -/
  running : Bool
  /-- the reasons that `metrics.dropped` was called with -/
  dropped : List String

def World.empty : World := ⟨.empty, .empty, true, []⟩

/-- One round of `ingest_loop`. -/
def World.ingest (rt : Runtime) (w : World) (m : Message) : World :=
  if w.running then
    if m.value.beq .null then { w with dropped := w.dropped ++ ["undeserializable"] }
    else
      match verifyProducer rt (some w.enrollments) m.principal m.value with
      | none => { w with running := false }
      | some .rejected => { w with dropped := w.dropped ++ ["producer_identity"] }
      | some verdict =>
        match upsertHeartbeat rt w.sensors m.value (verdict = .verified) m.receivedAt with
        | .stored sensors => { w with sensors := sensors }
        | .dropped => { w with dropped := w.dropped ++ ["malformed"] }
        | .raised => { w with running := false }
  else w

inductive Event
  | enroll (principal sensorUuid tenant : String)
  | message (m : Message)

def step (rt : Runtime) (w : World) : Event → World
  | .enroll principal sensorUuid tenant =>
    { w with enrollments := SensorRegistry.enroll rt w.enrollments principal sensorUuid tenant }
  | .message m => w.ingest rt m

def run (rt : Runtime) (es : List Event) : World := Machine.run (step rt) .empty es

/-! ### What the inventory is to be -/

/-- The principal is enrolled for exactly this sensor and this tenant. -/
def World.Enrolled (w : World) (principal : Option String) (sensorUuid tenant : String) : Prop :=
  ∃ p, principal = some p ∧ p ≠ "" ∧ w.enrollments.get? p = some ⟨p, sensorUuid, tenant⟩

/-- The message is a heartbeat of the sensor that its principal is enrolled for. -/
def World.Authentic (rt : Runtime) (w : World) (m : Message) (hb : Heartbeat) : Prop :=
  heartbeat? rt m.value = some hb ∧ w.Enrolled m.principal hb.sensorUuid hb.tenant

/-- The heartbeat's columns of the row are those of the message. -/
structure Heartbeat.Wrote (hb : Heartbeat) (m : Message) (r : SensorRow) : Prop where
  sensorUuid : r.sensorUuid = hb.sensorUuid
  tenant : r.tenant = hb.tenant
  site : r.site = hb.site
  versions : r.versions = String.ofList (Json.dumps (.obj hb.versions))
  lastSeen : r.lastSeen = hb.observedAt
  receivedAt : r.receivedAt = m.receivedAt
  clockOffsetMs : r.clockOffsetMs = hb.clockOffsetMs
  clockStatus : r.clockStatus = hb.clockStatus
  producerVerified : r.producerVerified = true

/-- The enrollment's columns of the rows are the same. -/
def SensorRow.SameEnrollment (r r' : SensorRow) : Prop :=
  r'.tags = r.tags ∧ r'.groups = r.groups ∧ r'.capabilities = r.capabilities ∧
    r'.certFingerprint = r.certFingerprint

/-- The row was last written by an authentic heartbeat. -/
def LastWritten (rt : Runtime) (es : List Event) (r : SensorRow) : Prop :=
  ∃ pre m post hb, es = pre ++ .message m :: post ∧ (run rt pre).Authentic rt m hb ∧
    hb.Wrote m r ∧ ∀ mid, mid <+: post →
      (run rt (pre ++ .message m :: mid)).sensors.get? r.sensorUuid = some r

/-- What a run does to the inventory, but for which heartbeats are stored. -/
structure Verified (rt : Runtime) (es : List Event) : Prop where
  running : (run rt es).running = true
  last_written : ∀ r ∈ (run rt es).sensors.vals, LastWritten rt es r
  refused : ∀ pre m post, es = pre ++ .message m :: post →
    (∀ hb, ¬ (run rt pre).Authentic rt m hb) →
    (run rt (pre ++ [.message m])).sensors = (run rt pre).sensors
  kept : ∀ pre m post, es = pre ++ .message m :: post → ∀ uuid r,
    (run rt pre).sensors.get? uuid = some r →
    ∃ r', (run rt (pre ++ [.message m])).sensors.get? uuid = some r' ∧ r.SameEnrollment r'

/-- The heartbeat of the message is stored. -/
def Stored (rt : Runtime) (pre : List Event) (m : Message) (hb : Heartbeat) : Prop :=
  ∃ r, (run rt (pre ++ [.message m])).sensors.get? hb.sensorUuid = some r ∧ hb.Wrote m r

/-- Every authentic heartbeat is stored. -/
def AllStored (rt : Runtime) (es : List Event) : Prop :=
  ∀ pre m post hb, es = pre ++ .message m :: post → (run rt pre).Authentic rt m hb →
    Stored rt pre m hb

/-- Every authentic heartbeat is stored, unless the inventory has the sensor
    under another tenant. -/
def OwnStored (rt : Runtime) (es : List Event) : Prop :=
  ∀ pre m post hb, es = pre ++ .message m :: post → (run rt pre).Authentic rt m hb →
    (∀ r, (run rt pre).sensors.get? hb.sensorUuid = some r → r.tenant = hb.tenant) →
    Stored rt pre m hb

/-- SQLite can bind the principal, and `json.dumps` can write the versions. -/
structure Message.Bindable (rt : Runtime) (m : Message) : Prop where
  principal : ∀ p, m.principal = some p → rt.encodes p = true
  versions : ∀ hb, heartbeat? rt m.value = some hb →
    (Json.obj hb.versions).depth ≤ rt.dumpsRoom

/-! ### One message -/

section Round

variable {rt : Runtime} {w : World} {m : Message} {hb : Heartbeat}

theorem text?_eq_some {v : Json} {s : String} (h : text? rt v = some s) : v = .str s := by
  unfold text? at h
  split at h
  · split at h
    · exact congrArg Json.str (Option.some.inj h)
    · cases h
  · cases h

/-- The sensor and the tenant of a heartbeat are what its record claims. -/
theorem claimed_of_heartbeat? {record : Json} (h : heartbeat? rt record = some hb) :
    claimed record "sensor_uuid" = .str hb.sensorUuid ∧
      claimed record "tenant" = .str hb.tenant ∧ record ≠ .null := by
  obtain ⟨d, hd, h⟩ := Option.bind_eq_some_iff.mp h
  split at h
  · obtain ⟨sensorUuid, huuid, h⟩ := Option.bind_eq_some_iff.mp h
    obtain ⟨tenant, htenant, h⟩ := Option.bind_eq_some_iff.mp h
    obtain ⟨site, -, h⟩ := Option.bind_eq_some_iff.mp h
    obtain ⟨observedAt, -, h⟩ := Option.bind_eq_some_iff.mp h
    obtain ⟨versions, -, h⟩ := Option.bind_eq_some_iff.mp h
    obtain ⟨offset, -, h⟩ := Option.bind_eq_some_iff.mp h
    obtain ⟨status, -, h⟩ := Option.bind_eq_some_iff.mp h
    obtain rfl := Option.some.inj h
    rw [claimed, claimed, hd]
    refine ⟨text?_eq_some huuid, text?_eq_some htenant, ?_⟩
    rintro rfl
    cases hd
  · cases h

/-- The enrollment that the record's claims agree with. -/
def Claims (store : EnrollmentStore) (principal : Option String) (record : Json) (e : Enrollment) :
    Prop :=
  principal = some e.principal ∧ e.principal ≠ "" ∧ store.get? e.principal = some e ∧
    claimed record "sensor_uuid" = .str e.sensorUuid ∧ claimed record "tenant" = .str e.tenant

/-- A principal that can be bound is verified or rejected. -/
theorem verifyProducer_spec {store : EnrollmentStore} {principal : Option String} {record : Json}
    (hbind : ∀ p, principal = some p → rt.encodes p = true) :
    (verifyProducer rt (some store) principal record = some .verified ∧
        ∃ e, Claims store principal record e) ∨
      (verifyProducer rt (some store) principal record = some .rejected ∧
        ∀ e, ¬ Claims store principal record e) := by
  cases hp : principal with
  | none => exact Or.inr ⟨rfl, fun e he => by cases he.1⟩
  | some p =>
    unfold verifyProducer
    dsimp only [Option.getD_some]
    by_cases hempty : p = ""
    · rw [if_pos hempty]
      exact Or.inr ⟨rfl, fun e he => he.2.1 (Option.some.inj he.1 ▸ hempty)⟩
    · rw [if_neg hempty, verifies, if_neg hempty, if_pos (hbind p hp), Option.map_some]
      cases hget : store.get? p with
      | none =>
        refine Or.inr ⟨rfl, fun e he => ?_⟩
        have hstored := he.2.2.1
        rw [← Option.some.inj he.1, hget] at hstored
        cases hstored
      | some e =>
        have hkey : e.principal = p := Registry.keyOf_of_get? hget
        rw [Option.any_some]
        split
        · next hclaims =>
          obtain ⟨huuid, htenant⟩ := Bool.and_eq_true_iff.mp hclaims
          exact Or.inl ⟨rfl, e, by rw [hkey], hkey ▸ hempty, hkey ▸ hget, Json.eq_of_beq huuid,
            Json.eq_of_beq htenant⟩
        · next hclaims =>
          refine Or.inr ⟨rfl, fun e' he' => hclaims ?_⟩
          have hstored := he'.2.2.1
          rw [← Option.some.inj he'.1, hget] at hstored
          obtain rfl := Option.some.inj hstored
          rw [he'.2.2.2.1, he'.2.2.2.2, Json.beq_refl, Json.beq_refl]
          rfl

/-- A heartbeat is authentic when an enrollment agrees with its claims. -/
theorem authentic_iff (h : heartbeat? rt m.value = some hb) :
    w.Authentic rt m hb ↔ ∃ e, Claims w.enrollments m.principal m.value e := by
  obtain ⟨huuid, htenant, -⟩ := claimed_of_heartbeat? h
  constructor
  · rintro ⟨-, p, hp, hne, hget⟩
    exact ⟨⟨p, hb.sensorUuid, hb.tenant⟩, hp, hne, hget, huuid, htenant⟩
  · rintro ⟨e, hp, hne, hget, huuid', htenant'⟩
    refine ⟨h, e.principal, hp, hne, ?_⟩
    rw [huuid] at huuid'
    rw [htenant] at htenant'
    rw [hget, Json.str.inj huuid', Json.str.inj htenant']

/-- A heartbeat is written, unless the sensor is there under another tenant. -/
theorem upsertHeartbeat_spec {sensors : Sensors} {record : Json} (hhb : heartbeat? rt record = some hb)
    (hdepth : (Json.obj hb.versions).depth ≤ rt.dumpsRoom) (verified : Bool) (receivedAt : ℚ) :
    ((∀ r, sensors.get? hb.sensorUuid = some r → r.tenant = hb.tenant) ∧
        upsertHeartbeat rt sensors record verified receivedAt =
          .stored (sensors.put (hb.row (sensors.get? hb.sensorUuid) verified receivedAt))) ∨
      ((∃ r, sensors.get? hb.sensorUuid = some r ∧ r.tenant ≠ hb.tenant) ∧
        upsertHeartbeat rt sensors record verified receivedAt = .dropped) := by
  unfold upsertHeartbeat
  rw [hhb]
  dsimp only
  split
  · next howner =>
    obtain ⟨r, hr, hne⟩ := (Option.any_eq_true _ _).mp howner
    exact Or.inr ⟨⟨r, hr, of_decide_eq_true hne⟩, rfl⟩
  · next howner =>
    refine Or.inl ⟨fun r hr => ?_, rfl⟩
    rw [hr, Option.any_some] at howner
    simpa using howner

/-- What a message does: an authentic heartbeat is written, unless the sensor is
    there under another tenant. -/
theorem ingest_cases (hrun : w.running = true) (hm : m.Bindable rt) :
    (w.ingest rt m).running = true ∧ (w.ingest rt m).enrollments = w.enrollments ∧
      ((∃ hb, w.Authentic rt m hb ∧
          (∀ r, w.sensors.get? hb.sensorUuid = some r → r.tenant = hb.tenant) ∧
          (w.ingest rt m).sensors =
            w.sensors.put (hb.row (w.sensors.get? hb.sensorUuid) true m.receivedAt)) ∨
        ((w.ingest rt m).sensors = w.sensors ∧ ∀ hb, w.Authentic rt m hb →
          ∃ r, w.sensors.get? hb.sensorUuid = some r ∧ r.tenant ≠ hb.tenant)) := by
  unfold World.ingest
  rw [if_pos hrun]
  split
  · next hnull =>
    refine ⟨hrun, rfl, Or.inr ⟨rfl, fun hb hauth => ?_⟩⟩
    exact absurd (Json.eq_of_beq hnull) (claimed_of_heartbeat? hauth.1).2.2
  · rcases @verifyProducer_spec rt w.enrollments m.principal m.value hm.principal with
      ⟨hverdict, hclaims⟩ | ⟨hverdict, hclaims⟩
    · have htrue : decide (Verdict.verified = .verified) = true := rfl
      rw [hverdict]
      dsimp only
      cases hhb : heartbeat? rt m.value with
      | none =>
        rw [upsertHeartbeat, hhb]
        refine ⟨hrun, rfl, Or.inr ⟨rfl, fun hb hauth => ?_⟩⟩
        rw [hauth.1] at hhb
        cases hhb
      | some hb =>
        have hauth : w.Authentic rt m hb := (authentic_iff hhb).mpr hclaims
        rcases @upsertHeartbeat_spec rt hb w.sensors m.value hhb (hm.versions hb hhb) true
          m.receivedAt with ⟨hown, hstored⟩ | ⟨hother, hdropped⟩
        · rw [htrue, hstored]
          exact ⟨hrun, rfl, Or.inl ⟨hb, hauth, hown, rfl⟩⟩
        · rw [htrue, hdropped]
          refine ⟨hrun, rfl, Or.inr ⟨rfl, fun hb' hauth' => ?_⟩⟩
          obtain rfl := Option.some.inj (hhb.symm.trans hauth'.1)
          exact hother
    · rw [hverdict]
      refine ⟨hrun, rfl, Or.inr ⟨rfl, fun hb hauth => ?_⟩⟩
      obtain ⟨e, he⟩ := (authentic_iff hauth.1).mp hauth
      exact absurd he (hclaims e)

theorem wrote_row (hb : Heartbeat) (old : Option SensorRow) (m : Message) :
    hb.Wrote m (hb.row old true m.receivedAt) := ⟨rfl, rfl, rfl, rfl, rfl, rfl, rfl, rfl, rfl⟩

/-- No message changes the enrollment's columns, or removes a row. -/
theorem sameEnrollment_ingest (hrun : w.running = true) (hm : m.Bindable rt) {uuid : String}
    {r : SensorRow} (hr : w.sensors.get? uuid = some r) :
    ∃ r', (w.ingest rt m).sensors.get? uuid = some r' ∧ r.SameEnrollment r' := by
  rcases (ingest_cases hrun hm).2.2 with ⟨hb, -, -, heq⟩ | ⟨heq, -⟩
  · rw [heq, Registry.get?_put]
    split
    · next huuid =>
      have hold : w.sensors.get? hb.sensorUuid = some r := by
        rw [← hr, ← huuid]
        rfl
      exact ⟨_, rfl, by rw [hold]; exact ⟨rfl, rfl, rfl, rfl⟩⟩
    · exact ⟨r, hr, rfl, rfl, rfl, rfl⟩
  · rw [heq]
    exact ⟨r, hr, rfl, rfl, rfl, rfl⟩

end Round

/-! ### Runs -/

section Run

variable {rt : Runtime} {es pre post : List Event} {m : Message}

/-- Every message of the run can be bound. -/
def AllBindable (rt : Runtime) (es : List Event) : Prop := ∀ m, .message m ∈ es → m.Bindable rt

theorem run_message (rt : Runtime) (pre : List Event) (m : Message) :
    run rt (pre ++ [.message m]) = (run rt pre).ingest rt m := Machine.run_snoc _ _ _ _

theorem running_run (h : AllBindable rt es) : (run rt es).running = true := by
  induction es using List.reverseRecOn with
  | nil => rfl
  | append_singleton es e ih =>
    have hes : (run rt es).running = true := ih fun m hm => h m (List.mem_append_left _ hm)
    cases e with
    | enroll principal sensorUuid tenant =>
      rw [run, Machine.run_snoc]
      exact hes
    | message m =>
      rw [run_message]
      exact (ingest_cases hes (h m (by simp))).1

/-- The message of a run that can be bound finds the loop running. -/
theorem ingest_cases_run (h : AllBindable rt es) (heq : es = pre ++ .message m :: post) :
    (run rt pre).running = true ∧ m.Bindable rt := by
  subst heq
  exact ⟨running_run fun m' hm' => h m' (List.mem_append_left _ hm'), h m (by simp)⟩

theorem sensors_enroll (rt : Runtime) (es : List Event) (principal sensorUuid tenant : String) :
    (run rt (es ++ [.enroll principal sensorUuid tenant])).sensors = (run rt es).sensors := by
  rw [run, Machine.run_snoc]
  rfl

/-- A row that is still there was not written since. -/
theorem LastWritten.snoc {r : SensorRow} (h : LastWritten rt es r) {e : Event}
    (hr : (run rt (es ++ [e])).sensors.get? r.sensorUuid = some r) : LastWritten rt (es ++ [e]) r := by
  obtain ⟨pre, m, post, hb, rfl, hauth, hwrote, hkept⟩ := h
  refine ⟨pre, m, post ++ [e], hb, by simp, hauth, hwrote, fun mid hmid => ?_⟩
  rcases List.prefix_concat_iff.mp hmid with rfl | hmid
  · simpa using hr
  · exact hkept mid hmid

/-- Every row was written by an authentic heartbeat. -/
theorem lastWritten_run (h : AllBindable rt es) {uuid : String} {r : SensorRow}
    (hr : (run rt es).sensors.get? uuid = some r) : LastWritten rt es r := by
  induction es using List.reverseRecOn generalizing uuid r with
  | nil => cases hr
  | append_singleton es e ih =>
    have huuid : r.sensorUuid = uuid := Registry.keyOf_of_get? hr
    have hes : AllBindable rt es := fun m hm => h m (List.mem_append_left _ hm)
    -- a row that was there before
    have hold : (run rt es).sensors.get? uuid = some r → LastWritten rt (es ++ [e]) r :=
      fun hr' => (ih hes hr').snoc (by rw [huuid]; exact hr)
    cases e with
    | enroll principal sensorUuid tenant =>
      rw [sensors_enroll] at hr
      exact hold hr
    | message m =>
      rw [run_message] at hr
      rcases (ingest_cases (running_run hes) (h m (by simp))).2.2 with
        ⟨hb, hauth, -, heq⟩ | ⟨heq, -⟩
      · rw [heq, Registry.get?_put] at hr
        split at hr
        · obtain rfl := Option.some.inj hr
          refine ⟨es, m, [], hb, rfl, hauth, wrote_row hb _ m, fun mid hmid => ?_⟩
          rw [List.prefix_nil.mp hmid, run_message, heq]
          exact Registry.get?_put_self _ _
        · exact hold hr
      · rw [heq] at hr
        exact hold hr

/-- **What is in the inventory** after any run of enrollments and messages. -/
theorem inventory_verified (rt : Runtime) (es : List Event) (h : AllBindable rt es) :
    Verified rt es ∧ OwnStored rt es := by
  refine ⟨⟨running_run h, ?_, ?_, ?_⟩, ?_⟩
  · intro r hr
    have hget : (run rt es).sensors.get? r.sensorUuid = some r := Registry.get?_eq_some.mpr ⟨hr, rfl⟩
    exact lastWritten_run h hget
  · intro pre m post heq hnone
    obtain ⟨hrun, hm⟩ := ingest_cases_run h heq
    rw [run_message]
    rcases (ingest_cases hrun hm).2.2 with ⟨hb, hauth, -⟩ | ⟨hsame, -⟩
    · exact absurd hauth (hnone hb)
    · exact hsame
  · intro pre m post heq uuid r hr
    obtain ⟨hrun, hm⟩ := ingest_cases_run h heq
    rw [run_message]
    exact sameEnrollment_ingest hrun hm hr
  · intro pre m post hb heq hauth hown
    obtain ⟨hrun, hm⟩ := ingest_cases_run h heq
    rw [Stored, run_message]
    rcases (ingest_cases hrun hm).2.2 with ⟨hb', hauth', -, hput⟩ | ⟨-, hother⟩
    · obtain rfl := Option.some.inj (hauth'.1.symm.trans hauth.1)
      exact ⟨_, by rw [hput]; exact Registry.get?_put_self _ _, wrote_row hb' _ m⟩
    · obtain ⟨r, hr, hne⟩ := hother hb hauth
      exact absurd (hown r hr) hne

end Run

/-! ### A sensor that is enrolled anew -/

def plainRuntime : Runtime := ⟨fun _ => true, fun _ => none, 1000⟩

/-- A heartbeat as a sensor agent sends it. -/
def sampleHeartbeat (tenant : String) : Message where
  principal := some "spiffe://ndr/s1"
  value := .obj [("schema_version", .str "sensor-health.v1"), ("sensor_uuid", .str "s1"),
    ("tenant", .str tenant), ("site", .str "dc1"), ("observed_at", .str "2026-01-01T00:00:00Z"),
    ("versions", .obj [("agent", .str "1.0")])]
  receivedAt := 0

/-- The sensor is moved from tenant `A` to tenant `B`. -/
def movedEvents : List Event :=
  [.enroll "spiffe://ndr/s1" "s1" "A", .message (sampleHeartbeat "A"),
    .enroll "spiffe://ndr/s1" "s1" "B", .message (sampleHeartbeat "B")]

theorem heartbeat?_sampleHeartbeat : ∀ tenant ∈ ["A", "B"],
    heartbeat? plainRuntime (sampleHeartbeat tenant).value =
      some ⟨"s1", tenant, "dc1", "2026-01-01T00:00:00Z", [("agent", .str "1.0")], none, none⟩ := by
  intro tenant h
  simp only [List.mem_cons, List.not_mem_nil, or_false] at h
  rcases h with rfl | rfl <;> rfl

theorem bindable_movedEvents : AllBindable plainRuntime movedEvents := by
  intro m hm
  have htenant : ∃ tenant ∈ ["A", "B"], m = sampleHeartbeat tenant := by
    simpa [movedEvents] using hm
  obtain ⟨tenant, htenant, rfl⟩ := htenant
  refine ⟨fun _ _ => rfl, fun hb hhb => ?_⟩
  obtain rfl := Option.some.inj ((heartbeat?_sampleHeartbeat tenant htenant).symm.trans hhb)
  show (Json.obj [("agent", .str "1.0")]).depth ≤ 1000
  decide +kernel

/-- The first heartbeat is stored, the second one is not: the row of tenant `A`
    stays. -/
theorem moved_sensor_refused : AllBindable plainRuntime movedEvents ∧
    ¬ AllStored plainRuntime movedEvents := by
  refine ⟨bindable_movedEvents, fun hall => ?_⟩
  obtain ⟨r, hr, hwrote⟩ := hall (movedEvents.take 3) (sampleHeartbeat "B") [] _ rfl
    ⟨heartbeat?_sampleHeartbeat "B" (by simp), "spiffe://ndr/s1", rfl, by decide, by decide +kernel⟩
  have hkept : ((run plainRuntime movedEvents).sensors.get? "s1").map SensorRow.tenant = some "A" := by
    decide +kernel
  have hmoved : movedEvents.take 3 ++ [.message (sampleHeartbeat "B")] = movedEvents := rfl
  rw [hmoved] at hr
  rw [hr, Option.map_some, hwrote.tenant] at hkept
  exact absurd (Option.some.inj hkept) (by decide)

theorem inventory_verified_once :
    Verified plainRuntime movedEvents ∧ OwnStored plainRuntime movedEvents :=
  inventory_verified _ _ bindable_movedEvents

end SensorRegistry
