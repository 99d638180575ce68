import CernityNdr.Capture.Arm
import CernityNdr.Capture.Budget
import CernityNdr.Capture.Keys

/-! # The Reservation of a Preserve

    The model of the two callers of `Budget.reserve`: `preserve` of
    `services/capture-agent/agent.py`, and `_handle_preserve` with
    `decide_preserve` of `services/capture-orchestrator`. Each reserves,
    works, and gives the reservation back when it fails; any call that they
    make may raise.

    * `reservation_kept_iff`: a reservation stays behind exactly when the
      write of the state file raises in `reserve`. -/

namespace Preserve

open ObjectKeys (Digest)
open CaptureOrchestrator (healthGate)

/-! ### Directives -/

/-- A preserve directive. -/
structure Directive extends Doc where
  findingId : String
  value : String
  policyId : String
  windowStart : ℚ
  windowEnd : ℚ
  maxDuration : Nat
  retention : Nat
  expiresAt : ℚ

/-- What a caller raises. -/
inductive Failure
  /-- a call of another component raises -/
  | raised
  | versionedBucket
  | noLifecycle
  | diskPressure
  | notReserved (o : Outcome)
  | noPackets
  | sliceSize
  | unmeasured
  | unhealthy (reason : String)
deriving DecidableEq

/-- A call of another component; `none` where it raises. -/
def require {α : Type} (call : Option α) : Except Failure α := call.elim (.error .raised) .ok

/-! ### The agent -/

abbrev Bytes := List UInt8

/-- What the lifecycle check reads of a rule of the bucket. -/
structure LifecycleRule where
  status : String
  /-- its filter is the tag of preserved objects -/
  ofPreserved : Bool
  /-- `Expiration.Days`, when it is an integer -/
  days : Option Int

structure Coverage where
  selectedPackets : Nat
  truncated : Bool
  ringDrops : Nat

/-- The policy of a ring. -/
structure RingPolicy extends Policy where
  minFreeBytes : Nat
  interface : Option String

/-- What the calls of `preserve` return. -/
structure AgentCalls where
  now : ℚ
  auditRequest : Option Unit
  authorize : Option Unit
  /-- the `Status` of the versioning of the bucket -/
  versioning : Option (Option String)
  lifecycle : Option (List LifecycleRule)
  freeBytes : Option Nat
  clock : ℚ
  reserving : Saving
  slice : Option (Bytes × Coverage)
  carve : Bytes → Option Bytes
  auditAttempt : Option Unit
  put : Option Unit
  auditSuccess : Option Unit
  auditFailed : Option Unit
  finishing : Saving

/-- The status that `preserve` returns. -/
structure Preserved where
  directive : Directive
  pcapRef : List Char
  bytes : Nat
  sha256 : List Char
  coverage : Coverage
  latency : ℚ
  interface : Option String
  expiresAt : ℚ

/-- The lifecycle expires preserved objects in time. -/
def LifecycleRule.expires (rule : LifecycleRule) (retention : Nat) : Bool :=
  rule.status = "Enabled" && rule.ofPreserved &&
    rule.days.any fun (days : Int) => 0 < days * 86400 && days * 86400 ≤ (retention : Int)

/-- What `preserve` checks before it reserves. -/
def checks (d : Directive) (policy : RingPolicy) (c : AgentCalls) : Except Failure Unit := do
  require c.authorize
  let status ← require c.versioning
  if status = some "Enabled" ∨ status = some "Suspended" then throw .versionedBucket
  let rules ← require c.lifecycle
  if (rules.filter fun rule => rule.expires d.retention).isEmpty then throw .noLifecycle
  let free ← require c.freeBytes
  if free < policy.minFreeBytes + d.maxBytes then throw .diskPressure

variable (sha256 : Digest)

/-- The object key of a directive. -/
def Directive.key (d : Directive) : List Char :=
  CaptureAgent.pcapKey sha256
    ⟨some d.tenantId, some (String.ofList (sha256.hexdigest (ObjectKeys.encode d.requestId))),
      some "preserve", none, none⟩

/-- What `preserve` does with its reservation. -/
def upload (d : Directive) (policy : RingPolicy) (c : AgentCalls) : Except Failure Preserved := do
  let (data, coverage) ← require c.slice
  if coverage.selectedPackets = 0 then throw .noPackets
  let data ← require (c.carve data)
  if ¬ (24 < data.length ∧ data.length ≤ d.maxBytes) then throw .sliceSize
  require c.auditAttempt
  require c.put
  require c.auditSuccess
  pure ⟨d, d.key sha256, data.length, sha256.hexdigest data, coverage, c.now - d.windowEnd,
    policy.interface, c.now + d.retention⟩

/-- The `try` of `preserve`, and `reserved`. -/
def attempt (b : Budget) (d : Directive) (policy : RingPolicy) (c : AgentCalls) :
    Except Failure Preserved × Budget × Bool :=
  match checks d policy c with
  | .error e => (.error e, b, false)
  | .ok () =>
    match b.reserve d.toDoc policy.toPolicy c.clock c.reserving with
    | (.admitted, b) => (upload sha256 d policy c, b, true)
    | (o, b) => (.error (.notReserved o), b, false)

/-- The `except`: it audits the failure, which may raise itself. -/
def failing (c : AgentCalls) (res : Except Failure Preserved) : Except Failure Preserved :=
  match res with
  | .ok r => .ok r
  | .error e => (require c.auditFailed).bind fun _ => .error e

/-- `preserve`. -/
def preserve (b : Budget) (d : Directive) (policy : RingPolicy) (c : AgentCalls) :
    Except Failure Preserved × Budget :=
  match c.auditRequest with
  | none => (.error .raised, b)
  | some () =>
    match attempt sha256 b d policy c with
    -- the `finally`
    | (res, b, true) =>
      (if c.finishing = .done then failing c res else .error .raised,
        b.finish d.toDoc c.finishing)
    | (res, b, false) => (failing c res, b)

/-! ### The orchestrator -/

/-- What a preserve request has; `authorize` raises for a field that is
    missing or no text. -/
structure Intent where
  tenantId : String
  sensorId : String
  findingId : String
  value : String
  triggerTs : Option ℚ

/-- The policy of a sensor. -/
structure SensorPolicy extends Policy where
  enabled : Bool
  tenantId : String
  policyId : String
  maxLossPct : ℚ
  maxCpuPct : ℚ
  lookback : ℚ
  maxBytes : Nat
  maxDuration : Nat
  retention : Nat

/-- A health snapshot; `none` for a reading that is no number. -/
structure Snapshot where
  measured : Bool
  cpuPct : Option ℚ
  packetLossPct : Option ℚ

/-- What the calls of `_handle_preserve` return. -/
structure GateCalls where
  now : ℚ
  auditRequest : Option Unit
  health : Snapshot
  authorize : Option Unit
  clock : ℚ
  reserving : Saving
  auditAllowed : Option Unit
  send : Option Unit
  finishing : Saving
  auditRefused : Option Unit
  sendStatus : Option Unit

/-- A reading between 0 and 100. -/
def percentage (reading : Option ℚ) : Except Failure ℚ :=
  match reading with
  | some x => if 0 ≤ x ∧ x ≤ 100 then .ok x else .error .unmeasured
  | none => .error .unmeasured

/-- The directive that the orchestrator makes of a request. -/
def Intent.directive (req : Intent) (policy : SensorPolicy) (now : ℚ) : Directive :=
  let trigger := req.triggerTs.getD now
  { tenantId := req.tenantId
    sensorId := req.sensorId
    requestId := String.ofList (sha256.hexdigest (ObjectKeys.encode (String.ofList (Json.compact
      (.arr [.str req.tenantId, .str req.sensorId, .str req.findingId, .str policy.policyId])))))
    maxBytes := policy.maxBytes
    findingId := req.findingId
    value := req.value
    policyId := policy.policyId
    windowStart := trigger - policy.lookback
    windowEnd := trigger
    maxDuration := policy.maxDuration
    retention := policy.retention
    expiresAt := min (trigger + 300) (now + 60) }

/-- The gates of `decide_preserve`. -/
def gates (policy : SensorPolicy) (c : GateCalls) : Except Failure Unit := do
  if !c.health.measured then throw .unmeasured
  let cpu ← percentage c.health.cpuPct
  let loss ← percentage c.health.packetLossPct
  match healthGate ⟨loss, cpu⟩ ⟨policy.maxLossPct, policy.maxCpuPct⟩ with
  | (true, _) => pure ()
  | (false, reason) => throw (.unhealthy reason)
  require c.authorize

/-- `decide_preserve`. -/
def decidePreserve (b : Budget) (req : Intent) (policy : SensorPolicy) (c : GateCalls) :
    Except Failure Directive × Budget :=
  match gates policy c with
  | .error e => (.error e, b)
  | .ok () =>
    let d := req.directive sha256 policy c.now
    match b.reserve d.toDoc policy.toPolicy c.clock c.reserving with
    | (.admitted, b) => (.ok d, b)
    | (o, b) => (.error (.notReserved o), b)

/-- The policy with the smallest tenant limit of the enabled policies of the
    tenant. -/
def SensorPolicy.ofTenant (policy : SensorPolicy) (policies : List SensorPolicy)
    (req : Intent) : SensorPolicy :=
  match ((policies.filter fun p => p.enabled && p.tenantId = req.tenantId).map
      fun p => p.tenantBytesPerHour).min? with
  | none => policy
  | some limit => { policy with tenantBytesPerHour := limit }

/-- What `_handle_preserve` leaves: the budget, the directive that it sent,
    and whether it raised. -/
structure GateHandled where
  budget : Budget
  sent : Option Directive
  raised : Bool

/-- The `except` of `_handle_preserve`, after the reservation is given back. -/
def refuse (b : Budget) (c : GateCalls) : GateHandled :=
  ⟨b, none, (c.auditRefused.bind fun _ => c.sendStatus).isNone⟩

/-- `_handle_preserve`. -/
def handlePreserve (b : Budget) (req : Intent) (policies : List SensorPolicy)
    (policy : SensorPolicy) (c : GateCalls) : GateHandled :=
  match c.auditRequest with
  | none => ⟨b, none, true⟩
  | some () =>
    match decidePreserve sha256 b req (policy.ofTenant policies req) c with
    | (.error _, b) => refuse b c
    | (.ok d, b) =>
      match c.auditAllowed.bind fun _ => c.send with
      | some () => ⟨b, some d, false⟩
      | none =>
        if c.finishing = .done then refuse (b.finish d.toDoc c.finishing) c
        else ⟨b.finish d.toDoc c.finishing, none, true⟩

/-! ### What stays reserved -/

/-- A reservation for the directive is active. -/
def Budget.Active (b : Budget) (doc : Doc) : Prop :=
  ∃ item, b.entries.get? doc.key = some item ∧ item.active = true

/-- No reservation for the directive stays active that was not so before. -/
def Released (doc : Doc) (before after : Budget) : Prop := after.Active doc → before.Active doc

/-- The reservation fits the budget, and writing the state file raises. -/
structure Unwritten (b : Budget) (doc : Doc) (policy : Policy) (now : ℚ) (saving : Saving) :
    Prop where
  fresh : (b.entries.prune now).get? doc.key = none
  room : (b.entries.prune now).exhausted doc policy = false
  raises : saving ≠ .done

section Reserve

variable {b b' : Budget} {doc : Doc} {policy : Policy} {now : ℚ} {saving : Saving}

theorem active_of_prune {item : Entry} (h : (b.entries.prune now).get? doc.key = some item)
    (hactive : item.active = true) : b.Active doc :=
  ⟨item, (Registry.get?_filter_eq_some.mp h).1, hactive⟩

/-- An active reservation does not expire. -/
theorem not_active_of_fresh (h : (b.entries.prune now).get? doc.key = none) : ¬ b.Active doc := by
  rintro ⟨item, hitem, hactive⟩
  have hkept : (b.entries.prune now).get? doc.key = some item :=
    Registry.get?_filter_eq_some.mpr ⟨hitem, by rw [hactive, Bool.true_or]⟩
  rw [h] at hkept
  cases hkept

theorem entries_save (b : Budget) (saving : Saving) : (b.save saving).entries = b.entries :=
  (save_cases b saving).1

/-- `reserve` admits, refuses, or leaves a reservation that it does not report. -/
theorem reserve_outcomes (b : Budget) (doc : Doc) (policy : Policy) (now : ℚ) (saving : Saving) :
    ((b.reserve doc policy now saving).1 = .admitted ∧
      (b.reserve doc policy now saving).2.entries.get? doc.key = some (doc.entry now) ∧
      ¬ b.Active doc ∧ saving = .done) ∨
    ((b.reserve doc policy now saving).1 ≠ .admitted ∧
      (b.reserve doc policy now saving).2.entries = b.entries.prune now ∧
      ¬ Unwritten b doc policy now saving) ∨
    ((b.reserve doc policy now saving).1 ≠ .admitted ∧
      (b.reserve doc policy now saving).2.entries.get? doc.key = some (doc.entry now) ∧
      Unwritten b doc policy now saving) := by
  unfold Budget.reserve
  dsimp only
  by_cases hthere : ((b.entries.prune now).get? doc.key).isSome
  · rw [if_pos hthere]
    refine Or.inr (Or.inl ⟨nofun, rfl, fun h => ?_⟩)
    rw [h.fresh] at hthere
    cases hthere
  · rw [if_neg hthere]
    have hfresh := Option.not_isSome_iff_eq_none.mp hthere
    by_cases hfull : (b.entries.prune now).exhausted doc policy = true
    · rw [if_pos hfull]
      refine Or.inr (Or.inl ⟨nofun, rfl, fun h => ?_⟩)
      rw [h.room] at hfull
      cases hfull
    · rw [if_neg hfull]
      have hget : ((b.entries.prune now).put (doc.entry now)).get? doc.key = some (doc.entry now) :=
        Registry.get?_put_self _ (doc.entry now)
      by_cases hsaving : saving = .done
      · rw [if_pos hsaving, entries_save]
        exact Or.inl ⟨rfl, hget, not_active_of_fresh hfresh, hsaving⟩
      · rw [if_neg hsaving, entries_save]
        exact Or.inr (Or.inr ⟨nofun, hget, hfresh, Bool.eq_false_of_not_eq_true hfull, hsaving⟩)

/-- `reserve` that does not admit leaves an active reservation exactly when
    it was not written. -/
theorem released_refused_iff (hout : (b.reserve doc policy now saving).1 ≠ .admitted) :
    Released doc b (b.reserve doc policy now saving).2 ↔ ¬ Unwritten b doc policy now saving := by
  rcases reserve_outcomes b doc policy now saving with ⟨hadmitted, -⟩ | ⟨-, hentries, hwritten⟩ |
    ⟨-, hget, hunwritten⟩
  · exact absurd hadmitted hout
  · refine ⟨fun _ => hwritten, ?_⟩
    rintro - ⟨item, hitem, hactive⟩
    rw [hentries] at hitem
    exact active_of_prune hitem hactive
  · refine ⟨fun h => ?_, fun h => absurd hunwritten h⟩
    exact absurd (h ⟨_, hget, rfl⟩) (not_active_of_fresh hunwritten.fresh)

/-- `reserve` that does not admit leaves the entries that have not expired,
    exactly when no reservation was left unwritten. -/
theorem entries_refused_iff :
    ((b.reserve doc policy now saving).1 ≠ .admitted →
      (b.reserve doc policy now saving).2.entries = b.entries.prune now) ↔
        ¬ Unwritten b doc policy now saving := by
  rcases reserve_outcomes b doc policy now saving with ⟨hadmitted, -, -, hdone⟩ |
    ⟨-, hentries, hwritten⟩ | ⟨hout, hget, hunwritten⟩
  · exact ⟨fun _ h => h.raises hdone, fun _ hout => absurd hadmitted hout⟩
  · exact ⟨fun _ => hwritten, fun _ _ => hentries⟩
  · refine ⟨fun h => ?_, fun h => absurd hunwritten h⟩
    have hfresh := hunwritten.fresh
    rw [← h hout, hget] at hfresh
    cases hfresh

theorem written_of_admitted (hout : (b.reserve doc policy now saving).1 = .admitted) :
    ¬ Unwritten b doc policy now saving := by
  rcases reserve_outcomes b doc policy now saving with ⟨-, -, -, hdone⟩ | ⟨hne, -⟩ | ⟨hne, -⟩
  · exact fun h => h.raises hdone
  · exact absurd hout hne
  · exact absurd hout hne

/-- What was admitted is given back. -/
theorem not_active_finish (hout : (b.reserve doc policy now saving).1 = .admitted)
    (finishing : Saving) :
    ¬ ((b.reserve doc policy now saving).2.finish doc finishing).Active doc := by
  rcases reserve_outcomes b doc policy now saving with ⟨-, hget, -⟩ | ⟨hne, -⟩ | ⟨hne, -⟩
  · rintro ⟨item, hitem, hactive⟩
    rw [Budget.finish, hget] at hitem
    simp only [Doc.entry, if_true, entries_save] at hitem
    rw [show doc.key = Entry.key ⟨now, false, doc.sensorId, doc.tenantId, doc.requestId, doc.maxBytes⟩
      from rfl, Registry.get?_put_self] at hitem
    cases hitem
    cases hactive
  · exact absurd hout hne
  · exact absurd hout hne

end Reserve

/-! ### The callers -/

/-- `preserve` comes to `reserve`, which does not write its reservation. -/
def AgentUnwritten (b : Budget) (d : Directive) (policy : RingPolicy) (c : AgentCalls) : Prop :=
  c.auditRequest = some () ∧ checks d policy c = .ok () ∧
    Unwritten b d.toDoc policy.toPolicy c.clock c.reserving

/-- `_handle_preserve` comes to `reserve`, which does not write its
    reservation. -/
def GateUnwritten (sha256 : Digest) (b : Budget) (req : Intent) (policy : SensorPolicy)
    (c : GateCalls) : Prop :=
  c.auditRequest = some () ∧ gates policy c = .ok () ∧
    Unwritten b (req.directive sha256 policy c.now).toDoc policy.toPolicy c.clock c.reserving

variable {sha256}

theorem released_preserve_iff (b : Budget) (d : Directive) (policy : RingPolicy) (c : AgentCalls) :
    Released d.toDoc b (preserve sha256 b d policy c).2 ↔ ¬ AgentUnwritten b d policy c := by
  unfold preserve AgentUnwritten
  cases haudit : c.auditRequest with
  | none => simp [Released]
  | some u =>
    unfold attempt
    cases hchecks : checks d policy c with
    | error e => simp [Released]
    | ok u =>
      simp only [true_and]
      have hrefused := @released_refused_iff b d.toDoc policy.toPolicy c.clock c.reserving
      have hfinished := fun hout => @not_active_finish b d.toDoc policy.toPolicy c.clock c.reserving
        hout c.finishing
      have hwritten := @written_of_admitted b d.toDoc policy.toPolicy c.clock c.reserving
      generalize b.reserve d.toDoc policy.toPolicy c.clock c.reserving = res at *
      obtain ⟨o, b'⟩ := res
      cases o with
      | admitted => exact ⟨fun _ => hwritten rfl, fun _ h => absurd h (hfinished rfl)⟩
      | duplicate => exact hrefused nofun
      | exhausted => exact hrefused nofun
      | notSaved => exact hrefused nofun

/-- The directive was sent, or nothing stays reserved for it. -/
theorem released_handlePreserve_iff (b : Budget) (req : Intent) (policies : List SensorPolicy)
    (policy : SensorPolicy) (c : GateCalls) :
    ((handlePreserve sha256 b req policies policy c).sent = none →
      Released (req.directive sha256 (policy.ofTenant policies req) c.now).toDoc b
        (handlePreserve sha256 b req policies policy c).budget) ↔
      ¬ GateUnwritten sha256 b req (policy.ofTenant policies req) c := by
  unfold handlePreserve GateUnwritten
  generalize policy.ofTenant policies req = p
  cases haudit : c.auditRequest with
  | none => simp [Released]
  | some u =>
    unfold decidePreserve
    cases hgates : gates p c with
    | error e => simp [Released, refuse]
    | ok u =>
      simp only [true_and]
      generalize req.directive sha256 p c.now = d
      have hrefused := @released_refused_iff b d.toDoc p.toPolicy c.clock c.reserving
      have hfinished := fun hout => @not_active_finish b d.toDoc p.toPolicy c.clock c.reserving
        hout c.finishing
      have hwritten := @written_of_admitted b d.toDoc p.toPolicy c.clock c.reserving
      generalize b.reserve d.toDoc p.toPolicy c.clock c.reserving = res at *
      obtain ⟨o, b'⟩ := res
      cases o with
      | duplicate => simpa [refuse] using hrefused nofun
      | exhausted => simpa [refuse] using hrefused nofun
      | notSaved => simpa [refuse] using hrefused nofun
      | admitted =>
        refine ⟨fun _ => hwritten rfl, fun _ => ?_⟩
        simp only
        cases hsend : c.auditAllowed.bind fun _ => c.send with
        | some u => intro h; cases h
        | none =>
          -- the reservation is given back, also when that raises
          intro _ h
          by_cases hdone : c.finishing = .done
          · simp only [hdone, if_true, refuse] at h
            exact absurd h (hdone ▸ hfinished rfl)
          · simp only [if_neg hdone] at h
            exact absurd h (hfinished rfl)

/-- **Preserve reservations do not leak**, exactly when `reserve` does not
    raise in writing the state file: what the agent leaves reserved, what the
    orchestrator leaves reserved for a directive that it did not send, and
    what a `reserve` that raises leaves to be counted. -/
theorem reservation_kept_iff (sha256 : Digest) (b : Budget) :
    (∀ d policy c, Released d.toDoc b (preserve sha256 b d policy c).2 ↔
      ¬ AgentUnwritten b d policy c) ∧
    (∀ req policies policy c, ((handlePreserve sha256 b req policies policy c).sent = none →
      Released (req.directive sha256 (policy.ofTenant policies req) c.now).toDoc b
        (handlePreserve sha256 b req policies policy c).budget) ↔
      ¬ GateUnwritten sha256 b req (policy.ofTenant policies req) c) ∧
    (∀ doc policy now saving, ((b.reserve doc policy now saving).1 ≠ .admitted →
      (b.reserve doc policy now saving).2.entries = b.entries.prune now) ↔
      ¬ Unwritten b doc policy now saving) :=
  ⟨released_preserve_iff b, released_handlePreserve_iff b, fun _ _ _ _ => entries_refused_iff⟩

/-- A directive of a sensor, for use in examples. -/
def sampleDirective : Directive :=
  { tenantId := "acme", requestId := "r1", sensorId := "s1", maxBytes := 4096, findingId := "f1"
    value := "10.0.0.1", policyId := "p1", windowStart := 10, windowEnd := 20, maxDuration := 60
    retention := 86400, expiresAt := 100 }

def samplePolicy : RingPolicy :=
  { maxJobs := 1, requestsPerHour := 10, bytesPerHour := 10000, tenantBytesPerHour := 10000
    minFreeBytes := 0, interface := some "eth0" }

/-- Everything works but the write of the state file. -/
def fullDisk : AgentCalls where
  now := 30
  auditRequest := some ()
  authorize := some ()
  versioning := some none
  lifecycle := some [⟨"Enabled", true, some 1⟩]
  freeBytes := some 1000000
  clock := 30
  reserving := .failed
  slice := some ([], ⟨1, false, 0⟩)
  carve := fun data => some data
  auditAttempt := some ()
  put := some ()
  auditSuccess := some ()
  auditFailed := some ()
  finishing := .done

/-- The state file cannot be written. The directive fails, and its
    reservation stays active. -/
theorem full_disk_leaks :
    ¬ Released sampleDirective.toDoc .init
        (preserve ObjectKeys.sampleDigest .init sampleDirective samplePolicy fullDisk).2 ∧
      ¬ ((Budget.init.reserve sampleDirective.toDoc samplePolicy.toPolicy 30 .failed).1 ≠ .admitted →
        (Budget.init.reserve sampleDirective.toDoc samplePolicy.toPolicy 30 .failed).2.entries =
          Budget.init.entries.prune 30) := by
  have hunwritten : Unwritten .init sampleDirective.toDoc samplePolicy.toPolicy 30 .failed :=
    ⟨rfl, rfl, nofun⟩
  constructor
  · intro h
    exact (released_preserve_iff _ _ _ _).mp h ⟨rfl, rfl, hunwritten⟩
  · intro h
    exact entries_refused_iff.mp h hunwritten

end Preserve
