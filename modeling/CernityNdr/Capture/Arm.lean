import Mathlib.Algebra.Order.Ring.Rat
import CernityNdr.Framework.CappedMap
import CernityNdr.Framework.Json
import CernityNdr.Framework.Pending
import CernityNdr.Framework.Run
import CernityNdr.Objects.Keys

/-! # The Central Arm Budget

    The model of `_handle_request` and `_handle_completion` of
    `services/capture-orchestrator/app.py`, of its gates, and of the statuses
    that an agent posts for an arm directive. An exception ends `main`, and
    with it the process.

    A status does not name the directive it answers. The model records it
    beside the status, for the statements only: no handler reads it. Texts are
    UTF-8.

    * `budgetHolds_step_iff`: what one step does to an exact budget.
    * `arm_budget_iff`: the budget holds in every state of a run exactly when
      every status that frees a job answers a directive for the first time,
      and no directive is lost after its job was counted. -/

namespace CaptureOrchestrator

open CappedMap (FieldMap)
open ObjectKeys (Digest tenantSegment namespaceOf)
open Pending (issue settle pending IsOpen)

/-! ### Gates -/

structure Health where
  packetLossPct : ℚ
  cpuPct : ℚ

structure Thresholds where
  maxLossPct : ℚ
  maxCpuPct : ℚ

structure Limits where
  maxJobs : Int
  maxBytes : Int

/-- The entry of a sensor in `_budget`. -/
structure Counters where
  activeJobs : Nat
  bytesCaptured : Int

abbrev Budget := FieldMap String Counters

/-- What `_budget` has of a sensor, or starts it with. -/
def Budget.of (b : Budget) (sensor : String) : Counters := (b.lookup sensor).getD ⟨0, 0⟩

/-- `MANIFEST`. -/
def MANIFEST : List String := ["ip", "ja4", "sni", "dns"]

def capabilityGate (profile : String) : Bool × String :=
  if profile ∈ MANIFEST then (true, "ok") else (false, "capability_unavailable")

def healthGate (health : Health) (thr : Thresholds) : Bool × String :=
  if thr.maxLossPct < health.packetLossPct then (false, "packet_loss_over_threshold")
  else if thr.maxCpuPct < health.cpuPct then (false, "cpu_over_threshold")
  else (true, "ok")

def budgetGate (sensor : String) (b : Budget) (limits : Limits) : Bool × String :=
  if limits.maxJobs ≤ (b.of sensor).activeJobs then (false, "max_concurrent_jobs")
  else if limits.maxBytes ≤ (b.of sensor).bytesCaptured then (false, "byte_budget_exhausted")
  else (true, "ok")

/-- `decide_arm`: all gates must pass, in order. -/
def decideArm (sensor profile : String) (health : Health) (b : Budget) (thr : Thresholds)
    (limits : Limits) : Bool × String :=
  let gates := [capabilityGate profile, healthGate health thr, budgetGate sensor b limits]
  match gates.find? fun gate => !gate.1 with
  | some refused => refused
  | none => (true, "armed")

/-! ### Messages -/

/-- A capture request; a field that is absent is `none`. -/
structure Request where
  sensorId : Option String
  mode : Option String
  captureProfile : Option String
  value : Option String
  findingId : Option String
  tenantId : Option String
  ttlSecs : Json
  maxBytes : Json

/-- An arm directive. -/
structure Directive where
  findingId : String
  sensorId : String
  captureProfile : String
  value : String
  pcapRef : List Char
  tenantId : Option String
  ttlSecs : Json
  maxBytes : Json

/-- What `_handle_completion` reads of a status. -/
structure Status where
  sensorId : Option String
  kind : Option String
  state : Option String
  /-- `int(status.get("bytes", 0) or 0)`, `none` where it raises -/
  bytes : Option Int

/-- The sensor whose entry the status moves. -/
def Status.sensor (status : Status) : String := status.sensorId.getD "sensor-1"

/-- A status that frees a job. -/
def Status.isTerminal (status : Status) : Bool :=
  decide (status.kind ≠ some "preserve") &&
    decide (status.state ∈ ["completed", "failed", "rejected", "refused"].map some)

/-- What an agent posts for a directive of its sensor. -/
inductive Answer
  | rejected
  | refused
  | completed (size : Nat)
  | failed
  | lookbackNoData
  | lookbackCompleted (size : Nat)
  | lookbackFailed

def Answer.kind : Answer → Option String
  | .lookbackNoData | .lookbackCompleted _ | .lookbackFailed => some "lookback"
  | _ => none

def Answer.state : Answer → String
  | .rejected => "rejected"
  | .refused => "refused"
  | .completed _ | .lookbackCompleted _ => "completed"
  | .failed | .lookbackFailed => "failed"
  | .lookbackNoData => "no_data"

def Answer.bytes : Answer → Nat
  | .completed size | .lookbackCompleted size => size
  | _ => 0

/-- The status of an answer; an agent answers directives of its sensor only. -/
def Answer.status (sensorId : String) (a : Answer) : Status :=
  ⟨some sensorId, a.kind, some a.state, some a.bytes⟩

/-! ### Handlers -/

/-- `object_key`. -/
def objectKey (sha256 : Digest) (tenant : Option String) (fid value profile : String) : List Char :=
  namespaceOf "ndr-pcap".toList (tenantSegment sha256 tenant) ++
    ((if fid = "" then value else fid).toList ++ '-' :: profile.toList ++ ".pcap".toList)

/-- The settings of the process. -/
structure Config where
  thr : Thresholds
  limits : Limits
  /-- the sensors whose policy in `PRESERVE_POLICIES` is enabled -/
  preserves : String → Bool
  sha256 : Digest

/-- Whether the calls of `producer.send` raise: of the decision and of the
    directive. -/
structure Sends where
  decisionRaises : Bool
  directiveRaises : Bool

def Request.sensor (req : Request) : String := req.sensorId.getD "sensor-1"

def Request.profile (req : Request) : String := req.captureProfile.getD "ip"

/-- The request goes to `_handle_preserve`, which has a budget of its own. -/
def Request.isPreserve (cfg : Config) (req : Request) : Bool :=
  req.sensorId.any cfg.preserves || decide (req.mode = some "preserve")

def Request.directive (cfg : Config) (req : Request) : Directive :=
  let fid := req.findingId.getD ""
  let value := req.value.getD ""
  ⟨fid, req.sensor, req.profile, value,
    objectKey cfg.sha256 req.tenantId fid value req.profile, req.tenantId, req.ttlSecs, req.maxBytes⟩

/-- The decision of the orchestrator on the status topic. -/
def Request.decision (req : Request) : Status := ⟨some req.sensor, none, none, some 0⟩

/-- What a handler leaves: the budget, what it sent, and whether it raised. -/
structure Handled where
  budget : Budget
  decision : Option Status
  directive : Option Directive
  raised : Bool

/-- `_handle_request`. -/
def handleRequest (cfg : Config) (b : Budget) (req : Request) (health : Health) (sends : Sends) :
    Handled :=
  if req.isPreserve cfg then ⟨b, none, none, sends.decisionRaises⟩
  else
    let armed := (decideArm req.sensor req.profile health b cfg.thr cfg.limits).1
    if sends.decisionRaises then ⟨b, none, none, true⟩
    else if !armed then ⟨b, some req.decision, none, false⟩
    else
      let s := b.of req.sensor
      let b := b.put (req.sensor, { s with activeJobs := s.activeJobs + 1 })
      if sends.directiveRaises then ⟨b, some req.decision, none, true⟩
      else ⟨b, some req.decision, some (req.directive cfg), false⟩

/-- `_handle_completion`: the budget, and whether it raised. -/
def handleCompletion (b : Budget) (status : Status) : Budget × Bool :=
  if status.isTerminal then
    let s := b.of status.sensor
    -- a job is freed before the bytes are read
    let s := { s with activeJobs := s.activeJobs - 1 }
    match status.bytes with
    | some n => (b.put (status.sensor, { s with bytesCaptured := s.bytesCaptured + n }), false)
    | none => (b.put (status.sensor, s), true)
  else (b, false)

/-! ### The system -/

/-- A status on the topic, and the number of the directive it answers. -/
structure Posted where
  status : Status
  directive : Option Nat

/-- The process, the directives it sent and the statuses on the topic. A
    directive is settled when an answer to it was consumed. -/
structure World where
  budget : Budget
  ended : Bool
  sent : List (Pending.Entry Directive)
  posted : List Posted

def World.init : World := ⟨.empty, false, [], []⟩

inductive Event
  /-- the process consumes a request -/
  | request (req : Request) (health : Health) (sends : Sends)
  /-- the agent of directive number `i` posts a status for it -/
  | answer (i : Nat) (a : Answer)
  /-- a status that answers no directive of this process -/
  | other (status : Status)
  /-- the process consumes status number `j`, once more or for the first time -/
  | completion (j : Nat)

/-- Whether a status answers its directive; a look-back status may be taken
    for an answer or not. -/
def Status.answers (lookbackAnswers : Bool) (status : Status) : Bool :=
  status.isTerminal && (lookbackAnswers || decide (status.kind ≠ some "lookback"))

/-- The directive that the status answers. -/
def Posted.answered (lookbackAnswers : Bool) (p : Posted) : Option Nat :=
  if p.status.answers lookbackAnswers then p.directive else none

def World.step (cfg : Config) (lookbackAnswers : Bool) (w : World) : Event → World
  | .request req health sends =>
    if w.ended then w
    else
      let r := handleRequest cfg w.budget req health sends
      { budget := r.budget
        ended := r.raised
        sent := r.directive.elim w.sent (issue w.sent)
        posted := w.posted ++ (r.decision.map fun status => ⟨status, none⟩).toList }
  | .answer i a =>
    match w.sent[i]? with
    | some e => { w with posted := w.posted ++ [⟨a.status e.val.sensorId, some i⟩] }
    | none => w
  | .other status => { w with posted := w.posted ++ [⟨status, none⟩] }
  | .completion j =>
    if w.ended then w
    else
      match w.posted[j]? with
      | some p =>
        let (budget, raised) := handleCompletion w.budget p.status
        { w with budget, ended := raised, sent := (p.answered lookbackAnswers).elim w.sent (settle w.sent) }
      | none => w

/-! ### The budget holds -/

/-- The directives to a sensor that are not answered. -/
def World.outstanding (w : World) (sensor : String) : Nat :=
  pending (fun d => decide (d.sensorId = sensor)) w.sent

/-- No more directives are out than jobs are allowed and counted, and no job is
    counted when every directive is answered. -/
structure BudgetHolds (cfg : Config) (w : World) : Prop where
  limited : ∀ sensor, (w.outstanding sensor : Int) ≤ cfg.limits.maxJobs
  counted : ∀ sensor, w.outstanding sensor ≤ (w.budget.of sensor).activeJobs
  freed : ∀ sensor, w.outstanding sensor = 0 → (w.budget.of sensor).activeJobs = 0

/-- A status that frees a job is the first that answers its directive, and a
    directive that is not sent leaves others outstanding. -/
def Accounted (cfg : Config) (lookbackAnswers : Bool) (w : World) : Event → Prop
  | .request req health sends => w.ended = false → req.isPreserve cfg = false →
      sends.decisionRaises = false → sends.directiveRaises = true →
      (decideArm req.sensor req.profile health w.budget cfg.thr cfg.limits).1 = true →
      w.outstanding req.sensor ≠ 0
  | .completion j => w.ended = false → ∀ p ∈ w.posted[j]?, p.status.isTerminal = true →
      (w.budget.of p.status.sensor).activeJobs = 0 ∨
        ∃ i ∈ p.answered lookbackAnswers, IsOpen w.sent i
  | _ => True

/-! ### Exact budgets -/

/-- Statuses answer directives of their sensor, and the jobs that a living
    process counts are the directives that are out. -/
structure Tracked (w : World) : Prop where
  attributed : ∀ p ∈ w.posted, ∀ i ∈ p.directive, ∃ d, (w.sent[i]?).map Pending.Entry.val = some d ∧
    d.sensorId = p.status.sensor
  exact : w.ended = false → ∀ sensor, (w.budget.of sensor).activeJobs = w.outstanding sensor

variable {cfg : Config} {lookbackAnswers : Bool} {w : World} {b : Budget} {sensor sensor' : String}

theorem Tracked.init : Tracked .init := by
  constructor
  · intro p hp
    exact absurd hp List.not_mem_nil
  · exact fun _ _ => rfl

theorem of_put (c : Counters) :
    Budget.of (b.put (sensor, c)) sensor' = if sensor = sensor' then c else b.of sensor' := by
  rw [Budget.of, Registry.lookup_put]
  split
  · rfl
  · rfl

/-- A directive is sent only while a job is allowed. -/
theorem lt_maxJobs {profile : String} {health : Health}
    (h : (decideArm sensor profile health b cfg.thr cfg.limits).1 = true) :
    ((b.of sensor).activeJobs : Int) < cfg.limits.maxJobs := by
  unfold decideArm at h
  dsimp only at h
  cases hfind : [capabilityGate profile, healthGate health cfg.thr,
      budgetGate sensor b cfg.limits].find? fun gate => !gate.1 with
  | some refused =>
    have hrefused := List.find?_some hfind
    simp only [hfind] at h
    rw [h] at hrefused
    cases hrefused
  | none =>
    have hgate := List.find?_eq_none.mp hfind (budgetGate sensor b cfg.limits) (by simp)
    by_contra hfull
    rw [budgetGate, if_pos (not_lt.mp hfull)] at hgate
    exact hgate rfl

/-- **What a request does**: nothing, or one job is counted, and its directive
    is sent unless that raises. -/
theorem handleRequest_cases (cfg : Config) (b : Budget) (req : Request) (health : Health)
    (sends : Sends) :
    ((handleRequest cfg b req health sends).budget = b ∧
        (handleRequest cfg b req health sends).directive = none ∧
        (req.isPreserve cfg = true ∨ sends.decisionRaises = true ∨
          (decideArm req.sensor req.profile health b cfg.thr cfg.limits).1 = false)) ∨
      (req.isPreserve cfg = false ∧ sends.decisionRaises = false ∧
        (decideArm req.sensor req.profile health b cfg.thr cfg.limits).1 = true ∧
        (handleRequest cfg b req health sends).budget = b.put (req.sensor,
          { b.of req.sensor with activeJobs := (b.of req.sensor).activeJobs + 1 }) ∧
        (handleRequest cfg b req health sends).raised = sends.directiveRaises ∧
        (handleRequest cfg b req health sends).directive =
          if sends.directiveRaises = true then none else some (req.directive cfg)) := by
  unfold handleRequest
  cases hpreserve : req.isPreserve cfg with
  | true => exact Or.inl ⟨rfl, rfl, Or.inl rfl⟩
  | false =>
    cases hdecision : sends.decisionRaises with
    | true => exact Or.inl ⟨rfl, rfl, Or.inr (Or.inl rfl)⟩
    | false =>
      cases harmed : (decideArm req.sensor req.profile health b cfg.thr cfg.limits).1 with
      | false => exact Or.inl ⟨rfl, rfl, Or.inr (Or.inr rfl)⟩
      | true =>
        cases hsend : sends.directiveRaises with
        | true => exact Or.inr ⟨rfl, rfl, rfl, rfl, rfl, rfl⟩
        | false => exact Or.inr ⟨rfl, rfl, rfl, rfl, rfl, rfl⟩

/-- **What a status does**: one job less for its sensor, when it is
    terminal. -/
theorem activeJobs_handleCompletion (b : Budget) (status : Status) (sensor : String) :
    ((handleCompletion b status).1.of sensor).activeJobs =
      if status.isTerminal = true ∧ status.sensor = sensor then (b.of sensor).activeJobs - 1
      else (b.of sensor).activeJobs := by
  unfold handleCompletion
  by_cases hterminal : status.isTerminal = true
  · rw [if_pos hterminal]
    by_cases hsensor : status.sensor = sensor
    · subst hsensor
      rw [if_pos ⟨hterminal, rfl⟩]
      cases status.bytes with
      | none => simp only [of_put, if_true]
      | some n => simp only [of_put, if_true]
    · rw [if_neg fun h => hsensor h.2]
      cases status.bytes with
      | none => simp only [of_put, if_neg hsensor]
      | some n => simp only [of_put, if_neg hsensor]
  · rw [if_neg hterminal, if_neg fun h => hterminal h.1]

/-! ### One step -/

/-- A step that moves no job keeps the budget. -/
theorem BudgetHolds.congr {w' : World} (hb : BudgetHolds cfg w)
    (hout : ∀ x, w'.outstanding x = w.outstanding x)
    (hjobs : ∀ x, (w'.budget.of x).activeJobs = (w.budget.of x).activeJobs) : BudgetHolds cfg w' := by
  constructor
  · intro x
    rw [hout]
    exact hb.limited x
  · intro x
    rw [hout, hjobs]
    exact hb.counted x
  · intro x hx
    rw [hjobs]
    exact hb.freed x (hout x ▸ hx)

theorem outstanding_issue (w : World) (d : Directive) (x : String) :
    World.outstanding { w with sent := issue w.sent d } x =
      w.outstanding x + if d.sensorId = x then 1 else 0 := by
  rw [World.outstanding, World.outstanding, Pending.pending_issue]
  simp only [decide_eq_true_eq]

theorem outstanding_settle (w : World) {i : Nat} {d : Directive} (hopen : IsOpen w.sent i)
    (hd : (w.sent[i]?).map Pending.Entry.val = some d) (x : String) :
    World.outstanding { w with sent := settle w.sent i } x + (if d.sensorId = x then 1 else 0) =
      w.outstanding x := by
  have hpending := Pending.pending_settle_open (p := fun d => decide (d.sensorId = x)) hopen hd
  simp only [decide_eq_true_eq] at hpending
  exact hpending

/-- The world after a request. -/
theorem step_request (hend : w.ended = false) (req : Request) (health : Health) (sends : Sends) :
    w.step cfg lookbackAnswers (.request req health sends) =
      { budget := (handleRequest cfg w.budget req health sends).budget
        ended := (handleRequest cfg w.budget req health sends).raised
        sent := (handleRequest cfg w.budget req health sends).directive.elim w.sent (issue w.sent)
        posted := w.posted ++ ((handleRequest cfg w.budget req health sends).decision.map
          fun status => ⟨status, none⟩).toList } := by
  rw [World.step, if_neg (by simp [hend])]

/-- What a living process counts after a request. -/
theorem request_counts (ht : Tracked w) (hb : BudgetHolds cfg w) (hend : w.ended = false)
    (req : Request) (health : Health) (sends : Sends) :
    (BudgetHolds cfg (w.step cfg lookbackAnswers (.request req health sends)) ↔
        Accounted cfg lookbackAnswers w (.request req health sends)) ∧
      ((w.step cfg lookbackAnswers (.request req health sends)).ended = false → ∀ sensor,
        ((w.step cfg lookbackAnswers (.request req health sends)).budget.of sensor).activeJobs =
          (w.step cfg lookbackAnswers (.request req health sends)).outstanding sensor) := by
  have hexact := ht.exact hend
  rw [step_request hend]
  rcases handleRequest_cases cfg w.budget req health sends with
    ⟨hbudget, hdirective, hwhy⟩ | ⟨hpreserve, hdecision, harmed, hbudget, hraised, hdirective⟩
  · rw [hbudget, hdirective]
    refine ⟨iff_of_true (hb.congr (fun _ => rfl) fun _ => rfl) ?_, fun _ => hexact⟩
    intro _ hpreserve hdecision _ harmed
    rcases hwhy with h | h | h
    · rw [hpreserve] at h
      cases h
    · rw [hdecision] at h
      cases h
    · rw [harmed] at h
      cases h
  · have hroom := lt_maxJobs harmed
    have hjobs : ∀ x, (Budget.of (w.budget.put (req.sensor, { w.budget.of req.sensor with
        activeJobs := (w.budget.of req.sensor).activeJobs + 1 })) x).activeJobs =
        w.outstanding x + if req.sensor = x then 1 else 0 := by
      intro x
      rw [of_put]
      by_cases hx : req.sensor = x
      · subst hx
        simp only [if_true, hexact]
      · simp only [if_neg hx, hexact, Nat.add_zero]
    rw [hbudget, hraised, hdirective]
    cases hsend : sends.directiveRaises with
    | true =>
      -- the job is counted, and no directive is sent for it
      refine ⟨?_, nofun⟩
      constructor
      · intro hafter _ _ _ _ _ hnone
        have hfreed := hafter.freed req.sensor hnone
        rw [hjobs, if_pos rfl] at hfreed
        omega
      · intro hacc
        have hsome := hacc hend hpreserve hdecision hsend harmed
        constructor
        · exact hb.limited
        · intro x
          rw [hjobs]
          exact Nat.le_add_right _ _
        · intro x hx
          have hne : req.sensor ≠ x := by
            rintro rfl
            exact hsome hx
          rw [hjobs, if_neg hne]
          exact hx
    | false =>
      have hout : ∀ x, World.outstanding { w with sent := issue w.sent (req.directive cfg) } x =
          w.outstanding x + if req.sensor = x then 1 else 0 := outstanding_issue w (req.directive cfg)
      refine ⟨iff_of_true ?_ ?_, fun _ x => (hjobs x).trans (hout x).symm⟩
      · constructor
        · intro x
          refine (congrArg Int.ofNat (hout x)).le.trans ?_
          have hlimited := hb.limited x
          by_cases hx : req.sensor = x
          · subst hx
            rw [if_pos rfl, ← hexact]
            exact hroom
          · rw [if_neg hx]
            exact hlimited
        · exact fun x => ((hout x).trans (hjobs x).symm).le
        · exact fun x hx => (hjobs x).trans ((hout x).symm.trans hx)
      · intro _ _ _ hraises
        rw [hsend] at hraises
        cases hraises

/-- The world after a status. -/
theorem step_completion (hend : w.ended = false) {j : Nat} {p : Posted} (hp : w.posted[j]? = some p) :
    w.step cfg lookbackAnswers (.completion j) =
      { w with
        budget := (handleCompletion w.budget p.status).1
        ended := (handleCompletion w.budget p.status).2
        sent := (p.answered lookbackAnswers).elim w.sent (settle w.sent) } := by
  rw [World.step, if_neg (by simp [hend]), hp]

/-- What a living process counts after a status. -/
theorem completion_counts (ht : Tracked w) (hb : BudgetHolds cfg w) (hend : w.ended = false)
    {j : Nat} {p : Posted} (hp : w.posted[j]? = some p) :
    (BudgetHolds cfg (w.step cfg lookbackAnswers (.completion j)) ↔
        Accounted cfg lookbackAnswers w (.completion j)) ∧
      (Accounted cfg lookbackAnswers w (.completion j) → ∀ sensor,
        ((w.step cfg lookbackAnswers (.completion j)).budget.of sensor).activeJobs =
          (w.step cfg lookbackAnswers (.completion j)).outstanding sensor) := by
  have hexact := ht.exact hend
  have hjobs := activeJobs_handleCompletion w.budget p.status
  rw [step_completion hend hp]
  by_cases hterminal : p.status.isTerminal = true
  · simp only [hterminal, true_and] at hjobs
    by_cases hfirst : ∃ i ∈ p.answered lookbackAnswers, IsOpen w.sent i
    · -- the status settles its directive, and one job is freed for it
      obtain ⟨i, hi, hopen⟩ := hfirst
      have hdirective : i ∈ p.directive := by
        rw [Posted.answered] at hi
        split at hi
        · exact hi
        · cases hi
      obtain ⟨d, hd, hsensor⟩ := ht.attributed p (List.mem_of_getElem? hp) i hdirective
      have hout := outstanding_settle w hopen hd
      have hsettled : (p.answered lookbackAnswers).elim w.sent (settle w.sent) = settle w.sent i := by
        rw [Option.mem_def.mp hi]
        rfl
      rw [hsettled]
      have hsame : ∀ x, (Budget.of (handleCompletion w.budget p.status).1 x).activeJobs =
          World.outstanding { w with sent := settle w.sent i } x := by
        intro x
        have hx := hout x
        rw [hjobs, hexact]
        rw [hsensor] at hx
        split
        · next heq =>
          rw [if_pos heq] at hx
          omega
        · next hne =>
          rw [if_neg hne] at hx
          omega
      refine ⟨iff_of_true ?_ ?_, fun _ => hsame⟩
      · constructor
        · intro x
          have hle : World.outstanding { w with sent := settle w.sent i } x ≤ w.outstanding x :=
            hout x ▸ Nat.le_add_right _ _
          exact (Int.ofNat_le.mpr hle).trans (hb.limited x)
        · exact fun x => (hsame x).symm.le
        · exact fun x hx => (hsame x).trans hx
      · intro _ p' hp' _
        rw [hp] at hp'
        obtain rfl := Option.some.inj hp'
        exact Or.inr ⟨i, hi, hopen⟩
    · -- no directive is settled
      have hsent : (p.answered lookbackAnswers).elim w.sent (settle w.sent) = w.sent := by
        cases hi : p.answered lookbackAnswers with
        | none => rfl
        | some i => exact Pending.settle_closed fun hopen => hfirst ⟨i, hi, hopen⟩
      rw [hsent]
      by_cases hidle : (w.budget.of p.status.sensor).activeJobs = 0
      · have hkept : ∀ x, (Budget.of (handleCompletion w.budget p.status).1 x).activeJobs =
            (w.budget.of x).activeJobs := by
          intro x
          rw [hjobs]
          split
          · next heq =>
            subst heq
            omega
          · rfl
        refine ⟨iff_of_true (hb.congr (fun _ => rfl) hkept) ?_, fun _ x => (hkept x).trans (hexact x)⟩
        intro _ p' hp' _
        rw [hp] at hp'
        obtain rfl := Option.some.inj hp'
        exact Or.inl hidle
      · have hnot : ¬Accounted cfg lookbackAnswers w (.completion j) := by
          intro hacc
          rcases hacc hend p hp hterminal with h | h
          · exact hidle h
          · exact hfirst h
        refine ⟨iff_of_false ?_ hnot, fun hacc => absurd hacc hnot⟩
        intro hafter
        have hcounted : w.outstanding p.status.sensor ≤
            (Budget.of (handleCompletion w.budget p.status).1 p.status.sensor).activeJobs :=
          hafter.counted p.status.sensor
        rw [hjobs, if_pos rfl, hexact] at hcounted
        rw [hexact] at hidle
        omega
  · have hanswered : p.answered lookbackAnswers = none := by
      rw [Posted.answered, if_neg]
      rw [Status.answers, Bool.and_eq_true]
      exact fun h => hterminal h.1
    have hkept : ∀ x, (Budget.of (handleCompletion w.budget p.status).1 x).activeJobs =
        (w.budget.of x).activeJobs := by
      intro x
      rw [hjobs, if_neg fun h => hterminal h.1]
    rw [hanswered]
    refine ⟨iff_of_true (hb.congr (fun _ => rfl) hkept) ?_, fun _ x => (hkept x).trans (hexact x)⟩
    intro _ p' hp' hterminal'
    rw [hp] at hp'
    obtain rfl := Option.some.inj hp'
    exact absurd hterminal' hterminal

/-- **One step** from an exact budget. -/
theorem budgetHolds_step_iff (ht : Tracked w) (hb : BudgetHolds cfg w) (e : Event) :
    BudgetHolds cfg (w.step cfg lookbackAnswers e) ↔ Accounted cfg lookbackAnswers w e := by
  cases e with
  | request req health sends =>
    cases hend : w.ended with
    | true =>
      rw [World.step, if_pos hend]
      refine iff_of_true hb ?_
      intro hliving
      rw [hend] at hliving
      cases hliving
    | false => exact (request_counts ht hb hend req health sends).1
  | answer i a =>
    rw [World.step]
    cases w.sent[i]? with
    | none => exact iff_of_true hb trivial
    | some e => exact iff_of_true (hb.congr (fun _ => rfl) fun _ => rfl) trivial
  | other status => exact iff_of_true (hb.congr (fun _ => rfl) fun _ => rfl) trivial
  | completion j =>
    cases hend : w.ended with
    | true =>
      rw [World.step, if_pos hend]
      refine iff_of_true hb ?_
      intro hliving
      rw [hend] at hliving
      cases hliving
    | false =>
      cases hp : w.posted[j]? with
      | none =>
        rw [World.step, if_neg (by simp [hend]), hp]
        refine iff_of_true hb ?_
        intro _ p hp'
        rw [hp] at hp'
        cases hp'
      | some p => exact (completion_counts ht hb hend hp).1

/-- Attributed statuses stay attributed while directives are issued and
    settled. -/
theorem attributed_of_sent {sent : List (Pending.Entry Directive)} (ht : Tracked w)
    (hsent : ∀ (i : Nat) d, (w.sent[i]?).map Pending.Entry.val = some d →
      (sent[i]?).map Pending.Entry.val = some d) :
    ∀ p ∈ w.posted, ∀ i ∈ p.directive, ∃ d, (sent[i]?).map Pending.Entry.val = some d ∧
      d.sensorId = p.status.sensor := by
  intro p hp i hi
  obtain ⟨d, hd, hsensor⟩ := ht.attributed p hp i hi
  exact ⟨d, hsent i d hd, hsensor⟩

/-- An accounted step keeps the budget exact. -/
theorem Tracked.step (ht : Tracked w) (hb : BudgetHolds cfg w) {e : Event}
    (ha : Accounted cfg lookbackAnswers w e) : Tracked (w.step cfg lookbackAnswers e) := by
  cases e with
  | request req health sends =>
    cases hend : w.ended with
    | true => rwa [World.step, if_pos hend]
    | false =>
      refine ⟨?_, (request_counts ht hb hend req health sends).2⟩
      rw [step_request hend]
      have hsent : ∀ (i : Nat) d, (w.sent[i]?).map Pending.Entry.val = some d →
          (((handleRequest cfg w.budget req health sends).directive.elim w.sent
            (issue w.sent))[i]?).map Pending.Entry.val = some d := by
        intro i d hd
        cases (handleRequest cfg w.budget req health sends).directive with
        | none => exact hd
        | some d' => exact Pending.val_issue hd
      intro p hp i hi
      rcases List.mem_append.mp hp with hold | hnew
      · exact attributed_of_sent ht hsent p hold i hi
      · obtain ⟨status, -, rfl⟩ := Option.map_eq_some_iff.mp (Option.mem_toList.mp hnew)
        cases hi
  | answer i a =>
    rw [World.step]
    cases he : w.sent[i]? with
    | none => exact ht
    | some e =>
      refine ⟨?_, ht.exact⟩
      intro p hp k hk
      rcases List.mem_append.mp hp with hold | hnew
      · exact ht.attributed p hold k hk
      · obtain rfl := List.mem_singleton.mp hnew
        obtain rfl := Option.some.inj hk
        exact ⟨e.val, by rw [he]; rfl, rfl⟩
  | other status =>
    refine ⟨?_, ht.exact⟩
    intro p hp k hk
    rcases List.mem_append.mp hp with hold | hnew
    · exact ht.attributed p hold k hk
    · obtain rfl := List.mem_singleton.mp hnew
      cases hk
  | completion j =>
    cases hend : w.ended with
    | true => rwa [World.step, if_pos hend]
    | false =>
      cases hp : w.posted[j]? with
      | none => rwa [World.step, if_neg (by simp [hend]), hp]
      | some p =>
        refine ⟨?_, fun _ => (completion_counts ht hb hend hp).2 ha⟩
        rw [step_completion hend hp]
        have hsent : ∀ (i : Nat) d, (w.sent[i]?).map Pending.Entry.val = some d →
            (((p.answered lookbackAnswers).elim w.sent (settle w.sent))[i]?).map
              Pending.Entry.val = some d := by
          intro i d hd
          cases p.answered lookbackAnswers with
          | none => exact hd
          | some k => exact Pending.val_settle.trans hd
        exact attributed_of_sent (w := w) ht hsent

/-! ### Every run -/

theorem BudgetHolds.init_iff : BudgetHolds cfg .init ↔ 0 ≤ cfg.limits.maxJobs := by
  constructor
  · exact fun h => h.limited "sensor-1"
  · intro h
    exact ⟨fun _ => h, fun _ => Nat.zero_le _, fun _ _ => rfl⟩

/-- **The central arm budget** holds in every state of a run exactly when the
    limit is no negative number and every step is accounted for: a status that
    frees a job is the first that answers its directive, and a directive that
    is not sent after its job was counted leaves others outstanding. -/
theorem arm_budget_iff (cfg : Config) (lookbackAnswers : Bool) (events : List Event) :
    (∀ pre, pre <+: events →
        BudgetHolds cfg (Machine.run (World.step cfg lookbackAnswers) .init pre)) ↔
      0 ≤ cfg.limits.maxJobs ∧
        Machine.Meets (World.step cfg lookbackAnswers) (Accounted cfg lookbackAnswers) .init events := by
  have hkeeps : ∀ pre, 0 ≤ cfg.limits.maxJobs →
      Machine.Meets (World.step cfg lookbackAnswers) (Accounted cfg lookbackAnswers) .init pre →
      Tracked (Machine.run (World.step cfg lookbackAnswers) .init pre) ∧
        BudgetHolds cfg (Machine.run (World.step cfg lookbackAnswers) .init pre) := by
    intro pre hlimit hmeets
    refine Machine.run_invariant_of_meets (P := fun w => Tracked w ∧ BudgetHolds cfg w) ?_
      ⟨.init, BudgetHolds.init_iff.mpr hlimit⟩ hmeets
    intro w e ha ⟨ht, hb⟩
    exact ⟨ht.step hb ha, (budgetHolds_step_iff ht hb e).mpr ha⟩
  constructor
  · intro hall
    have hlimit := BudgetHolds.init_iff.mp (hall [] List.nil_prefix)
    refine ⟨hlimit, ?_⟩
    -- along the run, a step that keeps the budget is accounted for
    refine Machine.prefix_induction (P := fun pre => Machine.Meets (World.step cfg lookbackAnswers)
      (Accounted cfg lookbackAnswers) .init pre) (.nil _ _ _) ?_ events (List.prefix_refl events)
    intro pre e hpre hmeets
    obtain ⟨ht, hb⟩ := hkeeps pre hlimit hmeets
    have hnext := hall _ hpre
    rw [Machine.run_snoc, budgetHolds_step_iff ht hb] at hnext
    exact hmeets.snoc hnext
  · rintro ⟨hlimit, hmeets⟩ pre hpre
    exact (hkeeps pre hlimit (hmeets.of_initial hpre)).2

/-- A request of an address, without a tenant. -/
def sampleRequest (value : String) : Request :=
  ⟨some "sensor-1", none, none, some value, none, none, .null, .null⟩

/-- Two jobs are allowed. The status of the first is delivered twice, and two
    more directives are sent while the second is out. -/
def doubledStatus : List Event :=
  let arm := fun value => Event.request (sampleRequest value) ⟨0, 0⟩ ⟨false, false⟩
  [arm "10.0.0.1", arm "10.0.0.2", .answer 0 (.completed 4096), .completion 2, .completion 2,
    arm "10.0.0.3", arm "10.0.0.4"]

/-- A status that is delivered twice frees two jobs, and three directives are
    out. -/
theorem doubled_status_exceeds_budget :
    ¬∀ (cfg : Config) (lookbackAnswers : Bool) (events : List Event), 0 ≤ cfg.limits.maxJobs →
      ∀ pre, pre <+: events →
        BudgetHolds cfg (Machine.run (World.step cfg lookbackAnswers) .init pre) := by
  intro h
  have hlimited := (h ⟨⟨1, 85⟩, ⟨2, 500000000⟩, fun _ => false, ObjectKeys.sampleDigest⟩ false
    doubledStatus (by decide) doubledStatus (List.prefix_refl _)).limited "sensor-1"
  exact absurd hlimited (by decide +kernel)

end CaptureOrchestrator
