import Mathlib.Algebra.Order.Ring.Rat
import CernityNdr.Framework.Registry
import CernityNdr.Framework.Rolling
import CernityNdr.Framework.Run

/-! # The Preserve Budget

    The model of `Budget` of `shared/capture_v2.py`: the reservations of the
    last hour in memory and in the state file, over any sequence of `reserve`,
    `finish` and restarts in which saving may fail.

    * `Holds`: what memory and file hold of the admitted reservations.
    * `budget_holds`: the hourly limits, the concurrent jobs and the
      duplicates, over every run with a clock that does not go back.

    Sizes and limits are those that `validate` and `validate_policy` let
    pass: whole numbers that are not negative. -/

namespace Preserve

/-! ### The budget -/

/-- The limits of a policy. -/
structure Policy where
  maxJobs : Nat
  requestsPerHour : Nat
  bytesPerHour : Nat
  tenantBytesPerHour : Nat

/-- What `reserve` and `finish` read of a request. -/
structure Doc where
  tenantId : String
  requestId : String
  sensorId : String
  maxBytes : Nat

structure Entry where
  ts : ℚ
  active : Bool
  sensor : String
  tenant : String
  request : String
  bytes : Nat

def Entry.key (v : Entry) : String × String := (v.tenant, v.request)

def Doc.key (doc : Doc) : String × String := (doc.tenantId, doc.requestId)

abbrev Entries := Registry Entry.key

/-- `self.entries`, and the state file. -/
structure Budget where
  entries : Entries
  saved : Entries

def Budget.init : Budget := ⟨.empty, .empty⟩

/-- How `_save` ends: it may raise before the file is replaced or after. -/
inductive Saving
  | done
  | failed
  | failedLate
deriving DecidableEq

/-- `_save`. -/
def Budget.save (b : Budget) : Saving → Budget
  | .done => { b with saved := b.entries }
  | .failed => b
  | .failedLate => { b with saved := b.entries }

/-- The entries that still count. -/
def Entries.prune (es : Entries) (now : ℚ) : Entries :=
  es.filter fun v => v.active || now - v.ts < 3600

inductive Outcome
  | admitted
  | duplicate
  | exhausted
  | notSaved
deriving DecidableEq

def Entries.ofSensor (es : Entries) (sensor : String) : List Entry :=
  es.vals.filter fun v => v.sensor = sensor

def Entries.ofTenant (es : Entries) (tenant : String) : List Entry :=
  es.vals.filter fun v => v.tenant = tenant

/-- `preserve budget exhausted`. -/
def Entries.exhausted (es : Entries) (doc : Doc) (policy : Policy) : Bool :=
  let sensor := es.ofSensor doc.sensorId
  let tenant := es.ofTenant doc.tenantId
  let size := doc.maxBytes
  policy.maxJobs ≤ sensor.countP (·.active) ||
    policy.requestsPerHour ≤ sensor.length ||
    policy.bytesPerHour < (sensor.map (·.bytes)).sum + size ||
    policy.tenantBytesPerHour < (tenant.map (·.bytes)).sum + size

/-- The entry of a new reservation. -/
def Doc.entry (doc : Doc) (now : ℚ) : Entry :=
  ⟨now, true, doc.sensorId, doc.tenantId, doc.requestId, doc.maxBytes⟩

/-- `reserve`; it raises unless the outcome is `admitted`. -/
def Budget.reserve (b : Budget) (doc : Doc) (policy : Policy) (now : ℚ) (saving : Saving) :
    Outcome × Budget :=
  let b := { b with entries := b.entries.prune now }
  if (b.entries.get? doc.key).isSome then (.duplicate, b)
  else if b.entries.exhausted doc policy then (.exhausted, b)
  else
    let b := { b with entries := b.entries.put (doc.entry now) }
    (if saving = .done then .admitted else .notSaved, b.save saving)

/-- `finish`. -/
def Budget.finish (b : Budget) (doc : Doc) (saving : Saving) : Budget :=
  match b.entries.get? doc.key with
  | none => b
  | some item =>
    if item.sensor = doc.sensorId then
      Budget.save { b with entries := b.entries.put { item with active := false } } saving
    else b

/-- A restart reads the state file. -/
def Budget.restart (b : Budget) : Budget := { b with entries := b.saved }

/-! ### Runs -/

/-- A reservation that was admitted. -/
structure Reservation where
  ts : ℚ
  sensor : String
  tenant : String
  request : String
  bytes : Nat
  /-- `finish` was called for it -/
  finished : Bool

def Reservation.key (r : Reservation) : String × String := (r.tenant, r.request)

def Doc.reservation (doc : Doc) (now : ℚ) : Reservation :=
  ⟨now, doc.sensorId, doc.tenantId, doc.requestId, doc.maxBytes, false⟩

/-- `finish` was called with the document. -/
def Reservation.finish (doc : Doc) (r : Reservation) : Reservation :=
  if r.key = doc.key ∧ r.sensor = doc.sensorId then { r with finished := true } else r

inductive Event
  | reserve (doc : Doc) (now : ℚ) (saving : Saving)
  | finish (doc : Doc) (saving : Saving)
  | restart

/-- The budget, and what was admitted so far, oldest first. -/
structure History where
  budget : Budget
  admitted : List Reservation

/-- One event; every sensor has its policy. -/
def step (policies : String → Policy) (h : History) : Event → History
  | .reserve doc now saving =>
    let (outcome, budget) := h.budget.reserve doc (policies doc.sensorId) now saving
    ⟨budget, if outcome = .admitted then h.admitted ++ [doc.reservation now] else h.admitted⟩
  | .finish doc saving => ⟨h.budget.finish doc saving, h.admitted.map (Reservation.finish doc)⟩
  | .restart => ⟨h.budget.restart, h.admitted⟩

def start : History := ⟨.init, []⟩

/-- The times at which the clock is read. -/
def times (events : List Event) : List ℚ :=
  events.filterMap fun
    | .reserve _ now _ => some now
    | _ => none

/-! ### What memory and file hold -/

def Reservation.entry (r : Reservation) (active : Bool) : Entry :=
  ⟨r.ts, active, r.sensor, r.tenant, r.request, r.bytes⟩

/-- The reservation still counts: it is not finished, or younger than an
    hour. -/
def Counts (now : ℚ) (r : Reservation) : Prop := r.finished = false ∨ now < r.ts + 3600

/-- The entries have the reservation, as active unless it is finished. -/
def Holds (es : Entries) (r : Reservation) : Prop :=
  ∃ active, (r.finished = false → active = true) ∧ es.get? r.key = some (r.entry active)

/-- Memory and file hold what counts, and a request is admitted again only
    when it is finished and an hour old. -/
structure Tracked (clock : ℚ) (h : History) : Prop where
  past : ∀ r ∈ h.admitted, r.ts ≤ clock
  held : ∀ r ∈ h.admitted, Counts clock r → Holds h.budget.entries r
  heldSaved : ∀ r ∈ h.admitted, Counts clock r → Holds h.budget.saved r
  apart : h.admitted.Pairwise fun r r' => r.key = r'.key →
    r.finished = true ∧ r.ts + 3600 ≤ r'.ts

variable {clock now : ℚ} {h : History} {doc : Doc} {es : Entries}

theorem Tracked.start (clock : ℚ) : Tracked clock start :=
  ⟨fun _ hr => absurd hr List.not_mem_nil, fun _ hr => absurd hr List.not_mem_nil,
    fun _ hr => absurd hr List.not_mem_nil, List.Pairwise.nil⟩

theorem Counts.mono {r : Reservation} (hc : Counts now r) (hle : clock ≤ now) : Counts clock r :=
  hc.imp_right hle.trans_lt

theorem Tracked.mono (ht : Tracked clock h) (hle : clock ≤ now) : Tracked now h where
  past r hr := (ht.past r hr).trans hle
  held r hr hc := ht.held r hr (hc.mono hle)
  heldSaved r hr hc := ht.heldSaved r hr (hc.mono hle)
  apart := ht.apart

/-- Pruning drops nothing that counts. -/
theorem Holds.prune {r : Reservation} (hr : Holds es r) (hc : Counts now r) :
    Holds (es.prune now) r := by
  obtain ⟨active, hactive, hget⟩ := hr
  refine ⟨active, hactive, Registry.get?_filter_eq_some.mpr ⟨hget, ?_⟩⟩
  rw [Reservation.entry, Bool.or_eq_true]
  rcases hc with hunfinished | hyoung
  · exact Or.inl (hactive hunfinished)
  · exact Or.inr (decide_eq_true (sub_lt_iff_lt_add'.mpr hyoung))

/-- An entry of another key changes nothing. -/
theorem Holds.put {r : Reservation} (hr : Holds es r) {v : Entry} (hkey : v.key ≠ r.key) :
    Holds (es.put v) r := by
  obtain ⟨active, hactive, hget⟩ := hr
  refine ⟨active, hactive, ?_⟩
  rw [Registry.get?_put, if_neg hkey]
  exact hget

/-- Reservations that count have distinct keys. -/
theorem Tracked.keys_nodup (ht : Tracked now h) {p : Reservation → Bool}
    (hp : ∀ r, p r = true → Counts now r) : ((h.admitted.filter p).map Reservation.key).Nodup := by
  rw [List.Nodup, List.pairwise_map]
  refine ((ht.apart.filter p).imp_of_mem ?_)
  intro r r' hr hr' hapart hkey
  obtain ⟨hfinished, hhour⟩ := hapart hkey
  have hpast := ht.past r' (List.mem_filter.mp hr').1
  rcases hp r (List.mem_filter.mp hr).2 with hunfinished | hyoung
  · rw [hfinished] at hunfinished
    cases hunfinished
  · exact absurd (hyoung.trans_le (hhour.trans hpast)) (lt_irrefl _)

/-- **What counts is charged**: a part of the reservations that count weighs
    at most what the entries that hold it weigh. -/
theorem Tracked.charged (ht : Tracked now h) (hheld : ∀ r ∈ h.admitted, Counts now r → Holds es r)
    (p : Reservation → Bool) (q : Entry → Bool) {weight : Reservation → Nat} {weight' : Entry → Nat}
    (hp : ∀ r, p r = true → Counts now r)
    (hq : ∀ r active, p r = true → (r.finished = false → active = true) →
      q (r.entry active) = true ∧ weight r = weight' (r.entry active)) :
    ((h.admitted.filter p).map weight).sum ≤ ((es.vals.filter q).map weight').sum := by
  have hentry : ∀ r ∈ h.admitted.filter p, ∃ active, (r.finished = false → active = true) ∧
      es.get? r.key = some (r.entry active) ∧ p r = true := by
    intro r hr
    obtain ⟨hmem, hpr⟩ := List.mem_filter.mp hr
    obtain ⟨active, hactive, hget⟩ := hheld r hmem (hp r hpr)
    exact ⟨active, hactive, hget, hpr⟩
  refine Rolling.sum_le_of_held (fun r => (es.get? r.key).getD (r.entry true)) Entry.key ?_ ?_ ?_
  · intro r hr
    obtain ⟨active, hactive, hget, hpr⟩ := hentry r hr
    rw [hget, Option.getD_some, List.mem_filter]
    exact ⟨(Registry.get?_eq_some.mp hget).1, (hq r active hpr hactive).1⟩
  · have hkeys : (h.admitted.filter p).map
        (fun r => Entry.key ((es.get? r.key).getD (r.entry true))) =
        (h.admitted.filter p).map Reservation.key := by
      apply List.map_congr_left
      intro r hr
      obtain ⟨active, hactive, hget, hpr⟩ := hentry r hr
      rw [hget]
      rfl
    rw [hkeys]
    exact ht.keys_nodup hp
  · intro r hr
    obtain ⟨active, hactive, hget, hpr⟩ := hentry r hr
    rw [hget]
    exact (hq r active hpr hactive).2

/-! ### The limits -/

/-- The reservations of a run are within the limits of the policies: the jobs
    of a sensor that are not finished, and in every hour the requests and
    bytes of a sensor and the bytes of a tenant whose policies agree. -/
structure Within (policies : String → Policy) (l : List Reservation) : Prop where
  jobs : ∀ sensor, (l.filter fun r => r.sensor = sensor && !r.finished).length ≤
    (policies sensor).maxJobs
  requests : ∀ sensor, Rolling.Limited Reservation.ts 3600 (fun _ => 1)
    (policies sensor).requestsPerHour (l.filter fun r => r.sensor = sensor)
  bytes : ∀ sensor, Rolling.Limited Reservation.ts 3600 Reservation.bytes
    (policies sensor).bytesPerHour (l.filter fun r => r.sensor = sensor)
  tenantBytes : ∀ tenant limit,
    (∀ r ∈ l, r.tenant = tenant → (policies r.sensor).tenantBytesPerHour = limit) →
      Rolling.Limited Reservation.ts 3600 Reservation.bytes limit (l.filter fun r => r.tenant = tenant)

variable {policies : String → Policy}

theorem Within.nil (policies : String → Policy) : Within policies [] :=
  ⟨fun _ => Nat.zero_le _, fun _ => .nil, fun _ => .nil, fun _ _ _ => .nil⟩

theorem not_exhausted {policy : Policy} (hroom : es.exhausted doc policy = false) :
    (es.ofSensor doc.sensorId).countP (·.active) < policy.maxJobs ∧
      (es.ofSensor doc.sensorId).length < policy.requestsPerHour ∧
      ((es.ofSensor doc.sensorId).map (·.bytes)).sum + doc.maxBytes ≤ policy.bytesPerHour ∧
      ((es.ofTenant doc.tenantId).map (·.bytes)).sum + doc.maxBytes ≤
        policy.tenantBytesPerHour := by
  simp only [Entries.exhausted, Bool.or_eq_false_iff, decide_eq_false_iff_not, not_le, not_lt] at hroom
  exact ⟨hroom.1.1.1, hroom.1.1.2, hroom.1.2, hroom.2⟩

theorem sum_map_one {ρ : Type*} (l : List ρ) : (l.map fun _ => 1).sum = l.length := by
  simp

/-- A new reservation keeps an hourly limit of its sensor or its tenant, which
    has room for it. -/
theorem limited_accept (ht : Tracked now h) (hheld : ∀ r ∈ h.admitted, Counts now r → Holds es r)
    {owner : Reservation → String} (owner' : Entry → String)
    (howner : ∀ r active, owner' (r.entry active) = owner r)
    {weight : Reservation → Nat} (weight' : Entry → Nat)
    (hweight : ∀ r active, weight r = weight' (r.entry active)) {limit : Nat} {x : String}
    (hlimited : Rolling.Limited Reservation.ts 3600 weight limit
      (h.admitted.filter fun r => owner r = x))
    (hroom : owner (doc.reservation now) = x →
      ((es.vals.filter fun v => owner' v = x).map weight').sum + weight (doc.reservation now) ≤
        limit) :
    Rolling.Limited Reservation.ts 3600 weight limit
      ((h.admitted ++ [doc.reservation now]).filter fun r => owner r = x) := by
  rw [List.filter_append]
  by_cases hx : owner (doc.reservation now) = x
  · rw [List.filter_cons_of_pos (by simpa using hx), List.filter_nil]
    apply hlimited.snoc
    have hcharged := ht.charged hheld
      (fun r => decide (now < r.ts + 3600) && decide (owner r = x)) (fun v => owner' v = x) (by
        intro r hr
        simp only [Bool.and_eq_true, decide_eq_true_eq] at hr
        exact Or.inr hr.1) (by
        intro r active hr _
        simp only [Bool.and_eq_true, decide_eq_true_eq] at hr
        exact ⟨by simp [howner, hr.2], hweight r active⟩)
    rw [List.filter_filter]
    exact (Nat.add_le_add_right hcharged _).trans (hroom hx)
  · have hnone : [doc.reservation now].filter (fun r => owner r = x) = [] := by
      simp [hx]
    rw [hnone, List.append_nil]
    exact hlimited

/-- A new reservation keeps the number of jobs, when one more can run. -/
theorem jobs_accept (ht : Tracked now h) (hheld : ∀ r ∈ h.admitted, Counts now r → Holds es r)
    (hjobs : (es.ofSensor doc.sensorId).countP (·.active) < (policies doc.sensorId).maxJobs)
    {sensor : String} (hold : (h.admitted.filter fun r => r.sensor = sensor && !r.finished).length ≤
      (policies sensor).maxJobs) :
    ((h.admitted ++ [doc.reservation now]).filter fun r => r.sensor = sensor && !r.finished).length ≤
      (policies sensor).maxJobs := by
  rw [List.filter_append, List.length_append]
  by_cases hsensor : doc.sensorId = sensor
  · subst hsensor
    have hcharged : ((h.admitted.filter fun r => r.sensor = doc.sensorId && !r.finished).map
        fun _ => 1).sum ≤
        ((es.vals.filter fun v => v.active && decide (v.sensor = doc.sensorId)).map
          fun _ => 1).sum := by
      apply ht.charged hheld
      · intro r hr
        simp only [Bool.and_eq_true, Bool.not_eq_true'] at hr
        exact Or.inl hr.2
      · intro r active hr hactive
        simp only [Bool.and_eq_true, Bool.not_eq_true', decide_eq_true_eq] at hr
        simp [Reservation.entry, hr.1, hactive hr.2]
    have hcount : (es.ofSensor doc.sensorId).countP (·.active) =
        (es.vals.filter fun v => v.active && decide (v.sensor = doc.sensorId)).length := by
      rw [List.countP_eq_length_filter, Entries.ofSensor, List.filter_filter]
    have hone : ([doc.reservation now].filter fun r => r.sensor = doc.sensorId &&
      !r.finished).length ≤ 1 := List.length_filter_le _ _
    rw [sum_map_one, sum_map_one] at hcharged
    omega
  · have hnone : [doc.reservation now].filter (fun r => r.sensor = sensor && !r.finished) = [] := by
      simp [Doc.reservation, hsensor]
    rw [hnone]
    exact hold

/-- A reservation that is admitted keeps the limits. -/
theorem Within.accept (hw : Within policies h.admitted) (ht : Tracked now h)
    (hheld : ∀ r ∈ h.admitted, Counts now r → Holds es r)
    (hroom : es.exhausted doc (policies doc.sensorId) = false) :
    Within policies (h.admitted ++ [doc.reservation now]) := by
  obtain ⟨hjobs, hrequests, hbytes, htenant⟩ := not_exhausted hroom
  constructor
  · exact fun sensor => jobs_accept ht hheld hjobs (hw.jobs sensor)
  · intro sensor
    apply limited_accept ht hheld Entry.sensor (fun _ _ => rfl) (fun _ => 1) (fun _ _ => rfl)
      (hw.requests sensor)
    rintro rfl
    rw [sum_map_one]
    exact hrequests
  · intro sensor
    apply limited_accept ht hheld Entry.sensor (fun _ _ => rfl) Entry.bytes (fun _ _ => rfl)
      (hw.bytes sensor)
    rintro rfl
    exact hbytes
  · intro tenant limit hagree
    rw [List.forall_mem_append] at hagree
    apply limited_accept ht hheld Entry.tenant (fun _ _ => rfl) Entry.bytes (fun _ _ => rfl)
      (hw.tenantBytes tenant limit hagree.1)
    rintro rfl
    rw [← hagree.2 _ List.mem_cons_self rfl]
    exact htenant

/-! ### `finish` -/

section Finish

variable (doc : Doc) (r : Reservation)

@[simp] theorem finish_ts : (r.finish doc).ts = r.ts := by unfold Reservation.finish; split <;> rfl

@[simp] theorem finish_sensor : (r.finish doc).sensor = r.sensor := by
  unfold Reservation.finish; split <;> rfl

@[simp] theorem finish_tenant : (r.finish doc).tenant = r.tenant := by
  unfold Reservation.finish; split <;> rfl

@[simp] theorem finish_bytes : (r.finish doc).bytes = r.bytes := by
  unfold Reservation.finish; split <;> rfl

@[simp] theorem finish_key : (r.finish doc).key = r.key := by unfold Reservation.finish; split <;> rfl

@[simp] theorem finish_entry (active : Bool) : (r.finish doc).entry active = r.entry active := by
  unfold Reservation.finish; split <;> rfl

variable {doc r}

theorem finished_of_finish (h : (r.finish doc).finished = false) : r.finished = false := by
  unfold Reservation.finish at h
  split at h
  · cases h
  · exact h

theorem Counts.of_finish (hc : Counts clock (r.finish doc)) : Counts clock r := by
  rw [Counts, finish_ts] at hc
  exact hc.imp_left finished_of_finish

variable (doc) in
theorem Holds.finish (hr : Holds es r) : Holds es (r.finish doc) := by
  obtain ⟨active, hactive, hget⟩ := hr
  exact ⟨active, fun h => hactive (finished_of_finish h), by rw [finish_key, finish_entry, hget]⟩

/-- What is finished in the entries is finished in the run. -/
theorem Holds.put_finished (hr : Holds es r) {item : Entry} (hitem : es.get? doc.key = some item)
    (hsensor : item.sensor = doc.sensorId) :
    Holds (es.put { item with active := false }) (r.finish doc) := by
  have hkey : item.key = doc.key := Registry.keyOf_of_get? hitem
  by_cases hsame : r.key = doc.key
  · obtain ⟨active, -, hget⟩ := hr
    rw [hsame, hitem] at hget
    obtain rfl := Option.some.inj hget
    have hfinished : r.finish doc = { r with finished := true } := if_pos ⟨hsame, hsensor⟩
    refine ⟨false, ?_, ?_⟩
    · rw [hfinished]
      exact fun h => nomatch h
    · rw [finish_key, finish_entry]
      exact Registry.get?_put_self es (r.entry false)
  · have hother : r.finish doc = r := if_neg fun h => hsame h.1
    rw [hother]
    exact hr.put fun h => hsame (h.symm.trans hkey)

/-- `finish` finds an entry of the sensor and saves, or changes nothing. -/
theorem finish_cases (b : Budget) (doc : Doc) (saving : Saving) :
    (∃ item, b.entries.get? doc.key = some item ∧ item.sensor = doc.sensorId ∧
      b.finish doc saving =
        Budget.save { b with entries := b.entries.put { item with active := false } } saving) ∨
      b.finish doc saving = b := by
  unfold Budget.finish
  cases hitem : b.entries.get? doc.key with
  | none => exact Or.inr rfl
  | some item =>
    by_cases hsensor : item.sensor = doc.sensorId
    · exact Or.inl ⟨item, rfl, hsensor, if_pos hsensor⟩
    · exact Or.inr (if_neg hsensor)

/-- Saving leaves the entries, and the file is as it was or has them. -/
theorem save_cases (b : Budget) (saving : Saving) : (b.save saving).entries = b.entries ∧
    ((b.save saving).saved = b.saved ∨ (b.save saving).saved = b.entries) := by
  cases saving with
  | done => exact ⟨rfl, Or.inr rfl⟩
  | failed => exact ⟨rfl, Or.inl rfl⟩
  | failedLate => exact ⟨rfl, Or.inr rfl⟩

theorem Tracked.finish (ht : Tracked clock h) (doc : Doc) (saving : Saving) :
    Tracked clock ⟨h.budget.finish doc saving, h.admitted.map (Reservation.finish doc)⟩ := by
  have hheld : ∀ r ∈ h.admitted, Counts clock (r.finish doc) →
      Holds (h.budget.finish doc saving).entries (r.finish doc) ∧
        Holds (h.budget.finish doc saving).saved (r.finish doc) := by
    intro r hr hc
    have hentries := ht.held r hr hc.of_finish
    have hsaved := (ht.heldSaved r hr hc.of_finish).finish doc
    rcases finish_cases h.budget doc saving with ⟨item, hitem, hsensor, heq⟩ | heq
    · have hput := hentries.put_finished hitem hsensor
      obtain ⟨hes, hfile⟩ := save_cases
        { h.budget with entries := h.budget.entries.put { item with active := false } } saving
      rw [heq]
      refine ⟨hes ▸ hput, ?_⟩
      rcases hfile with hfile | hfile
      · rw [hfile]
        exact hsaved
      · rw [hfile]
        exact hput
    · rw [heq]
      exact ⟨hentries.finish doc, hsaved⟩
  constructor
  · intro r' hr'
    obtain ⟨r, hr, rfl⟩ := List.mem_map.mp hr'
    rw [finish_ts]
    exact ht.past r hr
  · intro r' hr' hc
    obtain ⟨r, hr, rfl⟩ := List.mem_map.mp hr'
    exact (hheld r hr hc).1
  · intro r' hr' hc
    obtain ⟨r, hr, rfl⟩ := List.mem_map.mp hr'
    exact (hheld r hr hc).2
  · rw [List.pairwise_map]
    refine ht.apart.imp ?_
    intro r r' hapart hkey
    rw [finish_key, finish_key] at hkey
    obtain ⟨hfinished, hhour⟩ := hapart hkey
    rw [finish_ts, finish_ts]
    refine ⟨?_, hhour⟩
    by_contra hnot
    rw [finished_of_finish (Bool.eq_false_of_not_eq_true hnot)] at hfinished
    cases hfinished

theorem filter_map_finish (p : Reservation → Bool) (hp : ∀ r, p (r.finish doc) = p r)
    (l : List Reservation) :
    (l.map (Reservation.finish doc)).filter p = (l.filter p).map (Reservation.finish doc) := by
  rw [List.filter_map]
  congr 1
  exact List.filter_congr fun r _ => hp r

theorem Within.finish {l : List Reservation} (hw : Within policies l) (doc : Doc) :
    Within policies (l.map (Reservation.finish doc)) := by
  constructor
  · intro sensor
    rw [List.filter_map, List.length_map]
    refine le_trans (List.Sublist.length_le ?_) (hw.jobs sensor)
    apply List.monotone_filter_right l
    intro r hr
    simp only [Function.comp_apply, finish_sensor, Bool.and_eq_true, Bool.not_eq_true'] at hr ⊢
    exact ⟨hr.1, finished_of_finish hr.2⟩
  · intro sensor
    rw [filter_map_finish _ (by simp)]
    exact (hw.requests sensor).map (by simp) (by simp)
  · intro sensor
    rw [filter_map_finish _ (by simp)]
    exact (hw.bytes sensor).map (by simp) (by simp)
  · intro tenant limit hagree
    rw [filter_map_finish _ (by simp)]
    refine (hw.tenantBytes tenant limit ?_).map (by simp) (by simp)
    intro r hr htenant
    have := hagree (r.finish doc) (List.mem_map_of_mem hr)
    rw [finish_tenant, finish_sensor] at this
    exact this htenant

end Finish

/-! ### `reserve` -/

/-- `reserve` refuses, and only prunes the entries, or it has room for a
    request that is not there, and stores it. -/
theorem reserve_cases (b : Budget) (doc : Doc) (policy : Policy) (now : ℚ) (saving : Saving) :
    ((b.reserve doc policy now saving).1 ≠ .admitted ∧
        (b.reserve doc policy now saving).2 = { b with entries := b.entries.prune now }) ∨
      ((b.entries.prune now).get? doc.key = none ∧
        (b.entries.prune now).exhausted doc policy = false ∧
        (b.reserve doc policy now saving).1 = (if saving = .done then .admitted else .notSaved) ∧
        (b.reserve doc policy now saving).2 =
          Budget.save { b with entries := (b.entries.prune now).put (doc.entry now) } saving) := by
  unfold Budget.reserve
  dsimp only
  by_cases hthere : ((b.entries.prune now).get? doc.key).isSome
  · rw [if_pos hthere]
    exact Or.inl ⟨nofun, rfl⟩
  · rw [if_neg hthere]
    by_cases hfull : (b.entries.prune now).exhausted doc policy = true
    · rw [if_pos hfull]
      exact Or.inl ⟨nofun, rfl⟩
    · rw [if_neg hfull]
      exact Or.inr ⟨Option.not_isSome_iff_eq_none.mp hthere, Bool.eq_false_of_not_eq_true hfull, rfl,
        rfl⟩

/-- An entry that is stored under a new key keeps what is held. -/
theorem Tracked.store (ht : Tracked now h) {b : Budget} {v : Entry}
    (hheld : ∀ r ∈ h.admitted, Counts now r → Holds es r) (hnew : es.get? v.key = none)
    (hentries : b.entries = es.put v)
    (hsaved : b.saved = h.budget.saved ∨ b.saved = es.put v) : Tracked now ⟨b, h.admitted⟩ := by
  have hput : ∀ r ∈ h.admitted, Counts now r → Holds (es.put v) r := by
    intro r hr hc
    refine (hheld r hr hc).put ?_
    intro hkey
    obtain ⟨active, -, hget⟩ := hheld r hr hc
    rw [← hkey, hnew] at hget
    cases hget
  constructor
  · exact ht.past
  · rw [hentries]
    exact hput
  · rcases hsaved with hsaved | hsaved
    · rw [hsaved]
      exact ht.heldSaved
    · rw [hsaved]
      exact hput
  · exact ht.apart

/-- A reservation of a new request is tracked when memory and file have it. -/
theorem Tracked.accept (ht : Tracked now h) (hnew : ∀ r ∈ h.admitted, r.key = doc.key →
      ¬Counts now r) (hheld : Holds h.budget.entries (doc.reservation now))
    (hsaved : Holds h.budget.saved (doc.reservation now)) :
    Tracked now ⟨h.budget, h.admitted ++ [doc.reservation now]⟩ := by
  constructor
  · rw [List.forall_mem_append]
    refine ⟨ht.past, fun r hr => ?_⟩
    rw [List.mem_singleton.mp hr]
    exact le_rfl
  · rw [List.forall_mem_append]
    refine ⟨ht.held, fun r hr _ => ?_⟩
    rw [List.mem_singleton.mp hr]
    exact hheld
  · rw [List.forall_mem_append]
    refine ⟨ht.heldSaved, fun r hr _ => ?_⟩
    rw [List.mem_singleton.mp hr]
    exact hsaved
  · rw [List.pairwise_append]
    refine ⟨ht.apart, List.pairwise_singleton _ _, ?_⟩
    intro r hr r' hr' hkey
    rw [List.mem_singleton.mp hr'] at hkey ⊢
    have hold := hnew r hr hkey
    rw [Counts, not_or, not_lt, Bool.not_eq_false] at hold
    exact hold

/-- `reserve` keeps track of the reservations, and keeps the limits. -/
theorem reserve_keeps (ht : Tracked now h) (hw : Within policies h.admitted) (doc : Doc)
    (saving : Saving) : Tracked now (step policies h (.reserve doc now saving)) ∧
      Within policies (step policies h (.reserve doc now saving)).admitted := by
  have hheld : ∀ r ∈ h.admitted, Counts now r → Holds (h.budget.entries.prune now) r :=
    fun r hr hc => (ht.held r hr hc).prune hc
  rcases reserve_cases h.budget doc (policies doc.sensorId) now saving with
    ⟨hrefused, hbudget⟩ | ⟨hnew, hroom, houtcome, hbudget⟩
  · simp only [step, if_neg hrefused, hbudget]
    exact ⟨⟨ht.past, hheld, ht.heldSaved, ht.apart⟩, hw⟩
  · obtain ⟨hentries, hsaved⟩ := save_cases
      { h.budget with entries := (h.budget.entries.prune now).put (doc.entry now) } saving
    have hstore : Tracked now
        ⟨Budget.save { h.budget with entries := (h.budget.entries.prune now).put (doc.entry now) }
          saving, h.admitted⟩ :=
      ht.store (v := doc.entry now) hheld hnew hentries hsaved
    by_cases hdone : saving = .done
    · subst hdone
      rw [if_pos rfl] at houtcome
      simp only [step, houtcome, hbudget, if_true]
      have hself : Holds ((h.budget.entries.prune now).put (doc.entry now)) (doc.reservation now) :=
        ⟨true, fun _ => rfl, Registry.get?_put_self _ (doc.entry now)⟩
      refine ⟨hstore.accept ?_ hself hself, hw.accept ht hheld hroom⟩
      intro r hr hkey hc
      obtain ⟨active, -, hget⟩ := hheld r hr hc
      rw [hkey, hnew] at hget
      cases hget
    · rw [if_neg hdone] at houtcome
      simp only [step, houtcome, hbudget, if_neg (nofun : Outcome.notSaved ≠ .admitted)]
      exact ⟨hstore, hw⟩

/-! ### Every run -/

/-- The events of a run whose clock does not go back. -/
def Nondecreasing (events : List Event) : Prop := (times events).Pairwise (· ≤ ·)

/-- The clock was read last at some time. -/
def ClockAt (events : List Event) (clock : ℚ) : Prop := ∀ t ∈ times events, t ≤ clock

theorem times_append (as bs : List Event) : times (as ++ bs) = times as ++ times bs :=
  List.filterMap_append

/-- A run keeps track of its reservations, and keeps the limits. -/
theorem run_keeps (policies : String → Policy) {events : List Event} (hevents : Nondecreasing events) :
    (∀ clock, ClockAt events clock → Tracked clock (Machine.run (step policies) start events)) ∧
      Within policies (Machine.run (step policies) start events).admitted := by
  induction events using List.reverseRecOn with
  | nil => exact ⟨fun clock _ => .start clock, .nil policies⟩
  | append_singleton events event ih =>
    rw [Nondecreasing, times_append, List.pairwise_append] at hevents
    obtain ⟨hbefore, -, hlast⟩ := hevents
    obtain ⟨htracked, hwithin⟩ := ih hbefore
    have hclock : ∀ clock, ClockAt (events ++ [event]) clock → ClockAt events clock := by
      intro clock h t ht
      apply h t
      rw [times_append]
      exact List.mem_append_left _ ht
    rw [Machine.run_snoc]
    cases event with
    | reserve doc now saving =>
      have hnow : ClockAt events now := fun t ht => hlast t ht now List.mem_cons_self
      obtain ⟨ht, hw⟩ := reserve_keeps (htracked now hnow) hwithin doc saving
      refine ⟨fun clock h => ht.mono (h now ?_), hw⟩
      rw [times_append]
      exact List.mem_append_right _ List.mem_cons_self
    | finish doc saving =>
      exact ⟨fun clock h => (htracked clock (hclock clock h)).finish doc saving, hwithin.finish doc⟩
    | restart =>
      refine ⟨fun clock h => ?_, hwithin⟩
      have ht := htracked clock (hclock clock h)
      exact ⟨ht.past, ht.heldSaved, ht.heldSaved, ht.apart⟩

theorem exists_clockAt (events : List Event) : ∃ clock, ClockAt events clock := by
  unfold ClockAt
  induction times events with
  | nil => exact ⟨0, fun t ht => absurd ht List.not_mem_nil⟩
  | cons t ts ih =>
    obtain ⟨clock, h⟩ := ih
    refine ⟨max t clock, ?_⟩
    rw [List.forall_mem_cons]
    exact ⟨le_max_left _ _, fun t' ht' => (h t' ht').trans (le_max_right _ _)⟩

/-- **The rolling-hour budget**, after every run: every hour of a sensor has
    at most its requests and bytes, every hour of a tenant whose policies
    agree at most their bytes, a sensor has at most its jobs unfinished, and a
    request is admitted again only after it was finished and an hour later. -/
theorem budget_holds (policies : String → Policy) (events : List Event)
    (hevents : Nondecreasing events) :
    Within policies (Machine.run (step policies) start events).admitted ∧
      (Machine.run (step policies) start events).admitted.Pairwise fun r r' =>
        r.key = r'.key → r.finished = true ∧ r.ts + 3600 ≤ r'.ts := by
  obtain ⟨htracked, hwithin⟩ := run_keeps policies hevents
  obtain ⟨clock, hclock⟩ := exists_clockAt events
  exact ⟨hwithin, (htracked clock hclock).apart⟩

/-- One job at a time: the second request is refused, also after a restart,
    until the first is finished. -/
theorem one_job_at_a_time : Within (fun _ => ⟨1, 2, 1000, 1000⟩)
    (Machine.run (step fun _ => ⟨1, 2, 1000, 1000⟩) start
      [.reserve ⟨"a", "1", "s", 500⟩ 0 .done, .restart, .reserve ⟨"a", "2", "s", 500⟩ 10 .done,
        .finish ⟨"a", "1", "s", 500⟩ .failed, .reserve ⟨"a", "2", "s", 500⟩ 20 .done]).admitted :=
  (budget_holds (fun _ => ⟨1, 2, 1000, 1000⟩)
    [.reserve ⟨"a", "1", "s", 500⟩ 0 .done, .restart, .reserve ⟨"a", "2", "s", 500⟩ 10 .done,
      .finish ⟨"a", "1", "s", 500⟩ .failed, .reserve ⟨"a", "2", "s", 500⟩ 20 .done]
    (by unfold Nondecreasing; decide +kernel)).1

end Preserve
