import Mathlib.Data.Prod.Lex
import Mathlib.Data.Rat.Floor
import CernityNdr.Finding.QualityCache
import CernityNdr.Framework.Conversion

/-! # Feature Windows

    The model of `FeatureExtractor` of `services/anomaly-detector/features.py`:
    the bytes that a source sent in each window of event time, from the
    observations of its connections. A row is pending until a watermark passes
    the end of its window.

    * `get?_pending`: what is pending after a run.
    * `conserved_of_orderly`: no evidence is lost while every row that is closed
      can be shown. -/

namespace FeatureWindows

open Json (Dict)

/-! ### Observations -/

abbrev Failure := Raised Empty

/-- What the code takes from the language and its libraries. -/
structure Env where
  /-- `str(ip_address(v))`, unless it raises `ValueError` -/
  ipAddress : Json → Option String
  /-- the network of an address, as the cohort names it -/
  subnet : String → String
  /-- the timestamp of `fromisoformat(s)`; `some none` is a moment without a zone -/
  fromisoformat : String → Option (Option ℚ)
  /-- `x is y or x == y`, as a set compares -/
  same : Json → Json → Bool
  same_refl : ∀ v, same v v = true
  /-- `sorted` of values that can be compared -/
  order : List Json → List Json
  order_perm : ∀ vs, (order vs).Perm vs

/-- An observation that `add` counts. -/
structure Obs where
  tenant : String
  obsId : String
  sensor : String
  src : String
  start : Int
  value : Nat
  /-- `obs['ts'].get('method', 'unknown')` -/
  method : Json

/-- The start of the window, the tenant and the source. -/
abbrev Key := Int × String × String

def Obs.key (o : Obs) : Key := (o.start, o.tenant, o.src)

/-- `v[key]`. -/
def subscript (v : Json) (key : String) : Except Failure Json :=
  match v with
  | .obj d => (Dict.get? d key).elim (.error .key) .ok
  | _ => .error .type

/-- The items of a loop over `v`. -/
def items (v : Json) : Except Failure (List Json) :=
  match v with
  | .arr xs => .ok xs
  | .obj d => .ok ((d.map fun m => Json.str m.1))
  | .str s => .ok (s.toList.map fun c => .str (String.singleton c))
  | _ => .error .type

/-- One of the entities is the address, as the source. -/
def anySource (env : Env) (addr : Json) : List Json → Except Failure Bool
  | [] => return false
  | e :: es => do
    let d ← Interpreter.members e
    if (Dict.get d "type").beq (.str "ip") && (Dict.get d "role").beq (.str "src") &&
        env.same (Dict.get d "value") addr then return true
    else anySource env addr es

/-- `isinstance(v, str) and v`. -/
def filled? (v : Json) : Option String := v.str?.filter (· ≠ "")

variable (env : Env) (window : Int)

/-- The body of the `try`; `none` where it returns. -/
def readObs (obs fields : Json) (value : Nat) : Except Failure (Option Obs) := do
  let tenant ← subscript obs "tenant"
  let obs_id ← subscript obs "obs_id"
  let sensor ← subscript obs "sensor_id"
  let addr ← subscript fields "src_ip"
  let src ← (env.ipAddress addr).elim (.error .value) .ok
  if !(← anySource env addr (← items (← subscript obs "entities"))) then return none
  let ts ← subscript obs "ts"
  match ← subscript ts "normalized" with
  | .str text => do
    let stamp ← (env.fromisoformat (QualityCache.isoText text)).elim (.error .value) .ok
    match stamp, filled? tenant, filled? obs_id, filled? sensor with
    | some stamp, some tenant, some obsId, some sensor =>
      let t ← (Interpreter.members ts : Except Failure Dict)
      return some ⟨tenant, obsId, sensor, src, ⌊stamp / window⌋ * window, value,
        Dict.getD t "method" (.str "unknown")⟩
    | _, _, _, _ => return none
  | _ => .error .attribute

/-- The observation that `add` counts, unless it returns before that, or raises. -/
def validate (obs : Json) : Except Failure (Option Obs) := do
  let d ← Interpreter.members obs
  if !(Dict.get d "schema").beq (.str "cernity.observation.v1") || !(Dict.get d "type").beq (.str "conn") then
    return none
  let fields := Dict.getD d "fields" (.obj [])
  let f ← Interpreter.members fields
  let flow ← Interpreter.members (Dict.getD f "flow" (.obj []))
  match Dict.get flow "bytes_toserver" with
  | .int n =>
    if n < 0 then return none
    else
      match readObs env window obs fields n.toNat with
      -- `except (KeyError, ValueError, TypeError): return`
      | .error .key | .error .value | .error .type => return none
      | r => r
  | _ => return none

/-! ### Rows -/

/-- `row['cohort']`. -/
structure Cohort where
  subnet : String
  role : String
  method : String

/-- A pending row. -/
structure Row where
  tenant : String
  entity : String
  start : Int
  stop : Int
  bytesOut : Nat
  cohort : Cohort
  evidenceRefs : Finset String
  sensorIds : Finset String
  timeMethods : List Json

def Row.key (r : Row) : Key := (r.start, r.tenant, r.entity)

/-- A row as `close` returns it. -/
structure FeatureRow where
  tenant : String
  entity : String
  start : Int
  stop : Int
  bytesOut : Nat
  cohort : Cohort
  evidenceRefs : List String
  sensorIds : List String
  timeMethods : List Json

def FeatureRow.key (r : FeatureRow) : Key := (r.start, r.tenant, r.entity)

/-- A value that a set can hold. -/
def hashable : Json → Bool
  | .arr _ | .obj _ => false
  | _ => true

/-- `s.add(v)`, where it does not raise. -/
def insertMethod (ms : List Json) (m : Json) : List Json :=
  if !hashable m || ms.any fun m' => env.same m' m then ms else ms ++ [m]

/-- The row that `setdefault` finds or makes. -/
def emptyRow (o : Obs) : Row :=
  ⟨o.tenant, o.src, o.start, o.start + window, 0,
    ⟨env.subnet o.src, "src", "source-ip-subnet-v1"⟩, ∅, ∅, []⟩

/-- What `add` does to the row. -/
def Row.add (r : Row) (o : Obs) : Row :=
  if o.obsId ∈ r.evidenceRefs then r
  else
    { r with
      bytesOut := r.bytesOut + o.value
      evidenceRefs := insert o.obsId r.evidenceRefs
      sensorIds := insert o.sensor r.sensorIds
      timeMethods := insertMethod env r.timeMethods o.method }

def isStr : Json → Bool
  | .str _ => true
  | _ => false

def isNumber : Json → Bool
  | .bool _ | .int _ | .float _ | .nan | .infinity _ => true
  | _ => false

/-- The methods can be compared: `sorted` of texts and numbers raises. -/
def Sortable (ms : List Json) : Prop :=
  (∀ m ∈ ms, isStr m = true) ∨ (∀ m ∈ ms, isNumber m = true) ∨ ∀ m ∈ ms, m.beq .null = true

instance (ms : List Json) : Decidable (Sortable ms) := inferInstanceAs (Decidable (_ ∨ _))

/-- The row with its sets sorted. -/
def Row.shown (r : Row) : FeatureRow :=
  ⟨r.tenant, r.entity, r.start, r.stop, r.bytesOut, r.cohort, sortedTexts r.evidenceRefs,
    sortedTexts r.sensorIds, env.order r.timeMethods⟩

/-! ### The extractor -/

structure Extractor where
  pending : Registry Row.key
  /-- none is `-inf` -/
  closedBefore : Option Int
  lateObservations : Nat

def Extractor.init : Extractor := ⟨.empty, none, 0⟩

/-- The mark has not passed the time. -/
def Open (closedBefore : Option Int) (start : Int) : Prop := ∀ b ∈ closedBefore, b ≤ start

instance (closedBefore : Option Int) (start : Int) : Decidable (Open closedBefore start) :=
  match closedBefore with
  | none => isTrue (by simp [Open])
  | some b => decidable_of_iff (b ≤ start) (by simp [Open])

/-- `max(self.closed_before, boundary)`. -/
def advance (closedBefore : Option Int) (boundary : Int) : Option Int :=
  match closedBefore with
  | none => some boundary
  | some b => some (if b ≤ boundary then boundary else b)

/-- `add` of an observation that counts. -/
def Extractor.count (s : Extractor) (o : Obs) : Extractor :=
  if ¬ Open s.closedBefore o.start then
    { s with lateObservations := s.lateObservations + 1 }
  else
    { s with
      pending := s.pending.put (((s.pending.get? o.key).getD (emptyRow env window o)).add env o) }

/-- `add`. -/
def Extractor.add (s : Extractor) (obs : Json) : Extractor :=
  match validate env window obs with
  | .ok (some o) => s.count env window o
  | _ => s

/-- A watermark, unless it is no number or infinite. -/
abbrev Watermark := Option ℚ

/-- `int(watermark // window) * window`, unless it raises. -/
def boundary (watermark : Watermark) : Option Int := watermark.map fun t : ℚ => ⌊t / window⌋ * window

/-- The order of the keys. -/
def Row.order (r : Row) : Int ×ₗ String ×ₗ String := toLex (r.start, toLex (r.tenant, r.entity))

/-- The loop of `close`: what is pending behind it, and the rows unless it raised. -/
def popRows (b : Int) : List Row → Registry Row.key → Registry Row.key × Option (List FeatureRow)
  | [], pending => (pending, some [])
  | r :: rs, pending =>
    if r.stop ≤ b then
      if Sortable r.timeMethods then
        let (pending, rows) := popRows b rs (pending.pop r.key)
        (pending, rows.map (r.shown env :: ·))
      else (pending.pop r.key, none)
    else popRows b rs pending

/-- `close`. -/
def Extractor.close (s : Extractor) (watermark : Watermark) : Extractor × Option (List FeatureRow) :=
  match boundary window watermark with
  | none => (s, none)
  | some b =>
    let sorted := s.pending.vals.insertionSort fun r r' => r.order ≤ r'.order
    match popRows env b sorted s.pending with
    | (pending, none) => ({ s with pending }, none)
    | (pending, some rows) => ({ s with pending, closedBefore := advance s.closedBefore b }, some rows)

inductive Event
  | add (obs : Json)
  | close (watermark : Watermark)

def step (s : Extractor) : Event → Extractor
  | .add obs => s.add env window obs
  | .close watermark => (s.close env window watermark).1

def run (events : List Event) : Extractor := Machine.run (step env window) .init events

/-- What a call raises or returns after the events. -/
def closing (pre : List Event) (watermark : Watermark) : Option (List FeatureRow) :=
  ((run env window pre).close env window watermark).2

/-- The rows that a call returns after the events. -/
def returned (pre : List Event) (watermark : Watermark) : List FeatureRow :=
  (closing env window pre watermark).getD []

/-! ### What rows gather -/

/-- The observation of an event, if it is one that counts. -/
def Event.obs? : Event → Option Obs
  | .add obs =>
    match validate env window obs with
    | .ok o => o
    | .error _ => none
  | .close _ => none

/-- The observations of a key, in the order of their calls. -/
def observations (k : Key) (events : List Event) : List Obs :=
  (events.filterMap (Event.obs? env window)).filter fun o => o.key = k

/-- The first observation of each id. -/
def firsts (os : List Obs) : List Obs :=
  os.foldl (fun fs o => if o.obsId ∈ fs.map Obs.obsId then fs else fs ++ [o]) []

/-- The row of distinct observations of the key of `o`. -/
def rowOf (o : Obs) (fs : List Obs) : Row :=
  { emptyRow env window o with
    bytesOut := (fs.map Obs.value).sum
    evidenceRefs := (fs.map Obs.obsId).toFinset
    sensorIds := (fs.map Obs.sensor).toFinset
    timeMethods := (fs.map Obs.method).foldl (insertMethod env) [] }

/-- The row of the observations of one key. -/
def gather : List Obs → Option Row
  | [] => none
  | o :: os => some (rowOf env window o (firsts (o :: os)))

theorem firsts_snoc (os : List Obs) (o : Obs) :
    firsts (os ++ [o]) = if o.obsId ∈ (firsts os).map Obs.obsId then firsts os
      else firsts os ++ [o] := by
  rw [firsts, List.foldl_append]
  rfl

theorem firsts_subset (os : List Obs) : firsts os ⊆ os := by
  induction os using List.reverseRecOn with
  | nil => exact List.Subset.refl _
  | append_singleton os o ih =>
    rw [firsts_snoc]
    split
    · exact fun x hx => List.mem_append_left _ (ih hx)
    · intro x hx
      rcases List.mem_append.mp hx with hx | hx
      · exact List.mem_append_left _ (ih hx)
      · exact List.mem_append_right _ hx

theorem firsts_nodup (os : List Obs) : ((firsts os).map Obs.obsId).Nodup := by
  induction os using List.reverseRecOn with
  | nil => exact List.nodup_nil
  | append_singleton os o ih =>
    rw [firsts_snoc]
    split
    · exact ih
    · next hnew =>
      rw [List.map_append, List.nodup_append]
      refine ⟨ih, List.nodup_singleton _, ?_⟩
      rintro a ha b hb rfl
      obtain rfl : a = o.obsId := by simpa using hb
      exact hnew ha

/-- The ids of the distinct observations are those of all. -/
theorem mem_firsts_ids {os : List Obs} {id : String} :
    id ∈ (firsts os).map Obs.obsId ↔ ∃ o ∈ os, o.obsId = id := by
  induction os using List.reverseRecOn with
  | nil => simp [firsts]
  | append_singleton os o ih =>
    rw [firsts_snoc]
    constructor
    · intro h
      split at h
      · obtain ⟨o', ho', rfl⟩ := ih.mp h
        exact ⟨o', List.mem_append_left _ ho', rfl⟩
      · rw [List.map_append] at h
        rcases List.mem_append.mp h with h | h
        · obtain ⟨o', ho', rfl⟩ := ih.mp h
          exact ⟨o', List.mem_append_left _ ho', rfl⟩
        · exact ⟨o, by simp, (List.mem_singleton.mp h).symm⟩
    · rintro ⟨o', ho', rfl⟩
      rcases List.mem_append.mp ho' with ho' | ho'
      · have hmem := ih.mpr ⟨o', ho', rfl⟩
        split
        · exact hmem
        · rw [List.map_append]
          exact List.mem_append_left _ hmem
      · obtain rfl : o' = o := by simpa using ho'
        split
        · assumption
        · simp

/-- Where equal ids are equal observations, none is left out. -/
theorem mem_firsts {os : List Obs} (h : ∀ o ∈ os, ∀ o' ∈ os, o.obsId = o'.obsId → o = o') {o : Obs} :
    o ∈ firsts os ↔ o ∈ os := by
  refine ⟨fun ho => firsts_subset os ho, fun ho => ?_⟩
  obtain ⟨o', ho', hid⟩ := List.mem_map.mp (mem_firsts_ids.mpr ⟨o, ho, rfl⟩)
  obtain rfl := h o' (firsts_subset os ho') o ho hid
  exact ho'

theorem gather_eq_some {os : List Obs} {r : Row} :
    gather env window os = some r ↔ ∃ o os', os = o :: os' ∧ r = rowOf env window o (firsts os) := by
  cases os with
  | nil => simp [gather]
  | cons o os => simp [gather, eq_comm]

theorem rowOf_snoc {o o' : Obs} {fs : List Obs} (hnew : o'.obsId ∉ fs.map Obs.obsId) :
    (rowOf env window o fs).add env o' = rowOf env window o (fs ++ [o']) := by
  have hid : o'.obsId ∉ (rowOf env window o fs).evidenceRefs := by
    simpa only [rowOf, List.mem_toFinset] using hnew
  rw [Row.add, if_neg hid]
  simp only [rowOf, List.map_append, List.sum_append, List.toFinset_append, List.foldl_append,
    List.map_cons, List.map_nil, List.sum_singleton, List.foldl_cons, List.foldl_nil,
    List.toFinset_cons, List.toFinset_nil, insert_empty_eq]
  rw [Finset.union_comm, ← Finset.insert_eq, Finset.union_comm, ← Finset.insert_eq]

theorem rowOf_repeat {o o' : Obs} {fs : List Obs} (hold : o'.obsId ∈ fs.map Obs.obsId) :
    (rowOf env window o fs).add env o' = rowOf env window o fs := by
  have hid : o'.obsId ∈ (rowOf env window o fs).evidenceRefs := by
    simpa only [rowOf, List.mem_toFinset] using hold
  rw [Row.add, if_pos hid]

theorem rowOf_congr {o o' : Obs} (h : o.key = o'.key) (fs : List Obs) :
    rowOf env window o fs = rowOf env window o' fs := by
  obtain ⟨hstart, htenant, hsrc⟩ : o.start = o'.start ∧ o.tenant = o'.tenant ∧ o.src = o'.src := by
    simpa only [Obs.key, Prod.mk.injEq] using h
  simp only [rowOf, emptyRow, hstart, htenant, hsrc]

/-- One more observation of the key. -/
theorem gather_snoc (os : List Obs) (o : Obs) :
    gather env window (os ++ [o]) =
      some (((gather env window os).getD (emptyRow env window o)).add env o) := by
  cases os with
  | nil => exact congrArg some (rowOf_snoc env window (by simp)).symm
  | cons o' os =>
    rw [List.cons_append, gather, ← List.cons_append, firsts_snoc, gather, Option.getD_some]
    split
    · next hold => rw [rowOf_repeat env window hold]
    · next hnew => rw [rowOf_snoc env window hnew]

theorem observations_snoc (k : Key) (events : List Event) (e : Event) :
    observations env window k (events ++ [e]) =
      observations env window k events ++
        (e.obs? env window).toList.filter fun o => o.key = k := by
  cases h : e.obs? env window with
  | none => simp [observations, h]
  | some o => simp [observations, h]

theorem key_of_mem {k : Key} {events : List Event} {o : Obs}
    (h : o ∈ observations env window k events) : o.key = k := by
  simpa using (List.mem_filter.mp h).2

theorem dvd_readObs {obs fields : Json} {value : Nat} {o : Obs}
    (h : readObs env window obs fields value = .ok (some o)) : window ∣ o.start := by
  unfold readObs at h
  obtain ⟨tenant, -, h⟩ := Except.bind_eq_ok.mp h
  obtain ⟨obsId, -, h⟩ := Except.bind_eq_ok.mp h
  obtain ⟨sensor, -, h⟩ := Except.bind_eq_ok.mp h
  obtain ⟨addr, -, h⟩ := Except.bind_eq_ok.mp h
  obtain ⟨src, -, h⟩ := Except.bind_eq_ok.mp h
  obtain ⟨entities, -, h⟩ := Except.bind_eq_ok.mp h
  obtain ⟨es, -, h⟩ := Except.bind_eq_ok.mp h
  obtain ⟨found, -, h⟩ := Except.bind_eq_ok.mp h
  split at h
  · cases h
  obtain ⟨ts, -, h⟩ := Except.bind_eq_ok.mp h
  obtain ⟨normalized, -, h⟩ := Except.bind_eq_ok.mp h
  split at h
  · obtain ⟨stamp, -, h⟩ := Except.bind_eq_ok.mp h
    split at h
    · obtain ⟨t, -, h⟩ := Except.bind_eq_ok.mp h
      cases h
      exact Dvd.intro_left _ rfl
    · cases h
  · cases h

/-- The window of an observation begins at a multiple of the width. -/
theorem dvd_start {obs : Json} {o : Obs} (h : validate env window obs = .ok (some o)) :
    window ∣ o.start := by
  unfold validate at h
  obtain ⟨d, -, h⟩ := Except.bind_eq_ok.mp h
  split at h
  · cases h
  obtain ⟨f, -, h⟩ := Except.bind_eq_ok.mp h
  obtain ⟨flow, -, h⟩ := Except.bind_eq_ok.mp h
  split at h
  · split at h
    · cases h
    · split at h
      · cases h
      · cases h
      · cases h
      · exact dvd_readObs env window h
  · cases h

theorem dvd_of_mem {k : Key} {events : List Event} {o : Obs}
    (h : o ∈ observations env window k events) : window ∣ k.1 := by
  obtain rfl := key_of_mem env window h
  obtain ⟨e, -, he⟩ := List.mem_filterMap.mp (List.mem_filter.mp h).1
  cases e with
  | close watermark => simp [Event.obs?] at he
  | add obs =>
    rw [Event.obs?] at he
    split at he
    · next hok => exact dvd_start env window (by rw [hok, he])
    · simp at he

/-! ### Closing -/

theorem popRows_eq (b : Int) {rs : List Row}
    (h : ∀ r ∈ rs, r.stop ≤ b → Sortable r.timeMethods) (pending : Registry Row.key) :
    popRows env b rs pending =
      (((rs.filter fun r => r.stop ≤ b).map Row.key).foldl Registry.pop pending,
        some ((rs.filter fun r => r.stop ≤ b).map (Row.shown env))) := by
  induction rs generalizing pending with
  | nil => rfl
  | cons r rs ih =>
    have hrs := fun r' hr' => h r' (List.mem_cons_of_mem r hr')
    rw [popRows]
    by_cases hstop : r.stop ≤ b
    · rw [if_pos hstop, if_pos (h r (by simp) hstop), ih hrs,
        List.filter_cons_of_pos (by simpa using hstop)]
      rfl
    · rw [if_neg hstop, ih hrs, List.filter_cons_of_neg (by simpa using hstop)]

/-- The rows that a call would pop can be shown. -/
def Orderly (s : Extractor) : Event → Prop
  | .add _ => True
  | .close watermark =>
    ∀ b, boundary window watermark = some b → ∀ r ∈ s.pending.vals, r.stop ≤ b →
      Sortable r.timeMethods

instance (s : Extractor) (e : Event) : Decidable (Orderly window s e) :=
  match e with
  | .add _ => isTrue trivial
  | .close watermark => decidable_of_iff (∀ b ∈ (boundary window watermark).toList,
      ∀ r ∈ s.pending.vals, r.stop ≤ b → Sortable r.timeMethods) (by simp [Orderly])

/-- The rows in the order of their keys. -/
def sortedRows (s : Extractor) : List Row :=
  s.pending.vals.insertionSort fun r r' => r.order ≤ r'.order

theorem mem_sortedRows {s : Extractor} {r : Row} : r ∈ sortedRows s ↔ r ∈ s.pending.vals :=
  (List.perm_insertionSort _ _).mem_iff

variable {env window}

theorem close_eq {s : Extractor} {watermark : Watermark} {b : Int}
    (h : Orderly window s (.close watermark)) (hb : boundary window watermark = some b) :
    s.close env window watermark =
      ({ s with
          pending := (((sortedRows s).filter fun r => r.stop ≤ b).map Row.key).foldl
            Registry.pop s.pending
          closedBefore := advance s.closedBefore b },
        some (((sortedRows s).filter fun r => r.stop ≤ b).map (Row.shown env))) := by
  have hrows := popRows_eq env b
    (fun r hr hstop => h b hb r (mem_sortedRows.mp hr) hstop) s.pending
  rw [Extractor.close, hb]
  simp only
  rw [← sortedRows, hrows]

theorem close_of_none {s : Extractor} {watermark : Watermark}
    (hb : boundary window watermark = none) : s.close env window watermark = (s, none) := by
  rw [Extractor.close, hb]

/-- What is pending behind a call. -/
theorem get?_close {s : Extractor} {watermark : Watermark} {b : Int}
    (h : Orderly window s (.close watermark)) (hb : boundary window watermark = some b) (k : Key) :
    (s.close env window watermark).1.pending.get? k =
      (s.pending.get? k).filter fun r => ¬ r.stop ≤ b := by
  rw [close_eq h hb, Registry.get?_foldl_pop]
  have hmem : k ∈ ((sortedRows s).filter fun r => r.stop ≤ b).map Row.key ↔
      ∃ r, s.pending.get? k = some r ∧ r.stop ≤ b := by
    simp only [List.mem_map, List.mem_filter, mem_sortedRows, decide_eq_true_eq,
      Registry.get?_eq_some]
    constructor
    · rintro ⟨r, ⟨hr, hstop⟩, hk⟩
      exact ⟨r, ⟨hr, hk⟩, hstop⟩
    · rintro ⟨r, ⟨hr, hk⟩, hstop⟩
      exact ⟨r, ⟨hr, hstop⟩, hk⟩
  cases hget : s.pending.get? k with
  | none =>
    simp
  | some r =>
    by_cases hstop : r.stop ≤ b
    · rw [if_pos (hmem.mpr ⟨r, hget, hstop⟩)]
      simp [Option.filter, hstop]
    · have hnot : k ∉ ((sortedRows s).filter fun r => r.stop ≤ b).map Row.key := by
        rw [hmem]
        rintro ⟨r', hr', hstop'⟩
        obtain rfl : r = r' := Option.some.inj (hget.symm.trans hr')
        exact hstop hstop'
      rw [if_neg hnot]
      simp [Option.filter, not_le.mp hstop]

/-- The rows that a call returns are those it pops. -/
theorem mem_close {s : Extractor} {watermark : Watermark} {rows : List FeatureRow} {b : Int}
    (h : Orderly window s (.close watermark)) (hb : boundary window watermark = some b)
    (hrows : (s.close env window watermark).2 = some rows) {fr : FeatureRow} :
    fr ∈ rows ↔ ∃ r, s.pending.get? r.key = some r ∧ r.stop ≤ b ∧ r.shown env = fr := by
  rw [close_eq h hb] at hrows
  obtain rfl := Option.some.inj hrows
  simp only [List.mem_map, List.mem_filter, mem_sortedRows, decide_eq_true_eq,
    Registry.get?_eq_some, and_true, and_assoc]

/-! ### The invariant -/

/-- A later mark closes more. -/
theorem open_advance {mark : Option Int} {b start : Int} :
    Open (advance mark b) start ↔ Open mark start ∧ b ≤ start := by
  cases mark with
  | none => simp [Open, advance]
  | some c =>
    simp only [Open, advance, Option.mem_some_iff, forall_eq']
    split
    · omega
    · omega

theorem mem_advance {mark : Option Int} {b b' : Int} (h : b' ∈ advance mark b) :
    b' ∈ mark ∨ b = b' := by
  cases mark with
  | none => exact .inr (Option.some.inj h)
  | some c =>
    simp only [advance, Option.mem_some_iff] at h ⊢
    split at h
    · exact .inr h
    · exact .inl h

theorem key_add (r : Row) (o : Obs) : (r.add env o).key = r.key := by
  rw [Row.add]
  split
  · rfl
  · rfl

theorem dvd_boundary {watermark : Watermark} {b : Int}
    (hb : boundary window watermark = some b) : window ∣ b := by
  obtain ⟨t, -, rfl⟩ := Option.map_eq_some_iff.mp hb
  exact Dvd.intro_left _ rfl

/-- A window ends at a boundary or before it when it begins before it. -/
theorem add_le_iff_lt (hw : 0 < window) {a b : Int} (ha : window ∣ a) (hb : window ∣ b) :
    a + window ≤ b ↔ a < b := by
  obtain ⟨m, rfl⟩ := ha
  obtain ⟨n, rfl⟩ := hb
  have hadd : window * m + window = window * (m + 1) := by ring
  rw [hadd, mul_le_mul_iff_right₀ hw, mul_lt_mul_iff_right₀ hw]
  exact Int.add_one_le_iff

/-- The row of a key. -/
theorem row_of_gather {k : Key} {events : List Event} {r : Row}
    (h : gather env window (observations env window k events) = some r) :
    r.key = k ∧ r.stop = r.start + window ∧ window ∣ r.start := by
  obtain ⟨o, os, hos, rfl⟩ := (gather_eq_some env window).mp h
  have ho : o ∈ observations env window k events := by simp [hos]
  obtain rfl := key_of_mem env window ho
  exact ⟨rfl, rfl, dvd_of_mem env window ho⟩

variable (env window) in
/-- What a run leaves: the rows of the windows that are not closed. -/
structure Inv (events : List Event) (s : Extractor) : Prop where
  dvd : ∀ b ∈ s.closedBefore, window ∣ b
  pending : ∀ k, s.pending.get? k =
    if Open s.closedBefore k.1 then gather env window (observations env window k events) else none

theorem inv_init : Inv env window [] .init :=
  ⟨fun _ h => (Option.not_mem_none _ h).elim, fun _ => (ite_self _).symm⟩

theorem step_add (s : Extractor) (obs : Json) :
    step env window s (.add obs) =
      ((Event.add obs).obs? env window).elim s (s.count env window) := by
  rw [step, Extractor.add, Event.obs?]
  split
  · next h => simp [h]
  · next h =>
    split
    · next o hok =>
      cases o with
      | none => rfl
      | some o => exact absurd hok (h o)
    · rfl

/-- One observation. -/
theorem inv_count {events : List Event} {s : Extractor} (hinv : Inv env window events s)
    {obs : Json} {o : Obs} (ho : (Event.add obs).obs? env window = some o) :
    Inv env window (events ++ [.add obs]) (s.count env window o) := by
  have hobs : ∀ k, observations env window k (events ++ [.add obs]) =
      observations env window k events ++ if o.key = k then [o] else [] := by
    intro k
    rw [observations_snoc, ho]
    by_cases hk : o.key = k
    · simp [hk]
    · simp [hk]
  rw [Extractor.count]
  split
  · next hlate =>
    refine ⟨hinv.dvd, fun k => ?_⟩
    rw [hobs k]
    show s.pending.get? k = if Open s.closedBefore k.1 then _ else none
    rw [hinv.pending k]
    by_cases hk : o.key = k
    · have hclosed : ¬ Open s.closedBefore k.1 := by
        subst hk
        exact hlate
      rw [if_neg hclosed, if_neg hclosed]
    · rw [if_neg hk, List.append_nil]
  · next hopen =>
    refine ⟨hinv.dvd, fun k => ?_⟩
    show (s.pending.put _).get? k = if Open s.closedBefore k.1 then _ else none
    have hkey : Row.key (((s.pending.get? o.key).getD (emptyRow env window o)).add env o) = o.key := by
      rw [key_add]
      cases hget : s.pending.get? o.key with
      | none => rfl
      | some r => exact Registry.keyOf_of_get? hget
    rw [Registry.get?_put, hkey, hobs k]
    by_cases hk : o.key = k
    · have hle : Open s.closedBefore k.1 := by
        subst hk
        exact not_not.mp hopen
      rw [if_pos hk, if_pos hk, if_pos hle, gather_snoc, hinv.pending, hk, if_pos hle]
    · rw [if_neg hk, if_neg hk, List.append_nil, hinv.pending]

/-- One call, where nothing is lost. -/
theorem inv_close (hw : 0 < window) {events : List Event} {s : Extractor}
    (hinv : Inv env window events s) {watermark : Watermark}
    (h : Orderly window s (.close watermark)) :
    Inv env window (events ++ [.close watermark]) (s.close env window watermark).1 := by
  have hobs : ∀ k, observations env window k (events ++ [.close watermark]) =
      observations env window k events := by
    intro k
    rw [observations_snoc]
    exact List.append_nil _
  cases hb : boundary window watermark with
  | none =>
    rw [close_of_none hb]
    exact ⟨hinv.dvd, fun k => by rw [hobs, hinv.pending]⟩
  | some b =>
    have hclosed : (s.close env window watermark).1.closedBefore = advance s.closedBefore b := by
      rw [close_eq h hb]
    refine ⟨fun b' hb' => ?_, fun k => ?_⟩
    · rw [hclosed] at hb'
      rcases mem_advance hb' with hb' | rfl
      · exact hinv.dvd b' hb'
      · exact dvd_boundary hb
    · rw [get?_close h hb, hobs, hclosed, hinv.pending]
      by_cases hle : Open s.closedBefore k.1
      · rw [if_pos hle]
        cases hg : gather env window (observations env window k events) with
        | none => simp
        | some r =>
          obtain ⟨rfl, hstop, hdvd⟩ := row_of_gather hg
          have hiff : r.stop ≤ b ↔ r.start < b := by
            rw [hstop, add_le_iff_lt hw hdvd (dvd_boundary hb)]
          by_cases hpop : r.start < b
          · have hnot : ¬ Open (advance s.closedBefore b) r.key.1 := by
              rw [open_advance]
              exact fun hmax => not_le.mpr hpop hmax.2
            rw [if_neg hnot]
            simp [Option.filter, hiff.mpr hpop]
          · have hboth : Open (advance s.closedBefore b) r.key.1 :=
              open_advance.mpr ⟨hle, not_lt.mp hpop⟩
            rw [if_pos hboth]
            simp [Option.filter, not_le.mp (mt hiff.mp hpop)]
      · have hnot : ¬ Open (advance s.closedBefore b) k.1 := fun hopen => hle (open_advance.mp hopen).1
        rw [if_neg hle, if_neg hnot]
        rfl

theorem inv_step (hw : 0 < window) {events : List Event} {s : Extractor} {e : Event}
    (hinv : Inv env window events s) (h : Orderly window s e) :
    Inv env window (events ++ [e]) (step env window s e) := by
  cases e with
  | close watermark => exact inv_close hw hinv h
  | add obs =>
    rw [step_add]
    cases ho : (Event.add obs).obs? env window with
    | none =>
      refine ⟨hinv.dvd, fun k => ?_⟩
      rw [observations_snoc, ho, Option.toList_none, List.filter_nil, List.append_nil]
      exact hinv.pending k
    | some o => exact inv_count hinv ho

/-- What is pending after a run. -/
theorem inv_run (hw : 0 < window) {events : List Event}
    (h : Machine.Meets (step env window) (Orderly window) .init events) :
    Inv env window events (run env window events) := by
  induction events using List.reverseRecOn with
  | nil => exact inv_init
  | append_singleton events e ih =>
    rw [run, Machine.run_snoc]
    exact inv_step hw (ih (h.of_initial (List.prefix_append _ _))) h.last

/-! ### Conservation -/

variable (env window) in
/-- A set that holds the same values, as the code compares them. -/
def Covers (ms ms' : List Json) : Prop := ∀ m ∈ ms, ∃ m' ∈ ms', env.same m' m = true

variable (env) in
/-- Equal rows. -/
structure SameRow (r r' : FeatureRow) : Prop where
  key : r.key = r'.key
  stop : r.stop = r'.stop
  bytesOut : r.bytesOut = r'.bytesOut
  cohort : r.cohort = r'.cohort
  evidenceRefs : r.evidenceRefs = r'.evidenceRefs
  sensorIds : r.sensorIds = r'.sensorIds
  timeMethods : Covers env r.timeMethods r'.timeMethods ∧ Covers env r'.timeMethods r.timeMethods

variable (env) in
/-- What a row tells of the observations of its key. -/
structure Tells (r : FeatureRow) (os : List Obs) : Prop where
  bytesOut : r.bytesOut = ((firsts os).map Obs.value).sum
  evidenceRefs : ∀ id, id ∈ r.evidenceRefs ↔ ∃ o ∈ os, o.obsId = id
  nodup : r.evidenceRefs.Nodup
  sensorIds : ∀ id, id ∈ r.sensorIds ↔ ∃ o ∈ firsts os, o.sensor = id

variable (env window) in
/-- No evidence is lost in a run, and none counts twice. -/
structure Conserved (events : List Event) : Prop where
  /-- A row is returned when a boundary has reached its end. -/
  closed : ∀ pre watermark post, events = pre ++ .close watermark :: post →
    ∀ r ∈ returned env window pre watermark,
      ∃ b, boundary window watermark = some b ∧ r.stop = r.start + window ∧ r.stop ≤ b
  /-- No call returns two rows of one key, ... -/
  distinct : ∀ pre watermark post, events = pre ++ .close watermark :: post →
    ((returned env window pre watermark).map FeatureRow.key).Nodup
  /-- ... nor do two calls. -/
  once : ∀ pre watermark mid watermark' post,
    events = pre ++ .close watermark :: (mid ++ .close watermark' :: post) →
    ∀ r ∈ returned env window pre watermark,
      ∀ r' ∈ returned env window (pre ++ .close watermark :: mid) watermark', r.key ≠ r'.key
  tells : ∀ pre watermark post, events = pre ++ .close watermark :: post →
    ∀ r ∈ returned env window pre watermark, Tells r (observations env window r.key pre)
  /-- The order of the observations does not matter. -/
  order : ∀ pre watermark post, events = pre ++ .close watermark :: post →
    ∀ r ∈ returned env window pre watermark, ∀ pre' watermark',
      Machine.Meets (step env window) (Orderly window) .init (pre' ++ [.close watermark']) →
      ∀ r' ∈ returned env window pre' watermark', r.key = r'.key →
      (observations env window r.key pre).Perm (observations env window r'.key pre') →
      (∀ o ∈ observations env window r.key pre, ∀ o' ∈ observations env window r.key pre,
        o.obsId = o'.obsId → o = o') →
      SameRow env r r'
  /-- An observation is late, or in the pending row of its key, or in a row that was returned. -/
  accounted : ∀ pre obs post o, events = pre ++ .add obs :: post →
    validate env window obs = .ok (some o) →
    (run env window (pre ++ [.add obs])).lateObservations =
        (run env window pre).lateObservations + 1 ∨
      (∃ row, (run env window events).pending.get? o.key = some row ∧ o.obsId ∈ row.evidenceRefs) ∨
      ∃ mid watermark post', post = mid ++ .close watermark :: post' ∧
        ∃ r ∈ returned env window (pre ++ .add obs :: mid) watermark,
          r.key = o.key ∧ o.obsId ∈ r.evidenceRefs

@[simp] theorem key_shown (r : Row) : (r.shown env).key = r.key := rfl

/-- The rows that a call returns are those that it pops. -/
theorem exists_of_mem_returned (hw : 0 < window) {pre : List Event} {watermark : Watermark}
    (h : Machine.Meets (step env window) (Orderly window) .init (pre ++ [.close watermark]))
    {fr : FeatureRow} (hfr : fr ∈ returned env window pre watermark) :
    ∃ b r, boundary window watermark = some b ∧
      (run env window pre).pending.get? r.key = some r ∧
      gather env window (observations env window r.key pre) = some r ∧ r.stop ≤ b ∧
      r.shown env = fr := by
  have hinv := inv_run hw (h.of_initial (List.prefix_append _ _))
  rw [returned, closing] at hfr
  cases hb : boundary window watermark with
  | none =>
    rw [close_of_none hb] at hfr
    cases hfr
  | some b =>
    cases hrows : ((run env window pre).close env window watermark).2 with
    | none =>
      rw [hrows] at hfr
      cases hfr
    | some rows =>
      rw [hrows] at hfr
      have hlast : Orderly window (run env window pre) (.close watermark) := h.last
      obtain ⟨r, hget, hstop, rfl⟩ := (mem_close hlast hb hrows).mp hfr
      have hgather := hget
      rw [hinv.pending] at hgather
      split at hgather
      · exact ⟨b, r, rfl, hget, hgather, hstop, rfl⟩
      · cases hgather

theorem nodup_returned {pre : List Event} {watermark : Watermark}
    (h : Machine.Meets (step env window) (Orderly window) .init (pre ++ [.close watermark])) :
    ((returned env window pre watermark).map FeatureRow.key).Nodup := by
  rw [returned, closing]
  cases hb : boundary window watermark with
  | none =>
    rw [close_of_none hb]
    exact List.nodup_nil
  | some b =>
    have hlast : Orderly window (run env window pre) (.close watermark) := h.last
    rw [close_eq hlast hb, Option.getD_some, List.map_map]
    have hperm : ((sortedRows (run env window pre)).map Row.key).Perm
        ((run env window pre).pending.vals.map Row.key) :=
      (List.perm_insertionSort _ _).map _
    exact (hperm.nodup_iff.mpr (run env window pre).pending.nodup).sublist
      (List.filter_sublist.map _)

theorem closedBefore_add (s : Extractor) (obs : Json) :
    (step env window s (.add obs)).closedBefore = s.closedBefore := by
  rw [step_add]
  cases (Event.add obs).obs? env window with
  | none => rfl
  | some o =>
    rw [Option.elim_some, Extractor.count]
    split
    · rfl
    · rfl

theorem open_of_step {s : Extractor} {e : Event} {start : Int}
    (h : Open (step env window s e).closedBefore start) : Open s.closedBefore start := by
  cases e with
  | add obs => rwa [closedBefore_add] at h
  | close watermark =>
    have hclose : Open (s.close env window watermark).1.closedBefore start := h
    rw [Extractor.close] at hclose
    split at hclose
    · exact hclose
    · dsimp only at hclose
      split at hclose
      · exact hclose
      · exact (open_advance.mp hclose).1

/-- Once a window is closed it stays so. -/
theorem not_open_append {events : List Event} {start : Int}
    (h : ¬ Open (run env window events).closedBefore start) (events' : List Event) :
    ¬ Open (run env window (events ++ events')).closedBefore start := by
  rw [run, Machine.run_append]
  exact Machine.run_invariant (P := fun s : Extractor => ¬ Open s.closedBefore start)
    (fun s e hs hopen => hs (open_of_step hopen)) h events'

/-- The windows that end at the boundary of a call are closed behind it. -/
theorem not_open_close (hw : 0 < window) {pre : List Event} {watermark : Watermark}
    (h : Machine.Meets (step env window) (Orderly window) .init (pre ++ [.close watermark]))
    {b : Int} (hb : boundary window watermark = some b) {start : Int} (hstart : start + window ≤ b) :
    ¬ Open (run env window (pre ++ [.close watermark])).closedBefore start := by
  rw [run, Machine.run_snoc]
  show ¬ Open ((run env window pre).close env window watermark).1.closedBefore start
  have hlast : Orderly window (run env window pre) (.close watermark) := h.last
  rw [close_eq hlast hb, open_advance]
  omega

/-- No two calls return rows of one key. -/
theorem key_ne (hw : 0 < window) {pre mid : List Event} {watermark watermark' : Watermark}
    (h : Machine.Meets (step env window) (Orderly window) .init
      (pre ++ .close watermark :: (mid ++ [.close watermark'])))
    {r r' : FeatureRow} (hr : r ∈ returned env window pre watermark)
    (hr' : r' ∈ returned env window (pre ++ .close watermark :: mid) watermark') : r.key ≠ r'.key := by
  have hsnoc : pre ++ Event.close watermark :: (mid ++ [.close watermark']) =
      (pre ++ .close watermark :: mid) ++ [.close watermark'] := by simp
  have hfirst := h.of_initial
    (show pre ++ [.close watermark] <+: _ from ⟨mid ++ [.close watermark'], by simp⟩)
  rw [hsnoc] at h
  obtain ⟨b, row, hb, -, hgather, hstop, rfl⟩ := exists_of_mem_returned hw hfirst hr
  obtain ⟨-, row', -, hget', -, -, rfl⟩ := exists_of_mem_returned hw h hr'
  intro hkey
  rw [key_shown, key_shown] at hkey
  obtain ⟨-, hend, -⟩ := row_of_gather hgather
  have hclosed : ¬ Open (run env window (pre ++ [.close watermark])).closedBefore row.key.1 :=
    not_open_close hw hfirst hb (show row.start + window ≤ b by omega)
  have hnot := not_open_append hclosed mid
  rw [List.append_assoc, List.singleton_append] at hnot
  rw [← hkey, (inv_run hw (h.of_initial (List.prefix_append _ _))).pending, if_neg hnot] at hget'
  cases hget'

theorem tells_of_gather {k : Key} {events : List Event} {r : Row}
    (h : gather env window (observations env window k events) = some r) :
    Tells (r.shown env) (observations env window k events) := by
  obtain ⟨o, os, -, rfl⟩ := (gather_eq_some env window).mp h
  refine ⟨rfl, fun id => ?_, ?_, fun id => ?_⟩
  · rw [← mem_firsts_ids]
    simp [Row.shown, rowOf]
  · simp [Row.shown]
  · simp [Row.shown, rowOf]

/-! ### The order of the observations -/

theorem subset_insertMethods (env : Env) (ms ms₀ : List Json) :
    ms.foldl (insertMethod env) ms₀ ⊆ ms₀ ++ ms ∧ ms₀ ⊆ ms.foldl (insertMethod env) ms₀ := by
  induction ms generalizing ms₀ with
  | nil => simp
  | cons m ms ih =>
    obtain ⟨hsub, hsup⟩ := ih (insertMethod env ms₀ m)
    have hone : insertMethod env ms₀ m ⊆ ms₀ ++ [m] ∧ ms₀ ⊆ insertMethod env ms₀ m := by
      rw [insertMethod]
      split
      · exact ⟨List.subset_append_left _ _, List.Subset.refl _⟩
      · exact ⟨List.Subset.refl _, List.subset_append_left _ _⟩
    rw [List.foldl_cons]
    refine ⟨fun x hx => ?_, fun x hx => hsup (hone.2 hx)⟩
    rcases List.mem_append.mp (hsub hx) with hx | hx
    · rcases List.mem_append.mp (hone.1 hx) with hx | hx
      · exact List.mem_append_left _ hx
      · exact List.mem_append_right _ (List.mem_cons.mpr (.inl (List.mem_singleton.mp hx)))
    · exact List.mem_append_right _ (List.mem_cons_of_mem m hx)

/-- Every method that a set can hold is in it, or one that equals it. -/
theorem exists_same {ms ms₀ : List Json} {m : Json} (hm : m ∈ ms) (hhash : hashable m = true) :
    ∃ m' ∈ ms.foldl (insertMethod env) ms₀, env.same m' m = true := by
  induction ms generalizing ms₀ with
  | nil => cases hm
  | cons m₁ ms ih =>
    rw [List.foldl_cons]
    rcases List.mem_cons.mp hm with rfl | hm
    · have hhere : ∃ m' ∈ insertMethod env ms₀ m, env.same m' m = true := by
        rw [insertMethod]
        split
        · next h =>
          simp only [hhash, Bool.not_true, Bool.false_or, List.any_eq_true] at h
          exact h
        · exact ⟨m, by simp, env.same_refl m⟩
      obtain ⟨m', hm', hsame⟩ := hhere
      exact ⟨m', (subset_insertMethods env ms _).2 hm', hsame⟩
    · exact ih hm

theorem hashable_of_mem {ms ms₀ : List Json} (h₀ : ∀ m ∈ ms₀, hashable m = true) :
    ∀ m ∈ ms.foldl (insertMethod env) ms₀, hashable m = true := by
  induction ms generalizing ms₀ with
  | nil => exact h₀
  | cons m₁ ms ih =>
    refine ih ?_
    rw [insertMethod]
    split
    · exact h₀
    · next h =>
      simp only [Bool.or_eq_true, not_or, Bool.not_eq_true, Bool.not_eq_false'] at h
      intro m hm
      rcases List.mem_append.mp hm with hm | hm
      · exact h₀ m hm
      · obtain rfl := List.mem_singleton.mp hm
        exact h.1

/-- Sets made of the same methods. -/
theorem covers_of_subset {ms ms' : List Json} (h : ms ⊆ ms') :
    Covers env (env.order (ms.foldl (insertMethod env) []))
      (env.order (ms'.foldl (insertMethod env) [])) := by
  intro m hm
  rw [(env.order_perm _).mem_iff] at hm
  have hmem : m ∈ ms := by simpa using (subset_insertMethods env ms []).1 hm
  obtain ⟨m', hm', hsame⟩ := @exists_same env _ [] _ (h hmem)
    (hashable_of_mem (by simp) m hm)
  exact ⟨m', (env.order_perm _).mem_iff.mpr hm', hsame⟩

theorem firsts_perm {os os' : List Obs} (hperm : os.Perm os')
    (h : ∀ o ∈ os, ∀ o' ∈ os, o.obsId = o'.obsId → o = o') : (firsts os).Perm (firsts os') := by
  have h' : ∀ o ∈ os', ∀ o' ∈ os', o.obsId = o'.obsId → o = o' := fun o ho o' ho' =>
    h o (hperm.mem_iff.mpr ho) o' (hperm.mem_iff.mpr ho')
  rw [List.perm_ext_iff_of_nodup (firsts_nodup os).of_map (firsts_nodup os').of_map]
  intro o
  rw [mem_firsts h, mem_firsts h', hperm.mem_iff]

/-- The order in which observations are added does not show. -/
theorem sameRow_of_perm {k k' : Key} {events events' : List Event} {r r' : Row}
    (hr : gather env window (observations env window k events) = some r)
    (hr' : gather env window (observations env window k' events') = some r')
    (hperm : (observations env window k events).Perm (observations env window k' events'))
    (h : ∀ o ∈ observations env window k events, ∀ o' ∈ observations env window k events,
      o.obsId = o'.obsId → o = o') : SameRow env (r.shown env) (r'.shown env) := by
  have hfirsts := firsts_perm hperm h
  obtain ⟨o, os, hos, rfl⟩ := (gather_eq_some env window).mp hr
  obtain ⟨o', os', hos', rfl⟩ := (gather_eq_some env window).mp hr'
  have ho : o ∈ observations env window k events := by simp [hos]
  have ho' : o' ∈ observations env window k events := hperm.mem_iff.mpr (by simp [hos'])
  rw [rowOf_congr env window ((key_of_mem env window ho).trans (key_of_mem env window ho').symm)]
  refine ⟨rfl, rfl, ?_, rfl, ?_, ?_, ?_, ?_⟩
  · exact (hfirsts.map Obs.value).sum_eq
  · exact congrArg sortedTexts (List.toFinset_eq_of_perm _ _ (hfirsts.map Obs.obsId))
  · exact congrArg sortedTexts (List.toFinset_eq_of_perm _ _ (hfirsts.map Obs.sensor))
  · exact covers_of_subset (hfirsts.map Obs.method).subset
  · exact covers_of_subset (hfirsts.map Obs.method).symm.subset

/-! ### Every observation is accounted for -/

/-- What is pending, of an observation whose window is not closed. -/
theorem exists_pending (hw : 0 < window) {events : List Event}
    (h : Machine.Meets (step env window) (Orderly window) .init events) {o : Obs}
    (ho : o ∈ observations env window o.key events)
    (hopen : Open (run env window events).closedBefore o.start) :
    ∃ r, (run env window events).pending.get? o.key = some r ∧ o.obsId ∈ r.evidenceRefs ∧
      r.stop = o.start + window := by
  have hkey : Open (run env window events).closedBefore o.key.1 := hopen
  rw [(inv_run hw h).pending, if_pos hkey]
  cases hos : observations env window o.key events with
  | nil => simp [hos] at ho
  | cons o₁ os =>
    have hgather : gather env window (observations env window o.key events) =
        some (rowOf env window o₁ (firsts (o₁ :: os))) := by rw [hos, gather]
    obtain ⟨hkey, hstop, -⟩ := row_of_gather hgather
    refine ⟨_, rfl, ?_, by rw [hstop]; exact congrArg (· + window) (congrArg Prod.fst hkey)⟩
    simp only [rowOf, List.mem_toFinset]
    exact mem_firsts_ids.mpr ⟨o, hos ▸ ho, rfl⟩

theorem mem_observations {pre post : List Event} {obs : Json} {o : Obs}
    (ho : validate env window obs = .ok (some o)) :
    o ∈ observations env window o.key (pre ++ .add obs :: post) := by
  refine List.mem_filter.mpr ⟨List.mem_filterMap.mpr ⟨.add obs, by simp, ?_⟩, by simp⟩
  rw [Event.obs?, ho]

/-- An observation that is not late is pending at the end, or some call returned its row. -/
theorem pending_or_returned (hw : 0 < window) {pre post : List Event} {obs : Json} {o : Obs}
    (h : Machine.Meets (step env window) (Orderly window) .init (pre ++ .add obs :: post))
    (ho : validate env window obs = .ok (some o))
    (hopen : Open (run env window (pre ++ [.add obs])).closedBefore o.start) :
    (∃ row, (run env window (pre ++ .add obs :: post)).pending.get? o.key = some row ∧
        o.obsId ∈ row.evidenceRefs) ∨
      ∃ mid watermark post', post = mid ++ .close watermark :: post' ∧
        ∃ r ∈ returned env window (pre ++ .add obs :: mid) watermark,
          r.key = o.key ∧ o.obsId ∈ r.evidenceRefs := by
  by_cases hend : Open (run env window (pre ++ .add obs :: post)).closedBefore o.start
  · obtain ⟨r, hget, hid, -⟩ := exists_pending hw h (mem_observations ho) hend
    exact .inl ⟨r, hget, hid⟩
  · refine .inr ?_
    have hsplit : ∀ mid : List Event, run env window (pre ++ .add obs :: mid) =
        Machine.run (step env window) (run env window (pre ++ [.add obs])) mid := by
      intro mid
      rw [run, run, ← Machine.run_append, List.append_assoc, List.singleton_append]
    obtain ⟨mid, e, post', rfl, hbefore, hafter⟩ := Machine.exists_turn
      (P := fun s : Extractor => ¬ Open s.closedBefore o.start) (not_not.mpr hopen) (hsplit post ▸ hend)
    rw [← hsplit, not_not] at hbefore
    rw [Machine.run_snoc, ← hsplit] at hafter
    have hthere := h.of_initial
      (show pre ++ .add obs :: mid <+: _ from ⟨e :: post', by simp⟩)
    have hcall := h.of_initial
      (show (pre ++ .add obs :: mid) ++ [e] <+: _ from ⟨post', by simp⟩)
    have horderly : Orderly window (run env window (pre ++ .add obs :: mid)) e := hcall.last
    obtain ⟨r, hget, hid, hstop⟩ := exists_pending hw hthere (mem_observations ho) hbefore
    cases e with
    | add obs' =>
      -- only a call of `close` moves the mark
      rw [closedBefore_add] at hafter
      exact absurd hbefore hafter
    | close watermark =>
      refine ⟨mid, watermark, post', rfl, ?_⟩
      have hmark : ¬ Open ((run env window (pre ++ .add obs :: mid)).close env window
          watermark).1.closedBefore o.start := hafter
      cases hb : boundary window watermark with
      | none =>
        rw [close_of_none hb] at hmark
        exact absurd hbefore hmark
      | some b =>
        rw [close_eq horderly hb, open_advance] at hmark
        have hlt : o.start < b := not_le.mp fun hle => hmark ⟨hbefore, hle⟩
        have hle : r.stop ≤ b := by
          rw [hstop]
          exact (add_le_iff_lt hw (dvd_start env window ho) (dvd_boundary hb)).mpr hlt
        have hkey := Registry.keyOf_of_get? hget
        refine ⟨r.shown env, ?_, hkey, by simpa [Row.shown] using hid⟩
        have hrows := congrArg Prod.snd (@close_eq env _ _ _ _ horderly hb)
        rw [returned, closing, hrows, Option.getD_some]
        exact (mem_close horderly hb hrows).mpr ⟨r, by rw [hkey]; exact hget, hle, rfl⟩

/-- An observation of a closed window is counted as late. -/
theorem late_of_not_open {pre : List Event} {obs : Json} {o : Obs}
    (ho : validate env window obs = .ok (some o))
    (hlate : ¬ Open (run env window pre).closedBefore o.start) :
    (run env window (pre ++ [.add obs])).lateObservations =
      (run env window pre).lateObservations + 1 := by
  have hobs : (Event.add obs).obs? env window = some o := by rw [Event.obs?, ho]
  rw [run, Machine.run_snoc, step_add, hobs, Option.elim_some, Extractor.count, ← run, if_pos hlate]

/-- Feature windows conserve evidence while every row that is closed can be shown. -/
theorem conserved_of_orderly (hw : 0 < window) {events : List Event}
    (h : Machine.Meets (step env window) (Orderly window) .init events) :
    Conserved env window events where
  closed pre watermark post heq r hr := by
    obtain ⟨b, row, hb, -, hgather, hstop, rfl⟩ :=
      exists_of_mem_returned hw (h.of_initial ⟨post, by simp [heq]⟩) hr
    exact ⟨b, hb, (row_of_gather hgather).2.1, hstop⟩
  distinct pre watermark post heq := nodup_returned (h.of_initial ⟨post, by simp [heq]⟩)
  once pre watermark mid watermark' post heq r hr r' hr' :=
    key_ne hw (h.of_initial ⟨post, by simp [heq]⟩) hr hr'
  tells pre watermark post heq r hr := by
    obtain ⟨b, row, -, -, hgather, -, rfl⟩ :=
      exists_of_mem_returned hw (h.of_initial ⟨post, by simp [heq]⟩) hr
    exact tells_of_gather hgather
  order pre watermark post heq r hr pre' watermark' h' r' hr' hkey hperm hsame := by
    obtain ⟨b, row, -, -, hgather, -, rfl⟩ :=
      exists_of_mem_returned hw (h.of_initial ⟨post, by simp [heq]⟩) hr
    obtain ⟨b', row', -, -, hgather', -, rfl⟩ := exists_of_mem_returned hw h' hr'
    exact sameRow_of_perm hgather hgather' hperm hsame
  accounted pre obs post o heq ho := by
    subst heq
    by_cases hopen : Open (run env window pre).closedBefore o.start
    · refine .inr (pending_or_returned hw h ho ?_)
      rw [run, Machine.run_snoc, closedBefore_add]
      exact hopen
    · exact .inl (late_of_not_open ho hopen)

/-! ### Runs -/

/-- A sample environment. -/
def sampleEnv : Env where
  ipAddress v := v.str?.filter (· = "10.0.0.1")
  subnet _ := "10.0.0.0/24"
  fromisoformat s := if s = "1970-01-01T00:00:01+00:00" then some (some 1) else none
  same := Json.beq
  same_refl := Json.beq_refl
  order ms := ms
  order_perm := List.Perm.refl

/-- A connection of the first second. -/
def sampleObs (obsId : String) (bytes : Int) (method : Json) : Json :=
  .obj [("schema", .str "cernity.observation.v1"), ("type", .str "conn"), ("tenant", .str "a"),
    ("sensor_id", .str "sensor"), ("obs_id", .str obsId),
    ("ts", .obj [("normalized", .str "1970-01-01T00:00:01Z"), ("method", method)]),
    ("entities", .arr [.obj [("type", .str "ip"), ("role", .str "src"), ("value", .str "10.0.0.1")]]),
    ("fields", .obj [("src_ip", .str "10.0.0.1"), ("flow", .obj [("bytes_toserver", .int bytes)])])]

/-- Two observations, the first of them twice, and one that is late. -/
def sampleEvents : List Event :=
  [.add (sampleObs "obs:1" 100 (.str "clock-offset")), .close (some 299),
    .add (sampleObs "obs:2" 7 (.str "ingest-fallback")),
    .add (sampleObs "obs:1" 100 (.str "clock-offset")), .close (some 300),
    .add (sampleObs "obs:3" 1 (.str "clock-offset")), .close (some 900)]

theorem orderly_sampleEvents :
    Machine.Meets (step sampleEnv 300) (Orderly 300) .init sampleEvents := by
  unfold sampleEvents
  iterate 7 refine Machine.Meets.cons (by decide +kernel) ?_
  exact Machine.Meets.nil _ _ _

theorem conserved_sampleEvents : Conserved sampleEnv 300 sampleEvents :=
  conserved_of_orderly (by decide) orderly_sampleEvents

/-- A method that is null beside one that is a text. -/
def mixedEvents : List Event :=
  [.add (sampleObs "obs:1" 100 (.str "clock-offset")), .add (sampleObs "obs:2" 7 .null),
    .close (some 300)]

/-- The call raises when it sorts the methods, and the row is gone. -/
theorem mixed_methods_lose_row : ¬ Conserved sampleEnv 300 mixedEvents := by
  intro h
  have hcounts : ((validate sampleEnv 300 (sampleObs "obs:1" 100 (.str "clock-offset"))).toOption.bind
      id).isSome = true := by decide +kernel
  obtain ⟨o, ho⟩ : ∃ o, validate sampleEnv 300 (sampleObs "obs:1" 100 (.str "clock-offset")) =
      .ok (some o) := by
    cases hv : validate sampleEnv 300 (sampleObs "obs:1" 100 (.str "clock-offset")) with
    | error e => simp [hv, Except.toOption] at hcounts
    | ok o =>
      obtain ⟨o, rfl⟩ := Option.isSome_iff_exists.mp (by simpa [hv, Except.toOption] using hcounts)
      exact ⟨o, rfl⟩
  rcases h.accounted [] _ _ o rfl ho with hlate | ⟨row, hget, -⟩ | ⟨mid, watermark, post', heq, r, hr, -⟩
  · exact absurd hlate (by decide +kernel)
  · have hgone : (run sampleEnv 300 mixedEvents).pending.vals = [] :=
      List.length_eq_zero_iff.mp (by decide +kernel)
    rw [Registry.get?, hgone] at hget
    cases hget
  · obtain ⟨rfl, rfl⟩ : mid = [.add (sampleObs "obs:2" 7 .null)] ∧ watermark = some 300 := by
      rcases mid with _ | ⟨e, _ | ⟨e', mid⟩⟩
      · simp at heq
      · simp only [List.cons_append, List.nil_append, List.cons.injEq, Event.close.injEq] at heq
        exact ⟨by rw [heq.1], heq.2.1.symm⟩
      · simp at heq
    have hnone : returned sampleEnv 300 [.add (sampleObs "obs:1" 100 (.str "clock-offset")),
        .add (sampleObs "obs:2" 7 .null)] (some 300) = [] :=
      List.length_eq_zero_iff.mp (by decide +kernel)
    rw [List.nil_append, hnone] at hr
    cases hr

end FeatureWindows
