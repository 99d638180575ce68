import Mathlib.Algebra.Order.Ring.Rat
import CernityNdr.Framework.Freshest
import CernityNdr.Framework.Json
import CernityNdr.Framework.Run
import CernityNdr.Framework.Text

/-! # The Observation-Quality Cache

    The model of `QualityCache` of `services/finding-service/app.py`: the last
    measured visibility of each sensor of a tenant. Two clocks are at work, the
    time at which a sensor observed and the one at which the service received;
    a verdict is used while its age by either is below the limit.

    * `run_eq`: a run offers its valid samples to a cache of the freshest.
    * `quality_cache`: what holds after every run, and from there on. -/

namespace QualityCache

open Json (Dict)

variable {K : Type} [AddGroup K] [LinearOrder K]

/-! ### Samples -/

/-- A record that was accepted: its observation time, and when it was received. -/
structure Entry (K : Type) where
  tenant : String
  sensor : String
  record : Dict
  observed : K
  received : K

def Entry.key (e : Entry K) : String × String := (e.tenant, e.sensor)

def QUALITIES : List String := ["good", "degraded", "blind", "unknown"]

/-- `s.replace("Z", "+00:00")`. -/
def isoText (s : String) : String :=
  String.ofList (s.toList.flatMap fun c => if c = 'Z' then "+00:00".toList else [c])

/-- The checks of `put`. `fromisoformat` gives the timestamp of a moment;
    `some none` is a moment without a zone. -/
def sampleOf (fromisoformat : String → Option (Option K)) (record : Json) (now : K) :
    Option (Entry K) := do
  let d ← record.obj?
  guard ((Dict.get d "schema_version").str? = some "sensor-quality.v1")
  let tenant ← (Dict.get d "tenant_id").str?
  let sensor ← (Dict.get d "sensor_id").str?
  guard (Text.notBlank tenant && Text.notBlank sensor)
  guard ((Dict.get d "quality").str?.any (· ∈ QUALITIES))
  let reasons ← (Dict.get d "reasons").arr?
  guard (reasons.all fun r => r.str?.isSome)
  let text ← (Dict.get d "observed_at").str?
  let observed ← (fromisoformat (isoText text)).join
  some ⟨tenant, sensor, d, observed, now⟩

/-! ### The cache -/

/-- What the constructor checks. -/
structure Config (K : Type) [AddGroup K] [LinearOrder K] where
  ttl : K
  maximum : Nat
  ttl_pos : 0 < ttl
  maximum_pos : 1 ≤ maximum

abbrev Records (K : Type) := Registry (Entry.key : Entry K → String × String)

/-- `put`. -/
def put (cfg : Config K) (fromisoformat : String → Option (Option K)) (records : Records K)
    (record : Json) (now : K) : Records K :=
  match sampleOf fromisoformat record now with
  | none => records
  | some e => Freshest.offer Entry.observed cfg.maximum records e

/-- The answer of `lookup`: that nothing is known, and why, or a sample. -/
inductive Verdict (K : Type)
  | unknown (reasons : List String)
  | sample (e : Entry K)

/-- `lookup`. -/
def lookup (cfg : Config K) (records : Records K) (tenant sensor : String) (now : K) : Verdict K :=
  match records.get? (tenant, sensor) with
  | none => .unknown []
  | some e =>
    if cfg.ttl ≤ now - e.received ∨ cfg.ttl ≤ now - e.observed then .unknown ["STALE_QUALITY"]
    else .sample e

inductive Op (K : Type)
  | put (record : Json) (now : K)
  | lookup (tenant sensor : String) (now : K)

def Op.now : Op K → K
  | .put _ now => now
  | .lookup _ _ now => now

def step (cfg : Config K) (fromisoformat : String → Option (Option K)) (records : Records K) :
    Op K → Records K
  | .put record now => put cfg fromisoformat records record now
  | .lookup _ _ _ => records

def run (cfg : Config K) (fromisoformat : String → Option (Option K)) (ops : List (Op K)) : Records K :=
  Machine.run (step cfg fromisoformat) .empty ops

/-- The receipt clock does not go back. -/
def Clocked (ops : List (Op K)) : Prop := (ops.map Op.now).Pairwise (· ≤ ·)

/-- The key is cached after every step of `more`. -/
def Stays (cfg : Config K) (fromisoformat : String → Option (Option K)) (ops more : List (Op K))
    (k : String × String) : Prop :=
  ∀ pre, pre <+: more → k ∈ (run cfg fromisoformat (ops ++ pre)).keys

/-- What the cache keeps after the calls `ops`, whatever calls follow. -/
structure Sound (cfg : Config K) (fromisoformat : String → Option (Option K)) (ops : List (Op K)) :
    Prop where
  /-- There is room for every entry. -/
  room : (run cfg fromisoformat ops).vals.length ≤ cfg.maximum
  /-- While a key stays, only a later observation takes the place of its entry. -/
  rises : ∀ k prior more, (run cfg fromisoformat ops).get? k = some prior →
    Stays cfg fromisoformat ops more k →
    ∃ e, (run cfg fromisoformat (ops ++ more)).get? k = some e ∧
      (e = prior ∨ prior.observed < e.observed ∧
        ∃ record, .put record e.received ∈ more ∧ sampleOf fromisoformat record e.received = some e)
  /-- A replay, or an older observation, changes nothing at all. -/
  refused : ∀ record now e prior, sampleOf fromisoformat record now = some e →
    (run cfg fromisoformat ops).get? e.key = some prior → e.observed ≤ prior.observed →
    run cfg fromisoformat (ops ++ [.put record now]) = run cfg fromisoformat ops
  /-- Nor do any number of them, among other calls. -/
  replayed : ∀ k prior more, (run cfg fromisoformat ops).get? k = some prior →
    Stays cfg fromisoformat ops more k →
    (∀ record now e, .put record now ∈ more → sampleOf fromisoformat record now = some e →
      e.key = k → e.observed ≤ prior.observed) →
    (run cfg fromisoformat (ops ++ more)).get? k = some prior
  /-- A verdict is that of an update that was received, young by both clocks. -/
  fresh : ∀ tenant sensor now e,
    lookup cfg (run cfg fromisoformat ops) tenant sensor now = .sample e →
    e.key = (tenant, sensor) ∧ now - e.received < cfg.ttl ∧ now - e.observed < cfg.ttl ∧
      (∃ record, .put record e.received ∈ ops ∧ sampleOf fromisoformat record e.received = some e) ∧
      (Clocked (ops ++ [.lookup tenant sensor now]) → e.received ≤ now)

/-! ### Runs -/

variable {cfg : Config K} {fromisoformat : String → Option (Option K)} {ops more : List (Op K)}
  {records : Records K} {k : String × String} {record : Json} {now : K} {e : Entry K}

def Op.sample? (fromisoformat : String → Option (Option K)) : Op K → Option (Entry K)
  | .put record now => sampleOf fromisoformat record now
  | .lookup _ _ _ => none

/-- The valid samples of the calls. -/
def samples (fromisoformat : String → Option (Option K)) (ops : List (Op K)) : List (Entry K) :=
  ops.filterMap (Op.sample? fromisoformat)

omit [AddGroup K] [LinearOrder K] in
theorem samples_cons (fromisoformat : String → Option (Option K)) (op : Op K) (ops : List (Op K)) :
    samples fromisoformat (op :: ops) = (op.sample? fromisoformat).toList ++ samples fromisoformat ops := by
  rw [samples, List.filterMap_cons]
  cases op.sample? fromisoformat <;> rfl

omit [AddGroup K] [LinearOrder K] in
theorem received_sampleOf (h : sampleOf fromisoformat record now = some e) : e.received = now := by
  unfold sampleOf at h
  simp only [Option.bind_eq_bind, Option.bind_eq_some_iff] at h
  obtain ⟨d, -, -, -, tenant, -, sensor, -, -, -, -, -, reasons, -, -, -, text, -, observed, -, h⟩ := h
  rw [← Option.some.inj h]

omit [AddGroup K] [LinearOrder K] in
theorem mem_samples : e ∈ samples fromisoformat ops ↔
    ∃ record, .put record e.received ∈ ops ∧ sampleOf fromisoformat record e.received = some e := by
  rw [samples, List.mem_filterMap]
  constructor
  · rintro ⟨op, hop, hsample⟩
    cases op with
    | put record now =>
      obtain rfl := received_sampleOf hsample
      exact ⟨record, hop, hsample⟩
    | lookup tenant sensor now => cases hsample
  · rintro ⟨record, hop, hsample⟩
    exact ⟨_, hop, hsample⟩

/-- **A run** offers its samples. -/
theorem run_eq (records : Records K) (ops : List (Op K)) :
    Machine.run (step cfg fromisoformat) records ops =
      Freshest.offers Entry.observed cfg.maximum records (samples fromisoformat ops) := by
  induction ops generalizing records with
  | nil => rfl
  | cons op ops ih =>
    rw [Machine.run_cons, ih]
    cases op with
    | put record now =>
      rw [samples_cons, step, put, Op.sample?]
      cases sampleOf fromisoformat record now <;> rfl
    | lookup tenant sensor now => rfl

theorem run_append (cfg : Config K) (fromisoformat : String → Option (Option K)) (ops more : List (Op K)) :
    run cfg fromisoformat (ops ++ more) = Freshest.offers Entry.observed cfg.maximum
      (run cfg fromisoformat ops) (samples fromisoformat more) := by
  rw [run, Machine.run_append, run_eq]
  rfl

/-- A key that stays through the calls stays through their samples. -/
theorem stays_samples (h : ∀ pre, pre <+: more →
      k ∈ (Machine.run (step cfg fromisoformat) records pre).keys) :
    Freshest.Stays Entry.observed cfg.maximum k records (samples fromisoformat more) := by
  induction more generalizing records with
  | nil => trivial
  | cons op more ih =>
    have hrest : Freshest.Stays Entry.observed cfg.maximum k (step cfg fromisoformat records op)
        (samples fromisoformat more) :=
      ih fun pre hpre => h (op :: pre) ((List.prefix_cons_inj op).mpr hpre)
    have hone := h [op] ⟨more, rfl⟩
    cases op with
    | put record now =>
      rw [samples_cons, Op.sample?]
      rw [Machine.run_cons, Machine.run_nil, step, put] at hone
      rw [step, put] at hrest
      cases hsample : sampleOf fromisoformat record now with
      | none =>
        rw [hsample] at hrest
        exact hrest
      | some e =>
        rw [hsample] at hone hrest
        exact ⟨hone, hrest⟩
    | lookup tenant sensor now => exact hrest

theorem Stays.samples (h : Stays cfg fromisoformat ops more k) :
    Freshest.Stays Entry.observed cfg.maximum k (run cfg fromisoformat ops)
      (samples fromisoformat more) := by
  refine stays_samples fun pre hpre => ?_
  have hmem := h pre hpre
  rwa [run, Machine.run_append] at hmem

/-- A verdict that `lookup` returns. -/
theorem lookup_eq_sample {tenant sensor : String}
    (h : lookup cfg records tenant sensor now = .sample e) :
    records.get? (tenant, sensor) = some e ∧ now - e.received < cfg.ttl ∧ now - e.observed < cfg.ttl := by
  unfold lookup at h
  cases hget : records.get? (tenant, sensor) with
  | none => simp [hget] at h
  | some prior =>
    rw [hget] at h
    dsimp only at h
    split at h
    next => cases h
    next hyoung =>
      obtain rfl := Verdict.sample.inj h
      rw [not_or, not_le, not_le] at hyoung
      exact ⟨rfl, hyoung⟩

/-- **The quality cache** is sound after every run. -/
theorem quality_cache (cfg : Config K) (fromisoformat : String → Option (Option K)) (ops : List (Op K)) :
    Sound cfg fromisoformat ops := by
  constructor
  · rw [run, run_eq]
    exact Freshest.length_offers (Nat.zero_le _) _
  · intro k prior more hprior hstays
    obtain ⟨e, he, hcases⟩ := Freshest.get?_offers_of_stays hprior hstays.samples
    refine ⟨e, (run_append cfg fromisoformat ops more).symm ▸ he, ?_⟩
    exact hcases.imp_right fun h => ⟨h.1, mem_samples.mp h.2⟩
  · intro record now e prior hsample hprior hle
    have hone : samples fromisoformat [.put record now] = [e] := by
      rw [samples_cons, Op.sample?, hsample]
      rfl
    rw [run_append, hone]
    exact Freshest.offer_of_le hprior hle
  · intro k prior more hprior hstays hle
    rw [run_append]
    refine Freshest.get?_offers_of_le hprior hstays.samples fun e he hkey => ?_
    obtain ⟨record, hop, hsample⟩ := mem_samples.mp he
    exact hle record e.received e hop hsample hkey
  · intro tenant sensor now e hlookup
    obtain ⟨hget, hreceipt, hevent⟩ := lookup_eq_sample hlookup
    have hmem : e ∈ samples fromisoformat ops := by
      rw [run, run_eq] at hget
      exact (Freshest.mem_offers hget).resolve_left nofun
    obtain ⟨record, hop, hsample⟩ := mem_samples.mp hmem
    refine ⟨Registry.keyOf_of_get? hget, hreceipt, hevent, ⟨record, hop, hsample⟩, fun hclock => ?_⟩
    rw [Clocked, List.map_append, List.pairwise_append] at hclock
    exact hclock.2.2 e.received (List.mem_map_of_mem (f := Op.now) hop) now (List.mem_singleton_self _)

end QualityCache
