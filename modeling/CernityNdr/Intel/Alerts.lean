import Mathlib.Data.Rat.Floor
import CernityNdr.Framework.Recent
import CernityNdr.Framework.Run
import CernityNdr.Intel.LiveMatch

/-! # Alerts of the Intel Detector

    The model of `process_observation`, `_managed_matches` and `_seen_once` of
    `threat-intel/app.py` over a configured store: which hits of an event
    become candidates, which stay in the audit of the store, and which are
    skipped because they were acted on before.

    What a digest is taken of is an `Identity`; the digest and the arithmetic
    of floats are parameters. `producer.send` only puts a candidate into the
    buffer of the producer and is taken not to raise. The acts of every
    process are kept beside the state, those of the event that ended it with
    them.

    * `sent_lawful`: what leaves the platform is neither suppressed nor red.
    * `handleHit_idle_iff`: when a hit is skipped.
    * `sent_apart`: when a finding is sent twice. -/

namespace ThreatIntel

open Json

/-! ### Configuration -/

/-- `NON_EXPORTABLE_TLP`. -/
def nonExportableTlp : List Tlp := [.red]

/-- `is_exportable`. -/
def IntelRecord.isExportable (r : IntelRecord) : Bool := r.tlp ∉ nonExportableTlp

namespace Alerts

/-- What the key of a hit is the digest of. -/
inductive Identity
  | hash (tenant : String) (src dst : Json) (indicator : String) (hour : ℤ)
  /-- a hit without its label `suppressed` -/
  | hit (tenant : String) (src dst : Json) (record : IntelRecord)
      (observedField observedValue : String) (hour : ℤ)

structure Env where
  lib : Library
  epoch : String → Except Failure ℚ
  /-- `TENANT` -/
  tenant : String
  /-- `_SEEN_MAX` -/
  seenMax : Nat
  /-- `sha256(json.dumps(identity))` -/
  sha256 : Identity → String
  /-- `int(score / 10)` -/
  tenths : ℚ → ℤ
  /-- `score / 100 * source_trust` -/
  weighted : ℚ → ℚ → ℚ

/-- Whether a hit is suppressed, and whether it may leave the platform. -/
structure Policy where
  suppressed : Bool
  exportable : Bool
deriving DecidableEq

/-- A value of `_seen`. -/
inductive Mark
  /-- what `_seen_once` stores -/
  | once
  | policy (p : Policy)
deriving DecidableEq

structure Candidate where
  findingId : String
  tenantId : String
  detectorId : String
  detectorVersion : String
  category : String
  severity : ℤ
  confidence : ℚ
  firstSeen : String
  lastSeen : String
  entities : List Json
  intelMatch : LiveHit
  /-- absent when empty -/
  evidenceRefs : List Json
  /-- absent when empty -/
  sensorIds : List Json
  state : String

/-- What is done about a hit. -/
inductive Outcome
  | sent (c : Candidate)
  | recorded

structure Act where
  key : String
  policy : Policy
  hit : LiveHit
  outcome : Outcome

def Act.entry (a : Act) : String × Mark := (a.key, .policy a.policy)

/-- The detector: its store, its memory, what it did since its start, and what
    each process before it did. -/
structure Detector where
  store : IntelStore
  seen : Recent.Table String Mark
  acts : List Act
  past : List (List Act)

/-- What each process did. -/
def Detector.processes (s : Detector) : List (List Act) := s.past ++ [s.acts]

/-- An event, with what the environment answers while it is handled: the
    clocks, and for each hit the id that is drawn and what raises. -/
structure Observation where
  eve : Dict
  now : ℚ
  /-- the wall clock of `_candidate` -/
  stamp : String
  ids : Nat → String
  faults : Nat → Fault

variable (env : Env)

/-! ### One hit -/

/-- `join_key_entities`. -/
def joinKeyEntities (eve : Dict) : List Json :=
  ["community_id", "flow_id"].filterMap fun key =>
    if (eve.get key).truthy then some (.obj [("type", .str key), ("value", eve.get key)]) else none

def ipEntity (role : String) (v : Json) : List Json :=
  if v.truthy then [.obj [("type", .str "ip"), ("role", .str role), ("value", v)]] else []

/-- `_candidate`, with what `_managed_matches` sets. -/
def candidate (o : Observation) (e : Dict) (key : String) (hit : LiveHit) : Candidate where
  findingId := "ti-" ++ key
  tenantId := env.tenant
  detectorId := "threat_intel"
  detectorVersion := "1.0"
  category := if hit.record.itype = .hash then "malware" else "c2"
  severity := max 1 (min 10 (env.tenths hit.record.score))
  confidence := env.weighted hit.record.score hit.record.sourceTrust
  firstSeen := o.stamp
  lastSeen := o.stamp
  entities :=
    .obj [("type", .str "ioc"), ("feed", .str hit.record.feed), ("value", .str hit.record.indicator)] ::
      (ipEntity "dst" (e.get "dest_ip") ++ ipEntity "src" (e.get "src_ip") ++ joinKeyEntities e)
  intelMatch := hit
  evidenceRefs := if hit.record.itype = .hash ∧ (e.get "obs_id").truthy then [e.get "obs_id"] else []
  sensorIds := if hit.record.itype = .hash ∧ (e.get "sensor_id").truthy then [e.get "sensor_id"] else []
  state := "CANDIDATE"

def identity (o : Observation) (e : Dict) (hit : LiveHit) : Identity :=
  if hit.record.itype = .hash then
    .hash env.tenant (e.get "src_ip") (e.get "dest_ip") hit.record.indicator ⌊o.now / 3600⌋
  else
    .hit env.tenant (e.get "src_ip") (e.get "dest_ip") hit.record hit.observedField hit.observedValue
      ⌊o.now / 3600⌋

def keyOf (o : Observation) (e : Dict) (hit : LiveHit) : String := env.sha256 (identity env o e hit)

def policyOf (hit : LiveHit) : Policy := ⟨hit.suppressed, hit.record.isExportable⟩

/-- `_seen_once`. -/
def seenOnce (seenMax : Nat) (seen : Recent.Table String Mark) (key : String) :
    Bool × Recent.Table String Mark :=
  if key ∈ seen.keys then (false, seen) else (true, (seen.push (key, .once)).trim seenMax)

/-- `_seen.pop(key, None)`, `_seen_once(key)`, `_seen[key] = policy`. -/
def settle (seenMax : Nat) (seen : Recent.Table String Mark) (key : String) (p : Policy) :
    Recent.Table String Mark :=
  (seenOnce seenMax (seen.pop key) key).2.put (key, .policy p)

/-- What was done about a hit goes into the memory. -/
def Detector.did (s : Detector) (a : Act) : Detector :=
  { s with seen := settle env.seenMax s.seen a.key a.policy, acts := s.acts ++ [a] }

/-- The body of the loop of `_managed_matches`; `none` where it raises. -/
def handleHit (o : Observation) (e : Dict) (s : Detector) (hit : LiveHit) (i : Nat) :
    Option Unit × Detector :=
  let key := keyOf env o e hit
  let policy := policyOf hit
  if s.seen.lookup key = some (.policy policy) then (some (), s)
  else if hit.suppressed || !hit.record.isExportable then
    match s.store.recordMatch env.tenant hit.record e o.now (o.ids i) (o.faults i) with
    | (.ok _, store) => (some (), { s with store := store }.did env ⟨key, policy, hit, .recorded⟩)
    | (.error _, store) => (none, { s with store := store })
  else (some (), s.did env ⟨key, policy, hit, .sent (candidate env o e key hit)⟩)

/-! ### One event -/

/-- The loop of `_managed_matches`. -/
def handleHits (o : Observation) (e : Dict) : Detector → List LiveHit → Nat → Option Unit × Detector
  | s, [], _ => (some (), s)
  | s, hit :: hits, i =>
    match handleHit env o e s hit i with
    | (some _, s') => handleHits o e s' hits (i + 1)
    | (none, s') => (none, s')

/-- The hits of an event in the store. -/
def hitsOf (o : Observation) (e : Dict) (s : Detector) : Option (List LiveHit) :=
  liveMatch env.lib env.epoch s.store env.tenant o.now e

/-- `_managed_matches`. -/
def managedMatches (o : Observation) (e : Dict) (s : Detector) : Option Unit × Detector :=
  match hitsOf env o e s with
  | some hits => handleHits env o e s hits 0
  | none => (none, s)

/-- The address of one entity of a file event. -/
def addAddress (e : Dict) (entity : Json) : Option Dict :=
  match entity with
  | .obj ms =>
    if (Dict.get ms "type").beq (.str "ip") then
      if (Dict.get ms "role").beq (.str "src") then (Dict.get? ms "value").map fun v => e.set "src_ip" v
      else if (Dict.get ms "role").beq (.str "dst") then
        (Dict.get? ms "value").map fun v => e.set "dest_ip" v
      else some e
    else some e
  | _ => none

/-- The event of a file with the addresses of its entities; `none` where it raises. -/
def envelope (e : Dict) : Option Dict :=
  if (e.get "type").beq (.str "file") then
    match e.get? "entities" with
    | none | some (.arr []) | some (.obj []) | some (.str "") => some e
    | some (.arr entities) => entities.foldlM addAddress e
    | some _ => none
  else some e

/-- The event says that it is another tenant's. -/
def foreign (eve : Dict) : Bool :=
  ["tenant", "tenant_id"].any fun k => !(eve.get k).beq .null && !(eve.get k).beq (.str env.tenant)

/-- `process_observation`; `none` where it raises. -/
def processObservation (s : Detector) (o : Observation) : Option Unit × Detector :=
  if foreign env o.eve then (some (), s)
  else
    match envelope o.eve with
    | some e => managedMatches env o e s
    | none => (none, s)

/-! ### Runs -/

/-- A new process over the store. -/
def Detector.restarted (s : Detector) : Detector := ⟨s.store, .empty, [], s.processes⟩

inductive Input
  | observe (o : Observation)
  /-- the refresher or an operator writes to the store -/
  | written (store : IntelStore)
  | restart

/-- One input. An exception ends the process. -/
def step (s : Detector) : Input → Detector
  | .observe o =>
    match processObservation env s o with
    | (some _, s') => s'
    | (none, s') => s'.restarted
  | .written store => { s with store := store }
  | .restart => s.restarted

def start (store : IntelStore) : Detector := ⟨store, .empty, [], []⟩

def after (store : IntelStore) (is : List Input) : Detector := Machine.run (step env) (start store) is

/-! ### The memory -/

/-- The youngest entry gets a new value in place. -/
theorem vals_put_last {r : Recent.Table String Mark} {old : List (String × Mark)} {key : String}
    {m : Mark} (h : r.vals = old ++ [(key, m)]) (m' : Mark) :
    (r.put (key, m')).vals = old ++ [(key, m')] := by
  have hkeys : key ∈ r.keys := List.mem_map.mpr ⟨(key, m), by simp [h], rfl⟩
  have hold : ∀ v ∈ old, v.1 ≠ key := by
    have hnodup := r.nodup
    rw [h, List.map_append, List.nodup_append] at hnodup
    intro v hv
    exact hnodup.2.2 v.1 (List.mem_map_of_mem hv) key (by simp)
  unfold Registry.put
  rw [if_pos hkeys]
  show r.vals.map _ = _
  rw [h, List.map_append]
  congr 1
  · refine (List.map_congr_left fun v hv => ?_).trans (List.map_id _)
    rw [if_neg (hold v hv), id]
  · simp

/-- A mark that is given is as young as it can be, also where `_seen_once`
    keeps nothing. -/
theorem settle_eq (seenMax : Nat) (seen : Recent.Table String Mark) (key : String) (p : Policy) :
    settle seenMax seen key p = Recent.remember (max 1 seenMax) seen (key, .policy p) := by
  have hnew : key ∉ (seen.pop key).keys := by
    intro hin
    obtain ⟨v, hv⟩ := Registry.mem_keys.mp hin
    simp at hv
  have htrim : (((seen.pop key).push (key, Mark.once)).trim seenMax).vals =
      ((seen.pop key).vals ++ [(key, Mark.once)]).drop ((seen.pop key).vals.length + 1 - seenMax) := by
    show (((seen.pop key).pop key).vals ++ [(key, Mark.once)]).drop
      ((((seen.pop key).pop key).vals ++ [(key, Mark.once)]).length - seenMax) = _
    rw [Registry.pop_of_notMem hnew, List.length_append]
    rfl
  apply Registry.ext_vals
  rw [settle, seenOnce, if_neg hnew]
  show _ = ((seen.pop key).vals ++ [(key, Mark.policy p)]).drop
    (((seen.pop key).vals ++ [(key, Mark.policy p)]).length - max 1 seenMax)
  rw [List.length_append, List.length_singleton]
  by_cases hzero : seenMax = 0
  · -- the mark of `_seen_once` is dropped at once
    subst hzero
    have hnil : (((seen.pop key).push (key, Mark.once)).trim 0).vals = [] := by
      rw [htrim]
      simp
    have hnone : key ∉ (((seen.pop key).push (key, Mark.once)).trim 0).keys := by
      simp [Registry.keys, hnil]
    rw [Registry.vals_put_of_notMem hnone, hnil]
    simp
  · have hle : (seen.pop key).vals.length + 1 - seenMax ≤ (seen.pop key).vals.length := by omega
    rw [List.drop_append_of_le_length hle] at htrim
    rw [vals_put_last htrim, Nat.max_eq_right (by omega), List.drop_append_of_le_length hle]

/-- What the detector knows, and what it did. -/
def Detector.memory (s : Detector) : Recent.Memory String Mark := ⟨s.seen, s.acts.map Act.entry⟩

theorem fst_entries (acts : List Act) : (acts.map Act.entry).map Prod.fst = acts.map Act.key := by
  rw [List.map_map]
  rfl

theorem memory_did (s : Detector) (a : Act) :
    (s.did env a).memory = s.memory.act (max 1 env.seenMax) a.entry := by
  rw [Detector.memory, Detector.did, settle_eq, List.map_append]
  rfl

/-! ### What is done about a hit -/

/-- An act about one of these hits. -/
structure Act.Answers (o : Observation) (e : Dict) (hits : List LiveHit) (a : Act) : Prop where
  hit : a.hit ∈ hits
  key : a.key = keyOf env o e a.hit
  policy : a.policy = policyOf a.hit
  sent : ∀ c, a.outcome = .sent c → c = candidate env o e a.key a.hit ∧ a.hit.suppressed = false ∧
    a.hit.record.tlp ≠ .red

/-- The memory is that of the acts. -/
def Detector.Sound (s : Detector) : Prop := s.memory.Sound (max 1 env.seenMax)

variable {env}

theorem isExportable_iff {r : IntelRecord} : r.isExportable = true ↔ r.tlp ≠ .red := by
  simp [IntelRecord.isExportable, nonExportableTlp]

variable (env) in
/-- A hit is skipped, or acted on, or the store refuses it. -/
theorem handleHit_cases (o : Observation) (e : Dict) (s : Detector) (hit : LiveHit) (i : Nat) :
    (s.seen.lookup (keyOf env o e hit) = some (.policy (policyOf hit)) ∧
        handleHit env o e s hit i = (some (), s)) ∨
      s.seen.lookup (keyOf env o e hit) ≠ some (.policy (policyOf hit)) ∧
        ((∃ store outcome, handleHit env o e s hit i =
            (some (), { s with store := store }.did env ⟨keyOf env o e hit, policyOf hit, hit, outcome⟩) ∧
          Act.Answers env o e [hit] ⟨keyOf env o e hit, policyOf hit, hit, outcome⟩) ∨
        ∃ store, handleHit env o e s hit i = (none, { s with store := store })) := by
  unfold handleHit
  dsimp only
  by_cases hknown : s.seen.lookup (keyOf env o e hit) = some (.policy (policyOf hit))
  · rw [if_pos hknown]
    exact Or.inl ⟨hknown, rfl⟩
  rw [if_neg hknown]
  refine Or.inr ⟨hknown, ?_⟩
  by_cases hlocal : (hit.suppressed || !hit.record.isExportable) = true
  · rw [if_pos hlocal]
    rcases s.store.recordMatch env.tenant hit.record e o.now (o.ids i) (o.faults i) with
      ⟨_ | _, store⟩
    · exact Or.inr ⟨store, rfl⟩
    · exact Or.inl ⟨store, .recorded, rfl, List.mem_singleton_self _, rfl, rfl,
        fun c hc => (by cases hc)⟩
  · rw [if_neg hlocal]
    rw [Bool.not_eq_true, Bool.or_eq_false_iff, Bool.not_eq_false', isExportable_iff] at hlocal
    exact Or.inl ⟨s.store, .sent (candidate env o e (keyOf env o e hit) hit), rfl,
      List.mem_singleton_self _, rfl, rfl, fun c hc => ⟨(Outcome.sent.inj hc).symm, hlocal⟩⟩

/-! ### What the store answers -/

/-- A hit is a record of the tenant that is active now, and is labelled as the
    store says. -/
structure IsHit (env : Env) (o : Observation) (store : IntelStore) (hit : LiveHit) : Prop where
  tenant : hit.record.tenant = env.tenant
  stored : ∃ r ∈ store.recordsOf env.tenant, derive env.epoch r o.now = .ok hit.record
  active : isActive env.epoch hit.record o.now = .ok true
  label : hit.suppressed =
    store.isSuppressed (env.tenant, hit.record.itype, hit.record.indicator) o.now

theorem isHit_considerRecord {o : Observation} {store : IntelStore} {d : Dimension}
    {normalized : String} {st st' : MatchState} {record : IntelRecord}
    (hrecord : record ∈ candidates env.lib store env.tenant d.kind normalized)
    (hst : ∀ hit ∈ st.hits, IsHit env o store hit)
    (h : considerRecord env.epoch store env.tenant o.now d normalized st record = .ok st') :
    ∀ hit ∈ st'.hits, IsHit env o store hit := by
  obtain ⟨hstored, hkind, _⟩ := mem_candidates.mp hrecord
  unfold considerRecord at h
  dsimp only at h
  split at h
  · obtain rfl := Except.ok.inj h
    exact hst
  · obtain ⟨r, hderive, h⟩ := Except.bind_eq_ok.mp h
    obtain ⟨active, hactive, h⟩ := Except.bind_eq_ok.mp h
    cases active with
    | false =>
      obtain rfl := Except.ok.inj h
      exact hst
    | true =>
      obtain rfl := Except.ok.inj h
      have hkey := derive_key hderive
      simp only [IntelRecord.key, Prod.mk.injEq] at hkey
      have htenant : record.tenant = env.tenant := by
        simpa using (List.mem_filter.mp hstored).2
      intro hit hhit
      rcases List.mem_append.mp hhit with hhit | hhit
      · exact hst hit hhit
      · rw [List.mem_singleton.mp hhit]
        refine ⟨hkey.1.trans htenant, ⟨record, hstored, hderive⟩, hactive, ?_⟩
        show store.isSuppressed (env.tenant, d.kind, r.indicator) o.now = _
        rw [← hkind, ← hkey.2.1]

theorem isHit_of_hitsOf {o : Observation} {e : Dict} {s : Detector} {hits : List LiveHit}
    (h : hitsOf env o e s = some hits) : ∀ hit ∈ hits, IsHit env o s.store hit := by
  unfold hitsOf liveMatch at h
  split at h
  · obtain rfl := Option.some.inj h
    simp
  · obtain ⟨dims, hdims, h⟩ := Option.bind_eq_some_iff.mp h
    obtain ⟨st, hst, rfl⟩ := Option.map_eq_some_iff.mp h
    have hrun : dims.foldlM (matchDimension env.lib env.epoch s.store env.tenant o.now) ⟨[], []⟩ = .ok st := by
      revert hst
      cases dims.foldlM (matchDimension env.lib env.epoch s.store env.tenant o.now) ⟨[], []⟩ with
      | error _ => exact fun h => by cases h
      | ok st' => exact fun h => congrArg Except.ok (Option.some.inj h)
    apply Except.foldlM_invariant (P := fun _ st => ∀ hit ∈ st.hits, IsHit env o s.store hit) _ _ hrun
    · intro _ d st st' _ hst hstep
      unfold matchDimension at hstep
      split at hstep
      · obtain rfl := Except.ok.inj hstep
        exact hst
      · exact Except.foldlM_invariant (P := fun _ st => ∀ hit ∈ st.hits, IsHit env o s.store hit)
          (fun _ record _ _ hrecord hst hstep => isHit_considerRecord hrecord hst hstep) hst hstep
    · simp

/-! ### Steps -/

theorem Detector.Sound.handleHit {s : Detector} (h : s.Sound env) (o : Observation) (e : Dict)
    (hit : LiveHit) (i : Nat) : (handleHit env o e s hit i).2.Sound env := by
  rcases handleHit_cases env o e s hit i with
    ⟨_, heq⟩ | ⟨hnew, ⟨store, outcome, heq, _⟩ | ⟨store, heq⟩⟩
  · rw [heq]
    exact h
  · rw [heq, Detector.Sound, memory_did]
    exact Recent.Memory.Sound.act h hnew
  · rw [heq]
    exact h

/-- What a process did, beyond what it had done. -/
def Since (s s' : Detector) (P : Act → Prop) : Prop :=
  s'.past = s.past ∧ ∃ new, s'.acts = s.acts ++ new ∧ ∀ a ∈ new, P a

theorem Since.refl (s : Detector) (store : IntelStore) (P : Act → Prop) :
    Since s { s with store := store } P :=
  ⟨rfl, [], (List.append_nil _).symm, by simp⟩

theorem Since.trans {s s' s'' : Detector} {P : Act → Prop} (h : Since s s' P) (h' : Since s' s'' P) :
    Since s s'' P := by
  obtain ⟨hpast, new, hacts, hnew⟩ := h
  obtain ⟨hpast', new', hacts', hnew'⟩ := h'
  refine ⟨hpast'.trans hpast, new ++ new', by rw [hacts', hacts, List.append_assoc], ?_⟩
  intro a ha
  exact (List.mem_append.mp ha).elim (hnew a) (hnew' a)

theorem Since.mono {s s' : Detector} {P Q : Act → Prop} (h : Since s s' P) (hPQ : ∀ a, P a → Q a) :
    Since s s' Q := by
  obtain ⟨hpast, new, hacts, hnew⟩ := h
  exact ⟨hpast, new, hacts, fun a ha => hPQ a (hnew a ha)⟩

variable (env) in
theorem since_handleHit (o : Observation) (e : Dict) (s : Detector) (hit : LiveHit) (i : Nat) :
    Since s (handleHit env o e s hit i).2 (Act.Answers env o e [hit]) := by
  rcases handleHit_cases env o e s hit i with
    ⟨_, heq⟩ | ⟨_, ⟨store, outcome, heq, hanswers⟩ | ⟨store, heq⟩⟩
  · rw [heq]
    exact Since.refl ..
  · rw [heq]
    exact ⟨rfl, [_], rfl, fun a ha => List.mem_singleton.mp ha ▸ hanswers⟩
  · rw [heq]
    exact Since.refl ..

variable (env) in
/-- The hits of one event. -/
theorem handleHits_spec (o : Observation) (e : Dict) (hits : List LiveHit) :
    ∀ {s : Detector} (i : Nat), s.Sound env → (handleHits env o e s hits i).2.Sound env ∧
      Since s (handleHits env o e s hits i).2 (Act.Answers env o e hits) := by
  induction hits with
  | nil =>
    intro s i h
    exact ⟨h, Since.refl ..⟩
  | cons hit hits ih =>
    intro s i h
    have hsound := h.handleHit o e hit i
    have hsince := since_handleHit env o e s hit i
    have hone : ∀ a, Act.Answers env o e [hit] a → Act.Answers env o e (hit :: hits) a := fun a ha =>
      { ha with hit := List.mem_cons.mpr (Or.inl (List.mem_singleton.mp ha.hit)) }
    have hrest : ∀ a, Act.Answers env o e hits a → Act.Answers env o e (hit :: hits) a := fun a ha =>
      { ha with hit := List.mem_cons_of_mem _ ha.hit }
    rw [handleHits]
    rcases hstep : handleHit env o e s hit i with ⟨_ | _, s'⟩
    · rw [hstep] at hsound hsince
      exact ⟨hsound, hsince.mono hone⟩
    · rw [hstep] at hsound hsince
      obtain ⟨hsound', hsince'⟩ := ih (i + 1) hsound
      exact ⟨hsound', (hsince.mono hone).trans (hsince'.mono hrest)⟩

/-- An act about a hit of an event of the tenant, in the store as it was. -/
def Act.For (env : Env) (o : Observation) (s : Detector) (a : Act) : Prop :=
  foreign env o.eve = false ∧ ∃ e hits, envelope o.eve = some e ∧ hitsOf env o e s = some hits ∧
    a.Answers env o e hits

theorem processObservation_spec {s : Detector} (h : s.Sound env) (o : Observation) :
    (processObservation env s o).2.Sound env ∧
      Since s (processObservation env s o).2 (Act.For env o s) := by
  unfold processObservation
  by_cases hforeign : foreign env o.eve = true
  · rw [if_pos hforeign]
    exact ⟨h, Since.refl ..⟩
  rw [if_neg hforeign]
  cases he : envelope o.eve with
  | none => exact ⟨h, Since.refl ..⟩
  | some e =>
    dsimp only
    unfold managedMatches
    cases hhits : hitsOf env o e s with
    | none => exact ⟨h, Since.refl ..⟩
    | some hits =>
      obtain ⟨hsound, hsince⟩ := handleHits_spec env o e hits 0 h
      exact ⟨hsound, hsince.mono fun a ha => ⟨Bool.not_eq_true _ ▸ hforeign, e, hits, he, hhits, ha⟩⟩

/-! ### Runs -/

theorem sound_restarted (s : Detector) : s.restarted.Sound env := Recent.Memory.sound_start _

/-- An event adds to what the process did, also when it ends the process. -/
theorem step_observe (s : Detector) (o : Observation) :
    step env s (.observe o) = (processObservation env s o).2 ∨
      step env s (.observe o) = (processObservation env s o).2.restarted := by
  show (match processObservation env s o with
    | (some _, s') => s'
    | (none, s') => s'.restarted) = _ ∨ _
  rcases hstep : processObservation env s o with ⟨_ | _, s'⟩
  · exact Or.inr (by simp [step, hstep])
  · exact Or.inl rfl

/-- The memory of every process, at its end, was that of its acts. -/
def Detector.Kept (env : Env) (s : Detector) : Prop :=
  ∀ acts ∈ s.past, ∃ t : Detector, t.Sound env ∧ t.acts = acts

theorem kept_restarted {s : Detector} (h : s.Sound env) (hkept : s.Kept env) : s.restarted.Kept env := by
  intro acts hacts
  rcases List.mem_append.mp hacts with hacts | hacts
  · exact hkept acts hacts
  · exact ⟨s, h, (List.mem_singleton.mp hacts).symm⟩

theorem sound_step {s : Detector} (h : s.Sound env ∧ s.Kept env) (input : Input) :
    (step env s input).Sound env ∧ (step env s input).Kept env := by
  obtain ⟨hsound, hkept⟩ := h
  cases input with
  | written store => exact ⟨hsound, hkept⟩
  | restart => exact ⟨sound_restarted s, kept_restarted hsound hkept⟩
  | observe o =>
    obtain ⟨hsound', hpast, -⟩ := processObservation_spec hsound o
    have hkept' : (processObservation env s o).2.Kept env := by rwa [Detector.Kept, hpast]
    rcases step_observe s o with heq | heq
    · rw [heq]
      exact ⟨hsound', hkept'⟩
    · rw [heq]
      exact ⟨sound_restarted _, kept_restarted hsound' hkept'⟩

variable (env) in
theorem sound_after (store : IntelStore) (is : List Input) :
    (after env store is).Sound env ∧ (after env store is).Kept env :=
  have hstart : (start store).Sound env := Recent.Memory.sound_start _
  Machine.run_invariant (P := fun s : Detector => s.Sound env ∧ s.Kept env)
    (fun _ input h => sound_step h input) ⟨hstart, fun _ h => by cases h⟩ is

variable (env) in
/-- Every act of a process goes back to an event. -/
theorem traced_after (store : IntelStore) (is : List Input) :
    ∀ a ∈ (after env store is).processes.flatten,
      ∃ pre o post, is = pre ++ .observe o :: post ∧ a.For env o (after env store pre) := by
  induction is using List.reverseRecOn with
  | nil =>
    intro a ha
    cases ha
  | append_singleton is input ih =>
    intro a ha
    have hrun : after env store (is ++ [input]) = step env (after env store is) input :=
      Machine.run_snoc _ _ _ _
    have hold : a ∈ (after env store is).processes.flatten →
        ∃ pre o post, is ++ [input] = pre ++ .observe o :: post ∧ a.For env o (after env store pre) := by
      intro ha
      obtain ⟨pre, o, post, rfl, hfor⟩ := ih a ha
      exact ⟨pre, o, post ++ [input], by simp, hfor⟩
    have hended : ∀ s : Detector, a ∈ s.restarted.processes.flatten → a ∈ s.processes.flatten := by
      intro s ha
      simpa [Detector.processes, Detector.restarted] using ha
    rw [hrun] at ha
    cases input with
    | written s => exact hold ha
    | restart => exact hold (hended _ ha)
    | observe o =>
      obtain ⟨-, hpast, new, hacts, hnew⟩ := processObservation_spec (sound_after env store is).1 o
      have hin : a ∈ (processObservation env (after env store is) o).2.processes.flatten := by
        rcases step_observe (after env store is) o with heq | heq
        · exact heq ▸ ha
        · exact hended _ (heq ▸ ha)
      rw [Detector.processes, hpast, hacts, List.flatten_append, List.flatten_singleton,
        ← List.append_assoc] at hin
      rcases List.mem_append.mp hin with ha | ha
      · exact hold (by rwa [Detector.processes, List.flatten_append, List.flatten_singleton])
      · exact ⟨is, o, [], rfl, hnew a ha⟩

/-! ### Two domains -/

def beacon (indicator : String) : IntelRecord where
  indicator := indicator
  itype := .domain
  source := "operator"
  feed := "local"
  score := 80
  tlp := .green
  sourceTrust := 1
  firstSeen := "2024-05-01T00:00:00Z"
  lastSeen := "2024-05-01T00:00:00Z"
  expiry := "2024-06-01T00:00:00Z"
  disposition := .active
  tenant := "default"
  provenance := [⟨"operator", "local", 80, .green, 1, "2024-05-01T00:00:00Z", "2024-05-01T00:00:00Z", none⟩]

/-- A detector that remembers one key. -/
def beaconEnv : Env where
  lib := ⟨id, id, fun _ => .error .invalid, fun _ => none, fun _ => false, fun _ _ => false,
    fun _ => false⟩
  epoch := fun text => if text = "2024-06-01T00:00:00Z" then .ok 1717200000 else .ok 1714521600
  tenant := "default"
  seenMax := 1
  sha256 := fun
    | .hash _ _ _ indicator _ => indicator
    | .hit _ _ _ record _ _ _ => record.indicator
  tenths := fun score => ⌊score / 10⌋
  weighted := fun score trust => score / 100 * trust

def beaconStore : IntelStore :=
  .fresh ⟨(Registry.empty.put (beacon "c2.example")).put (beacon "drop.example"), [], []⟩

/-- A lookup of a name. -/
def beaconQuery (name : String) : Observation where
  eve := [("src_ip", .str "10.0.0.5"), ("dns", .obj [("rrname", .str name)])]
  now := 1714525200
  stamp := "2024-05-01T01:00:00Z"
  ids := fun _ => "00000000"
  faults := fun _ => none

/-- The second lookup of `c2.example` is skipped, the third is not. -/
def beaconRun : List Input :=
  ["c2.example", "c2.example", "drop.example", "c2.example"].map fun name => .observe (beaconQuery name)

def Act.sent? (a : Act) : Option Candidate :=
  match a.outcome with
  | .sent c => some c
  | .recorded => none

theorem outcome_of_sent? {a : Act} {c : Candidate} (h : a.sent? = some c) : a.outcome = .sent c := by
  unfold Act.sent? at h
  split at h
  · next heq => rw [heq, Option.some.inj h]
  · cases h

/-- What the processes sent. -/
def Detector.sent (s : Detector) : List Candidate := s.processes.flatten.filterMap Act.sent?

/-- A candidate is of a hit in the store as it was at the event: a record of
    the tenant that is active, not suppressed, and not red. -/
structure SentFor (env : Env) (o : Observation) (store : IntelStore) (c : Candidate) : Prop where
  own : foreign env o.eve = false
  isHit : IsHit env o store c.intelMatch
  unsuppressed : store.isSuppressed
    (env.tenant, c.intelMatch.record.itype, c.intelMatch.record.indicator) o.now = false
  exportable : c.intelMatch.record.tlp ≠ .red
  built : ∃ e, envelope o.eve = some e ∧ c = candidate env o e (keyOf env o e c.intelMatch) c.intelMatch
  severity : 1 ≤ c.severity ∧ c.severity ≤ 10

theorem sent_lawful (store : IntelStore) (is : List Input) {c : Candidate}
    (h : c ∈ (after env store is).sent) :
    ∃ pre o post, is = pre ++ .observe o :: post ∧ SentFor env o (after env store pre).store c := by
  obtain ⟨a, ha, hc⟩ := List.mem_filterMap.mp h
  obtain ⟨pre, o, post, heq, hown, e, hits, he, hhits, hanswers⟩ := traced_after env store is a ha
  refine ⟨pre, o, post, heq, ?_⟩
  obtain ⟨rfl, hfree, htlp⟩ := hanswers.sent c (outcome_of_sent? hc)
  have hhit := isHit_of_hitsOf hhits a.hit hanswers.hit
  refine ⟨hown, hhit, hhit.label.symm.trans hfree, htlp, ⟨e, he, ?_⟩, ?_⟩
  · show candidate env o e a.key a.hit = candidate env o e (keyOf env o e a.hit) a.hit
    rw [← hanswers.key]
  · show 1 ≤ max 1 (min 10 (env.tenths a.hit.record.score)) ∧
      max 1 (min 10 (env.tenths a.hit.record.score)) ≤ 10
    exact ⟨le_max_left _ _, max_le (by decide) (min_le_left _ _)⟩

theorem sent_lawful_beacon : ∃ c, c ∈ (after beaconEnv beaconStore beaconRun).sent ∧
    ∃ pre o post, beaconRun = pre ++ .observe o :: post ∧
      SentFor beaconEnv o (after beaconEnv beaconStore pre).store c := by
  have hthree : (after beaconEnv beaconStore beaconRun).sent.length = 3 := by decide +kernel
  obtain ⟨c, hc⟩ := List.exists_mem_of_length_pos (by omega : 0 < (after beaconEnv beaconStore beaconRun).sent.length)
  exact ⟨c, hc, sent_lawful beaconStore beaconRun hc⟩

/-- The detector after these inputs and some hits of an event. -/
def amid (env : Env) (store : IntelStore) (is : List Input) (o : Observation) (e : Dict)
    (hits : List LiveHit) : Detector :=
  (handleHits env o e (after env store is) hits 0).2

/-- A hit is skipped exactly when it was acted on under the same key and the
    same policy, and since then fewer other keys than the memory holds. -/
theorem handleHit_idle_iff (store : IntelStore) (is : List Input) (o : Observation) (e : Dict)
    (hits : List LiveHit) (hit : LiveHit) (i : Nat) :
    handleHit env o e (amid env store is o e hits) hit i = (some (), amid env store is o e hits) ↔
      ∃ pre a post, (amid env store is o e hits).acts = pre ++ a :: post ∧ a.key = keyOf env o e hit ∧
        a.policy = policyOf hit ∧ a.key ∉ post.map Act.key ∧
        (post.map Act.key).dedup.length < max 1 env.seenMax := by
  have hsound : (amid env store is o e hits).Sound env :=
    (handleHits_spec env o e hits 0 (sound_after env store is).1).1
  generalize amid env store is o e hits = s at hsound ⊢
  have hknown : s.seen.lookup (keyOf env o e hit) = some (.policy (policyOf hit)) ↔
      ∃ pre a post, s.acts = pre ++ a :: post ∧ a.key = keyOf env o e hit ∧
        a.policy = policyOf hit ∧ a.key ∉ post.map Act.key ∧
        (post.map Act.key).dedup.length < max 1 env.seenMax := by
    refine (Recent.Memory.Sound.known_iff hsound).trans ?_
    constructor
    · intro ⟨pre, post, hdone, hnot, hfew⟩
      obtain ⟨pre', rest, hacts, rfl, hrest⟩ := List.map_eq_append_iff.mp hdone
      obtain ⟨a, post', rfl, ha, rfl⟩ := List.map_eq_cons_iff.mp hrest
      simp only [Act.entry, Prod.mk.injEq, Mark.policy.injEq] at ha
      rw [fst_entries] at hnot hfew
      exact ⟨pre', a, post', hacts, ha.1, ha.2, ha.1 ▸ hnot, hfew⟩
    · intro ⟨pre, a, post, hacts, hkey, hpolicy, hnot, hfew⟩
      refine ⟨pre.map Act.entry, post.map Act.entry, ?_, ?_, ?_⟩
      · show s.acts.map Act.entry = _
        rw [hacts, List.map_append, List.map_cons, ← hkey, ← hpolicy]
        rfl
      · rwa [fst_entries, ← hkey]
      · rwa [fst_entries]
  rw [← hknown]
  rcases handleHit_cases env o e s hit i with
    ⟨hin, heq⟩ | ⟨hnew, ⟨store, outcome, heq, _⟩ | ⟨store, heq⟩⟩
  · exact iff_of_true heq hin
  · refine iff_of_false ?_ hnew
    intro hidle
    -- the history is longer than before
    have hacts := congrArg (fun r => r.2.acts.length) (heq.symm.trans hidle)
    simp [Detector.did] at hacts
  · refine iff_of_false ?_ hnew
    intro hidle
    have hraised := congrArg Prod.fst (heq.symm.trans hidle)
    cases hraised

/-- A finding is sent twice by a process only when in between its key was acted
    on in another way, or as many other keys as the memory holds. -/
theorem sent_apart (store : IntelStore) (is : List Input) {pre mid post : List Act} {a b : Act}
    {id : String} (hacts : pre ++ a :: (mid ++ b :: post) ∈ (after env store is).processes)
    (ha : a.sent?.map Candidate.findingId = some id) (hb : b.sent?.map Candidate.findingId = some id) :
    (∃ x ∈ mid, x.key = a.key) ∨ max 1 env.seenMax ≤ (mid.map Act.key).dedup.length := by
  obtain ⟨s, hsound, hs⟩ : ∃ s : Detector, s.Sound env ∧ s.acts = pre ++ a :: (mid ++ b :: post) := by
    rcases List.mem_append.mp hacts with hpast | hlive
    · exact (sound_after env store is).2 _ hpast
    · exact ⟨_, (sound_after env store is).1, (List.mem_singleton.mp hlive).symm⟩
  -- what is sent under one id has one key, and one policy
  have hsent : ∀ x ∈ pre ++ a :: (mid ++ b :: post), x.sent?.map Candidate.findingId = some id →
      id = "ti-" ++ x.key ∧ x.policy = ⟨false, true⟩ := by
    intro x hx hid
    obtain ⟨_, _, _, _, _, e, hits, _, _, hanswers⟩ :=
      traced_after env store is x (List.mem_flatten_of_mem hacts hx)
    obtain ⟨c, hc, rfl⟩ := Option.map_eq_some_iff.mp hid
    obtain ⟨rfl, hfree, htlp⟩ := hanswers.sent c (outcome_of_sent? hc)
    refine ⟨rfl, hanswers.policy.trans ?_⟩
    rw [policyOf, hfree, isExportable_iff.mpr htlp]
  obtain ⟨hida, hpa⟩ := hsent a (by simp) ha
  obtain ⟨hidb, hpb⟩ := hsent b (by simp) hb
  have hkey : a.key = b.key := (String.append_right_inj "ti-").mp (hida.symm.trans hidb)
  by_cases hmid : ∃ x ∈ mid, x.key = a.key
  · exact Or.inl hmid
  right
  have hdone : s.memory.done =
      pre.map Act.entry ++ (a.key, .policy a.policy) ::
        (mid.map Act.entry ++ (a.key, .policy a.policy) :: post.map Act.entry) := by
    show s.acts.map Act.entry = _
    rw [hs]
    simp [Act.entry, hkey, hpa, hpb]
  rw [← fst_entries]
  refine Recent.Memory.Sound.apart hsound hdone ?_
  rw [fst_entries]
  intro hin
  obtain ⟨x, hx, hxkey⟩ := List.mem_map.mp hin
  exact hmid ⟨x, hx, hxkey⟩

theorem sent_apart_beacon : ∃ a x b, (after beaconEnv beaconStore beaconRun).acts = [a, x, b] ∧
    ((∃ y ∈ [x], y.key = a.key) ∨ max 1 beaconEnv.seenMax ≤ ([x].map Act.key).dedup.length) := by
  have hids : (after beaconEnv beaconStore beaconRun).acts.map (fun a => a.sent?.map Candidate.findingId) =
      [some "ti-c2.example", some "ti-drop.example", some "ti-c2.example"] := by decide +kernel
  obtain ⟨a, x, b, hacts⟩ : ∃ a x b, (after beaconEnv beaconStore beaconRun).acts = [a, x, b] := by
    apply List.length_eq_three.mp
    have hlen := congrArg List.length hids
    rwa [List.length_map] at hlen
  rw [hacts] at hids
  simp only [List.map_cons, List.map_nil, List.cons.injEq] at hids
  have hin : [a, x, b] ∈ (after beaconEnv beaconStore beaconRun).processes := by
    rw [← hacts]
    exact List.mem_append_right _ (List.mem_singleton_self _)
  exact ⟨a, x, b, hacts, @sent_apart beaconEnv beaconStore beaconRun [] [x] [] a b _ hin
    hids.1 hids.2.2.1⟩

end Alerts

end ThreatIntel
