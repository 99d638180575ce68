import CernityNdr.Framework.Conversion
import CernityNdr.Framework.Streaks
import CernityNdr.Window.Members

/-! # JA4 Novelty

    The model of `_ja4_observe` of `services/protocol-detectors/app.py`, and of
    what it calls of `proto.py`: a client fingerprint is new to a source once
    the source has been observed long and often enough. Every observation is
    scored before it is learned, on the in-memory store.

    * `Remembers`: what the store keeps of a run.
    * `ja4_novelty_iff`: when a run reports an observation as new. -/

namespace Ja4

open Json (Dict)
open InMemoryStore

/-! ### Fingerprints -/

def isDigit (c : Char) : Bool := '0' ≤ c && c ≤ '9'

/-- `[0-9a-f]` -/
def isHex (c : Char) : Bool := isDigit c || ('a' ≤ c && c ≤ 'f')

/-- `[a-z0-9]` -/
def isAlnum (c : Char) : Bool := isDigit c || ('a' ≤ c && c ≤ 'z')

/-- `1[0-3]|s[23]|d[12]|00` -/
def isVersion (a b : Char) : Bool :=
  (a = '1' && '0' ≤ b && b ≤ '3') || (a = 's' && (b = '2' || b = '3')) ||
    (a = 'd' && (b = '1' || b = '2')) || (a = '0' && b = '0')

/-- `_[0-9a-f]{12}_[0-9a-f]{12}` -/
def isTail : List Char → Bool
  | '_' :: cs => cs.length = 25 && (cs.take 12).all isHex && (cs.drop 12).head? = some '_' &&
      (cs.drop 13).all isHex
  | _ => false

def ja4Valid (fp : String) : Bool :=
  match fp.toList with
  | q :: v :: v' :: d :: n₁ :: n₂ :: n₃ :: n₄ :: a :: a' :: tail =>
    (q = 't' || q = 'q' || q = 'd') && isVersion v v' && (d = 'd' || d = 'i') &&
      [n₁, n₂, n₃, n₄].all isDigit && [a, a'].all isAlnum && isTail tail
  | _ => false

def ja4Parts (fp : String) : Option (List String) :=
  if ja4Valid fp then some ((fp.toList.splitOn '_').map String.ofList) else none

def ja4Ac (fp : String) : String :=
  match ja4Parts fp with
  | some [a, _, c] => a ++ "_" ++ c
  | _ => ""

/-! ### Scores -/

inductive Maturity
  | cold
  | warming
  | ready
deriving DecidableEq

def Maturity.text : Maturity → String
  | .cold => "cold"
  | .warming => "warming"
  | .ready => "ready"

def baselineMaturity (observations : Int) (distinct : Nat) (firstSeenTs : Option ℚ) (now : ℚ)
    (minObservations : Int) (minSpanSecs : ℚ) : Maturity :=
  match firstSeenTs with
  | none => .cold
  | some first =>
    if observations < minObservations ∨ distinct < 1 then .cold
    else if minSpanSecs ≤ now - first then .ready
    else .warming

/-- What `ja4_novelty` returns. -/
structure Novelty where
  hit : Bool
  reasons : List String
  confidence : ℚ
  severity : Int

def ja4Novelty (fp : String) (entitySeen entityAcSeen : List String) (fleetCount : Nat)
    (maturity : Maturity) (rareMaxEntities : Int) (corroborated : Bool) : Novelty :=
  if !ja4Valid fp || maturity ≠ .ready || fp ∈ entitySeen then ⟨false, [], 0, 0⟩
  else
    let rare : Bool := fleetCount ≤ rareMaxEntities
    let reasons := "JA4_NEW_TO_ENTITY" :: if rare then ["JA4_RARE_IN_FLEET"] else []
    let (severity, confidence) : Int × ℚ := if rare || corroborated then (5, 1 / 2) else (2, 3 / 10)
    if ja4Ac fp ∈ entityAcSeen then
      ⟨true, reasons ++ ["JA4_AC_SIMILARITY"], confidence * (1 / 2), max 1 (severity - 1)⟩
    else ⟨true, reasons, confidence, severity⟩

def ja4TransitionBurst (fpTimes : List (ℚ × Json)) (windowSecs : ℚ) (minDistinct : Int) :
    Bool × Nat :=
  match fpTimes.map Prod.fst with
  | [] => (false, 0)
  | t :: ts =>
    let now := ts.foldl max t
    let fps := (fpTimes.filter fun x => now - windowSecs ≤ x.1 ∧ x.1 ≤ now).filterMap fun x => x.2.str?
    let count := (fps.filter ja4Valid).dedup.length
    (minDistinct ≤ count, count)

/-! ### The detector -/

structure Config where
  /-- `TENANT` -/
  tenant : String
  /-- `JA4_MIN_OBSERVATIONS` -/
  minObservations : Int
  /-- `JA4_MIN_SPAN_SECS` -/
  minSpanSecs : ℚ
  /-- `JA4_BASELINE_TTL` -/
  baselineTtl : ℚ
  /-- `JA4_RARE_MAX_ENTITIES` -/
  rareMaxEntities : Int
  /-- `JA4_TRANSITION_WINDOW_SECS` -/
  transitionWindowSecs : ℚ
  /-- `JA4_TRANSITION_MIN_DISTINCT` -/
  transitionMinDistinct : Int

structure Env where
  /-- a time as the value of a member, and back -/
  number : ℚ → Json
  number? : Json → Option ℚ
  number?_number : ∀ t, number? (number t) = some t
  /-- a time is no `None` -/
  number_ne_null : ∀ t, number t ≠ .null
  /-- `_stable(json.dumps(entities))` -/
  stable : List Json → Nat

/-- The call of `_ja4_observe`, and the clock while it runs. -/
structure Observation where
  fp : String
  src : String
  /-- the event itself -/
  record : Dict
  now : ℚ

variable (env : Env) (cfg : Config)

def sourceKey (src : String) : String := "ja4:" ++ cfg.tenant ++ ":" ++ src

def seenKey (src : String) : String := sourceKey cfg src ++ ":seen"

def acKey (src : String) : String := sourceKey cfg src ++ ":ac"

def baselineKey (src : String) : String := sourceKey cfg src ++ ":baseline"

def transitionsKey (src : String) : String := sourceKey cfg src ++ ":transitions"

def fleetKey (fp : String) : String := "ja4fleet:" ++ cfg.tenant ++ ":" ++ fp

/-- What the store keeps of a source: how many observations, since when. -/
def baselineJson (observations : Int) (first : ℚ) : Json :=
  .obj [("observations", .int observations), ("first", env.number first)]

def countOf : Json → Option Int
  | .int n => some n
  | _ => none

/-- A time or `None`. -/
def timeOf (v : Json) : Option (Option ℚ) := if v.beq .null then some none else (env.number? v).map some

/-- `baseline.get("observations", 0)` and `baseline.get("first")`, unless they
    are nothing that can be compared with a number. -/
def readBaseline (value : Option Json) : Option (Int × Option ℚ) := do
  let baseline ← ((value.getD .null).or (.obj [])).obj?
  let observations ← countOf (Dict.getD baseline "observations" (.int 0))
  let first ← timeOf env (Dict.get baseline "first")
  return (observations, first)

/-- What is read before anything is learned. -/
structure Reads where
  seen : List String
  acSeen : List String
  observations : Int
  first : Option ℚ
  maturity : Maturity
  fleetCount : Nat

def reads (st : InMemoryStore) (o : Observation) : Option (Reads × InMemoryStore) :=
  let (seen, st) := st.setMembers (seenKey cfg o.src) o.now
  let (acSeen, st) := st.setMembers (acKey cfg o.src) o.now
  let (value, st) := st.kvGet (baselineKey cfg o.src) o.now
  match readBaseline env value with
  | none => none
  | some (observations, first) =>
    let maturity := baselineMaturity observations seen.length first o.now cfg.minObservations
      cfg.minSpanSecs
    let (fleetCount, st) := st.setLen (fleetKey cfg o.fp) o.now
    some (⟨seen, acSeen, observations, first, maturity, fleetCount⟩, st)

/-- A call of `_emit`. -/
structure Emit where
  detector : String
  category : String
  severity : Int
  confidence : ℚ
  entities : List Json

/-- What `_emit` leaves in the store. -/
def emit (st : InMemoryStore) (call : Emit) (now : ℚ) : InMemoryStore :=
  let key := "emit:" ++ cfg.tenant ++ ":" ++ call.detector ++ ":" ++
    toString (env.stable call.entities % 10 ^ 12) ++ ":" ++ toString ⌊now / 3600⌋
  (st.dedupSeen key 3600 now).2

/-- `_cid`. -/
def cid (record : Dict) : List Json :=
  let c := Dict.get record "community_id"
  if c.truthy then [.obj [("type", .str "community_id"), ("value", c)]] else []

def entities (o : Observation) (r : Reads) : List Json :=
  [.obj [("type", .str "ip"), ("role", .str "src"), ("value", .str o.src)],
    .obj [("type", .str "ja4"), ("value", .str o.fp), ("transport", Dict.get o.record "event_type")],
    .obj [("type", .str "ja4_ac"), ("value", .str (ja4Ac o.fp))],
    .obj [("type", .str "maturity"), ("value", .str r.maturity.text)],
    .obj [("type", .str "fleet_entity_count"), ("value", .int r.fleetCount)]] ++ cid o.record

/-- The score, from what is read. -/
def scored (o : Observation) (r : Reads) : Novelty :=
  ja4Novelty o.fp r.seen r.acSeen r.fleetCount r.maturity cfg.rareMaxEntities false

/-- The call of `_emit` for a hit. -/
def noveltyCall (o : Observation) (r : Reads) : Option Emit :=
  let n := scored cfg o r
  if n.hit then
    some ⟨"ja4_novelty", "c2", n.severity, n.confidence, entities o r ++
      [.obj [("type", .str "reason_codes"), ("value", .arr (n.reasons.map .str))]]⟩
  else none

/-- The call of `_emit` for a burst. -/
def burstCall (o : Observation) (r : Reads) (history : List (ℚ × Json)) : Option Emit :=
  let (burst, distinct) := ja4TransitionBurst (history ++ [(o.now, .str o.fp)])
    cfg.transitionWindowSecs cfg.transitionMinDistinct
  if r.maturity = .ready ∧ burst then
    some ⟨"ja4_transition_burst", "c2", 5, 1 / 2, entities o r ++
      [.obj [("type", .str "reason_codes"), ("value", .arr [.str "JA4_TRANSITION_BURST"])],
        .obj [("type", .str "distinct_count"), ("value", .int distinct)]]⟩
  else none

/-- What is learned of the observation. -/
def learn (st : InMemoryStore) (o : Observation) (r : Reads) : InMemoryStore :=
  let st := st.kvSet (baselineKey cfg o.src) (baselineJson env (r.observations + 1) (r.first.getD o.now))
    cfg.baselineTtl o.now
  let st := st.setAdd (seenKey cfg o.src) o.fp cfg.baselineTtl none o.now
  let st := st.setAdd (acKey cfg o.src) (ja4Ac o.fp) cfg.baselineTtl none o.now
  let st := st.setAdd (fleetKey cfg o.fp) o.src cfg.baselineTtl none o.now
  st.windowAdd (transitionsKey cfg o.src) o.now (.str o.fp) cfg.transitionWindowSecs o.now

/-- What `_ja4_observe` read, its calls of `_emit`, and the store it leaves. -/
structure Observed where
  reads : Reads
  calls : List Emit
  store : InMemoryStore

/-- `_ja4_observe` of a source that is not empty; `none` where it raises. -/
def observe (st : InMemoryStore) (o : Observation) : Option Observed :=
  match reads env cfg st o with
  | none => none
  | some (r, st) =>
    let novelty := (noveltyCall cfg o r).toList
    let st := novelty.foldl (fun st call => emit env cfg st call o.now) st
    let (history, st) := st.windowRange (transitionsKey cfg o.src)
      (o.now - cfg.transitionWindowSecs) o.now
    let burst := (burstCall cfg o r history).toList
    let st := burst.foldl (fun st call => emit env cfg st call o.now) st
    some ⟨r, novelty ++ burst, learn env cfg st o r⟩

/-- `_ja4_observe`. -/
def ja4Observe (st : InMemoryStore) (o : Observation) : InMemoryStore :=
  if o.src = "" then st else ((observe env cfg st o).map Observed.store).getD st

def run (os : List Observation) : InMemoryStore := Machine.run (ja4Observe env cfg) .empty os

/-! ### Keys -/

theorem append_ne_of_last {a b p q : String} (h : p.toList.getLast? ≠ q.toList.getLast?)
    (hp : p.toList ≠ []) (hq : q.toList ≠ []) : a ++ p ≠ b ++ q := by
  intro heq
  have hlist := congrArg (fun s => s.toList.getLast?) heq
  simp only [String.toList_append, List.getLast?_append_of_ne_nil _ hp,
    List.getLast?_append_of_ne_nil _ hq] at hlist
  exact h hlist

theorem append_left_inj {a b p : String} : p ++ a = p ++ b ↔ a = b := by
  rw [← String.toList_inj, ← String.toList_inj, String.toList_append, String.toList_append,
    List.append_cancel_left_eq]

theorem append_right_inj {a b p : String} : a ++ p = b ++ p ↔ a = b := by
  rw [← String.toList_inj, ← String.toList_inj, String.toList_append, String.toList_append,
    List.append_cancel_right_eq]

variable {cfg}

theorem sourceKey_inj {s s' : String} : sourceKey cfg s = sourceKey cfg s' ↔ s = s' := append_left_inj

theorem seenKey_inj {s s' : String} : seenKey cfg s = seenKey cfg s' ↔ s = s' := by
  rw [seenKey, seenKey, append_right_inj, sourceKey_inj]

theorem baselineKey_inj {s s' : String} : baselineKey cfg s = baselineKey cfg s' ↔ s = s' := by
  rw [baselineKey, baselineKey, append_right_inj, sourceKey_inj]

theorem fleetKey_inj {fp fp' : String} : fleetKey cfg fp = fleetKey cfg fp' ↔ fp = fp' :=
  append_left_inj

theorem acKey_ne_seenKey (s s' : String) : acKey cfg s ≠ seenKey cfg s' :=
  append_ne_of_last (by decide) (by decide) (by decide)

theorem fleetKey_ne_sourceKey (fp s p : String) : fleetKey cfg fp ≠ sourceKey cfg s ++ p := by
  intro heq
  have hlist := congrArg String.toList heq
  simp [fleetKey, sourceKey] at hlist

/-! ### What is read -/

variable {env}

theorem readBaseline_json (n : Int) (t : ℚ) :
    readBaseline env (some (baselineJson env n t)) = some (n, some t) := by
  have htime : timeOf env (env.number t) = some (some t) := by
    have hne : (env.number t).beq .null = false := by
      rw [Bool.eq_false_iff]
      exact fun h => env.number_ne_null t (Json.eq_of_beq h)
    rw [timeOf, hne, env.number?_number]
    rfl
  show (timeOf env (env.number t)).bind (fun first => some (n, first)) = _
  rw [htime]
  rfl

/-! ### What the store remembers -/

/-- The observations of a source. -/
def ofSource (src : String) (os : List Observation) : List Observation := os.filter fun o => o.src = src

variable (env cfg)

/-- The second follows the first within the time to live. -/
def Follows (a b : Observation) : Prop := b.now - a.now < cfg.baselineTtl

instance : DecidableRel (Follows cfg) := fun _ _ => inferInstanceAs (Decidable (_ < _))

/-- The observations of a source since the last gap. -/
def streakOf (src : String) (os : List Observation) : List Observation :=
  Streaks.streak (Follows cfg) (ofSource src os)

/-- The value under the baseline key, for a read at the time `t`. -/
def baselineAt (streak : List Observation) (t : ℚ) : Option Json :=
  match streak.head?, streak.getLast? with
  | some first, some last =>
    if t < last.now + cfg.baselineTtl then some (baselineJson env streak.length first.now) else none
  | _, _ => none

/-- The source presented the fingerprint, and it is remembered at the time `t`. -/
def Recent (s fp : String) (t : ℚ) (o : Observation) : Prop :=
  o.src = s ∧ o.fp = fp ∧ t - o.now < cfg.baselineTtl

/-- What reads after the observations find, as far as novelty depends on it. -/
structure Remembers (os : List Observation) (st : InMemoryStore) : Prop where
  seen : ∀ s fp t, (∀ o ∈ os, o.now ≤ t) →
    (st.Holds (seenKey cfg s) fp t ↔ ∃ o ∈ os, Recent cfg s fp t o)
  fleet : ∀ fp s t, (∀ o ∈ os, o.now ≤ t) →
    (st.Holds (fleetKey cfg fp) s t ↔ ∃ o ∈ os, Recent cfg s fp t o)
  baseline : ∀ s t, (∀ o ∈ os, o.now ≤ t) →
    st.fetched (baselineKey cfg s) t = baselineAt env cfg (streakOf cfg s os) t

/-! ### One observation -/

/-- What `o` continues: the streak of its source, unless it has ended. -/
def openStreak (os : List Observation) (o : Observation) : List Observation :=
  if ∀ y ∈ (streakOf cfg o.src os).getLast?, Follows cfg y o then streakOf cfg o.src os else []

variable {env cfg} {os : List Observation} {o : Observation} {st st' : InMemoryStore} {r : Reads}

theorem ofSource_snoc_self : ofSource o.src (os ++ [o]) = ofSource o.src os ++ [o] := by
  simp [ofSource]

theorem ofSource_snoc_ne {s : String} (h : o.src ≠ s) : ofSource s (os ++ [o]) = ofSource s os := by
  simp [ofSource, h]

theorem streakOf_snoc_self : streakOf cfg o.src (os ++ [o]) = openStreak cfg os o ++ [o] := by
  rw [streakOf, ofSource_snoc_self, Streaks.streak_snoc, openStreak, streakOf, Streaks.extend]
  split
  · rfl
  · rfl

theorem streakOf_snoc_ne {s : String} (h : o.src ≠ s) : streakOf cfg s (os ++ [o]) = streakOf cfg s os := by
  rw [streakOf, streakOf, ofSource_snoc_ne h]

/-- The baseline counts the open streak, since its first observation. -/
theorem readBaseline_baselineAt :
    readBaseline env (baselineAt env cfg (streakOf cfg o.src os) o.now) =
      some (((openStreak cfg os o).length : Int), (openStreak cfg os o).head?.map Observation.now) := by
  unfold openStreak
  rcases List.eq_nil_or_concat (streakOf cfg o.src os) with hnil | ⟨init, last, heq⟩
  · rw [hnil]
    rfl
  · rw [List.concat_eq_append] at heq
    have hlast : (streakOf cfg o.src os).getLast? = some last := by rw [heq, List.getLast?_concat]
    obtain ⟨first, rest, hcons⟩ := List.exists_cons_of_ne_nil (l := streakOf cfg o.src os) (by simp [heq])
    have hhead : (streakOf cfg o.src os).head? = some first := by rw [hcons, List.head?_cons]
    have hfollows : (∀ y ∈ (streakOf cfg o.src os).getLast?, Follows cfg y o) ↔
        o.now < last.now + cfg.baselineTtl := by
      simp [hlast, Follows, sub_lt_iff_lt_add']
    unfold baselineAt
    rw [hhead, hlast]
    dsimp only
    rw [← hlast]
    by_cases hopen : o.now < last.now + cfg.baselineTtl
    · rw [if_pos hopen, if_pos (hfollows.mpr hopen), readBaseline_json, hhead]
      rfl
    · rw [if_neg hopen, if_neg (mt hfollows.mp hopen)]
      rfl

/-- The sources that presented the fingerprint within the time to live. -/
def presenters (cfg : Config) (os : List Observation) (o : Observation) : Finset String :=
  ((os.filter fun b => b.fp = o.fp ∧ o.now - b.now < cfg.baselineTtl).map Observation.src).toFinset

/-- What is read of the observations before `o`. -/
structure ReadsOf (cfg : Config) (os : List Observation) (o : Observation) (r : Reads) : Prop where
  seen : ∀ fp, fp ∈ r.seen ↔ ∃ b ∈ os, Recent cfg o.src fp o.now b
  observations : r.observations = (openStreak cfg os o).length
  first : r.first = (openStreak cfg os o).head?.map Observation.now
  fleetCount : r.fleetCount = (presenters cfg os o).card
  maturity : r.maturity = baselineMaturity r.observations r.seen.length r.first o.now
    cfg.minObservations cfg.minSpanSecs

/-- The reads find what is remembered, and no later read can tell that they were made. -/
theorem reads_eq (h : Remembers env cfg os st) (hclock : ∀ b ∈ os, b.now ≤ o.now) :
    ∃ r st', reads env cfg st o = some (r, st') ∧ Alike o.now st st' ∧
      ReadsOf cfg os o r := by
  rcases hseen : st.setMembers (seenKey cfg o.src) o.now with ⟨seen, st₁⟩
  rcases hac : st₁.setMembers (acKey cfg o.src) o.now with ⟨acSeen, st₂⟩
  rcases hvalue : st₂.kvGet (baselineKey cfg o.src) o.now with ⟨value, st₃⟩
  rcases hfleet : st₃.setLen (fleetKey cfg o.fp) o.now with ⟨fleetCount, st₄⟩
  have halike₂ : Alike o.now st st₂ := (alike_setMembers hseen).trans (alike_setMembers hac)
  have halike₃ : Alike o.now st st₃ := halike₂.trans (alike_kvGet hvalue)
  have hbaseline : readBaseline env value = some (((openStreak cfg os o).length : Int),
      (openStreak cfg os o).head?.map Observation.now) := by
    have hfetched : value = st₂.fetched (baselineKey cfg o.src) o.now :=
      (congrArg Prod.fst hvalue).symm
    rw [hfetched, halike₂.fetched _ _ le_rfl, h.baseline o.src o.now hclock, readBaseline_baselineAt]
  have hcount : fleetCount = (presenters cfg os o).card := by
    have hlen : fleetCount = (st₃.setMembers (fleetKey cfg o.fp) o.now).1.length := by
      rw [← setLen_eq, hfleet]
    rw [hlen, ← List.toFinset_card_of_nodup nodup_setMembers]
    refine congrArg Finset.card (Finset.ext fun s => ?_)
    rw [List.mem_toFinset, mem_setMembers_iff, halike₃.holds _ _ _ le_rfl, h.fleet o.fp s o.now hclock]
    simp only [presenters, List.mem_toFinset, List.mem_map, List.mem_filter, decide_eq_true_eq]
    constructor
    · rintro ⟨b, hb, rfl, hfp, hnow⟩
      exact ⟨b, ⟨hb, hfp, hnow⟩, rfl⟩
    · rintro ⟨b, ⟨hb, hfp, hnow⟩, rfl⟩
      exact ⟨b, hb, rfl, hfp, hnow⟩
  refine ⟨⟨seen, acSeen, (openStreak cfg os o).length, (openStreak cfg os o).head?.map Observation.now,
    baselineMaturity (openStreak cfg os o).length seen.length
      ((openStreak cfg os o).head?.map Observation.now) o.now cfg.minObservations cfg.minSpanSecs,
    fleetCount⟩, st₄, ?_, halike₃.trans (alike_setLen hfleet), ?_⟩
  · simp only [reads, hseen, hac, hvalue, hbaseline, hfleet]
  · refine ⟨fun fp => ?_, rfl, rfl, ?_, rfl⟩
    · rw [← h.seen o.src fp o.now hclock, ← mem_setMembers_iff, hseen]
    · exact hcount

/-- The last observation of a fingerprint is the one that is remembered longest. -/
theorem recent_snoc {s fp : String} {t : ℚ} (hclock : ∀ b ∈ os, b.now ≤ o.now) :
    (∃ b ∈ os ++ [o], Recent cfg s fp t b) ↔
      if o.src = s ∧ o.fp = fp then t < o.now + cfg.baselineTtl else ∃ b ∈ os, Recent cfg s fp t b := by
  split
  · next hself =>
    constructor
    · rintro ⟨b, hb, -, -, ht⟩
      have hle : b.now ≤ o.now := by
        rcases List.mem_append.mp hb with hb | hb
        · exact hclock b hb
        · exact (List.mem_singleton.mp hb ▸ le_rfl)
      linarith
    · intro ht
      exact ⟨o, by simp, hself.1, hself.2, by linarith⟩
  · next hself =>
    constructor
    · rintro ⟨b, hb, hrecent⟩
      rcases List.mem_append.mp hb with hb | hb
      · exact ⟨b, hb, hrecent⟩
      · obtain rfl := List.mem_singleton.mp hb
        exact absurd ⟨hrecent.1, hrecent.2.1⟩ hself
    · rintro ⟨b, hb, hrecent⟩
      exact ⟨b, List.mem_append_left _ hb, hrecent⟩

/-- What is learned is remembered. -/
theorem remembers_learn (h : Remembers env cfg os st) (hclock : ∀ b ∈ os, b.now ≤ o.now)
    (halike : Alike o.now st st') (hr : ReadsOf cfg os o r) :
    Remembers env cfg (os ++ [o]) (learn env cfg st' o r) where
  seen s fp t ht := by
    have hnow : o.now ≤ t := ht o (by simp)
    have hos : ∀ b ∈ os, b.now ≤ t := fun b hb => ht b (by simp [hb])
    rw [learn, (alike_windowAdd _ _ _ _ _ o.now).holds _ _ _ hnow, holds_setAdd _ _ hnow,
      if_neg fun hk => (fleetKey_ne_sourceKey o.fp s ":seen") hk.1, holds_setAdd _ _ hnow,
      if_neg fun hk => (acKey_ne_seenKey o.src s) hk.1, holds_setAdd _ _ hnow, holds_kvSet,
      halike.holds _ _ _ hnow, recent_snoc hclock]
    simp only [seenKey_inj, h.seen s fp t hos]
  fleet fp s t ht := by
    have hnow : o.now ≤ t := ht o (by simp)
    have hos : ∀ b ∈ os, b.now ≤ t := fun b hb => ht b (by simp [hb])
    have hac : ¬ (acKey cfg o.src = fleetKey cfg fp ∧ ja4Ac o.fp = s) := fun hk =>
      fleetKey_ne_sourceKey fp o.src ":ac" hk.1.symm
    have hseen : ¬ (seenKey cfg o.src = fleetKey cfg fp ∧ o.fp = s) := fun hk =>
      fleetKey_ne_sourceKey fp o.src ":seen" hk.1.symm
    rw [learn, (alike_windowAdd _ _ _ _ _ o.now).holds _ _ _ hnow, holds_setAdd _ _ hnow,
      holds_setAdd _ _ hnow, if_neg hac, holds_setAdd _ _ hnow, if_neg hseen, holds_kvSet,
      halike.holds _ _ _ hnow, recent_snoc hclock]
    simp only [fleetKey_inj, h.fleet fp s t hos, and_comm]
  baseline s t ht := by
    have hnow : o.now ≤ t := ht o (by simp)
    have hos : ∀ b ∈ os, b.now ≤ t := fun b hb => ht b (by simp [hb])
    rw [learn, (alike_windowAdd _ _ _ _ _ o.now).fetched _ _ hnow, fetched_setAdd, fetched_setAdd,
      fetched_setAdd, fetched_kvSet, halike.fetched _ _ hnow, h.baseline s t hos]
    by_cases hs : o.src = s
    · subst hs
      rw [if_pos rfl, streakOf_snoc_self, hr.observations, hr.first, baselineAt,
        List.getLast?_concat]
      cases openStreak cfg os o with
      | nil => rfl
      | cons first rest => simp
    · rw [if_neg fun hk => hs (baselineKey_inj.mp hk), streakOf_snoc_ne hs]

theorem alike_emit (call : Emit) (now : ℚ) : Alike now st (emit env cfg st call now) :=
  alike_dedupSeen _ _ _ _

theorem alike_emits (call : Option Emit) (now : ℚ) :
    Alike now st (call.toList.foldl (fun st call => emit env cfg st call now) st) := by
  cases call with
  | none => exact Alike.refl now st
  | some call => exact alike_emit call now

/-- One observation: what it reads, the calls, and what is remembered behind it. -/
theorem observe_eq (h : Remembers env cfg os st) (hclock : ∀ b ∈ os, b.now ≤ o.now) :
    ∃ out history, observe env cfg st o = some out ∧ ReadsOf cfg os o out.reads ∧
      out.calls = (noveltyCall cfg o out.reads).toList ++ (burstCall cfg o out.reads history).toList ∧
      Remembers env cfg (os ++ [o]) out.store := by
  obtain ⟨r, st₁, hreads, halike, hr⟩ := reads_eq h hclock
  rcases hwindow : ((noveltyCall cfg o r).toList.foldl (fun st call => emit env cfg st call o.now)
    st₁).windowRange (transitionsKey cfg o.src) (o.now - cfg.transitionWindowSecs) o.now with
    ⟨history, st₂⟩
  refine ⟨⟨r, (noveltyCall cfg o r).toList ++ (burstCall cfg o r history).toList, learn env cfg
    ((burstCall cfg o r history).toList.foldl (fun st call => emit env cfg st call o.now) st₂) o r⟩,
    history, ?_, hr, rfl, ?_⟩
  · simp only [observe, hreads, hwindow]
  · have hall := ((halike.trans (alike_emits _ _)).trans (alike_windowRange hwindow)).trans
      (@alike_emits env cfg _ (burstCall cfg o r history) o.now)
    exact remembers_learn h hclock hall hr

/-! ### Runs -/

theorem remembers_empty : Remembers env cfg [] .empty where
  seen s fp t _ := by simp [holds_empty]
  fleet fp s t _ := by simp [holds_empty]
  baseline s t _ := fetched_empty _ _

theorem remembers_run (hsrc : ∀ o ∈ os, o.src ≠ "") (hclock : os.Pairwise fun a b => a.now ≤ b.now) :
    Remembers env cfg os (run env cfg os) := by
  induction os using List.reverseRecOn with
  | nil => exact remembers_empty
  | append_singleton os o ih =>
    rw [List.pairwise_append] at hclock
    obtain ⟨out, -, hout, -, -, hremembers⟩ := observe_eq (o := o)
      (ih (fun b hb => hsrc b (by simp [hb])) hclock.1) fun b hb => hclock.2.2 b hb o (by simp)
    rw [run, Machine.run_snoc, ja4Observe, if_neg (hsrc o (by simp)), ← run, hout]
    exact hremembers

/-! ### Novelty -/

/-- `R` is the longest run of observations up to `o`, which are less than the
    time to live apart from each other and from `o`. -/
structure RunBefore (cfg : Config) (os : List Observation) (o : Observation)
    (R : List Observation) : Prop where
  recent : R <:+ os
  close : (R ++ [o]).IsChain (Follows cfg)
  longest : ∀ R', R' <:+ os → (R' ++ [o]).IsChain (Follows cfg) → R' <:+ R

theorem runBefore_openStreak : RunBefore cfg (ofSource o.src os) o (openStreak cfg os o) := by
  have hstreak : Streaks.streak (Follows cfg) (ofSource o.src os ++ [o]) = openStreak cfg os o ++ [o] := by
    rw [← ofSource_snoc_self, ← streakOf_snoc_self, streakOf]
  refine ⟨?_, ?_, fun R' hR' hchain => ?_⟩
  · unfold openStreak
    split
    · exact Streaks.streak_suffix _
    · exact List.nil_suffix
  · rw [← hstreak]
    exact Streaks.isChain_streak _
  · have hsuf : R' ++ [o] <:+ ofSource o.src os ++ [o] := by
      obtain ⟨pre, hpre⟩ := hR'
      exact ⟨pre, by rw [← List.append_assoc, hpre]⟩
    have hlong := Streaks.suffix_streak hsuf hchain
    rw [hstreak] at hlong
    obtain ⟨pre, hpre⟩ := hlong
    rw [← List.append_assoc] at hpre
    exact ⟨pre, List.append_inj_left' hpre rfl⟩

theorem ready_iff {observations : Int} {distinct : Nat} {first : Option ℚ} {now : ℚ}
    {minObservations : Int} {minSpanSecs : ℚ} :
    baselineMaturity observations distinct first now minObservations minSpanSecs = .ready ↔
      minObservations ≤ observations ∧ 1 ≤ distinct ∧ ∃ t ∈ first, minSpanSecs ≤ now - t := by
  cases first with
  | none => simp [baselineMaturity]
  | some t =>
    rw [baselineMaturity]
    split
    · next h =>
      simp only [reduceCtorEq, false_iff]
      rintro ⟨hmin, hdistinct, -⟩
      rcases h with h | h
      · exact absurd hmin (not_le.mpr h)
      · omega
    · next h =>
      rw [not_or, not_lt, not_lt] at h
      split
      · next hspan => simp [h, hspan]
      · next hspan => simp [hspan]

theorem hit_iff : (scored cfg o r).hit = true ↔
    ja4Valid o.fp = true ∧ r.maturity = .ready ∧ o.fp ∉ r.seen := by
  unfold scored ja4Novelty
  split
  · next h =>
    simp only [Bool.or_eq_true, Bool.not_eq_true', decide_eq_true_eq, or_assoc] at h
    simp only [Bool.false_eq_true, false_iff]
    rintro ⟨hvalid, hready, hnew⟩
    rcases h with h | h | h
    · rw [hvalid] at h
      cases h
    · exact h hready
    · exact hnew h
  · next h =>
    simp only [Bool.or_eq_true, Bool.not_eq_true', decide_eq_true_eq, not_or, not_not,
      Bool.not_eq_false] at h
    have hhit : ∀ (c : Prop) [Decidable c] (n n' : Novelty), n.hit = true → n'.hit = true →
        (if c then n else n').hit = true := by
      intro c _ n n' hn hn'
      split
      · exact hn
      · exact hn'
    exact iff_of_true (hhit _ _ _ rfl rfl) ⟨h.1.1, h.1.2, h.2⟩

theorem novelty_mem_iff {history : List (ℚ × Json)} :
    (∃ call ∈ (noveltyCall cfg o r).toList ++ (burstCall cfg o r history).toList,
      call.detector = "ja4_novelty") ↔ (scored cfg o r).hit = true := by
  have hburst : ∀ call ∈ (burstCall cfg o r history).toList, call.detector ≠ "ja4_novelty" := by
    intro call hcall
    unfold burstCall at hcall
    dsimp only at hcall
    split at hcall
    · obtain rfl := List.mem_singleton.mp hcall
      simp
    · cases hcall
  constructor
  · rintro ⟨call, hcall, hdetector⟩
    rcases List.mem_append.mp hcall with hcall | hcall
    · unfold noveltyCall at hcall
      dsimp only at hcall
      split at hcall
      · assumption
      · cases hcall
    · exact absurd hdetector (hburst call hcall)
  · intro h
    refine ⟨_, List.mem_append_left _ (Option.mem_toList.mpr (if_pos h)), rfl⟩

/-- A source with an open streak has a fingerprint that is remembered. -/
theorem seen_of_openStreak (hr : ReadsOf cfg os o r) (hopen : openStreak cfg os o ≠ []) :
    1 ≤ r.seen.length := by
  have hrun := @runBefore_openStreak cfg os o
  obtain ⟨init, y, heq⟩ := (List.eq_nil_or_concat (openStreak cfg os o)).resolve_left hopen
  rw [List.concat_eq_append] at heq
  have hy : y ∈ ofSource o.src os := hrun.recent.subset (by simp [heq])
  obtain ⟨hos, hsrc⟩ := List.mem_filter.mp hy
  have hfollows : Follows cfg y o := by
    have hclose := hrun.close
    rw [heq, List.isChain_append] at hclose
    exact hclose.2.2 y List.getLast?_concat o rfl
  have hmem : y.fp ∈ r.seen := (hr.seen y.fp).mpr ⟨y, hos, by simpa using hsrc, rfl, hfollows⟩
  exact List.length_pos_of_mem hmem

/-- In every run a fingerprint is reported as new exactly when the source has
    not presented it within the time to live, and has been observed often and
    long enough since its last gap. -/
theorem ja4_novelty_iff (env : Env) (cfg : Config) {os : List Observation}
    (hvalid : ∀ o ∈ os, ja4Valid o.fp = true ∧ o.src ≠ "")
    (hclock : os.Pairwise fun a b => a.now ≤ b.now) {pre post : List Observation} {o : Observation}
    (heq : os = pre ++ o :: post) :
    ∃ out R, observe env cfg (run env cfg pre) o = some out ∧
      RunBefore cfg (ofSource o.src pre) o R ∧
      ((∃ call ∈ out.calls, call.detector = "ja4_novelty") ↔
        (¬ ∃ b ∈ pre, b.src = o.src ∧ b.fp = o.fp ∧ o.now - b.now < cfg.baselineTtl) ∧
          cfg.minObservations ≤ R.length ∧ ∃ first ∈ R.head?, cfg.minSpanSecs ≤ o.now - first.now) ∧
      out.reads.fleetCount = (presenters cfg pre o).card := by
  subst heq
  rw [List.pairwise_append] at hclock
  have hremembers := @remembers_run env cfg pre (fun b hb => (hvalid b (by simp [hb])).2) hclock.1
  obtain ⟨out, history, hout, hr, hcalls, -⟩ :=
    observe_eq hremembers fun b hb => hclock.2.2 b hb o (by simp)
  refine ⟨out, openStreak cfg pre o, hout, runBefore_openStreak, ?_, hr.fleetCount⟩
  have hready : out.reads.maturity = .ready ↔ cfg.minObservations ≤ (openStreak cfg pre o).length ∧
      ∃ first ∈ (openStreak cfg pre o).head?, cfg.minSpanSecs ≤ o.now - first.now := by
    rw [hr.maturity, ready_iff, hr.observations, hr.first]
    constructor
    · rintro ⟨hmin, -, t, ht, hspan⟩
      obtain ⟨first, hfirst, rfl⟩ := Option.mem_map.mp ht
      exact ⟨hmin, first, hfirst, hspan⟩
    · rintro ⟨hmin, first, hfirst, hspan⟩
      have hopen : openStreak cfg pre o ≠ [] := by
        intro hnil
        rw [hnil] at hfirst
        cases hfirst
      exact ⟨hmin, seen_of_openStreak hr hopen, first.now, Option.mem_map.mpr ⟨first, hfirst, rfl⟩, hspan⟩
  rw [hcalls, novelty_mem_iff, hit_iff, hready, hr.seen, and_iff_right (hvalid o (by simp)).1, and_comm]
  rfl

/-! ### A run -/

def sampleNumber (t : ℚ) : Json := if t.den = 1 then .int t.num else .arr [.int t.num, .int t.den]

def sampleNumber? : Json → Option ℚ
  | .int n => some n
  | .arr [.int n, .int d] => some (n / d)
  | _ => none

theorem sampleNumber?_sampleNumber (t : ℚ) : sampleNumber? (sampleNumber t) = some t := by
  unfold sampleNumber
  split
  · next h => exact congrArg some (Rat.coe_int_num_of_den_eq_one h)
  · exact congrArg some (by simpa using Rat.num_div_den t)

theorem sampleNumber_ne_null (t : ℚ) : sampleNumber t ≠ .null := by
  unfold sampleNumber
  split
  · simp
  · simp

/-- A whole time is a number. -/
def sampleEnv : Env where
  number := sampleNumber
  number? := sampleNumber?
  number?_number := sampleNumber?_sampleNumber
  number_ne_null := sampleNumber_ne_null
  stable _ := 0

def sampleConfig : Config := ⟨"default", 1, 60, 3600, 2, 600, 5⟩

def sampleFp : String := "t13d1516h2_02713d6af862_02713d6af862"

def sampleFp' : String := "t13d1516h2_8daaf6152771_02713d6af862"

def sampleFirst : Observation := ⟨sampleFp, "10.0.0.1", [], 0⟩

/-- The same source, with another fingerprint. -/
def sampleSecond : Observation := ⟨sampleFp', "10.0.0.1", [], 60⟩

theorem sample_novelty : ∃ out R,
    observe sampleEnv sampleConfig (run sampleEnv sampleConfig [sampleFirst]) sampleSecond = some out ∧
      RunBefore sampleConfig (ofSource sampleSecond.src [sampleFirst]) sampleSecond R ∧
      ((∃ call ∈ out.calls, call.detector = "ja4_novelty") ↔
        (¬ ∃ b ∈ [sampleFirst], b.src = sampleSecond.src ∧ b.fp = sampleSecond.fp ∧
            sampleSecond.now - b.now < sampleConfig.baselineTtl) ∧
          sampleConfig.minObservations ≤ R.length ∧
            ∃ first ∈ R.head?, sampleConfig.minSpanSecs ≤ sampleSecond.now - first.now) ∧
      out.reads.fleetCount = (presenters sampleConfig [sampleFirst] sampleSecond).card :=
  @ja4_novelty_iff sampleEnv sampleConfig [sampleFirst, sampleSecond] (by decide +kernel)
    (by decide +kernel) [sampleFirst] [] sampleSecond rfl

end Ja4
