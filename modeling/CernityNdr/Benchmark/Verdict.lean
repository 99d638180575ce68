import CernityNdr.Framework.Registry
import Mathlib.Algebra.Order.Field.Rat
import Mathlib.Data.String.Basic

/-! # Episode Verdicts

    A benchmark run compares what the detectors found with labelled episodes
    (`benchmarks/episodes.py`). A detection surfaces an episode when it names
    the entities that the episode requires, each in a role that fits, with a
    behaviour that fits, in the tenant of the episode, and in its interval.

    Numbers are rational: an `int` or a finite `float`. The builtin
    `str.lower` is a parameter.

    `Clear`: the entities of a detection give each value one role. The
    verdicts on a clear detection do not depend on the order of its entities,
    and on one that is not clear they do. -/

namespace Benchmark

/-! ### Detections and episodes -/

structure Entity where
  value : String
  role : Option String
  deriving DecidableEq

/-- `{"start": .., "end": ..}`. -/
structure Interval where
  start : ℚ
  stop : ℚ
  deriving DecidableEq

structure Detection where
  entities : List Entity
  behavior : Option String
  category : Option String
  tenant : Option String
  findingId : Option String
  interval : Option Interval
  available : Option ℚ
  revision : Option ℚ
  severity : Option ℚ
  state : Option String
  deriving DecidableEq

structure Episode where
  id : String
  label : Option String
  entities : List Entity
  behavior : Option String
  tenant : Option String
  interval : Option Interval
  /-- `[]` when it is missing. -/
  matchRequires : List String
  deriving DecidableEq

/-- `v or d`: a missing text and the empty one give `d`. -/
def orText (v : Option String) (d : String) : String :=
  match v with
  | none => d
  | some s => if s = "" then d else s

/-- `det.get("tenant") or "default"`. -/
def tenantOf (tenant : Option String) : String := orText tenant "default"

/-! ### Roles -/

/-- `_ROLE_ALIAS`. -/
def roleAlias : List (String × String) :=
  [("src", "initiator"), ("source", "initiator"), ("initiator", "initiator"),
    ("client", "initiator"), ("dst", "target"), ("dest", "target"), ("destination", "target"),
    ("target", "target"), ("server", "target"), ("responder", "target")]

section

variable (lower : String → String)

/-- `_norm_role`. -/
def normRole (r : Option String) : Option String :=
  let r := lower (r.getD "")
  match roleAlias.lookup r with
  | some role => some role
  | none => if r = "" then none else some r

/-- A dictionary from values to canonical roles. -/
abbrev Roles := Registry (Prod.fst : String × Option String → String)

def Roles.add (out : Roles) (e : Entity) : Roles :=
  if e.value = "" then out else out.put (e.value, normRole lower e.role)

/-- `_entity_roles`: the last entity with a value decides on its role. -/
def entityRoles (entities : List Entity) : Roles := entities.foldl (Roles.add lower) .empty

/-! ### Behaviours -/

/-- `_COMPAT`. -/
def compat : List (String × List String) :=
  [("c2", ["c2", "beacon", "beaconing", "malware", "trojan"]),
    ("recon", ["recon", "scan", "portscan", "strobe", "discovery", "internal_scan"]),
    ("exfil", ["exfil", "exfiltration", "dns_tunnel", "dns_exploded", "large_transfer"]),
    ("lateral", ["lateral", "lateral_movement", "rdp_fanout", "smb_fanout"]),
    ("malware", ["malware", "c2", "trojan"])]

/-- `(det.get("behavior") or det.get("category") or "").lower()`. -/
def behaviorOf (det : Detection) : String := lower (orText det.behavior (orText det.category ""))

/-- `_behavior_ok`. -/
def behaviorOk (det : Detection) (ep : Episode) : Bool :=
  let d := behaviorOf lower det
  let t := lower (orText ep.behavior "")
  if d = "" ∨ t = "" then true else d = t || decide (d ∈ (compat.lookup t).getD [t])

/-! ### Identity -/

/-- `_required_values`. -/
def requiredValues (ep : Episode) : List String :=
  if ep.matchRequires ≠ [] then ep.matchRequires else (entityRoles lower ep.entities).keys

/-- `_identity_match`. -/
def identityMatch (det : Detection) (ep : Episode) : Bool :=
  let detRoles := entityRoles lower det.entities
  let required := requiredValues lower ep
  let epRoles := entityRoles lower ep.entities
  if tenantOf det.tenant ≠ tenantOf ep.tenant then false
  else if required = [] ∨ ¬ ∀ v ∈ required, v ∈ detRoles.keys then false
  -- a detection need not label the role
  else if ¬ ∀ v ∈ required, (detRoles.lookup v).join = none ∨
      (detRoles.lookup v).join = (epRoles.lookup v).join then false
  else behaviorOk lower det ep

end

/-! ### Time -/

inductive Temporal
  | untimed
  | inside
  | out
  | unknown
  deriving DecidableEq

/-- `match` is a word of this language. -/
inductive Verdict
  | matched
  | ambiguous
  | no
  deriving DecidableEq

section

/-- `_temporal`. -/
def temporal (det : Detection) (ep : Episode) (tol : ℚ) : Temporal :=
  match ep.interval with
  | none => .untimed
  | some ei =>
    match det.interval with
    | none => .unknown
    | some di =>
      if di.start ≤ ei.stop + tol ∧ ei.start ≤ di.stop + tol then .inside else .out

variable (lower : String → String)

/-- `match_verdict`. -/
def matchVerdict (det : Detection) (ep : Episode) (tol : ℚ) : Verdict :=
  if identityMatch lower det ep = false then .no
  else
    match temporal det ep tol with
    | .untimed | .inside => .matched
    | .unknown => .ambiguous
    | .out => .no

/-- `shift_interval`. -/
def shiftInterval (interval : Option Interval) (offset : ℚ) : Option Interval :=
  match interval with
  | none => none
  | some i => if offset = 0 then some i else some ⟨i.start + offset, i.stop + offset⟩

end

/-- An episode on the replay clock. -/
def Episode.shifted (offset : ℚ) (e : Episode) : Episode :=
  { e with interval := shiftInterval e.interval offset }

/-! ### What the roles of a detection say -/

section

variable {lower : String → String}

theorem lookup_add (out : Roles) (e : Entity) (v : String) :
    (out.add lower e).lookup v =
      if e.value = v ∧ v ≠ "" then some (normRole lower e.role) else out.lookup v := by
  rw [Roles.add]
  by_cases hempty : e.value = ""
  · rw [if_pos hempty, if_neg]
    rintro ⟨rfl, hne⟩
    exact hne hempty
  · rw [if_neg hempty, Registry.lookup_put]
    by_cases hv : e.value = v
    · rw [if_pos hv, if_pos ⟨hv, hv ▸ hempty⟩]
    · rw [if_neg hv, if_neg (fun h => hv h.1)]

theorem entityRoles_append (es : List Entity) (e : Entity) :
    entityRoles lower (es ++ [e]) = (entityRoles lower es).add lower e := by
  rw [entityRoles, List.foldl_append]
  rfl

/-- The entity that comes last decides. -/
theorem lookup_entityRoles_append {es : List Entity} {e : Entity} (h : e.value ≠ "") :
    (entityRoles lower (es ++ [e])).lookup e.value = some (normRole lower e.role) := by
  rw [entityRoles_append, lookup_add, if_pos ⟨rfl, h⟩]

/-- A role that is there is the one of an entity. -/
theorem exists_mem_of_lookup {es : List Entity} {v : String} {role : Option String}
    (h : (entityRoles lower es).lookup v = some role) :
    v ≠ "" ∧ ∃ e ∈ es, e.value = v ∧ normRole lower e.role = role := by
  induction es using List.reverseRecOn with
  | nil =>
    rw [entityRoles, List.foldl_nil, Registry.lookup_empty] at h
    cases h
  | append_singleton es e ih =>
    rw [entityRoles_append, lookup_add] at h
    split at h
    · next hv => exact ⟨hv.2, e, by simp, hv.1, Option.some.inj h⟩
    · obtain ⟨hne, e', he', hrest⟩ := ih h
      exact ⟨hne, e', List.mem_append_left _ he', hrest⟩

/-- A value that an entity names has a role. -/
theorem lookup_isSome_of_mem {es : List Entity} {e : Entity} (he : e ∈ es) (h : e.value ≠ "") :
    ∃ role, (entityRoles lower es).lookup e.value = some role := by
  induction es using List.reverseRecOn with
  | nil => simp at he
  | append_singleton es e' ih =>
    rw [entityRoles_append, lookup_add]
    split
    · exact ⟨_, rfl⟩
    · next hne =>
      rcases List.mem_append.mp he with he | he
      · exact ih he
      · obtain rfl := List.mem_singleton.mp he
        exact absurd ⟨rfl, h⟩ hne

theorem mem_keys_entityRoles {es : List Entity} {v : String} :
    v ∈ (entityRoles lower es).keys ↔ ((entityRoles lower es).lookup v).isSome := by
  rw [Registry.mem_keys, Registry.lookup, Option.isSome_map]
  exact Option.isSome_iff_exists.symm

variable (lower) in
/-- The entities give each value one canonical role. -/
def Clear (es : List Entity) : Prop :=
  ∀ e ∈ es, ∀ e' ∈ es, e.value = e'.value → e.value ≠ "" →
    normRole lower e.role = normRole lower e'.role

variable (lower) in
/-- The pairs that `_payload_key` sorts. -/
def canonical (es : List Entity) : List (String × Option String) :=
  es.map (fun e => (e.value, normRole lower e.role))

theorem lookup_eq_some_of_clear {es : List Entity} (h : Clear lower es) {v : String}
    {role : Option String} :
    (entityRoles lower es).lookup v = some role ↔ v ≠ "" ∧ (v, role) ∈ canonical lower es := by
  rw [canonical, List.mem_map]
  constructor
  · intro hlookup
    obtain ⟨hne, e, he, hv, hrole⟩ := exists_mem_of_lookup hlookup
    exact ⟨hne, e, he, Prod.ext hv hrole⟩
  · rintro ⟨hne, e, he, heq⟩
    obtain ⟨rfl, rfl⟩ := Prod.mk.inj heq
    obtain ⟨role, hrole⟩ := @lookup_isSome_of_mem lower _ _ he hne
    obtain ⟨_, e', he', hv, hrole'⟩ := exists_mem_of_lookup hrole
    rw [hrole, ← hrole', h e he e' he' hv.symm hne]

/-- Clearness is a property of the pairs. -/
theorem clear_iff {es : List Entity} :
    Clear lower es ↔ ∀ v r r', (v, r) ∈ canonical lower es → (v, r') ∈ canonical lower es →
      v ≠ "" → r = r' := by
  simp only [canonical, List.mem_map]
  constructor
  · rintro h v r r' ⟨e, he, heq⟩ ⟨e', he', heq'⟩ hne
    obtain ⟨rfl, rfl⟩ := Prod.mk.inj heq
    obtain ⟨hv, rfl⟩ := Prod.mk.inj heq'
    exact h e he e' he' hv.symm hne
  · intro h e he e' he' hv hne
    exact h e.value _ _ ⟨e, he, rfl⟩ ⟨e', he', by rw [hv]⟩ hne

theorem Clear.of_perm {es es' : List Entity} (h : Clear lower es)
    (hperm : (canonical lower es).Perm (canonical lower es')) : Clear lower es' := by
  rw [clear_iff] at h ⊢
  intro v r r' hr hr'
  exact h v r r' (hperm.mem_iff.mpr hr) (hperm.mem_iff.mpr hr')

/-- Clear entities with the same pairs give the same roles. -/
theorem lookup_congr {es es' : List Entity} (h : Clear lower es)
    (hperm : (canonical lower es).Perm (canonical lower es')) (v : String) :
    (entityRoles lower es).lookup v = (entityRoles lower es').lookup v := by
  ext role
  rw [lookup_eq_some_of_clear h, lookup_eq_some_of_clear (h.of_perm hperm), hperm.mem_iff]

end

/-! ### Detections that cannot be told apart -/

section

variable {lower : String → String}

/-- What the verdicts see of a detection. -/
structure SameScored (lower : String → String) (d d' : Detection) : Prop where
  roles : ∀ v, (entityRoles lower d.entities).lookup v = (entityRoles lower d'.entities).lookup v
  behavior : behaviorOf lower d = behaviorOf lower d'
  tenant : tenantOf d.tenant = tenantOf d'.tenant
  interval : d.interval = d'.interval

theorem SameScored.identityMatch {d d' : Detection} (h : SameScored lower d d')
    (ep : Episode) : identityMatch lower d ep = identityMatch lower d' ep := by
  have hkeys : ∀ v, v ∈ (entityRoles lower d.entities).keys ↔
      v ∈ (entityRoles lower d'.entities).keys := by
    intro v
    rw [mem_keys_entityRoles, mem_keys_entityRoles, h.roles]
  simp only [Benchmark.identityMatch, behaviorOk, h.tenant, h.behavior, h.roles, hkeys]

theorem SameScored.matchVerdict {d d' : Detection} (h : SameScored lower d d')
    (ep : Episode) (tol : ℚ) :
    Benchmark.matchVerdict lower d ep tol = Benchmark.matchVerdict lower d' ep tol := by
  rw [Benchmark.matchVerdict, Benchmark.matchVerdict, h.identityMatch, temporal, temporal,
    h.interval]

end

/-! ### Episodes that tell detections apart -/

section

variable {lower : String → String}

/-- A malicious episode that asks for one entity, with the behaviour and the
    tenant of a detection. -/
def probe (d : Detection) (e : Entity) (interval : Option Interval) : Episode where
  id := "probe"
  label := some "malicious"
  entities := [e]
  behavior := some (orText d.behavior (orText d.category ""))
  tenant := d.tenant
  interval := interval
  matchRequires := []

theorem entityRoles_singleton {e : Entity} (h : e.value ≠ "") :
    (entityRoles lower [e]).vals = [(e.value, normRole lower e.role)] := by
  rw [entityRoles, List.foldl_cons, List.foldl_nil, Roles.add, if_neg h,
    Registry.vals_put_of_notMem (by simp [Registry.keys])]
  rfl

/-- A detection meets its probe when it gives the entity no other role. -/
theorem identityMatch_probe {d d' : Detection} (hbehavior : behaviorOf lower d' = behaviorOf lower d)
    (htenant : tenantOf d'.tenant = tenantOf d.tenant) {e : Entity} (h : e.value ≠ "")
    (interval : Option Interval) {role : Option String}
    (hrole : (entityRoles lower d'.entities).lookup e.value = some role) :
    identityMatch lower d' (probe d e interval) = true ↔
      role = none ∨ role = normRole lower e.role := by
  have hvals := @entityRoles_singleton lower _ h
  have hrequired : requiredValues lower (probe d e interval) = [e.value] := by
    rw [requiredValues, if_neg (by simp [probe])]
    show (entityRoles lower [e]).keys = _
    rw [Registry.keys, hvals]
    rfl
  have hep : (entityRoles lower (probe d e interval).entities).lookup e.value =
      some (normRole lower e.role) := @lookup_entityRoles_append lower [] e h
  have hok : behaviorOk lower d' (probe d e interval) = true := by
    have ht : lower (orText (probe d e interval).behavior "") = behaviorOf lower d := by
      show lower (orText (some _) "") = _
      rw [orText]
      split
      · next hempty => rw [behaviorOf, hempty]
      · rfl
    rw [behaviorOk, ht, hbehavior]
    split
    · rfl
    · simp
  have hmem : e.value ∈ (entityRoles lower d'.entities).keys := by
    rw [mem_keys_entityRoles, hrole]
    rfl
  have hprobe : tenantOf (probe d e interval).tenant = tenantOf d.tenant := rfl
  rw [identityMatch, hrequired, hok, hprobe, htenant, if_neg (by simp), if_neg (by simpa using hmem)]
  simp only [List.forall_mem_singleton, hrole, hep, Option.join_some]
  split
  · next hno => simpa using hno
  · next hyes => simpa using not_not.mp hyes

/-- A detection whose roles clash is matched with the entities in one order
    and not in another. -/
theorem exists_order_of_not_clear {d : Detection} (h : ¬ Clear lower d.entities) :
    ∃ es es', es.Perm d.entities ∧ es'.Perm d.entities ∧
      ∃ ep : Episode, ep.label = some "malicious" ∧ ep.interval = none ∧
        identityMatch lower { d with entities := es } ep = true ∧
        identityMatch lower { d with entities := es' } ep = false := by
  have htwo : ∃ e ∈ d.entities, ∃ e' ∈ d.entities, e.value = e'.value ∧ e.value ≠ "" ∧
      normRole lower e.role ≠ normRole lower e'.role ∧ normRole lower e'.role ≠ none := by
    simp only [Clear, not_forall] at h
    obtain ⟨e, he, e', he', hv, hne, hrole⟩ := h
    -- one of two different roles is there
    by_cases hnone : normRole lower e'.role = none
    · exact ⟨e', he', e, he, hv.symm, hv ▸ hne, fun heq => hrole heq.symm,
        fun hnone' => hrole (hnone'.trans hnone.symm)⟩
    · exact ⟨e, he, e', he', hv, hne, hrole, hnone⟩
  obtain ⟨e, he, e', he', hv, hne, hrole, hsome⟩ := htwo
  have hlast : ∀ x ∈ d.entities, (d.entities.erase x ++ [x]).Perm d.entities := by
    intro x hx
    exact (List.perm_append_singleton x _).trans (List.perm_cons_erase hx).symm
  have hprobe : ∀ x : Entity, x.value = e.value →
      (identityMatch lower { d with entities := d.entities.erase x ++ [x] } (probe d e none) = true ↔
        normRole lower x.role = none ∨ normRole lower x.role = normRole lower e.role) := by
    intro x hx
    have hlookup : (entityRoles lower (d.entities.erase x ++ [x])).lookup e.value =
        some (normRole lower x.role) := by
      rw [← hx]
      exact lookup_entityRoles_append (hx ▸ hne)
    exact @identityMatch_probe lower d { d with entities := d.entities.erase x ++ [x] } rfl rfl e
      hne none _ hlookup
  refine ⟨d.entities.erase e ++ [e], d.entities.erase e' ++ [e'], hlast e he, hlast e' he',
    probe d e none, rfl, rfl, ?_, ?_⟩
  · exact (hprobe e rfl).mpr (Or.inr rfl)
  · rw [← Bool.not_eq_true, hprobe e' hv.symm]
    rintro (hnone | heq)
    · exact hsome hnone
    · exact hrole heq.symm

/-- Two different intervals are told apart by an interval, whatever the
    tolerance and the offset are. -/
theorem exists_interval_of_ne {i i' : Option Interval} (h : i ≠ i') (tol offset : ℚ) :
    ∃ j : Interval, ∀ d d' : Detection, ∀ ep : Episode, d.interval = i → d'.interval = i' →
      ep.interval = shiftInterval (some j) offset →
        ¬ (temporal d ep tol = .inside ↔ temporal d' ep tol = .inside) := by
  have hshift : ∀ a b : ℚ, ∃ j : Interval, shiftInterval (some j) offset = some ⟨a, b⟩ := by
    intro a b
    refine ⟨⟨a - offset, b - offset⟩, ?_⟩
    rw [shiftInterval]
    split
    · next hzero => rw [hzero, sub_zero, sub_zero]
    · rw [sub_add_cancel, sub_add_cancel]
  have htell : ∃ a b : ℚ, ∀ d d' : Detection, ∀ ep : Episode, d.interval = i → d'.interval = i' →
      ep.interval = some ⟨a, b⟩ →
        ¬ (temporal d ep tol = .inside ↔ temporal d' ep tol = .inside) := by
    cases i with
    | none =>
      cases i' with
      | none => exact absurd rfl h
      | some i' =>
        refine ⟨i'.stop + tol, i'.start - tol, ?_⟩
        intro d d' ep hd hd' hep
        simp [temporal, hep, hd, hd']
    | some i =>
      cases i' with
      | none =>
        refine ⟨i.stop + tol, i.start - tol, ?_⟩
        intro d d' ep hd hd' hep
        simp [temporal, hep, hd, hd']
      | some i' =>
        rcases lt_trichotomy i.stop i'.stop with hlt | heq | hgt
        · refine ⟨i'.stop + tol, i'.start - tol, ?_⟩
          intro d d' ep hd hd' hep
          simp [temporal, hep, hd, hd', hlt]
        · have hstart : i.start ≠ i'.start := by
            intro hstart
            cases i
            cases i'
            simp_all
          rcases lt_or_gt_of_ne hstart with hlt | hgt
          · refine ⟨i.stop + tol, i.start - tol, ?_⟩
            intro d d' ep hd hd' hep
            simp [temporal, hep, hd, hd', hlt]
          · refine ⟨i'.stop + tol, i'.start - tol, ?_⟩
            intro d d' ep hd hd' hep
            simp [temporal, hep, hd, hd', hgt]
        · refine ⟨i.stop + tol, i.start - tol, ?_⟩
          intro d d' ep hd hd' hep
          simp [temporal, hep, hd, hd', hgt]
  obtain ⟨a, b, htell⟩ := htell
  obtain ⟨j, hj⟩ := hshift a b
  exact ⟨j, fun d d' ep hd hd' hep => htell d d' ep hd hd' (hep.trans hj)⟩

end

end Benchmark
