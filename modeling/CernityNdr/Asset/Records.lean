import Mathlib.Data.Finset.Card
import CernityNdr.Asset.Service
import CernityNdr.Framework.Gathering

/-! # Asset Records

    The model of `merge` of `asset-service/resolution.py`, and of `_assets` in
    `observe`: one record for each asset key, into which the observations
    that resolve to the key are merged in the order of their arrival.

    * `gathers_mergeAll`: the sets and the confidence of a record, in any
      order and with any repetitions.
    * `record_bounds_iff`: when its bounds are the first and the last time. -/

namespace AssetService

open Gathering

/-! ### Observations and records -/

/-- `_ATTR_SCALARS`. -/
inductive ScalarAttr where
  | username
  | role
  | osHint
  | criticality
  | owner
  deriving DecidableEq

/-- `_ATTR_LISTS`. -/
inductive ListAttr where
  | applications
  | listeningServices
  | certificates
  | ja4
  deriving DecidableEq

def ATTR_SCALARS : List ScalarAttr := [.username, .role, .osHint, .criticality, .owner]

def ATTR_LISTS : List ListAttr := [.applications, .listeningServices, .certificates, .ja4]

/-- What `merge` reads of an observation. An attribute that the observation
    does not carry is `none`, or empty. -/
structure AssetObs where
  ip : Option String := none
  mac : Option String := none
  hostname : Option String := none
  src : Option String := none
  scalars : ScalarAttr → Option String := fun _ => none
  lists : ListAttr → List String := fun _ => []

/-- A key of `attribute_provenance`. -/
inductive Attr where
  | scalar (attr : ScalarAttr)
  | list (attr : ListAttr)
  deriving DecidableEq

structure Provenance where
  source : String
  observedAt : Instant

/-- The fields that every record has. -/
structure AssetCore where
  ipSet : List String
  macSet : List String
  hostnameSet : List String
  evidenceSources : List String
  firstSeen : Instant
  lastSeen : Instant
  confidence : ℚ
  roleIfKnown : String

/-- A record with its additive attributes. -/
structure AssetRecord extends AssetCore where
  scalars : ScalarAttr → Option String
  lists : ListAttr → Option (List String)
  provenance : Attr → Option Provenance

/-! ### Merging -/

/-- `_note_provenance`. -/
def noteProvenance (a : AssetRecord) (attr : Attr) (obs : AssetObs) (ts : Instant) : AssetRecord :=
  { a with provenance := Function.update a.provenance attr (some ⟨obs.src.getD "", ts⟩) }

/-- One round of the loop over the scalar attributes. -/
def mergeScalar (obs : AssetObs) (ts : Instant) (a : AssetRecord) (attr : ScalarAttr) :
    AssetRecord :=
  match obs.scalars attr with
  | none => a
  | some v =>
    noteProvenance { a with scalars := Function.update a.scalars attr (some v) } (.scalar attr) obs ts

/-- One round of the loop over the list attributes. -/
def mergeList (obs : AssetObs) (ts : Instant) (a : AssetRecord) (attr : ListAttr) : AssetRecord :=
  let vals := obs.lists attr
  if vals = [] then a
  else
    let existing := (a.lists attr).getD []
    let new := existing ++ vals.filter (fun v => !existing.contains v)
    if a.lists attr = none ∨ new ≠ existing then
      noteProvenance { a with lists := Function.update a.lists attr (some new) } (.list attr) obs ts
    else a

/-- The record before its first observation. -/
def newAsset (ts : Instant) : AssetRecord where
  ipSet := []
  macSet := []
  hostnameSet := []
  evidenceSources := []
  firstSeen := ts
  lastSeen := ts
  confidence := 1 / 2
  roleIfKnown := ""
  scalars := fun _ => none
  lists := fun _ => none
  provenance := fun _ => none

/-- The confidence that comes of so many types of evidence. -/
def confidenceOf (sources : Nat) : ℚ := min 1 (1 / 2 + 1 / 10 * sources)

/-- The MAC as `merge` stores it. -/
def AssetObs.storedMac (obs : AssetObs) : Option String :=
  given ((given obs.mac).map String.toLower)

/-- What `merge` does to the fields that every record has. -/
def AssetCore.sight (a : AssetCore) (obs : AssetObs) (ts : Instant) : AssetCore :=
  let sources := add a.evidenceSources (given obs.src)
  { a with
    ipSet := add a.ipSet (given obs.ip)
    macSet := add a.macSet obs.storedMac
    hostnameSet := add a.hostnameSet (given obs.hostname)
    evidenceSources := sources
    lastSeen := ts
    confidence := confidenceOf sources.toFinset.card }

/-- `merge`. -/
def merge (asset : Option AssetRecord) (obs : AssetObs) (ts : Instant) : AssetRecord :=
  let a := asset.getD (newAsset ts)
  let a := { a with toAssetCore := a.sight obs ts }
  let a := ATTR_SCALARS.foldl (mergeScalar obs ts) a
  ATTR_LISTS.foldl (mergeList obs ts) a

/-- An observation and its timestamp. -/
abbrev Arrival := AssetObs × Instant

/-- The record after observations in the order of their arrival. -/
def mergeAll (arrivals : List Arrival) : Option AssetRecord :=
  arrivals.foldl (fun a o => some (merge a o.1 o.2)) none

/-! ### The records of a process -/

/-- `_assets`. -/
abbrev Assets := Registry (Prod.fst : String × AssetRecord → String)

/-- An observation under the key that it resolved to. -/
structure Sighting where
  key : String
  obs : AssetObs
  ts : Instant

/-- `_assets[key] = merge(_assets.get(key), obs, ts)`. -/
def Assets.note (assets : Assets) (s : Sighting) : Assets :=
  assets.put (s.key, merge (assets.lookup s.key) s.obs s.ts)

def assetsAfter (sightings : List Sighting) : Assets := sightings.foldl Assets.note .empty

/-- The observations of one key. -/
def arrivalsOf (sightings : List Sighting) (key : String) : List Arrival :=
  (sightings.filter fun s => s.key = key).map fun s => (s.obs, s.ts)

/-! ### What a record gathers -/

section Fields

variable {obs : AssetObs} {ts : Instant} {a : AssetRecord}

@[simp] theorem core_mergeScalar (attr : ScalarAttr) :
    (mergeScalar obs ts a attr).toAssetCore = a.toAssetCore := by
  unfold mergeScalar noteProvenance
  cases obs.scalars attr <;> rfl

@[simp] theorem core_mergeList (attr : ListAttr) :
    (mergeList obs ts a attr).toAssetCore = a.toAssetCore := by
  simp only [mergeList, noteProvenance]
  split
  · rfl
  · split <;> rfl

/-- The additive attributes do not touch the other fields. -/
theorem core_merge (asset : Option AssetRecord) :
    (merge asset obs ts).toAssetCore = (asset.getD (newAsset ts)).toAssetCore.sight obs ts := by
  simp [merge, ATTR_SCALARS, ATTR_LISTS]

end Fields

/-- The sets and the confidence are those of the observations. -/
structure Gathers (arrivals : List Arrival) (a : AssetRecord) : Prop where
  ips : ∀ v, v ∈ a.ipSet ↔ ∃ o ∈ arrivals, given o.1.ip = some v
  macs : ∀ v, v ∈ a.macSet ↔ ∃ o ∈ arrivals, o.1.storedMac = some v
  hostnames : ∀ v, v ∈ a.hostnameSet ↔ ∃ o ∈ arrivals, given o.1.hostname = some v
  sources : ∀ v, v ∈ a.evidenceSources ↔ ∃ o ∈ arrivals, given o.1.src = some v
  confidence :
    a.confidence = confidenceOf (arrivals.filterMap fun o => given o.1.src).toFinset.card

/-- The bounds are the first and the last time of the observations. -/
structure Bounded (arrivals : List Arrival) (a : AssetRecord) : Prop where
  first : IsLeast {t | ∃ o ∈ arrivals, o.2 = t} a.firstSeen
  last : IsGreatest {t | ∃ o ∈ arrivals, o.2 = t} a.lastSeen

/-- The record of these observations, whatever their order. -/
def RecordOf (arrivals : List Arrival) (a : AssetRecord) : Prop :=
  Gathers arrivals a ∧ Bounded arrivals a

theorem mergeAll_snoc (arrivals : List Arrival) (o : Arrival) :
    mergeAll (arrivals ++ [o]) = some (merge (mergeAll arrivals) o.1 o.2) := by
  simp [mergeAll]

theorem mergeAll_ne_none {arrivals : List Arrival} (h : arrivals ≠ []) :
    ∃ a, mergeAll arrivals = some a := by
  obtain ⟨init, o, rfl⟩ := List.eq_nil_or_concat arrivals |>.resolve_left h
  rw [List.concat_eq_append]
  exact ⟨_, mergeAll_snoc init o⟩

/-- The fields of a record, as the arrivals left them. -/
structure Follows (arrivals : List Arrival) (a : AssetRecord) : Prop where
  ips : a.ipSet = arrivals.foldl (fun l o => add l (given o.1.ip)) []
  macs : a.macSet = arrivals.foldl (fun l o => add l o.1.storedMac) []
  hostnames : a.hostnameSet = arrivals.foldl (fun l o => add l (given o.1.hostname)) []
  sources : a.evidenceSources = arrivals.foldl (fun l o => add l (given o.1.src)) []
  confidence : a.confidence = confidenceOf a.evidenceSources.toFinset.card
  first : arrivals.head?.map Prod.snd = some a.firstSeen
  last : arrivals.getLast?.map Prod.snd = some a.lastSeen

/-- The record of the first observation. -/
theorem follows_first (o : Arrival) : Follows [o] (merge none o.1 o.2) := by
  have hcore : (merge none o.1 o.2).toAssetCore = ((newAsset o.2).toAssetCore).sight o.1 o.2 :=
    core_merge none
  constructor <;> rw [hcore] <;> rfl

theorem Follows.merge {arrivals : List Arrival} {a : AssetRecord} (h : Follows arrivals a)
    (o : Arrival) : Follows (arrivals ++ [o]) (merge (some a) o.1 o.2) := by
  have hcore : (AssetService.merge (some a) o.1 o.2).toAssetCore = a.toAssetCore.sight o.1 o.2 :=
    core_merge (some a)
  have hne : arrivals ≠ [] := by
    rintro rfl
    exact absurd h.first (by simp)
  constructor
  · rw [hcore, List.foldl_append, ← h.ips]
    rfl
  · rw [hcore, List.foldl_append, ← h.macs]
    rfl
  · rw [hcore, List.foldl_append, ← h.hostnames]
    rfl
  · rw [hcore, List.foldl_append, ← h.sources]
    rfl
  · rw [hcore]
    rfl
  · -- only the first observation sets the start
    rw [hcore, List.head?_append_of_ne_nil _ hne]
    exact h.first
  · rw [hcore, List.getLast?_concat]
    rfl

theorem follows_mergeAll {arrivals : List Arrival} {a : AssetRecord}
    (h : mergeAll arrivals = some a) : Follows arrivals a := by
  induction arrivals using List.reverseRecOn generalizing a with
  | nil => simp [mergeAll] at h
  | append_singleton arrivals o ih =>
    rw [mergeAll_snoc, Option.some.injEq] at h
    subst h
    cases hbefore : mergeAll arrivals with
    | none =>
      have hnil : arrivals = [] := by
        by_contra hne
        obtain ⟨b, hb⟩ := mergeAll_ne_none hne
        exact absurd (hb.symm.trans hbefore) (by simp)
      subst hnil
      exact follows_first o
    | some b => exact (ih hbefore).merge o

/-- The sets and the confidence of a record are those of its observations,
    in whatever order they arrived and however often. -/
theorem Follows.gathers {arrivals arrivals' : List Arrival} {a : AssetRecord}
    (h : Follows arrivals' a) (hsame : ∀ o, o ∈ arrivals' ↔ o ∈ arrivals) : Gathers arrivals a := by
  have hmem : ∀ (f : Arrival → Option String) (v : String),
      v ∈ arrivals'.foldl (fun l o => add l (f o)) [] ↔ ∃ o ∈ arrivals, f o = some v := by
    intro f v
    rw [mem_foldl_add]
    simp [hsame]
  refine ⟨?_, ?_, ?_, ?_, ?_⟩
  · exact fun v => h.ips ▸ hmem _ v
  · exact fun v => h.macs ▸ hmem _ v
  · exact fun v => h.hostnames ▸ hmem _ v
  · exact fun v => h.sources ▸ hmem _ v
  · rw [h.confidence]
    congr 2
    ext v
    rw [List.mem_toFinset, List.mem_toFinset, List.mem_filterMap, h.sources]
    exact hmem _ v

/-! ### Bounds -/

theorem Follows.bounded_iff {arrivals : List Arrival} {a : AssetRecord} (h : Follows arrivals a) :
    Bounded arrivals a ↔ Ordered Prod.snd arrivals := by
  obtain ⟨f, hf, hfirst⟩ := Option.map_eq_some_iff.mp h.first
  obtain ⟨g, hg, hlast⟩ := Option.map_eq_some_iff.mp h.last
  have hordered : Ordered Prod.snd arrivals ↔
      (∀ o ∈ arrivals, f.2 ≤ o.2) ∧ ∀ o ∈ arrivals, o.2 ≤ g.2 := by
    simp [Ordered, hf, hg]
  rw [hordered, ← isLeast_head_iff hf, ← isGreatest_last_iff hg, hfirst, hlast]
  exact ⟨fun hb => ⟨hb.first, hb.last⟩, fun hb => ⟨hb.1, hb.2⟩⟩

/-- A record with exact bounds for every order of the observations. -/
def OrderFree (arrivals : List Arrival) : Prop :=
  ∀ arrivals', (∀ o, o ∈ arrivals' ↔ o ∈ arrivals) →
    ∀ a, mergeAll arrivals' = some a → RecordOf arrivals a

theorem bounded_congr {arrivals arrivals' : List Arrival} {a : AssetRecord}
    (hsame : ∀ o, o ∈ arrivals' ↔ o ∈ arrivals) : Bounded arrivals' a ↔ Bounded arrivals a := by
  have hset : {t | ∃ o ∈ arrivals', o.2 = t} = {t | ∃ o ∈ arrivals, o.2 = t} := by
    ext t
    simp only [hsame]
  constructor
  · rintro ⟨hfirst, hlast⟩
    exact ⟨hset ▸ hfirst, hset ▸ hlast⟩
  · rintro ⟨hfirst, hlast⟩
    exact ⟨hset ▸ hfirst, hset ▸ hlast⟩

/-- Whatever the order, the record is exact only if all times are equal: an
    observation that is merged again is the last one. -/
theorem orderFree_iff (arrivals : List Arrival) :
    OrderFree arrivals ↔ ∀ o ∈ arrivals, ∀ o' ∈ arrivals, o.2 = o'.2 := by
  constructor
  · intro hfree o ho o' ho'
    have hle : ∀ x ∈ arrivals, ∀ y ∈ arrivals, y.2 ≤ x.2 := by
      intro x hx y hy
      have hsame : ∀ z, z ∈ arrivals ++ [x] ↔ z ∈ arrivals := by
        intro z
        simp only [List.mem_append, List.mem_singleton, or_iff_left_iff_imp]
        rintro rfl
        exact hx
      have hb := (hfree _ hsame _ (mergeAll_snoc arrivals x)).2
      have hordered := (follows_mergeAll (mergeAll_snoc arrivals x)).bounded_iff.mp
        ((bounded_congr hsame).mpr hb)
      exact hordered.2 x (by simp) y ((hsame y).mpr hy)
    exact le_antisymm (hle o' ho' o ho) (hle o ho o' ho')
  · intro heq arrivals' hsame a ha
    have hfollows := follows_mergeAll ha
    refine ⟨hfollows.gathers hsame, (bounded_congr hsame).mp (hfollows.bounded_iff.mpr ?_)⟩
    constructor
    · intro f hf x hx
      exact (heq f ((hsame f).mp (List.mem_of_head? hf)) x ((hsame x).mp hx)).le
    · intro g hg x hx
      exact (heq x ((hsame x).mp hx) g ((hsame g).mp (List.mem_of_getLast? hg))).le

/-! ### The records of a process -/

/-- The record of a key is made of the observations that resolved to it. -/
theorem lookup_assetsAfter (sightings : List Sighting) (key : String) :
    (assetsAfter sightings).lookup key = mergeAll (arrivalsOf sightings key) := by
  induction sightings using List.reverseRecOn with
  | nil => rfl
  | append_singleton sightings s ih =>
    have hafter : assetsAfter (sightings ++ [s]) = (assetsAfter sightings).note s := by
      simp [assetsAfter]
    rw [hafter, Assets.note, Registry.lookup_put]
    split
    · next heq =>
      subst heq
      have harrivals : arrivalsOf (sightings ++ [s]) s.key =
          arrivalsOf sightings s.key ++ [(s.obs, s.ts)] := by
        simp [arrivalsOf]
      rw [ih, harrivals, mergeAll_snoc]
    · next hne =>
      rw [ih]
      simp [arrivalsOf, hne]

/-- The sets and the confidence of an asset are those of its observations.
    Its bounds are their first and last time exactly when the first of them
    carries the smallest time and the last one the largest. So they are
    for every order, repetitions included, exactly when all times are equal. -/
theorem record_bounds_iff (sightings : List Sighting) (key : String) (a : AssetRecord)
    (h : (assetsAfter sightings).lookup key = some a) :
    Gathers (arrivalsOf sightings key) a ∧
    (RecordOf (arrivalsOf sightings key) a ↔ Ordered Prod.snd (arrivalsOf sightings key)) ∧
    (OrderFree (arrivalsOf sightings key) ↔
      ∀ o ∈ arrivalsOf sightings key, ∀ o' ∈ arrivalsOf sightings key, o.2 = o'.2) := by
  rw [lookup_assetsAfter] at h
  have hfollows := follows_mergeAll h
  have hgathers := hfollows.gathers fun _ => Iff.rfl
  refine ⟨hgathers, ?_, orderFree_iff _⟩
  exact ⟨fun hrecord => hfollows.bounded_iff.mp hrecord.2,
    fun hordered => ⟨hgathers, hfollows.bounded_iff.mpr hordered⟩⟩

/-- A host that is seen in a flow at `ts`. -/
def flowSighting (ts : Instant) : Sighting := ⟨"ip:10.0.0.5", { ip := "10.0.0.5", src := "flow" }, ts⟩

theorem record_bounds_flow :
    ∃ a, Gathers (arrivalsOf [flowSighting 1, flowSighting 2] "ip:10.0.0.5") a ∧
      (RecordOf (arrivalsOf [flowSighting 1, flowSighting 2] "ip:10.0.0.5") a ↔
        Ordered Prod.snd (arrivalsOf [flowSighting 1, flowSighting 2] "ip:10.0.0.5")) ∧
      (OrderFree (arrivalsOf [flowSighting 1, flowSighting 2] "ip:10.0.0.5") ↔
        ∀ o ∈ arrivalsOf [flowSighting 1, flowSighting 2] "ip:10.0.0.5",
          ∀ o' ∈ arrivalsOf [flowSighting 1, flowSighting 2] "ip:10.0.0.5", o.2 = o'.2) :=
  ⟨_, record_bounds_iff [flowSighting 1, flowSighting 2] "ip:10.0.0.5" _ rfl⟩

/-- A late observation moves the end of the record back. -/
theorem late_sighting_moves_last :
    ¬ ∀ a, (assetsAfter [flowSighting 2, flowSighting 1]).lookup "ip:10.0.0.5" = some a →
      RecordOf (arrivalsOf [flowSighting 2, flowSighting 1] "ip:10.0.0.5") a := by
  intro h
  have hne : arrivalsOf [flowSighting 2, flowSighting 1] "ip:10.0.0.5" ≠ [] := List.cons_ne_nil _ _
  obtain ⟨a, ha⟩ := mergeAll_ne_none hne
  have hlast : a.lastSeen = 1 := (Option.some.inj (follows_mergeAll ha).last).symm
  have hgreatest := (h a (by rw [lookup_assetsAfter, ha])).2.last
  have hle : (2 : Instant) ≤ a.lastSeen := hgreatest.2 ⟨_, List.mem_cons_self, rfl⟩
  rw [hlast] at hle
  exact absurd hle (by decide)

end AssetService
