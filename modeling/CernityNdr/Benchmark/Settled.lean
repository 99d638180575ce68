import CernityNdr.Benchmark.Revisions
import Mathlib.Data.List.Dedup

/-! # Settled Detections

    `Settled`: the condition under which the order of the detections, and of
    the entities of each, does not show in what `_select_revisions` keeps.

    * `selectGroup_alike`: the selection of one finding.
    * `selectRevisions_alike`: the selection of all the findings.
    * `length_late`: the late detections are counted one by one. -/

namespace Benchmark

open Rearranged

section

variable (lower : String → String) (float : ℚ → Option ℚ)

/-- No episode tells the two detections apart. -/
def SameVerdicts (d d' : Detection) : Prop :=
  ∀ ep tol, matchVerdict lower d ep tol = matchVerdict lower d' ep tol

/-- The detection names an entity. -/
def Named (d : Detection) : Prop := ∃ e ∈ d.entities, e.value ≠ ""

/-- The roles of one value are all there or all missing. -/
def Comparable (es : List Entity) : Prop :=
  ∀ e ∈ es, ∀ e' ∈ es, e.value = e'.value →
    (normRole lower e.role = none ↔ normRole lower e'.role = none)

/-- An available revision of a finding that no other one outranks. -/
def Latest (deadline : Option ℚ) (ds : List Detection) (d : Detection) : Prop :=
  d ∈ ds ∧ eligibility d deadline = .eligible ∧ groupKey d ≠ none ∧
    ∃ m, revisionRank lower float d = some m ∧
      ∀ d' ∈ ds, eligibility d' deadline = .eligible → groupKey d' = groupKey d →
        ∃ n ≤ m, revisionRank lower float d' = some n

/-- Every rank can be computed and the roles of the latest revisions can be
    sorted; an item of its own gives each value one role; and so do the latest
    revisions of a finding when they have one payload, and they agree on the
    interval then. -/
structure Settled (deadline : Option ℚ) (ds : List Detection) : Prop where
  ranked : ∀ d ∈ ds, eligibility d deadline = .eligible → groupKey d ≠ none →
    revisionRank lower float d ≠ none
  comparable : ∀ d, Latest lower float deadline ds d → Comparable lower d.entities
  single : ∀ d ∈ ds, eligibility d deadline = .eligible → groupKey d = none →
    Clear lower d.entities
  agreed : ∀ d, Latest lower float deadline ds d →
    (∀ d', Latest lower float deadline ds d' → groupKey d' = groupKey d →
      payloadKey lower d' = payloadKey lower d) →
    Clear lower d.entities ∧
      (Named d → ∀ d', Latest lower float deadline ds d' → groupKey d' = groupKey d →
        d'.interval = d.interval)

/-- The selections cannot be told apart, but for what was late. -/
structure Alike (s t : Selection) : Prop where
  kept : ∀ p : Detection → Bool, (∀ d d', SameVerdicts lower d d' → p d = p d') →
    s.kept.countP p = t.kept.countP p
  superseded : s.superseded = t.superseded
  conflicts : s.conflicts.length = t.conflicts.length
  unknown : s.unknown.length = t.unknown.length

/-- The latest revisions of one payload say the same. -/
def Agreed (top : List Detection) : Prop :=
  ∀ r ∈ top, Clear lower r.entities ∧ (Named r → ∀ s ∈ top, s.interval = r.interval)

end

variable {lower : String → String} {float : ℚ → Option ℚ} {deadline : Option ℚ}

/-! ### What is kept of one finding -/

theorem payloadKey_isSome_iff {d : Detection} :
    (payloadKey lower d).isSome ↔ Comparable lower d.entities := by
  rw [payloadKey_isSome]
  simp only [canonical, List.forall_mem_map, Incomparable, Comparable]
  constructor
  · intro h e he e' he' hv
    have hno := h e he e' he'
    tauto
  · rintro h e he e' he' ⟨hv, hrole⟩
    have hiff := h e he e' he' hv
    tauto

theorem not_named_iff {d : Detection} : ¬ Named d ↔ ∀ v, v ∉ (entityRoles lower d.entities).keys := by
  constructor
  · intro h v hv
    rw [mem_keys_entityRoles] at hv
    obtain ⟨role, hrole⟩ := Option.isSome_iff_exists.mp hv
    obtain ⟨hne, e, he, rfl, _⟩ := exists_mem_of_lookup hrole
    exact h ⟨e, he, hne⟩
  · rintro h ⟨e, he, hne⟩
    obtain ⟨role, hrole⟩ := @lookup_isSome_of_mem lower _ _ he hne
    exact h e.value (mem_keys_entityRoles.mpr (by rw [hrole]; rfl))

/-- A detection that names nothing surfaces no episode. -/
theorem matchVerdict_of_not_named {d : Detection} (h : ¬ Named d) (ep : Episode) (tol : ℚ) :
    matchVerdict lower d ep tol = .no := by
  have hkeys := (@not_named_iff lower d).mp h
  have hident : identityMatch lower d ep = false := by
    rw [identityMatch]
    split
    · rfl
    · have hor : requiredValues lower ep = [] ∨
          ¬ ∀ v ∈ requiredValues lower ep, v ∈ (entityRoles lower d.entities).keys := by
        cases hreq : requiredValues lower ep with
        | nil => exact Or.inl rfl
        | cons v vs => exact Or.inr fun hall => hkeys v (hall v List.mem_cons_self)
      rw [if_pos hor]
  rw [matchVerdict, if_pos hident]

theorem sameVerdicts_of_sameScored {d d' : Detection} (h : SameScored lower d d') :
    SameVerdicts lower d d' := fun ep tol => h.matchVerdict ep tol

theorem SameVerdicts.trans {d d' d'' : Detection} (h : SameVerdicts lower d d')
    (h' : SameVerdicts lower d' d'') : SameVerdicts lower d d'' :=
  fun ep tol => (h ep tol).trans (h' ep tol)

theorem tenantOf_of_groupKey {d d' : Detection} (h : groupKey d = groupKey d')
    (hsome : groupKey d ≠ none) : tenantOf d.tenant = tenantOf d'.tenant := by
  rw [groupKey, groupKey] at h
  rw [groupKey] at hsome
  cases hfid : d.findingId with
  | none => simp [hfid] at hsome
  | some fid =>
    cases hfid' : d'.findingId with
    | none => simp [hfid, hfid'] at h
    | some fid' =>
      rw [hfid, hfid'] at h
      exact (Prod.mk.inj (Option.some.inj h)).1

/-- Latest revisions of one finding with one payload that agree. -/
theorem sameVerdicts_of_agreed {top : List Detection} (h : Agreed lower top) {r s : Detection}
    (hr : r ∈ top) (hs : s ∈ top) (hkey : groupKey r = groupKey s) (hsome : groupKey r ≠ none)
    (hpay : (payloadKey lower r).isSome) (hsame : payloadKey lower r = payloadKey lower s) :
    SameVerdicts lower r s := by
  obtain ⟨hperm, hbehavior⟩ := perm_of_payloadKey hpay hsame
  have htenant := tenantOf_of_groupKey hkey hsome
  have hroles := lookup_congr (h r hr).1 hperm
  by_cases hnamed : Named r
  · exact sameVerdicts_of_sameScored
      ⟨hroles, hbehavior, htenant, ((h r hr).2 hnamed s hs).symm⟩
  · -- neither of them names anything
    have hnamed' : ¬ Named s := by
      rw [@not_named_iff lower] at hnamed ⊢
      intro v
      have hv := hnamed v
      rw [mem_keys_entityRoles] at hv ⊢
      rwa [← hroles]
    intro ep tol
    rw [matchVerdict_of_not_named hnamed, matchVerdict_of_not_named hnamed']

theorem selectGroup_of_nil {revs : List Detection} (h : having deadline .eligible revs = []) :
    selectGroup lower float deadline revs =
      some { kept := [], superseded := 0, late := having deadline .late revs, conflicts := [],
             unknown := having deadline .unknown revs } := by
  rw [selectGroup, if_pos h]

/-- What the loop body does with the latest revisions. -/
def selected (lower : String → String) (deadline : Option ℚ) (revs top : List Detection) :
    Selection where
  kept := if (distinct lower top).vals.length = 1 then top.take 1 else []
  superseded := (having deadline .eligible revs).length - top.length +
    if (distinct lower top).vals.length = 1 then top.length - 1 else 0
  late := having deadline .late revs
  conflicts := if (distinct lower top).vals.length = 1 then [] else [(distinct lower top).vals]
  unknown := having deadline .unknown revs

theorem selectGroup_eq_some {revs : List Detection} {s : Selection}
    (hne : having deadline .eligible revs ≠ []) :
    selectGroup lower float deadline revs = some s ↔
      ∃ top, topRevisions lower float (having deadline .eligible revs) = some top ∧
        (∀ r ∈ top, (payloadKey lower r).isSome) ∧ s = selected lower deadline revs top := by
  have hselected : ∀ top : List Detection,
      (if (distinct lower top).vals.length = 1 then
        some { kept := top.take 1,
               superseded := (having deadline .eligible revs).length - top.length + (top.length - 1),
               late := having deadline .late revs, conflicts := [],
               unknown := having deadline .unknown revs }
      else some { kept := [], superseded := (having deadline .eligible revs).length - top.length,
                  late := having deadline .late revs, conflicts := [(distinct lower top).vals],
                  unknown := having deadline .unknown revs }) =
        some (selected lower deadline revs top) := by
    intro top
    rw [selected]
    split <;> rfl
  rw [selectGroup, if_neg hne]
  constructor
  · intro h
    obtain ⟨top, htop, h⟩ := Option.bind_eq_some_iff.mp h
    obtain ⟨keys, hkeys, h⟩ := Option.bind_eq_some_iff.mp h
    refine ⟨top, htop, ?_, ?_⟩
    · intro r hr
      obtain ⟨key, _, hkey⟩ := Option.exists_mem_of_mapM hkeys hr
      rw [hkey]
      rfl
    · exact Option.some.inj (h.symm.trans (hselected top))
  · rintro ⟨top, htop, hpay, rfl⟩
    obtain ⟨keys, hkeys, _⟩ :=
      Option.exists_mapM fun r hr => Option.isSome_iff_exists.mp (hpay r hr)
    rw [htop, Option.bind_eq_bind, Option.bind_some, hkeys]
    exact hselected top

/-- The selection of a finding does not depend on any order. -/
theorem selectGroup_alike {revs revs' : List Detection} {k : String × String}
    (hkey : ∀ r ∈ revs, groupKey r = some k)
    (heligible : UpTo Reordered (having deadline .eligible revs) (having deadline .eligible revs'))
    (hunknown : (having deadline .unknown revs).length = (having deadline .unknown revs').length)
    {s : Selection} (h : selectGroup lower float deadline revs = some s)
    (hagreed : ∀ top, topRevisions lower float (having deadline .eligible revs) = some top →
      (∀ r ∈ top, ∀ s ∈ top, payloadKey lower r = payloadKey lower s) → Agreed lower top) :
    ∃ s', selectGroup lower float deadline revs' = some s' ∧ Alike lower s s' := by
  by_cases hnil : having deadline .eligible revs = []
  · have hnil' : having deadline .eligible revs' = [] := by
      rw [hnil] at heligible
      exact List.length_eq_zero_iff.mp heligible.length_eq.symm
    rw [selectGroup_of_nil hnil, Option.some.injEq] at h
    exact ⟨_, selectGroup_of_nil hnil', by subst h; exact ⟨fun _ _ => rfl, rfl, rfl, hunknown⟩⟩
  · have hnil' : having deadline .eligible revs' ≠ [] := by
      intro hnil'
      rw [hnil'] at heligible
      exact hnil (List.length_eq_zero_iff.mp heligible.length_eq)
    obtain ⟨top, htop, hpay, rfl⟩ := (selectGroup_eq_some hnil).mp h
    obtain ⟨top', htop', hupTo⟩ := topRevisions_upTo heligible htop
    have hpay' : ∀ r ∈ top', (payloadKey lower r).isSome := by
      intro r hr
      obtain ⟨s, hs, hrel⟩ := hupTo.exists_left hr
      rw [← hrel.payloadKey_eq]
      exact hpay s hs
    refine ⟨_, (selectGroup_eq_some hnil').mpr ⟨top', htop', hpay', rfl⟩, ?_⟩
    obtain ⟨_, htopEq, _, hne⟩ := topRevisions_eq_some.mp htop
    obtain ⟨_, _, _, hne'⟩ := topRevisions_eq_some.mp htop'
    have hone : (distinct lower top).vals.length = 1 ↔ (distinct lower top').vals.length = 1 := by
      rw [length_distinct_eq_one hne, length_distinct_eq_one hne']
      constructor
      · intro hall r hr s hs
        obtain ⟨r₀, hr₀, hrel⟩ := hupTo.exists_left hr
        obtain ⟨s₀, hs₀, hrel'⟩ := hupTo.exists_left hs
        rw [← hrel.payloadKey_eq, ← hrel'.payloadKey_eq]
        exact hall r₀ hr₀ s₀ hs₀
      · intro hall r hr s hs
        obtain ⟨r₀, hr₀, hrel⟩ := hupTo.exists_right hr
        obtain ⟨s₀, hs₀, hrel'⟩ := hupTo.exists_right hs
        rw [hrel.payloadKey_eq, hrel'.payloadKey_eq]
        exact hall r₀ hr₀ s₀ hs₀
    refine ⟨?_, ?_, ?_, hunknown⟩
    · intro p hp
      show List.countP p (if _ then _ else _) = List.countP p (if _ then _ else _)
      by_cases hlen : (distinct lower top).vals.length = 1
      · rw [if_pos hlen, if_pos (hone.mp hlen)]
        have hall := (length_distinct_eq_one hne).mp hlen
        obtain ⟨t, rest, rfl⟩ := List.exists_cons_of_ne_nil hne
        obtain ⟨t', rest', rfl⟩ := List.exists_cons_of_ne_nil hne'
        obtain ⟨u, hu, hrel⟩ := hupTo.exists_left List.mem_cons_self
        have hag := hagreed _ htop hall
        have hmem : ∀ r ∈ t :: rest, groupKey r = some k := by
          intro r hr
          rw [htopEq] at hr
          exact hkey r (List.mem_filter.mp (List.mem_filter.mp hr).1).1
        -- both representatives say what `u` says
        have hsame : SameVerdicts lower t u :=
          sameVerdicts_of_agreed hag List.mem_cons_self hu
            ((hmem t List.mem_cons_self).trans (hmem u hu).symm)
            (by rw [hmem t List.mem_cons_self]; exact Option.some_ne_none _)
            (hpay t List.mem_cons_self) (hall t List.mem_cons_self u hu)
        have hsame' : SameVerdicts lower u t' :=
          sameVerdicts_of_sameScored (hrel.sameScored (hag u hu).1)
        rw [List.take_one, List.take_one]
        simp [List.countP_cons, hp t t' (hsame.trans hsame')]
      · rw [if_neg hlen, if_neg (mt hone.mpr hlen)]
    · show _ - _ + (if _ then _ else _) = _ - _ + (if _ then _ else _)
      rw [heligible.length_eq, hupTo.length_eq]
      exact congrArg _ (if_congr hone rfl rfl)
    · show (if _ then _ else _ : List (List Detection)).length =
        (if _ then _ else _ : List (List Detection)).length
      by_cases hlen : (distinct lower top).vals.length = 1
      · rw [if_pos hlen, if_pos (hone.mp hlen)]
      · rw [if_neg hlen, if_neg (mt hone.mpr hlen)]
        rfl

/-! ### The selection as a sum over the findings -/

def Selection.blank : Selection := ⟨[], 0, [], [], []⟩

/-- A count of what is selected. -/
structure Additive (m : Selection → ℕ) : Prop where
  blank : m .blank = 0
  append : ∀ s t, m (s.append t) = m s + m t

theorem additive_kept (p : Detection → Bool) : Additive (fun s => s.kept.countP p) :=
  ⟨rfl, fun _ _ => List.countP_append⟩

theorem additive_superseded : Additive Selection.superseded := ⟨rfl, fun _ _ => rfl⟩

theorem additive_late : Additive (fun s => s.late.length) := ⟨rfl, fun _ _ => List.length_append⟩

theorem additive_conflicts : Additive (fun s => s.conflicts.length) :=
  ⟨rfl, fun _ _ => List.length_append⟩

theorem additive_unknown : Additive (fun s => s.unknown.length) :=
  ⟨rfl, fun _ _ => List.length_append⟩

theorem Additive.foldl {m : Selection → ℕ} (hm : Additive m) (l : List Selection) (s : Selection) :
    m (l.foldl Selection.append s) = m s + (l.map m).sum := by
  induction l generalizing s with
  | nil => rfl
  | cons t l ih => rw [List.foldl_cons, ih, hm.append, List.map_cons, List.sum_cons, Nat.add_assoc]

/-- The revisions of one finding. -/
def revisionsOf (ds : List Detection) (k : String × String) : List Detection :=
  Grouping.members groupKey ds k

/-- The detections without a finding id. -/
def singlesOf (ds : List Detection) : List Detection := ds.filter (fun d => groupKey d = none)

/-- What is selected of one finding. -/
def selectionOf (lower : String → String) (float : ℚ → Option ℚ) (deadline : Option ℚ)
    (ds : List Detection) (k : String × String) : Selection :=
  (selectGroup lower float deadline (revisionsOf ds k)).getD .blank

theorem revisionsOf_of_notMem {ds : List Detection} {k : String × String}
    (h : k ∉ (Grouping.grouped groupKey ds).keys) : revisionsOf ds k = [] := by
  rw [revisionsOf, Grouping.members, List.filter_eq_nil_iff]
  intro d hd hkey
  exact h (Grouping.mem_keys_grouped.mpr ⟨d, hd, of_decide_eq_true hkey⟩)

/-- The selection returns when it does for every finding. -/
theorem selectRevisions_eq_some {ds : List Detection} {s : Selection} :
    selectRevisions lower float ds deadline = some s ↔
      (∀ k, (selectGroup lower float deadline (revisionsOf ds k)).isSome) ∧
        s = ((Grouping.grouped groupKey ds).keys.map (selectionOf lower float deadline ds)).foldl
          Selection.append (selectSingles deadline (singlesOf ds)) := by
  have hvals := @Grouping.vals_grouped _ _ _ groupKey ds
  have hrun : (∀ k, (selectGroup lower float deadline (revisionsOf ds k)).isSome) →
      (Grouping.grouped groupKey ds).vals.mapM
          (fun group => selectGroup lower float deadline group.2) =
        some ((Grouping.grouped groupKey ds).keys.map (selectionOf lower float deadline ds)) := by
    intro hall
    have hmap := @Option.mapM_eq_some_map _ _
      (fun group : (String × String) × List Detection =>
        selectGroup lower float deadline group.2)
      (fun group => selectionOf lower float deadline ds group.1)
      (Grouping.grouped groupKey ds).vals
    rw [hmap]
    · rw [Registry.keys, List.map_map]
      rfl
    · intro group hgroup
      rw [hvals] at hgroup
      obtain ⟨k, _, rfl⟩ := List.mem_map.mp hgroup
      obtain ⟨t, ht⟩ := Option.isSome_iff_exists.mp (hall k)
      show selectGroup lower float deadline (revisionsOf ds k) =
        some (selectionOf lower float deadline ds k)
      rw [selectionOf, ht, Option.getD_some]
  constructor
  · intro h
    obtain ⟨sels, hsels, h⟩ := Option.bind_eq_some_iff.mp h
    have hall : ∀ k, (selectGroup lower float deadline (revisionsOf ds k)).isSome := by
      intro k
      by_cases hk : k ∈ (Grouping.grouped groupKey ds).keys
      · have hmem : (k, revisionsOf ds k) ∈ (Grouping.grouped groupKey ds).vals := by
          rw [hvals]
          exact List.mem_map.mpr ⟨k, hk, rfl⟩
        obtain ⟨t, _, ht⟩ := Option.exists_mem_of_mapM hsels hmem
        exact Option.isSome_iff_exists.mpr ⟨t, ht⟩
      · rw [revisionsOf_of_notMem hk, selectGroup_of_nil rfl]
        rfl
    refine ⟨hall, ?_⟩
    obtain rfl := Option.some.inj (hsels.symm.trans (hrun hall))
    exact (Option.some.inj h).symm
  · rintro ⟨hall, rfl⟩
    rw [selectRevisions, hrun hall]
    rfl

/-- A count of the selection is the sum of the counts of the findings, in any
    list that has all of them. -/
theorem Additive.selectRevisions {m : Selection → ℕ} (hm : Additive m) {ds : List Detection}
    {s : Selection} (h : selectRevisions lower float ds deadline = some s)
    {ks : List (String × String)} (hnodup : ks.Nodup)
    (hsub : (Grouping.grouped groupKey ds).keys ⊆ ks) :
    m s = m (selectSingles deadline (singlesOf ds)) +
      (ks.map (fun k => m (selectionOf lower float deadline ds k))).sum := by
  obtain ⟨_, rfl⟩ := selectRevisions_eq_some.mp h
  rw [hm.foldl, List.map_map]
  refine congrArg _ ?_
  refine Grouping.sum_map_of_subset (Registry.keys_nodup _) hnodup hsub ?_
  intro k _ hk
  show m (selectionOf lower float deadline ds k) = 0
  rw [selectionOf, revisionsOf_of_notMem hk, selectGroup_of_nil rfl]
  exact hm.blank

/-- The late detections are counted whatever finding they belong to. -/
theorem length_late {ds : List Detection} {s : Selection}
    (h : selectRevisions lower float ds deadline = some s) :
    s.late.length = ds.countP (fun d => eligibility d deadline = .late) := by
  have hlate : ∀ k, (selectionOf lower float deadline ds k).late.length =
      (Grouping.members groupKey ds k).countP (fun d => eligibility d deadline = .late) := by
    intro k
    have hsome := (selectRevisions_eq_some.mp h).1 k
    obtain ⟨t, ht⟩ := Option.isSome_iff_exists.mp hsome
    have htlate : t.late = having deadline .late (revisionsOf ds k) := by
      by_cases hnil : having deadline .eligible (revisionsOf ds k) = []
      · rw [selectGroup_of_nil hnil, Option.some.injEq] at ht
        rw [← ht]
      · obtain ⟨_, _, _, rfl⟩ := (selectGroup_eq_some hnil).mp ht
        rfl
    rw [selectionOf, ht, Option.getD_some, htlate, having, ← List.countP_eq_length_filter]
    rfl
  have hsum := additive_late.selectRevisions h (Registry.keys_nodup _) (List.Subset.refl _)
  rw [hsum, List.map_congr_left fun k _ => hlate k,
    Grouping.sum_countP_members _ _ (Registry.keys_nodup _)]
  show (having deadline .late (singlesOf ds)).length + _ = _
  rw [having, singlesOf, ← List.countP_eq_length_filter, List.countP_filter,
    ← Grouping.countP_or_of_disjoint]
  · -- a detection is an item of its own or it has the key of a finding
    refine List.countP_congr fun d hd => ?_
    simp only [Bool.or_eq_true, Bool.and_eq_true, decide_eq_true_eq]
    constructor
    · rintro (⟨hlate, _⟩ | ⟨hlate, _⟩) <;> exact hlate
    · intro hlate
      cases hkey : groupKey d with
      | none => exact Or.inl ⟨hlate, rfl⟩
      | some k => exact Or.inr ⟨hlate, k, Grouping.mem_keys_grouped.mpr ⟨d, hd, hkey⟩, rfl⟩
  · intro d hd
    rw [Bool.and_eq_true, decide_eq_true_eq, decide_eq_true_eq] at hd
    simp [hd.2]

/-- Selections that are alike finding by finding are alike. -/
theorem selectRevisions_alike {ds ds' : List Detection} {s : Selection}
    (h : selectRevisions lower float ds deadline = some s)
    (hsingles : Alike lower (selectSingles deadline (singlesOf ds))
      (selectSingles deadline (singlesOf ds')))
    (hgroups : ∀ k t, selectGroup lower float deadline (revisionsOf ds k) = some t →
      ∃ t', selectGroup lower float deadline (revisionsOf ds' k) = some t' ∧ Alike lower t t') :
    ∃ s', selectRevisions lower float ds' deadline = some s' ∧ Alike lower s s' := by
  have hall := (selectRevisions_eq_some.mp h).1
  have halike : ∀ k, Alike lower (selectionOf lower float deadline ds k)
      (selectionOf lower float deadline ds' k) := by
    intro k
    obtain ⟨t, ht⟩ := Option.isSome_iff_exists.mp (hall k)
    obtain ⟨t', ht', hal⟩ := hgroups k t ht
    rwa [selectionOf, selectionOf, ht, ht']
  have hall' : ∀ k, (selectGroup lower float deadline (revisionsOf ds' k)).isSome := by
    intro k
    obtain ⟨t, ht⟩ := Option.isSome_iff_exists.mp (hall k)
    obtain ⟨t', ht', _⟩ := hgroups k t ht
    exact Option.isSome_iff_exists.mpr ⟨t', ht'⟩
  obtain ⟨s', h'⟩ : ∃ s', selectRevisions lower float ds' deadline = some s' :=
    ⟨_, selectRevisions_eq_some.mpr ⟨hall', rfl⟩⟩
  refine ⟨s', h', ?_⟩
  -- the findings of both lists, each of them once
  let ks := ((Grouping.grouped groupKey ds).keys ++ (Grouping.grouped groupKey ds').keys).dedup
  have hnodup : ks.Nodup := List.nodup_dedup _
  have hsub : (Grouping.grouped groupKey ds).keys ⊆ ks := fun k hk =>
    List.mem_dedup.mpr (List.mem_append_left _ hk)
  have hsub' : (Grouping.grouped groupKey ds').keys ⊆ ks := fun k hk =>
    List.mem_dedup.mpr (List.mem_append_right _ hk)
  have hcount : ∀ {m : Selection → ℕ}, Additive m →
      m (selectSingles deadline (singlesOf ds)) = m (selectSingles deadline (singlesOf ds')) →
      (∀ k, m (selectionOf lower float deadline ds k) =
        m (selectionOf lower float deadline ds' k)) → m s = m s' := by
    intro m hm hone hmany
    rw [hm.selectRevisions h hnodup hsub, hm.selectRevisions h' hnodup hsub', hone,
      List.map_congr_left fun k _ => hmany k]
  exact ⟨fun p hp => hcount (additive_kept p) (hsingles.kept p hp) fun k => (halike k).kept p hp,
    hcount additive_superseded hsingles.superseded fun k => (halike k).superseded,
    hcount additive_conflicts hsingles.conflicts fun k => (halike k).conflicts,
    hcount additive_unknown hsingles.unknown fun k => (halike k).unknown⟩

/-! ### Settled detections -/

theorem exists_topRevisions {eligible : List Detection} (hne : eligible ≠ [])
    (h : ∀ r ∈ eligible, revisionRank lower float r ≠ none) :
    ∃ top, topRevisions lower float eligible = some top := by
  obtain ⟨ranks, hranks, _⟩ :=
    Option.exists_mapM fun r hr => Option.ne_none_iff_exists'.mp (h r hr)
  obtain ⟨r, hr⟩ := List.exists_mem_of_ne_nil _ hne
  obtain ⟨n, hn, _⟩ := Option.exists_mem_of_mapM hranks hr
  cases hmax : ranks.max? with
  | none =>
    rw [List.max?_eq_none_iff] at hmax
    rw [hmax] at hn
    cases hn
  | some topRank =>
    refine ⟨eligible.filter (fun r => revisionRank lower float r = some topRank), ?_⟩
    rw [topRevisions, hranks, Option.bind_eq_bind, Option.bind_some, hmax]
    rfl

theorem mem_having {e : Eligibility} {ds : List Detection} {k : String × String} {d : Detection} :
    d ∈ having deadline e (revisionsOf ds k) ↔
      d ∈ ds ∧ groupKey d = some k ∧ eligibility d deadline = e := by
  rw [having, revisionsOf, Grouping.members, List.mem_filter, List.mem_filter, decide_eq_true_eq,
    decide_eq_true_eq, and_assoc]

/-- The loop body finds the latest revisions. -/
theorem mem_top_iff {ds : List Detection} {k : String × String} {top : List Detection}
    (h : topRevisions lower float (having deadline .eligible (revisionsOf ds k)) = some top)
    {d : Detection} : d ∈ top ↔ Latest lower float deadline ds d ∧ groupKey d = some k := by
  obtain ⟨topRank, rfl, hle, hne⟩ := topRevisions_eq_some.mp h
  rw [List.mem_filter, decide_eq_true_eq, mem_having]
  constructor
  · rintro ⟨⟨hd, hkey, helig⟩, hrank⟩
    refine ⟨⟨hd, helig, hkey ▸ Option.some_ne_none k, topRank, hrank, ?_⟩, hkey⟩
    intro d' hd' helig' hkey'
    exact hle d' (mem_having.mpr ⟨hd', hkey'.trans hkey, helig'⟩)
  · rintro ⟨⟨hd, helig, _, m, hrank, hmax⟩, hkey⟩
    refine ⟨⟨hd, hkey, helig⟩, ?_⟩
    obtain ⟨n, hn, hrank'⟩ := hle d (mem_having.mpr ⟨hd, hkey, helig⟩)
    -- the highest rank is the rank of a revision
    obtain ⟨t, ht⟩ := List.exists_mem_of_ne_nil _ hne
    rw [List.mem_filter, decide_eq_true_eq, mem_having] at ht
    obtain ⟨⟨htmem, htkey, htelig⟩, htrank⟩ := ht
    obtain ⟨n', hn', hrank''⟩ := hmax t htmem htelig (htkey.trans hkey.symm)
    have hm : n = m := Option.some.inj (hrank'.symm.trans hrank)
    have htop : topRank = n' := Option.some.inj (htrank.symm.trans hrank'')
    have hle' : m ≤ topRank := by rw [← hm]; exact hn
    have hge : topRank ≤ m := by rw [htop]; exact hn'
    rw [hrank, le_antisymm hle' hge]

/-- The selection of a finding returns exactly when the ranks and the roles of
    the latest revisions can be compared. -/
theorem selectGroup_isSome_iff {ds : List Detection} {k : String × String} :
    (selectGroup lower float deadline (revisionsOf ds k)).isSome ↔
      (∀ d ∈ ds, groupKey d = some k → eligibility d deadline = .eligible →
        revisionRank lower float d ≠ none) ∧
      ∀ d, Latest lower float deadline ds d → groupKey d = some k →
        Comparable lower d.entities := by
  by_cases hnil : having deadline .eligible (revisionsOf ds k) = []
  · rw [selectGroup_of_nil hnil]
    have hnone : ∀ d ∈ ds, groupKey d = some k → eligibility d deadline ≠ .eligible := by
      intro d hd hkey helig
      exact List.ne_nil_of_mem (mem_having.mpr ⟨hd, hkey, helig⟩) hnil
    refine iff_of_true rfl ⟨?_, ?_⟩
    · intro d hd hkey helig
      exact absurd helig (hnone d hd hkey)
    · rintro d ⟨hd, helig, _⟩ hkey
      exact absurd helig (hnone d hd hkey)
  · constructor
    · intro h
      obtain ⟨t, ht⟩ := Option.isSome_iff_exists.mp h
      obtain ⟨top, htop, hpay, _⟩ := (selectGroup_eq_some hnil).mp ht
      refine ⟨?_, ?_⟩
      · intro d hd hkey helig
        obtain ⟨_, _, hle, _⟩ := topRevisions_eq_some.mp htop
        obtain ⟨n, _, hrank⟩ := hle d (mem_having.mpr ⟨hd, hkey, helig⟩)
        exact hrank ▸ Option.some_ne_none n
      · intro d hd hkey
        exact payloadKey_isSome_iff.mp (hpay d ((mem_top_iff htop).mpr ⟨hd, hkey⟩))
    · rintro ⟨hranked, hcomparable⟩
      obtain ⟨top, htop⟩ := @exists_topRevisions lower float _ hnil fun r hr => by
        obtain ⟨hmem, hkey, helig⟩ := mem_having.mp hr
        exact hranked r hmem hkey helig
      refine Option.isSome_iff_exists.mpr ⟨_, (selectGroup_eq_some hnil).mpr ⟨top, htop, ?_, rfl⟩⟩
      intro r hr
      obtain ⟨hlatest, hkey⟩ := (mem_top_iff htop).mp hr
      exact payloadKey_isSome_iff.mpr (hcomparable r hlatest hkey)

theorem selectRevisions_isSome_iff {ds : List Detection} :
    (selectRevisions lower float ds deadline).isSome ↔
      (∀ d ∈ ds, eligibility d deadline = .eligible → groupKey d ≠ none →
        revisionRank lower float d ≠ none) ∧
      ∀ d, Latest lower float deadline ds d → Comparable lower d.entities := by
  have hiff : (selectRevisions lower float ds deadline).isSome ↔
      ∀ k, (selectGroup lower float deadline (revisionsOf ds k)).isSome := by
    rw [Option.isSome_iff_exists]
    exact ⟨fun ⟨_, hs⟩ => (selectRevisions_eq_some.mp hs).1,
      fun hall => ⟨_, selectRevisions_eq_some.mpr ⟨hall, rfl⟩⟩⟩
  simp only [hiff, selectGroup_isSome_iff]
  constructor
  · intro h
    refine ⟨?_, ?_⟩
    · intro d hd helig hkey
      obtain ⟨k, hk⟩ := Option.ne_none_iff_exists'.mp hkey
      exact (h k).1 d hd hk helig
    · intro d hlatest
      obtain ⟨k, hk⟩ := Option.ne_none_iff_exists'.mp hlatest.2.2.1
      exact (h k).2 d hlatest hk
  · rintro ⟨hranked, hcomparable⟩ k
    exact ⟨fun d hd hkey helig => hranked d hd helig (hkey ▸ Option.some_ne_none k),
      fun d hlatest _ => hcomparable d hlatest⟩

theorem Settled.agreed_top {ds : List Detection} (h : Settled lower float deadline ds)
    {k : String × String} {top : List Detection}
    (htop : topRevisions lower float (having deadline .eligible (revisionsOf ds k)) = some top)
    (hsame : ∀ r ∈ top, ∀ s ∈ top, payloadKey lower r = payloadKey lower s) :
    Agreed lower top := by
  intro r hr
  obtain ⟨hlatest, hkey⟩ := (mem_top_iff htop).mp hr
  have hmem : ∀ d', Latest lower float deadline ds d' → groupKey d' = groupKey r → d' ∈ top :=
    fun d' hd' hkey' => (mem_top_iff htop).mpr ⟨hd', hkey'.trans hkey⟩
  obtain ⟨hclear, hinterval⟩ := h.agreed r hlatest fun d' hd' hkey' =>
    hsame d' (hmem d' hd' hkey') r hr
  refine ⟨hclear, ?_⟩
  intro hnamed s hs
  obtain ⟨hlatest', hkey'⟩ := (mem_top_iff htop).mp hs
  exact hinterval hnamed s hlatest' (hkey'.trans hkey.symm)

/-- No order of the detections or of their entities, and no detection that is
    late, shows in the selection. -/
theorem Settled.selectRevisions_alike {ds added ds' : List Detection}
    (h : Settled lower float deadline ds)
    (hlate : ∀ d ∈ added, eligibility d deadline = .late)
    (hupTo : UpTo Reordered (ds ++ added) ds') {s : Selection}
    (hs : selectRevisions lower float ds deadline = some s) :
    ∃ s', selectRevisions lower float ds' deadline = some s' ∧ Alike lower s s' ∧
      s'.late.length = s.late.length + added.length := by
  -- what is late is not among the items of any other kind
  have hadded : ∀ e : Eligibility, e ≠ .late → ∀ p : Detection → Bool,
      having deadline e ((ds ++ added).filter p) = having deadline e (ds.filter p) := by
    intro e he p
    have hnil : having deadline e (added.filter p) = [] := by
      rw [having, List.filter_eq_nil_iff]
      intro d hd hkind
      have hd' := hlate d (List.mem_filter.mp hd).1
      exact he ((of_decide_eq_true hkind).symm.trans hd')
    rw [having, List.filter_append, List.filter_append]
    show _ ++ having deadline e (added.filter p) = _
    rw [hnil, List.append_nil]
    rfl
  have hpart : ∀ e : Eligibility, e ≠ .late → ∀ p : Detection → Bool,
      (∀ d d', Reordered d d' → p d = p d') →
      UpTo Reordered (having deadline e (ds.filter p)) (having deadline e (ds'.filter p)) := by
    intro e he p hp
    rw [← hadded e he p]
    refine (hupTo.filter hp).filter fun d d' hd => ?_
    rw [hd.eligibility_eq]
  have hkeys : ∀ k : Option (String × String), ∀ d d', Reordered d d' →
      decide (groupKey d = k) = decide (groupKey d' = k) := by
    intro k d d' hd
    rw [hd.groupKey_eq]
  have hsingles : Alike lower (selectSingles deadline (singlesOf ds))
      (selectSingles deadline (singlesOf ds')) := by
    have helig := hpart .eligible (by decide) _ (hkeys none)
    refine ⟨?_, rfl, rfl, (hpart .unknown (by decide) _ (hkeys none)).length_eq⟩
    intro p hp
    refine (helig.mono ?_).countP_eq hp
    intro d hd d' hrel
    obtain ⟨hmem, hkind⟩ := List.mem_filter.mp hd
    obtain ⟨hmem, hnone⟩ := List.mem_filter.mp hmem
    exact sameVerdicts_of_sameScored (hrel.sameScored
      (h.single d hmem (of_decide_eq_true hkind) (of_decide_eq_true hnone)))
  have hgroups : ∀ k t, selectGroup lower float deadline (revisionsOf ds k) = some t →
      ∃ t', selectGroup lower float deadline (revisionsOf ds' k) = some t' ∧ Alike lower t t' := by
    intro k t ht
    refine @selectGroup_alike lower float deadline _ _ k ?_
      (hpart .eligible (by decide) _ (hkeys (some k)))
      (hpart .unknown (by decide) _ (hkeys (some k))).length_eq _ ht ?_
    · intro r hr
      exact of_decide_eq_true (List.mem_filter.mp hr).2
    · intro top htop hsame
      exact h.agreed_top htop hsame
  obtain ⟨s', hs', halike⟩ := Benchmark.selectRevisions_alike hs hsingles hgroups
  refine ⟨s', hs', halike, ?_⟩
  have hcount : added.countP (fun d => eligibility d deadline = .late) = added.length := by
    rw [List.countP_eq_length]
    intro d hd
    exact decide_eq_true (hlate d hd)
  rw [length_late hs', length_late hs, ← hcount, ← List.countP_append]
  refine (hupTo.countP_eq fun d d' hd => ?_).symm
  rw [hd.eligibility_eq]

end Benchmark
