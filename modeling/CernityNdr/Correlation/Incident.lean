import CernityNdr.Correlation.Chain

/-! # Incidents

    The model of `entity_risk` with its ceilings, `risk_families` and
    `should_incident` of `correlation-service/correlate.py`, for any decay and
    any ceilings over those of the table.

    * `entityRiskWith_le`: the risk is bounded by the ceilings of the families
      that are there.
    * `one_behavior_never_trips`: with the default ceilings one family alone
      does not reach the threshold. -/

open CappedMap (FieldMap)
open Rounding (roundTo)

namespace Correlation

/-! ### Ceilings -/

variable {K : Type*} [Field K] [LinearOrder K] [FloorRing K]

/-- `caps.get(fam, FAMILY_CAP_DEFAULT)`, the ceilings of an operator over
    those of the table. -/
def capIn (familyCaps : List (String × K)) (fam : String) : K := (familyCaps.lookup fam).getD (capOf fam)

/-- `sev * 0.5 ** (age / half_life_secs)`, with `decay` as the power. -/
def decayedPart (decay : K → K) (now halfLife : K) (best : K × K) : K :=
  best.1 * decay (max 0 (now - best.2) / halfLife)

/-- `_family_totals`. -/
def familyTotalsWith (decay : K → K) (findings : List (Finding K)) (now halfLife : K)
    (familyCaps : List (String × K)) : FieldMap String (Family K) :=
  (strongest now findings).vals.foldl (addTo (capIn familyCaps) (decayedPart decay now halfLife)) .empty

/-- `entity_risk`. -/
def entityRiskWith (decay : K → K) (findings : List (Finding K)) (now halfLife : K)
    (familyCaps : List (String × K)) : K :=
  roundTo 3 ((familyTotalsWith decay findings now halfLife familyCaps).vals.map fun g =>
    min g.2.raw g.2.cap).sum

/-- An entry of `risk_families`. -/
structure FamilyRow (K : Type*) where
  family : String
  raw : K
  capped : K
  cap : K
  detectors : List String

/-- `risk_families`. -/
def riskFamilies (decay : K → K) (findings : List (Finding K)) (now halfLife : K)
    (familyCaps : List (String × K)) : List (FamilyRow K) :=
  ((familyTotalsWith decay findings now halfLife familyCaps).vals.insertionSort fun g h => g.1 ≤ h.1).map
    fun g => ⟨g.1, roundTo 3 g.2.raw, roundTo 3 (min g.2.raw g.2.cap), g.2.cap,
      g.2.detectors.insertionSort (· ≤ ·)⟩

/-! ### The decision -/

structure Params (K : Type*) where
  riskThreshold : K
  minTactics : Int
  halfLife : K
  familyCaps : List (String × K)

def DEFAULTS : Params K := ⟨12, 2, 3600, FAMILY_CAPS⟩

def CORRELATION_SOURCES : List String := ["correlation_incident", "correlation_corroboration"]

/-- `is_correlation`. -/
def isCorrelation (f : Report K) : Bool := decide (f.detectorId ∈ CORRELATION_SOURCES)

/-- `should_incident`. -/
def shouldIncident (decay : K → K) (findings : List (Report K)) (now : K) (p : Params K) :
    Bool × String :=
  let active := findings.filter fun f => !isCorrelation f
  let distinct := (active.filterMap fun f => (STAGE.lookup f.category).map Prod.fst).dedup
  if active.isEmpty then (false, "no findings")
  else if isOrderedChain active = true ∧ p.minTactics ≤ distinct.length then (true, "kill-chain")
  else if p.minTactics ≤ distinct.length ∧ 2 ≤ active.length then (true, "multi-tactic")
  else if p.riskThreshold ≤ entityRiskWith decay (active.map Report.toFinding) now p.halfLife p.familyCaps
    then (true, "risk-threshold")
  else (false, "below threshold")

/-- The families of the findings. -/
def familiesOf (findings : List (Finding K)) : Finset String :=
  (findings.map fun f => familyOf f.detectorId).toFinset

/-! ### The loop over the families -/

variable {decay : K → K} {findings : List (Finding K)} {now halfLife : K} {familyCaps : List (String × K)}

omit [FloorRing K] in
/-- The families of the strongest findings are those of all findings. -/
theorem families_strongest (now : K) (findings : List (Finding K)) :
    ((strongest now findings).vals.map fun d => familyOf d.1).toFinset = familiesOf findings := by
  have hdet : ∀ det, (∃ d ∈ (strongest now findings).vals, d.1 = det) ↔
      ∃ f ∈ findings, f.detectorId = det := by
    intro det
    have hnone : (Registry.leasts Prod.fst rank (findings.map (candidate now))).get? det = none ↔
        ∀ d ∈ findings.map (candidate now), d.1 ≠ det := Registry.get?_leasts_eq_none
    rw [← strongest_eq_leasts] at hnone
    have hkeys : (∃ d ∈ (strongest now findings).vals, d.1 = det) ↔
        (strongest now findings).get? det ≠ none := by
      rw [← List.mem_map, Option.ne_none_iff_exists']
      exact Registry.mem_keys
    rw [hkeys, ne_eq, hnone]
    push Not
    simp only [List.mem_map, exists_exists_and_eq_and, candidate]
  ext fam
  rw [familiesOf, List.mem_toFinset, List.mem_toFinset, List.mem_map, List.mem_map]
  constructor
  · rintro ⟨d, hd, rfl⟩
    obtain ⟨f, hf, heq⟩ := (hdet d.1).mp ⟨d, hd, rfl⟩
    exact ⟨f, hf, by rw [heq]⟩
  · rintro ⟨f, hf, rfl⟩
    obtain ⟨d, hd, heq⟩ := (hdet f.detectorId).mpr ⟨f, hf, rfl⟩
    exact ⟨d, hd, by rw [heq]⟩

/-- **The risk before it is rounded.** -/
theorem sum_familyTotalsWith :
    ((familyTotalsWith decay findings now halfLife familyCaps).vals.map fun g => min g.2.raw g.2.cap).sum =
      ∑ fam ∈ familiesOf findings,
        min (partsOf (decayedPart decay now halfLife) (strongest now findings).vals fam)
          (capIn familyCaps fam) := by
  rw [familyTotalsWith, sum_capped, families_strongest]

/-! ### Default ceilings -/

theorem lookup_FAMILY_CAPS (fam : String) :
    (FAMILY_CAPS : List (String × K)).lookup fam = FAMILY_CAP fam :=
  Registry.lookup_map_snd (fun points : Nat => roundTo 2 ((points : K) / 3)) familyPoints fam

theorem capIn_default (fam : String) : capIn (FAMILY_CAPS : List (String × K)) fam = capOf fam := by
  rw [capIn, lookup_FAMILY_CAPS, capOf]
  cases (FAMILY_CAP fam : Option K) <;> rfl

/-- A detector of a family that has no points is the family. -/
theorem eq_of_familyOf {det fam : String} (hfam : familyPoints.lookup fam = none)
    (h : familyOf det = fam) : det = fam := by
  have hpoints : FAMILY.all (fun p => (familyPoints.lookup p.2).isSome) = true := by decide
  unfold familyOf at h
  cases hlookup : FAMILY.lookup det with
  | none => rwa [hlookup] at h
  | some fam' =>
    rw [hlookup, Option.getD_some] at h
    subst h
    have hsome := List.all_eq_true.mp hpoints _ (Registry.mem_of_lookup hlookup)
    rw [hfam] at hsome
    cases hsome

/-- An incident for the risk has a risk at the threshold. -/
theorem risk_of_shouldIncident {reports : List (Report K)} {p : Params K}
    (h : (shouldIncident decay reports now p).2 = "risk-threshold") :
    p.riskThreshold ≤ entityRiskWith decay
      ((reports.filter fun f => !isCorrelation f).map Report.toFinding) now p.halfLife p.familyCaps := by
  unfold shouldIncident at h
  dsimp only at h
  split_ifs at h with hempty hchain htactics hrisk
  · exact absurd h (by decide)
  · exact absurd h (by decide)
  · exact absurd h (by decide)
  · exact hrisk
  · exact absurd h (by decide)

section Bounds

variable [IsStrictOrderedRing K]

/-- A ceiling of the table is at most that of thirty points. -/
theorem capOf_le_ten {fam : String} (h : familyPoints.lookup fam ≠ none) : (capOf fam : K) ≤ 10 := by
  obtain ⟨points, hlookup⟩ := Option.ne_none_iff_exists'.mp h
  have hbound : familyPoints.all (fun p => decide (p.2 ≤ 30)) = true := by decide
  have hpoints : points ≤ 30 :=
    of_decide_eq_true (List.all_eq_true.mp hbound _ (Registry.mem_of_lookup hlookup))
  have hle : (points : K) / 3 ≤ (10 : Nat) := by
    rw [div_le_iff₀ (by norm_num)]
    exact_mod_cast (show points ≤ 10 * 3 by omega)
  rw [capOf, FAMILY_CAP, hlookup]
  calc roundTo 2 ((points : K) / 3)
    _ ≤ roundTo 2 ((10 : Nat) : K) := Rounding.roundTo_mono 2 hle
    _ = 10 := by rw [Rounding.roundTo_natCast]; norm_num

omit [FloorRing K] in
theorem decayedPart_le (hdecay : ∀ x, 0 < decay x ∧ decay x ≤ 1) {best : K × K} (h : best.1 ≤ 10) :
    decayedPart decay now halfLife best ≤ 10 := by
  obtain ⟨hpos, hle⟩ := hdecay (max 0 (now - best.2) / halfLife)
  rcases le_total best.1 0 with hneg | hnonneg
  · exact (mul_nonpos_of_nonpos_of_nonneg hneg hpos.le).trans (by norm_num)
  · exact (mul_le_of_le_one_right hnonneg hle).trans h

omit [FloorRing K] in
/-- One detector contributes one finding. -/
theorem partsOf_le {fam : String} (hdecay : ∀ x, 0 < decay x ∧ decay x ≤ 1)
    (hsev : ∀ f ∈ findings, severityOf f ≤ 10) (hfam : familyPoints.lookup fam = none) :
    partsOf (decayedPart decay now halfLife) (strongest now findings).vals fam ≤ 10 := by
  have hnodup : (((strongest now findings).vals.filter fun d => familyOf d.1 = fam).map Prod.fst).Nodup :=
    (strongest now findings).keys_nodup.sublist (List.filter_sublist.map _)
  have hmem : ∀ d ∈ (strongest now findings).vals.filter (fun d => familyOf d.1 = fam),
      d.1 = fam ∧ decayedPart decay now halfLife d.2 ≤ 10 := by
    intro d hd
    obtain ⟨hin, hfamily⟩ := List.mem_filter.mp hd
    obtain ⟨g, hg, -, hbest⟩ := exists_isStrongest (Registry.lookup_eq_some.mpr hin)
    exact ⟨eq_of_familyOf hfam (of_decide_eq_true hfamily),
      decayedPart_le hdecay (hbest ▸ hsev g hg.1)⟩
  rw [partsOf]
  generalize (strongest now findings).vals.filter (fun d => familyOf d.1 = fam) = ds at hmem hnodup
  cases ds with
  | nil => simp
  | cons d ds =>
    cases ds with
    | nil => simpa using (hmem d List.mem_cons_self).2
    | cons d' ds =>
      -- two detectors of the family would have one id
      have hsame := (hmem d List.mem_cons_self).1.trans
        (hmem d' (List.mem_cons_of_mem d List.mem_cons_self)).1.symm
      simp [hsame] at hnodup

/-- **One family** does not go beyond ten with the default ceilings. -/
theorem entityRiskWith_le_ten {fam : String} (hdecay : ∀ x, 0 < decay x ∧ decay x ≤ 1)
    (hsev : ∀ f ∈ findings, severityOf f ≤ 10) (hfam : ∀ f ∈ findings, familyOf f.detectorId = fam) :
    entityRiskWith decay findings now halfLife FAMILY_CAPS ≤ 10 := by
  have hfamilies : familiesOf findings ⊆ {fam} := by
    intro fam' h
    obtain ⟨f, hf, rfl⟩ := List.mem_map.mp (List.mem_toFinset.mp h)
    exact Finset.mem_singleton.mpr (hfam f hf)
  have hone : min (partsOf (decayedPart decay now halfLife) (strongest now findings).vals fam)
      (capIn FAMILY_CAPS fam) ≤ 10 := by
    -- a family of the table is under its ceiling, any other is one detector
    by_cases hpoints : familyPoints.lookup fam = none
    · exact min_le_of_left_le (partsOf_le hdecay hsev hpoints)
    · exact min_le_of_right_le ((capIn_default fam).trans_le (capOf_le_ten hpoints))
  rw [entityRiskWith, sum_familyTotalsWith]
  calc roundTo 3 _
    _ ≤ roundTo 3 ((10 : Nat) : K) := by
      refine Rounding.roundTo_mono 3 ?_
      rcases Finset.subset_singleton_iff.mp hfamilies with hempty | hsingle
      · rw [hempty, Finset.sum_empty]
        norm_num
      · rw [hsingle, Finset.sum_singleton]
        exact_mod_cast hone
    _ = 10 := by rw [Rounding.roundTo_natCast]; norm_num

/-- **The risk is bounded** by the ceilings of the families that are there. -/
theorem entityRiskWith_le (decay : K → K) (findings : List (Finding K)) (now halfLife : K)
    (familyCaps : List (String × K)) :
    entityRiskWith decay findings now halfLife familyCaps ≤
      ∑ fam ∈ familiesOf findings, capIn familyCaps fam + 1 / 2000 := by
  have herror := (abs_le.mp (Rounding.abs_roundTo_sub_le 3
    (((familyTotalsWith decay findings now halfLife familyCaps).vals.map fun g => min g.2.raw g.2.cap).sum))).2
  have hcaps : ((familyTotalsWith decay findings now halfLife familyCaps).vals.map
      fun g => min g.2.raw g.2.cap).sum ≤ ∑ fam ∈ familiesOf findings, capIn familyCaps fam := by
    rw [sum_familyTotalsWith]
    exact Finset.sum_le_sum fun fam _ => min_le_right _ _
  rw [entityRiskWith]
  linarith

/-- **The two functions tell one story**, up to the roundings. -/
theorem abs_entityRiskWith_sub_le (decay : K → K) (findings : List (Finding K)) (now halfLife : K)
    (familyCaps : List (String × K)) :
    |entityRiskWith decay findings now halfLife familyCaps -
        ((riskFamilies decay findings now halfLife familyCaps).map FamilyRow.capped).sum| ≤
      (familiesOf findings).card * (1 / 2000) + 1 / 2000 := by
  have hrisk := Rounding.abs_roundTo_sub_le 3
    (((familyTotalsWith decay findings now halfLife familyCaps).vals.map fun g => min g.2.raw g.2.cap).sum)
  have hrows := Rounding.abs_sum_roundTo_sub_le 3 (fun g : String × Family K => min g.2.raw g.2.cap)
    (familyTotalsWith decay findings now halfLife familyCaps).vals
  have hsum : ((riskFamilies decay findings now halfLife familyCaps).map FamilyRow.capped).sum =
      ((familyTotalsWith decay findings now halfLife familyCaps).vals.map
        fun g => roundTo 3 (min g.2.raw g.2.cap)).sum := by
    rw [riskFamilies, List.map_map]
    exact ((List.perm_insertionSort _ _).map _).sum_eq
  have hcard : (familyTotalsWith decay findings now halfLife familyCaps).vals.length =
      (familiesOf findings).card := by
    rw [← families_strongest now, ← keys_families (capIn familyCaps)
      (decayedPart decay now halfLife), List.toFinset_card_of_nodup (Registry.keys_nodup _),
      Registry.keys, List.length_map]
    rfl
  rw [hcard] at hrows
  rw [hsum, entityRiskWith]
  rw [abs_le] at hrisk hrows ⊢
  constructor <;> linarith [hrisk.1, hrisk.2, hrows.1, hrows.2]

/-- **One behavior alone** never trips the threshold, and the families bound
    what the risk can be. -/
theorem one_behavior_never_trips (decay : K → K) (hdecay : ∀ x, 0 < decay x ∧ decay x ≤ 1) :
    (∀ (reports : List (Report K)) (now : K) (p : Params K) (fam : String),
      (∀ f ∈ reports, severityOf f.toFinding ≤ 10) → (∀ f ∈ reports, familyOf f.detectorId = fam) →
      p.riskThreshold = 12 → p.familyCaps = FAMILY_CAPS →
      (shouldIncident decay reports now p).2 ≠ "risk-threshold") ∧
    ∀ (findings : List (Finding K)) (now halfLife : K) (familyCaps : List (String × K)),
      (∀ g ∈ (familyTotalsWith decay findings now halfLife familyCaps).vals,
        min g.2.raw g.2.cap ≤ capIn familyCaps g.1) ∧
      entityRiskWith decay findings now halfLife familyCaps ≤
        ∑ fam ∈ familiesOf findings, capIn familyCaps fam + 1 / 2000 ∧
      |entityRiskWith decay findings now halfLife familyCaps -
          ((riskFamilies decay findings now halfLife familyCaps).map FamilyRow.capped).sum| ≤
        (familiesOf findings).card * (1 / 2000) + 1 / 2000 := by
  constructor
  · intro reports now p fam hsev hfam hthreshold hcaps hreason
    have hactive : ∀ f ∈ (reports.filter fun f => !isCorrelation f).map Report.toFinding,
        severityOf f ≤ 10 ∧ familyOf f.detectorId = fam := by
      intro f hf
      obtain ⟨g, hg, rfl⟩ := List.mem_map.mp hf
      exact ⟨hsev g (List.mem_of_mem_filter hg), hfam g (List.mem_of_mem_filter hg)⟩
    have hreached := risk_of_shouldIncident hreason
    have hle : entityRiskWith decay ((reports.filter fun f => !isCorrelation f).map Report.toFinding) now
        p.halfLife FAMILY_CAPS ≤ 10 :=
      entityRiskWith_le_ten hdecay (fun f hf => (hactive f hf).1) fun f hf => (hactive f hf).2
    rw [hcaps, hthreshold] at hreached
    linarith
  · intro findings now halfLife familyCaps
    refine ⟨fun g hg => ?_, entityRiskWith_le decay findings now halfLife familyCaps,
      abs_entityRiskWith_sub_le decay findings now halfLife familyCaps⟩
    exact (min_le_right _ _).trans_eq (family_of_mem hg).2

end Bounds

/-- Five names of one periodic callback, in one second. -/
def callbacks : List (Report ℚ) :=
  ["beacon", "beacon_fqdn", "strobe", "long_connection", "long_connection_cumulative"].map fun det =>
    ⟨⟨det, some 10, some 1000⟩, "c2"⟩

/-- Their risk is the ceiling of the family, and trips nothing. -/
theorem callbacks_trip_nothing : (shouldIncident halvings.apply callbacks 1000 DEFAULTS).2 ≠
    "risk-threshold" := by
  have hdecay : ∀ x, 0 < halvings.apply x ∧ halvings.apply x ≤ 1 := fun x =>
    ⟨pow_pos (by norm_num) _, pow_le_one₀ (by norm_num) (by norm_num)⟩
  refine (one_behavior_never_trips halvings.apply hdecay).1 callbacks 1000 DEFAULTS "temporal" ?_ ?_ rfl rfl
  · intro f hf
    obtain ⟨det, -, rfl⟩ := List.mem_map.mp hf
    exact le_refl (10 : ℚ)
  · have hall : callbacks.all (fun f => familyOf f.detectorId == "temporal") = true := by decide +kernel
    exact fun f hf => eq_of_beq (List.all_eq_true.mp hall f hf)

end Correlation
