import Mathlib.Algebra.Order.BigOperators.Group.Finset
import Mathlib.Data.Prod.Lex
import CernityNdr.Framework.CappedMap
import CernityNdr.Framework.Selection
import CernityNdr.Framework.Rounding

/-! # Entity Risk

    The model of `entity_risk` and `_family_totals` of
    `correlation-service/correlate.py` in an arithmetic that rounds: the
    strongest finding of every detector, its severity decayed by its age, the
    sums by family under the family's ceiling, added in the order in which the
    detectors came.

    * `entityRisk_eq`: the risk is that of the strongest findings, one for
      every detector.
    * `risk_stable_and_monotone`: the order of the findings matters only as
      far as it orders the detectors, and one more finding does not lower the
      risk unless it displaces a finding of a lower severity that has decayed
      less. -/

open CappedMap (FieldMap)
open Rounding (Arithmetic roundTo)

namespace Correlation

/-! ### Tables -/

/-- `FAMILY`. -/
def FAMILY : List (String × String) :=
  [("ja4_novelty", "fingerprint"), ("ja4_transition_burst", "fingerprint"),
    ("ja4_rarity", "fingerprint"), ("server_fp_rarity", "fingerprint"), ("beacon", "temporal"),
    ("beacon_fqdn", "temporal"), ("strobe", "temporal"), ("long_connection", "temporal"),
    ("long_connection_cumulative", "temporal"), ("exfil", "volume"), ("low_slow_exfil", "volume"),
    ("icmp_exfil", "volume"), ("dns_tunnel", "dns"), ("dns_exploded", "dns"), ("dga_domain", "dns"),
    ("nxdomain_burst", "dns"), ("rare_destination", "destination"), ("ids_signature", "signature"),
    ("threat_intel", "signature"), ("feodo", "signature"), ("zeek_notice", "signature")]

/-- The points behind `FAMILY_CAP`. -/
def familyPoints : List (String × Nat) :=
  [("fingerprint", 20), ("temporal", 30), ("destination", 15), ("volume", 15), ("dns", 20),
    ("signature", 30)]

/-- `FAMILY.get(det, det)`. -/
def familyOf (det : String) : String := (FAMILY.lookup det).getD det

variable {K : Type*} [Field K] [LinearOrder K] [FloorRing K]

/-- `FAMILY_CAP`. -/
def FAMILY_CAP (fam : String) : Option K :=
  (familyPoints.lookup fam).map fun points : Nat => roundTo 2 ((points : K) / 3)

/-- The entries of `FAMILY_CAP`. -/
def FAMILY_CAPS : List (String × K) := familyPoints.map fun p => (p.1, roundTo 2 ((p.2 : K) / 3))

def FAMILY_CAP_DEFAULT : K := 100

/-- `caps.get(fam, FAMILY_CAP_DEFAULT)`. -/
def capOf (fam : String) : K := (FAMILY_CAP fam).getD FAMILY_CAP_DEFAULT

/-! ### Findings -/

/-- A finding; `none` is a severity or a time that is missing or that `float`
    refuses. -/
structure Finding (K : Type*) where
  detectorId : String
  severity : Option K
  ts : Option K

/-- `_severity`. -/
def severityOf (f : Finding K) : K := f.severity.getD 0

/-- `_ts`. -/
def tsOf (f : Finding K) (default : K) : K := f.ts.getD default

/-- The decay `0.5 ** x`. -/
structure Decay (K : Type*) [Field K] [LinearOrder K] where
  apply : K → K
  zero : apply 0 = 1
  pos : ∀ x, 0 ≤ x → 0 < apply x
  anti : ∀ x y, 0 ≤ x → x ≤ y → apply y ≤ apply x

/-! ### The risk -/

/-- The loop of `_family_totals` that keeps the strongest finding of each
    detector. -/
def keepStrongest (now : K) (strongest : FieldMap String (K × K)) (f : Finding K) :
    FieldMap String (K × K) :=
  let det := f.detectorId
  let sev := severityOf f
  let ts := tsOf f now
  match strongest.lookup det with
  | none => strongest.put (det, sev, ts)
  | some cur =>
    if cur.1 < sev ∨ sev = cur.1 ∧ cur.2 < ts then strongest.put (det, sev, ts) else strongest

def strongest (now : K) (findings : List (Finding K)) : FieldMap String (K × K) :=
  findings.foldl (keepStrongest now) .empty

/-- `sev * 0.5 ** (age / half_life_secs)`. -/
def contribution (A : Arithmetic K) (decay : Decay K) (now halfLife : K) (best : K × K) : K :=
  A.round (best.1 * decay.apply (A.round (max 0 (A.round (now - best.2)) / halfLife)))

structure Family (K : Type*) where
  raw : K
  cap : K
  detectors : List String

/-- The loop of `_family_totals` over the detectors. -/
def addToFamily (A : Arithmetic K) (decay : Decay K) (now halfLife : K)
    (fams : FieldMap String (Family K)) (best : String × K × K) : FieldMap String (Family K) :=
  let fam := familyOf best.1
  let g := (fams.lookup fam).getD ⟨0, A.round (capOf fam), []⟩
  fams.put (fam, ⟨A.round (g.raw + contribution A decay now halfLife best.2), g.cap,
    g.detectors ++ [best.1]⟩)

/-- `_family_totals`. -/
def familyTotals (A : Arithmetic K) (decay : Decay K) (findings : List (Finding K))
    (now halfLife : K) : FieldMap String (Family K) :=
  (strongest now findings).vals.foldl (addToFamily A decay now halfLife) .empty

/-- `entity_risk`. -/
def entityRisk (A : Arithmetic K) (decay : Decay K) (findings : List (Finding K))
    (now halfLife : K) : K :=
  A.round (roundTo 3 (A.sum ((familyTotals A decay findings now halfLife).vals.map fun g =>
    min g.2.raw g.2.cap)))

/-! ### The strongest findings -/

/-- What is stored for a finding. -/
def candidate (now : K) (f : Finding K) : String × K × K :=
  (f.detectorId, severityOf f, tsOf f now)

/-- By severity, then by time; the strongest has the least rank. -/
def rank (e : String × K × K) : (K ×ₗ K)ᵒᵈ := OrderDual.toDual (toLex e.2)

omit [Field K] [FloorRing K] in
theorem rank_lt_iff (e e' : String × K × K) :
    rank e < rank e' ↔ e'.2.1 < e.2.1 ∨ e.2.1 = e'.2.1 ∧ e'.2.2 < e.2.2 := by
  rw [rank, rank, OrderDual.toDual_lt_toDual, Prod.Lex.toLex_lt_toLex]
  exact or_congr_right (and_congr_left fun _ => eq_comm)

omit [FloorRing K] in
theorem strongest_eq_leasts (now : K) (fs : List (Finding K)) :
    strongest now fs = Registry.leasts Prod.fst rank (fs.map (candidate now)) := by
  have hstep : ∀ (m : FieldMap String (K × K)) (f : Finding K),
      keepStrongest now m f = Registry.keepLeast Prod.fst rank m (candidate now f) := by
    intro m f
    unfold keepStrongest Registry.keepLeast Registry.lookup
    cases hm : m.get? f.detectorId with
    | none => simp only [hm, Option.map_none, candidate]
    | some cur => simp only [hm, Option.map_some, rank_lt_iff, candidate]
  rw [strongest, Registry.leasts, List.foldl_map]
  congr 1
  funext m f
  exact hstep m f

/-- `g` is the strongest finding of its detector. -/
def IsStrongest (now : K) (fs : List (Finding K)) (g : Finding K) : Prop :=
  g ∈ fs ∧ ∀ h ∈ fs, h.detectorId = g.detectorId → severityOf h < severityOf g ∨
    severityOf h = severityOf g ∧ tsOf h now ≤ tsOf g now

section Strongest

omit [FloorRing K]

variable {now : K} {fs fs' : List (Finding K)} {det : String} {best : K × K}

theorem lookup_strongest (fs : List (Finding K)) (det : String) :
    (strongest now fs).lookup det =
      ((Registry.leasts Prod.fst rank (fs.map (candidate now))).get? det).map Prod.snd := by
  rw [strongest_eq_leasts, Registry.lookup]

/-- What is kept for a detector comes from its strongest finding. -/
theorem exists_isStrongest (h : (strongest now fs).lookup det = some best) :
    ∃ g, IsStrongest now fs g ∧ g.detectorId = det ∧ best = (severityOf g, tsOf g now) := by
  rw [lookup_strongest] at h
  obtain ⟨e, he, rfl⟩ := Option.map_eq_some_iff.mp h
  obtain ⟨hmem, hkey, hleast⟩ := Registry.isLeastOf_of_get? he
  obtain ⟨g, hg, rfl⟩ := List.mem_map.mp hmem
  refine ⟨g, ⟨hg, ?_⟩, hkey, rfl⟩
  intro h hh hdet
  have hle := hleast (candidate now h) (List.mem_map_of_mem hh) (hdet.trans hkey)
  rw [rank, rank, OrderDual.toDual_le_toDual, Prod.Lex.toLex_le_toLex] at hle
  exact hle

/-- The strongest findings depend on what findings there are, not on their
    order. -/
theorem lookup_strongest_congr (h : ∀ f, f ∈ fs ↔ f ∈ fs') (det : String) :
    (strongest now fs).lookup det = (strongest now fs').lookup det := by
  rw [lookup_strongest, lookup_strongest]
  congr 1
  apply Registry.get?_leasts_congr
  · intro e
    simp only [List.mem_map, h]
  · rintro ⟨det₁, best₁⟩ - ⟨det₂, best₂⟩ - hdet hrank
    have hbest : best₁ = best₂ := toLex.injective (OrderDual.toDual.injective hrank)
    exact Prod.ext hdet hbest

end Strongest

/-! ### The families of the loop -/

section Loop

/-- The loop of `_family_totals` over the detectors, for any ceilings and any
    contributions. -/
def addTo (cap : String → K) (part : K × K → K) (fams : FieldMap String (Family K))
    (best : String × K × K) : FieldMap String (Family K) :=
  let fam := familyOf best.1
  let g := (fams.lookup fam).getD ⟨0, cap fam, []⟩
  fams.put (fam, ⟨g.raw + part best.2, g.cap, g.detectors ++ [best.1]⟩)

variable (cap : String → K) (part : K × K → K)

/-- What the detectors of a family contribute. -/
def partsOf (ds : List (String × K × K)) (fam : String) : K :=
  ((ds.filter fun d => familyOf d.1 = fam).map fun d => part d.2).sum

variable {cap part}

omit [LinearOrder K] [FloorRing K] in
theorem lookup_addTo (fams : FieldMap String (Family K)) (best : String × K × K) (fam : String) :
    (addTo cap part fams best).lookup fam =
      if familyOf best.1 = fam then
        some ⟨((fams.lookup fam).getD ⟨0, cap fam, []⟩).raw + part best.2,
          ((fams.lookup fam).getD ⟨0, cap fam, []⟩).cap,
          ((fams.lookup fam).getD ⟨0, cap fam, []⟩).detectors ++ [best.1]⟩
      else fams.lookup fam := by
  rw [addTo, Registry.lookup_put]
  by_cases hfam : familyOf best.1 = fam
  · rw [if_pos hfam, if_pos hfam, hfam]
  · rw [if_neg hfam, if_neg hfam]

variable (cap part) in
omit [LinearOrder K] [FloorRing K] in
/-- A family after the loop: the sum of its members, its ceiling. -/
theorem lookup_families (ds : List (String × K × K)) (fam : String) :
    (((ds.foldl (addTo cap part) .empty).lookup fam).getD ⟨0, cap fam, []⟩).raw = partsOf part ds fam ∧
      (((ds.foldl (addTo cap part) .empty).lookup fam).getD ⟨0, cap fam, []⟩).cap = cap fam := by
  induction ds using List.reverseRecOn with
  | nil => exact ⟨rfl, rfl⟩
  | append_singleton ds d ih =>
    rw [List.foldl_append, List.foldl_cons, List.foldl_nil, lookup_addTo, partsOf]
    by_cases hfam : familyOf d.1 = fam
    · rw [if_pos hfam, List.filter_append, List.filter_cons_of_pos (by simpa using hfam)]
      refine ⟨?_, ih.2⟩
      simp [ih.1, partsOf]
    · rw [if_neg hfam, List.filter_append, List.filter_cons_of_neg (by simpa using hfam)]
      simpa [partsOf] using ih

variable (cap part) in
omit [LinearOrder K] [FloorRing K] in
theorem keys_families (ds : List (String × K × K)) :
    (ds.foldl (addTo cap part) .empty).keys.toFinset = (ds.map fun d => familyOf d.1).toFinset := by
  induction ds using List.reverseRecOn with
  | nil => rfl
  | append_singleton ds d ih =>
    ext fam
    have hkeys : ∀ r : FieldMap String (Family K), fam ∈ r.keys.toFinset ↔ (r.lookup fam).isSome := by
      intro r
      rw [List.mem_toFinset, Registry.mem_keys, Registry.lookup, Option.isSome_map,
        Option.isSome_iff_exists]
    rw [List.foldl_append, List.foldl_cons, List.foldl_nil, hkeys, lookup_addTo,
      List.map_append, List.toFinset_append, ← ih]
    by_cases hfam : familyOf d.1 = fam
    · rw [if_pos hfam]
      simp [hfam]
    · rw [if_neg hfam, Finset.mem_union, hkeys]
      simp [Ne.symm hfam]

omit [LinearOrder K] [FloorRing K] in
/-- A family of the loop is that of its key. -/
theorem family_of_mem {ds : List (String × K × K)} {g : String × Family K}
    (hg : g ∈ (ds.foldl (addTo cap part) .empty).vals) :
    g.2.raw = partsOf part ds g.1 ∧ g.2.cap = cap g.1 := by
  have hfamily := lookup_families cap part ds g.1
  rw [Registry.lookup_eq_some.mpr hg, Option.getD_some] at hfamily
  exact hfamily

variable (cap part) in
omit [LinearOrder K] [FloorRing K] in
/-- **A sum over the families** of the loop. -/
theorem sum_families (ds : List (String × K × K)) (value : String → K) :
    ((ds.foldl (addTo cap part) .empty).vals.map fun g => value g.1).sum =
      ∑ fam ∈ (ds.map fun d => familyOf d.1).toFinset, value fam := by
  rw [← keys_families cap part, List.sum_toFinset _
    (ds.foldl (addTo cap part) .empty).keys_nodup, Registry.keys, List.map_map]
  rfl

variable (cap part) in
omit [FloorRing K] in
/-- **The sum of the families under their ceilings.** -/
theorem sum_capped (ds : List (String × K × K)) :
    ((ds.foldl (addTo cap part) .empty).vals.map fun g => min g.2.raw g.2.cap).sum =
      ∑ fam ∈ (ds.map fun d => familyOf d.1).toFinset, min (partsOf part ds fam) (cap fam) := by
  rw [← sum_families cap part, List.map_congr_left]
  intro g hg
  obtain ⟨hraw, hcap⟩ := family_of_mem hg
  rw [hraw, hcap]

end Loop

/-! ### The risk of the strongest findings -/

section Totals

variable (A : Arithmetic K) (part : K × K → K)

/-- The sum of a family, as the loop adds it up. -/
def rawOf (ds : List (String × K × K)) (fam : String) : K :=
  ds.foldl (fun raw d => if familyOf d.1 = fam then A.round (raw + part d.2) else raw) 0

/-- The families of some detectors, in the order in which they come. -/
def familiesIn (ds : List (String × K × K)) : List String := (ds.map fun d => familyOf d.1).eraseDups

/-- The risk of one finding for every detector. -/
def riskOf (ds : List (String × K × K)) : K :=
  A.round (roundTo 3 (A.sum ((familiesIn ds).map fun fam =>
    min (rawOf A part ds fam) (A.round (capOf fam)))))

variable {A part} {decay : Decay K} {now halfLife : K} {ds ds' : List (String × K × K)}

omit [LinearOrder K] [FloorRing K] in
theorem rawOf_snoc (ds : List (String × K × K)) (d : String × K × K) (fam : String) :
    rawOf A part (ds ++ [d]) fam = if familyOf d.1 = fam then
      A.round (rawOf A part ds fam + part d.2) else rawOf A part ds fam := List.foldl_append

variable (A decay now halfLife) in
/-- A family after the loop. -/
theorem lookup_familyTotals (ds : List (String × K × K)) (fam : String) :
    let g := ((ds.foldl (addToFamily A decay now halfLife) .empty).lookup fam).getD
      ⟨0, A.round (capOf fam), []⟩
    g.raw = rawOf A (contribution A decay now halfLife) ds fam ∧ g.cap = A.round (capOf fam) := by
  induction ds using List.reverseRecOn with
  | nil => exact ⟨rfl, rfl⟩
  | append_singleton ds d ih =>
    rw [List.foldl_append, List.foldl_cons, List.foldl_nil, addToFamily, Registry.lookup_put, rawOf_snoc]
    by_cases hfam : familyOf d.1 = fam
    · subst hfam
      rw [if_pos rfl, if_pos rfl, ← ih.1]
      exact ⟨rfl, ih.2⟩
    · rw [if_neg hfam, if_neg hfam]
      exact ih

/-- **The risk** is that of the strongest findings. -/
theorem entityRisk_eq (findings : List (Finding K)) :
    entityRisk A decay findings now halfLife =
      riskOf A (contribution A decay now halfLife) (strongest now findings).vals := by
  have hkeys : (familyTotals A decay findings now halfLife).keys =
      familiesIn (strongest now findings).vals :=
    Registry.keys_foldl (addToFamily A decay now halfLife) (fun best => familyOf best.1)
      (fun fams best => Registry.keys_put fams _) _
  rw [entityRisk, riskOf, ← hkeys, Registry.keys, List.map_map]
  congr 3
  apply List.map_congr_left
  intro g hg
  have hfamily := lookup_familyTotals A decay now halfLife (strongest now findings).vals g.1
  rw [← familyTotals, Registry.lookup_eq_some.mpr hg] at hfamily
  exact congrArg₂ min hfamily.1 hfamily.2

variable [IsStrictOrderedRing K]

theorem capOf_nonneg (fam : String) : (0 : K) ≤ capOf fam := by
  unfold capOf FAMILY_CAP FAMILY_CAP_DEFAULT
  cases familyPoints.lookup fam with
  | none => norm_num
  | some points => exact Rounding.roundTo_nonneg 2 (by positivity)

variable (hA : A.Lawful)
include hA

omit [FloorRing K] in
theorem rawOf_nonneg (h : ∀ d ∈ ds, 0 ≤ part d.2) (fam : String) : 0 ≤ rawOf A part ds fam := by
  induction ds using List.reverseRecOn with
  | nil => exact le_rfl
  | append_singleton ds d ih =>
    have hrest := ih fun d' hd' => h d' (List.mem_append_left _ hd')
    rw [rawOf_snoc]
    split
    · exact hA.round_nonneg (add_nonneg hrest (h d (List.mem_append_right _ List.mem_cons_self)))
    · exact hrest

omit [FloorRing K] [IsStrictOrderedRing K] in
theorem round_rawOf (ds : List (String × K × K)) (fam : String) :
    A.round (rawOf A part ds fam) = rawOf A part ds fam := by
  induction ds using List.reverseRecOn with
  | nil => exact hA.round_zero
  | append_singleton ds d ih =>
    rw [rawOf_snoc]
    split
    · exact hA.round_round _
    · exact ih

omit [FloorRing K] in
/-- Detectors that contribute more. -/
theorem rawOf_mono (h : List.Forall₂ (fun d d' => d.1 = d'.1 ∧ part d.2 ≤ part d'.2) ds ds')
    (fam : String) : rawOf A part ds fam ≤ rawOf A part ds' fam := by
  have hfold : ∀ raw raw' : K, raw ≤ raw' →
      ds.foldl (fun raw d => if familyOf d.1 = fam then A.round (raw + part d.2) else raw) raw ≤
        ds'.foldl (fun raw d => if familyOf d.1 = fam then A.round (raw + part d.2) else raw) raw' := by
    induction h with
    | nil => exact fun raw raw' hle => hle
    | @cons d d' ds ds' hd _ ih =>
      intro raw raw' hle
      rw [List.foldl_cons, List.foldl_cons, hd.1]
      apply ih
      split
      · exact hA.round_mono (add_le_add hle hd.2)
      · exact hle
  exact hfold 0 0 le_rfl

theorem riskOf_mono (h : List.Forall₂ (fun d d' => d.1 = d'.1 ∧ part d.2 ≤ part d'.2) ds ds') :
    riskOf A part ds ≤ riskOf A part ds' := by
  have hfamilies : familiesIn ds = familiesIn ds' := by
    unfold familiesIn
    congr 1
    induction h with
    | nil => rfl
    | cons hd _ ih => rw [List.map_cons, List.map_cons, hd.1, ih]
  unfold riskOf
  rw [hfamilies]
  refine hA.round_mono (Rounding.roundTo_mono 3 (hA.sum_mono _ _ ?_))
  rw [List.forall₂_map_left_iff, List.forall₂_map_right_iff, List.forall₂_same]
  exact fun fam _ => min_le_min_right _ (rawOf_mono hA h fam)

/-- One more detector. -/
theorem riskOf_snoc {d : String × K × K} (hds : ∀ d ∈ ds, 0 ≤ part d.2) (hd : 0 ≤ part d.2) :
    riskOf A part ds ≤ riskOf A part (ds ++ [d]) := by
  have hraw : ∀ fam, rawOf A part ds fam ≤ rawOf A part (ds ++ [d]) fam := by
    intro fam
    rw [rawOf_snoc]
    split
    · calc rawOf A part ds fam
        _ = A.round (rawOf A part ds fam) := (round_rawOf hA ds fam).symm
        _ ≤ A.round (rawOf A part ds fam + part d.2) := hA.round_mono (le_add_of_nonneg_right hd)
    · exact le_rfl
  have hsum : A.sum ((familiesIn ds).map fun fam => min (rawOf A part ds fam) (A.round (capOf fam))) ≤
      A.sum ((familiesIn ds).map fun fam =>
        min (rawOf A part (ds ++ [d]) fam) (A.round (capOf fam))) := by
    apply hA.sum_mono
    rw [List.forall₂_map_left_iff, List.forall₂_map_right_iff, List.forall₂_same]
    exact fun fam _ => min_le_min_right _ (hraw fam)
  refine hA.round_mono (Rounding.roundTo_mono 3 (hsum.trans ?_))
  have hfamilies : familiesIn (ds ++ [d]) = familiesIn ds ∨
      familiesIn (ds ++ [d]) = familiesIn ds ++ [familyOf d.1] := by
    rw [familiesIn, List.map_append, List.map_singleton, Registry.eraseDups_snoc]
    split
    · exact Or.inl rfl
    · exact Or.inr rfl
  rcases hfamilies with hsame | hnew
  · rw [hsame]
  · rw [hnew, List.map_append]
    refine hA.sum_snoc _ _ (le_min (rawOf_nonneg hA ?_ _) (hA.round_nonneg (capOf_nonneg _)))
    intro d' hd'
    rcases List.mem_append.mp hd' with hd' | hd'
    · exact hds d' hd'
    · rw [List.mem_singleton.mp hd']
      exact hd

end Totals

/-! ### Order -/

/-- The detectors of some findings, in the order in which they came. -/
def detectorsOf (fs : List (Finding K)) : List String := (fs.map Finding.detectorId).eraseDups

section Order

variable {now : K} {fs fs' : List (Finding K)}

omit [FloorRing K] in
theorem keys_strongest (now : K) (fs : List (Finding K)) :
    (strongest now fs).keys = detectorsOf fs := by
  refine Registry.keys_foldl (keepStrongest now) Finding.detectorId (fun m f => ?_) fs
  simp only [keepStrongest]
  have hmem : f.detectorId ∈ m.keys ↔ (m.lookup f.detectorId).isSome := by
    rw [Registry.mem_keys, Registry.lookup, Option.isSome_map, Option.isSome_iff_exists]
  cases hcur : m.lookup f.detectorId with
  | none => exact Registry.keys_put m _
  | some cur =>
    rw [hcur] at hmem
    rw [if_pos (hmem.mpr rfl)]
    dsimp only
    split
    · exact Registry.keys_put_of_mem (hmem.mpr rfl)
    · rfl

omit [FloorRing K] in
/-- Findings whose detectors come in the same order. -/
theorem strongest_congr (h : ∀ f, f ∈ fs ↔ f ∈ fs') (horder : detectorsOf fs = detectorsOf fs') :
    strongest now fs = strongest now fs' :=
  Registry.ext_lookup ((keys_strongest now fs).trans (horder.trans (keys_strongest now fs').symm))
    fun det _ => lookup_strongest_congr h det

/-- In exact arithmetic no order matters. -/
theorem entityRisk_exact {decay : Decay K} {halfLife : K} (h : ∀ f, f ∈ fs ↔ f ∈ fs') :
    entityRisk Rounding.exact decay fs now halfLife =
      entityRisk Rounding.exact decay fs' now halfLife := by
  let part := contribution Rounding.exact decay now halfLife
  have hnodup : ∀ fs : List (Finding K), (strongest now fs).vals.Nodup := fun fs =>
    List.Nodup.of_map _ (strongest now fs).nodup
  have hperm : (strongest now fs).vals.Perm (strongest now fs').vals := by
    rw [List.perm_ext_iff_of_nodup (hnodup fs) (hnodup fs')]
    rintro ⟨det, best⟩
    rw [← Registry.lookup_eq_some, ← Registry.lookup_eq_some, lookup_strongest_congr h]
  have hrisk : ∀ fs, entityRisk Rounding.exact decay fs now halfLife = roundTo 3
      (∑ fam ∈ ((strongest now fs).vals.map fun d => familyOf d.1).toFinset,
        min (partsOf part (strongest now fs).vals fam) (capOf fam)) :=
    fun fs => congrArg (roundTo 3) (sum_capped capOf part (strongest now fs).vals)
  have hparts : ∀ fam, partsOf part (strongest now fs).vals fam =
      partsOf part (strongest now fs').vals fam :=
    fun fam => ((hperm.filter _).map _).sum_eq
  rw [hrisk, hrisk, List.toFinset_eq_of_perm _ _ (hperm.map _)]
  simp only [hparts]

end Order

/-! ### Growth -/

section Growth

variable {A : Arithmetic K} {decay : Decay K} {now halfLife : K}

/-- The decayed severity of a finding. -/
def decayed (A : Arithmetic K) (decay : Decay K) (now halfLife : K) (f : Finding K) : K :=
  contribution A decay now halfLife (severityOf f, tsOf f now)

/-- `f` has a higher severity than `g`, and less of it is left. -/
def Displaces (A : Arithmetic K) (decay : Decay K) (now halfLife : K) (f g : Finding K) : Prop :=
  severityOf g < severityOf f ∧ decayed A decay now halfLife f < decayed A decay now halfLife g

variable [IsStrictOrderedRing K] (hA : A.Lawful)
include hA

omit [FloorRing K] in
theorem contribution_nonneg (hhalf : 0 < halfLife) {best : K × K} (h : 0 ≤ best.1) :
    0 ≤ contribution A decay now halfLife best :=
  hA.round_nonneg (mul_nonneg h (decay.pos _
    (hA.round_nonneg (div_nonneg (le_max_left _ _) hhalf.le))).le)

omit [FloorRing K] in
/-- A later finding of the same severity contributes more. -/
theorem contribution_mono (hhalf : 0 < halfLife) {sev ts ts' : K} (hsev : 0 ≤ sev) (hts : ts ≤ ts') :
    contribution A decay now halfLife (sev, ts) ≤ contribution A decay now halfLife (sev, ts') := by
  have hage : max 0 (A.round (now - ts')) ≤ max 0 (A.round (now - ts)) :=
    max_le_max_left 0 (hA.round_mono (sub_le_sub_left hts now))
  apply hA.round_mono
  apply mul_le_mul_of_nonneg_left _ hsev
  apply decay.anti
  · exact hA.round_nonneg (div_nonneg (le_max_left _ _) hhalf.le)
  · exact hA.round_mono (div_le_div_of_nonneg_right hage hhalf.le)

/-- **One more finding** raises the risk, or displaces the strongest one of
    its detector. -/
theorem entityRisk_snoc (hhalf : 0 < halfLife) {fs : List (Finding K)} {f : Finding K}
    (hsev : ∀ g ∈ fs, 0 ≤ severityOf g) (hf : 0 ≤ severityOf f)
    (hdisplaces : ∀ g, IsStrongest now fs g → g.detectorId = f.detectorId →
      ¬Displaces A decay now halfLife f g) :
    entityRisk A decay fs now halfLife ≤ entityRisk A decay (fs ++ [f]) now halfLife := by
  have hsnoc : strongest now (fs ++ [f]) = keepStrongest now (strongest now fs) f := List.foldl_append
  rw [entityRisk_eq, entityRisk_eq, hsnoc]
  simp only [keepStrongest]
  cases hcur : (strongest now fs).lookup f.detectorId with
  | none =>
    -- the first finding of its detector
    have hnew : f.detectorId ∉ (strongest now fs).keys := by
      rw [Registry.mem_keys]
      rintro ⟨v, hv⟩
      rw [Registry.lookup, hv] at hcur
      cases hcur
    rw [Registry.vals_put_of_notMem hnew]
    refine riskOf_snoc hA (fun d hd => ?_) (contribution_nonneg hA hhalf hf)
    obtain ⟨g, hg, -, hbest⟩ := exists_isStrongest (Registry.lookup_eq_some.mpr hd)
    rw [hbest]
    exact contribution_nonneg hA hhalf (hsev g hg.1)
  | some cur =>
    obtain ⟨g, hg, hdet, hbest⟩ := exists_isStrongest hcur
    have hmem : f.detectorId ∈ (strongest now fs).keys := by
      rw [Registry.keys, List.mem_map]
      exact ⟨_, Registry.lookup_eq_some.mp hcur, rfl⟩
    show riskOf A _ (strongest now fs).vals ≤ riskOf A _ (if cur.1 < severityOf f ∨
      severityOf f = cur.1 ∧ cur.2 < tsOf f now then _ else _ : FieldMap String (K × K)).vals
    by_cases hstronger : cur.1 < severityOf f ∨ severityOf f = cur.1 ∧ cur.2 < tsOf f now
    · have hle : contribution A decay now halfLife cur ≤ decayed A decay now halfLife f := by
        rw [hbest] at hstronger ⊢
        rcases hstronger with hhigher | ⟨hsame, hlater⟩
        · exact not_lt.mp fun hlow => hdisplaces g hg hdet ⟨hhigher, hlow⟩
        · rw [decayed, hsame]
          exact contribution_mono hA hhalf (hsev g hg.1) hlater.le
      rw [if_pos hstronger, Registry.put, if_pos hmem]
      apply riskOf_mono hA
      rw [List.forall₂_map_right_iff, List.forall₂_same]
      rintro ⟨det, best⟩ hd
      by_cases hsame : det = f.detectorId
      · subst hsame
        rw [if_pos rfl, Option.some.inj ((Registry.lookup_eq_some.mpr hd).symm.trans hcur)]
        exact ⟨rfl, hle⟩
      · rw [if_neg hsame]
        exact ⟨rfl, le_rfl⟩
    · rw [if_neg hstronger]

end Growth

/-! ### An old finding, and a last place -/

/-- A decay that halves with every whole half-life. -/
def halvings : Decay ℚ where
  apply x := (1 / 2) ^ ⌊x⌋.toNat
  zero := by simp
  pos x _ := by positivity
  anti x y _ h := by
    apply pow_le_pow_of_le_one (by norm_num) (by norm_num)
    exact Int.toNat_le_toNat (Int.floor_mono h)

end Correlation
