import CernityNdr.Framework.Checked
import CernityNdr.Framework.Rounding
import CernityNdr.Framework.Statistics
import CernityNdr.Window.Memory

/-! # The Search for a Period

    `autocorr_period` of `behavioral-detectors/detectors.py` in exact
    arithmetic: the timestamps are counted in bins whose width comes from the
    first quartile of the intervals, and the lag at which the counts correlate
    best is the period.

    * `search_spec`: the search raises nothing, and what bounds its result.
    * `series_move`: the bins do not depend on where the clock starts or how
      fast it runs.
    * `autocorr_period_search`: the two together. -/

open Checked (update divide modulo)

namespace Behavioral

/-! ### Medians -/

/-- `_median`. -/
def median (xs : List ℚ) : Option ℚ :=
  let s := Statistics.sorted xs
  let n := s.length
  if n = 0 then some 0
  else
    let m := n / 2
    if n % 2 ≠ 0 then Checked.item s m
    else do
      let a ← Checked.item s ((m : Int) - 1)
      let b ← Checked.item s m
      divide (a + b) 2

/-- `_quartiles`. -/
def quartiles (xs : List ℚ) : Option (ℚ × ℚ × ℚ) :=
  let s := Statistics.sorted xs
  let n := s.length
  if n < 2 then
    if s.isEmpty then some (0, 0, 0)
    else do
      let v ← Checked.item s 0
      return (v, v, v)
  else do
    let m := n / 2
    let lower := s.take m
    let upper := if n % 2 ≠ 0 then s.drop (m + 1) else s.drop m
    let q1 ← median lower
    let q2 ← median s
    let q3 ← median upper
    return (q1, q2, q3)

/-! ### Bins -/

/-- The parameters of `autocorr_period`. -/
structure SearchParams where
  minConns : ℚ
  minCycles : ℚ
  maxLagFraction : ℚ
  binsPerPeriod : Int
  maxBins : Int

/-- The settings that are admitted. -/
def SearchParams.valid (p : SearchParams) : Bool :=
  decide (3 ≤ p.minCycles) && decide (0 < p.maxLagFraction) && decide (p.maxLagFraction ≤ 1 / 2) &&
    decide (4 ≤ p.maxBins) && decide (p.maxBins ≤ 512) && decide (0 < p.binsPerPeriod) &&
    decide (2 ≤ p.minConns)

/-- The timestamps that are counted, and their bins. -/
structure Series where
  binSecs : ℚ
  nBins : Int
  origin : ℚ
  times : List ℚ

/-- `[b - a for a, b in zip(ts, ts[1:])]`. -/
def intervals (ts : List ℚ) : List ℚ := List.zipWith (fun a b => b - a) ts ts.tail

/-- Over the cap only the most recent bins are counted. -/
def Series.cut (maxBins : Int) (last : ℚ) (g : Series) : Series :=
  if maxBins < g.nBins then
    let origin := last - (maxBins - 1) * g.binSecs
    { g with nBins := maxBins, origin := origin, times := g.times.filter (origin ≤ ·) }
  else g

/-- `autocorr_period` until the timestamps are counted. There is no series
    when the settings are not admitted or the timestamps are of no use. -/
def series (p : SearchParams) (timestamps : List ℚ) : Option (Option Series) :=
  let ts := Statistics.sorted timestamps
  if !p.valid || decide ((ts.length : ℚ) < max 2 p.minConns) then return none
  else do
    let med ← median (intervals ts)
    if (intervals ts).isEmpty || decide (med ≤ 0) then return none
    else
      let quarts ← quartiles (intervals ts)
      let baseInterval := quarts.1
      let first ← ts.head?
      let last ← ts.getLast?
      let span := last - first
      if baseInterval ≤ 0 ∨ span ≤ 0 then return none
      else
        let binSecs ← divide baseInterval p.binsPerPeriod
        if binSecs ≤ 0 then return none
        else
          let bins ← divide span binSecs
          return some (Series.cut p.maxBins last ⟨binSecs, truncate bins + 1, first, ts⟩)

/-! ### Lags -/

/-- The bin of a timestamp. -/
def Series.slot (g : Series) (t : ℚ) : Option Int := do
  let x ← divide (t - g.origin) g.binSecs
  return min (truncate x) (g.nBins - 1)

/-- The number of timestamps in each bin. -/
def Series.counts (g : Series) : Option (List ℕ) :=
  g.times.foldlM (fun counts t => do
    let i ← g.slot t
    update (· + 1) counts i) (List.replicate g.nBins.toNat 0)

def Series.maxLag (p : SearchParams) (g : Series) : Option Int := do
  let first ← g.times.head?
  let last ← g.times.getLast?
  let bins ← divide (last - first) g.binSecs
  let cycles ← divide bins p.minCycles
  return min (truncate (g.nBins * p.maxLagFraction)) (truncate cycles)

/-- The correlation of the series with itself `lag` bins later. -/
def correlation (c : List ℚ) (denom : ℚ) (nBins : Int) (lag : ℕ) : Option ℚ := do
  let products ← (List.range (nBins - lag).toNat).mapM fun (i : ℕ) => do
    let a ← Checked.item c i
    let b ← Checked.item c (i + lag)
    return a * b
  divide products.sum denom

/-- `[v - mean for v in counts]`. -/
def centered (counts : List ℕ) (mean : ℚ) : List ℚ := counts.map fun (v : ℕ) => (v : ℚ) - mean

/-- `sum(v * v for v in c)`. -/
def sumSquares (c : List ℚ) : ℚ := (c.map fun v => v * v).sum

def HARMONIC_TOL : ℚ := 1 / 4

/-- The first of `subs` that divides the lag and still carries a correlation
    near the peak, else the lag. -/
def harmonic (acf : List ℚ) (peak : ℚ) (lag : ℕ) : List ℕ → Option ℕ
  | [] => some lag
  | sub :: subs => do
    let r ← modulo lag sub
    if r = 0 then
      let x ← Checked.item acf ((sub : Int) - 1)
      if peak * HARMONIC_TOL ≤ x then return sub else harmonic acf peak lag subs
    else harmonic acf peak lag subs

/-- The lag of the greatest correlation, or a harmonic below it, with that
    correlation; none when it is not positive. -/
def dominant (acf : List ℚ) : Option (Option (ℕ × ℚ)) := do
  let peak ← acf.max?
  if peak ≤ 0 then return none
  else
    let i ← acf.idxOf? peak
    let lag ← harmonic acf peak (i + 1) (List.range' 1 i)
    return some (lag, peak)

/-- What the search has found: the lag with its peak, if any, the number of
    bins that it counted in and of the lags that it evaluated. -/
structure Search where
  best : Option (ℕ × ℚ)
  bins : ℕ
  lags : ℕ

/-- `autocorr_period` from the counts on. -/
def search (p : SearchParams) (g : Series) : Option Search :=
  if (g.times.length : ℚ) < p.minConns then return ⟨none, 0, 0⟩
  else do
    let counts ← g.counts
    let mean ← divide counts.sum g.nBins
    let c := centered counts mean
    let denom := sumSquares c
    if denom ≤ 0 then return ⟨none, counts.length, 0⟩
    else
      let maxLag ← g.maxLag p
      if maxLag < 1 then return ⟨none, counts.length, 0⟩
      else
        let acf ← (List.range maxLag.toNat).mapM fun i => correlation c denom g.nBins (i + 1)
        let best ← dominant acf
        return ⟨best, counts.length, acf.length⟩

/-- What is returned, beside the sizes of the search. -/
structure Period where
  periodSecs : ℚ
  strength : ℚ
  binSecs : ℚ
  bins : ℕ
  lags : ℕ

def Search.period (binSecs : ℚ) (s : Search) : Period :=
  match s.best with
  | none => ⟨0, 0, binSecs, s.bins, s.lags⟩
  | some (lag, peak) => ⟨lag * binSecs, Rounding.roundTo 3 (min 1 peak), binSecs, s.bins, s.lags⟩

/-- `autocorr_period`. -/
def autocorrPeriod (p : SearchParams) (timestamps : List ℚ) : Option Period := do
  match ← series p timestamps with
  | none => return ⟨0, 0, 0, 0, 0⟩
  | some g =>
    let s ← search p g
    return s.period g.binSecs

/-! ### Moving the clock -/

section Move

variable {k a : ℚ}

/-- A clock that runs `k` times as fast and is `a` ahead. -/
def moved (k a t : ℚ) : ℚ := k * t + a

theorem moved_strictMono (hk : 0 < k) : StrictMono (moved k a) := by
  intro t t' h
  unfold moved
  have hmul := mul_lt_mul_of_pos_left h hk
  linarith

theorem moved_sub (t t' : ℚ) : moved k a t - moved k a t' = k * (t - t') := by
  unfold moved
  ring

theorem sorted_map {f : ℚ → ℚ} (hf : StrictMono f) (xs : List ℚ) :
    Statistics.sorted (xs.map f) = (Statistics.sorted xs).map f :=
  (List.map_insertionSort _ _ f xs fun _ _ _ _ => hf.le_iff_le.symm).symm

theorem item_map {α β : Type} (f : α → β) (xs : List α) (i : Int) :
    Checked.item (xs.map f) i = (Checked.item xs i).map f := by
  unfold Checked.item
  split
  · exact List.getElem?_map
  · rfl

theorem median_map (hk : 0 < k) (xs : List ℚ) : median (xs.map (k * ·)) = (median xs).map (k * ·) := by
  have hmono : StrictMono (k * · : ℚ → ℚ) := fun t t' h => mul_lt_mul_of_pos_left h hk
  simp only [median, sorted_map hmono, List.length_map, item_map]
  split
  · simp
  · split
    · rfl
    · cases Checked.item (Statistics.sorted xs) (((Statistics.sorted xs).length / 2 : ℕ) - 1 : Int) with
      | none => rfl
      | some x =>
        cases Checked.item (Statistics.sorted xs) ((Statistics.sorted xs).length / 2 : ℕ) with
        | none => rfl
        | some y =>
          show divide (k * x + k * y) 2 = (divide (x + y) 2).map (k * ·)
          rw [← mul_add, Checked.divide_mul]

theorem quartiles_map (hk : 0 < k) (xs : List ℚ) : quartiles (xs.map (k * ·)) =
    (quartiles xs).map fun q => (k * q.1, k * q.2.1, k * q.2.2) := by
  have hmono : StrictMono (k * · : ℚ → ℚ) := fun t t' h => mul_lt_mul_of_pos_left h hk
  simp only [quartiles, sorted_map hmono, List.length_map, List.isEmpty_map, item_map,
    ← List.map_take, ← List.map_drop, median_map hk]
  split
  · split
    · simp
    · cases Checked.item (Statistics.sorted xs) 0 with
      | none => rfl
      | some v => rfl
  · rw [← apply_ite (List.map (k * ·)), median_map hk]
    cases median ((Statistics.sorted xs).take ((Statistics.sorted xs).length / 2)) with
    | none => rfl
    | some q1 =>
      cases median (Statistics.sorted xs) with
      | none => rfl
      | some q2 =>
        show Option.bind (Option.map _ (median _)) _ = _
        cases median (if (Statistics.sorted xs).length % 2 ≠ 0 then
            (Statistics.sorted xs).drop ((Statistics.sorted xs).length / 2 + 1)
          else (Statistics.sorted xs).drop ((Statistics.sorted xs).length / 2)) with
        | none => rfl
        | some q3 => rfl

theorem intervals_map (xs : List ℚ) :
    intervals (xs.map (moved k a)) = (intervals xs).map (k * ·) := by
  unfold intervals
  rw [← List.map_tail, List.zipWith_map, List.map_zipWith]
  simp only [moved_sub]

/-! ### The series on a moved clock -/

def Series.move (k a : ℚ) (g : Series) : Series where
  binSecs := k * g.binSecs
  nBins := g.nBins
  origin := moved k a g.origin
  times := g.times.map (moved k a)

theorem cut_move (hk : 0 < k) (maxBins : Int) (last : ℚ) (g : Series) :
    (g.move k a).cut maxBins (moved k a last) = (g.cut maxBins last).move k a := by
  have horigin : moved k a last - (maxBins - 1) * (k * g.binSecs) =
      moved k a (last - (maxBins - 1) * g.binSecs) := by
    unfold moved
    ring
  unfold Series.cut
  by_cases h : maxBins < g.nBins
  · rw [if_pos h, if_pos (show maxBins < (g.move k a).nBins from h)]
    simp only [Series.move, horigin, List.filter_map, Function.comp_def,
      (moved_strictMono hk).le_iff_le]
  · rw [if_neg h, if_neg (show ¬ maxBins < (g.move k a).nBins from h)]

theorem series_move (hk : 0 < k) (p : SearchParams) (timestamps : List ℚ) :
    series p (timestamps.map (moved k a)) =
      (series p timestamps).map (Option.map (Series.move k a)) := by
  have hneg : ∀ x : ℚ, k * x ≤ 0 ↔ x ≤ 0 := fun x => by
    rw [← not_lt, ← not_lt, mul_pos_iff_of_pos_left hk]
  simp only [series, sorted_map (moved_strictMono hk), List.length_map, intervals_map,
    median_map hk, quartiles_map hk, List.isEmpty_map, List.head?_map, List.getLast?_map]
  split
  · rfl
  · cases median (intervals (Statistics.sorted timestamps)) with
    | none => rfl
    | some med =>
      simp only [Option.map_some, Option.bind_eq_bind, Option.bind_some, hneg]
      split
      · rfl
      · cases quartiles (intervals (Statistics.sorted timestamps)) with
        | none => rfl
        | some quarts =>
          cases (Statistics.sorted timestamps).head? with
          | none => rfl
          | some first =>
            cases (Statistics.sorted timestamps).getLast? with
            | none => rfl
            | some last =>
              simp only [Option.map_some, Option.bind_some, hneg, moved_sub,
                Checked.divide_mul k quarts.1]
              split
              · rfl
              · cases divide quarts.1 p.binsPerPeriod with
                | none => rfl
                | some binSecs =>
                  simp only [Option.map_some, Option.bind_some, hneg,
                    Checked.divide_mul_left hk.ne']
                  split
                  · rfl
                  · cases divide (last - first) binSecs with
                    | none => rfl
                    | some bins => exact congrArg (some ∘ some) (cut_move hk p.maxBins last
                      ⟨binSecs, truncate bins + 1, first, Statistics.sorted timestamps⟩)

theorem slot_move (hk : 0 < k) (g : Series) (t : ℚ) :
    (g.move k a).slot (moved k a t) = g.slot t := by
  simp only [Series.slot, Series.move, moved_sub, Checked.divide_mul_left hk.ne']

theorem counts_move (hk : 0 < k) (g : Series) : (g.move k a).counts = g.counts := by
  unfold Series.counts
  rw [show (g.move k a).times = g.times.map (moved k a) from rfl, List.foldlM_map]
  simp only [slot_move hk]
  rfl

theorem maxLag_move (hk : 0 < k) (p : SearchParams) (g : Series) :
    (g.move k a).maxLag p = g.maxLag p := by
  simp only [Series.maxLag, Series.move, List.head?_map, List.getLast?_map]
  cases g.times.head? with
  | none => rfl
  | some first =>
    cases g.times.getLast? with
    | none => rfl
    | some last =>
      simp only [Option.map_some, Option.bind_eq_bind, Option.bind_some, moved_sub,
        Checked.divide_mul_left hk.ne']

/-- The search sees the bins only. -/
theorem search_move (hk : 0 < k) (p : SearchParams) (g : Series) :
    search p (g.move k a) = search p g := by
  simp only [search, counts_move hk, maxLag_move hk]
  simp only [Series.move, List.length_map]

def Period.scale (k : ℚ) (r : Period) : Period :=
  { r with periodSecs := k * r.periodSecs, binSecs := k * r.binSecs }

theorem period_scale (k binSecs : ℚ) (s : Search) :
    s.period (k * binSecs) = (s.period binSecs).scale k := by
  unfold Search.period
  split
  · simp [Period.scale]
  · simp [Period.scale, mul_left_comm]

theorem autocorrPeriod_move (hk : 0 < k) (a : ℚ) (p : SearchParams) (timestamps : List ℚ) :
    autocorrPeriod p (timestamps.map (moved k a)) =
      (autocorrPeriod p timestamps).map (Period.scale k) := by
  unfold autocorrPeriod
  rw [series_move hk]
  cases series p timestamps with
  | none => rfl
  | some found =>
    cases found with
    | none => simp [Period.scale]
    | some g =>
      show (search p (g.move k a)).bind _ = ((search p g).bind _).map _
      rw [search_move hk]
      cases search p g with
      | none => rfl
      | some s => exact congrArg some (period_scale k g.binSecs s)

theorem autocorrPeriod_perm (p : SearchParams) {xs ys : List ℚ} (h : xs.Perm ys) :
    autocorrPeriod p xs = autocorrPeriod p ys := by
  unfold autocorrPeriod series
  rw [Statistics.sorted_congr h]

end Move

/-! ### Nothing is raised -/

theorem median_eq_some (xs : List ℚ) : ∃ m, median xs = some m := by
  unfold median
  dsimp only
  split
  · exact ⟨0, rfl⟩
  · split
    · exact Checked.item_eq_some _ (by omega) (by omega)
    · have hlow : 0 ≤ (((Statistics.sorted xs).length / 2 : ℕ) : Int) - 1 := by omega
      have hhigh : 0 ≤ (((Statistics.sorted xs).length / 2 : ℕ) : Int) := by omega
      obtain ⟨x, hx⟩ := Checked.item_eq_some (Statistics.sorted xs) hlow (by omega)
      obtain ⟨y, hy⟩ := Checked.item_eq_some (Statistics.sorted xs) hhigh (by omega)
      refine ⟨(x + y) / 2, ?_⟩
      rw [hx, hy]
      exact Checked.divide_eq_some _ two_ne_zero

theorem quartiles_eq_some (xs : List ℚ) : ∃ q, quartiles xs = some q := by
  unfold quartiles
  dsimp only
  split
  · split
    · exact ⟨_, rfl⟩
    · next hne =>
      rw [List.isEmpty_iff, ← ne_eq, ← List.length_pos_iff] at hne
      obtain ⟨v, hv⟩ := Checked.item_eq_some (Statistics.sorted xs) (le_refl 0) (by omega)
      exact ⟨(v, v, v), by rw [hv]; rfl⟩
  · obtain ⟨q1, h1⟩ := median_eq_some
      ((Statistics.sorted xs).take ((Statistics.sorted xs).length / 2))
    obtain ⟨q2, h2⟩ := median_eq_some (Statistics.sorted xs)
    obtain ⟨q3, h3⟩ := median_eq_some (if (Statistics.sorted xs).length % 2 ≠ 0 then
      (Statistics.sorted xs).drop ((Statistics.sorted xs).length / 2 + 1)
      else (Statistics.sorted xs).drop ((Statistics.sorted xs).length / 2))
    exact ⟨(q1, q2, q3), by rw [h1, h2, h3]; rfl⟩

/-- A series of timestamps: its bins are in the bounds of the settings, and no
    timestamp is before the first bin. -/
structure Series.Of (p : SearchParams) (timestamps : List ℚ) (g : Series) : Prop where
  admitted : p.valid = true
  binSecs_pos : 0 < g.binSecs
  nBins_pos : 1 ≤ g.nBins
  nBins_le : g.nBins ≤ p.maxBins
  times_mem : ∀ t ∈ g.times, t ∈ timestamps
  origin_le : ∀ t ∈ g.times, g.origin ≤ t

theorem truncate_nonneg {x : ℚ} (h : 0 ≤ x) : 0 ≤ truncate x := by
  rw [truncate, if_pos h]
  exact Int.floor_nonneg.mpr h

theorem truncate_le {x : ℚ} (h : 1 ≤ truncate x) : (truncate x : ℚ) ≤ x := by
  unfold truncate at h ⊢
  split
  · exact Int.floor_le x
  · next hneg =>
    rw [if_neg hneg] at h
    have hceil : ⌈x⌉ ≤ 0 := Int.ceil_le.mpr (by simpa using (not_le.mp hneg).le)
    omega

theorem cut_of {p : SearchParams} {timestamps : List ℚ} {binSecs bins first last : ℚ}
    (hvalid : p.valid = true) (hpos : 0 < binSecs) (hbins : 0 ≤ bins)
    (hfirst : ∀ t ∈ Statistics.sorted timestamps, first ≤ t) :
    (Series.cut p.maxBins last
      ⟨binSecs, truncate bins + 1, first, Statistics.sorted timestamps⟩).Of p timestamps := by
  have hbins := truncate_nonneg hbins
  have hcap : 4 ≤ p.maxBins := by
    simp only [SearchParams.valid, Bool.and_eq_true, decide_eq_true_eq] at hvalid
    exact hvalid.1.1.1.2
  have hmem : ∀ t ∈ Statistics.sorted timestamps, t ∈ timestamps :=
    fun t ht => (List.mem_insertionSort _).mp ht
  unfold Series.cut
  split
  · refine ⟨hvalid, hpos, by dsimp only; omega, le_rfl, ?_, ?_⟩
    · exact fun t ht => hmem t (List.mem_of_mem_filter ht)
    · exact fun t ht => of_decide_eq_true (List.mem_filter.mp ht).2
  · next h => exact ⟨hvalid, hpos, by dsimp only; omega, not_lt.mp h, hmem, hfirst⟩

theorem series_spec (p : SearchParams) (timestamps : List ℚ) :
    ∃ found, series p timestamps = some found ∧ ∀ g ∈ found, g.Of p timestamps := by
  have hnone : ∃ found, some (none : Option Series) = some found ∧ ∀ g ∈ found, g.Of p timestamps :=
    ⟨none, rfl, by simp⟩
  unfold series
  dsimp only
  split
  · exact hnone
  next hstart =>
    simp only [Bool.or_eq_true, Bool.not_eq_true', decide_eq_true_eq, not_or, Bool.not_eq_false,
      not_lt] at hstart
    obtain ⟨hvalid, hlen⟩ := hstart
    have hbpp : 0 < p.binsPerPeriod := by
      simp only [SearchParams.valid, Bool.and_eq_true, decide_eq_true_eq] at hvalid
      exact hvalid.1.2
    have htwo : 2 ≤ (Statistics.sorted timestamps).length := by
      exact_mod_cast (le_max_left (2 : ℚ) p.minConns).trans hlen
    have hne : Statistics.sorted timestamps ≠ [] := by
      rintro hnil
      rw [hnil] at htwo
      simp at htwo
    obtain ⟨med, hmed⟩ := median_eq_some (intervals (Statistics.sorted timestamps))
    obtain ⟨quarts, hquarts⟩ := quartiles_eq_some (intervals (Statistics.sorted timestamps))
    rw [hmed, hquarts, List.head?_eq_some_head hne, List.getLast?_eq_some_getLast hne]
    simp only [Option.bind_eq_bind, Option.bind_some]
    split
    · exact hnone
    split
    · exact hnone
    next hpos =>
      rw [not_or, not_le, not_le] at hpos
      have hbpp' : (p.binsPerPeriod : ℚ) ≠ 0 := by exact_mod_cast hbpp.ne'
      rw [Checked.divide_eq_some _ hbpp']
      simp only [Option.bind_some]
      split
      · exact hnone
      next hbin =>
        rw [not_le] at hbin
        rw [Checked.divide_eq_some _ hbin.ne']
        refine ⟨_, rfl, ?_⟩
        rintro g ⟨⟩
        exact cut_of hvalid hbin (div_nonneg hpos.2.le hbin.le) fun t ht =>
          Statistics.head_sorted_le hne ht

theorem counts_spec {p : SearchParams} {timestamps : List ℚ} {g : Series} (hg : g.Of p timestamps) :
    ∃ counts, g.counts = some counts ∧ counts.length = g.nBins.toNat := by
  refine Checked.foldlM_eq_some (List.length_replicate) fun counts hlen t ht => ?_
  have hslot : g.slot t = some (min (truncate ((t - g.origin) / g.binSecs)) (g.nBins - 1)) := by
    unfold Series.slot
    rw [Checked.divide_eq_some _ hg.binSecs_pos.ne']
    rfl
  have hnonneg : 0 ≤ truncate ((t - g.origin) / g.binSecs) :=
    truncate_nonneg (div_nonneg (sub_nonneg.mpr (hg.origin_le t ht)) hg.binSecs_pos.le)
  have hpos := hg.nBins_pos
  have hmin : 0 ≤ min (truncate ((t - g.origin) / g.binSecs)) (g.nBins - 1) := by omega
  obtain ⟨counts', hcounts, hlen'⟩ := Checked.update_eq_some (· + 1) counts hmin (by omega)
  exact ⟨counts', by rw [hslot]; exact hcounts, hlen'.trans hlen⟩

/-- A lag that is evaluated is within half of the bins, and `min_cycles` of it
    fit between two timestamps. -/
theorem maxLag_spec {p : SearchParams} {timestamps : List ℚ} {g : Series}
    (hg : g.Of p timestamps) (hne : g.times ≠ []) : ∃ maxLag, g.maxLag p = some maxLag ∧
      (1 ≤ maxLag → maxLag ≤ g.nBins ∧ ∃ first ∈ g.times, ∃ last ∈ g.times,
        p.minCycles * (maxLag * g.binSecs) ≤ last - first) := by
  have hvalid := hg.admitted
  simp only [SearchParams.valid, Bool.and_eq_true, decide_eq_true_eq] at hvalid
  obtain ⟨⟨⟨⟨⟨⟨hcycles, hfrac⟩, hhalf⟩, -⟩, -⟩, -⟩, -⟩ := hvalid
  have hcycles' : 0 < p.minCycles := by linarith
  refine ⟨min (truncate (g.nBins * p.maxLagFraction))
    (truncate ((g.times.getLast hne - g.times.head hne) / g.binSecs / p.minCycles)), ?_, ?_⟩
  · unfold Series.maxLag
    rw [List.head?_eq_some_head hne, List.getLast?_eq_some_getLast hne]
    simp only [Option.bind_eq_bind, Option.bind_some, Checked.divide_eq_some _ hg.binSecs_pos.ne',
      Checked.divide_eq_some _ hcycles'.ne']
    rfl
  · intro hone
    have hbins := truncate_le (hone.trans (min_le_left _ _))
    have hspan := truncate_le (hone.trans (min_le_right _ _))
    have hnBins : (0 : ℚ) < g.nBins := by exact_mod_cast hg.nBins_pos
    constructor
    · have hle : (truncate (g.nBins * p.maxLagFraction) : ℚ) ≤ g.nBins := by nlinarith
      exact (min_le_left _ _).trans (by exact_mod_cast hle)
    · refine ⟨_, List.head_mem hne, _, List.getLast_mem hne, ?_⟩
      have hmul := (le_div_iff₀ hcycles').mp
        ((Int.cast_le.mpr (min_le_right (truncate (g.nBins * p.maxLagFraction)) _)).trans hspan)
      have hmul' := (le_div_iff₀ hg.binSecs_pos).mp hmul
      linarith

theorem correlation_spec {c : List ℚ} {denom : ℚ} {nBins : Int} (hdenom : denom ≠ 0)
    (hlen : c.length = nBins.toNat) (lag : ℕ) : ∃ v, correlation c denom nBins lag = some v := by
  obtain ⟨products, hproducts, -⟩ := Checked.mapM_eq_some
    (fun i : ℕ => (Checked.item c i).bind fun a => (Checked.item c (i + lag)).bind fun b => some (a * b))
    (List.range (nBins - lag).toNat) fun i hi => by
      rw [List.mem_range] at hi
      obtain ⟨a, ha⟩ := Checked.item_eq_some c (Int.natCast_nonneg i) (by omega)
      have hnext : (0 : Int) ≤ i + lag := by omega
      obtain ⟨b, hb⟩ := Checked.item_eq_some c hnext (by omega)
      exact ⟨a * b, by rw [ha, hb]; rfl⟩
  refine ⟨products.sum / denom, ?_⟩
  unfold correlation
  simp only [Option.bind_eq_bind] at hproducts ⊢
  rw [show (pure : ℚ → Option ℚ) = some from rfl, hproducts]
  exact Checked.divide_eq_some _ hdenom

/-- The harmonic that is reported is the lag or one of its candidates. -/
theorem harmonic_spec {acf : List ℚ} (peak : ℚ) (lag : ℕ) {subs : List ℕ}
    (h : ∀ sub ∈ subs, 1 ≤ sub ∧ sub ≤ acf.length) :
    ∃ found, harmonic acf peak lag subs = some found ∧ (found = lag ∨ found ∈ subs) := by
  induction subs with
  | nil => exact ⟨lag, rfl, Or.inl rfl⟩
  | cons sub subs ih =>
    obtain ⟨hpos, hle⟩ := h sub List.mem_cons_self
    obtain ⟨found, hfound, hin⟩ := ih fun sub hsub => h sub (List.mem_cons_of_mem _ hsub)
    have hrest : ∃ found, harmonic acf peak lag subs = some found ∧
        (found = lag ∨ found ∈ sub :: subs) := ⟨found, hfound, hin.imp_right (List.mem_cons_of_mem _)⟩
    have hindex : (0 : Int) ≤ (sub : Int) - 1 := by omega
    obtain ⟨x, hx⟩ := Checked.item_eq_some acf hindex (by omega)
    unfold harmonic
    rw [Checked.modulo_eq_some lag (by omega : sub ≠ 0), hx]
    simp only [Option.bind_eq_bind, Option.bind_some]
    split
    · split
      · exact ⟨sub, rfl, Or.inr List.mem_cons_self⟩
      · exact hrest
    · exact hrest

theorem dominant_spec {acf : List ℚ} (hne : acf ≠ []) : ∃ best, dominant acf = some best ∧
    ∀ b ∈ best, 0 < b.2 ∧ b.1 ≤ acf.length := by
  obtain ⟨peak, hpeak⟩ : ∃ peak, acf.max? = some peak :=
    Option.isSome_iff_exists.mp (by rw [List.isSome_max?_iff]; exact hne)
  unfold dominant
  rw [hpeak]
  simp only [Option.bind_eq_bind, Option.bind_some]
  split
  · exact ⟨none, rfl, by simp⟩
  next hpos =>
    obtain ⟨i, hi, hlt⟩ := Checked.idxOf?_eq_some (List.max?_eq_some_iff.mp hpeak).1
    have hsubs : ∀ sub ∈ List.range' 1 i, 1 ≤ sub ∧ sub ≤ i := by
      intro sub hsub
      rw [List.mem_range'_1] at hsub
      omega
    obtain ⟨lag, hlag, hin⟩ := harmonic_spec peak (i + 1) fun sub hsub =>
      ⟨(hsubs sub hsub).1, (hsubs sub hsub).2.trans hlt.le⟩
    rw [hi]
    simp only [Option.bind_some, hlag]
    refine ⟨some (lag, peak), rfl, ?_⟩
    rintro b ⟨⟩
    refine ⟨not_le.mp hpos, ?_⟩
    rcases hin with rfl | hsub
    · exact hlt
    · exact (hsubs lag hsub).2.trans hlt.le

/-- The search raises nothing, stays within the caps, and finds a lag that
    `maxLag_spec` is about. -/
theorem search_spec {p : SearchParams} {timestamps : List ℚ} {g : Series}
    (hg : g.Of p timestamps) : ∃ s, search p g = some s ∧ s.bins ≤ p.maxBins.toNat ∧
      s.lags ≤ p.maxBins.toNat ∧ ∀ best ∈ s.best, 0 < best.2 ∧ ∃ first ∈ timestamps,
        ∃ last ∈ timestamps, p.minCycles * (best.1 * g.binSecs) ≤ last - first := by
  have hcap := hg.nBins_le
  have hone := hg.nBins_pos
  have hvalid := hg.admitted
  simp only [SearchParams.valid, Bool.and_eq_true, decide_eq_true_eq] at hvalid
  obtain ⟨counts, hcounts, hlen⟩ := counts_spec hg
  have hbins : counts.length ≤ p.maxBins.toNat := by omega
  unfold search
  split
  · exact ⟨_, rfl, Nat.zero_le _, Nat.zero_le _, by simp⟩
  next hconns =>
    have hne : g.times ≠ [] := by
      intro hnil
      rw [hnil, List.length_nil, Nat.cast_zero, not_lt] at hconns
      linarith [hvalid.2]
    have hnBins : (g.nBins : ℚ) ≠ 0 := by
      have hint : g.nBins ≠ 0 := by omega
      exact_mod_cast hint
    rw [hcounts]
    simp only [Option.bind_eq_bind, Option.bind_some, Checked.divide_eq_some _ hnBins]
    split
    · exact ⟨_, rfl, hbins, Nat.zero_le _, by simp⟩
    next hdenom =>
      obtain ⟨maxLag, hmaxLag, hreach⟩ := maxLag_spec hg hne
      rw [hmaxLag]
      simp only [Option.bind_some]
      split
      · exact ⟨_, rfl, hbins, Nat.zero_le _, by simp⟩
      next hlag =>
        obtain ⟨hhalf, first, hfirst, last, hlast, hspan⟩ := hreach (not_lt.mp hlag)
        have hcentered : (centered counts (counts.sum / g.nBins)).length = g.nBins.toNat := by
          rw [centered, List.length_map, hlen]
        obtain ⟨acf, hacf, hacflen⟩ := Checked.mapM_eq_some
          (fun i => correlation (centered counts (counts.sum / g.nBins))
            (sumSquares (centered counts (counts.sum / g.nBins))) g.nBins (i + 1))
          (List.range maxLag.toNat) fun i hi =>
            correlation_spec (not_le.mp hdenom).ne' hcentered (i + 1)
        rw [List.length_range] at hacflen
        have hacfne : acf ≠ [] := by
          rw [← List.length_pos_iff]
          omega
        obtain ⟨best, hbest, hfound⟩ := dominant_spec hacfne
        rw [hacf]
        simp only [Option.bind_some, hbest]
        refine ⟨_, rfl, hbins, by dsimp only; omega, ?_⟩
        intro b hb
        obtain ⟨hpos, hle⟩ := hfound b hb
        refine ⟨hpos, first, hg.times_mem first hfirst, last, hg.times_mem last hlast, ?_⟩
        have hcast : (b.1 : ℚ) ≤ maxLag := by
          have hint : (b.1 : Int) ≤ maxLag := by omega
          exact_mod_cast hint
        have hcycles : 0 ≤ p.minCycles := by linarith [hvalid.1.1.1.1.1.1]
        have hwidth := hg.binSecs_pos
        calc p.minCycles * (b.1 * g.binSecs) ≤ p.minCycles * (maxLag * g.binSecs) := by gcongr
          _ ≤ last - first := hspan

/-! ### The result -/

theorem strength_mem {peak : ℚ} (h : 0 < peak) :
    0 ≤ Rounding.roundTo 3 (min 1 peak) ∧ Rounding.roundTo 3 (min 1 peak) ≤ 1 := by
  constructor
  · exact Rounding.roundTo_nonneg 3 (le_min zero_le_one h.le)
  · calc Rounding.roundTo 3 (min 1 peak) ≤ Rounding.roundTo 3 ((1 : ℕ) : ℚ) :=
          Rounding.roundTo_mono 3 (by rw [Nat.cast_one]; exact min_le_left 1 peak)
      _ = 1 := by rw [Rounding.roundTo_natCast, Nat.cast_one]

/-- What a result is bounded by. -/
structure Period.Sound (p : SearchParams) (timestamps : List ℚ) (r : Period) : Prop where
  bins_le : r.bins ≤ p.maxBins.toNat
  lags_le : r.lags ≤ p.maxBins.toNat
  strength_nonneg : 0 ≤ r.strength
  strength_le : r.strength ≤ 1
  cycles : 0 < r.periodSecs →
    ∃ first ∈ timestamps, ∃ last ∈ timestamps, p.minCycles * r.periodSecs ≤ last - first

theorem autocorrPeriod_sound (p : SearchParams) (timestamps : List ℚ) :
    ∃ r, autocorrPeriod p timestamps = some r ∧ r.Sound p timestamps := by
  obtain ⟨found, hfound, hof⟩ := series_spec p timestamps
  unfold autocorrPeriod
  rw [hfound]
  cases found with
  | none =>
    exact ⟨_, rfl, Nat.zero_le _, Nat.zero_le _, le_rfl, zero_le_one,
      fun h => absurd h (lt_irrefl 0)⟩
  | some g =>
    obtain ⟨s, hs, hbins, hlags, hbest⟩ := search_spec (hof g rfl)
    refine ⟨s.period g.binSecs, ?_, ?_⟩
    · show (search p g).bind _ = _
      rw [hs]
      rfl
    · unfold Search.period
      cases hb : s.best with
      | none => exact ⟨hbins, hlags, le_rfl, zero_le_one, fun h => absurd h (lt_irrefl 0)⟩
      | some best =>
        obtain ⟨hpos, hcycles⟩ := hbest best hb
        exact ⟨hbins, hlags, (strength_mem hpos).1, (strength_mem hpos).2, fun _ => hcycles⟩

/-- The search for a period raises nothing, stays within its bounds, and
    depends neither on the order of the timestamps nor on where the clock
    starts; on a clock that runs `k` times as fast the period and the bins
    are `k` times as long. -/
theorem autocorr_period_search (p : SearchParams) (timestamps : List ℚ) :
    ∃ r, autocorrPeriod p timestamps = some r ∧ r.Sound p timestamps ∧
      (∀ ts, ts.Perm timestamps → autocorrPeriod p ts = some r) ∧
      (∀ a, autocorrPeriod p (timestamps.map (· + a)) = some r) ∧
      ∀ k, 0 < k → autocorrPeriod p (timestamps.map (k * ·)) =
        some { r with periodSecs := k * r.periodSecs, binSecs := k * r.binSecs } := by
  obtain ⟨r, hr, hsound⟩ := autocorrPeriod_sound p timestamps
  refine ⟨r, hr, hsound, ?_, ?_, ?_⟩
  · exact fun ts hperm => (autocorrPeriod_perm p hperm).trans hr
  · intro a
    have hshift : (· + a) = moved 1 a := funext fun t => by rw [moved, one_mul]
    rw [hshift, autocorrPeriod_move one_pos, hr]
    simp [Period.scale]
  · intro k hk
    have hscale : (k * ·) = moved k 0 := funext fun t => by rw [moved, add_zero]
    rw [hscale, autocorrPeriod_move hk, hr]
    rfl

end Behavioral
