import CernityNdr.Asset.Resolution
import CernityNdr.Framework.Selection

/-! # The Interval Cache Is the Ownership Oracle

    `ownership_intervals` samples `owner_at` at the boundaries only (every
    start and every expiry, also those of losing leases). It is exact at
    every instant because `owner_at` is constant between two boundaries, and
    its lookup `win[b]` cannot fail because an owner found at a boundary
    that is not a start was already the owner at the boundary before, whose
    interval ends at `b` and is extended. -/

namespace AssetService

open Plot

/-! ### Winners -/

/-- `_winning_by_start` keeps the lease of the least id for each start. -/
theorem winningByStart_eq_leasts (leases : List Lease) :
    winningByStart leases = Registry.leasts Lease.start leaseId leases := by
  have hround : keepWinner = Registry.keepLeast Lease.start leaseId := by
    funext byStart c
    unfold keepWinner Registry.keepLeast
    cases byStart.get? c.start with
    | none => rfl
    | some prev => exact if_congr Iff.rfl rfl rfl
  unfold winningByStart Registry.leasts
  rw [hround]

/-- Every winner is one of the leases. -/
theorem mem_of_mem_winningByStart {leases : List Lease} {c : Lease}
    (h : c ∈ (winningByStart leases).vals) : c ∈ leases := by
  have hget := Registry.mem_vals_iff.mp h
  rw [winningByStart_eq_leasts] at hget
  exact (Registry.isLeastOf_of_get? hget).1

theorem mem_winners {leases : List Lease} {c : Lease} :
    c ∈ winners leases ↔ c ∈ (winningByStart leases).vals :=
  List.mem_insertionSort _

/-- The winners are sorted by their starts, which are distinct. -/
theorem winners_sorted (leases : List Lease) :
    (winners leases).Pairwise (fun a b => a.start < b.start) :=
  Registry.sort_vals_sorted Function.injective_id (winningByStart leases)

/-! ### The oracle on a sorted list of winners -/

/-- A winning claim holds at `t`: it has started, the next start is ahead
    and so is its own expiry. -/
theorem ownerScan_cons (t : Instant) (c : Lease) (rest : List Lease) :
    ownerScan t (c :: rest) =
      if c.start ≤ t ∧ (∀ n ∈ rest.head?.map Lease.start, t < n) ∧
          (∀ x ∈ c.expires, t < x.instant)
      then some c.mac else ownerScan t rest := by
  have hend : (leaseEnd c (rest.head?.map Lease.start)).all (fun e => t < e) = true ↔
      (∀ n ∈ rest.head?.map Lease.start, t < n) ∧ (∀ x ∈ c.expires, t < x.instant) := by
    rcases rest.head?.map Lease.start with _ | n <;> rcases hc : c.expires with _ | x <;>
      simp [leaseEnd, hc, List.min?]
  simp only [ownerScan]
  congr 1
  rw [hend]

/-- Two instants between the same boundaries have the same owner. -/
theorem ownerScan_congr {ws : List Lease} {b t : Instant}
    (hstart : ∀ c ∈ ws, (c.start ≤ t ↔ c.start ≤ b))
    (hexp : ∀ c ∈ ws, ∀ x ∈ c.expires, (t < x.instant ↔ b < x.instant)) :
    ownerScan t ws = ownerScan b ws := by
  induction ws with
  | nil => rfl
  | cons c rest ih =>
    rw [ownerScan_cons, ownerScan_cons,
      ih (fun c hc => hstart c (by simp [hc])) (fun c hc => hexp c (by simp [hc]))]
    have hnext : (∀ n ∈ rest.head?.map Lease.start, t < n) ↔
        (∀ n ∈ rest.head?.map Lease.start, b < n) := by
      rcases rest with _ | ⟨d, rest⟩
      · simp
      · have hd := hstart d (by simp)
        simp only [List.head?_cons, Option.map_some, Option.mem_def, Option.some.injEq,
          forall_eq']
        rw [← not_le, ← not_le, hd]
    have hx : (∀ x ∈ c.expires, t < x.instant) ↔ (∀ x ∈ c.expires, b < x.instant) :=
      forall₂_congr (hexp c (by simp))
    exact if_congr (and_congr (hstart c (by simp)) (and_congr hnext hx)) rfl rfl

/-- The owner at `b` has owned the address since the start of its lease. -/
theorem ownerScan_since {ws : List Lease} (hs : ws.Pairwise (fun a b => a.start < b.start))
    {b : Instant} {m : String} (h : ownerScan b ws = some m) :
    ∃ c ∈ ws, c.start ≤ b ∧ ∀ q, c.start ≤ q → q ≤ b → ownerScan q ws = some m := by
  induction ws with
  | nil => simp [ownerScan] at h
  | cons c rest ih =>
    obtain ⟨hc, hs⟩ := List.pairwise_cons.mp hs
    rw [ownerScan_cons] at h
    split at h
    · next hact =>
      refine ⟨c, by simp, hact.1, ?_⟩
      intro q hcq hqb
      rw [ownerScan_cons, if_pos, h]
      exact ⟨hcq, fun n hn => hqb.trans_lt (hact.2.1 n hn),
        fun x hx => hqb.trans_lt (hact.2.2 x hx)⟩
    · obtain ⟨d, hd, hdb, hall⟩ := ih hs h
      refine ⟨d, by simp [hd], hdb, ?_⟩
      intro q hdq hqb
      rw [ownerScan_cons, if_neg, hall q hdq hqb]
      -- the next start is not ahead: it is at or before the start of `d`
      rintro ⟨-, hnext, -⟩
      rcases rest with _ | ⟨e, rest⟩
      · simp at hd
      · have hqe : q < e.start := by simpa using hnext
        rcases List.mem_cons.mp hd with rfl | hd'
        · exact absurd hqe (not_lt.mpr hdq)
        · exact absurd (hqe.trans ((List.pairwise_cons.mp hs).1 d hd')) (not_lt.mpr hdq)

/-! ### The oracle is constant between boundaries -/

theorem mem_bounds {leases : List Lease} {b : Instant} :
    b ∈ bounds leases ↔ (∃ c ∈ winners leases, c.start = b) ∨
      (∃ c ∈ leases, ∃ x ∈ c.expires, x.instant = b) := by
  simp only [bounds, List.mem_insertionSort, List.mem_dedup, List.mem_append, Registry.keys,
    List.mem_map, List.mem_filterMap, Option.map_eq_some_iff, mem_winners, Option.mem_def]

theorem bounds_sorted (leases : List Lease) : (bounds leases).Pairwise (· < ·) := by
  have hle : (bounds leases).Pairwise (· ≤ ·) := List.pairwise_insertionSort _ _
  have hnodup : (bounds leases).Nodup :=
    (List.perm_insertionSort _ _).nodup_iff.mpr (List.nodup_dedup _)
  exact (hle.and hnodup).imp (fun h => lt_of_le_of_ne h.1 h.2)

/-- Every boundary is a canonical timestamp. -/
theorem iso_instant_of_mem_bounds {leases : List Lease} {b : Instant}
    (h : b ∈ bounds leases) : (iso b).instant = b := by
  rcases mem_bounds.mp h with ⟨c, -, rfl⟩ | ⟨c, -, x, -, rfl⟩
  · simp [Lease.start]
  · simp

theorem ownerAt_changesOnlyAt (leases : List Lease) :
    ChangesOnlyAt (ownerAt leases) (bounds leases) := by
  refine changesOnlyAt_of_sorted (bounds_sorted leases) ?_
  intro b _ t hbt hno
  refine ownerScan_congr ?_ ?_
  · intro c hc
    have hside := hno c.start (mem_bounds.mpr (Or.inl ⟨c, hc, rfl⟩))
    exact ⟨fun h => hside.resolve_right (not_lt.mpr h), fun h => h.trans hbt⟩
  · intro c hc x hx
    have hcl := mem_of_mem_winningByStart (mem_winners.mp hc)
    have hside := hno x.instant (mem_bounds.mpr (Or.inr ⟨c, hcl, x, hx, rfl⟩))
    exact ⟨fun h => hbt.trans_lt h, fun h => hside.resolve_left (not_le.mpr h)⟩

/-- An owner found at a boundary that is not a start was the owner at the
    boundary before. -/
theorem ownerAt_opensOnlyAt (leases : List Lease) :
    OpensOnlyAt (ownerAt leases) (fun b => ∃ c, (winningByStart leases).get? b = some c)
      none (bounds leases) := by
  refine opensOnlyAt_of_sorted (bounds_sorted leases) ?_ _ [] rfl
  intro b _ hb m hm
  obtain ⟨c, hc, hcb, hall⟩ := ownerScan_since (winners_sorted leases) hm
  have hne : c.start ≠ b := by
    rintro rfl
    exact hb ⟨c, Registry.get?_eq_some.mpr ⟨mem_winners.mp hc, rfl⟩⟩
  exact ⟨c.start, mem_bounds.mpr (Or.inl ⟨c, hc, rfl⟩), lt_of_le_of_ne hcb hne,
    fun q hcq hqb => hall q hcq hqb.le⟩

/-- Nobody owns the address before the first boundary. -/
theorem ownerAt_before (leases : List Lease) {t : Instant}
    (ht : Below (bounds leases).head? t) : ownerAt leases t = none := by
  cases h : ownerAt leases t with
  | none => rfl
  | some m =>
    obtain ⟨c, hc, hct, -⟩ := ownerScan_since (winners_sorted leases) h
    have hmem : c.start ∈ bounds leases := mem_bounds.mpr (Or.inl ⟨c, hc, rfl⟩)
    have hsort := bounds_sorted leases
    rcases hb : bounds leases with _ | ⟨b, bs⟩
    · simp [hb] at hmem
    · rw [hb] at hmem ht hsort
      have htb : t < b := by simpa using ht
      have hbc : b ≤ c.start := by
        rcases List.mem_cons.mp hmem with hcb | hcb
        · exact hcb.ge
        · exact ((List.pairwise_cons.mp hsort).1 _ hcb).le
      exact absurd (htb.trans_le hbc) (not_lt.mpr hct)

/-! ### The cache draws the oracle -/

/-- What an interval says about the owner, without its evidence. -/
def Interval.span (iv : Interval) : Span Instant String :=
  ⟨iv.mac, iv.validFrom.instant, iv.validTo.map Iso.instant⟩

theorem Interval.covers_iff {iv : Interval} {t : Instant} :
    iv.Covers t ↔ iv.span.Contains t := by
  rcases iv with ⟨mac, value, vf, _ | vt, conf, st, oid, m, cv⟩ <;>
    simp [Interval.Covers, Interval.span, Span.Contains]

theorem map_instant_iso {nb : Option Instant} (h : ∀ n ∈ nb, (iso n).instant = n) :
    (nb.map iso).map Iso.instant = nb := by
  cases nb with
  | none => rfl
  | some n => simp [h n rfl]

/-- Extending the last interval is extending the last span. -/
theorem map_span_moveEnd {intervals : List Interval} {mac : String} {b : Instant}
    {nb : Option Instant} (hb : (iso b).instant = b) (hnb : ∀ n ∈ nb, (iso n).instant = n)
    (h : coalesces intervals mac b = true) :
    (moveEnd intervals nb).map Interval.span = extend (intervals.map Interval.span) mac b nb := by
  rcases List.eq_nil_or_concat intervals with rfl | ⟨init, last, rfl⟩
  · simp [coalesces] at h
  · simp only [coalesces, List.concat_eq_append, List.getLast?_append, List.getLast?_singleton,
      Option.some_or, Bool.and_eq_true, decide_eq_true_eq] at h
    have hlast : last.span.owner = mac ∧ last.span.stop = some b := by
      refine ⟨h.1, ?_⟩
      simp [Interval.span, h.2, hb]
    simp only [moveEnd, List.concat_eq_append, List.getLast?_append, List.getLast?_singleton,
      Option.some_or, List.dropLast_concat, List.map_append, List.map_cons, List.map_nil]
    rw [extend_concat, if_pos hlast]
    simp [Interval.span, map_instant_iso hnb]

/-- Opening an interval is opening a span. -/
theorem map_span_open {intervals : List Interval} {ip mac : String} {c : Lease} {b : Instant}
    {nb : Option Instant} (hb : (iso b).instant = b) (hnb : ∀ n ∈ nb, (iso n).instant = n)
    (h : coalesces intervals mac b = false) :
    (intervals ++ [openInterval ip c mac b nb]).map Interval.span =
      extend (intervals.map Interval.span) mac b nb := by
  have hnew : (openInterval ip c mac b nb).span = ⟨mac, b, nb⟩ := by
    simp [Interval.span, openInterval, hb, map_instant_iso hnb]
  rcases List.eq_nil_or_concat intervals with rfl | ⟨init, last, rfl⟩
  · simp [hnew]
  · have hlast : ¬ (last.span.owner = mac ∧ last.span.stop = some b) := by
      rintro ⟨ho, hs⟩
      simp only [Interval.span, Option.map_eq_some_iff] at hs
      obtain ⟨x, hx, rfl⟩ := hs
      have ho' : last.mac = mac := ho
      simp [coalesces, hx, ho'] at h
    simp only [List.concat_eq_append, List.map_append, List.map_cons, List.map_nil, hnew]
    rw [extend_concat, if_neg hlast]

/-- The loop of `ownership_intervals` does not fail and draws the oracle. -/
theorem intervalLoop_spec (ip : String) (leases : List Lease) {bs : List Instant}
    (hiso : ∀ b ∈ bs, (iso b).instant = b)
    (hconst : ChangesOnlyAt (ownerAt leases) bs) {prev : Option String}
    (hopens : OpensOnlyAt (ownerAt leases)
      (fun b => ∃ c, (winningByStart leases).get? b = some c) prev bs)
    (intervals : List Interval)
    (h : PlotUpTo (ownerAt leases) bs.head? prev (intervals.map Interval.span)) :
    ∃ res, intervalLoop ip leases (winningByStart leases) intervals bs = .ok res ∧
      res.map Interval.span = plotFrom (ownerAt leases) (intervals.map Interval.span) bs := by
  induction bs generalizing intervals prev with
  | nil => exact ⟨intervals, rfl, rfl⟩
  | cons b bs ih =>
    have hb := hiso b (by simp)
    have hnb : ∀ n ∈ bs.head?, (iso n).instant = n := fun n hn =>
      hiso n (by simp [List.mem_of_mem_head? hn])
    have hstep := h.step hconst.1 hconst.2.1
    have next : ∀ intervals' : List Interval, intervals'.map Interval.span =
        draw (ownerAt leases) (intervals.map Interval.span) b bs.head? →
        ∃ res, intervalLoop ip leases (winningByStart leases) intervals' bs = .ok res ∧
          res.map Interval.span =
            plotFrom (ownerAt leases) (intervals.map Interval.span) (b :: bs) := by
      intro intervals' hdraw
      obtain ⟨res, hres, hmap⟩ := ih (fun x hx => hiso x (by simp [hx])) hconst.2.2 hopens.2
        intervals' (by rw [hdraw]; exact hstep)
      exact ⟨res, hres, by rw [hmap, hdraw, plotFrom]⟩
    unfold intervalLoop
    cases hown : ownerAt leases b with
    | none => exact next intervals (by simp [draw, hown])
    | some mac =>
      simp only
      cases hco : coalesces intervals mac b with
      | true => exact next _ (by rw [map_span_moveEnd hb hnb hco]; simp [draw, hown])
      | false =>
        cases hwin : (winningByStart leases).get? b with
        | some c =>
          refine next (intervals ++ [openInterval ip c mac b bs.head?]) ?_
          rw [map_span_open hb hnb hco]
          simp [draw, hown]
        | none =>
          -- not a start: the owner was there before, so the last interval reaches `b`
          have hprev := hopens.1 (by simp [hwin]) mac hown
          obtain ⟨init, s, hcat, hs, hstop⟩ := h.reaches mac hprev
          exfalso
          rcases List.eq_nil_or_concat intervals with rfl | ⟨ivs, last, rfl⟩
          · simp at hcat
          · simp only [List.concat_eq_append, List.map_append, List.map_cons,
              List.map_nil] at hcat
            obtain ⟨-, hl⟩ := List.append_inj' hcat rfl
            obtain rfl := List.singleton_inj.mp hl
            simp only [Interval.span, List.head?_cons, Option.map_eq_some_iff] at hstop
            obtain ⟨x, hx, rfl⟩ := hstop
            have hs' : last.mac = mac := hs
            simp [coalesces, hx, hs'] at hco

/-- Two touching spans of one owner cannot both be drawn. -/
theorem not_touching {spans : List (Span Instant String)} (hp : spans.Pairwise Apart)
    (hproper : ∀ s ∈ spans, Below s.stop s.start) {a b : Span Instant String}
    (ha : a ∈ spans) (hb : b ∈ spans) (howner : a.owner = b.owner) :
    a.stop ≠ some b.start := by
  intro htouch
  have hab : a.start < b.start := by simpa [htouch] using hproper a ha
  -- sorted and distinct: either `a` comes first and is apart from `b`, or the reverse
  induction hp with
  | nil => cases ha
  | cons hhead htail ih =>
    rcases List.mem_cons.mp ha with rfl | ha' <;> rcases List.mem_cons.mp hb with rfl | hb'
    · exact absurd hab (lt_irrefl _)
    · obtain ⟨x, hx, -, -, hne⟩ := hhead b hb'
      rw [htouch] at hx
      exact hne (Option.some.inj hx).symm howner
    · obtain ⟨x, -, hlt, hle, -⟩ := hhead a ha'
      exact absurd ((hlt.trans_le hle).trans hab) (lt_irrefl _)
    · exact ih (fun s hs => hproper s (by simp [hs])) ha' hb'

/-- **The cache is exact.** For every set of leases `ownership_intervals`
    returns; its intervals are sorted, non-empty, disjoint and maximal; and
    at every instant they name the owner that `owner_at` names. -/
theorem ownership_intervals_exact (ip : String) (leases : List Lease) :
    ∃ intervals, ownershipIntervals ip leases = .ok intervals ∧
      intervals.Pairwise (fun a b => a.validFrom.instant < b.validFrom.instant) ∧
      intervals.Pairwise (fun a b => ∀ t, a.Covers t → ¬ b.Covers t) ∧
      (∀ iv ∈ intervals, iv.Covers iv.validFrom.instant) ∧
      (∀ a ∈ intervals, ∀ b ∈ intervals, a.mac = b.mac → a.validTo ≠ some b.validFrom) ∧
      (∀ t m, ownerAt leases t = some m ↔ ∃ iv ∈ intervals, iv.mac = m ∧ iv.Covers t) := by
  obtain ⟨intervals, hok, hmap⟩ := intervalLoop_spec ip leases
    (fun b hb => iso_instant_of_mem_bounds hb) (ownerAt_changesOnlyAt leases)
    (ownerAt_opensOnlyAt leases) [] (PlotUpTo.empty fun t => ownerAt_before leases)
  have hempty : PlotUpTo (ownerAt leases) (bounds leases).head? none [] :=
    PlotUpTo.empty fun t => ownerAt_before leases
  obtain ⟨prev, hplot⟩ := plotFrom_spec (ownerAt_changesOnlyAt leases) hempty
  have hplot : PlotUpTo (ownerAt leases) none prev (intervals.map Interval.span) := by
    rw [hmap]; exact hplot
  have hapart : intervals.Pairwise (fun a b => Apart a.span b.span) :=
    List.pairwise_map.mp hplot.apart
  have hspan : ∀ iv ∈ intervals, iv.span ∈ intervals.map Interval.span := fun iv h =>
    List.mem_map_of_mem h
  refine ⟨intervals, hok, ?_, ?_, ?_, ?_, ?_⟩
  · refine hapart.imp ?_
    rintro a b ⟨x, -, hlt, hle, -⟩
    exact hlt.trans_le hle
  · refine hapart.imp ?_
    intro a b hab t ha hb
    exact hab.disjoint (Interval.covers_iff.mp ha) (Interval.covers_iff.mp hb)
  · intro iv hiv
    exact Interval.covers_iff.mpr ⟨le_rfl, hplot.proper _ (hspan iv hiv)⟩
  · intro a ha b hb hmac htouch
    refine not_touching hplot.apart hplot.proper (hspan a ha) (hspan b hb) hmac ?_
    simp [Interval.span, htouch]
  · intro t m
    rw [hplot.exact_below t (below_none t) m]
    simp only [Interval.covers_iff]
    constructor
    · rintro ⟨s, hs, ho, hc⟩
      obtain ⟨iv, hiv, rfl⟩ := List.mem_map.mp hs
      exact ⟨iv, hiv, ho, hc⟩
    · rintro ⟨iv, hiv, ho, hc⟩
      exact ⟨iv.span, hspan iv hiv, ho, hc⟩

end AssetService
