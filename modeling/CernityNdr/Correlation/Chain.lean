import Mathlib.Data.Finset.Max
import CernityNdr.Correlation.Risk

/-! # Kill Chains

    The model of `tactic_stages` and `is_ordered_chain` of
    `correlation-service/correlate.py`: the stages of an entity's findings in
    the order of their times, and the count of those that raise the peak.

    The sort breaks ties by the stage, so that findings of one instant climb
    among themselves. The shell stamps all findings of one poll with one time.

    * `isOrderedChain_iff`: what the scan of the sorted stages finds.
    * `meets_iff`: the scan finds the real progressions, and only these,
      exactly when the peak is not reached at the first instant over a lower
      stage. -/

namespace Correlation

/-- A finding with its category. -/
structure Report (K : Type*) extends Finding K where
  category : String

/-- `STAGE`. -/
def STAGE : List (String × Nat × String) :=
  [("recon", 0, "reconnaissance"), ("malware", 1, "initial-access"),
    ("bruteforce", 1, "credential-access"), ("anomaly", 1, "execution"),
    ("c2", 2, "command-and-control"), ("dns_tunnel", 2, "command-and-control"),
    ("lateral", 3, "lateral-movement"), ("exfil", 4, "exfiltration")]

variable {K : Type*} [Field K] [LinearOrder K]

/-- `tactic_stages`. -/
def tacticStages (findings : List (Report K)) : List (Nat × K × String) :=
  findings.filterMap fun f =>
    (STAGE.lookup f.category).map fun st => (st.1, tsOf f.toFinding 0, st.2)

/-- The loop of `is_ordered_chain`: the peak, and how often it was raised. -/
def climb (s : Int × Nat) (e : K ×ₗ Nat) : Int × Nat :=
  if s.1 < (ofLex e).2 then ((ofLex e).2, s.2 + 1) else s

/-- The stages by their times; at one time they rise. -/
def sortedStages (findings : List (Report K)) : List (K ×ₗ Nat) :=
  ((tacticStages findings).map fun s => toLex (s.2.1, s.1)).insertionSort (· ≤ ·)

/-- What `is_ordered_chain` says of the sorted stages. -/
def advances (stages : List (K ×ₗ Nat)) : Bool :=
  if (stages.map fun e => (ofLex e).2).dedup.length < 2 then false
  else decide (2 ≤ (stages.foldl climb (-1, 0)).2)

/-- `is_ordered_chain`. -/
def isOrderedChain (findings : List (Report K)) : Bool := advances (sortedStages findings)

/-! ### Progressions -/

/-- A finding of the stage `s` at the time `t`. -/
def Staged (findings : List (Report K)) (t : K) (s : Nat) : Prop :=
  ∃ f ∈ findings, (STAGE.lookup f.category).map Prod.fst = some s ∧ tsOf f.toFinding 0 = t

/-- Some stage is higher than all that were before it, and there was one. -/
def Progresses (findings : List (Report K)) : Prop :=
  ∃ t s, Staged findings t s ∧ (∃ t' s', Staged findings t' s' ∧ t' < t) ∧
    ∀ t' s', Staged findings t' s' → t' < t → s' < s

/-- The highest stage of all is there at the first instant, over a lower one. -/
def Tied (findings : List (Report K)) : Prop :=
  ∃ t s s', Staged findings t s ∧ Staged findings t s' ∧ s < s' ∧
    ∀ t₁ s₁, Staged findings t₁ s₁ → t ≤ t₁ ∧ s₁ ≤ s'

/-- A chain is a real progression: none is in one instant, and the order of
    the list says nothing. -/
structure Meets (findings : List (Report K)) : Prop where
  progress : isOrderedChain findings = true ↔ Progresses findings
  instant : ∀ t, (∀ f ∈ findings, tsOf f.toFinding 0 = t) → isOrderedChain findings = false
  order : ∀ findings', findings.Perm findings' → isOrderedChain findings' = isOrderedChain findings

/-! ### The scan -/

variable {findings : List (Report K)} {t : K} {s : Nat}

omit [Field K] [LinearOrder K] in
theorem le_foldl_climb (l : List (K ×ₗ Nat)) (peak : Int) (n : Nat) : n ≤ (l.foldl climb (peak, n)).2 := by
  induction l generalizing peak n with
  | nil => exact le_rfl
  | cons e l ih =>
    rw [List.foldl_cons, climb]
    split
    · exact (Nat.le_succ n).trans (ih _ _)
    · exact ih _ _

omit [Field K] [LinearOrder K] in
/-- The peak is raised by whatever is above it. -/
theorem lt_foldl_climb (l : List (K ×ₗ Nat)) (peak : Int) (n : Nat) :
    n < (l.foldl climb (peak, n)).2 ↔ ∃ e ∈ l, peak < (ofLex e).2 := by
  induction l generalizing peak n with
  | nil => simp
  | cons e l ih =>
    rw [List.foldl_cons, climb, List.exists_mem_cons_iff]
    by_cases h : peak < (ofLex e).2
    · -- raised once, it is never counted down
      rw [if_pos h]
      exact iff_of_true (le_foldl_climb l _ _) (Or.inl h)
    · rw [if_neg h, ih, or_iff_right h]

theorem mem_sortedStages {e : K ×ₗ Nat} :
    e ∈ sortedStages findings ↔ Staged findings (ofLex e).1 (ofLex e).2 := by
  rw [sortedStages, List.mem_insertionSort, List.mem_map]
  constructor
  · rintro ⟨st, hst, rfl⟩
    obtain ⟨f, hf, hmap⟩ := List.mem_filterMap.mp hst
    obtain ⟨entry, hentry, rfl⟩ := Option.map_eq_some_iff.mp hmap
    exact ⟨f, hf, by rw [hentry]; rfl, rfl⟩
  · rintro ⟨f, hf, hstage, hts⟩
    obtain ⟨entry, hentry, hs⟩ := Option.map_eq_some_iff.mp hstage
    refine ⟨(entry.1, tsOf f.toFinding 0, entry.2), List.mem_filterMap.mpr ⟨f, hf, ?_⟩, ?_⟩
    · rw [hentry]
      rfl
    · exact congrArg toLex (Prod.ext hts hs)

omit [Field K] [LinearOrder K] in
/-- Two stages are two elements of the set. -/
theorem two_le_of_ne {l : List (K ×ₗ Nat)} {e e' : K ×ₗ Nat} (he : e ∈ l) (he' : e' ∈ l)
    (hne : (ofLex e).2 ≠ (ofLex e').2) : 2 ≤ (l.map fun e => (ofLex e).2).dedup.length := by
  have hsub : [(ofLex e).2, (ofLex e').2] ⊆ (l.map fun e => (ofLex e).2).dedup := by
    intro s hs
    rw [List.mem_dedup]
    rcases List.mem_cons.mp hs with rfl | hs
    · exact List.mem_map_of_mem he
    · rw [List.mem_singleton.mp hs]
      exact List.mem_map_of_mem he'
  have hnodup : [(ofLex e).2, (ofLex e').2].Nodup := by simp [hne]
  exact (hnodup.subperm hsub).length_le

omit [Field K] [LinearOrder K] in
/-- The scan finds a stage above the first. -/
theorem advances_cons (e : K ×ₗ Nat) (l : List (K ×ₗ Nat)) :
    advances (e :: l) = true ↔ ∃ e' ∈ l, (ofLex e).2 < (ofLex e').2 := by
  have hclimb : 2 ≤ ((e :: l).foldl climb (-1, 0)).2 ↔ ∃ e' ∈ l, (ofLex e).2 < (ofLex e').2 := by
    rw [List.foldl_cons, climb, if_pos (by omega)]
    exact (lt_foldl_climb l _ _).trans (by simp)
  rw [advances, ← hclimb]
  constructor
  · intro h
    split at h
    · cases h
    · exact of_decide_eq_true h
  · intro h
    obtain ⟨e', he', hlt⟩ := hclimb.mp h
    have htwo := two_le_of_ne List.mem_cons_self (List.mem_cons_of_mem e he') hlt.ne
    rw [if_neg (not_lt.mpr htwo)]
    exact decide_eq_true h

/-- The first stage in the order of the sort. -/
def IsFirst (findings : List (Report K)) (t : K) (s : Nat) : Prop :=
  Staged findings t s ∧ ∀ t' s', Staged findings t' s' → t < t' ∨ t = t' ∧ s ≤ s'

theorem isFirst_of_sortedStages {e : K ×ₗ Nat} {l : List (K ×ₗ Nat)} (h : sortedStages findings = e :: l) :
    IsFirst findings (ofLex e).1 (ofLex e).2 := by
  refine ⟨mem_sortedStages.mp (h ▸ List.mem_cons_self), fun t' s' hstaged => ?_⟩
  have hsorted : (e :: l).Pairwise (· ≤ ·) := h ▸ (List.sortedLE_insertionSort).pairwise
  have hmem : toLex (t', s') ∈ e :: l := h ▸ mem_sortedStages.mpr hstaged
  have hle : e ≤ toLex (t', s') := by
    rcases List.mem_cons.mp hmem with heq | hmem
    · exact heq.ge
    · exact (List.pairwise_cons.mp hsorted).1 _ hmem
  exact Prod.Lex.le_iff.mp hle

theorem IsFirst.unique {t' : K} {s' : Nat} (h : IsFirst findings t s) (h' : IsFirst findings t' s') :
    t = t' ∧ s = s' := by
  rcases h.2 _ _ h'.1 with hlt | ⟨rfl, hle⟩
  · rcases h'.2 _ _ h.1 with hlt' | ⟨heq, -⟩
    · exact absurd hlt hlt'.asymm
    · exact absurd heq hlt.ne'
  · rcases h'.2 _ _ h.1 with hlt' | ⟨-, hle'⟩
    · exact absurd hlt' (lt_irrefl _)
    · exact ⟨rfl, le_antisymm hle hle'⟩

theorem exists_isFirst (h : Staged findings t s) : ∃ t₀ s₀, IsFirst findings t₀ s₀ := by
  cases hl : sortedStages findings with
  | nil =>
    have hmem : toLex (t, s) ∈ sortedStages findings := mem_sortedStages.mpr h
    rw [hl] at hmem
    cases hmem
  | cons e l => exact ⟨_, _, isFirst_of_sortedStages hl⟩

/-- **The scan** finds a stage above the first one. -/
theorem isOrderedChain_iff (findings : List (Report K)) : isOrderedChain findings = true ↔
    ∃ t s, IsFirst findings t s ∧ ∃ t' s', Staged findings t' s' ∧ s < s' := by
  rw [isOrderedChain]
  cases hl : sortedStages findings with
  | nil =>
    refine iff_of_false (by simp [advances]) ?_
    rintro ⟨t, s, ⟨hstaged, -⟩, -⟩
    have hmem : toLex (t, s) ∈ sortedStages findings := mem_sortedStages.mpr hstaged
    rw [hl] at hmem
    cases hmem
  | cons e l =>
    rw [advances_cons]
    have hfirst := isFirst_of_sortedStages hl
    constructor
    · rintro ⟨e', he', hlt⟩
      exact ⟨_, _, hfirst, _, _, mem_sortedStages.mp (hl ▸ List.mem_cons_of_mem e he'), hlt⟩
    · rintro ⟨t, s, hfirst', t', s', hstaged', hlt⟩
      obtain ⟨rfl, rfl⟩ := hfirst'.unique hfirst
      have hmem : toLex (t', s') ∈ e :: l := hl ▸ mem_sortedStages.mpr hstaged'
      rcases List.mem_cons.mp hmem with heq | hmem
      · rw [← heq] at hlt
        exact absurd hlt (lt_irrefl _)
      · exact ⟨_, hmem, hlt⟩

/-! ### Ties -/

/-- What the scan finds depends on what findings there are. -/
theorem isOrderedChain_perm {findings' : List (Report K)} (h : findings.Perm findings') :
    isOrderedChain findings' = isOrderedChain findings := by
  have hstaged : ∀ t s, Staged findings' t s ↔ Staged findings t s := fun t s =>
    exists_congr fun f => and_congr_left fun _ => h.mem_iff.symm
  rw [Bool.eq_iff_iff, isOrderedChain_iff, isOrderedChain_iff]
  simp only [IsFirst, hstaged]

/-- The first instant and its highest stage. -/
theorem exists_highest_at (h : IsFirst findings t s) :
    ∃ b, Staged findings t b ∧ ∀ s', Staged findings t s' → s' ≤ b := by
  let here := ((sortedStages findings).filter fun e => (ofLex e).1 = t).toFinset
  have hmem : ∀ e, e ∈ here ↔ Staged findings (ofLex e).1 (ofLex e).2 ∧ (ofLex e).1 = t := by
    intro e
    rw [List.mem_toFinset, List.mem_filter, mem_sortedStages, decide_eq_true_iff]
  obtain ⟨e, he, hmax⟩ := here.exists_max_image (fun e => (ofLex e).2)
    ⟨toLex (t, s), (hmem _).mpr ⟨h.1, rfl⟩⟩
  obtain ⟨hstaged, rfl⟩ := (hmem e).mp he
  exact ⟨_, hstaged, fun s' hs' => hmax (toLex ((ofLex e).1, s')) ((hmem _).mpr ⟨hs', rfl⟩)⟩

/-- The earliest of the stages above `b`. -/
theorem exists_earliest_above {b : Nat} (h : Staged findings t s) (hb : b < s) :
    ∃ t₁ s₁, Staged findings t₁ s₁ ∧ b < s₁ ∧ ∀ t' s', Staged findings t' s' → t' < t₁ → s' ≤ b := by
  let above := ((sortedStages findings).filter fun e => b < (ofLex e).2).toFinset
  have hmem : ∀ e, e ∈ above ↔ Staged findings (ofLex e).1 (ofLex e).2 ∧ b < (ofLex e).2 := by
    intro e
    rw [List.mem_toFinset, List.mem_filter, mem_sortedStages, decide_eq_true_iff]
  obtain ⟨e, he, hmin⟩ := above.exists_min_image (fun e => (ofLex e).1)
    ⟨toLex (t, s), (hmem _).mpr ⟨h, hb⟩⟩
  obtain ⟨hstaged, habove⟩ := (hmem e).mp he
  refine ⟨_, _, hstaged, habove, fun t' s' hstaged' hlt => not_lt.mp fun hgt => ?_⟩
  exact absurd (hmin (toLex (t', s')) ((hmem _).mpr ⟨hstaged', hgt⟩)) (not_le.mpr hlt)

/-- **A real progression** is found by the scan, and is not tied. -/
theorem progresses_iff (findings : List (Report K)) :
    Progresses findings ↔ isOrderedChain findings = true ∧ ¬Tied findings := by
  constructor
  · rintro ⟨t₁, s₁, hstaged, ⟨t', s', hstaged', hlt⟩, hover⟩
    obtain ⟨t, s, hfirst⟩ := exists_isFirst hstaged
    constructor
    · have hle : t ≤ t' := by
        rcases hfirst.2 t' s' hstaged' with hlt | ⟨rfl, -⟩
        · exact hlt.le
        · exact le_rfl
      exact (isOrderedChain_iff findings).mpr
        ⟨t, s, hfirst, t₁, s₁, hstaged, hover t s hfirst.1 (hle.trans_lt hlt)⟩
    · rintro ⟨t₀, s₀, top, -, htop, -, hmax⟩
      have hbefore := hover t₀ top htop ((hmax t' s' hstaged').1.trans_lt hlt)
      exact absurd (hmax t₁ s₁ hstaged).2 (not_le.mpr hbefore)
  · rintro ⟨hchain, htied⟩
    obtain ⟨t, s, hfirst, t', s', hstaged', hlt⟩ := (isOrderedChain_iff findings).mp hchain
    have hearliest : ∀ t₁ s₁, Staged findings t₁ s₁ → t ≤ t₁ := by
      intro t₁ s₁ h
      rcases hfirst.2 t₁ s₁ h with hlt | ⟨rfl, -⟩
      · exact hlt.le
      · exact le_rfl
    obtain ⟨b, hb, hhighest⟩ := exists_highest_at hfirst
    -- a stage above those of the first instant, or the highest of these ties
    obtain ⟨t₂, s₂, hstaged₂, hover⟩ : ∃ t₂ s₂, Staged findings t₂ s₂ ∧ b < s₂ := by
      by_contra hnone
      push Not at hnone
      have hsb : s < b := hlt.trans_le (hnone t' s' hstaged')
      exact htied ⟨t, s, b, hfirst.1, hb, hsb, fun t₁ s₁ h => ⟨hearliest t₁ s₁ h, hnone t₁ s₁ h⟩⟩
    obtain ⟨t₁, s₁, hstaged₁, hover₁, hbefore⟩ := exists_earliest_above hstaged₂ hover
    have hne : t₁ ≠ t := by
      rintro rfl
      exact absurd (hhighest s₁ hstaged₁) (not_le.mpr hover₁)
    exact ⟨t₁, s₁, hstaged₁, ⟨t, s, hfirst.1, lt_of_le_of_ne (hearliest t₁ s₁ hstaged₁) hne.symm⟩,
      fun t' s' h hlt => (hbefore t' s' h hlt).trans_lt hover₁⟩

theorem isOrderedChain_of_tied (h : Tied findings) : isOrderedChain findings = true := by
  obtain ⟨t, s, s', hs, hs', hlt, hmax⟩ := h
  obtain ⟨t₀, s₀, hfirst⟩ := exists_isFirst hs
  refine (isOrderedChain_iff findings).mpr ⟨t₀, s₀, hfirst, t, s', hs', ?_⟩
  rcases hfirst.2 t s hs with hbefore | ⟨-, hle⟩
  · exact absurd (hmax t₀ s₀ hfirst.1).1 (not_le.mpr hbefore)
  · exact hle.trans_lt hlt

/-- **A reported chain** is a real progression exactly when the findings are
    not tied. -/
theorem meets_iff (findings : List (Report K)) : Meets findings ↔ ¬Tied findings := by
  constructor
  · intro h htied
    exact ((progresses_iff findings).mp (h.progress.mp (isOrderedChain_of_tied htied))).2 htied
  · intro htied
    have hprogress : isOrderedChain findings = true ↔ Progresses findings := by
      rw [progresses_iff, and_iff_left htied]
    refine ⟨hprogress, fun t hall => ?_, fun findings' hperm => isOrderedChain_perm hperm⟩
    rw [← Bool.not_eq_true, hprogress]
    rintro ⟨t₁, s₁, ⟨f, hf, -, rfl⟩, ⟨t₂, s₂, ⟨g, hg, -, rfl⟩, hlt⟩, -⟩
    rw [hall f hf, hall g hg] at hlt
    exact absurd hlt (lt_irrefl _)

/-- Two findings of one poll, and no progression. -/
theorem one_poll_forms_chain :
    isOrderedChain [(⟨⟨"horizontal_scan", some 5, some 1000⟩, "recon"⟩ : Report ℚ),
        ⟨⟨"beacon", some 7, some 1000⟩, "c2"⟩] = true ∧
      ¬Progresses [(⟨⟨"horizontal_scan", some 5, some 1000⟩, "recon"⟩ : Report ℚ),
        ⟨⟨"beacon", some 7, some 1000⟩, "c2"⟩] := by
  constructor
  · decide +kernel
  · rintro ⟨t, s, ⟨f, hf, -, rfl⟩, ⟨t', s', ⟨g, hg, -, rfl⟩, hlt⟩, -⟩
    have hts : ∀ h ∈ [(⟨⟨"horizontal_scan", some 5, some 1000⟩, "recon"⟩ : Report ℚ),
        ⟨⟨"beacon", some 7, some 1000⟩, "c2"⟩], tsOf h.toFinding 0 = 1000 := by
      intro h hh
      rcases List.mem_cons.mp hh with rfl | hh
      · rfl
      · rw [List.mem_singleton.mp hh]
        rfl
    rw [hts f hf, hts g hg] at hlt
    exact absurd hlt (lt_irrefl _)

end Correlation
