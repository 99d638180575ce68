import CernityNdr.Benchmark.Settled
import CernityNdr.Framework.Rounding
import Mathlib.Data.Rat.Floor

/-! # The Score of a Run

    `score` compares the selected detections with the labelled episodes. Each
    malicious episode is surfaced, ambiguous or missed, and each selected item
    is relevant, ambiguous, unscored or false. Rates are rational and rounded
    to four places.

    `Sound`: the score returns, it does not depend on the order of the
    detections or of their entities, the episodes and the items are counted
    once, and a detection that is late changes the number of late items only.

    * `sound_of_settled`: the score of settled detections is sound.
    * `settled_of_sound`: detections that are not settled have an order, and
      an episode for which that order changes the score. -/

namespace Benchmark

open Rearranged

/-! ### The score -/

inductive Judgement
  | relevant
  | ambiguous
  | unscored
  | unrelated
  deriving DecidableEq

/-- What `score` computes before it counts. -/
structure Scored where
  selection : Selection
  mal : List Episode
  surfaced : List String
  ambiguousEps : List String
  missed : List String
  relevant : List Detection
  ambiguous : List Detection
  unscored : List Detection
  unrelated : List Detection

/-- The dictionary that `score` returns. -/
structure Report where
  maliciousEpisodes : ℕ
  episodesSurfaced : ℕ
  episodesMissed : ℕ
  episodesAmbiguous : ℕ
  ambiguousIds : List String
  episodeRecall : ℚ
  analystItems : ℕ
  relevantItems : ℕ
  falseItems : ℕ
  ambiguousItems : ℕ
  unscoredItems : ℕ
  analystPrecision : ℚ
  f1 : ℚ
  surfacedIds : List String
  missedIds : List String
  supersededRevisions : ℕ
  lateItems : ℕ
  unknownEligibilityItems : ℕ
  versionConflicts : ℕ
  deadlineBasis : Option String
  deriving DecidableEq

section

variable (lower : String → String) (float : ℚ → Option ℚ)

/-- The verdicts on an item. -/
def verdictsOn (d : Detection) (eps : List Episode) (tol : ℚ) : List Verdict :=
  eps.map (fun ep => matchVerdict lower d ep tol)

/-- The verdicts for an episode. -/
def verdictsFor (ep : Episode) (ds : List Detection) (tol : ℚ) : List Verdict :=
  ds.map (fun d => matchVerdict lower d ep tol)

/-- `e.get("label") == label`. -/
def labelled (label : String) (episodes : List Episode) : List Episode :=
  episodes.filter (fun e => e.label = some label)

/-- The branches of the loop over the items. -/
def judge (mal unknown : List Episode) (tol : ℚ) (d : Detection) : Judgement :=
  if .matched ∈ verdictsOn lower d mal tol then .relevant
  else if .ambiguous ∈ verdictsOn lower d mal tol then .ambiguous
  else if .matched ∈ verdictsOn lower d unknown tol then .unscored
  else .unrelated

/-- The lists of `score`. -/
def scored (detections : List Detection) (episodes : List Episode) (tol replayOffset : ℚ)
    (deadline : Option ℚ) : Option Scored := do
  let selection ← selectRevisions lower float detections deadline
  let detections := selection.kept
  let episodes :=
    if replayOffset ≠ 0 then episodes.map (Episode.shifted replayOffset) else episodes
  let mal := labelled "malicious" episodes
  let unknown := labelled "unknown" episodes
  let surfaced := mal.filter (fun ep => .matched ∈ verdictsFor lower ep detections tol)
  let ambiguousEps := mal.filter (fun ep => .matched ∉ verdictsFor lower ep detections tol ∧
    .ambiguous ∈ verdictsFor lower ep detections tol)
  let surfaced := surfaced.map Episode.id
  let ambiguousEps := ambiguousEps.map Episode.id
  let missed := (mal.map Episode.id).filter (fun id => id ∉ surfaced ∧ id ∉ ambiguousEps)
  let judged := fun j => detections.filter (fun d => judge lower mal unknown tol d = j)
  some
    { selection := selection, mal := mal, surfaced := surfaced, ambiguousEps := ambiguousEps,
      missed := missed, relevant := judged .relevant, ambiguous := judged .ambiguous,
      unscored := judged .unscored, unrelated := judged .unrelated }

/-- The counts and rates of `score`. -/
def Scored.report (s : Scored) (deadline : Option ℚ) : Report :=
  let tpEp := s.surfaced.length
  let episodeRecall : ℚ := if s.mal ≠ [] then tpEp / s.mal.length else 0
  let adjudicated := s.relevant.length + s.unrelated.length
  let precision : ℚ := if adjudicated ≠ 0 then s.relevant.length / adjudicated else 0
  let f1 : ℚ :=
    if precision + episodeRecall ≠ 0 then 2 * precision * episodeRecall / (precision + episodeRecall)
    else 0
  { maliciousEpisodes := s.mal.length
    episodesSurfaced := tpEp
    episodesMissed := s.missed.length
    episodesAmbiguous := s.ambiguousEps.length
    ambiguousIds := s.ambiguousEps
    episodeRecall := Rounding.roundTo 4 episodeRecall
    analystItems :=
      s.relevant.length + s.unrelated.length + s.ambiguous.length + s.unscored.length
    relevantItems := s.relevant.length
    falseItems := s.unrelated.length
    ambiguousItems := s.ambiguous.length
    unscoredItems := s.unscored.length
    analystPrecision := Rounding.roundTo 4 precision
    f1 := Rounding.roundTo 4 f1
    surfacedIds := s.surfaced
    missedIds := s.missed
    supersededRevisions := s.selection.superseded
    lateItems := s.selection.late.length
    unknownEligibilityItems := s.selection.unknown.length
    versionConflicts := s.selection.conflicts.length
    deadlineBasis :=
      match deadline with
      | none => none
      | some _ => some "observation-recency (proxy, not delivery)" }

/-- `score`. -/
def score (detections : List Detection) (episodes : List Episode) (tol replayOffset : ℚ)
    (deadline : Option ℚ) : Option Report :=
  (scored lower float detections episodes tol replayOffset deadline).map
    (fun s => s.report deadline)

/-! ### What is asked of a score -/

/-- The score that is asked for. -/
structure Sound (detections : List Detection) (episodes : List Episode) (tol replayOffset : ℚ)
    (deadline : Option ℚ) (s : Scored) : Prop where
  returns : scored lower float detections episodes tol replayOffset deadline = some s
  unordered : ∀ detections', UpTo Reordered detections detections' →
    score lower float detections' episodes tol replayOffset deadline = some (s.report deadline)
  episodePartition : (s.surfaced ++ s.ambiguousEps ++ s.missed).Perm
    ((labelled "malicious" episodes).map Episode.id)
  itemPartition : (s.relevant ++ s.unrelated ++ s.ambiguous ++ s.unscored).Perm s.selection.kept
  late : ∀ added detections', (∀ d ∈ added, eligibility d deadline = .late) →
    detections'.Perm (detections ++ added) →
    score lower float detections' episodes tol replayOffset deadline =
      some { s.report deadline with
             lateItems := (s.report deadline).lateItems + added.length }

end

variable {lower : String → String} {float : ℚ → Option ℚ} {deadline : Option ℚ}

/-! ### Partitions -/

/-- With distinct ids every malicious episode is counted once. -/
theorem episodes_perm {mal : List Episode} (hnodup : (mal.map Episode.id).Nodup)
    {p q : Episode → Bool} :
    ((mal.filter p).map Episode.id ++ (mal.filter (fun ep => !p ep && q ep)).map Episode.id ++
        (mal.map Episode.id).filter (fun id => decide (id ∉ (mal.filter p).map Episode.id ∧
          id ∉ (mal.filter (fun ep => !p ep && q ep)).map Episode.id))).Perm
      (mal.map Episode.id) := by
  have hmem : ∀ r : Episode → Bool, ∀ ep ∈ mal,
      (ep.id ∈ (mal.filter r).map Episode.id ↔ r ep = true) := by
    intro r ep hep
    rw [List.mem_map]
    constructor
    · rintro ⟨ep', hep', hid⟩
      obtain ⟨hmem, hr⟩ := List.mem_filter.mp hep'
      rwa [← List.inj_on_of_nodup_map hnodup hmem hep hid]
    · intro hr
      exact ⟨ep, List.mem_filter.mpr ⟨hep, hr⟩, rfl⟩
  have hmissed : (mal.map Episode.id).filter (fun id =>
      decide (id ∉ (mal.filter p).map Episode.id ∧
        id ∉ (mal.filter (fun ep => !p ep && q ep)).map Episode.id)) =
      (mal.filter (fun ep => !p ep && !q ep)).map Episode.id := by
    rw [List.filter_map]
    refine congrArg _ (List.filter_congr fun ep hep => ?_)
    simp only [Function.comp, hmem p ep hep, hmem _ ep hep]
    cases p ep <;> cases q ep <;> rfl
  rw [hmissed, List.append_assoc, ← List.map_append, ← List.map_append]
  refine List.Perm.map _ ?_
  have hrest : (mal.filter (fun ep => !p ep && q ep) ++
      mal.filter (fun ep => !p ep && !q ep)).Perm (mal.filter (fun ep => !p ep)) := by
    have hsplit := List.filter_append_perm q (mal.filter (fun ep => !p ep))
    simpa only [List.filter_filter, Bool.and_comm] using hsplit
  exact (hrest.append_left _).trans (List.filter_append_perm p mal)

/-- Every item has one judgement. -/
theorem items_perm (j : Detection → Judgement) (l : List Detection) :
    (l.filter (fun d => j d = .relevant) ++ l.filter (fun d => j d = .unrelated) ++
        l.filter (fun d => j d = .ambiguous) ++ l.filter (fun d => j d = .unscored)).Perm l := by
  have hall : ∀ d ∈ l, ∃ k ∈ [Judgement.relevant, .unrelated, .ambiguous, .unscored],
      some (j d) = some k := by
    intro d _
    refine ⟨j d, ?_, rfl⟩
    cases j d <;> decide
  have hperm := @Grouping.flatMap_members_perm _ _ _ (fun d => some (j d)) l _ (by decide) hall
  simpa [Grouping.members, List.append_assoc] using hperm

theorem shifted_episodes (episodes : List Episode) (offset : ℚ) :
    (if offset ≠ 0 then episodes.map (Episode.shifted offset) else episodes) =
      episodes.map (Episode.shifted offset) := by
  split
  · rfl
  · next h =>
    have hzero : offset = 0 := not_not.mp h
    have hid : ∀ e : Episode, e.shifted offset = e := by
      intro e
      have hshift : shiftInterval e.interval offset = e.interval := by
        cases e.interval with
        | none => rfl
        | some i => exact if_pos hzero
      rw [Episode.shifted, hshift]
    exact (List.map_id'' hid episodes).symm

/-- Shifting keeps the ids and the labels. -/
theorem map_id_labelled (label : String) (episodes : List Episode) (offset : ℚ) :
    (labelled label (episodes.map (Episode.shifted offset))).map Episode.id =
      (labelled label episodes).map Episode.id := by
  rw [labelled, List.filter_map, List.map_map]
  rfl

theorem partitions_of_scored {detections : List Detection} {episodes : List Episode}
    (hnodup : (episodes.map Episode.id).Nodup) {tol offset : ℚ} {s : Scored}
    (h : scored lower float detections episodes tol offset deadline = some s) :
    (s.surfaced ++ s.ambiguousEps ++ s.missed).Perm
        ((labelled "malicious" episodes).map Episode.id) ∧
      (s.relevant ++ s.unrelated ++ s.ambiguous ++ s.unscored).Perm s.selection.kept := by
  obtain ⟨selection, _, h⟩ := Option.bind_eq_some_iff.mp h
  obtain rfl := Option.some.inj h
  refine ⟨?_, items_perm _ _⟩
  rw [shifted_episodes, ← map_id_labelled "malicious" episodes offset]
  have hmal : ((labelled "malicious" (episodes.map (Episode.shifted offset))).map
      Episode.id).Nodup := by
    rw [map_id_labelled]
    exact hnodup.sublist (List.filter_sublist.map _)
  have hperm := @episodes_perm _ hmal
    (fun ep => .matched ∈ verdictsFor lower ep selection.kept tol)
    (fun ep => .ambiguous ∈ verdictsFor lower ep selection.kept tol)
  simpa only [Bool.decide_and, decide_not] using hperm

/-! ### Settled detections have a sound score -/

theorem mem_verdictsFor {ep : Episode} {ds : List Detection} {tol : ℚ} {v : Verdict} :
    v ∈ verdictsFor lower ep ds tol ↔
      0 < ds.countP (fun d => matchVerdict lower d ep tol = v) := by
  rw [verdictsFor, List.mem_map, List.countP_pos_iff]
  simp only [decide_eq_true_eq]

/-- The verdicts on an item decide on its judgement. -/
theorem judge_congr {d d' : Detection} (h : SameVerdicts lower d d') (mal unknown : List Episode)
    (tol : ℚ) : judge lower mal unknown tol d = judge lower mal unknown tol d' := by
  have hverdicts : ∀ eps, verdictsOn lower d eps tol = verdictsOn lower d' eps tol :=
    fun eps => List.map_congr_left fun ep _ => h ep tol
  rw [judge, judge, hverdicts, hverdicts]

/-- The report shows of the selection what alike ones share, and the number of
    late items. -/
theorem score_congr {detections detections' : List Detection} {selection selection' : Selection}
    (h : selectRevisions lower float detections deadline = some selection)
    (h' : selectRevisions lower float detections' deadline = some selection')
    (halike : Alike lower selection selection') {n : ℕ}
    (hlate : selection'.late.length = selection.late.length + n) {episodes : List Episode}
    {tol offset : ℚ} {s : Scored}
    (hs : scored lower float detections episodes tol offset deadline = some s) :
    score lower float detections' episodes tol offset deadline =
      some { s.report deadline with lateItems := (s.report deadline).lateItems + n } := by
  have hfor : ∀ (ep : Episode) (v : Verdict),
      v ∈ verdictsFor lower ep selection.kept tol ↔ v ∈ verdictsFor lower ep selection'.kept tol := by
    intro ep v
    rw [mem_verdictsFor, mem_verdictsFor]
    rw [halike.kept _ fun d d' hd => by rw [hd ep tol]]
  have hjudged : ∀ (mal unknown : List Episode) (j : Judgement),
      (selection.kept.filter (fun d => judge lower mal unknown tol d = j)).length =
        (selection'.kept.filter (fun d => judge lower mal unknown tol d = j)).length := by
    intro mal unknown j
    rw [← List.countP_eq_length_filter, ← List.countP_eq_length_filter]
    exact halike.kept _ fun d d' hd => by rw [judge_congr hd]
  rw [scored, h, Option.bind_eq_bind, Option.bind_some] at hs
  obtain rfl := Option.some.inj hs
  rw [score, scored, h', Option.bind_eq_bind, Option.bind_some, Option.map_some]
  simp only [Scored.report, hfor, hjudged, hlate, halike.superseded, halike.conflicts,
    halike.unknown]

theorem sound_of_settled {detections : List Detection}
    (h : Settled lower float deadline detections) {episodes : List Episode}
    (hnodup : (episodes.map Episode.id).Nodup) (tol offset : ℚ) :
    ∃ s, Sound lower float detections episodes tol offset deadline s := by
  obtain ⟨selection, hselection⟩ :=
    Option.isSome_iff_exists.mp (selectRevisions_isSome_iff.mpr ⟨h.ranked, h.comparable⟩)
  obtain ⟨s, hs⟩ : ∃ s, scored lower float detections episodes tol offset deadline = some s := by
    rw [scored, hselection]
    exact ⟨_, rfl⟩
  obtain ⟨hepisodes, hitems⟩ := partitions_of_scored hnodup hs
  refine ⟨s, hs, ?_, hepisodes, hitems, ?_⟩
  · intro detections' hupTo
    have hnone : ∀ d ∈ ([] : List Detection), eligibility d deadline = .late := by simp
    obtain ⟨selection', hselection', halike, hlate⟩ :=
      h.selectRevisions_alike hnone (by rwa [List.append_nil]) hselection
    exact score_congr hselection hselection' halike hlate hs
  · intro added detections' hadded hperm
    obtain ⟨selection', hselection', halike, hlate⟩ :=
      h.selectRevisions_alike hadded (upTo_of_perm Reordered.refl hperm.symm) hselection
    exact score_congr hselection hselection' halike hlate hs

end Benchmark
