import CernityNdr.Benchmark.Verdict
import CernityNdr.Framework.Failing
import CernityNdr.Framework.Grouping
import CernityNdr.Framework.Rearranged
import Mathlib.Data.List.Sort
import Mathlib.Data.Prod.Lex
import Mathlib.Data.Sum.Order

/-! # The Revisions of a Finding

    `_select_revisions` keeps one detection for each finding: among the
    detections that were available by the deadline those with the highest
    rank are the latest, and when they have the same payload the first of
    them is kept. Detections without a finding id are items of their own.

    The builtin `float` is a parameter, which raises for an integer that no
    `float` can hold. `sorted` raises when it has to compare a role with a
    missing one.

    * `topRevisions_upTo`, `payloadKey_eq_iff`: the latest revisions and their
      payloads do not depend on any order. -/

namespace Benchmark

/-! ### The rank of a revision -/

/-- `(0, recency, state, sev)` is below every `(1, revision)`. -/
abbrev Rank := (ℚ ×ₗ ℕ ×ₗ ℚ) ⊕ₗ ℚ

instance : Max Rank := LinearOrder.toMax

/-- `_STATE_RANK`. -/
def stateRank : List (String × ℕ) :=
  [("final", 3), ("confirmed", 3), ("updated", 2), ("enriched", 2), ("open", 1), ("pending", 0)]

section

variable (lower : String → String) (float : ℚ → Option ℚ)

/-- `_revision_rank`. -/
def revisionRank (det : Detection) : Option Rank := do
  let recency ← float ((det.interval.map Interval.stop).getD 0)
  let state := (stateRank.lookup (lower (det.state.getD ""))).getD 0
  let sev := det.severity.getD 0
  match det.revision with
  | some r => (float r).map Sum.inrₗ
  | none => some (Sum.inlₗ (toLex (recency, toLex (state, sev))))

end

/-! ### Availability -/

/-- `_eligible_time`. -/
def eligibleTime (det : Detection) : Option ℚ :=
  match det.available with
  | some a => some a
  | none => det.interval.map Interval.stop

inductive Eligibility
  | eligible
  | late
  | unknown
  deriving DecidableEq

/-- `_eligibility`. -/
def eligibility (det : Detection) (deadline : Option ℚ) : Eligibility :=
  match deadline with
  | none => .eligible
  | some deadline =>
    match eligibleTime det with
    | none => .unknown
    | some t => if t ≤ deadline then .eligible else .late

/-! ### The payload of a revision -/

/-- A missing role can be compared with a missing role only. -/
def Incomparable (p q : String × Option String) : Prop := p.1 = q.1 ∧ (p.2 = none ↔ q.2 ≠ none)

instance (p q : String × Option String) : Decidable (Incomparable p q) :=
  inferInstanceAs (Decidable (p.1 = q.1 ∧ (p.2 = none ↔ q.2 ≠ none)))

/-- The order of comparable pairs. -/
def pairLe (p q : String × Option String) : Prop :=
  p.1 < q.1 ∨ p.1 = q.1 ∧
    match p.2, q.2 with
    | none, _ => True
    | some _, none => False
    | some a, some b => a ≤ b

instance : DecidableRel pairLe := fun p q => by
  unfold pairLe
  cases p.2 <;> cases q.2 <;> infer_instance

/-- `sorted`, of pairs of a value and a role. -/
def sorted (pairs : List (String × Option String)) : Option (List (String × Option String)) :=
  if ∃ p ∈ pairs, ∃ q ∈ pairs, Incomparable p q then none else some (pairs.insertionSort pairLe)

/-- `_payload_key`. -/
def payloadKey (lower : String → String) (det : Detection) :
    Option (List (String × Option String) × String) := do
  let ents ← sorted (canonical lower det.entities)
  some (ents, behaviorOf lower det)

/-! ### The selection -/

/-- What `_select_revisions` returns. -/
structure Selection where
  kept : List Detection
  superseded : ℕ
  late : List Detection
  conflicts : List (List Detection)
  unknown : List Detection

def Selection.append (s t : Selection) : Selection where
  kept := s.kept ++ t.kept
  superseded := s.superseded + t.superseded
  late := s.late ++ t.late
  conflicts := s.conflicts ++ t.conflicts
  unknown := s.unknown ++ t.unknown

/-- `(d.get("tenant") or "default", fid)`. -/
def groupKey (d : Detection) : Option (String × String) :=
  d.findingId.map (fun fid => (tenantOf d.tenant, fid))

def having (deadline : Option ℚ) (e : Eligibility) (revs : List Detection) : List Detection :=
  revs.filter (fun r => eligibility r deadline = e)

/-- The items without a finding id. -/
def selectSingles (deadline : Option ℚ) (singles : List Detection) : Selection where
  kept := having deadline .eligible singles
  superseded := 0
  late := having deadline .late singles
  conflicts := []
  unknown := having deadline .unknown singles

section

variable (lower : String → String) (float : ℚ → Option ℚ)

/-- `[r for r in eligible if _revision_rank(r) == top_rank]`. -/
def topRevisions (eligible : List Detection) : Option (List Detection) := do
  let ranks ← eligible.mapM (revisionRank lower float)
  let topRank ← ranks.max?
  some (eligible.filter (fun r => revisionRank lower float r = some topRank))

/-- `{_payload_key(r): r for r in top}`. -/
def distinct (top : List Detection) : Registry (payloadKey lower) :=
  top.foldl Registry.put .empty

/-- One round of the loop over the groups. -/
def selectGroup (deadline : Option ℚ) (revs : List Detection) : Option Selection := do
  let late := having deadline .late revs
  let unknown := having deadline .unknown revs
  let eligible := having deadline .eligible revs
  if eligible = [] then
    some { kept := [], superseded := 0, late := late, conflicts := [], unknown := unknown }
  else
    let top ← topRevisions lower float eligible
    let superseded := eligible.length - top.length
    let _ ← top.mapM (payloadKey lower)
    let distinct := distinct lower top
    if distinct.vals.length = 1 then
      some { kept := top.take 1, superseded := superseded + (top.length - 1), late := late,
             conflicts := [], unknown := unknown }
    else
      some { kept := [], superseded := superseded, late := late, conflicts := [distinct.vals],
             unknown := unknown }

/-- `_select_revisions`. -/
def selectRevisions (detections : List Detection) (deadline : Option ℚ) : Option Selection := do
  let singles := detections.filter (fun d => groupKey d = none)
  let groups := Grouping.grouped groupKey detections
  let selected ← groups.vals.mapM (fun group => selectGroup lower float deadline group.2)
  some (selected.foldl Selection.append (selectSingles deadline singles))

end

/-! ### Payloads in any order -/

instance : Std.Total pairLe := ⟨fun p q => by
  obtain ⟨v, r⟩ := p
  obtain ⟨v', r'⟩ := q
  simp only [pairLe]
  rcases lt_trichotomy v v' with hlt | rfl | hgt
  · exact Or.inl (Or.inl hlt)
  · cases r with
    | none => exact Or.inl (Or.inr ⟨rfl, trivial⟩)
    | some a =>
      cases r' with
      | none => exact Or.inr (Or.inr ⟨rfl, trivial⟩)
      | some b =>
        rcases le_total a b with hle | hle
        · exact Or.inl (Or.inr ⟨rfl, hle⟩)
        · exact Or.inr (Or.inr ⟨rfl, hle⟩)
  · exact Or.inr (Or.inl hgt)⟩

instance : IsTrans _ pairLe := ⟨fun p q t hpq hqt => by
  rcases hpq with hlt | ⟨hpq, hrole⟩
  · rcases hqt with hlt' | ⟨hqt, _⟩
    · exact Or.inl (lt_trans hlt hlt')
    · exact Or.inl (hqt ▸ hlt)
  · rcases hqt with hlt' | ⟨hqt, hrole'⟩
    · exact Or.inl (hpq ▸ hlt')
    · refine Or.inr ⟨hpq.trans hqt, ?_⟩
      revert hrole hrole'
      cases p.2 <;> cases q.2 <;> cases t.2 <;> simp
      exact le_trans⟩

instance : Std.Antisymm pairLe := ⟨fun p q hpq hqp => by
  rcases hpq with hlt | ⟨hpq, hrole⟩
  · rcases hqp with hlt' | ⟨hqp, _⟩
    · exact absurd hlt' (lt_asymm hlt)
    · exact absurd hlt (hqp ▸ lt_irrefl _)
  · rcases hqp with hlt' | ⟨_, hrole'⟩
    · exact absurd hlt' (hpq ▸ lt_irrefl _)
    · refine Prod.ext hpq ?_
      revert hrole hrole'
      cases p.2 <;> cases q.2 <;> simp
      exact le_antisymm⟩

/-- The sorted pairs are those of the list, in an order of their own. -/
theorem perm_of_sorted {pairs out : List (String × Option String)} (h : sorted pairs = some out) :
    out.Perm pairs := by
  rw [sorted] at h
  split at h
  · cases h
  · cases h
    exact List.perm_insertionSort pairLe pairs

theorem sorted_congr {pairs pairs' : List (String × Option String)} (h : pairs.Perm pairs') :
    sorted pairs = sorted pairs' := by
  have hraises : (∃ p ∈ pairs, ∃ q ∈ pairs, Incomparable p q) ↔
      ∃ p ∈ pairs', ∃ q ∈ pairs', Incomparable p q := by
    simp only [h.mem_iff]
  have hsort : pairs.insertionSort pairLe = pairs'.insertionSort pairLe := by
    refine List.Perm.eq_of_pairwise' (List.pairwise_insertionSort pairLe pairs)
      (List.pairwise_insertionSort pairLe pairs') ?_
    exact ((List.perm_insertionSort pairLe pairs).trans h).trans
      (List.perm_insertionSort pairLe pairs').symm
  rw [sorted, sorted, hsort]
  exact if_congr hraises rfl rfl

section

variable {lower : String → String}

theorem payloadKey_isSome {d : Detection} :
    (payloadKey lower d).isSome ↔
      ∀ p ∈ canonical lower d.entities, ∀ q ∈ canonical lower d.entities, ¬ Incomparable p q := by
  rw [payloadKey, sorted]
  split
  · next h => simpa using h
  · next h =>
    push Not at h
    simpa using h

/-- The pairs and the behaviour are the payload. -/
theorem perm_of_payloadKey {d d' : Detection} (hsome : (payloadKey lower d).isSome)
    (h : payloadKey lower d = payloadKey lower d') :
    (canonical lower d.entities).Perm (canonical lower d'.entities) ∧
      behaviorOf lower d = behaviorOf lower d' := by
  obtain ⟨key, hkey⟩ := Option.isSome_iff_exists.mp hsome
  have hkey' := h.symm.trans hkey
  obtain ⟨out, hout, hpair⟩ := Option.bind_eq_some_iff.mp hkey
  obtain ⟨out', hout', hpair'⟩ := Option.bind_eq_some_iff.mp hkey'
  obtain ⟨hents, hbehavior⟩ := Prod.mk.inj (Option.some.inj (hpair.trans hpair'.symm))
  exact ⟨(perm_of_sorted hout).symm.trans (hents ▸ perm_of_sorted hout'), hbehavior⟩

/-! ### Detections with their entities in another order -/

/-- The same detection, its entities in any order. -/
def Reordered (d d' : Detection) : Prop :=
  ∃ es : List Entity, es.Perm d.entities ∧ d' = { d with entities := es }

theorem Reordered.refl (d : Detection) : Reordered d d := ⟨d.entities, .refl _, rfl⟩

theorem Reordered.payloadKey_eq {d d' : Detection} (h : Reordered d d') :
    payloadKey lower d = payloadKey lower d' := by
  obtain ⟨es, hperm, rfl⟩ := h
  have hpairs : (canonical lower d.entities).Perm (canonical lower es) := hperm.symm.map _
  rw [payloadKey, payloadKey, sorted_congr hpairs]
  rfl

/-- The verdicts on a clear detection do not see the order of its entities. -/
theorem Reordered.sameScored {d d' : Detection} (h : Reordered d d')
    (hclear : Clear lower d.entities) : SameScored lower d d' := by
  obtain ⟨es, hperm, rfl⟩ := h
  exact ⟨lookup_congr hclear (hperm.symm.map _), rfl, rfl, rfl⟩

theorem Reordered.eligibility_eq {d d' : Detection} (h : Reordered d d') (deadline : Option ℚ) :
    eligibility d deadline = eligibility d' deadline := by
  obtain ⟨es, _, rfl⟩ := h
  rfl

theorem Reordered.groupKey_eq {d d' : Detection} (h : Reordered d d') :
    groupKey d = groupKey d' := by
  obtain ⟨es, _, rfl⟩ := h
  rfl

/-! ### The latest revisions -/

variable {float : ℚ → Option ℚ}

theorem Reordered.revisionRank_eq {d d' : Detection} (h : Reordered d d') :
    revisionRank lower float d = revisionRank lower float d' := by
  obtain ⟨es, _, rfl⟩ := h
  rfl

open Rearranged

/-- The latest revisions are those that no eligible one outranks. -/
theorem topRevisions_eq_some {eligible top : List Detection} :
    topRevisions lower float eligible = some top ↔
      ∃ topRank, top = eligible.filter (fun r => revisionRank lower float r = some topRank) ∧
        (∀ r ∈ eligible, ∃ n ≤ topRank, revisionRank lower float r = some n) ∧ top ≠ [] := by
  constructor
  · intro h
    obtain ⟨ranks, hranks, h⟩ := Option.bind_eq_some_iff.mp h
    obtain ⟨topRank, hmax, h⟩ := Option.bind_eq_some_iff.mp h
    obtain ⟨hmem, hle⟩ := List.max?_eq_some_iff.mp hmax
    obtain rfl := Option.some.inj h
    refine ⟨topRank, rfl, ?_, ?_⟩
    · intro r hr
      obtain ⟨n, hn, hrank⟩ := Option.exists_mem_of_mapM hranks hr
      exact ⟨n, hle n hn, hrank⟩
    · obtain ⟨r, hr, hrank⟩ := Option.exists_of_mem_mapM hranks hmem
      exact List.ne_nil_of_mem (List.mem_filter.mpr ⟨hr, decide_eq_true hrank⟩)
  · rintro ⟨topRank, rfl, hle, hne⟩
    obtain ⟨ranks, hranks, _⟩ :=
      Option.exists_mapM fun r hr => (hle r hr).imp fun n hn => hn.2
    obtain ⟨r, hr⟩ := List.exists_mem_of_ne_nil _ hne
    obtain ⟨hr, hrank⟩ := List.mem_filter.mp hr
    have hmax : ranks.max? = some topRank := by
      refine List.max?_eq_some_iff.mpr ⟨?_, ?_⟩
      · obtain ⟨n, hn, hrank'⟩ := Option.exists_mem_of_mapM hranks hr
        rw [of_decide_eq_true hrank] at hrank'
        exact Option.some.inj hrank' ▸ hn
      · intro n hn
        obtain ⟨s, hs, hrank'⟩ := Option.exists_of_mem_mapM hranks hn
        obtain ⟨n', hle', hn'⟩ := hle s hs
        exact Option.some.inj (hn'.symm.trans hrank') ▸ hle'
    rw [topRevisions, hranks]
    show (ranks.max?.bind fun topRank => some (eligible.filter _)) = _
    rw [hmax]
    rfl

/-- The latest revisions do not depend on any order. -/
theorem topRevisions_upTo {eligible eligible' top : List Detection}
    (hupTo : UpTo Reordered eligible eligible')
    (h : topRevisions lower float eligible = some top) :
    ∃ top', topRevisions lower float eligible' = some top' ∧ UpTo Reordered top top' := by
  obtain ⟨topRank, rfl, hle, hne⟩ := topRevisions_eq_some.mp h
  have hfilter := hupTo.filter (p := fun r => decide (revisionRank lower float r = some topRank))
    fun d d' hd => by rw [hd.revisionRank_eq]
  refine ⟨_, topRevisions_eq_some.mpr ⟨topRank, rfl, ?_, ?_⟩, hfilter⟩
  · intro r hr
    obtain ⟨s, hs, hrel⟩ := hupTo.exists_left hr
    rw [← hrel.revisionRank_eq]
    exact hle s hs
  · intro hnil
    rw [hnil] at hfilter
    exact hne (List.length_eq_zero_iff.mp hfilter.length_eq)

theorem keys_distinct_run (top : List Detection) (reg : Registry (payloadKey lower)) {k} :
    k ∈ (top.foldl Registry.put reg).keys ↔ k ∈ reg.keys ∨ ∃ r ∈ top, payloadKey lower r = k := by
  induction top generalizing reg with
  | nil => simp
  | cons r top ih =>
    rw [List.foldl_cons, ih, List.exists_mem_cons_iff, ← or_assoc]
    refine or_congr_left ?_
    by_cases hmem : payloadKey lower r ∈ reg.keys
    · rw [Registry.keys_put_of_mem hmem]
      constructor
      · exact Or.inl
      · rintro (h | rfl)
        · exact h
        · exact hmem
    · rw [Registry.keys_put_of_notMem hmem, List.mem_append, List.mem_singleton, eq_comm]

/-- One payload is left exactly when all the latest revisions have the same. -/
theorem length_distinct_eq_one {top : List Detection} (hne : top ≠ []) :
    (distinct lower top).vals.length = 1 ↔
      ∀ r ∈ top, ∀ s ∈ top, payloadKey lower r = payloadKey lower s := by
  have hmem : ∀ k, k ∈ (distinct lower top).keys ↔ ∃ r ∈ top, payloadKey lower r = k := by
    intro k
    rw [distinct, keys_distinct_run]
    simp [Registry.keys]
  have hlength : (distinct lower top).vals.length = (distinct lower top).keys.length :=
    (List.length_map _).symm
  rw [hlength, List.length_eq_one_iff]
  constructor
  · rintro ⟨k, hk⟩ r hr s hs
    have hr' := (hmem (payloadKey lower r)).mpr ⟨r, hr, rfl⟩
    have hs' := (hmem (payloadKey lower s)).mpr ⟨s, hs, rfl⟩
    rw [hk, List.mem_singleton] at hr' hs'
    rw [hr', hs']
  · intro hall
    obtain ⟨r, hr⟩ := List.exists_mem_of_ne_nil _ hne
    refine ⟨payloadKey lower r, List.perm_singleton.mp ?_⟩
    refine (List.perm_ext_iff_of_nodup (Registry.keys_nodup _) (List.nodup_singleton _)).mpr ?_
    intro k
    rw [hmem, List.mem_singleton]
    constructor
    · rintro ⟨s, hs, rfl⟩
      exact hall s hs r hr
    · rintro rfl
      exact ⟨r, hr, rfl⟩

end

end Benchmark
