import Mathlib.Order.Lattice
import Mathlib.Data.List.Chain
import Mathlib.Data.List.Nodup

/-! # Timelines

    A timeline is a list of items with a start and, maybe, a stop: each item
    stops where the next one starts, the starts increase, and the last item is
    open.

    * `Chained.snoc`: a timeline grows when its last item is closed.
    * `Chained.closed`: every item is over before any later one starts.
    * `Chained.contains_iff`: the item that contains a time is the latest that
      has started. -/

namespace Timeline

variable {ι τ : Type*} [LinearOrder τ] (start : ι → τ) (stop : ι → Option τ)

/-- Each item stops where the next one starts, and the last one is open. -/
def Chained (l : List ι) : Prop :=
  l.IsChain (fun a b => stop a = some (start b) ∧ start a < start b) ∧
    ∀ a, l.getLast? = some a → stop a = none

/-- The time is in the half-open interval of the item. -/
def Contains (a : ι) (t : τ) : Prop := start a ≤ t ∧ ∀ e, stop a = some e → t < e

/-- The latest item that has started. -/
def latest (l : List ι) (t : τ) : Option ι := (l.filter fun a => start a ≤ t).getLast?

variable {start stop} {l init : List ι} {cur cur' c a : ι} {t : τ}

theorem Chained.nil : Chained start stop [] := ⟨List.isChain_nil, fun _ h => by cases h⟩

/-- The first item. -/
theorem Chained.singleton (h : stop c = none) : Chained start stop [c] := by
  refine ⟨List.isChain_singleton c, ?_⟩
  intro a ha
  obtain rfl : c = a := by simpa using ha
  exact h

/-- The last item is closed where a new one starts. -/
theorem Chained.snoc (h : Chained start stop (init ++ [cur])) (hstart : start cur' = start cur)
    (hstop : stop cur' = some (start c)) (hlt : start cur < start c) (hopen : stop c = none) :
    Chained start stop (init ++ [cur', c]) := by
  obtain ⟨hchain, -⟩ := h
  obtain ⟨hinit, -, hlink⟩ := List.isChain_append.mp hchain
  constructor
  · rw [List.isChain_append]
    refine ⟨hinit, List.isChain_pair.mpr ⟨hstop, hstart ▸ hlt⟩, ?_⟩
    intro a ha b hb
    obtain rfl : cur' = b := by simpa using hb
    obtain ⟨hend, hbefore⟩ := hlink a ha cur (by simp)
    rw [hstart]
    exact ⟨hend, hbefore⟩
  · intro a ha
    obtain rfl : c = a := by simpa using ha
    exact hopen

/-- The last item is replaced by one with the same bounds. -/
theorem Chained.replace (h : Chained start stop (init ++ [cur])) (hstart : start cur' = start cur)
    (hopen : stop cur' = none) : Chained start stop (init ++ [cur']) := by
  obtain ⟨hchain, -⟩ := h
  obtain ⟨hinit, -, hlink⟩ := List.isChain_append.mp hchain
  constructor
  · rw [List.isChain_append]
    refine ⟨hinit, List.isChain_singleton _, ?_⟩
    intro a ha b hb
    obtain rfl : cur' = b := by simpa using hb
    rw [hstart]
    exact hlink a ha cur (by simp)
  · intro a ha
    obtain rfl : cur' = a := by simpa using ha
    exact hopen

/-- Every item is over before any later one starts. -/
theorem Chained.closed (h : Chained start stop l) :
    l.Pairwise fun a b => ∃ e, stop a = some e ∧ start a < e ∧ e ≤ start b := by
  obtain ⟨hchain, -⟩ := h
  induction l with
  | nil => exact List.Pairwise.nil
  | cons a l ih =>
    cases l with
    | nil => exact List.pairwise_singleton _ a
    | cons b l =>
      obtain ⟨⟨hstop, hlt⟩, hrest⟩ := List.isChain_cons_cons.mp hchain
      have hpair := ih hrest
      refine List.pairwise_cons.mpr ⟨?_, hpair⟩
      intro x hx
      refine ⟨start b, hstop, hlt, ?_⟩
      rcases List.mem_cons.mp hx with rfl | hx
      · exact le_rfl
      · obtain ⟨e, -, hbe, hex⟩ := (List.pairwise_cons.mp hpair).1 x hx
        exact hbe.le.trans hex

theorem Chained.sorted (h : Chained start stop l) : l.Pairwise fun a b => start a < start b := by
  refine h.closed.imp ?_
  rintro a b ⟨e, -, hlt, hle⟩
  exact hlt.trans_le hle

/-- No interval is empty. -/
theorem Chained.nonempty (h : Chained start stop l) (ha : a ∈ l) {e : τ} (he : stop a = some e) :
    start a < e := by
  obtain ⟨pre, post, rfl⟩ := List.append_of_mem ha
  cases post with
  | nil =>
    rw [h.2 a (by simp)] at he
    cases he
  | cons b post =>
    have htail := (List.isChain_append.mp h.1).2.1
    obtain ⟨hstop, hlt⟩ := (List.isChain_cons_cons.mp htail).1
    rw [he] at hstop
    exact (Option.some.inj hstop) ▸ hlt

/-- No two intervals have a time in common. -/
theorem Chained.disjoint (h : Chained start stop l) :
    l.Pairwise fun a b => ∀ t, ¬ (Contains start stop a t ∧ Contains start stop b t) := by
  refine h.closed.imp ?_
  rintro a b ⟨e, hstop, -, hle⟩ t ⟨ha, hb⟩
  exact absurd (ha.2 e hstop) (not_lt.mpr (hle.trans hb.1))

/-! ### The latest item -/

theorem latest_snoc (l : List ι) (c : ι) (t : τ) :
    latest start (l ++ [c]) t = if start c ≤ t then some c else latest start l t := by
  unfold latest
  rw [List.filter_append]
  split
  · next hc => rw [List.filter_cons_of_pos (by simpa using hc), List.filter_nil,
      List.getLast?_append]; rfl
  · next hc => rw [List.filter_cons_of_neg (by simpa using hc), List.filter_nil, List.append_nil]

theorem mem_of_latest (h : latest start l t = some a) : a ∈ l ∧ start a ≤ t := by
  have hmem := List.mem_of_getLast? h
  simpa using List.mem_filter.mp hmem

/-- Among sorted items the latest has the greatest start. -/
theorem le_of_latest (hsorted : l.Pairwise fun a b => start a < start b)
    (h : latest start l t = some a) {b : ι} (hb : b ∈ l) (hbt : start b ≤ t) : start b ≤ start a := by
  induction l using List.reverseRecOn with
  | nil => cases hb
  | append_singleton l c ih =>
    obtain ⟨hinit, -, hlast⟩ := List.pairwise_append.mp hsorted
    rw [latest_snoc] at h
    by_cases hc : start c ≤ t
    · rw [if_pos hc] at h
      obtain rfl := Option.some.inj h
      rcases List.mem_append.mp hb with hb | hb
      · exact (hlast b hb c (by simp)).le
      · rw [List.mem_singleton.mp hb]
    · rw [if_neg hc] at h
      rcases List.mem_append.mp hb with hb | hb
      · exact ih hinit h hb
      · rw [List.mem_singleton.mp hb] at hbt
        exact absurd hbt hc

theorem exists_latest {b : ι} (hb : b ∈ l) (hbt : start b ≤ t) : ∃ a, latest start l t = some a := by
  have hmem : b ∈ l.filter fun a => start a ≤ t := List.mem_filter.mpr ⟨hb, by simpa using hbt⟩
  cases hlast : (l.filter fun a => start a ≤ t).getLast? with
  | none =>
    rw [List.getLast?_eq_none_iff.mp hlast] at hmem
    cases hmem
  | some a => exact ⟨a, hlast⟩

/-- The item that contains a time is the latest that has started. -/
theorem Chained.contains_iff (h : Chained start stop l) (ha : a ∈ l) :
    Contains start stop a t ↔ latest start l t = some a := by
  constructor
  · intro hin
    obtain ⟨b, hb⟩ : ∃ b, latest start l t = some b := exists_latest ha hin.1
    obtain ⟨hbl, hbt⟩ := mem_of_latest hb
    have hle := le_of_latest h.sorted hb ha hin.1
    rcases hle.lt_or_eq with hlt | heq
    · -- a later item would have closed `a`
      obtain ⟨pre, post, rfl⟩ := List.append_of_mem ha
      have hpost : b ∈ post := by
        rcases List.mem_append.mp hbl with hpre | hpost
        · have := (List.pairwise_append.mp h.sorted).2.2 b hpre a (by simp)
          exact absurd hlt this.asymm
        · rcases List.mem_cons.mp hpost with rfl | hpost
          · exact absurd hlt (lt_irrefl _)
          · exact hpost
      have htail := (List.pairwise_append.mp h.closed).2.1
      obtain ⟨e, hstop, -, hle⟩ := (List.pairwise_cons.mp htail).1 b hpost
      exact absurd (hin.2 e hstop) (not_lt.mpr (hle.trans hbt))
    · rw [hb]
      have hinj := h.sorted.imp fun hlt : start _ < start _ => hlt.ne
      exact congrArg some (List.inj_on_of_nodup_map (List.pairwise_map.mpr hinj) hbl ha heq.symm)
  · intro hlatest
    obtain ⟨-, hat⟩ := mem_of_latest hlatest
    refine ⟨hat, fun e he => ?_⟩
    by_contra hte
    obtain ⟨pre, post, rfl⟩ := List.append_of_mem ha
    cases post with
    | nil =>
      rw [h.2 a (by simp)] at he
      cases he
    | cons b post =>
      have htail := (List.isChain_append.mp h.1).2.1
      obtain ⟨hstop, hlt⟩ := (List.isChain_cons_cons.mp htail).1
      rw [he] at hstop
      have hbt : start b ≤ t := (Option.some.inj hstop) ▸ not_lt.mp hte
      have hle := le_of_latest h.sorted hlatest (b := b) (by simp) hbt
      exact absurd hlt (not_lt.mpr hle)

end Timeline
