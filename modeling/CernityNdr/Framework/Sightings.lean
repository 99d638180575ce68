import Mathlib.Order.Lattice
import CernityNdr.Framework.Run

/-! # First Sightings Read by a Cursor

    A machine keeps the time of the first sighting of every item, and a
    cursor. Some of its steps are passes: a pass examines the items above the
    cursor and moves the cursor.

    * `exactly_once`: when every new sighting lies above the cursor and no
      pass leaves a sighting above it, every item is examined exactly once,
      in the first pass after its sighting.
    * `counts_of_read`: an item below the cursor is never examined. -/

namespace Sightings

open Machine

/-- What is seen of a machine. -/
structure Ledger (σ ι α τ : Type*) where
  step : σ → ι → σ
  /-- the time of the first sighting -/
  score : σ → α → Option τ
  cursor : σ → τ
  /-- what the step examines, when it is a pass -/
  examined : σ → ι → Option (List α)

namespace Ledger

variable {σ ι α τ : Type*} [LinearOrder τ] [BEq α] (L : Ledger σ ι α τ)

/-- How often the passes of a run examine an item. -/
def counts (x : α) : σ → List ι → List Nat
  | _, [] => []
  | s, i :: is => ((L.examined s i).map (·.count x)).toList ++ counts x (L.step s i) is

/-- What a step does to the sightings and to the cursor. -/
structure Regular (s : σ) (i : ι) : Prop where
  keeps : ∀ x t, L.score s x = some t → L.score (L.step s i) x = some t
  above : ∀ x t, L.score s x = none → L.score (L.step s i) x = some t → L.cursor s < t
  rests : L.examined s i = none → L.cursor (L.step s i) = L.cursor s
  examines : ∀ xs ∈ L.examined s i, ∀ x,
    xs.count x = if (L.score (L.step s i) x).any (L.cursor s < ·) then 1 else 0
  passes : ∀ xs ∈ L.examined s i, ∀ x t,
    L.score (L.step s i) x = some t → t ≤ L.cursor (L.step s i)

/-- The first of the passes examines the item once, the others do not. -/
def Once (counts : List Nat) : Prop := counts = [] ∨ ∃ rest, counts = 1 :: rest ∧ ∀ n ∈ rest, n = 0

/-- The item lies above the cursor. -/
def Waiting (s : σ) (x : α) : Prop := ∃ t, L.score s x = some t ∧ L.cursor s < t

/-- The cursor has passed the item. -/
def Read (s : σ) (x : α) : Prop := ∃ t, L.score s x = some t ∧ t ≤ L.cursor s

variable {L} {s : σ} {i : ι} {is pre post : List ι} {x : α}

/-! ### One step -/

theorem read_of_pass {xs : List α} (h : L.Regular s i) (hpass : L.examined s i = some xs)
    (hx : (L.score (L.step s i) x).isSome) : L.Read (L.step s i) x := by
  obtain ⟨t, ht⟩ := Option.isSome_iff_exists.mp hx
  exact ⟨t, ht, h.passes xs hpass x t ht⟩

theorem read_step (h : L.Regular s i) (hx : L.Read s x) : L.Read (L.step s i) x := by
  obtain ⟨t, ht, hle⟩ := hx
  have ht' := h.keeps x t ht
  cases hpass : L.examined s i with
  | none => exact ⟨t, ht', by rw [h.rests hpass]; exact hle⟩
  | some xs => exact read_of_pass h hpass (by rw [ht']; rfl)

theorem waiting_step (h : L.Regular s i) (hrest : L.examined s i = none) (hx : L.Waiting s x) :
    L.Waiting (L.step s i) x := by
  obtain ⟨t, ht, hlt⟩ := hx
  exact ⟨t, h.keeps x t ht, by rw [h.rests hrest]; exact hlt⟩

/-- A pass does not examine what the cursor has passed. -/
theorem count_of_read {xs : List α} (h : L.Regular s i) (hpass : L.examined s i = some xs)
    (hx : L.Read s x) : xs.count x = 0 := by
  obtain ⟨t, ht, hle⟩ := hx
  rw [h.examines xs hpass x, h.keeps x t ht]
  simp [not_lt.mpr hle]

theorem count_of_above {xs : List α} (h : L.Regular s i) (hpass : L.examined s i = some xs)
    {t : τ} (ht : L.score (L.step s i) x = some t) (hlt : L.cursor s < t) : xs.count x = 1 := by
  rw [h.examines xs hpass x, ht]
  simp [hlt]

/-! ### Runs -/

omit [LinearOrder τ] in
theorem counts_cons_of_rest (hrest : L.examined s i = none) :
    L.counts x s (i :: is) = L.counts x (L.step s i) is := by
  rw [counts, hrest]
  rfl

omit [LinearOrder τ] in
theorem counts_cons_of_pass {xs : List α} (hpass : L.examined s i = some xs) :
    L.counts x s (i :: is) = xs.count x :: L.counts x (L.step s i) is := by
  rw [counts, hpass]
  rfl

theorem meets_step (h : Meets L.step L.Regular s (i :: is)) :
    L.Regular s i ∧ Meets L.step L.Regular (L.step s i) is := by
  refine ⟨h [] i is rfl, ?_⟩
  intro pre j post heq
  exact h (i :: pre) j post (by rw [heq]; rfl)

/-- What the cursor has passed is not examined again. -/
theorem counts_of_read (h : Meets L.step L.Regular s is) (hx : L.Read s x) :
    ∀ n ∈ L.counts x s is, n = 0 := by
  induction is generalizing s with
  | nil =>
    intro n hn
    cases hn
  | cons i is ih =>
    obtain ⟨hi, his⟩ := meets_step h
    have hlater := ih his (read_step hi hx)
    cases hpass : L.examined s i with
    | none =>
      rw [counts_cons_of_rest hpass]
      exact hlater
    | some xs =>
      rw [counts_cons_of_pass hpass, count_of_read hi hpass hx]
      intro n hn
      rcases List.mem_cons.mp hn with rfl | hn
      · rfl
      · exact hlater n hn

/-- What lies above the cursor is examined by the next pass. -/
theorem counts_of_waiting (h : Meets L.step L.Regular s is) (hx : L.Waiting s x) :
    Once (L.counts x s is) := by
  induction is generalizing s with
  | nil => exact Or.inl rfl
  | cons i is ih =>
    obtain ⟨hi, his⟩ := meets_step h
    cases hpass : L.examined s i with
    | none =>
      rw [counts_cons_of_rest hpass]
      exact ih his (waiting_step hi hpass hx)
    | some xs =>
      obtain ⟨t, ht, hlt⟩ := hx
      have ht' := hi.keeps x t ht
      rw [counts_cons_of_pass hpass, count_of_above hi hpass ht' hlt]
      exact Or.inr ⟨_, rfl, counts_of_read his (read_of_pass hi hpass (by rw [ht']; rfl))⟩

/-- An item that has no sighting yet has not been examined. -/
theorem counts_of_unseen (h : Meets L.step L.Regular s is)
    (hx : L.score (run L.step s is) x = none) : ∀ n ∈ L.counts x s is, n = 0 := by
  have hkept : ∀ (s : σ) (is : List ι), Meets L.step L.Regular s is →
      L.score (run L.step s is) x = none → L.score s x = none := by
    intro s is his hnone
    by_contra hsome
    obtain ⟨t, ht⟩ := Option.ne_none_iff_exists'.mp hsome
    have hrun : L.score (run L.step s is) x = some t :=
      run_invariant_of_meets (P := fun s => L.score s x = some t)
        (fun s i hi hs => hi.keeps x t hs) ht his
    rw [hnone] at hrun
    cases hrun
  induction is generalizing s with
  | nil =>
    intro n hn
    cases hn
  | cons i is ih =>
    obtain ⟨hi, his⟩ := meets_step h
    have hlater := ih his hx
    cases hpass : L.examined s i with
    | none =>
      rw [counts_cons_of_rest hpass]
      exact hlater
    | some xs =>
      rw [counts_cons_of_pass hpass, hi.examines xs hpass x, hkept _ _ his hx]
      intro n hn
      rcases List.mem_cons.mp hn with rfl | hn
      · rfl
      · exact hlater n hn

/-- **Every item is examined exactly once**, in the first pass after the step
    that adds its sighting. -/
theorem exactly_once (h : Meets L.step L.Regular s (pre ++ i :: post))
    (hnone : L.score (run L.step s pre) x = none)
    (hsome : (L.score (L.step (run L.step s pre) i) x).isSome) :
    (∀ n ∈ L.counts x s pre, n = 0) ∧ Once (L.counts x (run L.step s pre) (i :: post)) := by
  refine ⟨counts_of_unseen (h.of_initial (List.prefix_append pre _)) hnone, ?_⟩
  have hrest : Meets L.step L.Regular (run L.step s pre) (i :: post) := by
    intro mid j later heq
    have hj := h (pre ++ mid) j later (by rw [heq, List.append_assoc])
    rwa [run_append] at hj
  obtain ⟨hi, hpost⟩ := meets_step hrest
  obtain ⟨t, ht⟩ := Option.isSome_iff_exists.mp hsome
  have habove := hi.above x t hnone ht
  cases hpass : L.examined (run L.step s pre) i with
  | none =>
    rw [counts_cons_of_rest hpass]
    exact counts_of_waiting hpost ⟨t, ht, by rw [hi.rests hpass]; exact habove⟩
  | some xs =>
    rw [counts_cons_of_pass hpass, count_of_above hi hpass ht habove]
    exact Or.inr ⟨_, rfl, counts_of_read hpost (read_of_pass hi hpass hsome)⟩

end Ledger

end Sightings
