import Mathlib.Algebra.Order.BigOperators.Group.Finset
import Mathlib.Algebra.GroupWithZero.Nat

/-! # Cumulative Readings

    Readings of several meters, each of the whole amount that its meter has
    counted so far. A meter's final amount is the greatest of its readings, so
    a reading that comes again and a reading that is out of date do not count;
    adding up all readings counts them.

    * `total_le_sum`: the sum of all readings is an upper bound of the final
      amounts.
    * `total_eq_sum_iff`: it is exact when no meter has two readings. -/

namespace Cumulative

variable {α κ : Type*} [DecidableEq κ] (meter : α → κ) (amount : α → ℕ)

/-- The greatest reading of a meter. -/
def final (k : κ) (l : List α) : ℕ := ((l.filter fun a => meter a = k).map amount).foldr max 0

/-- The final amounts of all meters, together. -/
def total (l : List α) : ℕ := ∑ k ∈ (l.map meter).toFinset, final meter amount k l

variable {meter amount} {k : κ} {a : α} {l : List α}

theorem final_cons_self : final meter amount (meter a) (a :: l) =
    max (amount a) (final meter amount (meter a) l) := by
  simp [final]

theorem final_cons_of_ne (h : meter a ≠ k) : final meter amount k (a :: l) = final meter amount k l := by
  simp [final, h]

theorem final_eq_zero_iff : final meter amount k l = 0 ↔ ∀ a ∈ l, meter a = k → amount a = 0 := by
  induction l with
  | nil => simp [final]
  | cons a l ih =>
    by_cases hk : meter a = k
    · subst hk
      rw [final_cons_self, Nat.max_eq_zero_iff, ih]
      simp
    · rw [final_cons_of_ne hk, ih]
      simp [hk]

theorem total_eq_sum_of_subset {s : Finset κ} (h : (l.map meter).toFinset ⊆ s) :
    total meter amount l = ∑ k ∈ s, final meter amount k l := by
  refine Finset.sum_subset h fun k _ hk => ?_
  refine final_eq_zero_iff.mpr fun a ha hka => ?_
  exact absurd (List.mem_toFinset.mpr (List.mem_map.mpr ⟨a, ha, hka⟩)) hk

variable (meter amount) in
/-- One more reading adds what it is above the readings before it. -/
theorem total_cons (a : α) (l : List α) : total meter amount (a :: l) + min (amount a) (final meter amount (meter a) l) =
    amount a + total meter amount l := by
  have hmem : meter a ∈ ((a :: l).map meter).toFinset := by simp
  have hsub : (l.map meter).toFinset ⊆ ((a :: l).map meter).toFinset := by
    intro k hk
    rw [List.map_cons, List.toFinset_cons]
    exact Finset.mem_insert_of_mem hk
  have hrest : ∑ k ∈ ((a :: l).map meter).toFinset.erase (meter a), final meter amount k (a :: l) =
      ∑ k ∈ ((a :: l).map meter).toFinset.erase (meter a), final meter amount k l :=
    Finset.sum_congr rfl fun k hk => final_cons_of_ne (Finset.ne_of_mem_erase hk).symm
  rw [total_eq_sum_of_subset hsub, total, ← Finset.add_sum_erase _ _ hmem,
    ← Finset.add_sum_erase _ (fun k => final meter amount k l) hmem, hrest, final_cons_self]
  omega

variable (meter amount) in
theorem total_le_sum (l : List α) : total meter amount l ≤ (l.map amount).sum := by
  induction l with
  | nil => simp [total]
  | cons a l ih =>
    have hcons := total_cons meter amount a l
    rw [List.map_cons, List.sum_cons]
    omega

/-- Adding up the readings is exact when no two readings of one meter have an
    amount. -/
theorem total_eq_sum_iff : total meter amount l = (l.map amount).sum ↔
    l.Pairwise fun a b => meter b = meter a → amount a = 0 ∨ amount b = 0 := by
  induction l with
  | nil => simp [total]
  | cons a l ih =>
    have hcons := total_cons meter amount a l
    have hle := total_le_sum meter amount l
    have hzero : min (amount a) (final meter amount (meter a) l) = 0 ↔
        ∀ b ∈ l, meter b = meter a → amount a = 0 ∨ amount b = 0 := by
      rw [Nat.min_eq_zero_iff, final_eq_zero_iff]
      by_cases ha : amount a = 0
      · simp [ha]
      · simp [ha]
    rw [List.pairwise_cons, ← ih, ← hzero, List.map_cons, List.sum_cons]
    omega

end Cumulative
