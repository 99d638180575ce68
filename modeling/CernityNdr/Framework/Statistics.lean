import Mathlib.Algebra.Order.Field.Basic
import Mathlib.Data.List.Sort

/-! # Medians and Deviations

    The median of a list of numbers, the median of the distances from it, the
    least and the greatest value. None of them depends on the order of the
    list. -/

namespace Statistics

variable {K : Type*} [Field K] [LinearOrder K]

/-- `sorted(xs)`. -/
def sorted (xs : List K) : List K := xs.insertionSort (· ≤ ·)

/-- `median(xs)` of at least one number. -/
def median (xs : List K) : K :=
  let data := sorted xs
  let n := data.length
  if n % 2 = 1 then data.getD (n / 2) 0 else (data.getD (n / 2 - 1) 0 + data.getD (n / 2) 0) / (1 + 1)

/-- The median of the distances from `center`. -/
def medianDistance (center : K) (xs : List K) : K := median (xs.map fun x => |x - center|)

/-- `min(xs)` of at least one number. -/
def least (xs : List K) : K := xs.min?.getD 0

/-- `max(xs)` of at least one number. -/
def greatest (xs : List K) : K := xs.max?.getD 0

variable {xs ys : List K}

omit [Field K] in
theorem sorted_congr (h : xs.Perm ys) : sorted xs = sorted ys := by
  have hperm : (sorted xs).Perm (sorted ys) :=
    ((List.perm_insertionSort _ xs).trans h).trans (List.perm_insertionSort _ ys).symm
  exact hperm.eq_of_pairwise' (List.pairwise_insertionSort _ xs) (List.pairwise_insertionSort _ ys)

omit [Field K] in
/-- Nothing is below the first of the sorted values. -/
theorem head_sorted_le (h : sorted xs ≠ []) {x : K} (hx : x ∈ sorted xs) :
    (sorted xs).head h ≤ x := by
  have hpairwise : (sorted xs).Pairwise (· ≤ ·) := List.pairwise_insertionSort _ xs
  rw [← List.cons_head_tail h] at hx hpairwise
  rcases List.mem_cons.mp hx with rfl | hx
  · exact le_rfl
  · exact List.rel_of_pairwise_cons hpairwise hx

theorem median_congr (h : xs.Perm ys) : median xs = median ys := by
  rw [median, median, sorted_congr h]

theorem medianDistance_congr (center : K) (h : xs.Perm ys) :
    medianDistance center xs = medianDistance center ys := median_congr (h.map _)

theorem least_congr (h : xs.Perm ys) : least xs = least ys := by
  have hmin : xs.min? = ys.min? := by
    ext a
    rw [List.min?_eq_some_iff, List.min?_eq_some_iff, h.mem_iff]
    simp only [h.mem_iff]
  rw [least, least, hmin]

theorem greatest_congr (h : xs.Perm ys) : greatest xs = greatest ys := by
  have hmax : xs.max? = ys.max? := by
    ext a
    rw [List.max?_eq_some_iff, List.max?_eq_some_iff, h.mem_iff]
    simp only [h.mem_iff]
  rw [greatest, greatest, hmax]

end Statistics
