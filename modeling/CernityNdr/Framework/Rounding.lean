import Mathlib.Algebra.Order.BigOperators.Group.List
import Mathlib.Algebra.Order.Floor.Ring
import Mathlib.Data.Int.Log
import Mathlib.Data.Rat.Floor

/-! # Rounding to Decimal Places

    `round(x, n)` in exact arithmetic: to the nearest multiple of `10 ^ -n`,
    and from the middle of two to the even one. Rounding is monotone.

    An `Arithmetic` rounds the result of every operation; `exact` and
    `binary64` are two of them. -/

namespace Rounding

variable {K : Type*} [Field K] [LinearOrder K] [FloorRing K]

/-- `round(x)`. -/
def roundEven (x : K) : Int :=
  if 1 / 2 < Int.fract x ∨ Int.fract x = 1 / 2 ∧ ⌊x⌋ % 2 = 1 then ⌊x⌋ + 1 else ⌊x⌋

/-- `round(x, n)`. -/
def roundTo (n : Nat) (x : K) : K := roundEven (x * 10 ^ n) / 10 ^ n

variable {x y : K}

theorem floor_le_roundEven (x : K) : ⌊x⌋ ≤ roundEven x := by
  unfold roundEven
  split
  · omega
  · exact le_rfl

theorem roundEven_le_floor (x : K) : roundEven x ≤ ⌊x⌋ + 1 := by
  unfold roundEven
  split
  · exact le_rfl
  · omega

variable [IsStrictOrderedRing K]

theorem roundEven_mono (h : x ≤ y) : roundEven x ≤ roundEven y := by
  rcases (Int.floor_mono h).lt_or_eq with hlt | heq
  · exact (roundEven_le_floor x).trans ((Int.add_one_le_iff.mpr hlt).trans (floor_le_roundEven y))
  · -- between the same two integers the fractions decide
    have hfract : Int.fract x ≤ Int.fract y := by
      unfold Int.fract
      rw [heq]
      exact sub_le_sub_right h _
    by_cases hx : 1 / 2 < Int.fract x ∨ Int.fract x = 1 / 2 ∧ ⌊x⌋ % 2 = 1
    · have hy : 1 / 2 < Int.fract y ∨ Int.fract y = 1 / 2 ∧ ⌊y⌋ % 2 = 1 := by
        rcases hx with hhigh | ⟨hhalf, hodd⟩
        · exact Or.inl (hhigh.trans_le hfract)
        · rcases (hhalf ▸ hfract).lt_or_eq with hhigh | hhalf'
          · exact Or.inl hhigh
          · exact Or.inr ⟨hhalf'.symm, heq ▸ hodd⟩
      rw [roundEven, roundEven, if_pos hx, if_pos hy, heq]
    · rw [roundEven, if_neg hx, heq]
      exact floor_le_roundEven y

theorem roundTo_mono (n : Nat) (h : x ≤ y) : roundTo n x ≤ roundTo n y := by
  have hten : (0 : K) < 10 ^ n := by positivity
  unfold roundTo
  gcongr
  exact roundEven_mono (by gcongr)

theorem roundTo_nonneg (n : Nat) (h : 0 ≤ x) : 0 ≤ roundTo n x := by
  have hten : (0 : K) < 10 ^ n := by positivity
  have hfloor : 0 ≤ ⌊x * 10 ^ n⌋ := Int.floor_nonneg.mpr (by positivity)
  have hround : (0 : K) ≤ roundEven (x * 10 ^ n) := by
    exact_mod_cast hfloor.trans (floor_le_roundEven _)
  unfold roundTo
  positivity

theorem abs_roundEven_sub_le (x : K) : |(roundEven x : K) - x| ≤ 1 / 2 := by
  have hsplit := Int.floor_add_fract x
  have hnonneg := Int.fract_nonneg x
  have hlt := Int.fract_lt_one x
  unfold roundEven
  split
  next h =>
    have hhalf : 1 / 2 ≤ Int.fract x := by
      rcases h with hhigh | ⟨hhalf, -⟩
      · exact hhigh.le
      · exact hhalf.ge
    rw [Int.cast_add, Int.cast_one, abs_le]
    constructor <;> linarith
  next h =>
    have hhalf : Int.fract x ≤ 1 / 2 := not_lt.mp fun hhigh => h (Or.inl hhigh)
    rw [abs_le]
    constructor <;> linarith

/-- **The error** of a rounding. -/
theorem abs_roundTo_sub_le (n : Nat) (x : K) : |roundTo n x - x| ≤ 1 / 2 / 10 ^ n := by
  have hten : (0 : K) < 10 ^ n := by positivity
  have hscaled : roundTo n x - x = (roundEven (x * 10 ^ n) - x * 10 ^ n) / 10 ^ n := by
    unfold roundTo
    field_simp
  rw [hscaled, abs_div, abs_of_pos hten]
  exact div_le_div_of_nonneg_right (abs_roundEven_sub_le _) hten.le

theorem roundTo_natCast (n m : Nat) : roundTo n (m : K) = m := by
  have hten : (10 ^ n : K) ≠ 0 := by positivity
  have hcast : (m : K) * 10 ^ n = ((m * 10 ^ n : Nat) : K) := by push_cast; rfl
  rw [roundTo, hcast, roundEven, Int.fract_natCast, Int.floor_natCast, if_neg (by norm_num)]
  rw [Int.cast_natCast, ← hcast, mul_div_cancel_right₀ _ hten]

/-- The errors of the roundings of a list add up. -/
theorem abs_sum_roundTo_sub_le {β : Type*} (n : Nat) (f : β → K) (l : List β) :
    |(l.map fun b => roundTo n (f b)).sum - (l.map f).sum| ≤ l.length * (1 / 2 / 10 ^ n) := by
  induction l with
  | nil => simp
  | cons b l ih =>
    have herror := abs_roundTo_sub_le n (f b)
    rw [List.map_cons, List.sum_cons, List.map_cons, List.sum_cons, add_sub_add_comm, List.length_cons,
      Nat.cast_add, Nat.cast_one, add_mul, one_mul, add_comm (_ * _)]
    exact (abs_add_le _ _).trans (add_le_add herror ih)

/-! ### Floating point -/

/-- An arithmetic: what the exact result of an operation is rounded to, and
    the sum of a list. -/
structure Arithmetic (K : Type*) where
  round : K → K
  sum : List K → K

/-- Rounding is monotone and keeps zero and what is rounded; a sum is not
    lowered by a larger term, or by one more that is not negative. -/
structure Arithmetic.Lawful (A : Arithmetic K) : Prop where
  round_mono : Monotone A.round
  round_zero : A.round 0 = 0
  round_round : ∀ x, A.round (A.round x) = A.round x
  sum_mono : ∀ xs ys, List.Forall₂ (· ≤ ·) xs ys → A.sum xs ≤ A.sum ys
  sum_snoc : ∀ xs x, 0 ≤ x → A.sum xs ≤ A.sum (xs ++ [x])

def exact : Arithmetic K := ⟨id, List.sum⟩

omit [FloorRing K] in
theorem exact_lawful : (exact : Arithmetic K).Lawful where
  round_mono := monotone_id
  round_zero := rfl
  round_round _ := rfl
  sum_mono _ _ h := List.Forall₂.sum_le_sum h
  sum_snoc xs x hx := by
    show xs.sum ≤ (xs ++ [x]).sum
    rw [List.sum_append, List.sum_singleton]
    exact le_add_of_nonneg_right hx

omit [FloorRing K] [IsStrictOrderedRing K] in
theorem Arithmetic.Lawful.round_nonneg {A : Arithmetic K} (hA : A.Lawful) (h : 0 ≤ x) : 0 ≤ A.round x :=
  hA.round_zero.symm.trans_le (hA.round_mono h)

/-- The last place of a number with 53 binary digits. -/
def ulp (x : ℚ) : ℚ := 2 ^ (Int.log 2 |x| - 52)

/-- The arithmetic of `float`, within the normal numbers: to the nearest number
    with 53 binary digits, in the middle of two to the even one. -/
def binary64 : Arithmetic ℚ where
  round x := roundEven (x / ulp x) * ulp x
  sum xs := roundEven (xs.sum / ulp xs.sum) * ulp xs.sum

end Rounding
