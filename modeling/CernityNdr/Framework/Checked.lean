import Mathlib.Data.Rat.Floor

/-! # Checked Arithmetic and Access

    Operations of a language that raise: reading an item of a list, dividing,
    taking a remainder. `none` stands for what is raised; an index below zero
    is outside, too.

    * `item_eq_some`, `divide_eq_some`, `modulo_eq_some`: when nothing is
      raised.
    * `mapM_eq_some`: a comprehension none of whose items raises. -/

namespace Checked

variable {α β : Type*}

/-- `xs[i]`. -/
def item (xs : List α) (i : Int) : Option α := if 0 ≤ i then xs[i.toNat]? else none

/-- `xs[i] = f(xs[i])`. -/
def update (f : α → α) (xs : List α) (i : Int) : Option (List α) := do
  let x ← item xs i
  return xs.set i.toNat (f x)

/-- `a / b`. -/
def divide (a b : ℚ) : Option ℚ := if b = 0 then none else some (a / b)

/-- `a % b` of a natural number. -/
def modulo (a b : ℕ) : Option ℕ := if b = 0 then none else some (a % b)

theorem item_eq_some (xs : List α) {i : Int} (h : 0 ≤ i) (hlt : i < xs.length) :
    ∃ x, item xs i = some x := by
  have hlen : i.toNat < xs.length := by omega
  exact ⟨xs[i.toNat], by rw [item, if_pos h, List.getElem?_eq_getElem hlen]⟩

theorem update_eq_some (f : α → α) (xs : List α) {i : Int} (h : 0 ≤ i) (hlt : i < xs.length) :
    ∃ ys, update f xs i = some ys ∧ ys.length = xs.length := by
  obtain ⟨x, hx⟩ := item_eq_some xs h hlt
  refine ⟨xs.set i.toNat (f x), ?_, List.length_set⟩
  simp [update, hx]

theorem divide_eq_some {b : ℚ} (a : ℚ) (h : b ≠ 0) : divide a b = some (a / b) := if_neg h

theorem modulo_eq_some {b : ℕ} (a : ℕ) (h : b ≠ 0) : modulo a b = some (a % b) := if_neg h

/-- A quotient does not see a common factor. -/
theorem divide_mul_left {k : ℚ} (h : k ≠ 0) (a b : ℚ) : divide (k * a) (k * b) = divide a b := by
  unfold divide
  by_cases hb : b = 0
  · rw [if_pos hb, if_pos (by rw [hb, mul_zero])]
  · rw [if_neg hb, if_neg (mul_ne_zero h hb), mul_div_mul_left a b h]

theorem divide_mul (k a b : ℚ) : divide (k * a) b = (divide a b).map (k * ·) := by
  unfold divide
  split
  · rfl
  · rw [mul_div_assoc]
    rfl

/-- `xs.index(x)` of an item. -/
theorem idxOf?_eq_some [DecidableEq α] {xs : List α} {x : α} (h : x ∈ xs) :
    ∃ i, xs.idxOf? x = some i ∧ i < xs.length := by
  induction xs with
  | nil => cases h
  | cons y ys ih =>
    rw [List.idxOf?_cons]
    by_cases hy : y = x
    · exact ⟨0, by simp [hy], by simp⟩
    · obtain ⟨i, hi, hlt⟩ := ih ((List.mem_cons.mp h).resolve_left fun hx => hy hx.symm)
      exact ⟨i + 1, by simp [hy, hi], by simpa using hlt⟩

theorem mapM_eq_some (f : α → Option β) (xs : List α) (h : ∀ x ∈ xs, ∃ y, f x = some y) :
    ∃ ys, xs.mapM f = some ys ∧ ys.length = xs.length := by
  induction xs with
  | nil => exact ⟨[], rfl, rfl⟩
  | cons x xs ih =>
    obtain ⟨y, hy⟩ := h x List.mem_cons_self
    obtain ⟨ys, hys, hlen⟩ := ih fun x hx => h x (List.mem_cons_of_mem _ hx)
    exact ⟨y :: ys, by simp [List.mapM_cons, hy, hys], by simp [hlen]⟩

theorem foldlM_eq_some {P : β → Prop} {f : β → α → Option β} {xs : List α} {b : β} (hb : P b)
    (h : ∀ b, P b → ∀ x ∈ xs, ∃ b', f b x = some b' ∧ P b') :
    ∃ b', xs.foldlM f b = some b' ∧ P b' := by
  induction xs generalizing b with
  | nil => exact ⟨b, rfl, hb⟩
  | cons x xs ih =>
    obtain ⟨b', hb', hP⟩ := h b hb x List.mem_cons_self
    obtain ⟨b'', hb'', hP'⟩ := ih hP fun b hb x hx => h b hb x (List.mem_cons_of_mem _ hx)
    exact ⟨b'', by simp [List.foldlM_cons, hb', hb''], hP'⟩

end Checked
