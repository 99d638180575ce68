import Mathlib.Data.List.Basic
import Mathlib.Order.Bounds.Basic
import Mathlib.Order.MinMax
import Mathlib.Order.WithBot

/-! # Gathered Values

    A list that gathers the values of a stream, each of them once, in the
    order of their arrival. What it holds depends on the set of the items of
    the stream only.

    The first and the last item of a stream carry its bounds exactly when no
    item is before the one or behind the other. -/

namespace Gathering

variable {α β : Type*}

/-! ### Gathering -/

section Gather

variable [DecidableEq α]

/-- Append a value unless it is there. -/
def add (l : List α) : Option α → List α
  | none => l
  | some v => if v ∈ l then l else l ++ [v]

theorem mem_add {l : List α} {v : Option α} {x : α} : x ∈ add l v ↔ x ∈ l ∨ v = some x := by
  cases v with
  | none => simp [add]
  | some v =>
    simp only [add, Option.some.injEq]
    split
    · next hmem =>
      constructor
      · exact Or.inl
      · rintro (h | rfl)
        · exact h
        · exact hmem
    · rw [List.mem_append, List.mem_singleton, eq_comm]

/-- What a list gathers of a stream. -/
theorem mem_foldl_add {f : β → Option α} {items : List β} {l : List α} {x : α} :
    x ∈ items.foldl (fun l b => add l (f b)) l ↔ x ∈ l ∨ ∃ b ∈ items, f b = some x := by
  induction items generalizing l with
  | nil => simp
  | cons b items ih => rw [List.foldl_cons, ih, mem_add, or_assoc, List.exists_mem_cons_iff]

end Gather

/-! ### Bounds -/

variable [LinearOrder β]

/-- No item is before the first one, and none behind the last. -/
def Ordered (stamp : α → β) (items : List α) : Prop :=
  (∀ f ∈ items.head?, ∀ x ∈ items, stamp f ≤ stamp x) ∧
    ∀ g ∈ items.getLast?, ∀ x ∈ items, stamp x ≤ stamp g

theorem isLeast_head_iff {stamp : α → β} {items : List α} {f : α} (h : items.head? = some f) :
    IsLeast {t | ∃ x ∈ items, stamp x = t} (stamp f) ↔ ∀ x ∈ items, stamp f ≤ stamp x := by
  constructor
  · intro hleast x hx
    exact hleast.2 ⟨x, hx, rfl⟩
  · intro hle
    refine ⟨⟨f, List.mem_of_head? h, rfl⟩, ?_⟩
    rintro t ⟨x, hx, rfl⟩
    exact hle x hx

theorem isGreatest_last_iff {stamp : α → β} {items : List α} {g : α}
    (h : items.getLast? = some g) :
    IsGreatest {t | ∃ x ∈ items, stamp x = t} (stamp g) ↔ ∀ x ∈ items, stamp x ≤ stamp g := by
  constructor
  · intro hgreatest x hx
    exact hgreatest.2 ⟨x, hx, rfl⟩
  · intro hle
    refine ⟨⟨g, List.mem_of_getLast? h, rfl⟩, ?_⟩
    rintro t ⟨x, hx, rfl⟩
    exact hle x hx

end Gathering

/-! ## The Latest of a List of Ends

    The latest of a list of times, and `⊥` of the empty list. An end that is
    not known is `⊥`. -/

variable {α τ : Type*} [LinearOrder τ]

/-- The latest end. -/
def latestEnd (l : List (WithBot τ)) : WithBot τ := l.foldr max ⊥

theorem latestEnd_le_iff {l : List (WithBot τ)} {x : WithBot τ} :
    latestEnd l ≤ x ↔ ∀ a ∈ l, a ≤ x := by
  induction l with
  | nil => simp [latestEnd]
  | cons a l ih =>
    show max a (latestEnd l) ≤ x ↔ _
    rw [max_le_iff, ih]
    simp

theorem lt_latestEnd_iff {l : List (WithBot τ)} {x : WithBot τ} :
    x < latestEnd l ↔ ∃ a ∈ l, x < a := by
  rw [← not_le, latestEnd_le_iff]
  simp

theorem le_latestEnd {l : List (WithBot τ)} {a : WithBot τ} (h : a ∈ l) : a ≤ latestEnd l :=
  latestEnd_le_iff.mp le_rfl a h

/-- It is one of them. -/
theorem latestEnd_mem {l : List (WithBot τ)} (h : l ≠ []) : latestEnd l ∈ l := by
  induction l with
  | nil => exact absurd rfl h
  | cons a l ih =>
    show max a (latestEnd l) ∈ a :: l
    rcases max_choice a (latestEnd l) with hmax | hmax
    · rw [hmax]
      exact List.mem_cons_self
    · rw [hmax]
      cases l with
      | nil =>
        have hbot : a ≤ latestEnd [] := max_eq_right_iff.mp hmax
        rw [le_bot_iff.mp hbot]
        exact List.mem_cons_self
      | cons b l => exact List.mem_cons_of_mem a (ih (List.cons_ne_nil b l))
