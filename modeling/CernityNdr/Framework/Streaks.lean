import Mathlib.Data.List.Chain
import Mathlib.Data.List.Infix

/-! # Streaks

    The longest end of a list in which every item is related to the next one,
    as a loop keeps it that sees one item after the other.

    * `streak_suffix`, `isChain_streak`, `suffix_streak`: it is an end of the
      list, a chain, and every end that is a chain is an end of it. -/

namespace Streaks

variable {α : Type*} (r : α → α → Prop) [DecidableRel r]

/-- The next item continues what is kept, or begins anew. -/
def extend (kept : List α) (x : α) : List α :=
  if ∀ y ∈ kept.getLast?, r y x then kept ++ [x] else [x]

def streak (l : List α) : List α := l.foldl (extend r) []

variable {r} {l : List α} {x : α}

theorem streak_snoc : streak r (l ++ [x]) = extend r (streak r l) x := by
  rw [streak, List.foldl_append]
  rfl

theorem getLast?_extend (kept : List α) : (extend r kept x).getLast? = some x := by
  rw [extend]
  split
  · exact List.getLast?_concat
  · rfl

/-- What is kept ends with the item that was seen last. -/
theorem getLast?_streak (l : List α) : (streak r l).getLast? = l.getLast? := by
  induction l using List.reverseRecOn with
  | nil => rfl
  | append_singleton l x _ => rw [streak_snoc, getLast?_extend, List.getLast?_concat]

theorem streak_suffix (l : List α) : streak r l <:+ l := by
  induction l using List.reverseRecOn with
  | nil => exact List.suffix_refl _
  | append_singleton l x ih =>
    rw [streak_snoc, extend]
    split
    · obtain ⟨pre, hpre⟩ := ih
      exact ⟨pre, by rw [← List.append_assoc, hpre]⟩
    · exact List.suffix_append l [x]

theorem isChain_streak (l : List α) : (streak r l).IsChain r := by
  induction l using List.reverseRecOn with
  | nil => exact List.isChain_nil
  | append_singleton l x ih =>
    rw [streak_snoc, extend]
    split
    · next h =>
      rw [List.isChain_append]
      refine ⟨ih, List.isChain_singleton x, ?_⟩
      intro y hy z hz
      obtain rfl : x = z := by simpa using hz
      exact h y hy
    · exact List.isChain_singleton x

/-- No longer end of the list is a chain. -/
theorem suffix_streak {m : List α} (hsuf : m <:+ l) (hchain : m.IsChain r) : m <:+ streak r l := by
  induction l using List.reverseRecOn generalizing m with
  | nil =>
    rw [List.suffix_nil.mp hsuf]
    exact List.nil_suffix
  | append_singleton l x ih =>
    rcases List.eq_nil_or_concat m with rfl | ⟨n, y, rfl⟩
    · exact List.nil_suffix
    rw [List.concat_eq_append] at hsuf hchain ⊢
    obtain ⟨pre, hpre⟩ := hsuf
    rw [← List.append_assoc] at hpre
    obtain ⟨rfl, hx⟩ := List.append_inj' hpre rfl
    obtain rfl : y = x := by simpa using hx
    rw [List.isChain_append] at hchain
    obtain ⟨hn, -, hlast⟩ := hchain
    have hkept : n <:+ streak r (pre ++ n) := ih (List.suffix_append pre n) hn
    rw [streak_snoc, extend]
    split
    · obtain ⟨front, hfront⟩ := hkept
      exact ⟨front, by rw [← List.append_assoc, hfront]⟩
    · next hbreak =>
      have hnil : n = [] := by
        by_contra hne
        apply hbreak
        intro z hz
        rw [getLast?_streak, List.getLast?_append_of_ne_nil pre hne] at hz
        exact hlast z hz y rfl
      rw [hnil]
      exact List.suffix_refl _

end Streaks
