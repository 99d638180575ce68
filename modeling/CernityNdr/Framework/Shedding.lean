import Mathlib.Algebra.BigOperators.Group.List.Basic
import Mathlib.Algebra.GroupWithZero.Nat
import Mathlib.Algebra.Order.Group.Int

/-! # Queues with an Account

    A queue that keeps the sum of the weights of its records beside them, and
    drops records from the front while a condition on that sum and on the
    front holds.

    * `Exact.shed`, `Exact.push`: the account stays exact.
    * `shed_spec`: what is left is an end of the queue, and the condition does
      not hold for it. -/

namespace Shedding

variable {ρ : Type*}

/-- Records, the sum of their weights, and how many were dropped. -/
structure Queue (ρ : Type*) where
  records : List ρ
  size : Int
  dropped : Nat

/-- Drops records from the front while the condition holds. -/
def dropFront (weight : ρ → Nat) (cond : Int → ρ → Bool) : List ρ → Int → Nat → Queue ρ
  | [], size, dropped => ⟨[], size, dropped⟩
  | r :: rs, size, dropped =>
    if cond size r then dropFront weight cond rs (size - weight r) (dropped + 1)
    else ⟨r :: rs, size, dropped⟩

def Queue.shed (weight : ρ → Nat) (cond : Int → ρ → Bool) (q : Queue ρ) : Queue ρ :=
  dropFront weight cond q.records q.size q.dropped

def Queue.push (weight : ρ → Nat) (q : Queue ρ) (r : ρ) : Queue ρ :=
  ⟨q.records ++ [r], q.size + weight r, q.dropped⟩

/-- The account is the sum of the weights. -/
def Queue.Exact (weight : ρ → Nat) (q : Queue ρ) : Prop := q.size = (q.records.map weight).sum

variable {weight : ρ → Nat} {cond : Int → ρ → Bool} {q : Queue ρ}

theorem Queue.Exact.push (h : q.Exact weight) (r : ρ) : (q.push weight r).Exact weight := by
  have hsize : q.size = _ := h
  change q.size + weight r = _
  rw [hsize, Queue.push, List.map_append, List.sum_append]
  simp

/-- What `dropFront` leaves of an exact account. -/
theorem dropFront_spec (l : List ρ) (size : Int) (dropped : Nat) (h : size = (l.map weight).sum) :
    (dropFront weight cond l size dropped).Exact weight ∧
      (dropFront weight cond l size dropped).size ≤ size ∧
      (dropFront weight cond l size dropped).records <:+ l ∧
      ∀ r ∈ (dropFront weight cond l size dropped).records.head?,
        cond (dropFront weight cond l size dropped).size r = false := by
  induction l generalizing size dropped with
  | nil => exact ⟨h, le_rfl, List.suffix_rfl, fun r hr => nomatch hr⟩
  | cons r rs ih =>
    rw [dropFront]
    split
    · have hrest : size - weight r = (rs.map weight).sum := by
        rw [h, List.map_cons, List.sum_cons]
        omega
      obtain ⟨hexact, hle, hsuffix, hstop⟩ := ih (size - weight r) (dropped + 1) hrest
      have hweight : (0 : Int) ≤ weight r := Int.natCast_nonneg _
      exact ⟨hexact, by omega, hsuffix.trans (List.suffix_cons r rs), hstop⟩
    · next hcond =>
      refine ⟨h, le_rfl, List.suffix_rfl, ?_⟩
      intro r' hr'
      obtain rfl := Option.some.inj hr'
      exact Bool.eq_false_iff.mpr hcond

/-- **What is left of a queue.** -/
theorem shed_spec (h : q.Exact weight) : (q.shed weight cond).Exact weight ∧
    (q.shed weight cond).size ≤ q.size ∧ (q.shed weight cond).records <:+ q.records ∧
      ∀ r ∈ (q.shed weight cond).records.head?, cond (q.shed weight cond).size r = false :=
  dropFront_spec q.records q.size q.dropped h

/-- A condition that always holds leaves nothing. -/
theorem shed_eq_nil (h : q.Exact weight) (hcond : ∀ size r, cond size r = true) :
    (q.shed weight cond).records = [] := by
  cases hrecords : (q.shed weight cond).records with
  | nil => rfl
  | cons r rs =>
    have hstop := (@shed_spec _ weight cond q h).2.2.2 r (by rw [hrecords]; rfl)
    rw [hcond] at hstop
    cases hstop

/-- In a queue in the order of its keys, what holds of the first key holds of
    every key. -/
theorem lt_of_lt_head {τ : Type*} [Preorder τ] {key : ρ → τ} {l : List ρ} {c : τ}
    (hsorted : l.Pairwise fun a b => key a ≤ key b) (hhead : ∀ r ∈ l.head?, c < key r) :
    ∀ r ∈ l, c < key r := by
  cases hsorted with
  | nil => exact fun r hr => absurd hr List.not_mem_nil
  | cons hfirst _ =>
    intro r hr
    have hlt := hhead _ rfl
    rcases List.mem_cons.mp hr with rfl | hr
    · exact hlt
    · exact hlt.trans_le (hfirst r hr)

end Shedding
