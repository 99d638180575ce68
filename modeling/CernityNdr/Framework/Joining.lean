import Mathlib.Algebra.Order.BigOperators.Group.List
import Mathlib.Algebra.Order.Ring.Nat

/-! # Joined Fields

    Fields that are joined by a separator: the fields are read back when none
    of them contains it, and two lists of as many fields with one text are
    one list as soon as the fields of one of them are free of it. -/

namespace Joining

/-! ### The first separator -/

section Cut

variable {α : Type*} [DecidableEq α] {c : α} {l m : List α}

/-- What stands before the first separator, and what stands behind it. -/
def cut (c : α) (l : List α) : List α × List α :=
  (l.takeWhile (· ≠ c), (l.dropWhile (· ≠ c)).drop 1)

theorem cut_append (h : c ∉ l) : cut c (l ++ c :: m) = (l, m) := by
  have hne : ∀ x ∈ l, (decide (x ≠ c)) = true := by
    intro x hx
    simp only [ne_eq, decide_eq_true_eq]
    rintro rfl
    exact h hx
  unfold cut
  rw [List.takeWhile_append_of_pos hne, List.dropWhile_append_of_pos hne]
  simp

theorem not_mem_cut_fst : c ∉ (cut c l).1 := by
  intro hc
  have hall := List.all_takeWhile (p := fun x => decide (x ≠ c)) (l := l)
  exact absurd rfl (of_decide_eq_true (List.all_eq_true.mp hall c hc))

/-- Two texts that are one text are cut alike. -/
theorem cut_inj {l' m' : List α} (h : c ∉ l) (h' : c ∉ l') (heq : l ++ c :: m = l' ++ c :: m') :
    l = l' ∧ m = m' := by
  have hcut := congrArg (cut c) heq
  rw [cut_append h, cut_append h'] at hcut
  exact Prod.mk.injEq .. ▸ hcut

/-- What is cut off is what was put before a separator exactly when there is
    no other one in it. -/
theorem cut_append_fst_eq_iff : (cut c (l ++ c :: m)).1 = l ↔ c ∉ l := by
  constructor
  · intro heq hmem
    rw [← heq] at hmem
    exact not_mem_cut_fst hmem
  · intro h
    rw [cut_append h]

/-! ### The two sides of a separator -/

/-- The two sides of the first separator, if there is one. -/
def first? (c : α) (l : List α) : Option (List α × List α) := if c ∈ l then some (cut c l) else none

theorem first?_append (h : c ∉ l) : first? c (l ++ c :: m) = some (l, m) := by
  rw [first?, if_pos (by simp), cut_append h]

theorem first?_of_notMem (h : c ∉ l) : first? c l = none := if_neg h

theorem first?_eq_none : first? c l = none ↔ c ∉ l := by simp [first?]

theorem first?_eq_some {a b : List α} : first? c l = some (a, b) ↔ c ∉ a ∧ l = a ++ c :: b := by
  constructor
  · intro h
    have hmem : c ∈ l := by
      by_contra hnot
      rw [first?_of_notMem hnot] at h
      cases h
    obtain ⟨a', b', rfl, hfree⟩ := List.eq_append_cons_of_mem hmem
    rw [first?_append hfree] at h
    cases h
    exact ⟨hfree, rfl⟩
  · rintro ⟨hfree, rfl⟩
    exact first?_append hfree

/-- The two sides of the last separator, if there is one. -/
def last? (c : α) (l : List α) : Option (List α × List α) :=
  (first? c l.reverse).map fun s => (s.2.reverse, s.1.reverse)

theorem last?_append (h : c ∉ m) : last? c (l ++ c :: m) = some (l, m) := by
  have hreverse : (l ++ c :: m).reverse = m.reverse ++ c :: l.reverse := by simp
  rw [last?, hreverse, first?_append (by simpa using h)]
  simp

theorem last?_eq_some {a b : List α} : last? c l = some (a, b) ↔ c ∉ b ∧ l = a ++ c :: b := by
  constructor
  · intro h
    obtain ⟨⟨x, y⟩, hfirst, heq⟩ := Option.map_eq_some_iff.mp h
    obtain ⟨rfl, rfl⟩ := Prod.mk.injEq .. ▸ heq
    obtain ⟨hfree, hl⟩ := first?_eq_some.mp hfirst
    refine ⟨by simpa using hfree, ?_⟩
    rw [← List.reverse_reverse l, hl]
    simp
  · rintro ⟨hfree, rfl⟩
    exact last?_append hfree

end Cut

/-! ### All separators -/

variable {α : Type*} [BEq α] [LawfulBEq α] {c : α}

/-- Every separator of the text is in a field or between two. -/
theorem count_intercalate (fields : List (List α)) :
    ([c].intercalate fields).count c =
      (fields.map fun f => f.count c).sum + (fields.length - 1) := by
  induction fields with
  | nil => rfl
  | cons f fields ih =>
    cases fields with
    | nil => simp
    | cons g fields =>
      rw [List.intercalate_cons_cons, List.count_append, List.count_append, ih]
      simp only [List.map_cons, List.sum_cons, List.length_cons, List.count_singleton_self]
      omega

omit [BEq α] [LawfulBEq α] in
/-- A field is a part of the text. -/
theorem subset_intercalate {fields : List (List α)} {f : List α} (hf : f ∈ fields) :
    f ⊆ [c].intercalate fields := by
  induction fields with
  | nil => cases hf
  | cons g fields ih =>
    cases fields with
    | nil =>
      rw [List.mem_singleton.mp hf]
      simp
    | cons g' fields =>
      rw [List.intercalate_cons_cons]
      rcases List.mem_cons.mp hf with rfl | hf
      · simp
      · intro a ha
        exact List.mem_append_right _ (ih hf ha)

omit [BEq α] [LawfulBEq α] in
/-- What is in the text is in a field, or it is a separator. -/
theorem mem_intercalate {fields : List (List α)} {a : α} (h : a ∈ [c].intercalate fields) :
    a = c ∨ ∃ f ∈ fields, a ∈ f := by
  induction fields with
  | nil => cases h
  | cons f fields ih =>
    cases fields with
    | nil => exact Or.inr ⟨f, List.mem_singleton_self f, by simpa using h⟩
    | cons g fields =>
      rw [List.intercalate_cons_cons, List.mem_append, List.mem_append, List.mem_singleton] at h
      rcases h with (h | h) | h
      · exact Or.inr ⟨f, List.mem_cons_self, h⟩
      · exact Or.inl h
      · exact (ih h).imp_right fun ⟨f', hf', ha⟩ => ⟨f', List.mem_cons_of_mem f hf', ha⟩

theorem splitOn_intercalate {fields : List (List α)} (h : ∀ f ∈ fields, c ∉ f) (hne : fields ≠ []) :
    ([c].intercalate fields).splitOn c = fields :=
  List.splitOn_intercalate c h hne

/-- As many fields with the same text are free of the separator together. -/
theorem free_of_intercalate_eq {fields fields' : List (List α)}
    (hlen : fields.length = fields'.length) (h : ∀ f ∈ fields, c ∉ f)
    (heq : [c].intercalate fields = [c].intercalate fields') : ∀ f ∈ fields', c ∉ f := by
  have hzero : (fields.map fun f => f.count c).sum = 0 := by
    refine List.sum_eq_zero fun n hn => ?_
    obtain ⟨f, hf, rfl⟩ := List.mem_map.mp hn
    exact List.count_eq_zero.mpr (h f hf)
  have hcount := congrArg (List.count c) heq
  rw [count_intercalate, count_intercalate, hzero, hlen] at hcount
  intro f hf
  have hle : f.count c ≤ (fields'.map fun f => f.count c).sum :=
    List.single_le_sum (fun _ _ => Nat.zero_le _) _ (List.mem_map.mpr ⟨f, hf, rfl⟩)
  exact List.count_eq_zero.mp (by omega)

/-- The text determines the fields when one of the lists is free of the
    separator. -/
theorem intercalate_injective {fields fields' : List (List α)}
    (hlen : fields.length = fields'.length) (h : ∀ f ∈ fields, c ∉ f)
    (heq : [c].intercalate fields = [c].intercalate fields') : fields = fields' := by
  by_cases hne : fields = []
  · subst hne
    exact (List.length_eq_zero_iff.mp hlen.symm).symm
  · have hne' : fields' ≠ [] := by
      intro hnil
      rw [hnil] at hlen
      exact hne (List.length_eq_zero_iff.mp hlen)
    rw [← splitOn_intercalate h hne, heq,
      splitOn_intercalate (free_of_intercalate_eq hlen h heq) hne']

end Joining
