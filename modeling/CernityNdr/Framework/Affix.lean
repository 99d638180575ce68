import Mathlib.Data.List.Infix
import Mathlib.Data.List.DropRight

/-! # Doubled Separators and Cuts

    A sequence with a separator `c`: where the separator stands twice in a
    row, what is left without these pairs and without the separators at the
    ends, and the cut at the last separator.

    * `hasPair_append`: a pair is on one side of a seam, or across it.
    * `hasPair_dropPairs`: without its pairs a sequence has none. -/

namespace Affix

variable {α : Type*} [DecidableEq α] {c : α} {l m : List α}

/-! ### Pairs -/

/-- The separator stands twice in a row. -/
def hasPair (c : α) : List α → Bool
  | a :: b :: l => (decide (a = c) && decide (b = c)) || hasPair c (b :: l)
  | _ => false

@[simp] theorem hasPair_nil : hasPair c [] = false := rfl

@[simp] theorem hasPair_singleton (a : α) : hasPair c [a] = false := rfl

theorem hasPair_cons (a : α) (l : List α) :
    hasPair c (a :: l) = ((decide (a = c) && decide (l.head? = some c)) || hasPair c l) := by
  cases l with
  | nil => simp
  | cons b l => simp [hasPair]

theorem hasPair_append : hasPair c (l ++ m) =
    (hasPair c l || hasPair c m || (decide (l.getLast? = some c) && decide (m.head? = some c))) := by
  induction l with
  | nil => simp
  | cons a l ih =>
    rw [List.cons_append, hasPair_cons, hasPair_cons, ih]
    cases l with
    | nil =>
      simp only [List.nil_append, List.head?_nil, hasPair_nil, List.getLast?_nil, List.getLast?_singleton,
        Option.some.injEq, reduceCtorEq, decide_false, Bool.and_false, Bool.false_and, Bool.or_false,
        Bool.false_or]
      exact Bool.or_comm _ _
    | cons b l =>
      rw [List.getLast?_cons_cons, List.cons_append, List.head?_cons, List.head?_cons, Bool.or_assoc,
        Bool.or_assoc, Bool.or_assoc]

/-- A part of a sequence without pairs has no pairs. -/
theorem hasPair_of_infix (h : l <:+: m) (hm : hasPair c m = false) : hasPair c l = false := by
  obtain ⟨s, t, rfl⟩ := h
  rw [hasPair_append, hasPair_append] at hm
  simp only [Bool.or_eq_false_iff] at hm
  exact hm.1.1.1.2

/-- A sequence without the separator has no pairs. -/
theorem hasPair_of_notMem (h : c ∉ l) : hasPair c l = false := by
  induction l with
  | nil => rfl
  | cons a l ih =>
    rw [List.mem_cons, not_or] at h
    rw [hasPair_cons, ih h.2, decide_eq_false (Ne.symm h.1)]
    rfl

/-- `s.replace(cc, "")`: the pairs are removed from the left. -/
def dropPairs (c : α) : List α → List α
  | a :: b :: l => if a = c ∧ b = c then dropPairs c l else a :: dropPairs c (b :: l)
  | l => l

theorem dropPairs_sublist (c : α) (l : List α) : (dropPairs c l).Sublist l := by
  fun_induction dropPairs c l with
  | case1 a b l h ih => exact (ih.cons b).cons a
  | case2 a b l h ih => exact ih.cons_cons a
  | case3 l h => exact List.Sublist.refl l

/-- The removal keeps a first element that is no separator. -/
theorem head?_dropPairs {b : α} (hb : b ≠ c) (l : List α) :
    (dropPairs c (b :: l)).head? = some b := by
  cases l with
  | nil => rfl
  | cons a l => rw [dropPairs, if_neg fun h => hb h.1, List.head?_cons]

theorem hasPair_dropPairs (c : α) (l : List α) : hasPair c (dropPairs c l) = false := by
  fun_induction dropPairs c l with
  | case1 a b l h ih => exact ih
  | case2 a b l h ih =>
    rw [hasPair_cons, ih, Bool.or_false]
    by_cases ha : a = c
    · -- what follows a single separator is kept, and is none
      have hb : b ≠ c := fun hb => h ⟨ha, hb⟩
      rw [head?_dropPairs hb]
      simp [hb]
    · simp [ha]
  | case3 l h =>
    cases l with
    | nil => rfl
    | cons a l =>
      cases l with
      | nil => rfl
      | cons b l => exact absurd rfl (h a b l)

/-! ### Ends -/

/-- `s.strip(c)`. -/
def strip (c : α) (l : List α) : List α :=
  (l.dropWhile fun a => a = c).rdropWhile fun a => a = c

theorem strip_infix (c : α) (l : List α) : strip c l <:+: l :=
  (List.rdropWhile_prefix _ _).isInfix.trans (List.dropWhile_suffix _).isInfix

/-! ### The last separator -/

/-- `s.rpartition(c)`: what stands before the last separator and after it. -/
def rpartition (c : α) (l : List α) : List α × List α :=
  if c ∈ l then ((l.rdropWhile fun a => a ≠ c).dropLast, l.rtakeWhile fun a => a ≠ c) else ([], l)

theorem rpartition_of_notMem (h : c ∉ l) : rpartition c l = ([], l) := if_neg h

theorem rpartition_append (hm : c ∉ m) : rpartition c (l ++ c :: m) = (l, m) := by
  have hall : ∀ a ∈ m, (fun a => decide (a ≠ c)) a = true := by
    intro a ha
    exact decide_eq_true fun h => hm (h ▸ ha)
  have hdrop : (l ++ c :: m).rdropWhile (fun a => decide (a ≠ c)) = l ++ [c] := by
    rw [List.append_cons, List.rdropWhile, List.reverse_append,
      List.dropWhile_append_of_pos (by simpa using hall)]
    simp
  have htake : (l ++ c :: m).rtakeWhile (fun a => decide (a ≠ c)) = m := by
    rw [List.append_cons, List.rtakeWhile, List.reverse_append,
      List.takeWhile_append_of_pos (by simpa using hall)]
    simp
  rw [rpartition, if_pos (by simp), hdrop, htake, List.dropLast_concat]

/-- The last separator of a sequence. -/
theorem exists_last (h : c ∈ l) : ∃ root ext, l = root ++ c :: ext ∧ c ∉ ext := by
  induction l with
  | nil => exact absurd h List.not_mem_nil
  | cons a l ih =>
    by_cases hl : c ∈ l
    · obtain ⟨root, ext, heq, hext⟩ := ih hl
      exact ⟨a :: root, ext, by rw [heq]; rfl, hext⟩
    · rcases List.mem_cons.mp h with heq | hmem
      · exact ⟨[], l, by rw [heq]; rfl, hl⟩
      · exact absurd hmem hl

omit [DecidableEq α] in
/-- Two cuts of one sequence at a separator: one of the heads is continued in
    the other. -/
theorem append_cons_eq_append_cons {l' m' : List α} : l ++ c :: m = l' ++ c :: m' ↔
    (l = l' ∧ m = m') ∨ (∃ x, l' = l ++ c :: x ∧ m = x ++ c :: m') ∨
      ∃ x, l = l' ++ c :: x ∧ m' = x ++ c :: m := by
  constructor
  · intro h
    rcases List.append_eq_append_iff.mp h with ⟨x, hl, hm⟩ | ⟨x, hl, hm⟩
    · cases x with
      | nil => exact Or.inl ⟨by rw [hl, List.append_nil], (List.cons.inj hm).2⟩
      | cons a x =>
        obtain ⟨rfl, hrest⟩ := List.cons.inj hm
        exact Or.inr (Or.inl ⟨x, hl, hrest⟩)
    · cases x with
      | nil => exact Or.inl ⟨by rw [hl, List.append_nil], (List.cons.inj hm).2.symm⟩
      | cons a x =>
        obtain ⟨rfl, hrest⟩ := List.cons.inj hm
        exact Or.inr (Or.inr ⟨x, hl, hrest⟩)
  · rintro (⟨rfl, rfl⟩ | ⟨x, rfl, rfl⟩ | ⟨x, rfl, rfl⟩)
    · rfl
    · rw [List.append_assoc, List.cons_append]
    · rw [List.append_assoc, List.cons_append]

/-! ### Components -/

/-- The parts of `s.split(c)` have no separator. -/
theorem notMem_of_mem_splitOn (h : m ∈ l.splitOn c) : c ∉ m := by
  induction l generalizing m with
  | nil =>
    rw [List.splitOn_nil, List.mem_singleton] at h
    rw [h]
    exact List.not_mem_nil
  | cons a l ih =>
    rw [List.splitOn_cons_eq_if_modifyHead] at h
    split at h
    · rcases List.mem_cons.mp h with rfl | h
      · exact List.not_mem_nil
      · exact ih h
    · next hne =>
      obtain ⟨r, rs, hr⟩ := List.exists_cons_of_ne_nil (List.splitOn_ne_nil c l)
      rw [hr, List.modifyHead_cons] at h
      rcases List.mem_cons.mp h with rfl | h
      · rw [List.mem_cons, not_or]
        exact ⟨fun heq => hne (beq_iff_eq.mpr heq.symm), ih (hr ▸ List.mem_cons_self)⟩
      · exact ih (hr ▸ List.mem_cons_of_mem r h)

end Affix
