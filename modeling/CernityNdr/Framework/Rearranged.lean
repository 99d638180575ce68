import Mathlib.Data.List.Perm.Basic

/-! # Rearranged Lists

    `UpTo R l l'`: the items of `l`, in some order, are related one by one to
    the items of `l'`. What a program reads of a list in a way that neither
    the order nor the relation shows is the same for both. -/

namespace Rearranged

variable {α β : Type*} {R : α → α → Prop} {l l' : List α}

/-- The items of `l'` are those of `l` up to `R`, in any order. -/
def UpTo (R : α → α → Prop) (l l' : List α) : Prop := ∃ m, l.Perm m ∧ List.Forall₂ R m l'

theorem upTo_of_perm (hrefl : ∀ a, R a a) (h : l.Perm l') : UpTo R l l' :=
  ⟨l', h, List.forall₂_same.mpr fun a _ => hrefl a⟩

theorem UpTo.mono {S : α → α → Prop} (h : UpTo R l l') (hsub : ∀ a ∈ l, ∀ a', R a a' → S a a') :
    UpTo S l l' := by
  obtain ⟨m, hperm, hall⟩ := h
  refine ⟨m, hperm, ?_⟩
  rw [List.forall₂_iff_get] at hall ⊢
  refine ⟨hall.1, ?_⟩
  intro i hi hi'
  exact hsub _ (hperm.mem_iff.mpr (List.get_mem m ⟨i, hi⟩)) _ (hall.2 i hi hi')

theorem UpTo.length_eq (h : UpTo R l l') : l.length = l'.length := by
  obtain ⟨m, hperm, hall⟩ := h
  rw [hperm.length_eq, hall.length_eq]

theorem UpTo.filter {p : α → Bool} (h : UpTo R l l') (hp : ∀ a a', R a a' → p a = p a') :
    UpTo R (l.filter p) (l'.filter p) := by
  obtain ⟨m, hperm, hall⟩ := h
  refine ⟨m.filter p, hperm.filter p, ?_⟩
  refine List.rel_filter (fun a a' hr => ?_) hall
  show p a = true ↔ p a' = true
  rw [hp a a' hr]

theorem UpTo.countP_eq {p : α → Bool} (h : UpTo R l l') (hp : ∀ a a', R a a' → p a = p a') :
    l.countP p = l'.countP p := by
  rw [List.countP_eq_length_filter, List.countP_eq_length_filter]
  exact (h.filter hp).length_eq

/-- Every item has a partner in the other list. -/
theorem UpTo.exists_right (h : UpTo R l l') {a : α} (ha : a ∈ l) : ∃ a' ∈ l', R a a' := by
  obtain ⟨m, hperm, hall⟩ := h
  have hm : a ∈ m := hperm.mem_iff.mp ha
  clear hperm ha
  induction hall with
  | nil => simp at hm
  | cons hr _ ih =>
    rcases List.mem_cons.mp hm with rfl | hm
    · exact ⟨_, List.mem_cons_self, hr⟩
    · obtain ⟨a', ha', hrel⟩ := ih hm
      exact ⟨a', List.mem_cons_of_mem _ ha', hrel⟩

theorem UpTo.exists_left (h : UpTo R l l') {a' : α} (ha : a' ∈ l') : ∃ a ∈ l, R a a' := by
  obtain ⟨m, hperm, hall⟩ := h
  have hm : ∃ a ∈ m, R a a' := by
    clear hperm
    induction hall with
    | nil => simp at ha
    | cons hr _ ih =>
      rcases List.mem_cons.mp ha with rfl | ha
      · exact ⟨_, List.mem_cons_self, hr⟩
      · obtain ⟨a, ha, hrel⟩ := ih ha
        exact ⟨a, List.mem_cons_of_mem _ ha, hrel⟩
  obtain ⟨a, ha, hrel⟩ := hm
  exact ⟨a, hperm.mem_iff.mpr ha, hrel⟩

end Rearranged
