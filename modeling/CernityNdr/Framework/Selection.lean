import Mathlib.Data.List.Sort
import CernityNdr.Framework.Registry

/-! # Keyset Cursors

    A list that is strictly sorted by a key, read in pieces: a cursor is a
    key, and what is left after it are the values with a larger key.

    * `append_split`: a condition that is kept by smaller keys cuts the list
      into a front and a rest.
    * `after_last`: what is left after the last value of a front is the rest. -/

namespace Keyset

variable {ν κ : Type*} [LinearOrder κ] {key : ν → κ}

/-- The values in the strict order of their keys. -/
def Ordered (key : ν → κ) (l : List ν) : Prop := l.Pairwise (key · < key ·)

/-- What is left after a cursor. -/
def after (key : ν → κ) (c : κ) (l : List ν) : List ν := l.filter (c < key ·)

variable {l : List ν}

theorem Ordered.filter (h : Ordered key l) (p : ν → Bool) : Ordered key (l.filter p) :=
  List.Pairwise.filter p h

theorem append_split (h : Ordered key l) {p : ν → Bool}
    (hp : ∀ a b, key a < key b → p b = true → p a = true) :
    l = l.filter p ++ l.filter (!p ·) := by
  induction l with
  | nil => rfl
  | cons a l ih =>
    obtain ⟨hfirst, hrest⟩ := List.pairwise_cons.mp h
    by_cases ha : p a = true
    · rw [List.filter_cons_of_pos ha, List.filter_cons_of_neg (by simp [ha]), List.cons_append,
        ← ih hrest]
    · have hnone : l.filter p = [] := by
        rw [List.filter_eq_nil_iff]
        exact fun b hb hpb => ha (hp a b (hfirst b hb) hpb)
      have hall : l.filter (!p ·) = l := by
        rw [List.filter_eq_self]
        intro b hb
        have hpb := List.filter_eq_nil_iff.mp hnone b hb
        simpa using hpb
      rw [List.filter_cons_of_neg ha, List.filter_cons_of_pos (by simpa using ha), hnone, hall,
        List.nil_append]

/-- What is left after the last value of a front. -/
theorem after_last {front rest : List ν} {a : ν} (h : Ordered key (front ++ a :: rest)) :
    after key (key a) (front ++ a :: rest) = rest := by
  obtain ⟨-, htail, hbefore⟩ := List.pairwise_append.mp h
  obtain ⟨hafter, -⟩ := List.pairwise_cons.mp htail
  have hfront : front.filter (key a < key ·) = [] := by
    rw [List.filter_eq_nil_iff]
    intro b hb
    simpa using (hbefore b hb a List.mem_cons_self).le
  have hrest : rest.filter (key a < key ·) = rest := by
    rw [List.filter_eq_self]
    intro b hb
    simpa using hafter b hb
  rw [after, List.filter_append, hfront, List.filter_cons_of_neg (by simp), hrest, List.nil_append]

/-! ### Sorting -/

/-- The list in the order of its keys. -/
def sort (key : ν → κ) (l : List ν) : List ν := l.insertionSort (key · ≤ key ·)

theorem perm_sort (key : ν → κ) (l : List ν) : (sort key l).Perm l := List.perm_insertionSort _ _

theorem sorted_sort (key : ν → κ) (l : List ν) : (sort key l).Pairwise (key · ≤ key ·) := by
  have : Std.Total (fun a b : ν => key a ≤ key b) := ⟨fun a b => le_total _ _⟩
  have : IsTrans ν (fun a b => key a ≤ key b) := ⟨fun a b c => le_trans⟩
  exact List.pairwise_insertionSort _ _

/-- With distinct keys the order is strict. -/
theorem ordered_sort (h : (l.map key).Nodup) : Ordered key (sort key l) := by
  have hnodup : ((sort key l).map key).Nodup := ((perm_sort key l).map key).nodup_iff.mpr h
  refine ((sorted_sort key l).and (List.pairwise_map.mp hnodup)).imp ?_
  intro a b hab
  exact lt_of_le_of_ne hab.1 hab.2

/-- A part of the list sorted is the part of the sorted list. -/
theorem sort_filter (h : (l.map key).Nodup) (p : ν → Bool) :
    sort key (l.filter p) = (sort key l).filter p := by
  have hpart : ((l.filter p).map key).Nodup := h.sublist (List.filter_sublist.map key)
  have : Std.Irrefl (fun a b : ν => key a < key b) := ⟨fun a => lt_irrefl _⟩
  have : Std.Antisymm (fun a b : ν => key a < key b) :=
    ⟨fun a b hab hba => absurd (hab.trans hba) (lt_irrefl _)⟩
  refine (ordered_sort hpart).eq_of_mem_iff ((ordered_sort h).filter p) ?_
  intro a
  rw [(perm_sort key _).mem_iff, List.mem_filter, List.mem_filter, (perm_sort key l).mem_iff]

end Keyset

/-! ## The Least Value of Each Key

    A fold that keeps, for each key, the value of the smallest rank it has
    met. When the rank tells the values of one key apart, what is kept
    depends on the set of values only: not on their order, and not on how
    often each of them comes.

    * `leasts`: the fold.
    * `isLeastOf_of_get?`, `get?_leasts_eq_none`: what is kept under a key.
    * `get?_leasts_congr`: two lists with the same members keep the same. -/

namespace Registry

variable {κ ν ρ : Type*} [DecidableEq κ] [LinearOrder ρ]

/-- Store `v` unless a value of a rank at most as large is there. -/
def keepLeast (keyOf : ν → κ) (rank : ν → ρ) (r : Registry keyOf) (v : ν) : Registry keyOf :=
  match r.get? (keyOf v) with
  | none => r.put v
  | some prev => if rank v < rank prev then r.put v else r

/-- The least value of each key, the keys in the order they come. -/
def leasts (keyOf : ν → κ) (rank : ν → ρ) (l : List ν) : Registry keyOf :=
  l.foldl (keepLeast keyOf rank) .empty

/-- `c` is a value of key `k` in `l`, and none has a smaller rank. -/
def IsLeastOf (keyOf : ν → κ) (rank : ν → ρ) (l : List ν) (k : κ) (c : ν) : Prop :=
  c ∈ l ∧ keyOf c = k ∧ ∀ d ∈ l, keyOf d = k → rank c ≤ rank d

/-- Values of one key and one rank are equal. -/
def RankSeparates (keyOf : ν → κ) (rank : ν → ρ) (l : List ν) : Prop :=
  ∀ c ∈ l, ∀ d ∈ l, keyOf c = keyOf d → rank c = rank d → c = d

variable {keyOf : ν → κ} {rank : ν → ρ}

/-- Only the key of the value that comes can change. -/
theorem get?_keepLeast_ne (r : Registry keyOf) {v : ν} {k : κ} (h : keyOf v ≠ k) :
    (keepLeast keyOf rank r v).get? k = r.get? k := by
  unfold keepLeast
  split
  · exact get?_put_ne r h
  · split
    · exact get?_put_ne r h
    · rfl

/-- Under its own key the smaller of the old value and the new one stays. -/
theorem get?_keepLeast_self (rank : ν → ρ) (r : Registry keyOf) (v : ν) :
    ∃ c, (keepLeast keyOf rank r v).get? (keyOf v) = some c ∧ rank c ≤ rank v ∧
      (∀ prev ∈ r.get? (keyOf v), rank c ≤ rank prev) ∧
      (c = v ∨ r.get? (keyOf v) = some c) := by
  unfold keepLeast
  split
  · next hnone => exact ⟨v, get?_put_self r v, le_rfl, by simp [hnone], Or.inl rfl⟩
  · next prev hprev =>
    by_cases hlt : rank v < rank prev
    · rw [if_pos hlt]
      exact ⟨v, get?_put_self r v, le_rfl, by simp [hprev, hlt.le], Or.inl rfl⟩
    · rw [if_neg hlt]
      exact ⟨prev, hprev, not_lt.mp hlt, by simp [hprev], Or.inr hprev⟩

theorem leasts_append_singleton (l : List ν) (v : ν) :
    leasts keyOf rank (l ++ [v]) = keepLeast keyOf rank (leasts keyOf rank l) v := by
  simp [leasts]

/-- Nothing is kept under a key that no value has. -/
theorem get?_leasts_eq_none {l : List ν} {k : κ} :
    (leasts keyOf rank l).get? k = none ↔ ∀ d ∈ l, keyOf d ≠ k := by
  induction l using List.reverseRecOn with
  | nil => simp [leasts]
  | append_singleton l v ih =>
    rw [leasts_append_singleton]
    by_cases hk : keyOf v = k
    · subst hk
      obtain ⟨c, hc, -⟩ := get?_keepLeast_self rank (leasts keyOf rank l) v
      rw [hc]
      simp
    · rw [get?_keepLeast_ne _ hk, ih]
      constructor
      · intro h d hd
        rcases List.mem_append.mp hd with hd | hd
        · exact h d hd
        · rw [List.mem_singleton.mp hd]; exact hk
      · intro h d hd
        exact h d (List.mem_append.mpr (Or.inl hd))

/-- What is kept under a key is a least value of that key. -/
theorem isLeastOf_of_get? {l : List ν} {k : κ} {c : ν}
    (h : (leasts keyOf rank l).get? k = some c) : IsLeastOf keyOf rank l k c := by
  induction l using List.reverseRecOn generalizing c with
  | nil => simp [leasts] at h
  | append_singleton l v ih =>
    rw [leasts_append_singleton] at h
    by_cases hk : keyOf v = k
    · subst hk
      obtain ⟨w, hw, hwv, hprev, hwhich⟩ :=
        get?_keepLeast_self rank (leasts keyOf rank l) v
      rw [hw] at h
      obtain rfl := Option.some.inj h
      refine ⟨?_, ?_, ?_⟩
      · rcases hwhich with rfl | hold
        · simp
        · simp [(ih hold).1]
      · rcases hwhich with rfl | hold
        · rfl
        · exact (ih hold).2.1
      · intro d hd hdk
        rcases List.mem_append.mp hd with hd | hd
        · -- a value of this key came before, so one was kept
          cases hget : (leasts keyOf rank l).get? (keyOf v) with
          | none => exact absurd hdk (get?_leasts_eq_none.mp hget d hd)
          | some p => exact (hprev p hget).trans ((ih hget).2.2 d hd hdk)
        · rw [List.mem_singleton.mp hd]
          exact hwv
    · rw [get?_keepLeast_ne _ hk] at h
      obtain ⟨hmem, hkey, hleast⟩ := ih h
      refine ⟨by simp [hmem], hkey, ?_⟩
      intro d hd hdk
      rcases List.mem_append.mp hd with hd | hd
      · exact hleast d hd hdk
      · rw [List.mem_singleton.mp hd] at hdk
        exact absurd hdk hk

/-- **Order independence.** Lists with the same members keep the same
    values, provided the rank separates the values of one key. -/
theorem get?_leasts_congr {l₁ l₂ : List ν} (hmem : ∀ c, c ∈ l₁ ↔ c ∈ l₂)
    (hsep : RankSeparates keyOf rank l₁) (k : κ) :
    (leasts keyOf rank l₁).get? k = (leasts keyOf rank l₂).get? k := by
  cases h₁ : (leasts keyOf rank l₁).get? k with
  | none =>
    have hnone := get?_leasts_eq_none.mp h₁
    exact (get?_leasts_eq_none.mpr fun d hd => hnone d ((hmem d).mpr hd)).symm
  | some c =>
    obtain ⟨hc, hck, hcleast⟩ := isLeastOf_of_get? h₁
    cases h₂ : (leasts keyOf rank l₂).get? k with
    | none => exact absurd hck (get?_leasts_eq_none.mp h₂ c ((hmem c).mp hc))
    | some d =>
      obtain ⟨hd, hdk, hdleast⟩ := isLeastOf_of_get? h₂
      have hrank : rank c = rank d :=
        le_antisymm (hcleast d ((hmem d).mpr hd) hdk) (hdleast c ((hmem c).mp hc) hck)
      rw [hsep c hc d ((hmem d).mpr hd) (hck.trans hdk.symm) hrank]

/-- Of values of one rank the first one stays. -/
theorem get?_leasts_cons_of_le {v : ν} {l : List ν}
    (h : ∀ d ∈ l, keyOf d = keyOf v → rank v ≤ rank d) :
    (leasts keyOf rank (v :: l)).get? (keyOf v) = some v := by
  induction l using List.reverseRecOn with
  | nil =>
    simp [leasts, keepLeast]
  | append_singleton l w ih =>
    have hbefore := ih fun d hd => h d (List.mem_append_left _ hd)
    rw [← List.cons_append, leasts_append_singleton]
    by_cases hk : keyOf w = keyOf v
    · have hle : rank v ≤ rank w := h w (by simp) hk
      unfold keepLeast
      rw [hk, hbefore]
      simp only [if_neg hle.not_gt]
      exact hbefore
    · rw [get?_keepLeast_ne _ hk]
      exact hbefore

/-- Values of other keys do not matter. -/
theorem get?_leasts_append_of_none {l₁ l₂ : List ν} {k : κ} (h : ∀ d ∈ l₂, keyOf d ≠ k) :
    (leasts keyOf rank (l₁ ++ l₂)).get? k = (leasts keyOf rank l₁).get? k := by
  induction l₂ using List.reverseRecOn with
  | nil => simp
  | append_singleton l₂ v ih =>
    rw [← List.append_assoc, leasts_append_singleton, get?_keepLeast_ne _ (h v (by simp))]
    exact ih fun d hd => h d (by simp [hd])

/-- A value that ranks before all of its key replaces them. -/
theorem get?_leasts_append_of_lt {l₁ l₂ : List ν} {k : κ} {d : ν} (hd : d ∈ l₂)
    (hk : keyOf d = k) (honly : ∀ e ∈ l₂, keyOf e = k → e = d)
    (hlt : ∀ e ∈ l₁, keyOf e = k → rank d < rank e) :
    (leasts keyOf rank (l₁ ++ l₂)).get? k = some d := by
  cases hget : (leasts keyOf rank (l₁ ++ l₂)).get? k with
  | none => exact absurd hk (get?_leasts_eq_none.mp hget d (by simp [hd]))
  | some c =>
    obtain ⟨hmem, hck, hleast⟩ := isLeastOf_of_get? hget
    have hcd : rank c ≤ rank d := hleast d (by simp [hd]) hk
    rcases List.mem_append.mp hmem with hc | hc
    · exact absurd (hlt c hc hck) (not_lt.mpr hcd)
    · rw [honly c hc hck]

/-! ### Members of registries with the same lookups -/

theorem mem_vals_iff {r : Registry keyOf} {v : ν} : v ∈ r.vals ↔ r.get? (keyOf v) = some v := by
  rw [get?_eq_some]
  simp

theorem mem_vals_congr {r₁ r₂ : Registry keyOf} (h : ∀ k, r₁.get? k = r₂.get? k) (v : ν) :
    v ∈ r₁.vals ↔ v ∈ r₂.vals := by
  rw [mem_vals_iff, mem_vals_iff, h]

section SortedValues

variable {τ : Type*} [LinearOrder τ] {f : κ → τ} (hf : Function.Injective f)

include hf

omit [DecidableEq κ] in
/-- Sorted by their keys, which are distinct, the values are strictly sorted. -/
theorem sort_vals_sorted (r : Registry keyOf) :
    (r.vals.insertionSort (fun a b => f (keyOf a) ≤ f (keyOf b))).Pairwise
      (fun a b => f (keyOf a) < f (keyOf b)) := by
  have hnodup : (r.vals.map fun v => f (keyOf v)).Nodup := by
    have hmap := r.nodup.map hf
    rwa [List.map_map] at hmap
  exact Keyset.ordered_sort hnodup

/-- The values sorted by their keys depend on the lookups only. -/
theorem sort_vals_congr {r₁ r₂ : Registry keyOf} (h : ∀ k, r₁.get? k = r₂.get? k) :
    r₁.vals.insertionSort (fun a b => f (keyOf a) ≤ f (keyOf b)) =
      r₂.vals.insertionSort (fun a b => f (keyOf a) ≤ f (keyOf b)) := by
  have : Std.Irrefl (fun a b : ν => f (keyOf a) < f (keyOf b)) := ⟨fun a => lt_irrefl _⟩
  have : Std.Antisymm (fun a b : ν => f (keyOf a) < f (keyOf b)) :=
    ⟨fun a b hab hba => absurd (hab.trans hba) (lt_irrefl _)⟩
  refine (sort_vals_sorted hf r₁).eq_of_mem_iff (sort_vals_sorted hf r₂) ?_
  intro v
  rw [List.mem_insertionSort, List.mem_insertionSort]
  exact mem_vals_congr h v

end SortedValues

end Registry
