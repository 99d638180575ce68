import CernityNdr.Framework.Registry
import Mathlib.Algebra.GroupWithZero.Nat

/-! # Grouping

    The items of a list that have a key, in one list for each key: what a
    loop over the items collects that appends each of them to the list of its
    key. A group holds the items of its key in the order of the list. -/

namespace Grouping

variable {κ α : Type*} [DecidableEq κ] (key : α → Option κ)

abbrev Groups (κ α : Type*) := Registry (Prod.fst : κ × List α → κ)

/-- Append one item to the list of its key, which may be a new one. -/
def collect (groups : Groups κ α) (a : α) : Groups κ α :=
  match key a with
  | none => groups
  | some k => groups.put (k, (groups.lookup k).getD [] ++ [a])

def grouped (l : List α) : Groups κ α := l.foldl (collect key) .empty

/-- The items of one key. -/
def members (l : List α) (k : κ) : List α := l.filter (fun a => key a = some k)

variable {key}

theorem lookup_collect (groups : Groups κ α) (a : α) (k : κ) :
    (collect key groups a).lookup k =
      if key a = some k then some ((groups.lookup k).getD [] ++ [a]) else groups.lookup k := by
  rw [collect]
  cases hkey : key a with
  | none => rw [if_neg (by simp)]
  | some k' =>
    show Registry.lookup (groups.put (k', _)) k = _
    rw [Registry.lookup_put]
    by_cases hk : k' = k
    · subst hk
      rw [if_pos rfl, if_pos rfl]
    · rw [if_neg hk, if_neg (by simpa using hk)]

variable (key) in
/-- A group is there exactly when its key has an item, and holds its items. -/
theorem lookup_grouped (l : List α) (k : κ) :
    (grouped key l).lookup k = if members key l k = [] then none else some (members key l k) := by
  have hrun : ∀ groups : Groups κ α, (l.foldl (collect key) groups).lookup k =
      if members key l k = [] then groups.lookup k
      else some ((groups.lookup k).getD [] ++ members key l k) := by
    induction l with
    | nil => intro groups; rfl
    | cons a l ih =>
      intro groups
      rw [List.foldl_cons, ih, lookup_collect]
      by_cases hkey : key a = some k
      · have hcons : members key (a :: l) k = a :: members key l k :=
          List.filter_cons_of_pos (by simp [hkey])
        rw [if_pos hkey, hcons, if_neg (List.cons_ne_nil _ _)]
        split
        · next hnil => rw [hnil]
        · rw [Option.getD_some, List.append_assoc, List.singleton_append]
      · have hcons : members key (a :: l) k = members key l k :=
          List.filter_cons_of_neg (by simp [hkey])
        rw [if_neg hkey, hcons]
  rw [grouped, hrun, Registry.lookup_empty]
  rfl

theorem mem_keys_grouped {l : List α} {k : κ} :
    k ∈ (grouped key l).keys ↔ ∃ a ∈ l, key a = some k := by
  rw [Registry.mem_keys]
  have hlookup := lookup_grouped key l k
  rw [Registry.lookup] at hlookup
  constructor
  · rintro ⟨g, hg⟩
    rw [hg, Option.map_some] at hlookup
    split at hlookup
    · simp at hlookup
    · next hne =>
      obtain ⟨a, ha⟩ := List.exists_mem_of_ne_nil _ hne
      rw [members, List.mem_filter, decide_eq_true_eq] at ha
      exact ⟨a, ha.1, ha.2⟩
  · rintro ⟨a, ha, hkey⟩
    have hne : members key l k ≠ [] :=
      List.ne_nil_of_mem (List.mem_filter.mpr ⟨ha, decide_eq_true hkey⟩)
    rw [if_neg hne] at hlookup
    obtain ⟨g, hg, _⟩ := Option.map_eq_some_iff.mp hlookup
    exact ⟨g, hg⟩

/-- Every group with its key, as the keys came. -/
theorem vals_grouped (l : List α) :
    (grouped key l).vals = (grouped key l).keys.map (fun k => (k, members key l k)) := by
  rw [Registry.keys, List.map_map]
  refine (List.map_id _).symm.trans (List.map_congr_left ?_)
  rintro ⟨k, items⟩ hmem
  have hget : (grouped key l).get? k = some (k, items) := Registry.get?_eq_some.mpr ⟨hmem, rfl⟩
  have hlookup := lookup_grouped key l k
  rw [Registry.lookup, hget, Option.map_some] at hlookup
  split at hlookup
  · simp at hlookup
  · exact Prod.ext rfl (Option.some.inj hlookup)

/-- Two kinds that exclude each other are counted one by one. -/
theorem countP_or_of_disjoint {p q : α → Bool} {l : List α} (h : ∀ a, p a = true → q a = false) :
    l.countP (fun a => p a || q a) = l.countP p + l.countP q := by
  induction l with
  | nil => rfl
  | cons a l ih =>
    rw [List.countP_cons, List.countP_cons, List.countP_cons, ih]
    cases hp : p a with
    | false => simp [Nat.add_assoc]
    | true => simp [h a hp, Nat.add_right_comm]

/-- The groups of some keys hold together what the list holds of them. -/
theorem sum_countP_members (p : α → Bool) (l : List α) {ks : List κ} (h : ks.Nodup) :
    (ks.map fun k => (members key l k).countP p).sum =
      l.countP (fun a => p a && decide (∃ k ∈ ks, key a = some k)) := by
  induction ks with
  | nil => simp
  | cons k ks ih =>
    obtain ⟨hk, hks⟩ := List.nodup_cons.mp h
    rw [List.map_cons, List.sum_cons, ih hks, members, List.countP_filter,
      ← countP_or_of_disjoint]
    · refine List.countP_congr fun a _ => ?_
      simp only [Bool.or_eq_true, Bool.and_eq_true, decide_eq_true_eq, List.exists_mem_cons_iff]
      tauto
    · -- an item of one key has no other
      intro a ha
      rw [Bool.and_eq_true, decide_eq_true_eq] at ha
      rw [Bool.and_eq_false_iff, decide_eq_false_iff_not]
      refine Or.inr ?_
      rintro ⟨k', hk', hkey⟩
      exact hk (Option.some.inj (ha.2.symm.trans hkey) ▸ hk')

/-- Groups that take every item hold the list together. -/
theorem flatMap_members_perm {l : List α} {ks : List κ} (hnodup : ks.Nodup)
    (h : ∀ a ∈ l, ∃ k ∈ ks, key a = some k) : (ks.flatMap (members key l)).Perm l := by
  classical
  rw [List.perm_iff_count]
  intro x
  rw [List.count, List.countP_flatMap]
  show (ks.map fun k => (members key l k).countP (· == x)).sum = l.countP (· == x)
  rw [sum_countP_members _ _ hnodup]
  refine List.countP_congr fun a ha => ?_
  rw [Bool.and_eq_true, decide_eq_true_eq]
  exact and_iff_left (h a ha)

/-- Keys that contribute nothing may be left out of a sum. -/
theorem sum_map_of_subset {f : κ → ℕ} {ks ks' : List κ} (hnodup : ks.Nodup) (hnodup' : ks'.Nodup)
    (hsub : ks ⊆ ks') (h : ∀ k ∈ ks', k ∉ ks → f k = 0) : (ks.map f).sum = (ks'.map f).sum := by
  have hmem : ks.Perm (ks'.filter (fun k => decide (k ∈ ks))) := by
    refine (List.perm_ext_iff_of_nodup hnodup (hnodup'.filter _)).mpr fun k => ?_
    rw [List.mem_filter, decide_eq_true_eq]
    exact ⟨fun hk => ⟨hsub hk, hk⟩, And.right⟩
  have hrest : ((ks'.filter (fun k => !decide (k ∈ ks))).map f).sum = 0 := by
    rw [List.sum_eq_zero_iff_forall_eq_nat]
    intro n hn
    obtain ⟨k, hk, rfl⟩ := List.mem_map.mp hn
    rw [List.mem_filter, Bool.not_eq_true', decide_eq_false_iff_not] at hk
    exact h k hk.1 hk.2
  rw [(hmem.map f).sum_nat,
    ← ((List.filter_append_perm (fun k => decide (k ∈ ks)) ks').map f).sum_nat,
    List.map_append, List.sum_append, hrest, Nat.add_zero]

end Grouping
