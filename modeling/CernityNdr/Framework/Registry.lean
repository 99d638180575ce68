import Mathlib.Data.List.Nodup
import Mathlib.Data.List.Infix
import Mathlib.Data.List.Lemmas

/-! # Insertion-Ordered Registries

    A dictionary whose values are stored under a key that the value itself
    determines: `keyOf v` is the key of `v`. Keys are distinct by
    construction and the order of `vals` is the insertion order, as in a
    language whose dictionaries are ordered.

    The operations are `get?`, `put` (replace in place, or append), `pop`,
    `push` (store at the young end) and `trim` (drop from the old end). -/

/-- A list of values with pairwise distinct keys, oldest first. -/
structure Registry {κ ν : Type*} (keyOf : ν → κ) where
  vals : List ν
  nodup : (vals.map keyOf).Nodup

namespace Registry

variable {κ ν : Type*} [DecidableEq κ] {keyOf : ν → κ}

/-! ### Operations -/

/-- The registry without entries. -/
def empty : Registry keyOf := ⟨[], List.nodup_nil⟩

/-- The value stored under `k`. -/
def get? (r : Registry keyOf) (k : κ) : Option ν :=
  r.vals.find? (fun v => keyOf v = k)

/-- The keys, oldest first. -/
def keys (r : Registry keyOf) : List κ := r.vals.map keyOf

/-- Keep the values that satisfy `p`. -/
def filter (r : Registry keyOf) (p : ν → Bool) : Registry keyOf :=
  ⟨r.vals.filter p, r.nodup.sublist (List.filter_sublist.map keyOf)⟩

/-- Remove the value stored under `k`. -/
def pop (r : Registry keyOf) (k : κ) : Registry keyOf :=
  r.filter (fun v => keyOf v ≠ k)

/-- Store `v` under its key at the young end. -/
def push (r : Registry keyOf) (v : ν) : Registry keyOf where
  vals := (r.pop (keyOf v)).vals ++ [v]
  nodup := by
    rw [List.map_append, List.nodup_append]
    refine ⟨(r.pop (keyOf v)).nodup, by simp, ?_⟩
    intro a ha b hb
    obtain ⟨w, hw, rfl⟩ := List.mem_map.mp ha
    simp only [pop, filter, List.mem_filter, decide_eq_true_eq] at hw
    simp only [List.map_cons, List.map_nil, List.mem_singleton] at hb
    exact hb ▸ hw.2

theorem map_replace (l : List ν) (v : ν) :
    (l.map (fun w => if keyOf w = keyOf v then v else w)).map keyOf = l.map keyOf := by
  rw [List.map_map]
  apply List.map_congr_left
  intro w _
  simp only [Function.comp_apply]
  split
  · next h => exact h.symm
  · rfl

/-- Store `v` under its key: in place of the value already there, else at
    the young end. -/
def put (r : Registry keyOf) (v : ν) : Registry keyOf :=
  if keyOf v ∈ r.keys then
    ⟨r.vals.map (fun w => if keyOf w = keyOf v then v else w), by
      rw [map_replace]; exact r.nodup⟩
  else r.push v

/-- Drop values from the old end until at most `n` are left. -/
def trim (r : Registry keyOf) (n : Nat) : Registry keyOf :=
  ⟨r.vals.drop (r.vals.length - n), r.nodup.sublist ((List.drop_sublist _ _).map keyOf)⟩

/-! ### Lookup -/

theorem get?_eq_some {r : Registry keyOf} {k : κ} {v : ν} :
    r.get? k = some v ↔ v ∈ r.vals ∧ keyOf v = k := by
  constructor
  · intro h
    have hk := List.find?_some h
    simp only [decide_eq_true_eq] at hk
    exact ⟨List.mem_of_find?_eq_some h, hk⟩
  · rintro ⟨hv, rfl⟩
    have hsome : (r.get? (keyOf v)).isSome := by
      simp only [get?, List.find?_isSome, decide_eq_true_eq]
      exact ⟨v, hv, rfl⟩
    obtain ⟨w, hw⟩ := Option.isSome_iff_exists.mp hsome
    have hk := List.find?_some hw
    simp only [decide_eq_true_eq] at hk
    rw [hw]
    exact congrArg some (List.inj_on_of_nodup_map r.nodup (List.mem_of_find?_eq_some hw) hv hk)

theorem get?_eq_none {r : Registry keyOf} {k : κ} :
    r.get? k = none ↔ ∀ v ∈ r.vals, keyOf v ≠ k := by
  simp [get?, List.find?_eq_none]

theorem keyOf_of_get? {r : Registry keyOf} {k : κ} {v : ν} (h : r.get? k = some v) :
    keyOf v = k := (get?_eq_some.mp h).2

theorem mem_keys {r : Registry keyOf} {k : κ} : k ∈ r.keys ↔ ∃ v, r.get? k = some v := by
  simp only [keys, List.mem_map, get?_eq_some]

omit [DecidableEq κ] in
theorem keys_nodup (r : Registry keyOf) : r.keys.Nodup := r.nodup

@[simp] theorem get?_empty (k : κ) : (empty : Registry keyOf).get? k = none := rfl

omit [DecidableEq κ] in
@[simp] theorem vals_empty : (empty : Registry keyOf).vals = [] := rfl

/-! ### What each operation leaves under a key -/

theorem get?_filter_eq_some {r : Registry keyOf} {p : ν → Bool} {k : κ} {v : ν} :
    (r.filter p).get? k = some v ↔ r.get? k = some v ∧ p v = true := by
  simp only [get?_eq_some, filter, List.mem_filter]
  exact and_right_comm

@[simp] theorem get?_pop_self (r : Registry keyOf) (k : κ) : (r.pop k).get? k = none := by
  simp [get?_eq_none, pop, filter]

@[simp] theorem get?_pop_ne (r : Registry keyOf) {k k' : κ} (h : k' ≠ k) :
    (r.pop k).get? k' = r.get? k' := by
  ext v
  rw [pop, get?_filter_eq_some]
  constructor
  · exact fun hv => hv.1
  · intro hv
    have hk := keyOf_of_get? hv
    exact ⟨hv, by simp [hk, h]⟩

theorem get?_push (r : Registry keyOf) (v : ν) (k : κ) :
    (r.push v).get? k = if keyOf v = k then some v else r.get? k := by
  ext w
  split
  · next h =>
    subst h
    simp only [get?_eq_some, push, pop, filter, List.mem_append, List.mem_filter,
      List.mem_singleton, decide_eq_true_eq, Option.some.injEq]
    constructor
    · rintro ⟨⟨-, hne⟩ | rfl, hk⟩
      · exact absurd hk hne
      · rfl
    · rintro rfl
      exact ⟨Or.inr rfl, rfl⟩
  · next h =>
    have hpop : (r.pop (keyOf v)).get? k = r.get? k := get?_pop_ne r (fun hk => h hk.symm)
    rw [← hpop]
    simp only [get?_eq_some, push, List.mem_append, List.mem_singleton]
    constructor
    · rintro ⟨hw | rfl, hk⟩
      · exact ⟨hw, hk⟩
      · exact absurd hk h
    · rintro ⟨hw, hk⟩
      exact ⟨Or.inl hw, hk⟩

@[simp] theorem get?_push_self (r : Registry keyOf) (v : ν) :
    (r.push v).get? (keyOf v) = some v := by
  rw [get?_push, if_pos rfl]

theorem get?_put (r : Registry keyOf) (v : ν) (k : κ) :
    (r.put v).get? k = if keyOf v = k then some v else r.get? k := by
  unfold put
  split
  · next hmem =>
    obtain ⟨old, hold⟩ := mem_keys.mp hmem
    obtain ⟨hold, holdk⟩ := get?_eq_some.mp hold
    ext w
    split
    · next h =>
      subst h
      simp only [get?_eq_some, List.mem_map, Option.some.injEq]
      constructor
      · rintro ⟨⟨x, hx, rfl⟩, hk⟩
        split at hk
        · next hxk => simp [hxk]
        · next hxk => exact absurd hk hxk
      · rintro rfl
        exact ⟨⟨old, hold, by simp [holdk]⟩, rfl⟩
    · next h =>
      simp only [get?_eq_some, List.mem_map]
      constructor
      · rintro ⟨⟨x, hx, rfl⟩, hk⟩
        split at hk
        · next hxk => exact absurd hk h
        · next hxk => rw [if_neg hxk]; exact ⟨hx, hk⟩
      · rintro ⟨hw, rfl⟩
        exact ⟨⟨w, hw, if_neg (fun hk => h hk.symm)⟩, rfl⟩
  · exact get?_push r v k

@[simp] theorem get?_put_self (r : Registry keyOf) (v : ν) :
    (r.put v).get? (keyOf v) = some v := by
  rw [get?_put, if_pos rfl]

theorem get?_put_ne (r : Registry keyOf) {v : ν} {k : κ} (h : keyOf v ≠ k) :
    (r.put v).get? k = r.get? k := by
  rw [get?_put, if_neg h]

omit [DecidableEq κ] in
theorem ext_vals {r r' : Registry keyOf} (h : r.vals = r'.vals) : r = r' := by
  obtain ⟨vals, nodup⟩ := r
  obtain ⟨vals', nodup'⟩ := r'
  obtain rfl : vals = vals' := h
  rfl

/-- The values in the order of their keys. -/
theorem vals_eq_filterMap (r : Registry keyOf) : r.vals = r.keys.filterMap r.get? := by
  have hget : ∀ v ∈ r.vals, (r.get? ∘ keyOf) v = some v :=
    fun v hv => get?_eq_some.mpr ⟨hv, rfl⟩
  rw [keys, List.filterMap_map, List.filterMap_congr hget, List.filterMap_some]

/-- The same keys in the same order, and the same values under them. -/
theorem ext_get? {r r' : Registry keyOf} (hkeys : r.keys = r'.keys)
    (h : ∀ k ∈ r.keys, r.get? k = r'.get? k) : r = r' := by
  apply ext_vals
  rw [vals_eq_filterMap r, vals_eq_filterMap r', ← hkeys]
  exact List.filterMap_congr h

theorem keys_put_of_mem {r : Registry keyOf} {v : ν} (h : keyOf v ∈ r.keys) :
    (r.put v).keys = r.keys := by
  unfold put
  rw [if_pos h]
  exact map_replace r.vals v

theorem pop_of_notMem {r : Registry keyOf} {k : κ} (h : k ∉ r.keys) : r.pop k = r := by
  apply ext_vals
  apply List.filter_eq_self.mpr
  intro v hv
  have hne : keyOf v ≠ k := fun hk => h (hk ▸ List.mem_map_of_mem hv)
  simpa using hne

theorem vals_put_of_notMem {r : Registry keyOf} {v : ν} (h : keyOf v ∉ r.keys) :
    (r.put v).vals = r.vals ++ [v] := by
  unfold put
  rw [if_neg h]
  simp only [push, pop_of_notMem h]

theorem keys_put_of_notMem {r : Registry keyOf} {v : ν} (h : keyOf v ∉ r.keys) :
    (r.put v).keys = r.keys ++ [keyOf v] := by
  rw [keys, vals_put_of_notMem h, List.map_append]
  rfl

theorem keys_put (r : Registry keyOf) (v : ν) :
    (r.put v).keys = if keyOf v ∈ r.keys then r.keys else r.keys ++ [keyOf v] := by
  split
  next h => exact keys_put_of_mem h
  next h => exact keys_put_of_notMem h

theorem eraseDups_snoc (l : List κ) (k : κ) :
    (l ++ [k]).eraseDups = if k ∈ l then l.eraseDups else l.eraseDups ++ [k] := by
  rw [List.eraseDups_append]
  by_cases hk : k ∈ l
  · rw [if_pos hk, List.removeAll, List.filter_cons_of_neg (by simpa using hk)]
    exact List.append_nil _
  · rw [if_neg hk, List.removeAll, List.filter_cons_of_pos (by simpa using hk)]
    rfl

/-- The keys of a registry that was filled step by step, in the order in which
    they came. -/
theorem keys_foldl {α : Type*} (step : Registry keyOf → α → Registry keyOf) (key : α → κ)
    (h : ∀ r x, (step r x).keys = if key x ∈ r.keys then r.keys else r.keys ++ [key x])
    (xs : List α) : (xs.foldl step empty).keys = (xs.map key).eraseDups := by
  induction xs using List.reverseRecOn with
  | nil => rfl
  | append_singleton xs x ih =>
    rw [List.foldl_append, List.foldl_cons, List.foldl_nil, h, ih, List.map_append, List.map_singleton,
      eraseDups_snoc]
    simp only [List.mem_eraseDups]

/-- Storing the value that is there changes nothing. -/
theorem put_of_get? {r : Registry keyOf} {v : ν} (h : r.get? (keyOf v) = some v) :
    r.put v = r := by
  have hkeys : keyOf v ∈ r.keys := mem_keys.mpr ⟨v, h⟩
  unfold put
  rw [if_pos hkeys]
  refine ext_vals ((List.map_congr_left fun w hw => ?_).trans (List.map_id _))
  by_cases hw' : keyOf w = keyOf v
  · rw [if_pos hw']
    exact (Option.some.inj ((get?_eq_some.mpr ⟨hw, hw'⟩).symm.trans h)).symm
  · rw [if_neg hw', id]

omit [DecidableEq κ] in
/-- A registry that fits is not trimmed. -/
theorem trim_of_le (r : Registry keyOf) {n : Nat} (h : r.vals.length ≤ n) : r.trim n = r := by
  obtain ⟨vals, nodup⟩ := r
  simp only [trim, mk.injEq]
  rw [Nat.sub_eq_zero_of_le h, List.drop_zero]

/-! ### Many at once -/

/-- Values of distinct keys, stored one after the other. -/
theorem get?_foldl_put (r : Registry keyOf) {l : List ν} (h : (l.map keyOf).Nodup) (k : κ) :
    (l.foldl put r).get? k = (l.find? (fun v => keyOf v = k)).or (r.get? k) := by
  induction l generalizing r with
  | nil => rfl
  | cons v l ih =>
    rw [List.map_cons, List.nodup_cons] at h
    rw [List.foldl_cons, ih (r.put v) h.2, get?_put]
    by_cases hk : keyOf v = k
    · have hnone : l.find? (fun w => keyOf w = k) = none := by
        simp only [List.find?_eq_none, decide_eq_true_eq]
        exact fun w hw hwk => h.1 (List.mem_map.mpr ⟨w, hw, hwk.trans hk.symm⟩)
      rw [if_pos hk, hnone, List.find?_cons_of_pos (by simpa using hk)]
      rfl
    · rw [if_neg hk, List.find?_cons_of_neg (by simpa using hk)]

theorem get?_foldl_pop (r : Registry keyOf) (ks : List κ) (k : κ) :
    (ks.foldl pop r).get? k = if k ∈ ks then none else r.get? k := by
  induction ks generalizing r with
  | nil => simp
  | cons k' ks ih =>
    rw [List.foldl_cons, ih]
    by_cases hk : k = k'
    · subst hk
      simp
    · simp [hk]

/-! ### Members -/

theorem mem_of_mem_pop {r : Registry keyOf} {k : κ} {v : ν} (h : v ∈ (r.pop k).vals) :
    v ∈ r.vals := (List.mem_filter.mp h).1

omit [DecidableEq κ] in
theorem mem_of_mem_trim {r : Registry keyOf} {n : Nat} {v : ν} (h : v ∈ (r.trim n).vals) :
    v ∈ r.vals := List.mem_of_mem_drop h

theorem mem_push {r : Registry keyOf} {v w : ν} (h : w ∈ (r.push v).vals) :
    w ∈ r.vals ∨ w = v := by
  simp only [push, List.mem_append, List.mem_singleton] at h
  exact h.imp (fun h => (List.mem_filter.mp h).1) id

theorem mem_put {r : Registry keyOf} {v w : ν} (h : w ∈ (r.put v).vals) : w ∈ r.vals ∨ w = v := by
  unfold put at h
  split at h
  · obtain ⟨x, hx, rfl⟩ := List.mem_map.mp h
    split
    · exact Or.inr rfl
    · exact Or.inl hx
  · exact mem_push h

/-- Values of one key are equal, so storing one more adds it. -/
theorem mem_put_iff {r : Registry keyOf} {v w : ν} (h : ∀ u ∈ r.vals, keyOf u = keyOf v → u = v) :
    w ∈ (r.put v).vals ↔ w ∈ r.vals ∨ w = v := by
  refine ⟨mem_put, ?_⟩
  have hself : v ∈ (r.put v).vals := (get?_eq_some.mp (get?_put_self r v)).1
  rintro (hw | rfl)
  · by_cases hk : keyOf v = keyOf w
    · rw [h w hw hk.symm]
      exact hself
    · have hget := get?_put_ne r hk
      rw [get?_eq_some.mpr ⟨hw, rfl⟩] at hget
      exact (get?_eq_some.mp hget).1
  · exact hself

/-! ### Dictionaries of pairs

    With `Prod.fst` as the key a registry is a plain dictionary. -/

section Pairs

variable {α β : Type*}

/-- `dict.get(k)`. -/
def lookup (r : Registry (Prod.fst : κ × α → κ)) (k : κ) : Option α := (r.get? k).map Prod.snd

omit [DecidableEq κ] in
theorem map_fst_mapSnd (f : α → β) (l : List (κ × α)) :
    (l.map (fun e => (e.1, f e.2))).map Prod.fst = l.map Prod.fst := by
  rw [List.map_map]
  rfl

/-- A list of pairs as a dictionary, with `f` applied to every value. -/
theorem lookup_map_snd (f : α → β) (l : List (κ × α)) (k : κ) :
    (l.map fun e => (e.1, f e.2)).lookup k = (l.lookup k).map f := by
  induction l with
  | nil => rfl
  | cons e l ih =>
    rw [List.map_cons, List.lookup_cons, List.lookup_cons, ih]
    cases k == e.1 <;> rfl

theorem mem_of_lookup {l : List (κ × α)} {k : κ} {a : α} (h : l.lookup k = some a) : (k, a) ∈ l := by
  obtain ⟨l₁, l₂, rfl, -⟩ := List.lookup_eq_some_iff.mp h
  exact List.mem_append_right l₁ List.mem_cons_self

/-- Apply `f` to every value. -/
def mapSnd (f : α → β) (r : Registry (Prod.fst : κ × α → κ)) :
    Registry (Prod.fst : κ × β → κ) :=
  ⟨r.vals.map (fun e => (e.1, f e.2)), by rw [map_fst_mapSnd]; exact r.nodup⟩

theorem lookup_eq_some {r : Registry (Prod.fst : κ × α → κ)} {k : κ} {a : α} :
    r.lookup k = some a ↔ (k, a) ∈ r.vals := by
  simp only [lookup, Option.map_eq_some_iff, get?_eq_some]
  constructor
  · rintro ⟨⟨k', a'⟩, ⟨hmem, rfl⟩, rfl⟩
    exact hmem
  · intro hmem
    exact ⟨(k, a), ⟨hmem, rfl⟩, rfl⟩

@[simp] theorem lookup_empty (k : κ) :
    (empty : Registry (Prod.fst : κ × α → κ)).lookup k = none := rfl

theorem lookup_put (r : Registry (Prod.fst : κ × α → κ)) (k k' : κ) (a : α) :
    (r.put (k, a)).lookup k' = if k = k' then some a else r.lookup k' := by
  unfold lookup
  rw [get?_put]
  split <;> rfl

theorem lookup_pop (r : Registry (Prod.fst : κ × α → κ)) (k k' : κ) :
    (r.pop k).lookup k' = if k = k' then none else r.lookup k' := by
  unfold lookup
  by_cases hk : k = k'
  · subst hk
    simp
  · rw [if_neg hk, get?_pop_ne r (Ne.symm hk)]

theorem ext_lookup {r r' : Registry (Prod.fst : κ × α → κ)} (hkeys : r.keys = r'.keys)
    (h : ∀ k ∈ r.keys, r.lookup k = r'.lookup k) : r = r' := by
  apply ext_get? hkeys
  intro k hk
  obtain ⟨v, hv⟩ := mem_keys.mp hk
  obtain ⟨v', hv'⟩ := mem_keys.mp (hkeys ▸ hk)
  have hlookup := h k hk
  simp only [lookup, hv, hv', Option.map_some, Option.some.injEq] at hlookup
  rw [hv, hv']
  exact congrArg some (Prod.ext ((keyOf_of_get? hv).trans (keyOf_of_get? hv').symm) hlookup)

theorem lookup_mapSnd (f : α → β) (r : Registry (Prod.fst : κ × α → κ)) (k : κ) :
    (r.mapSnd f).lookup k = (r.lookup k).map f := by
  ext b
  rw [lookup_eq_some, Option.map_eq_some_iff]
  simp only [mapSnd, List.mem_map, Prod.mk.injEq, lookup_eq_some]
  constructor
  · rintro ⟨⟨k', a⟩, hmem, rfl, rfl⟩
    exact ⟨a, hmem, rfl⟩
  · rintro ⟨a, hmem, rfl⟩
    exact ⟨(k, a), hmem, rfl, rfl⟩

theorem lookup_filter (r : Registry (Prod.fst : κ × α → κ)) (p : κ × α → Bool) (k : κ) :
    (r.filter p).lookup k = (r.lookup k).filter fun a => p (k, a) := by
  ext a
  rw [lookup_eq_some, Option.filter_eq_some_iff, lookup_eq_some]
  exact List.mem_filter

end Pairs

/-! ### Sizes and order -/

theorem length_pop_le (r : Registry keyOf) (k : κ) : (r.pop k).vals.length ≤ r.vals.length :=
  List.length_filter_le _ _

theorem length_push_le (r : Registry keyOf) (v : ν) :
    (r.push v).vals.length ≤ r.vals.length + 1 := by
  have h := length_pop_le r (keyOf v)
  simp only [push, List.length_append, List.length_singleton]
  omega

end Registry
