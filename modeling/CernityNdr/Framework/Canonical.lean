import CernityNdr.Framework.Conversion
import CernityNdr.Framework.JsonRoundTrip

/-! # Canonical JSON Text

    `json.dumps` with sorted member names and without white space. The text of
    a value does not depend on the order of members, and says everything else.

    * `canonicalText_eq_iff`: values with one text are the same up to the order
      of members.
    * `get?_sorted`: sorting leaves what `get` finds.
    * `forms_sortedRows`: rows that are sorted by their text no longer
      depend on the order in which they came. -/

namespace Json

/-- The text of a finite value. -/
def canonicalText (v : Json) : String := String.ofList (compact (sortKeys v))

theorem canonicalText_eq_iff {v w : Json} : canonicalText v = canonicalText w ↔ sortKeys v = sortKeys w := by
  constructor
  · exact fun h => compact_injective (String.ofList_injective h)
  · exact fun h => congrArg (fun u => String.ofList (compact u)) h

/-! ### Members -/

/-- The members by their name, with sorted values. -/
def Dict.sorted (d : Dict) : Dict := (sortKeys.members d).insertionSort fun a b => a.1 ≤ b.1

theorem sortKeys_obj (d : Dict) : sortKeys (.obj d) = .obj d.sorted := rfl

theorem sortKeys_arr (xs : List Json) : sortKeys (.arr xs) = .arr (xs.map sortKeys) := by
  rw [sortKeys, sortKeys_items_eq_map]

/-- The members of one name keep their order. -/
theorem Dict.filter_sorted (d : Dict) (key : String) :
    d.sorted.filter (fun m => m.1 = key) = (sortKeys.members d).filter fun m => m.1 = key := by
  have hsame : ((sortKeys.members d).filter fun m => m.1 = key).Pairwise fun a b => a.1 ≤ b.1 := by
    refine List.pairwise_of_forall_mem_list fun a ha b hb => ?_
    have hakey : a.1 = key := by simpa using (List.mem_filter.mp ha).2
    have hbkey : b.1 = key := by simpa using (List.mem_filter.mp hb).2
    exact (hakey.trans hbkey.symm).le
  have hsub := List.sublist_insertionSort hsame List.filter_sublist
  have hfilter := hsub.filter fun m => m.1 = key
  rw [List.filter_filter] at hfilter
  simp only [Bool.and_self] at hfilter
  refine (hfilter.eq_of_length ?_).symm
  exact ((List.perm_insertionSort _ _).filter _).length_eq.symm

theorem Dict.get?_eq_filter (d : Dict) (key : String) :
    d.get? key = ((d.filter fun m => m.1 = key).getLast?).map Prod.snd := by
  rw [Dict.get?, ← List.head?_filter, List.filter_reverse, List.head?_reverse]

theorem Dict.get?_sorted (d : Dict) (key : String) : d.sorted.get? key = (d.get? key).map sortKeys := by
  rw [Dict.get?_eq_filter, Dict.filter_sorted, sortKeys_members_eq_map, List.filter_map,
    List.getLast?_map, Option.map_map, Dict.get?_eq_filter, Option.map_map]
  rfl

theorem Dict.get_sorted (d : Dict) (key : String) : d.sorted.get key = sortKeys (d.get key) := by
  rw [Dict.get, Dict.get?_sorted, Dict.get]
  cases d.get? key <;> rfl

/-- Objects that are the same up to the order of members have the same members. -/
theorem Dict.get?_congr {d e : Dict} (h : sortKeys (.obj d) = sortKeys (.obj e)) (key : String) :
    (d.get? key).map sortKeys = (e.get? key).map sortKeys := by
  rw [sortKeys_obj, sortKeys_obj, Json.obj.injEq] at h
  rw [← Dict.get?_sorted, h, Dict.get?_sorted]

theorem Dict.get_congr {d e : Dict} (h : sortKeys (.obj d) = sortKeys (.obj e)) (key : String) :
    sortKeys (d.get key) = sortKeys (e.get key) := by
  rw [sortKeys_obj, sortKeys_obj, Json.obj.injEq] at h
  rw [← Dict.get_sorted, h, Dict.get_sorted]

/-- Members with the same names and the same values, up to the order of members. -/
theorem sortKeys_obj_congr {d e : Dict}
    (h : List.Forall₂ (fun m n => m.1 = n.1 ∧ sortKeys m.2 = sortKeys n.2) d e) :
    sortKeys (.obj d) = sortKeys (.obj e) := by
  have hmembers : sortKeys.members d = sortKeys.members e := by
    induction h with
    | nil => rfl
    | cons hm _ ih =>
      rw [sortKeys_members_eq_map, List.map_cons, ← sortKeys_members_eq_map, ih, hm.1, hm.2,
        sortKeys_members_eq_map, sortKeys_members_eq_map, List.map_cons]
  rw [sortKeys_obj, sortKeys_obj, Dict.sorted, hmembers, Dict.sorted]

/-! ### What the encoder takes -/

mutual

theorem finite_sortKeys (v : Json) : (sortKeys v).finite = v.finite := by
  cases v with
  | arr xs => exact finite_sortKeys_items xs
  | obj ms =>
    have hperm := List.perm_insertionSort (fun a b : String × Json => a.1 ≤ b.1) (sortKeys.members ms)
    show finite.members _ = finite.members ms
    rw [← finite_sortKeys_members ms, Bool.eq_iff_iff, finite_members, finite_members]
    exact forall_congr' fun m => imp_congr_left hperm.mem_iff
  | _ => rfl

theorem finite_sortKeys_items (xs : List Json) :
    finite.items (sortKeys.items xs) = finite.items xs := by
  cases xs with
  | nil => rfl
  | cons x xs => rw [sortKeys.items, finite.items, finite.items, finite_sortKeys x, finite_sortKeys_items xs]

theorem finite_sortKeys_members (ms : List (String × Json)) :
    finite.members (sortKeys.members ms) = finite.members ms := by
  cases ms with
  | nil => rfl
  | cons m ms =>
    rw [sortKeys.members, finite.members, finite.members, finite_sortKeys m.2,
      finite_sortKeys_members ms]

end

mutual

theorem depth_sortKeys (v : Json) : (sortKeys v).depth = v.depth := by
  cases v with
  | arr xs => exact congrArg (· + 1) (depth_sortKeys_items xs)
  | obj ms =>
    have hperm := List.perm_insertionSort (fun a b : String × Json => a.1 ≤ b.1) (sortKeys.members ms)
    refine congrArg (· + 1) ?_
    rw [← depth_sortKeys_members ms]
    refine eq_of_forall_ge_iff fun n => ?_
    rw [depth_members_le, depth_members_le]
    exact forall_congr' fun m => imp_congr_left hperm.mem_iff
  | _ => rfl

theorem depth_sortKeys_items (xs : List Json) : depth.items (sortKeys.items xs) = depth.items xs := by
  cases xs with
  | nil => rfl
  | cons x xs => rw [sortKeys.items, depth.items, depth.items, depth_sortKeys x, depth_sortKeys_items xs]

theorem depth_sortKeys_members (ms : List (String × Json)) :
    depth.members (sortKeys.members ms) = depth.members ms := by
  cases ms with
  | nil => rfl
  | cons m ms =>
    rw [sortKeys.members, depth.members, depth.members, depth_sortKeys m.2, depth_sortKeys_members ms]

end

/-! ### Rows -/

/-- `sorted(rows, key=canonical)`. -/
def sortedRows (rows : List Dict) : List Dict :=
  rows.insertionSort fun a b => canonicalText (.obj a) ≤ canonicalText (.obj b)

/-- Rows up to the order of their members. -/
def forms (rows : List Dict) : List Json := rows.map fun r => sortKeys (.obj r)

/-- **Sorted rows do not depend on the order in which they came.** -/
theorem forms_sortedRows {rows rows' : List Dict} :
    forms (sortedRows rows) = forms (sortedRows rows') ↔ (forms rows).Perm (forms rows') := by
  have hperm : ∀ rows, (forms (sortedRows rows)).Perm (forms rows) := fun rows =>
    (List.perm_insertionSort _ _).map _
  constructor
  · intro h
    exact (hperm rows).symm.trans (h ▸ hperm rows')
  · intro h
    have hsorted : ∀ rows, (forms (sortedRows rows)).Pairwise fun v w =>
        String.ofList (compact v) ≤ String.ofList (compact w) := by
      intro rows
      exact List.pairwise_map.mpr (List.pairwise_insertionSort _ _)
    refine List.Perm.eq_of_pairwise (fun v w _ _ hvw hwv => ?_) (hsorted rows) (hsorted rows')
      ((hperm rows).trans (h.trans (hperm rows').symm))
    exact compact_injective (String.ofList_injective (le_antisymm hvw hwv))

end Json
