import CernityNdr.Framework.Conversion

/-! # Dictionaries Laid Over a Base

    A base dictionary whose values are replaced key by key, as a program does
    that merges what it is given over its defaults. The names of the base stay,
    in their order, and nothing else is added.

    * `set_eq_overlay`: an assignment to a name of the base is an overlay.
    * `overlay_overlay`: one overlay over another.
    * `nodup_filled`, `get?_filled`: the dictionary that a decoder fills. -/

namespace Json

variable {d : Dict} {key : String} {v : Json}

/-! ### Assignments -/

/-- A name of the dictionary keeps its place. -/
theorem Dict.names_set (h : key ∈ d.map Prod.fst) (v : Json) :
    (d.set key v).map Prod.fst = d.map Prod.fst := by
  obtain ⟨m, hm, hkey⟩ := List.mem_map.mp h
  have hany : d.any (fun m => m.1 = key) = true := List.any_eq_true.mpr ⟨m, hm, by simpa using hkey⟩
  rw [Dict.set, if_pos hany, List.map_map]
  apply List.map_congr_left
  intro m _
  by_cases hm : m.1 = key <;> simp [hm]

theorem Dict.nodup_set (h : (d.map Prod.fst).Nodup) (key : String) (v : Json) :
    ((d.set key v).map Prod.fst).Nodup := by
  by_cases hkey : key ∈ d.map Prod.fst
  · rw [Dict.names_set hkey]
    exact h
  · have hnone : ¬ d.any (fun m => m.1 = key) = true := by
      intro hany
      obtain ⟨m, hm, hmk⟩ := List.any_eq_true.mp hany
      exact hkey (List.mem_map.mpr ⟨m, hm, by simpa using hmk⟩)
    rw [Dict.set, if_neg hnone, List.map_append, List.nodup_append]
    refine ⟨h, List.nodup_singleton _, ?_⟩
    intro k hk k' hk' heq
    obtain rfl : k' = key := by simpa using hk'
    exact hkey (heq ▸ hk)

/-! ### What a decoder fills -/

/-- The dictionary that the members fill, where the last of a name counts. -/
def Dict.filled (ms : Dict) : Dict := ms.foldl (fun d m => d.set m.1 m.2) []

theorem Dict.filled_append_singleton (ms : Dict) (m : String × Json) :
    Dict.filled (ms ++ [m]) = (Dict.filled ms).set m.1 m.2 := by
  simp [Dict.filled, List.foldl_append]

theorem Dict.nodup_filled (ms : Dict) : ((Dict.filled ms).map Prod.fst).Nodup := by
  induction ms using List.reverseRecOn with
  | nil => exact List.nodup_nil
  | append_singleton ms m ih =>
    rw [Dict.filled_append_singleton]
    exact Dict.nodup_set ih m.1 m.2

theorem Dict.get?_filled (ms : Dict) (key : String) : (Dict.filled ms).get? key = ms.get? key := by
  induction ms using List.reverseRecOn with
  | nil => rfl
  | append_singleton ms m ih =>
    rw [Dict.filled_append_singleton]
    by_cases hm : m.1 = key
    · rw [← hm, Dict.get?_set_self]
      simp [Dict.get?]
    · rw [Dict.get?_set_ne _ _ (Ne.symm hm), ih]
      simp [Dict.get?, hm]

theorem Dict.mem_filled {ms : Dict} : (key, v) ∈ Dict.filled ms ↔ ms.get? key = some v := by
  rw [← Dict.get?_eq_some (Dict.nodup_filled ms), Dict.get?_filled]

/-! ### Overlays -/

/-- The dictionary with the values that `f` has for its names. -/
def Dict.overlay (f : String → Option Json) (d : Dict) : Dict :=
  d.map fun m => (m.1, (f m.1).getD m.2)

@[simp] theorem Dict.names_overlay (f : String → Option Json) (d : Dict) :
    (d.overlay f).map Prod.fst = d.map Prod.fst := by
  simp [Dict.overlay, Function.comp_def]

theorem Dict.overlay_none (d : Dict) : d.overlay (fun _ => none) = d := by
  simp [Dict.overlay]

theorem Dict.set_eq_overlay (h : key ∈ d.map Prod.fst) (v : Json) :
    d.set key v = d.overlay fun k => if k = key then some v else none := by
  obtain ⟨m, hm, hkey⟩ := List.mem_map.mp h
  have hany : d.any (fun m => m.1 = key) = true := List.any_eq_true.mpr ⟨m, hm, by simpa using hkey⟩
  rw [Dict.set, if_pos hany, Dict.overlay]
  apply List.map_congr_left
  intro m _
  by_cases hm : m.1 = key
  · simp [hm]
  · simp [hm]

/-- **The overlay** on top counts where it has a value. -/
theorem Dict.overlay_overlay (f g : String → Option Json) (d : Dict) :
    (d.overlay f).overlay g = d.overlay fun k => (g k).or (f k) := by
  simp only [Dict.overlay, List.map_map]
  apply List.map_congr_left
  intro m _
  cases hg : g m.1 <;> simp [hg]

end Json
