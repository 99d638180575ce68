import Mathlib.Data.List.Nodup
import Mathlib.Data.List.Infix

/-! # The Last Write

    A log of writes, each a key and a value or an erasure, stands for the map
    of what the last write of every key left.

    * `lastWrite_eq_of_split`: a write that no later write of its key follows
      is what is left.
    * `lastWrite_append`: what later writes of the key leave, they decide. -/

variable {κ ν : Type*} [DecidableEq κ]

/-- What the writes left under `k`. -/
def lastWrite (ws : List (κ × Option ν)) (k : κ) : Option ν :=
  ws.foldl (fun left w => if w.1 = k then w.2 else left) none

theorem lastWrite_snoc (ws : List (κ × Option ν)) (w : κ × Option ν) (k : κ) :
    lastWrite (ws ++ [w]) k = if w.1 = k then w.2 else lastWrite ws k := by
  simp [lastWrite]

/-- Writes of other keys are not seen. -/
theorem lastWrite_append_of_notMem {ws ws' : List (κ × Option ν)} {k : κ}
    (h : k ∉ ws'.map Prod.fst) : lastWrite (ws ++ ws') k = lastWrite ws k := by
  induction ws' using List.reverseRecOn with
  | nil => rw [List.append_nil]
  | append_singleton ws' w ih =>
    simp only [List.map_append, List.mem_append, not_or] at h
    have hw : w.1 ≠ k := fun hk => h.2 (by simp [hk])
    rw [← List.append_assoc, lastWrite_snoc, if_neg hw, ih h.1]

/-- A write that none of the same key follows. -/
theorem lastWrite_eq_of_split {ws pre post : List (κ × Option ν)} {k : κ} {v : Option ν}
    (h : ws = pre ++ (k, v) :: post) (hpost : k ∉ post.map Prod.fst) : lastWrite ws k = v := by
  have hws : ws = (pre ++ [(k, v)]) ++ post := by rw [h, List.append_assoc, List.singleton_append]
  rw [hws, lastWrite_append_of_notMem hpost, lastWrite_snoc, if_pos rfl]

/-- The log is split at the last write of a key that it has. -/
theorem exists_last_write {ws : List (κ × Option ν)} {k : κ} (h : k ∈ ws.map Prod.fst) :
    ∃ pre v post, ws = pre ++ (k, v) :: post ∧ k ∉ post.map Prod.fst := by
  induction ws using List.reverseRecOn with
  | nil => simp at h
  | append_singleton ws w ih =>
    by_cases hw : w.1 = k
    · exact ⟨ws, w.2, [], by rw [← hw], by simp⟩
    · have hmem : k ∈ ws.map Prod.fst := by
        simpa [Ne.symm hw] using h
      obtain ⟨pre, v, post, heq, hpost⟩ := ih hmem
      refine ⟨pre, v, post ++ [w], by simp [heq], ?_⟩
      simp only [List.map_append, List.mem_append, not_or]
      exact ⟨hpost, by simpa using Ne.symm hw⟩

/-- Later writes decide where they write. -/
theorem lastWrite_append (ws ws' : List (κ × Option ν)) (k : κ) :
    lastWrite (ws ++ ws') k =
      if k ∈ ws'.map Prod.fst then lastWrite ws' k else lastWrite ws k := by
  by_cases hmem : k ∈ ws'.map Prod.fst
  · rw [if_pos hmem]
    obtain ⟨pre, v, post, heq, hpost⟩ := exists_last_write hmem
    have hsplit : ws ++ ws' = (ws ++ pre) ++ (k, v) :: post := by rw [heq, List.append_assoc]
    rw [lastWrite_eq_of_split heq hpost, lastWrite_eq_of_split hsplit hpost]
  · rw [if_neg hmem, lastWrite_append_of_notMem hmem]

/-- When every key is written once, each write stays. -/
theorem lastWrite_of_nodup {ws : List (κ × Option ν)} (h : (ws.map Prod.fst).Nodup)
    {w : κ × Option ν} (hw : w ∈ ws) : lastWrite ws w.1 = w.2 := by
  obtain ⟨pre, post, rfl⟩ := List.append_of_mem hw
  refine lastWrite_eq_of_split rfl ?_
  rw [List.map_append, List.map_cons, List.nodup_append] at h
  exact (List.nodup_cons.mp h.2.1).1
