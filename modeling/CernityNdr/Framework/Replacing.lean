import Mathlib.Order.Basic
import Mathlib.Data.Int.Order.Basic
import Mathlib.Data.List.Nodup
import Mathlib.Data.List.Induction

/-! # Replacing Tables

    A table whose rows are never changed: an insert appends, and of the rows
    of one key the read keeps the version with the newest stamp, the last
    inserted among equal stamps. Inserts are stamped by a clock that does
    not go back.

    * `final_insert_of_mem`: what an insert writes is what is read.
    * `final_insert_of_notMem`: other keys keep their row. -/

variable {κ ν : Type*} [DecidableEq κ] (keyOf : ν → κ)

/-- The rows of all inserts, each with its stamp. -/
structure ReplacingTable (ν : Type*) where
  rows : List (ν × Int)
  clock : Int
  stamped : ∀ r ∈ rows, r.2 ≤ clock

namespace ReplacingTable

/-- The table before the first insert. -/
def empty (clock : Int) : ReplacingTable ν := ⟨[], clock, by simp⟩

/-- One insert, `delay` after the last one. -/
def insert (t : ReplacingTable ν) (delay : Nat) (vals : List ν) : ReplacingTable ν where
  rows := t.rows ++ vals.map (fun v => (v, t.clock + delay))
  clock := t.clock + delay
  stamped := by
    intro r hr
    rcases List.mem_append.mp hr with hr | hr
    · have := t.stamped r hr
      omega
    · obtain ⟨v, -, rfl⟩ := List.mem_map.mp hr
      exact le_refl _

/-- The newest version among the rows of a key. -/
def newest (rows : List (ν × Int)) (k : κ) : Option (ν × Int) :=
  rows.foldl (fun best r =>
    if keyOf r.1 = k then
      match best with
      | some b => if b.2 ≤ r.2 then some r else some b
      | none => some r
    else best) none

/-- The row of a key that a read with `FINAL` returns. -/
def final (t : ReplacingTable ν) (k : κ) : Option ν := (newest keyOf t.rows k).map Prod.fst

variable {keyOf} {t : ReplacingTable ν} {vals : List ν} {v : ν} {k : κ}

theorem newest_round (rows : List (ν × Int)) (r : ν × Int) (k : κ) :
    newest keyOf (rows ++ [r]) k =
      if keyOf r.1 = k then
        match newest keyOf rows k with
        | some b => if b.2 ≤ r.2 then some r else some b
        | none => some r
      else newest keyOf rows k := by
  simp [newest]

/-- What is read is a row of the key. -/
theorem mem_of_newest {rows : List (ν × Int)} {b : ν × Int} (h : newest keyOf rows k = some b) :
    b ∈ rows ∧ keyOf b.1 = k := by
  induction rows using List.reverseRecOn generalizing b with
  | nil => cases h
  | append_singleton rows x ih =>
    rw [newest_round] at h
    split at h
    · next hx =>
      have hlast : x = b → b ∈ rows ++ [x] ∧ keyOf b.1 = k := by
        rintro rfl
        exact ⟨by simp, hx⟩
      split at h
      · next y hy =>
        split at h
        · exact hlast (Option.some.inj h)
        · exact (ih (hy.trans h)).imp_left (List.mem_append_left _)
      · exact hlast (Option.some.inj h)
    · exact (ih h).imp_left (List.mem_append_left _)

/-- A row as new as all before it replaces the one of its key. -/
theorem newest_snoc {rows : List (ν × Int)} {r : ν × Int} (h : ∀ x ∈ rows, x.2 ≤ r.2) (k : κ) :
    newest keyOf (rows ++ [r]) k = if keyOf r.1 = k then some r else newest keyOf rows k := by
  rw [newest_round]
  split
  · split
    · next b hb => rw [if_pos (h b (mem_of_newest hb).1)]
    · rfl
  · rfl

theorem mem_of_final (h : t.final keyOf k = some v) :
    k ∈ t.rows.map (fun r => keyOf r.1) ∧ keyOf v = k := by
  obtain ⟨r, hr, rfl⟩ := Option.map_eq_some_iff.mp h
  obtain ⟨hmem, hkey⟩ := mem_of_newest hr
  exact ⟨List.mem_map.mpr ⟨r, hmem, hkey⟩, hkey⟩

theorem insert_append (t : ReplacingTable ν) (delay : Nat) (vals : List ν) (v : ν) :
    (t.insert delay (vals ++ [v])).final keyOf k =
      if keyOf v = k then some v else (t.insert delay vals).final keyOf k := by
  have hrows : (t.insert delay (vals ++ [v])).rows =
      (t.insert delay vals).rows ++ [(v, t.clock + delay)] := by
    simp [insert]
  unfold final
  rw [hrows, newest_snoc (t.insert delay vals).stamped]
  split <;> rfl

/-- Rows of other keys are not seen. -/
theorem final_insert_of_notMem (delay : Nat) (h : k ∉ vals.map keyOf) :
    (t.insert delay vals).final keyOf k = t.final keyOf k := by
  induction vals using List.reverseRecOn with
  | nil => simp [insert, final]
  | append_singleton vals v ih =>
    simp only [List.map_append, List.mem_append, not_or] at h
    have hv : keyOf v ≠ k := fun hk => h.2 (by simp [hk])
    rw [insert_append, if_neg hv, ih h.1]

/-- A row of the newest insert is the one that is read. -/
theorem final_insert_of_mem (delay : Nat) (hnodup : (vals.map keyOf).Nodup) (hv : v ∈ vals) :
    (t.insert delay vals).final keyOf (keyOf v) = some v := by
  induction vals using List.reverseRecOn with
  | nil => cases hv
  | append_singleton vals w ih =>
    rw [insert_append]
    rw [List.map_append, List.nodup_append] at hnodup
    rcases List.mem_append.mp hv with hv | hv
    · have hne : keyOf w ≠ keyOf v :=
        fun heq => hnodup.2.2 _ (List.mem_map_of_mem hv) _ (by simp) heq.symm
      rw [if_neg hne, ih hnodup.1 hv]
    · rw [List.mem_singleton.mp hv, if_pos rfl]

end ReplacingTable
