import CernityNdr.Window.Server

/-! # A Key on Both Backends

    A key of the in-memory store that expires as a whole, and what a server
    that follows Redis's documentation has under it. The server keeps the key
    `extra` longer (`seconds`); in between the two differ, and no operation
    falls there (`Clear`). -/

open CappedMap (FieldMap)
open InMemoryStore (Entry WriteOp)

/-- The stores' operations. -/
abbrev StoreOp := Sharding.Op String Method WriteOp String

/-- A table whose keys expire as a whole, and how its values are stored in
    Redis. -/
structure Table where
  held : Entry → Option (FieldMap String ℚ)
  stored : FieldMap String ℚ → Stored

namespace Table

variable (T : Table)

/-- What the in-memory store reads. -/
def read (e : Entry) (now : ℚ) : FieldMap String ℚ :=
  if e.alive now then (T.held e).getD .empty else .empty

/-- The time is not between the expiry and the one of Redis. -/
def Clear (extra : ℚ) (e : Entry) (now : ℚ) : Prop :=
  ∀ x, e.exp = some x → now < x ∨ x + extra < now

/-- The key is there on both, or gone from Redis. -/
inductive Mirrored (extra t : ℚ) (e : Entry) : Option Slot → Prop
  | there {x : ℚ} {m : FieldMap String ℚ} (exp : e.exp = some x) (held : T.held e = some m)
      (nonempty : m.vals ≠ []) : Mirrored extra t e (some ⟨T.stored m, some (x + extra)⟩)
  | gone (ended : ∀ x, e.exp = some x → x + extra ≤ t) (unset : e.exp = none → T.held e = none) :
      Mirrored extra t e none

variable {T} {extra t now : ℚ} {e : Entry} {c : Option Slot}

theorem Mirrored.mono (h : T.Mirrored extra t e c) (ht : t ≤ now) : T.Mirrored extra now e c := by
  cases h with
  | there hexp hheld hne => exact .there hexp hheld hne
  | gone hended hunset => exact .gone (fun x hx => (hended x hx).trans ht) hunset

/-- At a time that is not in between both have the key or none. -/
theorem Mirrored.at (h : T.Mirrored extra t e c) (hextra : 0 ≤ extra) (ht : t ≤ now)
    (hclear : Clear extra e now) :
    (∃ x m, now < x ∧ e.exp = some x ∧ T.held e = some m ∧ m.vals ≠ [] ∧ T.read e now = m ∧
        Redis.live now c = some ⟨T.stored m, some (x + extra)⟩) ∨
      (T.read e now = .empty ∧ Redis.live now c = none ∧ (∀ x, e.exp = some x → x + extra ≤ now) ∧
        (e.exp = none → T.held e = none)) := by
  cases h with
  | @there x m hexp hheld hne =>
    rcases hclear x hexp with hbefore | hafter
    · left
      refine ⟨x, m, hbefore, hexp, hheld, hne, ?_, Redis.live_of_le (by linarith)⟩
      simp [Table.read, Entry.alive, hexp, hheld, hbefore]
    · right
      refine ⟨?_, Redis.live_of_lt hafter, ?_, ?_⟩
      · have hdead : ¬now < x := by linarith
        simp [Table.read, Entry.alive, hexp, hdead]
      · intro x' hx'
        rw [hexp] at hx'
        cases hx'
        exact hafter.le
      · intro hnone
        rw [hexp] at hnone
        cases hnone
  | gone hended hunset =>
    right
    refine ⟨?_, rfl, fun x hx => (hended x hx).trans ht, hunset⟩
    cases hexp : e.exp with
    | none => simp [Table.read, Entry.alive, hexp, hunset hexp]
    | some x =>
      have hdead : ¬now < x := by
        have hx := hended x hexp
        linarith
      simp [Table.read, Entry.alive, hexp, hdead]

end Table

theorem FieldMap.put_ne_nil (m : FieldMap String ℚ) (w : String × ℚ) : (m.put w).vals ≠ [] := by
  intro hnil
  have hmem := (Registry.get?_eq_some.mp (Registry.get?_put_self m w)).1
  rw [hnil] at hmem
  cases hmem

/-! ### Times to live -/

theorem truncate_intCast (n : Int) : truncate (n : ℚ) = n := by
  unfold truncate
  split
  · exact Int.floor_intCast n
  · exact Int.ceil_intCast n

namespace RedisStore

theorem seconds_intCast (n : Int) : ((seconds n : Int) : ℚ) = n + 1 := by
  rw [seconds, truncate_intCast]
  push_cast
  rfl

/-- A key outlives the time to live. -/
theorem lt_seconds {ttl : ℚ} (h : 0 < ttl) : ttl < seconds ttl := by
  rw [seconds, truncate, if_pos h.le]
  push_cast
  exact Int.lt_floor_add_one ttl

theorem seconds_pos {ttl : ℚ} (h : 0 < ttl) : 0 < seconds ttl := by
  have hlt := h.trans (lt_seconds h)
  exact_mod_cast hlt

end RedisStore
