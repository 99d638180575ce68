import Mathlib.Algebra.Order.BigOperators.Group.List
import Mathlib.Algebra.GroupWithZero.Nat
import Mathlib.Algebra.Order.Group.Nat
import Mathlib.Data.List.Perm.Subperm
import Mathlib.Algebra.Order.Group.Defs

/-! # Rolling Limits

    Records with a time and a weight, in the order of their times. A limit on
    every window of a given length is kept by admitting a record only while
    the records that are younger than the length leave room for it.

    * `Limited.snoc`: the admission rule.
    * `sum_le_of_held`: records that are all held by a table of distinct keys
      weigh at most what the table weighs. -/

namespace Rolling

variable {ρ τ : Type*} [AddCommMonoid τ] [LinearOrder τ]

/-- The records with a time in `[start, start + len)`. -/
def window (ts : ρ → τ) (len start : τ) (l : List ρ) : List ρ :=
  l.filter fun r => start ≤ ts r ∧ ts r < start + len

/-- Every window of the length weighs at most the limit. -/
def Limited (ts : ρ → τ) (len : τ) (weight : ρ → Nat) (limit : Nat) (l : List ρ) : Prop :=
  ∀ start, ((window ts len start l).map weight).sum ≤ limit

variable {ts : ρ → τ} {len : τ} {weight : ρ → Nat} {limit : Nat} {l : List ρ}

theorem Limited.nil : Limited ts len weight limit [] := fun _ => Nat.zero_le _

/-- **The admission rule.** -/
theorem Limited.snoc [IsOrderedAddMonoid τ] {x : ρ} (h : Limited ts len weight limit l)
    (hroom : ((l.filter fun r => ts x < ts r + len).map weight).sum + weight x ≤ limit) :
    Limited ts len weight limit (l ++ [x]) := by
  intro start
  rw [window, List.filter_append]
  by_cases hx : start ≤ ts x ∧ ts x < start + len
  · -- what is in a window with `x` is younger than the length
    have hsub : (l.filter fun r => decide (start ≤ ts r ∧ ts r < start + len)).Sublist
        (l.filter fun r => ts x < ts r + len) := by
      apply List.monotone_filter_right l
      intro r hr
      simp only [decide_eq_true_eq] at hr ⊢
      exact hx.2.trans_le (add_le_add_left hr.1 len)
    have hle := (hsub.map weight).sum_le_sum fun _ _ => Nat.zero_le _
    rw [List.filter_cons_of_pos (by simpa using hx), List.map_append, List.sum_append]
    exact (Nat.add_le_add_right hle _).trans hroom
  · rw [List.filter_cons_of_neg (by simpa using hx), List.filter_nil, List.append_nil]
    exact h start

/-- Records that keep their times and weights. -/
theorem Limited.map (h : Limited ts len weight limit l) {f : ρ → ρ} (hts : ∀ r, ts (f r) = ts r)
    (hweight : ∀ r, weight (f r) = weight r) : Limited ts len weight limit (l.map f) := by
  intro start
  have hwindow : window ts len start (l.map f) = (window ts len start l).map f := by
    rw [window, window, List.filter_map]
    congr 1
    apply List.filter_congr
    intro r _
    simp [hts]
  have hmap : (window ts len start l).map (weight ∘ f) = (window ts len start l).map weight :=
    List.map_congr_left fun r _ => hweight r
  rw [hwindow, List.map_map, hmap]
  exact h start

omit [AddCommMonoid τ] [LinearOrder τ] in
/-- Records of distinct keys that are held by a list weigh at most what the
    list weighs. -/
theorem sum_le_of_held {ν κ : Type*} (held : ρ → ν) (key : ν → κ) {weight' : ν → Nat} {vals : List ν}
    (hheld : ∀ r ∈ l, held r ∈ vals) (hkeys : (l.map fun r => key (held r)).Nodup)
    (hweight : ∀ r ∈ l, weight r = weight' (held r)) :
    (l.map weight).sum ≤ (vals.map weight').sum := by
  have hnodup : (l.map held).Nodup := by
    have hkeys' : ((l.map held).map key).Nodup := by
      rw [List.map_map]
      exact hkeys
    exact List.Pairwise.of_map key (fun _ _ hne heq => hne (congrArg key heq)) hkeys'
  have hsub : l.map held ⊆ vals := by
    intro v hv
    obtain ⟨r, hr, rfl⟩ := List.mem_map.mp hv
    exact hheld r hr
  obtain ⟨vals', hperm, hsublist⟩ := hnodup.subperm hsub
  calc (l.map weight).sum
    _ = ((l.map held).map weight').sum := by
      rw [List.map_map, List.map_congr_left hweight]
      rfl
    _ = (vals'.map weight').sum := (hperm.map weight').sum_eq.symm
    _ ≤ (vals.map weight').sum := (hsublist.map weight').sum_le_sum fun _ _ => Nat.zero_le _

end Rolling

/-! ## Tumbling Windows

    The writes of a key count for a time to live, and then all of them go.
    A window starts at a write that finds none, and no later write extends
    it. -/

namespace Tumbling

variable {τ ω : Type*} [Add τ] [LinearOrder τ]

/-- A window: the time of its first write, and its writes in order. -/
structure Window (τ ω : Type*) where
  start : τ
  writes : List ω

/-- The window at a time. -/
def open? (ttl : τ) (w : Option (Window τ ω)) (now : τ) : Option (Window τ ω) :=
  w.filter fun w => now < w.start + ttl

/-- A write, or `none` when the key is cleared. -/
def next (ttl : τ) (w : Option (Window τ ω)) : τ × Option ω → Option (Window τ ω)
  | (_, none) => none
  | (now, some write) =>
    match open? ttl w now with
    | none => some ⟨now, [write]⟩
    | some w => some { w with writes := w.writes ++ [write] }

/-- The window after the events, which may have ended. -/
def window (ttl : τ) (events : List (τ × Option ω)) : Option (Window τ ω) :=
  events.foldl (next ttl) none

/-- The writes of the current window. -/
def current (ttl : τ) (events : List (τ × Option ω)) (now : τ) : List ω :=
  ((open? ttl (window ttl events) now).map Window.writes).getD []

variable {ttl now : τ} {w : Window τ ω} {events : List (τ × Option ω)}

theorem open?_of_lt (h : now < w.start + ttl) : open? ttl (some w) now = some w := by
  simp [open?, Option.filter, h]

theorem open?_of_le (h : w.start + ttl ≤ now) : open? ttl (some w) now = none := by
  simp [open?, Option.filter, not_lt.mpr h]

/-- A write goes to the window that is open, or starts one. -/
theorem next_write (ttl : τ) (w : Option (Window τ ω)) (now : τ) (write : ω) :
    next ttl w (now, some write) = some ⟨((open? ttl w now).map Window.start).getD now,
      ((open? ttl w now).map Window.writes).getD [] ++ [write]⟩ := by
  simp only [next]
  cases open? ttl w now with
  | none => rfl
  | some w => rfl

end Tumbling
