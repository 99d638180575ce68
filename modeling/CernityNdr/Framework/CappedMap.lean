import CernityNdr.Framework.LastWrite
import CernityNdr.Framework.Registry

/-! # Last-Write Maps under a Cap

    A dictionary that is only ever written: a write of a key that is there
    replaces its value, a write of a new key is admitted while fewer than
    `cap` keys are there and refused from then on.

    * `lookup_acceptAll`: an admitted key has the value of its last write.
    * `acceptAll_replay`: repeating the end of a sequence of writes changes
      nothing, neither the values nor the order of the keys.
    * `capped_of_lookup`: what the sender of the writes can rely on. -/

namespace CappedMap

variable {κ ν : Type*} [DecidableEq κ]

abbrev FieldMap (κ ν : Type*) := Registry (Prod.fst : κ × ν → κ)

/-- One write. -/
def accept (cap : Int) (m : FieldMap κ ν) (w : κ × ν) : FieldMap κ ν :=
  if w.1 ∉ m.keys ∧ cap ≤ m.vals.length then m else m.put w

def acceptAll (cap : Int) (m : FieldMap κ ν) (ws : List (κ × ν)) : FieldMap κ ν :=
  ws.foldl (accept cap) m

/-- Writes of the key are refused. -/
def Refused (cap : Int) (m : FieldMap κ ν) (k : κ) : Prop :=
  k ∉ m.keys ∧ cap ≤ m.vals.length

variable {cap : Int} {m : FieldMap κ ν} {w : κ × ν} {k : κ}

theorem acceptAll_append (cap : Int) (m : FieldMap κ ν) (ws us : List (κ × ν)) :
    acceptAll cap m (ws ++ us) = acceptAll cap (acceptAll cap m ws) us := List.foldl_append

theorem acceptAll_snoc (cap : Int) (m : FieldMap κ ν) (ws : List (κ × ν)) (w : κ × ν) :
    acceptAll cap m (ws ++ [w]) = accept cap (acceptAll cap m ws) w := acceptAll_append cap m ws [w]

omit [DecidableEq κ] in
theorem length_keys (m : FieldMap κ ν) : m.keys.length = m.vals.length := List.length_map _

/-! ### One write -/

theorem accept_of_refused (h : Refused cap m w.1) : accept cap m w = m := if_pos h

theorem accept_of_not_refused (h : ¬Refused cap m w.1) : accept cap m w = m.put w := if_neg h

theorem accept_of_mem (h : w.1 ∈ m.keys) : accept cap m w = m.put w :=
  accept_of_not_refused fun hrefused => hrefused.1 h

/-- A write keeps the keys, or adds its own at the end. -/
theorem keys_accept (cap : Int) (m : FieldMap κ ν) (w : κ × ν) :
    (accept cap m w).keys = m.keys ∨
      ¬Refused cap m w.1 ∧ (accept cap m w).keys = m.keys ++ [w.1] := by
  by_cases hrefused : Refused cap m w.1
  · exact Or.inl (congrArg Registry.keys (accept_of_refused hrefused))
  · rw [accept_of_not_refused hrefused]
    by_cases hmem : w.1 ∈ m.keys
    · exact Or.inl (Registry.keys_put_of_mem hmem)
    · exact Or.inr ⟨hrefused, Registry.keys_put_of_notMem hmem⟩

theorem keys_subset_accept (cap : Int) (m : FieldMap κ ν) (w : κ × ν) :
    m.keys <+: (accept cap m w).keys := by
  rcases keys_accept cap m w with h | ⟨-, h⟩
  · rw [h]
  · rw [h]
    exact List.prefix_append _ _

/-- A refused key stays refused. -/
theorem Refused.accept (h : Refused cap m k) (w : κ × ν) : Refused cap (accept cap m w) k := by
  obtain ⟨hnew, hfull⟩ := h
  rw [Refused, ← length_keys]
  rw [← length_keys] at hfull
  rcases keys_accept cap m w with hkeys | ⟨hadmitted, hkeys⟩
  · rw [hkeys]
    exact ⟨hnew, hfull⟩
  · rw [hkeys]
    refine ⟨?_, by simp; omega⟩
    -- a full map admits no other key
    intro hmem
    rcases List.mem_append.mp hmem with hmem | hmem
    · exact hnew hmem
    · rw [List.mem_singleton.mp hmem] at hnew
      exact hadmitted ⟨hnew, by rwa [← length_keys]⟩

/-- After its write a key is there or refused. -/
theorem mem_or_refused_accept (cap : Int) (m : FieldMap κ ν) (w : κ × ν) :
    w.1 ∈ (accept cap m w).keys ∨ Refused cap (accept cap m w) w.1 := by
  by_cases hrefused : Refused cap m w.1
  · exact Or.inr (hrefused.accept w)
  · left
    rw [accept_of_not_refused hrefused]
    exact Registry.mem_keys.mpr ⟨w, Registry.get?_put_self m w⟩

/-! ### Sequences of writes -/

theorem keys_prefix_acceptAll (cap : Int) (m : FieldMap κ ν) (ws : List (κ × ν)) :
    m.keys <+: (acceptAll cap m ws).keys := by
  induction ws using List.reverseRecOn with
  | nil => exact List.prefix_refl _
  | append_singleton ws w ih =>
    rw [acceptAll_snoc]
    exact ih.trans (keys_subset_accept cap _ w)

theorem Refused.acceptAll (h : Refused cap m k) (ws : List (κ × ν)) :
    Refused cap (acceptAll cap m ws) k := by
  induction ws using List.reverseRecOn with
  | nil => exact h
  | append_singleton ws w ih =>
    rw [acceptAll_snoc]
    exact ih.accept w

/-- A key that was written is there or refused from then on. -/
theorem mem_or_refused_acceptAll (cap : Int) (m : FieldMap κ ν) {ws : List (κ × ν)} (hw : w ∈ ws) :
    w.1 ∈ (acceptAll cap m ws).keys ∨ Refused cap (acceptAll cap m ws) w.1 := by
  obtain ⟨pre, post, rfl⟩ := List.append_of_mem hw
  rw [← List.singleton_append, ← List.append_assoc, acceptAll_append, acceptAll_snoc]
  rcases mem_or_refused_accept cap (acceptAll cap m pre) w with hmem | hrefused
  · exact Or.inl ((keys_prefix_acceptAll cap _ post).subset hmem)
  · exact Or.inr (hrefused.acceptAll post)

/-- The writes as a log without erasures. -/
def writes (ws : List (κ × ν)) : List (κ × Option ν) := ws.map fun w => (w.1, some w.2)

theorem lookup_accept_of_mem (h : k ∈ (accept cap m w).keys) :
    (accept cap m w).lookup k = if w.1 = k then some w.2 else m.lookup k := by
  by_cases hrefused : Refused cap m w.1
  · rw [accept_of_refused hrefused] at h ⊢
    have hne : w.1 ≠ k := fun hk => hrefused.1 (hk ▸ h)
    rw [if_neg hne]
  · rw [accept_of_not_refused hrefused]
    exact Registry.lookup_put m w.1 k w.2

/-- An admitted key has the value of its last write, or the one that it had. -/
theorem lookup_acceptAll (cap : Int) (m : FieldMap κ ν) {ws : List (κ × ν)}
    (h : k ∈ (acceptAll cap m ws).keys) :
    (acceptAll cap m ws).lookup k =
      if k ∈ ws.map Prod.fst then lastWrite (writes ws) k else m.lookup k := by
  induction ws using List.reverseRecOn with
  | nil => rfl
  | append_singleton ws w ih =>
    rw [acceptAll_snoc] at h ⊢
    rw [lookup_accept_of_mem h]
    simp only [writes, List.map_append, List.map_cons, List.map_nil, lastWrite_snoc,
      List.mem_append, List.mem_singleton]
    by_cases hk : w.1 = k
    · rw [if_pos hk, if_pos hk, if_pos (Or.inr hk.symm)]
    · have hmem : k ∈ (acceptAll cap m ws).keys := by
        rcases keys_accept cap (acceptAll cap m ws) w with hkeys | ⟨-, hkeys⟩
        · rwa [hkeys] at h
        · rw [hkeys] at h
          rcases List.mem_append.mp h with h | h
          · exact h
          · exact absurd (List.mem_singleton.mp h).symm hk
      rw [if_neg hk, if_neg hk, ih hmem]
      simp only [writes, Ne.symm hk, or_false]

/-! ### Replay -/

/-- Writes of keys that are there or refused add no key. -/
theorem keys_acceptAll_of_settled {ws : List (κ × ν)}
    (h : ∀ w ∈ ws, w.1 ∈ m.keys ∨ Refused cap m w.1) : (acceptAll cap m ws).keys = m.keys := by
  induction ws generalizing m with
  | nil => rfl
  | cons w ws ih =>
    have hkeys : (accept cap m w).keys = m.keys := by
      rcases h w List.mem_cons_self with hmem | hrefused
      · rw [accept_of_mem hmem, Registry.keys_put_of_mem hmem]
      · rw [accept_of_refused hrefused]
    have hrest : ∀ u ∈ ws, u.1 ∈ (accept cap m w).keys ∨ Refused cap (accept cap m w) u.1 := by
      intro u hu
      rw [hkeys]
      exact (h u (List.mem_cons_of_mem w hu)).imp_right fun hrefused => hrefused.accept w
    exact (ih hrest).trans hkeys

/-- **Replay**: repeating the end of a sequence of writes changes nothing. -/
theorem acceptAll_replay (cap : Int) (m : FieldMap κ ν) {ws us : List (κ × ν)} (h : us <:+ ws) :
    acceptAll cap (acceptAll cap m ws) us = acceptAll cap m ws := by
  have hkeys : (acceptAll cap (acceptAll cap m ws) us).keys = (acceptAll cap m ws).keys := by
    apply keys_acceptAll_of_settled
    intro w hw
    exact mem_or_refused_acceptAll cap m (h.subset hw)
  apply Registry.ext_lookup hkeys
  intro k hk
  rw [lookup_acceptAll cap _ hk]
  by_cases hmem : k ∈ us.map Prod.fst
  · rw [if_pos hmem]
    rw [hkeys] at hk
    have hmem' : k ∈ ws.map Prod.fst := (h.map Prod.fst).subset hmem
    rw [lookup_acceptAll cap m hk, if_pos hmem']
    -- the last write of the key is in the part that is repeated
    obtain ⟨pre, rfl⟩ := h
    have hwrites : k ∈ (writes us).map Prod.fst := by
      simpa [writes] using hmem
    have hsplit : writes (pre ++ us) = writes pre ++ writes us := List.map_append
    rw [hsplit, lastWrite_append, if_pos hwrites]
  · rw [if_neg hmem]

/-! ### Refused writes -/

instance : Decidable (Refused cap m k) := inferInstanceAs (Decidable (_ ∧ _))

/-- The number of refused writes. -/
def refusals (cap : Int) (m : FieldMap κ ν) : List (κ × ν) → Nat
  | [] => 0
  | w :: ws => (if Refused cap m w.1 then 1 else 0) + refusals cap (accept cap m w) ws

theorem refusals_snoc (cap : Int) (m : FieldMap κ ν) (ws : List (κ × ν)) (w : κ × ν) :
    refusals cap m (ws ++ [w]) =
      refusals cap m ws + if Refused cap (acceptAll cap m ws) w.1 then 1 else 0 := by
  induction ws generalizing m with
  | nil => exact Nat.add_comm _ _
  | cons u ws ih =>
    rw [List.cons_append, refusals, refusals, ih, Nat.add_assoc]
    rfl

theorem length_accept_le (h : (m.vals.length : Int) ≤ max cap 0) (w : κ × ν) :
    ((accept cap m w).vals.length : Int) ≤ max cap 0 := by
  rw [← length_keys] at h ⊢
  rcases keys_accept cap m w with hkeys | ⟨hadmitted, hkeys⟩
  · rwa [hkeys]
  · by_cases hmem : w.1 ∈ m.keys
    · rw [accept_of_mem hmem, Registry.keys_put_of_mem hmem]
      exact h
    · have hroom : ¬cap ≤ m.vals.length := fun hfull => hadmitted ⟨hmem, hfull⟩
      rw [← length_keys] at hroom
      rw [hkeys, List.length_append, List.length_singleton]
      push_cast
      omega

theorem length_acceptAll_le (cap : Int) (ws : List (κ × ν)) :
    ((acceptAll cap .empty ws).vals.length : Int) ≤ max cap 0 := by
  induction ws using List.reverseRecOn with
  | nil => exact le_max_right cap 0
  | append_singleton ws w ih =>
    rw [acceptAll_snoc]
    exact length_accept_le ih w

/-- The same keys in any order. -/
theorem length_eq_of_lookup {m' : FieldMap κ ν} (h : ∀ k, m.lookup k = m'.lookup k) :
    m.vals.length = m'.vals.length := by
  have hkeys : ∀ k, k ∈ m.keys ↔ k ∈ m'.keys := by
    intro k
    have hsome : (m.get? k).isSome = (m'.get? k).isSome := by
      simpa [Registry.lookup] using congrArg Option.isSome (h k)
    rw [Registry.mem_keys, Registry.mem_keys, ← Option.isSome_iff_exists, hsome,
      Option.isSome_iff_exists]
  rw [← length_keys, ← length_keys]
  exact ((List.perm_ext_iff_of_nodup m.keys_nodup m'.keys_nodup).mpr hkeys).length_eq

/-- What is seen of the writes `ws`: a map, and how many writes were refused.
    A key that was admitted has the value of its last write. -/
structure Capped (cap : Int) (ws : List (κ × ν)) (m : FieldMap κ ν) (refused : Int) : Prop where
  size : (m.vals.length : Int) ≤ max cap 0
  last : ∀ us, us <+: ws → ∀ k ∈ (acceptAll cap .empty us).keys,
    m.lookup k = lastWrite (writes ws) k
  only : ∀ k, k ∉ (acceptAll cap .empty ws).keys → m.lookup k = none
  refused : refused = refusals cap .empty ws

/-- **What the writes leave**, looked up key by key. -/
theorem capped_of_lookup {ws : List (κ × ν)}
    (h : ∀ k, m.lookup k = (acceptAll cap .empty ws).lookup k) :
    Capped cap ws m (refusals cap .empty ws) := by
  refine ⟨?_, ?_, ?_, rfl⟩
  · rw [length_eq_of_lookup h]
    exact length_acceptAll_le cap ws
  · rintro us ⟨vs, rfl⟩ k hk
    have hlast : k ∈ (acceptAll cap .empty (us ++ vs)).keys := by
      rw [acceptAll_append]
      exact (keys_prefix_acceptAll cap _ vs).subset hk
    rw [h, lookup_acceptAll cap _ hlast]
    split
    · rfl
    · next hmem =>
      -- a key that no write has is not there
      have hlog : k ∉ (writes (us ++ vs)).map Prod.fst := by simpa [writes] using hmem
      have hnone := @lastWrite_append_of_notMem _ _ _ [] _ k hlog
      rw [List.nil_append] at hnone
      rw [hnone]
      rfl
  · intro k hk
    rw [h, Registry.lookup, Option.map_eq_none_iff]
    cases hget : (acceptAll cap .empty ws).get? k with
    | none => rfl
    | some v => exact absurd (Registry.mem_keys.mpr ⟨v, hget⟩) hk

theorem Capped.congr {m' : FieldMap κ ν} {ws : List (κ × ν)} {refused : Int}
    (h : Capped cap ws m refused) (hm : ∀ k, m.lookup k = m'.lookup k) :
    Capped cap ws m' refused := by
  refine ⟨?_, ?_, ?_, h.refused⟩
  · rw [← length_eq_of_lookup hm]
    exact h.size
  · intro us hus k hk
    rw [← hm]
    exact h.last us hus k hk
  · intro k hk
    rw [← hm]
    exact h.only k hk

end CappedMap
