import Mathlib.Data.List.Dedup
import CernityNdr.Framework.Registry

/-! # A Memory of Recent Keys

    A table in the order in which its keys were last stored, of which the old
    end is dropped beyond a capacity. It keeps a caller from doing twice what
    was done under the same key with the same value: what the table still
    knows is skipped, everything else is done and stored.

    * `remembered_eq`: dropping at each step keeps what dropping once at the
      end would keep.
    * `lookup_remembered_iff`: a key is known as long as fewer other keys than
      the capacity were stored after it.
    * `Memory.Sound`: the table is that of what was done, and nothing was done
      that it knew. -/

namespace Recent

variable {κ ν : Type*} [DecidableEq κ]

abbrev Table (κ ν : Type*) := Registry (Prod.fst : κ × ν → κ)

/-- Store an entry at the young end. -/
def remember (cap : Nat) (r : Table κ ν) (e : κ × ν) : Table κ ν := (r.push e).trim cap

def remembered (cap : Nat) (es : List (κ × ν)) : Table κ ν := es.foldl (remember cap) .empty

/-- The table that forgets nothing. -/
def latest (es : List (κ × ν)) : Table κ ν := es.foldl Registry.push .empty

/-! ### What is dropped -/

/-- Of a list that ends in enough elements, only these matter. -/
theorem drop_append_of_length_le {α : Type*} (xs ys : List α) {n : Nat} (h : n ≤ ys.length) :
    (xs ++ ys).drop ((xs ++ ys).length - n) = ys.drop (ys.length - n) := by
  have hlen : (xs ++ ys).length - n = xs.length + (ys.length - n) := by
    rw [List.length_append]
    omega
  rw [hlen, List.drop_append]
  simp

/-- At most one entry has the key. -/
theorem length_filter_le (r : Table κ ν) (k : κ) {es : List (κ × ν)} (hes : es.Sublist r.vals) :
    es.length ≤ (es.filter fun e => e.1 ≠ k).length + 1 := by
  have hnodup : (es.map Prod.fst).Nodup := r.nodup.sublist (hes.map Prod.fst)
  have hcount : es.countP (fun e => decide (e.1 = k)) ≤ 1 := by
    have hle := List.nodup_iff_count_le_one.mp hnodup k
    rw [List.count, List.countP_map] at hle
    exact (List.countP_congr fun e _ => by simp).trans_le hle
  have hsplit := List.length_eq_countP_add_countP (fun e : κ × ν => decide (e.1 ≠ k)) (l := es)
  have hsame : es.countP (fun e => decide (¬ decide (e.1 ≠ k) = true)) =
      es.countP fun e => decide (e.1 = k) := List.countP_congr fun e _ => by simp
  rw [List.countP_eq_length_filter] at hsplit
  omega

/-- Dropping before a store makes no difference after it. -/
theorem remember_trim (cap : Nat) (r : Table κ ν) (e : κ × ν) :
    remember cap (r.trim cap) e = remember cap r e := by
  by_cases hfit : r.vals.length ≤ cap
  · rw [Registry.trim_of_le r hfit]
  · apply Registry.ext_vals
    have hsplit := List.take_append_drop (r.vals.length - cap) r.vals
    have hlen : (r.vals.drop (r.vals.length - cap)).length = cap := by
      rw [List.length_drop]
      omega
    have hmany := length_filter_le r e.1 (List.drop_sublist (r.vals.length - cap) r.vals)
    rw [hlen] at hmany
    have hfilter : r.vals.filter (fun v => decide (v.1 ≠ e.1)) ++ [e] =
        (r.vals.take (r.vals.length - cap)).filter (fun v => decide (v.1 ≠ e.1)) ++
          ((r.vals.drop (r.vals.length - cap)).filter (fun v => decide (v.1 ≠ e.1)) ++ [e]) := by
      rw [← List.append_assoc, ← List.filter_append, hsplit]
    have hdrop := drop_append_of_length_le
      ((r.vals.take (r.vals.length - cap)).filter fun v => decide (v.1 ≠ e.1))
      ((r.vals.drop (r.vals.length - cap)).filter (fun v => decide (v.1 ≠ e.1)) ++ [e]) (n := cap)
      (by simpa using hmany)
    rw [← hfilter] at hdrop
    exact hdrop.symm

theorem remembered_eq (cap : Nat) (es : List (κ × ν)) : remembered cap es = (latest es).trim cap := by
  induction es using List.reverseRecOn with
  | nil =>
    apply Registry.ext_vals
    simp [remembered, latest, Registry.trim]
  | append_singleton es e ih =>
    rw [remembered, latest, List.foldl_append, List.foldl_append]
    show remember cap (remembered cap es) e = remember cap (latest es) e
    rw [ih, remember_trim]

/-! ### What is known -/

/-- The entries after the last one of a key are those of the keys that were
    stored after it. -/
theorem vals_latest (pre post : List (κ × ν)) (e : κ × ν) (h : e.1 ∉ post.map Prod.fst) :
    ∃ older younger, (latest (pre ++ e :: post)).vals = older ++ e :: younger ∧
      ∀ k, k ∈ younger.map Prod.fst ↔ k ∈ post.map Prod.fst := by
  induction post using List.reverseRecOn with
  | nil =>
    refine ⟨((latest pre).pop e.1).vals, [], ?_, fun k => Iff.rfl⟩
    rw [latest, List.foldl_append]
    rfl
  | append_singleton post e' ih =>
    have hne : e.1 ≠ e'.1 := by
      intro heq
      exact h (by simp [heq])
    obtain ⟨older, younger, hvals, hkeys⟩ := ih fun hin => h (by
      rw [List.map_append]
      exact List.mem_append_left _ hin)
    refine ⟨older.filter fun v => v.1 ≠ e'.1, (younger.filter fun v => v.1 ≠ e'.1) ++ [e'], ?_, ?_⟩
    · have hpush : (latest (pre ++ e :: (post ++ [e']))).vals =
          ((latest (pre ++ e :: post)).vals.filter fun v => v.1 ≠ e'.1) ++ [e'] := by
        rw [latest, ← List.cons_append, ← List.append_assoc, List.foldl_append]
        rfl
      rw [hpush, hvals, List.filter_append, List.filter_cons_of_pos (by simpa using hne)]
      simp
    · intro k
      rw [List.map_append, List.map_append, List.mem_append, List.mem_append]
      by_cases hk : k = e'.1
      · simp [hk]
      · have hfilter : k ∈ (younger.filter fun v => v.1 ≠ e'.1).map Prod.fst ↔ k ∈ younger.map Prod.fst := by
          simp only [List.mem_map, List.mem_filter, decide_eq_true_eq]
          constructor
          · rintro ⟨v, hv, hvk⟩
            exact ⟨v, hv.1, hvk⟩
          · rintro ⟨v, hv, hvk⟩
            exact ⟨v, ⟨hv, hvk ▸ hk⟩, hvk⟩
        rw [hfilter, hkeys]

/-- The last entry of a key. -/
theorem exists_last {es : List (κ × ν)} {k : κ} (h : k ∈ es.map Prod.fst) :
    ∃ pre v post, es = pre ++ (k, v) :: post ∧ k ∉ post.map Prod.fst := by
  induction es with
  | nil => cases h
  | cons e es ih =>
    by_cases hin : k ∈ es.map Prod.fst
    · obtain ⟨pre, v, post, rfl, hpost⟩ := ih hin
      exact ⟨e :: pre, v, post, rfl, hpost⟩
    · rw [List.map_cons, List.mem_cons] at h
      have hkey : k = e.1 := h.resolve_right hin
      exact ⟨[], e.2, es, by rw [hkey]; rfl, hin⟩

theorem mem_of_mem_latest {es : List (κ × ν)} {e : κ × ν} (h : e ∈ (latest es).vals) : e ∈ es := by
  induction es using List.reverseRecOn with
  | nil => cases h
  | append_singleton es e' ih =>
    rw [latest, List.foldl_append] at h
    rcases Registry.mem_push h with h | rfl
    · exact List.mem_append_left _ (ih h)
    · simp

/-- An entry is in the young part of a list when few come after it. -/
theorem mem_drop_iff {α : Type*} {older younger : List α} {e : α} {cap : Nat}
    (h : (older ++ e :: younger).Nodup) :
    e ∈ (older ++ e :: younger).drop ((older ++ e :: younger).length - cap) ↔ younger.length < cap := by
  have hlen : (older ++ e :: younger).length = older.length + younger.length + 1 := by
    simp
    omega
  rw [hlen, List.drop_append]
  have hnot : e ∉ older ∧ e ∉ younger := by
    rw [List.nodup_append, List.nodup_cons] at h
    exact ⟨fun hin => h.2.2 e hin e List.mem_cons_self rfl, h.2.1.1⟩
  constructor
  · intro hin
    by_contra hfar
    rcases List.mem_append.mp hin with hin | hin
    · exact hnot.1 (List.mem_of_mem_drop hin)
    · obtain ⟨n, hn⟩ : ∃ n, older.length + younger.length + 1 - cap - older.length = n + 1 :=
        ⟨younger.length - cap, by omega⟩
      rw [hn, List.drop_succ_cons] at hin
      exact hnot.2 (List.mem_of_mem_drop hin)
  · intro hlt
    have hzero : older.length + younger.length + 1 - cap - older.length = 0 := by omega
    rw [hzero, List.drop_zero]
    exact List.mem_append_right _ List.mem_cons_self

/-- A key is known with a value exactly when it was last stored with it, and
    fewer other keys than the capacity were stored since. -/
theorem lookup_remembered_iff {cap : Nat} {es : List (κ × ν)} {k : κ} {v : ν} :
    (remembered cap es).lookup k = some v ↔ ∃ pre post, es = pre ++ (k, v) :: post ∧
      k ∉ post.map Prod.fst ∧ (post.map Prod.fst).dedup.length < cap := by
  rw [remembered_eq, Registry.lookup_eq_some]
  have hmem : ∀ pre (u : ν) post, es = pre ++ (k, u) :: post → k ∉ post.map Prod.fst →
      ((k, v) ∈ ((latest es).trim cap).vals ↔ u = v ∧ (post.map Prod.fst).dedup.length < cap) := by
    intro pre u post heq hpost
    obtain ⟨older, younger, hvals, hkeys⟩ := vals_latest pre post (k, u) hpost
    rw [← heq] at hvals
    have hnodup : ((older ++ (k, u) :: younger).map Prod.fst).Nodup := hvals ▸ (latest es).nodup
    have hyoung : younger.length = (post.map Prod.fst).dedup.length := by
      have hsub : (younger.map Prod.fst).Nodup := by
        rw [List.map_append, List.nodup_append, List.map_cons, List.nodup_cons] at hnodup
        exact hnodup.2.1.2
      have hperm : (younger.map Prod.fst).Perm (post.map Prod.fst).dedup := by
        rw [List.perm_ext_iff_of_nodup hsub (List.nodup_dedup _)]
        intro x
        rw [hkeys, List.mem_dedup]
      rw [← hperm.length_eq, List.length_map]
    have hdrop : (k, u) ∈ (older ++ (k, u) :: younger).drop
        ((older ++ (k, u) :: younger).length - cap) ↔ younger.length < cap :=
      mem_drop_iff hnodup.of_map
    rw [← hvals] at hdrop
    rw [← hyoung]
    constructor
    · intro hin
      -- the table has one entry of the key
      have hself : (latest es).lookup k = some u := by
        rw [Registry.lookup_eq_some, hvals]
        simp
      have hother : (latest es).lookup k = some v := Registry.lookup_eq_some.mpr (Registry.mem_of_mem_trim hin)
      obtain rfl : u = v := Option.some.inj (hself.symm.trans hother)
      exact ⟨rfl, hdrop.mp hin⟩
    · intro ⟨huv, hlt⟩
      subst huv
      exact hdrop.mpr hlt
  constructor
  · intro hin
    have hkey : k ∈ es.map Prod.fst :=
      List.mem_map.mpr ⟨(k, v), mem_of_mem_latest (Registry.mem_of_mem_trim hin), rfl⟩
    obtain ⟨pre, u, post, heq, hpost⟩ := exists_last hkey
    obtain ⟨rfl, hlt⟩ := (hmem pre u post heq hpost).mp hin
    exact ⟨pre, post, heq, hpost, hlt⟩
  · intro ⟨pre, post, heq, hpost, hlt⟩
    exact (hmem pre v post heq hpost).mpr ⟨rfl, hlt⟩

/-! ### What is done -/

/-- The table, and what was done. -/
structure Memory (κ ν : Type*) where
  table : Table κ ν
  done : List (κ × ν)

def Memory.start : Memory κ ν := ⟨.empty, []⟩

/-- Do it. -/
def Memory.act (cap : Nat) (s : Memory κ ν) (e : κ × ν) : Memory κ ν :=
  ⟨remember cap s.table e, s.done ++ [e]⟩

/-- The table is that of what was done, and nothing was done that it knew. -/
structure Memory.Sound (cap : Nat) (s : Memory κ ν) : Prop where
  table : s.table = remembered cap s.done
  fresh : ∀ pre e post, s.done = pre ++ e :: post → (remembered cap pre).lookup e.1 ≠ some e.2

theorem Memory.sound_start (cap : Nat) : (Memory.start : Memory κ ν).Sound cap := by
  refine ⟨rfl, ?_⟩
  intro pre e post heq
  simp [Memory.start] at heq

/-- Something that the table does not know is done. -/
theorem Memory.Sound.act {cap : Nat} {s : Memory κ ν} (h : s.Sound cap) {e : κ × ν}
    (hnew : s.table.lookup e.1 ≠ some e.2) : (s.act cap e).Sound cap := by
  constructor
  · show remember cap s.table e = remembered cap (s.done ++ [e])
    rw [h.table, remembered, remembered, List.foldl_append]
    rfl
  · intro pre e' post heq
    rcases List.eq_nil_or_concat post with rfl | ⟨rest, last, rfl⟩
    · obtain ⟨rfl, hlast⟩ := List.append_inj' heq rfl
      obtain rfl := (List.cons.inj hlast).1
      rwa [← h.table]
    · have hbefore : s.done = pre ++ e' :: rest := by
        have heq' : s.done ++ [e] = (pre ++ e' :: rest) ++ [last] := heq.trans (by simp)
        exact (List.append_inj' heq' rfl).1
      exact h.fresh pre e' rest hbefore

/-- What is known was done before, and few other things since. -/
theorem Memory.Sound.known_iff {cap : Nat} {s : Memory κ ν} (h : s.Sound cap) {k : κ} {v : ν} :
    s.table.lookup k = some v ↔ ∃ pre post, s.done = pre ++ (k, v) :: post ∧
      k ∉ post.map Prod.fst ∧ (post.map Prod.fst).dedup.length < cap := by
  rw [h.table]
  exact lookup_remembered_iff

/-- The same thing done twice, and nothing else in between under its key: many
    other things were. -/
theorem Memory.Sound.apart {cap : Nat} {s : Memory κ ν} (h : s.Sound cap) {k : κ} {v : ν}
    {pre mid post : List (κ × ν)} (heq : s.done = pre ++ (k, v) :: (mid ++ (k, v) :: post))
    (hmid : k ∉ mid.map Prod.fst) : cap ≤ (mid.map Prod.fst).dedup.length := by
  by_contra hlt
  have hfresh := h.fresh (pre ++ (k, v) :: mid) (k, v) post (by simp [heq])
  exact hfresh (lookup_remembered_iff.mpr ⟨pre, mid, rfl, hmid, by omega⟩)

end Recent
