import CernityNdr.Window.Keyed

/-! # What Later Reads Find

    The members of a set, and the value under a key, as a read at a time
    finds them. A read drops what has expired, which no later read can tell.

    * `Alike`: stores that no later read of a set or an entry tells apart. -/

open CappedMap (FieldMap)

namespace InMemoryStore

theorem lookup_live (s : FieldMap String ℚ) (m : String) (now : ℚ) :
    (s.filter fun e => now < e.2).lookup m = (s.lookup m).filter fun e => now < e := by
  ext e
  rw [Option.filter_eq_some_iff, Registry.lookup_eq_some, Registry.lookup_eq_some]
  simp [Registry.filter]

/-- The expiry of a member. -/
def Entry.expiry (e : Entry) (m : String) : Option ℚ := e.s.bind (·.lookup m)

theorem Entry.lookup_members (e : Entry) (m : String) (now : ℚ) :
    (e.members now).lookup m = (e.expiry m).filter fun x => now < x := by
  unfold Entry.members Entry.expiry
  rw [lookup_live]
  cases e.s with
  | none => rfl
  | some s => rfl

theorem Entry.expiry_prune (e : Entry) (m : String) (now : ℚ) :
    (e.prune now).expiry m = (e.expiry m).filter fun x => now < x := by
  rw [← Entry.lookup_members]
  unfold Entry.expiry Entry.prune
  split
  · next hempty => simp [Registry.lookup, Registry.get?, List.isEmpty_iff.mp hempty]
  · rfl

/-- A read at the time finds the member. -/
def Holds (st : InMemoryStore) (key m : String) (now : ℚ) : Prop :=
  ∃ e, (st.entry key).expiry m = some e ∧ now < e

/-- What `kv_get` returns at the time. -/
def fetched (st : InMemoryStore) (key : String) (now : ℚ) : Option Json := (st.kvGet key now).1

theorem holds_empty (key m : String) (now : ℚ) : ¬ Holds .empty key m now := by
  rintro ⟨e, he, -⟩
  cases he

theorem fetched_empty (key : String) (now : ℚ) : fetched .empty key now = none := rfl

variable {st st' st'' : InMemoryStore} {key k m : String} {now t : ℚ}

theorem mem_setMembers_iff : m ∈ (st.setMembers key now).1 ↔ st.Holds key m now := by
  show m ∈ (st.liveSet key now).1.keys ↔ _
  rw [liveSet_fst, mem_keys_iff, Entry.lookup_members, Option.isSome_iff_exists]
  simp only [Option.filter_eq_some_iff, decide_eq_true_eq, Holds]

theorem nodup_setMembers : (st.setMembers key now).1.Nodup := (st.liveSet key now).1.keys_nodup

theorem setLen_eq : (st.setLen key now).1 = (st.setMembers key now).1.length := by
  show (st.liveSet key now).1.vals.length = (st.liveSet key now).1.keys.length
  exact (List.length_map _).symm

theorem fetched_eq : st.fetched key now =
    ((st.entry key).kv.filter fun v => now < v.2).map Prod.fst := kvGet_fst

/-! ### Stores that later reads cannot tell apart -/

/-- No read of a set or an entry at `now` or later tells the stores apart. -/
structure Alike (now : ℚ) (st st' : InMemoryStore) : Prop where
  holds : ∀ k m t, now ≤ t → (st'.Holds k m t ↔ st.Holds k m t)
  fetched : ∀ k t, now ≤ t → st'.fetched k t = st.fetched k t

theorem Alike.refl (now : ℚ) (st : InMemoryStore) : Alike now st st :=
  ⟨fun _ _ _ _ => Iff.rfl, fun _ _ _ => rfl⟩

theorem Alike.trans (h : Alike now st st') (h' : Alike now st' st'') : Alike now st st'' where
  holds k m t ht := (h'.holds k m t ht).trans (h.holds k m t ht)
  fetched k t ht := (h'.fetched k t ht).trans (h.fetched k t ht)

/-- Operations on the other tables. -/
theorem Alike.of_entry (hs : ∀ k, (st'.entry k).s = (st.entry k).s)
    (hkv : ∀ k, (st'.entry k).kv = (st.entry k).kv) : Alike now st st' where
  holds k m t _ := by rw [Holds, Holds, Entry.expiry, Entry.expiry, hs]
  fetched k t _ := by rw [fetched_eq, fetched_eq, hkv]

/-- What has expired does not live later. -/
theorem filter_live {α : Type*} {f : α → ℚ} (o : Option α) (h : now ≤ t) :
    (o.filter fun v => now < f v).filter (fun v => t < f v) = o.filter fun v => t < f v := by
  rw [Option.filter_filter]
  congr 1
  funext v
  rw [← Bool.decide_and, decide_eq_decide]
  exact ⟨And.right, fun hv => ⟨h.trans_lt hv, hv⟩⟩

theorem alike_liveSet (st : InMemoryStore) (key : String) (now : ℚ) :
    Alike now st (st.liveSet key now).2 where
  holds k m t ht := by
    have hexpiry : ((st.liveSet key now).2.entry k).expiry m =
        if key = k then ((st.entry k).expiry m).filter fun x => now < x
        else (st.entry k).expiry m := by
      rw [entry_liveSet]
      split
      · next hk => rw [hk, Entry.expiry_prune]
      · rfl
    unfold Holds
    rw [hexpiry]
    split
    · simp only [Option.filter_eq_some_iff, decide_eq_true_eq, and_assoc]
      exact exists_congr fun e => and_congr_right fun _ =>
        ⟨And.right, fun he => ⟨ht.trans_lt he, he⟩⟩
    · rfl
  fetched k t _ := by
    rw [fetched_eq, fetched_eq, entry_liveSet]
    split
    · next hk => rw [hk]; rfl
    · rfl

theorem alike_setMembers {ms : List String} (h : st.setMembers key now = (ms, st')) :
    Alike now st st' := by
  obtain rfl : (st.liveSet key now).2 = st' := congrArg Prod.snd h
  exact alike_liveSet st key now

theorem alike_setLen {n : Nat} (h : st.setLen key now = (n, st')) : Alike now st st' := by
  obtain rfl : (st.liveSet key now).2 = st' := congrArg Prod.snd h
  exact alike_liveSet st key now

theorem alike_kvGet {value : Option Json} (h : st.kvGet key now = (value, st')) :
    Alike now st st' := by
  obtain rfl : (st.kvGet key now).2 = st' := congrArg Prod.snd h
  constructor
  · intro k m t _
    unfold Holds
    rw [entry_kvGet]
    split
    · next hk => rw [hk]; rfl
    · rfl
  · intro k t ht
    rw [fetched_eq, fetched_eq, entry_kvGet]
    split
    · next hk =>
      subst hk
      exact congrArg (Option.map Prod.fst) (filter_live _ ht)
    · rfl

theorem alike_windowRange {minScore : ℚ} {entries : List (ℚ × Json)}
    (h : st.windowRange key minScore now = (entries, st')) : Alike now st st' := by
  obtain rfl : (st.windowRange key minScore now).2 = st' := congrArg Prod.snd h
  exact Alike.of_entry (fun _ => rfl) fun _ => rfl

theorem alike_windowAdd (st : InMemoryStore) (key : String) (score : ℚ) (value : Json)
    (ttl now : ℚ) : Alike now st (st.windowAdd key score value ttl now) :=
  Alike.of_entry (fun _ => rfl) fun _ => rfl

theorem alike_dedupSeen (st : InMemoryStore) (key : String) (ttl now : ℚ) :
    Alike now st (st.dedupSeen key ttl now).2 := by
  unfold dedupSeen
  split
  · exact Alike.refl now st
  · exact Alike.of_entry (fun _ => rfl) fun _ => rfl

/-! ### Writes -/

/-- A member that is added lives as long as its own time. -/
theorem holds_setAdd (member : String) (ttl : ℚ) (ht : now ≤ t) :
    (st.setAdd key member ttl none now).Holds k m t ↔
      if key = k ∧ member = m then t < now + ttl else st.Holds k m t := by
  have hexpiry : ((st.setAdd key member ttl none now).entry k).expiry m =
      if key = k then
        if member = m then some (now + ttl) else ((st.entry k).expiry m).filter fun x => now < x
      else (st.entry k).expiry m := by
    rw [entry_setAdd]
    split
    · next hk =>
      subst hk
      simp only [Entry.expiry, Option.bind_some, addMember, Option.all_none, true_or, if_true,
        Registry.lookup_put, Entry.lookup_members]
    · rfl
  unfold Holds
  rw [hexpiry]
  by_cases hk : key = k
  · by_cases hm : member = m
    · simp [hk, hm]
    · simp only [hk, hm, if_true, if_false, and_false, Option.filter_eq_some_iff, decide_eq_true_eq,
        and_assoc]
      exact exists_congr fun e => and_congr_right fun _ =>
        ⟨And.right, fun he => ⟨ht.trans_lt he, he⟩⟩
  · simp [hk]

theorem fetched_setAdd (member : String) (ttl : ℚ) :
    (st.setAdd key member ttl none now).fetched k t = st.fetched k t := by
  rw [fetched_eq, fetched_eq, entry_setAdd]
  split
  · next hk => rw [hk]
  · rfl

theorem holds_kvSet (value : Json) (ttl : ℚ) :
    (st.kvSet key value ttl now).Holds k m t ↔ st.Holds k m t := by
  unfold Holds
  rw [entry_kvSet]
  split
  · next hk => rw [hk]; rfl
  · rfl

theorem fetched_kvSet (value : Json) (ttl : ℚ) :
    (st.kvSet key value ttl now).fetched k t =
      if key = k then if t < now + ttl then some value else none else st.fetched k t := by
  rw [fetched_eq, fetched_eq, entry_kvSet]
  by_cases hk : key = k
  · simp only [hk, if_true, Option.filter]
    by_cases ht : t < now + ttl
    · simp [ht]
    · simp [ht]
  · simp [hk]

end InMemoryStore
