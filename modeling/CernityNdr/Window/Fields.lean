import CernityNdr.Window.Memory

/-! # Per-Field Hashes of the Window Store

    What a batch of writes leaves in one hash while its window does not end.

    * `fieldsOf_writeField`: `field_set` is a write to a capped last-write
      map, and the count of refused writes is not one of its fields.
    * `Steady`: the hash neither expires nor starts anew between two times.
    * `fieldsOf_pipelineOps`: a batch acts on the fields of a hash as its
      `field_set` writes do, one after the other. -/

open CappedMap (FieldMap accept acceptAll)

namespace InMemoryStore

/-! ### One write -/

variable {h : FieldMap String ℚ} {field : String} {value : ℚ}

theorem keys_fieldsOf (h : FieldMap String ℚ) :
    (fieldsOf h).keys = h.keys.filter (· ≠ REFUSED_FIELD) := by
  simp only [fieldsOf, Registry.filter, Registry.keys, List.filter_map]
  rfl

theorem lookup_fieldsOf (h : FieldMap String ℚ) {field : String} (hfield : field ≠ REFUSED_FIELD) :
    (fieldsOf h).lookup field = h.lookup field := by
  ext value
  rw [Registry.lookup_eq_some, Registry.lookup_eq_some]
  simp [fieldsOf, Registry.filter, hfield]

theorem mem_keys_fieldsOf {field : String} :
    field ∈ (fieldsOf h).keys ↔ field ∈ h.keys ∧ field ≠ REFUSED_FIELD := by
  rw [keys_fieldsOf, List.mem_filter, decide_eq_true_iff]

/-- The number of fields that a cap counts. -/
theorem length_fieldsOf (h : FieldMap String ℚ) : ((fieldsOf h).vals.length : Int) = fieldCount h := by
  have hsplit : h.keys.length = h.keys.countP (· = REFUSED_FIELD) +
      (h.keys.filter (· ≠ REFUSED_FIELD)).length := by
    rw [← List.countP_eq_length_filter]
    simpa using List.length_eq_countP_add_countP (l := h.keys) (· = REFUSED_FIELD)
  have hcount : h.keys.countP (· = REFUSED_FIELD) = if REFUSED_FIELD ∈ h.keys then 1 else 0 := by
    rw [← h.keys_nodup.count]
    rfl
  rw [← CappedMap.length_keys, keys_fieldsOf, fieldCount, ← CappedMap.length_keys, hsplit, hcount]
  split
  · push_cast
    omega
  · push_cast
    omega

/-- The count of refused writes is not a field. -/
theorem fieldsOf_put_refused (h : FieldMap String ℚ) (n : ℚ) :
    fieldsOf (h.put (REFUSED_FIELD, n)) = fieldsOf h := by
  have hkeys : (fieldsOf (h.put (REFUSED_FIELD, n))).keys = (fieldsOf h).keys := by
    rw [keys_fieldsOf, keys_fieldsOf]
    by_cases hmem : REFUSED_FIELD ∈ h.keys
    · rw [Registry.keys_put_of_mem hmem]
    · rw [Registry.keys_put_of_notMem hmem, List.filter_append]
      simp
  apply Registry.ext_lookup hkeys
  intro k hk
  have hne := (mem_keys_fieldsOf.mp hk).2
  rw [lookup_fieldsOf _ hne, lookup_fieldsOf _ hne, Registry.lookup_put, if_neg (Ne.symm hne)]

theorem fieldsOf_put (h : FieldMap String ℚ) (hfield : field ≠ REFUSED_FIELD) (value : ℚ) :
    fieldsOf (h.put (field, value)) = (fieldsOf h).put (field, value) := by
  have hmem : field ∈ (fieldsOf h).keys ↔ field ∈ h.keys := by
    rw [mem_keys_fieldsOf]
    exact and_iff_left hfield
  have hkeys : (fieldsOf (h.put (field, value))).keys = ((fieldsOf h).put (field, value)).keys := by
    rw [keys_fieldsOf]
    by_cases hthere : field ∈ h.keys
    · rw [Registry.keys_put_of_mem hthere, Registry.keys_put_of_mem (hmem.mpr hthere),
        keys_fieldsOf]
    · rw [Registry.keys_put_of_notMem hthere, Registry.keys_put_of_notMem (mt hmem.mp hthere),
        keys_fieldsOf, List.filter_append]
      simp [hfield]
  apply Registry.ext_lookup hkeys
  intro k hk
  have hne := (mem_keys_fieldsOf.mp hk).2
  rw [lookup_fieldsOf _ hne, Registry.lookup_put, Registry.lookup_put, lookup_fieldsOf _ hne]

/-- `field_set` refuses what the capped map refuses. -/
theorem refused_fieldsOf (cap : Int) (h : FieldMap String ℚ) (hfield : field ≠ REFUSED_FIELD) :
    CappedMap.Refused cap (fieldsOf h) field ↔ field ∉ h.keys ∧ cap ≤ fieldCount h := by
  have hmem : field ∈ (fieldsOf h).keys ↔ field ∈ h.keys := by
    rw [mem_keys_fieldsOf]
    exact and_iff_left hfield
  rw [CappedMap.Refused, hmem, length_fieldsOf]

/-- `field_set` writes to a capped last-write map. -/
theorem fieldsOf_writeField (cap : Int) (h : FieldMap String ℚ) (hfield : field ≠ REFUSED_FIELD)
    (value : ℚ) :
    fieldsOf (writeField (some cap) h field value) = accept cap (fieldsOf h) (field, value) := by
  have hrefused := refused_fieldsOf cap h hfield
  simp only [writeField, Option.any_some, decide_eq_true_eq]
  by_cases hfull : field ∉ h.keys ∧ cap ≤ fieldCount h
  · rw [if_pos hfull, fieldsOf_put_refused]
    exact (CappedMap.accept_of_refused (w := (field, value)) (hrefused.mpr hfull)).symm
  · rw [if_neg hfull, fieldsOf_put h hfield]
    exact (CappedMap.accept_of_not_refused (w := (field, value)) (mt hrefused.mp hfull)).symm

/-- `field_set` counts what it refuses. -/
theorem refused_writeField (cap : Int) (h : FieldMap String ℚ) (hfield : field ≠ REFUSED_FIELD)
    (value : ℚ) :
    ((writeField (some cap) h field value).lookup REFUSED_FIELD).getD 0 =
      (h.lookup REFUSED_FIELD).getD 0 +
        if CappedMap.Refused cap (fieldsOf h) field then 1 else 0 := by
  simp only [writeField, Option.any_some, decide_eq_true_eq, refused_fieldsOf cap h hfield]
  by_cases hfull : field ∉ h.keys ∧ cap ≤ fieldCount h
  · rw [if_pos hfull, if_pos hfull, Registry.lookup_put, if_pos rfl, Option.getD_some]
  · rw [if_neg hfull, if_neg hfull, Registry.lookup_put, if_neg hfield, add_zero]

/-! ### What a write leaves of another key -/

variable {st st' : InMemoryStore} {key : String}

/-- The hash of a key and its expiry are as they were. -/
structure SameHash (key : String) (st st' : InMemoryStore) : Prop where
  hash : st'.h.lookup key = st.h.lookup key
  exp : st'.exp.lookup key = st.exp.lookup key

theorem SameHash.refl (key : String) (st : InMemoryStore) : SameHash key st st := ⟨rfl, rfl⟩

theorem SameHash.trans {st'' : InMemoryStore} (h : SameHash key st st') (h' : SameHash key st' st'') :
    SameHash key st st'' := ⟨h'.hash.trans h.hash, h'.exp.trans h.exp⟩

theorem SameHash.alive (h : SameHash key st st') (now : ℚ) : st'.alive key now = st.alive key now := by
  simp only [InMemoryStore.alive, h.exp]

theorem SameHash.hashAt (h : SameHash key st st') (now : ℚ) :
    st'.hashAt key now = st.hashAt key now := by
  simp only [InMemoryStore.hashAt, h.alive, h.hash]

theorem sameHash_windowAdd (st : InMemoryStore) {k : String} (hk : k ≠ key) (score : ℚ)
    (value : Json) (ttl now : ℚ) : SameHash key st (st.windowAdd k score value ttl now) := by
  refine ⟨rfl, ?_⟩
  show (st.exp.put (k, now + ttl)).lookup key = _
  rw [Registry.lookup_put, if_neg hk]

theorem sameHash_firstSeen (st : InMemoryStore) {k : String} (hk : k ≠ key) (member : String)
    (score ttl now : ℚ) : SameHash key st (st.firstSeen k member score ttl now) := by
  refine ⟨rfl, ?_⟩
  show (st.exp.put (k, now + ttl)).lookup key = _
  rw [Registry.lookup_put, if_neg hk]

theorem liveSet_snd (st : InMemoryStore) (k : String) (now : ℚ) :
    (st.liveSet k now).2.h = st.h ∧ (st.liveSet k now).2.exp = st.exp := by
  unfold liveSet
  split
  · exact ⟨rfl, rfl⟩
  · exact ⟨rfl, rfl⟩

theorem sameHash_setAdd (st : InMemoryStore) {k : String} (hk : k ≠ key) (member : String)
    (ttl : ℚ) (cap : Option Nat) (now : ℚ) : SameHash key st (st.setAdd k member ttl cap now) := by
  obtain ⟨hh, hexp⟩ := liveSet_snd st k now
  constructor
  · show (st.liveSet k now).2.h.lookup key = _
    rw [hh]
  · show ((st.liveSet k now).2.exp.put (k, now + ttl)).lookup key = _
    rw [Registry.lookup_put, if_neg hk, hexp]

theorem sameHash_index (st : InMemoryStore) {idx : Option String} (hidx : idx ≠ some key)
    (member : String) (ttl now : ℚ) : SameHash key st (st.index idx member ttl now) := by
  cases idx with
  | none => exact .refl key st
  | some k => exact sameHash_setAdd st (fun hk => hidx (congrArg some hk)) member ttl none now

theorem lookup_setDefault (exp : FieldMap String ℚ) (k key : String) (e : ℚ) :
    (setDefault exp k e).lookup key =
      if k = key then some ((exp.lookup key).getD e) else exp.lookup key := by
  unfold setDefault
  by_cases hk : k = key
  · subst hk
    rw [if_pos rfl]
    cases hexp : exp.lookup k with
    | none =>
      rw [Registry.lookup_put, if_pos rfl]
      rfl
    | some e' => exact hexp
  · rw [if_neg hk]
    split
    · rw [Registry.lookup_put, if_neg hk]
    · rfl

theorem sameHash_putHash (st : InMemoryStore) {k : String} (hk : k ≠ key) (h : FieldMap String ℚ)
    (ttl now : ℚ) : SameHash key st (st.putHash k h ttl now) := by
  constructor
  · show (st.h.put (k, h)).lookup key = _
    rw [Registry.lookup_put, if_neg hk]
  · show (setDefault _ k _).lookup key = _
    rw [lookup_setDefault, if_neg hk]
    split
    · rfl
    · rw [Registry.lookup_pop, if_neg hk]

/-! ### A window that does not end -/

/-- Between `start` and `stop` the key does not expire. -/
def Steady (st : InMemoryStore) (key : String) (start stop : ℚ) : Prop :=
  ∀ e, st.exp.lookup key = some e → e ≤ start ∨ stop < e

variable {start stop now now' ttl : ℚ}

theorem Steady.of_sameHash (hs : st.Steady key start stop) (h : SameHash key st st') :
    st'.Steady key start stop := by
  intro e he
  rw [h.exp] at he
  exact hs e he

theorem Steady.alive_eq (hs : st.Steady key start stop) (hnow : start ≤ now ∧ now ≤ stop)
    (hnow' : start ≤ now' ∧ now' ≤ stop) : st.alive key now = st.alive key now' := by
  unfold alive
  cases he : st.exp.lookup key with
  | none => rfl
  | some e =>
    simp only [decide_eq_decide]
    rcases hs e he with hold | hlate
    · constructor
      · intro h
        exact absurd (h.trans_le hold) (not_lt.mpr hnow.1)
      · intro h
        exact absurd (h.trans_le hold) (not_lt.mpr hnow'.1)
    · exact ⟨fun _ => hnow'.2.trans_lt hlate, fun _ => hnow.2.trans_lt hlate⟩

theorem Steady.hashAt_eq (hs : st.Steady key start stop) (hnow : start ≤ now ∧ now ≤ stop)
    (hnow' : start ≤ now' ∧ now' ≤ stop) : st.hashAt key now = st.hashAt key now' := by
  simp only [hashAt, hs.alive_eq hnow hnow']

/-- A hash that is written is alive until `stop`. -/
theorem exp_putHash (hs : st.Steady key start stop) (h : FieldMap String ℚ)
    (hnow : start ≤ now ∧ now ≤ stop) (httl : stop < start + ttl) :
    ∃ e, (st.putHash key h ttl now).exp.lookup key = some e ∧ stop < e := by
  have hfresh : stop < now + ttl := httl.trans_le (add_le_add_left hnow.1 ttl)
  show ∃ e, (setDefault _ key _).lookup key = some e ∧ _
  rw [lookup_setDefault, if_pos rfl]
  by_cases halive : st.alive key now = true
  · rw [if_pos halive]
    cases he : st.exp.lookup key with
    | none => exact ⟨_, rfl, hfresh⟩
    | some e =>
      refine ⟨e, rfl, ?_⟩
      simp only [alive, he, decide_eq_true_eq] at halive
      rcases hs e he with hold | hlate
      · exact absurd (halive.trans_le hold) (not_lt.mpr hnow.1)
      · exact hlate
  · rw [if_neg halive, Registry.lookup_pop, if_pos rfl]
    exact ⟨_, rfl, hfresh⟩

theorem steady_putHash (hs : st.Steady key start stop) (h : FieldMap String ℚ)
    (hnow : start ≤ now ∧ now ≤ stop) (httl : stop < start + ttl) :
    (st.putHash key h ttl now).Steady key start stop := by
  obtain ⟨e, he, hlate⟩ := exp_putHash hs h hnow httl
  intro e' he'
  rw [he] at he'
  cases he'
  exact Or.inr hlate

theorem hashAt_putHash (hs : st.Steady key start stop) (h : FieldMap String ℚ)
    (hnow : start ≤ now ∧ now ≤ stop) (httl : stop < start + ttl) :
    (st.putHash key h ttl now).hashAt key now = h := by
  obtain ⟨e, he, hlate⟩ := exp_putHash hs h hnow httl
  have halive : (st.putHash key h ttl now).alive key now = true := by
    simp only [alive, he, decide_eq_true_eq]
    exact hnow.2.trans_lt hlate
  have hput : (st.putHash key h ttl now).h.lookup key = some h := by
    show (st.h.put (key, h)).lookup key = _
    rw [Registry.lookup_put, if_pos rfl]
  rw [hashAt, if_pos halive, hput]
  rfl

/-! ### A batch -/

/-- The op writes no part of the hash of `key`, or one of its fields under
    the cap. -/
def WriteOp.FieldsOnly (key : String) (cap : Int) (ttl : ℚ) : WriteOp → Prop
  | win k idx _ _ _ => k ≠ key ∧ idx ≠ some key
  | cnt k _ _ _ idx => k ≠ key ∧ idx ≠ some key
  | fset k field _ ttl' idx cap' =>
    idx ≠ some key ∧ (k = key → field ≠ REFUSED_FIELD ∧ ttl' = ttl ∧ cap' = some cap)
  | znx k _ _ _ idx => k ≠ key ∧ idx ≠ some key
  | kv _ _ _ => True
  | sadd k _ _ => k ≠ key

/-- The field that the op writes in the hash of `key`. -/
def WriteOp.fieldWrite (key : String) : WriteOp → Option (String × ℚ)
  | fset k field value _ _ _ => if k = key then some (field, value) else none
  | _ => none

variable {op : WriteOp} {cap : Int}

/-- One op: the key stays steady, and the op acts on its fields as its write
    does. -/
theorem run_fieldsOnly (hs : st.Steady key start stop) (hop : op.FieldsOnly key cap ttl)
    (hnow : start ≤ now ∧ now ≤ stop) (httl : stop < start + ttl) :
    (op.run st now).Steady key start stop ∧
      fieldsOf ((op.run st now).hashAt key now) =
        acceptAll cap (fieldsOf (st.hashAt key now)) (op.fieldWrite key).toList := by
  have hother : SameHash key st (op.run st now) → op.fieldWrite key = none →
      (op.run st now).Steady key start stop ∧
        fieldsOf ((op.run st now).hashAt key now) =
          acceptAll cap (fieldsOf (st.hashAt key now)) (op.fieldWrite key).toList := by
    intro hsame hnone
    rw [hnone, hsame.hashAt]
    exact ⟨hs.of_sameHash hsame, rfl⟩
  cases op with
  | win k idx score value ttl' =>
    exact hother ((sameHash_windowAdd st hop.1 ..).trans (sameHash_index _ hop.2 ..)) rfl
  | cnt k field delta ttl' idx =>
    exact hother ((sameHash_putHash st hop.1 ..).trans (sameHash_index _ hop.2 ..)) rfl
  | znx k member score ttl' idx =>
    exact hother ((sameHash_firstSeen st hop.1 ..).trans (sameHash_index _ hop.2 ..)) rfl
  | kv k value ttl' => exact hother ⟨rfl, rfl⟩ rfl
  | sadd k member ttl' => exact hother (sameHash_setAdd st hop ..) rfl
  | fset k field value ttl' idx cap' =>
    obtain ⟨hidx, hfset⟩ := hop
    by_cases hk : k = key
    · obtain ⟨hfield, rfl, rfl⟩ := hfset hk
      subst hk
      have hsame := sameHash_index (st.fieldSet k field value ttl' (some cap) now) hidx k ttl' now
      have hwrite : ((WriteOp.fset k field value ttl' idx (some cap)).fieldWrite k).toList =
          [(field, value)] := by
        simp [WriteOp.fieldWrite]
      constructor
      · exact (steady_putHash hs _ hnow httl).of_sameHash hsame
      · rw [hwrite]
        show fieldsOf (((st.fieldSet k field value ttl' (some cap) now).index idx k ttl'
          now).hashAt k now) = accept cap (fieldsOf (st.hashAt k now)) (field, value)
        rw [hsame.hashAt, ← fieldsOf_writeField cap _ hfield]
        exact congrArg fieldsOf (hashAt_putHash hs _ hnow httl)
    · apply hother ((sameHash_putHash st hk ..).trans (sameHash_index _ hidx ..))
      exact if_neg hk

/-- The fields of a hash after a batch, read at any time of its window. -/
theorem fieldsOf_pipelineOps {ops : List (WriteOp × ℚ)} (hs : st.Steady key start stop)
    (hops : ∀ op ∈ ops, op.1.FieldsOnly key cap ttl ∧ start ≤ op.2 ∧ op.2 ≤ stop)
    (httl : stop < start + ttl) (hnow : start ≤ now ∧ now ≤ stop) :
    (st.pipelineOps ops).Steady key start stop ∧
      fieldsOf ((st.pipelineOps ops).hashAt key now) =
        acceptAll cap (fieldsOf (st.hashAt key now)) (ops.filterMap fun op => op.1.fieldWrite key) := by
  induction ops generalizing st with
  | nil => exact ⟨hs, rfl⟩
  | cons op ops ih =>
    obtain ⟨hop, htime⟩ := hops op List.mem_cons_self
    obtain ⟨hsteady, hfields⟩ := run_fieldsOnly hs hop htime httl
    obtain ⟨hsteady', hfields'⟩ := ih hsteady fun op' hop' => hops op' (List.mem_cons_of_mem _ hop')
    refine ⟨hsteady', ?_⟩
    rw [hsteady.hashAt_eq htime hnow, hs.hashAt_eq htime hnow] at hfields
    show fieldsOf (((op.1.run st op.2).pipelineOps ops).hashAt key now) = _
    rw [hfields', hfields, ← CappedMap.acceptAll_append]
    congr 1
    rw [List.filterMap_cons]
    cases op.1.fieldWrite key with
    | none => rfl
    | some w => rfl

end InMemoryStore
