import CernityNdr.Anomaly.Training
import CernityNdr.Window.Keyed

/-! # The History in a Store

    What the model keeps in a store of its own: one entry for each row that
    was learned, under a key that ends with the start of its window. The keys
    of a cohort have a prefix of their own, and a read of the cohort finds
    the rows of the windows that count.

    * `isPrefixOf_rowKey`: the keys of a cohort.
    * `Holds.storedHistory`: what a read of the store returns.
    * `Holds.learn`: what it holds when a row is learned. -/

open CappedMap (FieldMap)

namespace OutboundBytes

variable {cfg : Config} {env : Env} {rows done : List Learned} {r r' : Learned} {row : Row}
  {e : External}

/-! ### Rows as values -/

@[simp] theorem Cohort.ofJson_toJson (c : Cohort) : Cohort.ofJson c.toJson = some c := rfl

@[simp] theorem Learned.ofJson_toJson (r : Learned) : Learned.ofJson r.toJson = some r := by
  have hread : Learned.ofJson r.toJson = (do
      let cohort ← Cohort.ofJson r.cohort.toJson
      let start ← Number.ofJson r.start.toJson
      let endTime ← Number.ofJson r.endTime.toJson
      let bytesOut ← Number.ofJson r.bytesOut.toJson
      return ⟨r.tenant, cohort, r.entity, start, endTime, bytesOut⟩) := rfl
  rw [hread]
  simp

/-! ### Identities -/

theorem bytes_injective : Function.Injective bytes := by
  intro s t h
  exact String.ofList_injective (ObjectKeys.encode_injective h)

theorem sortKeys_cohort (tenant : String) (c : Cohort) :
    Json.sortKeys (.arr [.str tenant, c.toJson]) = .arr [.str tenant,
      .obj [("method", .str c.method), ("role", .str c.role), ("subnet", .str c.subnet)]] := by
  simp [Json.sortKeys, Json.sortKeys.items, Json.sortKeys.members, Cohort.toJson,
    List.insertionSort, List.orderedInsert]

theorem cohortIdentity_inj (h : cohortIdentity r.tenant r.cohort = cohortIdentity r'.tenant r'.cohort) :
    r.tenant = r'.tenant ∧ r.cohort = r'.cohort := by
  have hvalues := Json.dumps_injective h
  rw [sortKeys_cohort, sortKeys_cohort] at hvalues
  simp only [Json.arr.injEq, List.cons.injEq, Json.str.injEq, Json.obj.injEq, Prod.mk.injEq,
    true_and, and_true] at hvalues
  obtain ⟨htenant, hmethod, hrole, hsubnet⟩ := hvalues
  refine ⟨htenant, ?_⟩
  cases hr : r.cohort
  cases hr' : r'.cohort
  simp_all

theorem entityIdentity_inj (h : entityIdentity r.entity = entityIdentity r'.entity) :
    r.entity = r'.entity :=
  Json.str.inj (Json.dumps_injective h)

/-- What is hashed for the key of a row. -/
def identities (r : Learned) : List (List UInt8) :=
  [bytes (cohortIdentity r.tenant r.cohort), bytes (entityIdentity r.entity)]

/-- The hash is injective on the identities of these rows. -/
def Separates (sha256 : ObjectKeys.Digest) (rows : List Learned) : Prop :=
  ∀ a ∈ rows.flatMap identities, ∀ b ∈ rows.flatMap identities,
    sha256.hexdigest a = sha256.hexdigest b → a = b

theorem Separates.cohort (h : Separates env.sha256 rows) (hr : r ∈ rows) (hr' : r' ∈ rows)
    (heq : env.sha256.hexdigest (bytes (cohortIdentity r.tenant r.cohort)) =
      env.sha256.hexdigest (bytes (cohortIdentity r'.tenant r'.cohort))) :
    r.tenant = r'.tenant ∧ r.cohort = r'.cohort :=
  cohortIdentity_inj (bytes_injective (h _ (List.mem_flatMap.mpr ⟨r, hr, by simp [identities]⟩) _
    (List.mem_flatMap.mpr ⟨r', hr', by simp [identities]⟩) heq))

theorem Separates.entity (h : Separates env.sha256 rows) (hr : r ∈ rows) (hr' : r' ∈ rows)
    (heq : env.sha256.hexdigest (bytes (entityIdentity r.entity)) =
      env.sha256.hexdigest (bytes (entityIdentity r'.entity))) : r.entity = r'.entity :=
  entityIdentity_inj (bytes_injective (h _ (List.mem_flatMap.mpr ⟨r, hr, by simp [identities]⟩) _
    (List.mem_flatMap.mpr ⟨r', hr', by simp [identities]⟩) heq))

/-! ### Keys -/

theorem toList_historyPrefix (env : Env) (r : Learned) : (historyPrefix env r).toList =
    "ob:v1:".toList ++ env.sha256.hexdigest (bytes (cohortIdentity r.tenant r.cohort)) ++ [':'] :=
  String.toList_ofList

theorem toList_rowKey (env : Env) (r : Learned) : (rowKey env r).toList =
    (historyPrefix env r).toList ++ env.sha256.hexdigest (bytes (entityIdentity r.entity)) ++
      ':' :: r.start.str := String.toList_ofList

theorem length_historyPrefix (env : Env) (r r' : Learned) :
    (historyPrefix env r).toList.length = (historyPrefix env r').toList.length := by
  rw [toList_historyPrefix, toList_historyPrefix]
  simp only [List.length_append, env.sha256.length]

theorem historyPrefix_eq (h : Separates env.sha256 rows) (hr : r ∈ rows) (hr' : r' ∈ rows)
    (heq : (historyPrefix env r).toList = (historyPrefix env r').toList) :
    r.tenant = r'.tenant ∧ r.cohort = r'.cohort := by
  rw [toList_historyPrefix, toList_historyPrefix, List.append_assoc, List.append_assoc] at heq
  have hhash := List.append_inj_left' (List.append_cancel_left heq) rfl
  exact h.cohort hr hr' hhash

/-- The keys with the prefix of a row are those of its cohort. -/
theorem isPrefixOf_rowKey (h : Separates env.sha256 rows) (hr : r ∈ rows) (hr' : r' ∈ rows) :
    (historyPrefix env r).toList.isPrefixOf (rowKey env r').toList =
      decide (r'.tenant = r.tenant ∧ r'.cohort = r.cohort) := by
  rw [Bool.eq_iff_iff, List.isPrefixOf_iff_prefix, decide_eq_true_eq, toList_rowKey, List.append_assoc]
  constructor
  · intro hprefix
    obtain ⟨rest, heq⟩ := hprefix
    have hown := (List.append_inj heq (length_historyPrefix env r r')).1
    exact historyPrefix_eq h hr' hr hown.symm
  · rintro ⟨htenant, hcohort⟩
    have hsame : (historyPrefix env r).toList = (historyPrefix env r').toList := by
      rw [toList_historyPrefix, toList_historyPrefix, htenant, hcohort]
    rw [hsame]
    exact List.prefix_append _ _

/-- A key stands for one row of a cohort, an entity and a start. -/
theorem rowKey_inj (h : Separates env.sha256 rows) (hr : r ∈ rows) (hr' : r' ∈ rows)
    (heq : rowKey env r = rowKey env r') : r.tenant = r'.tenant ∧ r.cohort = r'.cohort ∧
      r.entity = r'.entity ∧ r.start.value = r'.start.value := by
  have hlist := congrArg String.toList heq
  rw [toList_rowKey, toList_rowKey, List.append_assoc, List.append_assoc] at hlist
  obtain ⟨hpfx, hrest⟩ := List.append_inj hlist (length_historyPrefix env r r')
  obtain ⟨hentity, hstart⟩ := List.append_inj hrest (by rw [env.sha256.length, env.sha256.length])
  obtain ⟨htenant, hcohort⟩ := historyPrefix_eq h hr hr' hpfx
  exact ⟨htenant, hcohort, h.entity hr hr' hentity,
    Number.value_eq_of_str (List.cons.inj hstart).2⟩

/-- The start that is read from a key. -/
theorem keyStart_rowKey (env : Env) (r : Learned) : keyStart (rowKey env r) = some r.start.value := by
  rw [keyStart, toList_rowKey, if_pos (by simp), Affix.rpartition_append (Number.colon_notMem_str _)]
  exact Number.ofText_str _

/-! ### What the store holds -/

/-- The seconds for which a row is stored when the clock shows `now`. -/
def timeToLive (cfg : Config) (r : Learned) (now : ℚ) : ℚ :=
  r.endTime.value + cfg.retentionSeconds - now

/-- Whenever one of the rows is learned, it has not expired yet and does not
    expire at any later reading. -/
def NoExpiry (cfg : Config) (env : Env) (rows : List Learned) : Prop :=
  ∀ r ∈ rows, ∀ n, 0 < timeToLive cfg r (env.time n) ∧ ∀ k, n + 1 < k →
    env.time k < env.time (n + 1) + ⌈timeToLive cfg r (env.time n) * 1000⌉ / 1000

/-- The store has one entry for each row that was learned, and nothing else. -/
structure Holds (env : Env) (done : List Learned) (e : External) : Prop where
  only : e.store = { InMemoryStore.empty with kv := e.store.kv }
  entries : (e.store.kv.vals.map fun v => (v.1, v.2.1)).Perm
    (done.map fun r => (rowKey env r, r.toJson))
  alive : ∀ v ∈ e.store.kv.vals, ∀ n, e.readings ≤ n → env.time n < v.2.2

theorem Holds.empty (env : Env) : Holds env [] ⟨.empty, 0⟩ where
  only := rfl
  entries := List.Perm.refl _
  alive _ hv := absurd hv List.not_mem_nil

theorem Holds.later (h : Holds env done e) {n : Nat} (hn : e.readings ≤ n) :
    Holds env done ⟨e.store, n⟩ where
  only := h.only
  entries := h.entries
  alive v hv k hk := h.alive v hv k (hn.trans hk)

theorem Holds.keys (h : Holds env done e) : e.store.kv.keys.Perm (done.map (rowKey env)) := by
  have hfst := h.entries.map Prod.fst
  rw [List.map_map, List.map_map] at hfst
  exact hfst

/-- The entry of a row. -/
theorem Holds.lookup (h : Holds env done e) (hr : r ∈ done) : ∃ expiry,
    e.store.kv.lookup (rowKey env r) = some (r.toJson, expiry) ∧ env.time e.readings < expiry := by
  have hentry := h.entries.mem_iff.mpr (List.mem_map_of_mem hr)
  obtain ⟨⟨key, value, expiry⟩, hv, heq⟩ := List.mem_map.mp hentry
  obtain ⟨rfl, rfl⟩ := Prod.mk.inj heq
  exact ⟨expiry, Registry.lookup_eq_some.mpr hv, h.alive _ hv _ le_rfl⟩

theorem Holds.kvGet (h : Holds env done e) (hr : r ∈ done) :
    e.store.kvGet (rowKey env r) (env.time e.readings) = (some r.toJson, e.store) := by
  obtain ⟨expiry, hlookup, hlive⟩ := h.lookup hr
  have hfilter : ((e.store.kv.lookup (rowKey env r)).filter
      fun v => env.time e.readings < v.2) = some (r.toJson, expiry) := by
    rw [hlookup]
    exact Option.filter_eq_some_iff.mpr ⟨rfl, decide_eq_true hlive⟩
  rw [InMemoryStore.kvGet, hfilter]

theorem Holds.keysMatching (h : Holds env done e) (pfx : String) :
    (e.store.keysMatching pfx (env.time e.readings)).Perm
      ((done.map (rowKey env)).filter fun k => pfx.toList.isPrefixOf k.toList) := by
  have hlive : (e.store.kv.vals.filter fun v => env.time e.readings < v.2.2) = e.store.kv.vals := by
    rw [List.filter_eq_self]
    exact fun v hv => decide_eq_true (h.alive v hv _ le_rfl)
  have hkeys : e.store.keysMatching pfx (env.time e.readings) =
      ((e.store.kv.keys.filter fun k => pfx.toList.isPrefixOf k.toList).dedup).insertionSort
        (· ≤ ·) := by
    have hst := h.only
    rw [InMemoryStore.keysMatching, hlive]
    -- the other tables are empty
    have hz : e.store.z = .empty := by rw [hst]; rfl
    have hzs : e.store.zs = .empty := by rw [hst]; rfl
    have hh : e.store.h = .empty := by rw [hst]; rfl
    have hs : e.store.s = .empty := by rw [hst]; rfl
    rw [hz, hzs, hh, hs]
    rfl
  have hnodup : (e.store.kv.keys.filter fun k => pfx.toList.isPrefixOf k.toList).Nodup :=
    e.store.kv.keys_nodup.filter _
  rw [hkeys, List.dedup_eq_self.mpr hnodup]
  exact (List.perm_insertionSort _ _).trans (h.keys.filter _)

/-! ### Reading -/

/-- A rearrangement of an image is the image of a rearrangement. -/
theorem exists_map_of_perm {α β : Type} {f : α → β} {l : List β} {m : List α}
    (h : l.Perm (m.map f)) : ∃ m' : List α, m'.Perm m ∧ l = m'.map f := by
  have hrel : List.Forall₂ (fun b a => b = f a) (m.map f) m := by
    rw [List.forall₂_map_left_iff, List.forall₂_same]
    exact fun _ _ => rfl
  obtain ⟨m', hm', hperm⟩ := List.perm_comp_forall₂ h hrel
  refine ⟨m', hperm, ?_⟩
  have heq := List.forall₂_map_right_iff.mpr hm'
  rwa [List.forall₂_eq_eq_eq] at heq

/-- Reading the entries of rows gives the rows of the windows that count. -/
theorem Holds.readKeys (since before : ℚ) {rs : List Learned} (hrs : ∀ r ∈ rs, r ∈ done)
    (h : Holds env done e) : ∃ n, OutboundBytes.readKeys env since before (rs.map (rowKey env)) e =
      some (rs.filter fun r => since ≤ r.start.value ∧ r.start.value < before, ⟨e.store, n⟩) ∧
      e.readings ≤ n := by
  induction rs generalizing e with
  | nil => exact ⟨e.readings, rfl, le_rfl⟩
  | cons r rs ih =>
    have hrest : ∀ r ∈ rs, r ∈ done := fun x hx => hrs x (List.mem_cons_of_mem r hx)
    rw [List.map_cons, OutboundBytes.readKeys, keyStart_rowKey]
    simp only [Option.bind_eq_bind, Option.bind_some]
    by_cases hin : since ≤ r.start.value ∧ r.start.value < before
    · obtain ⟨n, hread, hn⟩ := ih hrest (h.later (Nat.le_succ e.readings))
      refine ⟨n, ?_, (Nat.le_succ e.readings).trans hn⟩
      rw [if_pos hin, h.kvGet (hrs r List.mem_cons_self), List.filter_cons_of_pos (by simpa using hin)]
      simp only [hread, Option.bind_some, Learned.ofJson_toJson]
      rfl
    · obtain ⟨n, hread, hn⟩ := ih hrest h
      refine ⟨n, ?_, hn⟩
      rw [if_neg hin, hread, List.filter_cons_of_neg (by simpa using hin)]

/-- The rows of a cohort in the windows that a read covers. -/
def covered (cfg : Config) (done : List Learned) (row : Row) : List Learned :=
  done.filter fun r => (r.tenant = row.tenant ∧ r.cohort = row.cohort) ∧
    cutoff cfg row.toLearned ≤ r.start.value ∧ r.start.value < row.start.value

variable (cfg) in
/-- What a read of the store returns. -/
theorem Holds.storedHistory (hsep : Separates env.sha256 rows) (hdone : ∀ r ∈ done, r ∈ rows)
    (hrow : row.toLearned ∈ rows) (h : Holds env done e) : ∃ found n,
      storedHistory cfg env row e = some (found, ⟨e.store, n⟩) ∧
      found.Perm (covered cfg done row) ∧ e.readings ≤ n := by
  have hkeys := h.keysMatching (historyPrefix env row.toLearned)
  have hcohort : (done.map (rowKey env)).filter (fun k =>
      (historyPrefix env row.toLearned).toList.isPrefixOf k.toList) =
      (done.filter fun r => decide (r.tenant = row.tenant ∧ r.cohort = row.cohort)).map
        (rowKey env) := by
    rw [List.filter_map]
    congr 1
    apply List.filter_congr
    intro r hr
    exact isPrefixOf_rowKey hsep hrow (hdone r hr)
  rw [hcohort] at hkeys
  obtain ⟨rs, hperm, heq⟩ := exists_map_of_perm hkeys
  have hrs : ∀ r ∈ rs, r ∈ done := fun r hr => (List.mem_filter.mp (hperm.mem_iff.mp hr)).1
  obtain ⟨n, hread, hn⟩ := (h.later (Nat.le_succ e.readings)).readKeys
    (cutoff cfg row.toLearned) row.start.value hrs
  refine ⟨rs.filter fun r => cutoff cfg row.toLearned ≤ r.start.value ∧
    r.start.value < row.start.value, n, ?_, ?_, (Nat.le_succ e.readings).trans hn⟩
  · rw [OutboundBytes.storedHistory, heq]
    exact hread
  · refine (hperm.filter _).trans (List.Perm.of_eq ?_)
    rw [List.filter_filter, covered]
    apply List.filter_congr
    intro r _
    rw [Bool.eq_iff_iff]
    simp only [Bool.and_eq_true, decide_eq_true_eq]
    tauto

/-! ### The snapshot of a window -/

variable {window batch : List Row} {snapshot : FieldMap String (List Learned)}

/-- What a snapshot has for a row of the window is what a read would return. -/
def Sound (cfg : Config) (env : Env) (done : List Learned) (window : List Row)
    (snapshot : FieldMap String (List Learned)) : Prop :=
  ∀ row ∈ window, ∀ found, snapshot.lookup (historyPrefix env row.toLearned) = some found →
    found.Perm (covered cfg done row)

/-- The read for one row of a window covers the rows of its cohort. -/
theorem Sound.put (hsep : Separates env.sha256 rows) (hwindow : ∀ row ∈ window, row.toLearned ∈ rows)
    (hsame : ∀ a ∈ window, ∀ b ∈ window, a.start.value = b.start.value ∧
      cutoff cfg a.toLearned = cutoff cfg b.toLearned)
    (h : Sound cfg env done window snapshot) (hrow : row ∈ window) {found : List Learned}
    (hfound : found.Perm (covered cfg done row)) :
    Sound cfg env done window (snapshot.put (historyPrefix env row.toLearned, found)) := by
  intro other hother found' hlookup
  rw [Registry.lookup_put] at hlookup
  by_cases hpfx : historyPrefix env row.toLearned = historyPrefix env other.toLearned
  · rw [if_pos hpfx] at hlookup
    obtain rfl := Option.some.inj hlookup
    obtain ⟨htenant, hcohort⟩ := historyPrefix_eq hsep (hwindow row hrow) (hwindow other hother)
      (congrArg String.toList hpfx)
    obtain ⟨hstart, hcutoff⟩ := hsame row hrow other hother
    have hcovered : covered cfg done row = covered cfg done other := by
      rw [covered, covered, htenant, hcohort, hstart, hcutoff]
    rwa [← hcovered]
  · rw [if_neg hpfx] at hlookup
    exact h other hother found' hlookup

theorem Holds.takeSnapshot (hsep : Separates env.sha256 rows) (hdone : ∀ r ∈ done, r ∈ rows)
    (hwindow : ∀ row ∈ window, row.toLearned ∈ rows)
    (hsame : ∀ a ∈ window, ∀ b ∈ window, a.start.value = b.start.value ∧
      cutoff cfg a.toLearned = cutoff cfg b.toLearned)
    (hbatch : ∀ row ∈ batch, row ∈ window) (hsound : Sound cfg env done window snapshot)
    (h : Holds env done e) : ∃ snapshot' n,
      takeSnapshot cfg env batch snapshot e = some (snapshot', ⟨e.store, n⟩) ∧ e.readings ≤ n ∧
      Sound cfg env done window snapshot' ∧ (∀ k ∈ snapshot.keys, k ∈ snapshot'.keys) ∧
      ∀ row ∈ batch, historyPrefix env row.toLearned ∈ snapshot'.keys := by
  induction batch generalizing snapshot e with
  | nil =>
    exact ⟨snapshot, e.readings, rfl, le_rfl, hsound, fun _ hk => hk,
      fun row hrow => absurd hrow List.not_mem_nil⟩
  | cons row batch ih =>
    have hrest : ∀ row ∈ batch, row ∈ window := fun x hx => hbatch x (List.mem_cons_of_mem row hx)
    have hrow : row ∈ window := hbatch row List.mem_cons_self
    rw [OutboundBytes.takeSnapshot]
    by_cases hmem : historyPrefix env row.toLearned ∈ snapshot.keys
    · obtain ⟨snapshot', n, htake, hn, hsound', hkept, hall⟩ := ih hrest hsound h
      refine ⟨snapshot', n, by rw [if_pos hmem, htake], hn, hsound', hkept, ?_⟩
      intro x hx
      rcases List.mem_cons.mp hx with rfl | hx
      · exact hkept _ hmem
      · exact hall x hx
    · obtain ⟨found, n, hread, hfound, hn⟩ :=
        Holds.storedHistory cfg hsep hdone (hwindow row hrow) h
      obtain ⟨snapshot', n', htake, hn', hsound', hkept, hall⟩ :=
        ih hrest (Sound.put hsep hwindow hsame hsound hrow hfound) (h.later hn)
      have hput : historyPrefix env row.toLearned ∈
          (snapshot.put (historyPrefix env row.toLearned, found)).keys :=
        Registry.mem_keys.mpr ⟨_, Registry.get?_put_self _ _⟩
      refine ⟨snapshot', n', ?_, hn.trans hn', hsound', ?_, ?_⟩
      · rw [if_neg hmem, hread]
        exact htake
      · intro k hk
        refine hkept k ?_
        rw [Registry.keys_put_of_notMem hmem]
        exact List.mem_append_left _ hk
      · intro x hx
        rcases List.mem_cons.mp hx with rfl | hx
        · exact hkept _ hput
        · exact hall x hx

/-! ### Learning -/

/-- What there is at most one row of. -/
def Learned.identity (r : Learned) : String × Cohort × String × ℚ :=
  (r.tenant, r.cohort, r.entity, r.start.value)

theorem rowKey_notMem (hsep : Separates env.sha256 rows) (hdone : ∀ r ∈ done, r ∈ rows)
    (hr : r ∈ rows) (hnew : r.identity ∉ done.map Learned.identity) :
    rowKey env r ∉ done.map (rowKey env) := by
  intro hmem
  obtain ⟨r', hr', heq⟩ := List.mem_map.mp hmem
  obtain ⟨htenant, hcohort, hentity, hstart⟩ := rowKey_inj hsep (hdone r' hr') hr heq
  refine hnew (List.mem_map.mpr ⟨r', hr', ?_⟩)
  rw [Learned.identity, Learned.identity, htenant, hcohort, hentity, hstart]

/-- A row that is learned is stored for good. -/
theorem Holds.learn (hexp : NoExpiry cfg env rows) (hrow : row.toLearned ∈ rows)
    (hnew : rowKey env row.toLearned ∉ done.map (rowKey env)) (h : Holds env done e) :
    Holds env (done ++ [row.toLearned]) (OutboundBytes.learn cfg env e row) := by
  obtain ⟨hlive, hstays⟩ := hexp row.toLearned hrow e.readings
  have habsent : rowKey env row.toLearned ∉ e.store.kv.keys :=
    fun hmem => hnew (h.keys.mem_iff.mp hmem)
  have hlookup : e.store.kv.lookup (rowKey env row.toLearned) = none := by
    rw [Registry.lookup, Option.map_eq_none_iff]
    cases hget : e.store.kv.get? (rowKey env row.toLearned) with
    | none => rfl
    | some v => exact absurd (Registry.mem_keys.mpr ⟨v, hget⟩) habsent
  have hset : e.store.kvSetOnce (rowKey env row.toLearned) row.toLearned.toJson
      (timeToLive cfg row.toLearned (env.time e.readings)) (env.time (e.readings + 1)) = _ :=
    InMemoryStore.kvSetOnce_of_absent hlive hlookup
  have hvals := Registry.vals_put_of_notMem (r := e.store.kv) (v := (rowKey env row.toLearned,
    row.toLearned.toJson, env.time (e.readings + 1) +
      ⌈timeToLive cfg row.toLearned (env.time e.readings) * 1000⌉ / 1000)) habsent
  rw [OutboundBytes.learn]
  show Holds env _ ⟨(e.store.kvSetOnce _ _ (timeToLive cfg row.toLearned _) _).2, _⟩
  rw [hset]
  generalize e.store.kv.put _ = kv at hvals
  constructor
  · exact congrArg (fun st : InMemoryStore => { st with kv := kv }) h.only
  · rw [hvals, List.map_append, List.map_append]
    exact h.entries.append (List.Perm.refl _)
  · intro v hv n hn
    have hn : e.readings + 2 ≤ n := hn
    rw [hvals] at hv
    rcases List.mem_append.mp hv with hv | hv
    · exact h.alive v hv n (by omega)
    · rw [List.mem_singleton.mp hv]
      exact hstays n (by omega)

theorem Holds.learnAll (hsep : Separates env.sha256 rows) (hexp : NoExpiry cfg env rows)
    (hdone : ∀ r ∈ done, r ∈ rows) (hbatch : ∀ row ∈ batch, row.toLearned ∈ rows)
    (hdistinct : ((done ++ batch.map Row.toLearned).map Learned.identity).Nodup)
    (h : Holds env done e) :
    Holds env (done ++ batch.map Row.toLearned) (batch.foldl (OutboundBytes.learn cfg env) e) := by
  induction batch generalizing done e with
  | nil =>
    rw [List.map_nil, List.append_nil]
    exact h
  | cons row batch ih =>
    have hrow := hbatch row List.mem_cons_self
    rw [List.map_cons, List.append_cons] at hdistinct ⊢
    have hnew : row.toLearned.identity ∉ done.map Learned.identity := by
      rw [List.map_append, List.map_append, List.nodup_append] at hdistinct
      intro hmem
      exact (List.nodup_append.mp hdistinct.1).2.2 _ hmem _ (List.mem_singleton_self _) rfl
    refine ih ?_ (fun x hx => hbatch x (List.mem_cons_of_mem row hx)) hdistinct
      (h.learn hexp hrow (rowKey_notMem hsep hdone hrow hnew))
    intro r hr
    rcases List.mem_append.mp hr with hr | hr
    · exact hdone r hr
    · exact List.mem_singleton.mp hr ▸ hrow

end OutboundBytes
