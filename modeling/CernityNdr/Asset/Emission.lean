import CernityNdr.Asset.Folding

/-! # The Fact Table Mirrors the Interval Cache

    `flush` walks `_pending_facts` only. What it leaves right is every
    subject and predicate the process has folded evidence of: the pending
    list is the current one, and `_emitted` holds the keys of the live rows,
    so the tombstones retire exactly what is gone. What it does not reach is
    a row of an earlier process whose subject and predicate are never
    folded again. -/

namespace AssetService

/-! ### The newest version of a key -/

/-- The order of the versions of one key: newer first, as new the more
    final one first. -/
def FactRow.rank (r : FactRow) : Int ×ₗ Bool := toLex (-r.updatedAt, !r.isFinal)

theorem keepNewest_eq : keepNewest = Registry.keepLeast (fun r => r.key) FactRow.rank := by
  funext best r
  unfold keepNewest Registry.keepLeast
  cases best.get? r.key with
  | none => rfl
  | some cur =>
    refine if_congr ?_ rfl rfl
    simp only [FactRow.rank, Prod.Lex.toLex_lt_toLex, Bool.or_eq_true, decide_eq_true_eq,
      Bool.and_eq_true, Bool.not_eq_true']
    rw [neg_lt_neg_iff, neg_inj]
    cases r.isFinal <;> cases cur.isFinal <;> simp

/-- The version of a key that `_authoritative` settles on. -/
def newest (rows : List FactRow)
    (key : String × String × Predicate × String × Iso × String) : Option FactRow :=
  (Registry.leasts (fun r : FactRow => r.key) FactRow.rank rows).get? key

theorem mem_authoritative {rows : List FactRow} {r : FactRow} :
    r ∈ authoritative rows ↔ newest rows r.key = some r ∧ r.isDeleted = false := by
  unfold authoritative newest
  rw [keepNewest_eq, List.mem_filter, Registry.mem_vals_iff]
  simp [Registry.leasts]

theorem authoritative_keys_nodup (rows : List FactRow) :
    ((authoritative rows).map (fun r => r.key)).Nodup :=
  (rows.foldl keepNewest .empty).nodup.sublist (List.filter_sublist.map _)

/-- A key that the insert does not write keeps its newest version. -/
theorem newest_insert_of_none (t : FactTable) (delay : Nat) {cols : List FactCols}
    {key : String × String × Predicate × String × Iso × String} (h : ∀ c ∈ cols, c.key ≠ key) :
    newest (t.insert delay cols).rows key = newest t.rows key := by
  unfold newest FactTable.insert
  refine Registry.get?_leasts_append_of_none ?_
  intro r hr
  obtain ⟨c, hc, rfl⟩ := List.mem_map.mp hr
  exact h c hc

/-- A key that the insert writes once has the new version. -/
theorem newest_insert_of_mem (t : FactTable) (delay : Nat) {cols : List FactCols} {c : FactCols}
    (hc : c ∈ cols) (honly : ∀ d ∈ cols, d.key = c.key → d = c) :
    newest (t.insert delay cols).rows c.key = some ⟨c, t.clock + 1 + delay⟩ := by
  unfold newest FactTable.insert
  refine Registry.get?_leasts_append_of_lt (List.mem_map.mpr ⟨c, hc, rfl⟩) rfl ?_ ?_
  · intro r hr hkey
    obtain ⟨d, hd, rfl⟩ := List.mem_map.mp hr
    rw [honly d hd hkey]
  · intro r hr _
    have hstamp := t.stamped r hr
    refine Prod.Lex.toLex_lt_toLex.mpr (Or.inl ?_)
    show -(t.clock + 1 + (delay : Int)) < -r.updatedAt
    omega

/-! ### The rows of one flush -/

/-- The key of the row that stores interval `key` of `k`. -/
def rowKey (tenant : String) (k : FactId) (key : IntervalKey) :
    String × String × Predicate × String × Iso × String :=
  (tenant, k.1, k.2, key.2.1, key.1, key.2.2)

theorem rowKey_inj {tenant : String} {k k' : FactId} {key key' : IntervalKey}
    (h : rowKey tenant k key = rowKey tenant k' key') : k = k' ∧ key = key' := by
  obtain ⟨s, p⟩ := k
  obtain ⟨s', p'⟩ := k'
  obtain ⟨vf, v, oid⟩ := key
  obtain ⟨vf', v', oid'⟩ := key'
  simp only [rowKey, Prod.mk.injEq] at h
  simp [h]

@[simp] theorem key_liveCols (tenant : String) (k : FactId) (iv : FactInterval) :
    (liveCols tenant k iv).key = rowKey tenant k iv.key := rfl

@[simp] theorem key_tombstone (tenant : String) (k : FactId) (key : IntervalKey) :
    (tombstone tenant k key).key = rowKey tenant k key := rfl

theorem mem_entryRows {tenant : String} {emitted : FactId → List IntervalKey}
    {entry : FactId × List FactInterval} {c : FactCols} :
    c ∈ entryRows tenant emitted entry ↔ (∃ iv ∈ entry.2, liveCols tenant entry.1 iv = c) ∨
      (∃ key ∈ emitted entry.1, key ∉ entry.2.map FactInterval.key ∧
        tombstone tenant entry.1 key = c) := by
  unfold entryRows
  simp only [List.mem_append, List.mem_map, List.mem_filter, Bool.not_eq_true',
    List.contains_eq_mem, decide_eq_false_iff_not, and_assoc]

theorem key_of_mem_entryRows {tenant : String} {emitted : FactId → List IntervalKey}
    {entry : FactId × List FactInterval} {c : FactCols} (h : c ∈ entryRows tenant emitted entry) :
    ∃ key, c.key = rowKey tenant entry.1 key := by
  rcases mem_entryRows.mp h with ⟨iv, -, rfl⟩ | ⟨key, -, -, rfl⟩
  · exact ⟨iv.key, rfl⟩
  · exact ⟨key, rfl⟩

/-- One entry writes each key once, up to equal tombstones. -/
theorem entryRows_only {tenant : String} {emitted : FactId → List IntervalKey}
    {entry : FactId × List FactInterval} (hnodup : (entry.2.map FactInterval.key).Nodup)
    {c d : FactCols} (hc : c ∈ entryRows tenant emitted entry)
    (hd : d ∈ entryRows tenant emitted entry) (hkey : d.key = c.key) : d = c := by
  rcases mem_entryRows.mp hc with ⟨iv, hiv, rfl⟩ | ⟨key, -, hgone, rfl⟩ <;>
    rcases mem_entryRows.mp hd with ⟨iv', hiv', rfl⟩ | ⟨key', -, hgone', rfl⟩ <;>
    simp only [key_liveCols, key_tombstone] at hkey <;>
    have hk := (rowKey_inj hkey).2
  · rw [List.inj_on_of_nodup_map hnodup hiv' hiv hk]
  · exact absurd (hk ▸ List.mem_map_of_mem hiv) hgone'
  · exact absurd (hk ▸ List.mem_map_of_mem hiv') hgone
  · rw [hk]

/-- The rows that one flush inserts. -/
def flushRows (tenant : String) (emitted : FactId → List IntervalKey) (pending : Pending) :
    List FactCols :=
  pending.vals.flatMap (entryRows tenant emitted)

theorem mem_flushRows {tenant : String} {emitted : FactId → List IntervalKey} {pending : Pending}
    {c : FactCols} : c ∈ flushRows tenant emitted pending ↔
      ∃ k ivs, pending.lookup k = some ivs ∧ c ∈ entryRows tenant emitted (k, ivs) := by
  unfold flushRows
  rw [List.mem_flatMap]
  constructor
  · rintro ⟨⟨k, ivs⟩, hmem, hc⟩
    exact ⟨k, ivs, Registry.lookup_eq_some.mpr hmem, hc⟩
  · rintro ⟨k, ivs, hlook, hc⟩
    exact ⟨(k, ivs), Registry.lookup_eq_some.mp hlook, hc⟩

/-- The intervals of every pending entry have distinct keys. -/
def PendingDistinct (pending : Pending) : Prop :=
  ∀ k ivs, pending.lookup k = some ivs → (ivs.map FactInterval.key).Nodup

theorem flushRows_only {tenant : String} {emitted : FactId → List IntervalKey} {pending : Pending}
    (hdistinct : PendingDistinct pending) {c d : FactCols}
    (hc : c ∈ flushRows tenant emitted pending) (hd : d ∈ flushRows tenant emitted pending)
    (hkey : d.key = c.key) : d = c := by
  obtain ⟨k, ivs, hlook, hc⟩ := mem_flushRows.mp hc
  obtain ⟨k', ivs', hlook', hd⟩ := mem_flushRows.mp hd
  obtain ⟨key, hck⟩ := key_of_mem_entryRows hc
  obtain ⟨key', hdk⟩ := key_of_mem_entryRows hd
  obtain ⟨rfl, -⟩ := rowKey_inj ((hdk.symm.trans hkey).trans hck)
  rw [hlook] at hlook'
  obtain rfl := Option.some.inj hlook'
  exact entryRows_only (hdistinct _ _ hlook) hc hd hkey

/-! ### The live rows after a flush -/

theorem mem_liveRows {tenant : String} {t : FactTable} {k : FactId} {r : FactRow} :
    r ∈ liveRows tenant t k ↔ r.key = rowKey tenant k r.intervalKey ∧
      newest t.rows r.key = some r ∧ r.isDeleted = false := by
  unfold liveRows
  rw [List.mem_filter, mem_authoritative, decide_eq_true_eq]
  obtain ⟨s, p⟩ := k
  simp only [rowKey, FactCols.key, FactRow.intervalKey, Prod.mk.injEq, and_true]
  tauto

theorem liveRows_keys_nodup (tenant : String) (t : FactTable) (k : FactId) :
    ((liveRows tenant t k).map FactRow.intervalKey).Nodup := by
  have hkeys : ((liveRows tenant t k).map (fun r => r.key)).Nodup :=
    (authoritative_keys_nodup t.rows).sublist (List.filter_sublist.map _)
  have hmap : (liveRows tenant t k).map (fun r => r.key) =
      ((liveRows tenant t k).map FactRow.intervalKey).map (rowKey tenant k) := by
    rw [List.map_map]
    exact List.map_congr_left fun r hr => (mem_liveRows.mp hr).1
  rw [hmap] at hkeys
  exact hkeys.of_map _

section Flush

variable {tenant : String} {emitted : FactId → List IntervalKey} {pending : Pending}
  {t : FactTable} (delay : Nat)

/-- A subject and predicate that is not pending keeps its live rows. -/
theorem mem_liveRows_flush_of_none {k : FactId} (hnone : pending.lookup k = none) (r : FactRow) :
    r ∈ liveRows tenant (t.insert delay (flushRows tenant emitted pending)) k ↔
      r ∈ liveRows tenant t k := by
  rw [mem_liveRows, mem_liveRows]
  refine and_congr_right fun hkey => ?_
  rw [newest_insert_of_none]
  intro c hc heq
  obtain ⟨k', ivs, hlook, hc⟩ := mem_flushRows.mp hc
  obtain ⟨key, hck⟩ := key_of_mem_entryRows hc
  obtain ⟨rfl, -⟩ := rowKey_inj ((hck.symm.trans heq).trans hkey)
  rw [hnone] at hlook
  cases hlook

/-- A pending one has the rows of its intervals, provided `_emitted` holds
    the keys of the rows that were live. -/
theorem mem_liveRows_flush_of_some {k : FactId} {ivs : List FactInterval}
    (hdistinct : PendingDistinct pending) (hlook : pending.lookup k = some ivs)
    (hemitted : ∀ r ∈ liveRows tenant t k, r.intervalKey ∈ emitted k) (r : FactRow) :
    r ∈ liveRows tenant (t.insert delay (flushRows tenant emitted pending)) k ↔
      ∃ iv ∈ ivs, r = ⟨liveCols tenant k iv, t.clock + 1 + delay⟩ := by
  rw [mem_liveRows]
  constructor
  · rintro ⟨hkey, hnew, hdel⟩
    by_cases hwritten : ∃ c ∈ flushRows tenant emitted pending, c.key = r.key
    · -- the flush writes this key: the row is the one it writes
      obtain ⟨c, hc, hck⟩ := hwritten
      rw [← hck, newest_insert_of_mem t delay hc
        (fun d hd hdk => flushRows_only hdistinct hc hd hdk)] at hnew
      obtain rfl := Option.some.inj hnew
      obtain ⟨k', ivs', hlook', hc⟩ := mem_flushRows.mp hc
      rcases mem_entryRows.mp hc with ⟨iv, hiv, rfl⟩ | ⟨key, -, -, rfl⟩
      · have hrow : rowKey tenant k' iv.key = rowKey tenant k iv.key := hkey
        obtain ⟨rfl, -⟩ := rowKey_inj hrow
        rw [hlook] at hlook'
        obtain rfl := Option.some.inj hlook'
        exact ⟨iv, hiv, rfl⟩
      · cases hdel
    · -- it does not: the row was live, so its key is either kept or retired
      exfalso
      have hno : ∀ c ∈ flushRows tenant emitted pending, c.key ≠ r.key :=
        fun c hc hck => hwritten ⟨c, hc, hck⟩
      rw [newest_insert_of_none t delay hno] at hnew
      have hin := hemitted r (mem_liveRows.mpr ⟨hkey, hnew, hdel⟩)
      by_cases hcur : r.intervalKey ∈ ivs.map FactInterval.key
      · obtain ⟨iv, hiv, hivkey⟩ := List.mem_map.mp hcur
        refine hno (liveCols tenant k iv) ?_ (by rw [hkey, key_liveCols, hivkey])
        exact mem_flushRows.mpr ⟨k, ivs, hlook, mem_entryRows.mpr (Or.inl ⟨iv, hiv, rfl⟩)⟩
      · refine hno (tombstone tenant k r.intervalKey) ?_ hkey.symm
        exact mem_flushRows.mpr
          ⟨k, ivs, hlook, mem_entryRows.mpr (Or.inr ⟨_, hin, hcur, rfl⟩)⟩
  · rintro ⟨iv, hiv, rfl⟩
    have hmem : liveCols tenant k iv ∈ flushRows tenant emitted pending :=
      mem_flushRows.mpr ⟨k, ivs, hlook, mem_entryRows.mpr (Or.inl ⟨iv, hiv, rfl⟩)⟩
    exact ⟨rfl, newest_insert_of_mem t delay hmem
      (fun d hd hdk => flushRows_only hdistinct hmem hd hdk), rfl⟩

end Flush

/-! ### Rows and intervals -/

/-- What a row says of its interval. -/
def FactRow.shape (r : FactRow) : String × Iso × Option Iso × String :=
  (r.value, r.validFrom, r.validTo, r.observationId)

/-- The same for an interval of the cache. -/
def FactInterval.shape (iv : FactInterval) : String × Iso × Option Iso × String :=
  (iv.value, iv.validFrom, iv.validTo, iv.observationId)

/-- The live rows of `k` are its current intervals: none is left over and
    none is missing. -/
def Mirrors (tenant : String) (w : World) (k : FactId) : Prop :=
  ((liveRows tenant w.facts k).map FactRow.shape).Perm
    ((w.proc.intervals k).map FactInterval.shape)

theorem liveRows_nodup (tenant : String) (t : FactTable) (k : FactId) :
    (liveRows tenant t k).Nodup := (liveRows_keys_nodup tenant t k).of_map _

/-- Tables with the same live rows of `k`. -/
theorem liveRows_perm {tenant : String} {t t' : FactTable} {k : FactId}
    (h : ∀ r, r ∈ liveRows tenant t k ↔ r ∈ liveRows tenant t' k) :
    (liveRows tenant t k).Perm (liveRows tenant t' k) :=
  (List.perm_ext_iff_of_nodup (liveRows_nodup tenant t k) (liveRows_nodup tenant t' k)).mpr h

/-- A pending entry that is flushed is mirrored. -/
theorem shapes_flush {tenant : String} {emitted : FactId → List IntervalKey} {pending : Pending}
    {t : FactTable} (delay : Nat) {k : FactId} {ivs : List FactInterval}
    (hdistinct : PendingDistinct pending) (hlook : pending.lookup k = some ivs)
    (hemitted : ∀ r ∈ liveRows tenant t k, r.intervalKey ∈ emitted k) :
    ((liveRows tenant (t.insert delay (flushRows tenant emitted pending)) k).map
      FactRow.shape).Perm (ivs.map FactInterval.shape) := by
  let row : FactInterval → FactRow := fun iv => ⟨liveCols tenant k iv, t.clock + 1 + delay⟩
  have hnodup : (ivs.map row).Nodup := by
    refine List.Nodup.of_map FactRow.intervalKey ?_
    rw [List.map_map]
    exact hdistinct k ivs hlook
  have hperm : (liveRows tenant (t.insert delay (flushRows tenant emitted pending)) k).Perm
      (ivs.map row) := by
    refine (List.perm_ext_iff_of_nodup (liveRows_nodup _ _ _) hnodup).mpr fun r => ?_
    rw [mem_liveRows_flush_of_some delay hdistinct hlook hemitted, List.mem_map]
    exact exists_congr fun iv => and_congr_right fun _ => eq_comm
  have hshapes := hperm.map FactRow.shape
  rw [List.map_map] at hshapes
  exact hshapes

/-! ### The invariant -/

/-- What holds in every state of a process that started from table `t₀`. -/
structure InStep (tenant : String) (t₀ : FactTable) (w : World) : Prop where
  /-- A pending list is the current one. -/
  pending_current : ∀ k ivs, w.proc.pendingFacts.lookup k = some ivs → ivs = w.proc.intervals k
  /-- What is pending has evidence. -/
  pending_holds : ∀ k ivs, w.proc.pendingFacts.lookup k = some ivs → w.proc.Holds k
  /-- `_emitted` holds the keys of the live rows. -/
  emitted_live : ∀ k, ∀ r ∈ liveRows tenant w.facts k, r.intervalKey ∈ w.proc.emitted k
  /-- What has evidence and is not pending is mirrored. -/
  clean : ∀ k, w.proc.Holds k → w.proc.pendingFacts.lookup k = none → Mirrors tenant w k
  /-- What has no evidence has the live rows it had at the start. -/
  untouched : ∀ k, ¬ w.proc.Holds k → ∀ r, r ∈ liveRows tenant w.facts k ↔
    r ∈ liveRows tenant t₀ k

theorem not_holds_fresh (emitted : FactId → List IntervalKey) (k : FactId) :
    ¬ ({ Process.fresh with emitted := emitted } : Process).Holds k := by
  obtain ⟨s, pred⟩ := k
  cases pred <;> simp [Process.Holds, Process.fresh, claims, Registry.empty]

theorem inStep_loaded (tenant : String) (t : FactTable) (identity : List IdentityRow) :
    InStep tenant t (World.loaded tenant t identity) where
  pending_current := by intro k ivs h; cases h
  pending_holds := by intro k ivs h; cases h
  emitted_live := fun k r hr => List.mem_map_of_mem hr
  clean := fun k hk => absurd hk (not_holds_fresh _ k)
  untouched := fun k _ r => Iff.rfl

/-- Folding an observation keeps the invariant. -/
theorem InStep.folded {tenant : String} {t₀ : FactTable} {w : World} (h : InStep tenant t₀ w)
    (obs : Obs) (obsId : String) (ts : Instant) :
    InStep tenant t₀ { w with proc := folded tenant w.proc obs obsId ts } where
  pending_current := by
    intro k ivs hlook
    rcases pending_folded tenant w.proc obs obsId ts k with ⟨hnew, -⟩ | ⟨hsame, hivs, -⟩
    · exact Option.some.inj (hlook.symm.trans hnew)
    · rw [show ivs = w.proc.intervals k from h.pending_current k ivs (hsame.symm.trans hlook)]
      exact hivs.symm
  pending_holds := by
    intro k ivs hlook
    rcases pending_folded tenant w.proc obs obsId ts k with ⟨-, hk⟩ | ⟨hsame, -, hk⟩
    · exact hk
    · exact hk.mpr (h.pending_holds k ivs (hsame.symm.trans hlook))
  emitted_live := h.emitted_live
  clean := by
    intro k hk hnone
    rcases pending_folded tenant w.proc obs obsId ts k with ⟨hnew, -⟩ | ⟨hsame, hivs, hiff⟩
    · exact absurd (hnone.symm.trans hnew) (by simp)
    · have hold := h.clean k (hiff.mp hk) (hsame.symm.trans hnone)
      show ((liveRows tenant w.facts k).map FactRow.shape).Perm _
      rw [hivs]
      exact hold
  untouched := fun k hk => h.untouched k fun hold => hk (holds_folded tenant w.proc obs obsId ts hold)

/-- So does writing the pending lists. -/
theorem InStep.flushFacts {tenant : String} {t₀ : FactTable} {w : World} (h : InStep tenant t₀ w)
    (delay : Nat) : InStep tenant t₀ (flushFacts tenant w delay) := by
  have hdistinct : PendingDistinct w.proc.pendingFacts := by
    intro k ivs hlook
    rw [h.pending_current k ivs hlook]
    exact keys_intervals w.proc k
  have hmirror : ∀ k, w.proc.Holds k → Mirrors tenant (AssetService.flushFacts tenant w delay) k := by
    intro k hk
    show ((liveRows tenant (w.facts.insert delay (flushRows tenant w.proc.emitted
      w.proc.pendingFacts)) k).map FactRow.shape).Perm ((w.proc.intervals k).map FactInterval.shape)
    cases hlook : w.proc.pendingFacts.lookup k with
    | some ivs =>
      rw [← h.pending_current k ivs hlook]
      exact shapes_flush delay hdistinct hlook (h.emitted_live k)
    | none =>
      refine List.Perm.trans ?_ (h.clean k hk hlook)
      exact (liveRows_perm (mem_liveRows_flush_of_none delay hlook)).map _
  refine ⟨?_, ?_, ?_, fun k hk _ => hmirror k hk, ?_⟩
  · intro k ivs hlook
    cases hlook
  · intro k ivs hlook
    cases hlook
  · intro k r hr
    show r.intervalKey ∈ updateEmitted w.proc.emitted w.proc.pendingFacts k
    have hr' : r ∈ liveRows tenant (w.facts.insert delay (flushRows tenant w.proc.emitted
      w.proc.pendingFacts)) k := hr
    unfold updateEmitted
    cases hlook : w.proc.pendingFacts.lookup k with
    | some ivs =>
      rw [mem_liveRows_flush_of_some delay hdistinct hlook (h.emitted_live k)] at hr'
      obtain ⟨iv, hiv, rfl⟩ := hr'
      exact List.mem_map.mpr ⟨iv, hiv, rfl⟩
    | none =>
      rw [mem_liveRows_flush_of_none delay hlook] at hr'
      exact h.emitted_live k r hr'
  · intro k hk r
    have hnone : w.proc.pendingFacts.lookup k = none := by
      cases hlook : w.proc.pendingFacts.lookup k with
      | none => rfl
      | some ivs => exact absurd (h.pending_holds k ivs hlook) hk
    exact (mem_liveRows_flush_of_none delay hnone r).trans (h.untouched k hk r)

theorem InStep.flushObservations {tenant : String} {t₀ : FactTable} {w : World}
    (h : InStep tenant t₀ w) : InStep tenant t₀ (flushObservations w) :=
  ⟨h.pending_current, h.pending_holds, h.emitted_live, h.clean, h.untouched⟩

/-- A flush leaves the world, or the world with the observations written,
    or with the facts written as well. -/
theorem InStep.flush {tenant : String} {t₀ : FactTable} {w : World} (h : InStep tenant t₀ w)
    (fault : Option Insert) (delay : Nat) : InStep tenant t₀ (flush tenant w fault delay).2 := by
  unfold AssetService.flush
  split
  · exact h
  · split
    · exact h
    · simp only
      split
      · exact h.flushObservations
      · split
        · exact h.flushObservations
        · exact h.flushObservations.flushFacts delay

/-- A flush that returns leaves nothing pending. -/
theorem pendingFacts_flush {tenant : String} {w : World} {fault : Option Insert} {delay : Nat}
    (hok : (flush tenant w fault delay).1 = true) (k : FactId) :
    (flush tenant w fault delay).2.proc.pendingFacts.lookup k = none := by
  unfold AssetService.flush at hok ⊢
  split at hok
  · cases hok
  · next hasset =>
    rw [if_neg hasset]
    split at hok
    · cases hok
    · next hobs =>
      rw [if_neg hobs]
      simp only at hok ⊢
      split at hok
      · cases hok
      · next hfact =>
        rw [if_neg hfact]
        by_cases hnil : (AssetService.flushObservations w).proc.pendingFacts.vals = []
        · rw [if_pos hnil]
          unfold Registry.lookup Registry.get?
          rw [hnil]
          rfl
        · rw [if_neg hnil]
          rfl

/-! ### Runs -/

/-- The process after a record. -/
def observed (tenant : String) (p : Process) (r : BusRecord) : Process :=
  (extractEvidence r.eve).foldl (fun p obs => folded tenant p obs r.obsId r.ts) p

/-- `observe` does not fail. -/
theorem observe_eq (tenant : String) (p : Process) (r : BusRecord) :
    observe tenant p r = .ok (observed tenant p r) := by
  unfold observe observed
  induction extractEvidence r.eve generalizing p with
  | nil => rfl
  | cons obs rest ih =>
    rw [List.foldlM_cons, foldObservation_eq, List.foldl_cons, ← ih]
    rfl

theorem InStep.observed {tenant : String} {t₀ : FactTable} {w : World} (h : InStep tenant t₀ w)
    (r : BusRecord) : InStep tenant t₀ { w with proc := observed tenant w.proc r } := by
  unfold AssetService.observed
  induction extractEvidence r.eve generalizing w with
  | nil => exact h
  | cons obs rest ih => exact ih (h.folded obs r.obsId r.ts)

theorem step_observe (tenant : String) (w : World) (r : BusRecord) :
    step tenant w (.observe r) = { w with proc := observed tenant w.proc r } := by
  simp only [step, observe_eq]

theorem InStep.step {tenant : String} {t₀ : FactTable} {w : World} (h : InStep tenant t₀ w)
    (i : Input) : InStep tenant t₀ (step tenant w i) := by
  cases i with
  | observe r =>
    rw [step_observe]
    exact h.observed r
  | flush fault delay => exact h.flush fault delay

theorem inStep_run (tenant : String) (t : FactTable) (identity : List IdentityRow)
    (is : List Input) :
    InStep tenant t (Machine.run (step tenant) (World.loaded tenant t identity) is) :=
  Machine.run_invariant (fun _ i h => h.step i) (inStep_loaded tenant t identity) is

/-- A flush that returns leaves what has evidence mirrored. -/
theorem InStep.mirrors_flush {tenant : String} {t₀ : FactTable} {w : World}
    (h : InStep tenant t₀ w) {fault : Option Insert} {delay : Nat}
    (hok : (AssetService.flush tenant w fault delay).1 = true) {k : FactId}
    (hk : (AssetService.flush tenant w fault delay).2.proc.Holds k) :
    Mirrors tenant (AssetService.flush tenant w fault delay).2 k :=
  (h.flush fault delay).clean k hk (pendingFacts_flush hok k)

/-- What has no evidence is mirrored only if it had no live row. -/
theorem InStep.mirrors_iff_of_not_holds {tenant : String} {t₀ : FactTable} {w : World}
    (h : InStep tenant t₀ w) {k : FactId} (hk : ¬ w.proc.Holds k) :
    Mirrors tenant w k ↔ liveRows tenant t₀ k = [] := by
  unfold Mirrors
  rw [intervals_of_not_holds hk, List.map_nil, List.perm_nil, List.map_eq_nil_iff,
    List.eq_nil_iff_forall_not_mem, List.eq_nil_iff_forall_not_mem]
  exact forall_congr' fun r => not_congr (h.untouched k hk r)

theorem holds_flush {tenant : String} {w : World} {fault : Option Insert} {delay : Nat}
    {k : FactId} : (flush tenant w fault delay).2.proc.Holds k ↔ w.proc.Holds k := by
  unfold AssetService.flush
  split
  · exact Iff.rfl
  · split
    · exact Iff.rfl
    · simp only
      split
      · exact Iff.rfl
      · split <;> exact Iff.rfl

/-- **When the table mirrors the cache.** After a flush that returns, the
    live rows of every subject and predicate are its current intervals if
    and only if the process holds evidence of every subject and predicate
    that had a live row in the table it started from. -/
theorem flush_mirrors_iff (tenant : String) (t : FactTable) (identity : List IdentityRow)
    (is : List Input) (fault : Option Insert) (delay : Nat)
    (hok : (flush tenant (Machine.run (step tenant) (World.loaded tenant t identity) is)
      fault delay).1 = true) :
    (∀ k, Mirrors tenant (flush tenant
      (Machine.run (step tenant) (World.loaded tenant t identity) is) fault delay).2 k) ↔
    ∀ k, liveRows tenant t k ≠ [] →
      (Machine.run (step tenant) (World.loaded tenant t identity) is).proc.Holds k := by
  have hrun := inStep_run tenant t identity is
  have hflush := hrun.flush fault delay
  constructor
  · intro hmirrors k hlive
    by_contra hk
    exact hlive ((hflush.mirrors_iff_of_not_holds fun h => hk (holds_flush.mp h)).mp (hmirrors k))
  · intro hheld k
    by_cases hk : (Machine.run (step tenant) (World.loaded tenant t identity) is).proc.Holds k
    · exact hrun.mirrors_flush hok (holds_flush.mpr hk)
    · have hempty : liveRows tenant t k = [] := by
        by_contra hlive
        exact hk (hheld k hlive)
      exact (hflush.mirrors_iff_of_not_holds fun h => hk (holds_flush.mp h)).mpr hempty

/-- A client asks 10.0.0.2 for the host `srv`. -/
def request : BusRecord := ⟨.http none (some "10.0.0.2") none (some "srv"), "obs:1", 2000000⟩

/-- The binding of that address, from a second before. -/
def lateBinding : BusRecord := ⟨.arp (some "10.0.0.2") (some "aa:01"), "obs:2", 1000000⟩

theorem flush_mirrors_request :
    (∀ k, Mirrors "default" (flush "default" (Machine.run (step "default")
      (World.loaded "default" (.empty 0) []) [.observe request]) none 0).2 k) ↔
    ∀ k, liveRows "default" (.empty 0) k ≠ [] → (Machine.run (step "default")
      (World.loaded "default" (.empty 0) []) [.observe request]).proc.Holds k :=
  flush_mirrors_iff "default" (.empty 0) [] [.observe request] none 0 (by decide +kernel)

/-- A process that sees the request before the binding. -/
def firstProcess : World :=
  Machine.run (step "default") (World.loaded "default" (.empty 0) [])
    [.observe request, .flush none 0, .observe lateBinding, .flush none 0]

/-- The next process, which replays both in the order of their times. -/
def secondProcess : World :=
  Machine.run (step "default") (World.loaded "default" firstProcess.facts firstProcess.identity)
    [.observe lateBinding, .observe request]

/-- The fact that the first process stored for the address is now one of
    the MAC, and the row of the address stays live. -/
theorem flush_leaves_stale_row :
    (flush "default" secondProcess none 0).1 = true ∧
    ¬ Mirrors "default" (flush "default" secondProcess none 0).2 ("ip:10.0.0.2", .hostname) := by
  refine And.intro (by decide +kernel) ?_
  intro hmirrors
  have hlen := hmirrors.length_eq
  rw [List.length_map, List.length_map] at hlen
  have hlive : (liveRows "default" (flush "default" secondProcess none 0).2.facts
      ("ip:10.0.0.2", .hostname)).length = 1 := by decide +kernel
  have hcache : ((flush "default" secondProcess none 0).2.proc.intervals
      ("ip:10.0.0.2", .hostname)).length = 0 := by decide +kernel
  omega

end AssetService
