import Mathlib.Order.Bounds.Basic
import CernityNdr.Asset.Relationships
import CernityNdr.Framework.Failing

/-! # Spans of Edges

    After a flush that returned, the row of every edge spans the observations
    of it that no crash has lost. The invariant (`Tracked`): the cache spans
    what was observed, the table spans what was written, and where the two
    may differ the edge is dirty. -/

namespace AssetService

/-! ### Spans -/

/-- The times at which an edge was observed, in milliseconds. -/
def seenAt (obs : List (EdgeKey × Instant)) (k : EdgeKey) : Set Int :=
  {m | ∃ t, (k, t) ∈ obs ∧ (iso t).ms = m}

/-- The bounds, if any, are the first and the last time of the edge. -/
def Spans (obs : List (EdgeKey × Instant)) (k : EdgeKey) : Option (Iso × Iso) → Prop
  | none => seenAt obs k = ∅
  | some (first, last) => IsLeast (seenAt obs k) first.ms ∧ IsGreatest (seenAt obs k) last.ms

def EdgeSlot.bounds (slot : EdgeSlot) : Iso × Iso := (iso slot.firstSeen, iso slot.lastSeen)

def EdgeRow.bounds (r : EdgeRow) : Iso × Iso := (r.firstSeen, r.lastSeen)

@[simp] theorem bounds_slot (r : EdgeRow) : r.slot.bounds = r.bounds := by
  simp [EdgeRow.slot, EdgeSlot.bounds, EdgeRow.bounds]

variable {obs : List (EdgeKey × Instant)} {k k' : EdgeKey} {ts : Instant} {a b : Option (Iso × Iso)}

theorem seenAt_snoc_ne (h : k' ≠ k) : seenAt (obs ++ [(k', ts)]) k = seenAt obs k := by
  ext m
  constructor
  · rintro ⟨t, ht, hm⟩
    rcases List.mem_append.mp ht with ht | ht
    · exact ⟨t, ht, hm⟩
    · exact absurd (congrArg Prod.fst (List.mem_singleton.mp ht)).symm h
  · rintro ⟨t, ht, hm⟩
    exact ⟨t, List.mem_append_left _ ht, hm⟩

theorem seenAt_snoc_self :
    seenAt (obs ++ [(k, ts)]) k = insert (iso ts).ms (seenAt obs k) := by
  ext m
  constructor
  · rintro ⟨t, ht, hm⟩
    rcases List.mem_append.mp ht with ht | ht
    · exact Or.inr ⟨t, ht, hm⟩
    · obtain rfl : t = ts := congrArg Prod.snd (List.mem_singleton.mp ht)
      exact Or.inl hm.symm
  · rintro (rfl | ⟨t, ht, hm⟩)
    · exact ⟨ts, by simp, rfl⟩
    · exact ⟨t, List.mem_append_left _ ht, hm⟩

/-- There is one span. -/
theorem Spans.unique (ha : Spans obs k a) (hb : Spans obs k b) : a = b := by
  cases a with
  | none =>
    cases b with
    | none => rfl
    | some b =>
      have hmem := hb.1.1
      rw [show seenAt obs k = ∅ from ha] at hmem
      exact absurd hmem (Set.notMem_empty _)
  | some a =>
    cases b with
    | none =>
      have hmem := ha.1.1
      rw [show seenAt obs k = ∅ from hb] at hmem
      exact absurd hmem (Set.notMem_empty _)
    | some b =>
      have hfirst : a.1.ms = b.1.ms := ha.1.unique hb.1
      have hlast : a.2.ms = b.2.ms := ha.2.unique hb.2
      obtain ⟨⟨f⟩, ⟨l⟩⟩ := a
      obtain ⟨⟨f'⟩, ⟨l'⟩⟩ := b
      simp only at hfirst hlast
      rw [hfirst, hlast]

theorem Spans.snoc_ne (h : Spans obs k a) (hne : k' ≠ k) : Spans (obs ++ [(k', ts)]) k a := by
  cases a <;> simpa only [Spans, seenAt_snoc_ne hne] using h

/-- The first observation. -/
theorem Spans.first (h : Spans obs k none) :
    Spans (obs ++ [(k, ts)]) k (some (iso ts, iso ts)) := by
  have hempty : seenAt obs k = ∅ := h
  simp only [Spans, seenAt_snoc_self, hempty, insert_empty_eq]
  exact ⟨isLeast_singleton, isGreatest_singleton⟩

theorem iso_mono {x y : Instant} (h : x ≤ y) : (iso x).ms ≤ (iso y).ms :=
  Int.ediv_le_ediv (by decide) h

/-- The slot after one more observation spans it. -/
theorem Spans.widen {slot : EdgeSlot} (h : Spans obs k (some slot.bounds)) (e : EdgeEvidence) :
    Spans (obs ++ [(k, ts)]) k (some (slot.widen ts e).bounds) := by
  simp only [Spans, seenAt_snoc_self]
  constructor
  · have hmin : (slot.widen ts e).bounds.1.ms = min (iso ts).ms slot.bounds.1.ms := by
      simp only [EdgeSlot.widen, EdgeSlot.bounds]
      split
      · next hlt => rw [min_eq_left (iso_mono hlt.le)]
      · next hge => rw [min_eq_right (iso_mono (not_lt.mp hge))]
    rw [hmin]
    exact h.1.insert _
  · have hmax : (slot.widen ts e).bounds.2.ms = max (iso ts).ms slot.bounds.2.ms := by
      simp only [EdgeSlot.widen, EdgeSlot.bounds]
      split
      · next hle => rw [max_eq_left (iso_mono hle)]
      · next hgt => rw [max_eq_right (iso_mono (not_le.mp hgt).le)]
    rw [hmax]
    exact h.2.insert _

/-! ### The cache -/

/-- The cache against what was observed and the bounds the table has. -/
structure Tracked (obs : List (EdgeKey × Instant)) (c : EdgeCache)
    (table : EdgeKey → Option (Iso × Iso)) : Prop where
  cached : ∀ k, Spans obs k ((c.edges.lookup k).map EdgeSlot.bounds)
  clean : ∀ k, k ∉ c.dirty → Spans obs k (table k)
  known : ∀ k ∈ c.dirty, ∃ slot, c.edges.lookup k = some slot
  nodup : c.dirty.Nodup

variable {c : EdgeCache} {table : EdgeKey → Option (Iso × Iso)}

/-- An observation in between leaves its bounds as they are. -/
theorem widen_of_between {slot : EdgeSlot} (e : EdgeEvidence) (hfirst : ¬ ts < slot.firstSeen)
    (hlast : ¬ slot.lastSeen ≤ ts) : slot.widen ts e = slot := by
  simp [EdgeSlot.widen, hfirst, hlast]

theorem Tracked.note (h : Tracked obs c table) (ts : Instant) (e : Edge) :
    Tracked (obs ++ [(e.key, ts)]) (c.note ts e) table := by
  have hclean : ∀ dirty : List EdgeKey, (∀ x, x ∉ dirty → x ∉ c.dirty ∧ x ≠ e.key) →
      ∀ x, x ∉ dirty → Spans (obs ++ [(e.key, ts)]) x (table x) := by
    intro dirty hdirty x hx
    obtain ⟨hclean, hne⟩ := hdirty x hx
    exact (h.clean x hclean).snoc_ne (Ne.symm hne)
  have hinsert : ∀ x, x ∉ c.dirty.insert e.key → x ∉ c.dirty ∧ x ≠ e.key := by
    intro x hx
    rw [List.mem_insert_iff, not_or] at hx
    exact ⟨hx.2, hx.1⟩
  have hknown : ∀ (slot : EdgeSlot), ∀ x ∈ c.dirty.insert e.key,
      ∃ s, (c.edges.put (e.key, slot)).lookup x = some s := by
    intro slot x hx
    rw [Registry.lookup_put]
    split
    · exact ⟨slot, rfl⟩
    · next hne =>
      exact h.known x ((List.mem_insert_iff.mp hx).resolve_left (Ne.symm hne))
  have hcached : ∀ slot : EdgeSlot, Spans (obs ++ [(e.key, ts)]) e.key (some slot.bounds) →
      ∀ x, Spans (obs ++ [(e.key, ts)]) x
        (((c.edges.put (e.key, slot)).lookup x).map EdgeSlot.bounds) := by
    intro slot hslot x
    rw [Registry.lookup_put]
    split
    · next heq => exact heq ▸ hslot
    · next hne => exact (h.cached x).snoc_ne hne
  have hold := h.cached e.key
  cases hlook : c.edges.lookup e.key with
  | none =>
    rw [hlook] at hold
    have hnote : c.note ts e =
        ⟨c.edges.put (e.key, ⟨ts, ts, e.evidence⟩), c.dirty.insert e.key⟩ := by
      simp [EdgeCache.note, hlook]
    rw [hnote]
    exact ⟨hcached _ hold.first, hclean _ hinsert, hknown _, h.nodup.insert⟩
  | some slot =>
    rw [hlook] at hold
    have hnote : c.note ts e = ⟨c.edges.put (e.key, slot.widen ts e.evidence),
        if ts < slot.firstSeen ∨ slot.lastSeen ≤ ts then c.dirty.insert e.key else c.dirty⟩ := by
      simp [EdgeCache.note, hlook]
    rw [hnote]
    have hwide : Spans (obs ++ [(e.key, ts)]) e.key (some (slot.widen ts e.evidence).bounds) :=
      Spans.widen hold e.evidence
    by_cases hmoves : ts < slot.firstSeen ∨ slot.lastSeen ≤ ts
    · rw [if_pos hmoves]
      exact ⟨hcached _ hwide, hclean _ hinsert, hknown _, h.nodup.insert⟩
    · rw [if_neg hmoves]
      refine ⟨hcached _ hwide, ?_, ?_, h.nodup⟩
      · intro x hx
        by_cases hxe : e.key = x
        · -- the bounds have not moved, so the row still spans
          subst hxe
          obtain ⟨hfirst, hlast⟩ := not_or.mp hmoves
          have hrow : table e.key = some slot.bounds := (h.clean _ hx).unique hold
          rw [hrow]
          rwa [widen_of_between e.evidence hfirst hlast] at hwide
        · exact (h.clean x hx).snoc_ne hxe
      · exact fun x hx => hknown _ x (List.mem_insert_of_mem hx)

theorem Tracked.noteAll (h : Tracked obs c table) (ts : Instant) (es : List Edge) :
    Tracked (obs ++ es.map fun e => (e.key, ts)) (es.foldl (EdgeCache.note ts) c) table := by
  induction es generalizing obs c with
  | nil => simpa using h
  | cons e es ih =>
    have hnext := ih (h.note ts e)
    rwa [List.append_assoc] at hnext

/-! ### The table -/

/-- The bounds of an edge in the table. -/
def storedBounds (tenant : String) (t : ReplacingTable EdgeRow) (k : EdgeKey) :
    Option (Iso × Iso) :=
  (t.final EdgeRow.order (tenant, k)).map EdgeRow.bounds

variable {tenant : String} {t : ReplacingTable EdgeRow}

/-- There is a row for each dirty edge, and no other row. -/
theorem Tracked.rows (h : Tracked obs c table) (tenant : String) :
    ∃ rows, c.rows tenant = some rows ∧ rows.map EdgeRow.order = c.dirty.map (Prod.mk tenant) ∧
      ∀ k ∈ c.dirty, ∃ slot, c.edges.lookup k = some slot ∧ edgeRow tenant k slot ∈ rows := by
  have hgiven : ∀ k ∈ c.dirty, ∃ row, (c.edges.lookup k).map (edgeRow tenant k) = some row := by
    intro k hk
    obtain ⟨slot, hslot⟩ := h.known k hk
    exact ⟨edgeRow tenant k slot, by rw [hslot]; rfl⟩
  obtain ⟨rows, hrows, hall⟩ := Option.exists_mapM hgiven
  refine ⟨rows, hrows, ?_, ?_⟩
  · clear hrows
    generalize c.dirty = ks at hall
    induction hall with
    | nil => rfl
    | cons hrow _ ih =>
      obtain ⟨slot, -, rfl⟩ := Option.map_eq_some_iff.mp hrow
      rw [List.map_cons, List.map_cons, ih]
      rfl
  · intro k hk
    obtain ⟨row, hmem, hrow⟩ := Option.exists_mem_of_forall₂ hall hk
    obtain ⟨slot, hslot, rfl⟩ := Option.map_eq_some_iff.mp hrow
    exact ⟨slot, hslot, hmem⟩

/-- After an insert of the dirty rows the table spans what was observed. -/
theorem Tracked.insert (h : Tracked obs c (storedBounds tenant t)) {rows : List EdgeRow}
    (hrows : c.rows tenant = some rows) (delay : Nat) (k : EdgeKey) :
    Spans obs k (storedBounds tenant (t.insert delay rows) k) := by
  obtain ⟨rows', hrows', hkeys, hdirty⟩ := h.rows tenant
  obtain rfl : rows' = rows := Option.some.inj (hrows'.symm.trans hrows)
  have hinj : Function.Injective (Prod.mk tenant : EdgeKey → String × EdgeKey) :=
    fun x y hxy => congrArg Prod.snd hxy
  unfold storedBounds
  by_cases hk : k ∈ c.dirty
  · obtain ⟨slot, hslot, hmem⟩ := hdirty k hk
    have hfinal : (t.insert delay rows').final EdgeRow.order (tenant, k) =
        some (edgeRow tenant k slot) :=
      ReplacingTable.final_insert_of_mem delay (by rw [hkeys]; exact h.nodup.map hinj) hmem
    rw [hfinal]
    have hspan := h.cached k
    rwa [hslot] at hspan
  · rw [ReplacingTable.final_insert_of_notMem delay]
    · exact h.clean k hk
    · rw [hkeys]
      exact fun hmem => hk ((List.mem_map_of_injective hinj).mp hmem)

/-- The rows of the tenant: one for each edge that has rows. -/
theorem mem_finalRows {r : EdgeRow} :
    r ∈ finalRows tenant t ↔ r.tenantId = tenant ∧ t.final EdgeRow.order r.order = some r := by
  simp only [finalRows, List.mem_filter, List.mem_filterMap, List.mem_dedup, decide_eq_true_eq]
  constructor
  · rintro ⟨⟨k, -, hk⟩, htenant⟩
    refine ⟨htenant, ?_⟩
    rw [(ReplacingTable.mem_of_final hk).2]
    exact hk
  · rintro ⟨htenant, hr⟩
    exact ⟨⟨r.order, (ReplacingTable.mem_of_final hr).1, hr⟩, htenant⟩

theorem keys_finalRows : ((finalRows tenant t).map EdgeRow.key).Nodup := by
  have hrows : (finalRows tenant t).Nodup := by
    refine List.Nodup.filter _ (List.Nodup.filterMap ?_ (List.nodup_dedup _))
    intro k k' r hr hr'
    rw [← (ReplacingTable.mem_of_final hr).2, ← (ReplacingTable.mem_of_final hr').2]
  refine hrows.map_on ?_
  intro r hr r' hr' hkey
  obtain ⟨htenant, hfinal⟩ := mem_finalRows.mp hr
  obtain ⟨htenant', hfinal'⟩ := mem_finalRows.mp hr'
  have horder : r.order = r'.order := Prod.ext (htenant.trans htenant'.symm) hkey
  rw [horder] at hfinal
  exact Option.some.inj (hfinal.symm.trans hfinal')

/-- What is loaded has the bounds of the table. -/
theorem bounds_loadEdges (tenant : String) (t : ReplacingTable EdgeRow) (k : EdgeKey) :
    ((loadEdges tenant t).edges.lookup k).map EdgeSlot.bounds = storedBounds tenant t k := by
  have hput : (loadEdges tenant t).edges =
      ((finalRows tenant t).map fun r => (r.key, r.slot)).foldl Registry.put .empty := by
    simp [loadEdges, List.foldl_map]
  have hnodup : (((finalRows tenant t).map fun r => (r.key, r.slot)).map Prod.fst).Nodup := by
    rw [List.map_map]
    exact keys_finalRows
  have hlook : (loadEdges tenant t).edges.lookup k =
      ((finalRows tenant t).find? fun r => r.key = k).map EdgeRow.slot := by
    unfold Registry.lookup
    rw [hput, Registry.get?_foldl_put _ hnodup, List.find?_map, Option.map_or, Option.map_map]
    simp [Function.comp_def, Registry.get?, Registry.empty]
  rw [hlook]
  unfold storedBounds
  cases hfind : (finalRows tenant t).find? fun r => r.key = k with
  | some r =>
    have hkey : r.key = k := by simpa using List.find?_some hfind
    obtain ⟨htenant, hfinal⟩ := mem_finalRows.mp (List.mem_of_find?_eq_some hfind)
    have horder : r.order = (tenant, k) := Prod.ext htenant hkey
    rw [← horder, hfinal]
    simp
  | none =>
    cases hfinal : t.final EdgeRow.order (tenant, k) with
    | none => rfl
    | some r =>
      have horder := (ReplacingTable.mem_of_final hfinal).2
      have hmem : r ∈ finalRows tenant t :=
        mem_finalRows.mpr ⟨congrArg Prod.fst horder, by rw [horder]; exact hfinal⟩
      have hkey : r.key = k := congrArg Prod.snd horder
      exact absurd hkey (by simpa using List.find?_eq_none.mp hfind r hmem)

/-! ### Runs -/

/-- The cache is tracked, and the table spans what was written. -/
structure RunTracked (tenant : String) (s : EdgeRun) : Prop where
  tracked : Tracked s.seen s.world.cache (storedBounds tenant s.world.table)
  stored : ∀ k, Spans s.saved k (storedBounds tenant s.world.table k)

theorem runTracked_initial (tenant : String) (clock edgeClock : Int) :
    RunTracked tenant (.initial tenant clock edgeClock) := by
  have hnone : ∀ k, Spans [] k none := by
    intro k
    ext m
    constructor
    · rintro ⟨t, ht, -⟩
      cases ht
    · exact fun h => absurd h (Set.notMem_empty m)
  refine ⟨⟨hnone, fun k _ => hnone k, ?_, List.nodup_nil⟩, hnone⟩
  intro k hk
  cases hk

/-- What a flush leaves, and what it says about the table. -/
theorem RunTracked.flush {s : EdgeRun} (h : RunTracked tenant s) (fault : Option Insert)
    (applied : Bool) (delay edgeDelay : Nat) :
    RunTracked tenant (edgeStep tenant s (.flush fault applied delay edgeDelay)) ∧
      ((flushEdges tenant s.world fault applied delay edgeDelay).1.returned = true →
        ∀ k, Spans s.seen k (storedBounds tenant
          (flushEdges tenant s.world fault applied delay edgeDelay).2.table k)) := by
  obtain ⟨htracked, hstored⟩ := h
  have hno : ∀ {P : Prop}, false = true → P := fun h => by cases h
  simp only [edgeStep, flushEdges]
  split
  · exact ⟨⟨htracked, hstored⟩, hno⟩
  · split
    · next hdirty =>
      -- nothing is dirty, so the table has what the cache has
      have hall : ∀ k, Spans s.seen k (storedBounds tenant s.world.table k) :=
        fun k => htracked.clean k (by rw [hdirty]; exact List.not_mem_nil)
      exact ⟨⟨htracked, hall⟩, fun _ => hall⟩
    · split
      · exact ⟨⟨htracked, hstored⟩, hno⟩
      · next rows hrows =>
        have hall := htracked.insert hrows edgeDelay
        split
        · split
          · -- the insert raises and has been applied: the edges stay dirty
            exact ⟨⟨⟨htracked.cached, fun k _ => hall k, htracked.known, htracked.nodup⟩, hall⟩,
              hno⟩
          · exact ⟨⟨htracked, hstored⟩, hno⟩
        · refine ⟨⟨⟨htracked.cached, fun k _ => hall k, ?_, List.nodup_nil⟩, hall⟩, fun _ => hall⟩
          intro k hk
          cases hk

theorem RunTracked.restart {s : EdgeRun} (h : RunTracked tenant s) (fault : Option Insert)
    (delay : Nat) : RunTracked tenant (edgeStep tenant s (.restart fault delay)) := by
  have hload : Tracked s.saved (loadEdges tenant s.world.table)
      (storedBounds tenant s.world.table) := by
    refine ⟨fun k => ?_, fun k _ => h.stored k, ?_, List.nodup_nil⟩
    · rw [bounds_loadEdges]
      exact h.stored k
    · intro k hk
      cases hk
  simp only [edgeStep, restartEdges, restoreState_eq]
  exact ⟨hload, h.stored⟩

theorem RunTracked.observe {s : EdgeRun} (h : RunTracked tenant s) (r : EdgeRecord) :
    RunTracked tenant (edgeStep tenant s (.observe r)) := by
  simp only [edgeStep, observeEdges, observe_eq]
  exact ⟨h.tracked.noteAll r.ts _, h.stored⟩

theorem runTracked_step (tenant : String) (s : EdgeRun) (i : EdgeInput)
    (h : RunTracked tenant s) : RunTracked tenant (edgeStep tenant s i) := by
  cases i with
  | observe r => exact h.observe r
  | flush fault applied delay edgeDelay => exact (h.flush fault applied delay edgeDelay).1
  | restart fault delay => exact h.restart fault delay

/-- **Edge spans.** After any calls and restarts, when a flush returns the
    row of every edge has the first and the last time of its observations,
    and an edge that was not observed has no row. -/
theorem edge_spans (tenant : String) (clock edgeClock : Int) (is : List EdgeInput)
    (fault : Option Insert) (applied : Bool) (delay edgeDelay : Nat) :
    let s := Machine.run (edgeStep tenant) (.initial tenant clock edgeClock) is
    let after := flushEdges tenant s.world fault applied delay edgeDelay
    after.1.returned = true → ∀ k, Spans s.seen k (storedBounds tenant after.2.table k) := by
  intro s after hreturned
  have h : RunTracked tenant s :=
    Machine.run_invariant (runTracked_step tenant) (runTracked_initial tenant clock edgeClock) is
  exact (h.flush fault applied delay edgeDelay).2 hreturned

/-- A flow record at a time. -/
def flowAt (ts : Instant) : EdgeRecord where
  eve := .flow (some "10.0.0.1") (some "10.0.0.2")
  obsId := "o"
  ts := ts
  appProto := some "tls"
  proto := none
  dns := none

/-- A late record after a restart, and a flush that failed before it. -/
def lateAfterRestart : List EdgeInput :=
  [.observe (flowAt 7000), .flush none false 0 0, .observe (flowAt 9000),
    .flush (some .entityRelationship) true 0 0, .restart none 0, .observe (flowAt 3000)]

theorem edge_spans_late :
    let s := Machine.run (edgeStep "t") (.initial "t" 0 0) lateAfterRestart
    let after := flushEdges "t" s.world none false 0 0
    Spans s.seen ("ip:10.0.0.1", "ip:10.0.0.2", .communicatesWith)
      (storedBounds "t" after.2.table ("ip:10.0.0.1", "ip:10.0.0.2", .communicatesWith)) :=
  edge_spans "t" 0 0 lateAfterRestart none false 0 0 (by decide +kernel) _

end AssetService
