import CernityNdr.Detectors.Flow
import CernityNdr.Window.Fields

/-! # Redelivered Flow Records

    The fields under an `exf:` or an `lcf:` key depend on the records that
    were handled, not on the batches in which they came or on the clock.

    * `recordWrites`: the writes of one record to the fields of a key.
    * `fieldsOf_feed`: the fields after batches are those after the writes of
      their records.
    * `replay_idempotent`: handling the end of a sequence of records once
      more leaves the fields, in their order, and all that is derived from
      them. -/

open CappedMap (FieldMap acceptAll)
open InMemoryStore

namespace Behavioral

variable (env : Env)

/-! ### The keys of the fields -/

/-- The first three characters of a key tell its kind. -/
def kind (key : String) : List Char := key.toList.take 3

/-- An `exf:` or an `lcf:` key. -/
def IsFlowKey (key : String) : Prop :=
  ∃ rest, key = EX_PFX ++ rest ∨ key = LC_PFX ++ rest

theorem kind_append {pfx : String} (h : 3 ≤ pfx.toList.length) (rest : String) :
    kind (pfx ++ rest) = kind pfx := by
  simp only [kind, String.toList_append, List.take_append_of_le_length h]

theorem kind_append₂ {pfx : String} (h : 3 ≤ pfx.toList.length) (s rest : String) :
    kind (pfx ++ s ++ rest) = kind pfx := by
  rw [String.append_assoc]
  exact kind_append h _

theorem kind_stateKey {pfx : String} (h : 3 ≤ pfx.toList.length) (part : Nat) (ten entity : String) :
    kind (stateKey pfx part ten entity) = kind pfx := by
  simp only [stateKey, String.append_assoc]
  exact kind_append h _

theorem IsFlowKey.kind_eq {key : String} (h : IsFlowKey key) :
    kind key = "exf".toList ∨ kind key = "lcf".toList := by
  obtain ⟨rest, rfl | rfl⟩ := h
  · exact Or.inl (kind_append (by decide) rest)
  · exact Or.inr (kind_append (by decide) rest)

/-- A key of another kind is not the key of the fields. -/
theorem IsFlowKey.ne {key k : String} (h : IsFlowKey key)
    (hk : kind k ≠ "exf".toList ∧ kind k ≠ "lcf".toList) : k ≠ key := by
  rintro rfl
  rcases h.kind_eq with heq | heq
  · exact hk.1 heq
  · exact hk.2 heq

theorem IsFlowKey.idx_ne {key : String} (h : IsFlowKey key) (pfx : String) (part : Nat) :
    idx env pfx part ≠ some key := by
  intro hidx
  unfold idx at hidx
  split at hidx
  · apply h.ne _ (Option.some.inj hidx)
    rw [indexKey, kind_append₂ (by decide)]
    decide
  · cases hidx

/-! ### The writes of a record -/

namespace Sighting

variable (g : Sighting)

/-- The fields that a sighting writes under `key`. -/
def fieldWrites (key : String) (part : Nat) : List (String × ℚ) :=
  [(stateKey EX_PFX part g.ten g.pair, (g.b2s : ℚ)),
    (stateKey LC_PFX part g.ten g.pair, g.age)].filterMap fun w =>
      if w.1 = key then some (g.identity, w.2) else none

variable {g} {key : String}

theorem filterMap_writes (part : Nat) (firstSeen : ℚ) :
    (g.writes env part firstSeen).filterMap (WriteOp.fieldWrite key) = g.fieldWrites key part := rfl

theorem filterMap_beaconWrites (part : Nat) :
    (g.beaconWrites env part).filterMap (WriteOp.fieldWrite key) = [] := by
  unfold beaconWrites
  split
  · rfl
  · rfl

theorem filterMap_domainWrites (part : Nat) (dom : Option Json) :
    (g.domainWrites env part dom).filterMap (WriteOp.fieldWrite key) = [] := by
  unfold domainWrites
  split
  · rfl
  · rfl

theorem fieldsOnly_writes (hkey : IsFlowKey key) (part : Nat) (firstSeen : ℚ) :
    ∀ op ∈ g.writes env part firstSeen, op.FieldsOnly key env.flowCap env.window := by
  have hidx := hkey.idx_ne env
  intro op hop
  simp only [writes, List.mem_cons, List.not_mem_nil, or_false] at hop
  rcases hop with rfl | rfl | rfl | rfl | rfl | rfl
  · trivial
  · apply hkey.ne
    simp only [String.append_assoc]
    rw [kind_append (by decide)]
    decide
  · exact ⟨hidx _ _, fun _ => ⟨g.identity_ne, rfl, rfl⟩⟩
  · refine ⟨hkey.ne ?_, hidx _ _⟩
    rw [kind_stateKey (by decide)]
    decide
  · exact ⟨hidx _ _, fun _ => ⟨g.identity_ne, rfl, rfl⟩⟩
  · refine ⟨hkey.ne ?_, hidx _ _⟩
    rw [kind_stateKey (by decide)]
    decide

theorem fieldsOnly_beaconWrites (hkey : IsFlowKey key) (part : Nat) :
    ∀ op ∈ g.beaconWrites env part, op.FieldsOnly key env.flowCap env.window := by
  intro op hop
  unfold beaconWrites at hop
  split at hop
  · cases hop
  · rw [List.mem_singleton.mp hop]
    refine ⟨hkey.ne ?_, hkey.idx_ne env _ _⟩
    rw [kind_stateKey (by decide)]
    decide

theorem fieldsOnly_domainWrites (hkey : IsFlowKey key) (part : Nat) (dom : Option Json) :
    ∀ op ∈ g.domainWrites env part dom, op.FieldsOnly key env.flowCap env.window := by
  intro op hop
  unfold domainWrites at hop
  split at hop
  · simp only [List.mem_cons, List.not_mem_nil, or_false] at hop
    rcases hop with rfl | rfl
    · refine ⟨hkey.ne ?_, hkey.idx_ne env _ _⟩
      rw [kind_stateKey (by decide)]
      decide
    · apply hkey.ne
      simp only [String.append_assoc]
      rw [kind_append (by decide)]
      decide
  · cases hop

/-- A sighting without the time of its event. -/
def timeless (g : Sighting) : Sighting := { g with evt := 0 }

theorem fieldWrites_timeless (g : Sighting) (part : Nat) :
    g.timeless.fieldWrites key part = g.fieldWrites key part := rfl

end Sighting

/-- The clock decides nothing but the time of the event. -/
theorem timeless_sighting (a a' : Arrival) (h : a.record = a'.record) :
    (sighting env a).map Sighting.timeless = (sighting env a').map Sighting.timeless := by
  unfold sighting
  rw [h]
  simp only [Option.map_bind, Option.bind_eq_bind, Option.pure_def, Function.comp_def,
    Option.map_some, Sighting.timeless]

/-- The writes of one record to the fields under `key`. -/
def recordWrites (key : String) (r : Json × Nat) : List (String × ℚ) :=
  match sighting env ⟨r.1, r.2, 0, fun _ => 0⟩ with
  | none => []
  | some g => g.fieldWrites key r.2

theorem recordWrites_eq (key : String) (a : Arrival) :
    recordWrites env key (a.record, a.part) =
      ((sighting env a).map fun g => g.fieldWrites key a.part).getD [] := by
  have hsame := timeless_sighting env ⟨a.record, a.part, 0, fun _ => 0⟩ a rfl
  unfold recordWrites
  cases hg : sighting env a with
  | none =>
    rw [hg, Option.map_none, Option.map_eq_none_iff] at hsame
    rw [hsame]
    rfl
  | some g =>
    rw [hg, Option.map_some, Option.map_eq_some_iff] at hsame
    obtain ⟨g', hg', heq⟩ := hsame
    rw [hg']
    show g'.fieldWrites key a.part = g.fieldWrites key a.part
    rw [← Sighting.fieldWrites_timeless g', heq, Sighting.fieldWrites_timeless]

/-! ### Handling and flushing -/

variable {env} {key : String} {d : Detector}

/-- What handling leaves: a store with the same hash, and more writes. -/
structure Handled (env : Env) (key : String) (rs : List (Json × Nat)) (d d' : Detector) : Prop where
  store : SameHash key d.store d'.store
  pending : ∃ ops, d'.pending = d.pending ++ ops ∧
    (∀ op ∈ ops, op.FieldsOnly key env.flowCap env.window) ∧
    ops.filterMap (WriteOp.fieldWrite key) = rs.flatMap (recordWrites env key)

theorem Handled.refl (d : Detector) : Handled env key [] d d :=
  ⟨.refl key d.store, [], by simp, by simp, rfl⟩

theorem Handled.trans {d' d'' : Detector} {rs rs' : List (Json × Nat)}
    (h : Handled env key rs d d') (h' : Handled env key rs' d' d'') :
    Handled env key (rs ++ rs') d d'' := by
  obtain ⟨ops, hops, hfields, hwrites⟩ := h.pending
  obtain ⟨ops', hops', hfields', hwrites'⟩ := h'.pending
  refine ⟨h.store.trans h'.store, ops ++ ops', by rw [hops', hops, List.append_assoc], ?_, ?_⟩
  · intro op hop
    rcases List.mem_append.mp hop with hop | hop
    · exact hfields op hop
    · exact hfields' op hop
  · rw [List.filterMap_append, hwrites, hwrites', List.flatMap_append]

theorem i2dGet_snd (env : Env) (d : Detector) (key cacheKey : String) (now wall : ℚ) :
    SameHash key d.store (i2dGet env d cacheKey now wall).2.store ∧
      (i2dGet env d cacheKey now wall).2.pending = d.pending := by
  unfold i2dGet
  split
  · exact ⟨.refl key _, rfl⟩
  · refine ⟨?_, rfl⟩
    show SameHash key d.store (d.store.kvGet cacheKey wall).2
    unfold InMemoryStore.kvGet
    split
    · exact .refl key _
    · exact ⟨rfl, rfl⟩

theorem handled_handleFlow (hkey : IsFlowKey key) (d : Detector) (a : Arrival) :
    Handled env key [(a.record, a.part)] d (handleFlow env d a) := by
  have hwrites := recordWrites_eq env key a
  unfold handleFlow
  cases hg : sighting env a with
  | none =>
    rw [hg] at hwrites
    exact ⟨.refl key _, [], by simp, by simp, by simp [hwrites]⟩
  | some g =>
    rw [hg] at hwrites
    simp only
    generalize hd₁ : ({ d with pending := d.pending ++ g.writes env a.part (a.clock 1) } : Detector) = d₁
    obtain ⟨hstore, hpending⟩ :=
      i2dGet_snd env d₁ key ("i2d:" ++ g.ten ++ ":" ++ g.dst) a.now (a.clock 2)
    generalize i2dGet env d₁ ("i2d:" ++ g.ten ++ ":" ++ g.dst) a.now (a.clock 2) = out at *
    obtain ⟨dom, d₂⟩ := out
    subst hd₁
    refine ⟨hstore, g.writes env a.part (a.clock 1) ++ (g.beaconWrites env a.part ++
      g.domainWrites env a.part dom), ?_, ?_, ?_⟩
    · show d₂.pending ++ _ ++ _ = _
      rw [hpending]
      simp only [List.append_assoc]
    · intro op hop
      rcases List.mem_append.mp hop with hop | hop
      · exact Sighting.fieldsOnly_writes env hkey _ _ op hop
      · rcases List.mem_append.mp hop with hop | hop
        · exact Sighting.fieldsOnly_beaconWrites env hkey _ op hop
        · exact Sighting.fieldsOnly_domainWrites env hkey _ _ op hop
    · rw [List.filterMap_append, List.filterMap_append, Sighting.filterMap_writes,
        Sighting.filterMap_beaconWrites, Sighting.filterMap_domainWrites, List.append_nil,
        List.append_nil, List.flatMap_singleton, hwrites]
      rfl

theorem handled_foldl (env : Env) (hkey : IsFlowKey key) (d : Detector) (arrivals : List Arrival) :
    Handled env key (arrivals.map fun a => (a.record, a.part)) d
      (arrivals.foldl (handleFlow env) d) := by
  induction arrivals generalizing d with
  | nil => exact .refl d
  | cons a arrivals ih => exact (handled_handleFlow hkey d a).trans (ih _)

/-- The records of batches, with their partitions. -/
def records (batches : List Batch) : List (Json × Nat) :=
  batches.flatMap fun b => b.arrivals.map fun a => (a.record, a.part)

variable {start stop now : ℚ}

/-- The clock of a flush stays between `start` and `stop`. -/
def Batch.Within (b : Batch) (start stop : ℚ) : Prop := ∀ i, start ≤ b.clock i ∧ b.clock i ≤ stop

theorem fieldsOf_handleBatch (hkey : IsFlowKey key) (hpending : d.pending = [])
    (hsteady : d.store.Steady key start stop) (hwindow : stop < start + env.window)
    {b : Batch} (hclock : b.Within start stop) (hnow : start ≤ now ∧ now ≤ stop) :
    (handleBatch env d b).store.Steady key start stop ∧
      fieldsOf ((handleBatch env d b).store.hashAt key now) =
        acceptAll env.flowCap (fieldsOf (d.store.hashAt key now))
          ((records [b]).flatMap (recordWrites env key)) := by
  obtain ⟨hstore, ops, hops, hfields, hwrites⟩ := handled_foldl env hkey d b.arrivals
  rw [hpending, List.nil_append] at hops
  have hflush : (handleBatch env d b).store =
      (b.arrivals.foldl (handleFlow env) d).store.pipelineOps
        (ops.zipIdx.map fun op => (op.1, b.clock op.2)) := by
    rw [← hops]
    rfl
  have htimed : ∀ op ∈ ops.zipIdx.map fun op => (op.1, b.clock op.2),
      op.1.FieldsOnly key env.flowCap env.window ∧ start ≤ op.2 ∧ op.2 ≤ stop := by
    intro op hop
    obtain ⟨⟨op', i⟩, hmem, rfl⟩ := List.mem_map.mp hop
    exact ⟨hfields op' (List.fst_mem_of_mem_zipIdx hmem), hclock i⟩
  obtain ⟨hsteady', hafter⟩ :=
    fieldsOf_pipelineOps (hsteady.of_sameHash hstore) htimed hwindow hnow
  rw [hflush]
  refine ⟨hsteady', ?_⟩
  have hlog : (ops.zipIdx.map fun op => (op.1, b.clock op.2)).filterMap
      (fun op => op.1.fieldWrite key) = ops.filterMap (WriteOp.fieldWrite key) := by
    rw [List.filterMap_map]
    conv_rhs => rw [← List.zipIdx_map_fst 0 ops, List.filterMap_map]
    rfl
  rw [hafter, hstore.hashAt, hlog, hwrites, records, List.flatMap_singleton]

/-- The fields after batches are those after the writes of their records. -/
theorem fieldsOf_feed (env : Env) (d : Detector) (hkey : IsFlowKey key) (hpending : d.pending = [])
    (hsteady : d.store.Steady key start stop) (hwindow : stop < start + env.window)
    {batches : List Batch} (hclock : ∀ b ∈ batches, b.Within start stop)
    (hnow : start ≤ now ∧ now ≤ stop) :
    (feed env d batches).store.Steady key start stop ∧
      fieldsOf ((feed env d batches).store.hashAt key now) =
        acceptAll env.flowCap (fieldsOf (d.store.hashAt key now))
          ((records batches).flatMap (recordWrites env key)) := by
  induction batches generalizing d with
  | nil => exact ⟨hsteady, rfl⟩
  | cons b batches ih =>
    obtain ⟨hsteady', hbatch⟩ :=
      fieldsOf_handleBatch hkey hpending hsteady hwindow (hclock b List.mem_cons_self) hnow
    obtain ⟨hsteady'', hrest⟩ :=
      ih (d := handleBatch env d b) rfl hsteady' fun b' hb' => hclock b' (List.mem_cons_of_mem b hb')
    refine ⟨hsteady'', ?_⟩
    have hrecords : records (b :: batches) = records [b] ++ records batches := by
      simp [records]
    rw [hrecords, List.flatMap_append, CappedMap.acceptAll_append, ← hbatch]
    exact hrest

theorem pending_feed (hpending : d.pending = []) (batches : List Batch) :
    (feed env d batches).pending = [] := by
  induction batches generalizing d with
  | nil => exact hpending
  | cons b batches ih => exact ih rfl

/-! ### Replay -/

/-- **Replay idempotence**: when the end of a sequence of records is handled
    and flushed once more before the window of a key ends, the fields of the
    key are the same, and with them all that is derived. -/
theorem replay_idempotent (env : Env) (store : InMemoryStore)
    (cache : FieldMap String (Option Json × ℚ × ℚ)) (sent again : List Batch) {key : String}
    (hkey : IsFlowKey key) (hagain : records again <:+ records sent) {start stop : ℚ}
    (hwindow : stop < start + env.window) (hsteady : store.Steady key start stop)
    (hclock : ∀ b ∈ sent ++ again, b.Within start stop) {now now' : ℚ}
    (hnow : start ≤ now ∧ now ≤ stop) (hnow' : start ≤ now' ∧ now' ≤ stop) :
    let before := feed env ⟨store, [], cache⟩ sent
    let after := feed env before again
    let flows := (before.store.fieldsGet key now).1
    let flows' := (after.store.fieldsGet key now').1
    flows' = flows ∧ flowTotals flows' = flowTotals flows ∧
      (∀ cfg dst, exfilVerdicts env cfg dst flows' = exfilVerdicts env cfg dst flows) ∧
      ∀ cfg cumLongconnSecs dst, longconnVerdict env cfg cumLongconnSecs dst flows' =
        longconnVerdict env cfg cumLongconnSecs dst flows := by
  intro before after flows flows'
  obtain ⟨hbefore, hflows⟩ := fieldsOf_feed env ⟨store, [], cache⟩ hkey rfl hsteady
    hwindow (fun b hb => hclock b (List.mem_append_left _ hb)) hnow
  obtain ⟨hafter, hflows'⟩ := fieldsOf_feed env before hkey
    (pending_feed rfl sent) hbefore hwindow (fun b hb => hclock b (List.mem_append_right _ hb)) hnow
  have hwrites : (records again).flatMap (recordWrites env key) <:+
      (records sent).flatMap (recordWrites env key) := by
    obtain ⟨pre, hpre⟩ := hagain
    rw [← hpre, List.flatMap_append]
    exact List.suffix_append _ _
  have hsame : flows' = flows := by
    show fieldsOf (after.store.hashAt key now') = fieldsOf (before.store.hashAt key now)
    rw [hafter.hashAt_eq hnow' hnow, hflows', hflows]
    exact CappedMap.acceptAll_replay env.flowCap _ hwrites
  rw [hsame]
  exact ⟨rfl, rfl, fun _ _ => rfl, fun _ _ _ => rfl⟩

def labEnv : Env where
  tenant := "homelab"
  window := 600
  flowCap := 1
  enumIndex := true
  i2dTtl := 600
  i2dNegTtl := 5
  i2dCacheMax := 50000
  isExternal := fun _ => true
  beaconNoiseDst := fun _ => false
  ndpiRisks := fun _ => .arr []
  repr := fun _ => ""
  parseInt := fun _ => none
  parseFloat := fun _ => none
  parseTime := fun _ => none
  sha1Hex := fun _ => ""
  window_pos := by norm_num

/-- A record of the flow `flowId` with its bytes so far. -/
def labFlow (flowId bytes : Int) : Arrival where
  record := .obj [("event_type", .str "flow"), ("src_ip", .str "10.0.0.11"),
    ("dest_ip", .str "203.0.113.9"), ("host", .str "sensor-a"), ("flow_id", .int flowId),
    ("flow", .obj [("bytes_toserver", .int bytes), ("age", .int 5)])]
  part := 0
  now := 10
  clock := fun _ => 10

/-- Two records of one flow around one of a flow that the cap refuses; the
    last two come again. -/
theorem replay_interim_records :
    let sent : List Batch := [⟨[labFlow 1 100, labFlow 2 900, labFlow 1 300], fun _ => 11⟩]
    let again : List Batch := [⟨[labFlow 2 900], fun _ => 12⟩, ⟨[labFlow 1 300], fun _ => 13⟩]
    let key := EX_PFX ++ "0:homelab:10.0.0.11|203.0.113.9"
    let before := feed labEnv ⟨.empty, [], .empty⟩ sent
    ((feed labEnv before again).store.fieldsGet key 20).1 = (before.store.fieldsGet key 11).1 := by
  refine (@replay_idempotent labEnv .empty .empty _ _ _ ⟨_, Or.inl rfl⟩
    ⟨[((labFlow 1 100).record, 0)], rfl⟩ 0 20 ?_ ?_ ?_ _ _ ?_ ?_).1
  · norm_num [labEnv]
  · intro e he
    cases he
  · intro b hb i
    simp only [List.mem_append, List.mem_cons, List.not_mem_nil, or_false] at hb
    rcases hb with rfl | rfl | rfl
    · norm_num
    · norm_num
    · norm_num
  · norm_num
  · norm_num

end Behavioral
