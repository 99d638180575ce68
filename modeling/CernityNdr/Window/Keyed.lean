import Mathlib.Data.List.Dedup
import CernityNdr.Framework.Sharding
import CernityNdr.Window.Fields

/-! # The In-Memory Store, Key by Key

    The operations of `WindowStore`, and the in-memory store as a keyed
    store: what is under a key is its entry in each of the seven tables, and
    an operation at the key depends on this entry only.

    `window_add_indexed` and `window_add_indexed_batch` are batches of
    `win` writes. -/

open CappedMap (FieldMap)

/-- The operations at one key. -/
inductive Method
  | window_add (score : ℚ) (value : Json) (ttl : ℚ)
  | window_range (minScore : ℚ)
  | zset_since (minScore : ℚ)
  | zset_rank (member : String)
  | counter_add (field : String) (delta ttl : ℚ)
  | counter_get (field : String)
  | counter_clear
  | field_set (field : String) (value ttl : ℚ) (cap : Option Int)
  | fields_get
  | set_add (member : String) (ttl : ℚ) (cap : Option Nat)
  | set_len
  | set_contains (member : String)
  | set_members
  | set_remove (member : String)
  | kv_set (value : Json) (ttl : ℚ)
  | kv_set_once (value : Json) (ttl : ℚ)
  | kv_get
  | dedup_seen (ttl : ℚ)

/-- What an operation at one key returns. -/
inductive Answer
  | none
  | bool (b : Bool)
  | count (n : Nat)
  | rank (n : Option Nat)
  | number (x : ℚ)
  | fields (h : FieldMap String ℚ) (refused : Int)
  | window (entries : List (ℚ × Json))
  | members (ms : List String)
  | value (v : Option Json)

namespace InMemoryStore

/-! ### The keys of a buffered write -/

/-- `op[1]`. -/
def WriteOp.key : WriteOp → String
  | win key _ _ _ _ => key
  | cnt key _ _ _ _ => key
  | fset key _ _ _ _ _ => key
  | znx key _ _ _ _ => key
  | kv key _ _ => key
  | sadd key _ _ => key

def WriteOp.idx : WriteOp → Option String
  | win _ idx _ _ _ => idx
  | cnt _ _ _ _ idx => idx
  | fset _ _ _ _ idx _ => idx
  | znx _ _ _ _ idx => idx
  | kv _ _ _ => none
  | sadd _ _ _ => none

def WriteOp.touches (op : WriteOp) (key : String) : Bool := op.key = key || op.idx = some key

/-- The batch of `window_add_indexed_batch`, and of one `window_add_indexed`. -/
def windowItem (key idx : String) (score : ℚ) (value : Json) (ttl : ℚ) : WriteOp :=
  .win key (some idx) score value ttl

/-! ### What is under a key -/

/-- The entries of a key in the seven tables. -/
structure Entry where
  z : Option (List WindowEntry)
  zs : Option (FieldMap String ℚ)
  h : Option (FieldMap String ℚ)
  s : Option (FieldMap String ℚ)
  kv : Option (Json × ℚ)
  exp : Option ℚ
  dedup : Option ℚ

def entry (st : InMemoryStore) (key : String) : Entry where
  z := st.z.lookup key
  zs := st.zs.lookup key
  h := st.h.lookup key
  s := st.s.lookup key
  kv := st.kv.lookup key
  exp := st.exp.lookup key
  dedup := st.dedup.lookup key

/-- An operation at one key. -/
def call (st : InMemoryStore) (now : ℚ) (key : String) : Method → Answer × InMemoryStore
  | .window_add score value ttl => (.none, st.windowAdd key score value ttl now)
  | .window_range minScore =>
    let (entries, st) := st.windowRange key minScore now
    (.window entries, st)
  | .zset_since minScore => (.members (st.zsetSince key minScore now), st)
  | .zset_rank member => (.rank (st.zsetRank key member now), st)
  | .counter_add field delta ttl =>
    let st := st.counterAdd key field delta ttl now
    (.number (((st.h.lookup key).bind (·.lookup field)).getD 0), st)
  | .counter_get field => (.number (st.counterGet key field now), st)
  | .counter_clear => (.none, st.counterClear key)
  | .field_set field value ttl cap => (.none, st.fieldSet key field value ttl cap now)
  | .fields_get => (.fields (st.fieldsGet key now).1 (st.fieldsGet key now).2, st)
  | .set_add member ttl cap => (.none, st.setAdd key member ttl cap now)
  | .set_len => (.count (st.setLen key now).1, (st.setLen key now).2)
  | .set_contains member => (.bool (st.setContains key member now).1,
      (st.setContains key member now).2)
  | .set_members => (.members (st.setMembers key now).1, (st.setMembers key now).2)
  | .set_remove member => (.none, st.setRemove key member)
  | .kv_set value ttl => (.none, st.kvSet key value ttl now)
  | .kv_set_once value ttl => (.bool (st.kvSetOnce key value ttl now).1,
      (st.kvSetOnce key value ttl now).2)
  | .kv_get => (.value (st.kvGet key now).1, (st.kvGet key now).2)
  | .dedup_seen ttl => (.bool (st.dedupSeen key ttl now).1, (st.dedupSeen key ttl now).2)

/-! ### What an operation leaves under a key -/

variable {st st' : InMemoryStore} {key k : String} {now : ℚ}

namespace Entry

def alive (e : Entry) (now : ℚ) : Bool :=
  match e.exp with
  | none => true
  | some x => now < x

def hash (e : Entry) (now : ℚ) : FieldMap String ℚ :=
  if e.alive now then e.h.getD .empty else .empty

def members (e : Entry) (now : ℚ) : FieldMap String ℚ := (e.s.getD .empty).filter fun m => now < m.2

end Entry

/-- An entry that is changed under `key` only. -/
theorem entry_congr {e : Entry} (hself : entry st' key = e)
    (hother : key ≠ k → entry st' k = entry st k) :
    entry st' k = if key = k then e else entry st k := by
  by_cases hk : key = k
  · rw [if_pos hk, ← hk]
    exact hself
  · rw [if_neg hk]
    exact hother hk

theorem alive_eq : st.alive key now = (st.entry key).alive now := rfl

theorem hashAt_eq : st.hashAt key now = (st.entry key).hash now := rfl

theorem entry_windowAdd (score : ℚ) (value : Json) (ttl : ℚ) :
    entry (st.windowAdd key score value ttl now) k =
      if key = k then { st.entry key with
        z := some ((st.entry key).z.getD [] ++ [⟨score, value, now + ttl⟩])
        exp := some (now + ttl) }
      else st.entry k := by
  apply entry_congr
  · simp [entry, windowAdd, Registry.lookup_put]
  · intro hk
    simp [entry, windowAdd, Registry.lookup_put, hk]

theorem entry_windowRange (minScore : ℚ) :
    entry (st.windowRange key minScore now).2 k =
      if key = k then { st.entry key with
        z := some (((st.entry key).z.getD []).filter fun t => now < t.expiry && minScore ≤ t.score) }
      else st.entry k := by
  apply entry_congr
  · simp [entry, windowRange, Registry.lookup_put]
  · intro hk
    simp [entry, windowRange, Registry.lookup_put, hk]

theorem entry_putHash (h : FieldMap String ℚ) (ttl : ℚ) :
    entry (st.putHash key h ttl now) k =
      if key = k then { st.entry key with
        h := some h
        exp := some (if (st.entry key).alive now then (st.entry key).exp.getD (now + ttl)
          else now + ttl) }
      else st.entry k := by
  have hexp : (st.putHash key h ttl now).exp.lookup k =
      if key = k then some (if (st.entry key).alive now then (st.entry key).exp.getD (now + ttl)
        else now + ttl) else st.exp.lookup k := by
    show (setDefault _ key (now + ttl)).lookup k = _
    rw [lookup_setDefault, alive_eq]
    by_cases hk : key = k
    · subst hk
      rw [if_pos rfl, if_pos rfl]
      split
      · rfl
      · rw [Registry.lookup_pop, if_pos rfl]
        rfl
    · rw [if_neg hk, if_neg hk]
      split
      · rfl
      · rw [Registry.lookup_pop, if_neg hk]
  have hh : (st.putHash key h ttl now).h.lookup k = if key = k then some h else st.h.lookup k :=
    Registry.lookup_put ..
  by_cases hk : key = k
  · subst hk
    rw [if_pos rfl] at hexp hh
    rw [if_pos rfl]
    simp only [entry] at hexp hh ⊢
    rw [hexp, hh]
    rfl
  · rw [if_neg hk] at hexp hh
    rw [if_neg hk]
    simp only [entry] at hexp hh ⊢
    rw [hexp, hh]
    rfl

theorem liveSet_fst : (st.liveSet key now).1 = (st.entry key).members now := by
  unfold liveSet Entry.members entry
  cases st.s.lookup key with
  | none => rfl
  | some s => rfl

/-- A set without a member that is alive is dropped. -/
def Entry.prune (e : Entry) (now : ℚ) : Entry :=
  { e with s := if (e.members now).vals.isEmpty then none else some (e.members now) }

variable (st key k now) in
theorem lookup_liveSet : (st.liveSet key now).2.s.lookup k =
    if key = k then ((st.entry key).prune now).s else st.s.lookup k := by
  unfold liveSet Entry.prune Entry.members entry
  cases hs : st.s.lookup key with
  | none =>
    by_cases hk : key = k
    · rw [if_pos hk, ← hk]
      exact hs
    · rw [if_neg hk]
  | some s =>
    simp only [Option.getD_some]
    by_cases hempty : (s.filter fun m => now < m.2).vals.isEmpty = true
    · rw [if_pos hempty, if_pos hempty, Registry.lookup_pop]
    · rw [if_neg hempty, if_neg hempty, Registry.lookup_put]

theorem entry_liveSet : entry (st.liveSet key now).2 k =
    if key = k then (st.entry key).prune now else st.entry k := by
  have hrest : ∀ st' : InMemoryStore, st' = (st.liveSet key now).2 →
      st' = { st with s := st'.s } := by
    rintro st' rfl
    unfold liveSet
    cases st.s.lookup key with
    | none => rfl
    | some s => rfl
  rw [hrest _ rfl]
  have hs := lookup_liveSet st key k now
  simp only [entry, hs]
  by_cases hk : key = k
  · subst hk
    rw [if_pos rfl, if_pos rfl]
    rfl
  · rw [if_neg hk, if_neg hk]

/-- The members after `set_add`. -/
def addMember (s : FieldMap String ℚ) (member : String) (expiry : ℚ) (cap : Option Nat) :
    FieldMap String ℚ :=
  if cap.all (fun c => s.vals.length ≤ c) ∨ member ∈ s.keys then s.put (member, expiry) else s

theorem entry_setAdd (member : String) (ttl : ℚ) (cap : Option Nat) :
    entry (st.setAdd key member ttl cap now) k =
      if key = k then { st.entry key with
        s := some (addMember ((st.entry key).members now) member (now + ttl) cap)
        exp := some (now + ttl) }
      else st.entry k := by
  have hst : st.setAdd key member ttl cap now =
      { (st.liveSet key now).2 with
        s := (st.liveSet key now).2.s.put
          (key, addMember (st.liveSet key now).1 member (now + ttl) cap)
        exp := (st.liveSet key now).2.exp.put (key, now + ttl) } := rfl
  have hlive : ∀ k, entry (st.liveSet key now).2 k = _ := fun k => entry_liveSet
  rw [hst, liveSet_fst]
  apply entry_congr
  · have hkey := hlive key
    rw [if_pos rfl] at hkey
    simp only [entry, Entry.prune, Entry.mk.injEq] at hkey ⊢
    simp [Registry.lookup_put, hkey]
  · intro hk
    have hother := hlive k
    rw [if_neg hk] at hother
    rw [← hother]
    simp [entry, Registry.lookup_put, hk]

theorem entry_setRemove (member : String) : entry (st.setRemove key member) k =
    if key = k then { st.entry key with s := (st.entry key).s.map (·.pop member) }
    else st.entry k := by
  unfold setRemove
  cases hs : st.s.lookup key with
  | none =>
    apply entry_congr
    · simp [entry, hs]
    · exact fun _ => rfl
  | some s =>
    apply entry_congr
    · simp [entry, hs, Registry.lookup_put]
    · intro hk
      simp [entry, Registry.lookup_put, hk]

theorem entry_firstSeen (member : String) (score ttl : ℚ) :
    entry (st.firstSeen key member score ttl now) k =
      if key = k then { st.entry key with
        zs := some (setDefault (if (st.entry key).alive now then (st.entry key).zs.getD .empty
          else .empty) member score)
        exp := some (now + ttl) }
      else st.entry k := by
  apply entry_congr
  · simp only [entry, firstSeen, Registry.lookup_put, if_pos]
    rfl
  · intro hk
    simp [entry, firstSeen, Registry.lookup_put, hk]

theorem entry_counterClear : entry (st.counterClear key) k =
    if key = k then { st.entry key with h := none, exp := none } else st.entry k := by
  apply entry_congr
  · simp [entry, counterClear, Registry.lookup_pop]
  · intro hk
    simp [entry, counterClear, Registry.lookup_pop, hk]

theorem entry_kvSet (value : Json) (ttl : ℚ) : entry (st.kvSet key value ttl now) k =
    if key = k then { st.entry key with kv := some (value, now + ttl) } else st.entry k := by
  apply entry_congr
  · simp [entry, kvSet, Registry.lookup_put]
  · intro hk
    simp [entry, kvSet, Registry.lookup_put, hk]

/-- The key has an entry that has not expired. -/
def Entry.taken (e : Entry) (now : ℚ) : Bool := e.kv.any fun v => now < v.2

theorem kvSetOnce_fst (value : Json) (ttl : ℚ) : (st.kvSetOnce key value ttl now).1 =
    (0 < ttl && !(st.entry key).taken now) := by
  unfold kvSetOnce Entry.taken entry
  by_cases httl : ttl ≤ 0
  · simp [httl]
  · rw [if_neg httl, decide_eq_true (not_le.mp httl)]
    cases (st.kv.lookup key).any fun v => now < v.2 with
    | false => rfl
    | true => rfl

/-- A write under a key without an entry wins. -/
theorem kvSetOnce_of_absent {value : Json} {ttl : ℚ} (httl : 0 < ttl)
    (habsent : st.kv.lookup key = none) : st.kvSetOnce key value ttl now =
      (true, { st with kv := st.kv.put (key, value, now + ⌈ttl * 1000⌉ / 1000) }) := by
  rw [kvSetOnce, if_neg (not_le.mpr httl), habsent]
  rfl

theorem entry_kvSetOnce (value : Json) (ttl : ℚ) :
    entry (st.kvSetOnce key value ttl now).2 k =
      if key = k then
        if 0 < ttl && !(st.entry key).taken now then
          { st.entry key with kv := some (value, now + ⌈ttl * 1000⌉ / 1000) }
        else st.entry key
      else st.entry k := by
  apply entry_congr
  · rw [← kvSetOnce_fst value]
    unfold kvSetOnce
    split
    · rfl
    · split
      · rfl
      · simp [entry, Registry.lookup_put]
  · intro hk
    unfold kvSetOnce
    split
    · rfl
    · split
      · rfl
      · simp [entry, Registry.lookup_put, hk]

theorem kvGet_fst : (st.kvGet key now).1 =
    ((st.entry key).kv.filter fun v => now < v.2).map Prod.fst := by
  unfold kvGet entry
  cases (st.kv.lookup key).filter fun v => now < v.2 with
  | none => rfl
  | some v => rfl

theorem entry_kvGet : entry (st.kvGet key now).2 k =
    if key = k then { st.entry key with kv := (st.entry key).kv.filter fun v => now < v.2 }
    else st.entry k := by
  unfold kvGet
  cases hkv : (st.kv.lookup key).filter fun v => now < v.2 with
  | none =>
    apply entry_congr
    · simp [entry, Registry.lookup_pop, hkv]
    · intro hk
      simp [entry, Registry.lookup_pop, hk]
  | some v =>
    apply entry_congr
    · obtain ⟨hlookup, hlive⟩ := Option.filter_eq_some_iff.mp hkv
      simp [entry, hlookup, Option.filter, hlive]
    · exact fun _ => rfl

theorem entry_kvPrune : entry (st.kvPrune now) k =
    { st.entry k with kv := (st.entry k).kv.filter fun v => now < v.2 } := by
  have hkv : (st.kvPrune now).kv.lookup k = (st.kv.lookup k).filter fun v => now < v.2 := by
    ext v
    rw [Option.filter_eq_some_iff, Registry.lookup_eq_some, Registry.lookup_eq_some]
    simp [kvPrune, Registry.filter]
  simp only [entry, hkv]
  rfl

/-- The key was seen and its time has not ended. -/
def Entry.seen (e : Entry) (now : ℚ) : Bool := e.dedup.any fun x => now < x

theorem dedupSeen_fst (ttl : ℚ) :
    (st.dedupSeen key ttl now).1 = !(st.entry key).seen now := by
  unfold dedupSeen Entry.seen entry
  cases (st.dedup.lookup key).any fun e => now < e with
  | false => rfl
  | true => rfl

theorem entry_dedupSeen (ttl : ℚ) : entry (st.dedupSeen key ttl now).2 k =
    if key = k then
      if (st.entry key).seen now then st.entry key
      else { st.entry key with dedup := some (now + ttl) }
    else st.entry k := by
  have hcond : ((st.dedup.lookup key).any fun e => now < e) = (st.entry key).seen now := rfl
  unfold dedupSeen
  rw [hcond]
  apply entry_congr
  · split
    · rfl
    · simp [entry, Registry.lookup_put]
  · intro hk
    split
    · rfl
    · simp [entry, Registry.lookup_put, hk]

/-! ### The store is keyed -/

theorem zset_eq : st.zset key now =
    if (st.entry key).alive now then (st.entry key).zs.getD .empty else .empty := rfl

/-- What an operation at a key answers depends on the entry of the key. -/
theorem call_fst (h : st.entry key = st'.entry key) (m : Method) :
    (st.call now key m).1 = (st'.call now key m).1 := by
  cases m with
  | window_range minScore =>
    have hz : st.z.lookup key = st'.z.lookup key := congrArg Entry.z h
    simp only [call, windowRange, hz]
  | zset_since minScore => simp only [call, zsetSince, zset_eq, h]
  | zset_rank member => simp only [call, zsetRank, zset_eq, h]
  | counter_add field delta ttl =>
    simp only [call, counterAdd, putHash, hashAt_eq, h, Registry.lookup_put, if_true]
  | counter_get field => simp only [call, counterGet, hashAt_eq, h]
  | fields_get => simp only [call, fieldsGet, hashAt_eq, h]
  | set_len => simp only [call, setLen, liveSet_fst, h]
  | set_contains member => simp only [call, setContains, liveSet_fst, h]
  | set_members => simp only [call, setMembers, liveSet_fst, h]
  | kv_set_once value ttl => simp only [call, kvSetOnce_fst, h]
  | kv_get => simp only [call, kvGet_fst, h]
  | dedup_seen ttl => simp only [call, dedupSeen_fst, h]
  | _ => rfl

theorem entry_setLen : entry (st.setLen key now).2 k =
    if key = k then (st.entry key).prune now else st.entry k := entry_liveSet

theorem entry_setContains (member : String) : entry (st.setContains key member now).2 k =
    if key = k then (st.entry key).prune now else st.entry k := entry_liveSet

theorem entry_setMembers : entry (st.setMembers key now).2 k =
    if key = k then (st.entry key).prune now else st.entry k := entry_liveSet

/-- An operation at a key leaves under it what depends on its entry. -/
theorem entry_call_self (h : st.entry key = st'.entry key) (m : Method) :
    entry (st.call now key m).2 key = entry (st'.call now key m).2 key := by
  cases m with
  | window_add score value ttl => simp only [call, entry_windowAdd, h]
  | window_range minScore => simp only [call, entry_windowRange, h]
  | zset_since minScore => exact h
  | zset_rank member => exact h
  | counter_add field delta ttl => simp only [call, counterAdd, entry_putHash, hashAt_eq, h]
  | counter_get field => exact h
  | counter_clear => simp only [call, entry_counterClear, h]
  | field_set field value ttl cap => simp only [call, fieldSet, entry_putHash, hashAt_eq, h]
  | fields_get => exact h
  | set_add member ttl cap => simp only [call, entry_setAdd, h]
  | set_len => simp only [call, entry_setLen, h]
  | set_contains member => simp only [call, entry_setContains, h]
  | set_members => simp only [call, entry_setMembers, h]
  | set_remove member => simp only [call, entry_setRemove, h]
  | kv_set value ttl => simp only [call, entry_kvSet, h]
  | kv_set_once value ttl => simp only [call, entry_kvSetOnce, h]
  | kv_get => simp only [call, entry_kvGet, h]
  | dedup_seen ttl => simp only [call, entry_dedupSeen, h]

/-- An operation at a key leaves the other keys as they are. -/
theorem entry_call_other (hk : key ≠ k) (m : Method) :
    entry (st.call now key m).2 k = entry st k := by
  cases m with
  | window_add score value ttl => exact (entry_windowAdd ..).trans (if_neg hk)
  | window_range minScore => exact (entry_windowRange ..).trans (if_neg hk)
  | counter_add field delta ttl => exact (entry_putHash ..).trans (if_neg hk)
  | counter_clear => exact entry_counterClear.trans (if_neg hk)
  | field_set field value ttl cap => exact (entry_putHash ..).trans (if_neg hk)
  | set_add member ttl cap => exact (entry_setAdd ..).trans (if_neg hk)
  | set_len => exact entry_setLen.trans (if_neg hk)
  | set_contains member => exact (entry_setContains member).trans (if_neg hk)
  | set_members => exact entry_setMembers.trans (if_neg hk)
  | set_remove member => exact (entry_setRemove ..).trans (if_neg hk)
  | kv_set value ttl => exact (entry_kvSet ..).trans (if_neg hk)
  | kv_set_once value ttl => exact (entry_kvSetOnce ..).trans (if_neg hk)
  | kv_get => exact entry_kvGet.trans (if_neg hk)
  | dedup_seen ttl => exact (entry_dedupSeen ..).trans (if_neg hk)
  | _ => rfl

/-! ### Batches -/

variable {op : WriteOp} {ops ops' : List WriteOp}

/-- The write itself, without its index entry. -/
def WriteOp.write (st : InMemoryStore) (now : ℚ) : WriteOp → InMemoryStore
  | win key _ score value ttl => st.windowAdd key score value ttl now
  | cnt key field delta ttl _ => st.counterAdd key field delta ttl now
  | fset key field value ttl _ cap => st.fieldSet key field value ttl cap now
  | znx key member score ttl _ => st.firstSeen key member score ttl now
  | kv key value ttl => st.kvSet key value ttl now
  | sadd key member ttl => st.setAdd key member ttl none now

/-- The time to live of the write. -/
def WriteOp.ttl : WriteOp → ℚ
  | win _ _ _ _ ttl => ttl
  | cnt _ _ _ ttl _ => ttl
  | fset _ _ _ ttl _ _ => ttl
  | znx _ _ _ ttl _ => ttl
  | kv _ _ ttl => ttl
  | sadd _ _ ttl => ttl

theorem run_eq : op.run st now = (op.write st now).index op.idx op.key op.ttl now := by
  cases op <;> rfl

theorem entry_write_self (h : st.entry op.key = st'.entry op.key) :
    entry (op.write st now) op.key = entry (op.write st' now) op.key := by
  cases op with
  | win key idx score value ttl => exact entry_call_self h (.window_add score value ttl)
  | cnt key field delta ttl idx => exact entry_call_self h (.counter_add field delta ttl)
  | fset key field value ttl idx cap => exact entry_call_self h (.field_set field value ttl cap)
  | znx key member score ttl idx =>
    have h : st.entry key = st'.entry key := h
    simp only [WriteOp.write, WriteOp.key, entry_firstSeen, h]
  | kv key value ttl => exact entry_call_self h (.kv_set value ttl)
  | sadd key member ttl => exact entry_call_self h (.set_add member ttl none)

theorem entry_write_other (hk : op.key ≠ k) : entry (op.write st now) k = entry st k := by
  cases op with
  | win key idx score value ttl => exact entry_call_other hk (.window_add score value ttl)
  | cnt key field delta ttl idx => exact entry_call_other hk (.counter_add field delta ttl)
  | fset key field value ttl idx cap => exact entry_call_other hk (.field_set field value ttl cap)
  | znx key member score ttl idx => exact (entry_firstSeen ..).trans (if_neg hk)
  | kv key value ttl => exact entry_call_other hk (.kv_set value ttl)
  | sadd key member ttl => exact entry_call_other hk (.set_add member ttl none)

theorem entry_index_self {idx : String} (h : st.entry idx = st'.entry idx) (ttl : ℚ) :
    entry (st.index (some idx) key ttl now) idx = entry (st'.index (some idx) key ttl now) idx :=
  entry_call_self h (.set_add key ttl none)

theorem entry_index_other {idx : Option String} (hk : idx ≠ some k) (ttl : ℚ) :
    entry (st.index idx key ttl now) k = entry st k := by
  cases idx with
  | none => rfl
  | some idx => exact entry_call_other (fun h => hk (congrArg some h)) (.set_add key ttl none)

/-- A write leaves in every entry what depends on this entry. -/
theorem entry_run_self (op : WriteOp) (h : st.entry k = st'.entry k) :
    entry (op.run st now) k = entry (op.run st' now) k := by
  have hwrite : entry (op.write st now) k = entry (op.write st' now) k := by
    by_cases hk : op.key = k
    · subst hk
      exact entry_write_self h
    · rw [entry_write_other hk, entry_write_other hk, h]
  rw [run_eq, run_eq]
  by_cases hidx : op.idx = some k
  · rw [hidx]
    exact entry_index_self hwrite op.ttl
  · rw [entry_index_other hidx, entry_index_other hidx, hwrite]

theorem entry_run_other (h : op.touches k = false) : entry (op.run st now) k = entry st k := by
  simp only [WriteOp.touches, Bool.or_eq_false_iff, decide_eq_false_iff_not] at h
  rw [run_eq, entry_index_other h.2, entry_write_other h.1]

/-- A batch at one moment. -/
def batch (st : InMemoryStore) (now : ℚ) (ops : List WriteOp) : InMemoryStore :=
  st.pipelineOps (ops.map fun op => (op, now))

theorem batch_cons : st.batch now (op :: ops) = (op.run st now).batch now ops := rfl

/-- The same batch leaves in an entry what depends on this entry. -/
theorem entry_batch_congr (h : st.entry k = st'.entry k) (ops : List WriteOp) :
    entry (st.batch now ops) k = entry (st'.batch now ops) k := by
  induction ops generalizing st st' with
  | nil => exact h
  | cons op ops ih => exact ih (entry_run_self op h)

/-- The writes that do not touch an entry can be left out. -/
theorem entry_batch_filter (st : InMemoryStore) (ops : List WriteOp) :
    entry (st.batch now ops) k = entry (st.batch now (ops.filter (·.touches k))) k := by
  induction ops generalizing st with
  | nil => rfl
  | cons op ops ih =>
    by_cases htouch : op.touches k = true
    · rw [List.filter_cons, if_pos htouch, batch_cons, batch_cons]
      exact ih _
    · rw [List.filter_cons, if_neg htouch, batch_cons, ← ih]
      exact entry_batch_congr (entry_run_other (Bool.eq_false_of_not_eq_true htouch)) ops

theorem entry_batch_self (h : st.entry k = st'.entry k)
    (hops : ops.filter (·.touches k) = ops'.filter (·.touches k)) :
    entry (st.batch now ops) k = entry (st'.batch now ops') k := by
  rw [entry_batch_filter st, entry_batch_filter st', hops]
  exact entry_batch_congr h _

/-! ### Searches -/

theorem mem_keys_iff {ν : Type*} {r : FieldMap String ν} : k ∈ r.keys ↔ (r.lookup k).isSome := by
  rw [Registry.mem_keys, Registry.lookup, Option.isSome_map, Option.isSome_iff_exists]

/-- A search finds the keys with the prefix that have an entry which has not
    expired. -/
theorem mem_keysMatching {pfx : String} : k ∈ st.keysMatching pfx now ↔
    pfx.toList.isPrefixOf k.toList = true ∧
      (((st.entry k).z.isSome ∨ (st.entry k).zs.isSome ∨ (st.entry k).h.isSome ∨
        (st.entry k).s.isSome) ∧ (st.entry k).alive now = true ∨ (st.entry k).taken now = true) := by
  have hentries : k ∈ (st.kv.vals.filter fun v => now < v.2.2).map Prod.fst ↔
      (st.entry k).taken now = true := by
    simp only [List.mem_map, List.mem_filter, decide_eq_true_eq, Entry.taken, entry, Option.any_eq_true]
    constructor
    · rintro ⟨⟨k', v⟩, ⟨hmem, hlive⟩, rfl⟩
      exact ⟨v, Registry.lookup_eq_some.mpr hmem, hlive⟩
    · rintro ⟨v, hlookup, hlive⟩
      exact ⟨(k, v), ⟨Registry.lookup_eq_some.mp hlookup, hlive⟩, rfl⟩
  simp only [keysMatching, List.mem_insertionSort, List.mem_dedup, List.mem_filter, List.mem_append,
    mem_keys_iff, hentries, or_assoc]
  rw [and_comm]
  rfl

/-- What a key has in an empty store. -/
def Entry.absent : Entry := ⟨none, none, none, none, none, none, none⟩

theorem notMem_keysMatching {pfx : String} (h : st.entry k = .absent) :
    k ∉ st.keysMatching pfx now := by
  rw [mem_keysMatching, h]
  simp [Entry.absent, Entry.taken]

/-- The in-memory store as a keyed store. -/
def keyed : Sharding.KeyedStore String ℚ Method Answer WriteOp String WriteOp.touches where
  State := InMemoryStore
  Cell := Entry
  empty := .empty
  view := entry
  call := call
  batch := batch
  sweep := kvPrune
  scan st now pfx := st.keysMatching pfx now
  call_self _ m h := ⟨call_fst h m, entry_call_self h m⟩
  call_other _ _ _ _ m hk := entry_call_other (Ne.symm hk) m
  batch_nil _ _ := rfl
  batch_self _ _ _ h hops := entry_batch_self h hops
  sweep_self _ h := by rw [entry_kvPrune, entry_kvPrune, h]
  sweep_empty _ h := by rw [entry_kvPrune, h]; rfl
  scan_self _ _ h := by rw [mem_keysMatching, mem_keysMatching, h]
  scan_empty _ _ h := notMem_keysMatching h

end InMemoryStore
