import Mathlib.Data.Rat.Floor
import CernityNdr.Framework.CappedMap
import CernityNdr.Framework.Json

/-! # The In-Memory Window Store

    The model of `InMemoryStore` of `shared/store.py`: time windows,
    first-seen sets, hashes, sets whose members age on their own, key/value
    entries and the emit-once keys, all with a time to live and pruned when
    they are read. Every method takes the time at which it runs.

    Times, scores and the numbers in a hash are rationals. -/

open CappedMap (FieldMap)

/-- The field of a hash that counts refused writes. -/
def REFUSED_FIELD : String := "#refused"

/-- `int(x)`: towards zero. -/
def truncate (x : ℚ) : Int := if 0 ≤ x then ⌊x⌋ else ⌈x⌉

/-- An entry of a window. -/
structure WindowEntry where
  score : ℚ
  value : Json
  expiry : ℚ

structure InMemoryStore where
  /-- windows -/
  z : FieldMap String (List WindowEntry)
  /-- first-seen sets: the score of every member -/
  zs : FieldMap String (FieldMap String ℚ)
  /-- hashes -/
  h : FieldMap String (FieldMap String ℚ)
  /-- sets: the expiry of every member -/
  s : FieldMap String (FieldMap String ℚ)
  kv : FieldMap String (Json × ℚ)
  /-- the expiry of a key of `z`, `zs`, `h` or `s` -/
  exp : FieldMap String ℚ
  dedup : FieldMap String ℚ

namespace InMemoryStore

def empty : InMemoryStore := ⟨.empty, .empty, .empty, .empty, .empty, .empty, .empty⟩

/-- `_alive`. -/
def alive (st : InMemoryStore) (key : String) (now : ℚ) : Bool :=
  match st.exp.lookup key with
  | none => true
  | some e => now < e

/-- `_exp.setdefault(key, e)`. -/
def setDefault (exp : FieldMap String ℚ) (key : String) (e : ℚ) : FieldMap String ℚ :=
  match exp.lookup key with
  | none => exp.put (key, e)
  | some _ => exp

/-! ### Windows -/

/-- `window_add`. -/
def windowAdd (st : InMemoryStore) (key : String) (score : ℚ) (value : Json) (ttl now : ℚ) :
    InMemoryStore :=
  { st with
    z := st.z.put (key, (st.z.lookup key).getD [] ++ [⟨score, value, now + ttl⟩])
    exp := st.exp.put (key, now + ttl) }

/-- The order of values of one window: numbers or texts. -/
def valueLe : Json → Json → Bool
  | .int a, .int b => a ≤ b
  | .str a, .str b => a ≤ b
  | _, _ => true

def entryLe (a b : ℚ × Json) : Bool := a.1 < b.1 || (a.1 = b.1 && valueLe a.2 b.2)

/-- `window_range`. -/
def windowRange (st : InMemoryStore) (key : String) (minScore now : ℚ) :
    List (ℚ × Json) × InMemoryStore :=
  let z := ((st.z.lookup key).getD []).filter fun t => now < t.expiry && minScore ≤ t.score
  ((z.map fun t => (t.score, t.value)).insertionSort (entryLe · ·),
    { st with z := st.z.put (key, z) })

/-! ### Hashes -/

/-- The hash under `key`, without what has expired. -/
def hashAt (st : InMemoryStore) (key : String) (now : ℚ) : FieldMap String ℚ :=
  if st.alive key now then (st.h.lookup key).getD .empty else .empty

/-- A hash is written, and its window starts when there is none. -/
def putHash (st : InMemoryStore) (key : String) (h : FieldMap String ℚ) (ttl now : ℚ) :
    InMemoryStore :=
  { st with
    h := st.h.put (key, h)
    exp := setDefault (if st.alive key now then st.exp else st.exp.pop key) key (now + ttl) }

/-- `counter_add`. -/
def counterAdd (st : InMemoryStore) (key field : String) (delta ttl now : ℚ) : InMemoryStore :=
  let h := st.hashAt key now
  st.putHash key (h.put (field, (h.lookup field).getD 0 + delta)) ttl now

/-- `counter_get`. -/
def counterGet (st : InMemoryStore) (key field : String) (now : ℚ) : ℚ :=
  ((st.hashAt key now).lookup field).getD 0

/-- `counter_clear`. -/
def counterClear (st : InMemoryStore) (key : String) : InMemoryStore :=
  { st with h := st.h.pop key, exp := st.exp.pop key }

/-- `len(h) - (REFUSED_FIELD in h)`. -/
def fieldCount (h : FieldMap String ℚ) : Int :=
  h.vals.length - if REFUSED_FIELD ∈ h.keys then 1 else 0

/-- The hash after `field_set`. -/
def writeField (cap : Option Int) (h : FieldMap String ℚ) (field : String) (value : ℚ) :
    FieldMap String ℚ :=
  if cap.any (fun c => field ∉ h.keys ∧ c ≤ fieldCount h) then
    h.put (REFUSED_FIELD, (h.lookup REFUSED_FIELD).getD 0 + 1)
  else h.put (field, value)

/-- `field_set`. -/
def fieldSet (st : InMemoryStore) (key field : String) (value ttl : ℚ) (cap : Option Int)
    (now : ℚ) : InMemoryStore :=
  st.putHash key (writeField cap (st.hashAt key now) field value) ttl now

/-- The fields of a hash but the count of refused writes. -/
def fieldsOf (h : FieldMap String ℚ) : FieldMap String ℚ := h.filter fun f => f.1 ≠ REFUSED_FIELD

/-- `fields_get`. -/
def fieldsGet (st : InMemoryStore) (key : String) (now : ℚ) : FieldMap String ℚ × Int :=
  let h := st.hashAt key now
  (fieldsOf h, truncate ((h.lookup REFUSED_FIELD).getD 0))

/-! ### Sets -/

/-- `_live_set`: drop the members that have expired. -/
def liveSet (st : InMemoryStore) (key : String) (now : ℚ) : FieldMap String ℚ × InMemoryStore :=
  match st.s.lookup key with
  | none => (.empty, st)
  | some s =>
    let live := s.filter fun m => now < m.2
    (live, { st with s := if live.vals.isEmpty then st.s.pop key else st.s.put (key, live) })

/-- `set_add`. -/
def setAdd (st : InMemoryStore) (key member : String) (ttl : ℚ) (cap : Option Nat) (now : ℚ) :
    InMemoryStore :=
  let (s, st) := st.liveSet key now
  let s := if cap.all (fun c => s.vals.length ≤ c) ∨ member ∈ s.keys then s.put (member, now + ttl)
    else s
  { st with s := st.s.put (key, s), exp := st.exp.put (key, now + ttl) }

/-- `set_len`. -/
def setLen (st : InMemoryStore) (key : String) (now : ℚ) : Nat × InMemoryStore :=
  let (s, st) := st.liveSet key now
  (s.vals.length, st)

/-- `set_members`. -/
def setMembers (st : InMemoryStore) (key : String) (now : ℚ) : List String × InMemoryStore :=
  let (s, st) := st.liveSet key now
  (s.keys, st)

/-- `set_contains`. -/
def setContains (st : InMemoryStore) (key member : String) (now : ℚ) : Bool × InMemoryStore :=
  let (s, st) := st.liveSet key now
  (member ∈ s.keys, st)

/-- `set_remove`. -/
def setRemove (st : InMemoryStore) (key member : String) : InMemoryStore :=
  match st.s.lookup key with
  | none => st
  | some s => { st with s := st.s.put (key, s.pop member) }

/-! ### First-seen sets -/

/-- The op `znx`: the earliest score of a member stays. -/
def firstSeen (st : InMemoryStore) (key member : String) (score ttl now : ℚ) : InMemoryStore :=
  let zs := if st.alive key now then (st.zs.lookup key).getD .empty else .empty
  { st with
    zs := st.zs.put (key, setDefault zs member score)
    exp := st.exp.put (key, now + ttl) }

/-- The members of a first-seen set that is alive. -/
def zset (st : InMemoryStore) (key : String) (now : ℚ) : FieldMap String ℚ :=
  if st.alive key now then (st.zs.lookup key).getD .empty else .empty

/-- `(score, member)` order. -/
def memberLt (a b : String × ℚ) : Bool := a.2 < b.2 || (a.2 = b.2 && a.1 < b.1)

/-- The members with a score above `minScore`, in `(score, member)` order. -/
def sinceOf (zs : FieldMap String ℚ) (minScore : ℚ) : List String :=
  ((zs.vals.filter fun m => minScore < m.2).insertionSort fun a b => !memberLt b a).map Prod.fst

/-- The number of members before `member`. -/
def rankOf (zs : FieldMap String ℚ) (member : String) : Option Nat :=
  (zs.lookup member).map fun score =>
    (zs.vals.filter fun m => memberLt m (member, score)).length

/-- `zset_since`. -/
def zsetSince (st : InMemoryStore) (key : String) (minScore now : ℚ) : List String :=
  sinceOf (st.zset key now) minScore

/-- `zset_rank`. -/
def zsetRank (st : InMemoryStore) (key member : String) (now : ℚ) : Option Nat :=
  rankOf (st.zset key now) member

/-! ### Entries and emit-once keys -/

/-- `kv_set`. -/
def kvSet (st : InMemoryStore) (key : String) (value : Json) (ttl now : ℚ) : InMemoryStore :=
  { st with kv := st.kv.put (key, value, now + ttl) }

/-- `kv_set_once`: true for the first writer. -/
def kvSetOnce (st : InMemoryStore) (key : String) (value : Json) (ttl now : ℚ) :
    Bool × InMemoryStore :=
  if ttl ≤ 0 then (false, st)
  else if (st.kv.lookup key).any fun v => now < v.2 then (false, st)
  else (true, { st with kv := st.kv.put (key, value, now + ⌈ttl * 1000⌉ / 1000) })

/-- `kv_get`. -/
def kvGet (st : InMemoryStore) (key : String) (now : ℚ) : Option Json × InMemoryStore :=
  match (st.kv.lookup key).filter fun v => now < v.2 with
  | some v => (some v.1, st)
  | none => (none, { st with kv := st.kv.pop key })

/-- `kv_prune`. -/
def kvPrune (st : InMemoryStore) (now : ℚ) : InMemoryStore :=
  { st with kv := st.kv.filter fun v => now < v.2.2 }

/-- `dedup_seen`: true for the first sighting. -/
def dedupSeen (st : InMemoryStore) (key : String) (ttl now : ℚ) : Bool × InMemoryStore :=
  -- `if e and e > now`: times are positive, no expiry is zero
  if (st.dedup.lookup key).any fun e => now < e then (false, st)
  else (true, { st with dedup := st.dedup.put (key, now + ttl) })

/-! ### Enumeration -/

/-- `keys_matching`. -/
def keysMatching (st : InMemoryStore) (pfx : String) (now : ℚ) : List String :=
  let keys := st.z.keys ++ st.zs.keys ++ st.h.keys ++ st.s.keys
  let live := keys.filter fun k => st.alive k now
  let entries := (st.kv.vals.filter fun v => now < v.2.2).map Prod.fst
  (((live ++ entries).filter fun k => pfx.toList.isPrefixOf k.toList).dedup).insertionSort (· ≤ ·)

/-! ### Batches -/

/-- A buffered write. -/
inductive WriteOp
  | win (key : String) (idx : Option String) (score : ℚ) (value : Json) (ttl : ℚ)
  | cnt (key field : String) (delta ttl : ℚ) (idx : Option String)
  | fset (key field : String) (value ttl : ℚ) (idx : Option String) (cap : Option Int)
  | znx (key member : String) (score ttl : ℚ) (idx : Option String)
  | kv (key : String) (value : Json) (ttl : ℚ)
  | sadd (key member : String) (ttl : ℚ)

/-- `if idx is not None: self.set_add(idx, key, ttl)`. -/
def index (st : InMemoryStore) (idx : Option String) (key : String) (ttl now : ℚ) : InMemoryStore :=
  match idx with
  | none => st
  | some idx => st.setAdd idx key ttl none now

def WriteOp.run (st : InMemoryStore) (now : ℚ) : WriteOp → InMemoryStore
  | win key idx score value ttl => (st.windowAdd key score value ttl now).index idx key ttl now
  | cnt key field delta ttl idx => (st.counterAdd key field delta ttl now).index idx key ttl now
  | fset key field value ttl idx cap =>
    (st.fieldSet key field value ttl cap now).index idx key ttl now
  | znx key member score ttl idx => (st.firstSeen key member score ttl now).index idx key ttl now
  | kv key value ttl => st.kvSet key value ttl now
  | sadd key member ttl => st.setAdd key member ttl none now

/-- `pipeline_ops`, each op at its own time. -/
def pipelineOps (st : InMemoryStore) (ops : List (WriteOp × ℚ)) : InMemoryStore :=
  ops.foldl (fun st op => op.1.run st op.2) st

/-- `window_add_indexed`. -/
def windowAddIndexed (st : InMemoryStore) (key idx : String) (score : ℚ) (value : Json)
    (ttl now : ℚ) : InMemoryStore :=
  (st.windowAdd key score value ttl now).setAdd idx key ttl none now

/-- `window_add_indexed` is the batch of its item. -/
theorem windowAddIndexed_eq (st : InMemoryStore) (key idx : String) (score : ℚ) (value : Json)
    (ttl now : ℚ) : st.windowAddIndexed key idx score value ttl now =
      st.pipelineOps [(.win key (some idx) score value ttl, now)] := rfl

end InMemoryStore
