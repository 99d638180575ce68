import CernityNdr.Framework.Text
import CernityNdr.Window.Redis

/-! # The Sharded Window Store

    The model of `_shard_of` and of `ShardedRedisStore` of `shared/store.py`,
    over shards of any of the two kinds. An operation raises where `_shard_of`
    raises on its key, and otherwise it is passed to the shard of the key.

    * `shardOf_indexKey`: an entity key and the index key of its partition
      have one shard.
    * `sharded_agrees_iff`: a run has the results of a single store of the
      same kind exactly when every key of it can be read by `_shard_of`.

    `window_add_indexed` and `window_add_indexed_batch` are the batches of
    their items. Keys are UTF-8 texts, each used with one Redis type. -/

open InMemoryStore (WriteOp)
open Sharding (KeyedStore)

/-! ### Routing -/

namespace ShardedRedisStore

/-- Eight bits of a `crc32`. -/
def crcByte (crc : UInt32) : UInt32 :=
  (List.range 8).foldl (fun c _ => if c &&& 1 = 1 then (c >>> 1) ^^^ 0xedb88320 else c >>> 1) crc

/-- `zlib.crc32`. -/
def crc32 (bytes : List UInt8) : UInt32 :=
  bytes.foldl (fun c b => crcByte (c ^^^ b.toUInt32)) 0xffffffff ^^^ 0xffffffff

/-- The part of a key that `_shard_of` routes by. -/
def segment (key : String) : List Char :=
  let parts := key.toList.splitOn ':'
  if "idx:".toList.isPrefixOf key.toList then parts.getLast?.getD [] else parts.getD 1 []

/-- `_shard_of`; `none` where `int(seg)` raises. -/
def shardOf (n : Nat) [NeZero n] (key : String) : Option (Fin n) :=
  let seg := segment key
  if Text.isdigit seg then (Text.int seg).map (Fin.ofNat n ·)
  else some (Fin.ofNat n (crc32 (key.toList.flatMap String.utf8EncodeChar)).toNat)

/-- What `isdigit` takes for a number is a number for `int`. -/
def Readable (key : String) : Prop :=
  Text.isdigit (segment key) = true → (Text.int (segment key)).isSome

instance : DecidablePred Readable := fun _ => inferInstanceAs (Decidable (_ → _))

theorem shardOf_isSome {n : Nat} [NeZero n] {key : String} :
    (shardOf n key).isSome ↔ Readable key := by
  unfold shardOf Readable
  by_cases hdigit : Text.isdigit (segment key) = true
  · rw [if_pos hdigit, Option.isSome_map]
    exact ⟨fun h _ => h, fun h => h hdigit⟩
  · rw [if_neg hdigit]
    exact ⟨fun _ h => absurd h hdigit, fun _ => rfl⟩

/-! ### Keys -/

/-- `prefix:partition:tenant:entity`. -/
def entityKey (name part tenant entity : String) : String :=
  name ++ ":" ++ part ++ ":" ++ tenant ++ ":" ++ entity

/-- `_index_key(prefix, partition)` for the prefix `name:`. -/
def indexKeyOf (name part : String) : String := "idx:" ++ name ++ ":" ++ part

/-- A prefix is a name of its own, without a colon. -/
def IsName (name : String) : Prop := ':' ∉ name.toList ∧ name ≠ "idx"

/-- A partition in decimal digits. -/
def IsPartition (part : String) : Prop := part ≠ "" ∧ ∀ c ∈ part.toList, c.isDigit = true

variable {name part tenant entity : String}

theorem IsPartition.not_colon (h : IsPartition part) : ':' ∉ part.toList := by
  intro hmem
  exact absurd (h.2 ':' hmem) (by decide)

theorem IsPartition.isdigit (h : IsPartition part) : Text.isdigit part.toList = true :=
  Text.isdigit_of_ascii (mt String.toList_eq_nil_iff.mp h.1) h.2

/-- A key is routed by its second part. -/
theorem segment_entityKey (hname : IsName name) (hpart : IsPartition part) :
    segment (entityKey name part tenant entity) = part.toList := by
  have hchars : (entityKey name part tenant entity).toList =
      name.toList ++ ':' :: (part.toList ++ ':' :: (tenant.toList ++ ':' :: entity.toList)) := by
    simp [entityKey, String.toList_append]
  have hidx : ("idx:".toList.isPrefixOf (entityKey name part tenant entity).toList) = false := by
    rw [Bool.eq_false_iff, ne_eq, List.isPrefixOf_iff_prefix, hchars]
    intro hpre
    -- the first colon ends the prefix of the key
    have hsplit : "idx:".toList = "idx".toList ++ ':' :: [] := rfl
    rw [hsplit] at hpre
    obtain ⟨rest, hrest⟩ := hpre
    have hparts := congrArg (List.splitOn ':') hrest
    rw [List.append_assoc, List.cons_append, List.nil_append,
      List.splitOn_append_cons_self_of_not_mem (by decide),
      List.splitOn_append_cons_self_of_not_mem hname.1, List.cons.injEq] at hparts
    exact hname.2 (String.toList_injective hparts.1.symm)
  rw [segment, hidx, hchars, List.splitOn_append_cons_self_of_not_mem hname.1,
    List.splitOn_append_cons_self_of_not_mem hpart.not_colon]
  rfl

/-- An index key is routed by its last part. -/
theorem segment_indexKeyOf (hpart : IsPartition part) :
    segment (indexKeyOf name part) = part.toList := by
  have hchars : (indexKeyOf name part).toList =
      ("idx:".toList ++ name.toList) ++ ':' :: part.toList := by
    simp [indexKeyOf, String.toList_append]
  have hidx : ("idx:".toList.isPrefixOf (indexKeyOf name part).toList) = true := by
    rw [List.isPrefixOf_iff_prefix, hchars, List.append_assoc]
    exact List.prefix_append _ _
  rw [segment, hidx, hchars, List.splitOn_append_cons_self,
    List.splitOn_eq_singleton hpart.not_colon, if_pos rfl, List.getLast?_concat]
  rfl

/-- **A partition's entity keys and its index have one shard.** -/
theorem shardOf_indexKey {n : Nat} [NeZero n] (hname : IsName name) (hpart : IsPartition part) :
    shardOf n (entityKey name part tenant entity) = shardOf n (indexKeyOf name part) := by
  rw [shardOf, shardOf, segment_entityKey hname hpart, segment_indexKeyOf hpart,
    if_pos hpart.isdigit, if_pos hpart.isdigit]

/-! ### The store -/

/-- The stores that can be sharded. -/
inductive Kind
  | memory
  | redis (R : Redis)

def Kind.store : Kind → KeyedStore String ℚ Method Answer WriteOp String WriteOp.touches
  | memory => InMemoryStore.keyed
  | redis R => RedisStore.keyed R

/-- An operation of `WindowStore`: at one key, a batch, `kv_prune` or
    `keys_matching`. -/
abbrev Op := Sharding.Op String Method WriteOp String

/-- The results of a run on `n` stores; `none` where an operation raised. -/
def results (kind : Kind) (n : Nat) [NeZero n] (ops : List (ℚ × Op)) :
    List (Option (Sharding.Result String Answer)) :=
  Sharding.shardedRun kind.store (shardOf n) WriteOp.key (fun _ => kind.store.empty) ops

/-- The results of the same run on one store. -/
def singleResults (kind : Kind) (ops : List (ℚ × Op)) : List (Sharding.Result String Answer) :=
  Sharding.run kind.store kind.store.empty ops

/-- The same results, the keys that a search found compared as a set. -/
def SameResults (rs : List (Option (Sharding.Result String Answer)))
    (rs' : List (Sharding.Result String Answer)) : Prop :=
  List.Forall₂ Sharding.Agrees rs rs'

/-! ### Keys -/

/-- The writes of an operation. -/
def writesOf : Op → List WriteOp
  | .batch ws => ws
  | _ => []

/-- The keys that an operation is routed by. -/
def keysOf : Op → List String
  | .call key _ => [key]
  | .batch ws => ws.map WriteOp.key
  | _ => []

/-- An indexed write goes to an entity key and to the index of its
    partition. -/
def KeysBuilt (op : Op) : Prop :=
  ∀ w ∈ writesOf op, ∀ idx, w.idx = some idx → ∃ name part tenant entity, IsName name ∧
    IsPartition part ∧ w.key = entityKey name part tenant entity ∧ idx = indexKeyOf name part

variable {n : Nat} [NeZero n] {op : Op}

/-- A write and its index entry land on one shard. -/
theorem KeysBuilt.shardOf_eq (h : KeysBuilt op) {w : WriteOp} (hw : w ∈ writesOf op) {idx : String}
    (hidx : w.idx = some idx) : shardOf n w.key = shardOf n idx := by
  obtain ⟨name, part, tenant, entity, hname, hpart, hkey, rfl⟩ := h w hw idx hidx
  rw [hkey]
  exact shardOf_indexKey hname hpart

theorem KeysBuilt.colocated (h : KeysBuilt op) :
    op.Colocated WriteOp.touches (shardOf n) WriteOp.key := by
  cases op with
  | batch ws =>
    intro w hw k htouch
    simp only [WriteOp.touches, Bool.or_eq_true, decide_eq_true_eq] at htouch
    rcases htouch with rfl | hidx
    · rfl
    · exact (h.shardOf_eq hw hidx).symm
  | _ => trivial

/-- An operation has a shard when its keys can be read. -/
theorem routable_iff : op.Routable (shardOf n) WriteOp.key ↔ ∀ key ∈ keysOf op, Readable key := by
  cases op with
  | call key m => simp [Sharding.Op.Routable, keysOf, shardOf_isSome]
  | batch ws => simp [Sharding.Op.Routable, keysOf, shardOf_isSome]
  | sweep => simp [Sharding.Op.Routable, keysOf]
  | scan pfx => simp [Sharding.Op.Routable, keysOf]

/-- **Sharding is transparent** exactly when every key can be read by
    `_shard_of`, and a write and its index entry land on one shard. -/
theorem sharded_agrees_iff (kind : Kind) (n : Nat) [NeZero n] (ops : List (ℚ × Op))
    (hops : ∀ op ∈ ops, KeysBuilt op.2) :
    (∀ op ∈ ops, ∀ w ∈ writesOf op.2, ∀ idx, w.idx = some idx → shardOf n w.key = shardOf n idx) ∧
      (SameResults (results kind n ops) (singleResults kind ops) ↔
        ∀ op ∈ ops, ∀ key ∈ keysOf op.2, Readable key) := by
  constructor
  · intro op hop w hw idx hidx
    exact (hops op hop).shardOf_eq hw hidx
  · have hagree := Sharding.agree_iff WriteOp.key (Sharding.Glued.init (S := kind.store))
      fun op hop => (hops op hop).colocated (n := n)
    simp only [routable_iff] at hagree
    exact hagree

/-- A window write with its index entry, read back on two shards. -/
theorem two_shards_agree : SameResults
    (results .memory 2 [(0, .batch [InMemoryStore.windowItem "bc:7:a:b" "idx:bc:7" 1 .null 60]),
      (1, .call "idx:bc:7" .set_members)])
    (singleResults .memory [(0, .batch [InMemoryStore.windowItem "bc:7:a:b" "idx:bc:7" 1 .null 60]),
      (1, .call "idx:bc:7" .set_members)]) := by
  refine (sharded_agrees_iff .memory 2 _ ?_).2.mpr ?_
  · simp only [List.forall_mem_cons, List.not_mem_nil, false_implies, implies_true, and_true]
    constructor
    · intro w hw idx hidx
      obtain rfl := List.mem_singleton.mp hw
      refine ⟨"bc", "7", "a", "b", ?_, ?_, rfl, (Option.some.inj hidx).symm⟩
      · exact ⟨by decide, by decide⟩
      · exact ⟨by decide, by simp⟩
    · intro w hw
      exact absurd hw List.not_mem_nil
  · simp only [List.forall_mem_cons, List.not_mem_nil, false_implies, implies_true, and_true, keysOf,
      List.map_cons, List.map_nil]
    exact ⟨by decide +kernel, by decide +kernel⟩

/-- The tenant `²` is a digit for `isdigit` and no number for `int`: the
    sharded store raises, a single store answers. -/
theorem superscript_tenant_raises :
    ¬∀ (kind : Kind) (n : Nat) [NeZero n] (ops : List (ℚ × Op)), (∀ op ∈ ops, KeysBuilt op.2) →
      SameResults (results kind n ops) (singleResults kind ops) := by
  intro h
  have hraises : shardOf 2 "pv:²:10.0.0.1" = none := by decide +kernel
  have hsame := h .memory 2 [(0, .call "pv:²:10.0.0.1" .set_len)] (by
    intro op hop w hw
    rw [List.mem_singleton.mp hop] at hw
    exact absurd hw List.not_mem_nil)
  simp [SameResults, results, singleResults, Sharding.shardedRun, Sharding.shardedStep, hraises,
    Sharding.run, Sharding.Agrees] at hsame

end ShardedRedisStore
