import CernityNdr.Window.Keyed

/-! # The Redis Window Store

    The model of `RedisStore` of `shared/store.py`: the commands that every
    method sends and what it makes of the replies. What Redis does with a
    command is a parameter: a command is about one key, and its reply and
    effect depend on what is under this key and on the time.

    A key is used by the methods of one type, so no reply is an error. The
    loading of the script is left out, it is about no key. -/

open CappedMap (FieldMap)
open InMemoryStore (WriteOp)

/-- A command about one key, as the store sends it. -/
inductive Command
  | zadd (nx : Bool) (score : ℚ) (member : String)
  /-- all members -/
  | zrange
  /-- the members with a score above the bound -/
  | zrangebyscore (above : ℚ)
  | zrank (member : String)
  /-- remove the members with a score below the bound -/
  | zremrangebyscore (below : ℚ)
  | zrem (member : String)
  | zcard
  | zscore (member : String)
  | hincrbyfloat (field : String) (delta : ℚ)
  | hget (field : String)
  | hgetall
  /-- the script `_FIELD_SET_LUA` -/
  | evalsha (field : String) (value : ℚ) (cap : Option Int)
  | set (value : String) (nx : Bool) (ex px : Option Int)
  | get
  | delete
  | expire (nx : Bool) (seconds : Int)

inductive Reply
  | nil
  | int (n : Int)
  | number (x : ℚ)
  | text (s : String)
  | texts (ts : List String)
  | hash (h : FieldMap String ℚ)

/-- A Redis server and the JSON texts that are stored in it. -/
structure Redis where
  Cell : Type
  absent : Cell
  exec : ℚ → Command → Cell → Reply × Cell
  /-- the key is there for a `SCAN` -/
  present : ℚ → Cell → Bool
  present_absent : ∀ now, present now absent = false
  /-- the pattern of a `SCAN` fits the key -/
  fits : String → String → Bool
  /-- `json.dumps([score, value])` -/
  dumpEntry : ℚ → Json → String
  /-- `json.loads` of a member; `none` where it raises -/
  loadEntry : String → Option (ℚ × Json)
  dumps : Json → String
  loads : String → Json

namespace RedisStore

variable (R : Redis)

/-! ### Methods -/

/-- `pipe.execute()` of commands about one key. -/
def execute (now : ℚ) : List Command → R.Cell → List Reply × R.Cell
  | [], c => ([], c)
  | cmd :: cmds, c =>
    let (reply, c) := R.exec now cmd c
    let (replies, c) := execute now cmds c
    (reply :: replies, c)

/-- `int(ttl) + 1`. -/
def seconds (ttl : ℚ) : Int := truncate ttl + 1

def Reply.texts? : Reply → List String
  | .texts ts => ts
  | _ => []

def Reply.number? : Reply → ℚ
  | .number x => x
  | _ => 0

def Reply.count? : Reply → Nat
  | .int n => n.toNat
  | _ => 0

/-- `_r.zrank`: a number, or nothing. -/
def Reply.rank? : Reply → Option Nat
  | .int n => some n.toNat
  | _ => none

/-- `reply is not None`, and `bool` of the reply to a `SET`. -/
def Reply.given : Reply → Bool
  | .nil => false
  | _ => true

def Reply.fields : Reply → FieldMap String ℚ
  | .hash h => h
  | _ => .empty

def Reply.value? (r : Redis) : Reply → Option Json
  | .text s => some (r.loads s)
  | _ => none

/-- `_prune_set`. -/
def pruneSet (now : ℚ) (c : R.Cell) : R.Cell := (R.exec now (.zremrangebyscore now) c).2

/-- `set_add`. -/
def setAdd (now : ℚ) (member : String) (ttl : ℚ) (cap : Option Nat) (c : R.Cell) : R.Cell :=
  let add := fun c => (execute R now [.zadd false (now + ttl) member, .expire false (seconds ttl)] c).2
  match cap with
  | none => add c
  | some cap =>
    let c := pruneSet R now c
    let (card, c) := R.exec now .zcard c
    if cap < Reply.count? card then
      let (score, c) := R.exec now (.zscore member) c
      if Reply.given score then add c else c
    else add c

/-- A method, on what is under its key. -/
def method (now : ℚ) (c : R.Cell) : Method → Answer × R.Cell
  | .window_add score value ttl =>
    (.none, (execute R now [.zadd false score (R.dumpEntry score value),
      .expire false (seconds ttl)] c).2)
  | .window_range minScore =>
    let (replies, c) := execute R now [.zremrangebyscore minScore, .zrange] c
    (.window ((Reply.texts? (replies.getD 1 .nil)).filterMap R.loadEntry), c)
  | .zset_since minScore =>
    let (reply, c) := R.exec now (.zrangebyscore minScore) c
    (.members (Reply.texts? reply), c)
  | .zset_rank member =>
    let (reply, c) := R.exec now (.zrank member) c
    (.rank (Reply.rank? reply), c)
  | .counter_add field delta ttl =>
    let (replies, c) := execute R now [.hincrbyfloat field delta, .expire true (seconds ttl)] c
    (.number (Reply.number? (replies.getD 0 .nil)), c)
  | .counter_get field =>
    let (reply, c) := R.exec now (.hget field) c
    (.number (Reply.number? reply), c)
  | .counter_clear => (.none, (R.exec now .delete c).2)
  | .field_set field value ttl cap =>
    (.none, (execute R now [.evalsha field value cap, .expire true (seconds ttl)] c).2)
  | .fields_get =>
    let (reply, c) := R.exec now .hgetall c
    let h := Reply.fields reply
    (.fields (InMemoryStore.fieldsOf h) (truncate ((h.lookup REFUSED_FIELD).getD 0)), c)
  | .set_add member ttl cap => (.none, setAdd R now member ttl cap c)
  | .set_len =>
    let (reply, c) := R.exec now .zcard (pruneSet R now c)
    (.count (Reply.count? reply), c)
  | .set_contains member =>
    let (reply, c) := R.exec now (.zscore member) (pruneSet R now c)
    (.bool (Reply.given reply), c)
  | .set_members =>
    let (reply, c) := R.exec now .zrange (pruneSet R now c)
    (.members (Reply.texts? reply), c)
  | .set_remove member => (.none, (R.exec now (.zrem member) c).2)
  | .kv_set value ttl => (.none, (R.exec now (.set (R.dumps value) false (seconds ttl) none) c).2)
  | .kv_set_once value ttl =>
    if ttl ≤ 0 then (.bool false, c)
    else
      let (reply, c) := R.exec now (.set (R.dumps value) true none (some ⌈ttl * 1000⌉)) c
      (.bool (Reply.given reply), c)
  | .kv_get =>
    let (reply, c) := R.exec now .get c
    (.value (Reply.value? R reply), c)
  | .dedup_seen ttl =>
    let (reply, c) := R.exec now (.set "1" true (seconds ttl) none) c
    (.bool (Reply.given reply), c)

/-! ### The keys of a server -/

/-- What is under the keys that were ever used. -/
abbrev Keys := FieldMap String R.Cell

def cell (st : Keys R) (key : String) : R.Cell := (st.lookup key).getD R.absent

def call (st : Keys R) (now : ℚ) (key : String) (m : Method) : Answer × Keys R :=
  let (answer, c) := method R now (cell R st key) m
  (answer, st.put (key, c))

/-- `keys_matching`. -/
def keysMatching (st : Keys R) (now : ℚ) (pfx : String) : List String :=
  (st.vals.filter fun e => R.present now e.2 && R.fits (pfx ++ "*") e.1).map Prod.fst

/-! ### Batches -/

/-- A command of a batch. An `EXPIRE` by `_exp` is sent once for a key. -/
inductive Queued
  | command (cmd : Command)
  | expireOnce (ttl : ℚ)

/-- `_idx`. -/
def queuedIndex (now : ℚ) (key : String) (ttl : ℚ) : Option String → List (String × Queued)
  | none => []
  | some idx => [(idx, .command (.zadd false (now + ttl) key)), (idx, .expireOnce ttl)]

/-- What `pipeline_ops` queues about the key of a write. -/
def queuedWrite (now : ℚ) : WriteOp → List Queued
  | .win _ _ score value ttl =>
    [.command (.zadd false score (R.dumpEntry score value)), .expireOnce ttl]
  | .cnt _ field delta ttl _ =>
    [.command (.hincrbyfloat field delta), .command (.expire true (seconds ttl))]
  | .fset _ field value ttl _ cap =>
    [.command (.evalsha field value cap), .command (.expire true (seconds ttl))]
  | .znx _ member score ttl _ => [.command (.zadd true score member), .expireOnce ttl]
  | .kv _ value ttl => [.command (.set (R.dumps value) false (seconds ttl) none)]
  | .sadd _ member ttl => [.command (.zadd false (now + ttl) member), .expireOnce ttl]

/-- What `pipeline_ops` queues for a write. -/
def queued (now : ℚ) (op : WriteOp) : List (String × Queued) :=
  (queuedWrite R now op).map (op.key, ·) ++ queuedIndex now op.key op.ttl op.idx

/-- The commands of a batch; `expd` are the keys whose `EXPIRE` was sent. -/
def commands (expd : List String) : List (String × Queued) → List (String × Command)
  | [] => []
  | (key, .command cmd) :: qs => (key, cmd) :: commands expd qs
  | (key, .expireOnce ttl) :: qs =>
    if key ∈ expd then commands expd qs
    else (key, .expire false (seconds ttl)) :: commands (key :: expd) qs

/-- A command of a batch is executed. -/
def send (now : ℚ) (st : Keys R) (c : String × Command) : Keys R :=
  st.put (c.1, (R.exec now c.2 (cell R st c.1)).2)

/-- `pipeline_ops`. -/
def pipelineOps (st : Keys R) (now : ℚ) (ops : List WriteOp) : Keys R :=
  (commands [] (ops.flatMap (queued R now))).foldl (send R now) st

/-- `window_add_indexed`. -/
def windowAddIndexed (st : Keys R) (now : ℚ) (key idx : String) (score : ℚ) (value : Json)
    (ttl : ℚ) : Keys R :=
  [(key, .zadd false score (R.dumpEntry score value)), (key, .expire false (seconds ttl)),
    (idx, .zadd false (now + ttl) key), (idx, Command.expire false (seconds ttl))].foldl (send R now)
    st

/-- `window_add_indexed` is the batch of its item. -/
theorem windowAddIndexed_eq (st : Keys R) (now : ℚ) {key idx : String} (score : ℚ) (value : Json)
    (ttl : ℚ) (h : key ≠ idx) : windowAddIndexed R st now key idx score value ttl =
      pipelineOps R st now [.win key (some idx) score value ttl] := by
  have hqueued : commands [] ([.win key (some idx) score value ttl].flatMap (queued R now)) =
      [(key, .zadd false score (R.dumpEntry score value)), (key, .expire false (seconds ttl)),
        (idx, .zadd false (now + ttl) key), (idx, .expire false (seconds ttl))] := by
    simp [queued, queuedWrite, queuedIndex, commands, WriteOp.key, WriteOp.ttl, WriteOp.idx, Ne.symm h]
  rw [pipelineOps, hqueued]
  rfl

/-! ### The store is keyed -/

variable {R} {st st' : Keys R} {key k : String} {now : ℚ}

theorem cell_put (st : Keys R) (key k : String) (c : R.Cell) :
    cell R (st.put (key, c)) k = if key = k then c else cell R st k := by
  rw [cell, Registry.lookup_put]
  split
  · rfl
  · rfl

theorem call_self (h : cell R st key = cell R st' key) (m : Method) :
    (call R st now key m).1 = (call R st' now key m).1 ∧
      cell R (call R st now key m).2 key = cell R (call R st' now key m).2 key := by
  simp only [call, cell_put, h, if_true, and_self]

theorem call_other (hk : key ≠ k) (m : Method) : cell R (call R st now key m).2 k = cell R st k := by
  simp only [call, cell_put, if_neg hk]

/-- The commands about other keys can be left out. -/
theorem cell_send (st : Keys R) (cs : List (String × Command)) :
    cell R (cs.foldl (send R now) st) k =
      (cs.filter (·.1 = k)).foldl (fun c cmd => (R.exec now cmd.2 c).2) (cell R st k) := by
  induction cs generalizing st with
  | nil => rfl
  | cons c cs ih =>
    rw [List.foldl_cons, ih, send, cell_put]
    by_cases hk : c.1 = k
    · rw [if_pos hk, List.filter_cons_of_pos (by simpa using hk), List.foldl_cons, hk]
    · rw [if_neg hk, List.filter_cons_of_neg (by simpa using hk)]

/-- What is sent about a key is decided by what is queued about it. -/
theorem commands_filter {expd expd' : List String} (h : k ∈ expd ↔ k ∈ expd')
    (qs : List (String × Queued)) :
    (commands expd qs).filter (·.1 = k) = commands expd' (qs.filter (·.1 = k)) := by
  induction qs generalizing expd expd' with
  | nil => rfl
  | cons q qs ih =>
    obtain ⟨key, q⟩ := q
    by_cases hk : key = k
    · subst hk
      rw [List.filter_cons_of_pos (by simp)]
      cases q with
      | command cmd => rw [commands, commands, List.filter_cons_of_pos (by simp), ih h]
      | expireOnce ttl =>
        rw [commands, commands]
        by_cases hsent : key ∈ expd
        · rw [if_pos hsent, if_pos (h.mp hsent), ih h]
        · have hmem : key ∈ key :: expd ↔ key ∈ key :: expd' := by simp
          rw [if_neg hsent, if_neg (mt h.mpr hsent), List.filter_cons_of_pos (by simp), ih hmem]
    · rw [List.filter_cons_of_neg (by simpa using hk)]
      cases q with
      | command cmd => rw [commands, List.filter_cons_of_neg (by simpa using hk), ih h]
      | expireOnce ttl =>
        rw [commands]
        split
        · exact ih h
        · have hmem : k ∈ key :: expd ↔ k ∈ expd' := by
            rw [List.mem_cons, ← h]
            exact or_iff_right (Ne.symm hk)
          rw [List.filter_cons_of_neg (by simpa using hk), ih hmem]

/-- A write queues nothing about a key that it does not touch. -/
theorem queued_filter_of_untouched {op : WriteOp} (h : op.touches k = false) :
    (queued R now op).filter (·.1 = k) = [] := by
  simp only [WriteOp.touches, Bool.or_eq_false_iff, decide_eq_false_iff_not] at h
  obtain ⟨hkey, hidx⟩ := h
  rw [queued, List.filter_append, List.append_eq_nil_iff]
  constructor
  · rw [List.filter_map, List.map_eq_nil_iff, List.filter_eq_nil_iff]
    intro q _
    simpa using hkey
  · cases hop : op.idx with
    | none => rfl
    | some idx =>
      have hne : idx ≠ k := fun h => hidx (hop.trans (congrArg some h))
      simp [queuedIndex, hne]

theorem queued_filter (ops : List WriteOp) :
    (ops.flatMap (queued R now)).filter (·.1 = k) =
      ((ops.filter (·.touches k)).flatMap (queued R now)).filter (·.1 = k) := by
  induction ops with
  | nil => rfl
  | cons op ops ih =>
    rw [List.flatMap_cons, List.filter_append, ih, List.filter_cons]
    by_cases htouch : op.touches k = true
    · rw [if_pos htouch, List.flatMap_cons, List.filter_append]
    · rw [if_neg htouch, queued_filter_of_untouched (Bool.eq_false_of_not_eq_true htouch),
        List.nil_append]

theorem cell_pipelineOps (h : cell R st k = cell R st' k) {ops ops' : List WriteOp}
    (hops : ops.filter (·.touches k) = ops'.filter (·.touches k)) :
    cell R (pipelineOps R st now ops) k = cell R (pipelineOps R st' now ops') k := by
  have hsame : k ∈ ([] : List String) ↔ k ∈ ([] : List String) := Iff.rfl
  rw [pipelineOps, pipelineOps, cell_send, cell_send, commands_filter hsame, commands_filter hsame,
    queued_filter ops, queued_filter ops', hops, h]

theorem mem_keysMatching {pfx : String} : k ∈ keysMatching R st now pfx ↔
    R.present now (cell R st k) = true ∧ R.fits (pfx ++ "*") k = true := by
  simp only [keysMatching, List.mem_map, List.mem_filter, Bool.and_eq_true]
  constructor
  · rintro ⟨⟨k', c⟩, ⟨hmem, hpresent, hfits⟩, rfl⟩
    rw [cell, Registry.lookup_eq_some.mpr hmem]
    exact ⟨hpresent, hfits⟩
  · rintro ⟨hpresent, hfits⟩
    cases hlookup : st.lookup k with
    | none =>
      rw [cell, hlookup, Option.getD_none, R.present_absent] at hpresent
      cases hpresent
    | some c =>
      rw [cell, hlookup] at hpresent
      exact ⟨(k, c), ⟨Registry.lookup_eq_some.mp hlookup, hpresent, hfits⟩, rfl⟩

theorem notMem_keysMatching {pfx : String} (h : cell R st k = R.absent) :
    k ∉ keysMatching R st now pfx := by
  rw [mem_keysMatching, h, R.present_absent]
  simp

variable (R) in
/-- The Redis store as a keyed store. `kv_prune` does nothing, Redis evicts. -/
def keyed : Sharding.KeyedStore String ℚ Method Answer WriteOp String WriteOp.touches where
  State := Keys R
  Cell := R.Cell
  empty := .empty
  view := cell R
  call := call R
  batch := pipelineOps R
  sweep st _ := st
  scan := keysMatching R
  call_self _ m h := call_self h m
  call_other _ _ _ _ m hk := call_other (Ne.symm hk) m
  batch_nil _ _ := rfl
  batch_self _ _ _ h hops := cell_pipelineOps h hops
  sweep_self _ h := h
  sweep_empty _ h := h
  scan_self _ _ h := by rw [mem_keysMatching, mem_keysMatching, h]
  scan_empty _ _ h := notMem_keysMatching h

end RedisStore
