import CernityNdr.Framework.Rolling
import CernityNdr.Window.Mirrored

/-! # Capped Fields on Both Backends

    The hashes that `field_set` writes, on the in-memory store and on a
    server that follows Redis's documentation, and what they show of the
    writes of a window. -/

open CappedMap (FieldMap)
open InMemoryStore (WriteOp)

namespace CappedFields

/-! ### Operations -/

/-- A buffered `field_set`. Index keys are not keys of hashes. -/
def FieldWrite (isIndex : String → Prop) (ttl : String → Int) : WriteOp → Prop
  | .fset key field _ ttl' idx _ =>
    ¬isIndex key ∧ field ≠ REFUSED_FIELD ∧ ttl' = ttl key ∧ ∀ k, idx = some k → isIndex k
  | _ => False

/-- An operation on hashes, with one time to live for every key. -/
def FieldOp (isIndex : String → Prop) (ttl : String → Int) : StoreOp → Prop
  | .call key (.field_set field _ ttl' _) => ¬isIndex key ∧ field ≠ REFUSED_FIELD ∧ ttl' = ttl key
  | .call key .fields_get => ¬isIndex key
  | .call key .counter_clear => ¬isIndex key
  | .batch ws => ∀ w ∈ ws, FieldWrite isIndex ttl w
  | _ => False

/-- No part of the operation falls into the second in which only Redis has
    the key. -/
def ClearOp (st : InMemoryStore) (op : ℚ × StoreOp) : Prop :=
  match op.2 with
  | .call key _ => Table.Clear 1 (st.entry key) op.1
  | .batch ws => Machine.Meets (fun st w => w.run st op.1)
      (fun st w => Table.Clear 1 (st.entry w.key) op.1) st ws
  | _ => True

/-! ### One key -/

open InMemoryStore RedisStore

/-- `field_set` on the entry of its key. -/
def setField (e : Entry) (now : ℚ) (field : String) (value ttl : ℚ) (cap : Option Int) : Entry :=
  { e with
    h := some (writeField cap (e.hash now) field value)
    exp := some (if e.alive now then e.exp.getD (now + ttl) else now + ttl) }

/-- The commands of `field_set`. -/
def fieldCommands (field : String) (value ttl : ℚ) (cap : Option Int) : List Command :=
  [.evalsha field value cap, .expire true (seconds ttl)]

def hashes : Table := ⟨Entry.h, .hash⟩

/-- Redis keeps a hash for one second more. -/
abbrev Mirrored (t : ℚ) (e : Entry) (c : Option Slot) : Prop := hashes.Mirrored 1 t e c

variable {t now : ℚ} {e : Entry} {c : Option Slot} {R : Redis} {field : String} {value : ℚ}
  {cap : Option Int}

theorem writeField_ne_nil (cap : Option Int) (h : FieldMap String ℚ) (field : String) (value : ℚ) :
    (writeField cap h field value).vals ≠ [] := by
  unfold writeField
  split
  · exact FieldMap.put_ne_nil h _
  · exact FieldMap.put_ne_nil h _

/-- A write keeps a key mirrored. -/
theorem write_mirrored (h : Mirrored t e c) (ht : t ≤ now) (hclear : Table.Clear 1 e now) (n : Int) :
    Mirrored now (setField e now field value n cap)
      ((fieldCommands field value n cap).foldl (fun c cmd => (Redis.documented now cmd c).2) c) := by
  show Mirrored now _ (Redis.documented now (.expire true (seconds n))
    (Redis.onHash (Redis.live now c) fun h => Redis.fieldSetScript h field value cap).2).2
  have hne : ∀ h, (Redis.fieldSetScript h field value cap).2.vals ≠ [] := by
    intro h
    rw [Redis.fieldSetScript_snd]
    exact writeField_ne_nil cap h field value
  rcases h.at zero_le_one ht hclear with
    ⟨x, h, hbefore, hexp, -, -, hhash, hlive⟩ | ⟨hhash, hlive, hended, -⟩
  · have hthere : now ≤ x + 1 := by linarith
    have hhash : e.hash now = h := hhash
    have hlive : Redis.live now c = some ⟨.hash h, some (x + 1)⟩ := hlive
    rw [hlive, Redis.onHash_some (hne h), Redis.expire_nx hthere, Redis.fieldSetScript_snd]
    refine .there ?_ ?_ (writeField_ne_nil cap h field value)
    · simp [setField, Entry.alive, hexp, hbefore]
    · show some (writeField cap (e.hash now) field value) = _
      rw [hhash]
  · have hhash : e.hash now = .empty := hhash
    have hexp : (setField e now field value n cap).exp = some (now + n) := by
      cases hexp : e.exp with
      | none => simp [setField, Entry.alive, hexp]
      | some x =>
        have hdead : ¬now < x := by
          have hx := hended x hexp
          linarith
        simp [setField, Entry.alive, hexp, hdead]
    have hset : (setField e now field value n cap).h = some (writeField cap .empty field value) := by
      simp [setField, hhash]
    rw [hlive, Redis.onHash_none (hne _), Redis.expire_new, Redis.fieldSetScript_snd]
    split
    · next hpast =>
      have hle : (n : ℚ) + 1 ≤ 0 := by
        rw [← seconds_intCast]
        exact_mod_cast hpast
      refine .gone ?_ ?_
      · intro x hx
        rw [hexp] at hx
        cases hx
        linarith
      · intro hnone
        rw [hexp] at hnone
        cases hnone
    · rw [seconds_intCast, ← add_assoc]
      exact .there hexp hset (writeField_ne_nil cap _ field value)

/-- `HGETALL` gives the hash that the in-memory store has. -/
theorem read_mirrored (h : Mirrored t e c) (ht : t ≤ now) (hclear : Table.Clear 1 e now) :
    (Redis.documented now .hgetall c).1 = .hash (e.hash now) ∧
      Mirrored now e (Redis.documented now .hgetall c).2 := by
  show (Redis.onHash (Redis.live now c) fun h => (.hash h, h)).1 = .hash (hashes.read e now) ∧
    Mirrored now e (Redis.onHash (Redis.live now c) fun h => (.hash h, h)).2
  rcases h.at zero_le_one ht hclear with
    ⟨x, h, -, hexp, hset, hne, hhash, hlive⟩ | ⟨hhash, hlive, hended, hunset⟩
  · rw [hlive, hhash]
    show (Redis.onHash (some ⟨.hash h, some (x + 1)⟩) fun h => (.hash h, h)).1 = _ ∧
      Mirrored now e (Redis.onHash (some ⟨.hash h, some (x + 1)⟩) fun h => (.hash h, h)).2
    rw [Redis.onHash_some hne]
    exact ⟨rfl, .there hexp hset hne⟩
  · rw [hlive, hhash]
    exact ⟨rfl, .gone hended hunset⟩

/-! ### Batches -/

variable {isIndex : String → Prop} {ttl : String → Int} {k : String} {st : InMemoryStore}
  {ws : List WriteOp}

/-- The commands of a buffered `field_set` about a key. -/
def commandsAt (k : String) : WriteOp → List Command
  | .fset key field value ttl _ cap => if key = k then fieldCommands field value ttl cap else []
  | _ => []

theorem entry_fset (hk : ¬isIndex k) {key : String} {ttl : ℚ} {idx : Option String}
    (hidx : ∀ k, idx = some k → isIndex k) :
    ((WriteOp.fset key field value ttl idx cap).run st now).entry k =
      if key = k then setField (st.entry key) now field value ttl cap else st.entry k := by
  have hne : idx ≠ some k := fun h => hk (hidx k h)
  show entry ((st.fieldSet key field value ttl cap now).index idx key ttl now) k = _
  rw [entry_index_other hne]
  exact entry_putHash ..

/-- What a batch queues about the key of a hash. -/
theorem queued_fields (hk : ¬isIndex k) (hws : ∀ w ∈ ws, FieldWrite isIndex ttl w) :
    (ws.flatMap (queued R now)).filter (·.1 = k) =
      (ws.flatMap (commandsAt k)).map fun cmd => (k, .command cmd) := by
  induction ws with
  | nil => rfl
  | cons w ws ih =>
    obtain ⟨hw, hws⟩ := List.forall_mem_cons.mp hws
    rw [List.flatMap_cons, List.filter_append, ih hws, List.flatMap_cons, List.map_append]
    congr 1
    cases w with
    | fset key field value ttl' idx cap =>
      have hindex : (queuedIndex now key ttl' idx).filter (·.1 = k) = [] := by
        cases idx with
        | none => rfl
        | some i =>
          have hi : i ≠ k := fun h => hk (h ▸ hw.2.2.2 i rfl)
          simp [queuedIndex, hi]
      simp only [queued, queuedWrite, WriteOp.key, WriteOp.ttl, WriteOp.idx, List.filter_append, hindex,
        List.append_nil, commandsAt]
      by_cases hkey : key = k
      · simp [fieldCommands, hkey]
      · simp [hkey]
    | _ => exact hw.elim

theorem commands_command (expd : List String) (k : String) (cmds : List Command) :
    commands expd (cmds.map fun cmd => (k, .command cmd)) = cmds.map (k, ·) := by
  induction cmds with
  | nil => rfl
  | cons cmd cmds ih => exact congrArg _ ih

theorem cell_fields (hk : ¬isIndex k) (hws : ∀ w ∈ ws, FieldWrite isIndex ttl w) (st' : Keys R) :
    cell R (RedisStore.pipelineOps R st' now ws) k =
      (ws.flatMap (commandsAt k)).foldl (fun c cmd => (R.exec now cmd c).2) (cell R st' k) := by
  have hsame : k ∈ ([] : List String) ↔ k ∈ ([] : List String) := Iff.rfl
  rw [RedisStore.pipelineOps, cell_send, commands_filter hsame, queued_fields hk hws, commands_command,
    List.foldl_map]

/-- A batch keeps a key mirrored. -/
theorem batch_mirrored (hk : ¬isIndex k) (hws : ∀ w ∈ ws, FieldWrite isIndex ttl w)
    (hclear : Machine.Meets (fun st (w : WriteOp) => w.run st now)
      (fun st w => Table.Clear 1 (st.entry w.key) now) st ws)
    (h : Mirrored t (st.entry k) c) (ht : t ≤ now) :
    Mirrored now ((st.batch now ws).entry k)
      ((ws.flatMap (commandsAt k)).foldl (fun c cmd => (Redis.documented now cmd c).2) c) := by
  induction ws generalizing st c t with
  | nil => exact h.mono ht
  | cons w ws ih =>
    obtain ⟨hw, hws⟩ := List.forall_mem_cons.mp hws
    obtain ⟨hfirst, hrest⟩ := hclear.uncons
    rw [batch_cons, List.flatMap_cons, List.foldl_append]
    refine ih hws hrest ?_ le_rfl
    cases w with
    | fset key field value ttl' idx cap =>
      obtain ⟨-, -, httl, hidx⟩ := hw
      rw [entry_fset hk hidx, commandsAt]
      by_cases hkey : key = k
      · subst hkey httl
        rw [if_pos rfl, if_pos rfl]
        exact write_mirrored h ht hfirst (ttl key)
      · rw [if_neg hkey, if_neg hkey]
        exact h.mono ht
    | _ => exact hw.elim

/-! ### Both stores -/

/-- Every hash is mirrored. -/
def MirroredAll (isIndex : String → Prop) (t : ℚ) (st : InMemoryStore)
    (st' : Keys (Redis.server R)) : Prop :=
  ∀ k, ¬isIndex k → Mirrored t (st.entry k) (cell (Redis.server R) st' k)

variable {st' : Keys (Redis.server R)}

/-- Only the hash under `key` changes. -/
theorem MirroredAll.update {st₂ : InMemoryStore} {e : Entry} {key : String}
    (h : MirroredAll isIndex t st st') (ht : t ≤ now)
    (hentry : ∀ k, entry st₂ k = if key = k then e else entry st k) (hc : Mirrored now e c) :
    MirroredAll isIndex now st₂ (st'.put (key, c)) := by
  intro k hk
  rw [hentry, cell_put]
  by_cases hkey : key = k
  · rw [if_pos hkey, if_pos hkey]
    exact hc
  · rw [if_neg hkey, if_neg hkey]
    exact (h k hk).mono ht

/-- **One operation** has the same result on both, and keeps them mirrored. -/
theorem step_mirrored {op : ℚ × StoreOp} (h : MirroredAll isIndex t st st') (ht : t ≤ op.1)
    (hop : FieldOp isIndex ttl op.2) (hclear : ClearOp st op) :
    Sharding.SameResult Method.Same op.2 (Sharding.step InMemoryStore.keyed st op.1 op.2).1
        (Sharding.step (RedisStore.keyed (Redis.server R)) st' op.1 op.2).1 ∧
      MirroredAll isIndex op.1 (Sharding.next InMemoryStore.keyed st op)
        (Sharding.next (RedisStore.keyed (Redis.server R)) st' op) := by
  obtain ⟨now, op⟩ := op
  cases op with
  | call key m =>
    cases m with
    | field_set field value ttl' cap =>
      obtain ⟨hkey, -, rfl⟩ := hop
      exact ⟨rfl, h.update ht (fun k => entry_putHash ..) (write_mirrored (h key hkey) ht hclear (ttl key))⟩
    | fields_get =>
      obtain ⟨hreply, hmirrored⟩ := read_mirrored (h key hop) ht hclear
      have hfields : RedisStore.Reply.fields
          (Redis.documented now .hgetall (cell (Redis.server R) st' key)).1 = st.hashAt key now := by
        rw [hreply]
        rfl
      refine ⟨⟨fun k => ?_, ?_⟩, h.update ht (fun k => ?_) hmirrored⟩
      · exact congrArg (fun h => (fieldsOf h).lookup k) hfields.symm
      · exact congrArg (fun h : FieldMap String ℚ => truncate ((h.lookup REFUSED_FIELD).getD 0))
          hfields.symm
      · split
        · next heq => rw [← heq]; rfl
        · rfl
    | counter_clear =>
      refine ⟨rfl, h.update ht (fun k => entry_counterClear) (.gone ?_ fun _ => rfl)⟩
      intro x hx
      cases hx
    | _ => exact hop.elim
  | batch ws =>
    refine ⟨trivial, ?_⟩
    intro k hk
    show Mirrored now ((st.batch now ws).entry k)
      (cell (Redis.server R) (RedisStore.pipelineOps (Redis.server R) st' now ws) k)
    rw [cell_fields hk hop]
    exact batch_mirrored hk hop hclear (h k hk) ht
  | sweep => exact hop.elim
  | scan pfx => exact hop.elim

/-! ### A constant cap -/

/-- The writes and clears of a key. -/
def eventsAt (key : String) (op : ℚ × StoreOp) : List (ℚ × Option (String × ℚ)) :=
  match op.2 with
  | .call k (.field_set field value _ _) => if k = key then [(op.1, some (field, value))] else []
  | .call k .counter_clear => if k = key then [(op.1, none)] else []
  | .batch ws => (ws.filterMap (·.fieldWrite key)).map fun w => (op.1, some w)
  | _ => []

/-- A buffered `field_set` of the key has the cap. -/
def WriteCap (key : String) (cap : Int) : WriteOp → Prop
  | .fset k _ _ _ _ cap' => k = key → cap' = some cap
  | _ => True

/-- Writes of the key have the cap. -/
def CapAt (key : String) (cap : Int) : StoreOp → Prop
  | .call k (.field_set _ _ _ cap') => k = key → cap' = some cap
  | .batch ws => ∀ w ∈ ws, WriteCap key cap w
  | _ => True

open Tumbling (Window open?)

/-- The hash of the in-memory store holds what the writes of the window left. -/
def Holds (ttl : ℚ) (cap : Int) (e : Entry) : Option (Window ℚ (String × ℚ)) → Prop
  | none => e.exp = none ∧ e.h = none
  | some w => e.exp = some (w.start + ttl) ∧ ∃ h, e.h = some h ∧
      fieldsOf h = CappedMap.acceptAll cap .empty w.writes ∧
      (h.lookup REFUSED_FIELD).getD 0 = CappedMap.refusals cap .empty w.writes

variable {w : Option (Window ℚ (String × ℚ))} {n : ℚ} {cap : Int}

/-- What the hash is at a time, and when a write would end. -/
theorem Holds.at (h : Holds n cap e w) (now : ℚ) :
    fieldsOf (e.hash now) = CappedMap.acceptAll cap .empty (((open? n w now).map Window.writes).getD []) ∧
      ((e.hash now).lookup REFUSED_FIELD).getD 0 =
        CappedMap.refusals cap .empty (((open? n w now).map Window.writes).getD []) ∧
      (if e.alive now then e.exp.getD (now + n) else now + n) =
        ((open? n w now).map Window.start).getD now + n := by
  cases w with
  | none =>
    obtain ⟨hexp, hset⟩ := h
    have halive : e.alive now = true := by simp [Entry.alive, hexp]
    rw [Entry.hash, halive, hset, hexp]
    exact ⟨rfl, rfl, rfl⟩
  | some w =>
    obtain ⟨hexp, h, hset, hfields, hcount⟩ := h
    by_cases hopen : now < w.start + n
    · have halive : e.alive now = true := by simp [Entry.alive, hexp, hopen]
      rw [Tumbling.open?_of_lt hopen, Entry.hash, halive, hset, hexp]
      exact ⟨hfields, hcount, rfl⟩
    · have halive : e.alive now = false := by simp [Entry.alive, hexp, hopen]
      rw [Tumbling.open?_of_le (not_lt.mp hopen), Entry.hash, halive]
      exact ⟨rfl, rfl, rfl⟩

/-- A write goes to the window that is open, or starts one. -/
theorem Holds.write (h : Holds n cap e w) (hfield : field ≠ REFUSED_FIELD) :
    Holds n cap (setField e now field value n (some cap))
      (Tumbling.next n w (now, some (field, value))) := by
  obtain ⟨hfields, hcount, hexp⟩ := h.at now
  rw [Tumbling.next_write]
  refine ⟨congrArg some hexp, _, rfl, ?_, ?_⟩
  · rw [fieldsOf_writeField cap _ hfield, CappedMap.acceptAll_snoc, hfields]
  · rw [refused_writeField cap _ hfield, CappedMap.refusals_snoc, hfields, hcount]
    push_cast
    rfl

/-- The buffered writes of a batch, one after the other. -/
theorem Holds.batch (hk : ¬isIndex k) (h : Holds (ttl k) cap (st.entry k) w)
    (hws : ∀ w ∈ ws, FieldWrite isIndex ttl w) (hcap : ∀ w ∈ ws, WriteCap k cap w) :
    Holds (ttl k) cap ((st.batch now ws).entry k)
      (((ws.filterMap (·.fieldWrite k)).map fun w => (now, some w)).foldl
        (Tumbling.next (ttl k : ℚ)) w) := by
  induction ws generalizing st w with
  | nil => exact h
  | cons op ws ih =>
    obtain ⟨hop, hrest⟩ := List.forall_mem_cons.mp hws
    obtain ⟨hopcap, hrestcap⟩ := List.forall_mem_cons.mp hcap
    cases op with
    | fset key field value ttl' idx cap' =>
      obtain ⟨-, hfield, httl, hidx⟩ := hop
      rw [batch_cons, List.filterMap_cons, WriteOp.fieldWrite]
      by_cases hkey : key = k
      · subst hkey httl
        rw [if_pos rfl]
        refine ih ?_ hrest hrestcap
        rw [entry_fset hk hidx, if_pos rfl, hopcap rfl]
        exact h.write hfield
      · rw [if_neg hkey]
        refine ih ?_ hrest hrestcap
        rw [entry_fset hk hidx, if_neg hkey]
        exact h
    | _ => exact hop.elim

/-- The in-memory store after an operation, and after a run. -/
def next (st : InMemoryStore) (op : ℚ × StoreOp) : InMemoryStore :=
  Sharding.next InMemoryStore.keyed st op

def after (st : InMemoryStore) (ops : List (ℚ × StoreOp)) : InMemoryStore :=
  Machine.run next st ops

/-- One operation. -/
theorem holds_next {op : ℚ × StoreOp} (hk : ¬isIndex k) (h : Holds (ttl k) cap (st.entry k) w)
    (hop : FieldOp isIndex ttl op.2) (hcap : CapAt k cap op.2) :
    Holds (ttl k) cap ((next st op).entry k)
      ((eventsAt k op).foldl (Tumbling.next (ttl k : ℚ)) w) := by
  obtain ⟨now, op⟩ := op
  cases op with
  | call key m =>
    cases m with
    | field_set field value ttl' cap' =>
      obtain ⟨-, hfield, rfl⟩ := hop
      show Holds _ _ (entry (st.fieldSet key field value (ttl key) cap' now) k)
        ((if key = k then [(now, some (field, value))] else []).foldl _ w)
      have hentry : entry (st.fieldSet key field value (ttl key) cap' now) k =
          if key = k then setField (st.entry key) now field value (ttl key) cap' else st.entry k :=
        entry_putHash ..
      rw [hentry]
      by_cases hkey : key = k
      · subst hkey
        rw [if_pos rfl, if_pos rfl, hcap rfl]
        exact h.write hfield
      · rw [if_neg hkey, if_neg hkey]
        exact h
    | fields_get => exact h
    | counter_clear =>
      show Holds _ _ (entry (st.counterClear key) k)
        ((if key = k then [(now, none)] else []).foldl _ w)
      rw [entry_counterClear]
      by_cases hkey : key = k
      · rw [if_pos hkey, if_pos hkey]
        exact ⟨rfl, rfl⟩
      · rw [if_neg hkey, if_neg hkey]
        exact h
    | _ => exact hop.elim
  | batch ws => exact h.batch hk hop hcap
  | sweep => exact hop.elim
  | scan pfx => exact hop.elim

/-- A run. -/
theorem holds_after {ops : List (ℚ × StoreOp)} (hk : ¬isIndex k)
    (h : Holds (ttl k) cap (st.entry k) w) (hops : ∀ op ∈ ops, FieldOp isIndex ttl op.2)
    (hcap : ∀ op ∈ ops, CapAt k cap op.2) :
    Holds (ttl k) cap ((after st ops).entry k)
      ((ops.flatMap (eventsAt k)).foldl (Tumbling.next (ttl k : ℚ)) w) := by
  induction ops generalizing st w with
  | nil => exact h
  | cons op ops ih =>
    obtain ⟨hop, hops⟩ := List.forall_mem_cons.mp hops
    obtain ⟨hopcap, hcap⟩ := List.forall_mem_cons.mp hcap
    rw [after, Machine.run_cons, List.flatMap_cons, List.foldl_append]
    exact ih (holds_next hk h hop hopcap) hops hcap

/-- The answer shows the writes under the cap. -/
def Shows (cap : Int) (ws : List (String × ℚ)) : Answer → Prop
  | .fields h refused => CappedMap.Capped cap ws h refused
  | _ => False

/-- `fields_get` shows the writes of the current window. -/
theorem shows_fields_get {ops : List (ℚ × StoreOp)} (hk : ¬isIndex k)
    (hops : ∀ op ∈ ops, FieldOp isIndex ttl op.2) (hcap : ∀ op ∈ ops, CapAt k cap op.2) (now : ℚ) :
    Shows cap (Tumbling.current (ttl k : ℚ) (ops.flatMap (eventsAt k)) now)
      ((after .empty ops).call now k .fields_get).1 := by
  have hinit : Holds (ttl k) cap (entry .empty k) none := ⟨rfl, rfl⟩
  obtain ⟨hfields, hcount, -⟩ := (holds_after hk hinit hops hcap).at now
  show CappedMap.Capped cap _ (fieldsOf ((after .empty ops).hashAt k now))
    (truncate ((((after .empty ops).hashAt k now).lookup REFUSED_FIELD).getD 0))
  have hrefused : ∀ n : Nat, truncate (n : ℚ) = n := fun n => truncate_intCast n
  rw [hashAt_eq, hfields, hcount, hrefused]
  exact CappedMap.capped_of_lookup fun _ => rfl

theorem Shows.congr {ws : List (String × ℚ)} {a a' : Answer} (h : Shows cap ws a)
    (hsame : Method.Same .fields_get a a') : Shows cap ws a' := by
  cases a with
  | fields h₁ n =>
    cases a' with
    | fields h₂ n' =>
      obtain ⟨hlookup, rfl⟩ := hsame
      exact CappedMap.Capped.congr h hlookup
    | _ => cases hsame
  | _ => exact h.elim

/-! ### Runs -/

/-- The keys of the server after a run. -/
def redisAfter (R : Redis) (ops : List (ℚ × StoreOp)) : Keys R :=
  Machine.run (Sharding.next (RedisStore.keyed R)) Registry.empty ops

/-- **Both backends** give the same fields and refusal counts in a run of which
    nothing falls into Redis's extra second. While the cap of a key does not
    change, both show the writes of the current window under that cap. -/
theorem fields_agree {R : Redis} (doc : R.Documented) (isIndex : String → Prop) (ttl : String → Int)
    (ops : List (ℚ × StoreOp)) (hops : ∀ op ∈ ops, FieldOp isIndex ttl op.2)
    (hclock : (ops.map Prod.fst).Pairwise (· ≤ ·)) (hclear : Machine.Meets next ClearOp .empty ops) :
    Sharding.Agree InMemoryStore.keyed (RedisStore.keyed R) Method.Same InMemoryStore.empty
        Registry.empty ops ∧
      ∀ pre now key post cap, ops = pre ++ (now, .call key .fields_get) :: post →
        (∀ op ∈ pre, CapAt key cap op.2) →
          Shows cap (Tumbling.current (ttl key : ℚ) (pre.flatMap (eventsAt key)) now)
              ((after .empty pre).call now key .fields_get).1 ∧
            Shows cap (Tumbling.current (ttl key : ℚ) (pre.flatMap (eventsAt key)) now)
              (RedisStore.call R (redisAfter R pre) now key .fields_get).1 := by
  have hmemory : Sharding.Agree InMemoryStore.keyed (RedisStore.keyed (Redis.server R)) Method.Same
      InMemoryStore.empty Registry.empty ops := by
    refine Sharding.agree_of_simulation_init
      (Q := fun t st st' => MirroredAll isIndex t st st')
      (C := fun st op => FieldOp isIndex ttl op.2 ∧ ClearOp st op) ?_ ?_ hclock ?_
    · exact fun t st st' op ht hop h => step_mirrored h ht hop.1 hop.2
    · intro t k _
      exact .gone (fun x hx => by cases hx) fun _ => rfl
    · intro pre op post heq
      exact ⟨hops op (by simp [heq]), hclear pre op post heq⟩
  have hat : ∀ op ∈ ops, Redis.AtKeys op.2 := by
    rintro ⟨now, op⟩ hop
    cases op with
    | call key m => trivial
    | batch ws => trivial
    | sweep => exact (hops _ hop).elim
    | scan pfx => exact (hops _ hop).elim
  have hagree : Sharding.Agree InMemoryStore.keyed (RedisStore.keyed R) Method.Same
      InMemoryStore.empty Registry.empty ops :=
    hmemory.trans_symm (fun _ _ _ _ h h' => h.trans h'.symm) (Redis.agree_server doc hat)
  refine ⟨hagree, ?_⟩
  intro pre now key post cap heq hcap
  have hpre : ∀ op ∈ pre, FieldOp isIndex ttl op.2 := fun op hop => hops op (by simp [heq, hop])
  have hk : ¬isIndex key := hops (now, .call key .fields_get) (by simp [heq])
  have hshows := shows_fields_get hk hpre hcap now
  exact ⟨hshows, hshows.congr (hagree.at heq)⟩

/-- A batch that fills the cap of one field, an update, a read in the window
    and one after its end. -/
def cappedRun : List (ℚ × StoreOp) :=
  [(0, .batch [.fset "k" "a" 1 60 (some "idx") (some 1), .fset "k" "b" 2 60 none (some 1)]),
    (1, .call "k" (.field_set "a" 3 60 (some 1))), (2, .call "k" .fields_get),
    (70, .call "k" .fields_get)]

theorem clear_of_exp {x : ℚ} (hexp : e.exp = some x) (h : now < x ∨ x + 1 < now) :
    Table.Clear 1 e now := by
  intro y hy
  rw [hexp] at hy
  cases hy
  exact h

theorem cappedRun_agrees : Sharding.Agree InMemoryStore.keyed (RedisStore.keyed Redis.standard)
    Method.Same InMemoryStore.empty Registry.empty cappedRun := by
  refine (fields_agree Redis.standard_documented (· = "idx") (fun _ => 60) cappedRun ?_ ?_ ?_).1
  · simp [cappedRun, FieldOp, FieldWrite, REFUSED_FIELD]
  · simp [cappedRun]
    norm_num
  · unfold cappedRun
    apply Machine.Meets.cons
    · show Machine.Meets (fun st (w : WriteOp) => w.run st 0) (fun st w => Table.Clear 1 (st.entry w.key) 0) _ _
      apply Machine.Meets.cons
      · intro x hx
        cases hx
      · apply Machine.Meets.cons
        · exact clear_of_exp (x := 60) (by decide +kernel) (by norm_num)
        · exact Machine.Meets.nil _ _ _
    · apply Machine.Meets.cons
      · exact clear_of_exp (x := 60) (by decide +kernel) (by norm_num)
      · apply Machine.Meets.cons
        · exact clear_of_exp (x := 60) (by decide +kernel) (by norm_num)
        · apply Machine.Meets.cons
          · exact clear_of_exp (x := 60) (by decide +kernel) (by norm_num)
          · exact Machine.Meets.nil _ _ _

/-- A negative cap admits no field, and no field is more than that cap. -/
theorem negative_cap_exceeded : ¬∀ (cap : Int) (field : String) (value ttl now : ℚ),
    ((InMemoryStore.fieldsGet (InMemoryStore.empty.fieldSet "k" field value ttl (some cap) now) "k"
      now).1.vals.length : Int) ≤ cap := by
  intro h
  exact absurd (h (-1) "a" 1 60 0) (by decide +kernel)

end CappedFields
