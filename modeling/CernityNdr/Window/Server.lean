import CernityNdr.Framework.JsonRoundTrip
import CernityNdr.Window.Redis

/-! # Redis as Documented

    What Redis documents for the commands that `RedisStore` sends, on what is
    stored under one key, and the script `_FIELD_SET_LUA`.

    A server that shows a key as documented (`Documented`) answers every
    method of `RedisStore` as the documented server does (`method_same`). -/

open CappedMap (FieldMap)
open InMemoryStore (WriteOp)

/-- What is stored under a key. -/
inductive Stored
  | zset (m : FieldMap String ℚ)
  | hash (h : FieldMap String ℚ)
  | text (s : String)

/-- A value and the time at which it expires. -/
structure Slot where
  value : Stored
  expiry : Option ℚ

namespace Redis

/-! ### The script -/

/-- `HEXISTS`. -/
def hexists (h : FieldMap String ℚ) (field : String) : Int := if field ∈ h.keys then 1 else 0

/-- `_FIELD_SET_LUA`. An empty `ARGV[3]` is no number. -/
def fieldSetScript (h : FieldMap String ℚ) (field : String) (value : ℚ) (cap : Option Int) :
    Reply × FieldMap String ℚ :=
  match cap with
  | none => (.int 1, h.put (field, value))
  | some cap =>
    if hexists h field = 0 then
      if cap ≤ h.vals.length - hexists h REFUSED_FIELD then
        (.int 0, h.put (REFUSED_FIELD, (h.lookup REFUSED_FIELD).getD 0 + 1))
      else (.int 1, h.put (field, value))
    else (.int 1, h.put (field, value))

/-- The script does what `field_set` of the in-memory store does. -/
theorem fieldSetScript_snd (h : FieldMap String ℚ) (field : String) (value : ℚ) (cap : Option Int) :
    (fieldSetScript h field value cap).2 = InMemoryStore.writeField cap h field value := by
  cases cap with
  | none => rfl
  | some cap =>
    have hcount : (h.vals.length : Int) - hexists h REFUSED_FIELD = InMemoryStore.fieldCount h := rfl
    simp only [fieldSetScript, InMemoryStore.writeField, Option.any_some, hcount]
    by_cases hmem : field ∈ h.keys
    · simp [hexists, hmem]
    · by_cases hfull : cap ≤ InMemoryStore.fieldCount h
      · simp [hexists, hmem, hfull]
      · simp [hexists, hmem, hfull]

/-! ### Commands -/

/-- A key is there until its time has passed. -/
def live (now : ℚ) (c : Option Slot) : Option Slot := c.filter fun s => s.expiry.all fun e => now ≤ e

/-- A command about a sorted set. A key without members is removed; a value of
    another type is an error, which changes nothing. -/
def onZset (c : Option Slot) (f : FieldMap String ℚ → Reply × FieldMap String ℚ) :
    Reply × Option Slot :=
  let put := fun (m : FieldMap String ℚ) e => if m.vals.isEmpty then none else some ⟨.zset m, e⟩
  match c with
  | none => ((f .empty).1, put (f .empty).2 none)
  | some ⟨.zset m, e⟩ => ((f m).1, put (f m).2 e)
  | some s => (.nil, some s)

/-- A command about a hash. -/
def onHash (c : Option Slot) (f : FieldMap String ℚ → Reply × FieldMap String ℚ) :
    Reply × Option Slot :=
  let put := fun (h : FieldMap String ℚ) e => if h.vals.isEmpty then none else some ⟨.hash h, e⟩
  match c with
  | none => ((f .empty).1, put (f .empty).2 none)
  | some ⟨.hash h, e⟩ => ((f h).1, put (f h).2 e)
  | some s => (.nil, some s)

/-- The members of a sorted set, by score and then by name. -/
def inOrder (m : FieldMap String ℚ) : List String :=
  (m.vals.insertionSort fun a b => !InMemoryStore.memberLt b a).map Prod.fst

/-- A command about a key, at a time. -/
def documented (now : ℚ) (cmd : Command) (c : Option Slot) : Reply × Option Slot :=
  let c := live now c
  match cmd with
  | .zadd nx score member => onZset c fun m =>
    (.int (if member ∈ m.keys then 0 else 1),
      if nx && decide (member ∈ m.keys) then m else m.put (member, score))
  | .zrange => onZset c fun m => (.texts (inOrder m), m)
  | .zrangebyscore above => onZset c fun m => (.texts (InMemoryStore.sinceOf m above), m)
  | .zrank member => onZset c fun m =>
    (((InMemoryStore.rankOf m member).map fun n => Reply.int n).getD .nil, m)
  | .zremrangebyscore below => onZset c fun m =>
    (.int (m.vals.filter fun e => e.2 < below).length, m.filter fun e => below ≤ e.2)
  | .zrem member => onZset c fun m => (.int (if member ∈ m.keys then 1 else 0), m.pop member)
  | .zcard => onZset c fun m => (.int m.vals.length, m)
  | .zscore member => onZset c fun m => (((m.lookup member).map Reply.number).getD .nil, m)
  | .hincrbyfloat field delta => onHash c fun h =>
    (.number ((h.lookup field).getD 0 + delta), h.put (field, (h.lookup field).getD 0 + delta))
  | .hget field => onHash c fun h => (((h.lookup field).map Reply.number).getD .nil, h)
  | .hgetall => onHash c fun h => (.hash h, h)
  | .evalsha field value cap => onHash c fun h => fieldSetScript h field value cap
  | .set value nx ex px =>
    if nx && c.isSome then (.nil, c)
    else (.text "OK", some ⟨.text value,
      (ex.map fun s => now + s).or (px.map fun ms => now + ms / 1000)⟩)
  | .get =>
    match c with
    | some ⟨.text s, _⟩ => (.text s, c)
    | _ => (.nil, c)
  | .delete => (.int (if c.isSome then 1 else 0), none)
  | .expire nx seconds =>
    match c with
    | none => (.int 0, none)
    | some s =>
      if nx && s.expiry.isSome then (.int 0, some s)
      else if seconds ≤ 0 then (.int 1, none)
      else (.int 1, some { s with expiry := some (now + seconds) })

variable {now x : ℚ} {v : Stored} {c : Option Slot} {m : FieldMap String ℚ}
  {f : FieldMap String ℚ → Reply × FieldMap String ℚ}

theorem live_of_le (h : now ≤ x) : live now (some ⟨v, some x⟩) = some ⟨v, some x⟩ := by
  simp [live, Option.filter, h]

theorem live_of_lt (h : x < now) : live now (some ⟨v, some x⟩) = none := by
  simp [live, Option.filter, not_le.mpr h]

theorem onHash_some (h : (f m).2.vals ≠ []) :
    onHash (some ⟨.hash m, some x⟩) f = ((f m).1, some ⟨.hash (f m).2, some x⟩) := by
  simp [onHash, h]

theorem onHash_none (h : (f .empty).2.vals ≠ []) :
    onHash none f = ((f .empty).1, some ⟨.hash (f .empty).2, none⟩) := by
  simp [onHash, h]

theorem onZset_some (h : (f m).2.vals ≠ []) :
    onZset (some ⟨.zset m, some x⟩) f = ((f m).1, some ⟨.zset (f m).2, some x⟩) := by
  simp [onZset, h]

theorem onZset_none (h : (f .empty).2.vals ≠ []) :
    onZset none f = ((f .empty).1, some ⟨.zset (f .empty).2, none⟩) := by
  simp [onZset, h]

/-- `EXPIRE NX` leaves the expiry of a key that has one. -/
theorem expire_nx (h : now ≤ x) (n : Int) :
    (documented now (.expire true n) (some ⟨v, some x⟩)).2 = some ⟨v, some x⟩ := by
  simp [documented, live_of_le h]

theorem expire_new (nx : Bool) (n : Int) : (documented now (.expire nx n) (some ⟨v, none⟩)).2 =
    if n ≤ 0 then none else some ⟨v, some (now + n)⟩ := by
  have hlive : live now (some ⟨v, none⟩) = some ⟨v, none⟩ := rfl
  simp only [documented, hlive, Option.isSome_none, Bool.and_false, Bool.false_eq_true, if_false]
  split <;> rfl

/-- `EXPIRE` without `NX`, on a key that is there. -/
theorem expire_again (h : now ≤ x) {n : Int} (hn : 0 < n) :
    (documented now (.expire false n) (some ⟨v, some x⟩)).2 = some ⟨v, some (now + n)⟩ := by
  simp [documented, live_of_le h, not_le.mpr hn]

end Redis

/-- The same reply. The fields of a hash have no order. -/
def Reply.Same : Reply → Reply → Prop
  | .hash h, .hash h' => ∀ k, h.lookup k = h'.lookup k
  | r, r' => r = r'

/-- The same answer to a method. Neither fields nor the members of a set have
    an order, and a window is a multiset. -/
def Method.Same : Method → Answer → Answer → Prop
  | .fields_get, .fields h n, .fields h' n' => (∀ k, h.lookup k = h'.lookup k) ∧ n = n'
  | .window_range _, .window es, .window es' => es.Perm es'
  | .set_members, .members ms, .members ms' => ∀ m, m ∈ ms ↔ m ∈ ms'
  | _, a, a' => a = a'

theorem Method.same_refl (m : Method) (a : Answer) : m.Same a a := by
  unfold Method.Same
  split
  · exact ⟨fun _ => rfl, rfl⟩
  · exact .refl _
  · exact fun _ => Iff.rfl
  · rfl

theorem Method.Same.symm {m : Method} {a b : Answer} (h : m.Same a b) : m.Same b a := by
  unfold Method.Same at h
  split at h
  · exact ⟨fun k => (h.1 k).symm, h.2.symm⟩
  · exact List.Perm.symm h
  · exact fun m => (h m).symm
  · rw [h]
    exact Method.same_refl ..

theorem Method.Same.trans {m : Method} {a b d : Answer} (h : m.Same a b) (h' : m.Same b d) :
    m.Same a d := by
  unfold Method.Same at h
  split at h
  · cases d with
    | fields f n => exact ⟨fun k => (h.1 k).trans (h'.1 k), h.2.trans h'.2⟩
    | _ => cases h'
  · cases d with
    | window es => exact List.Perm.trans h h'
    | _ => cases h'
  · cases d with
    | members ms => exact fun m => (h m).trans (h' m)
    | _ => cases h'
  · rw [h]
    exact h'

/-- A server that does with every command what is documented: a cell shows
    what is stored under its key. -/
structure Redis.Documented (R : Redis) where
  Shows : R.Cell → Option Slot → Prop
  absent : Shows R.absent none
  reply : ∀ {c s}, Shows c s → ∀ now cmd,
    Reply.Same (R.exec now cmd c).1 (Redis.documented now cmd s).1
  effect : ∀ {c s}, Shows c s → ∀ now cmd,
    Shows (R.exec now cmd c).2 (Redis.documented now cmd s).2

namespace Redis

variable (R : Redis)

/-- The documented server, with the texts of `R`. -/
abbrev server : Redis :=
  { R with
    Cell := Option Slot
    absent := none
    exec := documented
    present := fun now c => (live now c).isSome
    present_absent := fun _ => rfl }

variable {R}

theorem Reply.same_cases {r r' : Reply} (h : Reply.Same r r') : r = r' ∨
    ∃ f f', r = .hash f ∧ r' = .hash f' ∧ ∀ k, f.lookup k = f'.lookup k := by
  cases r with
  | hash f =>
    cases r' with
    | hash f' => exact Or.inr ⟨f, f', rfl, rfl, h⟩
    | nil | int | number | text | texts => exact Or.inl h
  | nil | int | number | text | texts => exact Or.inl h

/-! ### The methods on such a server -/

section Methods

open RedisStore

variable (doc : R.Documented) {c : R.Cell} {s : Option Slot} {now : ℚ}

variable (now) in
/-- Commands that are executed in order. -/
theorem execute_same (h : doc.Shows c s) (cmds : List Command) :
    List.Forall₂ Reply.Same (execute R now cmds c).1 (execute (server R) now cmds s).1 ∧
      doc.Shows (execute R now cmds c).2 (execute (server R) now cmds s).2 := by
  induction cmds generalizing c s with
  | nil => exact ⟨.nil, h⟩
  | cons cmd cmds ih =>
    obtain ⟨hreplies, hshows⟩ := ih (doc.effect h now cmd)
    exact ⟨.cons (doc.reply h now cmd) hreplies, hshows⟩

theorem accessors_same {r r' : Reply} (h : Reply.Same r r') :
    Reply.texts? r = Reply.texts? r' ∧ Reply.number? r = Reply.number? r' ∧
      Reply.count? r = Reply.count? r' ∧ Reply.rank? r = Reply.rank? r' ∧
      Reply.given r = Reply.given r' ∧ Reply.value? R r = Reply.value? R r' := by
  rcases Reply.same_cases h with rfl | ⟨f, f', rfl, rfl, -⟩
  · exact ⟨rfl, rfl, rfl, rfl, rfl, rfl⟩
  · exact ⟨rfl, rfl, rfl, rfl, rfl, rfl⟩

theorem pruneSet_same (h : doc.Shows c s) :
    doc.Shows (pruneSet R now c) (pruneSet (server R) now s) := doc.effect h now _

theorem setAdd_same (h : doc.Shows c s) (member : String) (ttl : ℚ) (cap : Option Nat) :
    doc.Shows (setAdd R now member ttl cap c) (setAdd (server R) now member ttl cap s) := by
  have hadd : ∀ {c s}, doc.Shows c s →
      doc.Shows (execute R now [.zadd false (now + ttl) member, .expire false (seconds ttl)] c).2
        (execute (server R) now [.zadd false (now + ttl) member, .expire false (seconds ttl)] s).2 :=
    fun h => (execute_same doc now h _).2
  unfold setAdd
  cases cap with
  | none => exact hadd h
  | some cap =>
    have hpruned : doc.Shows (pruneSet R now c) (pruneSet (server R) now s) := pruneSet_same doc h
    have hafter := doc.effect hpruned now .zcard
    have hcard : Reply.count? (R.exec now .zcard (pruneSet R now c)).1 =
        Reply.count? ((server R).exec now .zcard (pruneSet (server R) now s)).1 :=
      (accessors_same (R := R) (doc.reply hpruned now .zcard)).2.2.1
    have hgiven : Reply.given (R.exec now (.zscore member) (R.exec now .zcard (pruneSet R now c)).2).1 =
        Reply.given ((server R).exec now (.zscore member)
          ((server R).exec now .zcard (pruneSet (server R) now s)).2).1 :=
      (accessors_same (R := R) (doc.reply hafter now (.zscore member))).2.2.2.2.1
    dsimp only
    rw [hcard, hgiven]
    by_cases hfull : cap < Reply.count? ((server R).exec now .zcard (pruneSet (server R) now s)).1
    · rw [if_pos hfull, if_pos hfull]
      have hscored := doc.effect hafter now (.zscore member)
      split
      · exact hadd hscored
      · exact hscored
    · rw [if_neg hfull, if_neg hfull]
      exact hadd hafter

/-- The fields that a reply holds. -/
theorem fields_same {r r' : Reply} (h : Reply.Same r r') (k : String) :
    (Reply.fields r).lookup k = (Reply.fields r').lookup k := by
  rcases Reply.same_cases h with rfl | ⟨f, f', rfl, rfl, hsame⟩
  · rfl
  · exact hsame k

theorem lookup_fieldsOf_congr {f f' : FieldMap String ℚ} (h : ∀ k, f.lookup k = f'.lookup k)
    (k : String) : (InMemoryStore.fieldsOf f).lookup k = (InMemoryStore.fieldsOf f').lookup k := by
  by_cases hk : k = REFUSED_FIELD
  · have hnone : ∀ f : FieldMap String ℚ, (InMemoryStore.fieldsOf f).lookup k = none := by
      intro f
      rw [← Option.not_isSome_iff_eq_none, ← InMemoryStore.mem_keys_iff]
      exact fun hmem => (InMemoryStore.mem_keys_fieldsOf.mp hmem).2 hk
    rw [hnone, hnone]
  · rw [InMemoryStore.lookup_fieldsOf _ hk, InMemoryStore.lookup_fieldsOf _ hk, h]

variable (now) in
/-- **Every method** answers as on the documented server, and leaves what it
    leaves there. -/
theorem method_same (h : doc.Shows c s) (m : Method) :
    m.Same (method R now c m).1 (method (server R) now s m).1 ∧
      doc.Shows (method R now c m).2 (method (server R) now s m).2 := by
  cases m with
  | window_add score value ttl => exact ⟨rfl, (execute_same doc now h _).2⟩
  | window_range minScore =>
    refine ⟨?_, (execute_same doc now h [.zremrangebyscore minScore, .zrange]).2⟩
    have hsecond : Reply.Same ((execute R now [.zremrangebyscore minScore, .zrange] c).1.getD 1 .nil)
        ((execute (server R) now [.zremrangebyscore minScore, .zrange] s).1.getD 1 .nil) :=
      doc.reply (doc.effect h now _) now .zrange
    exact .of_eq (congrArg (List.filterMap R.loadEntry) (accessors_same (R := R) hsecond).1)
  | zset_since minScore =>
    refine ⟨?_, doc.effect h now _⟩
    exact congrArg Answer.members (accessors_same (R := R) (doc.reply h now (.zrangebyscore minScore))).1
  | zset_rank member =>
    refine ⟨?_, doc.effect h now _⟩
    exact congrArg Answer.rank (accessors_same (R := R) (doc.reply h now (.zrank member))).2.2.2.1
  | counter_add field delta ttl =>
    refine ⟨?_, (execute_same doc now h [.hincrbyfloat field delta, .expire true (seconds ttl)]).2⟩
    exact congrArg Answer.number (accessors_same (R := R) (doc.reply h now (.hincrbyfloat field delta))).2.1
  | counter_get field =>
    refine ⟨?_, doc.effect h now _⟩
    exact congrArg Answer.number (accessors_same (R := R) (doc.reply h now (.hget field))).2.1
  | counter_clear => exact ⟨rfl, doc.effect h now _⟩
  | field_set field value ttl cap => exact ⟨rfl, (execute_same doc now h _).2⟩
  | fields_get =>
    refine ⟨⟨?_, ?_⟩, doc.effect h now _⟩
    · exact lookup_fieldsOf_congr (fields_same (doc.reply h now .hgetall))
    · exact congrArg (fun x : Option ℚ => truncate (x.getD 0))
        (fields_same (doc.reply h now .hgetall) REFUSED_FIELD)
  | set_add member ttl cap => exact ⟨rfl, setAdd_same doc h member ttl cap⟩
  | set_len =>
    refine ⟨?_, doc.effect (pruneSet_same doc h) now _⟩
    exact congrArg Answer.count
      (accessors_same (R := R) (doc.reply (pruneSet_same doc h) now .zcard)).2.2.1
  | set_contains member =>
    refine ⟨?_, doc.effect (pruneSet_same doc h) now _⟩
    exact congrArg Answer.bool
      (accessors_same (R := R) (doc.reply (pruneSet_same doc h) now (.zscore member))).2.2.2.2.1
  | set_members =>
    refine ⟨?_, doc.effect (pruneSet_same doc h) now _⟩
    have hpruned : doc.Shows (pruneSet R now c) (pruneSet (server R) now s) := pruneSet_same doc h
    have htexts := (accessors_same (R := R) (doc.reply hpruned now .zrange)).1
    exact fun m => iff_of_eq (congrArg (m ∈ ·) htexts)
  | set_remove member => exact ⟨rfl, doc.effect h now _⟩
  | kv_set value ttl => exact ⟨rfl, doc.effect h now _⟩
  | kv_set_once value ttl =>
    by_cases httl : ttl ≤ 0
    · simp only [method, if_pos httl]
      exact ⟨rfl, h⟩
    · simp only [method, if_neg httl]
      refine ⟨?_, doc.effect h now _⟩
      exact congrArg Answer.bool (accessors_same (R := R) (doc.reply h now _)).2.2.2.2.1
  | kv_get =>
    refine ⟨?_, doc.effect h now _⟩
    exact congrArg Answer.value (accessors_same (R := R) (doc.reply h now .get)).2.2.2.2.2
  | dedup_seen ttl =>
    refine ⟨?_, doc.effect h now _⟩
    exact congrArg Answer.bool (accessors_same (R := R) (doc.reply h now _)).2.2.2.2.1

/-! ### Runs on such a server -/

/-- Every key shows what the documented server has under it. -/
def ShowsAll (st : Keys R) (st' : Keys (server R)) : Prop :=
  ∀ k, doc.Shows (cell R st k) (cell (server R) st' k)

variable {doc} {st : Keys R} {st' : Keys (server R)}

theorem ShowsAll.put (h : ShowsAll doc st st') (key : String) (hc : doc.Shows c s) :
    ShowsAll doc (st.put (key, c)) (st'.put (key, s)) := by
  intro k
  have hput : cell (server R) (st'.put (key, s)) k = if key = k then s else cell (server R) st' k :=
    cell_put st' key k s
  rw [cell_put, hput]
  by_cases hk : key = k
  · rw [if_pos hk, if_pos hk]
    exact hc
  · rw [if_neg hk, if_neg hk]
    exact h k

theorem ShowsAll.send (h : ShowsAll doc st st') (cmds : List (String × Command)) :
    ShowsAll doc (cmds.foldl (send R now) st) (cmds.foldl (send (server R) now) st') := by
  induction cmds generalizing st st' with
  | nil => exact h
  | cons cmd cmds ih => exact ih (h.put cmd.1 (doc.effect (h cmd.1) now cmd.2))

theorem ShowsAll.pipelineOps (h : ShowsAll doc st st') (ops : List WriteOp) :
    ShowsAll doc (RedisStore.pipelineOps R st now ops)
      (RedisStore.pipelineOps (server R) st' now ops) := by
  have hqueued : queued (server R) now = queued R now := by
    funext op
    cases op <;> rfl
  unfold RedisStore.pipelineOps
  rw [hqueued]
  exact h.send _

/-- An operation at one key or a batch. -/
def AtKeys : Sharding.Op String Method WriteOp String → Prop
  | .call _ _ => True
  | .batch _ => True
  | _ => False

/-- **A documented server** gives the results of the documented one. -/
theorem agree_server (doc : R.Documented)
    {ops : List (ℚ × Sharding.Op String Method WriteOp String)} (hops : ∀ op ∈ ops, AtKeys op.2) :
    Sharding.Agree (RedisStore.keyed R) (RedisStore.keyed (server R)) Method.Same Registry.empty
      Registry.empty ops := by
  have hrun : ∀ (st : Keys R) (st' : Keys (server R)), ShowsAll doc st st' →
      Sharding.Agree (RedisStore.keyed R) (RedisStore.keyed (server R)) Method.Same st st' ops := by
    induction ops with
    | nil => exact fun _ _ _ => trivial
    | cons op ops ih =>
      intro st st' h
      have ih := ih fun op' hop' => hops op' (List.mem_cons_of_mem _ hop')
      obtain ⟨now, op⟩ := op
      cases op with
      | call key m =>
        obtain ⟨hanswer, hshows⟩ := method_same doc now (h key) m
        exact ⟨hanswer, ih _ _ (h.put key hshows)⟩
      | batch ws => exact ⟨trivial, ih _ _ (h.pipelineOps ws)⟩
      | sweep => exact (hops _ List.mem_cons_self).elim
      | scan pfx => exact (hops _ List.mem_cons_self).elim
  exact hrun _ _ fun k => doc.absent

end Methods

/-! ### A server -/

/-- `json.dumps([score, value])` of a score that is whole; another score is
    stored with its denominator. -/
def entryJson (score : ℚ) (value : Json) : Json :=
  if score.den = 1 then .arr [.int score.num, value]
  else .arr [.int score.num, .int score.den, value]

def entryOfJson : Json → Option (ℚ × Json)
  | .arr [.int n, value] => some (n, value)
  | .arr [.int n, .int d, value] => some (n / d, value)
  | _ => none

/-- The documented server over the JSON texts. -/
def standard : Redis where
  Cell := Option Slot
  absent := none
  exec := documented
  present now c := (live now c).isSome
  present_absent _ := rfl
  fits pattern key := pattern.toList.dropLast.isPrefixOf key.toList
  dumpEntry score value := String.ofList (Json.dumps (entryJson score value))
  loadEntry text := (Json.loads text.toList).bind entryOfJson
  dumps value := String.ofList (Json.dumps value)
  loads text := (Json.loads text.toList).getD .null

def standard_documented : standard.Documented where
  Shows := Eq
  absent := rfl
  reply := by
    rintro c _ rfl now cmd
    show Reply.Same (documented now cmd c).1 (documented now cmd c).1
    cases (documented now cmd c).1 with
    | hash h => exact fun _ => rfl
    | _ => rfl
  effect := by
    rintro c _ rfl now cmd
    rfl

theorem standard_round_trip (score : ℚ) (value : Json) :
    standard.loadEntry (standard.dumpEntry score value) = some (score, value) := by
  show (Json.loads (String.ofList (Json.dumps (entryJson score value))).toList).bind entryOfJson = _
  rw [String.toList_ofList, Json.loads_dumps, Option.bind_some, entryJson]
  split
  · next hwhole =>
    show some ((score.num : ℚ), value) = _
    rw [Rat.coe_int_num_of_den_eq_one hwhole]
  · show some ((score.num : ℚ) / ((score.den : Int) : ℚ), value) = _
    rw [Int.cast_natCast, Rat.num_div_den]

end Redis
