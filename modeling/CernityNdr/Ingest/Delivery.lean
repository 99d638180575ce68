import CernityNdr.Framework.Run
import CernityNdr.Ingest.Normalizer

/-! # Delivery of the Normalizer

    The model of `normalizer/app.py`: runs that poll the bus, buffer the rows
    of each table, insert and publish them in `flush`, and commit the polled
    positions. A run may die between any two effects; the next one starts from
    the committed offsets, and where there is none from the end of the log
    that `auto_offset_reset` names.

    * `Inv.step`: what every step keeps, under the condition `Covered`.
    * `at_least_once`: what holds in every state of a run whose steps all meet
      it. -/

namespace Normalizer

open Json Ingest Interpreter Machine

/-! ### The state -/

/-- A record as the consumer returns it. -/
structure Record where
  /-- the decoded value, unless the deserializer raises -/
  value : Option Json
  timestampType : Int
  timestamp : Option Int

/-- A topic and the number of a partition. -/
abbrev Partition := String × Nat

/-- `auto_offset_reset`. -/
inductive OffsetReset
  | latest
  | earliest
  | none
deriving DecidableEq

structure Config where
  tenant : String
  sensor : String
  dnsVersion : Int
  flushRows : Nat
  /-- `latest`, unless `NDR_OFFSET_RESET` is set -/
  reset : OffsetReset

/-- `buffers`: the rows of each table. -/
abbrev Buffers := List (String × List Row)

/-- A process. -/
structure Run where
  /-- the next offset to fetch, once there is one -/
  position : Partition → Option Nat
  buffers : Buffers
  pending : Nat

/-- What is durable of a flush. -/
structure Store where
  inserted : List (String × Row)
  /-- key and value -/
  published : List (List Char × Json)

structure State where
  /-- an offset without a record is one that the broker has used itself -/
  log : Partition → List (Option Record)
  committed : Partition → Option Nat
  run : Option Run
  store : Store

def State.initial (log : Partition → List (Option Record)) : State :=
  ⟨log, fun _ => none, none, ⟨[], []⟩⟩

variable (lib : Library) (cfg : Config)

/-! ### One record -/

/-- The body of `try`. -/
def observe (c : Coordinates) (r : Record) : Except Failure (Option Observed) :=
  match r.timestamp with
  | some ms =>
    if r.timestampType ≠ 1 ∨ ms < 0 then
      throw (.own (.runtime "normalizer requires input topics with LogAppendTime"))
    else do
      let value ← r.value.elim (.error .value) .ok
      let ingested ← (lib.fromtimestamp ms).elim (.error .value) .ok
      observation lib value cfg.tenant cfg.sensor cfg.dnsVersion c (lib.isoformat ingested)
  | none => throw (.own (.runtime "normalizer requires input topics with LogAppendTime"))

/-- `_ts`, at the time `now`. A value that is no string has no `replace`, and
    no text is no date. Every row has the column. -/
def ts (now : LocalTime) (row : Row) : Row :=
  let parsed := match row.lookup "event_time" with
    | some (.json (.str s)) => (lib.fromisoformat (replaceZ s)).getD now
    | _ => now
  row.map fun m => if m.1 = "event_time" then (m.1, .time parsed) else m

/-- `buffers.setdefault(table, []).append(row)`. -/
def append (buffers : Buffers) (table : String) (row : Row) : Buffers :=
  if buffers.any (fun b => b.1 = table) then
    buffers.map fun b => if b.1 = table then (b.1, b.2 ++ [row]) else b
  else buffers ++ [(table, [row])]

/-- One round of the loop over the records. -/
def handle (now : LocalTime) (c : Coordinates) (run : Run) (r : Record) : Except Failure Run :=
  match observe lib cfg c r with
  | .ok (some o) => .ok { run with
      buffers := append run.buffers o.table (ts lib now o.row), pending := run.pending + 1 }
  | .ok none => .ok run
  | .error (.own (.quarantine _)) => .ok run
  | .error e => .error e

def occurrence (p : Partition) (offset : Nat) : Coordinates := ⟨p.1, p.2, offset⟩

/-- The records of one partition from its position on. -/
def handleAll (clock : Coordinates → LocalTime) (p : Partition) :
    Nat → List (Option Record) → Run → Except Failure Run
  | _, [], run => .ok run
  | k, none :: recs, run => handleAll clock p (k + 1) recs run
  | k, some r :: recs, run => do
    let run ← handle lib cfg (clock (occurrence p k)) (occurrence p k) run r
    handleAll clock p (k + 1) recs run

/-- A batch of `poll`: how many offsets of each partition it goes past. -/
def pollAll (clock : Coordinates → LocalTime) (log : Partition → List (Option Record)) :
    List (Partition × Nat) → Run → Except Failure Run
  | [], run => .ok run
  | (p, n) :: batch, run =>
    match run.position p with
    | none => pollAll clock log batch run
    | some k => do
      let recs := ((log p).drop k).take n
      let run ← handleAll lib cfg clock p k recs run
      pollAll clock log batch
        { run with position := Function.update run.position p (some (k + recs.length)) }

/-! ### Flush -/

/-- `data`: the rows, in the columns of the first one. -/
def insertData : List Row → Except Failure (List Row)
  | [] => .ok []
  | first :: rows => (first :: rows).mapM fun r =>
    (first.map Prod.fst).mapM fun column =>
      (r.lookup column).elim (.error .key) fun cell => .ok (column, cell)

/-- `d[key]`. -/
def item (d : Dict) (key : String) : Except Failure Json := (d.get? key).elim (.error .key) .ok

/-- `doc["entities"][0]["value"] if doc["entities"] else doc["sensor_id"]`; the
    entities of an observation are a list. -/
def entityOf (d : Dict) : Except Failure Json := do
  match ← item d "entities" with
  | .arr (first :: _) => item (← members first) "value"
  | _ => item d "sensor_id"

/-- The key and the value that are sent for a row. -/
def publication (row : Row) : Except Failure (List Char × Json) :=
  match row.lookup "observation" with
  | some (.json (.str text)) => do
    let doc ← (loads text.toList).elim (.error .value) .ok
    let d ← members doc
    let entity ← entityOf d
    let tenant ← item d "tenant"
    return (dumps (.arr [tenant, entity]), doc)
  | _ => throw .key

/-- What `flush` does to the outside. -/
inductive Effect
  | insert (table : String) (rows : List Row)
  | publish (row : Row)

/-- `flush`, effect after effect. -/
def effects (buffers : Buffers) : List Effect :=
  buffers.flatMap fun b =>
    if b.2.isEmpty then [] else .insert b.1 b.2 :: b.2.map .publish

def Store.perform (s : Store) : Effect → Except Failure Store
  | .insert table rows => do
    let data ← insertData rows
    return { s with inserted := s.inserted ++ data.map fun row => (table, row) }
  | .publish row => do
    let sent ← publication row
    return { s with published := s.published ++ [sent] }

/-- An effect that raises: of an insert, the rows that `part` chooses may have
    become durable, and a row may have been published. -/
def Store.interrupt (s : Store) (part : Row → Bool) : Effect → Store
  | .insert table rows =>
    match insertData rows with
    | .ok data => { s with
        inserted := s.inserted ++ (data.filter part).map fun row => (table, row) }
    | .error _ => s
  | .publish row =>
    match part row, s.perform (.publish row) with
    | true, .ok t => t
    | _, _ => s

/-- The effects until one raises, on its own or because it is number `stop`,
    and whether none did. -/
def Store.attempt (part : Row → Bool) : Nat → List Effect → Store → Bool × Store
  | _, [], s => (true, s)
  | 0, e :: _, s => (false, s.interrupt part e)
  | stop + 1, e :: es, s =>
    match s.perform e with
    | .ok s => Store.attempt part stop es s
    | .error _ => (false, s)

/-! ### Steps -/

/-- How a flush and the commit behind it go. -/
structure Fate where
  /-- the effect that raises, if there are so many -/
  stop : Nat
  part : Row → Bool
  /-- the partitions whose offset is written before `commit` raises -/
  written : Partition → Bool
  commits : Bool

inductive Event
  /-- the broker appends a record, or uses an offset itself -/
  | append (p : Partition) (r : Option Record)
  | start
  /-- the consumer looks for its position in a partition -/
  | assign (p : Partition)
  | poll (batch : List (Partition × Nat)) (clock : Coordinates → LocalTime)
  /-- the end of a round, or of the loop when `final` -/
  | flush (final elapsed : Bool) (fate : Fate)
  | crash

/-- Where the consumer starts without a committed offset; `none` where it
    raises. -/
def OffsetReset.position (reset : OffsetReset) (log : List (Option Record)) : Option Nat :=
  match reset with
  | .latest => some log.length
  | .earliest => some 0
  | .none => Option.none

/-- `pending >= FLUSH_ROWS or (pending and now - last >= FLUSH_SECS)`. -/
def due (elapsed : Bool) (pending : Nat) : Bool :=
  cfg.flushRows ≤ pending || (pending ≠ 0 && elapsed)

/-- `commit()`, of all partitions that have a position or of some of them. -/
def commit (fate : Fate) (position committed : Partition → Option Nat) : Partition → Option Nat :=
  fun p => if fate.commits || fate.written p then position p <|> committed p else committed p

def State.step (s : State) : Event → State
  | .append p r => { s with log := Function.update s.log p (s.log p ++ [r]) }
  | .start =>
    match s.run with
    | none => { s with run := some ⟨fun _ => none, [], 0⟩ }
    | some _ => s
  | .assign p =>
    match s.run with
    | none => s
    | some run =>
      if (run.position p).isSome then s
      else
        match s.committed p <|> cfg.reset.position (s.log p) with
        | some k => { s with run := some { run with
            position := Function.update run.position p (some k) } }
        | none => { s with run := none }
  | .poll batch clock =>
    match s.run with
    | none => s
    | some run => { s with run := (pollAll lib cfg clock s.log batch run).toOption }
  | .flush final elapsed fate =>
    match s.run with
    | none => s
    | some run =>
      if final || due cfg elapsed run.pending then
        match Store.attempt fate.part fate.stop (effects run.buffers) s.store with
        | (false, store) => { s with run := none, store := store }
        | (true, store) => { s with
            committed := commit fate run.position s.committed
            run := if fate.commits && !final then some { run with buffers := [], pending := 0 }
              else none
            store := store }
      else s
  | .crash => { s with run := none }

/-! ### What is owed to a record -/

/-- The record of an occurrence. -/
def recordAt (log : Partition → List (Option Record)) (c : Coordinates) : Option Record :=
  ((log (c.topic, c.partition))[c.offset]?).join

/-- The observation of an occurrence. -/
def Observes (log : Partition → List (Option Record)) (c : Coordinates) (o : Observed) : Prop :=
  ∃ r, recordAt log c = some r ∧ observe lib cfg c r = .ok (some o)

/-- The record is of no supported type, or raises `QuarantineError`. -/
def Rejected (c : Coordinates) (r : Record) : Prop :=
  observe lib cfg c r = .ok none ∨ ∃ m, observe lib cfg c r = .error (.own (.quarantine m))

/-- What happens to each record of an occurrence that is not rejected. -/
def Unless (log : Partition → List (Option Record)) (c : Coordinates) (P : Observed → Prop) : Prop :=
  ∀ r, recordAt log c = some r →
    Rejected lib cfg c r ∨ ∃ o, observe lib cfg c r = .ok (some o) ∧ P o

/-- The row is inserted and the observation is published. -/
def Delivered (store : Store) (o : Observed) : Prop :=
  (∃ now, (o.table, ts lib now o.row) ∈ store.inserted) ∧
    ∃ key, (key, sortKeys o.doc) ∈ store.published

/-- The row waits for the next flush. -/
def Waiting (buffers : Buffers) (o : Observed) : Prop :=
  ∃ now rows, (o.table, rows) ∈ buffers ∧ ts lib now o.row ∈ rows

/-- The record was rejected, or inserted and published. -/
def Handled (s : State) (p : Partition) (k : Nat) : Prop :=
  Unless lib cfg s.log (occurrence p k) (Delivered lib s.store)

/-- Where a run starts without a committed offset, every record that it goes
    past has been handled. -/
def Covered (s : State) (e : Event) : Prop :=
  ∀ p, e = .assign p → s.committed p = none → cfg.reset = .latest →
    ∀ k < (s.log p).length, Handled lib cfg s p k

variable {lib cfg} {log : Partition → List (Option Record)} {c : Coordinates}
  {P Q : Observed → Prop}

theorem Unless.mono (h : Unless lib cfg log c P) (hPQ : ∀ o, P o → Q o) :
    Unless lib cfg log c Q := by
  intro r hr
  obtain hrej | ⟨o, ho, hP⟩ := h r hr
  · exact Or.inl hrej
  · exact Or.inr ⟨o, ho, hPQ o hP⟩

/-! ### Rows -/

theorem ts_names (now : LocalTime) (row : Row) :
    (ts lib now row).map Prod.fst = row.map Prod.fst := by
  unfold ts
  rw [List.map_map]
  apply List.map_congr_left
  intro m _
  show (if m.1 = "event_time" then _ else m).1 = m.1
  split <;> rfl

theorem ts_lookup (now : LocalTime) (row : Row) {key : String} (h : key ≠ "event_time") :
    (ts lib now row).lookup key = row.lookup key := by
  have hmap : ∀ (cell : Cell) (l : Row),
      (l.map fun m => if m.1 = "event_time" then (m.1, cell) else m).lookup key =
        l.lookup key := by
    intro cell l
    induction l with
    | nil => rfl
    | cons m l ih =>
      rw [List.map_cons, List.lookup_cons, List.lookup_cons, ih]
      by_cases hm : m.1 = "event_time"
      · have hne : (key == m.1) = false := beq_eq_false_iff_ne.mpr fun hk => h (hk.trans hm)
        rw [if_pos hm, hne]
      · rw [if_neg hm]
  exact hmap _ row

/-- The time of day does not matter, since the text has been read before. -/
theorem Made.ts_eq {o : Observed} (h : Made lib c o) (now now' : LocalTime) :
    ts lib now o.row = ts lib now' o.row := by
  obtain ⟨s, t, hlookup, hiso⟩ := h.time
  simp only [ts, hlookup, hiso, Option.getD_some]

theorem EventType.table_injective : Function.Injective EventType.table := by
  intro a b h
  cases a <;> cases b <;> first | rfl | exact absurd h (by decide)

theorem lookup_of_mem {row : Row} (hnodup : (row.map Prod.fst).Nodup) {x : String × Cell}
    (hx : x ∈ row) : row.lookup x.1 = some x.2 := by
  induction row with
  | nil => cases hx
  | cons m row ih =>
    obtain ⟨hm, hnodup⟩ := List.nodup_cons.mp hnodup
    rw [List.lookup_cons]
    rcases List.mem_cons.mp hx with rfl | hx
    · rw [beq_self_eq_true]
    · have hne : (x.1 == m.1) = false :=
        beq_eq_false_iff_ne.mpr fun heq => hm (heq ▸ List.mem_map_of_mem hx)
      rw [hne]
      exact ih hnodup hx

/-- Rows with the same columns are inserted as they are. -/
theorem insertData_eq {cols : List String} (hnodup : cols.Nodup) {rows : List Row}
    (h : ∀ r ∈ rows, r.map Prod.fst = cols) : insertData rows = .ok rows := by
  cases rows with
  | nil => rfl
  | cons first rows =>
    rw [insertData, Except.mapM_eq_ok, List.forall₂_same]
    intro r hr
    rw [h first (by simp), ← h r hr, Except.mapM_eq_ok, List.forall₂_map_left_iff,
      List.forall₂_same]
    intro x hx
    rw [lookup_of_mem ((h r hr).symm ▸ hnodup) hx]
    rfl

theorem publication_eq_ok {row : Row} {v : Json}
    (hrow : row.lookup "observation" = some (.json (.str (String.ofList (compact v)))))
    {sent : List Char × Json} (h : publication row = .ok sent) : sent.2 = v := by
  rw [publication, hrow] at h
  obtain ⟨doc, hdoc, h⟩ := Except.bind_eq_ok.mp h
  rw [String.toList_ofList, loads_compact] at hdoc
  cases hdoc
  obtain ⟨d, -, h⟩ := Except.bind_eq_ok.mp h
  obtain ⟨entity, -, h⟩ := Except.bind_eq_ok.mp h
  obtain ⟨tenant, -, h⟩ := Except.bind_eq_ok.mp h
  cases h
  rfl

/-! ### What is written -/

/-- Every row and every document is the one of an occurrence. -/
structure Store.Sound (lib : Library) (cfg : Config) (log : Partition → List (Option Record))
    (s : Store) : Prop where
  inserted : ∀ x ∈ s.inserted, ∃ c o now,
    Observes lib cfg log c o ∧ x = (o.table, ts lib now o.row)
  published : ∀ x ∈ s.published, ∃ c o, Observes lib cfg log c o ∧ x.2 = sortKeys o.doc

/-- Every buffered row is the one of an occurrence, in its table. -/
def Genuine (lib : Library) (cfg : Config) (log : Partition → List (Option Record))
    (buffers : Buffers) : Prop :=
  ∀ b ∈ buffers, ∀ row ∈ b.2, ∃ c o now,
    Observes lib cfg log c o ∧ b.1 = o.table ∧ row = ts lib now o.row

/-- Nothing durable is lost. -/
def Store.Within (s t : Store) : Prop := s.inserted ⊆ t.inserted ∧ s.published ⊆ t.published

theorem Store.Within.refl (s : Store) : s.Within s := ⟨List.Subset.refl _, List.Subset.refl _⟩

theorem Store.Within.trans {s t u : Store} (h : s.Within t) (h' : t.Within u) : s.Within u :=
  ⟨List.Subset.trans h.1 h'.1, List.Subset.trans h.2 h'.2⟩

theorem Delivered.mono {s t : Store} (h : s.Within t) {o : Observed} (ho : Delivered lib s o) :
    Delivered lib t o := by
  obtain ⟨⟨now, hrow⟩, key, hdoc⟩ := ho
  exact ⟨⟨now, h.1 hrow⟩, key, h.2 hdoc⟩

theorem Observes.made {o : Observed} (h : Observes lib cfg log c o) : Made lib c o := by
  obtain ⟨r, -, ho⟩ := h
  unfold observe at ho
  split at ho
  · split at ho
    · cases ho
    · obtain ⟨value, -, ho⟩ := Except.bind_eq_ok.mp ho
      obtain ⟨ingested, -, ho⟩ := Except.bind_eq_ok.mp ho
      exact made_of_observation ho
  · cases ho

/-- The rows of one table have the same columns. -/
theorem Genuine.insertData_eq {buffers : Buffers} (h : Genuine lib cfg log buffers)
    {b : String × List Row} (hb : b ∈ buffers) : insertData b.2 = .ok b.2 := by
  rcases hrows : b.2 with _ | ⟨first, rows⟩
  · rfl
  · rw [← hrows]
    obtain ⟨c, o, now, hobs, htable, -⟩ := h b hb first (by simp [hrows])
    obtain ⟨et, het, -⟩ := hobs.made.columns
    refine @Normalizer.insertData_eq (et.columns ++ ["observation", "raw_record"]) ?_ _ ?_
    · cases et <;> decide
    · intro r hr
      obtain ⟨c', o', now', hobs', htable', rfl⟩ := h b hb r hr
      obtain ⟨et', het', hcols⟩ := hobs'.made.columns
      have hsame : et' = et := EventType.table_injective
        (het'.symm.trans (htable'.symm.trans (htable.trans het)))
      rw [ts_names, hcols, hsame]

/-! ### A flush -/

section Flush
variable {s t : Store} {part : Row → Bool} {e : Effect} {buffers : Buffers}

theorem perform_within (h : s.perform e = .ok t) : s.Within t := by
  cases e with
  | insert table rows =>
    obtain ⟨data, -, h⟩ := Except.bind_eq_ok.mp h
    cases h
    exact ⟨List.subset_append_left _ _, List.Subset.refl _⟩
  | publish row =>
    obtain ⟨sent, -, h⟩ := Except.bind_eq_ok.mp h
    cases h
    exact ⟨List.Subset.refl _, List.subset_append_left _ _⟩

theorem interrupt_within (s : Store) (part : Row → Bool) (e : Effect) :
    s.Within (s.interrupt part e) := by
  cases e with
  | insert table rows =>
    rw [Store.interrupt]
    split
    · exact ⟨List.subset_append_left _ _, List.Subset.refl _⟩
    · exact Store.Within.refl s
  | publish row =>
    rw [Store.interrupt]
    split
    · next hsent => exact perform_within hsent
    · exact Store.Within.refl s

/-- An effect of a flush of genuine rows. -/
theorem mem_effects (h : e ∈ effects buffers) :
    (∃ b ∈ buffers, e = .insert b.1 b.2) ∨ ∃ b ∈ buffers, ∃ row ∈ b.2, e = .publish row := by
  obtain ⟨b, hb, he⟩ := List.mem_flatMap.mp h
  split at he
  · cases he
  · rcases List.mem_cons.mp he with rfl | he
    · exact Or.inl ⟨b, hb, rfl⟩
    · obtain ⟨row, hrow, rfl⟩ := List.mem_map.mp he
      exact Or.inr ⟨b, hb, row, hrow, rfl⟩

/-- What is inserted of a table, whole or in part, is genuine. -/
theorem Store.Sound.insert (hs : s.Sound lib cfg log) (hbuf : Genuine lib cfg log buffers)
    {b : String × List Row} (hb : b ∈ buffers) {rows : List Row} (hrows : rows ⊆ b.2) :
    Store.Sound lib cfg log
      { s with inserted := s.inserted ++ rows.map fun row => (b.1, row) } := by
  refine ⟨?_, hs.published⟩
  intro x hx
  rcases List.mem_append.mp hx with hx | hx
  · exact hs.inserted x hx
  · obtain ⟨row, hrow, rfl⟩ := List.mem_map.mp hx
    obtain ⟨c, o, now, hobs, htable, rfl⟩ := hbuf b hb row (hrows hrow)
    exact ⟨c, o, now, hobs, by rw [htable]⟩

theorem perform_sound (hs : s.Sound lib cfg log) (hbuf : Genuine lib cfg log buffers)
    (he : e ∈ effects buffers) (h : s.perform e = .ok t) : t.Sound lib cfg log := by
  obtain ⟨b, hb, rfl⟩ | ⟨b, hb, row, hrow, rfl⟩ := mem_effects he
  · obtain ⟨data, hdata, h⟩ := Except.bind_eq_ok.mp h
    rw [hbuf.insertData_eq hb] at hdata
    cases hdata
    cases h
    exact hs.insert hbuf hb (List.Subset.refl _)
  · obtain ⟨sent, hsent, h⟩ := Except.bind_eq_ok.mp h
    cases h
    refine ⟨hs.inserted, ?_⟩
    intro x hx
    rcases List.mem_append.mp hx with hx | hx
    · exact hs.published x hx
    · obtain rfl := List.mem_singleton.mp hx
      obtain ⟨c, o, now, hobs, -, rfl⟩ := hbuf b hb row hrow
      exact ⟨c, o, hobs, publication_eq_ok
        (by rw [ts_lookup now o.row (by decide), hobs.made.encoded]) hsent⟩

theorem interrupt_sound (hs : s.Sound lib cfg log) (hbuf : Genuine lib cfg log buffers)
    (he : e ∈ effects buffers) : (s.interrupt part e).Sound lib cfg log := by
  obtain ⟨b, hb, rfl⟩ | ⟨b, hb, row, hrow, rfl⟩ := mem_effects he
  · rw [Store.interrupt, hbuf.insertData_eq hb]
    exact hs.insert hbuf hb (List.filter_subset_self _)
  · rw [Store.interrupt]
    split
    · next hsent => exact perform_sound hs hbuf he hsent
    · exact hs

theorem attempt_within {stop : Nat} {es : List Effect} {done : Bool}
    (h : Store.attempt part stop es s = (done, t)) : s.Within t := by
  induction es generalizing stop s with
  | nil =>
    rw [Store.attempt] at h
    cases h
    exact Store.Within.refl _
  | cons e es ih =>
    cases stop with
    | zero =>
      rw [Store.attempt] at h
      cases h
      exact interrupt_within _ part e
    | succ stop =>
      rw [Store.attempt] at h
      split at h
      · next s' hperform => exact (perform_within hperform).trans (ih h)
      · cases h
        exact Store.Within.refl _

/-- Wherever a flush stops, it has added genuine rows and documents only. -/
theorem attempt_sound (hbuf : Genuine lib cfg log buffers) {stop : Nat} {es : List Effect}
    (hes : es ⊆ effects buffers) (hs : s.Sound lib cfg log) {done : Bool}
    (h : Store.attempt part stop es s = (done, t)) : t.Sound lib cfg log := by
  induction es generalizing stop s with
  | nil =>
    rw [Store.attempt] at h
    cases h
    exact hs
  | cons e es ih =>
    obtain ⟨he, hes⟩ := List.cons_subset.mp hes
    cases stop with
    | zero =>
      rw [Store.attempt] at h
      cases h
      exact interrupt_sound hs hbuf he
    | succ stop =>
      rw [Store.attempt] at h
      split at h
      · next s' hperform => exact ih hes (perform_sound hs hbuf he hperform) h
      · cases h
        exact hs

/-- A flush that returns has had every effect. -/
theorem attempt_complete {stop : Nat} {es : List Effect}
    (h : Store.attempt part stop es s = (true, t)) :
    ∀ e ∈ es, ∃ u v : Store, u.perform e = .ok v ∧ v.Within t := by
  induction es generalizing stop s with
  | nil => exact fun e he => absurd he List.not_mem_nil
  | cons e es ih =>
    cases stop with
    | zero =>
      rw [Store.attempt] at h
      cases h
    | succ stop =>
      rw [Store.attempt] at h
      split at h
      · next s' hperform =>
        intro e' he'
        rcases List.mem_cons.mp he' with rfl | he'
        · exact ⟨s, s', hperform, attempt_within h⟩
        · exact ih h e' he'
      · cases h

/-- After a flush that returned, what was waiting is delivered. -/
theorem Waiting.delivered (hbuf : Genuine lib cfg log buffers) {stop : Nat}
    (h : Store.attempt part stop (effects buffers) s = (true, t)) {o : Observed}
    (ho : Observes lib cfg log c o) (hwait : Waiting lib buffers o) : Delivered lib t o := by
  obtain ⟨now, rows, hb, hrow⟩ := hwait
  have hne : rows.isEmpty = false := by
    cases rows with
    | nil => cases hrow
    | cons r rows => rfl
  constructor
  · have he : Effect.insert o.table rows ∈ effects buffers :=
      List.mem_flatMap.mpr ⟨_, hb, by simp [hne]⟩
    obtain ⟨u, v, hperform, hwithin⟩ := attempt_complete h _ he
    obtain ⟨data, hdata, hperform⟩ := Except.bind_eq_ok.mp hperform
    rw [hbuf.insertData_eq hb] at hdata
    cases hdata
    cases hperform
    refine ⟨now, hwithin.1 (List.mem_append_right _ ?_)⟩
    exact List.mem_map.mpr ⟨_, hrow, rfl⟩
  · have he : Effect.publish (ts lib now o.row) ∈ effects buffers :=
      List.mem_flatMap.mpr ⟨_, hb, by simp [hne, hrow]⟩
    obtain ⟨u, v, hperform, hwithin⟩ := attempt_complete h _ he
    obtain ⟨sent, hsent, hperform⟩ := Except.bind_eq_ok.mp hperform
    cases hperform
    have hdoc := publication_eq_ok
      (by rw [ts_lookup now o.row (by decide), ho.made.encoded]) hsent
    refine ⟨sent.1, hwithin.2 (List.mem_append_right _ ?_)⟩
    rw [← hdoc]
    exact List.mem_singleton_self _

end Flush

/-! ### A poll -/

section Poll
variable {buffers : Buffers} {o o' : Observed} {now : LocalTime} {run run' : Run} {r : Record}
  {s : State}

theorem waiting_append (buffers : Buffers) (o : Observed) (now : LocalTime) :
    Waiting lib (append buffers o.table (ts lib now o.row)) o := by
  unfold append
  split
  · next h =>
    obtain ⟨b, hb, htable⟩ := List.any_eq_true.mp h
    refine ⟨now, b.2 ++ [ts lib now o.row], List.mem_map.mpr ⟨b, hb, ?_⟩, by simp⟩
    have htable : b.1 = o.table := by simpa using htable
    rw [if_pos htable, htable]
  · exact ⟨now, [ts lib now o.row], by simp, by simp⟩

theorem Waiting.append (h : Waiting lib buffers o) (table : String) (row : Row) :
    Waiting lib (append buffers table row) o := by
  obtain ⟨now, rows, hb, hrow⟩ := h
  unfold Normalizer.append
  split
  · by_cases htable : o.table = table
    · exact ⟨now, rows ++ [row], List.mem_map.mpr ⟨_, hb, if_pos htable⟩,
        List.mem_append_left _ hrow⟩
    · exact ⟨now, rows, List.mem_map.mpr ⟨_, hb, if_neg htable⟩, hrow⟩
  · exact ⟨now, rows, List.mem_append_left _ hb, hrow⟩

theorem Genuine.append (h : Genuine lib cfg log buffers) (ho : Observes lib cfg log c o)
    (now : LocalTime) : Genuine lib cfg log (append buffers o.table (ts lib now o.row)) := by
  unfold Normalizer.append
  intro b hb row hrow
  split at hb
  · obtain ⟨b', hb', rfl⟩ := List.mem_map.mp hb
    split at hrow
    · next htable =>
      rcases List.mem_append.mp hrow with hrow | hrow
      · simpa [htable] using h b' hb' row hrow
      · obtain rfl := List.mem_singleton.mp hrow
        exact ⟨c, o, now, ho, by rw [if_pos htable, htable], rfl⟩
    · next htable =>
      rw [if_neg htable]
      exact h b' hb' row hrow
  · rcases List.mem_append.mp hb with hb | hb
    · exact h b hb row hrow
    · obtain rfl := List.mem_singleton.mp hb
      obtain rfl := List.mem_singleton.mp hrow
      exact ⟨c, o, now, ho, rfl, rfl⟩

/-- What taking records in does to a run. -/
structure Took (lib : Library) (cfg : Config) (log : Partition → List (Option Record))
    (run run' : Run) : Prop where
  position : run'.position = run.position
  genuine : Genuine lib cfg log run.buffers → Genuine lib cfg log run'.buffers
  waiting : ∀ o, Waiting lib run.buffers o → Waiting lib run'.buffers o

theorem Took.refl (run : Run) : Took lib cfg log run run := ⟨rfl, id, fun _ => id⟩

theorem Took.trans {run'' : Run} (h : Took lib cfg log run run')
    (h' : Took lib cfg log run' run'') : Took lib cfg log run run'' :=
  ⟨h'.position.trans h.position, h'.genuine ∘ h.genuine, fun o => h'.waiting o ∘ h.waiting o⟩

/-- A record that is taken in waits, or is rejected. -/
theorem handle_spec (hr : recordAt log c = some r) (h : handle lib cfg now c run r = .ok run') :
    Took lib cfg log run run' ∧ Unless lib cfg log c (Waiting lib run'.buffers) := by
  unfold handle at h
  split at h
  · next o ho =>
    cases h
    refine ⟨⟨rfl, fun hbuf => hbuf.append ⟨r, hr, ho⟩ now, fun o' ho' => ho'.append _ _⟩, ?_⟩
    intro r' hr'
    obtain rfl := Option.some.inj (hr.symm.trans hr')
    exact Or.inr ⟨o, ho, waiting_append run.buffers o now⟩
  · next ho =>
    cases h
    refine ⟨Took.refl run, ?_⟩
    intro r' hr'
    obtain rfl := Option.some.inj (hr.symm.trans hr')
    exact Or.inl (Or.inl ho)
  · next m ho =>
    cases h
    refine ⟨Took.refl run, ?_⟩
    intro r' hr'
    obtain rfl := Option.some.inj (hr.symm.trans hr')
    exact Or.inl (Or.inr ⟨m, ho⟩)
  · cases h

variable {clock : Coordinates → LocalTime} {p : Partition}

theorem recordAt_occurrence (k : Nat) :
    recordAt log (occurrence p k) = ((log p)[k]?).join := rfl

theorem handleAll_spec {recs : List (Option Record)} {k : Nat} (hrecs : recs <+: (log p).drop k)
    (h : handleAll lib cfg clock p k recs run = .ok run') :
    Took lib cfg log run run' ∧ ∀ j, k ≤ j → j < k + recs.length →
      Unless lib cfg log (occurrence p j) (Waiting lib run'.buffers) := by
  induction recs generalizing k run with
  | nil =>
    cases h
    exact ⟨Took.refl _, fun j hk hj => absurd hj (Nat.not_lt.mpr hk)⟩
  | cons first recs ih =>
    have hfirst : (log p)[k]? = some first := by
      obtain ⟨rest, hrest⟩ := hrecs
      have := congrArg (fun l => l[0]?) hrest
      simpa [List.getElem?_drop] using this.symm
    have htail : recs <+: (log p).drop (k + 1) := by
      obtain ⟨rest, hrest⟩ := hrecs
      refine ⟨rest, ?_⟩
      rw [← List.drop_drop, ← hrest]
      rfl
    cases first with
    | none =>
      obtain ⟨htook, hall⟩ := ih htail h
      refine ⟨htook, ?_⟩
      intro j hk hj
      rcases Nat.eq_or_lt_of_le hk with rfl | hk
      · intro r hr
        rw [recordAt_occurrence, hfirst] at hr
        cases hr
      · exact hall j hk (by rw [List.length_cons] at hj; omega)
    | some r =>
      obtain ⟨mid, hmid, h⟩ := Except.bind_eq_ok.mp h
      have hr : recordAt log (occurrence p k) = some r := by
        rw [recordAt_occurrence, hfirst]
        rfl
      obtain ⟨hone, hwait⟩ := handle_spec hr hmid
      obtain ⟨htook, hall⟩ := ih htail h
      refine ⟨hone.trans htook, ?_⟩
      intro j hk hj
      rcases Nat.eq_or_lt_of_le hk with rfl | hk
      · exact hwait.mono htook.waiting
      · exact hall j hk (by rw [List.length_cons] at hj; omega)

end Poll

/-! ### The invariant -/

/-- The record was rejected, is delivered, or waits in the run. -/
def Owed (lib : Library) (cfg : Config) (log : Partition → List (Option Record)) (store : Store)
    (buffers : Buffers) (p : Partition) (k : Nat) : Prop :=
  Unless lib cfg log (occurrence p k) fun o => Delivered lib store o ∨ Waiting lib buffers o

structure RunInv (lib : Library) (cfg : Config) (log : Partition → List (Option Record))
    (store : Store) (run : Run) : Prop where
  genuine : Genuine lib cfg log run.buffers
  behind : ∀ p n, run.position p = some n →
    n ≤ (log p).length ∧ ∀ k < n, Owed lib cfg log store run.buffers p k

structure Inv (lib : Library) (cfg : Config) (s : State) : Prop where
  sound : s.store.Sound lib cfg s.log
  committed : ∀ p n, s.committed p = some n →
    n ≤ (s.log p).length ∧ ∀ k < n, Handled lib cfg s p k
  run : ∀ run, s.run = some run → RunInv lib cfg s.log s.store run

section Steps
variable {s : State} {run run' : Run}

theorem Inv.initial : Inv lib cfg (.initial log) := by
  constructor
  · exact ⟨fun x hx => absurd hx List.not_mem_nil, fun x hx => absurd hx List.not_mem_nil⟩
  · intro p n h
    cases h
  · intro run h
    cases h

/-- A poll keeps the invariant of the run. -/
theorem RunInv.pollAll {clock : Coordinates → LocalTime} {batch : List (Partition × Nat)}
    (hrun : RunInv lib cfg s.log s.store run)
    (h : pollAll lib cfg clock s.log batch run = .ok run') :
    RunInv lib cfg s.log s.store run' := by
  induction batch generalizing run with
  | nil =>
    cases h
    exact hrun
  | cons b batch ih =>
    obtain ⟨p, n⟩ := b
    cases hpos : run.position p with
    | none =>
      simp only [Normalizer.pollAll, hpos] at h
      exact ih hrun h
    | some k =>
      simp only [Normalizer.pollAll, hpos] at h
      obtain ⟨mid, hmid, h⟩ := Except.bind_eq_ok.mp h
      obtain ⟨htook, hall⟩ := handleAll_spec (List.take_prefix n _) hmid
      obtain ⟨hk, hbehind⟩ := hrun.behind p k hpos
      suffices hnext : RunInv lib cfg s.log s.store { mid with
          position := Function.update mid.position p
            (some (k + ((s.log p).drop k |>.take n).length)) } from ih hnext h
      refine ⟨htook.genuine hrun.genuine, ?_⟩
      intro q m hm
      have hold : ∀ j, Owed lib cfg s.log s.store run.buffers q j →
          Owed lib cfg s.log s.store mid.buffers q j :=
        fun j hj => hj.mono fun o ho => ho.imp_right (htook.waiting o)
      by_cases hq : q = p
      · subst hq
        obtain rfl : k + ((s.log q).drop k |>.take n).length = m := by simpa using hm
        constructor
        · simp only [List.length_take, List.length_drop]
          omega
        · intro j hj
          rcases Nat.lt_or_ge j k with hlt | hge
          · exact hold j (hbehind j hlt)
          · exact (hall j hge hj).mono fun o ho => Or.inr ho
      · replace hm : run.position q = some m := by
          simpa [Function.update_of_ne hq, htook.position] using hm
        obtain ⟨hm, hrest⟩ := hrun.behind q m hm
        exact ⟨hm, fun j hj => hold j (hrest j hj)⟩

/-! ### Steps -/

/-- A record stays where it is. -/
theorem recordAt_append {p : Partition} {r : Option Record} {c : Coordinates} {r' : Record}
    (h : recordAt s.log c = some r') :
    recordAt (Function.update s.log p (s.log p ++ [r])) c = some r' := by
  have hget : (s.log (c.topic, c.partition))[c.offset]? = some (some r') :=
    Option.join_eq_some_iff.mp h
  rw [recordAt]
  by_cases hp : (c.topic, c.partition) = p
  · subst hp
    rw [Function.update_self, List.getElem?_append_left (List.getElem?_eq_some_iff.mp hget).1, hget]
    rfl
  · rw [Function.update_of_ne hp, hget]
    rfl

/-- No record appears in front of the end of the log. -/
theorem recordAt_of_append {p q : Partition} {r : Option Record} {k : Nat} {r' : Record}
    (hk : k < (s.log q).length)
    (h : recordAt (Function.update s.log p (s.log p ++ [r])) (occurrence q k) = some r') :
    recordAt s.log (occurrence q k) = some r' := by
  rw [recordAt_occurrence] at h ⊢
  by_cases hq : q = p
  · subst hq
    rwa [Function.update_self, List.getElem?_append_left hk] at h
  · rwa [Function.update_of_ne hq] at h

theorem length_append (p q : Partition) (r : Option Record) :
    (s.log q).length ≤ (Function.update s.log p (s.log p ++ [r]) q).length := by
  by_cases hq : q = p
  · subst hq
    simp
  · rw [Function.update_of_ne hq]

theorem Inv.append (h : Inv lib cfg s) (p : Partition) (r : Option Record) :
    Inv lib cfg (s.step lib cfg (.append p r)) := by
  have hobs : ∀ {c o}, Observes lib cfg s.log c o →
      Observes lib cfg (Function.update s.log p (s.log p ++ [r])) c o := by
    rintro c o ⟨r', hr', ho⟩
    exact ⟨r', recordAt_append hr', ho⟩
  have hunless : ∀ {q k P}, k < (s.log q).length → Unless lib cfg s.log (occurrence q k) P →
      Unless lib cfg (Function.update s.log p (s.log p ++ [r])) (occurrence q k) P :=
    fun hk hP r' hr' => hP r' (recordAt_of_append hk hr')
  have hlength := fun q => @length_append s p q r
  constructor
  · constructor
    · intro x hx
      obtain ⟨c, o, now, ho, rfl⟩ := h.sound.inserted x hx
      exact ⟨c, o, now, hobs ho, rfl⟩
    · intro x hx
      obtain ⟨c, o, ho, hdoc⟩ := h.sound.published x hx
      exact ⟨c, o, hobs ho, hdoc⟩
  · intro q n hn
    obtain ⟨hle, hall⟩ := h.committed q n hn
    exact ⟨hle.trans (hlength q), fun k hk => hunless (hk.trans_le hle) (hall k hk)⟩
  · intro run hrun
    obtain ⟨hgen, hbehind⟩ := h.run run hrun
    constructor
    · intro b hb row hrow
      obtain ⟨c, o, now, ho, hrest⟩ := hgen b hb row hrow
      exact ⟨c, o, now, hobs ho, hrest⟩
    · intro q n hn
      obtain ⟨hle, hall⟩ := hbehind q n hn
      exact ⟨hle.trans (hlength q), fun k hk => hunless (hk.trans_le hle) (hall k hk)⟩

theorem Inv.start (h : Inv lib cfg s) : Inv lib cfg (s.step lib cfg .start) := by
  rw [State.step]
  split
  · refine ⟨h.sound, h.committed, ?_⟩
    intro run hrun
    cases hrun
    exact ⟨fun b hb => absurd hb List.not_mem_nil, fun p n hn => by cases hn⟩
  · exact h

theorem Inv.crash (h : Inv lib cfg s) : Inv lib cfg { s with run := none } :=
  ⟨h.sound, h.committed, fun run hrun => by cases hrun⟩

/-- A run finds its position in a partition. -/
theorem Inv.assign {p : Partition} (h : Inv lib cfg s) (hcov : Covered lib cfg s (.assign p)) :
    Inv lib cfg (s.step lib cfg (.assign p)) := by
  rw [State.step]
  split
  · exact h
  · next run hrun =>
    split
    · exact h
    · split
      · next k hk =>
        refine ⟨h.sound, h.committed, ?_⟩
        intro run' hrun'
        obtain rfl := Option.some.inj hrun'
        refine ⟨(h.run run hrun).genuine, ?_⟩
        intro q n hn
        by_cases hq : q = p
        · subst hq
          obtain rfl : k = n := by simpa using hn
          suffices hstart : k ≤ (s.log q).length ∧ ∀ j < k, Handled lib cfg s q j from
            ⟨hstart.1, fun j hj => (hstart.2 j hj).mono fun o ho => Or.inl ho⟩
          cases hcom : s.committed q with
          | some m =>
            rw [hcom] at hk
            cases hk
            exact h.committed q k hcom
          | none =>
            rw [hcom] at hk
            cases hreset : cfg.reset with
            | latest =>
              rw [hreset] at hk
              cases hk
              exact ⟨le_rfl, hcov q rfl hcom hreset⟩
            | earliest =>
              rw [hreset] at hk
              cases hk
              exact ⟨Nat.zero_le _, fun j hj => absurd hj (Nat.not_lt_zero j)⟩
            | none =>
              rw [hreset] at hk
              cases hk
        · exact (h.run run hrun).behind q n (by simpa [Function.update_of_ne hq] using hn)
      · exact h.crash

theorem Inv.poll (h : Inv lib cfg s) (batch : List (Partition × Nat))
    (clock : Coordinates → LocalTime) : Inv lib cfg (s.step lib cfg (.poll batch clock)) := by
  rw [State.step]
  split
  · exact h
  · next run hrun =>
    refine ⟨h.sound, h.committed, ?_⟩
    intro run' hrun'
    cases hpoll : Normalizer.pollAll lib cfg clock s.log batch run with
    | error e =>
      simp only [hpoll] at hrun'
      cases hrun'
    | ok mid =>
      simp only [hpoll] at hrun'
      cases hrun'
      exact (h.run run hrun).pollAll hpoll

/-- A flush, wherever it stops, and the commit behind it. -/
theorem Inv.flush (h : Inv lib cfg s) (final elapsed : Bool) (fate : Fate) :
    Inv lib cfg (s.step lib cfg (.flush final elapsed fate)) := by
  rw [State.step]
  split
  · exact h
  · next run hrun =>
    obtain ⟨hgen, hbehind⟩ := h.run run hrun
    split
    · split
      · next store hattempt =>
        have hwithin := attempt_within hattempt
        refine ⟨attempt_sound hgen (List.Subset.refl _) h.sound hattempt, ?_, ?_⟩
        · intro p n hn
          obtain ⟨hle, hall⟩ := h.committed p n hn
          exact ⟨hle, fun k hk => (hall k hk).mono fun o ho => ho.mono hwithin⟩
        · intro run' hrun'
          cases hrun'
      · next store hattempt =>
        have hwithin := attempt_within hattempt
        have hkept : ∀ p k, Handled lib cfg s p k →
            Handled lib cfg { s with store := store } p k :=
          fun p k hk => hk.mono fun o ho => ho.mono hwithin
        -- everything behind the position is delivered now
        have hnow : ∀ p n, run.position p = some n →
            n ≤ (s.log p).length ∧ ∀ k < n, Handled lib cfg { s with store := store } p k := by
          intro p n hn
          obtain ⟨hle, hall⟩ := hbehind p n hn
          refine ⟨hle, ?_⟩
          intro k hk r hr
          obtain hrej | ⟨o, ho, hdel | hwait⟩ := hall k hk r hr
          · exact Or.inl hrej
          · exact Or.inr ⟨o, ho, hdel.mono hwithin⟩
          · exact Or.inr ⟨o, ho, hwait.delivered hgen hattempt ⟨r, hr, ho⟩⟩
        refine ⟨attempt_sound hgen (List.Subset.refl _) h.sound hattempt, ?_, ?_⟩
        · intro p n hn
          have hold : s.committed p = some n → n ≤ (s.log p).length ∧
              ∀ k < n, Handled lib cfg { s with store := store } p k := by
            intro hn
            obtain ⟨hle, hall⟩ := h.committed p n hn
            exact ⟨hle, fun k hk => hkept p k (hall k hk)⟩
          replace hn : commit fate run.position s.committed p = some n := hn
          unfold commit at hn
          split at hn
          · cases hpos : run.position p with
            | none =>
              rw [hpos] at hn
              exact hold hn
            | some m =>
              rw [hpos] at hn
              cases hn
              exact hnow p n hpos
          · exact hold hn
        · intro run' hrun'
          replace hrun' : (if fate.commits && !final then
              some { run with buffers := [], pending := 0 } else none) = some run' := hrun'
          split at hrun'
          · cases hrun'
            refine ⟨fun b hb => absurd hb List.not_mem_nil, ?_⟩
            intro p n hn
            obtain ⟨hle, hall⟩ := hnow p n hn
            exact ⟨hle, fun k hk => (hall k hk).mono fun o ho => Or.inl ho⟩
          · cases hrun'
    · exact h

theorem Inv.step (h : Inv lib cfg s) {e : Event} (hcov : Covered lib cfg s e) :
    Inv lib cfg (s.step lib cfg e) := by
  cases e with
  | append p r => exact h.append p r
  | start => exact h.start
  | assign p => exact h.assign hcov
  | poll batch clock => exact h.poll batch clock
  | flush final elapsed fate => exact h.flush final elapsed fate
  | crash => exact h.crash

end Steps

/-! ### Copies -/

/-- The coordinates that an observation names as its source. -/
def coordinatesOf (doc : Json) : Option Coordinates := do
  let d ← doc.obj?
  let ref ← (← d.get? "source_ref").obj?
  match ref.get? "topic", ref.get? "partition", ref.get? "offset" with
  | some (.str topic), some (.int partition), some (.int offset) =>
    some ⟨topic, partition.toNat, offset.toNat⟩
  | _, _, _ => none

def obsIdOf (doc : Json) : Option String := do
  let d ← doc.obj?
  (← d.get? "obs_id").str?

/-- The observation that a row carries. -/
def observationOf (row : Row) : Option Json :=
  match row.lookup "observation" with
  | some (.json (.str text)) => loads text.toList
  | _ => none

/-- The observations that are durable, in rows and as documents. -/
def Store.observations (s : Store) : List Json :=
  s.inserted.filterMap (fun x => observationOf x.2) ++ s.published.map Prod.snd

section Copies
variable {s : State} {o : Observed}

theorem document_get? {key : String} {v : Json} {et : EventType} {eve fields payload : Dict}
    {tenant sensor obsId ingested rawHash : String}
    (h : Dict.get? (document c et eve tenant sensor obsId ingested rawHash fields payload) key =
      some v) :
    ∃ d, sortKeys (.obj (document c et eve tenant sensor obsId ingested rawHash fields payload)) =
      .obj d ∧ Dict.get? d key = some (sortKeys v) :=
  get?_sortKeys (by simp [document]) h

theorem Made.coordinatesOf_eq (h : Made lib c o) : coordinatesOf (sortKeys o.doc) = some c := by
  obtain ⟨et, eve, tenant, sensor, obsId, ingested, rawHash, fields, payload, hdoc, -⟩ := h.doc
  obtain ⟨d, hd, href⟩ := @document_get? c "source_ref" (sourceRef c et tenant obsId rawHash) et eve
    fields payload tenant sensor obsId ingested rawHash rfl
  have hmember : ∀ {key : String} {v : Json},
      Dict.get? ((sourceRef c et tenant obsId rawHash).obj?.getD []) key = some v →
      ∃ ms, sortKeys (sourceRef c et tenant obsId rawHash) = .obj ms ∧
        Dict.get? ms key = some (sortKeys v) :=
    fun h => get?_sortKeys (by simp) h
  obtain ⟨ms, hms, htopic⟩ := @hmember "topic" (.str c.topic) rfl
  obtain ⟨ms₂, hms₂, hpartition⟩ := @hmember "partition" (.int c.partition) rfl
  obtain ⟨ms₃, hms₃, hoffset⟩ := @hmember "offset" (.int c.offset) rfl
  obtain rfl : ms = ms₂ := Json.obj.inj (hms.symm.trans hms₂)
  obtain rfl : ms = ms₃ := Json.obj.inj (hms.symm.trans hms₃)
  simp only [sortKeys] at htopic hpartition hoffset
  simp [coordinatesOf, hdoc, hd, href, hms, obj?, htopic, hpartition, hoffset]

theorem Made.obsIdOf_eq (h : Made lib c o) : ∃ tenant sensor obsId,
    obsIdOf (sortKeys o.doc) = some obsId ∧ lib.obsId c tenant sensor = .ok obsId := by
  obtain ⟨et, eve, tenant, sensor, obsId, ingested, rawHash, fields, payload, hdoc, hid⟩ := h.doc
  obtain ⟨d, hd, hmember⟩ := @document_get? c "obs_id" (.str obsId) et eve
    fields payload tenant sensor obsId ingested rawHash rfl
  refine ⟨tenant, sensor, obsId, ?_, hid⟩
  rw [obsIdOf, hdoc, hd]
  simp [obj?, hmember, sortKeys, str?]

theorem Made.observationOf_eq (h : Made lib c o) (now : LocalTime) :
    observationOf (ts lib now o.row) = some (sortKeys o.doc) := by
  rw [observationOf, ts_lookup now o.row (by decide), h.encoded]
  simp only [String.toList_ofList]
  exact loads_compact _

/-- Every durable observation is the one of the occurrence that it names. -/
theorem Store.Sound.observations (h : s.store.Sound lib cfg s.log) {d : Json}
    (hd : d ∈ s.store.observations) : ∃ c o, Observes lib cfg s.log c o ∧ d = sortKeys o.doc := by
  rcases List.mem_append.mp hd with hd | hd
  · obtain ⟨x, hx, hobs⟩ := List.mem_filterMap.mp hd
    obtain ⟨c, o, now, ho, rfl⟩ := h.inserted x hx
    rw [ho.made.observationOf_eq now] at hobs
    exact ⟨c, o, ho, (Option.some.inj hobs).symm⟩
  · obtain ⟨x, hx, rfl⟩ := List.mem_map.mp hd
    exact h.published x hx

theorem Observes.unique {o' : Observed} (h : Observes lib cfg log c o)
    (h' : Observes lib cfg log c o') : o = o' := by
  obtain ⟨r, hr, ho⟩ := h
  obtain ⟨r', hr', ho'⟩ := h'
  obtain rfl := Option.some.inj (hr.symm.trans hr')
  exact Option.some.inj (Except.ok.inj (ho.symm.trans ho'))

end Copies

/-! ### At least once -/

structure AtLeastOnce (lib : Library) (cfg : Config) (s : State) : Prop where
  handled : ∀ p n, s.committed p = some n → ∀ k < n, Handled lib cfg s p k
  /-- every copy is one of a record of the bus -/
  source : ∀ d ∈ s.store.observations, ∃ c o,
    coordinatesOf d = some c ∧ Observes lib cfg s.log c o ∧ d = sortKeys o.doc
  /-- the copies of a record are the same, the rows and the observations -/
  rows : ∀ x ∈ s.store.inserted, ∀ y ∈ s.store.inserted,
    (observationOf x.2).bind coordinatesOf = (observationOf y.2).bind coordinatesOf → x = y
  same : ∀ d ∈ s.store.observations, ∀ d' ∈ s.store.observations,
    coordinatesOf d = coordinatesOf d' → d = d'
  /-- two records have two ids -/
  distinct : ∀ d ∈ s.store.observations, ∀ d' ∈ s.store.observations,
    coordinatesOf d ≠ coordinatesOf d' → obsIdOf d ≠ obsIdOf d'

theorem Inv.atLeastOnce {s : State} (hsha : Function.Injective lib.sha256)
    (h : Inv lib cfg s) : AtLeastOnce lib cfg s := by
  constructor
  · exact fun p n hn => (h.committed p n hn).2
  · intro d hd
    obtain ⟨c, o, ho, rfl⟩ := h.sound.observations hd
    exact ⟨c, o, ho.made.coordinatesOf_eq, ho, rfl⟩
  · intro x hx y hy hxy
    obtain ⟨c, o, now, ho, rfl⟩ := h.sound.inserted x hx
    obtain ⟨c', o', now', ho', rfl⟩ := h.sound.inserted y hy
    simp only [ho.made.observationOf_eq, ho'.made.observationOf_eq, Option.bind_some,
      ho.made.coordinatesOf_eq, ho'.made.coordinatesOf_eq, Option.some.injEq] at hxy
    subst hxy
    obtain rfl := ho.unique ho'
    rw [ho.made.ts_eq now now']
  · intro d hd d' hd' hdd
    obtain ⟨c, o, ho, rfl⟩ := h.sound.observations hd
    obtain ⟨c', o', ho', rfl⟩ := h.sound.observations hd'
    rw [ho.made.coordinatesOf_eq, ho'.made.coordinatesOf_eq] at hdd
    obtain rfl := Option.some.inj hdd
    rw [ho.unique ho']
  · intro d hd d' hd' hdd hid
    obtain ⟨c, o, ho, rfl⟩ := h.sound.observations hd
    obtain ⟨c', o', ho', rfl⟩ := h.sound.observations hd'
    obtain ⟨tenant, sensor, id, hobs, hobsId⟩ := ho.made.obsIdOf_eq
    obtain ⟨tenant', sensor', id', hobs', hobsId'⟩ := ho'.made.obsIdOf_eq
    rw [hobs, hobs'] at hid
    obtain rfl := Option.some.inj hid
    apply hdd
    rw [ho.made.coordinatesOf_eq, ho'.made.coordinatesOf_eq,
      Library.obsId_injective hsha hobsId hobsId']

variable (lib cfg) in
/-- **At least once.** In every state of a run in which no process starts
    behind records that have not been handled, every record in front of a
    committed offset was rejected, or inserted and published. -/
theorem at_least_once (hsha : Function.Injective lib.sha256)
    (log : Partition → List (Option Record)) (es : List Event)
    (h : Meets (State.step lib cfg) (Covered lib cfg) (.initial log) es) :
    AtLeastOnce lib cfg (Machine.run (State.step lib cfg) (.initial log) es) :=
  (run_invariant_of_meets (fun _ _ hcov hinv => hinv.step hcov) Inv.initial h).atLeastOnce hsha

/-! ### A run -/

/-- Noon of 2026-09-28, one second later, and the first date of the calendar
    in the east of Greenwich. -/
def demoLibrary : Library where
  repr _ := ""
  intOfText _ := none
  truncate _ := 0
  reprRoom := 900
  dumpsRoom := 900
  copyRoom := 300
  dumpsRoom_pos := by decide
  fromisoformat s :=
    if s = "2026-09-28T12:00:00+00:00" then some ⟨63926193600000000, some 0⟩
    else if s = "2026-09-28T12:00:01+00:00" then some ⟨63926193601000000, some 0⟩
    else if s = "0001-01-01T00:00:00+01:00" then some ⟨0, some 3600000000⟩ else none
  isoformat t :=
    if t = 63926193601000000 then "2026-09-28T12:00:01+00:00" else "2026-09-28T12:00:00+00:00"
  fromtimestamp ms := some ((62135596800000 + ms) * 1000)
  sha256 := String.ofList

def Config.demo : Config := ⟨"a", "s", 3, 500, .latest⟩

/-- A flow, appended to the log a second after it was seen. -/
def Record.flow : Record where
  value := some (.obj [("event_type", .str "flow"), ("timestamp", .str "2026-09-28T12:00:00Z"),
    ("src_ip", .str "10.0.0.1"), ("flow", .obj [("bytes_toserver", .int 1)])])
  timestampType := 1
  timestamp := some 1790596801000

def flows : Partition := ("suricata.flow.v1", 0)

/-- The process takes the record in, and dies before the first flush; the next
    one starts behind the record and commits. -/
def firstBatchLost : List Event :=
  [.start, .assign flows, .append flows (some .flow), .poll [(flows, 1)] fun _ => ⟨0, none⟩,
    .crash, .start, .assign flows, .flush true false ⟨0, fun _ => false, fun _ => false, true⟩]

theorem observe_flow : ∃ o, observe demoLibrary .demo (occurrence flows 0) .flow = .ok (some o) :=
  ⟨_, rfl⟩

/-- The first record is behind the committed offset, and nowhere else. -/
theorem first_batch_lost : ¬ AtLeastOnce demoLibrary .demo
    (Machine.run (State.step demoLibrary .demo) (.initial fun _ => []) firstBatchLost) := by
  intro h
  obtain hrej | ⟨o, -, ⟨now, hrow⟩, -⟩ := h.handled flows 1 rfl 0 (by decide) .flow rfl
  · obtain ⟨o, ho⟩ := observe_flow
    rcases hrej with hnone | ⟨m, hm⟩
    · cases ho.symm.trans hnone
    · cases ho.symm.trans hm
  · cases hrow

/-- The process starts on an empty log, and lives. -/
def firstBatchKept : List Event :=
  [.start, .assign flows, .append flows (some .flow), .poll [(flows, 1)] fun _ => ⟨0, none⟩,
    .flush true false ⟨9, fun _ => false, fun _ => false, true⟩]

theorem first_batch_kept : AtLeastOnce demoLibrary .demo
    (Machine.run (State.step demoLibrary .demo) (.initial fun _ => []) firstBatchKept) := by
  refine at_least_once demoLibrary .demo (fun _ _ h => String.ofList_injective h) _ _ ?_
  have hother : ∀ {s : State} {e : Event}, (∀ p, e ≠ .assign p) →
      Covered demoLibrary .demo s e := fun he p h => absurd h (he p)
  refine .cons (hother (by simp)) (.cons ?_ (.cons (hother (by simp)) (.cons (hother (by simp))
    (.cons (hother (by simp)) (.nil _ _ _)))))
  intro p hp _ _ k hk
  cases hp
  exact absurd hk (Nat.not_lt_zero k)

end Normalizer
