import CernityNdr.Forwarder.Ledger

/-! # The Durable Sink

    The model of `DurableSink`: retries, dead-lettering and de-duplication
    around an inner adapter that delivers records to a receiver.

    An operation changes the memory of the process (`Sink`) and does things
    that last: it hands records to the adapter, appends to the ledger,
    appends to or rewrites the dead-letter file. These are listed in the
    order in which they happen (`Effect`); the files are what the effects
    have made of them, and a crash is an end of the list before its last
    effect. -/

namespace FindingsForwarder

/-! ### Records in delivery -/

/-- A projected record on its way to the sink `name`, with its obligation. -/
structure Item (name : String) where
  record : Json.Dict
  key : Key
  ok : recordKey record name = .ok key

/-- `export_record` and `_record_key` for one record of a batch. -/
def prepare (name : String) (record : Json.Dict) : Except ExportError (Item name) :=
  match exportRecord record with
  | .error e => .error e
  | .ok f =>
    match h : recordKey f name with
    | .error e => .error e
    | .ok k => .ok ⟨f, k, h⟩

/-- `record_kind` of a projected record, which does not raise. -/
def Item.kind {name : String} (f : Item name) : RecordKind :=
  match recordKind f.record with
  | .ok kind => kind
  | .error _ => .finding

/-- The keys of some items. -/
def keysOf {name : String} (items : List (Item name)) : List Key := items.map Item.key

/-! ### The inner adapter -/

/-- What an attempt comes to: it raises, or it returns the records that were
    not accepted. -/
inductive Answer (name : String)
  | raised (err : String)
  | returned (failed : List (Item name))

namespace Answer

/-- The records that are still unresolved. -/
def failed {name : String} (given : List (Item name)) : Answer name → List (Item name)
  | .raised _ => given
  | .returned failed => failed

def error {name : String} : Answer name → String
  | .raised err => err
  | .returned _ => "per-item rejection"

end Answer

/-- An inner adapter, with the receiver behind it: any answer, depending on all
    that happened before. The delivery contract is that the records it returns
    are among those it was given. -/
structure Inner (name : String) (σ : Type) where
  attempt : σ → List (Item name) → σ × Answer name
  contract : ∀ s given failed, (attempt s given).2 = .returned failed → failed.Subperm given

/-! ### State and effects -/

structure SinkConfig where
  name : String
  retries : Int
  worker : String
  /-- whether `self._sleep(self._backoff * (2 ** attempt))` returns: it raises a
      `ValueError` for a negative backoff, and an `OverflowError` from attempt
      1024 on at the latest -/
  waits : Nat → Bool

/-- The memory of the process, and where the receiver stands. -/
structure Sink (σ : Type) where
  outcomes : Outcomes
  delivered : Nat
  deadLettered : Nat
  adapter : σ

/-- What an operation does that lasts. -/
inductive Effect (name : String)
  /-- the adapter was given records and did not accept `failed` -/
  | attempt (given failed : List (Item name))
  /-- rows are appended to the ledger -/
  | ledger (rows : List Json.Dict)
  /-- records are appended to the dead-letter file -/
  | deadLetter (items : List (Item name)) (err : String)
  /-- the dead-letter file is truncated and rewritten -/
  | rewrite (entries : List Json.Dict)
  /-- the ledger is replaced -/
  | compact (rows : List Json.Dict)

variable {σ : Type} (cfg : SinkConfig) (inner : Inner cfg.name σ)

/-- `self._ledger.record` and `self._ledger.transition` for records in
    delivery. -/
def Sink.settle (sink : Sink σ) (items : List (Item cfg.name)) (outcome : Outcome)
    (note : Option String) (ts : Nat → String) : Sink σ × List (Effect cfg.name) :=
  -- both return at once when there is nothing to record
  if items.isEmpty then (sink, [])
  else
    let c : Call := ⟨items.map Item.record, cfg.name, outcome, cfg.worker, note, ts⟩
    let w := c.write sink.outcomes
    ({ sink with outcomes := w.outcomes }, [.ledger w.rows])

/-! ### Delivery -/

/-- The records of a batch whose obligations are open, each obligation once. -/
def selectFresh {name : String} (outcomes : Outcomes) (items : List (Item name)) :
    List (Item name) :=
  items.foldl (fun fresh f =>
    -- the fresh keys are `seen`
    if f.key ∉ keysOf fresh ∧ (outcomes.terminal f.key).isNone then fresh ++ [f] else fresh) []

/-- What an attempt did not return as failed. The pending records have distinct
    keys, so that comparing keys compares objects. -/
def acceptedOf {name : String} (pending failed : List (Item name)) : List (Item name) :=
  pending.filter fun f => f.key ∉ keysOf failed

/-- An attempt, and the ledger rows for what it delivered. -/
def Sink.attempt (sink : Sink σ) (pending : List (Item cfg.name)) (note : Option String)
    (ts : Nat → String) : Sink σ × List (Effect cfg.name) × Answer cfg.name :=
  let (adapter, answer) := inner.attempt sink.adapter pending
  let failed := answer.failed pending
  let accepted := acceptedOf pending failed
  let (sink, recorded) := ({ sink with adapter } : Sink σ).settle cfg accepted asDelivered note ts
  ({ sink with delivered := sink.delivered + accepted.length },
    .attempt pending failed :: recorded, answer)

/-- The records that are left after the last attempt. -/
def Sink.deadLetter (sink : Sink σ) (pending : List (Item cfg.name)) (err : String)
    (ts : Nat → String) : Sink σ × List (Effect cfg.name) :=
  let (sink, recorded) := sink.settle cfg pending asDeadLettered none ts
  ({ sink with deadLettered := sink.deadLettered + pending.length },
    .deadLetter pending err :: recorded)

/-- What `emit_batch` leaves when it ends. -/
structure Emitted (σ : Type) (name : String) where
  sink : Sink σ
  effects : List (Effect name)
  /-- a wait between two attempts raised -/
  raised : Bool

/-- The attempts of `emit_batch`, of which `left` are left. The clock is given
    for each ledger call and each record of the call. -/
def emitLoop (ts : Nat → Nat → String) :
    Nat → Sink σ → List (Item cfg.name) → Emitted σ cfg.name
  -- the range of attempts is empty, or has run out
  | 0, sink, _ => ⟨sink, [], false⟩
  | left + 1, sink, pending =>
    let (sink, tried, answer) := sink.attempt cfg inner pending none (ts (left + 1))
    let failed := answer.failed pending
    if failed.isEmpty then ⟨sink, tried, false⟩
    else if left = 0 then
      -- attempt >= retries
      let (sink, dead) := sink.deadLetter cfg failed answer.error (ts 0)
      ⟨sink, tried ++ dead, false⟩
    else if cfg.waits (cfg.retries.toNat - left) then
      let rest := emitLoop ts left sink failed
      { rest with effects := tried ++ rest.effects }
    else ⟨sink, tried, true⟩

/-- `emit_batch`. -/
def Sink.emitBatch (sink : Sink σ) (batch : List Json.Dict) (ts : Nat → Nat → String) :
    Except ExportError (Emitted σ cfg.name) := do
  let items ← batch.mapM (prepare cfg.name)
  let fresh := selectFresh sink.outcomes items
  pure (if fresh.isEmpty then ⟨sink, [], false⟩
    else emitLoop cfg inner ts (cfg.retries + 1).toNat sink fresh)

/-! ### Replay -/

/-- The entries of the dead-letter file. A line that does not decode makes the
    replay raise. -/
def dlqEntries (file : List Char) : Option (List Json) :=
  ((Text.lines file).filter fun line => Text.strip line ≠ []).mapM Json.loads

/-- What an entry holds. -/
inductive Held (name : String)
  /-- a record without members, or none -/
  | nothing
  | item (f : Item name)
  /-- something that no key can be computed for -/
  | malformed

/-- What an entry holds, when it is a record. -/
def heldRecord (name : String) (record : Json) : Held name :=
  match record with
  | .obj record =>
    match h : recordKey record name with
    | .ok k => .item ⟨record, k, h⟩
    | .error _ => .malformed
  | _ => .malformed

/-- `_dlq_record` of an entry. -/
def held (name : String) (entry : Json) : Held name :=
  match entry with
  | .obj entry => if (dlqRecord entry).truthy then heldRecord name (dlqRecord entry) else .nothing
  | _ => .malformed

/-- The sink, what lasts, how many entries were delivered, and whether the loop
    ran to its end. -/
structure Replayed (σ : Type) (name : String) where
  sink : Sink σ
  effects : List (Effect name)
  count : Nat
  finished : Bool

def isDelivered (outcomes : Outcomes) (k : Key) : Bool :=
  (outcomes.terminal k).any fun o => o.1.str? = some "delivered"

/-- The loop of `replay` over the entries. -/
def replayLoop (ts : Nat → Nat → String) (sink : Sink σ) : List Json → Replayed σ cfg.name
  | [] => ⟨sink, [], 0, true⟩
  | entry :: entries =>
    match held cfg.name entry with
    -- the key of the record raises, and the replay with it
    | .malformed => ⟨sink, [], 0, false⟩
    | .nothing => replayLoop ts sink entries
    | .item f =>
      -- delivered in the meantime
      if isDelivered sink.outcomes f.key then replayLoop ts sink entries
      else
        let (sink, tried, answer) :=
          sink.attempt cfg inner [f] (some "replay") (ts entries.length)
        let rest := replayLoop ts sink entries
        { rest with
          effects := tried ++ rest.effects
          count := rest.count + if (answer.failed [f]).isEmpty then 1 else 0 }

/-- The entries that are still not delivered. An entry without a record is
    looked up as the empty record. -/
def keptEntries (outcomes : Outcomes) (entries : List Json) : List Json.Dict :=
  entries.filterMap fun entry =>
    let f := match held cfg.name entry with
      | .nothing => heldRecord cfg.name (.obj [])
      | f => f
    match f with
    | .item f => if isDelivered outcomes f.key then none else entry.obj?
    | _ => entry.obj?

/-- `replay` with the file as it is found. -/
def Sink.replay (sink : Sink σ) (file : List Char) (ts : Nat → Nat → String) :
    Sink σ × List (Effect cfg.name) :=
  match dlqEntries file with
  | none => (sink, [])
  | some entries =>
    let r := replayLoop cfg inner ts sink entries
    -- the file is only rewritten when something was delivered
    if r.finished ∧ 0 < r.count then
      (r.sink, r.effects ++ [.rewrite (keptEntries cfg r.sink.outcomes entries)])
    else (r.sink, r.effects)

/-! ### Maintenance -/

/-- `compact_ledger`. -/
def Sink.compactLedger (sink : Sink σ) (file : List Char) (retain : Json.Dict → Bool) :
    Sink σ × List (Effect cfg.name) :=
  match compact retain file with
  | none => (sink, [])
  | some (rows, outcomes) => ({ sink with outcomes }, [.compact rows])

/-- `record_suppressed`. -/
def Sink.recordSuppressed (sink : Sink σ) (findings : List Json.Dict) (ts : Nat → String) :
    Sink σ × List (Effect cfg.name) × Option ExportError :=
  let c : Call := ⟨findings, "(withheld)", asSuppressed, cfg.worker, none, ts⟩
  let w := c.write sink.outcomes
  ({ sink with outcomes := w.outcomes }, [.ledger w.rows], w.raised)

/-! ### What settling does -/

theorem mem_keysOf {name : String} {items : List (Item name)} {k : Key} :
    k ∈ keysOf items ↔ ∃ f ∈ items, f.key = k := List.mem_map

theorem key_mem_keysOf {name : String} {items : List (Item name)} {f : Item name} (h : f ∈ items) :
    f.key ∈ keysOf items := List.mem_map_of_mem h

@[simp] theorem keysOf_nil {name : String} : keysOf ([] : List (Item name)) = [] := rfl

@[simp] theorem keysOf_cons {name : String} (f : Item name) (items : List (Item name)) :
    keysOf (f :: items) = f.key :: keysOf items := rfl

/-- `record` writes a row for each record whose obligation is open,
    `transition` for each record. -/
theorem writeLoop_keys {c : Call} (items : List (Item c.dest)) (i : Nat) (outcomes : Outcomes)
    (h : c.note ≠ none ∨ ((keysOf items).Nodup ∧ ∀ k ∈ keysOf items, k ∉ outcomes.keys)) :
    (writeLoop c i outcomes (items.map Item.record)).rows.map ledgerKey = keysOf items := by
  induction items generalizing i outcomes with
  | nil => rfl
  | cons f items ih =>
    -- this record is written: a transition writes always, and its key is open
    have hwrite : ¬ (c.note = none ∧ f.key ∈ outcomes.keys) := by
      rintro ⟨hnote, hmem⟩
      rcases h with h | ⟨-, hopen⟩
      · exact h hnote
      · exact hopen f.key (by simp) hmem
    obtain ⟨g, hg⟩ := exists_export f.ok
    obtain ⟨kind, identity, revision, hid, -⟩ := recordIdentity_of_export hg
    have hfields := ledgerFields_eq hg hid
    -- its key is not one of the keys behind it, so these stay open
    have hrest : c.note ≠ none ∨ ((keysOf items).Nodup ∧
        ∀ k ∈ keysOf items, k ∉ (outcomes.put (f.key, c.outcome)).keys) := by
      rcases h with h | ⟨hnodup, hopen⟩
      · exact Or.inl h
      · rw [keysOf_cons, List.nodup_cons] at hnodup
        refine Or.inr ⟨hnodup.2, ?_⟩
        intro k hk hmem
        obtain ⟨entry, hentry⟩ := Registry.mem_keys.mp hmem
        rw [Registry.get?_put] at hentry
        by_cases heq : f.key = k
        · exact hnodup.1 (heq ▸ hk)
        · rw [if_neg heq] at hentry
          exact hopen k (by simp [hk]) (Registry.mem_keys.mpr ⟨entry, hentry⟩)
    rw [List.map_cons]
    unfold writeLoop
    simp only [f.ok, if_neg hwrite, hfields, List.map_cons, keysOf_cons]
    rw [ih (i + 1) _ hrest, ledgerKey_ledgerRow f.ok hfields]

/-- The index knows a key exactly when it has an outcome for it. -/
theorem Outcomes.terminal_eq_none {outcomes : Outcomes} {k : Key} :
    outcomes.terminal k = none ↔ k ∉ outcomes.keys := by
  unfold Outcomes.terminal
  rw [Option.map_eq_none_iff, Registry.mem_keys]
  cases outcomes.get? k <;> simp

/-- **What settling leaves**: the outcome for every settled record, and
    everything else as it was. -/
theorem Sink.settle_terminal (cfg : SinkConfig) (sink : Sink σ) (items : List (Item cfg.name))
    (o : Outcome) (note : Option String) (ts : Nat → String)
    (h : note ≠ none ∨
      ((keysOf items).Nodup ∧ ∀ k ∈ keysOf items, sink.outcomes.terminal k = none)) (k : Key) :
    (sink.settle cfg items o note ts).1.outcomes.terminal k =
      if k ∈ keysOf items then some o else sink.outcomes.terminal k := by
  unfold Sink.settle
  by_cases hnil : items.isEmpty = true
  · rw [if_pos hnil, List.isEmpty_iff.mp hnil]
    rfl
  · rw [if_neg hnil]
    dsimp only
    -- one row for each record, so the keys of the rows are those of the records
    have hkeys : ((Call.write ⟨items.map Item.record, cfg.name, o, cfg.worker, note, ts⟩
        sink.outcomes).rows).map ledgerKey = keysOf items :=
      writeLoop_keys (c := ⟨items.map Item.record, cfg.name, o, cfg.worker, note, ts⟩) items 0
        sink.outcomes (h.imp id (fun h =>
          ⟨h.1, fun k hk => Outcomes.terminal_eq_none.mp (h.2 k hk)⟩))
    rw [Call.write_terminal, hkeys]

/-- Settling changes nothing but the index. -/
theorem Sink.settle_counters (cfg : SinkConfig) (sink : Sink σ) (items : List (Item cfg.name))
    (o : Outcome) (note : Option String) (ts : Nat → String) :
    (sink.settle cfg items o note ts).1.delivered = sink.delivered ∧
      (sink.settle cfg items o note ts).1.deadLettered = sink.deadLettered ∧
      (sink.settle cfg items o note ts).1.adapter = sink.adapter := by
  unfold Sink.settle
  split <;> exact ⟨rfl, rfl, rfl⟩

/-- Settling appends to the ledger, if it does anything: rows of its outcome
    for its records. -/
theorem Sink.settle_effects (cfg : SinkConfig) (sink : Sink σ) (items : List (Item cfg.name))
    (o : Outcome) (note : Option String) (ts : Nat → String) :
    ((sink.settle cfg items o note ts).2 = [] ∧
      (sink.settle cfg items o note ts).1.outcomes = sink.outcomes) ∨
    ∃ rows, (sink.settle cfg items o note ts).2 = [.ledger rows] ∧
      (sink.settle cfg items o note ts).1.outcomes = sink.outcomes.learnAll rows ∧
      ∀ row ∈ rows, row.get "outcome" = o.1 ∧ Json.Tagged row ∧ ledgerKey row ∈ keysOf items := by
  unfold Sink.settle
  by_cases hnil : items.isEmpty = true
  · rw [if_pos hnil]
    exact Or.inl ⟨rfl, rfl⟩
  · rw [if_neg hnil]
    refine Or.inr ⟨_, rfl, writeLoop_outcomes .., ?_⟩
    intro row hrow
    obtain ⟨record, hrecord, hfor⟩ := writeLoop_rows _ _ _ _ row hrow
    obtain ⟨f, hf, rfl⟩ := List.mem_map.mp hrecord
    refine ⟨hfor.outcome, hfor.tagged, ?_⟩
    -- the key of an item is the key that its row is filed under
    have hkey : f.key = ledgerKey row := Except.ok.inj (f.ok.symm.trans hfor.key)
    rw [← hkey]
    exact key_mem_keysOf hf

theorem Sink.settle_ledger (cfg : SinkConfig) (sink : Sink σ) (items : List (Item cfg.name))
    (o : Outcome) (note : Option String) (ts : Nat → String) :
    ∀ e ∈ (sink.settle cfg items o note ts).2, ∃ rows, e = .ledger rows := by
  intro e he
  rcases Sink.settle_effects cfg sink items o note ts with ⟨h, -⟩ | ⟨rows, h, -⟩
  · rw [h] at he
    cases he
  · rw [h] at he
    exact ⟨rows, List.mem_singleton.mp he⟩

end FindingsForwarder
