import Mathlib.Data.List.FinRange
import CernityNdr.Forwarder.Loop
import CernityNdr.Forwarder.Replay

/-! # Durable Sinks behind One Adapter

    `DurableSink` with its files, when a write of the ledger or of the
    dead-letter file may raise, and the adapter that `get_adapter` makes of
    several of them for the loop of `Loop`.

    The attempts are those of `Sink`, up to the write or the wait that raises. What the
    index has noted by then it keeps, and nothing is counted for the outcomes
    that the write was to settle.

    * `emitLoopOn_none`: without a fault this is `emitLoop`.
    * `emitLoopOn_first`: when the first write raises, nothing is counted. -/

namespace FindingsForwarder

variable {σ : Type}

/-! ### Writes that raise -/

/-- A write that raises in a call of a sink. -/
structure WriteFault where
  /-- the writes of outcomes that succeed before -/
  after : Nat
  /-- it is the dead-letter file that cannot be written -/
  dlq : Bool
  /-- records that the index has noted -/
  noted : Nat
  /-- characters that are in the file -/
  torn : Nat

/-- The fault of the next write of outcomes. -/
def firing (fault : Option WriteFault) : Option WriteFault := fault.filter fun f => f.after = 0

/-- The fault that is ahead after a write that succeeded. -/
def WriteFault.next (f : WriteFault) : WriteFault := { f with after := f.after - 1 }

/-- How far a call has come. -/
structure Progress (σ : Type) where
  sink : Sink σ
  disk : Disk
  /-- the fault that is still ahead -/
  fault : Option WriteFault
  raised : Bool

section Delivery

variable (cfg : SinkConfig) (inner : Inner cfg.name σ)

/-- A ledger call that raises. -/
def Progress.settleTorn (p : Progress σ) (items : List (Item cfg.name)) (outcome : Outcome)
    (note : Option String) (ts : Nat → String) (f : WriteFault) : Progress σ :=
  let write (items : List (Item cfg.name)) : Written :=
    Call.write ⟨items.map Item.record, cfg.name, outcome, cfg.worker, note, ts⟩ p.sink.outcomes
  let ledger : Effect cfg.name := .ledger (write items).rows
  ⟨{ p.sink with outcomes := (write (items.take f.noted)).outcomes }, p.disk.tear f.torn ledger,
    none, true⟩

/-- An attempt, and the write for what it delivered. -/
def attemptOn (pending : List (Item cfg.name)) (note : Option String) (ts : Nat → String)
    (p : Progress σ) : Progress σ × Answer cfg.name :=
  let (adapter, answer) := inner.attempt p.sink.adapter pending
  let accepted := acceptedOf pending (answer.failed pending)
  -- nothing is written for no record
  match if accepted.isEmpty then none else firing p.fault with
  | some f =>
    (({ p with sink := { p.sink with adapter } } : Progress σ).settleTorn cfg accepted asDelivered
      note ts f, answer)
  | none =>
    let (sink, effects, _) := p.sink.attempt cfg inner pending note ts
    (⟨sink, effects.foldl Disk.apply p.disk,
      if accepted.isEmpty then p.fault else p.fault.map WriteFault.next, false⟩, answer)

/-- The records that are left after the last attempt. -/
def deadLetterOn (pending : List (Item cfg.name)) (err : String) (ts : Nat → String)
    (p : Progress σ) : Progress σ :=
  let entries : Effect cfg.name := .deadLetter pending err
  match firing p.fault with
  | some f =>
    if f.dlq then ⟨p.sink, p.disk.tear f.torn entries, none, true⟩
    else
      ({ p with disk := p.disk.apply entries } : Progress σ).settleTorn cfg pending asDeadLettered
        none ts f
  | none =>
    let (sink, effects) := p.sink.deadLetter cfg pending err ts
    ⟨sink, effects.foldl Disk.apply p.disk, p.fault.map WriteFault.next, false⟩

/-- How a call ends after its last write. -/
def Progress.reply (p : Progress σ) : Reply := if p.raised then .durabilityError else .returned

/-- `emitLoop` when writes may raise. -/
def emitLoopOn (ts : Nat → Nat → String) :
    Nat → Progress σ → List (Item cfg.name) → Progress σ × Reply
  | 0, p, _ => (p, .returned)
  | left + 1, p, pending =>
    let (p, answer) := attemptOn cfg inner pending none (ts (left + 1)) p
    let failed := answer.failed pending
    if p.raised || failed.isEmpty then (p, p.reply)
    else if left = 0 then
      let p := deadLetterOn cfg failed answer.error (ts 0) p
      (p, p.reply)
    else if cfg.waits (cfg.retries.toNat - left) then emitLoopOn ts left p failed
    else (p, .raised)

/-- The loop of `replay` when writes may raise, with the number of entries that
    it delivered. An entry that no key can be computed for makes it raise. -/
def replayLoopOn (ts : Nat → Nat → String) : Progress σ → List Json → Progress σ × Nat
  | p, [] => (p, 0)
  | p, entry :: entries =>
    match held cfg.name entry with
    | .malformed => ({ p with raised := true }, 0)
    | .nothing => replayLoopOn ts p entries
    | .item f =>
      if isDelivered p.sink.outcomes f.key then replayLoopOn ts p entries
      else
        let (p, answer) := attemptOn cfg inner [f] (some "replay") (ts entries.length) p
        if p.raised then (p, 0)
        else
          let (p, count) := replayLoopOn ts p entries
          (p, count + if (answer.failed [f]).isEmpty then 1 else 0)

end Delivery

/-! ### Channels -/

/-- A sink as it is configured. -/
structure Wiring (σ : Type) where
  name : String
  retries : Int
  waits : Nat → Bool
  inner : Inner name σ

/-- What happens in one call of a sink. -/
structure CallEnv where
  fault : Option WriteFault
  ts : Nat → Nat → String

/-- A durable sink: the memory of the process and its files. -/
structure Channel (σ : Type) where
  /-- the epoch of the sink, and that of the process -/
  worker : String
  process : String
  sink : Sink σ
  disk : Disk
  /-- how often it was called -/
  calls : Nat

abbrev Wiring.cfg (w : Wiring σ) (worker : String) : SinkConfig :=
  ⟨w.name, w.retries, worker, w.waits⟩

namespace Channel

variable (w : Wiring σ) (env : Nat → CallEnv) (c : Channel σ)

/-- How far the call is when it begins. -/
def begin : Progress σ := ⟨c.sink, c.disk, (env c.calls).fault, false⟩

/-- What a call leaves. -/
def finish (p : Progress σ) : Channel σ :=
  { c with sink := p.sink, disk := p.disk, calls := c.calls + 1 }

/-- `emit_batch`. -/
def emitBatch (batch : List Json.Dict) : Channel σ × Reply :=
  match batch.mapM (prepare w.name) with
  | .error _ => (c.finish (c.begin env), .raised)
  | .ok items =>
    let fresh := selectFresh c.sink.outcomes items
    if fresh.isEmpty then (c.finish (c.begin env), .returned)
    else
      let (p, reply) := emitLoopOn (w.cfg c.worker) w.inner (env c.calls).ts (w.retries + 1).toNat
        (c.begin env) fresh
      (c.finish p, reply)

/-- `record_suppressed`. -/
def recordSuppressed (findings : List Json.Dict) : Channel σ × Reply :=
  let write (findings : List Json.Dict) : Written :=
    Call.write ⟨findings, "(withheld)", asSuppressed, c.process, none, (env c.calls).ts 0⟩
      c.sink.outcomes
  let ledger : Effect w.name := .ledger (write findings).rows
  let leaves (written : Written) (disk : Disk) : Channel σ :=
    { c with
      sink := { c.sink with outcomes := written.outcomes }
      disk
      calls := c.calls + 1 }
  match firing (env c.calls).fault with
  | some f =>
    (leaves (write (findings.take f.noted)) (c.disk.tear f.torn ledger), .durabilityError)
  | none =>
    (leaves (write findings) (c.disk.apply ledger),
      if (write findings).raised.isSome then .raised else .returned)

/-- `replay`. -/
def replay : Channel σ :=
  let cfg := w.cfg c.worker
  match dlqEntries c.disk.dlq with
  | none => c.finish (c.begin env)
  | some entries =>
    let (p, count) := replayLoopOn cfg w.inner (env c.calls).ts (c.begin env) entries
    let rewrite : Effect w.name := .rewrite (keptEntries cfg p.sink.outcomes entries)
    -- the file is only rewritten when something was delivered
    if p.raised || count = 0 then c.finish p
    else
      match firing p.fault with
      | some f => c.finish { p with disk := p.disk.tear f.torn rewrite }
      | none => c.finish { p with disk := p.disk.apply rewrite }

/-- `compact_ledger`. -/
def compactLedger (retain : Json.Dict → Bool) : Channel σ :=
  let (sink, effects) := c.sink.compactLedger (w.cfg c.worker) c.disk.ledger retain
  { c with sink, disk := effects.foldl Disk.apply c.disk }

end Channel

/-! ### The adapter -/

/-- The sinks of a process. -/
abbrev Sinks (k : Nat) (σ : Type) := Fin k → Channel σ

variable {k : Nat} (wiring : Fin k → Wiring σ) (env : Fin k → Nat → CallEnv)

/-- One of the sinks, as an adapter. -/
def channelAdapter (i : Fin k) : Adapter (Sinks k σ) :=
  let emitBatch := fun (s : Sinks k σ) (batch : List Json.Dict) =>
    let (c, reply) := (s i).emitBatch (wiring i) (env i) batch
    (Function.update s i c, reply)
  { recordSuppressed := some fun s findings =>
      let (c, reply) := (s i).recordSuppressed (wiring i) (env i) findings
      (Function.update s i c, reply)
    emitBatch := some emitBatch
    emit := fun s f => emitBatch s [f] }

/-- `get_adapter`: the only sink, or a `MultiAdapter` of all. -/
def getAdapter : Adapter (Sinks k σ) :=
  match List.finRange k with
  | [i] => channelAdapter wiring env i
  | is => Adapter.multi (is.map (channelAdapter wiring env))

/-! ### Without a fault -/

section Delivery

variable {cfg : SinkConfig} (inner : Inner cfg.name σ)

@[simp] theorem firing_none : firing none = none := rfl

theorem attemptOn_none {p : Progress σ} (h : p.fault = none) (pending : List (Item cfg.name))
    (note : Option String) (ts : Nat → String) :
    attemptOn cfg inner pending note ts p =
      (⟨(p.sink.attempt cfg inner pending note ts).1,
        (p.sink.attempt cfg inner pending note ts).2.1.foldl Disk.apply p.disk, none, false⟩,
        (p.sink.attempt cfg inner pending note ts).2.2) := by
  simp only [attemptOn, h, firing_none, Option.map_none, ite_self]
  rfl

theorem deadLetterOn_none {p : Progress σ} (h : p.fault = none) (pending : List (Item cfg.name))
    (err : String) (ts : Nat → String) :
    deadLetterOn cfg pending err ts p =
      ⟨(p.sink.deadLetter cfg pending err ts).1,
        (p.sink.deadLetter cfg pending err ts).2.foldl Disk.apply p.disk, none, false⟩ := by
  simp only [deadLetterOn, h, firing_none, Option.map_none]

/-- Without a fault the loop is the one in which every write succeeds. -/
theorem emitLoopOn_none (ts : Nat → Nat → String) (left : Nat) (p : Progress σ)
    (pending : List (Item cfg.name)) (h : p.fault = none) (hraised : p.raised = false) :
    emitLoopOn cfg inner ts left p pending =
      (⟨(emitLoop cfg inner ts left p.sink pending).sink,
        (emitLoop cfg inner ts left p.sink pending).effects.foldl Disk.apply p.disk, none, false⟩,
        if (emitLoop cfg inner ts left p.sink pending).raised then .raised else .returned) := by
  induction left generalizing p pending with
  | zero =>
    obtain ⟨sink, disk, fault, raised⟩ := p
    obtain rfl : fault = none := h
    obtain rfl : raised = false := hraised
    rfl
  | succ left ih =>
    rw [emitLoopOn, emitLoop]
    simp only [attemptOn_none inner h, Bool.false_or]
    split
    · rfl
    · split
      · rw [deadLetterOn_none rfl, List.foldl_append]
        rfl
      · split
        · rw [ih _ _ rfl rfl, List.foldl_append]
        · rfl

end Delivery

/-! ### What is counted -/

/-- The outcomes that a sink has counted. -/
def Sink.counted (sink : Sink σ) : Nat := sink.delivered + sink.deadLettered

section Counting

variable {cfg : SinkConfig} (inner : Inner cfg.name σ)

/-- Without a fault, and when every wait returns, every obligation that is pending
    is counted once. -/
theorem emitLoopOn_counts (ts : Nat → Nat → String) (left : Nat) {p : Progress σ}
    {pending : List (Item cfg.name)} (hfault : p.fault = none) (hraised : p.raised = false)
    (hwaits : ∀ n < left, cfg.waits (cfg.retries.toNat - (left - n)) = true)
    (hnodup : (keysOf pending).Nodup)
    (hopen : ∀ k ∈ keysOf pending, p.sink.outcomes.terminal k = none) :
    (emitLoopOn cfg inner ts (left + 1) p pending).1.sink.counted =
        p.sink.counted + pending.length ∧
      (emitLoopOn cfg inner ts (left + 1) p pending).2 = .returned := by
  rw [emitLoopOn_none inner ts (left + 1) p pending hfault hraised]
  have hreturned : (emitLoop cfg inner ts (left + 1) p.sink pending).raised = false :=
    (emitLoop_returned_iff inner ts left p.sink pending).mpr fun n hn hraises => by
      rw [hwaits n hn] at hraises
      cases hraises
  have hdone := emitLoop_spec inner ts left p.sink pending hnodup hopen hreturned
  have hsplit := hdone.split.length_eq
  rw [List.length_append, keysOf, List.length_map] at hsplit
  refine ⟨?_, by rw [hreturned]; rfl⟩
  show (emitLoop cfg inner ts (left + 1) p.sink pending).sink.delivered +
    (emitLoop cfg inner ts (left + 1) p.sink pending).sink.deadLettered =
      p.sink.delivered + p.sink.deadLettered + pending.length
  rw [hdone.delivered, hdone.deadLettered, ← hsplit]
  omega

/-- The first write raises. -/
def First (fault : Option WriteFault) : Prop := ∃ f, fault = some f ∧ f.after = 0

theorem firing_of_first {fault : Option WriteFault} (h : First fault) : ∃ f, firing fault = some f := by
  obtain ⟨f, rfl, hafter⟩ := h
  refine ⟨f, ?_⟩
  simp [firing, hafter]

/-- An attempt whose write would raise: it writes nothing, or it raises. -/
theorem attemptOn_first {p : Progress σ} (h : First p.fault) (pending : List (Item cfg.name))
    (note : Option String) (ts : Nat → String) :
    (attemptOn cfg inner pending note ts p).1.sink.counted = p.sink.counted ∧
      ((attemptOn cfg inner pending note ts p).1.raised = true ∨
        First (attemptOn cfg inner pending note ts p).1.fault ∧
          acceptedOf pending ((attemptOn cfg inner pending note ts p).2.failed pending) = []) := by
  obtain ⟨f, hf⟩ := firing_of_first h
  unfold attemptOn
  dsimp only
  by_cases hnil : (acceptedOf pending
      ((inner.attempt p.sink.adapter pending).2.failed pending)).isEmpty = true
  · have haccepted := List.isEmpty_iff.mp hnil
    rw [if_pos hnil]
    dsimp only
    rw [if_pos hnil]
    have hcount := Sink.settle_counters cfg
      ({ p.sink with adapter := (inner.attempt p.sink.adapter pending).1 } : Sink σ)
      (acceptedOf pending ((inner.attempt p.sink.adapter pending).2.failed pending)) asDelivered
      note ts
    refine ⟨?_, Or.inr ⟨h, haccepted⟩⟩
    simp only [Sink.counted, Sink.attempt]
    rw [hcount.1, hcount.2.1, haccepted]
    rfl
  · rw [if_neg hnil, hf]
    exact ⟨rfl, Or.inl rfl⟩

theorem deadLetterOn_first {p : Progress σ} (h : First p.fault) (pending : List (Item cfg.name))
    (err : String) (ts : Nat → String) :
    (deadLetterOn cfg pending err ts p).sink.counted = p.sink.counted ∧
      (deadLetterOn cfg pending err ts p).raised = true := by
  obtain ⟨f, hf⟩ := firing_of_first h
  unfold deadLetterOn
  dsimp only
  rw [hf]
  dsimp only
  split
  · exact ⟨rfl, rfl⟩
  · exact ⟨rfl, rfl⟩

theorem acceptedOf_nil (pending : List (Item cfg.name)) : acceptedOf pending [] = pending := by
  simp [acceptedOf]

/-- One pass of the loop. -/
theorem emitLoopOn_succ (ts : Nat → Nat → String) (left : Nat) (p : Progress σ)
    (pending : List (Item cfg.name)) :
    emitLoopOn cfg inner ts (left + 1) p pending =
      let r := attemptOn cfg inner pending none (ts (left + 1)) p
      if r.1.raised || (r.2.failed pending).isEmpty then (r.1, r.1.reply)
      else if left = 0 then
        (deadLetterOn cfg (r.2.failed pending) r.2.error (ts 0) r.1,
          (deadLetterOn cfg (r.2.failed pending) r.2.error (ts 0) r.1).reply)
      else if cfg.waits (cfg.retries.toNat - left) then
        emitLoopOn cfg inner ts left r.1 (r.2.failed pending)
      else (r.1, .raised) := rfl

theorem Progress.reply_ne {p : Progress σ} (h : p.raised = true) : p.reply ≠ .returned := by
  rw [Progress.reply, if_pos h]
  decide

section Done

variable {p : Progress σ} {pending failed : List (Item cfg.name)}

/-- Where nothing was accepted, something has failed, so that the loop ends
    here only when a write has raised. -/
theorem raised_of_done (hne : pending ≠ [])
    (h : p.raised = true ∨ First p.fault ∧ acceptedOf pending failed = [])
    (hdone : (p.raised || failed.isEmpty) = true) : p.raised = true := by
  rcases h with h | ⟨-, haccepted⟩
  · exact h
  · rcases Bool.or_eq_true_iff.mp hdone with hraised | hnil
    · exact hraised
    · rw [List.isEmpty_iff.mp hnil, acceptedOf_nil] at haccepted
      exact absurd haccepted hne

theorem first_of_not_done (h : p.raised = true ∨ First p.fault ∧ acceptedOf pending failed = [])
    (hdone : ¬ (p.raised || failed.isEmpty) = true) : First p.fault := by
  rcases h with h | ⟨hfirst, -⟩
  · rw [h] at hdone
    exact absurd rfl hdone
  · exact hfirst

end Done

/-- **When the first write raises, nothing is counted.** -/
theorem emitLoopOn_first (ts : Nat → Nat → String) (left : Nat) (p : Progress σ)
    (pending : List (Item cfg.name)) (h : First p.fault) (hne : pending ≠ []) :
    (emitLoopOn cfg inner ts (left + 1) p pending).1.sink.counted = p.sink.counted ∧
      (emitLoopOn cfg inner ts (left + 1) p pending).2 ≠ .returned := by
  induction left generalizing p pending with
  | zero =>
    obtain ⟨hcount, hcases⟩ := attemptOn_first inner h pending none (ts 1)
    rw [emitLoopOn_succ]
    by_cases hdone : ((attemptOn cfg inner pending none (ts 1) p).1.raised ||
        ((attemptOn cfg inner pending none (ts 1) p).2.failed pending).isEmpty) = true
    · rw [if_pos hdone]
      exact ⟨hcount, Progress.reply_ne (raised_of_done hne hcases hdone)⟩
    · rw [if_neg hdone, if_pos rfl, ← hcount]
      obtain ⟨hdead, hraised⟩ := deadLetterOn_first (first_of_not_done hcases hdone)
        ((attemptOn cfg inner pending none (ts 1) p).2.failed pending)
        (attemptOn cfg inner pending none (ts 1) p).2.error (ts 0)
      exact ⟨hdead, Progress.reply_ne hraised⟩
  | succ left ih =>
    obtain ⟨hcount, hcases⟩ := attemptOn_first inner h pending none (ts (left + 2))
    rw [emitLoopOn_succ]
    by_cases hdone : ((attemptOn cfg inner pending none (ts (left + 2)) p).1.raised ||
        ((attemptOn cfg inner pending none (ts (left + 2)) p).2.failed pending).isEmpty) = true
    · rw [if_pos hdone]
      exact ⟨hcount, Progress.reply_ne (raised_of_done hne hcases hdone)⟩
    · rw [if_neg hdone, if_neg (Nat.succ_ne_zero left), ← hcount]
      have hfailed : (attemptOn cfg inner pending none (ts (left + 2)) p).2.failed pending ≠ [] := by
        intro hnil
        rw [hnil] at hdone
        exact hdone (Bool.or_true _)
      split
      · exact ih _ _ (first_of_not_done hcases hdone) hfailed
      · exact ⟨rfl, Reply.noConfusion⟩

end Counting

/-! ### What a call counts -/

namespace Channel

variable (w : Wiring σ) (env : Nat → CallEnv) (c : Channel σ) (batch : List Json.Dict)

/-- Every record of the batch is an obligation of its own, without an outcome. -/
def Owes : Prop :=
  (batchKeys w.name batch).Nodup ∧ ∀ k ∈ batchKeys w.name batch, c.sink.outcomes.terminal k = none

/-- Nothing of the batch is attempted: it is all done, or there are no attempts. -/
def Idle : Prop :=
  w.retries < 0 ∨ ∀ k ∈ batchKeys w.name batch, c.sink.outcomes.terminal k ≠ none

variable {w env c batch}

theorem emitBatch_of_items {items : List (Item w.name)}
    (h : batch.mapM (prepare w.name) = .ok items) :
    c.emitBatch w env batch =
      if (selectFresh c.sink.outcomes items).isEmpty then (c.finish (c.begin env), .returned)
      else
        let r := emitLoopOn (w.cfg c.worker) w.inner (env c.calls).ts (w.retries + 1).toNat
          (c.begin env) (selectFresh c.sink.outcomes items)
        (c.finish r.1, r.2) := by
  unfold emitBatch
  rw [h]

section Batch

variable (hbatch : ∀ record ∈ batch, ∃ f, exportRecord record = .ok f)
include hbatch

/-- **A batch of open obligations** is counted record by record. -/
theorem emitBatch_owes (hfault : (env c.calls).fault = none) (hretries : 0 ≤ w.retries)
    (hwaits : ∀ n : Nat, n < w.retries → w.waits n = true) (howes : c.Owes w batch) :
    (c.emitBatch w env batch).1.sink.counted = c.sink.counted + batch.length ∧
      (c.emitBatch w env batch).2 = .returned := by
  obtain ⟨items, hitems, hkeys⟩ := prepareAll w.name batch hbatch
  obtain ⟨hnodup, hfresh⟩ := selectFresh_spec c.sink.outcomes items
  have hlength : (selectFresh c.sink.outcomes items).length = batch.length := by
    have hperm : (keysOf (selectFresh c.sink.outcomes items)).Perm (keysOf items) := by
      rw [List.perm_ext_iff_of_nodup hnodup (hkeys ▸ howes.1)]
      intro k
      rw [hfresh, and_iff_left_iff_imp, hkeys]
      exact howes.2 k
    have hlen := hperm.length_eq
    rw [keysOf, keysOf, List.length_map, List.length_map] at hlen
    rw [hlen, (Except.mapM_eq_ok.mp hitems).length_eq]
  rw [emitBatch_of_items hitems]
  by_cases hnil : (selectFresh c.sink.outcomes items).isEmpty = true
  · rw [if_pos hnil, ← hlength, List.isEmpty_iff.mp hnil]
    exact ⟨rfl, rfl⟩
  · rw [if_neg hnil]
    obtain ⟨left, hleft⟩ : ∃ left : Nat, w.retries = left := ⟨w.retries.toNat, by omega⟩
    rw [show (w.retries + 1).toNat = left + 1 by omega]
    obtain ⟨hcount, hreturned⟩ := @emitLoopOn_counts σ (w.cfg c.worker) w.inner (env c.calls).ts left
      (c.begin env) (selectFresh c.sink.outcomes items) hfault rfl
      (fun n hn => hwaits _ (show ((w.retries.toNat - (left - n) : Nat) : Int) < w.retries by omega))
      hnodup (fun k hk => ((hfresh k).mp hk).2)
    refine ⟨?_, hreturned⟩
    rw [← hlength]
    exact hcount

/-- A batch of which nothing is attempted. -/
theorem emitBatch_idle (hidle : c.Idle w batch) :
    (c.emitBatch w env batch).1.sink.counted = c.sink.counted ∧
      (c.emitBatch w env batch).2 = .returned := by
  obtain ⟨items, hitems, hkeys⟩ := prepareAll w.name batch hbatch
  obtain ⟨hnodup, hfresh⟩ := selectFresh_spec c.sink.outcomes items
  rw [emitBatch_of_items hitems]
  by_cases hnil : (selectFresh c.sink.outcomes items).isEmpty = true
  · rw [if_pos hnil]
    exact ⟨rfl, rfl⟩
  · rw [if_neg hnil]
    rcases hidle with hretries | hterminal
    · have hzero : (w.retries + 1).toNat = 0 := by omega
      rw [hzero]
      exact ⟨rfl, rfl⟩
    · exfalso
      apply hnil
      rw [List.isEmpty_iff, List.eq_nil_iff_forall_not_mem]
      intro f hf
      obtain ⟨hmem, hopen⟩ := (hfresh f.key).mp (key_mem_keysOf hf)
      exact hterminal f.key (hkeys ▸ hmem) hopen

/-- A batch of which the first outcome cannot be written. -/
theorem emitBatch_first (hfault : First (env c.calls).fault) (hidle : ¬ c.Idle w batch) :
    (c.emitBatch w env batch).1.sink.counted = c.sink.counted ∧
      (c.emitBatch w env batch).2 ≠ .returned := by
  obtain ⟨items, hitems, hkeys⟩ := prepareAll w.name batch hbatch
  obtain ⟨hnodup, hfresh⟩ := selectFresh_spec c.sink.outcomes items
  simp only [Idle, not_or, not_forall, not_lt] at hidle
  obtain ⟨hretries, k, hk, hopen⟩ := hidle
  have hmem : k ∈ keysOf (selectFresh c.sink.outcomes items) :=
    (hfresh k).mpr ⟨hkeys ▸ hk, not_not.mp hopen⟩
  have hne : selectFresh c.sink.outcomes items ≠ [] := by
    intro hnil
    rw [hnil] at hmem
    cases hmem
  obtain ⟨left, hleft⟩ : ∃ left, (w.retries + 1).toNat = left + 1 := ⟨w.retries.toNat, by omega⟩
  rw [emitBatch_of_items hitems, if_neg (by simpa using hne), hleft]
  exact @emitLoopOn_first σ (w.cfg c.worker) w.inner (env c.calls).ts left
    (c.begin env) (selectFresh c.sink.outcomes items) hfault hne

end Batch

theorem recordSuppressed_counted (findings : List Json.Dict) :
    (c.recordSuppressed w env findings).1.sink.counted = c.sink.counted := by
  unfold recordSuppressed
  dsimp only
  split
  · rfl
  · rfl

theorem compactLedger_counted (retain : Json.Dict → Bool) :
    (c.compactLedger w retain).sink.counted = c.sink.counted := by
  unfold compactLedger Sink.compactLedger
  split
  · next h =>
    split at h
    · cases h
      rfl
    · cases h
      rfl

end Channel

end FindingsForwarder
