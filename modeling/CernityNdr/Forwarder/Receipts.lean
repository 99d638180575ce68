import CernityNdr.Forwarder.Channels

/-! # Completion Receipts

    The model of `build_receipt` and of the receipts that `main` publishes,
    over the loop of `Loop` with the sinks of `Channels`. A process counts
    what it consumes, each of its sinks what it delivers and dead-letters;
    the counters start at zero with the process, the ledgers do not.

    A sink counts a record only when its obligation is new, the loop counts
    it always. So a receipt adds up as long as every record that is counted
    is a new obligation of every sink (`StepOk`, `receipts_add_up`). -/

namespace FindingsForwarder

open Machine

variable {k : Nat} {σ : Type}

/-! ### Receipts -/

/-- What `DurableSink.receipt` says. -/
structure SinkReceipt where
  name : String
  delivered : Nat
  deadLettered : Nat
deriving DecidableEq, Repr

structure Receipt where
  schemaVersion : String
  svc : String
  worker : String
  seq : Nat
  consumed : Nat
  suppressed : Nat
  sinks : List SinkReceipt
  deliveredLive : Int
  ts : String
deriving DecidableEq, Repr

/-- `sink_receipts`: the receipt of the only sink, or those that
    `MultiAdapter.receipt` collects. -/
def sinkReceipts (wiring : Fin k → Wiring σ) (s : Sinks k σ) : List SinkReceipt :=
  (List.finRange k).map fun i =>
    ⟨(wiring i).name, (s i).sink.delivered, (s i).sink.deadLettered⟩

/-- `build_receipt`. -/
def buildReceipt (wiring : Fin k → Wiring σ) (s : Sinks k σ) (consumed suppressed : Nat)
    (worker : String) (seq : Nat) (ts : String) : Receipt :=
  ⟨"1.0", "findings-forwarder", worker, seq, consumed, suppressed, sinkReceipts wiring s,
    (consumed : Int) - suppressed, ts⟩

/-- Every sink has delivered or dead-lettered what was consumed and not
    suppressed. -/
def Receipt.AddsUp (r : Receipt) : Prop :=
  ∀ sink ∈ r.sinks, (sink.delivered + sink.deadLettered : Int) = r.consumed - r.suppressed

instance : DecidablePred Receipt.AddsUp := fun r =>
  inferInstanceAs (Decidable (∀ sink ∈ r.sinks, _))

/-! ### The service -/

/-- A process, and the receipts that were built by it and those before it. -/
structure Service (k : Nat) (σ : Type) where
  loop : Forwarder (Sinks k σ)
  worker : String
  seq : Nat
  receipts : List Receipt

/-- What a new process finds for one of its sinks: the files, as they were left,
    and the state of the receiver. -/
structure Found (σ : Type) where
  worker : String
  disk : Disk
  adapter : σ

inductive ServiceInput (k : Nat) (σ : Type)
  | poll (batch : List (TopicPartition × Nat)) (ts : String)
  | replay (i : Fin k)
  | compactLedger (i : Fin k) (retain : Json.Dict → Bool)
  /-- the loop ends -/
  | shutdown (ts : String)
  /-- the process is replaced, wherever it was -/
  | restart (found : Fin k → Found σ) (worker : String)

namespace Service

variable (wiring : Fin k → Wiring σ) (env : Fin k → Nat → CallEnv) (log : Log)

/-- Before the first process. -/
def init (found : Fin k → Found σ) : Service k σ :=
  ⟨⟨fun i => ⟨"", "", ⟨Registry.empty, 0, 0, (found i).adapter⟩, (found i).disk, 0⟩, false,
    fun _ => 0, fun _ => 0, 0, 0, [], false⟩, "", 0, []⟩

/-- `emit_receipt`. -/
def emitReceipt (s : Service k σ) (ts : String) : Service k σ :=
  { s with
    seq := s.seq + 1
    receipts := s.receipts ++ [buildReceipt wiring s.loop.adapter s.loop.total s.loop.suppressed
      s.worker (s.seq + 1) ts] }

/-- Replace one of the sinks. -/
def setChannel (s : Service k σ) (i : Fin k) (c : Channel σ) : Service k σ :=
  { s with loop := { s.loop with adapter := Function.update s.loop.adapter i c } }

/-- A new process, which reads the ledgers, and starts at the committed
    positions. It does not come up when a ledger cannot be read. -/
def restart (s : Service k σ) (found : Fin k → Found σ) (worker : String) : Service k σ :=
  let channel (i : Fin k) : Channel σ :=
    ⟨(found i).worker, worker,
      ⟨(load (found i).disk.ledger).getD Registry.empty, 0, 0, (found i).adapter⟩, (found i).disk,
      (s.loop.adapter i).calls⟩
  let loop := Forwarder.start channel s.loop.committed
  { s with
    loop := { loop with
      alive := (List.finRange k).all fun i => (load (found i).disk.ledger).isSome }
    worker
    seq := 0 }

def step (s : Service k σ) : ServiceInput k σ → Service k σ
  | .poll batch ts =>
    let a := getAdapter wiring env
    let s' := { s with loop := s.loop.step a log batch }
    -- after a poll that was committed
    if s.loop.commits a log batch then s'.emitReceipt wiring ts else s'
  | .replay i => s.setChannel i ((s.loop.adapter i).replay (wiring i) (env i))
  | .compactLedger i retain =>
    s.setChannel i ((s.loop.adapter i).compactLedger (wiring i) retain)
  | .shutdown ts =>
    if s.loop.alive then
      let s' := s.emitReceipt wiring ts
      { s' with loop := { s'.loop with alive := false } }
    else s
  | .restart found worker => s.restart found worker

end Service

/-! ### The condition on a step -/

section Condition

variable (wiring : Fin k → Wiring σ) (env : Fin k → Nat → CallEnv) (log : Log)

/-- No write and no wait raises, attempts are made, and every record is a new
    obligation of each sink. -/
def Delivers (s : Sinks k σ) (live : List Json.Dict) : Prop :=
  ∀ i, (env i (s i).calls).fault = none ∧ 0 ≤ (wiring i).retries ∧
    (∀ n : Nat, n < (wiring i).retries → (wiring i).waits n = true) ∧ (s i).Owes (wiring i) live

/-- A write fails, and no sink comes to count an outcome before. -/
def FailsFirst (s : Sinks k σ) (live : List Json.Dict) : Prop :=
  (∀ i, (s i).Idle (wiring i) live ∨ First (env i (s i).calls).fault) ∧
    ∃ i, ¬ (s i).Idle (wiring i) live ∧ First (env i (s i).calls).fault

/-- The condition on the records of one partition. The suppressed ones are
    recorded first; when that fails, or a record cannot be projected, nothing
    is delivered. -/
def PartitionOk (s : Forwarder (Sinks k σ)) (b : PartitionBatch) : Prop :=
  ∀ findings, b.findings log = some findings →
    let live := findings.filter fun f => !isSuppressed f
    let r := recordWithheld (getAdapter wiring env) s.adapter (findings.filter isSuppressed)
    r.2.1 = .returned → live = [] ∨ (∃ f ∈ live, ∃ e, exportRecord f = .error e) ∨
      Delivers wiring env r.1 live ∨ FailsFirst wiring env r.1 live

/-- The condition on a poll, partition by partition. -/
def PollOk (s : Forwarder (Sinks k σ)) : List PartitionBatch → Prop
  | [] => True
  | b :: batch =>
    PartitionOk wiring env log s b ∧
      ((s.handlePartition (getAdapter wiring env) log b).2 ≠ .raised →
        PollOk (s.handlePartition (getAdapter wiring env) log b).1 batch)

/-- The receiver accepts none of the dead letters that a replay attempts. -/
def Refuses {name : String} (inner : Inner name σ) (outcomes : Outcomes) : σ → List Json → Prop
  | _, [] => True
  | s, entry :: entries =>
    match held name entry with
    | .malformed => True
    | .nothing => Refuses inner outcomes s entries
    | .item f =>
      if isDelivered outcomes f.key then Refuses inner outcomes s entries
      else (inner.attempt s [f]).2.failed [f] ≠ [] ∧
        Refuses inner outcomes (inner.attempt s [f]).1 entries

/-- A replay delivers nothing that it could record. -/
def ReplayOk (w : Wiring σ) (env : Nat → CallEnv) (c : Channel σ) : Prop :=
  ∀ entries, dlqEntries c.disk.dlq = some entries →
    First (env c.calls).fault ∨ Refuses w.inner c.sink.outcomes c.sink.adapter entries

/-- The condition on a step. -/
def StepOk (s : Service k σ) : ServiceInput k σ → Prop
  | .poll batch _ => s.loop.alive = true →
    PollOk wiring env log { s.loop with position := (fetch s.loop.position batch).1 }
      (fetch s.loop.position batch).2
  | .replay i => ReplayOk (wiring i) (env i) (s.loop.adapter i)
  | _ => True

end Condition

/-! ### What the adapter counts -/

section Adapters

variable (wiring : Fin k → Wiring σ) (env : Fin k → Nat → CallEnv)

theorem emitAll_cons (batch : List Json.Dict) (j : Fin k) (l : List (Fin k)) (s : Sinks k σ) :
    emitAll s batch ((j :: l).map (channelAdapter wiring env)) =
      let r := (s j).emitBatch (wiring j) (env j) batch
      let rest := emitAll (Function.update s j r.1) batch (l.map (channelAdapter wiring env))
      (rest.1, r.2 :: rest.2) := rfl

/-- Each of these sinks gets the batch once. -/
theorem emitAll_channels (batch : List Json.Dict) (l : List (Fin k)) (hnodup : l.Nodup)
    (s : Sinks k σ) :
    (∀ i, (emitAll s batch (l.map (channelAdapter wiring env))).1 i =
      if i ∈ l then ((s i).emitBatch (wiring i) (env i) batch).1 else s i) ∧
    (emitAll s batch (l.map (channelAdapter wiring env))).2 =
      l.map fun i => ((s i).emitBatch (wiring i) (env i) batch).2 := by
  induction l generalizing s with
  | nil => exact ⟨fun i => rfl, rfl⟩
  | cons j l ih =>
    rw [List.nodup_cons] at hnodup
    obtain ⟨hstate, hreplies⟩ :=
      ih hnodup.2 (Function.update s j ((s j).emitBatch (wiring j) (env j) batch).1)
    rw [emitAll_cons]
    dsimp only
    constructor
    · intro i
      rw [hstate]
      by_cases hij : i = j
      · subst hij
        rw [if_neg hnodup.1, if_pos List.mem_cons_self, Function.update_self]
      · rw [Function.update_of_ne hij]
        simp [hij]
    · rw [hreplies, List.map_cons]
      congr 1
      apply List.map_congr_left
      intro i hi
      rw [Function.update_of_ne]
      rintro rfl
      exact hnodup.1 hi

/-- **What delivering does to the sinks**, be it one or several. -/
theorem deliver_getAdapter (batch : List Json.Dict) (s : Sinks k σ) :
    (∀ i, ((getAdapter wiring env).deliver s batch).1 i =
      ((s i).emitBatch (wiring i) (env i) batch).1) ∧
    (((getAdapter wiring env).deliver s batch).2 = .returned ↔
      ∀ i, ((s i).emitBatch (wiring i) (env i) batch).2 = .returned) := by
  have hall : ∀ i, i ∈ List.finRange k := List.mem_finRange
  have hnodup : (List.finRange k).Nodup := List.nodup_finRange k
  unfold getAdapter
  generalize List.finRange k = is at hall hnodup
  split
  · next i =>
    constructor
    · intro j
      obtain rfl := List.mem_singleton.mp (hall j)
      exact Function.update_self ..
    · constructor
      · intro h j
        obtain rfl := List.mem_singleton.mp (hall j)
        exact h
      · exact fun h => h i
  · next hne =>
    obtain ⟨hstate, hreplies⟩ := emitAll_channels wiring env batch is hnodup s
    constructor
    · intro i
      exact (hstate i).trans (if_pos (hall i))
    · rw [(multi_deliver _ s batch).1, hreplies]
      simp [hall]

theorem counted_update (s : Sinks k σ) {i : Fin k} {c : Channel σ}
    (h : c.sink.counted = (s i).sink.counted) (j : Fin k) :
    (Function.update s i c j).sink.counted = (s j).sink.counted := by
  by_cases hij : j = i
  · subst hij
    rw [Function.update_self, h]
  · rw [Function.update_of_ne hij]

/-- Recording what is suppressed counts nothing. -/
theorem recordWithheld_counted (s : Sinks k σ) (withheld : List Json.Dict) (i : Fin k) :
    ((recordWithheld (getAdapter wiring env) s withheld).1 i).sink.counted =
      (s i).sink.counted := by
  have hrecord : ∀ record, (getAdapter wiring env).recordSuppressed = some record →
      ((record s withheld).1 i).sink.counted = (s i).sink.counted := by
    have hchannel : ∀ j, (((s j).recordSuppressed (wiring j) (env j) withheld).1).sink.counted =
        (s j).sink.counted := fun j => Channel.recordSuppressed_counted withheld
    intro record hrecord
    unfold getAdapter at hrecord
    split at hrecord
    · next j _ =>
      cases hrecord
      exact counted_update s (hchannel j) i
    · cases hrecord
      dsimp only
      split
      · next record hfind =>
        obtain ⟨a, ha, hsome⟩ := List.exists_of_findSome?_eq_some hfind
        obtain ⟨j, -, rfl⟩ := List.mem_map.mp ha
        cases hsome
        exact counted_update s (hchannel j) i
      · rfl
  unfold recordWithheld
  split
  · rfl
  · next record h =>
    split
    · rfl
    · exact hrecord record h

end Adapters

/-! ### The loop -/

/-- Every sink has counted what the loop counted and did not suppress. -/
def Balanced (s : Forwarder (Sinks k σ)) : Prop :=
  ∀ i, (s.adapter i).sink.counted + s.suppressed = s.total

section Loop

variable {wiring : Fin k → Wiring σ} {env : Fin k → Nat → CallEnv} {log : Log}

theorem batchKeys_export (name : String) {live batch : List Json.Dict}
    (h : live.mapM exportRecord = .ok batch) : batchKeys name batch = batchKeys name live := by
  have hall := Except.mapM_eq_ok.mp h
  clear h
  induction hall with
  | nil => rfl
  | cons hexport _ ih =>
    simp only [batchKeys, List.filterMap_cons, recordKey_export hexport]
    simp only [batchKeys] at ih
    rw [ih]

theorem exports_of_mapM {live batch : List Json.Dict} (h : live.mapM exportRecord = .ok batch) :
    ∀ record ∈ batch, ∃ f, exportRecord record = .ok f := by
  intro record hrecord
  obtain ⟨raw, -, hraw⟩ := (Except.mem_of_mapM_eq_ok h).mp hrecord
  exact ⟨record, exportRecord_idem hraw⟩

/-- The records are delivered, and every sink counts each of them. -/
theorem deliver_delivers {s : Sinks k σ} {live batch : List Json.Dict}
    (hexport : live.mapM exportRecord = .ok batch) (h : Delivers wiring env s live) :
    (∀ i, (((getAdapter wiring env).deliver s batch).1 i).sink.counted =
      (s i).sink.counted + live.length) ∧
    ((getAdapter wiring env).deliver s batch).2 = .returned := by
  obtain ⟨hstate, hreply⟩ := deliver_getAdapter wiring env batch s
  have hlength : live.length = batch.length := (Except.mapM_eq_ok.mp hexport).length_eq
  have hsink : ∀ i, ((s i).emitBatch (wiring i) (env i) batch).1.sink.counted =
      (s i).sink.counted + batch.length ∧
      ((s i).emitBatch (wiring i) (env i) batch).2 = .returned := by
    intro i
    obtain ⟨hfault, hretries, hwaits, howes⟩ := h i
    refine Channel.emitBatch_owes (exports_of_mapM hexport) hfault hretries hwaits ?_
    rw [Channel.Owes, batchKeys_export _ hexport]
    exact howes
  constructor
  · intro i
    rw [hstate, (hsink i).1, hlength]
  · exact hreply.mpr fun i => (hsink i).2

/-- A write fails, and no sink counts anything. -/
theorem deliver_failsFirst {s : Sinks k σ} {live batch : List Json.Dict}
    (hexport : live.mapM exportRecord = .ok batch) (h : FailsFirst wiring env s live) :
    (∀ i, (((getAdapter wiring env).deliver s batch).1 i).sink.counted = (s i).sink.counted) ∧
    ((getAdapter wiring env).deliver s batch).2 ≠ .returned := by
  obtain ⟨hstate, hreply⟩ := deliver_getAdapter wiring env batch s
  have hbatch := exports_of_mapM hexport
  have hidle : ∀ i, (s i).Idle (wiring i) batch ↔ (s i).Idle (wiring i) live := by
    intro i
    rw [Channel.Idle, Channel.Idle, batchKeys_export _ hexport]
  constructor
  · intro i
    rw [hstate]
    by_cases hi : (s i).Idle (wiring i) batch
    · exact (Channel.emitBatch_idle hbatch hi).1
    · have hfirst := (h.1 i).resolve_left fun hlive => hi ((hidle i).mpr hlive)
      exact (Channel.emitBatch_first hbatch hfirst hi).1
  · intro hreturned
    obtain ⟨i, hi, hfirst⟩ := h.2
    exact (Channel.emitBatch_first hbatch hfirst fun hb => hi ((hidle i).mp hb)).2
      (hreply.mp hreturned i)

/-- What `handle_batch` counts under the condition. -/
theorem handleBatch_counts {s : Sinks k σ} {live : List Json.Dict}
    (h : live = [] ∨ (∃ f ∈ live, ∃ e, exportRecord f = .error e) ∨ Delivers wiring env s live ∨
      FailsFirst wiring env s live) :
    ((handleBatch (getAdapter wiring env) s live).2 = .returned →
      ∀ i, ((handleBatch (getAdapter wiring env) s live).1 i).sink.counted =
        (s i).sink.counted + live.length) ∧
    ((handleBatch (getAdapter wiring env) s live).2 = .durabilityError →
      ∀ i, ((handleBatch (getAdapter wiring env) s live).1 i).sink.counted =
        (s i).sink.counted) := by
  unfold handleBatch
  by_cases hnil : live.isEmpty = true
  · rw [if_pos hnil, List.isEmpty_iff.mp hnil]
    exact ⟨fun _ _ => rfl, fun h => (by cases h)⟩
  · rw [if_neg hnil]
    split
    · exact ⟨fun h => (by cases h), fun h => (by cases h)⟩
    · next batch hexport =>
      rcases h with h | ⟨f, hf, e, he⟩ | h | h
      · exact absurd (List.isEmpty_iff.mpr h) hnil
      · exfalso
        obtain ⟨g, hg⟩ := Except.exists_mapM_eq_ok.mp ⟨batch, hexport⟩ f hf
        rw [he] at hg
        cases hg
      · obtain ⟨hcount, hreturned⟩ := deliver_delivers hexport h
        exact ⟨fun _ => hcount, fun hraised => by rw [hreturned] at hraised; cases hraised⟩
      · obtain ⟨hcount, hraised⟩ := deliver_failsFirst hexport h
        exact ⟨fun hreturned => absurd hreturned hraised, fun _ => hcount⟩

/-- **One partition** keeps the balance, unless the process ends. -/
theorem handlePartition_balanced {s : Forwarder (Sinks k σ)} {b : PartitionBatch}
    (h : Balanced s) (hok : PartitionOk wiring env log s b)
    (hreply : (s.handlePartition (getAdapter wiring env) log b).2 ≠ .raised) :
    Balanced (s.handlePartition (getAdapter wiring env) log b).1 := by
  unfold Forwarder.handlePartition at hreply ⊢
  split at hreply
  · exact absurd rfl hreply
  · next findings hfindings =>
    have hlength : findings.length = (findings.filter isSuppressed).length +
        (findings.filter fun f => !isSuppressed f).length :=
      List.length_eq_length_filter_add isSuppressed
    have hwithheld := recordWithheld_counted wiring env s.adapter (findings.filter isSuppressed)
    have hlive := hok findings hfindings
    dsimp only at hreply hlive ⊢
    generalize recordWithheld (getAdapter wiring env) s.adapter (findings.filter isSuppressed) = r
      at hreply hwithheld hlive ⊢
    split at hreply
    · next hrecorded =>
      rw [if_pos hrecorded]
      obtain ⟨hreturned, hraised⟩ := handleBatch_counts (hlive hrecorded)
      generalize handleBatch (getAdapter wiring env) r.1 (findings.filter fun f => !isSuppressed f)
        = out at hreply hreturned hraised ⊢
      intro i
      have hi := h i
      split at hreply
      · next hdone =>
        rw [if_pos hdone]
        have hcount := hreturned hdone i
        have hsame := hwithheld i
        dsimp only
        omega
      · next hdone =>
        rw [if_neg hdone]
        have hfailed : out.2 = .durabilityError := by
          cases hout : out.2 with
          | returned => exact absurd hout hdone
          | durabilityError => rfl
          | raised => exact absurd hout hreply
        have hcount := hraised hfailed i
        have hsame := hwithheld i
        dsimp only
        omega
    · next hrecorded =>
      rw [if_neg hrecorded]
      intro i
      have hi := h i
      have hsame := hwithheld i
      dsimp only
      omega

theorem handlePartition_alive (a : Adapter (Sinks k σ)) (s : Forwarder (Sinks k σ))
    (b : PartitionBatch) : (s.handlePartition a log b).1.alive = s.alive := by
  unfold Forwarder.handlePartition
  split
  · rfl
  · dsimp only
    split
    · split
      · rfl
      · rfl
    · rfl

/-- A poll that is durably handled does not end the process. -/
theorem handlePartitions_alive (a : Adapter (Sinks k σ)) (batch : List PartitionBatch)
    (s : Forwarder (Sinks k σ)) (h : (handlePartitions a log s batch).2 = true) :
    (handlePartitions a log s batch).1.alive = s.alive := by
  induction batch generalizing s with
  | nil => rfl
  | cons b batch ih =>
    unfold handlePartitions at h ⊢
    dsimp only at h ⊢
    split at h
    · next hreply =>
      rw [ih _ h]
      exact handlePartition_alive a s b
    · cases h
    · cases h

/-- A poll keeps the balance, unless the process ends. -/
theorem handlePartitions_balanced (batch : List PartitionBatch) {s : Forwarder (Sinks k σ)}
    (h : Balanced s) (hok : PollOk wiring env log s batch)
    (halive : (handlePartitions (getAdapter wiring env) log s batch).1.alive = true) :
    Balanced (handlePartitions (getAdapter wiring env) log s batch).1 := by
  induction batch generalizing s with
  | nil => exact h
  | cons b batch ih =>
    obtain ⟨hpartition, hrest⟩ := hok
    have hstep := handlePartition_balanced h hpartition
    unfold handlePartitions at halive ⊢
    dsimp only at halive ⊢
    cases hreply : (s.handlePartition (getAdapter wiring env) log b).2 with
    | returned =>
      rw [hreply] at halive hstep hrest
      exact ih (hstep (by decide)) (hrest (by decide)) halive
    | durabilityError =>
      rw [hreply] at halive hstep hrest
      exact ih (hstep (by decide)) (hrest (by decide)) halive
    | raised =>
      rw [hreply] at halive
      cases halive

end Loop

/-! ### Replays -/

section Replay

variable {cfg : SinkConfig} (inner : Inner cfg.name σ)

/-- An attempt in which nothing is accepted. -/
theorem attemptOn_refused {p : Progress σ} {pending : List (Item cfg.name)}
    (h : acceptedOf pending ((inner.attempt p.sink.adapter pending).2.failed pending) = [])
    (note : Option String) (ts : Nat → String) :
    (attemptOn cfg inner pending note ts p).1.sink =
      { p.sink with adapter := (inner.attempt p.sink.adapter pending).1 } := by
  unfold attemptOn
  dsimp only
  rw [h]
  dsimp only [List.isEmpty_nil]
  simp only [if_true]
  simp only [Sink.attempt, h]
  rfl

/-- What is left of one record after an attempt that did not accept it. -/
theorem acceptedOf_singleton {f : Item cfg.name} {failed : List (Item cfg.name)}
    (hsub : failed.Subperm [f]) (hne : failed ≠ []) : acceptedOf [f] failed = [] := by
  obtain ⟨g, hg⟩ := List.exists_mem_of_ne_nil _ hne
  obtain rfl := List.mem_singleton.mp (hsub.subset hg)
  simp [acceptedOf, key_mem_keysOf hg]

/-- **A replay in which nothing is recorded** counts nothing. -/
theorem replayLoopOn_counted (ts : Nat → Nat → String) (entries : List Json) (p : Progress σ)
    (h : First p.fault ∨ Refuses inner p.sink.outcomes p.sink.adapter entries) :
    (replayLoopOn cfg inner ts p entries).1.sink.counted = p.sink.counted := by
  induction entries generalizing p with
  | nil => rfl
  | cons entry entries ih =>
    unfold replayLoopOn
    rw [Refuses] at h
    cases hheld : held cfg.name entry with
    | malformed => rfl
    | nothing =>
      simp only [hheld] at h
      exact ih p h
    | item f =>
      simp only [hheld] at h
      dsimp only
      by_cases hdelivered : isDelivered p.sink.outcomes f.key = true
      · rw [if_pos hdelivered] at h ⊢
        exact ih p h
      · rw [if_neg hdelivered] at h ⊢
        have hattempt : (attemptOn cfg inner [f] (some "replay") (ts entries.length) p).1.sink.counted =
            p.sink.counted ∧
          ((attemptOn cfg inner [f] (some "replay") (ts entries.length) p).1.raised = true ∨
            First (attemptOn cfg inner [f] (some "replay") (ts entries.length) p).1.fault ∨
            Refuses inner
              (attemptOn cfg inner [f] (some "replay") (ts entries.length) p).1.sink.outcomes
              (attemptOn cfg inner [f] (some "replay") (ts entries.length) p).1.sink.adapter
              entries) := by
          rcases h with hfirst | ⟨hne, hrest⟩
          · obtain ⟨hcount, hcases⟩ :=
              attemptOn_first inner hfirst [f] (some "replay") (ts entries.length)
            exact ⟨hcount, hcases.imp id fun h => Or.inl h.1⟩
          · have hsink := attemptOn_refused inner
              (acceptedOf_singleton (failed_subperm inner p.sink.adapter [f]) hne)
              (some "replay") (ts entries.length)
            rw [hsink]
            exact ⟨rfl, Or.inr (Or.inr hrest)⟩
        obtain ⟨hcount, hcases⟩ := hattempt
        by_cases hraised :
            (attemptOn cfg inner [f] (some "replay") (ts entries.length) p).1.raised = true
        · rw [if_pos hraised]
          exact hcount
        · rw [if_neg hraised, ← hcount]
          exact ih _ (hcases.resolve_left hraised)

end Replay

theorem Channel.replay_counted {w : Wiring σ} {env : Nat → CallEnv} {c : Channel σ}
    (h : ReplayOk w env c) : (c.replay w env).sink.counted = c.sink.counted := by
  unfold Channel.replay
  dsimp only
  split
  · rfl
  · next entries hentries =>
    have hcount := @replayLoopOn_counted σ (w.cfg c.worker) w.inner (env c.calls).ts entries
      (c.begin env) (h entries hentries)
    split
    · exact hcount
    · split
      · exact hcount
      · exact hcount

/-! ### Runs -/

section Runs

variable {wiring : Fin k → Wiring σ} {env : Fin k → Nat → CallEnv} {log : Log}

/-- The counters of a running process are balanced, and so is every receipt. -/
structure Accounts (s : Service k σ) : Prop where
  balanced : s.loop.alive = true → Balanced s.loop
  receipts : ∀ r ∈ s.receipts, r.AddsUp

theorem addsUp_buildReceipt {s : Forwarder (Sinks k σ)} (h : Balanced s) (worker : String)
    (seq : Nat) (ts : String) :
    (buildReceipt wiring s.adapter s.total s.suppressed worker seq ts).AddsUp := by
  intro sink hsink
  obtain ⟨i, -, rfl⟩ := List.mem_map.mp hsink
  have hi := h i
  rw [Sink.counted] at hi
  show ((s.adapter i).sink.delivered + (s.adapter i).sink.deadLettered : Int) =
    s.total - s.suppressed
  omega

theorem Accounts.emitReceipt {s : Service k σ} (h : Accounts s) (halive : s.loop.alive = true)
    (ts : String) : Accounts (s.emitReceipt wiring ts) where
  balanced := h.balanced
  receipts r hr := by
    rcases List.mem_append.mp hr with hr | hr
    · exact h.receipts r hr
    · rw [List.mem_singleton.mp hr]
      exact addsUp_buildReceipt (h.balanced halive) _ _ _

/-- One of the sinks is replaced by one that has counted as much. -/
theorem Accounts.setChannel {s : Service k σ} (h : Accounts s) {i : Fin k} {c : Channel σ}
    (hc : c.sink.counted = (s.loop.adapter i).sink.counted) : Accounts (s.setChannel i c) where
  balanced halive j := by
    show (Function.update s.loop.adapter i c j).sink.counted + s.loop.suppressed = s.loop.total
    rw [counted_update s.loop.adapter hc j]
    exact h.balanced halive j
  receipts := h.receipts

/-- The counters of a new process are all zero. -/
theorem Accounts.restart {s : Service k σ} (h : Accounts s) (found : Fin k → Found σ)
    (worker : String) : Accounts (s.restart found worker) where
  balanced _ _ := rfl
  receipts := h.receipts

theorem Accounts.init (found : Fin k → Found σ) : Accounts (Service.init found) where
  balanced h := by cases h
  receipts r hr := by cases hr

/-- An iteration of the loop. -/
theorem Accounts.poll {s : Service k σ} (h : Accounts s) {batch : List (TopicPartition × Nat)}
    {ts : String} (hok : StepOk wiring env log s (.poll batch ts)) :
    Accounts (s.step wiring env log (.poll batch ts)) := by
  have hloop : Accounts { s with loop := s.loop.step (getAdapter wiring env) log batch } := by
    refine ⟨?_, h.receipts⟩
    intro halive
    dsimp only at halive ⊢
    unfold Forwarder.step at halive ⊢
    by_cases hrunning : s.loop.alive = true
    · rw [if_pos hrunning] at halive ⊢
      have hbalanced := handlePartitions_balanced (fetch s.loop.position batch).2
        (s := { s.loop with position := (fetch s.loop.position batch).1 }) (h.balanced hrunning)
        (hok hrunning)
      dsimp only at halive ⊢
      split at halive
      · split at halive
        · next hdurable hnil =>
          rw [if_pos hdurable, if_pos hnil]
          exact hbalanced halive
        · next hdurable hnil =>
          rw [if_pos hdurable, if_neg hnil]
          exact hbalanced halive
      · next hdurable =>
        rw [if_neg hdurable]
        exact hbalanced halive
    · rw [if_neg hrunning] at halive
      exact absurd halive hrunning
  show Accounts (if s.loop.commits (getAdapter wiring env) log batch then _ else _)
  split
  · next hcommits =>
    refine hloop.emitReceipt ?_ ts
    -- a poll that commits leaves the process running
    simp only [Forwarder.commits, Bool.and_eq_true] at hcommits
    obtain ⟨⟨hrunning, -⟩, hdurable⟩ := hcommits
    have hafter := handlePartitions_alive _ _ _ hdurable
    dsimp only
    rw [Forwarder.step, if_pos hrunning]
    dsimp only
    rw [if_pos hdurable]
    split
    · exact hafter.trans hrunning
    · exact hafter.trans hrunning
  · exact hloop

theorem Accounts.step {s : Service k σ} {i : ServiceInput k σ} (hok : StepOk wiring env log s i)
    (h : Accounts s) : Accounts (s.step wiring env log i) := by
  cases i with
  | poll batch ts => exact h.poll hok
  | replay i => exact h.setChannel (Channel.replay_counted hok)
  | compactLedger i retain => exact h.setChannel (Channel.compactLedger_counted retain)
  | shutdown ts =>
    show Accounts (if s.loop.alive then _ else s)
    split
    · next halive =>
      refine ⟨fun hdead => ?_, (h.emitReceipt halive ts).receipts⟩
      cases hdead
    · exact h
  | restart found worker => exact h.restart found worker

/-- **Every receipt adds up** in a run whose steps all meet the condition. -/
theorem receipts_add_up (wiring : Fin k → Wiring σ) (env : Fin k → Nat → CallEnv) (log : Log)
    (found : Fin k → Found σ) (inputs : List (ServiceInput k σ))
    (h : Meets (Service.step wiring env log) (StepOk wiring env log) (Service.init found) inputs) :
    ∀ r ∈ (run (Service.step wiring env log) (Service.init found) inputs).receipts, r.AddsUp :=
  (run_invariant_of_meets (P := Accounts) (fun _ _ hok => Accounts.step hok) (Accounts.init found)
    h).receipts

end Runs

/-! ### One sink -/

/-- A receiver that accepts everything. -/
def upInner (name : String) : Inner name Unit where
  attempt := fun _ _ => ((), .returned [])
  contract := by
    intro s given failed h
    cases h
    exact List.nil_subperm

def oneSink : Fin 1 → Wiring Unit := fun _ => ⟨"es", 4, fun n => decide (n < 1024), upInner "es"⟩

def calm : Fin 1 → Nat → CallEnv := fun _ _ => ⟨none, fun _ _ => "2026-01-01T00:00:00+00:00"⟩

def firstStart : Fin 1 → Found Unit := fun _ => ⟨"s", ⟨[], []⟩, ()⟩

/-- A partition that holds these findings. -/
def findingsLog (ids : List String) : Log := fun _ o =>
  .obj (sampleFinding (ids.getD o "f"))

/-- A process that starts, and polls the first records. -/
def pollFindings (n : Nat) : List (ServiceInput 1 Unit) :=
  [.restart firstStart "w", .poll [(⟨"ndr.finding.final.v1", 0⟩, n)] "2026-01-01T00:00:01+00:00"]

theorem pollFindings_ok : Meets (Service.step oneSink calm (findingsLog ["f1", "f2"]))
    (StepOk oneSink calm (findingsLog ["f1", "f2"])) (Service.init firstStart) (pollFindings 2) := by
  refine .cons trivial (.cons ?_ (.nil _ _ _))
  intro _
  refine ⟨?_, fun _ => trivial⟩
  intro findings hfindings
  have heq : findings = [sampleFinding "f1", sampleFinding "f2"] :=
    (Option.some.inj hfindings).symm
  subst heq
  intro _ _ _
  refine Or.inr (Or.inr (Or.inl fun i => ⟨rfl, (by decide : (0 : Int) ≤ 4), ?_, ?_, fun _ _ => rfl⟩))
  · intro n hn
    have hlt : (n : Int) < 4 := hn
    exact decide_eq_true (show n < 1024 by omega)
  show (batchKeys "es" [sampleFinding "f1", sampleFinding "f2"]).Nodup
  decide +kernel

/-- Two findings, and a receiver that accepts them. -/
theorem receipts_add_up_twice :
    ¬ ∃ r ∈ (run (Service.step oneSink calm (findingsLog ["f1", "f2"])) (Service.init firstStart)
      (pollFindings 2)).receipts, ¬ r.AddsUp := by
  rintro ⟨r, hr, hno⟩
  have hsum := receipts_add_up oneSink calm (findingsLog ["f1", "f2"]) firstStart (pollFindings 2)
    pollFindings_ok
  exact hno (hsum r hr)

/-- **A repeated record.** The loop counts it twice, the sink once. -/
theorem repeated_finding_counted_once :
    ∃ r ∈ (run (Service.step oneSink calm (findingsLog ["f1", "f1"])) (Service.init firstStart)
      (pollFindings 2)).receipts, ¬ r.AddsUp := by
  decide +kernel

end FindingsForwarder
