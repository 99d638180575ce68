import CernityNdr.Framework.Run
import CernityNdr.Forwarder.Records

/-! # The Forwarder Loop

    The model of `main` in `findings-forwarder/app.py` and of
    `handle_batch` and `MultiAdapter`: a consumer that polls records from
    its position in each partition, hands every partition's batch to the
    adapter, and commits its position when the whole poll was durably
    handled.

    A commit covers all that was polled before, also a batch of an earlier
    poll that was not durably handled. So commits are safe exactly as long as
    no poll is committed after a partition batch of an earlier poll has
    failed (`commits_safe_iff`). -/

namespace FindingsForwarder

open Machine

variable {σ : Type}

/-! ### Adapters -/

/-- What a call of an adapter comes to. -/
inductive Reply
  | returned
  /-- `SinkDurabilityError` or `OSError` -/
  | durabilityError
  /-- any other exception -/
  | raised
  deriving DecidableEq, Repr

/-- What the loop uses of an adapter. It may lack `record_suppressed` and
    `emit_batch`. -/
structure Adapter (σ : Type) where
  recordSuppressed : Option (σ → List Json.Dict → σ × Reply)
  emitBatch : Option (σ → List Json.Dict → σ × Reply)
  emit : σ → Json.Dict → σ × Reply

/-- One record after the other, until one raises. -/
def Adapter.emitEach (a : Adapter σ) (s : σ) : List Json.Dict → σ × Reply
  | [] => (s, .returned)
  | f :: fs =>
    match a.emit s f with
    | (s, .returned) => a.emitEach s fs
    | r => r

/-- `emit_batch`, or the records one by one. -/
def Adapter.deliver (a : Adapter σ) (s : σ) (findings : List Json.Dict) : σ × Reply :=
  match a.emitBatch with
  | some emitBatch => emitBatch s findings
  | none => a.emitEach s findings

/-- `handle_batch`. -/
def handleBatch (a : Adapter σ) (s : σ) (findings : List Json.Dict) : σ × Reply :=
  if findings.isEmpty then (s, .returned)
  else
    -- what the projection raises is no durability error
    match findings.mapM exportRecord with
    | .error _ => (s, .raised)
    | .ok findings => a.deliver s findings

/-- The loop of `MultiAdapter.emit_batch`: every sink is called, also behind one
    that has raised. -/
def emitAll (s : σ) (findings : List Json.Dict) : List (Adapter σ) → σ × List Reply
  | [] => (s, [])
  | a :: sinks =>
    let (s, reply) :=
      match a.emitBatch with
      | some emitBatch => emitBatch s findings
      -- a sink without `emit_batch` raises `AttributeError`
      | none => (s, .raised)
    let (s, replies) := emitAll s findings sinks
    (s, reply :: replies)

/-- `MultiAdapter`. -/
def Adapter.multi (sinks : List (Adapter σ)) : Adapter σ :=
  let emitBatch := fun s findings =>
    let (s, replies) := emitAll s findings sinks
    (s, if replies.all (· = .returned) then .returned else .durabilityError)
  { recordSuppressed := some fun s findings =>
      match sinks.findSome? Adapter.recordSuppressed with
      | some recordSuppressed => recordSuppressed s findings
      | none => (s, .returned)
    emitBatch := some emitBatch
    emit := fun s finding => emitBatch s [finding] }

/-- Several sinks return exactly when each of them does, and what one of them
    raises does not end the process. -/
theorem multi_deliver (sinks : List (Adapter σ)) (s : σ) (findings : List Json.Dict) :
    (((Adapter.multi sinks).deliver s findings).2 = .returned ↔
      ∀ reply ∈ (emitAll s findings sinks).2, reply = .returned) ∧
    ((Adapter.multi sinks).deliver s findings).2 ≠ .raised := by
  show ((if (emitAll s findings sinks).2.all (· = .returned) then Reply.returned
      else .durabilityError) = .returned ↔ _) ∧
    (if (emitAll s findings sinks).2.all (· = .returned) then Reply.returned
      else .durabilityError) ≠ .raised
  by_cases hall : (emitAll s findings sinks).2.all (· = .returned) = true
  · rw [if_pos hall]
    refine ⟨⟨fun _ => ?_, fun _ => rfl⟩, by decide⟩
    simpa using hall
  · rw [if_neg hall]
    refine ⟨⟨fun h => (by cases h), fun h => absurd ?_ hall⟩, by decide⟩
    simpa using h

/-! ### The consumer -/

structure TopicPartition where
  topic : String
  partition : Nat
  deriving DecidableEq, Repr

/-- The value of the record at each offset of each partition. -/
abbrev Log := TopicPartition → Nat → Json

/-- The records of one partition in a poll. -/
structure PartitionBatch where
  tp : TopicPartition
  first : Nat
  count : Nat

/-- The offsets of the batch. -/
def PartitionBatch.offsets (b : PartitionBatch) : List Nat := List.range' b.first b.count

/-- `poll`: so many records of each partition from its position on, which
    advances behind them. -/
def fetch (position : TopicPartition → Nat) :
    List (TopicPartition × Nat) → (TopicPartition → Nat) × List PartitionBatch
  | [] => (position, [])
  | (tp, n) :: rest =>
    let r := fetch (Function.update position tp (position tp + n)) rest
    (r.1, ⟨tp, position tp, n⟩ :: r.2)

def isSuppressed (f : Json.Dict) : Bool := (f.get "state").str? = some "SUPPRESSED"

/-! ### The loop -/

structure Forwarder (σ : Type) where
  adapter : σ
  /-- the process is running -/
  alive : Bool
  position : TopicPartition → Nat
  committed : TopicPartition → Nat
  suppressed : Nat
  total : Nat
  /-- the records that were durably handled: recorded as suppressed, or in a
      batch that `handle_batch` returned for -/
  handled : List (TopicPartition × Nat)
  /-- a partition batch has failed -/
  missed : Bool

/-- The process starts at the committed position of each partition. -/
def Forwarder.start (adapter : σ) (start : TopicPartition → Nat) : Forwarder σ :=
  ⟨adapter, true, start, start, 0, 0, [], false⟩

variable (a : Adapter σ) (log : Log)

/-- The values of a batch. A value that is no object has no `get`. -/
def PartitionBatch.findings (b : PartitionBatch) : Option (List Json.Dict) :=
  b.offsets.mapM fun o => (log b.tp o).obj?

/-- The offsets of the suppressed records of a batch. -/
def PartitionBatch.withheld (b : PartitionBatch) : List Nat :=
  b.offsets.filter fun o => (log b.tp o).obj?.any isSuppressed

/-- `if withheld and hasattr(adapter, "record_suppressed")`: the reply, and
    whether the records were recorded. -/
def recordWithheld (s : σ) (withheld : List Json.Dict) : σ × Reply × Bool :=
  match a.recordSuppressed with
  | none => (s, .returned, false)
  | some recordSuppressed =>
    if withheld.isEmpty then (s, .returned, false)
    else
      let (s, reply) := recordSuppressed s withheld
      (s, reply, reply = .returned)

/-- The offsets of a batch, as records that were handled. -/
def PartitionBatch.mark (b : PartitionBatch) (offsets : List Nat) : List (TopicPartition × Nat) :=
  offsets.map fun o => (b.tp, o)

/-- The body of the loop for one partition. -/
def Forwarder.handlePartition (s : Forwarder σ) (b : PartitionBatch) : Forwarder σ × Reply :=
  match b.findings log with
  -- outside the `try`
  | none => (s, .raised)
  | some findings =>
    let live := findings.filter fun f => !isSuppressed f
    let withheld := findings.filter isSuppressed
    let (adapter, reply, recorded) := recordWithheld a s.adapter withheld
    let s := { s with
      adapter
      handled := s.handled ++ if recorded then b.mark (b.withheld log) else [] }
    if reply = .returned then
      let (adapter, reply) := handleBatch a s.adapter live
      let s := { s with adapter }
      if reply = .returned then
        ({ s with
          handled := s.handled ++ b.mark b.offsets
          suppressed := s.suppressed + withheld.length
          total := s.total + findings.length }, .returned)
      else (s, reply)
    else (s, reply)

/-- All partitions of a poll, and whether each was durably handled. An exception
    that is not a durability error ends the process. -/
def handlePartitions (s : Forwarder σ) : List PartitionBatch → Forwarder σ × Bool
  | [] => (s, true)
  | b :: batch =>
    let (s, reply) := s.handlePartition a log b
    match reply with
    | .returned => handlePartitions s batch
    -- the other partitions of the poll are handled all the same
    | .durabilityError => ((handlePartitions s batch).1, false)
    | .raised => ({ s with alive := false }, false)

/-- One iteration, with what is polled. -/
def Forwarder.step (s : Forwarder σ) (poll : List (TopicPartition × Nat)) : Forwarder σ :=
  if s.alive then
    let (position, batch) := fetch s.position poll
    let (s, durable) := handlePartitions a log { s with position } batch
    if durable then
      -- `commit` covers every partition up to the position
      if batch.isEmpty then s else { s with committed := s.position }
    else { s with missed := true }
  else s

/-- The iteration commits. -/
def Forwarder.commits (s : Forwarder σ) (poll : List (TopicPartition × Nat)) : Bool :=
  s.alive && !poll.isEmpty &&
    (handlePartitions a log { s with position := (fetch s.position poll).1 }
      (fetch s.position poll).2).2

/-- Every record below the committed position, from where the process started,
    was durably handled. -/
def Forwarder.CommitSafe (start : TopicPartition → Nat) (s : Forwarder σ) : Prop :=
  ∀ tp o, start tp ≤ o → o < s.committed tp → (tp, o) ∈ s.handled

/-- The condition on an iteration: when it commits, no batch of an earlier poll
    has failed. -/
def Forwarder.CommitsNothingMissed (s : Forwarder σ) (poll : List (TopicPartition × Nat)) : Prop :=
  s.commits a log poll = true → s.missed = false

/-! ### What a poll covers -/

theorem PartitionBatch.mem_offsets {b : PartitionBatch} {o : Nat} :
    o ∈ b.offsets ↔ b.first ≤ o ∧ o < b.first + b.count := by
  simp [PartitionBatch.offsets, List.mem_range']
  constructor
  · rintro ⟨i, hi, rfl⟩
    omega
  · intro h
    exact ⟨o - b.first, by omega, by omega⟩

theorem PartitionBatch.mem_mark {b : PartitionBatch} {offsets : List Nat} {tp : TopicPartition}
    {o : Nat} : (tp, o) ∈ b.mark offsets ↔ tp = b.tp ∧ o ∈ offsets := by
  simp only [PartitionBatch.mark, List.mem_map, Prod.mk.injEq]
  constructor
  · rintro ⟨o', ho', rfl, rfl⟩
    exact ⟨rfl, ho'⟩
  · rintro ⟨rfl, ho⟩
    exact ⟨o, ho, rfl, rfl⟩

/-- The batches of a poll cover what lies between the position before and
    after it, and no two of them overlap. -/
theorem fetch_spec (position : TopicPartition → Nat) (poll : List (TopicPartition × Nat)) :
    (∀ tp, position tp ≤ (fetch position poll).1 tp) ∧
    (∀ tp o, (∃ b ∈ (fetch position poll).2, (tp, o) ∈ b.mark b.offsets) ↔
      position tp ≤ o ∧ o < (fetch position poll).1 tp) ∧
    (fetch position poll).2.Pairwise
      (fun b c => ∀ x ∈ b.mark b.offsets, x ∉ c.mark c.offsets) := by
  induction poll generalizing position with
  | nil =>
    refine ⟨fun tp => Nat.le_refl _, ?_, List.Pairwise.nil⟩
    intro tp o
    constructor
    · rintro ⟨b, hb, -⟩
      cases hb
    · rintro ⟨h1, h2⟩
      exact absurd h2 (Nat.not_lt.mpr h1)
  | cons entry rest ih =>
    obtain ⟨tp₀, n⟩ := entry
    obtain ⟨hle, hcover, hdisjoint⟩ := ih (Function.update position tp₀ (position tp₀ + n))
    have hself : Function.update position tp₀ (position tp₀ + n) tp₀ = position tp₀ + n :=
      Function.update_self ..
    have hother : ∀ tp, tp ≠ tp₀ → Function.update position tp₀ (position tp₀ + n) tp = position tp :=
      fun tp h => Function.update_of_ne h ..
    refine ⟨?_, ?_, ?_⟩
    · intro tp
      by_cases htp : tp = tp₀
      · have := hle tp₀
        rw [hself] at this
        rw [htp]
        exact Nat.le_trans (Nat.le_add_right _ n) this
      · have := hle tp
        rw [hother tp htp] at this
        exact this
    · -- an offset is in this batch, or in one of the later ones
      intro tp o
      have hfirst : (tp, o) ∈ PartitionBatch.mark ⟨tp₀, position tp₀, n⟩
          (PartitionBatch.offsets ⟨tp₀, position tp₀, n⟩) ↔
          tp = tp₀ ∧ position tp₀ ≤ o ∧ o < position tp₀ + n := by
        rw [PartitionBatch.mem_mark, PartitionBatch.mem_offsets]
      show (∃ b ∈ _ :: (fetch _ rest).2, _) ↔ _ ∧ o < (fetch _ rest).1 tp
      rw [List.exists_mem_cons_iff, hfirst, hcover]
      by_cases htp : tp = tp₀
      · have hpos := hle tp₀
        rw [hself] at hpos
        rw [htp, hself]
        constructor
        · rintro (⟨-, h1, h2⟩ | ⟨h1, h2⟩)
          · exact ⟨h1, by omega⟩
          · exact ⟨by omega, h2⟩
        · rintro ⟨h1, h2⟩
          by_cases ho : o < position tp₀ + n
          · exact Or.inl ⟨rfl, h1, ho⟩
          · exact Or.inr ⟨by omega, h2⟩
      · rw [hother tp htp]
        constructor
        · rintro (⟨h, -⟩ | h)
          · exact absurd h htp
          · exact h
        · exact Or.inr
    · show List.Pairwise _ (_ :: (fetch _ rest).2)
      rw [List.pairwise_cons]
      refine ⟨?_, hdisjoint⟩
      rintro c hc ⟨tp, o⟩ hx hy
      rw [PartitionBatch.mem_mark, PartitionBatch.mem_offsets] at hx
      obtain ⟨rfl, -, hlt⟩ := hx
      -- a later batch of the same partition starts behind this one
      have hlater := ((hcover _ _).mp ⟨c, hc, hy⟩).1
      dsimp only at hlater hlt
      rw [hself] at hlater
      omega

/-! ### One partition -/

/-- What handling some batches changes: the records it handles are among
    `covered`, and they are all of them exactly when it is durable. -/
structure Handling (covered : TopicPartition × Nat → Prop) (s s' : Forwarder σ) (durable : Bool) :
    Prop where
  position : s'.position = s.position
  committed : s'.committed = s.committed
  missed : s'.missed = s.missed
  handled : ∃ extra, s'.handled = s.handled ++ extra ∧ (∀ x ∈ extra, covered x) ∧
    (durable = true → ∀ x, covered x → x ∈ extra) ∧
    (durable = false → ∃ x, covered x ∧ x ∉ extra)

theorem mem_findings {b : PartitionBatch} {findings : List Json.Dict}
    (h : b.findings log = some findings) {f : Json.Dict} (hf : f ∈ findings) :
    ∃ o ∈ b.offsets, (log b.tp o).obj? = some f := by
  exact Option.exists_of_mem_mapM h hf

theorem recordWithheld_spec (a : Adapter σ) (s : σ) (withheld : List Json.Dict) :
    ((recordWithheld a s withheld).2.1 ≠ .returned →
      withheld ≠ [] ∧ (recordWithheld a s withheld).2.2 = false) := by
  unfold recordWithheld
  cases a.recordSuppressed with
  | none => exact fun h => absurd rfl h
  | some recordSuppressed =>
    dsimp only
    split
    · exact fun h => absurd rfl h
    · next hne =>
      intro h
      refine ⟨fun hnil => hne (by rw [hnil]; rfl), ?_⟩
      exact decide_eq_false h

theorem handleBatch_ne_nil {s : σ} {live : List Json.Dict}
    (h : (handleBatch a s live).2 ≠ .returned) : live ≠ [] := by
  rintro rfl
  exact h rfl

/-- **One partition**: when its batch fails, one of its records has not been
    handled. -/
theorem handlePartition_spec (s : Forwarder σ) (b : PartitionBatch) :
    Handling (· ∈ b.mark b.offsets) s (s.handlePartition a log b).1
      (decide ((s.handlePartition a log b).2 = .returned)) := by
  unfold Forwarder.handlePartition
  split
  · next hnone =>
    -- a value that is no object, so there is one
    refine ⟨rfl, rfl, rfl, [], by simp, by simp, by simp, fun _ => ?_⟩
    have hne : b.offsets ≠ [] := by
      intro hnil
      unfold PartitionBatch.findings at hnone
      rw [hnil] at hnone
      cases hnone
    obtain ⟨o, ho⟩ := List.exists_mem_of_ne_nil _ hne
    exact ⟨(b.tp, o), PartitionBatch.mem_mark.mpr ⟨rfl, ho⟩, by simp⟩
  · next findings hfindings =>
    have hspec := recordWithheld_spec a s.adapter (findings.filter isSuppressed)
    have hwithheld : ∀ x ∈ b.mark (b.withheld log), x ∈ b.mark b.offsets := by
      rintro ⟨tp, o⟩ hx
      obtain ⟨rfl, ho⟩ := PartitionBatch.mem_mark.mp hx
      exact PartitionBatch.mem_mark.mpr ⟨rfl, (List.mem_filter.mp ho).1⟩
    have hrecorded : ∀ recorded : Bool,
        ∀ x ∈ (if recorded then b.mark (b.withheld log) else []), x ∈ b.mark b.offsets := by
      intro recorded x hx
      cases recorded with
      | false => cases hx
      | true => exact hwithheld x hx
    dsimp only
    split
    · split
      · -- everything is handled
        next hlive =>
        refine ⟨rfl, rfl, rfl, _, List.append_assoc .., ?_, ?_, ?_⟩
        · intro x hx
          exact (List.mem_append.mp hx).elim (hrecorded _ x) id
        · exact fun _ x hx => List.mem_append_right _ hx
        · intro h
          simp at h
      · -- a record that is not suppressed has not been handled
        next hlive =>
        refine ⟨rfl, rfl, rfl, _, rfl, hrecorded _, fun h => absurd (of_decide_eq_true h) hlive, ?_⟩
        intro _
        obtain ⟨f, hf⟩ := List.exists_mem_of_ne_nil _ (handleBatch_ne_nil a hlive)
        obtain ⟨hmem, hsup⟩ := List.mem_filter.mp hf
        obtain ⟨o, ho, hof⟩ := mem_findings log hfindings hmem
        refine ⟨(b.tp, o), PartitionBatch.mem_mark.mpr ⟨rfl, ho⟩, ?_⟩
        intro hx
        have hx' : (b.tp, o) ∈ b.mark (b.withheld log) := by
          split at hx
          · exact hx
          · cases hx
        have hsup' := (List.mem_filter.mp (PartitionBatch.mem_mark.mp hx').2).2
        rw [hof] at hsup'
        simp only [Option.any_some] at hsup'
        rw [hsup'] at hsup
        cases hsup
    · -- no record of the partition has been handled
      next hreply =>
      obtain ⟨hne, hfalse⟩ := hspec hreply
      refine ⟨rfl, rfl, rfl, [], by rw [hfalse]; simp, by simp,
        fun h => absurd (of_decide_eq_true h) hreply, ?_⟩
      intro _
      obtain ⟨f, hf⟩ := List.exists_mem_of_ne_nil _ hne
      obtain ⟨o, ho, -⟩ := mem_findings log hfindings (List.mem_filter.mp hf).1
      exact ⟨(b.tp, o), PartitionBatch.mem_mark.mpr ⟨rfl, ho⟩, by simp⟩

/-! ### One poll -/

/-- **All partitions of a poll.** Handling one partition does not handle a
    record of another. -/
theorem handlePartitions_spec (batch : List PartitionBatch)
    (hdisjoint : batch.Pairwise (fun b c => ∀ x ∈ b.mark b.offsets, x ∉ c.mark c.offsets))
    (s : Forwarder σ) :
    Handling (fun x => ∃ b ∈ batch, x ∈ b.mark b.offsets) s (handlePartitions a log s batch).1
      (handlePartitions a log s batch).2 := by
  induction batch generalizing s with
  | nil =>
    refine ⟨rfl, rfl, rfl, [], by simp [handlePartitions], by simp, ?_, fun h => by cases h⟩
    rintro _ x ⟨b, hb, -⟩
    cases hb
  | cons b batch ih =>
    rw [List.pairwise_cons] at hdisjoint
    obtain ⟨hb, hrest⟩ := hdisjoint
    obtain ⟨hpos, hcom, hmis, extra, hextra, hsub, hall, hsome⟩ :=
      handlePartition_spec a log s b
    obtain ⟨hpos', hcom', hmis', extra', hextra', hsub', hall', hsome'⟩ :=
      ih hrest (s.handlePartition a log b).1
    -- what the later partitions handle is not a record of this one
    have hother : ∀ x ∈ b.mark b.offsets, x ∉ extra' := by
      intro x hx hx'
      obtain ⟨c, hc, hxc⟩ := hsub' x hx'
      exact hb c hc x hx hxc
    have hboth : ∀ x ∈ extra ++ extra', ∃ c ∈ b :: batch, x ∈ c.mark c.offsets := by
      intro x hx
      rcases List.mem_append.mp hx with hx | hx
      · exact ⟨b, List.mem_cons_self, hsub x hx⟩
      · obtain ⟨c, hc, hxc⟩ := hsub' x hx
        exact ⟨c, List.mem_cons_of_mem b hc, hxc⟩
    have hhandled : (handlePartitions a log (s.handlePartition a log b).1 batch).1.handled =
        s.handled ++ (extra ++ extra') := by
      rw [hextra', hextra, List.append_assoc]
    unfold handlePartitions
    dsimp only
    split
    · next hreply =>
      refine ⟨hpos'.trans hpos, hcom'.trans hcom, hmis'.trans hmis, _, hhandled, hboth, ?_, ?_⟩
      · rintro hdur x ⟨c, hc, hx⟩
        rcases List.mem_cons.mp hc with rfl | hc
        · exact List.mem_append_left _ (hall (decide_eq_true hreply) x hx)
        · exact List.mem_append_right _ (hall' hdur x ⟨c, hc, hx⟩)
      · intro hdur
        obtain ⟨x, ⟨c, hc, hx⟩, hnot⟩ := hsome' hdur
        refine ⟨x, ⟨c, List.mem_cons_of_mem b hc, hx⟩, fun hmem => ?_⟩
        rcases List.mem_append.mp hmem with hmem | hmem
        · exact hb c hc x (hsub x hmem) hx
        · exact hnot hmem
    · next hreply =>
      refine ⟨hpos'.trans hpos, hcom'.trans hcom, hmis'.trans hmis, _, hhandled, hboth,
        fun h => (by cases h), fun _ => ?_⟩
      obtain ⟨x, hx, hnot⟩ := hsome (decide_eq_false (by rw [hreply]; decide))
      refine ⟨x, ⟨b, List.mem_cons_self, hx⟩, fun hmem => ?_⟩
      exact (List.mem_append.mp hmem).elim hnot (hother x hx)
    · next hreply =>
      -- the process ends here
      refine ⟨hpos, hcom, hmis, extra, hextra, ?_, fun h => (by cases h), fun _ => ?_⟩
      · exact fun x hx => ⟨b, List.mem_cons_self, hsub x hx⟩
      · obtain ⟨x, hx, hnot⟩ := hsome (decide_eq_false (by rw [hreply]; decide))
        exact ⟨x, ⟨b, List.mem_cons_self, hx⟩, hnot⟩

/-! ### The positions -/

/-- What every run keeps: the handled records lie behind the position, and all
    records behind it are handled unless a batch has failed. -/
structure LoopInv (start : TopicPartition → Nat) (s : Forwarder σ) : Prop where
  started : ∀ tp, start tp ≤ s.position tp
  below : ∀ tp o, (tp, o) ∈ s.handled → o < s.position tp
  good : s.missed = false → ∀ tp o, start tp ≤ o → o < s.position tp → (tp, o) ∈ s.handled
  bad : s.missed = true → ∃ tp o, start tp ≤ o ∧ o < s.position tp ∧ (tp, o) ∉ s.handled

theorem loopInv_start (adapter : σ) (start : TopicPartition → Nat) :
    LoopInv start (Forwarder.start adapter start) where
  started := fun _ => Nat.le_refl _
  below := fun _ _ h => by cases h
  good := fun _ tp o h1 h2 => absurd h2 (Nat.not_lt.mpr h1)
  bad := fun h => by cases h

/-- What an iteration does with the batches that it polls. -/
theorem step_handling (s : Forwarder σ) (poll : List (TopicPartition × Nat)) :
    Handling (fun x => s.position x.1 ≤ x.2 ∧ x.2 < (fetch s.position poll).1 x.1)
      { s with position := (fetch s.position poll).1 }
      (handlePartitions a log { s with position := (fetch s.position poll).1 }
        (fetch s.position poll).2).1
      (handlePartitions a log { s with position := (fetch s.position poll).1 }
        (fetch s.position poll).2).2 := by
  obtain ⟨-, hcover, hdisjoint⟩ := fetch_spec s.position poll
  have hspec := handlePartitions_spec a log _ hdisjoint
    { s with position := (fetch s.position poll).1 }
  have hcovered : (fun x => ∃ b ∈ (fetch s.position poll).2, x ∈ b.mark b.offsets) =
      fun x => s.position x.1 ≤ x.2 ∧ x.2 < (fetch s.position poll).1 x.1 := by
    funext x
    exact propext (hcover x.1 x.2)
  rw [hcovered] at hspec
  exact hspec

/-- One poll that is durable keeps the invariant, and one that is not sets
    `missed`. -/
theorem LoopInv.handling {start : TopicPartition → Nat} {s s' : Forwarder σ}
    {position : TopicPartition → Nat} {durable : Bool} (hs : LoopInv start s)
    (hle : ∀ tp, s.position tp ≤ position tp)
    (h : Handling (fun x => s.position x.1 ≤ x.2 ∧ x.2 < position x.1)
      { s with position } s' durable) :
    LoopInv start (if durable then s' else { s' with missed := true }) := by
  obtain ⟨hpos, -, hmissed, extra, hhandled, hsub, hall, hsome⟩ := h
  dsimp only at hpos hmissed hhandled
  have hstarted : ∀ tp, start tp ≤ s'.position tp := by
    intro tp
    rw [hpos]
    exact Nat.le_trans (hs.started tp) (hle tp)
  have hbelow : ∀ tp o, (tp, o) ∈ s'.handled → o < s'.position tp := by
    intro tp o ho
    rw [hhandled] at ho
    rw [hpos]
    rcases List.mem_append.mp ho with ho | ho
    · exact Nat.lt_of_lt_of_le (hs.below tp o ho) (hle tp)
    · exact (hsub _ ho).2
  cases durable with
  | true =>
    refine ⟨hstarted, hbelow, ?_, ?_⟩
    · -- behind the old position, or polled just now
      intro hnone tp o h1 h2
      rw [if_pos rfl, hmissed] at hnone
      rw [if_pos rfl, hpos] at h2
      rw [if_pos rfl, hhandled]
      by_cases ho : o < s.position tp
      · exact List.mem_append_left _ (hs.good hnone tp o h1 ho)
      · exact List.mem_append_right _ (hall rfl (tp, o) ⟨Nat.le_of_not_lt ho, h2⟩)
    · intro hmiss
      rw [if_pos rfl, hmissed] at hmiss
      obtain ⟨tp, o, h1, h2, hnot⟩ := hs.bad hmiss
      refine ⟨tp, o, h1, ?_, fun ho => ?_⟩
      · rw [if_pos rfl, hpos]
        exact Nat.lt_of_lt_of_le h2 (hle tp)
      · -- an old record is not polled again
        rw [if_pos rfl, hhandled] at ho
        rcases List.mem_append.mp ho with ho | ho
        · exact hnot ho
        · exact absurd (hsub _ ho).1 (Nat.not_le.mpr h2)
  | false =>
    refine ⟨hstarted, hbelow, fun h => (by cases h), fun _ => ?_⟩
    obtain ⟨⟨tp, o⟩, ⟨h1, h2⟩, hnot⟩ := hsome rfl
    refine ⟨tp, o, Nat.le_trans (hs.started tp) h1, ?_, fun ho => ?_⟩
    · show o < s'.position tp
      rw [hpos]
      exact h2
    · -- a record that is handled before lies behind the old position
      have ho' : (tp, o) ∈ s'.handled := ho
      rw [hhandled] at ho'
      rcases List.mem_append.mp ho' with ho' | ho'
      · exact absurd (hs.below tp o ho') (Nat.not_lt.mpr h1)
      · exact hnot ho'

/-- An iteration that commits, and one that does not. -/
theorem step_cases (s : Forwarder σ) (poll : List (TopicPartition × Nat)) :
    (s.commits a log poll = true ∧ (s.step a log poll).committed = (s.step a log poll).position ∧
      (s.step a log poll).missed = s.missed) ∨
    (s.commits a log poll = false ∧ (s.step a log poll).committed = s.committed) := by
  have hspec := step_handling a log s poll
  have hempty : (fetch s.position poll).2.isEmpty = poll.isEmpty := by
    cases poll <;> rfl
  by_cases hcommits : s.commits a log poll = true
  · left
    refine ⟨hcommits, ?_⟩
    simp only [Forwarder.commits, Bool.and_eq_true, Bool.not_eq_true'] at hcommits
    obtain ⟨⟨halive, hpoll⟩, hdurable⟩ := hcommits
    unfold Forwarder.step
    dsimp only
    rw [if_pos halive, if_pos hdurable, hempty, hpoll]
    exact ⟨rfl, hspec.missed⟩
  · right
    refine ⟨Bool.eq_false_of_not_eq_true hcommits, ?_⟩
    unfold Forwarder.step
    dsimp only
    split
    · next halive =>
      split
      · next hdurable =>
        split
        · exact hspec.committed
        · next hpoll =>
          rw [hempty] at hpoll
          refine absurd ?_ hcommits
          simp only [Forwarder.commits, Bool.and_eq_true, Bool.not_eq_true']
          exact ⟨⟨halive, Bool.eq_false_of_not_eq_true hpoll⟩, hdurable⟩
      · exact hspec.committed
    · rfl

theorem LoopInv.step {start : TopicPartition → Nat} {s : Forwarder σ} (hs : LoopInv start s)
    (poll : List (TopicPartition × Nat)) : LoopInv start (s.step a log poll) := by
  have hnext := hs.handling (fetch_spec s.position poll).1
    (step_handling a log s poll)
  unfold Forwarder.step
  by_cases halive : s.alive = true
  · rw [if_pos halive]
    dsimp only
    split
    · next hdurable =>
      rw [if_pos hdurable] at hnext
      split
      · exact hnext
      · exact ⟨hnext.started, hnext.below, hnext.good, hnext.bad⟩
    · next hdurable =>
      rw [if_neg hdurable] at hnext
      exact hnext
  · rw [if_neg halive]
    exact hs

/-- Nothing that is handled is forgotten. -/
theorem handled_step (s : Forwarder σ) (poll : List (TopicPartition × Nat)) :
    ∀ x ∈ s.handled, x ∈ (s.step a log poll).handled := by
  intro x hx
  obtain ⟨extra, hextra, -⟩ := (step_handling a log s poll).handled
  have hmem : x ∈ (handlePartitions a log { s with position := (fetch s.position poll).1 }
      (fetch s.position poll).2).1.handled := by
    rw [hextra]
    exact List.mem_append_left _ hx
  unfold Forwarder.step
  dsimp only
  split
  · split
    · split
      · exact hmem
      · exact hmem
    · exact hmem
  · exact hx

theorem loopInv_run (adapter : σ) (start : TopicPartition → Nat)
    (is : List (List (TopicPartition × Nat))) :
    LoopInv start (run (Forwarder.step a log) (Forwarder.start adapter start) is) :=
  run_invariant (P := LoopInv start) (fun _ i h => h.step a log i) (loopInv_start adapter start) is

/-! ### Commits -/

/-- Whatever is committed after a failed batch was not all handled. -/
theorem not_commitSafe {start : TopicPartition → Nat} {s : Forwarder σ} (hs : LoopInv start s)
    {poll : List (TopicPartition × Nat)} (hcommits : s.commits a log poll = true)
    (hmissed : s.missed = true) : ¬ (s.step a log poll).CommitSafe start := by
  rcases step_cases a log s poll with ⟨-, hcommitted, hkeep⟩ | ⟨hno, -⟩
  · intro hsafe
    obtain ⟨tp, o, h1, h2, hnot⟩ := (hs.step a log poll).bad (hkeep.trans hmissed)
    exact hnot (hsafe tp o h1 (by rw [hcommitted]; exact h2))
  · rw [hcommits] at hno
    cases hno

/-- One iteration that meets the condition. -/
theorem CommitSafe.step {start : TopicPartition → Nat} {s : Forwarder σ} (hs : LoopInv start s)
    {poll : List (TopicPartition × Nat)} (hC : s.CommitsNothingMissed a log poll)
    (hsafe : s.CommitSafe start) : (s.step a log poll).CommitSafe start := by
  intro tp o h1 h2
  rcases step_cases a log s poll with ⟨hcommits, hcommitted, hkeep⟩ | ⟨-, hkeep⟩
  · rw [hcommitted] at h2
    exact (hs.step a log poll).good (hkeep.trans (hC hcommits)) tp o h1 h2
  · rw [hkeep] at h2
    exact handled_step a log s poll _ (hsafe tp o h1 h2)

/-- **Commit safety.** All that is committed was durably handled, at every
    moment of a run, exactly when no iteration commits after a batch of an
    earlier poll has failed. -/
theorem commits_safe_iff (a : Adapter σ) (log : Log) (adapter : σ) (start : TopicPartition → Nat)
    (is : List (List (TopicPartition × Nat))) :
    (∀ pre, pre <+: is →
      (run (Forwarder.step a log) (Forwarder.start adapter start) pre).CommitSafe start) ↔
    Meets (Forwarder.step a log) (Forwarder.CommitsNothingMissed a log)
      (Forwarder.start adapter start) is := by
  constructor
  · intro hsafe pre poll post his hcommits
    by_contra hmissed
    have hpre : pre ++ [poll] <+: is := ⟨post, by rw [his]; simp⟩
    have hnext := hsafe _ hpre
    rw [run_snoc] at hnext
    exact not_commitSafe a log (loopInv_run a log adapter start pre) hcommits (by simpa using hmissed) hnext
  · intro hmeets
    have hinitial : (Forwarder.start adapter start).CommitSafe start :=
      fun tp o h1 h2 => absurd h2 (Nat.not_lt.mpr h1)
    intro pre hpre
    have hrun : LoopInv start (run (Forwarder.step a log) (Forwarder.start adapter start) pre) ∧
        (run (Forwarder.step a log) (Forwarder.start adapter start) pre).CommitSafe start := by
      refine run_invariant_of_meets (C := Forwarder.CommitsNothingMissed a log)
        (P := fun s => LoopInv start s ∧ s.CommitSafe start) ?_
        ⟨loopInv_start adapter start, hinitial⟩ (hmeets.of_initial hpre)
      exact fun s poll hC ⟨hs, hsafe⟩ => ⟨hs.step a log poll, CommitSafe.step a log hs hC hsafe⟩
    exact hrun.2

/-- A sink whose first write fails. -/
def failsOnce : Adapter Bool where
  recordSuppressed := none
  emitBatch := some fun failed _ => (true, if failed then .returned else .durabilityError)
  emit := fun s _ => (s, .returned)

/-- **Committing past a failed batch.** The batch of the first poll fails, the
    second poll is handled, and its commit covers both. -/
theorem commit_covers_failed :
    let tp : TopicPartition := ⟨"ndr.finding.final.v1", 0⟩
    let log : Log := fun _ o => .obj (sampleFinding (if o = 0 then "f1" else "f2"))
    let s := run (Forwarder.step failsOnce log) (Forwarder.start false fun _ => 0)
      [[(tp, 1)], [(tp, 1)]]
    s.committed tp = 2 ∧ (tp, 0) ∉ s.handled ∧ ¬ s.CommitSafe fun _ => 0 := by
  have hrun : let tp : TopicPartition := ⟨"ndr.finding.final.v1", 0⟩
      let log : Log := fun _ o => .obj (sampleFinding (if o = 0 then "f1" else "f2"))
      let s := run (Forwarder.step failsOnce log) (Forwarder.start false fun _ => 0)
        [[(tp, 1)], [(tp, 1)]]
      s.committed tp = 2 ∧ (tp, 0) ∉ s.handled := by
    decide
  refine ⟨hrun.1, hrun.2, fun hsafe => hrun.2 (hsafe _ 0 (Nat.le_refl _) ?_)⟩
  rw [hrun.1]
  decide

end FindingsForwarder
