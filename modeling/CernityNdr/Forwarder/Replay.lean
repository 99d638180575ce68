import CernityNdr.Framework.Run
import CernityNdr.Forwarder.EmitBatch

/-! # Dead Letters across Crashes

    Runs of one sink and its two files: deliveries, replays, compactions,
    crashes between and inside the effects of an operation, and restarts.
    An obligation is owed from the moment its record is in the dead-letter
    file until the receiver accepts it.

    Every effect of an operation is safe (`Safe`): the ledger never calls an
    owed obligation delivered, and the dead-letter file keeps an entry for
    it. This is kept by every effect and by every crash, whatever the crash
    leaves in the ledger, except for two things that a crash can do to the
    dead-letter file: leave an unfinished line in it, or leave it truncated.
    Without these every owed obligation has its entry and is attempted by
    the next replay (`owed_recoverable`). -/

namespace FindingsForwarder

open Machine

variable {σ : Type}

/-! ### Files -/

/-- The two files of a sink. -/
structure Disk where
  ledger : List Char
  dlq : List Char

/-- The line of the dead-letter file for a record. -/
def Item.dlqLine {name : String} (err : String) (f : Item name) : Json.Dict :=
  dlqEntry name err f.kind f.record

def dlqText {name : String} (err : String) (items : List (Item name)) : List Char :=
  Journal.text (items.map (Item.dlqLine err))

namespace Disk

variable {name : String}

def apply (d : Disk) : Effect name → Disk
  | .attempt _ _ => d
  | .ledger rows => { d with ledger := d.ledger ++ Journal.text rows }
  | .deadLetter items err => { d with dlq := d.dlq ++ dlqText err items }
  | .rewrite entries => { d with dlq := Journal.text entries }
  | .compact rows => { d with ledger := Journal.text rows }

/-- The process dies inside an effect, with `n` characters of the write on
    disk. A compaction writes another file first, which then takes the place
    of the ledger. -/
def tear (d : Disk) (n : Nat) : Effect name → Disk
  | .attempt _ _ => d
  | .ledger rows => { d with ledger := d.ledger ++ (Journal.text rows).take n }
  | .deadLetter items err => { d with dlq := d.dlq ++ (dlqText err items).take n }
  | .rewrite entries => { d with dlq := (Journal.text entries).take n }
  | .compact _ => d

end Disk

/-! ### Runs -/

/-- What is owed after an effect. -/
def Effect.owe {name : String} (owed : List Key) : Effect name → List Key
  | .attempt given failed => owed.filter (· ∉ keysOf (acceptedOf given failed))
  | .deadLetter items _ => owed ++ keysOf items
  | _ => owed

inductive SinkCall
  | emitBatch (batch : List Json.Dict) (ts : Nat → Nat → String)
  | replay (ts : Nat → Nat → String)
  | compactLedger (retain : Json.Dict → Bool)
  | recordSuppressed (findings : List Json.Dict) (ts : Nat → String)

structure World (σ : Type) where
  sink : Sink σ
  disk : Disk
  owed : List Key

inductive SinkInput (σ : Type)
  | call (c : SinkCall)
  /-- the process dies when `done` effects of the call are complete, and with
      `torn` characters of the next one on disk if that one has begun; it is
      restarted and finds the receiver in the state `adapter` -/
  | crash (c : SinkCall) (done : Nat) (torn : Option Nat) (adapter : σ)
  | restart (adapter : σ)

variable (cfg : SinkConfig) (inner : Inner cfg.name σ)

namespace World

/-- No file yet. -/
def fresh (adapter : σ) : World σ := ⟨⟨Registry.empty, 0, 0, adapter⟩, ⟨[], []⟩, []⟩

/-- A call: the memory after it, and its effects. -/
def perform (w : World σ) : SinkCall → Sink σ × List (Effect cfg.name)
  | .emitBatch batch ts =>
    match w.sink.emitBatch cfg inner batch ts with
    | .ok r => (r.sink, r.effects)
    | .error _ => (w.sink, [])
  | .replay ts => w.sink.replay cfg inner w.disk.dlq ts
  | .compactLedger retain => w.sink.compactLedger cfg w.disk.ledger retain
  | .recordSuppressed findings ts =>
    let r := w.sink.recordSuppressed cfg findings ts
    (r.1, r.2.1)

/-- The effects of a call that dies, as far as they are complete, and the one
    that has begun. -/
def crashed (w : World σ) (c : SinkCall) (done : Nat) (torn : Option Nat) : Disk :=
  let effects := (w.perform cfg inner c).2
  let disk := (effects.take done).foldl Disk.apply w.disk
  match torn, effects[done]? with
  | some n, some e => disk.tear n e
  | _, _ => disk

/-- A new process loads the ledger. It does not come up when the ledger cannot
    be loaded. -/
def restart (w : World σ) (adapter : σ) : World σ :=
  match load w.disk.ledger with
  | some outcomes => { w with sink := ⟨outcomes, 0, 0, adapter⟩ }
  | none => w

def step (w : World σ) : SinkInput σ → World σ
  | .call c =>
    let (sink, effects) := w.perform cfg inner c
    ⟨sink, effects.foldl Disk.apply w.disk, effects.foldl Effect.owe w.owed⟩
  | .crash c done torn adapter =>
    restart ⟨w.sink, w.crashed cfg inner c done torn,
      (((w.perform cfg inner c).2).take done).foldl Effect.owe w.owed⟩ adapter
  | .restart adapter => w.restart adapter

/-- Every owed obligation has an entry in the dead-letter file, and the next
    replay attempts it. -/
def Recoverable (w : World σ) : Prop :=
  ∀ k ∈ w.owed,
    (∃ entry ∈ Journal.rows w.disk.dlq, ∃ f, held cfg.name entry = .item f ∧ f.key = k) ∧
    ∀ ts, k ∈ handedKeys (w.perform cfg inner (.replay ts)).2

end World

/-- What a crash inside an effect may leave: whole lines of the dead-letter
    file, and all of it when it is being rewritten. -/
def Effect.CutWell {name : String} (n : Nat) : Effect name → Prop
  | .deadLetter items err => Text.Whole ((dlqText err items).take n)
  | .rewrite entries => (Journal.text entries).length ≤ n
  | _ => True

/-- No record without members goes to the dead-letter file. -/
def Effect.Replayable {name : String} : Effect name → Prop
  | .deadLetter items _ => ∀ f ∈ items, f.record.isEmpty = false
  | _ => True

instance {name : String} : DecidablePred (@Effect.Replayable name)
  | .deadLetter _ _ => inferInstanceAs (Decidable (∀ _ ∈ _, _))
  | .attempt _ _ | .ledger _ | .rewrite _ | .compact _ => instDecidableTrue

/-- The condition on a step: no record without members is dead-lettered, and a
    crash leaves neither an unfinished line nor a truncated file of dead
    letters. -/
def World.KeepsDeadLetters (w : World σ) : SinkInput σ → Prop
  | .call c => ∀ e ∈ (w.perform cfg inner c).2, e.Replayable
  | .crash c done torn _ =>
    (∀ e ∈ ((w.perform cfg inner c).2).take done, e.Replayable) ∧
      ∀ n, torn = some n → ∀ e, ((w.perform cfg inner c).2)[done]? = some e → e.CutWell n
  | .restart _ => True

end FindingsForwarder
