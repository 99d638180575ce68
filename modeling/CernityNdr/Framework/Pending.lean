import Mathlib.Data.List.Basic

/-! # What is Pending

    A log of issued records, each of them open until it is settled. What is
    issued stays in the log, so that a record can be settled again: nothing
    happens then.

    * `pending_issue`, `pending_settle_open`, `settle_closed`: how the
      number of open records moves with each operation. -/

namespace Pending

variable {α : Type*}

/-- A record that was issued. -/
structure Entry (α : Type*) where
  val : α
  settled : Bool

/-- Issue a record. -/
def issue (log : List (Entry α)) (a : α) : List (Entry α) := log ++ [⟨a, false⟩]

/-- Settle the record that was issued as number `i`. -/
def settle (log : List (Entry α)) (i : Nat) : List (Entry α) :=
  log.modify i fun e => { e with settled := true }

/-- The record was issued and is open. -/
def IsOpen (log : List (Entry α)) (i : Nat) : Prop := (log[i]?).any (!·.settled) = true

instance (log : List (Entry α)) : DecidablePred (IsOpen log) := fun _ => inferInstanceAs (Decidable (_ = _))

/-- How many of the open records satisfy `p`. -/
def pending (p : α → Bool) (log : List (Entry α)) : Nat := log.countP fun e => p e.val && !e.settled

variable {p : α → Bool} {log : List (Entry α)} {i j : Nat} {a : α}

theorem pending_issue :
    pending p (issue log a) = pending p log + if p a = true then 1 else 0 := by
  rw [pending, issue, List.countP_append, List.countP_singleton, ← pending]
  simp

theorem val_settle : ((settle log i)[j]?).map Entry.val = (log[j]?).map Entry.val := by
  rw [settle, List.getElem?_modify]
  cases log[j]? with
  | none => rfl
  | some e =>
    by_cases hij : i = j
    · simp [hij]
    · simp [hij]

theorem val_issue {b : α} (h : (log[j]?).map Entry.val = some b) :
    ((issue log a)[j]?).map Entry.val = some b := by
  obtain ⟨e, he, rfl⟩ := Option.map_eq_some_iff.mp h
  rw [issue, List.getElem?_append_left (List.getElem?_eq_some_iff.mp he).1, he]
  rfl

/-- A record that is settled is open no more. -/
theorem pending_settle_open (hopen : IsOpen log i) (ha : (log[i]?).map Entry.val = some a) :
    pending p (settle log i) + (if p a = true then 1 else 0) = pending p log := by
  induction log generalizing i with
  | nil => cases ha
  | cons e log ih =>
    cases i with
    | zero =>
      obtain rfl : e.val = a := Option.some.inj ha
      have hsettled : e.settled = false := by simpa [IsOpen] using hopen
      simp [settle, pending, List.countP_cons, hsettled]
    | succ i =>
      have htail := ih hopen ha
      rw [settle, pending] at htail ⊢
      rw [pending] at htail ⊢
      rw [List.modify_succ_cons, List.countP_cons, List.countP_cons]
      omega

/-- Settling what is not open changes nothing. -/
theorem settle_closed (hclosed : ¬IsOpen log i) : settle log i = log := by
  apply List.ext_getElem?
  intro j
  rw [settle, List.getElem?_modify]
  by_cases hij : i = j
  · subst hij
    cases he : log[i]? with
    | none => rfl
    | some e =>
      have hsettled : e.settled = true := by simpa [IsOpen, he] using hclosed
      obtain ⟨val, settled⟩ := e
      simp_all
  · simp [hij]

end Pending
