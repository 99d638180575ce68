import Mathlib.Data.List.Basic

/-! # Transactions on a Shared Connection

    A database connection on which a statement that changes data opens a
    transaction: what the connection reads (`view`) has the changes of the
    open transaction, what is durable (`committed`) does not. `σ` are the
    statements, and `apply` says what one of them does to the tables.

    A call runs its statements and commits; a `Fault` says which of these
    steps raises. What a fault leaves depends on how the call is written:

    * `write`: nothing rolls back, the statements that ran stay in the open
      transaction (`write_eq_error`).
    * `writeOrRollback`: the transaction is rolled back. -/

/-- What raises in a call: nothing, or the step after `n` statements. -/
abbrev Fault := Option Nat

/-- The exception of a statement or a commit. -/
inductive SqlError
  | raised
deriving DecidableEq, Repr

structure Connection (τ : Type) where
  committed : τ
  view : τ

namespace Connection

variable {τ σ : Type}

/-- A connection to a database in which nothing is open. -/
def fresh (t : τ) : Connection τ := ⟨t, t⟩

/-- Run statements in the open transaction. -/
def execute (c : Connection τ) (apply : τ → σ → τ) (statements : List σ) : Connection τ :=
  { c with view := statements.foldl apply c.view }

def commit (c : Connection τ) : Connection τ := { c with committed := c.view }

def rollback (c : Connection τ) : Connection τ := { c with view := c.committed }

/-- Statements and a commit. -/
def write (c : Connection τ) (apply : τ → σ → τ) (statements : List σ) (fault : Fault) :
    Except SqlError Unit × Connection τ :=
  match fault with
  | none => (.ok (), (c.execute apply statements).commit)
  | some n =>
    -- what ran before stays in the open transaction
    if n ≤ statements.length then (.error .raised, c.execute apply (statements.take n))
    else (.ok (), (c.execute apply statements).commit)

/-- The same under a handler that rolls back when anything raises. -/
def writeOrRollback (c : Connection τ) (apply : τ → σ → τ) (statements : List σ) (fault : Fault) :
    Except SqlError Unit × Connection τ :=
  match c.write apply statements fault with
  | (.ok u, c') => (.ok u, c')
  | (.error e, c') => (.error e, c'.rollback)

/-- No change waits in the open transaction. -/
def Clean (c : Connection τ) : Prop := c.view = c.committed

variable {c c' : Connection τ} {apply : τ → σ → τ} {statements : List σ} {fault : Fault}

theorem clean_fresh (t : τ) : (fresh t).Clean := rfl

theorem clean_commit (c : Connection τ) : c.commit.Clean := rfl

theorem clean_rollback (c : Connection τ) : c.rollback.Clean := rfl

/-- With nothing open there is nothing to roll back. -/
theorem Clean.rollback_eq {c : Connection τ} (h : c.Clean) : c.rollback = c := by
  obtain ⟨committed, view⟩ := c
  obtain rfl : view = committed := h
  rfl

/-- A call that returns commits its statements, and no step of it raises. -/
theorem write_eq_ok {u : Unit} (h : c.write apply statements fault = (.ok u, c')) :
    (∀ n, fault = some n → statements.length < n) ∧ c' = (c.execute apply statements).commit := by
  unfold write at h
  cases fault with
  | none => exact ⟨by simp, (congrArg Prod.snd h).symm⟩
  | some n =>
    simp only at h
    by_cases hn : n ≤ statements.length
    · rw [if_pos hn] at h
      cases h
    · rw [if_neg hn] at h
      refine ⟨fun m hm => ?_, (congrArg Prod.snd h).symm⟩
      cases hm
      omega

/-- A call that raises leaves the statements that ran. -/
theorem write_eq_error {e : SqlError} (h : c.write apply statements fault = (.error e, c')) :
    ∃ n, fault = some n ∧ n ≤ statements.length ∧ c' = c.execute apply (statements.take n) := by
  unfold write at h
  cases fault with
  | none => cases h
  | some n =>
    simp only at h
    by_cases hn : n ≤ statements.length
    · rw [if_pos hn] at h
      exact ⟨n, rfl, hn, (congrArg Prod.snd h).symm⟩
    · rw [if_neg hn] at h
      cases h

theorem writeOrRollback_eq_ok {u : Unit}
    (h : c.writeOrRollback apply statements fault = (.ok u, c')) :
    (∀ n, fault = some n → statements.length < n) ∧ c' = (c.execute apply statements).commit := by
  unfold writeOrRollback at h
  cases hw : c.write apply statements fault with
  | mk res c₁ =>
    rw [hw] at h
    cases res with
    | ok v =>
      cases h
      exact write_eq_ok hw
    | error e => cases h

/-- A step that raises. -/
theorem writeOrRollback_of_le {n : Nat} (hn : n ≤ statements.length) :
    c.writeOrRollback apply statements (some n) = (.error .raised, c.rollback) := by
  simp only [writeOrRollback, write, if_pos hn]
  rfl

/-- A rollback also drops what earlier calls had left. -/
theorem writeOrRollback_eq_error {e : SqlError}
    (h : c.writeOrRollback apply statements fault = (.error e, c')) :
    (∃ n, fault = some n ∧ n ≤ statements.length) ∧ c' = c.rollback := by
  unfold writeOrRollback at h
  cases hw : c.write apply statements fault with
  | mk res c₁ =>
    rw [hw] at h
    cases res with
    | ok v => cases h
    | error e' =>
      cases h
      obtain ⟨n, hn, hle, rfl⟩ := write_eq_error hw
      exact ⟨⟨n, hn, hle⟩, rfl⟩

end Connection
