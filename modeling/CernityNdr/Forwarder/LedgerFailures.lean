import CernityNdr.Forwarder.LedgerCrash

/-! # The Ledger under Failing Writes

    Runs of one process in which a call of `record`, `transition` or `compact`
    may fail at any write, at the flush or at the fsync. `record` and
    `transition` put an outcome in the index before it is durable; `compact`
    replaces the index after the file.

    * `attemptLoop_spec`: what a call that fails has put in the index.
    * `terminal_compactRows`: compaction changes no outcome.
    * `ledger_agrees`: the index is what a new process loads, as long as a call
      that fails leaves on disk what it has put in the index. -/

namespace FindingsForwarder

/-! ### Calls that fail -/

/-- How far the disk lets a call come. -/
structure Fault where
  /-- so many writes return; the next one raises, or else the flush or the
      fsync -/
  writes : Nat
  /-- so many characters of the text are on disk -/
  kept : Nat

/-- What a call did before it raised: the index, the rows that are in it, and
    the row whose write raised. -/
structure Attempt where
  outcomes : Outcomes
  learned : List Json.Dict
  torn : Option Json.Dict

/-- The loop of `record` and `transition` on a disk that takes `writes` rows. -/
def attemptLoop (c : Call) (i : Nat) (outcomes : Outcomes) (writes : Nat) :
    List Json.Dict → Attempt
  | [] => ⟨outcomes, [], none⟩
  | f :: fs =>
    match recordKey f c.dest with
    | .error _ => ⟨outcomes, [], none⟩
    | .ok k =>
      if c.note = none ∧ k ∈ outcomes.keys then attemptLoop c (i + 1) outcomes writes fs
      else
        match ledgerFields f with
        | .error _ => ⟨outcomes, [], none⟩
        | .ok fields =>
          let row := ledgerRow fields c.dest c.outcome c.worker c.note (c.ts i)
          match writes with
          | 0 => ⟨outcomes, [], some row⟩
          | writes + 1 =>
            let rest := attemptLoop c (i + 1) (outcomes.put (k, c.outcome)) writes fs
            { rest with learned := row :: rest.learned }

def Call.attempt (c : Call) (writes : Nat) (outcomes : Outcomes) : Attempt :=
  attemptLoop c 0 outcomes writes c.findings

/-! ### Runs -/

/-- The file, and the index of the running process. -/
structure Ledger where
  file : List Char
  outcomes : Outcomes

inductive LedgerOp
  /-- a call of `record` or `transition` -/
  | write (c : Call)
  /-- one that raises for the disk -/
  | failedWrite (c : Call) (fault : Fault)
  | compact (retain : Json.Dict → Bool)
  /-- one that raises before the file is replaced -/
  | failedCompact

def Ledger.fresh : Ledger := ⟨[], Registry.empty⟩

def Ledger.step (s : Ledger) : LedgerOp → Ledger
  | .write c =>
    let w := c.write s.outcomes
    ⟨s.file ++ Journal.text w.rows, w.outcomes⟩
  | .failedWrite c fault =>
    let a := c.attempt fault.writes s.outcomes
    ⟨s.file ++ (Journal.text (a.learned ++ a.torn.toList)).take fault.kept, a.outcomes⟩
  | .compact retain =>
    match compact retain s.file with
    | some (rows, outcomes) => ⟨Journal.text rows, outcomes⟩
    | none => s
  | .failedCompact => s

/-- The index is what a new process loads, and every outcome in it has a
    line. -/
structure Ledger.Agrees (s : Ledger) : Prop where
  loaded : load s.file = some s.outcomes
  durable : ∀ k o, s.outcomes.terminal k = some o → ∃ row, .obj row ∈ Journal.rows s.file ∧
    ledgerKey row = k ∧ row.get "outcome" = o.1

/-- A call that fails leaves on disk the lines of the rows that it has put in
    the index, and nothing of another one. -/
def Ledger.Leaves (s : Ledger) : LedgerOp → Prop
  | .failedWrite c fault =>
    let a := c.attempt fault.writes s.outcomes
    (Journal.text (a.learned ++ a.torn.toList)).take fault.kept = Journal.text a.learned
  | _ => True

/-- A ledger as it was loaded: whole lines, each with an outcome. -/
structure Ledger.Sound (s : Ledger) : Prop where
  whole : Text.Whole s.file
  rows : ∃ ms, Journal.rows s.file = ms.map .obj ∧
    s.outcomes = Outcomes.learnAll Registry.empty ms ∧ ∀ m ∈ ms, (m.get "outcome").truthy = true

/-! ### What a call that fails has done -/

/-- **A call that fails** has put the first of its rows in the index. -/
theorem attemptLoop_spec (c : Call) (fs : List Json.Dict) (i : Nat) (outcomes : Outcomes) (writes : Nat) :
    (attemptLoop c i outcomes writes fs).learned = (writeLoop c i outcomes fs).rows.take writes ∧
      (attemptLoop c i outcomes writes fs).outcomes =
        outcomes.learnAll (attemptLoop c i outcomes writes fs).learned := by
  induction fs generalizing i outcomes writes with
  | nil => exact ⟨List.take_nil.symm, rfl⟩
  | cons f fs ih =>
    unfold attemptLoop writeLoop
    cases hk : recordKey f c.dest with
    | error e => exact ⟨List.take_nil.symm, rfl⟩
    | ok k =>
      dsimp only
      by_cases hskip : c.note = none ∧ k ∈ outcomes.keys
      · rw [if_pos hskip, if_pos hskip]
        exact ih (i + 1) outcomes writes
      · rw [if_neg hskip, if_neg hskip]
        cases hfields : ledgerFields f with
        | error e => exact ⟨List.take_nil.symm, rfl⟩
        | ok fields =>
          cases writes with
          | zero => exact ⟨List.take_zero.symm, rfl⟩
          | succ writes =>
            obtain ⟨hrows, hlearn⟩ := ih (i + 1) (outcomes.put (k, c.outcome)) writes
            refine ⟨?_, ?_⟩
            · dsimp only
              rw [List.take_succ_cons, hrows]
            · dsimp only
              rw [hlearn, ← learn_ledgerRow hk hfields outcomes c.outcome c.worker c.note (c.ts i)]
              rfl

/-- Every row that a call has put in the index has its outcome. -/
theorem Call.outcome_of_mem_learned {c : Call} {writes : Nat} {outcomes : Outcomes} {row : Json.Dict}
    (h : row ∈ (c.attempt writes outcomes).learned) : row.get "outcome" = c.outcome.1 := by
  rw [Call.attempt, (attemptLoop_spec c c.findings 0 outcomes writes).1] at h
  exact Call.outcome_of_mem_rows (List.mem_of_mem_take h)

/-! ### Compaction -/

/-- The outcome that a row stands for. -/
def outcomeOf (row : Json.Dict) : Option Outcome :=
  if h : (row.get "outcome").truthy = true then some ⟨row.get "outcome", h⟩ else none

theorem outcomeOf_of_truthy {row : Json.Dict} (h : (row.get "outcome").truthy = true) :
    outcomeOf row = some ⟨row.get "outcome", h⟩ := dif_pos h

/-- What rows with outcomes leave for a key: that of the last row of it. -/
theorem terminal_learnAll_latest {rows : List Json.Dict}
    (hrows : ∀ row ∈ rows, (row.get "outcome").truthy = true) {outcomes : Outcomes}
    {r : Registry ledgerKey} (h : ∀ k, outcomes.terminal k = (r.get? k).bind outcomeOf) (k : Key) :
    (outcomes.learnAll rows).terminal k = ((rows.foldl Registry.put r).get? k).bind outcomeOf := by
  induction rows generalizing outcomes r with
  | nil => exact h k
  | cons row rows ih =>
    have hrow := hrows row List.mem_cons_self
    refine ih (fun m hm => hrows m (List.mem_cons_of_mem row hm)) (fun k' => ?_)
    rw [Outcomes.learn_of_truthy outcomes (o := ⟨row.get "outcome", hrow⟩) rfl,
      Outcomes.terminal_put, Registry.get?_put]
    by_cases hk : ledgerKey row = k'
    · rw [if_pos hk, if_pos hk, Option.bind_some, outcomeOf_of_truthy hrow]
    · rw [if_neg hk, if_neg hk]
      exact h k'

/-- **Compaction changes no outcome** when it retains every row. -/
theorem terminal_compactRows {rows : List Json.Dict}
    (hrows : ∀ row ∈ rows, (row.get "outcome").truthy = true) (k : Key) :
    (Outcomes.learnAll Registry.empty (compactRows (fun _ => true) rows)).terminal k =
      (Outcomes.learnAll Registry.empty rows).terminal k := by
  have hempty : ∀ k, Outcomes.terminal Registry.empty k =
      ((Registry.empty : Registry ledgerKey).get? k).bind outcomeOf := fun _ => rfl
  have hcompact : ∀ row ∈ compactRows (fun _ => true) rows, (row.get "outcome").truthy = true :=
    fun row hrow => hrows row (mem_compactRows hrow)
  have hvals : compactRows (fun _ => true) rows = (latest rows).vals :=
    List.filter_eq_self.mpr fun _ _ => rfl
  rw [terminal_learnAll_latest hcompact hempty, terminal_learnAll_latest hrows hempty, hvals,
    Registry.get?_foldl_put _ (latest rows).nodup, Registry.get?_empty, Option.or_none]
  rfl

/-! ### The invariant -/

variable {s : Ledger}

theorem Ledger.Sound.fresh : Ledger.fresh.Sound := ⟨Text.Whole.nil, [], rfl, rfl, nofun⟩

theorem Ledger.Sound.agrees (h : s.Sound) : s.Agrees := by
  obtain ⟨-, ms, hms, hout, -⟩ := h
  constructor
  · rw [load_of_rows hms, hout]
  · intro k o hk
    rw [hout] at hk
    rcases Outcomes.terminal_learnAll_cases hk with hnone | ⟨row, hrow, hkey, houtcome⟩
    · cases hnone
    · exact ⟨row, by rw [hms]; exact List.mem_map_of_mem hrow, hkey, houtcome⟩

/-- Rows that are learned and whose lines are appended. -/
theorem Ledger.Sound.append (h : s.Sound) {rows : List Json.Dict}
    (hrows : ∀ row ∈ rows, (row.get "outcome").truthy = true) :
    Ledger.Sound ⟨s.file ++ Journal.text rows, s.outcomes.learnAll rows⟩ := by
  obtain ⟨hwhole, ms, hms, hout, htruthy⟩ := h
  refine ⟨hwhole.append (Journal.whole_text rows), ms ++ rows, ?_, ?_, ?_⟩
  · rw [Journal.rows_append_text hwhole, hms, List.map_append]
  · rw [Outcomes.learnAll_append, ← hout]
  · exact fun m hm => (List.mem_append.mp hm).elim (htruthy m) (hrows m)

theorem mapM_obj? (ms : List Json.Dict) : (ms.map Json.obj).mapM Json.obj? = some ms := by
  induction ms with
  | nil => rfl
  | cons m ms ih =>
    rw [List.map_cons, List.mapM_cons, ih]
    rfl

/-- What `compact` makes of a sound ledger. -/
theorem step_compact {ms : List Json.Dict} (hms : Journal.rows s.file = ms.map .obj)
    (retain : Json.Dict → Bool) : s.step (.compact retain) =
      ⟨Journal.text (compactRows retain ms),
        Outcomes.learnAll Registry.empty (compactRows retain ms)⟩ := by
  rw [Ledger.step, compact, hms, mapM_obj?]
  rfl

theorem Ledger.Sound.compact (h : s.Sound) (retain : Json.Dict → Bool) :
    (s.step (.compact retain)).Sound := by
  obtain ⟨-, ms, hms, -, htruthy⟩ := h
  rw [step_compact hms]
  exact ⟨Journal.whole_text _, _, Journal.rows_text _, rfl, fun m hm => htruthy m (mem_compactRows hm)⟩

/-- A call that leaves its rows on disk keeps the ledger sound. -/
theorem Ledger.Sound.step (h : s.Sound) {op : LedgerOp} (hop : s.Leaves op) : (s.step op).Sound := by
  cases op with
  | write c =>
    have hlearn : (c.write s.outcomes).outcomes = s.outcomes.learnAll (c.write s.outcomes).rows :=
      writeLoop_outcomes c c.findings 0 s.outcomes
    rw [Ledger.step, hlearn]
    exact h.append fun row hrow => by rw [Call.outcome_of_mem_rows hrow]; exact c.outcome.2
  | failedWrite c fault =>
    have hlearn := (attemptLoop_spec c c.findings 0 s.outcomes fault.writes).2
    change Ledger.Sound ⟨_ ++ _, (c.attempt fault.writes s.outcomes).outcomes⟩
    rw [Call.attempt, hlearn, ← Call.attempt]
    rw [show _ = Journal.text _ from hop]
    exact h.append fun row hrow => by rw [Call.outcome_of_mem_learned hrow]; exact c.outcome.2
  | compact retain => exact h.compact retain
  | failedCompact => exact h

/-! ### Every run -/

/-- **The index and the file agree** after every call of a run in which a call
    that fails leaves on disk what it has put in the index; a row has the key
    of its record, and compaction changes no outcome. -/
theorem ledger_agrees (start : Ledger) (hstart : start.Sound) (ops : List LedgerOp)
    (h : Machine.Meets Ledger.step Ledger.Leaves start ops) :
    (∀ pre, pre <+: ops → (Machine.run Ledger.step start pre).Agrees ∧
      ∀ k, ((Machine.run Ledger.step start pre).step (.compact fun _ => true)).outcomes.terminal k =
        (Machine.run Ledger.step start pre).outcomes.terminal k) ∧
    ∀ record dest k fields outcome worker note ts, recordKey record dest = .ok k →
      ledgerFields record = .ok fields → ∃ row : Json.Dict,
        Journal.rows (Journal.text [ledgerRow fields dest outcome worker note ts]) = [.obj row] ∧
          ledgerKey row = k := by
  constructor
  · intro pre hpre
    have hsound : (Machine.run Ledger.step start pre).Sound :=
      Machine.run_invariant_of_meets (P := Ledger.Sound) (fun _ _ hop hs => hs.step hop) hstart
        (h.of_initial hpre)
    refine ⟨hsound.agrees, ?_⟩
    intro k
    obtain ⟨-, ms, hms, hout, htruthy⟩ := hsound
    rw [step_compact hms, hout]
    exact terminal_compactRows htruthy k
  · intro record dest k fields outcome worker note ts hk hfields
    exact ⟨_, Journal.rows_text _, ledgerKey_ledgerRow hk hfields outcome worker note ts⟩

/-- The fsync of the second call fails, when its row is in the index and on disk. -/
theorem ledger_agrees_known : (Machine.run Ledger.step .fresh
    [.write (recordDelivered "f1"), .failedWrite (recordDelivered "f2") ⟨1, 999⟩]).Agrees := by
  refine ((ledger_agrees .fresh .fresh _ ?_).1 _ (List.prefix_refl _)).1
  apply Machine.Meets.cons
  · trivial
  apply Machine.Meets.cons
  · change (Journal.text _).take 999 = _
    decide +kernel
  exact Machine.Meets.nil _ _ _

/-- The flush raises with nothing on disk: the index has the finding, and a new
    process does not. -/
theorem failed_flush_stays_terminal :
    ¬∀ ops, (Machine.run Ledger.step .fresh ops).Agrees := by
  intro h
  have hloaded := (h [.failedWrite (recordDelivered "f1") ⟨1, 0⟩]).loaded
  have hkeys : (Machine.run Ledger.step .fresh
      [.failedWrite (recordDelivered "f1") ⟨1, 0⟩]).outcomes.keys.length = 1 := by decide +kernel
  have hempty : load (Machine.run Ledger.step .fresh
      [.failedWrite (recordDelivered "f1") ⟨1, 0⟩]).file = some Registry.empty := rfl
  rw [hempty] at hloaded
  rw [← Option.some.inj hloaded] at hkeys
  cases hkeys

end FindingsForwarder
