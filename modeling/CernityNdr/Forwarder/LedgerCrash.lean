import CernityNdr.Framework.Run
import CernityNdr.Forwarder.Ledger

/-! # The Ledger across Crashes

    Runs of processes that share one ledger file: calls, crashes that leave a
    part of an append on disk, and restarts. An obligation is settled once a
    call for it has returned.

    A crash may leave an unfinished line. The next append continues that
    line, so its first row is lost with it (`torn_append_loses_outcome`).
    As long as nothing is appended to an unfinished line, every settled
    obligation is in every later index with its latest outcome
    (`settled_durable`). -/

namespace FindingsForwarder

open Machine

/-! ### Runs -/

/-- One outcome that was written for an obligation. -/
structure Disposition where
  key : Key
  outcome : Outcome
  /-- the call that wrote it has returned -/
  returned : Bool

structure LedgerState where
  /-- the file -/
  file : List Char
  /-- the index of the running process -/
  outcomes : Outcomes
  /-- everything that was ever written, oldest first -/
  history : List Disposition
  /-- the obligations that a call has returned for -/
  settled : List Key

inductive LedgerInput
  /-- a call of `record` or `transition` -/
  | call (c : Call)
  /-- the process dies with `n` characters of the append on disk, and is
      restarted -/
  | crash (c : Call) (n : Nat)
  | restart

/-- No file yet. -/
def LedgerState.fresh : LedgerState := ⟨[], Registry.empty, [], []⟩

/-- A new process loads the file. It does not come up when the file cannot be
    loaded. -/
def LedgerState.restart (s : LedgerState) : LedgerState :=
  match load s.file with
  | some outcomes => { s with outcomes }
  | none => s

/-- What a call writes for the history. -/
def Call.dispositions (c : Call) (rows : List Json.Dict) (returned : Bool) : List Disposition :=
  rows.map fun row => ⟨ledgerKey row, c.outcome, returned⟩

/-- The obligations of a call. -/
def Call.keys (c : Call) : List Key :=
  c.findings.filterMap fun f => (recordKey f c.dest).toOption

namespace LedgerState

def call (s : LedgerState) (c : Call) : LedgerState :=
  let w := c.write s.outcomes
  { file := s.file ++ Journal.text w.rows
    outcomes := w.outcomes
    history := s.history ++ c.dispositions w.rows w.raised.isNone
    settled := if w.raised.isNone then s.settled ++ c.keys else s.settled }

def crash (s : LedgerState) (c : Call) (n : Nat) : LedgerState :=
  let w := c.write s.outcomes
  -- the process may have got any part of its rows to disk
  restart { s with
    file := s.file ++ (Journal.text w.rows).take n
    history := s.history ++ c.dispositions w.rows false }

def step (s : LedgerState) : LedgerInput → LedgerState
  | .call c => s.call c
  | .crash c n => s.crash c n
  | .restart => s.restart

end LedgerState

/-! ### What crash consistency asks for -/

/-- `o` was written for `k`, and no call that wrote something for `k` later
    has returned. -/
def LatestOutcome (history : List Disposition) (k : Key) (o : Outcome) : Prop :=
  ∃ pre d post, history = pre ++ d :: post ∧ d.key = k ∧ d.outcome = o ∧
    ∀ later ∈ post, later.returned = true → later.key ≠ k

/-- The next process finds every settled obligation terminal, with its latest
    outcome. -/
def LedgerState.Durable (s : LedgerState) : Prop :=
  ∃ outcomes, load s.file = some outcomes ∧
    ∀ k ∈ s.settled, ∃ o, outcomes.terminal k = some o ∧ LatestOutcome s.history k o

/-- Nothing is appended to an unfinished line. -/
def LedgerState.AppendsToWhole (s : LedgerState) : LedgerInput → Prop
  | .call c => (c.write s.outcomes).rows ≠ [] → Text.Whole s.file
  | .crash c n => (Journal.text (c.write s.outcomes).rows).take n ≠ [] → Text.Whole s.file
  | .restart => True

/-! ### The history -/

theorem LatestOutcome.snoc (history : List Disposition) (d : Disposition) :
    LatestOutcome (history ++ [d]) d.key d.outcome :=
  ⟨history, d, [], rfl, rfl, rfl, by simp⟩

theorem LatestOutcome.append {history : List Disposition} {k : Key} {o : Outcome}
    (h : LatestOutcome history k o) {ds : List Disposition}
    (hds : ∀ d ∈ ds, d.returned = true → d.key ≠ k) : LatestOutcome (history ++ ds) k o := by
  obtain ⟨pre, d, post, rfl, hk, ho, hpost⟩ := h
  refine ⟨pre, d, post ++ ds, by simp, hk, ho, ?_⟩
  intro later hlater
  rcases List.mem_append.mp hlater with hl | hl
  · exact hpost later hl
  · exact hds later hl

/-- Every outcome of the index is the latest one. -/
def Current (history : List Disposition) (outcomes : Outcomes) : Prop :=
  ∀ k o, outcomes.terminal k = some o → LatestOutcome history k o

/-- A row that is learned is the latest one of its key. -/
theorem Current.learn {history : List Disposition} {outcomes : Outcomes}
    (h : Current history outcomes) {row : Json.Dict} {o : Outcome} (ho : row.get "outcome" = o.1)
    (returned : Bool) :
    Current (history ++ [⟨ledgerKey row, o, returned⟩]) (outcomes.learn row) := by
  rw [Outcomes.learn_of_truthy outcomes ho]
  intro k o' hk
  rw [Outcomes.terminal_put] at hk
  by_cases heq : ledgerKey row = k
  · rw [if_pos heq] at hk
    cases hk
    rw [← heq]
    exact LatestOutcome.snoc history _
  · rw [if_neg heq] at hk
    refine (h k o' hk).append ?_
    intro d hd _
    rw [List.mem_singleton.mp hd]
    exact heq

theorem Current.learnAll {c : Call} {rows : List Json.Dict} (returned : Bool)
    (hrows : ∀ row ∈ rows, row.get "outcome" = c.outcome.1) {history : List Disposition}
    {outcomes : Outcomes} (h : Current history outcomes) :
    Current (history ++ c.dispositions rows returned) (outcomes.learnAll rows) := by
  induction rows generalizing history outcomes with
  | nil =>
    rw [Call.dispositions, List.map_nil, List.append_nil]
    exact h
  | cons row rows ih =>
    have hrow := h.learn (hrows row List.mem_cons_self) returned
    have hrest := ih (fun r hr => hrows r (List.mem_cons_of_mem row hr)) hrow
    rw [List.append_assoc] at hrest
    exact hrest

/-- A row that is lost does not matter unless its call has returned. -/
theorem Current.lose {history : List Disposition} {outcomes : Outcomes}
    (h : Current history outcomes) {ds : List Disposition} (hds : ∀ d ∈ ds, d.returned = false) :
    Current (history ++ ds) outcomes := by
  intro k o hk
  refine (h k o hk).append ?_
  intro d hd hret
  rw [hds d hd] at hret
  cases hret

/-! ### The invariant -/

/-- The rows of the file are what the process knows, and everything settled is
    among them. -/
structure LedgerInv (s : LedgerState) : Prop where
  rows : ∃ ms, Journal.rows s.file = ms.map .obj ∧
    s.outcomes = Outcomes.learnAll Registry.empty ms
  current : Current s.history s.outcomes
  settled : ∀ k ∈ s.settled, k ∈ s.outcomes.keys

theorem LedgerInv.fresh : LedgerInv .fresh where
  rows := ⟨[], rfl, rfl⟩
  current := by
    intro k o hk
    cases hk
  settled := by
    intro k hk
    cases hk

theorem LedgerInv.load {s : LedgerState} (h : LedgerInv s) : load s.file = some s.outcomes := by
  obtain ⟨ms, hms, hout⟩ := h.rows
  rw [load_of_rows hms, hout]

theorem LedgerInv.durable {s : LedgerState} (h : LedgerInv s) : s.Durable := by
  refine ⟨s.outcomes, h.load, ?_⟩
  intro k hk
  obtain ⟨entry, hentry⟩ := Registry.mem_keys.mp (h.settled k hk)
  have hterm : s.outcomes.terminal k = some entry.2 := by
    rw [Outcomes.terminal, hentry]
    rfl
  exact ⟨entry.2, hterm, h.current k entry.2 hterm⟩

theorem LedgerInv.call {s : LedgerState} (h : LedgerInv s) (c : Call)
    (hwhole : (c.write s.outcomes).rows ≠ [] → Text.Whole s.file) : LedgerInv (s.call c) := by
  obtain ⟨ms, hms, hout⟩ := h.rows
  have hlearn : (c.write s.outcomes).outcomes = s.outcomes.learnAll (c.write s.outcomes).rows :=
    writeLoop_outcomes c c.findings 0 s.outcomes
  have hrowsout : ∀ row ∈ (c.write s.outcomes).rows, row.get "outcome" = c.outcome.1 :=
    fun row => Call.outcome_of_mem_rows
  refine ⟨⟨ms ++ (c.write s.outcomes).rows, ?_, ?_⟩, ?_, ?_⟩
  -- the file: a call that writes nothing needs no whole file
  · show Journal.rows (s.file ++ Journal.text (c.write s.outcomes).rows) = _
    by_cases hnil : (c.write s.outcomes).rows = []
    · rw [hnil, List.append_nil, show Journal.text [] = [] from rfl, List.append_nil, hms]
    · rw [Journal.rows_append_text (hwhole hnil), hms, List.map_append]
  · show (c.write s.outcomes).outcomes = _
    rw [hlearn, Outcomes.learnAll_append, ← hout]
  -- the history grows by the rows that the index learns
  · show Current (s.history ++ c.dispositions _ _) (c.write s.outcomes).outcomes
    rw [hlearn]
    exact h.current.learnAll _ hrowsout
  · have hold : ∀ k ∈ s.settled, k ∈ (c.write s.outcomes).outcomes.keys := by
      intro k hk
      rw [hlearn]
      exact Outcomes.mem_keys_learnAll (h.settled k hk) _
    show ∀ k ∈ (if (c.write s.outcomes).raised.isNone then s.settled ++ c.keys else s.settled),
      k ∈ (c.write s.outcomes).outcomes.keys
    split
    · next hret =>
      intro k hk
      rcases List.mem_append.mp hk with hk | hk
      · exact hold k hk
      · obtain ⟨f, hf, hkey⟩ := List.mem_filterMap.mp hk
        obtain ⟨k', hk', hmem⟩ := writeLoop_settles c c.findings 0 s.outcomes
          (Option.isNone_iff_eq_none.mp hret) f hf
        rw [hk'] at hkey
        cases hkey
        exact hmem
    · exact hold

theorem LedgerInv.crash {s : LedgerState} (h : LedgerInv s) (c : Call) (n : Nat)
    (hwhole : (Journal.text (c.write s.outcomes).rows).take n ≠ [] → Text.Whole s.file) :
    LedgerInv (s.crash c n) := by
  obtain ⟨ms, hms, hout⟩ := h.rows
  -- the rows that are on disk completely
  obtain ⟨kept, hkept, hrows⟩ : ∃ kept, kept <+: (c.write s.outcomes).rows ∧
      Journal.rows (s.file ++ (Journal.text (c.write s.outcomes).rows).take n) =
        (ms ++ kept).map .obj := by
    by_cases hnil : (Journal.text (c.write s.outcomes).rows).take n = []
    · refine ⟨[], List.nil_prefix, ?_⟩
      rw [hnil, List.append_nil, List.append_nil, hms]
    · obtain ⟨kept, hkept, heq⟩ := Journal.rows_append_cut (hwhole hnil)
        (List.take_prefix n (Journal.text (c.write s.outcomes).rows))
      exact ⟨kept, hkept, by rw [heq, hms, List.map_append]⟩
  obtain ⟨lost, hlost⟩ := hkept
  have hcrash : s.crash c n = { s with
      file := s.file ++ (Journal.text (c.write s.outcomes).rows).take n
      outcomes := Outcomes.learnAll Registry.empty (ms ++ kept)
      history := s.history ++ c.dispositions (c.write s.outcomes).rows false } := by
    unfold LedgerState.crash LedgerState.restart
    simp only [load_of_rows hrows]
  have hlearn : Outcomes.learnAll Registry.empty (ms ++ kept) = s.outcomes.learnAll kept := by
    rw [Outcomes.learnAll_append, ← hout]
  rw [hcrash]
  refine ⟨⟨ms ++ kept, hrows, rfl⟩, ?_, ?_⟩
  · have hsplit : c.dispositions (c.write s.outcomes).rows false =
        c.dispositions kept false ++ c.dispositions lost false := by
      rw [← hlost, Call.dispositions, List.map_append]
      rfl
    have hkeptout : ∀ row ∈ kept, row.get "outcome" = c.outcome.1 :=
      fun row hrow => Call.outcome_of_mem_rows (by rw [← hlost]; exact List.mem_append_left _ hrow)
    show Current (s.history ++ c.dispositions (c.write s.outcomes).rows false)
      (Outcomes.learnAll Registry.empty (ms ++ kept))
    rw [hlearn, hsplit, ← List.append_assoc]
    -- the rows that were lost belong to a call that has not returned
    refine (h.current.learnAll false hkeptout).lose ?_
    intro d hd
    obtain ⟨row, -, rfl⟩ := List.mem_map.mp hd
    rfl
  · intro k hk
    show k ∈ (Outcomes.learnAll Registry.empty (ms ++ kept)).keys
    rw [hlearn]
    exact Outcomes.mem_keys_learnAll (h.settled k hk) _

theorem LedgerInv.step {s : LedgerState} (i : LedgerInput) (hi : s.AppendsToWhole i)
    (h : LedgerInv s) : LedgerInv (s.step i) := by
  cases i with
  | call c => exact h.call c hi
  | crash c n => exact h.crash c n hi
  | restart =>
    have hload := h.load
    show LedgerInv s.restart
    unfold LedgerState.restart
    rw [hload]
    exact h

/-- **Settled obligations survive crashes and restarts**, in every run in which
    nothing is appended to an unfinished line. -/
theorem settled_durable (is : List LedgerInput)
    (h : Meets LedgerState.step LedgerState.AppendsToWhole .fresh is) :
    (run LedgerState.step .fresh is).Durable :=
  (run_invariant_of_meets (fun _ i hi hinv => hinv.step i hi) LedgerInv.fresh h).durable

/-! ### Runs with one crash -/

/-- A finding is recorded as delivered. -/
def recordDelivered (id : String) : Call where
  findings := [sampleFinding id]
  dest := "es"
  outcome := asDelivered
  worker := "w"
  note := none
  ts := fun _ => "2026-01-01T00:00:00+00:00"

/-- The process dies inside its second append and is restarted. -/
theorem settled_durable_tornLast :
    (run LedgerState.step .fresh
      [.call (recordDelivered "f1"), .crash (recordDelivered "f2") 20, .restart]).Durable := by
  apply settled_durable
  apply Meets.cons
  · exact fun _ => Text.Whole.nil
  apply Meets.cons
  · exact fun _ => Journal.whole_text _
  apply Meets.cons
  · trivial
  exact Meets.nil _ _ _

/-- **The obligation is lost.** The process dies inside its first append; the
    next one records another finding, which has no line of its own. -/
theorem torn_append_loses_outcome :
    ¬ (run LedgerState.step .fresh
      [.crash (recordDelivered "f1") 20, .call (recordDelivered "f2"), .restart]).Durable := by
  rintro ⟨outcomes, hload, hdurable⟩
  have hsettled : (run LedgerState.step .fresh
      [.crash (recordDelivered "f1") 20, .call (recordDelivered "f2"), .restart]).settled ≠ [] := by
    decide +kernel
  have hempty : (load (run LedgerState.step .fresh
      [.crash (recordDelivered "f1") 20, .call (recordDelivered "f2"), .restart]).file).map
        (·.keys) = some [] := by
    decide +kernel
  obtain ⟨k, hk⟩ := List.exists_mem_of_ne_nil _ hsettled
  obtain ⟨o, ho, -⟩ := hdurable k hk
  rw [hload, Option.map_some, Option.some.injEq] at hempty
  obtain ⟨entry, hentry, -⟩ := Option.map_eq_some_iff.mp ho
  have hmem : k ∈ outcomes.keys := Registry.mem_keys.mpr ⟨entry, hentry⟩
  rw [hempty] at hmem
  cases hmem

end FindingsForwarder
