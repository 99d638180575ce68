import CernityNdr.Framework.Journal
import CernityNdr.Framework.Registry
import CernityNdr.Forwarder.Records

/-! # The Obligation Ledger

    The model of `DurableLedger`: an append-only file of one row per
    recorded outcome, and the index of outcomes that a process builds from it
    when it starts (`load`) and keeps up to date with every row it appends
    (`writeLoop`).

    * `writeLoop_outcomes`: the index after a call is the index before it
      with the appended rows learned.
    * `load_of_rows`: loading a file learns its rows in order. -/

namespace FindingsForwarder

/-! ### The index -/

/-- An outcome that the truth test of the source lets through. -/
abbrev Outcome := { v : Json // v.truthy = true }

def asDelivered : Outcome := ⟨.str "delivered", by decide⟩

def asDeadLettered : Outcome := ⟨.str "dead_lettered", by decide⟩

def asSuppressed : Outcome := ⟨.str "suppressed", by decide⟩

/-- `self.outcome`: what is known of each obligation. -/
abbrev Outcomes := Registry (Prod.fst : Key × Outcome → Key)

namespace Outcomes

/-- The outcome of an obligation. -/
def terminal (outcomes : Outcomes) (k : Key) : Option Outcome := (outcomes.get? k).map Prod.snd

/-- What one row of the file adds to the index. -/
def learn (outcomes : Outcomes) (row : Json.Dict) : Outcomes :=
  -- a row without an outcome is skipped
  if h : (row.get "outcome").truthy = true then
    outcomes.put (ledgerKey row, ⟨row.get "outcome", h⟩)
  else outcomes

/-- What the rows of a file add to the index. -/
def learnAll (outcomes : Outcomes) (rows : List Json.Dict) : Outcomes := rows.foldl learn outcomes

end Outcomes

/-- `DurableLedger.__init__`. A line that decodes to something else than an
    object makes it raise. -/
def load (file : List Char) : Option Outcomes :=
  (Journal.rows file).foldlM (fun outcomes v => v.obj?.map outcomes.learn) Registry.empty

/-! ### Calls -/

/-- The arguments of one call. -/
structure Call where
  findings : List Json.Dict
  dest : String
  outcome : Outcome
  worker : String
  /-- `transition` has a note and overwrites, `record` has none and keeps
      what is there -/
  note : Option String
  /-- the clock, for each finding of the call -/
  ts : Nat → String

/-- What a call did: the index, the rows it appended, and whether it raised. -/
structure Written where
  outcomes : Outcomes
  rows : List Json.Dict
  raised : Option ExportError

/-- The loop of `record` and `transition`. Rows that were written before the
    call raises are in the file. -/
def writeLoop (c : Call) (i : Nat) (outcomes : Outcomes) : List Json.Dict → Written
  | [] => ⟨outcomes, [], none⟩
  | f :: fs =>
    match recordKey f c.dest with
    -- the key raises, with the rows before it already written
    | .error e => ⟨outcomes, [], some e⟩
    | .ok k =>
      -- already terminal: don't double-record
      if c.note = none ∧ k ∈ outcomes.keys then writeLoop c (i + 1) outcomes fs
      else
        match ledgerFields f with
        | .error e => ⟨outcomes, [], some e⟩
        | .ok fields =>
          let row := ledgerRow fields c.dest c.outcome c.worker c.note (c.ts i)
          let rest := writeLoop c (i + 1) (outcomes.put (k, c.outcome)) fs
          { rest with rows := row :: rest.rows }

/-- `record` and `transition`. -/
def Call.write (c : Call) (outcomes : Outcomes) : Written := writeLoop c 0 outcomes c.findings

/-! ### Compaction -/

/-- The latest row of each key, in the order in which the keys appeared. -/
def latest (rows : List Json.Dict) : Registry ledgerKey := rows.foldl Registry.put Registry.empty

/-- The rows that `compact` retains: the latest of each key, less those that
    the retention drops. -/
def compactRows (retain : Json.Dict → Bool) (rows : List Json.Dict) : List Json.Dict :=
  ((latest rows).filter retain).vals

/-- `compact`: the file that replaces the old one, and the index rebuilt from
    it. A line that decodes to something else than an object makes it raise. -/
def compact (retain : Json.Dict → Bool) (file : List Char) : Option (List Json.Dict × Outcomes) :=
  ((Journal.rows file).mapM Json.obj?).map fun rows =>
    (compactRows retain rows, Outcomes.learnAll Registry.empty (compactRows retain rows))

/-! ### What learning does -/

namespace Outcomes

theorem learn_of_truthy (outcomes : Outcomes) {row : Json.Dict} {o : Outcome}
    (h : row.get "outcome" = o.1) : outcomes.learn row = outcomes.put (ledgerKey row, o) := by
  obtain ⟨v, hv⟩ := o
  obtain rfl : row.get "outcome" = v := h
  unfold learn
  rw [dif_pos hv]

theorem learnAll_append (outcomes : Outcomes) (as bs : List Json.Dict) :
    outcomes.learnAll (as ++ bs) = (outcomes.learnAll as).learnAll bs := by
  simp [learnAll]

theorem terminal_put (outcomes : Outcomes) (k : Key) (o : Outcome) (other : Key) :
    Outcomes.terminal (outcomes.put (k, o)) other =
      if k = other then some o else outcomes.terminal other := by
  unfold terminal
  rw [Registry.get?_put]
  by_cases h : k = other
  · rw [if_pos h, if_pos h]; rfl
  · rw [if_neg h, if_neg h]

/-- What is known stays known. -/
theorem mem_keys_put {outcomes : Outcomes} {k : Key} (h : k ∈ outcomes.keys)
    (entry : Key × Outcome) : k ∈ (outcomes.put entry).keys := by
  obtain ⟨old, hold⟩ := Registry.mem_keys.mp h
  rw [Registry.mem_keys, Registry.get?_put]
  by_cases hk : entry.1 = k
  · rw [if_pos hk]; exact ⟨_, rfl⟩
  · rw [if_neg hk]; exact ⟨old, hold⟩

theorem mem_keys_learnAll {outcomes : Outcomes} {k : Key} (h : k ∈ outcomes.keys)
    (rows : List Json.Dict) : k ∈ (outcomes.learnAll rows).keys := by
  induction rows generalizing outcomes with
  | nil => exact h
  | cons row rows ih =>
    apply ih
    unfold learn
    split
    · exact mem_keys_put h _
    · exact h

end Outcomes

/-- What rows of one outcome leave for a key. -/
theorem Outcomes.terminal_learnAll {o : Outcome} (rows : List Json.Dict)
    (h : ∀ row ∈ rows, row.get "outcome" = o.1) (outcomes : Outcomes) (k : Key) :
    (outcomes.learnAll rows).terminal k =
      if k ∈ rows.map ledgerKey then some o else outcomes.terminal k := by
  induction rows generalizing outcomes with
  | nil => rfl
  | cons row rows ih =>
    have hrow := h row List.mem_cons_self
    rw [Outcomes.learnAll, List.foldl_cons, ← Outcomes.learnAll,
      ih (fun r hr => h r (List.mem_cons_of_mem row hr)), Outcomes.learn_of_truthy _ hrow,
      Outcomes.terminal_put, List.map_cons]
    -- a later row of the key wins, and they all say the same
    by_cases hlater : k ∈ rows.map ledgerKey
    · rw [if_pos hlater, if_pos (List.mem_cons_of_mem _ hlater)]
    · rw [if_neg hlater]
      by_cases hk : ledgerKey row = k
      · rw [if_pos hk, if_pos (by simp [hk])]
      · rw [if_neg hk, if_neg]
        rw [List.mem_cons, not_or]
        exact ⟨fun heq => hk heq.symm, hlater⟩

/-- An outcome that was learned comes from a row, or was there before. -/
theorem Outcomes.terminal_learnAll_cases {rows : List Json.Dict} {outcomes : Outcomes} {k : Key}
    {o : Outcome} (h : (outcomes.learnAll rows).terminal k = some o) :
    outcomes.terminal k = some o ∨ ∃ row ∈ rows, ledgerKey row = k ∧ row.get "outcome" = o.1 := by
  induction rows generalizing outcomes with
  | nil => exact Or.inl h
  | cons row rows ih =>
    rcases ih h with hk | ⟨r, hr, hk⟩
    · unfold Outcomes.learn at hk
      split at hk
      · next htrue =>
        rw [Outcomes.terminal_put] at hk
        by_cases heq : ledgerKey row = k
        · rw [if_pos heq] at hk
          cases hk
          exact Or.inr ⟨row, List.mem_cons_self, heq, rfl⟩
        · rw [if_neg heq] at hk
          exact Or.inl hk
      · exact Or.inl hk
    · exact Or.inr ⟨r, List.mem_cons_of_mem row hr, hk⟩

/-- Every row with an outcome is known. -/
theorem Outcomes.mem_keys_learnAll_of_mem {rows : List Json.Dict} {row : Json.Dict}
    (h : row ∈ rows) (htrue : (row.get "outcome").truthy = true) (outcomes : Outcomes) :
    ledgerKey row ∈ (outcomes.learnAll rows).keys := by
  induction rows generalizing outcomes with
  | nil => cases h
  | cons r rows ih =>
    rcases List.mem_cons.mp h with rfl | h
    · have hput : ledgerKey row ∈ (outcomes.learn row).keys := by
        rw [Outcomes.learn_of_truthy outcomes (o := ⟨row.get "outcome", htrue⟩) rfl,
          Registry.mem_keys]
        exact ⟨_, Registry.get?_put_self outcomes (ledgerKey row, ⟨row.get "outcome", htrue⟩)⟩
      exact Outcomes.mem_keys_learnAll hput rows
    · exact ih h (outcomes.learn r)

/-- Loading a file learns its rows in order. -/
theorem load_of_rows {file : List Char} {ms : List Json.Dict}
    (h : Journal.rows file = ms.map .obj) : load file = some (Outcomes.learnAll Registry.empty ms) := by
  have hfold : ∀ (ms : List Json.Dict) (outcomes : Outcomes),
      (ms.map Json.obj).foldlM (fun outcomes v => v.obj?.map outcomes.learn) outcomes =
        some (outcomes.learnAll ms) := by
    intro ms
    induction ms with
    | nil => exact fun _ => rfl
    | cons m ms ih =>
      intro outcomes
      rw [List.map_cons, List.foldlM_cons]
      exact ih (outcomes.learn m)
  rw [load, h]
  exact hfold ms Registry.empty

/-- Compaction keeps rows, and makes none. -/
theorem mem_compactRows {retain : Json.Dict → Bool} {rows : List Json.Dict} {row : Json.Dict}
    (h : row ∈ compactRows retain rows) : row ∈ rows := by
  -- what is in the registry came from the rows folded so far
  have hfold : ∀ (rows : List Json.Dict) (r : Registry ledgerKey),
      ∀ row ∈ (rows.foldl Registry.put r).vals, row ∈ r.vals ∨ row ∈ rows := by
    intro rows
    induction rows with
    | nil => exact fun _ _ h => Or.inl h
    | cons m rows ih =>
      intro r row hrow
      rcases ih (r.put m) row hrow with h | h
      · rcases Registry.mem_put h with h | rfl
        · exact Or.inl h
        · exact Or.inr List.mem_cons_self
      · exact Or.inr (List.mem_cons_of_mem m h)
  have hlatest : row ∈ (latest rows).vals := (List.mem_filter.mp h).1
  rcases hfold rows Registry.empty row hlatest with h | h
  · cases h
  · exact h

/-! ### What a call writes -/

theorem get_outcome_ledgerRow {record fields : Json.Dict} (h : ledgerFields record = .ok fields)
    (dest : String) (outcome : Json) (worker : String) (note : Option String) (ts : String) :
    (ledgerRow fields dest outcome worker note ts).get "outcome" = outcome := by
  obtain ⟨_, hid, h'⟩ := Except.bind_eq_ok.mp h
  obtain ⟨f, hf, -⟩ := Except.bind_eq_ok.mp h'
  obtain ⟨kind, identity, revision, hid, -⟩ := recordIdentity_of_export hf
  rw [ledgerFields_eq hf hid] at h
  cases h
  cases kind <;> cases note <;> rfl

theorem tagged_ledgerRow {record fields : Json.Dict} (h : ledgerFields record = .ok fields)
    (dest : String) (outcome : Json) (worker : String) (note : Option String) (ts : String) :
    Json.Tagged (ledgerRow fields dest outcome worker note ts) := by
  obtain ⟨_, hid, h'⟩ := Except.bind_eq_ok.mp h
  obtain ⟨f, hf, -⟩ := Except.bind_eq_ok.mp h'
  obtain ⟨kind, identity, revision, hid, -⟩ := recordIdentity_of_export hf
  rw [ledgerFields_eq hf hid] at h
  cases h
  exact Json.tagged_of_key (k := "tenant_id") (d := 't') rfl (by decide) rfl (by decide) _ _

/-- Learning the row of a finding stores the outcome under its key. -/
theorem learn_ledgerRow {record fields : Json.Dict} {dest : String} {k : Key}
    (hk : recordKey record dest = .ok k) (hf : ledgerFields record = .ok fields)
    (outcomes : Outcomes) (o : Outcome) (worker : String) (note : Option String) (ts : String) :
    outcomes.learn (ledgerRow fields dest o worker note ts) = outcomes.put (k, o) := by
  rw [Outcomes.learn_of_truthy _ (get_outcome_ledgerRow hf ..), ledgerKey_ledgerRow hk hf]

/-- What is known of a row that a call wrote for one of its findings. -/
structure Call.RowFor (c : Call) (row : Json.Dict) (f : Json.Dict) : Prop where
  key : recordKey f c.dest = .ok (ledgerKey row)
  outcome : row.get "outcome" = c.outcome.1
  tagged : Json.Tagged row

/-- Every row is written for a finding of the call. -/
theorem writeLoop_rows (c : Call) (fs : List Json.Dict) (i : Nat) (outcomes : Outcomes) :
    ∀ row ∈ (writeLoop c i outcomes fs).rows, ∃ f ∈ fs, c.RowFor row f := by
  induction fs generalizing i outcomes with
  | nil =>
    intro row hrow
    cases hrow
  | cons f fs ih =>
    have hlater : ∀ {rows : List Json.Dict}, (∀ row ∈ rows, ∃ f ∈ fs, c.RowFor row f) →
        ∀ row ∈ rows, ∃ g ∈ f :: fs, c.RowFor row g := by
      intro rows h row hrow
      obtain ⟨g, hg, hfor⟩ := h row hrow
      exact ⟨g, List.mem_cons_of_mem f hg, hfor⟩
    unfold writeLoop
    split
    · intro row hrow
      cases hrow
    · next k hk =>
      split
      · exact hlater (ih (i + 1) outcomes)
      · split
        · intro row hrow
          cases hrow
        · next fields hfields =>
          intro row hrow
          rcases List.mem_cons.mp hrow with rfl | hrow
          · refine ⟨f, List.mem_cons_self, ?_, get_outcome_ledgerRow hfields .., ?_⟩
            · rw [hk, ledgerKey_ledgerRow hk hfields]
            · exact tagged_ledgerRow hfields ..
          · exact hlater (ih (i + 1) _) row hrow

/-- **The index after a call is the index before it with the appended rows
    learned.** -/
theorem writeLoop_outcomes (c : Call) (fs : List Json.Dict) (i : Nat) (outcomes : Outcomes) :
    (writeLoop c i outcomes fs).outcomes = outcomes.learnAll (writeLoop c i outcomes fs).rows := by
  induction fs generalizing i outcomes with
  | nil => rfl
  | cons f fs ih =>
    unfold writeLoop
    split
    · rfl
    · next k hk =>
      split
      · exact ih (i + 1) outcomes
      · split
        · rfl
        · next fields hfields =>
          rw [ih (i + 1)]
          rw [← learn_ledgerRow hk hfields outcomes c.outcome c.worker c.note (c.ts i)]
          rfl

/-- After a call that returned, every one of its findings is in the index. -/
theorem writeLoop_settles (c : Call) (fs : List Json.Dict) (i : Nat) (outcomes : Outcomes)
    (h : (writeLoop c i outcomes fs).raised = none) :
    ∀ f ∈ fs, ∃ k, recordKey f c.dest = .ok k ∧ k ∈ (writeLoop c i outcomes fs).outcomes.keys := by
  induction fs generalizing i outcomes with
  | nil =>
    intro f hf
    cases hf
  | cons f fs ih =>
    rw [writeLoop_outcomes]
    unfold writeLoop at h ⊢
    split
    · next e hk =>
      simp only [hk] at h
      cases h
    · next k hk =>
      simp only [hk] at h
      split
      · next hskip =>
        -- already terminal, so known
        rw [if_pos hskip] at h
        intro g hg
        rcases List.mem_cons.mp hg with rfl | hg
        · exact ⟨k, hk, Outcomes.mem_keys_learnAll hskip.2 _⟩
        · rw [← writeLoop_outcomes]
          exact ih (i + 1) outcomes h g hg
      · next hskip =>
        rw [if_neg hskip] at h
        split
        · next e hfields =>
          simp only [hfields] at h
          cases h
        · next fields hfields =>
          simp only [hfields] at h
          -- written now, and not forgotten by the rows behind it
          have hput : k ∈ (outcomes.put (k, c.outcome)).keys := by
            rw [Registry.mem_keys]
            exact ⟨_, Registry.get?_put_self outcomes (k, c.outcome)⟩
          intro g hg
          dsimp only
          rw [Outcomes.learnAll, List.foldl_cons, learn_ledgerRow hk hfields]
          rcases List.mem_cons.mp hg with rfl | hg
          · exact ⟨k, hk, Outcomes.mem_keys_learnAll hput _⟩
          · obtain ⟨k', hk', hmem⟩ := ih (i + 1) _ h g hg
            rw [writeLoop_outcomes] at hmem
            exact ⟨k', hk', hmem⟩

/-- Every row that a call writes has its outcome. -/
theorem Call.outcome_of_mem_rows {c : Call} {outcomes : Outcomes} {row : Json.Dict}
    (h : row ∈ (c.write outcomes).rows) : row.get "outcome" = c.outcome.1 := by
  obtain ⟨f, -, hfor⟩ := writeLoop_rows c c.findings 0 outcomes row h
  exact hfor.outcome

/-- What a call leaves for a key. -/
theorem Call.write_terminal (c : Call) (outcomes : Outcomes) (k : Key) :
    (c.write outcomes).outcomes.terminal k =
      if k ∈ (c.write outcomes).rows.map ledgerKey then some c.outcome
      else outcomes.terminal k := by
  have hlearn : (c.write outcomes).outcomes = outcomes.learnAll (c.write outcomes).rows :=
    writeLoop_outcomes c c.findings 0 outcomes
  rw [hlearn, Outcomes.terminal_learnAll _ (fun row hrow => Call.outcome_of_mem_rows hrow)]

end FindingsForwarder
