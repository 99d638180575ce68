import Mathlib.Data.List.Dedup
import CernityNdr.Anomaly.OutboundBytes

/-! # What a Row Is Compared With

    The rows that count for a row, whatever keeps the history: those of its
    cohort whose window is over when its own starts, and not too old. What is
    made of them does not depend on their order.

    * `assess_congr`: a finding depends on the rows as a multiset.
    * `findings_eq`: what comes of rows that were scored against these rows.
    * `InOrder.training_eq`: in a run over windows in order the rows that
      count are among those that are done. -/

namespace OutboundBytes

variable {cfg : Config} {env : Env} {rows rows' : List Learned} {row : Row}

/-! ### Order -/

theorem baseline_congr (h : rows.Perm rows') : baseline cfg env rows = baseline cfg env rows' := by
  have hvalues := h.map fun r => r.bytesOut.value
  have hempty : (rows.map fun r => r.bytesOut.value).isEmpty =
      (rows'.map fun r => r.bytesOut.value).isEmpty := by
    rw [Bool.eq_iff_iff, List.isEmpty_iff, List.isEmpty_iff]
    constructor
    · intro hnil
      exact (hnil ▸ hvalues).nil_eq.symm
    · intro hnil
      exact (hnil ▸ hvalues).eq_nil
  simp only [baseline, hempty, Statistics.median_congr hvalues,
    Statistics.medianDistance_congr _ hvalues, hvalues.length_eq,
    Statistics.least_congr (h.map fun r => r.start.value),
    Statistics.greatest_congr (h.map fun r => r.endTime.value)]

theorem members_congr (h : rows.Perm rows') : members rows = members rows' :=
  Statistics.sorted_congr (h.map _).dedup

/-- What comes of a row depends on the multiset of the rows only. -/
theorem assess_congr (h : rows.Perm rows') : assess cfg env row rows = assess cfg env row rows' := by
  have hown := h.filter fun r => decide (r.entity = row.entity)
  have hpeers := h.filter fun r => decide (r.entity ≠ row.entity)
  simp only [assess, baseline_congr hown, baseline_congr hpeers, members_congr hpeers]

/-! ### The rows that count -/

/-- The rows that count for a row. -/
def training (cfg : Config) (all : List Learned) (row : Row) : List Learned :=
  all.filter fun r => r.tenant = row.tenant ∧ r.cohort = row.cohort ∧
    cutoff cfg row.toLearned ≤ r.start.value ∧ r.endTime.value ≤ row.start.value

/-- A row was scored against the rows that count among `all`. -/
structure Fair (cfg : Config) (env : Env) (all : List Learned) (s : Scored) : Prop where
  relevant : s.relevant.Perm (training cfg all s.row)
  finding : s.finding = assess cfg env s.row s.relevant

theorem Fair.finding_eq {all : List Learned} {s : Scored} (h : Fair cfg env all s) :
    s.finding = assess cfg env s.row (training cfg all s.row) := by
  rw [h.finding]
  exact assess_congr h.relevant

theorem training_congr (h : rows.Perm rows') : (training cfg rows row).Perm (training cfg rows' row) :=
  h.filter _

/-- Rows whose window is not over do not count. -/
theorem training_append_of_open (later : List Learned)
    (hopen : ∀ r ∈ later, row.start.value < r.endTime.value) :
    training cfg (rows ++ later) row = training cfg rows row := by
  have hnone : training cfg later row = [] := by
    rw [training, List.filter_eq_nil_iff]
    intro r hr hcounts
    have hclosed := (of_decide_eq_true hcounts).2.2.2
    exact absurd (hopen r hr) (not_lt.mpr hclosed)
  rw [training, List.filter_append]
  exact (congrArg _ hnone).trans (List.append_nil _)

/-- The findings, by the rows that count. -/
theorem findings_eq {all : List Learned} {out : List Scored} (h : ∀ s ∈ out, Fair cfg env all s) :
    findings out = (out.map fun s => s.row).filterMap fun row =>
      assess cfg env row (training cfg all row) := by
  rw [findings, List.filterMap_map]
  exact List.filterMap_congr fun s hs => (h s hs).finding_eq

/-! ### Windows -/

/-- The rows of one window. -/
def OneWindow (batch : List Row) : Prop :=
  batch ≠ [] ∧ ∀ a ∈ batch, ∀ b ∈ batch, a.start.value = b.start.value

theorem flatten_windows (rows : List Row) : (windows rows).flatten = Keyset.sort sortKey rows :=
  List.flatten_splitBy _ _

theorem oneWindow_of_mem {rows batch : List Row} (h : batch ∈ windows rows) : OneWindow batch := by
  refine ⟨List.ne_nil_of_mem_splitBy h, ?_⟩
  have hchain := List.isChain_of_mem_splitBy h
  have htrans : IsTrans Row fun a b => decide (a.start.value = b.start.value) = true :=
    ⟨fun a b c hab hbc => decide_eq_true ((of_decide_eq_true hab).trans (of_decide_eq_true hbc))⟩
  have hsymm : Std.Symm fun a b : Row => decide (a.start.value = b.start.value) = true :=
    ⟨fun a b hab => decide_eq_true (of_decide_eq_true hab).symm⟩
  intro a ha b hb
  by_cases hab : a = b
  · rw [hab]
  · exact of_decide_eq_true (hchain.pairwise.forall ha hb hab)

theorem windows_sorted (rows : List Row) :
    (windows rows).flatten.Pairwise (·.start.value ≤ ·.start.value) := by
  rw [flatten_windows]
  refine (Keyset.sorted_sort sortKey rows).imp ?_
  intro a b h
  exact Prod.Lex.monotone_fst _ _ h

/-- The windows of calls with starts in order are in order. -/
theorem calls_sorted {calls : List (List Row)}
    (h : calls.Pairwise fun a b => ∀ r ∈ a, ∀ r' ∈ b, r.start.value ≤ r'.start.value) :
    (calls.flatMap windows).flatten.Pairwise (·.start.value ≤ ·.start.value) := by
  rw [List.flatMap, List.flatten_flatten, List.map_map]
  rw [List.pairwise_flatten]
  constructor
  · intro l hl
    obtain ⟨call, -, rfl⟩ := List.mem_map.mp hl
    exact windows_sorted call
  · refine List.pairwise_map.mpr (h.imp ?_)
    intro a b hab r hr r' hr'
    simp only [Function.comp_apply, flatten_windows] at hr hr'
    exact hab r ((Keyset.perm_sort _ _).mem_iff.mp hr) r' ((Keyset.perm_sort _ _).mem_iff.mp hr')

theorem calls_perm (calls : List (List Row)) : (calls.flatMap windows).flatten.Perm calls.flatten := by
  induction calls with
  | nil => exact List.Perm.refl _
  | cons call calls ih =>
    rw [List.flatMap_cons, List.flatten_append, List.flatten_cons, flatten_windows]
    exact (Keyset.perm_sort _ _).append ih

/-! ### Runs -/

/-- Windows of one width, in the order of their starts. -/
structure InOrder (width : ℚ) (batches : List (List Row)) : Prop where
  pos : 0 < width
  oneWindow : ∀ batch ∈ batches, OneWindow batch
  sorted : batches.flatten.Pairwise (·.start.value ≤ ·.start.value)
  width : ∀ r ∈ batches.flatten, r.endTime.value - r.start.value = width

/-- What was learned of the windows that are done. -/
def learnedOf (done : List (List Row)) : List Learned := done.flatten.map Row.toLearned

theorem learnedOf_snoc (done : List (List Row)) (batch : List Row) :
    learnedOf (done ++ [batch]) = learnedOf done ++ batch.map Row.toLearned := by
  simp [learnedOf]

variable {width : ℚ} {batches done : List (List Row)} {batch : List Row}

theorem InOrder.mem (h : done ++ [batch] <+: batches) : batch ∈ batches :=
  h.subset (List.mem_append_right done List.mem_cons_self)

theorem InOrder.mem_flatten (h : done ++ [batch] <+: batches) {row : Row} (hrow : row ∈ batch) :
    row ∈ batches.flatten :=
  List.mem_flatten.mpr ⟨batch, InOrder.mem h, hrow⟩

/-- What is done starts no later. -/
theorem InOrder.done_le (h : InOrder width batches) (hdone : done ++ [batch] <+: batches)
    (hrow : row ∈ batch) : ∀ r ∈ learnedOf done, r.start.value ≤ row.start.value := by
  obtain ⟨rest, rfl⟩ := hdone
  intro r hr
  obtain ⟨earlier, hearlier, rfl⟩ := List.mem_map.mp hr
  have hsorted := h.sorted
  rw [List.flatten_append, List.flatten_append] at hsorted
  have hfront := (List.pairwise_append.mp hsorted).1
  exact (List.pairwise_append.mp hfront).2.2 earlier hearlier row (by simpa using hrow)

theorem InOrder.cutoff_eq (h : InOrder width batches) (hrow : row ∈ batches.flatten) :
    cutoff cfg row.toLearned = row.start.value - cfg.historyWindows * width := by
  rw [cutoff, h.width row hrow]

/-- What counts for a row is done before its window. -/
theorem InOrder.training_eq (h : InOrder width batches) (hdone : done ++ [batch] <+: batches)
    (hrow : row ∈ batch) : training cfg (learnedOf batches) row = training cfg (learnedOf done) row := by
  obtain ⟨rest, rfl⟩ := hdone
  have hall : learnedOf (done ++ [batch] ++ rest) =
      learnedOf done ++ (batch ++ rest.flatten).map Row.toLearned := by
    simp [learnedOf]
  rw [hall, training_append_of_open]
  intro r hr
  obtain ⟨later, hlater, rfl⟩ := List.mem_map.mp hr
  have hmem : later ∈ (done ++ [batch] ++ rest).flatten := by
    rw [List.append_assoc, List.flatten_append]
    exact List.mem_append_right _ (by simpa using hlater)
  have hle : row.start.value ≤ later.start.value := by
    rcases List.mem_append.mp hlater with hlater | hlater
    · have hwindow := h.oneWindow batch (InOrder.mem (List.prefix_append _ rest))
      exact (hwindow.2 row hrow later hlater).le
    · have hsorted := h.sorted
      rw [List.flatten_append] at hsorted
      exact (List.pairwise_append.mp hsorted).2.2 row (by simp [hrow]) later hlater
  have hwidth := h.width later hmem
  have hpos := h.pos
  linarith

/-! ### The history in memory -/

/-- The list has what is not too old of what is done. -/
structure Remembers (cfg : Config) (width : ℚ) (done : List (List Row)) (m : Model) : Prop where
  store : m.store = none
  history : ∀ start : ℚ, (∀ r ∈ learnedOf done, r.start.value ≤ start) →
    (m.history.filter fun r => start - cfg.historyWindows * width ≤ r.start.value) =
      (learnedOf done).filter fun r => start - cfg.historyWindows * width ≤ r.start.value

variable (cfg) in
theorem Remembers.inMemory : Remembers cfg width [] Model.inMemory where
  store := rfl
  history _ _ := rfl

variable (env) in
/-- One window of the model with its history in memory. -/
theorem Remembers.step (h : InOrder width batches) (hdone : done ++ [batch] <+: batches) {m : Model}
    (hm : Remembers cfg width done m) : ∃ out m', evaluateWindow cfg env m batch = some (out, m') ∧
      out.map (fun s => s.row) = batch ∧ (∀ s ∈ out, Fair cfg env (learnedOf batches) s) ∧
      Remembers cfg width (done ++ [batch]) m' := by
  obtain ⟨hne, hsame⟩ := h.oneWindow batch (InOrder.mem hdone)
  obtain ⟨first, rest, hbatch⟩ := List.exists_cons_of_ne_nil hne
  have hfirst : first ∈ batch := by rw [hbatch]; exact List.mem_cons_self
  have hcut : cutoff cfg first.toLearned = first.start.value - cfg.historyWindows * width :=
    h.cutoff_eq (InOrder.mem_flatten hdone hfirst)
  -- the rows that are kept for this window
  have hkept := hm.history first.start.value (h.done_le hdone hfirst)
  have heval : evaluateWindow cfg env m batch = some (batch.map (score cfg env (m.history.filter
      fun r => first.start.value - cfg.historyWindows * width ≤ r.start.value)),
      ⟨(m.history.filter fun r => first.start.value - cfg.historyWindows * width ≤ r.start.value) ++
        batch.map Row.toLearned, none⟩) := by
    rw [hbatch]
    simp only [evaluateWindow, hm.store, hcut]
  refine ⟨_, _, heval, ?_, ?_, ?_⟩
  · rw [List.map_map]
    exact List.map_id _
  · intro s hs
    obtain ⟨row, hrow, rfl⟩ := List.mem_map.mp hs
    refine ⟨?_, rfl⟩
    have hstart : row.start.value = first.start.value := hsame row hrow first hfirst
    have hcutrow : cutoff cfg row.toLearned = first.start.value - cfg.historyWindows * width := by
      rw [h.cutoff_eq (InOrder.mem_flatten hdone hrow), hstart]
    show (relevant (m.history.filter _) row).Perm (training cfg (learnedOf batches) row)
    rw [h.training_eq hdone hrow, hkept, relevant, training, List.filter_filter, hcutrow]
    apply List.Perm.of_eq
    apply List.filter_congr
    intro r _
    rw [Bool.eq_iff_iff]
    simp only [Bool.and_eq_true, decide_eq_true_eq]
    tauto
  · refine ⟨rfl, ?_⟩
    intro start hstart
    rw [learnedOf_snoc] at hstart ⊢
    have hlater : first.start.value ≤ start :=
      hstart first.toLearned (List.mem_append_right _ (List.mem_map_of_mem hfirst))
    have hold : ∀ r ∈ learnedOf done, r.start.value ≤ start :=
      fun r hr => hstart r (List.mem_append_left _ hr)
    rw [List.filter_append, List.filter_append, List.filter_filter, ← hm.history start hold]
    congr 1
    -- what was cut off before is older still
    apply List.filter_congr
    intro r _
    rw [Bool.eq_iff_iff]
    simp only [Bool.and_eq_true, decide_eq_true_eq]
    constructor
    · exact fun hr => hr.1
    · intro hr
      refine ⟨hr, ?_⟩
      linarith

end OutboundBytes
