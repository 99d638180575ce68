import CernityNdr.Anomaly.StoredHistory
import CernityNdr.Framework.Failing

/-! # Two Backends, Any Split

    The same rows in one call or in several, with the history in memory or in
    a store: every row is scored against the rows that count for it, so the
    findings are the same.

    * `Keeps.step`: one window of the model with a store.
    * `backends_agree`: the findings, and what no row is compared with. -/

namespace OutboundBytes

variable {cfg : Config} {env : Env} {width : ℚ} {batches done : List (List Row)} {batch : List Row}
  {m : Model}

/-! ### The history in a store -/

/-- The store has what was learned of the windows that are done. -/
structure Keeps (env : Env) (done : List (List Row)) (m : Model) : Prop where
  history : m.history = []
  store : ∃ e, m.store = some e ∧ Holds env (learnedOf done) e

theorem Keeps.stored : Keeps env [] Model.stored := ⟨rfl, _, rfl, Holds.empty env⟩

theorem mem_learnedOf {row : Row} (hrow : row ∈ batches.flatten) : row.toLearned ∈ learnedOf batches :=
  List.mem_map_of_mem hrow

theorem learnedOf_subset (h : done <+: batches) : ∀ r ∈ learnedOf done, r ∈ learnedOf batches := by
  obtain ⟨rest, rfl⟩ := h
  intro r hr
  rw [learnedOf, List.flatten_append, List.map_append]
  exact List.mem_append_left _ hr

theorem InOrder.learned_width (h : InOrder width batches) {r : Learned} (hr : r ∈ learnedOf batches) :
    r.endTime.value - r.start.value = width := by
  obtain ⟨row, hrow, rfl⟩ := List.mem_map.mp hr
  exact h.width row hrow

/-- What counts of the rows that a read covers is what counts. -/
theorem InOrder.relevant_covered (h : InOrder width batches) (hdone : done <+: batches) (row : Row) :
    relevant (covered cfg (learnedOf done) row) row = training cfg (learnedOf done) row := by
  rw [relevant, covered, training, List.filter_filter]
  apply List.filter_congr
  intro r hr
  have hwidth := h.learned_width (learnedOf_subset hdone r hr)
  have hpos := h.pos
  rw [Bool.eq_iff_iff]
  simp only [Bool.and_eq_true, decide_eq_true_eq]
  constructor
  · rintro ⟨⟨-, -, hclosed⟩, ⟨htenant, hcohort⟩, hsince, -⟩
    exact ⟨htenant, hcohort, hsince, hclosed⟩
  · rintro ⟨htenant, hcohort, hsince, hclosed⟩
    refine ⟨⟨htenant, hcohort, hclosed⟩, ⟨htenant, hcohort⟩, hsince, ?_⟩
    linarith

/-- One window of the model with a store. -/
theorem Keeps.step (h : InOrder width batches) (hsep : Separates env.sha256 (learnedOf batches))
    (hexp : NoExpiry cfg env (learnedOf batches))
    (hdistinct : ((learnedOf batches).map Learned.identity).Nodup)
    (hdone : done ++ [batch] <+: batches) (hm : Keeps env done m) :
    ∃ out m', evaluateWindow cfg env m batch = some (out, m') ∧ out.map (fun s => s.row) = batch ∧
      (∀ s ∈ out, Fair cfg env (learnedOf batches) s) ∧ Keeps env (done ++ [batch]) m' := by
  obtain ⟨hhistory, e, he, hholds⟩ := hm
  have hbefore : done <+: batches := (List.prefix_append done [batch]).trans hdone
  have hknown := learnedOf_subset hbefore
  have hbatch : ∀ row ∈ batch, row.toLearned ∈ learnedOf batches :=
    fun row hrow => mem_learnedOf (InOrder.mem_flatten hdone hrow)
  obtain ⟨hne, hstart⟩ := h.oneWindow batch (InOrder.mem hdone)
  have hsame : ∀ a ∈ batch, ∀ b ∈ batch, a.start.value = b.start.value ∧
      cutoff cfg a.toLearned = cutoff cfg b.toLearned := by
    intro a ha b hb
    refine ⟨hstart a ha b hb, ?_⟩
    rw [h.cutoff_eq (InOrder.mem_flatten hdone ha), h.cutoff_eq (InOrder.mem_flatten hdone hb),
      hstart a ha b hb]
  have hempty : Sound cfg env (learnedOf done) batch .empty := by
    intro row _ found hfound
    cases hfound
  obtain ⟨snapshot, n, htake, hn, hsound, -, hall⟩ :=
    Holds.takeSnapshot hsep hknown hbatch hsame (fun _ hrow => hrow) hempty hholds
  -- the snapshot has every row of the window
  have hscored : ∀ row ∈ batch, ((snapshot.lookup (historyPrefix env row.toLearned)).map
      fun rows => score cfg env rows row) = some (score cfg env
        ((snapshot.lookup (historyPrefix env row.toLearned)).getD []) row) := by
    intro row hrow
    obtain ⟨v, hv⟩ := Registry.mem_keys.mp (hall row hrow)
    rw [Registry.lookup, hv]
    rfl
  have heval : evaluateWindow cfg env m batch = some (batch.map fun row => score cfg env
      ((snapshot.lookup (historyPrefix env row.toLearned)).getD []) row,
      ⟨[], some (batch.foldl (OutboundBytes.learn cfg env) ⟨e.store, n⟩)⟩) := by
    obtain ⟨first, rest, rfl⟩ := List.exists_cons_of_ne_nil hne
    simp only [evaluateWindow, hhistory, he, htake, Option.bind_eq_bind, Option.bind_some,
      List.filter_nil]
    rw [Option.mapM_eq_some_map hscored]
    rfl
  refine ⟨_, _, heval, ?_, ?_, rfl, _, rfl, ?_⟩
  · rw [List.map_map]
    exact List.map_id _
  · intro s hs
    obtain ⟨row, hrow, rfl⟩ := List.mem_map.mp hs
    refine ⟨?_, rfl⟩
    obtain ⟨v, hv⟩ := Registry.mem_keys.mp (hall row hrow)
    have hlookup : snapshot.lookup (historyPrefix env row.toLearned) = some v.2 := by
      rw [Registry.lookup, hv]
      rfl
    have hfound := hsound row hrow v.2 hlookup
    show (relevant ((snapshot.lookup _).getD []) row).Perm (training cfg (learnedOf batches) row)
    rw [hlookup, h.training_eq hdone hrow, ← h.relevant_covered hbefore row]
    exact hfound.filter _
  · rw [learnedOf_snoc]
    have hfront : (learnedOf done ++ batch.map Row.toLearned).Sublist (learnedOf batches) := by
      rw [← learnedOf_snoc]
      exact (hdone.sublist.flatten).map Row.toLearned
    exact (hholds.later hn).learnAll hsep hexp hknown hbatch
      (hdistinct.sublist (hfront.map Learned.identity))

/-! ### Runs -/

/-- Every row was scored once, against the rows that count for it. -/
structure Scores (cfg : Config) (env : Env) (rows : List Row) (out : List Scored) : Prop where
  scored : (out.map fun s => s.row).Perm rows
  fair : ∀ s ∈ out, Fair cfg env (rows.map Row.toLearned) s

theorem Scores.of_learnedOf {rows : List Row} {out : List Scored} (hrows : batches.flatten.Perm rows)
    (hout : out.map (fun s => s.row) = batches.flatten)
    (hfair : ∀ s ∈ out, Fair cfg env (learnedOf batches) s) : Scores cfg env rows out where
  scored := hout ▸ hrows
  fair s hs := ⟨(hfair s hs).relevant.trans (training_congr (hrows.map Row.toLearned)),
    (hfair s hs).finding⟩

/-- The findings are those of the rows that count. -/
theorem Scores.findings {rows : List Row} {out : List Scored} (h : Scores cfg env rows out) :
    (findings out).Perm (rows.filterMap fun row =>
      assess cfg env row (training cfg (rows.map Row.toLearned) row)) := by
  rw [findings_eq h.fair]
  exact h.scored.filterMap _

variable (cfg env) in
theorem scores_inMemory {rows : List Row} (h : InOrder width batches) (hrows : batches.flatten.Perm rows) :
    ∃ out m', Emission.run (evaluateWindow cfg env) .inMemory batches = some (out, m') ∧
      Scores cfg env rows out := by
  obtain ⟨out, m', hrun, hout, hfair, -⟩ := Emission.run_accounts id
    (fun done batch m hdone hm => Remembers.step env h hdone hm)
    (Remembers.inMemory cfg)
  rw [List.flatMap_id] at hout
  exact ⟨out, m', hrun, .of_learnedOf hrows hout hfair⟩

theorem scores_stored {rows : List Row} (h : InOrder width batches) (hrows : batches.flatten.Perm rows)
    (hsep : Separates env.sha256 (learnedOf batches)) (hexp : NoExpiry cfg env (learnedOf batches))
    (hdistinct : ((learnedOf batches).map Learned.identity).Nodup) :
    ∃ out m', Emission.run (evaluateWindow cfg env) .stored batches = some (out, m') ∧
      Scores cfg env rows out := by
  obtain ⟨out, m', hrun, hout, hfair, -⟩ := Emission.run_accounts id
    (fun done batch m hdone hm => Keeps.step h hsep hexp hdistinct hdone hm) Keeps.stored
  rw [List.flatMap_id] at hout
  exact ⟨out, m', hrun, .of_learnedOf hrows hout hfair⟩

/-! ### Calls -/

variable {rows : List Row} {calls : List (List Row)}

theorem inOrder_windows (hpos : 0 < width) (hwidth : ∀ r ∈ rows, r.endTime.value - r.start.value = width) :
    InOrder width (windows rows) where
  pos := hpos
  oneWindow _ hbatch := oneWindow_of_mem hbatch
  sorted := windows_sorted rows
  width r hr := by
    rw [flatten_windows] at hr
    exact hwidth r ((Keyset.perm_sort _ _).mem_iff.mp hr)

theorem inOrder_calls (hpos : 0 < width)
    (hwidth : ∀ r ∈ rows, r.endTime.value - r.start.value = width) (hsplit : calls.flatten.Perm rows)
    (horder : calls.Pairwise fun a b => ∀ r ∈ a, ∀ r' ∈ b, r.start.value ≤ r'.start.value) :
    InOrder width (calls.flatMap windows) where
  pos := hpos
  oneWindow batch hbatch := by
    obtain ⟨call, -, hmem⟩ := List.mem_flatMap.mp hbatch
    exact oneWindow_of_mem hmem
  sorted := calls_sorted horder
  width r hr := hwidth r (((calls_perm calls).trans hsplit).mem_iff.mp hr)

/-- No row is compared with a row of its own window. -/
theorem Scores.other_window (hpos : 0 < width)
    (hwidth : ∀ r ∈ rows, r.endTime.value - r.start.value = width) {out : List Scored}
    (h : Scores cfg env rows out) :
    ∀ s ∈ out, ∀ r ∈ s.relevant, r.start.value ≠ s.row.start.value := by
  intro s hs r hr heq
  have hcounts := (h.fair s hs).relevant.mem_iff.mp hr
  obtain ⟨hmem, hcond⟩ := List.mem_filter.mp hcounts
  have hclosed := (of_decide_eq_true hcond).2.2.2
  obtain ⟨row, hrow, rfl⟩ := List.mem_map.mp hmem
  have hlen := hwidth row hrow
  linarith

/-- **The backends and the split do not matter.** For rows of one width, at
    most one of an entity and a window, in calls with their starts in order:
    the history in memory, the history in a store where nothing expires, and
    one call for all rows give the same findings; and no row is compared with
    a row of its own window. -/
theorem backends_agree (cfg : Config) (env : Env) (rows : List Row) (calls : List (List Row))
    (width : ℚ) (hpos : 0 < width) (hwidth : ∀ r ∈ rows, r.endTime.value - r.start.value = width)
    (hdistinct : ((rows.map Row.toLearned).map Learned.identity).Nodup)
    (hsplit : calls.flatten.Perm rows)
    (horder : calls.Pairwise fun a b => ∀ r ∈ a, ∀ r' ∈ b, r.start.value ≤ r'.start.value)
    (hsep : Separates env.sha256 (rows.map Row.toLearned))
    (hexp : NoExpiry cfg env (rows.map Row.toLearned)) :
    ∃ single memory stored m₁ m₂ m₃,
      evaluate cfg env .inMemory rows = some (single, m₁) ∧
      evaluateCalls cfg env .inMemory calls = some (memory, m₂) ∧
      evaluateCalls cfg env .stored calls = some (stored, m₃) ∧
      (findings memory).Perm (findings single) ∧ (findings stored).Perm (findings single) ∧
      ∀ s ∈ single ++ memory ++ stored, ∀ r ∈ s.relevant, r.start.value ≠ s.row.start.value := by
  have hone := inOrder_windows hpos hwidth
  have hsorted : (windows rows).flatten.Perm rows := by
    rw [flatten_windows]
    exact Keyset.perm_sort _ _
  have hmany := inOrder_calls hpos hwidth hsplit horder
  have hperm := (calls_perm calls).trans hsplit
  have hlearned : (learnedOf (calls.flatMap windows)).Perm (rows.map Row.toLearned) :=
    hperm.map Row.toLearned
  have hsep' : Separates env.sha256 (learnedOf (calls.flatMap windows)) := by
    intro a ha b hb
    exact hsep a ((hlearned.flatMap_right identities).mem_iff.mp ha) b
      ((hlearned.flatMap_right identities).mem_iff.mp hb)
  have hexp' : NoExpiry cfg env (learnedOf (calls.flatMap windows)) :=
    fun r hr => hexp r (hlearned.mem_iff.mp hr)
  have hdistinct' : ((learnedOf (calls.flatMap windows)).map Learned.identity).Nodup :=
    (hlearned.map Learned.identity).nodup_iff.mpr hdistinct
  obtain ⟨single, m₁, hrun₁, hscores₁⟩ := scores_inMemory cfg env hone hsorted
  obtain ⟨memory, m₂, hrun₂, hscores₂⟩ := scores_inMemory cfg env hmany hperm
  obtain ⟨stored, m₃, hrun₃, hscores₃⟩ := scores_stored hmany hperm hsep' hexp' hdistinct'
  refine ⟨single, memory, stored, m₁, m₂, m₃, hrun₁, ?_, ?_, ?_, ?_, ?_⟩
  · rw [← hrun₂]
    exact Emission.run_flatMap windows calls
  · rw [← hrun₃]
    exact Emission.run_flatMap windows calls
  · exact hscores₂.findings.trans hscores₁.findings.symm
  · exact hscores₃.findings.trans hscores₁.findings.symm
  · intro s hs
    rcases List.mem_append.mp hs with hs | hs
    · rcases List.mem_append.mp hs with hs | hs
      · exact hscores₁.other_window hpos hwidth s hs
      · exact hscores₂.other_window hpos hwidth s hs
    · exact hscores₃.other_window hpos hwidth s hs

/-! ### Three rows -/

/-- The digests of the identities of two entities of one cohort. -/
def subnetDigest : ObjectKeys.Digest where
  hexdigest data :=
    if data = bytes (entityIdentity "10.0.0.1") then
      "274f088a498c4be42d2e76059fed2ea66642029f5dcdf9d78956bccf061adbe7".toList
    else if data = bytes (entityIdentity "10.0.0.2") then
      "c5daf8ac31df2979e3bfddabc710a7c077cd5fbd33ffa76df59d2656b38da3b4".toList
    else "8f7b5def5ba2266e1a2fb1e2b522ad91dd5e2a78596409e2c9edebc9ba7b0f5d".toList
  length data := by
    split
    · rfl
    · split
      · rfl
      · rfl
  hexadecimal data := by
    split
    · exact ObjectKeys.mem_of_all_contains (by decide)
    · split
      · exact ObjectKeys.mem_of_all_contains (by decide)
      · exact ObjectKeys.mem_of_all_contains (by decide)

/-- Clocks that stand still at the start of the third window. -/
def quietEnv : Env where
  iso epoch := if epoch = 0 then "1970-01-01T00:00:00Z" else "1970-01-01T00:05:00Z"
  sha256 := subnetDigest
  time _ := 600

def sampleRow (host : String) (start bytes : Int) : Row where
  tenant := "acme"
  cohort := ⟨"10.0.0.0/24", "src", "source-ip-subnet-v1"⟩
  entity := host
  start := .int start
  endTime := .int (start + 300)
  bytesOut := .int bytes
  timeMethods := ["ingest-fallback"]
  evidenceRefs := ["obs"]
  sensorIds := ["sensor"]

def sampleCalls : List (List Row) :=
  [[sampleRow "10.0.0.2" 0 11000], [sampleRow "10.0.0.1" 0 10000, sampleRow "10.0.0.1" 300 900000]]

/-- The first window is split over two calls. -/
theorem backends_agree_sample : ∃ single memory stored m₁ m₂ m₃,
    evaluate .default quietEnv .inMemory sampleCalls.flatten = some (single, m₁) ∧
    evaluateCalls .default quietEnv .inMemory sampleCalls = some (memory, m₂) ∧
    evaluateCalls .default quietEnv .stored sampleCalls = some (stored, m₃) ∧
    (findings memory).Perm (findings single) ∧ (findings stored).Perm (findings single) ∧
    ∀ s ∈ single ++ memory ++ stored, ∀ r ∈ s.relevant, r.start.value ≠ s.row.start.value := by
  apply backends_agree .default quietEnv sampleCalls.flatten sampleCalls 300
  · norm_num
  · decide +kernel
  · decide +kernel
  · exact List.Perm.refl _
  · decide +kernel
  · unfold Separates
    decide +kernel
  · intro r hr n
    have hend : 300 ≤ r.endTime.value := by
      revert r
      decide +kernel
    have hlive : 0 < timeToLive .default r (quietEnv.time n) := by
      simp only [timeToLive, Config.default, quietEnv]
      linarith
    refine ⟨hlive, fun k _ => ?_⟩
    have hceil : (0 : ℚ) < ⌈timeToLive .default r (quietEnv.time n) * 1000⌉ := by
      exact_mod_cast Int.ceil_pos.mpr (by linarith)
    show (600 : ℚ) < 600 + _
    linarith

end OutboundBytes
