import Mathlib.Algebra.Order.Ring.Rat
import CernityNdr.Artifact.Archive
import CernityNdr.Framework.Json
import CernityNdr.Yara.Lifecycle

/-! # Isolated Scans

    The model of `services/file-yara/workers.py`. A scan runs in a child
    process that writes one JSON report to a temporary file; the parent waits,
    kills it at the deadline and decides what of the report counts.

    The engine (`yara`), the zip reader and the forensic summary are
    parameters. What may befall the child is part of a scan (`Fate`): its
    report may be unreadable, replaced by the marker of a signal handler, or
    written by a child that is killed afterwards.

    * `collect_eq`: the callback keeps the first matches, at most a hundred and
      twenty-eight of them.
    * `completed_iff`: a scan is without error exactly when its child got
      through, on bytes that passed every policy. -/

namespace YaraWorkers

open YaraRegistry (Bytes Ruleset)
open FileArtifact (Zipfile validateArchive isZip)

/-! ### Limits -/

structure Limits where
  memoryBytes : Int
  cpuSeconds : Int
  wallSeconds : Rat
  maxBytes : Int
  archiveDepth : Int

/-- The defaults of `Limits`. -/
def Limits.default : Limits := ⟨1024 * 1024 * 1024, 5, 10, 64 * 1024 * 1024, 4⟩

/-- What `run_scan` asks of its limits. -/
def Limits.valid (l : Limits) : Bool :=
  0 < l.memoryBytes && 1 ≤ l.cpuSeconds && 0 < l.wallSeconds && 1 ≤ l.maxBytes && 0 ≤ l.archiveDepth

def STRING_BYTES : Nat := 64
def MAX_STRINGS : Nat := 16
def MAX_MATCHES : Nat := 128

/-! ### The engine -/

/-- A place where a string of a rule was found. -/
structure Instance where
  offset : Nat
  matchedData : Bytes
  matchedLength : Nat

structure StringMatch where
  identifier : String
  instances : List Instance

/-- What the engine hands to the callback. -/
structure RuleMatch where
  rule : String
  matches? : Bool
  strings : List StringMatch

inductive EngineError
  /-- `MemoryError`, or the engine's own allocation error -/
  | memory
  | other

/-- `yara.compile(source=..).match(data=..)`: the calls of the callback. -/
structure Engine where
  version : String
  scan : Bytes → Bytes → Except EngineError (List RuleMatch)

/-! ### What is exported of a match -/

structure StringHit where
  identifier : String
  offset : Nat
  data : List Char
  truncated : Bool
deriving DecidableEq

structure Match where
  rule : String
  strings : List StringHit
  stringsTruncated : Bool
deriving DecidableEq

/-- `s[:n]`. -/
def cut (s : String) (n : Nat) : String := String.ofList (s.toList.take n)

/-- `escaped_preview`. -/
def escapedPreview (data : Bytes) : List Char :=
  (data.take STRING_BYTES).flatMap fun b =>
    ['\\', 'x', Json.hexDigit (b.toNat / 16), Json.hexDigit (b.toNat % 16)]

def hitOf (identifier : String) (i : Instance) : StringHit :=
  ⟨cut identifier 128, i.offset, escapedPreview i.matchedData, STRING_BYTES < i.matchedLength⟩

/-- The record that the callback appends. -/
def RuleMatch.summary (m : RuleMatch) : Match :=
  let hits := m.strings.flatMap fun s => s.instances.map (hitOf s.identifier)
  ⟨cut m.rule 256, hits.take MAX_STRINGS, MAX_STRINGS < hits.length⟩

/-- The callback over the calls of the engine, with the overflow flag. -/
def collect (out : List Match) : List RuleMatch → List Match × Bool
  | [] => (out, false)
  | m :: ms =>
    if !m.matches? then collect out ms
    -- `CALLBACK_ABORT`
    else if MAX_MATCHES ≤ out.length then (out, true)
    else collect (out ++ [m.summary]) ms

/-! ### The child -/

/-- `sniff_mime`. -/
def sniffMime (z : Zipfile) (data : Bytes) : String :=
  if "MZ".toUTF8.data.toList.isPrefixOf data then "application/x-dosexec"
  else if (0x7f :: "ELF".toUTF8.data.toList).isPrefixOf data then "application/x-elf"
  else if "%PDF-".toUTF8.data.toList.isPrefixOf data then "application/pdf"
  else if isZip z data then "application/zip"
  else if !data.isEmpty &&
      (data.take 4096).all (fun b => b ∈ [9, 10, 13] || (32 ≤ b && b < 127)) then "text/plain"
  else "application/octet-stream"

inductive ScanError
  | timeout
  | oom
  | sizeLimit
  | mimeNotTargeted
  | archivePolicy
  | workerError
  | workerExit
  | workerKilled
  | rulesetIntegrity
  | noRules
deriving DecidableEq, Repr

def ScanError.text : ScanError → String
  | timeout => "timeout"
  | oom => "oom"
  | sizeLimit => "size_limit"
  | mimeNotTargeted => "mime_not_targeted"
  | archivePolicy => "archive_policy"
  | workerError => "worker_error"
  | workerExit => "worker_exit"
  | workerKilled => "worker_killed"
  | rulesetIntegrity => "ruleset_integrity"
  | noRules => "no_rules"

/-- What a child writes. -/
structure Report where
  scanError : Option ScanError
  mime : Option String
  foundMatches : List Match
  matchesTruncated : Bool
  fileForensics : Option Json

/-- A report of nothing but an error. -/
def Report.failed (e : ScanError) : Report := ⟨some e, none, [], false, none⟩

def SIGKILL : Int := 9
def SIGXCPU : Int := 24

/-- What a scan needs besides the ruleset: the engine and the libraries. -/
structure Tools where
  engine : Engine
  zipfile : Zipfile
  forensics : Bytes → Json

variable (tools : Tools)

/-- The report of bytes that passed the policies. -/
def report (source data : Bytes) : Except EngineError Report :=
  (tools.engine.scan source data).map fun calls =>
    let found := collect [] calls
    ⟨none, some (sniffMime tools.zipfile data), found.1, found.2,
      if found.1.isEmpty then none else some (tools.forensics data)⟩

/-- `_child`: its report and its exit code. -/
def child (limits : Limits) (source data : Bytes) (row : Ruleset) : Report × Int :=
  if data.isEmpty || min limits.maxBytes row.maxFileSize < data.length then
    (.failed .sizeLimit, 0)
  else
    match validateArchive tools.zipfile limits.maxBytes limits.archiveDepth.toNat data with
    -- an error that `validate_archive` does not turn into a `PolicyError`
    | .error .infra | .error .malformedEvent => (.failed .workerError, 0)
    | .error _ => (.failed .archivePolicy, 0)
    | .ok () =>
      if !row.targetMimeTypes.isEmpty && sniffMime tools.zipfile data ∉ row.targetMimeTypes then
        ({ Report.failed .mimeNotTargeted with mime := some (sniffMime tools.zipfile data) }, 0)
      else
        match report tools source data with
        | .ok r => (r, 0)
        | .error .memory => (.failed .oom, -SIGKILL)
        | .error .other => (.failed .workerError, 0)

/-! ### The parent -/

/-- What the handlers of the child write when they are reached at some moment
    of the scan. -/
inductive Marker
  /-- `SIGXCPU` -/
  | timeout
  /-- `MemoryError` -/
  | oom
  /-- any other exception -/
  | workerError
deriving DecidableEq

def Marker.error : Marker → ScanError
  | timeout => .timeout
  | oom => .oom
  | workerError => .workerError

/-- What the parent finds in the file. -/
inductive Contents
  /-- the report of the child -/
  | own
  | marker (m : Marker)
  /-- no JSON -/
  | unreadable

/-- What befell the child. -/
structure Fate where
  contents : Contents
  exitcode : Int
  timedOut : Bool
  /-- `usage.ru_utime + usage.ru_stime` -/
  cpu : Rat

structure ScanResult extends Report where
  watchdogKilled : Bool
  exitcode : Int

/-- The file, as the parent reads it. -/
def Contents.read (own : Report) : Contents → Report
  | .own => own
  | .marker m => .failed m.error
  | .unreadable => .failed .workerExit

/-- What `run_scan` makes of the report that it has read. -/
def judged (limits : Limits) (fate : Fate) (r : Report) : Report :=
  if fate.timedOut || (fate.exitcode ∈ [-SIGKILL, -SIGXCPU] && (limits.cpuSeconds : Rat) ≤ fate.cpu) then
    .failed .timeout
  else if fate.exitcode ≠ 0 && r.scanError ∉ [some .timeout, some .oom] then
    .failed (if fate.exitcode < 0 then .workerKilled else .workerExit)
  else r

/-- `run_scan`; `none` is the `ValueError` about the limits. -/
def runScan (limits : Limits) (source data : Bytes) (row : Ruleset) (fate : Fate) :
    Option ScanResult :=
  if !limits.valid then none
  else
    let r := judged limits fate (fate.contents.read (child tools limits source data row).1)
    some { r with
      foundMatches := if r.scanError.isSome then [] else r.foundMatches
      watchdogKilled := fate.timedOut
      exitcode := fate.exitcode }

/-! ### What the callback keeps -/

/-- The matches are the first ones, and the flag says that there were more. -/
theorem collect_eq (out : List Match) (ms : List RuleMatch) (hout : out.length ≤ MAX_MATCHES) :
    collect out ms =
      ((out ++ (ms.filter RuleMatch.matches?).map RuleMatch.summary).take MAX_MATCHES,
        decide (MAX_MATCHES < out.length + (ms.filter RuleMatch.matches?).length)) := by
  induction ms generalizing out with
  | nil =>
    have hfits : ¬ MAX_MATCHES < out.length := by omega
    simp [collect, List.take_of_length_le hout, hfits]
  | cons m ms ih =>
    unfold collect
    by_cases hm : m.matches? = true
    · rw [if_neg (by simp [hm]), List.filter_cons_of_pos hm]
      by_cases hfull : MAX_MATCHES ≤ out.length
      · -- no room is left: the rest is cut off
        have heq : out.length = MAX_MATCHES := by omega
        rw [if_pos hfull, List.take_append_of_le_length (by omega), List.take_of_length_le hout]
        simp only [List.length_cons, heq, Prod.mk.injEq, true_and]
        simp
      · rw [if_neg hfull, ih (out ++ [m.summary]) (by simp; omega)]
        simp only [List.map_cons, List.append_assoc, List.singleton_append, List.length_append,
          List.length_cons, List.length_nil, Prod.mk.injEq, true_and, decide_eq_decide]
        omega
    · rw [if_pos (by simp [hm]), List.filter_cons_of_neg hm]
      exact ih out hout

/-! ### Scans without an error -/

variable {tools} {limits : Limits} {source data : Bytes} {row : Ruleset} {fate : Fate}
  {r : ScanResult}

/-- The child got through, and these are its matches. -/
structure Completed (tools : Tools) (limits : Limits) (source data : Bytes) (row : Ruleset)
    (fate : Fate) (found : List Match) : Prop where
  own : fate.contents = .own
  exited : fate.exitcode = 0
  inTime : fate.timedOut = false
  some_data : data ≠ []
  small : (data.length : Int) ≤ limits.maxBytes ∧ data.length ≤ row.maxFileSize
  safe : FileArtifact.SafeArchive tools.zipfile limits.maxBytes limits.archiveDepth.toNat data
  targeted : row.targetMimeTypes = [] ∨ sniffMime tools.zipfile data ∈ row.targetMimeTypes
  scanned : ∃ calls, tools.engine.scan source data = .ok calls ∧
    found = ((calls.filter RuleMatch.matches?).map RuleMatch.summary).take MAX_MATCHES

/-- A report without an error is what the callback kept. -/
theorem report_eq_ok {rep : Report} (h : report tools source data = .ok rep) :
    rep.scanError = none ∧ ∃ calls, tools.engine.scan source data = .ok calls ∧
      rep.foundMatches =
        ((calls.filter RuleMatch.matches?).map RuleMatch.summary).take MAX_MATCHES := by
  unfold report at h
  cases hscan : tools.engine.scan source data with
  | error e =>
    rw [hscan] at h
    cases h
  | ok calls =>
    rw [hscan] at h
    have hcollect := collect_eq [] calls (Nat.zero_le _)
    obtain rfl := Except.ok.inj h
    exact ⟨rfl, calls, rfl, congrArg Prod.fst hcollect⟩

/-- A child writes a report without an error when the policies let the bytes
    pass and the engine returned. -/
theorem child_completes_iff {rep : Report} :
    ((child tools limits source data row).1 = rep ∧ rep.scanError = none) ↔
      (data ≠ [] ∧ ((data.length : Int) ≤ limits.maxBytes ∧ data.length ≤ row.maxFileSize)) ∧
      validateArchive tools.zipfile limits.maxBytes limits.archiveDepth.toNat data = .ok () ∧
      (row.targetMimeTypes = [] ∨ sniffMime tools.zipfile data ∈ row.targetMimeTypes) ∧
      report tools source data = .ok rep := by
  have hsize : (data.isEmpty || decide (min limits.maxBytes row.maxFileSize < data.length)) = true ↔
      ¬ (data ≠ [] ∧ ((data.length : Int) ≤ limits.maxBytes ∧ data.length ≤ row.maxFileSize)) := by
    simp only [Bool.or_eq_true, List.isEmpty_iff, decide_eq_true_eq]
    by_cases hnil : data = []
    · simp [hnil]
    · simp only [hnil, false_or, ne_eq, not_false_eq_true, true_and]
      omega
  have htarget : (!row.targetMimeTypes.isEmpty &&
      decide (sniffMime tools.zipfile data ∉ row.targetMimeTypes)) = true ↔
      ¬ (row.targetMimeTypes = [] ∨ sniffMime tools.zipfile data ∈ row.targetMimeTypes) := by
    simp [not_or]
  -- a report of nothing but an error has one
  have hfailed : ∀ e, Report.failed e = rep → rep.scanError = none → False := by
    intro e heq hnone
    rw [← heq] at hnone
    cases hnone
  unfold child
  split
  · next hbad =>
    exact iff_of_false (fun h => hfailed _ h.1 h.2) fun h => hsize.mp hbad h.1
  · next hgood =>
    have hsmall := not_not.mp (mt hsize.mpr hgood)
    cases hvalid : validateArchive tools.zipfile limits.maxBytes limits.archiveDepth.toNat data with
    | error e =>
      refine iff_of_false ?_ (by simp)
      cases e <;> exact fun h => hfailed _ h.1 h.2
    | ok u =>
      have hpassed : (Except.ok u : Except FileArtifact.Refusal Unit) = .ok () := rfl
      rw [iff_true_intro hsmall, true_and, iff_true_intro hpassed, true_and]
      show ((if _ then _ else _ : Report × Int).1 = rep ∧ _) ↔ _
      split
      · next hother =>
        refine iff_of_false ?_ fun h => htarget.mp hother h.1
        intro ⟨heq, hnone⟩
        rw [← heq] at hnone
        cases hnone
      · next hnone =>
        rw [iff_true_intro (not_not.mp (mt htarget.mpr hnone)), true_and]
        cases hreport : report tools source data with
        | error e =>
          refine iff_of_false ?_ (by simp)
          cases e <;> exact fun h => hfailed _ h.1 h.2
        | ok rep' =>
          simp only [Except.ok.injEq]
          exact and_iff_left_of_imp fun heq => heq ▸ (report_eq_ok hreport).1

/-- The parent believes a report exactly when the child ended in time and by
    itself; what it reads else is an error. -/
theorem judged_eq {rep : Report} : (judged limits fate rep).scanError = none ↔
    fate.timedOut = false ∧ fate.exitcode = 0 ∧ rep.scanError = none := by
  unfold judged
  by_cases htime : fate.timedOut = true
  · simp [htime, Report.failed]
  · by_cases hexit : fate.exitcode = 0
    · -- an exit code of zero is none of the two signals
      simp [htime, hexit, SIGKILL, SIGXCPU]
    · simp only [htime, hexit, Bool.false_or, false_and, and_false, iff_false]
      split
      · simp [Report.failed]
      · split
        · simp [Report.failed]
        · next hkept =>
          -- only the markers of the signal handlers survive an exit code
          intro hnone
          simp [hexit, hnone] at hkept

theorem judged_of_clean {rep : Report} (htime : fate.timedOut = false) (hexit : fate.exitcode = 0) :
    judged limits fate rep = rep := by
  simp [judged, htime, hexit, SIGKILL, SIGXCPU]

/-- A scan is without error exactly when its child got through; its matches
    are then the first ones that the engine reported. -/
theorem completed_iff (h : runScan tools limits source data row fate = some r) :
    r.scanError = none ↔ Completed tools limits source data row fate r.foundMatches := by
  unfold runScan at h
  split at h
  · cases h
  · obtain rfl := Option.some.inj h
    constructor
    · intro hnone
      obtain ⟨htime, hexit, hread⟩ := judged_eq.mp hnone
      have hfound : (if (judged limits fate (fate.contents.read
            (child tools limits source data row).1)).scanError.isSome then []
          else (judged limits fate (fate.contents.read
            (child tools limits source data row).1)).foundMatches) =
          (fate.contents.read (child tools limits source data row).1).foundMatches := by
        rw [judged_of_clean htime hexit, if_neg (by simp [hread])]
      show Completed tools limits source data row fate (if _ then _ else _)
      rw [hfound]
      -- a marker and an unreadable file are errors
      cases hcontents : fate.contents with
      | marker m => simp [hcontents, Contents.read, Report.failed] at hread
      | unreadable => simp [hcontents, Contents.read, Report.failed] at hread
      | own =>
        rw [hcontents] at hread
        show Completed tools limits source data row fate (child tools limits source data row).1.foundMatches
        obtain ⟨hsmall, hvalid, htarget, hreport⟩ := child_completes_iff.mp ⟨rfl, hread⟩
        obtain ⟨-, hscanned⟩ := report_eq_ok hreport
        exact ⟨hcontents, hexit, htime, hsmall.1, hsmall.2,
          (FileArtifact.validateArchive_iff _ _).mp hvalid, htarget, hscanned⟩
    · intro hdone
      obtain ⟨calls, hcalls, -⟩ := hdone.scanned
      obtain ⟨rep, hreport⟩ : ∃ rep, report tools source data = .ok rep := by
        unfold report
        rw [hcalls]
        exact ⟨_, rfl⟩
      obtain ⟨hchild, hnone⟩ := child_completes_iff.mpr ⟨⟨hdone.some_data, hdone.small⟩,
        (FileArtifact.validateArchive_iff _ _).mpr hdone.safe, hdone.targeted, hreport⟩
      show (judged _ _ _).scanError = none
      rw [judged_eq, hdone.own, Contents.read, hchild]
      exact ⟨hdone.inTime, hdone.exited, hnone⟩

end YaraWorkers
