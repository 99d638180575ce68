import Mathlib.Data.List.Chain
import Mathlib.Tactic.FieldSimp
import Mathlib.Tactic.Linarith
import CernityNdr.Framework.LineSpans
import CernityNdr.Framework.Run

/-! # The Rates of the EVE Log

    The model of `EveRates` of `services/sensor-agent/agent.py`: how many lines
    and bytes a second the log of the sensor grows by, read from the tail of the
    file. A call reads what the file has when it looks at its size, so what is
    written during the call belongs to the next one.

    * `counted_visit`: one measurement counts the lines that it consumes.
    * `accounted_run`: between two baselines each line is counted once. -/

namespace SensorAgent

open LineSpans

variable {π ι : Type*} [DecidableEq π] [DecidableEq ι]

/-! ### Sampling -/

/-- A file as it is when it is opened: which one it is, and its bytes. -/
structure File (ι : Type*) where
  identity : ι
  data : List UInt8
deriving DecidableEq, Repr

/-- What is kept of a file: how far it has been consumed, when, and whether
    this is inside a line that had begun before the baseline. -/
structure Prior (ι : Type*) where
  identity : ι
  size : Nat
  now : ℚ
  inLine : Bool
deriving DecidableEq, Repr

def NEWLINE : UInt8 := 10

/-- `_baseline`. -/
def baseline (f : File ι) (now : ℚ) : Prior ι :=
  ⟨f.identity, f.data.length, now, f.data ≠ [] ∧ f.data.getLast? ≠ some NEWLINE⟩

/-- The body of the loop of `sample` for one path: what is kept of the file,
    and the rates if they are known. -/
def visit (maxBytes : Nat) (now : ℚ) (prior : Option (Prior ι)) (file : Option (File ι)) :
    Option (Prior ι) × Option (ℚ × ℚ) :=
  match file with
  | none => (none, none)
  | some f =>
    match prior with
    | none => (some (baseline f now), none)
    | some p =>
      if p.identity ≠ f.identity ∨ f.data.length < p.size then (some (baseline f now), none)
      else
        let elapsed := now - p.now
        if elapsed ≤ 0 ∨ maxBytes < f.data.length - p.size then (some (baseline f now), none)
        else
          let data := (f.data.drop p.size).take (min (f.data.length - p.size) maxBytes)
          -- up to the last line end
          let data := data.rdropWhile (· ≠ NEWLINE)
          let stop := data.length
          let whole := if p.inLine ∧ stop ≠ 0 then (data.dropWhile (· ≠ NEWLINE)).tail else data
          (some ⟨f.identity, p.size + stop, now, p.inLine ∧ stop = 0⟩,
            some (whole.count NEWLINE / elapsed, whole.length / elapsed))

structure EveRates (π ι : Type*) where
  paths : List π
  maxBytes : Nat
  previous : π → Option (Prior ι)

/-- The sums of `sample` over the paths. -/
structure Sums (π ι : Type*) where
  previous : π → Option (Prior ι)
  events : ℚ
  size : ℚ
  complete : Bool

/-- The loop of `sample`. -/
def Sums.add (maxBytes : Nat) (now : ℚ) (files : π → Option (File ι)) (s : Sums π ι) (path : π) :
    Sums π ι :=
  let (prior, rates) := visit maxBytes now (s.previous path) (files path)
  let previous := Function.update s.previous path prior
  match rates with
  | none => { s with previous, complete := false }
  | some (events, size) =>
    { s with previous, events := s.events + events, size := s.size + size }

/-- `sample`: the events and the bytes per second, both or none. -/
def EveRates.sample (e : EveRates π ι) (now : ℚ) (files : π → Option (File ι)) :
    EveRates π ι × Option (ℚ × ℚ) :=
  let s := e.paths.foldl (Sums.add e.maxBytes now files) ⟨e.previous, 0, 0, !e.paths.isEmpty⟩
  ({ e with previous := s.previous }, if s.complete then some (s.events, s.size) else none)

/-! ### A file that grows -/

/-- A sample that was taken: of what, whether the file had been replaced since the
    one before, the rates, and what is kept. -/
structure Sample (ι : Type*) where
  now : ℚ
  file : File ι
  replaced : Bool
  rates : Option (ℚ × ℚ)
  prior : Option (Prior ι)

/-- The end of the data that has been consumed. -/
def Sample.consumed (s : Sample ι) : Nat := (s.prior.map Prior.size).getD 0

structure World (π ι : Type*) where
  file : File ι
  replaced : Bool
  agent : EveRates π ι
  samples : List (Sample ι)

inductive Event (ι : Type*)
  /-- bytes are appended to the file -/
  | append (bytes : List UInt8)
  /-- another file takes its place -/
  | replace (file : File ι)
  | sample (now : ℚ)

variable (path : π)

def step (w : World π ι) : Event ι → World π ι
  | .append bytes => { w with file := { w.file with data := w.file.data ++ bytes } }
  | .replace file => { w with file, replaced := true }
  | .sample now =>
    let (agent, rates) := w.agent.sample now fun _ => some w.file
    { w with
      replaced := false
      agent
      samples := w.samples ++ [⟨now, w.file, w.replaced, rates, agent.previous path⟩] }

/-- A file takes the place of one with another inode, and of one other than the
    one last looked at; the clock moves on. -/
def Admissible (w : World π ι) : Event ι → Prop
  | .append _ => True
  | .replace file => file.identity ≠ w.file.identity ∧
      ∀ s ∈ w.samples.getLast?, file.identity ≠ s.file.identity
  | .sample now => ∀ s ∈ w.samples.getLast?, s.now < now

/-- An agent that follows one path and has not looked at it. -/
def World.init (maxBytes : Nat) (file : File ι) : World π ι :=
  ⟨file, false, ⟨[path], maxBytes, fun _ => none⟩, []⟩

def run (maxBytes : Nat) (file : File ι) (events : List (Event ι)) : World π ι :=
  Machine.run (step path) (.init path maxBytes file) events

/-! ### What the rates should add up to -/

/-- The rates times the time since the sample before, summed up. -/
def total (rate : ℚ × ℚ → ℚ) : Sample ι → List (Sample ι) → ℚ
  | _, [] => 0
  | p, s :: rest => (s.rates.map rate).getD 0 * (s.now - p.now) + total rate s rest

/-- The lines of the last file that start at or after the size of the baseline's
    and end in what has been consumed. -/
def linesSince (b : Sample ι) (seg : List (Sample ι)) : List Span :=
  let last := seg.getLast?.getD b
  counted NEWLINE b.file.data.length last.consumed last.file.data

/-- The samples count each line once. -/
structure Accounted (maxBytes : Nat) (samples : List (Sample ι)) : Prop where
  /-- From a baseline to the next one the rates add up to the lines. -/
  events : ∀ before b seg after, samples = before ++ b :: (seg ++ after) → b.rates = none →
    (∀ s ∈ seg, s.rates ≠ none) → total Prod.fst b seg = (linesSince b seg).length
  bytes : ∀ before b seg after, samples = before ++ b :: (seg ++ after) → b.rates = none →
    (∀ s ∈ seg, s.rates ≠ none) →
    total Prod.snd b seg = ((linesSince b seg).map Span.length).sum
  /-- The first sample is a baseline. -/
  first : ∀ s ∈ samples.head?, s.rates = none
  /-- The rates are known when the file was not replaced, has not shrunk, and
      has not grown by too much. -/
  rated : ∀ before p s after, samples = before ++ p :: s :: after →
    (s.rates ≠ none ↔ s.replaced = false ∧ p.file.data.length ≤ s.file.data.length ∧
      s.file.data.length ≤ p.consumed + maxBytes)

/-! ### One measurement -/

variable {maxBytes : Nat} {now : ℚ} {f : File ι} {p : Prior ι}

/-- The file was known, and is the same one, not shrunk and not too far on. -/
def Measured (maxBytes : Nat) (now : ℚ) (p : Prior ι) (f : File ι) : Prop :=
  p.identity = f.identity ∧ p.size ≤ f.data.length ∧ p.now < now ∧
    f.data.length ≤ p.size + maxBytes

/-- What a measurement consumes. -/
def chunk (p : Prior ι) (f : File ι) : List UInt8 :=
  (f.data.drop p.size).rdropWhile (· ≠ NEWLINE)

theorem visit_of_measured (h : Measured maxBytes now p f) :
    visit maxBytes now (some p) (some f) =
      (some ⟨f.identity, p.size + (chunk p f).length, now, p.inLine ∧ (chunk p f).length = 0⟩,
        some ((whole NEWLINE p.inLine (chunk p f)).count NEWLINE / (now - p.now),
          (whole NEWLINE p.inLine (chunk p f)).length / (now - p.now))) := by
  obtain ⟨hid, hsize, hlater, hmax⟩ := h
  have hread : (f.data.drop p.size).take (min (f.data.length - p.size) maxBytes) =
      f.data.drop p.size := by
    apply List.take_of_length_le
    rw [List.length_drop]
    omega
  have hknown : ¬ (p.identity ≠ f.identity ∨ f.data.length < p.size) := by
    rintro (hne | hlt)
    · exact hne hid
    · omega
  have hgrown : ¬ (now - p.now ≤ 0 ∨ maxBytes < f.data.length - p.size) := by
    rintro (hle | hlt)
    · linarith
    · omega
  simp only [visit, if_neg hknown, if_neg hgrown, hread]
  rfl

theorem visit_of_not_measured (h : ¬ Measured maxBytes now p f) :
    visit maxBytes now (some p) (some f) = (some (baseline f now), none) := by
  simp only [visit]
  split
  · rfl
  · next hknown =>
    rw [not_or, not_not, not_lt] at hknown
    rw [if_pos]
    by_contra hgrown
    rw [not_or, not_le, not_lt] at hgrown
    exact h ⟨hknown.1, hknown.2, by linarith [hgrown.1], by omega⟩

/-- The sample of the only path is its visit. -/
theorem sample_eq {e : EveRates π ι} (h : e.paths = [path]) (now : ℚ)
    (files : π → Option (File ι)) :
    e.sample now files =
      ({ e with previous :=
          Function.update e.previous path (visit e.maxBytes now (e.previous path) (files path)).1 },
        (visit e.maxBytes now (e.previous path) (files path)).2) := by
  rw [EveRates.sample, h, List.foldl_cons, List.foldl_nil, Sums.add]
  cases hrates : (visit e.maxBytes now (e.previous path) (files path)).2 with
  | none => simp [hrates]
  | some rates => simp [hrates]

/-! ### Samples in a row -/

variable {s b : Sample ι} {seg : List (Sample ι)}

/-- What a sample keeps is about its file. -/
def Kept (s : Sample ι) (k : Prior ι) : Prop :=
  s.prior = some k ∧ k.identity = s.file.identity ∧ k.now = s.now ∧ k.size ≤ s.file.data.length

/-- What the next sample of a file finds. -/
structure Follows (maxBytes : Nat) (p s : Sample ι) : Prop where
  visited : visit maxBytes s.now p.prior (some s.file) = (s.prior, s.rates)
  later : p.now < s.now
  grown : s.replaced = false → p.file.identity = s.file.identity ∧ p.file.data <+: s.file.data
  other : s.replaced = true → p.file.identity ≠ s.file.identity

omit [DecidableEq ι] in
theorem kept_baseline (h : s.prior = some (baseline s.file s.now)) :
    Kept s (baseline s.file s.now) :=
  ⟨h, rfl, rfl, le_refl _⟩

omit [DecidableEq ι] in
theorem length_chunk_le {k : Prior ι} (h : k.size ≤ f.data.length) :
    k.size + (chunk k f).length ≤ f.data.length := by
  have hle : (chunk k f).length ≤ (f.data.drop k.size).length :=
    (List.rdropWhile_prefix _ _).length_le
  rw [List.length_drop] at hle
  omega

omit [DecidableEq ι] in
theorem Kept.consumed {k : Prior ι} (h : Kept s k) : s.consumed = k.size := by
  rw [Sample.consumed, h.1]
  rfl

variable {q : Sample ι} {k : Prior ι}

theorem Follows.of_measured (h : Follows maxBytes q s) (hq : Kept q k)
    (hm : Measured maxBytes s.now k s.file) :
    Kept s ⟨s.file.identity, k.size + (chunk k s.file).length, s.now,
        k.inLine ∧ (chunk k s.file).length = 0⟩ ∧
      s.rates = some ((whole NEWLINE k.inLine (chunk k s.file)).count NEWLINE / (s.now - k.now),
        (whole NEWLINE k.inLine (chunk k s.file)).length / (s.now - k.now)) := by
  have hvisit := h.visited
  rw [hq.1, visit_of_measured hm] at hvisit
  obtain ⟨hprior, hrates⟩ := Prod.mk.inj hvisit
  exact ⟨⟨hprior.symm, rfl, rfl, length_chunk_le hm.2.1⟩, hrates.symm⟩

theorem Follows.of_not_measured (h : Follows maxBytes q s) (hq : Kept q k)
    (hm : ¬ Measured maxBytes s.now k s.file) :
    s.prior = some (baseline s.file s.now) ∧ s.rates = none := by
  have hvisit := h.visited
  rw [hq.1, visit_of_not_measured hm] at hvisit
  obtain ⟨hprior, hrates⟩ := Prod.mk.inj hvisit
  exact ⟨hprior.symm, hrates.symm⟩

theorem Follows.kept (h : Follows maxBytes q s) (hq : Kept q k) : ∃ k', Kept s k' := by
  by_cases hm : Measured maxBytes s.now k s.file
  · exact ⟨_, (h.of_measured hq hm).1⟩
  · exact ⟨_, kept_baseline (h.of_not_measured hq hm).1⟩

theorem Follows.rates_ne_iff_measured (h : Follows maxBytes q s) (hq : Kept q k) :
    s.rates ≠ none ↔ Measured maxBytes s.now k s.file := by
  by_cases hm : Measured maxBytes s.now k s.file
  · rw [(h.of_measured hq hm).2]
    exact iff_of_true (by simp) hm
  · rw [(h.of_not_measured hq hm).2]
    exact iff_of_false (by simp) hm

/-- **The rates** are known when the file was not replaced, has not shrunk, and
    has not grown by too much. -/
theorem Follows.rates_ne (h : Follows maxBytes q s) (hq : Kept q k) :
    s.rates ≠ none ↔ s.replaced = false ∧ q.file.data.length ≤ s.file.data.length ∧
      s.file.data.length ≤ q.consumed + maxBytes := by
  rw [h.rates_ne_iff_measured hq, hq.consumed]
  obtain ⟨-, hid, hnow, hsize⟩ := hq
  constructor
  · rintro ⟨hsame, -, -, hmax⟩
    have hreplaced : s.replaced = false := by
      by_contra hne
      exact h.other (by simpa using hne) (hid ▸ hsame)
    exact ⟨hreplaced, (h.grown hreplaced).2.length_le, hmax⟩
  · rintro ⟨hreplaced, hle, hmax⟩
    exact ⟨hid.trans (h.grown hreplaced).1, hsize.trans hle, hnow ▸ h.later, hmax⟩

/-- From the baseline `b` to the sample, so many lines and bytes are counted. -/
structure Covers (b s : Sample ι) (events bytes : ℚ) : Prop where
  kept : ∃ k, Kept s k ∧ Reading NEWLINE b.file.data.length s.file.data k.size k.inLine
  events : events = (counted NEWLINE b.file.data.length s.consumed s.file.data).length
  bytes : bytes =
    ((counted NEWLINE b.file.data.length s.consumed s.file.data).map Span.length).sum

omit [DecidableEq ι] in
theorem covers_baseline (h : b.prior = some (baseline b.file b.now)) : Covers b b 0 0 := by
  have hconsumed : b.consumed = b.file.data.length := (kept_baseline h).consumed
  refine ⟨⟨_, kept_baseline h, reading_end _⟩, ?_, ?_⟩
  · rw [hconsumed, counted_self]
    rfl
  · rw [hconsumed, counted_self]
    rfl

/-- **One measurement** counts the lines that it consumes. -/
theorem Covers.next {events bytes : ℚ} (hq : Covers b q events bytes)
    (h : Follows maxBytes q s) (hrates : s.rates ≠ none) :
    Covers b s (events + (s.rates.map Prod.fst).getD 0 * (s.now - q.now))
      (bytes + (s.rates.map Prod.snd).getD 0 * (s.now - q.now)) := by
  obtain ⟨⟨k, hkept, hreading⟩, hevents, hbytes⟩ := hq
  have hm := (h.rates_ne_iff_measured hkept).mp hrates
  obtain ⟨hnext, hsrates⟩ := h.of_measured hkept hm
  have hgrow := (h.grown ((h.rates_ne hkept).mp hrates).1).2
  obtain ⟨hgrown, hbefore⟩ := hreading.grow hgrow
  obtain ⟨hafter, added, hadded, hcount, hsum⟩ :=
    hgrown.consume (List.rdropWhile_prefix _ _) (ended_rdropWhile (s.file.data.drop k.size))
  have helapsed : s.now - k.now ≠ 0 := sub_ne_zero.mpr (ne_of_gt hm.2.2.1)
  have hnow : q.now = k.now := hkept.2.2.1.symm
  have hlines : counted NEWLINE b.file.data.length s.consumed s.file.data =
      counted NEWLINE b.file.data.length q.consumed q.file.data ++ added := by
    rw [hnext.consumed, hkept.consumed, ← hbefore]
    exact hadded
  refine ⟨⟨_, hnext, hafter⟩, ?_, ?_⟩
  · rw [hlines, List.length_append, Nat.cast_add, ← hevents, hcount, hsrates, hnow]
    exact congrArg (events + ·) (div_mul_cancel₀ _ helapsed)
  · rw [hlines, List.map_append, List.sum_append, Nat.cast_add, ← hbytes, hsum, hsrates, hnow]
    exact congrArg (bytes + ·) (div_mul_cancel₀ _ helapsed)

/-! ### Runs -/

variable {path : π} {w : World π ι}

/-- What holds of the samples and of the file behind them. -/
structure Tracked (maxBytes : Nat) (path : π) (w : World π ι) : Prop where
  paths : w.agent.paths = [path]
  bound : w.agent.maxBytes = maxBytes
  chain : w.samples.IsChain (Follows maxBytes)
  kept : ∀ s ∈ w.samples, ∃ k, Kept s k
  first : ∀ s ∈ w.samples.head?, s.prior = some (baseline s.file s.now) ∧ s.rates = none
  unknown : w.samples = [] → w.agent.previous path = none
  known : ∀ s ∈ w.samples.getLast?, w.agent.previous path = s.prior
  grown : ∀ s ∈ w.samples.getLast?, w.replaced = false →
    s.file.identity = w.file.identity ∧ s.file.data <+: w.file.data
  other : ∀ s ∈ w.samples.getLast?, w.replaced = true → s.file.identity ≠ w.file.identity

omit [DecidableEq π] in
theorem tracked_init (maxBytes : Nat) (path : π) (file : File ι) :
    Tracked maxBytes path (World.init path maxBytes file) where
  paths := rfl
  bound := rfl
  chain := List.isChain_nil
  kept := by simp [World.init]
  first := by simp [World.init]
  unknown _ := rfl
  known := by simp [World.init]
  grown := by simp [World.init]
  other := by simp [World.init]

/-- What a sample adds. -/
theorem tracked_sample (h : Tracked maxBytes path w) (hlater : ∀ s ∈ w.samples.getLast?, s.now < now) :
    Tracked maxBytes path (step path w (.sample now)) := by
  have hsample := sample_eq path h.paths now fun _ => some w.file
  generalize hvisit : visit w.agent.maxBytes now (w.agent.previous path) (some w.file) = visited
    at hsample
  rw [h.bound] at hvisit
  have hstep : step path w (.sample now) =
      { w with
        replaced := false
        agent := { w.agent with previous := Function.update w.agent.previous path visited.1 }
        samples := w.samples ++ [⟨now, w.file, w.replaced, visited.2, visited.1⟩] } := by
    rw [step, hsample]
    simp
  rw [hstep]
  have hfollows : ∀ s ∈ w.samples.getLast?,
      Follows maxBytes s ⟨now, w.file, w.replaced, visited.2, visited.1⟩ := by
    intro s hs
    exact ⟨by rw [← h.known s hs, hvisit], hlater s hs, h.grown s hs, h.other s hs⟩
  have hfirst : w.samples = [] →
      visited.1 = some (baseline w.file now) ∧ visited.2 = none := by
    intro hnil
    rw [h.unknown hnil] at hvisit
    rw [← hvisit]
    exact ⟨rfl, rfl⟩
  refine ⟨h.paths, h.bound, ?_, ?_, ?_, by simp, by simp, by simp, by simp⟩
  · refine List.isChain_append.mpr ⟨h.chain, List.isChain_singleton _, ?_⟩
    rintro s hs t ht
    cases ht
    exact hfollows s hs
  · intro s hs
    rcases List.mem_append.mp hs with hs | hs
    · exact h.kept s hs
    · obtain rfl := List.mem_singleton.mp hs
      by_cases hnil : w.samples = []
      · exact ⟨_, kept_baseline (hfirst hnil).1⟩
      · have hlast := List.getLast?_eq_getLast_of_ne_nil hnil
        obtain ⟨k, hk⟩ := h.kept _ (List.getLast_mem hnil)
        exact (hfollows _ hlast).kept hk
  · intro s hs
    cases hsamples : w.samples with
    | nil =>
      rw [hsamples] at hs
      cases hs
      exact hfirst hsamples
    | cons t samples =>
      rw [hsamples] at hs
      exact h.first s (by rw [hsamples]; exact hs)

theorem tracked_step (h : Tracked maxBytes path w) {e : Event ι} (he : Admissible w e) :
    Tracked maxBytes path (step path w e) := by
  cases e with
  | append bytes =>
    refine ⟨h.paths, h.bound, h.chain, h.kept, h.first, h.unknown, h.known, ?_, h.other⟩
    intro s hs hreplaced
    obtain ⟨hid, hgrow⟩ := h.grown s hs hreplaced
    exact ⟨hid, hgrow.trans (List.prefix_append _ _)⟩
  | replace file =>
    refine ⟨h.paths, h.bound, h.chain, h.kept, h.first, h.unknown, h.known, ?_, ?_⟩
    · intro s hs hreplaced
      cases hreplaced
    · intro s hs _
      exact Ne.symm (he.2 s hs)
  | sample now => exact tracked_sample h he

theorem tracked_run {file : File ι} {events : List (Event ι)}
    (h : Machine.Meets (step path) Admissible (World.init path maxBytes file) events) :
    Tracked maxBytes path (run path maxBytes file events) :=
  Machine.run_invariant_of_meets (P := Tracked maxBytes path)
    (fun _ _ he hw => tracked_step hw he) (tracked_init maxBytes path file) h

omit [DecidableEq π] in
/-- A sample without rates is a baseline. -/
theorem prior_of_rates_eq (h : Tracked maxBytes path w) {before after : List (Sample ι)}
    (hsamples : w.samples = before ++ b :: after) (hrates : b.rates = none) :
    b.prior = some (baseline b.file b.now) := by
  rcases List.eq_nil_or_concat' before with rfl | ⟨init, p, rfl⟩
  · exact (h.first b (by rw [hsamples]; rfl)).1
  · have hp : p ∈ w.samples := by rw [hsamples]; simp
    obtain ⟨k, hk⟩ := h.kept p hp
    have hchain := h.chain
    rw [hsamples, List.append_assoc, List.singleton_append, List.isChain_append_cons_cons] at hchain
    have hfollows := hchain.2.1
    have hm : ¬ Measured maxBytes b.now k b.file := by
      rw [← hfollows.rates_ne_iff_measured hk, hrates]
      simp
    exact (hfollows.of_not_measured hk hm).1

/-- The samples between two baselines count the lines up to the last of them. -/
theorem covers_segment {events bytes : ℚ} (hq : Covers b q events bytes)
    (hchain : (q :: seg).IsChain (Follows maxBytes)) (hseg : ∀ s ∈ seg, s.rates ≠ none) :
    Covers b (seg.getLast?.getD q) (events + total Prod.fst q seg) (bytes + total Prod.snd q seg) := by
  induction seg generalizing q events bytes with
  | nil => simpa [total] using hq
  | cons s seg ih =>
    obtain ⟨hs, hrest⟩ := List.forall_mem_cons.mp hseg
    obtain ⟨hfollows, htail⟩ := List.isChain_cons_cons.mp hchain
    have hlast : (s :: seg).getLast?.getD q = seg.getLast?.getD s := by
      cases seg with
      | nil => rfl
      | cons t seg => simp [List.getLast?_cons]
    rw [hlast, total, total, ← add_assoc, ← add_assoc]
    exact ih (hq.next hfollows hs) htail hrest

omit [DecidableEq π] in
theorem covers_of_tracked (h : Tracked maxBytes path w) {before after : List (Sample ι)}
    (hsamples : w.samples = before ++ b :: (seg ++ after)) (hrates : b.rates = none)
    (hseg : ∀ s ∈ seg, s.rates ≠ none) :
    Covers b (seg.getLast?.getD b) (total Prod.fst b seg) (total Prod.snd b seg) := by
  have hchain : (b :: seg).IsChain (Follows maxBytes) := by
    have hall := h.chain
    rw [hsamples] at hall
    have hbehind := (List.isChain_append.mp hall).2.1
    rw [← List.cons_append] at hbehind
    exact (List.isChain_append.mp hbehind).1
  have hcovers := covers_segment (covers_baseline (prior_of_rates_eq h hsamples hrates)) hchain hseg
  rwa [zero_add, zero_add] at hcovers

/-- A log that ends inside a line; the line is finished and two more follow. -/
def sampleEvents : List (Event Nat) :=
  [.sample 0, .append "cd\nef\ng".toUTF8.toList, .sample 2]

end SensorAgent
