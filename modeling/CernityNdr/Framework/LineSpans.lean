import Mathlib.Algebra.BigOperators.Group.List.Basic
import Mathlib.Algebra.GroupWithZero.Nat
import Mathlib.Data.List.DropRight

/-! # Lines by Their Place

    The finished lines of a text, each by the place where it starts and the
    place behind its end. A reader that follows a growing text takes it in
    chunks; a chunk that ends with a line end holds the lines that end in it.

    * `spans_append`: the lines of a text in two parts.
    * `counted_append`: what a chunk adds to the lines that are counted.
    * `length_spans`, `sum_length_spans`: how many lines end in a chunk, and
      how long they are together.
    * `Reading.consume`: a reader that begins inside a line counts the lines
      behind it, each once. -/

namespace LineSpans

variable {α : Type*} [DecidableEq α] (nl : α)

/-- A line, with its line end. -/
structure Span where
  start : Nat
  stop : Nat
deriving DecidableEq, Repr

def Span.length (l : Span) : Nat := l.stop - l.start

/-- The lines that end in the chunk at `pos`, when the first of them began at
    `start`. -/
def spans : Nat → Nat → List α → List Span
  | _, _, [] => []
  | start, pos, c :: cs =>
    if c = nl then ⟨start, pos + 1⟩ :: spans (pos + 1) (pos + 1) cs else spans start (pos + 1) cs

/-- Where the line begins that is unfinished behind the chunk. -/
def opened : Nat → Nat → List α → Nat
  | start, _, [] => start
  | start, pos, c :: cs =>
    if c = nl then opened (pos + 1) (pos + 1) cs else opened start (pos + 1) cs

/-- The lines of the text that start at `base` or later and end at `k` or before. -/
def counted (base k : Nat) (data : List α) : List Span :=
  (spans nl 0 0 data).filter fun l => base ≤ l.start ∧ l.stop ≤ k

variable {nl} {start pos base k : Nat} {xs ys : List α} {l : Span}

/-! ### Chunks -/

theorem spans_append (start pos : Nat) (xs ys : List α) :
    spans nl start pos (xs ++ ys) =
      spans nl start pos xs ++ spans nl (opened nl start pos xs) (pos + xs.length) ys := by
  induction xs generalizing start pos with
  | nil => rfl
  | cons c xs ih =>
    rw [List.cons_append, spans, spans, opened, List.length_cons,
      show pos + (xs.length + 1) = pos + 1 + xs.length by omega]
    split
    · rw [ih, List.cons_append]
    · rw [ih]

theorem opened_append (start pos : Nat) (xs ys : List α) :
    opened nl start pos (xs ++ ys) =
      opened nl (opened nl start pos xs) (pos + xs.length) ys := by
  induction xs generalizing start pos with
  | nil => rfl
  | cons c xs ih =>
    rw [List.cons_append, opened, opened, List.length_cons,
      show pos + (xs.length + 1) = pos + 1 + xs.length by omega]
    split
    · rw [ih]
    · rw [ih]

variable (nl) in
/-- The chunk is empty, or ends with a line end. -/
def Ended (xs : List α) : Prop := ∀ c ∈ xs.getLast?, c = nl

omit [DecidableEq α] in
theorem Ended.of_append (h : Ended nl (xs ++ ys)) : Ended nl ys := by
  intro c hc
  refine h c ?_
  rw [List.getLast?_append_of_ne_nil xs (by rintro rfl; cases hc)]
  exact hc

omit [DecidableEq α] in
theorem Ended.eq_snoc (h : Ended nl xs) (hne : xs ≠ []) : ∃ init, xs = init ++ [nl] := by
  refine ⟨xs.dropLast, ?_⟩
  conv_lhs => rw [← List.dropLast_append_getLast hne]
  rw [h _ (List.getLast?_eq_getLast_of_ne_nil hne)]

/-- What precedes the last line end, with it. -/
theorem ended_rdropWhile (xs : List α) : Ended nl (xs.rdropWhile (· ≠ nl)) := by
  intro c hc
  have hne : xs.rdropWhile (· ≠ nl) ≠ [] := by
    intro hnil
    rw [hnil] at hc
    cases hc
  have hlast := List.rdropWhile_last_not _ _ hne
  rw [List.getLast?_eq_getLast_of_ne_nil hne] at hc
  cases hc
  simpa using hlast

/-- Behind a line end a line begins. -/
theorem opened_of_ends (h : Ended nl xs) (hne : xs ≠ []) :
    opened nl start pos xs = pos + xs.length := by
  obtain ⟨init, rfl⟩ := h.eq_snoc hne
  rw [opened_append, opened, if_pos rfl, opened, List.length_append, List.length_singleton]
  omega

theorem opened_of_ended (h : Ended nl xs) : opened nl pos pos xs = pos + xs.length := by
  by_cases hne : xs = []
  · rw [hne]
    rfl
  · exact opened_of_ends h hne

theorem opened_of_not_mem (h : nl ∉ xs) : opened nl start pos xs = start := by
  induction xs generalizing pos with
  | nil => rfl
  | cons c xs ih =>
    rw [List.mem_cons, not_or] at h
    rw [opened, if_neg (Ne.symm h.1), ih h.2]

theorem spans_of_not_mem (h : nl ∉ xs) : spans nl start pos xs = [] := by
  induction xs generalizing pos with
  | nil => rfl
  | cons c xs ih =>
    rw [List.mem_cons, not_or] at h
    rw [spans, if_neg (Ne.symm h.1), ih h.2]

theorem le_opened (h : start ≤ pos) : start ≤ opened nl start pos xs := by
  induction xs generalizing start pos with
  | nil => exact le_refl start
  | cons c xs ih =>
    rw [opened]
    split
    · exact le_trans (by omega) (ih (le_refl (pos + 1)))
    · exact ih (by omega)

theorem opened_le (h : start ≤ pos) : opened nl start pos xs ≤ pos + xs.length := by
  induction xs generalizing start pos with
  | nil => simpa [opened] using h
  | cons c xs ih =>
    rw [opened, List.length_cons]
    split
    · exact le_trans (ih (le_refl (pos + 1))) (by omega)
    · exact le_trans (ih (by omega)) (by omega)

/-- Where the lines of a chunk are. -/
theorem bounds_of_mem (h : l ∈ spans nl start pos xs) :
    pos < l.stop ∧ l.stop ≤ pos + xs.length ∧ (l.start = start ∨ pos < l.start) := by
  induction xs generalizing start pos with
  | nil => cases h
  | cons c xs ih =>
    rw [spans] at h
    rw [List.length_cons]
    split at h
    · rcases List.mem_cons.mp h with rfl | h
      · exact ⟨by simp, by simp, Or.inl rfl⟩
      · obtain ⟨hlt, hle, hstart⟩ := ih h
        exact ⟨by omega, by omega, by omega⟩
    · obtain ⟨hlt, hle, hstart⟩ := ih h
      exact ⟨by omega, by omega, by omega⟩

theorem start_lt_of_mem (hstart : start ≤ pos) (h : l ∈ spans nl start pos xs) :
    l.start < l.stop := by
  induction xs generalizing start pos with
  | nil => cases h
  | cons c xs ih =>
    rw [spans] at h
    split at h
    · rcases List.mem_cons.mp h with rfl | h
      · exact Nat.lt_succ_of_le hstart
      · exact ih (le_refl _) h
    · exact ih (by omega) h

/-! ### How many, and how long -/

theorem length_spans (start pos : Nat) (xs : List α) :
    (spans nl start pos xs).length = xs.count nl := by
  induction xs generalizing start pos with
  | nil => rfl
  | cons c xs ih =>
    rw [spans]
    split
    · next h => rw [List.length_cons, ih, h, List.count_cons_self]
    · next h => rw [ih, List.count_cons_of_ne h]

/-- The lines of a chunk fill it, from the start of the first one on. -/
theorem sum_length_spans (h : start ≤ pos) :
    ((spans nl start pos xs).map Span.length).sum = opened nl start pos xs - start := by
  induction xs generalizing start pos with
  | nil => simp [spans, opened]
  | cons c xs ih =>
    rw [spans, opened]
    split
    · have hle : pos + 1 ≤ opened nl (pos + 1) (pos + 1) xs := le_opened (le_refl (pos + 1))
      rw [List.map_cons, List.sum_cons, ih (le_refl _)]
      simp only [Span.length]
      omega
    · exact ih (by omega)

/-! ### What is counted -/

/-- The lines that end in the first `k` of the text. -/
theorem counted_eq {data : List α} (h : k ≤ data.length) :
    counted nl base k data = (spans nl 0 0 (data.take k)).filter fun l => base ≤ l.start := by
  have htake : (data.take k).length = k := List.length_take_of_le h
  have hdata : spans nl 0 0 data = spans nl 0 0 (data.take k) ++
      spans nl (opened nl 0 0 (data.take k)) k (data.drop k) := by
    have happend := @spans_append _ _ nl 0 0 (data.take k) (data.drop k)
    rw [List.take_append_drop, htake, Nat.zero_add] at happend
    exact happend
  have hbefore : ∀ l ∈ spans nl 0 0 (data.take k), l.stop ≤ k := by
    intro l hl
    have hle := (bounds_of_mem hl).2.1
    omega
  have hbehind : (spans nl (opened nl 0 0 (data.take k)) k (data.drop k)).filter
      (fun l => decide (base ≤ l.start ∧ l.stop ≤ k)) = [] := by
    rw [List.filter_eq_nil_iff]
    intro l hl
    have hlt := (bounds_of_mem hl).1
    simp only [decide_eq_true_eq]
    omega
  rw [counted, hdata, List.filter_append, hbehind, List.append_nil]
  apply List.filter_congr
  intro l hl
  simp [hbefore l hl]

/-- No line starts behind the end of what is counted. -/
theorem counted_self (k : Nat) (data : List α) : counted nl k k data = [] := by
  rw [counted, List.filter_eq_nil_iff]
  intro l hl
  have hlt := start_lt_of_mem (le_refl 0) hl
  simp only [decide_eq_true_eq]
  omega

/-- **A chunk** that begins at `k` adds its lines that start at the base or later. -/
theorem counted_append {data chunk : List α} (hk : k + chunk.length ≤ data.length)
    (hchunk : data.take (k + chunk.length) = data.take k ++ chunk) :
    counted nl base (k + chunk.length) data = counted nl base k data ++
      (spans nl (opened nl 0 0 (data.take k)) k chunk).filter fun l => base ≤ l.start := by
  have hlen : (data.take k).length = k := List.length_take_of_le (by omega)
  rw [counted_eq hk, counted_eq (show k ≤ data.length by omega), hchunk, spans_append, hlen,
    Nat.zero_add, List.filter_append]

/-- All lines of a chunk start at the base or later when the first one does. -/
theorem filter_spans_of_le (h : base ≤ start) (hpos : start ≤ pos) :
    (spans nl start pos xs).filter (fun l => base ≤ l.start) = spans nl start pos xs := by
  rw [List.filter_eq_self]
  intro l hl
  have hstart := (bounds_of_mem hl).2.2
  simp only [decide_eq_true_eq]
  omega

/-- The line that was unfinished at the base does not. -/
theorem filter_spans_of_lt (h : start < pos) (hxs : nl ∉ xs) :
    (spans nl start pos (xs ++ nl :: ys)).filter (fun l => pos ≤ l.start) =
      spans nl (pos + xs.length + 1) (pos + xs.length + 1) ys := by
  rw [spans_append, spans_of_not_mem hxs, opened_of_not_mem hxs, List.nil_append, spans,
    if_pos rfl, List.filter_cons_of_neg (by simpa using h)]
  exact filter_spans_of_le (by omega) (le_refl _)

/-! ### A reader -/

/-- A reader that began at `base` stands at `k`: where a line begins, or still
    where it began, inside a line. -/
structure Reading (nl : α) (base : Nat) (data : List α) (k : Nat) (inLine : Bool) : Prop where
  base_le : base ≤ k
  le : k ≤ data.length
  between : inLine = false → opened nl 0 0 (data.take k) = k
  inside : inLine = true → k = base ∧ opened nl 0 0 (data.take k) < k

/-- What a reader inside a line does not count is the rest of that line. -/
def whole (nl : α) (inLine : Bool) (chunk : List α) : List α :=
  if inLine ∧ chunk.length ≠ 0 then (chunk.dropWhile (· ≠ nl)).tail else chunk

theorem reading_end (data : List α) :
    Reading nl data.length data data.length (data ≠ [] ∧ data.getLast? ≠ some nl) where
  base_le := le_refl _
  le := le_refl _
  between := by
    intro hflag
    rw [List.take_length]
    have hended : Ended nl data := by
      intro c hc
      by_contra hne
      have hdata : data ≠ [] := by
        rintro rfl
        cases hc
      rw [Option.mem_def] at hc
      simp [hdata, hc, hne] at hflag
    simpa using @opened_of_ended _ _ _ 0 _ hended
  inside := by
    intro hflag
    obtain ⟨hne, hlast⟩ : data ≠ [] ∧ data.getLast? ≠ some nl := by simpa using hflag
    refine ⟨rfl, ?_⟩
    obtain ⟨init, c, rfl⟩ := (List.eq_nil_or_concat' data).resolve_left hne
    have hc : c ≠ nl := by simpa using hlast
    rw [List.take_length, opened_append, opened, if_neg hc, opened, List.length_append,
      List.length_singleton]
    have hle : opened nl 0 0 init ≤ 0 + init.length := opened_le (le_refl 0)
    omega

/-- The text grows behind the reader. -/
theorem Reading.grow {data data' : List α} {inLine : Bool} (h : Reading nl base data k inLine)
    (hgrow : data <+: data') :
    Reading nl base data' k inLine ∧ counted nl base k data' = counted nl base k data := by
  obtain ⟨more, rfl⟩ := hgrow
  have htake : (data ++ more).take k = data.take k := List.take_append_of_le_length h.le
  have hle : k ≤ (data ++ more).length := by
    rw [List.length_append]
    exact Nat.le_add_right_of_le h.le
  refine ⟨⟨h.base_le, hle, ?_, ?_⟩, ?_⟩
  · rw [htake]
    exact h.between
  · rw [htake]
    exact h.inside
  · rw [counted_eq hle, counted_eq h.le, htake]

/-- **The reader** takes in a chunk that ends with a line end: what it counts
    are the lines that it adds. -/
theorem Reading.consume {data chunk : List α} {inLine : Bool} (h : Reading nl base data k inLine)
    (hchunk : chunk <+: data.drop k) (hended : Ended nl chunk) :
    Reading nl base data (k + chunk.length) (inLine ∧ chunk.length = 0) ∧
      ∃ added, counted nl base (k + chunk.length) data = counted nl base k data ++ added ∧
        added.length = (whole nl inLine chunk).count nl ∧
        (added.map Span.length).sum = (whole nl inLine chunk).length := by
  have hlen : k + chunk.length ≤ data.length := by
    have hle := hchunk.length_le
    rw [List.length_drop] at hle
    have hk := h.le
    omega
  have htake : data.take (k + chunk.length) = data.take k ++ chunk := by
    rw [List.take_add, ← List.prefix_iff_eq_take.mp hchunk]
  have htaken : (data.take k).length = k := List.length_take_of_le h.le
  have hcounted := @counted_append _ _ nl base _ _ _ hlen htake
  have hopened : opened nl 0 0 (data.take (k + chunk.length)) =
      opened nl (opened nl 0 0 (data.take k)) k chunk := by
    rw [htake, opened_append, htaken, Nat.zero_add]
  cases inLine with
  | false =>
    have hstart := h.between rfl
    rw [hstart] at hcounted hopened
    rw [filter_spans_of_le h.base_le (le_refl k)] at hcounted
    refine ⟨⟨Nat.le_add_right_of_le h.base_le, hlen, fun _ => ?_, fun hin => ?_⟩, _, hcounted,
      ?_, ?_⟩
    · rw [hopened, opened_of_ended hended]
    · simp at hin
    · rw [length_spans, whole, if_neg (by simp)]
    · rw [sum_length_spans (le_refl k), opened_of_ended hended, whole, if_neg (by simp)]
      omega
  | true =>
    obtain ⟨rfl, hlt⟩ := h.inside rfl
    by_cases hnil : chunk = []
    · subst hnil
      exact ⟨by simpa using h, [], by simp, by simp [whole], by simp [whole]⟩
    · -- the first line end of the chunk ends the line that had begun before
      have hmem : nl ∈ chunk := by
        obtain ⟨init, rfl⟩ := hended.eq_snoc hnil
        simp
      obtain ⟨xs, ys, hsplit, hxs⟩ := List.eq_append_cons_of_mem hmem
      have hwhole : whole nl true chunk = ys := by
        rw [whole, if_pos (by simpa using hnil), hsplit,
          List.dropWhile_append_of_pos (by
            intro c hc
            simpa using fun heq : c = nl => hxs (heq ▸ hc))]
        simp
      have hys : Ended nl ys := by
        have hcons : Ended nl ((xs ++ [nl]) ++ ys) := by simpa [hsplit] using hended
        exact hcons.of_append
      rw [hsplit, filter_spans_of_lt hlt hxs, ← hsplit] at hcounted
      refine ⟨⟨Nat.le_add_right _ _, hlen, fun _ => ?_, fun hin => ?_⟩, _, hcounted, ?_, ?_⟩
      · rw [hopened, opened_of_ends hended hnil]
      · simp [hnil] at hin
      · rw [length_spans, hwhole]
      · rw [sum_length_spans (le_refl _), opened_of_ended hys, hwhole]
        omega

end LineSpans
