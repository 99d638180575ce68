import CernityNdr.Framework.JsonCut
import CernityNdr.Framework.Text

/-! # Journals of JSON Objects

    A file of one JSON object a line, written by appending and read line by
    line; a line that does not decode is skipped. All text is printable
    ASCII, so that a byte is a character.

    * `rows_append_journal`: rows appended to a file that ends with a line
      break are read back, behind the rows that were there.
    * `rows_append_cut`: when the append is cut short, the first of its rows
      are read back and the rest are not.
    * `mem_rows_append`: rows appended to a file with an unfinished line are
      read back or lost; nothing else ever appears. -/

namespace Journal

open Text

/-- One line of the file, if it decodes. -/
def row? (line : List Char) : Option Json :=
  let line := strip line
  if line = [] then none else Json.loads line

/-- The values that the lines of the file decode to. -/
def rows (file : List Char) : List Json := (lines file).filterMap row?

/-- The text that appends these objects. -/
def text (ms : List Json.Dict) : List Char := unlines (ms.map fun m => Json.dumps (.obj m))

/-! ### One row -/

theorem not_isSpace_of_printable {c : Char} (hp : Json.Printable c) (h : c ≠ ' ') :
    isSpace c = false := by
  obtain ⟨h1, h2⟩ := hp
  have hne : c.toNat ≠ 32 := by
    intro heq
    exact h (Char.toNat_inj.mp heq)
  have hws : c.isWhitespace = false := by
    have hlit : ∀ d : Char, d.toNat ≤ 32 → c ≠ d := by
      rintro d hd rfl
      omega
    simp only [Char.isWhitespace, Bool.or_eq_false_iff, decide_eq_false_iff_not]
    exact ⟨⟨⟨hlit _ (by decide), hlit _ (by decide)⟩, hlit _ (by decide)⟩, hlit _ (by decide)⟩
  simp only [isSpace, hws, Bool.false_or, Bool.or_eq_false_iff, decide_eq_false_iff_not,
    Bool.and_eq_false_iff, List.mem_cons, List.not_mem_nil, or_false]
  omega

theorem strip_dumps (ms : Json.Dict) : strip (Json.dumps (.obj ms)) = Json.dumps (.obj ms) := by
  obtain ⟨body, hb⟩ := Json.dumps_obj ms
  rw [hb]
  exact strip_of_ends (by decide) (by decide)

theorem row?_newline (line : List Char) : row? (line ++ ['\n']) = row? line := by
  unfold row?
  rw [strip_append_space _ (by decide)]

theorem row?_dumps (ms : Json.Dict) : row? (Json.dumps (.obj ms)) = some (.obj ms) := by
  obtain ⟨body, hb⟩ := Json.dumps_obj ms
  have hne : Json.dumps (.obj ms) ≠ [] := by rw [hb]; simp
  simp only [row?, strip_dumps, if_neg hne, Json.loads_dumps]

/-- White space in printable text is white space for the decoder. -/
theorem isWs_of_isSpace {c : Char} (hp : Json.Printable c) (h : isSpace c = true) :
    Json.isWs c = true := by
  by_cases hc : c = ' '
  · rw [hc]; rfl
  · rw [not_isSpace_of_printable hp hc] at h
    cases h

/-- A line that decodes, decodes with its white space. -/
theorem loads_of_row? {line : List Char} {v : Json} (hp : ∀ c ∈ line, Json.Printable c)
    (h : row? line = some v) : Json.loads line = some v := by
  obtain ⟨pre, post, hsplit, hpre, hpost⟩ := exists_strip line
  have hws : ∀ c ∈ line, isSpace c = true → Json.isWs c = true :=
    fun c hc => isWs_of_isSpace (hp c hc)
  have hprews : ∀ c ∈ pre, Json.isWs c = true := by
    intro c hc
    exact hws c (by rw [hsplit]; simp [hc]) (hpre c hc)
  have hpostws : ∀ c ∈ post, Json.isWs c = true := by
    intro c hc
    exact hws c (by rw [hsplit]; simp [hc]) (hpost c hc)
  have hstrip : Json.loads (strip line) = some v := by
    dsimp only [row?] at h
    split at h
    · cases h
    · exact h
  rw [hsplit, List.append_assoc, Json.loads_ws_append _ hprews]
  exact Json.loads_append_ws hstrip hpostws

/-- A row that was cut short does not decode. -/
theorem row?_cut {ms : Json.Dict} {p : List Char} (h : p <+: Json.dumps (.obj ms))
    (hne : p ≠ Json.dumps (.obj ms)) : row? p = none := by
  have hp : ∀ c ∈ p, Json.Printable c :=
    fun c hc => Json.printable_dumps _ c (h.subset hc)
  cases hrow : row? p with
  | none => rfl
  | some v =>
    have := loads_of_row? hp hrow
    rw [Json.loads_of_strict_prefix h hne] at this
    cases this

/-! ### Whole rows -/

theorem rows_nil : rows [] = [] := rfl

theorem rows_append {f : List Char} (hf : Whole f) (g : List Char) :
    rows (f ++ g) = rows f ++ rows g := by
  rw [rows, lines_append hf, List.filterMap_append]
  rfl

/-- A line without its line break. -/
theorem rows_unfinished {t : List Char} (ht : '\n' ∉ t) : rows t = (row? t).toList := by
  by_cases h : t = []
  · rw [h]; rfl
  · rw [rows, lines_of_not_mem ht h]
    cases hrow : row? t <;> simp [hrow]

theorem rows_line {t : List Char} (ht : '\n' ∉ t) : rows (t ++ ['\n']) = (row? t).toList := by
  rw [rows, lines_snoc ht]
  cases hrow : row? t <;> simp [row?_newline, hrow]

theorem text_cons (m : Json.Dict) (ms : List Json.Dict) :
    text (m :: ms) = Json.dumps (.obj m) ++ ['\n'] ++ text ms := by
  simp [text, unlines_cons]

theorem text_append (as bs : List Json.Dict) : text (as ++ bs) = text as ++ text bs := by
  rw [text, List.map_append, unlines_append]
  rfl

theorem whole_text (ms : List Json.Dict) : Whole (text ms) := whole_unlines _

@[simp] theorem rows_text (ms : List Json.Dict) : rows (text ms) = ms.map .obj := by
  induction ms with
  | nil => rfl
  | cons m ms ih =>
    rw [text_cons, rows_append (Whole.snoc _), rows_line (Json.newline_not_mem_dumps _),
      row?_dumps, ih]
    rfl

/-- **Rows that were appended to a whole file are read back.** -/
theorem rows_append_text {file : List Char} (h : Whole file) (ms : List Json.Dict) :
    rows (file ++ text ms) = rows file ++ ms.map .obj := by
  rw [rows_append h, rows_text]

/-! ### Appends that were cut short -/

/-- What an append that was cut short leaves: whole rows, and a part of the
    next one. -/
theorem prefix_text {ms : List Json.Dict} {p : List Char} (h : p <+: text ms) :
    ∃ written t, p = text written ++ t ∧ written <+: ms ∧
      (t = [] ∨ ∃ m, written ++ [m] <+: ms ∧ t <+: Json.dumps (.obj m)) := by
  obtain ⟨ls, t, rfl, hls, ht⟩ := prefix_unlines h
  obtain ⟨written, hw, rfl⟩ := List.prefix_map_iff.mp hls
  refine ⟨written, t, rfl, hw, ?_⟩
  rcases ht with rfl | ⟨l, hl, ht⟩
  · exact Or.inl rfl
  · right
    obtain ⟨ns, hns, heq⟩ := List.prefix_map_iff.mp hl
    obtain ⟨as, bs, rfl, has, hbs⟩ := List.map_eq_append_iff.mp heq.symm
    obtain ⟨m, rfl, rfl⟩ := List.map_eq_singleton_iff.mp hbs
    have hinj : Function.Injective fun m : Json.Dict => Json.dumps (.obj m) := by
      intro a b hab
      exact Json.obj.inj (Json.dumps_injective hab)
    rw [List.map_injective_iff.mpr hinj has] at hns
    exact ⟨m, hns, ht⟩

/-- **The first rows of an append that was cut short are read back, the rest
    is not.** -/
theorem rows_append_cut {file : List Char} (h : Whole file) {ms : List Json.Dict} {p : List Char}
    (hp : p <+: text ms) : ∃ kept, kept <+: ms ∧ rows (file ++ p) = rows file ++ kept.map .obj := by
  obtain ⟨written, t, rfl, hw, ht⟩ := prefix_text hp
  have hrows : rows (file ++ (text written ++ t)) = rows file ++ (written.map .obj ++ rows t) := by
    rw [rows_append h, rows_append (whole_text written), rows_text]
  rcases ht with rfl | ⟨m, hm, ht⟩
  · exact ⟨written, hw, by rw [hrows, rows_nil, List.append_nil]⟩
  · have hnl : '\n' ∉ t := fun hmem => Json.newline_not_mem_dumps _ (ht.subset hmem)
    rw [rows_unfinished hnl] at hrows
    by_cases heq : t = Json.dumps (.obj m)
    · refine ⟨written ++ [m], hm, ?_⟩
      rw [hrows, heq, row?_dumps]
      simp
    · refine ⟨written, hw, ?_⟩
      rw [hrows, row?_cut ht heq]
      simp

/-! ### Appends behind an unfinished line -/

/-- A journal whose unfinished line, if there is one, cannot be continued by
    an object. -/
def Tidy (file : List Char) : Prop :=
  ∃ f t, file = f ++ t ∧ Whole f ∧ (∀ c ∈ t, Json.Printable c) ∧ (t = [] ∨ Json.Blocked t)

theorem tidy_of_whole {file : List Char} (h : Whole file) : Tidy file :=
  ⟨file, [], by simp, h, by simp, Or.inl rfl⟩

/-- What part of an append does to a whole file. -/
theorem tidy_append_of_whole {f : List Char} (hf : Whole f) {ms : List Json.Dict} {p : List Char}
    (hp : p <+: text ms) : Tidy (f ++ p) := by
  obtain ⟨written, t, rfl, -, ht⟩ := prefix_text hp
  refine ⟨f ++ text written, t, by simp, hf.append (whole_text _), ?_, ?_⟩
  · rcases ht with rfl | ⟨m, -, ht⟩
    · simp
    · exact fun c hc => Json.printable_dumps _ c (ht.subset hc)
  · rcases ht with rfl | ⟨m, -, ht⟩
    · exact Or.inl rfl
    · by_cases h0 : t = []
      · exact Or.inl h0
      · exact Or.inr (Json.blocked_of_prefix h0 ht)

/-- A line that the decoder is stuck in decodes to nothing. -/
theorem row?_of_stuck {line : List Char} (hp : ∀ c ∈ line, Json.Printable c)
    (h : Json.Stuck line) : row? line = none := by
  cases hrow : row? line with
  | none => rfl
  | some v =>
    have := loads_of_row? hp hrow
    rw [h.loads_eq_none] at this
    cases this

/-- **Appending keeps a journal tidy, and brings nothing but its own rows.**
    The append may be cut short anywhere, and the file may end with what an
    earlier append left when it was cut short. -/
theorem Tidy.append {file : List Char} (h : Tidy file) {ms : List Json.Dict}
    (ht : ∀ m ∈ ms, Json.Tagged m) {p : List Char} (hp : p <+: text ms) :
    Tidy (file ++ p) ∧ ∀ v ∈ rows (file ++ p), v ∈ rows file ∨ ∃ m ∈ ms, v = .obj m := by
  obtain ⟨f, t, rfl, hf, hprint, hblock⟩ := h
  have hwhole : ∀ {g q : List Char} {ns : List Json.Dict}, Whole g → q <+: text ns →
      ns <:+ ms → Tidy (g ++ q) ∧ ∀ v ∈ rows (g ++ q), v ∈ rows g ∨ ∃ m ∈ ms, v = .obj m := by
    intro g q ns hg hq hns
    refine ⟨tidy_append_of_whole hg hq, ?_⟩
    obtain ⟨kept, hk, heq⟩ := rows_append_cut hg hq
    intro v hv
    rw [heq, List.mem_append, List.mem_map] at hv
    refine hv.imp id ?_
    rintro ⟨m, hm, rfl⟩
    exact ⟨m, hns.subset (hk.subset hm), rfl⟩
  have hnl : '\n' ∉ t := fun hmem => absurd (hprint _ hmem) (by decide)
  by_cases ht0 : t = []
  · rw [ht0, List.append_nil]
    exact hwhole hf hp (List.suffix_refl ms)
  replace hblock := hblock.resolve_left ht0
  have hrowsf : ∀ g, rows (f ++ g) = rows f ++ rows g := rows_append hf
  have hmemf : ∀ v ∈ rows f, v ∈ rows (f ++ t) := by
    intro v hv
    rw [hrowsf]
    exact List.mem_append_left _ hv
  obtain ⟨written, u, rfl, hw, hu⟩ := prefix_text hp
  cases written with
  | nil =>
    -- the unfinished line is all that grows
    rw [show text [] ++ u = u from rfl]
    by_cases hu0 : u = []
    · rw [hu0, List.append_nil]
      exact ⟨⟨f, t, rfl, hf, hprint, Or.inr hblock⟩, fun v hv => Or.inl hv⟩
    · obtain ⟨m, hm, hum⟩ := hu.resolve_left hu0
      have hmem : m ∈ ms := hm.subset (by simp)
      have hstuck : Json.Stuck (t ++ u) := hblock.stuck_append (ht m hmem) hum hu0
      have hprint' : ∀ c ∈ t ++ u, Json.Printable c := by
        intro c hc
        rcases List.mem_append.mp hc with hc | hc
        · exact hprint c hc
        · exact Json.printable_dumps _ c (hum.subset hc)
      refine ⟨⟨f, t ++ u, by simp, hf, hprint', Or.inr hstuck.blocked⟩, ?_⟩
      intro v hv
      have hnl' : '\n' ∉ t ++ u := fun hmem => absurd (hprint' _ hmem) (by decide)
      rw [List.append_assoc, hrowsf, rows_unfinished hnl', row?_of_stuck hprint' hstuck,
        Option.toList_none, List.append_nil] at hv
      exact Or.inl (hmemf v hv)
  | cons m written =>
    -- the first row ends the unfinished line and is lost with it
    have hmem : m ∈ ms := hw.subset (by simp)
    have hdumps0 : Json.dumps (.obj m) ≠ [] := by
      obtain ⟨body, hb⟩ := Json.dumps_obj m
      rw [hb]; simp
    have hstuck : Json.Stuck (t ++ Json.dumps (.obj m)) :=
      hblock.stuck_append (ht m hmem) List.prefix_rfl hdumps0
    have hprint' : ∀ c ∈ t ++ Json.dumps (.obj m), Json.Printable c := by
      intro c hc
      rcases List.mem_append.mp hc with hc | hc
      · exact hprint c hc
      · exact Json.printable_dumps _ c hc
    have hnl' : '\n' ∉ t ++ Json.dumps (.obj m) :=
      fun hmem => absurd (hprint' _ hmem) (by decide)
    obtain ⟨ns, rfl⟩ : ∃ ns, ms = m :: ns := by
      obtain ⟨post, hpost⟩ := hw
      exact ⟨written ++ post, by rw [← hpost]; rfl⟩
    have hsplit : f ++ t ++ (text (m :: written) ++ u) =
        f ++ (t ++ Json.dumps (.obj m) ++ ['\n']) ++ (text written ++ u) := by
      rw [text_cons]
      simp
    have hrest : text written ++ u <+: text ns := by
      rw [text_cons, text_cons, List.append_assoc, List.prefix_append_right_inj] at hp
      exact hp
    have hfirst : rows (f ++ (t ++ Json.dumps (.obj m) ++ ['\n'])) = rows f := by
      rw [hrowsf, rows_line hnl', row?_of_stuck hprint' hstuck, Option.toList_none,
        List.append_nil]
    rw [hsplit]
    obtain ⟨htidy, hrows⟩ := hwhole (hf.append (Whole.snoc _)) hrest ⟨[m], rfl⟩
    refine ⟨htidy, fun v hv => ?_⟩
    rcases hrows v hv with hv | hv
    · rw [hfirst] at hv
      exact Or.inl (hmemf v hv)
    · exact Or.inr hv

end Journal
