import Mathlib.Data.List.Infix
import Mathlib.Data.List.DropRight

/-! # Text and Lines

    Text as a list of characters: what `str.strip` removes, and the lines of
    a file that is written by appending whole lines.

    A file is read back line by line, each line with its line break; the last
    line has none when the file does not end with one (`Whole` says that it
    does). What was written before such an unfinished line is not affected by
    what is written later, but the unfinished line is. -/

namespace Text

/-! ### White space -/

/-- A character that `str.strip` removes. -/
def isSpace (c : Char) : Bool :=
  c.isWhitespace || c.toNat = 11 || c.toNat = 12 || (28 ≤ c.toNat && c.toNat ≤ 31) ||
    c.toNat ∈ [133, 160, 5760, 8232, 8233, 8239, 8287, 12288] ||
    (8192 ≤ c.toNat && c.toNat ≤ 8202)

/-- `str.strip`. -/
def strip (cs : List Char) : List Char := (cs.dropWhile isSpace).rdropWhile isSpace

/-- `s.strip()` leaves something. -/
def notBlank (s : String) : Bool := s.toList.any fun c => !isSpace c

theorem strip_append_space (cs : List Char) {c : Char} (hc : isSpace c = true) :
    strip (cs ++ [c]) = strip cs := by
  unfold strip
  by_cases hcs : cs.dropWhile isSpace = []
  · have hall : ∀ d ∈ cs, isSpace d = true := List.dropWhile_eq_nil_iff.mp hcs
    have hnil : (cs ++ [c]).dropWhile isSpace = [] := by
      rw [List.dropWhile_eq_nil_iff]
      intro d hd
      rcases List.mem_append.mp hd with hd | hd
      · exact hall d hd
      · rw [List.mem_singleton.mp hd]; exact hc
    rw [hcs, hnil]
  · have happ : (cs ++ [c]).dropWhile isSpace = cs.dropWhile isSpace ++ [c] := by
      rw [List.dropWhile_append, if_neg (by simpa using hcs)]
    rw [happ, List.rdropWhile_concat_pos _ _ _ hc]

/-- What `str.strip` removes is white space at both ends. -/
theorem exists_strip (cs : List Char) : ∃ pre post, cs = pre ++ strip cs ++ post ∧
    (∀ c ∈ pre, isSpace c = true) ∧ ∀ c ∈ post, isSpace c = true := by
  refine ⟨cs.takeWhile isSpace, (cs.dropWhile isSpace).rtakeWhile isSpace, ?_, ?_, ?_⟩
  · rw [strip, List.append_assoc, List.rdropWhile_append_rtakeWhile, List.takeWhile_append_dropWhile]
  · exact fun c hc => List.mem_takeWhile_imp hc
  · exact fun c hc => List.mem_rtakeWhile_imp hc

/-- A text without white space at its ends is not changed. -/
theorem strip_of_ends {a b : Char} {cs : List Char} (ha : isSpace a = false)
    (hb : isSpace b = false) : strip (a :: (cs ++ [b])) = a :: (cs ++ [b]) := by
  rw [strip, List.dropWhile_cons_of_neg (by simp [ha]), ← List.cons_append,
    List.rdropWhile_concat_neg _ _ _ (by simp [hb])]

theorem strip_cons_space {c : Char} (hc : isSpace c = true) (cs : List Char) :
    strip (c :: cs) = strip cs := by
  rw [strip, List.dropWhile_cons_of_pos hc, strip]

theorem strip_eq_self {cs : List Char} (hhead : ∀ c, cs.head? = some c → isSpace c = false)
    (hlast : ∀ c, cs.getLast? = some c → isSpace c = false) : strip cs = cs := by
  have hdrop : cs.dropWhile isSpace = cs := by
    cases cs with
    | nil => rfl
    | cons c cs => exact List.dropWhile_cons_of_neg (by simp [hhead c rfl])
  rw [strip, hdrop, List.rdropWhile_eq_self_iff]
  intro hne
  rw [hlast _ (List.getLast?_eq_some_getLast hne)]
  exact Bool.false_ne_true

theorem getLast?_strip {cs : List Char} {c : Char} (h : (strip cs).getLast? = some c) :
    isSpace c = false := by
  have hne : strip cs ≠ [] := by
    intro hnil
    rw [hnil] at h
    cases h
  have hlast := List.rdropWhile_last_not isSpace (cs.dropWhile isSpace) hne
  rw [List.getLast?_eq_some_getLast hne, Option.some.injEq] at h
  rw [← h]
  exact Bool.eq_false_iff.mpr hlast

theorem head?_strip {cs : List Char} {c : Char} (h : (strip cs).head? = some c) :
    isSpace c = false := by
  have hpre : strip cs <+: cs.dropWhile isSpace := List.rdropWhile_prefix _ _
  have hdrop : (cs.dropWhile isSpace).head? = some c := by
    obtain ⟨post, hpost⟩ := hpre
    rw [← hpost, List.head?_append, h]
    rfl
  have hne : cs.dropWhile isSpace ≠ [] := by
    intro hnil
    rw [hnil] at hdrop
    cases hdrop
  have hnot := List.head_dropWhile_not isSpace hne
  rw [List.head?_eq_some_head hne, Option.some.injEq] at hdrop
  rwa [hdrop] at hnot

theorem strip_strip (cs : List Char) : strip (strip cs) = strip cs :=
  strip_eq_self (fun _ h => head?_strip h) (fun _ h => getLast?_strip h)

/-! ### Lines -/

/-- The lines of a file, each with its line break. -/
def lines : List Char → List (List Char)
  | [] => []
  | c :: cs =>
    if c = '\n' then [c] :: lines cs
    else
      match lines cs with
      | [] => [[c]]
      | l :: ls => (c :: l) :: ls

/-- The file that holds these lines. -/
def unlines (ls : List (List Char)) : List Char := ls.flatMap fun l => l ++ ['\n']

/-- A file that is empty or ends with a line break. -/
def Whole (file : List Char) : Prop := file.getLast? = none ∨ file.getLast? = some '\n'

instance : DecidablePred Whole := fun _ => inferInstanceAs (Decidable (_ ∨ _))

theorem Whole.nil : Whole [] := Or.inl rfl

theorem Whole.snoc (file : List Char) : Whole (file ++ ['\n']) := Or.inr (by simp)

theorem Whole.append {f g : List Char} (hf : Whole f) (hg : Whole g) : Whole (f ++ g) := by
  by_cases h : g = []
  · rw [h, List.append_nil]; exact hf
  · unfold Whole
    rw [List.getLast?_append_of_ne_nil _ h]
    exact hg

theorem whole_unlines (ls : List (List Char)) : Whole (unlines ls) := by
  induction ls with
  | nil => exact Whole.nil
  | cons l ls ih =>
    rw [unlines, List.flatMap_cons]
    exact (Whole.snoc l).append ih

theorem unlines_cons (l : List Char) (ls : List (List Char)) :
    unlines (l :: ls) = l ++ '\n' :: unlines ls := by
  simp [unlines]

theorem unlines_append (as bs : List (List Char)) : unlines (as ++ bs) = unlines as ++ unlines bs :=
  List.flatMap_append

/-- The lines of a file that ends with a line break are not affected by what
    follows. -/
theorem lines_append {f : List Char} (hf : Whole f) (g : List Char) :
    lines (f ++ g) = lines f ++ lines g := by
  induction f with
  | nil => rfl
  | cons c cs ih =>
    have hcs : Whole cs := by
      rcases hf with h | h
      · cases cs <;> simp at h
      · cases cs with
        | nil => exact Whole.nil
        | cons d cs => exact Or.inr (by simpa using h)
    rw [List.cons_append, lines, lines]
    split
    · rw [ih hcs]; rfl
    · next hc =>
      rw [ih hcs]
      cases hl : lines cs with
      | nil =>
        -- the line that `c` starts ends inside `cs`
        exfalso
        cases cs with
        | nil => rcases hf with h | h <;> simp at h; exact hc h
        | cons d cs =>
          rw [lines] at hl
          split at hl
          · cases hl
          · split at hl <;> cases hl
      | cons l ls => rfl

/-- A text without a line break is one line. -/
theorem lines_of_not_mem {l : List Char} (h : '\n' ∉ l) (hl : l ≠ []) : lines l = [l] := by
  induction l with
  | nil => exact absurd rfl hl
  | cons c cs ih =>
    rw [List.mem_cons, not_or] at h
    rw [lines, if_neg (fun hc => h.1 hc.symm)]
    by_cases hcs : cs = []
    · rw [hcs]; rfl
    · rw [ih h.2 hcs]

theorem lines_snoc {l : List Char} (h : '\n' ∉ l) : lines (l ++ ['\n']) = [l ++ ['\n']] := by
  induction l with
  | nil => rfl
  | cons c cs ih =>
    rw [List.mem_cons, not_or] at h
    rw [List.cons_append, lines, if_neg (fun hc => h.1 hc.symm), ih h.2]

/-- **What a write that was cut short leaves**: whole lines, and a part of the
    next one. -/
theorem prefix_unlines {ls : List (List Char)} {p : List Char} (h : p <+: unlines ls) :
    ∃ written t, p = unlines written ++ t ∧ written <+: ls ∧
      (t = [] ∨ ∃ l, written ++ [l] <+: ls ∧ t <+: l) := by
  induction ls generalizing p with
  | nil => exact ⟨[], p, rfl, List.nil_prefix, Or.inl (List.prefix_nil.mp h)⟩
  | cons l ls ih =>
    rw [unlines_cons] at h
    rcases List.prefix_or_prefix_of_prefix h (List.prefix_append l _) with hp | ⟨q, rfl⟩
    · exact ⟨[], p, rfl, List.nil_prefix, Or.inr ⟨l, ⟨ls, rfl⟩, hp⟩⟩
    · rw [List.prefix_append_right_inj] at h
      cases q with
      | nil =>
        exact ⟨[], l, by simp [unlines], List.nil_prefix,
          Or.inr ⟨l, ⟨ls, rfl⟩, List.prefix_rfl⟩⟩
      | cons c q =>
        rw [List.cons_prefix_cons] at h
        obtain ⟨rfl, hq⟩ := h
        obtain ⟨written, t, rfl, hpre, ht⟩ := ih hq
        refine ⟨l :: written, t, by simp [unlines_cons], ?_, ?_⟩
        · rw [List.cons_prefix_cons]
          exact ⟨rfl, hpre⟩
        · rcases ht with rfl | ⟨m, hm, htm⟩
          · exact Or.inl rfl
          · exact Or.inr ⟨m, by simpa using hm, htm⟩

/-! ### Lower case -/

theorem toLower_of_not_upper {c : Char} (h : ¬ (c.val ≥ 'A'.val ∧ c.val ≤ 'Z'.val)) :
    c.toLower = c := by
  unfold Char.toLower
  rw [dif_neg h]

/-- A letter that was lowered is not a capital. -/
theorem toLower_not_upper (c : Char) :
    ¬ (c.toLower.val ≥ 'A'.val ∧ c.toLower.val ≤ 'Z'.val) := by
  by_cases h : c.val ≥ 'A'.val ∧ c.val ≤ 'Z'.val
  · have hval : c.toLower.val = c.val + ('a'.val - 'A'.val) := by
      unfold Char.toLower
      rw [dif_pos h]
    have hA : 'A'.val.toNat = 65 := rfl
    have hZ : 'Z'.val.toNat = 90 := rfl
    have ha : ('a'.val - 'A'.val).toNat = 32 := rfl
    rw [hval]
    rintro ⟨-, hle⟩
    obtain ⟨h1, h2⟩ := h
    simp only [UInt32.le_iff_toNat_le, ge_iff_le, UInt32.toNat_add, hA, hZ, ha] at h1 h2 hle
    omega
  · rw [toLower_of_not_upper h]
    exact h

theorem toLower_toLower (s : String) : s.toLower.toLower = s.toLower := by
  unfold String.toLower
  rw [String.map_map]
  congr 1
  funext c
  exact toLower_of_not_upper (toLower_not_upper c)

theorem toLower_ne_empty {s : String} (h : s ≠ "") : s.toLower ≠ "" := by
  intro hempty
  apply h
  have hlist := congrArg String.toList hempty
  unfold String.toLower at hlist
  rw [String.toList_map] at hlist
  simpa using hlist

end Text

/-! ## Lines of a Text That Came From Elsewhere

    `str.splitlines`: it breaks a text at more characters than a writer of
    lines ends them with.

    * `splitlines_line`: a line without such a character is read back.
    * `unbroken_of_mem`: no line that is read has one.
    * `splitlines_unlines`: what is read of lines that were written. -/

namespace Text

/-- A character at which `str.splitlines` breaks. -/
def isLineBreak (c : Char) : Bool := c.toNat ∈ [10, 11, 12, 13, 28, 29, 30, 133, 8232, 8233]

/-- `str.splitlines`. -/
def splitlines : List Char → List (List Char)
  | [] => []
  | '\r' :: '\n' :: cs => [] :: splitlines cs
  | c :: cs =>
    if isLineBreak c then [] :: splitlines cs
    else
      match splitlines cs with
      | [] => [[c]]
      | l :: ls => (c :: l) :: ls

/-- No character of the line breaks it. -/
def Unbroken (cs : List Char) : Prop := ∀ c ∈ cs, isLineBreak c = false

instance (cs : List Char) : Decidable (Unbroken cs) := inferInstanceAs (Decidable (∀ c ∈ cs, _))

variable {c : Char} {cs l : List Char}

theorem unbroken_nil : Unbroken [] := fun _ h => absurd h List.not_mem_nil

theorem Unbroken.cons (hl : Unbroken l) (hc : isLineBreak c = false) : Unbroken (c :: l) :=
  List.forall_mem_cons.mpr ⟨hc, hl⟩

theorem splitlines_cons_of_break (h : isLineBreak c = true)
    (hcrlf : ∀ rest, c = '\r' → cs = '\n' :: rest → False) :
    splitlines (c :: cs) = [] :: splitlines cs := by
  rw [splitlines.eq_def]
  split
  · next heq => cases heq
  · next heq =>
    obtain ⟨rfl, rfl⟩ := List.cons.inj heq
    exact absurd rfl (hcrlf _ rfl)
  · next heq =>
    obtain ⟨rfl, rfl⟩ := List.cons.inj heq
    rw [if_pos h]

theorem ne_cr_of_not_isLineBreak (h : isLineBreak c = false) : c ≠ '\r' := by
  rintro rfl
  cases h

theorem splitlines_cons (h : isLineBreak c = false) :
    splitlines (c :: cs) =
      (c :: (splitlines cs).head?.getD []) :: (splitlines cs).tail := by
  rw [splitlines.eq_def]
  split
  · next heq => cases heq
  · next heq => exact absurd (List.cons.inj heq).1 (ne_cr_of_not_isLineBreak h)
  · next heq =>
    obtain ⟨rfl, rfl⟩ := List.cons.inj heq
    rw [h]
    cases splitlines cs <;> rfl

/-- What precedes the first break is on the first line. -/
theorem splitlines_append {p : List Char} (h : Unbroken p) (hp : p ≠ []) (cs : List Char) :
    splitlines (p ++ cs) = (p ++ (splitlines cs).head?.getD []) :: (splitlines cs).tail := by
  induction p with
  | nil => exact absurd rfl hp
  | cons c p ih =>
    obtain ⟨hc, hp'⟩ := List.forall_mem_cons.mp h
    rw [List.cons_append, splitlines_cons hc]
    cases p with
    | nil => rfl
    | cons d p =>
      rw [ih hp' (by simp)]
      rfl

/-- A line that nothing breaks is read back. -/
theorem splitlines_line (h : Unbroken l) (rest : List Char) :
    splitlines (l ++ '\n' :: rest) = l :: splitlines rest := by
  induction l with
  | nil => exact splitlines_cons_of_break rfl (by simp)
  | cons c l ih =>
    obtain ⟨hc, hl⟩ := List.forall_mem_cons.mp h
    rw [List.cons_append, splitlines_cons hc, ih hl]
    rfl

/-- What was written line by line is read back when nothing breaks a line. -/
theorem splitlines_unlines {ls : List (List Char)} (h : ∀ l ∈ ls, Unbroken l) :
    splitlines (unlines ls) = ls := by
  induction ls with
  | nil => rfl
  | cons l ls ih =>
    obtain ⟨hl, hls⟩ := List.forall_mem_cons.mp h
    rw [unlines_cons, splitlines_line hl, ih hls]

/-- No line that is read has a break in it. -/
theorem unbroken_of_mem (h : l ∈ splitlines cs) : Unbroken l := by
  induction cs using splitlines.induct generalizing l with
  | case1 => cases h
  | case2 cs ih =>
    rw [splitlines] at h
    rcases List.mem_cons.mp h with rfl | h
    · exact unbroken_nil
    · exact ih h
  | case3 c cs hcrlf hc ih =>
    rw [splitlines_cons_of_break hc fun rest hcr heq => hcrlf rest hcr heq] at h
    rcases List.mem_cons.mp h with rfl | h
    · exact unbroken_nil
    · exact ih h
  | case4 c cs _ hc hnil _ =>
    have hc' : isLineBreak c = false := by simpa using hc
    rw [splitlines_cons hc', hnil] at h
    rw [List.mem_singleton.mp h]
    exact unbroken_nil.cons hc'
  | case5 c cs _ hc first rest hcons ih =>
    have hc' : isLineBreak c = false := by simpa using hc
    rw [splitlines_cons hc', hcons] at h
    rw [hcons] at ih
    rcases List.mem_cons.mp h with rfl | h
    · exact (ih List.mem_cons_self).cons hc'
    · exact ih (List.mem_cons_of_mem _ h)

end Text

/-! ## Digits of Other Scripts

    `str.isdigit` and `int` of a text. Both go by the character tables of
    Unicode, and they differ: a superscript is a digit and no decimal. -/

namespace Text

/-- The zeros of the decimal digits of all scripts. The other nine follow
    each of them. -/
def decimalZeros : List Nat :=
  [0x30, 0x660, 0x6f0, 0x7c0, 0x966, 0x9e6, 0xa66, 0xae6, 0xb66, 0xbe6, 0xc66, 0xce6, 0xd66, 0xde6,
    0xe50, 0xed0, 0xf20, 0x1040, 0x1090, 0x17e0, 0x1810, 0x1946, 0x19d0, 0x1a80, 0x1a90, 0x1b50,
    0x1bb0, 0x1c40, 0x1c50, 0xa620, 0xa8d0, 0xa900, 0xa9d0, 0xa9f0, 0xaa50, 0xabf0, 0xff10, 0x104a0,
    0x10d30, 0x10d40, 0x11066, 0x110f0, 0x11136, 0x111d0, 0x112f0, 0x11450, 0x114d0, 0x11650,
    0x116c0, 0x116d0, 0x116da, 0x11730, 0x118e0, 0x11950, 0x11bf0, 0x11c50, 0x11d50, 0x11da0,
    0x11f50, 0x16130, 0x16a60, 0x16ac0, 0x16b50, 0x16d70, 0x1ccf0, 0x1d7ce, 0x1d7d8, 0x1d7e2,
    0x1d7ec, 0x1d7f6, 0x1e140, 0x1e2f0, 0x1e4f0, 0x1e5f1, 0x1e950, 0x1fbf0]

/-- The digits that are no decimals (superscripts, digits in circles), by
    their first and last. -/
def digitBlocks : List (Nat × Nat) :=
  [(0xb2, 0xb3), (0xb9, 0xb9), (0x1369, 0x1371), (0x19da, 0x19da), (0x2070, 0x2070),
    (0x2074, 0x2079), (0x2080, 0x2089), (0x2460, 0x2468), (0x2474, 0x247c), (0x2488, 0x2490),
    (0x24ea, 0x24ea), (0x24f5, 0x24fd), (0x24ff, 0x24ff), (0x2776, 0x277e), (0x2780, 0x2788),
    (0x278a, 0x2792), (0x10a40, 0x10a43), (0x10e60, 0x10e68), (0x11052, 0x1105a),
    (0x1f100, 0x1f10a)]

/-- The value of a decimal digit. -/
def decimalValue (c : Char) : Option Nat :=
  (decimalZeros.find? fun z => z ≤ c.toNat && c.toNat < z + 10).map (c.toNat - ·)

def isDigit (c : Char) : Bool :=
  (decimalValue c).isSome || digitBlocks.any fun b => b.1 ≤ c.toNat && c.toNat ≤ b.2

/-- `str.isdigit`. -/
def isdigit (cs : List Char) : Bool := !cs.isEmpty && cs.all isDigit

/-- `int` of a text of digits; `none` where it raises. -/
def int (cs : List Char) : Option Nat :=
  -- the interpreter refuses to read more than 4300 digits
  if cs.isEmpty || 4300 < cs.length then none
  else cs.foldlM (fun v c => (decimalValue c).map (10 * v + ·)) 0

theorem decimalValue_of_isDigit {c : Char} (h : c.isDigit = true) :
    decimalValue c = some (c.toNat - 48) := by
  simp only [Char.isDigit, Bool.and_eq_true, decide_eq_true_eq, ge_iff_le, UInt32.le_iff_toNat_le]
    at h
  obtain ⟨hlow, hhigh⟩ := h
  have hlow : 0x30 ≤ c.toNat := hlow
  have hhigh : c.toNat ≤ 0x39 := hhigh
  rw [decimalValue, decimalZeros, List.find?_cons_of_pos]
  · rfl
  · simp only [Bool.and_eq_true, decide_eq_true_eq]
    omega

/-- A text of the digits 0 to 9. -/
theorem isdigit_of_ascii {cs : List Char} (hne : cs ≠ []) (h : ∀ c ∈ cs, c.isDigit = true) :
    isdigit cs = true := by
  rw [isdigit, Bool.and_eq_true, List.all_eq_true]
  constructor
  · cases cs with
    | nil => exact absurd rfl hne
    | cons c cs => rfl
  · intro c hc
    rw [isDigit, decimalValue_of_isDigit (h c hc)]
    rfl

end Text
