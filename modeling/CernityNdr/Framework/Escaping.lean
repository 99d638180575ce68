import Mathlib.Data.List.Basic

/-! # Escaped Texts

    Texts in which an escape item stands before every item that would have a
    meaning. A scanner takes the item behind an escape as it is, so that a
    separator in an escaped text is never taken for one.

    * `unescape_escape`: what was escaped is read back.
    * `cut_guarded`, `pieces_guarded`: an escaped text is one piece. -/

namespace Escaping

variable {α : Type*} [DecidableEq α]

/-! ### Writing and reading -/

/-- An escape before every escape and every special item. -/
def escape (esc : α) (special : α → Bool) (s : List α) : List α :=
  s.flatMap fun c => if c = esc ∨ special c = true then [esc, c] else [c]

/-- The text without its escapes; `skip` behind one. -/
def unescapeFrom (esc : α) : Bool → List α → List α
  | _, [] => []
  | true, c :: s => c :: unescapeFrom esc false s
  | false, c :: s => if c = esc then unescapeFrom esc true s else c :: unescapeFrom esc false s

def unescape (esc : α) (s : List α) : List α := unescapeFrom esc false s

/-- What is before the first separator that is not escaped, and what is
    behind it. -/
def cutFrom (esc sep : α) : Bool → List α → Option (List α × List α)
  | _, [] => none
  | true, c :: s => (cutFrom esc sep false s).map fun p => (c :: p.1, p.2)
  | false, c :: s =>
    if c = sep then some ([], s) else (cutFrom esc sep (c = esc) s).map fun p => (c :: p.1, p.2)

def cut (esc sep : α) (s : List α) : Option (List α × List α) := cutFrom esc sep false s

/-- The pieces between the separators that are not escaped. -/
def piecesFrom (esc sep : α) : Bool → List α → List (List α)
  | _, [] => [[]]
  | true, c :: s => (piecesFrom esc sep false s).modifyHead (c :: ·)
  | false, c :: s =>
    if c = sep then [] :: piecesFrom esc sep false s
    else (piecesFrom esc sep (c = esc) s).modifyHead (c :: ·)

def pieces (esc sep : α) (s : List α) : List (List α) := piecesFrom esc sep false s

variable {esc sep : α} {special : α → Bool} {s t rest : List α}

theorem escape_cons (c : α) (s : List α) : escape esc special (c :: s) =
    (if c = esc ∨ special c = true then [esc, c] else [c]) ++ escape esc special s :=
  List.flatMap_cons

/-- **What was escaped is read back.** -/
theorem unescape_escape (s : List α) : unescape esc (escape esc special s) = s := by
  induction s with
  | nil => rfl
  | cons c s ih =>
    rw [unescape] at ih ⊢
    rw [escape_cons]
    by_cases hc : c = esc ∨ special c = true
    · rw [if_pos hc, List.cons_append, unescapeFrom, if_pos rfl]
      exact congrArg (c :: ·) ih
    · rw [if_neg hc, List.singleton_append, unescapeFrom, if_neg fun h => hc (Or.inl h), ih]

theorem mem_escape {c : α} (hc : c ≠ esc) {s : List α} : c ∈ escape esc special s ↔ c ∈ s := by
  induction s with
  | nil => rfl
  | cons d s ih =>
    rw [escape_cons, List.mem_append, ih, List.mem_cons]
    by_cases hd : d = esc ∨ special d = true
    · rw [if_pos hd]
      simp [hc]
    · rw [if_neg hd, List.mem_singleton]

/-! ### One piece -/

/-- No separator in the text is unescaped, and no escape is at its end. -/
inductive Guarded (esc sep : α) : List α → Prop
  | nil : Guarded esc sep []
  | plain {c : α} {s : List α} (hesc : c ≠ esc) (hsep : c ≠ sep) (h : Guarded esc sep s) :
      Guarded esc sep (c :: s)
  | escaped {c : α} {s : List α} (h : Guarded esc sep s) : Guarded esc sep (esc :: c :: s)

omit [DecidableEq α] in
theorem Guarded.append (hs : Guarded esc sep s) (ht : Guarded esc sep t) : Guarded esc sep (s ++ t) := by
  induction hs with
  | nil => exact ht
  | plain hesc hsep _ ih => exact .plain hesc hsep ih
  | escaped _ ih => exact .escaped ih

omit [DecidableEq α] in
theorem Guarded.of_forall (h : ∀ c ∈ s, c ≠ esc ∧ c ≠ sep) : Guarded esc sep s := by
  induction s with
  | nil => exact .nil
  | cons c s ih =>
    obtain ⟨hesc, hsep⟩ := h c List.mem_cons_self
    exact .plain hesc hsep (ih fun d hd => h d (List.mem_cons_of_mem c hd))

/-- An escaped text has no separator that is special. -/
theorem guarded_escape (h : special sep = true) (s : List α) : Guarded esc sep (escape esc special s) := by
  induction s with
  | nil => exact .nil
  | cons c s ih =>
    rw [escape_cons]
    by_cases hc : c = esc ∨ special c = true
    · rw [if_pos hc]
      exact .escaped ih
    · rw [if_neg hc]
      obtain ⟨hesc, hspecial⟩ := not_or.mp hc
      exact .plain hesc (fun heq => hspecial (heq ▸ h)) ih

/-- **The first cut** of a text that starts with one piece. -/
theorem cut_guarded (hne : esc ≠ sep) (h : Guarded esc sep s) (rest : List α) :
    cut esc sep (s ++ sep :: rest) = some (s, rest) := by
  rw [cut]
  induction h with
  | nil => rw [List.nil_append, cutFrom, if_pos rfl]
  | plain hesc hsep _ ih =>
    rw [List.cons_append, cutFrom, if_neg hsep, decide_eq_false hesc, ih]
    rfl
  | escaped _ ih =>
    rw [List.cons_append, List.cons_append, cutFrom, if_neg hne, decide_eq_true rfl, cutFrom, ih]
    rfl

/-- **The pieces** of a text that starts with one piece. -/
theorem pieces_guarded (hne : esc ≠ sep) (h : Guarded esc sep s) (rest : List α) :
    pieces esc sep (s ++ sep :: rest) = s :: pieces esc sep rest := by
  rw [pieces]
  induction h with
  | nil => rw [List.nil_append, piecesFrom, if_pos rfl, pieces]
  | plain hesc hsep _ ih =>
    rw [List.cons_append, piecesFrom, if_neg hsep, decide_eq_false hesc, ih]
    rfl
  | escaped _ ih =>
    rw [List.cons_append, List.cons_append, piecesFrom, if_neg hne, decide_eq_true rfl, piecesFrom, ih]
    rfl

theorem piecesFrom_ne_nil (esc sep : α) (skip : Bool) (s : List α) : piecesFrom esc sep skip s ≠ [] := by
  induction s generalizing skip with
  | nil => cases skip <;> exact List.cons_ne_nil _ _
  | cons c s ih =>
    cases skip with
    | true =>
      rw [piecesFrom]
      simpa using ih false
    | false =>
      rw [piecesFrom]
      split
      · exact List.cons_ne_nil _ _
      · simpa using ih _

theorem pieces_ne_nil (esc sep : α) (s : List α) : pieces esc sep s ≠ [] :=
  piecesFrom_ne_nil esc sep false s

theorem pieces_of_guarded (hne : esc ≠ sep) (h : Guarded esc sep s) : pieces esc sep s = [s] := by
  rw [pieces]
  induction h with
  | nil => rfl
  | plain hesc hsep _ ih =>
    rw [piecesFrom, if_neg hsep, decide_eq_false hesc, ih]
    rfl
  | escaped _ ih =>
    rw [piecesFrom, if_neg hne, decide_eq_true rfl, piecesFrom, ih]
    rfl

end Escaping
