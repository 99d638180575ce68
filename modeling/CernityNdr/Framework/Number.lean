import Mathlib.Algebra.Order.Ring.Rat
import Mathlib.Data.List.TakeWhile
import CernityNdr.Framework.JsonRoundTrip

/-! # Numbers and Their Texts

    A number of the language is an integer or a float, the float as the
    literal that `repr` and the JSON encoder print for it. `str` writes a
    number, `ofText` (`float`) reads the value of a literal.

    * `ofText_str`: what is written is read back with its value. -/

/-- An integer, or a float. -/
inductive Number
  | int (n : Int)
  | float (x : FloatText)
  deriving DecidableEq, Repr

namespace Number

/-- The value of a literal: the digits before and behind the point, times a
    power of ten. -/
def literalValue (text : List Char) : ℚ :=
  let isExp := fun c => c = 'e' || c = 'E'
  let mantissa := text.takeWhile fun c => !isExp c
  let exponent := (text.dropWhile fun c => !isExp c).drop 1
  let whole := mantissa.takeWhile fun c => c ≠ '.'
  let frac := (mantissa.dropWhile fun c => c ≠ '.').drop 1
  let exp := Json.intValue (if exponent.head? = some '+' then exponent.drop 1 else exponent)
  Json.intValue (whole ++ frac) * (10 : ℚ) ^ (exp - frac.length)

/-- `float(s)` of a literal; `none` where it raises. -/
def ofText (text : List Char) : Option ℚ :=
  if (NumPhase.scan text).any fun p => p.isInt || p.isFloat then some (literalValue text) else none

/-- `str(x)`. -/
def str : Number → List Char
  | int n => Json.intText n
  | float x => x.text

def value : Number → ℚ
  | int n => n
  | float x => literalValue x.text

def toJson : Number → Json
  | int n => .int n
  | float x => .float x

def ofJson : Json → Option Number
  | .int n => some (int n)
  | .float x => some (float x)
  | _ => none

@[simp] theorem ofJson_toJson (x : Number) : ofJson x.toJson = some x := by
  cases x with
  | int n => rfl
  | float x => rfl

/-! ### Reading what was written -/

/-- A character of an integer literal. -/
theorem intText_char {n : Int} {c : Char} (h : c ∈ Json.intText n) : c = '-' ∨ c.isDigit = true := by
  cases n with
  | ofNat n => exact Or.inr (Json.isDigit_toDigits h)
  | negSucc n =>
    rcases List.mem_cons.mp h with rfl | h
    · exact Or.inl rfl
    · exact Or.inr (Json.isDigit_toDigits h)

/-- An integer literal has no mark, `-` apart, that is no digit. -/
theorem notMem_intText {c : Char} (hdash : c ≠ '-') (hdigit : c.isDigit = false) (n : Int) :
    c ∉ Json.intText n := by
  intro h
  rcases intText_char h with rfl | hc
  · exact hdash rfl
  · rw [hdigit] at hc
    cases hc

theorem intText_injective : Function.Injective Json.intText := fun m n h => by
  rw [← Json.intValue_intText m, h, Json.intValue_intText]

theorem literalValue_intText (n : Int) : literalValue (Json.intText n) = n := by
  have hexp : ∀ c ∈ Json.intText n, (!(decide (c = 'e') || decide (c = 'E'))) = true := by
    intro c hc
    have he : c ≠ 'e' := fun h => notMem_intText (by decide) (by decide) n (h ▸ hc)
    have hE : c ≠ 'E' := fun h => notMem_intText (by decide) (by decide) n (h ▸ hc)
    simp [he, hE]
  have hpoint : ∀ c ∈ Json.intText n, decide (c ≠ '.') = true := by
    intro c hc
    exact decide_eq_true fun h => notMem_intText (by decide) (by decide) n (h ▸ hc)
  simp only [literalValue]
  rw [List.takeWhile_eq_self_iff.mpr hexp, List.dropWhile_eq_nil_iff.mpr hexp,
    List.takeWhile_eq_self_iff.mpr hpoint, List.dropWhile_eq_nil_iff.mpr hpoint, List.drop_nil,
    List.append_nil, Json.intValue_intText]
  show (n : ℚ) * 10 ^ (0 : Int) = n
  simp

theorem ofText_str (x : Number) : ofText x.str = some x.value := by
  cases x with
  | int n =>
    obtain ⟨q, hq, hscan⟩ := Json.scan_intText n
    rw [ofText, str, hscan, if_pos (by simp [hq]), literalValue_intText]
    rfl
  | float x =>
    obtain ⟨q, hscan, hq⟩ := (Option.any_eq_true _ _).mp x.ok
    rw [ofText, str, hscan, if_pos (by simp [hq])]
    rfl

/-- Two numbers with one text have one value. -/
theorem value_eq_of_str {x y : Number} (h : x.str = y.str) : x.value = y.value := by
  have hx := ofText_str x
  rw [h, ofText_str y] at hx
  exact (Option.some.inj hx).symm

/-- A character that continues no literal is in none. -/
theorem foldlM_next_eq_none {c : Char} (hnext : ∀ p, NumPhase.next p c = none) {cs : List Char}
    (h : c ∈ cs) (p : NumPhase) : cs.foldlM NumPhase.next p = none := by
  induction cs generalizing p with
  | nil => cases h
  | cons d cs ih =>
    rw [List.foldlM_cons]
    rcases List.mem_cons.mp h with rfl | h
    · rw [hnext p]
      rfl
    · cases NumPhase.next p d with
      | none => rfl
      | some q => exact ih h q

theorem colon_notMem_str (x : Number) : ':' ∉ x.str := by
  cases x with
  | int n => exact notMem_intText (by decide) (by decide) n
  | float x =>
    intro h
    have hnext : ∀ p, NumPhase.next p ':' = none := by
      intro p
      cases p <;> rfl
    have hnone : NumPhase.scan x.text = none := by
      cases htext : x.text with
      | nil => rfl
      | cons d cs =>
        rw [str, htext] at h
        show (NumPhase.start d).bind (fun p => cs.foldlM NumPhase.next p) = none
        rcases List.mem_cons.mp h with hd | hcs
        · rw [← hd]
          rfl
        · cases NumPhase.start d with
          | none => rfl
          | some p => exact foldlM_next_eq_none hnext hcs p
    have hok := x.ok
    rw [hnone] at hok
    cases hok

end Number
