import CernityNdr.Framework.Conversion

/-! # Schemas of JSON Values

    The keywords of JSON Schema (draft 2020-12) that speak of strings and of
    objects. A schema is the set of values that it accepts, and a schema of
    several keywords accepts what all of them accept. A keyword that speaks of
    one type accepts every value of another type.

    * `text_iff`: the schema of a string with bounds on its length. -/

namespace JsonSchema

open Json (Dict)

/-- A schema, as the values that it accepts. -/
abbrev Schema := Json → Bool

/-- The types that `type` may name. -/
inductive Kind
  | null | string | object
deriving DecidableEq, Repr

def Kind.holds : Kind → Json → Bool
  | null, .null => true
  | string, .str _ => true
  | object, .obj _ => true
  | _, _ => false

/-! ### Keywords -/

/-- The keywords of one schema. Also `allOf`. -/
def all (schemas : List Schema) : Schema := fun v => schemas.all fun s => s v

/-- `type`. -/
def type (kinds : List Kind) : Schema := fun v => kinds.any fun k => k.holds v

/-- `enum`, of texts. -/
def enum (values : List String) : Schema := fun v => values.any fun s => v.beq (.str s)

/-- `const`, of a text. -/
def const (value : String) : Schema := enum [value]

/-- A keyword that looks at strings. -/
def ofText (p : String → Bool) : Schema := fun v =>
  match v with
  | .str s => p s
  | _ => true

/-- `minLength`. -/
def minLength (n : Nat) : Schema := ofText fun s => n ≤ s.length

/-- `maxLength`. -/
def maxLength (n : Nat) : Schema := ofText fun s => s.length ≤ n

/-- `pattern`: `search` finds a match in the text. -/
def pattern (search : String → Bool) : Schema := ofText search

/-- A keyword that looks at objects. -/
def ofMembers (p : Dict → Bool) : Schema := fun v =>
  match v with
  | .obj d => p d
  | _ => true

/-- `required`. -/
def required (names : List String) : Schema := ofMembers fun d =>
  names.all fun name => (d.get? name).isSome

/-- `properties`. -/
def properties (schemas : List (String × Schema)) : Schema := ofMembers fun d =>
  schemas.all fun p => (d.get? p.1).all p.2

/-- `additionalProperties: false` next to properties of these names. -/
def noOthers (names : List String) : Schema := ofMembers fun d => d.all fun m => m.1 ∈ names

/-- `if`, `then` and `else`. -/
def ifThenElse (test yes no : Schema) : Schema := fun v => if test v then yes v else no v

/-! ### What they accept -/

variable {v : Json}

@[simp] theorem all_nil : all [] v = true := rfl

@[simp] theorem all_cons (s : Schema) (ss : List Schema) : all (s :: ss) v = (s v && all ss v) := rfl

@[simp] theorem enum_str (values : List String) (s : String) :
    enum values (.str s) = decide (s ∈ values) := by
  rw [Bool.eq_iff_iff, enum, List.any_eq_true, decide_eq_true_iff]
  constructor
  · rintro ⟨t, ht, heq⟩
    obtain rfl : s = t := by simpa [Json.beq] using heq
    exact ht
  · intro hs
    exact ⟨s, hs, by simp [Json.beq]⟩

@[simp] theorem const_str (value s : String) : const value (.str s) = decide (s = value) := by
  simp [const]

@[simp] theorem ofText_str (p : String → Bool) (s : String) : ofText p (.str s) = p s := rfl

@[simp] theorem ofMembers_obj (p : Dict → Bool) (d : Dict) : ofMembers p (.obj d) = p d := rfl

theorem type_string : type [.string] v = true ↔ ∃ s, v = .str s := by
  cases v <;> simp [type, Kind.holds]

/-- A schema that is about strings only. -/
theorem string_iff (schemas : List Schema) :
    all (type [.string] :: schemas) v = true ↔ ∃ s, v = .str s ∧ all schemas (.str s) = true := by
  rw [all_cons, Bool.and_eq_true, type_string]
  constructor
  · rintro ⟨⟨s, rfl⟩, h⟩
    exact ⟨s, rfl, h⟩
  · rintro ⟨s, rfl, h⟩
    exact ⟨⟨s, rfl⟩, h⟩

/-- A string of which the length is bounded. -/
theorem text_iff (low high : Nat) (schemas : List Schema) :
    all (type [.string] :: minLength low :: maxLength high :: schemas) v = true ↔
      ∃ s, v = .str s ∧ low ≤ s.length ∧ s.length ≤ high ∧ all schemas (.str s) = true := by
  rw [string_iff]
  simp [minLength, maxLength]

end JsonSchema

/-! ## Readers

    A reader turns a JSON value into a typed one, or refuses it: a program
    that validates with a schema is modelled as one that reads, and the typed
    value carries what the schema has checked. -/

namespace JsonSchema

open Json (Dict)

variable {α β : Type}

/-- Read every item of an array. -/
def readItems (f : Json → Option α) : Json → Option (List α)
  | .arr xs => xs.mapM f
  | _ => none

/-- Read the property `name`, which has to be there. -/
def member (f : Json → Option α) (name : String) (d : Dict) : Option α := (d.get? name).bind f

/-- Read an object that has no properties but these. -/
def record (names : List String) (read : Dict → Option α) : Json → Option α
  | .obj d => if d.all fun m => m.1 ∈ names then read d else none
  | _ => none

/-! ### Reading back -/

/-- A reader that inverts a writer inverts it on arrays, with more items behind. -/
theorem readItems_append {f : Json → Option α} {g : α → Json} (h : ∀ a, f (g a) = some a)
    (as : List α) (v : Json) :
    readItems f (.arr (as.map g ++ [v])) = (f v).map fun a => as ++ [a] := by
  show (as.map g ++ [v]).mapM f = _
  induction as with
  | nil => cases hv : f v <;> simp [hv]
  | cons a as ih =>
    rw [List.map_cons, List.cons_append, List.mapM_cons, h a, ih]
    cases f v <;> rfl

end JsonSchema
