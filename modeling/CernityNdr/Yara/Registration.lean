import CernityNdr.Objects.Keys

/-! # The Registration of a Ruleset

    The model of the input validation of `services/file-yara/registry.py`:
    what `register_draft` and `promote` check of their arguments before they
    touch the database. An argument is a value of any type (`Arg`); a check
    returns the value that it let through. -/

namespace YaraRegistry

abbrev Bytes := List UInt8

/-- An argument of a call. -/
inductive Arg
  | none
  | str (s : String)
  | int (n : Int)
  | bool (b : Bool)
  | bytes (data : Bytes)
  /-- a list or a tuple -/
  | list (items : List Arg)
  /-- a value of another type -/
  | other

/-! ### Statuses -/

inductive Status
  | draft
  | shadow
  | active
  | retired
deriving DecidableEq, Repr

def Status.text : Status → String
  | draft => "draft"
  | shadow => "shadow"
  | active => "active"
  | retired => "retired"

def STATUSES : List Status := [.draft, .shadow, .active, .retired]

/-- The lifecycle: the statuses that a ruleset of this status may get. -/
def TRANSITIONS : Status → List Status
  | .draft => [.shadow, .retired]
  | .shadow => [.active, .retired]
  | .active => [.shadow, .retired]
  | .retired => []

/-- `_SERVED_STATUSES`. -/
def SERVED_STATUSES : List Status := [.active, .shadow]

/-- The status that an argument names. -/
def Status.ofArg? : Arg → Option Status
  | .str s => STATUSES.find? fun status => status.text = s
  | _ => none

theorem draft_notMem_transitions (s : Status) : .draft ∉ TRANSITIONS s := by
  cases s <;> decide

theorem self_notMem_transitions (s : Status) : s ∉ TRANSITIONS s := by
  cases s <;> decide

/-! ### Errors -/

/-- What an `authorize` callable raises. -/
inductive AuthorizerError
  | unauthorized
  | other
deriving DecidableEq, Repr

/-- What a call raises. The text of an error that shows a value is built from
    the arguments of its constructor. -/
inductive RegistryError
  | typeError (text : String)
  | valueError (text : String)
  | keyError (rulesetId : String)
  /-- an `IllegalTransition` to no status at all -/
  | unknownStatus (toStatus : Arg)
  | illegalTransition (current target : Status)
  | concurrentWriter (rulesetId : String)
  /-- the `Unauthorized` of a denial -/
  | unauthorized (actor rulesetId : String) (current target : Status)
  | sqlite
  /-- the callable itself raises -/
  | authorizer (e : AuthorizerError)

/-! ### Checks -/

/-- `_req_str`. -/
def reqStr (val : Arg) (field : String) (maxLen : Nat) (nonblank : Bool) :
    Except RegistryError String :=
  let refusal := RegistryError.valueError
    (field ++ " must be a non-empty string of <= " ++ toString maxLen ++ " chars")
  match val with
  | .str s =>
    if 1 ≤ s.length && s.length ≤ maxLen && (!nonblank || Text.notBlank s) then .ok s
    else .error refusal
  | _ => .error refusal

def isHour (a b : Char) : Bool :=
  (a = '0' || a = '1') && b.isDigit || a = '2' && '0' ≤ b && b ≤ '3'

/-- Two digits below 60. -/
def isSixtieth (a b : Char) : Bool := '0' ≤ a && a ≤ '5' && b.isDigit

def isZone : List Char → Bool
  | [z] => z = 'Z' || z = 'z'
  | [sign, h₁, h₂, colon, m₁, m₂] =>
    (sign = '+' || sign = '-') && isHour h₁ h₂ && colon = ':' && isSixtieth m₁ m₂
  | _ => false

/-- What may follow the seconds. -/
def isFractionZone (cs : List Char) : Bool :=
  if cs.head? = some '.' then
    !(cs.tail.takeWhile Char.isDigit).isEmpty && isZone (cs.tail.dropWhile Char.isDigit)
  else isZone cs

/-- The number that ASCII digits write. -/
def number (cs : List Char) : Nat := cs.foldl (fun n c => 10 * n + (c.toNat - 48)) 0

def isLeap (year : Nat) : Bool := year % 4 = 0 && (year % 100 ≠ 0 || year % 400 = 0)

def daysIn (year month : Nat) : Nat :=
  if month = 2 then (if isLeap year then 29 else 28)
  else if month ∈ [4, 6, 9, 11] then 30 else 31

/-- A day of the calendar, which has no year 0. -/
def isDate (year month day : Nat) : Bool :=
  1 ≤ year && 1 ≤ month && month ≤ 12 && 1 ≤ day && day ≤ daysIn year month

/-- `_DATETIME_RE` matches the whole text. -/
def matchesDatetime : List Char → Bool
  | y₁ :: y₂ :: y₃ :: y₄ :: d₁ :: m₁ :: m₂ :: d₂ :: a :: b :: t :: h₁ :: h₂ :: c₁ :: i₁ :: i₂ ::
      c₂ :: s₁ :: s₂ :: rest =>
    [y₁, y₂, y₃, y₄, m₁, m₂, a, b].all Char.isDigit && d₁ = '-' && d₂ = '-' &&
      (t = 'T' || t = 't') && isHour h₁ h₂ && c₁ = ':' && isSixtieth i₁ i₂ && c₂ = ':' &&
      isSixtieth s₁ s₂ && isFractionZone rest
  | _ => false

/-- `_req_datetime`. A text that matches the pattern is parsed unless its date
    is not in the calendar. -/
def reqDatetime (val : Arg) (field : String) : Except RegistryError String :=
  match val with
  | .str s =>
    let cs := s.toList
    if !matchesDatetime cs then
      .error (.valueError (field ++ " must be an RFC3339 date-time string"))
    else if isDate (number (cs.take 4)) (number ((cs.drop 5).take 2)) (number ((cs.drop 8).take 2))
      then .ok s
    else .error (.valueError (field ++ " must be a valid RFC3339 date-time"))
  | _ => .error (.valueError (field ++ " must be an RFC3339 date-time string"))

/-- `_SAFE_ID_RE` matches the whole text. -/
def matchesSafeId : List Char → Bool
  | [] => false
  | c :: cs => c.isAlphanum && cs.all ObjectKeys.isAtom && cs.length ≤ 255

/-- `_safe_id`. -/
def safeId (val : Arg) : Except RegistryError String := do
  let s ← reqStr val "id" 256 true
  if Affix.hasPair '.' s.toList || !matchesSafeId s.toList then
    .error (.valueError
      ("id must be a filesystem-safe token " ++
        "(start alnum, then [A-Za-z0-9._-], no '..' or separators)"))
  else .ok s

/-- A character of a MIME token. -/
def isMime (c : Char) : Bool := c.isAlphanum || c ∈ "!#$%&'+.^_`|~-".toList

/-- `_MIME_RE` matches the whole text. -/
def matchesMime (cs : List Char) : Bool :=
  match cs.splitOn '/' with
  | [mainType, subtype] => [mainType, subtype].all fun part => !part.isEmpty && part.all isMime
  | _ => false

def reqMime (val : Arg) : Except RegistryError String := do
  let s ← reqStr val "target_mime_types item" 256 true
  if matchesMime s.toList then .ok s
  else .error (.valueError "target_mime_types items must be exact MIME type/subtype tokens")

/-- The list of MIME types; none given is the list that matches all. -/
def reqMimes (val : Arg) : Except RegistryError (List String) :=
  match val with
  | .none => .ok []
  | .list items => items.mapM reqMime
  | _ => .error (.valueError "target_mime_types must be a list of MIME strings")

def reqSize (val : Arg) : Except RegistryError Nat :=
  match val with
  | .int n =>
    if 1 ≤ n && n ≤ 4294967296 then .ok n.toNat
    else .error (.valueError "max_file_size out of range [1, 4294967296]")
  -- a bool is an int for the interpreter, and refused as well
  | _ => .error (.valueError "max_file_size must be an int")

def reqNotes (val : Arg) : Except RegistryError (Option String) :=
  let refusal := RegistryError.valueError "release_notes must be a string of <= 8192 chars or None"
  match val with
  | .none => .ok none
  | .str s => if s.length ≤ 8192 then .ok (some s) else .error refusal
  | _ => .error refusal

def reqCorpus (val : Arg) : Except RegistryError (Option String) :=
  match val with
  | .none => .ok none
  | val => some <$> reqStr val "test_corpus_ref" 512 true

/-- The descriptive columns of a ruleset. -/
structure Description where
  name : String
  version : String
  source : String
  targetMimeTypes : List String
  maxFileSize : Nat
  releaseNotes : Option String
  testCorpusRef : Option String
deriving DecidableEq, Repr

/-- `_validate_registration`. -/
def validateRegistration (name version source targetMimeTypes maxFileSize releaseNotes
    testCorpusRef : Arg) : Except RegistryError Description := do
  let name ← reqStr name "name" 256 true
  let version ← reqStr version "version" 128 true
  let source ← reqStr source "source" 256 false
  let size ← reqSize maxFileSize
  let mimes ← reqMimes targetMimeTypes
  let notes ← reqNotes releaseNotes
  let corpus ← reqCorpus testCorpusRef
  .ok ⟨name, version, source, mimes, size, notes, corpus⟩

end YaraRegistry
