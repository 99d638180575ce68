import Mathlib.Data.List.Sort
import Mathlib.Data.String.Basic

/-! # JSON Values and Their Text

    The values a dynamic language exchanges as JSON, and the text its
    standard encoder writes for them: ASCII only, `", "` and `": "` as
    separators, members in insertion order.

    Numbers are integers or floats. A float is kept as the literal that the
    encoder prints for it (the shortest one that reads back), which
    identifies it. An object is its list of members; when a member name is
    repeated the last one counts, as it does for a decoder that fills a
    dictionary. -/

/-! ### Number literals -/

/-- Where a scanner stands inside a number literal. -/
inductive NumPhase
  | minus | zero | int | point | frac | exp | expSign | expInt
  deriving DecidableEq, Repr

namespace NumPhase

/-- The first character of a number. -/
def start (c : Char) : Option NumPhase :=
  if c = '-' then some minus else if c = '0' then some zero
  else if c.isDigit then some int else none

/-- One more character of the number, if it can continue. -/
def next (p : NumPhase) (c : Char) : Option NumPhase :=
  match p with
  | minus => if c = '0' then some zero else if c.isDigit then some int else none
  | zero => if c = '.' then some point else if c = 'e' ∨ c = 'E' then some exp else none
  | int =>
    if c.isDigit then some int else if c = '.' then some point
    else if c = 'e' ∨ c = 'E' then some exp else none
  | point => if c.isDigit then some frac else none
  | frac => if c.isDigit then some frac else if c = 'e' ∨ c = 'E' then some exp else none
  | exp => if c.isDigit then some expInt else if c = '+' ∨ c = '-' then some expSign else none
  | expSign => if c.isDigit then some expInt else none
  | expInt => if c.isDigit then some expInt else none

/-- The literal may end here as an integer. -/
def isInt : NumPhase → Bool
  | zero | int => true
  | _ => false

/-- The literal may end here as a float. -/
def isFloat : NumPhase → Bool
  | frac | expInt => true
  | _ => false

/-- The phase after a whole literal. -/
def scan : List Char → Option NumPhase
  | [] => none
  | c :: cs => (start c).bind fun p => cs.foldlM next p

end NumPhase

/-- A float, as the literal that stands for it. -/
structure FloatText where
  text : List Char
  ok : (NumPhase.scan text).any NumPhase.isFloat = true
  deriving DecidableEq, Repr

/-! ### Values -/

inductive Json
  | null
  | bool (b : Bool)
  | int (n : Int)
  | float (x : FloatText)
  | nan
  | infinity (negative : Bool)
  | str (s : String)
  | arr (xs : List Json)
  | obj (members : List (String × Json))
  deriving Repr

instance : Inhabited Json := ⟨.null⟩

namespace Json

/-- A dictionary: the members of an object. -/
abbrev Dict := List (String × Json)

/-- `d.get(key)`: the last member of that name. -/
def Dict.get? (d : Dict) (key : String) : Option Json :=
  (d.reverse.find? (fun m => m.1 = key)).map Prod.snd

/-- `d.get(key)` with `None` for a missing member. -/
def Dict.get (d : Dict) (key : String) : Json := (d.get? key).getD .null

/-- `d[key] = v`: in place when the member is there, else at the end. -/
def Dict.set (d : Dict) (key : String) (v : Json) : Dict :=
  if d.any (fun m => m.1 = key) then d.map (fun m => if m.1 = key then (key, v) else m)
  else d ++ [(key, v)]

theorem Dict.get?_set_self (d : Dict) (key : String) (v : Json) :
    (d.set key v).get? key = some v := by
  unfold Dict.set Dict.get?
  split
  · next h =>
    obtain ⟨m, hm, hkey⟩ := List.any_eq_true.mp h
    rw [← List.map_reverse, List.find?_map]
    have hfind : (d.reverse.find? (fun m => m.1 = key)).isSome := by
      rw [List.find?_isSome]
      exact ⟨m, List.mem_reverse.mpr hm, hkey⟩
    obtain ⟨w, hw⟩ := Option.isSome_iff_exists.mp hfind
    have hcongr : ((fun m : String × Json => decide (m.1 = key)) ∘
        fun m => if m.1 = key then (key, v) else m) = fun m => decide (m.1 = key) := by
      funext m
      by_cases hm : m.1 = key <;> simp [hm]
    have hwk : w.1 = key := by simpa using List.find?_some hw
    rw [hcongr, hw]
    simp [hwk]
  · simp

theorem Dict.get?_set_ne (d : Dict) {key other : String} (v : Json) (h : other ≠ key) :
    (d.set key v).get? other = d.get? other := by
  unfold Dict.set Dict.get?
  split
  · rw [← List.map_reverse, List.find?_map]
    have hcongr : ((fun m : String × Json => decide (m.1 = other)) ∘
        fun m => if m.1 = key then (key, v) else m) = fun m => decide (m.1 = other) := by
      funext m
      by_cases hm : m.1 = key
      · have hne : m.1 ≠ other := fun ho => h (ho ▸ hm)
        simp [hm, Ne.symm h]
      · simp [hm]
    rw [hcongr, Option.map_map]
    cases hw : d.reverse.find? (fun m => m.1 = other) with
    | none => rfl
    | some w =>
      have hwo : w.1 = other := by simpa using List.find?_some hw
      simp [hwo, h]
  · simp [Ne.symm h]

/-- Every member named `key` has the value `v`, and there is one. -/
def Dict.Holds (d : Dict) (key : String) (v : Json) : Prop :=
  (∃ m ∈ d, m.1 = key) ∧ ∀ m ∈ d, m.1 = key → m = (key, v)

theorem Dict.holds_set (d : Dict) (key : String) (v : Json) : (d.set key v).Holds key v := by
  unfold Dict.set
  split
  · next h =>
    obtain ⟨m, hm, hkey⟩ := List.any_eq_true.mp h
    refine ⟨⟨(key, v), ?_, rfl⟩, ?_⟩
    · exact List.mem_map.mpr ⟨m, hm, if_pos (by simpa using hkey)⟩
    · intro w hw hwk
      obtain ⟨x, -, rfl⟩ := List.mem_map.mp hw
      by_cases hx : x.1 = key
      · rw [if_pos hx]
      · rw [if_neg hx] at hwk
        exact absurd hwk hx
  · next h =>
    refine ⟨⟨(key, v), by simp, rfl⟩, ?_⟩
    intro w hw hwk
    rcases List.mem_append.mp hw with hw | hw
    · exact absurd (List.any_eq_true.mpr ⟨w, hw, by simpa using hwk⟩) h
    · exact List.mem_singleton.mp hw

theorem Dict.Holds.set {d : Dict} {key : String} {v : Json} (h : d.Holds key v) (other : String)
    (hne : key ≠ other) (w : Json) : (d.set other w).Holds key v := by
  obtain ⟨⟨m, hm, hmk⟩, hall⟩ := h
  unfold Dict.set
  split
  · refine ⟨⟨m, List.mem_map.mpr ⟨m, hm, if_neg (hmk ▸ hne)⟩, hmk⟩, ?_⟩
    intro x hx hxk
    obtain ⟨y, hy, rfl⟩ := List.mem_map.mp hx
    by_cases hyo : y.1 = other
    · rw [if_pos hyo] at hxk
      exact absurd hxk.symm hne
    · rw [if_neg hyo] at hxk ⊢
      exact hall y hy hxk
  · refine ⟨⟨m, by simp [hm], hmk⟩, ?_⟩
    intro x hx hxk
    rcases List.mem_append.mp hx with hx | hx
    · exact hall x hx hxk
    · rw [List.mem_singleton.mp hx] at hxk
      exact absurd hxk.symm hne

/-- Setting a member to the value it has changes nothing. -/
theorem Dict.Holds.set_eq {d : Dict} {key : String} {v : Json} (h : d.Holds key v) :
    d.set key v = d := by
  obtain ⟨⟨m, hm, hmk⟩, hall⟩ := h
  have hany : d.any (fun m => m.1 = key) = true :=
    List.any_eq_true.mpr ⟨m, hm, by simpa using hmk⟩
  unfold Dict.set
  rw [if_pos hany]
  conv_rhs => rw [← List.map_id d]
  apply List.map_congr_left
  intro x hx
  by_cases hxk : x.1 = key
  · rw [if_pos hxk, hall x hx hxk]
    rfl
  · rw [if_neg hxk]
    rfl

theorem Dict.Holds.get? {d : Dict} {key : String} {v : Json} (h : d.Holds key v) :
    d.get? key = some v := by
  rw [← h.set_eq, Dict.get?_set_self]

/-- The items of an array. -/
def arr? : Json → Option (List Json)
  | arr xs => some xs
  | _ => none

/-- The members of an object. -/
def obj? : Json → Option Dict
  | obj ms => some ms
  | _ => none

/-- The characters of a string. -/
def str? : Json → Option String
  | str s => some s
  | _ => none

/-- The truth value of a value: zero, empty and absent are false. -/
def truthy : Json → Bool
  | null => false
  | bool b => b
  | int n => n ≠ 0
  -- a float literal is zero when its mantissa has no digit but zero
  | float x => (x.text.takeWhile (fun c => c ≠ 'e' ∧ c ≠ 'E')).any
      (fun c => c.isDigit && c != '0')
  | nan => true
  | infinity _ => true
  | str s => s ≠ ""
  | arr xs => !xs.isEmpty
  | obj ms => !ms.isEmpty

/-- `a or b`. -/
def or (a b : Json) : Json := if a.truthy then a else b

/-! ### Equality -/

/-- Equality of values as trees. -/
def beq : Json → Json → Bool
  | null, null => true
  | bool a, bool b => a == b
  | int a, int b => a == b
  | float a, float b => a.text == b.text
  | nan, nan => true
  | infinity a, infinity b => a == b
  | str a, str b => a == b
  | arr xs, arr ys => items xs ys
  | obj xs, obj ys => members xs ys
  | _, _ => false
where
  items : List Json → List Json → Bool
  | [], [] => true
  | x :: xs, y :: ys => beq x y && items xs ys
  | _, _ => false
  members : List (String × Json) → List (String × Json) → Bool
  | [], [] => true
  | (k, x) :: xs, (l, y) :: ys => k == l && beq x y && members xs ys
  | _, _ => false

mutual

theorem eq_of_beq {a b : Json} (h : a.beq b = true) : a = b := by
  cases a with
  | arr xs =>
    cases b with
    | arr ys => exact congrArg arr (eq_of_beq_items h)
    | _ => simp [beq] at h
  | obj ms =>
    cases b with
    | obj ns => exact congrArg obj (eq_of_beq_members h)
    | _ => simp [beq] at h
  | float x =>
    cases b with
    | float y =>
      obtain ⟨text, hx⟩ := x
      obtain ⟨text', hy⟩ := y
      simpa [beq] using h
    | _ => simp [beq] at h
  | _ => cases b <;> simp_all [beq]

theorem eq_of_beq_items {xs ys : List Json} (h : beq.items xs ys = true) : xs = ys := by
  cases xs with
  | nil =>
    cases ys with
    | nil => rfl
    | cons y ys => simp [beq.items] at h
  | cons x xs =>
    cases ys with
    | nil => simp [beq.items] at h
    | cons y ys =>
      obtain ⟨hx, hxs⟩ := Bool.and_eq_true_iff.mp h
      rw [eq_of_beq hx, eq_of_beq_items hxs]

theorem eq_of_beq_members {ms ns : List (String × Json)} (h : beq.members ms ns = true) :
    ms = ns := by
  cases ms with
  | nil =>
    cases ns with
    | nil => rfl
    | cons n ns => simp [beq.members] at h
  | cons m ms =>
    cases ns with
    | nil => simp [beq.members] at h
    | cons n ns =>
      obtain ⟨k, x⟩ := m
      obtain ⟨l, y⟩ := n
      simp only [beq.members, Bool.and_eq_true, beq_iff_eq] at h
      obtain ⟨⟨rfl, hx⟩, hms⟩ := h
      rw [eq_of_beq hx, eq_of_beq_members hms]

end

mutual

theorem beq_refl (a : Json) : a.beq a = true := by
  cases a with
  | arr xs => exact beq_items_refl xs
  | obj ms => exact beq_members_refl ms
  | _ => simp [beq]

theorem beq_items_refl (xs : List Json) : beq.items xs xs = true := by
  cases xs with
  | nil => rfl
  | cons x xs => simp [beq.items, beq_refl x, beq_items_refl xs]

theorem beq_members_refl (ms : List (String × Json)) : beq.members ms ms = true := by
  cases ms with
  | nil => rfl
  | cons m ms =>
    obtain ⟨k, x⟩ := m
    simp [beq.members, beq_refl x, beq_members_refl ms]

end

/-! ### Text -/

/-- A lower-case hexadecimal digit. -/
def hexDigit (n : Nat) : Char :=
  if n < 10 then Char.ofNat (48 + n) else Char.ofNat (87 + n)

/-- `\uXXXX`. -/
def escapeUnit (n : Nat) : List Char :=
  ['\\', 'u', hexDigit (n / 4096 % 16), hexDigit (n / 256 % 16), hexDigit (n / 16 % 16),
    hexDigit (n % 16)]

/-- One character inside a string literal; above the basic plane a pair of
    surrogates. -/
def escapeChar (c : Char) : List Char :=
  if c = '"' then ['\\', '"']
  else if c = '\\' then ['\\', '\\']
  else if c = '\n' then ['\\', 'n']
  else if c = '\r' then ['\\', 'r']
  else if c = '\t' then ['\\', 't']
  else if c.toNat = 12 then ['\\', 'f']
  else if c.toNat = 8 then ['\\', 'b']
  else if 32 ≤ c.toNat ∧ c.toNat ≤ 126 then [c]
  else if c.toNat < 65536 then escapeUnit c.toNat
  else
    escapeUnit (55296 + (c.toNat - 65536) / 1024) ++
      escapeUnit (56320 + (c.toNat - 65536) % 1024)

/-- A string literal without its quotes. -/
def escape (cs : List Char) : List Char := cs.flatMap escapeChar

/-- A string literal. -/
def quote (s : String) : List Char := '"' :: (escape s.toList ++ ['"'])

/-- An integer literal. -/
def intText : Int → List Char
  | .ofNat n => Nat.toDigits 10 n
  | .negSucc n => '-' :: Nat.toDigits 10 (n + 1)

/-- `json.dumps`. -/
def dumps : Json → List Char
  | null => ['n', 'u', 'l', 'l']
  | bool true => ['t', 'r', 'u', 'e']
  | bool false => ['f', 'a', 'l', 's', 'e']
  | int n => intText n
  | float x => x.text
  | nan => ['N', 'a', 'N']
  | infinity false => ['I', 'n', 'f', 'i', 'n', 'i', 't', 'y']
  | infinity true => ['-', 'I', 'n', 'f', 'i', 'n', 'i', 't', 'y']
  | str s => quote s
  | arr [] => ['[', ']']
  | arr (x :: xs) => '[' :: (dumps x ++ moreItems xs ++ [']'])
  | obj [] => ['{', '}']
  | obj ((k, x) :: ms) => '{' :: (quote k ++ [':', ' '] ++ dumps x ++ moreMembers ms ++ ['}'])
where
  moreItems : List Json → List Char
  | [] => []
  | x :: xs => [',', ' '] ++ dumps x ++ moreItems xs
  moreMembers : List (String × Json) → List Char
  | [] => []
  | (k, x) :: ms => [',', ' '] ++ quote k ++ [':', ' '] ++ dumps x ++ moreMembers ms

/-- The text with the white space `pad` behind each comma and each colon. -/
def encode (pad : List Char) : Json → List Char
  | arr [] => ['[', ']']
  | arr (x :: xs) => '[' :: (encode pad x ++ moreItems xs ++ [']'])
  | obj [] => ['{', '}']
  | obj ((k, x) :: ms) =>
    '{' :: (quote k ++ ':' :: pad ++ encode pad x ++ moreMembers ms ++ ['}'])
  | v => dumps v
where
  moreItems : List Json → List Char
  | [] => []
  | x :: xs => ',' :: pad ++ encode pad x ++ moreItems xs
  moreMembers : List (String × Json) → List Char
  | [] => []
  | (k, x) :: ms => ',' :: pad ++ quote k ++ ':' :: pad ++ encode pad x ++ moreMembers ms

/-- `json.dumps(..., separators=(",", ":"))`. -/
def compact (v : Json) : List Char := encode [] v

/-- `sort_keys=True`: every object with its members sorted by name. -/
def sortKeys : Json → Json
  | arr xs => arr (items xs)
  | obj ms => obj ((members ms).insertionSort (fun a b => a.1 ≤ b.1))
  | v => v
where
  items : List Json → List Json
  | [] => []
  | x :: xs => sortKeys x :: items xs
  members : List (String × Json) → List (String × Json)
  | [] => []
  | (k, x) :: ms => (k, sortKeys x) :: members ms

end Json
