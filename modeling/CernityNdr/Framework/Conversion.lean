import Mathlib.Data.Finset.Sort
import CernityNdr.Framework.Failing
import CernityNdr.Framework.Json

/-! # Conversions of a Dynamic Language

    What the conversions of the language return for a JSON value, and what
    they raise: a method called on a value that has none, a number made of a
    value that is none, the text of a value that is nested too deep.

    What depends on the machine is in `Interpreter`.

    * `exists_int_eq_ok`: the values that `int` takes.
    * `str_eq_ok`, `canonicalJson_eq_ok`, `deepcopy_eq_ok`: the values that
      are not nested too deep. -/

/-- What a call raises. -/
inductive Raised (ε : Type)
  | attribute
  | type
  | value
  | key
  | overflow
  | recursion
  /-- a text that is no JSON, or bytes that are no text -/
  | decode
  /-- an exception of the program -/
  | own (e : ε)
deriving DecidableEq, Repr

namespace Json

/-! ### Values -/

/-- `d.get(key, default)`. -/
def Dict.getD (d : Dict) (key : String) (default : Json) : Json := (d.get? key).getD default

/-- How deep arrays and objects are nested. -/
def depth : Json → Nat
  | arr xs => items xs + 1
  | obj ms => members ms + 1
  | _ => 0
where
  items : List Json → Nat
  | [] => 0
  | x :: xs => max (depth x) (items xs)
  members : List (String × Json) → Nat
  | [] => 0
  | (_, x) :: ms => max (depth x) (members ms)

/-- No number in it is `NaN` or infinite. -/
def finite : Json → Bool
  | nan => false
  | infinity _ => false
  | arr xs => items xs
  | obj ms => members ms
  | _ => true
where
  items : List Json → Bool
  | [] => true
  | x :: xs => finite x && items xs
  members : List (String × Json) → Bool
  | [] => true
  | (_, x) :: ms => finite x && members ms

theorem depth_items_le {xs : List Json} {n : Nat} :
    depth.items xs ≤ n ↔ ∀ x ∈ xs, x.depth ≤ n := by
  induction xs with
  | nil => simp [depth.items]
  | cons x xs ih => simp [depth.items, ih]

theorem depth_members_le {ms : Dict} {n : Nat} :
    depth.members ms ≤ n ↔ ∀ m ∈ ms, m.2.depth ≤ n := by
  induction ms with
  | nil => simp [depth.members]
  | cons m ms ih => simp [depth.members, ih]

theorem finite_items {xs : List Json} : finite.items xs = true ↔ ∀ x ∈ xs, x.finite = true := by
  induction xs with
  | nil => simp [finite.items]
  | cons x xs ih => simp [finite.items, ih]

theorem finite_members {ms : Dict} : finite.members ms = true ↔ ∀ m ∈ ms, m.2.finite = true := by
  induction ms with
  | nil => simp [finite.members]
  | cons m ms ih => simp [finite.members, ih]

/-- A member that `get` finds is one. -/
theorem Dict.mem_of_get? {d : Dict} {key : String} {v : Json} (h : d.get? key = some v) :
    (key, v) ∈ d := by
  unfold Dict.get? at h
  obtain ⟨⟨k, w⟩, hfind, rfl⟩ := Option.map_eq_some_iff.mp h
  have hk : k = key := by simpa using List.find?_some hfind
  subst hk
  exact List.mem_reverse.mp (List.mem_of_find?_eq_some hfind)

theorem Dict.get_of_get? {d : Dict} {key : String} {v : Json} (h : d.get? key = some v) :
    d.get key = v := by
  rw [Dict.get, h, Option.getD_some]

/-- What `get` finds, when it is no `None`, is a member. -/
theorem Dict.mem_of_get {d : Dict} {key : String} (h : d.get key ≠ .null) :
    (key, d.get key) ∈ d := by
  cases hget : d.get? key with
  | none => exact absurd (by rw [Dict.get, hget]; rfl) h
  | some v =>
    rw [Dict.get_of_get? hget]
    exact Dict.mem_of_get? hget

/-! ### Sorted members -/

/-- Without repeated names the order of the members does not matter. -/
theorem Dict.get?_eq_some {d : Dict} (hnodup : (d.map Prod.fst).Nodup) {key : String} {v : Json} :
    d.get? key = some v ↔ (key, v) ∈ d := by
  refine ⟨Dict.mem_of_get?, fun hmem => ?_⟩
  have hfind : (d.reverse.find? (fun m => m.1 = key)).isSome := by
    rw [List.find?_isSome]
    exact ⟨(key, v), List.mem_reverse.mpr hmem, by simp⟩
  obtain ⟨⟨k, w⟩, hw⟩ := Option.isSome_iff_exists.mp hfind
  have hk : k = key := by simpa using List.find?_some hw
  subst hk
  have hmem' : (k, w) ∈ d := List.mem_reverse.mp (List.mem_of_find?_eq_some hw)
  have hvw : (k, w) = (k, v) := List.inj_on_of_nodup_map hnodup hmem' hmem rfl
  rw [Dict.get?, hw, Option.map_some]
  exact congrArg some (congrArg Prod.snd hvw)

theorem sortKeys_members_eq_map (ms : Dict) :
    sortKeys.members ms = ms.map fun m => (m.1, m.2.sortKeys) := by
  induction ms with
  | nil => rfl
  | cons m ms ih => simp [sortKeys.members, ih]

theorem sortKeys_items_eq_map (xs : List Json) : sortKeys.items xs = xs.map sortKeys := by
  induction xs with
  | nil => rfl
  | cons x xs ih => simp [sortKeys.items, ih]

/-- A member of an object whose members are sorted. -/
theorem get?_sortKeys {ms : Dict} (hnodup : (ms.map Prod.fst).Nodup) {key : String} {v : Json}
    (h : ms.get? key = some v) :
    ∃ ms', sortKeys (.obj ms) = .obj ms' ∧ Dict.get? ms' key = some v.sortKeys := by
  refine ⟨_, rfl, ?_⟩
  have hperm := List.perm_insertionSort (fun a b : String × Json => a.1 ≤ b.1)
    (sortKeys.members ms)
  have hnames : (sortKeys.members ms).map Prod.fst = ms.map Prod.fst := by
    rw [sortKeys_members_eq_map, List.map_map]
    rfl
  rw [Dict.get?_eq_some ((hperm.map Prod.fst).nodup_iff.mpr (hnames ▸ hnodup)), hperm.mem_iff,
    sortKeys_members_eq_map]
  exact List.mem_map.mpr ⟨(key, v), Dict.mem_of_get? h, rfl⟩

end Json

/-! ### Sorted texts -/

/-- `sorted`, of a set of texts. -/
def sortedTexts (texts : Finset String) : List String := texts.sort (· ≤ ·)

@[simp] theorem mem_sortedTexts {texts : Finset String} {s : String} :
    s ∈ sortedTexts texts ↔ s ∈ texts := Finset.mem_sort _

@[simp] theorem nodup_sortedTexts (texts : Finset String) : (sortedTexts texts).Nodup :=
  Finset.sort_nodup _ _

/-! ### The interpreter -/

open Json

/-- What the conversions depend on. -/
structure Interpreter where
  /-- `str(v)` of a value that is no string -/
  repr : Json → String
  /-- `int(s)` of a string, unless it raises -/
  intOfText : String → Option Int
  /-- `int(x)` of a float -/
  truncate : FloatText → Int
  /-- how deep a value may be nested for `str` -/
  reprRoom : Nat
  /-- for `json.dumps` -/
  dumpsRoom : Nat
  /-- for `copy.deepcopy` -/
  copyRoom : Nat
  /-- a few levels are never too many -/
  dumpsRoom_pos : 8 ≤ dumpsRoom

namespace Interpreter

variable {ε : Type} (py : Interpreter)

/-- `v.get`: the dictionary that `v` is. -/
def members (v : Json) : Except (Raised ε) Dict :=
  match v with
  | .obj ms => .ok ms
  | _ => .error .attribute

/-- `v in d` and `d[v]` need a hash of `v`. -/
def hash (v : Json) : Except (Raised ε) Unit :=
  match v with
  | .arr _ | .obj _ => .error .type
  | _ => .ok ()

/-- The text that `str` makes. -/
def shown (v : Json) : String :=
  match v with
  | .str s => s
  | v => py.repr v

/-- `str(v)`. -/
def str (v : Json) : Except (Raised ε) String :=
  if v.depth ≤ py.reprRoom then .ok (py.shown v) else .error .recursion

/-- `int(v)`. -/
def int (v : Json) : Except (Raised ε) Int :=
  match v with
  | .int n => .ok n
  | .bool b => .ok (if b then 1 else 0)
  | .float x => .ok (py.truncate x)
  | .str s => (py.intOfText s).elim (.error .value) .ok
  | .nan => .error .value
  | .infinity _ => .error .overflow
  | .null | .arr _ | .obj _ => .error .type

/-- `json.dumps(v, sort_keys=True, separators=(",", ":"), allow_nan=False)`.
    Of a value that is both too deep and not finite the encoder may raise
    either error. -/
def canonicalJson (v : Json) : Except (Raised ε) (List Char) :=
  if py.dumpsRoom < v.depth then .error .recursion
  else if v.finite then .ok (compact (sortKeys v)) else .error .value

/-- `copy.deepcopy(v)`. -/
def deepcopy (v : Json) : Except (Raised ε) Json :=
  if v.depth ≤ py.copyRoom then .ok v else .error .recursion

/-- `int` takes the value. -/
def Numeral (v : Json) : Prop :=
  match v with
  | .int _ | .bool _ | .float _ => True
  | .str s => (py.intOfText s).isSome = true
  | .nan | .infinity _ | .null | .arr _ | .obj _ => False

/-! ### What they return -/

variable {py} {v : Json}

theorem exists_int_eq_ok : (∃ n, (py.int v : Except (Raised ε) Int) = .ok n) ↔ py.Numeral v := by
  cases v with
  | str s => cases hs : py.intOfText s <;> simp [int, Numeral, hs]
  | _ => simp [int, Numeral]

theorem members_eq_ok {ms : Dict} : (members v : Except (Raised ε) Dict) = .ok ms ↔ v = .obj ms := by
  cases v <;> simp [members]

theorem str_eq_ok {s : String} :
    (py.str v : Except (Raised ε) String) = .ok s ↔ v.depth ≤ py.reprRoom ∧ s = py.shown v := by
  unfold str
  split
  · next h => simp [h, eq_comm]
  · next h => simp [h]

theorem exists_str_eq_ok :
    (∃ s, (py.str v : Except (Raised ε) String) = .ok s) ↔ v.depth ≤ py.reprRoom := by
  simp [str_eq_ok]

theorem canonicalJson_eq_ok {text : List Char} :
    (py.canonicalJson v : Except (Raised ε) (List Char)) = .ok text ↔
      v.depth ≤ py.dumpsRoom ∧ v.finite = true ∧ text = compact (sortKeys v) := by
  unfold canonicalJson
  split
  · next h => simp [Nat.not_le.mpr h]
  · next h =>
    split
    · next hfin => simp [Nat.not_lt.mp h, hfin, eq_comm]
    · next hfin => simp [hfin]

theorem deepcopy_eq_ok {w : Json} :
    (py.deepcopy v : Except (Raised ε) Json) = .ok w ↔ v.depth ≤ py.copyRoom ∧ w = v := by
  unfold deepcopy
  split
  · next h => simp [h, eq_comm]
  · next h => simp [h]

end Interpreter
