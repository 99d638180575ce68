import Mathlib.Data.List.ReduceOption
import CernityNdr.Detectors.Config
import CernityNdr.Framework.Text

/-! # Risks of nDPI

    The first half of `services/behavioral-detectors/ndpi_policy.py`: the risks
    that Suricata's `ndpi` object carries, in any of its shapes, as entries.

    * `exists_parseRiskValue`: the containers that are parsed.
    * `risks_parseRiskValue`: what of the container the entries are judged by. -/

namespace NdpiPolicy

open Json (Dict)
open ManagedConfig (FLOAT_LIMIT Failure)

/-! ### Entries -/

def MAX_RISKS : Nat := 64

def MAX_NAME : Nat := 200

def TIERS : List String := ["Low", "Medium", "High", "Severe", "Critical", "Emergency"]

/-- What the code takes from the language: the conversions, `str.lower`, and
    the `repr` of a string. -/
structure Runtime where
  py : Interpreter
  lower : String → String
  quote : String → String

/-- `x < 0` of a float. -/
def negative (x : FloatText) : Bool := x.text.head? = some '-' && (Json.float x).truthy

/-- `_num`: a number that is finite and not negative. -/
def num (v : Json) : Option Json :=
  match v with
  | .int n => if n.natAbs < FLOAT_LIMIT ∧ 0 ≤ n then some v else none
  | .float x => if negative x then none else some v
  | _ => none

/-- `_score`. -/
def score (rs : Json) : Dict :=
  match rs with
  | .obj d => ["total", "client", "server"].filterMap fun k => (num (Dict.get d k)).map fun n => (k, n)
  | _ => []

structure Entry where
  id : Option String
  name : Option String
  severity : Option String
  severityKnown : Bool
  score : Dict
  scoreScope : String
  source : String
  malformed : Option String

/-- The characters of the name that are kept. -/
def cut (maxName : Option Nat) (name : String) : String :=
  match maxName with
  | none | some 0 => name
  | some n => String.ofList (name.toList.take n)

/-- The tier is one that nDPI has. -/
def known (severity : Json) : Bool := severity.str?.any (· ∈ TIERS)

variable (rt : Runtime)

/-- `str(rid) if rid is not None else None`. -/
def idText (rid : Json) : Except Failure (Option String) :=
  match rid with
  | .null => return none
  | rid => return some (← rt.py.str rid)

/-- What is wrong with the entry: what was found before, or its tier. -/
def malformedOf (malformed : Option String) (severity : Json) : Option String :=
  match severity.str? with
  | some s =>
    if s ∉ TIERS ∧ malformed = none then some ("unknown severity tier " ++ rt.quote s)
    else malformed
  | none => malformed

/-- `_entry`. -/
def entry (rid : Json) (name : Option String) (severity risk_score : Json) (source : String)
    (malformed : Option String) (maxName : Option Nat) : Except Failure Entry := do
  let id ← idText rt rid
  return ⟨id, name.map (cut maxName), severity.str?, known severity, score risk_score, "unverified",
    source, malformedOf rt malformed severity⟩

/-- `type(v).__name__`. -/
def typeName : Json → String
  | .null => "NoneType"
  | .bool _ => "bool"
  | .int _ => "int"
  | .float _ | .nan | .infinity _ => "float"
  | .str _ => "str"
  | .arr _ => "list"
  | .obj _ => "dict"

def NO_NAME : String := "risk name missing or not a string"

/-- The body of the loop of `_from_mapping`. -/
def memberEntry (source : String) (maxName : Option Nat) (m : String × Json) :
    Except Failure (Option Entry) :=
  match m.2 with
  | .obj v =>
    match (Dict.get v "risk").str? with
    | none => some <$> entry rt (.str m.1) none .null .null source (some NO_NAME) (some MAX_NAME)
    | some name =>
      some <$> entry rt (.str m.1) (some name) (Dict.get v "severity") (Dict.get v "risk_score") source
        none maxName
  | .bool true => some <$> entry rt .null (some m.1) .null .null source none maxName
  | .bool false => return none
  | .str name => some <$> entry rt (.str m.1) (some name) .null .null source none maxName
  | v => some <$> entry rt (.str m.1) none .null .null source
      (some ("unsupported risk value " ++ typeName v)) (some MAX_NAME)

/-- The body of the loop of `_from_list`. -/
def itemEntry (source : String) (maxName : Option Nat) (v : Json) :
    Except Failure (Option Entry) :=
  match v with
  | .obj d =>
    let name := (Dict.get d "risk").str?
    some <$> entry rt (Dict.get d "id") name (Dict.get d "severity") (Dict.get d "risk_score") source
      (if name.isSome then none else some NO_NAME) maxName
  | .bool _ => return none
  | .str name => some <$> entry rt .null (some name) .null .null source none maxName
  | v => some <$> entry rt .null none .null .null source
      (some ("unsupported risk value " ++ typeName v)) (some MAX_NAME)

/-- `_from_mapping`. -/
def fromMapping (m : Dict) (source : String) (maxName : Option Nat) : Except Failure (List Entry) := do
  return (← ((Dict.filled m).take MAX_RISKS).mapM (memberEntry rt source maxName)).reduceOption

/-- `_from_list`. -/
def fromList (lst : List Json) (source : String) (maxName : Option Nat) :
    Except Failure (List Entry) := do
  return (← (lst.take MAX_RISKS).mapM (itemEntry rt source maxName)).reduceOption

/-- `parse_risk_value`. -/
def parseRiskValue (raw : Json) (source : String) (maxName : Option Nat) :
    Except Failure (List Entry) :=
  match raw with
  | .obj m => fromMapping rt m source maxName
  | .arr lst => fromList rt lst source maxName
  | .bool _ | .null => return []
  | .str name => return [← entry rt .null (some name) .null .null source none maxName]
  | raw => return [← entry rt .null none .null .null source
      (some ("unsupported " ++ source ++ " container " ++ typeName raw)) (some MAX_NAME)]

/-- The field that holds the risks. -/
def source? (ndpi : Dict) : Option String :=
  if (ndpi.get? "flow_risk").isSome then some "flow_risk"
  else if (ndpi.get? "risk").isSome then some "risk" else none

/-- `parse_ndpi_risks`. -/
def parseNdpiRisks (ndpi : Json) : Except Failure (List Entry) :=
  match ndpi with
  | .obj ms =>
    match source? ms with
    | some src => parseRiskValue rt (Dict.get ms src) src (some MAX_NAME)
    | none => return []
  | _ => return []

/-! ### What the entries depend on -/

/-- A name and its tier: all that an entry is judged by. -/
structure Risk where
  name : String
  severity : Option String
deriving DecidableEq

/-- The name that is kept, when there is one. -/
def risk? (maxName : Option Nat) (name : Option String) (severity : Json) : Option Risk :=
  (name.map (cut maxName)).bind fun name =>
    if name = "" then none else some ⟨name, severity.str?.filter (· ∈ TIERS)⟩

/-- What an entry is judged by, when it has a name. -/
def Entry.risk? (e : Entry) : Option Risk :=
  e.name.bind fun name =>
    if name = "" then none else some ⟨name, if e.severityKnown then e.severity else none⟩

/-- The risk of a member of a mapping. -/
def memberRisk (maxName : Option Nat) (m : String × Json) : Option Risk :=
  match m.2 with
  | .obj v => NdpiPolicy.risk? maxName (Dict.get v "risk").str? (Dict.get v "severity")
  | .bool true => NdpiPolicy.risk? maxName (some m.1) .null
  | .str name => NdpiPolicy.risk? maxName (some name) .null
  | _ => none

/-- The risk of an item of a list. -/
def itemRisk (maxName : Option Nat) (v : Json) : Option Risk :=
  match v with
  | .obj d => NdpiPolicy.risk? maxName (Dict.get d "risk").str? (Dict.get d "severity")
  | .str name => NdpiPolicy.risk? maxName (some name) .null
  | _ => none

/-- The risks of a container. -/
def containerRisks (maxName : Option Nat) (raw : Json) : List Risk :=
  match raw with
  | .obj m => ((Dict.filled m).take MAX_RISKS).filterMap (memberRisk maxName)
  | .arr lst => (lst.take MAX_RISKS).filterMap (itemRisk maxName)
  | .str name => (NdpiPolicy.risk? maxName (some name) .null).toList
  | _ => []

/-- No `id` that is shown is nested too deep for `str`. -/
def Shallow (raw : Json) : Prop :=
  ∀ lst, raw = .arr lst → ∀ d, .obj d ∈ lst.take MAX_RISKS → (Dict.get d "id").depth ≤ rt.py.reprRoom

/-! ### Parsing -/

variable {rt} {rid severity risk_score raw : Json} {name malformed : Option String} {src : String}
  {maxName : Option Nat} {e : Entry}

/-- An entry is made unless its id is nested too deep. -/
theorem exists_entry : (∃ e, entry rt rid name severity risk_score src malformed maxName = .ok e) ↔
    rid.depth ≤ rt.py.reprRoom := by
  unfold entry
  rw [Except.exists_bind_eq_ok]
  simp only [Except.exists_pure_eq_ok, and_true]
  cases rid with
  | null => exact iff_of_true ⟨none, rfl⟩ (Nat.zero_le _)
  | _ =>
    simp only [idText, Except.exists_bind_eq_ok, Except.exists_pure_eq_ok, and_true]
    exact Interpreter.exists_str_eq_ok

theorem risk?_entry (h : entry rt rid name severity risk_score src malformed maxName = .ok e) :
    e.risk? = NdpiPolicy.risk? maxName name severity := by
  obtain ⟨id, -, h⟩ := Except.bind_eq_ok.mp h
  cases h
  have htier : (if known severity then severity.str? else none) =
      severity.str?.filter (· ∈ TIERS) := by
    rw [known]
    cases severity.str? with
    | none => rfl
    | some s => by_cases hs : s ∈ TIERS <;> simp [Option.filter, hs]
  simp only [Entry.risk?, NdpiPolicy.risk?, htier]

theorem exists_map_eq_ok {ε α β : Type} {x : Except ε α} {g : α → β} :
    (∃ b, g <$> x = .ok b) ↔ ∃ a, x = .ok a := by
  cases x <;> simp [Functor.map, Except.map]

theorem exists_memberEntry (m : String × Json) : ∃ o, memberEntry rt src maxName m = .ok o := by
  have hentry (rid severity risk_score : Json) (name malformed : Option String)
      (maxName : Option Nat) (h : rid.depth = 0) :
      ∃ o, some <$> entry rt rid name severity risk_score src malformed maxName = .ok o :=
    exists_map_eq_ok.mpr (exists_entry.mpr (h ▸ Nat.zero_le _))
  obtain ⟨k, v⟩ := m
  cases v with
  | obj d =>
    simp only [memberEntry]
    split
    · exact hentry _ _ _ _ _ _ rfl
    · exact hentry _ _ _ _ _ _ rfl
  | bool b =>
    cases b with
    | true => exact hentry _ _ _ _ _ _ rfl
    | false => exact ⟨none, rfl⟩
  | _ => exact hentry _ _ _ _ _ _ rfl

/-- An item is parsed unless it is an object whose id is nested too deep. -/
theorem exists_itemEntry {v : Json} : (∃ o, itemEntry rt src maxName v = .ok o) ↔
    ∀ d, v = .obj d → (Dict.get d "id").depth ≤ rt.py.reprRoom := by
  have hnull : (Json.null).depth ≤ rt.py.reprRoom := Nat.zero_le _
  cases v with
  | obj d =>
    simp only [itemEntry, exists_map_eq_ok, exists_entry]
    exact ⟨fun h d' heq => by cases heq; exact h, fun h => h d rfl⟩
  | bool b => exact iff_of_true ⟨none, rfl⟩ (by simp)
  | _ => exact iff_of_true (exists_map_eq_ok.mpr (exists_entry.mpr hnull)) (by simp)

/-- **The containers** that are parsed. -/
theorem exists_parseRiskValue :
    (∃ es, parseRiskValue rt raw src maxName = .ok es) ↔ Shallow rt raw := by
  have hnull : (Json.null).depth ≤ rt.py.reprRoom := Nat.zero_le _
  cases raw with
  | obj m =>
    simp only [parseRiskValue, fromMapping, Except.exists_bind_eq_ok, Except.exists_pure_eq_ok,
      and_true, Except.exists_mapM_eq_ok]
    exact iff_of_true (fun m _ => exists_memberEntry m) (fun lst heq => by cases heq)
  | arr lst =>
    simp only [parseRiskValue, fromList, Except.exists_bind_eq_ok, Except.exists_pure_eq_ok,
      and_true, Except.exists_mapM_eq_ok, exists_itemEntry]
    constructor
    · rintro h lst' heq d hd
      cases heq
      exact h _ hd d rfl
    · rintro h v hv d rfl
      exact h lst rfl d hv
  | bool b => exact iff_of_true ⟨[], rfl⟩ (fun lst heq => by cases heq)
  | null => exact iff_of_true ⟨[], rfl⟩ (fun lst heq => by cases heq)
  | _ =>
    simp only [parseRiskValue, Except.exists_bind_eq_ok, Except.exists_pure_eq_ok, and_true]
    exact iff_of_true (exists_entry.mpr hnull) (fun lst heq => by cases heq)

/-! ### The risks of the entries -/

theorem risk?_memberEntry {m : String × Json} {o : Option Entry}
    (h : memberEntry rt src maxName m = .ok o) : o.bind Entry.risk? = memberRisk maxName m := by
  obtain ⟨k, v⟩ := m
  cases v with
  | obj d =>
    simp only [memberEntry] at h
    simp only [memberRisk]
    split at h
    · next hname =>
      obtain ⟨e, he, rfl⟩ := Except.map_eq_ok.mp h
      rw [hname]
      exact (risk?_entry he).trans rfl
    · next name hname =>
      obtain ⟨e, he, rfl⟩ := Except.map_eq_ok.mp h
      rw [hname]
      exact risk?_entry he
  | bool b =>
    cases b with
    | true =>
      obtain ⟨e, he, rfl⟩ := Except.map_eq_ok.mp h
      exact risk?_entry he
    | false =>
      cases h
      rfl
  | _ =>
    obtain ⟨e, he, rfl⟩ := Except.map_eq_ok.mp h
    exact risk?_entry he

theorem risk?_itemEntry {v : Json} {o : Option Entry} (h : itemEntry rt src maxName v = .ok o) :
    o.bind Entry.risk? = itemRisk maxName v := by
  cases v with
  | bool b =>
    cases h
    rfl
  | _ =>
    obtain ⟨e, he, rfl⟩ := Except.map_eq_ok.mp h
    exact risk?_entry he

/-- The entries of a loop, seen through their risks. -/
theorem filterMap_reduceOption {ι : Type} {f : ι → Except Failure (Option Entry)}
    {g : ι → Option Risk} (hstep : ∀ x o, f x = .ok o → o.bind Entry.risk? = g x)
    {xs : List ι} {os : List (Option Entry)} (h : xs.mapM f = .ok os) :
    os.reduceOption.filterMap Entry.risk? = xs.filterMap g := by
  have hsteps := Except.mapM_eq_ok.mp h
  clear h
  induction hsteps with
  | nil => rfl
  | @cons x o xs os hx _ ih =>
    have hrisk := hstep x o hx
    cases o with
    | none => rw [List.reduceOption_cons_of_none, ih, List.filterMap_cons, ← hrisk]; rfl
    | some e =>
      rw [List.reduceOption_cons_of_some, List.filterMap_cons, List.filterMap_cons, ih, ← hrisk]
      rfl

/-- **The risks** of the entries are those of the container. -/
theorem risks_parseRiskValue {es : List Entry} (h : parseRiskValue rt raw src maxName = .ok es) :
    es.filterMap Entry.risk? = containerRisks maxName raw := by
  cases raw with
  | obj m =>
    obtain ⟨os, hos, h⟩ := Except.bind_eq_ok.mp h
    cases h
    exact filterMap_reduceOption (fun m o => risk?_memberEntry) hos
  | arr lst =>
    obtain ⟨os, hos, h⟩ := Except.bind_eq_ok.mp h
    cases h
    exact filterMap_reduceOption (fun v o => risk?_itemEntry) hos
  | bool b =>
    cases h
    rfl
  | null =>
    cases h
    rfl
  | str name =>
    obtain ⟨e, he, h⟩ := Except.bind_eq_ok.mp h
    cases h
    rw [List.filterMap_cons, risk?_entry he]
    simp only [containerRisks]
    cases NdpiPolicy.risk? maxName (some name) .null <;> rfl
  | _ =>
    obtain ⟨e, he, h⟩ := Except.bind_eq_ok.mp h
    cases h
    rw [List.filterMap_cons, risk?_entry he]
    rfl

end NdpiPolicy
