import Mathlib.Data.List.Permutation
import CernityNdr.Case.Api
import CernityNdr.Framework.Overlay

/-! # Verdicts on the Findings of a Case

    `case_dispositions` of `finding-service/cases.py` on the dictionaries of a
    case and of the verdicts: of the fields of a verdict it looks at the
    finding, the entity and the verdict, and passes the others on as they are.

    * `Linkable`: what the case API lets into the lists that it looks at, and
      `Shaped`: what that says about the records. -/

namespace CaseApi

open Json

/-! ### Dispositions -/

/-- The record of a verdict. -/
def dispositionRecord (findingId entity verdict reason analyst tenant ts : Json) : Dict :=
  [("finding_id", findingId),
   ("entity", entity),
   ("verdict", verdict),
   ("reason", reason),
   ("analyst", analyst),
   ("tenant", tenant),
   ("ts", ts),
   ("scope", .str (if verdict.beq (.str "allowlist") then "entity" else "finding"))]

/-- One round of the loop; `none` where it raises. -/
def caseDisposition (case v : Dict) : Option Dict := do
  let findingId ← v.get? "finding_id"
  let entity ← v.get? "entity"
  let verdict ← v.get? "verdict"
  guard (CaseManagement.dispositionVerdicts.any fun name => verdict.beq (.str name))
  guard ((items case "linked_findings").any (same findingId))
  guard ((items case "linked_entities").any (same entity))
  let reason ← v.get? "reason"
  let analyst ← v.get? "analyst"
  let tenant ← case.get? "tenant"
  let ts ← v.get? "ts"
  some (dispositionRecord findingId entity verdict reason analyst tenant ts)

/-- `case_dispositions`. -/
def caseDispositions (case : Dict) (verdicts : List Dict) : Option (List Dict) :=
  if ["resolved", "closed"].any fun status => (case.get "status").beq (.str status) then
    verdicts.mapM (caseDisposition case)
  else some []

/-! ### Entities -/

/-- The dictionary of an entity, its members in either order. -/
def IsEntity (x : Json) (etype value : String) : Prop :=
  x = .obj [("type", .str etype), ("value", .str value)] ∨
    x = .obj [("value", .str value), ("type", .str etype)]

theorem sortKeys_eq_str {v : Json} {s : String} : sortKeys v = .str s ↔ v = .str s := by
  cases v <;> simp [sortKeys]

theorem sortKeys_entity (etype value : String) :
    sortKeys (.obj [("type", .str etype), ("value", .str value)]) =
      .obj [("type", .str etype), ("value", .str value)] := by
  simp [sortKeys, sortKeys.members, List.insertionSort]

/-- Sorting the members leaves one order. -/
theorem isEntity_iff {x : Json} {etype value : String} : IsEntity x etype value ↔
    sortKeys x = .obj [("type", .str etype), ("value", .str value)] := by
  constructor
  · rintro (rfl | rfl)
    · exact sortKeys_entity etype value
    · simp [sortKeys, sortKeys.members, List.insertionSort]
  · intro h
    cases x with
    | obj ms =>
      have hsorted : (sortKeys.members ms).insertionSort (fun a b => a.1 ≤ b.1) =
          [("type", .str etype), ("value", .str value)] := Json.obj.inj h
      have hperm := (List.perm_insertionSort (fun a b : String × Json => a.1 ≤ b.1)
        (sortKeys.members ms)).symm
      rw [hsorted, sortKeys_members_eq_map] at hperm
      rcases List.perm_pair.mp hperm with hms | hms
      · left
        simpa [List.map_eq_cons_iff, Prod.ext_iff, sortKeys_eq_str] using hms
      · right
        simpa [List.map_eq_cons_iff, Prod.ext_iff, sortKeys_eq_str] using hms
    | _ => simp [sortKeys] at h

/-- What is equal to an entity is one. -/
theorem IsEntity.of_same {x y : Json} {etype value : String} (h : IsEntity y etype value)
    (hsame : same x y = true) : IsEntity x etype value := by
  rw [same, isEntity_iff.mp h] at hsame
  exact isEntity_iff.mpr (eq_of_beq hsame)

theorem eq_of_same_str {x : Json} {s : String} (h : same x (.str s) = true) : x = .str s :=
  sortKeys_eq_str.mp (eq_of_beq h)

/-! ### Without repeated members -/

/-- An object with a type and a value and nothing else. -/
theorem isEntity_distinct {e : Dict} (h : keysAre e ["type", "value"] = true) {etype value : String}
    (htype : e.get? "type" = some (.str etype)) (hvalue : e.get? "value" = some (.str value)) :
    IsEntity (distinct (.obj e)) etype value := by
  have hnodup : ((update [] e).map Prod.fst).Nodup := Dict.nodup_filled e
  have hget (key : String) : (update [] e).get? key = e.get? key := Dict.get?_filled e key
  have hperm : (update [] e).Perm [("type", .str etype), ("value", .str value)] := by
    rw [List.perm_ext_iff_of_nodup hnodup.of_map (by simp)]
    rintro ⟨key, v⟩
    rw [← Dict.get?_eq_some hnodup, hget]
    constructor
    · intro hget
      have hkey : key ∈ ["type", "value"] := by
        have hall := (Bool.and_eq_true_iff.mp h).1
        simpa using List.all_eq_true.mp hall _ (Dict.mem_of_get? hget)
      rcases List.mem_pair.mp hkey with rfl | rfl
      · simp_all
      · simp_all
    · intro hmem
      rcases List.mem_pair.mp hmem with heq | heq
      · cases heq
        exact htype
      · cases heq
        exact hvalue
  rcases List.perm_pair.mp hperm with heq | heq
  · exact Or.inl (congrArg Json.obj heq)
  · exact Or.inr (congrArg Json.obj heq)

/-! ### What the API links -/

/-- A text that `string` lets through. -/
def Fits (maximum : Nat) (s : String) : Prop := Text.notBlank s = true ∧ s.length ≤ maximum

theorem string_eq_ok {v : Json} {maximum : Nat} {s : String} :
    string v maximum = .ok s ↔ v = .str s ∧ Fits maximum s := by
  cases v with
  | str t =>
    simp only [string, Json.str.injEq]
    split
    · next h =>
      simp only [Bool.and_eq_true, decide_eq_true_eq] at h
      constructor
      · intro heq
        cases heq
        exact ⟨rfl, h⟩
      · rintro ⟨rfl, -⟩
        rfl
    · next h =>
      simp only [Bool.and_eq_true, decide_eq_true_eq] at h
      constructor
      · intro heq
        cases heq
      · rintro ⟨rfl, hfits⟩
        exact absurd hfits h
  | _ => simp [string]

/-- A finding that the API links. -/
def LinkableFinding (x : Json) : Prop := ∃ findingId, x = .str findingId ∧ Fits 256 findingId

/-- An entity that the API links. -/
def LinkableEntity (x : Json) : Prop :=
  ∃ etype ∈ ["ip", "hostname", "domain", "asset"], ∃ value, Fits 512 value ∧ IsEntity x etype value

/-- A case in which the API has written the tenant and everything that is
    linked. -/
structure Linkable (doc : Dict) : Prop where
  tenant : ∃ tenant, doc.get? "tenant" = some (.str tenant) ∧ Fits 256 tenant
  findings : ∀ x ∈ items doc "linked_findings", LinkableFinding x
  entities : ∀ x ∈ items doc "linked_entities", LinkableEntity x

theorem items_set_self (d : Dict) (key : String) (xs : List Json) :
    items (d.set key (.arr xs)) key = xs :=
  items_of_get? (Dict.get?_set_self d key _)

theorem items_congr {d e : Dict} {key : String} (h : d.get? key = e.get? key) :
    items d key = items e key := by
  rw [items, items, h]

/-- A change that leaves alone what is linked. -/
theorem Linkable.congr {doc new : Dict} (h : Linkable doc)
    (hsame : ∀ key ∈ ["tenant", "linked_findings", "linked_entities"],
      new.get? key = doc.get? key) : Linkable new := by
  obtain ⟨tenant, htenant, hfits⟩ := h.tenant
  refine ⟨⟨tenant, ?_, hfits⟩, ?_, ?_⟩
  · rw [hsame _ (by simp), htenant]
  · rw [items_congr (hsame "linked_findings" (by simp))]
    exact h.findings
  · rw [items_congr (hsame "linked_entities" (by simp))]
    exact h.entities

/-- Nothing linked is in the trail or in the time of the last change. -/
theorem ne_of_linked {key : String} (h : key ∈ ["tenant", "linked_findings", "linked_entities"]) :
    key ≠ "audit" ∧ key ≠ "updated" := by
  rcases List.mem_cons.mp h with rfl | h
  · decide
  · rcases List.mem_pair.mp h with rfl | rfl <;> decide

theorem get?_touch (case event : Dict) {key : String} (haudit : key ≠ "audit")
    (hupdated : key ≠ "updated") : (touch case event).get? key = case.get? key := by
  rw [touch, Dict.get?_set_ne _ _ hupdated, Dict.get?_set_ne _ _ haudit]

section Lists

variable {case : Dict} {field : String} {value : Json} {event : Dict}

/-- Only the list changes, and the trail. -/
theorem get?_addOnce {key : String} (haudit : key ≠ "audit") (hupdated : key ≠ "updated")
    (hfield : key ≠ field) : (addOnce field case value event).get? key = case.get? key := by
  unfold addOnce
  split
  · rfl
  · rw [Dict.get?_set_ne _ _ hfield, get?_touch case event haudit hupdated]

theorem get?_removeAll {key : String} (haudit : key ≠ "audit") (hupdated : key ≠ "updated")
    (hfield : key ≠ field) : (removeAll field case value event).get? key = case.get? key := by
  unfold removeAll
  split
  · rfl
  · rw [Dict.get?_set_ne _ _ hfield, get?_touch case event haudit hupdated]

theorem mem_items_addOnce {key : String} (haudit : key ≠ "audit") (hupdated : key ≠ "updated")
    {x : Json} (h : x ∈ items (addOnce field case value event) key) :
    x ∈ items case key ∨ key = field ∧ x = value := by
  by_cases hfield : key = field
  · subst hfield
    unfold addOnce at h
    split at h
    · exact Or.inl h
    · rw [items_set_self] at h
      simpa using h
  · rw [items_congr (get?_addOnce haudit hupdated hfield)] at h
    exact Or.inl h

theorem mem_items_removeAll {key : String} (haudit : key ≠ "audit") (hupdated : key ≠ "updated")
    {x : Json} (h : x ∈ items (removeAll field case value event) key) : x ∈ items case key := by
  by_cases hfield : key = field
  · subst hfield
    unfold removeAll at h
    split at h
    · exact h
    · rw [items_set_self] at h
      exact (List.mem_filter.mp h).1
  · rw [items_congr (get?_removeAll haudit hupdated hfield)] at h
    exact h

theorem Linkable.addOnce (h : Linkable case) (htenant : field ≠ "tenant")
    (hfindings : field = "linked_findings" → LinkableFinding value)
    (hentities : field = "linked_entities" → LinkableEntity value) :
    Linkable (addOnce field case value event) := by
  constructor
  · rw [get?_addOnce (by decide) (by decide) htenant.symm]
    exact h.tenant
  · intro x hx
    rcases mem_items_addOnce (by decide) (by decide) hx with hx | ⟨hfield, rfl⟩
    · exact h.findings x hx
    · exact hfindings hfield.symm
  · intro x hx
    rcases mem_items_addOnce (by decide) (by decide) hx with hx | ⟨hfield, rfl⟩
    · exact h.entities x hx
    · exact hentities hfield.symm

theorem Linkable.removeAll (h : Linkable case) (htenant : field ≠ "tenant") :
    Linkable (removeAll field case value event) := by
  constructor
  · rw [get?_removeAll (by decide) (by decide) htenant.symm]
    exact h.tenant
  · exact fun x hx => h.findings x (mem_items_removeAll (by decide) (by decide) hx)
  · exact fun x hx => h.entities x (mem_items_removeAll (by decide) (by decide) hx)

end Lists

/-- A new case of a tenant. -/
theorem linkable_newCase {tenant : String} (h : Fits 256 tenant) (caseId title : String)
    (owner : Json) (actor ts : String) : Linkable (newCase caseId tenant title owner actor ts) := by
  refine ⟨⟨tenant, rfl, h⟩, ?_, ?_⟩
  · intro x hx
    cases hx
  · intro x hx
    cases hx

/-! ### Routes -/

/-- A value of a route that `handle_case` lets through, as far as it is
    linked. -/
structure LinkableBy (route : Route) (value : Json) : Prop where
  finding : route = .linkFinding → LinkableFinding value
  entity : route = .linkEntity → LinkableEntity value

theorem linkableBy_checked {route : Route} {raw value : Json} (h : checked route raw = .ok value) :
    LinkableBy route value := by
  constructor
  · rintro rfl
    obtain ⟨findingId, hstring, rfl⟩ := Except.map_eq_ok.mp
      (show (string raw 256).map Json.str = .ok value from h)
    exact ⟨findingId, rfl, (string_eq_ok.mp hstring).2⟩
  · rintro rfl
    simp only [checked, Route.field] at h
    split at h
    · next e =>
      split at h
      · next hkeys =>
        obtain ⟨text, hstring, rfl⟩ := Except.map_eq_ok.mp h
        obtain ⟨hkeys, htypes⟩ := Bool.and_eq_true_iff.mp hkeys
        obtain ⟨etype, hetype, hbeq⟩ := List.any_eq_true.mp htypes
        obtain ⟨hvalue, hfits⟩ := string_eq_ok.mp hstring
        have hpresent : ∀ key ∈ ["type", "value"], ∀ v, Dict.get e key = v →
            Dict.get? e key = some v := by
          intro key hkey v hget
          have hsome := List.all_eq_true.mp (Bool.and_eq_true_iff.mp hkeys).2 key hkey
          obtain ⟨w, hw⟩ := Option.isSome_iff_exists.mp hsome
          rw [← hget, Dict.get_of_get? hw, hw]
        exact ⟨etype, hetype, text, hfits, isEntity_distinct hkeys
          (hpresent _ (by simp) _ (eq_of_beq hbeq)) (hpresent _ (by simp) _ hvalue)⟩
      · cases h
    · cases h

/-- A route keeps a case linkable. -/
theorem Linkable.apply {doc new : Dict} (h : Linkable doc) {route : Route} {value : Json}
    (hvalue : LinkableBy route value) {actor ts : String}
    (happly : route.apply doc value actor ts = some new) : Linkable new := by
  have hother : ∀ (event : Dict) (field : String) (v : Json), field ∉ ["tenant", "linked_findings",
      "linked_entities"] → Linkable ((touch doc event).set field v) := by
    intro event field v hfield
    refine h.congr fun key hkey => ?_
    have hset : key ≠ field := by
      rintro rfl
      exact hfield hkey
    rw [Dict.get?_set_ne _ _ hset]
    exact get?_touch doc event (ne_of_linked hkey).1 (ne_of_linked hkey).2
  cases route with
  | owner =>
    obtain rfl := Option.some.inj happly
    exact hother _ _ _ (by decide)
  | assign =>
    obtain rfl := Option.some.inj happly
    exact h.addOnce (by decide) (fun heq => absurd heq (by decide)) fun heq => absurd heq (by decide)
  | unassign =>
    obtain rfl := Option.some.inj happly
    exact h.removeAll (by decide)
  | note =>
    obtain rfl := Option.some.inj happly
    exact hother _ _ _ (by decide)
  | status =>
    simp only [Route.apply, transition] at happly
    split at happly
    · obtain rfl := Option.some.inj happly
      exact hother _ _ _ (by decide)
    · cases happly
  | linkFinding =>
    obtain rfl := Option.some.inj happly
    exact h.addOnce (by decide) (fun _ => hvalue.finding rfl) fun heq => absurd heq (by decide)
  | unlinkFinding =>
    obtain rfl := Option.some.inj happly
    exact h.removeAll (by decide)
  | linkEntity =>
    obtain rfl := Option.some.inj happly
    exact h.addOnce (by decide) (fun heq => absurd heq (by decide)) fun _ => hvalue.entity rfl
  | unlinkEntity =>
    obtain rfl := Option.some.inj happly
    exact h.removeAll (by decide)

/-! ### Records of a linkable case -/

/-- The record of the verdict `v`: of its fields only those are open that
    nothing checks. -/
structure RecordOf (v record : Dict) (reason analyst ts : Json) : Prop where
  get_reason : v.get? "reason" = some reason
  get_analyst : v.get? "analyst" = some analyst
  get_ts : v.get? "ts" = some ts
  shape : ∃ findingId entity verdict tenant,
    record = dispositionRecord (.str findingId) entity (.str verdict) reason analyst (.str tenant) ts ∧
    Fits 256 findingId ∧ LinkableEntity entity ∧ verdict ∈ CaseManagement.dispositionVerdicts ∧
    Fits 256 tenant

theorem guard_eq_some {p : Bool} {u : Unit} : (guard (p = true) : Option Unit) = some u ↔ p = true := by
  cases p <;> simp [guard]

/-- What is equal to something linked can be linked. -/
theorem LinkableFinding.of_any {case : Dict} (hcase : Linkable case) {x : Json}
    (h : (items case "linked_findings").any (same x) = true) : LinkableFinding x := by
  obtain ⟨y, hy, hsame⟩ := List.any_eq_true.mp h
  obtain ⟨findingId, rfl, hfits⟩ := hcase.findings y hy
  exact ⟨findingId, eq_of_same_str hsame, hfits⟩

theorem LinkableEntity.of_any {case : Dict} (hcase : Linkable case) {x : Json}
    (h : (items case "linked_entities").any (same x) = true) : LinkableEntity x := by
  obtain ⟨y, hy, hsame⟩ := List.any_eq_true.mp h
  obtain ⟨etype, hetype, value, hfits, hentity⟩ := hcase.entities y hy
  exact ⟨etype, hetype, value, hfits, hentity.of_same hsame⟩

theorem recordOf_caseDisposition {case v record : Dict} (hcase : Linkable case)
    (h : caseDisposition case v = some record) :
    ∃ reason analyst ts, RecordOf v record reason analyst ts := by
  simp only [caseDisposition, Option.bind_eq_bind, Option.bind_eq_some_iff, guard_eq_some,
    exists_const] at h
  obtain ⟨finding, -, entity, -, verdict, -, hverdict, hfinding, hentity, reason, hreason, analyst,
    hanalyst, tenant, htenant, ts, hts, hrecord⟩ := h
  obtain ⟨name, hname, hbeq⟩ := List.any_eq_true.mp hverdict
  obtain rfl := eq_of_beq hbeq
  obtain ⟨findingId, rfl, hfits⟩ := LinkableFinding.of_any hcase hfinding
  obtain ⟨tenant', htenant', htenantFits⟩ := hcase.tenant
  obtain rfl : .str tenant' = tenant := Option.some.inj (htenant'.symm.trans htenant)
  exact ⟨reason, analyst, ts, hreason, hanalyst, hts, findingId, entity, name, tenant',
    (Option.some.inj hrecord).symm, hfits, LinkableEntity.of_any hcase hentity, hname, htenantFits⟩

/-- Every record is that of one of the verdicts. -/
theorem exists_of_mem_caseDispositions {case record : Dict} {verdicts records : List Dict}
    (h : caseDispositions case verdicts = some records) (hmem : record ∈ records) :
    ∃ v ∈ verdicts, caseDisposition case v = some record := by
  unfold caseDispositions at h
  split at h
  · exact Option.exists_of_mem_mapM h hmem
  · cases h
    cases hmem

end CaseApi
