import CernityNdr.Investigation.Queries

/-! # What a Snapshot Holds

    * `gather_isSome`: eleven pages are enough for a window of one day.
    * `mem_of_read`: the rows that are read are of the tenant, the entity and
      the window.
    * `forms_selection`: a selection, up to the order of its rows and of their
      members, as a part of the selected findings. -/

namespace InvestigationService

open Json

variable {env : Env} {src : Sources} {tenant : String} {request : Request}

/-! ### Paging -/

/-- In a window of one day a page with a next one is full. -/
theorem length_of_next {frm stop : Int} {after : String} {page : List Dict} {next : Int × String}
    (hday : stop ≤ frm + EvidenceService.MAX_WINDOW)
    (h : fetchObservations src tenant request frm stop after = some (page, some next)) :
    page.length = PAGE_SIZE := by
  obtain ⟨oneDay, hday', h⟩ := Option.bind_eq_some_iff.mp h
  obtain ⟨rows, -, h⟩ := Option.bind_eq_some_iff.mp h
  obtain ⟨observations, hobs, h⟩ := Option.bind_eq_some_iff.mp h
  obtain ⟨capabilities, -, h⟩ := Option.bind_eq_some_iff.mp h
  obtain ⟨sorted, -, h⟩ := Option.bind_eq_some_iff.mp h
  obtain ⟨rfl, hnext⟩ : observations = page ∧ _ = some next := by
    simpa using Option.some.inj h
  have honeDay : oneDay = frm + EvidenceService.MAX_WINDOW := by
    unfold EvidenceService.addWindow at hday'
    split at hday'
    · exact (Option.some.inj hday').symm
    · cases hday'
  have hfull : PAGE_SIZE < rows.length := by
    by_contra hle
    rw [if_neg hle, if_neg (by rw [honeDay]; exact not_lt.mpr hday)] at hnext
    cases hnext
  rw [← (Option.mapM_eq_some_iff.mp hobs).length_eq, List.length_take, min_eq_left hfull.le]

/-- Every page but the last is full, and too many records end the loop. -/
theorem gather_isSome {stop : Int} {pages : Nat} {frm : Int} {after : String} {rows : List Dict}
    (hday : stop ≤ frm + EvidenceService.MAX_WINDOW) (hfew : rows.length ≤ MAX_RECORDS)
    (hpages : MAX_RECORDS < rows.length + pages * PAGE_SIZE) :
    (gather src tenant request stop pages frm after rows).isSome = true := by
  induction pages generalizing frm after rows with
  | zero => omega
  | succ pages ih =>
    unfold gather
    split
    · rfl
    · next page next hfetch =>
      dsimp only
      split
      · rfl
      · next hmore =>
        split
        · rfl
        · next frm' after' =>
          split
          · rfl
          · next hnext =>
            have hlen := length_of_next hday hfetch
            rw [List.length_append, hlen] at hmore
            refine ih (by omega) ?_ ?_
            · rw [List.length_append, hlen]
              exact not_lt.mp hmore
            · rw [List.length_append, hlen]
              unfold PAGE_SIZE at *
              omega

/-- A window of one day is read to its end. -/
theorem observations_of_day {frm stop : Int} (hday : stop ≤ frm + EvidenceService.MAX_WINDOW)
    (hwindow : parseWindow env (.str request.frm) (.str request.stop) = some (frm, stop)) :
    gather src tenant request stop MAX_PAGES frm "" [] =
      some (observations env src tenant request) := by
  obtain ⟨rows, hrows⟩ := Option.isSome_iff_exists.mp
    (@gather_isSome src tenant request stop MAX_PAGES frm "" [] hday (by decide) (by decide))
  have hread : observations env src tenant request =
      (gather src tenant request stop MAX_PAGES frm "" []).getD none := by
    rw [observations, hwindow]
    rfl
  rw [hread, hrows, Option.getD_some]

/-! ### Values up to the order of members -/

theorem sortKeys_of_isScalar {v : Json} (h : isScalar v = true) : sortKeys v = v := by
  cases v with
  | arr xs => cases h
  | obj ms => cases h
  | _ => rfl

theorem isScalar_sortKeys (v : Json) : isScalar (sortKeys v) = isScalar v := by
  cases v <;> rfl

/-- A value with a hash is the only one of its form. -/
theorem eq_of_sortKeys_eq {v w : Json} (hv : isScalar v = true) (h : sortKeys v = sortKeys w) :
    v = w := by
  have hw : isScalar w = true := by rw [← isScalar_sortKeys, ← h, isScalar_sortKeys, hv]
  rwa [sortKeys_of_isScalar hv, sortKeys_of_isScalar hw] at h

theorem eq_of_map_sortKeys_eq {xs ys : List Json} (hxs : xs.all isScalar = true)
    (h : xs.map sortKeys = ys.map sortKeys) : xs = ys := by
  induction xs generalizing ys with
  | nil => rw [List.map_eq_nil_iff.mp h.symm]
  | cons x xs ih =>
    rw [List.all_cons, Bool.and_eq_true] at hxs
    obtain ⟨y, ys, rfl, hy, hys⟩ := List.map_eq_cons_iff.mp h.symm
    rw [eq_of_sortKeys_eq hxs.1 hy.symm, ih hxs.2 hys.symm]

theorem beq_str_sortKeys (v : Json) (s : String) : (sortKeys v).beq (.str s) = v.beq (.str s) := by
  cases v <;> rfl

/-- `in` does not depend on the order of members. -/
theorem contains_congr {v w : Json} (hv : (iterate v).all (·.all isScalar) = true)
    (h : sortKeys v = sortKeys w) (x : Json) : contains v x = contains w x := by
  have hscalar : isScalar v = true → contains v x = contains w x := fun hv => by
    rw [eq_of_sortKeys_eq hv h]
  cases v with
  | arr xs =>
    cases w with
    | arr ys =>
      rw [sortKeys_arr, sortKeys_arr, Json.arr.injEq] at h
      rw [eq_of_map_sortKeys_eq hv h]
    | _ => cases h
  | obj ms =>
    cases w with
    | obj ns =>
      rw [sortKeys_obj, sortKeys_obj, Json.obj.injEq] at h
      have hnames : ∀ d : Dict, (d.sorted.map Prod.fst).Perm (d.map Prod.fst) := by
        intro d
        have hperm := (List.perm_insertionSort (fun a b : String × Json => a.1 ≤ b.1)
          (sortKeys.members d)).map Prod.fst
        refine hperm.trans (List.Perm.of_eq ?_)
        rw [sortKeys_members_eq_map, List.map_map]
        rfl
      have hany : ∀ d : Dict, (d.any fun m => x.beq (.str m.1)) =
          (d.map Prod.fst).any fun name => x.beq (.str name) := by
        intro d
        rw [List.any_map]
        rfl
      have hperm := (hnames ms).symm.trans (h ▸ hnames ns)
      rw [contains, contains, hany, hany, hperm.any_eq]
    | _ => cases h
  | _ => exact hscalar rfl

/-! ### Forms -/

/-- A condition on objects. -/
def onObject (p : Dict → Bool) : Json → Bool
  | .obj d => p d
  | _ => false

/-- A condition that does not depend on the order of members. -/
theorem forms_filter {p : Dict → Bool} {rows : List Dict} (hp : ∀ d ∈ rows, p d.sorted = p d) :
    forms (rows.filter p) = (forms rows).filter (onObject p) := by
  rw [forms, forms, List.filter_map]
  congr 1
  exact List.filter_congr fun d hd => (hp d hd).symm

theorem isBeacon_sorted (d : Dict) : isBeacon d.sorted = isBeacon d := by
  rw [isBeacon, isBeacon, Dict.get_sorted, beq_str_sortKeys, beq_str_sortKeys]

theorem isIntel_sorted (d : Dict) : isIntel d.sorted = isIntel d := by
  rw [isIntel, isIntel, Dict.get_sorted, beq_str_sortKeys]

/-! ### What is read -/

/-- The rows of the reads are of the tenant, the entity and the window, and
    what is compared by its hash has one. -/
structure Reads.Within (env : Env) (tenant : String) (request : Request) (frm stop : Int) (r : Reads) :
    Prop where
  rows : ∀ row ∈ r.observations ++ r.findings, ofEntity tenant request.entityId row = true
  observations : ∀ row ∈ r.observations, inWindow env frm stop row = true
  findings : ∀ row ∈ r.findings, overlaps env frm stop row = true
  ids : ∀ f ∈ r.findings, isScalar (f.get "finding_id") = true
  linked : ∀ doc, r.caseDocument = some doc →
    (iterate (doc.get "linked_findings")).all (·.all isScalar) = true

theorem linked_of_acceptCase {caseId : String} {document : Json} {doc : Dict}
    (h : acceptCase tenant request caseId document = some doc) :
    (iterate (doc.get "linked_findings")).all (·.all isScalar) = true := by
  obtain ⟨d, -, h⟩ := Option.bind_eq_some_iff.mp h
  obtain ⟨linked, hlinked, h⟩ := Option.bind_eq_some_iff.mp h
  obtain ⟨hchecks, h⟩ := Option.ite_none_right_eq_some.mp h
  cases h
  simp only [Bool.and_eq_true, among] at hchecks
  obtain ⟨v, hv, hiterate⟩ := Option.bind_eq_some_iff.mp hlinked
  rw [Dict.get_of_get? hv, hiterate, Option.all_some]
  exact hchecks.2.1

/-- **What is read is of the tenant, the entity and the window.** -/
theorem within_of_read {r : Reads} (h : read env src tenant request = some r) :
    ∃ frm stop, parseWindow env (.str request.frm) (.str request.stop) = some (frm, stop) ∧
      r.Within env tenant request frm stop := by
  obtain ⟨dns, -, h⟩ := Option.bind_eq_some_iff.mp h
  obtain ⟨found, -, h⟩ := Option.bind_eq_some_iff.mp h
  obtain ⟨⟨frm, stop⟩, hwindow, h⟩ := Option.bind_eq_some_iff.mp h
  obtain ⟨ids, hids, h⟩ := Option.bind_eq_some_iff.mp h
  obtain ⟨hchecks, h⟩ := Option.ite_none_right_eq_some.mp h
  simp only [Bool.and_eq_true, List.all_eq_true, among] at hchecks
  obtain ⟨⟨⟨hrows, hdns⟩, hfound⟩, hscalar, -⟩ := hchecks
  have hid : ∀ f ∈ found, isScalar (f.get "finding_id") = true := by
    intro f hf
    obtain ⟨id, hmem, hid⟩ := Option.exists_mem_of_mapM hids hf
    rw [Dict.get_of_get? hid]
    exact hscalar id hmem
  obtain ⟨c, hcase, rfl⟩ := Option.map_eq_some_iff.mp h
  refine ⟨frm, stop, hwindow, hrows, hdns, hfound, hid, fun doc heq => ?_⟩
  unfold readCase at hcase
  split at hcase
  · cases hcase
    cases heq
  · obtain ⟨document, -, hcase⟩ := Option.bind_eq_some_iff.mp hcase
    obtain ⟨doc', hdoc, rfl⟩ := Option.map_eq_some_iff.mp hcase
    cases heq
    exact linked_of_acceptCase hdoc

/-! ### Selections -/

/-- The findings that are in some selection. -/
def Reads.selected (r : Reads) : List Dict :=
  r.findings.filter fun f => isBeacon f || isIntel f || inHistory r.caseDocument f

/-- The case up to the order of its members. -/
def Reads.caseForm (r : Reads) : Option Json := r.caseDocument.map fun doc => sortKeys (.obj doc)

/-- What the history has beside the other selections. -/
def onlyHistory (f : Dict) : Bool := !isBeacon f && !isIntel f

theorem not_isBeacon_of_isIntel {f : Dict} (h : isIntel f = true) : isBeacon f = false := by
  have heq := Json.eq_of_beq h
  rw [isBeacon, heq]
  decide

/-- The selected findings, part by part. -/
theorem selected_perm (r : Reads) : r.selected.Perm (r.findings.filter isBeacon ++
    (r.findings.filter isIntel ++ (r.findings.filter (inHistory r.caseDocument)).filter onlyHistory)) := by
  have hbeacon : r.selected.filter isBeacon = r.findings.filter isBeacon := by
    rw [Reads.selected, List.filter_filter]
    refine List.filter_congr fun f _ => ?_
    cases isBeacon f <;> simp
  have hintel : (r.selected.filter fun f => !isBeacon f).filter isIntel = r.findings.filter isIntel := by
    rw [Reads.selected, List.filter_filter, List.filter_filter]
    refine List.filter_congr fun f _ => ?_
    cases hf : isIntel f with
    | false => simp
    | true => simp [not_isBeacon_of_isIntel hf]
  have hrest : (r.selected.filter fun f => !isBeacon f).filter (fun f => !isIntel f) =
      (r.findings.filter (inHistory r.caseDocument)).filter onlyHistory := by
    rw [Reads.selected, List.filter_filter, List.filter_filter, List.filter_filter]
    refine List.filter_congr fun f _ => ?_
    rw [onlyHistory]
    cases isBeacon f <;> cases isIntel f <;> simp
  rw [← hbeacon, ← hintel, ← hrest]
  exact (List.filter_append_perm isBeacon r.selected).symm.trans
    ((List.filter_append_perm isIntel _).symm.append_left _)

theorem inHistory_sorted {caseDocument : Option Dict} {d : Dict}
    (h : isScalar (d.get "finding_id") = true) :
    inHistory caseDocument d.sorted = inHistory caseDocument d := by
  cases caseDocument with
  | none => rfl
  | some doc => rw [inHistory, inHistory, Dict.get_sorted, sortKeys_of_isScalar h]

theorem inHistory_congr {r r' : Reads} (hcase : r.caseForm = r'.caseForm)
    (hlinked : ∀ doc, r.caseDocument = some doc →
      (iterate (doc.get "linked_findings")).all (·.all isScalar) = true) (f : Dict) :
    inHistory r.caseDocument f = inHistory r'.caseDocument f := by
  unfold Reads.caseForm at hcase
  cases hdoc : r.caseDocument with
  | none =>
    rw [hdoc, Option.map_none] at hcase
    rw [Option.map_eq_none_iff.mp hcase.symm]
  | some doc =>
    rw [hdoc, Option.map_some] at hcase
    obtain ⟨doc', hdoc', hform⟩ := Option.map_eq_some_iff.mp hcase.symm
    rw [hdoc', inHistory, inHistory,
      contains_congr (hlinked doc hdoc) (Dict.get_congr hform.symm "linked_findings")]

/-- Two lists of selections with the same rows, up to their order and the order
    of members. -/
def SameRows (ss ss' : List (List Dict)) : Prop :=
  List.Forall₂ (fun rows rows' => (forms rows).Perm (forms rows')) ss ss'

/-- **The selections are the observations and the selected findings.** -/
theorem sameRows_iff {r r' : Reads} {frm stop frm' stop' : Int} {tenant' : String}
    {request' : Request} (hr : r.Within env tenant request frm stop)
    (hr' : r'.Within env tenant' request' frm' stop') (hcase : r.caseForm = r'.caseForm) :
    SameRows (selections r) (selections r') ↔
      (forms r.observations).Perm (forms r'.observations) ∧
        (forms r.selected).Perm (forms r'.selected) := by
  have hhistory : ∀ f ∈ r'.findings, inHistory r.caseDocument f.sorted = inHistory r.caseDocument f :=
    fun f hf => inHistory_sorted (hr'.ids f hf)
  have hsame : r'.findings.filter (inHistory r'.caseDocument) =
      r'.findings.filter (inHistory r.caseDocument) :=
    List.filter_congr fun f _ => (inHistory_congr hcase hr.linked f).symm
  have hrest : ∀ rows : List Dict, forms (rows.filter onlyHistory) =
      (forms rows).filter (onObject onlyHistory) := by
    intro rows
    refine forms_filter fun d _ => ?_
    rw [onlyHistory, onlyHistory, isBeacon_sorted, isIntel_sorted]
  simp only [SameRows, selections, List.forall₂_cons, List.forall₂_nil_left_iff, and_true]
  refine and_congr_right fun _ => ?_
  constructor
  · rintro ⟨hbeacon, hintel, hhist⟩
    have hparts : ∀ r : Reads, (forms r.selected).Perm (forms (r.findings.filter isBeacon) ++
        (forms (r.findings.filter isIntel) ++
          (forms (r.findings.filter (inHistory r.caseDocument))).filter (onObject onlyHistory))) := by
      intro r
      have hperm := (selected_perm r).map fun d => sortKeys (.obj d)
      rw [List.map_append, List.map_append] at hperm
      rw [← hrest]
      exact hperm
    exact (hparts r).trans ((hbeacon.append (hintel.append (hhist.filter _))).trans (hparts r').symm)
  · intro hselected
    have hpart : ∀ p : Dict → Bool, (∀ f ∈ r.findings, p f.sorted = p f) →
        (∀ f ∈ r'.findings, p f.sorted = p f) →
        (∀ f, p f = true → (isBeacon f || isIntel f || inHistory r.caseDocument f) = true) →
        (forms (r.findings.filter p)).Perm (forms (r'.findings.filter p)) := by
      intro p hp hp' hin
      have hfindings : r.findings.filter p = r.selected.filter p := by
        rw [Reads.selected, List.filter_filter]
        refine List.filter_congr fun f _ => ?_
        cases hf : p f with
        | false => simp
        | true => simp [hin f hf]
      have hfindings' : r'.findings.filter p = r'.selected.filter p := by
        rw [Reads.selected, List.filter_filter]
        refine List.filter_congr fun f _ => ?_
        rw [← inHistory_congr hcase hr.linked f]
        cases hf : p f with
        | false => simp
        | true => simp [hin f hf]
      have hforms : forms (r.selected.filter p) = (forms r.selected).filter (onObject p) :=
        forms_filter fun d hd => hp d (List.mem_filter.mp hd).1
      have hforms' : forms (r'.selected.filter p) = (forms r'.selected).filter (onObject p) :=
        forms_filter fun d hd => hp' d (List.mem_filter.mp hd).1
      rw [hfindings, hfindings', hforms, hforms']
      exact hselected.filter _
    refine ⟨hpart isBeacon (fun f _ => isBeacon_sorted f) (fun f _ => isBeacon_sorted f)
      (fun f hf => by simp [hf]), hpart isIntel (fun f _ => isIntel_sorted f)
      (fun f _ => isIntel_sorted f) (fun f hf => by simp [hf]), ?_⟩
    rw [hsame]
    exact hpart _ (fun f hf => inHistory_sorted (hr.ids f hf)) hhistory (fun f hf => by simp [hf])

end InvestigationService
