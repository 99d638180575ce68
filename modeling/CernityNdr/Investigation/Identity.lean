import CernityNdr.Investigation.Snapshots

/-! # The Identity of an Investigation

    The id is the hash of the document and of the digest of the snapshot, and
    the digest is the hash of the rows, sorted by their text.

    * `results_congr`: the results do not depend on the order of the rows.
    * `gather_reordered`: nor do the rows of the pages on the order of a page,
      when a full one ends at the same cursor.
    * `sameRows_of_resultsJson`: their text says which rows there are.
    * `identity_content`: two investigations have one id exactly when they have
      the same content. -/

namespace InvestigationService

open Json

variable {env : Env} {src src' : Sources} {tenant tenant' : String} {request request' : Request}

/-! ### Results -/

theorem canonical_congr {v w : Json} (h : sortKeys v = sortKeys w) : canonical env v = canonical env w := by
  have hdepth : v.depth = w.depth := by rw [← depth_sortKeys v, h, depth_sortKeys]
  have hfinite : v.finite = w.finite := by rw [← finite_sortKeys v, h, finite_sortKeys]
  rw [canonical, canonical, hdepth, hfinite, canonicalText_eq_iff.mpr h]

theorem isSome_canonical_sortKeys (v : Json) :
    (canonical env (sortKeys v)).isSome = (canonical env v).isSome := by
  rw [canonical, canonical, depth_sortKeys, finite_sortKeys]
  split <;> rfl

theorem canonical_eq_some {v : Json} {text : String} (h : canonical env v = some text) :
    text = canonicalText v := by
  obtain ⟨-, h⟩ := Option.ite_none_right_eq_some.mp h
  exact (Option.some.inj h).symm

theorem refOf_sorted (d : Dict) : refOf d.sorted = sortKeys (refOf d) := by
  rw [refOf, refOf, Dict.get?_sorted, Dict.get_sorted]
  cases d.get? "obs_id" <;> rfl

/-- The refs of rows that are the same up to the order of members. -/
theorem sortedSet_refs {rows rows' : List Dict} {refs : List Json} (h : forms rows = forms rows')
    (hrefs : sortedSet (rows.map refOf) = some refs) : sortedSet (rows'.map refOf) = some refs := by
  have hscalar : (rows.map refOf).all isScalar = true := by
    by_contra hnot
    rw [sortedSet, if_pos (by simpa using hnot)] at hrefs
    cases hrefs
  have hmap : ∀ rows : List Dict, (rows.map refOf).map sortKeys =
      (forms rows).map fun v => (v.obj?.map refOf).getD .null := by
    intro rows
    rw [forms, List.map_map, List.map_map]
    exact List.map_congr_left fun d _ => (refOf_sorted d).symm
  have heq : rows.map refOf = rows'.map refOf :=
    eq_of_map_sortKeys_eq hscalar (by rw [hmap, hmap, h])
  rwa [← heq]

theorem resultOf_spec {rows : List Dict} {result : Result} (h : resultOf env rows = some result) :
    result.records = sortedRows rows ∧
      sortedSet ((sortedRows rows).map refOf) = some result.refs := by
  obtain ⟨-, h⟩ := Option.ite_none_right_eq_some.mp h
  obtain ⟨refs, hrefs, rfl⟩ := Option.map_eq_some_iff.mp h
  exact ⟨rfl, hrefs⟩

/-- Two results with the same refs and the same records. -/
structure Result.Same (r r' : Result) : Prop where
  refs : r'.refs = r.refs
  records : forms r.records = forms r'.records

/-- **A result does not depend on the order of the rows.** -/
theorem resultOf_congr {rows rows' : List Dict} {result : Result}
    (hrows : (forms rows).Perm (forms rows')) (h : resultOf env rows = some result) :
    ∃ result', resultOf env rows' = some result' ∧ result.Same result' := by
  obtain ⟨hrecords, hrefs⟩ := resultOf_spec h
  obtain ⟨hall, -⟩ := Option.ite_none_right_eq_some.mp h
  have hsorted := forms_sortedRows.mpr hrows
  have hforms : ∀ rows : List Dict, (rows.all fun r => (canonical env (.obj r)).isSome) =
      (forms rows).all fun v => (canonical env v).isSome := by
    intro rows
    rw [forms, List.all_map]
    congr 1
    funext r
    exact (isSome_canonical_sortKeys _).symm
  refine ⟨⟨result.refs, sortedRows rows'⟩, ?_, rfl, by rw [hrecords, hsorted]⟩
  rw [resultOf, if_pos (by rw [hforms, ← hrows.all_eq, ← hforms, hall]),
    sortedSet_refs hsorted hrefs, Option.map_some]

/-! ### The text of the results -/

/-- The results of the steps, one by one. -/
theorem exists_results {r : Reads} {results : List Result}
    (h : (selections r).mapM (resultOf env) = some results) :
    List.Forall₂ (fun rows result => resultOf env rows = some result) (selections r) results ∧
      ∃ dns beacon intel history, results = [dns, beacon, intel, history] := by
  have hall := Option.mapM_eq_some_iff.mp h
  refine ⟨hall, ?_⟩
  have hlen : results.length = 4 := hall.length_eq.symm
  match results, hlen with
  | [dns, beacon, intel, history], _ => exact ⟨dns, beacon, intel, history, rfl⟩

/-- The members that the history has for the case. -/
def caseMembers (caseDocument : Option Dict) : Dict :=
  (caseDocument.map fun doc => ("case", .obj doc)).toList

theorem resultsJson_eq (dns beacon intel history : Result) (caseDocument : Option Dict) :
    resultsJson [dns, beacon, intel, history] caseDocument =
      .obj [("evidence.dns", dns.json []), ("finding.beacon", beacon.json []),
        ("finding.intel_match", intel.json []),
        ("case.entity_history", history.json (caseMembers caseDocument))] := by
  simp [resultsJson, STEPS, caseMembers]

theorem sortKeys_resultJson_congr {r r' : Result} {extra extra' : Dict} (h : r.Same r')
    (hextra : List.Forall₂ (fun m n : String × Json => m.1 = n.1 ∧ sortKeys m.2 = sortKeys n.2)
      extra extra') : sortKeys (r.json extra) = sortKeys (r'.json extra') := by
  have hrecords : sortKeys (.arr (r.records.map .obj)) = sortKeys (.arr (r'.records.map .obj)) := by
    rw [sortKeys_arr, sortKeys_arr, List.map_map, List.map_map]
    exact congrArg Json.arr h.records
  refine sortKeys_obj_congr (.cons ⟨rfl, ?_⟩ (.cons ⟨rfl, hrecords⟩ hextra))
  rw [h.refs]

/-- The members of a result. -/
def Result.members (r : Result) (caseDocument : Option Dict) : Dict :=
  [("refs", .arr r.refs), ("records", .arr (r.records.map .obj))] ++ caseMembers caseDocument

theorem get?_records (r : Result) (c : Option Dict) :
    (r.members c).get? "records" = some (.arr (r.records.map .obj)) := by
  cases c <;> rfl

theorem get?_case (r : Result) (c : Option Dict) : (r.members c).get? "case" = c.map .obj := by
  cases c <;> rfl

/-- The records and the case of a result, from its text. -/
theorem of_sortKeys_resultJson {r r' : Result} {c c' : Option Dict}
    (h : sortKeys (r.json (caseMembers c)) = sortKeys (r'.json (caseMembers c'))) :
    forms r.records = forms r'.records ∧
      (c.map fun doc => sortKeys (.obj doc)) = c'.map fun doc => sortKeys (.obj doc) := by
  have hmembers : sortKeys (.obj (r.members c)) = sortKeys (.obj (r'.members c')) := h
  have hrecords := Dict.get?_congr hmembers "records"
  have hcase := Dict.get?_congr hmembers "case"
  rw [get?_records, get?_records, Option.map_some, Option.map_some, Option.some.injEq, sortKeys_arr,
    sortKeys_arr, Json.arr.injEq, List.map_map, List.map_map] at hrecords
  rw [get?_case, get?_case, Option.map_map, Option.map_map] at hcase
  exact ⟨hrecords, hcase⟩

variable {r r' : Reads} {results results' : List Result}

theorem caseMembers_congr {c c' : Option Dict}
    (h : (c.map fun doc => sortKeys (.obj doc)) = c'.map fun doc => sortKeys (.obj doc)) :
    List.Forall₂ (fun m n : String × Json => m.1 = n.1 ∧ sortKeys m.2 = sortKeys n.2)
      (caseMembers c) (caseMembers c') := by
  cases c with
  | none =>
    rw [Option.map_eq_none_iff.mp h.symm]
    exact .nil
  | some doc =>
    obtain ⟨doc', rfl, hdoc⟩ := Option.map_eq_some_iff.mp h.symm
    exact .cons ⟨rfl, hdoc.symm⟩ .nil

/-- **The text of the results says which rows there are**, and which case. -/
theorem resultsJson_congr_iff (h : (selections r).mapM (resultOf env) = some results)
    (h' : (selections r').mapM (resultOf env) = some results') :
    sortKeys (resultsJson results r.caseDocument) = sortKeys (resultsJson results' r'.caseDocument) ↔
      SameRows (selections r) (selections r') ∧ r.caseForm = r'.caseForm := by
  obtain ⟨hall, dns, beacon, intel, history, rfl⟩ := exists_results h
  obtain ⟨hall', dns', beacon', intel', history', rfl⟩ := exists_results h'
  have hrows : ∀ {rows rows' : List Dict} {result result' : Result},
      resultOf env rows = some result → resultOf env rows' = some result' →
      (forms result.records = forms result'.records ↔ (forms rows).Perm (forms rows')) := by
    intro rows rows' result result' hr hr'
    rw [(resultOf_spec hr).1, (resultOf_spec hr').1, forms_sortedRows]
  have hsame : ∀ {rows rows' : List Dict} {result result' : Result},
      resultOf env rows = some result → resultOf env rows' = some result' →
      (forms rows).Perm (forms rows') → result.Same result' := by
    intro rows rows' result result' hr hr' hperm
    obtain ⟨result'', hr'', hsame⟩ := resultOf_congr hperm hr
    obtain rfl := Option.some.inj (hr''.symm.trans hr')
    exact hsame
  simp only [selections, List.forall₂_cons, List.forall₂_nil_left_iff, and_true] at hall hall'
  obtain ⟨hd, hb, hi, hh⟩ := hall
  obtain ⟨hd', hb', hi', hh'⟩ := hall'
  simp only [SameRows, selections, List.forall₂_cons, List.forall₂_nil_left_iff, and_true]
  rw [resultsJson_eq, resultsJson_eq]
  constructor
  · intro heq
    have hmember := fun kind => Dict.get?_congr heq kind
    have hdns := @of_sortKeys_resultJson _ _ none none
      (Option.some.inj (hmember "evidence.dns"))
    have hbeacon := @of_sortKeys_resultJson _ _ none none
      (Option.some.inj (hmember "finding.beacon"))
    have hintel := @of_sortKeys_resultJson _ _ none none
      (Option.some.inj (hmember "finding.intel_match"))
    have hhistory := of_sortKeys_resultJson (Option.some.inj (hmember "case.entity_history"))
    exact ⟨⟨(hrows hd hd').mp hdns.1, (hrows hb hb').mp hbeacon.1, (hrows hi hi').mp hintel.1,
      (hrows hh hh').mp hhistory.1⟩, hhistory.2⟩
  · rintro ⟨⟨hdns, hbeacon, hintel, hhistory⟩, hcase⟩
    exact sortKeys_obj_congr
      (.cons ⟨rfl, sortKeys_resultJson_congr (hsame hd hd' hdns) .nil⟩
        (.cons ⟨rfl, sortKeys_resultJson_congr (hsame hb hb' hbeacon) .nil⟩
          (.cons ⟨rfl, sortKeys_resultJson_congr (hsame hi hi' hintel) .nil⟩
            (.cons ⟨rfl, sortKeys_resultJson_congr (hsame hh hh' hhistory) (caseMembers_congr hcase)⟩
              .nil))))

/-! ### The document -/

theorem sortKeys_texts {xs ys : List String}
    (h : sortKeys (.arr (xs.map .str)) = sortKeys (.arr (ys.map .str))) : xs = ys := by
  rw [sortKeys_arr, sortKeys_arr, Json.arr.injEq, List.map_map, List.map_map] at h
  exact List.map_injective_iff.mpr (fun a b hab => Json.str.inj hab) h

theorem get?_request (r : Request) : r.json.get? "entity_id" = some (.str r.entityId) ∧
    r.json.get? "finding_ids" = some (.arr (r.findingIds.map .str)) ∧
    r.json.get? "reason" = some (.str r.reason) ∧
    r.json.get? "window" = some (.obj [("from", .str r.frm), ("to", .str r.stop)]) ∧
    r.json.get? "case_id" = r.caseId.map .str := by
  obtain ⟨entityId, findingIds, reason, frm, stop, caseId⟩ := r
  cases caseId <;> exact ⟨rfl, rfl, rfl, rfl, rfl⟩

/-- A request is read off its dictionary. -/
theorem request_of_json (h : sortKeys (.obj request.json) = sortKeys (.obj request'.json)) :
    request = request' := by
  obtain ⟨hentity, hids, hreason, hwindow, hcase⟩ := get?_request request
  obtain ⟨hentity', hids', hreason', hwindow', hcase'⟩ := get?_request request'
  have heqEntity := Dict.get?_congr h "entity_id"
  have heqIds := Dict.get?_congr h "finding_ids"
  have heqReason := Dict.get?_congr h "reason"
  have heqWindow := Dict.get?_congr h "window"
  have heqCase := Dict.get?_congr h "case_id"
  rw [hentity, hentity'] at heqEntity
  rw [hids, hids'] at heqIds
  rw [hreason, hreason'] at heqReason
  rw [hwindow, hwindow'] at heqWindow
  rw [hcase, hcase', Option.map_map, Option.map_map] at heqCase
  have hframe := Option.some.inj heqWindow
  have hcaseId : request.caseId = request'.caseId :=
    Option.map_injective (fun a b hab => Json.str.inj hab) heqCase
  have hfrm : request.frm = request'.frm :=
    Json.str.inj (Option.some.inj (Dict.get?_congr hframe "from"))
  have hstop : request.stop = request'.stop :=
    Json.str.inj (Option.some.inj (Dict.get?_congr hframe "to"))
  have hentityId : request.entityId = request'.entityId := Json.str.inj (Option.some.inj heqEntity)
  have hreasonText : request.reason = request'.reason := Json.str.inj (Option.some.inj heqReason)
  have hfindingIds := sortKeys_texts (Option.some.inj heqIds)
  cases request
  cases request'
  simp_all

variable {refs refs' : List (List Json)} {evidenceRefs evidenceRefs' : List Json}

/-- The tenant and the request are read off a document. -/
theorem of_documentJson (hrefs : refs ≠ []) (hrefs' : refs' ≠ [])
    (h : sortKeys (.obj (documentJson tenant request refs evidenceRefs)) =
      sortKeys (.obj (documentJson tenant' request' refs' evidenceRefs'))) :
    tenant = tenant' ∧ request = request' := by
  have htenant := Option.some.inj (Dict.get?_congr h "tenant")
  have hsteps := Option.some.inj (Dict.get?_congr h "steps")
  refine ⟨Json.str.inj htenant, ?_⟩
  obtain ⟨first, rest, rfl⟩ := List.exists_cons_of_ne_nil hrefs
  obtain ⟨first', rest', rfl⟩ := List.exists_cons_of_ne_nil hrefs'
  rw [sortKeys_arr, sortKeys_arr, Json.arr.injEq] at hsteps
  have hstep : sortKeys (stepJson request "dns_context" "evidence.dns" first) =
      sortKeys (stepJson request' "dns_context" "evidence.dns" first') := (List.cons.inj hsteps).1
  have hquery := Option.some.inj (Dict.get?_congr hstep "query")
  exact request_of_json (Option.some.inj (Dict.get?_congr hquery "params"))

/-! ### The id -/

/-- What a run of the engine depends on. -/
structure Snapshot.Same (s s' : Snapshot) : Prop where
  tenant : s.tenant = s'.tenant
  request : s.request = s'.request
  refs : s.results.map Result.refs = s'.results.map Result.refs
  digest : s.digest = s'.digest

theorem run_congr {s s' : Snapshot} (h : s.Same s') : run env s = run env s' := by
  have hrefs : s.results.mapM (fun r => sortedSet r.refs) =
      s'.results.mapM fun r => sortedSet r.refs := by
    have hmap : ∀ results : List Result, results.mapM (fun r => sortedSet r.refs) =
        (results.map Result.refs).mapM sortedSet := fun results => by
      rw [List.mapM_map]
      rfl
    rw [hmap, hmap, h.refs]
  unfold run
  rw [hrefs, h.tenant, h.request, h.digest]

theorem snapshotOf_spec {s : Snapshot} (h : snapshotOf env tenant request r = some s) :
    selectable r = true ∧ ∃ results, (selections r).mapM (resultOf env) = some results ∧
      s = ⟨tenant, request, results,
        env.sha256 (canonicalText (resultsJson results r.caseDocument)).toList⟩ := by
  unfold snapshotOf at h
  split at h
  · cases h
  · next hselect =>
    obtain ⟨results, hresults, h⟩ := Option.bind_eq_some_iff.mp h
    obtain ⟨text, htext, h⟩ := Option.bind_eq_some_iff.mp h
    cases h
    rw [canonical_eq_some htext]
    exact ⟨by simpa using hselect, results, hresults, rfl⟩

/-- The results of the same rows have the same refs. -/
theorem results_congr {ss ss' : List (List Dict)} {results : List Result} (hrows : SameRows ss ss')
    (hall : List.Forall₂ (fun rows result => resultOf env rows = some result) ss results) :
    ∃ results', List.Forall₂ (fun rows result => resultOf env rows = some result) ss' results' ∧
      results.map Result.refs = results'.map Result.refs := by
  induction hrows generalizing results with
  | nil =>
    cases hall
    exact ⟨[], .nil, rfl⟩
  | cons hperm _ ih =>
    cases hall with
    | cons hresult hall =>
      obtain ⟨result', hresult', hsame⟩ := resultOf_congr hperm hresult
      obtain ⟨results', hall', hrefs⟩ := ih hall
      refine ⟨result' :: results', .cons hresult' hall', ?_⟩
      rw [List.map_cons, List.map_cons, hsame.refs, hrefs]

/-- **A snapshot does not depend on the order of the rows.** -/
theorem snapshotOf_congr {s : Snapshot} (h : snapshotOf env tenant request r = some s)
    (hselect : selectable r' = true) (hrows : SameRows (selections r) (selections r'))
    (hcase : r.caseForm = r'.caseForm) :
    ∃ s', snapshotOf env tenant request r' = some s' ∧ s.Same s' := by
  obtain ⟨-, results, hresults, rfl⟩ := snapshotOf_spec h
  obtain ⟨hall, -⟩ := exists_results hresults
  obtain ⟨results', hall', hsame⟩ := results_congr hrows hall
  have hresults' := Option.mapM_eq_some_iff.mpr hall'
  have hform := (resultsJson_congr_iff hresults hresults').mpr ⟨hrows, hcase⟩
  obtain ⟨text, htext⟩ : ∃ text, canonical env (resultsJson results r.caseDocument) = some text := by
    unfold snapshotOf at h
    split at h
    · cases h
    · obtain ⟨results'', hresults'', h⟩ := Option.bind_eq_some_iff.mp h
      obtain rfl := Option.some.inj (hresults.symm.trans hresults'')
      obtain ⟨text, htext, -⟩ := Option.bind_eq_some_iff.mp h
      exact ⟨text, htext⟩
  refine ⟨⟨tenant, request, results',
    env.sha256 (canonicalText (resultsJson results' r'.caseDocument)).toList⟩, ?_,
    rfl, rfl, hsame, by rw [canonicalText_eq_iff.mpr hform]⟩
  have htext' := (canonical_congr hform).symm.trans htext
  rw [snapshotOf, hselect, hresults', ← canonical_eq_some htext', Option.bind_eq_bind, Option.bind_some,
    htext']
  rfl

theorem run_spec {s : Snapshot} {d : Document} (h : run env s = some d) :
    ∃ refs evidenceRefs, s.results.mapM (fun r => sortedSet r.refs) = some refs ∧
      d.body = documentJson s.tenant s.request refs evidenceRefs ∧
      d.investigationId = "inv:" ++ env.sha256 (canonicalText (identityJson d.body s.digest)).toList := by
  obtain ⟨refs, hrefs, h⟩ := Option.bind_eq_some_iff.mp h
  obtain ⟨evidenceRefs, -, h⟩ := Option.bind_eq_some_iff.mp h
  obtain ⟨text, htext, h⟩ := Option.bind_eq_some_iff.mp h
  cases h
  exact ⟨refs, evidenceRefs, hrefs, rfl, by rw [canonical_eq_some htext]⟩

theorem investigate_spec {value : Json} {inv : Investigation}
    (h : investigate env src tenant value = some inv) :
    validateRequest env value = some inv.request ∧
      read env src tenant inv.request = some inv.reads ∧
      snapshotOf env tenant inv.request inv.reads = some inv.snapshot ∧
      run env inv.snapshot = some inv.document := by
  obtain ⟨request, hrequest, h⟩ := Option.bind_eq_some_iff.mp h
  obtain ⟨reads, hreads, h⟩ := Option.bind_eq_some_iff.mp h
  obtain ⟨snapshot, hsnapshot, h⟩ := Option.bind_eq_some_iff.mp h
  obtain ⟨document, hdocument, h⟩ := Option.bind_eq_some_iff.mp h
  cases h
  exact ⟨hrequest, hreads, hsnapshot, hdocument⟩

/-- Two investigations have the same content: the tenant, the request, the
    observations, the selected findings and the case. -/
structure SameContent (tenant tenant' : String) (inv inv' : Investigation) : Prop where
  tenant : tenant = tenant'
  request : inv.request = inv'.request
  observations : (forms inv.reads.observations).Perm (forms inv'.reads.observations)
  findings : (forms inv.reads.selected).Perm (forms inv'.reads.selected)
  caseDocument : inv.reads.caseForm = inv'.reads.caseForm

/-- The same content has the same document. -/
theorem document_of_sameContent {value value' : Json} {inv inv' : Investigation}
    (h : investigate env src tenant value = some inv)
    (h' : investigate env src' tenant' value' = some inv') (hsame : SameContent tenant tenant' inv inv') :
    inv.document = inv'.document := by
  obtain ⟨-, hread, hsnapshot, hrun⟩ := investigate_spec h
  obtain ⟨-, hread', hsnapshot', hrun'⟩ := investigate_spec h'
  obtain ⟨rfl, hrequest, hobservations, hfindings, hcase⟩ := hsame
  obtain ⟨_, _, -, hwithin⟩ := within_of_read hread
  obtain ⟨_, _, -, hwithin'⟩ := within_of_read hread'
  have hrows := (sameRows_iff hwithin hwithin' hcase).mpr ⟨hobservations, hfindings⟩
  obtain ⟨s, hs, hss⟩ := snapshotOf_congr hsnapshot (snapshotOf_spec hsnapshot').1 hrows hcase
  rw [hrequest] at hs
  obtain rfl := Option.some.inj (hs.symm.trans hsnapshot')
  rw [run_congr hss] at hrun
  exact Option.some.inj (hrun.symm.trans hrun')

/-- An id says all of the content. -/
theorem sameContent_of_id (hsha : Function.Injective env.sha256) {value value' : Json}
    {inv inv' : Investigation} (h : investigate env src tenant value = some inv)
    (h' : investigate env src' tenant' value' = some inv')
    (hid : inv.document.investigationId = inv'.document.investigationId) :
    SameContent tenant tenant' inv inv' := by
  obtain ⟨-, hread, hsnapshot, hrun⟩ := investigate_spec h
  obtain ⟨-, hread', hsnapshot', hrun'⟩ := investigate_spec h'
  obtain ⟨refs, evidenceRefs, hrefs, hbody, hdocId⟩ := run_spec hrun
  obtain ⟨refs', evidenceRefs', hrefs', hbody', hdocId'⟩ := run_spec hrun'
  obtain ⟨-, results, hresults, hsnap⟩ := snapshotOf_spec hsnapshot
  obtain ⟨-, results', hresults', hsnap'⟩ := snapshotOf_spec hsnapshot'
  have htext : ∀ v w : Json, env.sha256 (canonicalText v).toList = env.sha256 (canonicalText w).toList →
      sortKeys v = sortKeys w :=
    fun v w heq => canonicalText_eq_iff.mp (String.toList_injective (hsha heq))
  rw [hdocId, hdocId'] at hid
  have hidentity := htext _ _ ((String.append_right_inj "inv:").mp hid)
  have hdocument := Option.some.inj (Dict.get?_congr hidentity "document")
  have hdigest : inv.snapshot.digest = inv'.snapshot.digest :=
    Json.str.inj (Option.some.inj (Dict.get?_congr hidentity "snapshot"))
  -- the digests are those of the rows and of the case
  rw [hsnap, hsnap'] at hdigest
  obtain ⟨hrows, hcase⟩ := (resultsJson_congr_iff hresults hresults').mp (htext _ _ hdigest)
  obtain ⟨_, _, -, hwithin⟩ := within_of_read hread
  obtain ⟨_, _, -, hwithin'⟩ := within_of_read hread'
  obtain ⟨hobservations, hfindings⟩ := (sameRows_iff hwithin hwithin' hcase).mp hrows
  have hne : ∀ {r : Reads} {results : List Result} {refs : List (List Json)},
      (selections r).mapM (resultOf env) = some results →
      results.mapM (fun r => sortedSet r.refs) = some refs → refs ≠ [] := by
    intro r results refs hresults hrefs hnil
    obtain ⟨-, _, _, _, _, rfl⟩ := exists_results hresults
    have hlen := (Option.mapM_eq_some_iff.mp hrefs).length_eq
    rw [hnil] at hlen
    cases hlen
  rw [hsnap] at hrefs hbody
  rw [hsnap'] at hrefs' hbody'
  rw [hbody, hbody'] at hdocument
  obtain ⟨htenant, hrequest⟩ := of_documentJson (hne hresults hrefs) (hne hresults' hrefs') hdocument
  exact ⟨htenant, hrequest, hobservations, hfindings, hcase⟩

/-! ### The order of the rows -/

theorem exists_mapM_of_perm {α β : Type} {f : α → Option β} {xs ys : List α} {zs : List β}
    (hperm : xs.Perm ys) (h : xs.mapM f = some zs) : ∃ ws, ys.mapM f = some ws ∧ zs.Perm ws := by
  induction hperm generalizing zs with
  | nil => exact ⟨zs, h, .refl zs⟩
  | cons x _ ih =>
    rw [List.mapM_cons] at h
    obtain ⟨z, hz, h⟩ := Option.bind_eq_some_iff.mp h
    obtain ⟨zs, hzs, h⟩ := Option.bind_eq_some_iff.mp h
    cases h
    obtain ⟨ws, hws, hperm⟩ := ih hzs
    exact ⟨z :: ws, by rw [List.mapM_cons, hz, hws]; rfl, hperm.cons z⟩
  | swap x y xs =>
    rw [List.mapM_cons, List.mapM_cons] at h
    obtain ⟨z, hz, h⟩ := Option.bind_eq_some_iff.mp h
    obtain ⟨zs', h', h⟩ := Option.bind_eq_some_iff.mp h
    obtain ⟨w, hw, h'⟩ := Option.bind_eq_some_iff.mp h'
    obtain ⟨ws, hws, h'⟩ := Option.bind_eq_some_iff.mp h'
    cases h'
    cases h
    exact ⟨w :: z :: ws, by rw [List.mapM_cons, List.mapM_cons, hz, hw, hws]; rfl, .swap w z ws⟩
  | trans _ _ ih ih' =>
    obtain ⟨ws, hws, hperm⟩ := ih h
    obtain ⟨us, hus, hperm'⟩ := ih' hws
    exact ⟨us, hus, hperm.trans hperm'⟩

/-- What `sorted` takes a value for: null, a text or a number. -/
def kind : Json → Option Nat
  | .null => some 0
  | .str _ => some 1
  | .arr _ | .obj _ => none
  | _ => some 2

theorem kind_eq_one {x : Json} : x.str?.isSome = true ↔ kind x = some 1 := by
  cases x <;> simp [kind, Json.str?]

theorem kind_eq_two {x : Json} : (number? x).isSome = true ↔ kind x = some 2 := by
  cases x <;> simp [kind, number?]

theorem kind_of_equals {x y : Json} (h : equals x y = true) : kind x = kind y := by
  unfold equals at h
  split at h
  · next hx hy => rw [kind_eq_two.mp (by rw [hx]; rfl), kind_eq_two.mp (by rw [hy]; rfl)]
  · rw [Json.eq_of_beq h]

theorem firsts_snoc (xs : List Json) (x : Json) : firsts (xs ++ [x]) =
    if (firsts xs).any (equals x) then firsts xs else firsts xs ++ [x] := by
  rw [firsts, List.foldl_append]
  rfl

theorem kind_firsts_iff {xs : List Json} {k : Option Nat} :
    (∀ y ∈ firsts xs, kind y = k) ↔ ∀ x ∈ xs, kind x = k := by
  induction xs using List.reverseRecOn with
  | nil => rfl
  | append_singleton xs x ih =>
    rw [firsts_snoc, List.forall_mem_append, ← ih, List.forall_mem_singleton]
    split
    · next hin =>
      obtain ⟨y, hy, heq⟩ := List.any_eq_true.mp hin
      exact ⟨fun h => ⟨h, (kind_of_equals heq).trans (h y hy)⟩, And.left⟩
    · rw [List.forall_mem_append, List.forall_mem_singleton]

theorem firsts_of_null {xs : List Json} (h : ∀ x ∈ xs, x = .null) :
    firsts xs = [] ∨ firsts xs = [.null] := by
  induction xs using List.reverseRecOn with
  | nil => exact .inl rfl
  | append_singleton xs x ih =>
    obtain ⟨hxs, hx⟩ := List.forall_mem_append.mp h
    rw [firsts_snoc, hx x (List.mem_singleton_self x)]
    rcases ih hxs with heq | heq <;> rw [heq] <;> exact .inr rfl

/-- Values of one kind can be sorted. -/
theorem isSome_sortedSet_iff {xs : List Json} :
    (sortedSet xs).isSome = true ↔ ∃ k, ∀ x ∈ xs, kind x = some k := by
  have hscalar : ∀ x : Json, isScalar x = (kind x).isSome := fun x => by cases x <;> rfl
  constructor
  · intro h
    unfold sortedSet at h
    dsimp only at h
    split_ifs at h with hall hfew htexts hnumbers
    · cases h
    · match hfirsts : firsts xs, hfew with
      | [], _ => exact ⟨0, kind_firsts_iff.mp (by simp [hfirsts])⟩
      | [y], _ =>
        have hkind : ∀ x ∈ xs, kind x = kind y := kind_firsts_iff.mp (by simp [hfirsts])
        cases hk : kind y with
        | some k => exact ⟨k, hk ▸ hkind⟩
        | none =>
          refine ⟨0, fun x hx => absurd hall ?_⟩
          have hnot : isScalar x = false := by rw [hscalar, hkind x hx, hk, Option.isSome_none]
          exact fun h => h (by simpa using ⟨x, hx, hnot⟩)
    · exact ⟨1, kind_firsts_iff.mp fun y hy => kind_eq_one.mp (List.all_eq_true.mp htexts y hy)⟩
    · exact ⟨2, kind_firsts_iff.mp fun y hy => kind_eq_two.mp (List.all_eq_true.mp hnumbers y hy)⟩
    · cases h
  · rintro ⟨k, hk⟩
    have hfirsts := kind_firsts_iff.mpr hk
    have hall : xs.all isScalar = true :=
      List.all_eq_true.mpr fun x hx => by rw [hscalar, hk x hx, Option.isSome_some]
    unfold sortedSet
    rw [if_neg (by rw [hall]; decide)]
    dsimp only
    split_ifs with hfew htexts hnumbers
    · rfl
    · rfl
    · rfl
    · -- neither texts nor numbers: nulls
      have hone : k ≠ 1 := fun h => htexts (List.all_eq_true.mpr fun y hy =>
        kind_eq_one.mpr (h ▸ hfirsts y hy))
      have htwo : k ≠ 2 := fun h => hnumbers (List.all_eq_true.mpr fun y hy =>
        kind_eq_two.mpr (h ▸ hfirsts y hy))
      have hnull : ∀ x ∈ xs, x = .null := by
        intro x hx
        have hkind := hk x hx
        cases x <;> simp_all [kind]
      rcases firsts_of_null hnull with heq | heq <;> simp [heq] at hfew

/-- A page of the evidence view in another order: it keeps the same rows, and
    a full one ends in a row with the same cursor. -/
structure PageReordered (rows rows' : List ViewRow) : Prop where
  kept : (rows.take PAGE_SIZE).Perm (rows'.take PAGE_SIZE)
  full : PAGE_SIZE < rows.length ↔ PAGE_SIZE < rows'.length
  cursor : PAGE_SIZE < rows.length →
    (rows.take PAGE_SIZE).getLast?.map (fun r => (r.normalizedTime, r.obsId)) =
      (rows'.take PAGE_SIZE).getLast?.map fun r => (r.normalizedTime, r.obsId)

/-- A page that is not full may come in any order. -/
theorem pageReordered_of_perm {rows rows' : List ViewRow} (h : rows.Perm rows')
    (hfew : rows.length ≤ PAGE_SIZE) : PageReordered rows rows' where
  kept := by rwa [List.take_of_length_le hfew, List.take_of_length_le (h.length_eq ▸ hfew)]
  full := by rw [h.length_eq]
  cursor hfull := absurd hfew (not_le.mpr hfull)

theorem PageReordered.symm {rows rows' : List ViewRow} (h : PageReordered rows rows') :
    PageReordered rows' rows :=
  ⟨h.kept.symm, h.full.symm, fun hfull => (h.cursor (h.full.mpr hfull)).symm⟩

/-- The backends answer the same rows, in another order. -/
structure Reordered (src src' : Sources) : Prop where
  view : ∀ tenant entity frm stop after,
    Option.Rel PageReordered (src.view tenant entity frm stop after) (src'.view tenant entity frm stop after)
  findings : ∀ tenant entity frm stop,
    Option.Rel List.Perm (src.finding tenant entity frm stop) (src'.finding tenant entity frm stop)
  caseDocument : src.caseDocument = src'.caseDocument

theorem exists_of_rel {α : Type} {R : α → α → Prop} {o o' : Option α} (h : Option.Rel R o o')
    {x : α} (hx : o = some x) : ∃ y, o' = some y ∧ R x y := by
  cases h with
  | some hrel =>
    cases hx
    exact ⟨_, rfl, hrel⟩
  | none => cases hx

theorem Reordered.symm (h : Reordered src src') : Reordered src' src := by
  have hsymm : ∀ {α : Type} {R : α → α → Prop} {o o' : Option α}, (∀ {x y}, R x y → R y x) →
      Option.Rel R o o' → Option.Rel R o' o := by
    intro α R o o' hR hrel
    cases hrel with
    | some hrel => exact .some (hR hrel)
    | none => exact .none
  exact ⟨fun t e f s a => hsymm PageReordered.symm (h.view t e f s a),
    fun t e f s => hsymm List.Perm.symm (h.findings t e f s), h.caseDocument.symm⟩

theorem fetchObservations_reordered (h : Reordered src src') {frm stop : Int} {after : String}
    {page : List Dict} {next : Option (Int × String)}
    (hpage : fetchObservations src tenant request frm stop after = some (page, next)) :
    ∃ page', fetchObservations src' tenant request frm stop after = some (page', next) ∧
      page.Perm page' := by
  obtain ⟨oneDay, hday, hpage⟩ := Option.bind_eq_some_iff.mp hpage
  obtain ⟨rows, hrows, hpage⟩ := Option.bind_eq_some_iff.mp hpage
  obtain ⟨observations, hobs, hpage⟩ := Option.bind_eq_some_iff.mp hpage
  obtain ⟨capabilities, hcap, hpage⟩ := Option.bind_eq_some_iff.mp hpage
  obtain ⟨sorted, hsorted, hpage⟩ := Option.bind_eq_some_iff.mp hpage
  obtain ⟨rfl, rfl⟩ := Prod.mk.inj (Option.some.inj hpage)
  obtain ⟨rows', hrows', hsame⟩ := exists_of_rel (h.view ..) hrows
  obtain ⟨observations', hobs', hperm⟩ := exists_mapM_of_perm hsame.kept hobs
  obtain ⟨capabilities', hcap', hpermCap⟩ := exists_mapM_of_perm hperm hcap
  obtain ⟨sorted', hsorted'⟩ : ∃ sorted', sortedSet capabilities'.flatten = some sorted' := by
    obtain ⟨k, hk⟩ := isSome_sortedSet_iff.mp (by rw [hsorted]; rfl)
    exact Option.isSome_iff_exists.mp (isSome_sortedSet_iff.mpr
      ⟨k, fun x hx => hk x (hpermCap.flatten.mem_iff.mpr hx)⟩)
  refine ⟨observations', ?_, hperm⟩
  have hnext : ∀ other : Option (Int × String), (if PAGE_SIZE < rows'.length then
      (rows'.take PAGE_SIZE).getLast?.map (fun r => (r.normalizedTime, r.obsId)) else other) =
      if PAGE_SIZE < rows.length then
        (rows.take PAGE_SIZE).getLast?.map (fun r => (r.normalizedTime, r.obsId)) else other := by
    intro other
    by_cases hfull : PAGE_SIZE < rows.length
    · rw [if_pos hfull, if_pos (hsame.full.mp hfull), hsame.cursor hfull]
    · rw [if_neg hfull, if_neg (mt hsame.full.mpr hfull)]
  simp [fetchObservations, hday, hrows', hobs', hcap', hsorted', hnext]

/-- **The paging loop collects the same rows**, in another order. -/
theorem gather_reordered (h : Reordered src src') {stop frm : Int} {pages : Nat} {after : String}
    {rows rows' found : List Dict} (hrows : rows.Perm rows')
    (hfound : gather src tenant request stop pages frm after rows = some (some found)) :
    ∃ found', gather src' tenant request stop pages frm after rows' = some (some found') ∧
      found.Perm found' := by
  induction pages generalizing frm after rows rows' with
  | zero => cases hfound
  | succ pages ih =>
    unfold gather at hfound ⊢
    cases hfetch : fetchObservations src tenant request frm stop after with
    | none =>
      rw [hfetch] at hfound
      cases hfound
    | some result =>
      obtain ⟨page, next⟩ := result
      obtain ⟨page', hfetch', hpage⟩ := fetchObservations_reordered h hfetch
      have hperm := hrows.append hpage
      rw [hfetch] at hfound
      rw [hfetch']
      dsimp only at hfound ⊢
      rw [← hperm.length_eq]
      split at hfound
      · cases hfound
      · next hfew =>
        rw [if_neg hfew]
        cases next with
        | none =>
          cases hfound
          exact ⟨_, rfl, hperm⟩
        | some next =>
          dsimp only at hfound ⊢
          split at hfound
          · cases hfound
          · next hmoves =>
            rw [if_neg hmoves]
            exact ih hperm hfound

theorem observations_reordered (h : Reordered src src') {rows : List Dict}
    (hrows : observations env src tenant request = some rows) :
    ∃ rows', observations env src' tenant request = some rows' ∧ rows.Perm rows' := by
  obtain ⟨⟨frm, stop⟩, hwindow, hrows⟩ := Option.bind_eq_some_iff.mp hrows
  have hgather : gather src tenant request stop MAX_PAGES frm "" [] = some (some rows) := by
    rcases Option.getD_eq_iff.mp hrows with hgather | ⟨-, hnone⟩
    · exact hgather
    · cases hnone
  obtain ⟨rows', hgather', hperm⟩ := gather_reordered h (.refl []) hgather
  refine ⟨rows', ?_, hperm⟩
  rw [observations, hwindow]
  show (gather src' tenant request stop MAX_PAGES frm "" []).getD none = _
  rw [hgather', Option.getD_some]

theorem findings_reordered (h : Reordered src src') {rows : List Dict}
    (hrows : findings env src tenant request = some rows) :
    ∃ rows', findings env src' tenant request = some rows' ∧ rows.Perm rows' := by
  obtain ⟨⟨frm, stop⟩, hwindow, hrows⟩ := Option.bind_eq_some_iff.mp hrows
  obtain ⟨raw, hraw, hrows⟩ := Option.bind_eq_some_iff.mp hrows
  obtain ⟨raw', hraw', hperm⟩ := exists_of_rel (h.findings ..) hraw
  obtain ⟨hfew, hshaped⟩ := Option.ite_none_left_eq_some.mp hrows
  obtain ⟨rows', hrows', hperm'⟩ := exists_mapM_of_perm hperm hshaped
  refine ⟨rows', ?_, hperm'⟩
  rw [findings, hwindow]
  show (src'.finding tenant request.entityId frm stop).bind _ = _
  rw [hraw', Option.bind_some, if_neg (hperm.length_eq ▸ hfew), hrows']

theorem read_reordered (h : Reordered src src') {r : Reads}
    (hread : read env src tenant request = some r) :
    ∃ r', read env src' tenant request = some r' ∧ r.observations.Perm r'.observations ∧
      r.findings.Perm r'.findings ∧ r'.caseDocument = r.caseDocument := by
  obtain ⟨dns, hdns, hread⟩ := Option.bind_eq_some_iff.mp hread
  obtain ⟨found, hfound, hread⟩ := Option.bind_eq_some_iff.mp hread
  obtain ⟨⟨frm, stop⟩, hwindow, hread⟩ := Option.bind_eq_some_iff.mp hread
  obtain ⟨ids, hids, hread⟩ := Option.bind_eq_some_iff.mp hread
  obtain ⟨dns', hdns', hpermDns⟩ := observations_reordered h hdns
  obtain ⟨found', hfound', hpermFound⟩ := findings_reordered h hfound
  obtain ⟨ids', hids', hpermIds⟩ := exists_mapM_of_perm hpermFound hids
  obtain ⟨hchecks, hread⟩ := Option.ite_none_right_eq_some.mp hread
  have hamong : among request.findingIds ids' = among request.findingIds ids := by
    rw [among, among, hpermIds.all_eq]
    congr 2
    funext id
    exact hpermIds.symm.any_eq
  rw [(hpermDns.append hpermFound).all_eq, hpermDns.all_eq, hpermFound.all_eq, ← hamong] at hchecks
  obtain ⟨doc, hdoc, rfl⟩ := Option.map_eq_some_iff.mp hread
  refine ⟨⟨dns', found', doc⟩, ?_, hpermDns, hpermFound, rfl⟩
  have hdoc' : readCase src' tenant request = some doc := by
    rw [← hdoc, readCase, readCase, h.caseDocument]
  rw [read, hdns', hfound', hwindow]
  show (found'.mapM fun f : Dict => f.get? "finding_id").bind _ = _
  rw [hids', Option.bind_some, if_pos hchecks, hdoc', Option.map_some]

theorem document_of_reordered (h : Reordered src src') {value : Json} {inv : Investigation}
    (hinv : investigate env src tenant value = some inv) :
    ∃ inv', investigate env src' tenant value = some inv' ∧ inv'.document = inv.document := by
  obtain ⟨hrequest, hread, hsnapshot, hrun⟩ := investigate_spec hinv
  obtain ⟨r', hread', hdns, hfound, hcase⟩ := read_reordered h hread
  have hselect : selectable r' = true := by
    have hselect := (snapshotOf_spec hsnapshot).1
    rw [selectable, hfound.all_eq] at hselect
    rwa [selectable, hcase]
  have hrows : SameRows (selections inv.reads) (selections r') := by
    have hforms : ∀ {rows rows' : List Dict}, rows.Perm rows' → (forms rows).Perm (forms rows') :=
      fun hperm => hperm.map _
    refine .cons (hforms hdns) (.cons (hforms (hfound.filter _))
      (.cons (hforms (hfound.filter _)) (.cons ?_ .nil)))
    rw [hcase]
    exact hforms (hfound.filter _)
  obtain ⟨s, hs, hsame⟩ := snapshotOf_congr hsnapshot hselect hrows (by
    rw [Reads.caseForm, Reads.caseForm, hcase])
  rw [run_congr hsame] at hrun
  refine ⟨⟨inv.request, r', s, inv.document⟩, ?_, rfl⟩
  rw [investigate, hrequest]
  show (read env src' tenant inv.request).bind _ = _
  rw [hread', Option.bind_some]
  show (snapshotOf env tenant inv.request r').bind _ = _
  rw [hs, Option.bind_some]
  show (run env s).bind _ = _
  rw [hrun]
  rfl

/-- **The order of the rows has no part in the document.** -/
theorem document_reordered (h : Reordered src src') (value : Json) :
    (investigate env src tenant value).map Investigation.document =
      (investigate env src' tenant value).map Investigation.document := by
  have hle : ∀ {src src' : Sources}, Reordered src src' → ∀ d,
      (investigate env src tenant value).map Investigation.document = some d →
      (investigate env src' tenant value).map Investigation.document = some d := by
    intro src src' h d hd
    obtain ⟨inv, hinv, rfl⟩ := Option.map_eq_some_iff.mp hd
    obtain ⟨inv', hinv', hdoc⟩ := document_of_reordered h hinv
    rw [hinv', Option.map_some, hdoc]
  exact Option.ext fun d => ⟨hle h d, hle h.symm d⟩

/-! ### The rows of a snapshot -/

/-- The rows of a snapshot are of the tenant, the entity and the window: the
    observations are inside of it, the findings overlap it. -/
def Confined (env : Env) (tenant : String) (request : Request) (s : Snapshot) : Prop :=
  ∃ frm stop, parseWindow env (.str request.frm) (.str request.stop) = some (frm, stop) ∧
    ∀ step ∈ STEPS.zip s.results, ∀ row ∈ step.2.records,
      ofEntity tenant request.entityId row = true ∧
        if step.1.2 = "evidence.dns" then inWindow env frm stop row = true
        else overlaps env frm stop row = true

theorem confined_of_investigate {value : Json} {inv : Investigation}
    (h : investigate env src tenant value = some inv) :
    Confined env tenant inv.request inv.snapshot := by
  obtain ⟨-, hread, hsnapshot, -⟩ := investigate_spec h
  obtain ⟨frm, stop, hwindow, hwithin⟩ := within_of_read hread
  obtain ⟨-, results, hresults, hsnap⟩ := snapshotOf_spec hsnapshot
  obtain ⟨hall, dns, beacon, intel, history, rfl⟩ := exists_results hresults
  refine ⟨frm, stop, hwindow, ?_⟩
  have hmem : ∀ {rows : List Dict} {result : Result}, resultOf env rows = some result →
      ∀ row ∈ result.records, row ∈ rows := by
    intro rows result hresult row hrow
    rw [(resultOf_spec hresult).1] at hrow
    exact (List.perm_insertionSort _ _).mem_iff.mp hrow
  simp only [selections, List.forall₂_cons, List.forall₂_nil_left_iff, and_true] at hall
  obtain ⟨hd, hb, hi, hh⟩ := hall
  have hfinding : ∀ {p : Dict → Bool} {result : Result},
      resultOf env (inv.reads.findings.filter p) = some result → ∀ row ∈ result.records,
        ofEntity tenant inv.request.entityId row = true ∧ overlaps env frm stop row = true := by
    intro p result hresult row hrow
    have hrow' := (List.mem_filter.mp (hmem hresult row hrow)).1
    exact ⟨hwithin.rows row (List.mem_append_right _ hrow'), hwithin.findings row hrow'⟩
  rw [hsnap]
  simp only [STEPS, List.zip_cons_cons, List.zip_nil_right, List.mem_cons, List.not_mem_nil, or_false]
  rintro step (rfl | rfl | rfl | rfl) row hrow
  · have hrow' := hmem hd row hrow
    exact ⟨hwithin.rows row (List.mem_append_left _ hrow'), hwithin.observations row hrow'⟩
  · exact hfinding hb row hrow
  · exact hfinding hi row hrow
  · exact hfinding hh row hrow

/-! ### The claim of an id -/

/-- The same rows but for one of them. -/
def OneChanged (rows rows' : List Dict) : Prop :=
  ∃ x y rest, x ≠ y ∧ (forms rows).Perm (x :: rest) ∧ (forms rows').Perm (y :: rest)

theorem not_perm_of_oneChanged {rows rows' : List Dict} (h : OneChanged rows rows') :
    ¬ (forms rows).Perm (forms rows') := by
  obtain ⟨x, y, rest, hne, hx, hy⟩ := h
  intro hperm
  have hmem : (x :: rest).Perm (y :: rest) := hx.symm.trans (hperm.trans hy)
  have hcons : [x].Perm [y] := (List.perm_append_right_iff rest).mp hmem
  exact hne (List.singleton_perm_singleton.mp hcons)

/-- **An id is the content.** Two investigations have one id exactly when they
    have the same content, so that a row that changed changes the id; the order
    of the findings and of the rows of a page has no part in the document, when
    a full page ends at the same cursor; and the snapshot holds rows of the
    tenant, the entity and the window only. -/
theorem identity_content (hsha : Function.Injective env.sha256) :
    (∀ src src' tenant tenant' value value' inv inv', investigate env src tenant value = some inv →
      investigate env src' tenant' value' = some inv' →
        (inv.document.investigationId = inv'.document.investigationId ↔
          SameContent tenant tenant' inv inv') ∧
        (OneChanged inv.reads.observations inv'.reads.observations ∨
            OneChanged inv.reads.selected inv'.reads.selected →
          inv.document.investigationId ≠ inv'.document.investigationId)) ∧
    (∀ src src', Reordered src src' → ∀ tenant value,
      (investigate env src tenant value).map Investigation.document =
        (investigate env src' tenant value).map Investigation.document) ∧
    ∀ src tenant value inv, investigate env src tenant value = some inv →
      Confined env tenant inv.request inv.snapshot := by
  refine ⟨?_, fun src src' h tenant value => document_reordered h value,
    fun src tenant value inv h => confined_of_investigate h⟩
  intro src src' tenant tenant' value value' inv inv' h h'
  refine ⟨⟨sameContent_of_id hsha h h', fun hsame => ?_⟩, fun hchanged hid => ?_⟩
  · rw [document_of_sameContent h h' hsame]
  · have hsame := sameContent_of_id hsha h h' hid
    rcases hchanged with hchanged | hchanged
    · exact not_perm_of_oneChanged hchanged hsame.observations
    · exact not_perm_of_oneChanged hchanged hsame.findings

section Sample

def sampleTimes : List (String × Int) := [("2026-09-01T00:00:00Z", 0), ("2026-09-01T01:00:00Z", 3600000000)]

def sampleEnv : Env where
  parseTs v := v.str?.bind fun s => sampleTimes.lookup s
  iso t := if t = 0 then "2026-09-01T00:00:00Z" else "2026-09-01T01:00:00Z"
  sha256 := String.ofList
  dumpsRoom := 100

def sampleRequest : Json :=
  .obj [("entity_id", .str "198.51.100.7"), ("finding_ids", .arr [.str "f1"]),
    ("reason", .str "review"),
    ("window", .obj [("from", .str "2026-09-01T00:00:00Z"), ("to", .str "2026-09-01T01:00:00Z")])]

def sampleFinding (id detector : String) : Dict :=
  [("finding_id", .str id), ("tenant_id", .str "a"), ("detector_id", .str detector),
    ("first_seen", .str "2026-09-01T00:00:00Z"), ("last_seen", .str "2026-09-01T00:00:00Z"),
    ("entities", .arr [.obj [("value", .str "198.51.100.7")]]), ("revision", .int 1)]

/-- A row of the evidence view, of a lookup. -/
def sampleRow (id obsId : String) : ViewRow :=
  ⟨id, 0, .obj [("obs_id", .str obsId), ("type", .str "dns"), ("tenant", .str "a"),
    ("ts", .obj [("normalized", .str "2026-09-01T00:00:00Z")]),
    ("entities", .arr [.obj [("value", .str "198.51.100.7")]])]⟩

/-- Backends over tables of rows and findings, with the order of a page. -/
def sampleSources (order : List ViewRow → List ViewRow) (rows : List ViewRow) (found : List Dict) :
    Sources where
  view _ _ _ _ after := some (order ((rows.filter fun r => after < r.obsId).take (PAGE_SIZE + 1)))
  finding _ _ _ _ := some found
  caseDocument _ _ := none

def forwards : Sources := sampleSources id [sampleRow "o1" "o1", sampleRow "o2" "o2"]
  [sampleFinding "f1" "beacon", sampleFinding "f2" "port_scan"]

def backwards : Sources := sampleSources List.reverse [sampleRow "o1" "o1", sampleRow "o2" "o2"]
  [sampleFinding "f2" "port_scan", sampleFinding "f1" "beacon"]

/-- Two findings and two observations in either order make one document. -/
theorem sample_identity :
    (investigate sampleEnv forwards "a" sampleRequest).map Investigation.document =
      (investigate sampleEnv backwards "a" sampleRequest).map Investigation.document ∧
    (investigate sampleEnv forwards "a" sampleRequest).map (·.reads.observations.length) = some 2 := by
  refine ⟨(@identity_content sampleEnv fun a b h => String.ofList_injective h).2.1 _ _ ?_ _ _,
    by decide +kernel⟩
  refine ⟨fun _ _ _ _ after => ?_, fun _ _ _ _ => .some (.swap _ _ _), rfl⟩
  refine .some (pageReordered_of_perm (List.reverse_perm _).symm ?_)
  exact (List.length_take_le' _ _).trans ((List.length_filter_le _ _).trans (by decide))

/-- A full page and one row more, of one lookup; `order` is the order of a page. -/
def fullSources (order : List ViewRow → List ViewRow) : Sources := sampleSources order
  ((List.range 1001).map fun n => sampleRow (String.ofList [Char.ofNat (1000 + n)]) "o1")
  [sampleFinding "f1" "beacon"]

/-- The first row comes last. -/
def rotated (rows : List ViewRow) : List ViewRow := rows.drop 1 ++ rows.take 1

set_option maxRecDepth 100000 in
/-- A full page whose first row comes last ends at that row, and loses it. -/
theorem full_page_rotated : Function.Injective sampleEnv.sha256 ∧
    (∀ tenant entity frm stop after, Option.Rel List.Perm
      ((fullSources id).view tenant entity frm stop after)
      ((fullSources rotated).view tenant entity frm stop after)) ∧
    (investigate sampleEnv (fullSources id) "a" sampleRequest).map Investigation.document ≠
      (investigate sampleEnv (fullSources rotated) "a" sampleRequest).map Investigation.document := by
  have hsha : Function.Injective sampleEnv.sha256 := fun a b h => String.ofList_injective h
  have hperm : ∀ rows, List.Perm rows (rotated rows) := fun rows =>
    (List.Perm.of_eq (List.take_append_drop 1 rows).symm).trans List.perm_append_comm
  refine ⟨hsha, fun _ _ _ _ _ => .some (hperm _), fun heq => ?_⟩
  have hlen : (investigate sampleEnv (fullSources id) "a" sampleRequest).map
      (·.reads.observations.length) = some 1001 := by decide +kernel
  have hlen' : (investigate sampleEnv (fullSources rotated) "a" sampleRequest).map
      (·.reads.observations.length) = some 1000 := by decide +kernel
  obtain ⟨inv, hinv, hlen⟩ := Option.map_eq_some_iff.mp hlen
  obtain ⟨inv', hinv', hlen'⟩ := Option.map_eq_some_iff.mp hlen'
  rw [hinv, hinv', Option.map_some, Option.map_some, Option.some.injEq] at heq
  have hsame := (sameContent_of_id hsha hinv hinv' (congrArg _ heq)).observations.length_eq
  rw [forms, forms, List.length_map, List.length_map, hlen, hlen'] at hsame
  cases hsame

end Sample

end InvestigationService
