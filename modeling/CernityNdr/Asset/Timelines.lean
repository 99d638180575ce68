import CernityNdr.Asset.Evidence
import CernityNdr.Framework.Timeline

/-! # Interval Lists of Folded Facts

    Any number of `fold_facts` calls over candidates of `derive_facts`, from
    an empty state. The interval list of a subject and predicate depends on
    the set of its candidates only, and it is the history that the candidates
    describe: at every instant the value of the winner among the candidates
    of the latest timestamp.

    The loop of `_rebuild` carries one invariant (`Walk`): the drafts are a
    timeline, and at every instant they have the value of the latest item. -/

namespace AssetService

open Timeline

/-! ### Calls -/

/-- One call of `fold_facts`. -/
structure FoldCall where
  subject : String
  cands : List Candidate

/-- What the call returns: the list of each predicate it touches. -/
def FoldCall.touched (state : FactState) (call : FoldCall) :
    List (Predicate × List FactInterval) :=
  (touchedPredicates call.cands).map fun pred =>
    (pred, rebuildIntervals (foldFacts state call.subject call.cands call.subject pred))

/-- The state, with the list each subject and predicate was given last. -/
structure Folded where
  state : FactState
  lists : String → Predicate → Option (List FactInterval)

def Folded.init : Folded := ⟨fun _ _ => .empty, fun _ _ => none⟩

/-- One call. -/
def Folded.call (f : Folded) (call : FoldCall) : Folded where
  state := foldFacts f.state call.subject call.cands
  lists := fun s pred =>
    if s = call.subject then ((call.touched f.state).lookup pred).or (f.lists s pred)
    else f.lists s pred

/-- A sequence of calls, first one first. -/
def foldCalls (calls : List FoldCall) : Folded := calls.foldl Folded.call .init

/-- The list of a subject and predicate after the calls, empty if no call
    touched it. -/
def finalList (calls : List FoldCall) (s : String) (pred : Predicate) : List FactInterval :=
  ((foldCalls calls).lists s pred).getD []

/-- Every candidate is one of `derive_facts`. -/
def Derived (calls : List FoldCall) : Prop :=
  ∀ call ∈ calls, ∀ c ∈ call.cands, ∃ obs obsId ts, c ∈ deriveFacts obs obsId ts

/-- The evidence of the calls: the candidates, each under its subject. -/
def evidenceOf (calls : List FoldCall) : List (String × Candidate) :=
  calls.flatMap fun call => call.cands.map fun c => (call.subject, c)

/-! ### What the list of a predicate says -/

/-- `resolve_conflict`: the least candidate, the first of equal ones. -/
def resolveConflicts : List Candidate → Option Candidate
  | [] => none
  | c :: cs => some (cs.foldl resolveConflict c)

/-- The candidates at the greatest timestamp that is at most `t`. -/
def latestCands (cs : List Candidate) (t : Instant) : List Candidate :=
  cs.filter fun c => c.validFrom.instant ≤ t ∧
    ∀ d ∈ cs, d.validFrom.instant ≤ t → d.validFrom.instant ≤ c.validFrom.instant

/-- The instant is in the half-open interval. -/
def FactInterval.Holds (iv : FactInterval) (t : Instant) : Prop :=
  iv.validFrom.instant ≤ t ∧ ∀ e, iv.validTo = some e → t < e.instant

/-- The intervals are the history that the candidates describe. -/
structure IsHistory (cs : List Candidate) (ivs : List FactInterval) : Prop where
  sorted : ivs.Pairwise fun a b => a.validFrom.instant < b.validFrom.instant
  nonempty : ∀ iv ∈ ivs, ∀ e, iv.validTo = some e → iv.validFrom.instant < e.instant
  disjoint : ivs.Pairwise fun a b => ∀ t, ¬ (a.Holds t ∧ b.Holds t)
  changes : ivs.IsChain fun a b => a.value ≠ b.value
  othersClosed : ∀ iv ∈ ivs.dropLast, iv.validTo ≠ none
  lastOpen : ∀ iv, ivs.getLast? = some iv → iv.validTo = none
  valued : ∀ t, (∃ c ∈ cs, c.validFrom.instant ≤ t) → ∃ iv ∈ ivs, iv.Holds t ∧
    ∃ w, resolveConflicts (latestCands cs t) = some w ∧ iv.value = w.value

/-! ### The state after the calls -/

theorem state_foldCalls (calls : List FoldCall) (s : String) (pred : Predicate) :
    (foldCalls calls).state s pred =
      (candsOf (evidenceOf calls) s pred).foldl foldCandidate .empty := by
  induction calls using List.reverseRecOn with
  | nil => rfl
  | append_singleton calls call ih =>
    have hlast : foldCalls (calls ++ [call]) = (foldCalls calls).call call := by
      simp [foldCalls]
    have hev : evidenceOf (calls ++ [call]) =
        evidenceOf calls ++ call.cands.map fun c => (call.subject, c) := by
      simp [evidenceOf]
    rw [hlast, hev, candsOf_append, List.foldl_append, ← ih]
    show foldFacts (foldCalls calls).state call.subject call.cands s pred = _
    by_cases hs : s = call.subject
    · subst hs
      rw [foldFacts_self]
      congr 1
      simp [candsOf, List.filter_map, Function.comp_def]
    · rw [foldFacts_ne hs]
      have hnone : candsOf (call.cands.map fun c => (call.subject, c)) s pred = [] := by
        rw [List.eq_nil_iff_forall_not_mem]
        intro c hc
        obtain ⟨c', -, heq⟩ := List.mem_map.mp (mem_candsOf.mp hc).1
        exact hs (congrArg Prod.fst heq).symm
      rw [hnone, List.foldl_nil]

theorem lookup_touched (state : FactState) (call : FoldCall) (pred : Predicate) :
    (call.touched state).lookup pred =
      if pred ∈ touchedPredicates call.cands then
        some (rebuildIntervals (foldFacts state call.subject call.cands call.subject pred))
      else none := by
  unfold FoldCall.touched
  induction touchedPredicates call.cands with
  | nil => simp
  | cons p ps ih =>
    rw [List.map_cons, List.lookup_cons]
    by_cases hp : pred = p
    · subst hp
      simp
    · have hbeq : (pred == p) = false := by simpa using hp
      rw [hbeq, ih]
      simp [hp]

/-- The last list is rebuilt from the current winners. -/
theorem lists_foldCalls (calls : List FoldCall) (s : String) (pred : Predicate) :
    ((foldCalls calls).lists s pred).getD [] =
      rebuildIntervals ((foldCalls calls).state s pred) := by
  induction calls using List.reverseRecOn with
  | nil => exact (rebuildIntervals_of_empty rfl).symm
  | append_singleton calls call ih =>
    have hlast : foldCalls (calls ++ [call]) = (foldCalls calls).call call := by
      simp [foldCalls]
    rw [hlast]
    show Option.getD (if s = call.subject then
        ((call.touched (foldCalls calls).state).lookup pred).or ((foldCalls calls).lists s pred)
      else (foldCalls calls).lists s pred) [] =
      rebuildIntervals (foldFacts (foldCalls calls).state call.subject call.cands s pred)
    by_cases htouch : s = call.subject ∧ pred ∈ touchedPredicates call.cands
    · obtain ⟨rfl, hpred⟩ := htouch
      rw [if_pos rfl, lookup_touched, if_pos hpred]
      rfl
    · rw [foldFacts_untouched htouch, ← ih]
      by_cases hs : s = call.subject
      · rw [if_pos hs, lookup_touched, if_neg fun hpred => htouch ⟨hs, hpred⟩]
        rfl
      · rw [if_neg hs]

theorem finalList_eq (calls : List FoldCall) (s : String) (pred : Predicate) :
    finalList calls s pred =
      rebuildIntervals (Registry.leasts Candidate.validFrom conflictKey
        (candsOf (evidenceOf calls) s pred)) := by
  unfold finalList
  rw [lists_foldCalls, state_foldCalls, foldCandidate_eq]
  rfl

theorem fromEvidence_evidenceOf {calls : List FoldCall} (h : Derived calls) :
    FromEvidence (evidenceOf calls) := by
  intro k hk
  obtain ⟨call, hcall, hk⟩ := List.mem_flatMap.mp hk
  obtain ⟨c, hc, rfl⟩ := List.mem_map.mp hk
  obtain ⟨obs, obsId, ts, hc⟩ := h call hcall c hc
  exact ⟨⟨obs, obsId, ts⟩, hc⟩

/-! ### The walk of `_rebuild` -/

def Draft.start (d : Draft) : Instant := d.interval.validFrom.instant

def Draft.stop (d : Draft) : Option Instant := d.interval.validTo.map Iso.instant

def Candidate.start (c : Candidate) : Instant := c.validFrom.instant

/-- The invariant of the walk over the sorted items. -/
structure Walk (items : List Candidate) (drafts : List Draft) : Prop where
  chained : Chained Draft.start Draft.stop drafts
  unbounded : ∀ d ∈ drafts, d.expires = none
  changes : drafts.IsChain fun a b => a.interval.value ≠ b.interval.value
  started : ∀ d ∈ drafts, ∃ c ∈ items, d.start = c.start
  valued : ∀ t, (latest Draft.start drafts t).map (fun d => d.interval.value) =
    (latest Candidate.start items t).map Candidate.value

variable {items : List Candidate} {init : List Draft} {cur : Draft} {c : Candidate} {t : Instant}

@[simp] theorem start_opened (c : Candidate) : (Draft.opened c).start = c.start := by
  simp [Draft.opened, Draft.start, Candidate.start]

/-- An open draft without a lease bound is closed where the next one starts. -/
theorem close_of_open (hopen : cur.stop = none) (hexp : cur.expires = none) :
    (cur.close c.start).start = cur.start ∧ (cur.close c.start).stop = some c.start ∧
      (cur.close c.start).interval.value = cur.interval.value ∧
      (cur.close c.start).expires = none := by
  have hto : cur.interval.validTo = none := by simpa [Draft.stop] using hopen
  unfold Draft.close
  rw [if_pos hto, hexp]
  refine ⟨rfl, ?_, rfl, rfl⟩
  simp [Draft.stop, Candidate.start]

/-- A change opens a draft when it does not continue the last one. -/
theorem continues_iff (hopen : cur.stop = none) (hexp : cur.expires = none) :
    cur.continues c = true ↔ cur.interval.value = c.value := by
  have hto : cur.interval.validTo = none := by simpa [Draft.stop] using hopen
  simp [Draft.continues, hto, hexp]

theorem latest_snoc_value {d d' : Draft} (hstart : d'.start = d.start)
    (hvalue : d'.interval.value = d.interval.value) (t : Instant) :
    (latest Draft.start (init ++ [d']) t).map (fun d => d.interval.value) =
      (latest Draft.start (init ++ [d]) t).map (fun d => d.interval.value) := by
  rw [latest_snoc, latest_snoc, hstart]
  split
  · exact congrArg some hvalue
  · rfl

/-- The last draft has started when a later item comes. -/
theorem latest_last (hlt : cur.start < c.start) (ht : c.start ≤ t) :
    latest Draft.start (init ++ [cur]) t = some cur := by
  rw [latest_snoc, if_pos (hlt.le.trans ht)]

/-- One round. -/
theorem Walk.step {drafts : List Draft} (h : Walk items drafts) (hexp : c.expires = none)
    (hlater : ∀ x ∈ items, x.start < c.start) : Walk (items ++ [c]) (rebuildStep drafts c) := by
  rcases List.eq_nil_or_concat drafts with rfl | ⟨init, cur, rfl⟩
  · -- the first draft
    refine ⟨.singleton rfl, ?_, List.isChain_singleton _, ?_, ?_⟩
    · intro d hd
      obtain rfl := List.mem_singleton.mp hd
      exact hexp
    · intro d hd
      obtain rfl := List.mem_singleton.mp hd
      exact ⟨c, by simp, start_opened c⟩
    · intro t
      show (latest Draft.start ([] ++ [Draft.opened c]) t).map _ = _
      rw [latest_snoc, latest_snoc, start_opened]
      split
      · rfl
      · exact h.valued t
  · rw [List.concat_eq_append] at h ⊢
    have hopen : cur.stop = none := h.chained.2 cur (by simp)
    have hcurexp : cur.expires = none := h.unbounded cur (by simp)
    obtain ⟨x, hx, hcurx⟩ := h.started cur (by simp)
    have hlt : cur.start < c.start := hcurx ▸ hlater x hx
    have hround : rebuildStep (init ++ [cur]) c =
        if cur.continues c then init ++ [cur.renew c]
        else init ++ [cur.close c.start, Draft.opened c] := by
      simp [rebuildStep, Candidate.start]
    rw [hround]
    obtain ⟨hinit, -, hlink⟩ := List.isChain_append.mp h.changes
    by_cases hval : cur.interval.value = c.value
    · rw [if_pos ((continues_iff hopen hcurexp).mpr hval)]
      have hrenew : (cur.renew c).expires = none := by
        unfold Draft.renew
        rw [hexp]
        exact hcurexp
      refine ⟨h.chained.replace rfl hopen, ?_, ?_, ?_, ?_⟩
      · intro d hd
        rcases List.mem_append.mp hd with hd | hd
        · exact h.unbounded d (by simp [hd])
        · rw [List.mem_singleton.mp hd]
          exact hrenew
      · refine List.isChain_append.mpr ⟨hinit, List.isChain_singleton _, ?_⟩
        intro a ha b hb
        obtain rfl : cur.renew c = b := by simpa using hb
        exact hlink a ha cur (by simp)
      · intro d hd
        rcases List.mem_append.mp hd with hd | hd
        · obtain ⟨y, hy, heq⟩ := h.started d (by simp [hd])
          exact ⟨y, by simp [hy], heq⟩
        · rw [List.mem_singleton.mp hd]
          exact ⟨x, by simp [hx], hcurx⟩
      · intro t
        have hsame : (cur.renew c).start = cur.start := rfl
        rw [latest_snoc_value hsame rfl, latest_snoc items]
        split
        · next ht =>
          rw [latest_last hlt ht]
          exact congrArg some hval
        · exact h.valued t
    · rw [if_neg fun hc => hval ((continues_iff hopen hcurexp).mp hc)]
      obtain ⟨hstart, hstop, hvalue, hclosed⟩ := close_of_open (c := c) hopen hcurexp
      have hlinked : Chained Draft.start Draft.stop
          (init ++ [cur.close c.start, Draft.opened c]) :=
        h.chained.snoc hstart (by rw [hstop, start_opened]) (by rw [start_opened]; exact hlt) rfl
      refine ⟨hlinked, ?_, ?_, ?_, ?_⟩
      · intro d hd
        rcases List.mem_append.mp hd with hd | hd
        · exact h.unbounded d (by simp [hd])
        · rcases List.mem_cons.mp hd with rfl | hd
          · exact hclosed
          · rw [List.mem_singleton.mp hd]
            exact hexp
      · refine List.isChain_append.mpr ⟨hinit, List.isChain_pair.mpr ?_, ?_⟩
        · rw [hvalue]
          exact hval
        · intro a ha b hb
          obtain rfl : cur.close c.start = b := by simpa using hb
          rw [hvalue]
          exact hlink a ha cur (by simp)
      · intro d hd
        rcases List.mem_append.mp hd with hd | hd
        · obtain ⟨y, hy, heq⟩ := h.started d (by simp [hd])
          exact ⟨y, by simp [hy], heq⟩
        · rcases List.mem_cons.mp hd with rfl | hd
          · exact ⟨x, by simp [hx], hstart.trans hcurx⟩
          · rw [List.mem_singleton.mp hd]
            exact ⟨c, by simp, start_opened c⟩
      · intro t
        have hassoc : init ++ [cur.close c.start, Draft.opened c] =
            (init ++ [cur.close c.start]) ++ [Draft.opened c] := by simp
        rw [hassoc, latest_snoc, latest_snoc items, start_opened]
        split
        · rfl
        · rw [latest_snoc_value hstart hvalue]
          exact h.valued t

/-- The whole walk. -/
theorem walk_foldl (hsorted : items.Pairwise fun a b => a.start < b.start)
    (hexp : ∀ x ∈ items, x.expires = none) : Walk items (items.foldl rebuildStep []) := by
  induction items using List.reverseRecOn with
  | nil =>
    refine ⟨.nil, ?_, List.isChain_nil, ?_, fun t => rfl⟩
    · intro d hd
      cases hd
    · intro d hd
      cases hd
  | append_singleton items c ih =>
    obtain ⟨hinit, -, hlater⟩ := List.pairwise_append.mp hsorted
    rw [List.foldl_append, List.foldl_cons, List.foldl_nil]
    refine Walk.step (ih hinit fun x hx => hexp x (by simp [hx])) (hexp c (by simp)) ?_
    exact fun x hx => hlater x hx c (by simp)

/-! ### The history of the candidates -/

theorem chained_map {drafts : List Draft} (h : Chained Draft.start Draft.stop drafts) :
    Chained (fun iv : FactInterval => iv.validFrom.instant) (fun iv => iv.validTo.map Iso.instant)
      (drafts.map Draft.interval) := by
  refine ⟨(List.isChain_map _).mpr h.1, ?_⟩
  intro iv hiv
  rw [List.getLast?_map, Option.map_eq_some_iff] at hiv
  obtain ⟨d, hd, rfl⟩ := hiv
  exact h.2 d hd

/-- Without lease bounds the last interval stays open. -/
theorem rebuildIntervals_eq {byTs : ByTs} {drafts : List Draft}
    (hdrafts : (byTs.vals.insertionSort
      (fun a b => a.validFrom.instant ≤ b.validFrom.instant)).foldl rebuildStep [] = drafts)
    (h : Walk items drafts) : rebuildIntervals byTs = drafts.map Draft.interval := by
  unfold rebuildIntervals
  simp only [hdrafts]
  rcases List.eq_nil_or_concat drafts with rfl | ⟨init, cur, rfl⟩
  · rfl
  · rw [List.concat_eq_append] at h ⊢
    have hopen : cur.stop = none := h.chained.2 cur (by simp)
    have hto : cur.interval.validTo = none := by simpa [Draft.stop] using hopen
    have hfinish : cur.finish = cur.interval := by
      unfold Draft.finish
      rw [if_pos hto, h.unbounded cur (by simp), ← hto]
    simp [hfinish]

theorem holds_iff {iv : FactInterval} :
    iv.Holds t ↔ Contains (fun iv : FactInterval => iv.validFrom.instant)
      (fun iv => iv.validTo.map Iso.instant) iv t := by
  refine and_congr_right fun _ => ?_
  constructor
  · intro h e he
    obtain ⟨v, hv, rfl⟩ := Option.map_eq_some_iff.mp he
    exact h v hv
  · intro h e he
    exact h e.instant (congrArg (Option.map Iso.instant) he)

/-- A value at an instant is that of the latest item. -/
theorem Walk.value_at {drafts : List Draft} (h : Walk items drafts)
    (hlatest : latest Candidate.start items t = some c) :
    ∃ d ∈ drafts, Contains Draft.start Draft.stop d t ∧ d.interval.value = c.value := by
  have hval := h.valued t
  rw [hlatest, Option.map_some, Option.map_eq_some_iff] at hval
  obtain ⟨d, hd, hvalue⟩ := hval
  have hmem := (mem_of_latest hd).1
  exact ⟨d, hmem, (h.chained.contains_iff hmem).mpr hd, hvalue⟩

/-- The winner of a list is one of it, and none is less. -/
theorem resolveConflicts_spec {cs : List Candidate} {m : Candidate}
    (h : resolveConflicts cs = some m) : m ∈ cs ∧ ∀ c ∈ cs, conflictKey m ≤ conflictKey c := by
  cases cs with
  | nil => cases h
  | cons a cs =>
    obtain rfl := Option.some.inj h
    induction cs generalizing a with
    | nil => simp
    | cons b cs ih =>
      rw [List.foldl_cons]
      obtain ⟨hmem, hle⟩ := ih (resolveConflict a b) rfl
      have hwinner := hle _ List.mem_cons_self
      have hboth : (resolveConflict a b = a ∨ resolveConflict a b = b) ∧
          conflictKey (resolveConflict a b) ≤ conflictKey a ∧
          conflictKey (resolveConflict a b) ≤ conflictKey b := by
        unfold resolveConflict
        split
        · next hlt => exact ⟨Or.inr rfl, hlt.le, le_rfl⟩
        · next hlt => exact ⟨Or.inl rfl, le_rfl, not_lt.mp hlt⟩
      refine ⟨?_, ?_⟩
      · rcases List.mem_cons.mp hmem with hm | hm
        · rw [hm]
          rcases hboth.1 with ha | hb
          · rw [ha]
            simp
          · rw [hb]
            simp
        · exact List.mem_cons_of_mem _ (List.mem_cons_of_mem _ hm)
      · intro c hc
        rcases List.mem_cons.mp hc with rfl | hc
        · exact hwinner.trans hboth.2.1
        · rcases List.mem_cons.mp hc with rfl | hc
          · exact hwinner.trans hboth.2.2
          · exact hle c (List.mem_cons_of_mem _ hc)

/-- The winner at the latest timestamp is the latest of the winners. -/
theorem resolveConflicts_latest {cs : List Candidate}
    (hsep : Registry.RankSeparates Candidate.validFrom conflictKey cs) {items : List Candidate}
    (hitems : ∀ x, x ∈ items ↔ (Registry.leasts Candidate.validFrom conflictKey cs).get?
      x.validFrom = some x)
    (hsorted : items.Pairwise fun a b => a.start < b.start)
    (hlatest : latest Candidate.start items t = some c) :
    resolveConflicts (latestCands cs t) = some c := by
  obtain ⟨hcitems, hct⟩ := mem_of_latest hlatest
  obtain ⟨hccs, -, hleast⟩ := Registry.isLeastOf_of_get? ((hitems c).mp hcitems)
  -- every candidate has a winner at its timestamp, so none is later than `c`
  have hmax : ∀ d ∈ cs, d.validFrom.instant ≤ t → d.validFrom.instant ≤ c.validFrom.instant := by
    intro d hd hdt
    cases hget : (Registry.leasts Candidate.validFrom conflictKey cs).get? d.validFrom with
    | none => exact absurd rfl (Registry.get?_leasts_eq_none.mp hget d hd)
    | some w =>
      have hfrom : w.validFrom = d.validFrom := Registry.keyOf_of_get? hget
      have hw : w ∈ items := (hitems w).mpr (by rw [hfrom]; exact hget)
      have hwt : w.start ≤ t := by
        rw [Candidate.start, hfrom]
        exact hdt
      have hle := le_of_latest hsorted hlatest hw hwt
      rw [Candidate.start, hfrom] at hle
      exact hle
  have hcmem : c ∈ latestCands cs t := List.mem_filter.mpr ⟨hccs, by simpa using ⟨hct, hmax⟩⟩
  cases hwin : resolveConflicts (latestCands cs t) with
  | none =>
    cases hlist : latestCands cs t with
    | nil =>
      rw [hlist] at hcmem
      cases hcmem
    | cons a rest =>
      rw [hlist] at hwin
      cases hwin
  | some m =>
    obtain ⟨hmem, hleastOf⟩ := resolveConflicts_spec hwin
    obtain ⟨hmcs, hmkept⟩ := List.mem_filter.mp hmem
    obtain ⟨hmt, hmmax⟩ := of_decide_eq_true hmkept
    have hinst : m.validFrom.instant = c.validFrom.instant :=
      le_antisymm (hmax m hmcs hmt) (hmmax c hccs hct)
    have hfrom : m.validFrom = c.validFrom := by
      rw [← iso_instant m.validFrom, ← iso_instant c.validFrom, hinst]
    have hle : conflictKey m ≤ conflictKey c := hleastOf c hcmem
    have hge : conflictKey c ≤ conflictKey m := hleast m hmcs hfrom
    rw [hsep m hmcs c hccs hfrom (le_antisymm hle hge)]

/-- Everything but the last interval is closed. -/
theorem closed_of_chained {ivs : List FactInterval}
    (h : Chained (fun iv : FactInterval => iv.validFrom.instant)
      (fun iv => iv.validTo.map Iso.instant) ivs) : ∀ iv ∈ ivs.dropLast, iv.validTo ≠ none := by
  intro iv hiv hto
  rcases List.eq_nil_or_concat ivs with rfl | ⟨init, last, rfl⟩
  · cases hiv
  · rw [List.concat_eq_append] at h
    rw [List.concat_eq_append, List.dropLast_concat] at hiv
    obtain ⟨e, he, -⟩ := (List.pairwise_append.mp h.closed).2.2 iv hiv last (by simp)
    simp [hto] at he

theorem isHistory_rebuildIntervals {cs : List Candidate}
    (hsep : Registry.RankSeparates Candidate.validFrom conflictKey cs)
    (hexp : ∀ c ∈ cs, c.expires = none) :
    IsHistory cs (rebuildIntervals (Registry.leasts Candidate.validFrom conflictKey cs)) := by
  have hinj : Function.Injective Iso.instant := by
    intro x y hxy
    rw [← iso_instant x, ← iso_instant y, hxy]
  let byTs := Registry.leasts Candidate.validFrom conflictKey cs
  let items := byTs.vals.insertionSort
    (fun a b : Candidate => a.validFrom.instant ≤ b.validFrom.instant)
  have hitems : ∀ x, x ∈ items ↔ byTs.get? x.validFrom = some x := fun x => by
    rw [← Registry.mem_vals_iff]
    exact List.mem_insertionSort _
  have hsorted : items.Pairwise fun a b => a.start < b.start := Registry.sort_vals_sorted hinj byTs
  have hwinner : ∀ x ∈ items, x ∈ cs := fun x hx =>
    (Registry.isLeastOf_of_get? ((hitems x).mp hx)).1
  have hwalk : Walk items (items.foldl rebuildStep []) :=
    walk_foldl hsorted fun x hx => hexp x (hwinner x hx)
  have hchained := chained_map hwalk.chained
  rw [rebuildIntervals_eq rfl hwalk]
  refine ⟨hchained.sorted, ?_, ?_, (List.isChain_map _).mpr hwalk.changes,
    closed_of_chained hchained, ?_, ?_⟩
  · intro iv hiv e he
    exact hchained.nonempty hiv (congrArg (Option.map Iso.instant) he)
  · refine hchained.disjoint.imp ?_
    intro a b hnone t hab
    exact hnone t ⟨holds_iff.mp hab.1, holds_iff.mp hab.2⟩
  · intro iv hiv
    simpa using hchained.2 iv hiv
  · rintro t ⟨c, hc, hct⟩
    cases hget : byTs.get? c.validFrom with
    | none => exact absurd rfl (Registry.get?_leasts_eq_none.mp hget c hc)
    | some w =>
      have hfrom : w.validFrom = c.validFrom := Registry.keyOf_of_get? hget
      have hw : w ∈ items := (hitems w).mpr (by rw [hfrom]; exact hget)
      have hwt : w.start ≤ t := by
        rw [Candidate.start, hfrom]
        exact hct
      obtain ⟨x, hx⟩ : ∃ x, latest Candidate.start items t = some x := exists_latest hw hwt
      obtain ⟨d, hd, hholds, hvalue⟩ := hwalk.value_at hx
      refine ⟨d.interval, List.mem_map_of_mem hd, holds_iff.mpr hholds, x, ?_, hvalue⟩
      exact resolveConflicts_latest hsep hitems hsorted hx

theorem expires_candsOf {ks : List (String × Candidate)} (h : FromEvidence ks) {s : String}
    {pred : Predicate} : ∀ c ∈ candsOf ks s pred, c.expires = none := by
  intro c hc
  obtain ⟨e, he⟩ := h _ (mem_candsOf.mp hc).1
  rcases mem_cands.mp he with ⟨v, -, rfl⟩ | ⟨v, -, rfl⟩ <;> rfl

/-- **Facts are a function of the evidence.** Calls with the same candidates,
    in any order, grouped and repeated in any way, leave the same list of
    every subject and predicate, and it is the history of its candidates. -/
theorem folded_facts_determined {calls calls' : List FoldCall} (hderived : Derived calls)
    (hsame : SameMembers (evidenceOf calls) (evidenceOf calls')) (s : String)
    (pred : Predicate) :
    finalList calls s pred = finalList calls' s pred ∧
      IsHistory (candsOf (evidenceOf calls) s pred) (finalList calls s pred) := by
  have hfrom := fromEvidence_evidenceOf hderived
  have hsep := separates_candsOf hfrom s pred
  constructor
  · rw [finalList_eq, finalList_eq]
    refine rebuildIntervals_congr fun ts => Registry.get?_leasts_congr ?_ hsep ts
    intro c
    rw [mem_candsOf, mem_candsOf, hsame (s, c)]
  · rw [finalList_eq]
    exact isHistory_rebuildIntervals hsep (expires_candsOf hfrom)

/-- Two sources at one instant, and a later change. -/
def leaseCands : List Candidate :=
  deriveFacts { ip := some "10.0.0.1", hostname := some "a", src := "dhcp" } "o1" 5000 ++
    deriveFacts { ip := some "10.0.0.1", hostname := some "b", src := "http" } "o2" 5000

def renameCands : List Candidate :=
  deriveFacts { ip := some "10.0.0.1", hostname := some "c", src := "dhcp" } "o3" 9000

theorem folded_facts_determined_sample :
    finalList [⟨"m", leaseCands⟩, ⟨"m", renameCands⟩] "m" .hostname =
        finalList [⟨"m", renameCands ++ renameCands⟩, ⟨"m", leaseCands.reverse⟩] "m" .hostname ∧
      IsHistory (candsOf (evidenceOf [⟨"m", leaseCands⟩, ⟨"m", renameCands⟩]) "m" .hostname)
        (finalList [⟨"m", leaseCands⟩, ⟨"m", renameCands⟩] "m" .hostname) := by
  refine folded_facts_determined ?_ ?_ "m" .hostname
  · intro call hcall c hc
    simp only [List.mem_cons, List.not_mem_nil, or_false] at hcall
    rcases hcall with rfl | rfl
    · rcases List.mem_append.mp hc with hc | hc <;> exact ⟨_, _, _, hc⟩
    · exact ⟨_, _, _, hc⟩
  · intro k
    simp only [evidenceOf, List.flatMap_cons, List.flatMap_nil, List.append_nil, List.mem_append,
      List.mem_map, List.mem_reverse, or_self]
    exact or_comm

end AssetService
