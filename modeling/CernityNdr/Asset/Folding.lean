import CernityNdr.Asset.Service

/-! # What Folding an Observation Does

    `_fold_observation` does not fail, and `folded` is what it leaves. For
    a subject and predicate there are two cases (`pending_folded`): either
    its list is pending and is the current one, or nothing about it has
    changed. The lists themselves have distinct keys. -/

namespace AssetService

/-! ### The lists of `_rebuild` -/

/-- A round of `_rebuild` keeps the starts or appends one. -/
theorem starts_rebuildStep (drafts : List Draft) (c : Candidate) :
    (rebuildStep drafts c).map (fun d => d.interval.validFrom) =
        drafts.map (fun d => d.interval.validFrom) ∨
      (rebuildStep drafts c).map (fun d => d.interval.validFrom) =
        drafts.map (fun d => d.interval.validFrom) ++ [c.validFrom] := by
  have hclose : ∀ (d : Draft) (t : Instant), (d.close t).interval.validFrom = d.interval.validFrom := by
    intro d t
    unfold Draft.close
    split <;> rfl
  have hopened : (Draft.opened c).interval.validFrom = c.validFrom := by simp [Draft.opened]
  rcases List.eq_nil_or_concat drafts with rfl | ⟨init, cur, rfl⟩
  · right
    simp [rebuildStep, hopened]
  · simp only [rebuildStep, List.concat_eq_append, List.getLast?_append, List.getLast?_singleton,
      Option.some_or, List.dropLast_concat]
    by_cases hcont : cur.continues c = true
    · left
      rw [if_pos hcont]
      simp [Draft.renew]
    · right
      rw [if_neg hcont]
      simp [hclose, hopened]

theorem starts_foldl_rebuildStep (items : List Candidate) :
    ((items.foldl rebuildStep []).map (fun d => d.interval.validFrom)).Sublist
      (items.map Candidate.validFrom) := by
  induction items using List.reverseRecOn with
  | nil => simp
  | append_singleton items c ih =>
    rw [List.foldl_append, List.foldl_cons, List.foldl_nil, List.map_append]
    rcases starts_rebuildStep (items.foldl rebuildStep []) c with h | h
    · rw [h]
      exact ih.trans (List.sublist_append_left _ _)
    · rw [h]
      exact ih.append (List.Sublist.refl _)

theorem starts_rebuildIntervals (byTs : ByTs) :
    ((rebuildIntervals byTs).map FactInterval.validFrom).Nodup := by
  have hfinish : ∀ d : Draft, d.finish.validFrom = d.interval.validFrom := by
    intro d
    unfold Draft.finish
    split <;> rfl
  unfold rebuildIntervals
  simp only
  generalize hitems : byTs.vals.insertionSort
    (fun a b => a.validFrom.instant ≤ b.validFrom.instant) = items
  have hnodup : (items.map Candidate.validFrom).Nodup := by
    rw [← hitems]
    exact ((List.perm_insertionSort _ _).map Candidate.validFrom).nodup_iff.mpr byTs.nodup
  have hstarts := hnodup.sublist (starts_foldl_rebuildStep items)
  rcases List.eq_nil_or_concat (items.foldl rebuildStep []) with h | ⟨init, cur, h⟩
  · simp [h]
  · rw [h, List.concat_eq_append] at hstarts ⊢
    simp only [List.getLast?_append, List.getLast?_singleton, Option.some_or,
      List.dropLast_concat, List.map_append, List.map_map, List.map_cons, List.map_nil, hfinish]
    simpa [Function.comp_def] using hstarts

theorem keys_rebuildIntervals (byTs : ByTs) :
    ((rebuildIntervals byTs).map FactInterval.key).Nodup := by
  refine List.Nodup.of_map Prod.fst ?_
  rw [List.map_map]
  exact starts_rebuildIntervals byTs

/-- No evidence, no interval. -/
theorem rebuildIntervals_of_empty {byTs : ByTs} (h : byTs.vals = []) :
    rebuildIntervals byTs = [] := by
  simp [rebuildIntervals, h]

/-! ### The lists of `rebuild_ip_ownership` -/

theorem value_of_mem_intervalLoop {ip : String} {leases : List Lease} {win : ByStart}
    {bs : List Instant} {intervals res : List Interval}
    (hold : ∀ iv ∈ intervals, iv.value = ip)
    (hres : intervalLoop ip leases win intervals bs = .ok res) : ∀ iv ∈ res, iv.value = ip := by
  induction bs generalizing intervals with
  | nil =>
    obtain rfl := Except.ok.inj hres
    exact hold
  | cons b bs ih =>
    unfold intervalLoop at hres
    split at hres
    · exact ih hold hres
    · split at hres
      · refine ih ?_ hres
        rcases List.eq_nil_or_concat intervals with rfl | ⟨init, last, rfl⟩
        · exact hold
        · simp only [List.concat_eq_append, List.mem_append, List.mem_singleton, moveEnd,
            List.getLast?_append, List.getLast?_singleton, Option.some_or,
            List.dropLast_concat] at hold ⊢
          rintro iv (hiv | rfl)
          · exact hold iv (Or.inl hiv)
          · exact hold last (Or.inr rfl)
      · split at hres
        · cases hres
        · refine ih ?_ hres
          intro iv hiv
          rcases List.mem_append.mp hiv with hiv | hiv
          · exact hold iv hiv
          · rw [List.mem_singleton.mp hiv]
            rfl

theorem value_of_mem_intervalsOf {ip : String} {leases : List Lease} {iv : Interval}
    (h : iv ∈ intervalsOf ip leases) : iv.value = ip :=
  value_of_mem_intervalLoop (by simp) (ownershipIntervals_eq ip leases) iv h

theorem starts_intervalsOf (ip : String) (leases : List Lease) :
    ((intervalsOf ip leases).map Interval.validFrom).Nodup := by
  obtain ⟨intervals, hok, hsorted, -⟩ := ownership_intervals_exact ip leases
  rw [ownershipIntervals_eq] at hok
  obtain rfl := Except.ok.inj hok
  refine List.pairwise_map.mpr (hsorted.imp ?_)
  intro a b hlt heq
  rw [heq] at hlt
  exact lt_irrefl _ hlt

/-- An interval of the cache is told by its start and its address. -/
theorem keys_allIntervals (bindings : Bindings) :
    ((allIntervals bindings).map (fun iv => iv.fact.key)).Nodup := by
  refine List.Nodup.of_map (fun key : IntervalKey => (key.1, key.2.1)) ?_
  rw [List.map_map]
  unfold allIntervals
  rw [List.map_flatMap, List.nodup_flatMap]
  constructor
  · intro entry _
    refine List.Nodup.of_map Prod.fst ?_
    rw [List.map_map]
    exact starts_intervalsOf entry.1 entry.2
  · refine (List.pairwise_map.mp bindings.nodup).imp ?_
    intro e e' hne x hx hx'
    obtain ⟨iv, hiv, rfl⟩ := List.mem_map.mp hx
    obtain ⟨iv', hiv', heq⟩ := List.mem_map.mp hx'
    have hvalue : iv'.value = iv.value := congrArg Prod.snd heq
    exact hne ((value_of_mem_intervalsOf hiv).symm.trans
      (hvalue.symm.trans (value_of_mem_intervalsOf hiv')))

theorem keys_owned (bindings : Bindings) (subject : String) :
    ((sortByStart (ofSubject subject (allIntervals bindings))).map FactInterval.key).Nodup := by
  refine ((List.perm_insertionSort _ _).map FactInterval.key).nodup_iff.mpr ?_
  unfold ofSubject
  rw [List.map_map]
  exact (keys_allIntervals bindings).sublist (List.filter_sublist.map _)

/-! ### The interval lists of a process -/

/-- The `ip` list of a subject. -/
theorem intervals_ip (p : Process) (subject : String) :
    p.intervals (subject, .ip) = ((rebuilt p.bindings).lookup subject).getD [] := by
  simp only [Process.intervals, rebuildIpOwnership_eq]

/-- Lists and evidence depend on bindings and winners only. -/
theorem intervals_congr {p q : Process} (hb : p.bindings = q.bindings)
    (hf : p.factState = q.factState) (k : FactId) : p.intervals k = q.intervals k := by
  unfold Process.intervals
  rw [hb, hf]

theorem holds_congr {p q : Process} (hb : p.bindings = q.bindings)
    (hf : p.factState = q.factState) (k : FactId) : p.Holds k ↔ q.Holds k := by
  unfold Process.Holds
  rw [hb, hf]

theorem intervals_fact (p : Process) (subject : String) {pred : Predicate} (h : pred ≠ .ip) :
    p.intervals (subject, pred) = rebuildIntervals (p.factState subject pred) := by
  cases pred with
  | ip => exact absurd rfl h
  | hostname => rfl
  | mac => rfl

theorem holds_fact (p : Process) (subject : String) {pred : Predicate} (h : pred ≠ .ip) :
    p.Holds (subject, pred) ↔ (p.factState subject pred).vals ≠ [] := by
  cases pred with
  | ip => exact absurd rfl h
  | hostname => rfl
  | mac => rfl

/-- The intervals of one list have distinct keys. -/
theorem keys_intervals (p : Process) (k : FactId) :
    ((p.intervals k).map FactInterval.key).Nodup := by
  obtain ⟨subject, pred⟩ := k
  by_cases hip : pred = .ip
  · subst hip
    rw [intervals_ip, lookup_rebuilt]
    split
    · exact keys_owned p.bindings subject
    · exact List.nodup_nil
  · rw [intervals_fact p subject hip]
    exact keys_rebuildIntervals _

/-- A subject and predicate without evidence has no interval. -/
theorem intervals_of_not_holds {p : Process} {k : FactId} (h : ¬ p.Holds k) :
    p.intervals k = [] := by
  obtain ⟨subject, pred⟩ := k
  by_cases hip : pred = .ip
  · subst hip
    have hclaim : ¬ ∃ c ∈ claims p.bindings, macSubject c.mac = subject := h
    rw [intervals_ip, lookup_rebuilt, if_neg hclaim]
    rfl
  · rw [holds_fact p subject hip, not_not] at h
    rw [intervals_fact p subject hip, rebuildIntervals_of_empty h]

/-! ### What is stored as pending -/

theorem lookup_putTouched (pending : Pending) (state : FactState) (key : String)
    (preds : List Predicate) (k : FactId) :
    (pending.putTouched state key preds).lookup k =
      if k.1 = key ∧ k.2 ∈ preds then some (rebuildIntervals (state key k.2))
      else pending.lookup k := by
  unfold Pending.putTouched
  induction preds using List.reverseRecOn with
  | nil => simp
  | append_singleton preds p ih =>
    rw [List.foldl_append, List.foldl_cons, List.foldl_nil, Registry.lookup_put, ih]
    obtain ⟨subject, pred⟩ := k
    by_cases hk : (key, p) = (subject, pred)
    · obtain ⟨rfl, rfl⟩ := Prod.mk.injEq .. ▸ hk
      simp
    · rw [if_neg hk]
      refine if_congr (and_congr_right fun hsubject => ?_) rfl rfl
      have hpred : pred ≠ p := fun h => hk (by rw [h, ← hsubject])
      simp [hpred]

theorem lookup_putOwned_of_none {pending : Pending} {owned : Owned} {k : FactId}
    (h : k.2 = .ip → owned.lookup k.1 = none) :
    (pending.putOwned owned).lookup k = pending.lookup k := by
  have hall : ∀ l : List (String × List FactInterval), (∀ e ∈ l, e ∈ owned.vals) →
      (l.foldl (fun (pending : Pending) e => pending.put ((e.1, .ip), e.2)) pending).lookup k =
        pending.lookup k := by
    intro l
    induction l using List.reverseRecOn with
    | nil => intro _; rfl
    | append_singleton l e ih =>
      intro hl
      rw [List.foldl_append, List.foldl_cons, List.foldl_nil, Registry.lookup_put, if_neg]
      · exact ih fun x hx => hl x (by simp [hx])
      · rintro rfl
        have hlook : owned.lookup e.1 = some e.2 :=
          Registry.lookup_eq_some.mpr (hl e (by simp))
        rw [h rfl] at hlook
        cases hlook
  exact hall owned.vals fun e he => he

theorem lookup_putOwned_of_some {pending : Pending} {owned : Owned} {subject : String}
    {ivs : List FactInterval} (h : owned.lookup subject = some ivs) :
    (pending.putOwned owned).lookup (subject, .ip) = some ivs := by
  have hall : ∀ l : List (String × List FactInterval), (l.map Prod.fst).Nodup →
      (subject, ivs) ∈ l →
      (l.foldl (fun (pending : Pending) e => pending.put ((e.1, .ip), e.2)) pending).lookup
        (subject, .ip) = some ivs := by
    intro l
    induction l using List.reverseRecOn with
    | nil => intro _ hmem; cases hmem
    | append_singleton l e ih =>
      intro hnodup hmem
      rw [List.foldl_append, List.foldl_cons, List.foldl_nil, Registry.lookup_put]
      rw [List.map_append, List.nodup_append] at hnodup
      rcases List.mem_append.mp hmem with hmem | hmem
      · have hne : e.1 ≠ subject := fun heq =>
          hnodup.2.2 subject (List.mem_map_of_mem hmem) e.1 (by simp) heq.symm
        rw [if_neg (by simpa using hne)]
        exact ih hnodup.1 hmem
      · rw [← List.mem_singleton.mp hmem, if_pos rfl]
  exact hall owned.vals owned.nodup (Registry.lookup_eq_some.mp h)

/-! ### One observation -/

/-- Storing what is there already changes nothing. -/
theorem foldCandidate_eq : foldCandidate = Registry.keepLeast Candidate.validFrom conflictKey := by
  funext byTs c
  unfold foldCandidate Registry.keepLeast resolveConflict
  cases hget : byTs.get? c.validFrom with
  | none => rfl
  | some existing =>
    simp only
    split
    · rfl
    · exact Registry.put_of_get? (by rwa [Registry.keyOf_of_get? hget])

theorem foldFacts_ne {state : FactState} {key : String} {cands : List Candidate} {s : String}
    (h : s ≠ key) (p : Predicate) : foldFacts state key cands s p = state s p := by
  simp [foldFacts, h]

theorem foldFacts_self (state : FactState) (key : String) (cands : List Candidate)
    (p : Predicate) : foldFacts state key cands key p =
      (cands.filter (fun c => c.predicate = p)).foldl foldCandidate (state key p) := by
  simp [foldFacts]

theorem mem_touchedPredicates {cands : List Candidate} {p : Predicate} :
    p ∈ touchedPredicates cands ↔ ∃ c ∈ cands, c.predicate = p := by
  simp [touchedPredicates]

theorem predicate_of_mem_deriveFacts {obs : Obs} {obsId : String} {ts : Instant} {c : Candidate}
    (h : c ∈ deriveFacts obs obsId ts) : c.predicate ≠ .ip := by
  unfold deriveFacts at h
  rcases List.mem_append.mp h with h | h
  · simp only [Option.mem_toList, Option.map_eq_some_iff] at h
    obtain ⟨v, -, rfl⟩ := h
    simp [candidateOf]
  · simp only [Option.mem_toList, Option.map_eq_some_iff] at h
    obtain ⟨v, -, rfl⟩ := h
    simp [candidateOf]

/-- Folding leaves a subject and predicate that no candidate names alone. -/
theorem foldFacts_untouched {state : FactState} {key : String} {cands : List Candidate}
    {s : String} {pred : Predicate} (h : ¬ (s = key ∧ pred ∈ touchedPredicates cands)) :
    foldFacts state key cands s pred = state s pred := by
  by_cases hs : s = key
  · subst hs
    have hnone : cands.filter (fun c => c.predicate = pred) = [] := by
      simp only [List.filter_eq_nil_iff, decide_eq_true_eq]
      exact fun c hc hcp => h ⟨rfl, mem_touchedPredicates.mpr ⟨c, hc, hcp⟩⟩
    rw [foldFacts_self, hnone, List.foldl_nil]
  · exact foldFacts_ne hs pred

theorem vals_keepLeast_ne_nil (byTs : ByTs) (c : Candidate) : (foldCandidate byTs c).vals ≠ [] := by
  rw [foldCandidate_eq]
  obtain ⟨d, hd, -⟩ := Registry.get?_keepLeast_self conflictKey byTs c
  exact List.ne_nil_of_mem (Registry.get?_eq_some.mp hd).1

theorem vals_foldl_foldCandidate_ne_nil {byTs : ByTs} {cands : List Candidate}
    (h : byTs.vals ≠ [] ∨ cands ≠ []) : (cands.foldl foldCandidate byTs).vals ≠ [] := by
  induction cands using List.reverseRecOn with
  | nil => simpa using h
  | append_singleton cands c _ =>
    rw [List.foldl_append, List.foldl_cons, List.foldl_nil]
    exact vals_keepLeast_ne_nil _ c

/-- The bindings after the observation. -/
def bindingsAfter (p : Process) (obs : Obs) (obsId : String) (ts : Instant) : Bindings :=
  (bindingOf obs obsId ts).elim p.bindings p.bindings.record

/-- The process after the observation. -/
def folded (tenant : String) (p : Process) (obs : Obs) (obsId : String) (ts : Instant) :
    Process :=
  let bindings := bindingsAfter p obs obsId ts
  let key := assetKey obs bindings ts
  let cands := deriveFacts obs obsId ts
  let factState := foldFacts p.factState key cands
  let pending := p.pendingFacts.putTouched factState key (touchedPredicates cands)
  { p with
    bindings := bindings
    factState := factState
    pendingFacts :=
      if (bindingOf obs obsId ts).isSome then pending.putOwned (rebuilt bindings) else pending
    pendingObs :=
      if !cands.isEmpty || (bindingOf obs obsId ts).isSome then
        p.pendingObs.put (identityObservation obs obsId tenant ts)
      else p.pendingObs }

/-- `_fold_observation` does not fail. -/
theorem foldObservation_eq (tenant : String) (p : Process) (obs : Obs) (obsId : String)
    (ts : Instant) : foldObservation tenant p obs obsId ts =
      .ok (assetKey obs (bindingsAfter p obs obsId ts) ts, folded tenant p obs obsId ts) := by
  unfold foldObservation folded bindingsAfter
  cases bindingOf obs obsId ts with
  | none => rfl
  | some b =>
    simp only [Option.isSome_some, if_true, rebuildIpOwnership_eq]
    rfl

section Folded

variable (tenant : String) (p : Process) (obs : Obs) (obsId : String) (ts : Instant)

/-- What the process has evidence of stays. -/
theorem holds_folded {k : FactId} (h : p.Holds k) : (folded tenant p obs obsId ts).Holds k := by
  obtain ⟨s, pred⟩ := k
  by_cases hip : pred = .ip
  · subst hip
    obtain ⟨c, hc, hcs⟩ : ∃ c ∈ claims p.bindings, macSubject c.mac = s := h
    refine ⟨c, ?_, hcs⟩
    show c ∈ claims (bindingsAfter p obs obsId ts)
    unfold bindingsAfter
    cases bindingOf obs obsId ts with
    | none => exact hc
    | some b => exact mem_claims_record hc b
  · rw [holds_fact _ _ hip] at h ⊢
    show (foldFacts p.factState _ (deriveFacts obs obsId ts) s pred).vals ≠ []
    by_cases hs : s = assetKey obs (bindingsAfter p obs obsId ts) ts
    · subst hs
      rw [foldFacts_self]
      exact vals_foldl_foldCandidate_ne_nil (Or.inl h)
    · rw [foldFacts_ne hs]
      exact h

/-- A predicate of a candidate is pending when it is touched, else nothing
    about it changes. -/
theorem pending_folded_fact {s : String} {pred : Predicate} (hip : pred ≠ .ip) :
    let p' := folded tenant p obs obsId ts
    (p'.pendingFacts.lookup (s, pred) = some (p'.intervals (s, pred)) ∧ p'.Holds (s, pred)) ∨
      (p'.pendingFacts.lookup (s, pred) = p.pendingFacts.lookup (s, pred) ∧
        p'.intervals (s, pred) = p.intervals (s, pred) ∧
        (p'.Holds (s, pred) ↔ p.Holds (s, pred))) := by
  intro p'
  have hlook : p'.pendingFacts.lookup (s, pred) =
      (p.pendingFacts.putTouched p'.factState (assetKey obs p'.bindings ts)
        (touchedPredicates (deriveFacts obs obsId ts))).lookup (s, pred) := by
    show (if (bindingOf obs obsId ts).isSome = true then Pending.putOwned _ _ else _).lookup
      (s, pred) = _
    split
    · exact lookup_putOwned_of_none fun h => absurd h hip
    · rfl
  rw [lookup_putTouched] at hlook
  rw [intervals_fact _ _ hip, intervals_fact _ _ hip, holds_fact _ _ hip, holds_fact _ _ hip]
  by_cases htouched : s = assetKey obs p'.bindings ts ∧
      pred ∈ touchedPredicates (deriveFacts obs obsId ts)
  · left
    rw [if_pos htouched] at hlook
    obtain ⟨rfl, hpred⟩ := htouched
    refine ⟨hlook, ?_⟩
    show (foldFacts p.factState (assetKey obs p'.bindings ts) (deriveFacts obs obsId ts)
      (assetKey obs p'.bindings ts) pred).vals ≠ []
    rw [foldFacts_self]
    obtain ⟨c, hc, hcp⟩ := mem_touchedPredicates.mp hpred
    exact vals_foldl_foldCandidate_ne_nil
      (Or.inr (List.ne_nil_of_mem (List.mem_filter.mpr ⟨hc, by simpa using hcp⟩)))
  · right
    have hsame : p'.factState s pred = p.factState s pred := foldFacts_untouched htouched
    rw [if_neg htouched] at hlook
    exact ⟨hlook, by rw [hsame], by rw [hsame]⟩

/-- The `ip` list of a claimant is pending when a binding comes, else
    nothing about it changes. -/
theorem pending_folded_ip {s : String} :
    let p' := folded tenant p obs obsId ts
    (p'.pendingFacts.lookup (s, .ip) = some (p'.intervals (s, .ip)) ∧ p'.Holds (s, .ip)) ∨
      (p'.pendingFacts.lookup (s, .ip) = p.pendingFacts.lookup (s, .ip) ∧
        p'.intervals (s, .ip) = p.intervals (s, .ip) ∧
        (p'.Holds (s, .ip) ↔ p.Holds (s, .ip))) := by
  intro p'
  have htouched : (p.pendingFacts.putTouched p'.factState (assetKey obs p'.bindings ts)
      (touchedPredicates (deriveFacts obs obsId ts))).lookup (s, .ip) =
      p.pendingFacts.lookup (s, .ip) := by
    rw [lookup_putTouched, if_neg]
    rintro ⟨-, hmem⟩
    obtain ⟨c, hc, hcp⟩ := mem_touchedPredicates.mp hmem
    exact predicate_of_mem_deriveFacts hc hcp
  cases hb : bindingOf obs obsId ts with
  | none =>
    right
    have hbindings : p'.bindings = p.bindings := by
      show bindingsAfter p obs obsId ts = _
      rw [bindingsAfter, hb]
      rfl
    have hlook : p'.pendingFacts.lookup (s, .ip) = p.pendingFacts.lookup (s, .ip) := by
      rw [← htouched]
      show (if (bindingOf obs obsId ts).isSome = true then Pending.putOwned _ _ else _).lookup
        (s, .ip) = _
      rw [hb]
      rfl
    refine ⟨hlook, ?_, ?_⟩
    · rw [intervals_ip, intervals_ip, hbindings]
    · show (∃ c ∈ claims p'.bindings, _) ↔ (∃ c ∈ claims p.bindings, _)
      rw [hbindings]
  | some b =>
    have hpending : p'.pendingFacts = Pending.putOwned (p.pendingFacts.putTouched p'.factState
        (assetKey obs p'.bindings ts) (touchedPredicates (deriveFacts obs obsId ts)))
        (rebuilt p'.bindings) := by
      show (if (bindingOf obs obsId ts).isSome = true then Pending.putOwned _ _ else _) = _
      rw [hb]
      rfl
    by_cases hclaim : ∃ c ∈ claims p'.bindings, macSubject c.mac = s
    · left
      have hlook := lookup_rebuilt p'.bindings s
      rw [if_pos hclaim] at hlook
      refine ⟨?_, hclaim⟩
      rw [hpending, lookup_putOwned_of_some hlook, intervals_ip, hlook]
      rfl
    · right
      have hlook := lookup_rebuilt p'.bindings s
      rw [if_neg hclaim] at hlook
      -- it did not claim an address before either
      have hold : ¬ p.Holds (s, .ip) := fun h => hclaim (holds_folded tenant p obs obsId ts h)
      refine ⟨?_, ?_, ?_⟩
      · rw [hpending, lookup_putOwned_of_none fun _ => hlook, htouched]
      · rw [intervals_of_not_holds hold, intervals_of_not_holds (p := p') (k := (s, .ip)) hclaim]
      · exact ⟨fun h => absurd h hclaim, fun h => absurd h hold⟩

/-- For each subject and predicate: its list is pending and current, or
    nothing about it changes. -/
theorem pending_folded (k : FactId) :
    let p' := folded tenant p obs obsId ts
    (p'.pendingFacts.lookup k = some (p'.intervals k) ∧ p'.Holds k) ∨
      (p'.pendingFacts.lookup k = p.pendingFacts.lookup k ∧ p'.intervals k = p.intervals k ∧
        (p'.Holds k ↔ p.Holds k)) := by
  obtain ⟨s, pred⟩ := k
  by_cases hip : pred = .ip
  · subst hip
    exact pending_folded_ip tenant p obs obsId ts
  · exact pending_folded_fact tenant p obs obsId ts hip

end Folded

end AssetService
