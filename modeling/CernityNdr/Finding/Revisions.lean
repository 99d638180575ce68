import CernityNdr.Finding.Delivery

/-! # Revision Identity

    A document of a finding is identified by its revision. Every version
    after the first gets the revision after the one it was made from, but a
    redelivered candidate starts again at revision 1 and its finalization
    repeats revisions that were already used. As long as no candidate is
    handled again after its finding was finalized, two documents of one
    finding with the same revision say the same. -/

namespace FindingService

open Machine

variable {τ : Type}

/-- Two documents of one finding with the same revision agree. -/
def RevisionsAgree (s : Service τ) : Prop :=
  s.docs.Pairwise fun a b => a.key = b.key → a.revisionNo = b.revisionNo →
    a.enrichmentState = b.enrichmentState ∧ a.state = b.state ∧ a.refs = b.refs

instance (s : Service τ) : Decidable (RevisionsAgree s) :=
  inferInstanceAs (Decidable (List.Pairwise _ _))

/-- The input is not a candidate whose finding was finalized before: no
    document of it has a revision after the first. -/
def BeforeFinalization (s : Service τ) (i : Input τ) : Prop :=
  ∀ cand now, i.event = .candidate cand now →
    ∀ doc ∈ s.docs, doc.key = cand.key → doc.revisionNo ≤ 1

/-! ### Revision numbers -/

theorem applyEnrichmentResult_revisionNo {p : Policy} {f : Finding τ} {r : EnrichmentResult}
    (h : 0 < f.revisionNo) : (applyEnrichmentResult p f r).revisionNo = f.revisionNo + 1 := by
  have hne : f.revisionNo + 1 ≠ 0 := by omega
  simp only [applyEnrichmentResult]
  generalize f.revisionNo + 1 = n at hne
  simp [Finding.revisionNo, hne]

theorem finalizeTimeout_revisionNo {p : Policy} {f : Finding τ} (h : 0 < f.revisionNo) :
    (finalizeTimeout p f).revisionNo = f.revisionNo + 1 := by
  have hne : f.revisionNo + 1 ≠ 0 := by omega
  simp only [finalizeTimeout]
  generalize f.revisionNo + 1 = n at hne
  simp [Finding.revisionNo, hne]

/-! ### The invariant -/

/-- How the maps and the final topic fit together: a pending finding is a
    first version and has no later document; a finalized one is not pending,
    has a later document, and is the latest; first documents are what the
    candidate determines; later documents have revisions of their own. -/
structure Versioned (p : Policy) (is : List (Input τ)) (s : Service τ) : Prop where
  pending : ∀ e ∈ s.pending.vals, e.finding.revisionNo = 1 ∧
    ∀ doc ∈ s.docs, doc.key = e.key → doc.revisionNo ≤ 1
  finalized : ∀ r ∈ s.finalized.vals, s.pending.get? r.key = none ∧
    (∃ doc ∈ s.docs, doc.key = r.key ∧ 1 < doc.revisionNo) ∧
    ∀ doc ∈ s.docs, doc.key = r.key → doc.revisionNo ≤ r.finding.revisionNo
  first : ∀ doc ∈ s.docs, doc.revisionNo ≤ 1 → ∃ cand ∈ candidates is, doc.key = cand.key ∧
    doc.enrichmentState = some (route cand).enrichmentState ∧
    doc.state = some (deliveredState p cand) ∧ doc.refs = cand.refs
  later : s.docs.Pairwise fun a b => a.key = b.key → 1 < a.revisionNo →
    a.revisionNo ≠ b.revisionNo

theorem Versioned.finalized_of_get? {p : Policy} {is : List (Input τ)} {s : Service τ}
    (h : Versioned p is s) {k : PKey} {r : Remembered τ} (hr : s.finalized.get? k = some r) :
    r.key = k ∧ 1 < r.finding.revisionNo := by
  obtain ⟨hmem, hkey⟩ := Registry.get?_eq_some.mp hr
  obtain ⟨-, ⟨doc, hdoc, hdk, hrev⟩, hle⟩ := h.finalized r hmem
  exact ⟨hkey, lt_of_lt_of_le hrev (hle doc hdoc hdk)⟩

/-- A finalized finding is under another key than a pending one. -/
theorem Versioned.key_ne {p : Policy} {is : List (Input τ)} {s : Service τ}
    (h : Versioned p is s) {r : Remembered τ} (hr : r ∈ s.finalized.vals) {e : Entry τ}
    (he : s.pending.get? e.key = some e) : r.key ≠ e.key := by
  intro heq
  have hnone := (h.finalized r hr).1
  rw [heq, he] at hnone
  cases hnone

/-- A document with a revision after all the others of its finding. -/
theorem later_snoc {docs : List (Finding τ)} {doc : Finding τ}
    (h : docs.Pairwise fun a b => a.key = b.key → 1 < a.revisionNo → a.revisionNo ≠ b.revisionNo)
    (hnew : ∀ a ∈ docs, a.key = doc.key → 1 < a.revisionNo → a.revisionNo ≠ doc.revisionNo) :
    (docs ++ [doc]).Pairwise fun a b =>
      a.key = b.key → 1 < a.revisionNo → a.revisionNo ≠ b.revisionNo := by
  rw [List.pairwise_append]
  refine ⟨h, List.pairwise_singleton _ _, ?_⟩
  intro a ha b hb
  rw [List.mem_singleton.mp hb]
  exact hnew a ha

theorem versioned_candidate {cfg : Config τ} {env : Env} {now : Int} {is : List (Input τ)}
    {s : Service τ} {cand : Finding τ} (hcand : cand ∈ candidates is)
    (hfresh : ∀ doc ∈ s.docs, doc.key = cand.key → doc.revisionNo ≤ 1)
    (h : Versioned cfg.toPolicy is s) :
    Versioned cfg.toPolicy is (handleCandidate cfg env now cand s) := by
  -- a document that the candidate sends at once is a first version
  have hnew : ∀ doc ∈ (if (route cand).delivers then [firstVersion cfg env cand] else []),
      doc = firstVersion cfg env cand ∧ (route cand).delivers = true := by
    intro doc hdoc
    cases hr : (route cand).delivers with
    | true => simpa [hr] using hdoc
    | false => simp [hr] at hdoc
  have hne : ∀ r ∈ s.finalized.vals, r.key ≠ cand.key := by
    intro r hr heq
    obtain ⟨-, ⟨doc, hdoc, hdk, hrev⟩, -⟩ := h.finalized r hr
    exact absurd (hfresh doc hdoc (hdk.trans heq)) (by omega)
  refine ⟨?_, ?_, ?_, ?_⟩
  · have hdocs : ∀ k, (∀ doc ∈ s.docs, doc.key = k → doc.revisionNo ≤ 1) →
        ∀ doc ∈ (handleCandidate cfg env now cand s).docs, doc.key = k → doc.revisionNo ≤ 1 := by
      intro k hk doc hdoc hdk
      rw [handleCandidate_docs] at hdoc
      rcases List.mem_append.mp hdoc with hdoc | hdoc
      · exact hk doc hdoc hdk
      · rw [(hnew doc hdoc).1, firstVersion_revisionNo]
    intro e he
    rw [handleCandidate_pending] at he
    have hold : e ∈ s.pending.vals ∨ e = firstEntry cfg env now cand := by
      split at he
      · exact Registry.mem_put he
      · exact Or.inl he
    rcases hold with he | rfl
    · exact ⟨(h.pending e he).1, hdocs _ (h.pending e he).2⟩
    · exact ⟨firstVersion_revisionNo cfg env cand, hdocs _ (by simpa using hfresh)⟩
  · intro r hr
    rw [handleCandidate_finalized] at hr
    obtain ⟨hnone, ⟨doc, hdoc, hdk⟩, hle⟩ := h.finalized r hr
    refine ⟨?_, ⟨doc, by simp [hdoc], hdk⟩, ?_⟩
    · rw [handleCandidate_pending]
      split
      · rw [Registry.get?_put_ne _ (by simpa using (hne r hr).symm)]
        exact hnone
      · exact hnone
    · intro d hd hdk
      rw [handleCandidate_docs] at hd
      rcases List.mem_append.mp hd with hd | hd
      · exact hle d hd hdk
      · rw [(hnew d hd).1, firstVersion_key] at hdk
        exact absurd hdk.symm (hne r hr)
  · intro doc hdoc hrev
    rw [handleCandidate_docs] at hdoc
    rcases List.mem_append.mp hdoc with hdoc | hdoc
    · exact h.first doc hdoc hrev
    · obtain ⟨rfl, hr⟩ := hnew doc hdoc
      refine ⟨cand, hcand, firstVersion_key .., firstVersion_enrichmentState .., ?_,
        firstVersion_refs ..⟩
      rw [firstVersion_state, if_pos hr]
  · rw [handleCandidate_docs]
    split
    · refine later_snoc h.later fun a _ _ hrev => ?_
      rw [firstVersion_revisionNo]
      omega
    · simpa using h.later

/-- Finalizing a pending entry, with or without remembering it. -/
theorem versioned_close {p : Policy} {is : List (Input τ)} {s s' : Service τ} {e : Entry τ}
    {doc : Finding τ} (h : Versioned p is s) (he : s.pending.get? e.key = some e)
    (hkey : doc.key = e.key) (hrev : doc.revisionNo = e.finding.revisionNo + 1)
    (hpending : s'.pending = s.pending.pop e.key) (hdocs : s'.docs = s.docs ++ [doc])
    (hfin : ∀ r ∈ s'.finalized.vals, r ∈ s.finalized.vals ∨ r.finding = doc) :
    Versioned p is s' := by
  obtain ⟨hone, hle⟩ := h.pending e (Registry.get?_eq_some.mp he).1
  have htwo : doc.revisionNo = 2 := by omega
  refine ⟨?_, ?_, ?_, ?_⟩
  · intro e' he'
    rw [hpending] at he'
    have hne : e'.key ≠ e.key := by simpa using (List.mem_filter.mp he').2
    have hold := h.pending e' (Registry.mem_of_mem_pop he')
    rw [hdocs, List.forall_mem_append, List.forall_mem_singleton]
    exact ⟨hold.1, hold.2, fun hk => absurd (hk.symm.trans hkey) hne⟩
  · intro r hr
    rw [hpending, hdocs, List.forall_mem_append, List.forall_mem_singleton]
    rcases hfin r hr with hr | hr
    · have hne := h.key_ne hr he
      obtain ⟨hnone, ⟨d, hd, hdk⟩, hle⟩ := h.finalized r hr
      rw [Registry.get?_pop_ne _ hne]
      exact ⟨hnone, ⟨d, by simp [hd], hdk⟩, hle, fun hk => absurd (hk.symm.trans hkey) hne⟩
    · have hrk : r.key = e.key := by rw [Remembered.key, hr, hkey]
      rw [hr, hrk, Registry.get?_pop_self]
      refine ⟨rfl, ⟨doc, by simp, hkey, by omega⟩, fun d hd hdk => ?_, fun _ => le_rfl⟩
      have := hle d hd hdk
      omega
  · rw [hdocs, List.forall_mem_append, List.forall_mem_singleton]
    exact ⟨h.first, fun hr => absurd hr (by omega)⟩
  · rw [hdocs]
    refine later_snoc h.later fun a ha hak hrev => ?_
    have := hle a ha (hak.trans hkey)
    omega

/-- Reopening a finalized finding. -/
theorem versioned_reopen {cfg : Config τ} {env : Env} {is : List (Input τ)} {s : Service τ}
    {r : EnrichmentResult} {k : PKey} {prev : Remembered τ} (h : Versioned cfg.toPolicy is s)
    (hprev : s.finalized.get? k = some prev) :
    Versioned cfg.toPolicy is (reopen cfg env r prev s) := by
  obtain ⟨-, hone⟩ := h.finalized_of_get? hprev
  obtain ⟨hmem, -⟩ := Registry.get?_eq_some.mp hprev
  obtain ⟨hnone, -, hle⟩ := h.finalized prev hmem
  have hkey : (applyEnrichmentResult cfg.toPolicy prev.finding r).key = prev.key := by
    simp [Remembered.key]
  have hrev : (applyEnrichmentResult cfg.toPolicy prev.finding r).revisionNo =
      prev.finding.revisionNo + 1 := applyEnrichmentResult_revisionNo (by omega)
  refine ⟨?_, ?_, ?_, ?_⟩
  · intro e he
    rw [reopen_pending] at he
    have hstored : s.pending.get? e.key = some e := Registry.get?_eq_some.mpr ⟨he, rfl⟩
    rw [reopen_docs, List.forall_mem_append, List.forall_mem_singleton]
    exact ⟨(h.pending e he).1, (h.pending e he).2,
      fun hk => absurd (hkey.symm.trans hk) (h.key_ne hmem hstored)⟩
  · intro q hq
    rw [reopen_finalized] at hq
    have hne : q.key ≠ prev.key := by simpa using (List.mem_filter.mp hq).2
    obtain ⟨hqnone, ⟨d, hd, hdk⟩, hqle⟩ := h.finalized q (Registry.mem_of_mem_pop hq)
    rw [reopen_pending, reopen_docs, List.forall_mem_append, List.forall_mem_singleton]
    exact ⟨hqnone, ⟨d, by simp [hd], hdk⟩, hqle, fun hk => absurd (hk.symm.trans hkey) hne⟩
  · rw [reopen_docs, List.forall_mem_append, List.forall_mem_singleton]
    exact ⟨h.first, fun hr => absurd hr (by omega)⟩
  · rw [reopen_docs]
    refine later_snoc h.later fun a ha hak _ => ?_
    have := hle a ha (hak.trans hkey)
    omega

theorem versioned_step {cfg : Config τ} {is : List (Input τ)} {s : Service τ} {i : Input τ}
    (hi : i ∈ is) (hC : BeforeFinalization s i) (h : Versioned cfg.toPolicy is s) :
    Versioned cfg.toPolicy is (handle cfg s i) := by
  refine handle_cases (P := Versioned cfg.toPolicy is) h ?_ ?_ ?_ ?_
  · intro cand now hev
    exact versioned_candidate (mem_candidates hi hev) (hC cand now hev) h
  · intro r e _ hres
    obtain ⟨hone, -⟩ := h.pending e (Registry.get?_eq_some.mp hres.stored).1
    refine versioned_close h hres.stored (by simp [Entry.key]) ?_ (answer_pending ..)
      (answer_docs ..) fun q hq => Or.inl (by simpa using hq)
    rw [finalDoc_revisionNo]
    exact applyEnrichmentResult_revisionNo (by omega)
  · intro r prev _ _ hprev
    exact versioned_reopen h hprev
  · intro s' e hstored h
    obtain ⟨hone, -⟩ := h.pending e (Registry.get?_eq_some.mp hstored).1
    refine versioned_close h hstored (expired_key cfg i.env e) ?_ (expire_pending ..)
      (expire_docs ..) ?_
    · rw [expired, finalDoc_revisionNo]
      exact finalizeTimeout_revisionNo (by omega)
    · intro q hq
      rw [expire_finalized] at hq
      exact (Registry.mem_push (Registry.mem_of_mem_trim hq)).imp id (fun h => by rw [h])

theorem versioned_run {cfg : Config τ} {is : List (Input τ)}
    (hC : Meets (handle cfg) BeforeFinalization Service.start is) :
    Versioned cfg.toPolicy is (run (handle cfg) Service.start is) := by
  refine prefix_induction
    (P := fun pre => Versioned cfg.toPolicy is (run (handle cfg) .start pre)) ?_ ?_
    is (List.prefix_refl is)
  · exact ⟨by simp [Service.start], by simp [Service.start], by simp [Service.start, Service.docs],
      by simp [Service.start, Service.docs]⟩
  · intro pre i hpre ih
    rw [run_snoc]
    exact versioned_step (hpre.subset (by simp)) (hC.of_initial hpre).last ih

/-! ### The main theorem -/

theorem Versioned.agree {p : Policy} {is : List (Input τ)} {s : Service τ} (h : Versioned p is s)
    (hre : Redelivers is) : RevisionsAgree s := by
  refine h.later.imp_of_mem ?_
  intro a b ha hb hlater hkey hrev
  rcases le_or_gt a.revisionNo 1 with hone | hmany
  · -- two first documents come from the same candidate
    obtain ⟨c, hc, hck, hce, hcs, hcr⟩ := h.first a ha hone
    obtain ⟨d, hd, hdk, hde, hds, hdr⟩ := h.first b hb (by omega)
    obtain rfl := hre c hc d hd (hck.symm.trans (hkey.trans hdk))
    exact ⟨hce.trans hde.symm, hcs.trans hds.symm, hcr.trans hdr.symm⟩
  · exact absurd hrev (hlater hkey hmany)

/-- **Revision identity.** In a run in which only identical candidates are
    redelivered, and none after its finding was finalized, documents of one
    finding with the same revision agree in every state reached. -/
theorem revisions_agree (cfg : Config τ) (is : List (Input τ)) (hre : Redelivers is)
    (hC : Meets (handle cfg) BeforeFinalization Service.start is) :
    ∀ pre, pre <+: is → RevisionsAgree (run (handle cfg) Service.start pre) := by
  intro pre hpre
  refine (versioned_run (hC.of_initial hpre)).agree fun c hc d hd => hre c ?_ d ?_
  · exact (hpre.sublist.filterMap _).subset hc
  · exact (hpre.sublist.filterMap _).subset hd

/-- The candidate is redelivered while its finding is pending. -/
def earlyRedelivery : List (Input String) :=
  [⟨.candidate threatCandidate 0, .quiet⟩, ⟨.candidate threatCandidate 5, .quiet⟩,
    ⟨.result threatResult, .quiet⟩]

/-- The candidate is redelivered after its finding was enriched, and times
    out the second time. -/
def lateRedelivery : List (Input String) :=
  [⟨.candidate threatCandidate 0, .quiet⟩, ⟨.result threatResult, .quiet⟩,
    ⟨.candidate threatCandidate 5, .quiet⟩, ⟨.sweep 200000000, .quiet⟩]

theorem earlyRedelivery_redelivers : Redelivers earlyRedelivery := by
  have hall : ∀ c ∈ candidates earlyRedelivery, c = threatCandidate := by
    simp [earlyRedelivery, candidates]
  intro c hc d hd _
  rw [hall c hc, hall d hd]

theorem lateRedelivery_redelivers : Redelivers lateRedelivery := by
  have hall : ∀ c ∈ candidates lateRedelivery, c = threatCandidate := by
    simp [lateRedelivery, candidates]
  intro c hc d hd _
  rw [hall c hc, hall d hd]

theorem revisions_agree_earlyRedelivery :
    RevisionsAgree (run (handle .demo) Service.start earlyRedelivery) := by
  refine revisions_agree .demo earlyRedelivery earlyRedelivery_redelivers ?_ _
    (List.prefix_refl _)
  refine .cons ?_ (.cons ?_ (.cons ?_ (.nil _ _ _)))
  · rintro _ _ ⟨⟩
    decide
  · rintro _ _ ⟨⟩
    decide
  · rintro _ _ ⟨⟩

/-- Two different documents of the finding carry revision 2. -/
theorem lateRedelivery_disagrees :
    Redelivers lateRedelivery ∧
      ¬ RevisionsAgree (run (handle .demo) Service.start lateRedelivery) :=
  ⟨lateRedelivery_redelivers, by decide⟩

end FindingService
