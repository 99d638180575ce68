import Mathlib.Data.List.Dedup
import Mathlib.Data.List.Perm.Subperm
import CernityNdr.Finding.Delivery

/-! # Enrichment Evidence

    From the request of a capture until the first result for its finding,
    the finding is tracked: pending, or in the cache of finalized findings.
    The evidence of that first result therefore reaches a document, unless
    the message does not carry its tenant and finds the finding no longer
    pending. After a result, failed or not, the finding is no longer
    tracked, and the evidence of further results is lost. -/

namespace FindingService

open Machine

variable {τ : Type}

/-! ### Merged references -/

theorem mem_mergeRefs {seen new : List String} {x : String} :
    x ∈ mergeRefs seen new ↔ x ∈ seen ∨ x ∈ new := by
  induction new generalizing seen with
  | nil => simp [mergeRefs]
  | cons r new ih =>
    have hfold : mergeRefs seen (r :: new) =
        mergeRefs (if r ∈ seen then seen else seen ++ [r]) new := rfl
    rw [hfold, ih, List.mem_cons]
    split
    · next hr =>
      constructor
      · exact fun h => h.imp id Or.inr
      · rintro (h | rfl | h)
        · exact Or.inl h
        · exact Or.inl hr
        · exact Or.inr h
    · simp [or_assoc]

theorem applyEnrichmentResult_refs {p : Policy} {f : Finding τ} {r : EnrichmentResult}
    (hok : r.status = some "ok") :
    (applyEnrichmentResult p f r).refs = mergeRefs f.refs (r.evidenceRefs.getD []) := by
  simp [applyEnrichmentResult, attachEvidence, Finding.refs, hok]

/-! ### Findings that have been finalized -/

/-- The document closes the enrichment of its finding. -/
def Finding.closed (f : Finding τ) : Bool :=
  f.enrichmentState = some .enriched || f.enrichmentState = some .enrichmentFailed ||
    f.enrichmentState = some .timeout

/-- The findings that have been finalized so far. -/
def finalizedFindings (s : Service τ) : List PKey :=
  ((s.docs.filter Finding.closed).map Finding.key).dedup

theorem finalizedFindings_length_mono {s s' : Service τ} (h : s.docs <+: s'.docs) :
    (finalizedFindings s).length ≤ (finalizedFindings s').length := by
  refine (List.subperm_of_subset (List.nodup_dedup _) ?_).length_le
  intro k hk
  simp only [finalizedFindings, List.mem_dedup] at hk ⊢
  exact ((h.sublist.filter _).map _).subset hk

/-- What the cache holds has been sent. -/
def CacheSent (s : Service τ) : Prop :=
  ∀ r ∈ s.finalized.vals, r.finding ∈ s.docs ∧ r.finding.closed = true

theorem cached_length_le {cache : Registry (Remembered.key (τ := τ))} {s : Service τ}
    (h : ∀ r ∈ cache.vals, r.finding ∈ s.docs ∧ r.finding.closed = true) :
    cache.vals.length ≤ (finalizedFindings s).length := by
  have hlen : cache.vals.length = cache.keys.length := (List.length_map _).symm
  rw [hlen]
  refine (List.subperm_of_subset cache.keys_nodup ?_).length_le
  intro k hk
  obtain ⟨r, hr, rfl⟩ := List.mem_map.mp hk
  obtain ⟨hsent, hclosed⟩ := h r hr
  simp only [finalizedFindings, List.mem_dedup]
  exact List.mem_map.mpr ⟨r.finding, List.mem_filter.mpr ⟨hsent, hclosed⟩, rfl⟩

/-! ### Documents accumulate -/

theorem docs_prefix_handle (cfg : Config τ) (s : Service τ) (i : Input τ) :
    s.docs <+: (handle cfg s i).docs := by
  refine handle_cases (P := fun s' => s.docs <+: s'.docs) (List.prefix_refl _) ?_ ?_ ?_ ?_
  · intro cand now _
    rw [handleCandidate_docs]
    exact List.prefix_append _ _
  · intro r e _ _
    rw [answer_docs]
    exact List.prefix_append _ _
  · intro r prev _ _ _
    rw [reopen_docs]
    exact List.prefix_append _ _
  · intro s' e _ h
    rw [expire_docs]
    exact h.trans (List.prefix_append _ _)

theorem docs_prefix_run (cfg : Config τ) (s : Service τ) (is : List (Input τ)) :
    s.docs <+: (run (handle cfg) s is).docs :=
  run_invariant (P := fun s' => s.docs <+: s'.docs)
    (fun s' i h => h.trans (docs_prefix_handle cfg s' i)) (List.prefix_refl _) is

/-! ### The cache -/

theorem expired_closed (cfg : Config τ) (env : Env) (e : Entry τ) :
    (expired cfg env e).closed = true := by
  simp [Finding.closed, expired, finalizeTimeout]

/-- Handling that sends more and remembers no more. -/
theorem CacheSent.mono {s s' : Service τ} (h : CacheSent s) (hdocs : s.docs <+: s'.docs)
    (hfin : ∀ r ∈ s'.finalized.vals, r ∈ s.finalized.vals) : CacheSent s' :=
  fun r hr => ⟨hdocs.subset (h r (hfin r hr)).1, (h r (hfin r hr)).2⟩

theorem cacheSent_push {cfg : Config τ} {env : Env} {s : Service τ} {e : Entry τ}
    (h : CacheSent s) :
    ∀ r ∈ (s.finalized.push ⟨expired cfg env e, e.delivered⟩).vals,
      r.finding ∈ (expire cfg env s e).docs ∧ r.finding.closed = true := by
  intro r hr
  rw [expire_docs]
  rcases Registry.mem_push hr with hr | rfl
  · exact ⟨List.mem_append_left _ (h r hr).1, (h r hr).2⟩
  · exact ⟨by simp, expired_closed cfg env e⟩

theorem cacheSent_expire {cfg : Config τ} {env : Env} {s : Service τ} {e : Entry τ}
    (h : CacheSent s) : CacheSent (expire cfg env s e) := by
  intro r hr
  rw [expire_finalized] at hr
  exact cacheSent_push h r (Registry.mem_of_mem_trim hr)

theorem cacheSent_candidate {cfg : Config τ} {env : Env} {now : Int} {cand : Finding τ}
    {s : Service τ} (h : CacheSent s) : CacheSent (handleCandidate cfg env now cand s) := by
  refine h.mono (by rw [handleCandidate_docs]; exact List.prefix_append _ _) fun r hr => ?_
  rwa [handleCandidate_finalized] at hr

theorem cacheSent_answer {cfg : Config τ} {env : Env} {r : EnrichmentResult} {e : Entry τ}
    {s : Service τ} (h : CacheSent s) : CacheSent (answer cfg env r e s) := by
  refine h.mono (by rw [answer_docs]; exact List.prefix_append _ _) fun q hq => ?_
  rwa [answer_finalized] at hq

theorem cacheSent_reopen {cfg : Config τ} {env : Env} {r : EnrichmentResult}
    {prev : Remembered τ} {s : Service τ} (h : CacheSent s) :
    CacheSent (reopen cfg env r prev s) := by
  refine h.mono (by rw [reopen_docs]; exact List.prefix_append _ _) fun q hq => ?_
  rw [reopen_finalized] at hq
  exact Registry.mem_of_mem_pop hq

theorem cacheSent_step {cfg : Config τ} {s : Service τ} {i : Input τ} (h : CacheSent s) :
    CacheSent (handle cfg s i) :=
  handle_cases (P := CacheSent) h (fun _ _ _ => cacheSent_candidate h)
    (fun _ _ _ _ => cacheSent_answer h) (fun _ _ _ _ _ => cacheSent_reopen h)
    (fun _ _ _ h => cacheSent_expire h)

theorem cacheSent_run (cfg : Config τ) (is : List (Input τ)) :
    CacheSent (run (handle cfg) (Service.start : Service τ) is) :=
  run_invariant (fun _ _ h => cacheSent_step h) (by simp [CacheSent, Service.start]) is

/-! ### Tracking -/

/-- The result is one for the finding `k`, whether it carries the tenant or
    not. -/
def ResultFor (k : PKey) (r : EnrichmentResult) : Prop :=
  r.findingId = k.2 ∧ ∀ t, r.tenantId = some t → orDefault (some t) = k.1

/-- The service still knows the finding `k`. -/
def Tracked (k : PKey) (s : Service τ) : Prop :=
  (s.pending.get? k).isSome = true ∨ (s.finalized.get? k).isSome = true

/-- A result for another finding resolves to another entry. -/
theorem key_ne_of_not_resultFor {k k' : PKey} {r : EnrichmentResult} (h : ¬ ResultFor k r)
    (hfid : k'.2 = r.findingId) (htenant : ∀ t, r.tenantId = some t → k'.1 = orDefault (some t)) :
    k ≠ k' := by
  rintro rfl
  exact h ⟨hfid.symm, fun t ht => (htenant t ht).symm⟩

/-- Expiring keeps a finding tracked as long as everything finalized fits
    into the cache. -/
theorem tracked_expire {cfg : Config τ} {env : Env} {k : PKey} {s : Service τ} {e : Entry τ}
    (hcache : CacheSent s) (h : Tracked k s)
    (hlt : (finalizedFindings (expire cfg env s e)).length < cfg.maxFinalized) :
    Tracked k (expire cfg env s e) := by
  have hfit : (s.finalized.push ⟨expired cfg env e, e.delivered⟩).vals.length ≤
      cfg.maxFinalized :=
    (cached_length_le (cacheSent_push hcache)).trans hlt.le
  have hkey : (⟨expired cfg env e, e.delivered⟩ : Remembered τ).key = e.key := by
    simp [Remembered.key]
  rw [Tracked, expire_pending, expire_finalized, Registry.trim_of_le _ hfit, Registry.get?_push,
    hkey]
  by_cases hk : e.key = k
  · right
    rw [if_pos hk]
    rfl
  · rw [if_neg hk, Registry.get?_pop_ne _ (fun h => hk h.symm)]
    exact h

/-- While the cache has not overflowed, a finding stays tracked until a
    result for it is handled. -/
theorem tracked_step {cfg : Config τ} {k : PKey} {s : Service τ} {i : Input τ}
    (hcache : CacheSent s) (hi : ∀ r, i.event = .result r → ¬ ResultFor k r) (h : Tracked k s)
    (hlt : (finalizedFindings (handle cfg s i)).length < cfg.maxFinalized) :
    Tracked k (handle cfg s i) := by
  suffices hP : CacheSent (handle cfg s i) ∧
      ((finalizedFindings (handle cfg s i)).length < cfg.maxFinalized →
        Tracked k (handle cfg s i)) from hP.2 hlt
  refine handle_cases (P := fun s' => CacheSent s' ∧
    ((finalizedFindings s').length < cfg.maxFinalized → Tracked k s')) ⟨hcache, fun _ => h⟩
    ?_ ?_ ?_ ?_
  · intro cand now _
    refine ⟨cacheSent_candidate hcache, fun _ => ?_⟩
    rw [Tracked, handleCandidate_finalized, handleCandidate_pending]
    refine h.imp (fun hp => ?_) id
    split
    · rw [Registry.get?_put]
      split
      · rfl
      · exact hp
    · exact hp
  · intro r e hev hres
    have hne : k ≠ e.key := key_ne_of_not_resultFor (hi r hev) hres.fid_eq
      fun t ht => by rw [hres.tenant_eq t ht]; rfl
    refine ⟨cacheSent_answer hcache, fun _ => ?_⟩
    rwa [Tracked, answer_finalized, answer_pending, Registry.get?_pop_ne _ hne]
  · intro r prev hev _ hprev
    have hkey : prev.key = pk r.tenantId r.findingId := Registry.keyOf_of_get? hprev
    have hne : k ≠ prev.key := key_ne_of_not_resultFor (hi r hev) (by rw [hkey]; rfl)
      fun t ht => by rw [hkey, ht]; rfl
    refine ⟨cacheSent_reopen hcache, fun _ => ?_⟩
    rwa [Tracked, reopen_pending, reopen_finalized, Registry.get?_pop_ne _ hne]
  · intro s' e _ h
    refine ⟨cacheSent_expire h.1, fun hlt => tracked_expire h.1 (h.2 ?_) hlt⟩
    refine lt_of_le_of_lt (finalizedFindings_length_mono ?_) hlt
    rw [expire_docs]
    exact List.prefix_append _ _

theorem tracked_run {cfg : Config τ} {k : PKey} {s : Service τ} {is : List (Input τ)}
    (hcache : CacheSent s) (his : ∀ i ∈ is, ∀ r, i.event = .result r → ¬ ResultFor k r)
    (h : Tracked k s)
    (hlt : (finalizedFindings (run (handle cfg) s is)).length < cfg.maxFinalized) :
    Tracked k (run (handle cfg) s is) := by
  induction is generalizing s with
  | nil => exact h
  | cons i is ih =>
    have hstep : (finalizedFindings (handle cfg s i)).length < cfg.maxFinalized :=
      lt_of_le_of_lt (finalizedFindings_length_mono (docs_prefix_run cfg (handle cfg s i) is)) hlt
    exact ih (cacheSent_step hcache) (fun j hj => his j (by simp [hj]))
      (tracked_step hcache (his i (by simp)) h hstep) hlt

/-- A capture-bound candidate is tracked as soon as it is handled. -/
theorem tracked_candidate (cfg : Config τ) (s : Service τ) (env : Env) (now : Int)
    {cand : Finding τ} (hr : (route cand).captures = true) :
    Tracked cand.key (handle cfg s ⟨.candidate cand now, env⟩) := by
  left
  have hput := Registry.get?_put_self s.pending (firstEntry cfg env now cand)
  rw [firstEntry_key] at hput
  simp only [handle, handleCandidate_pending, if_pos hr, hput]
  rfl

/-! ### The arrival of a result -/

/-- A result for a tracked finding reaches it: it is pending and alone under
    its id, or the message names it. -/
theorem handleResult_of_tracked (cfg : Config τ) (env : Env) {k : PKey} {r : EnrichmentResult}
    {s : Service τ} (hok : r.status = some "ok") (hfor : ResultFor k r) (h : Tracked k s)
    (hsole : ∀ k' ∈ s.pending.keys, k'.2 = k.2 → k' = k)
    (hnamed : (s.pending.get? k).isSome = true ∨ r.tenantId ≠ none ∨ k.1 = "default") :
    ∃ doc, (handleResult cfg env r s).docs = s.docs ++ [doc] ∧ doc.key = k ∧
      ∀ x ∈ r.evidenceRefs.getD [], x ∈ doc.refs := by
  have hkeyOf : r.tenantId ≠ none ∨ k.1 = "default" → pk r.tenantId r.findingId = k := by
    intro hn
    refine Prod.ext ?_ hfor.1
    cases ht : r.tenantId with
    | some t => exact hfor.2 t ht
    | none => exact (hn.resolve_left (fun h => h ht)).symm
  simp only [handleResult]
  split
  · next e _ hpop =>
    obtain ⟨hres, -⟩ := popPending_some hpop
    have hek : e.key = k :=
      hsole e.key (Registry.mem_keys.mpr ⟨e, hres.stored⟩) (hres.fid_eq.trans hfor.1)
    refine ⟨_, answer_docs .., by simpa [Entry.key] using hek, fun x hx => ?_⟩
    rw [finalDoc_refs, applyEnrichmentResult_refs hok, mem_mergeRefs]
    exact Or.inr hx
  · next hpop =>
    obtain ⟨htenant, hnone⟩ := popPending_none hpop
    -- nothing was popped, so `k` is not pending
    have hpending : s.pending.get? k = none := by
      by_contra hne
      obtain ⟨e, he⟩ := Option.ne_none_iff_exists'.mp hne
      have hmem : k ∈ s.pending.keys := Registry.mem_keys.mpr ⟨e, he⟩
      cases ht : r.tenantId with
      | some t =>
        have hget := htenant t ht
        rw [← ht, hkeyOf (Or.inl (by simp [ht]))] at hget
        exact hne hget
      | none =>
        exact hnone ht k ⟨hmem, hfor.1.symm, fun k' hk' hf => hsole k' hk' (hf.trans hfor.1)⟩
    rw [Tracked, hpending] at h
    rw [hpending] at hnamed
    obtain ⟨prev, hprev⟩ := Option.isSome_iff_exists.mp (h.resolve_left (by simp))
    rw [hkeyOf (hnamed.resolve_left (by simp)), hprev]
    refine ⟨_, reopen_docs .., ?_, fun x hx => ?_⟩
    · have hpk : prev.key = k := Registry.keyOf_of_get? hprev
      simpa [Remembered.key] using hpk
    · rw [applyEnrichmentResult_refs hok, mem_mergeRefs]
      exact Or.inr hx

/-- The documents emitted while `post` is handled after `pre`. -/
def emitted (cfg : Config τ) (pre post : List (Input τ)) : List (Finding τ) :=
  (run (handle cfg) Service.start (pre ++ post)).docs.drop
    (run (handle cfg) Service.start pre).docs.length

theorem mem_emitted {cfg : Config τ} {pre post : List (Input τ)} {i : Input τ} {doc : Finding τ}
    (h : (handle cfg (run (handle cfg) Service.start pre) i).docs =
      (run (handle cfg) Service.start pre).docs ++ [doc]) :
    doc ∈ emitted cfg pre (i :: post) := by
  obtain ⟨more, hmore⟩ :=
    docs_prefix_run cfg (handle cfg (run (handle cfg) Service.start pre) i) post
  rw [emitted, run_append, run_cons, ← hmore, h]
  simp

/-- What is pending under a finding id comes from a candidate with this id. -/
theorem sole_pending {cfg : Config τ} {is : List (Input τ)} {cand : Finding τ}
    (hsole : ∀ c ∈ candidates is, c.findingId = cand.findingId → c.key = cand.key) :
    ∀ k ∈ (run (handle cfg) Service.start is).pending.keys, k.2 = cand.key.2 → k = cand.key := by
  intro k hk hfid
  obtain ⟨e, he⟩ := Registry.mem_keys.mp hk
  obtain ⟨hmem, hek⟩ := Registry.get?_eq_some.mp he
  obtain ⟨c, hc, hd, -⟩ := (policed_run cfg is).pending e hmem
  have hck : c.key = k := hd.key.symm.trans hek
  rw [← hck] at hfid ⊢
  exact hsole c hc (Option.some.inj hfid)

/-- A captured finding is tracked until the first result for it. -/
theorem tracked_since_capture {cfg : Config τ} {before since : List (Input τ)} {cand : Finding τ}
    {now : Int} {env : Env} (hroute : (route cand).captures = true)
    (hfirst : ∀ i ∈ since, ∀ r, i.event = .result r → ¬ ResultFor cand.key r)
    (hfit : (finalizedFindings (run (handle cfg) Service.start
      (before ++ ⟨.candidate cand now, env⟩ :: since))).length < cfg.maxFinalized) :
    Tracked cand.key (run (handle cfg) Service.start
      (before ++ ⟨.candidate cand now, env⟩ :: since)) := by
  rw [run_append, run_cons] at hfit ⊢
  exact tracked_run (cacheSent_step (cacheSent_run cfg before)) hfirst
    (tracked_candidate cfg _ env now hroute) hfit

/-- **Evidence is kept.** In a run that finalizes fewer findings than the
    cache holds, the evidence of an `ok` result for a captured finding whose
    id only one tenant uses reaches a document, at its arrival, if it is the
    first result since the capture and if the finding is still pending, the
    message carries its tenant, or the tenant is `"default"`. -/
theorem evidence_kept (cfg : Config τ) {before since post : List (Input τ)} {cand : Finding τ}
    {now : Int} {env env' : Env} {r : EnrichmentResult}
    (hfit : (finalizedFindings (run (handle cfg) Service.start
      ((before ++ ⟨.candidate cand now, env⟩ :: since) ++ ⟨.result r, env'⟩ :: post))).length
        < cfg.maxFinalized)
    (hroute : (route cand).captures = true)
    (hok : r.status = some "ok") (hfor : ResultFor cand.key r)
    (hsole : ∀ c ∈ candidates (before ++ ⟨.candidate cand now, env⟩ :: since),
      c.findingId = cand.findingId → c.key = cand.key)
    (hfirst : ∀ i ∈ since, ∀ r', i.event = .result r' → ¬ ResultFor cand.key r')
    (hnamed : ((run (handle cfg) Service.start
        (before ++ ⟨.candidate cand now, env⟩ :: since)).pending.get? cand.key).isSome = true ∨
      r.tenantId ≠ none ∨ cand.key.1 = "default") :
    ∃ doc ∈ emitted cfg (before ++ ⟨.candidate cand now, env⟩ :: since) (⟨.result r, env'⟩ :: post),
      doc.key = cand.key ∧ ∀ x ∈ r.evidenceRefs.getD [], x ∈ doc.refs := by
  have hfit' := lt_of_le_of_lt (finalizedFindings_length_mono (docs_prefix_run cfg
    (run (handle cfg) Service.start (before ++ ⟨.candidate cand now, env⟩ :: since))
    (⟨.result r, env'⟩ :: post))) (by rwa [run_append] at hfit)
  obtain ⟨doc, hdocs, hkey, hrefs⟩ := handleResult_of_tracked cfg env' hok hfor
    (tracked_since_capture hroute hfirst hfit') (sole_pending hsole) hnamed
  exact ⟨doc, mem_emitted (i := ⟨.result r, env'⟩) hdocs, hkey, hrefs⟩

/-- A result that arrives after the finding has timed out. -/
theorem evidence_kept_after_timeout :
    ∃ doc ∈ emitted .demo ([] ++ ⟨.candidate threatCandidate 0, .quiet⟩ ::
        [⟨.sweep 200000000, .quiet⟩]) [⟨.result threatResult, .quiet⟩],
      doc.key = threatCandidate.key ∧ ∀ x ∈ threatResult.evidenceRefs.getD [], x ∈ doc.refs := by
  refine evidence_kept .demo (by decide) (by decide) rfl ⟨rfl, ?_⟩ ?_ ?_ (by decide)
  · rintro _ ⟨⟩
    rfl
  · intro c hc _
    simp only [List.nil_append, candidates, List.filterMap_cons, List.filterMap_nil,
      List.mem_singleton] at hc
    rw [hc]
  · intro i hi r hev
    rw [List.mem_singleton.mp hi] at hev
    cases hev

/-- A failed result, then the result of a retry. -/
def retriedRun : List (Input String) :=
  [⟨.candidate threatCandidate 0, .quiet⟩,
    ⟨.result { threatResult with status := some "failed", evidenceRefs := none }, .quiet⟩]

/-- The evidence of the retry reaches no document. -/
theorem evidence_lost_after_failure :
    (candidates retriedRun).map Finding.key = [threatCandidate.key] ∧
      (finalizedFindings (run (handle .demo) Service.start
        (retriedRun ++ [⟨.result threatResult, .quiet⟩]))).length = 1 ∧
      ¬ ∃ doc ∈ emitted .demo retriedRun [⟨.result threatResult, .quiet⟩],
        ∀ x ∈ threatResult.evidenceRefs.getD [], x ∈ doc.refs := by
  decide

end FindingService
