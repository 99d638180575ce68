import CernityNdr.Finding.Handlers

/-! # What One Event Can Do

    Every event of the finding service is made of four moves: a candidate is
    enrolled, a pending entry is answered by a result, a pending entry
    expires, a finalized finding is reopened by a late result. This module
    says what each move does to the two maps and to the final topic, and
    reduces invariants of the service to the moves (`handle_cases`). -/

namespace FindingService

variable {τ : Type}

/-! ### Frame lemmas of the sending functions -/

/-- The final topic depends on what was sent only. -/
@[simp] theorem docs_mk (pending : Pending τ) (finalized : Registry (Remembered.key (τ := τ)))
    (s : Service τ) (table : List Row) :
    Service.docs ⟨pending, finalized, s.sent, table⟩ = s.docs := rfl

section Frame

variable (cfg : Config τ) (env : Env) (f : Finding τ) (delivered : Bool) (s : Service τ)

@[simp] theorem persist_pending : (persist cfg env f s).pending = s.pending := by
  unfold persist; split <;> rfl

@[simp] theorem persist_finalized : (persist cfg env f s).finalized = s.finalized := by
  unfold persist; split <;> rfl

@[simp] theorem persist_sent : (persist cfg env f s).sent = s.sent := by
  unfold persist; split <;> rfl

@[simp] theorem persist_docs : (persist cfg env f s).docs = s.docs := by
  simp [Service.docs]

@[simp] theorem sendFinal_pending : (sendFinal f s).pending = s.pending := rfl

@[simp] theorem sendFinal_finalized : (sendFinal f s).finalized = s.finalized := rfl

@[simp] theorem sendFinal_docs : (sendFinal f s).docs = s.docs ++ [f] := by
  simp [sendFinal, Service.docs, Sent.doc?]

@[simp] theorem sendCapture_pending : (sendCapture f s).pending = s.pending := rfl

@[simp] theorem sendCapture_finalized : (sendCapture f s).finalized = s.finalized := rfl

@[simp] theorem sendCapture_docs : (sendCapture f s).docs = s.docs := by
  simp [sendCapture, Service.docs, Sent.doc?]

@[simp] theorem emitFinalized_pending :
    (emitFinalized cfg env delivered f s).pending = s.pending := by
  simp [emitFinalized]

@[simp] theorem emitFinalized_finalized :
    (emitFinalized cfg env delivered f s).finalized = s.finalized := by
  simp [emitFinalized]

@[simp] theorem emitFinalized_docs :
    (emitFinalized cfg env delivered f s).docs = s.docs ++ [finalDoc env delivered f] := by
  simp [emitFinalized]

@[simp] theorem rememberFinalized_pending :
    (rememberFinalized cfg f delivered s).pending = s.pending := rfl

@[simp] theorem rememberFinalized_docs : (rememberFinalized cfg f delivered s).docs = s.docs := rfl

end Frame

/-! ### The four moves -/

section Moves

variable (cfg : Config τ) (env : Env) (now : Int) (result : EnrichmentResult)
  (f : Finding τ) (route : Route) (e : Entry τ) (prev : Remembered τ) (s : Service τ)

/-- The document an enrolled finding sends at once, and the finding its
    pending entry keeps. -/
def enrolled : Finding τ := if route.delivers then enrich env f else f

@[simp] theorem enroll_finalized : (enroll cfg env now f route s).finalized = s.finalized := by
  cases route <;> simp [enroll, Route.delivers, Route.captures]

@[simp] theorem enroll_docs :
    (enroll cfg env now f route s).docs =
      s.docs ++ if route.delivers then [enrolled env f route] else [] := by
  cases route <;> simp [enroll, enrolled, Route.delivers, Route.captures]

theorem enroll_pending :
    (enroll cfg env now f route s).pending =
      if route.captures then
        s.pending.put ⟨enrolled env f route, route = .finalAndCapture, now + cfg.timeout⟩
      else s.pending := by
  cases route <;> simp [enroll, enrolled, Route.delivers, Route.captures]

@[simp] theorem answer_pending :
    (answer cfg env result e s).pending = s.pending.pop e.key := by simp [answer]

@[simp] theorem answer_finalized :
    (answer cfg env result e s).finalized = s.finalized := by simp [answer]

@[simp] theorem answer_docs :
    (answer cfg env result e s).docs = s.docs ++
      [finalDoc env e.delivered (applyEnrichmentResult cfg.toPolicy e.finding result)] := by
  simp [answer]

@[simp] theorem reopen_pending :
    (reopen cfg env result prev s).pending = s.pending := by simp [reopen]

@[simp] theorem reopen_finalized :
    (reopen cfg env result prev s).finalized = s.finalized.pop prev.key := by simp [reopen]

@[simp] theorem reopen_docs :
    (reopen cfg env result prev s).docs =
      s.docs ++ [applyEnrichmentResult cfg.toPolicy prev.finding result] := by
  simp [reopen, finalDoc]

/-- The document an expired entry is finalized with. -/
def expired : Finding τ := finalDoc env e.delivered (finalizeTimeout cfg.toPolicy e.finding)

@[simp] theorem expire_pending : (expire cfg env s e).pending = s.pending.pop e.key := by
  simp [expire]

@[simp] theorem expire_finalized :
    (expire cfg env s e).finalized =
      (s.finalized.push ⟨expired cfg env e, e.delivered⟩).trim cfg.maxFinalized := by
  simp [expire, rememberFinalized, expired]

@[simp] theorem expire_docs : (expire cfg env s e).docs = s.docs ++ [expired cfg env e] := by
  simp [expire, expired]

end Moves

/-! ### Popping a pending entry -/

/-- `k` is the only pending key with the finding id `fid`. -/
structure Alone (pending : Pending τ) (fid : Option String) (k : PKey) : Prop where
  mem : k ∈ pending.keys
  fid_eq : k.2 = fid
  only : ∀ k' ∈ pending.keys, k'.2 = fid → k' = k

/-- The keys that `_pop_pending` looks at are one key exactly when it is
    alone. -/
theorem filter_keys_eq_singleton {pending : Pending τ} {fid : Option String} {k : PKey} :
    pending.keys.filter (fun k => k.2 = fid) = [k] ↔ Alone pending fid k := by
  constructor
  · intro h
    have hmem : ∀ k', (k' ∈ pending.keys ∧ k'.2 = fid) ↔ k' = k := by
      intro k'
      have hk : k' ∈ pending.keys.filter (fun k => k.2 = fid) ↔ k' ∈ [k] := by rw [h]
      simpa using hk
    exact ⟨((hmem k).mpr rfl).1, ((hmem k).mpr rfl).2, fun k' hk hf => (hmem k').mp ⟨hk, hf⟩⟩
  · rintro ⟨hk, hf, honly⟩
    have hnodup := pending.keys_nodup.filter (fun k : PKey => decide (k.2 = fid))
    refine List.perm_singleton.mp ((List.perm_ext_iff_of_nodup hnodup (by simp)).mpr ?_)
    intro k'
    simp only [List.mem_filter, decide_eq_true_eq, List.mem_singleton]
    constructor
    · rintro ⟨hk', hf'⟩
      exact honly k' hk' hf'
    · rintro rfl
      exact ⟨hk, hf⟩

/-- `e` is what `_pop_pending` takes out for a message with this tenant and
    finding id. -/
structure Resolves (pending : Pending τ) (tenant fid : Option String) (e : Entry τ) : Prop where
  stored : pending.get? e.key = some e
  fid_eq : e.key.2 = fid
  tenant_eq : ∀ t, tenant = some t → e.key = pk (some t) fid
  alone : tenant = none → Alone pending fid e.key

theorem popPending_some {pending pending' : Pending τ} {tenant fid : Option String} {e : Entry τ}
    (h : popPending pending tenant fid = (some e, pending')) :
    Resolves pending tenant fid e ∧ pending' = pending.pop e.key := by
  cases tenant with
  | some t =>
    simp only [popPending, Prod.mk.injEq] at h
    obtain ⟨hget, rfl⟩ := h
    have hkey : e.key = pk (some t) fid := Registry.keyOf_of_get? hget
    refine ⟨⟨hkey ▸ hget, by rw [hkey]; rfl, ?_, by simp⟩, by rw [hkey]⟩
    intro t' ht
    exact Option.some.inj ht ▸ hkey
  | none =>
    simp only [popPending] at h
    split at h
    · next k hk =>
      simp only [Prod.mk.injEq] at h
      obtain ⟨hget, rfl⟩ := h
      have hkey : e.key = k := Registry.keyOf_of_get? hget
      have halone := filter_keys_eq_singleton.mp hk
      refine ⟨⟨hkey ▸ hget, by rw [hkey]; exact halone.fid_eq, by simp, fun _ => hkey ▸ halone⟩, ?_⟩
      rw [hkey]
    · simp at h

theorem popPending_none {pending pending' : Pending τ} {tenant fid : Option String}
    (h : popPending pending tenant fid = (none, pending')) :
    (∀ t, tenant = some t → pending.get? (pk (some t) fid) = none) ∧
      (tenant = none → ∀ k, ¬ Alone pending fid k) := by
  cases tenant with
  | some t =>
    simp only [popPending, Prod.mk.injEq] at h
    refine ⟨?_, by simp⟩
    intro t' ht
    exact Option.some.inj ht ▸ h.1
  | none =>
    refine ⟨by simp, fun _ k hk => ?_⟩
    simp only [popPending, filter_keys_eq_singleton.mpr hk, Prod.mk.injEq] at h
    obtain ⟨e, he⟩ := Registry.mem_keys.mp hk.mem
    rw [he] at h
    cases h.1

/-! ### Events as moves -/

theorem mem_candidates {is : List (Input τ)} {i : Input τ} (hi : i ∈ is) {cand : Finding τ}
    {now : Int} (hev : i.event = .candidate cand now) : cand ∈ candidates is :=
  List.mem_filterMap.mpr ⟨i, hi, by rw [hev]⟩

/-- A candidate that is new with the last input is the last input. -/
theorem candidate_of_not_mem {is : List (Input τ)} {i : Input τ} {cand : Finding τ}
    (h : cand ∈ candidates (is ++ [i])) (hnew : cand ∉ candidates is) :
    ∃ now, i.event = .candidate cand now := by
  obtain ⟨j, hj, hcand⟩ := List.mem_filterMap.mp h
  rcases List.mem_append.mp hj with hj | hj
  · exact absurd (List.mem_filterMap.mpr ⟨j, hj, hcand⟩) hnew
  · rw [List.mem_singleton.mp hj] at hcand
    split at hcand
    · next c now hev => exact ⟨now, Option.some.inj hcand ▸ hev⟩
    · cases hcand

/-- What holds before an event holds after it when the moves that the event
    can make keep it. -/
theorem handle_cases {cfg : Config τ} {s : Service τ} {i : Input τ} {P : Service τ → Prop}
    (idle : P s)
    (enrolls : ∀ cand now, i.event = .candidate cand now →
      P (handleCandidate cfg i.env now cand s))
    (answers : ∀ r e, i.event = .result r → Resolves s.pending r.tenantId r.findingId e →
      P (answer cfg i.env r e s))
    (reopens : ∀ r prev, i.event = .result r →
      (popPending s.pending r.tenantId r.findingId).1 = none →
      s.finalized.get? (pk r.tenantId r.findingId) = some prev → P (reopen cfg i.env r prev s))
    (expires : ∀ s' e, s'.pending.get? e.key = some e → P s' → P (expire cfg i.env s' e)) :
    P (handle cfg s i) := by
  obtain ⟨event, env⟩ := i
  cases event with
  | candidate cand now => exact enrolls cand now rfl
  | result r =>
    simp only [handle, handleResult]
    split
    · next e _ hpop => exact answers r e rfl (popPending_some hpop).1
    · next hpop =>
      split
      · next prev hprev => exact reopens r prev rfl (by rw [hpop]) hprev
      · exact idle
  | status m =>
    simp only [handle, handleStatus]
    split
    · split
      · next e _ hpop => exact expires s e (popPending_some hpop).1.stored idle
      · exact idle
    · exact idle
  | sweep now =>
    simp only [handle, sweepTimeouts]
    -- the entries still to expire are pending, and pairwise of distinct keys
    have hall : ∀ (es : List (Entry τ)) (s' : Service τ), (es.map Entry.key).Nodup →
        (∀ e ∈ es, s'.pending.get? e.key = some e) → P s' →
        P (es.foldl (expire cfg env) s') := by
      intro es
      induction es with
      | nil => exact fun _ _ _ h => h
      | cons e es ih =>
        intro s' hnodup hstored h
        rw [List.map_cons, List.nodup_cons] at hnodup
        refine ih _ hnodup.2 ?_ (expires s' e (hstored e (by simp)) h)
        intro e' he'
        have hne : e'.key ≠ e.key := fun heq => hnodup.1 (heq ▸ List.mem_map_of_mem he')
        rw [expire_pending, Registry.get?_pop_ne _ hne]
        exact hstored e' (by simp [he'])
    refine hall _ s ?_ ?_ idle
    · exact s.pending.nodup.sublist (List.filter_sublist.map _)
    · intro e he
      exact Registry.get?_eq_some.mpr ⟨(List.mem_filter.mp he).1, rfl⟩

end FindingService
