import CernityNdr.Finding.Descent

/-! # Delivery Policy and Conservation of Findings

    Over every run of the service: a finding that waits for packets is
    pending or has been finalized, and every document of a finding is in the
    one state that the policy gives its candidate, whether and however the
    enrichment completed. -/

namespace FindingService

open Machine

variable {τ : Type}

/-! ### The state of what is stored and sent -/

/-- `f` comes from one of the candidates of the run, and it is `FINAL` only
    if the policy delivers that candidate. -/
def Rooted (p : Policy) (is : List (Input τ)) (f : Finding τ) : Prop :=
  ∃ cand ∈ candidates is, Descends f cand ∧
    (f.state = some .final → suppressDelivery p cand = false)

/-- A document of one of the candidates of the run, in the delivered state. -/
def Delivered (p : Policy) (is : List (Input τ)) (doc : Finding τ) : Prop :=
  ∃ cand ∈ candidates is, Descends doc cand ∧ doc.state = some (deliveredState p cand)

/-- The state of a terminal revision is the delivered state. -/
theorem terminalState_descends {p : Policy} {f cand : Finding τ} (h : Descends f cand)
    (hfinal : f.state = some .final → suppressDelivery p cand = false) :
    (terminalState p f).1 = deliveredState p cand := by
  unfold terminalState deliveredState
  rw [h.suppressDelivery p]
  split
  · next hf => simp [hfinal hf]
  · split <;> rfl

theorem deliveredState_eq_final {p : Policy} {cand : Finding τ} :
    deliveredState p cand = .final ↔ suppressDelivery p cand = false := by
  unfold deliveredState
  split <;> simp_all

theorem deliveredState_eq_suppressed {p : Policy} {cand : Finding τ} :
    deliveredState p cand = .suppressed ↔ suppressDelivery p cand = true := by
  unfold deliveredState
  split <;> simp_all

theorem Delivered.rooted {p : Policy} {is : List (Input τ)} {doc : Finding τ}
    (h : Delivered p is doc) : Rooted p is doc := by
  obtain ⟨cand, hc, hd, hs⟩ := h
  refine ⟨cand, hc, hd, fun hf => ?_⟩
  rw [hs] at hf
  exact deliveredState_eq_final.mp (Option.some.inj hf)

theorem Rooted.result {p : Policy} {is : List (Input τ)} {f : Finding τ} (h : Rooted p is f)
    (env : Env) (delivered : Bool) (r : EnrichmentResult) :
    Delivered p is (finalDoc env delivered (applyEnrichmentResult p f r)) := by
  obtain ⟨cand, hc, hd, hf⟩ := h
  refine ⟨cand, hc, (hd.applyEnrichmentResult p r).finalDoc env delivered, ?_⟩
  rw [finalDoc_state, ← terminalState_descends hd hf]
  rfl

theorem Rooted.timeout {p : Policy} {is : List (Input τ)} {f : Finding τ} (h : Rooted p is f)
    (env : Env) (delivered : Bool) :
    Delivered p is (finalDoc env delivered (finalizeTimeout p f)) := by
  obtain ⟨cand, hc, hd, hf⟩ := h
  refine ⟨cand, hc, (hd.finalizeTimeout p).finalDoc env delivered, ?_⟩
  rw [finalDoc_state, ← terminalState_descends hd hf]
  rfl

/-- Everything stored is rooted in a candidate and every document is in the
    delivered state. -/
structure Policed (p : Policy) (is : List (Input τ)) (s : Service τ) : Prop where
  pending : ∀ e ∈ s.pending.vals, Rooted p is e.finding
  finalized : ∀ r ∈ s.finalized.vals, Rooted p is r.finding
  docs : ∀ doc ∈ s.docs, Delivered p is doc

theorem firstVersion_rooted {cfg : Config τ} {env : Env} {is : List (Input τ)} {cand : Finding τ}
    (hcand : cand ∈ candidates is) : Rooted cfg.toPolicy is (firstVersion cfg env cand) := by
  refine ⟨cand, hcand, firstVersion_descends cfg env cand, fun hf => ?_⟩
  rw [firstVersion_state] at hf
  split at hf
  · exact deliveredState_eq_final.mp (Option.some.inj hf)
  · cases hf

theorem firstVersion_delivered {cfg : Config τ} {env : Env} {is : List (Input τ)}
    {cand : Finding τ} (hcand : cand ∈ candidates is) (hr : (route cand).delivers = true) :
    Delivered cfg.toPolicy is (firstVersion cfg env cand) :=
  ⟨cand, hcand, firstVersion_descends cfg env cand, by rw [firstVersion_state, if_pos hr]⟩

theorem policed_step {cfg : Config τ} {is : List (Input τ)} {s : Service τ} {i : Input τ}
    (hi : i ∈ is) (h : Policed cfg.toPolicy is s) : Policed cfg.toPolicy is (handle cfg s i) := by
  refine handle_cases (P := Policed cfg.toPolicy is) h ?_ ?_ ?_ ?_
  · intro cand now hev
    have hcand : cand ∈ candidates is := mem_candidates hi hev
    refine ⟨?_, by simpa using h.finalized, ?_⟩
    · rw [handleCandidate_pending]
      split
      · intro e he
        rcases Registry.mem_put he with he | rfl
        · exact h.pending e he
        · exact firstVersion_rooted hcand
      · exact h.pending
    · rw [handleCandidate_docs]
      split
      · next hr =>
        rw [List.forall_mem_append, List.forall_mem_singleton]
        exact ⟨h.docs, firstVersion_delivered hcand hr⟩
      · simpa using h.docs
  · intro r e _ hres
    have he := h.pending e (Registry.get?_eq_some.mp hres.stored).1
    refine ⟨?_, by simpa using h.finalized, ?_⟩
    · rw [answer_pending]
      exact fun e' he' => h.pending e' (Registry.mem_of_mem_pop he')
    · rw [answer_docs, List.forall_mem_append, List.forall_mem_singleton]
      exact ⟨h.docs, he.result i.env e.delivered r⟩
  · intro r prev _ _ hprev
    have hp := h.finalized prev (Registry.get?_eq_some.mp hprev).1
    refine ⟨by simpa using h.pending, ?_, ?_⟩
    · rw [reopen_finalized]
      exact fun q hq => h.finalized q (Registry.mem_of_mem_pop hq)
    · rw [reopen_docs, List.forall_mem_append, List.forall_mem_singleton]
      exact ⟨h.docs, hp.result i.env true r⟩
  · intro s' e hstored h
    have he := h.pending e (Registry.get?_eq_some.mp hstored).1
    have hdone : Delivered cfg.toPolicy is (expired cfg i.env e) := he.timeout i.env e.delivered
    refine ⟨?_, ?_, ?_⟩
    · rw [expire_pending]
      exact fun e' he' => h.pending e' (Registry.mem_of_mem_pop he')
    · rw [expire_finalized]
      intro q hq
      rcases Registry.mem_push (Registry.mem_of_mem_trim hq) with hq | rfl
      · exact h.finalized q hq
      · exact hdone.rooted
    · rw [expire_docs, List.forall_mem_append, List.forall_mem_singleton]
      exact ⟨h.docs, hdone⟩

theorem policed_run (cfg : Config τ) (is : List (Input τ)) :
    Policed cfg.toPolicy is (run (handle cfg) Service.start is) := by
  refine prefix_induction (P := fun pre => Policed cfg.toPolicy is (run (handle cfg) .start pre))
    ⟨by simp [Service.start], by simp [Service.start], by simp [Service.start, Service.docs]⟩ ?_
    is (List.prefix_refl is)
  intro pre i hpre ih
  rw [run_snoc]
  exact policed_step (hpre.subset (by simp)) ih

/-! ### Conservation -/

/-- A terminal document: delivered or suppressed, and no longer waiting for
    its enrichment. -/
def Terminal (doc : Finding τ) : Prop :=
  (doc.state = some .final ∨ doc.state = some .suppressed) ∧
    (doc.enrichmentState = some .notRequired ∨ doc.enrichmentState = some .enriched ∨
      doc.enrichmentState = some .enrichmentFailed ∨ doc.enrichmentState = some .timeout)

theorem terminalState_terminal (p : Policy) (f : Finding τ) :
    (terminalState p f).1 = .final ∨ (terminalState p f).1 = .suppressed := by
  unfold terminalState
  split
  · exact Or.inl rfl
  · split
    · exact Or.inr rfl
    · exact Or.inl rfl

theorem result_terminal (p : Policy) (env : Env) (delivered : Bool) (f : Finding τ)
    (r : EnrichmentResult) : Terminal (finalDoc env delivered (applyEnrichmentResult p f r)) := by
  refine ⟨?_, ?_⟩
  · rw [finalDoc_state]
    exact (terminalState_terminal p f).imp (congrArg some) (congrArg some)
  · rw [finalDoc_enrichmentState]
    simp only [applyEnrichmentResult, attachEvidence]
    split <;> simp

theorem timeout_terminal (p : Policy) (env : Env) (delivered : Bool) (f : Finding τ) :
    Terminal (finalDoc env delivered (finalizeTimeout p f)) := by
  refine ⟨?_, ?_⟩
  · rw [finalDoc_state]
    exact (terminalState_terminal p f).imp (congrArg some) (congrArg some)
  · rw [finalDoc_enrichmentState]
    simp [finalizeTimeout]

/-- The finding `k` is pending or has been finalized. -/
def Conserved (k : PKey) (s : Service τ) : Prop :=
  (s.pending.get? k).isSome = true ∨ ∃ doc ∈ s.docs, doc.key = k ∧ Terminal doc

theorem conserved_step {cfg : Config τ} {k : PKey} {s : Service τ} (i : Input τ)
    (h : Conserved k s) : Conserved k (handle cfg s i) := by
  -- popping an entry is always followed by a terminal document under its key
  have hpop : ∀ (s s' : Service τ) (e : Entry τ) (doc : Finding τ), Conserved k s →
      s'.pending = s.pending.pop e.key → s'.docs = s.docs ++ [doc] → doc.key = e.key →
      Terminal doc → Conserved k s' := by
    intro s s' e doc h hpending hdocs hkey hterm
    by_cases hk : k = e.key
    · exact Or.inr ⟨doc, by simp [hdocs], by rw [hkey, hk], hterm⟩
    · refine h.imp (fun h => ?_) (fun ⟨d, hd, h⟩ => ⟨d, by simp [hdocs, hd], h⟩)
      rwa [hpending, Registry.get?_pop_ne _ hk]
  refine handle_cases (P := Conserved k) h ?_ ?_ ?_ ?_
  · intro cand now _
    refine h.imp (fun h => ?_) (fun ⟨d, hd, h⟩ => ⟨d, by simp [hd], h⟩)
    rw [handleCandidate_pending]
    split
    · rw [Registry.get?_put]
      split
      · rfl
      · exact h
    · exact h
  · intro r e _ _
    exact hpop s _ e _ h (answer_pending ..) (answer_docs ..) (by simp [Entry.key])
      (result_terminal ..)
  · intro r prev _ _ _
    refine h.imp (fun h => ?_) (fun ⟨d, hd, h⟩ => ⟨d, by simp [hd], h⟩)
    rwa [reopen_pending]
  · intro s' e _ h
    exact hpop s' _ e _ h (expire_pending ..) (expire_docs ..) (by simp) (timeout_terminal ..)

theorem conserved_run (cfg : Config τ) (is : List (Input τ)) {cand : Finding τ}
    (hcand : cand ∈ candidates is) (hr : (route cand).captures = true) :
    Conserved cand.key (run (handle cfg) Service.start is) := by
  induction is using List.reverseRecOn with
  | nil => simp [candidates] at hcand
  | append_singleton is i ih =>
    rw [run_snoc]
    by_cases hin : cand ∈ candidates is
    · exact conserved_step i (ih hin)
    · -- the candidate is the one that arrives now
      obtain ⟨now, hev⟩ := candidate_of_not_mem hcand hin
      simp only [handle, hev]
      left
      rw [handleCandidate_pending, if_pos hr]
      have hput := Registry.get?_put_self (run (handle cfg) Service.start is).pending
        (firstEntry cfg i.env now cand)
      rw [firstEntry_key] at hput
      rw [hput]
      rfl

/-! ### The main theorem -/

/-- Only identical candidates are redelivered. -/
def Redelivers (is : List (Input τ)) : Prop :=
  ∀ c ∈ candidates is, ∀ d ∈ candidates is, c.key = d.key → c = d

/-- A document of a candidate is in the candidate's delivered state. -/
theorem doc_state {cfg : Config τ} {is : List (Input τ)} (h : Redelivers is) {cand doc : Finding τ}
    (hcand : cand ∈ candidates is) (hdoc : doc ∈ (run (handle cfg) Service.start is).docs)
    (hkey : doc.key = cand.key) : doc.state = some (deliveredState cfg.toPolicy cand) := by
  obtain ⟨cand', hcand', hd, hstate⟩ := (policed_run cfg is).docs doc hdoc
  obtain rfl := h cand' hcand' cand hcand (hd.key.symm.trans hkey)
  exact hstate

/-- **Delivery policy and conservation.** After every run: a capture-bound
    finding is pending or has a terminal document; no document is suppressed
    once one of the finding has been final; and the documents of a finding
    that was not delivered with its candidate are suppressed exactly when the
    policy suppresses the candidate. -/
theorem delivery_policy (cfg : Config τ) (is : List (Input τ)) (h : Redelivers is) :
    (∀ cand ∈ candidates is, (route cand).captures = true →
      Conserved cand.key (run (handle cfg) Service.start is)) ∧
    (run (handle cfg) Service.start is).docs.Pairwise (fun a b =>
      a.key = b.key → a.state = some .final → b.state ≠ some .suppressed) ∧
    (∀ cand ∈ candidates is, route cand = .capture →
      ∀ doc ∈ (run (handle cfg) Service.start is).docs, doc.key = cand.key →
        (doc.state = some .suppressed ↔ suppressDelivery cfg.toPolicy cand = true)) := by
  refine ⟨fun cand hc hr => conserved_run cfg is hc hr, ?_, ?_⟩
  · refine List.pairwise_of_forall_mem_list ?_
    intro a ha b hb hkey hfinal hsupp
    obtain ⟨cand, hcand, hd, hstate⟩ := (policed_run cfg is).docs a ha
    have hb := doc_state h hcand hb (hkey ▸ hd.key)
    rw [hfinal] at hstate
    rw [hsupp, ← hstate] at hb
    cases hb
  · intro cand hcand _ doc hdoc hkey
    rw [doc_state h hcand hdoc hkey, Option.some.injEq, deliveredState_eq_suppressed]

/-- A low-severity finding that waits for packets. -/
def lowCandidate : Finding String :=
  .minimal "exfil-1" (some "acme") "exfil_check" "exfil" 3 (4 / 10) "2026-01-01T00:00:00Z"

/-- The candidate is redelivered while it is pending and then times out. -/
def lowRun : List (Input String) :=
  [⟨.candidate lowCandidate 0, .quiet⟩, ⟨.candidate lowCandidate 5, .quiet⟩,
    ⟨.sweep 200000000, .quiet⟩]

theorem route_lowCandidate : route lowCandidate = .capture := by
  have hconf : ¬ lowCandidate.confidence ≥ 9 / 10 := by norm_num [lowCandidate, Finding.minimal]
  rw [route, decideEnrichment, if_neg (by decide), if_neg (by decide), if_neg (by decide),
    if_neg (by decide), if_neg hconf]
  rfl

/-- A timeout does not promote it. -/
theorem delivery_policy_lowRun :
    Redelivers lowRun ∧
      ∀ doc ∈ (run (handle .demo) Service.start lowRun).docs,
        doc.key = ("acme", some "exfil-1") → doc.state = some .suppressed := by
  have h : Redelivers lowRun := by
    intro c hc d hd _
    simp only [lowRun, candidates, List.filterMap_cons, List.filterMap_nil, List.mem_cons,
      List.not_mem_nil, or_false, or_self] at hc hd
    rw [hc, hd]
  refine ⟨h, fun doc hdoc hkey => ?_⟩
  have hcand : lowCandidate ∈ candidates lowRun := List.mem_cons_self
  exact ((delivery_policy .demo lowRun h).2.2 lowCandidate hcand route_lowCandidate doc hdoc
    hkey).mpr (by decide)

end FindingService
