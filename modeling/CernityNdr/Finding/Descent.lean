import CernityNdr.Finding.Steps

/-! # Descent from the Candidate

    A finding is changed on its way from the candidate to the final
    document, but never in its identity nor in the members that the delivery
    policy reads. What `suppress_delivery` says of the candidate it
    therefore says of every later version. -/

namespace FindingService

variable {τ : Type}

/-- `f` is a version of the finding that started as `cand`. -/
structure Descends (f cand : Finding τ) : Prop where
  findingId : f.findingId = cand.findingId
  tenantId : f.tenantId = cand.tenantId
  detectorId : f.detectorId = cand.detectorId
  detectorVersion : f.detectorVersion = cand.detectorVersion
  category : f.category = cand.category
  severity : f.severity = cand.severity

namespace Descends

variable {f g cand : Finding τ}

theorem refl (f : Finding τ) : Descends f f := ⟨rfl, rfl, rfl, rfl, rfl, rfl⟩

theorem key (h : Descends f cand) : f.key = cand.key := by
  simp only [Finding.key, h.findingId, h.tenantId]

/-- The policy does not see the changes. -/
theorem suppressDelivery (h : Descends f cand) (p : Policy) :
    suppressDelivery p f = FindingService.suppressDelivery p cand := by
  unfold FindingService.suppressDelivery ndpiDeliverExempt
  rw [h.detectorId, h.detectorVersion, h.category, h.severity]

theorem enrich (h : Descends f cand) (env : Env) : Descends (enrich env f) cand :=
  ⟨h.findingId, h.tenantId, h.detectorId, h.detectorVersion, h.category, h.severity⟩

theorem finalDoc (h : Descends f cand) (env : Env) (delivered : Bool) :
    Descends (finalDoc env delivered f) cand := by
  cases delivered with
  | true => exact h
  | false => exact h.enrich env

theorem attachEvidence (h : Descends f cand) (r : EnrichmentResult) :
    Descends (attachEvidence f r) cand := by
  unfold FindingService.attachEvidence
  split <;> exact ⟨h.findingId, h.tenantId, h.detectorId, h.detectorVersion, h.category, h.severity⟩

theorem applyEnrichmentResult (h : Descends f cand) (p : Policy) (r : EnrichmentResult) :
    Descends (applyEnrichmentResult p f r) cand :=
  have h := h.attachEvidence r
  ⟨h.findingId, h.tenantId, h.detectorId, h.detectorVersion, h.category, h.severity⟩

theorem finalizeTimeout (h : Descends f cand) (p : Policy) :
    Descends (finalizeTimeout p f) cand :=
  ⟨h.findingId, h.tenantId, h.detectorId, h.detectorVersion, h.category, h.severity⟩

end Descends

/-! ### What building leaves -/

/-- The route of a candidate. -/
def route (cand : Finding τ) : Route :=
  match decideEnrichment cand with
  | .metadataSufficient => .final
  | .packetsNeeded => if cand.detectorId ∈ confirmedThreatSources then .finalAndCapture else .capture

/-- The state in which a finding is delivered, whenever it is. -/
def deliveredState (p : Policy) (cand : Finding τ) : LifecycleState :=
  if suppressDelivery p cand then .suppressed else .final

section Building

variable (p : Policy) (cand : Finding τ) (lookup : Option QualityLookup)

theorem initialRevision_descends : Descends (initialRevision p cand lookup) cand := by
  cases lookup <;> exact ⟨rfl, rfl, rfl, rfl, rfl, rfl⟩

theorem initialRevision_refs : (initialRevision p cand lookup).refs = cand.refs := by
  cases lookup <;> rfl

theorem initialRevision_revision : (initialRevision p cand lookup).revision = some 1 := by
  cases lookup <;> rfl

/-- A confirmed threat is never suppressed. -/
theorem suppressDelivery_of_confirmed {f : Finding τ} (h : f.detectorId ∈ confirmedThreatSources) :
    suppressDelivery p f = false := by
  rw [suppressDelivery, if_pos h]

theorem buildFinding_route : (buildFinding p cand lookup).2 = route cand := by
  unfold buildFinding route
  cases decideEnrichment cand with
  | metadataSufficient => dsimp only; split <;> rfl
  | packetsNeeded => dsimp only; split <;> rfl

theorem buildFinding_descends : Descends (buildFinding p cand lookup).1 cand := by
  have h := initialRevision_descends p cand lookup
  unfold buildFinding
  cases decideEnrichment cand <;> dsimp only <;> split <;>
    exact ⟨h.findingId, h.tenantId, h.detectorId, h.detectorVersion, h.category, h.severity⟩

theorem buildFinding_refs : (buildFinding p cand lookup).1.refs = cand.refs := by
  rw [← initialRevision_refs p cand lookup]
  unfold buildFinding
  cases decideEnrichment cand <;> dsimp only <;> split <;> rfl

theorem buildFinding_revisionNo : (buildFinding p cand lookup).1.revisionNo = 1 := by
  have h : (buildFinding p cand lookup).1.revision = some 1 := by
    rw [← initialRevision_revision p cand lookup]
    unfold buildFinding
    cases decideEnrichment cand <;> dsimp only <;> split <;> rfl
  rw [Finding.revisionNo, h]
  rfl

theorem buildFinding_state :
    (buildFinding p cand lookup).1.state =
      some (if (route cand).delivers then deliveredState p cand else .captureRequested) := by
  unfold buildFinding route deliveredState
  cases decideEnrichment cand with
  | metadataSufficient =>
    by_cases h : suppressDelivery p cand = true <;> simp [h, Route.delivers]
  | packetsNeeded =>
    dsimp only
    split
    · next h => simp [Route.delivers, suppressDelivery_of_confirmed p h]
    · simp [Route.delivers]

/-- The enrichment state of a new finding. -/
def Route.enrichmentState : Route → EnrichmentState
  | .final => .notRequired
  | .capture => .required
  | .finalAndCapture => .pending

theorem buildFinding_enrichmentState :
    (buildFinding p cand lookup).1.enrichmentState = some (route cand).enrichmentState := by
  unfold buildFinding route
  cases decideEnrichment cand with
  | metadataSufficient => dsimp only; split <;> rfl
  | packetsNeeded => dsimp only; split <;> rfl

end Building

/-! ### What enriching and finalizing leave -/

section Members

variable (p : Policy) (env : Env) (delivered : Bool) (r : EnrichmentResult) (f : Finding τ)

@[simp] theorem finalDoc_state : (finalDoc env delivered f).state = f.state := by
  cases delivered <;> rfl

@[simp] theorem finalDoc_enrichmentState :
    (finalDoc env delivered f).enrichmentState = f.enrichmentState := by
  cases delivered <;> rfl

@[simp] theorem finalDoc_refs : (finalDoc env delivered f).refs = f.refs := by
  cases delivered <;> rfl

@[simp] theorem finalDoc_revisionNo : (finalDoc env delivered f).revisionNo = f.revisionNo := by
  cases delivered <;> rfl

@[simp] theorem finalDoc_key : (finalDoc env delivered f).key = f.key :=
  ((Descends.refl f).finalDoc env delivered).key

@[simp] theorem applyEnrichmentResult_key : (applyEnrichmentResult p f r).key = f.key :=
  ((Descends.refl f).applyEnrichmentResult p r).key

@[simp] theorem finalizeTimeout_key : (finalizeTimeout p f).key = f.key :=
  ((Descends.refl f).finalizeTimeout p).key

end Members

@[simp] theorem expired_key (cfg : Config τ) (env : Env) (e : Entry τ) :
    (expired cfg env e).key = e.key := by
  simp [expired, Entry.key]

/-! ### The first version -/

section FirstVersion

variable (cfg : Config τ) (env : Env) (now : Int) (cand : Finding τ) (s : Service τ)

/-- The finding that `_handle_candidate` sends or keeps. -/
def firstVersion : Finding τ :=
  finalDoc env (!(route cand).delivers) (buildFinding cfg.toPolicy cand (some env.quality)).1

theorem firstVersion_descends : Descends (firstVersion cfg env cand) cand :=
  (buildFinding_descends ..).finalDoc ..

@[simp] theorem firstVersion_key : (firstVersion cfg env cand).key = cand.key :=
  (firstVersion_descends cfg env cand).key

@[simp] theorem firstVersion_refs : (firstVersion cfg env cand).refs = cand.refs := by
  rw [firstVersion, finalDoc_refs, buildFinding_refs]

@[simp] theorem firstVersion_revisionNo : (firstVersion cfg env cand).revisionNo = 1 := by
  rw [firstVersion, finalDoc_revisionNo, buildFinding_revisionNo]

theorem firstVersion_state :
    (firstVersion cfg env cand).state =
      some (if (route cand).delivers then deliveredState cfg.toPolicy cand
        else .captureRequested) := by
  rw [firstVersion, finalDoc_state, buildFinding_state]

theorem firstVersion_enrichmentState :
    (firstVersion cfg env cand).enrichmentState = some (route cand).enrichmentState := by
  rw [firstVersion, finalDoc_enrichmentState, buildFinding_enrichmentState]

/-- The entry that a capture-bound candidate gets. -/
def firstEntry : Entry τ where
  finding := firstVersion cfg env cand
  delivered := route cand = .finalAndCapture
  deadline := now + cfg.timeout

@[simp] theorem firstEntry_key : (firstEntry cfg env now cand).key = cand.key :=
  firstVersion_key cfg env cand

theorem enrolled_buildFinding :
    enrolled env (buildFinding cfg.toPolicy cand (some env.quality)).1 (route cand) =
      firstVersion cfg env cand := by
  unfold enrolled firstVersion finalDoc
  cases (route cand).delivers <;> rfl

@[simp] theorem handleCandidate_finalized :
    (handleCandidate cfg env now cand s).finalized = s.finalized := by
  simp [handleCandidate]

@[simp] theorem handleCandidate_docs :
    (handleCandidate cfg env now cand s).docs =
      s.docs ++ if (route cand).delivers then [firstVersion cfg env cand] else [] := by
  simp [handleCandidate, buildFinding_route, enrolled_buildFinding]

theorem handleCandidate_pending :
    (handleCandidate cfg env now cand s).pending =
      if (route cand).captures then s.pending.put (firstEntry cfg env now cand)
      else s.pending := by
  simp only [handleCandidate, enroll_pending, buildFinding_route, enrolled_buildFinding]
  rfl

end FirstVersion

end FindingService
