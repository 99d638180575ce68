import CernityNdr.Capture.Arm
import CernityNdr.Capture.Keys

/-! # Which Findings Share a Capture

    The key that the orchestrator advertises with an arm directive
    (`services/capture-orchestrator/app.py`), as the agent that receives the
    directive resolves it (`pcap_key` of `services/capture-agent/agent.py`).
    An advertised key that is not trusted is computed again, from what is safe
    in the id of the finding.

    * `pcapKey_received`: the key, with one file for each finding.
    * `resolved_differ_iff`: two directives have different keys exactly when
      the requests are not confused. -/

namespace CaptureOrchestrator

open CaptureAgent (BUCKET pcapKey)
open ObjectKeys (Digest tenantSegment namespaceOf validKey inTenantNamespace_iff tseg_unique)

/-! ### From one process to the other -/

/-- A directive as the agent reads it off the topic. -/
def Directive.received (d : Directive) : CaptureAgent.Directive :=
  ⟨d.tenantId, some d.findingId, some d.captureProfile, some d.value, some (String.ofList d.pcapRef)⟩

def Request.fid (req : Request) : String := req.findingId.getD ""

/-- What tells a request from others. -/
def Request.identity (req : Request) : Option String × String × String :=
  (req.tenantId, req.fid, req.profile)

/-- The advertised key is trusted, so that the agent keeps it. -/
def Request.isKept (sha256 : Digest) (req : Request) : Bool :=
  validKey (objectKey sha256 req.tenantId req.fid (req.value.getD "") req.profile)

/-! ### Confused requests -/

/-- The ids of two findings make one file: they are equal, or the same is safe
    in both and neither key is kept, or one key is kept and its id is what is
    safe in the other id. -/
def SameFile (sha256 : Digest) (req req' : Request) : Prop :=
  req.fid = req'.fid ∨
    (req.isKept sha256 = false ∧ req'.isKept sha256 = false ∧
      CaptureAgent.sanitize req.fid = CaptureAgent.sanitize req'.fid) ∨
    (req.isKept sha256 = true ∧ req'.isKept sha256 = false ∧
      req.fid.toList = CaptureAgent.sanitize req'.fid) ∨
    (req.isKept sha256 = false ∧ req'.isKept sha256 = true ∧
      CaptureAgent.sanitize req.fid = req'.fid.toList)

/-- Nothing in their keys tells the requests apart. -/
structure Confused (sha256 : Digest) (req req' : Request) : Prop where
  segment : tenantSegment sha256 req.tenantId = tenantSegment sha256 req'.tenantId
  profile : req.profile = req'.profile
  file : SameFile sha256 req req'

/-! ### The key of a directive -/

variable {cfg : Config} {b b' : Budget} {req req' : Request} {health health' : Health}
  {sends sends' : Sends} {d d' : Directive}

/-- Only a profile that a sensor has is armed. -/
theorem mem_MANIFEST {sensor profile : String}
    (h : (decideArm sensor profile health b cfg.thr cfg.limits).1 = true) : profile ∈ MANIFEST := by
  by_contra hnot
  have hgate : capabilityGate profile = (false, "capability_unavailable") := if_neg hnot
  rw [decideArm, hgate] at h
  cases h

/-- A directive is the one of its request, of a profile that a sensor has. -/
theorem directive_spec (h : (handleRequest cfg b req health sends).directive = some d) :
    d = req.directive cfg ∧ req.profile ∈ MANIFEST := by
  rcases handleRequest_cases cfg b req health sends with ⟨-, hnone, -⟩ |
    ⟨-, -, harmed, -, -, hdirective⟩
  · rw [hnone] at h
    cases h
  · rw [hdirective] at h
    cases hraises : sends.directiveRaises with
    | true =>
      rw [hraises, if_pos rfl] at h
      cases h
    | false =>
      rw [hraises, if_neg (by decide)] at h
      exact ⟨(Option.some.inj h).symm, mem_MANIFEST harmed⟩

/-- The profiles are names of files as they are, in which no dash is. -/
theorem profile_spec {profile : String} (h : profile ∈ MANIFEST) :
    CaptureAgent.sanitize profile = profile.toList ∧ '-' ∉ profile.toList := by
  have hall : ∀ p ∈ MANIFEST, CaptureAgent.sanitize p = p.toList ∧ '-' ∉ p.toList := by decide
  exact hall profile h

/-- The file of a finding in the key that the agent resolves. -/
def Request.stem (sha256 : Digest) (req : Request) : List Char :=
  if req.isKept sha256 = true then req.fid.toList else CaptureAgent.sanitize req.fid

theorem stem_of_kept {sha256 : Digest} (h : req.isKept sha256 = true) :
    req.stem sha256 = req.fid.toList := if_pos h

theorem stem_of_not_kept {sha256 : Digest} (h : req.isKept sha256 = false) :
    req.stem sha256 = CaptureAgent.sanitize req.fid := if_neg (by rw [h]; exact Bool.false_ne_true)

/-- **The resolved key** is in the namespace of the tenant, with a file for the
    finding and the profile. -/
theorem pcapKey_received (hfid : req.fid ≠ "") (hprofile : req.profile ∈ MANIFEST) :
    pcapKey cfg.sha256 (req.directive cfg).received =
      namespaceOf BUCKET (tenantSegment cfg.sha256 req.tenantId) ++
        (req.stem cfg.sha256 ++ '-' :: req.profile.toList ++ ".pcap".toList) := by
  have hkey : (req.directive cfg).pcapRef = namespaceOf BUCKET (tenantSegment cfg.sha256 req.tenantId) ++
      (req.fid.toList ++ '-' :: req.profile.toList ++ ".pcap".toList) := by
    change objectKey _ _ req.fid _ _ = _
    rw [objectKey, if_neg hfid]
    rfl
  have hinside : ObjectKeys.inTenantNamespace (req.directive cfg).pcapRef
      (tenantSegment cfg.sha256 req.tenantId) BUCKET = true :=
    inTenantNamespace_iff.mpr (hkey ▸ List.prefix_append _ _)
  have hfileId : (req.directive cfg).received.fileId = some req.fid := by
    refine if_neg ?_
    rintro (hnone | hempty)
    · cases hnone
    · exact hfid (Option.some.inj hempty)
  have hhonored : (req.directive cfg).received.honored cfg.sha256 =
      if req.isKept cfg.sha256 = true then some (req.directive cfg).pcapRef else none := by
    have hsegment : (req.directive cfg).received.segment cfg.sha256 =
        tenantSegment cfg.sha256 req.tenantId := rfl
    have href : (req.directive cfg).received.pcapRef.map String.toList =
        some (req.directive cfg).pcapRef := congrArg some String.toList_ofList
    rw [CaptureAgent.Directive.honored, href, Option.filter_some, hsegment, hinside, Bool.and_true]
    rfl
  rw [pcapKey, hhonored]
  cases hkept : req.isKept cfg.sha256 with
  | true =>
    rw [stem_of_kept hkept]
    exact hkey
  | false =>
    rw [hfileId, stem_of_not_kept hkept]
    change namespaceOf BUCKET _ ++ (CaptureAgent.sanitize req.fid ++
      '-' :: CaptureAgent.sanitize req.profile ++ _) = _
    rw [(profile_spec hprofile).1]
    rfl

/-- Two stems are equal for the ids of one file. -/
theorem stem_eq_iff {sha256 : Digest}
    (hsegment : tenantSegment sha256 req.tenantId = tenantSegment sha256 req'.tenantId)
    (hprofile : req.profile = req'.profile) (hfid : req.fid ≠ "") (hfid' : req'.fid ≠ "") :
    req.stem sha256 = req'.stem sha256 ↔ SameFile sha256 req req' := by
  have hsame : req.fid = req'.fid → req.isKept sha256 = req'.isKept sha256 := by
    intro heq
    rw [Request.isKept, Request.isKept, objectKey, objectKey, if_neg hfid, if_neg hfid', hsegment,
      hprofile, heq]
  constructor
  · intro heq
    cases hkept : req.isKept sha256 with
    | true =>
      rw [stem_of_kept hkept] at heq
      cases hkept' : req'.isKept sha256 with
      | true =>
        rw [stem_of_kept hkept'] at heq
        exact Or.inl (String.toList_inj.mp heq)
      | false =>
        rw [stem_of_not_kept hkept'] at heq
        exact Or.inr (Or.inr (Or.inl ⟨hkept, hkept', heq⟩))
    | false =>
      rw [stem_of_not_kept hkept] at heq
      cases hkept' : req'.isKept sha256 with
      | true =>
        rw [stem_of_kept hkept'] at heq
        exact Or.inr (Or.inr (Or.inr ⟨hkept, hkept', heq⟩))
      | false =>
        rw [stem_of_not_kept hkept'] at heq
        exact Or.inr (Or.inl ⟨hkept, hkept', heq⟩)
  · rintro (heq | ⟨hkept, hkept', heq⟩ | ⟨hkept, hkept', heq⟩ | ⟨hkept, hkept', heq⟩)
    · rw [Request.stem, Request.stem, hsame heq, heq]
    · rw [stem_of_not_kept hkept, stem_of_not_kept hkept', heq]
    · rw [stem_of_kept hkept, stem_of_not_kept hkept', heq]
    · rw [stem_of_not_kept hkept, stem_of_kept hkept', heq]

/-- **Two captures have keys of their own** exactly when the findings are not
    confused: their segments, profiles or files differ. -/
theorem resolved_differ_iff (cfg : Config)
    (hd : (handleRequest cfg b req health sends).directive = some d)
    (hd' : (handleRequest cfg b' req' health' sends').directive = some d')
    (hfid : req.fid ≠ "") (hfid' : req'.fid ≠ "") :
    pcapKey cfg.sha256 d.received ≠ pcapKey cfg.sha256 d'.received ↔
      ¬Confused cfg.sha256 req req' := by
  obtain ⟨rfl, hprofile⟩ := directive_spec hd
  obtain ⟨rfl, hprofile'⟩ := directive_spec hd'
  have hslash : ∀ tenant, '/' ∉ tenantSegment cfg.sha256 tenant := fun tenant =>
    (ObjectKeys.tenantSegment_spec cfg.sha256 tenant).1.noSlash
  rw [ne_eq, not_iff_not, pcapKey_received hfid hprofile, pcapKey_received hfid' hprofile']
  constructor
  · intro heq
    have hinside' := List.prefix_append (namespaceOf BUCKET (tenantSegment cfg.sha256 req'.tenantId))
      (req'.stem cfg.sha256 ++ '-' :: req'.profile.toList ++ ".pcap".toList)
    rw [← heq] at hinside'
    have hsegment := tseg_unique (hslash req.tenantId) (hslash req'.tenantId)
      (List.prefix_append _ _) hinside'
    rw [hsegment] at heq
    have hfile := List.append_cancel_right (List.append_cancel_left heq)
    -- no dash is in a profile, so the last dash is the one between the parts
    have hparts := congrArg (Affix.rpartition '-') hfile
    rw [Affix.rpartition_append (profile_spec hprofile).2,
      Affix.rpartition_append (profile_spec hprofile').2] at hparts
    obtain ⟨hstem, hprofiles⟩ := Prod.mk.inj hparts
    have hprof := String.toList_inj.mp hprofiles
    exact ⟨hsegment, hprof, (stem_eq_iff hsegment hprof hfid hfid').mp hstem⟩
  · intro h
    rw [h.segment, (stem_eq_iff h.segment h.profile hfid hfid').mpr h.file, h.profile]

/-- A request of the address of a finding. -/
def findingRequest (findingId : String) : Request :=
  ⟨some "sensor-1", none, none, some "10.0.0.1", some findingId, some "acme", .null, .null⟩

def openConfig : Config :=
  ⟨⟨1, 85⟩, ⟨2, 500000000⟩, fun _ => false, ObjectKeys.sampleDigest⟩

/-- Two ids of which nothing is cut. -/
theorem safe_ids_differ : pcapKey openConfig.sha256 ((findingRequest "F-7").directive openConfig).received ≠
    pcapKey openConfig.sha256 ((findingRequest "F-8").directive openConfig).received :=
  (resolved_differ_iff openConfig
    (rfl : (handleRequest _ .empty (findingRequest "F-7") ⟨0, 0⟩ ⟨false, false⟩).directive = some _)
    (rfl : (handleRequest _ .empty (findingRequest "F-8") ⟨0, 0⟩ ⟨false, false⟩).directive = some _)
    (by decide) (by decide)).mpr fun h =>
      absurd ((stem_eq_iff h.segment h.profile (by decide) (by decide)).mpr h.file) (by decide +kernel)

/-- The ids of two flows, of which the same is safe: `:` is cut. -/
theorem cut_ids_collide : ¬∀ (cfg : Config) (b b' : Budget) (req req' : Request) (health health' : Health)
    (sends sends' : Sends) (d d' : Directive),
      (handleRequest cfg b req health sends).directive = some d →
      (handleRequest cfg b' req' health' sends').directive = some d' →
      req.fid ≠ "" → req'.fid ≠ "" → req.identity ≠ req'.identity →
      pcapKey cfg.sha256 d.received ≠ pcapKey cfg.sha256 d'.received := by
  intro h
  exact h openConfig .empty .empty (findingRequest "10.0.0.1:180") (findingRequest "10.0.0.11:80")
    ⟨0, 0⟩ ⟨0, 0⟩ ⟨false, false⟩ ⟨false, false⟩ _ _ rfl rfl (by decide) (by decide) (by decide)
    (by decide +kernel)

end CaptureOrchestrator
