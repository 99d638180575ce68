import CernityNdr.Capture.Keys

/-! # The Namespaces of Carved Files

    The model of `staging_key` and `staging_sha` of `shared/object_keys.py`,
    beside the rest of that module in `Objects.Keys`. A carved file is named by
    its digest, first in the staging and then in the accepted namespace of its
    tenant.

    * `splitOn_path`: what a parser finds in a composed key.
    * `keys_agree_iff`: trusted keys follow the grammar, and the parsers read
      back what the composers wrote, unless a line break ends a key. -/

namespace ObjectKeys

open CaptureAgent (SafeBody Collisionless exists_body validKey_append)

/-! ### Staging keys -/

def STAGING_PREFIX : List Char := "incoming".toList

/-- `staging_key`. -/
def stagingKey (sha256 : Digest) (tenant : Option String) (name bucket : List Char) : List Char :=
  namespaceOf bucket (tenantSegment sha256 tenant) ++ STAGING_PREFIX ++ '/' :: name

/-- `_SHA256.fullmatch`. -/
def isSha256 (leaf : List Char) : Bool :=
  decide (leaf.length = 64) && leaf.all "0123456789abcdef".toList.contains

/-- `staging_sha`. -/
def stagingSha (key bucket : List Char) : Option (List Char) :=
  if validKey key then
    match key.splitOn '/' with
    | [b, tseg, area, leaf] =>
      if b = bucket ∧ tseg ≠ [] ∧ area = STAGING_PREFIX ∧ isSha256 leaf = true then some leaf
      else none
    | _ => none
  else none

/-! ### Agreement -/

/-- The tenant that is named; blank is no name. -/
def named (tenant : Option String) : Option String := tenant.filter Text.notBlank

/-- The four functions on a text `s`, and on the keys of a tenant and a
    digest `h`, do what they are for. -/
structure Agree (sha256 : Digest) (s : List Char) (tenant : Option String) (h bucket : List Char) :
    Prop where
  grammar : validKey s = true ↔ SafeBody s
  valid : validKey (stagingKey sha256 tenant h bucket) = true
  staged : stagingSha (stagingKey sha256 tenant h bucket) bucket = some h
  derived : keyTenantSegment (stagingKey sha256 tenant h bucket) bucket =
    some (tenantSegment sha256 tenant)
  /-- the accepted key is in the namespace of its tenant only -/
  accepted : ∀ tenant', Collisionless sha256 {raw | raw ∈ tenant ∨ raw ∈ tenant'} →
    (inAcceptedNamespace (acceptedKey (tenantSegment sha256 tenant) h bucket)
      (tenantSegment sha256 tenant') bucket = true ↔ named tenant' = named tenant)
  promoted : stagingSha (acceptedKey (tenantSegment sha256 tenant) h bucket) bucket = none
  /-- what is staged is not accepted, for no tenant -/
  apart : ∀ tenant' name tenant'', inAcceptedNamespace (stagingKey sha256 tenant' name bucket)
    (tenantSegment sha256 tenant'') bucket = false

/-! ### Trusted texts -/

/-- A text is trusted exactly when it follows the grammar, unless it is a
    trusted text with a line break at its end. -/
theorem grammar_iff {s : List Char} :
    (validKey s = true ↔ SafeBody s) ↔ ¬∃ body, SafeBody body ∧ s = body ++ ['\n'] := by
  constructor
  · rintro hiff ⟨body, hbody, rfl⟩
    have hvalid := (validKey_append hbody.noNewline (Or.inr rfl)).mpr hbody
    exact (hiff.mp hvalid).noNewline (by simp)
  · intro hnot
    constructor
    · intro hvalid
      obtain ⟨body, nl, hbody, rfl | rfl, rfl, -⟩ := exists_body hvalid
      · rwa [List.append_nil]
      · exact absurd ⟨body, hbody, rfl⟩ hnot
    · intro hbody
      have hvalid := (validKey_append hbody.noNewline (Or.inl rfl)).mpr hbody
      rwa [List.append_nil] at hvalid

/-! ### Composed keys -/

variable {sha256 : Digest} {tenant tenant' : Option String} {bucket tseg area name : List Char}

/-- The parts of a composed key. -/
theorem splitOn_path (hbucket : '/' ∉ bucket) (htseg : '/' ∉ tseg) (harea : '/' ∉ area)
    (hname : '/' ∉ name) :
    (namespaceOf bucket tseg ++ area ++ '/' :: name).splitOn '/' = [bucket, tseg, area, name] := by
  have hpath : namespaceOf bucket tseg ++ area ++ '/' :: name =
      bucket ++ '/' :: (tseg ++ '/' :: (area ++ '/' :: name)) := by
    simp [namespaceOf]
  rw [hpath, List.splitOn_append_cons_self_of_not_mem hbucket,
    List.splitOn_append_cons_self_of_not_mem htseg, List.splitOn_append_cons_self_of_not_mem harea,
    List.splitOn_eq_singleton hname]

/-- One more component. -/
theorem safeBody_slash {body : List Char} (hbody : SafeBody body) (hname : IsAtom name)
    (hlen : body.length + name.length ≤ 255) : SafeBody (body ++ '/' :: name) := by
  constructor
  · simp
  · rw [List.length_append, List.length_cons]
    omega
  · intro a ha
    rcases List.mem_append.mp ha with ha | ha
    · exact hbody.safe a ha
    · rcases List.mem_cons.mp ha with rfl | ha
      · rfl
      · exact isSafe_of_isAtom (hname.safe a ha)
  · rw [Affix.hasPair_append, Affix.hasPair_cons, hbody.level, hname.level]
    simp
  · rw [List.head?_append_of_ne_nil _ hbody.nonempty]
    exact hbody.relative

theorem isSha256_spec (h : isSha256 name = true) : IsAtom name ∧ name.length = 64 := by
  rw [isSha256, Bool.and_eq_true, decide_eq_true_eq, List.all_eq_true] at h
  have hhex : ∀ c ∈ name, c ∈ "0123456789abcdef".toList := fun c hc =>
    List.contains_iff_mem.mp (h.2 c hc)
  refine ⟨⟨?_, fun c hc => isAtom_of_hex (hhex c hc), ?_⟩, h.1⟩
  · rintro rfl
    exact absurd h.1 (by decide)
  · exact Affix.hasPair_of_notMem fun hdot => absurd (hhex '.' hdot) (by decide)

theorem staging_atom : IsAtom STAGING_PREFIX := .of_all (by decide) (by decide) (by decide)

variable (sha256 tenant) in
/-- **A staging key** is trusted, in a bucket whose name leaves room for it. -/
theorem validKey_stagingKey (hbucket : IsAtom bucket) (hlen : bucket.length ≤ 84)
    (hname : isSha256 name = true) : validKey (stagingKey sha256 tenant name bucket) = true := by
  obtain ⟨hatom, hnamelen⟩ := isSha256_spec hname
  obtain ⟨hseg, hseglen⟩ := tenantSegment_spec sha256 tenant
  have hprefix : STAGING_PREFIX.length = 8 := rfl
  have hbody : SafeBody (stagingKey sha256 tenant name bucket) := by
    refine safeBody_slash (CaptureAgent.safeBody_path hbucket hseg staging_atom ?_) hatom ?_
    · omega
    · simp only [namespaceOf, List.length_append, List.length_cons, List.length_nil]
      omega
  have hvalid := (validKey_append hbody.noNewline (Or.inl rfl)).mpr hbody
  rwa [List.append_nil] at hvalid

/-- What the parsers find in a key of an area. -/
theorem stagingSha_path (harea : '/' ∉ area) (hbucket : IsAtom bucket) (htseg : IsAtom tseg)
    (hname : isSha256 name = true)
    (hvalid : validKey (namespaceOf bucket tseg ++ area ++ '/' :: name) = true) :
    stagingSha (namespaceOf bucket tseg ++ area ++ '/' :: name) bucket =
      if area = STAGING_PREFIX then some name else none := by
  rw [stagingSha, if_pos hvalid, splitOn_path hbucket.noSlash htseg.noSlash harea
    (isSha256_spec hname).1.noSlash]
  simp [htseg.nonempty, hname]

/-! ### Accepted keys -/

/-- The segments of two tenants are equal only for one name, or for none. -/
theorem named_eq_of_segment (hinj : Collisionless sha256 {raw | raw ∈ tenant ∨ raw ∈ tenant'})
    (h : tenantSegment sha256 tenant = tenantSegment sha256 tenant') :
    named tenant' = named tenant := by
  have hlong : ∀ label data, DEFAULT_TENANT_SEGMENT ≠ label ++ '-' :: sha256.hexdigest data := by
    intro label data heq
    have hlen := congrArg List.length heq
    rw [List.length_append, List.length_cons, sha256.length] at hlen
    have hdefault : DEFAULT_TENANT_SEGMENT.length = 10 := rfl
    omega
  rcases CaptureAgent.tenantSegment_cases sha256 tenant with ⟨hnone, heq⟩ |
    ⟨raw, label, hraw, hsome, heq⟩
  · rcases CaptureAgent.tenantSegment_cases sha256 tenant' with ⟨hnone', -⟩ |
      ⟨raw', label', -, -, heq'⟩
    · rw [named, named, hnone, hnone']
    · exact absurd (heq.symm.trans (h.trans heq')) (hlong _ _)
  · rcases CaptureAgent.tenantSegment_cases sha256 tenant' with ⟨-, heq'⟩ |
      ⟨raw', label', hraw', hsome', heq'⟩
    · exact absurd (heq'.symm.trans (h.symm.trans heq)) (hlong _ _)
    · have hparts := heq.symm.trans (h.trans heq')
      have hhex := (List.cons.inj (List.append_inj_right' hparts (by
        rw [List.length_cons, List.length_cons, sha256.length, sha256.length]))).2
      have hsame : raw = raw' := hinj (Or.inl hraw) (Or.inr hraw') hhex
      rw [named, named, hsome, hsome', hsame]

theorem segment_eq_of_named (h : named tenant' = named tenant) :
    tenantSegment sha256 tenant' = tenantSegment sha256 tenant := by
  have hkey : ∀ t : Option String, tenantSegment sha256 t = tenantSegment sha256 (named t) := by
    intro t
    rcases CaptureAgent.tenantSegment_cases sha256 t with ⟨hnone, heq⟩ | ⟨raw, _, hraw, hsome, -⟩
    · rw [named, hnone, heq]
      rfl
    · rw [named, hsome, hraw]
  rw [hkey tenant', hkey tenant, h]

/-- **An accepted key** is in the accepted namespace of its tenant only. -/
theorem inAcceptedNamespace_acceptedKey
    (hinj : Collisionless sha256 {raw | raw ∈ tenant ∨ raw ∈ tenant'}) :
    inAcceptedNamespace (acceptedKey (tenantSegment sha256 tenant) name bucket)
      (tenantSegment sha256 tenant') bucket = true ↔ named tenant' = named tenant := by
  have hslash : ∀ t, '/' ∉ tenantSegment sha256 t := fun t =>
    (tenantSegment_spec sha256 t).1.noSlash
  rw [inAcceptedNamespace, List.isPrefixOf_iff_prefix]
  constructor
  · intro hprefix
    rw [acceptedKey, List.append_assoc, List.append_assoc] at hprefix
    exact named_eq_of_segment hinj (tseg_unique (hslash tenant) (hslash tenant')
      (List.prefix_append _ _) ((List.prefix_append _ _).trans hprefix))
  · intro hnamed
    rw [segment_eq_of_named hnamed, acceptedKey]
    exact ⟨name, by simp⟩

/-- What is staged is in no accepted namespace. -/
theorem inAcceptedNamespace_stagingKey :
    inAcceptedNamespace (stagingKey sha256 tenant name bucket) (tenantSegment sha256 tenant') bucket =
      false := by
  rw [← Bool.not_eq_true, inAcceptedNamespace, List.isPrefixOf_iff_prefix]
  intro hprefix
  have hslash : ∀ t, '/' ∉ tenantSegment sha256 t := fun t =>
    (tenantSegment_spec sha256 t).1.noSlash
  rw [stagingKey, List.append_assoc, List.append_assoc] at hprefix
  have hsegment := tseg_unique (hslash tenant) (hslash tenant') (List.prefix_append _ _)
    ((List.prefix_append _ _).trans hprefix)
  rw [hsegment, List.prefix_append_right_inj] at hprefix
  -- the areas differ in their first characters
  obtain ⟨rest, hrest⟩ := hprefix
  exact absurd (List.cons.inj hrest).1 (by decide)

/-! ### The four functions -/

/-- **The keys agree** with what is composed and parsed exactly when the text
    is not a trusted text with a line break at its end: the pattern stands
    before one. -/
theorem keys_agree_iff (sha256 : Digest) (s : List Char) (tenant : Option String)
    {h bucket : List Char} (hh : isSha256 h = true) (hbucket : IsAtom bucket)
    (hlen : bucket.length ≤ 84) :
    Agree sha256 s tenant h bucket ↔ ¬∃ body, SafeBody body ∧ s = body ++ ['\n'] := by
  constructor
  · exact fun hagree => grammar_iff.mp hagree.grammar
  · intro hnot
    have hseg := (tenantSegment_spec sha256 tenant).1
    have hvalid := validKey_stagingKey sha256 tenant hbucket hlen hh
    constructor
    · exact grammar_iff.mpr hnot
    · exact hvalid
    · exact (stagingSha_path staging_atom.noSlash hbucket hseg hh hvalid).trans (if_pos rfl)
    · rw [keyTenantSegment, if_pos hvalid, stagingKey, splitOn_path hbucket.noSlash hseg.noSlash
        staging_atom.noSlash (isSha256_spec hh).1.noSlash]
      exact if_pos ⟨rfl, hseg.nonempty⟩
    · exact fun tenant' hinj => inAcceptedNamespace_acceptedKey hinj
    · by_cases haccepted : validKey (acceptedKey (tenantSegment sha256 tenant) h bucket) = true
      · exact (stagingSha_path (by decide) hbucket hseg hh haccepted).trans (if_neg (by decide))
      · rw [stagingSha, if_neg haccepted]
    · exact fun _ _ _ => inAcceptedNamespace_stagingKey

/-- A file of `acme`, and a text with a slash at its start. -/
theorem keys_agree_acme : Agree sampleDigest "/etc".toList (some "acme")
    (sampleDigest.hexdigest []) "ndr-files".toList :=
  (keys_agree_iff sampleDigest _ _ (by decide) (.of_all (by decide) (by decide) (by decide))
    (by decide)).mpr fun ⟨_, hbody, heq⟩ =>
      absurd (congrArg List.getLast? heq) (by simp)

/-- A line break at the end of a key is trusted. -/
theorem line_break_is_trusted : ¬∀ (sha256 : Digest) (s : List Char) (tenant : Option String)
    (h bucket : List Char), isSha256 h = true → IsAtom bucket → bucket.length ≤ 84 →
      Agree sha256 s tenant h bucket := by
  intro h
  have hagree := h sampleDigest "ndr-files/x\n".toList none (sampleDigest.hexdigest [])
    "ndr-files".toList (by decide) (.of_all (by decide) (by decide) (by decide)) (by decide)
  exact absurd ((hagree.grammar.mp (by decide)).safe '\n' (by decide)) (by decide)

end ObjectKeys
