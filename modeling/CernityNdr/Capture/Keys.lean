import Mathlib.Data.Set.Function
import CernityNdr.Objects.Keys

/-! # The Keys of a Capture

    The model of `validate`, `pcap_key` and `lookback_key` of
    `services/capture-agent/agent.py`. An advertised key is honored when it
    is trusted and in the namespace of the tenant; the look-back key is cut
    out of the forward key at its last dot. Texts are UTF-8.

    * `pcapKey_spec`: the forward key is trusted and in the namespace.
    * `keys_confined_iff`: both keys are, for an accepted directive, exactly
      when an honored key leaves room for the marker, and has its last dot
      after the segment of the tenant. -/

namespace CaptureAgent

open ObjectKeys

/-! ### Directives -/

/-- What `validate` and the keys read of a directive. -/
structure Directive where
  tenantId : Option String
  findingId : Option String
  captureProfile : Option String
  value : Option String
  pcapRef : Option String

/-- The profiles, each with its dataset and its type. -/
def PROFILE_DATASET : List (String × String × String) :=
  [("ip", "ndr-capture-ip", "ip"), ("ja4", "ndr-capture-ja4", "string"),
    ("sni", "ndr-capture-sni", "string"), ("dns", "ndr-capture-dns", "string")]

def Directive.profile (d : Directive) : String := d.captureProfile.getD "ip"

/-- `validate`. -/
def validate (d : Directive) : Bool × String :=
  let value := Text.strip (d.value.getD "").toList
  if d.profile ∉ PROFILE_DATASET.map Prod.fst then (false, "unknown profile " ++ d.profile)
  else if value.isEmpty then (false, "empty value")
  else if value.any Text.isSpace then (false, "value has whitespace")
  else (true, "ok")

/-! ### Keys -/

def BUCKET : List Char := "ndr-pcap".toList

def Directive.segment (sha256 : Digest) (d : Directive) : List Char :=
  tenantSegment sha256 d.tenantId

/-- `_sanitize`. -/
def sanitize (s : String) : List Char := orElse (ObjectKeys.sanitize s.toList 128) "cap".toList

/-- `str` of a field. -/
def str : Option String → String
  | none => "None"
  | some s => s

/-- The advertised key is trusted in the namespace of the directive's tenant. -/
def Directive.honored (sha256 : Digest) (d : Directive) : Option (List Char) :=
  (d.pcapRef.map String.toList).filter fun ref =>
    validKey ref && inTenantNamespace ref (d.segment sha256) BUCKET

/-- `finding_id or value`. -/
def Directive.fileId (d : Directive) : Option String :=
  if d.findingId = none ∨ d.findingId = some "" then d.value else d.findingId

/-- `pcap_key`. -/
def pcapKey (sha256 : Digest) (d : Directive) : List Char :=
  (d.honored sha256).getD
    (namespaceOf BUCKET (d.segment sha256) ++
      (sanitize (str d.fileId) ++ '-' :: sanitize d.profile ++ ".pcap".toList))

/-- `lookback_key`. -/
def lookbackKey (sha256 : Digest) (d : Directive) : List Char :=
  let base := pcapKey sha256 d
  let (root, ext) := Affix.rpartition '.' base
  if root.isEmpty then base ++ "-lookback".toList else root ++ "-lookback.".toList ++ ext

def keys (sha256 : Digest) (d : Directive) : List (List Char) :=
  [pcapKey sha256 d, lookbackKey sha256 d]

/-! ### Confined keys -/

/-- No two of the tenants have one digest. -/
def Collisionless (sha256 : Digest) (tenants : Set String) : Prop :=
  Set.InjOn (fun t => sha256.hexdigest (encode t)) tenants

/-- The directive is of one of the tenants, or of none. -/
def Directive.OfTenants (tenants : Set String) (d : Directive) : Prop :=
  ∀ t ∈ d.tenantId, t ∈ tenants

/-- Both keys are in the namespace of the tenant and trusted, they differ, and
    no directive of another segment has one of them. -/
structure Confined (sha256 : Digest) (tenants : Set String) (d : Directive) : Prop where
  inside : ∀ k ∈ keys sha256 d, inTenantNamespace k (d.segment sha256) BUCKET = true
  valid : ∀ k ∈ keys sha256 d, validKey k = true
  differ : pcapKey sha256 d ≠ lookbackKey sha256 d
  apart : ∀ d' : Directive, (validate d').1 = true → d'.OfTenants tenants →
    d'.segment sha256 ≠ d.segment sha256 → ∀ k ∈ keys sha256 d, k ∉ keys sha256 d'

/-- What stands in a key after the namespace. -/
def Directive.fileOf (sha256 : Digest) (d : Directive) (key : List Char) : List Char :=
  key.drop (namespaceOf BUCKET (d.segment sha256)).length

/-- The key leaves room for the marker of the look-back key, and its last dot
    is in its file, or it has no dot and no line break at its end. -/
def Directive.HasRoom (sha256 : Digest) (d : Directive) (key : List Char) : Prop :=
  (trunk key).length ≤ 247 ∧
    ('.' ∈ d.fileOf sha256 key ∨ '.' ∉ d.segment sha256 ∧ key.getLast? ≠ some '\n')

/-- An honored key has room. -/
def LeavesRoom (sha256 : Digest) (d : Directive) : Prop :=
  ∀ ref ∈ d.honored sha256, d.HasRoom sha256 ref

/-! ### Trusted texts -/

/-- A trusted key without the line break at its end. -/
structure SafeBody (body : List Char) : Prop where
  nonempty : body ≠ []
  length : body.length ≤ 256
  safe : ∀ c ∈ body, isSafe c = true
  level : Affix.hasPair '.' body = false
  relative : body.head? ≠ some '/'

variable {body nl root ext : List Char}

theorem SafeBody.noNewline (h : SafeBody body) : '\n' ∉ body :=
  fun hmem => absurd (h.safe '\n' hmem) (by decide)

theorem trunk_append (hbody : '\n' ∉ body) (hnl : nl = [] ∨ nl = ['\n']) :
    trunk (body ++ nl) = body := by
  rcases hnl with rfl | rfl
  · rw [List.append_nil, trunk_of_noNewline hbody]
  · rw [trunk, if_pos (List.getLast?_concat), List.dropLast_concat]

theorem trunk_spec (key : List Char) : ∃ nl, (nl = [] ∨ nl = ['\n']) ∧ key = trunk key ++ nl := by
  rw [trunk]
  split
  · next hlast =>
    refine ⟨['\n'], Or.inr rfl, ?_⟩
    obtain ⟨init, rfl⟩ := List.getLast?_eq_some_iff.mp hlast
    rw [List.dropLast_concat]
  · exact ⟨[], Or.inl rfl, (List.append_nil key).symm⟩

/-- A key is trusted when it is without the line break at its end. -/
theorem validKey_append (hbody : '\n' ∉ body) (hnl : nl = [] ∨ nl = ['\n']) :
    validKey (body ++ nl) = true ↔ SafeBody body := by
  have hpair : Affix.hasPair '.' (body ++ nl) = Affix.hasPair '.' body := by
    rcases hnl with rfl | rfl
    · rw [List.append_nil]
    · rw [Affix.hasPair_append]
      simp
  have hhead : body ≠ [] → (body ++ nl).head? = body.head? := by
    intro hne
    obtain ⟨c, cs, rfl⟩ := List.exists_cons_of_ne_nil hne
    rfl
  rw [validKey_iff, trunk_append hbody hnl, hpair]
  constructor
  · rintro ⟨hne, hlength, hsafe, hlevel, hrel⟩
    exact ⟨hne, hlength, hsafe, hlevel, hhead hne ▸ hrel⟩
  · rintro ⟨hne, hlength, hsafe, hlevel, hrel⟩
    exact ⟨hne, hlength, hsafe, hlevel, (hhead hne).symm ▸ hrel⟩

theorem exists_body {key : List Char} (h : validKey key = true) :
    ∃ body nl, SafeBody body ∧ (nl = [] ∨ nl = ['\n']) ∧ key = body ++ nl ∧ trunk key = body := by
  obtain ⟨nl, hnl, heq⟩ := trunk_spec key
  have hsafe := (validKey_iff.mp h).2.2.1
  have hbody : '\n' ∉ trunk key := fun hmem => absurd (hsafe '\n' hmem) (by decide)
  refine ⟨trunk key, nl, ?_, hnl, heq, rfl⟩
  rw [heq, validKey_append hbody hnl] at h
  exact h

theorem bucket_atom : IsAtom BUCKET := .of_all (by decide) (by decide) (by decide)

def marker : List Char := "-lookback".toList

theorem marker_atom : IsAtom marker := .of_all (by decide) (by decide) (by decide)

/-- The marker keeps a key trusted when it has room. -/
theorem safeBody_marked {tail : List Char} (h : SafeBody (root ++ tail)) (hroot : root ≠ []) :
    SafeBody (root ++ marker ++ tail) ↔ (root ++ tail).length ≤ 247 := by
  have hlen : (root ++ marker ++ tail).length = (root ++ tail).length + 9 := by
    have hmarker : marker.length = 9 := rfl
    simp only [List.length_append, hmarker]
    omega
  constructor
  · intro hmarked
    have hlength := hmarked.length
    omega
  · intro hroom
    have hlevel := h.level
    rw [Affix.hasPair_append] at hlevel
    simp only [Bool.or_eq_false_iff] at hlevel
    constructor
    · simp [hroot]
    · omega
    · intro c hc
      rw [List.append_assoc, List.mem_append, List.mem_append] at hc
      rcases hc with hc | hc | hc
      · exact h.safe c (List.mem_append_left _ hc)
      · exact isSafe_of_isAtom (marker_atom.safe c hc)
      · exact h.safe c (List.mem_append_right _ hc)
    · -- the marker has no dots, so its seams are no pairs
      have hlast : (root ++ marker).getLast? = some 'k' := by
        rw [List.getLast?_append]
        rfl
      have hfirst : marker.head? = some '-' := rfl
      rw [Affix.hasPair_append, Affix.hasPair_append, hlevel.1.1, hlevel.1.2, marker_atom.level, hlast,
        hfirst]
      simp
    · have hrel := h.relative
      obtain ⟨c, cs, rfl⟩ := List.exists_cons_of_ne_nil hroot
      exact hrel

/-! ### The forward key -/

variable {sha256 : Digest} {d : Directive} {tenants : Set String}

theorem honored_spec {ref : List Char} (h : ref ∈ d.honored sha256) :
    validKey ref = true ∧ namespaceOf BUCKET (d.segment sha256) <+: ref := by
  have hok := (Option.mem_filter_iff.mp h).2
  rw [Bool.and_eq_true, inTenantNamespace_iff] at hok
  exact hok

/-- The end of a file of an accepted directive. -/
theorem profile_file (h : (validate d).1 = true) : IsAtom (sanitize d.profile ++ ".pcap".toList) ∧
    (sanitize d.profile ++ ".pcap".toList).length ≤ 8 := by
  have hprofile : d.profile ∈ PROFILE_DATASET.map Prod.fst := by
    by_contra hnot
    rw [validate, if_pos hnot] at h
    cases h
  simp only [PROFILE_DATASET, List.map_cons, List.map_nil, List.mem_cons, List.not_mem_nil,
    or_false] at hprofile
  rcases hprofile with hp | hp | hp | hp
  all_goals
    rw [hp]
    exact ⟨.of_all (by decide) (by decide) (by decide), by decide⟩

/-- Three atoms make a trusted path. -/
theorem safeBody_path {bucket seg file : List Char} (hbucket : IsAtom bucket) (hseg : IsAtom seg)
    (hfile : IsAtom file) (hlen : bucket.length + seg.length + file.length ≤ 254) :
    SafeBody (namespaceOf bucket seg ++ file) := by
  obtain ⟨c, cs, hc⟩ := List.exists_cons_of_ne_nil hbucket.nonempty
  constructor
  · rw [hc]
    simp [namespaceOf]
  · simp only [namespaceOf, List.length_append, List.length_cons, List.length_nil]
    omega
  · intro a ha
    simp only [namespaceOf, List.mem_append, List.mem_cons, List.not_mem_nil, or_false] at ha
    rcases ha with ((ha | rfl | ha) | rfl) | ha
    · exact isSafe_of_isAtom (hbucket.safe a ha)
    · rfl
    · exact isSafe_of_isAtom (hseg.safe a ha)
    · rfl
    · exact isSafe_of_isAtom (hfile.safe a ha)
  · rw [namespaceOf, List.append_assoc, List.append_assoc, Affix.hasPair_append, List.cons_append,
      Affix.hasPair_cons, Affix.hasPair_append, List.singleton_append, Affix.hasPair_cons,
      hbucket.level, hseg.level, hfile.level]
    simp
  · have hfirst := hbucket.noSlash
    rw [hc, List.mem_cons, not_or] at hfirst
    rw [hc]
    simpa [namespaceOf] using Ne.symm hfirst.1

variable (sha256) in
/-- **The forward key** is trusted and in the namespace of the tenant. -/
theorem pcapKey_spec (h : (validate d).1 = true) : validKey (pcapKey sha256 d) = true ∧
    namespaceOf BUCKET (d.segment sha256) <+: pcapKey sha256 d := by
  cases hhonored : d.honored sha256 with
  | some ref =>
    rw [pcapKey, hhonored]
    exact honored_spec hhonored
  | none =>
    rw [pcapKey, hhonored]
    refine ⟨?_, List.prefix_append _ _⟩
    obtain ⟨hseg, hseglen⟩ := tenantSegment_spec sha256 d.tenantId
    obtain ⟨hprofile, hproflen⟩ := profile_file h
    have hfid : IsAtom (sanitize (str d.fileId)) :=
      .of_sanitize _ _ (.of_all (by decide) (by decide) (by decide))
    have hfidlen : (sanitize (str d.fileId)).length ≤ 128 :=
      length_orElse_sanitize _ (by decide)
    have hbody : SafeBody (namespaceOf BUCKET (d.segment sha256) ++
        (sanitize (str d.fileId) ++ '-' :: (sanitize d.profile ++ ".pcap".toList))) := by
      refine safeBody_path bucket_atom hseg (hfid.dash hprofile) ?_
      have hbucket : BUCKET.length = 8 := rfl
      have hlen : (d.segment sha256).length ≤ 97 := hseglen
      rw [List.length_append, List.length_cons]
      omega
    have hvalid := (validKey_append hbody.noNewline (Or.inl rfl)).mpr hbody
    simpa using hvalid

variable (sha256) in
/-- What stands after the namespace of a key of the directive. -/
theorem pcapKey_file (h : (validate d).1 = true) : pcapKey sha256 d =
    namespaceOf BUCKET (d.segment sha256) ++ d.fileOf sha256 (pcapKey sha256 d) := by
  obtain ⟨file, hfile⟩ := (pcapKey_spec sha256 h).2
  rw [Directive.fileOf, ← hfile, List.drop_left]

theorem namespaceOf_ne_nil (bucket tseg : List Char) : namespaceOf bucket tseg ≠ [] := by
  simp [namespaceOf]

theorem dot_mem_namespaceOf {tseg : List Char} : '.' ∈ namespaceOf BUCKET tseg ↔ '.' ∈ tseg := by
  have hbucket : '.' ∉ BUCKET := by decide
  simp [namespaceOf, hbucket]

/-! ### The look-back key -/

theorem lookbackKey_of_dot (hroot : root ≠ []) (hext : '.' ∉ ext)
    (h : pcapKey sha256 d = root ++ '.' :: ext) :
    lookbackKey sha256 d = root ++ marker ++ '.' :: ext := by
  rw [lookbackKey, h, Affix.rpartition_append hext]
  dsimp only
  rw [if_neg (by simpa using hroot), List.append_assoc, List.append_assoc]
  rfl

theorem lookbackKey_of_noDot (h : '.' ∉ pcapKey sha256 d) :
    lookbackKey sha256 d = pcapKey sha256 d ++ marker := by
  rw [lookbackKey, Affix.rpartition_of_notMem h]
  rfl

variable (sha256) in
/-- **The look-back key** has the marker before the last dot of the forward
    key, or at its end. -/
theorem lookbackKey_cases (h : (validate d).1 = true) :
    (∃ root ext, root ≠ [] ∧ '.' ∉ ext ∧ pcapKey sha256 d = root ++ '.' :: ext ∧
        lookbackKey sha256 d = root ++ marker ++ '.' :: ext) ∨
      '.' ∉ pcapKey sha256 d ∧ lookbackKey sha256 d = pcapKey sha256 d ++ marker := by
  by_cases hdot : '.' ∈ pcapKey sha256 d
  · obtain ⟨root, ext, hkey, hext⟩ := Affix.exists_last hdot
    have hroot : root ≠ [] := by
      rintro rfl
      obtain ⟨file, hfile⟩ := (pcapKey_spec sha256 h).2
      rw [hkey] at hfile
      cases hfile
    exact Or.inl ⟨root, ext, hroot, hext, hkey, lookbackKey_of_dot hroot hext hkey⟩
  · exact Or.inr ⟨hdot, lookbackKey_of_noDot hdot⟩

theorem pcapKey_ne_lookbackKey (h : (validate d).1 = true) :
    pcapKey sha256 d ≠ lookbackKey sha256 d := by
  have hmarker : marker.length = 9 := rfl
  intro heq
  have hlen := congrArg List.length heq
  rcases lookbackKey_cases sha256 h with ⟨root, ext, -, -, hkey, hlook⟩ | ⟨-, hlook⟩
  · rw [hlook, hkey] at hlen
    simp only [List.length_append, List.length_cons, hmarker] at hlen
    omega
  · rw [hlook, List.length_append, hmarker] at hlen
    omega

variable (sha256) in
/-- The look-back key is trusted when the marker has room and is not put after
    a line break. -/
theorem validKey_lookbackKey (h : (validate d).1 = true) :
    validKey (lookbackKey sha256 d) = true ↔ (trunk (pcapKey sha256 d)).length ≤ 247 ∧
      ('.' ∈ pcapKey sha256 d ∨ (pcapKey sha256 d).getLast? ≠ some '\n') := by
  obtain ⟨body, nl, hbody, hnl, hkey, htrunk⟩ := exists_body (pcapKey_spec sha256 h).1
  have hnodot : '.' ∉ nl := by
    rcases hnl with rfl | rfl
    · simp
    · decide
  rw [htrunk]
  rcases lookbackKey_cases sha256 h with ⟨root, ext, hroot, hext, hdot, hlook⟩ |
    ⟨hdot, hlook⟩
  · -- the dot is in the body, and the line break stays at the end
    obtain ⟨root', ext', hbody', hext'⟩ : ∃ root' ext', body = root' ++ '.' :: ext' ∧ '.' ∉ ext' := by
      apply Affix.exists_last
      have hmem : '.' ∈ body ++ nl := by
        rw [← hkey, hdot]
        simp
      exact (List.mem_append.mp hmem).resolve_right hnodot
    have hsame : root = root' ∧ ext = ext' ++ nl := by
      have hcut : Affix.rpartition '.' (root ++ '.' :: ext) =
          Affix.rpartition '.' (root' ++ '.' :: (ext' ++ nl)) := by
        rw [← hdot, hkey, hbody']
        simp
      rw [Affix.rpartition_append hext, Affix.rpartition_append (by simp [hext', hnodot])] at hcut
      exact Prod.mk.inj hcut
    obtain ⟨rfl, rfl⟩ := hsame
    have hlook' : lookbackKey sha256 d = (root ++ marker ++ '.' :: ext') ++ nl := by
      rw [hlook]
      simp
    have hnew : '\n' ∉ root ++ marker ++ '.' :: ext' := by
      have hold := hbody.noNewline
      rw [hbody'] at hold
      have hmarker := marker_atom.noNewline
      simp only [List.mem_append, List.mem_cons, not_or] at hold ⊢
      exact ⟨⟨hold.1, hmarker⟩, hold.2⟩
    rw [hlook', validKey_append hnew hnl, safeBody_marked (hbody' ▸ hbody) hroot, ← hbody']
    have hmem : '.' ∈ pcapKey sha256 d := by
      rw [hdot]
      simp
    simp [hmem]
  · rcases hnl with rfl | rfl
    · rw [List.append_nil] at hkey
      have hlook' : lookbackKey sha256 d = (body ++ marker ++ []) ++ [] := by
        rw [hlook, hkey, List.append_nil, List.append_nil]
      have hnew : '\n' ∉ body ++ marker ++ [] := by
        simpa using ⟨hbody.noNewline, marker_atom.noNewline⟩
      rw [hlook', validKey_append hnew (Or.inl rfl),
        safeBody_marked (by rw [List.append_nil]; exact hbody) hbody.nonempty, List.append_nil, hkey]
      have hlast : body.getLast? ≠ some '\n' :=
        fun hlast => hbody.noNewline (List.mem_of_getLast? hlast)
      simp [hlast]
    · -- a line break before the marker
      have hinvalid : validKey (lookbackKey sha256 d) ≠ true := by
        intro hvalid
        have hsafe := (validKey_iff.mp hvalid).2.2.1
        have hlast : (lookbackKey sha256 d).getLast? ≠ some '\n' := by
          have hk : marker.getLast? = some 'k' := rfl
          rw [hlook, List.getLast?_append, hk]
          simp
        rw [trunk, if_neg hlast, hlook, hkey] at hsafe
        exact absurd (hsafe '\n' (by simp)) (by decide)
      rw [hkey] at hdot ⊢
      simp [hinvalid, hdot]

variable (sha256) in
/-- The path component of the look-back key: the segment of the tenant, or
    that segment with the marker before its last dot. -/
theorem lookbackKey_component (h : (validate d).1 = true) :
    (('.' ∈ d.fileOf sha256 (pcapKey sha256 d) ∨ '.' ∉ d.segment sha256) ∧
        namespaceOf BUCKET (d.segment sha256) <+: lookbackKey sha256 d) ∨
      ('.' ∉ d.fileOf sha256 (pcapKey sha256 d) ∧ ∃ a b, d.segment sha256 = a ++ '.' :: b ∧
        '.' ∉ b ∧ namespaceOf BUCKET (a ++ marker ++ '.' :: b) <+: lookbackKey sha256 d) := by
  have hfile := pcapKey_file sha256 h
  generalize d.fileOf sha256 (pcapKey sha256 d) = file at hfile ⊢
  by_cases hdot : '.' ∈ file
  · obtain ⟨root, ext, rfl, hext⟩ := Affix.exists_last hdot
    have hkey : pcapKey sha256 d = (namespaceOf BUCKET (d.segment sha256) ++ root) ++ '.' :: ext := by
      rw [hfile, List.append_assoc]
    have hroot : namespaceOf BUCKET (d.segment sha256) ++ root ≠ [] := by
      simp [namespaceOf_ne_nil]
    rw [lookbackKey_of_dot hroot hext hkey, List.append_assoc, List.append_assoc]
    exact Or.inl ⟨Or.inl hdot, List.prefix_append _ _⟩
  · by_cases hseg : '.' ∈ d.segment sha256
    · obtain ⟨a, b, heq, hb⟩ := Affix.exists_last hseg
      have hkey : pcapKey sha256 d = (BUCKET ++ '/' :: a) ++ '.' :: (b ++ '/' :: file) := by
        rw [hfile, heq]
        simp [namespaceOf]
      have hlook := lookbackKey_of_dot (by simp) (by simp [hb, hdot]) hkey
      refine Or.inr ⟨hdot, a, b, heq, hb, ?_⟩
      rw [hlook]
      exact ⟨file, by simp [namespaceOf]⟩
    · have hnone : '.' ∉ pcapKey sha256 d := by
        rw [hfile, List.mem_append, dot_mem_namespaceOf, not_or]
        exact ⟨hseg, hdot⟩
      rw [lookbackKey_of_noDot hnone, hfile, List.append_assoc]
      exact Or.inl ⟨Or.inr hseg, List.prefix_append _ _⟩

theorem segment_noSlash (sha256 : Digest) (d : Directive) : '/' ∉ d.segment sha256 :=
  (tenantSegment_spec sha256 d.tenantId).1.noSlash

/-- A part of a segment with the marker is one path component. -/
theorem marked_noSlash {a b : List Char} (h : d.segment sha256 = a ++ '.' :: b) :
    '/' ∉ a ++ marker ++ '.' :: b := by
  have hslash := segment_noSlash sha256 d
  have hmarker := marker_atom.noSlash
  rw [h] at hslash
  simp only [List.mem_append, List.mem_cons, not_or] at hslash ⊢
  exact ⟨⟨hslash.1, hmarker⟩, hslash.2⟩

variable (sha256) in
/-- The look-back key is in the namespace of the tenant unless it is cut in
    the segment. -/
theorem lookbackKey_inside (h : (validate d).1 = true) :
    inTenantNamespace (lookbackKey sha256 d) (d.segment sha256) BUCKET = true ↔
      '.' ∈ d.fileOf sha256 (pcapKey sha256 d) ∨ '.' ∉ d.segment sha256 := by
  rw [inTenantNamespace_iff]
  rcases lookbackKey_component sha256 h with ⟨hdot, hinside⟩ | ⟨hdot, a, b, heq, -, hout⟩
  · exact iff_of_true hinside hdot
  · refine iff_of_false ?_ (by simp [hdot, heq])
    intro hinside
    have hsame := tseg_unique (segment_noSlash sha256 d) (marked_noSlash heq) hinside hout
    have hlen := congrArg List.length (heq.symm.trans hsame)
    have hmarker : marker.length = 9 := rfl
    simp only [List.length_append, List.length_cons, hmarker] at hlen
    omega

/-! ### Tenants apart -/

/-- A path component of a tenant: it ends with the digest of the tenant. -/
def OfTenant (sha256 : Digest) (tenant : Option String) (seg : List Char) : Prop :=
  match tenant.filter Text.notBlank with
  | none => seg = DEFAULT_TENANT_SEGMENT
  | some raw => sha256.hexdigest (encode raw) <:+ seg

theorem tenantSegment_cases (sha256 : Digest) (tenant : Option String) :
    (tenant.filter Text.notBlank = none ∧
        tenantSegment sha256 tenant = DEFAULT_TENANT_SEGMENT) ∨
      ∃ raw label, tenant = some raw ∧ tenant.filter Text.notBlank = some raw ∧
        tenantSegment sha256 tenant = label ++ '-' :: sha256.hexdigest (encode raw) := by
  cases tenant with
  | none => exact Or.inl ⟨rfl, rfl⟩
  | some raw =>
    by_cases hblank : Text.notBlank raw = true
    · refine Or.inr ⟨raw, orElse (ObjectKeys.sanitize raw.toList 32) ['t'], rfl, ?_, ?_⟩
      · rw [Option.filter, if_pos hblank]
      · rw [tenantSegment, if_pos hblank]
    · refine Or.inl ⟨?_, ?_⟩
      · rw [Option.filter, if_neg hblank]
      · rw [tenantSegment, if_neg hblank]

theorem hexdigest_noDot (sha256 : Digest) (data : List UInt8) : '.' ∉ sha256.hexdigest data :=
  fun hmem => absurd (sha256.hexadecimal data '.' hmem) (by decide)

/-- What follows the last dot keeps a part without dots. -/
theorem suffix_after_dot {hex a b : List Char} (hhex : '.' ∉ hex) (h : hex <:+ a ++ '.' :: b) :
    hex <:+ b := by
  rcases List.suffix_or_suffix_of_suffix h (List.suffix_append a ('.' :: b)) with hshort | hlong
  · rcases List.suffix_cons_iff.mp hshort with heq | hsuffix
    · exact absurd (heq ▸ List.mem_cons_self) hhex
    · exact hsuffix
  · exact absurd (hlong.subset List.mem_cons_self) hhex

/-- Every key of a directive has a path component of its tenant. -/
theorem component_of_mem_keys (h : (validate d).1 = true) {k : List Char} (hk : k ∈ keys sha256 d) :
    ∃ seg, '/' ∉ seg ∧ OfTenant sha256 d.tenantId seg ∧ namespaceOf BUCKET seg <+: k := by
  have hown : OfTenant sha256 d.tenantId (d.segment sha256) := by
    rcases tenantSegment_cases sha256 d.tenantId with ⟨hnone, heq⟩ | ⟨raw, label, -, hsome, heq⟩
    · rw [OfTenant, hnone]
      exact heq
    · rw [OfTenant, hsome, Directive.segment, heq]
      exact ⟨label ++ ['-'], by simp⟩
  simp only [keys, List.mem_cons, List.not_mem_nil, or_false] at hk
  rcases hk with rfl | rfl
  · exact ⟨_, segment_noSlash sha256 d, hown, (pcapKey_spec sha256 h).2⟩
  · rcases lookbackKey_component sha256 h with ⟨-, hin⟩ | ⟨-, a, b, heq, -, hout⟩
    · exact ⟨_, segment_noSlash sha256 d, hown, hin⟩
    · refine ⟨_, marked_noSlash heq, ?_, hout⟩
      -- a segment with a dot is no default segment, and its digest is after the dot
      rcases tenantSegment_cases sha256 d.tenantId with ⟨-, hdefault⟩ | ⟨raw, label, -, hsome, -⟩
      · rw [Directive.segment, hdefault] at heq
        have hdot : '.' ∈ DEFAULT_TENANT_SEGMENT := by
          rw [heq]
          simp
        exact absurd hdot (by decide)
      · rw [OfTenant, hsome] at hown ⊢
        rw [heq] at hown
        refine (suffix_after_dot (hexdigest_noDot sha256 _) hown).trans ?_
        exact ⟨a ++ marker ++ ['.'], by simp⟩

/-- A path component belongs to one tenant. -/
theorem segment_eq_of_component (hinj : Collisionless sha256 tenants) {d' : Directive}
    (hd : d.OfTenants tenants) (hd' : d'.OfTenants tenants) {seg : List Char}
    (hseg : OfTenant sha256 d.tenantId seg) (hseg' : OfTenant sha256 d'.tenantId seg) :
    d'.segment sha256 = d.segment sha256 := by
  have hlong : ∀ data, ¬sha256.hexdigest data <:+ DEFAULT_TENANT_SEGMENT := by
    intro data hsuffix
    have hle := hsuffix.length_le
    rw [sha256.length] at hle
    exact absurd hle (by decide)
  rw [OfTenant] at hseg hseg'
  rcases tenantSegment_cases sha256 d.tenantId with ⟨hnone, heq⟩ | ⟨raw, label, hraw, hsome, heq⟩
  · rcases tenantSegment_cases sha256 d'.tenantId with ⟨hnone', heq'⟩ | ⟨raw', -, -, hsome', -⟩
    · rw [Directive.segment, Directive.segment, heq, heq']
    · rw [hnone] at hseg
      rw [hsome', hseg] at hseg'
      exact absurd hseg' (hlong _)
  · rcases tenantSegment_cases sha256 d'.tenantId with ⟨hnone', -⟩ | ⟨raw', label', hraw', hsome', -⟩
    · rw [hnone'] at hseg'
      rw [hsome, hseg'] at hseg
      exact absurd hseg (hlong _)
    · rw [hsome] at hseg
      rw [hsome'] at hseg'
      have hhex : sha256.hexdigest (encode raw) = sha256.hexdigest (encode raw') := by
        have hlen : (sha256.hexdigest (encode raw)).length =
            (sha256.hexdigest (encode raw')).length := by
          rw [sha256.length, sha256.length]
        exact (List.suffix_of_suffix_length_le hseg hseg' hlen.le).eq_of_length hlen
      have hsame := hinj (hd raw hraw) (hd' raw' hraw') hhex
      rw [Directive.segment, Directive.segment, hraw, hraw', hsame]

/-! ### Both keys -/

/-- The computed key has room for the marker. -/
theorem hasRoom_fallback (h : (validate d).1 = true) (hnone : d.honored sha256 = none) :
    d.HasRoom sha256 (pcapKey sha256 d) := by
  have hkey : pcapKey sha256 d = namespaceOf BUCKET (d.segment sha256) ++
      (sanitize (str d.fileId) ++ '-' :: sanitize d.profile ++ ".pcap".toList) := by
    rw [pcapKey, hnone, Option.getD_none]
  obtain ⟨body, nl, hbody, hnl, heq, htrunk⟩ := exists_body (pcapKey_spec sha256 h).1
  constructor
  · have hseg : (d.segment sha256).length ≤ 97 := (tenantSegment_spec sha256 d.tenantId).2
    have hprofile := (profile_file h).2
    have hfid : (sanitize (str d.fileId)).length ≤ 128 := length_orElse_sanitize _ (by decide)
    have hbucket : BUCKET.length = 8 := rfl
    have hlen : (pcapKey sha256 d).length = 8 + (d.segment sha256).length + 3 +
        (sanitize (str d.fileId)).length + (sanitize d.profile ++ ".pcap".toList).length := by
      rw [hkey]
      simp only [namespaceOf, List.length_append, List.length_cons, List.length_nil, hbucket]
      omega
    have hle : (trunk (pcapKey sha256 d)).length ≤ (pcapKey sha256 d).length := by
      rw [htrunk, heq, List.length_append]
      exact Nat.le_add_right _ _
    omega
  · rw [Directive.fileOf, hkey, List.drop_left]
    simp

theorem leavesRoom_iff (h : (validate d).1 = true) :
    LeavesRoom sha256 d ↔ d.HasRoom sha256 (pcapKey sha256 d) := by
  cases hhonored : d.honored sha256 with
  | none =>
    refine iff_of_true ?_ (hasRoom_fallback h hhonored)
    intro ref href
    rw [hhonored] at href
    cases href
  | some ref =>
    rw [LeavesRoom, hhonored, pcapKey, hhonored, Option.getD_some]
    exact ⟨fun hall => hall ref rfl, fun hroom ref' href => Option.some.inj href ▸ hroom⟩

/-- **The keys of an accepted directive** are confined exactly when an honored
    key leaves room for the marker of the look-back key, and is not cut in the
    segment of the tenant or after a line break. -/
theorem keys_confined_iff (sha256 : Digest) (tenants : Set String)
    (hinj : Collisionless sha256 tenants) (d : Directive) (hd : d.OfTenants tenants)
    (h : (validate d).1 = true) : Confined sha256 tenants d ↔ LeavesRoom sha256 d := by
  have hfile := pcapKey_file sha256 h
  have hdot : '.' ∈ pcapKey sha256 d ↔
      '.' ∈ d.segment sha256 ∨ '.' ∈ d.fileOf sha256 (pcapKey sha256 d) := by
    conv_lhs => rw [hfile]
    rw [List.mem_append, dot_mem_namespaceOf]
  have hlook := lookbackKey_inside sha256 h
  have hvalid := validKey_lookbackKey sha256 h
  rw [leavesRoom_iff h]
  constructor
  · intro hc
    have hinside := hlook.mp (hc.inside _ (by simp [keys]))
    obtain ⟨hlength, hend⟩ := hvalid.mp (hc.valid _ (by simp [keys]))
    refine ⟨hlength, ?_⟩
    rw [hdot] at hend
    rcases hinside with hin | hseg
    · exact Or.inl hin
    · rcases hend with (hseg' | hin) | hlast
      · exact absurd hseg' hseg
      · exact Or.inl hin
      · exact Or.inr ⟨hseg, hlast⟩
  · rintro ⟨hlength, hroom⟩
    obtain ⟨hpvalid, hpinside⟩ := pcapKey_spec sha256 h
    constructor
    · intro k hk
      simp only [keys, List.mem_cons, List.not_mem_nil, or_false] at hk
      rcases hk with rfl | rfl
      · exact inTenantNamespace_iff.mpr hpinside
      · exact hlook.mpr (hroom.imp_right And.left)
    · intro k hk
      simp only [keys, List.mem_cons, List.not_mem_nil, or_false] at hk
      rcases hk with rfl | rfl
      · exact hpvalid
      · refine hvalid.mpr ⟨hlength, ?_⟩
        rw [hdot]
        exact hroom.imp Or.inr And.right
    · exact pcapKey_ne_lookbackKey h
    · intro d' h' hd' hsegs k hk hk'
      obtain ⟨seg, hslash, hown, hpre⟩ := component_of_mem_keys h hk
      obtain ⟨seg', hslash', hown', hpre'⟩ := component_of_mem_keys h' hk'
      obtain rfl := tseg_unique hslash hslash' hpre hpre'
      exact hsegs (segment_eq_of_component hinj hd hd' hown hown')

/-- A key that is computed from the finding. -/
theorem computed_keys_confined : Confined sampleDigest {"acme"}
    ⟨some "acme", some "F-7", none, some "10.0.0.1", none⟩ := by
  refine (keys_confined_iff sampleDigest {"acme"} (Set.injOn_singleton _ _) _ ?_ (by decide)).mpr ?_
  · intro t ht
    exact Option.some.inj ht ▸ rfl
  · intro ref href
    cases href

/-- The tenant `acme.eu` and an advertised file without a dot: the look-back
    key is cut in the segment of the tenant. -/
theorem dotted_tenant_leaves_namespace :
    ¬∀ (sha256 : Digest) (tenants : Set String) (d : Directive), Collisionless sha256 tenants →
      d.OfTenants tenants → (validate d).1 = true → Confined sha256 tenants d := by
  intro h
  have hconfined := h sampleDigest {"acme.eu"} ⟨some "acme.eu", some "F-7", none, some "10.0.0.1",
    some ("ndr-pcap/acme.eu-6a5e7a0e28ce961bfc453e993442d83097781893818fbfdfe940a2d8174fd0c3" ++
      "/window")⟩ (Set.injOn_singleton _ _) (fun t ht => Option.some.inj ht ▸ rfl) (by decide)
  exact absurd (hconfined.inside _ (List.mem_cons_of_mem _ List.mem_cons_self)) (by decide +kernel)

end CaptureAgent
