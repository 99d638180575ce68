import CernityNdr.Framework.Affix
import CernityNdr.Framework.Text

/-! # Object Keys

    The model of `shared/object_keys.py`: which keys off the bus are
    trusted, and the segment of a tenant in a key. Keys are UTF-8 texts, as lists
    of characters. The hash is a parameter: it gives 64 characters out of the
    sixteen hexadecimal digits.

    * `tenantSegment_spec`: a segment is one safe path component.
    * `tseg_unique`: a key is in the namespace of one segment only. -/

namespace ObjectKeys

/-! ### Digests -/

/-- `hashlib.sha256(..).hexdigest()`. -/
structure Digest where
  hexdigest : List UInt8 → List Char
  length : ∀ data, (hexdigest data).length = 64
  hexadecimal : ∀ data, ∀ c ∈ hexdigest data, c ∈ "0123456789abcdef".toList

/-- `s.encode()`. -/
def encode (s : String) : List UInt8 := s.toUTF8.data.toList

theorem encode_injective : Function.Injective encode := by
  intro s t h
  apply String.toByteArray_inj.mp
  apply ByteArray.ext
  exact Array.toList_inj.mp h

theorem mem_of_all_contains {l l' : List Char} (h : l.all l'.contains = true) :
    ∀ c ∈ l, c ∈ l' := by
  simpa using h

/-- The digests of the texts `acme` and `acme.eu`, for use in examples. -/
def sampleDigest : Digest where
  hexdigest data :=
    if data = encode "acme" then
      "822b33ad87c148a0a20a5ba7cd5ebcaa68d36a18e7aad165554903f52ca82757".toList
    else "6a5e7a0e28ce961bfc453e993442d83097781893818fbfdfe940a2d8174fd0c3".toList
  length data := by
    split
    · rfl
    · rfl
  hexadecimal data := by
    split
    · exact mem_of_all_contains (by decide)
    · exact mem_of_all_contains (by decide)

/-! ### Trusted keys -/

/-- What `tenant_segment` keeps of a text: letters, digits, `.`, `_` and `-`. -/
def isAtom (c : Char) : Bool := c.isAlphanum || c = '.' || c = '_' || c = '-'

/-- A character of `_SAFE_KEY`. -/
def isSafe (c : Char) : Bool := isAtom c || c = '/'

/-- What `$` of a pattern leaves of a text: it also stands before a line break
    at the end. -/
def trunk (key : List Char) : List Char :=
  if key.getLast? = some '\n' then key.dropLast else key

/-- `valid_key` of a text. -/
def validKey (key : List Char) : Bool :=
  !(trunk key).isEmpty && decide ((trunk key).length ≤ 256) && (trunk key).all isSafe &&
    !Affix.hasPair '.' key && decide (key.head? ≠ some '/')

def DEFAULT_TENANT_SEGMENT : List Char := "_no-tenant".toList

/-- What is safe in a text, without dots at the ends and in a row. -/
def sanitize (s : List Char) (len : Nat) : List Char :=
  (Affix.strip '.' (Affix.dropPairs '.' (s.filter isAtom))).take len

/-- `s or default`. -/
def orElse (s dflt : List Char) : List Char := if s.isEmpty then dflt else s

/-- `tenant_segment`. -/
def tenantSegment (sha256 : Digest) : Option String → List Char
  | none => DEFAULT_TENANT_SEGMENT
  | some raw =>
    if Text.notBlank raw then
      orElse (sanitize raw.toList 32) ['t'] ++ '-' :: sha256.hexdigest (encode raw)
    else DEFAULT_TENANT_SEGMENT

/-- `<bucket>/<tseg>/`. -/
def namespaceOf (bucket tseg : List Char) : List Char := bucket ++ '/' :: tseg ++ ['/']

/-- `in_tenant_namespace`. -/
def inTenantNamespace (key tseg bucket : List Char) : Bool :=
  (namespaceOf bucket tseg).isPrefixOf key

def ARTIFACT_PREFIX : List Char := "artifacts".toList

/-- `accepted_key`. -/
def acceptedKey (tseg name bucket : List Char) : List Char :=
  namespaceOf bucket tseg ++ ARTIFACT_PREFIX ++ '/' :: name

/-- `in_accepted_namespace`. -/
def inAcceptedNamespace (key tseg bucket : List Char) : Bool :=
  (namespaceOf bucket tseg ++ ARTIFACT_PREFIX ++ ['/']).isPrefixOf key

/-- `key_tenant_segment`. -/
def keyTenantSegment (key bucket : List Char) : Option (List Char) :=
  if validKey key then
    match key.splitOn '/' with
    | b :: tseg :: _ :: _ => if b = bucket ∧ tseg ≠ [] then some tseg else none
    | _ => none
  else none

/-! ### Atoms -/

theorem isAtom_of_hex {c : Char} (h : c ∈ "0123456789abcdef".toList) : isAtom c = true := by
  have hall : "0123456789abcdef".toList.all isAtom = true := by decide
  exact List.all_eq_true.mp hall c h

theorem isSafe_of_isAtom {c : Char} (h : isAtom c = true) : isSafe c = true := by
  rw [isSafe, h]
  rfl

/-- A path component: safe, without separators, not climbing. -/
structure IsAtom (s : List Char) : Prop where
  nonempty : s ≠ []
  safe : ∀ c ∈ s, isAtom c = true
  level : Affix.hasPair '.' s = false

theorem IsAtom.of_all {s : List Char} (hne : s ≠ []) (h : s.all isAtom = true)
    (hlevel : Affix.hasPair '.' s = false) : IsAtom s :=
  ⟨hne, List.all_eq_true.mp h, hlevel⟩

theorem IsAtom.noSlash {s : List Char} (h : IsAtom s) : '/' ∉ s := by
  intro hmem
  exact absurd (h.safe '/' hmem) (by decide)

theorem IsAtom.noNewline {s : List Char} (h : IsAtom s) : '\n' ∉ s := by
  intro hmem
  exact absurd (h.safe '\n' hmem) (by decide)

/-- Two atoms with a dash between them. -/
theorem IsAtom.dash {s t : List Char} (hs : IsAtom s) (ht : IsAtom t) : IsAtom (s ++ '-' :: t) := by
  constructor
  · simp
  · intro c hc
    rcases List.mem_append.mp hc with hc | hc
    · exact hs.safe c hc
    · rcases List.mem_cons.mp hc with rfl | hc
      · rfl
      · exact ht.safe c hc
  · rw [Affix.hasPair_append, Affix.hasPair_cons, hs.level, ht.level]
    simp

theorem IsAtom.of_hexdigest (sha256 : Digest) (data : List UInt8) :
    IsAtom (sha256.hexdigest data) := by
  have hhex := sha256.hexadecimal data
  constructor
  · intro hnil
    have hlength := sha256.length data
    rw [hnil] at hlength
    exact absurd hlength (by decide)
  · exact fun c hc => isAtom_of_hex (hhex c hc)
  · exact Affix.hasPair_of_notMem fun hdot => absurd (hhex '.' hdot) (by decide)

/-! ### What is left of an arbitrary text -/

theorem sanitize_safe (s : List Char) (len : Nat) : ∀ c ∈ sanitize s len, isAtom c = true := by
  intro c hc
  have hstripped := (Affix.strip_infix _ _).subset (List.mem_of_mem_take hc)
  exact (List.mem_filter.mp ((Affix.dropPairs_sublist _ _).subset hstripped)).2

theorem sanitize_level (s : List Char) (len : Nat) : Affix.hasPair '.' (sanitize s len) = false :=
  Affix.hasPair_of_infix ((List.take_prefix _ _).isInfix.trans (Affix.strip_infix _ _))
    (Affix.hasPair_dropPairs _ _)

/-- A text becomes an atom, with a default for nothing. -/
theorem IsAtom.of_sanitize (s : List Char) (len : Nat) {dflt : List Char} (h : IsAtom dflt) :
    IsAtom (orElse (sanitize s len) dflt) := by
  by_cases hempty : (sanitize s len).isEmpty = true
  · rw [orElse, if_pos hempty]
    exact h
  · rw [orElse, if_neg hempty]
    exact ⟨fun hnil => hempty (by rw [hnil]; rfl), sanitize_safe s len, sanitize_level s len⟩

theorem length_orElse_sanitize (s : List Char) {len : Nat} {dflt : List Char}
    (h : dflt.length ≤ len) : (orElse (sanitize s len) dflt).length ≤ len := by
  rw [orElse]
  split
  · exact h
  · exact List.length_take_le _ _

theorem IsAtom.default_segment : IsAtom DEFAULT_TENANT_SEGMENT :=
  .of_all (by decide) (by decide) (by decide)

/-- **The segment of a tenant** is one path component of bounded length. -/
theorem tenantSegment_spec (sha256 : Digest) (tenant : Option String) :
    IsAtom (tenantSegment sha256 tenant) ∧ (tenantSegment sha256 tenant).length ≤ 97 := by
  have hdefault : IsAtom DEFAULT_TENANT_SEGMENT ∧ DEFAULT_TENANT_SEGMENT.length ≤ 97 :=
    ⟨.default_segment, by decide⟩
  cases tenant with
  | none => exact hdefault
  | some raw =>
    rw [tenantSegment]
    split
    · have hlabel : (orElse (sanitize raw.toList 32) ['t']).length ≤ 32 :=
        length_orElse_sanitize raw.toList (by decide)
      have hhex := sha256.length (encode raw)
      have hdefault : IsAtom ['t'] := .of_all (by decide) (by decide) rfl
      refine ⟨(IsAtom.of_sanitize _ _ hdefault).dash (.of_hexdigest _ _), ?_⟩
      rw [List.length_append, List.length_cons]
      omega
    · exact hdefault

/-! ### Trusted keys and their parts -/

theorem trunk_of_noNewline {key : List Char} (h : '\n' ∉ key) : trunk key = key := by
  rw [trunk, if_neg]
  intro hlast
  exact h (List.mem_of_getLast? hlast)

theorem validKey_iff {key : List Char} : validKey key = true ↔
    trunk key ≠ [] ∧ (trunk key).length ≤ 256 ∧ (∀ c ∈ trunk key, isSafe c = true) ∧
      Affix.hasPair '.' key = false ∧ key.head? ≠ some '/' := by
  simp only [validKey, Bool.and_eq_true, Bool.not_eq_true', decide_eq_true_eq, List.all_eq_true,
    List.isEmpty_eq_false_iff, and_assoc]

theorem inTenantNamespace_iff {key tseg bucket : List Char} :
    inTenantNamespace key tseg bucket = true ↔ namespaceOf bucket tseg <+: key :=
  List.isPrefixOf_iff_prefix

/-- A key is in the namespace of one segment only. -/
theorem tseg_unique {key bucket tseg tseg' : List Char} (hseg : '/' ∉ tseg) (hseg' : '/' ∉ tseg')
    (h : namespaceOf bucket tseg <+: key) (h' : namespaceOf bucket tseg' <+: key) : tseg = tseg' := by
  obtain ⟨rest, rfl⟩ := h
  obtain ⟨rest', heq⟩ := h'
  have hparts : tseg' ++ '/' :: rest' = tseg ++ '/' :: rest := by
    simpa [namespaceOf] using heq
  have hsplit := congrArg (List.splitOn '/') hparts
  rw [List.splitOn_append_cons_self_of_not_mem hseg',
    List.splitOn_append_cons_self_of_not_mem hseg] at hsplit
  exact (List.cons.inj hsplit).1.symm

end ObjectKeys
