import CernityNdr.Forwarder.Cef
import CernityNdr.Forwarder.Records
import CernityNdr.Framework.Conversion
import CernityNdr.Objects.Keys

/-! # Document Ids and Delivery Obligations

    The ids that the Elasticsearch adapter gives to its documents, beside the
    keys under which the ledger tracks deliveries. A finding's id joins its
    tenant, its id and its revision by colons; a record of another kind is
    named by the hash of its key.

    * `textOf_eq_iff`: when two findings have one document.
    * `docId_agrees_iff`: ids and keys tell the same records apart exactly
      when the two are not confused. -/

namespace FindingsForwarder

open Json (Dict)
open ObjectKeys (Digest encode)

/-! ### The ids -/

/-- `ElasticsearchAdapter._doc_id`. -/
def docId (repr : Json → List Char) (sha256 : Digest) (d : Dict) : Except ExportError (List Char) := do
  if (← recordKind d) ≠ .finding then
    let key ← recordKey d "es"
    pure ("cernity:".toList ++ sha256.hexdigest (encode (String.ofList key)))
  else
    let tenant := (d.get "tenant_id").or (.str "default")
    let base := Cef.str repr tenant ++ ':' :: Cef.str repr (d.get "finding_id")
    pure (match d.get "revision" with
      | .null => base
      | rev => base ++ ":r".toList ++ Cef.str repr rev)

/-- What identifies a finding. -/
structure FindingName where
  tenant : List Char
  fid : List Char
  revision : Option Int

/-- The finding has this name: its ids are texts, and its revision is absent
    or an integer. -/
structure Named (d : Dict) (x : FindingName) : Prop where
  kind : recordKind d = .ok .finding
  tenant : (d.get "tenant_id").or (.str "default") = .str (String.ofList x.tenant)
  fid : d.get "finding_id" = .str (String.ofList x.fid)
  revision : d.get "revision" = (x.revision.map Json.int).getD .null

/-- A record that the adapter delivers. -/
structure Exportable (d : Dict) : Prop where
  projects : ∃ f, exportRecord d = .ok f
  named : recordKind d = .ok .finding → ∃ x, Named d x

/-- The part of an id that a revision adds. -/
def revText (n : Int) : List Char := ':' :: 'r' :: Json.intText n

/-- Two findings of one document: a part of the second's name stands on the
    other side of a colon in the first's. -/
inductive Moved : FindingName → FindingName → Prop
  | revision (t f : List Char) (n : Int) : Moved ⟨t, f ++ revText n, none⟩ ⟨t, f, some n⟩
  | tenant (t x f : List Char) (r : Option Int) : Moved ⟨t, x ++ ':' :: f, r⟩ ⟨t ++ ':' :: x, f, r⟩
  | both (t x f : List Char) (n : Int) :
      Moved ⟨t, x ++ ':' :: (f ++ revText n), none⟩ ⟨t ++ ':' :: x, f, some n⟩
  | crossed (t x f : List Char) (n : Int) :
      Moved ⟨t, x ++ ':' :: f, some n⟩ ⟨t ++ ':' :: x, f ++ revText n, none⟩
  | bare (t x : List Char) (n : Int) :
      Moved ⟨t, x, some n⟩ ⟨t ++ ':' :: x, 'r' :: Json.intText n, none⟩

/-- A finding that has the hash of another record as its id. -/
def Borrowed (sha256 : Digest) (d d' : Dict) : Prop :=
  recordKind d' ≠ .ok .finding ∧ ∃ key, recordKey d' "es" = .ok key ∧
    Named d ⟨"cernity".toList, sha256.hexdigest (encode (String.ofList key)), none⟩

/-- Two records of different obligations that have one document. -/
inductive Confused (sha256 : Digest) (d d' : Dict) : Prop
  | moved (x x' : FindingName) (hd : Named d x) (hd' : Named d' x') (h : Moved x x' ∨ Moved x' x)
  | borrowed (h : Borrowed sha256 d d' ∨ Borrowed sha256 d' d)

/-! ### Texts of findings -/

/-- The id of a finding of this name. -/
def textOf (x : FindingName) : List Char :=
  x.tenant ++ ':' :: (x.fid ++ (x.revision.map revText).getD [])

theorem colon_notMem_digits (n : Int) : ':' ∉ 'r' :: Json.intText n := by
  rw [List.mem_cons, not_or]
  exact ⟨by decide, Number.notMem_intText (by decide) (by decide) n⟩

theorem append_revText_inj {l l' : List Char} {n n' : Int} (h : l ++ revText n = l' ++ revText n') :
    l = l' ∧ n = n' := by
  have hcut := congrArg (Affix.rpartition ':') h
  rw [revText, revText, Affix.rpartition_append (colon_notMem_digits n),
    Affix.rpartition_append (colon_notMem_digits n')] at hcut
  obtain ⟨hl, hn⟩ := Prod.mk.inj hcut
  exact ⟨hl, Number.intText_injective (List.tail_eq_of_cons_eq hn)⟩

/-- **A moved part** changes no text, and the findings differ. -/
theorem Moved.spec {x x' : FindingName} (h : Moved x x') : textOf x = textOf x' ∧ x ≠ x' := by
  cases h with
  | revision t f n => exact ⟨by simp [textOf], by simp⟩
  | tenant t x f r => exact ⟨by simp [textOf], by simp⟩
  | both t x f n => exact ⟨by simp [textOf], by simp⟩
  | crossed t x f n => exact ⟨by simp [textOf], by simp⟩
  | bare t x n => exact ⟨by simp [textOf, revText], by simp⟩

/-- A tenant whose text is continued in the other's. -/
theorem moved_of_longer {t x f f' : List Char} {r r' : Option Int}
    (h : f ++ (r.map revText).getD [] = x ++ ':' :: (f' ++ (r'.map revText).getD [])) :
    Moved ⟨t, f, r⟩ ⟨t ++ ':' :: x, f', r'⟩ := by
  cases r with
  | none =>
    rw [Option.map_none, Option.getD_none, List.append_nil] at h
    subst h
    cases r' with
    | none =>
      rw [Option.map_none, Option.getD_none, List.append_nil]
      exact .tenant t x f' none
    | some n' => exact .both t x f' n'
  | some n =>
    cases r' with
    | none =>
      rw [Option.map_some, Option.getD_some, Option.map_none, Option.getD_none, List.append_nil, revText,
        Affix.append_cons_eq_append_cons] at h
      -- the colon before the revision is the one between the tenant and the
      -- id, or it comes after that
      rcases h with ⟨rfl, rfl⟩ | ⟨y, -, hy⟩ | ⟨y, rfl, rfl⟩
      · exact .bare t f n
      · have hmem : ':' ∈ 'r' :: Json.intText n := by simp [hy]
        exact absurd hmem (colon_notMem_digits n)
      · exact .crossed t x y n
    | some n' =>
      rw [Option.map_some, Option.getD_some, Option.map_some, Option.getD_some, ← List.cons_append,
        ← List.append_assoc] at h
      obtain ⟨rfl, rfl⟩ := append_revText_inj h
      exact .tenant t x f' (some n)

/-- **Two findings have one document** exactly when they have one name, or a
    part of one's name is moved in the other's. -/
theorem textOf_eq_iff (x x' : FindingName) :
    textOf x = textOf x' ↔ x = x' ∨ Moved x x' ∨ Moved x' x := by
  constructor
  · intro h
    obtain ⟨t, f, r⟩ := x
    obtain ⟨t', f', r'⟩ := x'
    simp only [textOf, Affix.append_cons_eq_append_cons] at h
    rcases h with ⟨rfl, h⟩ | ⟨x, rfl, h⟩ | ⟨x, rfl, h⟩
    · -- one tenant: a revision is the only part that can be in the id
      cases r with
      | none =>
        cases r' with
        | none =>
          rw [Option.map_none, Option.getD_none, List.append_nil, List.append_nil] at h
          exact Or.inl (by rw [h])
        | some n' =>
          rw [Option.map_none, Option.getD_none, List.append_nil] at h
          subst h
          exact Or.inr (Or.inl (.revision t f' n'))
      | some n =>
        cases r' with
        | none =>
          rw [Option.map_none, Option.getD_none, List.append_nil] at h
          subst h
          exact Or.inr (Or.inr (.revision t f n))
        | some n' =>
          obtain ⟨rfl, rfl⟩ := append_revText_inj h
          exact Or.inl rfl
    · exact Or.inr (Or.inl (moved_of_longer h))
    · exact Or.inr (Or.inr (moved_of_longer h))
  · rintro (rfl | h | h)
    · rfl
    · exact h.spec.1
    · exact h.spec.1.symm

/-- A text without colons behind the tenant is the id of one finding only. -/
theorem textOf_eq_hash {x : FindingName} {t hash : List Char} (ht : ':' ∉ t) (hhash : ':' ∉ hash) :
    textOf x = t ++ ':' :: hash ↔ x = ⟨t, hash, none⟩ := by
  constructor
  · intro h
    obtain ⟨t', f, r⟩ := x
    simp only [textOf, Affix.append_cons_eq_append_cons] at h
    rcases h with ⟨rfl, h⟩ | ⟨y, rfl, -⟩ | ⟨y, -, rfl⟩
    · cases r with
      | none =>
        rw [Option.map_none, Option.getD_none, List.append_nil] at h
        rw [h]
      | some n =>
        subst h
        exact absurd (by simp [revText]) hhash
    · exact absurd (by simp) ht
    · exact absurd (by simp) hhash
  · rintro rfl
    simp [textOf]

/-! ### Names and keys -/

variable {d d' : Dict} {x x' : FindingName} {key : Key}

/-- The parts of a finding's key. -/
def keyParts (x : FindingName) : List Json :=
  [.str (String.ofList x.tenant), .str (String.ofList x.fid), (x.revision.map Json.int).getD .null,
    .str "es"]

theorem keyParts_injective : Function.Injective keyParts := by
  rintro ⟨t, f, r⟩ ⟨t', f', r'⟩ h
  obtain ⟨htenant, h⟩ := List.cons.inj h
  obtain ⟨hfid, h⟩ := List.cons.inj h
  obtain ⟨hrev, -⟩ := List.cons.inj h
  obtain rfl := String.ofList_injective (Json.str.inj htenant)
  obtain rfl := String.ofList_injective (Json.str.inj hfid)
  cases r with
  | none =>
    cases r' with
    | none => rfl
    | some n' => cases hrev
  | some n =>
    cases r' with
    | none => cases hrev
    | some n' => rw [Json.int.inj hrev]

/-- A finding has one name. -/
theorem Named.unique (h : Named d x) (h' : Named d x') : x = x' := by
  refine keyParts_injective ?_
  rw [keyParts, keyParts, ← h.tenant, ← h.fid, ← h.revision, h'.tenant, h'.fid, h'.revision]

/-- **The key of a finding.** -/
theorem recordKey_named (h : Named d x) : recordKey d "es" = .ok (Json.dumps (.arr (keyParts x))) := by
  have hexport : exportRecord d = .ok d := by
    rw [exportRecord, h.kind]
    rfl
  have hid : recordIdentity d = .ok (.finding, d.get "finding_id", d.get "revision") := by
    rw [recordIdentity, hexport]
    simp only [bind, Except.bind, h.kind]
    rfl
  rw [recordKey_eq hexport hid, oblKey, h.tenant, h.fid, h.revision]
  obtain ⟨t, f, r⟩ := x
  cases r <;> simp [RecordKind.text, Json.str?, keyParts, Json.sortKeys, Json.sortKeys.items]

theorem recordKind_of_identity {kind : RecordKind} {identity revision : Json}
    (h : recordIdentity d = .ok (kind, identity, revision)) : recordKind d = .ok kind := by
  obtain ⟨f, hexport, h⟩ := Except.bind_eq_ok.mp h
  obtain ⟨kind', hkind', h⟩ := Except.bind_eq_ok.mp h
  have hsame : kind' = kind := by
    cases kind' <;> exact congrArg Prod.fst (Except.ok.inj h)
  subst hsame
  obtain ⟨kind, hkind, hproj⟩ := Except.bind_eq_ok.mp hexport
  by_cases hfinding : kind = .finding
  · rw [if_pos hfinding] at hproj
    obtain rfl := Except.ok.inj hproj
    exact hkind'
  · rw [if_neg hfinding] at hproj
    rw [hkind, ← hkind', (projectRecord_projected hproj).1]

/-- The key of another record has one part more. -/
theorem recordKey_other (hkind : recordKind d ≠ .ok .finding) (hkey : recordKey d "es" = .ok key) :
    ∃ parts : List Json, parts.length = 5 ∧ key = Json.dumps (.arr parts) := by
  obtain ⟨f, hexport⟩ := exists_export hkey
  obtain ⟨kind, identity, revision, hid, -⟩ := recordIdentity_of_export hexport
  have hother : (Json.str kind.text).str? ≠ some "finding" := by
    have hk := recordKind_of_identity hid
    cases kind with
    | finding => exact absurd hk hkind
    | investigation => decide
    | verdict => decide
  rw [recordKey_eq hexport hid, oblKey, if_neg hother] at hkey
  refine ⟨_, ?_, (Except.ok.inj hkey).symm⟩
  rw [Json.sortKeys_items_eq_map, List.length_map]
  rfl

/-- A finding and another record have two keys. -/
theorem keyParts_ne_other (x : FindingName) (hkind : recordKind d' ≠ .ok .finding)
    (hkey : recordKey d' "es" = .ok key) : Json.dumps (.arr (keyParts x)) ≠ key := by
  intro heq
  obtain ⟨parts, hlen, rfl⟩ := recordKey_other hkind hkey
  obtain rfl := Json.arr.inj (Json.dumps_injective heq)
  cases hlen

/-! ### Ids -/

variable {repr : Json → List Char} {sha256 : Digest}

theorem docId_named (h : Named d x) : docId repr sha256 d = .ok (textOf x) := by
  unfold docId
  simp only [bind, Except.bind, h.kind, h.tenant, h.fid, h.revision]
  obtain ⟨t, f, r⟩ := x
  cases r <;> simp [textOf, revText, Cef.str, pure, Except.pure]

theorem docId_other (hkind : recordKind d ≠ .ok .finding) (hkey : recordKey d "es" = .ok key) :
    docId repr sha256 d =
      .ok ("cernity:".toList ++ sha256.hexdigest (encode (String.ofList key))) := by
  obtain ⟨f, hexport⟩ := exists_export hkey
  obtain ⟨kind, hk, -⟩ := Except.bind_eq_ok.mp hexport
  have hother : kind ≠ .finding := fun h => hkind (h ▸ hk)
  unfold docId
  simp only [bind, Except.bind, hk, hkey, if_pos hother]
  rfl

theorem colon_notMem_hexdigest (sha256 : Digest) (data : List UInt8) : ':' ∉ sha256.hexdigest data :=
  fun h => absurd (sha256.hexadecimal data ':' h) (by decide)

/-- **A finding and another record** have one document exactly when the
    finding has borrowed the other's hash. -/
theorem textOf_eq_docId_other (h : Named d x) (hkind : recordKind d' ≠ .ok .finding)
    (hkey : recordKey d' "es" = .ok key) :
    textOf x = "cernity:".toList ++ sha256.hexdigest (encode (String.ofList key)) ↔
      Borrowed sha256 d d' := by
  change textOf x = "cernity".toList ++ ':' :: sha256.hexdigest (encode (String.ofList key)) ↔ _
  rw [textOf_eq_hash (by decide) (colon_notMem_hexdigest sha256 _)]
  constructor
  · rintro rfl
    exact ⟨hkind, key, hkey, h⟩
  · rintro ⟨-, key', hkey', h'⟩
    obtain rfl := Except.ok.inj (hkey.symm.trans hkey')
    exact h.unique h'

theorem Exportable.cases (h : Exportable d) :
    (∃ x, Named d x) ∨ recordKind d ≠ .ok .finding ∧ ∃ key, recordKey d "es" = .ok key := by
  by_cases hkind : recordKind d = .ok .finding
  · exact Or.inl (h.named hkind)
  · obtain ⟨f, hf⟩ := h.projects
    exact Or.inr ⟨hkind, exists_recordKey hf "es"⟩

theorem confused_comm : Confused sha256 d d' ↔ Confused sha256 d' d := by
  have hswap : ∀ {d d' : Dict}, Confused sha256 d d' → Confused sha256 d' d := by
    rintro d d' (⟨x, x', hx, hx', h⟩ | h)
    · exact .moved x' x hx' hx h.symm
    · exact .borrowed h.symm
  exact ⟨hswap, hswap⟩

theorem confused_named (hx : Named d x) (hx' : Named d' x') :
    Confused sha256 d d' ↔ Moved x x' ∨ Moved x' x := by
  constructor
  · rintro (⟨y, y', hy, hy', h⟩ | ⟨h | h⟩)
    · obtain rfl := hx.unique hy
      obtain rfl := hx'.unique hy'
      exact h
    · exact absurd hx'.kind h.1
    · exact absurd hx.kind h.1
  · exact .moved x x' hx hx'

theorem confused_other (hx : Named d x) (hkind : recordKind d' ≠ .ok .finding) :
    Confused sha256 d d' ↔ Borrowed sha256 d d' := by
  constructor
  · rintro (⟨y, y', hy, hy', h⟩ | ⟨h | h⟩)
    · exact absurd hy'.kind hkind
    · exact h
    · exact absurd hx.kind h.1
  · exact fun h => .borrowed (Or.inl h)

theorem not_confused_others (hkind : recordKind d ≠ .ok .finding) (hkind' : recordKind d' ≠ .ok .finding) :
    ¬Confused sha256 d d' := by
  rintro (⟨y, y', hy, hy', h⟩ | ⟨⟨-, _, -, hnamed⟩ | ⟨-, _, -, hnamed⟩⟩)
  · exact hkind hy.kind
  · exact hkind hnamed.kind
  · exact hkind' hnamed.kind

/-- **Ids and keys tell the same records apart** exactly when the two records
    are not confused, for a hash that has no collision at their keys. -/
theorem docId_agrees_iff (repr : Json → List Char) (sha256 : Digest) (hd : Exportable d)
    (hd' : Exportable d')
    (hsha : ∀ k k', recordKey d "es" = .ok k → recordKey d' "es" = .ok k' →
      sha256.hexdigest (encode (String.ofList k)) = sha256.hexdigest (encode (String.ofList k')) →
        k = k') :
    ∃ id id' k k', docId repr sha256 d = .ok id ∧ docId repr sha256 d' = .ok id' ∧
      recordKey d "es" = .ok k ∧ recordKey d' "es" = .ok k' ∧
      ((id = id' ↔ k = k') ↔ ¬Confused sha256 d d') := by
  rcases hd.cases with ⟨x, hx⟩ | ⟨hkind, key, hkey⟩
  · rcases hd'.cases with ⟨x', hx'⟩ | ⟨hkind', key', hkey'⟩
    · -- two findings: the texts of their names
      refine ⟨_, _, _, _, docId_named hx, docId_named hx', recordKey_named hx, recordKey_named hx', ?_⟩
      have hkeys : Json.dumps (.arr (keyParts x)) = Json.dumps (.arr (keyParts x')) ↔ x = x' :=
        ⟨fun h => keyParts_injective (Json.arr.inj (Json.dumps_injective h)), fun h => h ▸ rfl⟩
      have hne : Moved x x' ∨ Moved x' x → x ≠ x' := by
        rintro (h | h)
        · exact h.spec.2
        · exact h.spec.2.symm
      rw [hkeys, confused_named hx hx', textOf_eq_iff]
      constructor
      · exact fun h hmoved => hne hmoved (h.mp (Or.inr hmoved))
      · exact fun h => or_iff_left h
    · -- a finding and another record: their keys differ, so their ids must
      refine ⟨_, _, _, _, docId_named hx, docId_other hkind' hkey', recordKey_named hx, hkey', ?_⟩
      rw [textOf_eq_docId_other hx hkind' hkey', confused_other hx hkind',
        iff_false_right (keyParts_ne_other x hkind' hkey')]
  · rcases hd'.cases with ⟨x', hx'⟩ | ⟨hkind', key', hkey'⟩
    · refine ⟨_, _, _, _, docId_other hkind hkey, docId_named hx', hkey, recordKey_named hx', ?_⟩
      rw [eq_comm, textOf_eq_docId_other hx' hkind hkey, confused_comm, confused_other hx' hkind,
        iff_false_right (keyParts_ne_other x' hkind hkey).symm]
    · -- two other records: the hash of their keys
      refine ⟨_, _, _, _, docId_other hkind hkey, docId_other hkind' hkey', hkey, hkey', ?_⟩
      refine iff_of_true ⟨fun h => hsha _ _ hkey hkey' (List.append_cancel_left h), ?_⟩
        (not_confused_others hkind hkind')
      rintro rfl
      rfl

/-! ### Runs -/

/-- A finding with texts as its ids and no revision. -/
def finding (tenant fid : String) : Dict := [("tenant_id", .str tenant), ("finding_id", .str fid)]

theorem named_finding {tenant fid : String} (h : tenant ≠ "") :
    Named (finding tenant fid) ⟨tenant.toList, fid.toList, none⟩ := by
  refine ⟨rfl, ?_, ?_, rfl⟩
  · simp [finding, Dict.get, Dict.get?, Json.or, Json.truthy, h]
  · simp [finding, Dict.get, Dict.get?]

theorem exportable_finding {tenant fid : String} (h : tenant ≠ "") : Exportable (finding tenant fid) :=
  ⟨⟨_, rfl⟩, fun _ => ⟨_, named_finding h⟩⟩

/-- The digests of the keys of two findings of `acme`. -/
def keyDigest : Digest where
  hexdigest data :=
    if data = encode "[\"acme\", \"f-1\", null, \"es\"]" then
      "d8749fb3b56f8bfee2677b44a19df555124e4b884cd7507781241b21f3d589c1".toList
    else "5c12484f56f1f89e2b2bfb2bab75fb6a776aa0b63121fd6abeaac1e6e2ec3db3".toList
  length data := by
    split
    · rfl
    · rfl
  hexadecimal data := by
    split
    · exact ObjectKeys.mem_of_all_contains (by decide)
    · exact ObjectKeys.mem_of_all_contains (by decide)

/-- Two findings of one tenant, of which neither id continues the other. -/
theorem finding_ids_agree : ∃ id id' k k', docId (fun _ => []) keyDigest (finding "acme" "f-1") = .ok id ∧
    docId (fun _ => []) keyDigest (finding "acme" "f-2") = .ok id' ∧
    recordKey (finding "acme" "f-1") "es" = .ok k ∧ recordKey (finding "acme" "f-2") "es" = .ok k' ∧
    ((id = id' ↔ k = k') ↔ ¬Confused keyDigest (finding "acme" "f-1") (finding "acme" "f-2")) := by
  have hkey : recordKey (finding "acme" "f-1") "es" = .ok "[\"acme\", \"f-1\", null, \"es\"]".toList := by
    decide +kernel
  have hkey' : recordKey (finding "acme" "f-2") "es" = .ok "[\"acme\", \"f-2\", null, \"es\"]".toList := by
    decide +kernel
  refine docId_agrees_iff _ keyDigest (exportable_finding (by decide)) (exportable_finding (by decide)) ?_
  intro k k' hk hk' hhash
  obtain rfl := Except.ok.inj (hkey.symm.trans hk)
  obtain rfl := Except.ok.inj (hkey'.symm.trans hk')
  exact absurd hhash (by decide +kernel)

/-- A colon in a tenant: two findings with one id and two keys. -/
theorem colon_confuses_tenants : Exportable (finding "a:b" "c") ∧ Exportable (finding "a" "b:c") ∧
    docId (fun _ => []) keyDigest (finding "a:b" "c") = .ok "a:b:c".toList ∧
    docId (fun _ => []) keyDigest (finding "a" "b:c") = .ok "a:b:c".toList ∧
    recordKey (finding "a:b" "c") "es" ≠ recordKey (finding "a" "b:c") "es" :=
  ⟨exportable_finding (by decide), exportable_finding (by decide), by decide +kernel, by decide +kernel,
    by decide +kernel⟩

end FindingsForwarder
