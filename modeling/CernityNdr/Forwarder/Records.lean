import CernityNdr.Framework.Failing
import CernityNdr.Framework.Text
import CernityNdr.Framework.Json

/-! # Export Records and Their Obligations

    The pure functions of `findings-forwarder/adapters.py` that say what a
    record on the bus is (`record_kind`), how it is projected for a receiver
    (`export_record`) and which delivery obligation it stands for
    (`record_identity`, `_record_key`), together with the rows that the
    ledger and the dead-letter file hold for it.

    * `exportRecord_idem`: projecting twice changes nothing, so a record and
      its projection stand for one obligation.
    * `ledgerKey_ledgerRow`: the key recomputed from a ledger row is the key
      of the record that the row was written for. -/

namespace FindingsForwarder

/-- What the projection raises. -/
inductive ExportError
  | valueError (message : String)
  | typeError
  | attributeError
  deriving DecidableEq, Repr

inductive RecordKind
  | finding | investigation | verdict
  deriving DecidableEq, Repr

namespace RecordKind

def text : RecordKind → String
  | .finding => "finding"
  | .investigation => "investigation"
  | .verdict => "verdict"

/-- The member that identifies a record of this kind. -/
def idField : RecordKind → String
  | .investigation => "investigation_id"
  | _ => "case_id"

end RecordKind

/-- `record_kind`. -/
def recordKind (record : Json.Dict) : Except ExportError RecordKind :=
  match record.get "record_kind" with
  | .null =>
    -- no explicit kind: the schema and the members decide
    if (record.get "schema").str? = some "investigation.v1" then .ok .investigation
    else if (record.get? "case_id").isSome ∧
        ((record.get? "verdict").isSome ∨ (record.get? "finding_id").isNone) then .ok .verdict
    else .ok .finding
  | .str kind =>
    if kind = "finding" then .ok .finding
    else if kind = "investigation" then .ok .investigation
    else if kind = "verdict" then .ok .verdict
    else .error (.valueError "unsupported export record kind")
  -- a list or an object cannot be looked up in a set
  | .arr _ | .obj _ => .error .typeError
  | _ => .error (.valueError "unsupported export record kind")

/-- The tenant of an investigation or a verdict. -/
def exportTenant (record : Json.Dict) : Except ExportError String :=
  match (record.get "tenant").or (record.get "tenant_id") with
  | .str tenant =>
    -- `tenant` wins over `tenant_id`, but must not contradict it
    if Text.notBlank tenant = false then .error (.valueError "export record requires tenant")
    else if (record.get "tenant_id").truthy ∧ (record.get "tenant_id").str? ≠ some tenant then
      .error (.valueError "conflicting export tenants")
    else .ok tenant
  | _ => .error (.valueError "export record requires tenant")

/-- The identity that an investigation or a verdict must have. -/
def requireId (out : Json.Dict) (idField : String) : Except ExportError Unit :=
  if (out.get idField).str?.any Text.notBlank then .ok ()
  else .error (.valueError ("export record requires " ++ idField))

/-- The finding links of an investigation or a verdict, as it holds them. -/
def rawLinks (kind : RecordKind) (record : Json.Dict) : Except ExportError Json :=
  match kind with
  | .investigation =>
    match (record.get? "trigger").getD (.obj []) with
    -- a trigger that is no object has no `get`
    | .obj trigger => .ok ((Json.Dict.get? trigger "finding_ids").getD (.arr []))
    | _ => .error .attributeError
  | _ =>
    match record.get "verdict_revision" with
    | .int revision =>
      -- a Boolean is no revision, although it is an `int` of the source
      if revision < 0 ∨ (record.get "verdict").truthy = false then
        .error (.valueError "verdict requires verdict and nonnegative integer verdict_revision")
      else .ok ((record.get? "linked_findings").getD (.arr []))
    | _ => .error (.valueError "verdict requires verdict and nonnegative integer verdict_revision")

/-- Links must be nonempty strings. -/
def checkLinks (links : Json) : Except ExportError (List Json) :=
  match links with
  | .arr links =>
    if links.all (fun link => link.str?.any Text.notBlank) then .ok links
    else .error (.valueError "finding links must be a list of nonempty strings")
  | _ => .error (.valueError "finding links must be a list of nonempty strings")

/-- The projection of a record of another kind than `finding`. -/
def projectRecord (kind : RecordKind) (record : Json.Dict) : Except ExportError Json.Dict := do
  let tenant ← exportTenant record
  let out := (record.set "record_kind" (.str kind.text)).set "tenant_id" (.str tenant)
  requireId out kind.idField
  let links ← checkLinks (← rawLinks kind record)
  pure (if links.isEmpty then out else out.set "finding_id" (.arr links))

/-- `export_record`. -/
def exportRecord (record : Json.Dict) : Except ExportError Json.Dict := do
  let kind ← recordKind record
  if kind = .finding then pure record else projectRecord kind record

/-- `record_identity`. -/
def recordIdentity (record : Json.Dict) : Except ExportError (RecordKind × Json × Json) := do
  let record ← exportRecord record
  let kind ← recordKind record
  match kind with
  | .investigation => pure (kind, record.get "investigation_id", .null)
  | .verdict => pure (kind, .arr [record.get "case_id", record.get "verdict_revision"], .null)
  | .finding => pure (kind, record.get "finding_id", record.get "revision")

/-- The name of an obligation. -/
abbrev Key := List Char

instance : LawfulBEq Key := inferInstance

/-- `_obl_key`. -/
def oblKey (tenant recordId revision dest recordKind : Json) : Key :=
  let parts := [tenant.or (.str "default"), recordId, revision, dest]
  -- findings keep the key they had before there were kinds
  let parts := if recordKind.str? = some "finding" then parts else parts.insertIdx 1 recordKind
  Json.dumps (Json.sortKeys (.arr parts))

/-- `_record_key`. -/
def recordKey (record : Json.Dict) (dest : String) : Except ExportError Key := do
  let (kind, identity, revision) ← recordIdentity record
  let tenant ←
    if kind = .finding then pure (record.get "tenant_id")
    else (exportRecord record).map (·.get "tenant_id")
  pure (oblKey tenant identity revision (.str dest) (.str kind.text))

/-- `_ledger_key`. -/
def ledgerKey (row : Json.Dict) : Key :=
  oblKey (row.get "tenant_id") ((row.get? "record_id").getD (row.get "finding_id"))
    (row.get "revision") (row.get "dest") ((row.get? "record_kind").getD (.str "finding"))

/-- `_ledger_fields`. -/
def ledgerFields (record : Json.Dict) : Except ExportError Json.Dict := do
  let (kind, identity, revision) ← recordIdentity record
  let out ← exportRecord record
  let fields : Json.Dict := [("tenant_id", out.get "tenant_id"), ("record_kind", .str kind.text),
    ("record_id", identity), ("revision", revision)]
  pure (if kind = .finding then fields ++ [("finding_id", identity)] else fields)

/-- The row that the ledger appends. -/
def ledgerRow (fields : Json.Dict) (dest : String) (outcome : Json) (worker : String)
    (note : Option String) (ts : String) : Json.Dict :=
  fields ++ [("dest", .str dest), ("outcome", outcome), ("worker", .str worker)] ++
    (note.map fun n => ("note", Json.str n)).toList ++ [("ts", .str ts)]

/-- The line that the dead-letter file holds for a record. -/
def dlqEntry (name err : String) (kind : RecordKind) (record : Json.Dict) : Json.Dict :=
  [("sink", .str name), ("error", .str err), ("record_kind", .str kind.text),
    (if kind = .finding then "finding" else "record", .obj record)]

/-- `_dlq_record`. -/
def dlqRecord (entry : Json.Dict) : Json := (entry.get? "record").getD (entry.get "finding")

/-! ### Projecting twice -/

/-- A projection that succeeds: its tenant, its links and what it looks like. -/
theorem projectRecord_eq_ok {kind : RecordKind} {record f : Json.Dict}
    (h : projectRecord kind record = .ok f) : ∃ tenant links raw,
      exportTenant record = .ok tenant ∧ requireId f kind.idField = .ok () ∧
      rawLinks kind record = .ok raw ∧ checkLinks raw = .ok links ∧
      f = (if links.isEmpty then (record.set "record_kind" (.str kind.text)).set "tenant_id"
          (.str tenant)
        else ((record.set "record_kind" (.str kind.text)).set "tenant_id" (.str tenant)).set
          "finding_id" (.arr links)) := by
  obtain ⟨tenant, htenant, h⟩ := Except.bind_eq_ok.mp h
  obtain ⟨u, hid, h⟩ := Except.bind_eq_ok.mp h
  obtain ⟨raw, hraw, h⟩ := Except.bind_eq_ok.mp h
  obtain ⟨links, hlinks, h⟩ := Except.bind_eq_ok.mp h
  have hf := (Except.ok.inj h).symm
  refine ⟨tenant, links, raw, htenant, ?_, hraw, hlinks, hf⟩
  -- the identity is not among the members that the projection writes
  have hne : kind.idField ≠ "finding_id" := by cases kind <;> decide
  rw [← hid, hf]
  by_cases hl : links.isEmpty = true
  · rw [if_pos hl]
  · rw [if_neg hl, requireId, requireId, Json.Dict.get, Json.Dict.get?_set_ne _ _ hne]
    rfl

/-- What the projection writes, and what it leaves alone. -/
structure Projected (kind : RecordKind) (record f : Json.Dict) (tenant : String)
    (links : List Json) : Prop where
  recordKind : f.Holds "record_kind" (.str kind.text)
  tenantId : f.Holds "tenant_id" (.str tenant)
  findingId : links.isEmpty = false → f.Holds "finding_id" (.arr links)
  other : ∀ key, key ∉ ["record_kind", "tenant_id", "finding_id"] → f.get? key = record.get? key

theorem projected_set (kind : RecordKind) (record : Json.Dict) (tenant : String)
    (links : List Json) :
    Projected kind record
      (if links.isEmpty then (record.set "record_kind" (.str kind.text)).set "tenant_id"
          (.str tenant)
        else ((record.set "record_kind" (.str kind.text)).set "tenant_id" (.str tenant)).set
          "finding_id" (.arr links)) tenant links := by
  have hkind := (Json.Dict.holds_set record "record_kind" (.str kind.text)).set "tenant_id"
    (by decide) (.str tenant)
  have htenant := Json.Dict.holds_set (record.set "record_kind" (.str kind.text)) "tenant_id"
    (.str tenant)
  have hother : ∀ key, key ∉ ["record_kind", "tenant_id", "finding_id"] →
      ((record.set "record_kind" (.str kind.text)).set "tenant_id" (.str tenant)).get? key =
        record.get? key := by
    intro key hkey
    simp only [List.mem_cons, List.not_mem_nil, or_false, not_or] at hkey
    rw [Json.Dict.get?_set_ne _ _ hkey.2.1, Json.Dict.get?_set_ne _ _ hkey.1]
  by_cases hl : links.isEmpty = true
  · rw [if_pos hl]
    exact ⟨hkind, htenant, fun h => absurd h (by simp [hl]), hother⟩
  · rw [if_neg hl]
    refine ⟨hkind.set _ (by decide) _, htenant.set _ (by decide) _,
      fun _ => Json.Dict.holds_set _ _ _, ?_⟩
    intro key hkey
    rw [Json.Dict.get?_set_ne, hother key hkey]
    simp only [List.mem_cons, List.not_mem_nil, or_false, not_or] at hkey
    exact hkey.2.2

theorem exportTenant_projected {kind : RecordKind} {record f : Json.Dict} {tenant : String}
    {links : List Json} (hp : Projected kind record f tenant links)
    (h : exportTenant record = .ok tenant) : exportTenant f = .ok tenant := by
  have hid : f.get "tenant_id" = .str tenant := by rw [Json.Dict.get, hp.tenantId.get?]; rfl
  have htenant : f.get "tenant" = record.get "tenant" := by
    rw [Json.Dict.get, hp.other "tenant" (by decide)]
    rfl
  unfold exportTenant at h ⊢
  split at h
  · next t ht =>
    split at h
    · cases h
    · next hblank =>
      split at h
      · cases h
      · cases h
        -- the projection keeps `tenant` and makes `tenant_id` agree with it
        have hor : (f.get "tenant").or (f.get "tenant_id") = .str tenant := by
          rw [htenant, hid]
          unfold Json.or at ht ⊢
          split
          · next htrue => rw [if_pos htrue] at ht; exact ht
          · rfl
        rw [hor, hid]
        simp only [if_neg hblank, Json.str?, ne_eq, not_true_eq_false, and_false, if_false]
  · cases h

theorem rawLinks_projected {kind : RecordKind} {record f : Json.Dict} {tenant : String}
    {links : List Json} (hp : Projected kind record f tenant links) :
    rawLinks kind f = rawLinks kind record := by
  unfold rawLinks
  rw [hp.other "trigger" (by decide), hp.other "linked_findings" (by decide), Json.Dict.get,
    Json.Dict.get, hp.other "verdict_revision" (by decide), hp.other "verdict" (by decide)]
  rfl

theorem recordKind_projected {kind : RecordKind} {record f : Json.Dict} {tenant : String}
    {links : List Json} (hp : Projected kind record f tenant links) :
    recordKind f = .ok kind := by
  have hget : f.get "record_kind" = .str kind.text := by
    rw [Json.Dict.get, hp.recordKind.get?]
    rfl
  unfold recordKind
  rw [hget]
  cases kind <;> simp [RecordKind.text]

/-- The projection of a projection. -/
theorem projectRecord_projected {kind : RecordKind} {record f : Json.Dict}
    (h : projectRecord kind record = .ok f) :
    recordKind f = .ok kind ∧ projectRecord kind f = .ok f := by
  obtain ⟨tenant, links, raw, htenant, hid, hraw, hlinks, hf⟩ := projectRecord_eq_ok h
  have hp : Projected kind record f tenant links := hf ▸ projected_set kind record tenant links
  refine ⟨recordKind_projected hp, ?_⟩
  -- what would be written is there already
  have hset : (f.set "record_kind" (.str kind.text)).set "tenant_id" (.str tenant) = f := by
    rw [hp.recordKind.set_eq, hp.tenantId.set_eq]
  have hresult : (if links.isEmpty then f else f.set "finding_id" (.arr links)) = f := by
    by_cases hl : links.isEmpty = true
    · rw [if_pos hl]
    · rw [if_neg hl, (hp.findingId (by simpa using hl)).set_eq]
  unfold projectRecord
  rw [exportTenant_projected hp htenant, rawLinks_projected hp, hraw]
  simp only [bind, Except.bind, hset, hid, hlinks, hresult]
  rfl

/-- **Projecting twice changes nothing.** -/
theorem exportRecord_idem {record f : Json.Dict} (h : exportRecord record = .ok f) :
    exportRecord f = .ok f := by
  obtain ⟨kind, hkind, hproj⟩ := Except.bind_eq_ok.mp h
  by_cases hfinding : kind = .finding
  · rw [if_pos hfinding] at hproj
    cases hproj
    exact h
  · rw [if_neg hfinding] at hproj
    obtain ⟨hkind', hproj'⟩ := projectRecord_projected hproj
    refine Except.bind_eq_ok.mpr ⟨kind, hkind', ?_⟩
    rw [if_neg hfinding]
    exact hproj'

/-! ### Keys -/

theorem recordIdentity_export {record f : Json.Dict} (h : exportRecord record = .ok f) :
    recordIdentity f = recordIdentity record := by
  unfold recordIdentity
  rw [h, exportRecord_idem h]

/-- What a record that can be projected identifies. Only a finding is its own
    projection. -/
theorem recordIdentity_of_export {record f : Json.Dict} (h : exportRecord record = .ok f) :
    ∃ kind identity revision, recordIdentity record = .ok (kind, identity, revision) ∧
      (kind = .finding → f = record) := by
  obtain ⟨kind, hkind, hproj⟩ := Except.bind_eq_ok.mp h
  have hf : recordKind f = .ok kind ∧ (kind = .finding → f = record) := by
    by_cases hfinding : kind = .finding
    · rw [if_pos hfinding] at hproj
      cases hproj
      exact ⟨hkind, fun _ => rfl⟩
    · rw [if_neg hfinding] at hproj
      exact ⟨(projectRecord_projected hproj).1, fun h => absurd h hfinding⟩
  unfold recordIdentity
  rw [h]
  simp only [bind, Except.bind, hf.1]
  cases kind <;> exact ⟨_, _, _, rfl, hf.2⟩

/-- The key of a record that can be projected. -/
theorem recordKey_eq {record f : Json.Dict} (h : exportRecord record = .ok f)
    {kind : RecordKind} {identity revision : Json}
    (hid : recordIdentity record = .ok (kind, identity, revision)) (dest : String) :
    recordKey record dest = .ok (oblKey (f.get "tenant_id") identity revision (.str dest)
      (.str kind.text)) := by
  obtain ⟨kind', _, _, hid', hfinding⟩ := recordIdentity_of_export h
  rw [hid] at hid'
  cases hid'
  unfold recordKey
  rw [hid, h]
  by_cases hkind : kind = .finding
  · simp only [bind, Except.bind, if_pos hkind, hfinding hkind]
    rfl
  · simp only [bind, Except.bind, if_neg hkind]
    rfl

/-- A record that can be projected has a key. -/
theorem exists_recordKey {record f : Json.Dict} (h : exportRecord record = .ok f) (dest : String) :
    ∃ k, recordKey record dest = .ok k := by
  obtain ⟨kind, identity, revision, hid, -⟩ := recordIdentity_of_export h
  exact ⟨_, recordKey_eq h hid dest⟩

/-- A record that has a key can be projected. -/
theorem exists_export {record : Json.Dict} {dest : String} {k : Key}
    (h : recordKey record dest = .ok k) : ∃ f, exportRecord record = .ok f := by
  obtain ⟨_, hid, -⟩ := Except.bind_eq_ok.mp h
  obtain ⟨f, hf, -⟩ := Except.bind_eq_ok.mp hid
  exact ⟨f, hf⟩

/-- **A record and its projection stand for one obligation.** -/
theorem recordKey_export {record f : Json.Dict} (h : exportRecord record = .ok f) (dest : String) :
    recordKey f dest = recordKey record dest := by
  obtain ⟨kind, identity, revision, hid, -⟩ := recordIdentity_of_export h
  have hid' : recordIdentity f = .ok (kind, identity, revision) := by
    rw [recordIdentity_export h, hid]
  rw [recordKey_eq h hid, recordKey_eq (exportRecord_idem h) hid']

/-! ### Rows -/

theorem ledgerFields_eq {record f : Json.Dict} (h : exportRecord record = .ok f)
    {kind : RecordKind} {identity revision : Json}
    (hid : recordIdentity record = .ok (kind, identity, revision)) :
    ledgerFields record = .ok ([("tenant_id", f.get "tenant_id"), ("record_kind", .str kind.text),
      ("record_id", identity), ("revision", revision)] ++
        (if kind = .finding then [("finding_id", identity)] else [])) := by
  unfold ledgerFields
  rw [hid, h]
  by_cases hkind : kind = .finding
  · simp only [bind, Except.bind, if_pos hkind]
    rfl
  · simp only [bind, Except.bind, if_neg hkind]
    rfl

/-- **The key of a ledger row is the key of the record it was written for.** -/
theorem ledgerKey_ledgerRow {record fields : Json.Dict} {dest : String} {k : Key}
    (hk : recordKey record dest = .ok k) (hf : ledgerFields record = .ok fields)
    (outcome : Json) (worker : String) (note : Option String) (ts : String) :
    ledgerKey (ledgerRow fields dest outcome worker note ts) = k := by
  obtain ⟨f, h⟩ := exists_export hk
  obtain ⟨kind, identity, revision, hid, -⟩ := recordIdentity_of_export h
  rw [recordKey_eq h hid] at hk
  rw [ledgerFields_eq h hid] at hf
  cases hk
  cases hf
  cases kind <;> cases note <;> rfl

/-- A finding of the tenant `acme`. -/
def sampleFinding (id : String) : Json.Dict :=
  [("finding_id", .str id), ("revision", .int 1), ("tenant_id", .str "acme")]

end FindingsForwarder
