import CernityNdr.Yara.Bootstrap
import CernityNdr.Yara.Workers

/-! # Scans with the Rulesets of the Registry

    The model of the read path of `services/file-yara/registry.py`
    (`list_rulesets`, `active_for_scan`, `load_bytes`) and of
    `services/file-yara/scan.py`. `scan_bytes` lists the served rulesets and
    then loads them one by one, so other calls on the registry may come
    between: each load sees the tables of its own moment, after whole calls.

    * `activeForScan_registered`: a draft changes nothing about a scan.
    * `scan_trusted`: a ruleset acts only after an authorized promotion, on
      bytes that hash to its address, when its child got through. -/

namespace YaraScan

open Json (Dict)
open ObjectKeys (Digest)
open YaraRegistry
open YaraWorkers

/-! ### The read path of the registry -/

/-- `list_rulesets`: `ORDER BY id`. -/
def listRulesets (t : Tables) : List Ruleset :=
  t.rulesets.vals.insertionSort fun a b => a.id ≤ b.id

/-- `active_for_scan`. -/
def activeForScan (t : Tables) : List Ruleset :=
  (listRulesets t).filter fun row => row.status ∈ SERVED_STATUSES

inductive LoadError
  | keyError
  | integrity
deriving DecidableEq

/-- `load_bytes`. -/
def loadBytes (sha256 : Digest) (t : Tables) (id : String) : Except LoadError Bytes :=
  match t.rulesets.get? id with
  | none => .error .keyError
  | some row =>
    match t.bytes.get? row.sha256 with
    | none => .error .keyError
    | some blob =>
      if sha256.hexdigest blob.data ≠ row.sha256 then .error .integrity else .ok blob.data

/-! ### Scans -/

/-- The dictionary that `scan_bytes` makes for one ruleset. -/
structure Outcome where
  rulesetId : String
  rulesetVersion : String
  rulesetSha256 : List Char
  engineVersion : String
  status : Status
  scannedAt : String
  pcapEvidenceId : Json
  report : Report
  /-- of the watchdog and the exit code; a ruleset that was refused has none -/
  ending : Option (Bool × Int)
  acted : Bool

/-- What a scan needs of its moment. -/
structure Moment where
  /-- the tables when a ruleset is loaded -/
  loads : Ruleset → Tables
  fates : Ruleset → Fate
  scannedAt : Ruleset → String

variable (tools : Tools) (sha256 : Digest) (limits : Limits) (now : Moment)

/-- `result["acted"]`. -/
def acts (status : Status) (r : Report) : Bool :=
  status = .active && r.scanError.isNone && !r.foundMatches.isEmpty

def outcomeOf (row : Ruleset) (pcapEvidenceId : Json) (r : Report) (ending : Option (Bool × Int)) :
    Outcome :=
  ⟨row.id, row.version, row.sha256, tools.engine.version, row.status, now.scannedAt row,
    pcapEvidenceId, r, ending, acts row.status r⟩

/-- One round of `scan_bytes`; `none` is the `ValueError` of `run_scan`. -/
def scanRow (data : Bytes) (pcapEvidenceId : Json) (row : Ruleset) : Option Outcome :=
  match loadBytes sha256 (now.loads row) row.id with
  | .error _ => some (outcomeOf tools now row pcapEvidenceId (.failed .rulesetIntegrity) none)
  | .ok source =>
    (runScan tools limits source data row (now.fates row)).map fun r =>
      outcomeOf tools now row pcapEvidenceId r.toReport (some (r.watchdogKilled, r.exitcode))

/-- `scan_bytes`. -/
def scanBytes (t : Tables) (data : Bytes) (pcapEvidenceId : Json) : Option (List Outcome) :=
  (activeForScan t).mapM (scanRow tools sha256 limits now data pcapEvidenceId)

/-! ### Findings -/

/-- `sorted({m["rule"] for r in results if r["acted"] for m in r["matches"]})`. -/
def actedRules (results : List Outcome) : List String :=
  ((results.filter Outcome.acted).flatMap fun o => o.report.foundMatches.map Match.rule).dedup
    |>.insertionSort (· ≤ ·)

theorem isFloat_confidence : (NumPhase.scan "0.9".toList).any NumPhase.isFloat = true := by decide

/-- The members of an event that a finding names. -/
structure Artifact where
  sha256 : String
  objectRef : String
  event : Dict

def entity (type : String) (value : Json) : Json := .obj [("type", .str type), ("value", value)]

/-- `finding_from_matches`. -/
def findingFromMatches (a : Artifact) (matchedRules : List String) (tenant now : String) :
    Option Dict :=
  if matchedRules.isEmpty then none
  else
    let short := cut a.sha256 16
    let entities : Json := .arr
      [.obj [("type", .str "ip"), ("role", .str "sensor"),
        ("value", (a.event.get? "sensor_id").getD (.str ""))],
        entity "file_sha256" (.str a.sha256),
        entity "yara_rules" (.arr (matchedRules.map .str)),
        entity "mime" ((a.event.get? "mime").getD (.str ""))]
    some
      [("finding_id", .str ("file_yara-" ++ if short = "" then "nohash" else short)),
        ("tenant_id", .str tenant), ("detector_id", .str "file_yara"),
        ("detector_version", .str "1.0"), ("category", .str "malware"), ("severity", .int 9),
        ("confidence", .float ⟨"0.9".toList, isFloat_confidence⟩), ("first_seen", .str now),
        ("last_seen", .str now), ("entities", .str (String.ofList entities.dumps)),
        ("evidence_refs",
          .arr (if a.objectRef = "" then [] else [.str ("minio://" ++ a.objectRef)])),
        ("mitre", .arr [.str "T1204"]), ("state", .str "CANDIDATE")]

def hitJson (h : StringHit) : Json :=
  .obj [("identifier", .str h.identifier), ("offset", .int h.offset),
    ("data", .str (String.ofList h.data)), ("truncated", .bool h.truncated)]

def matchJson (m : Match) : Json :=
  .obj [("rule", .str m.rule), ("strings", .arr (m.strings.map hitJson)),
    ("strings_truncated", .bool m.stringsTruncated)]

/-- The members that `run_scan` or a refusal adds to a result. -/
def reportMembers (r : Report) (ending : Option (Bool × Int)) : Dict :=
  let ended : Dict := match ending with
    | some (killed, exitcode) => [("watchdog_killed", .bool killed), ("exitcode", .int exitcode)]
    | none => []
  let mime : Dict := r.mime.toList.map fun m => ("mime", .str m)
  match r.scanError with
  | none =>
    [("matches", .arr (r.foundMatches.map matchJson)),
      ("matches_truncated", .bool r.matchesTruncated)] ++ mime ++ [("scan_error", .null)] ++
      r.fileForensics.toList.map (fun f => ("file_forensics", f)) ++ ended
  | some e => [("scan_error", .str e.text)] ++ mime ++ ended ++ [("matches", .arr [])]

def Outcome.json (o : Outcome) : Json := .obj
  ([("ruleset_id", .str o.rulesetId), ("ruleset_version", .str o.rulesetVersion),
    ("ruleset_sha256", .str (String.ofList o.rulesetSha256)),
    ("engine_version", .str o.engineVersion), ("status", .str o.status.text),
    ("scanned_at", .str o.scannedAt)] ++
    (if o.pcapEvidenceId.truthy then [("pcap_evidence_id", o.pcapEvidenceId)] else []) ++
    reportMembers o.report o.ending ++ [("acted", .bool o.acted)])

/-- `finding_from_results`: the finding, with the results that it is about and
    the forensics of the first of them that acted and has some. -/
def findingFromResults (a : Artifact) (results : List Outcome) (tenant now : String) :
    Option Dict :=
  (findingFromMatches a (actedRules results) tenant now).map fun f =>
    f ++ [("yara_results", .arr (results.map Outcome.json)),
      ("file_forensics",
        (((results.filter Outcome.acted).filterMap fun o => o.report.fileForensics).head?).getD
          (.obj []))]

/-! ### What a draft changes -/

/-- Lists of the same elements, sorted by a key that tells them apart, are equal. -/
theorem eq_of_perm_of_sorted {ν : Type} (key : ν → String) {l l' : List ν} (hperm : l.Perm l')
    (hnodup : (l.map key).Nodup) (hl : l.Pairwise fun a b => key a ≤ key b)
    (hl' : l'.Pairwise fun a b => key a ≤ key b) : l = l' := by
  apply List.Perm.eq_of_pairwise _ hl hl' hperm
  intro a b ha hb hab hba
  exact List.inj_on_of_nodup_map hnodup ha (hperm.mem_iff.mpr hb) (le_antisymm hab hba)

theorem mem_activeForScan {t : Tables} {row : Ruleset} :
    row ∈ activeForScan t ↔ t.rulesets.get? row.id = some row ∧ row.status ∈ SERVED_STATUSES := by
  rw [activeForScan, List.mem_filter, listRulesets, (List.perm_insertionSort _ _).mem_iff,
    decide_eq_true_iff, Registry.get?_eq_some]
  simp

theorem sorted_listRulesets (t : Tables) : (listRulesets t).Pairwise fun a b => a.id ≤ b.id :=
  List.pairwise_insertionSort _ _

theorem nodup_listRulesets (t : Tables) : ((listRulesets t).map Ruleset.id).Nodup :=
  ((List.perm_insertionSort _ _).map Ruleset.id).nodup_iff.mpr t.rulesets.nodup

/-- A selection of rulesets that a new row does not get into is not changed by
    it, nor is the order of the selection. -/
theorem filter_listRulesets_registered {t : Tables} {d : Draft} {tenant : String} {p : Ruleset → Bool}
    (hfresh : t.rulesets.get? d.id = none) (hp : p (d.ruleset sha256 tenant) = false) :
    (listRulesets (t.registered sha256 d tenant)).filter p = (listRulesets t).filter p := by
  have hkey : (d.ruleset sha256 tenant).id ∉ t.rulesets.keys := by
    intro hmem
    obtain ⟨row, hrow⟩ := Registry.mem_keys.mp hmem
    have hid : (d.ruleset sha256 tenant).id = d.id := rfl
    rw [hid, hfresh] at hrow
    cases hrow
  have hvals : (t.registered sha256 d tenant).rulesets.vals =
      t.rulesets.vals ++ [d.ruleset sha256 tenant] := Registry.vals_put_of_notMem hkey
  have hperm : (listRulesets (t.registered sha256 d tenant)).Perm
      (t.rulesets.vals ++ [d.ruleset sha256 tenant]) := by
    rw [← hvals]
    exact List.perm_insertionSort _ _
  apply eq_of_perm_of_sorted Ruleset.id
  · refine (hperm.filter p).trans ?_
    rw [List.filter_append, List.filter_cons_of_neg (by simp [hp]), List.filter_nil, List.append_nil]
    exact ((List.perm_insertionSort _ _).filter p).symm
  · exact (nodup_listRulesets _).sublist (List.filter_sublist.map _)
  · exact (sorted_listRulesets _).sublist List.filter_sublist
  · exact (sorted_listRulesets _).sublist List.filter_sublist

/-- What is scanned with does not change when a draft is registered. -/
theorem activeForScan_registered {t : Tables} {d : Draft} {tenant : String}
    (hfresh : t.rulesets.get? d.id = none) :
    activeForScan (t.registered sha256 d tenant) = activeForScan t :=
  filter_listRulesets_registered sha256 hfresh rfl

/-! ### What may act -/

variable {sha256}

/-- A commit keeps every ruleset, with its address. -/
theorem kept_commits {t t' : Tables} {k : Call} {res : Except RegistryError String}
    (hk : Commits sha256 t k res t') {id : String} {row : Ruleset}
    (hrow : t.rulesets.get? id = some row) :
    ∃ row', t'.rulesets.get? id = some row' ∧ row'.sha256 = row.sha256 := by
  cases hk with
  | registered r d tenant hfresh => exact ⟨row, get?_registered_of_get? hfresh hrow, rfl⟩
  | moved p actor ts old target hlegal hallowed => exact get?_moved_of_get? hlegal.found hrow
  | denied p actor ts old target hlegal hdenied => exact ⟨row, hrow, rfl⟩

section Runs

variable {κ : Type} [DecidableEq κ] (inputs more : List (Input κ))

theorem kept_after {id : String} {row : Ruleset}
    (hrow : (after sha256 inputs).tables.rulesets.get? id = some row) :
    ∃ row', (after sha256 (inputs ++ more)).tables.rulesets.get? id = some row' ∧
      row'.sha256 = row.sha256 := by
  rw [after, Machine.run_append]
  apply Machine.run_invariant (P := fun db : Database κ Tables =>
    ∃ row', db.tables.rulesets.get? id = some row' ∧ row'.sha256 = row.sha256)
  · rintro db i ⟨row', hrow', haddress⟩
    rcases tables_step sha256 db i with heq | ⟨c, k, res, -, hk⟩
    · exact ⟨row', by rw [heq, hrow'], haddress⟩
    · obtain ⟨row'', hrow'', haddress'⟩ := kept_commits hk hrow'
      exact ⟨row'', hrow'', haddress'.trans haddress⟩
  · exact ⟨row, hrow, rfl⟩

/-- A ruleset that is listed can be loaded at every later moment, and what is
    loaded hashes to the address in the list. -/
theorem loadBytes_after {row : Ruleset}
    (hrow : (after sha256 inputs).tables.rulesets.get? row.id = some row) :
    ∃ source, loadBytes sha256 (after sha256 (inputs ++ more)).tables row.id = .ok source ∧
      sha256.hexdigest source = row.sha256 := by
  obtain ⟨row', hrow', haddress⟩ := kept_after inputs more hrow
  obtain ⟨blob, hblob, hhash⟩ := (sound_after (inputs ++ more)).stored row.id row' hrow'
  refine ⟨blob.data, ?_, hhash.trans haddress⟩
  simp only [loadBytes, hrow', hblob, hhash, ne_eq, not_true_eq_false, if_false]

/-- A ruleset that is served was promoted by a call that was authorized. -/
theorem promoted_of_served {row : Ruleset}
    (hrow : (after sha256 inputs).tables.rulesets.get? row.id = some row)
    (hserved : row.status ∈ SERVED_STATUSES) :
    ∃ pre c p post, inputs = pre ++ .call c (.promote p) :: post ∧
      ChangedLast sha256 pre c p post row := by
  rcases attributed_after inputs row.id row hrow with ⟨hdraft, -⟩ | hpromoted
  · rw [hdraft] at hserved
    simp [SERVED_STATUSES] at hserved
  · exact hpromoted

/-- What a result says about its ruleset, and when it acts. -/
structure Trusted (tools : Tools) (sha256 : Digest) (limits : Limits) (inputs : List (Input κ))
    (fates : Ruleset → Fate) (data : Bytes) (o : Outcome) (row : Ruleset) : Prop where
  named : o.rulesetId = row.id ∧ o.rulesetSha256 = row.sha256 ∧ o.status = row.status
  listed : (after sha256 inputs).tables.rulesets.get? row.id = some row
  promoted : ∃ pre c p post, inputs = pre ++ .call c (.promote p) :: post ∧
    ChangedLast sha256 pre c p post row
  /-- the engine got the bytes that were registered, and the result acts when
      the ruleset is active and the child got through with matches -/
  scanned : ∃ source r, sha256.hexdigest source = row.sha256 ∧
    runScan tools limits source data row (fates row) = some r ∧ o.report = r.toReport ∧
    (o.acted = true ↔ row.status = .active ∧ r.foundMatches ≠ [] ∧
      Completed tools limits source data row (fates row) r.foundMatches)

variable {tools limits} (later : Ruleset → List (Input κ)) (fates : Ruleset → Fate)
  (scannedAt : Ruleset → String)

/-- The moment of a scan that other calls on the registry interleave with. -/
def interleaved (sha256 : Digest) : Moment :=
  ⟨fun row => (after sha256 (inputs ++ later row)).tables, fates, scannedAt⟩

theorem acts_iff {status : Status} {r : Report} :
    acts status r = true ↔ status = .active ∧ r.scanError = none ∧ r.foundMatches ≠ [] := by
  simp [acts, and_assoc]

theorem trusted_scanRow {data : Bytes} {pcapEvidenceId : Json} {row : Ruleset} {o : Outcome}
    (hrow : row ∈ activeForScan (after sha256 inputs).tables)
    (h : scanRow tools sha256 limits (interleaved inputs later fates scannedAt sha256) data
      pcapEvidenceId row = some o) :
    Trusted tools sha256 limits inputs fates data o row := by
  obtain ⟨hlisted, hserved⟩ := mem_activeForScan.mp hrow
  obtain ⟨source, hload, hhash⟩ := loadBytes_after inputs (later row) hlisted
  have hload' : loadBytes sha256 ((interleaved inputs later fates scannedAt sha256).loads row)
      row.id = .ok source := hload
  unfold scanRow at h
  rw [hload'] at h
  obtain ⟨r, hrun, rfl⟩ := Option.map_eq_some_iff.mp h
  have hrun' : runScan tools limits source data row (fates row) = some r := hrun
  refine ⟨⟨rfl, rfl, rfl⟩, hlisted, promoted_of_served inputs hlisted hserved,
    source, r, hhash, hrun', rfl, ?_⟩
  show acts row.status r.toReport = true ↔ _
  have hcompleted := completed_iff hrun'
  rw [acts_iff, ← hcompleted]
  tauto

theorem exists_of_forall₂ {α β : Type} {R : α → β → Prop} {as : List α} {bs : List β}
    (h : List.Forall₂ R as bs) {b : β} (hb : b ∈ bs) : ∃ a ∈ as, R a b := by
  induction h with
  | nil => cases hb
  | cons hab _ ih =>
    rcases List.mem_cons.mp hb with rfl | hb
    · exact ⟨_, List.mem_cons_self, hab⟩
    · obtain ⟨a, ha, hR⟩ := ih hb
      exact ⟨a, List.mem_cons_of_mem _ ha, hR⟩

/-- The rules of a finding are those of the results that acted. -/
theorem mem_actedRules {results : List Outcome} {rule : String} : rule ∈ actedRules results ↔
    ∃ o ∈ results, o.acted = true ∧ ∃ m ∈ o.report.foundMatches, m.rule = rule := by
  rw [actedRules, (List.perm_insertionSort _ _).mem_iff, List.mem_dedup, List.mem_flatMap]
  simp only [List.mem_filter, List.mem_map, and_assoc]

theorem findingFromResults_isSome (a : Artifact) (results : List Outcome) (tenant now : String) :
    (findingFromResults a results tenant now).isSome = !(actedRules results).isEmpty := by
  unfold findingFromResults findingFromMatches
  cases actedRules results <;> rfl

/-- What a scan between any calls on the registry may act on. Its results are
    those of the rulesets that were served, in order. A ruleset acts only when
    it is active after an authorized promotion, and on matches that a child
    which got through found with the registered bytes. A finding is made
    exactly when one acts, of the rules of those that do (`actedRules`). -/
theorem scan_trusted {data : Bytes} {pcapEvidenceId : Json} {results : List Outcome}
    (h : scanBytes tools sha256 limits (interleaved inputs later fates scannedAt sha256)
      (after sha256 inputs).tables data pcapEvidenceId = some results) :
    List.Forall₂ (fun row o => Trusted tools sha256 limits inputs fates data o row)
      (activeForScan (after sha256 inputs).tables) results ∧
    (∀ a tenant at_, (findingFromResults a results tenant at_).isSome = true ↔
      ∃ o ∈ results, o.acted = true) ∧
    ∀ rule, rule ∈ actedRules results ↔
      ∃ o ∈ results, o.acted = true ∧ ∃ m ∈ o.report.foundMatches, m.rule = rule := by
  have hrows := (List.forall₂_and_left _ _).mpr ⟨fun _ hrow => hrow, Option.mapM_eq_some_iff.mp h⟩
  have htrusted : List.Forall₂ (fun row o => Trusted tools sha256 limits inputs fates data o row)
      (activeForScan (after sha256 inputs).tables) results :=
    hrows.imp fun row o ⟨hrow, ho⟩ => trusted_scanRow inputs later fates scannedAt hrow ho
  refine ⟨htrusted, ?_, fun rule => mem_actedRules⟩
  intro a tenant at_
  rw [findingFromResults_isSome, Bool.not_eq_true', List.isEmpty_eq_false_iff_exists_mem]
  constructor
  · intro ⟨rule, hrule⟩
    obtain ⟨o, ho, hacted, -⟩ := mem_actedRules.mp hrule
    exact ⟨o, ho, hacted⟩
  · intro ⟨o, ho, hacted⟩
    -- a result that acts has a match
    obtain ⟨row, -, htrust⟩ := exists_of_forall₂ htrusted ho
    obtain ⟨source, r, -, -, hreport, hiff⟩ := htrust.scanned
    obtain ⟨-, hmatches, -⟩ := hiff.mp hacted
    obtain ⟨m, hm⟩ := List.exists_mem_of_ne_nil _ hmatches
    exact ⟨m.rule, mem_actedRules.mpr ⟨o, ho, hacted, m, by rw [hreport]; exact hm, rfl⟩⟩

end Runs

/-! ### A scan that acts -/

def sampleTools : Tools where
  engine := ⟨"4.5.1", fun _ _ => .ok [⟨"EICAR", true, []⟩]⟩
  zipfile := ⟨fun _ => false, fun _ => .ok []⟩
  forensics _ := .null

/-- A ruleset is registered and promoted to shadow and to active. -/
def sampleInputs : List (Input Unit) :=
  let rid := bundledId (ObjectKeys.sampleDigest.hexdigest sampleFile.data)
  [.call () (registerCall ObjectKeys.sampleDigest sampleFile sampleEnv),
    .call () (promoteCall rid .shadow sampleEnv), .call () (promoteCall rid .active sampleEnv)]

def sampleScan : Option (List Outcome) :=
  scanBytes sampleTools ObjectKeys.sampleDigest .default
    (interleaved sampleInputs (fun _ => []) (fun _ => ⟨.own, 0, false, 0⟩) (fun _ => "")
      ObjectKeys.sampleDigest)
    (after ObjectKeys.sampleDigest sampleInputs).tables [88] .null

theorem sampleScan_acts : (sampleScan.any fun results => results.any Outcome.acted) = true := by
  decide +kernel

theorem scan_trusted_active : ∃ results, sampleScan = some results ∧
    List.Forall₂ (fun row o => Trusted sampleTools ObjectKeys.sampleDigest .default sampleInputs
      (fun _ => ⟨.own, 0, false, 0⟩) [88] o row)
      (activeForScan (after ObjectKeys.sampleDigest sampleInputs).tables) results ∧
    (findingFromResults ⟨"", "", []⟩ results "default" "").isSome = true := by
  obtain ⟨results, hscan, hacted⟩ := (Option.any_eq_true _ _).mp sampleScan_acts
  obtain ⟨htrusted, hfinding, -⟩ := scan_trusted sampleInputs (fun _ => [])
    (fun _ => ⟨.own, 0, false, 0⟩) (fun _ => "") hscan
  exact ⟨results, hscan, htrusted, (hfinding _ _ _).mpr (List.any_eq_true.mp hacted)⟩

end YaraScan
