import CernityNdr.Yara.Scanning

/-! # The Rules a Worker May Compile

    The model of `services/file-yara/rules_refresh.py`. Remote rules are only
    staged: `refresh_to_registry` registers what it fetched as drafts.
    `ensure_rules` gives the rules that may be compiled: the served rulesets of
    the registry, and the files of the image that no row but a draft governs.
    It reads the registry several times, so other calls may come between.

    * `compiled_iff`: which bytes may be compiled.
    * `ensureRules_of_drafts`: drafts never change that, whenever they come.
    * `refresh_again`: staging adds nothing the second time. -/

namespace YaraRules

open ObjectKeys (Digest)
open YaraRegistry
open YaraScan

/-! ### Compiling -/

/-- A file of the bundled directory. -/
structure RuleFile where
  name : String
  data : Bytes

/-- A path that `ensure_rules` returns, with the bytes of the file there. -/
structure Compilable where
  path : String
  data : Bytes

/-- When `ensure_rules` reads the registry: for the list of served rulesets,
    for the bytes of each, and for the rows that govern the files. -/
structure Reads where
  listed : Tables
  loads : Ruleset → Tables
  governing : Tables

/-- The reads of a call that no other call interleaves with. -/
def Reads.quiet (t : Tables) : Reads := ⟨t, fun _ => t, t⟩

variable (sha256 : Digest)

/-- `{r["sha256"] for r in registry.list_rulesets() if r["status"] != "draft"}`. -/
def governed (t : Tables) : List (List Char) :=
  ((listRulesets t).filter fun row => row.status ≠ .draft).map Ruleset.sha256

/-- The `.yar` files in the order of their names. -/
def bundledFiles (dir : List RuleFile) : List RuleFile :=
  (dir.insertionSort fun a b => a.name ≤ b.name).filter fun f =>
    ".yar".toList.isSuffixOf f.name.toList

instance instLawfulBEqDigest : LawfulBEq (List Char) := inferInstance

/-- What `ensure_rules` raises. -/
inductive RulesError
  | load (e : LoadError)
  | osError

/-- Where a served ruleset is written to. -/
def servedPath (cacheDir : String) (row : Ruleset) : String :=
  cacheDir ++ "/served_" ++ row.id ++ ".yar"

/-- The file of a served ruleset. At some paths the write raises, as where the
    name is longer than the file system allows; `writes` are the others. -/
def serve (writes : String → Bool) (cacheDir : String) (reads : Reads) (row : Ruleset) :
    Except RulesError Compilable :=
  match loadBytes sha256 (reads.loads row) row.id with
  | .error e => .error (.load e)
  | .ok data =>
    if writes (servedPath cacheDir row) then .ok ⟨servedPath cacheDir row, data⟩
    else .error .osError

/-- `ensure_rules`, with a registry, in directories that can be listed and
    emptied and read. The cache holds nothing but what this call writes to it. -/
def ensureRules (writes : String → Bool) (cacheDir bundledDir : String) (reads : Reads)
    (bundled : List RuleFile) : Except RulesError (List Compilable) := do
  let served ← (activeForScan reads.listed).mapM (serve sha256 writes cacheDir reads)
  let free := (bundledFiles bundled).filter fun f =>
    sha256.hexdigest f.data ∉ governed reads.governing
  .ok (served ++ free.map fun f => ⟨bundledDir ++ "/" ++ f.name, f.data⟩)

/-! ### Staging -/

def MAX_RULE_BYTES : Nat := 8 * 1024 * 1024

/-- `_fetch_remote`; `body` is what the server sends, `none` when the request
    fails. -/
def fetchRemote (url : String) (body : Option Bytes) : Option Bytes :=
  if !"https://".toList.isPrefixOf url.toList then none
  else
    (body.map fun b => b.take (MAX_RULE_BYTES + 1)).filter fun data => data.length ≤ MAX_RULE_BYTES

/-- The registration of what was fetched from the URL number `i`, with the defaults
    of `source` and `target_mime_types`. -/
def stageCall (i : Nat) (url : String) (data : Bytes) (maxFileSize : Int) (env : Env) : Call :=
  .register
    { name := .str ("remote_" ++ toString i ++ ":" ++ url)
      version := .str (String.ofList ((sha256.hexdigest data).take 12))
      data := .bytes data
      source := .str "rules-refresh"
      targetMimeTypes := .none
      maxFileSize := .int maxFileSize
      releaseNotes := .none
      testCorpusRef := .none
      tenant := some "*"
      rulesetId := .none
      ts := .none
      uuid := env.uuid
      now := env.now
      faults := env.faults }

variable {κ : Type}

/-- One registration, with the id that it returns. -/
def register (s : Running κ) (c : κ) (call : Env → Call) : Except Stop String × Running κ :=
  match s.script with
  | [] => (.error .crashed, s)
  | env :: script =>
    match perform sha256 s.db c (call env) with
    | (.ok id, db) => (.ok id, ⟨db, script⟩)
    | (.error e, db) => (.error (.raised e), ⟨db, script⟩)

/-- The loop of `refresh_to_registry`, from URL number `i` on; `existing` are
    the digests it has seen. -/
def stage (c : κ) (maxFileSize : Int) (existing : List (List Char)) (ids : List String) :
    Running κ → Nat → List (String × Option Bytes) → Except Stop (List String) × Running κ
  | s, _, [] => (.ok ids, s)
  | s, i, (url, body) :: rest =>
    match fetchRemote url body with
    | none => stage c maxFileSize existing ids s (i + 1) rest
    | some data =>
      if sha256.hexdigest data ∈ existing then stage c maxFileSize existing ids s (i + 1) rest
      else
        match register sha256 s c (stageCall sha256 i url data maxFileSize) with
        | (.error e, s') => (.error e, s')
        | (.ok id, s') =>
          stage c maxFileSize (sha256.hexdigest data :: existing) (ids ++ [id]) s' (i + 1) rest

/-- `refresh_to_registry`, with what each URL answers. -/
def refreshToRegistry (s : Running κ) (c : κ) (maxFileSize : Int)
    (answers : List (String × Option Bytes)) : Except Stop (List String) × Running κ :=
  stage sha256 c maxFileSize ((listRulesets s.db.tables).map Ruleset.sha256) [] s 0 answers

/-! ### Which bytes may be compiled -/

variable {sha256}

theorem mem_listRulesets {t : Tables} {row : Ruleset} :
    row ∈ listRulesets t ↔ t.rulesets.get? row.id = some row := by
  rw [listRulesets, (List.perm_insertionSort _ _).mem_iff, Registry.get?_eq_some]
  simp

theorem mem_governed {t : Tables} {address : List Char} : address ∈ governed t ↔
    ∃ row, t.rulesets.get? row.id = some row ∧ row.status ≠ .draft ∧ row.sha256 = address := by
  simp only [governed, List.mem_map, List.mem_filter, mem_listRulesets, decide_eq_true_eq, and_assoc]

section Runs

variable [DecidableEq κ]

/-- A refresh that other calls on the registry interleave with. -/
def readsOf (sha256 : Digest) (inputs : List (Input κ)) (later : Ruleset → List (Input κ))
    (last : List (Input κ)) : Reads where
  listed := (after sha256 inputs).tables
  loads row := (after sha256 (inputs ++ later row)).tables
  governing := (after sha256 (inputs ++ last)).tables

/-- Every ruleset that is listed is loaded, and written where it can be. -/
theorem served_of_run (writes : String → Bool) (cacheDir : String) (inputs : List (Input κ))
    (later : Ruleset → List (Input κ)) (last : List (Input κ)) :
    ∃ data : Ruleset → Bytes,
      (∀ row ∈ activeForScan (after sha256 inputs).tables,
        sha256.hexdigest (data row) = row.sha256) ∧
      (activeForScan (after sha256 inputs).tables).mapM
          (serve sha256 writes cacheDir (readsOf sha256 inputs later last)) =
        if (activeForScan (after sha256 inputs).tables).all fun row => writes (servedPath cacheDir row)
        then .ok ((activeForScan (after sha256 inputs).tables).map fun row =>
          ⟨servedPath cacheDir row, data row⟩)
        else .error .osError := by
  -- whatever comes between the two reads, the bytes are still there
  have hload : ∀ row ∈ activeForScan (after sha256 inputs).tables, ∃ data,
      loadBytes sha256 (after sha256 (inputs ++ later row)).tables row.id = .ok data ∧
        sha256.hexdigest data = row.sha256 := fun row hrow =>
    loadBytes_after inputs (later row) (mem_activeForScan.mp hrow).1
  choose! data hdata hhash using hload
  refine ⟨data, hhash, ?_⟩
  rw [← Except.mapM_ite]
  apply Except.mapM_congr
  intro row hrow
  simp only [serve, readsOf, hdata row hrow]

/-- The reads of the registry never fail, so a refresh fails exactly where a
    served ruleset cannot be written. Else bytes may be compiled exactly when
    they are those of a ruleset that is served after an authorized promotion, or
    those of a file of the image that no row has but drafts. -/
theorem compiled_iff (writes : String → Bool) (cacheDir bundledDir : String)
    (inputs : List (Input κ)) (later : Ruleset → List (Input κ)) (last : List (Input κ))
    (bundled : List RuleFile) :
    (∃ row ∈ activeForScan (after sha256 inputs).tables,
        writes (servedPath cacheDir row) = false) ∧
      ensureRules sha256 writes cacheDir bundledDir (readsOf sha256 inputs later last) bundled =
        .error .osError ∨
    (∀ row ∈ activeForScan (after sha256 inputs).tables, writes (servedPath cacheDir row) = true) ∧
      ∃ files,
      ensureRules sha256 writes cacheDir bundledDir (readsOf sha256 inputs later last) bundled =
        .ok files ∧ ∀ address, (∃ f ∈ files, sha256.hexdigest f.data = address) ↔
      (∃ row, (after sha256 inputs).tables.rulesets.get? row.id = some row ∧
        row.status ∈ SERVED_STATUSES ∧ row.sha256 = address ∧
        ∃ pre c p post, inputs = pre ++ .call c (.promote p) :: post ∧
          ChangedLast sha256 pre c p post row) ∨
      ((∃ f ∈ bundled, ".yar".toList.isSuffixOf f.name.toList = true ∧
          sha256.hexdigest f.data = address) ∧
        ∀ row, (after sha256 (inputs ++ last)).tables.rulesets.get? row.id = some row →
          row.sha256 = address → row.status = .draft) := by
  obtain ⟨data, hhash, hserved⟩ :=
    @served_of_run sha256 κ _ writes cacheDir inputs later last
  by_cases hwrites : (activeForScan (after sha256 inputs).tables).all
    (fun row => writes (servedPath cacheDir row)) = true
  case neg =>
    -- the first file that cannot be written ends the call
    rw [if_neg hwrites] at hserved
    refine .inl ⟨by simpa using hwrites, ?_⟩
    unfold ensureRules
    rw [show (readsOf sha256 inputs later last).listed = (after sha256 inputs).tables from rfl, hserved]
    rfl
  rw [if_pos hwrites] at hserved
  refine .inr ⟨List.all_eq_true.mp hwrites, _, Except.bind_eq_ok.mpr ⟨_, hserved, rfl⟩, ?_⟩
  intro address
  have hleft : (∃ f ∈ (activeForScan (after sha256 inputs).tables).map fun row =>
        (⟨servedPath cacheDir row, data row⟩ : Compilable), sha256.hexdigest f.data = address) ↔
      ∃ row ∈ activeForScan (after sha256 inputs).tables, row.sha256 = address := by
    simp only [List.mem_map, exists_exists_and_eq_and]
    exact exists_congr fun row => and_congr_right fun hrow => by rw [hhash row hrow]
  simp only [List.mem_append, or_and_right, exists_or]
  rw [hleft]
  simp only [List.mem_map, List.mem_filter, decide_eq_true_eq]
  apply or_congr
  · constructor
    · rintro ⟨row, hrow, haddress⟩
      obtain ⟨hget, hstatus⟩ := mem_activeForScan.mp hrow
      exact ⟨row, hget, hstatus, haddress, promoted_of_served inputs hget hstatus⟩
    · rintro ⟨row, hget, hstatus, haddress, _⟩
      exact ⟨row, mem_activeForScan.mpr ⟨hget, hstatus⟩, haddress⟩
  · -- a file is left out when a row that is no draft has its bytes
    have hfree : ∀ a, a ∉ governed (readsOf sha256 inputs later last).governing ↔
        ∀ row, (after sha256 (inputs ++ last)).tables.rulesets.get? row.id = some row →
          row.sha256 = a → row.status = .draft := by
      intro a
      rw [mem_governed]
      constructor
      · intro hnone row hget haddress
        by_contra hstatus
        exact hnone ⟨row, hget, hstatus, haddress⟩
      · rintro hall ⟨row, hget, hstatus, haddress⟩
        exact hstatus (hall row hget haddress)
    have hmem : ∀ f, f ∈ bundledFiles bundled ↔
        f ∈ bundled ∧ ".yar".toList.isSuffixOf f.name.toList = true := by
      intro f
      rw [bundledFiles, List.mem_filter, (List.perm_insertionSort _ _).mem_iff]
    constructor
    · rintro ⟨_, ⟨f, ⟨hf, hnot⟩, rfl⟩, haddress⟩
      obtain ⟨hbundled, hname⟩ := (hmem f).mp hf
      exact ⟨⟨f, hbundled, hname, haddress⟩, haddress ▸ (hfree _).mp hnot⟩
    · rintro ⟨⟨f, hbundled, hname, haddress⟩, hall⟩
      refine ⟨_, ⟨f, ⟨(hmem f).mpr ⟨hbundled, hname⟩, ?_⟩, rfl⟩, haddress⟩
      rw [hfree, haddress]
      exact hall

/-! ### Drafts are inert -/

/-- A registration, or a connection that closes. -/
def IsDraft : Input κ → Prop
  | .call _ (.register _) => True
  | .call _ (.promote _) => False
  | .close _ => True

/-- Nothing that may be compiled or scanned with differs. -/
structure SameRules (sha256 : Digest) (t t' : Tables) : Prop where
  served : activeForScan t' = activeForScan t
  governing : governed t' = governed t
  bytes : ∀ row ∈ activeForScan t, loadBytes sha256 t' row.id = loadBytes sha256 t row.id

theorem SameRules.refl (t : Tables) : SameRules sha256 t t := ⟨rfl, rfl, fun _ _ => rfl⟩

theorem SameRules.trans {t t' t'' : Tables} (h : SameRules sha256 t t')
    (h' : SameRules sha256 t' t'') : SameRules sha256 t t'' where
  served := h'.served.trans h.served
  governing := h'.governing.trans h.governing
  bytes row hrow := (h'.bytes row (by rw [h.served]; exact hrow)).trans (h.bytes row hrow)

theorem sameRules_registered {t : Tables} {d : Draft} {tenant : String} (hsound : Sound sha256 t)
    (hfresh : t.rulesets.get? d.id = none) : SameRules sha256 t (t.registered sha256 d tenant) where
  served := activeForScan_registered sha256 hfresh
  governing := congrArg (List.map Ruleset.sha256) (filter_listRulesets_registered sha256 hfresh rfl)
  bytes row hrow := by
    obtain ⟨hget, -⟩ := mem_activeForScan.mp hrow
    obtain ⟨blob, hblob, -⟩ := hsound.stored row.id row hget
    have hget' := @get?_registered_of_get? sha256 t d tenant hfresh row.id row hget
    have hblob' : (t.registered sha256 d tenant).bytes.get? row.sha256 = some blob := by
      rw [get?_bytes_registered, hblob]
      rfl
    simp only [loadBytes, hget, hget', hblob, hblob']

theorem sameRules_drafts (inputs : List (Input κ)) {drafts : List (Input κ)}
    (h : ∀ i ∈ drafts, IsDraft i) :
    SameRules sha256 (after sha256 inputs).tables (after sha256 (inputs ++ drafts)).tables := by
  induction drafts using List.reverseRecOn with
  | nil =>
    rw [List.append_nil]
    exact SameRules.refl _
  | append_singleton drafts i ih =>
    have hbefore := ih fun j hj => h j (by simp [hj])
    apply hbefore.trans
    rw [← List.append_assoc, after_snoc]
    rcases tables_step sha256 (after sha256 (inputs ++ drafts)) i with heq | ⟨c, k, res, rfl, hk⟩
    · rw [heq]
      exact SameRules.refl _
    · have hdraft : IsDraft (.call c k : Input κ) := h _ (by simp)
      -- what commits is a registration of a new id
      generalize (step sha256 (after sha256 (inputs ++ drafts)) (.call c k)).tables = t' at hk ⊢
      cases hk with
      | registered r d tenant hfresh =>
        exact sameRules_registered (sound_after (inputs ++ drafts)) hfresh
      | moved p actor ts row target hlegal hallowed => exact hdraft.elim
      | denied p actor ts row target hlegal hdenied => exact hdraft.elim

/-- Drafts that are registered before a refresh or at any moment of it leave
    what may be compiled, and in which order. -/
theorem ensureRules_of_drafts (writes : String → Bool) (cacheDir bundledDir : String)
    (inputs : List (Input κ)) {drafts last : List (Input κ)} {later : Ruleset → List (Input κ)}
    (bundled : List RuleFile)
    (hdrafts : ∀ i ∈ drafts, IsDraft i) (hlater : ∀ row, ∀ i ∈ later row, IsDraft i)
    (hlast : ∀ i ∈ last, IsDraft i) :
    ensureRules sha256 writes cacheDir bundledDir (readsOf sha256 (inputs ++ drafts) later last)
        bundled =
      ensureRules sha256 writes cacheDir bundledDir (.quiet (after sha256 inputs).tables) bundled := by
  have hlisted := @sameRules_drafts sha256 κ _ inputs drafts hdrafts
  have hgoverning : governed (readsOf sha256 (inputs ++ drafts) later last).governing =
      governed (after sha256 inputs).tables :=
    (hlisted.trans (sameRules_drafts (inputs ++ drafts) hlast)).governing
  have hserve : ∀ row ∈ activeForScan (after sha256 inputs).tables,
      serve sha256 writes cacheDir (readsOf sha256 (inputs ++ drafts) later last) row =
        serve sha256 writes cacheDir (.quiet (after sha256 inputs).tables) row := by
    intro row hrow
    have hbytes := (hlisted.trans (sameRules_drafts (inputs ++ drafts) (hlater row))).bytes row hrow
    simp only [serve, readsOf, Reads.quiet, hbytes]
  have hlist : activeForScan (readsOf sha256 (inputs ++ drafts) later last).listed =
      activeForScan (after sha256 inputs).tables := hlisted.served
  unfold ensureRules
  rw [hlist, hgoverning, Except.mapM_congr hserve]
  rfl

/-! ### Staging twice -/

/-- A ruleset with these bytes is in the registry. -/
def Present (t : Tables) (address : List Char) : Prop :=
  ∃ id row, t.rulesets.get? id = some row ∧ row.sha256 = address

theorem present_iff {t : Tables} {address : List Char} :
    Present t address ↔ address ∈ (listRulesets t).map Ruleset.sha256 := by
  rw [List.mem_map]
  constructor
  · intro ⟨id, row, hget, haddress⟩
    have hid : row.id = id := (Registry.get?_eq_some.mp hget).2
    exact ⟨row, mem_listRulesets.mpr (by rw [hid, hget]), haddress⟩
  · intro ⟨row, hmem, haddress⟩
    exact ⟨row.id, row, mem_listRulesets.mp hmem, haddress⟩

/-- No row is ever deleted. -/
theorem present_step {db : Database κ Tables} {address : List Char} (h : Present db.tables address)
    (i : Input κ) : Present (step sha256 db i).tables address := by
  obtain ⟨id, row, hget, haddress⟩ := h
  rcases tables_step sha256 db i with heq | ⟨c, k, res, -, hk⟩
  · exact ⟨id, row, by rw [heq, hget], haddress⟩
  · obtain ⟨row', hget', hsame⟩ := kept_commits hk hget
    exact ⟨id, row', hget', hsame.trans haddress⟩

theorem present_run {db : Database κ Tables} {address : List Char} (h : Present db.tables address)
    (more : List (Input κ)) : Present (Machine.run (step sha256) db more).tables address :=
  Machine.run_invariant (P := fun db : Database κ Tables => Present db.tables address)
    (fun _ i hdb => present_step hdb i) h more

/-- A registration that returns has stored the bytes. -/
theorem present_of_registered {s s' : Running κ} {c : κ} {i : Nat} {url : String} {data : Bytes}
    {maxFileSize : Int} {id : String}
    (h : register sha256 s c (stageCall sha256 i url data maxFileSize) = (.ok id, s')) :
    Present s'.db.tables (sha256.hexdigest data) ∧
      ∀ address, Present s.db.tables address → Present s'.db.tables address := by
  unfold register at h
  cases hscript : s.script with
  | nil =>
    rw [hscript] at h
    cases h
  | cons env script =>
    rw [hscript] at h
    dsimp only at h
    cases hperform : perform sha256 s.db c (stageCall sha256 i url data maxFileSize env) with
    | mk res db =>
      rw [hperform] at h
      have hstep : step sha256 s.db (.call c (stageCall sha256 i url data maxFileSize env)) = db :=
        congrArg Prod.snd hperform
      cases res with
      | error e => cases h
      | ok id' =>
        cases h
        constructor
        · obtain ⟨d, tenant, hvalid, -, htables⟩ := registerDraft_eq_ok hperform
          -- the first check of a registration is that of its bytes
          obtain ⟨data', hdata, hvalid⟩ := Except.bind_eq_ok.mp hvalid
          obtain ⟨description, -, hvalid⟩ := Except.bind_eq_ok.mp hvalid
          obtain ⟨id'', -, hvalid⟩ := Except.bind_eq_ok.mp hvalid
          obtain ⟨ts, -, hvalid⟩ := Except.bind_eq_ok.mp hvalid
          cases hdata
          cases hvalid
          exact ⟨_, _, by rw [htables]; exact get?_registered_self, rfl⟩
        · intro address hpresent
          rw [← hstep]
          exact present_step hpresent _

/-- A refresh that returns has a row for everything that it fetched. -/
theorem present_of_staged {c : κ} {maxFileSize : Int} {existing : List (List Char)}
    {ids ids' : List String} {s s' : Running κ} {i : Nat} {answers : List (String × Option Bytes)}
    (hexisting : ∀ address ∈ existing, Present s.db.tables address)
    (h : stage sha256 c maxFileSize existing ids s i answers = (.ok ids', s')) :
    (∀ a ∈ answers, ∀ data, fetchRemote a.1 a.2 = some data →
      Present s'.db.tables (sha256.hexdigest data)) ∧
      ∀ address, Present s.db.tables address → Present s'.db.tables address := by
  induction answers generalizing existing ids s i with
  | nil =>
    cases h
    exact ⟨by simp, fun _ hp => hp⟩
  | cons answer rest ih =>
    obtain ⟨url, body⟩ := answer
    unfold stage at h
    cases hfetch : fetchRemote url body with
    | none =>
      rw [hfetch] at h
      obtain ⟨hrest, hkept⟩ := ih hexisting h
      refine ⟨?_, hkept⟩
      intro a ha data hdata
      rcases List.mem_cons.mp ha with rfl | ha
      · rw [hfetch] at hdata
        cases hdata
      · exact hrest a ha data hdata
    | some data =>
      rw [hfetch] at h
      dsimp only at h
      split at h
      · next hknown =>
        obtain ⟨hrest, hkept⟩ := ih hexisting h
        refine ⟨?_, hkept⟩
        intro a ha data' hdata
        rcases List.mem_cons.mp ha with rfl | ha
        · rw [hfetch] at hdata
          obtain rfl := Option.some.inj hdata
          exact hkept _ (hexisting _ hknown)
        · exact hrest a ha data' hdata
      · cases hreg : register sha256 s c (stageCall sha256 i url data maxFileSize) with
        | mk res s₁ =>
          rw [hreg] at h
          cases res with
          | error e => cases h
          | ok id =>
            obtain ⟨hstored, hold⟩ := present_of_registered hreg
            have hexisting' : ∀ address ∈ sha256.hexdigest data :: existing,
                Present s₁.db.tables address := by
              intro address haddress
              rcases List.mem_cons.mp haddress with rfl | haddress
              · exact hstored
              · exact hold _ (hexisting _ haddress)
            obtain ⟨hrest, hkept⟩ := ih hexisting' h
            refine ⟨?_, fun address hp => hkept _ (hold _ hp)⟩
            intro a ha data' hdata
            rcases List.mem_cons.mp ha with rfl | ha
            · rw [hfetch] at hdata
              obtain rfl := Option.some.inj hdata
              exact hkept _ hstored
            · exact hrest a ha data' hdata

omit [DecidableEq κ] in
theorem stage_of_known {c : κ} {maxFileSize : Int} {existing : List (List Char)} {ids : List String}
    {s : Running κ} {i : Nat} {answers : List (String × Option Bytes)}
    (h : ∀ a ∈ answers, ∀ data, fetchRemote a.1 a.2 = some data → sha256.hexdigest data ∈ existing) :
    stage sha256 c maxFileSize existing ids s i answers = (.ok ids, s) := by
  induction answers generalizing i with
  | nil => rfl
  | cons answer rest ih =>
    obtain ⟨url, body⟩ := answer
    have hrest := ih (i := i + 1) fun a ha => h a (List.mem_cons_of_mem _ ha)
    unfold stage
    cases hfetch : fetchRemote url body with
    | none => exact hrest
    | some data =>
      dsimp only
      rw [if_pos (h (url, body) List.mem_cons_self data hfetch)]
      exact hrest

/-- What a refresh that returned has staged is never staged again: whatever is
    called in between, and whatever became of the drafts, the next refresh that
    fetches nothing new registers nothing. -/
theorem refresh_again {s s' : Running κ} {c : κ} {maxFileSize : Int} {ids : List String}
    {answers : List (String × Option Bytes)}
    (h : refreshToRegistry sha256 s c maxFileSize answers = (.ok ids, s')) (more : List (Input κ))
    (script : List Env) (c' : κ) (maxFileSize' : Int) {answers' : List (String × Option Bytes)}
    (hsame : ∀ a ∈ answers', ∀ data, fetchRemote a.1 a.2 = some data →
      ∃ b ∈ answers, ∃ data', fetchRemote b.1 b.2 = some data' ∧
        sha256.hexdigest data' = sha256.hexdigest data) :
    refreshToRegistry sha256 ⟨Machine.run (step sha256) s'.db more, script⟩ c' maxFileSize' answers' =
      (.ok [], ⟨Machine.run (step sha256) s'.db more, script⟩) := by
  have hexisting : ∀ address ∈ (listRulesets s.db.tables).map Ruleset.sha256,
      Present s.db.tables address := fun address => present_iff.mpr
  obtain ⟨hstaged, -⟩ := present_of_staged hexisting h
  apply stage_of_known
  intro a ha data hdata
  obtain ⟨b, hb, data', hdata', hhash⟩ := hsame a ha data hdata
  rw [← hhash]
  exact present_iff.mp (present_run (hstaged b hb data' hdata') more)

end Runs

/-! ### A remote ruleset -/

def sampleAnswers : List (String × Option Bytes) :=
  [("https://rules.example/open.yar", some [114, 117, 108, 101, 50])]

/-- The staging of a remote ruleset in an empty registry. -/
def sampleRefresh : Except Stop (List String) × Running Unit :=
  refreshToRegistry ObjectKeys.sampleDigest ⟨.fresh .empty, [sampleEnv]⟩ () 67108864 sampleAnswers

theorem sampleRefresh_staged : sampleRefresh.1.toOption = some ["0af1"] := by decide +kernel

/-- The ruleset is staged once; a second refresh finds it. -/
theorem refresh_again_sample :
    refreshToRegistry ObjectKeys.sampleDigest
        ⟨Machine.run (step ObjectKeys.sampleDigest) sampleRefresh.2.db [.close ()], [sampleEnv]⟩ ()
        67108864 sampleAnswers =
      (.ok [], ⟨Machine.run (step ObjectKeys.sampleDigest) sampleRefresh.2.db [.close ()],
        [sampleEnv]⟩) := by
  have hok : sampleRefresh = (.ok ["0af1"], sampleRefresh.2) := by
    have hstaged := sampleRefresh_staged
    generalize sampleRefresh = out at hstaged
    obtain ⟨res, s'⟩ := out
    cases res with
    | error e => cases hstaged
    | ok ids =>
      obtain rfl := Option.some.inj hstaged
      rfl
  exact refresh_again hok [.close ()] [sampleEnv] () 67108864
    fun a ha data hdata => ⟨a, ha, data, hdata, rfl⟩

/-- A copy of a served ruleset is staged before a refresh and during it. -/
theorem ensureRules_of_drafts_sample :
    ensureRules ObjectKeys.sampleDigest (fun _ => true) "/tmp/yara-rules" "/app/rules"
        (readsOf ObjectKeys.sampleDigest
          (sampleInputs ++ [.call () (stageCall ObjectKeys.sampleDigest 0 "https://rules.example/a.yar"
            sampleFile.data 67108864 sampleEnv)]) (fun _ => [.close ()]) []) [⟨"a.yar", [88]⟩] =
      ensureRules ObjectKeys.sampleDigest (fun _ => true) "/tmp/yara-rules" "/app/rules"
        (.quiet (after ObjectKeys.sampleDigest sampleInputs).tables) [⟨"a.yar", [88]⟩] :=
  ensureRules_of_drafts (fun _ => true) "/tmp/yara-rules" "/app/rules" sampleInputs [⟨"a.yar", [88]⟩]
    (by simp [stageCall, IsDraft]) (by simp [IsDraft]) (by simp)

end YaraRules
