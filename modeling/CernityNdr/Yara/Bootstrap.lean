import CernityNdr.Yara.Trail

/-! # The Bundled Baseline

    The model of `_bootstrap_baseline` of `services/file-yara/app.py`, which
    registers and activates the rule files of the image when the service
    starts. For each file it makes up to three calls on the registry, each
    one transaction; the process can end before any of them (`Running`).

    * `grown_bootstrap`: what a run keeps, wherever it ends.
    * `baseline_active_iff`: what holds after a run that completes. -/

namespace YaraRegistry

open ObjectKeys (Digest)

/-! ### A run -/

/-- A file of the image: its stem and its bytes. -/
structure BaselineFile where
  stem : String
  data : Bytes
deriving DecidableEq, Repr

/-- What one call reads of its environment. -/
structure Env where
  uuid : String
  now : String
  faults : Faults

/-- Why a run ends early. -/
inductive Stop
  /-- the process ends before a call -/
  | crashed
  | raised (e : RegistryError)
  /-- `row` is `None` -/
  | missing
  /-- `bundled registry identity collision` -/
  | collision

/-- A run in progress; `script` has the environment of each call that the
    process lives to make. -/
structure Running (κ : Type) where
  db : Database κ Tables
  script : List Env

variable {κ : Type} (sha256 : Digest)

/-- One call. -/
def Running.transact (s : Running κ) (c : κ) (call : Env → Call) : Except Stop Unit × Running κ :=
  match s.script with
  | [] => (.error .crashed, s)
  | env :: script =>
    match perform sha256 s.db c (call env) with
    | (.ok _, db) => (.ok (), ⟨db, script⟩)
    | (.error e, db) => (.error (.raised e), ⟨db, script⟩)

def BASELINE_ACTOR : String := "file-yara-baseline"

def BASELINE_SOURCE : String := "bundled-image"

/-- `"bundled-" + digest`. -/
def bundledId (digest : List Char) : String := "bundled-" ++ String.ofList digest

/-- `allow_actors`. -/
def allowActors (actors : List String) (actor _tenant : String) (_toStatus : Status) :
    Except AuthorizerError Bool := .ok (actor ∈ actors)

/-- The registration of a file. -/
def registerCall (file : BaselineFile) (env : Env) : Call :=
  .register
    { name := .str file.stem
      version := .str (String.ofList (sha256.hexdigest file.data))
      data := .bytes file.data
      source := .str BASELINE_SOURCE
      targetMimeTypes := .none
      maxFileSize := .int 67108864
      releaseNotes := .none
      testCorpusRef := .none
      tenant := some "*"
      rulesetId := .str (bundledId (sha256.hexdigest file.data))
      ts := .none
      uuid := env.uuid
      now := env.now
      faults := env.faults }

/-- The promotion of a bundled ruleset. -/
def promotion (rid : String) (target : Status) (env : Env) : Promotion where
  rulesetId := rid
  toStatus := .str target.text
  actor := .str BASELINE_ACTOR
  authorize := allowActors [BASELINE_ACTOR]
  ts := .none
  now := env.now
  faults := env.faults

def promoteCall (rid : String) (target : Status) (env : Env) : Call :=
  .promote (promotion rid target env)

/-- A ruleset with these bytes is no draft. -/
def decided (t : Tables) (digest : List Char) : Bool :=
  t.rulesets.vals.any fun row => row.sha256 = digest && row.status ≠ .draft

namespace Running

/-- Register the file unless its id is there. -/
def ensure (s : Running κ) (c : κ) (file : BaselineFile) : Except Stop Unit × Running κ :=
  match get s.db.tables (bundledId (sha256.hexdigest file.data)) with
  | some _ => (.ok (), s)
  | none => s.transact sha256 c (registerCall sha256 file)

/-- The two promotions of a bundled draft. -/
def activate (s : Running κ) (c : κ) (rid : String) : Except Stop Unit × Running κ :=
  match s.transact sha256 c (promoteCall rid .shadow) with
  | (.error e, s') => (.error e, s')
  | (.ok (), s') => s'.transact sha256 c (promoteCall rid .active)

/-- Check the ruleset of the file, and activate it when it is a draft. -/
def finish (s : Running κ) (c : κ) (digest : List Char) : Except Stop Unit × Running κ :=
  match get s.db.tables (bundledId digest) with
  | none => (.error .missing, s)
  | some row =>
    if row.sha256 ≠ digest ∨ row.source ≠ BASELINE_SOURCE then (.error .collision, s)
    else if row.status = .draft then s.activate sha256 c (bundledId digest)
    else (.ok (), s)

/-- One file. -/
def bootstrapFile (s : Running κ) (c : κ) (file : BaselineFile) : Except Stop Unit × Running κ :=
  if decided s.db.tables (sha256.hexdigest file.data) then (.ok (), s)
  else
    match s.ensure sha256 c file with
    | (.error e, s') => (.error e, s')
    | (.ok (), s') => s'.finish sha256 c (sha256.hexdigest file.data)

/-- The files in their order. -/
def bootstrapFiles (s : Running κ) (c : κ) : List BaselineFile → Except Stop Unit × Running κ
  | [] => (.ok (), s)
  | file :: files =>
    match s.bootstrapFile sha256 c file with
    | (.error e, s') => (.error e, s')
    | (.ok (), s') => s'.bootstrapFiles c files

end Running

/-- `_bootstrap_baseline`, at the start of a process. When it ends early the
    process ends, and its connection with it. -/
def bootstrapBaseline [DecidableEq κ] (db : Database κ Tables) (c : κ) (files : List BaselineFile)
    (script : List Env) : Except Stop Unit × Database κ Tables :=
  match Running.bootstrapFiles sha256 ⟨db, script⟩ c files with
  | (.ok (), s) => (.ok (), s.db)
  | (.error e, s) => (.error e, s.db.close c)

/-! ### Histories -/

/-- What happens to the registry. -/
inductive Episode (κ : Type)
  /-- a call of another writer, or a connection closes -/
  | writer (i : Input κ)
  | bootstrap (c : κ) (files : List BaselineFile) (script : List Env)

def live [DecidableEq κ] (db : Database κ Tables) : Episode κ → Database κ Tables
  | .writer i => step sha256 db i
  | .bootstrap c files script => (bootstrapBaseline sha256 db c files script).2

/-- The registry after a history. -/
def lived [DecidableEq κ] (history : List (Episode κ)) : Database κ Tables :=
  Machine.run (live sha256) (.fresh .empty) history

variable {sha256}

/-! ### One call -/

/-- The rulesets but this one are as they were, and this one was a draft or
    is as it was. -/
structure Touches (rid : String) (t t' : Tables) : Prop where
  others : ∀ id, id ≠ rid → get t' id = get t id
  decided : ∀ row, get t rid = some row → row.status ≠ .draft → get t' rid = some row

theorem Touches.of_eq {rid : String} {t t' : Tables} (h : t'.rulesets = t.rulesets) :
    Touches rid t t' := by
  constructor
  · intro id _
    rw [get, get, h]
  · intro row hrow _
    rw [get, h]
    exact hrow

theorem Touches.trans {rid : String} {t t' t'' : Tables} (h : Touches rid t t')
    (h' : Touches rid t' t'') : Touches rid t t'' := by
  constructor
  · intro id hid
    rw [h'.others id hid, h.others id hid]
  · intro row hrow hdraft
    exact h'.decided row (h.decided row hrow hdraft) hdraft

section Calls

variable {s s' : Running κ} {c : κ} {rid : String}

/-- A call that raises leaves the rulesets. -/
theorem rulesets_of_raised {call : Env → Call} {e : Stop}
    (h : s.transact sha256 c call = (.error e, s')) :
    s'.db.tables.rulesets = s.db.tables.rulesets := by
  unfold Running.transact at h
  split at h
  · cases h
    rfl
  · split at h
    · cases h
    · next hperform =>
      cases h
      rcases of_raised hperform with htables | ⟨p, actor, ts, row, target, -, -, -, -, htables⟩
      · exact congrArg Tables.rulesets htables
      · exact (congrArg Tables.rulesets htables).trans rfl

/-- A call that returns has committed. -/
theorem commits_of_returned {call : Env → Call} (h : s.transact sha256 c call = (.ok (), s')) :
    ∃ env id, perform sha256 s.db c (call env) = (.ok id, s'.db) ∧
      Commits sha256 s.db.tables (call env) (.ok id) s'.db.tables := by
  unfold Running.transact at h
  split at h
  · cases h
  · split at h
    · next _ env script _ _ id db hperform =>
      cases h
      refine ⟨env, id, hperform, ?_⟩
      have hperformed := perform_cases sha256 s.db c (call env)
      rw [hperform] at hperformed
      generalize hres : (Except.ok id, db).1 = res at hperformed
      generalize hdb : (Except.ok id, db).2 = db' at hperformed
      cases hperformed with
      | raised e _ _ => cases hres
      | committed _ t hk =>
        cases hres
        cases hdb
        exact hk
    · cases h

theorem ofArg?_text (target : Status) : Status.ofArg? (.str target.text) = some target := by
  cases target <;> decide

/-- A promotion that returns. -/
theorem promoted_of_returned {target : Status}
    (h : s.transact sha256 c (promoteCall rid target) = (.ok (), s')) {row : Ruleset}
    (hrow : get s.db.tables rid = some row) :
    (∃ ts, get s'.db.tables rid = some (row.setStatus target BASELINE_ACTOR ts)) ∧
      ∀ id, id ≠ rid → get s'.db.tables id = get s.db.tables id := by
  obtain ⟨env, id, -, hk⟩ := commits_of_returned h
  generalize hres : (Except.ok id : Except RegistryError String) = res at hk
  generalize htables : s'.db.tables = t' at hk ⊢
  cases hk with
  | denied p actor ts row' target' hlegal _ => cases hres
  | moved p actor ts row' target' hlegal _ =>
    have hactor : actor = BASELINE_ACTOR := by
      have hval := Promotion.validated_eq_ok hlegal.valid
      cases hval
      rfl
    have htarget : target' = target := by
      have hnamed := hlegal.named
      rw [show (promotion rid target env).toStatus = .str target.text from rfl, ofArg?_text] at hnamed
      exact (Option.some.inj hnamed).symm
    have hrow' : row' = row := Option.some.inj (hlegal.found.symm.trans hrow)
    subst hactor htarget hrow'
    constructor
    · exact ⟨ts, by rw [get, get?_moved hlegal.found, if_pos]; rfl⟩
    · intro id hid
      rw [get, get?_moved hlegal.found, if_neg]
      · rfl
      · exact fun heq => hid heq.symm

theorem validated_registration {file : BaselineFile} {env : Env} {d : Draft} {r : Registration}
    (hr : registerCall sha256 file env = .register r) (h : r.validated = .ok d) :
    d.id = bundledId (sha256.hexdigest file.data) ∧ d.data = file.data := by
  cases hr
  obtain ⟨data, hdata, h⟩ := Except.bind_eq_ok.mp h
  obtain ⟨description, -, h⟩ := Except.bind_eq_ok.mp h
  obtain ⟨id, hid, h⟩ := Except.bind_eq_ok.mp h
  obtain ⟨ts, -, h⟩ := Except.bind_eq_ok.mp h
  cases hdata
  cases h
  refine ⟨?_, rfl⟩
  obtain ⟨val, hval, hid⟩ := Except.bind_eq_ok.mp hid
  have hsame := reqStr_eq_ok hval
  split at hid
  · cases hid
  · cases hid
    cases hsame
    rfl

/-- A registration that returns has committed its draft. -/
theorem registerDraft_eq_ok {db db' : Database κ Tables} {r : Registration} {id : String}
    (h : registerDraft sha256 db c r = (.ok id, db')) :
    ∃ d tenant, r.validated = .ok d ∧ db.tables.rulesets.get? d.id = none ∧
      db'.tables = db.tables.registered sha256 d tenant := by
  unfold registerDraft at h
  cases hval : r.validated with
  | error e =>
    rw [hval] at h
    cases h
  | ok d =>
    rw [hval] at h
    have hsection := db.atomically_cases c RegistryError.sqlite (r.faults .begin) (r.body sha256 d)
    simp only at h
    rw [h] at hsection
    generalize hres : ((Except.ok id : Except RegistryError String), db').1 = res at hsection
    generalize hdb : ((Except.ok id : Except RegistryError String), db').2 = db₁ at hsection
    cases hsection with
    | raised e _ _ => cases hres
    | committed _ t hbody =>
      cases hdb
      cases hattempt : r.attempt sha256 d db.tables with
      | error e =>
        rw [Registration.body, hattempt] at hbody
        exact absurd hbody (rolledBack_ne_committed r.faults e res t)
      | ok t₁ =>
        rw [Registration.body, hattempt] at hbody
        cases hbody
        obtain ⟨tenant, hfresh, rfl⟩ := r.attempt_eq_ok hattempt
        exact ⟨d, tenant, rfl, hfresh, rfl⟩

/-- The registration of a file that returns. -/
theorem registered_of_returned {file : BaselineFile}
    (h : s.transact sha256 c (registerCall sha256 file) = (.ok (), s')) :
    (∃ row, get s'.db.tables (bundledId (sha256.hexdigest file.data)) = some row ∧
      row.sha256 = sha256.hexdigest file.data ∧ row.status = .draft) ∧
      ∀ id, id ≠ bundledId (sha256.hexdigest file.data) →
        get s'.db.tables id = get s.db.tables id := by
  obtain ⟨env, id, hperform, -⟩ := commits_of_returned h
  obtain ⟨d, tenant, hval, hfresh, htables⟩ := registerDraft_eq_ok hperform
  obtain ⟨hid, hdata⟩ := validated_registration rfl hval
  rw [htables, ← hid]
  constructor
  · exact ⟨d.ruleset sha256 tenant, get?_registered_self,
      congrArg sha256.hexdigest hdata, rfl⟩
  · intro other hother
    rw [get, get?_registered, if_neg (Ne.symm hother)]
    rfl

end Calls

/-! ### One file -/

section File

variable {s s' : Running κ} {c : κ} {res : Except Stop Unit}

theorem decided_iff {t : Tables} {digest : List Char} : decided t digest = true ↔
    ∃ id row, get t id = some row ∧ row.sha256 = digest ∧ row.status ≠ .draft := by
  simp only [decided, List.any_eq_true, Bool.and_eq_true, decide_eq_true_eq, ne_eq]
  constructor
  · rintro ⟨row, hrow, hsha, hstatus⟩
    exact ⟨row.id, row, Registry.get?_eq_some.mpr ⟨hrow, rfl⟩, hsha, hstatus⟩
  · rintro ⟨id, row, hrow, hsha, hstatus⟩
    exact ⟨row, (Registry.get?_eq_some.mp hrow).1, hsha, hstatus⟩

/-- The ruleset of a file that the run has made active. -/
def Activated (t : Tables) (digest : List Char) : Prop :=
  ∃ row, get t (bundledId digest) = some row ∧ row.sha256 = digest ∧ row.status = .active ∧
    row.promotedBy = some BASELINE_ACTOR

/-- Two promotions of a draft. -/
theorem activate_cases {digest : List Char} {row : Ruleset}
    (hrow : get s.db.tables (bundledId digest) = some row) (hsha : row.sha256 = digest)
    (hdraft : row.status = .draft) (h : s.activate sha256 c (bundledId digest) = (res, s')) :
    Touches (bundledId digest) s.db.tables s'.db.tables ∧
      (res = .ok () → Activated s'.db.tables digest) := by
  have htouches : ∀ {t : Tables}, (∀ id, id ≠ bundledId digest → get t id = get s.db.tables id) →
      Touches (bundledId digest) s.db.tables t := by
    intro t hothers
    refine ⟨hothers, fun row' hrow' hne => ?_⟩
    rw [hrow] at hrow'
    cases hrow'
    exact absurd hdraft hne
  unfold Running.activate at h
  split at h
  · next e s₁ hshadow =>
    cases h
    exact ⟨.of_eq (rulesets_of_raised hshadow), by intro hres; cases hres⟩
  · next s₁ hshadow =>
    obtain ⟨⟨ts₁, hrow₁⟩, hothers₁⟩ := promoted_of_returned hshadow hrow
    cases res with
    | error e =>
      have hsame := rulesets_of_raised h
      refine ⟨htouches fun id hid => ?_, by intro hres; cases hres⟩
      rw [get, hsame]
      exact hothers₁ id hid
    | ok u =>
      obtain ⟨⟨ts₂, hrow₂⟩, hothers₂⟩ := promoted_of_returned h hrow₁
      refine ⟨htouches fun id hid => ?_, fun _ => ⟨_, hrow₂, hsha, rfl, rfl⟩⟩
      rw [hothers₂ id hid, hothers₁ id hid]

theorem finish_cases {digest : List Char} (hfree : decided s.db.tables digest = false)
    (h : s.finish sha256 c digest = (res, s')) :
    Touches (bundledId digest) s.db.tables s'.db.tables ∧
      (res = .ok () → Activated s'.db.tables digest) := by
  unfold Running.finish at h
  split at h
  · cases h
    exact ⟨.of_eq rfl, by intro hres; cases hres⟩
  · next row hrow =>
    split at h
    · cases h
      exact ⟨.of_eq rfl, by intro hres; cases hres⟩
    · next hsame =>
      have hsha : row.sha256 = digest := by
        by_contra hne
        exact hsame (Or.inl hne)
      split at h
      · next hdraft => exact activate_cases hrow hsha hdraft h
      · next hdraft =>
        have hdecided := decided_iff.mpr ⟨_, row, hrow, hsha, hdraft⟩
        rw [hfree] at hdecided
        cases hdecided

theorem ensure_cases {file : BaselineFile} (h : s.ensure sha256 c file = (res, s')) :
    Touches (bundledId (sha256.hexdigest file.data)) s.db.tables s'.db.tables ∧
      (res = .ok () → ∀ row, get s'.db.tables (bundledId (sha256.hexdigest file.data)) = some row →
        row.status ≠ .draft → get s.db.tables (bundledId (sha256.hexdigest file.data)) = some row) := by
  unfold Running.ensure at h
  split at h
  · cases h
    exact ⟨.of_eq rfl, fun _ row hrow _ => hrow⟩
  · next hnone =>
    cases res with
    | error e => exact ⟨.of_eq (rulesets_of_raised h), by intro hres; cases hres⟩
    | ok u =>
      obtain ⟨⟨row, hrow, -, hdraft⟩, hothers⟩ := registered_of_returned h
      refine ⟨⟨hothers, fun row' hrow' _ => ?_⟩, fun _ row' hrow' hne => ?_⟩
      · rw [hnone] at hrow'
        cases hrow'
      · rw [hrow] at hrow'
        cases hrow'
        exact absurd hdraft hne

/-- **One file**: a run touches its ruleset only, and when it comes to the
    end of the file the bytes were decided already, or are active now. -/
theorem bootstrapFile_cases {file : BaselineFile} (h : s.bootstrapFile sha256 c file = (res, s')) :
    Touches (bundledId (sha256.hexdigest file.data)) s.db.tables s'.db.tables ∧
      (res = .ok () → decided s.db.tables (sha256.hexdigest file.data) = true ∧
          s'.db.tables = s.db.tables ∨
        decided s.db.tables (sha256.hexdigest file.data) = false ∧
          Activated s'.db.tables (sha256.hexdigest file.data)) := by
  unfold Running.bootstrapFile at h
  split at h
  · next hdecided =>
    cases h
    exact ⟨.of_eq rfl, fun _ => Or.inl ⟨hdecided, rfl⟩⟩
  · next hfree =>
    have hfree : decided s.db.tables (sha256.hexdigest file.data) = false := by simpa using hfree
    split at h
    · next e s₁ hensure =>
      cases h
      exact ⟨(ensure_cases hensure).1, by intro hres; cases hres⟩
    · next s₁ hensure =>
      obtain ⟨htouches, hrid⟩ := ensure_cases hensure
      have hfree₁ : decided s₁.db.tables (sha256.hexdigest file.data) = false := by
        by_contra hdecided
        obtain ⟨id, row, hrow, hsha, hstatus⟩ := decided_iff.mp (by simpa using hdecided)
        have hold : get s.db.tables id = some row := by
          by_cases hid : id = bundledId (sha256.hexdigest file.data)
          · subst hid
            exact hrid rfl row hrow hstatus
          · rw [← htouches.others id hid, hrow]
        rw [decided_iff.mpr ⟨id, row, hold, hsha, hstatus⟩] at hfree
        cases hfree
      obtain ⟨htouches', hactive⟩ := finish_cases hfree₁ h
      exact ⟨htouches.trans htouches', fun hres => Or.inr ⟨hfree, hactive hres⟩⟩

end File

/-! ### A whole run -/

/-- What is no draft stays as it is. -/
def Keeps (t t' : Tables) : Prop :=
  ∀ id row, get t id = some row → row.status ≠ .draft → get t' id = some row

theorem Touches.keeps {rid : String} {t t' : Tables} (h : Touches rid t t') : Keeps t t' := by
  intro id row hrow hdraft
  by_cases hid : id = rid
  · subst hid
    exact h.decided row hrow hdraft
  · rw [h.others id hid, hrow]

theorem Keeps.decided {t t' : Tables} (h : Keeps t t') {digest : List Char}
    (hdecided : decided t digest = true) : decided t' digest = true := by
  obtain ⟨id, row, hrow, hsha, hstatus⟩ := decided_iff.mp hdecided
  exact decided_iff.mpr ⟨id, row, h id row hrow hstatus, hsha, hstatus⟩

/-- What a run has made of the rulesets when it came to the end of some files:
    what is new and no draft is active, with bytes that were free. -/
structure Grown (sha256 : Digest) (files : List BaselineFile) (t t' : Tables) : Prop where
  kept : Keeps t t'
  grown : ∀ id row, get t' id = some row → row.status ≠ .draft →
    get t id = some row ∨ row.status = .active ∧ decided t row.sha256 = false
  done : ∀ file ∈ files, decided t' (sha256.hexdigest file.data) = true

section Files

variable {s s' : Running κ} {c : κ} {files : List BaselineFile} {res : Except Stop Unit}

theorem keeps_bootstrapFiles (h : s.bootstrapFiles sha256 c files = (res, s')) :
    Keeps s.db.tables s'.db.tables := by
  induction files generalizing s with
  | nil =>
    cases h
    exact fun _ _ hrow _ => hrow
  | cons file files ih =>
    unfold Running.bootstrapFiles at h
    split at h
    · next e s₁ hfile =>
      cases h
      exact (bootstrapFile_cases hfile).1.keeps
    · next s₁ hfile =>
      intro id row hrow hdraft
      exact ih h id row ((bootstrapFile_cases hfile).1.keeps id row hrow hdraft) hdraft

/-- The first file is done. -/
theorem grown_file {file : BaselineFile} (h : s.bootstrapFile sha256 c file = (.ok (), s')) :
    Grown sha256 [file] s.db.tables s'.db.tables := by
  obtain ⟨htouches, hdone⟩ := bootstrapFile_cases h
  refine ⟨htouches.keeps, ?_, ?_⟩
  · intro id row hrow hdraft
    rcases hdone rfl with ⟨-, hsame⟩ | ⟨hfree, row', hrow', hsha, hactive, -⟩
    · exact Or.inl (hsame ▸ hrow)
    · by_cases hid : id = bundledId (sha256.hexdigest file.data)
      · subst hid
        rw [hrow] at hrow'
        cases hrow'
        exact Or.inr ⟨hactive, hsha.symm ▸ hfree⟩
      · exact Or.inl (by rw [← htouches.others id hid, hrow])
  · intro f hf
    obtain rfl := List.mem_singleton.mp hf
    rcases hdone rfl with ⟨hdecided, hsame⟩ | ⟨-, row', hrow', hsha, hactive, -⟩
    · rw [hsame]
      exact hdecided
    · exact decided_iff.mpr ⟨_, row', hrow', hsha, by rw [hactive]; decide⟩

theorem Grown.trans {files' : List BaselineFile} {t t' t'' : Tables}
    (h : Grown sha256 files t t') (h' : Grown sha256 files' t' t'') :
    Grown sha256 (files ++ files') t t'' := by
  refine ⟨?_, ?_, ?_⟩
  · intro id row hrow hdraft
    exact h'.kept id row (h.kept id row hrow hdraft) hdraft
  · intro id row hrow hdraft
    rcases h'.grown id row hrow hdraft with hmid | ⟨hactive, hfree⟩
    · exact h.grown id row hmid hdraft
    · refine Or.inr ⟨hactive, ?_⟩
      by_contra hdecided
      rw [h.kept.decided (by simpa using hdecided)] at hfree
      cases hfree
  · intro file hfile
    rcases List.mem_append.mp hfile with hfile | hfile
    · exact h'.kept.decided (h.done file hfile)
    · exact h'.done file hfile

/-- A run that comes to its end. -/
theorem grown_bootstrap (h : s.bootstrapFiles sha256 c files = (.ok (), s')) :
    Grown sha256 files s.db.tables s'.db.tables := by
  induction files generalizing s with
  | nil =>
    cases h
    exact ⟨fun _ _ hrow _ => hrow, fun _ _ hrow _ => Or.inl hrow, by simp⟩
  | cons file files ih =>
    unfold Running.bootstrapFiles at h
    split at h
    · cases h
    · next s₁ hfile => exact (grown_file hfile).trans (ih h)

/-- A run over files that are all decided makes no call. -/
theorem bootstrapFiles_of_decided
    (h : ∀ file ∈ files, decided s.db.tables (sha256.hexdigest file.data) = true) :
    s.bootstrapFiles sha256 c files = (.ok (), s) := by
  induction files with
  | nil => rfl
  | cons file files ih =>
    have hfile : s.bootstrapFile sha256 c file = (.ok (), s) := by
      rw [Running.bootstrapFile, if_pos (h file List.mem_cons_self)]
    rw [Running.bootstrapFiles, hfile]
    exact ih fun f hf => h f (List.mem_cons_of_mem file hf)

end Files

/-! ### Histories -/

section Histories

variable [DecidableEq κ] {db : Database κ Tables} {c : κ} {files : List BaselineFile}
  {script : List Env}

theorem keeps_bootstrap : Keeps db.tables (bootstrapBaseline sha256 db c files script).2.tables := by
  unfold bootstrapBaseline
  split
  · next h => exact keeps_bootstrapFiles h
  · next h =>
    rw [Database.tables_close]
    exact keeps_bootstrapFiles h

/-- A promotion leads to no draft. -/
theorem decided_commits {t t' : Tables} {k : Call} {res : Except RegistryError String}
    (hk : Commits sha256 t k res t') {digest : List Char} (h : decided t digest = true) :
    decided t' digest = true := by
  obtain ⟨id, row, hrow, hsha, hstatus⟩ := decided_iff.mp h
  cases hk with
  | registered r d tenant hfresh =>
    exact decided_iff.mpr ⟨id, row, get?_registered_of_get? hfresh hrow, hsha, hstatus⟩
  | denied p actor ts old target hlegal _ => exact decided_iff.mpr ⟨id, row, hrow, hsha, hstatus⟩
  | moved p actor ts old target hlegal _ =>
    by_cases hid : p.rulesetId = id
    · have hold : row = old := by
        rw [← hid] at hrow
        exact Option.some.inj (hrow.symm.trans hlegal.found)
      subst hold
      refine decided_iff.mpr ⟨id, row.setStatus target actor ts, ?_, hsha, ?_⟩
      · rw [get, get?_moved hlegal.found, if_pos hid]
      · intro hdraft
        have hlisted := hlegal.listed
        rw [show target = .draft from hdraft] at hlisted
        exact draft_notMem_transitions row.status hlisted
    · refine decided_iff.mpr ⟨id, row, ?_, hsha, hstatus⟩
      rw [get, get?_moved hlegal.found, if_neg hid]
      exact hrow

theorem decided_live (e : Episode κ) {digest : List Char} (h : decided db.tables digest = true) :
    decided (live sha256 db e).tables digest = true := by
  cases e with
  | bootstrap c files script => exact keeps_bootstrap.decided h
  | writer i =>
    rcases tables_step sha256 db i with hsame | ⟨c, k, res, -, hk⟩
    · rw [live, hsame]
      exact h
    · exact decided_commits hk h

theorem bootstrap_of_decided
    (h : ∀ file ∈ files, decided db.tables (sha256.hexdigest file.data) = true) :
    bootstrapBaseline sha256 db c files script = (.ok (), db) := by
  rw [bootstrapBaseline, bootstrapFiles_of_decided h]

end Histories

/-! ### The baseline becomes active -/

section Baseline

variable [DecidableEq κ]

/-- A ruleset with these bytes is no draft, by another actor than the
    baseline service. -/
def OperatorDecided (t : Tables) (digest : List Char) : Prop :=
  ∃ id row, get t id = some row ∧ row.sha256 = digest ∧ row.status ≠ .draft ∧
    row.promotedBy ≠ some BASELINE_ACTOR

/-- The baseline service has moved a ruleset with these bytes, nobody else
    has, and none is active. A run that ends between its two promotions
    leaves this behind. -/
structure Stuck (t : Tables) (digest : List Char) : Prop where
  decided : decided t digest = true
  inactive : ∀ id row, get t id = some row → row.sha256 = digest → row.status ≠ .draft →
    row.status ≠ .active ∧ row.promotedBy = some BASELINE_ACTOR

/-- A run after this history comes to its end. -/
def Completes (sha256 : Digest) (history : List (Episode κ)) (c : κ) (files : List BaselineFile)
    (script : List Env) : Prop :=
  (bootstrapBaseline sha256 (lived sha256 history) c files script).1.isOk = true

/-- What the bundled baseline should be after a run that completes. -/
structure BaselineHolds (sha256 : Digest) (history : List (Episode κ)) (c : κ)
    (files : List BaselineFile) (script : List Env) : Prop where
  active : ∀ file ∈ files,
    ¬ OperatorDecided (lived sha256 history).tables (sha256.hexdigest file.data) →
      ∃ id row, get (lived sha256 (history ++ [.bootstrap c files script])).tables id = some row ∧
        row.sha256 = sha256.hexdigest file.data ∧ row.status = .active
  /-- also by a run that is cut off -/
  kept : ∀ script' id row, get (lived sha256 history).tables id = some row → row.status ≠ .draft →
    row.promotedBy ≠ some BASELINE_ACTOR →
      get (lived sha256 (history ++ [.bootstrap c files script'])).tables id = some row
  settled : ∀ more c' script',
    (lived sha256 (history ++ [.bootstrap c files script] ++ more ++
      [.bootstrap c' files script'])).tables =
    (lived sha256 (history ++ [.bootstrap c files script] ++ more)).tables

theorem lived_snoc (history : List (Episode κ)) (e : Episode κ) :
    lived sha256 (history ++ [e]) = live sha256 (lived sha256 history) e :=
  Machine.run_snoc _ _ history e

theorem grown_of_completes {history : List (Episode κ)} {c : κ} {files : List BaselineFile}
    {script : List Env} (h : Completes sha256 history c files script) :
    Grown sha256 files (lived sha256 history).tables
      (lived sha256 (history ++ [.bootstrap c files script])).tables := by
  rw [lived_snoc, live]
  unfold Completes at h
  unfold bootstrapBaseline at h ⊢
  split
  · next hrun => exact grown_bootstrap hrun
  · next hrun =>
    rw [hrun] at h
    cases h

/-- **The bundled baseline becomes active** by a run that completes, exactly
    when no file was stuck before it. -/
theorem baseline_active_iff (sha256 : Digest) (history : List (Episode κ)) (c : κ)
    (files : List BaselineFile) (script : List Env)
    (hcompletes : Completes sha256 history c files script) :
    BaselineHolds sha256 history c files script ↔
      ∀ file ∈ files, ¬ Stuck (lived sha256 history).tables (sha256.hexdigest file.data) := by
  have hgrown := grown_of_completes hcompletes
  constructor
  · intro h file hfile hstuck
    have hnot : ¬ OperatorDecided (lived sha256 history).tables (sha256.hexdigest file.data) := by
      rintro ⟨id, row, hrow, hsha, hdraft, hactor⟩
      exact hactor (hstuck.inactive id row hrow hsha hdraft).2
    obtain ⟨id, row, hrow, hsha, hactive⟩ := h.active file hfile hnot
    have hdraft : row.status ≠ .draft := by rw [hactive]; decide
    rcases hgrown.grown id row hrow hdraft with hold | ⟨-, hfree⟩
    · exact (hstuck.inactive id row hold hsha hdraft).1 hactive
    · rw [hsha, hstuck.decided] at hfree
      cases hfree
  · intro hfree
    refine ⟨?_, ?_, ?_⟩
    · intro file hfile hnot
      obtain ⟨id, row, hrow, hsha, hdraft⟩ := decided_iff.mp (hgrown.done file hfile)
      rcases hgrown.grown id row hrow hdraft with hold | ⟨hactive, -⟩
      · -- the bytes were decided before, so by the baseline and to active
        by_contra hnone
        refine hfree file hfile ⟨decided_iff.mpr ⟨id, row, hold, hsha, hdraft⟩, ?_⟩
        intro id' row' hrow' hsha' hdraft'
        constructor
        · intro hactive
          exact hnone ⟨id', row', hgrown.kept id' row' hrow' hdraft', hsha', hactive⟩
        · by_contra hactor
          exact hnot ⟨id', row', hrow', hsha', hdraft', hactor⟩
      · exact ⟨id, row, hrow, hsha, hactive⟩
    · intro script' id row hrow hdraft _
      rw [lived_snoc]
      exact keeps_bootstrap id row hrow hdraft
    · intro more c' script'
      have hdone : ∀ file ∈ files, decided (lived sha256
          (history ++ [.bootstrap c files script] ++ more)).tables
          (sha256.hexdigest file.data) = true := by
        intro file hfile
        rw [lived, Machine.run_append]
        exact Machine.run_invariant (P := fun db : Database κ Tables =>
          decided db.tables (sha256.hexdigest file.data) = true)
          (fun _ e hdb => decided_live e hdb) (hgrown.done file hfile) more
      rw [lived_snoc, live, bootstrap_of_decided hdone]

end Baseline

/-- A call in which nothing fails, and a file, for use in examples. -/
def sampleEnv : Env := ⟨"0af1", "2026-09-01T00:00:00Z", fun _ => false⟩

def sampleFile : BaselineFile := ⟨"baseline", [114, 117, 108, 101]⟩

/-- A run over an empty registry. -/
theorem baseline_active_first :
    Completes ObjectKeys.sampleDigest [] () [sampleFile] [sampleEnv, sampleEnv, sampleEnv] ∧
      (BaselineHolds ObjectKeys.sampleDigest [] () [sampleFile] [sampleEnv, sampleEnv, sampleEnv] ↔
        ∀ file ∈ [sampleFile], ¬ Stuck (lived ObjectKeys.sampleDigest
          ([] : List (Episode Unit))).tables (ObjectKeys.sampleDigest.hexdigest file.data)) :=
  ⟨by unfold Completes; decide +kernel,
    baseline_active_iff _ _ _ _ _ (by unfold Completes; decide +kernel)⟩

/-- The process ends between the two promotions. The next run takes the
    ruleset in shadow for a decision, and leaves it there. -/
theorem baseline_stuck_in_shadow :
    Completes ObjectKeys.sampleDigest [.bootstrap () [sampleFile] [sampleEnv, sampleEnv]] ()
        [sampleFile] [] ∧
      ¬ BaselineHolds ObjectKeys.sampleDigest
        [.bootstrap () [sampleFile] [sampleEnv, sampleEnv]] () [sampleFile] [] := by
  refine ⟨by unfold Completes; decide +kernel, fun h => ?_⟩
  have hbefore : ∀ row ∈ (lived ObjectKeys.sampleDigest
      [.bootstrap () [sampleFile] [sampleEnv, sampleEnv]]).tables.rulesets.vals,
      row.promotedBy = some BASELINE_ACTOR := by decide +kernel
  have hafter : ∀ row ∈ (lived ObjectKeys.sampleDigest
      ([.bootstrap () [sampleFile] [sampleEnv, sampleEnv]] ++
        [.bootstrap () [sampleFile] []])).tables.rulesets.vals,
      row.status ≠ .active := by decide +kernel
  obtain ⟨id, row, hrow, -, hactive⟩ := h.active sampleFile List.mem_cons_self (by
    rintro ⟨id, row, hrow, -, -, hactor⟩
    exact hactor (hbefore row (Registry.get?_eq_some.mp hrow).1))
  exact hafter row (Registry.get?_eq_some.mp hrow).1 hactive

end YaraRegistry
