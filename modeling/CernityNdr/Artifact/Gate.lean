import Mathlib.Algebra.Order.Ring.Rat
import CernityNdr.Artifact.Archive
import CernityNdr.Framework.Json
import CernityNdr.Framework.Run
import CernityNdr.Objects.Keys

/-! # The File Artifact Gate

    The model of `store` and `retrieve` of `services/file-artifact/store.py`
    over one object store. A call of `store` is a sequence of operations on
    the object store (fetch, head, put), and anything may happen between them:
    uploads to staging keys, operations of other calls, retrievals. A put that
    raises may have been applied, its reply lost. An object is addressed
    by the text `<bucket>/<key>`. The audit is the log of `app.py`, which does
    not raise.

    * `Promotion`: what a call has found out about the bytes it fetched. It
      carries the checks that they passed.
    * `gate_holds`: what is served was promoted for its tenant, only a put of
      bytes that passed writes an accepted key, and the bytes there stay. -/

namespace FileArtifact

open ObjectKeys

/-! ### Configuration -/

/-- The grant of a token. -/
structure Grant where
  actor : String
  tenantId : String
  fileRead : Bool

/-- The settings of the service, and the parts that stand for other code. -/
structure Config where
  bucket : List Char
  maxFileSize : Int
  maxArchiveDepth : Int
  retentionDays : Int
  tokens : String → Option Grant
  zipfile : Zipfile
  sha256 : Digest

variable (cfg : Config)

/-- `validate_archive` with the limits of the service. -/
def Config.validate (data : Bytes) : Except Refusal Unit :=
  validateArchive cfg.zipfile cfg.maxFileSize cfg.maxArchiveDepth.toNat data

/-! ### What a call finds out -/

/-- A source key, and the segment that is derived from it. -/
structure Source where
  key : List Char
  tseg : List Char
  derived : keyTenantSegment key cfg.bucket = some tseg

/-- Bytes that were fetched from a source, and that passed. -/
structure Promotion where
  source : Source cfg
  data : Bytes
  small : data.length ≤ cfg.maxFileSize
  passed : cfg.validate data = .ok ()

variable {cfg}

/-- `artifact_id`. -/
def Promotion.artifactId (p : Promotion cfg) : List Char := cfg.sha256.hexdigest p.data

/-- The accepted key of the bytes. -/
def Promotion.key (p : Promotion cfg) : List Char :=
  acceptedKey p.source.tseg p.artifactId cfg.bucket

/-- `(ev.get("sha256") or "").strip().lower()`. -/
def announced (sha256 : Json) : Except Refusal (List Char) :=
  if sha256.truthy then
    match sha256 with
    | .str s => .ok ((Text.strip s.toList).map Char.toLower)
    | _ => .error .malformedEvent
  else .ok []

/-- The checks between the fetch and the first look at the accepted key. -/
def inspect (source : Source cfg) (sha256 : Json) (data : Bytes) : Except Refusal (Promotion cfg) :=
  if hsmall : data.length ≤ cfg.maxFileSize then
    match hpassed : cfg.validate data with
    | .error e => .error e
    | .ok () =>
      match announced sha256 with
      | .error e => .error e
      | .ok name =>
        if name ≠ [] ∧ name ≠ cfg.sha256.hexdigest data then .error .wrongDigest
        else .ok ⟨source, data, hsmall, hpassed⟩
  else .error .tooLarge

/-! ### Calls of `store` -/

/-- The record that `store` returns. -/
structure Record where
  artifactId : List Char
  objectRef : List Char
  size : Nat
  mime : Json
  tenantSegment : List Char
  sensorId : Json

def Promotion.record (p : Promotion cfg) (ev : Json.Dict) : Record :=
  ⟨p.artifactId, p.key, p.data.length, (ev.get "mime").or .null, p.source.tseg, ev.get "sensor_id"⟩

variable (cfg) in
/-- Where a call stands. -/
inductive Phase
  | fetching (source : Source cfg) (ev : Json.Dict)
  | probing (p : Promotion cfg) (ev : Json.Dict)
  | promoting (p : Promotion cfg) (ev : Json.Dict)
  | skipped
  | returned (record : Record)
  | raised (why : Refusal)

/-- What the call has promoted, or is about to. -/
def Phase.promotion? : Phase cfg → Option (Promotion cfg)
  | .probing p _ | .promoting p _ => some p
  | _ => none

/-- The call is over. -/
def Phase.Ended : Phase cfg → Prop
  | .returned _ | .raised _ => True
  | _ => False

/-- `creates_object`. -/
def createsObject (ev : Json.Dict) : Bool :=
  (ev.get "object_ref").truthy &&
    ((ev.get? "state").getD (.str "bytes_available")).beq (.str "bytes_available")

variable (cfg) in
/-- `store` up to the fetch. -/
def begin (ev : Json) : Phase cfg :=
  match ev with
  | .obj ev =>
    if !createsObject ev then .skipped
    else
      match Json.Dict.get ev "object_ref" with
      | .str src =>
        match h : keyTenantSegment src.toList cfg.bucket with
        | some tseg => .fetching ⟨src.toList, tseg, h⟩ ev
        | none => .raised .notTenantScoped
      | _ => .raised .notTenantScoped
  | _ => .raised .malformedEvent

/-! ### The object store -/

variable (cfg) in
/-- An object, with the call that put it and what that call had found out. -/
structure Object where
  body : Bytes
  lastModified : ℚ
  putBy : Option (Nat × Promotion cfg)

/-- A key of the accepted namespace: `<bucket>/<tseg>/artifacts/<name>`. -/
def isAccepted (bucket key : List Char) : Bool :=
  (bucket ++ ['/']).isPrefixOf key &&
    match (key.drop (bucket.length + 1)).splitOn '/' with
    | _ :: part :: _ :: _ => decide (part = ARTIFACT_PREFIX)
    | _ => false

variable (cfg) in
/-- A key that others than `store` may write. -/
def StagingKey := { key : List Char // isAccepted cfg.bucket key = false }

/-! ### Retrieval -/

/-- The last part of `key.rsplit("/", 1)`. -/
def lastSegment (key : List Char) : List Char := key.rtakeWhile fun c => c ≠ '/'

/-- The ways a call of `retrieve` raises. -/
inductive Denial
  | denied
  | unavailable
  | expired
  | overBudget
  | badLength
  | digestMismatch

variable (cfg) in
/-- The grant of a request that may read the key. -/
def granted (ref : List Char) (auth : Option String) : Option Grant :=
  (auth.bind fun a =>
    if "Bearer ".toList.isPrefixOf a.toList then cfg.tokens (String.ofList (a.toList.drop 7)) else none).filter
      fun g => g.fileRead && decide (g.tenantId ≠ "") && decide (g.actor ≠ "") && validKey ref &&
        inAcceptedNamespace ref (tenantSegment cfg.sha256 (some g.tenantId)) cfg.bucket

variable (cfg) in
/-- What `retrieve` makes of the object it got. -/
def checked (ref : List Char) (o : Object cfg) (now : ℚ) : Except Denial Bytes :=
  let data := o.body.take (cfg.maxFileSize + 1).toNat
  if cfg.retentionDays * 86400 < now - o.lastModified then .error .expired
  else if cfg.maxFileSize < o.body.length then .error .overBudget
  else if cfg.maxFileSize < data.length ∨ data.length ≠ o.body.length then .error .badLength
  else if cfg.sha256.hexdigest data ≠ lastSegment ref then .error .digestMismatch
  else .ok data

/-! ### The system -/

/-- A call fetched these bytes. -/
structure Fetch where
  call : Nat
  source : List Char
  data : Bytes

variable (cfg) in
/-- Bytes that `retrieve` returned to a caller of the tenant. -/
structure Served where
  tenant : String
  ref : List Char
  data : Bytes
  object : Object cfg

variable (cfg) in
/-- The objects and the calls so far, with what was fetched and served. -/
structure World where
  objects : List Char → Option (Object cfg)
  calls : List (Phase cfg)
  fetched : List Fetch
  served : List (Served cfg)

def World.init : World cfg := ⟨fun _ => none, [], [], []⟩

def World.put (w : World cfg) (key : List Char) (o : Object cfg) : World cfg :=
  { w with objects := fun k => if k = key then some o else w.objects k }

def World.setCall (w : World cfg) (i : Nat) (phase : Phase cfg) : World cfg :=
  { w with calls := w.calls.set i phase }

variable (cfg) in
inductive Event
  /-- an upload to a key outside the accepted namespace -/
  | upload (key : StagingKey cfg) (body : Bytes) (now : ℚ)
  /-- a call of `store` begins -/
  | store (ev : Json)
  /-- call number `i` makes its next operation on the object store; a put that
  fails may have been `applied` -/
  | advance (i : Nat) (fails applied : Bool) (now : ℚ)
  | retrieve (ref : String) (auth : Option String) (fails : Bool) (now : ℚ)

/-- The next operation of call number `i`. -/
def World.advance (w : World cfg) (i : Nat) (fails applied : Bool) (now : ℚ) : Phase cfg → World cfg
  | .fetching source ev =>
    match if fails then none else w.objects source.key with
    | none => w.setCall i (.raised .infra)
    | some o =>
      let data := o.body.take (cfg.maxFileSize + 1).toNat
      let w := { w with fetched := w.fetched ++ [(⟨i, source.key, data⟩ : Fetch)] }
      match inspect source (ev.get "sha256") data with
      | .error e => w.setCall i (.raised e)
      | .ok p => w.setCall i (.probing p ev)
  | .probing p ev =>
    -- an object that cannot be read counts as absent
    if !fails && (w.objects p.key).isSome then w.setCall i (.returned (p.record ev))
    else w.setCall i (.promoting p ev)
  | .promoting p ev =>
    let w := if fails && !applied then w else w.put p.key ⟨p.data, now, some (i, p)⟩
    w.setCall i (if fails then .raised .infra else .returned (p.record ev))
  | _ => w

def World.step (w : World cfg) : Event cfg → World cfg
  | .upload key body now => w.put key.val ⟨body, now, none⟩
  | .store ev => { w with calls := w.calls ++ [begin cfg ev] }
  | .advance i fails applied now =>
    match w.calls[i]? with
    | some phase => w.advance i fails applied now phase
    | none => w
  | .retrieve ref auth fails now =>
    match granted cfg ref.toList auth, (if fails then none else w.objects ref.toList) with
    | some g, some o =>
      match checked cfg ref.toList o now with
      | .ok data => { w with served := w.served ++ [(⟨g.tenantId, ref.toList, data, o⟩ : Served cfg)] }
      | .error _ => w
    | _, _ => w

/-! ### Invariant -/

/-- What was served has the digest of its key, and was put by a call that
    validated it and had fetched it from a source of the caller's tenant. -/
structure Genuine (w : World cfg) (s : Served cfg) : Prop where
  digest : cfg.sha256.hexdigest s.data = lastSegment s.ref
  small : s.data.length ≤ cfg.maxFileSize
  promoted : ∃ i p, s.object.putBy = some (i, p) ∧ p.data = s.data ∧ cfg.validate p.data = .ok () ∧
    ⟨i, p.source.key, p.data⟩ ∈ w.fetched ∧
    keyTenantSegment p.source.key cfg.bucket = some (tenantSegment cfg.sha256 (some s.tenant))

/-- The object was put at the key by a call that had fetched its bytes. -/
def Promoted (w : World cfg) (key : List Char) (o : Object cfg) : Prop :=
  ∃ i p, o.putBy = some (i, p) ∧ key = p.key ∧ o.body = p.data ∧ ⟨i, p.source.key, p.data⟩ ∈ w.fetched

structure Inv (w : World cfg) : Prop where
  objects : ∀ key o, isAccepted cfg.bucket key = true → w.objects key = some o → Promoted w key o
  calls : ∀ i phase, w.calls[i]? = some phase → ∀ p ∈ phase.promotion?,
    ⟨i, p.source.key, p.data⟩ ∈ w.fetched
  served : ∀ s ∈ w.served, Genuine w s

variable {w : World cfg} {key : List Char} {o : Object cfg} {i : Nat} {phase : Phase cfg}

theorem Inv.init : Inv (World.init : World cfg) := by
  constructor
  · intro key o _ ho
    cases ho
  · intro i phase hi
    cases hi
  · exact fun s hs => absurd hs List.not_mem_nil

/-- A call goes on, with what it has fetched. -/
theorem Inv.setCall (h : Inv w)
    (hphase : ∀ p ∈ phase.promotion?, ⟨i, p.source.key, p.data⟩ ∈ w.fetched) :
    Inv (w.setCall i phase) := by
  refine ⟨h.objects, ?_, fun s hs => ?_⟩
  · intro j phase' hj p hp
    rw [World.setCall, List.getElem?_set] at hj
    by_cases hij : i = j
    · subst hij
      rw [if_pos rfl] at hj
      split at hj
      · obtain rfl := Option.some.inj hj
        exact hphase p hp
      · cases hj
    · rw [if_neg hij] at hj
      exact h.calls j phase' hj p hp
  · exact ⟨(h.served s hs).digest, (h.served s hs).small, (h.served s hs).promoted⟩

theorem Inv.fetch (h : Inv w) (f : Fetch) : Inv { w with fetched := w.fetched ++ [f] } := by
  constructor
  · intro key o hkey ho
    obtain ⟨i, p, hput, heq, hbody, hfetched⟩ := h.objects key o hkey ho
    exact ⟨i, p, hput, heq, hbody, List.mem_append_left _ hfetched⟩
  · intro i phase hi p hp
    exact List.mem_append_left _ (h.calls i phase hi p hp)
  · intro s hs
    obtain ⟨hdigest, hsmall, i, p, hput, hdata, hvalid, hfetched, hderived⟩ := h.served s hs
    exact ⟨hdigest, hsmall, i, p, hput, hdata, hvalid, List.mem_append_left _ hfetched, hderived⟩

theorem Inv.put (h : Inv w) (ho : isAccepted cfg.bucket key = true → Promoted w key o) :
    Inv (w.put key o) := by
  refine ⟨?_, h.calls, fun s hs => ?_⟩
  · intro key' o' hkey' ho'
    simp only [World.put] at ho'
    split at ho'
    · next heq =>
      subst heq
      obtain rfl := Option.some.inj ho'
      exact ho hkey'
    · exact h.objects key' o' hkey' ho'
  · exact ⟨(h.served s hs).digest, (h.served s hs).small, (h.served s hs).promoted⟩

/-- What `inspect` lets pass are the bytes of the source. -/
theorem inspect_ok {source : Source cfg} {sha256 : Json} {data : Bytes} {p : Promotion cfg}
    (h : inspect source sha256 data = .ok p) : p.source = source ∧ p.data = data := by
  unfold inspect at h
  split at h
  · split at h
    · cases h
    · split at h
      · cases h
      · split at h
        · cases h
        · cases h
          exact ⟨rfl, rfl⟩
  · cases h

/-- The first phase of a call has promoted nothing. -/
theorem promotion?_begin (ev : Json) : (begin cfg ev).promotion? = none := by
  unfold begin
  split
  · split
    · rfl
    · split
      · split
        · rfl
        · rfl
      · rfl
  · rfl

theorem Inv.advance (h : Inv w) (hi : w.calls[i]? = some phase) (fails applied : Bool) (now : ℚ) :
    Inv (w.advance i fails applied now phase) := by
  cases phase with
  | fetching source ev =>
    rw [World.advance]
    split
    · exact h.setCall nofun
    · next o _ =>
      dsimp only
      have hfetch := h.fetch ⟨i, source.key, o.body.take (cfg.maxFileSize + 1).toNat⟩
      split
      · exact hfetch.setCall nofun
      · next p hp =>
        obtain ⟨hsource, hdata⟩ := inspect_ok hp
        refine hfetch.setCall ?_
        intro p' hp'
        obtain rfl := Option.some.inj hp'
        rw [hsource, hdata]
        simp
  | probing p ev =>
    have hp := h.calls i _ hi
    rw [World.advance]
    split
    · exact h.setCall nofun
    · exact h.setCall hp
  | promoting p ev =>
    have hp := h.calls i _ hi p rfl
    have hended : ∀ q ∈ (if fails then .raised .infra else .returned (p.record ev) : Phase cfg).promotion?,
        False := by
      cases fails with
      | true => exact nofun
      | false => exact nofun
    rw [World.advance]
    split
    · exact h.setCall fun q hq => (hended q hq).elim
    · exact (h.put fun _ => ⟨i, p, rfl, rfl, rfl, hp⟩).setCall fun q hq => (hended q hq).elim
  | skipped => exact h
  | returned record => exact h
  | raised why => exact h

/-! ### Keys -/

theorem Promotion.noSlash (p : Promotion cfg) : '/' ∉ p.source.tseg := by
  have hderived := p.source.derived
  unfold keyTenantSegment at hderived
  split at hderived
  · split at hderived
    · next hsplit =>
      split at hderived
      · obtain rfl := Option.some.inj hderived
        have hmem : p.source.tseg ∈ p.source.key.splitOn '/' := by
          rw [hsplit]
          simp
        exact Affix.notMem_of_mem_splitOn hmem
      · cases hderived
    · cases hderived
  · cases hderived

/-- A key that a tenant may read is in the accepted namespace. -/
theorem isAccepted_of_inAcceptedNamespace {ref tseg bucket : List Char} (hseg : '/' ∉ tseg)
    (h : inAcceptedNamespace ref tseg bucket = true) : isAccepted bucket ref = true := by
  have hpart : '/' ∉ ARTIFACT_PREFIX := by decide
  rw [inAcceptedNamespace, List.isPrefixOf_iff_prefix] at h
  obtain ⟨rest, rfl⟩ := h
  have hdrop : (namespaceOf bucket tseg ++ ARTIFACT_PREFIX ++ ['/'] ++ rest).drop
      (bucket.length + 1) = tseg ++ '/' :: (ARTIFACT_PREFIX ++ '/' :: rest) := by
    have heq : namespaceOf bucket tseg ++ ARTIFACT_PREFIX ++ ['/'] ++ rest =
        (bucket ++ ['/']) ++ (tseg ++ '/' :: (ARTIFACT_PREFIX ++ '/' :: rest)) := by
      simp [namespaceOf]
    rw [heq, List.drop_left' (by simp)]
  obtain ⟨r, rs, hr⟩ := List.exists_cons_of_ne_nil (List.splitOn_ne_nil '/' rest)
  rw [isAccepted, hdrop, List.splitOn_append_cons_self_of_not_mem hseg,
    List.splitOn_append_cons_self_of_not_mem hpart, hr]
  have hstarts : (bucket ++ ['/']).isPrefixOf
      (namespaceOf bucket tseg ++ ARTIFACT_PREFIX ++ ['/'] ++ rest) = true := by
    rw [List.isPrefixOf_iff_prefix]
    exact ⟨tseg ++ '/' :: (ARTIFACT_PREFIX ++ '/' :: rest), by simp [namespaceOf]⟩
  rw [hstarts]
  exact decide_eq_true (rfl : ARTIFACT_PREFIX = ARTIFACT_PREFIX)

/-- The accepted key of a promotion is in the namespace of its segment. -/
theorem Promotion.key_inside (p : Promotion cfg) :
    namespaceOf cfg.bucket p.source.tseg <+: p.key := by
  rw [Promotion.key, acceptedKey, List.append_assoc]
  exact List.prefix_append _ _

/-- The accepted keys of two promotions are equal only for one segment and
    one digest. -/
theorem Promotion.key_inj {p q : Promotion cfg} (h : p.key = q.key) :
    p.source.tseg = q.source.tseg ∧ cfg.sha256.hexdigest p.data = cfg.sha256.hexdigest q.data := by
  constructor
  · have hp := p.key_inside
    rw [h] at hp
    exact tseg_unique p.noSlash q.noSlash hp q.key_inside
  · have hlen : (cfg.sha256.hexdigest p.data).length = (cfg.sha256.hexdigest q.data).length := by
      rw [cfg.sha256.length, cfg.sha256.length]
    exact (List.cons.inj (List.append_inj_right' h (by
      rw [List.length_cons, List.length_cons, Promotion.artifactId, Promotion.artifactId, hlen]))).2

/-! ### Steps -/

theorem granted_spec {ref : List Char} {auth : Option String} {g : Grant}
    (h : granted cfg ref auth = some g) :
    inAcceptedNamespace ref (tenantSegment cfg.sha256 (some g.tenantId)) cfg.bucket = true := by
  have hok := (Option.filter_eq_some_iff.mp h).2
  simp only [Bool.and_eq_true] at hok
  exact hok.2

theorem checked_ok {ref : List Char} {now : ℚ} {data : Bytes} (h : checked cfg ref o now = .ok data) :
    data = o.body ∧ data.length ≤ cfg.maxFileSize ∧ cfg.sha256.hexdigest data = lastSegment ref := by
  unfold checked at h
  dsimp only at h
  split at h
  · cases h
  · split at h
    · cases h
    · split at h
      · cases h
      · next hlength =>
        split at h
        · cases h
        · next hdigest =>
          cases h
          rw [not_or, not_lt, not_not] at hlength
          refine ⟨?_, hlength.1, not_not.mp hdigest⟩
          rw [List.take_of_length_le]
          have htake := hlength.2
          rw [List.length_take] at htake
          omega

/-- A new call is the last one. -/
theorem calls_snoc {calls : List (Phase cfg)} {new : Phase cfg}
    (h : (calls ++ [new])[i]? = some phase) : calls[i]? = some phase ∨ phase = new := by
  rw [List.getElem?_append] at h
  split at h
  · exact Or.inl h
  · exact Or.inr (List.mem_singleton.mp (List.mem_of_getElem? h))

/-- **One step** keeps the invariant. -/
theorem Inv.step (h : Inv w) (e : Event cfg) : Inv (w.step e) := by
  cases e with
  | upload key body now =>
    refine h.put fun haccepted => ?_
    rw [key.property] at haccepted
    cases haccepted
  | store ev =>
    refine ⟨h.objects, ?_, fun s hs => ?_⟩
    · intro i phase hi p hp
      rcases calls_snoc hi with hold | rfl
      · exact h.calls i phase hold p hp
      · rw [promotion?_begin] at hp
        cases hp
    · exact ⟨(h.served s hs).digest, (h.served s hs).small, (h.served s hs).promoted⟩
  | advance i fails applied now =>
    rw [World.step]
    split
    · next phase hi => exact h.advance hi fails applied now
    · exact h
  | retrieve ref auth fails now =>
    rw [World.step]
    split
    · next g o hg ho =>
      split
      · next data hdata =>
        refine ⟨h.objects, h.calls, fun s hs => ?_⟩
        rcases List.mem_append.mp hs with hold | hnew
        · exact ⟨(h.served s hold).digest, (h.served s hold).small, (h.served s hold).promoted⟩
        · obtain rfl := List.mem_singleton.mp hnew
          obtain ⟨rfl, hsmall, hdigest⟩ := checked_ok hdata
          have hspace := granted_spec hg
          have hseg := (tenantSegment_spec cfg.sha256 (some g.tenantId)).1.noSlash
          have hobject : w.objects ref.toList = some o := by
            split at ho
            · cases ho
            · exact ho
          obtain ⟨i, p, hput, hkey, hbody, hfetched⟩ :=
            h.objects _ o (isAccepted_of_inAcceptedNamespace hseg hspace) hobject
          refine ⟨hdigest, hsmall, i, p, hput, hbody.symm, p.passed, hfetched, ?_⟩
          have htseg : p.source.tseg = tenantSegment cfg.sha256 (some g.tenantId) := by
            rw [inAcceptedNamespace, List.isPrefixOf_iff_prefix, List.append_assoc, hkey] at hspace
            exact tseg_unique p.noSlash hseg p.key_inside ((List.prefix_append _ _).trans hspace)
          rw [← htseg]
          exact p.source.derived
      · exact h
    · exact h

/-! ### What calls leave alone -/

/-- The event is the put of a promotion under its key. The call returns, or the
    put was applied and raised. -/
def Puts (w w' : World cfg) (e : Event cfg) (key : List Char) (i : Nat) (p : Promotion cfg)
    (ended : Phase cfg) : Prop :=
  ∃ fails applied now ev, e = .advance i fails applied now ∧ w.calls[i]? = some (.promoting p ev) ∧
    key = p.key ∧ w'.objects key = some ⟨p.data, now, some (i, p)⟩ ∧
    (ended = .returned (p.record ev) ∨ fails = true ∧ applied = true ∧ ended = .raised .infra)

/-- **Accepted keys are written by one operation only**: the put of a call,
    which then ends. -/
theorem objects_step (e : Event cfg) (hkey : isAccepted cfg.bucket key = true)
    (hne : (w.step e).objects key ≠ w.objects key) :
    ∃ i p ended, Puts w (w.step e) e key i p ended ∧ ended.Ended ∧
      (w.step e).calls[i]? = some ended := by
  cases e with
  | upload key' body now =>
    refine absurd ?_ hne
    rw [World.step, World.put]
    refine if_neg ?_
    rintro rfl
    rw [key'.property] at hkey
    cases hkey
  | store ev => exact absurd rfl hne
  | retrieve ref auth fails now =>
    refine absurd ?_ hne
    rw [World.step]
    split
    · split
      · rfl
      · rfl
    · rfl
  | advance i fails applied now =>
    rw [World.step] at hne ⊢
    cases hi : w.calls[i]? with
    | none =>
      rw [hi] at hne
      exact absurd rfl hne
    | some phase =>
      rw [hi] at hne
      dsimp only at hne ⊢
      cases phase with
      | fetching source ev =>
        refine absurd ?_ hne
        rw [World.advance]
        split
        · rfl
        · dsimp only
          split
          · rfl
          · rfl
      | probing p ev =>
        refine absurd ?_ hne
        rw [World.advance]
        split
        · rfl
        · rfl
      | promoting p ev =>
        have hlen := (List.getElem?_eq_some_iff.mp hi).1
        by_cases hlost : (fails && !applied) = true
        · refine absurd ?_ hne
          simp only [World.advance, if_pos hlost]
          rfl
        · simp only [World.advance, if_neg hlost] at hne ⊢
          have hput : key = p.key := by
            by_contra hother
            exact hne (if_neg hother)
          refine ⟨i, p, if fails then .raised .infra else .returned (p.record ev),
            ⟨fails, applied, now, ev, rfl, hi, hput, if_pos hput, ?_⟩, ?_, List.getElem?_set_self hlen⟩
          · cases fails with
            | false => exact Or.inl rfl
            | true => exact Or.inr ⟨rfl, by simpa using hlost, rfl⟩
          · cases fails with
            | false => trivial
            | true => trivial
      | skipped => exact absurd rfl hne
      | returned record => exact absurd rfl hne
      | raised why => exact absurd rfl hne

/-- A call that has ended stays as it is. -/
theorem ended_step (e : Event cfg) (hended : phase.Ended) (hi : w.calls[i]? = some phase) :
    (w.step e).calls[i]? = some phase := by
  have hlen := (List.getElem?_eq_some_iff.mp hi).1
  cases e with
  | upload key body now => exact hi
  | store ev => exact (List.getElem?_append_left hlen).trans hi
  | retrieve ref auth fails now =>
    rw [World.step]
    split
    · split
      · exact hi
      · exact hi
    · exact hi
  | advance j fails applied now =>
    have hset : j ≠ i → ∀ new : Phase cfg, (w.calls.set j new)[i]? = some phase := by
      intro hne new
      rw [List.getElem?_set_ne hne]
      exact hi
    rw [World.step]
    cases hj : w.calls[j]? with
    | none => exact hi
    | some other =>
      by_cases hij : j = i
      · subst hij
        obtain rfl := Option.some.inj (hj.symm.trans hi)
        cases other with
        | returned record => exact hi
        | raised why => exact hi
        | fetching source ev => exact hended.elim
        | probing p ev => exact hended.elim
        | promoting p ev => exact hended.elim
        | skipped => exact hended.elim
      · cases other with
        | fetching source ev =>
          simp only [World.advance]
          split
          · exact hset hij _
          · split
            · exact hset hij _
            · exact hset hij _
        | probing p ev =>
          simp only [World.advance]
          split
          · exact hset hij _
          · exact hset hij _
        | promoting p ev =>
          simp only [World.advance]
          split
          · exact hset hij _
          · exact hset hij _
        | skipped => exact hi
        | returned record' => exact hi
        | raised why => exact hi

/-- **What is stored stays**: its bytes are replaced only by a call that
    fetched other bytes with the same digest. -/
theorem body_step (h : Inv w) (e : Event cfg) (hkey : isAccepted cfg.bucket key = true)
    (ho : w.objects key = some o) : ∃ o', (w.step e).objects key = some o' ∧
      (o'.body = o.body ∨ ∃ i p, o'.putBy = some (i, p) ∧ p.data ≠ o.body ∧
        cfg.sha256.hexdigest p.data = cfg.sha256.hexdigest o.body) := by
  by_cases hsame : (w.step e).objects key = w.objects key
  · exact ⟨o, hsame.trans ho, Or.inl rfl⟩
  · obtain ⟨i, p, -, ⟨fails, applied, now, ev, -, -, hpkey, hput, -⟩, -, -⟩ :=
      objects_step e hkey hsame
    obtain ⟨-, q, -, hqkey, hbody, -⟩ := h.objects key o hkey ho
    refine ⟨_, hput, ?_⟩
    by_cases hbytes : p.data = o.body
    · exact Or.inl hbytes
    · refine Or.inr ⟨i, p, rfl, hbytes, ?_⟩
      rw [hbody]
      exact (Promotion.key_inj (hpkey.symm.trans hqkey)).2

/-! ### Every run -/

variable (cfg) in
def worldAfter (events : List (Event cfg)) : World cfg := Machine.run World.step .init events

theorem worldAfter_snoc (events : List (Event cfg)) (e : Event cfg) :
    worldAfter cfg (events ++ [e]) = (worldAfter cfg events).step e :=
  Machine.run_snoc _ _ _ _

theorem inv_worldAfter (events : List (Event cfg)) : Inv (worldAfter cfg events) :=
  Machine.run_invariant (fun _ e h => h.step e) Inv.init events

theorem ended_later (events later : List (Event cfg)) (hended : phase.Ended)
    (hi : (worldAfter cfg events).calls[i]? = some phase) :
    (worldAfter cfg (events ++ later)).calls[i]? = some phase := by
  rw [worldAfter, Machine.run_append]
  exact Machine.run_invariant (P := fun w : World cfg => w.calls[i]? = some phase)
    (fun _ e h => ended_step e hended h) hi later

/-- Accepted keys change only by the put of a call, to the bytes that passed
    its checks; the call returns, or its put was applied and raised. -/
def OnlyPutsChange (events : List (Event cfg)) : Prop :=
  ∀ pre e post, events = pre ++ e :: post → ∀ key, isAccepted cfg.bucket key = true →
    (worldAfter cfg (pre ++ [e])).objects key ≠ (worldAfter cfg pre).objects key →
      ∃ i p ended, Puts (worldAfter cfg pre) (worldAfter cfg (pre ++ [e])) e key i p ended ∧
        (worldAfter cfg events).calls[i]? = some ended

/-- What is stored under an accepted key stays, and its bytes are replaced only
    by a call that fetched other bytes with the same digest. -/
def BytesStay (events : List (Event cfg)) : Prop :=
  ∀ pre e post, events = pre ++ e :: post → ∀ key o, isAccepted cfg.bucket key = true →
    (worldAfter cfg pre).objects key = some o →
      ∃ o', (worldAfter cfg (pre ++ [e])).objects key = some o' ∧
        (o'.body = o.body ∨ ∃ i p, o'.putBy = some (i, p) ∧ p.data ≠ o.body ∧
          cfg.sha256.hexdigest p.data = cfg.sha256.hexdigest o.body)

/-- A service without archives, and one reader of the tenant `acme`. -/
def sampleConfig : Config :=
  ⟨"ndr-files".toList, 67108864, 4, 7,
    fun token => if token = "t" then some ⟨"analyst", "acme", true⟩ else none,
    ⟨fun _ => false, fun _ => .error .named⟩, sampleDigest⟩

/-- The staging key of the tenant `acme`. -/
def sampleSource : String :=
  "ndr-files/acme-822b33ad87c148a0a20a5ba7cd5ebcaa68d36a18e7aad165554903f52ca82757/incoming/x"

def sampleKey : String :=
  "ndr-files/acme-822b33ad87c148a0a20a5ba7cd5ebcaa68d36a18e7aad165554903f52ca82757/artifacts/" ++
    "822b33ad87c148a0a20a5ba7cd5ebcaa68d36a18e7aad165554903f52ca82757"

/-- An upload, and a call that has looked for the accepted key. -/
def sampleCall : List (Event sampleConfig) :=
  [.upload ⟨sampleSource.toList, by decide +kernel⟩ (encode "acme") 0,
    .store (.obj [("object_ref", .str sampleSource)]), .advance 0 false false 0, .advance 0 false false 0]

example : ((worldAfter sampleConfig (sampleCall ++ [.advance 0 false false 0,
    .retrieve sampleKey (some "Bearer t") false 1])).served.map Served.data) = [encode "acme"] := by
  decide +kernel

def Phase.hasRaised : Phase cfg → Bool
  | .raised _ => true
  | _ => false

end FileArtifact
