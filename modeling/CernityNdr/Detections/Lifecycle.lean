import CernityNdr.Detections.Entries

/-! # The Lifecycle of Detections

    `services/detection-registry/store.py`, `lifecycle.py` and `authz.py`. The
    store checks an entry against the schema, against the manifests on disk
    and, in an update, against the history that it holds. `promote` reads an
    entry, moves it along `TRANSITIONS`, appends one record and writes it back
    through `update`, so every check of the store runs a second time.

    Which manifests exist at the moment of a call is part of the call.

    * `promote_eq_ok`: when a promotion goes through, and what it stores.
    * `history_append_only`: no run without a delete takes a record away.
    * `promoted_path`: without direct updates the records after the creation
      are a legal, authorized path. -/

namespace DetectionRegistry

/-! ### State -/

/-- `RegistryStore._entries`. -/
abbrev Store := Registry fun e : Entry => e.detectionId.text

/-- `manifest_resolves`, at the moment of a call. -/
abbrev Manifests := String → Bool

inductive RegistryError
  /-- `jsonschema.ValidationError` -/
  | validation
  | danglingManifest (ref : String)
  | alreadyExists (id : String)
  | unknownId (id : String)
  | historyRewritten
  | invalidActor
  | notAuthorized (actor : String)
  /-- `KeyError` of `promote` -/
  | missing (id : String)
  | illegalTransition (current : Status) (toStatus : String)
deriving DecidableEq

/-! ### The store -/

/-- `_validate`. -/
def validate (manifests : Manifests) (entry : Json) : Except RegistryError Entry :=
  match Entry.ofJson? entry with
  | none => .error .validation
  | some e =>
    if manifests e.manifestRef.text then .ok e else .error (.danglingManifest e.manifestRef.text)

/-- `create`. -/
def create (manifests : Manifests) (s : Store) (entry : Json) : Except RegistryError Store := do
  let e ← validate manifests entry
  match s.get? e.detectionId.text with
  | some _ => .error (.alreadyExists e.detectionId.text)
  | none => .ok (s.put e)

/-- `update`. -/
def update (manifests : Manifests) (s : Store) (entry : Json) : Except RegistryError Store := do
  let e ← validate manifests entry
  match s.get? e.detectionId.text with
  | none => .error (.unknownId e.detectionId.text)
  | some prior =>
    if e.changeHistory.take prior.changeHistory.length ≠ prior.changeHistory then
      .error .historyRewritten
    else .ok (s.put e)

/-- `delete`. -/
def delete (s : Store) (id : String) : Store := s.pop id

/-! ### Promotion -/

/-- `allow_actors`. -/
def allowActors (actors : List String) (actor : String) : Bool := actor ∈ actors

def TRANSITIONS : Status → List Status
  | .draft => [.shadow, .retired]
  | .shadow => [.active, .retired]
  | .active => [.retired]
  | .retired => []

/-- The checks of `promote` on its actor. -/
def validActor : Json → Except RegistryError String
  | .str actor =>
    if Text.strip actor.toList = [] ∨ 256 < actor.length then .error .invalidActor else .ok actor
  | _ => .error .invalidActor

/-- `promote`. -/
def promote (authorize : String → Bool) (manifests : Manifests) (s : Store)
    (id toStatus : String) (actor : Json) (now : Stamp) : Except RegistryError Store := do
  let actor ← validActor actor
  if !authorize actor then .error (.notAuthorized actor)
  else
    match s.get? id with
    | none => .error (.missing id)
    | some entry =>
      match (TRANSITIONS entry.status).find? fun target => target.text = toStatus with
      | none => .error (.illegalTransition entry.status toStatus)
      | some target =>
        -- the dictionary that `get` returned, changed in place
        update manifests s (entry.jsonWith target (entry.changeHistory.map Change.toJson ++
          [changeJson now.text actor (some entry.status) target]))

/-- The entry that a promotion leaves. -/
def Entry.moved (e : Entry) (target : Status) (actor : Token 256) (now : Stamp) : Entry :=
  { e with
    status := target
    changeHistory := e.changeHistory ++ [⟨now, actor, some e.status, target⟩] }

/-! ### Runs -/

inductive Call
  | create (manifests : Manifests) (entry : Json)
  | update (manifests : Manifests) (entry : Json)
  | promote (manifests : Manifests) (id toStatus : String) (actor : Json) (now : Stamp)
  | delete (id : String)

/-- The call is a direct `update`. -/
def Call.isUpdate : Call → Bool
  | .update .. => true
  | _ => false

variable (authorize : String → Bool)

def perform (s : Store) : Call → Except RegistryError Store
  | .create manifests entry => DetectionRegistry.create manifests s entry
  | .update manifests entry => DetectionRegistry.update manifests s entry
  | .promote manifests id toStatus actor now =>
    DetectionRegistry.promote authorize manifests s id toStatus actor now
  | .delete id => .ok (DetectionRegistry.delete s id)

/-- A call that raises leaves the store as it was. -/
def step (s : Store) (c : Call) : Store :=
  match perform authorize s c with
  | .ok s' => s'
  | .error _ => s

/-- The store after these calls. -/
def after (calls : List Call) : Store := Machine.run (step authorize) .empty calls

/-! ### What each call does when it returns -/

theorem validate_eq_ok {manifests : Manifests} {entry : Json} {e : Entry} :
    validate manifests entry = .ok e ↔
      Entry.ofJson? entry = some e ∧ manifests e.manifestRef.text = true := by
  unfold validate
  cases hread : Entry.ofJson? entry with
  | none => simp
  | some e' =>
    by_cases hm : manifests e'.manifestRef.text = true
    · simp only [hm, if_true, Except.ok.injEq, Option.some.injEq]
      constructor
      · rintro rfl
        exact ⟨rfl, hm⟩
      · exact fun h => h.1
    · simp only [hm, if_false, reduceCtorEq, Option.some.injEq, false_iff, not_and]
      rintro rfl
      exact hm

theorem create_eq_ok {manifests : Manifests} {s s' : Store} {entry : Json} :
    create manifests s entry = .ok s' ↔
      ∃ e, Entry.ofJson? entry = some e ∧ manifests e.manifestRef.text = true ∧
        s.get? e.detectionId.text = none ∧ s' = s.put e := by
  unfold create
  rw [Except.bind_eq_ok]
  constructor
  · rintro ⟨e, he, h⟩
    obtain ⟨hread, hm⟩ := validate_eq_ok.mp he
    refine ⟨e, hread, hm, ?_⟩
    cases hget : s.get? e.detectionId.text with
    | some _ => simp [hget] at h
    | none => simpa [hget, eq_comm] using h
  · rintro ⟨e, hread, hm, hget, rfl⟩
    exact ⟨e, validate_eq_ok.mpr ⟨hread, hm⟩, by simp [hget]⟩

theorem update_eq_ok {manifests : Manifests} {s s' : Store} {entry : Json} :
    update manifests s entry = .ok s' ↔
      ∃ e prior, Entry.ofJson? entry = some e ∧ manifests e.manifestRef.text = true ∧
        s.get? e.detectionId.text = some prior ∧ prior.changeHistory <+: e.changeHistory ∧
        s' = s.put e := by
  unfold update
  rw [Except.bind_eq_ok]
  constructor
  · rintro ⟨e, he, h⟩
    obtain ⟨hread, hm⟩ := validate_eq_ok.mp he
    cases hget : s.get? e.detectionId.text with
    | none => simp [hget] at h
    | some prior =>
      simp only [hget, ne_eq, ite_not] at h
      split at h
      · next htake =>
        refine ⟨e, prior, hread, hm, hget, ?_, (Except.ok.inj h).symm⟩
        rw [← htake]
        exact List.take_prefix _ _
      · cases h
  · rintro ⟨e, prior, hread, hm, hget, hprefix, rfl⟩
    refine ⟨e, validate_eq_ok.mpr ⟨hread, hm⟩, ?_⟩
    have htake : e.changeHistory.take prior.changeHistory.length = prior.changeHistory :=
      (List.prefix_iff_eq_take.mp hprefix).symm
    simp [hget, htake]

/-- `str.strip` leaves nothing exactly of a text that is blank. -/
theorem strip_eq_nil_iff (s : String) : Text.strip s.toList = [] ↔ Text.notBlank s = false := by
  rw [Text.notBlank, Bool.eq_false_iff, ne_eq, List.any_eq_true]
  constructor
  · intro h
    obtain ⟨pre, post, hcs, hpre, hpost⟩ := Text.exists_strip s.toList
    rw [h, List.append_nil] at hcs
    rintro ⟨c, hc, hns⟩
    rw [hcs] at hc
    rcases List.mem_append.mp hc with hc | hc
    · simp [hpre c hc] at hns
    · simp [hpost c hc] at hns
  · intro h
    have hall : ∀ c ∈ s.toList, Text.isSpace c = true := by
      intro c hc
      by_contra hns
      exact h ⟨c, hc, by simpa using hns⟩
    rw [Text.strip, List.dropWhile_eq_nil_iff.mpr hall]
    rfl

/-- An actor that passes is one that the schema takes in a record. -/
theorem validActor_eq_ok {actor : Json} {a : String} :
    validActor actor = .ok a ↔ ∃ t : Token 256, actor = .str t.text ∧ t.text = a := by
  cases actor with
  | str s =>
    simp only [validActor, strip_eq_nil_iff, Json.str.injEq]
    split
    · next hbad =>
      constructor
      · intro h
        cases h
      · rintro ⟨t, rfl, -⟩
        rcases hbad with hblank | hlong
        · exact absurd (hblank.symm.trans t.notBlank) (by simp)
        · exact absurd t.fits (by omega)
    · next hgood =>
      rw [not_or, Bool.not_eq_false] at hgood
      constructor
      · intro h
        exact ⟨⟨s, hgood.1, by omega⟩, rfl, Except.ok.inj h⟩
      · rintro ⟨t, rfl, rfl⟩
        rfl
  | _ => simp [validActor]

/-- The dictionary that `promote` writes back is always valid: the checks on
    the actor are those of the schema. -/
theorem ofJson?_moved (e : Entry) (target : Status) (actor : Token 256) (now : Stamp) :
    Entry.ofJson? (e.jsonWith target (e.changeHistory.map Change.toJson ++
      [changeJson now.text actor.text (some e.status) target])) = some (e.moved target actor now) := by
  rw [Entry.ofJson?_jsonWith, JsonSchema.readItems_append Change.ofJson?_toJson,
    Change.ofJson?_changeJson, Token.ofText?_text]
  rfl

theorem find?_transition {current target : Status} {toStatus : String} :
    (TRANSITIONS current).find? (fun t => t.text = toStatus) = some target ↔
      target ∈ TRANSITIONS current ∧ target.text = toStatus := by
  constructor
  · intro h
    exact ⟨List.mem_of_find?_eq_some h, by simpa using List.find?_some h⟩
  · rintro ⟨hmem, rfl⟩
    revert hmem
    cases current <;> cases target <;> decide

/-- A promotion goes through exactly when the actor is a valid one and
    authorized, the entry is there, the move is listed and the manifest of the
    entry still exists. Nothing else about the stored entry changes. -/
theorem promote_eq_ok {manifests : Manifests} {s s' : Store} {id toStatus : String} {actor : Json}
    {now : Stamp} :
    promote authorize manifests s id toStatus actor now = .ok s' ↔
      ∃ (a : Token 256) (e : Entry) (target : Status), actor = .str a.text ∧
        authorize a.text = true ∧ s.get? id = some e ∧ target ∈ TRANSITIONS e.status ∧
        target.text = toStatus ∧ manifests e.manifestRef.text = true ∧
        s' = s.put (e.moved target a now) := by
  unfold promote
  rw [Except.bind_eq_ok]
  constructor
  · rintro ⟨a, ha, h⟩
    obtain ⟨t, rfl, rfl⟩ := validActor_eq_ok.mp ha
    split at h
    · cases h
    · next hauth =>
      cases hget : s.get? id with
      | none => simp [hget] at h
      | some e =>
        cases hfind : (TRANSITIONS e.status).find? fun target => target.text = toStatus with
        | none => simp [hget, hfind] at h
        | some target =>
          simp only [hget, hfind] at h
          obtain ⟨hmem, htext⟩ := find?_transition.mp hfind
          obtain ⟨e', prior, hread, hm, -, -, rfl⟩ := update_eq_ok.mp h
          rw [ofJson?_moved, Option.some.injEq] at hread
          subst hread
          exact ⟨t, e, target, rfl, by simpa using hauth, rfl, hmem, htext, hm, rfl⟩
  · rintro ⟨a, e, target, rfl, hauth, hget, hmem, htext, hm, rfl⟩
    refine ⟨a.text, validActor_eq_ok.mpr ⟨a, rfl, rfl⟩, ?_⟩
    have hid : e.detectionId.text = id := (Registry.get?_eq_some.mp hget).2
    have hfind := find?_transition.mpr ⟨hmem, htext⟩
    simp only [hauth, Bool.not_true, Bool.false_eq_true, if_false, hget, hfind]
    -- the history that is written back extends the one in the store
    exact update_eq_ok.mpr ⟨e.moved target a now, e, ofJson?_moved e target a now, hm,
      by rw [show (e.moved target a now).detectionId = e.detectionId from rfl, hid, hget],
      List.prefix_append _ _, rfl⟩

/-- What a call does to the store. -/
theorem step_cases (s : Store) (c : Call) :
    step authorize s c = s ∨
    (∃ manifests entry e, c = .create manifests entry ∧ Entry.ofJson? entry = some e ∧
      s.get? e.detectionId.text = none ∧ step authorize s c = s.put e) ∨
    (∃ e prior, c.isUpdate = true ∧ s.get? e.detectionId.text = some prior ∧
      prior.changeHistory <+: e.changeHistory ∧ step authorize s c = s.put e) ∨
    (∃ (a : Token 256) (e : Entry) (target : Status) (now : Stamp), authorize a.text = true ∧
      s.get? e.detectionId.text = some e ∧ target ∈ TRANSITIONS e.status ∧
      step authorize s c = s.put (e.moved target a now)) ∨
    (∃ id, c = .delete id ∧ step authorize s c = s.pop id) := by
  unfold step
  cases hperform : perform authorize s c with
  | error _ => exact Or.inl rfl
  | ok s' =>
    right
    cases c with
    | create manifests entry =>
      obtain ⟨e, hread, -, hnone, rfl⟩ := create_eq_ok.mp hperform
      exact Or.inl ⟨manifests, entry, e, rfl, hread, hnone, rfl⟩
    | update manifests entry =>
      obtain ⟨e, prior, -, -, hget, hprefix, rfl⟩ := update_eq_ok.mp hperform
      exact Or.inr (Or.inl ⟨e, prior, rfl, hget, hprefix, rfl⟩)
    | promote manifests id toStatus actor now =>
      obtain ⟨a, e, target, -, hauth, hget, hmem, -, -, rfl⟩ := (promote_eq_ok authorize).mp hperform
      have hid : e.detectionId.text = id := (Registry.get?_eq_some.mp hget).2
      exact Or.inr (Or.inr (Or.inl ⟨a, e, target, now, hauth, by rw [hid, hget], hmem, rfl⟩))
    | delete id =>
      cases hperform
      exact Or.inr (Or.inr (Or.inr ⟨id, rfl, rfl⟩))

/-! ### The history is append-only -/

/-- Under this id there is an entry of which the history starts with `h`. -/
def Keeps (id : String) (h : List Change) (s : Store) : Prop :=
  ∃ e, s.get? id = some e ∧ h <+: e.changeHistory

theorem keeps_step {s : Store} {c : Call} {id : String} {h : List Change} (hdel : c ≠ .delete id)
    (hkeeps : Keeps id h s) : Keeps id h (step authorize s c) := by
  obtain ⟨e, hget, hprefix⟩ := hkeeps
  -- only what is written under this id matters
  have hput : ∀ e' : Entry, (e'.detectionId.text = id → h <+: e'.changeHistory) →
      Keeps id h (s.put e') := by
    intro e' hprefix'
    by_cases hid : e'.detectionId.text = id
    · exact ⟨e', by rw [← hid]; exact Registry.get?_put_self s e', hprefix' hid⟩
    · exact ⟨e, by rw [Registry.get?_put_ne s hid, hget], hprefix⟩
  rcases step_cases authorize s c with hs | ⟨_, _, e', -, -, hnone, hs⟩ |
    ⟨e', prior, -, hprior, hext, hs⟩ | ⟨a, e', target, now, -, hprior, -, hs⟩ | ⟨id', hc, hs⟩ <;>
    rw [hs]
  · exact ⟨e, hget, hprefix⟩
  · apply hput
    intro hid
    rw [hid, hget] at hnone
    cases hnone
  · apply hput
    intro hid
    rw [hid, hget, Option.some.injEq] at hprior
    exact hprefix.trans (hprior ▸ hext)
  · apply hput
    intro hid
    have hid' : e'.detectionId.text = id := hid
    rw [hid', hget, Option.some.injEq] at hprior
    exact hprefix.trans (hprior ▸ List.prefix_append _ _)
  · have hne : id ≠ id' := by
      intro heq
      exact hdel (heq ▸ hc)
    exact ⟨e, by rw [Registry.get?_pop_ne s hne, hget], hprefix⟩

/-- As long as an entry is not deleted its records stay, in their order and
    unchanged, whatever is called with whatever arguments: the history at any
    time is a prefix of the history at any later time. -/
theorem history_append_only (s : Store) (calls : List Call) {id : String} {e : Entry}
    (h : s.get? id = some e) (hdel : ∀ c ∈ calls, c ≠ .delete id) :
    ∃ e', (Machine.run (step authorize) s calls).get? id = some e' ∧
      e.changeHistory <+: e'.changeHistory :=
  Machine.run_invariant_of_meets (P := Keeps id e.changeHistory)
    (fun _ _ hc hkeeps => keeps_step authorize hc hkeeps) ⟨e, h, List.prefix_refl _⟩
    (Machine.Meets.of_forall hdel)

/-- A draft as it is created. -/
def dnsTunnel : Json := .obj
  [("detection_id", .str "dns-tunnel"), ("source", .str "dns"), ("status", .str "draft"),
    ("version", .str "1"), ("manifest_ref", .str "detections/manifest/dns.manifest.json"),
    ("change_history", .arr [])]

theorem noon_notBlank : Text.notBlank "2026-07-01T12:00:00Z" = true := by decide

def noon : Stamp := ⟨_, noon_notBlank⟩

/-- The draft is created and goes to shadow. -/
def shadowed : List Call :=
  [.create (fun _ => true) dnsTunnel,
    .promote (fun _ => true) "dns-tunnel" "shadow" (.str "ana") noon]

theorem shadowed_isSome :
    ((after (allowActors ["ana"]) shadowed).get? "dns-tunnel").isSome = true := by decide +kernel

theorem history_append_only_shadowed : ∃ e e',
    (after (allowActors ["ana"]) shadowed).get? "dns-tunnel" = some e ∧
      (Machine.run (step (allowActors ["ana"])) (after (allowActors ["ana"]) shadowed)
        [.delete "other"]).get? "dns-tunnel" = some e' ∧ e.changeHistory <+: e'.changeHistory := by
  obtain ⟨e, he⟩ := Option.isSome_iff_exists.mp shadowed_isSome
  obtain ⟨e', he'⟩ := history_append_only (allowActors ["ana"]) _ [.delete "other"] he
    (by simp)
  exact ⟨e, e', he, he'⟩

/-! ### The path of an entry -/

/-- The records lead from one status to the other, each of them a listed move
    of an authorized actor. -/
def Moves : Status → List Change → Status → Prop
  | st, [], st' => st' = st
  | st, c :: cs, st' =>
    c.fromStatus = some st ∧ c.toStatus ∈ TRANSITIONS st ∧ authorize c.actor.text = true ∧
      Moves c.toStatus cs st'

/-- How many moves are left at most. -/
def Status.rank : Status → Nat
  | draft => 3
  | shadow => 2
  | active => 1
  | retired => 0

theorem rank_lt {st target : Status} (h : target ∈ TRANSITIONS st) : target.rank < st.rank := by
  revert h
  cases st <;> cases target <;> decide

theorem Moves.snoc {st st' : Status} {cs : List Change} {c : Change}
    (h : Moves authorize st cs st') (hfrom : c.fromStatus = some st')
    (hto : c.toStatus ∈ TRANSITIONS st') (hauth : authorize c.actor.text = true) :
    Moves authorize st (cs ++ [c]) c.toStatus := by
  induction cs generalizing st with
  | nil =>
    obtain rfl : st' = st := h
    exact ⟨hfrom, hto, hauth, rfl⟩
  | cons d ds ih =>
    obtain ⟨hfrom', hto', hauth', hrest⟩ := h
    exact ⟨hfrom', hto', hauth', ih hrest⟩

/-- Every move lowers the rank, so there are at most as many as it allows. -/
theorem Moves.length_le {st st' : Status} {cs : List Change} (h : Moves authorize st cs st') :
    cs.length + st'.rank ≤ st.rank := by
  induction cs generalizing st with
  | nil =>
    obtain rfl : st' = st := h
    simp
  | cons c cs ih =>
    obtain ⟨-, hto, -, hrest⟩ := h
    have hlt := rank_lt hto
    have hle := ih hrest
    simp only [List.length_cons]
    omega

/-- The only way from draft to active goes through shadow. -/
theorem Moves.active_of_draft {cs : List Change} (h : Moves authorize .draft cs .active) :
    ∃ a b, cs = [a, b] ∧ a.toStatus = .shadow ∧ b.toStatus = .active := by
  match cs, h with
  | [a], ⟨_, hto, _, hend⟩ =>
    rw [← hend] at hto
    simp [TRANSITIONS] at hto
  | a :: b :: cs, ⟨_, hto, _, _, hto', _, hrest⟩ =>
    have hlt := rank_lt hto
    have hlt' := rank_lt hto'
    have hle := hrest.length_le
    -- three ranks are given away by the time the entry is active
    have hcs : cs = [] := by
      apply List.eq_nil_of_length_eq_zero
      have hdraft : Status.draft.rank = 3 := rfl
      have hactive : Status.active.rank = 1 := rfl
      omega
    subst hcs
    have hactive : b.toStatus = .active := hrest.symm
    refine ⟨a, b, rfl, ?_, hactive⟩
    rw [hactive] at hlt'
    cases ha : a.toStatus <;> simp_all [Status.rank, TRANSITIONS]

/-- `e` is the entry `e₀` after these moves and no other change. -/
def Descends (e₀ e : Entry) (moves : List Change) : Prop :=
  e = { e₀ with status := e.status, changeHistory := e₀.changeHistory ++ moves } ∧
    Moves authorize e₀.status moves e.status

theorem Descends.refl (e : Entry) : Descends authorize e e [] := by
  constructor
  · rw [List.append_nil]
  · rfl

theorem Descends.moved {e₀ e : Entry} {moves : List Change} (h : Descends authorize e₀ e moves)
    {a : Token 256} {target : Status} {now : Stamp} (hauth : authorize a.text = true)
    (htarget : target ∈ TRANSITIONS e.status) :
    Descends authorize e₀ (e.moved target a now) (moves ++ [⟨now, a, some e.status, target⟩]) := by
  obtain ⟨heq, hmoves⟩ := h
  constructor
  · have hfields : e.moved target a now =
        { e with status := target
                 changeHistory := e.changeHistory ++ [⟨now, a, some e.status, target⟩] } := rfl
    have hhist : e.changeHistory = e₀.changeHistory ++ moves := by rw [heq]
    rw [hfields, hhist, List.append_assoc, heq]
  · exact hmoves.snoc authorize rfl htarget hauth

/-- In a run without direct updates every entry goes back to one that a call
    of `create` has written: the records after it are a legal path, each of an
    authorized actor, at most three of them; from draft to active there are
    two, and the first one leads to shadow. -/
theorem promoted_path (calls : List Call) (hupdate : ∀ c ∈ calls, c.isUpdate = false)
    {id : String} {e : Entry} (h : (after authorize calls).get? id = some e) :
    ∃ manifests entry e₀ moves, Call.create manifests entry ∈ calls ∧
      Entry.ofJson? entry = some e₀ ∧ Descends authorize e₀ e moves ∧
      moves.length + e.status.rank ≤ e₀.status.rank ∧
      (e₀.status = .draft → e.status = .active →
        ∃ a b, moves = [a, b] ∧ a.toStatus = .shadow ∧ b.toStatus = .active) := by
  -- the last two parts follow from the path
  suffices hpath : ∃ manifests entry e₀ moves, Call.create manifests entry ∈ calls ∧
      Entry.ofJson? entry = some e₀ ∧ Descends authorize e₀ e moves by
    obtain ⟨manifests, entry, e₀, moves, hcall, hread, hdesc⟩ := hpath
    refine ⟨manifests, entry, e₀, moves, hcall, hread, hdesc, hdesc.2.length_le authorize, ?_⟩
    intro hdraft hactive
    apply Moves.active_of_draft authorize
    rw [← hdraft, ← hactive]
    exact hdesc.2
  induction calls using List.reverseRecOn generalizing id e with
  | nil => simp [after] at h
  | append_singleton calls c ih =>
    have hbefore : ∀ c' ∈ calls, c'.isUpdate = false := fun c' hc' => hupdate c' (by simp [hc'])
    -- an entry that was there before the last call
    have hold : ∀ {id : String} {e : Entry}, (after authorize calls).get? id = some e →
        ∃ manifests entry e₀ moves, Call.create manifests entry ∈ calls ++ [c] ∧
          Entry.ofJson? entry = some e₀ ∧ Descends authorize e₀ e moves := by
      intro id e hget
      obtain ⟨manifests, entry, e₀, moves, hcall, hread, hdesc⟩ := ih hbefore hget
      exact ⟨manifests, entry, e₀, moves, by simp [hcall], hread, hdesc⟩
    rw [after, Machine.run_snoc] at h
    rcases step_cases authorize (after authorize calls) c with hs |
      ⟨manifests, entry, e', rfl, hread, -, hs⟩ | ⟨_, _, hc, -⟩ |
      ⟨a, e', target, now, hauth, hget, htarget, hs⟩ | ⟨id', -, hs⟩
    · exact hold (hs ▸ h)
    · rw [← after, hs, Registry.get?_put] at h
      split at h
      · obtain rfl := Option.some.inj h
        exact ⟨manifests, entry, e', [], by simp, hread, Descends.refl authorize e'⟩
      · exact hold h
    · rw [hupdate c (by simp)] at hc
      cases hc
    · rw [← after, hs, Registry.get?_put] at h
      split at h
      · obtain rfl := Option.some.inj h
        obtain ⟨manifests, entry, e₀, moves, hcall, hread, hdesc⟩ := hold hget
        exact ⟨manifests, entry, e₀, _, hcall, hread, hdesc.moved authorize hauth htarget⟩
      · exact hold h
    · rw [← after, hs] at h
      by_cases hid : id = id'
      · rw [hid, Registry.get?_pop_self] at h
        cases h
      · rw [Registry.get?_pop_ne _ hid] at h
        exact hold h

theorem promoted_path_shadowed : ∃ e, (after (allowActors ["ana"]) shadowed).get? "dns-tunnel" =
      some e ∧ ∃ manifests entry e₀ moves, Call.create manifests entry ∈ shadowed ∧
        Entry.ofJson? entry = some e₀ ∧ Descends (allowActors ["ana"]) e₀ e moves ∧
        moves.length + e.status.rank ≤ e₀.status.rank ∧
        (e₀.status = .draft → e.status = .active →
          ∃ a b, moves = [a, b] ∧ a.toStatus = .shadow ∧ b.toStatus = .active) := by
  obtain ⟨e, he⟩ := Option.isSome_iff_exists.mp shadowed_isSome
  exact ⟨e, he, promoted_path (allowActors ["ana"]) shadowed (by simp [shadowed, Call.isUpdate]) he⟩

end DetectionRegistry
