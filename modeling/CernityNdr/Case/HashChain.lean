import Mathlib.Data.List.Chain
import CernityNdr.Case.Api
import CernityNdr.Case.Trail

/-! # The Audit Trail as a Hash Chain

    The handlers of the case API run against one store of documents. A
    request that is answered with success appended one event to the trail of
    one case, and every other request changed no case; the events of a trail
    are linked by the digests that they carry.

    * `appends_audited`: what `audited` makes of the result of an operation.
    * `Chained.append`: one more event keeps the chain.
    * `audit_hash_chain`: every interleaving of requests. -/

namespace CaseApi

open Json

/-! ### The chain -/

/-- `event['actor']`. -/
def actorOf (event : Json) : Option String :=
  match event with
  | .obj e => (Dict.get? e "actor").bind str?
  | _ => none

/-- `event['detail'][key]`, a text. -/
def eventDetail (event : Json) (key : String) : Option String :=
  match event with
  | .obj e => ((detailOf e).get? key).bind str?
  | _ => none

/-- `before_hash` of the later event is `after_hash` of the earlier one. -/
def Linked (earlier later : Json) : Prop :=
  ∃ h, eventDetail later "before_hash" = some h ∧ eventDetail earlier "after_hash" = some h

/-- The trail of a document is a hash chain that ends in the document. -/
structure Chained (sha256 : List Char → String) (doc : Dict) : Prop where
  links : (items doc "audit").IsChain Linked
  last : ∃ event, (items doc "audit").getLast? = some event ∧
    eventDetail event "after_hash" = some (digest sha256 doc)

/-- `after` has one more event, which `actor` made and which carries both
    digests. -/
structure Appends (sha256 : List Char → String) (actor : String) (before after : Dict)
    (event : Json) : Prop where
  audit : after.get? "audit" = some (.arr (items before "audit" ++ [event]))
  actor : actorOf event = some actor
  before_hash : eventDetail event "before_hash" = some (digest sha256 before)
  after_hash : eventDetail event "after_hash" = some (digest sha256 after)

section Chain

variable {sha256 : List Char → String} {session : Session} {r : Request} {actor : String}
  {before after : Dict} {event : Json}

theorem Appends.items (h : Appends sha256 actor before after event) :
    items after "audit" = items before "audit" ++ [event] :=
  items_of_get? h.audit

/-- The first event of a trail. -/
theorem Chained.first (h : Appends sha256 actor before after event)
    (hempty : CaseApi.items before "audit" = []) : Chained sha256 after := by
  have hitems := h.items
  rw [hempty, List.nil_append] at hitems
  constructor
  · rw [hitems]
    exact .singleton _
  · exact ⟨event, by rw [hitems]; rfl, h.after_hash⟩

/-- One more event keeps the chain. -/
theorem Chained.append (h : Chained sha256 before) (happ : Appends sha256 actor before after event) :
    Chained sha256 after := by
  obtain ⟨last, hlast, hhash⟩ := h.last
  constructor
  · rw [happ.items, List.isChain_append]
    refine ⟨h.links, .singleton _, ?_⟩
    intro x hx y hy
    obtain rfl : last = x := Option.some.inj (hlast.symm.trans hx)
    obtain rfl : event = y := Option.some.inj hy
    exact ⟨digest sha256 before, happ.before_hash, hhash⟩
  · exact ⟨event, by rw [happ.items, List.getLast?_append]; rfl, happ.after_hash⟩

/-! ### Completing the event -/

theorem filter_set_audit (d : Dict) (v : Json) :
    (d.set "audit" v).filter (fun m => m.1 ≠ "audit") = d.filter fun m => m.1 ≠ "audit" := by
  have hmap : ∀ l : Dict, (l.map fun m => if m.1 = "audit" then ("audit", v) else m).filter
      (fun m => m.1 ≠ "audit") = l.filter fun m => m.1 ≠ "audit" := by
    intro l
    induction l with
    | nil => rfl
    | cons m l ih =>
      by_cases hm : m.1 = "audit"
      · simpa [hm] using ih
      · simpa [hm] using ih
  unfold Dict.set
  split
  · exact hmap d
  · simp

/-- The digest does not look at the trail. -/
theorem digest_set_audit {d : Dict} (hd : d ≠ []) (v : Json) :
    digest sha256 (d.set "audit" v) = digest sha256 d := by
  have hset : d.set "audit" v ≠ [] := by
    intro h
    have hget := Dict.get?_set_self d "audit" v
    rw [h] at hget
    cases hget
  unfold digest
  rw [filter_set_audit, if_neg (by simpa using hset), if_neg (by simpa using hd)]

theorem eventDetail_completed (e : Dict) (detail : Dict) (key : String) :
    eventDetail (completed detail (.obj e)) key = ((update (detailOf e) detail).get? key).bind str? := by
  simp [eventDetail, completed, detailOf]

theorem recorded_recorded (h : Mutated session.analyst before after) (event : String) :
    Recorded session.analyst before (recorded session r before after event) := by
  unfold recorded
  rcases h with rfl | h
  · rw [if_pos rfl, withNoop]
    refine ⟨⟨_, ?_, get?_actor_auditEvent event _ r.ts [("noop", .bool true)]⟩⟩
    rw [Dict.get?_set_self]
  · obtain ⟨e, haudit, -⟩ := h.audit
    rw [if_neg]
    · exact h
    · rw [items_of_get? haudit]
      simp

/-- The last event gets both digests. -/
theorem appends_sealLast (h : Recorded session.analyst before after) :
    ∃ event, Appends sha256 session.analyst before (sealLast sha256 session r before after) event := by
  obtain ⟨e, haudit, hactor⟩ := h.audit
  have hitems := items_of_get? haudit
  have hne : after ≠ [] := by
    rintro rfl
    cases haudit
  refine ⟨completed (completion sha256 session r before after) (.obj e), ?_⟩
  have hseal : sealLast sha256 session r before after = after.set "audit"
      (.arr (items before "audit" ++ [completed (completion sha256 session r before after) (.obj e)])) := by
    unfold sealLast
    rw [hitems]
    simp
  constructor
  · rw [hseal, Dict.get?_set_self]
  · simp only [actorOf, completed]
    rw [Dict.get?_set_ne _ _ (by decide), hactor]
    rfl
  · rw [eventDetail_completed]
    simp [update, completion, Dict.get?_set_ne, str?]
  · rw [eventDetail_completed, hseal, digest_set_audit hne]
    simp [update, completion, Dict.get?_set_ne, str?]

/-- **`audited`** makes one linked event of whatever an operation recorded. -/
theorem appends_audited (h : Mutated session.analyst before after) (event : String) :
    ∃ e, Appends sha256 session.analyst before (audited sha256 session r before after event) e :=
  appends_sealLast (recorded_recorded h event)

/-- The other members stay. -/
theorem get?_audited {key : String} (haudit : key ≠ "audit") (hupdated : key ≠ "updated")
    (event : String) :
    (audited sha256 session r before after event).get? key = after.get? key := by
  have hrecorded : (recorded session r before after event).get? key = after.get? key := by
    unfold recorded
    split
    · rw [withNoop, Dict.get?_set_ne _ _ haudit, Dict.get?_set_ne _ _ hupdated]
    · rfl
  unfold audited sealLast
  split
  · exact hrecorded
  · rw [Dict.get?_set_ne _ _ haudit, hrecorded]

/-- A new case records its creation. -/
theorem mutated_newCase (caseId tenant title : String) (owner : Json) (actor ts : String) :
    Mutated actor [("audit", .arr [])] (newCase caseId tenant title owner actor ts) :=
  Or.inr ⟨_, rfl, get?_actor_auditEvent "created" actor ts [("owner", owner), ("title", .str title)]⟩

/-- Every route changes nothing or records one event. -/
theorem mutated_apply {route : Route} {doc new : Dict} {value : Json} {actor ts : String}
    (h : route.apply doc value actor ts = some new) : Mutated actor doc new := by
  cases route with
  | owner =>
    obtain rfl := Option.some.inj h
    exact Or.inr ((recorded_touch doc _ actor ts _).set (by decide) _)
  | assign =>
    obtain rfl := Option.some.inj h
    exact mutated_addOnce (by decide) doc value _ actor ts _
  | unassign =>
    obtain rfl := Option.some.inj h
    exact mutated_removeAll (by decide) doc value _ actor ts _
  | note =>
    obtain rfl := Option.some.inj h
    exact Or.inr ((recorded_touch doc _ actor ts _).set (by decide) _)
  | status =>
    simp only [Route.apply, transition] at h
    split at h
    · obtain rfl := Option.some.inj h
      exact Or.inr ((recorded_touch doc _ actor ts _).set (by decide) _)
    · cases h
  | linkFinding =>
    obtain rfl := Option.some.inj h
    exact mutated_addOnce (by decide) doc value _ actor ts _
  | unlinkFinding =>
    obtain rfl := Option.some.inj h
    exact mutated_removeAll (by decide) doc value _ actor ts _
  | linkEntity =>
    obtain rfl := Option.some.inj h
    exact mutated_addOnce (by decide) doc value _ actor ts _
  | unlinkEntity =>
    obtain rfl := Option.some.inj h
    exact mutated_removeAll (by decide) doc value _ actor ts _

end Chain

/-! ### Commands -/

section Commands

variable {sha256 : List Char → String} {int : String → Option Int} {session : Session}
  {r : Request}

/-- What a request can ask of the store. -/
inductive Asks (sha256 : List Char → String) (session : Session) (r : Request) : Command → Prop
  | list (h : r.command = .get) (limit offset : Nat) (fs : List (String × String)) :
    Asks sha256 session r (.list limit offset fs)
  | get (h : r.command = .get) (caseId : String) : Asks sha256 session r (.get caseId)
  | create (h : r.command ≠ .get) (title : String) (owner : Json) :
    Asks sha256 session r (.create (audited sha256 session r [("audit", .arr [])]
      (newCase r.caseId session.tenant title owner session.analyst r.ts) "created"))
  | mutate (h : r.command ≠ .get) (caseId : String) (route : Route) (value : Json) :
    Asks sha256 session r (.mutate caseId route value)

theorem asks_of_reading {parts : List String} {query : List (String × List String)} {c : Command}
    (hget : r.command = .get) (h : reading int parts query = .ok c) : Asks sha256 session r c := by
  unfold reading at h
  split at h
  · split at h
    · split at h
      · obtain ⟨fs, -, rfl⟩ := Except.map_eq_ok.mp h
        exact .list hget _ _ _
      · cases h
    · cases h
  · cases h
    exact .get hget _
  · cases h

theorem asks_of_creation {ms : Dict} {c : Command} (hwrite : r.command ≠ .get)
    (h : creation sha256 session r ms = .ok c) : Asks sha256 session r c := by
  unfold creation at h
  split at h
  · obtain ⟨title, -, h⟩ := Except.bind_eq_ok.mp h
    obtain ⟨owner, -, h⟩ := Except.bind_eq_ok.mp h
    cases h
    exact .create hwrite title owner
  · cases h

theorem asks_of_mutation {parts : List String} {ms : Dict} {c : Command}
    (hwrite : r.command ≠ .get) (h : mutation r parts ms = .ok c) : Asks sha256 session r c := by
  unfold mutation at h
  split at h
  · split at h
    · cases h
    · split at h
      · obtain ⟨value, -, rfl⟩ := Except.map_eq_ok.mp h
        exact .mutate hwrite _ _ _
      · cases h
  · cases h

theorem asks_of_command {c : Command} (h : command sha256 int session r = .ok c) :
    Asks sha256 session r c := by
  unfold command at h
  split at h
  · cases h
  · split at h
    · cases h
    · dsimp only at h
      split at h
      · cases h
      · split at h
        · cases h
        · split at h
          · next hget => exact asks_of_reading hget h
          · next hwrite =>
            obtain ⟨ms, -, h⟩ := Except.bind_eq_ok.mp h
            split at h
            · exact asks_of_creation hwrite h
            · exact asks_of_mutation hwrite h

end Commands

/-! ### The rows -/

/-- The trail of a case. -/
def trailOf (rows : Rows) (caseId : String) : List Json :=
  match (rows.get? caseId).bind Row.load with
  | some doc => items doc "audit"
  | none => []

/-- Every row holds a document whose trail is a chain. -/
def Kept (sha256 : List Char → String) (rows : Rows) : Prop :=
  ∀ row ∈ rows.vals, ∃ doc, row.load = some doc ∧ Chained sha256 doc

/-- One event of the analyst was appended to the trail of one case of the
    tenant, and no other case changed. -/
def Appended (session : Session) (before after : Rows) : Prop :=
  ∃ caseId row event, after.get? caseId = some row ∧ row.tenant = session.tenant ∧
    (∀ old, before.get? caseId = some old → old.tenant = session.tenant) ∧
    trailOf after caseId = trailOf before caseId ++ [event] ∧
    actorOf event = some session.analyst ∧
    ∀ other, other ≠ caseId → after.get? other = before.get? other

section Rows

variable {sha256 : List Char → String} {session : Session} {rows : Rows} {doc new : Dict}
  {event : Json}

theorem load_dumps (caseId tenant : String) (doc : Dict) :
    (Row.mk caseId tenant (dumps (.obj doc))).load = some doc := by
  rw [Row.load, loads_dumps]
  rfl

theorem Appended.ne {before after : Rows} (h : Appended session before after) : after ≠ before := by
  rintro rfl
  obtain ⟨caseId, row, event, -, -, -, htrail, -⟩ := h
  exact CaseManagement.append_ne_self _ _ htrail.symm

theorem Kept.put (h : Kept sha256 rows) (hdoc : Chained sha256 new) (caseId tenant : String) :
    Kept sha256 (rows.put ⟨caseId, tenant, dumps (.obj new)⟩) := by
  intro row hrow
  rcases Registry.mem_put hrow with hold | rfl
  · exact h row hold
  · exact ⟨new, load_dumps caseId tenant new, hdoc⟩

theorem appended_put {caseId : String} (happ : Appends sha256 session.analyst doc new event)
    (htrail : trailOf rows caseId = items doc "audit")
    (hold : ∀ old, rows.get? caseId = some old → old.tenant = session.tenant) :
    Appended session rows (rows.put ⟨caseId, session.tenant, dumps (.obj new)⟩) := by
  have hget := Registry.get?_put_self rows ⟨caseId, session.tenant, dumps (.obj new)⟩
  refine ⟨caseId, _, event, hget, rfl, hold, ?_, happ.actor, ?_⟩
  · rw [htrail, ← happ.items, trailOf, hget, Option.bind_some, load_dumps]
  · intro other hne
    exact Registry.get?_put_ne rows (Ne.symm hne)

end Rows

/-! ### The threads -/

section Threads

variable (sha256 : List Char → String) (int : String → Option Int) (sessions : Dict)

/-- A create or a mutation was answered with success. -/
def Succeeded (r : Request) (a : Answer) : Prop := r.command ≠ .get ∧ (a.code = 200 ∨ a.code = 201)

/-- What a request changed when it was answered. -/
def Answered (r : Request) (a : Answer) (changes : List (Rows × Rows)) : Prop :=
  (Succeeded r a → ∃ session before after, authenticate sessions r = .ok session ∧
    changes = [(before, after)] ∧ Appended session before after) ∧
  (¬ Succeeded r a → changes = [])

/-- What holds of a thread that has the lock. -/
def Working (r : Request) (task : Task) (rows : Rows) (changes : List (Rows × Rows)) : Prop :=
  changes = [] ∧
  match task with
  | .queued session r' c =>
    r' = r ∧ authenticate sessions r = .ok session ∧ Asks sha256 session r c
  | .loaded session row new =>
    r.command ≠ .get ∧ authenticate sessions r = .ok session ∧
      rows.get? row.caseId = some row ∧ row.tenant = session.tenant ∧
      ∃ doc event, row.load = some doc ∧ Chained sha256 doc ∧
        Appends sha256 session.analyst doc new event

variable {sha256 int sessions} {r : Request} {rows : Rows} {changes : List (Rows × Rows)}

theorem not_succeeded_refusal (r : Request) (e : Refusal) : ¬ Succeeded r e.answer := by
  rintro ⟨-, h⟩
  cases e <;> simp [Refusal.answer, Refusal.code] at h

theorem answered_refusal (r : Request) (e : Refusal) : Answered sessions r e.answer [] :=
  ⟨fun h => absurd h (not_succeeded_refusal r e), fun _ => rfl⟩

theorem answered_reading (hget : r.command = .get) (a : Answer) : Answered sessions r a [] :=
  ⟨fun h => absurd hget h.1, fun _ => rfl⟩

theorem answered_appended {session : Session} {before after : Rows} {a : Answer}
    (hwrite : r.command ≠ .get) (hcode : a.code = 200 ∨ a.code = 201)
    (hsession : authenticate sessions r = .ok session) (h : Appended session before after) :
    Answered sessions r a (Mutex.change before after) :=
  ⟨fun _ => ⟨session, before, after, hsession, Mutex.change_of_ne h.ne, h⟩,
    fun hnot => absurd ⟨hwrite, hcode⟩ hnot⟩

/-- What a step under the lock leaves. -/
def Left (sha256 : List Char → String) (sessions : Dict) (r : Request) (rows : Rows) :
    Rows × (Task ⊕ Answer) → Prop
  | (rows', .inl task) =>
    Kept sha256 rows' ∧ Working sha256 sessions r task rows' (Mutex.change rows rows')
  | (rows', .inr a) => Kept sha256 rows' ∧ Answered sessions r a (Mutex.change rows rows')

/-- A step that refuses changes nothing. -/
theorem left_refusal (h : Kept sha256 rows) (e : Refusal) :
    Left sha256 sessions r rows (rows, .inr e.answer) := by
  refine ⟨h, ?_⟩
  rw [Mutex.change_self]
  exact answered_refusal r e

theorem left_create (h : Kept sha256 rows) {session : Session} (hwrite : r.command ≠ .get)
    (hsession : authenticate sessions r = .ok session) (title : String) (owner : Json) :
    Left sha256 sessions r rows (handle sha256 (.queued session r (.create
      (audited sha256 session r [("audit", .arr [])]
        (newCase r.caseId session.tenant title owner session.analyst r.ts) "created"))) false
      rows) := by
  obtain ⟨event, happ⟩ := @appends_audited sha256 session r _ _
    (mutated_newCase r.caseId session.tenant title owner session.analyst r.ts) "created"
  have hrow : rowOf (audited sha256 session r [("audit", .arr [])]
      (newCase r.caseId session.tenant title owner session.analyst r.ts) "created") =
      ⟨r.caseId, session.tenant, dumps (.obj (audited sha256 session r [("audit", .arr [])]
        (newCase r.caseId session.tenant title owner session.analyst r.ts) "created"))⟩ := by
    simp only [rowOf, Dict.get, get?_audited (by decide : "case_id" ≠ "audit") (by decide),
      get?_audited (by decide : "tenant" ≠ "audit") (by decide)]
    rfl
  simp only [handle, Bool.false_eq_true, if_false, hrow]
  cases hget : rows.get? r.caseId with
  | some old => exact left_refusal h .conflict
  | none =>
    have htrail : trailOf rows r.caseId = items [("audit", .arr [])] "audit" := by
      rw [trailOf, hget]
      rfl
    have happended : Appended session rows (rows.put ⟨r.caseId, session.tenant, _⟩) :=
      appended_put happ htrail fun old hold => by
        rw [hget] at hold
        cases hold
    exact ⟨h.put (.first happ rfl) _ _,
      answered_appended hwrite (Or.inr rfl) hsession happended⟩

theorem left_mutate (h : Kept sha256 rows) {session : Session} (hwrite : r.command ≠ .get)
    (hsession : authenticate sessions r = .ok session) (caseId : String) (route : Route)
    (value : Json) :
    Left sha256 sessions r rows
      (handle sha256 (.queued session r (.mutate caseId route value)) false rows) := by
  simp only [handle, Bool.false_eq_true, if_false]
  cases hgranted : granted session caseId rows with
  | none => exact left_refusal h .notFound
  | some row =>
    obtain ⟨hrow, htenant⟩ : rows.get? caseId = some row ∧ row.tenant = session.tenant := by
      simpa [granted, Option.filter_eq_some_iff] using hgranted
    cases hload : row.load with
    | none =>
      simp only [hload]
      exact left_refusal h .unavailable
    | some doc =>
      simp only [hload]
      cases hnew : mutate sha256 session r route value doc with
      | none => exact left_refusal h .invalid
      | some new =>
        simp only
        split
        · obtain ⟨changed, happly, rfl⟩ := Option.map_eq_some_iff.mp hnew
          obtain ⟨event, happ⟩ := @appends_audited sha256 session r _ _
            (mutated_apply happly) route.event
          obtain ⟨doc', hload', hchained⟩ := h row (Registry.get?_eq_some.mp hrow).1
          obtain rfl : doc = doc' := Option.some.inj (hload.symm.trans hload')
          have hkey : row.caseId = caseId := (Registry.get?_eq_some.mp hrow).2
          refine ⟨h, Mutex.change_self rows, hwrite, hsession, ?_, htenant, doc, event, hload,
            hchained, happ⟩
          rw [hkey]
          exact hrow
        · exact left_refusal h .invalid

theorem left_loaded (h : Kept sha256 rows) {session : Session} {row : Row} {new : Dict}
    (hworking : Working sha256 sessions r (.loaded session row new) rows []) :
    Left sha256 sessions r rows (handle sha256 (.loaded session row new) false rows) := by
  obtain ⟨-, hwrite, hsession, hrow, htenant, doc, event, hload, hchained, happ⟩ := hworking
  have htrail : trailOf rows row.caseId = items doc "audit" := by
    rw [trailOf, hrow, Option.bind_some, hload]
  have happended : Appended session rows
      (rows.put ⟨row.caseId, session.tenant, dumps (.obj new)⟩) := by
    refine appended_put happ htrail fun old hold => ?_
    rw [hrow] at hold
    cases hold
    exact htenant
  simp only [handle, Bool.false_eq_true, if_false, htenant]
  exact ⟨h.put (hchained.append happ) _ _,
    answered_appended hwrite (Or.inl rfl) hsession happended⟩

/-- Every step under the lock. -/
theorem left_handle (h : Kept sha256 rows) {task : Task}
    (hworking : Working sha256 sessions r task rows changes) (fails : Bool) :
    Left sha256 sessions r rows (handle sha256 task fails rows) := by
  obtain rfl : changes = [] := hworking.1
  cases fails with
  | true => exact left_refusal h .unavailable
  | false =>
    cases task with
    | loaded session row new => exact left_loaded h hworking
    | queued session r' c =>
      obtain ⟨-, rfl, hsession, hasks⟩ := hworking
      cases hasks with
      | create hwrite title owner => exact left_create h hwrite hsession title owner
      | mutate hwrite caseId route value =>
        exact left_mutate h hwrite hsession caseId route value
      | list hget limit offset fs =>
        exact ⟨h, (Mutex.change_self rows).symm ▸ answered_reading hget _⟩
      | get hget caseId =>
        simp only [handle, Bool.false_eq_true, if_false]
        split
        · exact left_refusal h .notFound
        · exact ⟨h, (Mutex.change_self rows).symm ▸ answered_reading hget _⟩

theorem rules_handle : Mutex.Rules (start sha256 int sessions) (handle sha256) (Kept sha256)
    (Working sha256 sessions) (Answered sessions) := by
  constructor
  · intro r a hstart
    unfold start at hstart
    split at hstart
    · cases hstart
      exact answered_refusal r _
    · split at hstart
      · cases hstart
        exact answered_refusal r _
      · cases hstart
  · intro r task rows hstart _
    unfold start at hstart
    split at hstart
    · cases hstart
    · next session hsession =>
      split at hstart
      · cases hstart
      · next c hcommand =>
        cases hstart
        exact ⟨rfl, rfl, hsession, asks_of_command hcommand⟩
  · intro r task fails rows l rows' task' hkept hworking hhandle
    have hleft := left_handle hkept hworking fails
    rw [hhandle] at hleft
    rw [hworking.1]
    exact hleft
  · intro r task fails rows l rows' a hkept hworking hhandle
    have hleft := left_handle hkept hworking fails
    rw [hhandle] at hleft
    rw [hworking.1]
    exact hleft

end Threads

/-- The API over a store, after a run. -/
abbrev ranApi {θ : Type} [DecidableEq θ] (sha256 : List Char → String)
    (int : String → Option Int) (sessions : Dict) (run : List (Mutex.Input θ Request Bool)) :
    Mutex.System θ Rows Request Task Answer :=
  Machine.run (Mutex.step (start sha256 int sessions) (handle sha256)) (.initial .empty) run

/-- What the steps of a thread changed in a run. -/
abbrev changedBy {θ : Type} [DecidableEq θ] (sha256 : List Char → String)
    (int : String → Option Int) (sessions : Dict) (run : List (Mutex.Input θ Request Bool))
    (t : θ) : List (Rows × Rows) :=
  Mutex.changes (start sha256 int sessions) (handle sha256) t (.initial .empty) run

/-- **The audit trail is a hash chain** over every interleaving of requests:
    a create or a mutation that is answered with success made one change,
    which appended one event of its analyst to one case of its tenant; no
    other thread changed a case; and the events of every case are linked,
    the last one to the stored document. -/
theorem audit_hash_chain {θ : Type} [DecidableEq θ] (sha256 : List Char → String)
    (int : String → Option Int) (sessions : Dict) (run : List (Mutex.Input θ Request Bool)) :
    (∀ t r a, (ranApi sha256 int sessions run).phase t = .done r a → Succeeded r a →
      ∃ session before after, authenticate sessions r = .ok session ∧
        changedBy sha256 int sessions run t = [(before, after)] ∧
        Appended session before after) ∧
    (∀ t, (∀ r a, (ranApi sha256 int sessions run).phase t = .done r a → ¬ Succeeded r a) →
      changedBy sha256 int sessions run t = []) ∧
    ∀ row ∈ (ranApi sha256 int sessions run).store.vals,
      ∃ doc, row.load = some doc ∧ Chained sha256 doc := by
  have hempty : Kept sha256 .empty := by
    intro row hrow
    cases hrow
  have hinv := Mutex.inv_run (@rules_handle sha256 int sessions) hempty run
  refine ⟨?_, ?_, hinv.store⟩
  · intro t r a hdone hsuccess
    have hthread := hinv.threads t
    rw [hdone] at hthread
    exact hthread.1 hsuccess
  · intro t hnot
    have hthread := hinv.threads t
    cases hphase : (ranApi sha256 int sessions run).phase t with
    | idle =>
      rw [hphase] at hthread
      exact hthread
    | waiting r task =>
      rw [hphase] at hthread
      exact hthread.2
    | inside r task =>
      rw [hphase] at hthread
      exact hthread.1
    | done r a =>
      rw [hphase] at hthread
      exact hthread.2 (hnot r a hphase)

end CaseApi
