import CernityNdr.Framework.Run
import CernityNdr.Hunt.Matching

/-! # The Progress of a Hunt

    Steps of one job, any of which may be interrupted and repeated. The
    cursor of the stored state splits the window: the hits of what is before
    it are stored, the rest is left.

    * `step_cases`: what a step can do.
    * `Inv`: the hits are those of the rows before the cursor.
    * `hunt_safe`: the cursor only moves forward, the steps come to an end,
      and a complete hunt has the hits of its window. -/

namespace IntelHunt

open EvidenceService ThreatIntel Json HuntStore

variable (env : Env) (evidence : Evidence)
  (saved : String → String → Option (List SavedRecord)) (job : Job) (inds : List Indicator)

/-- One step of the job. -/
def jobStep (s : HuntStore) (i : Interruption) : Except HuntError Results × HuntStore :=
  step env evidence saved s job job.tenant i

/-- The store after a step. -/
def next (s : HuntStore) (i : Interruption) : HuntStore := (jobStep env evidence saved job s i).2

/-- `from` and `to` of the job. -/
def huntStart : Int := (env.parseTs (.str job.frm)).getD 0

def huntStop : Int := (env.parseTs (.str job.stop)).getD 0

/-- The query of the job's pages. -/
def huntQuery : Query := pageQuery job.tenant (min (job.pageSize.getD 500) 1000).toNat

/-- What is left after a cursor. -/
def left (c : Int × String) : List Row :=
  remaining evidence.binding evidence.table (huntQuery job) (huntStop env job) c

/-- The state of the job, or the one that it starts from. -/
def current (s : HuntStore) : State :=
  ((s.load job.tenant job.huntId).map Prod.snd).getD (startState env job inds)

/-- The store with the state that the job starts from. -/
def started (s : HuntStore) : HuntStore :=
  s.stored job.tenant job.huntId job (startState env job inds) []

/-- The hit of a row and an indicator. -/
def rowHit (r : Row) (ind : Indicator) : Option Hit :=
  recordOf env job.tenant job.huntId (evidence.observation r) ind

variable {env evidence saved job inds} {s : HuntStore} {i : Interruption}

/-! ### What a step can do -/

/-- The answer of a step that has stored a state. -/
def Answers (i : Interruption) (status : Status) (res : Except HuntError Results) : Prop :=
  (i.answer = true ∧ res = .error .storeError) ∨
    (i.answer = false ∧ ∃ r, res = .ok r ∧ r.status = status)

/-- A step of an accepted job, in a store where nobody else has its id. -/
inductive Stepped (env : Env) (evidence : Evidence) (job : Job) (inds : List Indicator)
    (s : HuntStore) (i : Interruption) : Except HuntError Results → HuntStore → Prop
  | refused (e : HuntError) : Stepped env evidence job inds s i (.error e) s
  /-- the first step, after its first `save` -/
  | started (e : HuntError) (hnew : s.load job.tenant job.huntId = none) :
      Stepped env evidence job inds s i (.error e) (started env job inds s)
  | kept (hload : s.load job.tenant job.huntId = some (job, current env job inds s))
      (hdone : (current env job inds s).status = .complete) (res : Except HuntError Results)
      (hres : Answers i .complete res) : Stepped env evidence job inds s i res s
  | paged (s₁ : HuntStore)
      (hs₁ : s₁ = s ∨ s.load job.tenant job.huntId = none ∧ s₁ = started env job inds s)
      (state : State) (hits : List Hit)
      (hpending : (current env job inds s).status = .pending)
      (hadvance : advance env evidence job job.tenant (current env job inds s) i.read =
        .ok (state, hits))
      (res : Except HuntError Results) (hres : Answers i state.status res) :
      Stepped env evidence job inds s i res
        (s₁.stored job.tenant job.huntId job state hits)

theorem results_of_load {request : Job} {state : State}
    (h : s.load job.tenant job.huntId = some (request, state)) :
    ∃ r, s.results job.tenant job.huntId "" 500 = .ok r ∧ r.status = state.status := by
  rw [results, if_neg (by decide), h]
  exact ⟨_, rfl, rfl⟩

theorem answers_of_load {request : Job} {state : State}
    (h : s.load job.tenant job.huntId = some (request, state)) :
    Answers i state.status (if i.answer then .error .storeError
      else s.results job.tenant job.huntId "" 500) := by
  cases hanswer : i.answer with
  | true => exact Or.inl ⟨hanswer, rfl⟩
  | false => exact Or.inr ⟨hanswer, results_of_load h⟩

variable (env evidence i) in
/-- What a step does once a state is stored. -/
theorem proceed_cases {state : State} (hclean : s.Clean)
    (hload : s.load job.tenant job.huntId = some (job, state)) :
    (∃ e, proceed env evidence s job job.tenant state i = (.error e, s)) ∨
    (state.status = .complete ∧ ∃ res, Answers i .complete res ∧
      proceed env evidence s job job.tenant state i = (res, s)) ∨
    (state.status = .pending ∧ ∃ state' hits res,
      advance env evidence job job.tenant state i.read = .ok (state', hits) ∧
      Answers i state'.status res ∧
      proceed env evidence s job job.tenant state i =
        (res, s.stored job.tenant job.huntId job state' hits)) := by
  unfold proceed
  by_cases hstatus : state.status = .complete
  · rw [if_pos hstatus]
    exact Or.inr (Or.inl ⟨hstatus, _, hstatus ▸ answers_of_load hload, rfl⟩)
  · rw [if_neg hstatus]
    have hpending : state.status = .pending := by
      cases hs : state.status with
      | pending => rfl
      | complete => exact absurd hs hstatus
    cases hadvance : advance env evidence job job.tenant state i.read with
    | error e => exact Or.inl ⟨e, rfl⟩
    | ok out =>
      obtain ⟨state', hits⟩ := out
      simp only
      split
      · next hsave =>
        rw [save_eq_error hclean hsave]
        exact Or.inl ⟨_, rfl⟩
      · next hsave =>
        rw [save_eq_ok hsave]
        exact Or.inr (Or.inr ⟨hpending, state', hits, _, rfl, answers_of_load load_stored, rfl⟩)

theorem clean_stored {tenant jobId : String} {request : Job} {state : State} {hits : List Hit} :
    (s.stored tenant jobId request state hits).Clean := Connection.clean_commit _

variable (env inds) in
theorem current_of_load {request : Job} {state : State}
    (h : s.load job.tenant job.huntId = some (request, state)) :
    current env job inds s = state := by
  rw [current, h]
  rfl

variable (env inds) in
theorem current_of_none (h : s.load job.tenant job.huntId = none) :
    current env job inds s = startState env job inds := by
  rw [current, h]
  rfl

variable (evidence) in
theorem step_cases (haccepted : prepare env saved job job.tenant = .ok inds) (hclean : s.Clean)
    (hown : ∀ original state, s.load job.tenant job.huntId = some (original, state) →
      original = job) (i : Interruption) :
    Stepped env evidence job inds s i (jobStep env evidence saved job s i).1
      (next env evidence saved job s i) := by
  unfold next jobStep step
  split
  · exact .refused _
  rw [if_neg (not_not.mpr rfl)]
  cases hload : s.load job.tenant job.huntId with
  | some found =>
    obtain ⟨original, state⟩ := found
    obtain rfl := hown original state hload
    have hcurrent := current_of_load env inds hload
    simp only [ne_eq, not_true_eq_false, if_false]
    rcases proceed_cases env evidence i hclean hload with
      ⟨e, heq⟩ | ⟨hdone, res, hres, heq⟩ | ⟨hpending, state', hits, res, hadvance, hres, heq⟩
    · rw [heq]
      exact .refused e
    · rw [heq]
      exact .kept (by rw [hcurrent, hload]) (by rw [hcurrent, hdone]) res hres
    · rw [heq]
      exact .paged s (Or.inl rfl) state' hits (by rw [hcurrent, hpending])
        (by rw [hcurrent, hadvance]) res hres
  | none =>
    have hcurrent := current_of_none env inds hload
    simp only [haccepted]
    split
    · next hsave =>
      rw [save_eq_error hclean hsave]
      exact .refused _
    · next hsave =>
      rw [save_eq_ok hsave]
      have hstarted : (started env job inds s).load job.tenant job.huntId =
          some (job, startState env job inds) := load_stored
      rcases proceed_cases env evidence i clean_stored hstarted with
        ⟨e, heq⟩ | ⟨hdone, -⟩ | ⟨hpending, state', hits, res, hadvance, hres, heq⟩
      · rw [heq]
        exact .started e hload
      · cases hdone
      · rw [heq]
        exact .paged _ (Or.inr ⟨hload, rfl⟩) state' hits (by rw [hcurrent, hpending])
          (by rw [hcurrent, hadvance]) res hres

/-! ### One page -/

theorem parseWindow_eq_ok {frm stop : String} {w : Int × Int}
    (h : parseWindow env frm stop = .ok w) :
    w = ((env.parseTs (.str frm)).getD 0, (env.parseTs (.str stop)).getD 0) := by
  unfold parseWindow at h
  split at h
  · next a b ha hb =>
    split at h
    · cases h
    · cases h
      rw [ha, hb]
      rfl
  · cases h

theorem fetchHuntPage_eq_ok {tenant after : String} {frm stop pageSize : Int} {page : Page}
    (h : fetchHuntPage evidence tenant frm stop pageSize after = .ok page) :
    1 ≤ (min pageSize 1000).toNat ∧
      fetchObservations evidence.binding evidence.table
        (pageQuery tenant (min pageSize 1000).toNat) frm stop after = some page := by
  unfold fetchHuntPage at h
  split at h
  · cases h
  split at h
  · cases h
  obtain ⟨size, hsize, h⟩ := Except.bind_eq_ok.mp h
  unfold clampPageSize at hsize
  split at hsize
  · cases hsize
  next hpos =>
    obtain rfl := Except.ok.inj hsize
    refine ⟨by omega, ?_⟩
    cases hpage : fetchObservations evidence.binding evidence.table
        (pageQuery tenant (min pageSize 1000).toNat) frm stop after with
    | none =>
      rw [hpage] at h
      cases h
    | some page' =>
      rw [hpage] at h
      cases h
      rfl

variable (env evidence job) in
/-- What is left of the hunt, in rows and time. -/
def leftover (c : Int × String) : Nat :=
  work evidence.binding evidence.table (huntQuery job) (huntStop env job) c

/-- What a page of a pending job is, and what it leaves. -/
inductive Advanced (env : Env) (evidence : Evidence) (job : Job) (state : State) :
    State → List Hit → Prop
  | empty (h : state.indicators = []) :
      Advanced env evidence job state { state with status := .complete } []
  | page (window : Int × Int) (rows : List Row) (found : List (List Hit)) (state' : State)
      (hfound : (rows.mapM fun r => observationHits env job.tenant job.huntId window
        state.indicators (evidence.observation r)) = .ok found)
      (hkept : state'.indicators = state.indicators)
      (hlast : state'.status = .complete → rows = left env evidence job (state.frm, state.after) ∧
        state'.cursor = state.cursor)
      (hnext : state'.status = .pending →
        rows ++ left env evidence job (state'.frm, state'.after) =
          left env evidence job (state.frm, state.after) ∧
        state.cursor < state'.cursor ∧
        leftover env evidence job (state'.frm, state'.after) <
          leftover env evidence job (state.frm, state.after)) :
      Advanced env evidence job state state' found.flatten

theorem advance_cases (hkeys : (evidence.table.map rowKey).Nodup) {state state' : State}
    {readFails : Bool} {hits : List Hit} (hpending : state.status = .pending)
    (h : advance env evidence job job.tenant state readFails = .ok (state', hits)) :
    Advanced env evidence job state state' hits := by
  unfold advance at h
  split at h
  · next hempty =>
    cases h
    exact .empty hempty
  split at h
  · cases h
  obtain ⟨window, hwindow, h⟩ := Except.bind_eq_ok.mp h
  obtain ⟨page, hpage, h⟩ := Except.bind_eq_ok.mp h
  obtain ⟨found, hfound, h⟩ := Except.bind_eq_ok.mp h
  have hstop : window.2 = huntStop env job := by
    rw [parseWindow_eq_ok hwindow]
    rfl
  obtain ⟨hsize, hfetch⟩ := fetchHuntPage_eq_ok hpage
  rw [hstop] at hfetch
  have hfits : Fits (state.frm, state.after) := by
    by_contra hnot
    have hnone := @fetch_eq_none evidence.binding evidence.table (huntQuery job) (huntStop env job)
      (state.frm, state.after) hnot
    exact nomatch hnone.symm.trans hfetch
  obtain ⟨page', hpage', hleft, hnext⟩ := fetch_spec evidence.binding (huntStop env job) hkeys
    (q := huntQuery job) hsize hfits state.after
  obtain rfl : page' = page := Option.some.inj (hpage'.symm.trans hfetch)
  cases hcursor : page'.next with
  | none =>
    rw [hcursor] at h hleft
    cases h
    refine .page window page'.observations found _ hfound rfl (fun _ => ⟨?_, rfl⟩) nofun
    exact (List.append_nil _).symm.trans hleft
  | some c =>
    rw [hcursor] at h hleft
    obtain ⟨frm, after⟩ := c
    simp only at h
    split at h
    · next hlt =>
      cases h
      refine .page window page'.observations found _ hfound rfl ?_ ?_
      · intro hcomplete
        rw [hpending] at hcomplete
        cases hcomplete
      · intro _
        exact ⟨hleft, hlt.1, (hnext _ hcursor).2⟩
    · cases h

/-! ### The hits of the rows before the cursor -/

/-- The evidence of a hunt: every observation keeps its contract, an id names
    one observation, and no two texts have one hash. -/
structure Sound (env : Env) (evidence : Evidence) : Prop where
  contract : ∀ r ∈ evidence.table, Contract r (evidence.observation r)
  ids : (evidence.table.map Row.obsId).Nodup
  hash : Function.Injective env.sha256

/-- The hits of the job are those of the rows. -/
structure Covers (env : Env) (evidence : Evidence) (job : Job) (s : HuntStore)
    (indicators : List Indicator) (rows : List Row) : Prop where
  mem_hits : ∀ row, row ∈ s.hitsOf job.tenant job.huntId ↔ ∃ r ∈ rows, ∃ ind ∈ indicators,
    ∃ h, rowHit env evidence job r ind = some h ∧ row = ⟨job.tenant, job.huntId, h.hitId, h⟩
  found : ∀ r ∈ rows, ∀ ind ∈ indicators, Matches env (evidence.observation r) ind →
    ∃ h, rowHit env evidence job r ind = some h

theorem Sound.keys (hsound : Sound env evidence) : (evidence.table.map rowKey).Nodup := by
  have hids := hsound.ids
  rw [show Row.obsId = (fun k : Int ×ₗ String => (ofLex k).2) ∘ rowKey from rfl, ← List.map_map] at hids
  exact hids.of_map _

/-- Hits of one id are one hit. -/
theorem Sound.hit_unique (hsound : Sound env evidence) {r r' : Row} {ind ind' : Indicator}
    {h h' : Hit} (hr : r ∈ evidence.table) (hr' : r' ∈ evidence.table)
    (hhit : rowHit env evidence job r ind = some h)
    (hhit' : rowHit env evidence job r' ind' = some h') (hid : h'.hitId = h.hitId) : h' = h := by
  obtain ⟨-, -, heq, -⟩ := recordOf_spec (hsound.contract r hr) hhit
  obtain ⟨-, -, heq', -⟩ := recordOf_spec (hsound.contract r' hr') hhit'
  rw [heq, heq'] at hid
  obtain ⟨hobs, rfl⟩ := hitId_injective hsound.hash hid
  obtain rfl := List.inj_on_of_nodup_map hsound.ids hr' hr hobs
  exact Option.some.inj (hhit'.symm.trans hhit)

/-- The hits of a page. -/
theorem mem_page_hits (hsound : Sound env evidence) {window : Int × Int}
    {indicators : List Indicator} {rows : List Row} {found : List (List Hit)}
    (hrows : ∀ r ∈ rows, r ∈ evidence.table)
    (hfound : (rows.mapM fun r => observationHits env job.tenant job.huntId window indicators
      (evidence.observation r)) = .ok found) :
    (∀ h, h ∈ found.flatten ↔ ∃ r ∈ rows, ∃ ind ∈ indicators,
      rowHit env evidence job r ind = some h) ∧
    ∀ r ∈ rows, ∀ ind ∈ indicators, Matches env (evidence.observation r) ind →
      ∃ h, rowHit env evidence job r ind = some h := by
  have hone : ∀ r ∈ rows, ∃ hits ∈ found,
      (∀ h, h ∈ hits ↔ ∃ ind ∈ indicators, rowHit env evidence job r ind = some h) ∧
      ∀ ind ∈ indicators, Matches env (evidence.observation r) ind →
        ∃ h, rowHit env evidence job r ind = some h := by
    intro r hr
    obtain ⟨hits, hhits⟩ := Except.exists_mapM_eq_ok.mp ⟨_, hfound⟩ r hr
    exact ⟨hits, (Except.mem_of_mapM_eq_ok hfound).mpr ⟨r, hr, hhits⟩,
      mem_of_observationHits (hsound.contract r (hrows r hr)) hhits⟩
  constructor
  · intro h
    rw [List.mem_flatten]
    constructor
    · rintro ⟨hits, hhits, hh⟩
      obtain ⟨r, hr, hok⟩ := (Except.mem_of_mapM_eq_ok hfound).mp hhits
      exact ⟨r, hr, ((mem_of_observationHits (hsound.contract r (hrows r hr)) hok).1 h).mp hh⟩
    · rintro ⟨r, hr, hind⟩
      obtain ⟨hits, hhits, hmem, -⟩ := hone r hr
      exact ⟨hits, hhits, (hmem h).mpr hind⟩
  · intro r hr
    obtain ⟨-, -, -, hmatch⟩ := hone r hr
    exact hmatch

/-- A page is stored behind the rows that are covered. -/
theorem Covers.extend (hsound : Sound env evidence) {indicators : List Indicator}
    {done rows : List Row} (h : Covers env evidence job s indicators done)
    (hdone : ∀ r ∈ done, r ∈ evidence.table) (hrows : ∀ r ∈ rows, r ∈ evidence.table)
    {window : Int × Int} {found : List (List Hit)}
    (hfound : (rows.mapM fun r => observationHits env job.tenant job.huntId window indicators
      (evidence.observation r)) = .ok found) (state : State) :
    Covers env evidence job (s.stored job.tenant job.huntId job state found.flatten) indicators
      (done ++ rows) := by
  obtain ⟨hmem, hmatch⟩ := mem_page_hits hsound hrows hfound
  have hsame : ∀ a ∈ found.flatten, (∀ b ∈ found.flatten, b.hitId = a.hitId → b = a) ∧
      ∀ row ∈ s.hitsOf job.tenant job.huntId, row.id = a.hitId → row.record = a := by
    intro a ha
    obtain ⟨r, hr, ind, -, hhit⟩ := (hmem a).mp ha
    constructor
    · intro b hb hid
      obtain ⟨r', hr', ind', -, hhit'⟩ := (hmem b).mp hb
      exact hsound.hit_unique (hrows r hr) (hrows r' hr') hhit hhit' hid
    · intro row hrow hid
      obtain ⟨r', hr', ind', -, b, hhit', rfl⟩ := (h.mem_hits row).mp hrow
      exact hsound.hit_unique (hrows r hr) (hdone r' hr') hhit hhit' hid
  constructor
  · intro row
    rw [mem_hitsOf_stored hsame, h.mem_hits]
    constructor
    · rintro (⟨r, hr, hrest⟩ | ⟨a, ha, rfl⟩)
      · exact ⟨r, List.mem_append_left _ hr, hrest⟩
      · obtain ⟨r, hr, ind, hind, hhit⟩ := (hmem a).mp ha
        exact ⟨r, List.mem_append_right _ hr, ind, hind, a, hhit, rfl⟩
    · rintro ⟨r, hr, ind, hind, a, hhit, rfl⟩
      rcases List.mem_append.mp hr with hr | hr
      · exact Or.inl ⟨r, hr, ind, hind, a, hhit, rfl⟩
      · exact Or.inr ⟨a, (hmem a).mpr ⟨r, hr, ind, hind, hhit⟩, rfl⟩
  · intro r hr
    rcases List.mem_append.mp hr with hr | hr
    · exact h.found r hr
    · exact hmatch r hr

/-! ### The invariant -/

/-- The cursor of the job. -/
def cursor (env : Env) (job : Job) (inds : List Indicator) (s : HuntStore) : Int × String :=
  ((current env job inds s).frm, (current env job inds s).after)

/-- The rows of the whole window. -/
def whole (env : Env) (evidence : Evidence) (job : Job) : List Row :=
  left env evidence job (huntStart env job, "")

/-- The stored hits are those of the rows before the cursor, and of all rows
    when the hunt is complete. -/
structure Inv (env : Env) (evidence : Evidence) (job : Job) (inds : List Indicator)
    (s : HuntStore) : Prop where
  clean : s.Clean
  own : ∀ original state, s.load job.tenant job.huntId = some (original, state) → original = job
  indicators : (current env job inds s).indicators = inds.filter fun ind => supported ind.itype
  covered : ∃ done, Covers env evidence job s (current env job inds s).indicators done ∧
    ((current env job inds s).status = .pending →
      done ++ left env evidence job (cursor env job inds s) = whole env evidence job) ∧
    ((current env job inds s).status = .complete → done = whole env evidence job)

theorem mem_table_of_left {c : Int × String} {r : Row} (h : r ∈ left env evidence job c) :
    r ∈ evidence.table := by
  simp only [left, remaining, Keyset.after, wanted, List.mem_filter,
    (Keyset.perm_sort rowKey _).mem_iff] at h
  exact h.1.1.1

/-- A store without the job. -/
theorem inv_start (hclean : s.Clean) (hload : s.load job.tenant job.huntId = none)
    (hhits : s.hitsOf job.tenant job.huntId = []) : Inv env evidence job inds s := by
  have hcurrent := current_of_none env inds hload
  refine ⟨hclean, ?_, ?_, [], ⟨?_, ?_⟩, ?_, ?_⟩
  · intro original state hsome
    rw [hload] at hsome
    cases hsome
  · rw [hcurrent]
    rfl
  · intro row
    simp [hhits]
  · intro r hr
    cases hr
  · intro _
    rw [cursor, hcurrent]
    rfl
  · intro hcomplete
    rw [hcurrent] at hcomplete
    cases hcomplete

theorem load_started : (started env job inds s).load job.tenant job.huntId =
    some (job, startState env job inds) := load_stored

theorem hitsOf_started (row : HitRow) : row ∈ (started env job inds s).hitsOf job.tenant job.huntId ↔
    row ∈ s.hitsOf job.tenant job.huntId := by
  rw [started, mem_hitsOf_stored (by simp)]
  simp

/-- The first `save` keeps what is known of the job. -/
theorem Inv.started (h : Inv env evidence job inds s)
    (hload : s.load job.tenant job.huntId = none) :
    Inv env evidence job inds (started env job inds s) ∧
      current env job inds (IntelHunt.started env job inds s) = current env job inds s := by
  have hsame : current env job inds (IntelHunt.started env job inds s) = current env job inds s :=
    (current_of_load env inds load_started).trans (current_of_none env inds hload).symm
  obtain ⟨done, hcovers, hrest⟩ := h.covered
  refine ⟨⟨clean_stored, ?_, ?_, done, ⟨?_, ?_⟩, ?_⟩, hsame⟩
  · intro original state hsome
    rw [load_started] at hsome
    cases hsome
    rfl
  · rw [hsame]
    exact h.indicators
  · intro row
    rw [hsame, hitsOf_started]
    exact hcovers.mem_hits row
  · rw [hsame]
    exact hcovers.found
  · rw [cursor, hsame]
    exact hrest

/-- A page is stored. -/
theorem Inv.paged (hsound : Sound env evidence) (h : Inv env evidence job inds s)
    {state : State} {hits : List Hit} (hpending : (current env job inds s).status = .pending)
    (hadvanced : Advanced env evidence job (current env job inds s) state hits) :
    Inv env evidence job inds (s.stored job.tenant job.huntId job state hits) := by
  have hcurrent : current env job inds (s.stored job.tenant job.huntId job state hits) = state :=
    current_of_load env inds load_stored
  have hown : ∀ original state', (s.stored job.tenant job.huntId job state hits).load job.tenant
      job.huntId = some (original, state') → original = job := by
    intro original state' hsome
    rw [load_stored] at hsome
    cases hsome
    rfl
  obtain ⟨done, hcovers, hleft, -⟩ := h.covered
  have hleft := hleft hpending
  have hdone : ∀ r ∈ done, r ∈ evidence.table :=
    fun r hr => mem_table_of_left (c := (huntStart env job, ""))
      (show r ∈ whole env evidence job from hleft ▸ List.mem_append_left _ hr)
  cases hadvanced with
  | empty hempty =>
    -- without indicators there is nothing to find
    refine ⟨clean_stored, hown, by rw [hcurrent]; exact h.indicators, whole env evidence job,
      ⟨?_, ?_⟩, ?_, fun _ => rfl⟩
    · intro row
      rw [hcurrent, mem_hitsOf_stored (by simp), hcovers.mem_hits]
      simp [hempty]
    · rw [hcurrent]
      simp [hempty]
    · rw [hcurrent]
      nofun
  | page window rows found state' hfound hkept hlast hnext =>
    have hrows : ∀ r ∈ rows, r ∈ left env evidence job
        ((current env job inds s).frm, (current env job inds s).after) := by
      intro r hr
      cases hstatus : state.status with
      | pending =>
        rw [← (hnext hstatus).1]
        exact List.mem_append_left _ hr
      | complete => exact (hlast hstatus).1 ▸ hr
    refine ⟨clean_stored, hown, by rw [hcurrent, hkept]; exact h.indicators, done ++ rows, ?_, ?_, ?_⟩
    · rw [hcurrent, hkept]
      exact hcovers.extend hsound hdone (fun r hr => mem_table_of_left (hrows r hr)) hfound state
    · intro hstatus
      rw [hcurrent] at hstatus
      rw [cursor, hcurrent, List.append_assoc, (hnext hstatus).1]
      exact hleft
    · intro hstatus
      rw [hcurrent] at hstatus
      rw [(hlast hstatus).1]
      exact hleft

/-! ### Steps -/

/-- The step returned, and the hunt goes on. -/
def goesOn : Except HuntError Results → Bool
  | .ok results => results.status = .pending
  | .error _ => false

theorem Answers.not_goesOn {res : Except HuntError Results} (h : Answers i .complete res) :
    goesOn res = false := by
  rcases h with ⟨-, rfl⟩ | ⟨-, r, rfl, hstatus⟩
  · rfl
  · simp [goesOn, hstatus]

/-- The step succeeds without completing the hunt. -/
def progresses (env : Env) (evidence : Evidence)
    (saved : String → String → Option (List SavedRecord)) (job : Job) (s : HuntStore)
    (i : Interruption) : Bool :=
  goesOn (jobStep env evidence saved job s i).1

/-- What a step keeps of the invariant, the cursor and the work. -/
theorem inv_next (haccepted : prepare env saved job job.tenant = .ok inds)
    (hsound : Sound env evidence) (h : Inv env evidence job inds s) (i : Interruption) :
    let s' := next env evidence saved job s i
    Inv env evidence job inds s' ∧
    (current env job inds s).cursor ≤ (current env job inds s').cursor ∧
    (progresses env evidence saved job s i = true →
      (current env job inds s).cursor < (current env job inds s').cursor) ∧
    ((current env job inds s).status = .complete → current env job inds s' = current env job inds s) ∧
    leftover env evidence job (cursor env job inds s') +
      (if progresses env evidence saved job s i then 1 else 0) ≤
        leftover env evidence job (cursor env job inds s) := by
  have hcases := step_cases evidence haccepted h.clean h.own i
  unfold progresses
  intro s'
  change Stepped env evidence job inds s i _ s' at hcases
  generalize (jobStep env evidence saved job s i).1 = res at hcases
  generalize s' = t at hcases
  cases hcases with
  | refused e => exact ⟨h, le_rfl, nofun, fun _ => rfl, le_rfl⟩
  | started e hnew =>
    obtain ⟨hinv, hsame⟩ := h.started hnew
    refine ⟨hinv, hsame ▸ le_rfl, nofun, fun _ => hsame, ?_⟩
    rw [cursor, hsame]
    exact le_rfl
  | kept hload hdone res hres =>
    rw [hres.not_goesOn]
    exact ⟨h, le_rfl, nofun, fun _ => rfl, le_rfl⟩
  | paged s₁ hs₁ state hits hpending hadvance res hres =>
    have hbase : Inv env evidence job inds s₁ ∧ current env job inds s₁ = current env job inds s := by
      rcases hs₁ with rfl | ⟨hnew, rfl⟩
      · exact ⟨h, rfl⟩
      · exact h.started hnew
    obtain ⟨hinv₁, hsame⟩ := hbase
    have hadvanced := advance_cases hsound.keys hpending hadvance
    have hcurrent : current env job inds (s₁.stored job.tenant job.huntId job state hits) = state :=
      current_of_load env inds load_stored
    refine ⟨hinv₁.paged hsound (by rw [hsame, hpending]) (by rw [hsame]; exact hadvanced), ?_⟩
    have hcomplete : (current env job inds s).status = .complete → False := by
      intro hdone
      rw [hpending] at hdone
      cases hdone
    rw [cursor, hcurrent]
    cases hstatus : state.status with
    | complete =>
      have hcursor : state.cursor = (current env job inds s).cursor := by
        cases hadvanced with
        | empty hempty => rfl
        | page window rows found state' hfound hkept hlast hnext => exact (hlast hstatus).2
      rw [hstatus] at hres
      rw [hres.not_goesOn]
      refine ⟨hcursor.ge, nofun, fun hdone => (hcomplete hdone).elim, ?_⟩
      obtain ⟨hfrm, hafter⟩ := Prod.mk.inj (toLex.injective hcursor)
      rw [hfrm, hafter]
      exact le_rfl
    | pending =>
      cases hadvanced with
      | empty hempty => cases hstatus
      | page window rows found state' hfound hkept hlast hnext =>
        obtain ⟨-, hlt, hless⟩ := hnext hstatus
        refine ⟨hlt.le, fun _ => hlt, fun hdone => (hcomplete hdone).elim, ?_⟩
        have hone : (if goesOn res = true then 1 else 0) ≤ 1 := by
          split
          · exact le_rfl
          · exact Nat.zero_le 1
        exact (Nat.add_le_add_left hone _).trans hless

/-- What a step raises after its last `save` is not seen in the store. -/
theorem next_answer (env : Env) (evidence : Evidence)
    (saved : String → String → Option (List SavedRecord)) (job : Job) (s : HuntStore)
    (i : Interruption) : next env evidence saved job s i =
      next env evidence saved job s { i with answer := false } := by
  have hproceed : ∀ (s : HuntStore) (state : State),
      (proceed env evidence s job job.tenant state i).2 =
        (proceed env evidence s job job.tenant state { i with answer := false }).2 := by
    intro s state
    unfold proceed
    dsimp only
    by_cases hstatus : state.status = .complete
    · rw [if_pos hstatus, if_pos hstatus]
    · rw [if_neg hstatus, if_neg hstatus]
      cases advance env evidence job job.tenant state i.read with
      | error e => rfl
      | ok out =>
        dsimp only
        split
        · rfl
        · rfl
  unfold next jobStep step
  split
  · rfl
  rw [if_neg (not_not.mpr rfl), if_neg (not_not.mpr rfl)]
  cases s.load job.tenant job.huntId with
  | some found =>
    dsimp only
    split
    · rfl
    · exact hproceed s _
  | none =>
    cases prepare env saved job job.tenant with
    | error e => rfl
    | ok indicators =>
      dsimp only
      split
      · rfl
      · exact hproceed _ _

/-- A step that raises before its last `save` has committed. -/
theorem next_of_error (haccepted : prepare env saved job job.tenant = .ok inds)
    (h : Inv env evidence job inds s) {e : HuntError}
    (herror : (jobStep env evidence saved job s i).1 = .error e) (hanswer : i.answer = false) :
    next env evidence saved job s i = s ∨ s.load job.tenant job.huntId = none ∧
      next env evidence saved job s i = started env job inds s := by
  have hcases := step_cases evidence haccepted h.clean h.own i
  have hanswers : ∀ status, ¬ Answers i status (.error e) := by
    rintro status (⟨htrue, -⟩ | ⟨-, r, hr, -⟩)
    · rw [hanswer] at htrue
      cases htrue
    · cases hr
  rw [herror] at hcases
  generalize next env evidence saved job s i = t at hcases
  cases hcases with
  | refused e => exact Or.inl rfl
  | started e hnew => exact Or.inr ⟨hnew, rfl⟩
  | kept hload hdone res hres => exact (hanswers _ hres).elim
  | paged s₁ hs₁ state hits hpending hadvance res hres => exact (hanswers _ hres).elim

/-! ### Runs -/

/-- How many steps of a run succeed without completing the hunt. -/
def progressCount (env : Env) (evidence : Evidence)
    (saved : String → String → Option (List SavedRecord)) (job : Job) :
    HuntStore → List Interruption → Nat
  | _, [] => 0
  | s, i :: is => (if progresses env evidence saved job s i then 1 else 0) +
      progressCount env evidence saved job (next env evidence saved job s i) is

theorem progressCount_le (haccepted : prepare env saved job job.tenant = .ok inds)
    (hsound : Sound env evidence) (h : Inv env evidence job inds s) (is : List Interruption) :
    progressCount env evidence saved job s is ≤ leftover env evidence job (cursor env job inds s) := by
  induction is generalizing s with
  | nil => exact Nat.zero_le _
  | cons i is ih =>
    obtain ⟨hinv, -, -, -, hwork⟩ := inv_next haccepted hsound h i
    have hrest := ih hinv
    rw [progressCount]
    omega

theorem inv_run (haccepted : prepare env saved job job.tenant = .ok inds)
    (hsound : Sound env evidence) (h : Inv env evidence job inds s) (is : List Interruption) :
    Inv env evidence job inds (Machine.run (next env evidence saved job) s is) :=
  Machine.run_invariant (P := Inv env evidence job inds)
    (fun _ i h => (inv_next haccepted hsound h i).1) h is

/-- The row is one of the tenant's in the window of the job. -/
def InWindow (env : Env) (evidence : Evidence) (job : Job) (r : Row) : Prop :=
  r ∈ evidence.table ∧ r.tenantId = job.tenant ∧
    huntStart env job ≤ r.normalizedTime ∧ r.normalizedTime < huntStop env job

/-- The hits of the job are one for each observation of the window and each
    indicator that matches it. -/
structure HitsOfWindow (env : Env) (evidence : Evidence) (job : Job) (inds : List Indicator)
    (s : HuntStore) : Prop where
  found : ∀ r, InWindow env evidence job r → ∀ ind ∈ inds, supported ind.itype = true →
    Matches env (evidence.observation r) ind → ∃ row ∈ s.hitsOf job.tenant job.huntId,
      rowHit env evidence job r ind = some row.record ∧
      ∀ row' ∈ s.hitsOf job.tenant job.huntId, row'.record.obsId = r.obsId →
        row'.record.indicator = ind → row' = row
  only : ∀ row ∈ s.hitsOf job.tenant job.huntId, ∃ r, InWindow env evidence job r ∧
    ∃ ind ∈ inds, supported ind.itype = true ∧ Matches env (evidence.observation r) ind ∧
      rowHit env evidence job r ind = some row.record

theorem mem_whole (hsound : Sound env evidence) (hfrm : 1000 ∣ huntStart env job)
    (hstop : 1000 ∣ huntStop env job) (r : Row) :
    r ∈ whole env evidence job ↔ InWindow env evidence job r := by
  have hrows : whole env evidence job = windowRows evidence.table (huntQuery job)
      (huntStart env job) (huntStop env job) :=
    (remaining_start_iff hsound.keys).mpr (sameBounds_of_whole hfrm hstop)
  rw [hrows, windowRows, (Keyset.perm_sort rowKey _).mem_iff, List.mem_filter]
  simp [InWindow, huntQuery, pageQuery, Query.wants, and_assoc]

theorem Covers.hitsOfWindow (hsound : Sound env evidence) (hfrm : 1000 ∣ huntStart env job)
    (hstop : 1000 ∣ huntStop env job)
    (h : Covers env evidence job s (inds.filter fun ind => supported ind.itype)
      (whole env evidence job)) : HitsOfWindow env evidence job inds s := by
  constructor
  · intro r hr ind hind hsupported hmatch
    have hwhole := (mem_whole hsound hfrm hstop r).mpr hr
    have hmem : ind ∈ inds.filter fun ind => supported ind.itype :=
      List.mem_filter.mpr ⟨hind, hsupported⟩
    obtain ⟨a, ha⟩ := h.found r hwhole ind hmem hmatch
    refine ⟨_, (h.mem_hits _).mpr ⟨r, hwhole, ind, hmem, a, ha, rfl⟩, ha, ?_⟩
    intro row' hrow' hobs hindicator
    obtain ⟨r', hr', ind', -, b, hb, rfl⟩ := (h.mem_hits row').mp hrow'
    have htable : r' ∈ evidence.table := mem_table_of_left hr'
    obtain ⟨hobs', hind', -, -⟩ := recordOf_spec (hsound.contract r' htable) hb
    obtain rfl : ind' = ind := hind'.symm.trans hindicator
    obtain rfl := List.inj_on_of_nodup_map hsound.ids htable hr.1 (hobs'.symm.trans hobs)
    obtain rfl := Option.some.inj (hb.symm.trans ha)
    rfl
  · intro row hrow
    obtain ⟨r, hr, ind, hind, a, ha, rfl⟩ := (h.mem_hits row).mp hrow
    obtain ⟨hmem, hsupported⟩ := List.mem_filter.mp hind
    have hmatch := (recordOf_spec (hsound.contract r (mem_table_of_left hr)) ha).2.2.2
    exact ⟨r, (mem_whole hsound hfrm hstop r).mp hr, ind, hmem, hsupported, hmatch, ha⟩

/-- What holds of a store that the steps of the job have reached. -/
structure Safe (env : Env) (evidence : Evidence)
    (saved : String → String → Option (List SavedRecord)) (job : Job) (inds : List Indicator)
    (s : HuntStore) : Prop where
  /-- a step that raises before its last `save` leaves at most the start state -/
  raises : ∀ i e, (jobStep env evidence saved job s i).1 = .error e → i.answer = false →
    next env evidence saved job s i = s ∨ s.load job.tenant job.huntId = none ∧
      next env evidence saved job s i = started env job inds s
  /-- what is raised later is not seen in the store -/
  answers : ∀ i, next env evidence saved job s i =
    next env evidence saved job s { i with answer := false }
  forward : ∀ i, (current env job inds s).cursor ≤
    (current env job inds (next env evidence saved job s i)).cursor
  advances : ∀ i, progresses env evidence saved job s i = true → (current env job inds s).cursor <
    (current env job inds (next env evidence saved job s i)).cursor
  complete : (current env job inds s).status = .complete →
    HitsOfWindow env evidence job inds s

/-- **Hunts are safe.** Whatever interrupts the steps of an accepted job, every
    store that they reach is safe, and finitely many of them succeed without
    completing the hunt. -/
theorem hunt_safe (saved : String → String → Option (List SavedRecord))
    (haccepted : prepare env saved job job.tenant = .ok inds)
    (hfrm : 1000 ∣ huntStart env job) (hstop : 1000 ∣ huntStop env job)
    (hsound : Sound env evidence) (hclean : s.Clean)
    (hload : s.load job.tenant job.huntId = none) (hhits : s.hitsOf job.tenant job.huntId = []) :
    ∃ bound, ∀ is : List Interruption,
      Safe env evidence saved job inds (Machine.run (next env evidence saved job) s is) ∧
        progressCount env evidence saved job s is ≤ bound := by
  have hstart : Inv env evidence job inds s := inv_start hclean hload hhits
  refine ⟨leftover env evidence job (cursor env job inds s), fun is => ?_⟩
  have hinv := inv_run haccepted hsound hstart is
  refine ⟨⟨fun i e => next_of_error haccepted hinv, next_answer env evidence saved job _, ?_, ?_, ?_⟩,
    progressCount_le haccepted hsound hstart is⟩
  · exact fun i => (inv_next haccepted hsound hinv i).2.1
  · exact fun i => (inv_next haccepted hsound hinv i).2.2.1
  · intro hcomplete
    obtain ⟨done, hcovers, -, hdone⟩ := hinv.covered
    rw [hinv.indicators, hdone hcomplete] at hcovers
    exact hcovers.hitsOfWindow hsound hfrm hstop

section Sample

def sampleTime (v : Json) : Option Int :=
  v.str?.bind fun s => List.lookup s [("2026-09-01T00:00:00Z", 1788220800000000),
    ("2026-09-01T00:00:01Z", 1788220801000000), ("2026-09-01T00:00:02Z", 1788220802000000),
    ("2026-09-02T00:00:00Z", 1788307200000000)]

/-- Texts that the standard library leaves as they are. -/
def sampleEnv : Env where
  lib :=
    { upper := id
      lower := id
      int := fun _ => .error .invalid
      compressed := some
      isNetwork := fun _ => true
      inNetwork := fun network v => network = v
      expands := fun _ => false }
  parseTs := sampleTime
  valid := fun _ => true
  sha256 := String.ofList

def sampleIndicator : Indicator := ⟨.ip, "192.0.2.1", "2026-09-01T00:00:00Z"⟩

def sampleJob : Job where
  huntId := "h1"
  tenant := "a"
  frm := "2026-09-01T00:00:00Z"
  stop := "2026-09-02T00:00:00Z"
  pageSize := none
  intelSet := none
  indicators := some [sampleIndicator]

def sampleId (c : Char) : String := String.ofList ("obs:".toList ++ List.replicate 64 c)

/-- The observation of a row: a connection that the indicator matches. -/
def sampleObservation (r : Row) : Dict :=
  let ts := if r.normalizedTime = 1788220801000000 then "2026-09-01T00:00:01Z"
    else "2026-09-01T00:00:02Z"
  [("schema", .str "cernity.observation.v1"), ("obs_id", .str r.obsId), ("tenant", .str r.tenantId),
    ("sensor_id", .str "s1"),
    ("ts", .obj [("sensor", .str ts), ("normalized", .str ts), ("ingested", .str ts),
      ("method", .str "clock-offset"), ("clock_offset_ms", .int 0)]),
    ("entities", .arr []), ("type", .str "conn"),
    ("fields", .obj [("src_ip", .str "192.0.2.1"), ("flow", .obj [("pkts_toserver", .int 1)])]),
    ("capabilities", .arr [.str "flow-only"]),
    ("source_ref", .obj [("kind", .str "clickhouse-row"), ("table", .str "ndr.network_flow"),
      ("tenant", .str r.tenantId), ("obs_id", .str r.obsId),
      ("sha256", .str (String.ofList (List.replicate 64 'c'))), ("topic", .str "ndr.raw.events"),
      ("partition", .int 0), ("offset", .int 0)])]

def sampleEvidence (table : List Row) : Evidence := ⟨cutting, table, sampleObservation⟩

def emptyStore : HuntStore := .fresh ⟨.empty, .empty⟩

def noSets : String → String → Option (List SavedRecord) := fun _ _ => none

theorem sampleId_ne (c : Char) : sampleId c ≠ "" := by
  intro h
  have htext : "obs:".toList ++ List.replicate 64 c = "".toList :=
    String.toList_ofList.symm.trans (congrArg String.toList h)
  simp at htext

/-- Two observations, a second apart. -/
def twoRows (first second : Char) : List Row :=
  [observation (sampleId first) 1788220801000 (sampleId_ne first),
    observation (sampleId second) 1788220802000 (sampleId_ne second)]

/-- A step of the sample job on the empty store. -/
def sampleStep (table : List Row) (i : Interruption) : Except HuntError Results × HuntStore :=
  jobStep sampleEnv (sampleEvidence table) noSets sampleJob emptyStore i

theorem sample_accepted :
    prepare sampleEnv noSets sampleJob sampleJob.tenant = .ok [sampleIndicator] := rfl

/-- A hunt through two observations. -/
theorem sample_safe : ∃ bound, ∀ is : List Interruption,
    Safe sampleEnv (sampleEvidence (twoRows 'a' 'b')) noSets sampleJob [sampleIndicator]
        (Machine.run (next sampleEnv (sampleEvidence (twoRows 'a' 'b')) noSets sampleJob) emptyStore
          is) ∧
      progressCount sampleEnv (sampleEvidence (twoRows 'a' 'b')) noSets sampleJob emptyStore is ≤
        bound := by
  refine hunt_safe noSets sample_accepted (by decide) (by decide) ⟨?_, ?_, ?_⟩ rfl rfl rfl
  · intro r hr
    exact ⟨rfl, "conn", by decide, rfl⟩
  · decide +kernel
  · intro a b hab
    exact String.ofList_injective hab

/-- The first step leaves the start state behind when its read fails, a step
    that fails after its last `save` leaves its page behind, and of two
    observations with one id only one has a hit. -/
theorem sample_unsafe :
    ((sampleStep (twoRows 'a' 'b') ⟨none, true, none, false⟩).1.isOk = false ∧
      (emptyStore.load "a" "h1").isSome = false ∧
      ((sampleStep (twoRows 'a' 'b') ⟨none, true, none, false⟩).2.load "a" "h1").isSome = true) ∧
    ((sampleStep (twoRows 'a' 'b') ⟨none, false, none, true⟩).1.isOk = false ∧
      ((sampleStep (twoRows 'a' 'b') ⟨none, false, none, true⟩).2.hitsOf "a" "h1").length = 2) ∧
    ((twoRows 'a' 'a').map rowKey).Nodup ∧
      (∀ r ∈ twoRows 'a' 'a', Matches sampleEnv (sampleObservation r) sampleIndicator) ∧
      ((sampleStep (twoRows 'a' 'a') ⟨none, false, none, false⟩).2.load "a" "h1").map
        (fun found => found.2.status) = some .complete ∧
      ((sampleStep (twoRows 'a' 'a') ⟨none, false, none, false⟩).2.hitsOf "a" "h1").length = 1 := by
  refine ⟨?_, ?_, ?_, ?_, ?_, ?_⟩
  · decide +kernel
  · decide +kernel
  · decide +kernel
  · intro r _
    exact ⟨[⟨.ip, "src_ip", "192.0.2.1"⟩], rfl, _, List.mem_singleton_self _, rfl, rfl⟩
  · decide +kernel
  · decide +kernel

end Sample

end IntelHunt
