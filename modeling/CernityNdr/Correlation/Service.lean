import CernityNdr.Correlation.Shaping
import CernityNdr.Framework.Run

/-! # The Correlation Service over Time

    The model of the loop of `correlation-service/app.py`: findings are kept by
    entity, pruned to a window and evaluated; a set of keys keeps one process
    from sending an incident twice, and the window goes to a table from which
    the next process reads it. The table only ever gets rows for the entities
    of the moment, so it also keeps what was pruned long ago.

    Over it stands a history: a list of what was consumed, and how much of it
    was saved. A process that ends without saving falls back to that.

    * `sends_refine`: what is sent is exactly what the decisions say of the
      window of the history, when every start reads the table.
    * `count_sends_le`: a key is sent once by each process.
    * `evidence_sound`: what a sent finding cites, also when the clock goes
      back, and that nothing sent comes back as evidence. -/

open CappedMap (FieldMap)

namespace Correlation

variable {K : Type*} [Field K] [LinearOrder K] [FloorRing K]

/-! ### State -/

/-- The settings, and the power of the decay. -/
structure Settings (K : Type*) where
  tenant : String
  window : K
  params : Params K
  mlSources : List String
  decay : K → K

/-- A key of `_emitted`. -/
structure Key where
  entity : String
  bucket : Int
  reason : String
deriving DecidableEq

/-- The items of the entities. -/
abbrev Items (K : Type*) := FieldMap String (List (Item K))

structure Service (K : Type*) where
  /-- `_state` -/
  state : Items K
  /-- `_emitted` -/
  emitted : List Key
  /-- `ndr.entity_risk_state`, the last row of every entity -/
  rows : Items K
  /-- what was sent, each with its key -/
  sent : List (Key × Outgoing K)

def Service.init : Service K := ⟨.empty, [], .empty, []⟩

def itemsOf (m : Items K) (ent : String) : List (Item K) := (m.lookup ent).getD []

variable (c : Settings K)

/-! ### Steps -/

/-- The loop over the records of a poll; `asset` is what the lookup of the
    asset returns. -/
def Service.consume (s : Service K) (f : Incoming K) (asset : Option String) (now : K) : Service K :=
  if eligible f.toItem then
    match entityOf c.tenant asset f with
    | none => s
    | some ent => { s with state := s.state.put (ent, itemsOf s.state ent ++ [normalize f now]) }
  else s

/-- The item is in the window. -/
def recent (now : K) (x : Item K) : Bool := decide (now - tsOf x.toFinding 0 ≤ c.window)

/-- `now // WINDOW`. -/
def bucketOf (now : K) : Int := ⌊now / c.window⌋

/-- `_prune`. -/
def Service.prune (s : Service K) (now : K) : Service K :=
  { s with
    state := (s.state.mapSnd fun items => items.filter (recent c now)).filter fun e => !e.2.isEmpty
    emitted := s.emitted.filter fun k => ¬ k.bucket < bucketOf c now }

def incidentId (ent : String) (bucket : Int) (reason : String) : String :=
  "incident-" ++ ent ++ "-" ++ toString bucket ++ "-" ++ reason

def corroborationId (ent : String) (bucket : Int) (cat : String) : String :=
  "corrob-" ++ ent ++ "-" ++ toString bucket ++ "-" ++ cat

/-- What `evaluate` would send for an entity, each under its key. -/
def candidatesOf (now : K) (ent : String) (items : List (Item K)) : List (Key × Outgoing K) :=
  let bucket := bucketOf c now
  let decision := shouldIncident c.decay (items.map Item.toReport) now c.params
  let incidents :=
    if decision.1 then
      [((⟨ent, bucket, decision.2⟩ : Key), buildIncident c.decay c.params c.tenant
        (incidentId ent bucket decision.2) ent items now decision.2)]
    else []
  incidents ++ (findCorroborations c.mlSources items).map fun g =>
    (⟨ent, bucket, "corrob:" ++ g.category⟩,
      buildCorroboration c.tenant (corroborationId ent bucket g.category) ent g now)

/-- Send what was not sent under this key. -/
def Service.offer (s : Service K) (x : Key × Outgoing K) : Service K :=
  if x.1 ∈ s.emitted then s else { s with emitted := x.1 :: s.emitted, sent := s.sent ++ [x] }

/-- `evaluate`. -/
def Service.evaluate (s : Service K) (now : K) : Service K :=
  s.state.vals.foldl (fun s e => (candidatesOf c now e.1 e.2).foldl Service.offer s) s

/-- `_persist`. -/
def Service.persist (s : Service K) : Service K :=
  { s with rows := s.state.vals.foldl Registry.put s.rows }

/-- The start of a process, with `_reload`, which leaves the state empty when its query raises. -/
def Service.start (s : Service K) (loads : Bool) : Service K :=
  { s with
    state := if loads then s.rows.mapSnd fun items => items.filter fun x => !isStructuredNdpi x else .empty
    emitted := [] }

inductive Input (K : Type*)
  | consume (f : Incoming K) (asset : Option String) (now : K)
  /-- `_prune` and `evaluate`, which `main` calls one after the other -/
  | evaluate (now : K)
  | persist
  /-- the loop ends, which persists, and a process starts -/
  | stop (loads : Bool)
  /-- the process ends where it stands, and a process starts -/
  | crash (loads : Bool)

def Service.step (s : Service K) : Input K → Service K
  | .consume f asset now => s.consume c f asset now
  | .evaluate now => (s.prune c now).evaluate c now
  | .persist => s.persist
  | .stop loads => s.persist.start loads
  | .crash loads => s.start loads

/-- The service after these inputs. -/
def Service.after (inputs : List (Input K)) : Service K := Machine.run (Service.step c) .init inputs

/-! ### The history -/

/-- What was consumed, and what of it the table knows, when every start reads the table. -/
structure History (K : Type*) where
  live : List (String × Item K)
  saved : List (String × Item K)

def History.step (h : History K) : Input K → History K
  | .consume f asset now =>
    if eligible f.toItem then
      match entityOf c.tenant asset f with
      | none => h
      | some ent => { h with live := h.live ++ [(ent, normalize f now)] }
    else h
  | .evaluate _ => h
  | .persist => { h with saved := h.live }
  | .stop _ => { h with saved := h.live }
  | .crash _ => { h with live := h.saved }

def History.after (inputs : List (Input K)) : History K := Machine.run (History.step c) ⟨[], []⟩ inputs

/-- The items of an entity that are in the window. -/
def windowOf (l : List (String × Item K)) (ent : String) (now : K) : List (Item K) :=
  ((l.filter fun e => e.1 = ent).map Prod.snd).filter (recent c now)

/-- The times of the evaluations. -/
def Input.evaluated : Input K → Option K
  | .evaluate now => some now
  | _ => none

def evaluations (inputs : List (Input K)) : List K := inputs.filterMap Input.evaluated

/-- The start of a process, if it is one, reads the table. -/
def Input.loads : Input K → Bool
  | .stop loads | .crash loads => loads
  | _ => true

/-! ### Items -/

omit [Field K] [LinearOrder K] [FloorRing K] in
theorem itemsOf_put (m : Items K) (ent ent' : String) (items : List (Item K)) :
    itemsOf (m.put (ent, items)) ent' = if ent = ent' then items else itemsOf m ent' := by
  unfold itemsOf
  rw [Registry.lookup_put]
  split <;> rfl

/-- Pruning filters the items; an entity without items is as good as none. -/
theorem itemsOf_prune (s : Service K) (now : K) (ent : String) :
    itemsOf (s.prune c now).state ent = (itemsOf s.state ent).filter (recent c now) := by
  unfold itemsOf Service.prune
  rw [Registry.lookup_filter, Registry.lookup_mapSnd]
  cases s.state.lookup ent with
  | none => rfl
  | some items =>
    by_cases hempty : items.filter (recent c now) = []
    · rw [Option.map_some, Option.filter_some_neg (by simp [hempty])]
      exact hempty.symm
    · rw [Option.map_some, Option.filter_some_pos (by simpa using hempty)]
      rfl

omit [Field K] [LinearOrder K] [FloorRing K] in
theorem itemsOf_persist (s : Service K) (ent : String) : itemsOf s.persist.rows ent =
    ((s.state.lookup ent).or (s.rows.lookup ent)).getD [] := by
  have hlookup : s.persist.rows.lookup ent = (s.state.lookup ent).or (s.rows.lookup ent) := by
    unfold Registry.lookup
    show Option.map _ ((s.state.vals.foldl Registry.put s.rows).get? ent) = _
    rw [Registry.get?_foldl_put s.rows s.state.nodup]
    show Option.map _ ((s.state.get? ent).or _) = _
    cases s.state.get? ent <;> rfl
  rw [itemsOf, hlookup]

omit [Field K] [LinearOrder K] [FloorRing K] in
theorem itemsOf_start (s : Service K) (loads : Bool) (ent : String) : itemsOf (s.start loads).state ent =
    if loads then (itemsOf s.rows ent).filter fun x => !isStructuredNdpi x else [] := by
  cases loads with
  | false => rfl
  | true =>
    unfold itemsOf Service.start
    rw [if_pos rfl, Registry.lookup_mapSnd]
    cases s.rows.lookup ent <;> rfl

/-! ### Offers -/

section Offers

omit [Field K] [LinearOrder K] [FloorRing K]

/-- What a list of offers does: some of them are sent, each key at most once,
    and afterwards every key was emitted. -/
theorem foldl_offer (s : Service K) (xs : List (Key × Outgoing K)) :
    (xs.foldl Service.offer s).state = s.state ∧ (xs.foldl Service.offer s).rows = s.rows ∧
      (∃ new, (xs.foldl Service.offer s).sent = s.sent ++ new ∧ ∀ x ∈ new, x ∈ xs) ∧
      ∀ k, k ∈ (xs.foldl Service.offer s).emitted ↔ k ∈ s.emitted ∨ k ∈ xs.map Prod.fst := by
  induction xs generalizing s with
  | nil => exact ⟨rfl, rfl, ⟨[], by simp, by simp⟩, by simp⟩
  | cons x xs ih =>
    obtain ⟨hstate, hrows, ⟨new, hnew, hmem⟩, hemitted⟩ := ih (s.offer x)
    rw [List.foldl_cons]
    by_cases hin : x.1 ∈ s.emitted
    · have hsame : s.offer x = s := if_pos hin
      rw [hsame] at hstate hrows hnew hemitted ⊢
      refine ⟨hstate, hrows, ⟨new, hnew, fun y hy => List.mem_cons_of_mem _ (hmem y hy)⟩, ?_⟩
      intro k
      rw [hemitted, List.map_cons, List.mem_cons]
      constructor
      · intro h
        rcases h with h | h
        · exact Or.inl h
        · exact Or.inr (Or.inr h)
      · intro h
        rcases h with h | rfl | h
        · exact Or.inl h
        · exact Or.inl hin
        · exact Or.inr h
    · have hsent : s.offer x = { s with emitted := x.1 :: s.emitted, sent := s.sent ++ [x] } := if_neg hin
      rw [hsent] at hstate hrows hnew hemitted ⊢
      refine ⟨hstate, hrows, ⟨x :: new, by rw [hnew]; simp, ?_⟩, ?_⟩
      · intro y hy
        rcases List.mem_cons.mp hy with rfl | hy
        · exact List.mem_cons_self
        · exact List.mem_cons_of_mem _ (hmem y hy)
      · intro k
        rw [hemitted, List.map_cons, List.mem_cons, List.mem_cons]
        tauto

def Service.keys (s : Service K) : List Key := s.sent.map Prod.fst

/-- How often a key was sent, and once more while it may be. -/
def Service.budget (s : Service K) (k : Key) : Nat := s.keys.count k + (if k ∈ s.emitted then 0 else 1)

theorem budget_foldl_offer (s : Service K) (xs : List (Key × Outgoing K)) (k : Key) :
    (xs.foldl Service.offer s).budget k = s.budget k := by
  induction xs generalizing s with
  | nil => rfl
  | cons x xs ih =>
    rw [List.foldl_cons, ih]
    unfold Service.offer
    by_cases hin : x.1 ∈ s.emitted
    · rw [if_pos hin]
    · rw [if_neg hin]
      by_cases hk : x.1 = k
      · subst hk
        simp [Service.budget, Service.keys, hin]
      · simp [Service.budget, Service.keys, hk, Ne.symm hk]

/-- A key that was emitted was sent. -/
theorem sent_of_emitted_offer {s : Service K} (h : ∀ k ∈ s.emitted, k ∈ s.keys)
    (xs : List (Key × Outgoing K)) :
    ∀ k ∈ (xs.foldl Service.offer s).emitted, k ∈ (xs.foldl Service.offer s).keys := by
  induction xs generalizing s with
  | nil => exact h
  | cons x xs ih =>
    rw [List.foldl_cons]
    apply ih
    intro k hk
    unfold Service.offer at hk ⊢
    by_cases hin : x.1 ∈ s.emitted
    · rw [if_pos hin] at hk ⊢
      exact h k hk
    · rw [if_neg hin] at hk ⊢
      rcases List.mem_cons.mp hk with rfl | hk
      · simp [Service.keys]
      · have hold := h k hk
        simp only [Service.keys, List.map_append, List.mem_append] at hold ⊢
        exact Or.inl hold

end Offers

/-- The candidates of all entities, in the order in which they are offered. -/
def candidates (s : Service K) (now : K) : List (Key × Outgoing K) :=
  s.state.vals.flatMap fun e => candidatesOf c now e.1 e.2

theorem evaluate_eq (s : Service K) (now : K) :
    s.evaluate c now = (candidates c s now).foldl Service.offer s := by
  unfold candidates Service.evaluate
  rw [List.foldl_flatMap]

theorem candidatesOf_nil (now : K) (ent : String) : candidatesOf c now ent [] = [] := rfl

theorem key_of_mem_candidatesOf {now : K} {ent : String} {items : List (Item K)}
    {x : Key × Outgoing K} (h : x ∈ candidatesOf c now ent items) :
    x.1.entity = ent ∧ x.1.bucket = bucketOf c now := by
  unfold candidatesOf at h
  dsimp only at h
  rcases List.mem_append.mp h with h | h
  · split at h
    · obtain rfl := List.mem_singleton.mp h
      exact ⟨rfl, rfl⟩
    · cases h
  · obtain ⟨g, _, rfl⟩ := List.mem_map.mp h
    exact ⟨rfl, rfl⟩

theorem mem_candidates {s : Service K} {now : K} {x : Key × Outgoing K} :
    x ∈ candidates c s now ↔ x ∈ candidatesOf c now x.1.entity (itemsOf s.state x.1.entity) := by
  unfold candidates itemsOf
  rw [List.mem_flatMap]
  constructor
  · intro ⟨e, he, hx⟩
    rw [(key_of_mem_candidatesOf c hx).1, Registry.lookup_eq_some.mpr he]
    exact hx
  · intro hx
    cases hlookup : s.state.lookup x.1.entity with
    | none =>
      rw [hlookup, Option.getD_none, candidatesOf_nil] at hx
      cases hx
    | some items =>
      rw [hlookup] at hx
      exact ⟨(x.1.entity, items), Registry.lookup_eq_some.mp hlookup, hx⟩

/-! ### The state and the history -/

section Refinement

variable {c}

omit [FloorRing K] in
theorem windowOf_append (l l' : List (String × Item K)) (ent : String) (now : K) :
    windowOf c (l ++ l') ent now = windowOf c l ent now ++ windowOf c l' ent now := by
  simp [windowOf]

omit [FloorRing K] in
theorem windowOf_singleton (ent ent' : String) (x : Item K) (now : K) :
    windowOf c [(ent, x)] ent' now = if ent = ent' then [x].filter (recent c now) else [] := by
  unfold windowOf
  by_cases h : ent = ent'
  · simp [h]
  · simp [h]

variable (c) in
/-- The state and the table agree with the history for every time from `past`
    on, the times of the evaluations that were made. -/
structure Refines (s : Service K) (h : History K) (past : List K) : Prop where
  live : ∀ ent now, (∀ t ∈ past, t ≤ now) →
    (itemsOf s.state ent).filter (recent c now) = windowOf c h.live ent now
  saved : ∀ ent now, (∀ t ∈ past, t ≤ now) →
    (itemsOf s.rows ent).filter (recent c now) = windowOf c h.saved ent now
  /-- the table lags behind -/
  behind : h.saved <+: h.live
  /-- what `_reload` filters out never got in -/
  stateClean : ∀ ent, ∀ x ∈ itemsOf s.state ent, isStructuredNdpi x = false
  rowsClean : ∀ ent, ∀ x ∈ itemsOf s.rows ent, isStructuredNdpi x = false

omit [FloorRing K] in
theorem refines_init : Refines c (.init : Service K) ⟨[], []⟩ [] := by
  constructor
  · exact fun _ _ _ => rfl
  · exact fun _ _ _ => rfl
  · exact List.prefix_rfl
  · intro ent x hx
    cases hx
  · intro ent x hx
    cases hx

theorem refines_consume {s : Service K} {h : History K} {past : List K} (hr : Refines c s h past)
    (f : Incoming K) (asset : Option String) (now : K) :
    Refines c (s.step c (.consume f asset now)) (h.step c (.consume f asset now)) past := by
  show Refines c (s.consume c f asset now) _ past
  unfold Service.consume History.step
  by_cases heligible : eligible f.toItem = true
  · simp only [heligible, if_true]
    cases entityOf c.tenant asset f with
    | none => exact hr
    | some ent =>
      dsimp only
      have hclean : isStructuredNdpi (normalize f now) = false := by
        simp only [eligible, Bool.and_eq_true, Bool.not_eq_true'] at heligible
        exact heligible.2
      constructor
      · intro ent' later hlater
        dsimp only
        rw [itemsOf_put, windowOf_append, windowOf_singleton]
        by_cases heq : ent = ent'
        · subst heq
          rw [if_pos rfl, if_pos rfl, List.filter_append, hr.live ent later hlater]
        · rw [if_neg heq, if_neg heq, List.append_nil]
          exact hr.live ent' later hlater
      · exact hr.saved
      · exact hr.behind.trans (List.prefix_append _ _)
      · intro ent' x hx
        dsimp only at hx
        rw [itemsOf_put] at hx
        split at hx
        · rcases List.mem_append.mp hx with hx | hx
          · exact hr.stateClean ent x hx
          · obtain rfl := List.mem_singleton.mp hx
            exact hclean
        · exact hr.stateClean ent' x hx
      · exact hr.rowsClean
  · simp only [heligible]
    exact hr

omit [FloorRing K] in
theorem refines_persist {s : Service K} {h : History K} {past : List K} (hr : Refines c s h past) :
    Refines c s.persist { h with saved := h.live } past := by
  constructor
  · exact hr.live
  · intro ent now hnow
    have hlive := hr.live ent now hnow
    rw [itemsOf_persist]
    cases hlookup : s.state.lookup ent with
    | some items =>
      rw [itemsOf, hlookup] at hlive
      exact hlive
    | none =>
      -- what the table has kept of a pruned entity is out of the window
      rw [itemsOf, hlookup, Option.getD_none, List.filter_nil] at hlive
      obtain ⟨more, hmore⟩ := hr.behind
      have hempty : windowOf c h.saved ent now = [] := by
        rw [← hmore, windowOf_append] at hlive
        exact (List.append_eq_nil_iff.mp hlive.symm).1
      show List.filter _ (itemsOf s.rows ent) = windowOf c h.live ent now
      rw [hr.saved ent now hnow, hempty, ← hlive]
  · exact List.prefix_rfl
  · exact hr.stateClean
  · intro ent x hx
    rw [itemsOf_persist] at hx
    cases hlookup : s.state.lookup ent with
    | some items =>
      rw [hlookup] at hx
      exact hr.stateClean ent x (by rw [itemsOf, hlookup]; exact hx)
    | none =>
      rw [hlookup] at hx
      exact hr.rowsClean ent x hx

omit [FloorRing K] in
theorem refines_start {s : Service K} {h : History K} {past : List K} (hr : Refines c s h past) :
    Refines c (s.start true) { h with live := h.saved } past := by
  have hitems : ∀ ent, itemsOf (s.start true).state ent = itemsOf s.rows ent := by
    intro ent
    rw [itemsOf_start, if_pos rfl]
    apply List.filter_eq_self.mpr
    intro x hx
    simp [hr.rowsClean ent x hx]
  constructor
  · intro ent now hnow
    rw [hitems]
    exact hr.saved ent now hnow
  · exact hr.saved
  · exact List.prefix_rfl
  · intro ent x hx
    rw [hitems] at hx
    exact hr.rowsClean ent x hx
  · exact hr.rowsClean

omit [FloorRing K] in
/-- A later window is within an earlier one. -/
theorem recent_of_le [IsStrictOrderedRing K] {now later : K} (hle : now ≤ later) {x : Item K}
    (h : recent c later x = true) : recent c now x = true := by
  simp only [recent, decide_eq_true_eq] at h ⊢
  linarith

theorem refines_prune [IsStrictOrderedRing K] {s : Service K} {h : History K} {past : List K}
    (hr : Refines c s h past) (now : K) : Refines c (s.prune c now) h (past ++ [now]) := by
  have hpast : ∀ later, (∀ t ∈ past ++ [now], t ≤ later) → (∀ t ∈ past, t ≤ later) ∧ now ≤ later := by
    intro later hlater
    exact ⟨fun t ht => hlater t (List.mem_append_left _ ht), hlater now (by simp)⟩
  constructor
  · intro ent later hlater
    obtain ⟨hold, hle⟩ := hpast later hlater
    rw [itemsOf_prune, List.filter_filter, ← hr.live ent later hold]
    apply List.filter_congr
    intro x _
    by_cases hx : recent c later x = true
    · rw [hx, recent_of_le hle hx]
      rfl
    · simp [hx]
  · intro ent later hlater
    exact hr.saved ent later (hpast later hlater).1
  · exact hr.behind
  · intro ent x hx
    rw [itemsOf_prune] at hx
    exact hr.stateClean ent x (List.mem_of_mem_filter hx)
  · exact hr.rowsClean

omit [FloorRing K] in
theorem refines_congr {s s' : Service K} {h : History K} {past : List K} (hr : Refines c s h past)
    (hstate : s'.state = s.state) (hrows : s'.rows = s.rows) : Refines c s' h past := by
  obtain ⟨hlive, hsaved, hbehind, hclean, hclean'⟩ := hr
  constructor
  · rw [hstate]
    exact hlive
  · rw [hrows]
    exact hsaved
  · exact hbehind
  · rw [hstate]
    exact hclean
  · rw [hrows]
    exact hclean'

omit [Field K] [LinearOrder K] [FloorRing K] in
theorem evaluations_append (is js : List (Input K)) :
    evaluations (is ++ js) = evaluations is ++ evaluations js := List.filterMap_append

/-- The service refines its history, whatever the clock does. -/
theorem refines_after [IsStrictOrderedRing K] {inputs : List (Input K)}
    (hloads : ∀ i ∈ inputs, i.loads = true) : Refines c (Service.after c inputs) (History.after c inputs) (evaluations inputs) := by
  induction inputs using List.reverseRecOn with
  | nil => exact refines_init
  | append_singleton inputs i ih =>
    obtain ⟨hbefore, hload⟩ := List.forall_mem_append.mp hloads
    replace ih := ih hbefore
    rw [Service.after, History.after, Machine.run_snoc, Machine.run_snoc, evaluations_append]
    rw [Service.after, History.after] at ih
    cases i with
    | consume f asset now =>
      rw [show evaluations [Input.consume f asset now] = [] from rfl, List.append_nil]
      exact refines_consume ih f asset now
    | evaluate now =>
      have hpruned := refines_prune ih now
      show Refines c (Service.evaluate c (Service.prune c _ now) now) _ _
      rw [evaluate_eq]
      obtain ⟨hstate, hrows, _⟩ := foldl_offer
        (Service.prune c (Machine.run (Service.step c) Service.init inputs) now)
        (candidates c (Service.prune c (Machine.run (Service.step c) Service.init inputs) now) now)
      exact refines_congr hpruned hstate hrows
    | persist =>
      rw [show evaluations [(Input.persist : Input K)] = [] from rfl, List.append_nil]
      exact refines_persist ih
    | stop loads =>
      obtain rfl : loads = true := hload _ (List.mem_singleton_self _)
      rw [show evaluations [(Input.stop true : Input K)] = [] from rfl, List.append_nil]
      exact refines_start (refines_persist ih)
    | crash loads =>
      obtain rfl : loads = true := hload _ (List.mem_singleton_self _)
      rw [show evaluations [(Input.crash true : Input K)] = [] from rfl, List.append_nil]
      exact refines_start ih

end Refinement

/-! ### What is sent -/

variable {c}

theorem after_snoc (inputs : List (Input K)) (i : Input K) :
    Service.after c (inputs ++ [i]) = (Service.after c inputs).step c i := Machine.run_snoc _ _ _ _

/-- The step that can send, and what it sends. -/
theorem sent_step (s : Service K) (i : Input K) : ∃ new, (s.step c i).sent = s.sent ++ new ∧
    ∀ x ∈ new, ∃ now, i = .evaluate now ∧ x ∈ candidates c (s.prune c now) now := by
  cases i with
  | consume f asset now =>
    refine ⟨[], ?_, by simp⟩
    show (s.consume c f asset now).sent = _
    unfold Service.consume
    rw [List.append_nil]
    split
    · split <;> rfl
    · rfl
  | evaluate now =>
    obtain ⟨_, _, ⟨new, hnew, hmem⟩, _⟩ := foldl_offer (s.prune c now) (candidates c (s.prune c now) now)
    refine ⟨new, ?_, fun x hx => ⟨now, rfl, hmem x hx⟩⟩
    show ((s.prune c now).evaluate c now).sent = _
    rw [evaluate_eq, hnew]
    rfl
  | persist => exact ⟨[], (List.append_nil _).symm, by simp⟩
  | stop loads => exact ⟨[], (List.append_nil _).symm, by simp⟩
  | crash loads => exact ⟨[], (List.append_nil _).symm, by simp⟩

/-- What was sent was a candidate of an evaluation. -/
theorem exists_evaluation {inputs : List (Input K)} {x : Key × Outgoing K}
    (hx : x ∈ (Service.after c inputs).sent) : ∃ pre now post, inputs = pre ++ .evaluate now :: post ∧
      x ∈ candidates c ((Service.after c pre).prune c now) now := by
  obtain ⟨pre, i, post, heq, hbefore, hafter⟩ := @Machine.exists_turn _ _ (Service.step c)
    (fun s : Service K => x ∈ s.sent) .init (by simp [Service.init]) inputs hx
  obtain ⟨new, hnew, hcand⟩ := sent_step (c := c) (Service.after c pre) i
  rw [Machine.run_snoc] at hafter
  rcases List.mem_append.mp (hnew ▸ hafter) with hold | hx
  · exact absurd hold hbefore
  · obtain ⟨now, rfl, hx⟩ := hcand x hx
    exact ⟨pre, now, post, heq, hx⟩

theorem sent_prefix (inputs more : List (Input K)) :
    (Service.after c inputs).sent <+: (Service.after c (inputs ++ more)).sent := by
  induction more using List.reverseRecOn with
  | nil => rw [List.append_nil]
  | append_singleton more i ih =>
    rw [← List.append_assoc, after_snoc]
    obtain ⟨new, hnew, _⟩ := sent_step (c := c) (Service.after c (inputs ++ more)) i
    rw [hnew]
    exact ih.trans (List.prefix_append _ _)

theorem sent_of_emitted (inputs : List (Input K)) :
    ∀ k ∈ (Service.after c inputs).emitted, k ∈ (Service.after c inputs).keys := by
  have hstep : ∀ (s : Service K) (i : Input K), (∀ k ∈ s.emitted, k ∈ s.keys) →
      ∀ k ∈ (s.step c i).emitted, k ∈ (s.step c i).keys := by
    intro s i hs
    cases i with
    | consume f asset now =>
      show ∀ k ∈ (s.consume c f asset now).emitted, k ∈ (s.consume c f asset now).keys
      unfold Service.consume
      split
      · split <;> exact hs
      · exact hs
    | evaluate now =>
      show ∀ k ∈ ((s.prune c now).evaluate c now).emitted, k ∈ ((s.prune c now).evaluate c now).keys
      rw [evaluate_eq]
      apply sent_of_emitted_offer
      intro k hk
      exact hs k (List.mem_of_mem_filter hk)
    | persist => exact hs
    | stop loads =>
      intro k hk
      cases hk
    | crash loads =>
      intro k hk
      cases hk
  exact Machine.run_invariant (P := fun s : Service K => ∀ k ∈ s.emitted, k ∈ s.keys) hstep
    (fun k hk => by cases hk) inputs

/-- The candidates of an evaluation are those of the window of the history. -/
theorem candidates_after [IsStrictOrderedRing K] {pre : List (Input K)} {now : K}
    (hloads : ∀ i ∈ pre, i.loads = true) (h : ∀ t ∈ evaluations pre, t ≤ now) {x : Key × Outgoing K} :
    x ∈ candidates c ((Service.after c pre).prune c now) now ↔
      x ∈ candidatesOf c now x.1.entity (windowOf c (History.after c pre).live x.1.entity now) := by
  rw [mem_candidates, itemsOf_prune, (refines_after hloads).live x.1.entity now h]

omit [Field K] [FloorRing K] in
/-- The evaluations in front of one of a run whose clock does not go back. -/
theorem le_of_sorted {inputs pre post : List (Input K)} {now : K}
    (hclock : (evaluations inputs).Pairwise (· ≤ ·)) (h : inputs = pre ++ .evaluate now :: post) :
    ∀ t ∈ evaluations pre, t ≤ now := by
  have hsplit : evaluations inputs = evaluations pre ++ now :: evaluations post := by
    rw [h, evaluations_append]
    rfl
  rw [hsplit, List.pairwise_append] at hclock
  intro t ht
  exact hclock.2.2 t ht now List.mem_cons_self

/-- A day's window, with the decay of `halvings`. -/
def daySettings : Settings ℚ := ⟨"t", 86400, DEFAULTS, ["slips_ml"], halvings.apply⟩

def hostFinding (detector category : String) : Incoming ℚ :=
  ⟨⟨⟨⟨detector, some 5, none⟩, category⟩, some detector, "1.0", []⟩,
    some [some ⟨some "ip", some "src", some "10.0.0.5"⟩]⟩

/-- A scan and a callback of one host, with a process that ends between two
    evaluations. -/
def scanRun : List (Input ℚ) :=
  [.consume (hostFinding "horizontal_scan" "recon") none 100,
    .consume (hostFinding "beacon" "c2") none 200, .persist, .evaluate 300, .crash true, .evaluate 400]

/-- A process ends and the next one starts. -/
def Input.restarts : Input K → Bool
  | .stop _ | .crash _ => true
  | _ => false

/-- An evaluation in a later bucket was made. -/
def Closed (c : Settings K) (past : List K) (k : Key) : Prop := ∃ t ∈ past, k.bucket < bucketOf c t

theorem bucketOf_mono [IsStrictOrderedRing K] (hwindow : 0 < c.window) {t now : K} (h : t ≤ now) :
    bucketOf c t ≤ bucketOf c now :=
  Int.floor_mono (div_le_div_of_nonneg_right h hwindow.le)

/-- While its bucket is open, a key has been sent or may be sent once by each process. -/
structure Counted (c : Settings K) (s : Service K) (past : List K) (restarts : Nat) (k : Key) : Prop where
  open_ : ¬ Closed c past k → s.budget k ≤ restarts + 1
  closed : s.keys.count k ≤ restarts + 1

omit [Field K] [LinearOrder K] [FloorRing K] in
theorem count_le_budget (s : Service K) (k : Key) : s.keys.count k ≤ s.budget k := Nat.le_add_right _ _

theorem counted_evaluate [IsStrictOrderedRing K] (hwindow : 0 < c.window) {s : Service K} {past : List K}
    {restarts : Nat} {k : Key} (h : Counted c s past restarts k) {now : K} (hnow : ∀ t ∈ past, t ≤ now) :
    Counted c (s.step c (.evaluate now)) (past ++ [now]) restarts k := by
  have hstep : s.step c (.evaluate now) =
      (candidates c (s.prune c now) now).foldl Service.offer (s.prune c now) := evaluate_eq c _ now
  by_cases hbucket : k.bucket < bucketOf c now
  · -- what is sent has the bucket of this evaluation
    obtain ⟨new, hnew, hcand⟩ := sent_step (c := c) s (.evaluate now)
    have hnone : (new.map Prod.fst).count k = 0 := by
      rw [List.count_eq_zero]
      intro hmem
      obtain ⟨x, hx, hxk⟩ := List.mem_map.mp hmem
      obtain ⟨now', heq, hx⟩ := hcand x hx
      cases heq
      have hkey := (key_of_mem_candidatesOf c ((mem_candidates c).mp hx)).2
      rw [hxk] at hkey
      omega
    constructor
    · intro hopen
      exact absurd ⟨now, by simp, hbucket⟩ hopen
    · rw [Service.keys, hnew, List.map_append, List.count_append, hnone]
      exact h.closed
  · have hopen : ¬ Closed c past k := by
      intro ⟨t, ht, hlt⟩
      have hle := bucketOf_mono hwindow (hnow t ht)
      omega
    have hpruned : (s.prune c now).budget k = s.budget k := by
      have hkeep : k ∈ (s.prune c now).emitted ↔ k ∈ s.emitted := by
        simp [Service.prune, Int.not_lt.mp hbucket]
      simp only [Service.budget, hkeep]
      rfl
    have hbudget : (s.step c (.evaluate now)).budget k = s.budget k := by
      rw [hstep, budget_foldl_offer, hpruned]
    constructor
    · intro _
      rw [hbudget]
      exact h.open_ hopen
    · have hle := count_le_budget (s.step c (.evaluate now)) k
      have hopened := h.open_ hopen
      omega

/-- The steps that neither send nor forget a key. -/
theorem counted_congr {s s' : Service K} {past : List K} {restarts : Nat} {k : Key}
    (h : Counted c s past restarts k) (hsent : s'.sent = s.sent) (hemitted : s'.emitted = s.emitted) :
    Counted c s' past restarts k := by
  obtain ⟨hopen, hclosed⟩ := h
  constructor
  · simpa only [Service.budget, Service.keys, hsent, hemitted] using hopen
  · simpa only [Service.keys, hsent] using hclosed

/-- A new process has sent nothing. -/
theorem counted_start {s : Service K} {past : List K} {restarts : Nat} {k : Key}
    (h : Counted c s past restarts k) (loads : Bool) : Counted c (s.start loads) past (restarts + 1) k := by
  have hclosed := h.closed
  constructor
  · intro _
    show s.keys.count k + _ ≤ _
    simp only [Service.start, List.not_mem_nil, if_false]
    omega
  · show s.keys.count k ≤ _
    omega

/-- In a run whose clock does not go back, each process sends at most one
    finding under a key. -/
theorem count_sends_le [IsStrictOrderedRing K] (c : Settings K) (hwindow : 0 < c.window)
    {inputs : List (Input K)} (hclock : (evaluations inputs).Pairwise (· ≤ ·)) (k : Key) :
    (Service.after c inputs).keys.count k ≤ inputs.countP Input.restarts + 1 := by
  suffices h : Counted c (Service.after c inputs) (evaluations inputs) (inputs.countP Input.restarts) k
    from h.closed
  induction inputs using List.reverseRecOn with
  | nil =>
    constructor
    · intro _
      show List.count k [] + _ ≤ _
      simp [Service.after, Service.init]
    · show List.count k [] ≤ _
      simp
  | append_singleton inputs i ih =>
    rw [evaluations_append] at hclock
    have hprev := ih (List.pairwise_append.mp hclock).1
    rw [after_snoc, evaluations_append, List.countP_append]
    cases i with
    | consume f asset now =>
      rw [show evaluations [Input.consume f asset now] = [] from rfl, List.append_nil]
      apply counted_congr hprev
      · show (Service.consume c _ f asset now).sent = _
        unfold Service.consume
        split
        · split <;> rfl
        · rfl
      · show (Service.consume c _ f asset now).emitted = _
        unfold Service.consume
        split
        · split <;> rfl
        · rfl
    | evaluate now =>
      apply counted_evaluate hwindow hprev
      intro t ht
      exact (List.pairwise_append.mp hclock).2.2 t ht now (by simp [evaluations, Input.evaluated])
    | persist =>
      rw [show evaluations [(Input.persist : Input K)] = [] from rfl, List.append_nil]
      exact counted_congr hprev rfl rfl
    | stop loads =>
      rw [show evaluations [(Input.stop loads : Input K)] = [] from rfl, List.append_nil]
      have hsaved : Counted c (Service.after c inputs).persist _ _ k := counted_congr hprev rfl rfl
      exact counted_start hsaved loads
    | crash loads =>
      rw [show evaluations [(Input.crash loads : Input K)] = [] from rfl, List.append_nil]
      exact counted_start hprev loads

/-- Two processes send the chain at most twice. -/
theorem count_sends_le_scan : (Service.after daySettings scanRun).keys.count
    ⟨"t|ip:10.0.0.5", 0, "kill-chain"⟩ ≤ 2 :=
  count_sends_le daySettings (by decide +kernel)
    (show (evaluations scanRun).Pairwise (· ≤ ·) by decide +kernel) _

/-! ### Evidence -/

/-- The item is a finding that was read for the entity and let through. -/
def Consumed (c : Settings K) (inputs : List (Input K)) (ent : String) (x : Item K) : Prop :=
  ∃ f asset now, Input.consume f asset now ∈ inputs ∧ eligible f.toItem = true ∧
    entityOf c.tenant asset f = some ent ∧ x = normalize f now

omit [Field K] [LinearOrder K] [FloorRing K] in
theorem Consumed.snoc {inputs : List (Input K)} {ent : String} {x : Item K}
    (h : Consumed c inputs ent x) (i : Input K) : Consumed c (inputs ++ [i]) ent x := by
  obtain ⟨f, asset, now, hmem, hrest⟩ := h
  exact ⟨f, asset, now, List.mem_append_left _ hmem, hrest⟩

/-- Everything that is kept was consumed. -/
theorem consumed_after (inputs : List (Input K)) :
    (∀ ent, ∀ x ∈ itemsOf (Service.after c inputs).state ent, Consumed c inputs ent x) ∧
      ∀ ent, ∀ x ∈ itemsOf (Service.after c inputs).rows ent, Consumed c inputs ent x := by
  induction inputs using List.reverseRecOn with
  | nil =>
    constructor
    · intro ent x hx
      cases hx
    · intro ent x hx
      cases hx
  | append_singleton inputs i ih =>
    obtain ⟨hstate, hrows⟩ := ih
    rw [after_snoc]
    generalize Service.after c inputs = s at hstate hrows ⊢
    have hrows' : ∀ ent, ∀ x ∈ itemsOf s.rows ent, Consumed c (inputs ++ [i]) ent x :=
      fun ent x hx => (hrows ent x hx).snoc i
    have hstart : ∀ (s : Service K) (loads : Bool) ent, ∀ x ∈ itemsOf (s.start loads).state ent,
        x ∈ itemsOf s.rows ent := by
      intro s loads ent x hx
      rw [itemsOf_start] at hx
      cases loads with
      | false => cases hx
      | true => exact List.mem_of_mem_filter hx
    have hpersist : ∀ ent, ∀ x ∈ itemsOf s.persist.rows ent, Consumed c (inputs ++ [i]) ent x := by
      intro ent x hx
      rw [itemsOf_persist] at hx
      cases hlookup : s.state.lookup ent with
      | some items =>
        rw [hlookup] at hx
        exact (hstate ent x (by rw [itemsOf, hlookup]; exact hx)).snoc i
      | none =>
        rw [hlookup] at hx
        exact hrows' ent x hx
    cases i with
    | consume f asset now =>
      show (∀ ent, ∀ x ∈ itemsOf (s.consume c f asset now).state ent, _) ∧
        ∀ ent, ∀ x ∈ itemsOf (s.consume c f asset now).rows ent, _
      unfold Service.consume
      by_cases heligible : eligible f.toItem = true
      · simp only [heligible, if_true]
        cases hent : entityOf c.tenant asset f with
        | none => exact ⟨fun ent x hx => (hstate ent x hx).snoc _, hrows'⟩
        | some ent =>
          refine ⟨?_, hrows'⟩
          intro ent' x hx
          dsimp only at hx
          rw [itemsOf_put] at hx
          split at hx
          · next heq =>
            subst heq
            rcases List.mem_append.mp hx with hx | hx
            · exact (hstate ent x hx).snoc _
            · exact ⟨f, asset, now, by simp, heligible, hent, List.mem_singleton.mp hx⟩
          · exact (hstate ent' x hx).snoc _
      · simp only [heligible]
        exact ⟨fun ent x hx => (hstate ent x hx).snoc _, hrows'⟩
    | evaluate now =>
      show (∀ ent, ∀ x ∈ itemsOf ((s.prune c now).evaluate c now).state ent, _) ∧
        ∀ ent, ∀ x ∈ itemsOf ((s.prune c now).evaluate c now).rows ent, _
      rw [evaluate_eq]
      obtain ⟨hsame, hsame', _⟩ := foldl_offer (s.prune c now) (candidates c (s.prune c now) now)
      rw [hsame, hsame']
      refine ⟨?_, hrows'⟩
      intro ent x hx
      rw [itemsOf_prune] at hx
      exact (hstate ent x (List.mem_of_mem_filter hx)).snoc _
    | persist => exact ⟨fun ent x hx => (hstate ent x hx).snoc _, hpersist⟩
    | stop loads => exact ⟨fun ent x hx => hpersist ent x (hstart _ loads ent x hx), hpersist⟩
    | crash loads => exact ⟨fun ent x hx => hrows' ent x (hstart _ loads ent x hx), hrows'⟩

/-- What a candidate cites, and who it says it is from. -/
theorem evidence_of_candidate {now : K} {ent : String} {items : List (Item K)} {x : Key × Outgoing K}
    (h : x ∈ candidatesOf c now ent items) : x.2.detectorId ∈ CORRELATION_SOURCES ∧ x.2.lastSeen = now ∧
      ∀ id ∈ x.2.evidenceRefs, ∃ y ∈ items, y.findingId = some id := by
  unfold candidatesOf at h
  dsimp only at h
  rcases List.mem_append.mp h with h | h
  · split at h
    · obtain rfl := List.mem_singleton.mp h
      refine ⟨by simp [buildIncident, CORRELATION_SOURCES], rfl, ?_⟩
      intro id hid
      obtain ⟨y, hy, href⟩ := List.mem_filterMap.mp hid
      exact ⟨y, List.mem_of_mem_filter hy, (Option.filter_eq_some_iff.mp href).1⟩
    · cases h
  · obtain ⟨g, hg, rfl⟩ := List.mem_map.mp h
    refine ⟨by simp [buildCorroboration, CORRELATION_SOURCES], rfl, ?_⟩
    intro id hid
    obtain ⟨y, hy, _, href⟩ := findingIds_of_mem hg hid
    exact ⟨y, hy, href⟩

/-- The input is not a finding that the service itself has sent. -/
def Input.foreign : Input K → Bool
  | .consume f _ _ => !isCorrelation f.toReport
  | _ => true

/-- In any run, what a sent finding cites are findings that were read for its
    entity within the window and that promotion is open to. What is sent is
    none of them: the service is the same when its own findings come back. -/
theorem evidence_sound (c : Settings K) (inputs : List (Input K)) :
    (∀ x ∈ (Service.after c inputs).sent, x.2.detectorId ∈ CORRELATION_SOURCES ∧
      ∀ id ∈ x.2.evidenceRefs, ∃ f asset now, Input.consume f asset now ∈ inputs ∧
        eligible f.toItem = true ∧ entityOf c.tenant asset f = some x.1.entity ∧
        f.findingId = some id ∧ x.2.lastSeen - now ≤ c.window) ∧
    Service.after c inputs = Service.after c (inputs.filter Input.foreign) := by
  constructor
  · intro x hx
    obtain ⟨pre, now, post, heq, hx⟩ := exists_evaluation hx
    rw [mem_candidates, itemsOf_prune] at hx
    obtain ⟨hdet, hlast, hrefs⟩ := evidence_of_candidate hx
    refine ⟨hdet, fun id hid => ?_⟩
    obtain ⟨y, hy, hyid⟩ := hrefs id hid
    obtain ⟨hy, hrecent⟩ := List.mem_filter.mp hy
    obtain ⟨f, asset, t, hmem, heligible, hent, rfl⟩ := (consumed_after (c := c) pre).1 _ y hy
    refine ⟨f, asset, t, ?_, heligible, hent, hyid, ?_⟩
    · rw [heq]
      exact List.mem_append_left _ hmem
    · rw [hlast]
      exact of_decide_eq_true hrecent
  · induction inputs using List.reverseRecOn with
    | nil => rfl
    | append_singleton inputs i ih =>
      rw [after_snoc, ih, List.filter_append]
      by_cases hforeign : Input.foreign i = true
      · rw [List.filter_cons_of_pos hforeign, List.filter_nil, after_snoc]
      · rw [List.filter_cons_of_neg hforeign, List.filter_nil, List.append_nil]
        cases i with
        | consume f asset now =>
          have hcorr : isCorrelation f.toReport = true := by simpa [Input.foreign] using hforeign
          show Service.consume c _ f asset now = _
          rw [Service.consume, if_neg (by simp [eligible, hcorr])]
        | evaluate now => exact absurd rfl hforeign
        | persist => exact absurd rfl hforeign
        | stop loads => exact absurd rfl hforeign
        | crash loads => exact absurd rfl hforeign

end Correlation
