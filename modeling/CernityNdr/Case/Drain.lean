import CernityNdr.Case.Store
import CernityNdr.Framework.Mutex
import CernityNdr.Framework.Run

/-! # Draining the Outbox

    The model of `drain_dispositions` next to `mutate` and `create`: any
    number of drains on one store, each of them a thread that stops between
    its lock-protected sections and at every call of `deliver`. A drain works
    on a snapshot of the pending rows; it claims a row in memory, delivers it
    outside the lock, marks it when the receiver has accepted it, and drops
    the claim in a `finally`. The UPDATE that marks a row does not raise.

    * `Inv`: a claim is held by exactly one drain, and an accepted id is
      marked or its drain is about to mark it.
    * `handed_over_once`: no row is lost, none is accepted twice, none is
      marked before it is accepted, and no claim outlives its drain. -/

namespace CaseManagement

/-! ### Drains -/

/-- What one call of `deliver` does. -/
inductive Delivery
  | accepts
  | declines
  /-- raises an `Exception` -/
  | raises
  /-- raises a `BaseException`, which only the `finally` sees -/
  | interrupted
deriving DecidableEq, Repr

/-- Where a drain is, with the rows of its snapshot that are left and the
    count it will return. -/
inductive Phase
  /-- not called, or exited -/
  | outside
  /-- before the section that claims the next row -/
  | walking (rest : List DispRow) (accepted : Nat)
  /-- before the next call of `deliver` for a claimed row -/
  | delivering (row : DispRow) (attempt : Nat) (rest : List DispRow) (accepted : Nat)
  /-- before the section that marks an accepted row -/
  | marking (row : DispRow) (rest : List DispRow) (accepted : Nat)
  /-- before the section that drops the claim -/
  | releasing (row : DispRow) (rest : List DispRow) (accepted : Nat) (interrupted : Bool)
deriving DecidableEq

namespace Phase

/-- The id that the drain has claimed. -/
def held : Phase → Option String
  | delivering row _ _ _ => some row.id
  | marking row _ _ => some row.id
  | releasing row _ _ _ => some row.id
  | _ => none

/-- The id that the drain is delivering. -/
def attempted : Phase → Option String
  | delivering row _ _ _ => some row.id
  | _ => none

/-- The id that the drain is about to mark. -/
def toMark : Phase → Option String
  | marking row _ _ => some row.id
  | _ => none

/-- `for attempt in range(max_attempts)`: another attempt, or give up. -/
def retry (max : Nat) (row : DispRow) (attempt : Nat) (rest : List DispRow) (accepted : Nat) :
    Phase :=
  if attempt < max then delivering row attempt rest accepted
  else releasing row rest accepted false

end Phase

structure DrainCall where
  maxAttempts : Nat
  phase : Phase

/-! ### The store and its drains -/

/-- The store, `_claimed`, the drains, and the ids for which `deliver` has
    returned true, in order. -/
structure Service (ι : Type) where
  store : CaseStore
  claimed : Finset String
  drains : ι → DrainCall
  acceptances : List String

namespace Service

variable {ι : Type}

def initial : Service ι where
  store := .empty
  claimed := ∅
  drains := fun _ => ⟨0, .outside⟩
  acceptances := []

/-- A lock-protected section, or a call of `deliver`. -/
inductive Event (ι : Type)
  | create (case : CaseDoc) (fault : Fault)
  | mutate (caseId : String) (tenants : List String) (fn : CaseStore.Mutation) (fault : Fault)
  /-- a drain is called and takes its snapshot -/
  | call (d : ι) (tenant : String) (tenants : List String) (maxAttempts : Nat)
  | claim (d : ι)
  | deliver (d : ι) (result : Delivery)
  | mark (d : ι)
  | release (d : ι)

variable [DecidableEq ι] (sha1 : List Char → String)

def setPhase (s : Service ι) (d : ι) (phase : Phase) : Service ι :=
  { s with drains := Function.update s.drains d { s.drains d with phase := phase } }

/-- The section that claims `row` unless it is claimed or delivered. -/
def claimRow (s : Service ι) (d : ι) (row : DispRow) (rest : List DispRow) (accepted : Nat) :
    Service ι :=
  if row.id ∈ s.claimed then s.setPhase d (.walking rest accepted)
  else
    match s.store.view.dispositions.get? row.id with
    | none => s.setPhase d (.walking rest accepted)
    | some still =>
      if still.delivered then s.setPhase d (.walking rest accepted)
      else { s.setPhase d (.retry (s.drains d).maxAttempts row 0 rest accepted) with
             claimed := insert row.id s.claimed }

/-- One step. An event that is not the next one of its drain changes nothing. -/
def step (s : Service ι) : Event ι → Service ι
  | .create case fault => { s with store := (s.store.create case fault).2 }
  | .mutate caseId tenants fn fault =>
    { s with store := (s.store.mutate sha1 caseId tenants fn fault).2 }
  | .call d tenant tenants maxAttempts =>
    match (s.drains d).phase with
    | .outside =>
      if tenant ∈ tenants then
        { s with drains := Function.update s.drains d
                   ⟨maxAttempts, .walking (s.store.pendingRows tenant) 0⟩ }
      else s
    | _ => s
  | .claim d =>
    match (s.drains d).phase with
    | .walking [] _ => s.setPhase d .outside
    | .walking (row :: rest) accepted => s.claimRow d row rest accepted
    | _ => s
  | .deliver d result =>
    match (s.drains d).phase with
    | .delivering row attempt rest accepted =>
      match result with
      | .accepts =>
        { s.setPhase d (.marking row rest accepted) with acceptances := s.acceptances ++ [row.id] }
      | .declines | .raises =>
        s.setPhase d (.retry (s.drains d).maxAttempts row (attempt + 1) rest accepted)
      | .interrupted => s.setPhase d (.releasing row rest accepted true)
    | _ => s
  | .mark d =>
    match (s.drains d).phase with
    | .marking row rest accepted =>
      { s.setPhase d (.releasing row rest (accepted + 1) false) with
        store := (s.store.writeOrRollback Statement.apply [.markDelivered row.id] none).2 }
    | _ => s
  | .release d =>
    match (s.drains d).phase with
    | .releasing row rest accepted interrupted =>
      { s.setPhase d (if interrupted then .outside else .walking rest accepted) with
        claimed := s.claimed.erase row.id }
    | _ => s

end Service

/-! ### Phases -/

namespace Phase

theorem held_of_attempted {p : Phase} {id : String} (h : p.attempted = some id) :
    p.held = some id := by
  cases p with
  | delivering row attempt rest accepted => exact h
  | _ => cases h

theorem held_of_toMark {p : Phase} {id : String} (h : p.toMark = some id) : p.held = some id := by
  cases p with
  | marking row rest accepted => exact h
  | _ => cases h

@[simp] theorem held_retry (max : Nat) (row : DispRow) (attempt : Nat) (rest : List DispRow)
    (accepted : Nat) : (retry max row attempt rest accepted).held = some row.id := by
  unfold retry
  split <;> rfl

@[simp] theorem toMark_retry (max : Nat) (row : DispRow) (attempt : Nat) (rest : List DispRow)
    (accepted : Nat) : (retry max row attempt rest accepted).toMark = none := by
  unfold retry
  split <;> rfl

theorem attempted_retry {max attempt accepted : Nat} {row : DispRow} {rest : List DispRow}
    {id : String} (h : (retry max row attempt rest accepted).attempted = some id) :
    id = row.id := by
  unfold retry at h
  split at h
  · exact (Option.some.inj h).symm
  · cases h

end Phase

section Rounds

variable {ι : Type} [DecidableEq ι] {phases : ι → Phase} {d : ι} {p : Phase}

/-- What one drain's next phase changes in a view of all phases. -/
theorem view_update {α : Type} (view : Phase → α) (phases : ι → Phase) (d : ι) (p : Phase) :
    (fun d' => view (Function.update phases d p d')) =
      Function.update (fun d' => view (phases d')) d (view p) := by
  funext d'
  exact Function.apply_update (fun _ => view) phases d p d'

/-- A view that the phase keeps. -/
theorem view_update_of_eq {α : Type} (view : Phase → α) (h : view p = view (phases d)) :
    (fun d' => view (Function.update phases d p d')) = fun d' => view (phases d') := by
  rw [view_update, h]
  exact Function.update_eq_self d _

/-! ### Handing over -/

/-- How the rows, the acceptances and the drains fit together. -/
structure Handover (rows : Registry DispRow.id) (acceptances : List String)
    (phases : ι → Phase) : Prop where
  attempting : ∀ d id, (phases d).attempted = some id →
    id ∉ acceptances ∧ ∃ row, rows.get? id = some row
  marking : ∀ d id, (phases d).toMark = some id →
    id ∈ acceptances ∧ ∃ row, rows.get? id = some row
  /-- what is marked has been accepted -/
  marked : ∀ id row, rows.get? id = some row → row.delivered = true → id ∈ acceptances
  /-- what has been accepted is marked, or is about to be -/
  settled : ∀ id ∈ acceptances, (∃ row, rows.get? id = some row ∧ row.delivered = true) ∨
    ∃ d, (phases d).toMark = some id
  once : acceptances.Nodup

variable {rows : Registry DispRow.id} {acceptances : List String}

omit [DecidableEq ι] in
/-- New rows come undelivered. -/
theorem Handover.extend (h : Handover rows acceptances phases) {t t' : Tables}
    (ht : t.dispositions = rows) (hext : t.Extends t') :
    Handover t'.dispositions acceptances phases := by
  subst ht
  have hkeep : ∀ id, (∃ row, t.dispositions.get? id = some row) →
      ∃ row, t'.dispositions.get? id = some row := by
    rintro id ⟨row, hrow⟩
    exact ⟨row, hext.old id row hrow⟩
  constructor
  · intro d id hid
    exact (h.attempting d id hid).imp_right (hkeep id)
  · intro d id hid
    exact (h.marking d id hid).imp_right (hkeep id)
  · intro id row hrow hdelivered
    rcases hext.added id row hrow with hold | ⟨-, hnew⟩
    · exact h.marked id row hold hdelivered
    · rw [hnew] at hdelivered
      cases hdelivered
  · intro id hid
    rcases h.settled id hid with ⟨row, hrow, hdelivered⟩ | hmark
    · exact Or.inl ⟨row, hext.old id row hrow, hdelivered⟩
    · exact Or.inr hmark
  · exact h.once

/-- A drain that is not about to mark goes on, and attempts at most a row
    that nobody has accepted. -/
theorem Handover.goOn (h : Handover rows acceptances phases) (hd : (phases d).toMark = none)
    (hmark : p.toMark = none) (hattempt : ∀ id, p.attempted = some id →
      id ∉ acceptances ∧ ∃ row, rows.get? id = some row) :
    Handover rows acceptances (Function.update phases d p) := by
  have hsame : ∀ d', (Function.update phases d p d').toMark = (phases d').toMark :=
    congrFun (view_update_of_eq Phase.toMark (hmark.trans hd.symm))
  constructor
  · intro d' id hid
    by_cases heq : d' = d
    · rw [heq, Function.update_self] at hid
      exact hattempt id hid
    · rw [Function.update_of_ne heq] at hid
      exact h.attempting d' id hid
  · intro d' id hid
    rw [hsame] at hid
    exact h.marking d' id hid
  · exact h.marked
  · intro id hid
    simp only [hsame]
    exact h.settled id hid
  · exact h.once

/-- The receiver accepts the row that a drain delivers. -/
theorem Handover.accept (h : Handover rows acceptances phases)
    {claimed : Finset String} (hexcl : Exclusive claimed fun d => (phases d).held) {id : String}
    (hd : (phases d).attempted = some id) (hmark : p.toMark = some id)
    (hattempt : p.attempted = none) :
    Handover rows (acceptances ++ [id]) (Function.update phases d p) := by
  obtain ⟨hnew, hrow⟩ := h.attempting d id hd
  constructor
  · intro d' id' hid
    by_cases heq : d' = d
    · rw [heq, Function.update_self, hattempt] at hid
      cases hid
    · rw [Function.update_of_ne heq] at hid
      obtain ⟨hnot, hrow'⟩ := h.attempting d' id' hid
      refine ⟨?_, hrow'⟩
      simp only [List.mem_append, List.mem_singleton, not_or]
      refine ⟨hnot, fun hsame => heq ?_⟩
      rw [hsame] at hid
      exact hexcl.unique d' d id (Phase.held_of_attempted hid) (Phase.held_of_attempted hd)
  · intro d' id' hid
    by_cases heq : d' = d
    · rw [heq, Function.update_self, hmark] at hid
      cases hid
      exact ⟨by simp, hrow⟩
    · rw [Function.update_of_ne heq] at hid
      exact (h.marking d' id' hid).imp_left (List.mem_append_left _)
  · intro id' row hrow' hdelivered
    exact List.mem_append_left _ (h.marked id' row hrow' hdelivered)
  · intro id' hid
    rcases List.mem_append.mp hid with hid | hid
    · rcases h.settled id' hid with hdone | ⟨d', hd'⟩
      · exact Or.inl hdone
      · have hne : d' ≠ d := by
          -- a drain that delivers is not about to mark
          intro heq
          rw [heq] at hd'
          cases hphase : phases d with
          | delivering row attempt rest accepted =>
            rw [hphase] at hd'
            cases hd'
          | _ =>
            rw [hphase] at hd
            cases hd
        exact Or.inr ⟨d', by rw [Function.update_of_ne hne, hd']⟩
    · rw [List.mem_singleton.mp hid]
      exact Or.inr ⟨d, by rw [Function.update_self, hmark]⟩
  · rw [List.nodup_append]
    refine ⟨h.once, List.nodup_singleton _, ?_⟩
    intro a ha b hb hab
    rw [List.mem_singleton.mp hb] at hab
    exact hnew (hab ▸ ha)

/-- A drain marks the row that was accepted. -/
theorem Handover.mark (h : Handover rows acceptances phases) {id : String} {row : DispRow}
    (hd : (phases d).toMark = some id) (hrow : rows.get? id = some row) (hmark : p.toMark = none)
    (hattempt : p.attempted = none) :
    Handover (rows.put { row with delivered := true }) acceptances
      (Function.update phases d p) := by
  have hkey : row.id = id := Registry.keyOf_of_get? hrow
  have hget : ∀ id', (rows.put { row with delivered := true }).get? id' =
      if id = id' then some { row with delivered := true } else rows.get? id' := by
    intro id'
    rw [Registry.get?_put]
    show (if row.id = id' then _ else _) = _
    rw [hkey]
  have hkeep : ∀ id', (∃ r, rows.get? id' = some r) →
      ∃ r, (rows.put { row with delivered := true }).get? id' = some r := by
    intro id' hr
    rw [hget]
    by_cases hid : id = id'
    · exact ⟨_, if_pos hid⟩
    · rwa [if_neg hid]
  constructor
  · intro d' id' hid
    by_cases heq : d' = d
    · rw [heq, Function.update_self, hattempt] at hid
      cases hid
    · rw [Function.update_of_ne heq] at hid
      exact (h.attempting d' id' hid).imp_right (hkeep id')
  · intro d' id' hid
    by_cases heq : d' = d
    · rw [heq, Function.update_self, hmark] at hid
      cases hid
    · rw [Function.update_of_ne heq] at hid
      exact (h.marking d' id' hid).imp_right (hkeep id')
  · intro id' r hr hdelivered
    rw [hget] at hr
    by_cases hid : id = id'
    · rw [← hid]
      exact (h.marking d id hd).1
    · rw [if_neg hid] at hr
      exact h.marked id' r hr hdelivered
  · intro id' hid'
    by_cases hid : id = id'
    · exact Or.inl ⟨_, by rw [hget, if_pos hid], rfl⟩
    · rcases h.settled id' hid' with ⟨r, hr, hdelivered⟩ | ⟨d', hd'⟩
      · exact Or.inl ⟨r, by rw [hget, if_neg hid, hr], hdelivered⟩
      · have hne : d' ≠ d := by
          intro heq
          rw [heq, hd] at hd'
          exact hid (Option.some.inj hd')
        exact Or.inr ⟨d', by rw [Function.update_of_ne hne, hd']⟩
  · exact h.once

end Rounds

/-! ### What a section leaves of the outbox -/

namespace CaseStore

variable {s : CaseStore}

theorem create_extends (hclean : s.Clean) (case : CaseDoc) (fault : Fault) :
    s.view.Extends (s.create case fault).2.view ∧ (s.create case fault).2.Clean := by
  unfold create
  split
  · rw [hclean.rollback_eq]
    exact ⟨.refl _, hclean⟩
  · split
    · next hw =>
      obtain ⟨-, rfl⟩ := Connection.writeOrRollback_eq_ok hw
      exact ⟨.of_eq rfl, Connection.clean_commit _⟩
    · next hw =>
      obtain ⟨-, rfl⟩ := Connection.writeOrRollback_eq_error hw
      rw [hclean.rollback_eq]
      exact ⟨.refl _, hclean⟩

theorem Mutated.view_extends {sha1 : List Char → String} {s' : CaseStore} {caseId : String}
    {tenants : List String} {fn : Mutation} {res : Except CaseError (Option CaseDoc)}
    (h : Mutated sha1 s caseId tenants fn res s') : s.view.Extends s'.view := by
  cases h with
  | absent _ => exact .refl _
  | raised _ => exact .refl _
  | stored row new records _ _ _ => exact extends_statements _ records

theorem mutate_extends {sha1 : List Char → String} (hclean : s.Clean) (caseId : String)
    (tenants : List String) (fn : Mutation) (fault : Fault) :
    s.view.Extends (s.mutate sha1 caseId tenants fn fault).2.view ∧
      (s.mutate sha1 caseId tenants fn fault).2.Clean := by
  have hcases : Mutated sha1 s caseId tenants fn _ _ := mutate_cases sha1 hclean caseId tenants fn fault
  exact ⟨hcases.view_extends, hcases.clean hclean⟩

/-- The store after a row was marked. -/
theorem markDelivered_eq {id : String} {row : DispRow}
    (hrow : s.view.dispositions.get? id = some row) :
    (s.writeOrRollback Statement.apply [.markDelivered id] none).2 =
      .fresh { s.view with dispositions :=
        s.view.dispositions.put { row with delivered := true } } := by
  show Connection.fresh (Statement.apply s.view (.markDelivered id)) = _
  simp only [Statement.apply, hrow]

theorem mem_pendingRows {tenant : String} {row : DispRow} :
    row ∈ s.pendingRows tenant ↔
      s.view.dispositions.get? row.id = some row ∧ row.tenant = tenant ∧ row.delivered = false := by
  unfold pendingRows
  rw [(List.perm_insertionSort _ _).mem_iff, List.mem_filter, Registry.get?_eq_some]
  simp

end CaseStore

/-! ### The invariant -/

namespace Service

variable {ι : Type} [DecidableEq ι] {sha1 : List Char → String} {s : Service ι} {d : ι} {p : Phase}

/-- Where every drain is. -/
def phases (s : Service ι) (d : ι) : Phase := (s.drains d).phase

omit [DecidableEq ι] in
theorem phases_eq (s : Service ι) (d : ι) : (s.drains d).phase = s.phases d := rfl

/-- Nothing is open, a claim is held by one drain, and rows, acceptances and
    drains fit together. -/
structure Inv (s : Service ι) : Prop where
  clean : s.store.Clean
  claims : Exclusive s.claimed fun d => (s.phases d).held
  rows : Handover s.store.view.dispositions s.acceptances s.phases

omit [DecidableEq ι] in
theorem inv_initial : (initial : Service ι).Inv where
  clean := Connection.clean_fresh _
  claims := Exclusive.initial
  rows := by
    constructor
    · intro d id h
      cases h
    · intro d id h
      cases h
    · intro id row h
      cases h
    · intro id h
      cases h
    · exact List.nodup_nil

/-- The drains after one of them went on. -/
theorem phases_update (s : Service ι) (d : ι) (call : DrainCall) :
    ({ s with drains := Function.update s.drains d call } : Service ι).phases =
      Function.update s.phases d call.phase := by
  funext d'
  exact Function.apply_update (fun _ => DrainCall.phase) s.drains d call d'

theorem phases_setPhase (s : Service ι) (d : ι) (p : Phase) :
    (s.setPhase d p).phases = Function.update s.phases d p := phases_update s d _

/-- A drain goes on with the claim that it has, and attempts at most a row
    that nobody has accepted. -/
theorem Inv.goOn (h : s.Inv) {call : DrainCall} (hheld : call.phase.held = (s.phases d).held)
    (hd : (s.phases d).toMark = none) (hmark : call.phase.toMark = none)
    (hattempt : ∀ id, call.phase.attempted = some id →
      id ∉ s.acceptances ∧ ∃ row, s.store.view.dispositions.get? id = some row) :
    ({ s with drains := Function.update s.drains d call } : Service ι).Inv where
  clean := h.clean
  claims := by
    rw [phases_update, view_update_of_eq _ hheld]
    exact h.claims
  rows := by
    rw [phases_update]
    exact h.rows.goOn hd hmark hattempt

omit [DecidableEq ι] in
/-- A section that only adds undelivered rows. -/
theorem Inv.extend (h : s.Inv) {store : CaseStore} (hext : s.store.view.Extends store.view)
    (hclean : store.Clean) : ({ s with store := store } : Service ι).Inv where
  clean := hclean
  claims := h.claims
  rows := h.rows.extend rfl hext

/-- A claimed row is one that nobody has accepted. -/
theorem Inv.claim (h : s.Inv) {row : DispRow} {rest : List DispRow} {accepted : Nat}
    (hphase : s.phases d = .walking (row :: rest) accepted) :
    (s.claimRow d row rest accepted).Inv := by
  have hskip : (s.setPhase d (.walking rest accepted)).Inv := by
    apply h.goOn
    · rw [hphase]
      rfl
    · rw [hphase]
      rfl
    · rfl
    · exact fun id hid => nomatch hid
  unfold claimRow
  by_cases hclaimed : row.id ∈ s.claimed
  · rw [if_pos hclaimed]
    exact hskip
  · rw [if_neg hclaimed]
    cases hrow : s.store.view.dispositions.get? row.id with
    | none => exact hskip
    | some still =>
      simp only
      by_cases hdelivered : still.delivered = true
      · rw [if_pos hdelivered]
        exact hskip
      · rw [if_neg hdelivered]
        have hnew : row.id ∉ s.acceptances := by
          intro haccepted
          rcases h.rows.settled row.id haccepted with ⟨r, hr, hmarked⟩ | ⟨d', hd'⟩
          · rw [hrow] at hr
            cases hr
            exact hdelivered hmarked
          · exact hclaimed ((h.claims.held_iff row.id).mpr ⟨d', Phase.held_of_toMark hd'⟩)
        have hnone : (s.phases d).held = none := by
          rw [hphase]
          rfl
        constructor
        · exact h.clean
        · show Exclusive _ fun d' => ((s.setPhase d _).phases d').held
          rw [phases_setPhase, view_update, Phase.held_retry]
          exact h.claims.take hclaimed hnone
        · show Handover _ _ (s.setPhase d _).phases
          rw [phases_setPhase]
          apply h.rows.goOn
          · rw [hphase]
            rfl
          · exact Phase.toMark_retry ..
          · intro id hid
            rw [Phase.attempted_retry hid]
            exact ⟨hnew, still, hrow⟩

theorem Inv.accept (h : s.Inv) {row : DispRow} {attempt accepted : Nat} {rest : List DispRow}
    (hphase : s.phases d = .delivering row attempt rest accepted) :
    ({ s.setPhase d (.marking row rest accepted) with
       acceptances := s.acceptances ++ [row.id] } : Service ι).Inv where
  clean := h.clean
  claims := by
    show Exclusive s.claimed fun d' => ((s.setPhase d _).phases d').held
    have hheld : (Phase.marking row rest accepted).held = (s.phases d).held := by
      rw [hphase]
      rfl
    rw [phases_setPhase, view_update_of_eq _ hheld]
    exact h.claims
  rows := by
    show Handover _ _ (s.setPhase d _).phases
    rw [phases_setPhase]
    apply h.rows.accept h.claims
    · rw [hphase]
      rfl
    · rfl
    · rfl

theorem Inv.mark (h : s.Inv) {row : DispRow} {rest : List DispRow} {accepted : Nat}
    (hphase : s.phases d = .marking row rest accepted) :
    ({ s.setPhase d (.releasing row rest (accepted + 1) false) with
       store := (s.store.writeOrRollback Statement.apply [.markDelivered row.id] none).2 } :
      Service ι).Inv := by
  have hmark : (s.phases d).toMark = some row.id := by
    rw [hphase]
    rfl
  obtain ⟨-, r, hr⟩ := h.rows.marking d row.id hmark
  rw [CaseStore.markDelivered_eq hr]
  constructor
  · exact Connection.clean_fresh _
  · show Exclusive s.claimed fun d' => ((s.setPhase d _).phases d').held
    have hheld : (Phase.releasing row rest (accepted + 1) false).held = (s.phases d).held := by
      rw [hphase]
      rfl
    rw [phases_setPhase, view_update_of_eq _ hheld]
    exact h.claims
  · show Handover _ _ (s.setPhase d _).phases
    rw [phases_setPhase]
    exact h.rows.mark hmark hr rfl rfl

theorem Inv.release (h : s.Inv) {row : DispRow} {rest : List DispRow} {accepted : Nat}
    {interrupted : Bool} (hphase : s.phases d = .releasing row rest accepted interrupted) :
    ({ s.setPhase d (if interrupted then .outside else .walking rest accepted) with
       claimed := s.claimed.erase row.id } : Service ι).Inv := by
  generalize hp : (if interrupted then Phase.outside else .walking rest accepted) = p
  have hidle : p.held = none ∧ p.attempted = none ∧ p.toMark = none := by
    rw [← hp]
    cases interrupted with
    | true => exact ⟨rfl, rfl, rfl⟩
    | false => exact ⟨rfl, rfl, rfl⟩
  constructor
  · exact h.clean
  · show Exclusive _ fun d' => ((s.setPhase d _).phases d').held
    rw [phases_setPhase, view_update, hidle.1]
    apply h.claims.drop
    rw [hphase]
    rfl
  · show Handover _ _ (s.setPhase d _).phases
    rw [phases_setPhase]
    apply h.rows.goOn
    · rw [hphase]
      rfl
    · exact hidle.2.2
    · intro id hid
      rw [hidle.2.1] at hid
      cases hid

theorem inv_step (h : s.Inv) (event : Event ι) : (s.step sha1 event).Inv := by
  cases event with
  | create case fault =>
    obtain ⟨hext, hclean⟩ := CaseStore.create_extends h.clean case fault
    exact h.extend hext hclean
  | mutate caseId tenants fn fault =>
    obtain ⟨hext, hclean⟩ := CaseStore.mutate_extends h.clean caseId tenants fn fault
    exact h.extend hext hclean
  | call d tenant tenants maxAttempts =>
    simp only [step, phases_eq]
    split
    · next hphase =>
      split
      · apply h.goOn
        · rw [hphase]
          rfl
        · rw [hphase]
          rfl
        · rfl
        · exact fun id hid => nomatch hid
      · exact h
    · exact h
  | claim d =>
    simp only [step, phases_eq]
    split
    · next hphase =>
      apply h.goOn
      · rw [hphase]
        rfl
      · rw [hphase]
        rfl
      · rfl
      · exact fun id hid => nomatch hid
    · next hphase => exact h.claim hphase
    · exact h
  | deliver d result =>
    simp only [step, phases_eq]
    split
    · next row attempt rest accepted hphase =>
      have hattempted := h.rows.attempting d row.id (by rw [hphase]; rfl)
      have hagain : (s.setPhase d (.retry (s.drains d).maxAttempts row (attempt + 1) rest
          accepted)).Inv := by
        apply h.goOn
        · rw [hphase]
          exact Phase.held_retry ..
        · rw [hphase]
          rfl
        · exact Phase.toMark_retry ..
        · intro id hid
          rw [Phase.attempted_retry hid]
          exact hattempted
      cases result with
      | accepts => exact h.accept hphase
      | declines => exact hagain
      | raises => exact hagain
      | interrupted =>
        apply h.goOn
        · rw [hphase]
          rfl
        · rw [hphase]
          rfl
        · rfl
        · exact fun id hid => nomatch hid
    · exact h
  | mark d =>
    simp only [step, phases_eq]
    split
    · next hphase => exact h.mark hphase
    · exact h
  | release d =>
    simp only [step, phases_eq]
    split
    · next hphase => exact h.release hphase
    · exact h

/-! ### No row is lost -/

/-- A row stays, with its tenant and its record. -/
def RowsKept (rows rows' : Registry DispRow.id) : Prop :=
  ∀ id row, rows.get? id = some row →
    ∃ row', rows'.get? id = some row' ∧ row'.tenant = row.tenant ∧ row'.record = row.record

theorem RowsKept.refl (rows : Registry DispRow.id) : RowsKept rows rows :=
  fun _ row h => ⟨row, h, rfl, rfl⟩

theorem RowsKept.trans {rows rows' rows'' : Registry DispRow.id} (h : RowsKept rows rows')
    (h' : RowsKept rows' rows'') : RowsKept rows rows'' := by
  intro id row hrow
  obtain ⟨row', hrow', htenant, hrecord⟩ := h id row hrow
  obtain ⟨row'', hrow'', htenant', hrecord'⟩ := h' id row' hrow'
  exact ⟨row'', hrow'', htenant'.trans htenant, hrecord'.trans hrecord⟩

theorem rowsKept_of_extends {t t' : Tables} (h : t.Extends t') :
    RowsKept t.dispositions t'.dispositions :=
  fun id row hrow => ⟨row, h.old id row hrow, rfl, rfl⟩

theorem rowsKept_mark {rows : Registry DispRow.id} {id : String} {row : DispRow}
    (hrow : rows.get? id = some row) : RowsKept rows (rows.put { row with delivered := true }) := by
  have hkey : row.id = id := Registry.keyOf_of_get? hrow
  intro id' row' hrow'
  rw [Registry.get?_put]
  by_cases hid : row.id = id'
  · rw [← hid, hkey, hrow] at hrow'
    cases hrow'
    exact ⟨_, if_pos hid, rfl, rfl⟩
  · exact ⟨row', (if_neg hid).trans hrow', rfl, rfl⟩

theorem rowsKept_step (h : s.Inv) (event : Event ι) :
    RowsKept s.store.view.dispositions (s.step sha1 event).store.view.dispositions := by
  cases event with
  | create case fault =>
    exact rowsKept_of_extends (CaseStore.create_extends h.clean case fault).1
  | mutate caseId tenants fn fault =>
    exact rowsKept_of_extends (CaseStore.mutate_extends h.clean caseId tenants fn fault).1
  | call d tenant tenants maxAttempts =>
    simp only [step]
    split
    · split
      · exact .refl _
      · exact .refl _
    · exact .refl _
  | claim d =>
    simp only [step]
    split
    · exact .refl _
    · unfold claimRow
      repeat' split
      all_goals exact .refl _
    · exact .refl _
  | deliver d result =>
    simp only [step]
    split
    · cases result with
      | _ => exact .refl _
    · exact .refl _
  | mark d =>
    simp only [step, phases_eq]
    split
    · next row rest accepted hphase =>
      obtain ⟨-, r, hr⟩ := h.rows.marking d row.id (by rw [hphase]; rfl)
      rw [CaseStore.markDelivered_eq hr]
      exact rowsKept_mark hr
    · exact .refl _
  | release d =>
    simp only [step]
    split
    · exact .refl _
    · exact .refl _

/-! ### Restarts -/

/-- The row of this id is marked as delivered. -/
def marked (s : Service ι) (id : String) : Bool :=
  (s.store.view.dispositions.get? id).any DispRow.delivered

/-- The process dies and starts again on what is durable. Acceptances of rows
    that were not marked are forgotten. -/
def restart (s : Service ι) : Service ι where
  store := .fresh s.store.committed
  claimed := ∅
  drains := fun d => { s.drains d with phase := .outside }
  acceptances := s.acceptances.filter s.marked

omit [DecidableEq ι] in
theorem marked_eq_true {id : String} : s.marked id = true ↔
    ∃ row, s.store.view.dispositions.get? id = some row ∧ row.delivered = true := by
  simp [marked, Option.any_eq_true]

omit [DecidableEq ι] in
theorem inv_restart (h : s.Inv) : s.restart.Inv where
  clean := Connection.clean_fresh _
  claims := Exclusive.initial
  rows := by
    have hview : s.restart.store.view = s.store.view := h.clean.symm
    rw [hview]
    constructor
    · intro d id hid
      cases hid
    · intro d id hid
      cases hid
    · intro id row hrow hdelivered
      exact List.mem_filter.mpr ⟨h.rows.marked id row hrow hdelivered,
        marked_eq_true.mpr ⟨row, hrow, hdelivered⟩⟩
    · intro id hid
      exact Or.inl (marked_eq_true.mp (List.mem_filter.mp hid).2)
    · exact h.rows.once.filter _

/-- Only a receiver accepts. -/
theorem acceptances_step {event : Event ι} (h : ∀ d result, event ≠ .deliver d result) :
    (s.step sha1 event).acceptances = s.acceptances := by
  cases event with
  | deliver d result => exact absurd rfl (h d result)
  | create case fault => rfl
  | mutate caseId tenants fn fault => rfl
  | claim d =>
    simp only [step]
    split
    · rfl
    · unfold claimRow
      repeat' split
      all_goals rfl
    · rfl
  | _ =>
    simp only [step]
    repeat' split
    all_goals rfl

/-- What the receiver's answer adds to the acceptances. -/
theorem acceptances_deliver {row : DispRow} {attempt accepted : Nat} {rest : List DispRow}
    (hphase : s.phases d = .delivering row attempt rest accepted) (result : Delivery) :
    (s.step sha1 (.deliver d result)).acceptances =
      if result = .accepts then s.acceptances ++ [row.id] else s.acceptances := by
  simp only [step, phases_eq, hphase]
  cases result with
  | _ => rfl

/-! ### Runs -/

theorem inv_run (h : s.Inv) (events : List (Event ι)) : (Machine.run (step sha1) s events).Inv :=
  Machine.run_invariant (P := Inv) (fun _ event h => inv_step h event) h events

theorem rowsKept_run (sha1 : List Char → String) (h : s.Inv) (events : List (Event ι)) :
    RowsKept s.store.view.dispositions
      (Machine.run (step sha1) s events).store.view.dispositions := by
  induction events generalizing s with
  | nil => exact .refl _
  | cons event events ih => exact (rowsKept_step h event).trans (ih (inv_step h event))

/-- Whatever the drains, the mutations and the receivers do: a committed row
    stays and is delivered or pending, the receiver accepts no row twice, a
    row is marked only after it was accepted, and a claimed id is the claim of
    one drain that has not exited. -/
theorem handed_over_once (sha1 : List Char → String) (events : List (Event ι)) :
    let s := Machine.run (step sha1) initial events
    (∀ pre, pre <+: events → ∀ id row,
      (Machine.run (step sha1) (initial : Service ι) pre).store.committed.dispositions.get? id =
        some row →
      ∃ row', s.store.committed.dispositions.get? id = some row' ∧ row'.record = row.record ∧
        (row'.delivered = true ∨ row' ∈ s.store.pendingRows row.tenant)) ∧
    s.acceptances.Nodup ∧
    (∀ id row, s.store.committed.dispositions.get? id = some row → row.delivered = true →
      id ∈ s.acceptances) ∧
    (∀ id ∈ s.claimed, ∃ d, (s.drains d).phase.held = some id ∧ (s.drains d).phase ≠ .outside ∧
      ∀ d', (s.drains d').phase.held = some id → d' = d) := by
  intro s
  have hinv : s.Inv := inv_run inv_initial events
  have hcommitted : s.store.committed = s.store.view := hinv.clean.symm
  rw [hcommitted]
  refine ⟨?_, hinv.rows.once, hinv.rows.marked, ?_⟩
  · rintro pre ⟨rest, rfl⟩ id row hrow
    have hpre : (Machine.run (step sha1) (initial : Service ι) pre).Inv := inv_run inv_initial pre
    rw [show (Machine.run (step sha1) (initial : Service ι) pre).store.committed = _ from
      hpre.clean.symm] at hrow
    have hkept := rowsKept_run sha1 hpre rest
    rw [← Machine.run_append] at hkept
    obtain ⟨row', hrow', htenant, hrecord⟩ := hkept id row hrow
    refine ⟨row', hrow', hrecord, ?_⟩
    by_cases hdelivered : row'.delivered = true
    · exact Or.inl hdelivered
    · right
      have hkey : row'.id = id := Registry.keyOf_of_get? hrow'
      rw [CaseStore.mem_pendingRows, hkey]
      exact ⟨hrow', htenant, Bool.eq_false_iff.mpr hdelivered⟩
  · intro id hid
    obtain ⟨d, hd⟩ := (hinv.claims.held_iff id).mp hid
    refine ⟨d, hd, ?_, fun d' hd' => hinv.claims.unique d' d id hd' hd⟩
    intro houtside
    change (s.drains d).phase.held = some id at hd
    rw [houtside] at hd
    cases hd

end Service

end CaseManagement
