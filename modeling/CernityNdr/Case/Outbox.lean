import CernityNdr.Case.Store
import CernityNdr.Case.Trail
import CernityNdr.Framework.Failing
import CernityNdr.Framework.JsonRoundTrip

/-! # The Identity of Dispositions

    Histories of one case: calls of `mutate` whose functions are made of the
    operations of a case and of `case_dispositions`. The id of a disposition
    is derived from the length of the trail of the document that its call
    returned, so the ids of two calls differ when a status transition lies
    between them.

    * `dispKey_seq`: the hashed text determines the sequence number.
    * `transitions_of_emits`: under which transition a disposition was made.
    * `dispositions_identified`: two transitions make two rows, repeating an
      emission on the same document makes none, and a call that raises
      leaves everything as it was. -/

namespace CaseManagement

/-! ### Functions of a mutation -/

/-- A step of a function that `mutate` applies. -/
inductive Action
  | op (o : Op)
  | emit (verdicts : List Verdict)
deriving DecidableEq, Repr

/-- The function: the document is changed step by step, and the dispositions
    are collected. -/
def runScript : CaseDoc → List Action → Except CaseError (CaseDoc × List Disposition)
  | case, [] => .ok (case, [])
  | case, .op o :: rest => do
    let case' ← o.apply case
    runScript case' rest
  | case, .emit verdicts :: rest => do
    let records ← caseDispositions case verdicts
    let out ← runScript case rest
    return (out.1, records ++ out.2)

/-- Nothing moves the case to another status after it has emitted. -/
def EmitsLast (script : List Action) : Prop :=
  ∀ pre verdicts post, script = pre ++ .emit verdicts :: post →
    ∀ status actor ts, Action.op (.transition status actor ts) ∉ post

/-- Operations, and the dispositions of the document that they make. -/
theorem emitsLast_of_ops (ops : List Op) (verdicts : List Verdict) :
    EmitsLast (ops.map .op ++ [.emit verdicts]) := by
  intro pre vs post heq status actor ts
  have hpost : post = [] := by
    induction ops generalizing pre with
    | nil =>
      cases pre with
      | nil => exact (List.cons.inj heq).2.symm
      | cons p pre =>
        have := (List.cons.inj heq).2
        simp at this
    | cons o ops ih =>
      cases pre with
      | nil =>
        have := (List.cons.inj heq).1
        cases this
      | cons p pre => exact ih pre (List.cons.inj heq).2
  rw [hpost]
  exact List.not_mem_nil

/-- A function that returned did so in both of its halves. -/
theorem runScript_append {case new : CaseDoc} {xs ys : List Action} {records : List Disposition}
    (h : runScript case (xs ++ ys) = .ok (new, records)) : ∃ mid before after,
      runScript case xs = .ok (mid, before) ∧ runScript mid ys = .ok (new, after) ∧
      records = before ++ after := by
  induction xs generalizing case records with
  | nil => exact ⟨case, [], records, rfl, h, rfl⟩
  | cons x xs ih =>
    cases x with
    | op o =>
      obtain ⟨case', happly, h⟩ := Except.bind_eq_ok.mp h
      obtain ⟨mid, before, after, hxs, hys, heq⟩ := ih h
      exact ⟨mid, before, after, Except.bind_eq_ok.mpr ⟨case', happly, hxs⟩, hys, heq⟩
    | emit verdicts =>
      obtain ⟨rs, hrs, h⟩ := Except.bind_eq_ok.mp h
      obtain ⟨out, hout, h⟩ := Except.bind_eq_ok.mp h
      cases h
      obtain ⟨mid, before, after, hxs, hys, heq⟩ := ih hout
      refine ⟨mid, rs ++ before, after, ?_, hys, by rw [heq, List.append_assoc]⟩
      exact Except.bind_eq_ok.mpr ⟨rs, hrs, Except.bind_eq_ok.mpr ⟨_, hxs, rfl⟩⟩

/-! ### Transitions -/

/-- A move to another status. -/
def AuditEvent.isTransition (event : AuditEvent) : Bool :=
  match event.change with
  | .statusChanged _ _ => true
  | _ => false

/-- The number of moves in the trail: which transition the case is under. -/
def CaseDoc.transitions (case : CaseDoc) : Nat := case.audit.countP AuditEvent.isTransition

theorem step_of_apply {case case' : CaseDoc} {o : Op} (h : o.apply case = .ok case') :
    case.step o = case' := by
  simp only [CaseDoc.step, h]

/-- Only a transition adds a move. -/
theorem transitions_step (case : CaseDoc) {o : Op}
    (h : ∀ status actor ts, o ≠ .transition status actor ts) :
    (case.step o).transitions = case.transitions := by
  have hadd : ∀ {α : Type} [DecidableEq α] (field : ListField α) (a : α) (event : AuditEvent),
      (∀ c l, (field.set c l).audit = c.audit) → event.isTransition = false →
      (addOnce field case a event).transitions = case.transitions ∧
        (removeAll field case a event).transitions = case.transitions := by
    intro α _ field a event haudit hevent
    have htouch : ∀ l, (field.set (touch case event) l).transitions = case.transitions := by
      intro l
      simp [CaseDoc.transitions, haudit, touch, List.countP_append, hevent]
    unfold addOnce removeAll
    constructor
    · split
      · rfl
      · exact htouch _
    · split
      · rfl
      · exact htouch _
  cases o with
  | changeOwner owner actor ts =>
    simp [CaseDoc.step, Op.apply, changeOwner, CaseDoc.transitions, touch, List.countP_append,
      AuditEvent.isTransition]
  | addNote author text ts =>
    simp [CaseDoc.step, Op.apply, addNote, CaseDoc.transitions, touch, List.countP_append,
      AuditEvent.isTransition]
  | transition status actor ts => exact absurd rfl (h status actor ts)
  | assign a actor ts => exact (hadd assigneesField a _ (fun _ _ => rfl) rfl).1
  | unassign a actor ts => exact (hadd assigneesField a _ (fun _ _ => rfl) rfl).2
  | linkFinding f actor ts => exact (hadd findingsField f _ (fun _ _ => rfl) rfl).1
  | unlinkFinding f actor ts => exact (hadd findingsField f _ (fun _ _ => rfl) rfl).2
  | linkEntity e actor ts => exact (hadd entitiesField e _ (fun _ _ => rfl) rfl).1
  | unlinkEntity e actor ts => exact (hadd entitiesField e _ (fun _ _ => rfl) rfl).2

theorem runScript_audit {case new : CaseDoc} {script : List Action} {records : List Disposition}
    (h : runScript case script = .ok (new, records)) : case.audit <+: new.audit := by
  induction script generalizing case records with
  | nil =>
    cases h
    exact List.prefix_refl _
  | cons x script ih =>
    cases x with
    | op o =>
      obtain ⟨case', happly, h⟩ := Except.bind_eq_ok.mp h
      have hstep := CaseDoc.audit_step case o
      rw [step_of_apply happly] at hstep
      exact hstep.trans (ih h)
    | emit verdicts =>
      obtain ⟨rs, -, h⟩ := Except.bind_eq_ok.mp h
      obtain ⟨out, hout, h⟩ := Except.bind_eq_ok.mp h
      cases h
      exact ih hout

theorem runScript_transitions {case new : CaseDoc} {script : List Action}
    {records : List Disposition} (h : runScript case script = .ok (new, records))
    (hnone : ∀ status actor ts, Action.op (.transition status actor ts) ∉ script) :
    new.transitions = case.transitions := by
  induction script generalizing case records with
  | nil =>
    cases h
    rfl
  | cons x script ih =>
    have hrest : ∀ status actor ts, Action.op (.transition status actor ts) ∉ script :=
      fun status actor ts hmem => hnone status actor ts (List.mem_cons_of_mem x hmem)
    cases x with
    | op o =>
      obtain ⟨case', happly, h⟩ := Except.bind_eq_ok.mp h
      have ho : ∀ status actor ts, o ≠ .transition status actor ts := by
        intro status actor ts heq
        exact hnone status actor ts (by rw [heq]; exact List.mem_cons_self)
      have hstep := transitions_step case ho
      rw [step_of_apply happly] at hstep
      exact (ih h hrest).trans hstep
    | emit verdicts =>
      obtain ⟨rs, -, h⟩ := Except.bind_eq_ok.mp h
      obtain ⟨out, hout, h⟩ := Except.bind_eq_ok.mp h
      cases h
      exact ih hout hrest

/-! ### The hashed text -/

theorem intText_notMem_zero (n : Nat) : Char.ofNat 0 ∉ Json.intText n := by
  intro h
  have hdigit := Nat.isDigit_of_mem_toDigits (b := 10) (by omega) (by omega) h
  exact absurd hdigit (by decide)

theorem takeWhile_append_stop {α : Type} [DecidableEq α] {z : α} {as : List α} (bs : List α)
    (h : z ∉ as) : (as ++ z :: bs).takeWhile (· ≠ z) = as := by
  rw [List.takeWhile_append_of_pos]
  · simp
  · intro a ha
    have hne : a ≠ z := fun heq => h (heq ▸ ha)
    simpa using hne

/-- The hashed text determines the sequence number. -/
theorem dispKey_seq {caseId : String} {m n : Nat} {r r' : Disposition}
    (h : dispKey caseId m r = dispKey caseId n r') : m = n := by
  have htail := List.append_cancel_left h
  have hrest := (List.cons.inj htail).2
  have hdigits := congrArg (List.takeWhile (· ≠ Char.ofNat 0)) hrest
  rw [takeWhile_append_stop _ (intText_notMem_zero m),
    takeWhile_append_stop _ (intText_notMem_zero n)] at hdigits
  have hint : Json.int m = Json.int n := Json.dumps_injective hdigits
  have hcast := Json.int.inj hint
  omega

/-! ### Histories of one case -/

/-- A call of `mutate` on the case. -/
structure HistoryCall where
  tenants : List String
  /-- the steps of the function, which it chooses by the document it gets -/
  script : CaseDoc → List Action
  fault : Fault

def HistoryCall.fn (call : HistoryCall) : CaseStore.Mutation :=
  fun doc => runScript doc (call.script doc)

namespace History

variable (sha1 : List Char → String) (caseId : String)

/-- A new case in a new store. -/
def start (tenant title : String) (owner : Option String) (actor ts : String) : CaseStore :=
  (CaseStore.empty.create (newCase caseId tenant title owner actor ts) none).2

/-- What a call returns. -/
def outcome (s : CaseStore) (call : HistoryCall) : Except CaseError (Option CaseDoc) :=
  (s.mutate sha1 caseId call.tenants call.fn call.fault).1

def step (s : CaseStore) (call : HistoryCall) : CaseStore :=
  (s.mutate sha1 caseId call.tenants call.fn call.fault).2

/-- The call stores `new`, and emits `r` under the `n`-th transition of the
    case. -/
def Emits (s : CaseStore) (call : HistoryCall) (new : CaseDoc) (n : Nat) (r : Disposition) : Prop :=
  outcome sha1 caseId s call = .ok (some new) ∧
    ∃ row pre verdicts post mid before records, s.view.cases.get? caseId = some row ∧
      call.script row.doc = pre ++ .emit verdicts :: post ∧
      runScript row.doc pre = .ok (mid, before) ∧ caseDispositions mid verdicts = .ok records ∧
      r ∈ records ∧ mid.transitions = n

/-- The outbox has a row of this id. -/
def Stored (s : CaseStore) (id : String) : Prop := ∃ row, s.view.dispositions.get? id = some row

/-- Dispositions of two transitions are two rows of the outbox. -/
def TransitionsStored (s : CaseStore) (calls : List HistoryCall) : Prop :=
  ∀ pre₁ call₁ pre₂ call₂, pre₁ ++ [call₁] <+: calls → pre₂ ++ [call₂] <+: calls →
    ∀ new₁ new₂ n₁ n₂ r₁ r₂,
      Emits sha1 caseId (Machine.run (step sha1 caseId) s pre₁) call₁ new₁ n₁ r₁ →
      Emits sha1 caseId (Machine.run (step sha1 caseId) s pre₂) call₂ new₂ n₂ r₂ → n₁ ≠ n₂ →
      Stored (Machine.run (step sha1 caseId) s calls) (dispId sha1 caseId new₁.audit.length r₁) ∧
      Stored (Machine.run (step sha1 caseId) s calls) (dispId sha1 caseId new₂.audit.length r₂) ∧
      dispId sha1 caseId new₁.audit.length r₁ ≠ dispId sha1 caseId new₂.audit.length r₂

/-- Emitting on the document that a call stored what the call had emitted
    adds no row. -/
def RerunsIgnored (s : CaseStore) (calls : List HistoryCall) : Prop :=
  ∀ pre call mid again, pre ++ [call] ++ mid ++ [again] <+: calls →
    ∀ row new records, (Machine.run (step sha1 caseId) s pre).view.cases.get? caseId = some row →
      call.fn row.doc = .ok (new, records) →
      outcome sha1 caseId (Machine.run (step sha1 caseId) s pre) call = .ok (some new) →
    ∀ row', (Machine.run (step sha1 caseId) s (pre ++ [call] ++ mid)).view.cases.get? caseId =
        some row' → row'.doc = new →
    ∀ records', again.fn new = .ok (new, records') → (∀ r ∈ records', r ∈ records) →
      (Machine.run (step sha1 caseId) s (pre ++ [call] ++ mid ++ [again])).view.dispositions =
        (Machine.run (step sha1 caseId) s (pre ++ [call] ++ mid)).view.dispositions

/-- A call whose function, statement or commit raises leaves the store as it
    was. -/
def FailuresAtomic (s : CaseStore) (calls : List HistoryCall) : Prop :=
  ∀ pre call, pre ++ [call] <+: calls →
    ∀ row, (Machine.run (step sha1 caseId) s pre).view.cases.get? caseId = some row →
      ((∃ e, call.fn row.doc = .error e) ∨
        ∃ new records n, call.fn row.doc = .ok (new, records) ∧ call.fault = some n ∧
          n ≤ (CaseStore.statements sha1 caseId new records).length) →
      step sha1 caseId (Machine.run (step sha1 caseId) s pre) call =
        Machine.run (step sha1 caseId) s pre

/-- The texts that a history hashes. -/
def Hashed (s : CaseStore) (calls : List HistoryCall) (key : List Char) : Prop :=
  ∃ pre call new n r, pre ++ [call] <+: calls ∧
    Emits sha1 caseId (Machine.run (step sha1 caseId) s pre) call new n r ∧
    key = dispKey caseId new.audit.length r

/-- The hash tells the texts of a history apart. -/
def CollisionFree (s : CaseStore) (calls : List HistoryCall) : Prop :=
  ∀ key key', Hashed sha1 caseId s calls key → Hashed sha1 caseId s calls key' →
    sha1 key = sha1 key' → key = key'

variable {sha1 caseId}

theorem clean_start (tenant title : String) (owner : Option String) (actor ts : String) :
    (start caseId tenant title owner actor ts).Clean := by
  unfold start CaseStore.create
  split
  · exact Connection.clean_rollback _
  · split
    · next hw =>
      obtain ⟨-, rfl⟩ := Connection.writeOrRollback_eq_ok hw
      exact Connection.clean_commit _
    · next hw =>
      obtain ⟨-, rfl⟩ := Connection.writeOrRollback_eq_error hw
      exact Connection.clean_rollback _

/-- What the statements of a mutation leave of the case. -/
theorem get?_case_statements (t : Tables) {row : CaseRow} (hrow : t.cases.get? caseId = some row)
    (new : CaseDoc) (records : List Disposition) :
    ((CaseStore.statements sha1 caseId new records).foldl Statement.apply t).cases.get? caseId =
      some { row with doc := new } := by
  show ((CaseStore.inserts sha1 caseId new records).foldl Statement.apply
    (Statement.apply t (.updateDoc caseId new))).cases.get? caseId = _
  rw [cases_inserts]
  simp only [Statement.apply, hrow]
  have hkey : row.caseId = caseId := Registry.keyOf_of_get? hrow
  rw [Registry.get?_put, if_pos hkey]

/-- What a later store keeps of an earlier one. -/
structure Later (caseId : String) (s s' : CaseStore) : Prop where
  clean : s'.Clean
  outbox : s.view.Extends s'.view
  trail : ∀ row, s.view.cases.get? caseId = some row →
    ∃ row', s'.view.cases.get? caseId = some row' ∧ row.doc.audit <+: row'.doc.audit

theorem Later.refl {s : CaseStore} (h : s.Clean) : Later caseId s s :=
  ⟨h, .refl _, fun row hrow => ⟨row, hrow, List.prefix_refl _⟩⟩

theorem Later.trans {s s' s'' : CaseStore} (h : Later caseId s s') (h' : Later caseId s' s'') :
    Later caseId s s'' := by
  refine ⟨h'.clean, h.outbox.trans h'.outbox, fun row hrow => ?_⟩
  obtain ⟨row', hrow', hpre⟩ := h.trail row hrow
  obtain ⟨row'', hrow'', hpre'⟩ := h'.trail row' hrow'
  exact ⟨row'', hrow'', hpre.trans hpre'⟩

theorem Later.stored {s s' : CaseStore} (h : Later caseId s s') {id : String} (hid : Stored s id) :
    Stored s' id := by
  obtain ⟨row, hrow⟩ := hid
  exact ⟨row, h.outbox.old id row hrow⟩

theorem later_step {s : CaseStore} (h : s.Clean) (call : HistoryCall) :
    Later caseId s (step sha1 caseId s call) := by
  have hcases := CaseStore.mutate_cases sha1 h caseId call.tenants call.fn call.fault
  unfold step
  generalize s.mutate sha1 caseId call.tenants call.fn call.fault = out at hcases
  obtain ⟨res, s'⟩ := out
  cases hcases with
  | absent _ => exact .refl h
  | raised _ => exact .refl h
  | stored row new records hrow hfn _ =>
    obtain ⟨hget, -⟩ := CaseStore.granted_eq_some.mp hrow
    refine ⟨Connection.clean_commit _, extends_statements _ records, fun row' hrow' => ?_⟩
    rw [hget] at hrow'
    cases hrow'
    exact ⟨_, get?_case_statements s.view hget new records, runScript_audit hfn⟩

theorem later_run {s : CaseStore} (h : s.Clean) (calls : List HistoryCall) :
    Later caseId s (Machine.run (step sha1 caseId) s calls) := by
  refine Machine.run_invariant (P := Later caseId s) ?_ (.refl h) calls
  exact fun s' call hlater => hlater.trans (later_step hlater.clean call)

theorem clean_step {s : CaseStore} (h : s.Clean) (call : HistoryCall) :
    (step sha1 caseId s call).Clean := Later.clean (later_step h call)

theorem clean_run (sha1 : List Char → String) (caseId : String) {s : CaseStore} (h : s.Clean)
    (calls : List HistoryCall) : (Machine.run (step sha1 caseId) s calls).Clean := Later.clean (later_run h calls)

/-- What a call that returned has stored. -/
theorem outcome_stored {s : CaseStore} (h : s.Clean) {call : HistoryCall} {new : CaseDoc}
    (hok : outcome sha1 caseId s call = .ok (some new)) : ∃ row records,
      s.view.cases.get? caseId = some row ∧
      runScript row.doc (call.script row.doc) = .ok (new, records) ∧
      (step sha1 caseId s call).view.cases.get? caseId = some { row with doc := new } ∧
      ∀ r ∈ records, Stored (step sha1 caseId s call) (dispId sha1 caseId new.audit.length r) := by
  have hcases := CaseStore.mutate_cases sha1 h caseId call.tenants call.fn call.fault
  unfold outcome at hok
  unfold step
  generalize s.mutate sha1 caseId call.tenants call.fn call.fault = out at hcases hok
  obtain ⟨res, s'⟩ := out
  cases hcases with
  | absent _ => cases hok
  | raised _ => cases hok
  | stored row new' records hrow hfn _ =>
    cases hok
    obtain ⟨hget, -⟩ := CaseStore.granted_eq_some.mp hrow
    exact ⟨row, records, hget, hfn, get?_case_statements s.view hget new records,
      fun r hr => exists_inserts _ hr⟩

/-- The dispositions of a call are made under the transition that the stored
    document is under, and they are stored. -/
theorem Emits.spec {s : CaseStore} (h : s.Clean) {call : HistoryCall} {new : CaseDoc} {n : Nat}
    {r : Disposition} (hlast : ∀ doc, EmitsLast (call.script doc))
    (hemits : Emits sha1 caseId s call new n r) :
    new.transitions = n ∧ Stored (step sha1 caseId s call) (dispId sha1 caseId new.audit.length r) ∧
      ∃ row, s.view.cases.get? caseId = some row ∧ row.doc.audit <+: new.audit := by
  obtain ⟨hok, row, pre, verdicts, post, mid, before, rs, hrow, hscript, hpre, hrs, hr, rfl⟩ := hemits
  obtain ⟨row', records, hrow', hrun, -, hstored⟩ := outcome_stored h hok
  rw [hrow] at hrow'
  cases hrow'
  have haudit := runScript_audit hrun
  rw [hscript] at hrun
  obtain ⟨mid', before', after, hpre', hpost, rfl⟩ := runScript_append hrun
  rw [hpre] at hpre'
  cases hpre'
  obtain ⟨rs', hrs', hpost⟩ := Except.bind_eq_ok.mp hpost
  obtain ⟨out, hout, hpost⟩ := Except.bind_eq_ok.mp hpost
  cases hpost
  rw [hrs] at hrs'
  cases hrs'
  refine ⟨?_, ?_, row, hrow, haudit⟩
  · exact runScript_transitions hout (hlast row.doc pre verdicts post hscript)
  · exact hstored r (List.mem_append_right _ (List.mem_append_left _ hr))

/-- A later call under another transition has a longer trail. -/
theorem audit_ne_of_later {s : CaseStore} (h : s.Clean) {call call' : HistoryCall}
    {mid : List HistoryCall} {new new' : CaseDoc} {n n' : Nat} {r r' : Disposition}
    (hlast : ∀ doc, EmitsLast (call.script doc)) (hlast' : ∀ doc, EmitsLast (call'.script doc))
    (hemits : Emits sha1 caseId s call new n r)
    (hemits' : Emits sha1 caseId
      (Machine.run (step sha1 caseId) (step sha1 caseId s call) mid) call' new' n' r')
    (hne : n ≠ n') : new.audit.length ≠ new'.audit.length := by
  obtain ⟨hn, -, -⟩ := hemits.spec h hlast
  have hlater : Later caseId (step sha1 caseId s call)
      (Machine.run (step sha1 caseId) (step sha1 caseId s call) mid) := later_run (clean_step h call) mid
  obtain ⟨hn', -, row', hrow', hpre'⟩ := hemits'.spec hlater.clean hlast'
  obtain ⟨row, records, -, -, hstored, -⟩ := outcome_stored h hemits.1
  obtain ⟨row'', hrow'', hpre⟩ := hlater.trail _ hstored
  rw [hrow'] at hrow''
  cases hrow''
  have haudit : new.audit <+: new'.audit := hpre.trans hpre'
  intro hlen
  have hsame := haudit.eq_of_length hlen
  apply hne
  rw [← hn, ← hn', CaseDoc.transitions, CaseDoc.transitions, hsame]

/-- Two calls of a history are one, or one of them comes first. -/
theorem prefix_trichotomy {α : Type} {l pre₁ pre₂ : List α} {a₁ a₂ : α} (h₁ : pre₁ ++ [a₁] <+: l)
    (h₂ : pre₂ ++ [a₂] <+: l) :
    pre₁ = pre₂ ∧ a₁ = a₂ ∨ pre₁ ++ [a₁] <+: pre₂ ∨ pre₂ ++ [a₂] <+: pre₁ := by
  have hpre₁ : pre₁ <+: l := (List.prefix_append _ _).trans h₁
  have hpre₂ : pre₂ <+: l := (List.prefix_append _ _).trans h₂
  rcases Nat.lt_trichotomy pre₁.length pre₂.length with hlt | heq | hgt
  · exact Or.inr (Or.inl (List.prefix_of_prefix_length_le h₁ hpre₂ (by
      simp only [List.length_append, List.length_singleton]
      omega)))
  · have hle : pre₁ ++ [a₁] <+: pre₂ ++ [a₂] :=
      List.prefix_of_prefix_length_le h₁ h₂ (by simp [heq])
    have hall := hle.eq_of_length (by simp [heq])
    obtain ⟨hpre, ha⟩ := List.append_inj hall heq
    exact Or.inl ⟨hpre, by simpa using ha⟩
  · exact Or.inr (Or.inr (List.prefix_of_prefix_length_le h₂ hpre₁ (by
      simp only [List.length_append, List.length_singleton]
      omega)))

theorem stored_of_emits {s : CaseStore} (h : s.Clean) {calls pre : List HistoryCall}
    {call : HistoryCall} (hpre : pre ++ [call] <+: calls)
    (hlast : ∀ doc, EmitsLast (call.script doc)) {new : CaseDoc} {n : Nat} {r : Disposition}
    (hemits : Emits sha1 caseId (Machine.run (step sha1 caseId) s pre) call new n r) :
    Stored (Machine.run (step sha1 caseId) s calls) (dispId sha1 caseId new.audit.length r) := by
  obtain ⟨post, rfl⟩ := hpre
  have hclean := clean_run sha1 caseId h pre
  have hstored := (hemits.spec hclean hlast).2.1
  rw [Machine.run_append, Machine.run_snoc]
  exact (later_run (clean_step hclean call) post).stored hstored

theorem audit_ne_of_prefix {s : CaseStore} (h : s.Clean) {pre pre' : List HistoryCall}
    {call call' : HistoryCall} (hpre : pre ++ [call] <+: pre')
    (hlast : ∀ doc, EmitsLast (call.script doc)) (hlast' : ∀ doc, EmitsLast (call'.script doc))
    {new new' : CaseDoc} {n n' : Nat} {r r' : Disposition}
    (hemits : Emits sha1 caseId (Machine.run (step sha1 caseId) s pre) call new n r)
    (hemits' : Emits sha1 caseId (Machine.run (step sha1 caseId) s pre') call' new' n' r')
    (hne : n ≠ n') : new.audit.length ≠ new'.audit.length := by
  obtain ⟨mid, rfl⟩ := hpre
  rw [Machine.run_append, Machine.run_snoc] at hemits'
  have hclean := clean_run sha1 caseId h pre
  exact audit_ne_of_later hclean hlast hlast' hemits hemits' hne

theorem transitionsStored {s : CaseStore} (h : s.Clean) {calls : List HistoryCall}
    (hlast : ∀ call ∈ calls, ∀ doc, EmitsLast (call.script doc))
    (hcoll : CollisionFree sha1 caseId s calls) : TransitionsStored sha1 caseId s calls := by
  intro pre₁ call₁ pre₂ call₂ hpre₁ hpre₂ new₁ new₂ n₁ n₂ r₁ r₂ hemits₁ hemits₂ hne
  have hlast₁ := hlast call₁ (hpre₁.subset (by simp))
  have hlast₂ := hlast call₂ (hpre₂.subset (by simp))
  refine ⟨stored_of_emits h hpre₁ hlast₁ hemits₁, stored_of_emits h hpre₂ hlast₂ hemits₂, ?_⟩
  intro hid
  have hkey := hcoll _ _ ⟨pre₁, call₁, new₁, n₁, r₁, hpre₁, hemits₁, rfl⟩
    ⟨pre₂, call₂, new₂, n₂, r₂, hpre₂, hemits₂, rfl⟩ hid
  have hlen := dispKey_seq hkey
  rcases prefix_trichotomy hpre₁ hpre₂ with ⟨rfl, rfl⟩ | hfirst | hfirst
  · -- one call stores one document
    have hclean := clean_run sha1 caseId h pre₁
    have hnew := hemits₁.1.symm.trans hemits₂.1
    cases hnew
    exact hne ((hemits₁.spec hclean hlast₁).1.symm.trans (hemits₂.spec hclean hlast₂).1)
  · exact audit_ne_of_prefix h hfirst hlast₁ hlast₂ hemits₁ hemits₂ hne hlen
  · exact audit_ne_of_prefix h hfirst hlast₂ hlast₁ hemits₂ hemits₁ (Ne.symm hne) hlen.symm

theorem rerunsIgnored {s : CaseStore} (h : s.Clean) (calls : List HistoryCall) :
    RerunsIgnored sha1 caseId s calls := by
  intro pre call mid again _ row new records hrow hfn hok row' hrow' hdoc records' hagain hsub
  have hclean := clean_run sha1 caseId h pre
  obtain ⟨row₀, records₀, hrow₀, hrun, -, hstored⟩ := outcome_stored hclean hok
  rw [hrow] at hrow₀
  cases hrow₀
  have hrecords : records₀ = records := by
    have heq := hrun.symm.trans hfn
    simpa using heq
  subst hrecords
  have hlater : Later caseId (step sha1 caseId (Machine.run (step sha1 caseId) s pre) call)
      (Machine.run (step sha1 caseId) s (pre ++ [call] ++ mid)) := by
    rw [Machine.run_append, Machine.run_snoc]
    exact later_run (later_step hclean call).clean mid
  rw [Machine.run_snoc]
  generalize Machine.run (step sha1 caseId) s (pre ++ [call] ++ mid) = s₁ at hrow' hlater ⊢
  have hcases := CaseStore.mutate_cases sha1 hlater.clean caseId again.tenants again.fn
    again.fault
  unfold step
  generalize s₁.mutate sha1 caseId again.tenants again.fn again.fault = out at hcases
  obtain ⟨res, s₂⟩ := out
  cases hcases with
  | absent _ => rfl
  | raised _ => rfl
  | stored row₁ new₁ records₁ hrow₁ hfn₁ _ =>
    obtain ⟨hget, -⟩ := CaseStore.granted_eq_some.mp hrow₁
    rw [hrow'] at hget
    cases hget
    rw [hdoc, hagain] at hfn₁
    cases hfn₁
    show ((CaseStore.inserts sha1 caseId new records').foldl Statement.apply
      (Statement.apply s₁.view (.updateDoc caseId new))).dispositions = s₁.view.dispositions
    rw [inserts_of_stored, Tables.dispositions_updateDoc]
    intro r hr
    rw [Tables.dispositions_updateDoc]
    exact hlater.stored (hstored r (hsub r hr))

theorem failuresAtomic {s : CaseStore} (h : s.Clean) (calls : List HistoryCall) :
    FailuresAtomic sha1 caseId s calls := by
  intro pre call _ row hrow hfail
  have hclean := clean_run sha1 caseId h pre
  generalize Machine.run (step sha1 caseId) s pre = s₁ at hrow hclean ⊢
  unfold step CaseStore.mutate
  cases hgranted : s₁.granted caseId call.tenants with
  | none => rfl
  | some row' =>
    obtain ⟨hget, -⟩ := CaseStore.granted_eq_some.mp hgranted
    rw [hrow] at hget
    cases hget
    simp only
    rcases hfail with ⟨e, he⟩ | ⟨new, records, n, hfn, hfault, hn⟩
    · rw [he]
    · rw [hfn, hfault]
      simp only
      by_cases htenant : new.tenant = row.tenant
      · rw [if_neg (not_not.mpr htenant), Connection.writeOrRollback_of_le hn]
        exact hclean.rollback_eq
      · rw [if_pos htenant]

/-- **Identity of dispositions.** In a history of one case whose functions do
    not move the case after they have emitted: the dispositions of two
    transitions are two rows, repeating an emission on the same document adds
    none, and a call that raises leaves the store as it was. -/
theorem dispositions_identified (sha1 : List Char → String)
    (caseId tenant title : String) (owner : Option String) (actor ts : String)
    (calls : List HistoryCall)
    (hlast : ∀ call ∈ calls, ∀ doc, EmitsLast (call.script doc))
    (hcoll : CollisionFree sha1 caseId (start caseId tenant title owner actor ts) calls) :
    TransitionsStored sha1 caseId (start caseId tenant title owner actor ts) calls ∧
    RerunsIgnored sha1 caseId (start caseId tenant title owner actor ts) calls ∧
    FailuresAtomic sha1 caseId (start caseId tenant title owner actor ts) calls :=
  ⟨transitionsStored (clean_start ..) hlast hcoll, rerunsIgnored (clean_start ..) calls,
    failuresAtomic (clean_start ..) calls⟩

section Sample

def sampleVerdict : Verdict where
  findingId := "f1"
  entity := ⟨.ip, "192.0.2.1"⟩
  verdict := "true_positive"
  reason := "confirmed"
  analyst := "alice"
  ts := "2026-09-01T00:00:05Z"

def investigate : List Op :=
  [.linkFinding "f1" "alice" "2026-09-01T00:00:01Z",
    .linkEntity ⟨.ip, "192.0.2.1"⟩ "alice" "2026-09-01T00:00:02Z",
    .transition .investigating "alice" "2026-09-01T00:00:03Z"]

def resolve : List Op := [.transition .resolved "alice" "2026-09-01T00:00:05Z"]

def reopen : List Op := [.transition .investigating "alice" "2026-09-01T00:00:06Z"]

def sampleCall (ops : List Op) : HistoryCall where
  tenants := ["acme"]
  script := fun _ => ops.map .op ++ [.emit [sampleVerdict]]
  fault := none

def sampleStart : CaseStore :=
  start "c1" "acme" "beacon" (some "alice") "alice" "2026-09-01T00:00:00Z"

/-- Resolved, reopened and resolved again, with the same verdict. -/
theorem resolved_twice : TransitionsStored String.ofList "c1" sampleStart
    [sampleCall (investigate ++ resolve), sampleCall reopen, sampleCall resolve] := by
  refine (dispositions_identified String.ofList "c1" "acme" "beacon" (some "alice") "alice"
    "2026-09-01T00:00:00Z" [sampleCall (investigate ++ resolve), sampleCall reopen,
      sampleCall resolve] ?_ ?_).1
  · intro call hcall doc
    simp only [List.mem_cons, List.not_mem_nil, or_false] at hcall
    rcases hcall with rfl | rfl | rfl
    · exact emitsLast_of_ops _ _
    · exact emitsLast_of_ops _ _
    · exact emitsLast_of_ops _ _
  · intro key key' _ _ heq
    exact String.ofList_injective heq

/-- One function that resolves, emits, reopens, resolves and emits again. -/
def resolveTwice : HistoryCall where
  tenants := ["acme"]
  script := fun _ => (investigate ++ resolve).map .op ++ .emit [sampleVerdict] ::
    ((reopen ++ resolve).map .op ++ [.emit [sampleVerdict]])
  fault := none

def sampleDisposition : Disposition where
  findingId := "f1"
  entity := ⟨.ip, "192.0.2.1"⟩
  verdict := "true_positive"
  reason := "confirmed"
  analyst := "alice"
  tenant := "acme"
  ts := "2026-09-01T00:00:05Z"
  scope := .finding

/-- The second and the fourth transition share one row when one call makes
    both. -/
theorem two_transitions_one_row :
    ¬ TransitionsStored String.ofList "c1" sampleStart [resolveTwice] := by
  intro h
  have hfirst : ∃ new, Emits String.ofList "c1" sampleStart resolveTwice new 2 sampleDisposition ∧
      Emits String.ofList "c1" sampleStart resolveTwice new 4 sampleDisposition := by
    refine ⟨_, ⟨rfl, _, (investigate ++ resolve).map .op, [sampleVerdict], _, _, _, _, rfl, rfl,
      rfl, rfl, List.mem_singleton_self _, rfl⟩, ⟨rfl, _, (investigate ++ resolve).map .op ++
      .emit [sampleVerdict] :: (reopen ++ resolve).map .op, [sampleVerdict], _, _, _, _, rfl, rfl,
      rfl, rfl, List.mem_singleton_self _, rfl⟩⟩
  obtain ⟨new, hemits₂, hemits₄⟩ := hfirst
  exact (h [] resolveTwice [] resolveTwice (List.prefix_refl _) (List.prefix_refl _) new new 2 4
    sampleDisposition sampleDisposition hemits₂ hemits₄ (by decide)).2.2 rfl

end Sample

end History

end CaseManagement
