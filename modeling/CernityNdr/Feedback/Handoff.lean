import CernityNdr.Case.Drain
import CernityNdr.Case.Outbox
import CernityNdr.Feedback.Router

/-! # From the Outbox to the Feedback Table

    Drains of the case store whose `deliver` calls `consume` of the router.
    The router commits first and answers later; the answer may be lost, and
    the sender may die between any two of its steps. `stems` records which
    outbox row each accepted record was made from.

    * `account_step`: what a step adds to the records of a row, against what
      it adds to its acceptances.
    * `fed_once_iff`: a row that is marked has one record exactly when no
      step of the run has lost an acceptance of it. -/

namespace FeedbackService

open CaseManagement

/-- Where a record and its audit event come from: an outbox row, or another
    client of the router. -/
structure Stem where
  row : Option String
  identifier : String
  auditId : String

/-- The case store with its drains, and the router's database. -/
structure Loop (ι : Type) where
  sender : Service ι
  receiver : Tables
  stems : List Stem

/-- What the drain gets to see of a call of `consume`. -/
inductive Answer
  | arrives
  /-- `deliver` raises after the call, as on a timeout -/
  | lost
  /-- a `BaseException` interrupts the drain after the call -/
  | interrupted
deriving DecidableEq

/-- What `deliver` makes of the outcome. -/
def Answer.delivery (answer : Answer) (accepted : Bool) : Delivery :=
  match answer with
  | arrives => if accepted then .accepts else .raises
  | lost => .raises
  | interrupted => .interrupted

/-- A call of `deliver`. -/
inductive Attempt
  | unreached (interrupted : Bool)
  | reached (call : Call) (answer : Answer)

/-- A step of the sender in which it calls nobody. -/
abbrev Section (ι : Type) :=
  { event : Service.Event ι // ∀ d result, event ≠ .deliver d result }

inductive Event (ι : Type)
  | own (event : Section ι)
  | attempt (d : ι) (attempt : Attempt)
  /-- another client posts a disposition -/
  | post (payload : Disposition) (call : Call)
  /-- the sender dies and starts again -/
  | crash

namespace Loop

variable {ι : Type}

def initial : Loop ι := ⟨.initial, .empty, []⟩

variable (valid : Disposition → Bool) (router : Router)

/-- A call of `consume`, and whether it returned. -/
def consume (s : Loop ι) (row : Option String) (payload : Disposition) (call : Call) :
    Bool × Loop ι :=
  match router.consume valid s.receiver payload call with
  | (.ok _, db) =>
    (true, { s with receiver := db, stems := s.stems ++ [⟨row, call.identifier, call.auditId⟩] })
  | (.error _, db) => (false, { s with receiver := db })

variable [DecidableEq ι] (sha1 : List Char → String)

/-- One step. An attempt of a drain that delivers nothing changes nothing. -/
def step (s : Loop ι) : Event ι → Loop ι
  | .own event => { s with sender := s.sender.step sha1 event.1 }
  | .attempt d attempt =>
    match s.sender.phases d with
    | .delivering row _ _ _ =>
      match attempt with
      | .unreached interrupted =>
        { s with sender := s.sender.step sha1 (.deliver d (if interrupted then .interrupted else .raises)) }
      | .reached call answer =>
        let out := s.consume valid router (some row.id) row.record call
        { out.2 with sender := s.sender.step sha1 (.deliver d (answer.delivery out.1)) }
    | _ => s
  | .post payload call => (s.consume valid router none payload call).2
  | .crash => { s with sender := s.sender.restart }

/-! ### What stems from a row -/

/-- The feedback records that stem from the row of this id. -/
def feedbackOf (s : Loop ι) (id : String) : List FeedbackRow :=
  s.receiver.feedback.vals.filter fun row =>
    s.stems.any fun stem => stem.row = some id && stem.identifier = row.id

/-- The audit events that stem from the row of this id. -/
def auditOf (s : Loop ι) (id : String) : List AuditRow :=
  s.receiver.audit.vals.filter fun row =>
    s.stems.any fun stem => stem.row = some id && stem.auditId = row.id

/-- One record and one event stem from the row. -/
def FedOnce (s : Loop ι) (id : String) : Prop :=
  (s.feedbackOf id).length = 1 ∧ (s.auditOf id).length = 1

/-- The step loses an acceptance of the row: the router commits and the drain
    does not learn it, or the sender dies between learning and marking it. -/
def Loses (s : Loop ι) (event : Event ι) (id : String) : Prop :=
  match event with
  | .attempt d (.reached call answer) =>
    ∃ row attempt rest accepted, s.sender.phases d = .delivering row attempt rest accepted ∧
      row.id = id ∧ answer ≠ .arrives ∧ router.Accepts valid s.receiver row.record call
  | .crash => (∃ d, (s.sender.phases d).toMark = some id) ∧ s.sender.marked id = false
  | _ => False

/-! ### Counting -/

/-- How many calls of `consume` for the row have committed. -/
def commits (s : Loop ι) (id : String) : Nat := s.stems.countP fun stem => stem.row = some id

/-- The sender keeps its invariant, and the tables hold what was accepted. -/
structure Inv (s : Loop ι) : Prop where
  sender : s.sender.Inv
  feedback : s.receiver.feedback.keys = s.stems.map Stem.identifier
  audit : s.receiver.audit.keys = s.stems.map Stem.auditId

end Loop

/-- Rows of a table that are matched, one by one, by the items of a list. -/
theorem length_matched {κ ν α : Type} [DecidableEq κ] {keyOf : ν → κ} (r : Registry keyOf)
    {l : List α} {f : α → κ} (h : r.keys = l.map f) (p : α → Bool) :
    (r.vals.filter fun v => l.any fun a => p a && f a = keyOf v).length = l.countP p := by
  have hnodup : (l.map f).Nodup := h ▸ r.keys_nodup
  calc (r.vals.filter fun v => l.any fun a => p a && f a = keyOf v).length
      = (r.keys.filter fun k => l.any fun a => p a && f a = k).length := by
        rw [Registry.keys, List.filter_map, List.length_map]
        rfl
    _ = (l.filter fun b => l.any fun a => p a && f a = f b).length := by
        rw [h, List.filter_map, List.length_map]
        rfl
    _ = (l.filter p).length := by
        congr 1
        apply List.filter_congr
        intro b hb
        rw [Bool.eq_iff_iff, List.any_eq_true]
        constructor
        · rintro ⟨a, ha, hmatch⟩
          obtain ⟨hp, hf⟩ := Bool.and_eq_true_iff.mp hmatch
          rwa [List.inj_on_of_nodup_map hnodup hb ha (of_decide_eq_true hf).symm]
        · intro hp
          exact ⟨b, hb, Bool.and_eq_true_iff.mpr ⟨hp, decide_eq_true rfl⟩⟩
    _ = l.countP p := List.countP_eq_length_filter.symm

namespace Loop

variable {ι : Type} {valid : Disposition → Bool} {router : Router} {sha1 : List Char → String}
  {s : Loop ι} {id : String}

theorem Inv.fedOnce_iff (h : s.Inv) (id : String) : s.FedOnce id ↔ s.commits id = 1 := by
  have hfeedback : (s.feedbackOf id).length = s.commits id :=
    length_matched s.receiver.feedback h.feedback _
  have haudit : (s.auditOf id).length = s.commits id :=
    length_matched s.receiver.audit h.audit _
  rw [FedOnce, hfeedback, haudit, and_self]

/-! ### A call of `consume` -/

/-- What a call leaves. -/
inductive Called (valid : Disposition → Bool) (router : Router) (s : Loop ι) (row : Option String)
    (payload : Disposition) (call : Call) : Bool × Loop ι → Prop
  | raised (h : ¬ router.Accepts valid s.receiver payload call) :
      Called valid router s row payload call (false, s)
  | stored (h : router.Accepts valid s.receiver payload call) (db : Tables)
      (hfeedback : db.feedback.keys = s.receiver.feedback.keys ++ [call.identifier])
      (haudit : db.audit.keys = s.receiver.audit.keys ++ [call.auditId]) :
      Called valid router s row payload call
        (true, ⟨s.sender, db, s.stems ++ [⟨row, call.identifier, call.auditId⟩]⟩)

theorem consume_called (valid : Disposition → Bool) (router : Router) (s : Loop ι)
    (row : Option String) (payload : Disposition) (call : Call) :
    Called valid router s row payload call (s.consume valid router row payload call) := by
  unfold consume
  have hcases := Router.consume_cases valid router s.receiver payload call
  revert hcases
  generalize router.consume valid s.receiver payload call = out
  obtain ⟨res, db⟩ := out
  intro hcases
  cases hcases with
  | raised hnot e => exact .raised hnot
  | stored haccepts r event hrow hevent =>
    refine .stored haccepts _ ?_ ?_
    · rw [Registry.keys_put_of_notMem (by rw [hrow]; exact haccepts.fresh), hrow]
    · rw [Registry.keys_put_of_notMem (by rw [hevent]; exact haccepts.freshAudit), hevent]

theorem Called.sender {row : Option String} {payload : Disposition} {call : Call}
    {out : Bool × Loop ι} (h : Called valid router s row payload call out) :
    out.2.sender = s.sender := by
  cases h with
  | raised h => rfl
  | stored h db hfeedback haudit => rfl

theorem Called.inv {row : Option String} {payload : Disposition} {call : Call}
    {out : Bool × Loop ι} (h : Called valid router s row payload call out) (hinv : s.Inv)
    {sender : Service ι} (hsender : sender.Inv) : Inv { out.2 with sender := sender } := by
  cases h with
  | raised h => exact ⟨hsender, hinv.feedback, hinv.audit⟩
  | stored h db hfeedback haudit =>
    refine ⟨hsender, ?_, ?_⟩
    · simp [hfeedback, hinv.feedback]
    · simp [haudit, hinv.audit]

theorem Called.commits {row : Option String} {payload : Disposition} {call : Call}
    {out : Bool × Loop ι} (h : Called valid router s row payload call out) (id : String) :
    out.2.commits id = s.commits id + if out.1 = true ∧ row = some id then 1 else 0 := by
  cases h with
  | raised h => simp
  | stored h db hfeedback haudit => simp [Loop.commits, List.countP_append, List.countP_singleton]

theorem Called.accepts_iff {row : Option String} {payload : Disposition} {call : Call}
    {out : Bool × Loop ι} (h : Called valid router s row payload call out) :
    out.1 = true ↔ router.Accepts valid s.receiver payload call := by
  cases h with
  | raised h => simp [h]
  | stored h db hfeedback haudit => simp [h]

/-! ### Steps -/

variable [DecidableEq ι]

omit [DecidableEq ι] in
theorem inv_initial : (initial : Loop ι).Inv := ⟨Service.inv_initial, rfl, rfl⟩

variable (valid router sha1) in
theorem inv_step (h : s.Inv) (event : Event ι) : (s.step valid router sha1 event).Inv := by
  have hsender : ∀ event, (s.sender.step sha1 event).Inv := Service.inv_step h.sender
  cases event with
  | own event => exact ⟨hsender event.1, h.feedback, h.audit⟩
  | attempt d attempt =>
    simp only [step]
    split
    · cases attempt with
      | unreached interrupted => exact ⟨hsender (.deliver d _), h.feedback, h.audit⟩
      | reached call answer =>
        exact (consume_called valid router s _ _ call).inv h (hsender _)
    · exact h
  | post payload call =>
    have hcalled := consume_called valid router s none payload call
    exact hcalled.inv h (hcalled.sender ▸ h.sender)
  | crash => exact ⟨Service.inv_restart h.sender, h.feedback, h.audit⟩

omit [DecidableEq ι] in
/-- What was not accepted is not answered as accepted. -/
theorem delivery_false (answer : Answer) : answer.delivery false ≠ .accepts := by
  cases answer with
  | _ => exact nofun

/-- How often the receiver of the drains has accepted the row, as far as the
    sender knows. -/
def acceptances (s : Loop ι) (id : String) : Nat := s.sender.acceptances.count id

variable (sha1) in
theorem acceptances_attempt {d : ι} {row : DispRow} {attempt accepted : Nat} {rest : List DispRow}
    (hphase : s.sender.phases d = .delivering row attempt rest accepted) (result : Delivery)
    (id : String) : ((s.sender.step sha1 (.deliver d result)).acceptances).count id =
      s.acceptances id + if result = .accepts ∧ row.id = id then 1 else 0 := by
  rw [Service.acceptances_deliver hphase]
  by_cases hres : result = .accepts
  · simp [hres, acceptances, List.count_append, List.count_singleton]
  · simp [hres, acceptances]

variable (valid router sha1) in
/-- A step adds as many records of a row as acceptances, and one more when it
    loses an acceptance. -/
theorem account_step (h : s.Inv) (event : Event ι) (id : String) :
    let s' := s.step valid router sha1 event
    (¬ s.Loses valid router event id →
      s'.commits id + s.acceptances id = s.commits id + s'.acceptances id) ∧
    (s.Loses valid router event id →
      s'.commits id + s.acceptances id = s.commits id + s'.acceptances id + 1) := by
  cases event with
  | own event =>
    have hsame : (s.sender.step sha1 event.1).acceptances = s.sender.acceptances :=
      Service.acceptances_step event.2
    refine ⟨fun _ => ?_, fun hloses => hloses.elim⟩
    show s.commits id + _ = s.commits id + (s.sender.step sha1 event.1).acceptances.count id
    rw [hsame]
    rfl
  | attempt d attempt =>
    cases hphase : s.sender.phases d with
    | delivering row n rest accepted =>
      have hloses : ∀ call answer, s.Loses valid router (.attempt d (.reached call answer)) id ↔
          row.id = id ∧ answer ≠ .arrives ∧ router.Accepts valid s.receiver row.record call := by
        intro call answer
        constructor
        · rintro ⟨row', n', rest', accepted', hphase', hrest⟩
          rw [hphase] at hphase'
          cases hphase'
          exact hrest
        · exact fun hrest => ⟨row, n, rest, accepted, hphase, hrest⟩
      simp only [step, hphase]
      cases attempt with
      | unreached interrupted =>
        refine ⟨fun _ => ?_, fun hloses => hloses.elim⟩
        show s.commits id + _ = s.commits id + List.count id _
        rw [acceptances_attempt sha1 hphase]
        cases interrupted with
        | true => simp
        | false => simp
      | reached call answer =>
        have hcalled := consume_called valid router s (some row.id) row.record call
        have hcommits := hcalled.commits id
        have haccepts := hcalled.accepts_iff
        have hcount := acceptances_attempt sha1 hphase
          (answer.delivery (s.consume valid router (some row.id) row.record call).1) id
        rw [hloses]
        simp only [acceptances] at hcount ⊢
        simp only [commits] at hcommits ⊢
        rw [hcommits, hcount, ← haccepts]
        generalize (s.consume valid router (some row.id) row.record call).1 = accepted
        -- both sides count the row that is delivered
        by_cases hrow : row.id = id
        · cases accepted with
          | false => simp [delivery_false]
          | true =>
            cases answer with
            | arrives =>
              simp [Answer.delivery, hrow]
              omega
            | lost =>
              simp [Answer.delivery, hrow]
              omega
            | interrupted =>
              simp [Answer.delivery, hrow]
              omega
        · simp [hrow]
    | _ =>
      have hstep : s.step valid router sha1 (.attempt d attempt) = s := by
        simp only [step, hphase]
      rw [hstep]
      refine ⟨fun _ => rfl, fun hloses => ?_⟩
      cases attempt with
      | unreached interrupted => exact hloses.elim
      | reached call answer =>
        obtain ⟨row, n, rest, accepted, hphase', -⟩ := hloses
        rw [hphase] at hphase'
        cases hphase'
  | post payload call =>
    have hcalled := consume_called valid router s none payload call
    refine ⟨fun _ => ?_, fun hloses => hloses.elim⟩
    have hcommits := hcalled.commits id
    simp only [reduceCtorEq, and_false, if_false, Nat.add_zero] at hcommits
    show Loop.commits _ id + _ = _ + List.count id (Loop.sender _).acceptances
    simp only [step]
    rw [hcalled.sender, hcommits]
    rfl
  | crash =>
    have hcount : (s.step valid router sha1 .crash).acceptances id =
        if s.sender.marked id then s.acceptances id else 0 := by
      show (s.sender.acceptances.filter s.sender.marked).count id = _
      by_cases hmarked : s.sender.marked id = true
      · rw [if_pos hmarked, List.count_filter hmarked]
        rfl
      · rw [if_neg hmarked, List.count_eq_zero]
        exact fun hid => hmarked (List.mem_filter.mp hid).2
    have hcommits : (s.step valid router sha1 .crash).commits id = s.commits id := rfl
    intro s'
    rw [show s'.acceptances id = _ from hcount, show s'.commits id = _ from hcommits]
    by_cases hmarked : s.sender.marked id = true
    · rw [if_pos hmarked]
      refine ⟨fun _ => rfl, fun hloses => ?_⟩
      exact absurd hmarked (by rw [hloses.2]; exact Bool.false_ne_true)
    · rw [if_neg hmarked]
      have hfalse : s.sender.marked id = false := Bool.eq_false_iff.mpr hmarked
      constructor
      · intro hkeeps
        have hnot : id ∉ s.sender.acceptances := by
          intro hid
          rcases h.sender.rows.settled id hid with hdone | hmark
          · exact hmarked (Service.marked_eq_true.mpr hdone)
          · exact hkeeps ⟨hmark, hfalse⟩
        rw [acceptances, List.count_eq_zero.mpr hnot]
      · rintro ⟨⟨d, hd⟩, -⟩
        have hid := (h.sender.rows.marking d id hd).1
        rw [acceptances, List.count_eq_one_of_mem h.sender.rows.once hid]

/-! ### Runs -/

theorem inv_run (valid : Disposition → Bool) (router : Router) (sha1 : List Char → String)
    (events : List (Event ι)) :
    (Machine.run (step valid router sha1) (initial : Loop ι) events).Inv :=
  Machine.run_invariant (P := Inv) (fun _ event h => inv_step valid router sha1 h event) inv_initial
    events

/-- Without a loss the records of a row are its acceptances; after one they
    are more. -/
theorem account_run (valid : Disposition → Bool) (router : Router) (sha1 : List Char → String)
    (events : List (Event ι)) (id : String) :
    let s := Machine.run (step valid router sha1) (initial : Loop ι) events
    let keeps := Machine.Meets (step valid router sha1)
      (fun s event => ¬ s.Loses valid router event id) (initial : Loop ι) events
    (keeps → s.commits id = s.acceptances id) ∧ (¬ keeps → s.acceptances id < s.commits id) := by
  induction events using List.reverseRecOn with
  | nil =>
    refine ⟨fun _ => rfl, fun hnot => ?_⟩
    exact absurd (Machine.Meets.nil _ _ _) hnot
  | append_singleton events event ih =>
    intro s keeps
    obtain ⟨hkept, hlost⟩ := ih
    obtain ⟨hsame, hmore⟩ :=
      account_step valid router sha1 (inv_run valid router sha1 events) event id
    rw [← Machine.run_snoc (step valid router sha1)] at hsame hmore
    change _ → s.commits id + _ = _ + s.acceptances id at hsame
    change _ → s.commits id + _ = _ + s.acceptances id + 1 at hmore
    constructor
    · intro hkeeps
      have hbefore := hkept (hkeeps.of_initial (List.prefix_append events [event]))
      have hlast := hsame hkeeps.last
      show s.commits id = s.acceptances id
      omega
    · intro hnot
      show s.acceptances id < s.commits id
      by_cases hloses : (Machine.run (step valid router sha1) (initial : Loop ι) events).Loses valid
          router event id
      · have hlast := hmore hloses
        by_cases hbefore : Machine.Meets (step valid router sha1)
            (fun s event => ¬ s.Loses valid router event id) (initial : Loop ι) events
        · have := hkept hbefore
          omega
        · have := hlost hbefore
          omega
      · have hlast := hsame hloses
        have := hlost fun hbefore => hnot (hbefore.snoc hloses)
        omega

/-- Whatever the drains, the router and the crashes do: one record and one
    event stem from a row that is marked exactly when no step of the run has
    lost an acceptance of the row. -/
theorem fed_once_iff (valid : Disposition → Bool) (router : Router) (sha1 : List Char → String)
    (events : List (Event ι)) {id : String} {row : DispRow}
    (hrow : (Machine.run (step valid router sha1) (initial : Loop ι)
      events).sender.store.committed.dispositions.get? id = some row)
    (hdelivered : row.delivered = true) :
    (Machine.run (step valid router sha1) (initial : Loop ι) events).FedOnce id ↔
      Machine.Meets (step valid router sha1) (fun s event => ¬ s.Loses valid router event id)
        (initial : Loop ι) events := by
  have hinv := inv_run valid router sha1 events
  obtain ⟨hkept, hlost⟩ := account_run valid router sha1 events id
  rw [← hinv.sender.clean] at hrow
  have hmem := hinv.sender.rows.marked id row hrow hdelivered
  have hone := List.count_eq_one_of_mem hinv.sender.rows.once hmem
  rw [hinv.fedOnce_iff]
  constructor
  · intro hcommits
    by_contra hnot
    have hlt := hlost hnot
    rw [acceptances, hone, hcommits] at hlt
    exact absurd hlt (lt_irrefl 1)
  · intro hkeeps
    rw [hkept hkeeps]
    exact hone

end Loop

section Sample

open History

/-- One analyst with one session. -/
def sampleRouter : Router where
  tokens := fun token =>
    if token = "secret" then some ⟨some "soc-ui", some "alice", some "acme", some 100, true⟩
    else none
  ttl := 60
  ttl_pos := by decide
  ttl_le := by decide

def sampleCall (identifier auditId : String) : Call where
  authorization := "Bearer secret"
  sourceIp := ""
  now := 10
  identifier := identifier
  auditId := auditId
  fault := none

/-- A case is resolved with one verdict, and a drain claims its row. -/
def claimed : List (Event Unit) :=
  [.own ⟨.create (newCase "c1" "acme" "beacon" (some "alice") "alice" "2026-09-01T00:00:00Z") none,
      nofun⟩,
    .own ⟨.mutate "c1" ["acme"] (fun case => runScript case
      ((investigate ++ resolve).map .op ++ [.emit [sampleVerdict]])) none, nofun⟩,
    .own ⟨.call () "acme" ["acme"] 3, nofun⟩,
    .own ⟨.claim (), nofun⟩]

/-- The answer arrives and the row is marked. -/
def answered : List (Event Unit) :=
  claimed ++ [.attempt () (.reached (sampleCall "u1" "a1") .arrives), .own ⟨.mark (), nofun⟩]

/-- The first answer is lost, the second arrives. -/
def lostAnswer : List (Event Unit) :=
  claimed ++ [.attempt () (.reached (sampleCall "u1" "a1") .lost),
    .attempt () (.reached (sampleCall "u2" "a2") .arrives), .own ⟨.mark (), nofun⟩]

def sampleRun (events : List (Event Unit)) : Loop Unit :=
  Machine.run (Loop.step (fun _ => true) sampleRouter String.ofList) .initial events

def sampleRow : String := dispId String.ofList "c1" 5 sampleDisposition

theorem exists_marked (s : Loop Unit) (id : String)
    (h : (s.sender.store.committed.dispositions.get? id).any DispRow.delivered = true) :
    ∃ row, s.sender.store.committed.dispositions.get? id = some row ∧ row.delivered = true := by
  simpa [Option.any_eq_true] using h

/-- The marked row of the run in which the answer arrives. -/
theorem answered_fed_once : ∃ row,
    (sampleRun answered).sender.store.committed.dispositions.get? sampleRow = some row ∧
      row.delivered = true ∧ ((sampleRun answered).FedOnce sampleRow ↔
        Machine.Meets (Loop.step (fun _ => true) sampleRouter String.ofList)
          (fun s event => ¬ s.Loses (fun _ => true) sampleRouter event sampleRow) .initial
          answered) := by
  obtain ⟨row, hrow, hdelivered⟩ :=
    exists_marked (sampleRun answered) sampleRow (by decide +kernel)
  exact ⟨row, hrow, hdelivered, Loop.fed_once_iff _ _ _ answered hrow hdelivered⟩

/-- Two records stem from the marked row after an answer was lost. -/
theorem lost_answer_fed_twice : ∃ row,
    (sampleRun lostAnswer).sender.store.committed.dispositions.get? sampleRow = some row ∧
      row.delivered = true ∧ ¬ (sampleRun lostAnswer).FedOnce sampleRow := by
  obtain ⟨row, hrow, hdelivered⟩ :=
    exists_marked (sampleRun lostAnswer) sampleRow (by decide +kernel)
  have htwo : ((sampleRun lostAnswer).feedbackOf sampleRow).length = 2 := by decide +kernel
  refine ⟨row, hrow, hdelivered, fun h => ?_⟩
  rw [h.1] at htwo
  exact absurd htwo (by decide)

end Sample

end FeedbackService
