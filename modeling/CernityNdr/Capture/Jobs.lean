import CernityNdr.Capture.Keys
import CernityNdr.Framework.Run

/-! # The Capture Jobs of a Sensor

    The model of `_capture` and of the arm branch of `main` of
    `services/capture-agent/app.py`: a counter of the running jobs behind a
    lock, and one thread for each job. The threads interleave in any order,
    and every call may raise.

    * `slots_hold`: the counter, and when a slot is lost for good.
    * `lost_iff`: where a slot is lost. -/

namespace CaptureAgent

/-! ### State -/

/-- A directive, as far as `main` and `_capture` read it. -/
structure Order extends Directive where
  /-- `tenant_id` has no lone surrogate, for which the `encode` of
      `tenant_segment` raises -/
  encodable : Bool
  /-- `ttl_secs` and `max_bytes` are no infinite numbers, for which `int`
      raises an error that neither function catches -/
  finite : Bool

/-- What `_capture` computes in front of its `try` raises: `pcap_key`,
    `ttl_secs` or `max_bytes`. The value and the profile were validated. -/
def Order.Raises (d : Order) : Prop := d.encodable = false ∨ d.finite = false

instance (d : Order) : Decidable d.Raises := inferInstanceAs (Decidable (_ ∨ _))

/-- Where a thread of `_capture` stands. -/
inductive Phase
  /-- the slot is taken -/
  | starting
  /-- `dataset_add` has returned -/
  | armed
  /-- past the disarm, up to the final `flush` -/
  | closing
  /-- the slot was given back -/
  | ended
  /-- the thread ended without giving its slot back -/
  | lost
deriving DecidableEq, Repr

structure Job where
  order : Order
  phase : Phase

structure Agent where
  /-- `_active` -/
  active : Int
  /-- the threads of this process -/
  jobs : List Job

def Agent.init : Agent := ⟨0, []⟩

def Agent.setPhase (a : Agent) (i : Nat) (job : Job) (phase : Phase) : Agent :=
  { a with jobs := a.jobs.set i { job with phase := phase } }

/-! ### Steps -/

variable (limit : Int)

/-- `budget_ok`. -/
def budgetOk (activeJobs : Int) : Bool × String :=
  if limit ≤ activeJobs then (false, "agent_max_concurrent") else (true, "ok")

inductive Input
  /-- `main` reads an arm directive for this sensor -/
  | directive (d : Order)
  /-- thread `i` calls `dataset_add`, which returns or raises -/
  | arm (i : Nat) (returned : Bool)
  /-- thread `i` calls `dataset_remove` -/
  | disarm (i : Nat)
  /-- thread `i` reaches its final `flush`, which returns or raises -/
  | flush (i : Nat) (returned : Bool)
  /-- the process ends and starts again -/
  | restart

/-- The arm branch of `main`. -/
def Agent.arrive (a : Agent) (d : Order) : Agent :=
  if (validate d.toDirective).1 && (budgetOk limit a.active).1 then
    { a with active := a.active + 1, jobs := a.jobs ++ [⟨d, .starting⟩] }
  else a

/-- `_capture` up to the wait. -/
def Agent.arm (a : Agent) (i : Nat) (returned : Bool) (job : Job) : Agent :=
  if job.order.Raises then a.setPhase i job .lost
  else a.setPhase i job (if returned then .armed else .closing)

/-- The inner `finally`, which catches what `dataset_remove` raises. -/
def Agent.disarm (a : Agent) (i : Nat) (job : Job) : Agent := a.setPhase i job .closing

/-- The end of the outer `finally`: the slot is given back after the `flush`. -/
def Agent.flush (a : Agent) (i : Nat) (returned : Bool) (job : Job) : Agent :=
  if returned then { a.setPhase i job .ended with active := a.active - 1 }
  else a.setPhase i job .lost

/-- Apply `f` to thread `i` when it stands at `phase`. -/
def Agent.at (a : Agent) (i : Nat) (phase : Phase) (f : Job → Agent) : Agent :=
  match a.jobs[i]? with
  | some job => if job.phase = phase then f job else a
  | none => a

def step (a : Agent) : Input → Agent
  | .directive d => a.arrive limit d
  | .arm i returned => a.at i .starting (a.arm i returned)
  | .disarm i => a.at i .armed (a.disarm i)
  | .flush i returned => a.at i .closing (a.flush i returned)
  | .restart => .init

/-- The agent after these inputs. -/
def after (inputs : List Input) : Agent := Machine.run (step limit) .init inputs

/-! ### What a thread does -/

theorem at_cases (a : Agent) (i : Nat) (phase : Phase) (f : Job → Agent) :
    ((∀ job, a.jobs[i]? = some job → job.phase ≠ phase) ∧ a.at i phase f = a) ∨
      ∃ job, a.jobs[i]? = some job ∧ job.phase = phase ∧ a.at i phase f = f job := by
  unfold Agent.at
  cases hjob : a.jobs[i]? with
  | none => exact Or.inl ⟨by simp, rfl⟩
  | some job =>
    by_cases hphase : job.phase = phase
    · exact Or.inr ⟨job, rfl, hphase, if_pos hphase⟩
    · exact Or.inl ⟨by simpa using hphase, if_neg hphase⟩

theorem at_eq {a : Agent} {i : Nat} {phase : Phase} {f : Job → Agent} {job : Job}
    (h : a.jobs[i]? = some job) (hphase : job.phase = phase) : a.at i phase f = f job := by
  simp [Agent.at, h, hphase]

/-- The steps by what they change; most inputs change something only when the
    thread that they are about stands in the right place. -/
inductive Stepped (a : Agent) : Input → Agent → Prop
  | idle (i : Input) : Stepped a i a
  | admitted (d : Order) (hroom : a.active < limit) : Stepped a (.directive d)
      { a with active := a.active + 1, jobs := a.jobs ++ [⟨d, .starting⟩] }
  | raised (n : Nat) (returned : Bool) (job : Job) (hjob : a.jobs[n]? = some job)
      (hphase : job.phase = .starting) (hraises : job.order.Raises) :
      Stepped a (.arm n returned) (a.setPhase n job .lost)
  | called (n : Nat) (returned : Bool) (job : Job) (hjob : a.jobs[n]? = some job)
      (hphase : job.phase = .starting) : Stepped a (.arm n returned)
      (a.setPhase n job (if returned then .armed else .closing))
  | disarmed (n : Nat) (job : Job) (hjob : a.jobs[n]? = some job) (hphase : job.phase = .armed) :
      Stepped a (.disarm n) (a.setPhase n job .closing)
  | ended (n : Nat) (job : Job) (hjob : a.jobs[n]? = some job) (hphase : job.phase = .closing) :
      Stepped a (.flush n true) { a.setPhase n job .ended with active := a.active - 1 }
  | lost (n : Nat) (job : Job) (hjob : a.jobs[n]? = some job) (hphase : job.phase = .closing) :
      Stepped a (.flush n false) (a.setPhase n job .lost)
  | restarted : Stepped a .restart .init

theorem step_stepped (a : Agent) (i : Input) : Stepped limit a i (step limit a i) := by
  cases i with
  | directive d =>
    show Stepped limit a _ (a.arrive limit d)
    unfold Agent.arrive
    split
    · next hok =>
      have hroom : a.active < limit := by
        by_contra hfull
        simp [budgetOk, Int.not_lt.mp hfull] at hok
      exact .admitted d hroom
    · exact .idle _
  | arm n returned =>
    show Stepped limit a _ (a.at n .starting (a.arm n returned))
    rcases at_cases a n .starting (a.arm n returned) with ⟨-, heq⟩ | ⟨job, hjob, hphase, heq⟩
    · rw [heq]
      exact .idle _
    · rw [heq]
      unfold Agent.arm
      split
      · next hraises => exact .raised n returned job hjob hphase hraises
      · exact .called n returned job hjob hphase
  | disarm n =>
    show Stepped limit a _ (a.at n .armed (a.disarm n))
    rcases at_cases a n .armed (a.disarm n) with ⟨-, heq⟩ | ⟨job, hjob, hphase, heq⟩
    · rw [heq]
      exact .idle _
    · rw [heq]
      exact .disarmed n job hjob hphase
  | flush n returned =>
    show Stepped limit a _ (a.at n .closing (a.flush n returned))
    rcases at_cases a n .closing (a.flush n returned) with ⟨-, heq⟩ | ⟨job, hjob, hphase, heq⟩
    · rw [heq]
      exact .idle _
    · rw [heq]
      cases returned with
      | true => exact .ended n job hjob hphase
      | false => exact .lost n job hjob hphase
  | restart => exact .restarted

@[simp] theorem jobs_setPhase (a : Agent) (n : Nat) (job : Job) (phase : Phase) :
    (a.setPhase n job phase).jobs = a.jobs.set n { job with phase := phase } := rfl

@[simp] theorem active_setPhase (a : Agent) (n : Nat) (job : Job) (phase : Phase) :
    (a.setPhase n job phase).active = a.active := rfl

/-! ### Counting slots -/

/-- The thread has its slot, and may still give it back. -/
def Job.isLive (job : Job) : Bool := job.phase ∉ [Phase.ended, .lost]

def Job.isLost (job : Job) : Bool := job.phase = .lost

def Agent.live (a : Agent) : Nat := a.jobs.countP Job.isLive

def Agent.lost (a : Agent) : Nat := a.jobs.countP Job.isLost

/-- Counting after one thread has changed its phase. -/
theorem countP_set_phase {jobs : List Job} {n : Nat} {job : Job} (h : jobs[n]? = some job)
    (phase : Phase) (p : Job → Bool) :
    (jobs.set n { job with phase := phase }).countP p + (if p job then 1 else 0) =
      jobs.countP p + (if p { job with phase := phase } then 1 else 0) := by
  obtain ⟨hn, hget⟩ := List.getElem?_eq_some_iff.mp h
  have hle := List.boole_getElem_le_countP (p := p) hn
  rw [List.countP_set hn]
  rw [hget] at hle ⊢
  omega

/-- A live thread that changes its phase is lost where the new one is `lost`. -/
theorem lost_setPhase {a : Agent} {n : Nat} {job : Job} (h : a.jobs[n]? = some job)
    (hlive : job.isLive = true) (phase : Phase) :
    (a.setPhase n job phase).lost = a.lost + if phase = .lost then 1 else 0 := by
  have hcount := countP_set_phase h phase Job.isLost
  have hnot : job.isLost = false := by
    simp [Job.isLive] at hlive
    simp [Job.isLost, hlive]
  have hnew : ({ job with phase := phase } : Job).isLost = true ↔ phase = .lost := by
    simp [Job.isLost]
  rw [hnot] at hcount
  simp only [Bool.false_eq_true, if_false, Nat.add_zero, hnew] at hcount
  exact hcount

/-- A live thread that goes on or gets lost keeps its slot. -/
theorem held_setPhase {a : Agent} {n : Nat} {job : Job} (h : a.jobs[n]? = some job)
    (hlive : job.isLive = true) (phase : Phase) (hphase : phase ≠ .ended) :
    (a.setPhase n job phase).live + (a.setPhase n job phase).lost = a.live + a.lost := by
  have hcount := countP_set_phase h phase Job.isLive
  have hone : (if ({ job with phase := phase } : Job).isLive = true then 1 else 0) +
      (if phase = .lost then 1 else 0) = 1 := by
    cases phase <;> simp_all [Job.isLive]
  rw [lost_setPhase h hlive, Agent.live, Agent.live, jobs_setPhase]
  simp only [hlive, if_true] at hcount
  omega

/-- The counter is that of the slots that are held, and within the limit. -/
structure Counted (a : Agent) : Prop where
  held : a.active = a.live + a.lost
  bounded : a.active ≤ max limit 0

theorem isLive_of_phase {job : Job} {phase : Phase} (h : job.phase = phase)
    (hphase : phase ∉ [Phase.ended, .lost]) : job.isLive = true := by
  simpa [Job.isLive, h] using hphase

theorem counted_step {a : Agent} (h : Counted limit a) (i : Input) : Counted limit (step limit a i) := by
  obtain ⟨hheld, hbounded⟩ := h
  have hstep := step_stepped limit a i
  generalize step limit a i = a' at hstep ⊢
  cases hstep with
  | idle => exact ⟨hheld, hbounded⟩
  | admitted d hroom =>
    constructor
    · simp [Agent.live, Agent.lost, List.countP_append, Job.isLive, Job.isLost] at hheld ⊢
      omega
    · show a.active + 1 ≤ _
      omega
  | raised n returned job hjob hphase hraises =>
    have hkept := held_setPhase hjob (isLive_of_phase hphase (by simp)) .lost (by simp)
    exact ⟨by rw [active_setPhase]; omega, hbounded⟩
  | called n returned job hjob hphase =>
    have hkept := held_setPhase hjob (isLive_of_phase hphase (by simp))
      (if returned then .armed else .closing) (by split <;> simp)
    exact ⟨by rw [active_setPhase]; omega, hbounded⟩
  | disarmed n job hjob hphase =>
    have hkept := held_setPhase hjob (isLive_of_phase hphase (by simp)) .closing (by simp)
    exact ⟨by rw [active_setPhase]; omega, hbounded⟩
  | ended n job hjob hphase =>
    have hisLive := isLive_of_phase hphase (by simp)
    have hlive := countP_set_phase hjob .ended Job.isLive
    have hlost := lost_setPhase hjob hisLive .ended
    constructor
    · show a.active - 1 = ((a.setPhase n job .ended).live : Int) + (a.setPhase n job .ended).lost
      rw [hlost, Agent.live, jobs_setPhase]
      simp only [hisLive, if_true] at hlive
      simp [Job.isLive] at hlive
      simp only [reduceCtorEq, if_false]
      unfold Agent.live at hheld
      omega
    · show a.active - 1 ≤ _
      omega
  | lost n job hjob hphase =>
    have hkept := held_setPhase hjob (isLive_of_phase hphase (by simp)) .lost (by simp)
    exact ⟨by rw [active_setPhase]; omega, hbounded⟩
  | restarted => exact ⟨rfl, by show (0 : Int) ≤ _; omega⟩

theorem counted_after (inputs : List Input) : Counted limit (after limit inputs) :=
  Machine.run_invariant (P := Counted limit) (fun _ i h => counted_step limit h i)
    ⟨rfl, by show (0 : Int) ≤ _; omega⟩ inputs

/-! ### Lost slots -/

/-- The input ends a thread that still has its slot. -/
def Loses (a : Agent) : Input → Prop
  | .arm n _ => ∃ job, a.jobs[n]? = some job ∧ job.phase = .starting ∧ job.order.Raises
  | .flush n false => ∃ job, a.jobs[n]? = some job ∧ job.phase = .closing
  | _ => False

/-- The only inputs that lose a slot. -/
theorem lost_step {a : Agent} {i : Input} (hi : i ≠ .restart) :
    (step limit a i).lost = a.lost ∧ ¬ Loses a i ∨ (step limit a i).lost = a.lost + 1 ∧ Loses a i := by
  have hstep := step_stepped limit a i
  cases i with
  | restart => exact absurd rfl hi
  | directive d =>
    left
    refine ⟨?_, id⟩
    generalize step limit a (.directive d) = a' at hstep ⊢
    cases hstep with
    | idle => rfl
    | admitted _ hroom => simp [Agent.lost, Job.isLost]
  | arm n returned =>
    by_cases hloses : Loses a (.arm n returned)
    · right
      obtain ⟨job, hjob, hphase, hraises⟩ := hloses
      have heq : step limit a (.arm n returned) = a.setPhase n job .lost := by
        show a.at n .starting (a.arm n returned) = _
        rw [at_eq hjob hphase, Agent.arm, if_pos hraises]
      refine ⟨?_, job, hjob, hphase, hraises⟩
      rw [heq, lost_setPhase hjob (isLive_of_phase hphase (by simp))]
      rfl
    · left
      refine ⟨?_, hloses⟩
      generalize step limit a (.arm n returned) = a' at hstep ⊢
      cases hstep with
      | idle => rfl
      | raised _ _ job hjob hphase hraises => exact absurd ⟨job, hjob, hphase, hraises⟩ hloses
      | called _ _ job hjob hphase =>
        rw [lost_setPhase hjob (isLive_of_phase hphase (by simp))]
        cases returned <;> rfl
  | disarm n =>
    left
    refine ⟨?_, id⟩
    generalize step limit a (.disarm n) = a' at hstep ⊢
    cases hstep with
    | idle => rfl
    | disarmed _ job hjob hphase =>
      rw [lost_setPhase hjob (isLive_of_phase hphase (by simp))]
      rfl
  | flush n returned =>
    by_cases hloses : Loses a (.flush n returned)
    · right
      cases returned with
      | true => exact hloses.elim
      | false =>
        obtain ⟨job, hjob, hphase⟩ := hloses
        have heq : step limit a (.flush n false) = a.setPhase n job .lost := by
          show a.at n .closing (a.flush n false) = _
          rw [at_eq hjob hphase]
          rfl
        refine ⟨?_, job, hjob, hphase⟩
        rw [heq, lost_setPhase hjob (isLive_of_phase hphase (by simp))]
        rfl
    · left
      refine ⟨?_, hloses⟩
      generalize step limit a (.flush n returned) = a' at hstep ⊢
      cases hstep with
      | idle => rfl
      | ended _ job hjob hphase =>
        show (a.setPhase n job .ended).lost = _
        rw [lost_setPhase hjob (isLive_of_phase hphase (by simp))]
        rfl
      | lost _ job hjob hphase => exact absurd ⟨job, hjob, hphase⟩ hloses

theorem lost_le_run (a : Agent) {more : List Input} (h : ∀ i ∈ more, i ≠ .restart) :
    a.lost ≤ (Machine.run (step limit) a more).lost := by
  apply Machine.run_invariant_of_meets (C := fun _ i => i ≠ .restart)
    (P := fun a' : Agent => a.lost ≤ a'.lost) _ le_rfl (Machine.Meets.of_forall h)
  intro a' i hi hle
  rcases lost_step limit (a := a') hi with ⟨heq, -⟩ | ⟨heq, -⟩ <;> omega

/-- Without a restart slots are lost exactly where a thread ends with its slot:
    its `flush` raises, its tenant cannot be encoded, or the numbers of its
    directive have no integer part. -/
theorem lost_iff {inputs : List Input} (h : ∀ i ∈ inputs, i ≠ .restart) :
    0 < (after limit inputs).lost ↔
      ∃ pre i post, inputs = pre ++ i :: post ∧ Loses (after limit pre) i := by
  constructor
  · intro hlost
    obtain ⟨pre, i, post, heq, hbefore, hafter⟩ := Machine.exists_turn
      (P := fun a : Agent => 0 < a.lost) (by simp [Agent.init, Agent.lost]) hlost
    refine ⟨pre, i, post, heq, ?_⟩
    have hi : i ≠ .restart := h i (by simp [heq])
    rw [Machine.run_snoc] at hafter
    rcases lost_step limit (a := after limit pre) hi with ⟨hsame, -⟩ | ⟨-, hloses⟩
    · have hsame' : (step limit (Machine.run (step limit) .init pre) i).lost =
          (Machine.run (step limit) .init pre).lost := hsame
      omega
    · exact hloses
  · intro ⟨pre, i, post, heq, hloses⟩
    have hi : i ≠ .restart := h i (by simp [heq])
    have hpost : ∀ j ∈ post, j ≠ .restart := fun j hj => h j (by simp [heq, hj])
    have hrun : after limit inputs =
        Machine.run (step limit) (step limit (after limit pre) i) post := by
      rw [after, heq, Machine.run_append, Machine.run_cons]
      rfl
    have hle := lost_le_run limit (step limit (after limit pre) i) hpost
    rw [hrun]
    rcases lost_step limit (a := after limit pre) hi with ⟨-, hnot⟩ | ⟨hmore, -⟩
    · exact absurd hloses hnot
    · omega

/-- A directive for packets of one address. -/
def addressOrder (encodable finite : Bool) : Order :=
  ⟨⟨none, none, none, some "10.0.0.1", none⟩, encodable, finite⟩

/-- A directive whose tenant cannot be encoded takes a slot for good. -/
theorem lost_iff_surrogate : 0 < (after 2 [.directive (addressOrder false true), .arm 0 true]).lost :=
  (lost_iff 2 (by simp)).mpr ⟨[.directive (addressOrder false true)], _, [], rfl,
    ⟨addressOrder false true, .starting⟩, rfl, rfl, Or.inl rfl⟩

/-- The counter of a process: it is the number of the threads that hold a slot,
    it stays within the limit, and when as many slots are lost as there are, no
    directive gets a thread until the process is restarted. -/
theorem slots_hold (inputs : List Input) :
    (after limit inputs).active = (after limit inputs).live + (after limit inputs).lost ∧
      (after limit inputs).active ≤ max limit 0 ∧
      ∀ more, (∀ i ∈ more, i ≠ Input.restart) → limit ≤ (after limit inputs).lost →
        (after limit (inputs ++ more)).jobs.length = (after limit inputs).jobs.length := by
  obtain ⟨hheld, hbounded⟩ := counted_after limit inputs
  refine ⟨hheld, hbounded, ?_⟩
  intro more hmore hfull
  rw [after, Machine.run_append]
  have hstep : ∀ (a : Agent) (i : Input), i ≠ .restart →
      (Counted limit a ∧ limit ≤ a.lost ∧ a.jobs.length = (after limit inputs).jobs.length) →
      Counted limit (step limit a i) ∧ limit ≤ (step limit a i).lost ∧
        (step limit a i).jobs.length = (after limit inputs).jobs.length := by
    intro a i hi ⟨hcounted, hlost, hlength⟩
    have hmono : a.lost ≤ (step limit a i).lost := by
      rcases lost_step limit (a := a) hi with ⟨heq, -⟩ | ⟨heq, -⟩ <;> omega
    refine ⟨counted_step limit hcounted i, by omega, ?_⟩
    have hstep := step_stepped limit a i
    have hheld := hcounted.held
    generalize step limit a i = a' at hstep ⊢
    cases hstep with
    | idle => exact hlength
    | admitted d hroom => omega
    | restarted => exact absurd rfl hi
    | ended n job hjob hphase => simpa using hlength
    | _ => simpa using hlength
  have hinv := Machine.run_invariant_of_meets (C := fun _ i => i ≠ Input.restart)
    (P := fun a : Agent => Counted limit a ∧ limit ≤ a.lost ∧
      a.jobs.length = (after limit inputs).jobs.length) hstep ⟨⟨hheld, hbounded⟩, hfull, rfl⟩
    (Machine.Meets.of_forall hmore)
  exact hinv.2.2

/-- With one slot, one `flush` that raises ends the captures of the sensor. -/
theorem slots_hold_full : (after 1 ([.directive (addressOrder true true), .arm 0 true, .disarm 0,
    .flush 0 false] ++ List.replicate 3 (.directive (addressOrder true true)))).jobs.length = 1 :=
  (slots_hold 1 _).2.2 _ (by simp) (by decide)

end CaptureAgent
