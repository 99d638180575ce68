import CernityNdr.Framework.Failing
import CernityNdr.Framework.Run
import CernityNdr.Intel.Store

/-! # Atomicity of Writes

    Runs of the writing methods of the store, in which any statement or
    commit may raise. `upsert_many` rolls back when it raises; `suppress`
    and `record_match` do not, so the statements that ran stay in the open
    transaction of the shared connection, and the next commit, of whichever
    method, makes them durable.

    * `perform_cases`: what one call does, with each way to fail.
    * `Leaks`: what the open transaction may hold between two calls.
    * `committed_eq_produced_iff`: the committed database is that of the
      calls that returned, exactly when no commit finds such a leak. -/

namespace ThreatIntel

/-! ### Calls -/

/-- A call of a writing method. -/
inductive Write
  | upsertMany (records : List IntelRecord) (deletes : List Key)
  | suppress (args : IntelStore.SuppressArgs)
  | recordMatch (tenant : String) (hit : IntelRecord) (observation : Json.Dict) (now : ℚ)
      (id : String)

/-- The call, without what it returns. -/
def IntelStore.perform (s : IntelStore) (w : Write) (fault : Fault) :
    Except Failure Unit × IntelStore :=
  match w with
  | .upsertMany records deletes => s.upsertMany records deletes fault
  | .suppress args => ((s.suppress args fault).1.map fun _ => (), (s.suppress args fault).2)
  | .recordMatch tenant hit observation now id => s.recordMatch tenant hit observation now id fault

/-- The store, and the calls that returned. -/
structure Writing where
  store : IntelStore
  returned : List Write

namespace Writing

def empty : Writing := ⟨.empty, []⟩

def step (s : Writing) (call : Write × Fault) : Writing :=
  match s.store.perform call.1 call.2 with
  | (.ok _, store) => ⟨store, s.returned ++ [call.1]⟩
  | (.error _, store) => ⟨store, s.returned⟩

end Writing

/-- The database that the calls produce when nothing raises. -/
def produced (calls : List Write) : Tables :=
  (calls.foldl (fun s w => (s.perform w none).2) IntelStore.empty).committed

/-- Every suppression has its audit event. -/
def Tables.Audited (t : Tables) : Prop :=
  ∀ supp ∈ t.suppressions, ∃ aid, supp.event aid ∈ t.audit

/-! ### One call -/

namespace Write

/-- The statements that the call runs once its checks have passed. -/
def statements : Write → Except Failure (List Statement)
  | upsertMany records deletes => .ok (records.map .upsert ++ deletes.map .delete)
  | suppress args =>
    args.row.map fun supp => [.insertSuppression supp, .insertAudit (supp.event args.aid)]
  | recordMatch tenant hit observation now id =>
    if hit.tenant ≠ tenant then .error .valueError
    else .ok [.insertAudit (IntelStore.matchEvent id tenant now hit observation)]

/-- The call reaches its commit, and the commit does not raise. -/
def Commits (w : Write) (fault : Fault) : Prop :=
  ∃ sts, w.statements = .ok sts ∧ sts ≠ [] ∧ ∀ n, fault = some n → sts.length < n

/-- A statement of the call, or its commit, raises. -/
def Interrupted (w : Write) (fault : Fault) : Prop :=
  ∃ sts n, w.statements = .ok sts ∧ fault = some n ∧ n ≤ sts.length

theorem Interrupted.not_commits {w : Write} {fault : Fault} (h : w.Interrupted fault) :
    ¬ w.Commits fault := by
  obtain ⟨sts, n, hsts, hn, hle⟩ := h
  rintro ⟨sts', hsts', -, hlt⟩
  rw [hsts] at hsts'
  cases hsts'
  have := hlt n hn
  omega

theorem Interrupted.fault_ne {w : Write} (h : w.Interrupted none) : False := by
  obtain ⟨sts, n, -, hn, -⟩ := h
  cases hn

end Write

/-- What one call can do to the store. -/
inductive Performed (s : IntelStore) (w : Write) (fault : Fault) :
    Except Failure Unit → IntelStore → Prop
  /-- no statement runs -/
  | idle (h : w.statements = .ok []) : Performed s w fault (.ok ()) s
  | commits (sts : List Statement) (h : w.statements = .ok sts) (hc : w.Commits fault) :
      Performed s w fault (.ok ()) (s.execute Statement.apply sts).commit
  /-- a check raises -/
  | refused (e : Failure) (h : w.statements = .error e) : Performed s w fault (.error e) s
  | rolledBack (e : Failure) (hf : w.Interrupted fault) : Performed s w fault (.error e) s.rollback
  /-- the first statements stay in the open transaction -/
  | leaves (e : Failure) (sts : List Statement) (n : Nat) (h : w.statements = .ok sts)
      (hw : ∀ records deletes, w ≠ .upsertMany records deletes) (hf : w.Interrupted fault) :
      Performed s w fault (.error e) (s.execute Statement.apply (sts.take n))

/-- A method that does not roll back commits its statements. -/
theorem Performed.of_ok {s s' : IntelStore} {w : Write} {fault : Fault} {sts : List Statement}
    {u : Unit} (hsts : w.statements = .ok sts) (hne : sts ≠ [])
    (hw : s.write Statement.apply sts fault = (.ok u, s')) : Performed s w fault (.ok ()) s' := by
  obtain ⟨hfault, rfl⟩ := Connection.write_eq_ok hw
  exact .commits sts hsts ⟨sts, hsts, hne, hfault⟩

/-- When it raises, it leaves the first of them. -/
theorem Performed.of_error {s s' : IntelStore} {w : Write} {fault : Fault} {sts : List Statement}
    {e : SqlError} (e' : Failure) (hsts : w.statements = .ok sts)
    (hother : ∀ records deletes, w ≠ .upsertMany records deletes)
    (hw : s.write Statement.apply sts fault = (.error e, s')) :
    Performed s w fault (.error e') s' := by
  obtain ⟨n, hn, hle, rfl⟩ := Connection.write_eq_error hw
  exact .leaves e' sts n hsts hother ⟨sts, n, hsts, hn, hle⟩

theorem perform_cases (s : IntelStore) (w : Write) (fault : Fault) :
    Performed s w fault (s.perform w fault).1 (s.perform w fault).2 := by
  cases w with
  | upsertMany records deletes =>
    simp only [IntelStore.perform, IntelStore.upsertMany]
    by_cases hempty : records = [] ∧ deletes = []
    · rw [if_pos hempty]
      exact .idle (by simp [Write.statements, hempty])
    · have hne : records.map Statement.upsert ++ deletes.map Statement.delete ≠ [] := by
        simpa using hempty
      rw [if_neg hempty]
      split
      · next u s' hw =>
        obtain ⟨hfault, rfl⟩ := Connection.writeOrRollback_eq_ok hw
        exact .commits _ rfl ⟨_, rfl, hne, hfault⟩
      · next e s' hw =>
        obtain ⟨⟨n, hn, hle⟩, rfl⟩ := Connection.writeOrRollback_eq_error hw
        exact .rolledBack _ ⟨_, n, rfl, hn, hle⟩
  | suppress args =>
    simp only [IntelStore.perform, IntelStore.suppress]
    cases hrow : args.row with
    | error e => exact .refused e (by rw [Write.statements, hrow]; rfl)
    | ok supp =>
      have hsts : (Write.suppress args).statements =
          .ok [.insertSuppression supp, .insertAudit (supp.event args.aid)] := by
        rw [Write.statements, hrow]
        rfl
      simp only
      split
      · next u s' hw => exact .of_ok hsts (by simp) hw
      · next e s' hw => exact .of_error _ hsts (by simp) hw
  | recordMatch tenant hit observation now id =>
    simp only [IntelStore.perform, IntelStore.recordMatch]
    by_cases htenant : hit.tenant ≠ tenant
    · rw [if_pos htenant]
      exact .refused _ (by rw [Write.statements, if_pos htenant])
    · have hsts : (Write.recordMatch tenant hit observation now id).statements =
          .ok [.insertAudit (IntelStore.matchEvent id tenant now hit observation)] := by
        rw [Write.statements, if_neg htenant]
      rw [if_neg htenant]
      split
      · next u s' hw => exact .of_ok hsts (by simp) hw
      · next e s' hw => exact .of_error _ hsts (by simp) hw

/-! ### What the calls that returned produce -/

@[simp] theorem Tables.execute_nil (t : Tables) : t.execute [] = t := rfl

/-- On a clean connection a call that nothing disturbs commits its own
    statements and no others. -/
theorem perform_undisturbed {s : IntelStore} (h : s.Clean) (w : Write) :
    (s.perform w none).2.Clean ∧ ∀ sts, w.statements = .ok sts →
      (s.perform w none).2.committed = s.committed.execute sts := by
  have hcases := perform_cases s w none
  generalize s.perform w none = out at hcases
  obtain ⟨res, s'⟩ := out
  cases hcases with
  | idle hnil =>
    refine ⟨h, fun sts hsts => ?_⟩
    rw [hnil] at hsts
    cases hsts
    rfl
  | commits sts' hsts' _ =>
    refine ⟨rfl, fun sts hsts => ?_⟩
    rw [hsts'] at hsts
    cases hsts
    show s.view.execute sts' = s.committed.execute sts'
    rw [h]
  | refused e he =>
    refine ⟨h, fun sts hsts => ?_⟩
    rw [he] at hsts
    cases hsts
  | rolledBack e hf => exact hf.fault_ne.elim
  | leaves e sts n _ _ hf => exact hf.fault_ne.elim

/-- A call whose checks pass adds its statements. -/
theorem produced_snoc {calls : List Write} {w : Write} {sts : List Statement}
    (h : w.statements = .ok sts) : produced (calls ++ [w]) = (produced calls).execute sts := by
  have hclean : ∀ ws : List Write,
      (ws.foldl (fun s w => (s.perform w none).2) IntelStore.empty).Clean := by
    intro ws
    induction ws using List.reverseRecOn with
    | nil => rfl
    | append_singleton ws w ih =>
      rw [List.foldl_append]
      exact (perform_undisturbed ih w).1
  unfold produced
  rw [List.foldl_append]
  exact (perform_undisturbed (hclean calls) w).2 sts h

/-! ### Leaks -/

/-- The suppressions that statements insert. -/
def insertedSuppressions (sts : List Statement) : List Suppression :=
  sts.filterMap fun
    | .insertSuppression supp => some supp
    | _ => none

/-- The audit events that statements insert. -/
def insertedAudit (sts : List Statement) : List AuditEvent :=
  sts.filterMap fun
    | .insertAudit e => some e
    | _ => none

/-- The tables that are only ever appended to. -/
theorem Tables.execute_appends (t : Tables) (sts : List Statement) :
    (t.execute sts).suppressions = t.suppressions ++ insertedSuppressions sts ∧
      (t.execute sts).audit = t.audit ++ insertedAudit sts := by
  induction sts generalizing t with
  | nil => simp [insertedSuppressions, insertedAudit]
  | cons st sts ih =>
    obtain ⟨hs, ha⟩ := ih (Statement.apply t st)
    show ((Statement.apply t st).execute sts).suppressions = _ ∧
      ((Statement.apply t st).execute sts).audit = _
    rw [hs, ha]
    cases st <;> simp [Statement.apply, insertedSuppressions, insertedAudit]

/-- What waits in the open transaction: audit events and suppressions. -/
def IntelStore.Leaks (s : IntelStore) : Prop :=
  s.view.indicators = s.committed.indicators ∧
    ∃ supps events, s.view.suppressions = s.committed.suppressions ++ supps ∧
      s.view.audit = s.committed.audit ++ events

theorem IntelStore.leaks_of_clean {s : IntelStore} (h : s.Clean) : s.Leaks := by
  unfold Leaks
  rw [h]
  exact ⟨rfl, [], [], by simp, by simp⟩

/-- The statements of `suppress` and `record_match` only insert. -/
theorem indicators_of_not_upsert {w : Write} {sts : List Statement} (h : w.statements = .ok sts)
    (hw : ∀ records deletes, w ≠ .upsertMany records deletes) (t : Tables) (n : Nat) :
    (t.execute (sts.take n)).indicators = t.indicators := by
  have honly : ∀ sts' : List Statement,
      (∀ st ∈ sts', (∃ supp, st = .insertSuppression supp) ∨ ∃ e, st = .insertAudit e) →
      ∀ t : Tables, (t.execute sts').indicators = t.indicators := by
    intro sts'
    induction sts' with
    | nil => exact fun _ _ => rfl
    | cons st sts' ih =>
      intro hst t
      have hrest := ih (fun st' hst' => hst st' (List.mem_cons_of_mem st hst'))
        (Statement.apply t st)
      show ((Statement.apply t st).execute sts').indicators = _
      rw [hrest]
      rcases hst st List.mem_cons_self with ⟨supp, rfl⟩ | ⟨e, rfl⟩
      · rfl
      · rfl
  refine honly _ (fun st hst => ?_) t
  have hst : st ∈ sts := List.mem_of_mem_take hst
  cases w with
  | upsertMany records deletes => exact absurd rfl (hw records deletes)
  | suppress args =>
    obtain ⟨supp, -, rfl⟩ := (Except.map_eq_ok (x := args.row)).mp h
    simp only [List.mem_cons, List.not_mem_nil, or_false] at hst
    exact hst.imp (fun heq => ⟨supp, heq⟩) fun heq => ⟨_, heq⟩
  | recordMatch tenant hit observation now id =>
    simp only [Write.statements] at h
    by_cases htenant : hit.tenant ≠ tenant
    · rw [if_pos htenant] at h
      cases h
    · rw [if_neg htenant] at h
      cases h
      exact Or.inr ⟨_, List.mem_singleton.mp hst⟩

/-- Every call leaves at most inserted rows in the open transaction. -/
theorem IntelStore.Leaks.perform {s : IntelStore} (h : s.Leaks) (w : Write) (fault : Fault) :
    (s.perform w fault).2.Leaks := by
  have hcases := perform_cases s w fault
  generalize s.perform w fault = out at hcases
  obtain ⟨res, s'⟩ := out
  cases hcases with
  | idle _ => exact h
  | commits sts _ _ => exact leaks_of_clean (Connection.clean_commit _)
  | refused e _ => exact h
  | rolledBack e _ => exact leaks_of_clean (Connection.clean_rollback _)
  | leaves e sts n hsts hw _ =>
    obtain ⟨hind, supps, events, hsupps, hevents⟩ := h
    obtain ⟨hs, ha⟩ := s.view.execute_appends (sts.take n)
    refine ⟨(indicators_of_not_upsert hsts hw s.view n).trans hind,
      supps ++ insertedSuppressions (sts.take n), events ++ insertedAudit (sts.take n), ?_, ?_⟩
    · show (s.view.execute (sts.take n)).suppressions = s.committed.suppressions ++ _
      rw [hs, hsupps, List.append_assoc]
    · show (s.view.execute (sts.take n)).audit = s.committed.audit ++ _
      rw [ha, hevents, List.append_assoc]

/-- A commit over a leak is not the commit of its own statements. -/
theorem IntelStore.Leaks.clean_of_execute {s : IntelStore} (h : s.Leaks) {sts : List Statement}
    (heq : s.view.execute sts = s.committed.execute sts) : s.Clean := by
  obtain ⟨hvs, hva⟩ := s.view.execute_appends sts
  obtain ⟨hcs, hca⟩ := s.committed.execute_appends sts
  have hsupps : s.view.suppressions = s.committed.suppressions := by
    have hboth : s.view.suppressions ++ insertedSuppressions sts =
        s.committed.suppressions ++ insertedSuppressions sts := by
      rw [← hvs, ← hcs, heq]
    exact List.append_cancel_right hboth
  have haudit : s.view.audit = s.committed.audit := by
    have hboth : s.view.audit ++ insertedAudit sts = s.committed.audit ++ insertedAudit sts := by
      rw [← hva, ← hca, heq]
    exact List.append_cancel_right hboth
  have hext : ∀ t t' : Tables, t.indicators = t'.indicators → t.suppressions = t'.suppressions →
      t.audit = t'.audit → t = t' := by
    intro t t' hi hs ha
    cases t
    cases t'
    simp_all
  exact hext s.view s.committed h.1 hsupps haudit

/-! ### Runs -/

namespace Writing

/-- The committed database is the one of the calls that returned. -/
def Atomic (s : Writing) : Prop :=
  s.store.committed = produced s.returned ∧ s.store.committed.Audited

/-- A call that commits finds no leak. -/
def CommitsClean (s : Writing) (call : Write × Fault) : Prop :=
  call.1.Commits call.2 → s.store.Clean

theorem step_store (s : Writing) (call : Write × Fault) :
    (s.step call).store = (s.store.perform call.1 call.2).2 := by
  unfold step
  split
  · next heq => rw [heq]
  · next heq => rw [heq]

theorem leaks_run (calls : List (Write × Fault)) : (Machine.run step empty calls).store.Leaks := by
  refine Machine.run_invariant (P := fun s : Writing => s.store.Leaks) ?_ ?_ calls
  · intro s call h
    rw [step_store]
    exact h.perform call.1 call.2
  · exact IntelStore.leaks_of_clean (Connection.clean_fresh _)

/-- The audit event comes with its suppression. -/
theorem audited_execute {t : Tables} (h : t.Audited) {w : Write} {sts : List Statement}
    (hsts : w.statements = .ok sts) : (t.execute sts).Audited := by
  have hown : ∀ supp ∈ insertedSuppressions sts, ∃ aid, supp.event aid ∈ insertedAudit sts := by
    cases w with
    | upsertMany records deletes =>
      cases hsts
      intro supp hsupp
      simp [insertedSuppressions, List.filterMap_append, List.filterMap_map] at hsupp
    | suppress args =>
      obtain ⟨row, -, rfl⟩ := (Except.map_eq_ok (x := args.row)).mp hsts
      intro supp hsupp
      obtain rfl : supp = row := by simpa [insertedSuppressions] using hsupp
      exact ⟨args.aid, by simp [insertedAudit]⟩
    | recordMatch tenant hit observation now id =>
      simp only [Write.statements] at hsts
      by_cases htenant : hit.tenant ≠ tenant
      · rw [if_pos htenant] at hsts
        cases hsts
      · rw [if_neg htenant] at hsts
        cases hsts
        intro supp hsupp
        simp [insertedSuppressions] at hsupp
  obtain ⟨hs, ha⟩ := t.execute_appends sts
  intro supp hsupp
  rw [hs] at hsupp
  rw [ha]
  rcases List.mem_append.mp hsupp with hsupp | hsupp
  · obtain ⟨aid, haid⟩ := h supp hsupp
    exact ⟨aid, List.mem_append_left _ haid⟩
  · obtain ⟨aid, haid⟩ := hown supp hsupp
    exact ⟨aid, List.mem_append_right _ haid⟩

/-- A step whose commit finds no leak keeps the committed database that of
    the calls that returned. -/
theorem Atomic.step {s : Writing} {call : Write × Fault} (h : s.Atomic)
    (hc : s.CommitsClean call) : (s.step call).Atomic := by
  obtain ⟨heq, haudited⟩ := h
  obtain ⟨w, fault⟩ := call
  have hcases := perform_cases s.store w fault
  unfold Writing.step
  simp only
  generalize s.store.perform w fault = out at hcases
  obtain ⟨res, s'⟩ := out
  cases hcases with
  | idle hnil =>
    refine ⟨?_, haudited⟩
    show s.store.committed = produced (s.returned ++ [w])
    rw [produced_snoc hnil, Tables.execute_nil, heq]
  | commits sts hsts hcommits =>
    have hclean : s.store.view = s.store.committed := hc hcommits
    constructor
    · show s.store.view.execute sts = produced (s.returned ++ [w])
      rw [produced_snoc hsts, hclean, heq]
    · show (s.store.view.execute sts).Audited
      rw [hclean]
      exact audited_execute haudited hsts
  | refused e _ => exact ⟨heq, haudited⟩
  | rolledBack e _ => exact ⟨heq, haudited⟩
  | leaves e sts n _ _ _ => exact ⟨heq, haudited⟩

/-- A commit over a leak makes rows durable of a call that raised. -/
theorem commitsClean_of_atomic {s : Writing} {call : Write × Fault} (hleaks : s.store.Leaks)
    (h : s.Atomic) (hnext : (s.step call).Atomic) : s.CommitsClean call := by
  intro hcommits
  obtain ⟨w, fault⟩ := call
  obtain ⟨sts, hsts, hne, -⟩ := id hcommits
  have hcases := perform_cases s.store w fault
  unfold Writing.step at hnext
  simp only at hnext
  generalize s.store.perform w fault = out at hcases hnext
  obtain ⟨res, s'⟩ := out
  cases hcases with
  | idle hnil =>
    rw [hnil] at hsts
    cases hsts
    exact absurd rfl hne
  | commits sts' hsts' _ =>
    rw [hsts'] at hsts
    cases hsts
    have heq : s.store.view.execute sts = produced (s.returned ++ [w]) := hnext.1
    rw [produced_snoc hsts', ← h.1] at heq
    exact hleaks.clean_of_execute heq
  | refused e he =>
    rw [he] at hsts
    cases hsts
  | rolledBack e hf => exact absurd hcommits hf.not_commits
  | leaves e sts n _ _ hf => exact absurd hcommits hf.not_commits

/-- **Atomicity.** At every point of a run the committed database is that of
    the calls that returned, exactly when no commit of the run finds changes
    that a failed call left in the open transaction. -/
theorem committed_eq_produced_iff (calls : List (Write × Fault)) :
    (∀ pre, pre <+: calls → (Machine.run step empty pre).Atomic) ↔
      Machine.Meets step CommitsClean empty calls := by
  constructor
  · intro h pre call post heq
    have hpre : pre <+: calls := ⟨call :: post, heq.symm⟩
    have hnext : pre ++ [call] <+: calls := ⟨post, by rw [heq]; simp⟩
    have hstep := h (pre ++ [call]) hnext
    rw [Machine.run_snoc] at hstep
    exact commitsClean_of_atomic (leaks_run pre) (h pre hpre) hstep
  · intro h pre hpre
    refine Machine.run_invariant_of_meets (C := CommitsClean) (P := Atomic)
      (fun s call hc hs => hs.step hc) ?_ (h.of_initial hpre)
    exact ⟨rfl, fun supp hsupp => by cases hsupp⟩

section Sample

def sampleArgs : IntelStore.SuppressArgs where
  tenant := "t1"
  itype := .ip
  indicator := "9.9.9.9"
  owner := "alice"
  justification := "scanner"
  expiresAt := some 2000
  now := 1000
  sid := "s1"
  aid := "a1"

def sampleHit : IntelRecord where
  indicator := "8.8.8.8"
  itype := .ip
  source := "acme"
  feed := "blocklist"
  score := 80
  tlp := .red
  sourceTrust := 1
  firstSeen := "2026-09-01T00:00:00Z"
  lastSeen := "2026-09-01T00:00:00Z"
  expiry := "2026-12-01T00:00:00Z"
  disposition := .active
  tenant := "t1"
  provenance := []

/-- The audit insert of a suppression raises; then a match is recorded. -/
def interruptedSuppression : List (Write × Fault) :=
  [(.suppress sampleArgs, some 1), (.recordMatch "t1" sampleHit [] 1001 "m1", none)]

/-- The suppression that raised is committed, without its audit event. -/
theorem committed_without_audit :
    (Machine.run step empty interruptedSuppression).returned =
      [.recordMatch "t1" sampleHit [] 1001 "m1"] ∧
    ¬ (Machine.run step empty interruptedSuppression).store.committed.Audited := by
  have hsupp : (Machine.run step empty interruptedSuppression).store.committed.suppressions.map
      Suppression.id = ["s1"] := by decide +kernel
  refine ⟨by rfl, fun h => ?_⟩
  obtain ⟨supp, hmem, -⟩ := List.mem_map.mp (hsupp ▸ List.mem_singleton_self "s1")
  obtain ⟨aid, haid⟩ := h supp hmem
  have haudit : (Machine.run step empty interruptedSuppression).store.committed.audit =
      [IntelStore.matchEvent "m1" "t1" 1001 sampleHit []] := by rfl
  rw [haudit] at haid
  cases List.mem_singleton.mp haid

end Sample

end Writing

end ThreatIntel
