import Mathlib.Data.List.Find
import CernityNdr.Intel.Assertions

/-! # What Refreshes Keep

    The calls that return are a chronicle of notices: the records and the
    withdrawals that feeds have sent. A relation between a chronicle and what
    is stored under a key holds after every run when one merge and one
    withdrawal keep it (`Kept`): the working map, the rollbacks and the other
    keys are dealt with here, once. -/

namespace ThreatIntel

/-! ### What the writing methods leave -/

theorem indicators_upserts (t : Tables) (records : List IntelRecord) :
    (t.execute (records.map .upsert)).indicators = records.foldl Registry.put t.indicators := by
  induction records generalizing t with
  | nil => rfl
  | cons r records ih => exact ih (Statement.apply t (.upsert r))

theorem indicators_deletes (t : Tables) (deletes : List Key) :
    (t.execute (deletes.map .delete)).indicators = deletes.foldl Registry.pop t.indicators := by
  induction deletes generalizing t with
  | nil => rfl
  | cons k deletes ih => exact ih (Statement.apply t (.delete k))

namespace IntelStore

/-- A batch that is stored: deletions win, then the batch, then what was there. -/
theorem get_upsertMany {s s' : IntelStore} {records : List IntelRecord} {deletes : List Key}
    {fault : Fault} {u : Unit} (hnodup : (records.map IntelRecord.key).Nodup)
    (h : s.upsertMany records deletes fault = (.ok u, s')) (k : Key) :
    s'.get k = if k ∈ deletes then none else
      (records.find? (fun r => r.key = k)).or (s.get k) := by
  unfold upsertMany at h
  by_cases hempty : records = [] ∧ deletes = []
  · rw [if_pos hempty] at h
    cases h
    simp [hempty]
  · rw [if_neg hempty] at h
    split at h
    · next u' s₁ hw =>
      cases h
      rw [(Connection.writeOrRollback_eq_ok hw).2]
      show (Registry.get? (s.view.execute _).indicators k) = _
      rw [Tables.execute_append, indicators_deletes, indicators_upserts, Registry.get?_foldl_pop,
        Registry.get?_foldl_put _ hnodup]
      by_cases hk : k ∈ deletes
      · rw [if_pos hk, if_pos hk]
      · rw [if_neg hk, if_neg hk]
        rfl
    · cases h

/-- The indicators that are committed are those that are read. -/
def Synced (s : IntelStore) : Prop := s.committed.indicators = s.view.indicators

theorem upsertMany_synced {s s' : IntelStore} {records : List IntelRecord} {deletes : List Key}
    {fault : Fault} {res : Except Failure Unit} (hs : s.Synced)
    (h : s.upsertMany records deletes fault = (res, s')) : s'.Synced := by
  unfold upsertMany at h
  by_cases hempty : records = [] ∧ deletes = []
  · rw [if_pos hempty] at h
    cases h
    exact hs
  · rw [if_neg hempty] at h
    split at h
    · next hw =>
      cases h
      rw [(Connection.writeOrRollback_eq_ok hw).2]
      rfl
    · next hw =>
      cases h
      rw [(Connection.writeOrRollback_eq_error hw).2]
      rfl

/-- A batch that raises leaves the indicators as they were. -/
theorem get_upsertMany_error {s s' : IntelStore} {records : List IntelRecord} {deletes : List Key}
    {fault : Fault} {e : Failure} (hs : s.Synced)
    (h : s.upsertMany records deletes fault = (.error e, s')) (k : Key) : s'.get k = s.get k := by
  unfold upsertMany at h
  by_cases hempty : records = [] ∧ deletes = []
  · rw [if_pos hempty] at h
    cases h
  · rw [if_neg hempty] at h
    split at h
    · cases h
    · next s₁ hw =>
      cases h
      obtain ⟨-, rfl⟩ := Connection.writeOrRollback_eq_error hw
      show s.committed.indicators.get? k = s.view.indicators.get? k
      rw [hs]

/-- Suppressing an indicator does not touch the indicators. -/
theorem indicators_suppress (s : IntelStore) (a : SuppressArgs) (fault : Fault) :
    (s.suppress a fault).2.view.indicators = s.view.indicators ∧
      (s.Synced → (s.suppress a fault).2.Synced) := by
  have hexecute : ∀ supp n, (s.view.execute (([.insertSuppression supp,
      .insertAudit (supp.event a.aid)] : List Statement).take n)).indicators =
        s.view.indicators := by
    intro supp n
    match n with
    | 0 => rfl
    | 1 => rfl
    | n + 2 =>
      rw [List.take_of_length_le (by simp)]
      rfl
  unfold suppress
  cases hrow : a.row with
  | error e => exact ⟨rfl, id⟩
  | ok supp =>
    simp only
    split
    · next hw =>
      rw [(Connection.write_eq_ok hw).2]
      exact ⟨hexecute supp 2, fun _ => rfl⟩
    · next hw =>
      obtain ⟨n, -, -, hs'⟩ := Connection.write_eq_error hw
      rw [hs']
      exact ⟨hexecute supp n, fun hs => hs.trans (hexecute supp n).symm⟩

end IntelStore

/-! ### Notices -/

/-- What a refresh says of one indicator. -/
inductive Notice
  | report (r : IntelRecord)
  | withdraw (rv : Revocation)
deriving DecidableEq

/-- The indicator it is about. -/
def Notice.key : Notice → Key
  | report r => r.key
  | withdraw rv => rv.key

/-- The notices of a refresh, in the order they are dealt with. -/
def notices (records : List IntelRecord) (revocations : List Revocation) : List Notice :=
  records.map .report ++ revocations.map .withdraw

/-- One merge, one withdrawal and the notices about other keys keep `Tracks`,
    a relation between a chronicle and what is stored under a key. Merges
    only have to where `Allowed` holds. -/
structure Kept (epoch : String → Except Failure ℚ) (Allowed : List Notice → IntelRecord → Prop)
    (Tracks : List Notice → Key → Option IntelRecord → Prop) : Prop where
  initial : ∀ k, Tracks [] k none
  report : ∀ {log base incoming merged r now}, Tracks log incoming.key base →
    (∀ b, base = some b → b.key = incoming.key) → Allowed log incoming →
    merge epoch base incoming = .ok merged → derive epoch merged now = .ok r →
    Tracks (log ++ [.report incoming]) incoming.key (some r)
  withdraw : ∀ {log base rv o now}, Tracks log rv.key (some base) →
    applyRevocation epoch base rv now = .ok o → Tracks (log ++ [.withdraw rv]) rv.key o
  absent : ∀ {log} {rv : Revocation}, Tracks log rv.key none →
    Tracks (log ++ [.withdraw rv]) rv.key none
  other : ∀ {log} {n : Notice} {k o}, n.key ≠ k → Tracks log k o → Tracks (log ++ [n]) k o

/-- Every record of the chronicle was allowed when it came. -/
def AllAllowed (Allowed : List Notice → IntelRecord → Prop) (log : List Notice) : Prop :=
  ∀ pre r post, log = pre ++ .report r :: post → Allowed pre r

/-! ### The rounds of a refresh -/

section Rounds

variable {epoch : String → Except Failure ℚ} {Allowed : List Notice → IntelRecord → Prop}
  {Tracks : List Notice → Key → Option IntelRecord → Prop} {now : ℚ} {log : List Notice}
  {store : IntelStore}

/-- What the rounds over the records keep. -/
structure Merged (Tracks : List Notice → Key → Option IntelRecord → Prop) (store : IntelStore)
    (log : List Notice) (working : Working) : Prop where
  keyed : Keyed working
  tracks : ∀ k, Tracks log k (baseRecord store working k)

theorem Merged.ingestRecord (hkept : Kept epoch Allowed Tracks) {working working' : Working}
    {record : IntelRecord} (h : Merged Tracks store log working) (hallowed : Allowed log record)
    (hok : ingestRecord epoch store now working record = .ok working') :
    Merged Tracks store (log ++ [.report record]) working' := by
  obtain ⟨merged, hmerge, hok⟩ := Except.bind_eq_ok.mp hok
  obtain ⟨r, hderive, hok⟩ := Except.bind_eq_ok.mp hok
  obtain rfl := Except.ok.inj hok
  have hbase : ∀ b, baseRecord store working record.key = some b → b.key = record.key :=
    fun b hb => h.keyed.of_base hb
  constructor
  · exact h.keyed.put ((derive_key hderive).trans (merge_spec hbase hmerge).1)
  · intro k
    rw [baseRecord_put]
    by_cases hk : record.key = k
    · subst hk
      rw [if_pos rfl]
      exact hkept.report (h.tracks record.key) hbase hallowed hmerge hderive
    · rw [if_neg hk]
      exact hkept.other (n := .report record) hk (h.tracks k)

/-- What the rounds over the revocations keep. A key that is to be deleted
    may be back in the working map: the deletion comes last. -/
structure Withdrawn (Tracks : List Notice → Key → Option IntelRecord → Prop) (store : IntelStore)
    (log : List Notice) (draft : Draft) : Prop where
  keyed : Keyed draft.1
  tracks : ∀ k, k ∉ draft.2 → Tracks log k (baseRecord store draft.1 k)
  deleted : ∀ k ∈ draft.2, Tracks log k none

/-- A withdrawal finds nothing to withdraw where nothing is stored. -/
theorem Kept.none (hkept : Kept epoch Allowed Tracks) {k : Key} (h : Tracks log k none)
    (rv : Revocation) : Tracks (log ++ [.withdraw rv]) k none := by
  by_cases hk : rv.key = k
  · subst hk
    exact hkept.absent h
  · exact hkept.other (n := .withdraw rv) hk h

theorem Withdrawn.ingestRevocation (hkept : Kept epoch Allowed Tracks) {draft draft' : Draft}
    {rv : Revocation} (h : Withdrawn Tracks store log draft)
    (hok : ingestRevocation epoch store now draft rv = .ok draft') :
    Withdrawn Tracks store (log ++ [.withdraw rv]) draft' := by
  have hdeleted : ∀ k ∈ draft.2, Tracks (log ++ [.withdraw rv]) k none :=
    fun k hk => hkept.none (h.deleted k hk) rv
  have hother : ∀ k, k ∉ draft.2 → rv.key ≠ k →
      Tracks (log ++ [.withdraw rv]) k (baseRecord store draft.1 k) :=
    fun k hk hne => hkept.other (n := .withdraw rv) hne (h.tracks k hk)
  unfold ThreatIntel.ingestRevocation at hok
  cases hb : baseRecord store draft.1 rv.key with
  | none =>
    rw [hb] at hok
    cases hok
    refine ⟨h.keyed, fun k hk => ?_, hdeleted⟩
    by_cases hkey : rv.key = k
    · subst hkey
      have htracks := h.tracks rv.key hk
      rw [hb] at htracks ⊢
      exact hkept.absent htracks
    · exact hother k hk hkey
  | some base =>
    rw [hb] at hok
    obtain ⟨o, happly, hok⟩ := Except.bind_eq_ok.mp hok
    have hself : rv.key ∉ draft.2 → Tracks (log ++ [.withdraw rv]) rv.key o := by
      intro hk
      have htracks := h.tracks rv.key hk
      rw [hb] at htracks
      exact hkept.withdraw htracks happly
    cases o with
    | none =>
      obtain rfl := Except.ok.inj hok
      refine ⟨fun e he => h.keyed e (Registry.mem_of_mem_pop he), fun k hk => ?_, fun k hk => ?_⟩
      · simp only [List.mem_append, List.mem_singleton, not_or] at hk
        rw [baseRecord_pop_ne store draft.1 (Ne.symm hk.2)]
        exact hother k hk.1 (Ne.symm hk.2)
      · by_cases hdel : k ∈ draft.2
        · exact hdeleted k hdel
        · obtain rfl : k = rv.key := by simpa [hdel] using hk
          exact hself hdel
    | some updated =>
      obtain rfl := Except.ok.inj hok
      have hkeyed := (applyRevocation_key happly).trans (h.keyed.of_base hb)
      refine ⟨h.keyed.put hkeyed, fun k hk => ?_, hdeleted⟩
      rw [baseRecord_put]
      by_cases hkey : rv.key = k
      · subst hkey
        rw [if_pos rfl]
        exact hself hk
      · rw [if_neg hkey]
        exact hother k hk hkey

/-- A whole refresh. -/
theorem Kept.drafted (hkept : Kept epoch Allowed Tracks) {records : List IntelRecord}
    {revocations : List Revocation} {draft : Draft} (hstore : ∀ k, Tracks log k (store.get k))
    (hallowed : AllAllowed Allowed (log ++ notices records revocations))
    (h : drafted epoch store records now revocations = .ok draft) :
    Withdrawn Tracks store (log ++ notices records revocations) draft := by
  obtain ⟨working, hrecords, hrevocations⟩ := Except.bind_eq_ok.mp h
  have hmerged : Merged Tracks store (log ++ records.map .report) working := by
    refine Except.foldlM_prefix_invariant (P := fun pre w =>
      Merged Tracks store (log ++ pre.map .report) w) ?_ ?_ hrecords
    · intro pre r post w w' heq ih hok
      have hr : Allowed (log ++ pre.map .report) r := by
        refine hallowed _ r (post.map .report ++ revocations.map .withdraw) ?_
        simp [notices, heq]
      have hnext := ih.ingestRecord hkept hr hok
      simpa using hnext
    · rw [List.map_nil, List.append_nil]
      refine ⟨?_, hstore⟩
      intro e he
      cases he
  have hstart : Withdrawn Tracks store
      (log ++ records.map .report ++ ([] : List Revocation).map .withdraw) (working, []) := by
    rw [List.map_nil, List.append_nil]
    exact ⟨hmerged.keyed, fun k _ => hmerged.tracks k, fun k hk => by cases hk⟩
  have hend := Except.foldlM_invariant (P := fun pre d => Withdrawn Tracks store
    (log ++ records.map .report ++ pre.map .withdraw) d) ?_ hstart hrevocations
  · rwa [List.append_assoc] at hend
  · intro pre rv d d' _ ih hok
    have hnext := ih.ingestRevocation hkept hok
    simpa using hnext

end Rounds

/-! ### Runs -/

/-- A call on the store. -/
inductive Call
  | ingest (records : List IntelRecord) (now : ℚ) (revocations : List Revocation) (fault : Fault)
  | suppress (args : IntelStore.SuppressArgs) (fault : Fault)

/-- What the working map says of a key when its records are written. -/
theorem find?_working {working : Working} (h : Keyed working) (k : Key) :
    (working.vals.map Prod.snd).find? (fun r => r.key = k) = working.lookup k := by
  rw [List.find?_map]
  unfold Registry.lookup Registry.get?
  congr 1
  apply List.find?_congr
  intro e he
  simp [h e he]

theorem nodup_working {working : Working} (h : Keyed working) :
    ((working.vals.map Prod.snd).map IntelRecord.key).Nodup := by
  have hkeys : (working.vals.map Prod.snd).map IntelRecord.key = working.vals.map Prod.fst := by
    rw [List.map_map]
    exact List.map_congr_left h
  rw [hkeys]
  exact working.nodup

/-- The store, and the notices of the calls that returned. -/
structure Chronicle where
  store : IntelStore
  log : List Notice

namespace Chronicle

variable (epoch : String → Except Failure ℚ)

def empty : Chronicle := ⟨.empty, []⟩

def step (s : Chronicle) : Call → Chronicle
  | .ingest records now revocations fault =>
    match ThreatIntel.ingest epoch s.store records now revocations fault with
    | (.ok _, store) => ⟨store, s.log ++ notices records revocations⟩
    | (.error _, store) => ⟨store, s.log⟩
  | .suppress args fault => ⟨(s.store.suppress args fault).2, s.log⟩

theorem log_mono (s : Chronicle) (c : Call) : ∃ more, (s.step epoch c).log = s.log ++ more := by
  cases c with
  | suppress args fault => exact ⟨[], (List.append_nil _).symm⟩
  | ingest records now revocations fault =>
    simp only [step]
    split
    · exact ⟨_, rfl⟩
    · exact ⟨[], (List.append_nil _).symm⟩

variable {epoch} {Allowed : List Notice → IntelRecord → Prop}
  {Tracks : List Notice → Key → Option IntelRecord → Prop}

theorem allAllowed_left {as bs : List Notice} (h : AllAllowed Allowed (as ++ bs)) :
    AllAllowed Allowed as := by
  intro pre r post heq
  exact h pre r (post ++ bs) (by rw [heq]; simp)

/-- The store tracks the chronicle. -/
structure Kept (Tracks : List Notice → Key → Option IntelRecord → Prop) (s : Chronicle) :
    Prop where
  tracks : ∀ k, Tracks s.log k (s.store.get k)
  synced : s.store.Synced

theorem Kept.step (hkept : ThreatIntel.Kept epoch Allowed Tracks) {s : Chronicle} {c : Call}
    (h : Kept Tracks s) (hallowed : AllAllowed Allowed (s.step epoch c).log) :
    Kept Tracks (s.step epoch c) := by
  cases c with
  | suppress args fault =>
    obtain ⟨hind, hsync⟩ := s.store.indicators_suppress args fault
    refine ⟨fun k => ?_, hsync h.synced⟩
    show Tracks s.log k ((s.store.suppress args fault).2.view.indicators.get? k)
    rw [hind]
    exact h.tracks k
  | ingest records now revocations fault =>
    simp only [Chronicle.step, ThreatIntel.ingest] at hallowed ⊢
    cases hdraft : drafted epoch s.store records now revocations with
    | error e => exact h
    | ok draft =>
      obtain ⟨working, deletes⟩ := draft
      rw [hdraft] at hallowed
      simp only at hallowed ⊢
      cases hups : s.store.upsertMany (working.vals.map Prod.snd) deletes fault with
      | mk res store =>
        have hsynced := IntelStore.upsertMany_synced h.synced hups
        cases res with
        | error e =>
          refine ⟨fun k => ?_, hsynced⟩
          show Tracks s.log k (store.get k)
          rw [IntelStore.get_upsertMany_error h.synced hups]
          exact h.tracks k
        | ok u =>
          rw [hups] at hallowed
          have hdone := hkept.drafted h.tracks hallowed hdraft
          refine ⟨fun k => ?_, hsynced⟩
          show Tracks (s.log ++ notices records revocations) k (store.get k)
          rw [IntelStore.get_upsertMany (nodup_working hdone.keyed) hups,
            find?_working hdone.keyed]
          by_cases hk : k ∈ deletes
          · rw [if_pos hk]
            exact hdone.deleted k hk
          · rw [if_neg hk]
            exact hdone.tracks k hk

/-- Every run whose records were allowed when they came. -/
theorem Kept.run (hkept : ThreatIntel.Kept epoch Allowed Tracks) (calls : List Call)
    (hallowed : AllAllowed Allowed (Machine.run (Chronicle.step epoch) empty calls).log) :
    Kept Tracks (Machine.run (Chronicle.step epoch) empty calls) := by
  induction calls using List.reverseRecOn with
  | nil => exact ⟨hkept.initial, rfl⟩
  | append_singleton calls c ih =>
    rw [Machine.run_snoc] at hallowed ⊢
    obtain ⟨more, hmore⟩ := log_mono epoch (Machine.run (Chronicle.step epoch) empty calls) c
    refine (ih ?_).step hkept hallowed
    rw [hmore] at hallowed
    exact allAllowed_left hallowed

end Chronicle

end ThreatIntel
