import CernityNdr.Intel.Refresh

/-! # The Store Refines the Assertion Map

    Sessions: any calls of `ingest` and `suppress` on a new store, any of
    which may raise. A call that raises reports nothing.

    * `Session.Inv`: the store mirrors the assertion map.
    * `Session.refines_assertions`: what is stored and what `match` returns, said of
      the map, after every session whose records name every feed once. -/

namespace ThreatIntel

/-! ### Writes -/

/-- The writes of a notice. -/
def Notice.reports : Notice → List Report
  | report r => r.reports
  | withdraw rv => [rv.report]

theorem reports_notices (records : List IntelRecord) (revocations : List Revocation) :
    (notices records revocations).flatMap Notice.reports = reports records revocations := by
  rw [notices, List.flatMap_append, List.flatMap_map, List.flatMap_map, reports]
  exact congrArg _ (List.flatMap_pure_eq_map Revocation.report revocations)

/-- A record may be merged when it names every feed once and every assertion
    carries its own expiry. -/
def Once (_ : List Notice) (r : IntelRecord) : Prop := r.FeedsOnce ∧ ∀ p ∈ r.provenance, p.OwnExpiry

/-- Merges and withdrawals keep the mirror of the map. -/
theorem kept_mirrors (epoch : String → Except Failure ℚ) : Kept epoch Once fun log k o =>
    Mirrors epoch o fun f => lastWrite (log.flatMap Notice.reports) (k, f) where
  initial _ := Mirrors.empty
  report {log} {_} {incoming} {_} {_} {_} h hkey honce hmerge hderive := by
    rw [List.flatMap_append, List.flatMap_singleton]
    exact mirrors_merge hkey h honce.1 honce.2 hmerge hderive
  withdraw h happly := by
    rw [List.flatMap_append, List.flatMap_singleton]
    exact mirrors_applyRevocation h happly
  absent {log} {rv} h := by
    -- nothing is stored, so the map has nothing to erase
    have hsame : (fun f => lastWrite ((log ++ [Notice.withdraw rv]).flatMap Notice.reports)
        (rv.key, f)) =
        fun f => lastWrite (log.flatMap Notice.reports) (rv.key, f) := by
      funext f
      rw [List.flatMap_append, List.flatMap_singleton, Notice.reports, lastWrite_report,
        h.eq_none_iff.mp rfl f, ite_self]
    rw [hsame]
    exact h
  other {log} {n} {k} {o} hk h := by
    have hsame : (fun f => lastWrite ((log ++ [n]).flatMap Notice.reports) (k, f)) =
        fun f => lastWrite (log.flatMap Notice.reports) (k, f) := by
      funext f
      rw [List.flatMap_append, List.flatMap_singleton]
      cases n with
      | report r => exact lastWrite_reports_ne _ hk f
      | withdraw rv => exact lastWrite_report_ne hk f
    rw [hsame]
    exact h

/-! ### Sessions -/

/-- The store, and the reports of the calls that returned. -/
structure Session where
  store : IntelStore
  log : List Report

namespace Session

variable (epoch : String → Except Failure ℚ)

def empty : Session := ⟨.empty, []⟩

def step (s : Session) : Call → Session
  | .ingest records now revocations fault =>
    match ThreatIntel.ingest epoch s.store records now revocations fault with
    | (.ok _, store) => ⟨store, s.log ++ reports records revocations⟩
    | (.error _, store) => ⟨store, s.log⟩
  | .suppress args fault => ⟨(s.store.suppress args fault).2, s.log⟩

/-- The assertion map: the latest assertion of a feed, unless the feed has
    withdrawn it. -/
def standing (s : Session) (k : Key) (f : Feed) : Option Provenance := lastWrite s.log (k, f)

/-- The invariant of sessions. -/
structure Inv (s : Session) : Prop where
  mirrors : ∀ k, Mirrors epoch (s.store.get k) (s.standing k)
  synced : s.store.Synced

end Session

/-- Every assertion that the call reports carries its own expiry. -/
def Call.OwnExpiries : Call → Prop
  | .ingest records _ _ _ => ∀ r ∈ records, ∀ p ∈ r.provenance, p.OwnExpiry
  | .suppress _ _ => True

/-- No record that the call reports names a feed twice. -/
def Call.FeedsOnce : Call → Prop
  | .ingest records _ _ _ => ∀ r ∈ records, r.FeedsOnce
  | .suppress _ _ => True

namespace Session

variable {epoch : String → Except Failure ℚ}

/-- A session is the chronicle of its calls, read as writes. -/
theorem run_eq (calls : List Call) : Machine.run (Session.step epoch) empty calls =
    ⟨(Machine.run (Chronicle.step epoch) .empty calls).store,
      (Machine.run (Chronicle.step epoch) .empty calls).log.flatMap Notice.reports⟩ := by
  induction calls using List.reverseRecOn with
  | nil => rfl
  | append_singleton calls c ih =>
    rw [Machine.run_snoc, Machine.run_snoc, ih]
    generalize Machine.run (Chronicle.step epoch) .empty calls = s
    cases c with
    | suppress args fault => rfl
    | ingest records now revocations fault =>
      simp only [Session.step, Chronicle.step]
      rcases ThreatIntel.ingest epoch s.store records now revocations fault with ⟨_ | _, store⟩
      · rfl
      · rw [List.flatMap_append, reports_notices]

theorem once_run {calls : List Call} (hown : ∀ c ∈ calls, c.OwnExpiries)
    (honce : ∀ c ∈ calls, c.FeedsOnce) (r : IntelRecord)
    (hr : Notice.report r ∈ (Machine.run (Chronicle.step epoch) .empty calls).log) : Once [] r := by
  induction calls using List.reverseRecOn with
  | nil => cases hr
  | append_singleton calls c ih =>
    obtain ⟨hown, hownc⟩ := List.forall_mem_append.mp hown
    obtain ⟨honce, honcec⟩ := List.forall_mem_append.mp honce
    have hold := ih hown honce
    rw [Machine.run_snoc] at hr
    generalize Machine.run (Chronicle.step epoch) .empty calls = s at hr hold
    cases c with
    | suppress args fault => exact hold hr
    | ingest records now revocations fault =>
      simp only [Chronicle.step] at hr
      split at hr
      · rcases List.mem_append.mp hr with hr | hr
        · exact hold hr
        · have hmem : r ∈ records := by simpa [notices] using hr
          exact ⟨honcec _ (List.mem_singleton_self _) r hmem,
            hownc _ (List.mem_singleton_self _) r hmem⟩
      · exact hold hr

theorem Inv.run {calls : List Call} (hown : ∀ c ∈ calls, c.OwnExpiries)
    (honce : ∀ c ∈ calls, c.FeedsOnce) : Inv epoch (Machine.run (Session.step epoch) empty calls) := by
  obtain ⟨htracks, hsynced⟩ := Chronicle.Kept.run (kept_mirrors epoch) calls
    fun pre r post heq => once_run hown honce r (by rw [heq]; simp)
  rw [run_eq]
  exact ⟨htracks, hsynced⟩

/-! ### Lookups -/

section Lookups

variable (epoch) (normIndicator : IndicatorType → String → String)

/-- A live suppression covers the indicator. -/
def Suppressed (s : Session) (k : Key) (now : ℚ) : Prop :=
  ∃ row ∈ s.store.view.suppressions, (row.tenant, row.itype, row.indicator) = k ∧
    now < row.expiresAt

/-- Some assertion of the indicator has not expired. -/
def Live (s : Session) (k : Key) (now : ℚ) : Prop :=
  ∃ f p, s.standing k f = some p ∧ p.ValidAt epoch now

/-- `r` is the stored record, with the fields that the assertions of the
    indicator give at `now`. -/
structure IsHit (s : Session) (k : Key) (now : ℚ) (r : IntelRecord) : Prop where
  stored : ∃ base, s.store.get k = some base ∧ r.key = base.key ∧ r.provenance = base.provenance
  score : ∃ f p, s.standing k f = some p ∧ p.ValidAt epoch now ∧ r.score = p.score ∧
    r.sourceTrust = p.sourceTrust ∧
    ∀ g q, s.standing k g = some q → q.ValidAt epoch now → q.rank ≤ p.rank
  tlp : (∃ f p, s.standing k f = some p ∧ p.tlp = r.tlp) ∧
    ∀ f p, s.standing k f = some p → p.tlp.rank ≤ r.tlp.rank

/-- The store, as its readers see it, is the assertion map. -/
structure Refines (s : Session) : Prop where
  /-- one entry for each feed whose assertion stands -/
  entries : ∀ k r, s.store.get k = some r →
    ∀ f, r.provenance.filter (fun p => p.origin = f) = (s.standing k f).toList
  /-- no record without an assertion -/
  absent : ∀ k, s.store.get k = none ↔ ∀ f, s.standing k f = none
  matched : ∀ tenant itype value now, ∃ hit,
    matchIndicator epoch normIndicator s.store tenant itype value now = .ok hit ∧
    (hit.isSome ↔ Live epoch s (tenant, itype, normIndicator itype value) now ∧
      ¬ Suppressed s (tenant, itype, normIndicator itype value) now) ∧
    ∀ r, hit = some r → IsHit epoch s (tenant, itype, normIndicator itype value) now r

end Lookups

theorem isSuppressed_iff (s : Session) (k : Key) (now : ℚ) :
    s.store.isSuppressed k now = true ↔ Suppressed s k now := by
  obtain ⟨tenant, itype, indicator⟩ := k
  simp only [IntelStore.isSuppressed, Suppressed, List.any_eq_true, Bool.and_eq_true,
    decide_eq_true_eq, Prod.mk.injEq, and_assoc]

/-- What is stored and what stands for an indicator have the same members. -/
theorem Inv.exists_standing {s : Session} (h : Inv epoch s) {k : Key} {r : IntelRecord}
    (hr : s.store.get k = some r) (P : Provenance → Prop) :
    (∃ f p, s.standing k f = some p ∧ P p) ↔ ∃ p ∈ r.provenance, P p := by
  have hmirrors := h.mirrors k
  rw [hr] at hmirrors
  constructor
  · rintro ⟨f, p, hf, hP⟩
    have horigin := hmirrors.origin_of hf
    exact ⟨p, hmirrors.mem_iff.mpr (horigin ▸ hf), hP⟩
  · rintro ⟨p, hp, hP⟩
    exact ⟨p.origin, p, hmirrors.mem_iff.mp hp, hP⟩

theorem Inv.mem_of_standing {s : Session} (h : Inv epoch s) {k : Key} {r : IntelRecord}
    (hr : s.store.get k = some r) {f : Feed} {p : Provenance} (hf : s.standing k f = some p) :
    p ∈ r.provenance := by
  obtain ⟨q, hq, rfl⟩ := (h.exists_standing hr (p = ·)).mp ⟨f, p, hf, rfl⟩
  exact hq

theorem isActive_spec {provs : List Provenance} {now : ℚ} {r : IntelRecord}
    (h : Effective epoch provs now r) :
    ∃ b, isActive epoch r now = .ok b ∧ (b = true ↔ ∃ p ∈ provs, p.ValidAt epoch now) := by
  obtain ⟨t, ht, -, hlast⟩ := h.expiry
  unfold isActive isExpired
  by_cases hd : r.disposition = .active
  · obtain ⟨p, hp, s, hs, hnow⟩ := h.disposition.mp hd
    have hlt : ¬ t ≤ now := not_le.mpr (hnow.trans_le (hlast p hp s hs))
    rw [if_pos hd, ht]
    refine ⟨true, ?_, fun _ => ⟨p, hp, s, hs, hnow⟩, fun _ => rfl⟩
    simp [bind, Except.bind, pure, Except.pure, hlt]
  · rw [if_neg hd]
    exact ⟨false, rfl, nofun, fun hex => absurd (h.disposition.mpr hex) hd⟩

/-- What `match` returns for an indicator that is stored. -/
theorem Inv.isHit {s : Session} (h : Inv epoch s) {k : Key} {base r : IntelRecord} {now : ℚ}
    (hbase : s.store.get k = some base) (hprov : r.provenance = base.provenance)
    (hkey : r.key = base.key) (heff : Effective epoch base.provenance now r)
    (hlive : ∃ p ∈ base.provenance, p.ValidAt epoch now) : IsHit epoch s k now r := by
  obtain ⟨p, hp, hcounts, ⟨hscore, -, -, htrust⟩, hbest⟩ := heff.winner
  have hvalid : p.ValidAt epoch now := by
    rcases hcounts with hvalid | hnone
    · exact hvalid
    · obtain ⟨q, hq, hqv⟩ := hlive
      exact absurd hqv (hnone q hq)
  constructor
  · exact ⟨base, hbase, hkey, hprov⟩
  · rw [h.exists_standing hbase fun p => p.ValidAt epoch now ∧ r.score = p.score ∧
      r.sourceTrust = p.sourceTrust ∧
      ∀ g q, s.standing k g = some q → q.ValidAt epoch now → q.rank ≤ p.rank]
    refine ⟨p, hp, hvalid, hscore, htrust, fun g q hg hq => ?_⟩
    exact hbest q (h.mem_of_standing hbase hg) (Or.inl hq)
  · constructor
    · exact (h.exists_standing hbase fun p => p.tlp = r.tlp).mpr heff.tlp.1
    · exact fun f q hf => heff.tlp.2 q (h.mem_of_standing hbase hf)

/-- A lookup that returns nothing, when nothing should be returned. -/
theorem exists_no_hit {P : Prop} {Q : IntelRecord → Prop} (h : ¬ P) :
    ∃ hit : Option IntelRecord, (Except.ok none : Except Failure _) = .ok hit ∧
      (hit.isSome ↔ P) ∧ ∀ r, hit = some r → Q r := by
  refine ⟨none, rfl, ?_, fun r hr => absurd hr (by simp)⟩
  simpa using h

theorem Inv.matched {s : Session} (h : Inv epoch s)
    (normIndicator : IndicatorType → String → String) (tenant : String) (itype : IndicatorType)
    (value : String) (now : ℚ) : ∃ hit,
    matchIndicator epoch normIndicator s.store tenant itype value now = .ok hit ∧
    (hit.isSome ↔ Live epoch s (tenant, itype, normIndicator itype value) now ∧
      ¬ Suppressed s (tenant, itype, normIndicator itype value) now) ∧
    ∀ r, hit = some r → IsHit epoch s (tenant, itype, normIndicator itype value) now r := by
  unfold matchIndicator
  generalize hk : (tenant, itype, normIndicator itype value) = k
  simp only [hk]
  cases hbase : s.store.get k with
  | none =>
    have hnone := ((h.mirrors k).eq_none_iff.mp hbase)
    apply exists_no_hit
    rintro ⟨⟨f, p, hf, -⟩, -⟩
    rw [hnone f] at hf
    cases hf
  | some base =>
    have hmirrors := h.mirrors k
    rw [hbase] at hmirrors
    have hdated : ∀ p ∈ base.provenance, p.Dated epoch := hmirrors.dated
    obtain ⟨r, hderive⟩ := exists_derive now (hmirrors.nonempty base rfl) hdated
    obtain ⟨hprov, -, -, heff⟩ := derive_spec (fun p hp => (hdated p hp).ownExpiry) hderive
    obtain ⟨active, hactive, hlive⟩ := isActive_spec heff
    have hlive' : active = true ↔ Live epoch s k now := by
      rw [hlive]
      exact (h.exists_standing hbase fun p => p.ValidAt epoch now).symm
    simp only [bind, Except.bind, hderive, hactive, pure, Except.pure]
    by_cases ha : active = true
    · by_cases hsup : s.store.isSuppressed k now = true
      · rw [if_neg (by simp [ha]), if_pos hsup]
        exact exists_no_hit fun hcontra => hcontra.2 ((isSuppressed_iff s k now).mp hsup)
      · rw [if_neg (by simp [ha]), if_neg hsup]
        refine ⟨some r, rfl, ⟨fun _ => ⟨hlive'.mp ha, ?_⟩, fun _ => rfl⟩, ?_⟩
        · exact fun hs => hsup ((isSuppressed_iff s k now).mpr hs)
        · intro r' hr'
          cases hr'
          exact h.isHit hbase hprov (derive_key hderive) heff (hlive.mp ha)
    · rw [if_pos (by simpa using ha)]
      exact exists_no_hit fun hcontra => ha (hlive'.mpr hcontra.1)

/-- **Refinement.** After every session whose records name every feed once,
    the store is the assertion map to its readers. -/
theorem refines_assertions (normIndicator : IndicatorType → String → String) (calls : List Call)
    (hown : ∀ c ∈ calls, c.OwnExpiries) (honce : ∀ c ∈ calls, c.FeedsOnce) :
    Refines epoch normIndicator (Machine.run (step epoch) empty calls) := by
  have hinv : Inv epoch (Machine.run (step epoch) empty calls) := Inv.run hown honce
  constructor
  · intro k r hr f
    have hentries := (hinv.mirrors k).entries f
    rwa [hr] at hentries
  · exact fun k => (hinv.mirrors k).eq_none_iff
  · exact hinv.matched normIndicator

section Sample

/-- Two of the timestamps that feeds send. -/
def sampleEpoch (ts : String) : Except Failure ℚ :=
  if ts = "2026-12-01T00:00:00Z" then .ok 1796083200
  else if ts = "2026-09-01T00:00:00Z" then .ok 1788220800
  else .error .valueError

def sampleEntry (score : ℚ) (feed : String) : Provenance where
  source := "acme"
  feed := feed
  score := score
  tlp := .amber
  sourceTrust := 1 / 2
  firstSeen := "2026-09-01T00:00:00Z"
  lastSeen := "2026-09-01T00:00:00Z"
  expiry := some "2026-12-01T00:00:00Z"

def sampleRecord (provenance : List Provenance) : IntelRecord where
  indicator := "9.9.9.9"
  itype := .ip
  source := "acme"
  feed := "blocklist"
  score := 80
  tlp := .amber
  sourceTrust := 1 / 2
  firstSeen := "2026-09-01T00:00:00Z"
  lastSeen := "2026-09-01T00:00:00Z"
  expiry := "2026-12-01T00:00:00Z"
  disposition := .active
  tenant := "t1"
  provenance := provenance

theorem sampleEntry_ownExpiry (score : ℚ) (feed : String) : (sampleEntry score feed).OwnExpiry :=
  ⟨"2026-12-01T00:00:00Z", rfl, by decide⟩

/-- A feed that reports an indicator and withdraws it, another that keeps it. -/
theorem refines_two_feeds : Refines sampleEpoch (fun _ v => v) (Machine.run (step sampleEpoch) empty
    [.ingest [sampleRecord [sampleEntry 80 "blocklist"], sampleRecord [sampleEntry 40 "misp"]]
      1790640000 [⟨"t1", .ip, "9.9.9.9", "acme", "blocklist"⟩] none]) := by
  refine refines_assertions (fun _ v => v) _ ?_ ?_
  · intro c hc
    rw [List.mem_singleton.mp hc]
    intro r hr p hp
    simp only [List.mem_cons, List.not_mem_nil, or_false] at hr
    rcases hr with rfl | rfl
    · rw [List.mem_singleton.mp hp]
      exact sampleEntry_ownExpiry _ _
    · rw [List.mem_singleton.mp hp]
      exact sampleEntry_ownExpiry _ _
  · intro c hc
    rw [List.mem_singleton.mp hc]
    intro r hr
    simp only [List.mem_cons, List.not_mem_nil, or_false] at hr
    rcases hr with rfl | rfl
    · exact List.nodup_singleton _
    · exact List.nodup_singleton _

/-- A record that names one feed twice. -/
def twiceReported : Call :=
  .ingest [sampleRecord [sampleEntry 80 "blocklist", sampleEntry 60 "blocklist"]] 1790640000 [] none

/-- Both entries of a feed that one record names twice are stored. -/
theorem feed_stored_twice : twiceReported.OwnExpiries ∧
    ¬ Refines sampleEpoch (fun _ v => v) (Machine.run (step sampleEpoch) empty [twiceReported]) := by
  constructor
  · intro r hr p hp
    rw [List.mem_singleton.mp hr] at hp
    simp only [sampleRecord, List.mem_cons, List.not_mem_nil, or_false] at hp
    rcases hp with rfl | rfl
    · exact sampleEntry_ownExpiry _ _
    · exact sampleEntry_ownExpiry _ _
  · intro h
    have hstored : ((Machine.run (step sampleEpoch) empty [twiceReported]).store.get
        ("t1", .ip, "9.9.9.9")).map (fun r =>
          (r.provenance.filter (fun p => p.origin = ("acme", "blocklist"))).length) = some 2 := by
      decide +kernel
    obtain ⟨r, hr, hlen⟩ := Option.map_eq_some_iff.mp hstored
    rw [h.entries _ r hr] at hlen
    have hle : ∀ o : Option Provenance, o.toList.length ≤ 1 := by
      intro o
      cases o with
      | none => exact Nat.zero_le 1
      | some p => exact Nat.le_refl 1
    have := hle ((Machine.run (step sampleEpoch) empty [twiceReported]).standing
      ("t1", .ip, "9.9.9.9") ("acme", "blocklist"))
    omega

end Sample

end Session

end ThreatIntel
