import CernityNdr.Framework.LastWrite
import CernityNdr.Framework.Run
import CernityNdr.Intel.Effective

/-! # The Assertion Map

    What the store is for: a map from an indicator and a feed to the latest
    assertion of this feed, unless the feed has withdrawn it. The calls that
    return are a log of writes to this map, and `lastWrite` of the log is the
    map.

    * `mirrors_merge`, `mirrors_applyRevocation`: one merge and one withdrawal
      do to what is stored what their writes do to the map.

    Sessions and their invariant, `Session.Inv`, build on this. -/

namespace ThreatIntel

/-! ### Reports -/

/-- A write to the assertion map: an assertion, or its withdrawal. -/
abbrev Report := (Key × Feed) × Option Provenance

/-- The assertions of a record. -/
def IntelRecord.reports (r : IntelRecord) : List Report :=
  r.provenance.map fun p => ((r.key, p.origin), some p)

def Revocation.report (rv : Revocation) : Report := ((rv.key, rv.origin), none)

/-- The feeds that the record names are distinct. -/
def IntelRecord.FeedsOnce (r : IntelRecord) : Prop := (r.provenance.map Provenance.origin).Nodup

theorem lastWrite_reports_ne (log : List Report) {r : IntelRecord} {k : Key} (hk : r.key ≠ k)
    (f : Feed) : lastWrite (log ++ r.reports) (k, f) = lastWrite log (k, f) := by
  apply lastWrite_append_of_notMem
  simp only [IntelRecord.reports, List.map_map, List.mem_map, not_exists, not_and]
  intro p _ heq
  exact hk (congrArg Prod.fst heq)

theorem lastWrite_reports_notMem (log : List Report) {r : IntelRecord} {f : Feed}
    (hf : f ∉ r.provenance.map Provenance.origin) :
    lastWrite (log ++ r.reports) (r.key, f) = lastWrite log (r.key, f) := by
  apply lastWrite_append_of_notMem
  simp only [IntelRecord.reports, List.map_map, List.mem_map, not_exists, not_and]
  intro p hp heq
  exact hf (List.mem_map.mpr ⟨p, hp, congrArg Prod.snd heq⟩)

theorem lastWrite_reports_mem (log : List Report) {r : IntelRecord} (honce : r.FeedsOnce)
    {p : Provenance} (hp : p ∈ r.provenance) :
    lastWrite (log ++ r.reports) (r.key, p.origin) = some p := by
  have hmem : ((r.key, p.origin), some p) ∈ r.reports := List.mem_map_of_mem hp
  have hnodup : (r.reports.map Prod.fst).Nodup := by
    have hkeys : r.reports.map Prod.fst = (r.provenance.map Provenance.origin).map (r.key, ·) := by
      simp [IntelRecord.reports, Function.comp_def]
    rw [hkeys]
    exact honce.map fun a b h => congrArg Prod.snd h
  rw [lastWrite_append, if_pos (List.mem_map_of_mem (f := Prod.fst) hmem)]
  exact lastWrite_of_nodup hnodup hmem

/-! ### A record mirrors the map of its feeds -/

/-- The assertions of what is stored under a key. -/
def provenanceOf (o : Option IntelRecord) : List Provenance :=
  (o.map IntelRecord.provenance).getD []

@[simp] theorem provenanceOf_none : provenanceOf none = [] := rfl

@[simp] theorem provenanceOf_some (r : IntelRecord) : provenanceOf (some r) = r.provenance := rfl

/-- What is stored holds the assertions of `m`, each once, and nothing is
    stored when there are none. -/
structure Mirrors (epoch : String → Except Failure ℚ) (o : Option IntelRecord)
    (m : Feed → Option Provenance) : Prop where
  entries : ∀ f, (provenanceOf o).filter (fun p => p.origin = f) = (m f).toList
  nonempty : ∀ r, o = some r → r.provenance ≠ []
  dated : ∀ p ∈ provenanceOf o, p.Dated epoch

section Mirrors

variable {epoch : String → Except Failure ℚ} {o : Option IntelRecord}
  {m : Feed → Option Provenance}

theorem Mirrors.empty : Mirrors epoch none (fun _ => none) where
  entries _ := rfl
  nonempty _ h := by cases h
  dated _ h := by cases h

/-- The assertions that are stored are those of the map. -/
theorem Mirrors.mem_iff (h : Mirrors epoch o m) {p : Provenance} :
    p ∈ provenanceOf o ↔ m p.origin = some p := by
  have hmem : p ∈ (provenanceOf o).filter (fun q => q.origin = p.origin) ↔
      p ∈ provenanceOf o := by simp
  rw [← hmem, h.entries, Option.mem_toList]

theorem Mirrors.origin_of (h : Mirrors epoch o m) {f : Feed} {p : Provenance}
    (hm : m f = some p) : p.origin = f := by
  have hp : p ∈ (provenanceOf o).filter (fun q => q.origin = f) := by simp [h.entries, hm]
  simpa using (List.mem_filter.mp hp).2

/-- There is a record when the map has an assertion for it. -/
theorem Mirrors.eq_none_iff (h : Mirrors epoch o m) : o = none ↔ ∀ f, m f = none := by
  constructor
  · intro hnone f
    have hentries := h.entries f
    rw [hnone] at hentries
    cases hm : m f with
    | none => rfl
    | some p => simp [hm] at hentries
  · intro hall
    cases ho : o with
    | none => rfl
    | some r =>
      obtain ⟨p, hp⟩ := List.exists_mem_of_ne_nil _ (h.nonempty r ho)
      have hsome := h.mem_iff.mp (show p ∈ provenanceOf o by rwa [ho])
      rw [hall] at hsome
      cases hsome

/-- The entry of one feed in a list that names every feed once. -/
theorem filter_origin_of_nodup {provs : List Provenance}
    (h : (provs.map Provenance.origin).Nodup) {p : Provenance} (hp : p ∈ provs) :
    provs.filter (fun q => q.origin = p.origin) = [p] := by
  induction provs with
  | nil => cases hp
  | cons q provs ih =>
    rw [List.map_cons, List.nodup_cons] at h
    rcases List.mem_cons.mp hp with rfl | hp
    · have hrest : provs.filter (fun q => q.origin = p.origin) = [] := by
        simp only [List.filter_eq_nil_iff, decide_eq_true_eq]
        exact fun q hq heq => h.1 (List.mem_map.mpr ⟨q, hq, heq⟩)
      rw [List.filter_cons_of_pos (by simp), hrest]
    · have hne : q.origin ≠ p.origin := fun heq => h.1 (heq ▸ List.mem_map_of_mem hp)
      rw [List.filter_cons_of_neg (by simpa using hne), ih h.2 hp]

end Mirrors

/-! ### One record -/

section Rounds

variable {epoch : String → Except Failure ℚ} {now : ℚ} {log : List Report}

theorem merge_spec {base : Option IntelRecord} {incoming merged : IntelRecord}
    (hkey : ∀ b, base = some b → b.key = incoming.key)
    (h : merge epoch base incoming = .ok merged) :
    merged.key = incoming.key ∧ merged.provenance =
      (provenanceOf base).filter (fun p => p.origin ∉ incoming.provenance.map Provenance.origin) ++
        incoming.provenance := by
  cases base with
  | none =>
    cases h
    exact ⟨rfl, by simp⟩
  | some b =>
    obtain ⟨first, -, h⟩ := Except.bind_eq_ok.mp h
    obtain ⟨last, -, h⟩ := Except.bind_eq_ok.mp h
    cases h
    exact ⟨hkey b rfl, rfl⟩

/-- Merging a record writes its assertions to the map. -/
theorem mirrors_merge {base : Option IntelRecord} {incoming merged r : IntelRecord}
    (hkey : ∀ b, base = some b → b.key = incoming.key)
    (hbase : Mirrors epoch base fun f => lastWrite log (incoming.key, f))
    (honce : incoming.FeedsOnce) (hown : ∀ p ∈ incoming.provenance, p.OwnExpiry)
    (hmerge : merge epoch base incoming = .ok merged) (hderive : derive epoch merged now = .ok r) :
    Mirrors epoch (some r) fun f => lastWrite (log ++ incoming.reports) (incoming.key, f) := by
  obtain ⟨-, hprov⟩ := merge_spec hkey hmerge
  have hmown : ∀ p ∈ merged.provenance, p.OwnExpiry := by
    intro p hp
    rw [hprov] at hp
    rcases List.mem_append.mp hp with hp | hp
    · exact (hbase.dated p (List.mem_filter.mp hp).1).ownExpiry
    · exact hown p hp
  obtain ⟨hrprov, hne, hdated, -⟩ := derive_spec hmown hderive
  refine ⟨fun f => ?_, ?_, ?_⟩
  · rw [provenanceOf_some, hrprov, hprov, List.filter_append, List.filter_filter]
    by_cases hf : f ∈ incoming.provenance.map Provenance.origin
    · -- the old entry of a feed that reports again is dropped
      obtain ⟨p, hp, rfl⟩ := List.mem_map.mp hf
      have hold : (provenanceOf base).filter (fun a => decide (a.origin = p.origin) &&
          decide (a.origin ∉ incoming.provenance.map Provenance.origin)) = [] := by
        simp only [List.filter_eq_nil_iff, Bool.and_eq_true, decide_eq_true_eq]
        exact fun q _ hq => hq.2 (hq.1 ▸ hf)
      rw [hold, filter_origin_of_nodup honce hp, lastWrite_reports_mem log honce hp]
      rfl
    · -- the other feeds keep theirs
      have hold : (provenanceOf base).filter (fun a => decide (a.origin = f) &&
          decide (a.origin ∉ incoming.provenance.map Provenance.origin)) =
          (provenanceOf base).filter (fun a => a.origin = f) := by
        apply List.filter_congr
        intro q _
        by_cases hq : q.origin = f
        · rw [hq]
          simpa using hf
        · simp [hq]
      have hnew : incoming.provenance.filter (fun a => a.origin = f) = [] := by
        simp only [List.filter_eq_nil_iff, decide_eq_true_eq]
        exact fun q hq heq => hf (List.mem_map.mpr ⟨q, hq, heq⟩)
      rw [hold, hnew, List.append_nil, lastWrite_reports_notMem log hf]
      exact hbase.entries f
  · intro r' hr'
    cases hr'
    rwa [hrprov]
  · rw [provenanceOf_some, hrprov]
    exact hdated

/-- Every record of the working map is under its own key. -/
def Keyed (working : Working) : Prop := ∀ e ∈ working.vals, e.2.key = e.1

theorem Keyed.put {working : Working} (h : Keyed working) {k : Key} {r : IntelRecord}
    (hr : r.key = k) : Keyed (working.put (k, r)) := by
  intro e he
  rcases Registry.mem_put he with he | rfl
  · exact h e he
  · exact hr

theorem Keyed.of_base {store : IntelStore} {working : Working} (h : Keyed working) {k : Key}
    {b : IntelRecord} (hb : baseRecord store working k = some b) : b.key = k := by
  unfold baseRecord at hb
  rcases Option.or_eq_some_iff.mp hb with hb | ⟨-, hb⟩
  · exact h _ (Registry.lookup_eq_some.mp hb)
  · exact Registry.keyOf_of_get? hb

theorem baseRecord_put (store : IntelStore) (working : Working) (k k' : Key) (r : IntelRecord) :
    baseRecord store (working.put (k, r)) k' =
      if k = k' then some r else baseRecord store working k' := by
  unfold baseRecord
  rw [Registry.lookup_put]
  by_cases hk : k = k'
  · rw [if_pos hk, if_pos hk, Option.some_or]
  · rw [if_neg hk, if_neg hk]

/-! ### One revocation -/

theorem lastWrite_report_ne {rv : Revocation} {k : Key} (hk : rv.key ≠ k) (f : Feed) :
    lastWrite (log ++ [rv.report]) (k, f) = lastWrite log (k, f) := by
  rw [lastWrite_snoc, if_neg fun heq => hk (congrArg Prod.fst heq)]

theorem lastWrite_report (rv : Revocation) (f : Feed) :
    lastWrite (log ++ [rv.report]) (rv.key, f) =
      if rv.origin = f then none else lastWrite log (rv.key, f) := by
  rw [lastWrite_snoc]
  by_cases hf : rv.origin = f
  · rw [if_pos hf, if_pos (show rv.report.1 = (rv.key, f) by rw [← hf]; rfl)]
    rfl
  · rw [if_neg hf, if_neg fun heq => hf (congrArg Prod.snd heq)]

theorem applyRevocation_key {base r : IntelRecord} {rv : Revocation}
    (h : applyRevocation epoch base rv now = .ok (some r)) : r.key = base.key := by
  unfold applyRevocation at h
  by_cases hrest : base.provenance.filter (fun p => p.origin ≠ rv.origin) = []
  · rw [if_pos hrest] at h
    cases h
  · rw [if_neg hrest] at h
    obtain ⟨r', hderive, heq⟩ := Except.map_eq_ok.mp h
    cases heq
    have hkey := derive_key hderive
    exact hkey

/-- Dropping the assertion that a revocation names erases it from the map. -/
theorem mirrors_applyRevocation {base : IntelRecord} {rv : Revocation} {o : Option IntelRecord}
    (hbase : Mirrors epoch (some base) fun f => lastWrite log (rv.key, f))
    (h : applyRevocation epoch base rv now = .ok o) :
    Mirrors epoch o fun f => lastWrite (log ++ [rv.report]) (rv.key, f) := by
  have hentries : ∀ f, (base.provenance.filter (fun p => p.origin ≠ rv.origin)).filter
      (fun p => p.origin = f) = (lastWrite (log ++ [rv.report]) (rv.key, f)).toList := by
    intro f
    rw [lastWrite_report, List.filter_filter]
    by_cases hf : rv.origin = f
    · rw [if_pos hf]
      simp only [Option.toList_none, List.filter_eq_nil_iff, Bool.and_eq_true, decide_eq_true_eq]
      exact fun p _ hp => hp.2 (hp.1.trans hf.symm)
    · rw [if_neg hf, ← hbase.entries f]
      apply List.filter_congr
      intro p _
      by_cases hp : p.origin = f
      · simp [hp, Ne.symm hf]
      · simp [hp]
  have hdated : ∀ p ∈ base.provenance.filter (fun p => p.origin ≠ rv.origin), p.Dated epoch :=
    fun p hp => hbase.dated p (List.mem_filter.mp hp).1
  unfold applyRevocation at h
  by_cases hrest : base.provenance.filter (fun p => p.origin ≠ rv.origin) = []
  · rw [if_pos hrest] at h
    cases h
    constructor
    · intro f
      rw [← hentries f, hrest]
      rfl
    · intro r hr
      cases hr
    · intro p hp
      cases hp
  · rw [if_neg hrest] at h
    obtain ⟨r, hderive, rfl⟩ := Except.map_eq_ok.mp h
    obtain ⟨hprov, hne, -, -⟩ := derive_spec (fun p hp => (hdated p hp).ownExpiry) hderive
    constructor
    · intro f
      rw [provenanceOf_some, hprov]
      exact hentries f
    · intro r' hr'
      cases hr'
      rwa [hprov]
    · rw [provenanceOf_some, hprov]
      exact hdated

theorem baseRecord_pop_ne (store : IntelStore) (working : Working) {k k' : Key} (h : k ≠ k') :
    baseRecord store (working.pop k) k' = baseRecord store working k' := by
  unfold baseRecord
  rw [Registry.lookup_pop, if_neg h]

/-! ### A whole refresh -/

/-- The writes of one refresh: assertions first, withdrawals after them. -/
def reports (records : List IntelRecord) (revocations : List Revocation) : List Report :=
  records.flatMap IntelRecord.reports ++ revocations.map Revocation.report

end Rounds

end ThreatIntel
