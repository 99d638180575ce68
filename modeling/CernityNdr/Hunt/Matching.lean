import Mathlib.Data.List.Dedup
import CernityNdr.Framework.Failing
import CernityNdr.Framework.JsonRoundTrip
import CernityNdr.Hunt.Worker

/-! # What a Page Adds

    The hits that a page of evidence makes, as a function of its
    observations, and what storing them leaves.

    * `recordOf`: the hit of one observation and one indicator.
    * `mem_of_observationHits`: the hits of an observation are the records of
      its indicators.
    * `mem_hits_stored`: what `save` leaves of the hits. -/

namespace IntelHunt

open EvidenceService ThreatIntel Json

variable {env : Env} {tenant huntId : String} {obs : Dict} {ind : Indicator} {h : Hit}

/-! ### Records -/

variable (env) in
/-- The indicator matches one of the dimensions of the observation. -/
def Matches (obs : Dict) (ind : Indicator) : Prop :=
  ∃ dims, dimensionsOf env obs = .ok dims ∧
    ∃ d ∈ dims, supported d.kind = true ∧ isMatch env ind d.kind d.value = true

variable (env) in
/-- The hit of an observation and an indicator. -/
def recordOf (tenant huntId : String) (obs : Dict) (ind : Indicator) : Option Hit :=
  match dimensionsOf env obs with
  | .error _ => none
  | .ok dims =>
    match hitOf env tenant huntId obs dims ind with
    | .error _ => none
    | .ok h => h

/-- What an observation of a row owes to its contract. -/
structure Contract (r : Row) (obs : Dict) : Prop where
  obsId : obs.get? "obs_id" = some (.str r.obsId)
  type : ∃ t ∈ obsTypes, obs.get? "type" = some (.str t)

theorem member_eq_ok {d : Dict} {key : String} {v : Json} :
    member d key = .ok v ↔ d.get? key = some v := by
  unfold member
  cases d.get? key with
  | none => simp
  | some w => simp

theorem sortedSet_eq_nil {fields : List String} : sortedSet fields = [] ↔ fields = [] := by
  unfold sortedSet
  rw [List.eq_nil_iff_forall_not_mem, List.eq_nil_iff_forall_not_mem]
  simp [(List.perm_insertionSort _ _).mem_iff, List.mem_dedup]

/-- Whether an indicator has a hit is whether it matches. -/
theorem hitOf_eq_ok {dims : List Dimension} {o : Option Hit}
    (ho : hitOf env tenant huntId obs dims ind = .ok o) :
    (o = none ↔ ¬ ∃ d ∈ dims, supported d.kind = true ∧ isMatch env ind d.kind d.value = true) ∧
      ∀ h, o = some h → h.indicator = ind ∧ h.tenant = tenant ∧
        obs.get? "obs_id" = some (.str h.obsId) ∧
        h.hitId = hitId env tenant huntId h.obsId ind := by
  have hnone : (dims.filter fun d => supported d.kind && isMatch env ind d.kind d.value) = [] ↔
      ¬ ∃ d ∈ dims, supported d.kind = true ∧ isMatch env ind d.kind d.value = true := by
    rw [List.filter_eq_nil_iff]
    simp
  rw [← hnone]
  unfold hitOf at ho
  simp only [sortedSet_eq_nil, List.map_eq_nil_iff] at ho
  split at ho
  · next hfields =>
    cases ho
    exact ⟨iff_of_true rfl hfields, fun h heq => nomatch heq⟩
  · next hfields =>
    obtain ⟨idValue, hidValue, ho⟩ := Except.bind_eq_ok.mp ho
    obtain ⟨obsId, hobsId, ho⟩ := Except.bind_eq_ok.mp ho
    obtain ⟨ts, -, ho⟩ := Except.bind_eq_ok.mp ho
    obtain ⟨observed, -, ho⟩ := Except.bind_eq_ok.mp ho
    obtain ⟨sourceRef, -, ho⟩ := Except.bind_eq_ok.mp ho
    have hid : obs.get? "obs_id" = some (.str obsId) := by
      rw [member_eq_ok.mp hidValue]
      cases idValue with
      | str s =>
        cases hobsId
        rfl
      | _ => cases hobsId
    split at ho
    · cases ho
      refine ⟨iff_of_false nofun hfields, ?_⟩
      intro h heq
      cases heq
      exact ⟨rfl, rfl, hid, rfl⟩
    · cases ho

/-- The hits of an observation are the records of its indicators, and every
    indicator that matches has one. -/
theorem mem_of_observationHits {r : Row} {window : Int × Int} {indicators : List Indicator}
    {hits : List Hit} (hc : Contract r obs)
    (hok : observationHits env tenant huntId window indicators obs = .ok hits) :
    (∀ h, h ∈ hits ↔ ∃ ind ∈ indicators, recordOf env tenant huntId obs ind = some h) ∧
      ∀ ind ∈ indicators, Matches env obs ind →
        ∃ h, recordOf env tenant huntId obs ind = some h := by
  unfold observationHits at hok
  obtain ⟨owner, -, hok⟩ := Except.bind_eq_ok.mp hok
  split at hok
  · cases hok
  obtain ⟨ts, -, hok⟩ := Except.bind_eq_ok.mp hok
  obtain ⟨normalizedTs, -, hok⟩ := Except.bind_eq_ok.mp hok
  split at hok
  · cases hok
  split at hok
  · cases hok
  obtain ⟨otype, hotype, hok⟩ := Except.bind_eq_ok.mp hok
  obtain ⟨t, ht, hget⟩ := hc.type
  have htype : (otype.str?.any fun s => s ∈ obsTypes) = true := by
    rw [member_eq_ok, hget] at hotype
    obtain rfl := Option.some.inj hotype
    exact decide_eq_true ht
  rw [htype, if_neg (by simp)] at hok
  obtain ⟨dims, hdims, hok⟩ := Except.bind_eq_ok.mp hok
  obtain ⟨found, hfound, hok⟩ := Except.bind_eq_ok.mp hok
  cases hok
  have hrecord : ∀ ind, ∀ o, hitOf env tenant huntId obs dims ind = .ok o →
      recordOf env tenant huntId obs ind = o := by
    intro ind o ho
    simp only [recordOf, hdims, ho]
  constructor
  · intro h
    simp only [List.mem_filterMap, id_eq, exists_eq_right]
    rw [Except.mem_of_mapM_eq_ok hfound]
    constructor
    · rintro ⟨ind, hind, ho⟩
      exact ⟨ind, hind, hrecord ind _ ho⟩
    · rintro ⟨ind, hind, hrec⟩
      obtain ⟨o, ho⟩ := Except.exists_mapM_eq_ok.mp ⟨_, hfound⟩ ind hind
      rw [hrecord ind o ho] at hrec
      exact ⟨ind, hind, hrec ▸ ho⟩
  · rintro ind hind ⟨dims', hdims', hmatch⟩
    rw [hdims] at hdims'
    cases hdims'
    obtain ⟨o, ho⟩ := Except.exists_mapM_eq_ok.mp ⟨_, hfound⟩ ind hind
    cases o with
    | none => exact absurd hmatch ((hitOf_eq_ok ho).1.mp rfl)
    | some h => exact ⟨h, hrecord ind _ ho⟩

/-! ### Identities -/

theorem text_injective : Function.Injective IndicatorType.text := by
  intro a b h
  cases a <;> cases b <;> simp_all [IndicatorType.text]

theorem sortKeys_identity (tenant huntId obsId : String) (ind : Indicator) :
    Json.sortKeys (.arr [.str tenant, .str huntId, .str obsId, indicatorJson ind]) =
      .arr [.str tenant, .str huntId, .str obsId, .obj [("indicator", .str ind.indicator),
        ("intel_known_at", .str ind.intelKnownAt), ("type", .str ind.itype.text)]] := by
  have hti : ¬ "type" ≤ "indicator" := by decide
  have htk : ¬ "type" ≤ "intel_known_at" := by decide
  have hik : "indicator" ≤ "intel_known_at" := by decide
  simp [Json.sortKeys, Json.sortKeys.items, Json.sortKeys.members, indicatorJson, hti, htk, hik]

/-- The id of a hit determines its observation and its indicator. -/
theorem hitId_injective (hsha : Function.Injective env.sha256) {obsId obsId' : String}
    {ind ind' : Indicator}
    (h : hitId env tenant huntId obsId ind = hitId env tenant huntId obsId' ind') :
    obsId = obsId' ∧ ind = ind' := by
  have hjson := Json.dumps_injective (hsha h)
  rw [sortKeys_identity, sortKeys_identity] at hjson
  simp only [Json.arr.injEq, Json.obj.injEq, Json.str.injEq, List.cons.injEq, Prod.mk.injEq,
    true_and, and_true] at hjson
  obtain ⟨hobs, hindicator, hknown, htype⟩ := hjson
  obtain ⟨itype, indicator, known⟩ := ind
  obtain ⟨itype', indicator', known'⟩ := ind'
  obtain rfl := text_injective htype
  obtain rfl : indicator = indicator' := hindicator
  obtain rfl : known = known' := hknown
  exact ⟨hobs, rfl⟩

/-- What a record says of its observation and its indicator. -/
theorem recordOf_spec {r : Row} (hc : Contract r obs)
    (hrec : recordOf env tenant huntId obs ind = some h) :
    h.obsId = r.obsId ∧ h.indicator = ind ∧ h.hitId = hitId env tenant huntId r.obsId ind ∧
      Matches env obs ind := by
  unfold recordOf at hrec
  split at hrec
  · cases hrec
  next dims hdims =>
    split at hrec
    · cases hrec
    next o ho =>
      obtain ⟨hnone, hsome⟩ := hitOf_eq_ok ho
      obtain ⟨hind, -, hid, hhit⟩ := hsome h hrec
      rw [hc.obsId] at hid
      obtain heq : r.obsId = h.obsId := by simpa using hid
      refine ⟨heq.symm, hind, by rw [heq, hhit], dims, hdims, ?_⟩
      by_contra hnot
      rw [hnone.mpr hnot] at hrec
      cases hrec

/-! ### Storing -/

namespace HuntStore

/-- The store after a `save` that returned. -/
def stored (s : HuntStore) (tenant jobId : String) (request : Job) (state : State)
    (hits : List Hit) : HuntStore :=
  (s.execute Statement.apply (statements tenant jobId request state hits)).commit

variable {s s' : HuntStore} {jobId : String} {request : Job} {state : State} {hits : List Hit}
  {fault : Fault}

theorem save_eq_ok {u : Unit} (hs : s.save tenant jobId request state hits fault = (.ok u, s')) :
    s' = s.stored tenant jobId request state hits :=
  (Connection.writeOrRollback_eq_ok hs).2

theorem save_eq_error {e : SqlError} (hclean : s.Clean)
    (hs : s.save tenant jobId request state hits fault = (.error e, s')) : s' = s := by
  obtain ⟨-, rfl⟩ := Connection.writeOrRollback_eq_error hs
  exact hclean.rollback_eq

theorem jobs_inserts (t : Tables) (rows : List HitRow) :
    ((rows.map .insertHit).foldl Statement.apply t).jobs = t.jobs := by
  induction rows generalizing t with
  | nil => rfl
  | cons row rows ih =>
    refine (ih _).trans ?_
    simp only [Statement.apply]
    split
    · rfl
    · rfl

/-- Rows that are the only ones of their keys are all there afterwards, next
    to those that were. -/
theorem mem_inserts {t : Tables} {rows : List HitRow}
    (hsame : ∀ a ∈ rows, ∀ b, b ∈ t.hits.vals ∨ b ∈ rows → b.key = a.key → b = a) (row : HitRow) :
    row ∈ ((rows.map .insertHit).foldl Statement.apply t).hits.vals ↔
      row ∈ t.hits.vals ∨ row ∈ rows := by
  induction rows generalizing t with
  | nil => simp
  | cons a rows ih =>
    have hmem : ∀ b, b ∈ (Statement.apply t (.insertHit a)).hits.vals ↔ b ∈ t.hits.vals ∨ b = a := by
      intro b
      simp only [Statement.apply]
      cases hget : t.hits.get? a.key with
      | some c =>
        obtain ⟨hc, hkey⟩ := Registry.get?_eq_some.mp hget
        obtain rfl := hsame a List.mem_cons_self c (Or.inl hc) hkey
        exact ⟨Or.inl, fun hb => hb.elim id fun heq => heq ▸ hc⟩
      | none =>
        have hnot : a.key ∉ t.hits.keys := by
          rw [Registry.mem_keys, hget]
          simp
        simp [Registry.vals_put_of_notMem hnot]
    rw [List.map_cons, List.foldl_cons, ih]
    · rw [hmem, List.mem_cons, or_assoc]
    · intro a' ha' b hb hkey
      refine hsame a' (List.mem_cons_of_mem a ha') b ?_ hkey
      rcases hb with hb | hb
      · rcases (hmem b).mp hb with hold | rfl
        · exact Or.inl hold
        · exact Or.inr List.mem_cons_self
      · exact Or.inr (List.mem_cons_of_mem a hb)

theorem view_stored : (s.stored tenant jobId request state hits).view =
    ((hits.map fun h => (⟨tenant, jobId, h.hitId, h⟩ : HitRow)).map .insertHit).foldl Statement.apply
      { s.view with jobs := s.view.jobs.put ⟨tenant, jobId, request, state⟩ } := by
  rw [List.map_map]
  rfl

/-- What is stored is loaded. -/
theorem load_stored :
    (s.stored tenant jobId request state hits).load tenant jobId = some (request, state) := by
  rw [load, view_stored, jobs_inserts]
  have hput := Registry.get?_put_self s.view.jobs ⟨tenant, jobId, request, state⟩
  rw [show (tenant, jobId) = JobRow.key ⟨tenant, jobId, request, state⟩ from rfl, hput]
  rfl

/-- The hits of a job after a `save` of hits that are the only ones of their
    ids. -/
theorem mem_hitsOf_stored (hsame : ∀ h ∈ hits, (∀ h' ∈ hits, h'.hitId = h.hitId → h' = h) ∧
      ∀ row ∈ s.hitsOf tenant jobId, row.id = h.hitId → row.record = h) (row : HitRow) :
    row ∈ (s.stored tenant jobId request state hits).hitsOf tenant jobId ↔
      row ∈ s.hitsOf tenant jobId ∨ ∃ h ∈ hits, row = ⟨tenant, jobId, h.hitId, h⟩ := by
  have hmem : ∀ a : HitRow, a ∈ s.hitsOf tenant jobId ↔
      a ∈ s.view.hits.vals ∧ a.tenant = tenant ∧ a.job = jobId := by
    intro a
    simp [hitsOf]
  have hiff := @mem_inserts { s.view with jobs := s.view.jobs.put ⟨tenant, jobId, request, state⟩ }
    (hits.map fun h => ⟨tenant, jobId, h.hitId, h⟩) ?_ row
  · rw [hitsOf, view_stored, List.mem_filter, hiff, hmem]
    simp only [List.mem_map, Bool.and_eq_true, decide_eq_true_eq]
    constructor
    · rintro ⟨hold | ⟨h, hh, rfl⟩, hjob⟩
      · exact Or.inl ⟨hold, hjob⟩
      · exact Or.inr ⟨h, hh, rfl⟩
    · rintro (⟨hold, hjob⟩ | ⟨h, hh, rfl⟩)
      · exact ⟨Or.inl hold, hjob⟩
      · exact ⟨Or.inr ⟨h, hh, rfl⟩, rfl, rfl⟩
  · intro a ha b hb hkey
    obtain ⟨h, hh, rfl⟩ := List.mem_map.mp ha
    obtain ⟨hsameNew, hsameOld⟩ := hsame h hh
    rcases hb with hb | hb
    · obtain ⟨bTenant, bJob, bId, record⟩ := b
      obtain ⟨rfl, rfl, rfl⟩ : bTenant = tenant ∧ bJob = jobId ∧ bId = h.hitId := by
        simpa [HitRow.key] using hkey
      obtain rfl : record = h := hsameOld _ ((hmem _).mpr ⟨hb, rfl, rfl⟩) rfl
      rfl
    · obtain ⟨h', hh', rfl⟩ := List.mem_map.mp hb
      have hid : h'.hitId = h.hitId := by
        simpa [HitRow.key] using hkey
      rw [hsameNew h' hh' hid]

end HuntStore

end IntelHunt
