import CernityNdr.Asset.Emission
import CernityNdr.Framework.Text

/-! # Evidence and Its Durable Rows

    A sequence of evidence leaves the bindings of its observations and, for
    each subject and predicate, the winners among the candidates that were
    folded under it. The row that an evidence is persisted as gives the same
    candidates, the same binding record and the same key when it is read
    back. -/

namespace AssetService

/-! ### Evidence -/

/-- What `_fold_observation` is called with. -/
structure Evidence where
  obs : Obs
  obsId : String
  ts : Instant

/-- The evidence of a record. -/
def BusRecord.evidence (r : BusRecord) : List Evidence :=
  (extractEvidence r.eve).map fun obs => ⟨obs, r.obsId, r.ts⟩

/-- Its fact candidates. -/
def Evidence.cands (e : Evidence) : List Candidate := deriveFacts e.obs e.obsId e.ts

/-- The binding it records. -/
def Evidence.binding (e : Evidence) : Option BindingObs := bindingOf e.obs e.obsId e.ts

/-- Fold a sequence of evidence, first one first. -/
def foldAll (tenant : String) (p : Process) (es : List Evidence) : Process :=
  es.foldl (fun p e => folded tenant p e.obs e.obsId e.ts) p

theorem foldAll_append (tenant : String) (p : Process) (as bs : List Evidence) :
    foldAll tenant p (as ++ bs) = foldAll tenant (foldAll tenant p as) bs :=
  List.foldl_append

theorem observed_eq_foldAll (tenant : String) (p : Process) (r : BusRecord) :
    observed tenant p r = foldAll tenant p r.evidence := by
  unfold observed foldAll BusRecord.evidence
  rw [List.foldl_map]

/-- The bindings after a sequence are those of its observations. -/
theorem bindings_foldAll (tenant : String) (p : Process) (es : List Evidence) :
    (foldAll tenant p es).bindings =
      (es.filterMap Evidence.binding).foldl Bindings.record p.bindings := by
  induction es generalizing p with
  | nil => rfl
  | cons e es ih =>
    show (foldAll tenant (folded tenant p e.obs e.obsId e.ts) es).bindings = _
    rw [ih]
    show _ = ((e :: es).filterMap Evidence.binding).foldl Bindings.record p.bindings
    have hstep : (folded tenant p e.obs e.obsId e.ts).bindings =
        e.binding.elim p.bindings p.bindings.record := rfl
    rw [hstep]
    cases hb : e.binding with
    | none => rw [List.filterMap_cons_none hb]; rfl
    | some b => rw [List.filterMap_cons_some hb]; rfl

/-! ### The candidates and the keys they are folded under -/

/-- A key that an evidence resolves to does not depend on its own binding. -/
theorem assetKey_bindingsAfter (p : Process) (e : Evidence) :
    assetKey e.obs (bindingsAfter p e.obs e.obsId e.ts) e.ts = assetKey e.obs p.bindings e.ts := by
  unfold bindingsAfter bindingOf assetKey
  cases given e.obs.mac with
  | none => rfl
  | some mac => rfl

/-- The candidates of an evidence, under its key with the given bindings. -/
def Evidence.keyed (e : Evidence) (bindings : Bindings) : List (String × Candidate) :=
  e.cands.map fun c => (assetKey e.obs bindings e.ts, c)

/-- The candidates of a sequence, each under the key it is folded under. -/
def keyedFrom (bindings : Bindings) : List Evidence → List (String × Candidate)
  | [] => []
  | e :: es => e.keyed bindings ++ keyedFrom (e.binding.elim bindings bindings.record) es

theorem keyedFrom_append (bindings : Bindings) (as bs : List Evidence) :
    keyedFrom bindings (as ++ bs) = keyedFrom bindings as ++
      keyedFrom ((as.filterMap Evidence.binding).foldl Bindings.record bindings) bs := by
  induction as generalizing bindings with
  | nil => rfl
  | cons e as ih =>
    rw [List.cons_append, keyedFrom, keyedFrom, ih, List.append_assoc]
    cases hb : e.binding with
    | none => rw [List.filterMap_cons_none hb]; rfl
    | some b => rw [List.filterMap_cons_some hb]; rfl

/-- The candidates of one subject and predicate. -/
def candsOf (ks : List (String × Candidate)) (s : String) (pred : Predicate) : List Candidate :=
  (ks.filter fun k => k.1 = s ∧ k.2.predicate = pred).map Prod.snd

theorem candsOf_append (as bs : List (String × Candidate)) (s : String) (pred : Predicate) :
    candsOf (as ++ bs) s pred = candsOf as s pred ++ candsOf bs s pred := by
  simp [candsOf]

theorem mem_candsOf {ks : List (String × Candidate)} {s : String} {pred : Predicate}
    {c : Candidate} : c ∈ candsOf ks s pred ↔ (s, c) ∈ ks ∧ c.predicate = pred := by
  simp only [candsOf, List.mem_map, List.mem_filter, decide_eq_true_eq]
  constructor
  · rintro ⟨⟨s', c'⟩, ⟨hmem, rfl, hpred⟩, rfl⟩
    exact ⟨hmem, hpred⟩
  · rintro ⟨hmem, hpred⟩
    exact ⟨(s, c), ⟨hmem, rfl, hpred⟩, rfl⟩

/-- The winners after a sequence are folded from its candidates. -/
theorem factState_foldAll (tenant : String) (p : Process) (es : List Evidence) (s : String)
    (pred : Predicate) : (foldAll tenant p es).factState s pred =
      (candsOf (keyedFrom p.bindings es) s pred).foldl foldCandidate (p.factState s pred) := by
  induction es generalizing p with
  | nil => rfl
  | cons e es ih =>
    show (foldAll tenant (folded tenant p e.obs e.obsId e.ts) es).factState s pred = _
    rw [ih, keyedFrom, candsOf_append, List.foldl_append]
    have hstate : (folded tenant p e.obs e.obsId e.ts).factState s pred =
        (candsOf (e.keyed p.bindings) s pred).foldl foldCandidate (p.factState s pred) := by
      show foldFacts p.factState (assetKey e.obs (bindingsAfter p e.obs e.obsId e.ts) e.ts)
        e.cands s pred = _
      rw [assetKey_bindingsAfter]
      by_cases hs : s = assetKey e.obs p.bindings e.ts
      · subst hs
        rw [foldFacts_self]
        congr 1
        simp [candsOf, Evidence.keyed, List.filter_map, Function.comp_def]
      · rw [foldFacts_ne hs]
        have hnone : candsOf (e.keyed p.bindings) s pred = [] := by
          rw [List.eq_nil_iff_forall_not_mem]
          intro c hc
          obtain ⟨c', -, heq⟩ := List.mem_map.mp (mem_candsOf.mp hc).1
          exact hs (congrArg Prod.fst heq).symm
        rw [hnone, List.foldl_nil]
    rw [hstate]
    rfl

/-! ### Equal evidence, equal lists -/

theorem candidateOf_inj {pred : Predicate} {obs obs' : Obs} {obsId obsId' : String}
    {ts ts' : Instant} {v v' : String} (hsrc : obs.src = obs'.src) (hid : obsId = obsId')
    (hts : iso ts = iso ts') (hv : v = v') :
    candidateOf pred obs obsId ts v = candidateOf pred obs' obsId' ts' v' := by
  simp [candidateOf, hsrc, hid, hts, hv]

theorem mem_cands {e : Evidence} {c : Candidate} :
    c ∈ e.cands ↔ (∃ v, given e.obs.hostname = some v ∧
        candidateOf .hostname e.obs e.obsId e.ts v = c) ∨
      (∃ v, given e.obs.mac = some v ∧ candidateOf .mac e.obs e.obsId e.ts v.toLower = c) := by
  simp [Evidence.cands, deriveFacts]

/-- A candidate is told by its predicate, its instant and its conflict key. -/
theorem candidate_eq {e e' : Evidence} {c c' : Candidate} (hc : c ∈ e.cands) (hc' : c' ∈ e'.cands)
    (hpred : c.predicate = c'.predicate) (hfrom : c.validFrom = c'.validFrom)
    (hkey : conflictKey c = conflictKey c') : c = c' := by
  have hparts : c.value = c'.value ∧ c.sourceType = c'.sourceType ∧
      c.observationId = c'.observationId := by
    have h := hkey
    simp only [conflictKey, toLex_inj, Prod.mk.injEq] at h
    exact ⟨h.2.2.1, h.2.2.2.1, h.2.2.2.2⟩
  obtain ⟨hvalue, hsrc, hid⟩ := hparts
  have hof : ∀ {e : Evidence} {c : Candidate}, c ∈ e.cands →
      c = candidateOf c.predicate e.obs e.obsId e.ts c.value := by
    intro e c hc
    rcases mem_cands.mp hc with ⟨v, -, rfl⟩ | ⟨v, -, rfl⟩ <;> rfl
  have h := hof hc
  have h' := hof hc'
  rw [h, h', hpred]
  refine candidateOf_inj ?_ ?_ ?_ hvalue
  · rw [h, h'] at hsrc
    exact hsrc
  · rw [h, h'] at hid
    exact hid
  · rw [h, h'] at hfrom
    exact hfrom

/-- Every candidate comes from some evidence. -/
def FromEvidence (ks : List (String × Candidate)) : Prop :=
  ∀ k ∈ ks, ∃ e : Evidence, k.2 ∈ e.cands

theorem fromEvidence_keyedFrom (bindings : Bindings) (es : List Evidence) :
    FromEvidence (keyedFrom bindings es) := by
  induction es generalizing bindings with
  | nil => intro k hk; cases hk
  | cons e es ih =>
    intro k hk
    rcases List.mem_append.mp hk with hk | hk
    · obtain ⟨c, hc, rfl⟩ := List.mem_map.mp hk
      exact ⟨e, hc⟩
    · exact ih _ k hk

theorem separates_candsOf {ks : List (String × Candidate)} (h : FromEvidence ks) (s : String)
    (pred : Predicate) :
    Registry.RankSeparates Candidate.validFrom conflictKey (candsOf ks s pred) := by
  intro c hc d hd hfrom hkey
  obtain ⟨hcmem, hcpred⟩ := mem_candsOf.mp hc
  obtain ⟨hdmem, hdpred⟩ := mem_candsOf.mp hd
  obtain ⟨e, he⟩ := h _ hcmem
  obtain ⟨e', he'⟩ := h _ hdmem
  exact candidate_eq he he' (hcpred.trans hdpred.symm) hfrom hkey

/-- The list of a predicate depends on the winners only. -/
theorem rebuildIntervals_congr {a b : ByTs} (h : ∀ ts, a.get? ts = b.get? ts) :
    rebuildIntervals a = rebuildIntervals b := by
  have hinj : Function.Injective Iso.instant := by
    intro x y hxy
    rw [← iso_instant x, ← iso_instant y, hxy]
  unfold rebuildIntervals
  rw [Registry.sort_vals_congr hinj h]

/-- The winners of two sequences with the same keyed candidates. -/
theorem factState_congr (tenant : String) {p q : Process} {es fs : List Evidence}
    (hp : p.factState = fun _ _ => .empty) (hq : q.factState = fun _ _ => .empty)
    (hmem : SameMembers (keyedFrom p.bindings es) (keyedFrom q.bindings fs)) (s : String)
    (pred : Predicate) (ts : Iso) :
    ((foldAll tenant p es).factState s pred).get? ts =
      ((foldAll tenant q fs).factState s pred).get? ts := by
  rw [factState_foldAll, factState_foldAll, hp, hq, foldCandidate_eq]
  refine Registry.get?_leasts_congr ?_ (separates_candsOf (fromEvidence_keyedFrom _ _) s pred) ts
  intro c
  rw [mem_candsOf, mem_candsOf, hmem (s, c)]

/-! ### The durable row of an evidence -/

/-- Whether its row is persisted. -/
def Evidence.persists (e : Evidence) : Bool := !e.cands.isEmpty || e.binding.isSome

/-- The row it is persisted as. -/
def Evidence.row (tenant : String) (e : Evidence) : IdentityRow :=
  identityObservation e.obs e.obsId tenant e.ts

/-- What is replayed from a row. -/
def IdentityRow.evidence (row : IdentityRow) : Evidence :=
  ⟨reconstructObs row, row.obsId, row.normalizedTime.instant⟩

theorem given_eq_some {v : Option String} {s : String} :
    given v = some s ↔ v = some s ∧ s ≠ "" := by
  simp [given, Option.filter_eq_some_iff]

theorem given_some_ne {s : String} (h : s ≠ "") : given (some s) = some s :=
  given_eq_some.mpr ⟨rfl, h⟩

@[simp] theorem given_given (v : Option String) : given (given v) = given v := by
  simp [given]

@[simp] theorem given_map_toLower (v : Option String) :
    given ((given v).map String.toLower) = (given v).map String.toLower := by
  cases h : given v with
  | none => rfl
  | some s =>
    have hne : s ≠ "" := (given_eq_some.mp h).2
    simp [given_some_ne (Text.toLower_ne_empty hne)]

section Row

variable (tenant : String) (e : Evidence)

theorem entity_ip : (e.row tenant).entity .ip = given e.obs.ip := by
  unfold Evidence.row IdentityRow.entity identityObservation
  cases given e.obs.ip <;> cases given e.obs.mac <;> cases given e.obs.hostname <;> rfl

theorem entity_mac : (e.row tenant).entity .mac = (given e.obs.mac).map String.toLower := by
  unfold Evidence.row IdentityRow.entity identityObservation
  cases given e.obs.ip <;> cases given e.obs.mac <;> cases given e.obs.hostname <;> rfl

theorem entity_hostname : (e.row tenant).entity .hostname = given e.obs.hostname := by
  unfold Evidence.row IdentityRow.entity identityObservation
  cases given e.obs.ip <;> cases given e.obs.mac <;> cases given e.obs.hostname <;> rfl

/-- The row gives the same candidates. -/
theorem cands_row : (e.row tenant).evidence.cands = e.cands := by
  have hcand : ∀ (pred : Predicate) (v : String),
      candidateOf pred (reconstructObs (e.row tenant)) e.obsId (iso e.ts).instant v =
        candidateOf pred e.obs e.obsId e.ts v :=
    fun pred v => candidateOf_inj rfl rfl (iso_instant _) rfl
  show deriveFacts (reconstructObs (e.row tenant)) e.obsId (iso e.ts).instant =
    deriveFacts e.obs e.obsId e.ts
  unfold deriveFacts
  have hhost : (reconstructObs (e.row tenant)).hostname = given e.obs.hostname :=
    entity_hostname tenant e
  have hmac : (reconstructObs (e.row tenant)).mac = (given e.obs.mac).map String.toLower :=
    entity_mac tenant e
  rw [hhost, hmac, given_given, given_map_toLower, Option.map_map]
  congr 2
  · congr 1
    funext v
    exact hcand .hostname v
  · congr 1
    funext v
    simp only [Function.comp_apply, Text.toLower_toLower]
    exact hcand .mac v.toLower

end Row

/-! ### Bindings in the form of the records -/

/-- The observation whose fields are those of the record it stores. -/
def BindingObs.norm (o : BindingObs) : BindingObs where
  ip := o.ip
  mac := o.lease.mac
  validFrom := o.lease.validFrom.instant
  expires := o.lease.expires.map Iso.instant
  obsId := o.obsId
  src := o.src

@[simp] theorem lease_norm (o : BindingObs) : o.norm.lease = o.lease := by
  unfold BindingObs.norm BindingObs.lease
  simp only [Text.toLower_toLower, iso_instant, Option.map_map]
  congr 1
  cases o.expires with
  | none => rfl
  | some x => simp

/-- The record is all that is stored. -/
theorem record_congr {o o' : BindingObs} (hip : o.ip = o'.ip) (hlease : o.lease = o'.lease)
    (bindings : Bindings) : bindings.record o = bindings.record o' := by
  have hform : ∀ o : BindingObs, bindings.record o =
      if (bindings.leases o.ip).any (fun x => x.key = o.lease.key) then
        bindings.put (o.ip, bindings.leases o.ip)
      else bindings.put (o.ip, bindings.leases o.ip ++ [o.lease]) := fun _ => rfl
  rw [hform, hform, hip, hlease]

theorem recordAll_map_norm (os : List BindingObs) : recordAll (os.map BindingObs.norm) = recordAll os := by
  unfold recordAll
  rw [List.foldl_map]
  congr 1
  funext bindings o
  have hip : o.norm.ip = o.ip := rfl
  exact record_congr hip (lease_norm o) bindings

theorem leaseExpiry_iso (ts : Instant) (secs : Option Int) :
    leaseExpiry (iso ts).instant secs = leaseExpiry ts secs := by
  unfold leaseExpiry
  congr 1
  funext n
  have hms : ∀ a b : Int, (1000 * (a / 1000) + 1000000 * b) / 1000 = (a + 1000000 * b) / 1000 := by
    intro a b
    omega
  exact congrArg Iso.mk (hms ts n)

/-- Only whole milliseconds matter to the owner of an address. -/
theorem ownerAt_iso (leases : List Lease) (t : Instant) :
    ownerAt leases (iso t).instant = ownerAt leases t := by
  have hside : ∀ m : Int, 1000 * m ≤ 1000 * ((t : Int) / 1000) ↔ 1000 * m ≤ (t : Int) := by
    intro m
    omega
  refine ownerScan_congr ?_ ?_
  · intro c _
    exact hside c.validFrom.ms
  · intro c _ x _
    rw [← not_le, ← not_le]
    exact not_congr (hside x.ms)

section Row

variable (tenant : String) (e : Evidence)

/-- The row records the same lease. -/
theorem binding_row : (e.row tenant).evidence.binding = e.binding.map BindingObs.norm := by
  show bindingOf (reconstructObs (e.row tenant)) e.obsId (iso e.ts).instant = _
  unfold Evidence.binding bindingOf
  have hip : (reconstructObs (e.row tenant)).ip = given e.obs.ip := entity_ip tenant e
  have hmac : (reconstructObs (e.row tenant)).mac = (given e.obs.mac).map String.toLower :=
    entity_mac tenant e
  have hsecs : (reconstructObs (e.row tenant)).leaseSecs = e.obs.leaseSecs := rfl
  rw [hip, hmac, hsecs, given_given, given_map_toLower, leaseExpiry_iso]
  cases given e.obs.mac with
  | none => rfl
  | some mac =>
    cases given e.obs.ip with
    | none => rfl
    | some ip =>
      simp only [Option.map_some, BindingObs.norm, BindingObs.lease, Option.map_map]
      congr 2
      cases leaseExpiry e.ts e.obs.leaseSecs with
      | none => rfl
      | some x => simp

/-- The row resolves to the same key. -/
theorem assetKey_row (bindings : Bindings) :
    assetKey (reconstructObs (e.row tenant)) bindings (iso e.ts).instant =
      assetKey e.obs bindings e.ts := by
  unfold assetKey
  have hip : (reconstructObs (e.row tenant)).ip = given e.obs.ip := entity_ip tenant e
  have hmac : (reconstructObs (e.row tenant)).mac = (given e.obs.mac).map String.toLower :=
    entity_mac tenant e
  rw [hip, hmac, given_given, given_map_toLower]
  cases given e.obs.mac with
  | some mac =>
    show macSubject mac.toLower.toLower = macSubject mac.toLower
    rw [Text.toLower_toLower]
  | none =>
    cases given e.obs.ip with
    | none => rfl
    | some ip =>
      have hres : resolveMac bindings ip (iso e.ts).instant = resolveMac bindings ip e.ts :=
        ownerAt_iso _ _
      simp only [Option.map_none, hres]

theorem keyed_row (bindings : Bindings) : (e.row tenant).evidence.keyed bindings =
    e.keyed bindings := by
  unfold Evidence.keyed
  rw [cands_row]
  congr 1
  funext c
  exact congrArg (·, c) (assetKey_row tenant e bindings)

end Row

/-! ### The records of a run -/

/-- The record that a call observes. -/
def Input.record? : Input → Option BusRecord
  | .observe r => some r
  | .flush _ _ => none

/-- The records of a run, in the order of their arrival. -/
def records (is : List Input) : List BusRecord := is.filterMap Input.record?

/-- Their evidence. -/
def evidences (is : List Input) : List Evidence := (records is).flatMap BusRecord.evidence

/-- An observation id names one record. -/
def ConsistentIds (rs : List BusRecord) : Prop :=
  ∀ r ∈ rs, ∀ r' ∈ rs, r.obsId = r'.obsId → r = r'

theorem evidences_append_observe (is : List Input) (r : BusRecord) :
    evidences (is ++ [.observe r]) = evidences is ++ r.evidence := by
  simp [evidences, records, Input.record?]

theorem evidences_append_flush (is : List Input) (fault : Option Insert) (delay : Nat) :
    evidences (is ++ [.flush fault delay]) = evidences is := by
  simp [evidences, records, Input.record?]

theorem mem_evidence {r : BusRecord} {e : Evidence} :
    e ∈ r.evidence ↔ e.obs ∈ extractEvidence r.eve ∧ e.obsId = r.obsId ∧ e.ts = r.ts := by
  obtain ⟨obs, obsId, ts⟩ := e
  simp only [BusRecord.evidence, List.mem_map, Evidence.mk.injEq]
  constructor
  · rintro ⟨o, ho, rfl, rfl, rfl⟩
    exact ⟨ho, rfl, rfl⟩
  · rintro ⟨ho, rfl, rfl⟩
    exact ⟨obs, ho, rfl, rfl, rfl⟩

/-- A record has one observation, or none of its observations has a MAC. -/
theorem extractEvidence_single_or_no_mac (eve : Eve) :
    (∃ obs, extractEvidence eve = [obs]) ∨ ∀ obs ∈ extractEvidence eve, obs.mac = none := by
  cases eve with
  | flow s d =>
    right
    intro obs hobs
    simp only [extractEvidence, List.mem_filterMap, Option.map_eq_some_iff] at hobs
    obtain ⟨-, -, -, -, rfl⟩ := hobs
    rfl
  | arp s m =>
    simp only [extractEvidence]
    cases given s with
    | none => exact Or.inr (by simp)
    | some ip => exact Or.inl ⟨_, rfl⟩
  | dhcp a c m h l =>
    simp only [extractEvidence]
    cases given ((given a).or c) with
    | none => exact Or.inr (by simp)
    | some ip => exact Or.inl ⟨_, rfl⟩
  | tls s d j k su is f =>
    right
    intro obs hobs
    simp only [extractEvidence, List.mem_append, List.mem_ite_nil_right,
      List.mem_singleton] at hobs
    rcases hobs with ⟨-, rfl⟩ | ⟨-, rfl⟩ <;> rfl
  | http s d u h =>
    right
    intro obs hobs
    simp only [extractEvidence, List.mem_append, List.mem_ite_nil_right,
      List.mem_singleton] at hobs
    rcases hobs with ⟨-, rfl⟩ | ⟨-, rfl⟩ <;> rfl
  | other => exact Or.inr (by simp [extractEvidence])

/-- At most one observation of a record carries a MAC or a hostname. -/
theorem extractEvidence_identity {eve : Eve} {obs obs' : Obs} (h : obs ∈ extractEvidence eve)
    (h' : obs' ∈ extractEvidence eve) (hid : obs.mac ≠ none ∨ obs.hostname ≠ none)
    (hid' : obs'.mac ≠ none ∨ obs'.hostname ≠ none) : obs = obs' := by
  rcases extractEvidence_single_or_no_mac eve with ⟨o, ho⟩ | hmac
  · rw [ho, List.mem_singleton] at h h'
    rw [h, h']
  · have hhost := hid.resolve_left (not_not.mpr (hmac obs h))
    have hhost' := hid'.resolve_left (not_not.mpr (hmac obs' h'))
    cases eve with
    | flow s d =>
      simp only [extractEvidence, List.mem_filterMap, Option.map_eq_some_iff] at h
      obtain ⟨v, -, ip, -, rfl⟩ := h
      exact absurd rfl hhost
    | arp s m =>
      simp only [extractEvidence] at h
      cases hs : given s with
      | none => simp [hs] at h
      | some ip =>
        rw [hs, List.mem_singleton] at h
        rw [h] at hhost
        exact absurd rfl hhost
    | dhcp a c m hn l =>
      simp only [extractEvidence] at h h'
      cases hs : given ((given a).or c) with
      | none => simp [hs] at h
      | some ip =>
        rw [hs, List.mem_singleton] at h h'
        rw [h, h']
    | tls s d j k su is f =>
      simp only [extractEvidence, List.mem_append, List.mem_ite_nil_right,
        List.mem_singleton] at h
      rcases h with ⟨-, rfl⟩ | ⟨-, rfl⟩ <;> exact absurd rfl hhost
    | http s d u hn =>
      -- the client's observation has no hostname, so both are the server's
      simp only [extractEvidence, List.mem_append, List.mem_ite_nil_right,
        List.mem_singleton] at h h'
      rcases h with ⟨-, rfl⟩ | ⟨-, rfl⟩
      · exact absurd rfl hhost
      · rcases h' with ⟨-, rfl⟩ | ⟨-, rfl⟩
        · exact absurd rfl hhost'
        · rfl
    | other => simp [extractEvidence] at h

/-- A record with a binding has no other evidence. -/
theorem evidence_single_or_no_binding (r : BusRecord) :
    (∃ e, r.evidence = [e]) ∨ ∀ e ∈ r.evidence, e.binding = none := by
  rcases extractEvidence_single_or_no_mac r.eve with ⟨obs, hobs⟩ | hmac
  · exact Or.inl ⟨_, by rw [BusRecord.evidence, hobs]; rfl⟩
  · right
    intro e he
    unfold Evidence.binding bindingOf
    rw [hmac e.obs (mem_evidence.mp he).1]
    rfl

/-- Evidence that is persisted carries a MAC or a hostname. -/
theorem identity_of_persists {e : Evidence} (h : e.persists = true) :
    e.obs.mac ≠ none ∨ e.obs.hostname ≠ none := by
  by_contra hno
  rw [not_or, not_not, not_not] at hno
  have hcands : e.cands = [] := by
    unfold Evidence.cands deriveFacts
    rw [hno.1, hno.2]
    rfl
  have hbinding : e.binding = none := by
    unfold Evidence.binding bindingOf
    rw [hno.1]
    rfl
  simp [Evidence.persists, hcands, hbinding] at h

/-- Persisted evidence of one observation id is equal. -/
theorem persisted_eq {rs : List BusRecord} (hids : ConsistentIds rs) {e e' : Evidence}
    (he : e ∈ rs.flatMap BusRecord.evidence) (he' : e' ∈ rs.flatMap BusRecord.evidence)
    (hp : e.persists = true) (hp' : e'.persists = true) (hid : e.obsId = e'.obsId) : e = e' := by
  obtain ⟨r, hr, her⟩ := List.mem_flatMap.mp he
  obtain ⟨r', hr', her'⟩ := List.mem_flatMap.mp he'
  obtain ⟨hobs, hoid, hts⟩ := mem_evidence.mp her
  obtain ⟨hobs', hoid', hts'⟩ := mem_evidence.mp her'
  obtain rfl := hids r hr r' hr' (hoid.symm.trans (hid.trans hoid'))
  have heq := extractEvidence_identity hobs hobs' (identity_of_persists hp)
    (identity_of_persists hp')
  obtain ⟨obs, obsId, ts⟩ := e
  obtain ⟨obs', obsId', ts'⟩ := e'
  simp only at heq hid hts hts'
  rw [heq, hid, hts, hts']

end AssetService
