import CernityNdr.Framework.IpNetwork
import CernityNdr.Intel.Dimensions
import CernityNdr.Intel.Effective

/-! # Live Matching

    The model of `match` of `threat-intel/ti.py` and of `networks` of
    `threat-intel/store.py`: an event is looked up in the store of a tenant,
    dimension by dimension.

    * `liveMatch_spec`: the indicators of the hits are those of the candidates
      of the dimensions. -/

namespace ThreatIntel

open Json

/-- `address in network`, where both texts parse. -/
def inNetworkText (network value : String) : Bool :=
  match IpAddress.ofText value.toList, IpAddress.networkOf network.toList with
  | some a, some net => net.contains a
  | _, _ => false

/-- The addresses and networks of `ipaddress`. -/
def Library.withAddresses (lib : Library) : Library :=
  { lib with
    compressed := fun v => (IpAddress.ofText v.toList).map fun a => String.ofList a.text
    isNetwork := fun v => (IpAddress.networkOf v.toList).isSome
    inNetwork := inNetworkText }

/-! ### Lookup -/

/-- The records of a tenant. -/
def IntelStore.recordsOf (s : IntelStore) (tenant : String) : List IntelRecord :=
  s.view.indicators.vals.filter fun r => r.tenant = tenant

/-- `networks`. -/
def IntelStore.networks (s : IntelStore) (tenant : String) : List IntelRecord :=
  s.view.indicators.vals.filter fun r => r.tenant = tenant && r.itype = .ip && r.indicator.toList.contains '/'

/-- A live hit: the record, and the labels that it is given. -/
structure LiveHit where
  record : IntelRecord
  suppressed : Bool
  observedField : String
  observedValue : String

def IntelRecord.pair (r : IntelRecord) : IndicatorType × String := (r.itype, r.indicator)

def LiveHit.pair (h : LiveHit) : IndicatorType × String := h.record.pair

/-- What is not looked at twice: a hash anywhere, another indicator in a field. -/
abbrev SeenKey := IndicatorType × String × Option (String × String)

def seenKey (d : Dimension) (normalized : String) (record : IntelRecord) : SeenKey :=
  (d.kind, record.indicator, if d.kind = .hash then none else some (d.field, normalized))

/-- The variables of `match`: `seen` and `matches`. -/
structure MatchState where
  seen : List SeenKey
  hits : List LiveHit

/-- The event belongs to the tenant, as far as it says. -/
def ofTenant (eve : Dict) (tenant : String) : Bool :=
  tenant ≠ "" && ["tenant_id", "tenant"].all fun key =>
    (eve.get key).beq .null || (eve.get key).beq (.str tenant)

variable (lib : Library) (epoch : String → Except Failure ℚ) (store : IntelStore)
  (tenant : String) (now : ℚ)

/-- The records that a normalized value finds. -/
def candidates (kind : IndicatorType) (normalized : String) : List IntelRecord :=
  (store.get (tenant, kind, normalized)).toList ++
    if kind = .ip then
      (store.networks tenant).filter fun r => lib.inNetwork r.indicator normalized
    else []

/-- One candidate of a dimension. -/
def considerRecord (d : Dimension) (normalized : String) (st : MatchState) (record : IntelRecord) :
    Except Failure MatchState :=
  let key := seenKey d normalized record
  if key ∈ st.seen then .ok st
  else do
    let seen := key :: st.seen
    let record ← derive epoch record now
    if !(← isActive epoch record now) then return { st with seen := seen }
    else
      let suppressed := store.isSuppressed (tenant, d.kind, record.indicator) now
      return ⟨seen, st.hits ++ [⟨record, suppressed, d.field, d.value⟩]⟩

/-- One dimension. -/
def matchDimension (st : MatchState) (d : Dimension) : Except Failure MatchState :=
  match normIndicator lib d.kind d.value with
  | none => .ok st
  | some normalized =>
    (candidates lib store tenant d.kind normalized).foldlM
      (considerRecord epoch store tenant now d normalized) st

/-- `match`; `none` where it raises. -/
def liveMatch (eve : Dict) : Option (List LiveHit) :=
  if !ofTenant eve tenant then some []
  else (dimensions lib eve).bind fun dims =>
    (dims.foldlM (matchDimension lib epoch store tenant now) ⟨[], []⟩).toOption.map MatchState.hits

/-! ### What is found -/

variable {lib epoch store tenant now}

/-- The record is active now. -/
def IntelRecord.Live (epoch : String → Except Failure ℚ) (now : ℚ) (record : IntelRecord) : Prop :=
  ∃ r, derive epoch record now = .ok r ∧ isActive epoch r now = .ok true

/-- The hits are of these indicators, and of every indicator that was seen. -/
structure MatchState.Shows (st : MatchState) (pairs : List (IndicatorType × String)) : Prop where
  hits : ∀ p, p ∈ st.hits.map LiveHit.pair ↔ p ∈ pairs
  seen : ∀ key ∈ st.seen, (key.1, key.2.1) ∈ pairs

theorem mem_candidates {kind : IndicatorType} {normalized : String} {r : IntelRecord} :
    r ∈ candidates lib store tenant kind normalized ↔ r ∈ store.recordsOf tenant ∧ r.itype = kind ∧
      (r.indicator = normalized ∨ kind = .ip ∧ '/' ∈ r.indicator.toList ∧
        lib.inNetwork r.indicator normalized = true) := by
  have hget : r ∈ (store.get (tenant, kind, normalized)).toList ↔
      r ∈ store.recordsOf tenant ∧ r.itype = kind ∧ r.indicator = normalized := by
    rw [Option.mem_toList, IntelStore.get, Registry.get?_eq_some]
    simp [IntelStore.recordsOf, IntelRecord.key, and_assoc]
  rw [candidates, List.mem_append, hget]
  by_cases hkind : kind = .ip
  · subst hkind
    simp only [if_true, List.mem_filter, IntelStore.networks, IntelStore.recordsOf, Bool.and_eq_true,
      decide_eq_true_eq, List.contains_iff_mem, true_and]
    tauto
  · simp [hkind]

theorem considerRecord_spec {d : Dimension} (normalized : String) {st : MatchState}
    {record : IntelRecord} {pairs : List (IndicatorType × String)} (hst : st.Shows pairs)
    (hkind : record.itype = d.kind) (hlive : record.Live epoch now) :
    ∃ st', considerRecord epoch store tenant now d normalized st record = .ok st' ∧
      st'.Shows (pairs ++ [record.pair]) := by
  unfold considerRecord
  dsimp only
  split
  · next hseen =>
    refine ⟨st, rfl, ?_, fun key hkey => List.mem_append_left _ (hst.seen key hkey)⟩
    -- what was seen is among the hits
    have hold : record.pair ∈ pairs := by
      have hpair := hst.seen _ hseen
      rwa [seenKey, ← hkind] at hpair
    intro p
    rw [hst.hits, List.mem_append, List.mem_singleton]
    exact ⟨Or.inl, fun hp => hp.elim id fun heq => heq ▸ hold⟩
  · obtain ⟨r, hderive, hactive⟩ := hlive
    have hkey := derive_key hderive
    have hpair : r.pair = record.pair := by
      simp only [IntelRecord.key, Prod.mk.injEq] at hkey
      rw [IntelRecord.pair, IntelRecord.pair, hkey.2.1, hkey.2.2]
    refine ⟨⟨seenKey d normalized record :: st.seen, st.hits ++
      [⟨r, store.isSuppressed (tenant, d.kind, r.indicator) now, d.field, d.value⟩]⟩, ?_, ?_, ?_⟩
    · exact Except.bind_eq_ok.mpr ⟨r, hderive, Except.bind_eq_ok.mpr ⟨true, hactive, rfl⟩⟩
    · intro p
      simp [hst.hits, LiveHit.pair, hpair]
    · intro key hkey
      rcases List.mem_cons.mp hkey with rfl | hkey
      · rw [seenKey, ← hkind]
        exact List.mem_append_right _ (List.mem_singleton_self _)
      · exact List.mem_append_left _ (hst.seen key hkey)

/-- The candidates of one dimension. -/
theorem considerRecords_spec {d : Dimension} {normalized : String} {records : List IntelRecord}
    (hkind : ∀ r ∈ records, r.itype = d.kind) (hlive : ∀ r ∈ records, r.Live epoch now)
    {st : MatchState} {pairs : List (IndicatorType × String)} (hst : st.Shows pairs) :
    ∃ st', records.foldlM (considerRecord epoch store tenant now d normalized) st = .ok st' ∧
      st'.Shows (pairs ++ records.map IntelRecord.pair) := by
  induction records generalizing st pairs with
  | nil => exact ⟨st, rfl, by rwa [List.map_nil, List.append_nil]⟩
  | cons record records ih =>
    obtain ⟨st', hstep, hst'⟩ := considerRecord_spec normalized hst
      (hkind record List.mem_cons_self) (hlive record List.mem_cons_self)
    obtain ⟨st'', hrun, hst''⟩ := ih (fun r hr => hkind r (List.mem_cons_of_mem _ hr))
      (fun r hr => hlive r (List.mem_cons_of_mem _ hr)) hst'
    refine ⟨st'', ?_, ?_⟩
    · rw [List.foldlM_cons, hstep]
      exact hrun
    · rwa [List.map_cons, List.append_cons]

variable (lib store tenant) in
/-- The indicators that a dimension finds. -/
def found (d : Dimension) : List (IndicatorType × String) :=
  match normIndicator lib d.kind d.value with
  | none => []
  | some normalized => (candidates lib store tenant d.kind normalized).map IntelRecord.pair

variable (lib) in
theorem matchDimension_spec (hlive : ∀ r ∈ store.recordsOf tenant, r.Live epoch now)
    (d : Dimension) {st : MatchState} {pairs : List (IndicatorType × String)} (hst : st.Shows pairs) :
    ∃ st', matchDimension lib epoch store tenant now st d = .ok st' ∧
      st'.Shows (pairs ++ found lib store tenant d) := by
  unfold matchDimension found
  cases normIndicator lib d.kind d.value with
  | none => exact ⟨st, rfl, by rwa [List.append_nil]⟩
  | some normalized =>
    exact considerRecords_spec (fun r hr => (mem_candidates.mp hr).2.1)
      (fun r hr => hlive r (mem_candidates.mp hr).1) hst

/-- **The indicators of the hits** are those that the dimensions find. -/
theorem liveMatch_spec (hlive : ∀ r ∈ store.recordsOf tenant, r.Live epoch now) {eve : Dict}
    {dims : List Dimension} (hown : ofTenant eve tenant = true)
    (hdims : dimensions lib eve = some dims) :
    ∃ hits, liveMatch lib epoch store tenant now eve = some hits ∧
      ∀ p, p ∈ hits.map LiveHit.pair ↔ ∃ d ∈ dims, p ∈ found lib store tenant d := by
  have hrun : ∀ {dims : List Dimension} {st : MatchState} {pairs : List (IndicatorType × String)},
      st.Shows pairs → ∃ st', dims.foldlM (matchDimension lib epoch store tenant now) st = .ok st' ∧
        st'.Shows (pairs ++ dims.flatMap (found lib store tenant)) := by
    intro dims
    induction dims with
    | nil => exact fun {st _} hst => ⟨st, rfl, by rwa [List.flatMap_nil, List.append_nil]⟩
    | cons d dims ih =>
      intro st pairs hst
      obtain ⟨st', hstep, hst'⟩ := matchDimension_spec lib hlive d hst
      obtain ⟨st'', hrun, hst''⟩ := ih hst'
      refine ⟨st'', ?_, ?_⟩
      · rw [List.foldlM_cons, hstep]
        exact hrun
      · rwa [List.flatMap_cons, ← List.append_assoc]
  obtain ⟨st, hst, hshows⟩ := @hrun dims ⟨[], []⟩ [] ⟨fun p => Iff.rfl, by simp⟩
  refine ⟨st.hits, ?_, ?_⟩
  · rw [liveMatch, hown, hdims, Option.bind_some, hst]
    rfl
  · intro p
    rw [hshows.hits, List.nil_append, List.mem_flatMap]

end ThreatIntel
