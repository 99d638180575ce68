import CernityNdr.Asset.Ownership

/-! # Ownership Does Not Depend on the Order of Arrival

    Bindings arrive late, reversed and more than once. What is recorded for
    an address is the set of its leases; the winner of each start, the lease
    ends, the boundaries and the coalesced intervals are functions of that
    set. Only the order of the dictionaries and of the lists follows the
    arrival, and `rebuild_ip_ownership` sorts each list by the starts. -/

namespace AssetService

open Plot

/-! ### Folding a sequence of binding observations -/

/-- What `record_binding` is called with. -/
structure BindingObs where
  ip : String
  mac : String
  validFrom : Instant
  expires : Option Instant
  obsId : String
  src : String
  deriving DecidableEq

/-- The record it stores. -/
def BindingObs.lease (o : BindingObs) : Lease :=
  ⟨o.mac.toLower, iso o.validFrom, o.expires.map iso, o.obsId, o.src⟩

/-- Fold one observation. -/
def Bindings.record (bindings : Bindings) (o : BindingObs) : Bindings :=
  recordBinding bindings o.ip o.mac o.validFrom o.expires o.obsId o.src

/-- Fold a sequence, first observation first. -/
def recordAll (os : List BindingObs) : Bindings := os.foldl Bindings.record .empty

/-- The triple a record is found under: MAC, start and observation. -/
def Lease.key (c : Lease) : String × Iso × String := (c.mac, c.validFrom, c.obsId)

/-- Observations of one address whose records have one key have one record. -/
def KeyedConsistently (os : List BindingObs) : Prop :=
  ∀ a ∈ os, ∀ b ∈ os, a.ip = b.ip → a.lease.key = b.lease.key → a.lease = b.lease

/-- The same members, whatever the order and the repetitions. -/
def SameMembers {α : Type*} (l₁ l₂ : List α) : Prop := ∀ a, a ∈ l₁ ↔ a ∈ l₂

/-! ### What is recorded for an address -/

theorem leases_record (bindings : Bindings) (o : BindingObs) (ip : String) :
    (bindings.record o).leases ip =
      if o.ip = ip then
        (if (bindings.leases ip).any (fun x => x.key = o.lease.key) then bindings.leases ip
          else bindings.leases ip ++ [o.lease])
      else bindings.leases ip := by
  have hput : ∀ l : List Lease, Bindings.leases (bindings.put (o.ip, l)) ip =
      if o.ip = ip then l else bindings.leases ip := by
    intro l
    unfold Bindings.leases
    rw [Registry.get?_put]
    split <;> rfl
  unfold Bindings.record recordBinding
  by_cases hip : o.ip = ip
  · subst hip
    simp only [if_true]
    split
    · next h => rw [hput, if_pos rfl, if_pos (by simpa [Lease.key, BindingObs.lease] using h)]
    · next h => rw [hput, if_pos rfl, if_neg (by simpa [Lease.key, BindingObs.lease] using h)]; rfl
  · simp only [if_neg hip]
    split <;> rw [hput, if_neg hip]

/-- The leases of an address are the records of its observations. -/
theorem mem_leases_recordAll {os : List BindingObs} (hkey : KeyedConsistently os) {ip : String}
    {c : Lease} : c ∈ (recordAll os).leases ip ↔ ∃ o ∈ os, o.ip = ip ∧ o.lease = c := by
  induction os using List.reverseRecOn generalizing c with
  | nil => simp [recordAll, Bindings.leases]
  | append_singleton os o ih =>
    have hkey' : KeyedConsistently os := fun a ha b hb =>
      hkey a (by simp [ha]) b (by simp [hb])
    have hstep : (recordAll (os ++ [o])).leases ip = ((recordAll os).record o).leases ip := by
      simp [recordAll]
    rw [hstep, leases_record]
    by_cases hip : o.ip = ip
    · rw [if_pos hip]
      split
      · next hdup =>
        -- the record is there already, under the key of an equal record
        rw [ih hkey']
        constructor
        · rintro ⟨a, ha, haip, rfl⟩
          exact ⟨a, by simp [ha], haip, rfl⟩
        · rintro ⟨a, ha, haip, rfl⟩
          rcases List.mem_append.mp ha with ha | ha
          · exact ⟨a, ha, haip, rfl⟩
          · obtain rfl := List.mem_singleton.mp ha
            simp only [List.any_eq_true, decide_eq_true_eq] at hdup
            obtain ⟨x, hx, hxkey⟩ := hdup
            obtain ⟨b, hb, hbip, rfl⟩ := (ih hkey').mp hx
            exact ⟨b, hb, hbip, hkey b (by simp [hb]) a (by simp) (hbip.trans haip.symm) hxkey⟩
      · rw [List.mem_append, ih hkey', List.mem_singleton]
        constructor
        · rintro (⟨a, ha, haip, rfl⟩ | rfl)
          · exact ⟨a, by simp [ha], haip, rfl⟩
          · exact ⟨o, by simp, hip, rfl⟩
        · rintro ⟨a, ha, haip, rfl⟩
          rcases List.mem_append.mp ha with ha | ha
          · exact Or.inl ⟨a, ha, haip, rfl⟩
          · rw [List.mem_singleton.mp ha]
            exact Or.inr rfl
    · rw [if_neg hip, ih hkey']
      constructor
      · rintro ⟨a, ha, haip, rfl⟩
        exact ⟨a, by simp [ha], haip, rfl⟩
      · rintro ⟨a, ha, haip, rfl⟩
        rcases List.mem_append.mp ha with ha | ha
        · exact ⟨a, ha, haip, rfl⟩
        · rw [List.mem_singleton.mp ha] at haip
          exact absurd haip hip

/-- Of two observations with one key the first is kept. -/
theorem leases_recordAll_pair {a b : BindingObs} (hip : b.ip = a.ip)
    (hkey : a.lease.key = b.lease.key) : (recordAll [a, b]).leases a.ip = [a.lease] := by
  show (Bindings.record (Bindings.record .empty a) b).leases a.ip = [a.lease]
  have hfirst : (Bindings.record .empty a).leases a.ip = [a.lease] := by
    rw [leases_record, if_pos rfl]
    rfl
  rw [leases_record, if_pos hip, hfirst]
  simp [hkey]

/-! ### What is derived from the set of leases -/

/-- Leases of one key are equal. -/
def KeySeparates (leases : List Lease) : Prop :=
  ∀ c ∈ leases, ∀ d ∈ leases, c.key = d.key → c = d

theorem keySeparates_recordAll {os : List BindingObs} (hkey : KeyedConsistently os)
    (ip : String) : KeySeparates ((recordAll os).leases ip) := by
  intro c hc d hd heq
  obtain ⟨a, ha, haip, rfl⟩ := (mem_leases_recordAll hkey).mp hc
  obtain ⟨b, hb, hbip, rfl⟩ := (mem_leases_recordAll hkey).mp hd
  exact hkey a ha b hb (haip.trans hbip.symm) heq

/-- The lease id tells leases of one start apart. -/
theorem leaseId_separates {leases : List Lease} (hsep : KeySeparates leases) :
    Registry.RankSeparates Lease.start leaseId leases := by
  intro c hc d hd hstart hid
  have hpair : (c.obsId, c.mac) = (d.obsId, d.mac) := toLex.injective hid
  have hfrom : c.validFrom = d.validFrom := by
    rw [← iso_instant c.validFrom, ← iso_instant d.validFrom]
    exact congrArg iso hstart
  simp only [Prod.mk.injEq] at hpair
  exact hsep c hc d hd (by simp [Lease.key, hpair, hfrom])

section SameLeases

variable {l₁ l₂ : List Lease} (hmem : SameMembers l₁ l₂) (hsep : KeySeparates l₁)

include hmem hsep

theorem winningByStart_congr (s : Instant) :
    (winningByStart l₁).get? s = (winningByStart l₂).get? s := by
  rw [winningByStart_eq_leasts, winningByStart_eq_leasts]
  exact Registry.get?_leasts_congr hmem (leaseId_separates hsep) s

theorem winners_congr : winners l₁ = winners l₂ :=
  Registry.sort_vals_congr Function.injective_id (winningByStart_congr hmem hsep)

theorem ownerAt_congr (t : Instant) : ownerAt l₁ t = ownerAt l₂ t := by
  unfold ownerAt
  rw [winners_congr hmem hsep]

theorem bounds_congr : bounds l₁ = bounds l₂ := by
  refine (bounds_sorted l₁).eq_of_mem_iff (bounds_sorted l₂) ?_
  intro b
  rw [mem_bounds, mem_bounds, winners_congr hmem hsep]
  have hexp : (∃ c ∈ l₁, ∃ x ∈ c.expires, x.instant = b) ↔
      (∃ c ∈ l₂, ∃ x ∈ c.expires, x.instant = b) :=
    exists_congr fun c => and_congr (hmem c) Iff.rfl
  rw [hexp]

theorem intervalLoop_congr (ip : String) (intervals : List Interval) (bs : List Instant) :
    intervalLoop ip l₁ (winningByStart l₁) intervals bs =
      intervalLoop ip l₂ (winningByStart l₂) intervals bs := by
  induction bs generalizing intervals with
  | nil => rfl
  | cons b bs ih =>
    unfold intervalLoop
    rw [ownerAt_congr hmem hsep, winningByStart_congr hmem hsep]
    split
    · exact ih _
    · split
      · exact ih _
      · split
        · rfl
        · exact ih _

/-- The intervals of an address are a function of the set of its leases. -/
theorem ownershipIntervals_congr (ip : String) :
    ownershipIntervals ip l₁ = ownershipIntervals ip l₂ := by
  unfold ownershipIntervals
  rw [bounds_congr hmem hsep]
  exact intervalLoop_congr hmem hsep ip [] _

end SameLeases

/-! ### What `rebuild_ip_ownership` returns -/

/-- The intervals of an address; `ownership_intervals` does not fail. -/
def intervalsOf (ip : String) (leases : List Lease) : List Interval :=
  (ownershipIntervals ip leases).toOption.getD []

theorem ownershipIntervals_eq (ip : String) (leases : List Lease) :
    ownershipIntervals ip leases = .ok (intervalsOf ip leases) := by
  obtain ⟨intervals, hok, -⟩ := intervalLoop_spec ip leases
    (fun b hb => iso_instant_of_mem_bounds hb) (ownerAt_changesOnlyAt leases)
    (ownerAt_opensOnlyAt leases) [] (PlotUpTo.empty fun t => ownerAt_before leases)
  have hok' : ownershipIntervals ip leases = .ok intervals := hok
  simp [intervalsOf, hok', Except.toOption]

/-- The intervals of all addresses, in the order of the dictionary. -/
def allIntervals (bindings : Bindings) : List Interval :=
  bindings.vals.flatMap (fun entry => intervalsOf entry.1 entry.2)

/-- Every lease of every address. -/
def claims (bindings : Bindings) : List Lease := bindings.vals.flatMap Prod.snd

/-- The dictionary that `rebuild_ip_ownership` returns; it does not fail. -/
def rebuilt (bindings : Bindings) : Owned :=
  ((allIntervals bindings).foldl Owned.add (Owned.claimed (claims bindings))).mapSnd sortByStart

theorem rebuildIpOwnership_eq (bindings : Bindings) :
    rebuildIpOwnership bindings = .ok (rebuilt bindings) := by
  have hloop : ∀ (entries : List (String × List Lease)) (owned : Owned),
      entries.foldlM (m := Except KeyError) (fun (owned : Owned) entry => do
        let intervals ← ownershipIntervals entry.1 entry.2
        pure (intervals.foldl Owned.add owned)) owned =
      .ok ((entries.flatMap (fun entry => intervalsOf entry.1 entry.2)).foldl Owned.add owned) := by
    intro entries
    induction entries with
    | nil => intro owned; rfl
    | cons entry entries ih =>
      intro owned
      rw [List.foldlM_cons, ownershipIntervals_eq, List.flatMap_cons, List.foldl_append]
      exact ih _
  unfold rebuildIpOwnership
  rw [hloop]
  rfl

theorem lookup_claimed (leases : List Lease) (subject : String) :
    (Owned.claimed leases).lookup subject =
      if ∃ c ∈ leases, macSubject c.mac = subject then some [] else none := by
  induction leases using List.reverseRecOn with
  | nil => simp [Owned.claimed]
  | append_singleton leases c ih =>
    have hstep : Owned.claimed (leases ++ [c]) =
        (Owned.claimed leases).put (macSubject c.mac, []) := by simp [Owned.claimed]
    rw [hstep, Registry.lookup_put, ih]
    by_cases hc : macSubject c.mac = subject
    · rw [if_pos hc, if_pos ⟨c, by simp, hc⟩]
    · rw [if_neg hc]
      refine if_congr ?_ rfl rfl
      simp [or_and_right, exists_or, hc]

/-- The intervals of one subject, in the order they come. -/
def ofSubject (subject : String) (ivs : List Interval) : List FactInterval :=
  (ivs.filter (fun iv => macSubject iv.mac = subject)).map Interval.fact

theorem lookup_foldl_add (owned : Owned) (ivs : List Interval) (subject : String) :
    (ivs.foldl Owned.add owned).lookup subject =
      if (owned.lookup subject).isSome ∨ ∃ iv ∈ ivs, macSubject iv.mac = subject then
        some ((owned.lookup subject).getD [] ++ ofSubject subject ivs)
      else none := by
  induction ivs using List.reverseRecOn with
  | nil => cases h : owned.lookup subject <;> simp [ofSubject, h]
  | append_singleton ivs iv ih =>
    rw [List.foldl_append, List.foldl_cons, List.foldl_nil]
    show ((ivs.foldl Owned.add owned).put _).lookup subject = _
    rw [Registry.lookup_put]
    by_cases hiv : macSubject iv.mac = subject
    · subst hiv
      rw [if_pos rfl, if_pos (Or.inr ⟨iv, by simp, rfl⟩), ih]
      split
      · simp [ofSubject]
      · next hnone =>
        have hno : ofSubject (macSubject iv.mac) ivs = [] := by
          simp only [ofSubject, List.map_eq_nil_iff, List.filter_eq_nil_iff, decide_eq_true_eq]
          exact fun x hx hx' => hnone (Or.inr ⟨x, hx, hx'⟩)
        have hlook : owned.lookup (macSubject iv.mac) = none := by
          by_contra hsome
          exact hnone (Or.inl (Option.isSome_iff_ne_none.mpr hsome))
        have hlast : ofSubject (macSubject iv.mac) (ivs ++ [iv]) = [iv.fact] := by
          simp only [ofSubject, List.filter_append, List.map_append] at hno ⊢
          rw [hno]
          simp
        rw [hlook, hlast]
    · rw [if_neg hiv, ih]
      have hsame : ofSubject subject (ivs ++ [iv]) = ofSubject subject ivs := by
        simp [ofSubject, hiv]
      rw [hsame]
      refine if_congr (or_congr Iff.rfl ?_) rfl rfl
      simp [or_and_right, exists_or, hiv]

/-- An owner holds one of the leases. -/
theorem exists_lease_of_ownerAt {leases : List Lease} {t : Instant} {mac : String}
    (h : ownerAt leases t = some mac) : ∃ c ∈ leases, c.mac = mac := by
  have hscan : ∀ ws : List Lease, ownerScan t ws = some mac → ∃ c ∈ ws, c.mac = mac := by
    intro ws
    induction ws with
    | nil => intro hnone; cases hnone
    | cons c ws ih =>
      intro hscan
      rw [ownerScan_cons] at hscan
      split at hscan
      · exact ⟨c, by simp, Option.some.inj hscan⟩
      · obtain ⟨d, hd, hdm⟩ := ih hscan
        exact ⟨d, by simp [hd], hdm⟩
  obtain ⟨c, hc, hcm⟩ := hscan _ h
  exact ⟨c, mem_of_mem_winningByStart (mem_winners.mp hc), hcm⟩

theorem exists_lease_of_mem_intervalsOf {ip : String} {leases : List Lease} {iv : Interval}
    (h : iv ∈ intervalsOf ip leases) : ∃ c ∈ leases, c.mac = iv.mac := by
  obtain ⟨intervals, hok, -, -, hcovers, -, hexact⟩ := ownership_intervals_exact ip leases
  rw [ownershipIntervals_eq] at hok
  obtain rfl := Except.ok.inj hok
  exact exists_lease_of_ownerAt ((hexact _ _).mpr ⟨iv, h, rfl, hcovers iv h⟩)

/-- A subject is listed when it has claimed an address; its list holds the
    intervals it owns, sorted. -/
theorem lookup_rebuilt (bindings : Bindings) (subject : String) :
    (rebuilt bindings).lookup subject =
      if ∃ c ∈ claims bindings, macSubject c.mac = subject then
        some (sortByStart (ofSubject subject (allIntervals bindings)))
      else none := by
  have howner : (∃ iv ∈ allIntervals bindings, macSubject iv.mac = subject) →
      ∃ c ∈ claims bindings, macSubject c.mac = subject := by
    rintro ⟨iv, hiv, rfl⟩
    obtain ⟨entry, hentry, hiv⟩ := List.mem_flatMap.mp hiv
    obtain ⟨c, hc, hcm⟩ := exists_lease_of_mem_intervalsOf hiv
    exact ⟨c, List.mem_flatMap.mpr ⟨entry, hentry, hc⟩, by rw [hcm]⟩
  unfold rebuilt
  rw [Registry.lookup_mapSnd, lookup_foldl_add, lookup_claimed]
  by_cases hclaim : ∃ c ∈ claims bindings, macSubject c.mac = subject
  · have hsome : (some ([] : List FactInterval)).isSome = true ∨
        ∃ iv ∈ allIntervals bindings, macSubject iv.mac = subject := Or.inl rfl
    rw [if_pos hclaim, if_pos hsome, if_pos hclaim]
    rfl
  · have hnone : ¬ ∃ iv ∈ allIntervals bindings, macSubject iv.mac = subject :=
      fun h => hclaim (howner h)
    rw [if_neg hclaim, if_neg (by simp [hnone]), if_neg hclaim]
    rfl

/-! ### The dictionary of addresses -/

theorem mem_keys_recordAll {os : List BindingObs} {ip : String} :
    ip ∈ (recordAll os).keys ↔ ∃ o ∈ os, o.ip = ip := by
  rw [Registry.mem_keys]
  induction os using List.reverseRecOn with
  | nil => simp [recordAll]
  | append_singleton os o ih =>
    have hstep : recordAll (os ++ [o]) = (recordAll os).record o := by simp [recordAll]
    have hput : ∃ l, recordAll (os ++ [o]) = (recordAll os).put (o.ip, l) := by
      rw [hstep]
      unfold Bindings.record recordBinding
      dsimp only
      split
      · exact ⟨_, rfl⟩
      · exact ⟨_, rfl⟩
    obtain ⟨l, hl⟩ := hput
    rw [hl]
    by_cases hip : o.ip = ip
    · subst hip
      constructor
      · exact fun _ => ⟨o, by simp, rfl⟩
      · exact fun _ => ⟨(o.ip, l), Registry.get?_put_self _ _⟩
    · have hget : Registry.get? ((recordAll os).put (o.ip, l)) ip = (recordAll os).get? ip :=
        Registry.get?_put_ne _ hip
      rw [hget, ih]
      constructor
      · rintro ⟨a, ha, haip⟩
        exact ⟨a, by simp [ha], haip⟩
      · rintro ⟨a, ha, haip⟩
        rcases List.mem_append.mp ha with ha | ha
        · exact ⟨a, ha, haip⟩
        · rw [List.mem_singleton.mp ha] at haip
          exact absurd haip hip

/-- Each entry holds the leases of its address. -/
theorem leases_of_mem_vals {bindings : Bindings} {entry : String × List Lease}
    (h : entry ∈ bindings.vals) : bindings.leases entry.1 = entry.2 := by
  have hlook : bindings.lookup entry.1 = some entry.2 := Registry.lookup_eq_some.mpr h
  show (bindings.lookup entry.1).getD [] = entry.2
  rw [hlook]
  rfl

theorem flatMap_vals_eq {α : Type*} (bindings : Bindings) (f : String → List Lease → List α) :
    bindings.vals.flatMap (fun entry => f entry.1 entry.2) =
      bindings.keys.flatMap (fun ip => f ip (bindings.leases ip)) := by
  unfold Registry.keys
  rw [List.flatMap_map]
  refine List.flatMap_congr ?_
  intro entry hentry
  rw [leases_of_mem_vals hentry]

theorem mem_claims {bindings : Bindings} {c : Lease} :
    c ∈ claims bindings ↔ ∃ ip, c ∈ bindings.leases ip := by
  unfold claims
  rw [flatMap_vals_eq bindings (fun _ leases => leases), List.mem_flatMap]
  constructor
  · rintro ⟨ip, -, hc⟩
    exact ⟨ip, hc⟩
  · rintro ⟨ip, hc⟩
    refine ⟨ip, ?_, hc⟩
    by_contra hno
    have hnone : bindings.get? ip = none := by
      cases hget : bindings.get? ip with
      | none => rfl
      | some e => exact absurd (Registry.mem_keys.mpr ⟨e, hget⟩) hno
    simp [Bindings.leases, hnone] at hc

/-- A recorded lease stays. -/
theorem mem_claims_record {bindings : Bindings} {c : Lease} (h : c ∈ claims bindings)
    (o : BindingObs) : c ∈ claims (bindings.record o) := by
  obtain ⟨ip, hc⟩ := mem_claims.mp h
  refine mem_claims.mpr ⟨ip, ?_⟩
  rw [leases_record]
  split
  · split
    · exact hc
    · exact List.mem_append_left _ hc
  · exact hc

/-! ### Order independence -/

/-- The same subjects with the same intervals, up to the order of intervals
    that start together. -/
def Owned.Same (a b : Owned) : Prop :=
  ∀ subject, Option.Rel (fun x y => x.Perm y ∧
    x.Pairwise (fun i j => i.validFrom.instant ≤ j.validFrom.instant) ∧
    y.Pairwise (fun i j => i.validFrom.instant ≤ j.validFrom.instant))
    (a.lookup subject) (b.lookup subject)

theorem sortByStart_sorted (ivs : List FactInterval) :
    (sortByStart ivs).Pairwise (fun i j => i.validFrom.instant ≤ j.validFrom.instant) := by
  have : Std.Total (fun i j : FactInterval => i.validFrom.instant ≤ j.validFrom.instant) :=
    ⟨fun a b => le_total _ _⟩
  have : IsTrans FactInterval (fun i j => i.validFrom.instant ≤ j.validFrom.instant) :=
    ⟨fun a b c => le_trans⟩
  exact List.pairwise_insertionSort _ _

section SameObservations

variable {os₁ os₂ : List BindingObs} (hmem : SameMembers os₁ os₂) (hkey : KeyedConsistently os₁)

include hmem hkey

theorem sameMembers_leases (ip : String) :
    SameMembers ((recordAll os₁).leases ip) ((recordAll os₂).leases ip) := by
  have hkey₂ : KeyedConsistently os₂ := fun a ha b hb =>
    hkey a ((hmem a).mpr ha) b ((hmem b).mpr hb)
  intro c
  rw [mem_leases_recordAll hkey, mem_leases_recordAll hkey₂]
  exact exists_congr fun o => and_congr (hmem o) Iff.rfl

theorem resolveMac_congr (ip : String) (t : Instant) :
    resolveMac (recordAll os₁) ip t = resolveMac (recordAll os₂) ip t :=
  ownerAt_congr (sameMembers_leases hmem hkey ip) (keySeparates_recordAll hkey ip) t

theorem allIntervals_perm :
    (allIntervals (recordAll os₁)).Perm (allIntervals (recordAll os₂)) := by
  unfold allIntervals
  rw [flatMap_vals_eq, flatMap_vals_eq]
  have hip : ∀ ip, intervalsOf ip ((recordAll os₁).leases ip) =
      intervalsOf ip ((recordAll os₂).leases ip) := by
    intro ip
    unfold intervalsOf
    rw [ownershipIntervals_congr (sameMembers_leases hmem hkey ip)
      (keySeparates_recordAll hkey ip)]
  simp only [hip]
  have hkeys : (recordAll os₁).keys.Perm (recordAll os₂).keys := by
    refine (List.perm_ext_iff_of_nodup (recordAll os₁).nodup (recordAll os₂).nodup).mpr ?_
    intro ip
    show ip ∈ (recordAll os₁).keys ↔ ip ∈ (recordAll os₂).keys
    rw [mem_keys_recordAll, mem_keys_recordAll]
    exact exists_congr fun o => and_congr (hmem o) Iff.rfl
  exact hkeys.flatMap_right _

theorem sameMembers_claims :
    SameMembers (claims (recordAll os₁)) (claims (recordAll os₂)) := by
  intro c
  unfold claims
  rw [flatMap_vals_eq (recordAll os₁) (fun _ leases => leases),
    flatMap_vals_eq (recordAll os₂) (fun _ leases => leases)]
  simp only [List.mem_flatMap]
  refine exists_congr fun ip => and_congr ?_ (sameMembers_leases hmem hkey ip c)
  rw [mem_keys_recordAll, mem_keys_recordAll]
  exact exists_congr fun o => and_congr (hmem o) Iff.rfl

theorem rebuilt_same : (rebuilt (recordAll os₁)).Same (rebuilt (recordAll os₂)) := by
  intro subject
  rw [lookup_rebuilt, lookup_rebuilt]
  have hclaim : (∃ c ∈ claims (recordAll os₁), macSubject c.mac = subject) ↔
      (∃ c ∈ claims (recordAll os₂), macSubject c.mac = subject) :=
    exists_congr fun c => and_congr (sameMembers_claims hmem hkey c) Iff.rfl
  by_cases hlisted : ∃ c ∈ claims (recordAll os₁), macSubject c.mac = subject
  · rw [if_pos hlisted, if_pos (hclaim.mp hlisted)]
    refine .some ⟨?_, sortByStart_sorted _, sortByStart_sorted _⟩
    have hof : (ofSubject subject (allIntervals (recordAll os₁))).Perm
        (ofSubject subject (allIntervals (recordAll os₂))) :=
      ((allIntervals_perm hmem hkey).filter _).map _
    exact ((List.perm_insertionSort _ _).trans hof).trans (List.perm_insertionSort _ _).symm
  · rw [if_neg hlisted, if_neg fun h => hlisted (hclaim.mpr h)]
    exact .none

end SameObservations

/-- **Order independence.** Two sequences of the same observations, in any
    order and with any repetitions, leave the same intervals for every
    subject and the same owner of every address at every instant. -/
theorem ownership_order_independent {os₁ os₂ : List BindingObs} (hmem : SameMembers os₁ os₂)
    (hkey : KeyedConsistently os₁) :
    (∃ owned₁ owned₂, rebuildIpOwnership (recordAll os₁) = .ok owned₁ ∧
      rebuildIpOwnership (recordAll os₂) = .ok owned₂ ∧ owned₁.Same owned₂) ∧
    ∀ ip t, resolveMac (recordAll os₁) ip t = resolveMac (recordAll os₂) ip t :=
  ⟨⟨_, _, rebuildIpOwnership_eq _, rebuildIpOwnership_eq _, rebuilt_same hmem hkey⟩,
    resolveMac_congr hmem hkey⟩

/-- A lease of an hour. -/
def hourLease : BindingObs := ⟨"10.0.0.7", "aa:01", 0, some 3600000000, "obs:1", "dhcp"⟩

/-- The address is reassigned after half a minute. -/
def reassignment : BindingObs := ⟨"10.0.0.7", "BB:02", 30000000, none, "obs:2", "arp"⟩

theorem reassignment_order_independent :
    (∃ owned₁ owned₂, rebuildIpOwnership (recordAll [hourLease, reassignment]) = .ok owned₁ ∧
      rebuildIpOwnership (recordAll [reassignment, hourLease, reassignment]) = .ok owned₂ ∧
      owned₁.Same owned₂) ∧
    ∀ ip t, resolveMac (recordAll [hourLease, reassignment]) ip t =
      resolveMac (recordAll [reassignment, hourLease, reassignment]) ip t := by
  have hmem : SameMembers [hourLease, reassignment] [reassignment, hourLease, reassignment] := by
    intro o
    simp only [List.mem_cons, List.not_mem_nil, or_false]
    tauto
  have hkey : KeyedConsistently [hourLease, reassignment] := by
    unfold KeyedConsistently
    decide +kernel
  exact ownership_order_independent hmem hkey

/-- The lease of an hour, by another sensor that writes the MAC in capitals
    and reports a lease of a minute. -/
def minuteLease : BindingObs := { hourLease with mac := "AA:01", expires := some 60000000 }

/-- The records of `hourLease` and `minuteLease` have one key although the
    observations do not: the first to arrive is kept, and two minutes later
    the address has an owner in one order and none in the other. -/
theorem ownership_depends_on_order :
    SameMembers [minuteLease, hourLease] [hourLease, minuteLease] ∧
    (∀ a ∈ [minuteLease, hourLease], ∀ b ∈ [minuteLease, hourLease],
      (a.mac, a.validFrom, a.obsId) = (b.mac, b.validFrom, b.obsId) → a = b) ∧
    resolveMac (recordAll [minuteLease, hourLease]) "10.0.0.7" 120000000 = none ∧
    resolveMac (recordAll [hourLease, minuteLease]) "10.0.0.7" 120000000 = some "aa:01" := by
  have hmem : SameMembers [minuteLease, hourLease] [hourLease, minuteLease] := by
    intro o
    simp only [List.mem_cons, List.not_mem_nil, or_false]
    tauto
  have hminute : minuteLease.lease = ⟨"aa:01", ⟨0⟩, some ⟨60000⟩, "obs:1", "dhcp"⟩ := by
    decide +kernel
  have hhour : hourLease.lease = ⟨"aa:01", ⟨0⟩, some ⟨3600000⟩, "obs:1", "dhcp"⟩ := by
    decide +kernel
  have hkey : minuteLease.lease.key = hourLease.lease.key := by
    rw [hminute, hhour]
    rfl
  have hfirst : (recordAll [minuteLease, hourLease]).leases "10.0.0.7" = [minuteLease.lease] :=
    leases_recordAll_pair (a := minuteLease) rfl hkey
  have hsecond : (recordAll [hourLease, minuteLease]).leases "10.0.0.7" = [hourLease.lease] :=
    leases_recordAll_pair (a := hourLease) rfl hkey.symm
  unfold resolveMac
  rw [hfirst, hsecond, hminute, hhour]
  refine And.intro hmem (And.intro ?_ (And.intro ?_ ?_))
  · decide +kernel
  · decide +kernel
  · decide +kernel

end AssetService
