import CernityNdr.Intel.Lifecycle

/-! # Effective Fields

    What `derive` returns, said of the set of assertions and of their own
    ends of validity: which assertion gives the score, which marking binds
    the record, and when the record is active. -/

namespace ThreatIntel

variable (epoch : String → Except Failure ℚ)

/-! ### The validity of one assertion -/

/-- The entry carries its own expiry. -/
def Provenance.OwnExpiry (p : Provenance) : Prop := ∃ e, p.expiry = some e ∧ e ≠ ""

/-- The assertion ends at `t`. -/
def Provenance.EndsAt (p : Provenance) (t : ℚ) : Prop :=
  ∃ e, p.expiry = some e ∧ e ≠ "" ∧ epoch e = .ok t

/-- The assertion has not expired at `now`. -/
def Provenance.ValidAt (p : Provenance) (now : ℚ) : Prop := ∃ t, p.EndsAt epoch t ∧ now < t

/-- The end of the assertion can be read. -/
def Provenance.Dated (p : Provenance) : Prop := ∃ t, p.EndsAt epoch t

variable {epoch}

theorem Provenance.Dated.ownExpiry {p : Provenance} (h : p.Dated epoch) : p.OwnExpiry := by
  obtain ⟨t, e, he, hne, -⟩ := h
  exact ⟨e, he, hne⟩

/-- The expiry of the record is not consulted. -/
theorem epoch_provExpiry {p : Provenance} (hown : p.OwnExpiry) {recordExpiry : String} {t : ℚ} :
    epoch (provExpiry p recordExpiry) = .ok t ↔ p.EndsAt epoch t := by
  obtain ⟨e, he, hne⟩ := hown
  have hprov : provExpiry p recordExpiry = e := by simp [provExpiry, he, hne]
  rw [hprov]
  constructor
  · intro h
    exact ⟨e, he, hne, h⟩
  · rintro ⟨e', he', -, h⟩
    rw [he] at he'
    cases he'
    exact h

/-- An entry has its own expiry, or it falls back to that of the record. -/
theorem provExpiry_or (p : Provenance) :
    (∀ r r', provExpiry p r = provExpiry p r') ∨ ∀ r, provExpiry p r = r := by
  unfold provExpiry
  cases p.expiry with
  | none => exact Or.inr fun _ => rfl
  | some e =>
    by_cases he : e = ""
    · exact Or.inr fun _ => by simp [he]
    · exact Or.inl fun _ _ => by simp [he]

/-! ### The lists that `derive` goes through -/

section Lists

variable {provs : List Provenance} {recordExpiry : String} {now : ℚ}

/-- The ends of a list, each read from the entry or from the record. -/
theorem mem_validUntil_iff {ends : List (Provenance × ℚ)}
    (h : validUntil epoch provs recordExpiry = .ok ends) {p : Provenance} {t : ℚ} :
    (p, t) ∈ ends ↔ p ∈ provs ∧ epoch (provExpiry p recordExpiry) = .ok t := by
  rw [Except.mem_of_mapM_eq_ok h]
  simp only [Except.map_eq_ok, Prod.mk.injEq]
  constructor
  · rintro ⟨q, hq, s, hs, rfl, rfl⟩
    exact ⟨hq, hs⟩
  · rintro ⟨hp, ht⟩
    exact ⟨p, hp, t, ht, rfl, rfl⟩

theorem mem_validUntil (hown : ∀ p ∈ provs, p.OwnExpiry) {ends : List (Provenance × ℚ)}
    (h : validUntil epoch provs recordExpiry = .ok ends) {p : Provenance} {t : ℚ} :
    (p, t) ∈ ends ↔ p ∈ provs ∧ p.EndsAt epoch t := by
  rw [mem_validUntil_iff h]
  exact and_congr_right fun hp => epoch_provExpiry (hown p hp)

/-- It returns when every end can be read. -/
theorem exists_validUntil_iff : (∃ ends, validUntil epoch provs recordExpiry = .ok ends) ↔
    ∀ p ∈ provs, ∃ t, epoch (provExpiry p recordExpiry) = .ok t := by
  unfold validUntil
  rw [Except.exists_mapM_eq_ok]
  apply forall₂_congr
  intro p hp
  simp only [Except.map_eq_ok]
  constructor
  · rintro ⟨-, t, ht, -⟩
    exact ⟨t, ht⟩
  · rintro ⟨t, ht⟩
    exact ⟨(p, t), t, ht, rfl⟩

theorem exists_validUntil (recordExpiry : String) (hown : ∀ p ∈ provs, p.OwnExpiry) :
    (∃ ends, validUntil epoch provs recordExpiry = .ok ends) ↔ ∀ p ∈ provs, p.Dated epoch := by
  rw [exists_validUntil_iff]
  apply forall₂_congr
  intro p hp
  simp only [epoch_provExpiry (hown p hp), Provenance.Dated]

theorem mem_validProvs_iff {valid : List Provenance}
    (h : validProvs epoch provs recordExpiry now = .ok valid) {p : Provenance} :
    p ∈ valid ↔ p ∈ provs ∧ ∃ t, epoch (provExpiry p recordExpiry) = .ok t ∧ now < t := by
  obtain ⟨ends, hends, h⟩ := Except.bind_eq_ok.mp h
  obtain rfl := Except.ok.inj h
  simp only [List.mem_map, List.mem_filter, decide_eq_true_eq, Prod.exists, exists_and_right,
    exists_eq_right, mem_validUntil_iff hends]
  constructor
  · rintro ⟨t, ⟨hp, ht⟩, hnow⟩
    exact ⟨hp, t, ht, hnow⟩
  · rintro ⟨hp, t, ht, hnow⟩
    exact ⟨t, ⟨hp, ht⟩, hnow⟩

theorem mem_validProvs (hown : ∀ p ∈ provs, p.OwnExpiry) {valid : List Provenance}
    (h : validProvs epoch provs recordExpiry now = .ok valid) {p : Provenance} :
    p ∈ valid ↔ p ∈ provs ∧ p.ValidAt epoch now := by
  rw [mem_validProvs_iff h]
  refine and_congr_right fun hp => exists_congr fun t => ?_
  rw [epoch_provExpiry (hown p hp)]

theorem exists_validProvs_iff : (∃ valid, validProvs epoch provs recordExpiry now = .ok valid) ↔
    ∀ p ∈ provs, ∃ t, epoch (provExpiry p recordExpiry) = .ok t := by
  rw [← exists_validUntil_iff]
  constructor
  · rintro ⟨valid, h⟩
    obtain ⟨ends, hends, -⟩ := Except.bind_eq_ok.mp h
    exact ⟨ends, hends⟩
  · rintro ⟨ends, hends⟩
    exact ⟨_, Except.bind_eq_ok.mpr ⟨ends, hends, rfl⟩⟩

end Lists

/-! ### Maxima -/

section Maxima

variable {α β : Type} [LinearOrder β] {key : α → β} {items : List α}

theorem maxBy_spec {a : α} (h : maxBy key items = .ok a) :
    a ∈ items ∧ ∀ b ∈ items, key b ≤ key a := by
  unfold maxBy at h
  cases hmax : items.argmax key with
  | none =>
    rw [hmax] at h
    cases h
  | some m =>
    rw [hmax] at h
    cases h
    exact ⟨List.argmax_mem hmax, fun b hb => List.le_of_mem_argmax hb hmax⟩

theorem exists_maxBy (key : α → β) (h : items ≠ []) : ∃ a, maxBy key items = .ok a := by
  unfold maxBy
  cases hmax : items.argmax key with
  | none => exact absurd (List.argmax_eq_none.mp hmax) h
  | some m => exact ⟨m, rfl⟩

end Maxima

/-! ### The result -/

variable (epoch)

/-- `p` has a say in the score: it is valid, or none is. -/
def Provenance.Counts (provs : List Provenance) (now : ℚ) (p : Provenance) : Prop :=
  p.ValidAt epoch now ∨ ∀ q ∈ provs, ¬ q.ValidAt epoch now

/-- The fields of `r` are what the assertions `provs` say at `now`. -/
structure Effective (provs : List Provenance) (now : ℚ) (r : IntelRecord) : Prop where
  /-- the score comes from the best-trusted assertion that counts -/
  winner : ∃ p ∈ provs, p.Counts epoch provs now ∧
    (r.score = p.score ∧ r.source = p.source ∧ r.feed = p.feed ∧ r.sourceTrust = p.sourceTrust) ∧
    ∀ q ∈ provs, q.Counts epoch provs now → q.rank ≤ p.rank
  /-- the marking is the most restrictive of all -/
  tlp : (∃ p ∈ provs, p.tlp = r.tlp) ∧ ∀ p ∈ provs, p.tlp.rank ≤ r.tlp.rank
  disposition : r.disposition = .active ↔ ∃ p ∈ provs, p.ValidAt epoch now
  /-- the record ends with the last of its assertions -/
  expiry : ∃ t, epoch r.expiry = .ok t ∧ (∃ p ∈ provs, p.EndsAt epoch t) ∧
    ∀ p ∈ provs, ∀ s, p.EndsAt epoch s → s ≤ t

variable {epoch}

theorem bestProvenance_spec {provs : List Provenance} {recordExpiry : String} {now : ℚ}
    {w : Provenance} (hown : ∀ p ∈ provs, p.OwnExpiry)
    (h : bestProvenance epoch provs recordExpiry now = .ok w) :
    w ∈ provs ∧ w.Counts epoch provs now ∧
      ∀ q ∈ provs, q.Counts epoch provs now → q.rank ≤ w.rank := by
  obtain ⟨valid, hvalid, h⟩ := Except.bind_eq_ok.mp h
  have hmem : ∀ p, p ∈ (if valid.isEmpty then provs else valid) ↔
      p ∈ provs ∧ p.Counts epoch provs now := by
    intro p
    by_cases hempty : valid = []
    · have hnone : ∀ q ∈ provs, ¬ q.ValidAt epoch now := by
        intro q hq hv
        have := (mem_validProvs hown hvalid).mpr ⟨hq, hv⟩
        rw [hempty] at this
        cases this
      simp only [hempty, List.isEmpty_nil, if_true]
      exact ⟨fun hp => ⟨hp, Or.inr hnone⟩, fun hp => hp.1⟩
    · obtain ⟨v, hv⟩ := List.exists_mem_of_ne_nil valid hempty
      have hv := (mem_validProvs hown hvalid).mp hv
      rw [if_neg (by simpa using hempty), mem_validProvs hown hvalid]
      constructor
      · exact fun hp => ⟨hp.1, Or.inl hp.2⟩
      · rintro ⟨hp, hcounts | hnone⟩
        · exact ⟨hp, hcounts⟩
        · exact absurd hv.2 (hnone v hv.1)
  obtain ⟨hw, hmax⟩ := maxBy_spec h
  have hw := (hmem w).mp hw
  exact ⟨hw.1, hw.2, fun q hq hcounts => hmax q ((hmem q).mpr ⟨hq, hcounts⟩)⟩

theorem mostRestrictiveTlp_spec {provs : List Provenance} (hne : provs ≠ []) (default : Tlp) :
    (∃ p ∈ provs, p.tlp = (mostRestrictiveTlp (provs.map Provenance.tlp)).getD default) ∧
      ∀ p ∈ provs,
        p.tlp.rank ≤ ((mostRestrictiveTlp (provs.map Provenance.tlp)).getD default).rank := by
  unfold mostRestrictiveTlp
  cases hmax : (provs.map Provenance.tlp).argmax Tlp.rank with
  | none => exact absurd (List.argmax_eq_none.mp hmax) (by simpa using hne)
  | some t =>
    rw [Option.getD_some]
    constructor
    · exact List.mem_map.mp (List.argmax_mem hmax)
    · intro p hp
      exact List.le_of_mem_argmax (List.mem_map_of_mem hp) hmax

theorem derive_key {record r : IntelRecord} {now : ℚ} (h : derive epoch record now = .ok r) :
    r.key = record.key := by
  obtain ⟨ends, -, h⟩ := Except.bind_eq_ok.mp h
  obtain ⟨last, -, h⟩ := Except.bind_eq_ok.mp h
  obtain ⟨winner, -, h⟩ := Except.bind_eq_ok.mp h
  obtain ⟨valid, -, h⟩ := Except.bind_eq_ok.mp h
  obtain rfl := Except.ok.inj h
  rfl

/-- **What `derive` returns**, and that it only returns on dated assertions. -/
theorem derive_spec {record r : IntelRecord} {now : ℚ}
    (hown : ∀ p ∈ record.provenance, p.OwnExpiry) (h : derive epoch record now = .ok r) :
    r.provenance = record.provenance ∧ record.provenance ≠ [] ∧
      (∀ p ∈ record.provenance, p.Dated epoch) ∧ Effective epoch record.provenance now r := by
  obtain ⟨ends, hends, h⟩ := Except.bind_eq_ok.mp h
  obtain ⟨last, hlast, h⟩ := Except.bind_eq_ok.mp h
  obtain ⟨winner, hwinner, h⟩ := Except.bind_eq_ok.mp h
  obtain ⟨valid, hvalid, h⟩ := Except.bind_eq_ok.mp h
  obtain rfl := Except.ok.inj h
  obtain ⟨hlastmem, hlastmax⟩ := maxBy_spec hlast
  obtain ⟨hlastprov, hlastend⟩ := (mem_validUntil hown hends).mp hlastmem
  have hne : record.provenance ≠ [] := List.ne_nil_of_mem hlastprov
  have hdated := (exists_validUntil _ hown).mp ⟨ends, hends⟩
  obtain ⟨hwin, hcounts, hbest⟩ := bestProvenance_spec hown hwinner
  refine ⟨rfl, hne, hdated, ⟨winner, hwin, hcounts, ⟨rfl, rfl, rfl, rfl⟩, hbest⟩,
    mostRestrictiveTlp_spec hne record.tlp, ?_, last.2, ?_, ⟨last.1, hlastprov, hlastend⟩, ?_⟩
  · show (if valid.isEmpty then Disposition.expired else .active) = .active ↔ _
    by_cases hempty : valid = []
    · simp only [hempty, List.isEmpty_nil, if_true]
      constructor
      · intro h
        cases h
      · rintro ⟨p, hp⟩
        have := (mem_validProvs hown hvalid).mpr hp
        rw [hempty] at this
        cases this
    · obtain ⟨v, hv⟩ := List.exists_mem_of_ne_nil valid hempty
      rw [if_neg (by simpa using hempty)]
      exact ⟨fun _ => ⟨v, (mem_validProvs hown hvalid).mp hv⟩, fun _ => rfl⟩
  · exact (epoch_provExpiry (hown _ hlastprov)).mpr hlastend
  · intro p hp s hs
    exact hlastmax (p, s) ((mem_validUntil hown hends).mpr ⟨hp, hs⟩)

/-- It returns when every end can be read. -/
theorem exists_derive_of_readable {record : IntelRecord} (now : ℚ) (hne : record.provenance ≠ [])
    (hread : ∀ p ∈ record.provenance, ∃ t, epoch (provExpiry p record.expiry) = .ok t) :
    ∃ r, derive epoch record now = .ok r := by
  obtain ⟨ends, hends⟩ := exists_validUntil_iff.mpr hread
  have hends_ne : ends ≠ [] := by
    obtain ⟨p, hp⟩ := List.exists_mem_of_ne_nil _ hne
    obtain ⟨t, ht⟩ := hread p hp
    exact List.ne_nil_of_mem ((mem_validUntil_iff hends).mpr ⟨hp, ht⟩)
  obtain ⟨last, hlast⟩ := exists_maxBy Prod.snd hends_ne
  -- an entry that falls back reads the end of the last one
  have hread' : ∀ p ∈ record.provenance,
      ∃ t, epoch (provExpiry p (provExpiry last.1 record.expiry)) = .ok t := by
    intro p hp
    obtain ⟨-, hlastread⟩ := (mem_validUntil_iff hends).mp (maxBy_spec hlast).1
    rcases provExpiry_or p with hown | hfall
    · rw [hown (provExpiry last.1 record.expiry) record.expiry]
      exact hread p hp
    · rw [hfall]
      exact ⟨last.2, hlastread⟩
  obtain ⟨valid, hvalid⟩ : ∃ valid, validProvs epoch record.provenance
      (provExpiry last.1 record.expiry) now = .ok valid := exists_validProvs_iff.mpr hread'
  obtain ⟨winner, hwinner⟩ : ∃ w, bestProvenance epoch record.provenance
      (provExpiry last.1 record.expiry) now = .ok w := by
    have hsome : (if valid.isEmpty then record.provenance else valid) ≠ [] := by
      by_cases hempty : valid = []
      · simpa [hempty] using hne
      · simp [hempty]
    obtain ⟨w, hw⟩ := exists_maxBy Provenance.rank hsome
    exact ⟨w, Except.bind_eq_ok.mpr ⟨valid, hvalid, hw⟩⟩
  simp only [derive, bind, Except.bind, hends, hlast, hwinner, hvalid]
  exact ⟨_, rfl⟩

/-- It returns on dated assertions. -/
theorem exists_derive {record : IntelRecord} (now : ℚ) (hne : record.provenance ≠ [])
    (hdated : ∀ p ∈ record.provenance, p.Dated epoch) : ∃ r, derive epoch record now = .ok r := by
  refine exists_derive_of_readable now hne fun p hp => ?_
  obtain ⟨t, ht⟩ := hdated p hp
  exact ⟨t, (epoch_provExpiry (hdated p hp).ownExpiry).mpr ht⟩

end ThreatIntel
