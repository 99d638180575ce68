import CernityNdr.Framework.Gathering
import CernityNdr.Intel.Refinement

/-! # Feeds and the Ends of Their Assertions

    An entry without an expiry of its own ends with its record, and a record
    ends with the last of its entries: what another feed asserts moves the
    end of such an entry. Feeds are independent in the runs where every such
    entry ends last among the assertions around it (`EndsLast`).

    `Standing` is what a feed has said of an indicator and until when, from
    the notices of this feed alone. -/

namespace ThreatIntel

variable (epoch : String → Except Failure ℚ)

/-! ### Ends -/

/-- The end that a timestamp names; `⊥` when it cannot be read. -/
def endAt (ts : String) : WithBot ℚ :=
  match epoch ts with
  | .ok t => t
  | .error _ => ⊥

/-- The entry has no expiry of its own. -/
def Provenance.Legacy (p : Provenance) : Prop := p.expiry.getD "" = ""

/-- The end of an entry, in a record that ends at `u`. -/
def Provenance.endIn (u : WithBot ℚ) (p : Provenance) : WithBot ℚ :=
  match p.expiry with
  | some e => if e = "" then u else endAt epoch e
  | none => u

/-- The end of the last entry. -/
def lastEnd (u : WithBot ℚ) (entries : List Provenance) : WithBot ℚ :=
  latestEnd (entries.map (Provenance.endIn epoch u))

/-! ### What a feed has said -/

/-- A notice as one feed sent it: its entries in a record, with the expiry
    of the record, or a withdrawal. -/
inductive OwnNotice
  | entries (ps : List Provenance) (recordExpiry : String)
  | withdrawn
deriving DecidableEq

/-- What the notice has from the feed. -/
def Notice.ofFeed (k : Key) (f : Feed) : Notice → Option OwnNotice
  | .report r =>
    let ps := r.provenance.filter fun p => p.origin = f
    if r.key = k ∧ ps ≠ [] then some (.entries ps r.expiry) else none
  | .withdraw rv => if rv.key = k ∧ rv.origin = f then some .withdrawn else none

/-- The assertions and withdrawals of one feed, about one indicator. -/
def ofFeed (k : Key) (f : Feed) (log : List Notice) : List OwnNotice :=
  log.filterMap (Notice.ofFeed k f)

/-- The entries of a feed that stand, and the last of their ends. -/
structure Standing where
  entries : List Provenance
  ends : WithBot ℚ

/-- What stands after one more notice of the feed. An entry without an
    expiry ends as its feed's assertion before it did. -/
def Standing.after (o : Option Standing) : OwnNotice → Option Standing
  | .entries ps recordExpiry =>
    some ⟨ps, lastEnd epoch (o.elim (endAt epoch recordExpiry) Standing.ends) ps⟩
  | .withdrawn => none

/-- What stands after the notices of a feed. -/
def standingOf (own : List OwnNotice) : Option Standing :=
  own.foldl (Standing.after epoch) none

/-- What a feed says of an indicator after a chronicle. -/
def standing (log : List Notice) (k : Key) (f : Feed) : Option Standing :=
  standingOf epoch (ofFeed k f log)

/-- The ends around a record that comes: those that stood before it, the
    expiries that stand after it, and its own when nothing stood. -/
def endsAround (log : List Notice) (r : IntelRecord) : Set (WithBot ℚ) :=
  {e | (∃ f st, standing epoch log r.key f = some st ∧ e = st.ends) ∨
    (∃ f st p, standing epoch (log ++ [.report r]) r.key f = some st ∧ p ∈ st.entries ∧
      ¬ p.Legacy ∧ e = p.endIn epoch ⊥) ∨
    ((∀ f, standing epoch log r.key f = none) ∧ e = endAt epoch r.expiry)}

/-- Where an entry without an expiry stands after the record, its end is the
    latest of the ends around. -/
def EndsLast (log : List Notice) (r : IntelRecord) : Prop :=
  ∀ f st, standing epoch (log ++ [.report r]) r.key f = some st → (∃ p ∈ st.entries, p.Legacy) →
    IsGreatest (endsAround epoch log r) st.ends

/-- The feeds whose assertions `match` counts as valid. -/
def validFeeds (store : IntelStore) (k : Key) (now : ℚ) : Except Failure (List Feed) :=
  match store.get k with
  | none => return []
  | some record => do
    let record ← derive epoch record now
    return (← validProvs epoch record.provenance record.expiry now).map Provenance.origin

/-- The assertion of the feed counts as valid in `match`. -/
def Counts (store : IntelStore) (k : Key) (f : Feed) (now : ℚ) : Prop :=
  ∃ fs, validFeeds epoch store k now = .ok fs ∧ f ∈ fs

/-! ### Ends of lists -/

section Ends

variable {epoch} {p : Provenance} {u v : WithBot ℚ} {entries : List Provenance}

theorem endIn_legacy (h : p.Legacy) : p.endIn epoch u = u := by
  unfold Provenance.endIn
  unfold Provenance.Legacy at h
  cases he : p.expiry with
  | none => rfl
  | some e =>
    rw [he, Option.getD_some] at h
    exact if_pos h

theorem endIn_own (h : ¬ p.Legacy) : p.endIn epoch u = p.endIn epoch v := by
  unfold Provenance.endIn
  unfold Provenance.Legacy at h
  cases he : p.expiry with
  | none =>
    rw [he] at h
    exact absurd rfl h
  | some e =>
    rw [he, Option.getD_some] at h
    simp [h]

theorem endAt_ok {ts : String} {t : ℚ} (h : epoch ts = .ok t) : endAt epoch ts = t := by
  simp [endAt, h]

theorem endAt_provExpiry (p : Provenance) (recordExpiry : String) :
    endAt epoch (provExpiry p recordExpiry) = p.endIn epoch (endAt epoch recordExpiry) := by
  unfold provExpiry Provenance.endIn
  cases p.expiry with
  | none => rfl
  | some e =>
    by_cases he : e = ""
    · simp [he]
    · simp [he]

theorem lt_endAt_iff {ts : String} {now : ℚ} :
    (now : WithBot ℚ) < endAt epoch ts ↔ ∃ t, epoch ts = .ok t ∧ now < t := by
  unfold endAt
  cases epoch ts with
  | error e => simp
  | ok t => simp

theorem endIn_le_lastEnd (h : p ∈ entries) : p.endIn epoch u ≤ lastEnd epoch u entries :=
  le_latestEnd (List.mem_map_of_mem h)

theorem lastEnd_le_iff : lastEnd epoch u entries ≤ v ↔ ∀ p ∈ entries, p.endIn epoch u ≤ v := by
  simp [lastEnd, latestEnd_le_iff]

theorem lt_lastEnd_iff : v < lastEnd epoch u entries ↔ ∃ p ∈ entries, v < p.endIn epoch u := by
  simp [lastEnd, lt_latestEnd_iff]

/-- Where an entry falls back, the list ends no earlier than its record. -/
theorem le_lastEnd_of_legacy (h : ∃ p ∈ entries, p.Legacy) : u ≤ lastEnd epoch u entries := by
  obtain ⟨p, hp, hlegacy⟩ := h
  have hle : p.endIn epoch u ≤ lastEnd epoch u entries := endIn_le_lastEnd hp
  rwa [endIn_legacy hlegacy] at hle

theorem lastEnd_of_not_legacy (h : ¬ ∃ p ∈ entries, p.Legacy) :
    lastEnd epoch u entries = lastEnd epoch v entries := by
  unfold lastEnd
  congr 1
  apply List.map_congr_left
  intro p hp
  exact endIn_own fun hlegacy => h ⟨p, hp, hlegacy⟩

/-- A record that ends with the last of its entries stays so. -/
theorem lastEnd_lastEnd : lastEnd epoch (lastEnd epoch u entries) entries =
    lastEnd epoch u entries := by
  by_cases h : ∃ p ∈ entries, p.Legacy
  · apply le_antisymm
    · rw [lastEnd_le_iff]
      intro p hp
      by_cases hlegacy : p.Legacy
      · rw [endIn_legacy hlegacy]
      · rw [endIn_own (v := u) hlegacy]
        exact endIn_le_lastEnd hp
    · exact le_lastEnd_of_legacy h
  · exact lastEnd_of_not_legacy h

end Ends

/-! ### One more notice -/

section Notices

variable {epoch} {log : List Notice} {k : Key} {f : Feed}

theorem standing_snoc (log : List Notice) (n : Notice) (k : Key) (f : Feed) :
    standing epoch (log ++ [n]) k f =
      match n.ofFeed k f with
      | some own => Standing.after epoch (standing epoch log k f) own
      | none => standing epoch log k f := by
  unfold standing standingOf ofFeed
  rw [List.filterMap_append, List.foldl_append]
  cases hn : n.ofFeed k f with
  | none => simp [hn]
  | some own => simp [hn]

theorem standing_other {n : Notice} (h : n.key ≠ k) (f : Feed) :
    standing epoch (log ++ [n]) k f = standing epoch log k f := by
  have hnone : n.ofFeed k f = none := by
    cases n with
    | report r => exact if_neg fun hk => h hk.1
    | withdraw rv => exact if_neg fun hk => h hk.1
  rw [standing_snoc, hnone]

/-- A feed that the record does not name. -/
theorem standing_unnamed {r : IntelRecord} (h : r.provenance.filter (fun p => p.origin = f) = []) :
    standing epoch (log ++ [.report r]) r.key f = standing epoch log r.key f := by
  have hnone : (Notice.report r).ofFeed r.key f = none := if_neg fun hk => hk.2 h
  rw [standing_snoc, hnone]

/-- A feed that the record names. -/
theorem standing_named {r : IntelRecord} (h : r.provenance.filter (fun p => p.origin = f) ≠ []) :
    standing epoch (log ++ [.report r]) r.key f =
      some ⟨r.provenance.filter fun p => p.origin = f,
        lastEnd epoch ((standing epoch log r.key f).elim (endAt epoch r.expiry) Standing.ends)
          (r.provenance.filter fun p => p.origin = f)⟩ := by
  have hsome : (Notice.report r).ofFeed r.key f =
      some (.entries (r.provenance.filter fun p => p.origin = f) r.expiry) := if_pos ⟨rfl, h⟩
  rw [standing_snoc, hsome]
  rfl

theorem standing_withdraw (rv : Revocation) (f : Feed) :
    standing epoch (log ++ [.withdraw rv]) rv.key f =
      if rv.origin = f then none else standing epoch log rv.key f := by
  rw [standing_snoc]
  by_cases hf : rv.origin = f
  · have hsome : (Notice.withdraw rv).ofFeed rv.key f = some .withdrawn := if_pos ⟨rfl, hf⟩
    rw [hsome, if_pos hf]
    rfl
  · have hnone : (Notice.withdraw rv).ofFeed rv.key f = none := if_neg fun hk => hf hk.2
    rw [hnone, if_neg hf]

end Notices

/-! ### What is stored -/

variable {epoch}

/-- The end of a record that is derived is the last of its entries'. -/
theorem derive_ends {record r : IntelRecord} {now : ℚ} (h : derive epoch record now = .ok r) :
    r.provenance = record.provenance ∧ record.provenance ≠ [] ∧
      endAt epoch r.expiry = lastEnd epoch (endAt epoch record.expiry) record.provenance ∧
      ∀ p ∈ record.provenance, ∃ t, epoch (provExpiry p r.expiry) = .ok t := by
  obtain ⟨ends, hends, h⟩ := Except.bind_eq_ok.mp h
  obtain ⟨last, hlast, h⟩ := Except.bind_eq_ok.mp h
  obtain ⟨winner, -, h⟩ := Except.bind_eq_ok.mp h
  obtain ⟨valid, hvalid, h⟩ := Except.bind_eq_ok.mp h
  obtain rfl := Except.ok.inj h
  obtain ⟨hmem, hmax⟩ := maxBy_spec hlast
  obtain ⟨hprov, hread⟩ := (mem_validUntil_iff hends).mp hmem
  refine ⟨rfl, List.ne_nil_of_mem hprov, ?_, exists_validProvs_iff.mp ⟨valid, hvalid⟩⟩
  show endAt epoch (provExpiry last.1 record.expiry) = _
  apply le_antisymm
  · rw [endAt_provExpiry]
    exact endIn_le_lastEnd hprov
  · rw [lastEnd_le_iff, endAt_ok hread]
    intro p hp
    obtain ⟨t, ht⟩ := exists_validUntil_iff.mp ⟨ends, hends⟩ p hp
    rw [← endAt_provExpiry, endAt_ok ht]
    exact WithBot.coe_le_coe.mpr (hmax (p, t) ((mem_validUntil_iff hends).mpr ⟨hp, ht⟩))

variable (epoch) in
/-- What is stored for an indicator against what its feeds have said. -/
structure FeedsKept (said : Feed → Option Standing) (o : Option IntelRecord) : Prop where
  entries : ∀ f, (provenanceOf o).filter (fun p => p.origin = f) =
    (said f).elim [] Standing.entries
  standing : ∀ f st, said f = some st → st.entries ≠ [] ∧ st.ends = lastEnd epoch st.ends st.entries
  nonempty : ∀ r, o = some r → r.provenance ≠ []
  readable : ∀ r, o = some r → ∀ p ∈ r.provenance, ∃ t, epoch (provExpiry p r.expiry) = .ok t
  ends : ∀ r, o = some r → endAt epoch r.expiry = lastEnd epoch (endAt epoch r.expiry) r.provenance
  /-- an entry without an expiry ends with the record, as its feed has it -/
  legacy : ∀ r, o = some r → ∀ f st, said f = some st → (∃ p ∈ st.entries, p.Legacy) →
    st.ends = endAt epoch r.expiry

section Kept

variable {said : Feed → Option Standing} {o : Option IntelRecord} {r : IntelRecord} {f : Feed}
  {st : Standing} {p : Provenance}

/-- An entry of a feed is an entry of the record. -/
theorem FeedsKept.mem (h : FeedsKept epoch said o) (hst : said f = some st) (hp : p ∈ st.entries) :
    p ∈ provenanceOf o ∧ p.origin = f := by
  have hmem : p ∈ (provenanceOf o).filter (fun p => p.origin = f) := by
    rw [h.entries, hst]
    exact hp
  simpa using hmem

theorem FeedsKept.standing_of_mem (h : FeedsKept epoch said o) (hp : p ∈ provenanceOf o) :
    ∃ st, said p.origin = some st ∧ p ∈ st.entries := by
  have hmem : p ∈ (said p.origin).elim [] Standing.entries := by
    rw [← h.entries]
    simpa using hp
  cases hst : said p.origin with
  | none =>
    rw [hst] at hmem
    cases hmem
  | some st =>
    rw [hst] at hmem
    exact ⟨st, rfl, hmem⟩

/-- Nothing is stored when no feed has said anything. -/
theorem FeedsKept.none_iff (h : FeedsKept epoch said o) : o = none ↔ ∀ f, said f = none := by
  constructor
  · intro hnone f
    cases hst : said f with
    | none => rfl
    | some st =>
      obtain ⟨p, hp⟩ := List.exists_mem_of_ne_nil _ (h.standing f st hst).1
      have hmem := (h.mem hst hp).1
      rw [hnone] at hmem
      cases hmem
  · intro hall
    cases ho : o with
    | none => rfl
    | some r =>
      obtain ⟨p, hp⟩ := List.exists_mem_of_ne_nil _ (h.nonempty r ho)
      obtain ⟨st, hst, -⟩ := h.standing_of_mem (show p ∈ provenanceOf o by rwa [ho])
      rw [hall] at hst
      cases hst

/-- What stands ends no later than the record. -/
theorem FeedsKept.ends_le (h : FeedsKept epoch said (some r)) (hst : said f = some st) :
    st.ends ≤ endAt epoch r.expiry := by
  by_cases hlegacy : ∃ p ∈ st.entries, p.Legacy
  · exact (h.legacy r rfl f st hst hlegacy).le
  · rw [(h.standing f st hst).2, lastEnd_of_not_legacy (v := endAt epoch r.expiry) hlegacy]
    refine le_of_le_of_eq (lastEnd_le_iff.mpr ?_) (h.ends r rfl).symm
    intro p hp
    exact endIn_le_lastEnd (h.mem hst hp).1

/-- The record ends with something that stands. -/
theorem FeedsKept.exists_ends (h : FeedsKept epoch said (some r)) :
    ∃ f st, said f = some st ∧ st.ends = endAt epoch r.expiry := by
  by_contra hno
  have hlt : ∀ f st, said f = some st → st.ends < endAt epoch r.expiry := by
    intro f st hst
    exact lt_of_le_of_ne (h.ends_le hst) fun heq => hno ⟨f, st, hst, heq⟩
  have hne := h.nonempty r rfl
  have hmem : lastEnd epoch (endAt epoch r.expiry) r.provenance ∈
      r.provenance.map (Provenance.endIn epoch (endAt epoch r.expiry)) :=
    latestEnd_mem (by simpa using hne)
  rw [← h.ends r rfl] at hmem
  obtain ⟨p, hp, hend⟩ := List.mem_map.mp hmem
  obtain ⟨st, hst, hpst⟩ := h.standing_of_mem hp
  have hless := hlt p.origin st hst
  by_cases hlegacy : p.Legacy
  · exact hless.ne (h.legacy r rfl _ st hst ⟨p, hpst, hlegacy⟩)
  · rw [← hend, (h.standing _ st hst).2] at hless
    refine absurd hless (not_lt.mpr ?_)
    rw [endIn_own (v := st.ends) hlegacy]
    exact endIn_le_lastEnd hpst

/-! ### One merge and one withdrawal -/

theorem feedsKept_empty : FeedsKept epoch (fun _ => none) none where
  entries _ := rfl
  standing _ _ h := by cases h
  nonempty _ h := by cases h
  readable _ h := by cases h
  ends _ h := by cases h
  legacy _ h := by cases h

variable {log : List Notice} {base : Option IntelRecord} {incoming merged : IntelRecord} {now : ℚ}

/-- The entries of a feed after a merge. -/
theorem entries_merge (h : FeedsKept epoch (ThreatIntel.standing epoch log incoming.key) base)
    (hprov : merged.provenance = (provenanceOf base).filter (fun p =>
      p.origin ∉ incoming.provenance.map Provenance.origin) ++ incoming.provenance) (f : Feed) :
    merged.provenance.filter (fun p => p.origin = f) =
      (ThreatIntel.standing epoch (log ++ [.report incoming]) incoming.key f).elim []
        Standing.entries := by
  rw [hprov, List.filter_append, List.filter_filter]
  by_cases hf : incoming.provenance.filter (fun p => p.origin = f) = []
  · have hold : (provenanceOf base).filter (fun p => decide (p.origin = f) &&
        decide (p.origin ∉ incoming.provenance.map Provenance.origin)) =
        (provenanceOf base).filter (fun p => p.origin = f) := by
      apply List.filter_congr
      intro p _
      by_cases hpf : p.origin = f
      · have hout : p.origin ∉ incoming.provenance.map Provenance.origin := by
          intro hin
          obtain ⟨q, hq, hqp⟩ := List.mem_map.mp hin
          have hqf : q ∈ incoming.provenance.filter (fun p => p.origin = f) := by
            simpa using ⟨hq, hqp.trans hpf⟩
          rw [hf] at hqf
          cases hqf
        simp only [hpf] at hout ⊢
        simpa using hout
      · simp [hpf]
    rw [hold, hf, List.append_nil, standing_unnamed hf, h.entries]
  · have hold : (provenanceOf base).filter (fun p => decide (p.origin = f) &&
        decide (p.origin ∉ incoming.provenance.map Provenance.origin)) = [] := by
      obtain ⟨q, hq⟩ := List.exists_mem_of_ne_nil _ hf
      obtain ⟨hq, hqf⟩ : q ∈ incoming.provenance ∧ q.origin = f := by simpa using hq
      simp only [List.filter_eq_nil_iff, Bool.and_eq_true, decide_eq_true_eq]
      rintro p _ ⟨hpf, hout⟩
      exact hout (List.mem_map.mpr ⟨q, hq, hqf.trans hpf.symm⟩)
    rw [hold, List.nil_append, standing_named hf]
    rfl

/-- What stands after a record has entries, and ends with the last of them. -/
theorem standing_report (h : FeedsKept epoch (ThreatIntel.standing epoch log incoming.key) base)
    (hst : ThreatIntel.standing epoch (log ++ [.report incoming]) incoming.key f = some st) :
    st.entries ≠ [] ∧ st.ends = lastEnd epoch st.ends st.entries := by
  by_cases hf : incoming.provenance.filter (fun p => p.origin = f) = []
  · rw [standing_unnamed hf] at hst
    exact h.standing f st hst
  · rw [standing_named hf] at hst
    obtain rfl := Option.some.inj hst
    exact ⟨hf, lastEnd_lastEnd.symm⟩

/-- The expiry that an entry without one falls back to in a merge. -/
theorem merge_expiry (hmerge : merge epoch base incoming = .ok merged) :
    merged.expiry = base.elim incoming.expiry IntelRecord.expiry := by
  cases base with
  | none =>
    cases hmerge
    rfl
  | some b =>
    obtain ⟨first, -, hmerge⟩ := Except.bind_eq_ok.mp hmerge
    obtain ⟨last, -, hmerge⟩ := Except.bind_eq_ok.mp hmerge
    cases hmerge
    rfl

/-- It is one of the ends around the record. -/
theorem carried_mem (h : FeedsKept epoch (ThreatIntel.standing epoch log incoming.key) base) :
    endAt epoch (base.elim incoming.expiry IntelRecord.expiry) ∈
      endsAround epoch log incoming := by
  cases base with
  | none => exact Or.inr (Or.inr ⟨h.none_iff.mp rfl, rfl⟩)
  | some b =>
    obtain ⟨f, st, hst, hends⟩ := h.exists_ends
    exact Or.inl ⟨f, st, hst, hends.symm⟩

/-- Nothing that stood ends after it. -/
theorem le_carried (h : FeedsKept epoch (ThreatIntel.standing epoch log incoming.key) base)
    (hst : ThreatIntel.standing epoch log incoming.key f = some st) :
    st.ends ≤ endAt epoch (base.elim incoming.expiry IntelRecord.expiry) := by
  cases base with
  | none =>
    rw [h.none_iff.mp rfl f] at hst
    cases hst
  | some b => exact h.ends_le hst

theorem FeedsKept.report (h : FeedsKept epoch (ThreatIntel.standing epoch log incoming.key) base)
    (hkey : ∀ b, base = some b → b.key = incoming.key) (hlast : EndsLast epoch log incoming)
    (hmerge : merge epoch base incoming = .ok merged) (hderive : derive epoch merged now = .ok r) :
    FeedsKept epoch (ThreatIntel.standing epoch (log ++ [.report incoming]) incoming.key)
      (some r) := by
  have hentries := entries_merge h (merge_spec hkey hmerge).2
  obtain ⟨hprov, hne, hends, hread⟩ := derive_ends hderive
  rw [merge_expiry hmerge] at hends
  have hmem : ∀ g st, ThreatIntel.standing epoch (log ++ [.report incoming]) incoming.key g =
      some st → ∀ p ∈ st.entries, p ∈ merged.provenance := by
    intro g st hst p hp
    have hfilter : p ∈ merged.provenance.filter (fun p => p.origin = g) := by
      rw [hentries, hst]
      exact hp
    exact (List.mem_filter.mp hfilter).1
  refine ⟨fun f => ?_, fun f st hst => standing_report h hst, ?_, ?_, ?_, ?_⟩
  · rw [provenanceOf_some, hprov]
    exact hentries f
  · rintro _ ⟨rfl⟩
    rwa [hprov]
  · rintro _ ⟨rfl⟩
    rwa [hprov]
  · rintro _ ⟨rfl⟩
    rw [hprov, hends, lastEnd_lastEnd]
  · rintro _ ⟨rfl⟩ f st hst hlegacy
    have hgreatest := hlast f st hst hlegacy
    rw [hends]
    have hfall : endAt epoch (base.elim incoming.expiry IntelRecord.expiry) ≤
        lastEnd epoch (endAt epoch (base.elim incoming.expiry IntelRecord.expiry))
          merged.provenance :=
      le_lastEnd_of_legacy (hlegacy.imp fun p hp => ⟨hmem f st hst p hp.1, hp.2⟩)
    apply le_antisymm
    · rcases hgreatest.1 with ⟨g, old, hold, heq⟩ | ⟨g, st', p, hst', hp, hown, heq⟩ | ⟨hnone, heq⟩
      · rw [heq]
        exact (le_carried h hold).trans hfall
      · rw [heq, endIn_own hown]
        exact endIn_le_lastEnd (hmem g st' hst' p hp)
      · rw [heq]
        rwa [h.none_iff.mpr hnone] at hfall ⊢
    · rw [lastEnd_le_iff]
      intro p hp
      by_cases hpl : p.Legacy
      · rw [endIn_legacy hpl]
        exact hgreatest.2 (carried_mem h)
      · -- the entry stands with an expiry of its own
        have hstands : p ∈ (ThreatIntel.standing epoch (log ++ [.report incoming]) incoming.key
            p.origin).elim [] Standing.entries := by
          rw [← hentries]
          simpa using hp
        rw [endIn_own (v := ⊥) hpl]
        refine hgreatest.2 (Or.inr (Or.inl ?_))
        cases hst' : ThreatIntel.standing epoch (log ++ [.report incoming]) incoming.key
            p.origin with
        | none =>
          rw [hst'] at hstands
          cases hstands
        | some st' =>
          rw [hst'] at hstands
          exact ⟨p.origin, st', p, hst', hstands, hpl, rfl⟩

theorem FeedsKept.withdraw {b : IntelRecord} {rv : Revocation}
    (h : FeedsKept epoch (ThreatIntel.standing epoch log rv.key) (some b))
    (happly : applyRevocation epoch b rv now = .ok o) :
    FeedsKept epoch (ThreatIntel.standing epoch (log ++ [.withdraw rv]) rv.key) o := by
  have hentries : ∀ f, (b.provenance.filter (fun p => p.origin ≠ rv.origin)).filter
      (fun p => p.origin = f) =
        (ThreatIntel.standing epoch (log ++ [.withdraw rv]) rv.key f).elim []
          Standing.entries := by
    intro f
    rw [standing_withdraw, List.filter_filter]
    by_cases hf : rv.origin = f
    · rw [if_pos hf]
      simp only [Option.elim_none, List.filter_eq_nil_iff, Bool.and_eq_true, decide_eq_true_eq]
      exact fun p _ hp => hp.2 (hp.1.trans hf.symm)
    · rw [if_neg hf, ← h.entries f]
      apply List.filter_congr
      intro p _
      by_cases hp : p.origin = f
      · simp [hp, Ne.symm hf]
      · simp [hp]
  have hold : ∀ f st, ThreatIntel.standing epoch (log ++ [.withdraw rv]) rv.key f = some st →
      ThreatIntel.standing epoch log rv.key f = some st := by
    intro f st hst
    rw [standing_withdraw] at hst
    by_cases hf : rv.origin = f
    · rw [if_pos hf] at hst
      cases hst
    · rwa [if_neg hf] at hst
  have hstanding := fun f st hst => h.standing f st (hold f st hst)
  unfold applyRevocation at happly
  by_cases hrest : b.provenance.filter (fun p => p.origin ≠ rv.origin) = []
  · rw [if_pos hrest] at happly
    cases happly
    refine ⟨fun f => ?_, hstanding, ?_, ?_, ?_, ?_⟩
    · rw [← hentries f, hrest]
      rfl
    all_goals
      intro r hr
      cases hr
  · rw [if_neg hrest] at happly
    obtain ⟨r, hderive, rfl⟩ := Except.map_eq_ok.mp happly
    obtain ⟨hprov, hne, hends, hread⟩ := derive_ends hderive
    simp only at hprov hne hends hread
    refine ⟨fun f => ?_, hstanding, ?_, ?_, ?_, ?_⟩
    · rw [provenanceOf_some, hprov]
      exact hentries f
    · rintro _ ⟨rfl⟩
      rwa [hprov]
    · rintro _ ⟨rfl⟩
      rwa [hprov]
    · rintro _ ⟨rfl⟩
      rw [hprov, hends, lastEnd_lastEnd]
    · rintro _ ⟨rfl⟩ f st hst hlegacy
      rw [h.legacy b rfl f st (hold f st hst) hlegacy, hends]
      apply le_antisymm
      · refine le_lastEnd_of_legacy (hlegacy.imp fun p hp => ⟨?_, hp.2⟩)
        have hfilter : p ∈ (b.provenance.filter (fun p => p.origin ≠ rv.origin)).filter
            (fun p => p.origin = f) := by
          rw [hentries, hst]
          exact hp.1
        exact (List.mem_filter.mp hfilter).1
      · -- dropping entries does not move the end of those that are left
        refine le_of_le_of_eq (lastEnd_le_iff.mpr ?_) (h.ends b rfl).symm
        intro p hp
        exact endIn_le_lastEnd (List.mem_filter.mp hp).1

/-- The rounds of a refresh keep it. -/
theorem kept_feeds : ThreatIntel.Kept epoch (EndsLast epoch)
    (fun log k o => FeedsKept epoch (ThreatIntel.standing epoch log k) o) where
  initial _ := feedsKept_empty
  report h hkey hlast hmerge hderive := h.report hkey hlast hmerge hderive
  withdraw h happly := h.withdraw happly
  absent {log rv} h := by
    have hsame : ThreatIntel.standing epoch (log ++ [.withdraw rv]) rv.key =
        ThreatIntel.standing epoch log rv.key := by
      funext f
      rw [standing_withdraw, h.none_iff.mp rfl f, ite_self]
    rw [hsame]
    exact h
  other {log n k o} hne h := by
    have hsame : ThreatIntel.standing epoch (log ++ [n]) k = ThreatIntel.standing epoch log k := by
      funext f
      exact standing_other hne f
    rw [hsame]
    exact h

/-! ### What counts in `match` -/

theorem counts_iff {store : IntelStore} {k : Key}
    (h : FeedsKept epoch said (store.get k)) (f : Feed) (now : ℚ) :
    Counts epoch store k f now ↔ ∃ st, said f = some st ∧ (now : WithBot ℚ) < st.ends := by
  unfold Counts validFeeds
  cases hget : store.get k with
  | none =>
    rw [hget] at h
    have hnone := h.none_iff.mp rfl f
    constructor
    · rintro ⟨fs, hfs, hf⟩
      cases hfs
      cases hf
    · rintro ⟨st, hst, -⟩
      rw [hnone] at hst
      cases hst
  | some record =>
    rw [hget] at h
    obtain ⟨r, hderive⟩ := exists_derive_of_readable now (h.nonempty record rfl)
      (h.readable record rfl)
    obtain ⟨hprov, -, hends, hread⟩ := derive_ends hderive
    rw [← h.ends record rfl] at hends
    obtain ⟨valid, hvalid⟩ : ∃ valid, validProvs epoch r.provenance r.expiry now = .ok valid :=
      exists_validProvs_iff.mpr (hprov ▸ hread)
    have hfeeds : (do
        let record ← derive epoch record now
        return (← validProvs epoch record.provenance record.expiry now).map Provenance.origin) =
          (.ok (valid.map Provenance.origin) : Except Failure (List Feed)) :=
      Except.bind_eq_ok.mpr ⟨r, hderive, Except.bind_eq_ok.mpr ⟨valid, hvalid, rfl⟩⟩
    have hlt : (∃ p ∈ valid, p.origin = f) ↔
        ∃ p ∈ record.provenance, p.origin = f ∧
          (now : WithBot ℚ) < p.endIn epoch (endAt epoch record.expiry) := by
      refine exists_congr fun p => ?_
      rw [mem_validProvs_iff hvalid, hprov, ← lt_endAt_iff, endAt_provExpiry, hends]
      tauto
    have hcounts : (∃ fs, (do
        let record ← derive epoch record now
        return (← validProvs epoch record.provenance record.expiry now).map Provenance.origin) =
          (.ok fs : Except Failure (List Feed)) ∧ f ∈ fs) ↔ ∃ p ∈ valid, p.origin = f := by
      rw [hfeeds]
      simp
    refine hcounts.trans (hlt.trans ?_)
    constructor
    · rintro ⟨p, hp, rfl, hnow⟩
      obtain ⟨st, hst, hpst⟩ := h.standing_of_mem hp
      refine ⟨st, hst, hnow.trans_le ?_⟩
      rw [(h.standing _ st hst).2]
      by_cases hlegacy : p.Legacy
      · rw [endIn_legacy hlegacy, ← h.legacy record rfl _ st hst ⟨p, hpst, hlegacy⟩]
        exact le_lastEnd_of_legacy ⟨p, hpst, hlegacy⟩
      · rw [endIn_own (v := st.ends) hlegacy]
        exact endIn_le_lastEnd hpst
    · rintro ⟨st, hst, hnow⟩
      rw [(h.standing f st hst).2] at hnow
      obtain ⟨p, hp, hnow⟩ := lt_lastEnd_iff.mp hnow
      obtain ⟨hmem, horigin⟩ := h.mem hst hp
      refine ⟨p, hmem, horigin, ?_⟩
      by_cases hlegacy : p.Legacy
      · rw [endIn_legacy hlegacy, h.legacy record rfl f st hst ⟨p, hp, hlegacy⟩] at hnow
        rwa [endIn_legacy hlegacy]
      · rwa [endIn_own (v := endAt epoch record.expiry) hlegacy] at hnow

end Kept

/-! ### Runs -/

/-- **Feeds are independent where legacy entries end last.** Take two runs in
    which every entry without an expiry of its own stands with the latest of
    the ends around it. When a feed has said the same of an indicator in both,
    its assertion counts as valid in `match` at the same times. -/
theorem feeds_independent {calls calls' : List Call}
    (hlast : AllAllowed (EndsLast epoch) (Machine.run (Chronicle.step epoch) .empty calls).log)
    (hlast' : AllAllowed (EndsLast epoch) (Machine.run (Chronicle.step epoch) .empty calls').log)
    {k : Key} {f : Feed}
    (hsame : ofFeed k f (Machine.run (Chronicle.step epoch) .empty calls).log =
      ofFeed k f (Machine.run (Chronicle.step epoch) .empty calls').log) (now : ℚ) :
    Counts epoch (Machine.run (Chronicle.step epoch) .empty calls).store k f now ↔
      Counts epoch (Machine.run (Chronicle.step epoch) .empty calls').store k f now := by
  have hkept := (Chronicle.Kept.run kept_feeds calls hlast).tracks k
  have hkept' := (Chronicle.Kept.run kept_feeds calls' hlast').tracks k
  rw [counts_iff hkept, counts_iff hkept']
  unfold standing
  rw [hsame]

/-- What stands was reported. -/
theorem reported_of_standing {log : List Notice} {k : Key} {f : Feed} {st : Standing}
    (hst : standing epoch log k f = some st) {p : Provenance} (hp : p ∈ st.entries) :
    ∃ r, .report r ∈ log ∧ p ∈ r.provenance := by
  induction log using List.reverseRecOn generalizing st with
  | nil => cases hst
  | append_singleton log n ih =>
    have hold : standing epoch log k f = some st → ∃ r, .report r ∈ log ++ [n] ∧
        p ∈ r.provenance := by
      intro h
      obtain ⟨r, hr, hpr⟩ := ih h hp
      exact ⟨r, List.mem_append_left _ hr, hpr⟩
    by_cases hk : n.key = k
    · subst hk
      cases n with
      | withdraw rv =>
        rw [show (Notice.withdraw rv).key = rv.key from rfl, standing_withdraw] at hst
        by_cases hf : rv.origin = f
        · rw [if_pos hf] at hst
          cases hst
        · rw [if_neg hf] at hst
          exact hold hst
      | report r =>
        rw [show (Notice.report r).key = r.key from rfl] at hst hold
        by_cases hf : r.provenance.filter (fun p => p.origin = f) = []
        · rw [standing_unnamed hf] at hst
          exact hold hst
        · rw [standing_named hf] at hst
          obtain rfl := Option.some.inj hst
          exact ⟨r, by simp, (List.mem_filter.mp hp).1⟩
    · rw [standing_other hk] at hst
      exact hold hst

/-- Feeds that state an expiry with every entry are independent. -/
theorem allAllowed_of_own {log : List Notice}
    (h : ∀ r, .report r ∈ log → ∀ p ∈ r.provenance, ¬ p.Legacy) :
    AllAllowed (EndsLast epoch) log := by
  rintro pre r post rfl f st hst ⟨p, hp, hlegacy⟩
  obtain ⟨r', hr', hpr⟩ := reported_of_standing hst hp
  refine absurd hlegacy (h r' ?_ p hpr)
  rcases List.mem_append.mp hr' with hr' | hr'
  · exact List.mem_append_left _ hr'
  · rw [List.mem_singleton.mp hr']
    simp

section Sample

/-- An entry of the form that has no expiry of its own. -/
def legacyEntry (feed : String) : Provenance :=
  { Session.sampleEntry 80 feed with expiry := none }

/-- A record of it that ends in September. -/
def legacyRecord : IntelRecord :=
  { Session.sampleRecord [legacyEntry "blocklist"] with expiry := "2026-09-01T00:00:00Z" }

/-- One feed alone. -/
def aloneCalls : List Call := [.ingest [legacyRecord] 1780000000 [] none]

/-- Another feed asserts the same indicator until December. -/
def besideCalls : List Call :=
  aloneCalls ++ [.ingest [Session.sampleRecord [Session.sampleEntry 40 "misp"]] 1780000000 [] none]

/-- The assertion of the first feed outlives its record when another feed
    reports the indicator. -/
theorem other_feed_extends :
    ¬ ∀ (calls calls' : List Call) (k : Key) (f : Feed),
      ofFeed k f (Machine.run (Chronicle.step Session.sampleEpoch) .empty calls).log =
        ofFeed k f (Machine.run (Chronicle.step Session.sampleEpoch) .empty calls').log →
      ∀ now, Counts Session.sampleEpoch
          (Machine.run (Chronicle.step Session.sampleEpoch) .empty calls).store k f now ↔
        Counts Session.sampleEpoch
          (Machine.run (Chronicle.step Session.sampleEpoch) .empty calls').store k f now := by
  intro h
  have halone : validFeeds Session.sampleEpoch
      (Machine.run (Chronicle.step Session.sampleEpoch) .empty aloneCalls).store
      ("t1", .ip, "9.9.9.9") 1790640000 = .ok [] := by decide +kernel
  have hbeside : validFeeds Session.sampleEpoch
      (Machine.run (Chronicle.step Session.sampleEpoch) .empty besideCalls).store
      ("t1", .ip, "9.9.9.9") 1790640000 = .ok [("acme", "blocklist"), ("acme", "misp")] := by
    decide +kernel
  have hcounts : Counts Session.sampleEpoch
      (Machine.run (Chronicle.step Session.sampleEpoch) .empty besideCalls).store
      ("t1", .ip, "9.9.9.9") ("acme", "blocklist") 1790640000 := ⟨_, hbeside, by simp⟩
  obtain ⟨fs, hfs, hf⟩ := (h aloneCalls besideCalls ("t1", .ip, "9.9.9.9") ("acme", "blocklist")
    (by decide +kernel) 1790640000).mpr hcounts
  rw [halone] at hfs
  cases hfs
  cases hf

/-- One feed, and another feed that reports beside it. -/
def ownCalls : List Call :=
  [.ingest [Session.sampleRecord [Session.sampleEntry 80 "blocklist"]] 1780000000 [] none]

def ownBesideCalls : List Call :=
  ownCalls ++ [.ingest [Session.sampleRecord [Session.sampleEntry 40 "misp"]] 1780000000 [] none]

theorem feeds_independent_two :
    Counts Session.sampleEpoch
        (Machine.run (Chronicle.step Session.sampleEpoch) .empty ownCalls).store
        ("t1", .ip, "9.9.9.9") ("acme", "blocklist") 1790640000 ↔
      Counts Session.sampleEpoch
        (Machine.run (Chronicle.step Session.sampleEpoch) .empty ownBesideCalls).store
        ("t1", .ip, "9.9.9.9") ("acme", "blocklist") 1790640000 := by
  have hown : ∀ score feed, ¬ (Session.sampleEntry score feed).Legacy := fun _ _ h =>
    absurd (show "2026-12-01T00:00:00Z" = "" from h) (by decide)
  have hlog : (Machine.run (Chronicle.step Session.sampleEpoch) .empty ownCalls).log =
      [.report (Session.sampleRecord [Session.sampleEntry 80 "blocklist"])] := by decide +kernel
  have hlog' : (Machine.run (Chronicle.step Session.sampleEpoch) .empty ownBesideCalls).log =
      [.report (Session.sampleRecord [Session.sampleEntry 80 "blocklist"]),
        .report (Session.sampleRecord [Session.sampleEntry 40 "misp"])] := by decide +kernel
  refine feeds_independent (allAllowed_of_own ?_) (allAllowed_of_own ?_) ?_ 1790640000
  · rw [hlog]
    intro r hr p hp
    obtain rfl : r = _ := Notice.report.inj (List.mem_singleton.mp hr)
    rw [List.mem_singleton.mp hp]
    exact hown _ _
  · rw [hlog']
    intro r hr p hp
    simp only [List.mem_cons, Notice.report.injEq, List.not_mem_nil, or_false] at hr
    rcases hr with rfl | rfl
    · rw [List.mem_singleton.mp hp]
      exact hown _ _
    · rw [List.mem_singleton.mp hp]
      exact hown _ _
  · rw [hlog, hlog']
    rfl

end Sample

end ThreatIntel
