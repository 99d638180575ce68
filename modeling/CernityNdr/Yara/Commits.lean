import CernityNdr.Yara.Lifecycle

/-! # What the Registry Commits

    What a call of the model in `Lifecycle` can do to the database, read off
    its code once (`perform_cases`): it raises and leaves the tables as they
    are, or commits one of three changes (`Commits`). -/

namespace YaraRegistry

open ObjectKeys (Digest)

variable {sha256 : Digest}

/-! ### The three changes -/

namespace Tables

/-- A draft is registered. -/
def registered (sha256 : Digest) (t : Tables) (d : Draft) (tenant : String) : Tables where
  rulesets := t.rulesets.put (d.ruleset sha256 tenant)
  bytes := (t.insertBytes (d.blob sha256)).bytes
  audit := t.audit ++ [d.auditRow]

/-- A promotion is made. -/
def moved (t : Tables) (p : Promotion) (actor ts : String) (row : Ruleset) (target : Status) :
    Tables where
  rulesets := t.rulesets.put (row.setStatus target actor ts)
  bytes := t.bytes
  audit := t.audit ++ [p.auditRow actor ts row.status target]

/-- A promotion is denied. -/
def denied (t : Tables) (p : Promotion) (actor ts : String) (row : Ruleset) (target : Status) :
    Tables :=
  t.insertAudit (p.denialRow actor ts row.status target)

end Tables

/-- A promotion whose arguments pass, and that is a transition of this row. -/
structure Legal (t : Tables) (p : Promotion) (actor ts : String) (row : Ruleset)
    (target : Status) : Prop where
  valid : p.validated = .ok (actor, ts)
  found : t.rulesets.get? p.rulesetId = some row
  named : Status.ofArg? p.toStatus = some target
  listed : target ∈ TRANSITIONS row.status

/-- What the section of a call commits, and how the call ends. -/
inductive Commits (sha256 : Digest) (t : Tables) :
    Call → Except RegistryError String → Tables → Prop
  | registered (r : Registration) (d : Draft) (tenant : String)
      (hfresh : t.rulesets.get? d.id = none) :
      Commits sha256 t (.register r) (.ok d.id) (t.registered sha256 d tenant)
  | moved (p : Promotion) (actor ts : String) (row : Ruleset) (target : Status)
      (h : Legal t p actor ts row target)
      (hallowed : p.authorize actor row.tenant target = .ok true) :
      Commits sha256 t (.promote p) (.ok p.rulesetId) (t.moved p actor ts row target)
  | denied (p : Promotion) (actor ts : String) (row : Ruleset) (target : Status)
      (h : Legal t p actor ts row target)
      (hdenied : p.authorize actor row.tenant target = .ok false) :
      Commits sha256 t (.promote p) (.error (.unauthorized actor p.rulesetId row.status target))
        (t.denied p actor ts row target)

/-! ### Statements -/

theorem execute_eq_ok {α : Type} {faults : Faults} {s : Step} {x y : α} :
    faults.execute s x = .ok y ↔ faults s = false ∧ x = y := by
  unfold Faults.execute
  split
  · next h => simp [h]
  · next h => simp [h]

theorem insertRuleset_eq_ok {t t' : Tables} {row : Ruleset} :
    t.insertRuleset row = .ok t' ↔
      t.rulesets.get? row.id = none ∧ { t with rulesets := t.rulesets.put row } = t' := by
  unfold Tables.insertRuleset
  split
  · next h =>
    obtain ⟨old, hold⟩ := Registry.mem_keys.mp h
    simp [hold]
  · next h =>
    have hnone : t.rulesets.get? row.id = none := by
      rw [Option.eq_none_iff_forall_ne_some]
      exact fun old hold => h (Registry.mem_keys.mpr ⟨old, hold⟩)
    simp [hnone]

theorem updateStatus_of_get? {t : Tables} {id : String} {row : Ruleset}
    (h : t.rulesets.get? id = some row) (target : Status) (actor ts : String) :
    t.updateStatus id row.status target actor ts =
      (1, { t with rulesets := t.rulesets.put (row.setStatus target actor ts) }) := by
  simp [Tables.updateStatus, h, Option.filter]

theorem rulesets_insertBytes (t : Tables) (blob : Blob) :
    (t.insertBytes blob).rulesets = t.rulesets := by
  unfold Tables.insertBytes
  split
  · rfl
  · rfl

theorem audit_insertBytes (t : Tables) (blob : Blob) : (t.insertBytes blob).audit = t.audit := by
  unfold Tables.insertBytes
  split
  · rfl
  · rfl

/-! ### Sections -/

theorem Registration.attempt_eq_ok {r : Registration} {d : Draft} {t t' : Tables}
    (h : r.attempt sha256 d t = .ok t') :
    ∃ tenant, t.rulesets.get? d.id = none ∧ t' = t.registered sha256 d tenant := by
  obtain ⟨t₁, h₁, h⟩ := Except.bind_eq_ok.mp h
  obtain ⟨-, rfl⟩ := execute_eq_ok.mp h₁
  cases htenant : r.tenant with
  | none =>
    rw [htenant] at h
    cases h
  | some tenant =>
    rw [htenant] at h
    obtain ⟨inserted, h₂, h⟩ := Except.bind_eq_ok.mp h
    obtain ⟨-, rfl⟩ := execute_eq_ok.mp h₂
    obtain ⟨t₂, h₃, h⟩ := Except.bind_eq_ok.mp h
    obtain ⟨hfresh, rfl⟩ := insertRuleset_eq_ok.mp h₃
    obtain ⟨t₃, h₄, h⟩ := Except.bind_eq_ok.mp h
    obtain ⟨-, rfl⟩ := execute_eq_ok.mp h₄
    obtain ⟨-, rfl⟩ := execute_eq_ok.mp h
    rw [rulesets_insertBytes] at hfresh
    refine ⟨tenant, hfresh, ?_⟩
    simp only [Tables.insertAudit, rulesets_insertBytes, audit_insertBytes]
    rfl

theorem reqStr_eq_ok {val : Arg} {field s : String} {maxLen : Nat} {nonblank : Bool}
    (h : reqStr val field maxLen nonblank = .ok s) : val = .str s := by
  unfold reqStr at h
  cases val with
  | str s' =>
    simp only at h
    split at h
    · cases h
      rfl
    · cases h
  | _ => cases h

namespace Promotion

theorem validated_eq_ok {p : Promotion} {actor ts : String} (h : p.validated = .ok (actor, ts)) :
    p.actor = .str actor := by
  obtain ⟨actor', hactor, h⟩ := Except.bind_eq_ok.mp h
  obtain ⟨ts', -, h⟩ := Except.bind_eq_ok.mp h
  cases h
  exact reqStr_eq_ok hactor

theorem legal_eq_ok {p : Promotion} {t : Tables} {row : Ruleset} {target : Status}
    (h : p.legal t = .ok (row, target)) :
    t.rulesets.get? p.rulesetId = some row ∧ Status.ofArg? p.toStatus = some target ∧
      target ∈ TRANSITIONS row.status := by
  obtain ⟨found, hfound, h⟩ := Except.bind_eq_ok.mp h
  obtain ⟨-, rfl⟩ := execute_eq_ok.mp hfound
  cases hrow : t.rulesets.get? p.rulesetId with
  | none =>
    rw [hrow] at h
    cases h
  | some row' =>
    rw [hrow] at h
    cases htarget : Status.ofArg? p.toStatus with
    | none =>
      simp only [htarget] at h
      cases h
    | some target' =>
      simp only [htarget] at h
      by_cases hmem : target' ∈ TRANSITIONS row'.status
      · rw [if_pos hmem] at h
        cases h
        exact ⟨rfl, rfl, hmem⟩
      · rw [if_neg hmem] at h
        cases h

theorem deny_eq_ok {p : Promotion} {actor ts : String} {current target : Status} {t t' : Tables}
    (h : p.deny actor ts current target t = .ok t') :
    t' = t.insertAudit (p.denialRow actor ts current target) := by
  obtain ⟨t₁, h₁, h⟩ := Except.bind_eq_ok.mp h
  obtain ⟨-, rfl⟩ := execute_eq_ok.mp h₁
  obtain ⟨-, rfl⟩ := execute_eq_ok.mp h
  rfl

theorem move_eq_ok {p : Promotion} {actor ts : String} {row : Ruleset} {target : Status}
    {t t' : Tables} (hrow : t.rulesets.get? p.rulesetId = some row)
    (h : p.move actor ts row.status target t = .ok t') : t' = t.moved p actor ts row target := by
  obtain ⟨⟨rowcount, t₁⟩, h₁, h⟩ := Except.bind_eq_ok.mp h
  obtain ⟨-, h₁⟩ := execute_eq_ok.mp h₁
  rw [updateStatus_of_get? hrow] at h₁
  cases h₁
  obtain ⟨t₂, h₂, h⟩ := Except.bind_eq_ok.mp h
  obtain ⟨-, rfl⟩ := execute_eq_ok.mp h₂
  obtain ⟨-, rfl⟩ := execute_eq_ok.mp h
  rfl

theorem attempt_eq_ok {p : Promotion} {actor ts : String} {t t' : Tables}
    {res : Except RegistryError String} (hvalid : p.validated = .ok (actor, ts))
    (h : p.attempt actor ts t = .ok (res, t')) : Commits sha256 t (.promote p) res t' := by
  obtain ⟨⟨row, target⟩, hlegal, h⟩ := Except.bind_eq_ok.mp h
  obtain ⟨hrow, hnamed, htarget⟩ := legal_eq_ok hlegal
  obtain ⟨allowed, hauth, h⟩ := Except.bind_eq_ok.mp h
  have hauth : p.authorize actor row.tenant target = .ok allowed := by
    cases hcall : p.authorize actor row.tenant target with
    | error e =>
      rw [hcall] at hauth
      cases hauth
    | ok b =>
      rw [hcall] at hauth
      cases hauth
      rfl
  cases allowed with
  | true =>
    obtain ⟨t₁, hmove, h⟩ := Except.bind_eq_ok.mp h
    obtain rfl := move_eq_ok hrow hmove
    cases h
    exact .moved p actor ts row target ⟨hvalid, hrow, hnamed, htarget⟩ hauth
  | false =>
    obtain ⟨t₁, hdeny, h⟩ := Except.bind_eq_ok.mp h
    obtain rfl := deny_eq_ok hdeny
    cases h
    exact .denied p actor ts row target ⟨hvalid, hrow, hnamed, htarget⟩ hauth

end Promotion

theorem rolledBack_ne_committed {τ : Type} (faults : Faults) (e : RegistryError)
    (res : Except RegistryError String) (t : τ) : rolledBack faults e ≠ .committed res t := by
  intro h
  unfold rolledBack at h
  split at h
  · cases h
  · cases h

theorem Registration.body_eq_committed {r : Registration} {d : Draft} {t t' : Tables}
    {res : Except RegistryError String} (h : r.body sha256 d t = .committed res t') :
    Commits sha256 t (.register r) res t' := by
  unfold Registration.body at h
  cases hattempt : r.attempt sha256 d t with
  | error e =>
    rw [hattempt] at h
    exact absurd h (rolledBack_ne_committed r.faults e res t')
  | ok t₁ =>
    rw [hattempt] at h
    cases h
    obtain ⟨tenant, hfresh, rfl⟩ := r.attempt_eq_ok hattempt
    exact .registered r d tenant hfresh

theorem Promotion.body_eq_committed {p : Promotion} {actor ts : String} {t t' : Tables}
    {res : Except RegistryError String} (hvalid : p.validated = .ok (actor, ts))
    (h : p.body actor ts t = .committed res t') : Commits sha256 t (.promote p) res t' := by
  unfold Promotion.body at h
  split at h
  · next hattempt =>
    cases h
    exact p.attempt_eq_ok hvalid hattempt
  · cases h
  · next e _ _ => exact absurd h (rolledBack_ne_committed p.faults e res t')

/-! ### Calls -/

/-- What a call can do to the database. -/
inductive Performed {κ : Type} (sha256 : Digest) (db : Database κ Tables) (k : Call) :
    Except RegistryError String → Database κ Tables → Prop
  | raised (e : RegistryError) (db' : Database κ Tables) (h : db'.tables = db.tables) :
      Performed sha256 db k (.error e) db'
  | committed (res : Except RegistryError String) (t : Tables)
      (h : Commits sha256 db.tables k res t) : Performed sha256 db k res { db with tables := t }

theorem Performed.of_section {κ : Type} {db db' : Database κ Tables} {k : Call}
    {body : Tables → Ending RegistryError String Tables} {res : Except RegistryError String}
    (hbody : ∀ res t, body db.tables = .committed res t → Commits sha256 db.tables k res t)
    (h : db.Section body res db') : Performed sha256 db k res db' := by
  cases h with
  | raised e _ htables => exact .raised e db' htables
  | committed _ t hcommitted => exact .committed res t (hbody res t hcommitted)

variable (sha256) in
theorem perform_cases {κ : Type} (db : Database κ Tables) (c : κ) (k : Call) :
    Performed sha256 db k (perform sha256 db c k).1 (perform sha256 db c k).2 := by
  cases k with
  | register r =>
    simp only [perform, registerDraft]
    cases r.validated with
    | error e => exact .raised e db rfl
    | ok d => exact .of_section (fun _ _ => r.body_eq_committed) (db.atomically_cases c _ _ _)
  | promote p =>
    simp only [perform, promote]
    cases hp : p.validated with
    | error e => exact .raised e db rfl
    | ok valid =>
      exact .of_section (fun _ _ => p.body_eq_committed hp)
        (db.atomically_cases c _ _ _)

/-- A call that raises has changed nothing, or it is a promotion that was
    denied, and has left its audit row. -/
theorem of_raised {κ : Type} {db db' : Database κ Tables} {c : κ} {k : Call} {e : RegistryError}
    (h : perform sha256 db c k = (.error e, db')) :
    db'.tables = db.tables ∨ ∃ p actor ts row target, k = .promote p ∧
      Legal db.tables p actor ts row target ∧ p.authorize actor row.tenant target = .ok false ∧
      e = .unauthorized actor p.rulesetId row.status target ∧
      db'.tables = db.tables.denied p actor ts row target := by
  have hperformed := perform_cases sha256 db c k
  rw [h] at hperformed
  generalize hres : (Except.error e, db').1 = res at hperformed
  generalize hdb : (Except.error e, db').2 = db₁ at hperformed
  subst hdb
  cases hperformed with
  | raised e' _ htables => exact Or.inl htables
  | committed _ t hk =>
    cases hk with
    | registered r d tenant hfresh => cases hres
    | moved p actor ts row target hlegal hallowed => cases hres
    | denied p actor ts row target hlegal hdenied =>
      cases hres
      exact Or.inr ⟨p, actor, ts, row, target, rfl, hlegal, hdenied, rfl, rfl⟩

/-- A promotion that is denied, and none of whose statements raises. -/
theorem promote_denied {κ : Type} {db : Database κ Tables} {p : Promotion} {actor ts : String}
    {row : Ruleset} {target : Status} (c : κ) (hfree : db.holder = none)
    (hfaults : ∀ s, p.faults s = false) (h : Legal db.tables p actor ts row target)
    (hdenied : p.authorize actor row.tenant target = .ok false) :
    promote db c p = (.error (.unauthorized actor p.rulesetId row.status target),
      { db with tables := db.tables.denied p actor ts row target }) := by
  have hexecute : ∀ {α : Type} (s : Step) (x : α), p.faults.execute s x = .ok x :=
    fun s x => execute_eq_ok.mpr ⟨hfaults s, rfl⟩
  have hlegal : p.legal db.tables = .ok (row, target) := by
    refine Except.bind_eq_ok.mpr ⟨some row, by rw [hexecute, h.found], ?_⟩
    simp only [h.named]
    exact if_pos h.listed
  have hbody : p.body actor ts db.tables =
      .committed (.error (.unauthorized actor p.rulesetId row.status target))
        (db.tables.denied p actor ts row target) := by
    have hattempt : p.attempt actor ts db.tables =
        .ok (.error (.unauthorized actor p.rulesetId row.status target),
          db.tables.denied p actor ts row target) := by
      refine Except.bind_eq_ok.mpr ⟨_, hlegal, ?_⟩
      refine Except.bind_eq_ok.mpr ⟨false, by rw [hdenied]; rfl, ?_⟩
      refine Except.bind_eq_ok.mpr ⟨_, ?_, rfl⟩
      exact Except.bind_eq_ok.mpr ⟨_, hexecute _ _, hexecute _ _⟩
    rw [Promotion.body, hattempt]
  simp only [promote, h.valid, Database.atomically, hfree, hfaults, hbody]
  rfl

end YaraRegistry
