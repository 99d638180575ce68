import CernityNdr.Yara.Commits

/-! # The Audit Trail of Rulesets

    What links the rulesets, their bytes and their audit trail, after every
    run of calls over any connections.

    * `Sound`: the invariant of the tables.
    * `Attributed`: who changed the status of a ruleset last.
    * `lifecycle_holds`: all of it, and what a call leaves that raises. -/

namespace YaraRegistry

open ObjectKeys (Digest)

variable {sha256 : Digest}

/-! ### Trails -/

/-- The audit rows of a ruleset, less the denials. -/
def Tables.trail (t : Tables) (id : String) : List AuditRow :=
  t.audit.filter fun row => row.rulesetId = id && row.event ≠ .promotionDenied

/-- These rows lead from the registration of a draft along the transitions to
    this status. -/
inductive Path : List AuditRow → Status → Prop
  | registered {row : AuditRow} (hevent : row.event = .registered) (hfrom : row.fromStatus = none)
      (hto : row.toStatus = some .draft) : Path [row] .draft
  | moved {rows : List AuditRow} {current target : Status} {row : AuditRow}
      (h : Path rows current) (htarget : target ∈ TRANSITIONS current)
      (hevent : row.event = Promotion.eventOf target) (hfrom : row.fromStatus = some current)
      (hto : row.toStatus = some target) : Path (rows ++ [row]) target

theorem eventOf_ne_promotionDenied (target : Status) :
    Promotion.eventOf target ≠ .promotionDenied := by
  cases target <;> decide

/-- The trail after one more audit row. -/
theorem trail_snoc {t t' : Tables} {row : AuditRow} (h : t'.audit = t.audit ++ [row])
    (id : String) : t'.trail id = t.trail id ++
      if row.rulesetId = id && row.event ≠ .promotionDenied then [row] else [] := by
  simp only [Tables.trail, h, List.filter_append, List.filter_cons, List.filter_nil]

theorem trail_snoc_of_ne {t t' : Tables} {row : AuditRow} (h : t'.audit = t.audit ++ [row])
    {id : String} (hid : row.rulesetId ≠ id) : t'.trail id = t.trail id := by
  rw [trail_snoc h, if_neg (by simp [hid]), List.append_nil]

/-! ### The invariant -/

/-- Rulesets, bytes and trail belong together. -/
structure Sound (sha256 : Digest) (t : Tables) : Prop where
  /-- the trail of a ruleset leads to its status -/
  path : ∀ id row, t.rulesets.get? id = some row → Path (t.trail id) row.status
  /-- no audit row is about a ruleset that does not exist -/
  known : ∀ row ∈ t.audit, ∃ ruleset, t.rulesets.get? row.rulesetId = some ruleset
  /-- the bytes of a ruleset are there, and hash to its address -/
  stored : ∀ id row, t.rulesets.get? id = some row →
    ∃ blob, t.bytes.get? row.sha256 = some blob ∧ sha256.hexdigest blob.data = row.sha256
  /-- no bytes are there without a ruleset -/
  owned : ∀ address blob, t.bytes.get? address = some blob →
    ∃ id row, t.rulesets.get? id = some row ∧ row.sha256 = address

theorem Sound.empty : Sound sha256 .empty where
  path _ _ h := by cases h
  known _ h := by cases h
  stored _ _ h := by cases h
  owned _ _ h := by cases h

theorem get?_insertBytes (t : Tables) (blob : Blob) (address : List Char) :
    (t.insertBytes blob).bytes.get? address =
      (t.bytes.get? address).or (if blob.sha256 = address then some blob else none) := by
  unfold Tables.insertBytes
  cases hblob : t.bytes.get? blob.sha256 with
  | some old =>
    by_cases haddress : blob.sha256 = address
    · rw [← haddress, hblob]
      rfl
    · rw [if_neg haddress, Option.or_none]
  | none =>
    show (t.bytes.put blob).get? address = _
    rw [Registry.get?_put]
    by_cases haddress : blob.sha256 = address
    · rw [if_pos haddress, if_pos haddress, ← haddress, hblob]
      rfl
    · rw [if_neg haddress, if_neg haddress, Option.or_none]

/-- The bytes that are there hash to their address. -/
theorem Sound.genuine {t : Tables} (h : Sound sha256 t) {address : List Char} {blob : Blob}
    (hblob : t.bytes.get? address = some blob) : sha256.hexdigest blob.data = address := by
  obtain ⟨id, row, hrow, rfl⟩ := h.owned address blob hblob
  obtain ⟨blob', hblob', hhash⟩ := h.stored id row hrow
  rw [hblob] at hblob'
  cases hblob'
  exact hhash

/-- Nothing was written about an id that is free. -/
theorem Sound.trail_eq_nil {t : Tables} (h : Sound sha256 t) {id : String}
    (hfresh : t.rulesets.get? id = none) : t.trail id = [] := by
  rw [Tables.trail, List.filter_eq_nil_iff]
  intro audit haudit
  obtain ⟨ruleset, hruleset⟩ := h.known audit haudit
  have hne : audit.rulesetId ≠ id := by
    intro heq
    rw [heq, hfresh] at hruleset
    cases hruleset
  simp [hne]

section Registered

variable {t : Tables} {d : Draft} {tenant : String}

theorem get?_registered (id : String) : (t.registered sha256 d tenant).rulesets.get? id =
    if d.id = id then some (d.ruleset sha256 tenant) else t.rulesets.get? id :=
  Registry.get?_put _ _ id

theorem get?_registered_self :
    (t.registered sha256 d tenant).rulesets.get? d.id = some (d.ruleset sha256 tenant) := by
  rw [get?_registered, if_pos rfl]

theorem get?_registered_of_get? (hfresh : t.rulesets.get? d.id = none) {id : String} {row : Ruleset}
    (hrow : t.rulesets.get? id = some row) :
    (t.registered sha256 d tenant).rulesets.get? id = some row := by
  have hid : d.id ≠ id := by
    intro heq
    rw [← heq, hfresh] at hrow
    cases hrow
  rw [get?_registered, if_neg hid, hrow]

/-- A ruleset after a registration is the draft, or was there before. -/
theorem of_get?_registered {id : String} {row : Ruleset}
    (hrow : (t.registered sha256 d tenant).rulesets.get? id = some row) :
    d.id = id ∧ row = d.ruleset sha256 tenant ∨ d.id ≠ id ∧ t.rulesets.get? id = some row := by
  rw [get?_registered] at hrow
  by_cases hid : d.id = id
  · rw [if_pos hid] at hrow
    cases hrow
    exact Or.inl ⟨hid, rfl⟩
  · rw [if_neg hid] at hrow
    exact Or.inr ⟨hid, hrow⟩

theorem get?_bytes_registered (address : List Char) :
    (t.registered sha256 d tenant).bytes.get? address = (t.bytes.get? address).or
      (if sha256.hexdigest d.data = address then some (d.blob sha256) else none) :=
  get?_insertBytes t (d.blob sha256) address

theorem Sound.registered (h : Sound sha256 t) (hfresh : t.rulesets.get? d.id = none) :
    Sound sha256 (t.registered sha256 d tenant) where
  path id row hrow := by
    rcases of_get?_registered hrow with ⟨rfl, rfl⟩ | ⟨hid, hold⟩
    · have htrail : (t.registered sha256 d tenant).trail d.id = [d.auditRow] := by
        rw [trail_snoc rfl, h.trail_eq_nil hfresh, if_pos (by simp [Draft.auditRow])]
        rfl
      rw [htrail]
      exact .registered rfl rfl rfl
    · have htrail : (t.registered sha256 d tenant).trail id = t.trail id := trail_snoc_of_ne rfl hid
      rw [htrail]
      exact h.path id row hold
  known audit haudit := by
    rcases List.mem_append.mp haudit with haudit | haudit
    · obtain ⟨ruleset, hruleset⟩ := h.known audit haudit
      exact ⟨ruleset, get?_registered_of_get? hfresh hruleset⟩
    · obtain rfl := List.mem_singleton.mp haudit
      exact ⟨d.ruleset sha256 tenant, get?_registered_self⟩
  stored id row hrow := by
    rcases of_get?_registered hrow with ⟨-, rfl⟩ | ⟨-, hold⟩
    · rw [get?_bytes_registered]
      cases hblob : t.bytes.get? (d.ruleset sha256 tenant).sha256 with
      | none => exact ⟨d.blob sha256, if_pos rfl, rfl⟩
      | some blob => exact ⟨blob, rfl, h.genuine hblob⟩
    · obtain ⟨blob, hblob, hhash⟩ := h.stored id row hold
      refine ⟨blob, ?_, hhash⟩
      rw [get?_bytes_registered, hblob]
      rfl
  owned address blob hblob := by
    rw [get?_bytes_registered] at hblob
    cases hold : t.bytes.get? address with
    | some old =>
      obtain ⟨id, row, hrow, haddress⟩ := h.owned address old hold
      exact ⟨id, row, get?_registered_of_get? hfresh hrow, haddress⟩
    | none =>
      by_cases haddress : sha256.hexdigest d.data = address
      · exact ⟨d.id, d.ruleset sha256 tenant, get?_registered_self, haddress⟩
      · rw [hold, if_neg haddress] at hblob
        cases hblob

end Registered

section Moved

variable {t : Tables} {p : Promotion} {actor ts : String} {row : Ruleset} {target : Status}

theorem get?_moved (hrow : t.rulesets.get? p.rulesetId = some row) (id : String) :
    (t.moved p actor ts row target).rulesets.get? id =
      if p.rulesetId = id then some (row.setStatus target actor ts) else t.rulesets.get? id := by
  rw [← Registry.keyOf_of_get? hrow]
  exact Registry.get?_put _ _ id

theorem of_get?_moved (hrow : t.rulesets.get? p.rulesetId = some row) {id : String} {r : Ruleset}
    (hr : (t.moved p actor ts row target).rulesets.get? id = some r) :
    p.rulesetId = id ∧ r = row.setStatus target actor ts ∨
      p.rulesetId ≠ id ∧ t.rulesets.get? id = some r := by
  rw [get?_moved hrow] at hr
  by_cases hid : p.rulesetId = id
  · rw [if_pos hid] at hr
    cases hr
    exact Or.inl ⟨hid, rfl⟩
  · rw [if_neg hid] at hr
    exact Or.inr ⟨hid, hr⟩

/-- A promotion keeps every ruleset, with its address. -/
theorem get?_moved_of_get? (hrow : t.rulesets.get? p.rulesetId = some row) {id : String}
    {r : Ruleset} (hr : t.rulesets.get? id = some r) :
    ∃ r', (t.moved p actor ts row target).rulesets.get? id = some r' ∧ r'.sha256 = r.sha256 := by
  rw [get?_moved hrow]
  by_cases hid : p.rulesetId = id
  · rw [← hid, hrow] at hr
    cases hr
    exact ⟨row.setStatus target actor ts, if_pos hid, rfl⟩
  · exact ⟨r, by rw [if_neg hid, hr], rfl⟩

theorem Sound.moved (h : Sound sha256 t) (hrow : t.rulesets.get? p.rulesetId = some row)
    (htarget : target ∈ TRANSITIONS row.status) : Sound sha256 (t.moved p actor ts row target) where
  path id r hr := by
    rcases of_get?_moved hrow hr with ⟨rfl, rfl⟩ | ⟨hid, hold⟩
    · have htrail : (t.moved p actor ts row target).trail p.rulesetId =
          t.trail p.rulesetId ++ [p.auditRow actor ts row.status target] := by
        rw [trail_snoc rfl, if_pos]
        simp [Promotion.auditRow, eventOf_ne_promotionDenied]
      rw [htrail]
      exact .moved (h.path p.rulesetId row hrow) htarget rfl rfl rfl
    · have htrail : (t.moved p actor ts row target).trail id = t.trail id := trail_snoc_of_ne rfl hid
      rw [htrail]
      exact h.path id r hold
  known audit haudit := by
    rcases List.mem_append.mp haudit with haudit | haudit
    · obtain ⟨ruleset, hruleset⟩ := h.known audit haudit
      obtain ⟨r', hr', -⟩ := get?_moved_of_get? hrow hruleset
      exact ⟨r', hr'⟩
    · obtain rfl := List.mem_singleton.mp haudit
      obtain ⟨r', hr', -⟩ := get?_moved_of_get? hrow hrow
      exact ⟨r', hr'⟩
  stored id r hr := by
    rcases of_get?_moved hrow hr with ⟨rfl, rfl⟩ | ⟨-, hold⟩
    · exact h.stored p.rulesetId row hrow
    · exact h.stored id r hold
  owned address blob hblob := by
    obtain ⟨id, r, hr, haddress⟩ := h.owned address blob hblob
    obtain ⟨r', hr', hsame⟩ := get?_moved_of_get? hrow hr
    exact ⟨id, r', hr', hsame.trans haddress⟩

/-- A denial is on no trail. -/
theorem Sound.denied (h : Sound sha256 t) (hrow : t.rulesets.get? p.rulesetId = some row) :
    Sound sha256 (t.denied p actor ts row target) where
  path id r hr := by
    have htrail : (t.denied p actor ts row target).trail id = t.trail id := by
      rw [trail_snoc rfl, if_neg (by simp [Promotion.denialRow]), List.append_nil]
    rw [htrail]
    exact h.path id r hr
  known audit haudit := by
    rcases List.mem_append.mp haudit with haudit | haudit
    · exact h.known audit haudit
    · obtain rfl := List.mem_singleton.mp haudit
      exact ⟨row, hrow⟩
  stored := h.stored
  owned := h.owned

end Moved

theorem Sound.commits {t t' : Tables} {k : Call} {res : Except RegistryError String}
    (h : Sound sha256 t) (hk : Commits sha256 t k res t') : Sound sha256 t' := by
  cases hk with
  | registered r d tenant hfresh => exact h.registered hfresh
  | moved p actor ts row target hlegal hallowed => exact h.moved hlegal.found hlegal.listed
  | denied p actor ts row target hlegal hdenied => exact h.denied hlegal.found

/-! ### What a step does to a row -/

/-- A row after a commit: it is as before, a draft that nobody promoted, or
    what a promotion has made of the row before. -/
inductive RowAfter (t : Tables) (k : Call) (id : String) (row : Ruleset) : Prop
  | same (h : t.rulesets.get? id = some row)
  | draft (hstatus : row.status = .draft) (hactor : row.promotedBy = none)
  | moved (p : Promotion) (actor ts : String) (old : Ruleset) (target : Status)
      (hk : k = .promote p) (hid : p.rulesetId = id) (h : Legal t p actor ts old target)
      (hallowed : p.authorize actor old.tenant target = .ok true)
      (hrow : row = old.setStatus target actor ts)

theorem Commits.row {t t' : Tables} {k : Call} {res : Except RegistryError String}
    (hk : Commits sha256 t k res t') {id : String} {row : Ruleset}
    (hrow : t'.rulesets.get? id = some row) : RowAfter t k id row := by
  cases hk with
  | registered r d tenant hfresh =>
    rcases of_get?_registered hrow with ⟨-, rfl⟩ | ⟨-, hold⟩
    · exact .draft rfl rfl
    · exact .same hold
  | moved p actor ts old target hlegal hallowed =>
    rcases of_get?_moved hlegal.found hrow with ⟨rfl, rfl⟩ | ⟨-, hsame⟩
    · exact .moved p actor ts old target rfl rfl hlegal hallowed rfl
    · exact .same hsame
  | denied p actor ts old target hlegal hdenied => exact .same hrow

/-- No promotion leads out of retired. -/
theorem Commits.retired {t t' : Tables} {k : Call} {res : Except RegistryError String}
    (hk : Commits sha256 t k res t') {id : String} {row : Ruleset}
    (hrow : t.rulesets.get? id = some row) (hretired : row.status = .retired) :
    t'.rulesets.get? id = some row := by
  cases hk with
  | registered r d tenant hfresh => exact get?_registered_of_get? hfresh hrow
  | moved p actor ts old target hlegal hallowed =>
    have hid : p.rulesetId ≠ id := by
      intro heq
      rw [← heq, hlegal.found] at hrow
      cases hrow
      have hlisted := hlegal.listed
      rw [hretired] at hlisted
      cases hlisted
    rw [get?_moved hlegal.found, if_neg hid, hrow]
  | denied p actor ts old target hlegal hdenied => exact hrow

/-! ### Runs -/

section Runs

variable {κ : Type} [DecidableEq κ]

variable (sha256) in
theorem tables_step (db : Database κ Tables) (i : Input κ) :
    (step sha256 db i).tables = db.tables ∨
      ∃ c k res, i = .call c k ∧ Commits sha256 db.tables k res (step sha256 db i).tables := by
  cases i with
  | close c => exact Or.inl (db.tables_close c)
  | call c k =>
    have hperformed := perform_cases sha256 db c k
    show (perform sha256 db c k).2.tables = db.tables ∨ _
    generalize hout : perform sha256 db c k = out at hperformed
    obtain ⟨res, db'⟩ := out
    have hstep : step sha256 db (.call c k) = db' := congrArg Prod.snd hout
    rw [hstep]
    cases hperformed with
    | raised e _ htables => exact Or.inl htables
    | committed _ t hk => exact Or.inr ⟨c, k, res, rfl, hk⟩

variable (sha256) in
theorem after_snoc (inputs : List (Input κ)) (i : Input κ) :
    after sha256 (inputs ++ [i]) = step sha256 (after sha256 inputs) i :=
  Machine.run_snoc _ _ inputs i

theorem sound_after (inputs : List (Input κ)) : Sound sha256 (after sha256 inputs).tables := by
  refine Machine.run_invariant (P := fun db : Database κ Tables => Sound sha256 db.tables) ?_ Sound.empty inputs
  intro db i h
  rcases tables_step sha256 db i with heq | ⟨c, k, res, -, hk⟩
  · rw [heq]
    exact h
  · exact h.commits hk

/-- A promotion of the run, after `pre` and before `post`, is the last that
    changed the status of this row. -/
structure ChangedLast (sha256 : Digest) (pre : List (Input κ)) (c : κ) (p : Promotion)
    (post : List (Input κ)) (row : Ruleset) : Prop where
  changed : ∃ actor ts old, Legal (after sha256 pre).tables p actor ts old row.status ∧
    old.id = row.id ∧ old.tenant = row.tenant ∧ old.status ≠ row.status ∧
    p.authorize actor row.tenant row.status = .ok true ∧ row.promotedBy = some actor
  since : ∀ mid, mid <+: post →
    get (after sha256 (pre ++ .call c (.promote p) :: mid)).tables row.id = some row

/-- The row is a draft that nobody promoted, or its status was changed last by
    a promotion that was allowed. -/
def Attributed (sha256 : Digest) (inputs : List (Input κ)) (row : Ruleset) : Prop :=
  row.status = .draft ∧ row.promotedBy = none ∨
    ∃ pre c p post, inputs = pre ++ .call c (.promote p) :: post ∧
      ChangedLast sha256 pre c p post row

/-- A step that leaves the row. -/
theorem Attributed.snoc {inputs : List (Input κ)} {i : Input κ} {row : Ruleset}
    (h : Attributed sha256 inputs row)
    (hrow : get (after sha256 (inputs ++ [i])).tables row.id = some row) :
    Attributed sha256 (inputs ++ [i]) row := by
  rcases h with hdraft | ⟨pre, c, p, post, rfl, h⟩
  · exact Or.inl hdraft
  · refine Or.inr ⟨pre, c, p, post ++ [i], by simp, { h with since := ?_ }⟩
    intro mid hmid
    rcases List.prefix_concat_iff.mp hmid with rfl | hmid
    · rw [List.append_assoc, List.cons_append] at hrow
      exact hrow
    · exact h.since mid hmid

theorem attributed_after (inputs : List (Input κ)) :
    ∀ id row, get (after sha256 inputs).tables id = some row → Attributed sha256 inputs row := by
  induction inputs using List.reverseRecOn with
  | nil =>
    intro id row hrow
    cases hrow
  | append_singleton inputs i ih =>
    intro id row hrow
    obtain rfl := Registry.keyOf_of_get? hrow
    have hstep := hrow
    rw [after_snoc] at hstep
    rcases tables_step sha256 (after sha256 inputs) i with heq | ⟨c, k, res, rfl, hk⟩
    · rw [heq] at hstep
      exact (ih row.id row hstep).snoc hrow
    · cases hk.row hstep with
      | same hsame => exact (ih row.id row hsame).snoc hrow
      | draft hstatus hactor => exact Or.inl ⟨hstatus, hactor⟩
      | moved p actor ts old target hcall hid hlegal hallowed heq =>
        subst hcall
        have hold : old.id = row.id := (Registry.keyOf_of_get? hlegal.found).trans hid
        have hstatus : row.status = target := by rw [heq]; rfl
        have htenant : old.tenant = row.tenant := by rw [heq]; rfl
        have hactor : row.promotedBy = some actor := by rw [heq]; rfl
        have hne : old.status ≠ row.status := by
          intro hsame
          have hlisted := hlegal.listed
          rw [hsame, hstatus] at hlisted
          exact self_notMem_transitions target hlisted
        rw [htenant, ← hstatus] at hallowed
        rw [← hstatus] at hlegal
        refine Or.inr ⟨inputs, c, p, [], rfl, ?_, ?_⟩
        · exact ⟨actor, ts, old, hlegal, hold, htenant, hne, hallowed, hactor⟩
        · intro mid hmid
          rw [List.prefix_nil.mp hmid]
          exact hrow

theorem retired_after (inputs more : List (Input κ)) {id : String} {row : Ruleset}
    (hrow : get (after sha256 inputs).tables id = some row) (hretired : row.status = .retired) :
    get (after sha256 (inputs ++ more)).tables id = some row := by
  rw [after, Machine.run_append]
  refine Machine.run_invariant (P := fun db : Database κ Tables => get db.tables id = some row) ?_ hrow more
  intro db i h
  rcases tables_step sha256 db i with heq | ⟨c, k, res, -, hk⟩
  · rw [heq]
    exact h
  · exact hk.retired h hretired

/-! ### The main theorem -/

/-- What holds after every run over the connections `κ`. -/
structure LifecycleHolds (sha256 : Digest) (κ : Type) [DecidableEq κ] : Prop where
  path : ∀ (inputs : List (Input κ)) id row, get (after sha256 inputs).tables id = some row →
    Path ((after sha256 inputs).tables.trail id) row.status
  attributed : ∀ (inputs : List (Input κ)) id row, get (after sha256 inputs).tables id = some row →
    Attributed sha256 inputs row
  retired : ∀ (inputs more : List (Input κ)) id row, get (after sha256 inputs).tables id = some row →
    row.status = .retired → get (after sha256 (inputs ++ more)).tables id = some row
  stored : ∀ (inputs : List (Input κ)) id row, get (after sha256 inputs).tables id = some row →
    ∃ blob, (after sha256 inputs).tables.bytes.get? row.sha256 = some blob ∧
      sha256.hexdigest blob.data = row.sha256
  owned : ∀ (inputs : List (Input κ)) address blob,
    (after sha256 inputs).tables.bytes.get? address = some blob →
      ∃ id row, get (after sha256 inputs).tables id = some row ∧ row.sha256 = address
  raised : ∀ (inputs : List (Input κ)) c k e db',
    perform sha256 (after sha256 inputs) c k = (.error e, db') →
      db'.tables = (after sha256 inputs).tables ∨
        ∃ p actor ts row target, k = .promote p ∧
          Legal (after sha256 inputs).tables p actor ts row target ∧
          p.authorize actor row.tenant target = .ok false ∧
          e = .unauthorized actor p.rulesetId row.status target ∧
          db'.tables = (after sha256 inputs).tables.denied p actor ts row target
  /-- a denial in which no statement raises leaves its audit row -/
  denied : ∀ (inputs : List (Input κ)) c p actor ts row target,
    (after sha256 inputs).holder = none → (∀ s, p.faults s = false) →
      Legal (after sha256 inputs).tables p actor ts row target →
      p.authorize actor row.tenant target = .ok false →
      perform sha256 (after sha256 inputs) c (.promote p) =
        (.error (.unauthorized actor p.rulesetId row.status target),
          { after sha256 inputs with
            tables := (after sha256 inputs).tables.denied p actor ts row target })

/-- The lifecycle of rulesets: their trails, bytes and statuses belong
    together after every run. -/
theorem lifecycle_holds (sha256 : Digest) (κ : Type) [DecidableEq κ] : LifecycleHolds sha256 κ where
  path inputs := (sound_after inputs).path
  attributed := attributed_after
  retired inputs more _ _ := retired_after inputs more
  stored inputs := (sound_after inputs).stored
  owned inputs := (sound_after inputs).owned
  raised _ _ _ _ _ := of_raised
  denied _ c _ _ _ _ _ := promote_denied c

end Runs

end YaraRegistry
