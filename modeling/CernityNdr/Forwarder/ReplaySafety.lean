import CernityNdr.Forwarder.Replay

/-! # Safety of Replay

    The proof that dead letters survive (`owed_recoverable`). It has three
    parts: a safe effect keeps the invariant and so does a crash inside it
    (`safe_apply`, `safe_tear`), every operation is a list of safe effects
    (`SafeRun`), and a replay attempts every owed obligation
    (`replayLoop_attempts`). -/

namespace FindingsForwarder

open Machine

variable {σ : Type} {name : String}

/-! ### The invariant -/

/-- The row says that its obligation is delivered. -/
def SaysDelivered (row : Json.Dict) : Prop := (row.get "outcome").str? = some "delivered"

/-- The entry holds a record of the obligation. -/
def EntryFor (name : String) (k : Key) (entry : Json.Dict) : Prop :=
  ∃ f : Item name, held name (.obj entry) = .item f ∧ f.key = k

/-- What the files say about the obligations that are owed. -/
structure DiskInv (name : String) (d : Disk) (owed : List Key) : Prop where
  tidy : Journal.Tidy d.ledger
  objects : ∀ v ∈ Journal.rows d.ledger, ∃ m, v = .obj m
  /-- the ledger does not call them delivered -/
  silent : ∀ k ∈ owed, ∀ m, .obj m ∈ Journal.rows d.ledger → ledgerKey m = k → ¬ SaysDelivered m
  /-- the dead-letter file can be read and has an entry for each -/
  entries : ∃ es, d.dlq = Journal.text es ∧ (∀ e ∈ es, held name (.obj e) ≠ .malformed) ∧
    ∀ k ∈ owed, ∃ e ∈ es, EntryFor name k e

/-- What the index of the running process says. -/
structure IndexInv (d : Disk) (outcomes : Outcomes) (owed : List Key) : Prop where
  known : ∀ m, .obj m ∈ Journal.rows d.ledger → (m.get "outcome").truthy = true →
    ledgerKey m ∈ outcomes.keys
  undelivered : ∀ k ∈ owed, isDelivered outcomes k = false

theorem isDelivered_eq_false {outcomes : Outcomes} {k : Key} :
    isDelivered outcomes k = false ↔
      ∀ o, outcomes.terminal k = some o → o.1.str? ≠ some "delivered" := by
  unfold isDelivered
  cases outcomes.terminal k with
  | none => simp
  | some o => simp

theorem SaysDelivered.truthy {row : Json.Dict} (h : SaysDelivered row) :
    (row.get "outcome").truthy = true := by
  unfold SaysDelivered at h
  cases hrow : row.get "outcome" with
  | str s =>
    rw [hrow] at h
    cases h
    decide
  | _ =>
    rw [hrow] at h
    cases h

/-- What the index learns from an effect. -/
def Effect.learned (outcomes : Outcomes) : Effect name → Outcomes
  | .ledger rows => outcomes.learnAll rows
  | .compact rows => Outcomes.learnAll Registry.empty rows
  | _ => outcomes

/-- An effect that hurts no obligation that is owed. -/
def Safe (d : Disk) (outcomes : Outcomes) (owed : List Key) : Effect name → Prop
  | .attempt _ _ => True
  | .ledger rows => ∀ row ∈ rows, Json.Tagged row ∧ (SaysDelivered row → ledgerKey row ∉ owed)
  | .deadLetter items _ => ∀ f ∈ items, outcomes.terminal f.key = none
  | .rewrite entries => (∀ e ∈ entries, held name (.obj e) ≠ .malformed) ∧
      ∀ k ∈ owed, ∃ e ∈ entries, EntryFor name k e
  | .compact rows => ∀ row ∈ rows, .obj row ∈ Journal.rows d.ledger

/-! ### The dead-letter file -/

/-- A record with members is found again in its entry. -/
theorem held_dlqLine (f : Item name) (err : String) (h : f.record.isEmpty = false) :
    held name (.obj (f.dlqLine err)) = .item f := by
  have hrecord : dlqRecord (f.dlqLine err) = .obj f.record := by
    unfold Item.dlqLine
    cases f.kind <;> rfl
  have htruthy : (Json.obj f.record).truthy = true := by
    simp [Json.truthy, h]
  unfold held heldRecord
  dsimp only
  rw [hrecord, if_pos htruthy]
  dsimp only
  split
  · next k hk =>
    have heq : f.key = k := Except.ok.inj (f.ok.symm.trans hk)
    cases f
    cases heq
    rfl
  · next e he =>
    have hok := f.ok
    rw [he] at hok
    cases hok

/-- No entry of the sink is malformed. -/
theorem held_dlqLine_ne (f : Item name) (err : String) :
    held name (.obj (f.dlqLine err)) ≠ .malformed := by
  by_cases h : f.record.isEmpty = true
  · have hrecord : dlqRecord (f.dlqLine err) = .obj [] := by
      unfold Item.dlqLine
      rw [List.isEmpty_iff.mp h]
      cases f.kind <;> rfl
    unfold held
    dsimp only
    rw [hrecord]
    intro hmal
    cases hmal
  · rw [held_dlqLine f err (by simpa using h)]
    intro hmal
    cases hmal

/-- A part of some lines that ends at a line break is the first of them. -/
theorem text_of_whole_prefix {ms : List Json.Dict} {p : List Char} (h : p <+: Journal.text ms)
    (hwhole : Text.Whole p) : ∃ written, p = Journal.text written ∧ written <+: ms := by
  obtain ⟨written, t, rfl, hw, ht⟩ := Journal.prefix_text h
  refine ⟨written, ?_, hw⟩
  rcases ht with rfl | ⟨m, -, ht⟩
  · rw [List.append_nil]
  · by_cases h0 : t = []
    · rw [h0, List.append_nil]
    · -- the rest of a line does not end with a line break
      exfalso
      have hlast : (Journal.text written ++ t).getLast? = some (t.getLast h0) := by
        rw [List.getLast?_append_of_ne_nil _ h0, List.getLast?_eq_some_getLast h0]
      have hmem : t.getLast h0 ∈ Json.dumps (.obj m) := ht.subset (List.getLast_mem h0)
      rcases hwhole with hnil | hnl
      · rw [hlast] at hnil
        cases hnil
      · rw [hlast, Option.some.injEq] at hnl
        rw [hnl] at hmem
        exact Json.newline_not_mem_dumps _ hmem

theorem text_append_entries {d : Disk} {owed : List Key} (h : DiskInv name d owed)
    {lines : List Json.Dict} (hlines : ∀ e ∈ lines, held name (.obj e) ≠ .malformed) :
    ∃ es, d.dlq ++ Journal.text lines = Journal.text es ∧
      (∀ e ∈ es, held name (.obj e) ≠ .malformed) ∧ (∀ e ∈ lines, e ∈ es) ∧
      ∀ k ∈ owed, ∃ e ∈ es, EntryFor name k e := by
  obtain ⟨es, hes, hwell, hfor⟩ := h.entries
  refine ⟨es ++ lines, ?_, ?_, fun e he => List.mem_append_right _ he, ?_⟩
  · rw [hes, Journal.text_append]
  · intro e he
    exact (List.mem_append.mp he).elim (hwell e) (hlines e)
  · intro k hk
    obtain ⟨e, he, hek⟩ := hfor k hk
    exact ⟨e, List.mem_append_left _ he, hek⟩

/-! ### One effect -/

/-- Fewer obligations are owed. -/
theorem DiskInv.mono {d : Disk} {owed owed' : List Key} (h : DiskInv name d owed)
    (hsub : ∀ k ∈ owed', k ∈ owed) : DiskInv name d owed' where
  tidy := h.tidy
  objects := h.objects
  silent := fun k hk => h.silent k (hsub k hk)
  entries := by
    obtain ⟨es, hes, hwell, hfor⟩ := h.entries
    exact ⟨es, hes, hwell, fun k hk => hfor k (hsub k hk)⟩

/-- Any part of an append to the ledger. -/
theorem DiskInv.append_ledger {d : Disk} {owed : List Key} (h : DiskInv name d owed)
    {rows : List Json.Dict}
    (hrows : ∀ row ∈ rows, Json.Tagged row ∧ (SaysDelivered row → ledgerKey row ∉ owed))
    {p : List Char} (hp : p <+: Journal.text rows) :
    DiskInv name { d with ledger := d.ledger ++ p } owed := by
  obtain ⟨htidy, hnew⟩ := h.tidy.append (fun m hm => (hrows m hm).1) hp
  refine ⟨htidy, ?_, ?_, h.entries⟩
  · intro v hv
    rcases hnew v hv with hv | ⟨m, -, hm⟩
    · exact h.objects v hv
    · exact ⟨m, hm⟩
  · intro k hk m hm hkey hsays
    rcases hnew _ hm with hm | ⟨m', hm', heq⟩
    · exact h.silent k hk m hm hkey hsays
    · cases heq
      exact (hrows m hm').2 hsays (hkey ▸ hk)

/-- The next process finds what the files say. -/
theorem DiskInv.load {d : Disk} {owed : List Key} (h : DiskInv name d owed) :
    ∃ outcomes, load d.ledger = some outcomes ∧ IndexInv d outcomes owed := by
  obtain ⟨ms, hms⟩ : ∃ ms : List Json.Dict, Journal.rows d.ledger = ms.map .obj := by
    have hobj : ∀ vs : List Json, (∀ v ∈ vs, ∃ m, v = Json.obj m) →
        ∃ ms : List Json.Dict, vs = ms.map .obj := by
      intro vs
      induction vs with
      | nil => exact fun _ => ⟨[], rfl⟩
      | cons v vs ih =>
        intro hvs
        obtain ⟨m, rfl⟩ := hvs v List.mem_cons_self
        obtain ⟨ms, rfl⟩ := ih fun w hw => hvs w (List.mem_cons_of_mem _ hw)
        exact ⟨m :: ms, rfl⟩
    exact hobj _ h.objects
  have hmem : ∀ m, m ∈ ms ↔ .obj m ∈ Journal.rows d.ledger := by
    intro m
    rw [hms, List.mem_map]
    constructor
    · exact fun hm => ⟨m, hm, rfl⟩
    · rintro ⟨m', hm', heq⟩
      cases heq
      exact hm'
  refine ⟨_, load_of_rows hms, ?_, ?_⟩
  · intro m hm htrue
    exact Outcomes.mem_keys_learnAll_of_mem ((hmem m).mpr hm) htrue _
  · intro k hk
    rw [isDelivered_eq_false]
    intro o ho hdel
    rcases Outcomes.terminal_learnAll_cases ho with hnone | ⟨row, hrow, hkey, hout⟩
    · cases hnone
    · refine h.silent k hk row ((hmem row).mp hrow) hkey ?_
      unfold SaysDelivered
      rw [hout]
      exact hdel

theorem mem_owed_attempt {given failed : List (Item name)} {owed : List Key} {k : Key} :
    k ∈ (Effect.attempt given failed).owe owed ↔
      k ∈ owed ∧ k ∉ keysOf (acceptedOf given failed) := by
  show k ∈ owed.filter _ ↔ _
  rw [List.mem_filter, decide_eq_true_eq]

/-- **A safe effect keeps the invariant.** -/
theorem safe_apply {d : Disk} {outcomes : Outcomes} {owed : List Key} {e : Effect name}
    (hd : DiskInv name d owed) (hi : IndexInv d outcomes owed) (hsafe : Safe d outcomes owed e)
    (hrep : e.Replayable) :
    DiskInv name (d.apply e) (e.owe owed) ∧ IndexInv (d.apply e) (e.learned outcomes)
      (e.owe owed) := by
  cases e with
  | attempt given failed =>
    have hsub : ∀ k ∈ (Effect.attempt given failed).owe owed, k ∈ owed :=
      fun k hk => (mem_owed_attempt.mp hk).1
    exact ⟨hd.mono hsub, hi.known, fun k hk => hi.undelivered k (hsub k hk)⟩
  | ledger rows =>
    -- no row says that an owed obligation is delivered
    refine ⟨hd.append_ledger hsafe List.prefix_rfl, ?_, ?_⟩
    · intro m hm htrue
      rcases (hd.tidy.append (fun r hr => (hsafe r hr).1) List.prefix_rfl).2 _ hm with
        hm | ⟨m', hm', heq⟩
      · exact Outcomes.mem_keys_learnAll (hi.known m hm htrue) rows
      · cases heq
        exact Outcomes.mem_keys_learnAll_of_mem hm' htrue outcomes
    · intro k hk
      rw [isDelivered_eq_false]
      intro o ho hdel
      rcases Outcomes.terminal_learnAll_cases ho with hold | ⟨row, hrow, hkey, hout⟩
      · exact isDelivered_eq_false.mp (hi.undelivered k hk) o hold hdel
      · refine (hsafe row hrow).2 ?_ (hkey ▸ hk)
        unfold SaysDelivered
        rw [hout]
        exact hdel
  | deadLetter items err =>
    have hlines : ∀ e ∈ items.map (Item.dlqLine err), held name (.obj e) ≠ .malformed := by
      intro e he
      obtain ⟨f, -, rfl⟩ := List.mem_map.mp he
      exact held_dlqLine_ne f err
    obtain ⟨es, hes, hwell, hnew, hold⟩ := text_append_entries hd hlines
    refine ⟨⟨hd.tidy, hd.objects, ?_, es, hes, hwell, ?_⟩, hi.known, ?_⟩
    · intro k hk m hm hkey hsays
      rcases List.mem_append.mp hk with hk | hk
      · exact hd.silent k hk m hm hkey hsays
      · -- an open obligation is in no row of the file
        obtain ⟨f, hf, rfl⟩ := mem_keysOf.mp hk
        exact Outcomes.terminal_eq_none.mp (hsafe f hf) (hkey ▸ hi.known m hm hsays.truthy)
    · intro k hk
      rcases List.mem_append.mp hk with hk | hk
      · exact hold k hk
      · obtain ⟨f, hf, rfl⟩ := mem_keysOf.mp hk
        exact ⟨f.dlqLine err, hnew _ (List.mem_map_of_mem hf), f,
          held_dlqLine f err (hrep f hf), rfl⟩
    · intro k hk
      rcases List.mem_append.mp hk with hk | hk
      · exact hi.undelivered k hk
      · obtain ⟨f, hf, rfl⟩ := mem_keysOf.mp hk
        rw [isDelivered_eq_false]
        intro o ho
        rw [show (Effect.deadLetter items err).learned outcomes = outcomes from rfl,
          hsafe f hf] at ho
        cases ho
  | rewrite entries =>
    exact ⟨⟨hd.tidy, hd.objects, hd.silent, entries, rfl, hsafe⟩, hi.known,
      hi.undelivered⟩
  | compact rows =>
    -- compaction only drops rows, and never says that something is delivered
    have hold : ∀ m, Json.obj m ∈ Journal.rows (Journal.text rows) →
        .obj m ∈ Journal.rows d.ledger ∧ m ∈ rows := by
      intro m hm
      rw [Journal.rows_text, List.mem_map] at hm
      obtain ⟨m', hm', heq⟩ := hm
      cases heq
      exact ⟨hsafe m hm', hm'⟩
    refine ⟨⟨Journal.tidy_of_whole (Journal.whole_text rows), ?_, ?_, hd.entries⟩, ?_, ?_⟩
    · intro v hv
      replace hv : v ∈ Journal.rows (Journal.text rows) := hv
      rw [Journal.rows_text, List.mem_map] at hv
      obtain ⟨m, -, rfl⟩ := hv
      exact ⟨m, rfl⟩
    · intro k hk m hm
      exact hd.silent k hk m (hold m hm).1
    · intro m hm htrue
      exact Outcomes.mem_keys_learnAll_of_mem (hold m hm).2 htrue _
    · intro k hk
      rw [isDelivered_eq_false]
      intro o ho hdel
      rcases Outcomes.terminal_learnAll_cases ho with hnone | ⟨row, hrow, hkey, hout⟩
      · cases hnone
      · refine hd.silent k hk row (hsafe row hrow) hkey ?_
        unfold SaysDelivered
        rw [hout]
        exact hdel

/-- **A crash inside a safe effect keeps what the files say**, if it does not
    hurt the dead-letter file. -/
theorem safe_tear {d : Disk} {outcomes : Outcomes} {owed : List Key} {e : Effect name} {n : Nat}
    (hd : DiskInv name d owed) (hsafe : Safe d outcomes owed e) (hcut : e.CutWell n) :
    DiskInv name (d.tear n e) owed := by
  cases e with
  | attempt given failed => exact hd
  | ledger rows => exact hd.append_ledger hsafe (List.take_prefix n _)
  | deadLetter items err =>
    -- whole lines, so the file still decodes
    obtain ⟨written, hw, hpre⟩ := text_of_whole_prefix (List.take_prefix n _) hcut
    have hlines : ∀ e ∈ written, held name (.obj e) ≠ .malformed := by
      intro e he
      obtain ⟨f, -, rfl⟩ := List.mem_map.mp (hpre.subset he)
      exact held_dlqLine_ne f err
    obtain ⟨es, hes, hwell, -, hold⟩ := text_append_entries hd hlines
    refine ⟨hd.tidy, hd.objects, hd.silent, es, ?_, hwell, hold⟩
    rw [← hes, ← hw]
    rfl
  | rewrite entries =>
    -- all of the new content
    refine ⟨hd.tidy, hd.objects, hd.silent, entries, ?_, hsafe⟩
    exact List.take_of_length_le hcut
  | compact rows => exact hd

/-! ### Lists of effects -/

/-- Every effect is safe where it happens. -/
def SafeRun (d : Disk) (outcomes : Outcomes) (owed : List Key) : List (Effect name) → Prop
  | [] => True
  | e :: effects => Safe d outcomes owed e ∧
      SafeRun (d.apply e) (e.learned outcomes) (e.owe owed) effects

theorem SafeRun.append {d : Disk} {outcomes : Outcomes} {owed : List Key}
    {as bs : List (Effect name)} (ha : SafeRun d outcomes owed as)
    (hb : SafeRun (as.foldl Disk.apply d) (as.foldl Effect.learned outcomes)
      (as.foldl Effect.owe owed) bs) : SafeRun d outcomes owed (as ++ bs) := by
  induction as generalizing d outcomes owed with
  | nil => exact hb
  | cons a as ih => exact ⟨ha.1, ih ha.2 hb⟩

/-- Safe effects keep the invariant. -/
theorem SafeRun.inv {d : Disk} {outcomes : Outcomes} {owed : List Key}
    {effects : List (Effect name)} (h : SafeRun d outcomes owed effects)
    (hrep : ∀ e ∈ effects, e.Replayable) (hd : DiskInv name d owed)
    (hi : IndexInv d outcomes owed) :
    DiskInv name (effects.foldl Disk.apply d) (effects.foldl Effect.owe owed) ∧
      IndexInv (effects.foldl Disk.apply d) (effects.foldl Effect.learned outcomes)
        (effects.foldl Effect.owe owed) := by
  induction effects generalizing d outcomes owed with
  | nil => exact ⟨hd, hi⟩
  | cons e effects ih =>
    obtain ⟨hd', hi'⟩ := safe_apply hd hi h.1 (hrep e List.mem_cons_self)
    exact ih h.2 (fun e' he' => hrep e' (List.mem_cons_of_mem e he')) hd' hi'

/-- A part of some safe effects, and the next one. -/
theorem SafeRun.take {d : Disk} {outcomes : Outcomes} {owed : List Key}
    {effects : List (Effect name)} (h : SafeRun d outcomes owed effects) (done : Nat) :
    SafeRun d outcomes owed (effects.take done) ∧
      ∀ e, effects[done]? = some e → Safe ((effects.take done).foldl Disk.apply d)
        ((effects.take done).foldl Effect.learned outcomes)
        ((effects.take done).foldl Effect.owe owed) e := by
  induction effects generalizing d outcomes owed done with
  | nil =>
    rw [List.take_nil]
    refine ⟨trivial, ?_⟩
    intro e he
    cases he
  | cons e effects ih =>
    cases done with
    | zero =>
      refine ⟨trivial, ?_⟩
      intro e' he'
      cases he'
      exact h.1
    | succ done =>
      obtain ⟨htake, hnext⟩ := ih h.2 done
      exact ⟨⟨h.1, htake⟩, hnext⟩

/-! ### Operations -/

/-- An operation whose effects are safe, and whose index follows them. -/
structure SafeOp (d : Disk) (owed : List Key) (sink sink' : Sink σ) (effects : List (Effect name)) :
    Prop where
  safe : SafeRun d sink.outcomes owed effects
  follows : effects.foldl Effect.learned sink.outcomes = sink'.outcomes

theorem SafeOp.refl (d : Disk) (owed : List Key) (sink : Sink σ) :
    SafeOp d owed sink sink ([] : List (Effect name)) := ⟨trivial, rfl⟩

theorem SafeOp.append {d : Disk} {owed : List Key} {sink sink₁ sink₂ : Sink σ}
    {as bs : List (Effect name)} (ha : SafeOp d owed sink sink₁ as)
    (hb : SafeOp (as.foldl Disk.apply d) (as.foldl Effect.owe owed) sink₁ sink₂ bs) :
    SafeOp d owed sink sink₂ (as ++ bs) where
  safe := ha.safe.append (by rw [ha.follows]; exact hb.safe)
  follows := by rw [List.foldl_append, ha.follows, hb.follows]

/-- Settling is safe: what is called delivered is not owed. -/
theorem settle_safe (cfg : SinkConfig) (d : Disk) (owed : List Key) (sink : Sink σ)
    (items : List (Item cfg.name)) (o : Outcome) (note : Option String) (ts : Nat → String)
    (h : o.1.str? = some "delivered" → ∀ k ∈ keysOf items, k ∉ owed) :
    SafeOp d owed sink (sink.settle cfg items o note ts).1 (sink.settle cfg items o note ts).2 := by
  rcases Sink.settle_effects cfg sink items o note ts with ⟨heff, hout⟩ | ⟨rows, heff, hout, hrows⟩
  · rw [heff]
    exact ⟨trivial, hout.symm⟩
  · rw [heff]
    refine ⟨⟨?_, trivial⟩, hout.symm⟩
    intro row hrow
    obtain ⟨hrowout, htagged, hkey⟩ := hrows row hrow
    refine ⟨htagged, fun hsays => h ?_ _ hkey⟩
    unfold SaysDelivered at hsays
    rwa [hrowout] at hsays

theorem attempt_safe {cfg : SinkConfig} (inner : Inner cfg.name σ) (d : Disk) (owed : List Key)
    (sink : Sink σ) (pending : List (Item cfg.name)) (note : Option String) (ts : Nat → String) :
    SafeOp d owed sink (sink.attempt cfg inner pending note ts).1
      (sink.attempt cfg inner pending note ts).2.1 := by
  have hsettle := settle_safe cfg d
    ((Effect.attempt pending ((inner.attempt sink.adapter pending).2.failed pending)).owe owed)
    { sink with adapter := (inner.attempt sink.adapter pending).1 }
    (acceptedOf pending ((inner.attempt sink.adapter pending).2.failed pending))
    asDelivered note ts (fun _ k hk howed => (mem_owed_attempt.mp howed).2 hk)
  exact ⟨⟨trivial, hsettle.safe⟩, hsettle.follows⟩

theorem deadLetter_safe {cfg : SinkConfig} (d : Disk) (owed : List Key) (sink : Sink σ)
    {pending : List (Item cfg.name)}
    (hopen : ∀ k ∈ keysOf pending, sink.outcomes.terminal k = none) (err : String)
    (ts : Nat → String) :
    SafeOp d owed sink (sink.deadLetter cfg pending err ts).1
      (sink.deadLetter cfg pending err ts).2 := by
  have hsettle := settle_safe cfg (d.apply (Effect.deadLetter pending err))
    ((Effect.deadLetter pending err).owe owed) sink pending asDeadLettered none ts
    (fun hdel => absurd hdel (by decide))
  exact ⟨⟨fun f hf => hopen f.key (key_mem_keysOf hf), hsettle.safe⟩, hsettle.follows⟩

theorem emitLoop_safe {cfg : SinkConfig} (inner : Inner cfg.name σ) (ts : Nat → Nat → String)
    (left : Nat) (d : Disk) (owed : List Key) (sink : Sink σ) (pending : List (Item cfg.name))
    (hnodup : (keysOf pending).Nodup)
    (hopen : ∀ k ∈ keysOf pending, sink.outcomes.terminal k = none) :
    SafeOp d owed sink (emitLoop cfg inner ts left sink pending).sink
      (emitLoop cfg inner ts left sink pending).effects := by
  induction left generalizing d owed sink pending with
  | zero => exact SafeOp.refl d owed sink
  | succ left ih =>
    have htry := attempt_safe inner d owed sink pending none (ts (left + 1))
    obtain ⟨hnodup₁, hopen₁⟩ := (attempt_spec inner sink hnodup none (Or.inr hopen)
      (ts (left + 1))).open hnodup hopen
    unfold emitLoop
    dsimp only
    split
    · exact htry
    split
    · exact htry.append (deadLetter_safe _ _ _ hopen₁ _ _)
    split
    · exact htry.append (ih _ _ _ _ hnodup₁ hopen₁)
    · exact htry

/-- Effects that leave the dead-letter file alone. -/
def Effect.Plain : Effect name → Prop
  | .attempt _ _ | .ledger _ => True
  | _ => False

theorem Effect.Plain.replayable {e : Effect name} (h : e.Plain) : e.Replayable := by
  cases e <;> first | exact h.elim | trivial

theorem dlq_of_plain {effects : List (Effect name)} (h : ∀ e ∈ effects, e.Plain) (d : Disk) :
    (effects.foldl Disk.apply d).dlq = d.dlq := by
  induction effects generalizing d with
  | nil => rfl
  | cons e effects ih =>
    rw [List.foldl_cons, ih (fun e' he' => h e' (List.mem_cons_of_mem e he'))]
    have he := h e List.mem_cons_self
    cases e <;> first | exact he.elim | rfl

theorem attempt_plain {cfg : SinkConfig} (inner : Inner cfg.name σ) (sink : Sink σ)
    (pending : List (Item cfg.name)) (note : Option String) (ts : Nat → String) :
    ∀ e ∈ (sink.attempt cfg inner pending note ts).2.1, e.Plain := by
  intro e he
  rcases List.mem_cons.mp he with rfl | he
  · trivial
  · obtain ⟨rows, rfl⟩ := Sink.settle_ledger _ _ _ _ _ _ e he
    trivial

theorem replayLoop_safe {cfg : SinkConfig} (inner : Inner cfg.name σ) (ts : Nat → Nat → String)
    (entries : List Json) (d : Disk) (owed : List Key) (sink : Sink σ) :
    SafeOp d owed sink (replayLoop cfg inner ts sink entries).sink
        (replayLoop cfg inner ts sink entries).effects ∧
      ∀ e ∈ (replayLoop cfg inner ts sink entries).effects, e.Plain := by
  induction entries generalizing d owed sink with
  | nil => exact ⟨SafeOp.refl d owed sink, fun e he => by cases he⟩
  | cons entry entries ih =>
    unfold replayLoop
    split
    · exact ⟨SafeOp.refl d owed sink, fun e he => by cases he⟩
    · exact ih d owed sink
    · next f _ =>
      split
      · exact ih d owed sink
      · have htry := attempt_safe inner d owed sink [f] (some "replay") (ts entries.length)
        have hplain := attempt_plain inner sink [f] (some "replay") (ts entries.length)
        obtain ⟨hrest, hrestplain⟩ := ih _ _ _
        refine ⟨htry.append hrest, ?_⟩
        intro e he
        exact (List.mem_append.mp he).elim (hplain e) (hrestplain e)

/-! ### Reading the dead-letter file -/

theorem lines_text (es : List Json.Dict) :
    Text.lines (Journal.text es) = es.map fun e => Json.dumps (.obj e) ++ ['\n'] := by
  induction es with
  | nil => rfl
  | cons e es ih =>
    rw [Journal.text_cons, Text.lines_append (Text.Whole.snoc _),
      Text.lines_snoc (Json.newline_not_mem_dumps _), ih]
    rfl

/-- The entries of a file of whole lines. -/
theorem dlqEntries_text (es : List Json.Dict) : dlqEntries (Journal.text es) = some (es.map .obj) := by
  have hline : ∀ e : Json.Dict, Text.strip (Json.dumps (.obj e) ++ ['\n']) ≠ [] ∧
      Json.loads (Json.dumps (.obj e) ++ ['\n']) = some (.obj e) := by
    intro e
    obtain ⟨body, hb⟩ := Json.dumps_obj e
    constructor
    · rw [Text.strip_append_space _ (by decide), Journal.strip_dumps, hb]
      simp
    · exact Json.loads_append_ws (Json.loads_dumps _) (by simp [Json.isWs])
  unfold dlqEntries
  rw [lines_text]
  induction es with
  | nil => rfl
  | cons e es ih =>
    rw [List.map_cons, List.filter_cons_of_pos (by simpa using (hline e).1), List.mapM_cons,
      (hline e).2, ih]
    rfl

theorem mem_keptEntries {cfg : SinkConfig} {outcomes : Outcomes} {entries : List Json}
    {e : Json.Dict} (h : e ∈ keptEntries cfg outcomes entries) : .obj e ∈ entries := by
  obtain ⟨entry, hentry, hkept⟩ := List.mem_filterMap.mp h
  have hobj : entry.obj? = some e := by
    dsimp only at hkept
    split at hkept
    · split at hkept
      · cases hkept
      · exact hkept
    · exact hkept
  cases entry with
  | obj ms =>
    cases hobj
    exact hentry
  | _ => cases hobj

/-- The entry of an obligation that is not delivered is kept. -/
theorem keptEntries_of_open {cfg : SinkConfig} {outcomes : Outcomes} {entries : List Json}
    {e : Json.Dict} {k : Key} (he : .obj e ∈ entries) (hfor : EntryFor cfg.name k e)
    (hopen : isDelivered outcomes k = false) : e ∈ keptEntries cfg outcomes entries := by
  obtain ⟨f, hf, rfl⟩ := hfor
  refine List.mem_filterMap.mpr ⟨.obj e, he, ?_⟩
  simp only [hf, hopen]
  rfl

/-! ### Every call is safe -/

/-- The loop of a replay, on the file it has read. -/
theorem replay_cases {cfg : SinkConfig} (inner : Inner cfg.name σ) (sink : Sink σ)
    (es : List Json.Dict) (ts : Nat → Nat → String) :
    ∃ rest, (sink.replay cfg inner (Journal.text es) ts).1 =
        (replayLoop cfg inner ts sink (es.map .obj)).sink ∧
      (sink.replay cfg inner (Journal.text es) ts).2 =
        (replayLoop cfg inner ts sink (es.map .obj)).effects ++ rest ∧
      (rest = [] ∨ rest = [.rewrite (keptEntries cfg
        (replayLoop cfg inner ts sink (es.map .obj)).sink.outcomes (es.map .obj))]) := by
  unfold Sink.replay
  rw [dlqEntries_text]
  dsimp only
  split
  · exact ⟨_, rfl, rfl, Or.inr rfl⟩
  · exact ⟨[], rfl, by rw [List.append_nil], Or.inl rfl⟩

/-- **A replay is safe**: it rewrites the file with an entry for everything that
    is still owed. -/
theorem replay_safe {cfg : SinkConfig} (inner : Inner cfg.name σ) {d : Disk} {owed : List Key}
    {sink : Sink σ} (hd : DiskInv cfg.name d owed) (hi : IndexInv d sink.outcomes owed)
    (ts : Nat → Nat → String) :
    SafeOp d owed sink (sink.replay cfg inner d.dlq ts).1 (sink.replay cfg inner d.dlq ts).2 := by
  obtain ⟨es, hes, hwell, -⟩ := hd.entries
  rw [hes]
  obtain ⟨rest, hsink, heffects, hrest⟩ := replay_cases inner sink es ts
  obtain ⟨hloop, hplain⟩ := replayLoop_safe inner ts (es.map .obj) d owed sink
  rw [hsink, heffects]
  refine hloop.append ?_
  rcases hrest with rfl | rfl
  · exact SafeOp.refl _ _ _
  · -- what is owed after the loop is not delivered, so its entry is kept
    obtain ⟨hd', hi'⟩ := hloop.safe.inv (fun e he => (hplain e he).replayable) hd hi
    rw [hloop.follows] at hi'
    refine ⟨⟨⟨?_, ?_⟩, trivial⟩, rfl⟩
    · intro e he
      obtain ⟨e', he', heq⟩ := List.mem_map.mp (mem_keptEntries he)
      cases heq
      exact hwell e he'
    · intro k hk
      obtain ⟨es', hes', -, hfor⟩ := hd'.entries
      rw [dlq_of_plain hplain, hes] at hes'
      obtain ⟨e, he, hek⟩ := hfor k hk
      refine ⟨e, keptEntries_of_open ?_ hek (hi'.undelivered k hk), hek⟩
      have hrows := congrArg Journal.rows hes'
      rw [Journal.rows_text, Journal.rows_text] at hrows
      rw [hrows]
      exact List.mem_map_of_mem he

theorem compactLedger_safe {cfg : SinkConfig} (d : Disk) (owed : List Key) (sink : Sink σ)
    (retain : Json.Dict → Bool) :
    SafeOp d owed sink (sink.compactLedger cfg d.ledger retain).1
      (sink.compactLedger cfg d.ledger retain).2 := by
  unfold Sink.compactLedger compact
  cases hrows : (Journal.rows d.ledger).mapM Json.obj? with
  | none => exact SafeOp.refl d owed sink
  | some rows =>
    refine ⟨⟨?_, trivial⟩, rfl⟩
    intro row hrow
    -- a row that is retained is a row of the file
    obtain ⟨v, hv, hobj⟩ := Option.exists_of_mem_mapM hrows (mem_compactRows hrow)
    cases v <;> cases hobj
    exact hv

theorem recordSuppressed_safe {cfg : SinkConfig} (d : Disk) (owed : List Key) (sink : Sink σ)
    (findings : List Json.Dict) (ts : Nat → String) :
    SafeOp d owed sink (sink.recordSuppressed cfg findings ts).1
      (sink.recordSuppressed cfg findings ts).2.1 := by
  refine ⟨⟨?_, trivial⟩, (writeLoop_outcomes ..).symm⟩
  intro row hrow
  obtain ⟨f, -, hfor⟩ := writeLoop_rows _ _ _ _ row hrow
  refine ⟨hfor.tagged, fun hsays => ?_⟩
  have hnot : asSuppressed.1.str? ≠ some "delivered" := by decide
  unfold SaysDelivered at hsays
  rw [hfor.outcome] at hsays
  exact absurd hsays hnot

theorem emitBatch_safe {cfg : SinkConfig} (inner : Inner cfg.name σ) (d : Disk) (owed : List Key)
    {sink : Sink σ} {batch : List Json.Dict} {ts : Nat → Nat → String} {r : Emitted σ cfg.name}
    (h : sink.emitBatch cfg inner batch ts = .ok r) :
    SafeOp d owed sink r.sink r.effects := by
  obtain ⟨items, hitems, -⟩ := Except.bind_eq_ok.mp h
  rw [emitBatch_eq inner sink hitems ts] at h
  obtain ⟨hnodup, hfresh⟩ := selectFresh_spec sink.outcomes items
  by_cases hnil : (selectFresh sink.outcomes items).isEmpty = true
  · rw [if_pos hnil] at h
    cases h
    exact SafeOp.refl d owed sink
  · rw [if_neg hnil] at h
    have hloop := emitLoop_safe inner ts (cfg.retries + 1).toNat d owed sink _ hnodup
      (fun k hk => ((hfresh k).mp hk).2)
    rw [Except.ok.inj h] at hloop
    exact hloop

/-- **Every call is a list of safe effects.** -/
theorem perform_safe {cfg : SinkConfig} (inner : Inner cfg.name σ) {w : World σ}
    (hd : DiskInv cfg.name w.disk w.owed) (hi : IndexInv w.disk w.sink.outcomes w.owed)
    (c : SinkCall) :
    SafeOp w.disk w.owed w.sink (w.perform cfg inner c).1 (w.perform cfg inner c).2 := by
  cases c with
  | emitBatch batch ts =>
    unfold World.perform
    dsimp only
    split
    · next r hr => exact emitBatch_safe inner _ _ hr
    · exact SafeOp.refl _ _ _
  | replay ts => exact replay_safe inner hd hi ts
  | compactLedger retain => exact compactLedger_safe _ _ _ retain
  | recordSuppressed findings ts => exact recordSuppressed_safe _ _ _ findings ts

/-! ### Every owed obligation is attempted -/

/-- The loop reaches the entry of an obligation that is not delivered, and
    attempts it there at the latest. -/
theorem replayLoop_attempts {cfg : SinkConfig} (inner : Inner cfg.name σ)
    (ts : Nat → Nat → String) {k : Key} (es : List Json.Dict)
    (hwell : ∀ e ∈ es, held cfg.name (.obj e) ≠ .malformed) (sink : Sink σ)
    (hopen : isDelivered sink.outcomes k = false) (hfor : ∃ e ∈ es, EntryFor cfg.name k e) :
    k ∈ handedKeys (replayLoop cfg inner ts sink (es.map .obj)).effects := by
  induction es generalizing sink with
  | nil =>
    obtain ⟨e, he, -⟩ := hfor
    cases he
  | cons e es ih =>
    have hwell' : ∀ e' ∈ es, held cfg.name (.obj e') ≠ .malformed :=
      fun e' he' => hwell e' (List.mem_cons_of_mem e he')
    have hlater : ¬ EntryFor cfg.name k e → ∃ e' ∈ es, EntryFor cfg.name k e' := by
      intro hnot
      obtain ⟨e', he', hfor'⟩ := hfor
      rcases List.mem_cons.mp he' with rfl | he'
      · exact absurd hfor' hnot
      · exact ⟨e', he', hfor'⟩
    rw [List.map_cons]
    unfold replayLoop
    split
    -- the replay does not raise
    · next hmal => exact absurd hmal (hwell e List.mem_cons_self)
    · next hnothing =>
      refine ih hwell' sink hopen (hlater ?_)
      rintro ⟨f, hf, -⟩
      rw [hnothing] at hf
      cases hf
    · next f hf =>
      by_cases hk : f.key = k
      · -- the entry of the obligation itself
        rw [if_neg (by rw [hk, hopen]; decide)]
        show k ∈ handedKeys (_ ++ _)
        rw [handedKeys_append]
        apply List.mem_append_left
        show k ∈ [f.key] ++ _
        simp [hk]
      · -- the entry of another one, which does not deliver this one
        have hnot : ¬ EntryFor cfg.name k e := by
          rintro ⟨g, hg, hgk⟩
          rw [hf] at hg
          cases hg
          exact hk hgk
        split
        · exact ih hwell' sink hopen (hlater hnot)
        · have htry := attempt_spec inner sink (show (keysOf [f]).Nodup by simp) (some "replay")
            (Or.inl (by simp)) (ts (es.map Json.obj).length)
          have hopen₁ : isDelivered (sink.attempt cfg inner [f] (some "replay")
              (ts (es.map Json.obj).length)).1.outcomes k = false := by
            have hacc : k ∉ keysOf (acceptedOf [f] ((sink.attempt cfg inner [f] (some "replay")
                (ts (es.map Json.obj).length)).2.2.failed [f])) := by
              intro hmem
              have := htry.split.subset (List.mem_append_left _ hmem)
              simp only [keysOf_cons, keysOf_nil, List.mem_singleton] at this
              exact hk this.symm
            unfold isDelivered at hopen ⊢
            rw [htry.terminal, if_neg hacc]
            exact hopen
          show k ∈ handedKeys (_ ++ _)
          rw [handedKeys_append]
          exact List.mem_append_right _ (ih hwell' _ hopen₁ (hlater hnot))

/-! ### Every run -/

/-- The invariant of a run. -/
def WorldInv (cfg : SinkConfig) (w : World σ) : Prop :=
  DiskInv cfg.name w.disk w.owed ∧ IndexInv w.disk w.sink.outcomes w.owed

theorem WorldInv.fresh (cfg : SinkConfig) (adapter : σ) : WorldInv cfg (World.fresh adapter) := by
  refine ⟨⟨Journal.tidy_of_whole Text.Whole.nil, ?_, ?_, [], rfl, ?_, ?_⟩, ?_, ?_⟩
  · intro v hv
    cases hv
  · intro k hk
    cases hk
  · intro e he
    cases he
  · intro k hk
    cases hk
  · intro m hm
    cases hm
  · intro k hk
    cases hk

theorem restart_inv {cfg : SinkConfig} {w : World σ} (hd : DiskInv cfg.name w.disk w.owed)
    (adapter : σ) : WorldInv cfg (w.restart adapter) := by
  obtain ⟨outcomes, hload, hi⟩ := hd.load
  unfold World.restart
  rw [hload]
  exact ⟨hd, hi⟩

theorem WorldInv.step {cfg : SinkConfig} (inner : Inner cfg.name σ) {w : World σ}
    (i : SinkInput σ) (hi : w.KeepsDeadLetters cfg inner i) (h : WorldInv cfg w) :
    WorldInv cfg (w.step cfg inner i) := by
  cases i with
  | call c =>
    have hop := perform_safe inner h.1 h.2 c
    have hinv := hop.safe.inv hi h.1 h.2
    rw [hop.follows] at hinv
    exact hinv
  | crash c done torn adapter =>
    obtain ⟨hrep, hcut⟩ := hi
    -- the effects that are complete, and then the one that has begun
    have hop := perform_safe inner h.1 h.2 c
    obtain ⟨htake, hnext⟩ := hop.safe.take done
    obtain ⟨hd', -⟩ := htake.inv hrep h.1 h.2
    apply restart_inv
    show DiskInv cfg.name (w.crashed cfg inner c done torn) _
    unfold World.crashed
    dsimp only
    split
    · next n e he => exact safe_tear hd' (hnext e he) (hcut _ rfl e he)
    · exact hd'
  | restart adapter => exact restart_inv h.1 adapter

theorem WorldInv.recoverable {cfg : SinkConfig} (inner : Inner cfg.name σ) {w : World σ}
    (h : WorldInv cfg w) : w.Recoverable cfg inner := by
  intro k hk
  obtain ⟨hd, hi⟩ := h
  obtain ⟨es, hes, hwell, hfor⟩ := hd.entries
  obtain ⟨e, he, f, hf, hkey⟩ := hfor k hk
  constructor
  · refine ⟨.obj e, ?_, f, hf, hkey⟩
    rw [hes, Journal.rows_text]
    exact List.mem_map_of_mem he
  · intro ts
    show k ∈ handedKeys (w.sink.replay cfg inner w.disk.dlq ts).2
    rw [hes]
    obtain ⟨rest, -, heffects, -⟩ := replay_cases inner w.sink es ts
    rw [heffects, handedKeys_append]
    exact List.mem_append_left _ (replayLoop_attempts inner ts es hwell w.sink
      (hi.undelivered k hk) ⟨e, he, f, hf, hkey⟩)

/-- **What is owed is kept and attempted**, in every run in which no record
    without members is dead-lettered and no crash leaves an unfinished line or
    a truncated file of dead letters. -/
theorem owed_recoverable (cfg : SinkConfig) (inner : Inner cfg.name σ) (adapter : σ)
    (is : List (SinkInput σ))
    (h : Meets (World.step cfg inner) (World.KeepsDeadLetters cfg inner) (World.fresh adapter) is) :
    (run (World.step cfg inner) (World.fresh adapter) is).Recoverable cfg inner :=
  (run_invariant_of_meets (fun _ i hi hinv => hinv.step inner i hi) (WorldInv.fresh cfg adapter)
    h).recoverable inner

/-! ### Runs with one crash -/

/-- A receiver that accepts one finding when it is up, and nothing when it is
    down. -/
def pickyInner (name : String) : Inner name Bool where
  attempt := fun up given =>
    (up, if up then .returned (given.filter fun f =>
        (f.record.get "finding_id").str? ≠ some "f1") else .raised "down")
  contract := by
    intro up given failed h
    cases up <;> cases h
    exact List.filter_sublist.subperm

/-- Findings arrive while the receiver is down. -/
def emitFindings (ids : List String) : SinkCall :=
  .emitBatch (ids.map sampleFinding) fun _ _ => "2026-01-01T00:00:00+00:00"

def replayAll : SinkCall := .replay fun _ _ => "2026-01-01T00:00:00+00:00"

/-- The process dies in the ledger, with both findings in the dead-letter
    file. -/
theorem owed_recoverable_tornLedger :
    (run (World.step (esSink 0) (pickyInner "es")) (World.fresh false)
      [.call (emitFindings ["f1"]), .crash (emitFindings ["f2"]) 2 (some 20) true]).Recoverable
        (esSink 0) (pickyInner "es") := by
  apply owed_recoverable
  apply Meets.cons
  · show ∀ e ∈ _, Effect.Replayable e
    decide +kernel
  apply Meets.cons
  · constructor
    · decide +kernel
    · intro n hn e he
      cases hn
      have hledger : (((World.step (esSink 0) (pickyInner "es") (World.fresh false)
          (.call (emitFindings ["f1"]))).perform (esSink 0) (pickyInner "es")
            (emitFindings ["f2"])).2[2]?).all (fun e => match e with
              | .ledger _ => true
              | _ => false) = true := by
        decide +kernel
      rw [he] at hledger
      cases e <;> trivial
  exact Meets.nil _ _ _

/-- The process dies while it appends the second finding to the dead-letter
    file. -/
def tornLine : World Bool :=
  run (World.step (esSink 0) (pickyInner "es")) (World.fresh false)
    [.call (emitFindings ["f1"]), .crash (emitFindings ["f2"]) 1 (some 20) true]

/-- The process dies between truncating and rewriting the dead-letter file. -/
def truncated : World Bool :=
  run (World.step (esSink 0) (pickyInner "es")) (World.fresh false)
    [.call (emitFindings ["f1", "f2"]), .restart true, .crash replayAll 3 (some 0) true]

/-- **Dead letters are lost.** After the unfinished line the replay raises and
    attempts nothing; after the truncation there is no entry left. -/
theorem crash_loses_deadLetters :
    ¬ tornLine.Recoverable (esSink 0) (pickyInner "es") ∧
      ¬ truncated.Recoverable (esSink 0) (pickyInner "es") := by
  constructor
  · intro h
    have howed : tornLine.owed ≠ [] := by decide +kernel
    have hnone : handedKeys (tornLine.perform (esSink 0) (pickyInner "es") replayAll).2 = [] := by
      decide +kernel
    obtain ⟨k, hk⟩ := List.exists_mem_of_ne_nil _ howed
    have hhanded := (h k hk).2 fun _ _ => "2026-01-01T00:00:00+00:00"
    rw [show SinkCall.replay _ = replayAll from rfl, hnone] at hhanded
    cases hhanded
  · intro h
    have howed : truncated.owed ≠ [] := by decide +kernel
    have hempty : truncated.disk.dlq = [] := by decide +kernel
    obtain ⟨k, hk⟩ := List.exists_mem_of_ne_nil _ howed
    obtain ⟨entry, hentry, -⟩ := (h k hk).1
    rw [hempty] at hentry
    cases hentry

end FindingsForwarder
