import Mathlib.Data.List.Perm.Subperm
import CernityNdr.Forwarder.Sink

/-! # One Outcome per Obligation

    What `emit_batch` makes of a batch, for any behaviour of the inner
    adapter: every obligation of the batch gets an outcome, nothing is
    handed to the adapter that had one, nothing is handed to it again once
    accepted, and the dead-letter file gets what was never accepted
    (`Disposed`).

    The argument is about one pass of the loop: what is pending is split into
    what the attempt accepted and what goes on (`accepted_append_failed`). So
    the accepted and the dead-lettered keys together are a rearrangement of
    the pending ones (`emitLoop_spec`), unless no attempt is made at all or a
    wait between two attempts raises (`emitLoop_returned_iff`). -/

namespace FindingsForwarder

variable {σ : Type} {name : String}

/-! ### What the effects say -/

namespace Effect

/-- The obligations that the adapter is handed. -/
def handed : Effect name → List Key
  | .attempt given _ => keysOf given
  | _ => []

/-- The obligations that the adapter accepts. -/
def accepted : Effect name → List Key
  | .attempt given failed => keysOf (acceptedOf given failed)
  | _ => []

/-- The obligations that go to the dead-letter file. -/
def dead : Effect name → List Key
  | .deadLetter items _ => keysOf items
  | _ => []

end Effect

def handedKeys (effects : List (Effect name)) : List Key := effects.flatMap Effect.handed

def acceptedKeys (effects : List (Effect name)) : List Key := effects.flatMap Effect.accepted

def deadKeys (effects : List (Effect name)) : List Key := effects.flatMap Effect.dead

/-- Nothing that was accepted is handed over later. -/
def AcceptedOnce (effects : List (Effect name)) : Prop :=
  effects.Pairwise fun e later => ∀ k ∈ e.accepted, k ∉ later.handed

/-- The obligations of a batch. -/
def batchKeys (name : String) (batch : List Json.Dict) : List Key :=
  batch.filterMap fun record => (recordKey record name).toOption

/-- What delivering a batch with these obligations must come to. -/
structure Disposed (keys : List Key) (sink sink' : Sink σ) (effects : List (Effect name)) :
    Prop where
  /-- every obligation has exactly one outcome -/
  terminal : ∀ k ∈ keys, ∃! o, sink'.outcomes.terminal k = some o
  /-- outcomes that were there before stay, and are not delivered again -/
  kept : ∀ k o, sink.outcomes.terminal k = some o →
    sink'.outcomes.terminal k = some o ∧ k ∉ handedKeys effects
  /-- nothing is handed over again after it was accepted -/
  once : AcceptedOnce effects
  /-- each obligation is accepted or dead-lettered at most once -/
  distinct : (acceptedKeys effects ++ deadKeys effects).Nodup
  /-- what is accepted are obligations of the batch, and is recorded so -/
  accepted : ∀ k ∈ acceptedKeys effects, k ∈ keys ∧ sink.outcomes.terminal k = none ∧
    sink'.outcomes.terminal k = some asDelivered
  /-- what is dead-lettered are the open obligations that were never accepted -/
  dead : ∀ k, k ∈ deadKeys effects ↔
    k ∈ keys ∧ sink.outcomes.terminal k = none ∧ k ∉ acceptedKeys effects
  recordedDead : ∀ k ∈ deadKeys effects, sink'.outcomes.terminal k = some asDeadLettered
  delivered : sink'.delivered = sink.delivered + (acceptedKeys effects).length
  deadLettered : sink'.deadLettered = sink.deadLettered + (deadKeys effects).length

/-! ### One attempt -/

/-- The ledger is not the receiver. -/
theorem ledger_effects {effects : List (Effect name)} (h : ∀ e ∈ effects, ∃ rows, e = .ledger rows) :
    handedKeys effects = [] ∧ acceptedKeys effects = [] ∧ deadKeys effects = [] := by
  refine ⟨?_, ?_, ?_⟩ <;>
    · apply List.flatMap_eq_nil_iff.mpr
      intro e he
      obtain ⟨rows, rfl⟩ := h e he
      rfl

theorem keysOf_acceptedOf (pending failed : List (Item name)) :
    keysOf (acceptedOf pending failed) = (keysOf pending).filter (· ∉ keysOf failed) := by
  unfold keysOf acceptedOf
  rw [List.filter_map]
  rfl

/-- **What is pending is accepted or goes on.** -/
theorem accepted_append_failed {pending failed : List (Item name)}
    (hnodup : (keysOf pending).Nodup) (hsub : failed.Subperm pending) :
    (keysOf (acceptedOf pending failed) ++ keysOf failed).Perm (keysOf pending) := by
  have hkeys : (keysOf failed).Subperm (keysOf pending) := by
    obtain ⟨l, hperm, hl⟩ := hsub
    exact ⟨keysOf l, hperm.map Item.key, hl.map Item.key⟩
  have hfailed : (keysOf failed).Nodup := by
    obtain ⟨l, hperm, hl⟩ := hkeys
    exact hperm.nodup_iff.mp (hnodup.sublist hl)
  -- both lists have distinct keys, so it is enough to compare members
  rw [keysOf_acceptedOf, List.perm_ext_iff_of_nodup _ hnodup]
  · intro k
    rw [List.mem_append, List.mem_filter, decide_eq_true_eq]
    constructor
    · rintro (⟨hk, -⟩ | hk)
      · exact hk
      · exact hkeys.subset hk
    · intro hk
      by_cases hf : k ∈ keysOf failed
      · exact Or.inr hf
      · exact Or.inl ⟨hk, hf⟩
  · rw [List.nodup_append]
    refine ⟨hnodup.filter _, hfailed, ?_⟩
    rintro k hk _ hf rfl
    rw [List.mem_filter, decide_eq_true_eq] at hk
    exact hk.2 hf

theorem failed_subperm {cfg : SinkConfig} (inner : Inner cfg.name σ) (s : σ)
    (given : List (Item cfg.name)) : ((inner.attempt s given).2.failed given).Subperm given := by
  cases h : (inner.attempt s given).2 with
  | raised err => exact List.Subperm.refl given
  | returned failed => exact inner.contract s given failed h

/-- One attempt: what it did, and what it leaves pending. -/
structure Attempted (cfg : SinkConfig) (sink : Sink σ) (pending failed : List (Item cfg.name))
    (sink' : Sink σ) (effects : List (Effect cfg.name)) : Prop where
  split : (keysOf (acceptedOf pending failed) ++ keysOf failed).Perm (keysOf pending)
  effects : ∃ recorded, effects = .attempt pending failed :: recorded ∧
    ∀ e ∈ recorded, ∃ rows, e = .ledger rows
  terminal : ∀ k, sink'.outcomes.terminal k =
    if k ∈ keysOf (acceptedOf pending failed) then some asDelivered else sink.outcomes.terminal k
  delivered : sink'.delivered = sink.delivered + (acceptedOf pending failed).length
  deadLettered : sink'.deadLettered = sink.deadLettered

theorem attempt_spec {cfg : SinkConfig} (inner : Inner cfg.name σ) (sink : Sink σ)
    {pending : List (Item cfg.name)} (hnodup : (keysOf pending).Nodup)
    (note : Option String)
    (hopen : note ≠ none ∨ ∀ k ∈ keysOf pending, sink.outcomes.terminal k = none)
    (ts : Nat → String) :
    Attempted cfg sink pending ((sink.attempt cfg inner pending note ts).2.2.failed pending)
      (sink.attempt cfg inner pending note ts).1 (sink.attempt cfg inner pending note ts).2.1 := by
  have hsplit := accepted_append_failed hnodup (failed_subperm inner sink.adapter pending)
  have hsettle : note ≠ none ∨
      ((keysOf (acceptedOf pending ((inner.attempt sink.adapter pending).2.failed pending))).Nodup ∧
        ∀ k ∈ keysOf (acceptedOf pending ((inner.attempt sink.adapter pending).2.failed pending)),
          sink.outcomes.terminal k = none) := by
    refine hopen.imp id (fun hopen => ⟨?_, ?_⟩)
    · exact (List.nodup_append.mp (hsplit.nodup_iff.mpr hnodup)).1
    · intro k hk
      exact hopen k (hsplit.subset (List.mem_append_left _ hk))
  have hcount := Sink.settle_counters cfg
    ({ sink with adapter := (inner.attempt sink.adapter pending).1 } : Sink σ)
    (acceptedOf pending ((inner.attempt sink.adapter pending).2.failed pending)) asDelivered note ts
  refine ⟨hsplit, ⟨_, rfl, Sink.settle_ledger _ _ _ _ _ _⟩, ?_, ?_, ?_⟩
  · intro k
    exact Sink.settle_terminal cfg { sink with adapter := (inner.attempt sink.adapter pending).1 }
      _ asDelivered note ts hsettle k
  · exact congrArg (· + (acceptedOf pending
      ((inner.attempt sink.adapter pending).2.failed pending)).length) hcount.1
  · exact hcount.2.1

/-! ### The loop -/

theorem handedKeys_append (as bs : List (Effect name)) :
    handedKeys (as ++ bs) = handedKeys as ++ handedKeys bs := List.flatMap_append

theorem acceptedKeys_append (as bs : List (Effect name)) :
    acceptedKeys (as ++ bs) = acceptedKeys as ++ acceptedKeys bs := List.flatMap_append

theorem deadKeys_append (as bs : List (Effect name)) :
    deadKeys (as ++ bs) = deadKeys as ++ deadKeys bs := List.flatMap_append

/-- What the effects of one attempt say. -/
theorem Attempted.keys {cfg : SinkConfig} {sink sink' : Sink σ}
    {pending failed : List (Item cfg.name)} {effects : List (Effect cfg.name)}
    (h : Attempted cfg sink pending failed sink' effects) :
    handedKeys effects = keysOf pending ∧
      acceptedKeys effects = keysOf (acceptedOf pending failed) ∧ deadKeys effects = [] := by
  obtain ⟨recorded, rfl, hrec⟩ := h.effects
  obtain ⟨hhanded, haccepted, hdead⟩ := ledger_effects hrec
  refine ⟨?_, ?_, ?_⟩
  · show keysOf pending ++ handedKeys recorded = _
    rw [hhanded, List.append_nil]
  · show keysOf (acceptedOf pending failed) ++ acceptedKeys recorded = _
    rw [haccepted, List.append_nil]
  · show [] ++ deadKeys recorded = _
    rw [hdead, List.append_nil]

/-- What follows an attempt may hand over what the attempt did not accept. -/
theorem Attempted.once {cfg : SinkConfig} {sink sink' : Sink σ}
    {pending failed : List (Item cfg.name)} {effects rest : List (Effect cfg.name)}
    (h : Attempted cfg sink pending failed sink' effects) (hnodup : (keysOf pending).Nodup)
    (hrest : ∀ k ∈ handedKeys rest, k ∈ keysOf failed) (honce : AcceptedOnce rest) :
    AcceptedOnce (effects ++ rest) := by
  have hdisjoint := (List.nodup_append.mp (h.split.nodup_iff.mpr hnodup)).2.2
  obtain ⟨recorded, rfl, hrec⟩ := h.effects
  have hrecorded : ∀ e ∈ recorded, ∀ later : Effect cfg.name, ∀ k ∈ e.accepted, k ∉ later.handed := by
    intro e he later k hk
    obtain ⟨rows, rfl⟩ := hrec e he
    cases hk
  unfold AcceptedOnce
  rw [List.cons_append, List.pairwise_cons, List.pairwise_append]
  -- the attempt against all that follows, then the rows it recorded
  refine ⟨?_, ?_, honce, fun e he later _ => hrecorded e he later⟩
  · intro later hlater k hk hk'
    rcases List.mem_append.mp hlater with hlater | hlater
    · obtain ⟨rows, rfl⟩ := hrec later hlater
      cases hk'
    · have hfailed := hrest k (List.mem_flatMap.mpr ⟨later, hlater, hk'⟩)
      exact hdisjoint k hk k hfailed rfl
  · exact List.pairwise_of_forall_mem_list fun e he later _ => hrecorded e he later

/-- What the attempts come to for the pending records. -/
structure LoopDone (sink : Sink σ) (pending : List (Item name)) (sink' : Sink σ)
    (effects : List (Effect name)) : Prop where
  split : (acceptedKeys effects ++ deadKeys effects).Perm (keysOf pending)
  handed : ∀ k ∈ handedKeys effects, k ∈ keysOf pending
  once : AcceptedOnce effects
  terminal : ∀ k, sink'.outcomes.terminal k =
    if k ∈ acceptedKeys effects then some asDelivered
    else if k ∈ deadKeys effects then some asDeadLettered else sink.outcomes.terminal k
  delivered : sink'.delivered = sink.delivered + (acceptedKeys effects).length
  deadLettered : sink'.deadLettered = sink.deadLettered + (deadKeys effects).length

/-- What is left after the last attempt goes to the dead-letter file. -/
theorem deadLetter_spec {cfg : SinkConfig} {sink : Sink σ} {pending : List (Item cfg.name)}
    (hnodup : (keysOf pending).Nodup)
    (hopen : ∀ k ∈ keysOf pending, sink.outcomes.terminal k = none) (err : String)
    (ts : Nat → String) :
    LoopDone sink pending (sink.deadLetter cfg pending err ts).1
      (sink.deadLetter cfg pending err ts).2 := by
  have hcount := Sink.settle_counters cfg sink pending asDeadLettered none ts
  obtain ⟨hhanded, haccepted, hdead⟩ :=
    ledger_effects (Sink.settle_ledger cfg sink pending asDeadLettered none ts)
  have hacc : acceptedKeys (sink.deadLetter cfg pending err ts).2 = [] := by
    show [] ++ acceptedKeys (sink.settle cfg pending asDeadLettered none ts).2 = _
    rw [haccepted, List.append_nil]
  have hdeadk : deadKeys (sink.deadLetter cfg pending err ts).2 = keysOf pending := by
    show keysOf pending ++ deadKeys (sink.settle cfg pending asDeadLettered none ts).2 = _
    rw [hdead, List.append_nil]
  have hhand : handedKeys (sink.deadLetter cfg pending err ts).2 = [] := by
    show [] ++ handedKeys (sink.settle cfg pending asDeadLettered none ts).2 = _
    rw [hhanded, List.append_nil]
  refine ⟨?_, ?_, ?_, ?_, ?_, ?_⟩
  · rw [hacc, hdeadk, List.nil_append]
  · rw [hhand]
    intro k hk
    cases hk
  · unfold AcceptedOnce
    -- no effect of it accepts anything
    refine List.pairwise_of_forall_mem_list fun e he later _ k hk => ?_
    have hmem : k ∈ acceptedKeys (sink.deadLetter cfg pending err ts).2 :=
      List.mem_flatMap.mpr ⟨e, he, hk⟩
    rw [hacc] at hmem
    cases hmem
  · intro k
    rw [hacc, hdeadk, if_neg (by simp)]
    exact Sink.settle_terminal _ _ _ _ _ _ (Or.inr ⟨hnodup, hopen⟩) k
  · rw [hacc]
    exact hcount.1
  · rw [hdeadk, keysOf, List.length_map]
    exact congrArg (· + pending.length) hcount.2.1

theorem LoopDone.nil (sink : Sink σ) : LoopDone sink ([] : List (Item name)) sink [] where
  split := List.Perm.nil
  handed := by
    intro k hk
    cases hk
  once := List.Pairwise.nil
  terminal := fun _ => rfl
  delivered := rfl
  deadLettered := rfl

/-- **One pass of the loop**: an attempt, and what becomes of what it did not
    accept. -/
theorem Attempted.then {cfg : SinkConfig} {sink sink₁ sink₂ : Sink σ}
    {pending failed : List (Item cfg.name)} {tried rest : List (Effect cfg.name)}
    (h : Attempted cfg sink pending failed sink₁ tried) (hnodup : (keysOf pending).Nodup)
    (hrest : LoopDone sink₁ failed sink₂ rest) : LoopDone sink pending sink₂ (tried ++ rest) := by
  obtain ⟨hhanded, haccepted, hdead⟩ := h.keys
  have hdisjoint := (List.nodup_append.mp (h.split.nodup_iff.mpr hnodup)).2.2
  have hfailed : ∀ k ∈ keysOf failed, k ∈ keysOf pending :=
    fun k hk => h.split.subset (List.mem_append_right _ hk)
  have hrestfailed : ∀ k, k ∈ acceptedKeys rest ∨ k ∈ deadKeys rest → k ∈ keysOf failed :=
    fun k hk => hrest.split.subset (List.mem_append.mpr hk)
  refine ⟨?_, ?_, h.once hnodup hrest.handed hrest.once, ?_, ?_, ?_⟩
  · rw [acceptedKeys_append, deadKeys_append, haccepted, hdead, List.nil_append, List.append_assoc]
    exact (hrest.split.append_left _).trans h.split
  · intro k hk
    rw [handedKeys_append, hhanded, List.mem_append] at hk
    exact hk.elim id (fun hk => hfailed k (hrest.handed k hk))
  · intro k
    rw [hrest.terminal, h.terminal, acceptedKeys_append, deadKeys_append, haccepted, hdead,
      List.nil_append]
    by_cases hk : k ∈ keysOf (acceptedOf pending failed)
    · -- what this attempt accepted does not go on
      have hnot : k ∉ keysOf failed := fun hf => hdisjoint k hk k hf rfl
      rw [if_neg (fun ha => hnot (hrestfailed k (Or.inl ha))),
        if_neg (fun hd => hnot (hrestfailed k (Or.inr hd))), if_pos hk,
        if_pos (List.mem_append_left _ hk)]
    · -- so the rest of the loop decides
      rw [if_neg hk]
      by_cases ha : k ∈ acceptedKeys rest
      · rw [if_pos ha, if_pos (List.mem_append_right _ ha)]
      · have hnot : k ∉ keysOf (acceptedOf pending failed) ++ acceptedKeys rest := by
          rw [List.mem_append]
          exact not_or.mpr ⟨hk, ha⟩
        rw [if_neg ha, if_neg hnot]
  · rw [hrest.delivered, h.delivered, acceptedKeys_append, haccepted, List.length_append, keysOf,
      List.length_map]
    omega
  · rw [hrest.deadLettered, h.deadLettered, deadKeys_append, hdead]
    rfl

/-- An attempt that leaves nothing pending. -/
theorem Attempted.finished {cfg : SinkConfig} {sink sink₁ : Sink σ}
    {pending failed : List (Item cfg.name)} {tried : List (Effect cfg.name)}
    (h : Attempted cfg sink pending failed sink₁ tried) (hnodup : (keysOf pending).Nodup)
    (hnil : failed.isEmpty = true) : LoopDone sink pending sink₁ tried := by
  rw [List.isEmpty_iff.mp hnil] at h
  have hdone := h.then hnodup (LoopDone.nil sink₁)
  rwa [List.append_nil] at hdone

/-- After an attempt the obligations that go on are still open. -/
theorem Attempted.open {cfg : SinkConfig} {sink sink₁ : Sink σ}
    {pending failed : List (Item cfg.name)} {tried : List (Effect cfg.name)}
    (h : Attempted cfg sink pending failed sink₁ tried) (hnodup : (keysOf pending).Nodup)
    (hopen : ∀ k ∈ keysOf pending, sink.outcomes.terminal k = none) :
    (keysOf failed).Nodup ∧ ∀ k ∈ keysOf failed, sink₁.outcomes.terminal k = none := by
  obtain ⟨-, hfailed, hdisjoint⟩ := List.nodup_append.mp (h.split.nodup_iff.mpr hnodup)
  refine ⟨hfailed, fun k hk => ?_⟩
  rw [h.terminal, if_neg (fun hk' => hdisjoint k hk' k hk rfl)]
  exact hopen k (h.split.subset (List.mem_append_right _ hk))

/-- **The attempts settle everything that is pending**, if there is one attempt
    at least and no wait between them raises. -/
theorem emitLoop_spec {cfg : SinkConfig} (inner : Inner cfg.name σ) (ts : Nat → Nat → String)
    (left : Nat) (sink : Sink σ) (pending : List (Item cfg.name))
    (hnodup : (keysOf pending).Nodup)
    (hopen : ∀ k ∈ keysOf pending, sink.outcomes.terminal k = none)
    (hreturned : (emitLoop cfg inner ts (left + 1) sink pending).raised = false) :
    LoopDone sink pending (emitLoop cfg inner ts (left + 1) sink pending).sink
      (emitLoop cfg inner ts (left + 1) sink pending).effects := by
  induction left generalizing sink pending with
  | zero =>
    have htry := attempt_spec inner sink hnodup none (Or.inr hopen) (ts 1)
    obtain ⟨hnodup₁, hopen₁⟩ := htry.open hnodup hopen
    unfold emitLoop
    dsimp only
    split
    · next hnil => exact htry.finished hnodup hnil
    · -- the last attempt: what it did not accept is dead-lettered
      rw [if_pos rfl]
      exact htry.then hnodup (deadLetter_spec hnodup₁ hopen₁ _ _)
  | succ left ih =>
    have htry := attempt_spec inner sink hnodup none (Or.inr hopen) (ts (left + 1 + 1))
    obtain ⟨hnodup₁, hopen₁⟩ := htry.open hnodup hopen
    unfold emitLoop at hreturned ⊢
    dsimp only at hreturned ⊢
    split at hreturned
    · next hnil =>
      rw [if_pos hnil]
      exact htry.finished hnodup hnil
    · next hnil =>
      rw [if_neg (Nat.succ_ne_zero left)] at hreturned
      rw [if_neg hnil, if_neg (Nat.succ_ne_zero left)]
      split at hreturned
      · next hwait =>
        rw [if_pos hwait]
        exact htry.then hnodup (ih _ _ hnodup₁ hopen₁ hreturned)
      · cases hreturned

/-- What an adapter has not accepted after so many attempts, each with what the
    one before left. -/
def unresolved {name : String} (inner : Inner name σ) : Nat → σ → List (Item name) → List (Item name)
  | 0, _, pending => pending
  | n + 1, s, pending =>
    unresolved inner n (inner.attempt s pending).1 ((inner.attempt s pending).2.failed pending)

theorem unresolved_nil {name : String} (inner : Inner name σ) (n : Nat) (s : σ) :
    unresolved inner n s [] = [] := by
  induction n generalizing s with
  | zero => rfl
  | succ n ih =>
    have hnil : (inner.attempt s []).2.failed [] = [] := by
      cases h : (inner.attempt s []).2 with
      | raised err => rfl
      | returned failed => exact List.subperm_nil.mp (inner.contract s [] failed h)
    rw [unresolved, hnil, ih]

theorem attempt_adapter {cfg : SinkConfig} (inner : Inner cfg.name σ) (sink : Sink σ)
    (pending : List (Item cfg.name)) (note : Option String) (ts : Nat → String) :
    (sink.attempt cfg inner pending note ts).1.adapter = (inner.attempt sink.adapter pending).1 :=
  (Sink.settle_counters cfg
    ({ sink with adapter := (inner.attempt sink.adapter pending).1 } : Sink σ) _ _ note ts).2.2

/-- **When no wait raises**: nothing is pending at a wait that would. -/
theorem emitLoop_returned_iff {cfg : SinkConfig} (inner : Inner cfg.name σ)
    (ts : Nat → Nat → String) (left : Nat) (sink : Sink σ) (pending : List (Item cfg.name)) :
    (emitLoop cfg inner ts (left + 1) sink pending).raised = false ↔
      ∀ n < left, cfg.waits (cfg.retries.toNat - (left - n)) = false →
        unresolved inner (n + 1) sink.adapter pending = [] := by
  induction left generalizing sink pending with
  | zero =>
    unfold emitLoop
    dsimp only
    split
    · exact iff_of_true rfl fun n hn => absurd hn (Nat.not_lt_zero n)
    · rw [if_pos rfl]
      exact iff_of_true rfl fun n hn => absurd hn (Nat.not_lt_zero n)
  | succ left ih =>
    have hadapter := attempt_adapter inner sink pending none (ts (left + 1 + 1))
    unfold emitLoop
    dsimp only
    split
    · next hnil =>
      -- an attempt that leaves nothing is the last one
      have hnone : (inner.attempt sink.adapter pending).2.failed pending = [] := List.isEmpty_iff.mp hnil
      refine iff_of_true rfl fun n _ _ => ?_
      rw [unresolved, hnone, unresolved_nil]
    · next hnil =>
      rw [if_neg (Nat.succ_ne_zero left)]
      split
      · next hwait =>
        dsimp only
        rw [ih, hadapter]
        constructor
        · intro h n hn hraises
          cases n with
          | zero =>
            rw [Nat.sub_zero, hwait] at hraises
            cases hraises
          | succ n => exact h n (by omega) (by rwa [Nat.add_sub_add_right] at hraises)
        · intro h n hn hraises
          exact h (n + 1) (by omega) (by rwa [Nat.add_sub_add_right])
      · next hwait =>
        refine iff_of_false Bool.noConfusion fun h => hnil ?_
        exact List.isEmpty_iff.mpr (h 0 (Nat.succ_pos left) (Bool.eq_false_iff.mpr hwait))

/-! ### The batch -/

/-- The fresh records: each open obligation of the batch once. -/
theorem selectFresh_spec (outcomes : Outcomes) (items : List (Item name)) :
    (keysOf (selectFresh outcomes items)).Nodup ∧ ∀ k, k ∈ keysOf (selectFresh outcomes items) ↔
      k ∈ keysOf items ∧ outcomes.terminal k = none := by
  -- for any list of fresh records that the loop has collected so far
  have hfold : ∀ (items fresh : List (Item name)), (keysOf fresh).Nodup →
      (keysOf (items.foldl (fun fresh f =>
        if f.key ∉ keysOf fresh ∧ (outcomes.terminal f.key).isNone then fresh ++ [f] else fresh)
          fresh)).Nodup ∧
      ∀ k, k ∈ keysOf (items.foldl (fun fresh f =>
        if f.key ∉ keysOf fresh ∧ (outcomes.terminal f.key).isNone then fresh ++ [f] else fresh)
          fresh) ↔ k ∈ keysOf fresh ∨ (k ∈ keysOf items ∧ outcomes.terminal k = none) := by
    intro items
    induction items with
    | nil =>
      intro fresh hfresh
      exact ⟨hfresh, fun k => by simp⟩
    | cons f items ih =>
      intro fresh hfresh
      rw [List.foldl_cons]
      split
      · next hnew =>
        obtain ⟨hnotin, hnone⟩ := hnew
        rw [Option.isNone_iff_eq_none] at hnone
        have happ : keysOf (fresh ++ [f]) = keysOf fresh ++ [f.key] := List.map_append
        obtain ⟨hnodup, hmem⟩ := ih (fresh ++ [f]) (by
          rw [happ, List.nodup_append]
          refine ⟨hfresh, by simp, ?_⟩
          rintro k hk l hl rfl
          rw [List.mem_singleton.mp hl] at hk
          exact hnotin hk)
        refine ⟨hnodup, fun k => ?_⟩
        rw [hmem, happ, keysOf_cons, List.mem_append, List.mem_singleton, List.mem_cons]
        constructor
        · rintro ((hk | rfl) | ⟨hk, hopen⟩)
          · exact Or.inl hk
          · exact Or.inr ⟨Or.inl rfl, hnone⟩
          · exact Or.inr ⟨Or.inr hk, hopen⟩
        · rintro (hk | ⟨rfl | hk, hopen⟩)
          · exact Or.inl (Or.inl hk)
          · exact Or.inl (Or.inr rfl)
          · exact Or.inr ⟨hk, hopen⟩
      · next hold =>
        obtain ⟨hnodup, hmem⟩ := ih fresh hfresh
        refine ⟨hnodup, fun k => ?_⟩
        rw [hmem, keysOf_cons, List.mem_cons]
        constructor
        · rintro (hk | ⟨hk, hopen⟩)
          · exact Or.inl hk
          · exact Or.inr ⟨Or.inr hk, hopen⟩
        · rintro (hk | ⟨rfl | hk, hopen⟩)
          · exact Or.inl hk
          · -- the record was skipped because its obligation is in the list
            rw [hopen, Option.isNone_none] at hold
            simp only [and_true, not_not] at hold
            exact Or.inl hold
          · exact Or.inr ⟨hk, hopen⟩
  obtain ⟨hnodup, hmem⟩ := hfold items [] List.nodup_nil
  exact ⟨hnodup, fun k => by rw [selectFresh, hmem]; simp⟩

theorem prepare_of_export (name : String) {record f : Json.Dict} (h : exportRecord record = .ok f) :
    ∃ item, prepare name record = .ok item ∧ recordKey record name = .ok item.key := by
  obtain ⟨k, hk⟩ := exists_recordKey h name
  have hf : recordKey f name = .ok k := by rw [recordKey_export h, hk]
  refine ⟨⟨f, k, hf⟩, ?_, hk⟩
  unfold prepare
  rw [h]
  dsimp only
  split
  · next e he =>
    rw [hf] at he
    cases he
  · next k' hk' =>
    have heq := hk'
    rw [hf] at heq
    cases heq
    rfl

/-- A batch of records that can be projected, as `handle_batch` hands it on. -/
theorem prepareAll (name : String) (batch : List Json.Dict)
    (h : ∀ record ∈ batch, ∃ f, exportRecord record = .ok f) :
    ∃ items, batch.mapM (prepare name) = .ok items ∧ keysOf items = batchKeys name batch := by
  induction batch with
  | nil => exact ⟨[], rfl, rfl⟩
  | cons record batch ih =>
    obtain ⟨f, hf⟩ := h record List.mem_cons_self
    obtain ⟨item, hitem, hkey⟩ := prepare_of_export name hf
    obtain ⟨items, hitems, hkeys⟩ := ih fun r hr => h r (List.mem_cons_of_mem record hr)
    refine ⟨item :: items, ?_, ?_⟩
    · rw [List.mapM_cons, hitem, hitems]
      rfl
    · rw [keysOf_cons, hkeys, batchKeys, batchKeys, List.filterMap_cons, hkey]
      rfl

/-- What settling the fresh obligations comes to for the batch. -/
theorem LoopDone.disposed {keys : List Key} {sink sink' : Sink σ} {fresh : List (Item name)}
    {effects : List (Effect name)} (h : LoopDone sink fresh sink' effects)
    (hnodup : (keysOf fresh).Nodup)
    (hfresh : ∀ k, k ∈ keysOf fresh ↔ k ∈ keys ∧ sink.outcomes.terminal k = none) :
    Disposed keys sink sink' effects := by
  have hdistinct := h.split.nodup_iff.mpr hnodup
  have hdisjoint := (List.nodup_append.mp hdistinct).2.2
  have hopen : ∀ k, k ∈ acceptedKeys effects ∨ k ∈ deadKeys effects →
      k ∈ keys ∧ sink.outcomes.terminal k = none :=
    fun k hk => (hfresh k).mp (h.split.subset (List.mem_append.mpr hk))
  have hcover : ∀ k ∈ keys, sink.outcomes.terminal k = none →
      k ∈ acceptedKeys effects ∨ k ∈ deadKeys effects :=
    fun k hk hnone => List.mem_append.mp (h.split.symm.subset ((hfresh k).mpr ⟨hk, hnone⟩))
  refine ⟨?_, ?_, h.once, hdistinct, ?_, ?_, ?_, h.delivered, h.deadLettered⟩
  · -- an outcome: accepted, dead-lettered, or there before
    intro k hk
    have hsome : ∃ o, sink'.outcomes.terminal k = some o := by
      rw [h.terminal]
      by_cases ha : k ∈ acceptedKeys effects
      · exact ⟨_, if_pos ha⟩
      rw [if_neg ha]
      by_cases hd : k ∈ deadKeys effects
      · exact ⟨_, if_pos hd⟩
      rw [if_neg hd]
      cases ho : sink.outcomes.terminal k with
      | some o => exact ⟨o, rfl⟩
      | none => exact absurd (hcover k hk ho) (not_or.mpr ⟨ha, hd⟩)
    obtain ⟨o, ho⟩ := hsome
    refine ⟨o, ho, fun o' ho' => ?_⟩
    rw [ho] at ho'
    exact (Option.some.inj ho').symm
  · -- an obligation with an outcome is not fresh
    intro k o ho
    have hnot : ¬ (k ∈ acceptedKeys effects ∨ k ∈ deadKeys effects) := by
      intro hk
      rw [(hopen k hk).2] at ho
      cases ho
    obtain ⟨ha, hd⟩ := not_or.mp hnot
    constructor
    · rw [h.terminal, if_neg ha, if_neg hd, ho]
    · intro hk
      rw [((hfresh k).mp (h.handed k hk)).2] at ho
      cases ho
  · intro k hk
    refine ⟨(hopen k (Or.inl hk)).1, (hopen k (Or.inl hk)).2, ?_⟩
    rw [h.terminal, if_pos hk]
  · intro k
    constructor
    · intro hd
      exact ⟨(hopen k (Or.inr hd)).1, (hopen k (Or.inr hd)).2,
        fun ha => hdisjoint k ha k hd rfl⟩
    · rintro ⟨hk, hnone, hna⟩
      exact (hcover k hk hnone).resolve_left hna
  · intro k hd
    rw [h.terminal, if_neg (fun ha => hdisjoint k ha k hd rfl), if_pos hd]

/-- What `emit_batch` does with a batch that can be projected. -/
theorem emitBatch_eq {cfg : SinkConfig} (inner : Inner cfg.name σ) (sink : Sink σ)
    {batch : List Json.Dict} {items : List (Item cfg.name)}
    (h : batch.mapM (prepare cfg.name) = .ok items) (ts : Nat → Nat → String) :
    sink.emitBatch cfg inner batch ts = .ok
      (if (selectFresh sink.outcomes items).isEmpty then ⟨sink, [], false⟩
        else emitLoop cfg inner ts (cfg.retries + 1).toNat sink
          (selectFresh sink.outcomes items)) := by
  unfold Sink.emitBatch
  rw [h]
  rfl

/-- With a negative number of retries no attempt is made. -/
theorem emitBatch_of_neg (cfg : SinkConfig) (hneg : cfg.retries < 0) (inner : Inner cfg.name σ)
    (sink : Sink σ) {batch : List Json.Dict}
    (hbatch : ∀ record ∈ batch, ∃ f, exportRecord record = .ok f) (ts : Nat → Nat → String) :
    sink.emitBatch cfg inner batch ts = .ok ⟨sink, [], false⟩ := by
  obtain ⟨items, hitems, -⟩ := prepareAll cfg.name batch hbatch
  rw [emitBatch_eq inner sink hitems ts, Int.toNat_of_nonpos (by omega)]
  by_cases hnil : (selectFresh sink.outcomes items).isEmpty = true
  · rw [if_pos hnil]
  · rw [if_neg hnil]
    rfl

/-- The records of a batch that are to be delivered: the open ones, each
    obligation once. -/
def freshOf (name : String) (outcomes : Outcomes) (batch : List Json.Dict) : List (Item name) :=
  selectFresh outcomes ((batch.mapM (prepare name)).toOption.getD [])

/-- **Exactly when every obligation of a batch is disposed of.** There is nothing
    to deliver, or the number of retries is not negative and the adapter has
    accepted everything before a wait that raises. -/
theorem emitBatch_disposes_iff (cfg : SinkConfig) (inner : Inner cfg.name σ) (sink : Sink σ)
    (batch : List Json.Dict) (ts : Nat → Nat → String)
    (hbatch : ∀ record ∈ batch, ∃ f, exportRecord record = .ok f) :
    (∃ sink' effects, sink.emitBatch cfg inner batch ts = .ok ⟨sink', effects, false⟩ ∧
      Disposed (batchKeys cfg.name batch) sink sink' effects) ↔
    (∀ k ∈ batchKeys cfg.name batch, sink.outcomes.terminal k ≠ none) ∨
      0 ≤ cfg.retries ∧ ∀ n : Nat, n < cfg.retries → cfg.waits n = false →
        unresolved inner (n + 1) sink.adapter (freshOf cfg.name sink.outcomes batch) = [] := by
  obtain ⟨items, hitems, hkeys⟩ := prepareAll cfg.name batch hbatch
  obtain ⟨hnodup, hfresh⟩ := selectFresh_spec sink.outcomes items
  rw [hkeys] at hfresh
  have hrun := emitBatch_eq inner sink hitems ts
  have hfreshOf : freshOf cfg.name sink.outcomes batch = selectFresh sink.outcomes items := by
    rw [freshOf, hitems]
    rfl
  have hopen : ∀ k ∈ keysOf (selectFresh sink.outcomes items), sink.outcomes.terminal k = none :=
    fun k hk => ((hfresh k).mp hk).2
  rw [hfreshOf]
  by_cases hnil : (selectFresh sink.outcomes items).isEmpty = true
  · -- nothing to deliver: both sides hold
    rw [if_pos hnil] at hrun
    have hnone : ∀ k ∈ batchKeys cfg.name batch, sink.outcomes.terminal k ≠ none := by
      intro k hk hopenk
      have hmem := (hfresh k).mpr ⟨hk, hopenk⟩
      rw [List.isEmpty_iff.mp hnil] at hmem
      cases hmem
    refine iff_of_true ⟨sink, [], hrun, ?_⟩ (Or.inl hnone)
    rw [List.isEmpty_iff.mp hnil] at hfresh
    exact (LoopDone.nil sink).disposed List.nodup_nil hfresh
  · rw [if_neg hnil] at hrun
    obtain ⟨f, hf⟩ := List.exists_mem_of_ne_nil _ fun h => hnil (List.isEmpty_iff.mpr h)
    obtain ⟨hfkey, hfopen⟩ := (hfresh f.key).mp (key_mem_keysOf hf)
    by_cases hretries : 0 ≤ cfg.retries
    · obtain ⟨left, hleft⟩ : ∃ left : Nat, cfg.retries = left := ⟨cfg.retries.toNat, by omega⟩
      rw [show (cfg.retries + 1).toNat = left + 1 by omega] at hrun
      -- the attempts count up as the ones that are left count down
      have hwaits := emitLoop_returned_iff inner ts left sink (selectFresh sink.outcomes items)
      have hindex : ∀ n < left, cfg.retries.toNat - (left - n) = n := by omega
      constructor
      · rintro ⟨sink', effects, heq, -⟩
        rw [hrun] at heq
        have hreturned := congrArg Emitted.raised (Except.ok.inj heq)
        refine Or.inr ⟨hretries, fun n hn hraises => ?_⟩
        have hlt : n < left := by omega
        exact hwaits.mp hreturned n hlt (by rwa [hindex n hlt])
      · rintro (hnone | ⟨-, hreturns⟩)
        · exact absurd hfopen (hnone f.key hfkey)
        · have hreturned := hwaits.mpr fun n hn hraises =>
            hreturns n (by omega) (by rwa [hindex n hn] at hraises)
          refine ⟨_, _, hrun.trans (congrArg Except.ok ?_),
            (emitLoop_spec inner ts left sink _ hnodup hopen hreturned).disposed hnodup hfresh⟩
          rw [← hreturned]
    · -- no attempt is made, so nothing has changed
      refine iff_of_false ?_ ?_
      · rintro ⟨sink', effects, heq, hdone⟩
        rw [emitBatch_of_neg cfg (by omega) inner sink hbatch ts] at heq
        cases heq
        obtain ⟨o, ho, -⟩ := hdone.terminal f.key hfkey
        rw [hfopen] at ho
        cases ho
      · rintro (hnone | ⟨hnonneg, -⟩)
        · exact hnone f.key hfkey hfopen
        · exact hretries hnonneg

/-! ### Two batches -/

/-- A receiver that is down. -/
def downInner (name : String) : Inner name Unit where
  attempt := fun _ _ => ((), .raised "down")
  contract := by
    intro s given failed h
    cases h

/-- A sink with this number of retries, of which the waits up to attempt 1023
    return. -/
def esSink (retries : Int) : SinkConfig := ⟨"es", retries, "w", fun n => decide (n < 1024)⟩

/-- A process without history. -/
def freshSink : Sink Unit := ⟨Registry.empty, 0, 0, ()⟩

theorem sampleFinding_exports : ∀ record ∈ [sampleFinding "f1", sampleFinding "f1"],
    ∃ f, exportRecord record = .ok f := by
  intro record hrecord
  refine ⟨sampleFinding "f1", ?_⟩
  simp only [List.mem_cons, List.not_mem_nil, or_false, or_self] at hrecord
  rw [hrecord]
  rfl

/-- A finding that is twice in the batch, and a receiver that is down. -/
theorem emitBatch_disposes_down : ∃ sink' effects,
    freshSink.emitBatch (esSink 4) (downInner "es") [sampleFinding "f1", sampleFinding "f1"]
      (fun _ _ => "2026-01-01T00:00:00+00:00") = .ok ⟨sink', effects, false⟩ ∧
    Disposed (batchKeys "es" [sampleFinding "f1", sampleFinding "f1"]) freshSink sink' effects := by
  refine (emitBatch_disposes_iff (esSink 4) (downInner "es") freshSink _ _
    sampleFinding_exports).mpr (Or.inr ⟨by decide, fun n hn hraises => ?_⟩)
  have hlt : (n : Int) < 4 := hn
  have hlarge : ¬ n < 1024 := of_decide_eq_false hraises
  omega

/-- **Negative retries drop the batch.** No attempt is made and nothing is
    dead-lettered. -/
theorem negativeRetries_drop : ¬ ∃ sink' effects,
    freshSink.emitBatch (esSink (-1)) (downInner "es") [sampleFinding "f1", sampleFinding "f1"]
      (fun _ _ => "2026-01-01T00:00:00+00:00") = .ok ⟨sink', effects, false⟩ ∧
    Disposed (batchKeys "es" [sampleFinding "f1", sampleFinding "f1"]) freshSink sink' effects := by
  rintro ⟨sink', effects, heq, hdone⟩
  rw [emitBatch_of_neg (esSink (-1)) (by decide) (downInner "es") freshSink
    sampleFinding_exports] at heq
  cases heq
  have hne : batchKeys "es" [sampleFinding "f1", sampleFinding "f1"] ≠ [] := by decide +kernel
  obtain ⟨k, hk⟩ := List.exists_mem_of_ne_nil _ hne
  obtain ⟨o, ho, -⟩ := hdone.terminal k hk
  cases ho

end FindingsForwarder
