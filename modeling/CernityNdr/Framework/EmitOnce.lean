import Mathlib.Data.List.Basic

/-! # Emit-Once Keys

    A sender that offers candidates, among other calls: an offer claims the
    key of its candidate in a table and sends the candidate when the key was
    fresh. `steps` are the steps that a list of calls takes.

    A run that is interrupted has made some first steps `pre` and raises in
    the next one. What that leaves of the table:

    * `fresh_of_rest`: the keys of the candidates that were to be sent later
      are fresh.
    * `not_fresh_of_send`: the key of a send that raised is not.
    * `fresh_of_rest_applied`: a step that took effect before it raised changes
      this only when it is the claim of a fresh key; `send_of_claim`: then the
      candidate of that key was to be sent next. -/

namespace EmitOnce

/-- The states of a table of keys. -/
structure Table (σ κ : Type*) [DecidableEq κ] where
  fresh : σ → κ → Bool
  mark : σ → κ → σ
  fresh_mark : ∀ s k k', fresh (mark s k) k' = (fresh s k' && k' ≠ k)

inductive Call (α γ : Type*)
  | other (a : α)
  | offer (c : γ)
deriving DecidableEq

inductive Step (α γ : Type*)
  | other (a : α)
  | claim (c : γ)
  | send (c : γ)
deriving DecidableEq

variable {α γ κ σ : Type*} [DecidableEq κ] (T : Table σ κ) (key : γ → κ)

/-- The steps of a list of calls. -/
def steps : σ → List (Call α γ) → List (Step α γ)
  | _, [] => []
  | s, .other a :: calls => .other a :: steps s calls
  | s, .offer c :: calls =>
    if T.fresh s (key c) then .claim c :: .send c :: steps (T.mark s (key c)) calls
    else .claim c :: steps s calls

/-- What a step leaves of the table. -/
def effect (s : σ) : Step α γ → σ
  | .claim c => if T.fresh s (key c) then T.mark s (key c) else s
  | _ => s

def after (s : σ) (done : List (Step α γ)) : σ := done.foldl (effect T key) s

/-- The candidate that a step sends. -/
def Step.sent : Step α γ → Option γ
  | .send c => some c
  | _ => none

def sends (done : List (Step α γ)) : List γ := done.filterMap Step.sent

variable {T key} {s : σ} {c : γ} {calls : List (Call α γ)} {done rest : List (Step α γ)}
  {x : Step α γ}

theorem steps_offer (s : σ) (c : γ) (calls : List (Call α γ)) : steps T key s (.offer c :: calls) =
    if T.fresh s (key c) then .claim c :: .send c :: steps T key (T.mark s (key c)) calls
    else .claim c :: steps T key s calls := rfl

theorem sends_append (done rest : List (Step α γ)) : sends (done ++ rest) = sends done ++ sends rest :=
  List.filterMap_append

theorem mem_sends : c ∈ sends done ↔ Step.send c ∈ done := by
  constructor
  · intro h
    obtain ⟨x, hx, hsent⟩ := List.mem_filterMap.mp h
    cases x with
    | send c' =>
      cases hsent
      exact hx
    | other a => cases hsent
    | claim c' => cases hsent
  · intro h
    exact List.mem_filterMap.mpr ⟨_, h, rfl⟩

theorem after_cons (s : σ) (x : Step α γ) (done : List (Step α γ)) :
    after T key s (x :: done) = after T key (effect T key s x) done := rfl

theorem after_append (s : σ) (done rest : List (Step α γ)) :
    after T key s (done ++ rest) = after T key (after T key s done) rest := List.foldl_append

/-! ### The table along a run -/

theorem fresh_of_fresh_mark {k k' : κ} (h : T.fresh (T.mark s k) k' = true) :
    T.fresh s k' = true ∧ k' ≠ k := by
  rw [T.fresh_mark] at h
  simpa using h

theorem fresh_of_fresh_effect {k : κ} (h : T.fresh (effect T key s x) k = true) :
    T.fresh s k = true := by
  cases x with
  | claim c =>
    simp only [effect] at h
    split at h
    · exact (fresh_of_fresh_mark h).1
    · exact h
  | other a => exact h
  | send c => exact h

/-- A key that is not fresh stays so. -/
theorem fresh_of_fresh_after {k : κ} (h : T.fresh (after T key s done) k = true) :
    T.fresh s k = true := by
  induction done generalizing s with
  | nil => exact h
  | cons x done ih => exact fresh_of_fresh_effect (ih h)

theorem not_fresh_claim (s : σ) (c : γ) : T.fresh (effect T key s (.claim c : Step α γ)) (key c) = false := by
  simp only [effect]
  by_cases hfresh : T.fresh s (key c) = true
  · rw [if_pos hfresh, T.fresh_mark]
    simp
  · rw [if_neg hfresh]
    exact Bool.eq_false_iff.mpr hfresh

/-- After its claim a key is not fresh. -/
theorem not_fresh_of_claim (h : Step.claim c ∈ done) :
    T.fresh (after T key s done) (key c) = false := by
  obtain ⟨pre, post, rfl⟩ := List.append_of_mem h
  rw [after_append, Bool.eq_false_iff]
  intro hfresh
  rw [after_cons] at hfresh
  have hclaimed := fresh_of_fresh_after hfresh
  rw [not_fresh_claim] at hclaimed
  cases hclaimed

/-! ### The steps of a run -/

theorem steps_append (s : σ) (xs ys : List (Call α γ)) :
    steps T key s (xs ++ ys) =
      steps T key s xs ++ steps T key (after T key s (steps T key s xs)) ys := by
  induction xs generalizing s with
  | nil => rfl
  | cons x xs ih =>
    cases x with
    | other a =>
      show _ :: steps T key s (xs ++ ys) = _
      rw [ih]
      rfl
    | offer c =>
      rw [List.cons_append, steps_offer, steps_offer]
      by_cases hfresh : T.fresh s (key c) = true
      · rw [if_pos hfresh, if_pos hfresh, ih]
        simp [after, effect, hfresh]
      · rw [if_neg hfresh, if_neg hfresh, ih]
        simp [after, effect, hfresh]

/-- Every offer claims its key. -/
theorem claim_of_offer (h : Call.offer c ∈ calls) : Step.claim c ∈ steps T key s calls := by
  obtain ⟨pre, post, rfl⟩ := List.append_of_mem h
  rw [steps_append]
  apply List.mem_append_right
  rw [steps_offer]
  split
  · exact List.mem_cons_self
  · exact List.mem_cons_self

theorem other_mem_steps {a : α} (h : Step.other a ∈ steps T key s calls) : Call.other a ∈ calls := by
  induction calls generalizing s with
  | nil => cases h
  | cons call calls ih =>
    cases call with
    | other b =>
      rcases List.mem_cons.mp h with h | h
      · cases h
        exact List.mem_cons_self
      · exact List.mem_cons_of_mem _ (ih h)
    | offer c =>
      rw [steps_offer] at h
      split at h
      · simp only [List.mem_cons, reduceCtorEq, false_or] at h
        exact List.mem_cons_of_mem _ (ih h)
      · simp only [List.mem_cons, reduceCtorEq, false_or] at h
        exact List.mem_cons_of_mem _ (ih h)

/-- What is sent was offered, and its key was fresh. -/
theorem offer_of_mem_sends (h : c ∈ sends (steps T key s calls)) :
    Call.offer c ∈ calls ∧ T.fresh s (key c) = true := by
  induction calls generalizing s with
  | nil => cases h
  | cons call calls ih =>
    cases call with
    | other a =>
      obtain ⟨hoffer, hfresh⟩ := ih (s := s) h
      exact ⟨List.mem_cons_of_mem _ hoffer, hfresh⟩
    | offer c' =>
      rw [steps_offer] at h
      by_cases hfresh : T.fresh s (key c') = true
      · rw [if_pos hfresh] at h
        rcases List.mem_cons.mp (mem_sends.mp h) with h | h
        · cases h
        · rcases List.mem_cons.mp h with h | h
          · cases h
            exact ⟨List.mem_cons_self, hfresh⟩
          · obtain ⟨hoffer, hmarked⟩ := ih (mem_sends.mpr h)
            exact ⟨List.mem_cons_of_mem _ hoffer, (fresh_of_fresh_mark hmarked).1⟩
      · rw [if_neg hfresh] at h
        obtain ⟨hoffer, hfresh'⟩ := ih (s := s) h
        exact ⟨List.mem_cons_of_mem _ hoffer, hfresh'⟩

/-- For an offer whose key is fresh at the start, a candidate of this key is
    sent. -/
theorem exists_send (h : Call.offer c ∈ calls) (hfresh : T.fresh s (key c) = true) :
    ∃ c' ∈ sends (steps T key s calls), key c' = key c := by
  induction calls generalizing s with
  | nil => cases h
  | cons call calls ih =>
    cases call with
    | other a =>
      rcases List.mem_cons.mp h with h | h
      · cases h
      · exact ih h hfresh
    | offer c' =>
      rw [steps_offer]
      by_cases hfresh' : T.fresh s (key c') = true
      · rw [if_pos hfresh']
        by_cases hkey : key c' = key c
        · exact ⟨c', mem_sends.mpr (List.mem_cons_of_mem _ List.mem_cons_self), hkey⟩
        · have hrest : Call.offer c ∈ calls := by
            rcases List.mem_cons.mp h with h | h
            · cases h
              exact absurd rfl hkey
            · exact h
          have hmarked : T.fresh (T.mark s (key c')) (key c) = true := by
            rw [T.fresh_mark, hfresh]
            simpa using Ne.symm hkey
          obtain ⟨c'', hc'', heq⟩ := ih hrest hmarked
          exact ⟨c'', mem_sends.mpr (List.mem_cons_of_mem _
            (List.mem_cons_of_mem _ (mem_sends.mp hc''))), heq⟩
      · rw [if_neg hfresh']
        have hrest : Call.offer c ∈ calls := by
          rcases List.mem_cons.mp h with h | h
          · cases h
            exact absurd hfresh hfresh'
          · exact h
        exact ih hrest hfresh

/-- No key is sent twice. -/
theorem nodup_sends (s : σ) (calls : List (Call α γ)) : ((sends (steps T key s calls)).map key).Nodup := by
  induction calls generalizing s with
  | nil => exact List.nodup_nil
  | cons call calls ih =>
    cases call with
    | other a => exact ih s
    | offer c =>
      rw [steps_offer]
      split
      · show (key c :: (sends (steps T key (T.mark s (key c)) calls)).map key).Nodup
        refine List.nodup_cons.mpr ⟨?_, ih _⟩
        intro hmem
        obtain ⟨c', hc', hkey⟩ := List.mem_map.mp hmem
        exact (fresh_of_fresh_mark (offer_of_mem_sends hc').2).2 hkey
      · exact ih s

/-- What comes later has another key than what was sent before. -/
theorem key_ne_of_sends {c' : γ} (h : steps T key s calls = done ++ rest) (hc : c ∈ sends done)
    (hc' : c' ∈ sends rest) : key c ≠ key c' := by
  have hnodup : ((sends (steps T key s calls)).map key).Nodup := nodup_sends s calls
  rw [h, sends_append, List.map_append, List.nodup_append] at hnodup
  exact hnodup.2.2 _ (List.mem_map_of_mem hc) _ (List.mem_map_of_mem hc')

/-! ### Interruptions -/

/-- Where a run is interrupted: before its first step, between a claim and
    its send, or later, in the run of the calls that follow. -/
theorem interrupted_cases {call : Call α γ}
    (h : steps T key s (call :: calls) = done ++ x :: rest) :
    done = [] ∨ (∃ c, done = [.claim c] ∧ x = .send c) ∨
      ∃ first later, done = first ++ later ∧
        steps T key (after T key s first) calls = later ++ x :: rest := by
  cases done with
  | nil => exact Or.inl rfl
  | cons d done =>
    right
    cases call with
    | other a =>
      obtain ⟨hd, htail⟩ := List.cons.inj h
      exact Or.inr ⟨[d], done, rfl, by rw [← hd]; exact htail⟩
    | offer c =>
      rw [steps_offer] at h
      by_cases hfresh : T.fresh s (key c) = true
      · rw [if_pos hfresh] at h
        obtain ⟨hd, htail⟩ := List.cons.inj h
        cases done with
        | nil => exact Or.inl ⟨c, by rw [hd], (List.cons.inj htail).1.symm⟩
        | cons d' done =>
          obtain ⟨hd', htail'⟩ := List.cons.inj htail
          refine Or.inr ⟨[d, d'], done, rfl, ?_⟩
          rw [← hd, ← hd']
          simpa [after, effect, hfresh] using htail'
      · rw [if_neg hfresh] at h
        obtain ⟨hd, htail⟩ := List.cons.inj h
        refine Or.inr ⟨[d], done, rfl, ?_⟩
        rw [← hd]
        simpa [after, effect, hfresh] using htail

/-- A run without calls is not interrupted. -/
theorem interrupted_nil {p : Prop} (h : steps T key s [] = done ++ x :: rest) : p := by
  exact absurd h.symm (List.append_ne_nil_of_right_ne_nil _ (List.cons_ne_nil _ _))

/-- A send comes right after the claim of its key. -/
theorem claim_of_send (h : steps T key s calls = done ++ .send c :: rest) :
    ∃ pre, done = pre ++ [.claim c] := by
  induction calls generalizing s done with
  | nil => exact interrupted_nil h
  | cons call calls ih =>
    rcases interrupted_cases h with rfl | ⟨c', rfl, hsend⟩ | ⟨first, later, rfl, hlater⟩
    · -- no run begins with a send
      cases call with
      | other a => cases h
      | offer c' =>
        rw [steps_offer] at h
        split at h
        · cases h
        · cases h
    · cases hsend
      exact ⟨[], rfl⟩
    · obtain ⟨pre, rfl⟩ := ih hlater
      exact ⟨first ++ pre, (List.append_assoc ..).symm⟩

/-- The key of a send that raised is not fresh. -/
theorem not_fresh_of_send (h : steps T key s calls = done ++ .send c :: rest) :
    T.fresh (after T key s done) (key c) = false := by
  obtain ⟨pre, rfl⟩ := claim_of_send h
  exact not_fresh_of_claim (List.mem_append_right pre List.mem_cons_self)

/-- What was still to be sent, the send that raised apart, has a fresh key. -/
theorem fresh_of_rest (h : steps T key s calls = done ++ x :: rest)
    (hc : c ∈ sends rest) : T.fresh (after T key s done) (key c) = true := by
  induction calls generalizing s done with
  | nil => exact interrupted_nil h
  | cons call calls ih =>
    rcases interrupted_cases h with rfl | ⟨c', rfl, rfl⟩ | ⟨first, later, rfl, hlater⟩
    · have hwhole : c ∈ sends (steps T key s (call :: calls)) := by
        rw [h, mem_sends]
        exact List.mem_cons_of_mem x (mem_sends.mp hc)
      exact (offer_of_mem_sends hwhole).2
    · cases call with
      | other a => cases h
      | offer c'' =>
        rw [steps_offer] at h
        by_cases hfresh : T.fresh s (key c'') = true
        · rw [if_pos hfresh] at h
          simp only [List.cons_append, List.nil_append, List.cons.injEq, Step.claim.injEq,
            Step.send.injEq] at h
          obtain ⟨rfl, -, rfl⟩ := h
          have hmark : after T key s [(.claim c'' : Step α γ)] = T.mark s (key c'') := if_pos hfresh
          rw [hmark]
          exact (offer_of_mem_sends hc).2
        · rw [if_neg hfresh] at h
          have hcall : steps T key s calls = [] ++ .send c' :: rest := (List.cons.inj h).2
          obtain ⟨pre, hpre⟩ := claim_of_send hcall
          simp at hpre
    · rw [after_append]
      exact ih hlater

/-- The claim of a fresh key is followed by its send. -/
theorem send_of_claim (h : steps T key s calls = done ++ .claim c :: rest)
    (hfresh : T.fresh (after T key s done) (key c) = true) : c ∈ sends rest := by
  induction calls generalizing s done with
  | nil => exact interrupted_nil h
  | cons call calls ih =>
    rcases interrupted_cases h with rfl | ⟨c', rfl, hsend⟩ | ⟨first, later, rfl, hlater⟩
    · cases call with
      | other a => cases h
      | offer c' =>
        rw [steps_offer] at h
        by_cases hfresh' : T.fresh s (key c') = true
        · rw [if_pos hfresh'] at h
          simp only [List.nil_append, List.cons.injEq, Step.claim.injEq] at h
          obtain ⟨rfl, rfl⟩ := h
          exact mem_sends.mpr List.mem_cons_self
        · rw [if_neg hfresh'] at h
          simp only [List.nil_append, List.cons.injEq, Step.claim.injEq] at h
          obtain ⟨rfl, -⟩ := h
          exact absurd hfresh hfresh'
    · cases hsend
    · rw [after_append] at hfresh
      exact ih hlater hfresh

/-- A step that took effect before it raised leaves the keys of what was to be
    sent later fresh, unless it claimed a fresh key. -/
theorem fresh_of_rest_applied (h : steps T key s calls = done ++ x :: rest)
    (hx : ∀ c', x = .claim c' → T.fresh (after T key s done) (key c') ≠ true)
    (hc : c ∈ sends rest) : T.fresh (after T key s (done ++ [x])) (key c) = true := by
  have hsame : after T key s (done ++ [x]) = after T key s done := by
    rw [after_append]
    cases x with
    | claim c' => exact if_neg (hx c' rfl)
    | other a => rfl
    | send c' => rfl
  rw [hsame]
  exact fresh_of_rest h hc

end EmitOnce
