import Mathlib.Data.List.Infix

/-! # Steps That Emit

    A step takes an item, may fail, and emits a list; a run takes the items
    in order and returns all that was emitted.

    * `run_flatMap`: a run over items that are runs themselves is one run.
    * `run_accounts`: when every step emits what its item asks for, so does
      the run. -/

namespace Emission

variable {σ α β γ : Type*}

/-- All that is emitted in a row, and the last state. -/
def run (step : σ → α → Option (List β × σ)) : σ → List α → Option (List β × σ)
  | s, [] => some ([], s)
  | s, a :: l => do
    let (out, s) ← step s a
    let (rest, s) ← run step s l
    return (out ++ rest, s)

variable {step : σ → α → Option (List β × σ)} {s : σ}

theorem run_append (l m : List α) : run step s (l ++ m) = (do
    let (out, s) ← run step s l
    let (rest, s) ← run step s m
    return (out ++ rest, s)) := by
  induction l generalizing s with
  | nil =>
    simp only [List.nil_append, run, Option.bind_eq_bind, Option.bind_some]
    cases run step s m with
    | none => rfl
    | some r => rfl
  | cons a l ih =>
    simp only [List.cons_append, run, ih, Option.bind_eq_bind]
    cases step s a with
    | none => rfl
    | some r =>
      simp only [Option.bind_some]
      cases run step r.2 l with
      | none => rfl
      | some r' =>
        simp only [Option.bind_some, Option.pure_def]
        cases run step r'.2 m with
        | none => rfl
        | some r'' => simp

/-- A run whose items are runs is one run. -/
theorem run_flatMap (f : γ → List α) (l : List γ) :
    run (fun s c => run step s (f c)) s l = run step s (l.flatMap f) := by
  induction l generalizing s with
  | nil => rfl
  | cons c l ih =>
    rw [List.flatMap_cons, run_append, run]
    cases run step s (f c) with
    | none => rfl
    | some r =>
      simp only [Option.bind_eq_bind, Option.bind_some]
      rw [ih]

/-- What is emitted accounts for the items: `tag` of the emitted values gives
    what each item asks for, and every emitted value satisfies `P`. `Inv`
    speaks about the items that are done. -/
theorem run_accounts {Inv : List α → σ → Prop} {P : β → Prop} {tag : β → γ} {l : List α}
    (asked : α → List γ)
    (hstep : ∀ done a s, done ++ [a] <+: l → Inv done s → ∃ out s', step s a = some (out, s') ∧
      out.map tag = asked a ∧ (∀ b ∈ out, P b) ∧ Inv (done ++ [a]) s')
    (h0 : Inv [] s) : ∃ out s', run step s l = some (out, s') ∧ out.map tag = l.flatMap asked ∧
      (∀ b ∈ out, P b) ∧ Inv l s' := by
  suffices h : ∀ rest done s, done ++ rest = l → Inv done s → ∃ out s',
      run step s rest = some (out, s') ∧ out.map tag = rest.flatMap asked ∧ (∀ b ∈ out, P b) ∧
        Inv l s' from h l [] s rfl h0
  intro rest
  induction rest with
  | nil =>
    intro done s hl hinv
    rw [List.append_nil] at hl
    exact ⟨[], s, rfl, rfl, fun b hb => absurd hb List.not_mem_nil, hl ▸ hinv⟩
  | cons a rest ih =>
    intro done s hl hinv
    have hl' : done ++ [a] ++ rest = l := by rw [← hl, List.append_assoc]; rfl
    obtain ⟨out, s₁, hout, htag, hP, hinv₁⟩ := hstep done a s ⟨rest, hl'⟩ hinv
    obtain ⟨outs, s₂, houts, htags, hPs, hinv₂⟩ := ih (done ++ [a]) s₁ hl' hinv₁
    refine ⟨out ++ outs, s₂, ?_, ?_, ?_, hinv₂⟩
    · rw [run, hout]
      simp only [Option.bind_eq_bind, Option.bind_some]
      rw [houts]
      rfl
    · rw [List.map_append, htag, htags, List.flatMap_cons]
    · intro b hb
      rcases List.mem_append.mp hb with hb | hb
      · exact hP b hb
      · exact hPs b hb

end Emission
