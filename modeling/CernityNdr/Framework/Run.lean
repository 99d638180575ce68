import Mathlib.Data.List.Infix

/-! # Runs of an Input-Driven Machine

    A machine is a step function `σ → ι → σ`: everything the environment
    decides (the message that arrives, the point where a crash falls, what
    a receiver answers) is part of the input, so a run is a list of inputs
    and the state after it is a fold.

    This module collects the rules that the invariant proofs use:

    * `run_invariant`: what the first state satisfies and every step keeps
      holds after every run.
    * `run_invariant_of_meets`: the same when the steps keep the invariant
      only under a condition on the state before the step and the input.
    * `prefix_induction`: induction along a fixed list of inputs, for
      invariants that speak about the inputs handled so far. -/

namespace Machine

variable {σ ι : Type*}

/-! ### Runs -/

/-- The state after the inputs `is`, first input first. -/
def run (step : σ → ι → σ) (s : σ) (is : List ι) : σ :=
  is.foldl step s

@[simp] theorem run_nil (step : σ → ι → σ) (s : σ) : run step s [] = s := rfl

@[simp] theorem run_cons (step : σ → ι → σ) (s : σ) (i : ι) (is : List ι) :
    run step s (i :: is) = run step (step s i) is := rfl

theorem run_append (step : σ → ι → σ) (s : σ) (as bs : List ι) :
    run step s (as ++ bs) = run step (run step s as) bs :=
  List.foldl_append

theorem run_snoc (step : σ → ι → σ) (s : σ) (as : List ι) (i : ι) :
    run step s (as ++ [i]) = step (run step s as) i := by
  simp [run_append]

/-! ### Conditions on the steps of a run -/

/-- Every step of the run meets `C`, a condition on the state before the
    step and on its input. -/
def Meets (step : σ → ι → σ) (C : σ → ι → Prop) (s : σ) (is : List ι) : Prop :=
  ∀ pre i post, is = pre ++ i :: post → C (run step s pre) i

theorem Meets.nil (step : σ → ι → σ) (C : σ → ι → Prop) (s : σ) : Meets step C s [] := by
  intro pre i post heq
  simp at heq

theorem Meets.cons {step : σ → ι → σ} {C : σ → ι → Prop} {s : σ} {i : ι} {is : List ι}
    (hi : C s i) (h : Meets step C (step s i) is) : Meets step C s (i :: is) := by
  intro pre j post heq
  cases pre with
  | nil =>
    obtain ⟨rfl, rfl⟩ := List.cons.inj heq
    exact hi
  | cons p pre =>
    obtain ⟨rfl, rfl⟩ := List.cons.inj heq
    exact h pre j post rfl

/-- The first step and the steps after it. -/
theorem Meets.uncons {step : σ → ι → σ} {C : σ → ι → Prop} {s : σ} {i : ι} {is : List ι}
    (h : Meets step C s (i :: is)) : C s i ∧ Meets step C (step s i) is := by
  refine ⟨h [] i is rfl, ?_⟩
  intro pre j post heq
  exact h (i :: pre) j post (by rw [heq]; rfl)

theorem Meets.of_initial {step : σ → ι → σ} {C : σ → ι → Prop} {s : σ} {is js : List ι}
    (h : Meets step C s is) (hpre : js <+: is) : Meets step C s js := by
  obtain ⟨ks, rfl⟩ := hpre
  intro pre i post heq
  exact h pre i (post ++ ks) (by rw [heq]; simp)

theorem Meets.last {step : σ → ι → σ} {C : σ → ι → Prop} {s : σ} {as : List ι} {i : ι}
    (h : Meets step C s (as ++ [i])) : C (run step s as) i :=
  h as i [] rfl

/-- One more step that meets the condition. -/
theorem Meets.snoc {step : σ → ι → σ} {C : σ → ι → Prop} {s : σ} {as : List ι} {i : ι}
    (h : Meets step C s as) (hi : C (run step s as) i) : Meets step C s (as ++ [i]) := by
  intro pre j post heq
  rcases List.eq_nil_or_concat post with rfl | ⟨rest, k, rfl⟩
  · obtain ⟨rfl, hj⟩ := List.append_inj' heq rfl
    obtain rfl := (List.cons.inj hj).1
    exact hi
  · have hrest : as = pre ++ j :: rest := by
      have heq' : as ++ [i] = (pre ++ j :: rest) ++ [k] := by
        rw [heq]
        simp
      exact (List.append_inj' heq' rfl).1
    exact h pre j rest hrest

theorem Meets.mono {step : σ → ι → σ} {C D : σ → ι → Prop} {s : σ} {is : List ι}
    (h : Meets step C s is) (hCD : ∀ s i, C s i → D s i) : Meets step D s is :=
  fun pre i post heq => hCD _ _ (h pre i post heq)

/-- A condition on the inputs alone. -/
theorem Meets.of_forall {step : σ → ι → σ} {D : ι → Prop} {s : σ} {is : List ι}
    (h : ∀ i ∈ is, D i) : Meets step (fun _ => D) s is := by
  intro pre i post heq
  exact h i (by simp [heq])

/-! ### Invariant rules -/

/-- Induction along the prefixes of a fixed list of inputs. -/
theorem prefix_induction {is : List ι} {P : List ι → Prop} (nil : P [])
    (snoc : ∀ pre i, pre ++ [i] <+: is → P pre → P (pre ++ [i])) :
    ∀ pre, pre <+: is → P pre := by
  intro pre
  induction pre using List.reverseRecOn with
  | nil => exact fun _ => nil
  | append_singleton pre i ih =>
    intro hpre
    exact snoc pre i hpre (ih ((List.prefix_append pre [i]).trans hpre))

/-- What the first state satisfies and every step keeps holds after every run. -/
theorem run_invariant {step : σ → ι → σ} {P : σ → Prop}
    (hstep : ∀ s i, P s → P (step s i)) {s : σ} (h0 : P s) (is : List ι) :
    P (run step s is) := by
  induction is generalizing s with
  | nil => exact h0
  | cons i is ih => exact ih (hstep s i h0)

/-- The invariant rule for steps that keep `P` only under the condition `C`. -/
theorem run_invariant_of_meets {step : σ → ι → σ} {C : σ → ι → Prop} {P : σ → Prop}
    (hstep : ∀ s i, C s i → P s → P (step s i)) {s : σ} (h0 : P s) {is : List ι}
    (hC : Meets step C s is) : P (run step s is) := by
  refine prefix_induction (P := fun pre => P (run step s pre)) h0 ?_ is (List.prefix_refl is)
  intro pre i hpre ih
  rw [run_snoc]
  exact hstep _ i (hC.of_initial hpre).last ih

/-- The step at which something becomes true. -/
theorem exists_turn {step : σ → ι → σ} {P : σ → Prop} {s : σ} (h0 : ¬ P s) {is : List ι}
    (h : P (run step s is)) :
    ∃ pre i post, is = pre ++ i :: post ∧ ¬ P (run step s pre) ∧ P (run step s (pre ++ [i])) := by
  induction is using List.reverseRecOn with
  | nil => exact absurd h h0
  | append_singleton is i ih =>
    by_cases hbefore : P (run step s is)
    · obtain ⟨pre, j, post, rfl, hpre, hj⟩ := ih hbefore
      exact ⟨pre, j, post ++ [i], by simp, hpre, hj⟩
    · exact ⟨is, i, [], rfl, hbefore, h⟩

end Machine
