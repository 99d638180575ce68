import Mathlib.Data.List.Forall2

/-! # Computations That May Fail

    Inversion rules for code that runs in `Option` or `Except`: a sequence
    that returned had every part of it return, a traversal that returned did
    so at every element, and a loop that returned keeps what each of its
    rounds keeps. -/

namespace Option

variable {α β : Type}

/-- What a traversal returns comes from one of the elements. -/
theorem exists_of_mem_mapM {g : α → Option β} {as : List α} {bs : List β}
    (h : as.mapM g = some bs) {b : β} (hb : b ∈ bs) : ∃ a ∈ as, g a = some b := by
  induction as generalizing bs with
  | nil =>
    cases h
    cases hb
  | cons a as ih =>
    rw [List.mapM_cons] at h
    obtain ⟨c, hc, h⟩ := Option.bind_eq_some_iff.mp h
    obtain ⟨cs, hcs, h⟩ := Option.bind_eq_some_iff.mp h
    cases h
    rcases List.mem_cons.mp hb with rfl | hb
    · exact ⟨a, List.mem_cons_self, hc⟩
    · obtain ⟨a', ha', hga⟩ := ih hcs hb
      exact ⟨a', List.mem_cons_of_mem a ha', hga⟩

/-- A traversal that returned did so at every element. -/
theorem exists_mem_of_mapM {g : α → Option β} {as : List α} {bs : List β}
    (h : as.mapM g = some bs) {a : α} (ha : a ∈ as) : ∃ b ∈ bs, g a = some b := by
  induction as generalizing bs with
  | nil => cases ha
  | cons a' as ih =>
    rw [List.mapM_cons] at h
    obtain ⟨b, hb, h⟩ := Option.bind_eq_some_iff.mp h
    obtain ⟨bs', hbs, h⟩ := Option.bind_eq_some_iff.mp h
    cases h
    rcases List.mem_cons.mp ha with rfl | ha
    · exact ⟨b, List.mem_cons_self, hb⟩
    · obtain ⟨b', hmem, hb'⟩ := ih hbs ha
      exact ⟨b', List.mem_cons_of_mem b hmem, hb'⟩

/-- A traversal that returns at every element. -/
theorem mapM_eq_some_map {g : α → Option β} {f : α → β} {as : List α}
    (h : ∀ a ∈ as, g a = some (f a)) : as.mapM g = some (as.map f) := by
  induction as with
  | nil => rfl
  | cons a as ih =>
    rw [List.mapM_cons, h a List.mem_cons_self, ih fun x hx => h x (List.mem_cons_of_mem a hx)]
    rfl

/-- A traversal returns the results at the elements. -/
theorem mapM_eq_some_iff {g : α → Option β} {as : List α} {bs : List β} :
    as.mapM g = some bs ↔ List.Forall₂ (fun a b => g a = some b) as bs := by
  induction as generalizing bs with
  | nil =>
    rw [List.mapM_nil, List.forall₂_nil_left_iff]
    exact ⟨fun h => (Option.some.inj h).symm, fun h => h ▸ rfl⟩
  | cons a as ih =>
    rw [List.mapM_cons]
    constructor
    · intro h
      obtain ⟨b, hb, h⟩ := Option.bind_eq_some_iff.mp h
      obtain ⟨bs', hbs', h⟩ := Option.bind_eq_some_iff.mp h
      cases h
      exact .cons hb (ih.mp hbs')
    · intro h
      obtain ⟨b, bs', hb, hbs', rfl⟩ := List.forall₂_cons_left_iff.mp h
      rw [hb, ih.mpr hbs']
      rfl

/-- A traversal that can go on at every element returns. -/
theorem exists_mapM {g : α → Option β} {as : List α} (h : ∀ a ∈ as, ∃ b, g a = some b) :
    ∃ bs, as.mapM g = some bs ∧ List.Forall₂ (fun a b => g a = some b) as bs := by
  induction as with
  | nil => exact ⟨[], rfl, List.Forall₂.nil⟩
  | cons a as ih =>
    obtain ⟨b, hb⟩ := h a List.mem_cons_self
    obtain ⟨bs, hbs, hall⟩ := ih fun x hx => h x (List.mem_cons_of_mem a hx)
    refine ⟨b :: bs, ?_, List.Forall₂.cons hb hall⟩
    rw [List.mapM_cons, hb, hbs]
    rfl

/-- Every element has its result among the results. -/
theorem exists_mem_of_forall₂ {g : α → Option β} {as : List α} {bs : List β}
    (h : List.Forall₂ (fun a b => g a = some b) as bs) {a : α} (ha : a ∈ as) :
    ∃ b ∈ bs, g a = some b := by
  induction h with
  | nil => cases ha
  | cons hb _ ih =>
    rcases List.mem_cons.mp ha with rfl | ha
    · exact ⟨_, List.mem_cons_self, hb⟩
    · obtain ⟨b, hmem, hb⟩ := ih ha
      exact ⟨b, List.mem_cons_of_mem _ hmem, hb⟩

end Option

namespace Except

variable {ε α β σ : Type}

theorem bind_eq_ok {x : Except ε α} {g : α → Except ε β} {b : β} :
    (x >>= g) = .ok b ↔ ∃ a, x = .ok a ∧ g a = .ok b := by
  cases x with
  | error e =>
    constructor
    · intro h
      cases h
    · rintro ⟨a, h, -⟩
      cases h
  | ok a =>
    constructor
    · exact fun h => ⟨a, rfl, h⟩
    · rintro ⟨a', h, hg⟩
      cases h
      exact hg

theorem map_eq_ok {x : Except ε α} {g : α → β} {b : β} :
    g <$> x = .ok b ↔ ∃ a, x = .ok a ∧ g a = b := by
  cases x with
  | error e =>
    constructor
    · intro h
      cases h
    · rintro ⟨a, h, -⟩
      cases h
  | ok a =>
    show (Except.ok (g a) : Except ε β) = .ok b ↔ _
    simp

/-! ### What is raised -/

/-- Nothing is raised but what `P` allows. -/
def RaisesOnly (P : ε → Prop) (x : Except ε α) : Prop := ∀ e, x = .error e → P e

section
variable {P : ε → Prop} {x : Except ε α} {g : α → Except ε β}

@[simp] theorem raisesOnly_ok (a : α) : RaisesOnly P (.ok a : Except ε α) := by
  intro e h
  cases h

@[simp] theorem raisesOnly_pure (a : α) : RaisesOnly P (pure a : Except ε α) := raisesOnly_ok a

@[simp] theorem raisesOnly_error {e : ε} : RaisesOnly P (.error e : Except ε α) ↔ P e := by
  constructor
  · exact fun h => h e rfl
  · intro he e' h
    cases h
    exact he

@[simp] theorem raisesOnly_throw {e : ε} : RaisesOnly P (throw e : Except ε α) ↔ P e :=
  raisesOnly_error

/-- A sequence raises what its parts raise, the later ones as far as they are
    reached. -/
theorem raisesOnly_bind :
    RaisesOnly P (x >>= g) ↔ RaisesOnly P x ∧ ∀ a, x = .ok a → RaisesOnly P (g a) := by
  cases x with
  | error e =>
    show RaisesOnly P (.error e : Except ε β) ↔ _
    simp
  | ok a =>
    show RaisesOnly P (g a) ↔ _
    simp

/-- The same when what the rest raises does not depend on what was returned. -/
theorem raisesOnly_bind_iff {C : Prop} (h : ∀ a, x = .ok a → (RaisesOnly P (g a) ↔ C)) :
    RaisesOnly P (x >>= g) ↔ RaisesOnly P x ∧ ((∃ a, x = .ok a) → C) := by
  rw [raisesOnly_bind]
  refine and_congr_right fun _ => ?_
  constructor
  · rintro hall ⟨a, ha⟩
    exact (h a ha).mp (hall a ha)
  · exact fun hC a ha => (h a ha).mpr (hC ⟨a, ha⟩)

/-- A part of which nothing that it raises is allowed has to return. -/
theorem raisesOnly_bind_of_strict (hx : RaisesOnly (fun e => ¬ P e) x) :
    RaisesOnly P (x >>= g) ↔ ∃ a, x = .ok a ∧ RaisesOnly P (g a) := by
  cases x with
  | error e =>
    have he : ¬ P e := hx e rfl
    show RaisesOnly P (.error e : Except ε β) ↔ _
    simp [he]
  | ok a =>
    show RaisesOnly P (g a) ↔ _
    simp

theorem raisesOnly_bind_iff_of_strict {C : Prop} (hx : RaisesOnly (fun e => ¬ P e) x)
    (h : ∀ a, x = .ok a → (RaisesOnly P (g a) ↔ C)) :
    RaisesOnly P (x >>= g) ↔ (∃ a, x = .ok a) ∧ C := by
  rw [raisesOnly_bind_of_strict hx, ← exists_and_right]
  exact exists_congr fun a => and_congr_right (h a)

/-- Where nothing that is raised is allowed, the code has to return. -/
theorem raisesOnly_iff_exists (hx : RaisesOnly (fun e => ¬ P e) x) :
    RaisesOnly P x ↔ ∃ a, x = .ok a := by
  cases x with
  | error e => simpa using hx e rfl
  | ok a => simp

theorem exists_pure_eq_ok {a : α} : (∃ b, (pure a : Except ε α) = .ok b) ↔ True :=
  iff_true_intro ⟨a, rfl⟩

theorem exists_bind_eq_ok :
    (∃ b, (x >>= g) = .ok b) ↔ ∃ a, x = .ok a ∧ ∃ b, g a = .ok b := by
  constructor
  · rintro ⟨b, hb⟩
    obtain ⟨a, ha, hb⟩ := bind_eq_ok.mp hb
    exact ⟨a, ha, b, hb⟩
  · rintro ⟨a, ha, b, hb⟩
    exact ⟨b, bind_eq_ok.mpr ⟨a, ha, hb⟩⟩

end

/-! ### Traversals -/

theorem mapM_eq_ok {g : α → Except ε β} {as : List α} {bs : List β} :
    as.mapM g = .ok bs ↔ List.Forall₂ (fun a b => g a = .ok b) as bs := by
  induction as generalizing bs with
  | nil =>
    rw [List.mapM_nil, List.forall₂_nil_left_iff]
    show (Except.ok [] : Except ε (List β)) = .ok bs ↔ bs = []
    simp [eq_comm]
  | cons a as ih =>
    rw [List.mapM_cons, bind_eq_ok]
    constructor
    · rintro ⟨b, hb, h⟩
      obtain ⟨bs', hbs', h⟩ := bind_eq_ok.mp h
      cases h
      exact .cons hb (ih.mp hbs')
    · intro h
      obtain ⟨b, bs', hb, hbs', rfl⟩ := List.forall₂_cons_left_iff.mp h
      exact ⟨b, hb, bind_eq_ok.mpr ⟨bs', ih.mpr hbs', rfl⟩⟩

/-- A traversal returns when each of its calls does. -/
theorem exists_mapM_eq_ok {g : α → Except ε β} {as : List α} :
    (∃ bs, as.mapM g = .ok bs) ↔ ∀ a ∈ as, ∃ b, g a = .ok b := by
  constructor
  · rintro ⟨bs, h⟩
    have hall := mapM_eq_ok.mp h
    clear h
    induction hall with
    | nil => simp
    | cons hab _ ih => simpa [hab] using ih
  · intro h
    induction as with
    | nil => exact ⟨[], rfl⟩
    | cons a as ih =>
      obtain ⟨b, hb⟩ := h a List.mem_cons_self
      obtain ⟨bs, hbs⟩ := ih fun a' ha' => h a' (List.mem_cons_of_mem a ha')
      exact ⟨b :: bs, mapM_eq_ok.mpr (.cons hb (mapM_eq_ok.mp hbs))⟩

theorem mapM_congr {f g : α → Except ε β} {as : List α} (h : ∀ a ∈ as, f a = g a) :
    as.mapM f = as.mapM g := by
  induction as with
  | nil => rfl
  | cons a as ih =>
    rw [List.mapM_cons, List.mapM_cons, h a List.mem_cons_self,
      ih fun b hb => h b (List.mem_cons_of_mem a hb)]

/-- A traversal whose calls fail in one way only. -/
theorem mapM_ite {p : α → Bool} {f : α → β} {e : ε} (as : List α) :
    as.mapM (fun a => if p a then Except.ok (f a) else .error e) =
      if as.all p then .ok (as.map f) else .error e := by
  induction as with
  | nil => rfl
  | cons a as ih =>
    rw [List.mapM_cons, ih, List.all_cons]
    cases p a
    · rfl
    · cases as.all p <;> rfl

/-- The members of what a traversal returned. -/
theorem mem_of_mapM_eq_ok {g : α → Except ε β} {as : List α} {bs : List β}
    (h : as.mapM g = .ok bs) {b : β} : b ∈ bs ↔ ∃ a ∈ as, g a = .ok b := by
  have hall := mapM_eq_ok.mp h
  clear h
  induction hall with
  | nil => simp
  | cons hab _ ih =>
    simp only [List.mem_cons, ih, exists_eq_or_imp, hab, Except.ok.injEq]
    rw [eq_comm]

/-! ### Loops -/

/-- What every round of a loop that returned keeps, said of the elements
    that have been dealt with. -/
theorem foldlM_prefix_invariant {f : σ → α → Except ε σ} {P : List α → σ → Prop} {as : List α}
    (hstep : ∀ pre a post s t, as = pre ++ a :: post → P pre s → f s a = .ok t → P (pre ++ [a]) t)
    {s t : σ} (h0 : P [] s) (h : as.foldlM f s = .ok t) : P as t := by
  suffices hgen : ∀ rest pre s, as = pre ++ rest → P pre s → rest.foldlM f s = .ok t →
      P (pre ++ rest) t from hgen as [] s rfl h0 h
  clear h0 h s
  intro rest
  induction rest with
  | nil =>
    intro pre s _ hP h
    cases h
    rw [List.append_nil]
    exact hP
  | cons a rest ih =>
    intro pre s heq hP h
    rw [List.foldlM_cons] at h
    obtain ⟨s', hs', h⟩ := bind_eq_ok.mp h
    have hnext := ih (pre ++ [a]) s' (by rw [heq, List.append_assoc, List.singleton_append])
      (hstep pre a rest s s' heq hP hs') h
    rwa [List.append_assoc, List.singleton_append] at hnext

/-- The rule for a loop that may fail, with what it has gone through so far. -/
theorem foldlM_invariant {f : σ → α → Except ε σ} {P : List α → σ → Prop} {as : List α}
    (hstep : ∀ pre a s t, a ∈ as → P pre s → f s a = .ok t → P (pre ++ [a]) t) {s t : σ}
    (h0 : P [] s) (h : as.foldlM f s = .ok t) : P as t :=
  foldlM_prefix_invariant (fun pre a _ s t heq => hstep pre a s t (by simp [heq])) h0 h

/-- A loop over a list returns when every round does. -/
theorem forM_eq_ok {f : α → Except ε Unit} {l : List α} :
    l.forM f = .ok () ↔ ∀ a ∈ l, f a = .ok () := by
  induction l with
  | nil => exact iff_of_true rfl fun a ha => absurd ha List.not_mem_nil
  | cons a l ih =>
    rw [List.forM_eq_forM, List.forM_cons, bind_eq_ok, List.forall_mem_cons, ← ih]
    exact ⟨fun ⟨_, ha, hl⟩ => ⟨ha, hl⟩, fun ⟨ha, hl⟩ => ⟨(), ha, hl⟩⟩

end Except
