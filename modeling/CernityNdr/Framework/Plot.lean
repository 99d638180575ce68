import Mathlib.Order.Lattice
import Mathlib.Data.List.Basic

/-! # Plots of Piecewise Constant Functions

    A function `f : T → Option α` over a linear order that changes its value
    only at the breakpoints `b₀ < b₁ < …` is drawn as a list of half-open
    spans `[start, stop)`: one pass over the breakpoints samples `f` at each
    of them, extends the last span when it ends there with the same owner,
    opens a new span otherwise, and skips the gaps.

    * `PlotUpTo`: what the list of spans says about `f` below a bound.
    * `PlotUpTo.step`: one breakpoint.
    * `plotFrom_spec`: the whole pass draws `f` exactly, with spans that are
      sorted, disjoint and maximal (`Apart`). -/

namespace Plot

variable {T α : Type*} [LinearOrder T]

/-! ### Spans -/

/-- The half-open span `[start, stop)`; without a `stop` it has no end. -/
structure Span (T α : Type*) where
  owner : α
  start : T
  stop : Option T

/-- `t` lies below the bound `hi`; `none` is no bound. -/
def Below (hi : Option T) (t : T) : Prop := ∀ h ∈ hi, t < h

def Span.Contains (s : Span T α) (t : T) : Prop := s.start ≤ t ∧ Below s.stop t

/-- `a` is a proper span that ends before `b` starts, and where the two
    touch their owners differ. -/
def Apart (a b : Span T α) : Prop :=
  ∃ x, a.stop = some x ∧ a.start < x ∧ x ≤ b.start ∧ (x = b.start → a.owner ≠ b.owner)

@[simp] theorem below_none (t : T) : Below none t := by simp [Below]

@[simp] theorem below_some {h t : T} : Below (some h) t ↔ t < h := by simp [Below]

theorem Below.of_le {hi : Option T} {s t : T} (h : Below hi t) (hst : s ≤ t) : Below hi s :=
  fun x hx => lt_of_le_of_lt hst (h x hx)

/-- Apart spans have no common point. -/
theorem Apart.disjoint {a b : Span T α} (h : Apart a b) {t : T} (ha : a.Contains t) :
    ¬ b.Contains t := by
  obtain ⟨x, hx, -, hle, -⟩ := h
  intro hb
  have hlt : t < x := by simpa [hx] using ha.2
  exact absurd (lt_of_lt_of_le hlt (hle.trans hb.1)) (lt_irrefl t)

/-! ### One pass over the breakpoints -/

variable [DecidableEq α]

/-- Draw the owner `m` from the breakpoint `b` to the next one. -/
def extend (acc : List (Span T α)) (m : α) (b : T) (nb : Option T) : List (Span T α) :=
  match acc.getLast? with
  | some last =>
    if last.owner = m ∧ last.stop = some b then acc.dropLast ++ [{ last with stop := nb }]
    else acc ++ [⟨m, b, nb⟩]
  | none => acc ++ [⟨m, b, nb⟩]

/-- Draw what `f` says at `b`. -/
def draw (f : T → Option α) (acc : List (Span T α)) (b : T) (nb : Option T) : List (Span T α) :=
  match f b with
  | some m => extend acc m b nb
  | none => acc

/-- Sample `f` at the breakpoints, in order. -/
def plotFrom (f : T → Option α) : List (Span T α) → List T → List (Span T α)
  | acc, [] => acc
  | acc, b :: bs => plotFrom f (draw f acc b bs.head?) bs

@[simp] theorem extend_nil (m : α) (b : T) (nb : Option T) :
    extend [] m b nb = [⟨m, b, nb⟩] := rfl

theorem extend_concat (init : List (Span T α)) (last : Span T α) (m : α) (b : T)
    (nb : Option T) :
    extend (init ++ [last]) m b nb =
      if last.owner = m ∧ last.stop = some b then init ++ [{ last with stop := nb }]
      else init ++ [last] ++ [⟨m, b, nb⟩] := by
  simp [extend]

/-! ### What a partial plot says -/

/-- The spans `acc` draw `f` below the bound `hi`; `prev` is the value of
    `f` at the last breakpoint before `hi`. -/
structure PlotUpTo (f : T → Option α) (hi : Option T) (prev : Option α)
    (acc : List (Span T α)) : Prop where
  apart : acc.Pairwise Apart
  proper : ∀ s ∈ acc, Below s.stop s.start
  within : ∀ s ∈ acc, ∀ h ∈ hi, ∃ x, s.stop = some x ∧ x ≤ h
  exact_below : ∀ t, Below hi t → ∀ m, f t = some m ↔ ∃ s ∈ acc, s.owner = m ∧ s.Contains t
  reaches : ∀ m ∈ prev, ∃ init s, acc = init ++ [s] ∧ s.owner = m ∧ s.stop = hi

omit [DecidableEq α] in
theorem PlotUpTo.empty {f : T → Option α} {hi : Option T}
    (h : ∀ t, Below hi t → f t = none) : PlotUpTo f hi none [] where
  apart := List.Pairwise.nil
  proper := by simp
  within := by simp
  exact_below := by intro t ht m; simp [h t ht]
  reaches := by simp

omit [DecidableEq α] in
/-- A gap: nothing is drawn, and the spans so far end below the new bound. -/
theorem PlotUpTo.skip {f : T → Option α} {b : T} {nb : Option T} {prev : Option α}
    {acc : List (Span T α)} (h : PlotUpTo f (some b) prev acc) (hb : Below nb b)
    (hconst : ∀ t, b ≤ t → Below nb t → f t = f b) (hgap : f b = none) :
    PlotUpTo f nb none acc where
  apart := h.apart
  proper := h.proper
  within := by
    intro s hs x hx
    obtain ⟨y, hy, hyb⟩ := h.within s hs b rfl
    exact ⟨y, hy, hyb.trans (hb x hx).le⟩
  exact_below := by
    intro t ht m
    rcases lt_or_ge t b with htb | htb
    · exact h.exact_below t (below_some.mpr htb) m
    · rw [hconst t htb ht, hgap]
      constructor
      · intro hm; cases hm
      · rintro ⟨s, hs, -, hcont⟩
        obtain ⟨y, hy, hyb⟩ := h.within s hs b rfl
        have : t < y := by simpa [hy] using hcont.2
        exact absurd (this.trans_le hyb) (not_lt.mpr htb)
  reaches := by simp

omit [DecidableEq α] in
/-- A new span opens at `b`. -/
theorem PlotUpTo.opens {f : T → Option α} {b : T} {nb : Option T} {prev : Option α}
    {acc : List (Span T α)} {m : α} (h : PlotUpTo f (some b) prev acc) (hb : Below nb b)
    (hconst : ∀ t, b ≤ t → Below nb t → f t = f b) (hm : f b = some m)
    (hnew : ∀ init last, acc = init ++ [last] → ¬ (last.owner = m ∧ last.stop = some b)) :
    PlotUpTo f nb (some m) (acc ++ [⟨m, b, nb⟩]) where
  apart := by
    rw [List.pairwise_append]
    refine ⟨h.apart, List.pairwise_singleton _ _, ?_⟩
    intro s hs s' hs'
    obtain rfl := List.mem_singleton.mp hs'
    obtain ⟨x, hx, hxb⟩ := h.within s hs b rfl
    have hsx : s.start < x := by simpa [hx] using h.proper s hs
    refine ⟨x, hx, hsx, hxb, ?_⟩
    rintro rfl howner
    -- only the last span can end at `b`: the others end before it starts
    rcases List.eq_nil_or_concat acc with rfl | ⟨init, last, rfl⟩
    · simp at hs
    · rw [List.concat_eq_append] at *
      rcases List.mem_append.mp hs with hin | hlast
      · obtain ⟨y, hy, -, hyl, -⟩ := (List.pairwise_append.mp h.apart).2.2 s hin last (by simp)
        obtain ⟨z, hz, hzb⟩ := h.within last (by simp) _ rfl
        have hlz : last.start < z := by simpa [hz] using h.proper last (by simp)
        have hyx : y = x := by rw [hx] at hy; exact (Option.some.inj hy).symm
        exact absurd (hyl.trans_lt hlz) (by rw [hyx]; exact not_lt.mpr hzb)
      · obtain rfl := List.mem_singleton.mp hlast
        exact hnew init s rfl ⟨howner, hx⟩
  proper := by
    intro s hs
    rcases List.mem_append.mp hs with hs | hs
    · exact h.proper s hs
    · obtain rfl := List.mem_singleton.mp hs
      exact hb
  within := by
    intro s hs x hx
    rcases List.mem_append.mp hs with hs | hs
    · obtain ⟨y, hy, hyb⟩ := h.within s hs b rfl
      exact ⟨y, hy, hyb.trans (hb x hx).le⟩
    · obtain rfl := List.mem_singleton.mp hs
      exact ⟨x, hx, le_rfl⟩
  exact_below := by
    intro t ht m'
    simp only [List.mem_append, List.mem_singleton]
    rcases lt_or_ge t b with htb | htb
    · rw [h.exact_below t (below_some.mpr htb) m']
      constructor
      · rintro ⟨s, hs, ho, hc⟩
        exact ⟨s, Or.inl hs, ho, hc⟩
      · rintro ⟨s, hs | rfl, ho, hc⟩
        · exact ⟨s, hs, ho, hc⟩
        · exact absurd hc.1 (not_le.mpr htb)
    · rw [hconst t htb ht, hm]
      constructor
      · intro hmm
        exact ⟨⟨m, b, nb⟩, Or.inr rfl, Option.some.inj hmm, htb, ht⟩
      · rintro ⟨s, hs | rfl, ho, hc⟩
        · obtain ⟨y, hy, hyb⟩ := h.within s hs b rfl
          have : t < y := by simpa [hy] using hc.2
          exact absurd (this.trans_le hyb) (not_lt.mpr htb)
        · exact congrArg some ho
  reaches := by
    intro m' hm'
    exact ⟨acc, ⟨m, b, nb⟩, rfl, by simpa using hm', rfl⟩

omit [DecidableEq α] in
/-- The last span ends at `b` with the owner found there: it is extended. -/
theorem PlotUpTo.extends {f : T → Option α} {b : T} {nb : Option T} {prev : Option α}
    {init : List (Span T α)} {last : Span T α} {m : α}
    (h : PlotUpTo f (some b) prev (init ++ [last])) (hb : Below nb b)
    (hconst : ∀ t, b ≤ t → Below nb t → f t = f b) (hm : f b = some m)
    (howner : last.owner = m) (hstop : last.stop = some b) :
    PlotUpTo f nb (some m) (init ++ [{ last with stop := nb }]) where
  apart := by
    have hp := List.pairwise_append.mp h.apart
    rw [List.pairwise_append]
    refine ⟨hp.1, List.pairwise_singleton _ _, ?_⟩
    intro s hs s' hs'
    obtain rfl := List.mem_singleton.mp hs'
    exact hp.2.2 s hs last (by simp)
  proper := by
    intro s hs
    rcases List.mem_append.mp hs with hs | hs
    · exact h.proper s (by simp [hs])
    · obtain rfl := List.mem_singleton.mp hs
      have hlt : last.start < b := by simpa [hstop] using h.proper last (by simp)
      exact hb.of_le hlt.le
  within := by
    intro s hs x hx
    rcases List.mem_append.mp hs with hs | hs
    · obtain ⟨y, hy, hyb⟩ := h.within s (by simp [hs]) b rfl
      exact ⟨y, hy, hyb.trans (hb x hx).le⟩
    · obtain rfl := List.mem_singleton.mp hs
      exact ⟨x, hx, le_rfl⟩
  exact_below := by
    have hlt : last.start < b := by simpa [hstop] using h.proper last (by simp)
    intro t ht m'
    simp only [List.mem_append, List.mem_singleton]
    rcases lt_or_ge t b with htb | htb
    · rw [h.exact_below t (below_some.mpr htb) m']
      simp only [List.mem_append, List.mem_singleton]
      constructor
      · rintro ⟨s, hs | rfl, ho, hc⟩
        · exact ⟨s, Or.inl hs, ho, hc⟩
        · exact ⟨_, Or.inr rfl, ho, hc.1, ht⟩
      · rintro ⟨s, hs | rfl, ho, hc⟩
        · exact ⟨s, Or.inl hs, ho, hc⟩
        · exact ⟨last, Or.inr rfl, ho, hc.1, by simpa [hstop] using htb⟩
    · rw [hconst t htb ht, hm]
      constructor
      · intro hmm
        exact ⟨_, Or.inr rfl, howner.trans (Option.some.inj hmm), hlt.le.trans htb, ht⟩
      · rintro ⟨s, hs | rfl, ho, hc⟩
        · obtain ⟨y, hy, hyb⟩ := h.within s (by simp [hs]) b rfl
          have : t < y := by simpa [hy] using hc.2
          exact absurd (this.trans_le hyb) (not_lt.mpr htb)
        · exact congrArg some (howner.symm.trans ho)
  reaches := by
    intro m' hm'
    exact ⟨init, _, rfl, by simpa [howner] using hm', rfl⟩

/-- One breakpoint. -/
theorem PlotUpTo.step {f : T → Option α} {b : T} {nb : Option T} {prev : Option α}
    {acc : List (Span T α)} (h : PlotUpTo f (some b) prev acc) (hb : Below nb b)
    (hconst : ∀ t, b ≤ t → Below nb t → f t = f b) :
    PlotUpTo f nb (f b) (draw f acc b nb) := by
  unfold draw
  split
  · next m hm =>
    rw [hm]
    rcases List.eq_nil_or_concat acc with rfl | ⟨init, last, rfl⟩
    · exact h.opens hb hconst hm (by simp)
    · rw [List.concat_eq_append] at *
      rw [extend_concat]
      split
      · next hlast => exact h.extends hb hconst hm hlast.1 hlast.2
      · next hlast =>
        refine h.opens hb hconst hm ?_
        intro init' last' heq
        obtain ⟨-, hl⟩ := List.append_inj' heq rfl
        rw [List.singleton_inj.mp hl] at hlast
        exact hlast
  · next hgap => rw [hgap]; exact h.skip hb hconst hgap

/-- `f` changes its value at the breakpoints `bs` only. -/
def ChangesOnlyAt (f : T → Option α) : List T → Prop
  | [] => True
  | b :: bs => Below bs.head? b ∧ (∀ t, b ≤ t → Below bs.head? t → f t = f b) ∧
      ChangesOnlyAt f bs

omit [DecidableEq α] in
/-- On strictly sorted breakpoints it is enough that `f` is the same at two
    points with no breakpoint between them. -/
theorem changesOnlyAt_of_sorted {f : T → Option α} {bs : List T} (hs : bs.Pairwise (· < ·))
    (hf : ∀ b ∈ bs, ∀ t, b ≤ t → (∀ x ∈ bs, x ≤ b ∨ t < x) → f t = f b) :
    ChangesOnlyAt f bs := by
  induction bs with
  | nil => trivial
  | cons b bs ih =>
    obtain ⟨hb, hs⟩ := List.pairwise_cons.mp hs
    refine ⟨?_, ?_, ih hs ?_⟩
    · intro x hx
      exact hb x (List.mem_of_mem_head? hx)
    · intro t hbt ht
      refine hf b (by simp) t hbt ?_
      intro x hx
      rcases List.mem_cons.mp hx with rfl | hx
      · exact Or.inl le_rfl
      · refine Or.inr ?_
        cases bs with
        | nil => simp at hx
        | cons h bs =>
          have hth : t < h := by simpa using ht
          rcases List.mem_cons.mp hx with rfl | hx
          · exact hth
          · exact hth.trans ((List.pairwise_cons.mp hs).1 x hx)
    · intro c hc t hct hall
      refine hf c (by simp [hc]) t hct ?_
      intro x hx
      rcases List.mem_cons.mp hx with rfl | hx
      · exact Or.inl (hb c hc).le
      · exact hall x hx

/-- An owner found at a breakpoint outside `opens` was already there at the
    breakpoint before (`prev` is the value before the first one). -/
def OpensOnlyAt (f : T → Option α) (opens : T → Prop) : Option α → List T → Prop
  | _, [] => True
  | prev, b :: bs => (¬ opens b → ∀ m ∈ f b, m ∈ prev) ∧ OpensOnlyAt f opens (f b) bs

omit [DecidableEq α] in
/-- On strictly sorted breakpoints it is enough that an owner found outside
    `opens` has been there since some earlier breakpoint. -/
theorem opensOnlyAt_of_sorted {f : T → Option α} {opens : T → Prop} {whole : List T}
    (hs : whole.Pairwise (· < ·))
    (hf : ∀ b ∈ whole, ¬ opens b → ∀ m ∈ f b,
      ∃ p ∈ whole, p < b ∧ ∀ q, p ≤ q → q < b → f q = some m)
    (bs pre : List T) (hwhole : whole = pre ++ bs) :
    OpensOnlyAt f opens (pre.getLast?.bind f) bs := by
  induction bs generalizing pre with
  | nil => trivial
  | cons b bs ih =>
    have hsort := List.pairwise_append.mp (hwhole ▸ hs)
    refine ⟨?_, ?_⟩
    · intro hb m hm
      obtain ⟨p, hp, hpb, hconst⟩ := hf b (by simp [hwhole]) hb m hm
      have hpre : p ∈ pre := by
        rw [hwhole] at hp
        rcases List.mem_append.mp hp with hp | hp
        · exact hp
        · rcases List.mem_cons.mp hp with rfl | hp
          · exact absurd hpb (lt_irrefl p)
          · exact absurd ((List.pairwise_cons.mp hsort.2.1).1 p hp) (not_lt.mpr hpb.le)
      rcases List.eq_nil_or_concat pre with rfl | ⟨init, q, rfl⟩
      · simp at hpre
      · rw [List.concat_eq_append] at *
        have hpq : p ≤ q := by
          rcases List.mem_append.mp hpre with hp | hp
          · exact ((List.pairwise_append.mp hsort.1).2.2 p hp q (by simp)).le
          · exact (List.mem_singleton.mp hp).le
        have hqb : q < b := hsort.2.2 q (by simp) b (by simp)
        simpa using hconst q hpq hqb
    · have := ih (pre ++ [b]) (by simp [hwhole])
      simpa using this

/-- The whole pass draws `f` exactly. -/
theorem plotFrom_spec {f : T → Option α} {bs : List T} (hf : ChangesOnlyAt f bs)
    {prev : Option α} {acc : List (Span T α)} (h : PlotUpTo f bs.head? prev acc) :
    ∃ prev', PlotUpTo f none prev' (plotFrom f acc bs) := by
  induction bs generalizing acc prev with
  | nil => exact ⟨prev, h⟩
  | cons b bs ih => exact ih hf.2.2 (h.step hf.1 hf.2.1)

end Plot
