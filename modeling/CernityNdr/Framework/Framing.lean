import Mathlib.Data.List.Infix

/-! # Streams and Frames

    A stream hands out what is asked of it in pieces: a read gives at least one
    item and at most as many as were asked for, and nothing at the end only.
    How much each read gives is a parameter.

    * `readExact_spec`: a loop of reads gives what one full read would.
    * `IsPrefixFree.longest`: in a stream of frames, those that are found one
      after the other are all there are. -/

namespace Framing

variable {α ε : Type*}

/-! ### Short reads -/

/-- What is still to come, and what was asked for. -/
structure Stream (α : Type*) where
  rest : List α
  asked : List Nat

/-- A read of `k` items; `short` is what the stream would give. -/
def Stream.read (short : Nat → Nat) (s : Stream α) (k : Nat) : List α × Stream α :=
  let n := min k (max 1 (short s.asked.length))
  (s.rest.take n, ⟨s.rest.drop n, s.asked ++ [k]⟩)

/-- Reads until the buffer has `n` items; an end in their middle is an error. -/
def readLoop (short : Nat → Nat) (torn : ε) (n : Nat) :
    Nat → List α → Stream α → Except ε (List α) × Stream α
  | 0, buf, s => (.ok buf, s)
  | fuel + 1, buf, s =>
    if buf.length < n then
      let (chunk, s) := s.read short (n - buf.length)
      if chunk.isEmpty then if buf.isEmpty then (.ok [], s) else (.error torn, s)
      else readLoop short torn n fuel (buf ++ chunk) s
    else (.ok buf, s)

/-- Reads `n` items, or nothing at the end. -/
def readExact (short : Nat → Nat) (torn : ε) (n : Nat) (s : Stream α) :
    Except ε (List α) × Stream α :=
  readLoop short torn n n [] s

/-- What a read of exactly `n` items gives. -/
def exactly (torn : ε) (n : Nat) (rest : List α) : Except ε (List α) :=
  if n ≤ rest.length then .ok (rest.take n) else if rest = [] then .ok [] else .error torn

variable {short : Nat → Nat} {torn : ε} {n : Nat}

theorem readLoop_spec (fuel : Nat) (buf : List α) (s : Stream α) (hbuf : buf.length ≤ n)
    (hfuel : n ≤ buf.length + fuel) : ∃ ks, (∀ k ∈ ks, k ≤ n) ∧
      readLoop short torn n fuel buf s =
        (exactly torn n (buf ++ s.rest), ⟨(buf ++ s.rest).drop n, s.asked ++ ks⟩) := by
  induction fuel generalizing buf s with
  | zero =>
    have hlen : buf.length = n := Nat.le_antisymm hbuf hfuel
    refine ⟨[], nofun, ?_⟩
    rw [readLoop, exactly, if_pos (by rw [List.length_append]; omega), List.take_left' hlen,
      List.drop_left' hlen, List.append_nil]
  | succ fuel ih =>
    rw [readLoop]
    split
    · next hlt =>
      dsimp only [Stream.read]
      cases hrest : s.rest with
      | nil =>
        refine ⟨[n - buf.length], by simp, ?_⟩
        rw [List.take_nil, List.drop_nil, List.append_nil, List.isEmpty_nil, if_pos rfl, exactly,
          if_neg (not_le.mpr hlt), List.drop_eq_nil_of_le hbuf]
        cases buf with
        | nil => rfl
        | cons b bs => rfl
      | cons a as =>
        -- a read before the end gives at least one item
        obtain ⟨m, hm⟩ : ∃ m, min (n - buf.length) (max 1 (short s.asked.length)) = m + 1 :=
          Nat.exists_eq_succ_of_ne_zero (by omega)
        have hle : m + 1 ≤ n - buf.length := hm ▸ Nat.min_le_left _ _
        rw [hm, List.take_succ_cons, List.isEmpty_cons, if_neg Bool.false_ne_true]
        have htake : (a :: as.take m).length ≤ m + 1 := by
          rw [List.length_cons, List.length_take]
          omega
        obtain ⟨ks, hks, hloop⟩ := ih (buf ++ a :: as.take m)
          ⟨(a :: as).drop (m + 1), s.asked ++ [n - buf.length]⟩
          (by rw [List.length_append]; omega)
          (by rw [List.length_append, List.length_cons]; omega)
        have hjoin : buf ++ a :: as.take m ++ (a :: as).drop (m + 1) = buf ++ a :: as := by
          rw [List.append_assoc, List.drop_succ_cons, List.cons_append, List.take_append_drop]
        refine ⟨(n - buf.length) :: ks, ?_, ?_⟩
        · intro k hk
          rcases List.mem_cons.mp hk with rfl | hk
          · exact Nat.sub_le _ _
          · exact hks k hk
        · rw [hloop, hjoin, List.append_assoc]
          rfl
    · next hfull =>
      have hlen : buf.length = n := Nat.le_antisymm hbuf (not_lt.mp hfull)
      refine ⟨[], nofun, ?_⟩
      rw [exactly, if_pos (by rw [List.length_append]; omega), List.take_left' hlen,
        List.drop_left' hlen, List.append_nil]

/-- **Reading exactly `n` items** gives what one full read would, whatever the
    stream gives at once, and asks for at most `n`. -/
theorem readExact_spec (short : Nat → Nat) (torn : ε) (n : Nat) (s : Stream α) :
    ∃ ks, (∀ k ∈ ks, k ≤ n) ∧ readExact short torn n s =
      (exactly torn n s.rest, ⟨s.rest.drop n, s.asked ++ ks⟩) :=
  readLoop_spec n [] s (Nat.zero_le n) (by simp)

/-! ### Frames -/

/-- A frame has items, and no frame is the start of another. -/
structure IsPrefixFree (frame : List α → Prop) : Prop where
  nonempty : ∀ f, frame f → f ≠ []
  unique : ∀ f f' l, frame f → frame f' → f <+: l → f' <+: l → f = f'

/-- **The longest run of frames**: the frames before a place where none starts
    are all the frames that the stream starts with. -/
theorem IsPrefixFree.longest {frame : List α → Prop} (hfree : IsPrefixFree frame)
    {fs gs : List (List α)} {rest : List α} (hfs : ∀ f ∈ fs, frame f) (hgs : ∀ g ∈ gs, frame g)
    (hstuck : ∀ f, frame f → ¬f <+: rest) (h : gs.flatten <+: fs.flatten ++ rest) : gs <+: fs := by
  induction fs generalizing gs with
  | nil =>
    cases gs with
    | nil => exact List.nil_prefix
    | cons g gs =>
      rw [List.flatten_nil, List.nil_append, List.flatten_cons] at h
      exact absurd ((List.prefix_append _ _).trans h) (hstuck g (hgs g List.mem_cons_self))
  | cons f fs ih =>
    cases gs with
    | nil => exact List.nil_prefix
    | cons g gs =>
      rw [List.flatten_cons, List.flatten_cons, List.append_assoc] at h
      have hsame := hfree.unique g f _ (hgs g List.mem_cons_self) (hfs f List.mem_cons_self)
        ((List.prefix_append _ _).trans h) (List.prefix_append _ _)
      subst hsame
      rw [List.prefix_append_right_inj] at h
      exact List.cons_prefix_cons.mpr ⟨rfl, ih (fun f hf => hfs f (List.mem_cons_of_mem _ hf))
        (fun g hg => hgs g (List.mem_cons_of_mem _ hg)) h⟩

end Framing
