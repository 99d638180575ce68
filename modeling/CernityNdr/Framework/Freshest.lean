import CernityNdr.Framework.Registry

/-! # Caches of the Freshest

    A cache of at most `cap` values that keeps one value for each key. An
    offered value is refused while one of its key is there that is not older
    by its stamp; what is accepted moves to the young end, and the old end is
    evicted. An evicted key is open again to anything that is offered.

    * `length_offers`: the cache never holds more than `cap` values.
    * `get?_offers_of_stays`: while its key stays, a value is only replaced by
      a fresher one. -/

namespace Freshest

variable {κ ε τ : Type*} [DecidableEq κ] [LinearOrder τ] {keyOf : ε → κ}

/-- Offer one value. -/
def offer (stamp : ε → τ) (cap : Nat) (r : Registry keyOf) (e : ε) : Registry keyOf :=
  match r.get? (keyOf e) with
  | none => (r.push e).trim cap
  | some prior => if stamp e ≤ stamp prior then r else (r.push e).trim cap

def offers (stamp : ε → τ) (cap : Nat) (r : Registry keyOf) (es : List ε) : Registry keyOf :=
  es.foldl (offer stamp cap) r

/-- The key is there after every offer. -/
def Stays (stamp : ε → τ) (cap : Nat) (k : κ) (r : Registry keyOf) : List ε → Prop
  | [] => True
  | e :: es => k ∈ (offer stamp cap r e).keys ∧ Stays stamp cap k (offer stamp cap r e) es

variable {stamp : ε → τ} {cap : Nat} {r : Registry keyOf} {k : κ} {e x : ε} {es : List ε}

/-! ### One offer -/

/-- **A value that is not fresher** changes nothing. -/
theorem offer_of_le (h : r.get? (keyOf e) = some x) (hle : stamp e ≤ stamp x) :
    offer stamp cap r e = r := by
  rw [offer, h]
  exact if_pos hle

/-- An offer is refused, or its value is at the young end of what is left. -/
theorem offer_cases (stamp : ε → τ) (cap : Nat) (r : Registry keyOf) (e : ε) :
    offer stamp cap r e = r ∨
      (∀ x, r.get? (keyOf e) = some x → stamp x < stamp e) ∧
        offer stamp cap r e = (r.push e).trim cap := by
  unfold offer
  cases hprior : r.get? (keyOf e) with
  | none => exact Or.inr ⟨nofun, rfl⟩
  | some prior =>
    by_cases hle : stamp e ≤ stamp prior
    · exact Or.inl (if_pos hle)
    · refine Or.inr ⟨fun x hx => ?_, if_neg hle⟩
      rw [← Option.some.inj hx]
      exact not_le.mp hle

omit [DecidableEq κ] in
theorem length_trim (r : Registry keyOf) (n : Nat) : (r.trim n).vals.length ≤ n := by
  rw [Registry.trim, List.length_drop]
  omega

theorem length_offer (h : r.vals.length ≤ cap) (e : ε) :
    (offer stamp cap r e).vals.length ≤ cap := by
  rcases offer_cases stamp cap r e with heq | ⟨-, heq⟩
  · rw [heq]
    exact h
  · rw [heq]
    exact length_trim _ _

/-- What is there after an offer was there, or is the value that was accepted. -/
theorem get?_offer (h : (offer stamp cap r e).get? k = some x) :
    r.get? k = some x ∨
      x = e ∧ keyOf e = k ∧ ∀ y, r.get? k = some y → stamp y < stamp e := by
  rcases offer_cases stamp cap r e with heq | ⟨hfresh, heq⟩
  · rw [heq] at h
    exact Or.inl h
  · rw [heq] at h
    obtain ⟨hmem, hkey⟩ := Registry.get?_eq_some.mp h
    have hpush : (r.push e).get? k = some x :=
      Registry.get?_eq_some.mpr ⟨Registry.mem_of_mem_trim hmem, hkey⟩
    rw [Registry.get?_push] at hpush
    by_cases hk : keyOf e = k
    · rw [if_pos hk] at hpush
      exact Or.inr ⟨(Option.some.inj hpush).symm, hk, hk ▸ hfresh⟩
    · rw [if_neg hk] at hpush
      exact Or.inl hpush

/-! ### Many offers -/

theorem length_offers (h : r.vals.length ≤ cap) (es : List ε) :
    (offers stamp cap r es).vals.length ≤ cap := by
  induction es generalizing r with
  | nil => exact h
  | cons e es ih => exact ih (length_offer h e)

/-- What is there was there, or was offered. -/
theorem mem_offers (h : (offers stamp cap r es).get? k = some x) : r.get? k = some x ∨ x ∈ es := by
  induction es generalizing r with
  | nil => exact Or.inl h
  | cons e es ih =>
    rcases ih h with hone | hmem
    · rcases get?_offer hone with hr | ⟨rfl, -⟩
      · exact Or.inl hr
      · exact Or.inr List.mem_cons_self
    · exact Or.inr (List.mem_cons_of_mem e hmem)

/-- **While its key stays**, a value is only replaced by a fresher one. -/
theorem get?_offers_of_stays (h : r.get? k = some x) (hstays : Stays stamp cap k r es) :
    ∃ y, (offers stamp cap r es).get? k = some y ∧ (y = x ∨ stamp x < stamp y ∧ y ∈ es) := by
  induction es generalizing r x with
  | nil => exact ⟨x, h, Or.inl rfl⟩
  | cons e es ih =>
    obtain ⟨hmem, hrest⟩ := hstays
    obtain ⟨y, hy⟩ := Registry.mem_keys.mp hmem
    obtain ⟨z, hz, hzy⟩ := ih hy hrest
    refine ⟨z, hz, ?_⟩
    -- the offer left the value, or put a fresher one in its place
    rcases get?_offer hy with hkept | ⟨rfl, -, hfresh⟩
    · obtain rfl : x = y := Option.some.inj (h.symm.trans hkept)
      exact hzy.imp_right fun hz => ⟨hz.1, List.mem_cons_of_mem e hz.2⟩
    · rcases hzy with rfl | ⟨hlt, hin⟩
      · exact Or.inr ⟨hfresh x h, List.mem_cons_self⟩
      · exact Or.inr ⟨(hfresh x h).trans hlt, List.mem_cons_of_mem _ hin⟩

/-- A value stays as it is while nothing fresher of its key is offered. -/
theorem get?_offers_of_le (h : r.get? k = some x) (hstays : Stays stamp cap k r es)
    (hle : ∀ e ∈ es, keyOf e = k → stamp e ≤ stamp x) : (offers stamp cap r es).get? k = some x := by
  obtain ⟨y, hy, hyx⟩ := get?_offers_of_stays h hstays
  rcases hyx with rfl | ⟨hlt, hin⟩
  · exact hy
  · exact absurd hlt (not_lt.mpr (hle y hin (Registry.keyOf_of_get? hy)))

end Freshest
