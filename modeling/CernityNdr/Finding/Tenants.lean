import CernityNdr.Finding.Descent

/-! # Tenant Isolation

    A result or a status is produced for a capture of one tenant, its owner,
    and may or may not carry `tenant_id`. This module determines exactly
    when the handling of such a message leaves the findings of every other
    tenant alone. Messages that carry their tenant always do. A message
    without one is resolved by its finding id against what is pending at
    that moment, and reaches a foreign finding whenever that finding is the
    only one pending under the id, or when a finding of the tenant
    `"default"` stands in the cache under it. -/

namespace FindingService

open Machine

variable {τ : Type}

/-! ### Attributed messages -/

/-- The tenant a message carries. -/
def Event.tenant? : Event τ → Option String
  | .result r => r.tenantId
  | .status m => m.tenantId
  | _ => none

/-- Results and statuses are messages about a capture. -/
def Event.isMessage : Event τ → Bool
  | .result _ | .status _ => true
  | _ => false

/-- An input and the tenant whose capture it is about. A message that
    carries a tenant carries its owner. -/
structure Attributed (τ : Type) where
  input : Input τ
  owner : String
  honest : ∀ t, input.event.tenant? = some t → orDefault (some t) = owner

/-- The finalized findings of the other tenants, oldest first. -/
def foreign (owner : String) (s : Service τ) : List (Remembered τ) :=
  s.finalized.vals.filter (fun r => r.key.1 ≠ owner)

/-- From `s` to `s'` nothing happened to the findings of other tenants than
    `owner`: the pending ones are as they were; of the finalized ones some of
    the oldest may have been dropped by the bound of the cache, and only by
    it; every new document is one of the owner's. -/
structure LeavesOthers (cfg : Config τ) (owner : String) (s s' : Service τ) : Prop where
  pending : ∀ k, k.1 ≠ owner → s'.pending.get? k = s.pending.get? k
  finalized : foreign owner s' <:+ foreign owner s
  kept : s.finalized.vals.length < cfg.maxFinalized → foreign owner s' = foreign owner s
  docs : ∃ new, s'.docs = s.docs ++ new ∧ ∀ doc ∈ new, doc.key.1 = owner

/-- The handling of the message leaves the other tenants alone. -/
def TenantSafe (cfg : Config τ) (s : Service τ) (m : Attributed τ) : Prop :=
  m.input.event.isMessage = true → LeavesOthers cfg m.owner s (handle cfg s m.input)

/-- The message carries no tenant and its finding id is taken for a finding
    of another tenant: the only one pending under it, or (for a result, when
    not exactly one is pending) one of the tenant `"default"` that was
    finalized. -/
def Misdirected (s : Service τ) (m : Attributed τ) : Prop :=
  match m.input.event with
  | .result r =>
    r.tenantId = none ∧
      ((∃ k, Alone s.pending r.findingId k ∧ k.1 ≠ m.owner) ∨
        ((∀ k, ¬ Alone s.pending r.findingId k) ∧ m.owner ≠ "default" ∧
          (s.finalized.get? (pk none r.findingId)).isSome = true))
  | .status c =>
    c.finalizes = true ∧ c.tenantId = none ∧ ∃ k, Alone s.pending c.findingId k ∧ k.1 ≠ m.owner
  | _ => False

/-! ### The moves -/

theorem LeavesOthers.refl (cfg : Config τ) (owner : String) (s : Service τ) :
    LeavesOthers cfg owner s s :=
  ⟨fun _ _ => rfl, List.suffix_refl _, fun _ => rfl, [], by simp⟩

/-- A new document belongs to the owner. -/
theorem LeavesOthers.owner_eq {cfg : Config τ} {owner : String} {s s' : Service τ}
    (h : LeavesOthers cfg owner s s') {doc : Finding τ} (hd : s'.docs = s.docs ++ [doc]) :
    doc.key.1 = owner := by
  obtain ⟨new, hnew, hall⟩ := h.docs
  rw [hd] at hnew
  exact hall doc (by rw [← List.append_cancel_left hnew]; simp)

/-- Removing or replacing an own entry does not change the foreign ones. -/
theorem filter_pop_own {r : Registry (Remembered.key (τ := τ))} {k : PKey} {owner : String}
    (h : k.1 = owner) :
    (r.pop k).vals.filter (fun r => r.key.1 ≠ owner) = r.vals.filter (fun r => r.key.1 ≠ owner) := by
  simp only [Registry.pop, Registry.filter, List.filter_filter]
  apply List.filter_congr
  intro v _
  by_cases hv : v.key = k
  · simp [hv, h]
  · simp [hv]

theorem filter_push_own {r : Registry (Remembered.key (τ := τ))} {v : Remembered τ} {owner : String}
    (h : v.key.1 = owner) :
    (r.push v).vals.filter (fun r => r.key.1 ≠ owner) = r.vals.filter (fun r => r.key.1 ≠ owner) := by
  rw [Registry.push, List.filter_append, filter_pop_own h]
  simp [h]

theorem answer_leavesOthers_iff (cfg : Config τ) (env : Env) (r : EnrichmentResult) (e : Entry τ)
    (s : Service τ) (owner : String) :
    LeavesOthers cfg owner s (answer cfg env r e s) ↔ e.key.1 = owner := by
  constructor
  · intro h
    simpa [Entry.key] using h.owner_eq (answer_docs cfg env r e s)
  · intro h
    refine ⟨?_, by simp [foreign], by simp [foreign], _, answer_docs cfg env r e s, ?_⟩
    · intro k hk
      rw [answer_pending, Registry.get?_pop_ne]
      exact fun heq => hk (heq ▸ h)
    · simpa [Entry.key] using h

theorem reopen_leavesOthers_iff (cfg : Config τ) (env : Env) (r : EnrichmentResult)
    (prev : Remembered τ) (s : Service τ) (owner : String) :
    LeavesOthers cfg owner s (reopen cfg env r prev s) ↔ prev.key.1 = owner := by
  constructor
  · intro h
    simpa [Remembered.key] using h.owner_eq (reopen_docs cfg env r prev s)
  · intro h
    have hsame : foreign owner (reopen cfg env r prev s) = foreign owner s := by
      simp only [foreign, reopen_finalized]
      exact filter_pop_own h
    refine ⟨by simp, by rw [hsame], fun _ => hsame, _, reopen_docs cfg env r prev s, ?_⟩
    simpa [Remembered.key] using h

theorem expire_leavesOthers_iff (cfg : Config τ) (env : Env) (e : Entry τ) (s : Service τ)
    (owner : String) :
    LeavesOthers cfg owner s (expire cfg env s e) ↔ e.key.1 = owner := by
  constructor
  · intro h
    simpa using h.owner_eq (expire_docs cfg env e s)
  · intro h
    have hown : (⟨expired cfg env e, e.delivered⟩ : Remembered τ).key.1 = owner := by
      simpa [Remembered.key] using h
    refine ⟨?_, ?_, ?_, _, expire_docs cfg env e s, by simpa using h⟩
    · intro k hk
      rw [expire_pending, Registry.get?_pop_ne]
      exact fun heq => hk (heq ▸ h)
    · have hpush := filter_push_own (r := s.finalized) hown
      rw [foreign, expire_finalized, foreign]
      exact hpush ▸ (List.drop_suffix _ _).filter _
    · intro hlen
      have hfit := Registry.length_push_le s.finalized ⟨expired cfg env e, e.delivered⟩
      rw [foreign, expire_finalized, Registry.trim_of_le _ (by omega), filter_push_own hown]
      rfl

/-! ### One message -/

/-- A popped entry is a foreign one exactly when the message is misdirected
    to it. -/
theorem popped_owner_iff {s : Service τ} {tenant fid : Option String} {e : Entry τ}
    {owner : String} (h : Resolves s.pending tenant fid e)
    (honest : ∀ t, tenant = some t → orDefault (some t) = owner) :
    e.key.1 = owner ↔ ¬ (tenant = none ∧ ∃ k, Alone s.pending fid k ∧ k.1 ≠ owner) := by
  cases htenant : tenant with
  | some t =>
    have hkey : e.key.1 = owner := by
      rw [h.tenant_eq t htenant]
      exact honest t htenant
    simp [hkey]
  | none =>
    have halone := h.alone htenant
    constructor
    · rintro howner ⟨-, k, hk, hne⟩
      exact hne (halone.only k hk.mem hk.fid_eq ▸ howner)
    · intro hnot
      by_contra hne
      exact hnot ⟨rfl, e.key, halone, hne⟩

/-- **One step.** A message leaves the other tenants alone exactly when it is
    not misdirected. -/
theorem tenantSafe_iff (cfg : Config τ) (s : Service τ) (m : Attributed τ) :
    TenantSafe cfg s m ↔ ¬ Misdirected s m := by
  obtain ⟨⟨event, env⟩, owner, honest⟩ := m
  cases event with
  | candidate cand now => simp [TenantSafe, Event.isMessage, Misdirected]
  | sweep now => simp [TenantSafe, Event.isMessage, Misdirected]
  | result r =>
    simp only [TenantSafe, Event.isMessage, forall_const, Misdirected, handle, handleResult]
    split
    · next e _ hpop =>
      obtain ⟨hres, -⟩ := popPending_some hpop
      rw [answer_leavesOthers_iff, popped_owner_iff hres honest]
      refine not_congr (and_congr_right fun htenant => ?_)
      have halone := hres.alone htenant
      constructor
      · exact Or.inl
      · rintro (h | ⟨hnone, -⟩)
        · exact h
        · exact absurd halone (hnone _)
    · next hpop =>
      obtain ⟨-, hnone⟩ := popPending_none hpop
      split
      · next prev hprev =>
        have hkey : prev.key = pk r.tenantId r.findingId := Registry.keyOf_of_get? hprev
        rw [reopen_leavesOthers_iff, hkey]
        cases htenant : r.tenantId with
        | some t => simpa [pk] using honest t htenant
        | none =>
          have hsome : (s.finalized.get? (pk none r.findingId)).isSome = true := by
            rw [← htenant, hprev]; rfl
          have hnone := hnone htenant
          simp only [true_and, hsome, and_true]
          constructor
          · rintro howner (⟨k, hk, -⟩ | ⟨-, hne⟩)
            · exact hnone k hk
            · exact hne howner.symm
          · intro hnot
            by_contra hne
            exact hnot (Or.inr ⟨hnone, fun h => hne h.symm⟩)
      · next hprev =>
        refine iff_of_true (LeavesOthers.refl cfg owner s) ?_
        rintro ⟨htenant, ⟨k, hk, -⟩ | ⟨-, -, hsome⟩⟩
        · exact hnone htenant k hk
        · rw [← htenant, hprev] at hsome
          cases hsome
  | status c =>
    simp only [TenantSafe, Event.isMessage, forall_const, Misdirected, handle, handleStatus]
    split
    · next hfin =>
      simp only [hfin, true_and]
      split
      · next e _ hpop =>
        obtain ⟨hres, -⟩ := popPending_some hpop
        rw [expire_leavesOthers_iff, popped_owner_iff hres honest]
      · next hpop =>
        obtain ⟨-, hnone⟩ := popPending_none hpop
        refine iff_of_true (LeavesOthers.refl cfg owner s) ?_
        rintro ⟨htenant, k, hk, -⟩
        exact hnone htenant k hk
    · next hfin =>
      refine iff_of_true (LeavesOthers.refl cfg owner s) ?_
      rintro ⟨h, -⟩
      exact hfin h

/-! ### Runs -/

/-- **Tenant isolation over runs.** Every message of a run leaves the other
    tenants alone exactly when none is misdirected. -/
theorem run_tenantSafe_iff (cfg : Config τ) (is : List (Attributed τ)) :
    Meets (fun s m => handle cfg s m.input) (TenantSafe cfg) Service.start is ↔
      Meets (fun s m => handle cfg s m.input) (fun s m => ¬ Misdirected s m) Service.start is :=
  ⟨fun h => h.mono fun s m => (tenantSafe_iff cfg s m).mp,
    fun h => h.mono fun s m => (tenantSafe_iff cfg s m).mpr⟩

/-- Two tenants use one finding id. The first one's capture times out; then
    the second one's candidate arrives; then the first one's result, which
    does not carry its tenant. -/
def sharedIdRun : List (Attributed String) :=
  let cand (tenant : String) : Finding String :=
    .minimal "shared" (some tenant) "ids_signature" "c2" 8 (9 / 10) "2026-01-01T00:00:00Z"
  [⟨⟨.candidate (cand "acme") 0, .quiet⟩, "acme", by rintro _ ⟨⟩⟩,
   ⟨⟨.sweep 120000000, .quiet⟩, "acme", by rintro _ ⟨⟩⟩,
   ⟨⟨.candidate (cand "globex") 130000000, .quiet⟩, "globex", by rintro _ ⟨⟩⟩,
   ⟨⟨.result ⟨some "shared", none, some "ok", some ["minio://acme"], none, none⟩, .quiet⟩,
    "acme", by rintro _ ⟨⟩⟩]

/-- The result finalizes the pending finding of the second tenant. -/
theorem tenantless_result_finalizes_other_tenant :
    ¬ Meets (fun s (m : Attributed String) => handle .demo s m.input) (TenantSafe .demo)
      Service.start sharedIdRun := by
  intro h
  have hothers := h sharedIdRun.dropLast _ [] rfl rfl
  have hpending := congrArg Option.isSome (hothers.pending ("globex", some "shared") (by decide))
  revert hpending
  decide

end FindingService
