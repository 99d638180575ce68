import CernityNdr.Framework.CappedMap
import CernityNdr.Framework.Run

/-! # Sharding a Keyed Store

    A store whose operations act key by key: an operation at one key reads
    and writes the cell of this key only, and what a batch leaves in a cell
    is decided by its writes that touch the cell.

    `shardedStep` routes every key to one of `n` such stores, regroups a
    batch by shard, and asks all shards where there is no key.

    * `step_glued`: one operation has the same result on the shards as on a
      single store, and the shards stay the parts of the single store.
    * `agree_iff`: a run has the same results exactly when every key of it
      has a shard. -/

namespace Sharding

open CappedMap (FieldMap)

variable {κ τ γ α ω π : Type*}

/-- A store that acts key by key. An operation at a key is a `γ` answered by
    an `α`, a batch is a list of writes `ω`, a search for keys is a `π`, and
    every operation has its time in `τ`. -/
structure KeyedStore (κ τ γ α ω π : Type*) (touches : ω → κ → Bool) where
  State : Type
  Cell : Type
  empty : State
  /-- what the store holds under a key -/
  view : State → κ → Cell
  call : State → τ → κ → γ → α × State
  batch : State → τ → List ω → State
  sweep : State → τ → State
  scan : State → τ → π → List κ
  call_self : ∀ {s s' k} t c, view s k = view s' k →
    (call s t k c).1 = (call s' t k c).1 ∧
      view (call s t k c).2 k = view (call s' t k c).2 k
  call_other : ∀ s t {k k'} c, k' ≠ k → view (call s t k c).2 k' = view s k'
  batch_nil : ∀ s t, batch s t [] = s
  batch_self : ∀ {s s' k} t {ws ws'}, view s k = view s' k →
    ws.filter (touches · k) = ws'.filter (touches · k) →
      view (batch s t ws) k = view (batch s' t ws') k
  sweep_self : ∀ {s s' k} t, view s k = view s' k → view (sweep s t) k = view (sweep s' t) k
  sweep_empty : ∀ {s k} t, view s k = view empty k → view (sweep s t) k = view empty k
  scan_self : ∀ {s s' k} t p, view s k = view s' k → (k ∈ scan s t p ↔ k ∈ scan s' t p)
  scan_empty : ∀ {s k} t p, view s k = view empty k → k ∉ scan s t p

/-- An operation. -/
inductive Op (κ γ ω π : Type*)
  | call (k : κ) (c : γ)
  | batch (ws : List ω)
  | sweep
  | scan (p : π)

inductive Result (κ α : Type*)
  | answer (a : α)
  | done
  | keys (ks : List κ)

/-- Equal results, the keys that a search found compared as a set. -/
def Result.Same : Result κ α → Result κ α → Prop
  | answer a, answer b => a = b
  | done, done => True
  | keys ks, keys ls => ∀ k, k ∈ ks ↔ k ∈ ls
  | _, _ => False

variable {touches : ω → κ → Bool} (S : KeyedStore κ τ γ α ω π touches)

/-- An operation on a single store. -/
def step (s : S.State) (t : τ) : Op κ γ ω π → Result κ α × S.State
  | .call k c => ((.answer (S.call s t k c).1), (S.call s t k c).2)
  | .batch ws => (.done, S.batch s t ws)
  | .sweep => (.done, S.sweep s t)
  | .scan p => (.keys (S.scan s t p), s)

/-- The results of a run, each operation at its time. -/
def run (s : S.State) : List (τ × Op κ γ ω π) → List (Result κ α)
  | [] => []
  | op :: ops => (step S s op.1 op.2).1 :: run (step S s op.1 op.2).2 ops

/-! ### The shards -/

section Shards

variable {n : Nat} (route : κ → Option (Fin n)) (home : ω → κ)

/-- `by_shard.setdefault(route(home(w)), []).append(w)`. -/
def group (groups : FieldMap (Fin n) (List ω)) (w : ω) : Option (FieldMap (Fin n) (List ω)) :=
  (route (home w)).map fun i => groups.put (i, (groups.lookup i).getD [] ++ [w])

/-- The writes of a batch by shard; `none` when a write has no shard. -/
def byShard (ws : List ω) : Option (FieldMap (Fin n) (List ω)) := ws.foldlM (group route home) .empty

/-- Every group goes to its shard. -/
def batchAll (t : τ) (shards : Fin n → S.State) (groups : List (Fin n × List ω)) :
    Fin n → S.State :=
  groups.foldl (fun shards g => Function.update shards g.1 (S.batch (shards g.1) t g.2)) shards

/-- An operation on the shards; `none` when a key has no shard, and then
    nothing is written. -/
def shardedStep (shards : Fin n → S.State) (t : τ) :
    Op κ γ ω π → Option (Result κ α × (Fin n → S.State))
  | .call k c => (route k).map fun i =>
    (.answer (S.call (shards i) t k c).1, Function.update shards i (S.call (shards i) t k c).2)
  | .batch ws => (byShard route home ws).map fun groups =>
    (.done, batchAll S t shards groups.vals)
  | .sweep => some (.done, fun i => S.sweep (shards i) t)
  | .scan p => some (.keys ((List.finRange n).flatMap fun i => S.scan (shards i) t p), shards)

/-- The results of a run on the shards. An operation that raised changed
    nothing, and the run goes on. -/
def shardedRun (shards : Fin n → S.State) : List (τ × Op κ γ ω π) → List (Option (Result κ α))
  | [] => []
  | op :: ops =>
    match shardedStep S route home shards op.1 op.2 with
    | none => none :: shardedRun shards ops
    | some (r, shards') => some r :: shardedRun shards' ops

/-! ### Regrouping -/

variable {S route home} {ws : List ω} {groups groups' : FieldMap (Fin n) (List ω)} {w : ω}
  {shards : Fin n → S.State} {s : S.State} {t : τ}

theorem lookup_group (h : group route home groups w = some groups') (i : Fin n) :
    (groups'.lookup i).getD [] =
      (groups.lookup i).getD [] ++ [w].filter (fun w => route (home w) = some i) := by
  obtain ⟨j, hj, rfl⟩ := Option.map_eq_some_iff.mp h
  rw [Registry.lookup_put]
  by_cases hij : j = i
  · subst hij
    rw [if_pos rfl, List.filter_cons_of_pos (by simpa using hj)]
    rfl
  · have hne : route (home w) ≠ some i := by
      rw [hj]
      exact fun h => hij (Option.some.inj h)
    rw [if_neg hij, List.filter_cons_of_neg (by simpa using hne), List.filter_nil, List.append_nil]

/-- The group of a shard has the writes that are routed to it, in their
    order. -/
theorem lookup_byShard (h : byShard route home ws = some groups) (i : Fin n) :
    (groups.lookup i).getD [] = ws.filter fun w => route (home w) = some i := by
  have hfold : ∀ (ws : List ω) (gs : FieldMap (Fin n) (List ω)),
      ws.foldlM (group route home) gs = some groups →
        (groups.lookup i).getD [] =
          (gs.lookup i).getD [] ++ ws.filter fun w => route (home w) = some i := by
    intro ws
    induction ws with
    | nil =>
      intro gs hgs
      cases hgs
      rw [List.filter_nil, List.append_nil]
    | cons w ws ih =>
      intro gs hgs
      obtain ⟨gs', hstep, hrest⟩ := Option.bind_eq_some_iff.mp hgs
      rw [ih gs' hrest, lookup_group hstep, List.append_assoc, ← List.filter_append]
      rfl
  exact hfold ws .empty h

theorem byShard_isSome : (byShard route home ws).isSome ↔ ∀ w ∈ ws, (route (home w)).isSome := by
  have hfold : ∀ (ws : List ω) (gs : FieldMap (Fin n) (List ω)),
      (ws.foldlM (group route home) gs).isSome ↔ ∀ w ∈ ws, (route (home w)).isSome := by
    intro ws
    induction ws with
    | nil => exact fun gs => by simp
    | cons w ws ih =>
      intro gs
      rw [List.foldlM_cons, List.forall_mem_cons]
      cases hw : route (home w) with
      | none => simp [group, hw]
      | some i => simp [group, hw, ih]
  exact hfold ws .empty

/-- A shard sees its group, and a shard without a group sees nothing. -/
theorem batchAll_apply (groups : FieldMap (Fin n) (List ω)) (i : Fin n) :
    batchAll S t shards groups.vals i = S.batch (shards i) t ((groups.lookup i).getD []) := by
  have hfold : ∀ (gs : List (Fin n × List ω)) (shards : Fin n → S.State),
      (gs.map Prod.fst).Nodup → ∀ i, batchAll S t shards gs i =
        S.batch (shards i) t (((gs.find? fun g => g.1 = i).map Prod.snd).getD []) := by
    intro gs
    induction gs with
    | nil => exact fun shards _ i => (S.batch_nil (shards i) t).symm
    | cons g gs ih =>
      intro shards hnodup i
      rw [List.map_cons, List.nodup_cons] at hnodup
      rw [batchAll, List.foldl_cons, ← batchAll, ih _ hnodup.2]
      by_cases hi : g.1 = i
      · subst hi
        have hnone : gs.find? (fun g' => g'.1 = g.1) = none := by
          simp only [List.find?_eq_none, decide_eq_true_eq]
          exact fun g' hg' heq => hnodup.1 (List.mem_map.mpr ⟨g', hg', heq⟩)
        rw [hnone, List.find?_cons_of_pos (by simp), Function.update_self]
        exact S.batch_nil _ t
      · rw [List.find?_cons_of_neg (by simpa using hi), Function.update_of_ne (Ne.symm hi)]
  exact hfold groups.vals shards groups.nodup i

/-! ### The shards as the parts of one store -/

/-- Every key is held by its shard and by no other. -/
structure Glued (route : κ → Option (Fin n)) (shards : Fin n → S.State) (s : S.State) : Prop where
  here : ∀ {k i}, route k = some i → S.view (shards i) k = S.view s k
  elsewhere : ∀ {k i}, route k ≠ some i → S.view (shards i) k = S.view S.empty k
  nowhere : ∀ {k}, route k = none → S.view s k = S.view S.empty k

theorem Glued.init : Glued route (fun _ => S.empty) S.empty :=
  ⟨fun _ => rfl, fun _ => rfl, fun _ => rfl⟩

/-- The keys of the operation all have a shard. -/
def Op.Routable (route : κ → Option (Fin n)) (home : ω → κ) : Op κ γ ω π → Prop
  | call k _ => (route k).isSome
  | batch ws => ∀ w ∈ ws, (route (home w)).isSome
  | sweep => True
  | scan _ => True

/-- A write touches keys of one shard only. -/
def Op.Colocated (touches : ω → κ → Bool) (route : κ → Option (Fin n)) (home : ω → κ) :
    Op κ γ ω π → Prop
  | batch ws => ∀ w ∈ ws, ∀ k, touches w k = true → route k = route (home w)
  | _ => True

theorem Glued.call (h : Glued route shards s) {k : κ} {i : Fin n} (hk : route k = some i) (c : γ) :
    (S.call (shards i) t k c).1 = (S.call s t k c).1 ∧
      Glued route (Function.update shards i (S.call (shards i) t k c).2) (S.call s t k c).2 := by
  obtain ⟨hanswer, hcell⟩ := S.call_self t c (h.here hk)
  refine ⟨hanswer, ?_, ?_, ?_⟩
  · intro k' i' hk'
    by_cases hkey : k' = k
    · subst hkey
      obtain rfl : i = i' := Option.some.inj (hk.symm.trans hk')
      rw [Function.update_self]
      exact hcell
    · rw [S.call_other s t c hkey, ← h.here hk']
      by_cases hi : i' = i
      · subst hi
        rw [Function.update_self, S.call_other _ t c hkey]
      · rw [Function.update_of_ne hi]
  · intro k' i' hk'
    by_cases hi : i' = i
    · subst hi
      have hkey : k' ≠ k := fun hkey => hk' (hkey ▸ hk)
      rw [Function.update_self, S.call_other _ t c hkey]
      exact h.elsewhere hk'
    · rw [Function.update_of_ne hi]
      exact h.elsewhere hk'
  · intro k' hk'
    have hkey : k' ≠ k := by
      intro hkey
      rw [hkey, hk] at hk'
      cases hk'
    rw [S.call_other s t c hkey]
    exact h.nowhere hk'

/-- A batch on the shards: no write of another group touches the cell. -/
theorem Glued.batch (h : Glued route shards s) (hgroups : byShard route home ws = some groups)
    (hws : ∀ w ∈ ws, ∀ k, touches w k = true → route k = route (home w)) :
    Glued route (batchAll S t shards groups.vals) (S.batch s t ws) := by
  have hview : ∀ i, batchAll S t shards groups.vals i =
      S.batch (shards i) t (ws.filter fun w => route (home w) = some i) := by
    intro i
    rw [batchAll_apply, lookup_byShard hgroups]
  have hroutable := byShard_isSome.mp (Option.isSome_of_eq_some hgroups)
  refine ⟨?_, ?_, ?_⟩
  · intro k i hk
    rw [hview]
    apply S.batch_self t (h.here hk)
    rw [List.filter_filter]
    apply List.filter_congr
    intro w hw
    by_cases htouch : touches w k = true
    · simp [htouch, ← hws w hw k htouch, hk]
    · simp [htouch]
  · intro k i hk
    rw [hview, ← h.elsewhere hk]
    conv_rhs => rw [← S.batch_nil (shards i) t]
    apply S.batch_self t rfl
    rw [List.filter_filter, List.filter_nil, List.filter_eq_nil_iff]
    intro w hw htouch
    simp only [Bool.and_eq_true, decide_eq_true_eq] at htouch
    exact hk ((hws w hw k htouch.1).trans htouch.2)
  · intro k hk
    rw [← h.nowhere hk]
    conv_rhs => rw [← S.batch_nil s t]
    apply S.batch_self t rfl
    rw [List.filter_nil, List.filter_eq_nil_iff]
    intro w hw htouch
    have hsome := hroutable w hw
    rw [← hws w hw k htouch, hk] at hsome
    cases hsome

theorem Glued.sweep (h : Glued route shards s) :
    Glued route (fun i => S.sweep (shards i) t) (S.sweep s t) :=
  ⟨fun hk => S.sweep_self t (h.here hk), fun hk => S.sweep_empty t (h.elsewhere hk),
    fun hk => S.sweep_empty t (h.nowhere hk)⟩

/-- A key that a search finds is found on its shard. -/
theorem Glued.scan (h : Glued route shards s) (p : π) (k : κ) :
    k ∈ ((List.finRange n).flatMap fun i => S.scan (shards i) t p) ↔ k ∈ S.scan s t p := by
  simp only [List.mem_flatMap, List.mem_finRange, true_and]
  constructor
  · rintro ⟨i, hk⟩
    have hroute : route k = some i := by
      by_contra hne
      exact S.scan_empty t p (h.elsewhere hne) hk
    exact (S.scan_self t p (h.here hroute)).mp hk
  · intro hk
    cases hroute : route k with
    | none => exact absurd hk (S.scan_empty t p (h.nowhere hroute))
    | some i => exact ⟨i, (S.scan_self t p (h.here hroute)).mpr hk⟩

/-! ### Operations and runs -/

/-- An operation is carried out exactly when its keys have a shard. -/
theorem shardedStep_isSome (S : KeyedStore κ τ γ α ω π touches) (shards : Fin n → S.State) (t : τ)
    {op : Op κ γ ω π} :
    (shardedStep S route home shards t op).isSome ↔ op.Routable route home := by
  cases op with
  | call k c => rw [shardedStep, Option.isSome_map, Op.Routable]
  | batch ws => rw [shardedStep, Option.isSome_map, byShard_isSome, Op.Routable]
  | sweep => exact ⟨fun _ => trivial, fun _ => rfl⟩
  | scan p => exact ⟨fun _ => trivial, fun _ => rfl⟩

/-- **One operation on the shards.** -/
theorem step_glued {op : Op κ γ ω π} {r : Result κ α} {shards' : Fin n → S.State}
    (h : Glued route shards s) (hop : op.Colocated touches route home)
    (hstep : shardedStep S route home shards t op = some (r, shards')) :
    r.Same (step S s t op).1 ∧ Glued route shards' (step S s t op).2 := by
  cases op with
  | call k c =>
    obtain ⟨i, hk, heq⟩ := Option.map_eq_some_iff.mp hstep
    cases heq
    obtain ⟨hanswer, hglued⟩ := h.call (t := t) hk c
    exact ⟨hanswer, hglued⟩
  | batch ws =>
    obtain ⟨groups, hgroups, heq⟩ := Option.map_eq_some_iff.mp hstep
    cases heq
    exact ⟨trivial, h.batch hgroups hop⟩
  | sweep =>
    cases hstep
    exact ⟨trivial, h.sweep⟩
  | scan p =>
    cases hstep
    exact ⟨h.scan p, h⟩

/-- The operation did not raise, and its result is the one of a single
    store. -/
def Agrees : Option (Result κ α) → Result κ α → Prop
  | some r, r' => r.Same r'
  | none, _ => False

variable (home) in
/-- **A run on the shards** has the results of a single store exactly when
    every key of it has a shard. -/
theorem agree_iff {ops : List (τ × Op κ γ ω π)} (h : Glued route shards s)
    (hops : ∀ op ∈ ops, op.2.Colocated touches route home) :
    List.Forall₂ Agrees (shardedRun S route home shards ops) (run S s ops) ↔
      ∀ op ∈ ops, op.2.Routable route home := by
  induction ops generalizing shards s with
  | nil => exact ⟨fun _ _ hop => absurd hop List.not_mem_nil, fun _ => .nil⟩
  | cons op ops ih =>
    rw [List.forall_mem_cons] at hops
    rw [List.forall_mem_cons, run, shardedRun]
    cases hstep : shardedStep S route home shards op.1 op.2 with
    | none =>
      have hnot : ¬op.2.Routable route home := by
        rw [← shardedStep_isSome S shards op.1, hstep]
        simp
      simp [List.forall₂_cons, Agrees, hnot]
    | some next =>
      have hroutable : op.2.Routable route home := by
        rw [← shardedStep_isSome S shards op.1, hstep]
        rfl
      obtain ⟨hsame, hglued⟩ := step_glued h hops.1 hstep
      rw [List.forall₂_cons, ih hglued hops.2]
      exact and_congr_left fun _ => ⟨fun _ => hroutable, fun _ => hsame⟩

end Shards

end Sharding

/-! ## Two Keyed Stores that Agree

    A run gives the same results on two stores. `same` says which answers to
    an operation count as equal.

    * `agree_of_simulation`: a relation between the states that every
      operation keeps, and under which it has the same result.
    * `Agree.trans_symm`: two stores that agree with a third agree. -/

namespace Sharding

variable {κ τ γ α ω π : Type*} {touches : ω → κ → Bool} (S S' S'' : KeyedStore κ τ γ α ω π touches)
  (same : γ → α → α → Prop)

/-- Equal results, the keys that a search found compared as a set. -/
def SameResult : Op κ γ ω π → Result κ α → Result κ α → Prop
  | .call _ c, .answer a, .answer b => same c a b
  | .batch _, .done, .done => True
  | .sweep, .done, .done => True
  | .scan _, .keys ks, .keys ls => ∀ k, k ∈ ks ↔ k ∈ ls
  | _, _, _ => False

/-- The state after an operation. -/
def next (s : S.State) (op : τ × Op κ γ ω π) : S.State := (step S s op.1 op.2).2

/-- Every operation of a run has the same result on both stores. -/
def Agree : S.State → S'.State → List (τ × Op κ γ ω π) → Prop
  | _, _, [] => True
  | s, s', op :: ops => SameResult same op.2 (step S s op.1 op.2).1 (step S' s' op.1 op.2).1 ∧
      Agree (next S s op) (next S' s' op) ops

variable {S S' S'' same} {s : S.State} {s' : S'.State} {s'' : S''.State}
  {ops : List (τ × Op κ γ ω π)}

/-- The simulation rule. The relation may depend on the time of the last
    operation; `C` is a condition on the first store before an operation. -/
theorem agree_of_simulation [Preorder τ] {Q : τ → S.State → S'.State → Prop}
    {C : S.State → τ × Op κ γ ω π → Prop}
    (hstep : ∀ t s s' op, t ≤ op.1 → C s op → Q t s s' →
      SameResult same op.2 (step S s op.1 op.2).1 (step S' s' op.1 op.2).1 ∧
        Q op.1 (next S s op) (next S' s' op))
    {t : τ} (h : Q t s s') (hclock : (t :: ops.map Prod.fst).Pairwise (· ≤ ·))
    (hC : Machine.Meets (next S) C s ops) : Agree S S' same s s' ops := by
  induction ops generalizing t s s' with
  | nil => trivial
  | cons op ops ih =>
    obtain ⟨hfirst, hrest⟩ := List.pairwise_cons.mp hclock
    obtain ⟨hop, hops⟩ := hC.uncons
    obtain ⟨hsame, hnext⟩ := hstep t s s' op (hfirst _ List.mem_cons_self) hop h
    exact ⟨hsame, ih hnext hrest hops⟩

/-- The rule for a run from states that are related at every time. -/
theorem agree_of_simulation_init [Preorder τ] {Q : τ → S.State → S'.State → Prop}
    {C : S.State → τ × Op κ γ ω π → Prop}
    (hstep : ∀ t s s' op, t ≤ op.1 → C s op → Q t s s' →
      SameResult same op.2 (step S s op.1 op.2).1 (step S' s' op.1 op.2).1 ∧
        Q op.1 (next S s op) (next S' s' op))
    (h : ∀ t, Q t s s') (hclock : (ops.map Prod.fst).Pairwise (· ≤ ·))
    (hC : Machine.Meets (next S) C s ops) : Agree S S' same s s' ops := by
  cases ops with
  | nil => trivial
  | cons op ops =>
    refine agree_of_simulation hstep (h op.1) (List.pairwise_cons.mpr ⟨?_, hclock⟩) hC
    intro t ht
    rcases List.mem_cons.mp ht with rfl | ht
    · exact le_rfl
    · exact (List.pairwise_cons.mp hclock).1 t ht

/-- The results of one operation of the run. -/
theorem Agree.at {pre post : List (τ × Op κ γ ω π)} {op : τ × Op κ γ ω π}
    (h : Agree S S' same s s' ops) (heq : ops = pre ++ op :: post) :
    SameResult same op.2 (step S (Machine.run (next S) s pre) op.1 op.2).1
      (step S' (Machine.run (next S') s' pre) op.1 op.2).1 := by
  subst heq
  induction pre generalizing s s' with
  | nil => exact h.1
  | cons op' pre ih => exact ih h.2

/-- Two stores that agree with a third agree with each other. -/
theorem Agree.trans_symm {same₁ same₂ : γ → α → α → Prop}
    (hsame : ∀ c a b d, same₁ c a d → same₂ c b d → same c a b)
    (h : Agree S S'' same₁ s s'' ops) (h' : Agree S' S'' same₂ s' s'' ops) :
    Agree S S' same s s' ops := by
  induction ops generalizing s s' s'' with
  | nil => trivial
  | cons op ops ih =>
    refine ⟨?_, ih h.2 h'.2⟩
    obtain ⟨t, op⟩ := op
    cases op with
    | call k c => exact hsame c _ _ _ h.1 h'.1
    | batch ws => trivial
    | sweep => trivial
    | scan p => exact fun k => (h.1 k).trans (h'.1 k).symm

end Sharding
