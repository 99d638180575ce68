import CernityNdr.Window.Mirrored

/-! # Sorted Sets on the Server

    What the documented server has under a key after the commands that
    `RedisStore` sends about sorted sets.

    * `touch`: a `ZADD` and its `EXPIRE`.
    * `foldl_commands`: a batch sends the `EXPIRE` of a key once, and that is
      as good as every time.
    * `Kept`: the key is there for as long as one of its members counts. -/

open CappedMap (FieldMap)

namespace Redis

variable {now t ttl : ℚ} {c : Option Slot} {m : FieldMap String ℚ} {member : String} {score : ℚ}
  {nx : Bool} {n : Int} {f : FieldMap String ℚ → Reply × FieldMap String ℚ}

/-! ### Writes -/

/-- The members after a `ZADD`. -/
def addTo (nx : Bool) (m : FieldMap String ℚ) (member : String) (score : ℚ) : FieldMap String ℚ :=
  if nx && decide (member ∈ m.keys) then m else m.put (member, score)

/-- `ZADD` and `EXPIRE`. -/
def touch (now : ℚ) (n : Int) (nx : Bool) (score : ℚ) (member : String) (c : Option Slot) :
    Option Slot :=
  (documented now (.expire false n) (documented now (.zadd nx score member) c).2).2

def membersOf : Option Slot → FieldMap String ℚ
  | some ⟨.zset m, _⟩ => m
  | _ => .empty

/-- No key, or a sorted set with an expiry. -/
inductive IsZset : Option Slot → Prop
  | gone : IsZset none
  | there {m : FieldMap String ℚ} {x : ℚ} (nonempty : m.vals ≠ []) : IsZset (some ⟨.zset m, some x⟩)

theorem addTo_ne_nil (nx : Bool) (m : FieldMap String ℚ) (member : String) (score : ℚ) :
    (addTo nx m member score).vals ≠ [] := by
  unfold addTo
  split
  · next h =>
    simp only [Bool.and_eq_true, decide_eq_true_eq] at h
    obtain ⟨w, hw, -⟩ := List.mem_map.mp h.2
    exact List.ne_nil_of_mem hw
  · exact FieldMap.put_ne_nil m _

/-- `ZADD` on a sorted set. -/
theorem zadd_snd (nx : Bool) (score : ℚ) (member : String) {x : ℚ} (hx : now ≤ x) :
    (documented now (.zadd nx score member) (some ⟨.zset m, some x⟩)).2 =
      some ⟨.zset (addTo nx m member score), some x⟩ := by
  show (onZset (live now _) fun m => (_, addTo nx m member score)).2 = _
  rw [live_of_le hx, onZset_some (addTo_ne_nil nx m member score)]

theorem touch_eq (hc : IsZset c) (hn : 0 < n) : touch now n nx score member c =
    some ⟨.zset (addTo nx (membersOf (live now c)) member score), some (now + n)⟩ := by
  have hgone : ∀ c, live now c = none → touch now n nx score member c =
      some ⟨.zset (addTo nx .empty member score), some (now + n)⟩ := by
    intro c hlive
    show (documented now (.expire false n)
      (onZset (live now c) fun m => (_, addTo nx m member score)).2).2 = _
    rw [hlive, onZset_none (addTo_ne_nil nx .empty member score), expire_new, if_neg (not_le.mpr hn)]
  cases hc with
  | gone => exact hgone none rfl
  | @there m x hne =>
    rcases le_or_gt now x with hle | hlt
    · rw [touch, zadd_snd nx score member hle, expire_again hle hn, live_of_le hle]
      rfl
    · rw [hgone _ (live_of_lt hlt), live_of_lt hlt]
      rfl

theorem isZset_touch (hc : IsZset c) (hn : 0 < n) : IsZset (touch now n nx score member c) := by
  rw [touch_eq hc hn]
  exact .there (addTo_ne_nil nx _ member score)

/-! ### Batches -/

/-- A `ZADD` with its `EXPIRE`, as a batch queues them. -/
def queuedTouch (k : String) (ttl : ℚ) (z : Bool × ℚ × String) :
    List (String × RedisStore.Queued) :=
  [(k, .command (.zadd z.1 z.2.1 z.2.2)), (k, .expireOnce ttl)]

/-- **One `EXPIRE` for a key** of a batch is enough. -/
theorem foldl_commands {k : String} (hn : 0 < RedisStore.seconds ttl) (zs : List (Bool × ℚ × String))
    {expd : List String} (hc : IsZset c)
    (hsent : k ∈ expd → ∃ m, c = some ⟨.zset m, some (now + RedisStore.seconds ttl)⟩) :
    (RedisStore.commands expd (zs.flatMap (queuedTouch k ttl))).foldl
        (fun c cmd => (documented now cmd.2 c).2) c =
      zs.foldl (fun c z => touch now (RedisStore.seconds ttl) z.1 z.2.1 z.2.2 c) c := by
  induction zs generalizing c expd with
  | nil => rfl
  | cons z zs ih =>
    have htouched : ∃ m, touch now (RedisStore.seconds ttl) z.1 z.2.1 z.2.2 c =
        some ⟨.zset m, some (now + RedisStore.seconds ttl)⟩ := ⟨_, touch_eq hc hn⟩
    rw [List.flatMap_cons, queuedTouch, List.cons_append, List.cons_append, List.nil_append,
      RedisStore.commands, RedisStore.commands, List.foldl_cons, List.foldl_cons]
    by_cases hk : k ∈ expd
    · -- the key has the expiry that the `EXPIRE` would set
      obtain ⟨m, rfl⟩ := hsent hk
      have hthere : now ≤ now + RedisStore.seconds ttl := by
        have hpos : (0 : ℚ) < RedisStore.seconds ttl := by exact_mod_cast hn
        linarith
      have hzadd : (documented now (.zadd z.1 z.2.1 z.2.2)
          (some ⟨.zset m, some (now + RedisStore.seconds ttl)⟩)).2 =
          touch now (RedisStore.seconds ttl) z.1 z.2.1 z.2.2
            (some ⟨.zset m, some (now + RedisStore.seconds ttl)⟩) := by
        rw [touch_eq hc hn, zadd_snd _ _ _ hthere, live_of_le hthere]
        rfl
      rw [if_pos hk, hzadd]
      exact ih (isZset_touch hc hn) fun _ => htouched
    · rw [if_neg hk, List.foldl_cons]
      exact ih (isZset_touch hc hn) fun _ => htouched

/-! ### Members that count -/

/-- A sorted set that is kept at least until `death` of all its members, and
    until `last` at most. -/
inductive Kept (death : ℚ → ℚ) (last : ℚ) : Option Slot → FieldMap String ℚ → Prop
  | gone : Kept death last none .empty
  | there {m : FieldMap String ℚ} {x : ℚ} (nonempty : m.vals ≠ [])
      (outlives : ∀ w ∈ m.vals, death w.2 ≤ x) (bound : x ≤ last) :
      Kept death last (some ⟨.zset m, some x⟩) m

variable {death : ℚ → ℚ} {last last' : ℚ}

theorem Kept.isZset (h : Kept death last c m) : IsZset c := by
  cases h with
  | gone => exact .gone
  | there hne => exact .there hne

theorem Kept.mono (h : Kept death last c m) (hle : last ≤ last') : Kept death last' c m := by
  cases h with
  | gone => exact .gone
  | there hne houtlives hbound => exact .there hne houtlives (hbound.trans hle)

theorem Kept.le_last (h : Kept death last c m) : ∀ w ∈ m.vals, death w.2 ≤ last := by
  cases h with
  | gone => exact fun w hw => absurd hw List.not_mem_nil
  | there hne houtlives hbound => exact fun w hw => (houtlives w hw).trans hbound

/-- A key that is gone had no member that counts. -/
theorem Kept.live (h : Kept death last c m) (now : ℚ) : ∃ m', Kept death last (live now c) m' ∧
    membersOf (Redis.live now c) = m' ∧ (∀ w ∈ m'.vals, w ∈ m.vals) ∧
      ∀ w ∈ m.vals, now ≤ death w.2 → w ∈ m'.vals := by
  cases h with
  | gone => exact ⟨.empty, .gone, rfl, fun w hw => hw, fun w hw _ => hw⟩
  | @there m x hne houtlives hbound =>
    rcases le_or_gt now x with hle | hlt
    · rw [live_of_le hle]
      exact ⟨m, .there hne houtlives hbound, rfl, fun w hw => hw, fun w hw _ => hw⟩
    · rw [live_of_lt hlt]
      refine ⟨.empty, .gone, rfl, fun w hw => absurd hw List.not_mem_nil, ?_⟩
      intro w hw hcounts
      exact absurd (hcounts.trans (houtlives w hw)) (not_le.mpr hlt)

/-- While a member counts the key is there. -/
theorem Kept.live_eq (h : Kept death last c m) (hall : ∀ w ∈ m.vals, now ≤ death w.2) :
    Redis.live now c = c := by
  cases h with
  | gone => rfl
  | there hne houtlives hbound =>
    obtain ⟨w, hw⟩ := List.exists_mem_of_ne_nil _ hne
    exact live_of_le ((hall w hw).trans (houtlives w hw))

/-- A command that adds no member. -/
theorem Kept.onZset (h : Kept death last c m) (hf : (f .empty).2 = .empty)
    (hsub : ∀ w ∈ (f m).2.vals, w ∈ m.vals) :
    (Redis.onZset c f).1 = (f m).1 ∧ Kept death last (Redis.onZset c f).2 (f m).2 := by
  cases h with
  | gone =>
    refine ⟨rfl, ?_⟩
    have hnone : (Redis.onZset none f).2 = none := by simp [Redis.onZset, hf]
    rw [hnone, hf]
    exact .gone
  | @there m x hne houtlives hbound =>
    refine ⟨rfl, ?_⟩
    by_cases hempty : (f m).2.vals = []
    · have hnone : (Redis.onZset (some ⟨.zset m, some x⟩) f).2 = none := by
        simp [Redis.onZset, hempty]
      have heq : (f m).2 = .empty := Registry.ext_vals hempty
      rw [hnone, heq]
      exact .gone
    · rw [onZset_some hempty]
      exact .there hempty (fun w hw => houtlives w (hsub w hw)) hbound

/-- A write on a set that is kept. -/
theorem Kept.touch (h : Kept death last c m) (member : String) (hn : 0 < n) (hlast : last ≤ now + n)
    (hscore : death score ≤ now + n) : ∃ m' : FieldMap String ℚ, (∀ w ∈ m'.vals, w ∈ m.vals) ∧
      (∀ w ∈ m.vals, now ≤ death w.2 → w ∈ m'.vals) ∧
      Kept death (now + n) (touch now n false score member c) (m'.put (member, score)) := by
  obtain ⟨m', hkept, hmembers, hsub, hcounts⟩ := h.live now
  refine ⟨m', hsub, hcounts, ?_⟩
  rw [touch_eq h.isZset hn, hmembers]
  refine .there (FieldMap.put_ne_nil m' _) ?_ le_rfl
  intro w hw
  rcases Registry.mem_put hw with hw | rfl
  · exact (hkept.le_last w hw).trans hlast
  · exact hscore

/-- What is pruned at a time no longer counts. -/
theorem Kept.prune (h : Kept death last c m) {below : ℚ}
    (hbelow : ∀ x, below ≤ x ↔ now ≤ death x) : ∃ m',
      Kept death last (documented now (.zremrangebyscore below) c).2 m' ∧
        ∀ w, w ∈ m'.vals ↔ w ∈ m.vals ∧ now ≤ death w.2 := by
  obtain ⟨m', hkept, -, hsub, hcounts⟩ := h.live now
  have hprune := hkept.onZset (f := fun m =>
    (.int (m.vals.filter fun e => e.2 < below).length, m.filter fun e => below ≤ e.2)) rfl
    fun w hw => (List.mem_filter.mp hw).1
  refine ⟨_, hprune.2, ?_⟩
  intro w
  simp only [Registry.filter, List.mem_filter, decide_eq_true_eq, hbelow]
  exact and_congr_left fun hw => ⟨hsub w, fun hmem => hcounts w hmem hw⟩

end Redis
