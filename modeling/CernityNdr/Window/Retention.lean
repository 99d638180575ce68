import CernityNdr.Window.SortedSets

/-! # Windows and First-Seen Sets on Both Backends

    Windows, first-seen sets and sets whose members age on their own, on the
    in-memory store and on a server that follows Redis's documentation. The
    processing time is the event-time clock: no score is ahead of it, and a
    window is read from `now - ttl` on.

    An entry that is written again while it is in the window is one member in
    Redis and two entries in memory; the distinct entries are the same. -/

open CappedMap (FieldMap)
open InMemoryStore (Entry WriteOp)

namespace Retention

/-! ### Operations -/

/-- What a key is used for. -/
inductive Kind
  | window
  | firstSeen
  | members

/-- What the keys are used for, and the time to live of all of them. -/
structure Layout where
  kind : String → Kind
  /-- the values of the window are texts, not numbers -/
  texts : String → Bool
  ttl : ℚ
  ttl_pos : 0 < ttl

variable (L : Layout)

/-- The values of one window can be sorted: they are numbers, or texts. -/
def Sortable (texts : Bool) : Json → Prop
  | .str _ => texts = true
  | .int _ => texts = false
  | .float _ => texts = false
  | _ => False

/-- The index of a write is a set. -/
def Indexed (idx : Option String) : Prop := ∀ i, idx = some i → L.kind i = .members

/-- A buffered write. -/
def RetentionWrite (now : ℚ) : WriteOp → Prop
  | .win key idx score value ttl => L.kind key = .window ∧ score ≤ now ∧
      Sortable (L.texts key) value ∧ ttl = L.ttl ∧ Indexed L idx
  | .znx key _ _ ttl idx => L.kind key = .firstSeen ∧ ttl = L.ttl ∧ Indexed L idx
  | .sadd key _ ttl => L.kind key = .members ∧ ttl = L.ttl
  | _ => False

/-- An operation on windows and sets. `window_add_indexed` is the batch of
    its item. -/
def RetentionOp (op : ℚ × StoreOp) : Prop :=
  match op.2 with
  | .call key (.window_add score value ttl) => L.kind key = .window ∧ score ≤ op.1 ∧
      Sortable (L.texts key) value ∧ ttl = L.ttl
  | .call key (.window_range minScore) => L.kind key = .window ∧ minScore = op.1 - L.ttl
  | .call key (.zset_since _) => L.kind key = .firstSeen
  | .call key (.zset_rank _) => L.kind key = .firstSeen
  | .call key (.set_add _ ttl _) => L.kind key = .members ∧ ttl = L.ttl
  | .call key .set_len => L.kind key = .members
  | .call key (.set_contains _) => L.kind key = .members
  | .call key .set_members => L.kind key = .members
  | .call key (.set_remove _) => L.kind key = .members
  | .batch ws => ∀ w ∈ ws, RetentionWrite L op.1 w
  | _ => False

/-- For how much longer Redis keeps a key. -/
def extra : ℚ := RedisStore.seconds L.ttl - L.ttl

/-- Nothing of the key expires here or only on one of the two. About an entry
    or a member they differ at its expiry, about a first-seen set until
    Redis's own. -/
def Clear (kind : Kind) (e : Entry) (now : ℚ) : Prop :=
  match kind with
  | .window => ∀ x ∈ e.z.getD [], now ≠ x.expiry
  | .firstSeen => Table.Clear (extra L) e now
  | .members => ∀ w ∈ (e.s.getD .empty).vals, now ≠ w.2

def ClearOp (st : InMemoryStore) (op : ℚ × StoreOp) : Prop :=
  match op.2 with
  | .call key _ => Clear L (L.kind key) (st.entry key) op.1
  | .batch ws => Machine.Meets (fun st w => w.run st op.1)
      (fun st w => ∀ k, w.touches k = true → Clear L (L.kind k) (st.entry k) op.1) st ws
  | _ => True

/-- The same answer. A window of Redis has its entries once. -/
def SameAnswer : Method → Answer → Answer → Prop
  | .window_range _, .window es, .window es' => es'.Nodup ∧ ∀ p, p ∈ es' ↔ p ∈ es
  | m, a, a' => m.Same a a'

/-! ### What both have under a key -/

open InMemoryStore RedisStore

/-- The entries of a window and the members that stand for them. Entries that
    no range returns any more are left out. -/
structure SameWindow (R : Redis) (ttl t : ℚ) (z : List WindowEntry) (m : FieldMap String ℚ) :
    Prop where
  late : ∀ x ∈ z, x.score + ttl ≤ x.expiry
  encoded : ∀ w ∈ m.vals, ∃ v, w.1 = R.dumpEntry w.2 v
  same : ∀ s v, t ≤ s + ttl →
    ((∃ x ∈ z, x.score = s ∧ x.value = v) ↔ (R.dumpEntry s v, s) ∈ m.vals)

/-- The members of a set, those that have expired left out. -/
def SameMembers (t : ℚ) (s m : FieldMap String ℚ) : Prop := ∀ w, t ≤ w.2 → (w ∈ s.vals ↔ w ∈ m.vals)

def firstSeenSets : Table := ⟨Entry.zs, .zset⟩

/-- What the in-memory store and the server have under a key. -/
def Related (R : Redis) (t : ℚ) (e : Entry) (c : Option Slot) : Kind → Prop
  | .window => ∃ m, Redis.Kept (· + L.ttl) (t + seconds L.ttl) c m ∧
      SameWindow R L.ttl t (e.z.getD []) m
  | .firstSeen => firstSeenSets.Mirrored (extra L) t e c
  | .members => ∃ m, Redis.Kept id (t + seconds L.ttl) c m ∧ SameMembers t (e.s.getD .empty) m

variable {L} {R : Redis} {t now : ℚ} {e : Entry} {c : Option Slot} {kind : Kind} {score : ℚ}
  {value : Json} {member : String}

theorem extra_pos (L : Layout) : 0 < extra L := sub_pos.mpr (lt_seconds L.ttl_pos)

theorem Related.mono (h : Related L R t e c kind) (ht : t ≤ now) : Related L R now e c kind := by
  have hlast : t + seconds L.ttl ≤ now + seconds L.ttl := by linarith
  cases kind with
  | window =>
    obtain ⟨m, hkept, hsame⟩ := h
    exact ⟨m, hkept.mono hlast, hsame.late, hsame.encoded, fun s v hs => hsame.same s v (ht.trans hs)⟩
  | firstSeen => exact Table.Mirrored.mono h ht
  | members =>
    obtain ⟨m, hkept, hsame⟩ := h
    exact ⟨m, hkept.mono hlast, fun w hw => hsame w (ht.trans hw)⟩

theorem Related.isZset (h : Related L R t e c kind) : Redis.IsZset c := by
  cases kind with
  | window =>
    obtain ⟨m, hkept, -⟩ := h
    exact hkept.isZset
  | firstSeen =>
    cases h with
    | there hexp hheld hne => exact .there hne
    | gone hended hunset => exact .gone
  | members =>
    obtain ⟨m, hkept, -⟩ := h
    exact hkept.isZset

/-! ### Windows -/

/-- `json.loads` reads what `json.dumps` wrote. -/
def RoundTrips (R : Redis) : Prop :=
  ∀ score value, R.loadEntry (R.dumpEntry score value) = some (score, value)

theorem RoundTrips.inj (hR : RoundTrips R) {s s' : ℚ} {v v' : Json}
    (h : R.dumpEntry s v = R.dumpEntry s' v') : s = s' ∧ v = v' := by
  have hload := hR s v
  rw [h, hR s' v'] at hload
  cases hload
  exact ⟨rfl, rfl⟩

theorem mem_put_pair {m : FieldMap String ℚ} {k k' : String} {x x' : ℚ} :
    (k', x') ∈ (m.put (k, x)).vals ↔ if k = k' then x = x' else (k', x') ∈ m.vals := by
  rw [← Registry.lookup_eq_some, Registry.lookup_put]
  split
  · exact Option.some_inj
  · exact Registry.lookup_eq_some

/-- `window_add`. -/
theorem related_window_add (hR : RoundTrips R) (h : Related L R t e c .window) (ht : t ≤ now)
    (hscore : score ≤ now) {exp : Option ℚ} :
    Related L R now
      { e with z := some (e.z.getD [] ++ [⟨score, value, now + L.ttl⟩]), exp := exp }
      (Redis.touch now (seconds L.ttl) false score (R.dumpEntry score value) c) .window := by
  obtain ⟨m, hkept, hsame⟩ := h
  have hlast : t + seconds L.ttl ≤ now + seconds L.ttl := by linarith
  have hlong := lt_seconds L.ttl_pos
  have hcount : score + L.ttl ≤ now + seconds L.ttl := by linarith
  obtain ⟨m', hsub, hcounts, htouched⟩ :=
    hkept.touch (R.dumpEntry score value) (seconds_pos L.ttl_pos) hlast hcount
  refine ⟨_, htouched, ?_, ?_, ?_⟩
  · intro x hx
    rcases List.mem_append.mp hx with hx | hx
    · exact hsame.late x hx
    · rw [List.mem_singleton.mp hx]
      show score + L.ttl ≤ now + L.ttl
      linarith
  · intro w hw
    rcases Registry.mem_put hw with hw | rfl
    · exact hsame.encoded w (hsub w hw)
    · exact ⟨value, rfl⟩
  · intro s v hs
    rw [mem_put_pair]
    by_cases hdump : R.dumpEntry score value = R.dumpEntry s v
    · obtain ⟨rfl, rfl⟩ := hR.inj hdump
      rw [if_pos rfl]
      refine iff_of_true ⟨⟨score, value, now + L.ttl⟩, ?_, rfl, rfl⟩ rfl
      exact List.mem_append_right _ List.mem_cons_self
    · have hmem : (R.dumpEntry s v, s) ∈ m'.vals ↔ (R.dumpEntry s v, s) ∈ m.vals :=
        ⟨hsub _, fun hmem => hcounts _ hmem hs⟩
      rw [if_neg hdump, hmem, ← hsame.same s v (ht.trans hs)]
      constructor
      · rintro ⟨x, hx, rfl, rfl⟩
        rcases List.mem_append.mp hx with hx | hx
        · exact ⟨x, hx, rfl, rfl⟩
        · rw [List.mem_singleton.mp hx] at hdump
          exact absurd rfl hdump
      · rintro ⟨x, hx, rfl, rfl⟩
        exact ⟨x, List.mem_append_left _ hx, rfl, rfl⟩

/-- The entries that a range returns and the members that the server keeps. -/
theorem SameWindow.range {z : List WindowEntry} {m m' : FieldMap String ℚ}
    (h : SameWindow R L.ttl t z m) (ht : t ≤ now) (hclear : ∀ x ∈ z, now ≠ x.expiry)
    (hm' : ∀ w, w ∈ m'.vals ↔ w ∈ m.vals ∧ now ≤ w.2 + L.ttl) :
    SameWindow R L.ttl now
      (z.filter fun x => now < x.expiry && now - L.ttl ≤ x.score) m' := by
  refine ⟨?_, ?_, ?_⟩
  · exact fun x hx => h.late x (List.mem_filter.mp hx).1
  · exact fun w hw => h.encoded w ((hm' w).mp hw).1
  · intro s v hs
    rw [hm', ← h.same s v (ht.trans hs)]
    constructor
    · rintro ⟨x, hx, rfl, rfl⟩
      exact ⟨⟨x, (List.mem_filter.mp hx).1, rfl, rfl⟩, hs⟩
    · rintro ⟨⟨x, hx, rfl, rfl⟩, -⟩
      have hlate := h.late x hx
      have hbefore : now < x.expiry := lt_of_le_of_ne (hs.trans hlate) (hclear x hx)
      have hfloor : now - L.ttl ≤ x.score := by linarith
      exact ⟨x, List.mem_filter.mpr ⟨hx, by simp [hbefore, hfloor]⟩, rfl, rfl⟩

theorem mem_inOrder {m : FieldMap String ℚ} {text : String} :
    text ∈ Redis.inOrder m ↔ text ∈ m.keys := by
  simp only [Redis.inOrder, List.mem_map, List.mem_insertionSort, Registry.keys]

theorem nodup_inOrder (m : FieldMap String ℚ) : (Redis.inOrder m).Nodup :=
  ((List.perm_insertionSort _ m.vals).map Prod.fst).nodup_iff.mpr m.keys_nodup

/-- The entries that the members stand for, each of them once. -/
theorem loaded_entries (hR : RoundTrips R) {m : FieldMap String ℚ}
    (hm : ∀ w ∈ m.vals, ∃ v, w.1 = R.dumpEntry w.2 v) :
    ((Redis.inOrder m).filterMap R.loadEntry).Nodup ∧
      ∀ s v, (s, v) ∈ (Redis.inOrder m).filterMap R.loadEntry ↔ (R.dumpEntry s v, s) ∈ m.vals := by
  have hload : ∀ text ∈ Redis.inOrder m, ∀ p, R.loadEntry text = some p →
      text = R.dumpEntry p.1 p.2 ∧ (text, p.1) ∈ m.vals := by
    intro text htext p hp
    obtain ⟨w, hw, rfl⟩ := List.mem_map.mp (mem_inOrder.mp htext)
    obtain ⟨v, hv⟩ := hm w hw
    rw [hv, hR w.2 v] at hp
    cases hp
    exact ⟨hv, hw⟩
  constructor
  · rw [List.Nodup, List.pairwise_filterMap]
    refine (nodup_inOrder m).imp_of_mem ?_
    rintro text text' htext htext' hne p hp p' hp' rfl
    exact hne ((hload text htext p hp).1.trans (hload text' htext' p hp').1.symm)
  · intro s v
    rw [List.mem_filterMap]
    constructor
    · rintro ⟨text, htext, hp⟩
      obtain ⟨rfl, hmem⟩ := hload text htext _ hp
      exact hmem
    · intro hmem
      exact ⟨R.dumpEntry s v, mem_inOrder.mpr (List.mem_map_of_mem hmem), hR s v⟩

/-- `window_range`. -/
theorem related_window_range (hR : RoundTrips R) (h : Related L R t e c .window) (ht : t ≤ now)
    (hclear : Clear L .window e now) :
    SameAnswer (.window_range (now - L.ttl))
        (.window ((((e.z.getD []).filter fun x => now < x.expiry && now - L.ttl ≤ x.score).map
          fun x => (x.score, x.value)).insertionSort (entryLe · ·)))
        (method (Redis.server R) now c (.window_range (now - L.ttl))).1 ∧
      Related L R now
        { e with z := some ((e.z.getD []).filter fun x => now < x.expiry && now - L.ttl ≤ x.score) }
        (method (Redis.server R) now c (.window_range (now - L.ttl))).2 .window := by
  obtain ⟨m, hkept, hsame⟩ := h
  have hbelow : ∀ x, now - L.ttl ≤ x ↔ now ≤ x + L.ttl := fun x => sub_le_iff_le_add
  obtain ⟨m', hpruned, hm'⟩ := hkept.prune hbelow
  have hrange := hsame.range ht hclear hm'
  have hlive := hpruned.live_eq fun w hw => ((hm' w).mp hw).2
  have hread := hpruned.onZset (f := fun m => (.texts (Redis.inOrder m), m)) rfl fun w hw => hw
  rw [← hlive] at hread
  have hanswer : (method (Redis.server R) now c (.window_range (now - L.ttl))).1 =
      .window ((Redis.inOrder m').filterMap R.loadEntry) :=
    congrArg (fun r => Answer.window ((RedisStore.Reply.texts? r).filterMap R.loadEntry)) hread.1
  obtain ⟨hnodup, hmem⟩ := loaded_entries hR hrange.encoded
  constructor
  · rw [hanswer]
    refine ⟨hnodup, ?_⟩
    rintro ⟨s, v⟩
    rw [hmem, List.mem_insertionSort, List.mem_map]
    constructor
    · intro hp
      obtain ⟨x, hx, rfl, rfl⟩ := (hrange.same s v ((hm' _).mp hp).2).mpr hp
      exact ⟨x, hx, rfl⟩
    · rintro ⟨x, hx, heq⟩
      cases heq
      have hcond := (List.mem_filter.mp hx).2
      simp only [Bool.and_eq_true, decide_eq_true_eq] at hcond
      exact (hrange.same _ _ ((hbelow _).mp hcond.2)).mp ⟨x, hx, rfl, rfl⟩
  · exact ⟨m', hread.2.mono (by linarith), hrange⟩

/-! ### First-seen sets -/

theorem setDefault_eq (m : FieldMap String ℚ) (member : String) (score : ℚ) :
    setDefault m member score = Redis.addTo true m member score := by
  have hmem : member ∈ m.keys ↔ (m.lookup member).isSome := mem_keys_iff
  unfold setDefault Redis.addTo
  cases hlookup : m.lookup member with
  | none => simp [hmem, hlookup]
  | some x => simp [hmem, hlookup]

/-- `znx`. -/
theorem related_znx (h : Related L R t e c .firstSeen) (ht : t ≤ now)
    (hclear : Clear L .firstSeen e now) :
    Related L R now
      { e with
        zs := some (setDefault (if e.alive now then e.zs.getD .empty else .empty) member score)
        exp := some (now + L.ttl) }
      (Redis.touch now (seconds L.ttl) true score member c) .firstSeen := by
  have hmembers : Redis.membersOf (Redis.live now c) = firstSeenSets.read e now := by
    rcases Table.Mirrored.at h (extra_pos L).le ht hclear with
      ⟨x, m, -, -, -, -, hread, hlive⟩ | ⟨hread, hlive, -, -⟩
    · rw [hlive, hread]
      rfl
    · rw [hlive, hread]
      rfl
  have hexpiry : now + L.ttl + extra L = now + seconds L.ttl := by
    unfold extra
    ring
  rw [Redis.touch_eq (Related.isZset h) (seconds_pos L.ttl_pos), hmembers, ← setDefault_eq, ← hexpiry]
  refine .there rfl rfl ?_
  rw [setDefault_eq]
  exact Redis.addTo_ne_nil true _ member score

/-- A command that reads a first-seen set. -/
theorem related_read (h : Related L R t e c .firstSeen) (ht : t ≤ now)
    (hclear : Clear L .firstSeen e now) {f : FieldMap String ℚ → Reply} :
    (Redis.onZset (Redis.live now c) fun m => (f m, m)).1 = f (firstSeenSets.read e now) ∧
      Related L R now e (Redis.onZset (Redis.live now c) fun m => (f m, m)).2 .firstSeen := by
  rcases Table.Mirrored.at h (extra_pos L).le ht hclear with
    ⟨x, m, -, hexp, hheld, hne, hread, hlive⟩ | ⟨hread, hlive, hended, hunset⟩
  · rw [hlive, hread]
    show (Redis.onZset (some ⟨.zset m, some _⟩) fun m => (f m, m)).1 = _ ∧
      Related L R now e (Redis.onZset (some ⟨.zset m, some _⟩) fun m => (f m, m)).2 .firstSeen
    rw [Redis.onZset_some hne]
    exact ⟨rfl, .there hexp hheld hne⟩
  · rw [hlive, hread]
    exact ⟨rfl, .gone hended hunset⟩

/-- `zset_since`. -/
theorem related_zset_since (h : Related L R t e c .firstSeen) (ht : t ≤ now)
    (hclear : Clear L .firstSeen e now) (minScore : ℚ) :
    Answer.members (sinceOf (firstSeenSets.read e now) minScore) =
        (method (Redis.server R) now c (.zset_since minScore)).1 ∧
      Related L R now e (method (Redis.server R) now c (.zset_since minScore)).2 .firstSeen := by
  obtain ⟨hreply, hrelated⟩ := related_read h ht hclear (f := fun m => .texts (sinceOf m minScore))
  exact ⟨congrArg (fun r => Answer.members (RedisStore.Reply.texts? r)) hreply.symm, hrelated⟩

/-- `zset_rank`. -/
theorem related_zset_rank (h : Related L R t e c .firstSeen) (ht : t ≤ now)
    (hclear : Clear L .firstSeen e now) (member : String) :
    Answer.rank (rankOf (firstSeenSets.read e now) member) =
        (method (Redis.server R) now c (.zset_rank member)).1 ∧
      Related L R now e (method (Redis.server R) now c (.zset_rank member)).2 .firstSeen := by
  obtain ⟨hreply, hrelated⟩ := related_read h ht hclear
    (f := fun m => ((rankOf m member).map fun n => Reply.int n).getD .nil)
  refine ⟨?_, hrelated⟩
  have hrank : ∀ n : Option Nat, RedisStore.Reply.rank? ((n.map fun n => Reply.int n).getD .nil) = n := by
    intro n
    cases n with
    | none => rfl
    | some n => exact congrArg some (Int.toNat_natCast n)
  have hanswer := congrArg (fun r => Answer.rank (RedisStore.Reply.rank? r)) hreply
  rw [hrank] at hanswer
  exact hanswer.symm

/-! ### Sets -/

/-- Two dictionaries with the same pairs. -/
theorem same_pairs {s m : FieldMap String ℚ} (h : ∀ w, w ∈ s.vals ↔ w ∈ m.vals) :
    s.vals.length = m.vals.length ∧ ∀ k, k ∈ s.keys ↔ k ∈ m.keys := by
  have hnodup : ∀ r : FieldMap String ℚ, r.vals.Nodup := fun r => r.nodup.of_map
  constructor
  · exact ((List.perm_ext_iff_of_nodup (hnodup s) (hnodup m)).mpr h).length_eq
  · intro k
    simp only [Registry.keys, List.mem_map, h]

/-- Both prune to the same members. -/
theorem pruned_members (h : Related L R t e c .members) (ht : t ≤ now)
    (hclear : Clear L .members e now) : ∃ m : FieldMap String ℚ,
      Redis.Kept id (now + seconds L.ttl) (pruneSet (Redis.server R) now c) m ∧
        (∀ w ∈ m.vals, now ≤ id w.2) ∧ ∀ w, w ∈ (e.members now).vals ↔ w ∈ m.vals := by
  obtain ⟨m, hkept, hsame⟩ := h
  obtain ⟨m', hpruned, hm'⟩ := hkept.prune fun x => Iff.rfl
  refine ⟨m', hpruned.mono (by linarith), fun w hw => ((hm' w).mp hw).2, ?_⟩
  intro w
  simp only [hm', Entry.members, Registry.filter, List.mem_filter, decide_eq_true_eq]
  constructor
  · rintro ⟨hw, hlive⟩
    exact ⟨(hsame w (ht.trans hlive.le)).mp hw, hlive.le⟩
  · rintro ⟨hw, hlive⟩
    have hmem := (hsame w (ht.trans hlive)).mpr hw
    exact ⟨hmem, lt_of_le_of_ne hlive (hclear w hmem)⟩

theorem getD_prune (e : Entry) (now : ℚ) : (e.prune now).s.getD .empty = e.members now := by
  unfold Entry.prune
  split
  · next hempty => exact (Registry.ext_vals (List.isEmpty_iff.mp hempty)).symm
  · rfl

/-- A command that reads a set after it was pruned. -/
theorem pruned_read (h : Related L R t e c .members) (ht : t ≤ now)
    (hclear : Clear L .members e now) (f : FieldMap String ℚ → Reply) : ∃ m : FieldMap String ℚ,
      (∀ w, w ∈ (e.members now).vals ↔ w ∈ m.vals) ∧
      (Redis.onZset (Redis.live now (pruneSet (Redis.server R) now c)) fun m => (f m, m)).1 = f m ∧
      Related L R now (e.prune now)
        (Redis.onZset (Redis.live now (pruneSet (Redis.server R) now c)) fun m => (f m, m)).2
        .members := by
  obtain ⟨m, hkept, hcounted, hsame⟩ := pruned_members h ht hclear
  have hread := hkept.onZset (f := fun m => (f m, m)) rfl fun w hw => hw
  rw [hkept.live_eq hcounted]
  refine ⟨m, hsame, hread.1, m, hread.2, ?_⟩
  rw [getD_prune]
  exact fun w _ => hsame w

/-- `set_len`. -/
theorem related_set_len (h : Related L R t e c .members) (ht : t ≤ now)
    (hclear : Clear L .members e now) :
    Answer.count (e.members now).vals.length = (method (Redis.server R) now c .set_len).1 ∧
      Related L R now (e.prune now) (method (Redis.server R) now c .set_len).2 .members := by
  obtain ⟨m, hsame, hreply, hrelated⟩ := pruned_read h ht hclear fun m => .int m.vals.length
  refine ⟨?_, hrelated⟩
  rw [(same_pairs hsame).1]
  exact congrArg (fun r => Answer.count (RedisStore.Reply.count? r)) hreply.symm

/-- The score of a member is given when it is there. -/
theorem given_zscore (m : FieldMap String ℚ) (member : String) :
    RedisStore.Reply.given (((m.lookup member).map Reply.number).getD .nil) =
      decide (member ∈ m.keys) := by
  have hmem : member ∈ m.keys ↔ (m.lookup member).isSome := mem_keys_iff
  cases hlookup : m.lookup member with
  | none => simp [hmem, hlookup, RedisStore.Reply.given]
  | some x => simp [hmem, hlookup, RedisStore.Reply.given]

/-- `set_contains`. -/
theorem related_set_contains (h : Related L R t e c .members) (ht : t ≤ now)
    (hclear : Clear L .members e now) (member : String) :
    Answer.bool (decide (member ∈ (e.members now).keys)) =
        (method (Redis.server R) now c (.set_contains member)).1 ∧
      Related L R now (e.prune now) (method (Redis.server R) now c (.set_contains member)).2
        .members := by
  obtain ⟨m, hsame, hreply, hrelated⟩ :=
    pruned_read h ht hclear fun m => ((m.lookup member).map Reply.number).getD .nil
  refine ⟨?_, hrelated⟩
  have hanswer := congrArg (fun r => Answer.bool (RedisStore.Reply.given r)) hreply
  simp only [given_zscore, ← (same_pairs hsame).2 member] at hanswer
  exact hanswer.symm

/-- `set_members`. -/
theorem related_set_members (h : Related L R t e c .members) (ht : t ≤ now)
    (hclear : Clear L .members e now) :
    SameAnswer .set_members (.members (e.members now).keys)
        (method (Redis.server R) now c .set_members).1 ∧
      Related L R now (e.prune now) (method (Redis.server R) now c .set_members).2 .members := by
  obtain ⟨m, hsame, hreply, hrelated⟩ := pruned_read h ht hclear fun m => .texts (Redis.inOrder m)
  refine ⟨?_, hrelated⟩
  have hanswer : (method (Redis.server R) now c .set_members).1 = .members (Redis.inOrder m) :=
    congrArg (fun r => Answer.members (RedisStore.Reply.texts? r)) hreply
  rw [hanswer]
  exact fun k => ((same_pairs hsame).2 k).trans mem_inOrder.symm

/-- `set_remove`. -/
theorem related_set_remove (h : Related L R t e c .members) (ht : t ≤ now) (member : String) :
    Related L R now { e with s := e.s.map fun s => s.pop member }
      (method (Redis.server R) now c (.set_remove member)).2 .members := by
  obtain ⟨m, hkept, hsame⟩ := h
  obtain ⟨m', hlive, -, hsub, hcounts⟩ := hkept.live now
  have hpopped := hlive.onZset (f := fun m =>
    (.int (if member ∈ m.keys then 1 else 0), m.pop member)) rfl fun w hw => Registry.mem_of_mem_pop hw
  refine ⟨_, hpopped.2.mono (by linarith), ?_⟩
  have hpop : ∀ (r : FieldMap String ℚ) w, w ∈ (r.pop member).vals ↔ w ∈ r.vals ∧ w.1 ≠ member := by
    intro r w
    simp [Registry.pop, Registry.filter]
  have hentry : (e.s.map fun s : FieldMap String ℚ => s.pop member).getD .empty =
      (e.s.getD .empty).pop member := by
    cases e.s with
    | none => rfl
    | some s => rfl
  intro w hw
  show w ∈ ((e.s.map fun s : FieldMap String ℚ => s.pop member).getD .empty).vals ↔
    w ∈ (m'.pop member).vals
  rw [hentry, hpop, hpop, hsame w (ht.trans hw)]
  exact and_congr_left fun _ => ⟨fun hmem => hcounts w hmem hw, hsub w⟩

/-- A member is put on both. -/
theorem related_put {s m : FieldMap String ℚ} {last : ℚ} (hkept : Redis.Kept id last c m)
    (hlast : last ≤ now + seconds L.ttl) (hsame : SameMembers now s m) {exp : Option ℚ} :
    Related L R now { e with s := some (s.put (member, now + L.ttl)), exp := exp }
      (Redis.touch now (seconds L.ttl) false (now + L.ttl) member c) .members := by
  have hlong : now + L.ttl ≤ now + seconds L.ttl := by linarith [lt_seconds L.ttl_pos]
  obtain ⟨m', hsub, hcounts, htouched⟩ := hkept.touch member (seconds_pos L.ttl_pos) hlast hlong
  refine ⟨_, htouched, ?_⟩
  rintro ⟨k, y⟩ hy
  show (k, y) ∈ (s.put (member, now + L.ttl)).vals ↔ _
  rw [mem_put_pair, mem_put_pair, hsame _ hy]
  split
  · exact Iff.rfl
  · exact ⟨fun hmem => hcounts _ hmem hy, hsub _⟩

/-- `set_add` without a cap, and every other write to a set. -/
theorem related_set_touch (h : Related L R t e c .members) (ht : t ≤ now)
    (hclear : Clear L .members e now) {exp : Option ℚ} :
    Related L R now { e with s := some (addMember (e.members now) member (now + L.ttl) none), exp := exp }
      (Redis.touch now (seconds L.ttl) false (now + L.ttl) member c) .members := by
  obtain ⟨m, hkept, hsame⟩ := h
  have hadd : addMember (e.members now) member (now + L.ttl) none =
      (e.members now).put (member, now + L.ttl) := by simp [addMember]
  rw [hadd]
  refine related_put hkept (by linarith) ?_
  intro w hw
  rw [← hsame w (ht.trans hw)]
  simp only [Entry.members, Registry.filter, List.mem_filter, decide_eq_true_eq]
  exact and_iff_left_of_imp fun hmem => lt_of_le_of_ne hw (hclear w hmem)

/-- `set_add`. A cap counts the members that are left. -/
theorem related_set_add (h : Related L R t e c .members) (ht : t ≤ now)
    (hclear : Clear L .members e now) (cap : Option Nat) {exp : Option ℚ} :
    Related L R now { e with s := some (addMember (e.members now) member (now + L.ttl) cap), exp := exp }
      (RedisStore.setAdd (Redis.server R) now member L.ttl cap c) .members := by
  cases cap with
  | none => exact related_set_touch h ht hclear
  | some cap =>
    obtain ⟨m, hkept, hcounted, hsame⟩ := pruned_members h ht hclear
    obtain ⟨hlength, hkeys⟩ := same_pairs hsame
    have hset : SameMembers now (e.members now) m := fun w _ => hsame w
    obtain ⟨hcard, hkept₂⟩ :=
      hkept.onZset (f := fun m => (.int m.vals.length, m)) rfl fun w hw => hw
    obtain ⟨hscore, hkept₃⟩ := hkept₂.onZset
      (f := fun m => (((m.lookup member).map Reply.number).getD .nil, m)) rfl fun w hw => hw
    rw [← hkept₂.live_eq hcounted, ← hkept.live_eq hcounted] at hscore hkept₃
    rw [← hkept.live_eq hcounted] at hcard hkept₂
    have hcount : RedisStore.Reply.count? ((Redis.server R).exec now .zcard
        (pruneSet (Redis.server R) now c)).1 = m.vals.length :=
      congrArg RedisStore.Reply.count? hcard
    have hgiven : RedisStore.Reply.given ((Redis.server R).exec now (.zscore member)
        ((Redis.server R).exec now .zcard (pruneSet (Redis.server R) now c)).2).1 =
          decide (member ∈ m.keys) :=
      (congrArg RedisStore.Reply.given hscore).trans (given_zscore m member)
    unfold RedisStore.setAdd addMember
    dsimp only
    rw [hcount, hgiven]
    by_cases hfull : cap < m.vals.length
    · have hnotle : ¬(e.members now).vals.length ≤ cap := by
        rw [hlength]
        exact not_le.mpr hfull
      by_cases hmem : member ∈ m.keys
      · simp only [hfull, if_true, hmem, decide_true, (hkeys member).mpr hmem, or_true]
        exact related_put hkept₃ le_rfl hset
      · simp only [hfull, if_true, hmem, decide_false, Bool.false_eq_true, if_false, Option.all_some,
          hnotle, mt (hkeys member).mp hmem, or_false]
        exact ⟨m, hkept₃, hset⟩
    · have hle : (e.members now).vals.length ≤ cap := by
        rw [hlength]
        exact not_lt.mp hfull
      simp only [hfull, if_false, Option.all_some, hle, decide_true, true_or, if_true]
      exact related_put hkept₂ le_rfl hset

/-! ### Batches -/

variable {k : String} {st : InMemoryStore} {w : WriteOp} {ws : List WriteOp}

/-- What a write adds under its key. -/
def mainTouch (R : Redis) (now : ℚ) : WriteOp → List (Bool × ℚ × String)
  | .win _ _ score value _ => [(false, score, R.dumpEntry score value)]
  | .znx _ member score _ _ => [(true, score, member)]
  | .sadd _ member ttl => [(false, now + ttl, member)]
  | _ => []

/-- What a write adds under a key. -/
def touchesAt (R : Redis) (now : ℚ) (k : String) (w : WriteOp) : List (Bool × ℚ × String) :=
  (if w.key = k then mainTouch R now w else []) ++
    if w.idx = some k then [(false, now + w.ttl, w.key)] else []

def touchAll (L : Layout) (now : ℚ) (zs : List (Bool × ℚ × String)) (c : Option Slot) : Option Slot :=
  zs.foldl (fun c z => Redis.touch now (seconds L.ttl) z.1 z.2.1 z.2.2 c) c

theorem RetentionWrite.layout (h : RetentionWrite L now w) :
    w.ttl = L.ttl ∧ Indexed L w.idx ∧ w.idx ≠ some w.key := by
  have hne : ∀ {key : String} {idx : Option String}, L.kind key ≠ .members → Indexed L idx →
      idx ≠ some key := fun hkind hidx heq => hkind (hidx _ heq)
  cases w with
  | win key idx score value ttl =>
    obtain ⟨hkind, -, -, httl, hidx⟩ := h
    exact ⟨httl, hidx, hne (by simp [WriteOp.key, hkind]) hidx⟩
  | znx key member score ttl idx =>
    obtain ⟨hkind, httl, hidx⟩ := h
    exact ⟨httl, hidx, hne (by simp [WriteOp.key, hkind]) hidx⟩
  | sadd key member ttl => exact ⟨h.2, (fun i hi => by cases hi), by simp [WriteOp.idx]⟩
  | _ => exact h.elim

/-- A write under its own key. -/
theorem related_write_key (hR : RoundTrips R) (hw : RetentionWrite L now w)
    (h : Related L R t (st.entry w.key) c (L.kind w.key)) (ht : t ≤ now)
    (hclear : Clear L (L.kind w.key) (st.entry w.key) now) :
    Related L R now ((w.write st now).entry w.key) (touchAll L now (mainTouch R now w) c)
      (L.kind w.key) := by
  cases w with
  | win key idx score value ttl =>
    obtain ⟨hkind, hscore, -, rfl, -⟩ := hw
    show Related L R now (entry (st.windowAdd key score value L.ttl now) key) _ (L.kind key)
    rw [entry_windowAdd, if_pos rfl]
    rw [WriteOp.key, hkind] at h hclear
    rw [hkind]
    exact related_window_add hR h ht hscore
  | znx key member score ttl idx =>
    obtain ⟨hkind, rfl, -⟩ := hw
    show Related L R now (entry (st.firstSeen key member score L.ttl now) key) _ (L.kind key)
    rw [entry_firstSeen, if_pos rfl]
    rw [WriteOp.key, hkind] at h hclear
    rw [hkind]
    exact related_znx h ht hclear
  | sadd key member ttl =>
    obtain ⟨hkind, rfl⟩ := hw
    show Related L R now (entry (st.setAdd key member L.ttl none now) key) _ (L.kind key)
    rw [entry_setAdd, if_pos rfl]
    rw [WriteOp.key, hkind] at h hclear
    rw [hkind]
    exact related_set_touch h ht hclear
  | _ => exact hw.elim

/-- **One buffered write**, seen from any key. -/
theorem related_write (hR : RoundTrips R) (hw : RetentionWrite L now w)
    (h : Related L R t (st.entry k) c (L.kind k)) (ht : t ≤ now)
    (hclear : w.touches k = true → Clear L (L.kind k) (st.entry k) now) :
    Related L R now ((w.run st now).entry k) (touchAll L now (touchesAt R now k w) c) (L.kind k) := by
  obtain ⟨httl, hindexed, hother⟩ := hw.layout
  rw [run_eq, touchesAt]
  by_cases hidx : w.idx = some k
  · have hkey : w.key ≠ k := fun heq => hother (by rw [hidx, heq])
    have hkind : L.kind k = .members := hindexed k hidx
    have hclear := hclear (by simp [WriteOp.touches, hidx])
    rw [if_neg hkey, if_pos hidx, hidx, List.nil_append, httl]
    show Related L R now (entry ((w.write st now).setAdd k w.key L.ttl none now) k) _ _
    rw [entry_setAdd, if_pos rfl, entry_write_other hkey]
    rw [hkind] at h hclear ⊢
    exact related_set_touch h ht hclear
  · rw [entry_index_other hidx, if_neg hidx, List.append_nil]
    by_cases hkey : w.key = k
    · subst hkey
      rw [if_pos rfl]
      exact related_write_key hR hw h ht (hclear (by simp [WriteOp.touches]))
    · rw [if_neg hkey, entry_write_other hkey]
      exact h.mono ht

theorem related_batch (hR : RoundTrips R) (hws : ∀ w ∈ ws, RetentionWrite L now w)
    (hclear : Machine.Meets (fun st (w : WriteOp) => w.run st now)
      (fun st w => ∀ k, w.touches k = true → Clear L (L.kind k) (st.entry k) now) st ws)
    (h : Related L R t (st.entry k) c (L.kind k)) (ht : t ≤ now) :
    Related L R now ((st.batch now ws).entry k)
      (touchAll L now (ws.flatMap (touchesAt R now k)) c) (L.kind k) := by
  induction ws generalizing st c t with
  | nil => exact h.mono ht
  | cons w ws ih =>
    obtain ⟨hw, hws⟩ := List.forall_mem_cons.mp hws
    obtain ⟨hfirst, hrest⟩ := hclear.uncons
    rw [batch_cons, List.flatMap_cons, touchAll, List.foldl_append]
    exact ih hws hrest (related_write hR hw h ht (hfirst k)) le_rfl

/-- What a write queues about a key. -/
theorem queued_touches (hw : RetentionWrite L now w) :
    (queued R now w).filter (·.1 = k) = (touchesAt R now k w).flatMap (Redis.queuedTouch k L.ttl) := by
  obtain ⟨httl, -, -⟩ := hw.layout
  have hindex : (queuedIndex now w.key w.ttl w.idx).filter (·.1 = k) =
      (if w.idx = some k then [(false, now + w.ttl, w.key)] else []).flatMap
        (Redis.queuedTouch k L.ttl) := by
    cases hidx : w.idx with
    | none => simp [queuedIndex]
    | some i =>
      by_cases hi : i = k
      · simp [queuedIndex, Redis.queuedTouch, hi, httl]
      · simp [queuedIndex, hi]
  have hmain : ((queuedWrite R now w).map (w.key, ·)).filter (·.1 = k) =
      (if w.key = k then mainTouch R now w else []).flatMap (Redis.queuedTouch k L.ttl) := by
    cases w with
    | win key idx score value ttl =>
      by_cases hkey : key = k
      · simp [queuedWrite, mainTouch, Redis.queuedTouch, WriteOp.key, hkey, hw.2.2.2.1]
      · simp [queuedWrite, WriteOp.key, hkey]
    | znx key member score ttl idx =>
      by_cases hkey : key = k
      · simp [queuedWrite, mainTouch, Redis.queuedTouch, WriteOp.key, hkey, hw.2.1]
      · simp [queuedWrite, WriteOp.key, hkey]
    | sadd key member ttl =>
      by_cases hkey : key = k
      · simp [queuedWrite, mainTouch, Redis.queuedTouch, WriteOp.key, hkey, hw.2]
      · simp [queuedWrite, WriteOp.key, hkey]
    | _ => exact hw.elim
  rw [queued, List.filter_append, hmain, hindex, touchesAt, List.flatMap_append]

theorem cell_touches (hws : ∀ w ∈ ws, RetentionWrite L now w) (st' : Keys (Redis.server R))
    (hc : Redis.IsZset (cell (Redis.server R) st' k)) :
    cell (Redis.server R) (RedisStore.pipelineOps (Redis.server R) st' now ws) k =
      touchAll L now (ws.flatMap (touchesAt R now k)) (cell (Redis.server R) st' k) := by
  have hsame : k ∈ ([] : List String) ↔ k ∈ ([] : List String) := Iff.rfl
  have hqueued : (ws.flatMap (queued (Redis.server R) now)).filter (·.1 = k) =
      (ws.flatMap (touchesAt R now k)).flatMap (Redis.queuedTouch k L.ttl) := by
    induction ws with
    | nil => rfl
    | cons w ws ih =>
      obtain ⟨hw, hws⟩ := List.forall_mem_cons.mp hws
      rw [List.flatMap_cons, List.filter_append, ih hws, List.flatMap_cons, List.flatMap_append]
      exact congrArg (· ++ _) (queued_touches (R := Redis.server R) hw)
  rw [RedisStore.pipelineOps, cell_send, commands_filter hsame, hqueued]
  exact Redis.foldl_commands (seconds_pos L.ttl_pos) _ hc fun h => absurd h List.not_mem_nil

/-! ### Runs -/

variable (L) in
/-- Every key is related. -/
def RelatedAll (t : ℚ) (st : InMemoryStore) (st' : Keys (Redis.server R)) : Prop :=
  ∀ k, Related L R t (st.entry k) (cell (Redis.server R) st' k) (L.kind k)

variable {st' : Keys (Redis.server R)}

/-- Only what is under `key` changes. -/
theorem RelatedAll.update {st₂ : InMemoryStore} {e : Entry} {key : String}
    (h : RelatedAll L t st st') (ht : t ≤ now)
    (hentry : ∀ k, entry st₂ k = if key = k then e else entry st k)
    (hkey : Related L R now e c (L.kind key)) : RelatedAll L now st₂ (st'.put (key, c)) := by
  intro k
  rw [hentry, cell_put]
  by_cases hk : key = k
  · subst hk
    rw [if_pos rfl, if_pos rfl]
    exact hkey
  · rw [if_neg hk, if_neg hk]
    exact (h k).mono ht

/-- An operation that leaves the in-memory store as it is. -/
theorem entry_same (key k : String) : entry st k = if key = k then entry st key else entry st k := by
  split
  · next hk => rw [hk]
  · rfl

/-- An operation at one key, from what it does under that key. -/
theorem call_related {key : String} {m : Method} (h : RelatedAll L t st st') (ht : t ≤ now)
    (hkind : L.kind key = kind) (hclear : Clear L (L.kind key) (st.entry key) now)
    (hentry : ∀ k, entry (st.call now key m).2 k = if key = k then e else entry st k)
    (hstep : Related L R t (st.entry key) (cell (Redis.server R) st' key) kind →
      Clear L kind (st.entry key) now →
        SameAnswer m (st.call now key m).1
            (method (Redis.server R) now (cell (Redis.server R) st' key) m).1 ∧
          Related L R now e (method (Redis.server R) now (cell (Redis.server R) st' key) m).2 kind) :
    SameAnswer m (st.call now key m).1 (RedisStore.call (Redis.server R) st' now key m).1 ∧
      RelatedAll L now (st.call now key m).2 (RedisStore.call (Redis.server R) st' now key m).2 := by
  subst hkind
  obtain ⟨hanswer, hrelated⟩ := hstep (h key) hclear
  exact ⟨hanswer, h.update ht hentry hrelated⟩

/-- **One operation** has the same answer on both, and keeps them related. -/
theorem step_related (hR : RoundTrips R) {op : ℚ × StoreOp} (h : RelatedAll L t st st')
    (ht : t ≤ op.1) (hop : RetentionOp L op) (hclear : ClearOp L st op) :
    Sharding.SameResult SameAnswer op.2 (Sharding.step InMemoryStore.keyed st op.1 op.2).1
        (Sharding.step (RedisStore.keyed (Redis.server R)) st' op.1 op.2).1 ∧
      RelatedAll L op.1 (Sharding.next InMemoryStore.keyed st op)
        (Sharding.next (RedisStore.keyed (Redis.server R)) st' op) := by
  obtain ⟨now, op⟩ := op
  cases op with
  | call key m =>
    show SameAnswer m (st.call now key m).1 (RedisStore.call (Redis.server R) st' now key m).1 ∧
      RelatedAll L now (st.call now key m).2 (RedisStore.call (Redis.server R) st' now key m).2
    cases m with
    | window_add score value ttl =>
      obtain ⟨hkind, hscore, -, rfl⟩ := hop
      exact call_related h ht hkind hclear (fun k => entry_windowAdd score value L.ttl)
        fun hkey _ => ⟨rfl, related_window_add hR hkey ht hscore⟩
    | window_range minScore =>
      obtain ⟨hkind, hfloor⟩ := hop
      have hfloor : minScore = now - L.ttl := hfloor
      subst hfloor
      exact call_related h ht hkind hclear (fun k => entry_windowRange (now - L.ttl))
        fun hkey hclear => related_window_range hR hkey ht hclear
    | zset_since minScore =>
      exact call_related h ht hop hclear (entry_same key)
        fun hkey hclear => related_zset_since hkey ht hclear minScore
    | zset_rank member =>
      exact call_related h ht hop hclear (entry_same key)
        fun hkey hclear => related_zset_rank hkey ht hclear member
    | set_add member ttl cap =>
      obtain ⟨hkind, rfl⟩ := hop
      exact call_related h ht hkind hclear (fun k => entry_setAdd member L.ttl cap)
        fun hkey hclear => ⟨rfl, related_set_add hkey ht hclear cap⟩
    | set_len =>
      refine call_related h ht hop hclear (fun k => entry_liveSet) fun hkey hclear => ?_
      have hlen := related_set_len hkey ht hclear
      rw [← liveSet_fst] at hlen
      exact hlen
    | set_contains member =>
      refine call_related h ht hop hclear (fun k => entry_liveSet) fun hkey hclear => ?_
      have hcontains := related_set_contains hkey ht hclear member
      rw [← liveSet_fst] at hcontains
      exact hcontains
    | set_members =>
      refine call_related h ht hop hclear (fun k => entry_liveSet) fun hkey hclear => ?_
      have hmembers := related_set_members hkey ht hclear
      rw [← liveSet_fst] at hmembers
      exact hmembers
    | set_remove member =>
      exact call_related h ht hop hclear (fun k => entry_setRemove member)
        fun hkey _ => ⟨rfl, related_set_remove hkey ht member⟩
    | _ => exact hop.elim
  | batch ws =>
    refine ⟨trivial, ?_⟩
    intro k
    show Related L R now ((st.batch now ws).entry k)
      (cell (Redis.server R) (RedisStore.pipelineOps (Redis.server R) st' now ws) k) (L.kind k)
    rw [cell_touches hop st' (h k).isZset]
    exact related_batch hR hop hclear (h k) ht
  | sweep => exact hop.elim
  | scan pfx => exact hop.elim

/-- Nothing is under a key at first. -/
theorem related_absent (t : ℚ) (k : String) (kind : Kind) :
    Related L R t (entry .empty k) none kind := by
  cases kind with
  | window =>
    refine ⟨.empty, .gone, ?_, ?_, ?_⟩
    · exact fun x hx => absurd hx List.not_mem_nil
    · exact fun w hw => absurd hw List.not_mem_nil
    · intro s v _
      refine iff_of_false ?_ List.not_mem_nil
      rintro ⟨x, hx, -⟩
      exact absurd hx List.not_mem_nil
  | firstSeen => exact .gone (fun x hx => by cases hx) fun _ => rfl
  | members => exact ⟨.empty, .gone, fun w _ => Iff.rfl⟩

theorem sameAnswer_iff {m : Method} (hm : ∀ x, m ≠ .window_range x) (a b : Answer) :
    SameAnswer m a b ↔ m.Same a b := by
  unfold SameAnswer
  split
  · exact absurd rfl (hm _)
  · exact Iff.rfl

/-- The same answer as a third. -/
theorem SameAnswer.trans_symm {m : Method} {a b d : Answer} (h : SameAnswer m a d)
    (h' : m.Same b d) : SameAnswer m a b := by
  cases m with
  | window_range minScore =>
    cases d with
    | window es' =>
      cases a with
      | window es =>
        cases b with
        | window es'' =>
          exact ⟨(List.Perm.nodup_iff h').mpr h.1, fun p => (List.Perm.mem_iff h').trans (h.2 p)⟩
        | _ => cases h'
      | _ => cases h
    | _ =>
      obtain rfl : a = _ := by cases a <;> exact h
      obtain rfl : b = _ := by cases b <;> exact h'
      rfl
  | _ =>
    have h := (sameAnswer_iff (by simp) a d).mp h
    exact (sameAnswer_iff (by simp) a b).mpr (h.trans h'.symm)

/-- The in-memory store after an operation. -/
def next (st : InMemoryStore) (op : ℚ × StoreOp) : InMemoryStore :=
  Sharding.next InMemoryStore.keyed st op

/-- **Both backends** give equal results in a run in which nothing expires on
    one of them only: the same lists, ranks and sets, and from a window the
    same entries, each of them once in Redis. -/
theorem retention_agrees {R : Redis} (doc : R.Documented) (hR : RoundTrips R) (L : Layout)
    (ops : List (ℚ × StoreOp)) (hops : ∀ op ∈ ops, RetentionOp L op)
    (hclock : (ops.map Prod.fst).Pairwise (· ≤ ·))
    (hclear : Machine.Meets next (ClearOp L) .empty ops) :
    Sharding.Agree InMemoryStore.keyed (RedisStore.keyed R) SameAnswer InMemoryStore.empty
      Registry.empty ops := by
  have hmemory : Sharding.Agree InMemoryStore.keyed (RedisStore.keyed (Redis.server R)) SameAnswer
      InMemoryStore.empty Registry.empty ops := by
    refine Sharding.agree_of_simulation_init
      (Q := fun t st st' => RelatedAll L t st st')
      (C := fun st op => RetentionOp L op ∧ ClearOp L st op) ?_ ?_ hclock ?_
    · exact fun t st st' op ht hop h => step_related hR h ht hop.1 hop.2
    · exact fun t k => related_absent t k (L.kind k)
    · intro pre op post heq
      exact ⟨hops op (by simp [heq]), hclear pre op post heq⟩
  have hat : ∀ op ∈ ops, Redis.AtKeys op.2 := by
    rintro ⟨now, op⟩ hop
    cases op with
    | call key m => trivial
    | batch ws => trivial
    | sweep => exact (hops _ hop).elim
    | scan pfx => exact (hops _ hop).elim
  exact hmemory.trans_symm (fun _ _ _ _ h h' => h.trans_symm h') (Redis.agree_server doc hat)

/-- One window and its index. -/
def oneWindow : Layout where
  kind key := if key = "bc:0:a" then .window else .members
  texts _ := true
  ttl := 60
  ttl_pos := by norm_num

/-- An entry is written twice and read, then its index. -/
def repeatedRun : List (ℚ × StoreOp) :=
  [(0, .batch [.win "bc:0:a" (some "idx:bc:0") 0 (.str "a") 60]),
    (0, .call "bc:0:a" (.window_add 0 (.str "a") 60)), (1, .call "bc:0:a" (.window_range (-59))),
    (1, .call "idx:bc:0" .set_members)]

theorem repeatedRun_ops : ∀ op ∈ repeatedRun, RetentionOp oneWindow op := by
  simp [repeatedRun, RetentionOp, RetentionWrite, oneWindow, Sortable, Indexed]
  norm_num

theorem repeatedRun_clear : Machine.Meets next (ClearOp oneWindow) .empty repeatedRun := by
  unfold repeatedRun
  apply Machine.Meets.cons
  · show Machine.Meets (fun st (w : WriteOp) => w.run st 0)
      (fun st w => ∀ k, w.touches k = true → Clear oneWindow (oneWindow.kind k) (st.entry k) 0) _ _
    apply Machine.Meets.cons
    · intro k _
      unfold Clear
      split
      · exact fun x hx => absurd hx List.not_mem_nil
      · exact fun x hx => by cases hx
      · exact fun x hx => absurd hx List.not_mem_nil
    · exact Machine.Meets.nil _ _ _
  · apply Machine.Meets.cons
    · show ∀ x ∈ (entry _ "bc:0:a").z.getD [], (0 : ℚ) ≠ x.expiry
      decide +kernel
    · apply Machine.Meets.cons
      · show ∀ x ∈ (entry _ "bc:0:a").z.getD [], (1 : ℚ) ≠ x.expiry
        decide +kernel
      · apply Machine.Meets.cons
        · show ∀ w ∈ ((entry _ "idx:bc:0").s.getD .empty).vals, (1 : ℚ) ≠ w.2
          decide +kernel
        · exact Machine.Meets.nil _ _ _

theorem repeatedRun_agrees : Sharding.Agree InMemoryStore.keyed (RedisStore.keyed Redis.standard)
    SameAnswer InMemoryStore.empty Registry.empty repeatedRun := by
  refine retention_agrees Redis.standard_documented Redis.standard_round_trip oneWindow repeatedRun
    repeatedRun_ops ?_ repeatedRun_clear
  simp [repeatedRun]

/-- The in-memory store returns the entry that was written twice two times,
    Redis once. -/
theorem repeated_entry_disagrees : (∀ op ∈ repeatedRun, RetentionOp oneWindow op) ∧
    Machine.Meets next (ClearOp oneWindow) .empty repeatedRun ∧
      ¬Sharding.Agree InMemoryStore.keyed (RedisStore.keyed Redis.standard) Method.Same
        InMemoryStore.empty Registry.empty repeatedRun := by
  refine ⟨repeatedRun_ops, repeatedRun_clear, ?_⟩
  intro h
  have hrange := h.2.2.1
  have hperm := List.Perm.length_eq hrange
  revert hperm
  decide +kernel

end Retention
