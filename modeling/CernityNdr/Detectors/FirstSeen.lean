import CernityNdr.Detectors.Keys
import CernityNdr.Window.Members

/-! # First-Seen Sets of the Behavioral Detectors

    Under its `kd:` key a source has the destinations that it was seen with,
    each with the time of its first sighting; the key is a member of the index
    of its partition. This module says what a buffered write leaves of these
    sets and of the indexes, while no key expires.

    * `Indexed`: every first-seen set is in its index, and no index holds a
      key of another prefix or partition.
    * `Indexed.run`: a write of `_handle` keeps that. -/

open CappedMap (FieldMap)
open InMemoryStore (WriteOp Entry)

namespace Behavioral

/-! ### The index of a key -/

/-- The index that `_prune_index` drops a key from. -/
def indexOf (key : String) : String := "idx:" ++ prefixOf key ++ partOf key

theorem prefixOf_append {name rest : String} (h : ':' ∉ name.toList) :
    prefixOf (name ++ ":" ++ rest) = name ++ ":" := by
  have hlist : (name ++ ":" ++ rest).toList = name.toList ++ ':' :: rest.toList := by simp
  unfold prefixOf
  rw [hlist]
  change String.ofList (Joining.cut ':' (name.toList ++ ':' :: rest.toList)).1 ++ ":" = name ++ ":"
  rw [Joining.cut_append h, String.ofList_toList]

theorem prefixOf_indexOf (key : String) : prefixOf (indexOf key) = "idx:" := by
  have hsplit : indexOf key = "idx" ++ ":" ++ (prefixOf key ++ partOf key) := by
    rw [← String.append_assoc]
    rfl
  rw [hsplit]
  exact prefixOf_append (by decide)

/-- The index of a key that is written. -/
theorem indexOf_text {k : StateKey} {p : String} (h : k.partText = some p) :
    indexOf k.text = "idx:" ++ (k.name ++ ":") ++ p := by
  unfold indexOf
  rw [prefixOf_text, partOf_text h]

def kdKey (part : Nat) (ten src : String) : String := stateKey "kd:" part ten src

theorem kdKey_eq (part : Nat) (ten src : String) :
    kdKey part ten src = (StateKey.host .kd part ten src).text := stateKey_host .kd part ten src

theorem prefixOf_kdKey (part : Nat) (ten src : String) : prefixOf (kdKey part ten src) = "kd:" := by
  rw [kdKey_eq, prefixOf_text]
  rfl

theorem partOf_kdKey (part : Nat) (ten src : String) :
    partOf (kdKey part ten src) = toString part := by
  rw [kdKey_eq, partOf_text rfl]
  rfl

theorem indexOf_kdKey (part : Nat) (ten src : String) :
    indexOf (kdKey part ten src) = indexKey "kd:" part := by
  unfold indexOf indexKey
  rw [prefixOf_kdKey, partOf_kdKey]

theorem kdKey_ne_indexOf (part : Nat) (ten src key : String) : kdKey part ten src ≠ indexOf key := by
  intro heq
  have hpfx := congrArg prefixOf heq
  rw [prefixOf_kdKey, prefixOf_indexOf] at hpfx
  exact absurd hpfx (by decide)

/-! ### What `_handle` buffers -/

/-- The partition is one of those that are scanned. -/
def Assigned (parts : Option (List Nat)) (part : Nat) : Prop := ∀ ps ∈ parts, part ∈ ps

/-- The destination under its key, and the time, that a write of a first
    sighting brings. -/
def sightingOf : WriteOp → Option ((String × String) × ℚ)
  | .znx key member score _ _ => some ((key, member), score)
  | _ => none

/-- What is buffered up to the time `t`: first sightings, and writes that
    touch neither a first-seen set nor its index. -/
inductive Buffered (env : Env) (parts : Option (List Nat)) (t : ℚ) : WriteOp → Prop
  | sighting (part : Nat) (ten src dst : String) (score : ℚ) (hpart : Assigned parts part)
      (hpos : 0 < score) (hle : score ≤ t) :
      Buffered env parts t (.znx (kdKey part ten src) dst score env.window (idx env "kd:" part))
  | other (op : WriteOp) (hplain : prefixOf op.key ≠ "idx:") (hkd : prefixOf op.key ≠ "kd:")
      (hidx : ∀ k ∈ op.idx, k = indexOf op.key) (hsighting : sightingOf op = none) :
      Buffered env parts t op

section Writes

variable {env : Env} {parts : Option (List Nat)} {t t' : ℚ} {op : WriteOp}

theorem Buffered.mono (h : Buffered env parts t op) (hle : t ≤ t') : Buffered env parts t' op := by
  cases h with
  | sighting part ten src dst score hpart hpos hscore =>
    exact .sighting part ten src dst score hpart hpos (hscore.trans hle)
  | other _ hplain hkd hidx hsighting => exact .other op hplain hkd hidx hsighting

theorem mem_idx {pfx k : String} {part : Nat} (h : k ∈ idx env pfx part) :
    env.enumIndex = true ∧ k = indexKey pfx part := by
  unfold idx at h
  split at h
  · next henum => exact ⟨henum, (Option.some.inj h).symm⟩
  · cases h

/-- A write under a key of another name. -/
theorem buffered_of_text {k : StateKey} (name : String) (hkey : op.key = k.text)
    (hname : k.name = name) (hkd : name ≠ "kd") (hidx : ∀ i ∈ op.idx, i = indexOf k.text) (hsighting : sightingOf op = none) :
    Buffered env parts t op := by
  have hnames : ∀ name ∈ ["exf", "exo", "lcf", "bc", "bf", "kd", "dn", "ctx", "fi", "pv", "i2d"],
      name ++ ":" ≠ "idx:" ∧ (name ≠ "kd" → name ++ ":" ≠ "kd:") := by decide
  obtain ⟨hplain, hother⟩ := hnames _ (name_mem k)
  refine .other op ?_ ?_ ?_ hsighting
  · rw [hkey, prefixOf_text]
    exact hplain
  · rw [hkey, prefixOf_text]
    exact hother (hname ▸ hkd)
  · rw [hkey]
    exact hidx

/-- A write to the index of a flow key. -/
theorem mem_idx_flow {i : String} {kind : FlowKind} {part : Nat} {ten src dst : String}
    (h : i ∈ idx env (kind.name ++ ":") part) :
    i = indexOf (StateKey.flow kind part ten src dst).text := by
  rw [(mem_idx h).2, indexOf_text rfl]
  rfl

theorem buffered_flow (kind : FlowKind) {part : Nat} {ten src dst : String}
    (hkey : op.key = stateKey (kind.name ++ ":") part ten (src ++ "|" ++ dst))
    (hidx : op.idx = idx env (kind.name ++ ":") part) (hsighting : sightingOf op = none) :
    Buffered env parts t op := by
  have hkd : kind.name ≠ "kd" := by cases kind <;> decide
  refine buffered_of_text kind.name (hkey.trans (stateKey_flow kind part ten src dst)) rfl hkd ?_
    hsighting
  intro i hi
  rw [hidx] at hi
  exact mem_idx_flow hi

/-- Every write of a flow record is of these kinds. -/
theorem buffered_writes (g : Sighting) {part : Nat} {firstSeen : ℚ} (dom : Option Json)
    (hpart : Assigned parts part) (hpos : 0 < firstSeen) (hle : firstSeen ≤ t) :
    ∀ op ∈ g.writes env part firstSeen ++ g.beaconWrites env part ++ g.domainWrites env part dom,
      Buffered env parts t op := by
  intro op hop
  rcases List.mem_append.mp hop with hop | hop
  · rcases List.mem_append.mp hop with hop | hop
    · simp only [Sighting.writes, List.mem_cons, List.not_mem_nil, or_false] at hop
      rcases hop with rfl | rfl | rfl | rfl | rfl | rfl
      · exact buffered_of_text "ctx" (text_context g.ten g.src g.dst).symm rfl (by decide)
          (by simp [WriteOp.idx]) rfl
      · exact buffered_of_text "pv" (text_prevalence g.ten g.dst).symm rfl (by decide)
          (by simp [WriteOp.idx]) rfl
      · exact buffered_flow .exf rfl rfl rfl
      · exact buffered_flow .exo rfl rfl rfl
      · exact buffered_flow .lcf rfl rfl rfl
      · exact .sighting part g.ten g.src g.dst firstSeen hpart hpos hle
    · unfold Sighting.beaconWrites at hop
      split at hop
      · cases hop
      · rw [List.mem_singleton.mp hop]
        exact buffered_flow .bc rfl rfl rfl
  · unfold Sighting.domainWrites at hop
    split at hop
    · next dom rest hop =>
      simp only [List.mem_cons, List.not_mem_nil, or_false] at hop
      rcases hop with rfl | rfl
      · exact buffered_flow .bf rfl rfl rfl
      · have hkey : "fi:" ++ g.ten ++ ":" ++ g.src ++ "|" ++ env.str dom =
            (StateKey.domainIps g.ten g.src (env.str dom)).text := by
          rw [text_domainIps, ← String.append_assoc, ← String.append_assoc]
        exact buffered_of_text "fi" hkey rfl (by decide) (by simp [WriteOp.idx]) rfl
    · cases hop

end Writes

/-! ### First-seen sets and indexes in the store -/

/-- The time of the first sighting of a destination under its key. -/
def firstSeenOf (st : InMemoryStore) (x : String × String) : Option ℚ :=
  (st.zs.lookup x.1).bind (·.lookup x.2)

/-- The expiry of a member of a set. -/
def memberExpiry (st : InMemoryStore) (key member : String) : Option ℚ :=
  (st.s.lookup key).bind (·.lookup member)

/-- No first-seen set has expired. -/
def Unexpired (st : InMemoryStore) (now : ℚ) : Prop :=
  ∀ key, (st.zs.lookup key).isSome → st.alive key now = true

instance (st : InMemoryStore) (now : ℚ) : Decidable (Unexpired st now) :=
  decidable_of_iff (∀ key ∈ st.zs.keys, st.alive key now = true)
    (forall_congr' fun _ => imp_congr_left InMemoryStore.mem_keys_iff)

/-- Every first-seen set belongs to a partition that is scanned, its sightings
    are not in the future, and it is in its index; an index holds only keys of
    its prefix and partition. -/
structure Indexed (env : Env) (parts : Option (List Nat)) (t : ℚ) (st : InMemoryStore) : Prop where
  named : ∀ key, (st.zs.lookup key).isSome → ∃ part ten src,
    key = kdKey part ten src ∧ Assigned parts part
  nonempty : ∀ key zs, st.zs.lookup key = some zs → zs.vals ≠ []
  scores : ∀ x s, firstSeenOf st x = some s → 0 < s ∧ s ≤ t
  listed : env.enumIndex = true → ∀ key, (st.zs.lookup key).isSome →
    ∃ e, memberExpiry st (indexOf key) key = some e ∧ st.exp.lookup key = some e
  filed : ∀ k m, prefixOf k = "idx:" → (memberExpiry st k m).isSome → k = indexOf m

section Store

variable {env : Env} {parts : Option (List Nat)} {t now : ℚ} {st : InMemoryStore} {op : WriteOp}

theorem memberExpiry_eq (st : InMemoryStore) (key member : String) :
    memberExpiry st key member = (st.entry key).expiry member := rfl

theorem memberExpiry_setAdd (st : InMemoryStore) (key member : String) (ttl now : ℚ) (k m : String) :
    memberExpiry (st.setAdd key member ttl none now) k m =
      if key = k then
        if member = m then some (now + ttl) else (memberExpiry st k m).filter fun e => now < e
      else memberExpiry st k m := by
  rw [memberExpiry_eq, InMemoryStore.entry_setAdd]
  by_cases hk : key = k
  · subst hk
    simp only [if_true, Entry.expiry, Option.bind_some, InMemoryStore.addMember, Option.all_none,
      true_or, Registry.lookup_put, Entry.lookup_members]
    rfl
  · rw [if_neg hk, if_neg hk]
    rfl

theorem zs_setAdd (st : InMemoryStore) (key member : String) (ttl : ℚ) (cap : Option Nat) (now : ℚ) :
    (st.setAdd key member ttl cap now).zs = st.zs := by
  unfold InMemoryStore.setAdd InMemoryStore.liveSet
  cases st.s.lookup key with
  | none => rfl
  | some s => rfl

theorem zs_index (st : InMemoryStore) (idx : Option String) (key : String) (ttl now : ℚ) :
    (st.index idx key ttl now).zs = st.zs := by
  cases idx with
  | none => rfl
  | some idx => exact zs_setAdd st idx key ttl none now

/-- Only a first sighting changes a first-seen set. -/
theorem zs_run_other (h : sightingOf op = none) : (op.run st now).zs = st.zs := by
  cases op with
  | win key idx score value ttl => exact zs_index _ idx key ttl now
  | cnt key field delta ttl idx => exact zs_index _ idx key ttl now
  | fset key field value ttl idx cap => exact zs_index _ idx key ttl now
  | znx key member score ttl idx => cases h
  | kv key value ttl => rfl
  | sadd key member ttl => exact zs_setAdd st key member ttl none now

theorem zs_run_sighting (key member : String) (score ttl : ℚ) (idx : Option String) (k : String) :
    ((WriteOp.znx key member score ttl idx).run st now).zs.lookup k =
      if key = k then some (InMemoryStore.setDefault (st.zset key now) member score)
      else st.zs.lookup k := by
  show ((st.firstSeen key member score ttl now).index idx key ttl now).zs.lookup k = _
  rw [zs_index]
  exact Registry.lookup_put ..

theorem zset_of_unexpired (h : Unexpired st now) (key : String) :
    st.zset key now = (st.zs.lookup key).getD .empty := by
  unfold InMemoryStore.zset
  split
  · rfl
  · next hdead =>
    cases hzs : st.zs.lookup key with
    | none => rfl
    | some zs => exact absurd (h key (by rw [hzs]; rfl)) hdead

theorem lookup_zset (h : Unexpired st now) (x : String × String) :
    (st.zset x.1 now).lookup x.2 = firstSeenOf st x := by
  rw [zset_of_unexpired h]
  unfold firstSeenOf
  cases st.zs.lookup x.1 with
  | none => rfl
  | some zs => rfl

/-- A write adds at most its sighting, and the first sighting stays. -/
theorem firstSeenOf_run (h : Unexpired st now) (op : WriteOp) (x : String × String) :
    firstSeenOf (op.run st now) x =
      (firstSeenOf st x).or ((sightingOf op).bind fun g => if g.1 = x then some g.2 else none) := by
  cases op with
  | znx key member score ttl idx =>
    unfold firstSeenOf
    rw [zs_run_sighting]
    by_cases hkey : key = x.1
    · have hlookup := lookup_zset h x
      unfold firstSeenOf at hlookup
      rw [if_pos hkey, hkey, Option.bind_some, InMemoryStore.lookup_setDefault, ← hlookup]
      simp only [sightingOf, Option.bind_some, Prod.ext_iff, true_and]
      by_cases hmember : member = x.2
      · rw [if_pos hmember, if_pos hmember]
        cases (st.zset x.1 now).lookup x.2 with
        | none => rfl
        | some s => rfl
      · rw [if_neg hmember, if_neg hmember, Option.or_none]
    · rw [if_neg hkey]
      simp [sightingOf, Prod.ext_iff, hkey]
  | win | cnt | fset | kv | sadd =>
    unfold firstSeenOf
    rw [zs_run_other rfl]
    simp [sightingOf]

/-- No buffered write is to an index itself. -/
theorem Buffered.plain (h : Buffered env parts t op) : prefixOf op.key ≠ "idx:" := by
  cases h with
  | sighting part ten src dst score =>
    intro hidx
    have hkd : prefixOf (kdKey part ten src) = "idx:" := hidx
    rw [prefixOf_kdKey] at hkd
    exact absurd hkd (by decide)
  | other _ hplain => exact hplain

/-- The index entry of a buffered write is in the index of its key. -/
theorem Buffered.index (h : Buffered env parts t op) : ∀ k ∈ op.idx, k = indexOf op.key := by
  cases h with
  | sighting part ten src dst score =>
    intro k hk
    rw [(mem_idx hk).2]
    exact (indexOf_kdKey part ten src).symm
  | other _ _ _ hidx => exact hidx

theorem memberExpiry_run (hop : Buffered env parts t op) {k : String} (hk : prefixOf k = "idx:")
    (m : String) : memberExpiry (op.run st now) k m =
      if op.idx = some k then
        if op.key = m then some (now + op.ttl)
        else (memberExpiry st k m).filter fun e => now < e
      else memberExpiry st k m := by
  have hne : op.key ≠ k := fun heq => hop.plain (heq ▸ hk)
  have hwrite : memberExpiry (op.write st now) k m = memberExpiry st k m := by
    rw [memberExpiry_eq, InMemoryStore.entry_write_other hne]
    rfl
  rw [InMemoryStore.run_eq]
  cases hidx : op.idx with
  | none => rw [if_neg (by simp)]; exact hwrite
  | some idx =>
    refine (memberExpiry_setAdd ..).trans ?_
    by_cases heq : idx = k
    · rw [if_pos heq, if_pos (congrArg some heq), hwrite]
    · rw [if_neg heq, if_neg fun h => heq (Option.some.inj h), hwrite]

/-- A write under another key leaves the expiry of a first-seen set. -/
theorem exp_run_other (hop : Buffered env parts t op) {key : String} (hkey : op.key ≠ key)
    (hkd : prefixOf key ≠ "idx:") : (op.run st now).exp.lookup key = st.exp.lookup key := by
  have hidx : op.idx ≠ some key := by
    intro hidx
    have heq := hop.index key hidx
    rw [heq, prefixOf_indexOf] at hkd
    exact hkd rfl
  have huntouched : op.touches key = false := by
    simp [WriteOp.touches, hkey, hidx]
  exact congrArg Entry.exp (InMemoryStore.entry_run_other huntouched)

theorem exp_run_sighting (key member : String) (score ttl : ℚ) {idx : Option String}
    (hidx : idx ≠ some key) :
    ((WriteOp.znx key member score ttl idx).run st now).exp.lookup key = some (now + ttl) := by
  show (((st.firstSeen key member score ttl now).index idx key ttl now).entry key).exp = _
  rw [InMemoryStore.entry_index_other hidx, InMemoryStore.entry_firstSeen, if_pos rfl]

theorem Indexed.prefix_key (h : Indexed env parts t st) {key : String}
    (hkey : (st.zs.lookup key).isSome) : prefixOf key = "kd:" := by
  obtain ⟨part, ten, src, rfl, -⟩ := h.named key hkey
  exact prefixOf_kdKey part ten src

theorem Indexed.mono {t' : ℚ} (h : Indexed env parts t st) (hle : t ≤ t') : Indexed env parts t' st :=
  { h with scores := fun x s hs => ⟨(h.scores x s hs).1, (h.scores x s hs).2.trans hle⟩ }

/-- What a first sighting leaves of the sets. -/
theorem isSome_run_sighting {key member k : String} {score ttl : ℚ} {idx : Option String}
    (hk : (((WriteOp.znx key member score ttl idx).run st now).zs.lookup k).isSome) :
    key = k ∨ (st.zs.lookup k).isSome := by
  rw [zs_run_sighting] at hk
  by_cases heq : key = k
  · exact Or.inl heq
  · rw [if_neg heq] at hk
    exact Or.inr hk

/-- A set that was there stays in its index. -/
theorem Indexed.listed_run (h : Indexed env parts t st) (hop : Buffered env parts t op)
    (hunexp : Unexpired st now) (henum : env.enumIndex = true) {key : String}
    (hkey : (st.zs.lookup key).isSome) (hne : op.key ≠ key) :
    ∃ e, memberExpiry (op.run st now) (indexOf key) key = some e ∧
      (op.run st now).exp.lookup key = some e := by
  obtain ⟨e, hmember, hexp⟩ := h.listed henum key hkey
  have hlive : now < e := by
    have halive := hunexp key hkey
    simpa [InMemoryStore.alive, hexp] using halive
  have hkd : prefixOf key ≠ "idx:" := by
    rw [h.prefix_key hkey]
    decide
  refine ⟨e, ?_, (exp_run_other hop hne hkd).trans hexp⟩
  rw [memberExpiry_run hop (prefixOf_indexOf key), hmember, if_neg hne]
  simp [Option.filter, hlive]

/-- A write of `_handle` keeps the sets in their indexes. -/
theorem Indexed.run (h : Indexed env parts t st) (hop : Buffered env parts t op)
    (hunexp : Unexpired st now) : Indexed env parts t (op.run st now) := by
  have hscores : ∀ x s, firstSeenOf (op.run st now) x = some s → 0 < s ∧ s ≤ t := by
    intro x s hs
    rw [firstSeenOf_run hunexp] at hs
    rcases Option.or_eq_some_iff.mp hs with hs | ⟨-, hs⟩
    · exact h.scores x s hs
    · cases hop with
      | sighting part ten src dst score hpart hpos hle =>
        simp only [sightingOf, Option.bind_some] at hs
        split at hs
        · cases hs
          exact ⟨hpos, hle⟩
        · cases hs
      | other _ _ _ _ hsighting =>
        rw [hsighting] at hs
        cases hs
  have hfiled : ∀ k m, prefixOf k = "idx:" → (memberExpiry (op.run st now) k m).isSome →
      k = indexOf m := by
    intro k m hk hm
    rw [memberExpiry_run hop hk] at hm
    split at hm
    · next hidx =>
      split at hm
      · next hkey => exact hkey ▸ hop.index k hidx
      · exact h.filed k m hk (Option.isSome_of_isSome_filter _ _ hm)
    · exact h.filed k m hk hm
  cases hop with
  | other _ hplain hkd hidx hsighting =>
    have hop : Buffered env parts t op := .other op hplain hkd hidx hsighting
    have hzs : (op.run st now).zs = st.zs := zs_run_other hsighting
    refine ⟨?_, ?_, hscores, ?_, hfiled⟩
    · rw [hzs]
      exact h.named
    · rw [hzs]
      exact h.nonempty
    · intro henum key hkey
      rw [hzs] at hkey
      refine h.listed_run hop hunexp henum hkey ?_
      intro heq
      exact hkd (heq ▸ h.prefix_key hkey)
  | sighting part ten src dst score hpart hpos hle =>
    have hop : Buffered env parts t
        (.znx (kdKey part ten src) dst score env.window (idx env "kd:" part)) :=
      .sighting part ten src dst score hpart hpos hle
    refine ⟨?_, ?_, hscores, ?_, hfiled⟩
    · intro key hkey
      rcases isSome_run_sighting hkey with rfl | hkey
      · exact ⟨part, ten, src, rfl, hpart⟩
      · exact h.named key hkey
    · intro key zs hzs
      rw [zs_run_sighting] at hzs
      split at hzs
      · cases hzs
        intro hnil
        have hmember : (InMemoryStore.setDefault (st.zset (kdKey part ten src) now) dst score).lookup
            dst ≠ none := by
          rw [InMemoryStore.lookup_setDefault, if_pos rfl]
          exact Option.some_ne_none _
        apply hmember
        simp [Registry.lookup, Registry.get?, hnil]
      · exact h.nonempty key zs hzs
    · intro henum key hkey
      by_cases heq : kdKey part ten src = key
      · subst heq
        have hidx : idx env "kd:" part = some (indexOf (kdKey part ten src)) := by
          rw [indexOf_kdKey, idx, if_pos henum]
        refine ⟨now + env.window, ?_, exp_run_sighting _ _ _ _ ?_⟩
        · exact (memberExpiry_run hop (prefixOf_indexOf _) _).trans ((if_pos hidx).trans (if_pos rfl))
        · rw [hidx]
          intro hself
          exact kdKey_ne_indexOf part ten src _ (Option.some.inj hself).symm
      · exact h.listed_run hop hunexp henum ((isSome_run_sighting hkey).resolve_left heq) heq

end Store

/-! ### Batches -/

section Batches

variable {env : Env} {parts : Option (List Nat)} {t : ℚ} {st : InMemoryStore}
  {ops : List (WriteOp × ℚ)}

/-- The sighting of a destination in a list of writes. -/
def sightingIn (ops : List (WriteOp × ℚ)) (x : String × String) : Option ℚ :=
  ops.findSome? fun op => (sightingOf op.1).bind fun g => if g.1 = x then some g.2 else none

/-- No first-seen set expires while the writes are made, each at its time. -/
def NoneExpires (st : InMemoryStore) (ops : List (WriteOp × ℚ)) : Prop :=
  Machine.Meets (fun st (op : WriteOp × ℚ) => op.1.run st op.2) (fun st op => Unexpired st op.2) st ops

theorem noneExpires_cons {op : WriteOp × ℚ} : NoneExpires st (op :: ops) ↔
    Unexpired st op.2 ∧ NoneExpires (op.1.run st op.2) ops := by
  constructor
  · intro h
    refine ⟨h [] op ops rfl, ?_⟩
    intro pre op' post heq
    exact h (op :: pre) op' post (by rw [heq]; rfl)
  · rintro ⟨hop, hops⟩
    exact Machine.Meets.cons hop hops

instance decNoneExpires : (st : InMemoryStore) → (ops : List (WriteOp × ℚ)) →
    Decidable (NoneExpires st ops)
  | st, [] => isTrue (Machine.Meets.nil _ _ st)
  | st, op :: ops =>
    have := decNoneExpires (op.1.run st op.2) ops
    decidable_of_iff _ noneExpires_cons.symm

theorem Indexed.batch (h : Indexed env parts t st) (hops : ∀ op ∈ ops, Buffered env parts t op.1)
    (hnone : NoneExpires st ops) : Indexed env parts t (st.pipelineOps ops) := by
  refine Machine.run_invariant_of_meets (P := Indexed env parts t)
    (C := fun st op => Unexpired st op.2 ∧ Buffered env parts t op.1) ?_ h ?_
  · rintro st op ⟨hunexp, hop⟩ hst
    exact hst.run hop hunexp
  · intro pre op post heq
    exact ⟨hnone pre op post heq, hops op (by simp [heq])⟩

/-- After a batch a destination has its old sighting, or the first in the
    batch. -/
theorem firstSeenOf_batch (hnone : NoneExpires st ops) (x : String × String) :
    firstSeenOf (st.pipelineOps ops) x = (firstSeenOf st x).or (sightingIn ops x) := by
  induction ops generalizing st with
  | nil => exact (Option.or_none ..).symm
  | cons op ops ih =>
    obtain ⟨hhead, htail⟩ := noneExpires_cons.mp hnone
    show firstSeenOf ((op.1.run st op.2).pipelineOps ops) x = _
    rw [ih htail, firstSeenOf_run hhead, Option.or_assoc]
    congr 1
    unfold sightingIn
    rw [List.findSome?_cons]
    cases (sightingOf op.1).bind fun g => if g.1 = x then some g.2 else none with
    | none => exact Option.none_or ..
    | some s => rfl

theorem mem_of_sightingIn {x : String × String} {s : ℚ} (h : sightingIn ops x = some s) :
    ∃ op ∈ ops, sightingOf op.1 = some (x, s) := by
  obtain ⟨op, hop, hs⟩ := List.exists_of_findSome?_eq_some h
  obtain ⟨g, hg, hs⟩ := Option.bind_eq_some_iff.mp hs
  split at hs
  · next heq =>
    cases hs
    exact ⟨op, hop, by rw [hg, ← heq]⟩
  · cases hs

end Batches

end Behavioral
