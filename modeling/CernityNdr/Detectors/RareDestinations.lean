import CernityNdr.Detectors.FirstSeen
import CernityNdr.Framework.Sightings

/-! # Rare Destinations

    A process that handles flow records, flushes their writes and evaluates.
    A pass examines the destinations that were first seen after the last pass
    moved the cursor.

    * `rare_destinations_examined_once`: a destination that is not first seen
      at the value of the cursor is examined in exactly one pass, and a
      candidate is built for it there when fifteen others precede it.
    * `sighting_at_cursor_missed`: one that is first seen at the value of the
      cursor is never examined. -/

open CappedMap (FieldMap)
open InMemoryStore (WriteOp)

namespace Behavioral

/-! ### The process -/

/-- The store with what is buffered, the process, and the last reading of the
    clock. -/
structure World where
  det : Detector
  proc : Process
  time : ℚ

/-- What happens, with the readings of the clock. -/
inductive Event
  | handle (a : Arrival) (stop : ℚ)
  | flush (clock : Nat → ℚ) (stop : ℚ)
  | evaluate (clock : Nat → ℚ) (now : ℚ)

/-- A process with an empty store. -/
def World.start : World := ⟨⟨.empty, [], .empty⟩, ⟨.empty, 0⟩, 0⟩

variable (env : Env) (det : Scoring) (cfg : Config) (flowParts dnsParts : Option (List Nat))

/-- What a call of a pass leaves of the store. A first-seen set that has
    expired counts as empty whether it is dropped or not. -/
def effect (now : ℚ) (st : InMemoryStore) : Call → InMemoryStore
  | .other (.read (.setMembers key)) => (st.setMembers key now).2
  | .other (.read (.windowRange key)) => (st.windowRange key (now - env.window) now).2
  | .other (.read (.setLen key)) => (st.setLen key now).2
  | .other (.read (.kvGet key)) => (st.kvGet key now).2
  | .other (.setRemove idx key) => st.setRemove idx key
  | .other .kvPrune => st.kvPrune now
  | _ => st

/-- The calls of a pass over a store. -/
def callsOn (st : InMemoryStore) (rareSince now : ℚ) : List Call :=
  (evaluate env det cfg flowParts dnsParts rareSince now).calls record (storeAnswer env st now)

def step (w : World) : Event → World
  | .handle a stop => { w with det := handleFlow env w.det a, time := stop }
  | .flush clock stop => { w with det := flushPending w.det clock, time := stop }
  | .evaluate clock now =>
    let d := flushPending w.det clock
    let calls := callsOn env det cfg flowParts dnsParts d.store w.proc.rareLastEval now
    { det := { d with store := calls.foldl (effect env now) d.store }
      proc := w.proc.after env det now (EmitOnce.steps (emitTable env now)
        (Candidate.emitKey env det now) w.proc.dedup calls)
      time := now }

/-! ### What a pass examines and builds -/

/-- The destinations, under their keys, that `zset_since(key, rare_since)`
    returns in a pass over a store. -/
def examinedOn (st : InMemoryStore) (rareSince now : ℚ) : List (String × String) :=
  ((scopedKeys env "kd:" flowParts).result (storeAnswer env st now)).flatMap fun key =>
    (st.zsetSince key rareSince now).map fun dst => (key, dst)

/-- What a step examines, when it is a pass. -/
def examined (w : World) : Event → Option (List (String × String))
  | .evaluate clock now =>
    some (examinedOn env flowParts (flushPending w.det clock).store w.proc.rareLastEval now)
  | _ => none

/-- The candidate that a call of `_candidate` builds for a rare destination. -/
def rareOf : Call → Option Candidate
  | .offer c => if c.detectorId = "rare_destination" then some c else none
  | .other _ => none

/-- The rare destinations that a pass over a store calls `_candidate` for. -/
def builtOn (st : InMemoryStore) (rareSince now : ℚ) : List Candidate :=
  (callsOn env det cfg flowParts dnsParts st rareSince now).filterMap rareOf

/-- The destinations of the source that precede one, in the order of the time
    of the first sighting, then of the name. -/
def preceding (st : InMemoryStore) (x : String × String) : List (String × ℚ) :=
  match st.zs.lookup x.1, firstSeenOf st x with
  | some zs, some score => zs.vals.filter fun m => m.2 < score ∨ m.2 = score ∧ m.1 < x.2
  | _, _ => []

/-- Sightings and cursor of the process. -/
def ledger : Sightings.Ledger World Event (String × String) ℚ where
  step := step env det cfg flowParts dnsParts
  score w x := firstSeenOf w.det.store x
  cursor w := w.proc.rareLastEval
  examined := examined env flowParts

/-- The world after some events. -/
def worldAfter (events : List Event) : World :=
  Machine.run (step env det cfg flowParts dnsParts) .start events

/-- Every destination that is added to a first-seen set is examined in exactly
    one pass, the first after it was flushed. A candidate is built for those
    that fifteen others precede then, and for nothing else. A sighting that is
    flushed again leaves the first one. -/
structure ExaminedOnce (events : List Event) : Prop where
  once : ∀ pre e post x, events = pre ++ e :: post →
    let w := worldAfter env det cfg flowParts dnsParts pre
    firstSeenOf w.det.store x = none →
    (firstSeenOf (step env det cfg flowParts dnsParts w e).det.store x).isSome →
      (∀ n ∈ (ledger env det cfg flowParts dnsParts).counts x .start pre, n = 0) ∧
        Sightings.Ledger.Once ((ledger env det cfg flowParts dnsParts).counts x w (e :: post))
  built : ∀ pre clock now post, events = pre ++ .evaluate clock now :: post →
    let w := worldAfter env det cfg flowParts dnsParts pre
    let st := (flushPending w.det clock).store
    builtOn env det cfg flowParts dnsParts st w.proc.rareLastEval now =
      ((examinedOn env flowParts st w.proc.rareLastEval now).filter fun x =>
        15 ≤ (preceding st x).length).map fun x =>
          rareCandidate (keyParts x.1).1 (keyParts x.1).2 x.2
  kept : ∀ pre e post x score, events = pre ++ e :: post →
    let w := worldAfter env det cfg flowParts dnsParts pre
    firstSeenOf w.det.store x = some score →
      firstSeenOf (step env det cfg flowParts dnsParts w e).det.store x = some score

/-! ### The runs -/

/-- The writes of a flush, with their times. -/
def stamped (d : Detector) (clock : Nat → ℚ) : List (WriteOp × ℚ) :=
  d.pending.zipIdx.map fun op => (op.1, clock op.2)

/-- The clock does not go back, the records are of assigned partitions, and no
    first-seen set expires. -/
def Admissible (w : World) : Event → Prop
  | .handle a stop => Assigned flowParts a.part ∧ ∀ i, w.time ≤ a.clock i ∧ a.clock i ≤ stop
  | .flush clock stop => (∀ i, w.time ≤ clock i ∧ clock i ≤ stop) ∧
      NoneExpires w.det.store (stamped w.det clock)
  | .evaluate clock now => (∀ i, w.time ≤ clock i ∧ clock i ≤ now) ∧
      NoneExpires w.det.store (stamped w.det clock) ∧
        Unexpired (flushPending w.det clock).store now

/-- No destination is first seen at the clock value at which the last pass
    moved its cursor. -/
def OffCursor (w : World) : Event → Prop
  | .handle a _ => ∀ g, sighting env a = some g →
      firstSeenOf w.det.store (stateKey "kd:" a.part g.ten g.src, g.dst) = none →
        a.clock 1 ≠ w.proc.rareLastEval
  | _ => True

variable {env det cfg flowParts dnsParts} {st : InMemoryStore} {t now rareSince : ℚ}

/-! ### What a pass leaves of the store -/

theorem liveSet_zs (st : InMemoryStore) (key : String) (now : ℚ) :
    (st.liveSet key now).2.zs = st.zs ∧ (st.liveSet key now).2.exp = st.exp := by
  unfold InMemoryStore.liveSet
  cases st.s.lookup key with
  | none => exact ⟨rfl, rfl⟩
  | some s => exact ⟨rfl, rfl⟩

/-- No call touches a first-seen set or its expiry. -/
theorem effect_zs (env : Env) (now : ℚ) (st : InMemoryStore) (call : Call) :
    (effect env now st call).zs = st.zs ∧ (effect env now st call).exp = st.exp := by
  cases call with
  | offer c => exact ⟨rfl, rfl⟩
  | other a =>
    cases a with
    | read q =>
      cases q with
      | setMembers key => exact liveSet_zs st key now
      | setLen key => exact liveSet_zs st key now
      | kvGet key =>
        show (st.kvGet key now).2.zs = st.zs ∧ (st.kvGet key now).2.exp = st.exp
        unfold InMemoryStore.kvGet
        split
        · exact ⟨rfl, rfl⟩
        · exact ⟨rfl, rfl⟩
      | windowRange | keysMatching | fieldsGet | zset => exact ⟨rfl, rfl⟩
    | setRemove idx key =>
      show (st.setRemove idx key).zs = st.zs ∧ (st.setRemove idx key).exp = st.exp
      unfold InMemoryStore.setRemove
      split
      · exact ⟨rfl, rfl⟩
      · exact ⟨rfl, rfl⟩
    | flush | advance | kvPrune => exact ⟨rfl, rfl⟩

theorem memberExpiry_liveSet (st : InMemoryStore) (key : String) (now : ℚ) (k m : String) :
    memberExpiry (st.liveSet key now).2 k m =
      if key = k then (memberExpiry st k m).filter fun e => now < e else memberExpiry st k m := by
  rw [memberExpiry_eq, InMemoryStore.entry_liveSet]
  by_cases hk : key = k
  · subst hk
    rw [if_pos rfl, if_pos rfl, InMemoryStore.Entry.expiry_prune, memberExpiry_eq]
  · rw [if_neg hk, if_neg hk]
    rfl

theorem memberExpiry_setRemove (st : InMemoryStore) (idx key k m : String) :
    memberExpiry (st.setRemove idx key) k m =
      if idx = k ∧ key = m then none else memberExpiry st k m := by
  rw [memberExpiry_eq, InMemoryStore.entry_setRemove]
  by_cases hk : idx = k
  · subst hk
    rw [if_pos rfl, memberExpiry_eq]
    unfold InMemoryStore.Entry.expiry
    cases (st.entry idx).s with
    | none => simp
    | some s => simp [Registry.lookup_pop]
  · rw [if_neg hk, if_neg fun h => hk h.1]
    rfl

/-- A call leaves a member that is alive, unless it drops it, and adds none. -/
theorem memberExpiry_effect (env : Env) (now : ℚ) (st : InMemoryStore) (call : Call) (k m : String) :
    memberExpiry (effect env now st call) k m = memberExpiry st k m ∨
      memberExpiry (effect env now st call) k m = (memberExpiry st k m).filter (fun e => now < e) ∨
        call = .other (.setRemove k m) ∧ memberExpiry (effect env now st call) k m = none := by
  have hlive : ∀ key, memberExpiry (st.liveSet key now).2 k m = memberExpiry st k m ∨
      memberExpiry (st.liveSet key now).2 k m = (memberExpiry st k m).filter fun e => now < e := by
    intro key
    rw [memberExpiry_liveSet]
    split
    · exact Or.inr rfl
    · exact Or.inl rfl
  cases call with
  | offer c => exact Or.inl rfl
  | other a =>
    cases a with
    | read q =>
      cases q with
      | setMembers key => exact (hlive key).imp_right Or.inl
      | setLen key => exact (hlive key).imp_right Or.inl
      | kvGet key =>
        left
        show memberExpiry (st.kvGet key now).2 k m = _
        unfold InMemoryStore.kvGet
        split
        · rfl
        · rfl
      | windowRange | keysMatching | fieldsGet | zset => exact Or.inl rfl
    | setRemove idx key =>
      have hremove := memberExpiry_setRemove st idx key k m
      split at hremove
      · next heq =>
        obtain ⟨rfl, rfl⟩ := heq
        exact Or.inr (Or.inr ⟨rfl, hremove⟩)
      · exact Or.inl hremove
    | flush | advance | kvPrune => exact Or.inl rfl

theorem indexed_effect (h : Indexed env flowParts t st) (hunexp : Unexpired st now) {call : Call}
    (hkept : ∀ key, (st.zs.lookup key).isSome → call ≠ .other (.setRemove (indexOf key) key)) :
    Indexed env flowParts t (effect env now st call) := by
  obtain ⟨hzs, hexp⟩ := effect_zs env now st call
  refine ⟨?_, ?_, ?_, ?_, ?_⟩
  · rw [hzs]
    exact h.named
  · rw [hzs]
    exact h.nonempty
  · unfold firstSeenOf
    rw [hzs]
    exact h.scores
  · intro henum key hkey
    rw [hzs] at hkey
    obtain ⟨e, hmember, hlookup⟩ := h.listed henum key hkey
    have hlive : now < e := by
      have halive := hunexp key hkey
      simpa [InMemoryStore.alive, hlookup] using halive
    refine ⟨e, ?_, by rw [hexp]; exact hlookup⟩
    rcases memberExpiry_effect env now st call (indexOf key) key with
      heq | heq | ⟨hcall, -⟩
    · rw [heq, hmember]
    · rw [heq, hmember]
      simp [Option.filter, hlive]
    · exact absurd hcall (hkept key hkey)
  · intro k m hk hm
    rcases memberExpiry_effect env now st call k m with heq | heq | ⟨-, heq⟩
    · exact h.filed k m hk (heq ▸ hm)
    · rw [heq] at hm
      exact h.filed k m hk (Option.isSome_of_isSome_filter _ _ hm)
    · rw [heq] at hm
      cases hm

/-- Calls that drop no first-seen set from its index. -/
theorem indexed_effects (h : Indexed env flowParts t st) (hunexp : Unexpired st now)
    {calls : List Call} (hkept : ∀ key, (st.zs.lookup key).isSome →
      .other (.setRemove (indexOf key) key) ∉ calls) :
    Indexed env flowParts t (calls.foldl (effect env now) st) ∧
      (calls.foldl (effect env now) st).zs = st.zs := by
  induction calls generalizing st with
  | nil => exact ⟨h, rfl⟩
  | cons call calls ih =>
    obtain ⟨hzs, hexp⟩ := effect_zs env now st call
    have hfirst : Indexed env flowParts t (effect env now st call) := by
      refine indexed_effect h hunexp fun key hkey heq => hkept key hkey ?_
      rw [heq]
      exact List.mem_cons_self
    have hunexp' : Unexpired (effect env now st call) now := by
      unfold Unexpired InMemoryStore.alive
      rw [hzs, hexp]
      exact hunexp
    obtain ⟨hrest, hsame⟩ := ih hfirst hunexp' fun key hkey hmem => by
      rw [hzs] at hkey
      exact hkept key hkey (List.mem_cons_of_mem _ hmem)
    exact ⟨hrest, hsame.trans hzs⟩

/-! ### The keys that are scanned -/

theorem mem_setMembers {k m : String} : m ∈ (st.setMembers k now).1 ↔
    ∃ e, memberExpiry st k m = some e ∧ now < e := InMemoryStore.mem_setMembers_iff

theorem result_scopedKeys (pfx : String) (parts : Option (List Nat)) :
    (scopedKeys env pfx parts).result (storeAnswer env st now) =
      match parts with
      | none => st.keysMatching pfx now
      | some ps =>
        if env.enumIndex then ps.flatMap fun p => (st.setMembers (indexKey pfx p) now).1
        else (st.keysMatching pfx now).filter fun k => segmentIn ps (partOf k) := by
  have hmembers : ∀ ps, (scopedKeys.members pfx ps).result (storeAnswer env st now) =
      ps.flatMap fun p => (st.setMembers (indexKey pfx p) now).1 := by
    intro ps
    induction ps with
    | nil => rfl
    | cons p ps ih =>
      rw [List.flatMap_cons, ← ih, scopedKeys.members, Program.bind_eq, Program.result_bind,
        Program.bind_eq, Program.result_bind]
      rfl
  unfold scopedKeys
  cases parts with
  | none => rfl
  | some ps =>
    by_cases henum : env.enumIndex = true
    · simp only [henum, if_true]
      exact hmembers ps
    · simp only [henum]
      rfl

theorem prefixOf_of_isPrefixOf {name key : String} (hname : ':' ∉ name.toList)
    (h : (name ++ ":").toList.isPrefixOf key.toList = true) : prefixOf key = name ++ ":" := by
  obtain ⟨rest, hrest⟩ := List.isPrefixOf_iff_prefix.mp h
  have hkey : key = name ++ ":" ++ String.ofList rest := by
    apply String.toList_inj.mp
    rw [← hrest]
    simp
  rw [hkey]
  exact prefixOf_append hname

/-- A scanned key has the prefix that is scanned. -/
theorem prefixOf_scanned (h : Indexed env flowParts t st) {name key : String}
    {parts : Option (List Nat)} (hname : ':' ∉ name.toList)
    (hkey : key ∈ (scopedKeys env (name ++ ":") parts).result (storeAnswer env st now)) :
    prefixOf key = name ++ ":" := by
  have hmatching : key ∈ st.keysMatching (name ++ ":") now → prefixOf key = name ++ ":" :=
    fun hmem => prefixOf_of_isPrefixOf hname (InMemoryStore.mem_keysMatching.mp hmem).1
  rw [result_scopedKeys] at hkey
  cases parts with
  | none => exact hmatching hkey
  | some ps =>
    dsimp only at hkey
    split at hkey
    · obtain ⟨p, -, hmem⟩ := List.mem_flatMap.mp hkey
      obtain ⟨e, hmember, -⟩ := mem_setMembers.mp hmem
      have hindex : prefixOf (indexKey (name ++ ":") p) = "idx:" := by
        have hsplit : indexKey (name ++ ":") p = "idx" ++ ":" ++ (name ++ ":" ++ toString p) := by
          rw [← String.append_assoc]
          rfl
        rw [hsplit]
        exact prefixOf_append (by decide)
      have hfiled := h.filed _ _ hindex (by rw [hmember]; rfl)
      have hlist := congrArg String.toList hfiled
      simp only [indexKey, indexOf, prefixOf, String.toList_append, String.toList_ofList,
        List.append_assoc] at hlist
      have hfree : ':' ∉ key.toList.takeWhile (· ≠ ':') := by
        intro hcolon
        simpa using List.mem_takeWhile_imp hcolon
      have hcut := (Joining.cut_inj hname hfree (List.append_cancel_left hlist)).1
      unfold prefixOf
      rw [← hcut, String.ofList_toList]
    · exact hmatching (List.mem_filter.mp hkey).1

theorem segmentIn_toString (ps : List Nat) (part : Nat) :
    segmentIn ps (toString part) = decide (part ∈ ps) := by
  have hlist : (toString part).toList = Nat.toDigits 10 part := by
    rw [Nat.toString_eq_ofList_toDigits, String.toList_ofList]
  unfold segmentIn
  rw [hlist, Nat.ofDigitChars_ten_toDigits]
  have hdigits : (Nat.toDigits 10 part).all Char.isDigit = true :=
    List.all_eq_true.mpr fun c hc => Nat.isDigit_of_mem_toDigits (by decide) (by decide) hc
  have hne : (Nat.toDigits 10 part).isEmpty = false := by
    rw [Bool.eq_false_iff, ne_eq, List.isEmpty_iff]
    exact Nat.toDigits_ne_nil
  rw [hdigits, hne]
  rfl

theorem indexKey_inj {pfx : String} {p q : Nat} (h : indexKey pfx p = indexKey pfx q) : p = q := by
  have hlist := congrArg String.toList h
  simp only [indexKey, String.toList_append] at hlist
  have hdigits := congrArg (fun ds => Nat.ofDigitChars 10 ds 0) (List.append_cancel_left hlist)
  simpa [Nat.toString_eq_ofList_toDigits] using hdigits

/-- Every first-seen set is scanned. -/
theorem mem_scanned (h : Indexed env flowParts t st) (hunexp : Unexpired st now) {key : String}
    (hkey : (st.zs.lookup key).isSome) :
    key ∈ (scopedKeys env "kd:" flowParts).result (storeAnswer env st now) := by
  obtain ⟨part, ten, src, rfl, hpart⟩ := h.named key hkey
  have hmatching : kdKey part ten src ∈ st.keysMatching "kd:" now := by
    refine InMemoryStore.mem_keysMatching.mpr ⟨?_, Or.inl ⟨Or.inr (Or.inl hkey), hunexp _ hkey⟩⟩
    rw [List.isPrefixOf_iff_prefix]
    refine ⟨(toString part ++ ":" ++ ten ++ ":" ++ src).toList, ?_⟩
    rw [← String.toList_append]
    simp only [kdKey, stateKey, String.append_assoc]
  rw [result_scopedKeys]
  cases flowParts with
  | none => exact hmatching
  | some ps =>
    have hassigned : part ∈ ps := hpart ps rfl
    dsimp only
    split
    · next henum =>
      obtain ⟨e, hmember, hexp⟩ := h.listed henum _ hkey
      refine List.mem_flatMap.mpr ⟨part, hassigned, mem_setMembers.mpr ⟨e, ?_, ?_⟩⟩
      · rw [← indexOf_kdKey part ten src]
        exact hmember
      · have halive := hunexp _ hkey
        simpa [InMemoryStore.alive, hexp] using halive
    · refine List.mem_filter.mpr ⟨hmatching, ?_⟩
      rw [partOf_kdKey, segmentIn_toString]
      exact decide_eq_true hassigned

theorem nodup_keysMatching (pfx : String) : (st.keysMatching pfx now).Nodup :=
  (List.perm_insertionSort _ _).nodup_iff.mpr (List.nodup_dedup _)

/-- No first-seen set is scanned twice. -/
theorem nodup_scanned (h : Indexed env flowParts t st) (hparts : ∀ ps ∈ flowParts, ps.Nodup) :
    ((scopedKeys env "kd:" flowParts).result (storeAnswer env st now)).Nodup := by
  rw [result_scopedKeys]
  cases flowParts with
  | none => exact nodup_keysMatching _
  | some ps =>
    dsimp only
    split
    · refine List.nodup_flatMap.mpr ⟨fun p _ => Registry.keys_nodup _, ?_⟩
      refine (hparts ps rfl).imp fun {p q} hpq => ?_
      intro key hp hq
      obtain ⟨e, hmember, -⟩ := mem_setMembers.mp hp
      obtain ⟨e', hmember', -⟩ := mem_setMembers.mp hq
      have hindex : ∀ p, prefixOf (indexKey "kd:" p) = "idx:" := by
        intro p
        rw [← indexOf_kdKey p "" "", prefixOf_indexOf]
      have hsame : indexKey "kd:" p = indexKey "kd:" q :=
        (h.filed _ _ (hindex p) (by rw [hmember]; rfl)).trans
          (h.filed _ _ (hindex q) (by rw [hmember']; rfl)).symm
      exact hpq (indexKey_inj hsame)
    · exact (nodup_keysMatching _).filter _

/-! ### What a pass examines -/

theorem mem_sinceOf_iff {zs : FieldMap String ℚ} {dst : String} :
    dst ∈ InMemoryStore.sinceOf zs rareSince ↔ ∃ s, zs.lookup dst = some s ∧ rareSince < s := by
  unfold InMemoryStore.sinceOf
  simp only [List.mem_map, List.mem_insertionSort, List.mem_filter, decide_eq_true_eq,
    Registry.lookup_eq_some]
  constructor
  · rintro ⟨⟨d, s⟩, ⟨hmem, hlt⟩, rfl⟩
    exact ⟨s, hmem, hlt⟩
  · rintro ⟨s, hmem, hlt⟩
    exact ⟨(dst, s), ⟨hmem, hlt⟩, rfl⟩

theorem nodup_sinceOf (zs : FieldMap String ℚ) : (InMemoryStore.sinceOf zs rareSince).Nodup := by
  unfold InMemoryStore.sinceOf
  refine ((List.perm_insertionSort _ _).map Prod.fst).nodup_iff.mpr ?_
  exact zs.nodup.sublist (List.filter_sublist.map Prod.fst)

theorem mem_zsetSince (hunexp : Unexpired st now) {x : String × String} :
    x.2 ∈ st.zsetSince x.1 rareSince now ↔ ∃ s, firstSeenOf st x = some s ∧ rareSince < s := by
  rw [← lookup_zset hunexp]
  exact mem_sinceOf_iff

theorem nodup_examinedOn (h : Indexed env flowParts t st) (hparts : ∀ ps ∈ flowParts, ps.Nodup) :
    (examinedOn env flowParts st rareSince now).Nodup := by
  unfold examinedOn
  refine List.nodup_flatMap.mpr ⟨?_, ?_⟩
  · intro key _
    exact (nodup_sinceOf _).map fun _ _ heq => (Prod.mk.inj heq).2
  · refine (nodup_scanned h hparts).imp fun {key key'} hne => ?_
    intro x hx hx'
    obtain ⟨dst, -, rfl⟩ := List.mem_map.mp hx
    obtain ⟨dst', -, heq⟩ := List.mem_map.mp hx'
    exact hne (Prod.mk.inj heq).1.symm

/-- A pass examines a destination once when it was first seen after the
    cursor, and not at all otherwise. -/
theorem count_examinedOn (h : Indexed env flowParts t st) (hunexp : Unexpired st now)
    (hparts : ∀ ps ∈ flowParts, ps.Nodup) (x : String × String) :
    (examinedOn env flowParts st rareSince now).count x =
      if (firstSeenOf st x).any (rareSince < ·) then 1 else 0 := by
  have hmem : x ∈ examinedOn env flowParts st rareSince now ↔
      (firstSeenOf st x).any (rareSince < ·) = true := by
    rw [Option.any_eq_true]
    simp only [decide_eq_true_eq]
    rw [← mem_zsetSince hunexp]
    unfold examinedOn
    constructor
    · intro hx
      obtain ⟨key, -, hx⟩ := List.mem_flatMap.mp hx
      obtain ⟨dst, hdst, rfl⟩ := List.mem_map.mp hx
      exact hdst
    · intro hdst
      obtain ⟨s, hs, -⟩ := (mem_zsetSince hunexp).mp hdst
      have hkey : (st.zs.lookup x.1).isSome := by
        obtain ⟨zs, hzs, -⟩ := Option.bind_eq_some_iff.mp hs
        rw [hzs]
        rfl
      exact List.mem_flatMap.mpr ⟨x.1, mem_scanned h hunexp hkey, List.mem_map.mpr ⟨x.2, hdst, rfl⟩⟩
  rw [(nodup_examinedOn h hparts).count]
  exact if_congr hmem rfl rfl

/-! ### A pass over a sound store -/

/-- The view of a pass. -/
def viewOf (h : Indexed env flowParts t st) (hunexp : Unexpired st now) (hle : t ≤ now) :
    View now where
  answer := storeAnswer env st now
  seen := by
    intro key m hm
    have hlookup : (st.zset key now).lookup m.1 = some m.2 := Registry.lookup_eq_some.mpr hm
    have hseen : firstSeenOf st (key, m.1) = some m.2 :=
      (lookup_zset hunexp (key, m.1)).symm.trans hlookup
    exact (h.scores _ _ hseen).2.trans hle

theorem callsOn_eq (h : Indexed env flowParts t st) (hunexp : Unexpired st now) (hle : t ≤ now) :
    callsOn env det cfg flowParts dnsParts st rareSince now =
      passCalls env det cfg flowParts dnsParts (viewOf h hunexp hle) rareSince := rfl

theorem colon_notMem_windowPfx {scan : Scan}
    (hscan : scan ∈ windowScans env det cfg flowParts dnsParts) :
    ∃ name, scan.pfx = name ++ ":" ∧ ':' ∉ name.toList ∧ name ++ ":" ≠ "kd:" := by
  simp only [windowScans, List.mem_cons, List.not_mem_nil, or_false] at hscan
  rcases hscan with rfl | rfl | rfl | rfl | rfl
  · exact ⟨"bc", show "bc:" = "bc" ++ ":" by decide, by decide, by decide⟩
  · exact ⟨"bf", show "bf:" = "bf" ++ ":" by decide, by decide, by decide⟩
  · exact ⟨"dn", show "dn:" = "dn" ++ ":" by decide, by decide, by decide⟩
  · exact ⟨"exf", show EX_PFX = "exf" ++ ":" by decide, by decide, by decide⟩
  · exact ⟨"lcf", show LC_PFX = "lcf" ++ ":" by decide, by decide, by decide⟩

/-- What a section drops from an index is the scanned key. -/
theorem eq_of_setRemove {v : View now} {scan : Scan} {key idx k : String}
    (hbody : (scan.body key).Makes fun call => ∀ idx k, call = .other (.setRemove idx k) → k = key)
    (hcall : .other (.setRemove idx k) ∈ scan.keyCalls v key) : k = key := by
  rcases hbody.of_mem_calls hcall with hmakes | ⟨q, hq⟩
  · exact hmakes idx k rfl
  · cases hq

/-- The last section drops no key that has a first-seen destination. -/
theorem setRemove_notMem_rareKeyCalls {v : View now} {key idx k : String}
    (hknown : InMemoryStore.sinceOf (v.zset key) 0 ≠ []) :
    .other (.setRemove idx k) ∉ (rareScan env flowParts rareSince).keyCalls v key := by
  rw [keyCalls_rareScan]
  intro hcall
  rcases List.mem_cons.mp hcall with hcall | hcall
  · cases hcall
  · split at hcall
    · rw [Program.calls_each] at hcall
      obtain ⟨dst, -, hcall⟩ := List.mem_flatMap.mp hcall
      rw [calls_rareDestination] at hcall
      rcases List.mem_cons.mp hcall with hcall | hcall
      · cases hcall
      · split at hcall
        · cases List.mem_singleton.mp hcall
        · cases hcall
    · rcases List.mem_cons.mp hcall with hcall | hcall
      · cases hcall
      · rw [if_neg fun hempty => hknown (List.isEmpty_iff.mp hempty)] at hcall
        cases hcall

/-- A first-seen set has a destination. -/
theorem Indexed.known (h : Indexed env flowParts t st) (hunexp : Unexpired st now) {key : String}
    (hkey : (st.zs.lookup key).isSome) : InMemoryStore.sinceOf (st.zset key now) 0 ≠ [] := by
  obtain ⟨zs, hzs⟩ := Option.isSome_iff_exists.mp hkey
  obtain ⟨m, hm⟩ := List.exists_mem_of_ne_nil _ (h.nonempty key zs hzs)
  have hseen : firstSeenOf st (key, m.1) = some m.2 := by
    unfold firstSeenOf
    rw [hzs]
    exact Registry.lookup_eq_some.mpr hm
  have hmem : m.1 ∈ st.zsetSince key 0 now :=
    (mem_zsetSince (x := (key, m.1)) hunexp).mpr ⟨m.2, hseen, (h.scores _ _ hseen).1⟩
  exact List.ne_nil_of_mem hmem

/-- A pass drops no first-seen set from its index. -/
theorem not_pruned (h : Indexed env flowParts t st) (hunexp : Unexpired st now) (hle : t ≤ now)
    {key : String} (hkey : (st.zs.lookup key).isSome) :
    .other (.setRemove (indexOf key) key) ∉
      callsOn env det cfg flowParts dnsParts st rareSince now := by
  rw [callsOn_eq h hunexp hle, passCalls_eq]
  intro hcall
  have hkd := h.prefix_key hkey
  rcases List.mem_append.mp hcall with hcall | hcall
  · rcases List.mem_cons.mp hcall with hcall | hcall
    · cases hcall
    · obtain ⟨scan, hscan, hcall⟩ := List.mem_flatMap.mp hcall
      rcases Scan.mem_calls hcall with ⟨q, hq⟩ | ⟨key', hkey', hcall⟩
      · cases hq
      · have hmakes : (scan.body key').Makes fun call =>
            ∀ idx k, call = .other (.setRemove idx k) → k = key' :=
          makes_windowScan (fun c _ idx k hoffer => by cases hoffer)
            (fun idx k hprune => by cases hprune; rfl) hscan
        obtain rfl := eq_of_setRemove hmakes hcall
        obtain ⟨name, hpfx, hname, hne⟩ := colon_notMem_windowPfx hscan
        have hscanned : key ∈ (scopedKeys env (name ++ ":") scan.parts).result
            (storeAnswer env st now) := hpfx ▸ hkey'
        exact hne ((prefixOf_scanned h hname hscanned).symm.trans hkd)
  · rcases List.mem_cons.mp hcall with hcall | hcall
    · cases hcall
    · rcases List.mem_append.mp hcall with hcall | hcall
      · rcases Scan.mem_calls hcall with ⟨q, hq⟩ | ⟨key', -, hcall⟩
        · cases hq
        · have hmakes : ((rareScan env flowParts rareSince).body key').Makes fun call =>
              ∀ idx k, call = .other (.setRemove idx k) → k = key' :=
            makes_rareScan (fun dst idx k hoffer => by cases hoffer)
              (fun idx k hprune => by cases hprune; rfl)
          obtain rfl := eq_of_setRemove hmakes hcall
          refine setRemove_notMem_rareKeyCalls ?_ hcall
          exact h.known hunexp hkey
      · cases List.mem_singleton.mp hcall

/-! ### What a pass builds -/

theorem filterMap_eq_nil {α β : Type} {f : α → Option β} {l : List α} (h : ∀ a ∈ l, f a = none) :
    l.filterMap f = [] := List.filterMap_eq_nil_iff.mpr h

/-- No other section builds a rare destination. -/
theorem rareOf_windowCalls {v : View now} : ∀ call ∈ windowCalls env det cfg flowParts dnsParts v,
    rareOf call = none := by
  intro call hcall
  rcases List.mem_cons.mp hcall with rfl | hcall
  · rfl
  · obtain ⟨scan, hscan, hcall⟩ := List.mem_flatMap.mp hcall
    rcases Scan.mem_calls hcall with ⟨q, rfl⟩ | ⟨key, -, hcall⟩
    · rfl
    · have hmakes : (scan.body key).Makes fun call => rareOf call = none :=
        makes_windowScan (fun c hc => if_neg hc) rfl hscan
      rcases hmakes.of_mem_calls hcall with hother | ⟨q, rfl⟩
      · exact hother
      · rfl

/-- What the section builds for a key. -/
theorem rareOf_keyCalls {v : View now} (key : String) :
    ((rareScan env flowParts rareSince).keyCalls v key).filterMap rareOf =
      ((InMemoryStore.sinceOf (v.zset key) rareSince).filter fun dst =>
        (InMemoryStore.rankOf (v.zset key) dst).any (15 ≤ ·)).map
          (rareCandidate (keyParts key).1 (keyParts key).2) := by
  have hdestination : ∀ dst, ((rareDestination key dst).calls record v.answer).filterMap rareOf =
      if (InMemoryStore.rankOf (v.zset key) dst).any (15 ≤ ·) then
        [rareCandidate (keyParts key).1 (keyParts key).2 dst] else [] := by
    intro dst
    rw [calls_rareDestination]
    split
    · rfl
    · rfl
  have hdestinations : ∀ news : List String,
      ((Program.each news (rareDestination key)).calls record v.answer).filterMap rareOf =
        (news.filter fun dst => (InMemoryStore.rankOf (v.zset key) dst).any (15 ≤ ·)).map
          (rareCandidate (keyParts key).1 (keyParts key).2) := by
    intro news
    rw [Program.calls_each]
    induction news with
    | nil => rfl
    | cons dst news ih =>
      rw [List.flatMap_cons, List.filterMap_append, ih, hdestination, List.filter_cons]
      split
      · rfl
      · rfl
  rw [keyCalls_rareScan, List.filterMap_cons]
  show List.filterMap rareOf _ = _
  split
  · exact hdestinations _
  · next hempty =>
    have hnone : InMemoryStore.sinceOf (v.zset key) rareSince = [] := by simpa using hempty
    rw [hnone, List.filterMap_cons]
    show List.filterMap rareOf _ = []
    split
    · unfold pruneIndex
      split
      · rfl
      · rfl
    · rfl

theorem rank_iff (hunexp : Unexpired st now) (x : String × String) :
    (InMemoryStore.rankOf (st.zset x.1 now) x.2).any (15 ≤ ·) =
      decide (15 ≤ (preceding st x).length) := by
  unfold InMemoryStore.rankOf preceding
  rw [lookup_zset hunexp, zset_of_unexpired hunexp]
  cases hzs : st.zs.lookup x.1 with
  | none =>
    have hnone : firstSeenOf st x = none := by
      unfold firstSeenOf
      rw [hzs]
      rfl
    rw [hnone]
    rfl
  | some zs =>
    cases firstSeenOf st x with
    | none => rfl
    | some score =>
      simp [InMemoryStore.memberLt]

/-- The candidates of a pass are those of the destinations that it examines
    and that fifteen others precede. -/
theorem builtOn_eq (h : Indexed env flowParts t st) (hunexp : Unexpired st now) (hle : t ≤ now) :
    builtOn env det cfg flowParts dnsParts st rareSince now =
      ((examinedOn env flowParts st rareSince now).filter fun x =>
        15 ≤ (preceding st x).length).map fun x =>
          rareCandidate (keyParts x.1).1 (keyParts x.1).2 x.2 := by
  have hkey : ∀ key, ((rareScan env flowParts rareSince).keyCalls (viewOf h hunexp hle)
      key).filterMap rareOf =
        (((st.zsetSince key rareSince now).map fun dst => (key, dst)).filter fun x =>
          15 ≤ (preceding st x).length).map fun x =>
            rareCandidate (keyParts x.1).1 (keyParts x.1).2 x.2 := by
    intro key
    rw [rareOf_keyCalls, List.filter_map, List.map_map]
    refine congrArg (List.map _) (List.filter_congr fun dst _ => ?_)
    exact rank_iff hunexp (key, dst)
  unfold builtOn
  rw [callsOn_eq h hunexp hle, passCalls_eq, List.filterMap_append,
    filterMap_eq_nil rareOf_windowCalls, List.nil_append, List.filterMap_cons]
  show List.filterMap rareOf (rareCalls env flowParts (viewOf h hunexp hle) rareSince) = _
  unfold rareCalls examinedOn
  rw [List.filterMap_append, Scan.calls_eq, List.filterMap_append]
  have hread : ((scopedKeys env (rareScan env flowParts rareSince).pfx
      (rareScan env flowParts rareSince).parts).calls record
        (viewOf h hunexp hle).answer).filterMap rareOf = [] := by
    refine filterMap_eq_nil fun call hcall => ?_
    rcases (makes_scopedKeys _ _).of_mem_calls hcall with hfalse | ⟨q, rfl⟩
    · exact hfalse.elim
    · rfl
  rw [hread, List.nil_append, List.filterMap_flatMap, List.filter_flatMap, List.map_flatMap]
  show _ ++ [] = _
  rw [List.append_nil]
  exact congrArg (List.flatMap · _) (funext hkey)

/-! ### The invariant -/

/-- The cursor is not ahead of the clock, and what is buffered lies above it. -/
structure Sound (env : Env) (flowParts : Option (List Nat)) (w : World) : Prop where
  cursor : 0 ≤ w.proc.rareLastEval ∧ w.proc.rareLastEval ≤ w.time
  sets : Indexed env flowParts w.time w.det.store
  pending : ∀ op ∈ w.det.pending, Buffered env flowParts w.time op
  above : ∀ op ∈ w.det.pending, ∀ x s, sightingOf op = some (x, s) →
    firstSeenOf w.det.store x = none → w.proc.rareLastEval < s

theorem sound_start : Sound env flowParts .start where
  cursor := ⟨le_rfl, le_rfl⟩
  sets := by
    refine ⟨?_, ?_, ?_, ?_, ?_⟩
    · intro key hkey
      cases hkey
    · intro key zs hzs
      cases hzs
    · intro x s hs
      cases hs
    · intro _ key hkey
      cases hkey
    · intro k m _ hm
      cases hm
  pending := by
    intro op hop
    cases hop
  above := by
    intro op hop
    cases hop

theorem Indexed.congr {st' : InMemoryStore} (h : Indexed env flowParts t st) (hzs : st'.zs = st.zs)
    (hexp : st'.exp = st.exp) (hs : st'.s = st.s) : Indexed env flowParts t st' := by
  obtain ⟨hnamed, hnonempty, hscores, hlisted, hfiled⟩ := h
  refine ⟨?_, ?_, ?_, ?_, ?_⟩
  · rwa [hzs]
  · rwa [hzs]
  · unfold firstSeenOf at hscores ⊢
    rwa [hzs]
  · unfold memberExpiry at hlisted ⊢
    rwa [hzs, hexp, hs]
  · unfold memberExpiry at hfiled ⊢
    rwa [hs]

/-- The read of `i2d:` leaves sets and indexes. -/
theorem i2dGet_sets (env : Env) (d : Detector) (key : String) (now wall : ℚ) :
    (i2dGet env d key now wall).2.store.zs = d.store.zs ∧
      (i2dGet env d key now wall).2.store.exp = d.store.exp ∧
      (i2dGet env d key now wall).2.store.s = d.store.s ∧
      (i2dGet env d key now wall).2.pending = d.pending := by
  unfold i2dGet
  split
  · exact ⟨rfl, rfl, rfl, rfl⟩
  · have hget : (d.store.kvGet key wall).2.zs = d.store.zs ∧
        (d.store.kvGet key wall).2.exp = d.store.exp ∧ (d.store.kvGet key wall).2.s = d.store.s := by
      unfold InMemoryStore.kvGet
      split
      · exact ⟨rfl, rfl, rfl⟩
      · exact ⟨rfl, rfl, rfl⟩
    exact ⟨hget.1, hget.2.1, hget.2.2, rfl⟩

/-- A record changes no set at once; it buffers the writes of its sighting. -/
theorem handleFlow_sets (env : Env) (d : Detector) (a : Arrival) :
    (handleFlow env d a).store.zs = d.store.zs ∧ (handleFlow env d a).store.exp = d.store.exp ∧
      (handleFlow env d a).store.s = d.store.s ∧
      ((handleFlow env d a).pending = d.pending ∨ ∃ g dom, sighting env a = some g ∧
        (handleFlow env d a).pending = d.pending ++ (g.writes env a.part (a.clock 1) ++
          g.beaconWrites env a.part ++ g.domainWrites env a.part dom)) := by
  unfold handleFlow
  cases hg : sighting env a with
  | none => exact ⟨rfl, rfl, rfl, Or.inl rfl⟩
  | some g =>
    simp only
    generalize hd : ({ d with pending := d.pending ++ g.writes env a.part (a.clock 1) } : Detector) = d₁
    obtain ⟨hzs, hexp, hs, hpending⟩ :=
      i2dGet_sets env d₁ ("i2d:" ++ g.ten ++ ":" ++ g.dst) a.now (a.clock 2)
    generalize i2dGet env d₁ ("i2d:" ++ g.ten ++ ":" ++ g.dst) a.now (a.clock 2) = out at *
    obtain ⟨dom, d₂⟩ := out
    refine ⟨hzs.trans (hd ▸ rfl), hexp.trans (hd ▸ rfl), hs.trans (hd ▸ rfl),
      Or.inr ⟨g, dom, rfl, ?_⟩⟩
    simp only at hpending ⊢
    rw [hpending, ← hd]
    simp only [List.append_assoc]

/-- The sighting among the writes of a record. -/
theorem sightingOf_writes {g : Sighting} {part : Nat} {firstSeen : ℚ} {dom : Option Json} {op : WriteOp}
    (hop : op ∈ g.writes env part firstSeen ++ g.beaconWrites env part ++ g.domainWrites env part dom)
    {x : String × String} {s : ℚ} (hs : sightingOf op = some (x, s)) :
    x = (stateKey "kd:" part g.ten g.src, g.dst) ∧ s = firstSeen := by
  rcases List.mem_append.mp hop with hop | hop
  · rcases List.mem_append.mp hop with hop | hop
    · simp only [Sighting.writes, List.mem_cons, List.not_mem_nil, or_false] at hop
      rcases hop with rfl | rfl | rfl | rfl | rfl | rfl
      · cases hs
      · cases hs
      · cases hs
      · cases hs
      · cases hs
      · cases hs
        exact ⟨rfl, rfl⟩
    · unfold Sighting.beaconWrites at hop
      split at hop
      · cases hop
      · rw [List.mem_singleton.mp hop] at hs
        cases hs
  · unfold Sighting.domainWrites at hop
    split at hop
    · simp only [List.mem_cons, List.not_mem_nil, or_false] at hop
      rcases hop with rfl | rfl
      · cases hs
      · cases hs
    · cases hop

/-! ### Steps -/

variable {w : World}

/-- After a flush a destination has its old sighting or a buffered one, and a
    new one lies above the cursor. -/
theorem Sound.flushed (h : Sound env flowParts w) {clock : Nat → ℚ}
    (hnone : NoneExpires w.det.store (stamped w.det clock)) :
    Indexed env flowParts w.time (flushPending w.det clock).store ∧
      ∀ x s, firstSeenOf w.det.store x = none →
        firstSeenOf (flushPending w.det clock).store x = some s → w.proc.rareLastEval < s := by
  have hpending : ∀ op ∈ stamped w.det clock, op.1 ∈ w.det.pending := by
    intro op hop
    obtain ⟨op', hop', rfl⟩ := List.mem_map.mp hop
    exact List.fst_mem_of_mem_zipIdx hop'
  refine ⟨h.sets.batch (fun op hop => h.pending _ (hpending op hop)) hnone, ?_⟩
  intro x s hx hs
  have hbatch := firstSeenOf_batch hnone x
  rw [hx, Option.none_or] at hbatch
  obtain ⟨op, hop, hsighting⟩ := mem_of_sightingIn (hbatch.symm.trans hs)
  exact h.above _ (hpending op hop) x s hsighting hx

theorem flushed_keeps {d : Detector} {clock : Nat → ℚ} (hnone : NoneExpires d.store (stamped d clock))
    {x : String × String} {s : ℚ} (hs : firstSeenOf d.store x = some s) :
    firstSeenOf (flushPending d clock).store x = some s := by
  have hbatch := firstSeenOf_batch hnone x
  rw [hs] at hbatch
  exact hbatch

/-- What every step does to the invariant and to the sightings. -/
def StepSound (env : Env) (det : Scoring) (cfg : Config) (flowParts dnsParts : Option (List Nat))
    (w : World) (e : Event) : Prop :=
  Sound env flowParts (step env det cfg flowParts dnsParts w e) ∧
    (ledger env det cfg flowParts dnsParts).Regular w e

/-- A sighting is scored by a positive time, above the cursor when it is the
    first. -/
theorem Sound.score_pos (h : Sound env flowParts w) {a : Arrival} {stop : ℚ} {x : String × String}
    (hclock : ∀ i, w.time ≤ a.clock i ∧ a.clock i ≤ stop)
    (hoff : firstSeenOf w.det.store x = none → a.clock 1 ≠ w.proc.rareLastEval) :
    0 < a.clock 1 ∧ (firstSeenOf w.det.store x = none → w.proc.rareLastEval < a.clock 1) := by
  have hle : w.proc.rareLastEval ≤ a.clock 1 := h.cursor.2.trans (hclock 1).1
  have habove : firstSeenOf w.det.store x = none → w.proc.rareLastEval < a.clock 1 :=
    fun hx => lt_of_le_of_ne hle (hoff hx).symm
  refine ⟨?_, habove⟩
  cases hx : firstSeenOf w.det.store x with
  | none => exact h.cursor.1.trans_lt (habove hx)
  | some s =>
    obtain ⟨hpos, hs⟩ := h.sets.scores x s hx
    exact hpos.trans_le (hs.trans (hclock 1).1)

theorem sound_handle {a : Arrival} {stop : ℚ} (h : Sound env flowParts w)
    (hadm : Admissible flowParts w (.handle a stop)) (hoff : OffCursor env w (.handle a stop)) :
    StepSound env det cfg flowParts dnsParts w (.handle a stop) := by
  obtain ⟨hpart, hclock⟩ := hadm
  obtain ⟨hzs, hexp, hs, hpending⟩ := handleFlow_sets env w.det a
  have htime : w.time ≤ stop := (hclock 0).1.trans (hclock 0).2
  have hscore : ∀ x, firstSeenOf (handleFlow env w.det a).store x = firstSeenOf w.det.store x := by
    intro x
    unfold firstSeenOf
    rw [hzs]
  have hbuffered : ∀ op ∈ (handleFlow env w.det a).pending, Buffered env flowParts stop op ∧
      ∀ x s, sightingOf op = some (x, s) → firstSeenOf w.det.store x = none →
        w.proc.rareLastEval < s := by
    have hold : ∀ op ∈ w.det.pending, Buffered env flowParts stop op ∧
        ∀ x s, sightingOf op = some (x, s) → firstSeenOf w.det.store x = none →
          w.proc.rareLastEval < s :=
      fun op hop => ⟨(h.pending op hop).mono htime, h.above op hop⟩
    intro op hop
    rcases hpending with hsame | ⟨g, dom, hg, hnew⟩
    · exact hold op (hsame ▸ hop)
    · rw [hnew] at hop
      rcases List.mem_append.mp hop with hop | hop
      · exact hold op hop
      · have hfirst := h.score_pos hclock (hoff g hg)
        refine ⟨buffered_writes g dom hpart hfirst.1 (hclock 1).2 op hop, ?_⟩
        intro x s hsighting hx
        obtain ⟨rfl, rfl⟩ := sightingOf_writes hop hsighting
        exact hfirst.2 hx
  refine ⟨⟨?_, ?_, ?_, ?_⟩, ?_⟩
  · exact ⟨h.cursor.1, h.cursor.2.trans htime⟩
  · exact (h.sets.congr hzs hexp hs).mono htime
  · exact fun op hop => (hbuffered op hop).1
  · intro op hop x s hsighting hx
    exact (hbuffered op hop).2 x s hsighting ((hscore x).symm.trans hx)
  · refine ⟨?_, ?_, ?_, ?_, ?_⟩
    · intro x s hx
      exact (hscore x).trans hx
    · intro x s hx hx'
      have hnone := (hscore x).symm.trans hx'
      exact absurd (hx.symm.trans hnone) (Option.some_ne_none s).symm
    · exact fun _ => rfl
    · intro xs hxs
      cases hxs
    · intro xs hxs
      cases hxs

theorem sound_flush {clock : Nat → ℚ} {stop : ℚ} (h : Sound env flowParts w)
    (hadm : Admissible flowParts w (.flush clock stop)) :
    StepSound env det cfg flowParts dnsParts w (.flush clock stop) := by
  obtain ⟨hclock, hnone⟩ := hadm
  obtain ⟨hsets, habove⟩ := h.flushed hnone
  have htime : w.time ≤ stop := (hclock 0).1.trans (hclock 0).2
  refine ⟨⟨?_, ?_, ?_, ?_⟩, ?_⟩
  · exact ⟨h.cursor.1, h.cursor.2.trans htime⟩
  · exact hsets.mono htime
  · intro op hop
    cases hop
  · intro op hop
    cases hop
  · refine ⟨?_, habove, ?_, ?_, ?_⟩
    · exact fun x s hs => flushed_keeps hnone hs
    · exact fun _ => rfl
    · intro xs hxs
      cases hxs
    · intro xs hxs
      cases hxs

/-- A whole pass moves the cursor to its time. -/
theorem cursor_after_pass (h : Indexed env flowParts t st) (hunexp : Unexpired st now) (hle : t ≤ now)
    (p : Process) : (p.after env det now (EmitOnce.steps (emitTable env now)
      (Candidate.emitKey env det now) p.dedup
        (callsOn env det cfg flowParts dnsParts st p.rareLastEval now))).rareLastEval = now := by
  show cursorAfter p.rareLastEval (passSteps env det cfg flowParts dnsParts (viewOf h hunexp hle) p) = now
  rw [passSteps_eq]
  exact cursorAfter_of_moved fun t' => advance_notMem_rareSteps t'

theorem sound_evaluate {clock : Nat → ℚ} (hparts : ∀ ps ∈ flowParts, ps.Nodup)
    (h : Sound env flowParts w) (hadm : Admissible flowParts w (.evaluate clock now)) :
    StepSound env det cfg flowParts dnsParts w (.evaluate clock now) := by
  obtain ⟨hclock, hnone, hunexp⟩ := hadm
  obtain ⟨hsets, habove⟩ := h.flushed hnone
  have htime : w.time ≤ now := (hclock 0).1.trans (hclock 0).2
  have hcalls : ∀ key, ((flushPending w.det clock).store.zs.lookup key).isSome →
      .other (.setRemove (indexOf key) key) ∉ callsOn env det cfg flowParts dnsParts
        (flushPending w.det clock).store w.proc.rareLastEval now :=
    fun key hkey => not_pruned hsets hunexp htime hkey
  obtain ⟨hafter, hzs⟩ := indexed_effects hsets hunexp hcalls
  have hcursor : (step env det cfg flowParts dnsParts w (.evaluate clock now)).proc.rareLastEval = now :=
    cursor_after_pass hsets hunexp htime w.proc
  have hscore : ∀ x, firstSeenOf (step env det cfg flowParts dnsParts w (.evaluate clock now)).det.store
      x = firstSeenOf (flushPending w.det clock).store x := by
    intro x
    show firstSeenOf (List.foldl _ _ _) x = _
    unfold firstSeenOf
    rw [hzs]
  refine ⟨⟨?_, ?_, ?_, ?_⟩, ?_⟩
  · exact ⟨(h.cursor.1.trans h.cursor.2).trans (htime.trans hcursor.ge), hcursor.le⟩
  · exact hafter.mono htime
  · intro op hop
    cases hop
  · intro op hop
    cases hop
  · refine ⟨?_, ?_, ?_, ?_, ?_⟩
    · exact fun x s hs => (hscore x).trans (flushed_keeps hnone hs)
    · exact fun x s hx hs => habove x s hx ((hscore x).symm.trans hs)
    · intro hrest
      cases hrest
    · rintro xs ⟨⟩ x
      show _ = if (firstSeenOf (step env det cfg flowParts dnsParts w (.evaluate clock now)).det.store
        x).any _ then 1 else 0
      rw [hscore]
      exact count_examinedOn hsets hunexp hparts x
    · rintro xs - x s hs
      have hle := (hsets.scores x s ((hscore x).symm.trans hs)).2
      exact hle.trans (htime.trans hcursor.ge)

/-! ### Runs -/

variable {events : List Event}

theorem sound_step (hparts : ∀ ps ∈ flowParts, ps.Nodup) {e : Event} (h : Sound env flowParts w)
    (hadm : Admissible flowParts w e) (hoff : OffCursor env w e) :
    StepSound env det cfg flowParts dnsParts w e := by
  cases e with
  | handle a stop => exact sound_handle h hadm hoff
  | flush clock stop => exact sound_flush h hadm
  | evaluate clock now => exact sound_evaluate hparts h hadm

/-- **Rare destinations are examined exactly once**: in every run in which no
    destination is first seen at the value of the cursor, a destination that
    is added to a first-seen set is examined in the first pass after its
    flush and in no other. -/
theorem rare_destinations_examined_once (hparts : ∀ ps ∈ flowParts, ps.Nodup)
    (h : Machine.Meets (step env det cfg flowParts dnsParts)
      (fun w e => Admissible flowParts w e ∧ OffCursor env w e) .start events) :
    ExaminedOnce env det cfg flowParts dnsParts events := by
  have hsound : ∀ pre e post, events = pre ++ e :: post →
      Sound env flowParts (worldAfter env det cfg flowParts dnsParts pre) ∧
        Admissible flowParts (worldAfter env det cfg flowParts dnsParts pre) e ∧
        (ledger env det cfg flowParts dnsParts).Regular
          (worldAfter env det cfg flowParts dnsParts pre) e := by
    intro pre e post heq
    obtain ⟨hadm, hoff⟩ := h pre e post heq
    have hpre : Sound env flowParts (worldAfter env det cfg flowParts dnsParts pre) :=
      Machine.run_invariant_of_meets (P := Sound env flowParts)
        (fun w e hC hw => (sound_step hparts hw hC.1 hC.2).1) sound_start
        (h.of_initial ⟨e :: post, heq.symm⟩)
    exact ⟨hpre, hadm, (sound_step hparts hpre hadm hoff).2⟩
  have hregular : Machine.Meets (ledger env det cfg flowParts dnsParts).step
      (ledger env det cfg flowParts dnsParts).Regular .start events :=
    fun pre e post heq => (hsound pre e post heq).2.2
  refine ⟨?_, ?_, ?_⟩
  · rintro pre e post x rfl w hnone hsome
    exact Sightings.Ledger.exactly_once hregular hnone hsome
  · intro pre clock now post heq w st
    obtain ⟨hw, ⟨hclock, hnone, hunexp⟩, -⟩ := hsound pre _ post heq
    exact builtOn_eq (hw.flushed hnone).1 hunexp ((hclock 0).1.trans (hclock 0).2)
  · intro pre e post x score heq w hx
    exact (hsound pre e post heq).2.2.keeps x score hx

/-! ### One source -/

/-- A flow to an external destination, handled at the time `now`. -/
def flowAt (now : ℚ) : Arrival where
  record := .obj [("event_type", .str "flow"), ("src_ip", .str "10.0.0.11"),
    ("dest_ip", .str "203.0.113.1"), ("flow", .obj [("bytes_toserver", .int 100)])]
  part := 0
  now := now
  clock := fun _ => now

theorem readings {t c : ℚ} (h : t ≤ c) : ∀ _ : Nat, t ≤ c ∧ c ≤ c := fun _ => ⟨h, le_rfl⟩

/-- The flow is seen twice, each time before a pass. -/
def seenTwice : List Event :=
  [.handle (flowAt 1) 1, .evaluate (fun _ => 2) 2, .handle (flowAt 3) 3, .flush (fun _ => 3) 3,
    .evaluate (fun _ => 4) 4]

theorem seen_twice_examined_once :
    ExaminedOnce labEnv labScoring labConfig (some [0]) (some [0]) seenTwice := by
  apply rare_destinations_examined_once
  · rintro ps ⟨⟩
    decide
  · refine .cons ⟨⟨?_, readings ?_⟩, fun g _ _ => ?_⟩ (.cons ⟨⟨readings ?_, ?_, ?_⟩, trivial⟩
      (.cons ⟨⟨?_, readings ?_⟩, fun g _ _ => ?_⟩ (.cons ⟨⟨readings ?_, ?_⟩, trivial⟩
        (.cons ⟨⟨readings ?_, ?_, ?_⟩, trivial⟩ (.nil _ _ _)))))
    all_goals first
      | decide +kernel
      | rintro ps ⟨⟩; decide

/-- The flow is first seen at the value of the cursor, and is never examined. -/
def seenAtCursor : List Event :=
  [.evaluate (fun _ => 1) 1, .handle (flowAt 1) 1, .flush (fun _ => 1) 1, .evaluate (fun _ => 2) 2]

theorem sighting_at_cursor_missed :
    ¬ ∀ (env : Env) (det : Scoring) (cfg : Config) (flowParts dnsParts : Option (List Nat))
      (events : List Event), (∀ ps ∈ flowParts, ps.Nodup) →
      Machine.Meets (step env det cfg flowParts dnsParts) (Admissible flowParts) .start events →
        ExaminedOnce env det cfg flowParts dnsParts events := by
  intro hall
  have hadm : Machine.Meets (step labEnv labScoring labConfig (some [0]) (some [0]))
      (Admissible (some [0])) .start seenAtCursor := by
    refine .cons ⟨readings ?_, ?_, ?_⟩ (.cons ⟨?_, readings ?_⟩ (.cons ⟨readings ?_, ?_⟩
      (.cons ⟨readings ?_, ?_, ?_⟩ (.nil _ _ _))))
    all_goals first
      | decide +kernel
      | rintro ps ⟨⟩; decide
  have honce := (hall labEnv labScoring labConfig (some [0]) (some [0]) seenAtCursor
    (by rintro ps ⟨⟩; decide) hadm).once [.evaluate (fun _ => 1) 1, .handle (flowAt 1) 1]
      (.flush (fun _ => 1) 1) [.evaluate (fun _ => 2) 2] ("kd:0:homelab:10.0.0.11", "203.0.113.1") rfl
      (by decide +kernel) (by decide +kernel)
  have hcounts : (ledger labEnv labScoring labConfig (some [0]) (some [0])).counts
      ("kd:0:homelab:10.0.0.11", "203.0.113.1")
      (worldAfter labEnv labScoring labConfig (some [0]) (some [0])
        [.evaluate (fun _ => 1) 1, .handle (flowAt 1) 1])
      [.flush (fun _ => 1) 1, .evaluate (fun _ => 2) 2] = [0] := by decide +kernel
  rw [hcounts] at honce
  rcases honce.2 with hnil | ⟨rest, hone, -⟩
  · cases hnil
  · cases hone

end Behavioral
