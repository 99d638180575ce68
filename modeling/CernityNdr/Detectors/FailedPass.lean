import CernityNdr.Detectors.Evaluate
import CernityNdr.Detectors.Replay

/-! # Evaluate Passes that Fail

    `main` catches what a call of the store or of `producer.send` raises
    inside `evaluate` and goes on: the pass has made its first calls, and the
    next pass starts from the emit-once keys and the cursor that they left. A
    call that raises may have taken effect: the reply of a `SET NX` that the
    store applied can be lost.

    * `NoFindingLost`: what the failed pass did not hand over, the next pass
      of the same window sends.
    * `RareHanded`: no rare destination was left when the cursor had moved.
    * `no_finding_lost_iff`: nothing is lost unless a send raised, a claim that
      raised took a fresh key, or a rare destination was left. -/

open CappedMap (FieldMap)
open EmitOnce (Step Table sends)

namespace Behavioral

/-! ### Store and process -/

/-- What the store answers during a pass at time `now`. A first-seen score is
    the time at which a record was handled. -/
structure View (now : ℚ) where
  answer : (q : Query) → q.Answer
  seen : ∀ key, ∀ m ∈ (show FieldMap String ℚ from answer (.zset key)).vals, m.2 ≤ now

/-- The first-seen set of a key. -/
def View.zset {now : ℚ} (v : View now) (key : String) : FieldMap String ℚ := v.answer (.zset key)

/-- What the in-memory store answers. -/
def storeAnswer (env : Env) (st : InMemoryStore) (now : ℚ) : (q : Query) → q.Answer
  | .keysMatching pfx => st.keysMatching pfx now
  | .setMembers key => (st.setMembers key now).1
  | .windowRange key => (st.windowRange key (now - env.window) now).1
  | .setLen key => (st.setLen key now).1
  | .kvGet key => (st.kvGet key now).1
  | .fieldsGet key => st.fieldsGet key now
  | .zset key => st.zset key now

/-- The emit-once keys with their expiry, and `_rare_last_eval`. -/
structure Process where
  dedup : FieldMap EmitKey ℚ
  rareLastEval : ℚ

variable (env : Env) (det : Scoring) (cfg : Config) (flowParts dnsParts : Option (List Nat))

/-- `dedup_seen(key, WINDOW)` at time `now`. -/
def emitTable (now : ℚ) : Table (FieldMap EmitKey ℚ) EmitKey where
  fresh keys k := !(keys.lookup k).any fun e => now < e
  mark keys k := keys.put (k, now + env.window)
  fresh_mark := by
    intro keys k k'
    rw [Registry.lookup_put]
    by_cases hk : k = k'
    · simp [hk, env.window_pos]
    · simp [hk, Ne.symm hk]

abbrev PassStep := Step Access Candidate

def record (q : Query) : Call := .other (.read q)

variable {now : ℚ}

/-- The calls of a pass. -/
def passCalls (v : View now) (rareSince : ℚ) : List Call :=
  (evaluate env det cfg flowParts dnsParts rareSince now).calls record v.answer

/-- The steps that a pass takes when no call raises. -/
def passSteps (v : View now) (p : Process) : List PassStep :=
  EmitOnce.steps (emitTable env now) (Candidate.emitKey env det now) p.dedup
    (passCalls env det cfg flowParts dnsParts v p.rareLastEval)

/-- `_rare_last_eval` after one step. -/
def moveCursor (rareLastEval : ℚ) : PassStep → ℚ
  | .other (.advance t) => t
  | _ => rareLastEval

/-- `_rare_last_eval` after some steps. -/
def cursorAfter (rareLastEval : ℚ) (done : List PassStep) : ℚ := done.foldl moveCursor rareLastEval

/-- What some steps of a pass leave of the process. -/
def Process.after (p : Process) (now : ℚ) (done : List PassStep) : Process where
  dedup := EmitOnce.after (emitTable env now) (Candidate.emitKey env det now) p.dedup done
  rareLastEval := cursorAfter p.rareLastEval done

/-- The steps of a pass that have taken effect when the step `x` raises. -/
def taken (done : List PassStep) (x : PassStep) (applied : Bool) : List PassStep :=
  if applied then done ++ [x] else done

/-- The claim that raised has taken a fresh key: its candidate is neither sent
    nor offered again in this window. -/
def ClaimLost (p : Process) (now : ℚ) (done : List PassStep) (x : PassStep) (applied : Bool) : Prop :=
  applied = true ∧ ∃ c, x = .claim c ∧
    (emitTable env now).fresh (p.after env det now done).dedup (c.emitKey env det now) = true

/-! ### What a failed pass may lose -/

def Scan.keys (scan : Scan) (v : View now) : List String :=
  (scopedKeys env scan.pfx scan.parts).result v.answer

def Scan.keyCalls (scan : Scan) (v : View now) (key : String) : List Call :=
  (scan.body key).calls record v.answer

/-- All sections of a pass. -/
def scans (rareSince : ℚ) : List Scan :=
  windowScans env det cfg flowParts dnsParts ++ [rareScan env flowParts rareSince]

/-- The window state of a candidate is unchanged: a key that offers it is
    still enumerated, and what its section read for the key is the same. -/
def Unchanged {now now' : ℚ} (v : View now) (v' : View now') (rareSince : ℚ) (c : Candidate) :
    Prop :=
  ∃ scan ∈ scans env det cfg flowParts dnsParts rareSince, ∃ key ∈ scan.keys env v,
    .offer c ∈ scan.keyCalls v key ∧ key ∈ scan.keys env v' ∧
      ∀ q, record q ∈ scan.keyCalls v key → v'.answer q = v.answer q

/-- The steps `taken` of a pass have taken effect when a call raises. What the
    steps `later` would have sent is sent by every later pass of the same window
    for which its window state is unchanged. -/
def NoFindingLost (v : View now) (p : Process) (taken later : List PassStep) : Prop :=
  ∀ c ∈ sends later, ∀ (now' : ℚ) (v' : View now'), now ≤ now' → bucket env now' = bucket env now →
    Unchanged env det cfg flowParts dnsParts v v' p.rareLastEval c →
    ∃ c' ∈ sends (passSteps env det cfg flowParts dnsParts v' (p.after env det now taken)),
      c'.emitKey env det now' = c.emitKey env det now

/-- The rare destinations of the state before a pass: first seen since the
    last pass, behind at least fifteen others, and not emitted in this window. -/
def RareDue (v : View now) (p : Process) (c : Candidate) : Prop :=
  (∃ key ∈ (rareScan env flowParts p.rareLastEval).keys env v, ∃ dst ∈
      InMemoryStore.sinceOf (v.zset key) p.rareLastEval,
      (InMemoryStore.rankOf (v.zset key) dst).any (15 ≤ ·) ∧
        c = rareCandidate (keyParts key).1 (keyParts key).2 dst) ∧
    (emitTable env now).fresh p.dedup (c.emitKey env det now) = true

/-- Once the cursor has moved, every rare destination that was due has been
    handed over. -/
def RareHanded (v : View now) (p : Process) (taken handed : List PassStep) : Prop :=
  .other (.advance now) ∈ taken → ∀ c, RareDue env det flowParts v p c →
    ∃ c' ∈ sends handed, c'.emitKey env det now = c.emitKey env det now

/-! ### The calls of a pass -/

variable {env det cfg flowParts dnsParts} {v : View now} {rareSince : ℚ}

/-- The calls of a section. -/
def Scan.calls (env : Env) (scan : Scan) (v : View now) : List Call :=
  (scan.run env).calls record v.answer

theorem Scan.calls_eq (scan : Scan) (v : View now) :
    scan.calls env v = (scopedKeys env scan.pfx scan.parts).calls record v.answer ++
      (scan.keys env v).flatMap (scan.keyCalls v) := by
  unfold Scan.calls Scan.run
  rw [Program.bind_eq, Program.calls_bind, Program.calls_each]
  rfl

/-- The calls before the cursor moves. -/
def windowCalls (env : Env) (det : Scoring) (cfg : Config) (flowParts dnsParts : Option (List Nat))
    (v : View now) : List Call :=
  .other .flush :: (windowScans env det cfg flowParts dnsParts).flatMap (Scan.calls env · v)

/-- The calls after it. -/
def rareCalls (env : Env) (flowParts : Option (List Nat)) (v : View now) (rareSince : ℚ) : List Call :=
  (rareScan env flowParts rareSince).calls env v ++ [.other .kvPrune]

theorem passCalls_eq (v : View now) (rareSince : ℚ) :
    passCalls env det cfg flowParts dnsParts v rareSince =
      windowCalls env det cfg flowParts dnsParts v ++
        .other (.advance now) :: rareCalls env flowParts v rareSince := by
  unfold passCalls evaluate
  simp only [Program.bind_eq, Program.calls_bind, Program.calls_each]
  rfl

/-! ### Sections only read, prune and offer -/

/-- The call does not move the cursor. -/
def KeepsCursor (call : Call) : Prop := ∀ t, call ≠ .other (.advance t)

theorem result_zsetSince (v : View now) (key : String) (minScore : ℚ) :
    (zsetSince key minScore).result v.answer =
      InMemoryStore.sinceOf (v.zset key) minScore := rfl

theorem result_zsetRank (v : View now) (key member : String) :
    (zsetRank key member).result v.answer = InMemoryStore.rankOf (v.zset key) member := rfl

theorem calls_zsetSince (v : View now) (key : String) (minScore : ℚ) :
    (zsetSince key minScore).calls record v.answer = [record (.zset key)] := rfl

theorem calls_zsetRank (v : View now) (key member : String) :
    (zsetRank key member).calls record v.answer = [record (.zset key)] := rfl

theorem makes_ask (P : Call → Prop) (q : Query) : (ask q).Makes P := Program.makes_question q

theorem makes_zsetSince (P : Call → Prop) (key : String) (minScore : ℚ) :
    (zsetSince key minScore).Makes P := (makes_ask P (.zset key)).bind fun _ => trivial

theorem makes_zsetRank (P : Call → Prop) (key member : String) : (zsetRank key member).Makes P :=
  (makes_ask P (.zset key)).bind fun _ => trivial

/-- The call drops the key from its index. -/
def prunes (key : String) : Call := .other (.setRemove ("idx:" ++ prefixOf key ++ partOf key) key)

theorem makes_pruneIndex {P : Call → Prop} {key : String} (h : P (prunes key)) :
    (pruneIndex env key).Makes P := by
  unfold pruneIndex
  split
  · exact Program.makes_call h
  · trivial

theorem makes_offer {P : Call → Prop} {c : Candidate} (h : P (.offer c)) : (offer c).Makes P :=
  Program.makes_call h

/-- Whatever the store answers, the sections before the cursor moves make no
    calls but offers of other detectors and drops of the scanned key. -/
theorem makes_windowScan {P : Call → Prop} {scan : Scan} {key : String}
    (hoffer : ∀ c : Candidate, c.detectorId ≠ "rare_destination" → P (.offer c))
    (hprune : P (prunes key)) (h : scan ∈ windowScans env det cfg flowParts dnsParts) :
    (scan.body key).Makes P := by
  simp only [windowScans, List.mem_cons, List.not_mem_nil, or_false] at h
  rcases h with rfl | rfl | rfl | rfl | rfl
  all_goals simp only [beacon, fqdnBeacon, dnsTunnel, exfil, longconnCumulative]
  all_goals repeat' first
    | exact makes_pruneIndex hprune
    | exact makes_offer (hoffer _ (by simp))
    | exact makes_ask _ _
    | exact trivial
    | refine Program.Makes.bind ?_ fun _ => ?_
    | split

/-- The last section offers rare destinations. -/
theorem makes_rareScan {P : Call → Prop} {key : String}
    (hoffer : ∀ dst, P (.offer (rareCandidate (keyParts key).1 (keyParts key).2 dst)))
    (hprune : P (prunes key)) : ((rareScan env flowParts rareSince).body key).Makes P := by
  have hdestination : ∀ dst, (rareDestination key dst).Makes P := by
    intro dst
    refine (makes_zsetRank _ key dst).bind fun rank => ?_
    split
    · exact makes_offer (hoffer dst)
    · trivial
  refine (makes_zsetSince _ key rareSince).bind fun news => ?_
  split
  · exact Program.makes_each hdestination
  · refine (makes_zsetSince _ key 0).bind fun known => ?_
    split
    · exact makes_pruneIndex hprune
    · trivial

theorem makes_scopedKeys (pfx : String) (parts : Option (List Nat)) :
    (scopedKeys env pfx parts).Makes fun _ => False := by
  have hmembers : ∀ parts, (scopedKeys.members pfx parts).Makes fun _ => False := by
    intro parts
    induction parts with
    | nil => trivial
    | cons p ps ih => exact (makes_ask _ _).bind fun out => ih.bind fun rest => trivial
  unfold scopedKeys
  split
  · exact makes_ask _ _
  · split
    · exact hmembers _
    · exact (makes_ask _ _).bind fun keys => trivial

/-- What a section does for its keys. -/
theorem Scan.mem_calls {scan : Scan} {call : Call} (h : call ∈ scan.calls env v) :
    (∃ q, call = record q) ∨ ∃ key ∈ scan.keys env v, call ∈ scan.keyCalls v key := by
  rw [Scan.calls_eq] at h
  rcases List.mem_append.mp h with h | h
  · rcases (makes_scopedKeys scan.pfx scan.parts).of_mem_calls h with hfalse | hread
    · exact hfalse.elim
    · exact Or.inl hread
  · obtain ⟨key, hkey, hcall⟩ := List.mem_flatMap.mp h
    exact Or.inr ⟨key, hkey, hcall⟩

theorem Scan.mem_calls_of_keyCalls {scan : Scan} {call : Call} {key : String}
    (hkey : key ∈ scan.keys env v) (h : call ∈ scan.keyCalls v key) : call ∈ scan.calls env v := by
  rw [Scan.calls_eq]
  exact List.mem_append_right _ (List.mem_flatMap.mpr ⟨key, hkey, h⟩)

theorem keepsCursor_calls {scan : Scan} (hbody : ∀ key, (scan.body key).Makes KeepsCursor)
    {call : Call} (h : call ∈ scan.calls env v) : KeepsCursor call := by
  rcases Scan.mem_calls h with ⟨q, rfl⟩ | ⟨key, -, hcall⟩
  · exact fun t => by simp [record]
  · rcases (hbody key).of_mem_calls hcall with hkeeps | ⟨q, rfl⟩
    · exact hkeeps
    · exact fun t => by simp [record]

theorem keepsCursor_windowCalls {call : Call}
    (h : call ∈ windowCalls env det cfg flowParts dnsParts v) : KeepsCursor call := by
  rcases List.mem_cons.mp h with rfl | h
  · exact fun t => by simp
  · obtain ⟨scan, hscan, hcall⟩ := List.mem_flatMap.mp h
    exact keepsCursor_calls (fun key => makes_windowScan (fun c _ t => by simp)
      (fun t => by simp [prunes]) hscan) hcall

theorem keepsCursor_rareCalls {call : Call} (h : call ∈ rareCalls env flowParts v rareSince) :
    KeepsCursor call := by
  rcases List.mem_append.mp h with h | h
  · exact keepsCursor_calls (fun key => makes_rareScan (fun dst t => by simp)
      (fun t => by simp [prunes])) h
  · rw [List.mem_singleton.mp h]
    exact fun t => by simp

/-! ### The candidates of a pass -/

/-- A pass offers what its sections offer for their keys. -/
theorem offer_mem_passCalls {c : Candidate} :
    .offer c ∈ passCalls env det cfg flowParts dnsParts v rareSince ↔
      ∃ scan ∈ scans env det cfg flowParts dnsParts rareSince, ∃ key ∈ scan.keys env v,
        .offer c ∈ scan.keyCalls v key := by
  have hscan : ∀ scan : Scan, .offer c ∈ scan.calls env v ↔
      ∃ key ∈ scan.keys env v, .offer c ∈ scan.keyCalls v key := by
    intro scan
    constructor
    · intro h
      rcases Scan.mem_calls h with ⟨q, hq⟩ | hkey
      · cases hq
      · exact hkey
    · rintro ⟨key, hkey, hcall⟩
      exact Scan.mem_calls_of_keyCalls hkey hcall
  rw [passCalls_eq]
  simp only [windowCalls, rareCalls, scans, List.mem_append, List.mem_cons, List.mem_flatMap,
    List.not_mem_nil, or_false, reduceCtorEq, false_or, hscan]
  constructor
  · rintro (⟨scan, hmem, hkey⟩ | hkey)
    · exact ⟨scan, Or.inl hmem, hkey⟩
    · exact ⟨_, Or.inr rfl, hkey⟩
  · rintro ⟨scan, hmem | rfl, hkey⟩
    · exact Or.inl ⟨scan, hmem, hkey⟩
    · exact Or.inr hkey

/-- The calls for one rare destination. -/
theorem calls_rareDestination (key dst : String) :
    (rareDestination key dst).calls record v.answer =
      record (.zset key) ::
        if (InMemoryStore.rankOf (v.zset key) dst).any (15 ≤ ·) then
          [.offer (rareCandidate (keyParts key).1 (keyParts key).2 dst)]
        else [] := by
  unfold rareDestination
  rcases keyParts key with ⟨ten, src⟩
  simp only [Program.bind_eq]
  rw [Program.calls_bind, calls_zsetRank, result_zsetRank]
  by_cases hrank : (InMemoryStore.rankOf (v.zset key) dst).any (15 ≤ ·) = true
  · rw [if_pos hrank, if_pos hrank]
    rfl
  · rw [if_neg hrank, if_neg hrank]
    rfl

theorem offer_mem_rareDestinations {c : Candidate} {key : String} (news : List String) :
    .offer c ∈ (Program.each news (rareDestination key)).calls record v.answer ↔
      ∃ dst ∈ news, (InMemoryStore.rankOf (v.zset key) dst).any (15 ≤ ·) ∧
        c = rareCandidate (keyParts key).1 (keyParts key).2 dst := by
  rw [Program.calls_each, List.mem_flatMap]
  simp only [calls_rareDestination, List.mem_cons, record, reduceCtorEq, false_or]
  refine exists_congr fun dst => and_congr_right fun _ => ?_
  split
  · next hrank => simp [hrank]
  · next hrank => simp [hrank]

theorem offer_notMem_pruneIndex (c : Candidate) (key : String) :
    .offer c ∉ (pruneIndex env key).calls record v.answer := by
  unfold pruneIndex
  split
  · simp [access, Program.call, Program.calls]
  · exact List.not_mem_nil

/-- The calls for one `kd:` key. -/
theorem keyCalls_rareScan (key : String) :
    (rareScan env flowParts rareSince).keyCalls v key = record (.zset key) ::
      (if !(InMemoryStore.sinceOf (v.zset key) rareSince).isEmpty then
        (Program.each (InMemoryStore.sinceOf (v.zset key) rareSince)
          (rareDestination key)).calls record v.answer
      else record (.zset key) ::
        if (InMemoryStore.sinceOf (v.zset key) 0).isEmpty then
          (pruneIndex env key).calls record v.answer
        else []) := by
  show (rareDestinations env rareSince key).calls record v.answer = _
  unfold rareDestinations
  simp only [Program.bind_eq]
  rw [Program.calls_bind, calls_zsetSince, result_zsetSince]
  by_cases hnews : (!(InMemoryStore.sinceOf (v.zset key) rareSince).isEmpty) = true
  · rw [if_pos hnews, if_pos hnews]
    rfl
  · rw [if_neg hnews, if_neg hnews, Program.calls_bind, calls_zsetSince, result_zsetSince]
    by_cases hknown : (InMemoryStore.sinceOf (v.zset key) 0).isEmpty = true
    · rw [if_pos hknown, if_pos hknown]
      rfl
    · rw [if_neg hknown, if_neg hknown]
      rfl

/-- The section of rare destinations offers those that are new and behind at
    least fifteen others. -/
theorem offer_mem_rareKeyCalls {c : Candidate} {key : String} :
    .offer c ∈ (rareScan env flowParts rareSince).keyCalls v key ↔
      ∃ dst ∈ InMemoryStore.sinceOf (v.zset key) rareSince,
        (InMemoryStore.rankOf (v.zset key) dst).any (15 ≤ ·) ∧
          c = rareCandidate (keyParts key).1 (keyParts key).2 dst := by
  rw [keyCalls_rareScan]
  simp only [List.mem_cons, record, reduceCtorEq, false_or]
  split
  · exact offer_mem_rareDestinations _
  · next hempty =>
    have hnone : InMemoryStore.sinceOf (v.zset key) rareSince = [] := by
      simpa using hempty
    rw [hnone]
    simp only [List.mem_cons, reduceCtorEq, false_or, List.not_mem_nil, false_and, exists_false,
      iff_false]
    split
    · exact offer_notMem_pruneIndex c key
    · exact List.not_mem_nil

theorem mem_sinceOf {zs : FieldMap String ℚ} {minScore : ℚ} {dst : String}
    (h : dst ∈ InMemoryStore.sinceOf zs minScore) : ∃ m ∈ zs.vals, minScore < m.2 := by
  obtain ⟨m, hm, -⟩ := List.mem_map.mp h
  rw [(List.perm_insertionSort _ _).mem_iff, List.mem_filter, decide_eq_true_iff] at hm
  exact ⟨m, hm.1, hm.2⟩

/-- Nothing is new to a pass whose cursor is at its time. -/
theorem sinceOf_now (v : View now) (key : String) : InMemoryStore.sinceOf (v.zset key) now = [] := by
  apply List.eq_nil_iff_forall_not_mem.mpr
  intro dst hdst
  obtain ⟨m, hm, hlate⟩ := mem_sinceOf hdst
  exact absurd (v.seen key m hm) (not_le.mpr hlate)

/-! ### The steps of a pass -/

variable {p : Process} {done rest : List PassStep} {x : PassStep} {c : Candidate}

/-- The steps before the cursor moves. -/
def windowSteps (env : Env) (det : Scoring) (cfg : Config) (flowParts dnsParts : Option (List Nat))
    (v : View now) (p : Process) : List PassStep :=
  EmitOnce.steps (emitTable env now) (Candidate.emitKey env det now) p.dedup
    (windowCalls env det cfg flowParts dnsParts v)

/-- The steps after it, from the keys that the first steps left. -/
def rareSteps (env : Env) (det : Scoring) (cfg : Config) (flowParts dnsParts : Option (List Nat))
    (v : View now) (p : Process) : List PassStep :=
  EmitOnce.steps (emitTable env now) (Candidate.emitKey env det now)
    (p.after env det now (windowSteps env det cfg flowParts dnsParts v p)).dedup
    (rareCalls env flowParts v p.rareLastEval)

theorem passSteps_eq (v : View now) (p : Process) :
    passSteps env det cfg flowParts dnsParts v p =
      windowSteps env det cfg flowParts dnsParts v p ++
        .other (.advance now) :: rareSteps env det cfg flowParts dnsParts v p := by
  unfold passSteps
  rw [passCalls_eq, EmitOnce.steps_append]
  rfl

theorem advance_notMem_windowSteps (t : ℚ) :
    .other (.advance t) ∉ windowSteps env det cfg flowParts dnsParts v p :=
  fun h => keepsCursor_windowCalls (EmitOnce.other_mem_steps h) t rfl

theorem advance_notMem_rareSteps (t : ℚ) :
    .other (.advance t) ∉ rareSteps env det cfg flowParts dnsParts v p :=
  fun h => keepsCursor_rareCalls (EmitOnce.other_mem_steps h) t rfl

theorem cursorAfter_of_notMem {t : ℚ} (h : ∀ t', .other (.advance t') ∉ done) :
    cursorAfter t done = t := by
  induction done with
  | nil => rfl
  | cons step done ih =>
    have hstep : moveCursor t step = t := by
      unfold moveCursor
      split
      · exact absurd List.mem_cons_self (h _)
      · rfl
    show cursorAfter (moveCursor t step) done = t
    rw [hstep]
    exact ih fun t' ht' => h t' (List.mem_cons_of_mem _ ht')

/-- A pass fails before the cursor has moved, or after it. -/
theorem failed_cases (h : passSteps env det cfg flowParts dnsParts v p = done ++ rest) :
    (∀ t, .other (.advance t) ∉ done) ∨
      ∃ later, done = windowSteps env det cfg flowParts dnsParts v p ++
          .other (.advance now) :: later ∧
        rareSteps env det cfg flowParts dnsParts v p = later ++ rest := by
  rw [passSteps_eq] at h
  by_cases hmoved : .other (.advance now) ∈ done
  · right
    obtain ⟨first, later, rfl, -⟩ := List.eq_append_cons_of_mem hmoved
    rw [List.append_assoc, List.cons_append] at h
    obtain ⟨rfl, -, hlater⟩ := (List.append_cons_inj_of_notMem (advance_notMem_windowSteps now)
      (advance_notMem_rareSteps now)).mp h
    exact ⟨later, rfl, hlater⟩
  · left
    intro t ht
    have hmem : .other (.advance t) ∈ done ++ rest := List.mem_append_left _ ht
    rw [← h] at hmem
    rcases List.mem_append.mp hmem with hmem | hmem
    · exact advance_notMem_windowSteps t hmem
    · rcases List.mem_cons.mp hmem with heq | hmem
      · cases heq
        exact hmoved ht
      · exact advance_notMem_rareSteps t hmem

/-- The cursor after a pass that failed late is at the time of that pass. -/
theorem cursorAfter_of_moved {t : ℚ} {first later : List PassStep}
    (h : ∀ t', .other (.advance t') ∉ later) :
    cursorAfter t (first ++ .other (.advance now) :: later) = now := by
  unfold cursorAfter
  rw [List.foldl_append, List.foldl_cons]
  exact cursorAfter_of_notMem h

/-! ### When nothing is lost -/

/-- A key that is fresh stays so until it is claimed. -/
theorem fresh_later {now' : ℚ} (hle : now ≤ now') {keys : FieldMap EmitKey ℚ} {k : EmitKey}
    (h : (emitTable env now).fresh keys k = true) : (emitTable env now').fresh keys k = true := by
  simp only [emitTable] at h ⊢
  cases he : keys.lookup k with
  | none => rfl
  | some e =>
    rw [he] at h
    simp only [Option.any_some, Bool.not_eq_true', decide_eq_false_iff_not, not_lt] at h ⊢
    exact h.trans hle

/-- A candidate whose window state is unchanged is offered again while the
    cursor has not moved. -/
theorem offer_of_unchanged {now' : ℚ} {v' : View now'}
    (h : Unchanged env det cfg flowParts dnsParts v v' rareSince c) :
    .offer c ∈ passCalls env det cfg flowParts dnsParts v' rareSince := by
  obtain ⟨scan, hscan, key, -, hoffer, hkey, hsame⟩ := h
  have hcalls : scan.keyCalls v' key = scan.keyCalls v key := Program.calls_congr hsame
  rw [offer_mem_passCalls]
  exact ⟨scan, hscan, key, hkey, by rw [hcalls]; exact hoffer⟩

/-- What is sent after the cursor has moved is a rare destination that was
    due. -/
theorem rareDue_of_mem_sends (h : c ∈ sends (rareSteps env det cfg flowParts dnsParts v p)) :
    RareDue env det flowParts v p c := by
  obtain ⟨hoffer, hfresh⟩ := EmitOnce.offer_of_mem_sends h
  refine ⟨?_, EmitOnce.fresh_of_fresh_after hfresh⟩
  rcases List.mem_append.mp hoffer with hoffer | hoffer
  · rcases Scan.mem_calls hoffer with ⟨q, hq⟩ | ⟨key, hkey, hcall⟩
    · cases hq
    · exact ⟨key, hkey, offer_mem_rareKeyCalls.mp hcall⟩
  · cases List.mem_singleton.mp hoffer

/-- What has a fresh key is sent by a later pass, when the cursor has not
    moved or no rare destination is left. -/
theorem noFindingLost_of_handed {handed later : List PassStep}
    (h : passSteps env det cfg flowParts dnsParts v p = done ++ rest)
    (hsplit : passSteps env det cfg flowParts dnsParts v p = handed ++ later)
    (hlater : ∀ c ∈ sends later, c ∈ sends rest)
    (hfresh : ∀ c ∈ sends later,
      (emitTable env now).fresh (p.after env det now done).dedup (c.emitKey env det now) = true)
    (hhanded : RareHanded env det flowParts v p done handed) :
    NoFindingLost env det cfg flowParts dnsParts v p done later := by
  intro c hc now' v' hle hbucket hunchanged
  rcases failed_cases h with hbefore | ⟨first, rfl, hfirst⟩
  · have hoffer := offer_of_unchanged hunchanged
    have hkey : ∀ c : Candidate, c.emitKey env det now' = c.emitKey env det now := by
      intro c
      simp only [Candidate.emitKey, hbucket]
    have hfresh' := fresh_later hle (hfresh c hc)
    rw [← hkey c] at hfresh' ⊢
    have hcursor : (p.after env det now done).rareLastEval = p.rareLastEval :=
      cursorAfter_of_notMem hbefore
    rw [← hcursor] at hoffer
    exact EmitOnce.exists_send hoffer hfresh'
  · -- every rare destination that was due has been handed over
    exfalso
    have hdue : RareDue env det flowParts v p c := by
      apply rareDue_of_mem_sends
      rw [hfirst, EmitOnce.sends_append]
      exact List.mem_append_right _ (hlater c hc)
    obtain ⟨c', hc', hkey⟩ := hhanded (List.mem_append_right _ List.mem_cons_self) c hdue
    exact EmitOnce.key_ne_of_sends hsplit hc' hc hkey

/-! ### When something is lost -/

theorem unchanged_refl (h : .offer c ∈ passCalls env det cfg flowParts dnsParts v rareSince) :
    Unchanged env det cfg flowParts dnsParts v v rareSince c := by
  obtain ⟨scan, hscan, key, hkey, hoffer⟩ := offer_mem_passCalls.mp h
  exact ⟨scan, hscan, key, hkey, hoffer, hkey, fun q _ => rfl⟩

/-- What a pass on the same store sends, when nothing is lost. -/
theorem exists_resent {handed later : List PassStep}
    (hlost : NoFindingLost env det cfg flowParts dnsParts v p done later)
    (hsplit : passSteps env det cfg flowParts dnsParts v p = handed ++ later)
    (hc : c ∈ sends later) :
    ∃ c', .offer c' ∈ passCalls env det cfg flowParts dnsParts v (cursorAfter p.rareLastEval done) ∧
      c'.emitKey env det now = c.emitKey env det now ∧
      (emitTable env now).fresh (p.after env det now done).dedup (c.emitKey env det now) = true := by
  have hwhole : c ∈ sends (passSteps env det cfg flowParts dnsParts v p) := by
    rw [hsplit, EmitOnce.sends_append]
    exact List.mem_append_right _ hc
  have hoffer := (EmitOnce.offer_of_mem_sends hwhole).1
  obtain ⟨c', hc', hkey⟩ := hlost c hc now v le_rfl rfl (unchanged_refl hoffer)
  obtain ⟨hoffer', hfresh⟩ := EmitOnce.offer_of_mem_sends hc'
  exact ⟨c', hoffer', hkey, hkey ▸ hfresh⟩

/-- A pass that fails after the cursor has moved: what it offered before is
    claimed, and a next pass on the same store finds no destination new. -/
theorem not_fresh_of_moved {later : List PassStep}
    (hlater : ∀ t, .other (.advance t) ∉ later)
    (hdone : done = windowSteps env det cfg flowParts dnsParts v p ++ .other (.advance now) :: later)
    (hoffer : .offer c ∈
      passCalls env det cfg flowParts dnsParts v (cursorAfter p.rareLastEval done)) :
    (emitTable env now).fresh (p.after env det now done).dedup (c.emitKey env det now) = false := by
  rw [hdone, cursorAfter_of_moved hlater] at hoffer
  rw [hdone]
  obtain ⟨scan, hscan, key, hkey, hcall⟩ := offer_mem_passCalls.mp hoffer
  rcases List.mem_append.mp hscan with hscan | hscan
  · have hwindow : .offer c ∈ windowCalls env det cfg flowParts dnsParts v :=
      List.mem_cons_of_mem _ (List.mem_flatMap.mpr
        ⟨scan, hscan, Scan.mem_calls_of_keyCalls hkey hcall⟩)
    exact EmitOnce.not_fresh_of_claim (List.mem_append_left _ (EmitOnce.claim_of_offer hwindow))
  · rw [List.mem_singleton.mp hscan] at hcall
    obtain ⟨dst, hdst, -⟩ := offer_mem_rareKeyCalls.mp hcall
    rw [sinceOf_now] at hdst
    cases hdst

/-- When nothing is lost, no rare destination was left after the cursor had
    moved. -/
theorem rareHanded_of_noFindingLost {handed later : List PassStep}
    (h : passSteps env det cfg flowParts dnsParts v p = done ++ rest)
    (hsplit : passSteps env det cfg flowParts dnsParts v p = handed ++ later)
    (hlost : NoFindingLost env det cfg flowParts dnsParts v p done later) :
    RareHanded env det flowParts v p done handed := by
  intro hmoved c hdue
  obtain ⟨⟨key, hkey, hdst⟩, hfresh⟩ := hdue
  have hoffer : .offer c ∈ passCalls env det cfg flowParts dnsParts v p.rareLastEval :=
    offer_mem_passCalls.mpr ⟨_, List.mem_append_right _ List.mem_cons_self, key, hkey,
      offer_mem_rareKeyCalls.mpr hdst⟩
  obtain ⟨c', hc', hsame⟩ := EmitOnce.exists_send hoffer hfresh
  have hsent : c' ∈ sends handed ∨ c' ∈ sends later := by
    rw [← List.mem_append, ← EmitOnce.sends_append, ← hsplit]
    exact hc'
  rcases hsent with hsent | hleft
  · exact ⟨c', hsent, hsame⟩
  · exfalso
    obtain ⟨c'', hoffer'', hsame'', hfresh''⟩ := exists_resent hlost hsplit hleft
    rcases failed_cases h with hbefore | ⟨first, hdone, hfirst⟩
    · exact hbefore now hmoved
    · have hkeeps : ∀ t, .other (.advance t) ∉ first := by
        intro t ht
        have hmem : .other (.advance t) ∈ first ++ rest := List.mem_append_left _ ht
        rw [← hfirst] at hmem
        exact advance_notMem_rareSteps t hmem
      have hclaimed := not_fresh_of_moved hkeeps hdone hoffer''
      rw [hsame'', hfresh''] at hclaimed
      cases hclaimed

/-- The steps that took effect are the first ones of the pass. -/
theorem taken_append (h : passSteps env det cfg flowParts dnsParts v p = done ++ x :: rest)
    (applied : Bool) : passSteps env det cfg flowParts dnsParts v p =
      taken done x applied ++ if applied then rest else x :: rest := by
  cases applied with
  | true => rw [h]; exact List.append_cons done x rest
  | false => exact h

theorem done_subset_taken (applied : Bool) : ∃ later, taken done x applied = done ++ later := by
  cases applied with
  | true => exact ⟨[x], rfl⟩
  | false => exact ⟨[], (List.append_nil done).symm⟩

/-- What was to be sent after the step that raised still has a fresh key. -/
theorem fresh_taken (h : passSteps env det cfg flowParts dnsParts v p = done ++ x :: rest)
    {applied : Bool} (hclaim : ¬ ClaimLost env det p now done x applied) (hc : c ∈ sends rest) :
    (emitTable env now).fresh (p.after env det now (taken done x applied)).dedup
      (c.emitKey env det now) = true := by
  cases applied with
  | false => exact EmitOnce.fresh_of_rest h hc
  | true =>
    exact EmitOnce.fresh_of_rest_applied h
      (fun c' hx hfresh => hclaim ⟨rfl, c', hx, hfresh⟩) hc

/-- A claim that took a fresh key and raised loses its candidate. -/
theorem not_claimLost {handed later : List PassStep} {applied : Bool}
    (h : passSteps env det cfg flowParts dnsParts v p = done ++ x :: rest)
    (hsplit : passSteps env det cfg flowParts dnsParts v p = handed ++ later)
    (hlater : ∀ c ∈ sends rest, c ∈ sends later)
    (hlost : NoFindingLost env det cfg flowParts dnsParts v p (taken done x applied) later) :
    ¬ ClaimLost env det p now done x applied := by
  rintro ⟨rfl, c, rfl, hfresh⟩
  have hc : c ∈ sends rest := EmitOnce.send_of_claim h hfresh
  obtain ⟨c', -, -, hleft⟩ := exists_resent hlost hsplit (hlater c hc)
  have hclaimed : (emitTable env now).fresh
      (p.after env det now (taken done (.claim c) true)).dedup (c.emitKey env det now) = false :=
    EmitOnce.not_fresh_of_claim (List.mem_append_right done List.mem_cons_self)
  rw [hclaimed] at hleft
  cases hleft

/-- **A failed pass loses no finding** exactly when the call that raised is
    no send and no claim that took a fresh key and, once the cursor has moved,
    every rare destination that was due has been sent. Among the candidates
    whose send was not reached, none is lost exactly when the last two hold.
    The call that raised may have taken effect or not. -/
theorem no_finding_lost_iff (v : View now) (p : Process) (done rest : List PassStep) (x : PassStep)
    (applied : Bool) (h : passSteps env det cfg flowParts dnsParts v p = done ++ x :: rest) :
    (NoFindingLost env det cfg flowParts dnsParts v p (taken done x applied) (x :: rest) ↔
      (∀ c, x ≠ .send c) ∧ ¬ ClaimLost env det p now done x applied ∧
        RareHanded env det flowParts v p (taken done x applied) done) ∧
    (NoFindingLost env det cfg flowParts dnsParts v p (taken done x applied) rest ↔
      ¬ ClaimLost env det p now done x applied ∧
        RareHanded env det flowParts v p (taken done x applied) (done ++ [x])) := by
  have hsplit : passSteps env det cfg flowParts dnsParts v p = (done ++ [x]) ++ rest := by
    rw [h, List.append_assoc, List.singleton_append]
  have htaken := taken_append h applied
  have hrest : ∀ c ∈ sends rest, c ∈ sends (x :: rest) := fun c hc =>
    EmitOnce.mem_sends.mpr (List.mem_cons_of_mem x (EmitOnce.mem_sends.mp hc))
  have hleft : ∀ c ∈ sends rest, c ∈ sends (if applied then rest else x :: rest) := by
    intro c hc
    split
    · exact hc
    · exact hrest c hc
  constructor
  · constructor
    · intro hlost
      refine ⟨?_, not_claimLost h h hrest hlost, rareHanded_of_noFindingLost htaken h hlost⟩
      rintro c rfl
      -- the key is claimed, the candidate is not sent again
      have hc : c ∈ sends (.send c :: rest) := EmitOnce.mem_sends.mpr List.mem_cons_self
      obtain ⟨c', -, -, hfresh⟩ := exists_resent hlost h hc
      obtain ⟨later, hlater⟩ : ∃ later, taken done (.send c) applied = done ++ later :=
        done_subset_taken applied
      rw [hlater] at hfresh
      simp only [Process.after, EmitOnce.after_append] at hfresh
      exact Bool.noConfusion
        ((EmitOnce.fresh_of_fresh_after hfresh).symm.trans (EmitOnce.not_fresh_of_send h))
    · rintro ⟨hx, hclaim, hhanded⟩
      have hlater : ∀ c ∈ sends (x :: rest), c ∈ sends rest := by
        intro c hc
        rw [EmitOnce.mem_sends] at hc ⊢
        rcases List.mem_cons.mp hc with hc | hc
        · exact absurd hc.symm (hx c)
        · exact hc
      exact noFindingLost_of_handed htaken h (fun c hc => hleft c (hlater c hc))
        (fun c hc => fresh_taken h hclaim (hlater c hc)) hhanded
  · constructor
    · intro hlost
      exact ⟨not_claimLost h hsplit (fun c hc => hc) hlost,
        rareHanded_of_noFindingLost htaken hsplit hlost⟩
    · rintro ⟨hclaim, hhanded⟩
      exact noFindingLost_of_handed htaken hsplit hleft (fun c hc => fresh_taken h hclaim hc) hhanded

/-! ### A source with sixteen destinations -/

def labConfig : Config :=
  ⟨4 / 5, 12, 90, 50000000, 50, 40, 7 / 2, 30, none, 4, []⟩

def labScoring : Scoring where
  beaconScore := fun _ _ _ => (false, 0)
  beaconAutocorr := fun _ _ => (false, 0, 0)
  strobeCheck := fun _ _ _ _ => (false, 0)
  fqdnBeacon := fun _ _ _ _ => (false, 0)
  dnsTunnelScore := fun _ _ => (false, 0)
  dnsExplodedScore := fun _ _ => (false, 0, "")
  gatedSeverity := fun base _ _ _ => base
  timingEvidence := fun _ => []
  methodEvidence := fun _ _ _ => []
  stable := String.length
  autocorr := true
  fqdnBeaconMinIps := 2
  cumLongconnSecs := 300

/-- The destinations of one source in the order in which they were seen. -/
def labSeen : FieldMap String ℚ where
  vals := [("203.0.113.1", 1), ("203.0.113.2", 2), ("203.0.113.3", 3), ("203.0.113.4", 4),
    ("203.0.113.5", 5), ("203.0.113.6", 6), ("203.0.113.7", 7), ("203.0.113.8", 8),
    ("203.0.113.9", 9), ("203.0.113.10", 10), ("203.0.113.11", 11), ("203.0.113.12", 12),
    ("203.0.113.13", 13), ("203.0.113.14", 14), ("203.0.113.15", 15), ("203.0.113.16", 16)]
  nodup := by decide

def labStore : InMemoryStore :=
  { InMemoryStore.empty with
    zs := ⟨[("kd:0:lab:10.0.0.11", labSeen)], by decide⟩
    s := ⟨[("idx:kd:0", ⟨[("kd:0:lab:10.0.0.11", 616)], by decide⟩)], by decide⟩
    exp := ⟨[("kd:0:lab:10.0.0.11", 616), ("idx:kd:0", 616)], by decide⟩ }

theorem labStore_seen (key : String) : ∀ m ∈ (labStore.zset key 100).vals, m.2 ≤ 100 := by
  have hseen : ∀ m ∈ labSeen.vals, m.2 ≤ 100 := by decide
  unfold InMemoryStore.zset
  split
  · by_cases hkey : "kd:0:lab:10.0.0.11" = key
    · subst hkey
      exact hseen
    · have hnone : labStore.zs.lookup key = none := by
        simp [labStore, Registry.lookup, Registry.get?, hkey]
      rw [hnone]
      intro m hm
      cases hm
  · intro m hm
    cases hm

def labView : View 100 := ⟨storeAnswer labEnv labStore 100, labStore_seen⟩

/-- A first pass of a process: the emit-once keys are empty. -/
def labProcess : Process := ⟨.empty, 0⟩

/-- The flush of the window writes raises after it has written: nothing has
    been offered, and the next pass sends the sixteenth destination. -/
theorem nothing_lost_at_flush :
    NoFindingLost labEnv labScoring labConfig (some [0]) (some [0]) labView labProcess
      (taken [] (.other .flush) true)
      (passSteps labEnv labScoring labConfig (some [0]) (some [0]) labView labProcess) := by
  have hpass : passSteps labEnv labScoring labConfig (some [0]) (some [0]) labView labProcess =
      [] ++ .other .flush ::
        (passSteps labEnv labScoring labConfig (some [0]) (some [0]) labView labProcess).tail := rfl
  rw [hpass]
  apply (no_finding_lost_iff labView labProcess [] _ _ true hpass).1.mpr
  refine ⟨?_, ?_, ?_⟩
  · intro c hc
    cases hc
  · rintro ⟨-, c, hc, -⟩
    cases hc
  · intro hmoved
    cases List.mem_singleton.mp hmoved

/-- The store raises at the first read after the cursor has moved: the
    sixteenth destination was due, and no later pass sends it. -/
theorem rare_destination_lost :
    let done := windowSteps labEnv labScoring labConfig (some [0]) (some [0]) labView labProcess ++
      [.other (.advance 100)]
    let rest := (rareSteps labEnv labScoring labConfig (some [0]) (some [0]) labView
      labProcess).tail
    passSteps labEnv labScoring labConfig (some [0]) (some [0]) labView labProcess =
        done ++ .other (.read (.setMembers "idx:kd:0")) :: rest ∧
      ¬ NoFindingLost labEnv labScoring labConfig (some [0]) (some [0]) labView labProcess
        (taken done (.other (.read (.setMembers "idx:kd:0"))) false) rest := by
  intro done rest
  have hrare : rareSteps labEnv labScoring labConfig (some [0]) (some [0]) labView labProcess =
      .other (.read (.setMembers "idx:kd:0")) :: rest := rfl
  have hpass : passSteps labEnv labScoring labConfig (some [0]) (some [0]) labView labProcess =
      done ++ .other (.read (.setMembers "idx:kd:0")) :: rest := by
    rw [passSteps_eq, hrare, List.append_assoc, List.singleton_append]
  refine ⟨hpass, ?_⟩
  intro hlost
  have hsplit : passSteps labEnv labScoring labConfig (some [0]) (some [0]) labView labProcess =
      (done ++ [.other (.read (.setMembers "idx:kd:0"))]) ++ rest := by
    rw [hpass]
    exact List.append_cons done _ rest
  have hmoved : .other (.advance 100) ∈ done := List.mem_append_right _ List.mem_cons_self
  have hdue : RareDue labEnv labScoring (some [0]) labView labProcess
      (rareCandidate "lab" "10.0.0.11" "203.0.113.16") := by
    refine ⟨⟨"kd:0:lab:10.0.0.11", ?_, "203.0.113.16", ?_, ?_, rfl⟩, rfl⟩
    · decide
    · decide
    · decide
  obtain ⟨c, hc, -⟩ := rareHanded_of_noFindingLost hpass hsplit hlost hmoved _ hdue
  have hnone : sends (done ++ [.other (.read (.setMembers "idx:kd:0"))]) = [] := rfl
  rw [hnone] at hc
  cases hc

end Behavioral
