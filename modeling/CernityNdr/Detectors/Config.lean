import CernityNdr.Framework.Overlay
import CernityNdr.Framework.Run

/-! # The Managed Configuration

    The model of `services/behavioral-detectors/config_source.py`: thresholds
    and allowlists that arrive on a compacted topic. Only the decoding of a
    message is guarded; what `_validate_and_merge` raises ends the thread.

    * `validateAndMerge_eq`: the merged document.
    * `managed_iff`: the messages that the loop deals with as it should. -/

namespace ManagedConfig

open Json (Dict)

/-! ### Merging -/

/-- The defaults of the detectors. -/
def DEFAULTS : Dict :=
  [("beacon_threshold", .float ⟨"0.8".toList, by decide⟩),
   ("beacon_count_target", .int 12),
   ("strobe_min_conns", .int 90),
   ("exfil_bytes", .int 50000000),
   ("dns_min_queries", .int 50),
   ("dns_len_threshold", .float ⟨"40.0".toList, by decide⟩),
   ("dns_entropy_threshold", .float ⟨"3.5".toList, by decide⟩),
   ("exploded_min_subdomains", .int 30),
   ("longconn_cum_secs", .null),
   ("longconn_cum_min_conns", .int 4),
   ("beacon_allowlist", .arr []),
   ("exfil_allowlist", .arr [])]

/-- The conversions: what `Interpreter` has, and `float(n)` of an integer. -/
structure Conversions where
  py : Interpreter
  toFloat : Int → FloatText

/-- `float(n)` raises from here on: halfway to the power of two above the
    largest float. -/
def FLOAT_LIMIT : Nat := 2 ^ 1024 - 2 ^ 970

/-- `isinstance(v, (int, float))`: a `bool` is an `int`. -/
def isNumber : Json → Bool
  | .bool _ | .int _ | .float _ | .nan | .infinity _ => true
  | _ => false

def isBool : Json → Bool
  | .bool _ => true
  | _ => false

abbrev Failure := Raised Empty

variable (conv : Conversions)

/-- `float(v)` of a number. -/
def Conversions.float (v : Json) : Except Failure Json :=
  match v with
  | .int n => if n.natAbs < FLOAT_LIMIT then .ok (.float (conv.toFloat n)) else .error .overflow
  | .float _ | .nan | .infinity _ => .ok v
  | _ => .error .type

/-- `type(default)(v)` of a number. -/
def Conversions.convert (default v : Json) : Except Failure Json :=
  match default with
  | .int _ => return .int (← conv.py.int v)
  | _ => conv.float v

/-- The value of a known key that is stored, unless it is dropped. -/
def typed (default v : Json) : Except Failure (Option Json) :=
  match default with
  | .arr _ =>
    match v with
    | .arr xs => return some (.arr ((← xs.mapM conv.py.str).map .str))
    | _ => return none
  | .null => return if v.beq .null || isNumber v then some v else none
  | default => if isNumber v && !isBool v then return some (← conv.convert default v) else return none

/-- One member of the document. -/
def mergeMember (merged : Dict) (m : String × Json) : Except Failure Dict :=
  match DEFAULTS.get? m.1 with
  | none => return merged
  | some default => do
    match ← typed conv default m.2 with
    | some w => return merged.set m.1 w
    | none => return merged

/-- `_validate_and_merge`. A document that is false is `{}`. -/
def validateAndMerge (doc : Json) : Except Failure Dict := do
  let members ← Interpreter.members (doc.or (.obj []))
  (Dict.filled members).foldlM (mergeMember conv) DEFAULTS

/-! ### The loop -/

/-- The allowlists of the detectors: exact addresses, and prefixes. -/
structure Detectors where
  beaconAllow : Finset String
  exfilAllow : List String
deriving DecidableEq

/-- The texts of a list of the snapshot. -/
def entries (snap : Dict) (key : String) : List String :=
  match snap.get key with
  | .arr xs => xs.filterMap Json.str?
  | _ => []

/-- The state of the process that the loop changes. -/
structure Loop where
  /-- no exception has ended the thread -/
  alive : Bool
  snapshot : Dict
  /-- `_base_allow` -/
  baseAllow : Option Detectors
  det : Detectors

/-- `apply_allowlists`. -/
def Loop.applyAllowlists (s : Loop) (snap : Dict) : Loop :=
  let base := s.baseAllow.getD s.det
  { s with
    baseAllow := some base
    det :=
      ⟨base.beaconAllow ∪ (entries snap "beacon_allowlist").toFinset,
        sortedTexts (base.exfilAllow.toFinset ∪ (entries snap "exfil_allowlist").toFinset)⟩ }

/-- The bytes of a message, or no value. -/
abbrev Message := Option (List UInt8)

variable (loads : List UInt8 → Option Json)

/-- The document of a message, unless it is bad. `loads` is
    `json.loads(value.decode())`. -/
def decoded : Message → Option Json
  | none | some [] => some (.obj [])
  | some (b :: bs) => loads (b :: bs)

/-- The loop of `start` for one record. -/
def reload (s : Loop) (msg : Message) : Loop :=
  if s.alive then
    match decoded loads msg with
    | none => s
    | some doc =>
      match validateAndMerge conv doc with
      | .ok merged => { s with snapshot := merged }.applyAllowlists merged
      | .error _ => { s with alive := false }
  else s

/-- A process in which no message has arrived. -/
def Loop.init (det : Detectors) : Loop := ⟨true, DEFAULTS, none, det⟩

def run (det : Detectors) (msgs : List Message) : Loop :=
  Machine.run (reload conv loads) (.init det) msgs

/-! ### What a document says -/

/-- The members of a document that is one: an object, or one that is false. -/
def members? (doc : Json) : Option Dict := if doc.truthy then doc.obj? else some []

/-- The document of a message that is accepted. -/
def accepted (msg : Message) : Option Dict := (decoded loads msg).bind members?

/-- The latest accepted document; before the first one nothing is set. -/
def latest (msgs : List Message) : Dict := ((msgs.filterMap (accepted loads)).getLast?).getD []

/-- What `v` sets a key to: a value that fits the default, and is finite. -/
def compatible (default v : Json) : Option Json :=
  match default, v with
  | .arr _, .arr xs => some (.arr (xs.map fun x => .str (conv.py.shown x)))
  | .null, .null => some .null
  | .null, .bool b => some (.bool b)
  | .null, .int n => some (.int n)
  | .null, .float x => some (.float x)
  | .int _, .int n => some (.int n)
  | .int _, .float x => some (.int (conv.py.truncate x))
  | .float _, .int n => if n.natAbs < FLOAT_LIMIT then some (.float (conv.toFloat n)) else none
  | .float _, .float x => some (.float x)
  | _, _ => none

/-- The defaults, overlaid with the document. -/
def overlaid (doc : Dict) : Dict :=
  DEFAULTS.map fun m => (m.1, ((doc.get? m.1).bind (compatible conv m.2)).getD m.2)

/-- A value of the default's type, and finite. -/
def OfType (default v : Json) : Prop :=
  match default with
  | .arr _ => ∃ texts : List String, v = .arr (texts.map .str)
  | .null => v = .null ∨ isNumber v = true ∧ v.finite = true
  | .int _ => ∃ n, v = .int n
  | .float _ => ∃ x, v = .float x
  | _ => False

/-- **The configuration** is managed through the messages. -/
structure Managed (det : Detectors) (msgs : List Message) : Prop where
  /-- The loop goes on. -/
  alive : ∀ pre, pre <+: msgs → (run conv loads det pre).alive = true
  /-- The snapshot is what the latest accepted document says. -/
  snapshot : ∀ pre, pre <+: msgs →
    (run conv loads det pre).snapshot = overlaid conv (latest loads pre)
  types : ∀ pre, pre <+: msgs → ∀ m ∈ DEFAULTS,
    ∃ v, (run conv loads det pre).snapshot.get? m.1 = some v ∧ OfType m.2 v
  /-- The allowlists have the entries of the snapshot and the built-in ones. -/
  beacon : ∀ pre, pre <+: msgs → ∀ x, x ∈ (run conv loads det pre).det.beaconAllow ↔
    x ∈ det.beaconAllow ∨ x ∈ entries (run conv loads det pre).snapshot "beacon_allowlist"
  exfil : ∀ pre, pre <+: msgs → ∀ x, x ∈ (run conv loads det pre).det.exfilAllow ↔
    x ∈ det.exfilAllow ∨ x ∈ entries (run conv loads det pre).snapshot "exfil_allowlist"
  /-- A message that is not accepted changes nothing. -/
  refused : ∀ pre msg, pre ++ [msg] <+: msgs → accepted loads msg = none →
    (run conv loads det (pre ++ [msg])).snapshot = (run conv loads det pre).snapshot ∧
      (run conv loads det (pre ++ [msg])).det = (run conv loads det pre).det

/-! ### The messages that do no harm -/

/-- The value of a known key with this default is converted without an
    error, and what is stored is finite. -/
def Smooth (default v : Json) : Prop :=
  match default with
  | .arr _ => ∀ xs, v = .arr xs → ∀ x ∈ xs, x.depth ≤ conv.py.reprRoom
  | .float _ => v ≠ .nan ∧ (∀ negative, v ≠ .infinity negative) ∧
      ∀ n, v = .int n → n.natAbs < FLOAT_LIMIT
  | _ => v ≠ .nan ∧ ∀ negative, v ≠ .infinity negative

/-- A document that the loop deals with: a false one, or an object. -/
def FineDocument (doc : Json) : Prop :=
  ∃ ms, members? doc = some ms ∧
    ∀ m ∈ DEFAULTS, ∀ v, ms.get? m.1 = some v → Smooth conv m.2 v

def Fine (msg : Message) : Prop := ∀ doc, decoded loads msg = some doc → FineDocument conv doc

/-! ### One value -/

variable {conv : Conversions} {loads : List UInt8 → Option Json}

theorem names_nodup : (DEFAULTS.map Prod.fst).Nodup := by decide

/-- The kinds of the defaults. -/
theorem kind_cases {m : String × Json} (h : m ∈ DEFAULTS) :
    (∃ x, m.2 = .float x) ∨ (∃ n, m.2 = .int n) ∨ m.2 = .null ∨ m.2 = .arr [] := by
  simp only [DEFAULTS, List.mem_cons, List.not_mem_nil, or_false] at h
  rcases h with rfl | rfl | rfl | rfl | rfl | rfl | rfl | rfl | rfl | rfl | rfl | rfl <;> simp

theorem mapM_str_eq_ok {xs : List Json} {texts : List String} :
    xs.mapM (conv.py.str (ε := Empty)) = .ok texts ↔
      (∀ x ∈ xs, x.depth ≤ conv.py.reprRoom) ∧ texts = xs.map conv.py.shown := by
  induction xs generalizing texts with
  | nil => simp [pure, Except.pure, eq_comm]
  | cons x xs ih =>
    rw [List.mapM_cons, Except.bind_eq_ok]
    simp only [Except.bind_eq_ok, ih, Interpreter.str_eq_ok]
    constructor
    · rintro ⟨_, ⟨hx, rfl⟩, _, ⟨hxs, rfl⟩, h⟩
      cases h
      exact ⟨List.forall_mem_cons.mpr ⟨hx, hxs⟩, rfl⟩
    · rintro ⟨h, rfl⟩
      obtain ⟨hx, hxs⟩ := List.forall_mem_cons.mp h
      exact ⟨_, ⟨hx, rfl⟩, _, ⟨hxs, rfl⟩, rfl⟩

/-- A smooth value is stored as the document says, or dropped. -/
theorem typed_eq {m : String × Json} (hm : m ∈ DEFAULTS) {v : Json} (h : Smooth conv m.2 v) :
    typed conv m.2 v = .ok (compatible conv m.2 v) := by
  obtain ⟨key, default⟩ := m
  obtain ⟨x, rfl⟩ | ⟨n, rfl⟩ | rfl | rfl := kind_cases hm
  · obtain ⟨hnan, hinf, hlimit⟩ := h
    cases v with
    | nan => exact absurd rfl hnan
    | infinity negative => exact absurd rfl (hinf negative)
    | int n =>
      simp [typed, isNumber, isBool, Conversions.convert, Conversions.float, compatible,
        hlimit n rfl, pure, Except.pure, bind, Except.bind]
    | _ => rfl
  · obtain ⟨hnan, hinf⟩ := h
    cases v with
    | nan => exact absurd rfl hnan
    | infinity negative => exact absurd rfl (hinf negative)
    | _ => rfl
  · obtain ⟨hnan, hinf⟩ := h
    cases v with
    | nan => exact absurd rfl hnan
    | infinity negative => exact absurd rfl (hinf negative)
    | _ => rfl
  · cases v with
    | arr xs =>
      have htexts := mapM_str_eq_ok.mpr ⟨h xs rfl, rfl⟩
      simp only [typed, htexts, compatible]
      simp [bind, Except.bind, pure, Except.pure]
    | _ => rfl

/-- A value that is stored as the document says, or dropped, is smooth. -/
theorem smooth_of_typed {m : String × Json} (hm : m ∈ DEFAULTS) {v : Json} {o : Option Json}
    (h : typed conv m.2 v = .ok o) (heq : o.getD m.2 = (compatible conv m.2 v).getD m.2) :
    Smooth conv m.2 v := by
  obtain ⟨key, default⟩ := m
  obtain ⟨x, rfl⟩ | ⟨n, rfl⟩ | rfl | rfl := kind_cases hm
  · refine ⟨?_, ?_, ?_⟩
    · rintro rfl
      cases h
      cases heq
    · rintro negative rfl
      cases h
      cases heq
    · rintro n rfl
      by_contra hlimit
      simp [typed, isNumber, isBool, Conversions.convert, Conversions.float, hlimit, bind,
        Except.bind] at h
  · refine ⟨?_, ?_⟩
    · rintro rfl
      cases h
    · rintro negative rfl
      cases h
  · refine ⟨?_, ?_⟩
    · rintro rfl
      cases h
      cases heq
    · rintro negative rfl
      cases h
      cases heq
  · rintro xs rfl
    obtain ⟨texts, htexts, -⟩ := Except.bind_eq_ok.mp h
    exact (mapM_str_eq_ok.mp htexts).1

theorem ofType_compatible {m : String × Json} (hm : m ∈ DEFAULTS) {v w : Json}
    (h : compatible conv m.2 v = some w) : OfType m.2 w := by
  obtain ⟨key, default⟩ := m
  obtain ⟨x, rfl⟩ | ⟨n, rfl⟩ | rfl | rfl := kind_cases hm
  · cases v with
    | int n =>
      simp only [compatible, Option.ite_none_right_eq_some] at h
      obtain ⟨-, h⟩ := h
      cases h
      exact ⟨_, rfl⟩
    | float y =>
      cases h
      exact ⟨y, rfl⟩
    | _ => cases h
  · cases v with
    | int n =>
      cases h
      exact ⟨n, rfl⟩
    | float y =>
      cases h
      exact ⟨_, rfl⟩
    | _ => cases h
  · cases v with
    | null =>
      cases h
      exact Or.inl rfl
    | bool _ | int _ | float _ =>
      cases h
      exact Or.inr ⟨rfl, rfl⟩
    | _ => cases h
  · cases v with
    | arr xs =>
      cases h
      exact ⟨xs.map conv.py.shown, by simp [Function.comp_def]⟩
    | _ => cases h

theorem ofType_default {m : String × Json} (hm : m ∈ DEFAULTS) : OfType m.2 m.2 := by
  obtain ⟨key, default⟩ := m
  obtain ⟨x, rfl⟩ | ⟨n, rfl⟩ | rfl | rfl := kind_cases hm
  · exact ⟨x, rfl⟩
  · exact ⟨n, rfl⟩
  · exact Or.inl rfl
  · exact ⟨[], rfl⟩

/-! ### One document -/

theorem get?_defaults {key : String} {default : Json} :
    DEFAULTS.get? key = some default ↔ (key, default) ∈ DEFAULTS :=
  Dict.get?_eq_some names_nodup

theorem mergeMember_of_unknown {merged : Dict} {m : String × Json}
    (h : DEFAULTS.get? m.1 = none) : mergeMember conv merged m = .ok merged := by
  rw [mergeMember, h]
  rfl

theorem mergeMember_of_known {merged : Dict} {m : String × Json} {default : Json}
    (h : DEFAULTS.get? m.1 = some default) :
    mergeMember conv merged m =
      (typed conv default m.2).map fun o => o.elim merged (merged.set m.1) := by
  rw [mergeMember, h]
  dsimp only
  cases typed conv default m.2 with
  | error e => rfl
  | ok o => cases o <;> rfl

/-- The loop returns when every known value is converted. -/
theorem exists_foldlM_merge {ms : Dict} (merged : Dict)
    (h : ∀ m ∈ ms, ∀ default, DEFAULTS.get? m.1 = some default →
      ∃ o, typed conv default m.2 = .ok o) :
    ∃ merged', ms.foldlM (mergeMember conv) merged = .ok merged' := by
  induction ms generalizing merged with
  | nil => exact ⟨merged, rfl⟩
  | cons m ms ih =>
    obtain ⟨hm, hms⟩ := List.forall_mem_cons.mp h
    have hstep : ∃ next, mergeMember conv merged m = .ok next := by
      cases hdef : DEFAULTS.get? m.1 with
      | none => exact ⟨merged, mergeMember_of_unknown hdef⟩
      | some default =>
        obtain ⟨o, ho⟩ := hm default hdef
        exact ⟨_, by rw [mergeMember_of_known hdef, ho]; rfl⟩
    obtain ⟨next, hnext⟩ := hstep
    obtain ⟨merged', hmerged⟩ := ih next hms
    exact ⟨merged', by rw [List.foldlM_cons, hnext]; exact hmerged⟩

/-- **What the loop returns** is the base with what was stored. -/
theorem foldlM_merge {ms : Dict} (hnodup : (ms.map Prod.fst).Nodup) {d merged : Dict}
    (hnames : d.map Prod.fst = DEFAULTS.map Prod.fst)
    (h : ms.foldlM (mergeMember conv) d = .ok merged) :
    ∃ f : String → Option Json, merged = d.overlay f ∧
      (∀ key, key ∉ ms.map Prod.fst → f key = none) ∧
      ∀ m ∈ ms, ∀ default, DEFAULTS.get? m.1 = some default →
        typed conv default m.2 = .ok (f m.1) := by
  induction ms generalizing d with
  | nil =>
    cases h
    exact ⟨fun _ => none, (Dict.overlay_none _).symm, fun _ _ => rfl, by simp⟩
  | cons m ms ih =>
    rw [List.foldlM_cons] at h
    obtain ⟨next, hnext, hrest⟩ := Except.bind_eq_ok.mp h
    rw [List.map_cons, List.nodup_cons] at hnodup
    cases hdef : DEFAULTS.get? m.1 with
    | none =>
      obtain rfl : next = d := Except.ok.inj (hnext.symm.trans (mergeMember_of_unknown hdef))
      obtain ⟨f, hf, hnone, htyped⟩ := ih hnodup.2 hnames hrest
      refine ⟨f, hf, ?_, ?_⟩
      · intro key hkey
        exact hnone key fun hin => hkey (List.mem_cons_of_mem _ hin)
      · rintro m' (_ | ⟨_, hm'⟩) default hdefault
        · rw [hdef] at hdefault
          cases hdefault
        · exact htyped m' hm' default hdefault
    | some default =>
      rw [mergeMember_of_known hdef] at hnext
      obtain ⟨o, ho, rfl⟩ := Except.map_eq_ok.mp hnext
      have hkey : m.1 ∈ d.map Prod.fst := by
        rw [hnames]
        exact List.mem_map.mpr ⟨_, get?_defaults.mp hdef, rfl⟩
      -- the assignment of this member, as an overlay
      have hset : o.elim d (d.set m.1) = d.overlay fun k => if k = m.1 then o else none := by
        cases o with
        | none => simp [Dict.overlay_none]
        | some w => exact Dict.set_eq_overlay hkey w
      rw [hset] at hrest
      obtain ⟨f, hf, hnone, htyped⟩ := ih hnodup.2 (by rw [Dict.names_overlay, hnames]) hrest
      have hfresh : f m.1 = none := hnone m.1 hnodup.1
      refine ⟨_, hf.trans (Dict.overlay_overlay _ f d), ?_, ?_⟩
      · intro key hk
        rw [List.map_cons, List.mem_cons, not_or] at hk
        simp [hnone key hk.2, hk.1]
      · rintro m' (_ | ⟨_, hm'⟩) default' hdefault
        · obtain rfl : default = default' := Option.some.inj (hdef.symm.trans hdefault)
          simp [hfresh, ho]
        · have hne : m'.1 ≠ m.1 := fun heq => hnodup.1 (heq ▸ List.mem_map.mpr ⟨m', hm', rfl⟩)
          simp [htyped m' hm' default' hdefault, hne]

theorem members_eq_ok {doc : Json} {ms : Dict} :
    (Interpreter.members (doc.or (.obj [])) : Except Failure Dict) = .ok ms ↔
      members? doc = some ms := by
  rw [Interpreter.members_eq_ok, members?, Json.or]
  by_cases h : doc.truthy = true
  · rw [if_pos h, if_pos h]
    cases doc <;> simp [Json.obj?]
  · rw [if_neg h, if_neg h]
    simp

/-- A fine document is merged over the defaults. -/
theorem validateAndMerge_eq {doc : Json} {ms : Dict} (hms : members? doc = some ms)
    (h : ∀ m ∈ DEFAULTS, ∀ v, ms.get? m.1 = some v → Smooth conv m.2 v) :
    validateAndMerge conv doc = .ok (overlaid conv ms) := by
  have htyped : ∀ m ∈ Dict.filled ms, ∀ default, DEFAULTS.get? m.1 = some default →
      typed conv default m.2 = .ok (compatible conv default m.2) := by
    intro m hm default hdefault
    have hmem := get?_defaults.mp hdefault
    exact typed_eq hmem (h _ hmem m.2 (Dict.mem_filled.mp hm))
  obtain ⟨merged, hmerged⟩ := exists_foldlM_merge DEFAULTS fun m hm default hdefault =>
    ⟨_, htyped m hm default hdefault⟩
  obtain ⟨f, hf, hnone, hstored⟩ := foldlM_merge (Dict.nodup_filled ms) rfl hmerged
  rw [validateAndMerge, members_eq_ok.mpr hms]
  refine hmerged.trans (congrArg Except.ok ?_)
  rw [hf, Dict.overlay, overlaid]
  apply List.map_congr_left
  intro m hm
  cases hget : ms.get? m.1 with
  | none =>
    have habsent : m.1 ∉ (Dict.filled ms).map Prod.fst := by
      intro hin
      obtain ⟨⟨key, v⟩, hmem, hkey⟩ := List.mem_map.mp hin
      have hsome := Dict.mem_filled.mp (hkey ▸ hmem : (m.1, v) ∈ Dict.filled ms)
      rw [hget] at hsome
      cases hsome
    rw [hnone m.1 habsent]
    rfl
  | some v =>
    have hmem : (m.1, v) ∈ Dict.filled ms := Dict.mem_filled.mpr hget
    have hdefault := get?_defaults.mpr hm
    have heq := (hstored _ hmem _ hdefault).symm.trans (htyped _ hmem _ hdefault)
    rw [Except.ok.inj heq]
    rfl

/-- A document that is merged as it says is fine. -/
theorem smooth_of_validateAndMerge {doc : Json} {ms : Dict} (hms : members? doc = some ms)
    (h : validateAndMerge conv doc = .ok (overlaid conv ms)) :
    ∀ m ∈ DEFAULTS, ∀ v, ms.get? m.1 = some v → Smooth conv m.2 v := by
  intro m hm v hv
  rw [validateAndMerge, members_eq_ok.mpr hms] at h
  obtain ⟨f, hf, -, hstored⟩ := foldlM_merge (Dict.nodup_filled ms) rfl h
  have hvalue : (f m.1).getD m.2 = ((ms.get? m.1).bind (compatible conv m.2)).getD m.2 :=
    congrArg Prod.snd (List.map_inj_left.mp (hf.symm : DEFAULTS.overlay f = _) m hm)
  rw [hv] at hvalue
  exact smooth_of_typed hm (hstored _ (Dict.mem_filled.mpr hv) _ (get?_defaults.mpr hm)) hvalue

theorem get?_overlaid {m : String × Json} (hm : m ∈ DEFAULTS) (ms : Dict) :
    (overlaid conv ms).get? m.1 = some (((ms.get? m.1).bind (compatible conv m.2)).getD m.2) := by
  have hnames : (overlaid conv ms).map Prod.fst = DEFAULTS.map Prod.fst := by
    simp [overlaid, Function.comp_def]
  rw [Dict.get?_eq_some (by rw [hnames]; exact names_nodup)]
  exact List.mem_map.mpr ⟨m, hm, rfl⟩

/-- Every value of a snapshot is of its default's type, and finite. -/
theorem ofType_overlaid {m : String × Json} (hm : m ∈ DEFAULTS) (ms : Dict) :
    ∃ v, (overlaid conv ms).get? m.1 = some v ∧ OfType m.2 v := by
  refine ⟨_, get?_overlaid hm ms, ?_⟩
  cases hw : (ms.get? m.1).bind (compatible conv m.2) with
  | none => exact ofType_default hm
  | some w =>
    obtain ⟨v, -, hv⟩ := Option.bind_eq_some_iff.mp hw
    exact ofType_compatible hm hv

/-! ### One message -/

variable {det : Detectors} {doc : Dict} {s : Loop} {msg : Message} {msgs : List Message}

/-- The loop after a message whose document is `doc`. -/
structure Settled (conv : Conversions) (det : Detectors) (doc : Dict) (s : Loop) : Prop where
  alive : s.alive = true
  snapshot : s.snapshot = overlaid conv doc
  base : s.baseAllow.getD s.det = det
  beacon : ∀ x, x ∈ s.det.beaconAllow ↔
    x ∈ det.beaconAllow ∨ x ∈ entries s.snapshot "beacon_allowlist"
  exfil : ∀ x, x ∈ s.det.exfilAllow ↔ x ∈ det.exfilAllow ∨ x ∈ entries s.snapshot "exfil_allowlist"

theorem settled_init (conv : Conversions) (det : Detectors) :
    Settled conv det [] (Loop.init det) where
  alive := rfl
  snapshot := rfl
  base := rfl
  beacon x := (or_iff_left (List.not_mem_nil (a := x))).symm
  exfil x := (or_iff_left (List.not_mem_nil (a := x))).symm

/-- The allowlists are rebuilt from the built-in ones. -/
theorem settled_applyAllowlists (h : s.baseAllow.getD s.det = det) (halive : s.alive = true) :
    Settled conv det doc
      ({ s with snapshot := overlaid conv doc }.applyAllowlists (overlaid conv doc)) where
  alive := halive
  snapshot := rfl
  base := h
  beacon x := by simp [Loop.applyAllowlists, h]
  exfil x := by simp [Loop.applyAllowlists, h]

theorem accepted_of_decoded {doc : Json} (h : decoded loads msg = some doc) :
    accepted loads msg = members? doc := by
  rw [accepted, h]
  rfl

/-- A message that is not accepted does nothing, if it is harmless. -/
theorem reload_of_refused (hfine : Fine conv loads msg) (h : accepted loads msg = none) :
    reload conv loads s msg = s := by
  rw [reload]
  split
  · cases hdoc : decoded loads msg with
    | none => rfl
    | some doc =>
      obtain ⟨ms, hms, -⟩ := hfine doc hdoc
      rw [accepted_of_decoded hdoc, hms] at h
      cases h
  · rfl

theorem settled_reload (h : Settled conv det doc s) (hfine : Fine conv loads msg) :
    Settled conv det ((accepted loads msg).getD doc) (reload conv loads s msg) := by
  cases hdoc : decoded loads msg with
  | none =>
    have hacc : accepted loads msg = none := by rw [accepted, hdoc]; rfl
    rw [reload_of_refused hfine hacc, hacc]
    exact h
  | some v =>
    obtain ⟨ms, hms, hsmooth⟩ := hfine v hdoc
    rw [accepted_of_decoded hdoc, hms, reload, if_pos h.alive, hdoc]
    simp only [validateAndMerge_eq hms hsmooth]
    exact settled_applyAllowlists h.base h.alive

/-- A message that leaves the loop alive, with the snapshot it asks for, was harmless. -/
theorem fine_of_reload (h : Settled conv det doc s)
    (halive : (reload conv loads s msg).alive = true)
    (hsnap : (reload conv loads s msg).snapshot = overlaid conv ((accepted loads msg).getD doc)) :
    Fine conv loads msg := by
  intro v hdoc
  rw [reload, if_pos h.alive, hdoc] at halive hsnap
  cases hmerge : validateAndMerge conv v with
  | error e =>
    simp only [hmerge] at halive
    cases halive
  | ok merged =>
    simp only [hmerge] at hsnap
    obtain ⟨ms, hms, -⟩ := Except.bind_eq_ok.mp hmerge
    rw [members_eq_ok] at hms
    rw [accepted_of_decoded hdoc, hms] at hsnap
    have hmerged : merged = overlaid conv ms := hsnap
    exact ⟨ms, hms, smooth_of_validateAndMerge hms (hmerged ▸ hmerge)⟩

/-! ### Every run -/

theorem latest_append_singleton (loads : List UInt8 → Option Json) (msgs : List Message)
    (msg : Message) :
    latest loads (msgs ++ [msg]) = (accepted loads msg).getD (latest loads msgs) := by
  rw [latest, List.filterMap_append]
  cases h : accepted loads msg <;> simp [latest, h]

theorem run_append_singleton (conv : Conversions) (loads : List UInt8 → Option Json)
    (det : Detectors) (msgs : List Message) (msg : Message) :
    run conv loads det (msgs ++ [msg]) = reload conv loads (run conv loads det msgs) msg :=
  Machine.run_snoc _ _ _ _

theorem settled_run (h : ∀ msg ∈ msgs, Fine conv loads msg) :
    Settled conv det (latest loads msgs) (run conv loads det msgs) := by
  induction msgs using List.reverseRecOn with
  | nil => exact settled_init conv det
  | append_singleton msgs msg ih =>
    obtain ⟨hmsgs, hmsg⟩ := List.forall_mem_append.mp h
    rw [run_append_singleton, latest_append_singleton]
    exact settled_reload (ih hmsgs) (hmsg msg (List.mem_singleton_self msg))

theorem managed_of_fine (h : ∀ msg ∈ msgs, Fine conv loads msg) :
    Managed conv loads det msgs := by
  have hsettled : ∀ pre, pre <+: msgs →
      Settled conv det (latest loads pre) (run conv loads det pre) := by
    intro pre hpre
    exact settled_run fun msg hmsg => h msg (hpre.subset hmsg)
  refine ⟨fun pre hpre => (hsettled pre hpre).alive, fun pre hpre => (hsettled pre hpre).snapshot,
    ?_, fun pre hpre => (hsettled pre hpre).beacon, fun pre hpre => (hsettled pre hpre).exfil, ?_⟩
  · intro pre hpre m hm
    rw [(hsettled pre hpre).snapshot]
    exact ofType_overlaid hm _
  · intro pre msg hpre hacc
    have hfine := h msg (hpre.subset (List.mem_append_right _ (List.mem_singleton_self msg)))
    rw [run_append_singleton, reload_of_refused hfine hacc]
    exact ⟨rfl, rfl⟩

theorem Managed.of_prefix {pre : List Message} (h : Managed conv loads det msgs)
    (hpre : pre <+: msgs) : Managed conv loads det pre where
  alive pre' h' := h.alive pre' (h'.trans hpre)
  snapshot pre' h' := h.snapshot pre' (h'.trans hpre)
  types pre' h' := h.types pre' (h'.trans hpre)
  beacon pre' h' := h.beacon pre' (h'.trans hpre)
  exfil pre' h' := h.exfil pre' (h'.trans hpre)
  refused pre' msg h' := h.refused pre' msg (h'.trans hpre)

theorem fine_of_managed (h : Managed conv loads det msgs) :
    ∀ msg ∈ msgs, Fine conv loads msg := by
  induction msgs using List.reverseRecOn with
  | nil => simp
  | append_singleton msgs msg ih =>
    have hmsgs := ih (h.of_prefix (List.prefix_append msgs [msg]))
    have halive := h.alive (msgs ++ [msg]) List.prefix_rfl
    have hsnap := h.snapshot (msgs ++ [msg]) List.prefix_rfl
    rw [run_append_singleton] at halive hsnap
    rw [latest_append_singleton] at hsnap
    have hmsg := fine_of_reload (settled_run hmsgs) halive hsnap
    rintro m hm
    rcases List.mem_append.mp hm with hm | hm
    · exact hmsgs m hm
    · obtain rfl := List.mem_singleton.mp hm
      exact hmsg

/-- **The configuration** is managed exactly when every message is bad JSON, or
    a document whose known values are converted to finite ones. -/
theorem managed_iff (conv : Conversions) (loads : List UInt8 → Option Json) (det : Detectors)
    (msgs : List Message) :
    Managed conv loads det msgs ↔ ∀ msg ∈ msgs, Fine conv loads msg :=
  ⟨fine_of_managed, managed_of_fine⟩

/-- An interpreter with room for a thousand levels. -/
def plainInterpreter : Interpreter :=
  ⟨fun _ => "", fun _ => none, fun _ => 0, 1000, 1000, 1000, by decide⟩

/-- An interpreter for the messages below. -/
def sampleConversions : Conversions where
  py := plainInterpreter
  toFloat _ := ⟨"0.0".toList, by decide⟩

/-- The message `[1]` ends the loop: a list has no `items`. -/
theorem array_ends_loop : ¬ Managed sampleConversions
    (fun bytes => if bytes = "[1]".toUTF8.toList then some (.arr [.int 1]) else none)
    ⟨{"8.8.8.8"}, []⟩ [some "[1]".toUTF8.toList] := by
  intro h
  have halive := h.alive _ List.prefix_rfl
  revert halive
  decide +kernel

end ManagedConfig
