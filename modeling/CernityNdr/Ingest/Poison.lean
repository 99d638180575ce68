import CernityNdr.Ingest.Delivery
import CernityNdr.Ingest.FileObserver

/-! # Poison Records

    Which records make the per-record part of the two consumers raise an
    exception that nobody catches, so that the process dies before it can
    commit past the record.

    * `Normalizer.raisesOnly_observation`, `FileObserver.raisesOnly_event`: the
      records for which nothing but a quarantine is raised. -/

namespace Ingest

open Json Interpreter Except

/-- A `QuarantineError`. -/
def IsQuarantine (e : Failure) : Prop := ∃ m, e = .own (.quarantine m)

/-- Valid LogAppendTime metadata: the time is a date of the calendar, and its
    text reads back. -/
def ValidMetadata (lib : Library) (timestampType : Int) (timestamp : Option Int) : Prop :=
  timestampType = 1 ∧ ∃ ms t, timestamp = some ms ∧ 0 ≤ ms ∧ lib.fromtimestamp ms = some t ∧
    lib.parseUtc (replaceZ (lib.isoformat t)) = .ok t

/-- The text is a date and time with an offset, and stands for the instant. -/
def Library.Reads (lib : Library) (s : String) (t : Int) : Prop :=
  ∃ wall offset, lib.fromisoformat (replaceZ s) = some ⟨wall, some offset⟩ ∧ t = wall - offset

/-- The instant is in the years 1 to 9999. -/
def InYears (t : Int) : Prop := 0 ≤ t ∧ t < maxInstant

/-- There is a tenant, and the sensor is a name. -/
def Identified (eve : Dict) (tenant cfgSensor : String) : Prop :=
  tenant ≠ "" ∧ ∃ sensor, injectIdentity eve cfgSensor = .str sensor ∧ sensor ≠ ""

variable {lib : Library} {v : Json}

/-! ### What the conversions raise -/

@[simp] theorem isQuarantine_own {m : String} : IsQuarantine (.own (.quarantine m)) := ⟨m, rfl⟩

theorem not_isQuarantine {e : Failure} (h : ∀ o, e ≠ .own o) : ¬ IsQuarantine e := by
  rintro ⟨m, rfl⟩
  exact h _ rfl

/-- A call that raises no `QuarantineError` of its own. -/
def Strict {α : Type} (x : Except Failure α) : Prop := RaisesOnly (fun e => ¬ IsQuarantine e) x

theorem Strict.bind {α β : Type} {x : Except Failure α} {g : α → Except Failure β}
    (hx : Strict x) (hg : ∀ a, Strict (g a)) : Strict (x >>= g) :=
  raisesOnly_bind.mpr ⟨hx, fun a _ => hg a⟩

theorem strict_ok {α : Type} (a : α) : Strict (.ok a) := raisesOnly_ok a

theorem strict_members (v : Json) : Strict (members v) := by
  cases v with
  | obj ms => exact strict_ok ms
  | _ => exact raisesOnly_error.mpr (not_isQuarantine (by simp))

theorem strict_hash (v : Json) : Strict (Interpreter.hash v) := by
  cases v with
  | arr xs => exact raisesOnly_error.mpr (not_isQuarantine (by simp))
  | obj ms => exact raisesOnly_error.mpr (not_isQuarantine (by simp))
  | _ => exact strict_ok ()

theorem strict_str (lib : Library) (v : Json) : Strict (lib.str v) := by
  unfold Interpreter.str
  split
  · exact strict_ok _
  · exact raisesOnly_error.mpr (not_isQuarantine (by simp))

theorem strict_int (lib : Library) (v : Json) : Strict (lib.int v) := by
  cases v with
  | int n => exact strict_ok n
  | bool b => exact strict_ok _
  | float x => exact strict_ok _
  | str s =>
    rw [Interpreter.int]
    cases lib.intOfText s with
    | none => exact raisesOnly_error.mpr (not_isQuarantine (by simp))
    | some n => exact strict_ok n
  | _ => exact raisesOnly_error.mpr (not_isQuarantine (by simp))

theorem strict_canonicalJson (lib : Library) (v : Json) : Strict (lib.canonicalJson v) := by
  unfold canonicalJson
  split
  · exact raisesOnly_error.mpr (not_isQuarantine (by simp))
  · split
    · exact strict_ok _
    · exact raisesOnly_error.mpr (not_isQuarantine (by simp))

theorem strict_deepcopy (lib : Library) (v : Json) : Strict (lib.deepcopy v) := by
  unfold deepcopy
  split
  · exact strict_ok _
  · exact raisesOnly_error.mpr (not_isQuarantine (by simp))

theorem exists_canonicalJson_eq_ok :
    (∃ text, (lib.canonicalJson v : Except Failure _) = .ok text) ↔
      v.depth ≤ lib.dumpsRoom ∧ v.finite = true := by
  simp [canonicalJson_eq_ok]

theorem exists_hash_eq_ok :
    (∃ u, (Interpreter.hash v : Except Failure Unit) = .ok u) ↔ (∀ xs, v ≠ .arr xs) ∧ ∀ ms, v ≠ .obj ms := by
  cases v <;> simp [Interpreter.hash]

/-! ### Timestamps and identity -/

theorem parseUtc_ok_iff {s : String} {t : Int} :
    lib.parseUtc (replaceZ s) = .ok t ↔ lib.Reads s t ∧ InYears t := by
  rw [Library.Reads, InYears, Library.parseUtc]
  rcases lib.fromisoformat (replaceZ s) with _ | ⟨wall, _ | offset⟩
  · simp
  · simp
  · by_cases hin : 0 ≤ wall - offset ∧ wall - offset < maxInstant
    · simp only [hin, and_self, if_true, Except.ok.injEq]
      constructor
      · rintro rfl
        exact ⟨⟨wall, offset, rfl, rfl⟩, hin⟩
      · rintro ⟨⟨wall', offset', heq, rfl⟩, -⟩
        cases heq
        rfl
    · simp only [hin, if_false, reduceCtorEq, false_iff, not_and]
      rintro ⟨wall', offset', heq, rfl⟩
      cases heq
      exact fun h0 h1 => hin ⟨h0, h1⟩

theorem quarantined_eq_ok {α : Type} {m : String} {x : Except Failure α} {a : α} :
    quarantined m x = .ok a ↔ x = .ok a := by
  unfold quarantined
  split
  all_goals simp

/-- A text that is read raises a quarantine, unless its instant is no date. -/
theorem raisesOnly_parse {m s : String} :
    RaisesOnly IsQuarantine (quarantined m (lib.parseUtc (replaceZ s))) ↔
      ∀ t, lib.Reads s t → InYears t := by
  rw [Library.parseUtc]
  unfold Library.Reads InYears
  rcases lib.fromisoformat (replaceZ s) with _ | ⟨wall, _ | offset⟩
  · simp [quarantined]
  · simp [quarantined]
  · by_cases hin : 0 ≤ wall - offset ∧ wall - offset < maxInstant
    · simp only [hin, and_self, if_true, quarantined, raisesOnly_ok, true_iff]
      rintro t ⟨wall', offset', heq, rfl⟩
      cases heq
      exact hin
    · simp only [hin, if_false, quarantined, raisesOnly_error]
      constructor
      · rintro ⟨m, hm⟩
        cases hm
      · intro h
        exact absurd (h _ ⟨wall, offset, rfl, rfl⟩) hin

theorem raisesOnly_identity (eve : Dict) (tenant cfgSensor : String) :
    RaisesOnly IsQuarantine (identity eve tenant cfgSensor) := by
  unfold identity
  split
  · split <;> simp
  · simp

theorem exists_identity_eq_ok {eve : Dict} {tenant cfgSensor : String} :
    (∃ sensor, identity eve tenant cfgSensor = .ok sensor) ↔ Identified eve tenant cfgSensor := by
  unfold identity Identified
  split
  · next sensor h =>
    rw [h]
    by_cases ht : tenant = "" <;> by_cases hs : sensor = "" <;> simp [ht, hs]
  · next h =>
    constructor
    · rintro ⟨sensor, hs⟩
      cases hs
    · rintro ⟨-, sensor, hs, -⟩
      exact absurd hs (h sensor)

theorem exists_obsId (lib : Library) (c : Coordinates) (tenant sensor : String) :
    ∃ id, lib.obsId c tenant sensor = .ok id := by
  refine exists_bind_eq_ok.mpr ?_
  obtain ⟨text, htext⟩ := (@exists_canonicalJson_eq_ok lib (c.identityJson tenant sensor)).mpr
    ⟨by
      have := lib.dumpsRoom_pos
      simp only [Coordinates.identityJson, depth, depth.items]
      omega, rfl⟩
  exact ⟨text, htext, _, rfl⟩

end Ingest

namespace Normalizer

open Json Ingest Interpreter Except

/-! ### Typed rows -/

/-- `int(v or 0)` returns. -/
def Counts (lib : Library) (v : Json) : Prop := lib.Numeral (v.or (.int 0))

/-- The fields that `flow_row` converts. -/
def FlowReadable (lib : Library) (eve : Dict) : Prop :=
  (∀ key ∈ ["flow_id", "src_port", "dest_port"], Counts lib (eve.getD key (.int 0))) ∧
    ((ndpi eve).getD "proto" (.str "")).depth ≤ lib.reprRoom ∧
    ((ndpi eve).getD "app_protocol" ((ndpi eve).getD "application" (.str ""))).depth ≤
      lib.reprRoom ∧
    (∀ xs, (ndpi eve).get "risk" = .arr xs → ∀ x ∈ xs, x.depth ≤ lib.reprRoom) ∧
    ∃ f : Dict, (eve.getD "flow" (.obj [])).or (.obj []) = .obj f ∧
      ∀ key ∈ ["pkts_toserver", "pkts_toclient", "bytes_toserver", "bytes_toclient"],
        Counts lib (f.getD key (.int 0))

/-- A fingerprint is an object, or a value that is not nested too deep. -/
def FingerprintReadable (lib : Library) (v : Json) : Prop :=
  (∃ ms, v = .obj ms) ∨ (v.or (.str "")).depth ≤ lib.reprRoom

/-- The fields that `tls_row` converts. -/
def TlsReadable (lib : Library) (eve : Dict) : Prop :=
  ∃ t : Dict, (eve.getD "tls" (.obj [])).or (.obj []) = .obj t ∧
    Counts lib (eve.getD "dest_port" (.int 0)) ∧
    FingerprintReadable lib (t.getD "ja3" (.obj [])) ∧
    FingerprintReadable lib (t.getD "ja3s" (.obj [])) ∧
    ((ndpi eve).getD "app_protocol" (.str "")).depth ≤ lib.reprRoom

/-- The record declares another version than the stream has. -/
def OtherVersion (lib : Library) (streamVersion : Int) (declared : Json) : Prop :=
  declared ≠ .null ∧ ∃ n, (lib.int declared : Except Failure Int) = .ok n ∧ n ≠ streamVersion

/-- There is no query, or the first one is an object. -/
def QueriesReadable (d : Dict) : Prop :=
  ((d.get "queries").or (.arr [])).truthy = false ∨
    ∃ q qs, (d.get "queries").or (.arr []) = .arr (.obj q :: qs)

/-- The fields that `dns_row` converts. -/
def DnsReadable (lib : Library) (streamVersion : Int) (eve : Dict) : Prop :=
  ∃ d : Dict, (eve.getD "dns" (.obj [])).or (.obj []) = .obj d ∧
    (d.get "version" = .null ∨ lib.Numeral (d.get "version")) ∧
    (¬ OtherVersion lib streamVersion (d.get "version") → QueriesReadable d)

variable {lib : Library} {v : Json} {eve : Dict} {tenant : String} {s : Json} {version : Int}

theorem exists_intOrZero : (∃ j, intOrZero lib v = .ok j) ↔ Counts lib v := by
  rw [intOrZero, exists_bind_eq_ok]
  show (∃ n, lib.int (v.or (.int 0)) = .ok n ∧ ∃ b, (.ok (.int n) : Except Failure Json) = .ok b) ↔ _
  simp [Counts, ← @exists_int_eq_ok Own]

theorem exists_text : (∃ j, text lib v = .ok j) ↔ v.depth ≤ lib.reprRoom := by
  rw [text, exists_bind_eq_ok, ← @exists_str_eq_ok Own]
  exact exists_congr fun s => ⟨fun h => h.1, fun h => ⟨h, .str s, rfl⟩⟩

theorem exists_risks {n : Dict} : (∃ l, risks lib n = .ok l) ↔
    ∀ xs, n.get "risk" = .arr xs → ∀ x ∈ xs, x.depth ≤ lib.reprRoom := by
  rw [risks]
  cases h : n.get "risk" with
  | arr xs => simp [exists_mapM_eq_ok, exists_text]
  | obj ms => simp
  | _ =>
    simp only [reduceCtorEq, false_implies, implies_true, iff_true]
    split
    · refine exists_bind_eq_ok.mpr ((exists_text.mpr ?_).imp fun j hj => ⟨hj, _, rfl⟩)
      exact Nat.zero_le _
    · exact ⟨[], rfl⟩

theorem exists_fingerprint : (∃ j, fingerprint lib v = .ok j) ↔ FingerprintReadable lib v := by
  unfold fingerprint FingerprintReadable
  split
  · simp
  · next h =>
    rw [exists_text]
    exact ⟨Or.inr, fun hor => hor.resolve_left fun ⟨ms, hms⟩ => h ms hms⟩

theorem exists_flowRow : (∃ row, flowRow lib eve tenant s = .ok row) ↔ FlowReadable lib eve := by
  simp only [flowRow, exists_bind_eq_ok, exists_pure_eq_ok, and_true, exists_and_right,
    exists_intOrZero, exists_text, exists_risks, members_eq_ok]
  simp [FlowReadable, and_assoc]

theorem exists_tlsRow : (∃ row, tlsRow lib eve tenant s = .ok row) ↔ TlsReadable lib eve := by
  simp only [tlsRow, exists_bind_eq_ok, exists_pure_eq_ok, and_true, exists_and_right,
    exists_intOrZero, exists_text, exists_fingerprint, members_eq_ok]
  rfl

theorem depth_of_numeral (h : lib.Numeral v) : v.depth = 0 := by
  cases v with
  | arr xs => exact absurd h id
  | obj ms => exact absurd h id
  | _ => rfl

/-- What the check of the version does with a declared one. -/
theorem checkVersion_cases {declared : Json} (hnull : declared ≠ .null) :
    (∃ e, checkVersion lib declared version = .error e ∧ ¬ IsQuarantine e ∧
        ¬ lib.Numeral declared) ∨
      (checkVersion lib declared version = .ok () ∧ lib.Numeral declared ∧
        ¬ OtherVersion lib version declared) ∨
      (∃ e, checkVersion lib declared version = .error e ∧ IsQuarantine e ∧
        lib.Numeral declared ∧ OtherVersion lib version declared) := by
  have hcheck : checkVersion lib declared version = (do
      let n ← lib.int declared
      if n ≠ version then
        let shown ← lib.str declared
        throw (.own (.quarantine (versionMessage shown version)))) := by
    cases declared with
    | null => exact absurd rfl hnull
    | _ => rfl
  cases hint : (lib.int declared : Except Failure Int) with
  | error e =>
    refine Or.inl ⟨e, by rw [hcheck, hint]; rfl, ?_, ?_⟩
    · exact strict_int lib declared e hint
    · intro hnum
      obtain ⟨n, hn⟩ := (@exists_int_eq_ok Own _ _).mpr hnum
      rw [hint] at hn
      cases hn
  | ok n =>
    have hnum : lib.Numeral declared := (@exists_int_eq_ok Own _ _).mp ⟨n, hint⟩
    rw [hint] at hcheck
    by_cases hn : n = version
    · refine Or.inr (Or.inl ⟨?_, hnum, ?_⟩)
      · rw [hcheck]
        show (if n ≠ version then _ else _) = _
        rw [if_neg (not_not.mpr hn)]
        rfl
      · rintro ⟨-, n', hn', hne⟩
        rw [hint] at hn'
        cases hn'
        exact hne hn
    · have hshown : (lib.str declared : Except Failure String) = .ok (lib.shown declared) :=
        str_eq_ok.mpr ⟨(depth_of_numeral hnum).trans_le (Nat.zero_le _), rfl⟩
      refine Or.inr (Or.inr ⟨.own (.quarantine (versionMessage (lib.shown declared) version)), ?_,
        isQuarantine_own, hnum, hnull, n, hint, hn⟩)
      rw [hcheck]
      show (if n ≠ version then _ else _) = _
      rw [if_pos hn, hshown]
      rfl

theorem exists_checkVersion {declared : Json} :
    (∃ u, checkVersion lib declared version = .ok u) ↔
      (declared = .null ∨ lib.Numeral declared) ∧ ¬ OtherVersion lib version declared := by
  by_cases hnull : declared = .null
  · subst hnull
    simp [checkVersion, OtherVersion]
  · rcases @checkVersion_cases lib version _ hnull with
      ⟨e, h, -, hnum⟩ | ⟨h, hnum, hother⟩ | ⟨e, h, -, hnum, hother⟩
    · simp [h, hnum, hnull]
    · simp [h, hnum, hother]
    · simp [h, hother]

theorem raisesOnly_checkVersion {declared : Json} :
    RaisesOnly IsQuarantine (checkVersion lib declared version) ↔
      declared = .null ∨ lib.Numeral declared := by
  by_cases hnull : declared = .null
  · subst hnull
    simp [checkVersion]
  · rcases @checkVersion_cases lib version _ hnull with
      ⟨e, h, hown, hnum⟩ | ⟨h, hnum, -⟩ | ⟨e, h, hown, hnum, -⟩
    · simp [h, hown, hnum, hnull]
    · simp [h, hnum]
    · simp [h, hown, hnum]

theorem strict_firstQuery (queries : Json) (d : Dict) : Strict (firstQuery queries d) := by
  unfold firstQuery
  split
  · split
    · exact strict_ok _
    · exact strict_ok _
    · exact raisesOnly_error.mpr (not_isQuarantine (by simp))
    · exact raisesOnly_error.mpr (not_isQuarantine (by simp))
  · exact strict_ok _

theorem exists_queries {d : Dict} :
    (∃ q, firstQuery ((d.get "queries").or (.arr [])) d = .ok q ∧ ∃ ms, q = .obj ms) ↔
      QueriesReadable d := by
  unfold firstQuery QueriesReadable
  generalize (d.get "queries").or (.arr []) = queries
  cases htruthy : queries.truthy with
  | false => simp
  | true =>
    cases queries with
    | arr xs =>
      cases xs with
      | nil => cases htruthy
      | cons q qs => simp
    | _ => simp

theorem exists_dnsRow : (∃ row, dnsRow lib eve tenant s version = .ok row) ↔
    DnsReadable lib version eve ∧ ∀ d : Dict, (eve.getD "dns" (.obj [])).or (.obj []) = .obj d →
      ¬ OtherVersion lib version (d.get "version") := by
  simp only [dnsRow, exists_bind_eq_ok, exists_pure_eq_ok, and_true, exists_and_right,
    exists_checkVersion, members_eq_ok, exists_queries]
  constructor
  · rintro ⟨d, hd, ⟨hversion, hother⟩, hqueries⟩
    refine ⟨⟨d, hd, hversion, fun _ => hqueries⟩, ?_⟩
    intro d' hd'
    obtain rfl : d = d' := Json.obj.inj (hd.symm.trans hd')
    exact hother
  · rintro ⟨⟨d, hd, hversion, hqueries⟩, hother⟩
    exact ⟨d, hd, ⟨hversion, hother d hd⟩, hqueries (hother d hd)⟩

/-- Nothing but a quarantine for another version is raised. -/
theorem raisesOnly_dnsRow :
    RaisesOnly IsQuarantine (dnsRow lib eve tenant s version) ↔ DnsReadable lib version eve := by
  have hqueries : ∀ d : Dict, RaisesOnly IsQuarantine (do
      let q0 ← firstQuery ((d.get "queries").or (.arr [])) d
      let q0 ← members q0
      return [("tenant_id", .str tenant), ("sensor_id", s),
        ("event_time", eve.getD "timestamp" (.str "")), ("dns_version", .int version),
        ("community_id", eve.getD "community_id" (.str "")),
        ("client_ip", eve.getD "src_ip" (.str "")), ("resolver_ip", eve.getD "dest_ip" (.str "")),
        ("query_name", q0.getD "rrname" (d.getD "rrname" (.str ""))),
        ("query_type", q0.getD "rrtype" (d.getD "rrtype" (.str ""))),
        ("rcode", d.getD "rcode" (.str ""))] : Except Failure (List (String × Json))) ↔
      QueriesReadable d := by
    intro d
    rw [← exists_queries, raisesOnly_bind_of_strict (strict_firstQuery _ d)]
    refine exists_congr fun q => and_congr_right fun _ => ?_
    rw [raisesOnly_bind_of_strict (strict_members q)]
    simp [members_eq_ok]
  rw [dnsRow, raisesOnly_bind_of_strict (strict_members _), DnsReadable]
  simp only [members_eq_ok]
  refine exists_congr fun d => and_congr_right fun hd => ?_
  rw [raisesOnly_bind_iff fun _ _ => hqueries d, raisesOnly_checkVersion, exists_checkVersion]
  exact and_congr_right fun hversion => ⟨fun h hother => h ⟨hversion, hother⟩, fun h hok => h hok.2⟩

/-! ### Observations -/

/-- The fields that the typed part of the row converts. -/
def RowReadable (lib : Library) (streamVersion : Int) (et : EventType) (eve : Dict) : Prop :=
  match et with
  | .flow => FlowReadable lib eve
  | .tls => TlsReadable lib eve
  | .dns => DnsReadable lib streamVersion eve
  | .http => True

/-- The record is quarantined for its version. -/
def Misversioned (lib : Library) (streamVersion : Int) (et : EventType) (eve : Dict) : Prop :=
  et = .dns ∧ ∃ d : Dict, (eve.getD "dns" (.obj [])).or (.obj []) = .obj d ∧
    OtherVersion lib streamVersion (d.get "version")

/-- The record can be encoded and copied. -/
def RecordFits (lib : Library) (et : EventType) (eve : Dict) : Prop :=
  ((Json.obj eve).depth ≤ lib.dumpsRoom ∧ (Json.obj eve).finite = true) ∧
    (∀ key ∈ copiedKeys, (eve.get key).depth ≤ lib.copyRoom) ∧
    ∀ m ms, eve.get et.name = .obj (m :: ms) →
      (Json.obj (m :: ms)).depth ≤ lib.copyRoom ∧
        (Json.obj (m :: ms)).depth + 2 ≤ lib.dumpsRoom ∧
        ∀ key ∈ copiedKeys, (eve.get key).depth + 2 ≤ lib.dumpsRoom

/-- The record is buffered, passed over or quarantined. -/
def Harmless (lib : Library) (cfg : Config) (eve : Dict) : Prop :=
  ((∀ xs, eve.get "event_type" ≠ .arr xs) ∧ ∀ ms, eve.get "event_type" ≠ .obj ms) ∧
    ∀ et, EventType.ofJson? (eve.get "event_type") = some et →
      Identified eve cfg.tenant cfg.sensor → ∀ s, eve.get "timestamp" = .str s →
        ∀ t, lib.Reads s t →
          InYears t ∧ RowReadable lib cfg.dnsVersion et eve ∧
            (¬ Misversioned lib cfg.dnsVersion et eve → RecordFits lib et eve)

theorem strict_intOrZero (lib : Library) (v : Json) : Strict (intOrZero lib v) :=
  (strict_int lib _).bind fun _ => strict_ok _

theorem strict_text (lib : Library) (v : Json) : Strict (text lib v) :=
  (strict_str lib _).bind fun _ => strict_ok _

theorem strict_mapM {α β : Type} {g : α → Except Failure β} (h : ∀ a, Strict (g a)) (as : List α) :
    Strict (as.mapM g) := by
  induction as with
  | nil => exact strict_ok []
  | cons a as ih =>
    rw [List.mapM_cons]
    exact (h a).bind fun _ => ih.bind fun _ => strict_ok _

theorem strict_risks (lib : Library) (n : Dict) : Strict (risks lib n) := by
  unfold risks
  split
  · exact strict_mapM (strict_text lib) _
  · exact strict_ok _
  · split
    · exact (strict_text lib _).bind fun _ => strict_ok _
    · exact strict_ok _

theorem strict_fingerprint (lib : Library) (v : Json) : Strict (fingerprint lib v) := by
  unfold fingerprint
  split
  · exact strict_ok _
  · exact strict_text lib _

theorem strict_flowRow (lib : Library) (eve : Dict) (tenant : String) (s : Json) :
    Strict (flowRow lib eve tenant s) :=
  (strict_intOrZero lib _).bind fun _ => (strict_intOrZero lib _).bind fun _ =>
    (strict_intOrZero lib _).bind fun _ => (strict_text lib _).bind fun _ =>
    (strict_text lib _).bind fun _ => (strict_risks lib _).bind fun _ =>
    (strict_members _).bind fun _ => (strict_intOrZero lib _).bind fun _ =>
    (strict_intOrZero lib _).bind fun _ => (strict_intOrZero lib _).bind fun _ =>
    (strict_intOrZero lib _).bind fun _ => strict_ok _

theorem strict_tlsRow (lib : Library) (eve : Dict) (tenant : String) (s : Json) :
    Strict (tlsRow lib eve tenant s) :=
  (strict_members _).bind fun _ => (strict_intOrZero lib _).bind fun _ =>
    (strict_fingerprint lib _).bind fun _ => (strict_fingerprint lib _).bind fun _ =>
    (strict_text lib _).bind fun _ => strict_ok _

section Rows
variable {et : EventType} {sensor : String}

/-- The typed part of a supported event is what `normalize` makes of it. -/
theorem typedRow_eq (het : EventType.ofJson? (eve.get "event_type") = some et) :
    typedRow lib et eve tenant sensor version =
      match et with
      | .flow => flowRow lib eve tenant (injectIdentity eve sensor)
      | .tls => tlsRow lib eve tenant (injectIdentity eve sensor)
      | .dns => dnsRow lib eve tenant (injectIdentity eve sensor) version
      | .http => .ok [("tenant_id", .str tenant), ("sensor_id", .str sensor),
          ("event_time", eve.get "timestamp")] := by
  have hhash : (Interpreter.hash (eve.get "event_type") : Except Failure Unit) = .ok () := by
    rw [EventType.eq_of_ofJson? het]
    rfl
  cases et with
  | http => rfl
  | flow =>
    simp only [typedRow, normalize, hhash, het]
    cases flowRow lib eve tenant (injectIdentity eve sensor) <;> rfl
  | tls =>
    simp only [typedRow, normalize, hhash, het]
    cases tlsRow lib eve tenant (injectIdentity eve sensor) <;> rfl
  | dns =>
    simp only [typedRow, normalize, hhash, het]
    cases dnsRow lib eve tenant (injectIdentity eve sensor) version <;> rfl

theorem raisesOnly_typedRow (het : EventType.ofJson? (eve.get "event_type") = some et) :
    RaisesOnly IsQuarantine (typedRow lib et eve tenant sensor version) ↔
      RowReadable lib version et eve := by
  rw [typedRow_eq het]
  cases et with
  | flow => exact (raisesOnly_iff_exists (strict_flowRow lib eve tenant _)).trans exists_flowRow
  | tls => exact (raisesOnly_iff_exists (strict_tlsRow lib eve tenant _)).trans exists_tlsRow
  | dns => exact raisesOnly_dnsRow
  | http => exact iff_of_true (raisesOnly_ok _) trivial

theorem exists_typedRow (het : EventType.ofJson? (eve.get "event_type") = some et) :
    (∃ row, typedRow lib et eve tenant sensor version = .ok row) ↔
      RowReadable lib version et eve ∧ ¬ Misversioned lib version et eve := by
  rw [typedRow_eq het]
  cases et with
  | flow =>
    refine exists_flowRow.trans (iff_self_and.mpr ?_)
    rintro - ⟨h, -⟩
    cases h
  | tls =>
    refine exists_tlsRow.trans (iff_self_and.mpr ?_)
    rintro - ⟨h, -⟩
    cases h
  | dns =>
    refine exists_dnsRow.trans (and_congr_right fun _ => ?_)
    simp [Misversioned]
  | http =>
    refine iff_of_true ⟨_, rfl⟩ ⟨trivial, ?_⟩
    rintro ⟨h, -⟩
    cases h

end Rows

/-! ### Observations -/

theorem datetime_str (s : String) :
    datetime lib (.str s) =
      quarantined "invalid or missing observation timestamp" (lib.parseUtc (replaceZ s)) := rfl

theorem datetime_of_not_str (h : ∀ s, v ≠ .str s) :
    datetime lib v = .error (.own (.quarantine "invalid or missing observation timestamp")) := by
  cases v with
  | str s => exact absurd rfl (h s)
  | _ => rfl

/-- A timestamp is quarantined, unless it is read as an instant that is no date. -/
theorem raisesOnly_datetime : RaisesOnly IsQuarantine (datetime lib v) ↔
    ∀ s, v = .str s → ∀ t, lib.Reads s t → InYears t := by
  by_cases h : ∃ s, v = .str s
  · obtain ⟨s, rfl⟩ := h
    rw [datetime_str, raisesOnly_parse]
    simp
  · rw [datetime_of_not_str fun s hs => h ⟨s, hs⟩]
    exact iff_of_true (raisesOnly_error.mpr isQuarantine_own) fun s hs => absurd ⟨s, hs⟩ h

theorem exists_datetime : (∃ t, datetime lib v = .ok t) ↔
    ∃ s t, v = .str s ∧ lib.Reads s t ∧ InYears t := by
  by_cases h : ∃ s, v = .str s
  · obtain ⟨s, rfl⟩ := h
    simp [datetime_str, quarantined_eq_ok, parseUtc_ok_iff]
  · rw [datetime_of_not_str fun s hs => h ⟨s, hs⟩]
    refine iff_of_false ?_ ?_
    · rintro ⟨t, ht⟩
      cases ht
    · rintro ⟨s, -, hs, -⟩
      exact h ⟨s, hs⟩

/-- The members that are copied. -/
def copied (eve : Dict) : Dict := copiedKeys.filterMap fun key => (eve.get? key).map fun v => (key, v)

theorem forall_copied {P : Json → Prop} (hnull : P .null) :
    (∀ m ∈ copied eve, P m.2) ↔ ∀ key ∈ copiedKeys, P (eve.get key) := by
  simp only [copied, List.mem_filterMap, Option.map_eq_some_iff]
  constructor
  · intro h key hkey
    cases hget : eve.get? key with
    | none =>
      rw [Dict.get, hget]
      exact hnull
    | some v =>
      rw [Dict.get_of_get? hget]
      exact h (key, v) ⟨key, hkey, v, hget, rfl⟩
  · rintro h m ⟨key, hkey, v, hget, rfl⟩
    rw [← Dict.get_of_get? hget]
    exact h key hkey

theorem strict_copiedFields (lib : Library) (eve : Dict) : Strict (copiedFields lib eve) :=
  strict_mapM (fun _ => (strict_deepcopy lib _).bind fun _ => strict_ok _) _

theorem copiedFields_eq_ok {fields : Dict} : copiedFields lib eve = .ok fields ↔
    (∀ key ∈ copiedKeys, (eve.get key).depth ≤ lib.copyRoom) ∧ fields = copied eve := by
  have hone : ∀ m m' : String × Json, (do
      let v ← lib.deepcopy m.2
      return (m.1, v) : Except Failure (String × Json)) = .ok m' ↔
        m.2.depth ≤ lib.copyRoom ∧ m' = m := by
    intro m m'
    rw [bind_eq_ok]
    constructor
    · rintro ⟨w, hw, hm⟩
      obtain ⟨hdepth, rfl⟩ := deepcopy_eq_ok.mp hw
      cases hm
      exact ⟨hdepth, rfl⟩
    · rintro ⟨hdepth, rfl⟩
      exact ⟨m'.2, deepcopy_eq_ok.mpr ⟨hdepth, rfl⟩, rfl⟩
  rw [copiedFields, mapM_eq_ok, ← forall_copied (P := fun v => v.depth ≤ lib.copyRoom) (Nat.zero_le _)]
  simp only [hone]
  show List.Forall₂ _ (copied eve) fields ↔ _
  generalize copied eve = ms
  induction ms generalizing fields with
  | nil => simp
  | cons m ms ih =>
    rw [List.forall₂_cons_left_iff]
    constructor
    · rintro ⟨m', fields', ⟨hm, rfl⟩, hrest, rfl⟩
      obtain ⟨hms, rfl⟩ := ih.mp hrest
      exact ⟨List.forall_mem_cons.mpr ⟨hm, hms⟩, rfl⟩
    · rintro ⟨hall, rfl⟩
      obtain ⟨hm, hms⟩ := List.forall_mem_cons.mp hall
      exact ⟨m, ms, ⟨hm, rfl⟩, ih.mpr ⟨hms, rfl⟩, rfl⟩

theorem payloadOf_eq_ok {et : EventType} {payload : Dict} :
    payloadOf et eve = .ok payload ↔
      eve.get et.name = .obj payload ∧ ∃ m ms, payload = m :: ms := by
  unfold payloadOf
  split
  · next m ms h =>
    rw [h]
    constructor
    · rintro ⟨⟩
      exact ⟨rfl, m, ms, rfl⟩
    · rintro ⟨hp, -⟩
      cases hp
      rfl
  · next hnot =>
    refine iff_of_false (by simp) ?_
    rintro ⟨hp, m, ms, rfl⟩
    exact hnot m ms hp

theorem raisesOnly_payloadOf (et : EventType) (eve : Dict) :
    RaisesOnly IsQuarantine (payloadOf et eve) := by
  unfold payloadOf
  split <;> simp

/-- The payload is there, or the record is quarantined. -/
theorem raisesOnly_bind_payloadOf {β : Type} {et : EventType} {g : Dict → Except Failure β}
    {A : Dict → Prop}
    (hg : ∀ payload, eve.get et.name = .obj payload →
      (RaisesOnly IsQuarantine (g payload) ↔ A payload)) :
    RaisesOnly IsQuarantine (payloadOf et eve >>= g) ↔
      ∀ m ms, eve.get et.name = .obj (m :: ms) → A (m :: ms) := by
  rw [raisesOnly_bind, and_iff_right (raisesOnly_payloadOf et eve)]
  simp only [payloadOf_eq_ok]
  constructor
  · exact fun h m ms hget => (hg (m :: ms) hget).mp (h (m :: ms) ⟨hget, m, ms, rfl⟩)
  · rintro h payload ⟨hget, m, ms, rfl⟩
    exact (hg (m :: ms) hget).mpr (h m ms hget)

/-! ### The document -/

theorem entities_flat (eve : Dict) : ∀ x ∈ entities eve, x.depth ≤ 1 ∧ x.finite = true := by
  intro x hx
  obtain ⟨⟨key, role⟩, -, hx⟩ := List.mem_filterMap.mp hx
  dsimp only at hx
  cases hget : eve.get key with
  | str ip =>
    rw [hget] at hx
    by_cases hip : ip = ""
    · simp [hip] at hx
    · simp only [hip, if_false, Option.some.injEq] at hx
      subst hx
      exact ⟨by simp [depth, depth.members], by simp [finite, finite.members]⟩
  | _ => simp [hget] at hx

theorem capabilities_flat (et : EventType) (fields payload : Dict) :
    ∀ x ∈ capabilities et fields payload, x.depth ≤ 0 ∧ x.finite = true := by
  intro x hx
  obtain ⟨name, -, rfl⟩ := List.mem_map.mp hx
  exact ⟨le_rfl, rfl⟩

section Document
variable {c : Coordinates} {et : EventType} {sensor obsId ingested rawHash time : String}
  {fields payload : Dict}

/-- An observation is two levels deeper than what it copies. -/
theorem depth_document {n : Nat} (hn : 8 ≤ n) (htime : eve.get "timestamp" = .str time) :
    (Json.obj (document c et eve tenant sensor obsId ingested rawHash fields payload)).depth ≤ n ↔
      ∀ m ∈ fields, m.2.depth + 2 ≤ n := by
  have hentities : depth.items (entities eve) ≤ 1 :=
    depth_items_le.mpr fun x hx => (entities_flat eve x hx).1
  have hcapabilities : depth.items (capabilities et fields payload) ≤ 0 :=
    depth_items_le.mpr fun x hx => (capabilities_flat et fields payload x hx).1
  have hfields : depth.members fields ≤ n - 2 ↔ ∀ m ∈ fields, m.2.depth + 2 ≤ n := by
    rw [depth_members_le]
    exact forall₂_congr fun m _ => by omega
  rw [← hfields]
  simp only [document, timesOf, sourceRef, htime, depth, depth.members]
  omega

theorem finite_document (htime : eve.get "timestamp" = .str time)
    (hfields : ∀ m ∈ fields, m.2.finite = true) :
    (Json.obj (document c et eve tenant sensor obsId ingested rawHash fields payload)).finite =
      true := by
  have hentities : finite.items (entities eve) = true :=
    finite_items.mpr fun x hx => (entities_flat eve x hx).2
  have hcapabilities : finite.items (capabilities et fields payload) = true :=
    finite_items.mpr fun x hx => (capabilities_flat et fields payload x hx).2
  have hmembers : finite.members fields = true := finite_members.mpr hfields
  simp [document, timesOf, sourceRef, htime, finite, finite.members, hentities, hcapabilities,
    hmembers]

end Document

/-- **The normalizer.** Nothing but a quarantine is raised for an object,
    exactly when it is harmless. -/
theorem raisesOnly_observation {cfg : Config} {c : Coordinates} {ingested : Int}
    (hingested : lib.parseUtc (replaceZ (lib.isoformat ingested)) = .ok ingested) :
    RaisesOnly IsQuarantine (observation lib (.obj eve) cfg.tenant cfg.sensor cfg.dnsVersion c
      (lib.isoformat ingested)) ↔ Harmless lib cfg eve := by
  have hingest : datetime lib (.str (lib.isoformat ingested)) = .ok ingested := by
    rw [datetime_str, quarantined_eq_ok]
    exact hingested
  rw [Harmless, ← exists_hash_eq_ok, observation]
  show RaisesOnly IsQuarantine (Interpreter.hash (eve.get "event_type") >>= _) ↔ _
  refine raisesOnly_bind_iff_of_strict (strict_hash _) fun _ _ => ?_
  cases het : EventType.ofJson? (eve.get "event_type") with
  | none => simp
  | some et =>
    simp only [Option.some.injEq, forall_eq']
    refine (raisesOnly_bind_iff (C := ∀ s, eve.get "timestamp" = .str s → ∀ t, lib.Reads s t →
      InYears t ∧ RowReadable lib cfg.dnsVersion et eve ∧
        (¬ Misversioned lib cfg.dnsVersion et eve → RecordFits lib et eve))
      fun sensor _ => ?_).trans ?_
    swap
    · rw [exists_identity_eq_ok]
      exact and_iff_right (raisesOnly_identity eve cfg.tenant cfg.sensor)
    refine (raisesOnly_bind_iff (C := RowReadable lib cfg.dnsVersion et eve ∧
      (¬ Misversioned lib cfg.dnsVersion et eve → RecordFits lib et eve)) fun t ht => ?_).trans ?_
    swap
    · rw [raisesOnly_datetime, exists_datetime]
      constructor
      · rintro ⟨hin, hrest⟩ s hs t ht
        exact ⟨hin s hs t ht, hrest ⟨s, t, hs, ht, hin s hs t ht⟩⟩
      · intro h
        refine ⟨fun s hs t ht => (h s hs t ht).1, ?_⟩
        rintro ⟨s, t, hs, ht, -⟩
        exact (h s hs t ht).2
    obtain ⟨time, -, htime, -, -⟩ := exists_datetime.mp ⟨t, ht⟩
    rw [hingest]
    show RaisesOnly IsQuarantine (typedRow lib et eve cfg.tenant sensor cfg.dnsVersion >>= _) ↔ _
    refine (raisesOnly_bind_iff (C := RecordFits lib et eve) fun row _ => ?_).trans ?_
    swap
    · rw [raisesOnly_typedRow het, exists_typedRow het]
      exact and_congr_right fun hread => ⟨fun h hver => h ⟨hread, hver⟩, fun h hok => h hok.2⟩
    rw [RecordFits, ← exists_canonicalJson_eq_ok]
    refine raisesOnly_bind_iff_of_strict (strict_canonicalJson lib _) fun raw hraw => ?_
    obtain ⟨-, hfinite, -⟩ := canonicalJson_eq_ok.mp hraw
    obtain ⟨obsId, hobsId⟩ := exists_obsId lib c cfg.tenant sensor
    rw [hobsId]
    show RaisesOnly IsQuarantine (copiedFields lib eve >>= _) ↔ _
    refine (raisesOnly_bind_iff_of_strict (C := ∀ m ms, eve.get et.name = .obj (m :: ms) →
      (Json.obj (m :: ms)).depth ≤ lib.copyRoom ∧ (Json.obj (m :: ms)).depth + 2 ≤ lib.dumpsRoom ∧
        ∀ key ∈ copiedKeys, (eve.get key).depth + 2 ≤ lib.dumpsRoom)
      (strict_copiedFields lib eve) fun fields hfields => ?_).trans ?_
    swap
    · simp [copiedFields_eq_ok]
    obtain ⟨-, rfl⟩ := copiedFields_eq_ok.mp hfields
    refine raisesOnly_bind_payloadOf (A := fun payload => (Json.obj payload).depth ≤ lib.copyRoom ∧
      (Json.obj payload).depth + 2 ≤ lib.dumpsRoom ∧
        ∀ key ∈ copiedKeys, (eve.get key).depth + 2 ≤ lib.dumpsRoom) fun payload hget => ?_
    refine (raisesOnly_bind_iff_of_strict (strict_deepcopy lib _) fun evidence hevidence => ?_).trans
      (and_congr_left' ?_)
    swap
    · simp [deepcopy_eq_ok]
    obtain ⟨-, rfl⟩ := deepcopy_eq_ok.mp hevidence
    have hmembers : ∀ m ∈ copied eve ++ [(et.name, Json.obj payload)], m.2.finite = true := by
      have hall : ∀ key, (eve.get key).finite = true := by
        intro key
        by_cases hnull : eve.get key = .null
        · rw [hnull]
          rfl
        · exact finite_members.mp hfinite _ (Dict.mem_of_get hnull)
      refine List.forall_mem_append.mpr ⟨?_, ?_⟩
      · exact (forall_copied (P := fun v => v.finite = true) rfl).mpr fun key _ => hall key
      · exact List.forall_mem_singleton.mpr (hget ▸ hall et.name)
    refine (raisesOnly_bind_iff_of_strict (C := True) (strict_canonicalJson lib _)
      fun text _ => iff_true_intro (raisesOnly_pure _)).trans ?_
    rw [and_true, exists_canonicalJson_eq_ok, depth_document lib.dumpsRoom_pos htime,
      and_iff_left (finite_document htime hmembers), List.forall_mem_append,
      forall_copied (P := fun v => v.depth + 2 ≤ lib.dumpsRoom)
        ((Nat.le_add_left 2 6).trans lib.dumpsRoom_pos), List.forall_mem_singleton, and_comm]

/-- A round of the loop ends exactly when nothing but a quarantine is raised. -/
theorem exists_handle {cfg : Config} {now : LocalTime} {c : Coordinates} {run : Run} {r : Record} :
    (∃ run', handle lib cfg now c run r = .ok run') ↔ RaisesOnly IsQuarantine (observe lib cfg c r) := by
  unfold handle
  split
  · next o h => simp [h]
  · next h => simp [h]
  · next m h => simp [h]
  · next e hnot h =>
    rw [h, raisesOnly_error]
    refine iff_of_false (by simp) ?_
    rintro ⟨m, rfl⟩
    exact hnot m rfl

/-- A round of the loop over an object with valid metadata. -/
theorem exists_handle_iff {cfg : Config} {now : LocalTime} {c : Coordinates} {run : Run}
    {r : Record} (hmeta : ValidMetadata lib r.timestampType r.timestamp)
    (hvalue : r.value = some (.obj eve)) :
    (∃ run', handle lib cfg now c run r = .ok run') ↔ Harmless lib cfg eve := by
  obtain ⟨htype, ms, t, htime, hms, hfrom, hreads⟩ := hmeta
  have hbad : ¬ (r.timestampType ≠ 1 ∨ ms < 0) := by
    rw [htype]
    omega
  rw [exists_handle, ← raisesOnly_observation hreads, observe, htime]
  simp only [if_neg hbad, hvalue, hfrom]
  rfl

end Normalizer

namespace FileObserver

open Json Ingest Interpreter Except

variable {lib : Library} {v : Json} {eve fi : Dict} {tenant cfgSensor : String} {c : Coordinates}

/-- What `hash_is_complete` converts. -/
def CompleteReadable (lib : Library) (fi : Dict) : Prop :=
  (fi.get "sha256").truthy = true →
    (fi.getD "state" (.str "")).depth ≤ lib.reprRoom ∧
      (lib.upper (lib.shown (fi.getD "state" (.str ""))) = "CLOSED" → fi.get "gaps" = .bool false →
        ∀ negative, fi.get "start" ≠ .infinity negative)

/-- The identifiers of which `file_fields` makes texts. -/
def ReferencesReadable (lib : Library) (eve fi : Dict) : Prop :=
  (fi.getD "tx_id" (eve.get "tx_id")).depth ≤ lib.reprRoom ∧
    ((eve.get "flow_id").truthy = true → (eve.get "flow_id").depth ≤ lib.reprRoom)

/-- The value is appended, passed over or quarantined. -/
def Harmless (lib : Library) (tenant cfgSensor : String) (v : Json) : Prop :=
  ∀ eve : Dict, v = .obj eve → eve.get "event_type" = .str "fileinfo" →
    ∀ fi : Dict, eve.get "fileinfo" = .obj fi → fi ≠ [] → Identified eve tenant cfgSensor →
      (eve.get "timestamp").depth ≤ lib.reprRoom ∧
        ∀ t, lib.Reads (lib.shown (eve.get "timestamp")) t →
          InYears t ∧ CompleteReadable lib fi ∧
            ((Json.obj eve).depth ≤ lib.dumpsRoom ∧ (Json.obj eve).finite = true) ∧
              ReferencesReadable lib eve fi

/-- The bytes are appended, passed over or skipped as poison. -/
def HarmlessBytes (lib : Library) (tenant cfgSensor : String) (value : Option (List UInt8)) :
    Prop :=
  ∀ bytes, value = some bytes →
    match lib.loads bytes with
    | .value v => Harmless lib tenant cfgSensor v
    | .malformed => True
    | .digits | .recursion => False

/-! ### The conversions -/

theorem strict_hashIsComplete (lib : Library) (fi : Dict) : Strict (hashIsComplete lib fi) := by
  unfold hashIsComplete
  split
  · exact strict_ok _
  · refine (strict_str lib.toLibrary _).bind fun state => ?_
    split
    · exact strict_ok _
    · split
      · exact strict_ok _
      · split
        · exact strict_ok _
        · split
          · exact strict_ok _
          · exact strict_ok _
          · exact strict_ok _
          · next e _ _ h => exact raisesOnly_throw.mpr (strict_int lib.toLibrary _ e h)

theorem beq_bool_false : v.beq (.bool false) = true ↔ v = .bool false := by
  cases v with
  | bool b => cases b <;> simp [beq]
  | _ => simp [beq]

theorem beq_str {s : String} : v.beq (.str s) = true ↔ v = .str s := by
  cases v <;> simp [beq]

theorem exists_hashIsComplete :
    (∃ b, hashIsComplete lib fi = .ok b) ↔ CompleteReadable lib fi := by
  unfold hashIsComplete CompleteReadable
  cases hsha : (fi.get "sha256").truthy with
  | false => simp
  | true =>
    simp only [Bool.not_true, Bool.false_eq_true, if_false, forall_const, exists_bind_eq_ok,
      str_eq_ok, and_assoc, exists_and_left, exists_eq_left]
    refine and_congr_right fun _ => ?_
    by_cases hclosed : lib.upper (lib.shown (fi.getD "state" (.str ""))) = "CLOSED"
    · by_cases hgaps : fi.get "gaps" = .bool false
      · simp only [hclosed, ne_eq, not_true, if_false, hgaps, beq_bool_false.mpr rfl, forall_const]
        cases hstart : fi.get "start" with
        | infinity negative => simp [Interpreter.int]
        | null => exact iff_of_true ⟨_, rfl⟩ (by simp)
        | str s =>
          refine iff_of_true ?_ (by simp)
          cases hint : lib.intOfText s with
          | none => exact ⟨false, by simp only [Interpreter.int, hint]; rfl⟩
          | some n => exact ⟨decide (n = 0), by simp only [Interpreter.int, hint]; rfl⟩
        | _ => exact iff_of_true ⟨_, rfl⟩ (by simp)
      · have hbeq : (fi.get "gaps").beq (.bool false) = false := by
          rw [← Bool.not_eq_true, beq_bool_false]
          exact hgaps
        refine iff_of_true ⟨false, ?_⟩ fun _ h => absurd h hgaps
        simp only [hclosed, ne_eq, not_true, if_false, hbeq, Bool.not_false, if_true]
        rfl
    · refine iff_of_true ⟨false, ?_⟩ fun h => absurd h hclosed
      simp only [hclosed, ne_eq, not_false_eq_true, if_true]
      rfl

theorem strict_reference (lib : Library) (label : String) (v : Json) :
    Strict (reference lib label v) :=
  (strict_str lib.toLibrary v).bind fun _ => strict_ok _

theorem exists_reference {label : String} :
    (∃ j, reference lib label v = .ok j) ↔ v.depth ≤ lib.reprRoom := by
  rw [reference, exists_bind_eq_ok, ← @exists_str_eq_ok Own]
  exact exists_congr fun s => ⟨fun h => h.1, fun h => ⟨h, _, rfl⟩⟩

/-- A malformed digest is quarantined. -/
theorem raisesOnly_digests (lib : Library) (fi : Dict) :
    RaisesOnly IsQuarantine (digests lib fi) := by
  have hone : ∀ found alg, RaisesOnly IsQuarantine (digest lib fi found alg) := by
    intro found alg
    unfold digest
    split
    · exact raisesOnly_ok _
    · split
      · split <;> simp
      · simp
  rw [digests]
  simp only [List.foldlM_cons, List.foldlM_nil]
  exact raisesOnly_bind.mpr ⟨hone _ _, fun _ _ => raisesOnly_bind.mpr ⟨hone _ _, fun _ _ =>
    raisesOnly_bind.mpr ⟨hone _ _, fun _ _ => raisesOnly_pure _⟩⟩⟩

/-- A value of no depth and without a float. -/
def Flat (v : Json) : Prop := v.depth ≤ 0 ∧ v.finite = true

theorem flat_null : Flat .null := ⟨le_rfl, rfl⟩

theorem flat_str (s : String) : Flat (.str s) := ⟨le_rfl, rfl⟩

theorem flat_digests {found : Dict} (h : digests lib fi = .ok found) : ∀ m ∈ found, Flat m.2 := by
  refine foldlM_invariant (P := fun _ found => ∀ m ∈ found, Flat m.2) ?_ (by simp) h
  intro _ alg start next _ hstart hstep
  unfold digest at hstep
  split at hstep
  · cases hstep
    exact hstart
  · split at hstep
    · split at hstep
      · cases hstep
        exact List.forall_mem_append.mpr ⟨hstart, List.forall_mem_singleton.mpr (flat_str _)⟩
      · cases hstep
    · cases hstep

theorem flat_strOrNull (v : Json) : Flat (strOrNull v) := by
  unfold strOrNull
  split
  · split
    · exact ⟨le_rfl, rfl⟩
    · exact flat_str _
  · exact ⟨le_rfl, rfl⟩

theorem flat_u64 (v : Json) : Flat (u64 v) := by
  unfold u64
  split
  · split
    · exact ⟨le_rfl, rfl⟩
    · exact ⟨le_rfl, rfl⟩
  · exact ⟨le_rfl, rfl⟩

theorem flat_reference {label : String} {j : Json} (h : reference lib label v = .ok j) :
    Flat j := by
  obtain ⟨s, -, h⟩ := bind_eq_ok.mp h
  cases h
  exact flat_str _

theorem raisesOnly_transferRef {txId : Json} :
    RaisesOnly IsQuarantine (transferRef lib txId) ↔ txId.depth ≤ lib.reprRoom := by
  cases txId with
  | null => exact iff_of_true (raisesOnly_ok _) (Nat.zero_le _)
  | _ => exact (raisesOnly_iff_exists (strict_reference lib _ _)).trans exists_reference

theorem flat_transferRef {txId j : Json} (h : transferRef lib txId = .ok j) : Flat j := by
  cases txId with
  | null =>
    cases h
    exact ⟨le_rfl, rfl⟩
  | _ => exact flat_reference h

theorem raisesOnly_sessionRef :
    RaisesOnly IsQuarantine (sessionRef lib eve) ↔
      ((eve.get "flow_id").truthy = true → (eve.get "flow_id").depth ≤ lib.reprRoom) := by
  unfold sessionRef
  split
  · next h =>
    rw [raisesOnly_iff_exists (strict_reference lib _ _), exists_reference]
    simp [h]
  · next h => exact iff_of_true (raisesOnly_ok _) fun ht => absurd ht h

theorem flat_sessionRef {j : Json} (h : sessionRef lib eve = .ok j) : Flat j := by
  unfold sessionRef at h
  split at h
  · exact flat_reference h
  · cases h
    exact flat_strOrNull _

theorem exists_transferRef (h : (fi.getD "tx_id" (eve.get "tx_id")).depth ≤ lib.reprRoom) :
    ∃ j, transferRef lib (fi.getD "tx_id" (eve.get "tx_id")) = .ok j := by
  cases htx : fi.getD "tx_id" (eve.get "tx_id") with
  | null => exact ⟨_, rfl⟩
  | _ => exact exists_reference.mpr (htx ▸ h)

/-- The fields of a file are quarantined, unless an identifier is too deep. -/
theorem raisesOnly_fileFields {sensorTs state : String} :
    RaisesOnly IsQuarantine (fileFields lib eve fi sensorTs state) ↔
      ReferencesReadable lib eve fi := by
  have hattached : RaisesOnly IsQuarantine (attached lib fi state) := by
    unfold attached
    split
    · exact raisesOnly_digests lib fi
    · exact raisesOnly_ok _
  rw [fileFields, raisesOnly_bind_iff (C := (eve.get "flow_id").truthy = true →
    (eve.get "flow_id").depth ≤ lib.reprRoom) fun transfer _ => ?_, raisesOnly_transferRef,
    ReferencesReadable]
  · exact and_congr_right fun htx => forall_prop_of_true (exists_transferRef htx)
  · rw [raisesOnly_bind_iff (C := True) fun session _ => ?_, raisesOnly_sessionRef]
    · simp
    · exact iff_true_intro (raisesOnly_bind.mpr ⟨hattached, fun _ _ => raisesOnly_pure _⟩)

theorem flat_fileFields {sensorTs state : String} {file : Dict}
    (h : fileFields lib eve fi sensorTs state = .ok file) : ∀ m ∈ file, Flat m.2 := by
  obtain ⟨transfer, htransfer, h⟩ := bind_eq_ok.mp h
  obtain ⟨session, hsession, h⟩ := bind_eq_ok.mp h
  obtain ⟨hashes, hhashes, h⟩ := bind_eq_ok.mp h
  have hflat : ∀ m ∈ hashes, Flat m.2 := by
    unfold attached at hhashes
    split at hhashes
    · exact flat_digests hhashes
    · cases hhashes
      simp
  cases h
  refine List.forall_mem_append.mpr ⟨?_, hflat⟩
  simp only [List.forall_mem_cons]
  exact ⟨flat_str _, flat_str _, flat_str _, flat_strOrNull _, flat_u64 _, flat_strOrNull _,
    flat_transferRef htransfer, flat_sessionRef hsession, flat_null, flat_null, by simp⟩

/-- The observation of a file is written whatever the record holds. -/
theorem exists_encoded {sensor obsId sensorTs ingested rawHash : String} {file : Dict}
    (h : ∀ m ∈ file, Flat m.2) :
    ∃ text, (lib.canonicalJson (document c eve tenant sensor obsId sensorTs ingested rawHash file) :
      Except Failure _) = .ok text := by
  have hroom := lib.dumpsRoom_pos
  have hentities : depth.items (entities eve) ≤ 1 :=
    depth_items_le.mpr fun x hx => (Normalizer.entities_flat eve x hx).1
  have hfile : depth.members file ≤ 0 := depth_members_le.mpr fun m hm => (h m hm).1
  have hfinite : finite.items (entities eve) = true :=
    finite_items.mpr fun x hx => (Normalizer.entities_flat eve x hx).2
  have hfileFinite : finite.members file = true := finite_members.mpr fun m hm => (h m hm).2
  refine exists_canonicalJson_eq_ok.mpr ⟨?_, ?_⟩
  · simp only [document, depth, depth.members, depth.items]
    omega
  · simp [document, finite, finite.members, finite.items, hfinite, hfileFinite]

/-! ### Observations -/

theorem datetime_of_deep (h : ¬ v.depth ≤ lib.reprRoom) : datetime lib v = .error .recursion := by
  have hstr : (lib.str v : Except Failure String) = .error .recursion := by
    rw [Interpreter.str, if_neg h]
  rw [datetime, hstr]
  rfl

theorem datetime_of_shown (h : v.depth ≤ lib.reprRoom) :
    datetime lib v = quarantined "invalid or missing observation timestamp"
      (lib.parseUtc (replaceZ (lib.shown v))) := by
  rw [datetime, (@str_eq_ok Own _ _ _).mpr ⟨h, rfl⟩]
  rfl

/-- A timestamp is quarantined, unless it is too deep or is read as an instant
    that is no date. -/
theorem raisesOnly_datetime : RaisesOnly IsQuarantine (datetime lib v) ↔
    v.depth ≤ lib.reprRoom ∧ ∀ t, lib.Reads (lib.shown v) t → InYears t := by
  by_cases h : v.depth ≤ lib.reprRoom
  · rw [datetime_of_shown h, raisesOnly_parse, and_iff_right h]
  · rw [datetime_of_deep h, raisesOnly_error]
    exact iff_of_false (not_isQuarantine (by simp)) fun hr => h hr.1

theorem datetime_eq_ok {t : Int} : datetime lib v = .ok t ↔
    v.depth ≤ lib.reprRoom ∧ lib.Reads (lib.shown v) t ∧ InYears t := by
  by_cases h : v.depth ≤ lib.reprRoom
  · rw [datetime_of_shown h, quarantined_eq_ok, parseUtc_ok_iff, and_iff_right h]
  · rw [datetime_of_deep h]
    exact iff_of_false (by simp) fun hr => h hr.1

theorem fileinfoOf_eq_ok : fileinfoOf eve = .ok fi ↔ eve.get "fileinfo" = .obj fi ∧ fi ≠ [] := by
  unfold fileinfoOf
  split
  · next m ms h =>
    rw [h]
    constructor
    · rintro ⟨⟩
      exact ⟨rfl, List.cons_ne_nil m ms⟩
    · rintro ⟨hfi, -⟩
      cases hfi
      rfl
  · next hnot =>
    refine iff_of_false (by simp) ?_
    rintro ⟨hget, hne⟩
    obtain ⟨m, ms, rfl⟩ := List.exists_cons_of_ne_nil hne
    exact hnot m ms hget

theorem raisesOnly_fileinfoOf (eve : Dict) : RaisesOnly IsQuarantine (fileinfoOf eve) := by
  unfold fileinfoOf
  split <;> simp

/-- What is raised behind the checks of the record. -/
theorem raisesOnly_event {ingested : Int}
    (hingested : lib.parseUtc (replaceZ (lib.isoformat ingested)) = .ok ingested) :
    RaisesOnly IsQuarantine (eventObservation lib eve tenant cfgSensor c (lib.isoformat ingested)) ↔
      Harmless lib tenant cfgSensor (.obj eve) := by
  have hingest : datetime lib (.str (lib.isoformat ingested)) = .ok ingested := by
    rw [datetime_of_shown (Nat.zero_le _), quarantined_eq_ok]
    exact hingested
  unfold eventObservation Harmless
  split
  · next hevent =>
    refine iff_of_true (raisesOnly_ok _) ?_
    rintro eve' heve htype
    cases heve
    rw [beq_str.mpr htype] at hevent
    cases hevent
  · next hevent =>
    replace hevent : eve.get "event_type" = .str "fileinfo" := by
      apply beq_str.mp
      simpa using hevent
    simp only [Json.obj.injEq, forall_eq', hevent, forall_const]
    rw [raisesOnly_bind, and_iff_right (raisesOnly_fileinfoOf eve)]
    simp only [fileinfoOf_eq_ok]
    refine (forall_congr' fun fi => and_imp.trans ?_)
    refine forall₂_congr fun hfi hne => ?_
    refine (raisesOnly_bind_iff (C := (eve.get "timestamp").depth ≤ lib.reprRoom ∧
      ∀ t, lib.Reads (lib.shown (eve.get "timestamp")) t → InYears t ∧ CompleteReadable lib fi ∧
        ((Json.obj eve).depth ≤ lib.dumpsRoom ∧ (Json.obj eve).finite = true) ∧
          ReferencesReadable lib eve fi) fun sensor _ => ?_).trans ?_
    swap
    · rw [exists_identity_eq_ok]
      exact and_iff_right (raisesOnly_identity eve tenant cfgSensor)
    refine (raisesOnly_bind_iff (C := CompleteReadable lib fi ∧
      ((Json.obj eve).depth ≤ lib.dumpsRoom ∧ (Json.obj eve).finite = true) ∧
        ReferencesReadable lib eve fi) fun sensorTime _ => ?_).trans ?_
    swap
    · rw [raisesOnly_datetime]
      simp only [datetime_eq_ok]
      constructor
      · rintro ⟨⟨hdepth, hin⟩, hrest⟩
        exact ⟨hdepth, fun t ht => ⟨hin t ht, hrest ⟨t, hdepth, ht, hin t ht⟩⟩⟩
      · rintro ⟨hdepth, h⟩
        refine ⟨⟨hdepth, fun t ht => (h t ht).1⟩, ?_⟩
        rintro ⟨t, -, ht, -⟩
        exact (h t ht).2
    rw [hingest]
    show RaisesOnly IsQuarantine (hashIsComplete lib fi >>= _) ↔ _
    rw [← exists_hashIsComplete]
    refine raisesOnly_bind_iff_of_strict (strict_hashIsComplete lib fi) fun complete _ => ?_
    rw [← exists_canonicalJson_eq_ok]
    refine raisesOnly_bind_iff_of_strict (strict_canonicalJson lib.toLibrary _) fun raw _ => ?_
    obtain ⟨obsId, hobsId⟩ := exists_obsId lib.toLibrary c tenant sensor
    rw [hobsId]
    show RaisesOnly IsQuarantine (fileFields lib eve fi _ _ >>= _) ↔ _
    refine (raisesOnly_bind_iff (C := True) fun file hfile => iff_true_intro ?_).trans ?_
    swap
    · rw [raisesOnly_fileFields]
      simp
    -- the contract is violated, or the row is written
    split
    · exact raisesOnly_throw.mpr isQuarantine_own
    · refine raisesOnly_bind.mpr ⟨?_, fun _ _ => raisesOnly_pure _⟩
      exact (raisesOnly_iff_exists (strict_canonicalJson _ _)).mpr
        (exists_encoded (flat_fileFields hfile))

/-- **The file-observer.** Nothing but a quarantine is raised for a decoded
    value, exactly when it is harmless. -/
theorem raisesOnly_fileObservation {ingested : Int}
    (hingested : lib.parseUtc (replaceZ (lib.isoformat ingested)) = .ok ingested) :
    RaisesOnly IsQuarantine (fileObservation lib v tenant cfgSensor c (lib.isoformat ingested)) ↔
      Harmless lib tenant cfgSensor v := by
  by_cases hobj : ∃ eve, v = .obj eve
  · obtain ⟨eve, rfl⟩ := hobj
    exact raisesOnly_event hingested
  · have hquarantine : fileObservation lib v tenant cfgSensor c (lib.isoformat ingested) =
        .error (.own (.quarantine "record is not a JSON object")) := by
      cases v with
      | obj eve => exact absurd ⟨eve, rfl⟩ hobj
      | _ => rfl
    rw [hquarantine]
    exact iff_of_true (raisesOnly_error.mpr isQuarantine_own) fun eve heve => absurd ⟨eve, heve⟩ hobj

/-- What the loop catches. -/
def IsCaught (e : Failure) : Prop := IsQuarantine e ∨ e = .decode

theorem exists_handle {rows : List Row} {r : Record} :
    (∃ rows', handle lib tenant cfgSensor c rows r = .ok rows') ↔
      RaisesOnly IsCaught (observe lib tenant cfgSensor c r) := by
  unfold handle
  split
  · next row h => simp [h]
  · next h => simp [h]
  · next m h => simp [h, IsCaught]
  · next h => simp [h, IsCaught]
  · next e hown hdecode h =>
    rw [h, raisesOnly_error]
    refine iff_of_false (by simp) ?_
    rintro (⟨m, rfl⟩ | rfl)
    · exact hown m rfl
    · exact hdecode rfl

/-! ### NoDecode errors -/

/-- A call that raises no decoding error. -/
def NoDecode {α : Type} (x : Except Failure α) : Prop := RaisesOnly (fun e => e ≠ .decode) x

theorem NoDecode.bind {α β : Type} {x : Except Failure α} {g : α → Except Failure β}
    (hx : NoDecode x) (hg : ∀ a, NoDecode (g a)) : NoDecode (x >>= g) :=
  raisesOnly_bind.mpr ⟨hx, fun a _ => hg a⟩

theorem noDecode_ok {α : Type} (a : α) : NoDecode (.ok a) := raisesOnly_ok a

theorem noDecode_str (lib : Library) (v : Json) : NoDecode (lib.str v) := by
  unfold Interpreter.str
  split
  · exact noDecode_ok _
  · exact raisesOnly_error.mpr (by simp)

theorem noDecode_canonicalJson (lib : Library) (v : Json) : NoDecode (lib.canonicalJson v) := by
  unfold canonicalJson
  split
  · exact raisesOnly_error.mpr (by simp)
  · split
    · exact noDecode_ok _
    · exact raisesOnly_error.mpr (by simp)

/-- A part that raises quarantines only. -/
theorem noDecode_of_quarantine {α : Type} {x : Except Failure α}
    (h : RaisesOnly IsQuarantine x) : NoDecode x := by
  intro e he heq
  obtain ⟨m, hm⟩ := h e he
  rw [hm] at heq
  cases heq

theorem noDecode_quarantined {α : Type} (m : String) (x : Except Failure α) :
    NoDecode (quarantined m x) := by
  unfold quarantined
  split
  · exact raisesOnly_error.mpr (by simp)
  · exact raisesOnly_error.mpr (by simp)
  · exact raisesOnly_error.mpr (by simp)
  · exact raisesOnly_error.mpr (by simp)
  · exact raisesOnly_error.mpr (by simp)
  · next _ hdecode _ _ _ =>
    intro e he heq
    subst heq
    exact hdecode he

theorem noDecode_int (lib : Library) (v : Json) : NoDecode (lib.int v) := by
  cases v with
  | int n => exact noDecode_ok n
  | bool b => exact noDecode_ok _
  | float x => exact noDecode_ok _
  | str s =>
    rw [Interpreter.int]
    cases lib.intOfText s with
    | none => exact raisesOnly_error.mpr (by simp)
    | some n => exact noDecode_ok n
  | _ => exact raisesOnly_error.mpr (by simp)

theorem noDecode_hashIsComplete (lib : Library) (fi : Dict) : NoDecode (hashIsComplete lib fi) := by
  unfold hashIsComplete
  split
  · exact noDecode_ok _
  · refine (noDecode_str lib _).bind fun state => ?_
    split
    · exact noDecode_ok _
    · split
      · exact noDecode_ok _
      · split
        · exact noDecode_ok _
        · split
          · exact noDecode_ok _
          · exact noDecode_ok _
          · exact noDecode_ok _
          · next e _ _ h => exact raisesOnly_throw.mpr (noDecode_int lib _ e h)

theorem noDecode_reference (lib : Library) (label : String) (v : Json) :
    NoDecode (reference lib label v) :=
  (noDecode_str lib v).bind fun _ => noDecode_ok _

theorem noDecode_fileFields (lib : Library) (eve fi : Dict) (sensorTs state : String) :
    NoDecode (fileFields lib eve fi sensorTs state) := by
  refine NoDecode.bind ?_ fun _ => NoDecode.bind ?_ fun _ => NoDecode.bind ?_ fun _ => noDecode_ok _
  · cases fi.getD "tx_id" (eve.get "tx_id") with
    | null => exact noDecode_ok _
    | _ => exact noDecode_reference lib _ _
  · unfold sessionRef
    split
    · exact noDecode_reference lib _ _
    · exact noDecode_ok _
  · unfold attached
    split
    · exact noDecode_of_quarantine (raisesOnly_digests lib fi)
    · exact noDecode_ok _

theorem noDecode_event (lib : Library) (eve : Dict) (tenant cfgSensor : String) (c : Coordinates)
    (ingestedAt : String) : NoDecode (eventObservation lib eve tenant cfgSensor c ingestedAt) := by
  unfold eventObservation
  split
  · exact noDecode_ok _
  · refine (noDecode_of_quarantine (raisesOnly_fileinfoOf eve)).bind fun fi => ?_
    refine (noDecode_of_quarantine (raisesOnly_identity eve _ _)).bind fun sensor => ?_
    refine (noDecode_quarantined _ _).bind fun sensorTime => ?_
    refine (noDecode_quarantined _ _).bind fun ingestTime => ?_
    refine (noDecode_hashIsComplete lib fi).bind fun complete => ?_
    refine (noDecode_canonicalJson lib _).bind fun raw => ?_
    refine ((noDecode_canonicalJson lib _).bind fun _ => noDecode_ok _).bind fun obsId => ?_
    refine (noDecode_fileFields lib eve fi _ _).bind fun file => ?_
    dsimp only
    split
    · exact raisesOnly_throw.mpr (by simp)
    · exact (noDecode_canonicalJson lib _).bind fun _ => noDecode_ok _

/-- A value that was decoded raises no decoding error any more. -/
theorem raisesOnly_caught_iff {ingestedAt : String} :
    RaisesOnly IsCaught (fileObservation lib v tenant cfgSensor c ingestedAt) ↔
      RaisesOnly IsQuarantine (fileObservation lib v tenant cfgSensor c ingestedAt) := by
  have hdecode : NoDecode (fileObservation lib v tenant cfgSensor c ingestedAt) := by
    cases v with
    | obj eve => exact noDecode_event lib eve tenant cfgSensor c ingestedAt
    | _ => exact raisesOnly_error.mpr (by simp)
  constructor
  · exact fun h e he => (h e he).resolve_right (hdecode e he)
  · exact fun h e he => Or.inl (h e he)

/-- A round of the loop over a record with valid metadata. -/
theorem exists_handle_iff {rows : List Row} {r : Record}
    (hmeta : ValidMetadata lib.toLibrary r.timestampType r.timestamp) :
    (∃ rows', handle lib tenant cfgSensor c rows r = .ok rows') ↔
      HarmlessBytes lib tenant cfgSensor r.value := by
  obtain ⟨htype, ms, t, htime, hms, hfrom, hreads⟩ := hmeta
  have hgood : ¬ (r.timestampType ≠ 1 ∨ ms < 0) := by
    rw [htype]
    omega
  rw [exists_handle, observe, htime]
  simp only [if_neg hgood, hfrom]
  cases hvalue : r.value with
  | none =>
    refine iff_of_true (raisesOnly_throw.mpr (Or.inl isQuarantine_own)) ?_
    intro bytes hbytes
    cases hbytes
  | some bytes =>
    simp only [HarmlessBytes, Option.some.injEq, forall_eq']
    cases hloads : lib.loads bytes with
    | value v =>
      simp only [decode, hloads]
      exact raisesOnly_caught_iff.trans (raisesOnly_fileObservation hreads)
    | malformed =>
      simp only [decode, hloads]
      exact iff_of_true (raisesOnly_error.mpr (Or.inr rfl)) trivial
    | digits =>
      simp only [decode, hloads]
      exact iff_of_false (fun h => by simpa [IsCaught, IsQuarantine] using h _ rfl) id
    | recursion =>
      simp only [decode, hloads]
      exact iff_of_false (fun h => by simpa [IsCaught, IsQuarantine] using h _ rfl) id

end FileObserver

namespace Ingest

open Json

/-- **No poison.** The round of the file-observer over a record ends exactly
    when the bytes are harmless, the one of the normalizer over an object
    exactly when the object is. -/
theorem rounds_end_iff (lib : FileObserver.Library) (cfg : Normalizer.Config) (c : Coordinates)
    (rows : List FileObserver.Row) (file : FileObserver.Record)
    (hfile : ValidMetadata lib.toLibrary file.timestampType file.timestamp)
    (now : LocalTime) (run : Normalizer.Run) (r : Normalizer.Record) (eve : Dict)
    (hr : ValidMetadata lib.toLibrary r.timestampType r.timestamp)
    (hvalue : r.value = some (.obj eve)) :
    ((∃ rows', FileObserver.handle lib cfg.tenant cfg.sensor c rows file = .ok rows') ↔
        FileObserver.HarmlessBytes lib cfg.tenant cfg.sensor file.value) ∧
      ((∃ run', Normalizer.handle lib.toLibrary cfg now c run r = .ok run') ↔
        Normalizer.Harmless lib.toLibrary cfg eve) :=
  ⟨FileObserver.exists_handle_iff hfile, Normalizer.exists_handle_iff hr hvalue⟩

/-! ### Records -/

/-- A file that a sensor has seen before the year 1. -/
def yearZeroFile : Dict :=
  [("event_type", .str "fileinfo"), ("timestamp", .str "0001-01-01T00:00:00+01:00"),
    ("fileinfo", .obj [("filename", .str "a")])]

/-- The bytes of its text. -/
def yearZeroBytes : List UInt8 := (compact (.obj yearZeroFile)).map fun c => UInt8.ofNat c.toNat

def demoFiles : FileObserver.Library where
  toLibrary := Normalizer.demoLibrary
  loads bytes := if bytes = yearZeroBytes then .value (.obj yearZeroFile) else .malformed
  lower := id
  upper := id
  violation _ := none

def fileRecord : FileObserver.Record := ⟨some yearZeroBytes, 1, some 1790596801000⟩

/-- A flow that a sensor has seen before the year 1. -/
def yearZeroFlow : Dict :=
  [("event_type", .str "flow"), ("timestamp", .str "0001-01-01T00:00:00+01:00"),
    ("flow", .obj [("bytes_toserver", .int 1)])]

def objectRecord (eve : Dict) : Normalizer.Record := ⟨some (.obj eve), 1, some 1790596801000⟩

def idle : Normalizer.Run := ⟨fun _ => none, [], 0⟩

theorem validMetadata_demo :
    ValidMetadata demoFiles.toLibrary 1 (some 1790596801000) :=
  ⟨rfl, 1790596801000, 63926193601000000, rfl, by decide, rfl, rfl⟩

theorem year_zero_rounds :
    ((∃ rows', FileObserver.handle demoFiles "a" "s" ⟨"suricata.file.v1", 0, 0⟩ []
          fileRecord = .ok rows') ↔
        FileObserver.HarmlessBytes demoFiles "a" "s" fileRecord.value) ∧
      ((∃ run', Normalizer.handle demoFiles.toLibrary .demo ⟨0, none⟩ ⟨"suricata.file.v1", 0, 0⟩
          idle (objectRecord yearZeroFlow) = .ok run') ↔
        Normalizer.Harmless demoFiles.toLibrary .demo yearZeroFlow) :=
  rounds_end_iff demoFiles .demo _ [] _ validMetadata_demo _ idle _ yearZeroFlow
    validMetadata_demo rfl

theorem reads_year_zero :
    Normalizer.demoLibrary.Reads "0001-01-01T00:00:00+01:00" (-3600000000) :=
  ⟨0, 3600000000, rfl, rfl⟩

/-- `astimezone` raises `OverflowError`, which neither loop catches. -/
theorem year_zero_escapes :
    (¬ ∃ rows', FileObserver.handle demoFiles "a" "s" ⟨"suricata.file.v1", 0, 0⟩ [] fileRecord =
        .ok rows') ∧
      ¬ ∃ run', Normalizer.handle demoFiles.toLibrary .demo ⟨0, none⟩ ⟨"suricata.flow.v1", 0, 0⟩
        idle (objectRecord yearZeroFlow) = .ok run' := by
  constructor
  · rw [FileObserver.exists_handle_iff validMetadata_demo]
    intro h
    have hloads : demoFiles.loads yearZeroBytes = .value (.obj yearZeroFile) := by
      simp [demoFiles]
    have hvalue := h yearZeroBytes rfl
    rw [hloads] at hvalue
    have hyears := ((hvalue yearZeroFile rfl rfl [("filename", .str "a")] rfl (by simp)
      ⟨by decide, "s", rfl, by decide⟩).2 (-3600000000) reads_year_zero).1
    exact absurd hyears.1 (by decide)
  · rw [Normalizer.exists_handle_iff validMetadata_demo rfl]
    intro h
    have hyears := (h.2 .flow rfl ⟨by decide, "s", rfl, by decide⟩ "0001-01-01T00:00:00+01:00" rfl
      (-3600000000) reads_year_zero).1
    exact absurd hyears.1 (by decide)

end Ingest
