import CernityNdr.Detectors.Evaluate
import CernityNdr.Framework.Cumulative
import CernityNdr.Window.Fields

/-! # ICMP Exfiltration

    The flow branch of `_handle` of `protocol-detectors/app.py`. Every flow
    record of a pair adds its bytes to the counter of the pair; a record whose
    protocol is ICMP compares the counter with the threshold.

    * `total_before`: within one window the counter is the sum of the bytes of
      the records handled so far.
    * `icmp_exfil_adds_up`: what a candidate says about the records. -/

open CappedMap (FieldMap)
open InMemoryStore (SameHash)
open Behavioral (getD item dumps)

namespace ProtocolDetectors

/-! ### Parameters -/

/-- The process and the functions that `_handle` uses. -/
structure Env where
  tenant : String
  sshWindow : ℚ
  icmpWindow : ℚ
  isExternal : String → Bool
  /-- the reason of `port_proto_mismatch`, when it hits -/
  portProtoMismatch : Json → Json → Option String
  /-- `str` of a value that is no text -/
  repr : Json → String
  /-- `int` of a text or a float -/
  parseInt : Json → Option Int
  /-- `_stable` -/
  stable : String → Nat
  /-- the time of `strftime` -/
  gmtime : ℚ → String
  /-- `provenance.source_event` -/
  sourceEvent : Json.Dict → Json

variable (env : Env)

/-- `str(v)`. -/
def Env.str : Json → String
  | .str s => s
  | v => env.repr v

/-- `int(v)`, none when it raises. -/
def Env.int : Json → Option Int
  | .int n => some n
  | .bool b => some (if b then 1 else 0)
  | .null | .arr _ | .obj _ => none
  | v => env.parseInt v

/-- `is_external(v)`; it raises for what is no text, and nothing is emitted. -/
def Env.external : Json → Bool
  | .str s => env.isExternal s
  | _ => false

/-! ### Emission -/

structure Candidate where
  findingId : String
  tenantId : String
  detectorId : String
  detectorVersion : String
  category : String
  severity : Int
  confidence : ℚ
  firstSeen : String
  lastSeen : String
  entities : String
  state : String
  sourceEvents : List Json

/-- `_emit` at time `now`: the candidate when its emit-once key is fresh. -/
def emit (st : InMemoryStore) (e : Json.Dict) (now : ℚ) (detector category : String) (sev : Int)
    (conf : ℚ) (entities : String) : List Candidate × InMemoryStore :=
  let bucket := ⌊now / 3600⌋
  let (fresh, st) := st.dedupSeen ("emit:" ++ env.tenant ++ ":" ++ detector ++ ":" ++
    toString (env.stable entities % 10 ^ 12) ++ ":" ++ toString bucket) 3600 now
  if fresh then
    ([⟨detector ++ "-" ++ toString (env.stable entities % 10 ^ 10) ++ "-" ++ toString bucket,
      env.tenant, detector, "1.0", category, sev, conf, env.gmtime now, env.gmtime now, entities,
      "CANDIDATE", [env.sourceEvent e]⟩], st)
  else ([], st)

/-! ### The flow branch -/

/-- `_cid`. -/
def cid (e : Json.Dict) : List Json :=
  if (e.get "community_id").truthy then [item "community_id" none (e.get "community_id")] else []

/-- A protocol on the port of another one. -/
def checkPort (st : InMemoryStore) (e : Json.Dict) (now : ℚ) : List Candidate × InMemoryStore :=
  let src := e.get "src_ip"
  let dst := e.get "dest_ip"
  match env.portProtoMismatch ((e.get "app_proto").or (e.get "event_type")) (e.get "dest_port") with
  | none => ([], st)
  | some why =>
    if src.truthy && dst.truthy then
      emit env st e now "port_proto_mismatch" "defense_evasion" 4 (1 / 2)
        (dumps ([item "ip" (some "src") src, item "ip" (some "dst") dst,
          item "why" none (.str why)] ++ cid e))
    else ([], st)

/-- `ssh_brute_hit`. -/
def sshBruteHit (sessions : Int) : Bool := 15 ≤ sessions

def sshKey (src dst : Json) : String := "ssh:" ++ env.tenant ++ ":" ++ env.str src ++ "|" ++ env.str dst

/-- The sessions of a pair, counted at `now`. -/
def countSsh (st : InMemoryStore) (e : Json.Dict) (now later : ℚ) : List Candidate × InMemoryStore :=
  let src := e.get "src_ip"
  let dst := e.get "dest_ip"
  if (e.get "dest_port").beq (.int 22) && src.truthy && dst.truthy then
    let n := truncate (st.counterGet (sshKey env src dst) "c" now + 1)
    let st := st.counterAdd (sshKey env src dst) "c" 1 env.sshWindow now
    if sshBruteHit n then
      emit env st e later "ssh_bruteforce" "credential_access" 6 (3 / 5)
        (dumps [item "ip" (some "src") src, item "ip" (some "dst") dst,
          item "attempts" none (.int n)])
    else ([], st)
  else ([], st)

def ICMP_EXFIL_THRESHOLD : Int := 1000000

/-- `c.upper()`, as far as it gives a letter of the names below. -/
def upper (c : Char) : Char := if c = 'ı' then 'I' else c.toUpper

/-- `str(proto).upper() in ("ICMP", "IPV6-ICMP", "ICMPV6")`. -/
def isIcmp (proto : Json) : Bool :=
  decide (String.ofList ((env.str proto).toList.map upper) ∈ ["ICMP", "IPV6-ICMP", "ICMPV6"])

/-- `icmp_exfil_hit`. -/
def icmpExfilHit (proto : Json) (totalBytes : Int) (dst : Json) : Bool :=
  isIcmp env proto && env.external dst && decide (ICMP_EXFIL_THRESHOLD ≤ totalBytes)

def icmpKey (src dst : Json) : String :=
  "icmp:" ++ env.tenant ++ ":" ++ env.str src ++ "|" ++ env.str dst

/-- The bytes of a record in both directions, none when reading them raises. -/
def bytesOf (e : Json.Dict) : Option Int := do
  let f ← ((getD e "flow" (.obj [])).or (.obj [])).obj?
  let toServer ← env.int ((getD f "bytes_toserver" (.int 0)).or (.int 0))
  let toClient ← env.int ((getD f "bytes_toclient" (.int 0)).or (.int 0))
  return toServer + toClient

/-- The bytes of a pair, counted at `now`. -/
def countIcmp (st : InMemoryStore) (e : Json.Dict) (now later : ℚ) : List Candidate × InMemoryStore :=
  let src := e.get "src_ip"
  let dst := e.get "dest_ip"
  if src.truthy && dst.truthy then
    match bytesOf env e with
    | none => ([], st)
    | some b =>
      let tot := truncate (st.counterGet (icmpKey env src dst) "b" now + b)
      let st := st.counterAdd (icmpKey env src dst) "b" b env.icmpWindow now
      if icmpExfilHit env (getD e "proto" (.str "")) tot dst then
        emit env st e later "icmp_exfil" "exfil" 7 (3 / 5)
          (dumps [item "ip" (some "src") src, item "ip" (some "dst") dst,
            item "bytes" none (.int tot)])
      else ([], st)
  else ([], st)

/-- `_handle` for a flow record, with the readings of the clock: the candidates
    that are sent, and the store. -/
def handleFlow (st : InMemoryStore) (e : Json.Dict) (clock : Nat → ℚ) :
    List Candidate × InMemoryStore :=
  let (ports, st) := checkPort env st e (clock 0)
  let (ssh, st) := countSsh env st e (clock 1) (clock 2)
  let (icmp, st) := countIcmp env st e (clock 3) (clock 4)
  (ports ++ ssh ++ icmp, st)

/-! ### The records of a pair -/

/-- A record of a flow of the pair as it is handled. A sensor numbers its flows
    as it likes, so the flow is told beside the record. -/
structure Delivery (Flow : Type) (src dst : String) where
  record : Json.Dict
  flow : Flow
  bytes : Nat
  clock : Nat → ℚ
  isFlow : record.get "event_type" = .str "flow"
  srcIp : record.get "src_ip" = .str src
  destIp : record.get "dest_ip" = .str dst
  carries : bytesOf env record = some (bytes : Int)
  src_ne : src ≠ ""
  dst_ne : dst ≠ ""

variable {env} {Flow : Type} {src dst : String}

/-- The protocol of the record is ICMP. -/
def Delivery.icmp (d : Delivery env Flow src dst) : Bool := isIcmp env (getD d.record "proto" (.str ""))

/-- The time at which the bytes are counted. -/
def Delivery.counted (d : Delivery env Flow src dst) : ℚ := d.clock 3

def step (st : InMemoryStore) (d : Delivery env Flow src dst) : InMemoryStore :=
  (handleFlow env st d.record d.clock).2

/-- The records handled in order. -/
def run (st : InMemoryStore) (ds : List (Delivery env Flow src dst)) : InMemoryStore := ds.foldl step st

/-- The record makes `_handle` send an `icmp_exfil` candidate. -/
def Emits (st : InMemoryStore) (d : Delivery env Flow src dst) : Prop :=
  ∃ c ∈ (handleFlow env st d.record d.clock).1, c.detectorId = "icmp_exfil"

/-- Every record is counted while the key of the pair is alive. -/
def StaysAlive (st : InMemoryStore) : List (Delivery env Flow src dst) → Prop
  | [] => True
  | d :: ds => st.alive (icmpKey env (.str src) (.str dst)) d.counted = true ∧ StaysAlive (step st d) ds

/-- The first record starts the window of the pair, and the others are counted
    before it ends. -/
def InWindow (st : InMemoryStore) : List (Delivery env Flow src dst) → Prop
  | [] => True
  | d :: ds => st.hashAt (icmpKey env (.str src) (.str dst)) d.counted = .empty ∧ StaysAlive (step st d) ds

/-- The bytes of all ICMP records, each as often as it was handled. -/
def recordTotal (ds : List (Delivery env Flow src dst)) : Nat :=
  ((ds.filter Delivery.icmp).map Delivery.bytes).sum

/-- The final bytes of the ICMP flows. -/
def flowTotal [DecidableEq Flow] (ds : List (Delivery env Flow src dst)) : Nat :=
  Cumulative.total Delivery.flow Delivery.bytes (ds.filter Delivery.icmp)

/-! ### The counter of the pair -/

section Counter

variable {key : String} {st : InMemoryStore} {e : Json.Dict} {now later : ℚ}

theorem sameHash_emit (key : String) (st : InMemoryStore) (detector category : String) (sev : Int)
    (conf : ℚ) (entities : String) :
    SameHash key st (emit env st e now detector category sev conf entities).2 := by
  simp only [emit, InMemoryStore.dedupSeen]
  split
  · split
    · exact ⟨rfl, rfl⟩
    · exact ⟨rfl, rfl⟩
  · exact ⟨rfl, rfl⟩

theorem sameHash_checkPort (key : String) (st : InMemoryStore) :
    SameHash key st (checkPort env st e now).2 := by
  simp only [checkPort]
  split
  · exact .refl key st
  · split
    · exact sameHash_emit ..
    · exact .refl key st

/-- Keys of sessions and keys of bytes differ in their first letter. -/
theorem sshKey_ne (env : Env) (src dst src' dst' : Json) : sshKey env src dst ≠ icmpKey env src' dst' := by
  intro h
  have hlist := congrArg (fun s : String => s.toList.head?) h
  simp [sshKey, icmpKey, String.toList_append] at hlist

theorem sameHash_countSsh (src dst : Json) (st : InMemoryStore) :
    SameHash (icmpKey env src dst) st (countSsh env st e now later).2 := by
  simp only [countSsh]
  split
  · have hcount := InMemoryStore.sameHash_putHash st (sshKey_ne env (e.get "src_ip")
      (e.get "dest_ip") src dst)
    split
    · exact (hcount ..).trans (sameHash_emit ..)
    · exact hcount ..
  · exact .refl ..

/-- The value of the counter, alive or not. -/
def stored (st : InMemoryStore) (key : String) : ℚ :=
  (((st.h.lookup key).getD .empty).lookup "b").getD 0

theorem SameHash.stored {st' : InMemoryStore} (h : SameHash key st st') : stored st' key = stored st key := by
  simp only [ProtocolDetectors.stored, h.hash]

theorem counterGet_of_alive (h : st.alive key now = true) : st.counterGet key "b" now = stored st key := by
  simp only [InMemoryStore.counterGet, InMemoryStore.hashAt, h, if_true, stored]

theorem counterGet_of_empty (h : st.hashAt key now = .empty) : st.counterGet key "b" now = 0 := by
  simp only [InMemoryStore.counterGet, h]
  rfl

theorem stored_counterAdd (b ttl : ℚ) :
    stored (st.counterAdd key "b" b ttl now) key = st.counterGet key "b" now + b := by
  have hput : (st.counterAdd key "b" b ttl now).h.lookup key =
      some ((st.hashAt key now).put ("b", st.counterGet key "b" now + b)) := by
    show (st.h.put (key, _)).lookup key = _
    rw [Registry.lookup_put, if_pos rfl]
    rfl
  rw [stored, hput]
  simp only [Option.getD_some, Registry.lookup_put, if_true]

end Counter

section Step

variable {st : InMemoryStore} {d : Delivery env Flow src dst}

/-- The store when the bytes of a record are counted. -/
def beforeIcmp (st : InMemoryStore) (d : Delivery env Flow src dst) : InMemoryStore :=
  (countSsh env (checkPort env st d.record (d.clock 0)).2 d.record (d.clock 1) (d.clock 2)).2

theorem sameHash_beforeIcmp (st : InMemoryStore) (d : Delivery env Flow src dst) :
    SameHash (icmpKey env (.str src) (.str dst)) st (beforeIcmp st d) :=
  (sameHash_checkPort _ st).trans (sameHash_countSsh _ _ _)

/-- What the counter is compared with. -/
def total (st : InMemoryStore) (d : Delivery env Flow src dst) : ℚ :=
  st.counterGet (icmpKey env (.str src) (.str dst)) "b" d.counted + d.bytes

theorem countIcmp_eq (st : InMemoryStore) (d : Delivery env Flow src dst) :
    countIcmp env (beforeIcmp st d) d.record (d.clock 3) (d.clock 4) =
      (let counted := (beforeIcmp st d).counterAdd (icmpKey env (.str src) (.str dst)) "b" d.bytes
        env.icmpWindow (d.clock 3)
      if icmpExfilHit env (getD d.record "proto" (.str "")) (truncate (total st d)) (.str dst) then
        emit env counted d.record (d.clock 4) "icmp_exfil" "exfil" 7 (3 / 5)
          (dumps [item "ip" (some "src") (.str src), item "ip" (some "dst") (.str dst),
            item "bytes" none (.int (truncate (total st d)))])
      else ([], counted)) := by
  have htruthy : (Json.str src).truthy = true ∧ (Json.str dst).truthy = true := by
    simp [Json.truthy, d.src_ne, d.dst_ne]
  have hget : (beforeIcmp st d).counterGet (icmpKey env (.str src) (.str dst)) "b" (d.clock 3) =
      st.counterGet (icmpKey env (.str src) (.str dst)) "b" (d.clock 3) := by
    simp only [InMemoryStore.counterGet, (sameHash_beforeIcmp st d).hashAt]
  simp only [countIcmp, d.srcIp, d.destIp, htruthy, d.carries, hget, Bool.and_self, if_true, total,
    Delivery.counted, Int.cast_natCast]
  rfl

/-- One record adds its bytes. -/
theorem stored_step (st : InMemoryStore) (d : Delivery env Flow src dst) :
    stored (step st d) (icmpKey env (.str src) (.str dst)) = total st d := by
  have hcounted : stored ((beforeIcmp st d).counterAdd (icmpKey env (.str src) (.str dst)) "b"
      d.bytes env.icmpWindow (d.clock 3)) (icmpKey env (.str src) (.str dst)) = total st d := by
    rw [stored_counterAdd]
    simp only [InMemoryStore.counterGet, (sameHash_beforeIcmp st d).hashAt, total, Delivery.counted]
  show stored (countIcmp env (beforeIcmp st d) d.record (d.clock 3) (d.clock 4)).2 _ = _
  rw [countIcmp_eq]
  dsimp only
  split
  · rw [(SameHash.stored (sameHash_emit ..)), hcounted]
  · exact hcounted

theorem detectorId_of_mem_emit {e : Json.Dict} {now conf : ℚ} {detector category entities : String}
    {sev : Int} {c : Candidate} (h : c ∈ (emit env st e now detector category sev conf entities).1) :
    c.detectorId = detector := by
  simp only [emit] at h
  split at h
  · rw [List.mem_singleton.mp h]
  · cases h

theorem detectorId_checkPort {e : Json.Dict} {now : ℚ} {c : Candidate}
    (h : c ∈ (checkPort env st e now).1) : c.detectorId = "port_proto_mismatch" := by
  simp only [checkPort] at h
  split at h
  · cases h
  · split at h
    · exact detectorId_of_mem_emit h
    · cases h

theorem detectorId_countSsh {e : Json.Dict} {now later : ℚ} {c : Candidate}
    (h : c ∈ (countSsh env st e now later).1) : c.detectorId = "ssh_bruteforce" := by
  simp only [countSsh] at h
  split at h
  · split at h
    · exact detectorId_of_mem_emit h
    · cases h
  · cases h

/-- A candidate is sent for a hit of the record. -/
theorem hit_of_emits (h : Emits st d) :
    icmpExfilHit env (getD d.record "proto" (.str "")) (truncate (total st d)) (.str dst) = true := by
  obtain ⟨c, hc, hid⟩ := h
  have hmem : c ∈ (checkPort env st d.record (d.clock 0)).1 ++
      (countSsh env (checkPort env st d.record (d.clock 0)).2 d.record (d.clock 1) (d.clock 2)).1 ++
        (countIcmp env (beforeIcmp st d) d.record (d.clock 3) (d.clock 4)).1 := hc
  rcases List.mem_append.mp hmem with hmem | hmem
  · rcases List.mem_append.mp hmem with hmem | hmem
    · exact absurd ((detectorId_checkPort hmem).symm.trans hid) (by decide)
    · exact absurd ((detectorId_countSsh hmem).symm.trans hid) (by decide)
  · rw [countIcmp_eq] at hmem
    dsimp only at hmem
    split at hmem
    · next hhit => exact hhit
    · cases hmem

end Step

/-! ### Runs -/

section Run

variable {st : InMemoryStore} {d : Delivery env Flow src dst}
  {pre post ds : List (Delivery env Flow src dst)}

/-- The counter while it stays alive. -/
theorem counterGet_of_staysAlive (h : StaysAlive st (pre ++ d :: post)) :
    (run st pre).counterGet (icmpKey env (.str src) (.str dst)) "b" d.counted =
      stored st (icmpKey env (.str src) (.str dst)) + ((pre.map Delivery.bytes).sum : Nat) := by
  induction pre generalizing st with
  | nil =>
    rw [List.map_nil, List.sum_nil, Nat.cast_zero, add_zero]
    exact counterGet_of_alive h.1
  | cons x pre ih =>
    have hnext := ih h.2
    rw [stored_step, total, counterGet_of_alive h.1] at hnext
    show (run (step st x) pre).counterGet _ _ _ = _
    rw [hnext, List.map_cons, List.sum_cons, Nat.cast_add]
    ring

/-- Within the window the counter is the sum of the bytes of the records. -/
theorem total_before (h : InWindow st (pre ++ d :: post)) :
    total (run st pre) d = (((pre ++ [d]).map Delivery.bytes).sum : Nat) := by
  rw [total, List.map_append, List.sum_append, List.map_singleton, List.sum_singleton, Nat.cast_add]
  refine congrArg (· + (d.bytes : ℚ)) ?_
  cases pre with
  | nil => exact counterGet_of_empty h.1
  | cons x pre =>
    show (run (step st x) pre).counterGet _ _ _ = _
    rw [counterGet_of_staysAlive h.2, stored_step, total, counterGet_of_empty h.1, List.map_cons,
      List.sum_cons, Nat.cast_add]
    ring

/-- Only ICMP records have brought bytes. -/
def OnlyIcmp (ds : List (Delivery env Flow src dst)) : Prop := ∀ d ∈ ds, d.icmp = true ∨ d.bytes = 0

/-- No ICMP flow has brought bytes twice. -/
def HandledOnce (ds : List (Delivery env Flow src dst)) : Prop :=
  (ds.filter Delivery.icmp).Pairwise fun a b => b.flow = a.flow → a.bytes = 0 ∨ b.bytes = 0

theorem recordTotal_of_onlyIcmp (h : OnlyIcmp ds) : recordTotal ds = (ds.map Delivery.bytes).sum := by
  induction ds with
  | nil => rfl
  | cons d ds ih =>
    have hrest := ih fun x hx => h x (List.mem_cons_of_mem _ hx)
    unfold recordTotal at hrest ⊢
    rw [List.map_cons, List.sum_cons, List.filter_cons]
    rcases h d List.mem_cons_self with hicmp | hzero
    · rw [if_pos hicmp, List.map_cons, List.sum_cons, hrest]
    · split
      · rw [List.map_cons, List.sum_cons, hrest]
      · rw [hrest, hzero, Nat.zero_add]

theorem truncate_natCast (n : ℕ) : truncate (n : ℚ) = n := by
  unfold truncate
  rw [if_pos (Nat.cast_nonneg n)]
  exact Int.floor_natCast n

/-- A candidate is for an ICMP record to an external destination. While only
    ICMP records have brought bytes it says that the bytes of the ICMP records
    of the window, added up over every record, have reached the threshold;
    these are the final bytes of the flows when no flow was handled twice. -/
theorem icmp_exfil_adds_up [DecidableEq Flow] (h : InWindow st (pre ++ d :: post))
    (hemits : Emits (run st pre) d) : d.icmp = true ∧ env.isExternal dst = true ∧
      (OnlyIcmp (pre ++ [d]) → ICMP_EXFIL_THRESHOLD ≤ recordTotal (pre ++ [d]) ∧
        (flowTotal (pre ++ [d]) = recordTotal (pre ++ [d]) ↔ HandledOnce (pre ++ [d]))) := by
  have hhit := hit_of_emits hemits
  rw [total_before h, truncate_natCast] at hhit
  simp only [icmpExfilHit, Bool.and_eq_true, decide_eq_true_eq] at hhit
  obtain ⟨⟨hicmp, hexternal⟩, hreached⟩ := hhit
  refine ⟨hicmp, hexternal, fun honly => ⟨?_, Cumulative.total_eq_sum_iff⟩⟩
  rw [recordTotal_of_onlyIcmp honly]
  exact hreached

/-- A candidate says that the final bytes of the ICMP flows have reached the
    threshold. -/
def CountsFlows [DecidableEq Flow] (st : InMemoryStore) (ds : List (Delivery env Flow src dst)) : Prop :=
  ∀ pre d post, ds = pre ++ d :: post → Emits (run st pre) d →
    env.isExternal dst = true ∧ ICMP_EXFIL_THRESHOLD ≤ flowTotal (pre ++ [d])

end Run

/-! ### Two pings -/

def labEnv : Env where
  tenant := "homelab"
  sshWindow := 600
  icmpWindow := 600
  isExternal := fun dst => dst = "203.0.113.9"
  portProtoMismatch := fun _ _ => none
  repr := fun _ => ""
  parseInt := fun _ => none
  stable := String.length
  gmtime := fun _ => "2026-01-01T00:00:00Z"
  sourceEvent := .obj

theorem int_or_zero (n : Int) : (Json.int n).or (.int 0) = .int n := by
  unfold Json.or
  split
  · rfl
  · next hzero =>
    have hn : n = 0 := by simpa [Json.truthy] using hzero
    rw [hn]

/-- A record of the flow `flow` with its bytes so far, counted at `now`. -/
def ping (flow bytes : Nat) (now : ℚ) : Delivery labEnv Nat "10.0.0.11" "203.0.113.9" where
  record := [("event_type", .str "flow"), ("src_ip", .str "10.0.0.11"),
    ("dest_ip", .str "203.0.113.9"), ("proto", .str "ICMP"), ("flow_id", .int flow),
    ("flow", .obj [("bytes_toserver", .int bytes)])]
  flow := flow
  bytes := bytes
  clock := fun _ => now
  isFlow := rfl
  srcIp := rfl
  destIp := rfl
  carries := by
    show (Env.int labEnv ((Json.int bytes).or (.int 0))).bind (fun b => some (b + 0)) = _
    rw [int_or_zero]
    exact congrArg some (Int.add_zero _)
  src_ne := by decide
  dst_ne := by decide

theorem emits_of_any {env : Env} {Flow : Type} {src dst : String} {st : InMemoryStore}
    {d : Delivery env Flow src dst}
    (h : ((handleFlow env st d.record d.clock).1.map Candidate.detectorId).contains "icmp_exfil" = true) :
    Emits st d := by
  obtain ⟨c, hc, hid⟩ := List.mem_map.mp (List.contains_iff_mem.mp h)
  exact ⟨c, hc, hid⟩

/-- One ICMP flow of 600 kB whose record comes twice. -/
theorem redelivered_ping_emits : InWindow .empty [ping 1 600000 10, ping 1 600000 20] ∧
    ¬ CountsFlows .empty [ping 1 600000 10, ping 1 600000 20] := by
  refine ⟨⟨rfl, by decide +kernel, trivial⟩, ?_⟩
  intro h
  have hcounts := (h [ping 1 600000 10] (ping 1 600000 20) [] rfl
    (emits_of_any (by decide +kernel))).2
  exact absurd hcounts (by decide +kernel)

/-- Two flows of 600 kB reach the threshold. -/
theorem two_pings_add_up :
    ICMP_EXFIL_THRESHOLD ≤ recordTotal [ping 1 600000 10, ping 2 600000 20] := by
  have hwindow : InWindow .empty [ping 1 600000 10, ping 2 600000 20] :=
    ⟨rfl, by decide +kernel, trivial⟩
  have hemits : Emits (run .empty [ping 1 600000 10]) (ping 2 600000 20) :=
    emits_of_any (by decide +kernel)
  refine ((@icmp_exfil_adds_up labEnv Nat _ _ .empty (ping 2 600000 20) [ping 1 600000 10] [] _
    hwindow hemits).2.2 ?_).1
  intro d hd
  rcases List.mem_pair.mp hd with rfl | rfl
  · exact Or.inl rfl
  · exact Or.inl rfl

end ProtocolDetectors
