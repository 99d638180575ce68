import Mathlib.Algebra.Order.Ring.Cast
import CernityNdr.Capture.Reservations
import CernityNdr.Framework.Shedding

/-! # The Packet Ring

    The model of `PacketRing` of `services/capture-agent/agent.py`: packets in
    the order of their arrival, evicted by age, for space, and when the policy
    ends. Every call holds the lock of the ring, and gets what the two clocks
    read; `append` reads the monotonic clock twice.

    * `step_spec`: what one call does to the records and to those accepted.
    * `select_spec`: what `slice` takes of the records.
    * `packet_ring`: the invariants, over every sequence of calls with a
      monotonic clock that does not go back. -/

namespace PacketRing

open Preserve (Bytes Coverage)
open Shedding (Queue)

/-! ### The ring -/

/-- The policy of a ring, as its constructor requires it. -/
structure Policy where
  ringBytes : ℚ
  ringSeconds : ℚ
  expiresAt : ℚ
  room : 65536 ≤ ringBytes
  positive : 0 < ringSeconds

structure Record where
  /-- the reading of the monotonic clock when it was stored -/
  arrival : ℚ
  ts : ℚ
  data : Bytes

/-- Record bytes, and a conservative overhead. -/
def charge (record : Bytes) : Nat := record.length + 192

def Record.charge (r : Record) : Nat := PacketRing.charge r.data

/-- The header of a capture. -/
abbrev Header := { h : Bytes // h.length = 24 }

structure Ring extends Queue Record where
  header : Option Header
  closed : Bool

/-- A ring without packets, with the header of the capture if it began. -/
def Ring.init (header : Option Header) : Ring := ⟨⟨[], 0, 0⟩, header, false⟩

/-- `expire`: whether the ring is still alive. -/
def Ring.expire (policy : Policy) (ring : Ring) (now wall : ℚ) : Ring × Bool :=
  let cutoff := now - policy.ringSeconds
  let expiredPolicy := ring.closed || decide (policy.expiresAt ≤ wall)
  ({ ring with
      toQueue := ring.shed Record.charge fun _ r => expiredPolicy || decide (r.arrival ≤ cutoff) },
    !expiredPolicy)

def Ring.close (policy : Policy) (ring : Ring) (now wall : ℚ) : Ring :=
  (Ring.expire policy { ring with closed := true } now wall).1

/-- `append`; `later` is the second reading of the monotonic clock. -/
def Ring.append (policy : Policy) (ring : Ring) (ts : ℚ) (record : Bytes) (now wall later : ℚ) :
    Ring × Bool :=
  let (ring, alive) := ring.expire policy now wall
  if !alive then (ring, false)
  else if policy.ringBytes < charge record + 24 then
    ({ ring with dropped := ring.dropped + 1 }, false)
  else
    let queue := ring.shed Record.charge fun size _ =>
      decide (policy.ringBytes < size + charge record + 24)
    ({ ring with toQueue := queue.push Record.charge ⟨later, ts, record⟩ }, true)

/-- The loop of `slice`: what it put out, how many packets, and whether it is
    truncated. -/
def select (start stop : ℚ) (limit : Int) (out : Bytes) (selected : Nat) :
    List Record → Bytes × Nat × Bool
  | [] => (out, selected, false)
  | r :: rs =>
    if start ≤ r.ts ∧ r.ts < stop then
      if limit < out.length + r.data.length then (out, selected, true)
      else select start stop limit (out ++ r.data) (selected + 1) rs
    else select start stop limit out selected rs

/-- `self.header or b''`. -/
def Ring.head (ring : Ring) : Bytes := ring.header.elim [] Subtype.val

def Ring.slice (policy : Policy) (ring : Ring) (start stop : ℚ) (limit : Int) (now wall : ℚ) :
    Ring × Bytes × Coverage :=
  let (ring, _) := ring.expire policy now wall
  let (out, selected, truncated) := select start stop limit ring.head 0 ring.records
  (ring, out, ⟨selected, truncated, ring.dropped⟩)

/-! ### Calls -/

/-- A call, and what the clocks read in it. -/
inductive Op
  | expire (now wall : ℚ)
  | close (now wall : ℚ)
  | append (ts : ℚ) (record : Bytes) (now wall later : ℚ)
  | slice (start stop : ℚ) (limit : Int) (now wall : ℚ)

inductive Answer
  | alive (alive : Bool)
  | closed
  | appended (stored : Bool)
  | sliced (out : Bytes) (coverage : Coverage)

/-- The reading of the monotonic clock with which the call expires records. -/
def Op.now : Op → ℚ
  | .expire now _ | .close now _ | .append _ _ now _ _ | .slice _ _ _ now _ => now

def Op.wall : Op → ℚ
  | .expire _ wall | .close _ wall | .append _ _ _ wall _ | .slice _ _ _ _ wall => wall

/-- Every reading of the monotonic clock. -/
def Op.readings : Op → List ℚ
  | .append _ _ now _ later => [now, later]
  | op => [op.now]

def Op.isClose : Op → Bool
  | .close _ _ => true
  | _ => false

def Ring.call (policy : Policy) (ring : Ring) : Op → Ring × Answer
  | .expire now wall =>
    let (ring, alive) := ring.expire policy now wall
    (ring, .alive alive)
  | .close now wall => (ring.close policy now wall, .closed)
  | .append ts record now wall later =>
    let (ring, stored) := ring.append policy ts record now wall later
    (ring, .appended stored)
  | .slice start stop limit now wall =>
    let (ring, out, coverage) := ring.slice policy start stop limit now wall
    (ring, .sliced out coverage)

/-- The record that the call stores, when it is accepted. -/
def Op.accepted : Op → Answer → List Record
  | .append ts record _ _ later, .appended true => [⟨later, ts, record⟩]
  | _, _ => []

/-- The ring, and all records that it accepted. -/
structure World where
  ring : Ring
  accepted : List Record

def World.step (policy : Policy) (w : World) (op : Op) : World :=
  let (ring, answer) := w.ring.call policy op
  ⟨ring, w.accepted ++ op.accepted answer⟩

/-- The monotonic clock does not go back. -/
def Clocked (ops : List Op) : Prop := (ops.flatMap Op.readings).Pairwise (· ≤ ·)

/-! ### The invariants -/

/-- What holds after the calls `ops`. -/
structure Kept (policy : Policy) (header : Option Header) (ops : List Op) (w : World) : Prop where
  header : w.ring.header = header
  exact : w.ring.size = ((w.ring.records.map fun r => r.data.length + 192).sum : Nat)
  bounded : (w.ring.size : ℚ) ≤ policy.ringBytes - 24
  suffix : w.ring.records <:+ w.accepted
  closed : w.ring.closed = true ↔ ∃ op ∈ ops, op.isClose = true
  empty : w.ring.closed = true → w.ring.records = []

/-- `out` is the header and the longest initial part of the matching records
    that the limit has room for. -/
def IsCut (header : Bytes) (matching : List Record) (limit : Int) (out : Bytes)
    (coverage : Coverage) : Prop :=
  ∃ taken, taken <+: matching ∧ out = header ++ taken.flatMap Record.data ∧ out.length ≤ limit ∧
    (∀ part, part <+: matching → (header ++ part.flatMap Record.data).length ≤ limit →
      part <+: taken) ∧
    coverage.selectedPackets = taken.length ∧ (coverage.truncated = true ↔ taken ≠ matching)

/-- What holds of one more call. -/
structure Obeys (policy : Policy) (w : World) (op : Op) : Prop where
  /-- no record is older than the ring keeps them -/
  young : ∀ r ∈ (w.ring.call policy op).1.records, op.now - r.arrival < policy.ringSeconds
  ended : w.ring.closed = true ∨ op.isClose = true ∨ policy.expiresAt ≤ op.wall →
    (w.ring.call policy op).1.records = [] ∧
      ∀ stored, (w.ring.call policy op).2 = .appended stored → stored = false
  sliced : ∀ start stop limit now wall, op = .slice start stop limit now wall → 24 ≤ limit →
    ∃ out coverage, (w.ring.call policy op).2 = .sliced out coverage ∧
      IsCut w.ring.head ((w.ring.call policy op).1.records.filter fun r =>
        start ≤ r.ts ∧ r.ts < stop) limit out coverage

/-! ### Eviction -/

variable {policy : Policy} {ring : Ring} {ops : List Op} {w : World} {now wall : ℚ}

/-- **What `expire` does**: it leaves an end of the records, none when the ring
    is closed or the policy has ended, and else one that starts after the
    cutoff. -/
theorem expire_spec (h : ring.Exact Record.charge) (policy : Policy) (now wall : ℚ) :
    (ring.expire policy now wall).1.Exact Record.charge ∧
      (ring.expire policy now wall).1.size ≤ ring.size ∧
      (ring.expire policy now wall).1.records <:+ ring.records ∧
      ∀ r ∈ (ring.expire policy now wall).1.records.head?, now - policy.ringSeconds < r.arrival := by
  obtain ⟨hexact, hle, hsuffix, hstop⟩ := @Shedding.shed_spec _ Record.charge
    (fun _ r => (ring.closed || decide (policy.expiresAt ≤ wall)) ||
      decide (r.arrival ≤ now - policy.ringSeconds)) _ h
  refine ⟨hexact, hle, hsuffix, ?_⟩
  intro r hr
  have hyoung := hstop r hr
  simp only [Bool.or_eq_false_iff, decide_eq_false_iff_not, not_le] at hyoung
  exact hyoung.2

theorem expire_ended (h : ring.Exact Record.charge)
    (hended : ring.closed = true ∨ policy.expiresAt ≤ wall) :
    (ring.expire policy now wall).1.records = [] ∧ (ring.expire policy now wall).2 = false := by
  have hcond : (ring.closed || decide (policy.expiresAt ≤ wall)) = true := by simpa using hended
  constructor
  · refine Shedding.shed_eq_nil h fun _ r => ?_
    rw [hcond, Bool.true_or]
  · exact congrArg (!·) hcond

theorem bounded_of_le {size size' : Int} {bound : ℚ} (hle : size' ≤ size) (h : (size : ℚ) ≤ bound) :
    (size' : ℚ) ≤ bound := (Int.cast_le.mpr hle).trans h

/-- The ring of a call in which nothing is stored yet. -/
def Op.expired (policy : Policy) (ring : Ring) (op : Op) : Ring :=
  (Ring.expire policy { ring with closed := ring.closed || op.isClose } op.now op.wall).1

theorem expired_of_open {op : Op} (h : op.isClose = false) :
    op.expired policy ring = (ring.expire policy op.now op.wall).1 := by
  rw [Op.expired, h, Bool.or_false]

/-- **What `append` does** to the ring that it expired: nothing, or it counts a
    record that has no room, or it stores the record after as many as the room
    needs. -/
theorem append_cases (policy : Policy) (ring : Ring) (ts : ℚ) (record : Bytes) (now wall later : ℚ) :
    (ring.append policy ts record now wall later = ((ring.expire policy now wall).1, false)) ∨
      (ring.append policy ts record now wall later =
        ({ (ring.expire policy now wall).1 with
            dropped := (ring.expire policy now wall).1.dropped + 1 }, false)) ∨
      (¬(ring.closed = true ∨ policy.expiresAt ≤ wall) ∧ (charge record : ℚ) + 24 ≤ policy.ringBytes ∧
        ring.append policy ts record now wall later =
          ({ (ring.expire policy now wall).1 with
              toQueue := ((ring.expire policy now wall).1.shed Record.charge fun size _ =>
                decide (policy.ringBytes < size + charge record + 24)).push Record.charge
                  ⟨later, ts, record⟩ }, true)) := by
  have halive : (ring.expire policy now wall).2 = !(ring.closed || decide (policy.expiresAt ≤ wall)) :=
    rfl
  unfold Ring.append
  cases hended : ring.closed || decide (policy.expiresAt ≤ wall) with
  | true =>
    refine Or.inl ?_
    dsimp only
    rw [halive, hended]
    rfl
  | false =>
    dsimp only
    rw [halive, hended, Bool.not_false, Bool.not_true, if_neg Bool.false_ne_true]
    split
    · exact Or.inr (Or.inl rfl)
    · next hroom =>
      refine Or.inr (Or.inr ⟨?_, not_lt.mp hroom, rfl⟩)
      simpa using hended

/-- **What one call does**: it leaves an end of the records that are not
    expired, and then those that it accepts. -/
theorem call_spec (h : ring.Exact Record.charge) (policy : Policy) (op : Op) :
    (ring.call policy op).1.Exact Record.charge ∧
      ((ring.size : ℚ) ≤ policy.ringBytes - 24 →
        ((ring.call policy op).1.size : ℚ) ≤ policy.ringBytes - 24) ∧
      (ring.call policy op).1.header = ring.header ∧
      (ring.call policy op).1.closed = (ring.closed || op.isClose) ∧
      ∃ left, left <:+ (op.expired policy ring).records ∧
        (ring.call policy op).1.records = left ++ op.accepted (ring.call policy op).2 := by
  have hexpired := fun now wall => expire_spec h policy now wall
  cases op with
  | expire now wall =>
    obtain ⟨hexact, hle, -, -⟩ := hexpired now wall
    rw [expired_of_open rfl]
    exact ⟨hexact, bounded_of_le hle, rfl, (Bool.or_false _).symm, _, List.suffix_rfl,
      (List.append_nil _).symm⟩
  | close now wall =>
    obtain ⟨hexact, hle, -, -⟩ := @expire_spec { ring with closed := true } h policy now wall
    refine ⟨hexact, bounded_of_le hle, rfl, (Bool.or_true _).symm, _, List.suffix_rfl, ?_⟩
    rw [Op.expired, Op.isClose, Bool.or_true]
    exact (List.append_nil _).symm
  | append ts record now wall later =>
    obtain ⟨hexact, hle, -, -⟩ := hexpired now wall
    rw [expired_of_open rfl]
    have hcall : ring.call policy (.append ts record now wall later) =
        ((ring.append policy ts record now wall later).1,
          .appended (ring.append policy ts record now wall later).2) := rfl
    rw [hcall]
    rcases append_cases policy ring ts record now wall later with heq | heq | ⟨-, hroom, heq⟩
    · rw [heq]
      exact ⟨hexact, bounded_of_le hle, rfl, (Bool.or_false _).symm, _, List.suffix_rfl,
        (List.append_nil _).symm⟩
    · rw [heq]
      exact ⟨hexact, bounded_of_le hle, rfl, (Bool.or_false _).symm, _, List.suffix_rfl,
        (List.append_nil _).symm⟩
    · rw [heq]
      obtain ⟨hshed, -, hsuffix, hstop⟩ := @Shedding.shed_spec _ Record.charge
        (fun size _ => decide (policy.ringBytes < size + charge record + 24)) _ hexact
      refine ⟨hshed.push _, ?_, rfl, (Bool.or_false _).symm, _, hsuffix, rfl⟩
      intro hbound
      change ((_ + charge record : Int) : ℚ) ≤ policy.ringBytes - 24
      rw [Int.cast_add, Int.cast_natCast]
      cases hrecords : ((ring.expire policy now wall).1.shed Record.charge fun size _ =>
          decide (policy.ringBytes < size + charge record + 24)).records with
      | nil =>
        have hsize : ((ring.expire policy now wall).1.shed Record.charge fun size _ =>
            decide (policy.ringBytes < size + charge record + 24)).size = 0 := by
          rw [show _ = _ from hshed, hrecords]
          rfl
        rw [hsize, Int.cast_zero, zero_add]
        exact le_sub_iff_add_le.mpr hroom
      | cons r rs =>
        have hfits := of_decide_eq_false (hstop r (by rw [hrecords]; rfl))
        exact le_sub_iff_add_le.mpr (not_lt.mp hfits)
  | slice start stop limit now wall =>
    obtain ⟨hexact, hle, -, -⟩ := hexpired now wall
    rw [expired_of_open rfl]
    exact ⟨hexact, bounded_of_le hle, rfl, (Bool.or_false _).symm, _, List.suffix_rfl,
      (List.append_nil _).symm⟩

/-- Nothing is stored when the ring is closed or the policy has ended. -/
theorem not_stored {op : Op} (hended : ring.closed = true ∨ policy.expiresAt ≤ op.wall) {stored : Bool}
    (h : (ring.call policy op).2 = .appended stored) : stored = false := by
  cases op with
  | expire now wall => cases h
  | close now wall => cases h
  | slice start stop limit now wall => cases h
  | append ts record now wall later =>
    obtain rfl : (ring.append policy ts record now wall later).2 = stored := Answer.appended.inj h
    rcases append_cases policy ring ts record now wall later with heq | heq | ⟨hnot, -, -⟩
    · rw [heq]
    · rw [heq]
    · exact absurd hended hnot

theorem accepted_eq_nil (op : Op) {answer : Answer} (h : ∀ stored, answer = .appended stored → stored = false) :
    op.accepted answer = [] := by
  unfold Op.accepted
  split
  · cases h true rfl
  · rfl

/-- **A call on a ring that has ended** leaves no record and stores none. -/
theorem call_ended (h : ring.Exact Record.charge) {op : Op}
    (hended : ring.closed = true ∨ op.isClose = true ∨ policy.expiresAt ≤ op.wall) :
    (ring.call policy op).1.records = [] ∧
      ∀ stored, (ring.call policy op).2 = .appended stored → stored = false := by
  have hstored : ∀ stored, (ring.call policy op).2 = .appended stored → stored = false := by
    intro stored hanswer
    rcases hended with hclosed | hclose | hexpired
    · exact not_stored (Or.inl hclosed) hanswer
    · cases op with
      | close now wall => cases hanswer
      | expire now wall => cases hclose
      | append ts record now wall later => cases hclose
      | slice start stop limit now wall => cases hclose
    · exact not_stored (Or.inr hexpired) hanswer
  refine ⟨?_, hstored⟩
  obtain ⟨-, -, -, -, left, hleft, hrecords⟩ := call_spec h policy op
  have hnone : (op.expired policy ring).records = [] := by
    refine (@expire_ended policy { ring with closed := ring.closed || op.isClose } op.now op.wall h ?_).1
    rw [Bool.or_eq_true, or_assoc]
    exact hended
  rw [hnone, List.suffix_nil] at hleft
  rw [hrecords, hleft, accepted_eq_nil op hstored]
  rfl

/-! ### Slices -/

/-- **What the loop takes** of the matching records: an initial part, and the
    next one has no room. -/
theorem select_spec (start stop : ℚ) {limit : Int} {out : Bytes} (hout : out.length ≤ limit)
    (selected : Nat) (l : List Record) : ∃ taken rest,
      (l.filter fun r => start ≤ r.ts ∧ r.ts < stop) = taken ++ rest ∧
      select start stop limit out selected l =
        (out ++ taken.flatMap Record.data, selected + taken.length, !rest.isEmpty) ∧
      (out ++ taken.flatMap Record.data).length ≤ limit ∧
      ∀ r ∈ rest.head?, limit < (out ++ taken.flatMap Record.data).length + r.data.length := by
  induction l generalizing out selected with
  | nil => exact ⟨[], [], rfl, by simp [select], by simpa using hout, fun r hr => nomatch hr⟩
  | cons r rs ih =>
    rw [select]
    by_cases hmatch : start ≤ r.ts ∧ r.ts < stop
    · rw [if_pos hmatch, List.filter_cons_of_pos (by simpa using hmatch)]
      by_cases hfull : limit < out.length + r.data.length
      · rw [if_pos hfull]
        refine ⟨[], _, rfl, by simp, by simpa using hout, ?_⟩
        intro r' hr'
        obtain rfl := Option.some.inj hr'
        simpa using hfull
      · rw [if_neg hfull]
        have hroom : ((out ++ r.data).length : Int) ≤ limit := by
          rw [List.length_append]
          omega
        obtain ⟨taken, rest, hsplit, hselect, hlen, hnext⟩ := ih hroom (selected + 1)
        refine ⟨r :: taken, rest, by rw [hsplit, List.cons_append], ?_, ?_, ?_⟩
        · rw [hselect, List.flatMap_cons, List.append_assoc, List.length_cons, Nat.add_assoc,
            Nat.add_comm 1]
        · rwa [List.flatMap_cons, ← List.append_assoc]
        · rwa [List.flatMap_cons, ← List.append_assoc]
    · rw [if_neg hmatch, List.filter_cons_of_neg (by simpa using hmatch)]
      exact ih hout selected

/-- The slice is a cut of the matching records. -/
theorem isCut_slice (policy : Policy) (ring : Ring) (start stop : ℚ) {limit : Int} (hlimit : 24 ≤ limit)
    (now wall : ℚ) : IsCut ring.head ((ring.slice policy start stop limit now wall).1.records.filter
      fun r => start ≤ r.ts ∧ r.ts < stop) limit (ring.slice policy start stop limit now wall).2.1
        (ring.slice policy start stop limit now wall).2.2 := by
  have hhead : (ring.head.length : Int) ≤ limit := by
    unfold Ring.head
    cases ring.header with
    | none => exact le_trans (by decide) hlimit
    | some h => exact (Int.ofNat_le.mpr h.2.le).trans hlimit
  obtain ⟨taken, rest, hsplit, hselect, hlen, hnext⟩ :=
    select_spec start stop hhead 0 (ring.expire policy now wall).1.records
  have hslice : ring.slice policy start stop limit now wall = ((ring.expire policy now wall).1,
      ring.head ++ taken.flatMap Record.data,
      ⟨taken.length, !rest.isEmpty, (ring.expire policy now wall).1.dropped⟩) := by
    have hheader : (ring.expire policy now wall).1.head = ring.head := rfl
    rw [Ring.slice]
    dsimp only
    rw [hheader, hselect, Nat.zero_add]
  rw [hslice]
  dsimp only
  rw [hsplit]
  refine ⟨taken, List.prefix_append _ _, rfl, hlen, ?_, rfl, ?_⟩
  · intro part hpart hfits
    rcases List.prefix_or_prefix_of_prefix hpart (List.prefix_append taken rest) with h | h
    · exact h
    · -- a longer part has the record for which there is no room
      obtain ⟨more, rfl⟩ := h
      cases more with
      | nil => rw [List.append_nil]
      | cons r more =>
        rw [List.prefix_append_right_inj] at hpart
        obtain ⟨rs, rfl⟩ := hpart
        have hfull := hnext r rfl
        rw [List.flatMap_append, List.flatMap_cons] at hfits
        simp only [List.length_append] at hfits hfull
        omega
  · cases rest with
    | nil => simp
    | cons r rest => simp

/-! ### Every sequence of calls -/

/-- The records arrived at readings of the clock, in their order. -/
structure Ordered (ops : List Op) (records : List Record) : Prop where
  arrived : ∀ r ∈ records, r.arrival ∈ ops.flatMap Op.readings
  sorted : records.Pairwise fun a b => a.arrival ≤ b.arrival

theorem Clocked.of_append {op : Op} (h : Clocked (ops ++ [op])) :
    Clocked ops ∧ op.readings.Pairwise (· ≤ ·) ∧
      ∀ a ∈ ops.flatMap Op.readings, ∀ b ∈ op.readings, a ≤ b := by
  rw [Clocked, List.flatMap_append, List.flatMap_singleton, List.pairwise_append] at h
  exact h

/-- What a call stores arrives at its last reading. -/
theorem mem_accepted {op : Op} {answer : Answer} {r : Record} (h : r ∈ op.accepted answer) :
    op.accepted answer = [r] ∧ r.arrival ∈ op.readings ∧ op.readings = [op.now, r.arrival] := by
  unfold Op.accepted at h ⊢
  split at h
  · obtain rfl := List.mem_singleton.mp h
    exact ⟨rfl, List.mem_cons_of_mem _ List.mem_cons_self, rfl⟩
  · cases h

/-- A call keeps the order of the records. -/
theorem Ordered.call (h : ring.Exact Record.charge) (ho : Ordered ops ring.records) {op : Op}
    (hclock : Clocked (ops ++ [op])) : Ordered (ops ++ [op]) (ring.call policy op).1.records := by
  obtain ⟨-, -, hafter⟩ := hclock.of_append
  obtain ⟨-, -, -, -, left, hleft, hrecords⟩ := call_spec h policy op
  have hsub : left <:+ ring.records := hleft.trans
    (@expire_spec { ring with closed := ring.closed || op.isClose } h policy op.now op.wall).2.2.1
  rw [hrecords]
  constructor
  · intro r hr
    rw [List.flatMap_append, List.mem_append, List.flatMap_singleton]
    rcases List.mem_append.mp hr with hr | hr
    · exact Or.inl (ho.arrived r (hsub.subset hr))
    · exact Or.inr (mem_accepted hr).2.1
  · refine List.pairwise_append.mpr ⟨ho.sorted.sublist hsub.sublist, ?_, ?_⟩
    · cases haccepted : op.accepted (ring.call policy op).2 with
      | nil => exact .nil
      | cons r rs =>
        have hsingle := (mem_accepted (r := r) (haccepted ▸ List.mem_cons_self)).1
        rw [← haccepted, hsingle]
        exact List.pairwise_singleton _ _
    · intro a ha b hb
      exact hafter _ (ho.arrived a (hsub.subset ha)) _ (mem_accepted hb).2.1

/-- No record that a call leaves is older than the policy keeps it. -/
theorem young_call (h : ring.Exact Record.charge) (ho : Ordered ops ring.records) {op : Op}
    (hclock : Clocked (ops ++ [op])) :
    ∀ r ∈ (ring.call policy op).1.records, op.now - r.arrival < policy.ringSeconds := by
  obtain ⟨-, hreadings, -⟩ := hclock.of_append
  obtain ⟨-, -, -, -, left, hleft, hrecords⟩ := call_spec h policy op
  obtain ⟨-, -, hsuffix, hhead⟩ := @expire_spec
    { ring with closed := ring.closed || op.isClose } h policy op.now op.wall
  have hyoung := Shedding.lt_of_lt_head (ho.sorted.sublist hsuffix.sublist) hhead
  intro r hr
  rw [hrecords] at hr
  rcases List.mem_append.mp hr with hr | hr
  · exact sub_lt_comm.mp (hyoung r (hleft.subset hr))
  · rw [(mem_accepted hr).2.2] at hreadings
    have hle : op.now ≤ r.arrival := List.rel_of_pairwise_cons hreadings List.mem_cons_self
    exact (sub_nonpos.mpr hle).trans_lt policy.positive

theorem Kept.init (policy : Policy) (header : Option Header) :
    Kept policy header [] ⟨.init header, []⟩ := by
  constructor
  · rfl
  · rfl
  · have hroom := policy.room
    exact sub_nonneg.mpr (le_trans (by decide +kernel) hroom)
  · exact List.suffix_rfl
  · exact ⟨nofun, fun ⟨_, hop, _⟩ => absurd hop List.not_mem_nil⟩
  · exact fun _ => rfl

/-- One more call keeps the invariants. -/
theorem Kept.step {header : Option Header} (hk : Kept policy header ops w) (op : Op) :
    Kept policy header (ops ++ [op]) (w.step policy op) := by
  have hexact : w.ring.Exact Record.charge := hk.exact
  obtain ⟨hexact', hbound, hheader, hclosed, left, hleft, hrecords⟩ := call_spec hexact policy op
  have hsub : left <:+ w.ring.records := hleft.trans (@expire_spec
    { w.ring with closed := w.ring.closed || op.isClose } hexact policy op.now op.wall).2.2.1
  constructor
  · exact hheader.trans hk.header
  · exact hexact'
  · exact hbound hk.bounded
  · change (w.ring.call policy op).1.records <:+ w.accepted ++ op.accepted (w.ring.call policy op).2
    obtain ⟨gone, hgone⟩ := hsub.trans hk.suffix
    rw [hrecords, ← hgone, List.append_assoc]
    exact List.suffix_append _ _
  · change (w.ring.call policy op).1.closed = true ↔ _
    rw [hclosed, Bool.or_eq_true, hk.closed]
    simp
  · intro hcloses
    change (w.ring.call policy op).1.closed = true at hcloses
    rw [hclosed, Bool.or_eq_true] at hcloses
    exact (call_ended hexact (hcloses.imp_right Or.inl)).1

/-- **The packet ring**, over every sequence of calls with a clock that does
    not go back: its account is exact and bounded, it has the last of the
    accepted records, the young ones only and none when it has ended, and a
    slice is the longest that the limit has room for. -/
theorem packet_ring (policy : Policy) (header : Option Header) (ops : List Op) :
    Kept policy header ops (Machine.run (World.step policy) ⟨.init header, []⟩ ops) ∧
      ∀ op, Clocked (ops ++ [op]) →
        Obeys policy (Machine.run (World.step policy) ⟨.init header, []⟩ ops) op := by
  have hkept : ∀ ops, Kept policy header ops (Machine.run (World.step policy) ⟨.init header, []⟩ ops) := by
    intro ops
    induction ops using List.reverseRecOn with
    | nil => exact .init policy header
    | append_singleton ops op ih =>
      rw [Machine.run_snoc]
      exact ih.step op
  have hordered : ∀ ops, Clocked ops →
      Ordered ops (Machine.run (World.step policy) ⟨.init header, []⟩ ops).ring.records := by
    intro ops
    induction ops using List.reverseRecOn with
    | nil => exact fun _ => ⟨fun r hr => absurd hr List.not_mem_nil, .nil⟩
    | append_singleton ops op ih =>
      intro hclock
      rw [Machine.run_snoc]
      exact (ih hclock.of_append.1).call (hkept ops).exact hclock
  refine ⟨hkept ops, ?_⟩
  intro op hclock
  have hexact : (Machine.run (World.step policy) ⟨.init header, []⟩ ops).ring.Exact Record.charge :=
    (hkept ops).exact
  constructor
  · exact young_call hexact (hordered ops hclock.of_append.1) hclock
  · exact call_ended hexact
  · rintro start stop limit now wall rfl hlimit
    exact ⟨_, _, rfl, isCut_slice policy _ start stop hlimit now wall⟩

theorem minute_pos : (0 : ℚ) < 60 := by decide +kernel

/-- 64 KiB for one minute, until second 1000. -/
def minutePolicy : Policy := ⟨65536, 60, 1000, by decide +kernel, minute_pos⟩

/-- A packet, and a call one minute later. -/
theorem packet_expires : Obeys minutePolicy (Machine.run (World.step minutePolicy) ⟨.init none, []⟩
    [.append 79 [1] 100 100 100]) (.expire 161 100) :=
  (packet_ring minutePolicy none [.append 79 [1] 100 100 100]).2 (.expire 161 100)
    (by unfold Clocked; decide +kernel)

end PacketRing
