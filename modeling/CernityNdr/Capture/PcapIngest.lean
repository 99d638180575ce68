import CernityNdr.Capture.PacketRing
import CernityNdr.Framework.Framing

/-! # Reading a Capture into the Ring

    The model of `PacketRing.ingest` of `services/capture-agent/agent.py`: a
    classic PCAP stream of either byte order, read with short reads. An
    exception leaves what was appended.

    * `round_spec`: one round of the loop, by what the stream starts with.
    * `ingest_exact`: the records of the longest well-formed start of the
      stream are appended, and nothing else. -/

namespace PacketRing

open Framing (Stream readExact exactly)
open Preserve (Bytes)

/-! ### Fields -/

/-- An integer of `struct.unpack`. -/
def unsigned (little : Bool) (bytes : Bytes) : Nat :=
  (if little then bytes.reverse else bytes).foldl (fun n b => 256 * n + b.toNat) 0

/-- The field of `len` bytes at an offset. -/
def field (little : Bool) (bytes : Bytes) (offset len : Nat) : Nat :=
  unsigned little ((bytes.drop offset).take len)

def MAGIC_LITTLE : Bytes := [0xd4, 0xc3, 0xb2, 0xa1]

def MAGIC_BIG : Bytes := [0xa1, 0xb2, 0xc3, 0xd4]

/-- `endian` of a header. -/
def isLittle (header : Bytes) : Bool := header.head? = some 0xd4

def snaplen (header : Bytes) : Nat := field (isLittle header) header 16 4

/-! ### The reader -/

/-- What the clocks read in one round of the loop. -/
structure Tick where
  now : ℚ
  wall : ℚ
  appendNow : ℚ
  appendWall : ℚ
  appendLater : ℚ

/-- What surrounds a call of `ingest`. -/
structure Env where
  /-- what the stream would give at each read -/
  short : Nat → Nat
  /-- `sec + usec / 1e6` -/
  stamp : Nat → Nat → ℚ
  ticks : Nat → Tick

/-- What a call of `ingest` has done so far. -/
structure Progress where
  ring : Ring
  stream : Stream UInt8
  /-- the arguments of the calls of `append` -/
  appended : List (ℚ × Bytes)

/-- How a call ends: an error has its text. -/
structure Outcome extends Progress where
  result : Except String Unit

/-- One round of the loop: it ends, or goes on. -/
def round (env : Env) (policy : Policy) (header : Bytes) (tick : Tick) (p : Progress) :
    Outcome ⊕ Progress :=
  let little := isLittle header
  let (ring, alive) := p.ring.expire policy tick.now tick.wall
  if !alive then .inl ⟨{ p with ring }, .ok ()⟩
  else
    match readExact env.short "truncated PCAP" 16 p.stream with
    | (.error e, stream) => .inl ⟨{ p with ring, stream }, .error e⟩
    | (.ok rec, stream) =>
      if rec.isEmpty then .inl ⟨{ p with ring, stream }, .ok ()⟩
      else
        let sec := field little rec 0 4
        let usec := field little rec 4 4
        let size := field little rec 8 4
        let original := field little rec 12 4
        if size > snaplen header ∨ original < size ∨ usec ≥ 1000000 then
          .inl ⟨{ p with ring, stream }, .error "invalid PCAP record"⟩
        else
          match readExact env.short "truncated PCAP" size stream with
          | (.error e, stream) => .inl ⟨{ p with ring, stream }, .error e⟩
          | (.ok data, stream) =>
            if data.length ≠ size then
              .inl ⟨{ p with ring, stream }, .error "truncated PCAP packet"⟩
            else
              let call := (env.stamp sec usec, rec ++ data)
              let (ring, _) :=
                ring.append policy call.1 call.2 tick.appendNow tick.appendWall tick.appendLater
              .inr ⟨ring, stream, p.appended ++ [call]⟩

/-- `while self.expire()`, for `fuel` rounds. -/
def rounds (env : Env) (policy : Policy) (header : Bytes) : Nat → Nat → Progress → Option Outcome
  | 0, _, _ => none
  | fuel + 1, i, p =>
    match round env policy header (env.ticks i) p with
    | .inl o => some o
    | .inr p => rounds env policy header fuel (i + 1) p

/-- `ingest` of a stream of the bytes. -/
def ingest (env : Env) (policy : Policy) (ring : Ring) (bytes : Bytes) : Option Outcome :=
  match readExact env.short "truncated PCAP" 24 ⟨bytes, []⟩ with
  | (.error e, stream) => some ⟨⟨ring, stream, []⟩, .error e⟩
  | (.ok header, stream) =>
    if h : header.length = 24 then
      if header.take 4 ≠ MAGIC_LITTLE ∧ header.take 4 ≠ MAGIC_BIG then
        some ⟨⟨ring, stream, []⟩, .error "unsupported PCAP header"⟩
      else
        let little := isLittle header
        if (field little header 4 2, field little header 6 2) ≠ (2, 4) ∨
            ¬(1 ≤ snaplen header ∧ snaplen header ≤ 65535) then
          some ⟨⟨ring, stream, []⟩, .error "unsupported PCAP format"⟩
        else if ring.header.any fun old => decide (old.val ≠ header) then
          some ⟨⟨ring, stream, []⟩, .error "capture format changed"⟩
        else
          let ring := { ring with header := some ⟨header, h⟩ }
          rounds env policy header (bytes.length + 1) 0 ⟨ring, stream, []⟩
    else some ⟨⟨ring, stream, []⟩, .error "unsupported PCAP header"⟩

/-! ### Classic PCAP -/

/-- A header of version 2.4. -/
structure IsHeader (h : Bytes) : Prop where
  length : h.length = 24
  magic : h.take 4 = MAGIC_LITTLE ∨ h.take 4 = MAGIC_BIG
  major : field (isLittle h) h 4 2 = 2
  minor : field (isLittle h) h 6 2 = 4
  positive : 1 ≤ snaplen h
  bounded : snaplen h ≤ 65535

/-- A record under a header: sixteen bytes that say how many bytes follow. -/
structure IsRecord (h r : Bytes) : Prop where
  header : 16 ≤ r.length
  size : field (isLittle h) (r.take 16) 8 4 ≤ snaplen h
  original : field (isLittle h) (r.take 16) 8 4 ≤ field (isLittle h) (r.take 16) 12 4
  usec : field (isLittle h) (r.take 16) 4 4 < 1000000
  length : r.length = 16 + field (isLittle h) (r.take 16) 8 4

/-- A header that the ring takes: it has none yet, or the same. -/
structure Admits (ring : Ring) (h : Bytes) : Prop where
  header : IsHeader h
  same : ∀ old ∈ ring.header, old.val = h

/-- The bytes start with a header that the ring takes, and with records. -/
structure Starts (ring : Ring) (bytes h : Bytes) (records : List Bytes) : Prop where
  admits : Admits ring h
  framed : ∀ r ∈ records, IsRecord h r
  inside : h ++ records.flatten <+: bytes

/-- No more records are at the start of the bytes. -/
def IsLongest (ring : Ring) (bytes h : Bytes) (records : List Bytes) : Prop :=
  Starts ring bytes h records ∧
    ∀ h' records', Starts ring bytes h' records' → h' = h ∧ records' <+: records

/-- The call of `append` for a record. -/
def Env.call (env : Env) (h r : Bytes) : ℚ × Bytes :=
  (env.stamp (field (isLittle h) (r.take 16) 0 4) (field (isLittle h) (r.take 16) 4 4), r)

/-- The ring after the calls, each after an `expire`, and one more `expire`. -/
def Env.feed (env : Env) (policy : Policy) : Nat → Ring → List (ℚ × Bytes) → Ring
  | i, ring, [] => (ring.expire policy (env.ticks i).now (env.ticks i).wall).1
  | i, ring, call :: calls =>
    let tick := env.ticks i
    env.feed policy (i + 1) ((ring.expire policy tick.now tick.wall).1.append policy call.1 call.2
      tick.appendNow tick.appendWall tick.appendLater).1 calls

/-- What a call of `ingest` did with the bytes. -/
structure Ingested (env : Env) (policy : Policy) (ring : Ring) (bytes : Bytes) (o : Outcome) : Prop where
  appended : (∃ h, ∃ hlen : h.length = 24, ∃ records, IsLongest ring bytes h records ∧
      o.appended = records.map (env.call h) ∧
      o.ring = env.feed policy 0 { ring with header := some ⟨h, hlen⟩ } (records.map (env.call h))) ∨
    ((∀ h records, ¬Starts ring bytes h records) ∧ o.appended = [] ∧ o.ring = ring)
  returned : o.result = .ok () ↔ ∃ h records, Starts ring bytes h records ∧ h ++ records.flatten = bytes
  asked : ∀ k ∈ o.stream.asked, k ≤ 24 ∨ ∃ h records, Starts ring bytes h records ∧ k ≤ snaplen h

/-! ### Records are frames -/

variable {env : Env} {policy : Policy} {ring : Ring} {h r r' l bytes : Bytes} {p : Progress} {tick : Tick}

theorem IsRecord.take (hr : IsRecord h r) (hl : r <+: l) : r.take 16 = l.take 16 := by
  obtain ⟨rest, rfl⟩ := hl
  exact (List.take_append_of_le_length hr.header).symm

/-- The first sixteen bytes of a record say how long it is. -/
theorem isPrefixFree_record (h : Bytes) : Framing.IsPrefixFree (IsRecord h) := by
  constructor
  · rintro r hr rfl
    exact absurd hr.header (by decide)
  · intro r r' l hr hr' hl hl'
    have hlen : r.length = r'.length := by
      rw [hr.length, hr'.length, hr.take hl, hr'.take hl']
    exact (List.prefix_of_prefix_length_le hl hl' hlen.le).eq_of_length hlen

/-- Sixteen valid bytes and as many as they say are a record. -/
theorem isRecord_take {size : Nat} (hlen : 16 ≤ l.length)
    (hdef : field (isLittle h) (l.take 16) 8 4 = size)
    (hvalid : ¬(size > snaplen h ∨ field (isLittle h) (l.take 16) 12 4 < size ∨
      field (isLittle h) (l.take 16) 4 4 ≥ 1000000))
    (hfull : size ≤ (l.drop 16).length) : IsRecord h (l.take 16 ++ (l.drop 16).take size) := by
  have hhead : (l.take 16).length = 16 := List.length_take_of_le hlen
  have hdata : ((l.drop 16).take size).length = size := List.length_take_of_le hfull
  have hfields : (l.take 16 ++ (l.drop 16).take size).take 16 = l.take 16 := List.take_left' hhead
  constructor
  · rw [List.length_append]
    omega
  · rw [hfields]
    omega
  · rw [hfields]
    omega
  · rw [hfields]
    omega
  · rw [List.length_append, hfields]
    omega

/-- No record is in less than its first sixteen bytes say. -/
theorem not_prefix_of_short {size : Nat} (hdef : field (isLittle h) (l.take 16) 8 4 = size)
    (hshort : ¬size ≤ (l.drop 16).length) (hr : IsRecord h r) : ¬r <+: l := by
  intro hl
  have hrlen := hr.length
  have hle := hl.length_le
  rw [hr.take hl, hdef] at hrlen
  rw [List.length_drop] at hshort
  omega

/-! ### One round -/

theorem closed_append (policy : Policy) (ring : Ring) (call : ℚ × Bytes) (now wall later : ℚ) :
    (ring.append policy call.1 call.2 now wall later).1.closed = ring.closed := by
  rcases append_cases policy ring call.1 call.2 now wall later with heq | heq | ⟨-, -, heq⟩ <;>
    rw [heq] <;> rfl

/-- What a round makes of what the stream starts with: nothing more, a record,
    or what is no record. -/
inductive Turn (env : Env) (policy : Policy) (h : Bytes) (tick : Tick) (p : Progress) :
    Outcome ⊕ Progress → Prop
  | ended (asked : List Nat) (hasked : ∀ k ∈ asked, k ≤ 24 ∨ k ≤ snaplen h) (hrest : p.stream.rest = []) :
      Turn env policy h tick p (.inl ⟨⟨(p.ring.expire policy tick.now tick.wall).1,
        ⟨[], p.stream.asked ++ asked⟩, p.appended⟩, .ok ()⟩)
  | refused (e : String) (rest : Bytes) (asked : List Nat)
      (hasked : ∀ k ∈ asked, k ≤ 24 ∨ k ≤ snaplen h) (hrest : p.stream.rest ≠ [])
      (hnone : ∀ r, IsRecord h r → ¬r <+: p.stream.rest) :
      Turn env policy h tick p (.inl ⟨⟨(p.ring.expire policy tick.now tick.wall).1,
        ⟨rest, p.stream.asked ++ asked⟩, p.appended⟩, .error e⟩)
  | record (r rest : Bytes) (asked : List Nat)
      (hasked : ∀ k ∈ asked, k ≤ 24 ∨ k ≤ snaplen h) (hr : IsRecord h r) (hrest : p.stream.rest = r ++ rest) :
      Turn env policy h tick p (.inr ⟨((p.ring.expire policy tick.now tick.wall).1.append policy
        (env.call h r).1 (env.call h r).2 tick.appendNow tick.appendWall tick.appendLater).1,
        ⟨rest, p.stream.asked ++ asked⟩, p.appended ++ [env.call h r]⟩)

/-- **One round**, while the ring is open and its policy has not ended. -/
theorem round_spec (env : Env) (policy : Policy) (h : Bytes) (tick : Tick) (p : Progress)
    (hopen : p.ring.closed = false) (hwall : tick.wall < policy.expiresAt) :
    Turn env policy h tick p (round env policy h tick p) := by
  have halive : (p.ring.expire policy tick.now tick.wall).2 = true := by
    change (!(p.ring.closed || decide (policy.expiresAt ≤ tick.wall))) = true
    rw [hopen, decide_eq_false (not_le.mpr hwall)]
    rfl
  obtain ⟨ks, hks, hread⟩ := Framing.readExact_spec env.short "truncated PCAP" 16 p.stream
  unfold round
  dsimp only
  rw [halive, hread, Bool.not_true, if_neg Bool.false_ne_true]
  have hks' : ∀ k ∈ ks, k ≤ 24 ∨ k ≤ snaplen h := fun k hk => Or.inl ((hks k hk).trans (by decide))
  by_cases hlen : 16 ≤ p.stream.rest.length
  · have hne : p.stream.rest ≠ [] := by
      intro hnil
      rw [hnil] at hlen
      exact absurd hlen (by decide)
    have hempty : (p.stream.rest.take 16).isEmpty = false := by
      rw [List.isEmpty_eq_false_iff, ne_eq, ← List.length_eq_zero_iff, List.length_take]
      omega
    rw [exactly, if_pos hlen]
    dsimp only
    rw [hempty, if_neg Bool.false_ne_true]
    split
    · next hinvalid =>
      -- a record would have the fields that were refused
      refine .refused _ _ ks hks' hne ?_
      intro r hr hl
      have hsize := hr.size
      have horiginal := hr.original
      have husec := hr.usec
      rw [hr.take hl] at hsize horiginal husec
      omega
    · next hvalid =>
      generalize hdef : field (isLittle h) (p.stream.rest.take 16) 8 4 = size at hvalid ⊢
      obtain ⟨ks', hks'', hread'⟩ := Framing.readExact_spec env.short "truncated PCAP" size
        ⟨p.stream.rest.drop 16, p.stream.asked ++ ks⟩
      have hasked : ∀ k ∈ ks ++ ks', k ≤ 24 ∨ k ≤ snaplen h := by
        intro k hk
        rcases List.mem_append.mp hk with hk | hk
        · exact hks' k hk
        · exact Or.inr ((hks'' k hk).trans (not_lt.mp (not_or.mp hvalid).1))
      rw [hread', List.append_assoc]
      by_cases hfull : size ≤ (p.stream.rest.drop 16).length
      · have hdata : ((p.stream.rest.drop 16).take size).length = size := List.length_take_of_le hfull
        rw [exactly, if_pos hfull]
        dsimp only
        rw [if_neg (not_not.mpr hdata)]
        have hfields : (p.stream.rest.take 16 ++ (p.stream.rest.drop 16).take size).take 16 =
            p.stream.rest.take 16 := List.take_left' (List.length_take_of_le hlen)
        have hturn : Turn env policy h tick p _ := Turn.record
          (p.stream.rest.take 16 ++ (p.stream.rest.drop 16).take size)
          ((p.stream.rest.drop 16).drop size) (ks ++ ks') hasked (isRecord_take hlen hdef hvalid hfull)
          (by rw [List.append_assoc, List.take_append_drop, List.take_append_drop])
        rw [Env.call, hfields] at hturn
        exact hturn
      · have hnone : ∀ r, IsRecord h r → ¬r <+: p.stream.rest := fun r hr =>
          not_prefix_of_short hdef hfull hr
        rw [exactly, if_neg hfull]
        -- an empty read is no error of the reader, but of the packet
        by_cases hnil : p.stream.rest.drop 16 = []
        · rw [if_pos hnil]
          dsimp only
          rw [if_pos (by rw [hnil] at hfull; exact fun heq => hfull heq.symm.le)]
          exact .refused _ _ _ hasked hne hnone
        · rw [if_neg hnil]
          exact .refused _ _ _ hasked hne hnone
  · -- less than a header: the end of the stream, or a record that is cut
    rw [exactly, if_neg hlen, List.drop_eq_nil_of_le (by omega)]
    by_cases hrest : p.stream.rest = []
    · rw [if_pos hrest]
      exact .ended ks hks' hrest
    · rw [if_neg hrest]
      refine .refused _ _ ks hks' hrest ?_
      intro r hr hl
      exact hlen (hr.header.trans hl.length_le)

/-! ### The loop -/

/-- How the loop ends: the records were appended, and what is left starts with
    no record. -/
structure Finished (env : Env) (policy : Policy) (h : Bytes) (i : Nat) (p : Progress)
    (records : List Bytes) (rest : Bytes) (o : Outcome) : Prop where
  split : p.stream.rest = records.flatten ++ rest
  framed : ∀ r ∈ records, IsRecord h r
  stuck : ∀ r, IsRecord h r → ¬r <+: rest
  appended : o.appended = p.appended ++ records.map (env.call h)
  ring : o.ring = env.feed policy i p.ring (records.map (env.call h))
  returned : o.result = .ok () ↔ rest = []
  asked : ∀ k ∈ o.stream.asked, k ∈ p.stream.asked ∨ k ≤ 24 ∨ k ≤ snaplen h

/-- The loop goes on as long as records come. -/
theorem Finished.cons {i : Nat} {p' : Progress} {records : List Bytes} {rest rest' : Bytes} {o : Outcome}
    {asked : List Nat} (hasked : ∀ k ∈ asked, k ≤ 24 ∨ k ≤ snaplen h) (hr : IsRecord h r)
    (hrest : p.stream.rest = r ++ rest')
    (hp' : p' = ⟨((p.ring.expire policy (env.ticks i).now (env.ticks i).wall).1.append policy
      (env.call h r).1 (env.call h r).2 (env.ticks i).appendNow (env.ticks i).appendWall
      (env.ticks i).appendLater).1, ⟨rest', p.stream.asked ++ asked⟩, p.appended ++ [env.call h r]⟩)
    (hf : Finished env policy h (i + 1) p' records rest o) :
    Finished env policy h i p (r :: records) rest o := by
  subst hp'
  have hsplit : rest' = records.flatten ++ rest := hf.split
  constructor
  · rw [hrest, hsplit, List.flatten_cons, List.append_assoc]
  · intro r' hr'
    rcases List.mem_cons.mp hr' with rfl | hr'
    · exact hr
    · exact hf.framed r' hr'
  · exact hf.stuck
  · rw [hf.appended, List.map_cons, List.append_assoc]
    rfl
  · exact hf.ring
  · exact hf.returned
  · intro k hk
    rcases hf.asked k hk with hold | hnew
    · exact (List.mem_append.mp hold).imp_right (hasked k)
    · exact Or.inr hnew

/-- **The loop** ends, after the records that it finds. -/
theorem rounds_spec (env : Env) (policy : Policy) (h : Bytes)
    (hwall : ∀ i, (env.ticks i).wall < policy.expiresAt) (fuel i : Nat) (p : Progress)
    (hopen : p.ring.closed = false) (hfuel : p.stream.rest.length < fuel) :
    ∃ records rest o, rounds env policy h fuel i p = some o ∧
      Finished env policy h i p records rest o := by
  induction fuel generalizing i p with
  | zero => exact absurd hfuel (Nat.not_lt_zero _)
  | succ fuel ih =>
    have hturn := round_spec env policy h (env.ticks i) p hopen (hwall i)
    rw [rounds]
    generalize round env policy h (env.ticks i) p = t at hturn ⊢
    cases hturn with
    | ended asked hasked hrest =>
      have hfree := isPrefixFree_record h
      refine ⟨[], [], _, rfl, hrest, nofun, ?_, (List.append_nil _).symm, rfl, iff_of_true rfl rfl, ?_⟩
      · intro r hr hl
        exact hfree.nonempty r hr (List.prefix_nil.mp hl)
      · exact fun k hk => (List.mem_append.mp hk).imp_right (hasked k)
    | refused e rest asked hasked hrest hnone =>
      refine ⟨[], p.stream.rest, _, rfl, rfl, nofun, hnone, (List.append_nil _).symm, rfl,
        iff_of_false nofun hrest, ?_⟩
      exact fun k hk => (List.mem_append.mp hk).imp_right (hasked k)
    | record r rest' asked hasked hr hrest =>
      have hheader := hr.header
      rw [hrest, List.length_append] at hfuel
      have hopen' := (closed_append policy (p.ring.expire policy (env.ticks i).now (env.ticks i).wall).1
        (env.call h r) (env.ticks i).appendNow (env.ticks i).appendWall
        (env.ticks i).appendLater).trans hopen
      obtain ⟨records, rest, o, hrun, hf⟩ := ih (i + 1) ⟨_, ⟨rest', p.stream.asked ++ asked⟩,
        p.appended ++ [env.call h r]⟩ hopen' (show rest'.length < fuel by omega)
      exact ⟨r :: records, rest, o, hrun, .cons hasked hr hrest rfl hf⟩

/-! ### The header -/

/-- **What `ingest` does** with the first 24 bytes. -/
theorem ingest_cases (env : Env) (policy : Policy) (ring : Ring) (bytes : Bytes) :
    ∃ asked, (∀ k ∈ asked, k ≤ 24) ∧
      ((∃ hlen : (bytes.take 24).length = 24, Admits ring (bytes.take 24) ∧
          ingest env policy ring bytes = rounds env policy (bytes.take 24) (bytes.length + 1) 0
            ⟨{ ring with header := some ⟨bytes.take 24, hlen⟩ }, ⟨bytes.drop 24, asked⟩, []⟩) ∨
        (¬Admits ring (bytes.take 24) ∧ ∃ e,
          ingest env policy ring bytes = some ⟨⟨ring, ⟨bytes.drop 24, asked⟩, []⟩, .error e⟩)) := by
  obtain ⟨ks, hks, hread⟩ := Framing.readExact_spec env.short "truncated PCAP" 24 ⟨bytes, []⟩
  refine ⟨ks, hks, ?_⟩
  unfold ingest
  rw [hread, List.nil_append]
  by_cases hfull : 24 ≤ bytes.length
  · have hlen : (bytes.take 24).length = 24 := List.length_take_of_le hfull
    rw [exactly, if_pos hfull]
    dsimp only
    rw [dif_pos hlen]
    split
    · next hmagic =>
      exact Or.inr ⟨fun ha => hmagic.1.elim (ha.header.magic.resolve_right hmagic.2), _, rfl⟩
    · next hmagic =>
      split
      · next hformat =>
        refine Or.inr ⟨fun ha => ?_, _, rfl⟩
        rw [ha.header.major, ha.header.minor] at hformat
        rcases hformat with hversion | hsnap
        · exact hversion rfl
        · exact hsnap ⟨ha.header.positive, ha.header.bounded⟩
      · next hformat =>
        obtain ⟨hversion, hsnap⟩ := not_or.mp hformat
        obtain ⟨hmajor, hminor⟩ := Prod.mk.inj (not_not.mp hversion)
        obtain ⟨hpositive, hbounded⟩ := not_not.mp hsnap
        split
        · next hchanged =>
          obtain ⟨old, hold, hne⟩ := (Option.any_eq_true _ _).mp hchanged
          exact Or.inr ⟨fun ha => of_decide_eq_true hne (ha.same old hold), _, rfl⟩
        · next hsame =>
          refine Or.inl ⟨hlen, ⟨⟨hlen, ?_, hmajor, hminor, hpositive, hbounded⟩, ?_⟩, rfl⟩
          · by_contra hnot
            exact hmagic (not_or.mp hnot)
          · intro old hold
            by_contra hne
            exact hsame ((Option.any_eq_true _ _).mpr ⟨old, hold, decide_eq_true hne⟩)
  · have hshort : ¬Admits ring (bytes.take 24) := by
      intro ha
      have hlen := ha.header.length
      rw [List.length_take] at hlen
      omega
    rw [exactly, if_neg hfull]
    by_cases hnil : bytes = []
    · rw [if_pos hnil]
      exact Or.inr ⟨hshort, _, rfl⟩
    · rw [if_neg hnil]
      exact Or.inr ⟨hshort, _, rfl⟩

theorem Starts.header_eq {records : List Bytes} (hs : Starts ring bytes h records) :
    h = bytes.take 24 := by
  obtain ⟨rest, rfl⟩ := hs.inside
  rw [List.append_assoc, List.take_left' hs.admits.header.length]

/-! ### The whole stream -/

/-- **Reading a capture**: whatever the stream gives at once, `ingest` ends and
    appends the records of the longest well-formed start of the bytes, it
    returns when that is all, and it asks for no more than a header or the
    longest packet of one. -/
theorem ingest_exact (env : Env) (policy : Policy) (ring : Ring) (bytes : Bytes)
    (hopen : ring.closed = false) (hwall : ∀ i, (env.ticks i).wall < policy.expiresAt) :
    ∃ o, ingest env policy ring bytes = some o ∧ Ingested env policy ring bytes o := by
  obtain ⟨asked, hasked, ⟨hlen, hadmits, hrun⟩ | ⟨hnot, e, hrun⟩⟩ :=
    ingest_cases env policy ring bytes
  · obtain ⟨records, rest, o, ho, hf⟩ := rounds_spec env policy (bytes.take 24) hwall
      (bytes.length + 1) 0 ⟨{ ring with header := some ⟨bytes.take 24, hlen⟩ }, ⟨bytes.drop 24, asked⟩, []⟩
      hopen (show (bytes.drop 24).length < _ by rw [List.length_drop]; omega)
    have hsplit : bytes.drop 24 = records.flatten ++ rest := hf.split
    have hbytes : bytes = bytes.take 24 ++ (records.flatten ++ rest) := by
      rw [← hsplit, List.take_append_drop]
    have hstarts : Starts ring bytes (bytes.take 24) records := by
      refine ⟨hadmits, hf.framed, ?_⟩
      conv_rhs => rw [hbytes]
      rw [List.prefix_append_right_inj]
      exact List.prefix_append _ _
    have hlongest : ∀ h' records', Starts ring bytes h' records' →
        h' = bytes.take 24 ∧ records' <+: records := by
      intro h' records' hs
      obtain rfl := hs.header_eq
      refine ⟨rfl, (isPrefixFree_record _).longest hf.framed hs.framed hf.stuck ?_⟩
      obtain ⟨tail, htail⟩ := hs.inside
      have hjoin : bytes.take 24 ++ (records'.flatten ++ tail) = bytes.take 24 ++ (records.flatten ++ rest) := by
        rw [← List.append_assoc, htail]
        exact hbytes
      exact ⟨tail, List.append_cancel_left hjoin⟩
    refine ⟨o, hrun.trans ho, Or.inl ⟨_, hlen, records, ⟨hstarts, hlongest⟩, hf.appended, hf.ring⟩, ?_, ?_⟩
    · rw [hf.returned]
      constructor
      · rintro rfl
        rw [List.append_nil] at hbytes
        exact ⟨_, records, hstarts, hbytes.symm⟩
      · rintro ⟨h', records', hs, hall⟩
        obtain ⟨rfl, more, rfl⟩ := hlongest h' records' hs
        have hrest := List.append_cancel_left (hall.trans hbytes)
        rw [List.flatten_append, List.append_assoc, List.self_eq_append_right] at hrest
        exact (List.append_eq_nil_iff.mp hrest).2
    · intro k hk
      rcases hf.asked k hk with hold | hsmall | hsnap
      · exact Or.inl (hasked k hold)
      · exact Or.inl hsmall
      · exact Or.inr ⟨_, records, hstarts, hsnap⟩
  · have hnone : ∀ h records, ¬Starts ring bytes h records := by
      intro h records hs
      exact hnot (hs.header_eq ▸ hs.admits)
    refine ⟨_, hrun, Or.inr ⟨hnone, rfl, rfl⟩, ?_, fun k hk => Or.inl (hasked k hk)⟩
    exact iff_of_false nofun fun ⟨h, records, hs, _⟩ => hnone h records hs

/-! ### A short capture -/

/-- A little-endian header for packets of `n` bytes. -/
def sampleHeader (n : UInt8) : Bytes :=
  MAGIC_LITTLE ++ [2, 0, 4, 0, 0, 0, 0, 0, 0, 0, 0, 0, n, 0, 0, 0, 1, 0, 0, 0]

/-- A stream that gives three bytes at once, on clocks that stand. -/
def sampleEnv : Env := ⟨fun _ => 3, fun sec usec => sec + usec / 1000000, fun _ => ⟨0, 0, 0, 0, 0⟩⟩

/-- A record of the second 7 with the microseconds 500000. -/
def sampleRecord (data : Bytes) : Bytes :=
  let n := UInt8.ofNat data.length
  [7, 0, 0, 0, 0x20, 0xa1, 7, 0, n, 0, 0, 0, n, 0, 0, 0] ++ data

/-- Two records, and one that is cut in its data. -/
def tornCapture : Bytes :=
  sampleHeader 64 ++ sampleRecord [1, 2, 3, 4, 5] ++ sampleRecord [] ++ (sampleRecord [6, 7, 8]).take 18

theorem torn_capture : (ingest sampleEnv minutePolicy (.init none) tornCapture).map (fun o => o.appended) =
      some [(15 / 2, sampleRecord [1, 2, 3, 4, 5]), (15 / 2, sampleRecord [])] ∧
    ∃ o, ingest sampleEnv minutePolicy (.init none) tornCapture = some o ∧
      Ingested sampleEnv minutePolicy (.init none) tornCapture o :=
  ⟨by decide +kernel, ingest_exact sampleEnv minutePolicy (.init none) tornCapture rfl fun _ => by
    change (0 : ℚ) < 1000
    decide +kernel⟩

/-- A header for packets of one byte: the reader asks for the 24 bytes of a
    header, and for the 16 of a record. -/
theorem asks_beyond_snaplen : ¬∀ (env : Env) (policy : Policy) (ring : Ring) (bytes : Bytes) (o : Outcome),
    ring.closed = false → (∀ i, (env.ticks i).wall < policy.expiresAt) →
      ingest env policy ring bytes = some o → ∀ h records, Starts ring bytes h records →
        ∀ k ∈ o.stream.asked, k ≤ snaplen h := by
  intro h
  have hasked : ((ingest sampleEnv minutePolicy (.init none) (sampleHeader 1)).map
      fun o => o.stream.asked.head?) = some (some 24) := by decide +kernel
  obtain ⟨o, hrun, hhead⟩ := Option.map_eq_some_iff.mp hasked
  have hstarts : Starts (.init none) (sampleHeader 1) (sampleHeader 1) [] := by
    refine ⟨⟨⟨rfl, Or.inl rfl, by decide, by decide, by decide, by decide⟩, nofun⟩, nofun, ?_⟩
    exact List.prefix_rfl
  have hle := h sampleEnv minutePolicy (.init none) (sampleHeader 1) o rfl
    (fun _ => by change (0 : ℚ) < 1000; decide +kernel) hrun _ _ hstarts 24 (List.mem_of_head? hhead)
  exact absurd hle (by decide)

end PacketRing
