import CernityNdr.Detectors.FailedPass
import CernityNdr.Framework.Joining
import CernityNdr.Framework.Number
import CernityNdr.Window.Keyed

/-! # State Keys

    The keys under which `_handle` of `behavioral-detectors/app.py` writes
    what it has seen of a tenant's hosts, and how `evaluate` takes them apart.
    A key joins its parts by `:`, and a source and its destination by `|`; it
    is parsed by position.

    * `text_inj`: which keys never collide.
    * `attributed_of_free`: what a section of the pass reads and offers for a
      key is about the host that the key was built from.
    * `state_keys_identify_iff`: the tenants and sources for which all of it
      holds. -/

open InMemoryStore (WriteOp)

namespace Behavioral

/-! ### Keys by their parts -/

/-- Keys of a source and a destination; of `bf` the destination is a domain. -/
inductive FlowKind
  | exf | exo | lcf | bc | bf
deriving DecidableEq

/-- Keys of one host. -/
inductive HostKind
  | kd | dn
deriving DecidableEq

/-- What `_handle` builds a key from. -/
inductive StateKey
  | flow (kind : FlowKind) (part : Int) (ten src dst : String)
  | host (kind : HostKind) (part : Int) (ten src : String)
  /-- `ctx:` -/
  | context (ten src dst : String)
  /-- `fi:` -/
  | domainIps (ten src dom : String)
  /-- `pv:` -/
  | prevalence (ten dst : String)
  /-- `i2d:` -/
  | resolved (ten dst : String)
deriving DecidableEq

def FlowKind.name : FlowKind → String
  | exf => "exf"
  | exo => "exo"
  | lcf => "lcf"
  | bc => "bc"
  | bf => "bf"

def HostKind.name : HostKind → String
  | kd => "kd"
  | dn => "dn"

namespace StateKey

def name : StateKey → String
  | flow kind _ _ _ _ => kind.name
  | host kind _ _ _ => kind.name
  | context _ _ _ => "ctx"
  | domainIps _ _ _ => "fi"
  | prevalence _ _ => "pv"
  | resolved _ _ => "i2d"

def ten : StateKey → String
  | flow _ _ ten _ _ | host _ _ ten _ | context ten _ _ | domainIps ten _ _ | prevalence ten _
  | resolved ten _ => ten

/-- The text of the partition, when the key has one. -/
def partText : StateKey → Option String
  | flow _ part _ _ _ | host _ part _ _ => some (String.ofList (Json.intText part))
  | _ => none

/-- The source that is separated from a destination. -/
def paired : StateKey → Option String
  | flow _ _ _ src _ | context _ src _ | domainIps _ src _ => some src
  | _ => none

/-- The address or domain at the end of the key. -/
def last : StateKey → String
  | flow _ _ _ _ dst | context _ _ dst | domainIps _ _ dst | prevalence _ dst | resolved _ dst => dst
  | host _ _ _ src => src

/-- What stands behind the tenant. -/
def entity (k : StateKey) : String := k.paired.elim k.last fun src => src ++ "|" ++ k.last

/-- The f-strings. -/
def text (k : StateKey) : String :=
  k.name ++ ":" ++ k.partText.elim "" (· ++ ":") ++ k.ten ++ ":" ++ k.entity

/-- Neither the tenant nor the source holds the separator behind it. -/
def Free (k : StateKey) : Prop := ':' ∉ k.ten.toList ∧ ∀ src ∈ k.paired, '|' ∉ src.toList

end StateKey

/-! ### The keys that are written -/

/-- The keys of a flow record, `dom` being the domain of its destination. -/
def Sighting.keys (g : Sighting) (part : Nat) (dom : Option String) : List StateKey :=
  [.context g.ten g.src g.dst, .prevalence g.ten g.dst, .flow .exf part g.ten g.src g.dst,
      .flow .exo part g.ten g.src g.dst, .flow .lcf part g.ten g.src g.dst,
      .host .kd part g.ten g.src, .resolved g.ten g.dst, .flow .bc part g.ten g.src g.dst] ++
    dom.elim [] fun dom => [.flow .bf part g.ten g.src dom, .domainIps g.ten g.src dom]

section Written

variable (env : Env)

/-- `dom[0]`. -/
def domainOf : Option Json → Option String
  | some (.arr (dom :: _)) => some (env.str dom)
  | _ => none

theorem stateKey_flow (kind : FlowKind) (part : Nat) (ten src dst : String) :
    stateKey (kind.name ++ ":") part ten (src ++ "|" ++ dst) =
      (StateKey.flow kind part ten src dst).text := by
  simp only [StateKey.text, StateKey.name, StateKey.partText, StateKey.ten, StateKey.entity,
    StateKey.paired, StateKey.last, Option.elim_some, stateKey, String.append_assoc]
  rfl

theorem stateKey_host (kind : HostKind) (part : Nat) (ten src : String) :
    stateKey (kind.name ++ ":") part ten src = (StateKey.host kind part ten src).text := by
  simp only [StateKey.text, StateKey.name, StateKey.partText, StateKey.ten, StateKey.entity,
    StateKey.paired, StateKey.last, Option.elim_some, Option.elim_none, stateKey,
    String.append_assoc]
  rfl

theorem text_unparted {k : StateKey} (name : String) {pfx : String} (h : k.partText = none)
    (hname : k.name = name) (hpfx : name ++ ":" = pfx) :
    k.text = pfx ++ k.ten ++ ":" ++ k.entity := by
  simp only [StateKey.text, h, Option.elim_none, hname, hpfx, String.append_empty]

theorem text_context (ten src dst : String) :
    (StateKey.context ten src dst).text = "ctx:" ++ ten ++ ":" ++ (src ++ "|" ++ dst) :=
  text_unparted "ctx" rfl rfl (by decide)

theorem text_domainIps (ten src dom : String) :
    (StateKey.domainIps ten src dom).text = "fi:" ++ ten ++ ":" ++ (src ++ "|" ++ dom) :=
  text_unparted "fi" rfl rfl (by decide)

theorem text_prevalence (ten dst : String) :
    (StateKey.prevalence ten dst).text = "pv:" ++ ten ++ ":" ++ dst :=
  text_unparted "pv" rfl rfl (by decide)

/-- Every write of a flow record is to one of its keys. -/
theorem writes_keys (g : Sighting) (part : Nat) (firstSeen : ℚ) (dom : Option Json) :
    ∀ op ∈ g.writes env part firstSeen ++ g.beaconWrites env part ++ g.domainWrites env part dom,
      ∃ k ∈ g.keys part (domainOf env dom), op.key = k.text := by
  intro op hop
  rcases List.mem_append.mp hop with hop | hop
  · rcases List.mem_append.mp hop with hop | hop
    · simp only [Sighting.writes, List.mem_cons, List.not_mem_nil, or_false] at hop
      rcases hop with rfl | rfl | rfl | rfl | rfl | rfl
      · exact ⟨.context g.ten g.src g.dst, by simp [Sighting.keys], (text_context ..).symm⟩
      · exact ⟨.prevalence g.ten g.dst, by simp [Sighting.keys], (text_prevalence ..).symm⟩
      · exact ⟨.flow .exf part g.ten g.src g.dst, by simp [Sighting.keys], stateKey_flow .exf ..⟩
      · exact ⟨.flow .exo part g.ten g.src g.dst, by simp [Sighting.keys], stateKey_flow .exo ..⟩
      · exact ⟨.flow .lcf part g.ten g.src g.dst, by simp [Sighting.keys], stateKey_flow .lcf ..⟩
      · exact ⟨.host .kd part g.ten g.src, by simp [Sighting.keys], stateKey_host .kd ..⟩
    · unfold Sighting.beaconWrites at hop
      split at hop
      · cases hop
      · rw [List.mem_singleton.mp hop]
        exact ⟨.flow .bc part g.ten g.src g.dst, by simp [Sighting.keys], stateKey_flow .bc ..⟩
  · unfold Sighting.domainWrites at hop
    split at hop
    · next dom rest hop =>
      simp only [List.mem_cons, List.not_mem_nil, or_false] at hop
      rcases hop with rfl | rfl
      · exact ⟨.flow .bf part g.ten g.src (env.str dom), by simp [Sighting.keys, domainOf],
          stateKey_flow .bf ..⟩
      · refine ⟨.domainIps g.ten g.src (env.str dom), by simp [Sighting.keys, domainOf], ?_⟩
        rw [text_domainIps, ← String.append_assoc, ← String.append_assoc]
        rfl
    · cases hop

end Written

/-! ### What a section owes to a key -/

/-- The key that a question is about. -/
def Query.key : Query → Option String
  | keysMatching _ => none
  | setMembers key | windowRange key | setLen key | kvGet key | fieldsGet key | zset key => some key

namespace StateKey

/-- The pass enumerates keys of this kind. -/
def Scanned : StateKey → Prop
  | flow kind _ _ _ _ => kind ≠ .exo
  | host _ _ _ _ => True
  | _ => False

/-- The keys that are read for a scanned key. -/
def reads : StateKey → List StateKey
  | flow .exf part ten src dst => [.flow .exf part ten src dst, .flow .exo part ten src dst,
      .context ten src dst, .prevalence ten dst]
  | flow .exo _ _ _ _ => []
  | flow .bf part ten src dom => [.flow .bf part ten src dom, .domainIps ten src dom]
  | flow kind part ten src dst => [.flow kind part ten src dst, .context ten src dst,
      .prevalence ten dst]
  | host kind part ten src => [.host kind part ten src]
  | _ => []

/-- The host in the evidence, with its destination where the key has one. -/
def subject : StateKey → List Json
  | flow .bf _ _ src dom =>
    [item "ip" (some "src") (.str src), item "domain" (some "c2") (.str dom)]
  | flow _ _ _ src dst => srcDst src dst
  | host .dn _ _ client => [item "ip" (some "client") (.str client)]
  | host .kd _ _ src => [item "ip" (some "src") (.str src)]
  | _ => []

/-- The tenant, the source, the destination and the partition are read off
    the key again. -/
def ReadBack : StateKey → Prop
  | k@(flow _ part ten src dst) => (keyParts k.text).1 = ten ∧
      pair (keyParts k.text).2 = (src, dst) ∧ partOf k.text = String.ofList (Json.intText part)
  | k@(host _ part ten src) =>
    keyParts k.text = (ten, src) ∧ partOf k.text = String.ofList (Json.intText part)
  | _ => True

/-- A candidate for the host of the key, or the key dropped from its index. -/
def Owns (k : StateKey) : Call → Prop
  | .offer c => c.tenant = k.ten ∧ ∃ items, k.subject <+: items ∧ c.entities = dumps items
  | .other (.setRemove idx key) =>
    key = k.text ∧ ∃ part ∈ k.partText, idx = "idx:" ++ (k.name ++ ":") ++ part
  | .other _ => False

/-- The question is about a key that was written with this one. -/
def Reads (k : StateKey) (q : Query) : Prop := ∃ k' ∈ k.reads, q.key = some k'.text

/-- Whatever the store answers, the program reads nothing but keys that were
    written with `k`, and makes no calls but those of `k`. -/
structure Keeps (k : StateKey) {α : Type} (m : Pass α) : Prop where
  makes : m.Makes k.Owns
  asks : m.Asks k.Reads

/-- In every pass the section of the key keeps to the key. -/
def Attributed (k : StateKey) : Prop :=
  ∀ (env : Env) (det : Scoring) (cfg : Config) (flowParts dnsParts : Option (List Nat))
    (rareSince : ℚ), ∀ scan ∈ scans env det cfg flowParts dnsParts rareSince,
    scan.pfx = k.name ++ ":" → k.Keeps (scan.body k.text)

end StateKey

/-- What is read for a key was written with it. -/
theorem reads_written {g : Sighting} {part : Nat} {dom : Option String} {k : StateKey}
    (hk : k ∈ g.keys part dom) : ∀ k' ∈ k.reads, k' ∈ g.keys part dom := by
  simp only [Sighting.keys, List.mem_append, List.mem_cons, List.not_mem_nil, or_false] at hk
  rcases hk with (rfl | rfl | rfl | rfl | rfl | rfl | rfl | rfl) | hk
  · simp [StateKey.reads]
  · simp [StateKey.reads]
  · simp [StateKey.reads, Sighting.keys]
  · simp [StateKey.reads]
  · simp [StateKey.reads, Sighting.keys]
  · simp [StateKey.reads, Sighting.keys]
  · simp [StateKey.reads]
  · simp [StateKey.reads, Sighting.keys]
  · cases dom with
    | none => cases hk
    | some dom =>
      simp only [Option.elim_some, List.mem_cons, List.not_mem_nil, or_false] at hk
      rcases hk with rfl | rfl
      · simp [StateKey.reads, Sighting.keys]
      · simp [StateKey.reads]

/-! ### Keys taken apart -/

section Parse

variable {k k' : StateKey} {p : String}

/-- The names are texts of the program. -/
theorem name_mem (k : StateKey) : k.name ∈ ["exf", "exo", "lcf", "bc", "bf", "kd", "dn", "ctx",
    "fi", "pv", "i2d"] := by
  cases k with
  | flow kind part ten src dst => cases kind <;> simp [StateKey.name, FlowKind.name]
  | host kind part ten src => cases kind <;> simp [StateKey.name, HostKind.name]
  | context | domainIps | prevalence | resolved => simp [StateKey.name]

theorem colon_notMem_name (k : StateKey) : ':' ∉ k.name.toList := by
  have hfree : ∀ name ∈ ["exf", "exo", "lcf", "bc", "bf", "kd", "dn", "ctx", "fi", "pv", "i2d"],
      ':' ∉ name.toList := by decide
  exact hfree _ (name_mem k)

theorem colon_notMem_partText (h : k.partText = some p) : ':' ∉ p.toList := by
  have hint : ∀ part : Int, ':' ∉ (String.ofList (Json.intText part)).toList := by
    intro part
    rw [String.toList_ofList]
    exact Number.notMem_intText (by decide) (by decide) part
  cases k with
  | flow kind part ten src dst => exact Option.some.inj h ▸ hint part
  | host kind part ten src => exact Option.some.inj h ▸ hint part
  | context | domainIps | prevalence | resolved => cases h

theorem toList_text (k : StateKey) : k.text.toList = k.name.toList ++ ':' ::
    ((k.partText.elim "" (· ++ ":")).toList ++ (k.ten.toList ++ ':' :: k.entity.toList)) := by
  simp [StateKey.text]

theorem toList_text_of_part (h : k.partText = some p) : k.text.toList =
    k.name.toList ++ ':' :: (p.toList ++ ':' :: (k.ten.toList ++ ':' :: k.entity.toList)) := by
  rw [toList_text, h]
  simp

theorem afterColon_append {l m : List Char} (h : ':' ∉ l) : afterColon (l ++ ':' :: m) = m :=
  congrArg Prod.snd (Joining.cut_append h)

theorem keyParts_text (h : k.partText = some p) : keyParts k.text =
    (String.ofList (Joining.cut ':' (k.ten.toList ++ ':' :: k.entity.toList)).1,
      String.ofList (Joining.cut ':' (k.ten.toList ++ ':' :: k.entity.toList)).2) := by
  unfold keyParts
  rw [toList_text_of_part h, afterColon_append (colon_notMem_name k),
    afterColon_append (colon_notMem_partText h)]
  rfl

theorem keyParts_of_free (h : k.partText = some p) (hten : ':' ∉ k.ten.toList) :
    keyParts k.text = (k.ten, k.entity) := by
  rw [keyParts_text h, Joining.cut_append hten, String.ofList_toList, String.ofList_toList]

theorem partOf_text (h : k.partText = some p) : partOf k.text = p := by
  unfold partOf
  rw [toList_text_of_part h, afterColon_append (colon_notMem_name k)]
  change String.ofList (Joining.cut ':' (p.toList ++ ':' :: _)).1 = p
  rw [Joining.cut_append (colon_notMem_partText h), String.ofList_toList]

theorem prefixOf_text (k : StateKey) : prefixOf k.text = k.name ++ ":" := by
  unfold prefixOf
  rw [toList_text]
  change String.ofList (Joining.cut ':' (k.name.toList ++ ':' :: _)).1 ++ ":" = k.name ++ ":"
  rw [Joining.cut_append (colon_notMem_name k), String.ofList_toList]

theorem pair_append {src dst : String} :
    pair (src ++ "|" ++ dst) = (String.ofList (Joining.cut '|' (src.toList ++ '|' :: dst.toList)).1,
      String.ofList (Joining.cut '|' (src.toList ++ '|' :: dst.toList)).2) := by
  have hlist : (src ++ "|" ++ dst).toList = src.toList ++ '|' :: dst.toList := by simp
  unfold pair
  rw [hlist]
  rfl

theorem pair_of_free {src dst : String} (h : '|' ∉ src.toList) :
    pair (src ++ "|" ++ dst) = (src, dst) := by
  rw [pair_append, Joining.cut_append h, String.ofList_toList, String.ofList_toList]

/-- The partition is always read back; the tenant and the source are when they
    are free of the separators. -/
theorem readBack_of_free (h : k.Free) : k.ReadBack := by
  cases k with
  | flow kind part ten src dst =>
    have hparts : keyParts (StateKey.flow kind part ten src dst).text = (ten, src ++ "|" ++ dst) :=
      keyParts_of_free rfl h.1
    refine ⟨congrArg Prod.fst hparts, ?_, partOf_text rfl⟩
    rw [hparts]
    exact pair_of_free (h.2 src rfl)
  | host kind part ten src => exact ⟨keyParts_of_free rfl h.1, partOf_text rfl⟩
  | context | domainIps | prevalence | resolved => trivial

/-! ### No two keys collide -/

theorem FlowKind.name_injective : Function.Injective FlowKind.name := by
  intro kind kind' h
  cases kind <;> cases kind' <;> first | rfl | exact absurd h (by decide)

theorem HostKind.name_injective : Function.Injective HostKind.name := by
  intro kind kind' h
  cases kind <;> cases kind' <;> first | rfl | exact absurd h (by decide)

theorem partText_isSome (k : StateKey) : k.partText.isSome =
    decide (k.name ∈ ["exf", "exo", "lcf", "bc", "bf", "kd", "dn"]) := by
  cases k with
  | flow kind part ten src dst => cases kind <;> rfl
  | host kind part ten src => cases kind <;> rfl
  | context | domainIps | prevalence | resolved => rfl

theorem paired_isSome (k : StateKey) : k.paired.isSome =
    decide (k.name ∈ ["exf", "exo", "lcf", "bc", "bf", "ctx", "fi"]) := by
  cases k with
  | flow kind part ten src dst => cases kind <;> rfl
  | host kind part ten src => cases kind <;> rfl
  | context | domainIps | prevalence | resolved => rfl

/-- The parts determine the key. -/
theorem eq_of_parts (hname : k.name = k'.name) (hpart : k.partText = k'.partText)
    (hten : k.ten = k'.ten) (hpaired : k.paired = k'.paired) (hlast : k.last = k'.last) :
    k = k' := by
  cases k with
  | flow kind part ten src dst =>
    cases k' with
    | flow kind' part' ten' src' dst' =>
      obtain rfl : part = part' :=
        Number.intText_injective (String.ofList_injective (Option.some.inj hpart))
      cases FlowKind.name_injective hname
      cases hten
      cases hpaired
      cases hlast
      rfl
    | host | prevalence | resolved => cases hpaired
    | context | domainIps => cases hpart
  | host kind part ten src =>
    cases k' with
    | host kind' part' ten' src' =>
      obtain rfl : part = part' :=
        Number.intText_injective (String.ofList_injective (Option.some.inj hpart))
      cases HostKind.name_injective hname
      cases hten
      cases hlast
      rfl
    | flow | context | domainIps => cases hpaired
    | prevalence | resolved => cases hpart
  | context ten src dst =>
    cases k' with
    | context => cases hten; cases hpaired; cases hlast; rfl
    | domainIps => exact absurd (show "ctx" = "fi" from hname) (by decide)
    | flow => cases hpart
    | host | prevalence | resolved => cases hpaired
  | domainIps ten src dom =>
    cases k' with
    | domainIps => cases hten; cases hpaired; cases hlast; rfl
    | context => exact absurd (show "fi" = "ctx" from hname) (by decide)
    | flow => cases hpart
    | host | prevalence | resolved => cases hpaired
  | prevalence ten dst =>
    cases k' with
    | prevalence => cases hten; cases hlast; rfl
    | resolved => exact absurd (show "pv" = "i2d" from hname) (by decide)
    | flow | host => cases hpart
    | context | domainIps => cases hpaired
  | resolved ten dst =>
    cases k' with
    | resolved => cases hten; cases hlast; rfl
    | prevalence => exact absurd (show "i2d" = "pv" from hname) (by decide)
    | flow | host => cases hpart
    | context | domainIps => cases hpaired

theorem none_or_some_of_isSome_eq {α : Type} {a b : Option α} (h : a.isSome = b.isSome) :
    (a = none ∧ b = none) ∨ ∃ x y, a = some x ∧ b = some y := by
  cases a with
  | none => exact Or.inl ⟨rfl, Option.isSome_eq_false_iff.mp h.symm |> Option.isNone_iff_eq_none.mp⟩
  | some x =>
    obtain ⟨y, hy⟩ := Option.isSome_iff_exists.mp h.symm
    exact Or.inr ⟨x, y, rfl, hy⟩

/-- The partitions and what stands behind them. -/
theorem partText_inj (hname : k.name = k'.name) {l l' : List Char}
    (heq : (k.partText.elim "" (· ++ ":")).toList ++ l =
      (k'.partText.elim "" (· ++ ":")).toList ++ l') :
    k.partText = k'.partText ∧ l = l' := by
  have hsome : k.partText.isSome = k'.partText.isSome := by
    rw [partText_isSome, partText_isSome, hname]
  rcases none_or_some_of_isSome_eq hsome with ⟨hp, hp'⟩ | ⟨p, p', hp, hp'⟩
  · rw [hp, hp'] at heq ⊢
    exact ⟨rfl, heq⟩
  · rw [hp, hp'] at heq ⊢
    simp only [Option.elim_some, String.toList_append, List.append_assoc] at heq
    obtain ⟨hpp, hll⟩ :=
      Joining.cut_inj (colon_notMem_partText hp) (colon_notMem_partText hp') heq
    exact ⟨congrArg some (String.toList_inj.mp hpp), hll⟩

theorem entity_inj (hname : k.name = k'.name) (h : ∀ src ∈ k.paired, '|' ∉ src.toList)
    (h' : ∀ src ∈ k'.paired, '|' ∉ src.toList) (heq : k.entity.toList = k'.entity.toList) :
    k.paired = k'.paired ∧ k.last = k'.last := by
  have hsome : k.paired.isSome = k'.paired.isSome := by
    rw [paired_isSome, paired_isSome, hname]
  unfold StateKey.entity at heq
  rcases none_or_some_of_isSome_eq hsome with ⟨hs, hs'⟩ | ⟨src, src', hs, hs'⟩
  · rw [hs, hs'] at heq ⊢
    exact ⟨rfl, String.toList_inj.mp heq⟩
  · rw [hs, hs'] at heq ⊢
    simp only [Option.elim_some, String.toList_append, List.append_assoc] at heq
    obtain ⟨hsrc, hlast⟩ := Joining.cut_inj (h src hs) (h' src' hs') heq
    exact ⟨congrArg some (String.toList_inj.mp hsrc), String.toList_inj.mp hlast⟩

theorem text_inj (h : k.Free) (h' : k'.Free) (heq : k.text = k'.text) : k = k' := by
  have hlist := congrArg String.toList heq
  rw [toList_text, toList_text] at hlist
  obtain ⟨hname, htail⟩ := Joining.cut_inj (colon_notMem_name k) (colon_notMem_name k') hlist
  have hname := String.toList_inj.mp hname
  obtain ⟨hpart, hrest⟩ := partText_inj hname htail
  obtain ⟨hten, hentity⟩ := Joining.cut_inj h.1 h'.1 hrest
  obtain ⟨hpaired, hlast⟩ := entity_inj hname h.2 h'.2 hentity
  exact eq_of_parts hname hpart (String.toList_inj.mp hten) hpaired hlast

end Parse

/-! ### Sections keep to their key -/

section Sections

variable {env : Env} {det : Scoring} {cfg : Config} {k : StateKey} {p ten src dst : String}

theorem StateKey.Keeps.bind {α β : Type} {m : Pass α} {f : α → Pass β} (h : k.Keeps m)
    (hf : ∀ a, k.Keeps (f a)) : k.Keeps (m.bind f) :=
  ⟨h.makes.bind fun a => (hf a).makes, h.asks.bind fun a => (hf a).asks⟩

theorem keeps_pure : k.Keeps (pure () : Pass Unit) := ⟨trivial, trivial⟩

theorem keeps_each {β : Type} {bs : List β} {f : β → Pass Unit} (h : ∀ b, k.Keeps (f b)) :
    k.Keeps (Program.each bs f) :=
  ⟨Program.makes_each fun b => (h b).makes, Program.asks_each fun b => (h b).asks⟩

theorem keeps_pruneIndex (h : k.partText = some p) : k.Keeps (pruneIndex env k.text) := by
  unfold pruneIndex
  split
  · refine ⟨Program.makes_call ⟨rfl, p, h, ?_⟩, Program.asks_call _⟩
    rw [prefixOf_text, partOf_text h]
  · exact keeps_pure

theorem keeps_offer {c : Candidate} (hten : c.tenant = k.ten) {items : List Json}
    (hentities : c.entities = dumps items) (hsubject : k.subject <+: items) : k.Keeps (offer c) :=
  ⟨Program.makes_call ⟨hten, items, hsubject, hentities⟩, Program.asks_call _⟩

theorem keeps_ask {q : Query} (k' : StateKey) (hq : q.key = some k'.text) (h : k' ∈ k.reads) :
    k.Keeps (ask q) := ⟨makes_ask _ q, Program.asks_question ⟨k', h, hq⟩⟩

theorem keeps_context (h : .context ten src dst ∈ k.reads) :
    k.Keeps (kvGet ("ctx:" ++ ten ++ ":" ++ src ++ "|" ++ dst)) := by
  refine keeps_ask _ ?_ h
  rw [text_context]
  simp only [Query.key, String.append_assoc]

theorem keeps_prevalence (h : .prevalence ten dst ∈ k.reads) :
    k.Keeps (setLen ("pv:" ++ ten ++ ":" ++ dst)) :=
  keeps_ask _ (congrArg some (text_prevalence ten dst).symm) h

theorem keeps_domainIps (h : .domainIps ten src dst ∈ k.reads) :
    k.Keeps (setLen ("fi:" ++ ten ++ ":" ++ src ++ "|" ++ dst)) := by
  refine keeps_ask _ ?_ h
  rw [text_domainIps]
  simp only [Query.key, String.append_assoc]

theorem text_flow (kind : FlowKind) {pfx : String} (hpfx : kind.name ++ ":" = pfx) (part : Int)
    (ten src dst : String) : (StateKey.flow kind part ten src dst).text =
      pfx ++ (String.ofList (Json.intText part) ++ ":" ++ ten ++ ":" ++ (src ++ "|" ++ dst)) := by
  rw [← hpfx]
  simp only [StateKey.text, StateKey.name, StateKey.partText, StateKey.ten, StateKey.entity,
    StateKey.paired, StateKey.last, Option.elim_some, String.append_assoc]

/-- The observed times are read under the key of the same pair. -/
theorem keeps_observed (part : Int) : (StateKey.flow .exf part ten src dst).Keeps
    (windowRange ("exo:" ++ String.ofList
      ((StateKey.flow .exf part ten src dst).text.toList.drop EX_PFX.length))) := by
  have hdrop : ∀ rest : String, (EX_PFX ++ rest).toList.drop EX_PFX.length = rest.toList := by
    intro rest
    rw [String.toList_append]
    rfl
  refine keeps_ask (.flow .exo part ten src dst) ?_ (by simp [StateKey.reads])
  rw [text_flow .exf (show _ = EX_PFX by decide), hdrop, String.ofList_toList,
    text_flow .exo (show _ = "exo:" by decide)]
  rfl

/-! ### The bodies of the sections -/

variable {part : Int}

theorem keeps_beacon (hten : ':' ∉ ten.toList) (hsrc : '|' ∉ src.toList) :
    (StateKey.flow .bc part ten src dst).Keeps
      (beacon env det cfg (StateKey.flow .bc part ten src dst).text) := by
  have hparts : keyParts (StateKey.flow .bc part ten src dst).text = (ten, src ++ "|" ++ dst) :=
    keyParts_of_free rfl hten
  have hpair : pair (src ++ "|" ++ dst) = (src, dst) := pair_of_free hsrc
  have hoffer : ∀ id sev score more obs, (StateKey.flow .bc part ten src dst).Keeps
      (offer ⟨id, "c2", sev, score, dumps (srcDst src dst ++ more), ten, obs⟩) :=
    fun id sev score more obs => keeps_offer rfl rfl (List.prefix_append _ _)
  simp only [beacon, hparts, hpair, List.append_assoc]
  refine (keeps_ask _ rfl List.mem_cons_self).bind fun rng => ?_
  split
  · exact keeps_pruneIndex rfl
  · refine (keeps_prevalence (by simp [StateKey.reads])).bind fun assets =>
      (keeps_context (by simp [StateKey.reads])).bind fun ctx => ?_
    repeat' first
      | exact hoffer ..
      | exact keeps_pure
      | refine StateKey.Keeps.bind ?_ fun _ => ?_
      | split

theorem keeps_fqdnBeacon (hten : ':' ∉ ten.toList) (hsrc : '|' ∉ src.toList) :
    (StateKey.flow .bf part ten src dst).Keeps
      (fqdnBeacon env det (StateKey.flow .bf part ten src dst).text) := by
  have hparts : keyParts (StateKey.flow .bf part ten src dst).text = (ten, src ++ "|" ++ dst) :=
    keyParts_of_free rfl hten
  have hpair : pair (src ++ "|" ++ dst) = (src, dst) := pair_of_free hsrc
  simp only [fqdnBeacon, hparts, hpair]
  refine (keeps_ask _ rfl List.mem_cons_self).bind fun rng => ?_
  split
  · exact keeps_pruneIndex rfl
  · refine (keeps_domainIps (by simp [StateKey.reads])).bind fun ips => ?_
    have hemit : ∀ b score items obs, (StateKey.flow .bf part ten src dst).Keeps
        (if b = true then offer ⟨"beacon_fqdn", "c2", det.gatedSeverity 8 (.str "") (.arr []) none,
          score, dumps ([item "ip" (some "src") (.str src), item "domain" (some "c2") (.str dst),
            item "rotating_ips" none (.int ips)] ++ items), ten, obs⟩
        else pure ()) := by
      intro b score items obs
      split
      · exact keeps_offer rfl rfl ⟨_, rfl⟩
      · exact keeps_pure
    split
    · exact hemit ..
    · exact hemit ..

theorem keeps_dnsTunnel (hten : ':' ∉ ten.toList) : (StateKey.host .dn part ten src).Keeps
    (dnsTunnel env det cfg (StateKey.host .dn part ten src).text) := by
  have hparts : keyParts (StateKey.host .dn part ten src).text = (ten, src) :=
    keyParts_of_free rfl hten
  simp only [dnsTunnel, hparts]
  refine (keeps_ask _ rfl List.mem_cons_self).bind fun rng => ?_
  split
  · exact keeps_pruneIndex rfl
  · have hexploded : ∀ b score parent obs, (StateKey.host .dn part ten src).Keeps
        (if b = true then offer ⟨"dns_exploded", "dns_tunnel", 6, score,
          dumps [item "ip" (some "client") (.str src),
            item "domain" (some "tunnel_parent") (.str parent)], ten, obs⟩
        else pure ()) := by
      intro b score parent obs
      split
      · exact keeps_offer rfl rfl ⟨_, rfl⟩
      · exact keeps_pure
    split
    · exact (keeps_offer rfl rfl ⟨[], rfl⟩).bind fun _ => hexploded ..
    · exact hexploded ..

theorem keeps_exfil (hten : ':' ∉ ten.toList) (hsrc : '|' ∉ src.toList) :
    (StateKey.flow .exf part ten src dst).Keeps
      (exfil env det cfg (StateKey.flow .exf part ten src dst).text) := by
  have hparts : keyParts (StateKey.flow .exf part ten src dst).text = (ten, src ++ "|" ++ dst) :=
    keyParts_of_free rfl hten
  have hpair : pair (src ++ "|" ++ dst) = (src, dst) := pair_of_free hsrc
  simp only [exfil, hparts, hpair, List.append_assoc]
  refine (keeps_ask _ rfl List.mem_cons_self).bind fun flows => ?_
  split
  · exact keeps_pruneIndex rfl
  · split
    · exact keeps_pure
    · refine (keeps_observed part).bind fun exo => ?_
      split
      · refine (keeps_context (by simp [StateKey.reads])).bind fun ctx =>
          (keeps_prevalence (by simp [StateKey.reads])).bind fun assets => ?_
        exact keeps_offer rfl rfl (List.prefix_append _ _)
      · split
        · exact keeps_offer rfl rfl (List.prefix_append _ _)
        · exact keeps_pure

theorem keeps_longconn (hten : ':' ∉ ten.toList) (hsrc : '|' ∉ src.toList) :
    (StateKey.flow .lcf part ten src dst).Keeps
      (longconnCumulative env det cfg (StateKey.flow .lcf part ten src dst).text) := by
  have hparts : keyParts (StateKey.flow .lcf part ten src dst).text = (ten, src ++ "|" ++ dst) :=
    keyParts_of_free rfl hten
  have hpair : pair (src ++ "|" ++ dst) = (src, dst) := pair_of_free hsrc
  simp only [longconnCumulative, hparts, hpair, List.append_assoc]
  refine (keeps_ask _ rfl List.mem_cons_self).bind fun flows => ?_
  split
  · exact keeps_pruneIndex rfl
  · split
    · exact keeps_pure
    · split
      · refine (keeps_context (by simp [StateKey.reads])).bind fun ctx =>
          (keeps_prevalence (by simp [StateKey.reads])).bind fun assets => ?_
        exact keeps_offer rfl rfl (List.prefix_append _ _)
      · exact keeps_pure

theorem keeps_zsetSince (minScore : ℚ) : (StateKey.host .kd part ten src).Keeps
    (zsetSince (StateKey.host .kd part ten src).text minScore) :=
  (keeps_ask _ rfl List.mem_cons_self).bind fun _ => ⟨trivial, trivial⟩

theorem keeps_rareDestination (hten : ':' ∉ ten.toList) (member : String) :
    (StateKey.host .kd part ten src).Keeps
      (rareDestination (StateKey.host .kd part ten src).text member) := by
  have hparts : keyParts (StateKey.host .kd part ten src).text = (ten, src) :=
    keyParts_of_free rfl hten
  have hrank : (StateKey.host .kd part ten src).Keeps
      (zsetRank (StateKey.host .kd part ten src).text member) :=
    (keeps_ask _ rfl List.mem_cons_self).bind fun _ => ⟨trivial, trivial⟩
  simp only [rareDestination, hparts]
  refine hrank.bind fun rank => ?_
  split
  · exact keeps_offer rfl rfl ⟨_, rfl⟩
  · exact keeps_pure

theorem keeps_rareDestinations (hten : ':' ∉ ten.toList) (rareSince : ℚ) :
    (StateKey.host .kd part ten src).Keeps
      (rareDestinations env rareSince (StateKey.host .kd part ten src).text) := by
  refine (keeps_zsetSince rareSince).bind fun news => ?_
  split
  · exact keeps_each (keeps_rareDestination hten)
  · refine (keeps_zsetSince 0).bind fun known => ?_
    split
    · exact keeps_pruneIndex rfl
    · exact keeps_pure

theorem name_of_prefix {name : String} (h : name ++ ":" = k.name ++ ":") : name = k.name := by
  have hlist := congrArg String.toList h
  rw [String.toList_append, String.toList_append] at hlist
  exact String.toList_inj.mp (List.append_cancel_right hlist)

/-- The kind of a key is read off its prefix. -/
theorem exists_flow {kind : FlowKind} (h : kind.name ++ ":" = k.name ++ ":") :
    ∃ part ten src dst, k = .flow kind part ten src dst := by
  have hname := name_of_prefix h
  cases k with
  | flow kind' part ten src dst =>
    cases FlowKind.name_injective hname
    exact ⟨part, ten, src, dst, rfl⟩
  | host kind' part ten src =>
    cases kind <;> cases kind' <;> simp [StateKey.name, FlowKind.name, HostKind.name] at hname
  | context | domainIps | prevalence | resolved =>
    cases kind <;> simp [StateKey.name, FlowKind.name] at hname

theorem exists_host {kind : HostKind} (h : kind.name ++ ":" = k.name ++ ":") :
    ∃ part ten src, k = .host kind part ten src := by
  have hname := name_of_prefix h
  cases k with
  | host kind' part ten src =>
    cases HostKind.name_injective hname
    exact ⟨part, ten, src, rfl⟩
  | flow kind' part ten src dst =>
    cases kind <;> cases kind' <;> simp [StateKey.name, FlowKind.name, HostKind.name] at hname
  | context | domainIps | prevalence | resolved =>
    cases kind <;> simp [StateKey.name, HostKind.name] at hname

theorem attributed_of_free (h : k.Free) : k.Attributed := by
  intro env det cfg flowParts dnsParts rareSince scan hscan hpfx
  simp only [scans, windowScans, rareScan, List.mem_append, List.mem_cons, List.not_mem_nil,
    or_false] at hscan
  rcases hscan with (rfl | rfl | rfl | rfl | rfl) | rfl
  · obtain ⟨part, ten, src, dst, rfl⟩ := exists_flow (show FlowKind.bc.name ++ ":" = _ from hpfx)
    exact keeps_beacon h.1 (h.2 src rfl)
  · obtain ⟨part, ten, src, dst, rfl⟩ := exists_flow (show FlowKind.bf.name ++ ":" = _ from hpfx)
    exact keeps_fqdnBeacon h.1 (h.2 src rfl)
  · obtain ⟨part, ten, src, rfl⟩ := exists_host (show HostKind.dn.name ++ ":" = _ from hpfx)
    exact keeps_dnsTunnel h.1
  · obtain ⟨part, ten, src, dst, rfl⟩ := exists_flow (show FlowKind.exf.name ++ ":" = _ from hpfx)
    exact keeps_exfil h.1 (h.2 src rfl)
  · obtain ⟨part, ten, src, dst, rfl⟩ := exists_flow (show FlowKind.lcf.name ++ ":" = _ from hpfx)
    exact keeps_longconn h.1 (h.2 src rfl)
  · obtain ⟨part, ten, src, rfl⟩ := exists_host (show HostKind.kd.name ++ ":" = _ from hpfx)
    exact keeps_rareDestinations h.1 rareSince

end Sections

/-! ### The devices of a deployment -/

/-- A tenant and a source address of it. -/
structure Device where
  ten : String
  src : String
  ten_ne : ten ≠ ""
  src_ne : src ≠ ""

/-- The key is built from one of the devices. -/
def StateKey.Of (D : Set Device) : StateKey → Prop
  | flow _ _ ten src dst | context ten src dst | domainIps ten src dst =>
    (∃ d ∈ D, d.ten = ten ∧ d.src = src) ∧ dst ≠ ""
  | host _ _ ten src => ∃ d ∈ D, d.ten = ten ∧ d.src = src
  | prevalence ten dst | resolved ten dst => (∃ d ∈ D, d.ten = ten) ∧ dst ≠ ""

/-- The keys of these devices identify tenant and entity, to the reader of a
    text and to the sections of every pass; a record writes these keys, and
    what is read for one of them it has written too. -/
structure KeysIdentify (D : Set Device) : Prop where
  written : ∀ (env : Env) (g : Sighting) (part : Nat) (firstSeen : ℚ) (dom : Option Json),
    (∀ op ∈ g.writes env part firstSeen ++ g.beaconWrites env part ++ g.domainWrites env part dom,
      ∃ k ∈ g.keys part (domainOf env dom), op.key = k.text) ∧
    ∀ k ∈ g.keys part (domainOf env dom), ∀ k' ∈ k.reads, k' ∈ g.keys part (domainOf env dom)
  injective : ∀ k k' : StateKey, k.Of D → k'.Of D → k.text = k'.text → k = k'
  readBack : ∀ k : StateKey, k.Of D → k.Scanned → k.ReadBack
  attributed : ∀ k : StateKey, k.Of D → k.Scanned → k.Attributed

theorem free_of_devices {D : Set Device} (h : ∀ d ∈ D, ':' ∉ d.ten.toList ∧ '|' ∉ d.src.toList)
    {k : StateKey} (hk : k.Of D) : k.Free := by
  cases k with
  | flow | context | domainIps =>
    obtain ⟨⟨d, hd, rfl, rfl⟩, -⟩ := hk
    refine ⟨(h d hd).1, ?_⟩
    rintro src ⟨⟩
    exact (h d hd).2
  | host =>
    obtain ⟨d, hd, rfl, rfl⟩ := hk
    exact ⟨(h d hd).1, by rintro src ⟨⟩⟩
  | prevalence | resolved =>
    obtain ⟨⟨d, hd, rfl⟩, -⟩ := hk
    exact ⟨(h d hd).1, by rintro src ⟨⟩⟩

/-- The first-seen key of a device is read back only when no separator is in
    the tenant. -/
theorem colon_notMem_of_readBack {ten src : String} (h : (StateKey.host .kd 0 ten src).ReadBack) :
    ':' ∉ ten.toList := by
  have hten := congrArg Prod.fst h.1
  rw [keyParts_text rfl] at hten
  have hcut := congrArg String.toList hten
  rw [String.toList_ofList] at hcut
  exact Joining.cut_append_fst_eq_iff.mp hcut

theorem bar_notMem_of_readBack {ten src dst : String} (hten : ':' ∉ ten.toList)
    (h : (StateKey.flow .exf 0 ten src dst).ReadBack) : '|' ∉ src.toList := by
  have hparts : keyParts (StateKey.flow .exf 0 ten src dst).text = (ten, src ++ "|" ++ dst) :=
    keyParts_of_free rfl hten
  have hsrc := congrArg Prod.fst h.2.1
  rw [hparts, pair_append] at hsrc
  have hcut := congrArg String.toList hsrc
  rw [String.toList_ofList] at hcut
  exact Joining.cut_append_fst_eq_iff.mp hcut

/-- State keys identify tenant and entity for exactly the devices without `:`
    in the tenant and `|` in the source. -/
theorem state_keys_identify_iff (D : Set Device) :
    KeysIdentify D ↔ ∀ d ∈ D, ':' ∉ d.ten.toList ∧ '|' ∉ d.src.toList := by
  constructor
  · intro h d hd
    have hkd := h.readBack (.host .kd 0 d.ten d.src) ⟨d, hd, rfl, rfl⟩ trivial
    have hten := colon_notMem_of_readBack hkd
    have hexf := h.readBack (.flow .exf 0 d.ten d.src "203.0.113.9")
      ⟨⟨d, hd, rfl, rfl⟩, by decide⟩ (by simp [StateKey.Scanned])
    exact ⟨hten, bar_notMem_of_readBack hten hexf⟩
  · intro h
    constructor
    · exact fun env g part firstSeen dom =>
        ⟨writes_keys env g part firstSeen dom, fun k hk => reads_written hk⟩
    · exact fun k k' hk hk' => text_inj (free_of_devices h hk) (free_of_devices h hk')
    · exact fun k hk _ => readBack_of_free (free_of_devices h hk)
    · exact fun k hk _ => attributed_of_free (free_of_devices h hk)

theorem colonSite_ten_ne : "lab:2001" ≠ "" := by decide

theorem plainSite_ten_ne : "lab" ≠ "" := by decide

theorem site_src_ne : "10.0.0.11" ≠ "" := by decide

/-- A site whose tenant is named with a colon. -/
def colonSite : Device := ⟨"lab:2001", "10.0.0.11", colonSite_ten_ne, site_src_ne⟩

def plainSite : Device := ⟨"lab", "10.0.0.11", plainSite_ten_ne, site_src_ne⟩

/-- The prevalence of one address at one site is that of another address at
    the other, and the pass takes the host of the first for one of the second. -/
theorem colon_tenant_misread : ¬ KeysIdentify {colonSite, plainSite} ∧
    (StateKey.prevalence "lab:2001" "db8::1").text =
      (StateKey.prevalence "lab" "2001:db8::1").text ∧
    keyParts (StateKey.host .kd 0 "lab:2001" "10.0.0.11").text = ("lab", "2001:10.0.0.11") := by
  have hcollide : (StateKey.prevalence "lab:2001" "db8::1").text =
      (StateKey.prevalence "lab" "2001:db8::1").text := by decide
  refine ⟨?_, hcollide, by decide⟩
  intro h
  have heq := h.injective (.prevalence "lab:2001" "db8::1") (.prevalence "lab" "2001:db8::1")
    ⟨⟨colonSite, Or.inl rfl, rfl⟩, by decide⟩ ⟨⟨plainSite, Or.inr rfl, rfl⟩, by decide⟩ hcollide
  exact absurd heq (by decide)

end Behavioral
