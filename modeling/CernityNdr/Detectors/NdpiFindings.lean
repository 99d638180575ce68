import Mathlib.Data.Rat.Defs
import CernityNdr.Detectors.NdpiRisks

/-! # Findings of nDPI

    The second half of `services/behavioral-detectors/ndpi_policy.py`: the
    verdict on a risk by its exact name and its tier, the one on the breed of a
    protocol, and the findings, one for each category of verdicts.

    * `byCat_spec`: the group of a category, whatever the order of its verdicts.
    * `sound_iff`: the `ndpi` objects whose findings are as they should be. -/

namespace NdpiPolicy

open Json (Dict)
open ManagedConfig (Failure)

/-! ### Verdicts -/

def POLICY_VERSION : String := "ndpi-classification-v1"

def DETECTOR_VERSION : String := "2.0"

inductive Category
  | anomaly | exploit | observation | policy | unclassified
deriving DecidableEq, Repr

namespace Category

def name : Category → String
  | anomaly => "anomaly"
  | exploit => "exploit"
  | observation => "observation"
  | policy => "policy"
  | unclassified => "unclassified"

/-- In the order of their names. -/
def sorted : List Category := [anomaly, exploit, observation, policy, unclassified]

end Category

/-- `_TIER_SEV`. -/
def TIER_SEV : List (String × Nat) :=
  [("Low", 2), ("Medium", 4), ("High", 6), ("Severe", 7), ("Critical", 8), ("Emergency", 9)]

/-- `_CONF`. -/
def CONF : Category → ℚ
  | .policy => 80 / 100
  | .anomaly => 50 / 100
  | .exploit => 50 / 100
  | .observation => 20 / 100
  | .unclassified => 20 / 100

inductive Disposition
  | emit | emitLow
deriving DecidableEq, Repr

/-- The severity of a rule: fixed, or the native tier within a band. -/
inductive Mode
  | fixed (severity : Nat)
  | band (lo hi : Nat)
deriving DecidableEq, Repr

structure Rule where
  category : Category
  mode : Mode
  disposition : Disposition
  verified : Bool
deriving DecidableEq, Repr

/-- `_RULES`, by the normalized name of the risk. -/
def RULES : List (String × Rule) :=
  [("known proto on non std port", ⟨.observation, .fixed 2, .emitLow, true⟩),
   ("http susp user-agent", ⟨.observation, .fixed 2, .emitLow, true⟩),
   ("tls (probably) not carrying https", ⟨.observation, .fixed 2, .emitLow, true⟩),
   ("missing sni tls extn", ⟨.observation, .fixed 2, .emitLow, true⟩),
   ("tls fatal alert", ⟨.observation, .fixed 2, .emitLow, true⟩),
   ("susp entropy", ⟨.observation, .fixed 2, .emitLow, true⟩),
   ("unidirectional traffic", ⟨.observation, .fixed 2, .emitLow, true⟩),
   ("minor issues", ⟨.observation, .fixed 2, .emitLow, true⟩),
   ("smb insecure version", ⟨.policy, .fixed 3, .emit, false⟩),
   ("clear-text credentials", ⟨.policy, .band 2 5, .emit, false⟩),
   ("obsolete tls version (1.1 or older)", ⟨.policy, .band 2 5, .emit, false⟩),
   ("weak tls cipher", ⟨.policy, .band 2 5, .emit, false⟩),
   ("tls certificate expired", ⟨.policy, .band 2 5, .emit, false⟩),
   ("self-signed certificate", ⟨.observation, .fixed 2, .emitLow, false⟩),
   ("punycode idn", ⟨.observation, .fixed 2, .emitLow, false⟩),
   ("malicious ja3 fingerprint", ⟨.anomaly, .band 3 7, .emit, false⟩),
   ("malicious sha1 certificate", ⟨.anomaly, .band 3 7, .emit, false⟩),
   ("suspicious dga domain", ⟨.anomaly, .band 3 7, .emit, false⟩),
   ("possible exploit", ⟨.exploit, .band 4 8, .emit, false⟩)]

def RISKY_BREEDS : List String := ["dangerous", "potentially dangerous", "unsafe"]

variable (rt : Runtime)

/-- `" ".join(s.split())`. -/
def joinWords (s : String) : String :=
  " ".intercalate (((s.toList.splitOnP Text.isSpace).filter (· ≠ [])).map String.ofList)

/-- `_norm`. -/
def norm (v : Json) : String :=
  match v with
  | .str _ | .int _ | .bool _ => joinWords (rt.lower (rt.py.shown v))
  | _ => ""

/-- `_severity`. -/
def severityOf (mode : Mode) (tier : Option String) : Nat :=
  match mode with
  | .fixed n => n
  | .band lo hi => max lo (min hi ((tier.bind fun t => TIER_SEV.lookup t).getD lo))

/-- `_verdict`. -/
structure Verdict where
  category : Category
  severity : Nat
  confidence : ℚ
  disposition : Disposition
  rule : String
  severityBasis : String
  verified : Bool
deriving DecidableEq

def verdict (category : Category) (severity : Nat) (disposition : Disposition)
    (rule severityBasis : String) (verified : Bool) : Verdict :=
  ⟨category, severity, CONF category, disposition, rule, severityBasis, verified⟩

/-- `classify_ndpi_risk`, of what it reads: the name, and the tier if it is known. -/
def classify (r : Risk) : Verdict :=
  match RULES.lookup (norm rt (.str r.name)) with
  | none => verdict .unclassified 1 .emitLow "unclassified" "fallback" false
  | some rule =>
    let basis :=
      match rule.mode with
      | .fixed _ => "fixed"
      | .band _ _ => if r.severity.isSome then "native_tier" else "band_floor"
    verdict rule.category (severityOf rule.mode r.severity) rule.disposition (norm rt (.str r.name))
      basis rule.verified

/-- `classify_breed`. -/
def classifyBreed (breed proto : Json) : Option Verdict :=
  if breed.truthy = false ∨ norm rt breed ∉ RISKY_BREEDS then none
  else if "smbv1".toList <:+: (norm rt proto).toList then
    some (verdict .policy 3 .emit "breed:smbv1" "fixed" true)
  else some (verdict .observation 2 .emitLow ("breed:" ++ norm rt breed) "fixed" true)

/-! ### Groups -/

def MAX_EVIDENCE : Nat := 16

/-- A verdict, and the entry that it is on. -/
structure Judged where
  verdict : Verdict
  entry : Entry

/-- `_evidence`. -/
structure Evidence where
  rule : String
  name : Option String
  id : Option String
  nativeSeverity : Option String
  score : Dict
  scoreScope : String
  category : Category
  severity : Nat
  severityBasis : String

def evidence (j : Judged) : Evidence :=
  ⟨j.verdict.rule, j.entry.name, j.entry.id, j.entry.severity, j.entry.score, j.entry.scoreScope,
    j.verdict.category, j.verdict.severity, j.verdict.severityBasis⟩

/-- What is gathered of a category. -/
structure Group where
  sev : Nat
  conf : ℚ
  disp : Disposition
  rules : List String
  ev : List Evidence
  verified : Bool

/-- The default of `setdefault`. -/
def Group.init (v : Verdict) : Group := ⟨0, 0, v.disposition, [], [], true⟩

/-- The body of the loop over the verdicts, on the group of the verdict. -/
def Group.add (g : Group) (j : Judged) : Group :=
  let g :=
    if g.sev < j.verdict.severity then
      { g with sev := j.verdict.severity, conf := j.verdict.confidence, disp := j.verdict.disposition }
    else g
  { g with
    rules := g.rules ++ [j.verdict.rule]
    verified := g.verified && j.verdict.verified
    ev := if g.ev.length < MAX_EVIDENCE then g.ev ++ [evidence j] else g.ev }

/-- `by_cat`. -/
def byCat (js : List Judged) : Category → Option Group :=
  js.foldl (fun groups j =>
    Function.update groups j.verdict.category
      (some (((groups j.verdict.category).getD (.init j.verdict)).add j))) fun _ => none

/-! ### Findings -/

/-- The flow of the risks; what is not known of it is the empty text. -/
structure Flow where
  src : String
  dst : String
  tenant : String
  sensor : String
  transport : String
  dport : String

/-- An entity of a finding: an address, the names, or the evidence. -/
inductive Entity
  | ip (role value : String)
  | ndpiRisk (names : List String)
  | ndpiEvidence (policyVersion detectorVersion : String) (category : Category) (risks : List Evidence)

structure Finding where
  category : Category
  severity : Nat
  confidence : ℚ
  disposition : Disposition
  entities : List Entity
  identity : String
  rules : List String
  verified : Bool

/-- `sorted(set(xs))`, of texts that are not empty. -/
def sortedSet (xs : List String) : List String := sortedTexts (xs.toFinset.erase "")

def identity (flow : Flow) (cat : Category) (rules : List String) (sev : Nat) : String :=
  "|".intercalate [flow.tenant, flow.sensor, flow.src, flow.dst, flow.transport, flow.dport, cat.name,
    ",".intercalate rules, POLICY_VERSION, toString sev]

/-- The finding of a group. -/
def Group.finding (flow : Flow) (cat : Category) (g : Group) : Finding :=
  let rules := sortedSet g.rules
  { category := cat
    severity := g.sev
    confidence := g.conf
    disposition := g.disp
    entities := [.ip "src" flow.src, .ip "dst" flow.dst, .ndpiRisk (sortedSet (g.ev.filterMap Evidence.name)),
      .ndpiEvidence POLICY_VERSION DETECTOR_VERSION cat g.ev]
    identity := identity flow cat rules g.sev
    rules
    verified := g.verified }

/-- The verdicts on the entries that have a name. -/
def judgeEntries (es : List Entry) : List Judged :=
  es.filterMap fun e => e.risk?.map fun r => ⟨classify rt r, e⟩

/-- The verdict on the breed, with the entry that is made for it. -/
def judgeBreed (ndpi : Json) : Option Judged :=
  match ndpi with
  | .obj ms =>
    (classifyBreed rt ((Dict.get ms "breed").or (.str "")) ((Dict.get ms "proto").or (.str ""))).map
      fun bv => ⟨bv, ⟨none, some bv.rule, none, false, [], "unverified", "", none⟩⟩
  | _ => none

/-- `ndpi_findings`. -/
def ndpiFindings (flow : Flow) (ndpi : Json) : Except Failure (List Finding) := do
  let es ← parseNdpiRisks rt ndpi
  let groups := byCat (judgeEntries rt es ++ (judgeBreed rt ndpi).toList)
  return Category.sorted.filterMap fun cat => (groups cat).map (Group.finding flow cat)

/-! ### What the findings should be -/

/-- The container of the risks. -/
def container (ndpi : Json) : Option Json :=
  match ndpi with
  | .obj ms => (source? ms).map (Dict.get ms)
  | _ => none

/-- The object with another container in its place. -/
def withContainer (ndpi c : Json) : Json :=
  match ndpi with
  | .obj ms => .obj (Dict.set ms ((source? ms).getD "") c)
  | v => v

/-- How many entries a container has. -/
def size : Json → Nat
  | .obj m => (Dict.filled m).length
  | .arr lst => lst.length
  | _ => 0

/-- Two items that differ in their scores and ids at most. -/
inductive Rescored : Json → Json → Prop
  | refl (v : Json) : Rescored v v
  | obj (d d' : Dict) (hrisk : d.get "risk" = d'.get "risk")
      (hseverity : d.get "severity" = d'.get "severity") : Rescored (.obj d) (.obj d')

/-- Two members that do. The key of a flag is a name, any other key is an id. -/
inductive RescoredMember : String × Json → String × Json → Prop
  | flag (name : String) (b : Bool) : RescoredMember (name, .bool b) (name, .bool b)
  | other (id id' : String) (v v' : Json) (hflag : ∀ b, v ≠ .bool b) (h : Rescored v v') :
      RescoredMember (id, v) (id', v')

/-- The entries of a container in another order, with other scores and ids. -/
inductive Shuffled : Json → Json → Prop
  | arr (lst mid lst' : List Json) (h : List.Forall₂ Rescored lst mid) (hperm : mid.Perm lst') :
      Shuffled (.arr lst) (.arr lst')
  | obj (m m' mid : Dict) (h : List.Forall₂ RescoredMember (Dict.filled m) mid)
      (hperm : mid.Perm (Dict.filled m')) : Shuffled (.obj m) (.obj m')

/-- A container with one entry more. -/
inductive Extended : Json → Json → Prop
  | arr (pre post : List Json) (v : Json) : Extended (.arr (pre ++ post)) (.arr (pre ++ v :: post))
  | obj (m m' : Dict) (pre post : Dict) (e : String × Json) (hm : Dict.filled m = pre ++ post)
      (hm' : Dict.filled m' = pre ++ e :: post) : Extended (.obj m) (.obj m')

/-- The findings agree in all but the evidence. -/
def SameFinding (f f' : Finding) : Prop :=
  f.category = f'.category ∧ f.severity = f'.severity ∧ f.confidence = f'.confidence ∧
    f.disposition = f'.disposition ∧ f.identity = f'.identity ∧ f.rules = f'.rules ∧
    f.verified = f'.verified

/-- **The findings** of an `ndpi` object are as they should be. -/
structure Sound (flow : Flow) (ndpi : Json) : Prop where
  returns : ∃ fs, ndpiFindings rt flow ndpi = .ok fs
  /-- There is at most one finding for a category. -/
  categories : ∀ fs, ndpiFindings rt flow ndpi = .ok fs → (fs.map Finding.category).Nodup
  shuffled : ∀ c c' fs fs', container ndpi = some c → size c ≤ MAX_RISKS → Shuffled c c' →
    ndpiFindings rt flow ndpi = .ok fs → ndpiFindings rt flow (withContainer ndpi c') = .ok fs' →
    List.Forall₂ SameFinding fs fs'
  /-- The severity is the greatest of the verdicts of the category. -/
  severity : ∀ es fs, parseNdpiRisks rt ndpi = .ok es → ndpiFindings rt flow ndpi = .ok fs →
    ∀ f ∈ fs, IsGreatest {n | ∃ j ∈ judgeEntries rt es ++ (judgeBreed rt ndpi).toList,
      j.verdict.category = f.category ∧ j.verdict.severity = n} f.severity
  /-- An entry with a name contributes to one finding. -/
  contributes : ∀ es fs, parseNdpiRisks rt ndpi = .ok es → ndpiFindings rt flow ndpi = .ok fs →
    ∀ e ∈ es, ∀ r ∈ e.risk?, ∃! f, f ∈ fs ∧ (classify rt r).rule ∈ f.rules
  /-- Another entry takes no category away, and lowers no severity. -/
  extended : ∀ c c' fs fs', container ndpi = some c → size c < MAX_RISKS → Extended c c' →
    ndpiFindings rt flow ndpi = .ok fs → ndpiFindings rt flow (withContainer ndpi c') = .ok fs' →
    ∀ f ∈ fs, ∃ f' ∈ fs', f'.category = f.category ∧ f.severity ≤ f'.severity

/-! ### The group of a category -/

/-- The disposition of a category's verdicts. -/
def dispositionOf : Category → Disposition
  | .anomaly | .exploit | .policy => .emit
  | .observation | .unclassified => .emitLow

/-- A verdict whose confidence and disposition are those of its category. -/
structure Verdict.Regular (v : Verdict) : Prop where
  confidence : v.confidence = CONF v.category
  disposition : v.disposition = dispositionOf v.category
  severity_pos : 0 < v.severity
  rule_ne : v.rule ≠ ""

/-- What a group says of its verdicts, in whatever order they came. -/
structure Gathers (cat : Category) (vs : List Verdict) (g : Group) : Prop where
  sev : IsGreatest {n | ∃ v ∈ vs, v.severity = n} g.sev
  conf : g.conf = CONF cat
  disp : g.disp = dispositionOf cat
  rules : g.rules = vs.map Verdict.rule
  verified : g.verified = vs.all Verdict.verified

variable {rt} {js : List Judged} {cat : Category}

/-- The verdicts of a category. -/
def ofCategory (cat : Category) (js : List Judged) : List Verdict :=
  (js.map Judged.verdict).filter fun v => v.category = cat

theorem gathers_init {j : Judged} (h : j.verdict.Regular) (hcat : j.verdict.category = cat) :
    Gathers cat [j.verdict] ((Group.init j.verdict).add j) := by
  have hpos : (Group.init j.verdict).sev < j.verdict.severity := h.severity_pos
  simp only [Group.add, if_pos hpos]
  refine ⟨?_, ?_, ?_, rfl, ?_⟩
  · simp
  · rw [h.confidence, hcat]
  · rw [h.disposition, hcat]
  · simp [Group.init]

theorem Gathers.add {vs : List Verdict} {g : Group} (h : Gathers cat vs g) {j : Judged}
    (hj : j.verdict.Regular) (hcat : j.verdict.category = cat) :
    Gathers cat (vs ++ [j.verdict]) (g.add j) := by
  obtain ⟨⟨w, hw, hweq⟩, hupper⟩ := h.sev
  refine ⟨?_, ?_, ?_, ?_, ?_⟩
  · constructor
    · by_cases hlt : g.sev < j.verdict.severity
      · exact ⟨j.verdict, by simp, by simp [Group.add, hlt]⟩
      · exact ⟨w, by simp [hw], by simp [Group.add, hlt, hweq]⟩
    · rintro n ⟨v, hv, rfl⟩
      rcases List.mem_append.mp hv with hv | hv
      · have hle := hupper ⟨v, hv, rfl⟩
        by_cases hlt : g.sev < j.verdict.severity <;> simp only [Group.add, hlt, if_true, if_false]
        · omega
        · exact hle
      · obtain rfl := List.mem_singleton.mp hv
        by_cases hlt : g.sev < j.verdict.severity <;> simp only [Group.add, hlt, if_true, if_false]
        · exact le_refl _
        · omega
  · by_cases hlt : g.sev < j.verdict.severity
    · simp [Group.add, hlt, hj.confidence, hcat]
    · simp [Group.add, hlt, h.conf]
  · by_cases hlt : g.sev < j.verdict.severity
    · simp [Group.add, hlt, hj.disposition, hcat]
    · simp [Group.add, hlt, h.disp]
  · by_cases hlt : g.sev < j.verdict.severity <;> simp [Group.add, hlt, h.rules]
  · by_cases hlt : g.sev < j.verdict.severity <;> simp [Group.add, hlt, h.verified]

theorem byCat_append_singleton (js : List Judged) (j : Judged) :
    byCat (js ++ [j]) = Function.update (byCat js) j.verdict.category
      (some (((byCat js j.verdict.category).getD (.init j.verdict)).add j)) := by
  simp [byCat, List.foldl_append]

/-- **The group** of a category gathers its verdicts. -/
theorem byCat_spec (h : ∀ j ∈ js, j.verdict.Regular) (cat : Category) :
    (ofCategory cat js = [] ∧ byCat js cat = none) ∨
      ∃ g, byCat js cat = some g ∧ Gathers cat (ofCategory cat js) g := by
  induction js using List.reverseRecOn with
  | nil => exact Or.inl ⟨rfl, rfl⟩
  | append_singleton js j ih =>
    obtain ⟨hjs, hj⟩ := List.forall_mem_append.mp h
    have hj := hj j (List.mem_singleton_self j)
    have hof : ofCategory cat (js ++ [j]) =
        ofCategory cat js ++ if j.verdict.category = cat then [j.verdict] else [] := by
      simp only [ofCategory, List.map_append, List.filter_append, List.map_cons, List.map_nil,
        List.filter_singleton]
      by_cases hcat : j.verdict.category = cat <;> simp [hcat]
    rw [hof, byCat_append_singleton]
    by_cases hcat : j.verdict.category = cat
    · subst hcat
      rw [if_pos rfl, Function.update_self]
      refine Or.inr ⟨_, rfl, ?_⟩
      rcases ih hjs with ⟨hnil, hnone⟩ | ⟨g, hg, hgathers⟩
      · rw [hnil, hnone]
        exact gathers_init hj rfl
      · rw [hg]
        exact hgathers.add hj rfl
    · rw [if_neg hcat, List.append_nil, Function.update_of_ne (Ne.symm hcat)]
      exact ih hjs

/-! ### The verdicts -/

/-- The least severity of a rule. -/
def Mode.floor : Mode → Nat
  | fixed n => n
  | band lo _ => lo

/-- The rules of the table are those of their categories. -/
theorem rules_regular : ∀ m ∈ RULES, m.2.disposition = dispositionOf m.2.category ∧ m.1 ≠ "" ∧
    0 < m.2.mode.floor ∧ m.1.toList.take 6 ≠ "breed:".toList := by
  decide

theorem mem_of_lookup {κ β : Type} [BEq κ] [LawfulBEq κ] {l : List (κ × β)} {k : κ} {b : β}
    (h : l.lookup k = some b) : (k, b) ∈ l := by
  obtain ⟨pre, post, heq, -⟩ := List.lookup_eq_some_iff.mp h
  rw [heq]
  simp

theorem severityOf_pos {mode : Mode} {tier : Option String} (h : 0 < mode.floor) :
    0 < severityOf mode tier := by
  cases mode with
  | fixed n => exact h
  | band lo hi => exact lt_of_lt_of_le h (le_max_left _ _)

theorem regular_classify (r : Risk) : (classify rt r).Regular := by
  unfold classify
  split
  · exact ⟨rfl, rfl, by decide, by decide⟩
  · next rule hrule =>
    obtain ⟨hdisp, hname, hpos, -⟩ := rules_regular _ (mem_of_lookup hrule)
    exact ⟨rfl, hdisp, severityOf_pos hpos, hname⟩

theorem regular_classifyBreed {breed proto : Json} {v : Verdict}
    (h : classifyBreed rt breed proto = some v) :
    v.Regular ∧ v.rule.toList.take 6 = "breed:".toList := by
  unfold classifyBreed at h
  split at h
  · cases h
  · split at h
    · cases h
      exact ⟨⟨rfl, rfl, by decide, by decide⟩, by decide⟩
    · cases h
      have htake : ("breed:" ++ norm rt breed).toList.take 6 = "breed:".toList := by
        rw [String.toList_append]
        rfl
      refine ⟨⟨rfl, rfl, by simp [verdict], ?_⟩, htake⟩
      intro hnil
      have hempty : "breed:" ++ norm rt breed = "" := hnil
      rw [hempty] at htake
      exact absurd htake (by decide)

/-- The rule of a verdict on a risk tells its category. -/
theorem category_classify (r : Risk) : (classify rt r).category =
    ((RULES.lookup (classify rt r).rule).map Rule.category).getD .unclassified := by
  unfold classify
  split
  · rfl
  · next rule hrule =>
    simp only [verdict, hrule]
    rfl

theorem rule_classify (r : Risk) : (classify rt r).rule.toList.take 6 ≠ "breed:".toList := by
  unfold classify
  split
  · decide
  · next rule hrule => exact (rules_regular _ (mem_of_lookup hrule)).2.2.2

theorem mem_judgeEntries {es : List Entry} {j : Judged} : j ∈ judgeEntries rt es ↔
    ∃ e ∈ es, ∃ r ∈ e.risk?, j = ⟨classify rt r, e⟩ := by
  simp [judgeEntries, List.mem_filterMap, eq_comm]

theorem regular_judgeBreed {ndpi : Json} {j : Judged} (h : j ∈ judgeBreed rt ndpi) :
    j.verdict.Regular ∧ j.verdict.rule.toList.take 6 = "breed:".toList := by
  cases ndpi with
  | obj ms =>
    obtain ⟨v, hv, rfl⟩ := Option.map_eq_some_iff.mp h
    exact regular_classifyBreed hv
  | _ => cases h

/-- All verdicts that are passed on. -/
def judged (rt : Runtime) (ndpi : Json) (es : List Entry) : List Judged :=
  judgeEntries rt es ++ (judgeBreed rt ndpi).toList

theorem regular_judged {ndpi : Json} {es : List Entry} :
    ∀ j ∈ judged rt ndpi es, j.verdict.Regular := by
  intro j hj
  rcases List.mem_append.mp hj with hj | hj
  · obtain ⟨e, -, r, -, rfl⟩ := mem_judgeEntries.mp hj
    exact regular_classify r
  · exact (regular_judgeBreed (Option.mem_toList.mp hj)).1

/-! ### The findings -/

variable {flow : Flow}

def findingsOf (flow : Flow) (js : List Judged) : List Finding :=
  Category.sorted.filterMap fun cat => (byCat js cat).map (Group.finding flow cat)

theorem mem_findingsOf {f : Finding} : f ∈ findingsOf flow js ↔
    ∃ cat g, byCat js cat = some g ∧ f = g.finding flow cat := by
  rw [findingsOf, List.mem_filterMap]
  constructor
  · rintro ⟨cat, -, hf⟩
    obtain ⟨g, hg, rfl⟩ := Option.map_eq_some_iff.mp hf
    exact ⟨cat, g, hg, rfl⟩
  · rintro ⟨cat, g, hg, rfl⟩
    exact ⟨cat, by cases cat <;> decide, by rw [hg]; rfl⟩

theorem nodup_categories (flow : Flow) (js : List Judged) :
    ((findingsOf flow js).map Finding.category).Nodup := by
  have hsub : ∀ cats : List Category,
      ((cats.filterMap fun cat => (byCat js cat).map (Group.finding flow cat)).map
        Finding.category).Sublist cats := by
    intro cats
    induction cats with
    | nil => exact List.Sublist.slnil
    | cons cat cats ih =>
      cases hg : byCat js cat with
      | none => simpa [hg] using ih.cons cat
      | some g => simpa [hg, Group.finding] using ih.cons_cons cat
  exact (hsub Category.sorted).nodup (by decide)

theorem mem_ofCategory {v : Verdict} :
    v ∈ ofCategory cat js ↔ v ∈ js.map Judged.verdict ∧ v.category = cat := by
  simp [ofCategory]

/-- The findings of the same verdicts, in whatever order. -/
theorem sameFindings {js' : List Judged} (h : ∀ j ∈ js, j.verdict.Regular)
    (h' : ∀ j ∈ js', j.verdict.Regular)
    (hperm : (js.map Judged.verdict).Perm (js'.map Judged.verdict)) :
    List.Forall₂ SameFinding (findingsOf flow js) (findingsOf flow js') := by
  have hcat : ∀ cat, (byCat js cat = none ∧ byCat js' cat = none) ∨
      ∃ g g', byCat js cat = some g ∧ byCat js' cat = some g' ∧
        SameFinding (g.finding flow cat) (g'.finding flow cat) := by
    intro cat
    have hof : (ofCategory cat js).Perm (ofCategory cat js') := hperm.filter _
    rcases byCat_spec h cat with ⟨hnil, hnone⟩ | ⟨g, hg, hgathers⟩
    · rcases byCat_spec h' cat with ⟨-, hnone'⟩ | ⟨g', -, hgathers'⟩
      · exact Or.inl ⟨hnone, hnone'⟩
      · obtain ⟨v, hv, -⟩ := hgathers'.sev.1
        rw [hnil, List.nil_perm] at hof
        rw [hof] at hv
        cases hv
    · rcases byCat_spec h' cat with ⟨hnil', -⟩ | ⟨g', hg', hgathers'⟩
      · obtain ⟨v, hv, -⟩ := hgathers.sev.1
        rw [hnil', List.perm_nil] at hof
        rw [hof] at hv
        cases hv
      · have hsev : g.sev = g'.sev := by
          refine hgathers.sev.unique ?_
          have hset : {n | ∃ v ∈ ofCategory cat js, v.severity = n} =
              {n | ∃ v ∈ ofCategory cat js', v.severity = n} := by
            ext n
            simp [hof.mem_iff]
          rw [hset]
          exact hgathers'.sev
        have hrules : sortedSet g.rules = sortedSet g'.rules := by
          rw [sortedSet, sortedSet, hgathers.rules, hgathers'.rules,
            List.toFinset_eq_of_perm _ _ (hof.map Verdict.rule)]
        have hverified : g.verified = g'.verified := by
          rw [hgathers.verified, hgathers'.verified]
          exact hof.all_eq
        refine Or.inr ⟨g, g', hg, hg', rfl, hsev, hgathers.conf.trans hgathers'.conf.symm,
          hgathers.disp.trans hgathers'.disp.symm, ?_, hrules, hverified⟩
        simp only [Group.finding, hrules, hsev]
  rw [findingsOf, findingsOf]
  induction Category.sorted with
  | nil => exact List.Forall₂.nil
  | cons cat cats ih =>
    rcases hcat cat with ⟨hnone, hnone'⟩ | ⟨g, g', hg, hg', hsame⟩
    · simpa [hnone, hnone'] using ih
    · simpa [hg, hg'] using List.Forall₂.cons hsame ih

/-- More verdicts take no category away, and lower no severity. -/
theorem findingsOf_mono {js' : List Judged} (h : ∀ j ∈ js, j.verdict.Regular)
    (h' : ∀ j ∈ js', j.verdict.Regular)
    (hsub : js.map Judged.verdict ⊆ js'.map Judged.verdict) :
    ∀ f ∈ findingsOf flow js, ∃ f' ∈ findingsOf flow js',
      f'.category = f.category ∧ f.severity ≤ f'.severity := by
  intro f hf
  obtain ⟨cat, g, hg, rfl⟩ := mem_findingsOf.mp hf
  rcases byCat_spec h cat with ⟨-, hnone⟩ | ⟨g₁, hg₁, hgathers⟩
  · rw [hnone] at hg
    cases hg
  obtain rfl := Option.some.inj (hg.symm.trans hg₁)
  obtain ⟨v, hv, hsev⟩ := hgathers.sev.1
  obtain ⟨hmem, hcat⟩ := mem_ofCategory.mp hv
  have hv' : v ∈ ofCategory cat js' := mem_ofCategory.mpr ⟨hsub hmem, hcat⟩
  rcases byCat_spec h' cat with ⟨hnil, -⟩ | ⟨g', hg', hgathers'⟩
  · rw [hnil] at hv'
    cases hv'
  · exact ⟨_, mem_findingsOf.mpr ⟨cat, g', hg', rfl⟩, rfl, hgathers'.sev.2 ⟨v, hv', hsev⟩⟩

/-- The severity is the greatest of the category's verdicts. -/
theorem isGreatest_severity (h : ∀ j ∈ js, j.verdict.Regular) :
    ∀ f ∈ findingsOf flow js, IsGreatest {n | ∃ j ∈ js,
      j.verdict.category = f.category ∧ j.verdict.severity = n} f.severity := by
  intro f hf
  obtain ⟨cat, g, hg, rfl⟩ := mem_findingsOf.mp hf
  rcases byCat_spec h cat with ⟨-, hnone⟩ | ⟨g₁, hg₁, hgathers⟩
  · rw [hnone] at hg
    cases hg
  obtain rfl := Option.some.inj (hg.symm.trans hg₁)
  have hset : {n | ∃ v ∈ ofCategory cat js, v.severity = n} =
      {n | ∃ j ∈ js, j.verdict.category = cat ∧ j.verdict.severity = n} := by
    ext n
    simp [mem_ofCategory, and_assoc]
  exact hset ▸ hgathers.sev

theorem mem_sortedSet {xs : List String} {x : String} : x ∈ sortedSet xs ↔ x ∈ xs ∧ x ≠ "" := by
  simp [sortedSet, and_comm]

/-- The rules of a finding are those of its category's verdicts. -/
theorem mem_rules {f : Finding} {x : String} (h : ∀ j ∈ js, j.verdict.Regular)
    (hf : f ∈ findingsOf flow js) :
    x ∈ f.rules ↔ ∃ j ∈ js, j.verdict.category = f.category ∧ j.verdict.rule = x := by
  obtain ⟨cat, g, hg, rfl⟩ := mem_findingsOf.mp hf
  rcases byCat_spec h cat with ⟨-, hnone⟩ | ⟨g₁, hg₁, hgathers⟩
  · rw [hnone] at hg
    cases hg
  obtain rfl := Option.some.inj (hg.symm.trans hg₁)
  simp only [Group.finding, mem_sortedSet, hgathers.rules]
  constructor
  · rintro ⟨hx, -⟩
    obtain ⟨v, hv, rfl⟩ := List.mem_map.mp hx
    obtain ⟨hv, hcat⟩ := mem_ofCategory.mp hv
    obtain ⟨j, hj, rfl⟩ := List.mem_map.mp hv
    exact ⟨j, hj, hcat, rfl⟩
  · rintro ⟨j, hj, hcat, rfl⟩
    exact ⟨List.mem_map.mpr ⟨_, mem_ofCategory.mpr ⟨List.mem_map.mpr ⟨j, hj, rfl⟩, hcat⟩, rfl⟩,
      (h j hj).rule_ne⟩

/-- **An entry** with a name contributes to one finding. -/
theorem contributes_once {ndpi : Json} {es : List Entry} {e : Entry} (he : e ∈ es) {r : Risk}
    (hr : r ∈ e.risk?) :
    ∃! f, f ∈ findingsOf flow (judged rt ndpi es) ∧ (classify rt r).rule ∈ f.rules := by
  have hj : (⟨classify rt r, e⟩ : Judged) ∈ judged rt ndpi es :=
    List.mem_append_left _ (mem_judgeEntries.mpr ⟨e, he, r, hr, rfl⟩)
  have hregular : ∀ j ∈ judged rt ndpi es, j.verdict.Regular := regular_judged
  have hv : classify rt r ∈ ofCategory (classify rt r).category (judged rt ndpi es) :=
    mem_ofCategory.mpr ⟨List.mem_map.mpr ⟨_, hj, rfl⟩, rfl⟩
  rcases byCat_spec hregular (classify rt r).category with ⟨hnil, -⟩ | ⟨g, hg, -⟩
  · rw [hnil] at hv
    cases hv
  have hf : g.finding flow (classify rt r).category ∈ findingsOf flow (judged rt ndpi es) :=
    mem_findingsOf.mpr ⟨_, g, hg, rfl⟩
  refine ⟨_, ⟨hf, (mem_rules hregular hf).mpr ⟨_, hj, rfl, rfl⟩⟩, ?_⟩
  rintro f' ⟨hf', hrule⟩
  obtain ⟨j', hj', hcat, heq⟩ := (mem_rules hregular hf').mp hrule
  -- the rule tells the category, so the other finding is this one
  have hsame : f'.category = (classify rt r).category := by
    rw [← hcat]
    rcases List.mem_append.mp hj' with hj' | hj'
    · obtain ⟨e', -, r', -, rfl⟩ := mem_judgeEntries.mp hj'
      rw [category_classify, category_classify, heq]
    · have hbreed := (regular_judgeBreed (Option.mem_toList.mp hj')).2
      rw [heq] at hbreed
      exact absurd hbreed (rule_classify r)
  obtain ⟨cat', g', hg', rfl⟩ := mem_findingsOf.mp hf'
  obtain rfl : cat' = (classify rt r).category := hsame
  rw [Option.some.inj (hg'.symm.trans hg)]

/-! ### Containers -/

variable {c c' ndpi : Json}

/-- The verdicts on the entries are those on the risks of the container. -/
theorem parseNdpiRisks_eq (ndpi : Json) : (container ndpi = none ∧ parseNdpiRisks rt ndpi = .ok []) ∨
    ∃ c src, container ndpi = some c ∧
      parseNdpiRisks rt ndpi = parseRiskValue rt c src (some MAX_NAME) := by
  cases ndpi with
  | obj ms =>
    simp only [container, parseNdpiRisks]
    cases source? ms with
    | none => exact Or.inl ⟨rfl, rfl⟩
    | some src => exact Or.inr ⟨_, src, rfl, rfl⟩
  | _ => exact Or.inl ⟨rfl, rfl⟩

theorem verdict_judgeEntries (es : List Entry) :
    (judgeEntries rt es).map Judged.verdict = (es.filterMap Entry.risk?).map (classify rt) := by
  induction es with
  | nil => rfl
  | cons e es ih =>
    rw [judgeEntries, List.filterMap_cons, List.filterMap_cons]
    cases e.risk? with
    | none => exact ih
    | some r => exact congrArg (classify rt r :: ·) ih

theorem verdicts_of_container {es : List Entry} (hc : container ndpi = some c)
    (h : parseNdpiRisks rt ndpi = .ok es) :
    (judgeEntries rt es).map Judged.verdict =
      (containerRisks (some MAX_NAME) c).map (classify rt) := by
  rcases @parseNdpiRisks_eq rt ndpi with ⟨hnone, -⟩ | ⟨c₁, src, hc₁, hparse⟩
  · rw [hc] at hnone
    cases hnone
  · obtain rfl := Option.some.inj (hc.symm.trans hc₁)
    rw [verdict_judgeEntries, risks_parseRiskValue (hparse.symm.trans h)]

theorem container_withContainer (h : container ndpi = some c) (c' : Json) :
    container (withContainer ndpi c') = some c' ∧
      judgeBreed rt (withContainer ndpi c') = judgeBreed rt ndpi := by
  cases ndpi with
  | obj ms =>
    obtain ⟨src, hsrc, -⟩ := Option.map_eq_some_iff.mp h
    have hfield : src = "flow_risk" ∨ src = "risk" ∧ Dict.get? ms "flow_risk" = none := by
      unfold source? at hsrc
      split at hsrc
      · exact Or.inl (Option.some.inj hsrc).symm
      · next hflow =>
        split at hsrc
        · exact Or.inr ⟨(Option.some.inj hsrc).symm, by simpa using hflow⟩
        · cases hsrc
    have hget : Dict.get (Dict.set ms src c') src = c' := by
      rw [Dict.get, Dict.get?_set_self, Option.getD_some]
    have hother (key : String) (hne : key ≠ src) :
        Dict.get? (Dict.set ms src c') key = Dict.get? ms key := Dict.get?_set_ne ms c' hne
    have hsource : source? (Dict.set ms src c') = some src := by
      rcases hfield with rfl | ⟨rfl, hnone⟩
      · rw [source?, Dict.get?_set_self]
        rfl
      · rw [source?, hother _ (by decide), hnone, Dict.get?_set_self]
        rfl
    have hne : "breed" ≠ src ∧ "proto" ≠ src := by
      rcases hfield with rfl | ⟨rfl, -⟩ <;> decide
    have hbreed : Dict.get (Dict.set ms src c') "breed" = Dict.get ms "breed" := by
      rw [Dict.get, hother _ hne.1, Dict.get]
    have hproto : Dict.get (Dict.set ms src c') "proto" = Dict.get ms "proto" := by
      rw [Dict.get, hother _ hne.2, Dict.get]
    simp only [withContainer, hsrc, Option.getD_some, container, hsource, Option.map_some, hget,
      judgeBreed, hbreed, hproto, and_self]
  | _ => cases h

theorem itemRisk_rescored {v v' : Json} (h : Rescored v v') :
    itemRisk (some MAX_NAME) v = itemRisk (some MAX_NAME) v' := by
  cases h with
  | refl => rfl
  | obj d d' hrisk hseverity => simp only [itemRisk, hrisk, hseverity]

theorem memberRisk_rescored {m m' : String × Json} (h : RescoredMember m m') :
    memberRisk (some MAX_NAME) m = memberRisk (some MAX_NAME) m' := by
  cases h with
  | flag => rfl
  | other id id' v v' hflag h =>
    cases h with
    | refl =>
      cases v with
      | bool b => exact absurd rfl (hflag b)
      | _ => rfl
    | obj d d' hrisk hseverity => simp only [memberRisk, hrisk, hseverity]

theorem filterMap_eq_of_forall₂ {α β : Type} {R : α → α → Prop} {g : α → Option β} {l l' : List α}
    (hR : ∀ a b, R a b → g a = g b) (h : List.Forall₂ R l l') : l.filterMap g = l'.filterMap g := by
  induction h with
  | nil => rfl
  | cons hab _ ih => rw [List.filterMap_cons, List.filterMap_cons, hR _ _ hab, ih]

/-- **The risks** of a container do not depend on scores and ids, nor on the
    order of the entries but for their own. -/
theorem containerRisks_shuffled (hsize : size c ≤ MAX_RISKS) (h : Shuffled c c') :
    (containerRisks (some MAX_NAME) c).Perm (containerRisks (some MAX_NAME) c') := by
  cases h with
  | arr lst mid lst' h hperm =>
    have hlen : lst'.length = lst.length := hperm.length_eq.symm.trans h.length_eq.symm
    simp only [containerRisks]
    rw [List.take_of_length_le hsize, List.take_of_length_le (hlen.symm ▸ hsize),
      filterMap_eq_of_forall₂ (fun a b (hab : Rescored a b) => itemRisk_rescored hab) h]
    exact hperm.filterMap _
  | obj m m' mid h hperm =>
    have hlen : (Dict.filled m').length = (Dict.filled m).length :=
      hperm.length_eq.symm.trans h.length_eq.symm
    simp only [containerRisks]
    rw [List.take_of_length_le hsize, List.take_of_length_le (hlen.symm ▸ hsize),
      filterMap_eq_of_forall₂ (fun a b (hab : RescoredMember a b) => memberRisk_rescored hab) h]
    exact hperm.filterMap _

theorem containerRisks_extended (hsize : size c < MAX_RISKS) (h : Extended c c') :
    containerRisks (some MAX_NAME) c ⊆ containerRisks (some MAX_NAME) c' := by
  cases h with
  | arr pre post v =>
    have hlen : (pre ++ v :: post).length ≤ MAX_RISKS := by
      simp only [size, List.length_append, List.length_cons] at hsize ⊢
      omega
    simp only [containerRisks]
    rw [List.take_of_length_le (Nat.le_of_lt hsize), List.take_of_length_le hlen]
    exact List.filterMap_subset _ (by simp)
  | obj m m' pre post e hm hm' =>
    have hlen : (pre ++ e :: post).length ≤ MAX_RISKS := by
      simp only [size, hm, List.length_append, List.length_cons] at hsize ⊢
      omega
    simp only [size, hm] at hsize
    simp only [containerRisks, hm, hm']
    rw [List.take_of_length_le (Nat.le_of_lt hsize), List.take_of_length_le hlen]
    exact List.filterMap_subset _ (by simp)

/-! ### Every object -/

theorem ndpiFindings_eq_ok {fs : List Finding} : ndpiFindings rt flow ndpi = .ok fs ↔
    ∃ es, parseNdpiRisks rt ndpi = .ok es ∧ fs = findingsOf flow (judged rt ndpi es) := by
  rw [ndpiFindings, Except.bind_eq_ok]
  exact exists_congr fun es => and_congr_right fun _ => ⟨fun h => (Except.ok.inj h).symm, fun h => h ▸ rfl⟩

theorem exists_ndpiFindings : (∃ fs, ndpiFindings rt flow ndpi = .ok fs) ↔
    ∀ c, container ndpi = some c → Shallow rt c := by
  have hparse : (∃ fs, ndpiFindings rt flow ndpi = .ok fs) ↔
      ∃ es, parseNdpiRisks rt ndpi = .ok es := by
    simp [ndpiFindings_eq_ok]
  rw [hparse]
  rcases @parseNdpiRisks_eq rt ndpi with ⟨hnone, hok⟩ | ⟨c, src, hc, heq⟩
  · exact iff_of_true ⟨[], hok⟩ (fun c hc => by rw [hnone] at hc; cases hc)
  · rw [heq, exists_parseRiskValue, hc]
    simp

/-- The verdicts with another container, of the same object. -/
theorem verdicts_withContainer {es es' : List Entry} (hc : container ndpi = some c)
    (hes : parseNdpiRisks rt ndpi = .ok es)
    (hes' : parseNdpiRisks rt (withContainer ndpi c') = .ok es') :
    (judged rt ndpi es).map Judged.verdict =
        (containerRisks (some MAX_NAME) c).map (classify rt) ++
          (judgeBreed rt ndpi).toList.map Judged.verdict ∧
      (judged rt (withContainer ndpi c') es').map Judged.verdict =
        (containerRisks (some MAX_NAME) c').map (classify rt) ++
          (judgeBreed rt ndpi).toList.map Judged.verdict := by
  obtain ⟨hc', hbreed⟩ := @container_withContainer rt _ _ hc c'
  rw [judged, judged, List.map_append, List.map_append, verdicts_of_container hc hes,
    verdicts_of_container hc' hes', hbreed]
  exact ⟨rfl, rfl⟩

/-- **The findings** are as they should be exactly when no id that is shown is
    nested too deep. -/
theorem sound_iff (rt : Runtime) (flow : Flow) (ndpi : Json) :
    Sound rt flow ndpi ↔ ∀ c, container ndpi = some c → Shallow rt c := by
  refine ⟨fun h => exists_ndpiFindings.mp h.returns, fun h => ?_⟩
  refine ⟨exists_ndpiFindings.mpr h, ?_, ?_, ?_, ?_, ?_⟩
  · intro fs hfs
    obtain ⟨es, -, rfl⟩ := ndpiFindings_eq_ok.mp hfs
    exact nodup_categories flow _
  · intro c c' fs fs' hc hsize hshuffled hfs hfs'
    obtain ⟨es, hes, rfl⟩ := ndpiFindings_eq_ok.mp hfs
    obtain ⟨es', hes', rfl⟩ := ndpiFindings_eq_ok.mp hfs'
    obtain ⟨hverdicts, hverdicts'⟩ := verdicts_withContainer hc hes hes'
    refine sameFindings regular_judged regular_judged ?_
    rw [hverdicts, hverdicts']
    exact ((containerRisks_shuffled hsize hshuffled).map _).append_right _
  · intro es fs hes hfs
    obtain ⟨es', hes', rfl⟩ := ndpiFindings_eq_ok.mp hfs
    obtain rfl := Except.ok.inj (hes.symm.trans hes')
    exact isGreatest_severity regular_judged
  · intro es fs hes hfs e he r hr
    obtain ⟨es', hes', rfl⟩ := ndpiFindings_eq_ok.mp hfs
    obtain rfl := Except.ok.inj (hes.symm.trans hes')
    exact contributes_once he hr
  · intro c c' fs fs' hc hsize hextended hfs hfs'
    obtain ⟨es, hes, rfl⟩ := ndpiFindings_eq_ok.mp hfs
    obtain ⟨es', hes', rfl⟩ := ndpiFindings_eq_ok.mp hfs'
    obtain ⟨hverdicts, hverdicts'⟩ := verdicts_withContainer hc hes hes'
    refine findingsOf_mono regular_judged regular_judged ?_
    rw [hverdicts, hverdicts']
    exact List.append_subset.mpr
      ⟨List.subset_append_of_subset_left _
          (List.map_subset _ (containerRisks_extended hsize hextended)),
        List.subset_append_right _ _⟩

/-- Lists in one another. -/
def nested : Nat → Json
  | 0 => .arr []
  | n + 1 => .arr [nested n]

theorem depth_nested (n : Nat) : (nested n).depth = n + 1 := by
  induction n with
  | zero => rfl
  | succ n ih => simp [nested, Json.depth, Json.depth.items, ih]

/-- An interpreter in which `str` has room for a thousand levels. -/
def sampleRuntime : Runtime := ⟨ManagedConfig.plainInterpreter, id, id⟩

/-- A risk in a list whose id is nested deeper. -/
def nestedRisk : Json :=
  .obj [("flow_risk", .arr [.obj [("id", nested 1000), ("risk", .str "Susp Entropy")]])]

theorem nested_id_raises :
    ¬ Sound sampleRuntime ⟨"10.0.0.1", "203.0.113.1", "default", "", "", ""⟩ nestedRisk := by
  intro h
  have hshallow := exists_ndpiFindings.mp h.returns _ rfl _ rfl
    [("id", nested 1000), ("risk", .str "Susp Entropy")] (List.mem_singleton_self _)
  have hid : Dict.get [("id", nested 1000), ("risk", .str "Susp Entropy")] "id" = nested 1000 := rfl
  rw [hid, depth_nested] at hshallow
  exact absurd hshallow (by decide)

end NdpiPolicy
