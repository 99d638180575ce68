import CernityNdr.Hunt.Worker
import CernityNdr.Intel.LiveMatch

/-! # Live Matching and Retro-Hunt

    The same records find their indicators in an event twice: when it arrives
    (`liveMatch`), and in a hunt (`isMatch`). A live match compares the
    normalized values; a hunt reads an address as it stands, and compares the
    other values normalized.

    * `livePairs_respelled`: a live match does not depend on the spelling.
    * `agrees_iff_uncovered`: the two agree on every spelling as long as no
      record covers an address of the event. -/

namespace IntelHunt

open ThreatIntel Json

/-! ### Spelling -/

/-- The field of a dimension, and what its value is compared as. -/
def keyOf (lib : Library) (d : Dimension) : IndicatorType × String × Option String :=
  (d.kind, d.field, normIndicator lib d.kind d.value)

/-- The values are the same, spelled in another way. -/
def Respelled (lib : Library) (eve eve' : Dict) : Prop :=
  (dimensions lib eve').map (List.map (keyOf lib)) = (dimensions lib eve).map (List.map (keyOf lib))

def shownText : Json → Option String
  | .str s => if Text.notBlank s then some s else none
  | _ => none

/-- The text that `value` takes from a member. -/
def textOf : Json → Option String
  | .obj ms => shownText (Dict.get ms "hash")
  | v => shownText v

/-- Another text in an address field. -/
def respellAt (spell : String → String) (field : String) (eve : Dict) : Dict :=
  match textOf (eve.get field) with
  | some s => eve.set field (.str (spell s))
  | none => eve

/-- The addresses of an event in another spelling. -/
def respell (spell : String → String) (eve : Dict) : Dict :=
  respellAt spell "dest_ip" (respellAt spell "src_ip" eve)

variable {lib : Library} {spell : String → String} {eve eve' : Dict}

theorem notBlank_of_textOf {raw : Json} {s : String} (h : textOf raw = some s) :
    Text.notBlank s = true := by
  have hshown : ∀ v, shownText v = some s → Text.notBlank s = true := by
    intro v hv
    cases v with
    | str t =>
      obtain ⟨notBlank_spaced, heq⟩ := Option.ite_none_right_eq_some.mp hv
      rwa [← Option.some.inj heq]
    | _ => cases hv
  unfold textOf at h
  split at h
  · exact hshown _ h
  · exact hshown _ h

theorem valueOf_eq (kind : IndicatorType) (field : String) (raw : Json) :
    valueOf kind field raw = (textOf raw).toList.map fun s => ⟨kind, field, s⟩ := by
  have hstr : ∀ s, (if Text.notBlank s then [⟨kind, field, s⟩] else []) =
      (shownText (.str s)).toList.map fun s => (⟨kind, field, s⟩ : Dimension) := by
    intro s
    simp only [shownText]
    split <;> rfl
  cases raw with
  | obj ms =>
    unfold valueOf textOf
    dsimp only
    cases Dict.get ms "hash" with
    | str s => exact hstr s
    | _ => rfl
  | str s => exact hstr s
  | _ => rfl

theorem get?_respellAt {field other : String} (h : other ≠ field) :
    (respellAt spell field eve).get? other = eve.get? other := by
  unfold respellAt
  split
  · exact Dict.get?_set_ne _ _ h
  · rfl

theorem textOf_respellAt (hspell : ∀ s, Text.notBlank s = true → Text.notBlank (spell s) = true)
    (field : String) :
    textOf ((respellAt spell field eve).get field) = (textOf (eve.get field)).map spell := by
  unfold respellAt
  cases htext : textOf (eve.get field) with
  | none => rw [htext, Option.map_none]
  | some s =>
    rw [Dict.get, Dict.get?_set_self, Option.getD_some, Option.map_some]
    exact if_pos (hspell s (notBlank_of_textOf htext))

/-- The addresses of an event. -/
def addresses (eve : Dict) : List Dimension :=
  ["src_ip", "dest_ip"].flatMap fun field => valueOf .ip field (eve.get field)

/-- Nothing but the addresses changes. -/
theorem get?_respell {key : String} (h : key ≠ "src_ip" ∧ key ≠ "dest_ip") :
    (respell spell eve).get? key = eve.get? key := by
  rw [respell, get?_respellAt h.2, get?_respellAt h.1]

theorem get_respell {key : String} (h : key ≠ "src_ip" ∧ key ≠ "dest_ip") :
    (respell spell eve).get key = eve.get key := by
  rw [Dict.get, get?_respell h, Dict.get]

theorem addresses_respell (hspell : ∀ s, Text.notBlank s = true → Text.notBlank (spell s) = true) :
    addresses (respell spell eve) =
      (addresses eve).map fun d => { d with value := spell d.value } := by
  have hsrc : (respell spell eve).get "src_ip" = (respellAt spell "src_ip" eve).get "src_ip" := by
    rw [Dict.get, respell, get?_respellAt (by decide), Dict.get]
  have hdest : textOf ((respell spell eve).get "dest_ip") = (textOf (eve.get "dest_ip")).map spell := by
    rw [respell, textOf_respellAt hspell, Dict.get, get?_respellAt (by decide), Dict.get]
  unfold addresses
  simp only [List.flatMap_cons, List.flatMap_nil, List.append_nil, valueOf_eq, List.map_append, hsrc,
    hdest, textOf_respellAt hspell]
  cases textOf (eve.get "src_ip") <;> cases textOf (eve.get "dest_ip") <;> rfl

/-- The dimensions behind the addresses. -/
def others (lib : Library) (eve : Dict) : List Dimension :=
  let tls := objOrEmpty (eve.get "tls")
  let dns := objOrEmpty (eve.get "dns")
  let http := objOrEmpty (eve.get "http")
  valueOf .domain "tls.sni" (tls.get "sni") ++
    [("ja3", IndicatorType.ja3), ("ja3s", .ja3), ("ja4", .ja4), ("ja4s", .ja4),
      ("fingerprint", .cert)].flatMap
        (fun (field, kind) => valueOf kind ("tls." ++ field) (tls.get field)) ++
    valueOf .domain "dns.rrname" (dns.get "rrname") ++
    rrnames dns "queries" ++ rrnames dns "answers" ++
    valueOf .domain "http.hostname" (http.get "hostname") ++
    urlOf lib "http.url" (http.get "url") ++ urlOf lib "url" (eve.get "url")

theorem dimensions_eq (lib : Library) (eve : Dict) :
    dimensions lib eve =
      (hashDimensions lib eve).map fun hashes => hashes ++ (addresses eve ++ others lib eve) := by
  unfold dimensions addresses others
  simp only [List.append_assoc]

theorem dimensions_respell
    (hspell : ∀ s, Text.notBlank s = true → Text.notBlank (spell s) = true) :
    dimensions lib (respell spell eve) = (hashDimensions lib eve).map fun hashes =>
      hashes ++ ((addresses eve).map (fun d => { d with value := spell d.value }) ++
        others lib eve) := by
  have hhash : hashDimensions lib (respell spell eve) = hashDimensions lib eve := by
    simp only [hashDimensions, get_respell (show "type" ≠ "src_ip" ∧ "type" ≠ "dest_ip" by decide),
      get_respell (show "fileinfo" ≠ "src_ip" ∧ "fileinfo" ≠ "dest_ip" by decide),
      get?_respell (show "fields" ≠ "src_ip" ∧ "fields" ≠ "dest_ip" by decide)]
  have hothers : others lib (respell spell eve) = others lib eve := by
    simp only [others, get_respell (show "tls" ≠ "src_ip" ∧ "tls" ≠ "dest_ip" by decide),
      get_respell (show "dns" ≠ "src_ip" ∧ "dns" ≠ "dest_ip" by decide),
      get_respell (show "http" ≠ "src_ip" ∧ "http" ≠ "dest_ip" by decide),
      get_respell (show "url" ≠ "src_ip" ∧ "url" ≠ "dest_ip" by decide)]
  rw [dimensions_eq, hhash, hothers, addresses_respell hspell]

theorem kind_of_mem_valueOf {kind : IndicatorType} {field : String} {raw : Json} {d : Dimension}
    (h : d ∈ valueOf kind field raw) : d.kind = kind := by
  rw [valueOf_eq] at h
  obtain ⟨s, -, rfl⟩ := List.mem_map.mp h
  rfl

theorem kind_of_mem_hashDimensions {event : Dict} {hashes : List Dimension}
    (h : hashDimensions lib event = some hashes) {d : Dimension} (hd : d ∈ hashes) :
    d.kind = .hash := by
  have hfile : ∀ fieldPrefix fi, d ∈ fileHashes fieldPrefix fi → d.kind = .hash := by
    intro fieldPrefix fi hd
    obtain ⟨⟨alg, length⟩, -, hd⟩ := List.mem_filterMap.mp hd
    obtain ⟨raw, -, hd⟩ := Option.bind_eq_some_iff.mp hd
    split at hd
    · cases hd
      rfl
    · cases hd
  have hif : ∀ (b : Bool) fieldPrefix fi,
      d ∈ (if b then fileHashes fieldPrefix fi else []) → d.kind = .hash := by
    intro b fieldPrefix fi hd
    split at hd
    · exact hfile _ _ hd
    · cases hd
  unfold hashDimensions at h
  split at h
  · obtain ⟨fields, -, h⟩ := Option.bind_eq_some_iff.mp h
    obtain ⟨fi, -, rfl⟩ := Option.map_eq_some_iff.mp h
    exact hif _ _ _ hd
  · split at h
    · obtain ⟨complete, -, rfl⟩ := Option.map_eq_some_iff.mp h
      exact hif _ _ _ hd
    · cases h
      cases hd

theorem kind_of_mem_urlOf {field : String} {raw : Json} {d : Dimension}
    (h : d ∈ urlOf lib field raw) : d.kind = .url := by
  unfold urlOf at h
  split at h
  · split at h
    · rw [List.mem_singleton.mp h]
    · cases h
  · cases h

theorem kind_of_mem_rrnames {dns : Dict} {group : String} {d : Dimension}
    (h : d ∈ rrnames dns group) : d.kind = .domain := by
  obtain ⟨⟨entry, i⟩, -, h⟩ := List.mem_flatMap.mp h
  exact kind_of_mem_valueOf h

theorem kind_of_mem_others {d : Dimension} (h : d ∈ others lib eve) : d.kind ≠ .ip := by
  simp only [others, List.mem_append, List.mem_flatMap] at h
  rcases h with ((((((h | ⟨⟨field, kind⟩, hkind, h⟩) | h) | h) | h) | h) | h) | h
  · exact kind_of_mem_valueOf h ▸ by decide
  · have hall : ∀ entry ∈ [("ja3", IndicatorType.ja3), ("ja3s", .ja3), ("ja4", .ja4),
        ("ja4s", .ja4), ("fingerprint", .cert)], entry.2 ≠ IndicatorType.ip := by decide
    rw [kind_of_mem_valueOf h]
    exact hall (field, kind) hkind
  · exact kind_of_mem_valueOf h ▸ by decide
  · exact kind_of_mem_rrnames h ▸ by decide
  · exact kind_of_mem_rrnames h ▸ by decide
  · exact kind_of_mem_valueOf h ▸ by decide
  · exact kind_of_mem_urlOf h ▸ by decide
  · exact kind_of_mem_urlOf h ▸ by decide

/-- Only the addresses have the kind of an address. -/
theorem mem_addresses {hashes ips : List Dimension} (hhash : hashDimensions lib eve = some hashes)
    {d : Dimension} (hd : d ∈ hashes ++ (ips ++ others lib eve)) (hkind : d.kind = .ip) :
    d ∈ ips := by
  rcases List.mem_append.mp hd with hd | hd
  · rw [kind_of_mem_hashDimensions hhash hd] at hkind
    cases hkind
  · exact (List.mem_append.mp hd).resolve_right fun h => kind_of_mem_others h hkind

/-! ### The two matchers -/

/-- Addresses and networks as `ipaddress` reads them. -/
def Env.withAddresses (env : Env) : Env := { env with lib := env.lib.withAddresses }

variable (env : Env) (epoch : String → Except Failure ℚ) (store : IntelStore)
  (tenant : String) (now : ℚ)

/-- The indicators that a live match returns. -/
def livePairs (eve : Dict) : Option (Set (IndicatorType × String)) :=
  (liveMatch env.lib epoch store tenant now eve).map fun hits => {p | p ∈ hits.map LiveHit.pair}

/-- A hunt for the indicator of a record finds it in one of the dimensions. -/
def FoundBy (dims : List Dimension) (r : IntelRecord) : Prop :=
  ∃ known, ∃ d ∈ dims, isMatch env ⟨r.itype, r.indicator, known⟩ d.kind d.value = true

/-- The indicators of the tenant that a hunt finds. -/
def huntPairs (eve : Dict) : Option (Set (IndicatorType × String)) :=
  (dimensions env.lib eve).map fun dims =>
    {p | ∃ r ∈ store.recordsOf tenant, r.pair = p ∧ FoundBy env dims r}

/-- A record that both matchers can find: its indicator is a key, of a type
    that a hunt supports. -/
structure Matchable (r : IntelRecord) : Prop where
  supported : supported r.itype = true
  canonical : normIndicator env.lib r.itype r.indicator = some r.indicator
  network : r.itype = .ip → env.lib.isNetwork r.indicator = true
  live : r.Live epoch now

/-- On every spelling of an event the two matchers return the same indicators. -/
def Agrees (eve : Dict) : Prop :=
  ∀ eve', ofTenant eve' tenant = true → Respelled env.lib eve eve' →
    livePairs env epoch store tenant now eve' = huntPairs env store tenant eve' ∧
      livePairs env epoch store tenant now eve' = livePairs env epoch store tenant now eve ∧
      huntPairs env store tenant eve' = huntPairs env store tenant eve

/-- An address record covers a value: it is the key of the value, or a network
    that a text with this key is read as an address of. -/
def CoversValue (r : IntelRecord) (value : String) : Prop :=
  r.itype = .ip ∧ (normIndicator env.lib .ip value = some r.indicator ∨
    ∃ text, normIndicator env.lib .ip text = normIndicator env.lib .ip value ∧
      env.lib.inNetwork r.indicator text = true)

/-- No record of the tenant covers an address of the event. -/
def Uncovered (eve : Dict) : Prop :=
  ∀ dims, dimensions env.lib eve = some dims → ∀ d ∈ dims, d.kind = .ip →
    ∀ r ∈ store.recordsOf tenant, ¬ CoversValue env r d.value

variable {env epoch store tenant now}

/-! ### What a live match returns -/

theorem mem_found {d : Dimension} {p : IndicatorType × String} :
    p ∈ found lib store tenant d ↔ ∃ n, normIndicator lib d.kind d.value = some n ∧
      ∃ r ∈ candidates lib store tenant d.kind n, r.pair = p := by
  unfold found
  cases normIndicator lib d.kind d.value with
  | none => simp
  | some n => simp

theorem livePairs_eq (hmatch : ∀ r ∈ store.recordsOf tenant, Matchable env epoch now r)
    (hown : ofTenant eve tenant = true) :
    livePairs env epoch store tenant now eve =
      (dimensions env.lib eve).map fun dims => {p | ∃ d ∈ dims, p ∈ found env.lib store tenant d} := by
  cases hdims : dimensions env.lib eve with
  | none => rw [livePairs, liveMatch, hown, hdims]; rfl
  | some dims =>
    obtain ⟨hits, hhits, hpairs⟩ := liveMatch_spec (fun r hr => (hmatch r hr).live) hown hdims
    rw [livePairs, hhits, Option.map_some, Option.map_some]
    exact congrArg some (Set.ext hpairs)

/-- **A live match does not depend on the spelling.** -/
theorem livePairs_respelled (hmatch : ∀ r ∈ store.recordsOf tenant, Matchable env epoch now r)
    (hown : ofTenant eve tenant = true) (hown' : ofTenant eve' tenant = true)
    (hspelled : Respelled env.lib eve eve') :
    livePairs env epoch store tenant now eve' = livePairs env epoch store tenant now eve := by
  have hkeys : ∀ eve, ofTenant eve tenant = true → livePairs env epoch store tenant now eve =
      ((dimensions env.lib eve).map (List.map (keyOf env.lib))).map fun keys =>
        {p | ∃ key ∈ keys, ∃ n, key.2.2 = some n ∧
          ∃ r ∈ candidates env.lib store tenant key.1 n, r.pair = p} := by
    intro eve hown
    rw [livePairs_eq hmatch hown, Option.map_map]
    refine congrArg (fun f => (dimensions env.lib eve).map f) (funext fun dims => Set.ext fun p => ?_)
    simp only [Set.mem_ofPred_eq, Function.comp_apply, List.mem_map, exists_exists_and_eq_and,
      mem_found, keyOf]
  rw [hkeys eve' hown', hkeys eve hown, hspelled]

/-! ### Other values than addresses -/

/-- The two matchers compare other values than addresses in the same way. -/
theorem pair_mem_found_iff {d : Dimension} (hkind : d.kind ≠ .ip) {r : IntelRecord}
    (hr : r ∈ store.recordsOf tenant) (known : String) :
    r.pair ∈ found env.lib store tenant d ↔
      isMatch env ⟨r.itype, r.indicator, known⟩ d.kind d.value = true := by
  have hmatch : isMatch env ⟨r.itype, r.indicator, known⟩ d.kind d.value = true ↔
      r.itype = d.kind ∧ normIndicator env.lib d.kind d.value = some r.indicator := by
    unfold isMatch
    rw [if_neg hkind]
    by_cases h : r.itype = d.kind
    · simp [h]
    · simp [h]
  rw [hmatch, mem_found]
  constructor
  · rintro ⟨n, hn, r', hr', hpair⟩
    obtain ⟨-, hkind', hind⟩ := mem_candidates.mp hr'
    obtain ⟨htype, hindicator⟩ : r'.itype = r.itype ∧ r'.indicator = r.indicator := by
      simpa [IntelRecord.pair] using hpair
    rw [← htype, ← hindicator, hn]
    exact ⟨hkind', by rw [hind.resolve_right fun h => hkind h.1]⟩
  · rintro ⟨hkind', hn⟩
    exact ⟨r.indicator, hn, r, mem_candidates.mpr ⟨hr, hkind', Or.inl rfl⟩, rfl⟩

theorem mem_live_iff_mem_hunt {dims : List Dimension} {p : IndicatorType × String}
    (hp : p.1 ≠ .ip) :
    (∃ d ∈ dims, p ∈ found env.lib store tenant d) ↔
      ∃ r ∈ store.recordsOf tenant, r.pair = p ∧ FoundBy env dims r := by
  constructor
  · rintro ⟨d, hd, hfound⟩
    obtain ⟨n, -, r, hr, rfl⟩ := mem_found.mp hfound
    obtain ⟨hown, hkind, -⟩ := mem_candidates.mp hr
    exact ⟨r, hown, rfl, "", d, hd, (pair_mem_found_iff (hkind ▸ hp) hown "").mp hfound⟩
  · rintro ⟨r, hown, rfl, known, d, hd, hmatch⟩
    have hkind : r.itype = d.kind := by
      by_contra hne
      rw [isMatch, if_pos hne] at hmatch
      cases hmatch
    exact ⟨d, hd, (pair_mem_found_iff (hkind ▸ hp) hown known).mpr hmatch⟩

/-! ### Addresses -/

theorem normIndicator_ip (lib : Library) (value : String) :
    normIndicator lib.withAddresses .ip value =
      some (((IpAddress.ofText (Text.strip value.toList)).map
        fun a => String.ofList a.text).getD (String.ofList (Text.strip value.toList))) := by
  simp only [normIndicator, Library.withAddresses, String.toList_ofList]

/-- The key of an address is its own key. -/
theorem normIndicator_key {lib : Library} {value key : String}
    (h : normIndicator lib.withAddresses .ip value = some key) :
    normIndicator lib.withAddresses .ip key = some key := by
  rw [normIndicator_ip, Option.some.injEq] at h
  rw [normIndicator_ip]
  cases hread : IpAddress.ofText (Text.strip value.toList) with
  | none =>
    rw [hread] at h
    obtain rfl : String.ofList (Text.strip value.toList) = key := h
    rw [String.toList_ofList, Text.strip_strip, hread]
    rfl
  | some a =>
    rw [hread] at h
    obtain rfl : String.ofList a.text = key := h
    rw [String.toList_ofList, IpAddress.strip_text (Text.strip_strip _) hread,
      IpAddress.ofText_text]
    rfl

/-- White space in front does not change the key. -/
theorem normIndicator_space (lib : Library) (itype : IndicatorType) (value : String) :
    normIndicator lib itype (String.ofList (' ' :: value.toList)) = normIndicator lib itype value := by
  unfold normIndicator
  rw [String.toList_ofList, Text.strip_cons_space (by decide)]

/-- With white space in front a value is not read as an address. -/
theorem inNetworkText_space (network : String) {c : Char} (hc : Text.isSpace c = true)
    (cs : List Char) : inNetworkText network (String.ofList (c :: cs)) = false := by
  rw [inNetworkText, String.toList_ofList, IpAddress.ofText_space hc]

theorem notBlank_of_inNetworkText {network text : String} (h : inNetworkText network text = true) :
    Text.notBlank text = true := by
  cases htext : text.toList with
  | nil =>
    rw [inNetworkText, htext] at h
    cases h
  | cons c cs =>
    rw [Text.notBlank, htext, List.any_cons, Bool.or_eq_true]
    left
    by_contra hc
    rw [Bool.not_eq_true, Bool.not_eq_false'] at hc
    have hnone := inNetworkText_space network hc cs
    rw [← htext, String.ofList_toList, h] at hnone
    cases hnone

/-- What a live match finds of an address covers it. -/
theorem covers_of_mem_found {d : Dimension} (hkind : d.kind = .ip) {p : IndicatorType × String}
    (hp : p ∈ found env.withAddresses.lib store tenant d) :
    ∃ r ∈ store.recordsOf tenant, CoversValue env.withAddresses r d.value := by
  obtain ⟨n, hn, r, hr, -⟩ := mem_found.mp hp
  obtain ⟨hown, htype, hind⟩ := mem_candidates.mp hr
  rw [hkind] at hn htype
  refine ⟨r, hown, htype, ?_⟩
  rcases hind with heq | ⟨-, -, hnet⟩
  · exact Or.inl (heq ▸ hn)
  · exact Or.inr ⟨n, (normIndicator_key hn).trans hn.symm, hnet⟩

theorem covers_of_foundBy {dims : List Dimension} {r : IntelRecord} (htype : r.itype = .ip)
    (hfound : FoundBy env.withAddresses dims r) :
    ∃ d ∈ dims, d.kind = .ip ∧ env.withAddresses.lib.inNetwork r.indicator d.value = true := by
  obtain ⟨known, d, hd, hmatch⟩ := hfound
  unfold isMatch at hmatch
  split at hmatch
  · cases hmatch
  · next hkind =>
    rw [not_not, htype] at hkind
    rw [if_pos hkind.symm] at hmatch
    exact ⟨d, hd, hkind.symm, hmatch⟩

/-! ### Agreement -/

theorem uncovered_respelled (h : Uncovered env store tenant eve)
    (hspelled : Respelled env.lib eve eve') : Uncovered env store tenant eve' := by
  intro dims' hdims' d' hd' hkind r hr hcovers
  rw [Respelled, hdims', Option.map_some] at hspelled
  obtain ⟨dims, hdims, heq⟩ := Option.map_eq_some_iff.mp hspelled.symm
  have hmem : keyOf env.lib d' ∈ dims.map (keyOf env.lib) := heq ▸ List.mem_map_of_mem hd'
  obtain ⟨d, hd, hkey⟩ := List.mem_map.mp hmem
  obtain ⟨hkind', -, hnorm⟩ : d.kind = d'.kind ∧ d.field = d'.field ∧
      normIndicator env.lib d.kind d.value = normIndicator env.lib d'.kind d'.value := by
    simpa [keyOf] using hkey
  rw [hkind', hkind] at hnorm
  refine h dims hdims d hd (hkind'.trans hkind) r hr ?_
  rw [CoversValue, hnorm]
  exact hcovers

/-- Where no record covers an address, what remains is compared alike. -/
theorem livePairs_eq_huntPairs (hmatch : ∀ r ∈ store.recordsOf tenant,
      Matchable env.withAddresses epoch now r) (hown : ofTenant eve tenant = true)
    (huncovered : Uncovered env.withAddresses store tenant eve) :
    livePairs env.withAddresses epoch store tenant now eve =
      huntPairs env.withAddresses store tenant eve := by
  rw [livePairs_eq hmatch hown, huntPairs]
  cases hdims : dimensions env.withAddresses.lib eve with
  | none => rfl
  | some dims =>
    rw [Option.map_some, Option.map_some]
    refine congrArg some (Set.ext fun p => ?_)
    by_cases hp : p.1 = .ip
    · refine iff_of_false ?_ ?_
      · rintro ⟨d, hd, hfound⟩
        have hkind : d.kind = .ip := by
          obtain ⟨n, -, r, hr, rfl⟩ := mem_found.mp hfound
          exact (mem_candidates.mp hr).2.1.symm.trans hp
        obtain ⟨r, hr, hcovers⟩ := covers_of_mem_found hkind hfound
        exact huncovered dims hdims d hd hkind r hr hcovers
      · rintro ⟨r, hr, rfl, hfound⟩
        obtain ⟨d, hd, hkind, hnet⟩ := covers_of_foundBy hp hfound
        exact huncovered dims hdims d hd hkind r hr ⟨hp, Or.inr ⟨d.value, rfl, hnet⟩⟩
    · exact mem_live_iff_mem_hunt hp

/-- The addresses of an event in a spelling with the same keys. -/
theorem respelled_respell (hspell : ∀ s, Text.notBlank s = true → Text.notBlank (spell s) = true)
    (hkey : ∀ s, normIndicator lib .ip (spell s) = normIndicator lib .ip s) :
    Respelled lib eve (respell spell eve) := by
  have haddresses : (addresses eve).map (keyOf lib ∘ fun d => { d with value := spell d.value }) =
      (addresses eve).map (keyOf lib) := by
    refine List.map_congr_left fun d hd => ?_
    obtain ⟨field, -, hd⟩ := List.mem_flatMap.mp hd
    rw [Function.comp_apply, keyOf, keyOf, kind_of_mem_valueOf hd, hkey]
  rw [Respelled, dimensions_respell hspell, dimensions_eq, Option.map_map, Option.map_map]
  refine congrArg (fun f => (hashDimensions lib eve).map f) (funext fun hashes => ?_)
  simp only [Function.comp_apply, List.map_append, List.map_map, haddresses]

theorem ofTenant_respell : ofTenant (respell spell eve) tenant = ofTenant eve tenant := by
  simp only [ofTenant, List.all_cons, List.all_nil,
    get_respell (show "tenant_id" ≠ "src_ip" ∧ "tenant_id" ≠ "dest_ip" by decide),
    get_respell (show "tenant" ≠ "src_ip" ∧ "tenant" ≠ "dest_ip" by decide)]

/-- White space in front of every address. -/
def spaced (s : String) : String := String.ofList (' ' :: s.toList)

theorem notBlank_spaced (s : String) (hs : Text.notBlank s = true) :
    Text.notBlank (spaced s) = true := by
  rw [Text.notBlank, spaced, String.toList_ofList, List.any_cons]
  exact Bool.or_eq_true_iff.mpr (Or.inr hs)

/-- A hunt finds no address that has white space in front. -/
theorem not_ip_of_spaced {found : Set (IndicatorType × String)}
    (h : huntPairs env.withAddresses store tenant (respell spaced eve) = some found)
    {p : IndicatorType × String} (hp : p ∈ found) : p.1 ≠ .ip := by
  rw [huntPairs, dimensions_respell notBlank_spaced, Option.map_map] at h
  obtain ⟨hashes, hhash, rfl⟩ := Option.map_eq_some_iff.mp h
  obtain ⟨r, -, rfl, hfound⟩ := hp
  intro htype
  obtain ⟨d, hd, hkind, hnet⟩ := covers_of_foundBy htype hfound
  obtain ⟨d', -, rfl⟩ := List.mem_map.mp (mem_addresses hhash hd hkind)
  have hnone := inNetworkText_space r.indicator (c := ' ') (by decide) d'.value.toList
  exact absurd (hnet.symm.trans hnone) (by decide)

/-- Another text with the key of an address takes its place. -/
def instead (lib : Library) (value text s : String) : String :=
  if normIndicator lib .ip s = normIndicator lib .ip value then text else s

theorem notBlank_instead {value text : String} (htext : Text.notBlank text = true) (s : String)
    (hs : Text.notBlank s = true) : Text.notBlank (instead lib value text s) = true := by
  unfold instead
  split
  · exact htext
  · exact hs

/-- A hunt finds an address in the spelling that it reads. -/
theorem mem_huntPairs_instead {dims : List Dimension} {text : String} {r : IntelRecord}
    (hdims : dimensions env.withAddresses.lib eve = some dims) {d : Dimension} (hd : d ∈ dims)
    (hkind : d.kind = .ip) (hr : r ∈ store.recordsOf tenant) (htype : r.itype = .ip)
    (htext : Text.notBlank text = true)
    (hnet : env.withAddresses.lib.inNetwork r.indicator text = true) :
    ∃ found, huntPairs env.withAddresses store tenant
      (respell (instead env.withAddresses.lib d.value text) eve) = some found ∧ r.pair ∈ found := by
  rw [dimensions_eq] at hdims
  obtain ⟨hashes, hhash, rfl⟩ := Option.map_eq_some_iff.mp hdims
  rw [huntPairs, dimensions_respell (notBlank_instead htext), hhash, Option.map_some, Option.map_some]
  refine ⟨_, rfl, r, hr, rfl, "",
    { d with value := instead env.withAddresses.lib d.value text d.value }, ?_, ?_⟩
  · exact List.mem_append_right _
      (List.mem_append_left _ (List.mem_map_of_mem (mem_addresses hhash hd hkind)))
  · rw [isMatch, if_neg (not_not.mpr (htype.trans hkind.symm)), if_pos hkind, instead, if_pos rfl]
    exact hnet

/-- **The matchers agree on every spelling exactly when no record covers an
    address.** A hunt does not normalize an address: white space in front of it
    is enough for the two to part. -/
theorem agrees_iff_uncovered (hmatch : ∀ r ∈ store.recordsOf tenant,
      Matchable env.withAddresses epoch now r) (hown : ofTenant eve tenant = true) :
    Agrees env.withAddresses epoch store tenant now eve ↔
      Uncovered env.withAddresses store tenant eve := by
  constructor
  · intro hagrees dims hdims d hd hkind r hr hcovers
    obtain ⟨hboth, hlive, hhunt⟩ := hagrees (respell spaced eve) (ofTenant_respell.trans hown)
      (respelled_respell notBlank_spaced (normIndicator_space _ .ip))
    -- the pair of the record is not found with white space in front
    have hnot : ∀ found, huntPairs env.withAddresses store tenant eve = some found →
        r.pair ∉ found := by
      intro found hfound hmem
      exact not_ip_of_spaced (hhunt.trans hfound) hmem hcovers.1
    rcases hcovers.2 with hkey | ⟨text, hkey, hnet⟩
    · -- the live match looks the key up
      refine hnot {p | ∃ d ∈ dims, p ∈ found env.withAddresses.lib store tenant d} ?_ ?_
      · rw [← hhunt, ← hboth, hlive, livePairs_eq hmatch hown, hdims, Option.map_some]
      · refine ⟨d, hd, mem_found.mpr ⟨r.indicator, by rw [hkind]; exact hkey, r, ?_, rfl⟩⟩
        exact mem_candidates.mpr ⟨hr, hcovers.1.trans hkind.symm, Or.inl rfl⟩
    · -- the hunt reads the other spelling as an address
      obtain ⟨found, hfound, hmem⟩ := mem_huntPairs_instead hdims hd hkind hr hcovers.1
        (notBlank_of_inNetworkText hnet) hnet
      have hspelled : Respelled env.withAddresses.lib eve
          (respell (instead env.withAddresses.lib d.value text) eve) := by
        refine respelled_respell (notBlank_instead (notBlank_of_inNetworkText hnet)) fun s => ?_
        unfold instead
        split
        · next heq => rw [hkey, heq]
        · rfl
      obtain ⟨-, -, heq⟩ := hagrees _ (ofTenant_respell.trans hown) hspelled
      exact hnot found (heq.symm.trans hfound) hmem
  · intro huncovered eve' hown' hspelled
    have hboth := livePairs_eq_huntPairs hmatch hown' (uncovered_respelled huncovered hspelled)
    have hlive := livePairs_respelled hmatch hown hown' hspelled
    exact ⟨hboth, hlive,
      hboth.symm.trans (hlive.trans (livePairs_eq_huntPairs hmatch hown huncovered))⟩

section Sample

def sampleLookups : Env where
  lib :=
    { upper := String.toUpper
      lower := String.toLower
      int := fun _ => .error .invalid
      compressed := some
      isNetwork := fun _ => true
      inNetwork := fun network v => network = v
      expands := fun _ => false }
  parseTs := fun _ => some 0
  valid := fun _ => true
  sha256 := String.ofList

def sampleAssertion : Provenance :=
  ⟨"misp", "c2", 80, .amber, 1, "2026-09-01T00:00:00Z", "2026-09-01T00:00:00Z",
    some "2026-10-01T00:00:00Z"⟩

def sampleRecord (itype : IndicatorType) (indicator : String) : IntelRecord :=
  ⟨indicator, itype, "misp", "c2", 80, .amber, 1, "2026-09-01T00:00:00Z", "2026-09-01T00:00:00Z",
    "2026-10-01T00:00:00Z", .active, "a", [sampleAssertion]⟩

/-- Two indicators of one tenant. -/
def sampleStore : IntelStore :=
  .fresh ⟨(Registry.empty.put (sampleRecord .ip "198.51.100.7")).put (sampleRecord .domain "c2.example"),
    [], []⟩

def sampleEpoch : String → Except Failure ℚ := fun _ => .ok 2

theorem sample_matchable : ∀ r ∈ sampleStore.recordsOf "a",
    Matchable sampleLookups.withAddresses sampleEpoch 1 r := by
  have hrecords : sampleStore.recordsOf "a" =
      [sampleRecord .ip "198.51.100.7", sampleRecord .domain "c2.example"] := by decide +kernel
  have hlive : ∀ itype indicator, (sampleRecord itype indicator).Live sampleEpoch 1 := by
    intro itype indicator
    exact ⟨_, rfl, rfl⟩
  intro r hr
  rw [hrecords] at hr
  rcases List.mem_cons.mp hr with rfl | hr
  · exact ⟨rfl, by decide +kernel, fun _ => by decide +kernel, hlive _ _⟩
  · obtain rfl := List.mem_singleton.mp hr
    exact ⟨rfl, by decide +kernel, nofun, hlive _ _⟩

/-- A name in any spelling is found by both. -/
theorem sample_agrees : Agrees sampleLookups.withAddresses sampleEpoch sampleStore "a" 1
    [("tls", .obj [("sni", .str " C2.Example")])] := by
  refine (agrees_iff_uncovered sample_matchable (by decide +kernel)).mpr ?_
  intro dims hdims d hd hkind
  have hnames : dimensions sampleLookups.withAddresses.lib
      [("tls", .obj [("sni", .str " C2.Example")])] = some [⟨.domain, "tls.sni", " C2.Example"⟩] := by
    decide +kernel
  obtain rfl := Option.some.inj (hdims.symm.trans hnames)
  obtain rfl := List.mem_singleton.mp hd
  cases hkind

/-- An address with white space in front is found by the live match only. -/
theorem sample_parts : ¬ Agrees sampleLookups.withAddresses sampleEpoch sampleStore "a" 1
    [("dest_ip", .str " 198.51.100.7")] := by
  intro hagrees
  have hown : ofTenant [("dest_ip", .str " 198.51.100.7")] "a" = true := by decide +kernel
  have hdims : dimensions sampleLookups.withAddresses.lib [("dest_ip", .str " 198.51.100.7")] =
      some [⟨.ip, "dest_ip", " 198.51.100.7"⟩] := by decide +kernel
  have hboth := (hagrees _ hown rfl).1
  rw [livePairs_eq sample_matchable hown, huntPairs, hdims, Option.map_some, Option.map_some,
    Option.some.injEq] at hboth
  have hlive : (IndicatorType.ip, "198.51.100.7") ∈ found sampleLookups.withAddresses.lib sampleStore
      "a" ⟨.ip, "dest_ip", " 198.51.100.7"⟩ := by decide +kernel
  obtain ⟨r, -, hpair, hfound⟩ : ∃ r ∈ sampleStore.recordsOf "a",
      r.pair = (IndicatorType.ip, "198.51.100.7") ∧
        FoundBy sampleLookups.withAddresses [⟨.ip, "dest_ip", " 198.51.100.7"⟩] r :=
    (Set.ext_iff.mp hboth _).mp ⟨_, List.mem_singleton_self _, hlive⟩
  obtain ⟨d, hd, -, hnet⟩ := covers_of_foundBy (congrArg Prod.fst hpair) hfound
  obtain rfl := List.mem_singleton.mp hd
  exact absurd (hnet.symm.trans (inNetworkText_space r.indicator (c := ' ') (by decide)
    "198.51.100.7".toList)) (by decide)

end Sample

end IntelHunt
