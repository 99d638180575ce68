import CernityNdr.Framework.Affix
import CernityNdr.Framework.Escaping
import CernityNdr.Framework.Number

/-! # CEF Events

    The model of `services/findings-forwarder/cef.py`: a finding as one line of
    the Common Event Format. The header escapes pipes and the extension escapes
    equals signs; both escape backslashes, and replace line feeds.

    * `fields_header`: the seven fields of the header are read back.
    * `parseExtension_extText`: so are the pairs of the extension.
    * `toCef_event_iff`: the line is one event of these fields and pairs
      exactly when no carriage return is among them. -/

namespace Cef

open Json (Dict)
open Escaping (Guarded cut pieces unescape)

/-! ### The mapping -/

def SRC_ROLES : List String := ["src", "attacker", "scanner", "responder"]

def DST_ROLES : List String := ["dst", "victim", "target"]

/-- `str(v)`; of a list or a dictionary it is `repr`. -/
def str (repr : Json → List Char) : Json → List Char
  | .null => "None".toList
  | .bool true => "True".toList
  | .bool false => "False".toList
  | .int n => Json.intText n
  | .str s => s.toList
  | v => repr v

/-- `for e in v`. -/
def items : Json → Option (List Json)
  | .arr xs => some xs
  | .str s => some (s.toList.map fun c => .str (String.ofList [c]))
  | .obj ms => some (ms.map fun m => .str m.1)
  | _ => none

/-- One entity in the loop of `_entities`. -/
def addEntity (ends : Json × Json) (e : Json) : Json × Json :=
  match e.obj? with
  | none => ends
  | some e =>
    let role := Dict.get e "role"
    let value := (Dict.get? e "value").getD (.str "")
    if role.str?.any (· ∈ SRC_ROLES) && !ends.1.truthy then (value, ends.2)
    else if role.str?.any (· ∈ DST_ROLES) && !ends.2.truthy then (ends.1, value)
    else ends

/-- The entities of a finding; a text is decoded. -/
def decoded (finding : Dict) : Json :=
  match finding.get "entities" with
  | .str s => (Json.loads s.toList).getD (.arr [])
  | v => v

/-- `_entities`. -/
def entities (finding : Dict) : Option (Json × Json) :=
  (items ((decoded finding).or (.arr []))).map fun es => es.foldl addEntity (.str "", .str "")

/-- `mitre`, with a list joined by commas. -/
def mitreOf (repr : Json → List Char) (finding : Dict) : Json :=
  match (finding.get "mitre").or (.arr []) with
  | .arr xs => .str (String.ofList ([','].intercalate (xs.map (str repr))))
  | v => v

/-- `(finding.get("intel") or {}).get("rdns") or {}`. -/
def rdnsOf (finding : Dict) : Option Json :=
  ((finding.get "intel").or (.obj [])).obj?.map fun intel => (Dict.get intel "rdns").or (.obj [])

/-- `endpoint and rdns.get(endpoint)`: a list or a dictionary has no hash. -/
def domainOf (rdns endpoint : Json) : Option Json :=
  if endpoint.truthy then
    match rdns, endpoint with
    | .obj _, .arr _ | .obj _, .obj _ => none
    | .obj ms, .str s => some (Dict.get ms s)
    | .obj _, _ => some .null
    | _, _ => none
  else some .null

/-- `v[0]`. -/
def first : Json → Option Json
  | .arr (x :: _) => some x
  | .str s => s.toList.head?.map fun c => .str (String.ofList [c])
  | _ => none

/-- `refs[0]` of references that are there. -/
def evidenceOf (finding : Dict) : Option (Option Json) :=
  let refs := finding.get "evidence_refs"
  if refs.truthy then (first refs).map some else some none

def communityOf (finding : Dict) : Option Json :=
  let se := finding.get "source_events"
  if se.truthy then (first se).map fun e => (e.obj?.map fun e => Dict.get e "community_id").getD .null
  else some .null

/-- `rev not in (None, "")`. -/
def isGiven : Json → Bool
  | .null => false
  | .str s => decide (s ≠ "")
  | _ => true

/-- The pairs, when the condition holds. -/
def entry (cond : Bool) (pairs : List (String × Json)) : List (String × Json) :=
  if cond then pairs else []

/-- `ext`; `none` where `to_cef` raises. -/
def mapping (repr : Json → List Char) (finding : Dict) : Option (List (String × Json)) := do
  let (src, dst) ← entities finding
  let rdns ← rdnsOf finding
  let srcDomain ← domainOf rdns src
  let dstDomain ← domainOf rdns dst
  let evidence ← evidenceOf finding
  let cid ← communityOf finding
  let rev := finding.get "revision"
  some ([("cs1", (finding.get? "finding_id").getD (.str "")), ("cs1Label", .str "findingId"),
      ("cs2", mitreOf repr finding), ("cs2Label", .str "mitre"),
      ("cs3", (finding.get? "tenant_id").getD (.str "")), ("cs3Label", .str "tenant"),
      ("cat", (finding.get? "category").getD (.str ""))] ++
    entry src.truthy [("src", src)] ++ entry dst.truthy [("dst", dst)] ++
    entry (isGiven rev) [("cs4", rev), ("cs4Label", .str "revision")] ++
    entry srcDomain.truthy [("sourceDnsDomain", srcDomain)] ++
    entry dstDomain.truthy [("destinationDnsDomain", dstDomain)] ++
    entry evidence.isSome [("flexString1", evidence.getD .null), ("flexString1Label", .str "evidence")] ++
    entry cid.truthy [("cs5", cid), ("cs5Label", .str "communityId")])

/-- The pairs that are printed. -/
def shown (ext : List (String × Json)) : List (String × Json) :=
  ext.filter fun p => decide (p.2.str? ≠ some "")

/-! ### The line -/

/-- `s.replace(c, new)`. -/
def replace (c : Char) (new s : List Char) : List Char := s.flatMap fun d => if d = c then new else [d]

/-- `_escape`. -/
def escape (v : List Char) : List Char :=
  replace '\n' [' '] (replace '|' ['\\', '|'] (replace '\\' ['\\', '\\'] v))

/-- `_escape_ext`. -/
def escapeExt (v : List Char) : List Char :=
  replace '\n' [' '] (replace '=' ['\\', '='] (replace '\\' ['\\', '\\'] v))

def detectorOf (finding : Dict) : Json := (finding.get? "detector_id").getD (.str "unknown")

def nameOf (finding : Dict) : Json := (finding.get? "category").getD (.str "finding")

def severityOf (finding : Dict) : Json := (finding.get? "severity").getD (.int 0)

/-- What stands between the pipes of the header, for the vendor, the product
    and the version that `to_cef` has by default. -/
def headerFields (repr : Json → List Char) (finding : Dict) : List (List Char) :=
  ["CEF:0".toList, "Cernity".toList, "NDR".toList, "1.0".toList,
    escape (str repr (detectorOf finding)), escape (str repr (nameOf finding)),
    str repr (severityOf finding)]

def extText (repr : Json → List Char) (pairs : List (String × Json)) : List Char :=
  [' '].intercalate (pairs.map fun p => p.1.toList ++ '=' :: escapeExt (str repr p.2))

/-- `to_cef`. -/
def toCef (repr : Json → List Char) (finding : Dict) : Option (List Char) :=
  (mapping repr finding).map fun ext =>
    (headerFields repr finding).flatMap (fun f => f ++ ['|']) ++ extText repr (shown ext)

/-! ### The reader -/

/-- `n` fields, each with a pipe behind it, and what follows. -/
def fields : Nat → List Char → Option (List (List Char) × List Char)
  | 0, s => some ([], s)
  | n + 1, s => (cut '\\' '|' s).bind fun p => (fields n p.2).map fun q => (p.1 :: q.1, q.2)

/-- The pairs behind a key: the word at the end of a piece is the next key. -/
def pairUp (key : List Char) : List (List Char) → List (List Char × List Char)
  | [] => []
  | [v] => [(key, v)]
  | s :: rest => (key, (Affix.rpartition ' ' s).1) :: pairUp (Affix.rpartition ' ' s).2 rest

/-- The pairs of an extension: a key is the word before an equals sign that is
    not escaped. -/
def parseExtension (ext : List Char) : List (List Char × List Char) :=
  match pieces '\\' '=' ext with
  | [] => []
  | key :: rest => pairUp key rest

/-- A text on one line. -/
def flat (s : List Char) : List Char := s.map fun c => if c = '\n' ∨ c = '\r' then ' ' else c

/-- The texts of a finding that are printed. -/
def printed (repr : Json → List Char) (finding : Dict) (ext : List (String × Json)) :
    List (List Char) :=
  str repr (detectorOf finding) :: str repr (nameOf finding) ::
    (shown ext).map fun p => str repr p.2

/-- The line is one event: seven fields and the pairs of the mapping, each as
    it was up to line breaks. -/
structure IsEvent (repr : Json → List Char) (finding : Dict) (ext : List (String × Json))
    (line : List Char) : Prop where
  oneLine : '\n' ∉ line ∧ '\r' ∉ line
  read : ∃ header rest, fields 7 line = some (header, rest) ∧
    header.map (unescape '\\') = ["CEF:0".toList, "Cernity".toList, "NDR".toList, "1.0".toList,
      flat (str repr (detectorOf finding)), flat (str repr (nameOf finding)),
      str repr (severityOf finding)] ∧
    (parseExtension rest).map (fun p => (p.1, unescape '\\' p.2)) =
      (shown ext).map fun p => (p.1.toList, flat (str repr p.2))

/-- No list and no dictionary. -/
def Scalar (v : Json) : Prop := v.arr? = none ∧ v.obj? = none

/-- The containers of a finding are lists and dictionaries, and its endpoints
    are no containers. -/
structure Shaped (finding : Dict) : Prop where
  entities : (decoded finding).truthy = true → ∃ es, decoded finding = .arr es ∧
    ∀ e ∈ es, ∀ ms, e = .obj ms → Scalar (Dict.get ms "value")
  intel : (finding.get "intel").truthy = true → ∃ ms, finding.get "intel" = .obj ms ∧
    ((Dict.get ms "rdns").truthy = true → ∃ rdns, Dict.get ms "rdns" = .obj rdns)
  refs : (finding.get "evidence_refs").truthy = true → ∃ xs, finding.get "evidence_refs" = .arr xs
  events : (finding.get "source_events").truthy = true → ∃ xs, finding.get "source_events" = .arr xs

/-! ### Escaped texts -/

variable {repr : Json → List Char} {finding : Dict} {ext : List (String × Json)} {line : List Char}

theorem replace_cons (c : Char) (new : List Char) (d : Char) (s : List Char) :
    replace c new (d :: s) = (if d = c then new else [d]) ++ replace c new s := List.flatMap_cons

theorem replace_cons_ne {c d : Char} (h : d ≠ c) (new s : List Char) :
    replace c new (d :: s) = d :: replace c new s := by
  rw [replace_cons, if_neg h, List.singleton_append]

/-- The three replacements in a row. -/
theorem replace_replace_replace {sep : Char} (hsep : sep ≠ '\\') (hnl : sep ≠ '\n') (hspace : sep ≠ ' ')
    (v : List Char) :
    replace '\n' [' '] (replace sep ['\\', sep] (replace '\\' ['\\', '\\'] v)) =
      Escaping.escape '\\' (· = sep) (replace '\n' [' '] v) := by
  induction v with
  | nil => rfl
  | cons d v ih =>
    rw [replace_cons '\\']
    -- what one replacement puts in, the later ones leave as it is
    by_cases hback : d = '\\'
    · subst hback
      rw [if_pos rfl, List.cons_append, List.singleton_append, replace_cons_ne (Ne.symm hsep),
        replace_cons_ne (Ne.symm hsep), replace_cons_ne (by decide), replace_cons_ne (by decide), ih,
        replace_cons_ne (by decide), Escaping.escape_cons, if_pos (Or.inl rfl)]
      rfl
    · rw [if_neg hback, List.singleton_append, replace_cons sep]
      by_cases hd : d = sep
      · subst hd
        rw [if_pos rfl, List.cons_append, List.singleton_append, replace_cons_ne (by decide),
          replace_cons_ne hnl, ih, replace_cons_ne hnl, Escaping.escape_cons,
          if_pos (Or.inr (decide_eq_true rfl))]
        rfl
      · rw [if_neg hd, List.singleton_append, replace_cons '\n']
        by_cases hbreak : d = '\n'
        · subst hbreak
          rw [if_pos rfl, ih, replace_cons '\n' [' '] '\n' v, if_pos rfl, List.singleton_append,
            List.singleton_append, Escaping.escape_cons, if_neg]
          · rfl
          · simpa using Ne.symm hspace
        · rw [if_neg hbreak, ih, replace_cons_ne hbreak, Escaping.escape_cons, if_neg]
          · simpa [hback] using hd

theorem escape_eq (v : List Char) :
    escape v = Escaping.escape '\\' (· = '|') (replace '\n' [' '] v) :=
  replace_replace_replace (by decide) (by decide) (by decide) v

theorem escapeExt_eq (v : List Char) :
    escapeExt v = Escaping.escape '\\' (· = '=') (replace '\n' [' '] v) :=
  replace_replace_replace (by decide) (by decide) (by decide) v

theorem flat_of_notMem {v : List Char} (h : '\r' ∉ v) : replace '\n' [' '] v = flat v := by
  induction v with
  | nil => rfl
  | cons c v ih =>
    rw [List.mem_cons, not_or] at h
    rw [replace_cons, ih h.2]
    by_cases hc : c = '\n'
    · subst hc
      rfl
    · change _ = (if c = '\n' ∨ c = '\r' then ' ' else c) :: flat v
      rw [if_neg hc, if_neg (not_or.mpr ⟨hc, Ne.symm h.1⟩)]
      rfl

/-- **What was printed is read back**, in the header and in the extension. -/
theorem unescape_escape {v : List Char} (h : '\r' ∉ v) :
    unescape '\\' (escape v) = flat v ∧ unescape '\\' (escapeExt v) = flat v := by
  rw [escape_eq, escapeExt_eq, Escaping.unescape_escape, Escaping.unescape_escape, flat_of_notMem h]
  exact ⟨rfl, rfl⟩

/-! ### The header -/

/-- Fields without pipes are read back. -/
theorem fields_flatMap {fs : List (List Char)} (h : ∀ f ∈ fs, Guarded '\\' '|' f) (rest : List Char) :
    fields fs.length (fs.flatMap (fun f => f ++ ['|']) ++ rest) = some (fs, rest) := by
  induction fs with
  | nil => rfl
  | cons f fs ih =>
    have hsplit : (f :: fs).flatMap (fun f => f ++ ['|']) ++ rest =
        f ++ '|' :: (fs.flatMap (fun f => f ++ ['|']) ++ rest) := by simp
    rw [hsplit, List.length_cons, fields,
      Escaping.cut_guarded (by decide) (h f List.mem_cons_self), Option.bind_some,
      ih fun g hg => h g (List.mem_cons_of_mem f hg)]
    rfl

/-- **The seven fields of the header** are read back. -/
theorem fields_header {n : Int} (hsev : severityOf finding = .int n) (rest : List Char) :
    fields 7 ((headerFields repr finding).flatMap (fun f => f ++ ['|']) ++ rest) =
      some (headerFields repr finding, rest) := by
  have hplain : ∀ s : String, s.toList.all (fun c => c != '\\' && c != '|') = true →
      Guarded '\\' '|' s.toList := by
    intro s hs
    refine .of_forall fun c hc => ?_
    simpa using List.all_eq_true.mp hs c hc
  suffices hguarded : ∀ f ∈ headerFields repr finding, Guarded '\\' '|' f from fields_flatMap hguarded rest
  intro f hf
  simp only [headerFields, List.mem_cons, List.not_mem_nil, or_false] at hf
  rcases hf with rfl | rfl | rfl | rfl | rfl | rfl | rfl
  · exact hplain _ (by decide)
  · exact hplain _ (by decide)
  · exact hplain _ (by decide)
  · exact hplain _ (by decide)
  · rw [escape_eq]
    exact Escaping.guarded_escape (by decide) _
  · rw [escape_eq]
    exact Escaping.guarded_escape (by decide) _
  · rw [hsev]
    refine .of_forall fun c hc => ⟨?_, ?_⟩
    · rintro rfl
      exact Number.notMem_intText (by decide) (by decide) n hc
    · rintro rfl
      exact Number.notMem_intText (by decide) (by decide) n hc

/-! ### The extension -/

/-- The keys of the mapping, in their order. -/
def KEYS : List String :=
  ["cs1", "cs1Label", "cs2", "cs2Label", "cs3", "cs3Label", "cat", "src", "dst", "cs4", "cs4Label",
    "sourceDnsDomain", "destinationDnsDomain", "flexString1", "flexString1Label", "cs5", "cs5Label"]

theorem entry_sublist (cond : Bool) (pairs : List (String × Json)) :
    List.Sublist ((entry cond pairs).map Prod.fst) (pairs.map Prod.fst) := by
  cases cond with
  | true => exact List.Sublist.refl _
  | false => exact List.nil_sublist _

/-- The mapping has some of the keys, each once. -/
theorem keys_mapping (h : mapping repr finding = some ext) :
    List.Sublist (ext.map Prod.fst) KEYS := by
  unfold mapping at h
  simp only [Option.bind_eq_bind, Option.bind_eq_some_iff] at h
  obtain ⟨ends, -, rdns, -, srcDomain, -, dstDomain, -, evidence, -, cid, -, hext⟩ := h
  obtain rfl := Option.some.inj hext
  simp only [List.map_append]
  exact (((((((List.Sublist.refl _).append (entry_sublist _ _)).append (entry_sublist _ _)).append
    (entry_sublist _ _)).append (entry_sublist _ _)).append (entry_sublist _ _)).append
    (entry_sublist _ _)).append (entry_sublist _ _)

/-- A key has none of the characters that the reader looks for. -/
theorem key_plain (h : mapping repr finding = some ext) {p : String × Json} (hp : p ∈ shown ext)
    {c : Char} (hc : c ∈ p.1.toList) : c ∉ [' ', '=', '\\', '\n', '\r'] := by
  have hall : KEYS.all (fun k => k.toList.all fun c => decide (c ∉ [' ', '=', '\\', '\n', '\r'])) =
      true := by decide
  have hkey : p.1 ∈ KEYS :=
    (keys_mapping h).subset (List.mem_map_of_mem (List.mem_of_mem_filter hp))
  exact of_decide_eq_true (List.all_eq_true.mp (List.all_eq_true.mp hall _ hkey) c hc)

/-- A pair as it is printed. -/
def pairText (repr : Json → List Char) (p : String × Json) : List Char :=
  p.1.toList ++ '=' :: escapeExt (str repr p.2)

theorem extText_cons (repr : Json → List Char) (p : String × Json) (ps : List (String × Json)) :
    extText repr (p :: ps) = pairText repr p ++ ps.flatMap fun p => ' ' :: pairText repr p := by
  induction ps generalizing p with
  | nil => simp [extText, pairText]
  | cons q ps ih =>
    change [' '].intercalate (pairText repr p :: pairText repr q :: ps.map (pairText repr)) = _
    rw [List.intercalate_cons_cons, List.flatMap_cons, List.append_assoc]
    exact congrArg (fun t => pairText repr p ++ ([' '] ++ t)) (ih q)

theorem pairUp_cons (key s : List Char) {rest : List (List Char)} (h : rest ≠ []) :
    pairUp key (s :: rest) =
      (key, (Affix.rpartition ' ' s).1) :: pairUp (Affix.rpartition ' ' s).2 rest := by
  obtain ⟨t, ts, rfl⟩ := List.exists_cons_of_ne_nil h
  rfl

/-- The pairs that follow a key and a value. -/
theorem pairUp_pieces {pairs : List (String × Json)}
    (hkeys : ∀ p ∈ pairs, ∀ c ∈ p.1.toList, c ∉ [' ', '=', '\\', '\n', '\r']) (key : List Char)
    {v : List Char} (hv : Guarded '\\' '=' v) :
    pairUp key (pieces '\\' '=' (v ++ pairs.flatMap fun p => ' ' :: pairText repr p)) =
      (key, v) :: pairs.map fun p => (p.1.toList, escapeExt (str repr p.2)) := by
  induction pairs generalizing key v with
  | nil =>
    rw [List.flatMap_nil, List.append_nil, Escaping.pieces_of_guarded (by decide) hv]
    rfl
  | cons p ps ih =>
    have hplain := hkeys p List.mem_cons_self
    have hkey : Guarded '\\' '=' (' ' :: p.1.toList) := by
      refine .plain (by decide) (by decide) (.of_forall fun c hc => ?_)
      have hc' := hplain c hc
      simp only [List.mem_cons, List.not_mem_nil, or_false, not_or] at hc'
      exact ⟨hc'.2.2.1, hc'.2.1⟩
    have hspace : ' ' ∉ p.1.toList := fun hmem => hplain ' ' hmem (by decide)
    -- the piece behind a key is its value and, after a space, the next key
    have htext : v ++ (p :: ps).flatMap (fun p => ' ' :: pairText repr p) =
        (v ++ ' ' :: p.1.toList) ++ '=' :: (escapeExt (str repr p.2) ++
          ps.flatMap fun p => ' ' :: pairText repr p) := by
      simp [pairText]
    rw [htext, Escaping.pieces_guarded (by decide) (hv.append hkey),
      pairUp_cons _ _ (Escaping.pieces_ne_nil _ _ _), Affix.rpartition_append hspace]
    dsimp only
    rw [ih (fun q hq => hkeys q (List.mem_cons_of_mem p hq)) p.1.toList
      (escapeExt_eq (str repr p.2) ▸ Escaping.guarded_escape (by decide) _)]
    rfl

/-- **The pairs of the extension** are read back. -/
theorem parseExtension_extText {pairs : List (String × Json)}
    (hkeys : ∀ p ∈ pairs, ∀ c ∈ p.1.toList, c ∉ [' ', '=', '\\', '\n', '\r']) :
    parseExtension (extText repr pairs) =
      pairs.map fun p => (p.1.toList, escapeExt (str repr p.2)) := by
  cases pairs with
  | nil => rfl
  | cons p ps =>
    have hkey : Guarded '\\' '=' p.1.toList := by
      refine .of_forall fun c hc => ?_
      have hc' := hkeys p List.mem_cons_self c hc
      simp only [List.mem_cons, List.not_mem_nil, or_false, not_or] at hc'
      exact ⟨hc'.2.2.1, hc'.2.1⟩
    rw [extText_cons, pairText, List.append_assoc, List.cons_append, parseExtension,
      Escaping.pieces_guarded (by decide) hkey]
    dsimp only
    exact pairUp_pieces (fun q hq => hkeys q (List.mem_cons_of_mem p hq)) _
      (escapeExt_eq (str repr p.2) ▸ Escaping.guarded_escape (by decide) _)

/-! ### Shaped findings -/

theorem scalar_addEntity {ends : Json × Json} (h : Scalar ends.1 ∧ Scalar ends.2) {e : Json}
    (he : ∀ ms, e = .obj ms → Scalar (Dict.get ms "value")) :
    Scalar (addEntity ends e).1 ∧ Scalar (addEntity ends e).2 := by
  unfold addEntity
  cases e with
  | obj ms =>
    have hvalue : Scalar ((Dict.get? ms "value").getD (.str "")) := by
      have hget := he ms rfl
      rw [Dict.get] at hget
      cases hv : Dict.get? ms "value" with
      | none => exact ⟨rfl, rfl⟩
      | some v =>
        rw [hv] at hget
        exact hget
    dsimp only [Json.obj?]
    split_ifs
    · exact ⟨hvalue, h.2⟩
    · exact ⟨h.1, hvalue⟩
    · exact h
  | _ => exact h

/-- The endpoints of a shaped finding are no containers. -/
theorem entities_of_shaped (h : Shaped finding) :
    ∃ ends, entities finding = some ends ∧ Scalar ends.1 ∧ Scalar ends.2 := by
  have hempty : Scalar (.str "") ∧ Scalar (.str "") := ⟨⟨rfl, rfl⟩, ⟨rfl, rfl⟩⟩
  unfold entities
  cases ht : (decoded finding).truthy with
  | false =>
    rw [Json.or, ht]
    exact ⟨_, rfl, hempty⟩
  | true =>
    obtain ⟨es, hes, hvalues⟩ := h.entities ht
    rw [Json.or, if_pos ht, hes]
    have hfold : ∀ ends : Json × Json, Scalar ends.1 ∧ Scalar ends.2 →
        Scalar (es.foldl addEntity ends).1 ∧ Scalar (es.foldl addEntity ends).2 := fun ends hends =>
      List.foldlRecOn (motive := fun ends => Scalar ends.1 ∧ Scalar ends.2) es addEntity hends
        fun ends hends e he => scalar_addEntity hends (hvalues e he)
    exact ⟨_, rfl, hfold _ hempty⟩

theorem rdns_of_shaped (h : Shaped finding) : ∃ ms, rdnsOf finding = some (.obj ms) := by
  unfold rdnsOf
  cases ht : (finding.get "intel").truthy with
  | false =>
    rw [Json.or, ht]
    exact ⟨[], rfl⟩
  | true =>
    obtain ⟨ms, hms, hrdns⟩ := h.intel ht
    rw [Json.or, if_pos ht, hms]
    cases hr : (Dict.get ms "rdns").truthy with
    | false => exact ⟨[], by simp [Json.obj?, Json.or, hr]⟩
    | true =>
      obtain ⟨rdns, heq⟩ := hrdns hr
      exact ⟨rdns, by simp [Json.obj?, Json.or, heq ▸ hr, heq]⟩

theorem domain_of_scalar {endpoint : Json} (h : Scalar endpoint) (ms : List (String × Json)) :
    ∃ v, domainOf (.obj ms) endpoint = some v := by
  unfold domainOf
  split
  · cases endpoint with
    | arr xs => cases h.1
    | obj ms => cases h.2
    | _ => exact ⟨_, rfl⟩
  · exact ⟨_, rfl⟩

theorem first_of_list {v : Json} (ht : v.truthy = true) (h : ∃ xs, v = .arr xs) : ∃ x, first v = some x := by
  obtain ⟨xs, rfl⟩ := h
  cases xs with
  | nil => cases ht
  | cons x xs => exact ⟨x, rfl⟩

/-- **A shaped finding has a mapping.** -/
theorem mapping_of_shaped (h : Shaped finding) : ∃ ext, mapping repr finding = some ext := by
  obtain ⟨ends, hends, hsrc, hdst⟩ := entities_of_shaped h
  obtain ⟨ms, hrdns⟩ := rdns_of_shaped h
  obtain ⟨srcDomain, hsrcDomain⟩ := domain_of_scalar hsrc ms
  obtain ⟨dstDomain, hdstDomain⟩ := domain_of_scalar hdst ms
  obtain ⟨evidence, hevidence⟩ : ∃ v, evidenceOf finding = some v := by
    unfold evidenceOf
    dsimp only
    split
    next ht =>
      obtain ⟨x, hx⟩ := first_of_list ht (h.refs ht)
      exact ⟨_, by rw [hx]; rfl⟩
    next => exact ⟨_, rfl⟩
  obtain ⟨cid, hcid⟩ : ∃ v, communityOf finding = some v := by
    unfold communityOf
    dsimp only
    split
    next ht =>
      obtain ⟨x, hx⟩ := first_of_list ht (h.events ht)
      exact ⟨_, by rw [hx]; rfl⟩
    next => exact ⟨_, rfl⟩
  unfold mapping
  simp [hends, hrdns, hsrcDomain, hdstDomain, hevidence, hcid]

/-! ### Line breaks -/

theorem mem_replace_break {c : Char} {v : List Char} (hc : c ≠ ' ') :
    c ∈ replace '\n' [' '] v ↔ c ≠ '\n' ∧ c ∈ v := by
  induction v with
  | nil => simp [replace]
  | cons d v ih =>
    rw [replace_cons, List.mem_append, ih, List.mem_cons]
    by_cases hd : d = '\n'
    · subst hd
      rw [if_pos rfl, List.mem_singleton]
      constructor
      · rintro (rfl | ⟨hne, hmem⟩)
        · exact absurd rfl hc
        · exact ⟨hne, Or.inr hmem⟩
      · rintro ⟨hne, rfl | hmem⟩
        · exact absurd rfl hne
        · exact Or.inr ⟨hne, hmem⟩
    · rw [if_neg hd, List.mem_singleton]
      constructor
      · rintro (rfl | ⟨hne, hmem⟩)
        · exact ⟨hd, Or.inl rfl⟩
        · exact ⟨hne, Or.inr hmem⟩
      · rintro ⟨hne, rfl | hmem⟩
        · exact Or.inl rfl
        · exact Or.inr ⟨hne, hmem⟩

theorem mem_extText {pairs : List (String × Json)} {c : Char} (hspace : c ≠ ' ') (heq : c ≠ '=')
    (hkeys : ∀ p ∈ pairs, c ∉ p.1.toList) :
    c ∈ extText repr pairs ↔ ∃ p ∈ pairs, c ∈ escapeExt (str repr p.2) := by
  have hpair : ∀ p ∈ pairs, (c ∈ pairText repr p ↔ c ∈ escapeExt (str repr p.2)) := by
    intro p hp
    rw [pairText, List.mem_append, List.mem_cons]
    simp [hkeys p hp, heq]
  cases pairs with
  | nil => simp [extText]
  | cons p ps =>
    rw [extText_cons, List.mem_append, List.mem_flatMap, hpair p List.mem_cons_self,
      List.exists_mem_cons_iff]
    refine or_congr_right (exists_congr fun q => and_congr_right fun hq => ?_)
    rw [List.mem_cons, or_iff_right hspace]
    exact hpair q (List.mem_cons_of_mem p hq)

/-- **The breaks of the line** are those of the printed texts that a space
    does not replace. -/
theorem mem_line {n : Int} (hsev : severityOf finding = .int n) (h : mapping repr finding = some ext)
    {c : Char} (hc : c = '\n' ∨ c = '\r') :
    c ∈ (headerFields repr finding).flatMap (fun f => f ++ ['|']) ++ extText repr (shown ext) ↔
      c ≠ '\n' ∧ ∃ text ∈ printed repr finding ext, c ∈ text := by
  have hplain : c ≠ ' ' ∧ c ≠ '=' ∧ c ≠ '|' ∧ c ≠ '\\' ∧ c ∉ "CEF:0".toList ∧ c ∉ "Cernity".toList ∧
      c ∉ "NDR".toList ∧ c ∉ "1.0".toList ∧ c ≠ '-' ∧ c.isDigit = false := by
    rcases hc with rfl | rfl <;> decide
  -- none of what the line adds to the texts is a break
  obtain ⟨hspace, heq, hpipe, hesc, hcef, hvendor, hproduct, hversion, hdash, hdigit⟩ := hplain
  have hheader : ∀ v, c ∈ escape v ↔ c ≠ '\n' ∧ c ∈ v := fun v => by
    rw [escape_eq, Escaping.mem_escape hesc, mem_replace_break hspace]
  have hext : ∀ v, c ∈ escapeExt v ↔ c ≠ '\n' ∧ c ∈ v := fun v => by
    rw [escapeExt_eq, Escaping.mem_escape hesc, mem_replace_break hspace]
  have hsevText : c ∉ str repr (severityOf finding) := by
    rw [hsev]
    exact Number.notMem_intText hdash hdigit n
  have hkeys : ∀ p ∈ shown ext, c ∉ p.1.toList := by
    intro p hp hmem
    have hnot := key_plain h hp hmem
    rcases hc with rfl | rfl <;> exact hnot (by decide)
  have hfield : ∀ f, c ∈ f ++ ['|'] ↔ c ∈ f := fun f => by
    rw [List.mem_append, List.mem_singleton, or_iff_left hpipe]
  have htexts : (∃ f ∈ headerFields repr finding, c ∈ f ++ ['|']) ↔
      c ∈ escape (str repr (detectorOf finding)) ∨ c ∈ escape (str repr (nameOf finding)) := by
    have hnone : ¬ ∃ f ∈ ([] : List (List Char)), c ∈ f ++ ['|'] := fun ⟨_, hf, _⟩ => List.not_mem_nil hf
    rw [headerFields, List.exists_mem_cons_iff, hfield, or_iff_right hcef, List.exists_mem_cons_iff, hfield,
      or_iff_right hvendor, List.exists_mem_cons_iff, hfield, or_iff_right hproduct,
      List.exists_mem_cons_iff, hfield, or_iff_right hversion, List.exists_mem_cons_iff, hfield,
      List.exists_mem_cons_iff, hfield, List.exists_mem_cons_iff, hfield, or_iff_right hsevText,
      or_iff_left hnone]
  have hshown : (∃ p ∈ shown ext, c ∈ escapeExt (str repr p.2)) ↔
      c ≠ '\n' ∧ ∃ text ∈ (shown ext).map (fun p => str repr p.2), c ∈ text := by
    constructor
    · rintro ⟨p, hp, hmem⟩
      obtain ⟨hne, hmem'⟩ := (hext _).mp hmem
      exact ⟨hne, _, List.mem_map_of_mem hp, hmem'⟩
    · rintro ⟨hne, text, htext, hmem⟩
      obtain ⟨p, hp, rfl⟩ := List.mem_map.mp htext
      exact ⟨p, hp, (hext _).mpr ⟨hne, hmem⟩⟩
  rw [List.mem_append, List.mem_flatMap, htexts, mem_extText hspace heq hkeys, hheader, hheader, hshown,
    printed, List.exists_mem_cons_iff, List.exists_mem_cons_iff, ← and_or_left, ← and_or_left, or_assoc]

/-! ### One event -/

theorem unescape_of_notMem {s : List Char} (h : '\\' ∉ s) : unescape '\\' s = s := by
  rw [unescape]
  induction s with
  | nil => rfl
  | cons c s ih =>
    rw [List.mem_cons, not_or] at h
    rw [Escaping.unescapeFrom, if_neg (Ne.symm h.1), ih h.2]

/-- **A line is one event** of the finding's fields and pairs exactly when no
    printed text has a carriage return; a shaped finding has its line. -/
theorem toCef_event_iff (repr : Json → List Char) (finding : Dict) {n : Int}
    (hsev : severityOf finding = .int n) :
    (Shaped finding → ∃ line, toCef repr finding = some line) ∧
      ∀ line, toCef repr finding = some line → ∃ ext, mapping repr finding = some ext ∧
        (IsEvent repr finding ext line ↔ ∀ text ∈ printed repr finding ext, '\r' ∉ text) := by
  refine ⟨fun h => ?_, fun line hline => ?_⟩
  · obtain ⟨ext, hext⟩ : ∃ ext, mapping repr finding = some ext := mapping_of_shaped h
    exact ⟨_, by rw [toCef, hext]; rfl⟩
  · obtain ⟨ext, hext, rfl⟩ := Option.map_eq_some_iff.mp hline
    refine ⟨ext, hext, fun h text htext hmem => ?_, fun h => ⟨⟨?_, ?_⟩, ?_⟩⟩
    · exact h.oneLine.2 ((mem_line hsev hext (Or.inr rfl)).mpr ⟨by decide, text, htext, hmem⟩)
    · exact fun hmem => ((mem_line hsev hext (Or.inl rfl)).mp hmem).1 rfl
    · intro hmem
      obtain ⟨-, text, htext, hin⟩ := (mem_line hsev hext (Or.inr rfl)).mp hmem
      exact h text htext hin
    · refine ⟨_, _, fields_header hsev _, ?_, ?_⟩
      · have hdetector := h _ List.mem_cons_self
        have hname := h _ (List.mem_cons_of_mem _ List.mem_cons_self)
        have hsevText : '\\' ∉ str repr (severityOf finding) := by
          rw [hsev]
          exact Number.notMem_intText (by decide) (by decide) n
        simp only [headerFields, List.map_cons, List.map_nil, (unescape_escape hdetector).1,
          (unescape_escape hname).1, unescape_of_notMem hsevText]
        rfl
      · rw [parseExtension_extText fun p hp c hc => key_plain hext hp hc, List.map_map]
        refine List.map_congr_left fun p hp => ?_
        have hvalue := h (str repr p.2)
          (List.mem_cons_of_mem _ (List.mem_cons_of_mem _ (List.mem_map_of_mem hp)))
        exact congrArg (Prod.mk p.1.toList) (unescape_escape hvalue).2

/-- A scan with a category that has each of the special characters. -/
def scan : Dict :=
  [("finding_id", .str "f-1"), ("tenant_id", .str "acme"), ("detector_id", .str "a|b\\"),
    ("category", .str "k=v\n|\\= x"), ("severity", .int 7),
    ("entities", .arr [.obj [("role", .str "attacker"), ("value", .str "10.0.0.5")]])]

theorem scan_is_event : ∃ ext line, mapping (fun _ => []) scan = some ext ∧
    toCef (fun _ => []) scan = some line ∧ IsEvent (fun _ => []) scan ext line := by
  have hsev : severityOf scan = .int 7 := rfl
  obtain ⟨hdefined, hevent⟩ := toCef_event_iff (fun _ => []) scan hsev
  have hshaped : Shaped scan := by
    refine ⟨fun _ => ⟨[.obj [("role", .str "attacker"), ("value", .str "10.0.0.5")]], rfl, ?_⟩, ?_, ?_, ?_⟩
    · intro e he ms hms
      rw [List.mem_singleton] at he
      obtain rfl : ms = [("role", .str "attacker"), ("value", .str "10.0.0.5")] :=
        Json.obj.inj (hms.symm.trans he)
      exact ⟨by decide +kernel, by decide +kernel⟩
    all_goals exact fun h => absurd h (by decide +kernel)
  obtain ⟨line, hline⟩ := hdefined hshaped
  obtain ⟨ext, hext, hiff⟩ := hevent line hline
  refine ⟨ext, line, hext, hline, hiff.mpr ?_⟩
  have hclean : ((mapping (fun _ => []) scan).all fun ext =>
      (printed (fun _ => []) scan ext).all fun text => decide ('\r' ∉ text)) = true := by decide +kernel
  rw [hext] at hclean
  exact fun text htext => of_decide_eq_true (List.all_eq_true.mp hclean text htext)

/-- A carriage return in the detector's name breaks the line. -/
theorem detector_breaks_line : ∃ ext line,
    mapping (fun _ => []) [("detector_id", .str "scan\rCEF:0|"), ("severity", .int 7)] = some ext ∧
      toCef (fun _ => []) [("detector_id", .str "scan\rCEF:0|"), ("severity", .int 7)] = some line ∧
      '\r' ∈ line ∧
      ¬ IsEvent (fun _ => []) [("detector_id", .str "scan\rCEF:0|"), ("severity", .int 7)] ext line := by
  have hline : ((toCef (fun _ => []) [("detector_id", .str "scan\rCEF:0|"), ("severity", .int 7)]).any
      fun line => decide ('\r' ∈ line)) = true := by decide +kernel
  obtain ⟨line, hsome, hmem⟩ := (Option.any_eq_true _ _).mp hline
  obtain ⟨ext, hext, -⟩ := Option.map_eq_some_iff.mp hsome
  have hbreak : '\r' ∈ line := of_decide_eq_true hmem
  exact ⟨ext, line, hext, hsome, hbreak, fun h => h.oneLine.2 hbreak⟩

end Cef
