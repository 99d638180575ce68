import CernityNdr.Framework.IpAddress

/-! # Parts of a URL

    `urlsplit` and `urlunsplit` of `urllib.parse`: a URL is taken apart, its
    network location into the user, the host and the port, and it is put together
    again.

    A character `expands` when its compatibility form has one of `/?#@:` in it.

    * `splitTail_append`: a path, a query and a fragment are read back.
    * `partsOf_append`: a longer query leaves the origin of a URL as it is. -/

namespace UrlSplit

open Joining

/-- `SplitResult`. -/
structure Parts where
  scheme : List Char
  netloc : List Char
  path : List Char
  query : List Char
  fragment : List Char
deriving DecidableEq, Repr

/-! ### The network location -/

/-- The user and the password, in front of the last `@`. -/
def userinfo (netloc : List Char) : Option (List Char × List Char) :=
  (last? '@' netloc).map fun (info, _) => cut ':' info

/-- What follows the last `@`. -/
def hostinfo (netloc : List Char) : List Char := ((last? '@' netloc).map Prod.snd).getD netloc

/-- `_hostinfo`: the host, and the text of the port. -/
def hostAndPort (info : List Char) : List Char × List Char :=
  match first? '[' info with
  | some (_, bracketed) => ((cut ']' bracketed).1, (cut ':' (cut ']' bracketed).2).2)
  | none => cut ':' info

/-- `hostname`: what is behind a `%` keeps its case. -/
def hostname (lower : List Char → List Char) (netloc : List Char) : List Char :=
  let host := (hostAndPort (hostinfo netloc)).1
  match first? '%' host with
  | some (host, zone) => lower host ++ '%' :: zone
  | none => lower host

/-- `int` takes no longer text of digits. -/
def maxStrDigits : Nat := 4300

/-- The number of the text of a port, if there is a text; the outer `none` where
    it raises. -/
def portOf (text : List Char) : Option (Option Nat) :=
  if text = [] then some none
  else if maxStrDigits < text.length then none
  else ((IpAddress.numeral 10 IpAddress.decValue? text).filter (· ≤ 65535)).map some

/-- `port`. -/
def port (netloc : List Char) : Option (Option Nat) := portOf (hostAndPort (hostinfo netloc)).2

/-- `\Av[a-fA-F0-9]+\..+\z` -/
def isFuture : List Char → Bool
  | 'v' :: cs =>
    match cs.dropWhile IpAddress.isGroupChar with
    | '.' :: rest => cs.takeWhile IpAddress.isGroupChar ≠ [] && rest ≠ [] && '\n' ∉ rest
    | _ => false
  | _ => false

/-- `_check_bracketed_host`. -/
def bracketedHost (host : List Char) : Bool :=
  if host.head? = some 'v' then isFuture host
  else
    match IpAddress.ofText host with
    | some (.v6 _ _) => true
    | _ => false

/-- `_check_bracketed_netloc`, of what follows the last `@`. -/
def bracketedInfo (info : List Char) : Bool :=
  bracketedHost (hostAndPort info).1 &&
    match first? '[' info with
    | some (before, bracketed) =>
      before = [] && ((cut ']' bracketed).2 = [] || (cut ']' bracketed).2.head? = some ':')
    | none => true

variable (expands : Char → Bool)

/-- The checks of a network location, also `_checknetloc`. -/
def netlocOk (netloc : List Char) : Bool :=
  decide ('[' ∈ netloc ↔ ']' ∈ netloc) && ('[' ∉ netloc || bracketedInfo (hostinfo netloc)) &&
    netloc.all fun c => c.toNat < 128 || !expands c

/-! ### Taking apart -/

/-- What is left without the leading control characters and spaces, and without
    tabs and line breaks. -/
def cleaned (url : List Char) : List Char :=
  (url.dropWhile fun c => c.toNat ≤ 32).filter fun c => c ∉ ['\t', '\r', '\n']

def isSchemeChar (c : Char) : Bool := c.isAlphanum || c = '+' || c = '-' || c = '.'

def splitScheme (url : List Char) : List Char × List Char :=
  match first? ':' url with
  | some (c :: cs, rest) =>
    if c.isAlpha && cs.all isSchemeChar then ((c :: cs).map Char.toLower, rest) else ([], url)
  | _ => ([], url)

/-- A character that ends the network location. -/
def isDelimiter (c : Char) : Bool := c = '/' || c = '?' || c = '#'

/-- `_splitnetloc`, where `//` precedes it. -/
def splitNetloc : List Char → List Char × List Char
  | '/' :: '/' :: url => (url.takeWhile fun c => !isDelimiter c, url.dropWhile fun c => !isDelimiter c)
  | url => ([], url)

/-- The path, the query and the fragment. -/
def splitTail (url : List Char) : List Char × List Char × List Char :=
  let front := (cut '#' url).1
  ((cut '?' front).1, (cut '?' front).2, (cut '#' url).2)

/-- The parts, before they are checked. -/
def partsOf (url : List Char) : Parts :=
  let rest := (splitScheme (cleaned url)).2
  let tail := splitTail (splitNetloc rest).2
  ⟨(splitScheme (cleaned url)).1, (splitNetloc rest).1, tail.1, tail.2.1, tail.2.2⟩

/-- `urlsplit`, unless it raises. -/
def urlsplit (url : List Char) : Option Parts :=
  if netlocOk expands (partsOf url).netloc then some (partsOf url) else none

/-! ### Putting together -/

/-- A separator and a part, unless the part is empty. -/
def behind (c : Char) (part : List Char) : List Char := if part = [] then [] else c :: part

/-- `urlunsplit`, where there are a scheme and a network location. -/
def urlunsplit (p : Parts) : List Char :=
  let path := if p.path ≠ [] ∧ p.path.head? ≠ some '/' then '/' :: p.path else p.path
  p.scheme ++ ':' :: '/' :: '/' :: p.netloc ++ path ++ behind '?' p.query ++ behind '#' p.fragment

variable {expands}

/-! ### A longer query -/

/-- A scheme ends in front of a `?`. -/
theorem splitScheme_append {url tail : List Char} (h : '?' ∈ url ∨ tail.head? = some '?') :
    ∃ rest, splitScheme (url ++ tail) = ((splitScheme url).1, rest ++ tail) ∧
      (splitScheme url).2 = rest ∧ ('?' ∈ rest ∨ tail.head? = some '?') := by
  by_cases hcolon : ':' ∈ url
  · obtain ⟨front, rest, hfront, rfl⟩ : ∃ front rest, ':' ∉ front ∧ url = front ++ ':' :: rest := by
      obtain ⟨⟨front, rest⟩, hcut⟩ : ∃ ab, first? ':' url = some ab := by
        rw [← Option.isSome_iff_exists, ← Option.ne_none_iff_isSome, Ne, first?_eq_none]
        exact not_not.mpr hcolon
      exact ⟨front, rest, first?_eq_some.mp hcut⟩
    have hfirst : first? ':' (front ++ ':' :: rest) = some (front, rest) := first?_append hfront
    have hfirst' : first? ':' (front ++ ':' :: rest ++ tail) = some (front, rest ++ tail) := by
      rw [List.append_assoc, List.cons_append]
      exact first?_append hfront
    unfold splitScheme
    rw [hfirst, hfirst']
    cases front with
    | nil => exact ⟨_, rfl, rfl, h⟩
    | cons c cs =>
      by_cases hok : (c.isAlpha && cs.all isSchemeChar) = true
      · refine ⟨rest, by simp only [hok, if_true], by simp only [hok, if_true], h.imp_left ?_⟩
        -- the scheme has no `?` in it
        intro hmem
        rw [Bool.and_eq_true, List.all_eq_true] at hok
        rcases List.mem_append.mp hmem with hmem | hmem
        · rcases List.mem_cons.mp hmem with rfl | hmem
          · exact absurd hok.1 (by decide)
          · exact absurd (hok.2 '?' hmem) (by decide)
        · rcases List.mem_cons.mp hmem with heq | hmem
          · exact absurd heq (by decide)
          · exact hmem
      · exact ⟨_, by simp only [hok]; rfl, by simp only [hok]; rfl, h⟩
  · have hfirst : first? ':' url = none := first?_of_notMem hcolon
    refine ⟨url, ?_, by rw [splitScheme, hfirst], h⟩
    have hscheme : (splitScheme url).1 = [] := by rw [splitScheme, hfirst]
    rw [hscheme]
    cases hfirst' : first? ':' (url ++ tail) with
    | none => rw [splitScheme, hfirst']
    | some pair =>
      obtain ⟨front, rest⟩ := pair
      obtain ⟨hfront, heq⟩ := first?_eq_some.mp hfirst'
      -- what precedes the `:` goes beyond the `?`
      have hmem : '?' ∈ front := by
        rcases List.append_eq_append_iff.mp heq with ⟨a, rfl, htail⟩ | ⟨a, rfl, htail⟩
        · rcases h with h | h
          · exact List.mem_append_left a h
          · cases a with
            | nil => simp [htail] at h
            | cons x a =>
              rw [htail, List.cons_append, List.head?_cons, Option.some.injEq] at h
              simp [h]
        · cases a with
          | nil =>
            rcases h with h | h
            · rwa [List.append_nil] at h
            · rw [List.nil_append] at htail
              simp [← htail] at h
          | cons x a =>
            rw [List.cons_append, List.cons.injEq] at htail
            exact absurd (by simp [← htail.1]) hcolon
      rw [splitScheme, hfirst']
      cases front with
      | nil => cases hmem
      | cons c cs =>
        refine if_neg ?_
        rw [Bool.and_eq_true, List.all_eq_true]
        rintro ⟨hc, hcs⟩
        rcases List.mem_cons.mp hmem with rfl | hmem
        · exact absurd hc (by decide)
        · exact absurd (hcs '?' hmem) (by decide)

/-- A `?` ends a network location. -/
theorem takeWhile_delimiter_append {url tail : List Char} (h : '?' ∈ url ∨ tail.head? = some '?') :
    (url ++ tail).takeWhile (fun c => !isDelimiter c) = url.takeWhile (fun c => !isDelimiter c) := by
  induction url with
  | nil =>
    cases tail with
    | nil => rfl
    | cons c tail =>
      rcases h with h | h
      · cases h
      · obtain rfl := Option.some.inj h
        rfl
  | cons c url ih =>
    rw [List.cons_append, List.takeWhile_cons, List.takeWhile_cons]
    split
    · next hc =>
      rw [ih (h.imp_left fun hmem => ?_)]
      rcases List.mem_cons.mp hmem with rfl | hmem
      · exact absurd hc (by decide)
      · exact hmem
    · rfl

theorem splitNetloc_append {rest tail : List Char} (h : '?' ∈ rest ∨ tail.head? = some '?') :
    (splitNetloc (rest ++ tail)).1 = (splitNetloc rest).1 := by
  -- no other list begins with `//`
  have hnone : ∀ url : List Char, (∀ url', url ≠ '/' :: '/' :: url') → (splitNetloc url).1 = [] := by
    intro url hurl
    unfold splitNetloc
    split
    · next url' => exact absurd rfl (hurl url')
    · rfl
  by_cases hslash : ∃ url, rest = '/' :: '/' :: url
  · obtain ⟨url, rfl⟩ := hslash
    have hurl : '?' ∈ url ∨ tail.head? = some '?' := h.imp_left fun hmem => by simpa using hmem
    exact takeWhile_delimiter_append hurl
  · rw [hnone rest fun url' heq => hslash ⟨url', heq⟩, hnone]
    intro url' heq
    match rest with
    | [] =>
      rw [List.nil_append] at heq
      simp [heq] at h
    | [c] =>
      rw [List.cons_append, List.nil_append, List.cons.injEq] at heq
      simp [heq.1, heq.2] at h
    | c :: d :: url =>
      rw [List.cons_append, List.cons_append, List.cons.injEq, List.cons.injEq] at heq
      exact hslash ⟨url, by rw [heq.1, heq.2.1]⟩

theorem mem_cleaned {url : List Char} (h : '?' ∈ url) : '?' ∈ cleaned url := by
  refine List.mem_filter.mpr ⟨?_, by decide⟩
  rw [← @List.takeWhile_append_dropWhile _ (fun c : Char => c.toNat ≤ 32) url] at h
  rcases List.mem_append.mp h with h | h
  · exact absurd (List.all_eq_true.mp List.all_takeWhile '?' h) (by decide)
  · exact h

theorem cleaned_append {url tail : List Char} (h : '?' ∈ url ∨ tail.head? = some '?') :
    ∃ tail', cleaned (url ++ tail) = cleaned url ++ tail' ∧
      ('?' ∈ cleaned url ∨ tail'.head? = some '?') := by
  have hhead : tail.head? = some '?' →
      (tail.filter (fun c => decide (c ∉ ['\t', '\r', '\n']))).head? = some '?' := by
    intro hhead
    cases tail with
    | nil => cases hhead
    | cons c tail =>
      obtain rfl := Option.some.inj hhead
      rfl
  refine ⟨tail.filter (fun c => c ∉ ['\t', '\r', '\n']), ?_, h.imp mem_cleaned hhead⟩
  unfold cleaned
  rw [List.dropWhile_append]
  split
  · next hnil =>
    have hnil' : url.dropWhile (fun c : Char => decide (c.toNat ≤ 32)) = [] :=
      List.isEmpty_iff.mp hnil
    rw [hnil', List.filter_nil, List.nil_append]
    rcases h with h | h
    · have hmem := mem_cleaned h
      rw [cleaned, hnil'] at hmem
      cases hmem
    · cases tail with
      | nil => rfl
      | cons c tail =>
        obtain rfl := Option.some.inj h
        rfl
  · rw [List.filter_append]

/-- A longer query leaves the scheme and the network location as they are. -/
theorem partsOf_append {url tail : List Char} (h : '?' ∈ url ∨ tail.head? = some '?') :
    (partsOf (url ++ tail)).scheme = (partsOf url).scheme ∧
      (partsOf (url ++ tail)).netloc = (partsOf url).netloc := by
  obtain ⟨tail', hclean, h'⟩ := cleaned_append h
  obtain ⟨rest, hscheme, hrest, hnext⟩ := splitScheme_append h'
  refine ⟨?_, ?_⟩
  · show (splitScheme (cleaned (url ++ tail))).1 = (splitScheme (cleaned url)).1
    rw [hclean, hscheme]
  · show (splitNetloc (splitScheme (cleaned (url ++ tail))).2).1 =
      (splitNetloc (splitScheme (cleaned url)).2).1
    rw [hclean, hscheme, hrest]
    exact splitNetloc_append hnext

end UrlSplit
