import CernityNdr.Framework.JsonText

/-! # Decoding Inverts Encoding

    The decoder of `JsonText` run on the text that `encode` writes. The
    machine reads the text of a value from any stack and ends behind that
    value with the stack unchanged (`feed_encode`); the proof follows the
    constructors of the value. -/

namespace Json

/-! ### Number literals -/

theorem NumPhase_start_cases {c : Char} {p : NumPhase} (h : NumPhase.start c = some p) :
    c = '-' ∨ c.isDigit = true := by
  unfold NumPhase.start at h
  split at h
  · next hc => exact Or.inl hc
  · split at h
    · next hc => right; rw [hc]; decide
    · split at h
      · next hc => exact Or.inr hc
      · cases h

theorem isDigit_iff {c : Char} : c.isDigit = true ↔ 48 ≤ c.toNat ∧ c.toNat ≤ 57 := by
  simp only [Char.isDigit, Bool.and_eq_true, decide_eq_true_eq, ge_iff_le]
  exact Iff.rfl

theorem startValue_number {c : Char} {p : NumPhase} (h : NumPhase.start c = some p)
    (K : List Frame) : startValue c K = some ⟨.num p [c], K⟩ := by
  have hne : ∀ d : Char, d ≠ '-' → d.isDigit = false → c ≠ d := by
    rintro d hd hdig rfl
    rcases NumPhase_start_cases h with rfl | hc
    · exact hd rfl
    · rw [hdig] at hc; cases hc
  unfold startValue
  rw [if_neg (hne _ (by decide) (by decide)), if_neg (hne _ (by decide) (by decide)),
    if_neg (hne _ (by decide) (by decide)), if_neg (hne _ (by decide) (by decide)),
    if_neg (hne _ (by decide) (by decide)), if_neg (hne _ (by decide) (by decide)),
    if_neg (hne _ (by decide) (by decide)), if_neg (hne _ (by decide) (by decide)), h]
  rfl

theorem isWs_of_digit_or_minus {c : Char} (h : c = '-' ∨ c.isDigit = true) : isWs c = false := by
  have hne : ∀ d : Char, d ≠ '-' → d.isDigit = false → c ≠ d := by
    rintro d hd hdig rfl
    rcases h with rfl | hc
    · exact hd rfl
    · rw [hdig] at hc; cases hc
  simp only [isWs, Bool.or_eq_false_iff, decide_eq_false_iff_not]
  exact ⟨⟨⟨hne _ (by decide) (by decide), hne _ (by decide) (by decide)⟩,
    hne _ (by decide) (by decide)⟩, hne _ (by decide) (by decide)⟩

/-- Inside a number the machine follows the literal. -/
theorem feed_num {cs : List Char} {p q : NumPhase} (h : cs.foldlM NumPhase.next p = some q)
    (buf : List Char) (K : List Frame) :
    feed ⟨.num p buf, K⟩ cs = some ⟨.num q (cs.reverse ++ buf), K⟩ := by
  induction cs generalizing p buf with
  | nil => cases h; rfl
  | cons c cs ih =>
    rw [List.foldlM_cons] at h
    obtain ⟨p', hp', h⟩ := Option.bind_eq_some_iff.mp h
    have hstep : step ⟨.num p buf, K⟩ c = some ⟨.num p' (c :: buf), K⟩ := by
      have hI : ¬ (p = .minus ∧ c = 'I') := by
        rintro ⟨rfl, rfl⟩
        cases hp'
      simp only [step, if_neg hI, hp']
    rw [feed_cons, hstep]
    simpa using ih h (c :: buf)

theorem feed_number {text : List Char} {q : NumPhase} (h : NumPhase.scan text = some q)
    (K : List Frame) : feed ⟨.value, K⟩ text = some ⟨.num q text.reverse, K⟩ := by
  cases text with
  | nil => cases h
  | cons c cs =>
    obtain ⟨p, hp, h⟩ := Option.bind_eq_some_iff.mp h
    have hws := isWs_of_digit_or_minus (NumPhase_start_cases hp)
    rw [feed_cons, step, if_neg (by simp [hws]), startValue_number hp K]
    simpa using feed_num h [c] K

theorem next_int_digits {ds : List Char} (h : ∀ d ∈ ds, d.isDigit = true) :
    ds.foldlM NumPhase.next .int = some .int := by
  induction ds with
  | nil => rfl
  | cons d ds ih =>
    rw [List.foldlM_cons]
    have hd : NumPhase.next .int d = some .int := by simp [NumPhase.next, h d (by simp)]
    rw [hd]
    exact ih (fun x hx => h x (by simp [hx]))

/-- The digits of a positive number do not start with a zero. -/
theorem toDigits_pos {n : Nat} (hn : 0 < n) :
    ∃ d ds, Nat.toDigits 10 n = d :: ds ∧ d ≠ '0' := by
  induction n using Nat.strongRecOn with
  | _ n ih =>
    rw [Nat.toDigits_eq_if (by omega)]
    split
    · next hlt =>
      have hdigit : ∀ k < 10, 0 < k → k.digitChar ≠ '0' := by decide
      exact ⟨n.digitChar, [], rfl, hdigit n hlt hn⟩
    · next hge =>
      obtain ⟨d, ds, hd, hne⟩ := ih (n / 10) (by omega) (by omega)
      exact ⟨d, ds ++ [(n % 10).digitChar], by rw [hd]; rfl, hne⟩

theorem isDigit_toDigits {n : Nat} {c : Char} (h : c ∈ Nat.toDigits 10 n) : c.isDigit = true :=
  Nat.isDigit_of_mem_toDigits (by omega) (by omega) h

/-- The literal of a natural number, behind a minus sign or not. -/
theorem scan_digits (p : Char → Option NumPhase)
    (hzero : p '0' = some .zero) (hdig : ∀ d : Char, d ≠ '0' → d.isDigit = true → p d = some .int)
    (n : Nat) : ∃ q, q.isInt = true ∧ ∃ d ds, Nat.toDigits 10 n = d :: ds ∧
      (p d).bind (fun q => ds.foldlM NumPhase.next q) = some q := by
  rcases Nat.eq_zero_or_pos n with rfl | hn
  · exact ⟨.zero, rfl, '0', [], by simp, by rw [hzero]; rfl⟩
  · obtain ⟨d, ds, hd, hne⟩ := toDigits_pos hn
    refine ⟨.int, rfl, d, ds, hd, ?_⟩
    rw [hdig d hne (isDigit_toDigits (n := n) (by simp [hd]))]
    exact next_int_digits (fun x hx => isDigit_toDigits (n := n) (by simp [hd, hx]))

theorem scan_intText (n : Int) : ∃ q, q.isInt = true ∧ NumPhase.scan (intText n) = some q := by
  cases n with
  | ofNat n =>
    obtain ⟨q, hq, d, ds, hd, h⟩ := scan_digits NumPhase.start rfl (by
      intro d hd hdig
      have hm : d ≠ '-' := by rintro rfl; cases hdig
      simp [NumPhase.start, hd, hdig, hm]) n
    exact ⟨q, hq, by rw [intText, hd]; exact h⟩
  | negSucc n =>
    obtain ⟨q, hq, d, ds, hd, h⟩ := scan_digits (NumPhase.next .minus) rfl (by
      intro d hd hdig
      simp [NumPhase.next, hd, hdig]) (n + 1)
    refine ⟨q, hq, ?_⟩
    rw [intText, hd]
    exact h

theorem intValue_intText (n : Int) : intValue (intText n) = n := by
  cases n with
  | ofNat n =>
    have hhead : intValue (Nat.toDigits 10 n) = (Nat.ofDigitChars 10 (Nat.toDigits 10 n) 0 : Nat) := by
      cases h : Nat.toDigits 10 n with
      | nil => rfl
      | cons d ds =>
        have hd : d.isDigit = true := isDigit_toDigits (n := n) (by simp [h])
        unfold intValue
        split
        · next heq => cases heq; cases hd
        · rfl
    rw [intText, hhead, Nat.ofDigitChars_ten_toDigits]
    rfl
  | negSucc n =>
    simp only [intText, intValue, Nat.ofDigitChars_ten_toDigits]
    rfl

/-! ### String literals -/

theorem hexValue_hexDigit : ∀ d < 16, hexValue (hexDigit d) = some d := by decide

/-- The four digits of a `\u` escape. -/
theorem feed_escapeUnit {isKey : Bool} {buf : List Char} {n : Nat} (hn : n < 65536)
    (high : Option Nat) (K : List Frame) :
    feed ⟨.hex isKey buf 4 0 high, K⟩ [hexDigit (n / 4096 % 16), hexDigit (n / 256 % 16),
        hexDigit (n / 16 % 16), hexDigit (n % 16)] =
      (closeHex isKey buf n high).map fun m => ⟨m, K⟩ := by
  have h3 := hexValue_hexDigit (n / 4096 % 16) (Nat.mod_lt _ (by omega))
  have h2 := hexValue_hexDigit (n / 256 % 16) (Nat.mod_lt _ (by omega))
  have h1 := hexValue_hexDigit (n / 16 % 16) (Nat.mod_lt _ (by omega))
  have h0 := hexValue_hexDigit (n % 16) (Nat.mod_lt _ (by omega))
  have hsum : 16 * (16 * (16 * (16 * 0 + n / 4096 % 16) + n / 256 % 16) + n / 16 % 16) + n % 16
      = n := by omega
  simp only [feed_cons, step, h3, h2, h1, h0, feed_nil]
  simp only [Nat.reduceEqDiff, if_false, Nat.reduceSub, if_true, hsum, Option.bind_some]
  cases closeHex isKey buf n high <;> rfl

theorem toNat_valid (c : Char) : c.toNat < 55296 ∨ 57343 < c.toNat ∧ c.toNat < 1114112 := c.valid

/-- A unit of the basic plane that is not a surrogate. -/
theorem closeHex_unit (isKey : Bool) (buf : List Char) {c : Char} (h : c.toNat < 65536) :
    closeHex isKey buf c.toNat none = some (.str isKey (c :: buf)) := by
  have hvalid := toNat_valid c
  rw [closeHex, if_neg (by omega), if_neg (by omega), Char.ofNat_toNat]

/-- The two surrogates of a character above the basic plane. -/
theorem closeHex_high (isKey : Bool) (buf : List Char) {n : Nat} (h : n < 1024) :
    closeHex isKey buf (55296 + n) none = some (.pair isKey buf (55296 + n)) := by
  rw [closeHex, if_pos (by omega)]

theorem closeHex_low (isKey : Bool) (buf : List Char) {c : Char} (h : ¬ c.toNat < 65536) :
    closeHex isKey buf (56320 + (c.toNat - 65536) % 1024)
      (some (55296 + (c.toNat - 65536) / 1024)) = some (.str isKey (c :: buf)) := by
  have hsum : 65536 + (55296 + (c.toNat - 65536) / 1024 - 55296) * 1024 +
      (56320 + (c.toNat - 65536) % 1024 - 56320) = c.toNat := by omega
  rw [closeHex, if_pos (by omega), hsum, Char.ofNat_toNat]

/-- The escape of one unit, behind an open string or behind a high
    surrogate. -/
theorem feed_str_escapeUnit {isKey : Bool} {buf : List Char} {n : Nat} (hn : n < 65536)
    (K : List Frame) :
    feed ⟨.str isKey buf, K⟩ (escapeUnit n) =
      (closeHex isKey buf n none).map fun m => ⟨m, K⟩ := by
  rw [← feed_escapeUnit hn none K, escapeUnit, feed_cons]
  rfl

theorem feed_pair_escapeUnit {isKey : Bool} {buf : List Char} {n high : Nat} (hn : n < 65536)
    (K : List Frame) :
    feed ⟨.pair isKey buf high, K⟩ (escapeUnit n) =
      (closeHex isKey buf n (some high)).map fun m => ⟨m, K⟩ := by
  rw [← feed_escapeUnit hn (some high) K, escapeUnit, feed_cons]
  rfl

/-- Two characters behind a backslash. -/
theorem feed_short {isKey : Bool} {buf : List Char} {e c : Char}
    (h : stepEsc isKey buf e = some (.str isKey (c :: buf))) (K : List Frame) :
    feed ⟨.str isKey buf, K⟩ ['\\', e] = some ⟨.str isKey (c :: buf), K⟩ := by
  have hslash : step ⟨.str isKey buf, K⟩ '\\' = some ⟨.esc isKey buf, K⟩ := rfl
  rw [feed_cons, hslash, Option.bind_some, feed_cons, step_esc, h]
  rfl

/-- Inside a string the machine reads an escaped character back. -/
theorem feed_escapeChar (isKey : Bool) (buf : List Char) (c : Char) (K : List Frame) :
    feed ⟨.str isKey buf, K⟩ (escapeChar c) = some ⟨.str isKey (c :: buf), K⟩ := by
  have hcode : ∀ n, c.toNat = n → Char.ofNat n = c := by
    rintro n rfl
    exact Char.ofNat_toNat c
  unfold escapeChar
  split
  · next h => subst h; exact feed_short rfl K
  split
  · next h => subst h; exact feed_short rfl K
  split
  · next h => subst h; exact feed_short rfl K
  split
  · next h => subst h; exact feed_short rfl K
  split
  · next h => subst h; exact feed_short rfl K
  split
  · next h => rw [← hcode 12 h]; exact feed_short rfl K
  split
  · next h => rw [← hcode 8 h]; exact feed_short rfl K
  split
  · next hq hb _ _ _ _ _ h =>
    rw [feed_cons, step_str, if_neg hq, if_neg hb, if_neg (by omega)]
    rfl
  split
  · next h => rw [feed_str_escapeUnit h, closeHex_unit isKey buf h, Option.map_some]
  · next h =>
    have hvalid := toNat_valid c
    rw [feed_append, feed_str_escapeUnit (by omega), closeHex_high isKey buf (by omega),
      Option.map_some, Option.bind_some, feed_pair_escapeUnit (by omega),
      closeHex_low isKey buf h, Option.map_some]

theorem feed_escape (isKey : Bool) (cs buf : List Char) (K : List Frame) :
    feed ⟨.str isKey buf, K⟩ (escape cs) = some ⟨.str isKey (cs.reverse ++ buf), K⟩ := by
  induction cs generalizing buf with
  | nil => rfl
  | cons c cs ih =>
    rw [escape, List.flatMap_cons, feed_append, feed_escapeChar]
    simpa [escape] using ih (c :: buf)

/-- The rest of a string literal, behind its opening quote. -/
theorem feed_string (isKey : Bool) (s : String) (K : List Frame) :
    feed ⟨.str isKey [], K⟩ (escape s.toList ++ ['"']) =
      closeString isKey s.toList.reverse K := by
  rw [feed_append, feed_escape]
  simp [feed_cons, step]

/-! ### Values -/

/-- The machine stands behind the value `v`, with the stack `K`. -/
def Settled (r : Reader) (v : Json) (K : List Frame) : Prop :=
  r.stack = K ∧ (r.mode = .after v ∨
    ∃ p buf, r.mode = .num p buf ∧ numValue p buf.reverse = some v)

theorem Settled.after (v : Json) (K : List Frame) : Settled ⟨.after v, K⟩ v K :=
  ⟨rfl, Or.inl rfl⟩

theorem next_punct {p : NumPhase} {c : Char} (hc : c = ',' ∨ c = ']' ∨ c = '}') :
    p.next c = none := by
  rcases hc with rfl | rfl | rfl <;> cases p <;> rfl

/-- Punctuation ends a number. -/
theorem Settled.step_punct {r : Reader} {v : Json} {K : List Frame} (h : Settled r v K) {c : Char}
    (hc : c = ',' ∨ c = ']' ∨ c = '}') : step r c = stepAfter v c K := by
  obtain ⟨mode, stack⟩ := r
  obtain ⟨rfl, rfl | ⟨p, buf, rfl, hv⟩⟩ := h
  · rfl
  · have hI : ¬ (p = .minus ∧ c = 'I') := by
      rintro ⟨-, rfl⟩
      rcases hc with h | h | h <;> cases h
    simp only [step, if_neg hI, next_punct hc, hv, Option.bind_some]

theorem Settled.finish {r : Reader} {v : Json} (h : Settled r v []) : finish r = some v := by
  obtain ⟨mode, stack⟩ := r
  obtain ⟨rfl, rfl | ⟨p, buf, rfl, hv⟩⟩ := h
  · rfl
  · exact hv

mutual

/-- The standard encoder pads with one space. -/
theorem encode_space (v : Json) : encode [' '] v = dumps v := by
  match v with
  | .null | .bool true | .bool false | .int _ | .float _ | .nan | .infinity false
  | .infinity true | .str _ | .arr [] | .obj [] => rfl
  | .arr (x :: xs) => simp [encode, dumps, encode_space x, moreItems_space xs]
  | .obj ((k, x) :: ms) => simp [encode, dumps, encode_space x, moreMembers_space ms]

theorem moreItems_space (xs : List Json) : encode.moreItems [' '] xs = dumps.moreItems xs := by
  match xs with
  | [] => rfl
  | x :: xs => simp [encode.moreItems, dumps.moreItems, encode_space x, moreItems_space xs]

theorem moreMembers_space (ms : List (String × Json)) :
    encode.moreMembers [' '] ms = dumps.moreMembers ms := by
  match ms with
  | [] => rfl
  | (k, x) :: ms =>
    simp [encode.moreMembers, dumps.moreMembers, encode_space x, moreMembers_space ms]

end

/-- No value starts with white space or a closing bracket. -/
theorem encode_head (pad : List Char) (v : Json) :
    ∃ c cs, encode pad v = c :: cs ∧ isWs c = false ∧ c ≠ ']' := by
  cases v with
  | null => exact ⟨_, _, rfl, rfl, by decide⟩
  | bool b => cases b <;> exact ⟨_, _, rfl, rfl, by decide⟩
  | int n =>
    obtain ⟨q, -, h⟩ := scan_intText n
    rw [encode, dumps]
    · cases ht : intText n with
      | nil => rw [ht] at h; cases h
      | cons c cs =>
        rw [ht] at h
        obtain ⟨p, hp, -⟩ := Option.bind_eq_some_iff.mp h
        have hc := NumPhase_start_cases hp
        exact ⟨c, cs, rfl, isWs_of_digit_or_minus hc,
          by rintro rfl; rcases hc with h | h <;> cases h⟩
    all_goals simp
  | float x =>
    obtain ⟨text, ok⟩ := x
    rw [encode, dumps]
    · cases text with
      | nil => cases ok
      | cons c cs =>
        obtain ⟨q, h, -⟩ := (Option.any_eq_true ..).mp ok
        obtain ⟨p, hp, -⟩ := Option.bind_eq_some_iff.mp h
        have hc := NumPhase_start_cases hp
        exact ⟨c, cs, rfl, isWs_of_digit_or_minus hc,
          by rintro rfl; rcases hc with h | h <;> cases h⟩
    all_goals simp
  | nan => exact ⟨_, _, rfl, rfl, by decide⟩
  | infinity b => cases b <;> exact ⟨_, _, rfl, rfl, by decide⟩
  | str s => exact ⟨_, _, rfl, rfl, by decide⟩
  | arr xs => cases xs <;> exact ⟨_, _, rfl, rfl, by decide⟩
  | obj ms => rcases ms with _ | ⟨⟨k, x⟩, ms⟩ <;> exact ⟨_, _, rfl, rfl, by decide⟩

/-- The first item of an array is read like any value. -/
theorem feed_firstItem (pad : List Char) (v : Json) (K : List Frame) (rest : List Char) :
    feed ⟨.firstItem, K⟩ (encode pad v ++ rest) = feed ⟨.value, K⟩ (encode pad v ++ rest) := by
  obtain ⟨c, cs, hd, hws, hne⟩ := encode_head pad v
  rw [hd, List.cons_append, feed_cons, feed_cons]
  simp [step, hws, hne]

/-- Between tokens white space is passed over. -/
theorem feed_pad {m : Mode} (hm : m = .value ∨ m = .key) {pad : List Char}
    (hpad : ∀ c ∈ pad, isWs c = true) (K : List Frame) :
    feed ⟨m, K⟩ pad = some ⟨m, K⟩ := by
  induction pad with
  | nil => rfl
  | cons c cs ih =>
    have hc : isWs c = true := hpad c (by simp)
    have hstep : step ⟨m, K⟩ c = some ⟨m, K⟩ := by
      rcases hm with rfl | rfl <;> simp [step, hc]
    rw [feed_cons, hstep]
    exact ih fun d hd => hpad d (by simp [hd])

section
variable {pad : List Char} (hpad : ∀ c ∈ pad, isWs c = true)
include hpad

theorem feed_colon (K : List Frame) : feed ⟨.colon, K⟩ (':' :: pad) = some ⟨.value, K⟩ := by
  have hcolon : step ⟨.colon, K⟩ ':' = some ⟨.value, K⟩ := rfl
  rw [feed_cons, hcolon, Option.bind_some, feed_pad (Or.inl rfl) hpad]

mutual

/-- The text of a value takes the machine behind that value. -/
theorem feed_encode (v : Json) (K : List Frame) :
    ∃ r, feed ⟨.value, K⟩ (encode pad v) = some r ∧ Settled r v K := by
  match v with
  | .null => exact ⟨_, rfl, Settled.after _ _⟩
  | .bool true => exact ⟨_, rfl, Settled.after _ _⟩
  | .bool false => exact ⟨_, rfl, Settled.after _ _⟩
  | .int n =>
    obtain ⟨q, hq, h⟩ := scan_intText n
    refine ⟨_, feed_number h K, rfl, Or.inr ⟨q, _, rfl, ?_⟩⟩
    rw [List.reverse_reverse, numValue, if_pos hq, intValue_intText]
  | .float x =>
    obtain ⟨q, h, hq⟩ := (Option.any_eq_true ..).mp x.ok
    refine ⟨_, feed_number h K, rfl, Or.inr ⟨q, _, rfl, ?_⟩⟩
    have hint : q.isInt = false := by cases q <;> first | rfl | cases hq
    rw [List.reverse_reverse, numValue, if_neg (by simp [hint]), dif_pos x.ok]
  | .nan => exact ⟨_, rfl, Settled.after _ _⟩
  | .infinity false => exact ⟨_, rfl, Settled.after _ _⟩
  | .infinity true => exact ⟨_, rfl, Settled.after _ _⟩
  | .str s =>
    refine ⟨⟨.after (.str s), K⟩, ?_, Settled.after _ _⟩
    have := feed_string false s K
    simpa [encode, dumps, quote, feed_cons, step, isWs, startValue, closeString] using this
  | .arr [] => exact ⟨_, rfl, Settled.after _ _⟩
  | .arr (x :: xs) =>
    obtain ⟨r, hr, hset⟩ := feed_encode x (.arr [] :: K)
    refine ⟨⟨.after (.arr (x :: xs)), K⟩, ?_, Settled.after _ _⟩
    have hopen : step ⟨.value, K⟩ '[' = some ⟨.firstItem, .arr [] :: K⟩ := rfl
    rw [encode, feed_cons, hopen, Option.bind_some, List.append_assoc, feed_firstItem,
      feed_append, hr, Option.bind_some]
    exact feed_moreItems xs [] x K r hset
  | .obj [] => exact ⟨_, rfl, Settled.after _ _⟩
  | .obj ((k, x) :: ms) =>
    obtain ⟨r, hr, hset⟩ := feed_encode x (.member [] k :: K)
    refine ⟨⟨.after (.obj ((k, x) :: ms)), K⟩, ?_, Settled.after _ _⟩
    have hkey : feed ⟨.value, K⟩ ('{' :: quote k) = some ⟨.colon, .member [] k :: K⟩ := by
      have := feed_string true k (.members [] :: K)
      simpa [quote, feed_cons, step, isWs, startValue, closeString] using this
    have htext : encode pad (.obj ((k, x) :: ms)) =
        ('{' :: quote k) ++ (':' :: pad ++
          (encode pad x ++ (encode.moreMembers pad ms ++ ['}']))) := by
      simp [encode]
    rw [htext, feed_append, hkey, Option.bind_some, feed_append, feed_colon hpad,
      Option.bind_some, feed_append, hr, Option.bind_some]
    exact feed_moreMembers ms [] k x K r hset

/-- The rest of an array, behind the item `v`. -/
theorem feed_moreItems (xs items : List Json) (v : Json) (K : List Frame) (r : Reader)
    (h : Settled r v (.arr items :: K)) :
    feed r (encode.moreItems pad xs ++ [']']) =
      some ⟨.after (.arr (items.reverse ++ v :: xs)), K⟩ := by
  match xs with
  | [] =>
    rw [encode.moreItems, List.nil_append, feed_cons, h.step_punct (Or.inr (Or.inl rfl))]
    simp [stepAfter, isWs]
  | x :: xs =>
    obtain ⟨r', hr', hset⟩ := feed_encode x (.arr (v :: items) :: K)
    have hcomma : feed r (',' :: pad) = some ⟨.value, .arr (v :: items) :: K⟩ := by
      rw [feed_cons, h.step_punct (Or.inl rfl)]
      exact feed_pad (Or.inl rfl) hpad _
    have htext : encode.moreItems pad (x :: xs) ++ [']'] =
        ',' :: pad ++ (encode pad x ++ (encode.moreItems pad xs ++ [']'])) := by
      simp [encode.moreItems]
    rw [htext, feed_append, hcomma, Option.bind_some, feed_append, hr', Option.bind_some,
      feed_moreItems xs (v :: items) x K r' hset]
    simp

/-- The rest of an object, behind the member `k`. -/
theorem feed_moreMembers (ms done : List (String × Json)) (k : String) (v : Json)
    (K : List Frame) (r : Reader) (h : Settled r v (.member done k :: K)) :
    feed r (encode.moreMembers pad ms ++ ['}']) =
      some ⟨.after (.obj (done.reverse ++ (k, v) :: ms)), K⟩ := by
  match ms with
  | [] =>
    rw [encode.moreMembers, List.nil_append, feed_cons, h.step_punct (Or.inr (Or.inr rfl))]
    simp [stepAfter, isWs]
  | (l, x) :: ms =>
    obtain ⟨r', hr', hset⟩ := feed_encode x (.member ((k, v) :: done) l :: K)
    have hcomma : feed r (',' :: pad) = some ⟨.key, .members ((k, v) :: done) :: K⟩ := by
      rw [feed_cons, h.step_punct (Or.inl rfl)]
      exact feed_pad (Or.inr rfl) hpad _
    have hkey : feed ⟨.key, .members ((k, v) :: done) :: K⟩ (quote l) =
        some ⟨.colon, .member ((k, v) :: done) l :: K⟩ := by
      have := feed_string true l (.members ((k, v) :: done) :: K)
      simpa [quote, feed_cons, step, isWs, closeString] using this
    have htext : encode.moreMembers pad ((l, x) :: ms) ++ ['}'] =
        ',' :: pad ++ (quote l ++ (':' :: pad ++
          (encode pad x ++ (encode.moreMembers pad ms ++ ['}'])))) := by
      simp [encode.moreMembers]
    rw [htext, feed_append, hcomma, Option.bind_some, feed_append, hkey, Option.bind_some,
      feed_append, feed_colon hpad, Option.bind_some, feed_append, hr', Option.bind_some,
      feed_moreMembers ms ((k, v) :: done) l x K r' hset]
    simp

end

/-- **Decoding inverts encoding**, whatever white space there is. -/
theorem loads_encode (v : Json) : loads (encode pad v) = some v := by
  obtain ⟨r, hr, hset⟩ := feed_encode hpad v []
  rw [loads, begin, hr]
  exact hset.finish

end

theorem feed_dumps (v : Json) (K : List Frame) :
    ∃ r, feed ⟨.value, K⟩ (dumps v) = some r ∧ Settled r v K := by
  rw [← encode_space v]
  exact feed_encode (by simp [isWs]) v K

/-- **Decoding inverts encoding.** -/
theorem loads_dumps (v : Json) : loads (dumps v) = some v := by
  rw [← encode_space v]
  exact loads_encode (by simp [isWs]) v

theorem loads_compact (v : Json) : loads (compact v) = some v :=
  loads_encode (by simp) v

/-- Two values with the same text are the same value. -/
theorem dumps_injective : Function.Injective dumps := by
  intro v w h
  have := loads_dumps v
  rw [h, loads_dumps w] at this
  exact (Option.some.inj this).symm

theorem compact_injective : Function.Injective compact := by
  intro v w h
  have := loads_compact v
  rw [h, loads_compact w] at this
  exact (Option.some.inj this).symm

end Json
