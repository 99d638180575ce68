import CernityNdr.Intel.FeedTransport

/-! # The Credentials of a Feed

    Whatever the servers answer, a request that carries the credentials of a
    feed follows, on its own connection, a handshake with the endpoint that
    `http.client` reads from the URL and the check of the pin.

    `Directed`: that endpoint is the host and the port of the URL. It is not
    where the URL has no port and `http.client` takes one from an IPv6 address,
    which is given to it without brackets.

    * `round_runs`, `rounds_runs`: the steps of one round and of the loop.
    * `safe_iff_directed`: the credentials are safe exactly then. -/

namespace FeedTransport

open Program Joining UrlSplit

abbrev Step := Event Ask Answer Call

/-- The requests of a run, in order. -/
def requests (events : List Step) : List Request :=
  events.filterMap fun e =>
    match e with
    | .asked (.exchange r) _ => some r
    | _ => none

/-- The request carries credentials. -/
def Authorized (r : Request) : Prop := ∃ value, ("Authorization", value) ∈ r.headers

/-- What happened on the connection before a request is the handshake and,
    with a pin, the check of the certificate. -/
def Verified (py : Stdlib) (tlsPin : List Char) (past : List Step) (host : List Char)
    (port : Int) : Prop :=
  ∃ front der,
    (tlsPin = [] → past = front ++ [.asked (.connect host port) (some der)]) ∧
    (tlsPin ≠ [] → der ≠ [] ∧ pinned py der tlsPin = true ∧
      past = front ++ [.asked (.connect host port) (some der), .called (.verified der)])

/-- The request goes, over TLS, to the host and the port of the feed's URL. -/
structure Secured (py : Stdlib) (c : Connector) (past : List Step) (r : Request) : Prop where
  scheme : r.scheme = https
  configured : ∃ parts p, urlsplit py.expands c.url = some parts ∧ parts.scheme = https ∧
    port parts.netloc = some p ∧ r.host = hostname py.lower parts.netloc ∧
    r.port = (p.map Int.ofNat).getD 443
  verified : Verified py c.tlsPin past r.host r.port

/-- Every request with credentials is secured. -/
def Sealed (py : Stdlib) (c : Connector) (events : List Step) : Prop :=
  ∀ past r answer rest, events = past ++ .asked (.exchange r) answer :: rest → Authorized r →
    Secured py c past r

/-- The redirects that are followed: few, none by a feed with credentials or a
    pin, and none from `https` to another scheme. -/
structure Restrained (c : Connector) (events : List Step) : Prop where
  few : (requests events).length ≤ maxRedirects + 1
  trusted : c.auth ≠ [] ∨ c.tlsPin ≠ [] → (requests events).length ≤ 1
  kept : (requests events).IsChain (fun r r' => r.scheme = https → r'.scheme = https)

/-- The servers answer as they like, knowing what has happened. -/
abbrev Servers := List Step → (q : Ask) → Answer q

/-- The steps of a fetch. -/
def events {α : Type} (servers : Servers) (m : Net α) : List Step := (m.run.against servers []).1

structure Safe (py : Stdlib) (c : Connector) (servers : Servers) : Prop where
  fetch : Sealed py c (events servers (fetch py c))
  pages : Sealed py c (events servers (taxiiFetch py c))
  redirects : ∀ headers url, Restrained c (events servers (fetchUrl py c headers url))

/-! ### When the endpoint is the one of the URL -/

/-- `http.client` cannot read the host. -/
def Unreadable (int : List Char → Option Int) (host : List Char) (port : Option Nat) : Prop :=
  host = [] ∨ port = none ∧ ∃ name suffix, last? ':' host = some (name, suffix) ∧
    ']' ∉ suffix ∧ suffix ≠ [] ∧ int suffix = none

/-- `http.client` takes the host as it is. -/
def Literal (host : List Char) (port : Option Nat) : Prop :=
  unbracketed host = host ∧
    (port = none → ∀ name suffix, last? ':' host = some (name, suffix) → ']' ∈ suffix)

/-- No credentials are sent to another endpoint than the one of the URL: there
    are none, or no certificate has the pin, or `http.client` reads the host of
    the URL as it is, or cannot read it. -/
def Directed (py : Stdlib) (c : Connector) : Prop :=
  c.auth = [] ∨ (c.tlsPin ≠ [] ∧ ∀ der, der ≠ [] → pinned py der c.tlsPin = false) ∨
    ∀ parts p, urlsplit py.expands c.url = some parts → parts.scheme = https →
      port parts.netloc = some p →
        Unreadable py.int (hostname py.lower parts.netloc) p ∨
          Literal (hostname py.lower parts.netloc) p

theorem length_unbracketed_le (host : List Char) : (unbracketed host).length ≤ host.length := by
  unfold unbracketed
  split
  · rw [List.length_dropLast, List.length_tail]
    omega
  · exact le_rfl

/-- The endpoint is the one of the URL exactly when the host is taken as it is
    or cannot be read. -/
theorem endpoint_eq_iff (int : List Char → Option Int) (host : List Char) (p : Option Nat)
    (default : Int) :
    (∀ conn, endpoint int host p default = some conn →
        conn = (host, (p.map Int.ofNat).getD default)) ↔
      Unreadable int host p ∨ Literal host p := by
  unfold endpoint
  by_cases hempty : host = []
  · rw [if_pos hempty]
    exact iff_of_true (fun _ h => nomatch h) (Or.inl (Or.inl hempty))
  rw [if_neg hempty]
  have hwhole : ∀ port : Int, (∀ conn, some (unbracketed host, port) = some conn →
      conn = (host, port)) ↔ unbracketed host = host := by
    intro port
    constructor
    · intro h
      exact (Prod.mk.inj (h _ rfl)).1
    · rintro h conn hconn
      rw [← Option.some.inj hconn, h]
  cases p with
  | some p =>
    show (∀ conn, some (unbracketed host, (p : Int)) = some conn → conn = (host, (p : Int))) ↔ _
    rw [hwhole]
    simp [Unreadable, Literal, hempty]
  | none =>
    show (∀ conn, hostPort int host none default = some conn → conn = (host, default)) ↔ _
    cases hlast : last? ':' host with
    | none =>
      have hport : hostPort int host none default = some (unbracketed host, default) := by
        rw [hostPort, hlast]
      rw [hport, hwhole]
      simp [Unreadable, Literal, hempty, hlast]
    | some pair =>
      obtain ⟨name, suffix⟩ := pair
      have hshort : (unbracketed name).length < host.length := by
        have hle := length_unbracketed_le name
        rw [(last?_eq_some.mp hlast).2, List.length_append, List.length_cons]
        omega
      have hother : ∀ port : Int, ¬ ∀ conn, some (unbracketed name, port) = some conn →
          conn = (host, default) := by
        intro port h
        rw [(Prod.mk.inj (h _ rfl)).1] at hshort
        omega
      by_cases hbracket : ']' ∈ suffix
      · have hport : hostPort int host none default = some (unbracketed host, default) := by
          rw [hostPort, hlast]
          exact if_pos hbracket
        rw [hport, hwhole]
        simp [Unreadable, Literal, hempty, hlast, hbracket]
      · cases hint : int suffix with
        | some port =>
          have hport : hostPort int host none default = some (unbracketed name, port) := by
            rw [hostPort, hlast]
            simp only [hbracket, if_false, hint]
          rw [hport]
          refine iff_of_false (hother port) ?_
          simp [Unreadable, Literal, hempty, hlast, hbracket, hint]
        | none =>
          by_cases hnil : suffix = []
          · subst hnil
            have hport : hostPort int host none default = some (unbracketed name, default) := by
              rw [hostPort, hlast]
              simp [hint]
            rw [hport]
            refine iff_of_false (hother default) ?_
            simp [Unreadable, Literal, hempty, hlast]
          · have hport : hostPort int host none default = none := by
              rw [hostPort, hlast]
              simp only [hbracket, if_false, hint, hnil]
            rw [hport]
            refine iff_of_true (fun _ h => nomatch h) (Or.inl (Or.inr ⟨rfl, name, suffix, hlast, ?_⟩))
            exact ⟨hbracket, hnil, hint⟩

/-! ### The steps of the parts -/

section

variable {α : Type} {steps : List Step}

theorem attempts_ask {q : Ask} {r : Except Failure (Answer q)} :
    Attempts (ask q) steps r ↔ ∃ a, steps = [.asked q a] ∧ r = .ok a := by
  have hask : Attempts (ask q) steps r ↔
      ((question q : Program Ask Answer Call _).bind fun a => .pure (.ok a)).Runs steps r := Iff.rfl
  rw [hask, runs_bind]
  constructor
  · rintro ⟨front, a, rest, rfl, ⟨a', rest', rfl, rfl, rfl⟩, rfl, rfl⟩
    exact ⟨_, rfl, rfl⟩
  · rintro ⟨a, rfl, rfl⟩
    exact ⟨[.asked q a], a, [], rfl, ⟨a, [], rfl, rfl, rfl⟩, rfl, rfl⟩

theorem attempts_note {c : Call} {r : Except Failure Unit} :
    Attempts (note c) steps r ↔ steps = [.called c] ∧ r = .ok () := by
  have hnote : Attempts (note c) steps r ↔
      ((call c : Program Ask Answer Call _).bind fun a => .pure (.ok a)).Runs steps r := Iff.rfl
  rw [hnote, runs_bind]
  constructor
  · rintro ⟨front, a, rest, rfl, ⟨rest', rfl, rfl, rfl⟩, rfl, rfl⟩
    exact ⟨rfl, rfl⟩
  · rintro ⟨rfl, rfl⟩
    exact ⟨[.called c], (), [], rfl, ⟨[], rfl, rfl, rfl⟩, rfl, rfl⟩

theorem attempts_orRaise {v : Option α} {r : Except Failure α} :
    Attempts (orRaise v) steps r ↔
      steps = [] ∧ ((∃ a, v = some a ∧ r = .ok a) ∨ v = none ∧ r = .error .raised) := by
  cases v with
  | none =>
    show Attempts (throw .raised) steps r ↔ _
    rw [attempts_throw]
    simp
  | some a =>
    show Attempts (pure a) steps r ↔ _
    rw [attempts_pure]
    simp

theorem attempts_refuse {why : Refusal} {r : Except Failure α} :
    Attempts (refuse why) steps r ↔ steps = [] ∧ r = .error (.refused why) := attempts_throw

/-- A value of the standard library, and what is done with it. -/
theorem attempts_orRaise_bind {β : Type} {v : Option α} {f : α → Net β} {r : Except Failure β} :
    Attempts (orRaise v >>= f) steps r ↔
      (v = none ∧ steps = [] ∧ r = .error .raised) ∨ ∃ a, v = some a ∧ Attempts (f a) steps r := by
  rw [attempts_bind]
  constructor
  · rintro (⟨e, hm, rfl⟩ | ⟨front, a, rest, rfl, hm, hrest⟩)
    · obtain ⟨rfl, ⟨a, rfl, ha⟩ | ⟨rfl, he⟩⟩ := attempts_orRaise.mp hm
      · cases ha
      · obtain rfl := Except.error.inj he
        exact Or.inl ⟨rfl, rfl, rfl⟩
    · obtain ⟨rfl, ⟨a', rfl, ha⟩ | ⟨rfl, ha⟩⟩ := attempts_orRaise.mp hm
      · obtain rfl := Except.ok.inj ha
        exact Or.inr ⟨_, rfl, hrest⟩
      · cases ha
  · rintro (⟨rfl, rfl, rfl⟩ | ⟨a, rfl, h⟩)
    · exact Or.inl ⟨.raised, attempts_orRaise.mpr ⟨rfl, Or.inr ⟨rfl, rfl⟩⟩, rfl⟩
    · exact Or.inr ⟨[], a, steps, rfl, attempts_orRaise.mpr ⟨rfl, Or.inl ⟨a, rfl, rfl⟩⟩, h⟩

theorem attempts_ask_bind {β : Type} {q : Ask} {f : Answer q → Net β} {r : Except Failure β} :
    Attempts (ask q >>= f) steps r ↔
      ∃ a rest, steps = .asked q a :: rest ∧ Attempts (f a) rest r := by
  rw [attempts_bind]
  constructor
  · rintro (⟨e, hm, rfl⟩ | ⟨front, a, rest, rfl, hm, hrest⟩)
    · obtain ⟨a, _, ha⟩ := attempts_ask.mp hm
      cases ha
    · obtain ⟨a', rfl, ha⟩ := attempts_ask.mp hm
      obtain rfl := Except.ok.inj ha
      exact ⟨_, rest, rfl, hrest⟩
  · rintro ⟨a, rest, rfl, h⟩
    exact Or.inr ⟨[.asked q a], a, rest, rfl, attempts_ask.mpr ⟨a, rfl, rfl⟩, h⟩

end

variable {py : Stdlib} {c : Connector}

/-- What `_open_verified` leaves: a connection to the endpoint of the URL, with
    the handshake and the check of the pin where it is `https`. -/
theorem openVerified_runs {parts : Parts} {tlsPin : List Char} {steps : List Step}
    {r : Except Failure (List Char × Int)}
    (h : Attempts (openVerified py parts tlsPin) steps r) :
    requests steps = [] ∧ ∀ conn, r = .ok conn → parts.scheme = https →
      ∃ p, port parts.netloc = some p ∧
        endpoint py.int (hostname py.lower parts.netloc) p 443 = some conn ∧
        Verified py tlsPin steps conn.1 conn.2 := by
  rw [openVerified, attempts_orRaise_bind] at h
  obtain ⟨_, rfl, rfl⟩ | ⟨p, hp, h⟩ := h
  · exact ⟨rfl, fun _ hr => nomatch hr⟩
  by_cases hscheme : parts.scheme = https
  · rw [if_pos hscheme, attempts_orRaise_bind] at h
    obtain ⟨_, rfl, rfl⟩ | ⟨conn, hconn, h⟩ := h
    · exact ⟨rfl, fun _ hr => nomatch hr⟩
    rw [attempts_ask_bind] at h
    obtain ⟨shake, rest, rfl, h⟩ := h
    rw [attempts_orRaise_bind] at h
    obtain ⟨_, rfl, rfl⟩ | ⟨der, rfl, h⟩ := h
    · exact ⟨rfl, fun _ hr => nomatch hr⟩
    by_cases hpin : tlsPin ≠ []
    · rw [if_pos hpin] at h
      by_cases hder : der = []
      · rw [if_pos hder, attempts_refuse] at h
        obtain ⟨rfl, rfl⟩ := h
        exact ⟨rfl, fun _ hr => nomatch hr⟩
      · rw [if_neg hder] at h
        by_cases hmatch : pinned py der tlsPin = true
        · rw [if_pos hmatch, attempts_bind] at h
          obtain ⟨e, hnote, rfl⟩ | ⟨front, _, rest', rfl, hnote, hrest⟩ := h
          · obtain ⟨_, he⟩ := attempts_note.mp hnote
            cases he
          · obtain ⟨rfl, _⟩ := attempts_note.mp hnote
            obtain ⟨rfl, rfl⟩ := attempts_pure.mp hrest
            refine ⟨rfl, ?_⟩
            rintro _ hr _
            obtain rfl := Except.ok.inj hr
            exact ⟨p, hp, hconn, [], der, fun hnil => absurd hnil hpin, fun _ => ⟨hder, hmatch, rfl⟩⟩
        · rw [if_neg hmatch, attempts_refuse] at h
          obtain ⟨rfl, rfl⟩ := h
          exact ⟨rfl, fun _ hr => nomatch hr⟩
    · rw [if_neg hpin, attempts_pure] at h
      obtain ⟨rfl, rfl⟩ := h
      refine ⟨rfl, ?_⟩
      rintro _ hr _
      obtain rfl := Except.ok.inj hr
      exact ⟨p, hp, hconn, [], der, fun _ => rfl, fun hne => absurd hne hpin⟩
  · rw [if_neg hscheme] at h
    refine ⟨?_, fun _ _ heq => absurd heq hscheme⟩
    split at h
    · obtain ⟨rfl, _⟩ := attempts_orRaise.mp h
      rfl
    · obtain ⟨rfl, _⟩ := attempts_refuse.mp h
      rfl

/-- The redirects that are accepted. -/
theorem redirectTarget_runs {url : List Char} {location : Option (List Char)} {hasAuth hasPin : Bool}
    {steps : List Step} {r : Except Failure (List Char)}
    (h : Attempts (redirectTarget py url location hasAuth hasPin) steps r) :
    steps = [] ∧ ∀ next, r = .ok next → hasAuth = false ∧ hasPin = false ∧
      ∀ parts, urlsplit py.expands url = some parts → parts.scheme = https →
        ∃ parts', urlsplit py.expands next = some parts' ∧ parts'.scheme = https := by
  rw [redirectTarget] at h
  split at h
  · obtain ⟨rfl, rfl⟩ := attempts_refuse.mp h
    exact ⟨rfl, fun _ hr => nomatch hr⟩
  rw [attempts_orRaise_bind] at h
  obtain ⟨_, rfl, rfl⟩ | ⟨nxt, _, h⟩ := h
  · exact ⟨rfl, fun _ hr => nomatch hr⟩
  split at h
  · obtain ⟨rfl, rfl⟩ := attempts_refuse.mp h
    exact ⟨rfl, fun _ hr => nomatch hr⟩
  · next htrust =>
    rw [attempts_orRaise_bind] at h
    obtain ⟨_, rfl, rfl⟩ | ⟨cur, hcur, h⟩ := h
    · exact ⟨rfl, fun _ hr => nomatch hr⟩
    rw [attempts_orRaise_bind] at h
    obtain ⟨_, rfl, rfl⟩ | ⟨new, hnew, h⟩ := h
    · exact ⟨rfl, fun _ hr => nomatch hr⟩
    split at h
    · obtain ⟨rfl, rfl⟩ := attempts_refuse.mp h
      exact ⟨rfl, fun _ hr => nomatch hr⟩
    · next hdown =>
      obtain ⟨rfl, rfl⟩ := attempts_pure.mp h
      refine ⟨rfl, ?_⟩
      rintro _ hr
      obtain rfl := Except.ok.inj hr
      rw [Bool.or_eq_true, not_or, Bool.not_eq_true, Bool.not_eq_true] at htrust
      refine ⟨htrust.1, htrust.2, ?_⟩
      intro parts hparts hscheme
      obtain rfl := Option.some.inj (hcur.symm.trans hparts)
      exact ⟨new, hnew, by_contra fun hne => hdown ⟨hscheme, hne⟩⟩

@[simp] theorem requests_append (a b : List Step) :
    requests (a ++ b) = requests a ++ requests b := List.filterMap_append

@[simp] theorem requests_exchange (q : Request) (answer : Answer (.exchange q))
    (rest : List Step) :
    requests (.asked (.exchange q) answer :: rest) = q :: requests rest := rfl

/-- The one request of a round that sends one. -/
structure Sent (py : Stdlib) (c : Connector) (headers : List (String × List Char))
    (url : List Char) (parts : Parts) (past : List Step) (q : Request) : Prop where
  split : urlsplit py.expands url = some parts
  quiet : requests past = []
  scheme : q.scheme = parts.scheme
  headers : q.headers = requestHeaders c headers
  credentials : c.auth ≠ [] → parts.scheme = https
  opened : parts.scheme = https → ∃ p, port parts.netloc = some p ∧
    endpoint py.int (hostname py.lower parts.netloc) p 443 = some (q.host, q.port) ∧
    Verified py c.tlsPin past q.host q.port

/-- The next round is on a URL that the redirect may lead to. -/
def Followable (py : Stdlib) (c : Connector) (url next : List Char) : Prop :=
  c.auth = [] ∧ c.tlsPin = [] ∧
    ∀ parts, urlsplit py.expands url = some parts → parts.scheme = https →
      ∃ parts', urlsplit py.expands next = some parts' ∧ parts'.scheme = https

theorem received_runs {url : List Char} {answer : Option Response} {steps : List Step}
    {r : Except Failure (List Char ⊕ List Char)} (h : Attempts (received py c url answer) steps r) :
    steps = [] ∧ ∀ next, r = .ok (.inr next) → Followable py c url next := by
  rw [received, attempts_orRaise_bind] at h
  obtain ⟨_, rfl, rfl⟩ | ⟨resp, _, h⟩ := h
  · exact ⟨rfl, fun _ hr => nomatch hr⟩
  rw [attempts_orRaise_bind] at h
  obtain ⟨_, rfl, rfl⟩ | ⟨body, _, h⟩ := h
  · exact ⟨rfl, fun _ hr => nomatch hr⟩
  split at h
  · rw [attempts_bind] at h
    obtain ⟨e, htarget, rfl⟩ | ⟨front, next, rest, rfl, htarget, h⟩ := h
    · exact ⟨(redirectTarget_runs htarget).1, fun _ hr => nomatch hr⟩
    · obtain ⟨rfl, hfollow⟩ := redirectTarget_runs htarget
      obtain ⟨rfl, rfl⟩ := attempts_pure.mp h
      refine ⟨rfl, ?_⟩
      rintro _ hr
      obtain rfl := Sum.inr.inj (Except.ok.inj hr)
      obtain ⟨hauth, hpin, hscheme⟩ := hfollow next rfl
      exact ⟨by simpa using hauth, by simpa using hpin, hscheme⟩
  · split at h
    · obtain ⟨rfl, rfl⟩ := attempts_throw.mp h
      exact ⟨rfl, fun _ hr => nomatch hr⟩
    · obtain ⟨rfl, rfl⟩ := attempts_pure.mp h
      exact ⟨rfl, fun _ hr => nomatch hr⟩

/-- A round ends before it sends a request, or sends one and goes on only where
    it may. -/
theorem round_runs {headers : List (String × List Char)} {url : List Char} {steps : List Step}
    {r : Except Failure (List Char ⊕ List Char)} (h : Attempts (round py c headers url) steps r) :
    (requests steps = [] ∧ ∃ e, r = .error e) ∨
      ∃ parts past q answer, steps = past ++ [.asked (.exchange q) answer] ∧
        Sent py c headers url parts past q ∧
        ∀ next, r = .ok (.inr next) → Followable py c url next := by
  rw [round, attempts_orRaise_bind] at h
  obtain ⟨_, rfl, rfl⟩ | ⟨parts, hparts, h⟩ := h
  · exact Or.inl ⟨rfl, _, rfl⟩
  split at h
  · obtain ⟨rfl, rfl⟩ := attempts_refuse.mp h
    exact Or.inl ⟨rfl, _, rfl⟩
  next hauth =>
  split at h
  · obtain ⟨rfl, rfl⟩ := attempts_refuse.mp h
    exact Or.inl ⟨rfl, _, rfl⟩
  rw [attempts_bind] at h
  obtain ⟨e, hopen, rfl⟩ | ⟨past, conn, rest, rfl, hopen, h⟩ := h
  · exact Or.inl ⟨(openVerified_runs hopen).1, _, rfl⟩
  obtain ⟨hquiet, hopened⟩ := openVerified_runs hopen
  rw [attempts_ask_bind] at h
  obtain ⟨answer, rest, rfl, h⟩ := h
  obtain ⟨rfl, hfollow⟩ := received_runs h
  refine Or.inr ⟨parts, past, _, answer, rfl, ⟨hparts, hquiet, rfl, rfl, ?_, hopened conn rfl⟩,
    hfollow⟩
  intro hne
  exact by_contra fun hscheme => hauth ⟨hne, hscheme⟩

/-- What the loop sends. -/
structure Rounds (py : Stdlib) (c : Connector) (headers : List (String × List Char)) (n : Nat)
    (url : List Char) (steps : List Step) : Prop where
  few : (requests steps).length ≤ n
  trusted : c.auth ≠ [] ∨ c.tlsPin ≠ [] → (requests steps).length ≤ 1
  kept : (requests steps).IsChain (fun r r' => r.scheme = https → r'.scheme = https)
  secure : ∀ parts, urlsplit py.expands url = some parts → parts.scheme = https →
    ∀ q ∈ requests steps, q.scheme = https
  carried : ∀ q ∈ requests steps, q.headers = requestHeaders c headers
  sent : c.auth ≠ [] → ∀ past q answer rest, steps = past ++ .asked (.exchange q) answer :: rest →
    ∃ parts, Sent py c headers url parts past q

theorem Rounds.of_quiet {headers : List (String × List Char)} {n : Nat} {url : List Char}
    {steps : List Step} (h : requests steps = []) : Rounds py c headers n url steps := by
  refine ⟨by simp [h], fun _ => by simp [h], by simp [h], ?_, ?_, ?_⟩
  · intro parts _ _ q hq
    simp [h] at hq
  · intro q hq
    simp [h] at hq
  · rintro _ past q answer rest rfl
    simp at h

/-- The only request of some steps is the last of them. -/
theorem eq_of_last {past past' rest : List Step} {q q' : Request} {answer : Answer (.exchange q)}
    {answer' : Answer (.exchange q')} (hquiet : requests past = [])
    (h : past ++ [.asked (.exchange q) answer] = past' ++ .asked (.exchange q') answer' :: rest) :
    past' = past ∧ q' = q := by
  rcases List.eq_nil_or_concat rest with rfl | ⟨rest', x, rfl⟩
  · obtain ⟨hpast, hlast⟩ := List.append_inj' h rfl
    rw [List.cons.injEq] at hlast
    exact ⟨hpast.symm, by cases hlast.1; rfl⟩
  · -- another request would be in front of it
    rw [List.concat_eq_append, ← List.cons_append, ← List.append_assoc] at h
    obtain ⟨hpast, _⟩ := List.append_inj' h rfl
    rw [hpast] at hquiet
    simp at hquiet

/-- One request, and the rounds that its redirect leads to. -/
theorem Rounds.of_sent {headers : List (String × List Char)} {n : Nat} {url : List Char}
    {parts : Parts} {past rest : List Step} {q : Request} {answer : Answer (.exchange q)}
    (hsent : Sent py c headers url parts past q)
    (hrest : rest = [] ∨ ∃ next, Followable py c url next ∧ Rounds py c headers n next rest) :
    Rounds py c headers (n + 1) url (past ++ [.asked (.exchange q) answer] ++ rest) := by
  have hrequests : requests (past ++ [.asked (.exchange q) answer] ++ rest) =
      q :: requests rest := by
    rw [requests_append, requests_append, hsent.quiet]
    rfl
  have htrusted : c.auth ≠ [] ∨ c.tlsPin ≠ [] → rest = [] := by
    intro htrust
    rcases hrest with hnil | ⟨next, ⟨hauth, hpin, _⟩, _⟩
    · exact hnil
    · exact absurd htrust (by simp [hauth, hpin])
  have hsecure : parts.scheme = https → ∀ q' ∈ requests rest, q'.scheme = https := by
    intro hscheme
    rcases hrest with rfl | ⟨next, ⟨_, _, hnext⟩, hrounds⟩
    · intro q' hq'
      cases hq'
    · obtain ⟨parts', hparts', hscheme'⟩ := hnext parts hsent.split hscheme
      exact hrounds.secure parts' hparts' hscheme'
  refine ⟨?_, ?_, ?_, ?_, ?_, ?_⟩
  · rw [hrequests, List.length_cons]
    rcases hrest with rfl | ⟨next, _, hrounds⟩
    · exact Nat.succ_le_succ (Nat.zero_le n)
    · exact Nat.succ_le_succ hrounds.few
  · intro htrust
    rw [hrequests, htrusted htrust]
    exact le_rfl
  · rw [hrequests]
    have hkept : (requests rest).IsChain (fun r r' => r.scheme = https → r'.scheme = https) := by
      rcases hrest with rfl | ⟨next, _, hrounds⟩
      · exact List.IsChain.nil
      · exact hrounds.kept
    cases hlist : requests rest with
    | nil => exact List.IsChain.singleton q
    | cons q' qs =>
      rw [hlist] at hkept
      refine List.isChain_cons_cons.mpr ⟨?_, hkept⟩
      intro hscheme
      refine hsecure (hsent.scheme.symm.trans hscheme) q' ?_
      rw [hlist]
      exact List.mem_cons_self
  · intro parts' hparts' hscheme q' hq'
    obtain rfl := Option.some.inj (hsent.split.symm.trans hparts')
    rw [hrequests] at hq'
    rcases List.mem_cons.mp hq' with rfl | hq'
    · exact hsent.scheme.trans hscheme
    · exact hsecure hscheme q' hq'
  · intro q' hq'
    rw [hrequests] at hq'
    rcases List.mem_cons.mp hq' with rfl | hq'
    · exact hsent.headers
    · rcases hrest with rfl | ⟨next, _, hrounds⟩
      · cases hq'
      · exact hrounds.carried q' hq'
  · intro hauth past' q' answer' rest' hsteps
    rw [htrusted (Or.inl hauth), List.append_nil] at hsteps
    obtain ⟨rfl, rfl⟩ := eq_of_last hsent.quiet hsteps
    exact ⟨parts, hsent⟩

theorem rounds_runs {headers : List (String × List Char)} {n : Nat} {url : List Char}
    {steps : List Step} {r : Except Failure (List Char)}
    (h : Attempts (rounds py c headers n url) steps r) : Rounds py c headers n url steps := by
  induction n generalizing url steps r with
  | zero =>
    obtain ⟨rfl, _⟩ := attempts_refuse.mp h
    exact Rounds.of_quiet rfl
  | succ n ih =>
    rw [rounds, attempts_bind] at h
    obtain ⟨e, hround, _⟩ | ⟨front, next, rest, rfl, hround, h⟩ := h
    · obtain ⟨hquiet, _⟩ | ⟨parts, past, q, answer, rfl, hsent, _⟩ := round_runs hround
      · exact Rounds.of_quiet hquiet
      · have hone := @Rounds.of_sent py c headers n url parts past [] q answer hsent (Or.inl rfl)
        rwa [List.append_nil] at hone
    · obtain ⟨_, e, he⟩ | ⟨parts, past, q, answer, rfl, hsent, hfollow⟩ := round_runs hround
      · cases he
      · refine Rounds.of_sent hsent ?_
        cases next with
        | inl body =>
          obtain ⟨rfl, _⟩ := attempts_pure.mp h
          exact Or.inl rfl
        | inr next => exact Or.inr ⟨next, hfollow next rfl, ih h⟩

/-! ### Credentials are safe where the URL is read as it is -/

/-- The URL has the scheme and the network location of the feed's URL. -/
def SameOrigin (py : Stdlib) (c : Connector) (url : List Char) : Prop :=
  ∀ parts, urlsplit py.expands url = some parts →
    ∃ parts', urlsplit py.expands c.url = some parts' ∧ parts'.scheme = parts.scheme ∧
      parts'.netloc = parts.netloc

theorem sealed_of_rounds (hdirected : Directed py c) {headers : List (String × List Char)}
    (hheaders : ∀ value, ("Authorization", value) ∉ headers) {n : Nat} {url : List Char}
    (horigin : SameOrigin py c url) {steps : List Step} (h : Rounds py c headers n url steps) :
    Sealed py c steps := by
  rintro past q answer rest rfl ⟨value, hvalue⟩
  have hcarried := h.carried q (by simp)
  rw [hcarried, requestHeaders] at hvalue
  split at hvalue
  · next hauth =>
    obtain ⟨parts, hsent⟩ := h.sent hauth past q answer rest rfl
    have hscheme := hsent.credentials hauth
    obtain ⟨p, hp, hconn, hverified⟩ := hsent.opened hscheme
    obtain ⟨parts', hparts', hscheme', hnetloc⟩ := horigin parts hsent.split
    have hread : Unreadable py.int (hostname py.lower parts.netloc) p ∨
        Literal (hostname py.lower parts.netloc) p := by
      rcases hdirected with hnone | ⟨hpin, hnever⟩ | hread
      · exact absurd hnone hauth
      · obtain ⟨front, der, _, hpinned⟩ := hverified
        obtain ⟨hder, hmatch, _⟩ := hpinned hpin
        exact absurd hmatch (by rw [hnever der hder]; exact Bool.false_ne_true)
      · rw [← hnetloc]
        exact hread parts' p hparts' (hscheme'.trans hscheme) (hnetloc ▸ hp)
    obtain ⟨hhost, hport⟩ := Prod.mk.inj ((endpoint_eq_iff _ _ _ _).mpr hread _ hconn)
    exact ⟨hsent.scheme.trans hscheme, ⟨parts', p, hparts', hscheme'.trans hscheme, hnetloc ▸ hp,
      hnetloc ▸ hhost, hport⟩, hverified⟩
  · exact absurd hvalue (hheaders value)

theorem Sealed.append {a b : List Step} (ha : Sealed py c a) (hb : Sealed py c b) :
    Sealed py c (a ++ b) := by
  intro past q answer rest hsteps hauth
  rcases List.append_eq_append_iff.mp hsteps with ⟨mid, rfl, hmid⟩ | ⟨mid, rfl, hmid⟩
  · obtain ⟨hscheme, hconfigured, front, der, hplain, hpinned⟩ := hb mid q answer rest hmid hauth
    refine ⟨hscheme, hconfigured, a ++ front, der, ?_, ?_⟩
    · intro hpin
      rw [hplain hpin, List.append_assoc]
    · intro hpin
      obtain ⟨hder, hmatch, heq⟩ := hpinned hpin
      exact ⟨hder, hmatch, by rw [heq, List.append_assoc]⟩
  · cases mid with
    | nil =>
      rw [List.append_nil] at ha
      have hsec := hb [] q answer rest (by simpa using hmid.symm) hauth
      obtain ⟨_, _, front, der, hplain, hpinned⟩ := hsec
      -- a request has a handshake in front of it
      exfalso
      by_cases hpin : c.tlsPin = []
      · simpa using hplain hpin
      · simpa using (hpinned hpin).2.2
    | cons x mid =>
      rw [List.cons_append, List.cons.injEq] at hmid
      obtain ⟨rfl, _⟩ := hmid
      exact ha past q answer mid rfl hauth

theorem sameOrigin_self : SameOrigin py c c.url := fun parts hparts => ⟨parts, hparts, rfl, rfl⟩

theorem sameOrigin_page (nxt : Json) : SameOrigin py c (pageUrl py c nxt) := by
  intro parts hparts
  have htail : '?' ∈ c.url ∨ ((if '?' ∈ c.url then '&' else '?') ::
      "next=".toList ++ py.quoteStr nxt).head? = some '?' := by
    by_cases hmem : '?' ∈ c.url
    · exact Or.inl hmem
    · rw [if_neg hmem]
      exact Or.inr rfl
  obtain ⟨hscheme, hnetloc⟩ := partsOf_append htail
  have hurl : pageUrl py c nxt = c.url ++ ((if '?' ∈ c.url then '&' else '?') ::
      "next=".toList ++ py.quoteStr nxt) := by
    rw [pageUrl, List.append_assoc]
  rw [hurl, urlsplit, hnetloc] at hparts
  split at hparts
  · next hok =>
    obtain rfl := Option.some.inj hparts
    exact ⟨partsOf c.url, if_pos hok, hscheme.symm, hnetloc.symm⟩
  · cases hparts

theorem pages_sealed (hdirected : Directed py c) {n : Nat} {url : List Char} {objs : List Json}
    (horigin : SameOrigin py c url) {steps : List Step} {r : Except Failure (List Char)}
    (h : Attempts (pages py c n url objs) steps r) : Sealed py c steps := by
  have hquiet : Sealed py c [] := by
    intro past q answer rest hsteps
    simp at hsteps
  have hheaders : ∀ value, ("Authorization", value) ∉ taxiiHeaders := by
    simp [taxiiHeaders, userAgent]
  induction n generalizing url objs steps r with
  | zero =>
    obtain ⟨rfl, _⟩ := attempts_throw.mp h
    exact hquiet
  | succ n ih =>
    rw [pages, attempts_bind] at h
    obtain ⟨e, hfetch, _⟩ | ⟨front, body, rest, rfl, hfetch, h⟩ := h
    · exact sealed_of_rounds hdirected hheaders horigin (rounds_runs hfetch)
    · refine (sealed_of_rounds hdirected hheaders horigin (rounds_runs hfetch)).append ?_
      rw [attempts_orRaise_bind] at h
      obtain ⟨_, rfl, _⟩ | ⟨env, _, h⟩ := h
      · exact hquiet
      split at h
      · rw [attempts_orRaise_bind] at h
        obtain ⟨_, rfl, _⟩ | ⟨more, _, h⟩ := h
        · exact hquiet
        split at h
        · obtain ⟨rfl, _⟩ := attempts_pure.mp h
          exact hquiet
        · dsimp only at h
          split at h
          · obtain ⟨rfl, _⟩ := attempts_throw.mp h
            exact hquiet
          · exact ih (sameOrigin_page _) h
      · rw [attempts_orRaise_bind] at h
        obtain ⟨_, rfl, _⟩ | ⟨more, _, h⟩ := h
        · exact hquiet
        · obtain ⟨rfl, _⟩ := attempts_pure.mp h
          exact hquiet

theorem attempts_events {α : Type} (servers : Servers) (m : Net α) :
    Attempts m (events servers m) (m.run.against servers []).2 := runs_against servers m.run []

theorem safe_of_directed (h : Directed py c) (servers : Servers) : Safe py c servers := by
  have hheaders : ∀ value, ("Authorization", value) ∉ userAgent := by simp [userAgent]
  refine ⟨?_, ?_, ?_⟩
  · exact sealed_of_rounds h hheaders sameOrigin_self (rounds_runs (attempts_events servers _))
  · exact pages_sealed h sameOrigin_self (attempts_events servers _)
  · intro headers url
    have hrounds := rounds_runs (attempts_events servers (fetchUrl py c headers url))
    exact ⟨hrounds.few, hrounds.trusted, hrounds.kept⟩

/-! ### Credentials go astray where it is not -/

/-- Servers that complete every handshake with one certificate and answer every
    request. -/
def welcoming (der : List UInt8) : (q : Ask) → Answer q
  | .connect _ _ => some der
  | .exchange _ => some ⟨200, none, some []⟩

/-- The steps of a fetch that the servers welcome. -/
theorem exists_request {parts : Parts} {p : Option Nat} {conn : List Char × Int} {der : List UInt8}
    (hparts : urlsplit py.expands c.url = some parts) (hscheme : parts.scheme = https)
    (hport : port parts.netloc = some p)
    (hconn : endpoint py.int (hostname py.lower parts.netloc) p 443 = some conn)
    (hpin : c.tlsPin ≠ [] → der ≠ [] ∧ pinned py der c.tlsPin = true) :
    ∃ past q, events (fun _ ask => welcoming der ask) (fetch py c) =
        past ++ [.asked (.exchange q) (some ⟨200, none, some []⟩)] ∧
      q.headers = requestHeaders c userAgent ∧ (q.host, q.port) = conn := by
  obtain ⟨past, hopen, hpast⟩ : ∃ past, Attempts (openVerified py parts c.tlsPin) past (.ok conn) ∧
      ∀ ask answer, .asked ask answer ∈ past → answer = welcoming der ask := by
    by_cases hnil : c.tlsPin = []
    · refine ⟨[.asked (.connect conn.1 conn.2) (some der)], ?_, ?_⟩
      · rw [openVerified, attempts_orRaise_bind]
        refine Or.inr ⟨p, hport, ?_⟩
        rw [if_pos hscheme, attempts_orRaise_bind]
        refine Or.inr ⟨conn, hconn, ?_⟩
        rw [attempts_ask_bind]
        refine ⟨some der, [], rfl, ?_⟩
        rw [attempts_orRaise_bind]
        refine Or.inr ⟨der, rfl, ?_⟩
        rw [if_neg (not_not.mpr hnil)]
        exact attempts_pure.mpr ⟨rfl, rfl⟩
      · intro ask answer hmem
        cases List.mem_singleton.mp hmem
        rfl
    · obtain ⟨hder, hmatch⟩ := hpin hnil
      refine ⟨[.asked (.connect conn.1 conn.2) (some der), .called (.verified der)], ?_, ?_⟩
      · rw [openVerified, attempts_orRaise_bind]
        refine Or.inr ⟨p, hport, ?_⟩
        rw [if_pos hscheme, attempts_orRaise_bind]
        refine Or.inr ⟨conn, hconn, ?_⟩
        rw [attempts_ask_bind]
        refine ⟨some der, [.called (.verified der)], rfl, ?_⟩
        rw [attempts_orRaise_bind]
        refine Or.inr ⟨der, rfl, ?_⟩
        rw [if_pos hnil, if_neg hder, if_pos hmatch, attempts_bind]
        exact Or.inr ⟨_, (), [], rfl, attempts_note.mpr ⟨rfl, rfl⟩, attempts_pure.mpr ⟨rfl, rfl⟩⟩
      · intro ask answer hmem
        rcases List.mem_cons.mp hmem with heq | hmem
        · cases heq
          rfl
        · cases List.mem_singleton.mp hmem
  have hrun : ∃ q, Attempts (fetch py c)
      (past ++ [.asked (.exchange q) (some ⟨200, none, some []⟩)]) (.ok (py.decode [])) ∧
      q.headers = requestHeaders c userAgent ∧ (q.host, q.port) = conn := by
    let path := if parts.path = [] then ['/'] else parts.path
    let target := if parts.query = [] then path else path ++ '?' :: parts.query
    refine ⟨⟨parts.scheme, conn.1, conn.2, target, requestHeaders c userAgent⟩, ?_, rfl, rfl⟩
    rw [fetch, fetchUrl, rounds, attempts_bind]
    refine Or.inr ⟨_, .inl (py.decode []), [], (List.append_nil _).symm, ?_,
      attempts_pure.mpr ⟨rfl, rfl⟩⟩
    rw [round, attempts_orRaise_bind]
    refine Or.inr ⟨parts, hparts, ?_⟩
    rw [if_neg fun h => h.2 hscheme, if_neg fun h => h.2 hscheme, attempts_bind]
    refine Or.inr ⟨past, conn, _, rfl, hopen, ?_⟩
    rw [attempts_ask_bind]
    refine ⟨some ⟨200, none, some []⟩, [], rfl, ?_⟩
    rw [received, attempts_orRaise_bind]
    refine Or.inr ⟨_, rfl, ?_⟩
    rw [attempts_orRaise_bind]
    refine Or.inr ⟨[], rfl, ?_⟩
    exact attempts_pure.mpr ⟨rfl, rfl⟩
  obtain ⟨q, hrun, hheaders, hto⟩ := hrun
  refine ⟨past, q, ?_, hheaders, hto⟩
  refine congrArg Prod.fst (against_of_runs hrun ?_ [])
  intro ask answer hmem
  rcases List.mem_append.mp hmem with hmem | hmem
  · exact hpast ask answer hmem
  · cases List.mem_singleton.mp hmem
    rfl

theorem directed_of_safe (h : ∀ servers, Safe py c servers) : Directed py c := by
  by_contra hno
  simp only [Directed, not_or, not_and, not_forall] at hno
  obtain ⟨hauth, hpin, parts, p, hparts, hscheme, hport, hread, hliteral⟩ := hno
  have hother : ¬ ∀ conn, endpoint py.int (hostname py.lower parts.netloc) p 443 = some conn →
      conn = (hostname py.lower parts.netloc, (p.map Int.ofNat).getD 443) := by
    rw [endpoint_eq_iff]
    exact not_or.mpr ⟨hread, hliteral⟩
  simp only [not_forall] at hother
  obtain ⟨conn, hconn, hne⟩ := hother
  obtain ⟨der, hder⟩ : ∃ der, c.tlsPin ≠ [] → der ≠ [] ∧ pinned py der c.tlsPin = true := by
    by_cases hnil : c.tlsPin = []
    · exact ⟨[], fun hne => absurd hnil hne⟩
    · obtain ⟨der, hder, hmatch⟩ := hpin hnil
      exact ⟨der, fun _ => ⟨hder, by simpa using hmatch⟩⟩
  obtain ⟨past, q, hsteps, hheaders, hto⟩ := exists_request hparts hscheme hport hconn hder
  have hauthorized : Authorized q := by
    refine ⟨c.auth, ?_⟩
    rw [hheaders, requestHeaders, if_pos hauth]
    exact List.mem_append_right _ List.mem_cons_self
  obtain ⟨_, ⟨parts', p', hparts', _, hport', hhost, hportq⟩, _⟩ :=
    (h fun _ ask => welcoming der ask).fetch past q _ [] hsteps hauthorized
  obtain rfl := Option.some.inj (hparts.symm.trans hparts')
  obtain rfl := Option.some.inj (hport.symm.trans hport')
  exact hne (hto.symm.trans (Prod.ext hhost hportq))

/-- Whatever the servers do, the credentials are safe exactly when the URL of
    the feed is read as it is. -/
theorem safe_iff_directed (py : Stdlib) (c : Connector) :
    (∀ servers, Safe py c servers) ↔ Directed py c := by
  constructor
  · intro h
    exact directed_of_safe h
  · intro h servers
    exact safe_of_directed h servers

/-! ### An IPv6 address without a port -/

/-- A standard library that is right about the sample. -/
def samplePy : Stdlib where
  expands := fun _ => false
  lower := fun cs => cs.map Char.toLower
  urljoin := fun _ _ => none
  int := fun cs => (IpAddress.numeral 10 IpAddress.decValue? cs).map Int.ofNat
  sha256 := fun _ => []
  decode := fun _ => []
  loads := fun _ => none
  dumps := fun _ => []
  quoteStr := fun _ => []

def sampleFeed : Connector :=
  ⟨"https://[2001:db8::5:443]/feed".toList, "Bearer secret".toList, []⟩

/-- The last group of the address is taken for a port: the credentials go to
    another host. -/
theorem credentials_astray :
    (urlsplit samplePy.expands sampleFeed.url).map
        (fun parts => (hostname samplePy.lower parts.netloc, port parts.netloc)) =
      some ("2001:db8::5:443".toList, some none) ∧
    (requests (events (fun _ ask => welcoming [1] ask) (fetch samplePy sampleFeed))).map
        (fun q => (q.host, q.port, q.headers.lookup "Authorization")) =
      [("2001:db8::5".toList, 443, some "Bearer secret".toList)] ∧
    ¬ ∀ servers, Safe samplePy sampleFeed servers := by
  refine ⟨by decide +kernel, by decide +kernel, ?_⟩
  intro h
  have hparts : ∃ parts p, urlsplit samplePy.expands sampleFeed.url = some parts ∧
      parts.scheme = https ∧ port parts.netloc = some p ∧
      endpoint samplePy.int (hostname samplePy.lower parts.netloc) p 443 =
        some ("2001:db8::5".toList, 443) ∧
      hostname samplePy.lower parts.netloc = "2001:db8::5:443".toList := by
    refine ⟨partsOf sampleFeed.url, none, ?_, ?_, ?_, ?_, ?_⟩ <;> decide +kernel
  obtain ⟨parts, p, hparts, hscheme, hport, hconn, hhost⟩ := hparts
  obtain hnone | ⟨hpin, _⟩ | hread := directed_of_safe h
  · exact absurd hnone (by decide +kernel)
  · exact hpin rfl
  · have heq := (endpoint_eq_iff _ _ _ _).mpr (hread parts p hparts hscheme hport) _ hconn
    rw [hhost] at heq
    exact absurd (Prod.mk.inj heq).1 (by decide +kernel)

end FeedTransport
