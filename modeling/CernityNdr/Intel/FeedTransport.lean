import CernityNdr.Framework.Json
import CernityNdr.Framework.Program
import CernityNdr.Framework.Text
import CernityNdr.Framework.UrlSplit

/-! # The Transport of a Feed

    The model of `_fetch` of `threat-intel/feeds.py`, with `verify_pin`,
    `_open_verified` and `_redirect_target`, and of the two ways in which a
    connector fetches: the URL of the feed, and the pages of a TAXII feed.

    The network answers as it likes: a handshake with a certificate, a request
    with a status and headers, or an exception. `urljoin`, `int`, SHA-256 and
    the decoding of bodies and of JSON are parameters. `http.client` is as it
    is documented: without a port it takes one from the host, which is given
    to it as `host:port`; what it checks in a host, a target or a header is left
    out, as is the response that a test may put in. -/

namespace FeedTransport

open Program Joining UrlSplit

/-- What the standard library computes; `none` where it raises. -/
structure Stdlib where
  /-- the compatibility form has a delimiter in it -/
  expands : Char → Bool
  lower : List Char → List Char
  urljoin : List Char → List Char → Option (List Char)
  int : List Char → Option Int
  /-- `hashlib.sha256(der).hexdigest()` -/
  sha256 : List UInt8 → List Char
  /-- `decode("utf-8", "replace")` -/
  decode : List UInt8 → List Char
  loads : List Char → Option Json
  dumps : Json → List Char
  /-- `quote(str(v))` -/
  quoteStr : Json → List Char

/-- Why a `FeedTrustError` is raised. -/
inductive Refusal
  | credentialsOverPlaintext
  | pinOnPlaintext
  | certificateUnavailable
  | pinMismatch
  | unsupportedScheme
  | noLocation
  | redirectOfTrusted
  | downgrade
  | tooManyRedirects
  deriving DecidableEq

inductive Failure
  /-- `FeedTrustError` -/
  | refused (why : Refusal)
  /-- `OSError`, for a status from 400 on -/
  | status (code : Nat)
  /-- `FeedFetchIncomplete` -/
  | incomplete
  /-- what the network or the standard library raises -/
  | raised
  deriving DecidableEq

/-- What a connector is configured with; a text is empty when it is missing. -/
structure Connector where
  url : List Char
  auth : List Char
  tlsPin : List Char

/-! ### The network -/

structure Request where
  scheme : List Char
  host : List Char
  port : Int
  target : List Char
  headers : List (String × List Char)
  deriving DecidableEq

structure Response where
  status : Nat
  location : Option (List Char)
  /-- `none` where `read` raises -/
  body : Option (List UInt8)

inductive Ask
  /-- `HTTPSConnection.connect` -/
  | connect (host : List Char) (port : Int)
  /-- `request` and `getresponse` -/
  | exchange (r : Request)

/-- A handshake leaves the certificate of the peer, empty when there is none. -/
@[reducible] def Answer : Ask → Type
  | .connect _ _ => Option (List UInt8)
  | .exchange _ => Option Response

inductive Call
  /-- `verify_pin` has returned -/
  | verified (der : List UInt8)

abbrev Net := Attempt Ask Answer Call Failure

def ask (q : Ask) : Net (Answer q) := ExceptT.lift (question q)

def note (c : Call) : Net Unit := ExceptT.lift (call c)

/-- A value, or what the standard library raises. -/
def orRaise {α : Type} (v : Option α) : Net α :=
  match v with
  | some a => pure a
  | none => throw .raised

def refuse {α : Type} (why : Refusal) : Net α := throw (.refused why)

/-! ### `http.client` -/

/-- Brackets around the host are removed. -/
def unbracketed (host : List Char) : List Char :=
  if host.head? = some '[' ∧ host.getLast? = some ']' then host.tail.dropLast else host

/-- `HTTPConnection._get_hostport`, of a host that is not empty. -/
def hostPort (int : List Char → Option Int) (host : List Char) (port : Option Nat)
    (default : Int) : Option (List Char × Int) :=
  match port with
  | some p => some (unbracketed host, p)
  | none =>
    match last? ':' host with
    | none => some (unbracketed host, default)
    | some (name, suffix) =>
      if ']' ∈ suffix then some (unbracketed host, default)
      else
        match int suffix with
        | some p => some (unbracketed name, p)
        | none => if suffix = [] then some (unbracketed name, default) else none

/-- A connection cannot be made for no host. -/
def endpoint (int : List Char → Option Int) (host : List Char) (port : Option Nat)
    (default : Int) : Option (List Char × Int) :=
  if host = [] then none else hostPort int host port default

/-! ### The checks -/

variable (py : Stdlib)

/-- `verify_pin` returns. -/
def pinned (der : List UInt8) (pin : List Char) : Bool :=
  let want := if ':' ∈ pin then (cut ':' pin).2 else pin
  py.lower (py.sha256 der) = py.lower (Text.strip want)

def https : List Char := ['h', 't', 't', 'p', 's']

def http : List Char := ['h', 't', 't', 'p']

/-- `_open_verified`: the host and the port of the connection. -/
def openVerified (parts : Parts) (tlsPin : List Char) : Net (List Char × Int) := do
  let host := hostname py.lower parts.netloc
  let port ← orRaise (port parts.netloc)
  if parts.scheme = https then
    let conn ← orRaise (endpoint py.int host port 443)
    -- handshake only; no request yet
    let shake ← ask (.connect conn.1 conn.2)
    let der ← orRaise shake
    if tlsPin ≠ [] then
      if der = [] then refuse .certificateUnavailable
      else if pinned py der tlsPin = true then do
        note (.verified der)
        pure conn
      else refuse .pinMismatch
    else pure conn
  else if parts.scheme = http then orRaise (endpoint py.int host port 80)
  else refuse .unsupportedScheme

/-- `_redirect_target`. -/
def redirectTarget (currentUrl : List Char) (location : Option (List Char))
    (hasAuth hasPin : Bool) : Net (List Char) := do
  let location := location.getD []
  if location = [] then refuse .noLocation
  else
    let nxt ← orRaise (py.urljoin currentUrl location)
    if hasAuth || hasPin then refuse .redirectOfTrusted
    else
      let cur ← orRaise (urlsplit py.expands currentUrl)
      let new ← orRaise (urlsplit py.expands nxt)
      if cur.scheme = https ∧ new.scheme ≠ https then refuse .downgrade
      else pure nxt

/-- `_REDIRECT_CODES`. -/
def redirectCodes : List Nat := [301, 302, 303, 307, 308]

/-! ### The loop -/

/-- The headers of a request. -/
def requestHeaders (c : Connector) (headers : List (String × List Char)) :
    List (String × List Char) :=
  if c.auth ≠ [] then headers ++ [("Authorization", c.auth)] else headers

/-- What a round makes of the response: the body, or the URL of the next
    round. -/
def received (c : Connector) (url : List Char) (answer : Option Response) :
    Net (List Char ⊕ List Char) := do
  let resp ← orRaise answer
  let body ← orRaise resp.body
  if resp.status ∈ redirectCodes then
    let next ← redirectTarget py url resp.location (c.auth ≠ []) (c.tlsPin ≠ [])
    pure (.inr next)
  else if 400 ≤ resp.status then throw (.status resp.status)
  else pure (.inl (py.decode body))

/-- One round of the loop. -/
def round (c : Connector) (headers : List (String × List Char)) (url : List Char) :
    Net (List Char ⊕ List Char) := do
  let parts ← orRaise (urlsplit py.expands url)
  if c.auth ≠ [] ∧ parts.scheme ≠ https then refuse .credentialsOverPlaintext
  else if c.tlsPin ≠ [] ∧ parts.scheme ≠ https then refuse .pinOnPlaintext
  else
    let conn ← openVerified py parts c.tlsPin
    let path := if parts.path = [] then ['/'] else parts.path
    let target := if parts.query = [] then path else path ++ '?' :: parts.query
    let answer ← ask (.exchange ⟨parts.scheme, conn.1, conn.2, target, requestHeaders c headers⟩)
    received py c url answer

/-- The rounds that are left. -/
def rounds (c : Connector) (headers : List (String × List Char)) :
    Nat → List Char → Net (List Char)
  | 0, _ => refuse .tooManyRedirects
  | n + 1, url => do
    match ← round py c headers url with
    | .inl body => pure body
    | .inr next => rounds c headers n next

/-- `_MAX_REDIRECTS`. -/
def maxRedirects : Nat := 5

/-- `_fetch`. -/
def fetchUrl (c : Connector) (headers : List (String × List Char)) (url : List Char) :
    Net (List Char) := rounds py c headers (maxRedirects + 1) url

/-! ### The fetches -/

def userAgent : List (String × List Char) := [("User-Agent", "ndr-threat-intel/2.0".toList)]

/-- `Connector.fetch`. -/
def fetch (c : Connector) : Net (List Char) := fetchUrl py c userAgent c.url

def taxiiHeaders : List (String × List Char) :=
  userAgent ++ [("Accept", "application/taxii+json;version=2.1".toList)]

/-- The items that `extend` takes of a value. -/
def items : Json → Option (List Json)
  | .arr xs => some xs
  | .obj ms => some (ms.map fun m => .str m.1)
  | .str s => some (s.toList.map fun c => .str (String.singleton c))
  | _ => none

/-- `url + sep + "next=" + quote(str(nxt))`. -/
def pageUrl (c : Connector) (nxt : Json) : List Char :=
  c.url ++ (if '?' ∈ c.url then '&' else '?') :: "next=".toList ++ py.quoteStr nxt

/-- `StixTaxiiConnector.max_pages`. -/
def maxPages : Nat := 100

/-- The pages that are left. -/
def pages (c : Connector) : Nat → List Char → List Json → Net (List Char)
  | 0, _, _ => throw .incomplete
  | n + 1, url, objs => do
    let body ← fetchUrl py c taxiiHeaders url
    let env ← orRaise (py.loads body)
    match env with
    | .obj d =>
      let more ← orRaise (items ((Json.Dict.get? d "objects").getD (.arr [])))
      let nxt := (Json.Dict.get? d "next").getD .null
      if ((Json.Dict.get? d "more").getD .null).truthy = false then
        pure (py.dumps (.obj [("objects", .arr (objs ++ more))]))
      else if nxt.truthy = false then throw .incomplete
      else pages c n (pageUrl py c nxt) (objs ++ more)
    | env =>
      let more ← orRaise (items env)
      pure (py.dumps (.obj [("objects", .arr (objs ++ more))]))

/-- `StixTaxiiConnector.fetch`. -/
def taxiiFetch (c : Connector) : Net (List Char) := pages py c maxPages c.url []

end FeedTransport
