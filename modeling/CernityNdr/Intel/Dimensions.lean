import CernityNdr.Framework.UrlSplit
import CernityNdr.Intel.Store

/-! # Dimensions

    The model of `dimensions` and `hash_dimensions` of `threat-intel/ti.py`,
    of `hash_is_complete` of `file-threat/filematch.py` and of
    `norm_indicator` and `_canon_host` of `threat-intel/lifecycle.py`: which values
    of an event an indicator can be compared with, and the form in which it is.

    What the standard library does with a text is a parameter. -/

namespace ThreatIntel

open Json
open UrlSplit (Parts urlsplit behind)

/-- What `int` raises. -/
inductive ConversionError
  /-- `TypeError` or `ValueError` -/
  | invalid
  | overflow
deriving DecidableEq, Repr

/-- The conversions of the standard library. -/
structure Library where
  upper : String → String
  lower : String → String
  int : Json → Except ConversionError Int
  /-- `ip_address(v).compressed`, unless it raises -/
  compressed : String → Option String
  /-- `ip_network(v, strict=False)` does not raise -/
  isNetwork : String → Bool
  /-- `ip_address(v) in ip_network(network, strict=False)`, and false where
      one of the two raises -/
  inNetwork : String → String → Bool
  /-- as `urlsplit` asks of a character -/
  expands : Char → Bool

variable (lib : Library)

/-- `hostname` of what `urlsplit` returned. -/
def hostname (p : Parts) : List Char :=
  UrlSplit.hostname (fun cs => (lib.lower (String.ofList cs)).toList) p.netloc

/-- There are a scheme and a host. -/
def hasOrigin (p : Parts) : Bool := p.scheme ≠ [] && hostname lib p ≠ []

/-- `_canon_host`. Of the addresses those of IPv6 have a `:`. -/
def canonHost (host : List Char) : List Char :=
  let host := lib.lower (String.ofList host)
  match lib.compressed host with
  | some ip => if ':' ∈ ip.toList then '[' :: ip.toList ++ [']'] else ip.toList
  | none => host.toList

/-- The form of a URL, unless `urlsplit` or `port` raises. -/
def canonicalUrl (v : String) : Option String := do
  let p ← urlsplit lib.expands v.toList
  if !hasOrigin lib p then return v
  let port ← UrlSplit.port p.netloc
  let address := canonHost lib (hostname lib p) ++
    -- `if p.port`: 0 counts as no port
    if port.getD 0 = 0 then [] else ':' :: IpAddress.dec (port.getD 0)
  let netloc := match UrlSplit.userinfo p.netloc with
    | none | some ([], _) => address
    | some (user, password) => user ++ behind ':' password ++ '@' :: address
  return String.ofList (UrlSplit.urlunsplit { p with netloc := netloc })

/-- `norm_indicator`; `none` where it raises. -/
def normIndicator (itype : IndicatorType) (value : String) : Option String :=
  let v := String.ofList (Text.strip value.toList)
  match itype with
  | .ip => some ((lib.compressed v).getD v)
  | .url => canonicalUrl lib v
  | _ => some (lib.lower v)

/-- A value that an indicator of this kind is compared with. -/
structure Dimension where
  kind : IndicatorType
  field : String
  value : String
deriving DecidableEq

/-! ### File hashes -/

/-- `hash_is_complete`; `none` where it raises. -/
def hashIsComplete (fi : Dict) : Option Bool :=
  if !(fi.get "sha256").truthy then some false
  else if !((fi.get "state").str?.any fun state => lib.upper state = "CLOSED") then some false
  else if !((fi.get "gaps").beq (.bool false)) then some false
  else
    match fi.get "start" with
    | .null => some true
    | start =>
      match lib.int start with
      | .ok n => some (n = 0)
      | .error .invalid => some false
      | .error .overflow => none

def isHex (c : Char) : Bool :=
  c.isDigit || (97 ≤ c.toNat && c.toNat ≤ 102) || (65 ≤ c.toNat && c.toNat ≤ 70)

/-- The hashes of a file, under the algorithms whose length they have. -/
def fileHashes (fieldPrefix : String) (fi : Dict) : List Dimension :=
  [("sha256", 64), ("sha1", 40), ("md5", 32)].filterMap fun (alg, length) =>
    (fi.get alg).str?.bind fun raw =>
      if raw.toList.length = length ∧ raw.toList.all isHex then
        some ⟨.hash, fieldPrefix ++ alg, raw⟩
      else none

/-- `hash_dimensions`; `none` where it raises. -/
def hashDimensions (event : Dict) : Option (List Dimension) :=
  if (event.get "type").beq (.str "file") then
    ((event.get? "fields").getD (.obj [])).obj?.bind fun fields =>
      ((fields.get? "file").getD (.obj [])).obj?.map fun fi =>
        if (fi.get "state").str?.any fun s => s = "hashes_only" || s = "bytes_available" then
          fileHashes "file." fi
        else []
  else
    match event.get "fileinfo" with
    | .obj fi => (hashIsComplete lib fi).map fun complete =>
      if complete then fileHashes "fileinfo." fi else []
    | _ => some []

/-! ### All dimensions -/

/-- `obj`: a dictionary, or an empty one. -/
def objOrEmpty (v : Json) : Dict := v.obj?.getD []

/-- `value`: the text, or the `hash` of a dictionary. -/
def valueOf (kind : IndicatorType) (field : String) (raw : Json) : List Dimension :=
  let raw := match raw with
    | .obj ms => Dict.get ms "hash"
    | v => v
  match raw with
  | .str s => if Text.notBlank s then [⟨kind, field, s⟩] else []
  | _ => []

/-- The names in the entries of a DNS record. -/
def rrnames (dns : Dict) (group : String) : List Dimension :=
  ((dns.get group).arr?.getD []).zipIdx.flatMap fun (entry, i) =>
    valueOf .domain s!"dns.{group}.{i}.rrname" ((objOrEmpty entry).get "rrname")

/-- A URL with its scheme and host. -/
def urlOf (field : String) (raw : Json) : List Dimension :=
  match raw with
  | .str s => if (urlsplit lib.expands s.toList).any (hasOrigin lib) then [⟨.url, field, s⟩] else []
  | _ => []

/-- `dimensions`; `none` where it raises. -/
def dimensions (eve : Dict) : Option (List Dimension) :=
  (hashDimensions lib eve).map fun hashes =>
    let tls := objOrEmpty (eve.get "tls")
    let dns := objOrEmpty (eve.get "dns")
    let http := objOrEmpty (eve.get "http")
    hashes ++
      ["src_ip", "dest_ip"].flatMap (fun field => valueOf .ip field (eve.get field)) ++
      valueOf .domain "tls.sni" (tls.get "sni") ++
      [("ja3", IndicatorType.ja3), ("ja3s", .ja3), ("ja4", .ja4), ("ja4s", .ja4),
        ("fingerprint", .cert)].flatMap
          (fun (field, kind) => valueOf kind ("tls." ++ field) (tls.get field)) ++
      valueOf .domain "dns.rrname" (dns.get "rrname") ++
      rrnames dns "queries" ++ rrnames dns "answers" ++
      valueOf .domain "http.hostname" (http.get "hostname") ++
      urlOf lib "http.url" (http.get "url") ++ urlOf lib "url" (eve.get "url")

end ThreatIntel
