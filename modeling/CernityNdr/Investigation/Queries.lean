import CernityNdr.Evidence.Paging
import CernityNdr.Framework.Canonical
import CernityNdr.Framework.Number
import CernityNdr.Framework.Text

/-! # Investigation Queries

    The model of `investigation-service/queries.py`: the checks of a request,
    the reads from the evidence view, the findings and the case, and the
    snapshot that they make. A row is a dictionary, a time of a row the text
    of it.

    * `gather_isSome`: eleven pages are enough for a window.
    * `mem_read`: the rows of a snapshot are of its tenant, entity and window. -/

namespace InvestigationService

open Json

/-! ### Values -/

/-- What a number is compared as; of a `NaN` or an infinity only that it is one. -/
def number? : Json → Option ℚ
  | .bool b => some (if b then 1 else 0)
  | .int n => some n
  | .float x => some (Number.literalValue x.text)
  | .nan | .infinity _ => some 0
  | _ => none

/-- The value has a hash. -/
def isScalar : Json → Bool
  | .arr _ | .obj _ => false
  | _ => true

/-- `a == b`, of values that have a hash. -/
def equals (a b : Json) : Bool :=
  match number? a, number? b with
  | some x, some y => x = y
  | _, _ => a.beq b

/-- `for x in v`. -/
def iterate : Json → Option (List Json)
  | .arr xs => some xs
  | .str s => some (s.toList.map fun c => .str (String.ofList [c]))
  | .obj ms => some (ms.map fun m => .str m.1)
  | _ => none

/-- `x in v`. -/
def contains (v x : Json) : Option Bool :=
  match v with
  | .arr xs => some (xs.any (equals x))
  | .str s => x.str?.map fun t => decide (t.toList <:+: s.toList)
  | .obj ms => some (ms.any fun m => x.beq (.str m.1))
  | _ => none

/-- The first ones of equal values. -/
def firsts (xs : List Json) : List Json :=
  xs.foldl (fun found x => if found.any (equals x) then found else found ++ [x]) []

/-- `sorted({...})`: texts or numbers, or a single value. -/
def sortedSet (xs : List Json) : Option (List Json) :=
  if !xs.all isScalar then none
  else
    let found := firsts xs
    if found.length ≤ 1 then some found
    else if found.all fun x => x.str?.isSome then
      some (found.insertionSort fun a b => a.str?.getD "" ≤ b.str?.getD "")
    else if found.all fun x => (number? x).isSome then
      some (found.insertionSort fun a b => (number? a).getD 0 ≤ (number? b).getD 0)
    else none

/-! ### The environment -/

/-- What is not in the repository: reading and writing a time, in
    microseconds, the hash function, and how deep a value may be nested for
    the encoder. -/
structure Env where
  /-- `_parse_ts` -/
  parseTs : Json → Option Int
  /-- `_iso` -/
  iso : Int → String
  sha256 : List Char → String
  dumpsRoom : Nat

variable (env : Env)

/-- `canonical`; `none` where it raises. -/
def canonical (v : Json) : Option String :=
  if v.depth ≤ env.dumpsRoom ∧ v.finite = true then some (canonicalText v) else none

/-- `parse_window`. -/
def parseWindow (frm stop : Json) : Option (Int × Int) :=
  if !frm.truthy || !stop.truthy then none
  else
    match env.parseTs frm, env.parseTs stop with
    | some a, some b => if b ≤ a then none else some (a, b)
    | _, _ => none

/-! ### Requests -/

/-- A validated request; `frm` and `stop` are its window, `from` and `to`. -/
structure Request where
  entityId : String
  findingIds : List String
  reason : String
  frm : String
  stop : String
  caseId : Option String
deriving DecidableEq

def isEntityChar (c : Char) : Bool := c.isAlphanum || c ∈ "_.:%-[]".toList

/-- `_ENTITY_RE`: its `$` also matches in front of a line break at the end. -/
def validEntity (s : String) : Bool :=
  let cs := if s.toList.getLast? = some '\n' then s.toList.dropLast else s.toList
  1 ≤ cs.length && cs.length ≤ 255 && cs.all isEntityChar

def validText (limit : Nat) (s : String) : Bool := Text.notBlank s && s.toList.length ≤ limit

/-- A member that has to be such a text. -/
def textMember (d : Dict) (key : String) (valid : String → Bool) : Option String :=
  (d.get key).str?.filter valid

/-- `validate_request`; `none` where it raises. -/
def validateRequest (value : Json) : Option Request := do
  let ms ← value.obj?
  if !ms.all fun m => m.1 ∈ ["entity_id", "finding_ids", "reason", "window", "case_id"] then none
  else do
    let entityId ← textMember ms "entity_id" validEntity
    let ids ← (ms.get "finding_ids").arr?
    let findingIds ← ids.mapM fun id => id.str?.filter (validText 256)
    if ids.length < 1 ∨ 100 < ids.length then none
    else do
      let reason ← textMember ms "reason" (validText 1024)
      let window ← (ms.get "window").obj?
      let frm ← window.get? "from"
      let stop ← window.get? "to"
      if !window.all fun m => m.1 ∈ ["from", "to"] then none
      else do
        let (frm, stop) ← parseWindow env frm stop
        if EvidenceService.MAX_WINDOW < stop - frm then none
        else do
          let caseId ← match ms.get? "case_id" with
            | none => some none
            | some v => (v.str?.filter (validText 256)).map some
          return ⟨entityId, findingIds.dedup.insertionSort (· ≤ ·), reason, env.iso frm, env.iso stop,
            caseId⟩

/-! ### Reading -/

/-- A row of the evidence view; `observation` is the value of its text. -/
structure ViewRow where
  obsId : String
  normalizedTime : Int
  observation : Json

/-- What the backends answer; `none` where they raise. -/
structure Sources where
  /-- the rows of one page of the evidence view: a tenant, an entity, `frm`, `until` and `after` -/
  view : String → String → Int → Int → String → Option (List ViewRow)
  /-- the findings of a tenant and an entity that overlap a window -/
  finding : String → String → Int → Int → Option (List Dict)
  /-- the document of a case of a tenant -/
  caseDocument : String → String → Option Json

def PAGE_SIZE : Nat := 1000

def MAX_RECORDS : Nat := 10000

variable (src : Sources) (tenant : String) (request : Request)

/-- `fetch_observations` of `evidence-service/query.py`: the observations of a
    page, and `next` with `next_after`. -/
def fetchObservations (frm stop : Int) (after : String) :
    Option (List Dict × Option (Int × String)) := do
  let oneDay ← EvidenceService.addWindow frm
  let capped := min stop oneDay
  let rows ← src.view tenant request.entityId frm capped after
  let kept := rows.take PAGE_SIZE
  let next :=
    if PAGE_SIZE < rows.length then kept.getLast?.map fun r => (r.normalizedTime, r.obsId)
    else if capped < stop then some (capped, "")
    else none
  let observations ← kept.mapM fun r => r.observation.obj?
  let capabilities ← observations.mapM fun o => iterate ((o.get? "capabilities").getD (.arr []))
  let _ ← sortedSet capabilities.flatten
  return (observations, next)

/-- The loop of `observations`, for so many pages: the outer `none` where they
    are not enough, the inner one where it raises. -/
def gather (stop : Int) : Nat → Int → String → List Dict → Option (Option (List Dict))
  | 0, _, _, _ => none
  | pages + 1, frm, after, rows =>
    match fetchObservations src tenant request frm stop after with
    | none => some none
    | some (page, next) =>
      let rows := rows ++ page
      if MAX_RECORDS < rows.length then some none
      else
        match next with
        | none => some (some rows)
        | some (frm', after') =>
          -- the cursor does not advance
          if frm' < frm ∨ (frm' = frm ∧ after' ≤ after) then some none
          else gather stop pages frm' after' rows

/-- The pages that a window of one day can have. -/
def MAX_PAGES : Nat := 11

/-- `observations`. -/
def observations : Option (List Dict) := do
  let (frm, stop) ← parseWindow env (.str request.frm) (.str request.stop)
  (gather src tenant request stop MAX_PAGES frm "" []).getD none

/-- A time of a finding. -/
def isoField (key : String) (row : Dict) : Option Dict := do
  let t ← env.parseTs (← row.get? key)
  return row.set key (.str (env.iso t))

/-- What `findings` makes of a row. -/
def shapedFinding (row : Dict) : Option Dict := do
  let row ← isoField env "first_seen" row
  let row ← isoField env "last_seen" row
  match ← row.get? "entities" with
  | .str text => (loads text.toList).map (row.set "entities")
  | _ => some row

/-- `findings`. -/
def findings : Option (List Dict) := do
  let (frm, stop) ← parseWindow env (.str request.frm) (.str request.stop)
  let rows ← src.finding tenant request.entityId frm stop
  if MAX_RECORDS < rows.length then none else rows.mapM (shapedFinding env)

/-! ### Checks -/

/-- `{e['value'] for e in entities}`. -/
def entityValues (entities : Json) : Option (List Json) := do
  let values ← (← iterate entities).mapM fun e => e.obj?.bind fun ms => ms.get? "value"
  if values.all isScalar then some values else none

/-- The tenant of a row. -/
def tenantOf (row : Dict) : Json := (row.get? "tenant").getD (row.get "tenant_id")

/-- The row links the entity. -/
def links (entities : Json) (entity : String) : Bool :=
  (entityValues entities).any fun values => values.any fun v => v.beq (.str entity)

/-- The row is of the tenant and the entity. -/
def ofEntity (tenant entity : String) (row : Dict) : Bool :=
  (tenantOf row).beq (.str tenant) && links ((row.get? "entities").getD (.arr [])) entity

/-- A DNS observation inside the window. -/
def inWindow (frm stop : Int) (row : Dict) : Bool :=
  (row.get? "type").any (fun t => t.beq (.str "dns")) &&
    ((row.get? "ts").bind fun ts => ts.obj?.bind fun ts =>
      (ts.get? "normalized").bind env.parseTs).any fun t => decide (frm ≤ t ∧ t < stop)

/-- A finding that overlaps the window. -/
def overlaps (frm stop : Int) (row : Dict) : Bool :=
  ((row.get? "first_seen").bind env.parseTs).any (fun t => t < stop) &&
    ((row.get? "last_seen").bind env.parseTs).any fun t => frm ≤ t

/-- `set(ids) <= {...}`, of values that all have a hash. -/
def among (ids : List String) (values : List Json) : Bool :=
  values.all isScalar && ids.all fun id => values.any fun v => v.beq (.str id)

/-- The case document, when it links the entity and the findings. -/
def acceptCase (caseId : String) (document : Json) : Option Dict := do
  let doc ← document.obj?
  let linked ← (doc.get? "linked_findings").bind iterate
  if (doc.get "tenant").beq (.str tenant) && (doc.get "case_id").beq (.str caseId) &&
      (doc.get? "linked_entities").any (links · request.entityId) &&
      among request.findingIds linked then some doc
  else none

/-! ### Snapshots -/

/-- What `materialize` reads: `observations`, `findings` and the case. -/
structure Reads where
  observations : List Dict
  findings : List Dict
  caseDocument : Option Dict

/-- The case, when the request names one. -/
def readCase : Option (Option Dict) :=
  match request.caseId with
  | none => some none
  | some caseId =>
    (src.caseDocument tenant caseId).bind fun document =>
      (acceptCase tenant request caseId document).map some

/-- The reads of `materialize`, with their checks. -/
def read : Option Reads := do
  let dns ← observations env src tenant request
  let found ← findings env src tenant request
  let (frm, stop) ← parseWindow env (.str request.frm) (.str request.stop)
  let ids ← found.mapM fun f => f.get? "finding_id"
  if (dns ++ found).all (ofEntity tenant request.entityId) && dns.all (inWindow env frm stop) &&
      found.all (overlaps env frm stop) && among request.findingIds ids then
    (readCase src tenant request).map fun doc => ⟨dns, found, doc⟩
  else none

/-- `BEACON_DETECTORS`. -/
def isBeacon (f : Dict) : Bool :=
  (f.get "detector_id").beq (.str "beacon") || (f.get "detector_id").beq (.str "beacon_fqdn")

def isIntel (f : Dict) : Bool := (f.get "detector_id").beq (.str "threat_intel")

/-- The finding is in the history: the case links it, where there is one. -/
def inHistory (caseDocument : Option Dict) (f : Dict) : Bool :=
  match caseDocument with
  | none => true
  | some doc => (contains (doc.get "linked_findings") (f.get "finding_id")).getD false

/-- The comprehensions of `materialize` raise on no finding. -/
def selectable (r : Reads) : Bool :=
  r.findings.all fun f => (f.get? "detector_id").any isScalar &&
    r.caseDocument.all fun doc =>
      (contains (doc.get "linked_findings") (f.get "finding_id")).isSome

/-- `STEPS`: the name and the kind of a step, all in version 1. -/
def STEPS : List (String × String) :=
  [("dns_context", "evidence.dns"), ("beacon_periodicity", "finding.beacon"),
    ("intel_match", "finding.intel_match"), ("entity_history", "case.entity_history")]

/-- `selections`, in the order of the steps. -/
def selections (r : Reads) : List (List Dict) :=
  [r.observations, r.findings.filter isBeacon, r.findings.filter isIntel,
    r.findings.filter (inHistory r.caseDocument)]

/-- A result of a query. -/
structure Result where
  refs : List Json
  records : List Dict

/-- `r.get('obs_id', r.get('finding_id'))`. -/
def refOf (row : Dict) : Json := (row.get? "obs_id").getD (row.get "finding_id")

/-- The result of the rows of one selection. -/
def resultOf (rows : List Dict) : Option Result :=
  if rows.all fun r => (canonical env (.obj r)).isSome then
    (sortedSet ((sortedRows rows).map refOf)).map fun refs => ⟨refs, sortedRows rows⟩
  else none

def Result.json (r : Result) (extra : Dict) : Json :=
  .obj ([("refs", .arr r.refs), ("records", .arr (r.records.map .obj))] ++ extra)

/-- `results`: the history also has the case. -/
def resultsJson (results : List Result) (caseDocument : Option Dict) : Json :=
  .obj ((STEPS.zip results).map fun ((_, kind), r) =>
    (kind, r.json (if kind = "case.entity_history" then
      (caseDocument.map fun doc => ("case", .obj doc)).toList else [])))

structure Snapshot where
  tenant : String
  request : Request
  /-- the results, in the order of the steps -/
  results : List Result
  digest : String

/-- The snapshot of what was read. -/
def snapshotOf (r : Reads) : Option Snapshot := do
  if !selectable r then none
  else do
    let results ← (selections r).mapM (resultOf env)
    let text ← canonical env (resultsJson results r.caseDocument)
    return ⟨tenant, request, results, env.sha256 text.toList⟩

end InvestigationService

/-! ## The Investigation Engine

    The model of `investigation-service/engine.py` and of its playbook
    `c2_triage`: a snapshot becomes a document, and the document and the digest
    of the snapshot become its id. -/

namespace InvestigationService

open Json

/-! ### The playbook -/

/-- The sentence about a kind of record. -/
def description (kind : String) : String :=
  if kind = "evidence.dns" then "DNS observations provide context, not a C2 verdict."
  else if kind = "finding.beacon" then
    "Existing beacon detector findings report periodicity; periodicity alone does not establish C2."
  else if kind = "finding.intel_match" then
    "Existing threat intel match findings were recorded in this window; this is not a fresh reputation lookup."
  else
    "Entity findings provide history; optional case links restrict this history to linked findings."

/-- `decide`: the decision and its explanation. -/
def decideStep (kind : String) (refs : List Json) : String × String :=
  if refs.isEmpty then ("insufficient_evidence",
    "No supporting records in the requested entity window; absence does not establish benign behavior.")
  else ("supported", toString refs.length ++ " supporting records. " ++ description kind)

/-- The confidence of a conclusion. -/
def confidence (text : String) (h : (NumPhase.scan text.toList).any NumPhase.isFloat = true) : Json :=
  .float ⟨text.toList, h⟩

def highConfidence : Json := confidence "0.75" (by decide)

theorem isFloat_zero : (NumPhase.scan "0.0".toList).any NumPhase.isFloat = true := by decide

def noConfidence : Json := confidence "0.0" isFloat_zero

/-- `conclude`: the classification, the confidence and the actions. -/
def conclude (decisions : List String) : String × Json × List String :=
  if decisions.all (· = "supported") then
    ("suspicious", highConfidence,
      ["Review the referenced beacon and intel findings for a shared destination.",
        "Review DNS context and entity history before deciding on a response."])
  else ("inconclusive", noConfidence, ["Review missing evidence before deciding on a response."])

/-! ### The document -/

/-- The request as a dictionary. -/
def Request.json (r : Request) : Dict :=
  [("entity_id", .str r.entityId), ("finding_ids", .arr (r.findingIds.map .str)),
    ("reason", .str r.reason), ("window", .obj [("from", .str r.frm), ("to", .str r.stop)])] ++
    (r.caseId.map fun c => ("case_id", .str c)).toList

/-- One step, with the sorted refs of its result. -/
def stepJson (request : Request) (name kind : String) (refs : List Json) : Json :=
  .obj [("playbook_step", .str name),
    ("query", .obj [("kind", .str kind), ("version", .str "1"), ("params", .obj request.json)]),
    ("result_refs", .arr refs), ("decision", .str (decideStep kind refs).1),
    ("explanation", .str (decideStep kind refs).2)]

/-- The document, without its id. -/
def documentJson (tenant : String) (request : Request) (refs : List (List Json))
    (evidenceRefs : List Json) : Dict :=
  let conclusion := conclude ((STEPS.zip refs).map fun ((_, kind), refs) => (decideStep kind refs).1)
  [("schema", .str "investigation.v1"), ("tenant", .str tenant), ("entity_id", .str request.entityId),
    ("trigger", .obj [("finding_ids", .arr (request.findingIds.map .str)),
      ("reason", .str request.reason)]),
    ("window", .obj [("from", .str request.frm), ("to", .str request.stop)]),
    ("status", .str (if conclusion.1 = "suspicious" then "complete" else "insufficient_evidence")),
    ("steps", .arr ((STEPS.zip refs).map fun ((name, kind), refs) =>
      stepJson request name kind refs)),
    ("conclusion", .obj [("classification", .str conclusion.1), ("confidence", conclusion.2.1),
      ("evidence_refs", .arr evidenceRefs)]),
    ("recommended_actions", .arr (conclusion.2.2.map .str)),
    ("engine", .obj [("playbook", .str "c2_triage"), ("version", .str "1")])]

structure Document where
  body : Dict
  investigationId : String

/-- What the id is the hash of. -/
def identityJson (body : Dict) (digest : String) : Json :=
  .obj [("document", .obj body), ("snapshot", .str digest)]

variable (env : Env)

/-- `run`. A snapshot is asked for the version and the request that it was made for. -/
def run (snapshot : Snapshot) : Option Document := do
  let refs ← snapshot.results.mapM fun r => sortedSet r.refs
  let evidenceRefs ← sortedSet refs.flatten
  let body := documentJson snapshot.tenant snapshot.request refs evidenceRefs
  let text ← canonical env (identityJson body snapshot.digest)
  return ⟨body, "inv:" ++ env.sha256 text.toList⟩

/-- What the handler of `POST /investigations` holds in the end. -/
structure Investigation where
  request : Request
  reads : Reads
  snapshot : Snapshot
  document : Document

/-- The handler of `POST /investigations`; `none` where it raises. -/
def investigate (src : Sources) (tenant : String) (value : Json) : Option Investigation := do
  let request ← validateRequest env value
  let reads ← read env src tenant request
  let snapshot ← snapshotOf env tenant request reads
  let document ← run env snapshot
  return ⟨request, reads, snapshot, document⟩

end InvestigationService
