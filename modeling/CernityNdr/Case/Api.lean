import CernityNdr.Case.Documents
import CernityNdr.Framework.Affix
import CernityNdr.Framework.Mutex
import CernityNdr.Framework.Number

/-! # The Case API

    The model of `make_case_handler` of `finding-service/app.py` over
    `CaseStore` of `store.py`: one thread for each request, a configured
    session for each token, and the documents of the cases as JSON text in
    the rows of one table. `create` and `mutate` hold the lock of the store
    while they run; everything before that depends on the request alone.

    The audit trail of a case is a hash chain: `audited` writes into the
    last event the digest of the document before and after (`Chained`).

    * `audit_hash_chain`: over every interleaving of requests.

    Whether an answer reaches its client is not modelled. -/

namespace CaseApi

open Json

/-! ### Answers -/

/-- Why a request is refused. -/
inductive Refusal
  | unauthorized
  | readOnly
  | notFound
  /-- a `ValueError` -/
  | invalid
  | conflict
  /-- any other exception -/
  | unavailable
deriving DecidableEq, Repr

/-- What `send_json` is called with. -/
structure Answer where
  code : Nat
  body : Json

def Refusal.code : Refusal → Nat
  | unauthorized => 401
  | readOnly => 403
  | notFound => 404
  | invalid => 400
  | conflict => 409
  | unavailable => 503

def Refusal.text : Refusal → String
  | unauthorized => "unauthorized"
  | readOnly => "read only"
  | notFound => "not found"
  | invalid => "invalid case request"
  | conflict => "case already exists"
  | unavailable => "case API unavailable"

def Refusal.answer (r : Refusal) : Answer := ⟨r.code, .obj [("error", .str r.text)]⟩

/-! ### Requests -/

inductive Method
  | get | post | delete
deriving DecidableEq, Repr

inductive Body
  | json (v : Json)
  /-- no JSON, or no text -/
  | malformed
  /-- reading or decoding it raises something else -/
  | failed

structure Request where
  command : Method
  /-- the header `Authorization`, or the empty text -/
  authorization : String
  /-- the path and the query; `none` where taking them apart raises -/
  target : Option (List Char × List (String × List String))
  /-- the headers `Content-Length` -/
  contentLength : List String
  /-- there is a header `Transfer-Encoding` -/
  transferEncoding : Bool
  body : Body
  now : ℚ
  /-- the same instant in ISO format -/
  ts : String
  /-- fresh identifiers -/
  caseId : String
  auditId : String
  requestId : String
  source : String

structure Session where
  tenant : String
  analyst : String
  caseWrite : Json

/-- `string`. -/
def string (value : Json) (maximum : Nat) : Except Refusal String :=
  match value with
  | .str s => if Text.notBlank s && s.length ≤ maximum then .ok s else .error .invalid
  | _ => .error .invalid

/-- `string`, nullable. -/
def nullableString (value : Json) (maximum : Nat) : Except Refusal Json :=
  match value with
  | .null => .ok .null
  | v => (string v maximum).map .str

/-- `math.isfinite` raises for an integer that is no float. -/
def fitsFloat : Number → Bool
  | .int n => n.natAbs < 2 ^ 1024 - 2 ^ 970
  | .float _ => true

/-- The tenant and the analyst of a session. -/
def identity (session : Dict) : Except Refusal Session := do
  let tenant ← string (session.get "tenant") 256
  let analyst ← string (session.get "analyst") 256
  pure ⟨tenant, analyst, session.get "case_write"⟩

/-- A session that has not expired. -/
def live (session : Dict) (now : ℚ) : Except Refusal Session :=
  match Number.ofJson (session.get "expires_at") with
  | none => .error .unauthorized
  | some expiry =>
    if !fitsFloat expiry then .error .unavailable
    else if expiry.value ≤ now then .error .unauthorized
    else (identity session).mapError fun _ => .unauthorized

/-- The session of a token. -/
def authenticate (sessions : Dict) (r : Request) : Except Refusal Session :=
  if r.authorization.startsWith "Bearer " then
    match sessions.get (String.ofList (r.authorization.toList.drop 7)) with
    | .obj session => live session r.now
    | _ => .error .unauthorized
  else .error .unauthorized

/-! ### The trail -/

section Trail

variable (sha256 : List Char → String)

/-- `digest`. -/
def digest (doc : Dict) : String :=
  sha256 (dumps (sortKeys
    (if doc.isEmpty then .null else .obj (doc.filter fun m => m.1 ≠ "audit"))))

/-- `d.update(...)`. -/
def update (d other : Dict) : Dict := other.foldl (fun d m => d.set m.1 m.2) d

/-- What `audited` writes into the detail of the last event. -/
def completion (session : Session) (r : Request) (before after : Dict) : Dict :=
  [("audit_id", .str r.auditId),
   ("tenant", .str session.tenant),
   ("resource_type", .str "case"),
   ("resource_id", after.get "case_id"),
   ("before_hash", .str (digest sha256 before)),
   ("after_hash", .str (digest sha256 after)),
   ("request_id", .str r.requestId),
   ("source_ip", .str r.source),
   ("outcome", .str "success")]

/-- `event.setdefault('detail', {})`. -/
def detailOf (event : Dict) : Dict :=
  match event.get? "detail" with
  | some (.obj d) => d
  | _ => []

/-- An event with its completed detail. -/
def completed (detail : Dict) (event : Json) : Json :=
  match event with
  | .obj e => .obj (Dict.set e "detail" (.obj (update (detailOf e) detail)))
  | v => v

/-- A request that the operation recorded nothing of. -/
def withNoop (session : Session) (r : Request) (event : String) (after : Dict) : Dict :=
  (after.set "updated" (.str r.ts)).set "audit" (.arr (items after "audit" ++
    [.obj (auditEvent event session.analyst r.ts [("noop", .bool true)])]))

/-- What the operation left, with the event of a no-op. -/
def recorded (session : Session) (r : Request) (before after : Dict) (event : String) : Dict :=
  if (items after "audit").length = (items before "audit").length then
    withNoop session r event after
  else after

/-- Complete the last event. -/
def sealLast (session : Session) (r : Request) (before after : Dict) : Dict :=
  match (items after "audit").getLast? with
  | none => after
  | some event => after.set "audit" (.arr ((items after "audit").dropLast ++
      [completed (completion sha256 session r before after) event]))

/-- `audited`. -/
def audited (session : Session) (r : Request) (before after : Dict) (event : String) : Dict :=
  sealLast sha256 session r before (recorded session r before after event)

end Trail

/-! ### Routes -/

/-- The mutation routes. -/
inductive Route
  | owner | assign | unassign | note | status | linkFinding | unlinkFinding | linkEntity
  | unlinkEntity
deriving DecidableEq, Repr

def routes : List ((Method × String) × Route) :=
  [((.post, "owner"), .owner),
   ((.post, "assign"), .assign),
   ((.delete, "assign"), .unassign),
   ((.post, "notes"), .note),
   ((.post, "status"), .status),
   ((.post, "findings"), .linkFinding),
   ((.delete, "findings"), .unlinkFinding),
   ((.post, "entities"), .linkEntity),
   ((.delete, "entities"), .unlinkEntity)]

namespace Route

def field : Route → String
  | owner => "owner"
  | assign | unassign => "assignee"
  | note => "text"
  | status => "status"
  | linkFinding | unlinkFinding => "finding_id"
  | linkEntity | unlinkEntity => "entity"

def event : Route → String
  | owner => "owner_changed"
  | assign => "assignee_added"
  | unassign => "assignee_removed"
  | note => "note_added"
  | status => "status_changed"
  | linkFinding => "finding_linked"
  | unlinkFinding => "finding_unlinked"
  | linkEntity => "entity_linked"
  | unlinkEntity => "entity_unlinked"

/-- The operation of the route; `none` where it raises `ValueError`. -/
def apply (route : Route) (doc : Dict) (value : Json) (actor ts : String) : Option Dict :=
  match route with
  | owner => some (changeOwner doc value actor ts)
  | assign => some (CaseApi.assign doc value actor ts)
  | unassign => some (CaseApi.unassign doc value actor ts)
  | note => some (addNote doc actor value ts)
  | status => transition doc value actor ts
  | linkFinding => some (CaseApi.linkFinding doc value actor ts)
  | unlinkFinding => some (CaseApi.unlinkFinding doc value actor ts)
  | linkEntity => some (CaseApi.linkEntity doc value actor ts)
  | unlinkEntity => some (CaseApi.unlinkEntity doc value actor ts)

end Route

/-- `set(d) == set(keys)`. -/
def keysAre (d : Dict) (keys : List String) : Bool :=
  d.all (fun m => m.1 ∈ keys) && keys.all fun key => (d.get? key).isSome

/-- A dictionary without repeated members. -/
def distinct : Json → Json
  | .obj ms => .obj (update [] ms)
  | v => v

/-- The value of a mutation. -/
def checked (route : Route) (value : Json) : Except Refusal Json :=
  match route.field with
  | "entity" =>
    match value with
    | .obj e =>
      if keysAre e ["type", "value"] &&
          ["ip", "hostname", "domain", "asset"].any fun t => (Dict.get e "type").beq (.str t) then
        (string (Dict.get e "value") 512).map fun _ => distinct value
      else .error .invalid
    | _ => .error .invalid
  | "text" => (string value 8192).map .str
  | "owner" => nullableString value 256
  | _ => (string value 256).map .str

/-! ### What a request asks of the store -/

inductive Command
  | list (limit offset : Nat) (filters : List (String × String))
  | get (caseId : String)
  | create (doc : Dict)
  | mutate (caseId : String) (route : Route) (value : Json)

/-- `parts`. -/
def partsOf (path : List Char) : List String :=
  ((Affix.strip '/' path).splitOn '/').map String.ofList

/-- The query is unsupported. -/
def refusesQuery (r : Request) (parts : List String) (query : List (String × List String)) : Bool :=
  let allowed := if parts = ["cases"] && r.command = .get then
    ["owner", "status", "limit", "offset"] else []
  query.any fun q => q.1 ∉ allowed || q.2.length ≠ 1

/-- The value of a query parameter. -/
def parameter (query : List (String × List String)) (key : String) : Option String :=
  (query.find? fun q => q.1 = key).bind fun q => q.2.head?

section Command

variable (sha256 : List Char → String) (int : String → Option Int)

/-- The filters of a listing. -/
def filters (query : List (String × List String)) : Except Refusal (List (String × String)) :=
  (["owner", "status"].filterMap fun field => (parameter query field).map fun v => (field, v)).mapM
    fun (field, value) => do
      let value ← string (.str value) 256
      if field = "status" ∧ value ∉ ["new", "investigating", "resolved", "closed"] then
        throw .invalid
      pure (field, value)

/-- `GET`. -/
def reading (parts : List String) (query : List (String × List String)) :
    Except Refusal Command :=
  match parts with
  | [_] =>
    match int ((parameter query "limit").getD "50"), int ((parameter query "offset").getD "0") with
    | some limit, some offset =>
      if 1 ≤ limit ∧ limit ≤ 200 ∧ 0 ≤ offset ∧ offset ≤ 1000000 then
        (filters query).map fun fs => .list limit.toNat offset.toNat fs
      else .error .invalid
    | _, _ => .error .invalid
  | [_, caseId] => .ok (.get caseId)
  | _ => .error .notFound

/-- The object that the body holds. -/
def payload (r : Request) : Except Refusal Dict :=
  match r.contentLength with
  | [text] =>
    match int text with
    | none => .error .invalid
    | some length =>
      if r.transferEncoding || !(0 < length && length ≤ 65536) then .error .invalid
      else
        match r.body with
        | .json (.obj ms) => .ok ms
        | .json _ => .error .invalid
        | .malformed => .error .invalid
        | .failed => .error .unavailable
  | _ => .error .invalid

/-- `POST /cases`. -/
def creation (session : Session) (r : Request) (payload : Dict) : Except Refusal Command :=
  if payload.all (fun m => m.1 ∈ ["title", "owner"]) && (payload.get? "title").isSome then do
    let title ← string (payload.get "title") 1024
    let owner ← nullableString (payload.getD "owner" (.str session.analyst)) 256
    pure (.create (audited sha256 session r [("audit", .arr [])]
      (newCase r.caseId session.tenant title owner session.analyst r.ts) "created"))
  else .error .invalid

/-- A mutation route. -/
def mutation (r : Request) (parts : List String) (payload : Dict) : Except Refusal Command :=
  match parts with
  | [_, caseId, name] =>
    match (routes.find? fun entry => entry.1 = (r.command, name)).map Prod.snd with
    | none => .error .notFound
    | some route =>
      if keysAre payload [route.field] then
        (checked route (payload.get route.field)).map fun value => .mutate caseId route value
      else .error .invalid
  | _ => .error .notFound

/-- A request that writes. -/
def writing (session : Session) (r : Request) (parts : List String) : Except Refusal Command := do
  let ms ← payload int r
  if parts.length = 1 ∧ r.command = .post then creation sha256 session r ms
  else mutation r parts ms

/-- What `handle_case` does before it takes the lock. -/
def command (session : Session) (r : Request) : Except Refusal Command :=
  if r.command ≠ .get && !session.caseWrite.beq (.bool true) then .error .readOnly
  else
    match r.target with
    | none => .error .invalid
    | some (path, query) =>
      let parts := partsOf path
      if refusesQuery r parts query then .error .invalid
      else if parts.head? ≠ some "cases" || 3 < parts.length then .error .notFound
      else if r.command = .get then reading int parts query
      else writing sha256 int session r parts

end Command

/-! ### The store -/

/-- A row of `cases`: the document is text. -/
structure Row where
  caseId : String
  tenant : String
  doc : List Char
deriving DecidableEq, Repr

abbrev Rows := Registry Row.caseId

instance : DecidableEq Rows := fun rows rows' =>
  decidable_of_iff (rows.vals = rows'.vals) ⟨Registry.ext_vals, congrArg Registry.vals⟩

/-- The document of a row. -/
def Row.load (row : Row) : Option Dict := (loads row.doc).bind obj?

/-- The row that `create` inserts. -/
def rowOf (doc : Dict) : Row where
  caseId := ((doc.get "case_id").str?).getD ""
  tenant := ((doc.get "tenant").str?).getD ""
  doc := dumps (.obj doc)

/-- What a thread does under the lock of the store. -/
inductive Task
  | queued (session : Session) (r : Request) (c : Command)
  /-- in `mutate`, behind the function that it applies -/
  | loaded (session : Session) (row : Row) (new : Dict)

section Handler

variable (sha256 : List Char → String) (int : String → Option Int) (sessions : Dict)

/-- The function that a mutation route passes to `mutate`. -/
def mutate (session : Session) (r : Request) (route : Route) (value : Json) (doc : Dict) :
    Option Dict :=
  (route.apply doc value session.analyst r.ts).map fun changed =>
    audited sha256 session r doc changed route.event

/-- A row that the listing selects. -/
def selected (tenant : String) (filters : List (String × String)) (row : Row) : Bool :=
  row.tenant = tenant && filters.all fun f =>
    (row.load.bind fun doc => doc.get? f.1).any fun v => v.beq (.str f.2)

/-- A page of the listing, in the order of the identifiers. -/
def page (tenant : String) (limit offset : Nat) (filters : List (String × String)) (rows : Rows) :
    Json :=
  let found := ((rows.vals.filter (selected tenant filters)).insertionSort
    fun a b => a.caseId ≤ b.caseId).drop offset
  .obj [("cases", .arr ((found.take limit).filterMap fun row => row.load.map .obj)),
    ("limit", .int limit), ("offset", .int offset),
    ("next_offset", if limit < found.length then .int (offset + limit) else .null)]

/-- The row that a session may see. -/
def granted (session : Session) (caseId : String) (rows : Rows) : Option Row :=
  (rows.get? caseId).filter fun row => row.tenant = session.tenant

/-- One step of a thread that has the lock. `fails` says that the statement
    of the step raises; a transaction that raises is rolled back. -/
def handle (task : Task) (fails : Bool) (rows : Rows) : Rows × (Task ⊕ Answer) :=
  if fails then (rows, .inr Refusal.unavailable.answer)
  else
    match task with
    | .queued session _ (.list limit offset filters) =>
      (rows, .inr ⟨200, page session.tenant limit offset filters rows⟩)
    | .queued session _ (.get caseId) =>
      match (granted session caseId rows).bind Row.load with
      | none => (rows, .inr Refusal.notFound.answer)
      | some doc => (rows, .inr ⟨200, .obj doc⟩)
    | .queued _ _ (.create doc) =>
      match rows.get? (rowOf doc).caseId with
      | some _ => (rows, .inr Refusal.conflict.answer)
      | none => (rows.put (rowOf doc), .inr ⟨201, .obj doc⟩)
    | .queued session r (.mutate caseId route value) =>
      match granted session caseId rows with
      | none => (rows, .inr Refusal.notFound.answer)
      | some row =>
        match row.load with
        | none => (rows, .inr Refusal.unavailable.answer)
        | some doc =>
          match mutate sha256 session r route value doc with
          | none => (rows, .inr Refusal.invalid.answer)
          | some new =>
            -- the tenant of a case never changes
            if (new.get "tenant").beq (.str row.tenant) then
              (rows, .inl (.loaded session row new))
            else (rows, .inr Refusal.invalid.answer)
    | .loaded _ row new =>
      (rows.put { row with doc := dumps (.obj new) }, .inr ⟨200, .obj new⟩)

/-- `handle_case`, up to the lock. -/
def start (r : Request) : Task ⊕ Answer :=
  match authenticate sessions r with
  | .error e => .inr e.answer
  | .ok session =>
    match command sha256 int session r with
    | .error e => .inr e.answer
    | .ok c => .inl (.queued session r c)

end Handler

end CaseApi
