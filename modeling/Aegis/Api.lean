import Aegis.Access
import Aegis.IncidentSignals
import Aegis.Loads
import Aegis.PauseControl
import Aegis.PolicyChanges
import Aegis.PostIncident

namespace Aegis

open Raising Proc StepPath

/-- What the API takes from its process. `hmacSha256` gives the hexadecimal digest of a body under
a secret. -/
structure ApiPorts (World : Type) extends WorkerPorts World where
  jwt : JwtModule
  jwtSecret : String
  webhookSecret : String
  awsEndpoint : String
  hmacSha256 : (secret body : String) → String
  toFloat : List Char → Option FloatText

/-- `build_event_publisher` makes none without an endpoint. -/
def ApiPorts.hasPublisher {World : Type} (ports : ApiPorts World) : Bool :=
  strip ports.awsEndpoint ≠ ""

structure ListIncidentsQuery where
  state : Option IncidentState
  severity : Option Severity
  affectedService : Option String
  ownerId : Option Uuid
  createdAfter : Option Instant
  createdBefore : Option Instant

/-- A call of a route under `/policy/rules`. -/
inductive PolicyCall where
  | list
  | get (ruleId : Uuid)
  | create (toolName actionClass scope : String) (allowed : Bool) (reason : String)
  | update (ruleId : Uuid) (change : RuleChange)
  | delete (ruleId : Uuid)

/-- A call of a route that asks for a token, with its parsed path, query and body. -/
inductive ApiCall where
  | createIncident (command : CreateIncidentCommand)
  | listIncidents (query : ListIncidentsQuery)
  | getIncident (incidentId : Uuid)
  | control (incidentId : Uuid) (call : ControlCall)
  | getInvestigation (incidentId : Uuid)
  | addEvidence (incidentId : Uuid) (summary contentRef : String)
  | getReport (incidentId : Uuid)
  | policy (call : PolicyCall)

def ControlCall.permission : ControlCall → Permission
  | .pause => .controlInvestigation
  | .resume => .controlInvestigation
  | .review _ => .reviewRca
  | .transition _ => .transitionIncident

/-- The permission that the route of a call requires. -/
def ApiCall.permission : ApiCall → Option Permission
  | .createIncident _ => some .createIncident
  | .listIncidents _ => none
  | .getIncident _ => none
  | .control _ call => some call.permission
  | .getInvestigation _ => some .viewInvestigation
  | .addEvidence _ _ _ => some .addEvidence
  | .getReport _ => some .viewInvestigation
  | .policy _ => some .managePolicy

/-- `Field(min_length=low, max_length=high)` -/
def lengthWithin (low high : Nat) (text : String) : Bool := low ≤ text.length && text.length ≤ high

def RuleChange.wellFormed (change : RuleChange) : Bool :=
  change.toolName.all (lengthWithin 1 128) && change.scope.all (lengthWithin 1 255) &&
    change.reason.all (lengthWithin 0 255)

def AmendRcaCommand.wellFormed (command : AmendRcaCommand) : Bool :=
  command.summary ≠ "" && command.rootCause ≠ "" && (0 ≤ command.confidence && command.confidence ≤ 1) &&
    (command.status = "confirmed" || command.status = "hypothesis")

/-- The bounds that the request schemas set. -/
def ApiCall.wellFormed : ApiCall → Bool
  | .createIncident command =>
    lengthWithin 1 512 command.title && lengthWithin 1 255 command.affectedService
  | .control _ (.review (.amend command)) => command.wellFormed
  | .addEvidence _ summary contentRef => lengthWithin 1 800 summary && lengthWithin 0 1024 contentRef
  | .policy (.create toolName _ scope _ reason) =>
    lengthWithin 1 128 toolName && lengthWithin 1 255 scope && lengthWithin 0 255 reason
  | .policy (.update _ change) => change.wellFormed
  | _ => true

/-- A request: a call with its `Authorization` header, or a signed webhook body. The id of a
request is its `X-Request-ID`. -/
inductive ApiRequest where
  | call (header : Option Credentials) (call : ApiCall) (requestId : String)
  | signal (signature body requestId : String)

inductive ApiReply where
  | incident (incident : Incident)
  | incidents (incidents : List Incident)
  | progress (view : ProgressView)
  | evidence (row : Evidence)
  | report (report : PostIncidentReport)
  | rule (rule : PolicyRule)
  | rules (rules : List PolicyRule)
  | deleted
  | signal (incident : Incident) (created : Bool)

/-- Why a request fails: its caller, its body, or an exception of its use case. -/
inductive ApiFault where
  | access (fault : AccessFault)
  | body
  | raised (raised : Raised)

/-- The tables with the API process that serves them. -/
structure Server (World : Type) where
  worker : Worker World
  changes : List PolicyRuleChange

/-- An answer with what it leaves, and the events that its buffer holds after the commit. -/
structure ServedCall (World : Type) where
  answer : Except ApiFault ApiReply
  server : Server World
  events : List DomainEvent

section Signals

/-- A text field of a request body. -/
def boundedText (fields : Fields) (key : String) (low high : Nat) : Option String :=
  match fields.lookup key with
  | some (.str text) => if lengthWithin low high text then some text else none
  | _ => none

/-- A text field that may be left out or null. -/
def optionalBounded (fields : Fields) (key : String) (high : Nat) : Option (Option String) :=
  match fields.lookup key with
  | none => some none
  | some .none => some none
  | some (.str text) => if lengthWithin 0 high text then some (some text) else none
  | some _ => none

def parseSeverity (value : String) : Option Severity :=
  [.critical, .high, .medium, .low].find? fun severity => severity.value = value

def signalKeys : List String :=
  ["source", "service", "title", "severity", "summary", "scenario", "fingerprint"]

/-- `IncidentSignalRequest` of a JSON object. -/
def incidentSignalRequest (fields : Fields) : Option IngestIncidentSignalCommand :=
  if fields.all fun field => field.1 ∈ signalKeys then do
    let source ← boundedText fields "source" 1 64
    let service ← boundedText fields "service" 1 255
    let title ← boundedText fields "title" 1 512
    let severityText ← boundedText fields "severity" 0 8
    let severity ← parseSeverity severityText
    let summary ← optionalBounded fields "summary" 2048
    let scenario ← optionalBounded fields "scenario" 64
    let fingerprint ← optionalBounded fields "fingerprint" 128
    pure { source, service, title, severity, summary, scenario, fingerprint }
  else none

/-- `IncidentSignalRequest.model_validate_json` -/
def parseSignal (toFloat : List Char → Option FloatText) (body : String) :
    Except ApiFault IngestIncidentSignalCommand :=
  match loads toFloat body with
  | some (.obj fields) =>
    match incidentSignalRequest fields with
    | some command => .ok command
    | none => .error .body
  | _ => .error .body

/-- `compute_signature` -/
def computeSignature (hmacSha256 : (secret body : String) → String) (secret body : String) : String :=
  "sha256=" ++ hmacSha256 secret body

/-- `verify_signature`; an empty header stands for a missing one. -/
def verifySignature (hmacSha256 : (secret body : String) → String) (secret body provided : String) :
    Bool :=
  if secret = "" ∨ provided = "" then false
  else computeSignature hmacSha256 secret body = strip provided

/-- `require_webhook_signature` -/
def requireWebhookSignature (hmacSha256 : (secret body : String) → String)
    (webhookSecret body signature : String) : Except AccessFault Unit :=
  if strip webhookSecret = "" then
    .error (.notConfigured
      "Webhook is not configured. Set AEGIS_WEBHOOK_SECRET (never hardcode secrets).")
  else if verifySignature hmacSha256 webhookSecret body signature then .ok ()
  else .error (.unauthenticated "Invalid webhook signature.")

end Signals

section Calls

variable {World : Type} (ports : ApiPorts World)

def ListIncidentsQuery.selects (query : ListIncidentsQuery) (row : Incident) : Bool :=
  query.state.all (row.state = ·) && query.severity.all (row.severity = ·) &&
    query.affectedService.all (row.affectedService.text = ·) &&
    query.ownerId.all (row.ownerId = some ·) && query.createdAfter.all (· ≤ row.createdAt) &&
    query.createdBefore.all (row.createdAt ≤ ·)

/-- `SqlAlchemyIncidentRepository.list` -/
def listIncidents (query : ListIncidentsQuery) (db : Db) : List Incident :=
  ((db.incidents.filter query.selects).insertionSort fun a b => b.createdAt ≤ a.createdAt).map
    toDomain

/-- `RecordEvidence.execute` of a manual note. -/
def addManualEvidence (incidentId : Uuid) (summary contentRef : String) :
    Proc (Session World) Raised Evidence := do
  let id ← sessionDraw ports.uuid4
  let collectedAt ← sessionDraw ports.now
  let note ← fromExcept
    (Evidence.new id incidentId .manual .note contentRef summary [("tool", .str "manual")]
      collectedAt)
  let prepared ← fromExcept (prepareEvidence ports.services.redact note)
  addEvidence ports.toWorkerPorts prepared
  pure prepared

/-- What the repositories of a session return. -/
def reportStores (order : StepOrder) (db : Db) : ReportStores where
  incidents id := (db.incidents.find? fun row => row.id = id).map toDomain
  evidence id := db.evidence.filter fun row => row.incidentId = id
  rca id := reportsOf id db
  progress id := progressOf order id db
  notifications id := db.notifications.filter fun row => row.incidentId = id

def ControlAnswer.reply : ControlAnswer → ApiReply
  | ControlAnswer.progress view => ApiReply.progress view
  | ControlAnswer.incident changed => ApiReply.incident changed

/-- The use case behind a route, with the event it puts in the buffer of the request. -/
def incidentCall (requestId : String) :
    ApiCall → Proc (Session World) Raised (ApiReply × List DomainEvent)
  | .createIncident command => do
    let (incident, event) ← createIncident ports.toWorkerPorts command requestId
    pure (.incident incident, [event])
  | .listIncidents query => do
    let incidents ← select ports.toWorkerPorts (listIncidents query)
    pure (.incidents incidents, [])
  | .getIncident incidentId => do
    let incident ← requireIncident ports.toWorkerPorts incidentId
    pure (.incident incident, [])
  | .control incidentId call => do
    let answer ← control ports.toWorkerPorts incidentId call
    pure (answer.reply, [])
  | .getInvestigation incidentId => do
    let view ← getProgress ports.toWorkerPorts incidentId
    pure (.progress view, [])
  | .addEvidence incidentId summary contentRef => do
    let _view ← getProgress ports.toWorkerPorts incidentId
    let row ← addManualEvidence ports incidentId summary contentRef
    pure (.evidence row, [])
  | .getReport incidentId => do
    let order ← sessionDraw ports.stepOrder
    let stores ← select ports.toWorkerPorts (reportStores order)
    let report ← fromExcept (buildPostIncidentReport
      (fun text => (ports.services.redact text).text) stores incidentId)
    pure (.report report, [])
  | .policy _ => raise (.other "not a call of the incident repositories")

/-- The ports of a worker that the policy repository uses. -/
def policyPorts (ports : WorkerPorts World) : PolicyPorts World :=
  ⟨ports.now, ports.uuid4, ports.statement⟩

/-- The use case behind a route under `/policy/rules`. -/
def policyCall (actor : String) : PolicyCall → Proc (PolicySession World) Raised ApiReply
  | .list => do
    policyStatement (policyPorts ports.toWorkerPorts)
    let rules ← read fun s => listRules s.tables.rules
    pure (.rules rules)
  | .get ruleId => do
    let rule ← requireRule (policyPorts ports.toWorkerPorts) ruleId
    pure (.rule rule)
  | .create toolName actionClass scope allowed reason => do
    let rule ← manageCreate (policyPorts ports.toWorkerPorts) actor toolName actionClass scope
      allowed reason
    pure (.rule rule)
  | .update ruleId change => do
    let rule ← manageUpdate (policyPorts ports.toWorkerPorts) ruleId actor change
    pure (.rule rule)
  | .delete ruleId => do
    manageDelete (policyPorts ports.toWorkerPorts) ruleId actor
    pure .deleted

/-- A session on the policy tables. -/
def Server.policySession (server : Server World) : PolicySession World :=
  ⟨⟨server.worker.db.policyRules, server.changes⟩, [], server.worker.process.world⟩

/-- The process after a policy request: the last rule list it published is the cached one, whether
or not the request was committed. -/
def Server.afterPolicy (server : Server World) (s : PolicySession World) : Process World :=
  { server.worker.process with
    world := s.world
    cache := (s.published.getLast?.map (replacePolicyRules ports.services.digest)).getD
      server.worker.process.cache }

/-- A request about incidents in its own session. -/
def serveIncident (requestId : String) (call : ApiCall) (server : Server World) : ServedCall World :=
  match inSession ports.toWorkerPorts (incidentCall ports requestId call) server.worker with
  | (.ok (reply, events), worker) => ⟨.ok reply, { server with worker }, events⟩
  | (.error raised, worker) => ⟨.error (.raised raised), { server with worker }, []⟩

/-- A request about policy rules in its own session. -/
def servePolicy (actor : String) (call : PolicyCall) (server : Server World) : ServedCall World :=
  match (policyCall ports actor call >>= fun reply =>
      policyStatement (policyPorts ports.toWorkerPorts) >>= fun _ => pure reply)
      server.policySession with
  | (.ok reply, s) =>
    ⟨.ok reply, ⟨⟨{ server.worker.db with policyRules := s.tables.rules },
      server.afterPolicy ports s⟩, s.tables.changes⟩, []⟩
  | (.error raised, s) =>
    ⟨.error (.raised raised), ⟨⟨server.worker.db, server.afterPolicy ports s⟩, server.changes⟩, []⟩

/-- A webhook signal in its own session. -/
def serveSignal (requestId : String) (command : IngestIncidentSignalCommand)
    (server : Server World) : ServedCall World :=
  match inSession ports.toWorkerPorts (ingestIncidentSignal ports.toWorkerPorts command requestId)
      server.worker with
  | (.ok result, worker) =>
    ⟨.ok (.signal result.incident result.created), { server with worker }, result.published.toList⟩
  | (.error raised, worker) => ⟨.error (.raised raised), { server with worker }, []⟩

/-- A call by a caller that may make it. -/
def serveCall (user : TokenPayload) (requestId : String) (call : ApiCall) (server : Server World) :
    ServedCall World :=
  match call with
  | .policy policy => servePolicy ports user.subject policy server
  | call => serveIncident ports requestId call server

/-- A request of the API, whose token is checked at the moment `now`. -/
def serve (now : Instant) (request : ApiRequest) (server : Server World) : ServedCall World :=
  match request with
  | .call header call requestId =>
    match authorize ports.lower ports.jwt ports.jwtSecret call.permission header now with
    | .error fault => ⟨.error (.access fault), server, []⟩
    | .ok user =>
      if call.wellFormed then serveCall ports user requestId call server
      else ⟨.error .body, server, []⟩
  | .signal signature body requestId =>
    match requireWebhookSignature ports.hmacSha256 ports.webhookSecret body signature with
    | .error fault => ⟨.error (.access fault), server, []⟩
    | .ok _ =>
      match parseSignal ports.toFloat body with
      | .error fault => ⟨.error fault, server, []⟩
      | .ok command => serveSignal ports requestId command server

end Calls

/-- The ports of an API in a scripted world. -/
def scriptedApi : ApiPorts Script :=
  { scripted with
    jwt := jsonJwt
    jwtSecret := "s3cret"
    webhookSecret := "hook"
    awsEndpoint := "http://localstack:4566"
    hmacSha256 := fun secret body => secret ++ "." ++ body
    toFloat := fun _ => none }

/-- The header of a caller with a token of the first hour. -/
def bearer (subject : String) (role : Role) : Option Credentials :=
  some ⟨"Bearer", jsonJwt.encode (tokenClaims subject role 3600 0) "s3cret"⟩

def emptyServer : Server Script := ⟨emptyWorker, []⟩

end Aegis
