import Aegis.LifecycleRace
import Aegis.Runner
import Aegis.TimeOrder

namespace Aegis

open Raising Proc TimeOrder

/-- `DomainEvent` without its timestamp. -/
structure DomainEvent where
  eventId : String
  eventType : String
  schemaVersion : String
  correlationId : String
  incidentId : String

def incidentOpenedV1 : String := "incident.opened.v1"

/-- A row of the inbox. -/
structure ProcessedEvent where
  incidentId : Uuid
  eventType : String
  schemaVersion : String
  eventId : String
  correlationId : String

def Severity.value : Severity → String
  | .critical => "critical"
  | .high => "high"
  | .medium => "medium"
  | .low => "low"

inductive NotificationKind where
  | rcaReady
  | escalation
  deriving DecidableEq, Repr

structure Notification where
  id : Uuid
  incidentId : Uuid
  kind : NotificationKind
  eventType : String
  reason : String
  severity : String
  service : String
  link : String
  dedupeKey : String
  rcaVersion : Option Nat
  createdAt : Instant

/-- The tables a worker reads and writes. -/
structure Db where
  incidents : List Incident
  inbox : List ProcessedEvent
  evidence : List Evidence
  auditLog : AuditLog
  rcaReports : List RcaReport
  progress : List InvestigationProgress
  notifications : List Notification
  policyRules : List PolicyRule

/-- How a store reads the step rows of an incident: `ORDER BY occurred_at` leaves the order of rows
of one time to it. -/
structure StepOrder where
  arrange : List InvestigationStep → List InvestigationStep
  ordered : ∀ steps, Ordered InvestigationStep.occurredAt steps (arrange steps)

/-- Rows of one time are read in the order in which they were written. -/
def StepOrder.written : StepOrder where
  arrange steps := steps.insertionSort fun a b => a.occurredAt ≤ b.occurredAt
  ordered := sorted_ordered InvestigationStep.occurredAt

/-- The ports of a worker. `statement` tells whether the database executes the next statement, and
`stepOrder` how it orders the steps of the next reading. -/
structure WorkerPorts (World : Type) extends SpecialistPorts World where
  statement : World → Bool × World
  stepOrder : World → StepOrder × World

/-- One handling in progress: the tables as its transaction sees them, and whether a statement
that failed inside a savepoint has made the transaction unusable. -/
structure Session (World : Type) where
  db : Db
  process : Process World
  broken : Bool

structure ConsumeOpenedResult where
  incidentId : Uuid
  state : Option IncidentState
  transitioned : Bool
  alreadyProcessed : Bool
  deriving DecidableEq

/-- A worker between two messages: the committed tables and its process. -/
structure Worker (World : Type) where
  db : Db
  process : Process World

inductive HandlingEnd where
  | committed (result : ConsumeOpenedResult)
  | rolledBack (raised : Raised)

def HandlingEnd.isCommitted : HandlingEnd → Bool
  | .committed _ => true
  | .rolledBack _ => false

def HandlingEnd.result : HandlingEnd → Option ConsumeOpenedResult
  | .committed result => some result
  | .rolledBack _ => none

structure Handling (World : Type) where
  ended : HandlingEnd
  worker : Worker World

/-- The third field of a fingerprint, in lower case. -/
def scenarioFromFingerprint (lower : String → String) (fingerprint : Option RequiredText) :
    String :=
  match fingerprint with
  | none => "unspecified"
  | some fingerprint =>
    match fingerprint.text.toList.splitOn '|' with
    | _ :: _ :: scenario :: _ =>
      if strip (String.ofList scenario) = "" then "unspecified"
      else lower (strip (String.ofList scenario))
    | _ => "unspecified"

def integrityError : Raised := .other "duplicate key value violates unique constraint"

section Session

variable {World : Type}

def Session.at (s : Session World) (world : World) : Session World :=
  { s with process := { s.process with world } }

def Session.withDb (s : Session World) (db : Db) : Session World := { s with db }

def Session.withRunner (s : Session World) (runner : Runner) : Session World :=
  { s with process := { s.process with runner } }

@[simp] theorem at_db (s : Session World) (world : World) : (s.at world).db = s.db := rfl
@[simp] theorem at_runner (s : Session World) (world : World) :
    (s.at world).process.runner = s.process.runner := rfl
@[simp] theorem at_cache (s : Session World) (world : World) :
    (s.at world).process.cache = s.process.cache := rfl
@[simp] theorem at_at (s : Session World) (v w : World) : (s.at v).at w = s.at w := rfl
@[simp] theorem withDb_db (s : Session World) (db : Db) : (s.withDb db).db = db := rfl
@[simp] theorem withDb_runner (s : Session World) (db : Db) :
    (s.withDb db).process.runner = s.process.runner := rfl
@[simp] theorem withRunner_db (s : Session World) (runner : Runner) :
    (s.withRunner runner).db = s.db := rfl
@[simp] theorem withRunner_runner (s : Session World) (runner : Runner) :
    (s.withRunner runner).process.runner = runner := rfl

end Session

section Handle

variable {World : Type} (ports : WorkerPorts World)

def onProcess {Value : Type} (p : Proc (Process World) Raised Value) :
    Proc (Session World) Raised Value :=
  within Session.process (fun s process => { s with process }) p

def sessionDraw {Value : Type} (f : World → Value × World) : Proc (Session World) Raised Value :=
  within (fun s => s.process.world) Session.at (draw f)

/-- One statement of the transaction. -/
def statement : Proc (Session World) Raised Unit := fun s =>
  if s.broken then (.error (.other "transaction has been rolled back"), s)
  else
    let (executed, world) := ports.statement s.process.world
    (if executed then .ok () else .error (.other "statement failed"), s.at world)

/-- A statement and the change it makes to the tables, unless a constraint forbids it. -/
def write (conflict : Db → Bool) (change : Db → Db) : Proc (Session World) Raised Unit := do
  statement ports
  let db ← read Session.db
  if conflict db then raise integrityError
  else update fun s => s.withDb (change s.db)

/-- `_refresh_policy_cache` -/
def refreshPolicyCache : Proc (Session World) Raised Unit := do
  statement ports
  update fun s =>
    { s with process := { s.process with
        cache := replacePolicyRules ports.services.digest s.db.policyRules } }

/-- The inbox already has the key of an event. -/
def claimedBefore (event : DomainEvent) (incidentId : Uuid) (db : Db) : Bool :=
  db.inbox.any fun row => row.incidentId = incidentId && row.eventType = event.eventType &&
    row.schemaVersion = event.schemaVersion

/-- `SqlAlchemyProcessedEventStore.record_once` -/
def recordOnce (event : DomainEvent) (incidentId : Uuid) : Proc (Session World) Raised Bool := do
  statement ports
  let db ← read Session.db
  if claimedBefore event incidentId db then pure false
  else do
    update fun s => s.withDb { s.db with inbox := s.db.inbox ++
      [⟨incidentId, event.eventType, event.schemaVersion, event.eventId, event.correlationId⟩] }
    pure true

/-- `SqlAlchemyIncidentRepository.get_by_id` -/
def getById (incidentId : Uuid) : Proc (Session World) Raised (Option Incident) := do
  statement ports
  read fun s => (s.db.incidents.find? fun row => row.id = incidentId).map toDomain

def saveIncident (incident : Incident) (db : Db) : Db :=
  { db with incidents := db.incidents.map fun row =>
      if row.id = incident.id then applyToOrm incident row else row }

/-- `SqlAlchemyIncidentRepository.save` of an incident that is there. -/
def save (incident : Incident) : Proc (Session World) Raised Unit :=
  write ports (fun _ => false) (saveIncident incident)

/-- `SqlAlchemyEvidenceRepository.add` -/
def addEvidence (row : Evidence) : Proc (Session World) Raised Unit :=
  write ports (fun db => db.evidence.any fun other => other.id = row.id)
    fun db => { db with evidence := db.evidence ++ [row] }

/-- `RecordEvidence.persist` -/
def recordEvidence (row : Evidence) : Proc (Session World) Raised Unit := do
  let prepared ← fromExcept (prepareEvidence ports.services.redact row)
  addEvidence ports prepared

/-- `SqlAlchemyAuditRepository.append`; the id and the row hash are unique. -/
def appendAudit (entry : AuditEntry) : Proc (Session World) Raised Unit :=
  write ports (fun db => db.auditLog.any fun other =>
      other.id = entry.id || other.rowHash.text = entry.rowHash.text)
    fun db => { db with auditLog := db.auditLog ++ [entry] }

/-- A report that the table cannot take beside those it has: incident and version are unique. -/
def rcaConflict (report : RcaReport) (db : Db) : Bool :=
  db.rcaReports.any fun other => other.id = report.id ||
    (other.incidentId = report.incidentId && other.version = report.version)

/-- `SqlAlchemyRcaRepository.add` -/
def addRca (report : RcaReport) : Proc (Session World) Raised Unit :=
  write ports (rcaConflict report) fun db => { db with rcaReports := db.rcaReports ++ [report] }

def saveProgressRow (progress : InvestigationProgress) (db : Db) : Db :=
  { db with progress :=
      (db.progress.filter fun row => row.incidentId ≠ progress.incidentId) ++ [progress] }

/-- `SqlAlchemyInvestigationProgressRepository.save` -/
def saveProgress (progress : InvestigationProgress) : Proc (Session World) Raised Unit :=
  write ports (fun _ => false) (saveProgressRow progress)

def notificationConflict (row : Notification) (db : Db) : Bool :=
  db.notifications.any fun other => other.id = row.id ||
    (other.incidentId = row.incidentId && other.dedupeKey = row.dedupeKey)

/-- `SqlAlchemyNotificationRepository.record_once`: the savepoint undoes a duplicate, but not a
statement that fails. -/
def recordNotification (row : Notification) : Proc (Session World) Raised Unit := do
  attempt (statement ports) fun raised => do
    update fun s => { s with broken := true }
    raise raised
  let db ← read Session.db
  if notificationConflict row db then pure ()
  else update fun s => s.withDb { s.db with notifications := s.db.notifications ++ [row] }

/-- A notification of an incident, with a new id and time. -/
def notification (incident : Incident) (kind : NotificationKind)
    (eventType reason dedupeKey : String) (rcaVersion : Option Nat) :
    Proc (Session World) Raised Unit := do
  let id ← sessionDraw ports.uuid4
  let createdAt ← sessionDraw ports.now
  recordNotification ports {
    id, kind, eventType, reason, dedupeKey, rcaVersion, createdAt
    incidentId := incident.id
    severity := incident.severity.value
    service := incident.affectedService.text
    link := "/api/v1/incidents/" ++ incident.id.str ++ "/investigation" }

/-- `notify_best_effort` of a report. -/
def notifyRcaReady (incident : Incident) (report : RcaReport) : Proc (Session World) Raised Unit :=
  attempt (notification ports incident .rcaReady "rca.completed.v1" "pending_review"
    ("rca_ready:" ++ toString report.version) (some report.version)) fun _ => pure ()

/-- `notify_best_effort` of an escalation; without a reason there is none. -/
def notifyEscalated (incident : Incident) (reason : String) : Proc (Session World) Raised Unit :=
  if strip reason = "" then pure ()
  else attempt (notification ports incident .escalation "rca.escalated.v1" (strip reason)
    ("escalation:" ++ strip reason) none) fun _ => pure ()

/-- Take a buffer out of the runner. -/
def drain {Value : Type} (buffer : Runner → Value) (clear : Runner → Runner) :
    Proc (Session World) Raised Value := fun s =>
  (.ok (buffer s.process.runner), s.withRunner (clear s.process.runner))

/-- `_persist_collected_evidence` -/
def persistCollectedEvidence : Proc (Session World) Raised Unit := do
  let items ← drain Runner.recorded fun runner => { runner with recorded := [] }
  forEach (recordEvidence ports) items

/-- `_persist_recorded_audit` -/
def persistRecordedAudit : Proc (Session World) Raised Unit := do
  let items ← drain Runner.log fun runner => { runner with log := [] }
  forEach (appendAudit ports) items

def recordRca (incident : Incident) (report : RcaReport) : Proc (Session World) Raised Unit := do
  addRca ports report
  notifyRcaReady ports incident report

/-- `_persist_recorded_rca` -/
def persistRecordedRca (incident : Incident) : Proc (Session World) Raised Unit := do
  let items ← drain Runner.rcaReports fun runner => { runner with rcaReports := [] }
  forEach (recordRca ports incident) items

def recordProgress (incident : Incident) :
    Option InvestigationProgress → Proc (Session World) Raised Unit
  | none => pure ()
  | some progress => do
    saveProgress ports progress
    notifyEscalated ports incident progress.escalateReason

/-- `_persist_recorded_progress` -/
def persistRecordedProgress (incident : Incident) : Proc (Session World) Raised Unit := do
  let item ← drain Runner.progress fun runner => { runner with progress := none }
  recordProgress ports incident item

def startRequest (event : DomainEvent) (incident : Incident) : StartRequest where
  incidentId := incident.id
  service := incident.affectedService.text
  scenario := scenarioFromFingerprint ports.lower incident.fingerprint
  correlationId := event.correlationId

/-- The four persistence steps after a run, and the commit. -/
def persistRest (incident : Incident) : Proc (Session World) Raised Unit := do
  persistRecordedRca ports incident
  persistRecordedProgress ports incident

/-- Run the graph and persist what the runner captured. -/
def investigateIncident (event : DomainEvent) (incident : Incident) :
    Proc (Session World) Raised Unit := do
  onProcess (Runner.start ports.toSpecialistPorts (startRequest ports event incident))
  persistCollectedEvidence ports
  persistRecordedAudit ports
  persistRest ports incident

/-- `execute` on an incident that was found. -/
def startFound (event : DomainEvent) (incidentId : Uuid) (incident : Incident) :
    Proc (Session World) Raised ConsumeOpenedResult := do
  let moment ← sessionDraw ports.now
  let (moved, started) ← fromExcept
    ((incident.startInvestigation moment).mapError Raised.invalid)
  if started then do
    save ports moved
    investigateIncident ports event moved
    pure ⟨incidentId, some moved.state, true, false⟩
  else pure ⟨incidentId, some moved.state, false, false⟩

/-- `execute` on an event that was claimed. -/
def consumeClaimed (event : DomainEvent) (incidentId : Uuid) :
    Proc (Session World) Raised ConsumeOpenedResult := do
  let found ← getById ports incidentId
  match found with
  | none => raise (.other ("Incident '" ++ incidentId.str ++ "' was not found."))
  | some incident => startFound ports event incidentId incident

/-- `ConsumeOpenedIncident.execute` -/
def execute (event : DomainEvent) : Proc (Session World) Raised ConsumeOpenedResult :=
  if event.eventType = incidentOpenedV1 then
    match ports.parseUuid event.incidentId with
    | none => raise (.invalid "incident_id is not a UUID.")
    | some incidentId => do
      let claimed ← recordOnce ports event incidentId
      if claimed then consumeClaimed ports event incidentId
      else pure ⟨incidentId, none, false, true⟩
  else raise (.invalid ("Unsupported event_type '" ++ event.eventType ++ "'."))

/-- The body of `_handle_opened` up to its commit. -/
def handleOpened (event : DomainEvent) : Proc (Session World) Raised ConsumeOpenedResult := do
  refreshPolicyCache ports
  let result ← execute ports event
  statement ports
  pure result

/-- A new session on the committed tables. -/
def Worker.session (worker : Worker World) : Session World where
  db := worker.db
  process := { worker.process with runner := { worker.process.runner with packs := [] } }
  broken := false

/-- `_handle_opened`: a rollback takes back the tables and nothing of the process. -/
def deliver (event : DomainEvent) (worker : Worker World) : Handling World :=
  match handleOpened ports event worker.session with
  | (.ok result, s) => ⟨.committed result, ⟨s.db, s.process⟩⟩
  | (.error raised, s) => ⟨.rolledBack raised, ⟨worker.db, s.process⟩⟩

end Handle

end Aegis
