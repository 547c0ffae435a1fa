import Aegis.Api

namespace Aegis

open Raising Proc StepPath

/-- The tables that the API and its worker share. -/
inductive Table where
  | incidents
  | inbox
  | evidence
  | auditLog
  | rcaReports
  | progress
  | notifications
  | policyRules
  | policyRuleChanges
  deriving DecidableEq

/-- The permissions of the routes that write a table. -/
def Table.writers : Table → List Permission
  | .incidents => [.createIncident, .transitionIncident, .reviewRca]
  | .inbox => []
  | .evidence => [.addEvidence]
  | .auditLog => []
  | .rcaReports => [.reviewRca]
  | .progress => [.controlInvestigation, .reviewRca]
  | .notifications => [.reviewRca]
  | .policyRules => [.managePolicy]
  | .policyRuleChanges => [.managePolicy]

/-- The rows of a table are what they were. The changes of the rules are not among the tables of
the worker. -/
def Db.Keeps (before after : Db) : Table → Prop
  | .incidents => after.incidents = before.incidents
  | .inbox => after.inbox = before.inbox
  | .evidence => after.evidence = before.evidence
  | .auditLog => after.auditLog = before.auditLog
  | .rcaReports => after.rcaReports = before.rcaReports
  | .progress => after.progress = before.progress
  | .notifications => after.notifications = before.notifications
  | .policyRules => after.policyRules = before.policyRules
  | .policyRuleChanges => True

def Server.Keeps {World : Type} (before after : Server World) (table : Table) : Prop :=
  before.worker.db.Keeps after.worker.db table ∧
    (table = .policyRuleChanges → after.changes = before.changes)

/-- A request with the moment at which its token is checked, and the world that it finds. -/
structure Arrival (World : Type) where
  request : ApiRequest
  moment : Instant
  world : World

section Runs

variable {World : Type} (ports : ApiPorts World)

def Server.inWorld (server : Server World) (world : World) : Server World :=
  { server with worker := server.worker.inWorld world }

def serveArrival (server : Server World) (arrival : Arrival World) : ServedCall World :=
  serve ports arrival.moment arrival.request (server.inWorld arrival.world)

def ServeStep (server : Server World) (arrival : Arrival World) (next : Server World) : Prop :=
  next = (serveArrival ports server arrival).server

/-- `flush_pending_domain_events`: what the publisher is handed, if there is one. -/
def flushPendingDomainEvents (pending : List DomainEvent) : List DomainEvent :=
  if ports.hasPublisher then pending else []

/-- The run that serves requests one after the other. -/
def servePath : Server World → List (Arrival World) → List (Arrival World × Server World)
  | _, [] => []
  | server, arrival :: rest =>
    (arrival, (serveArrival ports server arrival).server) ::
      servePath (serveArrival ports server arrival).server rest

theorem servePath_path (server : Server World) (arrivals : List (Arrival World)) :
    Path (ServeStep ports) server (servePath ports server arrivals) := by
  induction arrivals generalizing server with
  | nil => exact .stop
  | cons arrival rest ih => exact .next rfl (ih _)

/-- The events that the requests of a run leave in their buffers. -/
def buffered : Server World → List (Arrival World × Server World) → List DomainEvent
  | _, [] => []
  | server, (arrival, next) :: rest => (serveArrival ports server arrival).events ++ buffered next rest

/-- The events of a run, as its requests flush them. -/
def flushed : Server World → List (Arrival World × Server World) → List DomainEvent
  | _, [] => []
  | server, (arrival, next) :: rest =>
    flushPendingDomainEvents ports (serveArrival ports server arrival).events ++ flushed next rest

/-- The request may change a table: a signal with a good signature the incidents, and a call what
its route writes, when the role of its caller has the permission of the route. -/
inductive MayChange (arrival : Arrival World) (table : Table) : Prop
  | call (header : Option Credentials) (call : ApiCall) (requestId : String) (user : TokenPayload)
      (permission : Permission) (request : arrival.request = .call header call requestId)
      (caller : getCurrentUser ports.lower ports.jwt ports.jwtSecret header arrival.moment =
        .ok user)
      (required : call.permission = some permission)
      (allowed : permission ∈ rolePermissions user.role) (writer : permission ∈ table.writers)
  | signal (signature body requestId : String)
      (request : arrival.request = .signal signature body requestId)
      (signed : requireWebhookSignature ports.hmacSha256 ports.webhookSecret body signature = .ok ())
      (incidents : table = .incidents)

end Runs

section Keeps

variable {before middle after : Db} {table : Table}

theorem Db.Keeps.refl (before : Db) (table : Table) : before.Keeps before table := by
  cases table <;> first | rfl | trivial

theorem Db.Keeps.trans (first : before.Keeps middle table) (second : middle.Keeps after table) :
    before.Keeps after table := by
  cases table with
  | policyRuleChanges => trivial
  | _ => exact Eq.trans second first

theorem Db.keeps_of_eq (same : after = before) : before.Keeps after table := by
  rw [same]
  exact .refl before table

theorem keeps_saveIncident {moved : Incident} (other : table ≠ .incidents) :
    before.Keeps (saveIncident moved before) table := by
  cases table with
  | incidents => exact absurd rfl other
  | policyRuleChanges => trivial
  | _ => rfl

theorem keeps_saveProgressRow {progress : InvestigationProgress} (other : table ≠ .progress) :
    before.Keeps (saveProgressRow progress before) table := by
  cases table with
  | progress => exact absurd rfl other
  | policyRuleChanges => trivial
  | _ => rfl

theorem keeps_reviewedDb {latest : RcaReport} {reviewStatus : RcaReviewStatus}
    (other : table ≠ .rcaReports) : before.Keeps (reviewedDb latest reviewStatus before) table := by
  unfold reviewedDb
  split
  · exact .refl before table
  · cases table with
    | rcaReports => exact absurd rfl other
    | policyRuleChanges => trivial
    | _ => rfl

end Keeps

section Calls

variable {World : Type} {ports : ApiPorts World} {s t : Session World} {table : Table}
  {incidentId : Uuid} {requestId : String}

theorem review_keeps {call : ReviewCall} {view : ProgressView}
    (h : transitionRca ports.toWorkerPorts incidentId call s = (.ok view, t))
    (foreign : .reviewRca ∉ table.writers) : s.db.Keeps t.db table := by
  have hincidents : table ≠ .incidents := by
    rintro rfl
    exact foreign (by decide)
  have hreports : table ≠ .rcaReports := by
    rintro rfl
    exact foreign (by decide)
  have hprogress : table ≠ .progress := by
    rintro rfl
    exact foreign (by decide)
  have hnotes : table ≠ .notifications := by
    rintro rfl
    exact foreign (by decide)
  cases call with
  | accept =>
    obtain ⟨row, report, _, _, hdb⟩ := accept_ok h
    have hreviewed := @keeps_reviewedDb s.db table (rcaToDomain report) .accepted hreports
    rcases hdb with ⟨_, hdb⟩ | ⟨_, moved, _, _, hdb⟩
    · rw [hdb]
      exact hreviewed
    · rw [hdb]
      exact hreviewed.trans (keeps_saveIncident hincidents)
  | reject =>
    obtain ⟨row, report, base, now, notes, _, _, _, hdb⟩ := reject_ok h
    have hreviewed := @keeps_reviewedDb s.db table (rcaToDomain report) .rejected hreports
    have hsaved := hreviewed.trans
      (@keeps_saveProgressRow _ table (base.withRejection now) hprogress)
    rw [hdb]
    refine hsaved.trans ?_
    cases table with
    | notifications => exact absurd rfl hnotes
    | policyRuleChanges => trivial
    | _ => rfl
  | amend command =>
    obtain ⟨row, report, amended, finding, id, createdAt, notes, _, _, _, _, _, hdb⟩ := amend_ok h
    rw [hdb]
    cases table with
    | notifications => exact absurd rfl hnotes
    | rcaReports => exact absurd rfl hreports
    | policyRuleChanges => trivial
    | _ => rfl

theorem controlPause_keeps_table {paused : Bool} {view : ProgressView}
    (h : controlPause ports.toWorkerPorts incidentId paused s = (.ok view, t))
    (foreign : .controlInvestigation ∉ table.writers) : s.db.Keeps t.db table := by
  have hprogress : table ≠ .progress := by
    rintro rfl
    exact foreign (by decide)
  obtain ⟨_, _, base, _, _, hsame | ⟨_, now, hsaved⟩⟩ := controlPause_ok h
  · exact Db.keeps_of_eq hsame.2
  · rw [hsaved]
    exact keeps_saveProgressRow hprogress

theorem control_keeps_table {call : ControlCall} {answer : ControlAnswer}
    (h : control ports.toWorkerPorts incidentId call s = (.ok answer, t))
    (foreign : call.permission ∉ table.writers) : s.db.Keeps t.db table := by
  cases call with
  | pause =>
    obtain ⟨view, u, hpause, h⟩ := bind_eq_ok.mp h
    cases h
    exact controlPause_keeps_table hpause foreign
  | resume =>
    obtain ⟨view, u, hresume, h⟩ := bind_eq_ok.mp h
    cases h
    exact controlPause_keeps_table hresume foreign
  | review call =>
    obtain ⟨view, u, hreview, h⟩ := bind_eq_ok.mp h
    cases h
    exact review_keeps hreview foreign
  | transition newState =>
    obtain ⟨incident, u, hmove, h⟩ := bind_eq_ok.mp h
    cases h
    obtain ⟨row, moment, moved, _, _, hdb⟩ := transitionIncident_ok hmove
    rw [hdb]
    refine keeps_saveIncident ?_
    rintro rfl
    exact foreign (List.mem_cons_of_mem _ List.mem_cons_self)

theorem createIncident_keeps {command : CreateIncidentCommand} {out : Incident × DomainEvent}
    (h : createIncident ports.toWorkerPorts command requestId s = (.ok out, t))
    (other : table ≠ .incidents) : s.db.Keeps t.db table := by
  obtain ⟨_, _, _, hdb⟩ := createIncident_ok h
  rw [hdb]
  cases table with
  | incidents => exact absurd rfl other
  | policyRuleChanges => trivial
  | _ => rfl

theorem addManualEvidence_ok {summary contentRef : String} {row : Evidence}
    (h : addManualEvidence ports incidentId summary contentRef s = (.ok row, t)) :
    t.db = { s.db with evidence := s.db.evidence ++ [row] } := by
  obtain ⟨id, s₁, hid, h⟩ := bind_eq_ok.mp h
  obtain ⟨collectedAt, s₂, hclock, h⟩ := bind_eq_ok.mp h
  obtain ⟨note, s₃, hnote, h⟩ := bind_eq_ok.mp h
  obtain ⟨_, rfl⟩ := fromExcept_eq_ok.mp hnote
  obtain ⟨prepared, s₄, hprepared, h⟩ := bind_eq_ok.mp h
  obtain ⟨_, rfl⟩ := fromExcept_eq_ok.mp hprepared
  obtain ⟨_, s₅, hadd, h⟩ := bind_eq_ok.mp h
  cases h
  rw [(write_ok hadd).2.db, sessionDraw_ok hclock, sessionDraw_ok hid]

theorem incidentCall_keeps {call : ApiCall} {out : ApiReply × List DomainEvent}
    (h : incidentCall ports requestId call s = (.ok out, t))
    (foreign : ∀ permission, call.permission = some permission → permission ∉ table.writers) :
    s.db.Keeps t.db table := by
  cases call with
  | createIncident command =>
    obtain ⟨⟨incident, event⟩, u, hcreate, h⟩ := bind_eq_ok.mp h
    cases h
    refine createIncident_keeps hcreate ?_
    rintro rfl
    exact foreign _ rfl (by decide)
  | listIncidents query =>
    obtain ⟨incidents, u, hselect, h⟩ := bind_eq_ok.mp h
    cases h
    exact Db.keeps_of_eq (select_ok hselect).2
  | getIncident incidentId =>
    obtain ⟨incident, u, hfound, h⟩ := bind_eq_ok.mp h
    cases h
    exact Db.keeps_of_eq (requireIncident_ok hfound).1
  | control incidentId call =>
    obtain ⟨answer, u, hcontrol, h⟩ := bind_eq_ok.mp h
    cases h
    exact control_keeps_table hcontrol (foreign _ rfl)
  | getInvestigation incidentId =>
    obtain ⟨view, u, hview, h⟩ := bind_eq_ok.mp h
    cases h
    exact Db.keeps_of_eq (getProgress_ok hview)
  | addEvidence incidentId summary contentRef =>
    obtain ⟨view, u, hview, h⟩ := bind_eq_ok.mp h
    obtain ⟨row, v, hadd, h⟩ := bind_eq_ok.mp h
    cases h
    rw [addManualEvidence_ok hadd, getProgress_ok hview]
    have hevidence : table ≠ .evidence := by
      rintro rfl
      exact foreign _ rfl (by decide)
    cases table with
    | evidence => exact absurd rfl hevidence
    | policyRuleChanges => trivial
    | _ => rfl
  | getReport incidentId =>
    obtain ⟨order, r, horder, h⟩ := bind_eq_ok.mp h
    obtain ⟨stores, u, hstores, h⟩ := bind_eq_ok.mp h
    obtain ⟨report, v, hreport, h⟩ := bind_eq_ok.mp h
    obtain ⟨_, rfl⟩ := fromExcept_eq_ok.mp hreport
    cases h
    exact Db.keeps_of_eq ((select_ok hstores).2.trans (sessionDraw_ok horder))
  | policy call => cases h

/-- A signal that goes through changes nothing but the incidents. -/
theorem signal_keeps {command : IngestIncidentSignalCommand} {result : IngestIncidentSignalResult}
    (h : ingestIncidentSignal ports.toWorkerPorts command requestId s = (.ok result, t))
    (other : table ≠ .incidents) : s.db.Keeps t.db table := by
  obtain ⟨fingerprint, _, taken⟩ := ingestIncidentSignal_ok h
  cases taken with
  | linked row _ _ _ saved =>
    rw [saved]
    exact keeps_saveIncident other
  | created _ _ _ _ added =>
    rw [added]
    cases table with
    | incidents => exact absurd rfl other
    | policyRuleChanges => trivial
    | _ => rfl

end Calls

section Serving

variable {World : Type} {ports : ApiPorts World} {server : Server World} {requestId : String}
  {table : Table}

theorem Server.Keeps.refl (server : Server World) (table : Table) : server.Keeps server table :=
  ⟨.refl _ table, fun _ => rfl⟩

theorem Server.Keeps.trans {before middle after : Server World} (first : before.Keeps middle table)
    (second : middle.Keeps after table) : before.Keeps after table :=
  ⟨first.1.trans second.1, fun h => (second.2 h).trans (first.2 h)⟩

/-- A request about incidents that raises leaves the tables and publishes nothing; one that returns
leaves what its use case did, and publishes its events. -/
theorem serveIncident_cases (ports : ApiPorts World) (requestId : String) (call : ApiCall)
    (server : Server World) :
    (∃ raised, (serveIncident ports requestId call server).answer = .error (.raised raised) ∧
      (serveIncident ports requestId call server).server.worker.db = server.worker.db ∧
      (serveIncident ports requestId call server).events = []) ∨
    ∃ reply s, (serveIncident ports requestId call server).answer = .ok reply ∧
      incidentCall ports requestId call ⟨server.worker.db, server.worker.process, false⟩ =
        (.ok (reply, (serveIncident ports requestId call server).events), s) ∧
      (serveIncident ports requestId call server).server.worker.db = s.db := by
  unfold serveIncident
  rcases inSession_cases ports.toWorkerPorts (incidentCall ports requestId call) server.worker with
    ⟨raised, process, hsession, _⟩ | ⟨⟨reply, events⟩, s, process, hcall, hsession⟩
  · rw [hsession]
    exact .inl ⟨raised, rfl, rfl, rfl⟩
  · rw [hsession]
    exact .inr ⟨reply, s, rfl, hcall, rfl⟩

theorem serveIncident_changes (call : ApiCall) :
    (serveIncident ports requestId call server).server.changes = server.changes := by
  unfold serveIncident
  split <;> rfl

theorem serveSignal_cases (ports : ApiPorts World) (requestId : String)
    (command : IngestIncidentSignalCommand) (server : Server World) :
    (∃ raised, (serveSignal ports requestId command server).answer = .error (.raised raised) ∧
      (serveSignal ports requestId command server).server.worker.db = server.worker.db ∧
      (serveSignal ports requestId command server).events = []) ∨
    ∃ result s, (serveSignal ports requestId command server).answer =
        .ok (.signal result.incident result.created) ∧
      ingestIncidentSignal ports.toWorkerPorts command requestId
        ⟨server.worker.db, server.worker.process, false⟩ = (.ok result, s) ∧
      (serveSignal ports requestId command server).events = result.published.toList ∧
      (serveSignal ports requestId command server).server.worker.db = s.db := by
  unfold serveSignal
  rcases inSession_cases ports.toWorkerPorts
    (ingestIncidentSignal ports.toWorkerPorts command requestId) server.worker with
    ⟨raised, process, hsession, _⟩ | ⟨result, s, process, hcall, hsession⟩
  · rw [hsession]
    exact .inl ⟨raised, rfl, rfl, rfl⟩
  · rw [hsession]
    exact .inr ⟨result, s, rfl, hcall, rfl, rfl⟩

theorem serveSignal_changes (command : IngestIncidentSignalCommand) :
    (serveSignal ports requestId command server).server.changes = server.changes := by
  unfold serveSignal
  split <;> rfl

/-- A request about the rules that raises leaves the tables; one that returns leaves the rules and
the changes of its use case. -/
theorem servePolicy_cases (ports : ApiPorts World) (actor : String) (call : PolicyCall)
    (server : Server World) :
    (∃ raised, (servePolicy ports actor call server).answer = .error (.raised raised) ∧
      (servePolicy ports actor call server).server.worker.db = server.worker.db ∧
      (servePolicy ports actor call server).server.changes = server.changes) ∨
    ∃ reply s, (servePolicy ports actor call server).answer = .ok reply ∧
      policyCall ports actor call server.policySession = (.ok reply, s) ∧
      (servePolicy ports actor call server).server.worker.db =
        { server.worker.db with policyRules := s.tables.rules } ∧
      (servePolicy ports actor call server).server.changes = s.tables.changes := by
  unfold servePolicy
  rcases hsession : (policyCall ports actor call >>= fun reply =>
      policyStatement (policyPorts ports.toWorkerPorts) >>= fun _ => pure reply)
      server.policySession with ⟨raised | reply, t⟩
  · exact .inl ⟨raised, rfl, rfl, rfl⟩
  · obtain ⟨answered, s, hcall, hsession⟩ := bind_eq_ok.mp hsession
    obtain ⟨_, u, hstatement, hsession⟩ := bind_eq_ok.mp hsession
    cases hsession
    refine .inr ⟨reply, s, rfl, hcall, ?_, ?_⟩
    · dsimp only
      rw [policyStatement_ok hstatement]
    · dsimp only
      rw [policyStatement_ok hstatement]

theorem servePolicy_events (actor : String) (call : PolicyCall) :
    (servePolicy ports actor call server).events = [] := by
  unfold servePolicy
  split <;> rfl

/-- What a request comes to: it is turned away, or its caller is let in and its body is read. -/
inductive Reached (ports : ApiPorts World) (moment : Instant) (server : Server World) :
    ApiRequest → ServedCall World → Prop
  | refused {request : ApiRequest} (fault : ApiFault) : Reached ports moment server request
      ⟨.error fault, server, []⟩
  | policy {header : Option Credentials} {call : PolicyCall} {requestId : String}
      (user : TokenPayload)
      (caller : authorize ports.lower ports.jwt ports.jwtSecret (some .managePolicy) header moment =
        .ok user) :
      Reached ports moment server (.call header (.policy call) requestId)
        (servePolicy ports user.subject call server)
  | incident {header : Option Credentials} {call : ApiCall} {requestId : String}
      (user : TokenPayload)
      (caller : authorize ports.lower ports.jwt ports.jwtSecret call.permission header moment =
        .ok user) :
      Reached ports moment server (.call header call requestId)
        (serveIncident ports requestId call server)
  | signal {signature body requestId : String} (command : IngestIncidentSignalCommand)
      (signed : requireWebhookSignature ports.hmacSha256 ports.webhookSecret body signature = .ok ())
      (parsed : parseSignal ports.toFloat body = .ok command) :
      Reached ports moment server (.signal signature body requestId)
        (serveSignal ports requestId command server)

theorem serve_reached (ports : ApiPorts World) (moment : Instant) (request : ApiRequest)
    (server : Server World) :
    Reached ports moment server request (serve ports moment request server) := by
  cases request with
  | call header call requestId =>
    unfold serve
    dsimp only
    cases hcaller : authorize ports.lower ports.jwt ports.jwtSecret call.permission header moment with
    | error fault => exact .refused _
    | ok user =>
      dsimp only
      split
      · cases call with
        | policy call => exact .policy user hcaller
        | _ => exact .incident user hcaller
      · exact .refused _
  | signal signature body requestId =>
    unfold serve
    dsimp only
    cases hsigned : requireWebhookSignature ports.hmacSha256 ports.webhookSecret body signature with
    | error fault => exact .refused _
    | ok _ =>
      dsimp only
      cases hparsed : parseSignal ports.toFloat body with
      | error fault => exact .refused _
      | ok command => exact .signal command hsigned hparsed

theorem Server.Keeps.of_db {before after : Server World} (table : Table)
    (db : after.worker.db = before.worker.db) (changes : after.changes = before.changes) :
    before.Keeps after table := ⟨Db.keeps_of_eq db, fun _ => changes⟩

/-- A table that a request changes is one that it may change. -/
theorem mayChange_of_changed {arrival : Arrival World}
    (changed : ¬server.Keeps (serveArrival ports server arrival).server table) :
    MayChange ports arrival table := by
  obtain ⟨request, moment, world⟩ := arrival
  have reached := serve_reached ports moment request (server.inWorld world)
  change ¬server.Keeps (serve ports moment request (server.inWorld world)).server table at changed
  generalize serve ports moment request (server.inWorld world) = served at reached changed
  cases reached with
  | refused fault => exact absurd (Server.Keeps.refl server table) changed
  | @policy header call requestId user caller =>
    obtain ⟨huser, hallowed⟩ := authorize_ok caller
    refine .call header (.policy call) requestId user .managePolicy rfl huser rfl
      (of_decide_eq_true (hallowed _ rfl)) ?_
    by_contra hwriter
    refine changed ?_
    rcases servePolicy_cases ports user.subject call (server.inWorld world) with
      ⟨raised, _, hdb, hchanges⟩ | ⟨reply, s, _, _, hdb, hchanges⟩
    · exact .of_db table hdb hchanges
    · have hrules : table ≠ .policyRules := by
        rintro rfl
        exact hwriter List.mem_cons_self
      have hlog : table ≠ .policyRuleChanges := by
        rintro rfl
        exact hwriter List.mem_cons_self
      refine ⟨?_, fun h => absurd h hlog⟩
      rw [hdb]
      cases table with
      | policyRules => exact absurd rfl hrules
      | policyRuleChanges => trivial
      | _ => rfl
  | @incident header call requestId user caller =>
    obtain ⟨huser, hallowed⟩ := authorize_ok caller
    rcases serveIncident_cases ports requestId call (server.inWorld world) with
      ⟨raised, _, hdb, _⟩ | ⟨reply, s, _, hcall, hdb⟩
    · exact absurd (.of_db table hdb (serveIncident_changes call)) changed
    · by_contra hmay
      refine changed ⟨?_, fun _ => serveIncident_changes call⟩
      rw [hdb]
      refine incidentCall_keeps hcall fun permission hrequired hwriter => hmay ?_
      exact .call header call requestId user permission rfl huser hrequired
        (of_decide_eq_true (hallowed _ hrequired)) hwriter
  | @signal signature body requestId command signed parsed =>
    rcases serveSignal_cases ports requestId command (server.inWorld world) with
      ⟨raised, _, hdb, _⟩ | ⟨result, s, _, hcall, _, hdb⟩
    · exact absurd (.of_db table hdb (serveSignal_changes command)) changed
    · refine .signal signature body requestId rfl signed ?_
      by_contra hother
      refine changed ⟨?_, fun _ => serveSignal_changes command⟩
      rw [hdb]
      exact signal_keeps hcall hother

end Serving

end Aegis
