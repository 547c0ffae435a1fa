import Aegis.Delivery

namespace Aegis

open Raising Proc

structure AmendRcaCommand where
  summary : String
  rootCause : String
  contributingFactors : List String
  confidence : ℚ
  status : String
  recommendedActions : List String
  evidenceCitations : Option (List RcaCitation)

/-- A request to review the RCA of an incident. -/
inductive ReviewCall where
  | accept
  | reject
  | amend (command : AmendRcaCommand)

/-- `RcaFindingStatus(value)` -/
def parseFindingStatus : String → Option RcaFindingStatus
  | "confirmed" => some .confirmed
  | "hypothesis" => some .hypothesis
  | _ => none

/-- What the constructor makes of the fields of a report. -/
def RcaReport.rebuilt (report : RcaReport) : RcaReport :=
  { report with
    contributingFactors := strippedTexts report.contributingFactors
    recommendedActions := strippedTexts report.recommendedActions
    inputTokens := max 0 report.inputTokens
    outputTokens := max 0 report.outputTokens }

/-- `RcaReport.with_review_status` -/
def RcaReport.withReviewStatus (report : RcaReport) (reviewStatus : RcaReviewStatus) : RcaReport :=
  if reviewStatus = report.reviewStatus then report else { report.rebuilt with reviewStatus }

/-- `_to_domain` of a row of `rca_reports`. -/
def rcaToDomain (row : RcaReport) : RcaReport :=
  { row.rebuilt with
    citations := row.citations.map fun citation =>
      RcaCitation.new citation.evidenceId citation.source citation.relevance
    cited := by simpa using row.cited }

/-- `list_by_incident`: the versions of an incident in their order. -/
def reportsOf (incidentId : Uuid) (db : Db) : List RcaReport :=
  ((db.rcaReports.filter fun row => row.incidentId = incidentId).insertionSort
    fun a b => a.version ≤ b.version).map rcaToDomain

/-- The columns that `SqlAlchemyRcaRepository.save` sets on a row. -/
def RcaReport.revised (row report : RcaReport) : RcaReport :=
  { row with
    reviewStatus := report.reviewStatus
    findingStatus := report.findingStatus
    summary := report.summary
    rootCause := report.rootCause
    contributingFactors := report.contributingFactors
    confidence := report.confidence
    confidence_range := report.confidence_range
    recommendedActions := report.recommendedActions
    citations := report.citations
    cited := report.cited }

def saveRcaRow (report : RcaReport) (db : Db) : Db :=
  { db with rcaReports := db.rcaReports.map fun row =>
      if row.id = report.id then row.revised report else row }

/-- `InvestigationProgress.create` with its defaults. -/
def InvestigationProgress.notStarted (incidentId : Uuid) (now : Instant) : InvestigationProgress where
  incidentId
  hops := 0
  status := .notStarted
  escalateReason := ""
  paused := false
  steps := []
  updatedAt := now
  hops_nonneg := le_refl 0

/-- `with_rejection` -/
def InvestigationProgress.withRejection (progress : InvestigationProgress) (now : Instant) :
    InvestigationProgress :=
  { progress with
    status := .escalated
    escalateReason := "rca_rejected"
    paused := false
    updatedAt := now }

/-- The row of an incident with its steps. -/
def storedProgress (incidentId : Uuid) (db : Db) : Option InvestigationProgress :=
  db.progress.find? fun row => row.incidentId = incidentId

/-- What a store that orders the steps so makes of a row. -/
def StepOrder.read (order : StepOrder) (row : InvestigationProgress) : InvestigationProgress :=
  { row with
    escalateReason := strip row.escalateReason
    steps := order.arrange row.steps }

/-- `get_by_incident` of the progress repository: the steps come in an order of their times. -/
def progressOf (order : StepOrder) (incidentId : Uuid) (db : Db) : Option InvestigationProgress :=
  (storedProgress incidentId db).map order.read

/-- What `GetInvestigationProgress.execute` hands to `assemble_progress`. -/
structure ProgressView where
  incident : Incident
  stored : Option InvestigationProgress
  evidence : List Evidence
  reports : List RcaReport

section Calls

variable {World : Type} (ports : WorkerPorts World)

/-- A statement that reads the tables. -/
def select {Value : Type} (f : Db → Value) : Proc (Session World) Raised Value := do
  statement ports
  read fun s => f s.db

/-- `get_by_incident`, with the steps in the order that the store gives them this time. -/
def loadProgress (incidentId : Uuid) : Proc (Session World) Raised (Option InvestigationProgress) := do
  let order ← sessionDraw ports.stepOrder
  select ports (progressOf order incidentId)

/-- `get_by_id` of an incident that has to be there. -/
def requireIncident (incidentId : Uuid) : Proc (Session World) Raised Incident := do
  let found ← getById ports incidentId
  match found with
  | none => raise (.other ("Incident '" ++ incidentId.str ++ "' was not found."))
  | some incident => pure incident

/-- `_require_incident_and_reports`, of the reports the latest. -/
def requireIncidentAndReports (incidentId : Uuid) :
    Proc (Session World) Raised (Incident × RcaReport) := do
  let incident ← requireIncident ports incidentId
  let reports ← select ports (reportsOf incidentId)
  match reports.getLast? with
  | none => raise (.invalid "No RCA exists for this investigation.")
  | some latest => pure (incident, latest)

/-- `SqlAlchemyRcaRepository.save` -/
def saveRca (report : RcaReport) : Proc (Session World) Raised Unit := do
  let stored ← select ports fun db => db.rcaReports.any fun row => row.id = report.id
  if stored then write ports (fun _ => false) (saveRcaRow report) else addRca ports report

/-- A change of the review status, which is saved when it is one. -/
def review (latest : RcaReport) (reviewStatus : RcaReviewStatus) :
    Proc (Session World) Raised Unit :=
  if reviewStatus = latest.reviewStatus then pure ()
  else saveRca ports (latest.withReviewStatus reviewStatus)

/-- `GetInvestigationProgress.execute` up to `assemble_progress`. -/
def getProgress (incidentId : Uuid) : Proc (Session World) Raised ProgressView := do
  let incident ← requireIncident ports incidentId
  let stored ← loadProgress ports incidentId
  let evidence ← select ports fun db => db.evidence.filter fun row => row.incidentId = incidentId
  let reports ← select ports (reportsOf incidentId)
  pure ⟨incident, stored, evidence, reports⟩

/-- The incident is identified if it is still being investigated. -/
def identify (incident : Incident) : Proc (Session World) Raised Unit :=
  if incident.state = .investigating then do
    let moment ← sessionDraw ports.now
    let moved ← fromExcept
      ((incident.transitionTo .identified moment).mapError Raised.invalid)
    save ports moved
  else pure ()

/-- `TransitionRca.accept` -/
def accept (incidentId : Uuid) : Proc (Session World) Raised ProgressView := do
  let (incident, latest) ← requireIncidentAndReports ports incidentId
  review ports latest .accepted
  identify ports incident
  getProgress ports incidentId

/-- The stored progress, or else a new one. -/
def progressOrNew (incidentId : Uuid) :
    Option InvestigationProgress → Proc (Session World) Raised InvestigationProgress
  | some stored => pure stored
  | none => do
    let now ← sessionDraw ports.now
    pure (InvestigationProgress.notStarted incidentId now)

/-- `TransitionRca.reject` -/
def reject (incidentId : Uuid) : Proc (Session World) Raised ProgressView := do
  let (incident, latest) ← requireIncidentAndReports ports incidentId
  review ports latest .rejected
  let stored ← loadProgress ports incidentId
  let base ← progressOrNew ports incidentId stored
  let now ← sessionDraw ports.now
  saveProgress ports (base.withRejection now)
  notifyEscalated ports incident "rca_rejected"
  getProgress ports incidentId

/-- The citations of a command, or those of the latest version when it gives none. -/
def AmendRcaCommand.citations (command : AmendRcaCommand) (latest : RcaReport) : List RcaCitation :=
  match command.evidenceCitations with
  | some (citation :: rest) => citation :: rest
  | _ => latest.citations

/-- The checks that `amend` makes before it builds a version. -/
def AmendRcaCommand.finding (command : AmendRcaCommand) (latest : RcaReport) :
    Except Raised RcaFindingStatus :=
  if command.citations latest = [] then
    .error (.invalid "Amended RCA must cite at least one evidence_id.")
  else
    match parseFindingStatus command.status with
    | none => .error (.invalid "status must be 'confirmed' or 'hypothesis'.")
    | some finding => .ok finding

/-- The version that `amend` adds. -/
def amendedReport (incidentId : Uuid) (latest : RcaReport) (command : AmendRcaCommand)
    (finding : RcaFindingStatus) (id : Uuid) (createdAt : Instant) : Except Raised RcaReport :=
  RcaReport.new id incidentId (latest.version + 1) .amended command.summary command.rootCause
    command.contributingFactors command.confidence finding .pendingReview
    (command.citations latest) command.recommendedActions "human-amendment" 0 0 createdAt

/-- `TransitionRca.amend` -/
def amend (incidentId : Uuid) (command : AmendRcaCommand) :
    Proc (Session World) Raised ProgressView := do
  let (incident, latest) ← requireIncidentAndReports ports incidentId
  let finding ← fromExcept (command.finding latest)
  let id ← sessionDraw ports.uuid4
  let createdAt ← sessionDraw ports.now
  let amended ← fromExcept (amendedReport incidentId latest command finding id createdAt)
  addRca ports amended
  notifyRcaReady ports incident amended
  getProgress ports incidentId

def transitionRca (incidentId : Uuid) : ReviewCall → Proc (Session World) Raised ProgressView
  | .accept => accept ports incidentId
  | .reject => reject ports incidentId
  | .amend command => amend ports incidentId command

inductive ReviewEnd where
  | answered (view : ProgressView)
  | refused (raised : Raised)

def ReviewEnd.isAnswered : ReviewEnd → Bool
  | .answered _ => true
  | .refused _ => false

/-- A request in its own session: committed when it returns, and else rolled back. -/
def answer (incidentId : Uuid) (call : ReviewCall) (worker : Worker World) :
    ReviewEnd × Worker World :=
  match (transitionRca ports incidentId call >>= fun view => statement ports >>= fun _ => pure view)
      ⟨worker.db, worker.process, false⟩ with
  | (.ok view, s) => (.answered view, ⟨s.db, s.process⟩)
  | (.error raised, s) => (.refused raised, ⟨worker.db, s.process⟩)

end Calls

variable {World : Type} {ports : WorkerPorts World} {incidentId : Uuid} {s t : Session World}
  {view : ProgressView}

theorem select_ok {Value : Type} {f : Db → Value} {a : Value}
    (h : select ports f s = (.ok a, t)) : a = f s.db ∧ t.db = s.db := by
  obtain ⟨_, u, hstatement, h⟩ := bind_eq_ok.mp h
  have hdb := (statement_ok hstatement).db
  cases h
  exact ⟨congrArg f hdb, hdb⟩

theorem sessionDraw_ok {Value : Type} {f : World → Value × World} {a : Value}
    (h : sessionDraw f s = (.ok a, t)) : t.db = s.db := by
  obtain ⟨world, _, rfl⟩ := within_eq_ok.mp h
  rfl

theorem loadProgress_ok {stored : Option InvestigationProgress}
    (h : loadProgress ports incidentId s = (.ok stored, t)) :
    t.db = s.db ∧ ∃ order, stored = progressOf order incidentId s.db := by
  obtain ⟨order, u, horder, h⟩ := bind_eq_ok.mp h
  have hu := sessionDraw_ok horder
  obtain ⟨rfl, ht⟩ := select_ok h
  rw [hu] at ht ⊢
  exact ⟨ht, order, rfl⟩

theorem requireIncident_ok {incident : Incident}
    (h : requireIncident ports incidentId s = (.ok incident, t)) :
    t.db = s.db ∧ ∃ row, s.db.incidents.find? (fun row => row.id = incidentId) = some row ∧
      incident = toDomain row := by
  obtain ⟨found, u, hfound, h⟩ := bind_eq_ok.mp h
  obtain ⟨hdb, rfl⟩ := getById_ok hfound
  cases hrow : s.db.incidents.find? fun row => row.id = incidentId with
  | none =>
    rw [hrow] at h
    cases h
  | some row =>
    rw [hrow] at h
    cases h
    exact ⟨hdb, row, rfl, rfl⟩

/-- The newest version of the RCA of an incident. -/
structure LatestOf (incidentId : Uuid) (db : Db) (row : RcaReport) : Prop where
  mem : row ∈ db.rcaReports
  incident : row.incidentId = incidentId
  newest : ∀ other ∈ db.rcaReports, other.incidentId = incidentId → other.version ≤ row.version

theorem latestOf_getLast {db : Db} {latest : RcaReport}
    (h : (reportsOf incidentId db).getLast? = some latest) :
    ∃ row, LatestOf incidentId db row ∧ latest = rcaToDomain row := by
  unfold reportsOf at h
  rw [List.getLast?_map] at h
  obtain ⟨row, hrow, rfl⟩ := Option.map_eq_some_iff.mp h
  have hperm := List.perm_insertionSort (fun a b : RcaReport => a.version ≤ b.version)
    (db.rcaReports.filter fun row => row.incidentId = incidentId)
  obtain ⟨hmem, hid⟩ := List.mem_filter.mp (hperm.mem_iff.mp (List.mem_of_getLast? hrow))
  refine ⟨row, ⟨hmem, of_decide_eq_true hid, fun other hother hotherId => ?_⟩, rfl⟩
  have hsorted := List.pairwise_insertionSort (fun a b : RcaReport => a.version ≤ b.version)
    (db.rcaReports.filter fun row => row.incidentId = incidentId)
  have hlisted := hperm.mem_iff.mpr (List.mem_filter.mpr ⟨hother, decide_eq_true hotherId⟩)
  obtain ⟨before, hsplit⟩ := List.getLast?_eq_some_iff.mp hrow
  rw [hsplit] at hsorted hlisted
  rcases List.mem_append.mp hlisted with hbefore | hlast
  · exact (List.pairwise_append.mp hsorted).2.2 other hbefore row (by simp)
  · rw [List.mem_singleton.mp hlast]

theorem requireIncidentAndReports_ok {incident : Incident} {latest : RcaReport}
    (h : requireIncidentAndReports ports incidentId s = (.ok (incident, latest), t)) :
    t.db = s.db ∧ ∃ row report,
      s.db.incidents.find? (fun row => row.id = incidentId) = some row ∧ incident = toDomain row ∧
      LatestOf incidentId s.db report ∧ latest = rcaToDomain report := by
  obtain ⟨found, u, hfound, h⟩ := bind_eq_ok.mp h
  obtain ⟨hdb, row, hrow, rfl⟩ := requireIncident_ok hfound
  obtain ⟨reports, v, hreports, h⟩ := bind_eq_ok.mp h
  obtain ⟨rfl, hdb'⟩ := select_ok hreports
  rw [hdb] at hdb' h
  cases hlatest : (reportsOf incidentId s.db).getLast? with
  | none =>
    rw [hlatest] at h
    cases h
  | some newest =>
    rw [hlatest] at h
    cases h
    obtain ⟨report, hnewest, rfl⟩ := latestOf_getLast hlatest
    exact ⟨hdb', row, report, hrow, rfl, hnewest, rfl⟩

/-- The tables after the review of a version. -/
def reviewedDb (latest : RcaReport) (reviewStatus : RcaReviewStatus) (db : Db) : Db :=
  if reviewStatus = latest.reviewStatus then db
  else saveRcaRow (latest.withReviewStatus reviewStatus) db

theorem withReviewStatus_id (report : RcaReport) (reviewStatus : RcaReviewStatus) :
    (report.withReviewStatus reviewStatus).id = report.id := by
  unfold RcaReport.withReviewStatus
  split <;> rfl

theorem review_ok {latest : RcaReport} {reviewStatus : RcaReviewStatus}
    (stored : ∃ row ∈ s.db.rcaReports, row.id = latest.id)
    (h : review ports latest reviewStatus s = (.ok (), t)) :
    t.db = reviewedDb latest reviewStatus s.db := by
  unfold review at h
  unfold reviewedDb
  by_cases hsame : reviewStatus = latest.reviewStatus
  · rw [if_pos hsame] at h ⊢
    cases h
    rfl
  · rw [if_neg hsame] at h ⊢
    obtain ⟨known, u, hknown, h⟩ := bind_eq_ok.mp h
    obtain ⟨rfl, hdb⟩ := select_ok hknown
    have hany : (s.db.rcaReports.any fun row =>
        row.id = (latest.withReviewStatus reviewStatus).id) = true := by
      obtain ⟨row, hrow, hid⟩ := stored
      rw [withReviewStatus_id]
      exact List.any_eq_true.mpr ⟨row, hrow, decide_eq_true hid⟩
    rw [if_pos hany] at h
    rw [(write_ok h).2.db, hdb]

theorem identify_ok {incident : Incident} (h : identify ports incident s = (.ok (), t)) :
    (incident.state ≠ .investigating ∧ t.db = s.db) ∨ ∃ moment moved,
      incident.state = .investigating ∧ incident.transitionTo .identified moment = .ok moved ∧
      t.db = saveIncident moved s.db := by
  unfold identify at h
  split at h
  next hstate =>
    obtain ⟨moment, u, hdraw, h⟩ := bind_eq_ok.mp h
    obtain ⟨world, _, rfl⟩ := within_eq_ok.mp hdraw
    obtain ⟨moved, v, hmoved, h⟩ := bind_eq_ok.mp h
    obtain ⟨hmove, rfl⟩ := fromExcept_eq_ok.mp hmoved
    refine .inr ⟨moment, moved, hstate, ?_, (write_ok h).2.db⟩
    cases hinner : incident.transitionTo .identified moment with
    | error text =>
      rw [hinner] at hmove
      cases hmove
    | ok other =>
      rw [hinner] at hmove
      cases hmove
      rfl
  next hstate =>
    cases h
    exact .inl ⟨hstate, rfl⟩

theorem getProgress_ok (h : getProgress ports incidentId s = (.ok view, t)) : t.db = s.db := by
  obtain ⟨incident, u, hincident, h⟩ := bind_eq_ok.mp h
  obtain ⟨stored, v, hstored, h⟩ := bind_eq_ok.mp h
  obtain ⟨evidence, w, hevidence, h⟩ := bind_eq_ok.mp h
  obtain ⟨reports, x, hreports, h⟩ := bind_eq_ok.mp h
  cases h
  rw [(select_ok hreports).2, (select_ok hevidence).2, (loadProgress_ok hstored).1,
    (requireIncident_ok hincident).1]

/-- Each call starts by loading the incident and its newest version, which it then reviews or
amends. -/
theorem review_latest_ok {incident : Incident} {latest : RcaReport} {u : Session World}
    {reviewStatus : RcaReviewStatus}
    (hfound : requireIncidentAndReports ports incidentId s = (.ok (incident, latest), u))
    (hreview : review ports latest reviewStatus u = (.ok (), t)) :
    ∃ row report, s.db.incidents.find? (fun row => row.id = incidentId) = some row ∧
      incident = toDomain row ∧ LatestOf incidentId s.db report ∧
      t.db = reviewedDb (rcaToDomain report) reviewStatus s.db := by
  obtain ⟨hdb, row, report, hrow, rfl, hlatest, rfl⟩ := requireIncidentAndReports_ok hfound
  have hstored : ∃ row ∈ u.db.rcaReports, row.id = (rcaToDomain report).id := by
    rw [hdb]
    exact ⟨report, hlatest.mem, rfl⟩
  have hreviewed := review_ok hstored hreview
  rw [hdb] at hreviewed
  exact ⟨row, report, hrow, rfl, hlatest, hreviewed⟩

/-- `accept` reviews the newest version, and identifies an incident that is being investigated. -/
theorem accept_ok (h : accept ports incidentId s = (.ok view, t)) : ∃ row report,
    s.db.incidents.find? (fun row => row.id = incidentId) = some row ∧
    LatestOf incidentId s.db report ∧
    ((row.state ≠ .investigating ∧ t.db = reviewedDb (rcaToDomain report) .accepted s.db) ∨
      ∃ moment moved, row.state = .investigating ∧
        (toDomain row).transitionTo .identified moment = .ok moved ∧
        t.db = saveIncident moved (reviewedDb (rcaToDomain report) .accepted s.db)) := by
  obtain ⟨⟨incident, latest⟩, u, hfound, h⟩ := bind_eq_ok.mp h
  obtain ⟨_, v, hreview, h⟩ := bind_eq_ok.mp h
  obtain ⟨row, report, hrow, rfl, hlatest, hreviewed⟩ := review_latest_ok hfound hreview
  obtain ⟨_, w, hidentify, h⟩ := bind_eq_ok.mp h
  have hview := getProgress_ok h
  refine ⟨row, report, hrow, hlatest, ?_⟩
  rcases identify_ok hidentify with ⟨hstate, hsame⟩ | ⟨moment, moved, hstate, hmove, hsaved⟩
  · exact .inl ⟨hstate, by rw [hview, hsame, hreviewed]⟩
  · exact .inr ⟨moment, moved, hstate, hmove, by rw [hview, hsaved, hreviewed]⟩

theorem progressOrNew_ok {stored : Option InvestigationProgress} {base : InvestigationProgress}
    (h : progressOrNew ports incidentId stored s = (.ok base, t)) :
    t.db = s.db ∧ (stored = some base ∨
      ∃ now, stored = none ∧ base = InvestigationProgress.notStarted incidentId now) := by
  cases stored with
  | some progress =>
    cases h
    exact ⟨rfl, .inl rfl⟩
  | none =>
    obtain ⟨now, u, hnow, h⟩ := bind_eq_ok.mp h
    have hdb := sessionDraw_ok hnow
    cases h
    exact ⟨hdb, .inr ⟨now, rfl, rfl⟩⟩

/-- `reject` reviews the newest version and records an escalation. -/
theorem reject_ok (h : reject ports incidentId s = (.ok view, t)) :
    ∃ (row : Incident) (report : RcaReport) (base : InvestigationProgress) (now : Instant)
      (notes : List Notification),
      s.db.incidents.find? (fun row => row.id = incidentId) = some row ∧
      LatestOf incidentId s.db report ∧
      ((∃ order, progressOf order incidentId s.db = some base) ∨
        ∃ created, storedProgress incidentId s.db = none ∧
          base = InvestigationProgress.notStarted incidentId created) ∧
      t.db = { saveProgressRow (base.withRejection now)
          (reviewedDb (rcaToDomain report) .rejected s.db) with
        notifications := s.db.notifications ++ notes } := by
  obtain ⟨⟨incident, latest⟩, u, hfound, h⟩ := bind_eq_ok.mp h
  obtain ⟨_, v, hreview, h⟩ := bind_eq_ok.mp h
  obtain ⟨row, report, hrow, rfl, hlatest, hreviewed⟩ := review_latest_ok hfound hreview
  obtain ⟨stored, w, hstored, h⟩ := bind_eq_ok.mp h
  obtain ⟨hw, order, rfl⟩ := loadProgress_ok hstored
  obtain ⟨base, x, hbase, h⟩ := bind_eq_ok.mp h
  obtain ⟨hx, hbase⟩ := progressOrNew_ok hbase
  obtain ⟨now, y, hnow, h⟩ := bind_eq_ok.mp h
  have hy := sessionDraw_ok hnow
  obtain ⟨_, z, hsave, h⟩ := bind_eq_ok.mp h
  have hz := (write_ok hsave).2.db
  obtain ⟨_, z', hnotify, h⟩ := bind_eq_ok.mp h
  have hview := getProgress_ok h
  obtain ⟨notes, hnotes, _⟩ := (leaves_eq (notifies_notifyEscalated _ _) hnotify).db
  have hprogress : progressOf order incidentId v.db = progressOf order incidentId s.db := by
    rw [hreviewed]
    unfold reviewedDb
    split <;> rfl
  rw [hprogress] at hbase
  refine ⟨row, report, base, now, notes, hrow, hlatest, ?_, ?_⟩
  · rcases hbase with hread | ⟨created, hnone, hnew⟩
    · exact .inl ⟨order, hread⟩
    · exact .inr ⟨created, Option.map_eq_none_iff.mp hnone, hnew⟩
  rw [hview, hnotes, hz, hy, hx, hw, hreviewed]
  unfold reviewedDb
  split <;> rfl

/-- `amend` adds the version after the newest one. -/
theorem amend_ok {command : AmendRcaCommand}
    (h : amend ports incidentId command s = (.ok view, t)) :
    ∃ (row : Incident) (report amended : RcaReport) (finding : RcaFindingStatus) (id : Uuid)
      (createdAt : Instant) (notes : List Notification),
      s.db.incidents.find? (fun row => row.id = incidentId) = some row ∧
      LatestOf incidentId s.db report ∧ command.finding (rcaToDomain report) = .ok finding ∧
      amendedReport incidentId (rcaToDomain report) command finding id createdAt = .ok amended ∧
      rcaConflict amended s.db = false ∧
      t.db = { s.db with
        rcaReports := s.db.rcaReports ++ [amended]
        notifications := s.db.notifications ++ notes } := by
  obtain ⟨⟨incident, latest⟩, u, hfound, h⟩ := bind_eq_ok.mp h
  obtain ⟨hu, row, report, hrow, rfl, hlatest, rfl⟩ := requireIncidentAndReports_ok hfound
  obtain ⟨finding, v, hfound', h⟩ := bind_eq_ok.mp h
  obtain ⟨hfinding, rfl⟩ := fromExcept_eq_ok.mp hfound'
  obtain ⟨id, w, hid, h⟩ := bind_eq_ok.mp h
  have hw := sessionDraw_ok hid
  obtain ⟨createdAt, x, hcreated, h⟩ := bind_eq_ok.mp h
  have hx := sessionDraw_ok hcreated
  obtain ⟨amended, y, hbuilt, h⟩ := bind_eq_ok.mp h
  obtain ⟨hamended, rfl⟩ := fromExcept_eq_ok.mp hbuilt
  obtain ⟨_, z, hadd, h⟩ := bind_eq_ok.mp h
  obtain ⟨hfree, hadded⟩ := write_ok hadd
  obtain ⟨_, z', hnotify, h⟩ := bind_eq_ok.mp h
  have hview := getProgress_ok h
  obtain ⟨notes, hnotes, _⟩ := (leaves_eq (notifies_notifyRcaReady _ _) hnotify).db
  rw [hx, hw, hu] at hfree
  refine ⟨row, report, amended, finding, id, createdAt, notes, hrow, hlatest, hfinding, hamended,
    hfree, ?_⟩
  rw [hview, hnotes, hadded.db, hx, hw, hu]

/-- A request that is refused changes no table; one that is answered has made its call. -/
theorem answer_cases (ports : WorkerPorts World) (incidentId : Uuid) (call : ReviewCall)
    (worker : Worker World) :
    (∃ raised process, answer ports incidentId call worker =
        (.refused raised, ⟨worker.db, process⟩)) ∨
      ∃ view s process, transitionRca ports incidentId call ⟨worker.db, worker.process, false⟩ =
          (.ok view, s) ∧
        answer ports incidentId call worker = (.answered view, ⟨s.db, process⟩) := by
  unfold answer
  rcases hcall : transitionRca ports incidentId call ⟨worker.db, worker.process, false⟩ with
    ⟨raised | view, s⟩
  · rw [bind_of_error hcall]
    exact .inl ⟨raised, s.process, rfl⟩
  · rw [bind_of_ok hcall]
    have hcommit := statement_becomes ports s
    rcases hstatement : statement ports s with ⟨raised | _, t⟩
    · rw [bind_of_error hstatement]
      exact .inl ⟨raised, t.process, rfl⟩
    · rw [hstatement] at hcommit
      rw [bind_of_ok hstatement]
      refine .inr ⟨view, s, t.process, rfl, ?_⟩
      rw [← hcommit.db]
      rfl

end Aegis
