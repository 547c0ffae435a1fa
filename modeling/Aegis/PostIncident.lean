import Aegis.RcaRoundTrip
import Aegis.TransitionRca

namespace Aegis

def NotificationKind.value : NotificationKind → String
  | .rcaReady => "rca_ready"
  | .escalation => "escalation"

structure TimelineEntry where
  at_ : Instant
  kind : String
  detail : String

structure EvidenceEntry where
  id : Uuid
  source : String
  kind : String
  summary : String

structure RcaEntry where
  version : Nat
  versionKind : String
  reviewStatus : String
  summary : String
  rootCause : String
  recommendedActions : List String

structure NotificationEntry where
  kind : String
  reason : String
  createdAt : Instant

structure PostIncidentReport where
  incidentId : Uuid
  title : String
  service : String
  severity : String
  state : String
  timeline : List TimelineEntry
  evidence : List EvidenceEntry
  rcaVersions : List RcaEntry
  acceptedRootCause : Option String
  recommendedActions : List String
  notifications : List NotificationEntry
  markdown : String

/-- What the five repositories return for an incident. -/
structure ReportStores where
  incidents : Uuid → Option Incident
  evidence : Uuid → List Evidence
  rca : Uuid → List RcaReport
  progress : Uuid → Option InvestigationProgress
  notifications : Uuid → List Notification

/-- `_REPORTABLE` -/
def reportable : List IncidentState := [.identified, .closed]

def StateTransition.entry (step : StateTransition) : TimelineEntry :=
  ⟨step.occurredAt, "state", step.fromState.value ++ " → " ++ step.toState.value⟩

def InvestigationStep.entry (step : InvestigationStep) : TimelineEntry :=
  ⟨step.occurredAt, "investigation", step.name ++ " " ++ step.status.value⟩

/-- The timeline: `list.sort` keeps the order of entries with one time. -/
def timelineOf (incident : Incident) (stored : Option InvestigationProgress) : List TimelineEntry :=
  let steps := match stored with
    | none => []
    | some stored => stored.steps
  (incident.stateHistory.map StateTransition.entry ++ steps.map InvestigationStep.entry).insertionSort
    fun a b => a.at_ ≤ b.at_

def evidenceEntry (redact : String → String) (item : Evidence) : EvidenceEntry :=
  ⟨item.id, item.source.value, item.kind.value, redact item.summary⟩

def rcaEntry (redact : String → String) (item : RcaReport) : RcaEntry :=
  ⟨item.version, item.versionKind.value, item.reviewStatus.value, redact item.summary.text,
    redact item.rootCause.text, item.recommendedActions⟩

def notificationEntry (item : Notification) : NotificationEntry :=
  ⟨item.kind.value, item.reason, item.createdAt⟩

/-- The last version that was accepted. -/
def acceptedOf (rows : List RcaEntry) : Option RcaEntry :=
  rows.reverse.find? fun item => item.reviewStatus = "accepted"

/-- The lines, or the one line that stands for none. -/
def orLine {Line : Type} (empty : Line) : List Line → List Line
  | [] => [empty]
  | lines => lines

def headLines (report : PostIncidentReport) : List String :=
  ["", "- incident_id: \x60" ++ report.incidentId.str ++ "\x60", "- service: " ++ report.service,
    "- severity: " ++ report.severity, "- state: " ++ report.state]

def timelineLines (timeline : List TimelineEntry) : List String :=
  orLine "- (empty)" (timeline.map fun item =>
    "- " ++ isoformat item.at_ ++ " [" ++ item.kind ++ "] " ++ item.detail)

def evidenceLines (evidence : List EvidenceEntry) : List String :=
  orLine "- (none)" (evidence.map fun item =>
    "- \x60" ++ item.id.str ++ "\x60 (" ++ item.source ++ "/" ++ item.kind ++ ") " ++ item.summary)

/-- The line of the accepted root cause, unless there is none or it is empty. -/
def acceptedLines : Option String → List String
  | none => []
  | some cause => if cause = "" then [] else ["Accepted root cause: " ++ cause]

def rcaLines (versions : List RcaEntry) : List String :=
  versions.map fun item =>
    "- v" ++ toString item.version ++ " " ++ item.versionKind ++ " [" ++ item.reviewStatus ++ "] " ++
      item.summary

def actionLines (actions : List String) : List String :=
  orLine "- (none)" (actions.map fun action => "- " ++ action)

def notificationLines (notifications : List NotificationEntry) : List String :=
  orLine "- (none)" (notifications.map fun item =>
    "- " ++ isoformat item.createdAt ++ " " ++ item.kind ++ " (" ++ item.reason ++ ")")

/-- The lines of `render_markdown`. -/
def markdownLines (report : PostIncidentReport) : List String :=
  ("# Post-incident report — " ++ report.title) :: (headLines report ++
    ["", "## Timeline"] ++ timelineLines report.timeline ++
    ["", "## Evidence"] ++ evidenceLines report.evidence ++
    ["", "## RCA"] ++ acceptedLines report.acceptedRootCause ++ rcaLines report.rcaVersions ++
    ["", "## Recommended actions"] ++ actionLines report.recommendedActions ++
    ["", "## Notifications"] ++ notificationLines report.notifications ++
    ["", "This report is not indexed. Curate markdown under " ++
      "\x60docs/knowledge/incidents/\x60 then run Step 3.6 ingest."])

def renderMarkdown (report : PostIncidentReport) : String :=
  String.intercalate "\n" (markdownLines report)

theorem renderMarkdown_markdown (report : PostIncidentReport) (markdown : String) :
    renderMarkdown { report with markdown } = renderMarkdown report := rfl

/-- The report before its markdown is rendered. -/
def plainReport (redact : String → String) (stores : ReportStores) (incidentId : Uuid)
    (incident : Incident) : PostIncidentReport :=
  let rcaRows := (stores.rca incidentId).map (rcaEntry redact)
  let accepted := acceptedOf rcaRows
  { incidentId := incident.id
    title := incident.title.text
    service := incident.affectedService.text
    severity := incident.severity.value
    state := incident.state.value
    timeline := timelineOf incident (stores.progress incidentId)
    evidence := (stores.evidence incidentId).map (evidenceEntry redact)
    rcaVersions := rcaRows
    acceptedRootCause := accepted.map RcaEntry.rootCause
    recommendedActions := (accepted.map RcaEntry.recommendedActions).getD []
    notifications := (stores.notifications incidentId).map notificationEntry
    markdown := "" }

/-- `BuildPostIncidentReport.execute` -/
def buildPostIncidentReport (redact : String → String) (stores : ReportStores) (incidentId : Uuid) :
    Except Raised PostIncidentReport :=
  match stores.incidents incidentId with
  | none => .error (.other ("Incident '" ++ incidentId.str ++ "' was not found."))
  | some incident =>
    if incident.state ∉ reportable then
      .error (.invalid "Post-incident report is available after identified or closed.")
    else
      let report := plainReport redact stores incidentId incident
      .ok { report with markdown := renderMarkdown report }

theorem buildPostIncidentReport_ok {redact : String → String} {stores : ReportStores}
    {incidentId : Uuid} {incident : Incident} (found : stores.incidents incidentId = some incident)
    (ready : incident.state ∈ reportable) : buildPostIncidentReport redact stores incidentId =
      .ok { plainReport redact stores incidentId incident with
        markdown := renderMarkdown (plainReport redact stores incidentId incident) } := by
  unfold buildPostIncidentReport
  rw [found]
  dsimp only
  rw [if_neg (not_not.mpr ready)]

end Aegis
