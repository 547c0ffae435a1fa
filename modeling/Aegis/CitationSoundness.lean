import Aegis.RunEnd
import Aegis.ReviewStates

namespace Aegis

open Raising Proc StepPath

variable {World : Type} {ports : WorkerPorts World}

/-- The primary key of `rca_reports`. -/
def UniqueIds (db : Db) : Prop := (db.rcaReports.map RcaReport.id).Nodup

/-- Each version of an RCA cites rows of evidence of its own incident. -/
def CitesStored (db : Db) : Prop :=
  ∀ report ∈ db.rcaReports, ∀ citation ∈ report.citations, ∃ row ∈ db.evidence,
    row.id = citation.evidenceId ∧ row.incidentId = report.incidentId

section Keys

/-- The primary key holds after a part of a handling if it did before. -/
def KeepsIds (s t : Session World) : Prop := UniqueIds s.db → UniqueIds t.db

theorem keepsIds_refl (s : Session World) : KeepsIds s s := id

theorem keepsIds_trans (s t u : Session World) (h : KeepsIds s t) (h' : KeepsIds t u) :
    KeepsIds s u := h' ∘ h

theorem keepsIds_bind {Value Result : Type} {p : Proc (Session World) Raised Value}
    {f : Value → Proc (Session World) Raised Result} (first : Leaves KeepsIds p)
    (second : ∀ a, Leaves KeepsIds (f a)) : Leaves KeepsIds (p >>= f) :=
  leaves_bind keepsIds_trans first second

theorem keepsIds_of_db {s t : Session World} (h : t.db.rcaReports = s.db.rcaReports) :
    KeepsIds s t := by
  intro unique
  unfold UniqueIds
  rw [h]
  exact unique

theorem keepsIds_statement : Leaves KeepsIds (statement ports) := fun s =>
  keepsIds_of_db (congrArg Db.rcaReports (statement_becomes ports s).db)

theorem keepsIds_write {conflict : Db → Bool} {change : Db → Db}
    (keeps : ∀ db, conflict db = false → UniqueIds db → UniqueIds (change db)) :
    Leaves KeepsIds (write ports conflict change) := by
  intro s
  unfold write
  rw [bind_apply]
  rcases hstatement : statement ports s with ⟨raised | _, t⟩
  · have h := @keepsIds_statement _ ports s
    rwa [hstatement] at h
  · have h := @keepsIds_statement _ ports s
    rw [hstatement] at h
    refine keepsIds_trans _ _ _ h ?_
    change KeepsIds t ((if conflict t.db = true then _ else _ : Proc (Session World) Raised Unit) t).2
    split
    · exact keepsIds_refl t
    next hfree =>
      exact fun unique => keeps t.db (by simpa using hfree) unique

theorem uniqueIds_concat {report : RcaReport} {db : Db} (hfree : rcaConflict report db = false)
    (unique : UniqueIds db) :
    UniqueIds { db with rcaReports := db.rcaReports ++ [report] } := by
  unfold UniqueIds
  rw [List.map_append, List.nodup_append]
  refine ⟨unique, by simp, fun id hid other hother => ?_⟩
  obtain ⟨row, hrow, rfl⟩ := List.mem_map.mp hid
  obtain rfl : other = report.id := by simpa using hother
  have hapart := List.any_eq_false.mp hfree row hrow
  simp only [Bool.or_eq_true, decide_eq_true_eq, not_or] at hapart
  exact hapart.1

theorem keepsIds_addRca (report : RcaReport) : Leaves KeepsIds (addRca ports report) :=
  keepsIds_write fun _ hfree unique => uniqueIds_concat hfree unique

theorem keepsIds_fromExcept {Value : Type} (x : Except Raised Value) :
    Leaves KeepsIds (fromExcept x : Proc (Session World) Raised Value) :=
  leaves_fromExcept keepsIds_refl x

theorem keepsIds_pure {Value : Type} (a : Value) :
    Leaves KeepsIds (pure a : Proc (Session World) Raised Value) :=
  leaves_pure keepsIds_refl a

theorem keepsIds_of_notifies {Value : Type} {p : Proc (Session World) Raised Value}
    {incidentId : Uuid} (h : Leaves (Notifies incidentId) p) : Leaves KeepsIds p := by
  intro s
  obtain ⟨notes, hdb, _⟩ := (h s).db
  refine keepsIds_of_db ?_
  rw [hdb]

theorem keepsIds_forEach {Item : Type} {f : Item → Proc (Session World) Raised Unit}
    (each : ∀ item, Leaves KeepsIds (f item)) (items : List Item) :
    Leaves KeepsIds (forEach f items) :=
  leaves_forEach keepsIds_refl keepsIds_trans each items

theorem keepsIds_drain {Value : Type} {buffer : Runner → Value} {clear : Runner → Runner}
    {f : Value → Proc (Session World) Raised Unit} (each : ∀ a, Leaves KeepsIds (f a)) :
    Leaves KeepsIds (drain buffer clear >>= f) :=
  keepsIds_bind (fun _ => keepsIds_of_db rfl) each

theorem keepsIds_onProcess {Value : Type} (p : Proc (Process World) Raised Value) :
    Leaves KeepsIds (onProcess p) := leaves_within fun _ _ => keepsIds_of_db rfl

theorem keepsIds_write_other {conflict : Db → Bool} {change : Db → Db}
    (other : ∀ db, (change db).rcaReports = db.rcaReports) :
    Leaves KeepsIds (write ports conflict change) := by
  refine keepsIds_write fun db _ unique => ?_
  unfold UniqueIds
  rw [other]
  exact unique

theorem keepsIds_persistCollectedEvidence : Leaves KeepsIds (persistCollectedEvidence ports) := by
  have each : ∀ row, Leaves KeepsIds (recordEvidence ports row) := fun row =>
    keepsIds_bind (keepsIds_fromExcept _) fun _ => keepsIds_write_other fun _ => rfl
  exact keepsIds_drain fun items => keepsIds_forEach each items

theorem keepsIds_persistRecordedAudit : Leaves KeepsIds (persistRecordedAudit ports) := by
  have each : ∀ entry, Leaves KeepsIds (appendAudit ports entry) := fun entry =>
    keepsIds_write_other fun _ => rfl
  exact keepsIds_drain fun items => keepsIds_forEach each items

theorem keepsIds_persistRecordedRca (incident : Incident) :
    Leaves KeepsIds (persistRecordedRca ports incident) := by
  have each : ∀ report, Leaves KeepsIds (recordRca ports incident report) := fun report =>
    keepsIds_bind (keepsIds_addRca report) fun _ =>
      keepsIds_of_notifies (notifies_notifyRcaReady incident report)
  exact keepsIds_drain fun items => keepsIds_forEach each items

theorem keepsIds_persistRecordedProgress (incident : Incident) :
    Leaves KeepsIds (persistRecordedProgress ports incident) := by
  refine keepsIds_drain fun item => ?_
  cases item with
  | none => exact keepsIds_pure _
  | some progress =>
    have saved : Leaves KeepsIds (saveProgress ports progress) := keepsIds_write_other fun _ => rfl
    exact keepsIds_bind saved fun _ =>
      keepsIds_of_notifies (notifies_notifyEscalated incident _)

theorem keepsIds_investigateIncident (event : DomainEvent) (incident : Incident) :
    Leaves KeepsIds (investigateIncident ports event incident) :=
  keepsIds_bind (keepsIds_onProcess _) fun _ =>
    keepsIds_bind keepsIds_persistCollectedEvidence fun _ =>
      keepsIds_bind keepsIds_persistRecordedAudit fun _ =>
        keepsIds_bind (keepsIds_persistRecordedRca incident) fun _ =>
          keepsIds_persistRecordedProgress incident

end Keys

section Reviews

variable {incidentId : Uuid} {s t : Session World} {view : ProgressView}

theorem uniqueIds_reviewedDb (latest : RcaReport) (reviewStatus : RcaReviewStatus) {db : Db}
    (unique : UniqueIds db) : UniqueIds (reviewedDb latest reviewStatus db) := by
  unfold reviewedDb
  split
  · exact unique
  · have ids : ((saveRcaRow (latest.withReviewStatus reviewStatus) db).rcaReports.map
        RcaReport.id) = db.rcaReports.map RcaReport.id := by
      unfold saveRcaRow
      rw [List.map_map]
      refine List.map_congr_left fun row _ => ?_
      dsimp only [Function.comp]
      split <;> rfl
    unfold UniqueIds
    rw [ids]
    exact unique

theorem withReviewStatus_citations (report : RcaReport) (reviewStatus : RcaReviewStatus) :
    (report.withReviewStatus reviewStatus).citations = report.citations := by
  unfold RcaReport.withReviewStatus
  split <;> rfl

theorem rcaToDomain_evidenceIds (row : RcaReport) :
    (rcaToDomain row).citations.map RcaCitation.evidenceId =
      row.citations.map RcaCitation.evidenceId := by
  unfold rcaToDomain
  rw [List.map_map]
  rfl

/-- The review of a version leaves what it cites. -/
theorem citesStored_reviewedDb {db : Db} {report : RcaReport} (hmem : report ∈ db.rcaReports)
    (unique : UniqueIds db) (cites : CitesStored db) (reviewStatus : RcaReviewStatus) :
    CitesStored (reviewedDb (rcaToDomain report) reviewStatus db) := by
  unfold reviewedDb
  split
  · exact cites
  · intro changed hchanged citation hcitation
    obtain ⟨row, hrow, rfl⟩ := List.mem_map.mp hchanged
    by_cases hid : row.id = ((rcaToDomain report).withReviewStatus reviewStatus).id
    · rw [if_pos hid] at hcitation ⊢
      change citation ∈ ((rcaToDomain report).withReviewStatus reviewStatus).citations at hcitation
      rw [withReviewStatus_citations] at hcitation
      have hsame : row = report :=
        List.inj_on_of_nodup_map unique hrow hmem (hid.trans (withReviewStatus_id _ _))
      have hcited := List.mem_map_of_mem (f := RcaCitation.evidenceId) hcitation
      rw [rcaToDomain_evidenceIds] at hcited
      obtain ⟨own, hown, hevidence⟩ := List.mem_map.mp hcited
      obtain ⟨stored, hstored, hstoredId, hincident⟩ := cites report hmem own hown
      exact ⟨stored, hstored, hstoredId.trans hevidence, hsame ▸ hincident⟩
    · rw [if_neg hid] at hcitation ⊢
      exact cites row hrow citation hcitation

/-- All that a command cites is stored for the incident. -/
def CommandCites (incidentId : Uuid) (db : Db) (command : AmendRcaCommand) : Prop :=
  ∀ citation ∈ command.evidenceCitations.getD [], ∃ row ∈ db.evidence,
    row.id = citation.evidenceId ∧ row.incidentId = incidentId

theorem amend_cites {command : AmendRcaCommand} {db : Db} {report : RcaReport}
    (hlatest : LatestOf incidentId db report) (cites : CitesStored db)
    (grounded : CommandCites incidentId db command) :
    ∀ citation ∈ command.citations (rcaToDomain report), ∃ row ∈ db.evidence,
      row.id = citation.evidenceId ∧ row.incidentId = incidentId := by
  have own : ∀ citation ∈ (rcaToDomain report).citations, ∃ row ∈ db.evidence,
      row.id = citation.evidenceId ∧ row.incidentId = incidentId := by
    intro citation hcitation
    have hcited := List.mem_map_of_mem (f := RcaCitation.evidenceId) hcitation
    rw [rcaToDomain_evidenceIds] at hcited
    obtain ⟨before, hbefore, hevidence⟩ := List.mem_map.mp hcited
    obtain ⟨row, hrow, hid, hincident⟩ := cites report hlatest.mem before hbefore
    exact ⟨row, hrow, hid.trans hevidence, hincident.trans hlatest.incident⟩
  unfold CommandCites at grounded
  unfold AmendRcaCommand.citations
  split
  next given hgiven =>
    rw [hgiven] at grounded
    exact grounded
  · exact own

/-- A request keeps the citations sound, an amendment if it cites what is stored. -/
theorem citesStored_call {call : ReviewCall} (unique : UniqueIds s.db) (cites : CitesStored s.db)
    (grounded : ∀ command, call = .amend command → CommandCites incidentId s.db command)
    (h : transitionRca ports incidentId call s = (.ok view, t)) :
    UniqueIds t.db ∧ CitesStored t.db := by
  cases call with
  | accept =>
    obtain ⟨row, report, _, hlatest, ⟨_, hdb⟩ | ⟨moment, moved, _, _, hdb⟩⟩ := accept_ok h
    · rw [hdb]
      exact ⟨uniqueIds_reviewedDb _ _ unique, citesStored_reviewedDb hlatest.mem unique cites _⟩
    · rw [hdb]
      exact ⟨uniqueIds_reviewedDb (rcaToDomain report) .accepted unique,
        citesStored_reviewedDb hlatest.mem unique cites .accepted⟩
  | reject =>
    obtain ⟨row, report, base, now, notes, _, hlatest, _, hdb⟩ := reject_ok h
    rw [hdb]
    exact ⟨uniqueIds_reviewedDb (rcaToDomain report) .rejected unique,
      citesStored_reviewedDb hlatest.mem unique cites .rejected⟩
  | amend command =>
    obtain ⟨row, report, amended, finding, id, createdAt, notes, _, hlatest, _, hamended, hfree,
      hdb⟩ := amend_ok h
    obtain ⟨_, hincident, _, _, _, hcitations⟩ := rcaReport_new_ok hamended
    rw [hdb]
    refine ⟨uniqueIds_concat hfree unique, fun other hother citation hcitation => ?_⟩
    rcases List.mem_append.mp hother with hother | hother
    · exact cites other hother citation hcitation
    · obtain rfl := List.mem_singleton.mp hother
      rw [hcitations] at hcitation
      rw [hincident]
      exact amend_cites hlatest cites (grounded command rfl) citation hcitation

end Reviews

section Runs

variable {event : DomainEvent} {incident : Incident} {s t : Session World}

/-- A run that makes its pack of the rows it recorded: the runner holds nothing of other incidents
and no report, and `_synthesize` has collected items only where a row was recorded. -/
structure RunGrounded (ports : WorkerPorts World) (event : DomainEvent) (incident : Incident)
    (s : Session World) : Prop where
  recorded : ∀ row ∈ s.process.runner.recorded, row.incidentId = incident.id
  rcaReports : s.process.runner.rcaReports = []
  rca : (s.process.runner.thread incident.id).1.rca = none
  bucket : ∀ visit, s.process.lastVisit ports.toSpecialistPorts (startRequest ports event incident) =
      some visit → (visitDecision ports.toSpecialistPorts visit).nextAgent = .synthesize →
    visit.2.recorded = [] → visitPack ports.toSpecialistPorts visit = []

/-- A report that a run makes is made of recorded rows. -/
theorem recorded_of_report (grounded : RunGrounded ports event incident s)
    (hraised : (s.run ports event incident).1.raised = none) {report : RcaReport}
    (hreport : (s.run ports event incident).1.checkpoint.rca = some (.report report)) :
    (s.run ports event incident).2.recorded ≠ [] := by
  obtain ⟨visit, hlast⟩ := lastVisit_of_investigate (by rw [run_eq]; exact hraised)
  obtain ⟨run, hsettled, hsame, hcheckpoint, _, _, hrca⟩ := investigate_last hlast
  rw [run_eq] at hsettled hsame hcheckpoint
  rw [hcheckpoint] at hreport
  have hnone : visit.1.rca = none := hrca.trans grounded.rca
  obtain ⟨_, ending, _, ⟨_, hrouted⟩ | ⟨hsynthesize, _, hempty⟩⟩ :=
    hop_ends hsettled (hsame.symm.trans hraised)
  · rw [hrouted] at hreport
    cases hnone.symm.trans hreport
  · have hpack : visitPack ports.toSpecialistPorts visit ≠ [] := by
      intro hpack
      rw [hempty hpack, hnone] at hreport
      cases hreport
    have hbucket := mt (grounded.bucket visit hlast hsynthesize) hpack
    obtain ⟨hextends, _, _⟩ := hop_settled hsettled
    intro hrecorded
    have hprefix := hextends.recorded
    rw [hrecorded] at hprefix
    exact hbucket (List.prefix_nil.mp hprefix)

theorem packFromEvidenceRows_ids {redact : String → RedactionResult} {rows : List Evidence}
    {id : Uuid} (h : id ∈ (packFromEvidenceRows redact rows).map EvidencePackItem.evidenceId) :
    ∃ row ∈ rows, row.id = id := by
  unfold packFromEvidenceRows at h
  rw [List.map_map] at h
  obtain ⟨row, hrow, hid⟩ := List.mem_map.mp h
  exact ⟨row, List.mem_of_mem_take hrow, hid⟩

theorem report_cites_recorded (grounded : RunGrounded ports event incident s)
    (hraised : (s.run ports event incident).1.raised = none) {report : RcaReport}
    (hreport : (s.run ports event incident).1.checkpoint.rca = some (.report report)) :
    report.incidentId = incident.id ∧ ∀ citation ∈ report.citations,
      ∃ row ∈ (s.run ports event incident).2.recorded,
        row.id = citation.evidenceId ∧ row.incidentId = incident.id := by
  have hne := recorded_of_report grounded hraised hreport
  obtain ⟨hextends, _, hsource⟩ := @runGraph_facts _ ports.toSpecialistPorts
    (mergeInput (s.process.runner.thread incident.id).1 (startRequest ports event incident))
    s.process.desk
  change Extends incident.id s.process.desk (s.run ports event incident).2 at hextends
  change ReportSource _ _ (s.run ports event incident).1 (s.run ports event incident).2 at hsource
  rcases hsource report hreport with hleft | ⟨c, hfrom⟩
  · cases grounded.rca.symm.trans hleft
  · refine ⟨hfrom.grounded.incident, fun citation hcitation => ?_⟩
    have hcited := hfrom.grounded.cites citation hcitation
    unfold packOf at hcited
    rw [if_neg (by simpa using hne)] at hcited
    obtain ⟨row, hrow, hid⟩ := packFromEvidenceRows_ids hcited
    refine ⟨row, hrow, hid, ?_⟩
    rcases hextends.incident row hrow with hleft | hown
    · exact grounded.recorded row hleft
    · exact hown

theorem citesStored_investigate (unique : UniqueIds s.db) (cites : CitesStored s.db)
    (grounded : RunGrounded ports event incident s)
    (h : investigateIncident ports event incident s = (.ok (), t)) :
    UniqueIds t.db ∧ CitesStored t.db := by
  have hkeeps : KeepsIds s t := leaves_eq (keepsIds_investigateIncident event incident) h
  obtain ⟨hraised, _, rows, progress, notes, hrows, _, _, hdb, _⟩ := investigateIncident_ok h
  have hmade := fun report => @report_cites_recorded _ _ _ _ _ grounded hraised report
  refine ⟨hkeeps unique, ?_⟩
  generalize s.run ports event incident = run at *
  have hevidence : t.db.evidence = s.db.evidence ++ rows := by rw [hdb]
  have hreports : t.db.rcaReports = s.db.rcaReports ++
      (s.process.runner.rcaReports ++ (run.1.checkpoint.rca.bind reportFromPayload).toList) := by
    rw [hdb]
  intro report hreport citation hcitation
  rw [hreports, grounded.rcaReports, List.nil_append] at hreport
  rw [hevidence]
  rcases List.mem_append.mp hreport with hbefore | hnew
  · obtain ⟨row, hrow, hstored⟩ := cites report hbefore citation hcitation
    exact ⟨row, List.mem_append_left _ hrow, hstored⟩
  · have hcaptured : run.1.checkpoint.rca = some (.report report) := by
      obtain ⟨payload, hpayload, hread⟩ := Option.bind_eq_some_iff.mp (Option.mem_toList.mp hnew)
      cases payload with
      | report made =>
        cases hread
        exact hpayload
      | error text => cases hread
    obtain ⟨hincident, hcites⟩ := hmade report hcaptured
    obtain ⟨row, hrow, hid, hown⟩ := hcites citation hcitation
    have hkey : Evidence.key row ∈ rows.map Evidence.key := by
      rw [hrows]
      exact List.mem_map_of_mem hrow
    obtain ⟨stored, hstored, hsame⟩ := List.mem_map.mp hkey
    obtain ⟨hsameId, hsameIncident⟩ := Prod.mk.inj hsame
    exact ⟨stored, List.mem_append_right _ hstored, hsameId.trans hid,
      hsameIncident.trans (hown.trans hincident.symm)⟩

variable {worker : Worker World}

theorem deliver_uncommitted (h : (deliver ports event worker).ended.isCommitted = false) :
    (deliver ports event worker).worker.db = worker.db := by
  unfold deliver at h ⊢
  split at h
  · cases h
  · rfl

theorem citesStored_deliver (unique : UniqueIds worker.db) (cites : CitesStored worker.db)
    (grounded : ∀ result moved s, prologue ports event worker.session =
      (.ok (result, some moved), s) → RunGrounded ports event moved s) :
    UniqueIds (deliver ports event worker).worker.db ∧
      CitesStored (deliver ports event worker).worker.db := by
  by_cases hstarted : ∃ result moved s,
      prologue ports event worker.session = (.ok (result, some moved), s)
  · obtain ⟨result, moved, s, hprologue⟩ := hstarted
    cases hend : (deliver ports event worker).ended.isCommitted with
    | false =>
      rw [deliver_uncommitted hend]
      exact ⟨unique, cites⟩
    | true =>
      obtain ⟨_, row, moment, inbox, _, _, hsaved⟩ := prologue_ok hprologue
      obtain ⟨t, hrun, _, hdb, _⟩ := deliver_started_committed hprologue hend
      have hbefore : UniqueIds s.db ∧ CitesStored s.db := by
        rw [hsaved]
        exact ⟨unique, cites⟩
      rw [hdb]
      exact citesStored_investigate hbefore.1 hbefore.2 (grounded result moved s hprologue) hrun
  · obtain ⟨⟨inbox, hdb⟩, _⟩ := @deliver_not_started _ ports event worker
      fun result moved s heq => hstarted ⟨result, moved, s, heq⟩
    rw [hdb]
    exact ⟨unique, cites⟩

end Runs

section Work

/-- A message of the worker or a request of the API, in the world that it finds. -/
inductive WorkAction (World : Type) where
  | event (event : DomainEvent) (world : World)
  | review (incidentId : Uuid) (call : ReviewCall) (world : World)

def work (ports : WorkerPorts World) (worker : Worker World) : WorkAction World → Worker World
  | .event event world => (deliver ports event (worker.inWorld world)).worker
  | .review incidentId call world => (answer ports incidentId call (worker.inWorld world)).2

def WorkStep (ports : WorkerPorts World) (worker : Worker World) (action : WorkAction World)
    (next : Worker World) : Prop :=
  next = work ports worker action

/-- A run makes its pack of the rows it recorded, and an amendment cites what is stored. -/
def ActionGrounded (ports : WorkerPorts World) (worker : Worker World) :
    WorkAction World → Prop
  | .event event world => ∀ result moved s, prologue ports event (worker.inWorld world).session =
      (.ok (result, some moved), s) → RunGrounded ports event moved s
  | .review incidentId call _ => ∀ command, call = .amend command →
      CommandCites incidentId worker.db command

theorem workStep_sound {worker next : Worker World} {action : WorkAction World}
    (sound : UniqueIds worker.db ∧ CitesStored worker.db)
    (grounded : ActionGrounded ports worker action) (h : WorkStep ports worker action next) :
    UniqueIds next.db ∧ CitesStored next.db := by
  rw [WorkStep] at h
  subst h
  cases action with
  | event event world =>
    exact citesStored_deliver sound.1 sound.2 grounded
  | review incidentId call world =>
    unfold work
    dsimp only
    rcases answer_cases ports incidentId call (worker.inWorld world) with
      ⟨raised, process, hanswer⟩ | ⟨view, s, process, hcall, hanswer⟩
    · rw [hanswer]
      exact sound
    · rw [hanswer]
      exact citesStored_call (s := ⟨worker.db, (worker.inWorld world).process, false⟩) sound.1
        sound.2 grounded hcall

/-- In a run of handlings and reviews whose packs are made of recorded rows and whose amendments
cite stored rows, all versions cite stored rows of their incident. -/
theorem citations_sound {start : Worker World} {path : List (WorkAction World × Worker World)}
    (unique : UniqueIds start.db) (cites : CitesStored start.db)
    (run : Path (WorkStep ports) start path) (grounded : Meets (ActionGrounded ports) start path) :
    ∀ worker ∈ visited start path, CitesStored worker.db := fun worker hworker =>
  (invariant_of_meets (fun _ _ _ sound hgrounded hstep => workStep_sound sound hgrounded hstep) run
    ⟨unique, cites⟩ grounded worker hworker).2

end Work

/-- The row that the first version of the RCA cites. -/
def citedRow : Evidence where
  id := 30
  incidentId := 10
  source := .simulator
  kind := .log
  contentRef := ⟨"simulator:p99", by decide, by decide⟩
  summary := "p99"
  metadata := []
  collectedAt := 0
  summary_stripped := by decide

def citedWorker : Worker Script :=
  { reviewWorker with db := { reviewWorker.db with evidence := [citedRow] } }

def amendCiting (evidenceId : Uuid) : ReviewCall :=
  .amend ⟨"slow queries", "missing index", [], 4 / 5, "confirmed", [],
    some [⟨evidenceId, "simulator", "p99"⟩]⟩

theorem citedWorker_cites : CitesStored citedWorker.db := by
  intro report hreport citation hcitation
  obtain rfl : report = firstReport := List.mem_singleton.mp hreport
  obtain rfl : citation = ⟨30, "simulator", "p99"⟩ := List.mem_singleton.mp hcitation
  exact ⟨citedRow, List.mem_singleton.mpr rfl, rfl, rfl⟩

/-- The run of a handling makes its pack of the rows it recorded, in a runner without others. -/
def groundedRun (ports : WorkerPorts World) (event : DomainEvent) (worker : Worker World) : Bool :=
  match prologue ports event worker.session with
  | (.ok (_, some incident), s) =>
    s.process.runner.recorded.isEmpty && s.process.runner.rcaReports.isEmpty &&
      (s.process.runner.thread incident.id).1.rca.isNone &&
        ((s.process.lastVisit ports.toSpecialistPorts (startRequest ports event incident)).all
          fun visit => !visit.2.recorded.isEmpty)
  | _ => true

theorem runGrounded_of_check {event : DomainEvent} {worker : Worker World}
    (h : groundedRun ports event worker = true) : ∀ result moved s,
    prologue ports event worker.session = (.ok (result, some moved), s) →
      RunGrounded ports event moved s := by
  intro result moved s hprologue
  unfold groundedRun at h
  rw [hprologue] at h
  simp only [Bool.and_eq_true, List.isEmpty_iff, Option.isNone_iff_eq_none] at h
  obtain ⟨⟨⟨hrecorded, hreports⟩, hrca⟩, hvisit⟩ := h
  refine ⟨fun row hrow => ?_, hreports, hrca, fun visit hlast _ hnone => ?_⟩
  · rw [hrecorded] at hrow
    cases hrow
  · rw [hlast, Option.all_some, hnone] at hvisit
    cases hvisit

def signalWorker : Worker Script :=
  openWorker [openIncident 10 latencyFingerprint] ⟨0, 100, [], [], []⟩

/-- One signal, and an answer that cites its row. -/
def signalWorld : Script := ⟨0, 100, [], [slowSignal], [citing 101]⟩

def signalMessage : WorkAction Script := .event (openedEvent 10) signalWorld

def investigatedWorker : Worker Script := work scripted signalWorker signalMessage

/-- The amendment cites the row of the investigation. -/
def amendStored : WorkAction Script := .review 10 (amendCiting 101) ⟨1, 200, [], [], []⟩

/-- An investigation writes a version that cites the row it recorded, and a review a second one. -/
theorem stored_amendment_sound :
    Path (WorkStep scripted) signalWorker [(signalMessage, investigatedWorker),
      (amendStored, work scripted investigatedWorker amendStored)] ∧
    (work scripted investigatedWorker amendStored).db.rcaReports.map
      (fun report => report.citations.map RcaCitation.evidenceId) = [[101], [101]] ∧
    ∀ worker ∈ visited signalWorker [(signalMessage, investigatedWorker),
      (amendStored, work scripted investigatedWorker amendStored)], CitesStored worker.db := by
  have run : Path (WorkStep scripted) signalWorker [(signalMessage, investigatedWorker),
      (amendStored, work scripted investigatedWorker amendStored)] :=
    Path.next rfl (Path.next rfl Path.stop)
  obtain ⟨checked, stored, cited⟩ :
      groundedRun scripted (openedEvent 10) (signalWorker.inWorld signalWorld) = true ∧
        investigatedWorker.db.evidence.map (fun row => (row.id, row.incidentId)) = [(101, 10)] ∧
        (work scripted investigatedWorker amendStored).db.rcaReports.map
          (fun report => report.citations.map RcaCitation.evidenceId) = [[101], [101]] := by
    decide +kernel
  have grounded : ActionGrounded scripted signalWorker signalMessage := runGrounded_of_check checked
  refine ⟨run, cited, citations_sound List.nodup_nil (fun report h => absurd h List.not_mem_nil)
    run ⟨grounded, fun command hcommand => ?_, trivial⟩⟩
  cases hcommand
  intro citation hcitation
  obtain rfl : citation = ⟨101, "simulator", "p99"⟩ := List.mem_singleton.mp hcitation
  have hmem : ((101 : Uuid), (10 : Uuid)) ∈
      investigatedWorker.db.evidence.map fun row => (row.id, row.incidentId) := by
    rw [stored]
    exact List.mem_singleton.mpr rfl
  obtain ⟨row, hrow, hids⟩ := List.mem_map.mp hmem
  obtain ⟨hid, hincident⟩ := Prod.mk.inj hids
  exact ⟨row, hrow, hid, hincident⟩

def unspecifiedFingerprint : RequiredText := ⟨"checkout|p95|", by decide, by decide⟩

/-- A chunk with a blank id, of which no row of evidence can be built. -/
def blankChunk : ToolOutcome :=
  .returned (.list [.obj [("text", .str "restart the pool"),
    ("citation", .obj [("document", .str "kb"), ("chunk_id", .str " ")])]]) false

def blankWorker : Worker Script :=
  openWorker [openIncident 10 unspecifiedFingerprint] ⟨0, 100, [], [], []⟩

/-- The model cites the id that the pack makes up for the chunk. -/
def blankMessage : WorkAction Script :=
  .event (openedEvent 10)
    ⟨0, 100, [], [blankChunk], [citing (BitVec.ofNat 128 (5 * 2 ^ 76 + 2 ^ 63))]⟩

/-- Neither the chunk that could not be recorded nor the id in an amendment belongs to a row. -/
theorem citations_dangle :
    (∃ path, Path (WorkStep scripted) blankWorker path ∧ CitesStored blankWorker.db ∧
      ¬∀ worker ∈ visited blankWorker path, CitesStored worker.db) ∧
    ∃ path, Path (WorkStep scripted) citedWorker path ∧ CitesStored citedWorker.db ∧
      ¬∀ worker ∈ visited citedWorker path, CitesStored worker.db := by
  constructor
  · refine ⟨[(blankMessage, work scripted blankWorker blankMessage)], Path.next rfl Path.stop,
      fun report h => absurd h List.not_mem_nil, fun h => ?_⟩
    have hrows : (fun db : Db => (db.evidence.length, db.rcaReports.length))
        (work scripted blankWorker blankMessage).db = (0, 1) := by decide +kernel
    obtain ⟨hnone, hone⟩ := Prod.mk.inj hrows
    obtain ⟨report, hreport⟩ := List.length_eq_one_iff.mp hone
    obtain ⟨citation, hcitation⟩ := List.exists_mem_of_ne_nil _ report.cited
    obtain ⟨row, hrow, _⟩ := h (work scripted blankWorker blankMessage) (by simp) report
      (by rw [hreport]; simp) citation hcitation
    rw [List.length_eq_zero_iff.mp hnone] at hrow
    cases hrow
  · refine ⟨[(.review 10 (amendCiting 99) ⟨1, 100, [], [], []⟩, work scripted citedWorker
      (.review 10 (amendCiting 99) ⟨1, 100, [], [], []⟩))], Path.next rfl Path.stop,
      citedWorker_cites, fun h => ?_⟩
    have hcited : (work scripted citedWorker
        (.review 10 (amendCiting 99) ⟨1, 100, [], [], []⟩)).db.rcaReports.map
          (fun report => report.citations.map RcaCitation.evidenceId) = [[30], [99]] ∧
        (work scripted citedWorker
          (.review 10 (amendCiting 99) ⟨1, 100, [], [], []⟩)).db.evidence.map Evidence.id =
          [30] := by decide +kernel
    obtain ⟨hreports, hevidence⟩ := hcited
    generalize work scripted citedWorker _ = last at *
    have hlast : [99] ∈ last.db.rcaReports.map
        (fun report => report.citations.map RcaCitation.evidenceId) := by
      rw [hreports]
      simp
    obtain ⟨report, hreport, hids⟩ := List.mem_map.mp hlast
    have hid : (99 : Uuid) ∈ report.citations.map RcaCitation.evidenceId := by
      rw [hids]
      simp
    obtain ⟨citation, hcitation, hcites⟩ := List.mem_map.mp hid
    obtain ⟨row, hrow, hrowId, _⟩ := h last (by simp) report hreport citation hcitation
    have hstored := List.mem_map_of_mem (f := Evidence.id) hrow
    rw [hevidence, hrowId, hcites] at hstored
    simp at hstored

end Aegis
