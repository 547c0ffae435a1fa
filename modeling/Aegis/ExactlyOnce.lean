import Aegis.ContextIsolation

namespace Aegis

open Raising Proc StepPath

/-- Two processes that a run for the incident cannot tell apart. -/
structure ProcessAlike {World : Type} (incidentId : Uuid) (a b : Process World) : Prop where
  cache : a.cache = b.cache
  world : a.world = b.world
  recorded : a.runner.recorded = b.runner.recorded
  log : a.runner.log = b.runner.log
  rcaReports : a.runner.rcaReports = b.runner.rcaReports
  progress : a.runner.progress = b.runner.progress
  thread : a.runner.thread incidentId = b.runner.thread incidentId

section Runner

variable {World : Type} {ports : SpecialistPorts World} {request : StartRequest}

theorem investigate_alike {a b : Process World} (h : ProcessAlike request.incidentId a b) :
    a.investigate ports request = b.investigate ports request := by
  unfold Process.investigate Process.desk
  rw [h.thread, h.recorded, h.cache, h.log, h.world]

theorem respects_invokeInvestigation :
    Respects (ProcessAlike request.incidentId) (invokeInvestigation ports request) := by
  intro a b h
  unfold invokeInvestigation
  rw [investigate_alike h, h.thread]
  generalize b.investigate ports request = ran
  refine ⟨rfl, h.cache, rfl, rfl, rfl, h.rcaReports, h.progress, ?_⟩
  unfold Process.afterRun Runner.thread
  dsimp only
  rw [Function.update_self, Function.update_self]
  exact congrArg (fun thread : Channels × List String =>
    (some (ran.1.checkpoint, thread.2 ++ ran.1.log)).getD (Channels.blank request.incidentId, []))
    h.thread

theorem respects_start :
    Respects (ProcessAlike request.incidentId) (Runner.start ports request) := by
  refine respects_bind respects_invokeInvestigation fun (result, log) =>
    respects_bind (respects_update fun a b h => ?_) fun _ => respects_bind ?_ fun progress => ?_
  · exact ⟨h.cache, h.world, h.recorded, h.log,
      congrArg (· ++ (result.rca.bind reportFromPayload).toList) h.rcaReports, h.progress, h.thread⟩
  · exact respects_within (fun _ _ h => h.world) fun _ _ _ h =>
      ⟨h.cache, rfl, h.recorded, h.log, h.rcaReports, h.progress, h.thread⟩
  · exact respects_update fun _ _ h =>
      ⟨h.cache, h.world, h.recorded, h.log, h.rcaReports, rfl, h.thread⟩

end Runner

/-- Two sessions that the handling of the incident cannot tell apart. -/
structure Alike {World : Type} (incidentId : Uuid) (s t : Session World) : Prop where
  db : s.db = t.db
  broken : s.broken = t.broken
  process : ProcessAlike incidentId s.process t.process

section Session

variable {World : Type} {ports : WorkerPorts World} {event : DomainEvent} {incident : Incident}
  {incidentId : Uuid}

/-- What does not depend on the runner and leaves it alone cannot tell the sessions apart. -/
theorem alike_of_outside {Value : Type} {p : Proc (Session World) Raised Value}
    (h : Respects SameOutside p) (keeps : Leaves KeepsRunner p) : Respects (Alike incidentId) p := by
  intro s t hst
  obtain ⟨hvalue, hlater⟩ := h s t ⟨hst.db, hst.process.cache, hst.process.world, hst.broken⟩
  have hs : (p s).2.process.runner = s.process.runner := keeps s
  have ht : (p t).2.process.runner = t.process.runner := keeps t
  refine ⟨hvalue, hlater.db, hlater.broken, hlater.cache, hlater.world, ?_, ?_, ?_, ?_, ?_⟩
  · rw [hs, ht, hst.process.recorded]
  · rw [hs, ht, hst.process.log]
  · rw [hs, ht, hst.process.rcaReports]
  · rw [hs, ht, hst.process.progress]
  · rw [hs, ht, hst.process.thread]

theorem respects_recordNotification (row : Notification) :
    Respects SameOutside (recordNotification ports row) := by
  refine respects_bind (respects_attempt respects_statement fun raised =>
    respects_bind (respects_update fun _ _ h => ⟨h.db, h.cache, h.world, rfl⟩) fun _ =>
      respects_raise _) fun _ => respects_bind (respects_readDb id) fun db => ?_
  split
  · exact respects_pure _
  · exact respects_withDb fun db => { db with notifications := db.notifications ++ [row] }

theorem respects_notification (kind : NotificationKind) (eventType reason dedupeKey : String)
    (rcaVersion : Option Nat) : Respects SameOutside
      (notification ports incident kind eventType reason dedupeKey rcaVersion) :=
  respects_bind (respects_sessionDraw _) fun _ => respects_bind (respects_sessionDraw _) fun _ =>
    respects_recordNotification _

theorem alike_recordEvidence (row : Evidence) :
    Respects (Alike incidentId) (recordEvidence ports row) :=
  alike_of_outside (respects_bind (respects_fromExcept _) fun _ => respects_write _ _)
    (keepsRunner_bind (leaves_fromExcept keepsRunner_refl _) fun _ => keepsRunner_write _ _)

theorem alike_recordRca (report : RcaReport) :
    Respects (Alike incidentId) (recordRca ports incident report) :=
  alike_of_outside (respects_bind (respects_write _ _) fun _ =>
      respects_attempt (respects_notification _ _ _ _ _) fun _ => respects_pure _)
    (keepsRunner_bind (keepsRunner_write _ _) fun _ =>
      keepsRunner_of_notifies (notifies_notifyRcaReady incident report))

theorem respects_notifyEscalated (reason : String) :
    Respects SameOutside (notifyEscalated ports incident reason) := by
  unfold notifyEscalated
  split
  · exact respects_pure _
  · exact respects_attempt (respects_notification _ _ _ _ _) fun _ => respects_pure _

theorem alike_recordProgress (item : Option InvestigationProgress) :
    Respects (Alike incidentId) (recordProgress ports incident item) := by
  cases item with
  | none => exact respects_pure _
  | some progress =>
    exact alike_of_outside (respects_bind (respects_write _ _) fun _ => respects_notifyEscalated _)
      (keepsRunner_bind (keepsRunner_write _ _) fun _ =>
        keepsRunner_of_notifies (notifies_notifyEscalated incident _))

theorem alike_persistCollectedEvidence :
    Respects (Alike incidentId) (persistCollectedEvidence ports) := by
  refine respects_bind (fun s t h => ⟨congrArg Except.ok h.process.recorded, ?_⟩) fun items =>
    respects_forEach alike_recordEvidence items
  exact ⟨h.db, h.broken, h.process.cache, h.process.world, rfl, h.process.log,
    h.process.rcaReports, h.process.progress, h.process.thread⟩

theorem alike_persistRecordedAudit :
    Respects (Alike incidentId) (persistRecordedAudit ports) := by
  refine respects_bind (fun s t h => ⟨congrArg Except.ok h.process.log, ?_⟩) fun items =>
    respects_forEach (fun entry => alike_of_outside (respects_write _ _) (keepsRunner_write _ _))
      items
  exact ⟨h.db, h.broken, h.process.cache, h.process.world, h.process.recorded, rfl,
    h.process.rcaReports, h.process.progress, h.process.thread⟩

theorem alike_persistRecordedRca :
    Respects (Alike incidentId) (persistRecordedRca ports incident) := by
  refine respects_bind (fun s t h => ⟨congrArg Except.ok h.process.rcaReports, ?_⟩) fun items =>
    respects_forEach alike_recordRca items
  exact ⟨h.db, h.broken, h.process.cache, h.process.world, h.process.recorded, h.process.log,
    rfl, h.process.progress, h.process.thread⟩

theorem alike_persistRecordedProgress :
    Respects (Alike incidentId) (persistRecordedProgress ports incident) := by
  refine respects_bind (fun s t h => ⟨congrArg Except.ok h.process.progress, ?_⟩) fun item =>
    alike_recordProgress item
  exact ⟨h.db, h.broken, h.process.cache, h.process.world, h.process.recorded, h.process.log,
    h.process.rcaReports, rfl, h.process.thread⟩

theorem alike_investigateIncident :
    Respects (Alike incident.id) (investigateIncident ports event incident) := by
  refine respects_bind ?_ fun _ => respects_bind alike_persistCollectedEvidence fun _ =>
    respects_bind alike_persistRecordedAudit fun _ => respects_bind alike_persistRecordedRca
      fun _ => alike_persistRecordedProgress
  exact respects_part (@respects_start _ ports.toSpecialistPorts (startRequest ports event incident))
    (fun _ _ h => h.process) fun _ _ _ _ h hprocess => ⟨h.db, h.broken, hprocess⟩

end Session

variable {World : Type} {ports : WorkerPorts World} {event : DomainEvent}
  {worker : Worker World} {s t : Session World}

/-- The constraints of the tables, and the lifecycle of the incidents in them. -/
structure SoundTables (db : Db) : Prop where
  ids : (db.incidents.map Incident.id).Nodup
  history : ∀ row ∈ db.incidents, SoundRow row
  versions : UniqueVersions db.rcaReports

/-- No buffer holds anything and the incident has no thread. -/
structure NothingLeft (runner : Runner) (incidentId : Uuid) : Prop where
  recorded : runner.recorded = []
  log : runner.log = []
  rcaReports : runner.rcaReports = []
  progress : runner.progress = none
  thread : runner.threads incidentId = none

/-- When the event starts an investigation, nothing at all is left of earlier runs for it. -/
def StartsEmpty (ports : WorkerPorts World) (event : DomainEvent) (worker : Worker World) : Prop :=
  ∀ row, Opens ports event worker.db row → NothingLeft worker.process.runner row.id

def isStart (step : StateTransition) : Bool :=
  step.fromState = .open && step.toState = .investigating

/-- What a committed investigation of the incident has written: rows of this very run only. -/
structure WroteOnce (incidentId : Uuid) (before after : Worker World) : Prop where
  started : ∀ row ∈ after.db.incidents, row.id = incidentId →
    (row.stateHistory.filter isStart).length = 1
  original : (after.db.rcaReports.filter fun report =>
    report.incidentId = incidentId ∧ report.version = 1).length ≤ 1
  evidence : ∃ rows, after.db.evidence = before.db.evidence ++ rows ∧
    ∀ row ∈ rows, row.incidentId = incidentId
  rcaReports : ∃ reports, after.db.rcaReports = before.db.rcaReports ++ reports ∧
    reports.length ≤ 1 ∧ ∀ report ∈ reports,
      report.incidentId = incidentId ∧ report.version = 1 ∧ report.versionKind = .original
  auditLog : ∃ entries, after.db.auditLog = before.db.auditLog ++ entries ∧
    after.process.runner.audited = before.process.runner.audited ++ entries
  progress : ∃ progress, progress.incidentId = incidentId ∧
    after.db.progress = (saveProgressRow progress before.db).progress
  notifications : ∃ notes, after.db.notifications = before.db.notifications ++ notes ∧
    ∀ note ∈ notes, note.incidentId = incidentId

/-- A handling ends and leaves the tables as in a new process; when it committed and started its
investigation, it has written the rows of that run and nothing else. -/
structure ExactlyOnce (ports : WorkerPorts World) (event : DomainEvent) (worker : Worker World) :
    Prop where
  ended : (deliver ports event worker).ended = (deliver ports event worker.renewed).ended
  tables : (deliver ports event worker).worker.db = (deliver ports event worker.renewed).worker.db
  wrote : ∀ result, (deliver ports event worker).ended = .committed result →
    result.transitioned = true →
    WroteOnce result.incidentId worker (deliver ports event worker).worker

theorem soundRow_start {row moved : Incident} {moment : Instant} (h : SoundRow row)
    (hmove : (toDomain row).transitionTo .investigating moment = .ok moved) :
    SoundRow (applyToOrm moved row) := by
  obtain ⟨hcan, hstate, hhistory⟩ := applyToOrm_sound h hmove
  refine ⟨?_, ?_⟩
  · rw [hstate, hhistory]
    exact (Trails.trail_concat_iff h.1).mpr ⟨rfl, rfl⟩
  · rw [hhistory]
    intro step hstep
    rcases List.mem_append.mp hstep with hold | hnew
    · exact h.2 step hold
    · rw [List.mem_singleton.mp hnew]
      exact hcan

/-- A row that is still open has no history. -/
theorem history_nil_of_open {row : Incident} (h : SoundRow row) (hopen : row.state = .open) :
    row.stateHistory = [] := by
  have htrail := h.1
  rw [hopen] at htrail
  rcases (Trails.trail_source_lt htrail fun step hstep => canTransition_rank (h.2 step hstep)).1
    with hnil | hlt
  · exact hnil
  · exact absurd hlt (lt_irrefl _)

theorem saved_row {db : Db} {row moved : Incident} (ids : (db.incidents.map Incident.id).Nodup)
    (hrow : row ∈ db.incidents) (hid : moved.id = row.id) {saved : Incident}
    (h : saved ∈ (saveIncident moved db).incidents) :
    (saved.id = row.id ∧ saved = applyToOrm moved row) ∨
      (saved.id ≠ row.id ∧ saved ∈ db.incidents) := by
  obtain ⟨before, hbefore, hafter⟩ := List.mem_map.mp h
  by_cases heq : before.id = moved.id
  · have hsame : before = row :=
      List.inj_on_of_nodup_map ids hbefore hrow (heq.trans hid)
    rw [if_pos heq, hsame] at hafter
    subst hafter
    exact .inl ⟨rfl, rfl⟩
  · rw [if_neg heq] at hafter
    subst hafter
    exact .inr ⟨fun h => heq (h.trans hid.symm), hbefore⟩

theorem saveIncident_ids (moved : Incident) (db : Db) :
    (saveIncident moved db).incidents.map Incident.id = db.incidents.map Incident.id := by
  unfold saveIncident
  dsimp only
  rw [List.map_map]
  refine List.map_congr_left fun row _ => ?_
  dsimp only [Function.comp]
  split <;> rfl

theorem rolledBack_tables (h : (deliver ports event worker).ended.isCommitted = false) :
    (deliver ports event worker).worker.db = worker.db := by
  rw [deliver_eq] at h ⊢
  generalize (prologue ports event >>= epilogue ports event) worker.session = out at h ⊢
  rcases out with ⟨_ | _, s⟩
  · rfl
  · cases h

theorem committed_tables {result : ConsumeOpenedResult} {moved : Incident}
    (hprologue : prologue ports event worker.session = (.ok (result, some moved), s))
    (hend : (deliver ports event worker).ended.isCommitted = true) :
    (UniqueVersions worker.db.rcaReports →
      UniqueVersions (deliver ports event worker).worker.db.rcaReports) ∧
    ∃ inbox rows progress notes,
      rows.map Evidence.key = (s.run ports event moved).2.recorded.map Evidence.key ∧
      progress.incidentId = moved.id ∧ (∀ note ∈ notes, note.incidentId = moved.id) ∧
      (deliver ports event worker).worker.db =
        { saveProgressRow progress (saveIncident moved worker.db) with
          inbox := inbox
          evidence := worker.db.evidence ++ rows
          auditLog := worker.db.auditLog ++ (s.run ports event moved).2.gateway.log
          rcaReports := worker.db.rcaReports ++ (worker.process.runner.rcaReports ++
            ((s.run ports event moved).1.checkpoint.rca.bind reportFromPayload).toList)
          notifications := worker.db.notifications ++ notes } := by
  have hrunner := prologue_runner hprologue
  obtain ⟨_, row, moment, inbox, _, _, hsaved⟩ := prologue_ok hprologue
  obtain ⟨t, hrun, _, hdb, _⟩ := deliver_started_committed hprologue hend
  obtain ⟨_, hunique, rows, progress, notes, hrows, hid, hnotes, hstored, _⟩ :=
    investigateIncident_ok hrun
  generalize s.run ports event moved = run at *
  rw [hdb]
  rw [hrunner] at hstored
  rw [hsaved] at hunique hstored
  refine ⟨hunique, inbox, rows, progress, notes, hrows, hid, hnotes, ?_⟩
  rw [hstored]
  rfl

/-- A handling leaves the incidents as they are, or starts the investigation of one that was
open. -/
theorem incidents_deliver (ports : WorkerPorts World) (event : DomainEvent) (worker : Worker World) :
    (deliver ports event worker).worker.db.incidents = worker.db.incidents ∨
      ∃ row moment moved, Opens ports event worker.db row ∧
        (toDomain row).transitionTo .investigating moment = .ok moved ∧
        (deliver ports event worker).worker.db.incidents =
          (saveIncident moved worker.db).incidents := by
  cases hend : (deliver ports event worker).ended.isCommitted with
  | false => exact .inl (by rw [rolledBack_tables hend])
  | true =>
    by_cases hstarted : ∃ result moved s,
        prologue ports event worker.session = (.ok (result, some moved), s)
    · obtain ⟨result, moved, s, hprologue⟩ := hstarted
      obtain ⟨_, row, moment, _, hopens, hmove, _⟩ := prologue_ok hprologue
      obtain ⟨_, inbox, rows, progress, notes, _, _, _, hdb⟩ := committed_tables hprologue hend
      exact .inr ⟨row, moment, moved, hopens, hmove, by rw [hdb]; rfl⟩
    · obtain ⟨⟨inbox, hdb⟩, _⟩ := @deliver_not_started _ ports event worker
        fun result moved s heq => hstarted ⟨result, moved, s, heq⟩
      exact .inl (by rw [hdb])

theorem versions_deliver (h : UniqueVersions worker.db.rcaReports) :
    UniqueVersions (deliver ports event worker).worker.db.rcaReports := by
  cases hend : (deliver ports event worker).ended.isCommitted with
  | false =>
    rw [rolledBack_tables hend]
    exact h
  | true =>
    by_cases hstarted : ∃ result moved s,
        prologue ports event worker.session = (.ok (result, some moved), s)
    · obtain ⟨result, moved, s, hprologue⟩ := hstarted
      exact (committed_tables hprologue hend).1 h
    · obtain ⟨⟨inbox, hdb⟩, _⟩ := @deliver_not_started _ ports event worker
        fun result moved s heq => hstarted ⟨result, moved, s, heq⟩
      rw [hdb]
      exact h

theorem soundTables_deliver (h : SoundTables worker.db) :
    SoundTables (deliver ports event worker).worker.db := by
  rcases incidents_deliver ports event worker with hsame | ⟨row, moment, moved, hopens, hmove, hsaved⟩
  · exact ⟨hsame ▸ h.ids, hsame ▸ h.history, versions_deliver h.versions⟩
  · obtain ⟨_, hmoved⟩ := transitionTo_ok hmove
    have hid : moved.id = row.id := by rw [hmoved]; rfl
    have hrow := List.mem_of_find?_eq_some hopens.found
    refine ⟨?_, fun saved hmem => ?_, versions_deliver h.versions⟩
    · rw [hsaved, saveIncident_ids]
      exact h.ids
    · rw [hsaved] at hmem
      rcases saved_row h.ids hrow hid hmem with ⟨_, rfl⟩ | ⟨_, hold⟩
      · exact soundRow_start (h.history row hrow) hmove
      · exact h.history saved hold

/-- The reports that a run captures when its thread is new are the first version for its
incident. -/
theorem captured_reports {moved : Incident}
    (thread : s.process.runner.threads moved.id = none) {report : RcaReport}
    (h : report ∈ ((s.run ports event moved).1.checkpoint.rca.bind reportFromPayload).toList) :
    report.incidentId = moved.id ∧ report.version = 1 ∧ report.versionKind = .original := by
  obtain ⟨_, _, hsource⟩ := @runGraph_facts _ ports.toSpecialistPorts
    (mergeInput (s.process.runner.thread moved.id).1 (startRequest ports event moved))
    s.process.desk
  change ReportSource ports.toSpecialistPorts _ (s.run ports event moved).1
    (s.run ports event moved).2 at hsource
  generalize s.run ports event moved = run at *
  have hpayload : run.1.checkpoint.rca = some (.report report) := by
    cases hrca : run.1.checkpoint.rca with
    | none => simp [hrca] at h
    | some payload =>
      cases payload with
      | report made => simpa [hrca, reportFromPayload, eq_comm] using h
      | error text => simp [hrca, reportFromPayload] at h
  rcases hsource report hpayload with hold | ⟨c, hfrom⟩
  · unfold Runner.thread at hold
    rw [thread] at hold
    cases hold
  · exact ⟨hfrom.grounded.incident, hfrom.grounded.version, hfrom.grounded.original⟩

theorem closed_same {w : Worker World} {a b : Except Raised ConsumeOpenedResult × Session World}
    (result : a.1 = b.1) (db : a.2.db = b.2.db) (tables : w.db = worker.db) :
    (worker.closed a).ended = (w.closed b).ended ∧
      (worker.closed a).worker.db = (w.closed b).worker.db := by
  obtain ⟨_ | _, s⟩ := a <;> obtain ⟨_ | _, t⟩ := b <;> cases result
  · exact ⟨rfl, tables.symm⟩
  · exact ⟨rfl, db⟩

theorem deliver_as_renewed (h : StartsEmpty ports event worker) :
    (deliver ports event worker).ended = (deliver ports event worker.renewed).ended ∧
      (deliver ports event worker).worker.db = (deliver ports event worker.renewed).worker.db := by
  have hsame : SameOutside worker.session worker.renewed.session := ⟨rfl, rfl, rfl, rfl⟩
  obtain ⟨hresult, hlater⟩ := @respects_prologue _ ports event _ _ hsame
  rcases hprologue : prologue ports event worker.session with ⟨out, s⟩
  rcases hrenewed : prologue ports event worker.renewed.session with ⟨out', s'⟩
  rw [hprologue, hrenewed] at hresult hlater
  obtain rfl : out = out' := hresult
  rcases out with raised | ⟨result, moved⟩
  · rw [deliver_of_prologue_error hprologue, deliver_of_prologue_error hrenewed]
    exact ⟨rfl, rfl⟩
  · rw [deliver_of_prologue_ok hprologue, deliver_of_prologue_ok hrenewed]
    have commit : ∀ {alike : Session World → Session World → Prop},
        Respects alike (statement ports) →
        Respects alike (statement ports >>= fun _ => pure result) :=
      fun hstatement => respects_bind hstatement fun _ => respects_pure _
    cases moved with
    | none =>
      obtain ⟨hend, hdb⟩ := commit respects_statement s s' hlater
      exact closed_same hend hdb.db rfl
    | some moved =>
      obtain ⟨row, hopens, hid⟩ := opens_of_prologue hprologue
      have hleft := h row hopens
      rw [← hid] at hleft
      have hrunner := prologue_runner hprologue
      have hrunner' := prologue_runner hrenewed
      have hthread : s.process.runner.thread moved.id = s'.process.runner.thread moved.id := by
        rw [hrunner, hrunner']
        unfold Runner.thread
        dsimp only
        rw [hleft.thread]
        rfl
      have halike : Alike moved.id s s' := by
        refine ⟨hlater.db, hlater.broken, hlater.cache, hlater.world, ?_, ?_, ?_, ?_, hthread⟩
        · rw [hrunner, hrunner']
          exact hleft.recorded
        · rw [hrunner, hrunner']
          exact hleft.log
        · rw [hrunner, hrunner']
          exact hleft.rcaReports
        · rw [hrunner, hrunner']
          exact hleft.progress
      have hepilogue : Respects (Alike moved.id) (epilogue ports event (result, some moved)) :=
        respects_bind alike_investigateIncident fun _ =>
          commit (alike_of_outside respects_statement keepsRunner_statement)
      obtain ⟨hend, hdb⟩ := hepilogue s s' halike
      exact closed_same hend hdb.db rfl

theorem collected_rows {moved : Incident} {rows : List Evidence}
    (recorded : s.process.runner.recorded = [])
    (hrows : rows.map Evidence.key = (s.run ports event moved).2.recorded.map Evidence.key) :
    ∀ row ∈ rows, row.incidentId = moved.id := by
  have hextends := (investigate_extends ports.toSpecialistPorts s.process
    (startRequest ports event moved)).incident
  rw [run_eq] at hextends
  generalize s.run ports event moved = run at *
  intro row hrow
  have hkey : row.key ∈ run.2.recorded.map Evidence.key := by
    rw [← hrows]
    exact List.mem_map_of_mem hrow
  obtain ⟨made, hmade, hsame⟩ := List.mem_map.mp hkey
  have hincident : made.incidentId = row.incidentId := congrArg Prod.snd hsame
  rcases hextends made hmade with hold | hnew
  · change made ∈ s.process.runner.recorded at hold
    rw [recorded] at hold
    cases hold
  · exact hincident.symm.trans hnew

theorem committed_history {result : ConsumeOpenedResult} {moved : Incident}
    (sound : SoundTables worker.db)
    (hprologue : prologue ports event worker.session = (.ok (result, some moved), s))
    (hend : (deliver ports event worker).ended.isCommitted = true) :
    ∀ row ∈ (deliver ports event worker).worker.db.incidents, row.id = moved.id →
      (row.stateHistory.filter isStart).length = 1 := by
  obtain ⟨_, row, moment, _, hopens, hmove, _⟩ := prologue_ok hprologue
  obtain ⟨_, hmoved⟩ := transitionTo_ok hmove
  have hid : moved.id = row.id := by rw [hmoved]; rfl
  have hrow := List.mem_of_find?_eq_some hopens.found
  obtain ⟨_, inbox, rows, progress, notes, _, _, _, hdb⟩ := committed_tables hprologue hend
  intro saved hsaved hsame
  rw [hdb] at hsaved
  rcases saved_row sound.ids hrow hid hsaved with ⟨_, rfl⟩ | ⟨hother, _⟩
  · obtain ⟨_, _, hhistory⟩ := applyToOrm_sound (sound.history row hrow) hmove
    rw [hhistory, history_nil_of_open (sound.history row hrow) hopens.isOpen, hopens.isOpen]
    rfl
  · exact absurd (hsame.trans hid) hother

theorem versions_original {reports : List RcaReport} (h : UniqueVersions reports)
    (incidentId : Uuid) : (reports.filter fun report =>
      report.incidentId = incidentId ∧ report.version = 1).length ≤ 1 := by
  let key := fun report : RcaReport => (report.incidentId, report.version)
  have hkeys : ((reports.filter fun report =>
      report.incidentId = incidentId ∧ report.version = 1).map key).Nodup :=
    (List.filter_sublist.map key).nodup h
  have hsame : (reports.filter fun report =>
      report.incidentId = incidentId ∧ report.version = 1).map key =
      List.replicate (reports.filter fun report =>
        report.incidentId = incidentId ∧ report.version = 1).length (incidentId, 1) := by
    refine List.eq_replicate_iff.mpr ⟨List.length_map _, fun pair hpair => ?_⟩
    obtain ⟨report, hreport, rfl⟩ := List.mem_map.mp hpair
    obtain ⟨hincident, hversion⟩ := of_decide_eq_true (List.mem_filter.mp hreport).2
    exact Prod.ext hincident hversion
  rw [hsame] at hkeys
  exact List.nodup_replicate.mp hkeys

theorem committed_audited {result : ConsumeOpenedResult} {moved : Incident}
    (log : worker.process.runner.log = [])
    (hprologue : prologue ports event worker.session = (.ok (result, some moved), s))
    (hend : (deliver ports event worker).ended.isCommitted = true) :
    (deliver ports event worker).worker.process.runner.audited =
      worker.process.runner.audited ++ (s.run ports event moved).2.gateway.log := by
  have hrunner := prologue_runner hprologue
  obtain ⟨t, hrun, _, _, hafter⟩ := deliver_started_committed hprologue hend
  obtain ⟨_, _, _, _, _, _, _, _, _, hdrained⟩ := investigateIncident_ok hrun
  have haudited := afterRun_audited s.process (startRequest ports event moved)
    (s.run ports event moved)
  rw [ran_eq, hrunner] at haudited
  dsimp only at haudited
  rw [log, List.length_nil, List.drop_zero] at haudited
  generalize s.ran ports event moved = ran at *
  rw [hafter, hdrained]
  exact haudited

theorem deliver_exactlyOnce (sound : SoundTables worker.db)
    (empty : StartsEmpty ports event worker) : ExactlyOnce ports event worker := by
  obtain ⟨hsame, htables⟩ := deliver_as_renewed empty
  refine ⟨hsame, htables, fun result hend htransitioned => ?_⟩
  have hcommitted : (deliver ports event worker).ended.isCommitted = true := by rw [hend]; rfl
  rcases hprologue : prologue ports event worker.session with ⟨raised | ⟨out, moved⟩, s⟩
  · rw [deliver_of_prologue_error hprologue] at hend
    cases hend
  · obtain ⟨⟨hsome, hparsed⟩, _⟩ := prologue_ok hprologue
    cases moved with
    | none =>
      exfalso
      rcases hstatement : statement ports s with ⟨raised | _, t⟩
      · rw [deliver_idle_error hprologue hstatement] at hend
        cases hend
      · rw [deliver_idle_ok hprologue hstatement] at hend
        cases hend
        rw [htransitioned] at hsome
        cases hsome
    | some moved =>
      obtain ⟨row, hopens, hid⟩ := opens_of_prologue hprologue
      have hleft := empty row hopens
      rw [← hid] at hleft
      have hrunner := prologue_runner hprologue
      obtain ⟨_, _, hresult, _, _⟩ := deliver_started_committed hprologue hcommitted
      have hout : out = result := HandlingEnd.committed.inj (hresult.symm.trans hend)
      subst hout
      have haudited := committed_audited hleft.log hprologue hcommitted
      have hincident : out.incidentId = moved.id := by
        rw [hid]
        exact Option.some.inj (hparsed.symm.trans hopens.parsed)
      have hhistory := committed_history sound hprologue hcommitted
      have hversions := (@soundTables_deliver _ ports event _ sound).versions
      obtain ⟨_, inbox, rows, progress, notes, hrows, hprogress, hnotes, hdb⟩ :=
        committed_tables hprologue hcommitted
      rw [hincident]
      refine ⟨hhistory, versions_original hversions _, ⟨rows, by rw [hdb], ?_⟩,
        ⟨_, by rw [hdb, hleft.rcaReports, List.nil_append], ?_, fun report hreport => ?_⟩,
        ⟨_, by rw [hdb], haudited⟩, ⟨progress, hprogress, by rw [hdb]; rfl⟩,
        ⟨notes, by rw [hdb], hnotes⟩⟩
      · exact collected_rows (by rw [hrunner]; exact hleft.recorded) hrows
      · cases (s.run ports event moved).1.checkpoint.rca.bind reportFromPayload <;> simp
      · exact captured_reports (by rw [hrunner]; exact hleft.thread) hreport

theorem startsEmpty_of_tidy (h : Tidy worker) : StartsEmpty ports event worker := fun row hopens =>
  ⟨h.recorded, h.log, h.rcaReports, h.progress,
    h.threads row (List.mem_of_find?_eq_some hopens.found) hopens.isOpen⟩

variable {start next : Handling World} {message : DomainEvent × World}
  {path before after : List ((DomainEvent × World) × Handling World)}

theorem soundTables_visited (sound : SoundTables start.worker.db)
    (run : Path (HandlingStep ports) start path) :
    ∀ handling ∈ visited start path, SoundTables handling.worker.db := by
  refine invariant (fun last message next h hstep => ?_) run sound
  rw [HandlingStep] at hstep
  subst hstep
  exact soundTables_deliver h

/-- A rollback takes back the inbox row and the incident, but not the buffers and the thread of
the runner. Where nothing of them is left, a handling writes what its own run made, once. -/
theorem exactly_once_of_empty (sound : SoundTables start.worker.db)
    (run : Path (HandlingStep ports) start path)
    (empty : Meets (fun last message =>
      StartsEmpty ports message.1 (last.worker.inWorld message.2)) start path)
    (split : path = before ++ (message, next) :: after) :
    next = handle ports (final start before) message ∧
      ExactlyOnce ports message.1 ((final start before).worker.inWorld message.2) := by
  subst split
  have hsound : SoundTables (final start before).worker.db :=
    soundTables_visited sound (path_of_append run) _ final_mem_visited
  have hempty : StartsEmpty ports message.1 ((final start before).worker.inWorld message.2) :=
    meets_of_split empty
  exact ⟨step_of_split run, deliver_exactlyOnce hsound hempty⟩

theorem latencyWorker_sound : SoundTables latencyWorker.worker.db where
  ids := by decide
  history := by
    intro row hrow
    have hnil : row.stateHistory = [] ∧ row.state = .open := by
      change row ∈ [_, _, _] at hrow
      simp only [List.mem_cons, List.not_mem_nil, or_false] at hrow
      rcases hrow with rfl | rfl | rfl <;> exact ⟨rfl, rfl⟩
    unfold SoundRow historyTrail
    rw [hnil.1, hnil.2]
    exact ⟨Trails.trail_nil_iff.mpr rfl, by simp⟩
  versions := List.nodup_nil

theorem exactly_once_after_commit : otherHandling = handle scripted latencyHandling otherMessage ∧
    ExactlyOnce scripted otherMessage.1 (latencyHandling.worker.inWorld otherMessage.2) := by
  have empty : Meets (fun last message =>
      StartsEmpty scripted message.1 (last.worker.inWorld message.2)) latencyWorker
      [(latencyMessage, latencyHandling), (otherMessage, otherHandling)] :=
    ⟨startsEmpty_of_tidy (latencyWorker_tidy.inWorld latencyMessage.2),
      startsEmpty_of_tidy (latencyHandling_tidy.inWorld otherMessage.2), trivial⟩
  have split : [(latencyMessage, latencyHandling), (otherMessage, otherHandling)] =
      [(latencyMessage, latencyHandling)] ++ (otherMessage, otherHandling) :: [] := rfl
  have h := exactly_once_of_empty latencyWorker_sound latencyHandlings_path empty split
  rwa [final_cons, final_nil] at h

/-- An incident whose investigation is escalated at once. -/
def dependencyMessage : DomainEvent × Script := (openedEvent 12, ⟨1, 200, [], [], []⟩)

/-- After the aborted handling of one incident, that of another commits its evidence row. -/
theorem leftover_row_committed :
    (∃ path, Path (HandlingStep scripted) latencyWorker path ∧
      final latencyWorker path = refusedHandling) ∧
    ¬ExactlyOnce scripted dependencyMessage.1
      (refusedHandling.worker.inWorld dependencyMessage.2) := by
  refine ⟨⟨_, refusedHandling_path, by rw [final_cons, final_nil]⟩, fun h => ?_⟩
  have observed :
      (refusedHandling.worker.inWorld dependencyMessage.2).db.evidence.length = 0 ∧
      (deliver scripted dependencyMessage.1
        (refusedHandling.worker.inWorld dependencyMessage.2)).ended.result =
      some ⟨12, some .investigating, true, false⟩ ∧
      (deliver scripted dependencyMessage.1
        (refusedHandling.worker.inWorld dependencyMessage.2)).worker.db.evidence.map
        Evidence.key = [(101, 10)] := by
    decide +kernel
  obtain ⟨hbefore, hresult, hrows⟩ := observed
  have hwrote := h.wrote
  generalize deliver scripted dependencyMessage.1
    (refusedHandling.worker.inWorld dependencyMessage.2) = handling at hresult hrows hwrote
  have hend : handling.ended = .committed ⟨12, some .investigating, true, false⟩ := by
    rcases hcase : handling.ended with result | raised
    · rw [hcase] at hresult
      rw [Option.some.inj hresult]
    · rw [hcase] at hresult
      cases hresult
  obtain ⟨rows, hevidence, hincident⟩ := (hwrote _ hend rfl).evidence
  have hempty : (refusedHandling.worker.inWorld dependencyMessage.2).db.evidence = [] :=
    List.length_eq_zero_iff.mp hbefore
  rw [hevidence, hempty, List.nil_append] at hrows
  obtain ⟨row, hrow, hkey⟩ : ∃ row ∈ rows, row.key = (101, 10) := by
    have : (101, 10) ∈ rows.map Evidence.key := by rw [hrows]; simp
    simpa using List.mem_map.mp this
  have hten : row.incidentId = 10 := congrArg Prod.snd hkey
  rw [hincident row hrow] at hten
  exact absurd hten (by decide)

end Aegis
