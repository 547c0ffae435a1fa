import Aegis.Worker

namespace Aegis

open Raising Proc

variable {World : Type} {ports : WorkerPorts World} {s t : Session World}

/-- What a part of a handling that returns leaves: these tables and this runner. -/
structure Becomes (s t : Session World) (db : Db) (runner : Runner) : Prop where
  db : t.db = db
  runner : t.process.runner = runner
  cache : t.process.cache = s.process.cache

theorem statement_becomes (ports : WorkerPorts World) (s : Session World) :
    Becomes s (statement ports s).2 s.db s.process.runner := by
  unfold statement
  split
  · exact ⟨rfl, rfl, rfl⟩
  · exact ⟨rfl, rfl, rfl⟩

theorem write_ok {conflict : Db → Bool} {change : Db → Db}
    (h : write ports conflict change s = (.ok (), t)) :
    conflict s.db = false ∧ Becomes s t (change s.db) s.process.runner := by
  obtain ⟨_, u, hstatement, h⟩ := bind_eq_ok.mp h
  have hu : Becomes s u s.db s.process.runner := by
    have := statement_becomes ports s
    rwa [hstatement] at this
  obtain ⟨db, u', hread, h⟩ := bind_eq_ok.mp h
  cases hread
  split at h
  · cases h
  next hfree =>
    cases h
    rw [hu.db] at hfree
    exact ⟨by simpa using hfree, ⟨congrArg change hu.db, hu.runner, hu.cache⟩⟩

/-- Notifying about an incident adds rows of that incident at most, even when it fails. -/
structure Notifies (incidentId : Uuid) (s t : Session World) : Prop where
  db : ∃ notes, t.db = { s.db with notifications := s.db.notifications ++ notes } ∧
    ∀ note ∈ notes, note.incidentId = incidentId
  runner : t.process.runner = s.process.runner
  cache : t.process.cache = s.process.cache

theorem notifies_of_becomes {incidentId : Uuid} (h : Becomes s t s.db s.process.runner) :
    Notifies incidentId s t :=
  ⟨⟨[], by simp [h.db], by simp⟩, h.runner, h.cache⟩

theorem notifies_refl {incidentId : Uuid} (s : Session World) : Notifies incidentId s s :=
  notifies_of_becomes ⟨rfl, rfl, rfl⟩

theorem notifies_trans {incidentId : Uuid} (s t u : Session World) (h : Notifies incidentId s t)
    (h' : Notifies incidentId t u) : Notifies incidentId s u := by
  obtain ⟨notes, hdb, hnotes⟩ := h.db
  obtain ⟨more, hdb', hmore⟩ := h'.db
  refine ⟨⟨notes ++ more, ?_, ?_⟩, h'.runner.trans h.runner, h'.cache.trans h.cache⟩
  · rw [hdb', hdb, List.append_assoc]
  · intro note hnote
    exact (List.mem_append.mp hnote).elim (hnotes note) (hmore note)

theorem notifies_recordNotification {row : Notification} {incidentId : Uuid}
    (h : row.incidentId = incidentId) :
    Leaves (Notifies incidentId) (recordNotification ports row) := by
  subst h
  refine leaves_bind notifies_trans (leaves_attempt notifies_trans
    (fun s => notifies_of_becomes (statement_becomes ports s)) fun raised => ?_) fun _ => ?_
  · exact leaves_bind notifies_trans
      (leaves_update fun s => notifies_of_becomes ⟨rfl, rfl, rfl⟩) fun _ => notifies_refl
  · refine leaves_bind notifies_trans (leaves_read notifies_refl _) fun db => ?_
    split
    · exact leaves_pure notifies_refl _
    · exact leaves_update fun s => ⟨⟨[row], rfl, by simp⟩, rfl, rfl⟩

theorem notifies_notification (incident : Incident) (kind : NotificationKind)
    (eventType reason dedupeKey : String) (rcaVersion : Option Nat) :
    Leaves (Notifies incident.id)
      (notification ports incident kind eventType reason dedupeKey rcaVersion) := by
  have drawn : ∀ {Value : Type} (f : World → Value × World),
      Leaves (Notifies incident.id) (sessionDraw f) := fun f =>
    leaves_within fun s world => notifies_of_becomes ⟨rfl, rfl, rfl⟩
  exact leaves_bind notifies_trans (drawn _) fun _ => leaves_bind notifies_trans (drawn _)
    fun _ => notifies_recordNotification rfl

theorem notifies_notifyRcaReady (incident : Incident) (report : RcaReport) :
    Leaves (Notifies incident.id) (notifyRcaReady ports incident report) :=
  leaves_attempt notifies_trans (notifies_notification _ _ _ _ _ _) fun _ =>
    leaves_pure notifies_refl _

theorem notifies_notifyEscalated (incident : Incident) (reason : String) :
    Leaves (Notifies incident.id) (notifyEscalated ports incident reason) := by
  unfold notifyEscalated
  split
  · exact leaves_pure notifies_refl _
  · exact leaves_attempt notifies_trans (notifies_notification _ _ _ _ _ _) fun _ =>
      leaves_pure notifies_refl _

/-- What a row is about, which redaction keeps. -/
def Evidence.key (row : Evidence) : Uuid × Uuid := (row.id, row.incidentId)

/-- One row of evidence was added for each item. -/
def StoresEvidence (items : List Evidence) (s t : Session World) : Prop :=
  ∃ rows, rows.map Evidence.key = items.map Evidence.key ∧
    Becomes s t { s.db with evidence := s.db.evidence ++ rows } s.process.runner

theorem storesEvidence_cons {item : Evidence} {rest : List Evidence} {u : Session World}
    (hitem : recordEvidence ports item s = (.ok (), t)) (hrest : StoresEvidence rest t u) :
    StoresEvidence (item :: rest) s u := by
  obtain ⟨rows, hrows, hdb, hrunner, hcache⟩ := hrest
  obtain ⟨prepared, s', hprepared, hadd⟩ := bind_eq_ok.mp hitem
  obtain ⟨hprepare, rfl⟩ := fromExcept_eq_ok.mp hprepared
  obtain ⟨_, hwrite⟩ := write_ok hadd
  obtain ⟨hid, hincident⟩ := prepareEvidence_ok hprepare
  refine ⟨prepared :: rows, ?_, ?_, hrunner.trans hwrite.runner, hcache.trans hwrite.cache⟩
  · simp [Evidence.key, hid, hincident, hrows]
  · rw [hdb, hwrite.db]
    simp

theorem persistCollectedEvidence_ok (h : persistCollectedEvidence ports s = (.ok (), t)) :
    ∃ rows, rows.map Evidence.key = s.process.runner.recorded.map Evidence.key ∧
      Becomes s t { s.db with evidence := s.db.evidence ++ rows }
        { s.process.runner with recorded := [] } := by
  obtain ⟨items, u, hdrain, h⟩ := bind_eq_ok.mp h
  cases hdrain
  have loop : StoresEvidence _ _ t := forEach_ok
    (fun s => ⟨[], rfl, by simp, rfl, rfl⟩) (fun _ _ _ _ _ => storesEvidence_cons) h
  obtain ⟨rows, hrows, hdb, hrunner, hcache⟩ := loop
  exact ⟨rows, hrows, hdb, hrunner, hcache⟩

/-- The entries were appended to the audit table. -/
def StoresAudit (items : AuditLog) (s t : Session World) : Prop :=
  Becomes s t { s.db with auditLog := s.db.auditLog ++ items } s.process.runner

theorem storesAudit_cons {item : AuditEntry} {rest : AuditLog} {u : Session World}
    (hitem : appendAudit ports item s = (.ok (), t)) (hrest : StoresAudit rest t u) :
    StoresAudit (item :: rest) s u := by
  obtain ⟨hdb, hrunner, hcache⟩ := hrest
  obtain ⟨_, hwrite⟩ := write_ok hitem
  refine ⟨?_, hrunner.trans hwrite.runner, hcache.trans hwrite.cache⟩
  rw [hdb, hwrite.db]
  simp

theorem persistRecordedAudit_ok (h : persistRecordedAudit ports s = (.ok (), t)) :
    Becomes s t { s.db with auditLog := s.db.auditLog ++ s.process.runner.log }
      { s.process.runner with log := [] } := by
  obtain ⟨items, u, hdrain, h⟩ := bind_eq_ok.mp h
  cases hdrain
  have loop : StoresAudit _ _ t := forEach_ok
    (fun s => ⟨by simp, rfl, rfl⟩) (fun _ _ _ _ _ => storesAudit_cons) h
  exact ⟨loop.db, loop.runner, loop.cache⟩

/-- Incident and version tell the reports apart. -/
def UniqueVersions (reports : List RcaReport) : Prop :=
  (reports.map fun report => (report.incidentId, report.version)).Nodup

theorem uniqueVersions_concat {report : RcaReport} {db : Db}
    (unique : UniqueVersions db.rcaReports) (h : rcaConflict report db = false) :
    UniqueVersions (db.rcaReports ++ [report]) := by
  unfold UniqueVersions at *
  rw [List.map_append, List.nodup_append]
  refine ⟨unique, by simp, ?_⟩
  intro key hkey other hother
  obtain ⟨row, hrow, rfl⟩ := List.mem_map.mp hkey
  obtain rfl : other = (report.incidentId, report.version) := by simpa using hother
  unfold rcaConflict at h
  rw [List.any_eq_false] at h
  have hrow := h row hrow
  simp only [Bool.or_eq_true, Bool.and_eq_true, decide_eq_true_eq, not_or, not_and] at hrow
  intro heq
  obtain ⟨hincident, hversion⟩ := Prod.mk.inj heq
  exact hrow.2 hincident hversion

theorem recordRca_ok {incident : Incident} {report : RcaReport}
    (h : recordRca ports incident report s = (.ok (), t)) :
    rcaConflict report s.db = false ∧ ∃ notes,
      (∀ note ∈ notes, note.incidentId = incident.id) ∧
      Becomes s t { s.db with
        rcaReports := s.db.rcaReports ++ [report]
        notifications := s.db.notifications ++ notes } s.process.runner := by
  obtain ⟨_, u, hadd, h⟩ := bind_eq_ok.mp h
  obtain ⟨hfree, hwrite⟩ := write_ok hadd
  have hnotify := leaves_eq (notifies_notifyRcaReady incident report) h
  obtain ⟨notes, hdb, hnotes⟩ := hnotify.db
  refine ⟨hfree, notes, hnotes, ?_, hnotify.runner.trans hwrite.runner,
    hnotify.cache.trans hwrite.cache⟩
  rw [hdb, hwrite.db]

/-- The reports were added to the table, whose constraint they keep, and the owner of the
incident may have been notified. -/
def StoresRca (incident : Incident) (items : List RcaReport) (s t : Session World) : Prop :=
  (UniqueVersions s.db.rcaReports → UniqueVersions (s.db.rcaReports ++ items)) ∧ ∃ notes,
    (∀ note ∈ notes, note.incidentId = incident.id) ∧
    Becomes s t { s.db with
      rcaReports := s.db.rcaReports ++ items
      notifications := s.db.notifications ++ notes } s.process.runner

theorem storesRca_cons {incident : Incident} {item : RcaReport} {rest : List RcaReport}
    {u : Session World} (hitem : recordRca ports incident item s = (.ok (), t))
    (hrest : StoresRca incident rest t u) : StoresRca incident (item :: rest) s u := by
  obtain ⟨hunique, notes, hnotes, hdb, hrunner, hcache⟩ := hrest
  obtain ⟨hfree, first, hfirst, hwrite⟩ := recordRca_ok hitem
  rw [hwrite.db] at hunique
  refine ⟨fun unique => ?_, first ++ notes, ?_, ?_, hrunner.trans hwrite.runner,
    hcache.trans hwrite.cache⟩
  · simpa using hunique (uniqueVersions_concat unique hfree)
  · intro note hnote
    exact (List.mem_append.mp hnote).elim (hfirst note) (hnotes note)
  · rw [hdb, hwrite.db]
    simp

theorem persistRecordedRca_ok {incident : Incident}
    (h : persistRecordedRca ports incident s = (.ok (), t)) :
    (UniqueVersions s.db.rcaReports →
      UniqueVersions (s.db.rcaReports ++ s.process.runner.rcaReports)) ∧ ∃ notes,
      (∀ note ∈ notes, note.incidentId = incident.id) ∧
      Becomes s t { s.db with
        rcaReports := s.db.rcaReports ++ s.process.runner.rcaReports
        notifications := s.db.notifications ++ notes }
        { s.process.runner with rcaReports := [] } := by
  obtain ⟨items, u, hdrain, h⟩ := bind_eq_ok.mp h
  cases hdrain
  have loop : StoresRca incident _ _ t := forEach_ok
    (fun s => ⟨by simp, [], by simp, by simp, rfl, rfl⟩)
    (fun _ _ _ _ _ => storesRca_cons) h
  obtain ⟨hunique, notes, hnotes, hbecomes⟩ := loop
  exact ⟨hunique, notes, hnotes, hbecomes.db, hbecomes.runner, hbecomes.cache⟩

theorem persistRecordedProgress_ok {incident : Incident} {progress : InvestigationProgress}
    (hprogress : s.process.runner.progress = some progress)
    (h : persistRecordedProgress ports incident s = (.ok (), t)) : ∃ notes,
      (∀ note ∈ notes, note.incidentId = incident.id) ∧
      Becomes s t { saveProgressRow progress s.db with
        notifications := s.db.notifications ++ notes }
        { s.process.runner with progress := none } := by
  obtain ⟨item, u, hdrain, h⟩ := bind_eq_ok.mp h
  obtain ⟨hitem, hu⟩ := Prod.mk.inj hdrain
  obtain rfl : some progress = item := by simpa [hprogress] using hitem
  subst hu
  obtain ⟨_, u', hsave, h⟩ := bind_eq_ok.mp h
  obtain ⟨_, hwrite⟩ := write_ok hsave
  have hnotify := leaves_eq (notifies_notifyEscalated incident progress.escalateReason) h
  obtain ⟨notes, hdb, hnotes⟩ := hnotify.db
  refine ⟨notes, hnotes, ?_, hnotify.runner.trans hwrite.runner,
    hnotify.cache.trans hwrite.cache⟩
  rw [hdb, hwrite.db]
  rfl

/-- Rows of evidence that can still be stored one after the other. -/
structure EvidenceFits (ports : WorkerPorts World) (items : List Evidence) (s : Session World) :
    Prop where
  usable : s.broken = false
  prepared : ∀ row ∈ items, ∃ prepared, prepareEvidence ports.services.redact row = .ok prepared
  fresh : ((s.db.evidence ++ items).map Evidence.id).Nodup

/-- Audit entries that can still be appended one after the other. -/
structure AuditFits (items : AuditLog) (s : Session World) : Prop where
  usable : s.broken = false
  ids : ((s.db.auditLog ++ items).map AuditEntry.id).Nodup
  hashes : ((s.db.auditLog ++ items).map fun entry => entry.rowHash.text).Nodup

/-- Reports that can still be stored one after the other. -/
structure ReportsFit (items : List RcaReport) (s : Session World) : Prop where
  usable : s.broken = false
  ids : ((s.db.rcaReports ++ items).map RcaReport.id).Nodup
  versions : UniqueVersions (s.db.rcaReports ++ items)

theorem not_mem_of_nodup_cons {Row Key : Type} {key : Row → Key} {rows rest : List Row} {row : Row}
    (h : ((rows ++ row :: rest).map key).Nodup) : ∀ other ∈ rows, key other ≠ key row := by
  intro other hother
  rw [List.map_append, List.nodup_append] at h
  exact h.2.2 _ (List.mem_map_of_mem hother) _ (List.mem_map_of_mem List.mem_cons_self)

section Executes

variable (executes : ∀ world, (ports.statement world).1 = true)

include executes

theorem statement_returns (usable : s.broken = false) :
    ∃ t, statement ports s = (.ok (), t) ∧ t.broken = false := by
  refine ⟨s.at (ports.statement s.process.world).2, ?_, usable⟩
  unfold statement
  rw [if_neg (by simp [usable])]
  dsimp only
  rw [executes, if_pos rfl]

theorem write_returns {conflict : Db → Bool} {change : Db → Db} (usable : s.broken = false)
    (free : conflict s.db = false) :
    ∃ t, write ports conflict change s = (.ok (), t) ∧ t.broken = false ∧ t.db = change s.db := by
  obtain ⟨t, hstatement, ht⟩ := statement_returns executes usable
  have hdb : t.db = s.db := by
    have hbecomes := (statement_becomes ports s).db
    rwa [hstatement] at hbecomes
  refine ⟨t.withDb (change t.db), ?_, ht, congrArg change hdb⟩
  unfold write
  rw [bind_of_ok hstatement]
  change (if conflict t.db = true then raise integrityError
    else update fun s => s.withDb (change s.db)) t = _
  rw [if_neg (by simp [hdb, free])]
  rfl

theorem recordEvidence_returns (row : Evidence) (rest : List Evidence)
    (h : EvidenceFits ports (row :: rest) s) :
    ∃ t, recordEvidence ports row s = (.ok (), t) ∧ EvidenceFits ports rest t := by
  obtain ⟨⟨stored, hstored⟩, hrest⟩ := List.forall_mem_cons.mp h.prepared
  have hid := (prepareEvidence_ok hstored).1
  have hfree : (s.db.evidence.any fun other => other.id = stored.id) = false := by
    rw [List.any_eq_false]
    intro other hother hsame
    exact not_mem_of_nodup_cons h.fresh other hother ((of_decide_eq_true hsame).trans hid)
  obtain ⟨t, hwrite, ht, hdb⟩ := @write_returns _ ports s executes
    (fun db => db.evidence.any fun other => other.id = stored.id)
    (fun db => { db with evidence := db.evidence ++ [stored] }) h.usable hfree
  refine ⟨t, ?_, ht, hrest, ?_⟩
  · unfold recordEvidence
    rw [hstored]
    exact hwrite
  · rw [hdb]
    simpa [hid] using h.fresh

theorem appendAudit_returns (entry : AuditEntry) (rest : AuditLog)
    (h : AuditFits (entry :: rest) s) :
    ∃ t, appendAudit ports entry s = (.ok (), t) ∧ AuditFits rest t := by
  have hfree : (s.db.auditLog.any fun other =>
      other.id = entry.id || other.rowHash.text = entry.rowHash.text) = false := by
    rw [List.any_eq_false]
    intro other hother hsame
    rcases Bool.or_eq_true_iff.mp hsame with hid | hhash
    · exact not_mem_of_nodup_cons h.ids other hother (of_decide_eq_true hid)
    · exact not_mem_of_nodup_cons h.hashes other hother (of_decide_eq_true hhash)
  obtain ⟨t, hwrite, ht, hdb⟩ := @write_returns _ ports s executes
    (fun db => db.auditLog.any fun other =>
      other.id = entry.id || other.rowHash.text = entry.rowHash.text)
    (fun db => { db with auditLog := db.auditLog ++ [entry] }) h.usable hfree
  refine ⟨t, hwrite, ht, ?_, ?_⟩
  · rw [hdb]
    simpa using h.ids
  · rw [hdb]
    simpa using h.hashes

/-- On statements that are executed the transaction stays usable, whatever becomes of the row. -/
theorem recordNotification_returns (row : Notification) (usable : s.broken = false) :
    ∃ t, recordNotification ports row s = (.ok (), t) ∧ t.broken = false := by
  obtain ⟨t, hstatement, ht⟩ := statement_returns executes usable
  have hattempt : ∀ handler, attempt (statement ports) handler s = (.ok (), t) := by
    intro handler
    unfold attempt
    rw [hstatement]
  unfold recordNotification
  rw [bind_of_ok (hattempt _)]
  by_cases hconflict : notificationConflict row t.db = true
  · exact ⟨t, congrFun (if_pos hconflict) t, ht⟩
  · exact ⟨_, congrFun (if_neg hconflict) t, ht⟩

theorem notification_returns (incident : Incident) (kind : NotificationKind)
    (eventType reason dedupeKey : String) (rcaVersion : Option Nat) (usable : s.broken = false) :
    ∃ t, notification ports incident kind eventType reason dedupeKey rcaVersion s = (.ok (), t) ∧
      t.broken = false :=
  @recordNotification_returns _ ports (s.at _) executes _ usable

theorem notifyRcaReady_returns (incident : Incident) (report : RcaReport)
    (usable : s.broken = false) :
    ∃ t, notifyRcaReady ports incident report s = (.ok (), t) ∧ t.broken = false := by
  obtain ⟨t, h, ht⟩ := notification_returns executes incident .rcaReady "rca.completed.v1"
    "pending_review" ("rca_ready:" ++ toString report.version) (some report.version) usable
  refine ⟨t, ?_, ht⟩
  unfold notifyRcaReady attempt
  rw [h]

theorem notifyEscalated_returns (incident : Incident) (reason : String)
    (usable : s.broken = false) :
    ∃ t, notifyEscalated ports incident reason s = (.ok (), t) ∧ t.broken = false := by
  unfold notifyEscalated
  split
  · exact ⟨s, rfl, usable⟩
  · obtain ⟨t, h, ht⟩ := notification_returns executes incident .escalation "rca.escalated.v1"
      (strip reason) ("escalation:" ++ strip reason) none usable
    refine ⟨t, ?_, ht⟩
    unfold attempt
    rw [h]

theorem recordRca_returns (incident : Incident) (report : RcaReport) (rest : List RcaReport)
    (h : ReportsFit (report :: rest) s) :
    ∃ t, recordRca ports incident report s = (.ok (), t) ∧ ReportsFit rest t := by
  have hfree : rcaConflict report s.db = false := by
    unfold rcaConflict
    rw [List.any_eq_false]
    intro other hother hsame
    rcases Bool.or_eq_true_iff.mp hsame with hid | hversion
    · exact not_mem_of_nodup_cons h.ids other hother (of_decide_eq_true hid)
    · obtain ⟨hincident, hversion⟩ := Bool.and_eq_true_iff.mp hversion
      exact not_mem_of_nodup_cons h.versions other hother
        (Prod.ext (of_decide_eq_true hincident) (of_decide_eq_true hversion))
  obtain ⟨u, hadd, hu, hdb⟩ := @write_returns _ ports s executes (rcaConflict report)
    (fun db => { db with rcaReports := db.rcaReports ++ [report] }) h.usable hfree
  obtain ⟨t, hnotify, ht⟩ := notifyRcaReady_returns executes incident report hu
  obtain ⟨notes, hnotes, _⟩ := (leaves_eq (notifies_notifyRcaReady incident report) hnotify).db
  refine ⟨t, (bind_of_ok hadd).trans hnotify, ht, ?_, ?_⟩
  · rw [hnotes, hdb]
    simpa using h.ids
  · rw [hnotes, hdb]
    simpa using h.versions

end Executes

/-- The database takes what a run has left in the runner: it executes every statement, the rows of
evidence pass `prepare_evidence`, and nothing is stored under a key that is there already. -/
structure TakesRun (ports : WorkerPorts World) (s : Session World) : Prop where
  executes : ∀ world, (ports.statement world).1 = true
  evidence : EvidenceFits ports s.process.runner.recorded s
  entries : AuditFits s.process.runner.log s
  reports : ReportsFit s.process.runner.rcaReports s

/-- The tables have what the session had and what its runner held: a row for each recorded item,
the audit entries, the reports and the progress. -/
structure PersistsRun (s : Session World) (progress : InvestigationProgress) (db : Db) : Prop where
  incidents : db.incidents = s.db.incidents
  inbox : db.inbox = s.db.inbox
  evidence : ∃ rows, rows.map Evidence.key = s.process.runner.recorded.map Evidence.key ∧
    db.evidence = s.db.evidence ++ rows
  auditLog : db.auditLog = s.db.auditLog ++ s.process.runner.log
  rcaReports : db.rcaReports = s.db.rcaReports ++ s.process.runner.rcaReports
  progress : progress ∈ db.progress

theorem persistCollectedEvidence_returns (executes : ∀ world, (ports.statement world).1 = true)
    (fits : EvidenceFits ports s.process.runner.recorded s) :
    ∃ t, persistCollectedEvidence ports s = (.ok (), t) ∧ t.broken = false := by
  obtain ⟨t, hloop, hfits⟩ := @forEach_returns _ _ _ (recordEvidence ports) (EvidenceFits ports)
    (fun row rest _ h => recordEvidence_returns executes row rest h) s.process.runner.recorded
    (s.withRunner { s.process.runner with recorded := [] }) ⟨fits.usable, fits.prepared, fits.fresh⟩
  exact ⟨t, hloop, hfits.usable⟩

theorem persistRecordedAudit_returns (executes : ∀ world, (ports.statement world).1 = true)
    (fits : AuditFits s.process.runner.log s) :
    ∃ t, persistRecordedAudit ports s = (.ok (), t) ∧ t.broken = false := by
  obtain ⟨t, hloop, hfits⟩ := @forEach_returns _ _ _ (appendAudit ports) AuditFits
    (fun entry rest _ h => appendAudit_returns executes entry rest h) s.process.runner.log
    (s.withRunner { s.process.runner with log := [] }) ⟨fits.usable, fits.ids, fits.hashes⟩
  exact ⟨t, hloop, hfits.usable⟩

theorem persistRecordedRca_returns {incident : Incident}
    (executes : ∀ world, (ports.statement world).1 = true)
    (fits : ReportsFit s.process.runner.rcaReports s) :
    ∃ t, persistRecordedRca ports incident s = (.ok (), t) ∧ t.broken = false := by
  obtain ⟨t, hloop, hfits⟩ := @forEach_returns _ _ _ (recordRca ports incident) ReportsFit
    (fun report rest _ h => recordRca_returns executes incident report rest h)
    s.process.runner.rcaReports (s.withRunner { s.process.runner with rcaReports := [] })
    ⟨fits.usable, fits.ids, fits.versions⟩
  exact ⟨t, hloop, hfits.usable⟩

theorem persistRecordedProgress_returns {incident : Incident} {progress : InvestigationProgress}
    (executes : ∀ world, (ports.statement world).1 = true) (usable : s.broken = false)
    (hprogress : s.process.runner.progress = some progress) :
    ∃ t, persistRecordedProgress ports incident s = (.ok (), t) ∧ t.broken = false := by
  obtain ⟨u, hsave, hu, _⟩ := @write_returns _ ports
    (s.withRunner { s.process.runner with progress := none }) executes (fun _ => false)
    (saveProgressRow progress) usable rfl
  obtain ⟨t, hnotify, ht⟩ := notifyEscalated_returns executes incident progress.escalateReason hu
  refine ⟨t, ?_, ht⟩
  change recordProgress ports incident s.process.runner.progress
    (s.withRunner { s.process.runner with progress := none }) = _
  rw [hprogress]
  exact (bind_of_ok hsave).trans hnotify

/-- The persistence steps return when the database takes the run, with the rows in the tables. -/
theorem persistSteps_return {incident : Incident} {progress : InvestigationProgress}
    (takes : TakesRun ports s) (hprogress : s.process.runner.progress = some progress) :
    ∃ t u v w, persistCollectedEvidence ports s = (.ok (), t) ∧
      persistRecordedAudit ports t = (.ok (), u) ∧ persistRecordedRca ports incident u = (.ok (), v) ∧
      persistRecordedProgress ports incident v = (.ok (), w) ∧ w.broken = false ∧
      PersistsRun s progress w.db := by
  obtain ⟨t, hevidence, ht⟩ := persistCollectedEvidence_returns takes.executes takes.evidence
  obtain ⟨rows, hrows, hstored⟩ := persistCollectedEvidence_ok hevidence
  obtain ⟨u, haudit, hu⟩ := @persistRecordedAudit_returns _ ports t takes.executes
    ⟨ht, by simpa [hstored.db, hstored.runner] using takes.entries.ids,
      by simpa [hstored.db, hstored.runner] using takes.entries.hashes⟩
  have happended := persistRecordedAudit_ok haudit
  obtain ⟨v, hrca, hv⟩ := @persistRecordedRca_returns _ ports u incident takes.executes
    ⟨hu, by simpa [happended.db, happended.runner, hstored.db, hstored.runner] using
      takes.reports.ids,
      by simpa [happended.db, happended.runner, hstored.db, hstored.runner] using
        takes.reports.versions⟩
  obtain ⟨_, notes, _, hreported⟩ := persistRecordedRca_ok hrca
  have hlater : v.process.runner.progress = some progress := by
    rw [hreported.runner, happended.runner, hstored.runner]
    exact hprogress
  obtain ⟨w, hsaved, hw⟩ := @persistRecordedProgress_returns _ ports v incident progress
    takes.executes hv hlater
  obtain ⟨more, _, hkept⟩ := persistRecordedProgress_ok hlater hsaved
  refine ⟨t, u, v, w, hevidence, haudit, hrca, hsaved, hw, ?_⟩
  have hdb := hkept.db
  rw [hreported.db, happended.db, happended.runner, hstored.db, hstored.runner] at hdb
  rw [hdb]
  exact ⟨rfl, rfl, ⟨rows, hrows, rfl⟩, rfl, rfl,
    List.mem_append_right _ (List.mem_singleton.mpr rfl)⟩

end Aegis
