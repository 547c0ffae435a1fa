import Aegis.Delivery
import Aegis.FreshRestart
import Aegis.StepPath

namespace Aegis

open Raising Proc StepPath

variable {World : Type} {ports : WorkerPorts World} {event : DomainEvent}
  {worker : Worker World} {s t : Session World}

/-- Every entry the gateway has recorded is in its log or in a committed row. -/
def Kept (worker : Worker World) : Prop :=
  ∀ entry ∈ worker.process.runner.audited,
    entry ∈ worker.process.runner.log ∨ entry ∈ worker.db.auditLog

/-- No entry is lost, and after a handling that committed every entry is in a committed row. -/
structure AuditCustody (handling : Handling World) : Prop where
  kept : Kept handling.worker
  committed : handling.ended.isCommitted = true →
    ∀ entry ∈ handling.worker.process.runner.audited, entry ∈ handling.worker.db.auditLog

/-- A handling that drains a log with entries does not fail any more, and one that commits
without an investigation finds the log empty. -/
structure FlushSettles (ports : WorkerPorts World) (event : DomainEvent) (worker : Worker World) :
    Prop where
  drained : ∀ result moved s t,
    prologue ports event worker.session = (.ok (result, some moved), s) →
    upToAudit ports event moved s = (.ok (), t) → t.process.runner.log ≠ [] →
    ∃ u, closing ports moved t = (.ok (), u)
  idle : ∀ result s t, prologue ports event worker.session = (.ok (result, none), s) →
    statement ports s = (.ok (), t) → worker.process.runner.log = []

theorem kept_of_same {w : Worker World} (h : Kept worker)
    (runner : w.process.runner.audited = worker.process.runner.audited)
    (log : w.process.runner.log = worker.process.runner.log)
    (rows : w.db.auditLog = worker.db.auditLog) : Kept w := by
  unfold Kept
  rw [runner, log, rows]
  exact h

/-- A run of the graph records its entries behind those in the log. -/
theorem run_audited {moved : Incident} (h : ∀ entry ∈ s.process.runner.audited,
      entry ∈ s.process.runner.log ∨ entry ∈ s.db.auditLog) :
    ∀ entry ∈ (s.ran ports event moved).runner.audited,
      entry ∈ (s.ran ports event moved).runner.log ∨ entry ∈ s.db.auditLog := by
  obtain ⟨made, hmade⟩ := (investigate_extends ports.toSpecialistPorts s.process
    (startRequest ports event moved)).log
  rw [run_eq] at hmade
  change s.process.runner.log ++ made = _ at hmade
  rw [← ran_eq, afterRun_audited, afterRun_log, ← hmade, List.drop_left]
  intro entry hentry
  rcases List.mem_append.mp hentry with hold | hnew
  · exact (h entry hold).imp (List.mem_append_left _) id
  · exact .inl (List.mem_append_right _ hnew)

theorem kept_of_rolledBack {moved : Incident} {raised : Raised} {u : Session World}
    (h : Kept worker) (rows : s.db.auditLog = worker.db.auditLog)
    (runner : s.process.runner = { worker.process.runner with packs := [] })
    (hrun : upToAudit ports event moved s = (.error raised, u)) :
    Kept ⟨worker.db, u.process⟩ := by
  have hleaves := @upToAudit_leaves _ ports event moved s
  rw [hrun] at hleaves
  have hran := @run_audited _ ports event s moved (by rw [runner, rows]; exact h)
  generalize s.ran ports event moved = ran at *
  intro entry hentry
  change entry ∈ u.process.runner.audited at hentry
  rw [hleaves.audited] at hentry
  change entry ∈ u.process.runner.log ∨ entry ∈ worker.db.auditLog
  rw [hleaves.log, ← rows]
  exact hran entry hentry

theorem closing_rows {moved : Incident} {progress : InvestigationProgress}
    (hprogress : s.process.runner.progress = some progress)
    (h : closing ports moved s = (.ok (), t)) :
    t.db.auditLog = s.db.auditLog ++ s.process.runner.log := by
  obtain ⟨u, hfrom, hcommit⟩ := closing_ok h
  obtain ⟨_, _, _, hdb, _⟩ := fromAudit_ok hprogress hfrom
  rw [hcommit.db, hdb]

theorem idle_custody {result : ConsumeOpenedResult} (h : Kept worker)
    (settles : FlushSettles ports event worker)
    (hprologue : prologue ports event worker.session = (.ok (result, none), s)) :
    AuditCustody (deliver ports event worker) := by
  have hrunner := prologue_runner hprologue
  obtain ⟨_, inbox, hdb⟩ := prologue_ok hprologue
  have rows : s.db.auditLog = worker.db.auditLog := by rw [hdb]; rfl
  have hcommit := statement_becomes ports s
  rcases hstatement : statement ports s with ⟨raised | _, t⟩
  · rw [hstatement] at hcommit
    rw [deliver_idle_error hprologue hstatement]
    exact ⟨kept_of_same h (by rw [hcommit.runner, hrunner]) (by rw [hcommit.runner, hrunner]) rfl,
      fun hend => by cases hend⟩
  · have hempty := settles.idle result s t hprologue hstatement
    rw [hstatement] at hcommit
    rw [deliver_idle_ok hprologue hstatement]
    have all : ∀ entry ∈ t.process.runner.audited, entry ∈ t.db.auditLog := by
      intro entry hentry
      rw [hcommit.runner, hrunner] at hentry
      rw [hcommit.db, rows]
      exact (h entry hentry).resolve_left (by rw [hempty]; simp)
    exact ⟨fun entry hentry => .inr (all entry hentry), fun _ => all⟩

theorem started_custody {result : ConsumeOpenedResult} {moved : Incident} (h : Kept worker)
    (settles : FlushSettles ports event worker)
    (hprologue : prologue ports event worker.session = (.ok (result, some moved), s)) :
    AuditCustody (deliver ports event worker) := by
  have hrunner := prologue_runner hprologue
  obtain ⟨_, row, moment, inbox, _, _, hdb⟩ := prologue_ok hprologue
  have rows : s.db.auditLog = worker.db.auditLog := by rw [hdb]; rfl
  rcases hrun : upToAudit ports event moved s with ⟨raised | _, t⟩
  · rw [deliver_run_error hprologue hrun]
    exact ⟨kept_of_rolledBack h rows hrunner hrun, fun hend => by cases hend⟩
  · have hleaves := @upToAudit_leaves _ ports event moved s
    have hran := @run_audited _ ports event s moved (by rw [hrunner, rows]; exact h)
    obtain ⟨_, _, progress, _, _, hrows, hcaptured⟩ := upToAudit_ok hrun
    have hprogress : t.process.runner.progress = some progress := by rw [hcaptured]
    have hlogged := settles.drained result moved s t hprologue hrun
    rw [hrun] at hleaves
    generalize s.ran ports event moved = ran at *
    have found : ∀ entry ∈ t.process.runner.audited,
        entry ∈ t.process.runner.log ∨ entry ∈ worker.db.auditLog := by
      intro entry hentry
      rw [hleaves.audited] at hentry
      rw [hleaves.log, ← rows]
      exact hran entry hentry
    obtain ⟨hlog, haudited, _⟩ := @closing_leaves _ ports moved t
    rcases hclosing : closing ports moved t with ⟨raised | _, u⟩
    · have hempty : t.process.runner.log = [] := by
        by_contra hne
        obtain ⟨v, hv⟩ := hlogged hne
        rw [hclosing] at hv
        cases hv
      rw [hclosing] at haudited
      rw [deliver_closing_error hprologue hrun hclosing]
      refine ⟨fun entry hentry => .inr ?_, fun hend => by cases hend⟩
      change entry ∈ u.process.runner.audited at hentry
      rw [haudited] at hentry
      exact (found entry hentry).resolve_left (by rw [hempty]; simp)
    · have hstored := closing_rows hprogress hclosing
      rw [hrows, rows] at hstored
      rw [hclosing] at haudited
      rw [deliver_closing_ok hprologue hrun hclosing]
      have all : ∀ entry ∈ u.process.runner.audited, entry ∈ u.db.auditLog := by
        intro entry hentry
        rw [haudited] at hentry
        rw [hstored]
        exact List.mem_append.mpr (found entry hentry).symm
      exact ⟨fun entry hentry => .inr (all entry hentry), fun _ => all⟩

theorem deliver_custody (h : Kept worker) (settles : FlushSettles ports event worker) :
    AuditCustody (deliver ports event worker) := by
  rcases hprologue : prologue ports event worker.session with ⟨raised | ⟨result, moved⟩, s⟩
  · have hrunner := prologue_runner hprologue
    rw [deliver_of_prologue_error hprologue]
    exact ⟨kept_of_same h (by rw [hrunner]) (by rw [hrunner]) rfl, fun hend => by cases hend⟩
  · cases moved with
    | none => exact idle_custody h settles hprologue
    | some moved => exact started_custody h settles hprologue

/-- `drain` takes the entries out of the log before their rows are committed, and a rollback does
not put them back. As long as no handling fails between the two, none is lost. -/
theorem audit_custody_of_settled {start : Handling World}
    {path : List ((DomainEvent × World) × Handling World)}
    (fresh : start.worker.process.runner.audited = [])
    (run : Path (HandlingStep ports) start path)
    (settled : Meets (fun last message =>
      FlushSettles ports message.1 (last.worker.inWorld message.2)) start path) :
    ∀ handling ∈ visited start path, AuditCustody handling := by
  refine invariant_of_meets (fun last message next custody settles hstep => ?_) run ?_ settled
  · rw [HandlingStep] at hstep
    subst hstep
    exact deliver_custody (kept_of_same custody.kept rfl rfl rfl) settles
  · constructor
    · intro entry hentry
      rw [fresh] at hentry
      cases hentry
    · intro _ entry hentry
      rw [fresh] at hentry
      cases hentry

theorem flushSettles_of_committed (h : (deliver ports event worker).ended.isCommitted = true)
    (empty : worker.process.runner.log = []) : FlushSettles ports event worker := by
  refine ⟨fun result moved s t hprologue hrun _ => ?_, fun _ _ _ _ _ => empty⟩
  rcases hclosing : closing ports moved t with ⟨raised | _, u⟩
  · rw [deliver_closing_error hprologue hrun hclosing] at h
    cases h
  · exact ⟨u, rfl⟩

/-- A worker that was just started, with three incidents to investigate. -/
def latencyWorker : Handling Script :=
  ⟨.rolledBack (.other "not started"), openWorker
    [openIncident 10 latencyFingerprint, openIncident 11 latencyFingerprint,
      openIncident 12 dependencyFingerprint] ⟨0, 0, [], [], []⟩⟩

/-- One signal, one answer that cites its row, and a database that executes everything. -/
def latencyMessage : DomainEvent × Script :=
  (openedEvent 10, ⟨0, 100, [], [slowSignal], [citing 101]⟩)

def latencyHandling : Handling Script := handle scripted latencyWorker latencyMessage

theorem latencyHandling_committed : (deliver scripted latencyMessage.1
    (latencyWorker.worker.inWorld latencyMessage.2)).ended.isCommitted = true := by
  decide +kernel

/-- The tool raises, so the run is escalated and leaves one audit entry, whose row the database
does not take. -/
def lossMessage : DomainEvent × Script :=
  (openedEvent 10, ⟨0, 100, [true, true, true, true, false], [], []⟩)

def lossHandling : Handling Script := handle scripted latencyWorker lossMessage

theorem audit_custody_of_committed :
    Path (HandlingStep scripted) latencyWorker [(latencyMessage, latencyHandling)] ∧
    ∀ handling ∈ visited latencyWorker [(latencyMessage, latencyHandling)],
      AuditCustody handling := by
  have run : Path (HandlingStep scripted) latencyWorker [(latencyMessage, latencyHandling)] :=
    Path.next rfl Path.stop
  exact ⟨run, audit_custody_of_settled rfl run
    ⟨flushSettles_of_committed latencyHandling_committed rfl, trivial⟩⟩

theorem flush_fault_loses_entry : ∃ path,
    Path (HandlingStep scripted) latencyWorker path ∧
      ¬∀ handling ∈ visited latencyWorker path, AuditCustody handling := by
  refine ⟨[(lossMessage, lossHandling)], Path.next rfl Path.stop, fun h => ?_⟩
  have custody := (h lossHandling (by simp)).kept
  have lost : lossHandling.worker.process.runner.audited.length = 1 ∧
      lossHandling.worker.process.runner.log.length = 0 ∧
      lossHandling.worker.db.auditLog.length = 0 := by decide +kernel
  obtain ⟨hrecorded, hlog, hrows⟩ := lost
  obtain ⟨entry, hentry⟩ := List.length_eq_one_iff.mp hrecorded
  have found := custody entry (by rw [hentry]; simp)
  rw [List.length_eq_zero_iff.mp hlog, List.length_eq_zero_iff.mp hrows] at found
  simp at found

end Aegis
