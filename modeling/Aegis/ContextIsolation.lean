import Aegis.AuditCustody

namespace Aegis

open Raising Proc StepPath

/-- Two sessions that differ in their runners at most. -/
structure SameOutside {World : Type} (s t : Session World) : Prop where
  db : s.db = t.db
  cache : s.process.cache = t.process.cache
  world : s.process.world = t.process.world
  broken : s.broken = t.broken

section Respects

variable {World : Type} {ports : WorkerPorts World}

theorem respects_statement : Respects SameOutside (statement ports) := by
  intro s t h
  unfold statement
  rw [h.broken, h.world]
  split
  · exact ⟨rfl, h⟩
  · exact ⟨rfl, h.db, h.cache, rfl, h.broken⟩

theorem respects_sessionDraw {Value : Type} (f : World → Value × World) :
    Respects SameOutside (sessionDraw f) :=
  respects_within (fun _ _ h => h.world) fun _ _ _ h => ⟨h.db, h.cache, rfl, h.broken⟩

theorem respects_readDb {Value : Type} (f : Db → Value) :
    Respects SameOutside (read fun s => f s.db : Proc (Session World) Raised Value) :=
  respects_read fun _ _ h => congrArg f h.db

theorem respects_withDb (f : Db → Db) :
    Respects SameOutside (update fun s => s.withDb (f s.db) : Proc (Session World) Raised Unit) :=
  respects_update fun _ _ h => ⟨congrArg f h.db, h.cache, h.world, h.broken⟩

theorem respects_write (conflict : Db → Bool) (change : Db → Db) :
    Respects SameOutside (write ports conflict change) := by
  refine respects_bind respects_statement fun _ => respects_bind (respects_readDb id) fun db => ?_
  split
  · exact respects_raise _
  · exact respects_withDb change

theorem respects_recordOnce (event : DomainEvent) (incidentId : Uuid) :
    Respects SameOutside (recordOnce ports event incidentId) := by
  refine respects_bind respects_statement fun _ => respects_bind (respects_readDb id) fun db => ?_
  split
  · exact respects_pure _
  · exact respects_bind (respects_withDb fun db => { db with inbox := db.inbox ++
      [⟨incidentId, event.eventType, event.schemaVersion, event.eventId, event.correlationId⟩] })
      fun _ => respects_pure _

theorem respects_moveFound (incidentId : Uuid) (incident : Incident) :
    Respects SameOutside (moveFound ports incidentId incident) := by
  refine respects_bind (respects_sessionDraw _) fun moment =>
    respects_bind (respects_fromExcept _) fun (moved, started) => ?_
  cases started with
  | false => exact respects_pure _
  | true => exact respects_bind (respects_write _ _) fun _ => respects_pure _

theorem respects_moveClaimed (incidentId : Uuid) :
    Respects SameOutside (moveClaimed ports incidentId) := by
  refine respects_bind (respects_bind respects_statement fun _ =>
    respects_read fun _ _ h => by rw [h.db]) fun found => ?_
  cases found with
  | none => exact respects_raise _
  | some incident => exact respects_moveFound _ _

theorem respects_refreshPolicyCache :
    Respects SameOutside (refreshPolicyCache ports) :=
  respects_bind respects_statement fun _ => respects_update fun _ _ h =>
    ⟨h.db, congrArg (fun db : Db => replacePolicyRules ports.services.digest db.policyRules) h.db,
      h.world, h.broken⟩

/-- Up to the run of the graph a handling does not depend on the runner. -/
theorem respects_prologue (event : DomainEvent) :
    Respects SameOutside (prologue ports event) := by
  refine respects_bind respects_refreshPolicyCache fun _ => ?_
  unfold claimAndMove
  split
  · split
    · exact respects_raise _
    · refine respects_bind (respects_recordOnce event _) fun claimed => ?_
      cases claimed with
      | false => exact respects_pure _
      | true => exact respects_moveClaimed _
  · exact respects_raise _

end Respects

variable {World : Type} {ports : WorkerPorts World} {event : DomainEvent}
  {worker : Worker World} {s t : Session World}

/-- The same worker just after its process was started. -/
def Worker.renewed (worker : Worker World) : Worker World :=
  { worker with process := worker.process.renewed }

def Handling.renewed (handling : Handling World) : Handling World :=
  { handling with worker := handling.worker.renewed }

/-- When the event starts an investigation, nothing of an earlier run is left for it. -/
def CleanStart (ports : WorkerPorts World) (event : DomainEvent) (worker : Worker World) : Prop :=
  ∀ row, Opens ports event worker.db row → Untouched worker.process.runner row.id

/-- The packs of a handling are those of its run of the graph, however it ends. -/
theorem deliver_packs {result : ConsumeOpenedResult} {moved : Incident}
    (h : prologue ports event worker.session = (.ok (result, some moved), s)) :
    (deliver ports event worker).worker.process.runner.packs =
      (s.run ports event moved).2.packs := by
  have hpacks : (s.ran ports event moved).runner.packs = (s.run ports event moved).2.packs := by
    rw [← ran_eq, afterRun_packs, prologue_runner h, List.nil_append]
  have hleaves := @upToAudit_leaves _ ports event moved s
  rw [← hpacks]
  rcases hrun : upToAudit ports event moved s with ⟨raised | _, t⟩
  · rw [deliver_run_error h hrun]
    rw [hrun] at hleaves
    exact hleaves.packs
  · rw [hrun] at hleaves
    obtain ⟨_, _, hclosed⟩ := @closing_leaves _ ports moved t
    rcases hclosing : closing ports moved t with ⟨raised | _, u⟩
    · rw [deliver_closing_error h hrun hclosing]
      rw [hclosing] at hclosed
      exact hclosed.trans hleaves.packs
    · rw [deliver_closing_ok h hrun hclosing]
      rw [hclosing] at hclosed
      exact hclosed.trans hleaves.packs

theorem opens_of_prologue {result : ConsumeOpenedResult} {moved : Incident}
    (h : prologue ports event worker.session = (.ok (result, some moved), s)) :
    ∃ row, Opens ports event worker.db row ∧ moved.id = row.id := by
  obtain ⟨_, row, moment, inbox, hopens, hmove, _⟩ := prologue_ok h
  obtain ⟨_, rfl⟩ := transitionTo_ok hmove
  exact ⟨row, hopens, rfl⟩

theorem deliver_isolated (clean : CleanStart ports event worker) :
    (deliver ports event worker).worker.process.runner.packs =
      (deliver ports event worker.renewed).worker.process.runner.packs := by
  have hsame : SameOutside worker.session worker.renewed.session := ⟨rfl, rfl, rfl, rfl⟩
  obtain ⟨hresult, hlater⟩ := respects_prologue event _ _ hsame
  rcases hprologue : prologue ports event worker.session with ⟨out, s⟩
  rcases hrenewed : prologue ports event worker.renewed.session with ⟨out', s'⟩
  rw [hprologue, hrenewed] at hresult hlater
  obtain rfl : out = out' := hresult
  have hrunner := prologue_runner hprologue
  have hrunner' := prologue_runner hrenewed
  by_cases hstarted : ∃ result moved, out = .ok (result, some moved)
  · obtain ⟨result, moved, rfl⟩ := hstarted
    obtain ⟨row, hopens, hid⟩ := opens_of_prologue hprologue
    have huntouched : Untouched s.process.runner moved.id := by
      have h := clean row hopens
      rw [hid, hrunner]
      exact ⟨⟨h.recorded, h.evidence, h.failedSteps, h.escalateReason, h.title, h.rca⟩, h.startedAt⟩
    have hfresh : BehavesFresh ports.toSpecialistPorts s.process (startRequest ports event moved) :=
      behavesFresh_of_leftNothing (leftNothing_of_untouched huntouched)
    have hprocess : s.process.renewed = s'.process := by
      have hfields : s'.process = ⟨s'.process.runner, s'.process.cache, s'.process.world⟩ := rfl
      rw [hfields, hrunner', ← hlater.cache, ← hlater.world]
      rfl
    rw [deliver_packs hprologue, deliver_packs hrenewed]
    have hdesk := hfresh.desk.packs
    rw [hprocess] at hdesk
    exact hdesk
  · have hnone : ∀ result moved (t : Session World), (out, s) ≠ (.ok (result, some moved), t) := by
      intro result moved t heq
      exact hstarted ⟨result, moved, (Prod.mk.inj heq).1⟩
    have hnone' : ∀ result moved (t : Session World), (out, s') ≠ (.ok (result, some moved), t) := by
      intro result moved t heq
      exact hstarted ⟨result, moved, (Prod.mk.inj heq).1⟩
    obtain ⟨_, hidle⟩ := deliver_not_started (by rw [hprologue]; exact hnone)
    obtain ⟨_, hidle'⟩ := deliver_not_started (by rw [hrenewed]; exact hnone')
    rw [hidle, hidle']

/-- A handling that starts an investigation commits. -/
def FinishesRuns (ports : WorkerPorts World) (event : DomainEvent) (worker : Worker World) : Prop :=
  ∀ result moved s, prologue ports event worker.session = (.ok (result, some moved), s) →
    (deliver ports event worker).ended.isCommitted = true

/-- The buffers are empty, and only incidents that are no longer open have a thread. -/
structure Tidy (worker : Worker World) : Prop where
  recorded : worker.process.runner.recorded = []
  log : worker.process.runner.log = []
  rcaReports : worker.process.runner.rcaReports = []
  progress : worker.process.runner.progress = none
  threads : ∀ row ∈ worker.db.incidents, row.state = .open →
    worker.process.runner.threads row.id = none

theorem Tidy.inWorld (h : Tidy worker) (world : World) : Tidy (worker.inWorld world) :=
  ⟨h.recorded, h.log, h.rcaReports, h.progress, h.threads⟩

theorem cleanStart_of_tidy (h : Tidy worker) : CleanStart ports event worker := by
  intro row hopens
  have hmem := List.mem_of_find?_eq_some hopens.found
  exact untouched_of_no_thread h.recorded (h.threads row hmem hopens.isOpen)

theorem tidy_deliver (h : Tidy worker) (finishes : FinishesRuns ports event worker) :
    Tidy (deliver ports event worker).worker := by
  by_cases hstarted : ∃ result moved s,
      prologue ports event worker.session = (.ok (result, some moved), s)
  · obtain ⟨result, moved, s, hprologue⟩ := hstarted
    have hend := finishes result moved s hprologue
    have hrunner := prologue_runner hprologue
    obtain ⟨_, row, moment, inbox, _, hmove, hsaved⟩ := prologue_ok hprologue
    obtain ⟨_, hmoved⟩ := transitionTo_ok hmove
    obtain ⟨t, hrun, _, hdb, hleft⟩ := deliver_started_committed hprologue hend
    obtain ⟨_, _, rows, progress, notes, _, _, _, hstored, hdrained⟩ := investigateIncident_ok hrun
    rw [hdrained] at hleft
    have hthreads : (s.ran ports event moved).runner.threads =
        Function.update s.process.runner.threads moved.id
          (some ((s.run ports event moved).1.checkpoint,
            (s.process.runner.thread moved.id).2 ++ (s.run ports event moved).1.log)) := rfl
    generalize s.ran ports event moved = ran at *
    generalize s.run ports event moved = run at *
    refine ⟨by rw [hleft], by rw [hleft], by rw [hleft], by rw [hleft], fun other hother hopen => ?_⟩
    have hincidents : (deliver ports event worker).worker.db.incidents =
        worker.db.incidents.map fun row =>
          if row.id = moved.id then applyToOrm moved row else row := by
      rw [hdb, hstored]
      change s.db.incidents = _
      rw [hsaved]
      rfl
    rw [hincidents] at hother
    obtain ⟨before, hbefore, hafter⟩ := List.mem_map.mp hother
    by_cases hid : before.id = moved.id
    · rw [if_pos hid] at hafter
      subst hafter
      change moved.state = .open at hopen
      rw [hmoved] at hopen
      cases hopen
    · rw [if_neg hid] at hafter
      subst hafter
      rw [hleft]
      change ran.runner.threads before.id = none
      rw [hthreads, Function.update_of_ne hid, hrunner]
      exact h.threads before hbefore hopen
  · obtain ⟨⟨inbox, hdb⟩, hrunner⟩ := @deliver_not_started _ ports event worker
      fun result moved s heq => hstarted ⟨result, moved, s, heq⟩
    constructor
    · rw [hrunner]
      exact h.recorded
    · rw [hrunner]
      exact h.log
    · rw [hrunner]
      exact h.rcaReports
    · rw [hrunner]
      exact h.progress
    · rw [hdb, hrunner]
      exact h.threads

variable {start next : Handling World} {message : DomainEvent × World}
  {path before after : List ((DomainEvent × World) × Handling World)}

/-- Along a run from a tidy worker in which every started investigation commits, the worker stays
tidy. -/
theorem tidy_of_finished (tidy : Tidy start.worker) (run : Path (HandlingStep ports) start path)
    (finished : Meets (fun last message =>
      FinishesRuns ports message.1 (last.worker.inWorld message.2)) start path) :
    ∀ handling ∈ visited start path, Tidy handling.worker := by
  refine invariant_of_meets (fun last message next htidy finishes hstep => ?_) run tidy finished
  rw [HandlingStep] at hstep
  subst hstep
  exact tidy_deliver (htidy.inWorld message.2) finishes

/-- The bucket and the threads of a worker outlive an aborted handling. Where nothing of them is
left for an incident, its pack is the one of a new process. -/
theorem packs_isolated_of_clean (run : Path (HandlingStep ports) start path)
    (clean : Meets (fun last message =>
      CleanStart ports message.1 (last.worker.inWorld message.2)) start path)
    (split : path = before ++ (message, next) :: after) :
    next.worker.process.runner.packs =
      (handle ports (final start before).renewed message).worker.process.runner.packs := by
  subst split
  have hstep : next = handle ports (final start before) message := step_of_split run
  have hclean : CleanStart ports message.1 ((final start before).worker.inWorld message.2) :=
    meets_of_split clean
  rw [hstep]
  exact deliver_isolated hclean

theorem latencyWorker_tidy : Tidy latencyWorker.worker :=
  ⟨rfl, rfl, rfl, rfl, fun _ _ _ => rfl⟩

theorem latencyHandling_tidy : Tidy latencyHandling.worker := by
  unfold latencyHandling handle
  exact tidy_deliver (latencyWorker_tidy.inWorld latencyMessage.2)
    fun _ _ _ _ => latencyHandling_committed

/-- The event of the other incident. -/
def otherMessage : DomainEvent × Script := (openedEvent 11, ⟨1, 200, [], [slowSignal], []⟩)

def otherHandling : Handling Script := handle scripted latencyHandling otherMessage

theorem latencyHandlings_path : Path (HandlingStep scripted) latencyWorker
    [(latencyMessage, latencyHandling), (otherMessage, otherHandling)] :=
  Path.next (by unfold HandlingStep latencyHandling; rfl)
    (Path.next (by unfold HandlingStep otherHandling; rfl) Path.stop)

theorem packs_isolated_after_commit :
    otherHandling.worker.process.runner.packs =
      (handle scripted latencyHandling.renewed otherMessage).worker.process.runner.packs := by
  have clean : Meets (fun last message =>
      CleanStart scripted message.1 (last.worker.inWorld message.2)) latencyWorker
      [(latencyMessage, latencyHandling), (otherMessage, otherHandling)] :=
    ⟨cleanStart_of_tidy (latencyWorker_tidy.inWorld latencyMessage.2),
      cleanStart_of_tidy (latencyHandling_tidy.inWorld otherMessage.2), trivial⟩
  have split : [(latencyMessage, latencyHandling), (otherMessage, otherHandling)] =
      [(latencyMessage, latencyHandling)] ++ (otherMessage, otherHandling) :: [] := rfl
  have h := packs_isolated_of_clean latencyHandlings_path clean split
  rwa [final_cons, final_nil] at h

/-- The signal is recorded, then the language model refuses the connection. -/
def refusedMessage : DomainEvent × Script := (openedEvent 10, ⟨0, 100, [], [slowSignal], []⟩)

def refusedHandling : Handling Script := handle scripted latencyWorker refusedMessage

theorem refusedHandling_path :
    Path (HandlingStep scripted) latencyWorker [(refusedMessage, refusedHandling)] :=
  Path.next (by unfold HandlingStep refusedHandling; rfl) Path.stop

/-- The row of the aborted incident is the first item of the other incident's pack. -/
theorem pack_of_other_incident :
    (∃ path, Path (HandlingStep scripted) latencyWorker path ∧
      final latencyWorker path = refusedHandling) ∧
    refusedHandling.worker.process.runner.recorded.map Evidence.key = [(101, 10)] ∧
    (handle scripted refusedHandling otherMessage).worker.process.runner.packs.map
      (List.map EvidencePackItem.evidenceId) = [[101, 201]] :=
  ⟨⟨_, refusedHandling_path, by rw [final_cons, final_nil]⟩, by decide +kernel⟩

end Aegis
