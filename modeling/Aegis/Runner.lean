import Aegis.Graph

namespace Aegis

open Raising Proc

inductive InvestigationRunStatus where
  | notStarted
  | running
  | paused
  | pendingReview
  | escalated
  deriving DecidableEq, Repr

def InvestigationRunStatus.value : InvestigationRunStatus → String
  | .notStarted => "not_started"
  | .running => "running"
  | .paused => "paused"
  | .pendingReview => "pending_review"
  | .escalated => "escalated"

def parseRunStatus (value : String) : Option InvestigationRunStatus :=
  [.notStarted, .running, .paused, .pendingReview, .escalated].find? fun s => s.value = value

inductive InvestigationStepStatus where
  | completed
  | pending
  | failed
  deriving DecidableEq, Repr

def InvestigationStepStatus.value : InvestigationStepStatus → String
  | .completed => "completed"
  | .pending => "pending"
  | .failed => "failed"

structure InvestigationStep where
  id : Uuid
  incidentId : Uuid
  name : String
  status : InvestigationStepStatus
  detail : String
  occurredAt : Instant

structure InvestigationProgress where
  incidentId : Uuid
  hops : Int
  status : InvestigationRunStatus
  escalateReason : String
  paused : Bool
  steps : List InvestigationStep
  updatedAt : Instant
  hops_nonneg : 0 ≤ hops

/-- `InvestigationProgress.__init__` -/
def InvestigationProgress.new (incidentId : Uuid) (hops : Int) (status : InvestigationRunStatus)
    (escalateReason : String) (paused : Bool) (steps : List InvestigationStep)
    (updatedAt : Instant) : Except Raised InvestigationProgress :=
  if hops_neg : hops < 0 then .error (.invalid "hops must be >= 0.")
  else .ok {
    incidentId, hops, status, paused, steps, updatedAt
    escalateReason := strip escalateReason
    hops_nonneg := not_lt.mp hops_neg }

def knownSteps : List String :=
  ["intake", "commander", "observability", "knowledge", "code", "synthesize"]

/-- The step a log line is about: its first word. -/
def stepName (lower : String → String) (line : String) : String :=
  lower (strip (String.ofList (line.toList.takeWhile fun c => c ≠ ' ')))

/-- Status and detail of a step, from the last line about it or from its failure alone. -/
def stepData (lower : String → String) (failed : List String) (log : List String)
    (name : String) : Option (InvestigationStepStatus × String) :=
  let failedHere := failed.any fun step => lowersTo (strip step) name
  match (log.filter fun line => stepName lower line = name).getLast? with
  | some line =>
    some (if failedHere then .failed else .completed,
      strip (String.ofList (line.toList.take 200)))
  | none => if failedHere then some (.failed, name ++ " failed") else none

/-- What `LangGraphInvestigationRunner` keeps from one `start` to the next: its buffers, the audit
log of its gateway and the checkpointed threads, each with its log channel. The last two fields
are history that no code reads: every entry the gateway has recorded, and the packs handed to
`generate_rca`. -/
structure Runner where
  recorded : List Evidence
  log : AuditLog
  rcaReports : List RcaReport
  progress : Option InvestigationProgress
  threads : Uuid → Option (Channels × List String)
  audited : AuditLog
  packs : List (List EvidencePackItem)

def Runner.new : Runner := ⟨[], [], [], none, fun _ => none, [], []⟩

/-- A worker process: its runner, the policy cache and the world around it. -/
structure Process (World : Type) where
  runner : Runner
  cache : PolicyCache
  world : World

structure StartRequest where
  incidentId : Uuid
  service : String
  scenario : String
  correlationId : String

/-- The channels of a thread that has not run. -/
def Channels.blank (incidentId : Uuid) : Channels where
  incidentId
  service := ""
  scenario := ""
  hops := 0
  nextAgent := none
  status := ""
  humanDecision := ""
  evidence := []
  failedSteps := []
  summary := ""
  correlationId := ""
  startedAt := ""
  escalateReason := ""
  title := ""
  rca := none

/-- The payload of `invoke_investigation` merged into the channels of its thread: the lists append,
and what the payload leaves out keeps its value. -/
def mergeInput (old : Channels) (request : StartRequest) : Channels :=
  { old.append ⟨[], [], []⟩ with
    incidentId := request.incidentId
    service := request.service
    scenario := request.scenario
    hops := 0
    nextAgent := none
    status := ""
    humanDecision := ""
    correlationId := request.correlationId }

/-- The channels and log that the checkpointer holds for an incident. -/
def Runner.thread (runner : Runner) (incidentId : Uuid) : Channels × List String :=
  (runner.threads incidentId).getD (Channels.blank incidentId, [])

/-- `_capture_rca` -/
def Runner.captureRca (runner : Runner) (result : Channels) : Runner :=
  { runner with rcaReports := runner.rcaReports ++ (result.rca.bind reportFromPayload).toList }

section Start

variable {World : Type} (ports : SpecialistPorts World)

/-- What the graph works on in a process. -/
def Process.desk (process : Process World) : Desk World :=
  ⟨process.runner.recorded, ⟨process.cache, process.runner.log, process.world⟩, []⟩

/-- The run of the graph for a request, with the desk it leaves. -/
def Process.investigate (process : Process World) (request : StartRequest) :
    GraphRun × Desk World :=
  runGraph ports (mergeInput (process.runner.thread request.incidentId).1 request) process.desk

/-- The process after a run of the graph. -/
def Process.afterRun (process : Process World) (request : StartRequest)
    (ran : GraphRun × Desk World) : Process World where
  runner :=
    { process.runner with
      recorded := ran.2.recorded
      log := ran.2.gateway.log
      threads := Function.update process.runner.threads request.incidentId
        (some (ran.1.checkpoint, (process.runner.thread request.incidentId).2 ++ ran.1.log))
      audited := process.runner.audited ++ ran.2.gateway.log.drop process.runner.log.length
      packs := process.runner.packs ++ ran.2.packs }
  cache := process.cache
  world := ran.2.gateway.world

/-- `invoke_investigation` with the runner's checkpointer: the channels and the log that
`graph.invoke` returns. -/
def invokeInvestigation (request : StartRequest) :
    Proc (Process World) Raised (Channels × List String) := fun process =>
  let ran := process.investigate ports request
  (match ran.1.raised with
    | some raised => .error raised
    | none =>
      .ok (ran.1.checkpoint, (process.runner.thread request.incidentId).2 ++ ran.1.log),
    process.afterRun request ran)

def mintStep (incidentId : Uuid) (now : Instant)
    (step : String × InvestigationStepStatus × String) : Proc World Raised InvestigationStep := do
  let id ← mintId ports.toHost
  pure ⟨id, incidentId, step.1, step.2.1, step.2.2, now⟩

/-- `progress_from_graph_result`; the steps come out in the order of `knownSteps`. -/
def progressFromGraphResult (incidentId : Uuid) (result : Channels) (log : List String) :
    Proc World Raised InvestigationProgress := do
  let now ← utcNow ports.toHost
  let steps ← mapEach (mintStep ports incidentId now) (knownSteps.filterMap fun name =>
    (stepData ports.lower result.failedSteps log name).map fun data => (name, data))
  let updatedAt ← utcNow ports.toHost
  fromExcept (InvestigationProgress.new incidentId result.hops
    ((parseRunStatus (orElse result.status "running")).getD .running) result.escalateReason false
    steps updatedAt)

/-- `_capture_progress` -/
def captureProgress (incidentId : Uuid) (result : Channels) (log : List String) :
    Proc (Process World) Raised Unit := do
  let progress ← within Process.world (fun process world => { process with world })
    (progressFromGraphResult ports incidentId result log)
  update fun process =>
    { process with runner := { process.runner with progress := some progress } }

/-- `LangGraphInvestigationRunner.start` -/
def Runner.start (request : StartRequest) : Proc (Process World) Raised Unit := do
  let (result, log) ← invokeInvestigation ports request
  update fun process => { process with runner := process.runner.captureRca result }
  captureProgress ports request.incidentId result log

end Start

variable {World : Type} {ports : SpecialistPorts World} {process : Process World}
  {request : StartRequest}

/-- A run of the graph adds to the bucket and to the audit log, and all it adds to the bucket
belongs to its incident. -/
theorem investigate_extends (ports : SpecialistPorts World) (process : Process World)
    (request : StartRequest) :
    Extends request.incidentId process.desk (process.investigate ports request).2 :=
  (runGraph_facts (mergeInput (process.runner.thread request.incidentId).1 request)
    process.desk).1

/-- The row that `progress_from_graph_result` makes of the channels of a run. -/
structure ProgressOf (incidentId : Uuid) (result : Channels) (progress : InvestigationProgress) :
    Prop where
  incident : progress.incidentId = incidentId
  hops : progress.hops = result.hops
  status : progress.status = (parseRunStatus (orElse result.status "running")).getD .running
  escalateReason : progress.escalateReason = strip result.escalateReason

theorem progressFromGraphResult_progress {incidentId : Uuid} {result : Channels}
    {log : List String} : Returns (progressFromGraphResult ports incidentId result log)
      (ProgressOf incidentId result) := by
  refine returns_bind fun now => returns_bind fun steps => returns_bind fun updatedAt => ?_
  intro s progress t h
  obtain ⟨hnew, _⟩ := fromExcept_eq_ok.mp h
  unfold InvestigationProgress.new at hnew
  split at hnew
  · cases hnew
  · cases hnew
    exact ⟨rfl, rfl, rfl, rfl⟩

theorem invokeInvestigation_ok {out : Channels × List String} {later : Process World}
    (h : invokeInvestigation ports request process = (.ok out, later)) :
    (process.investigate ports request).1.raised = none ∧
      out.1 = (process.investigate ports request).1.checkpoint ∧
      later = process.afterRun request (process.investigate ports request) := by
  unfold invokeInvestigation at h
  generalize process.investigate ports request = ran at *
  dsimp only at h
  split at h
  · simp at h
  next hraised =>
    simp only [Prod.mk.injEq, Except.ok.injEq] at h
    exact ⟨hraised, by rw [← h.1], h.2.symm⟩

@[simp] theorem afterRun_recorded (process : Process World) (request : StartRequest)
    (ran : GraphRun × Desk World) :
    (process.afterRun request ran).runner.recorded = ran.2.recorded := rfl

@[simp] theorem afterRun_log (process : Process World) (request : StartRequest)
    (ran : GraphRun × Desk World) :
    (process.afterRun request ran).runner.log = ran.2.gateway.log := rfl

@[simp] theorem afterRun_rcaReports (process : Process World) (request : StartRequest)
    (ran : GraphRun × Desk World) :
    (process.afterRun request ran).runner.rcaReports = process.runner.rcaReports := rfl

@[simp] theorem afterRun_audited (process : Process World) (request : StartRequest)
    (ran : GraphRun × Desk World) :
    (process.afterRun request ran).runner.audited =
      process.runner.audited ++ ran.2.gateway.log.drop process.runner.log.length := rfl

@[simp] theorem afterRun_packs (process : Process World) (request : StartRequest)
    (ran : GraphRun × Desk World) :
    (process.afterRun request ran).runner.packs = process.runner.packs ++ ran.2.packs := rfl

/-- The state of a process once the RCA and the progress of a run are captured. -/
def Process.captured (ran : Process World) (result : Channels) (progress : InvestigationProgress)
    (world : World) : Process World :=
  { ran with runner := { ran.runner.captureRca result with progress := some progress }, world }

/-- A start that returns has run the graph to its end; the buffers then hold what the run made. -/
theorem start_ok {later : Process World}
    (h : Runner.start ports request process = (.ok (), later)) :
    (process.investigate ports request).1.raised = none ∧ ∃ progress world,
      ProgressOf request.incidentId (process.investigate ports request).1.checkpoint progress ∧
      later = (process.afterRun request (process.investigate ports request)).captured
        (process.investigate ports request).1.checkpoint progress world := by
  obtain ⟨⟨result, log⟩, ran, hinvoke, h⟩ := bind_eq_ok.mp h
  obtain ⟨_, captured, hcapture, h⟩ := bind_eq_ok.mp h
  obtain ⟨progress, drawn, hprogress, h⟩ := bind_eq_ok.mp h
  obtain ⟨world, hmade, rfl⟩ := within_eq_ok.mp hprogress
  obtain ⟨hraised, hresult, rfl⟩ := invokeInvestigation_ok hinvoke
  refine ⟨hraised, progress, world, ?_, ?_⟩
  · rw [← hresult]
    exact progressFromGraphResult_progress _ _ _ hmade
  rw [← hresult]
  generalize process.afterRun request (process.investigate ports request) = ran at *
  cases hcapture
  cases h
  rfl

/-- The parts of a process that capturing a result leaves alone. -/
structure SameHistory (a b : Process World) : Prop where
  log : b.runner.log = a.runner.log
  audited : b.runner.audited = a.runner.audited
  packs : b.runner.packs = a.runner.packs

theorem sameHistory_captureProgress (incidentId : Uuid) (result : Channels) (log : List String) :
    Leaves SameHistory (captureProgress ports incidentId result log) :=
  leaves_bind (fun _ _ _ h h' => ⟨h'.log.trans h.log, h'.audited.trans h.audited,
    h'.packs.trans h.packs⟩) (leaves_within fun _ _ => ⟨rfl, rfl, rfl⟩) fun _ =>
      leaves_update fun _ => ⟨rfl, rfl, rfl⟩

/-- Whether it returns or raises, a start leaves the audit log as the run of the graph left it. -/
theorem start_leaves (ports : SpecialistPorts World) (request : StartRequest)
    (process : Process World) :
    SameHistory (process.afterRun request (process.investigate ports request))
      (Runner.start ports request process).2 := by
  unfold Runner.start
  rw [bind_apply]
  unfold invokeInvestigation
  generalize process.investigate ports request = ran
  dsimp only
  cases ran.1.raised with
  | some raised => exact ⟨rfl, rfl, rfl⟩
  | none =>
    dsimp only
    rw [bind_apply]
    have h := @sameHistory_captureProgress _ ports request.incidentId ran.1.checkpoint
      ((process.runner.thread request.incidentId).2 ++ ran.1.log)
      { process.afterRun request ran with
        runner := (process.afterRun request ran).runner.captureRca ran.1.checkpoint }
    exact ⟨h.log, h.audited, h.packs⟩

end Aegis
