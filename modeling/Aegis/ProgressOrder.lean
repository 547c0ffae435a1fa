import Aegis.IncidentRows
import Aegis.PauseControl
import Aegis.ProgressSteps
import Aegis.TimeOrder

namespace Aegis

open Raising StepPath TimeOrder

/-- `InvestigationStepStatus(value)` -/
def stepStatus : String → Except Raised InvestigationStepStatus :=
  member "InvestigationStepStatus" InvestigationStepStatus.value [.completed, .pending, .failed]

/-- `InvestigationRunStatus(value)` -/
def runStatus : String → Except Raised InvestigationRunStatus :=
  member "InvestigationRunStatus" InvestigationRunStatus.value
    [.notStarted, .running, .paused, .pendingReview, .escalated]

/-- A row of `investigation_steps`. -/
structure InvestigationStepModel where
  id : Uuid
  incidentId : Uuid
  name : String
  status : String
  detail : String
  occurredAt : Instant

/-- A row of `investigation_progress`. -/
structure InvestigationProgressModel where
  incidentId : Uuid
  hops : Int
  status : String
  escalateReason : String
  paused : Bool
  updatedAt : Instant

structure ProgressTables where
  progress : List InvestigationProgressModel
  steps : List InvestigationStepModel

/-- `_step_to_orm` -/
def InvestigationStep.toOrm (step : InvestigationStep) : InvestigationStepModel :=
  ⟨step.id, step.incidentId, step.name, step.status.value, step.detail, step.occurredAt⟩

/-- `_step_to_domain` -/
def InvestigationStepModel.toDomain (row : InvestigationStepModel) :
    Except Raised InvestigationStep := do
  let status ← stepStatus row.status
  InvestigationStep.new row.id row.incidentId row.name status row.detail row.occurredAt

/-- `_progress_to_orm` -/
def InvestigationProgress.toOrm (progress : InvestigationProgress) : InvestigationProgressModel where
  incidentId := progress.incidentId
  hops := progress.hops
  status := progress.status.value
  escalateReason := progress.escalateReason
  paused := progress.paused
  updatedAt := progress.updatedAt

/-- `get_by_incident` of a row whose steps have been read in an order. -/
def InvestigationProgressModel.toDomain (row : InvestigationProgressModel)
    (rows : List InvestigationStepModel) : Except Raised InvestigationProgress := do
  let steps ← rows.mapM InvestigationStepModel.toDomain
  let status ← runStatus row.status
  InvestigationProgress.new row.incidentId row.hops status row.escalateReason row.paused steps
    row.updatedAt

/-- The row of the incident, which is set or added. -/
def ProgressTables.put (tables : ProgressTables) (progress : InvestigationProgress) :
    List InvestigationProgressModel :=
  if tables.progress.any fun row => row.incidentId = progress.incidentId then
    tables.progress.map fun row =>
      if row.incidentId = progress.incidentId then
        { row with
          hops := progress.hops
          status := progress.status.value
          escalateReason := progress.escalateReason
          paused := progress.paused
          updatedAt := progress.updatedAt }
      else row
  else tables.progress ++ [progress.toOrm]

/-- `save`: the step rows of the incident are deleted and written anew. -/
def ProgressTables.save (tables : ProgressTables) (progress : InvestigationProgress) :
    ProgressTables where
  progress := tables.put progress
  steps := (tables.steps.filter fun row => row.incidentId ≠ progress.incidentId) ++
    progress.steps.map InvestigationStep.toOrm

/-- `get_by_incident`: the steps are ordered by time, and of one time they come in any order. -/
def Loads (incidentId : Uuid) (tables : ProgressTables) (loaded : InvestigationProgress) : Prop :=
  ∃ row rows, tables.progress.find? (fun row => row.incidentId = incidentId) = some row ∧
    Ordered InvestigationStepModel.occurredAt
      (tables.steps.filter fun row => row.incidentId = incidentId) rows ∧
    row.toDomain rows = .ok loaded

/-- What is done to the progress of an incident. -/
inductive ProgressCall where
  | save
  | pause
  | resume
  | reject

/-- What the calls do to the tables. A call that is refused, that has nothing to change or whose
transaction fails leaves them as they are. -/
inductive ProgressStep (incidentId : Uuid) : ProgressTables → ProgressCall → ProgressTables → Prop
  | save {tables loaded} : Loads incidentId tables loaded →
      ProgressStep incidentId tables .save (tables.save loaded)
  | pause {tables loaded now} : Loads incidentId tables loaded → loaded.paused = false →
      ProgressStep incidentId tables .pause (tables.save (loaded.withPause true now))
  | resume {tables loaded now} : Loads incidentId tables loaded → loaded.paused = true →
      ProgressStep incidentId tables .resume (tables.save (loaded.withPause false now))
  | reject {tables loaded now} : Loads incidentId tables loaded →
      ProgressStep incidentId tables .reject (tables.save (loaded.withRejection now))
  | unchanged {tables call} : ProgressStep incidentId tables call tables

/-- Whatever the order of rows of one time, the steps are read as they were computed. -/
structure ReadsSteps (incidentId : Uuid) (steps : List InvestigationStep) (tables : ProgressTables) :
    Prop where
  readable : ∃ loaded, Loads incidentId tables loaded
  same : ∀ loaded, Loads incidentId tables loaded → loaded.steps = steps

/-- The tables hold the steps of the incident, in some order. -/
structure HoldsSteps (incidentId : Uuid) (steps : List InvestigationStep) (tables : ProgressTables) :
    Prop where
  row : ∃ row, tables.progress.find? (fun row => row.incidentId = incidentId) = some row ∧
    0 ≤ row.hops ∧ ∃ status, runStatus row.status = .ok status
  rows : (tables.steps.filter fun row => row.incidentId = incidentId).Perm
    (steps.map InvestigationStep.toOrm)

/-- A step that its row gives back. -/
structure PlainStep (incidentId : Uuid) (step : InvestigationStep) : Prop where
  incident : step.incidentId = incidentId
  name : strip step.name = step.name
  named : step.name ≠ ""
  detail : strip step.detail = step.detail

section Rows

variable {incidentId : Uuid} {steps order : List InvestigationStep} {step : InvestigationStep}
  {tables next : ProgressTables} {progress loaded : InvestigationProgress} {call : ProgressCall}
  {row : InvestigationProgressModel}

theorem stepStatus_value (status : InvestigationStepStatus) :
    stepStatus status.value = .ok status := by
  cases status <;> rfl

theorem runStatus_value (status : InvestigationRunStatus) : runStatus status.value = .ok status := by
  cases status <;> rfl

theorem step_round_trip (h : PlainStep incidentId step) : step.toOrm.toDomain = .ok step := by
  unfold InvestigationStepModel.toDomain InvestigationStep.toOrm
  dsimp only
  rw [stepStatus_value]
  dsimp only [bind, Except.bind]
  rw [InvestigationStep.new, if_neg (by rw [h.name]; exact h.named), h.name, h.detail]

theorem steps_round_trip (h : ∀ step ∈ steps, PlainStep incidentId step) :
    (steps.map InvestigationStep.toOrm).mapM InvestigationStepModel.toDomain = .ok steps := by
  induction steps with
  | nil => rfl
  | cons step steps ih =>
    obtain ⟨hstep, hothers⟩ := List.forall_mem_cons.mp h
    rw [List.map_cons, List.mapM_cons, step_round_trip hstep, ih hothers]
    rfl

/-- The row of a saved progress is found, with its columns. -/
theorem find_put (tables : ProgressTables) (progress : InvestigationProgress) :
    (tables.put progress).find? (fun row => row.incidentId = progress.incidentId) =
      some progress.toOrm := by
  unfold ProgressTables.put
  split
  next hany =>
    have hsome : ∃ row, tables.progress.find?
        (fun row => row.incidentId = progress.incidentId) = some row := by
      refine Option.isSome_iff_exists.mp (List.find?_isSome.mpr ?_)
      exact List.any_eq_true.mp hany
    obtain ⟨row, hrow⟩ := hsome
    have hid : row.incidentId = progress.incidentId := by simpa using List.find?_some hrow
    rw [List.find?_map]
    have same : ((fun row : InvestigationProgressModel =>
        decide (row.incidentId = progress.incidentId)) ∘ fun row =>
          if row.incidentId = progress.incidentId then
            { row with
              hops := progress.hops
              status := progress.status.value
              escalateReason := progress.escalateReason
              paused := progress.paused
              updatedAt := progress.updatedAt }
          else row) = fun row => decide (row.incidentId = progress.incidentId) := by
      funext row
      rw [Function.comp_apply]
      split <;> rfl
    rw [same, hrow, Option.map_some, if_pos hid, hid]
    rfl
  next hnone =>
    have fresh : tables.progress.find? (fun row => row.incidentId = progress.incidentId) = none := by
      refine List.find?_eq_none.mpr fun row hrow hid => hnone ?_
      exact List.any_eq_true.mpr ⟨row, hrow, hid⟩
    rw [List.find?_append, fresh, Option.none_or]
    exact List.find?_cons_of_pos (decide_eq_true rfl)

theorem toDomain_steps (h : ∀ step ∈ order, PlainStep incidentId step) :
    row.toDomain (order.map InvestigationStep.toOrm) = (runStatus row.status).bind fun status =>
      InvestigationProgress.new row.incidentId row.hops status row.escalateReason row.paused order
        row.updatedAt := by
  unfold InvestigationProgressModel.toDomain
  rw [steps_round_trip h]
  rfl

theorem holds_save (owner : progress.incidentId = incidentId)
    (plain : ∀ step ∈ steps, PlainStep incidentId step) (perm : progress.steps.Perm steps) :
    HoldsSteps incidentId steps (tables.save progress) := by
  refine ⟨⟨progress.toOrm, ?_, progress.hops_nonneg, progress.status, runStatus_value _⟩, ?_⟩
  · rw [← owner]
    exact find_put tables progress
  · have others : ((tables.steps.filter fun row => row.incidentId ≠ progress.incidentId).filter
        fun row => row.incidentId = incidentId) = [] := by
      rw [List.filter_filter, owner]
      exact List.filter_eq_nil_iff.mpr fun row _ => by simp
    have own : (progress.steps.map InvestigationStep.toOrm).filter
        (fun row => row.incidentId = incidentId) = progress.steps.map InvestigationStep.toOrm := by
      refine List.filter_eq_self.mpr fun row hrow => ?_
      obtain ⟨step, hstep, rfl⟩ := List.mem_map.mp hrow
      exact decide_eq_true (plain step (perm.mem_iff.mp hstep)).incident
    change (List.filter _ (_ ++ _)).Perm _
    rw [List.filter_append, others, own, List.nil_append]
    exact perm.map _

/-- What is loaded are the held steps, in an order of their times. -/
theorem HoldsSteps.reading (h : HoldsSteps incidentId steps tables)
    (plain : ∀ step ∈ steps, PlainStep incidentId step) (load : Loads incidentId tables loaded) :
    loaded.incidentId = incidentId ∧
      Ordered InvestigationStep.occurredAt steps loaded.steps := by
  obtain ⟨row, rows, hrow, hrows, hread⟩ := load
  obtain ⟨order, horder, rfl⟩ := (ordered_map fun _ => rfl).mp (hrows.of_perm h.rows)
  have hplain : ∀ step ∈ order, PlainStep incidentId step :=
    fun step hstep => plain step (horder.perm.mem_iff.mp hstep)
  rw [toDomain_steps hplain] at hread
  obtain ⟨status, _, hread⟩ := bind_ok hread
  obtain ⟨hid, rfl⟩ := progress_new_ok hread
  refine ⟨?_, horder⟩
  rw [hid]
  simpa using List.find?_some hrow

/-- Every order of the times can be loaded. -/
theorem HoldsSteps.load (h : HoldsSteps incidentId steps tables)
    (plain : ∀ step ∈ steps, PlainStep incidentId step)
    (horder : Ordered InvestigationStep.occurredAt steps order) :
    ∃ loaded, Loads incidentId tables loaded ∧ loaded.steps = order := by
  obtain ⟨row, hrow, hops, status, hstatus⟩ := h.row
  have hplain : ∀ step ∈ order, PlainStep incidentId step :=
    fun step hstep => plain step (horder.perm.mem_iff.mp hstep)
  have hrows : Ordered InvestigationStepModel.occurredAt
      (tables.steps.filter fun row => row.incidentId = incidentId)
      (order.map InvestigationStep.toOrm) :=
    ((ordered_map (f := InvestigationStep.toOrm) fun _ => rfl).mpr
      ⟨order, horder, rfl⟩).of_perm h.rows.symm
  have hread : ∃ loaded, row.toDomain (order.map InvestigationStep.toOrm) = .ok loaded ∧
      loaded.steps = order := by
    rw [toDomain_steps hplain, hstatus]
    change ∃ loaded, InvestigationProgress.new _ _ _ _ _ _ _ = .ok loaded ∧ _
    rw [InvestigationProgress.new, dif_neg (not_lt.mpr hops)]
    exact ⟨_, rfl, rfl⟩
  obtain ⟨loaded, hread, hsteps⟩ := hread
  exact ⟨loaded, ⟨row, _, hrow, hrows, hread⟩, hsteps⟩

theorem progressStep_holds (plain : ∀ step ∈ steps, PlainStep incidentId step)
    (h : HoldsSteps incidentId steps tables) (hstep : ProgressStep incidentId tables call next) :
    HoldsSteps incidentId steps next := by
  cases hstep with
  | save load =>
    obtain ⟨owner, hloaded⟩ := h.reading plain load
    exact holds_save owner plain hloaded.perm
  | pause load _ =>
    obtain ⟨owner, hloaded⟩ := h.reading plain load
    exact holds_save owner plain hloaded.perm
  | resume load _ =>
    obtain ⟨owner, hloaded⟩ := h.reading plain load
    exact holds_save owner plain hloaded.perm
  | reject load =>
    obtain ⟨owner, hloaded⟩ := h.reading plain load
    exact holds_save owner plain hloaded.perm
  | unchanged => exact h

theorem HoldsSteps.reads_iff (h : HoldsSteps incidentId steps tables)
    (plain : ∀ step ∈ steps, PlainStep incidentId step) (nodup : steps.Nodup) :
    ReadsSteps incidentId steps tables ↔
      steps.Pairwise fun a b => a.occurredAt < b.occurredAt := by
  rw [← ordered_back_iff nodup]
  constructor
  · intro reads order horder
    obtain ⟨loaded, hload, rfl⟩ := h.load plain horder
    exact reads.same loaded hload
  · intro back
    obtain ⟨order, horder⟩ := ordered_exists InvestigationStep.occurredAt steps
    obtain ⟨loaded, hload, _⟩ := h.load plain horder
    exact ⟨⟨loaded, hload⟩, fun other hother => back _ (h.reading plain hother).2⟩

end Rows

section Runs

variable {incidentId : Uuid} {failedSteps log failed named : List String}
  {steps : List InvestigationStep} {progress : InvestigationProgress}

/-- The log and the failures of a run name one of the known steps at most. -/
def OneStepAtMost (lower : String → String) (failedSteps log : List String) : Prop :=
  ∀ a ∈ namedSteps lower failedSteps log, ∀ b ∈ namedSteps lower failedSteps log,
    a ∈ knownSteps → b ∈ knownSteps → a = b

theorem graphSteps_plain (h : GraphSteps incidentId failed named steps) :
    ∀ step ∈ steps, PlainStep incidentId step := by
  obtain ⟨now, recorded⟩ := h.recorded
  intro step hstep
  have hrecorded := recorded step hstep
  obtain ⟨plain, ne⟩ := knownSteps_plain step.name hrecorded.known
  exact ⟨hrecorded.incident, plain, ne, hrecorded.detail⟩

theorem graphSteps_nodup (h : GraphSteps incidentId failed named steps) : steps.Nodup := by
  refine h.order.imp fun {a b} hlt => ?_
  rintro rfl
  exact lt_irrefl _ hlt

/-- Steps of one time rise when there is one at most. -/
theorem graphSteps_rising_iff (h : GraphSteps incidentId failed named steps) :
    (steps.Pairwise fun a b => a.occurredAt < b.occurredAt) ↔
      ∀ a ∈ named, ∀ b ∈ named, a ∈ knownSteps → b ∈ knownSteps → a = b := by
  obtain ⟨now, recorded⟩ := h.recorded
  constructor
  · intro rising a ha b hb knownA knownB
    obtain ⟨first, hfirst, rfl⟩ := (h.names a).mpr ⟨knownA, ha⟩
    obtain ⟨second, hsecond, rfl⟩ := (h.names b).mpr ⟨knownB, hb⟩
    have same : first.occurredAt = second.occurredAt := by
      rw [(recorded first hfirst).time, (recorded second hsecond).time]
    rw [eq_of_time_eq rising hfirst hsecond same]
  · intro alone
    refine h.order.imp_of_mem fun {a b} ha hb hlt => ?_
    obtain ⟨knownA, namedA⟩ := (h.names a.name).mp ⟨a, ha, rfl⟩
    obtain ⟨knownB, namedB⟩ := (h.names b.name).mp ⟨b, hb, rfl⟩
    rw [alone _ namedA _ namedB knownA knownB] at hlt
    exact absurd hlt (lt_irrefl _)

theorem reached_holds (graph : GraphSteps incidentId failed named steps)
    (owner : progress.incidentId = incidentId) (hsteps : progress.steps = steps)
    {tables reached : ProgressTables} {path : List (ProgressCall × ProgressTables)}
    (run : Path (ProgressStep incidentId) (tables.save progress) path)
    (hreached : reached ∈ visited (tables.save progress) path) :
    HoldsSteps incidentId steps reached := by
  have plain := graphSteps_plain graph
  have saved : HoldsSteps incidentId steps (tables.save progress) :=
    holds_save owner plain (by rw [hsteps])
  exact invariant (fun _ _ _ h hstep => progressStep_holds plain h hstep) run saved reached hreached

variable {World : Type} {host : Host World} {world later : World} {hops : Int}
  {status : InvestigationRunStatus} {reason : String} {paused : Bool} {updatedAt : Instant}

/-- Each step is read once and unchanged, in whatever order. -/
theorem steps_kept (ran : stepsFromGraphResult host incidentId failedSteps log world =
      (.ok steps, later))
    (created : InvestigationProgress.new incidentId hops status reason paused steps updatedAt =
      .ok progress) {tables reached : ProgressTables} {path : List (ProgressCall × ProgressTables)}
    (run : Path (ProgressStep incidentId) (tables.save progress) path)
    (hreached : reached ∈ visited (tables.save progress) path) {loaded : InvestigationProgress}
    (load : Loads incidentId reached loaded) : loaded.steps.Perm steps := by
  obtain ⟨_, _, hran, graph⟩ := stepsFromGraphResult_yields host incidentId failedSteps log world
  cases hran.symm.trans ran
  obtain ⟨owner, hsteps⟩ := progress_new_ok created
  have holds := reached_holds graph owner hsteps run hreached
  exact (holds.reading (graphSteps_plain graph) load).2.perm

/-- The steps of a graph run, saved and reloaded through any calls, are read in their order whatever
the order of rows of one time exactly when the run names one of the known steps at most: all of
them get the time of the run. -/
theorem steps_keep_order_iff
    (ran : stepsFromGraphResult host incidentId failedSteps log world = (.ok steps, later))
    (created : InvestigationProgress.new incidentId hops status reason paused steps updatedAt =
      .ok progress) :
    (∀ (tables : ProgressTables) path, Path (ProgressStep incidentId) (tables.save progress) path →
      ∀ reached ∈ visited (tables.save progress) path, ReadsSteps incidentId steps reached) ↔
    OneStepAtMost host.lower failedSteps log := by
  obtain ⟨_, _, hran, graph⟩ := stepsFromGraphResult_yields host incidentId failedSteps log world
  cases hran.symm.trans ran
  obtain ⟨owner, hsteps⟩ := progress_new_ok created
  have plain := graphSteps_plain graph
  have nodup := graphSteps_nodup graph
  refine Iff.trans ?_ (graphSteps_rising_iff graph)
  constructor
  · intro reads
    have hstart : (⟨[], []⟩ : ProgressTables).save progress ∈
        visited ((⟨[], []⟩ : ProgressTables).save progress) ([] : List (ProgressCall × _)) := by
      rw [visited_nil]
      exact List.mem_singleton_self _
    have holds := reached_holds graph owner hsteps Path.stop hstart
    exact (holds.reads_iff plain nodup).mp (reads ⟨[], []⟩ [] Path.stop _ hstart)
  · intro rising tables path run reached hreached
    exact ((reached_holds graph owner hsteps run hreached).reads_iff plain nodup).mpr rising

/-- The reading on which the requests are modelled is one of those a store may give, whatever its
order of the steps. -/
theorem progressOf_loads {db : Db} {tables : ProgressTables} {order : StepOrder}
    {stored : InvestigationProgress} (owner : progress.incidentId = incidentId)
    (plain : ∀ step ∈ progress.steps, PlainStep incidentId step)
    (h : progressOf order incidentId (saveProgressRow progress db) = some stored) :
    ∃ loaded, Loads incidentId (tables.save progress) loaded ∧ loaded.steps = stored.steps := by
  obtain ⟨row, hrow, rfl⟩ := Option.map_eq_some_iff.mp h
  cases (storedProgress_saveProgressRow owner).symm.trans hrow
  have holds : HoldsSteps incidentId progress.steps (tables.save progress) :=
    holds_save owner plain (List.Perm.refl _)
  exact holds.load plain (order.ordered progress.steps)

/-- So is it for the progress that a runner records of a graph result. -/
theorem recorded_progress_loads {World : Type} {ports : SpecialistPorts World} {result : Channels}
    {world later : World} {db : Db} {tables : ProgressTables} {order : StepOrder}
    {stored : InvestigationProgress} (lowers : LowersKnown ports.lower)
    (recorded : progressFromGraphResult ports incidentId result log world = (.ok progress, later))
    (h : progressOf order incidentId (saveProgressRow progress db) = some stored) :
    ∃ loaded, Loads incidentId (tables.save progress) loaded ∧ loaded.steps = stored.steps :=
  progressOf_loads (progressFromGraphResult_progress _ _ _ recorded).incident
    (graphSteps_plain (progressFromGraphResult_steps lowers _ _ _ recorded)) h

/-- A host that counts its ids and whose clock stands still. -/
def countingHost : Host Nat where
  services := ⟨fun _ => Digest.genesis, fun text => ⟨text, 0⟩⟩
  lower := id
  fromIsoformat _ := none
  now world := (10, world)
  uuid4 world := (world, world + 1)

def intakeStep : InvestigationStep := ⟨0, 7, "intake", .completed, "intake ok", 10⟩

def commanderStep : InvestigationStep := ⟨1, 7, "commander", .completed, "commander hop=1", 10⟩

def runningWith (steps : List InvestigationStep) : InvestigationProgress where
  incidentId := 7
  hops := 1
  status := .running
  escalateReason := ""
  paused := false
  steps
  updatedAt := 20
  hops_nonneg := by decide

theorem running_created (steps : List InvestigationStep) :
    InvestigationProgress.new 7 1 .running "" false steps 20 = .ok (runningWith steps) := by
  rfl

theorem intake_ran :
    stepsFromGraphResult countingHost 7 [] ["intake ok"] 0 = (.ok [intakeStep], 1) := by
  rfl

theorem steps_keep_order_iff_single :
    stepsFromGraphResult countingHost 7 [] ["intake ok"] 0 = (.ok [intakeStep], 1) ∧
    (∀ (tables : ProgressTables) path,
      Path (ProgressStep 7) (tables.save (runningWith [intakeStep])) path →
      ∀ reached ∈ visited (tables.save (runningWith [intakeStep])) path,
        ReadsSteps 7 [intakeStep] reached) := by
  refine ⟨intake_ran, (steps_keep_order_iff intake_ran (running_created _)).mpr ?_⟩
  unfold OneStepAtMost
  decide

/-- Two steps of one run: the store may give them back the other way round. -/
theorem commander_before_intake :
    stepsFromGraphResult countingHost 7 [] ["intake ok", "commander hop=1"] 0 =
      (.ok [intakeStep, commanderStep], 2) ∧
    ∃ loaded, Loads 7 ((⟨[], []⟩ : ProgressTables).save (runningWith [intakeStep, commanderStep]))
      loaded ∧ loaded.steps = [commanderStep, intakeStep] ∧
      ¬ReadsSteps 7 [intakeStep, commanderStep]
        ((⟨[], []⟩ : ProgressTables).save (runningWith [intakeStep, commanderStep])) := by
  have load : Loads 7
      ((⟨[], []⟩ : ProgressTables).save (runningWith [intakeStep, commanderStep]))
      { runningWith [commanderStep, intakeStep] with escalateReason := strip "" } :=
    ⟨_, [commanderStep.toOrm, intakeStep.toOrm], rfl, ⟨List.Perm.swap _ _ _, by decide⟩, rfl⟩
  refine ⟨rfl, _, load, rfl, fun reads => ?_⟩
  have hsame := congrArg (List.map InvestigationStep.name) (reads.same _ load)
  revert hsame
  decide

end Runs

end Aegis
