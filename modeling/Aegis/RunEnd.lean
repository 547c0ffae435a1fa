import Aegis.Routes
import Aegis.Grounding
import Aegis.Runner

namespace Aegis

open Raising Proc

/-- How a run of the graph ended. -/
inductive Ending where
  | escalated (reason : EscalateReason)
  | pendingReview
  deriving DecidableEq

/-- The progress row tells how the run ended. -/
def Ending.ToldBy (progress : InvestigationProgress) : Ending → Prop
  | .escalated reason => progress.status = .escalated ∧ progress.escalateReason = reason.value
  | .pendingReview => progress.status = .pendingReview

/-- The tests of the commander that hand the investigation over to a human. -/
def HandsOver {World : Type} (host : Host World) (c : Channels) (now : Instant) : Prop :=
  maxHops < c.hops + 1 ∨ exceededDuration host c.startedAt now = true ∨
    (enoughEvidence c.scenario c.evidence = false ∧
      (failureBlocks (firstSpecialist c.scenario) c.failedSteps (evidenceKinds c.evidence) = true ∨
        firstSpecialist c.scenario = .escalate))

section Decision

variable {World : Type} {host : Host World} {scenario : String} {hops : Int}
  {evidence : List EvidenceItem} {startedAt : String} {now : Instant} {failedSteps : List String}

theorem fanoutOrRemaining_goesOn (kinds : List Specialist) :
    (fanoutOrRemaining kinds).nextAgent ≠ .escalate ∧
      (fanoutOrRemaining kinds).escalateReason = none := by
  unfold fanoutOrRemaining
  split_ifs <;> simp

/-- The commander names a reason exactly when it escalates. -/
theorem nextAction_reason :
    (nextAction host scenario hops evidence startedAt now failedSteps).nextAgent = .escalate ↔
      (nextAction host scenario hops evidence startedAt now failedSteps).escalateReason.isSome := by
  have hrest := fanoutOrRemaining_goesOn (evidenceKinds evidence)
  unfold nextAction
  split_ifs with hhops hduration henough hfailed hescalate hfanout hcollected
  all_goals try simp
  · simp [hrest.1, hrest.2]
  · exact hescalate

theorem handsOver_iff (c : Channels) (now : Instant) : HandsOver host c now ↔
    (nextAction host c.scenario (c.hops + 1) c.evidence c.startedAt now
      c.failedSteps).nextAgent = .escalate := by
  have hrest := fanoutOrRemaining_goesOn (evidenceKinds c.evidence)
  unfold HandsOver nextAction
  split_ifs with hhops hduration henough hfailed hescalate hfanout hcollected
  all_goals simp_all

end Decision

section Visits

variable {World : Type} (ports : SpecialistPorts World)

/-- What the commander decides on a visit. -/
def visitDecision (visit : Channels × Desk World) : PlanDecision :=
  nextAction ports.toHost visit.1.scenario (visit.1.hops + 1) visit.1.evidence visit.1.startedAt
    (ports.now visit.2.gateway.world).1 visit.1.failedSteps

/-- The channels and the desk after a visit of the commander. -/
def afterVisit (visit : Channels × Desk World) : Channels × Desk World :=
  ({ visit.1 with
      hops := visit.1.hops + 1
      nextAgent := some (visitDecision ports visit).nextAgent
      escalateReason := (visitDecision ports visit).escalateReason.elim "" EscalateReason.value },
    { visit.2 with gateway :=
      { visit.2.gateway with world := (ports.now visit.2.gateway.world).2 } })

/-- What the last visit of the commander in a run reads. -/
def lastVisit : Nat → Channels → Desk World → Option (Channels × Desk World)
  | 0, _, _ => none
  | visits + 1, c, desk =>
    match hop ports c desk with
    | .settled _ _ => some (c, desk)
    | .goesOn next _ _ later => lastVisit visits next later

/-- The last visit of the commander in the run for a request. -/
def Process.lastVisit (process : Process World) (request : StartRequest) :
    Option (Channels × Desk World) :=
  match intake ports (mergeInput (process.runner.thread request.incidentId).1 request)
      process.desk with
  | (.error _, _) => none
  | (.ok (started, _), later) => Aegis.lastVisit ports commanderVisits started later

/-- The pack that `_synthesize` makes after a visit. -/
def visitPack (visit : Channels × Desk World) : List EvidencePackItem :=
  packOf ports (afterVisit ports visit).1 visit.2.recorded

/-- The generation of `_synthesize` after a visit. -/
def visitGeneration (visit : Channels × Desk World) : Except Raised RcaGeneration :=
  (generateRca ports.toRcaHost visit.1.incidentId visit.1.service visit.1.scenario
    (visitPack ports visit) (afterVisit ports visit).2.gateway.world).1

/-- How a run ends after the last visit of the commander: by its own decision, or by what
`_synthesize` makes of the pack. -/
inductive EndsWith (visit : Channels × Desk World) : Ending → Prop
  | handedOver {reason : EscalateReason} :
    (visitDecision ports visit).escalateReason = some reason → EndsWith visit (.escalated reason)
  | emptyPack : (visitDecision ports visit).nextAgent = .synthesize →
    visitPack ports visit = [] → EndsWith visit (.escalated .agentFailure)
  | synthesizeEscalated {generation : RcaGeneration} {reason : EscalateReason} :
    (visitDecision ports visit).nextAgent = .synthesize → visitPack ports visit ≠ [] →
    visitGeneration ports visit = .ok generation → generation.outcome = "escalated" →
    generation.escalateReason = some reason → EndsWith visit (.escalated reason)
  | pendingReview {generation : RcaGeneration} {report : RcaReport} :
    (visitDecision ports visit).nextAgent = .synthesize → visitPack ports visit ≠ [] →
    visitGeneration ports visit = .ok generation → generation.outcome = "pending_review" →
    generation.report = some report → EndsWith visit .pendingReview

end Visits

section Ends

variable {World : Type} {ports : SpecialistPorts World} {visit : Channels × Desk World}

/-- The channels that a run leaves tell how it ended. -/
def Ending.In (c : Channels) : Ending → Prop
  | .escalated reason => c.status = "escalated" ∧ c.escalateReason = reason.value
  | .pendingReview => c.status = "pending_review"

theorem commander_visit (ports : SpecialistPorts World) (visit : Channels × Desk World) :
    ∃ lines, commander ports visit.1 visit.2 =
      (.ok ((afterVisit ports visit).1, lines), (afterVisit ports visit).2) := ⟨_, rfl⟩

theorem visitDecision_reason : (visitDecision ports visit).nextAgent = .escalate ↔
    (visitDecision ports visit).escalateReason.isSome := nextAction_reason

theorem Classified.outcome {packIds : List Uuid} {answer : Option RcaOutputSchema}
    {generation : RcaGeneration} (h : Classified packIds answer generation) :
    (generation.outcome = "escalated" ∧ ∃ reason, generation.escalateReason = some reason) ∨
      (generation.outcome = "pending_review" ∧ generation.escalateReason = none ∧
        ∃ report, generation.report = some report) := by
  cases answer with
  | none =>
    obtain ⟨houtcome, hreason, _⟩ := h.failed rfl
    exact .inl ⟨houtcome, _, hreason⟩
  | some parsed =>
    rcases lt_or_ge parsed.confidence confidenceThreshold with hlow | hsure
    · obtain ⟨houtcome, hreason, _⟩ := h.unsure parsed rfl hlow
      exact .inl ⟨houtcome, _, hreason⟩
    · obtain ⟨houtcome, hreason, hreport⟩ := h.pending.mpr ⟨parsed, rfl, hsure⟩
      exact .inr ⟨houtcome, hreason, Option.isSome_iff_exists.mp hreport⟩

theorem generateRca_outcome {host : RcaHost World} {incidentId : Uuid} {service scenario : String}
    {pack : List EvidencePackItem} {world later : World} {generation : RcaGeneration}
    (hpack : pack ≠ [])
    (h : generateRca host incidentId service scenario pack world = (.ok generation, later)) :
    (generation.outcome = "escalated" ∧ ∃ reason, generation.escalateReason = some reason) ∨
      (generation.outcome = "pending_review" ∧ generation.escalateReason = none ∧
        ∃ report, generation.report = some report) := by
  obtain ⟨prompt, _, _, hattempts⟩ :=
    generateRca_attempts host incidentId service scenario hpack
  rw [hattempts] at h
  rcases generateAttempts_both host incidentId prompt "RCA generation failed." world with
    ⟨_, made, after, hmade, hclassified⟩ | ⟨_, text, after, hraised⟩
  · cases hmade.symm.trans h
    exact hclassified.outcome
  · cases hraised.symm.trans h

/-- What `_synthesize` leaves in the channels is how the run ends. -/
theorem synthesize_ends {next : Channels} {lines : List String} {later : Desk World}
    (hchosen : (visitDecision ports visit).nextAgent = .synthesize)
    (h : synthesize ports (afterVisit ports visit).1 (afterVisit ports visit).2 =
      (.ok (next, lines), later)) :
    (visitPack ports visit = [] → next.rca = visit.1.rca) ∧
      ∃ ending, EndsWith ports visit ending ∧ ending.In next := by
  have hreason : (afterVisit ports visit).1.escalateReason = "" := by
    have hnone : ¬(visitDecision ports visit).escalateReason.isSome := by
      rw [← visitDecision_reason, hchosen]
      simp
    change (visitDecision ports visit).escalateReason.elim "" EscalateReason.value = ""
    rw [Option.not_isSome_iff_eq_none.mp hnone]
    rfl
  unfold synthesize at h
  change (if (visitPack ports visit).isEmpty = true then _ else
    synthesizePack ports _ (visitPack ports visit) _) = _ at h
  split at h
  next hempty =>
    cases h
    exact ⟨fun _ => rfl, _, .emptyPack hchosen (List.isEmpty_iff.mp hempty), rfl, rfl⟩
  next hpack =>
    have hpack := mt List.isEmpty_iff.mpr hpack
    obtain ⟨_, given, hgiven, h⟩ := bind_eq_ok.mp h
    obtain ⟨generation, _, hgenerate, h⟩ := bind_eq_ok.mp h
    obtain ⟨world, hinner, rfl⟩ := within_eq_ok.mp hgenerate
    cases hgiven
    cases h
    have hmade : visitGeneration ports visit = .ok generation := congrArg Prod.fst hinner
    refine ⟨fun hempty => absurd hempty hpack, ?_⟩
    rcases generateRca_outcome hpack hinner with
      ⟨houtcome, reason, hsome⟩ | ⟨houtcome, _, report, hreport⟩
    · refine ⟨_, .synthesizeEscalated hchosen hpack hmade houtcome hsome, houtcome, ?_⟩
      change orElse (generation.escalateReason.elim "" EscalateReason.value) _ = reason.value
      rw [hsome]
      cases reason <;> rfl
    · exact ⟨_, .pendingReview hchosen hpack hmade houtcome hreport, houtcome⟩

/-- A run that settles at a visit without an exception ends there. -/
theorem hop_ends {run : GraphRun} {later : Desk World}
    (h : hop ports visit.1 visit.2 = .settled run later) (hraised : run.raised = none) :
    run.checkpoint.hops = visit.1.hops + 1 ∧ ∃ ending, EndsWith ports visit ending ∧
      (((visitDecision ports visit).nextAgent = .escalate ∧
          run.checkpoint = (afterVisit ports visit).1) ∨
        ((visitDecision ports visit).nextAgent = .synthesize ∧ ending.In run.checkpoint ∧
          (visitPack ports visit = [] → run.checkpoint.rca = visit.1.rca))) := by
  obtain ⟨lines, hcommander⟩ := commander_visit ports visit
  unfold hop at h
  rw [hcommander] at h
  dsimp only at h
  rcases hnode : runNode ports (afterVisit ports visit).1
      (routeAfterCommander (afterVisit ports visit).1) (afterVisit ports visit).2 with
    ⟨raised | ⟨next, nodeLines⟩, after⟩
  · rw [hnode] at h
    cases h
    cases hraised
  rw [hnode] at h
  dsimp only at h
  obtain ⟨_, hhops, _⟩ := runNode_ok hnode
  have hroute : routeAfterCommander (afterVisit ports visit).1 =
    (visitDecision ports visit).nextAgent := rfl
  rw [hroute] at h hnode
  split at h
  next hescalate =>
    cases h
    obtain ⟨reason, hreason⟩ := Option.isSome_iff_exists.mp (visitDecision_reason.mp hescalate)
    exact ⟨rfl, _, .handedOver hreason, .inl ⟨hescalate, rfl⟩⟩
  next hsynthesize =>
    cases h
    rw [hsynthesize] at hnode
    obtain ⟨hrca, ending, hends, hin⟩ := synthesize_ends hsynthesize hnode
    exact ⟨hhops, ending, hends, .inr ⟨hsynthesize, hin, hrca⟩⟩
  · cases h

theorem status_runNode {c : Channels} {action : NextAction} (hlast : ¬action.isLast) :
    Returns (runNode ports c action) fun out => out.1.status = c.status := by
  have one : ∀ collector : Channels → Proc (Desk World) Raised SpecialistUpdate,
      Returns (collectOne c collector) fun out => out.1.status = c.status := by
    intro collector
    refine returns_bind fun update => ?_
    intro s out t h
    cases h
    rfl
  cases action with
  | observability => exact one _
  | knowledge => exact one _
  | code => exact one _
  | fanout =>
    refine returns_bind fun swaps => returns_bind fun both => ?_
    intro s out t h
    cases h
    rfl
  | synthesize => exact absurd (.inl rfl) hlast
  | escalate => exact absurd (.inr rfl) hlast

theorem status_hop {c next : Channels} {desk later : Desk World}
    {reads : List (Channels × List Evidence)} {lines : List String}
    (h : hop ports c desk = .goesOn next reads lines later) : next.status = c.status := by
  obtain ⟨_, hcommander⟩ := commander_visit ports (c, desk)
  unfold hop at h
  rw [hcommander] at h
  dsimp only at h
  rcases hnode : runNode ports (afterVisit ports (c, desk)).1
      (routeAfterCommander (afterVisit ports (c, desk)).1) (afterVisit ports (c, desk)).2 with
    ⟨raised | ⟨next, nodeLines⟩, after⟩
  · rw [hnode] at h
    cases h
  rw [hnode] at h
  dsimp only at h
  split at h
  · cases h
  · cases h
  next hescalate hsynthesize =>
    cases h
    exact status_runNode (fun hlast => hlast.elim hsynthesize hescalate) _ _ _ hnode

theorem runHops_last {visits : Nat} {c : Channels} {desk : Desk World}
    (h : lastVisit ports visits c desk = some visit) :
    ∃ run, hop ports visit.1 visit.2 = .settled run (runHops ports visits c desk).2 ∧
      (runHops ports visits c desk).1.raised = run.raised ∧
      (runHops ports visits c desk).1.checkpoint = run.checkpoint ∧
      c.hops ≤ visit.1.hops ∧ visit.1.status = c.status ∧ visit.1.rca = c.rca := by
  induction visits generalizing c desk with
  | zero => cases h
  | succ visits ih =>
    unfold lastVisit at h
    unfold runHops
    cases hhop : hop ports c desk with
    | settled run later =>
      rw [hhop] at h
      cases h
      exact ⟨run, hhop, rfl, rfl, le_refl _, rfl, rfl⟩
    | goesOn next reads lines later =>
      rw [hhop] at h
      obtain ⟨_, _, hrca, hhops, _⟩ := hop_goesOn hhop
      obtain ⟨run, hsettled, hraised, hcheckpoint, hmore, hstatus, hkept⟩ := ih h
      exact ⟨run, hsettled, hraised, hcheckpoint, by omega, hstatus.trans (status_hop hhop),
        hkept.trans hrca⟩

theorem lastVisit_of_returned {visits : Nat} {c : Channels} {desk : Desk World}
    (hraised : (runHops ports visits c desk).1.raised = none) :
    ∃ visit, lastVisit ports visits c desk = some visit := by
  induction visits generalizing c desk with
  | zero => cases hraised
  | succ visits ih =>
    unfold runHops at hraised
    unfold lastVisit
    cases hhop : hop ports c desk with
    | settled run later => exact ⟨_, rfl⟩
    | goesOn next reads lines later =>
      rw [hhop] at hraised
      exact ih hraised

end Ends

section Start

variable {World : Type} {ports : SpecialistPorts World} {process : Process World}
  {request : StartRequest}

theorem intake_status (c : Channels) :
    Returns (intake ports c) fun out => out.1.status = "running" := by
  refine returns_bind fun now => ?_
  intro s out t h
  cases h
  rfl

/-- A run is settled at its last visit, which still has the status of the intake. -/
theorem investigate_last {visit : Channels × Desk World}
    (h : process.lastVisit ports request = some visit) :
    ∃ run, hop ports visit.1 visit.2 = .settled run (process.investigate ports request).2 ∧
      (process.investigate ports request).1.raised = run.raised ∧
      (process.investigate ports request).1.checkpoint = run.checkpoint ∧
      0 ≤ visit.1.hops ∧ visit.1.status = "running" ∧
      visit.1.rca = (process.runner.thread request.incidentId).1.rca := by
  unfold Process.lastVisit at h
  unfold Process.investigate runGraph
  rcases hintake : intake ports (mergeInput (process.runner.thread request.incidentId).1 request)
      process.desk with ⟨raised | ⟨started, lines⟩, later⟩
  · rw [hintake] at h
    cases h
  · rw [hintake] at h
    obtain ⟨_, hhops, hrca⟩ := intake_channels _ _ _ hintake
    have hstatus := intake_status _ _ _ _ hintake
    obtain ⟨run, hsettled, hraised, hcheckpoint, hmore, hsame, hkept⟩ := runHops_last h
    refine ⟨run, hsettled, hraised, hcheckpoint, ?_, hsame.trans hstatus, hkept.trans hrca⟩
    calc 0 = started.hops := hhops.symm
      _ ≤ visit.1.hops := hmore

theorem lastVisit_of_investigate (hraised : (process.investigate ports request).1.raised = none) :
    ∃ visit, process.lastVisit ports request = some visit := by
  unfold Process.investigate runGraph at hraised
  unfold Process.lastVisit
  rcases hintake : intake ports (mergeInput (process.runner.thread request.incidentId).1 request)
      process.desk with ⟨raised | ⟨started, lines⟩, later⟩
  · rw [hintake] at hraised
    cases hraised
  · rw [hintake] at hraised
    exact lastVisit_of_returned hraised

theorem yields_progressFromGraphResult {incidentId : Uuid} {result : Channels}
    {log : List String} (hhops : 0 ≤ result.hops) :
    Yields (progressFromGraphResult ports incidentId result log)
      (ProgressOf incidentId result) := by
  have yields : Yields (progressFromGraphResult ports incidentId result log) fun _ => True := by
    refine yields_bind (yields_draw _) fun now _ => yields_bind
      (@yields_mapEach _ _ _ (fun _ => True) _ _
        (fun step => yields_bind (yields_draw _) fun id _ => yields_pure trivial) _)
      fun steps _ => yields_bind (yields_draw _) fun updatedAt _ => ?_
    unfold InvestigationProgress.new
    rw [dif_neg (not_lt.mpr hhops)]
    exact yields_pure trivial
  intro world
  obtain ⟨progress, later, h, _⟩ := yields world
  exact ⟨progress, later, h, progressFromGraphResult_progress _ _ _ h⟩

theorem invokeInvestigation_returns {ran : GraphRun × Desk World}
    (h : process.investigate ports request = ran) (hraised : ran.1.raised = none) :
    invokeInvestigation ports request process =
      (.ok (ran.1.checkpoint, (process.runner.thread request.incidentId).2 ++ ran.1.log),
        process.afterRun request ran) := by
  unfold invokeInvestigation
  rw [h]
  dsimp only
  rw [hraised]

theorem captureProgress_of_ok {incidentId : Uuid} {result : Channels} {log : List String}
    {progress : InvestigationProgress} {world : World}
    (h : progressFromGraphResult ports incidentId result log process.world =
      (.ok progress, world)) :
    captureProgress ports incidentId result log process =
      (.ok (), { process with runner := { process.runner with progress := some progress }, world }) := by
  unfold captureProgress
  rw [bind_of_ok (within_eq_ok.mpr ⟨world, h, rfl⟩)]
  rfl

/-- A start whose run returns does so too, with the progress row of the last channels. -/
theorem start_returns (hraised : (process.investigate ports request).1.raised = none) :
    ∃ later progress, Runner.start ports request process = (.ok (), later) ∧
      later.runner.progress = some progress ∧
      ProgressOf request.incidentId (process.investigate ports request).1.checkpoint progress := by
  obtain ⟨visit, hlast⟩ := lastVisit_of_investigate hraised
  obtain ⟨run, hsettled, hsame, hcheckpoint, hhops, _⟩ := investigate_last hlast
  have hresult : 0 ≤ (process.investigate ports request).1.checkpoint.hops := by
    rw [hcheckpoint, (hop_ends hsettled (hsame.symm.trans hraised)).1]
    omega
  unfold Runner.start
  generalize hran : process.investigate ports request = ran at hraised hresult ⊢
  rw [bind_of_ok (invokeInvestigation_returns hran hraised)]
  obtain ⟨progress, world, hprogress, hof⟩ := @yields_progressFromGraphResult _ ports
    request.incidentId ran.1.checkpoint ((process.runner.thread request.incidentId).2 ++ ran.1.log)
    hresult (process.afterRun request ran).world
  refine ⟨(process.afterRun request ran).captured ran.1.checkpoint progress world, progress, ?_,
    rfl, hof⟩
  generalize process.afterRun request ran = after at *
  change (update _ >>= fun _ => captureProgress ports request.incidentId ran.1.checkpoint _) after = _
  exact (bind_of_ok rfl).trans (@captureProgress_of_ok _ _
    { after with runner := after.runner.captureRca ran.1.checkpoint } _ _ _ _ _ hprogress)

theorem not_toldBy_running {ending : Ending} {progress : InvestigationProgress}
    (h : progress.status = .running) : ¬ending.ToldBy progress := by
  intro told
  cases ending with
  | escalated reason =>
    rw [told.1] at h
    cases h
  | pendingReview =>
    change progress.status = _ at told
    rw [told] at h
    cases h

theorem toldBy_of_in {ending : Ending} {c : Channels} {incidentId : Uuid}
    {progress : InvestigationProgress} (hin : ending.In c)
    (h : ProgressOf incidentId c progress) : ending.ToldBy progress := by
  have hstatus := h.status
  have hreason := h.escalateReason
  cases ending with
  | escalated reason =>
    rw [hin.1] at hstatus
    rw [hin.2] at hreason
    refine ⟨hstatus, hreason.trans ?_⟩
    cases reason <;> decide
  | pendingReview =>
    change c.status = _ at hin
    rw [hin] at hstatus
    exact hstatus

/-- `interrupt` holds back the update of `escalate`, so the row of a run that the commander ends
still says that it is running; every other ending is told. -/
theorem start_tells_ending (hraised : (process.investigate ports request).1.raised = none) :
    ∃ later visit ending progress, Runner.start ports request process = (.ok (), later) ∧
      process.lastVisit ports request = some visit ∧ EndsWith ports visit ending ∧
      later.runner.progress = some progress ∧
      (ending.ToldBy progress ↔
        ¬HandsOver ports.toHost visit.1 (ports.now visit.2.gateway.world).1) := by
  obtain ⟨later, progress, hstart, hprogress, hof⟩ := start_returns hraised
  obtain ⟨visit, hlast⟩ := lastVisit_of_investigate hraised
  obtain ⟨run, hsettled, hsame, hcheckpoint, _, hstatus, _⟩ := investigate_last hlast
  obtain ⟨_, ending, hends, hcases⟩ := hop_ends hsettled (hsame.symm.trans hraised)
  refine ⟨later, visit, ending, progress, hstart, hlast, hends, hprogress, ?_⟩
  rw [handsOver_iff]
  change ending.ToldBy progress ↔ ¬(visitDecision ports visit).nextAgent = .escalate
  rw [hcheckpoint] at hof
  rcases hcases with ⟨hescalate, hrouted⟩ | ⟨hsynthesize, hin, _⟩
  · refine iff_of_false (not_toldBy_running ?_) (not_not.mpr hescalate)
    have hrow := hof.status
    rw [hrouted] at hrow
    change progress.status = (parseRunStatus (orElse visit.1.status "running")).getD _ at hrow
    rw [hstatus] at hrow
    exact hrow
  · exact iff_of_true (toldBy_of_in hin hof) (by simp [hsynthesize])

end Start

/-- A process whose thread of the incident holds a note from outside. -/
def notedProcess : Process Unit where
  runner := { Runner.new with
    threads := Function.update Runner.new.threads 10 (some (preparedChannels, [])) }
  cache := ⟨none, none⟩
  world := ()

theorem noted_run_told : ∃ later visit ending progress,
    Runner.start steadyPorts ⟨10, "payment", "latency_spike", ""⟩ notedProcess = (.ok (), later) ∧
      notedProcess.lastVisit steadyPorts ⟨10, "payment", "latency_spike", ""⟩ = some visit ∧
      EndsWith steadyPorts visit ending ∧ later.runner.progress = some progress ∧
      (ending.ToldBy progress ↔
        ¬HandsOver steadyPorts.toHost visit.1 (steadyPorts.now visit.2.gateway.world).1) :=
  start_tells_ending (by rfl)

def freshProcess : Process Unit := ⟨Runner.new, ⟨none, none⟩, ()⟩

/-- A failed dependency is handed over to a human, and the row of the run says that it is still
running. -/
theorem handed_over_recorded_running : ∃ later visit progress,
    Runner.start steadyPorts ⟨10, "payment", "dependency_failure", ""⟩ freshProcess =
      (.ok (), later) ∧
    freshProcess.lastVisit steadyPorts ⟨10, "payment", "dependency_failure", ""⟩ = some visit ∧
    EndsWith steadyPorts visit (.escalated .dependencyFailure) ∧
    later.runner.progress = some progress ∧ progress.status = .running ∧
    ¬(Ending.escalated .dependencyFailure).ToldBy progress := by
  have hraised : (freshProcess.investigate steadyPorts
      ⟨10, "payment", "dependency_failure", ""⟩).1.raised = none := by rfl
  obtain ⟨later, progress, hstart, hprogress, hof⟩ := start_returns hraised
  have hrunning : progress.status = .running := hof.status
  exact ⟨later, _, progress, hstart, rfl, .handedOver rfl, hprogress, hrunning,
    not_toldBy_running hrunning⟩

end Aegis
