import Aegis.RunEnd
import Aegis.AuditCustody

namespace Aegis

open Raising Proc

variable {World : Type}

/-- A handling whose run gets to `_synthesize` with a pack that is not empty: the session in which
the run starts, the incident it moved and the last visit of the commander. -/
structure Synthesizes (ports : WorkerPorts World) (event : DomainEvent) (worker : Worker World)
    (result : ConsumeOpenedResult) (incident : Incident) (s : Session World)
    (visit : Channels × Desk World) : Prop where
  moved : prologue ports event worker.session = (.ok (result, some incident), s)
  last : s.process.lastVisit ports.toSpecialistPorts (startRequest ports event incident) = some visit
  chosen : (visitDecision ports.toSpecialistPorts visit).nextAgent = .synthesize
  pack : visitPack ports.toSpecialistPorts visit ≠ []

/-- A model that fails escalates: there is a generation, an agent failure when no answer is
accepted, the run leaves its progress in the runner, and a database that takes what is there has it
all after a commit. -/
structure FailureEscalates (ports : WorkerPorts World) (event : DomainEvent) (worker : Worker World)
    (result : ConsumeOpenedResult) (incident : Incident) (s : Session World)
    (visit : Channels × Desk World) (accepted : Option RcaOutputSchema) : Prop where
  generated : ∃ generation, visitGeneration ports.toSpecialistPorts visit = .ok generation ∧
    (accepted = none →
      generation.outcome = "escalated" ∧ generation.escalateReason = some .agentFailure)
  persisted : ∃ t progress, onProcess (Runner.start ports.toSpecialistPorts
      (startRequest ports event incident)) s = (.ok (), t) ∧ t.db = s.db ∧
    t.process.runner.progress = some progress ∧ progress.incidentId = incident.id ∧
    (TakesRun ports t → (deliver ports event worker).ended = .committed result ∧
      PersistsRun t progress (deliver ports event worker).worker.db)

section Run

variable {ports : SpecialistPorts World} {visit : Channels × Desk World}

theorem synthesizePack_apply {c : Channels} {pack : List EvidencePackItem} {desk : Desk World}
    {answer : Except Raised RcaGeneration} {world : World}
    (h : generateRca ports.toRcaHost c.incidentId c.service c.scenario pack desk.gateway.world =
      (answer, world)) :
    ∃ later, synthesizePack ports c pack desk =
      (answer.map fun generation => (c.withGeneration generation, [synthesizeLine generation]),
        later) := by
  refine ⟨{ desk with
    packs := desk.packs ++ [pack], gateway := { desk.gateway with world } }, ?_⟩
  unfold synthesizePack
  refine (bind_of_ok rfl).trans ?_
  cases answer with
  | error raised =>
    refine bind_of_error ?_
    unfold onWorld within
    dsimp only
    rw [h]
  | ok generation =>
    have hgenerate : (onWorld (generateRca ports.toRcaHost c.incidentId c.service c.scenario pack))
        { desk with packs := desk.packs ++ [pack] } = (.ok generation, { desk with
          packs := desk.packs ++ [pack], gateway := { desk.gateway with world } }) :=
      within_eq_ok.mpr ⟨world, h, rfl⟩
    exact (bind_of_ok hgenerate).trans rfl

/-- A run that settles in `_synthesize` raises what `generate_rca` raises. -/
theorem raised_iff_generation {run : GraphRun} {later : Desk World}
    (hchosen : (visitDecision ports visit).nextAgent = .synthesize)
    (hpack : visitPack ports visit ≠ [])
    (h : hop ports visit.1 visit.2 = .settled run later) :
    run.raised = none ↔ ∃ generation, visitGeneration ports visit = .ok generation := by
  have hroute : routeAfterCommander (afterVisit ports visit).1 = .synthesize := hchosen
  have hsynthesize : runNode ports (afterVisit ports visit).1 .synthesize (afterVisit ports visit).2 =
      synthesizePack ports (afterVisit ports visit).1 (visitPack ports visit)
        (afterVisit ports visit).2 := by
    unfold runNode synthesize
    exact if_neg (mt List.isEmpty_iff.mp hpack)
  obtain ⟨lines, hcommander⟩ := commander_visit ports visit
  unfold hop at h
  rw [hcommander] at h
  dsimp only at h
  rw [hroute, hsynthesize] at h
  rcases hgenerate : generateRca ports.toRcaHost visit.1.incidentId visit.1.service
      visit.1.scenario (visitPack ports visit) (afterVisit ports visit).2.gateway.world with
    ⟨answer, world⟩
  have hanswer : visitGeneration ports visit = answer := congrArg Prod.fst hgenerate
  rw [hanswer]
  obtain ⟨after, hnode⟩ := @synthesizePack_apply _ ports (afterVisit ports visit).1
    (visitPack ports visit) (afterVisit ports visit).2 answer world hgenerate
  rw [hnode] at h
  cases answer with
  | error raised =>
    cases h
    exact iff_of_false (fun hnone => by cases hnone) (fun ⟨_, hok⟩ => by cases hok)
  | ok generation =>
    cases h
    exact iff_of_true rfl ⟨generation, rfl⟩

end Run

section Handling

variable {ports : WorkerPorts World} {event : DomainEvent} {worker : Worker World}
  {result : ConsumeOpenedResult} {incident : Incident} {s : Session World}
  {visit : Channels × Desk World}

/-- After a run that returns, a database that takes what the runner holds has it committed. -/
theorem committed_of_start {t : Session World} {progress : InvestigationProgress}
    (hmoved : prologue ports event worker.session = (.ok (result, some incident), s))
    (hstart : onProcess (Runner.start ports.toSpecialistPorts
      (startRequest ports event incident)) s = (.ok (), t))
    (hprogress : t.process.runner.progress = some progress) (takes : TakesRun ports t) :
    (deliver ports event worker).ended = .committed result ∧
      PersistsRun t progress (deliver ports event worker).worker.db := by
  obtain ⟨u, v, w, x, hevidence, haudit, hrca, hsaved, usable, hpersists⟩ :=
    @persistSteps_return _ ports t incident progress takes hprogress
  obtain ⟨y, hcommit, _⟩ := statement_returns takes.executes usable
  have hrun : investigateIncident ports event incident s = (.ok (), x) := by
    unfold investigateIncident persistRest
    rw [bind_of_ok hstart, bind_of_ok hevidence, bind_of_ok haudit, bind_of_ok hrca]
    exact hsaved
  have hepilogue : epilogue ports event (result, some incident) s = (.ok result, y) := by
    unfold epilogue investigateMoved
    rw [bind_of_ok hrun, bind_of_ok hcommit]
    rfl
  have hdb : y.db = x.db := (statement_ok hcommit).db
  rw [← hdb] at hpersists
  rw [deliver_of_prologue_ok hmoved, hepilogue]
  exact ⟨rfl, hpersists⟩

theorem start_of_raised {raised : Raised}
    (h : (s.run ports event incident).1.raised = some raised) :
    ∃ t, onProcess (Runner.start ports.toSpecialistPorts (startRequest ports event incident)) s =
      (.error raised, t) := by
  have hinvoke : invokeInvestigation ports.toSpecialistPorts (startRequest ports event incident)
      s.process = (.error raised, s.ran ports event incident) := by
    unfold invokeInvestigation
    rw [run_eq]
    dsimp only
    rw [ran_eq, h]
  have hstart : Runner.start ports.toSpecialistPorts (startRequest ports event incident) s.process =
      (.error raised, s.ran ports event incident) := bind_of_error hinvoke
  refine ⟨{ s with process := s.ran ports event incident }, ?_⟩
  unfold onProcess within
  rw [hstart]

theorem rolledBack_of_raise (h : Synthesizes ports event worker result incident s visit)
    (hraise : ∀ generation, visitGeneration ports.toSpecialistPorts visit ≠ .ok generation) :
    (deliver ports event worker).ended.isCommitted = false ∧
      (deliver ports event worker).worker.db = worker.db := by
  obtain ⟨run, hsettled, hsame, _⟩ := investigate_last h.last
  have hrun : (s.run ports event incident).1.raised ≠ none := by
    intro hnone
    obtain ⟨generation, hok⟩ :=
      (raised_iff_generation h.chosen h.pack hsettled).mp (hsame.symm.trans hnone)
    exact hraise generation hok
  obtain ⟨raised, hraised⟩ := Option.ne_none_iff_exists'.mp hrun
  obtain ⟨t, hstart⟩ := start_of_raised hraised
  have hepilogue : epilogue ports event (result, some incident) s = (.error raised, t) := by
    unfold epilogue investigateMoved investigateIncident
    simp only [bind_assoc]
    exact bind_of_error hstart
  rw [deliver_of_prologue_ok h.moved, hepilogue]
  exact ⟨rfl, rfl⟩

/-- The loop of `generate_rca` catches `ValidationError`, `TypeError` and `ValueError` only, so a
model that fails escalates exactly when each call that is made raises one of these, if any. -/
theorem llm_failure_escalates (h : Synthesizes ports event worker result incident s visit) :
    ∃ prompt, assembleRcaPrompt ports.toRcaHost visit.1.incidentId visit.1.service
        visit.1.scenario (visitPack ports.toSpecialistPorts visit) = .ok prompt ∧
      (FailureEscalates ports event worker result incident s visit
          (firstAccepted ports.toRcaHost prompt.packIds (ports.toRcaHost.answers visit.1.incidentId
            prompt (afterVisit ports.toSpecialistPorts visit).2.gateway.world)) ↔
        CallsCaught ports.toRcaHost prompt.packIds (ports.toRcaHost.answers visit.1.incidentId
          prompt (afterVisit ports.toSpecialistPorts visit).2.gateway.world)) := by
  obtain ⟨prompt, hprompt, _, hattempts⟩ :=
    generateRca_attempts ports.toRcaHost visit.1.incidentId visit.1.service visit.1.scenario h.pack
  obtain ⟨run, hsettled, hraised, _⟩ := investigate_last h.last
  have hgeneration := raised_iff_generation h.chosen h.pack hsettled
  refine ⟨prompt, hprompt, ?_⟩
  have hmade : visitGeneration ports.toSpecialistPorts visit =
      (generateAttempts ports.toRcaHost visit.1.incidentId prompt [1, 2] "RCA generation failed."
        (afterVisit ports.toSpecialistPorts visit).2.gateway.world).1 := by
    unfold visitGeneration
    rw [hattempts]
  generalize (afterVisit ports.toSpecialistPorts visit).2.gateway.world = world at hmade ⊢
  rcases generateAttempts_both ports.toRcaHost visit.1.incidentId prompt "RCA generation failed."
    world with ⟨hcaught, generation, later, hok, hclassified⟩ | ⟨hstray, text, later, herror⟩
  · refine iff_of_true ⟨⟨generation, ?_, fun hnone => ?_⟩, ?_⟩ hcaught
    · rw [hmade, hok]
    · obtain ⟨houtcome, hreason, _⟩ := hclassified.failed hnone
      exact ⟨houtcome, hreason⟩
    · have hnone : run.raised = none := hgeneration.mpr ⟨generation, by rw [hmade, hok]⟩
      obtain ⟨process, progress, hstart, hprogress, hof⟩ := start_returns (hraised.trans hnone)
      have hstarted : onProcess (Runner.start ports.toSpecialistPorts (startRequest ports event
          incident)) s = (.ok (), { s with process }) := within_eq_ok.mpr ⟨process, hstart, rfl⟩
      exact ⟨_, progress, hstarted, rfl, hprogress, hof.incident,
        committed_of_start h.moved hstarted hprogress⟩
  · refine iff_of_false (fun hescalates => ?_) hstray
    obtain ⟨generation, hok, _⟩ := hescalates.generated
    rw [hmade, herror] at hok
    cases hok

end Handling

/-- The run of a handling gets to `_synthesize`, and to an exception there if so asked. -/
def reachesSynthesize (ports : WorkerPorts World) (event : DomainEvent) (worker : Worker World)
    (raises : Bool) : Bool :=
  match prologue ports event worker.session with
  | (.ok (_, some incident), s) =>
    match s.process.lastVisit ports.toSpecialistPorts (startRequest ports event incident) with
    | some visit =>
      (visitDecision ports.toSpecialistPorts visit).nextAgent = .synthesize ∧
        (visitPack ports.toSpecialistPorts visit).isEmpty = false ∧
        (raises = true → (visitGeneration ports.toSpecialistPorts visit).toOption.isNone)
    | none => false
  | _ => false

theorem synthesizes_of_reaches {ports : WorkerPorts World} {event : DomainEvent}
    {worker : Worker World} {raises : Bool}
    (h : reachesSynthesize ports event worker raises = true) : ∃ result incident s visit,
      Synthesizes ports event worker result incident s visit ∧ (raises = true →
        ∀ generation, visitGeneration ports.toSpecialistPorts visit ≠ .ok generation) := by
  unfold reachesSynthesize at h
  split at h
  next result incident s hmoved =>
    split at h
    next visit hlast =>
      obtain ⟨hchosen, hpack, hraises⟩ := of_decide_eq_true h
      refine ⟨result, incident, s, visit, ⟨hmoved, hlast, hchosen, ?_⟩, ?_⟩
      · intro hempty
        rw [hempty] at hpack
        cases hpack
      · intro hasked generation hok
        have hnone := hraises hasked
        rw [hok] at hnone
        cases hnone
    · cases h
  · cases h

/-- A worker with an incident to investigate, whose model refuses the connection. -/
def refusingWorker : Worker Script :=
  openWorker [openIncident 10 latencyFingerprint] ⟨0, 100, [], [slowSignal], []⟩

/-- The incident stays open, and a later handling starts over. -/
theorem connection_error_rolls_back : ∃ result incident s visit,
    Synthesizes scripted (openedEvent 10) refusingWorker result incident s visit ∧
      (∀ accepted, ¬FailureEscalates scripted (openedEvent 10) refusingWorker result incident s
        visit accepted) ∧
      (deliver scripted (openedEvent 10) refusingWorker).ended.isCommitted = false := by
  have reached : reachesSynthesize scripted (openedEvent 10) refusingWorker true = true := by
    decide +kernel
  obtain ⟨result, incident, s, visit, h, hraises⟩ := synthesizes_of_reaches reached
  refine ⟨result, incident, s, visit, h, fun accepted hescalates => ?_,
    (rolledBack_of_raise h (hraises rfl)).1⟩
  obtain ⟨generation, hok, _⟩ := hescalates.generated
  exact hraises rfl generation hok

/-- The ports over a database that executes every statement and a model that answers with no JSON. -/
def unreadable : WorkerPorts Script :=
  { scripted with
    completeJson := fun _ _ world => (.error (.invalid "Claude response was not valid JSON."), world)
    statement := fun world => (true, world) }

/-- The run of a handling returns and leaves in the runner what the tables take, evidence and audit
entries among it. -/
def fillsRunner (ports : WorkerPorts World) (event : DomainEvent) (worker : Worker World) : Bool :=
  match prologue ports event worker.session with
  | (.ok (_, some incident), s) =>
    match onProcess (Runner.start ports.toSpecialistPorts (startRequest ports event incident)) s with
    | (.ok (), t) =>
      let runner := t.process.runner
      t.broken = false ∧
        (∀ row ∈ runner.recorded, (prepareEvidence ports.services.redact row).toOption.isSome) ∧
        ((t.db.evidence ++ runner.recorded).map Evidence.id).Nodup ∧
        ((t.db.auditLog ++ runner.log).map AuditEntry.id).Nodup ∧
        ((t.db.auditLog ++ runner.log).map fun entry => entry.rowHash.text).Nodup ∧
        ((t.db.rcaReports ++ runner.rcaReports).map RcaReport.id).Nodup ∧
        ((t.db.rcaReports ++ runner.rcaReports).map fun report =>
          (report.incidentId, report.version)).Nodup ∧
        runner.recorded.isEmpty = false ∧ runner.log.isEmpty = false
    | _ => false
  | _ => false

theorem takesRun_of_fills {ports : WorkerPorts World} {event : DomainEvent} {worker : Worker World}
    {result : ConsumeOpenedResult} {incident : Incident} {s : Session World}
    (executes : ∀ world, (ports.statement world).1 = true)
    (moved : prologue ports event worker.session = (.ok (result, some incident), s))
    (h : fillsRunner ports event worker = true) : ∃ t,
      onProcess (Runner.start ports.toSpecialistPorts (startRequest ports event incident)) s =
          (.ok (), t) ∧
        TakesRun ports t ∧ t.process.runner.recorded ≠ [] ∧ t.process.runner.log ≠ [] := by
  unfold fillsRunner at h
  rw [moved] at h
  dsimp only at h
  split at h
  next t hstart =>
    obtain ⟨usable, prepared, hids, hentries, hhashes, hreports, hversions, hrecorded, hlog⟩ :=
      of_decide_eq_true h
    refine ⟨t, hstart, ⟨executes, ⟨usable, fun row hrow => ?_, hids⟩, ⟨usable, hentries, hhashes⟩,
      ⟨usable, hreports, hversions⟩⟩, fun hnil => ?_, fun hnil => ?_⟩
    · cases hprepared : prepareEvidence ports.services.redact row with
      | ok stored => exact ⟨stored, rfl⟩
      | error raised =>
        have := prepared row hrow
        rw [hprepared] at this
        cases this
    · rw [hnil] at hrecorded
      cases hrecorded
    · rw [hnil] at hlog
      cases hlog
  · cases h

/-- The evidence, the audit entries and the progress of the run are in the tables. -/
theorem not_json_escalates : ∃ result incident s visit,
    Synthesizes unreadable (openedEvent 10) refusingWorker result incident s visit ∧
      FailureEscalates unreadable (openedEvent 10) refusingWorker result incident s visit none ∧
      ∃ (t : Session Script) (progress : InvestigationProgress),
        t.process.runner.recorded ≠ [] ∧ t.process.runner.log ≠ [] ∧
        (deliver unreadable (openedEvent 10) refusingWorker).ended = .committed result ∧
        PersistsRun t progress (deliver unreadable (openedEvent 10) refusingWorker).worker.db := by
  have reached : reachesSynthesize unreadable (openedEvent 10) refusingWorker false = true ∧
      fillsRunner unreadable (openedEvent 10) refusingWorker = true := by
    decide +kernel
  obtain ⟨result, incident, s, visit, h, _⟩ := synthesizes_of_reaches reached.1
  obtain ⟨prompt, _, hiff⟩ := llm_failure_escalates h
  have escalates : FailureEscalates unreadable (openedEvent 10) refusingWorker result incident s
      visit none := hiff.mpr ⟨caught_invalid _, fun _ => caught_invalid _⟩
  obtain ⟨t, hstart, takes, hrecorded, hlog⟩ :=
    takesRun_of_fills (fun _ => rfl) h.moved reached.2
  obtain ⟨other, progress, hother, _, _, _, hpersists⟩ := escalates.persisted
  obtain rfl := congrArg Prod.snd (hother.symm.trans hstart)
  exact ⟨result, incident, s, visit, h, escalates, _, progress, hrecorded, hlog, hpersists takes⟩

end Aegis
