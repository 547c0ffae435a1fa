import Aegis.Handling

namespace Aegis

open Raising Proc

section Parts

variable {World : Type} (ports : WorkerPorts World)

/-- `startFound` up to the run of the graph: its result, and the incident it moved. -/
def moveFound (incidentId : Uuid) (incident : Incident) :
    Proc (Session World) Raised (ConsumeOpenedResult × Option Incident) := do
  let moment ← sessionDraw ports.now
  let (moved, started) ← fromExcept
    ((incident.startInvestigation moment).mapError Raised.invalid)
  if started then do
    save ports moved
    pure (⟨incidentId, some moved.state, true, false⟩, some moved)
  else pure (⟨incidentId, some moved.state, false, false⟩, none)

def moveClaimed (incidentId : Uuid) :
    Proc (Session World) Raised (ConsumeOpenedResult × Option Incident) := do
  let found ← getById ports incidentId
  match found with
  | none => raise (.other ("Incident '" ++ incidentId.str ++ "' was not found."))
  | some incident => moveFound ports incidentId incident

def claimAndMove (event : DomainEvent) :
    Proc (Session World) Raised (ConsumeOpenedResult × Option Incident) :=
  if event.eventType = incidentOpenedV1 then
    match ports.parseUuid event.incidentId with
    | none => raise (.invalid "incident_id is not a UUID.")
    | some incidentId => do
      let claimed ← recordOnce ports event incidentId
      if claimed then moveClaimed ports incidentId
      else pure (⟨incidentId, none, false, true⟩, none)
  else raise (.invalid ("Unsupported event_type '" ++ event.eventType ++ "'."))

/-- A handling up to the run of the graph. -/
def prologue (event : DomainEvent) :
    Proc (Session World) Raised (ConsumeOpenedResult × Option Incident) := do
  refreshPolicyCache ports
  claimAndMove ports event

def investigateMoved (event : DomainEvent) : Option Incident → Proc (Session World) Raised Unit
  | none => pure ()
  | some incident => investigateIncident ports event incident

/-- The rest of a handling. -/
def epilogue (event : DomainEvent) (moved : ConsumeOpenedResult × Option Incident) :
    Proc (Session World) Raised ConsumeOpenedResult := do
  investigateMoved ports event moved.2
  statement ports
  pure moved.1

/-- The end of `execute` without the commit. -/
def finishExecute (event : DomainEvent) (moved : ConsumeOpenedResult × Option Incident) :
    Proc (Session World) Raised ConsumeOpenedResult := do
  investigateMoved ports event moved.2
  pure moved.1

variable {ports} {event : DomainEvent}

@[simp] theorem finishExecute_none (result : ConsumeOpenedResult) :
    finishExecute ports event (result, none) = pure result := rfl

theorem startFound_eq (incidentId : Uuid) (incident : Incident) :
    startFound ports event incidentId incident =
      moveFound ports incidentId incident >>= finishExecute ports event := by
  unfold startFound moveFound
  rw [bind_assoc]
  refine bind_congr fun moment => ?_
  rw [bind_assoc]
  refine bind_congr fun (moved, started) => ?_
  cases started with
  | false => simp only [Bool.false_eq_true, if_false, pure_bind, finishExecute_none]
  | true =>
    simp only [if_true, bind_assoc, pure_bind]
    rfl

theorem consumeClaimed_eq (incidentId : Uuid) :
    consumeClaimed ports event incidentId =
      moveClaimed ports incidentId >>= finishExecute ports event := by
  unfold consumeClaimed moveClaimed
  rw [bind_assoc]
  refine bind_congr fun found => ?_
  cases found with
  | none => rfl
  | some incident => exact startFound_eq incidentId incident

theorem execute_eq (event : DomainEvent) :
    execute ports event = claimAndMove ports event >>= finishExecute ports event := by
  unfold execute claimAndMove
  split
  · rcases ports.parseUuid event.incidentId with _ | incidentId
    · rfl
    · dsimp only
      rw [bind_assoc]
      refine bind_congr fun claimed => ?_
      cases claimed with
      | false => rfl
      | true => exact consumeClaimed_eq incidentId
  · rfl

/-- A handling is its prologue and then, for the incident that this moved, the rest. -/
theorem handleOpened_eq (event : DomainEvent) :
    handleOpened ports event = prologue ports event >>= epilogue ports event := by
  unfold handleOpened prologue
  rw [execute_eq]
  simp only [bind_assoc]
  refine bind_congr fun _ => bind_congr fun moved => ?_
  unfold finishExecute epilogue
  simp only [bind_assoc, pure_bind]

end Parts

section Prologue

variable {World : Type} {ports : WorkerPorts World} {s t u : Session World} {event : DomainEvent}

def KeepsRunner (s t : Session World) : Prop := t.process.runner = s.process.runner

theorem keepsRunner_refl (s : Session World) : KeepsRunner s s := rfl

theorem keepsRunner_trans (s t u : Session World) (h : KeepsRunner s t) (h' : KeepsRunner t u) :
    KeepsRunner s u := h'.trans h

theorem keepsRunner_bind {Value Result : Type} {p : Proc (Session World) Raised Value}
    {f : Value → Proc (Session World) Raised Result} (first : Leaves KeepsRunner p)
    (second : ∀ a, Leaves KeepsRunner (f a)) : Leaves KeepsRunner (p >>= f) :=
  leaves_bind keepsRunner_trans first second

theorem keepsRunner_pure {Value : Type} (a : Value) :
    Leaves KeepsRunner (pure a : Proc (Session World) Raised Value) :=
  leaves_pure keepsRunner_refl a

/-- Neither the runner nor the transaction is touched, whatever becomes of the tables. -/
structure OnlyTables (s t : Session World) : Prop where
  runner : KeepsRunner s t
  broken : t.broken = s.broken

theorem onlyTables_refl (s : Session World) : OnlyTables s s := ⟨rfl, rfl⟩

theorem onlyTables_trans (s t u : Session World) (h : OnlyTables s t) (h' : OnlyTables t u) :
    OnlyTables s u := ⟨h'.runner.trans h.runner, h'.broken.trans h.broken⟩

theorem onlyTables_bind {Value Result : Type} {p : Proc (Session World) Raised Value}
    {f : Value → Proc (Session World) Raised Result} (first : Leaves OnlyTables p)
    (second : ∀ a, Leaves OnlyTables (f a)) : Leaves OnlyTables (p >>= f) :=
  leaves_bind onlyTables_trans first second

theorem onlyTables_pure {Value : Type} (a : Value) :
    Leaves OnlyTables (pure a : Proc (Session World) Raised Value) :=
  leaves_pure onlyTables_refl a

theorem onlyTables_statement : Leaves OnlyTables (statement ports) := by
  intro s
  unfold statement
  split
  · exact onlyTables_refl s
  · exact ⟨rfl, rfl⟩

theorem onlyTables_read {Value : Type} (f : Session World → Value) :
    Leaves OnlyTables (read f : Proc (Session World) Raised Value) :=
  leaves_read onlyTables_refl f

theorem onlyTables_sessionDraw {Value : Type} (f : World → Value × World) :
    Leaves OnlyTables (sessionDraw f) := leaves_within fun _ _ => ⟨rfl, rfl⟩

theorem onlyTables_write (conflict : Db → Bool) (change : Db → Db) :
    Leaves OnlyTables (write ports conflict change) := by
  refine onlyTables_bind onlyTables_statement fun _ => onlyTables_bind (onlyTables_read _)
    fun db => ?_
  split
  · exact leaves_raise onlyTables_refl _
  · exact leaves_update fun _ => ⟨rfl, rfl⟩

theorem keepsRunner_statement : Leaves KeepsRunner (statement ports) := fun s =>
  (onlyTables_statement s).runner

theorem keepsRunner_write (conflict : Db → Bool) (change : Db → Db) :
    Leaves KeepsRunner (write ports conflict change) := fun s =>
  (onlyTables_write conflict change s).runner

theorem onlyTables_moveFound (incidentId : Uuid) (incident : Incident) :
    Leaves OnlyTables (moveFound ports incidentId incident) := by
  refine onlyTables_bind (onlyTables_sessionDraw _) fun moment =>
    onlyTables_bind (leaves_fromExcept onlyTables_refl _) fun (moved, started) => ?_
  cases started with
  | false => exact onlyTables_pure _
  | true => exact onlyTables_bind (onlyTables_write _ _) fun _ => onlyTables_pure _

theorem onlyTables_recordOnce (incidentId : Uuid) :
    Leaves OnlyTables (recordOnce ports event incidentId) := by
  refine onlyTables_bind onlyTables_statement fun _ => onlyTables_bind (onlyTables_read _)
    fun db => ?_
  split
  · exact onlyTables_pure _
  · exact onlyTables_bind (leaves_update fun _ => ⟨rfl, rfl⟩) fun _ => onlyTables_pure _

theorem onlyTables_moveClaimed (incidentId : Uuid) :
    Leaves OnlyTables (moveClaimed ports incidentId) := by
  refine onlyTables_bind (onlyTables_bind onlyTables_statement fun _ => onlyTables_read _)
    fun found => ?_
  cases found with
  | none => exact leaves_raise onlyTables_refl _
  | some incident => exact onlyTables_moveFound _ _

theorem onlyTables_claimAndMove (event : DomainEvent) :
    Leaves OnlyTables (claimAndMove ports event) := by
  unfold claimAndMove
  split
  · split
    · exact leaves_raise onlyTables_refl _
    · refine onlyTables_bind (onlyTables_recordOnce _) fun claimed => ?_
      cases claimed with
      | false => exact onlyTables_pure _
      | true => exact onlyTables_moveClaimed _
  · exact leaves_raise onlyTables_refl _

theorem onlyTables_prologue (event : DomainEvent) : Leaves OnlyTables (prologue ports event) :=
  onlyTables_bind (onlyTables_bind onlyTables_statement fun _ =>
    leaves_update fun _ => ⟨rfl, rfl⟩) fun _ => onlyTables_claimAndMove event

/-- The event opens an investigation of this row. -/
structure Opens (ports : WorkerPorts World) (event : DomainEvent) (db : Db) (row : Incident) :
    Prop where
  parsed : ports.parseUuid event.incidentId = some row.id
  unclaimed : claimedBefore event row.id db = false
  found : db.incidents.find? (fun other => other.id = row.id) = some row
  isOpen : row.state = .open

/-- What a prologue that returns has done to the tables. -/
def PrologueDid (ports : WorkerPorts World) (event : DomainEvent) (before after : Db) :
    Option Incident → Prop
  | none => ∃ inbox, after = { before with inbox }
  | some moved => ∃ row moment inbox, Opens ports event before row ∧
      (toDomain row).transitionTo .investigating moment = .ok moved ∧
      after = saveIncident moved { before with inbox }

theorem statement_ok {a : Unit} (h : statement ports s = (.ok a, t)) :
    Becomes s t s.db s.process.runner := by
  have := statement_becomes ports s
  rwa [h] at this

theorem refreshPolicyCache_ok (h : refreshPolicyCache ports s = (.ok (), t)) : t.db = s.db := by
  obtain ⟨_, u, hstatement, h⟩ := bind_eq_ok.mp h
  cases h
  exact (statement_ok hstatement).db

theorem recordOnce_ok {incidentId : Uuid} {claimed : Bool}
    (h : recordOnce ports event incidentId s = (.ok claimed, t)) :
    ∃ inbox, t.db = { s.db with inbox } ∧
      (claimed = true → claimedBefore event incidentId s.db = false) := by
  obtain ⟨_, u, hstatement, h⟩ := bind_eq_ok.mp h
  obtain ⟨db, u', hread, h⟩ := bind_eq_ok.mp h
  have hdb := (statement_ok hstatement).db
  cases hread
  split at h
  · cases h
    exact ⟨s.db.inbox, hdb, fun h => by cases h⟩
  next hfree =>
    cases h
    rw [hdb] at hfree
    refine ⟨_, by rw [withDb_db, hdb], fun _ => by simpa using hfree⟩

theorem getById_ok {incidentId : Uuid} {found : Option Incident}
    (h : getById ports incidentId s = (.ok found, t)) :
    t.db = s.db ∧
      found = (s.db.incidents.find? fun row => row.id = incidentId).map toDomain := by
  obtain ⟨_, u, hstatement, h⟩ := bind_eq_ok.mp h
  have hdb := (statement_ok hstatement).db
  cases h
  refine ⟨hdb, ?_⟩
  dsimp only
  rw [hdb]

/-- The incident that `moveFound` saves was open and now investigates. -/
theorem moveFound_ok {incidentId : Uuid} {incident : Incident}
    {out : ConsumeOpenedResult × Option Incident}
    (h : moveFound ports incidentId incident s = (.ok out, t)) :
    (out.1.transitioned = out.2.isSome ∧ out.1.incidentId = incidentId) ∧
      ((out.2 = none ∧ t.db = s.db) ∨ ∃ moment moved, out.2 = some moved ∧
        incident.state = .open ∧ incident.transitionTo .investigating moment = .ok moved ∧
        t.db = saveIncident moved s.db) := by
  obtain ⟨moment, u, hdraw, h⟩ := bind_eq_ok.mp h
  obtain ⟨world, _, rfl⟩ := within_eq_ok.mp hdraw
  obtain ⟨⟨moved, started⟩, u', hresult, h⟩ := bind_eq_ok.mp h
  obtain ⟨hstart, rfl⟩ := fromExcept_eq_ok.mp hresult
  cases hmove : incident.startInvestigation moment with
  | error text => simp [hmove, Except.mapError] at hstart
  | ok result =>
    rw [hmove] at hstart
    cases hstart
    rcases startInvestigation_ok hmove with ⟨rfl, hopen, hmove⟩ | ⟨rfl, _, _⟩
    · obtain ⟨_, u', hsave, h⟩ := bind_eq_ok.mp h
      obtain ⟨_, hwrite⟩ := write_ok hsave
      cases h
      exact ⟨⟨rfl, rfl⟩, .inr ⟨moment, moved, rfl, hopen, hmove, hwrite.db⟩⟩
    · cases h
      exact ⟨⟨rfl, rfl⟩, .inl ⟨rfl, rfl⟩⟩

theorem prologue_ok {out : ConsumeOpenedResult × Option Incident}
    (h : prologue ports event s = (.ok out, t)) :
    (out.1.transitioned = out.2.isSome ∧ ports.parseUuid event.incidentId = some out.1.incidentId) ∧
      PrologueDid ports event s.db t.db out.2 := by
  obtain ⟨_, u, hrefresh, h⟩ := bind_eq_ok.mp h
  have hdb := refreshPolicyCache_ok hrefresh
  rw [← hdb]
  unfold claimAndMove at h
  split at h
  · rcases hparse : ports.parseUuid event.incidentId with _ | incidentId
    · rw [hparse] at h
      cases h
    · rw [hparse] at h
      obtain ⟨claimed, u', hclaim, h⟩ := bind_eq_ok.mp h
      obtain ⟨inbox, hinbox, hfree⟩ := recordOnce_ok hclaim
      cases claimed with
      | false =>
        cases h
        exact ⟨⟨rfl, rfl⟩, inbox, hinbox⟩
      | true =>
        obtain ⟨found, u'', hget, h⟩ := bind_eq_ok.mp h
        obtain ⟨hsame, hfound⟩ := getById_ok hget
        cases hrow : u'.db.incidents.find? fun row => row.id = incidentId with
        | none =>
          rw [hfound, hrow] at h
          cases h
        | some row =>
          rw [hfound, hrow] at h
          obtain ⟨⟨htransitioned, hresult⟩, hmove⟩ := moveFound_ok h
          refine ⟨⟨htransitioned, by rw [hresult]⟩, ?_⟩
          rcases hmove with ⟨hnone, hkept⟩ | ⟨moment, moved, hsome, hopen, hmove, hsaved⟩
          · rw [hnone]
            exact ⟨inbox, hkept.trans (hsame.trans hinbox)⟩
          · rw [hsome]
            have hid : row.id = incidentId := by simpa using List.find?_some hrow
            subst hid
            rw [hinbox] at hrow
            refine ⟨row, moment, inbox, ⟨hparse, hfree rfl, hrow, hopen⟩, hmove, ?_⟩
            rw [hsaved, hsame, hinbox]
  · cases h

end Prologue

section Investigate

variable {World : Type} (ports : WorkerPorts World) (event : DomainEvent) (incident : Incident)

/-- `investigateIncident` up to the drain of the audit log. -/
def upToAudit : Proc (Session World) Raised Unit := do
  onProcess (Runner.start ports.toSpecialistPorts (startRequest ports event incident))
  persistCollectedEvidence ports

def fromAudit : Proc (Session World) Raised Unit := do
  persistRecordedAudit ports
  persistRest ports incident

theorem investigateIncident_eq :
    investigateIncident ports event incident =
      upToAudit ports event incident >>= fun _ => fromAudit ports incident := by
  unfold investigateIncident upToAudit fromAudit
  simp only [bind_assoc]

/-- The run of the graph in a session. -/
def Session.run (s : Session World) : GraphRun × Desk World :=
  s.process.investigate ports.toSpecialistPorts (startRequest ports event incident)

/-- The process after that run. -/
def Session.ran (s : Session World) : Process World :=
  s.process.afterRun (startRequest ports event incident) (s.run ports event incident)

variable {ports} {event} {incident} {s t : Session World}

theorem run_eq (s : Session World) :
    s.process.investigate ports.toSpecialistPorts (startRequest ports event incident) =
      s.run ports event incident := rfl

theorem ran_eq (s : Session World) :
    s.process.afterRun (startRequest ports event incident) (s.run ports event incident) =
      s.ran ports event incident := rfl

/-- A flush empties its buffer, whether or not it then fails. -/
theorem drain_runner {Value : Type} {buffer : Runner → Value} {clear : Runner → Runner}
    {f : Value → Proc (Session World) Raised Unit} (each : ∀ a, Leaves KeepsRunner (f a))
    (s : Session World) :
    ((drain buffer clear >>= f) s).2.process.runner = clear s.process.runner :=
  each _ (s.withRunner (clear s.process.runner))

theorem keepsRunner_forEach {Item : Type} {f : Item → Proc (Session World) Raised Unit}
    (each : ∀ item, Leaves KeepsRunner (f item)) (items : List Item) :
    Leaves KeepsRunner (forEach f items) :=
  leaves_forEach keepsRunner_refl keepsRunner_trans each items

theorem keepsRunner_of_notifies {Value : Type} {p : Proc (Session World) Raised Value}
    {incidentId : Uuid} (h : Leaves (Notifies incidentId) p) : Leaves KeepsRunner p :=
  fun s => (h s).runner

theorem persistCollectedEvidence_runner (s : Session World) :
    (persistCollectedEvidence ports s).2.process.runner =
      { s.process.runner with recorded := [] } :=
  drain_runner (fun items => keepsRunner_forEach (fun _ =>
    keepsRunner_bind (leaves_fromExcept keepsRunner_refl _) fun _ => keepsRunner_write _ _) items) s

theorem persistRecordedAudit_runner (s : Session World) :
    (persistRecordedAudit ports s).2.process.runner = { s.process.runner with log := [] } :=
  drain_runner (fun items => keepsRunner_forEach (fun _ => keepsRunner_write _ _) items) s

theorem persistRecordedRca_runner (s : Session World) :
    (persistRecordedRca ports incident s).2.process.runner =
      { s.process.runner with rcaReports := [] } :=
  drain_runner (fun items => keepsRunner_forEach (fun report =>
    keepsRunner_bind (keepsRunner_write _ _) fun _ =>
      keepsRunner_of_notifies (notifies_notifyRcaReady incident report)) items) s

theorem persistRecordedProgress_runner (s : Session World) :
    (persistRecordedProgress ports incident s).2.process.runner =
      { s.process.runner with progress := none } := by
  refine drain_runner (fun item => ?_) s
  cases item with
  | none => exact keepsRunner_pure _
  | some progress =>
    exact keepsRunner_bind (keepsRunner_write _ _) fun _ =>
      keepsRunner_of_notifies (notifies_notifyEscalated incident _)

/-- The audit log and the history of the runner stay. -/
def KeepsHistory (s t : Session World) : Prop := SameHistory s.process t.process

theorem keepsHistory_trans (s t u : Session World) (h : KeepsHistory s t)
    (h' : KeepsHistory t u) : KeepsHistory s u :=
  ⟨h'.log.trans h.log, h'.audited.trans h.audited, h'.packs.trans h.packs⟩

theorem keepsHistory_of_runner {s t : Session World} {runner : Runner}
    (h : t.process.runner = runner) (log : runner.log = s.process.runner.log)
    (audited : runner.audited = s.process.runner.audited)
    (packs : runner.packs = s.process.runner.packs) : KeepsHistory s t :=
  ⟨by rw [h, log], by rw [h, audited], by rw [h, packs]⟩

theorem keepsHistory_persistCollectedEvidence :
    Leaves KeepsHistory (persistCollectedEvidence ports) := fun s =>
  keepsHistory_of_runner (persistCollectedEvidence_runner s) rfl rfl rfl

theorem keepsHistory_persistRest : Leaves KeepsHistory (persistRest ports incident) :=
  leaves_bind keepsHistory_trans
    (fun s => keepsHistory_of_runner (persistRecordedRca_runner s) rfl rfl rfl)
    fun _ s => keepsHistory_of_runner (persistRecordedProgress_runner s) rfl rfl rfl

/-- However it ends, the part before the drain leaves the audit log as the run left it. -/
theorem upToAudit_leaves (s : Session World) :
    SameHistory (s.ran ports event incident) (upToAudit ports event incident s).2.process := by
  have hstart := start_leaves ports.toSpecialistPorts (startRequest ports event incident) s.process
  change SameHistory (s.ran ports event incident) _ at hstart
  generalize s.ran ports event incident = ran at *
  unfold upToAudit
  rw [bind_apply]
  unfold onProcess within
  rcases hrun : Runner.start ports.toSpecialistPorts (startRequest ports event incident) s.process
    with ⟨_ | _, process⟩
  · rw [hrun] at hstart
    exact hstart
  · rw [hrun] at hstart
    have h := @keepsHistory_persistCollectedEvidence _ ports { s with process }
    exact ⟨h.log.trans hstart.log, h.audited.trans hstart.audited, h.packs.trans hstart.packs⟩

theorem fromAudit_leaves (s : Session World) :
    (fromAudit ports incident s).2.process.runner.log = [] ∧
      (fromAudit ports incident s).2.process.runner.audited = s.process.runner.audited ∧
      (fromAudit ports incident s).2.process.runner.packs = s.process.runner.packs := by
  have hdrain := @persistRecordedAudit_runner _ ports s
  unfold fromAudit
  rw [bind_apply]
  rcases haudit : persistRecordedAudit ports s with ⟨_ | _, t⟩
  · rw [haudit] at hdrain
    change t.process.runner = _ at hdrain
    change t.process.runner.log = [] ∧ t.process.runner.audited = _ ∧ t.process.runner.packs = _
    rw [hdrain]
    exact ⟨rfl, rfl, rfl⟩
  · rw [haudit] at hdrain
    change t.process.runner = _ at hdrain
    have h := @keepsHistory_persistRest _ ports incident t
    dsimp only
    rw [h.log, h.audited, h.packs, hdrain]
    exact ⟨rfl, rfl, rfl⟩

theorem upToAudit_ok (h : upToAudit ports event incident s = (.ok (), t)) :
    (s.run ports event incident).1.raised = none ∧ ∃ rows progress,
      rows.map Evidence.key = (s.run ports event incident).2.recorded.map Evidence.key ∧
      progress.incidentId = incident.id ∧
      t.db = { s.db with evidence := s.db.evidence ++ rows } ∧
      t.process.runner =
        { (s.ran ports event incident).runner.captureRca (s.run ports event incident).1.checkpoint with
          recorded := [], progress := some progress } := by
  obtain ⟨_, u, hstart, h⟩ := bind_eq_ok.mp h
  obtain ⟨process, hprocess, rfl⟩ := within_eq_ok.mp hstart
  obtain ⟨hraised, progress, world, ⟨hid, _, _, _⟩, hlater⟩ := start_ok hprocess
  obtain ⟨rows, hrows, hbecomes⟩ := persistCollectedEvidence_ok h
  have hrecorded := afterRun_recorded s.process (startRequest ports event incident)
    (s.run ports event incident)
  rw [run_eq] at hraised hlater
  rw [ran_eq] at hrecorded hlater
  generalize s.ran ports event incident = ran at *
  generalize s.run ports event incident = run at *
  subst hlater
  rw [← hrecorded]
  exact ⟨hraised, rows, progress, hrows, hid, hbecomes.db, hbecomes.runner⟩

theorem fromAudit_ok {progress : InvestigationProgress}
    (hprogress : s.process.runner.progress = some progress)
    (h : fromAudit ports incident s = (.ok (), t)) :
    (UniqueVersions s.db.rcaReports →
      UniqueVersions (s.db.rcaReports ++ s.process.runner.rcaReports)) ∧ ∃ notes,
      (∀ note ∈ notes, note.incidentId = incident.id) ∧
      t.db = { saveProgressRow progress s.db with
        auditLog := s.db.auditLog ++ s.process.runner.log
        rcaReports := s.db.rcaReports ++ s.process.runner.rcaReports
        notifications := s.db.notifications ++ notes } ∧
      t.process.runner =
        { s.process.runner with log := [], rcaReports := [], progress := none } := by
  obtain ⟨_, u, haudit, h⟩ := bind_eq_ok.mp h
  obtain ⟨_, v, hrca, h⟩ := bind_eq_ok.mp h
  have audited := persistRecordedAudit_ok haudit
  obtain ⟨hunique, notes, hnotes, stored⟩ := persistRecordedRca_ok hrca
  rw [audited.db, audited.runner] at hunique stored
  have hkept : v.process.runner.progress = some progress := by
    rw [stored.runner]
    exact hprogress
  obtain ⟨more, hmore, saved⟩ := persistRecordedProgress_ok hkept h
  refine ⟨hunique, notes ++ more, ?_, ?_, ?_⟩
  · intro note hnote
    exact (List.mem_append.mp hnote).elim (hnotes note) (hmore note)
  · rw [saved.db, stored.db]
    simp [saveProgressRow]
  · rw [saved.runner, stored.runner]

/-- What a whole investigation leaves when it returns: the rows that the run and the leftovers of
the runner amount to, and empty buffers. -/
theorem investigateIncident_ok (h : investigateIncident ports event incident s = (.ok (), t)) :
    (s.run ports event incident).1.raised = none ∧
    (UniqueVersions s.db.rcaReports → UniqueVersions t.db.rcaReports) ∧
    ∃ rows progress notes,
      rows.map Evidence.key = (s.run ports event incident).2.recorded.map Evidence.key ∧
      progress.incidentId = incident.id ∧ (∀ note ∈ notes, note.incidentId = incident.id) ∧
      t.db = { saveProgressRow progress s.db with
        evidence := s.db.evidence ++ rows
        auditLog := s.db.auditLog ++ (s.run ports event incident).2.gateway.log
        rcaReports := s.db.rcaReports ++ (s.process.runner.rcaReports ++
          ((s.run ports event incident).1.checkpoint.rca.bind reportFromPayload).toList)
        notifications := s.db.notifications ++ notes } ∧
      t.process.runner = { (s.ran ports event incident).runner with
        recorded := [], log := [], rcaReports := [], progress := none } := by
  rw [investigateIncident_eq] at h
  obtain ⟨_, u, hfirst, h⟩ := bind_eq_ok.mp h
  obtain ⟨hraised, rows, progress, hrows, hid, hdb, hrunner⟩ := upToAudit_ok hfirst
  obtain ⟨hunique, notes, hnotes, hstored, hdrained⟩ := fromAudit_ok (by rw [hrunner]) h
  rw [hdb, hrunner] at hunique hstored
  rw [hrunner] at hdrained
  have hlog := afterRun_log s.process (startRequest ports event incident)
    (s.run ports event incident)
  have hreports := afterRun_rcaReports s.process (startRequest ports event incident)
    (s.run ports event incident)
  rw [ran_eq] at hlog hreports
  generalize s.ran ports event incident = ran at *
  generalize s.run ports event incident = run at *
  unfold Runner.captureRca at hunique hstored hdrained
  dsimp only at hunique hstored hdrained
  rw [hreports] at hunique hstored
  rw [hlog] at hstored
  refine ⟨hraised, fun unique => ?_, rows, progress, notes, hrows, hid, hnotes, hstored, hdrained⟩
  rw [hstored]
  exact hunique unique

end Investigate

section Deliver

variable {World : Type} {ports : WorkerPorts World} {event : DomainEvent} {worker : Worker World}

/-- How a handling ended, with the worker after it. -/
def Worker.closed (worker : Worker World) :
    Except Raised ConsumeOpenedResult × Session World → Handling World
  | (.ok result, s) => ⟨.committed result, ⟨s.db, s.process⟩⟩
  | (.error raised, s) => ⟨.rolledBack raised, ⟨worker.db, s.process⟩⟩

theorem deliver_eq (event : DomainEvent) (worker : Worker World) :
    deliver ports event worker =
      worker.closed ((prologue ports event >>= epilogue ports event) worker.session) := by
  rw [← handleOpened_eq]
  unfold deliver
  rcases handleOpened ports event worker.session with ⟨_ | _, s⟩
  · rfl
  · rfl

theorem deliver_of_prologue_error {raised : Raised} {t : Session World}
    (h : prologue ports event worker.session = (.error raised, t)) :
    deliver ports event worker = ⟨.rolledBack raised, ⟨worker.db, t.process⟩⟩ := by
  rw [deliver_eq, bind_of_error h]
  rfl

theorem deliver_of_prologue_ok {out : ConsumeOpenedResult × Option Incident} {t : Session World}
    (h : prologue ports event worker.session = (.ok out, t)) :
    deliver ports event worker = worker.closed (epilogue ports event out t) := by
  rw [deliver_eq, bind_of_ok h]

theorem epilogue_none (result : ConsumeOpenedResult) :
    epilogue ports event (result, none) = (statement ports >>= fun _ => pure result) := rfl

section Idle

variable {result : ConsumeOpenedResult} {s t : Session World}

theorem deliver_idle_error {raised : Raised}
    (h : prologue ports event worker.session = (.ok (result, none), s))
    (hcommit : statement ports s = (.error raised, t)) :
    deliver ports event worker = ⟨.rolledBack raised, ⟨worker.db, t.process⟩⟩ := by
  rw [deliver_of_prologue_ok h, epilogue_none, bind_of_error hcommit]
  rfl

theorem deliver_idle_ok (h : prologue ports event worker.session = (.ok (result, none), s))
    (hcommit : statement ports s = (.ok (), t)) :
    deliver ports event worker = ⟨.committed result, ⟨t.db, t.process⟩⟩ := by
  rw [deliver_of_prologue_ok h, epilogue_none, bind_of_ok hcommit]
  rfl

end Idle

/-- The flush of the audit log and all that follows, up to the commit. -/
def closing (ports : WorkerPorts World) (moved : Incident) : Proc (Session World) Raised Unit :=
  fromAudit ports moved >>= fun _ => statement ports

theorem epilogue_some (result : ConsumeOpenedResult) (moved : Incident) :
    epilogue ports event (result, some moved) =
      upToAudit ports event moved >>= fun _ => closing ports moved >>= fun _ => pure result := by
  unfold epilogue closing
  change (investigateIncident ports event moved >>= _) = _
  rw [investigateIncident_eq]
  simp only [bind_assoc]

/-- However it ends, the closing part leaves an empty log. -/
theorem closing_leaves (moved : Incident) (s : Session World) :
    (closing ports moved s).2.process.runner.log = [] ∧
      (closing ports moved s).2.process.runner.audited = s.process.runner.audited ∧
      (closing ports moved s).2.process.runner.packs = s.process.runner.packs := by
  have h := @fromAudit_leaves _ ports moved s
  unfold closing
  rw [bind_apply]
  rcases hs : fromAudit ports moved s with ⟨_ | _, t⟩
  · rwa [hs] at h
  · rw [hs] at h
    dsimp only
    rw [(statement_becomes ports t).runner]
    exact h

theorem closing_ok {moved : Incident} {s t : Session World}
    (h : closing ports moved s = (.ok (), t)) :
    ∃ u, fromAudit ports moved s = (.ok (), u) ∧ Becomes u t u.db u.process.runner := by
  obtain ⟨_, u, hfrom, h⟩ := bind_eq_ok.mp h
  exact ⟨u, hfrom, statement_ok h⟩

section Started

variable {result : ConsumeOpenedResult} {moved : Incident} {s t u : Session World}

theorem deliver_run_error {raised : Raised}
    (h : prologue ports event worker.session = (.ok (result, some moved), s))
    (hrun : upToAudit ports event moved s = (.error raised, t)) :
    deliver ports event worker = ⟨.rolledBack raised, ⟨worker.db, t.process⟩⟩ := by
  rw [deliver_of_prologue_ok h, epilogue_some, bind_of_error hrun]
  rfl

theorem deliver_closing_error {raised : Raised}
    (h : prologue ports event worker.session = (.ok (result, some moved), s))
    (hrun : upToAudit ports event moved s = (.ok (), t))
    (hclosing : closing ports moved t = (.error raised, u)) :
    deliver ports event worker = ⟨.rolledBack raised, ⟨worker.db, u.process⟩⟩ := by
  rw [deliver_of_prologue_ok h, epilogue_some, bind_of_ok hrun, bind_of_error hclosing]
  rfl

theorem deliver_closing_ok
    (h : prologue ports event worker.session = (.ok (result, some moved), s))
    (hrun : upToAudit ports event moved s = (.ok (), t))
    (hclosing : closing ports moved t = (.ok (), u)) :
    deliver ports event worker = ⟨.committed result, ⟨u.db, u.process⟩⟩ := by
  rw [deliver_of_prologue_ok h, epilogue_some, bind_of_ok hrun, bind_of_ok hclosing]
  rfl

/-- A handling that commits after it started an investigation has finished it. -/
theorem deliver_started_committed
    (h : prologue ports event worker.session = (.ok (result, some moved), s))
    (hend : (deliver ports event worker).ended.isCommitted = true) :
    ∃ t, investigateIncident ports event moved s = (.ok (), t) ∧
      (deliver ports event worker).ended = .committed result ∧
      (deliver ports event worker).worker.db = t.db ∧
      (deliver ports event worker).worker.process.runner = t.process.runner := by
  rcases hrun : upToAudit ports event moved s with ⟨raised | _, t⟩
  · rw [deliver_run_error h hrun] at hend
    cases hend
  · rcases hclosing : closing ports moved t with ⟨raised | _, u⟩
    · rw [deliver_closing_error h hrun hclosing] at hend
      cases hend
    · obtain ⟨v, hfrom, hcommit⟩ := closing_ok hclosing
      rw [deliver_closing_ok h hrun hclosing]
      refine ⟨v, ?_, rfl, hcommit.db, hcommit.runner⟩
      rw [investigateIncident_eq, bind_of_ok hrun, hfrom]

end Started

theorem prologue_runner {out : Except Raised (ConsumeOpenedResult × Option Incident)}
    {t : Session World} (h : prologue ports event worker.session = (out, t)) :
    t.process.runner = { worker.process.runner with packs := [] } := by
  have hkept : t.process.runner = _ := (leaves_eq (onlyTables_prologue event) h).runner
  exact hkept

/-- What a handling leaves that does not start an investigation. -/
theorem deliver_not_started
    (h : ∀ result moved s, prologue ports event worker.session ≠ (.ok (result, some moved), s)) :
    (∃ inbox, (deliver ports event worker).worker.db = { worker.db with inbox }) ∧
      (deliver ports event worker).worker.process.runner =
        { worker.process.runner with packs := [] } := by
  rcases hprologue : prologue ports event worker.session with ⟨raised | ⟨result, moved⟩, s⟩
  · have hrunner := prologue_runner hprologue
    rw [deliver_of_prologue_error hprologue]
    exact ⟨⟨worker.db.inbox, rfl⟩, hrunner⟩
  · have hrunner := prologue_runner hprologue
    cases moved with
    | some moved => exact absurd hprologue (h result moved s)
    | none =>
      have hcommit := statement_becomes ports s
      obtain ⟨_, inbox, hdb⟩ := prologue_ok hprologue
      rcases hstatement : statement ports s with ⟨raised | _, t⟩
      · rw [hstatement] at hcommit
        rw [deliver_idle_error hprologue hstatement]
        exact ⟨⟨worker.db.inbox, rfl⟩, hcommit.runner.trans hrunner⟩
      · rw [hstatement] at hcommit
        rw [deliver_idle_ok hprologue hstatement]
        exact ⟨⟨inbox, hcommit.db.trans hdb⟩, hcommit.runner.trans hrunner⟩

/-- The worker when a message arrives, in whatever world it then finds. -/
def Worker.inWorld (worker : Worker World) (world : World) : Worker World :=
  { worker with process := { worker.process with world } }

/-- One message is handled, whatever became of the last one. -/
def handle (ports : WorkerPorts World) (last : Handling World) (message : DomainEvent × World) :
    Handling World :=
  deliver ports message.1 (last.worker.inWorld message.2)

def HandlingStep (ports : WorkerPorts World) (last : Handling World)
    (message : DomainEvent × World) (next : Handling World) : Prop :=
  next = handle ports last message

end Deliver

end Aegis
