import Aegis.TransitionIncident

namespace Aegis

open Raising Proc StepPath

/-- `InvestigationProgress.with_pause` -/
def InvestigationProgress.withPause (progress : InvestigationProgress) (paused : Bool)
    (now : Instant) : InvestigationProgress :=
  { progress with
    status :=
      if paused then .paused
      else if progress.status = .paused then .running else progress.status
    escalateReason := strip progress.escalateReason
    paused
    updatedAt := now }

/-- A request that may change the progress of an investigation, its RCA or its incident. -/
inductive ControlCall where
  | pause
  | resume
  | review (call : ReviewCall)
  | transition (newState : IncidentState)

/-- What such a request returns. -/
inductive ControlAnswer where
  | progress (view : ProgressView)
  | incident (incident : Incident)

section Calls

variable {World : Type} (ports : WorkerPorts World)

/-- `_require_investigating` -/
def requireInvestigating (incidentId : Uuid) : Proc (Session World) Raised Unit := do
  let incident ← requireIncident ports incidentId
  if incident.state = .investigating then pure ()
  else raise (.invalid "Pause and resume apply only while investigating.")

/-- The flag is saved when it changes. -/
def setPaused (base : InvestigationProgress) (paused : Bool) :
    Proc (Session World) Raised Unit :=
  if base.paused = paused then pure ()
  else do
    let now ← sessionDraw ports.now
    saveProgress ports (base.withPause paused now)

/-- `pause` and `resume`, which differ in the flag they set. -/
def controlPause (incidentId : Uuid) (paused : Bool) :
    Proc (Session World) Raised ProgressView := do
  requireInvestigating ports incidentId
  let stored ← loadProgress ports incidentId
  let base ← progressOrNew ports incidentId stored
  setPaused ports base paused
  getProgress ports incidentId

/-- `ControlInvestigation.pause` -/
def pause (incidentId : Uuid) : Proc (Session World) Raised ProgressView :=
  controlPause ports incidentId true

/-- `ControlInvestigation.resume` -/
def resume (incidentId : Uuid) : Proc (Session World) Raised ProgressView :=
  controlPause ports incidentId false

def control (incidentId : Uuid) : ControlCall → Proc (Session World) Raised ControlAnswer
  | .pause => do
    let view ← pause ports incidentId
    pure (.progress view)
  | .resume => do
    let view ← resume ports incidentId
    pure (.progress view)
  | .review call => do
    let view ← transitionRca ports incidentId call
    pure (.progress view)
  | .transition newState => do
    let incident ← transitionIncident ports incidentId newState
    pure (.incident incident)

/-- One request about the incident, in whatever world it then finds. -/
def ControlStep (incidentId : Uuid) (worker : Worker World) (call : ControlCall × World)
    (next : Worker World) : Prop :=
  next = (inSession ports (control ports incidentId call.1) (worker.inWorld call.2)).2

end Calls

/-- The incident is there and under investigation. -/
def Investigates (incidentId : Uuid) (db : Db) : Prop :=
  ∃ row, db.incidents.find? (fun row => row.id = incidentId) = some row ∧
    row.state = .investigating

/-- The flag and the status of the stored progress agree. -/
def PauseAgrees (incidentId : Uuid) (db : Db) : Prop :=
  ∀ progress, storedProgress incidentId db = some progress →
    (progress.paused = true ↔ progress.status = .paused)

/-- The stored progress is paused. -/
def IsPaused (incidentId : Uuid) (db : Db) : Prop :=
  ∃ progress, storedProgress incidentId db = some progress ∧ progress.paused = true

section Tables

variable {incidentId : Uuid} {db other : Db}

theorem storedProgress_congr (h : other.progress = db.progress) :
    storedProgress incidentId other = storedProgress incidentId db := by
  unfold storedProgress
  rw [h]

theorem investigates_congr (h : other.incidents = db.incidents) :
    Investigates incidentId other ↔ Investigates incidentId db := by
  unfold Investigates
  rw [h]

/-- Saved progress is the row of its incident. -/
theorem storedProgress_saveProgressRow {progress : InvestigationProgress}
    (h : progress.incidentId = incidentId) :
    storedProgress incidentId (saveProgressRow progress db) = some progress := by
  have hnone : (db.progress.filter fun row => row.incidentId ≠ progress.incidentId).find?
      (fun row => row.incidentId = incidentId) = none := by
    refine List.find?_eq_none.mpr fun row hrow => ?_
    have := (List.mem_filter.mp hrow).2
    rw [h] at this
    simpa using this
  unfold storedProgress saveProgressRow
  dsimp only
  rw [List.find?_append, hnone, Option.none_or]
  simp [h]

theorem reviewedDb_progress (latest : RcaReport) (reviewStatus : RcaReviewStatus) (db : Db) :
    (reviewedDb latest reviewStatus db).progress = db.progress := by
  unfold reviewedDb
  split <;> rfl

theorem storedProgress_incidentId {progress : InvestigationProgress}
    (h : storedProgress incidentId db = some progress) : progress.incidentId = incidentId := by
  simpa using List.find?_some h

theorem progressOf_incidentId {order : StepOrder} {progress : InvestigationProgress}
    (h : progressOf order incidentId db = some progress) : progress.incidentId = incidentId := by
  obtain ⟨row, hrow, rfl⟩ := Option.map_eq_some_iff.mp h
  have hid : row.incidentId = incidentId := storedProgress_incidentId hrow
  exact hid

theorem pauseAgrees_saveProgressRow {progress : InvestigationProgress}
    (hid : progress.incidentId = incidentId)
    (h : progress.paused = true ↔ progress.status = .paused) :
    PauseAgrees incidentId (saveProgressRow progress db) := by
  intro stored hstored
  rw [storedProgress_saveProgressRow hid] at hstored
  cases hstored
  exact h

theorem isPaused_saveProgressRow {progress : InvestigationProgress}
    (hid : progress.incidentId = incidentId) :
    IsPaused incidentId (saveProgressRow progress db) ↔ progress.paused = true := by
  unfold IsPaused
  rw [storedProgress_saveProgressRow hid]
  simp

theorem isPaused_congr (h : other.progress = db.progress) :
    IsPaused incidentId other ↔ IsPaused incidentId db := by
  unfold IsPaused
  rw [storedProgress_congr h]

theorem pauseAgrees_congr (h : other.progress = db.progress) :
    PauseAgrees incidentId other ↔ PauseAgrees incidentId db := by
  unfold PauseAgrees
  rw [storedProgress_congr h]

theorem not_investigates_moved {row moved : Incident} {newState : IncidentState} {moment : Instant}
    (hrow : db.incidents.find? (fun row => row.id = incidentId) = some row)
    (hmove : (toDomain row).transitionTo newState moment = .ok moved)
    (hstate : row.state = .investigating) (hincidents : other.incidents = db.incidents) :
    ¬Investigates incidentId (saveIncident moved other) := by
  obtain ⟨hcan, hmoved⟩ := transitionTo_ok hmove
  have hid : moved.id = incidentId := by
    have : row.id = incidentId := by simpa using List.find?_some hrow
    rw [hmoved]
    exact this
  rintro ⟨found, hfound, hfoundState⟩
  have hafter : (saveIncident moved other).incidents.find? (fun row => row.id = moved.id) =
      some (applyToOrm moved row) := by
    refine find_saveIncident ?_
    rw [hincidents, hid]
    exact hrow
  rw [← hid, hafter] at hfound
  cases hfound
  have hnew : newState = .investigating := by
    rw [← hfoundState, hmoved]
    rfl
  have hrank := canTransition_rank hcan
  rw [hnew] at hrank
  change row.state.rank < _ at hrank
  rw [hstate] at hrank
  exact absurd hrank (lt_irrefl _)

end Tables

section Requests

variable {World : Type} {ports : WorkerPorts World} {incidentId : Uuid} {s t : Session World}
  {view : ProgressView}

theorem requireInvestigating_ok (h : requireInvestigating ports incidentId s = (.ok (), t)) :
    t.db = s.db ∧ Investigates incidentId s.db := by
  obtain ⟨incident, u, hfound, h⟩ := bind_eq_ok.mp h
  obtain ⟨hu, row, hrow, rfl⟩ := requireIncident_ok hfound
  split at h
  next hstate =>
    cases h
    exact ⟨hu, row, hrow, hstate⟩
  next => cases h

theorem setPaused_ok {base : InvestigationProgress} {paused : Bool}
    (h : setPaused ports base paused s = (.ok (), t)) :
    (base.paused = paused ∧ t.db = s.db) ∨
      (base.paused ≠ paused ∧ ∃ now, t.db = saveProgressRow (base.withPause paused now) s.db) := by
  unfold setPaused at h
  split at h
  next hsame =>
    cases h
    exact .inl ⟨hsame, rfl⟩
  next hother =>
    obtain ⟨now, u, hnow, h⟩ := bind_eq_ok.mp h
    refine .inr ⟨hother, now, ?_⟩
    rw [(write_ok h).2.db, sessionDraw_ok hnow]

/-- The stored or new progress is paused or not, as it was asked to be. -/
theorem controlPause_ok {paused : Bool}
    (h : controlPause ports incidentId paused s = (.ok view, t)) :
    Investigates incidentId s.db ∧ t.db.incidents = s.db.incidents ∧
      ∃ base : InvestigationProgress, base.incidentId = incidentId ∧
        ((∃ order, progressOf order incidentId s.db = some base) ∨
          (storedProgress incidentId s.db = none ∧ base.paused = false)) ∧
        ((base.paused = paused ∧ t.db = s.db) ∨
          (base.paused ≠ paused ∧
            ∃ now, t.db = saveProgressRow (base.withPause paused now) s.db)) := by
  obtain ⟨_, u, hguard, h⟩ := bind_eq_ok.mp h
  obtain ⟨hu, hinvestigates⟩ := requireInvestigating_ok hguard
  obtain ⟨stored, v, hstored, h⟩ := bind_eq_ok.mp h
  obtain ⟨hv, order, rfl⟩ := loadProgress_ok hstored
  obtain ⟨base, w, hbase, h⟩ := bind_eq_ok.mp h
  obtain ⟨hw, hbase⟩ := progressOrNew_ok hbase
  obtain ⟨_, x, hset, h⟩ := bind_eq_ok.mp h
  have hview := getProgress_ok h
  have hset := setPaused_ok hset
  rw [hw, hv, hu] at hset
  rw [hu] at hbase
  refine ⟨hinvestigates, ?_, base, ?_, ?_, ?_⟩
  · rw [hview]
    rcases hset with ⟨_, hx⟩ | ⟨_, now, hx⟩
    · rw [hx]
    · rw [hx]
      rfl
  · rcases hbase with hstored | ⟨created, _, rfl⟩
    · exact progressOf_incidentId hstored
    · rfl
  · rcases hbase with hstored | ⟨created, hnone, rfl⟩
    · exact .inl ⟨order, hstored⟩
    · exact .inr ⟨Option.map_eq_none_iff.mp hnone, rfl⟩
  · rw [hview]
    exact hset

theorem controlPause_keeps {paused : Bool}
    (agrees : PauseAgrees incidentId s.db)
    (h : controlPause ports incidentId paused s = (.ok view, t)) :
    PauseAgrees incidentId t.db ∧ Investigates incidentId t.db ∧
      (IsPaused incidentId t.db → paused = true) := by
  obtain ⟨hinvestigates, hincidents, base, hid, hbase, ⟨hsame, ht⟩ | ⟨_, now, ht⟩⟩ :=
    controlPause_ok h
  · refine ⟨ht ▸ agrees, (investigates_congr hincidents).mpr hinvestigates, ?_⟩
    rintro ⟨progress, hprogress, hpaused⟩
    rw [ht] at hprogress
    rcases hbase with ⟨order, hstored⟩ | ⟨hnone, _⟩
    · obtain ⟨row, hrow, rfl⟩ := Option.map_eq_some_iff.mp hstored
      cases hrow.symm.trans hprogress
      have hread : (order.read progress).paused = progress.paused := rfl
      exact hsame.symm.trans (hread.trans hpaused)
    · rw [hnone] at hprogress
      cases hprogress
  · have hsaved : (base.withPause paused now).incidentId = incidentId := hid
    refine ⟨?_, (investigates_congr hincidents).mpr hinvestigates, ?_⟩
    · rw [ht]
      refine pauseAgrees_saveProgressRow hsaved ?_
      unfold InvestigationProgress.withPause
      dsimp only
      cases paused with
      | true => simp
      | false =>
        by_cases hstatus : base.status = .paused
        · simp [hstatus]
        · simp [hstatus]
    · intro hpaused
      rw [ht, isPaused_saveProgressRow hsaved] at hpaused
      exact hpaused

/-- The stored progress is paused only while the incident is under investigation. -/
structure PausedWhileInvestigating (incidentId : Uuid) (db : Db) : Prop where
  agrees : PauseAgrees incidentId db
  investigated : IsPaused incidentId db → Investigates incidentId db

/-- Accepting and transitioning are the calls that can take the incident out of its investigation
and do not touch the progress. -/
def ControlCall.MayEnd : ControlCall → Prop
  | .pause => False
  | .resume => False
  | .review .accept => True
  | .review .reject => False
  | .review (.amend _) => False
  | .transition _ => True

/-- A call that ends the investigation and leaves the progress keeps the order of an incident that
is not paused. -/
theorem paused_of_ends {db other : Db} (before : PausedWhileInvestigating incidentId db)
    (progress : other.progress = db.progress)
    (ends : Investigates incidentId db → ¬Investigates incidentId other) :
    PausedWhileInvestigating incidentId other ↔ ¬IsPaused incidentId db := by
  constructor
  · intro after hpaused
    exact ends (before.investigated hpaused)
      (after.investigated ((isPaused_congr progress).mpr hpaused))
  · intro hpaused
    exact ⟨(pauseAgrees_congr progress).mpr before.agrees,
      fun h => absurd ((isPaused_congr progress).mp h) hpaused⟩

theorem accept_paused (before : PausedWhileInvestigating incidentId s.db)
    (h : accept ports incidentId s = (.ok view, t)) :
    PausedWhileInvestigating incidentId t.db ↔ ¬IsPaused incidentId s.db := by
  obtain ⟨row, report, hrow, _, hcases⟩ := accept_ok h
  refine paused_of_ends before ?_ ?_
  · rcases hcases with ⟨_, hdb⟩ | ⟨moment, moved, _, _, hdb⟩
    · rw [hdb, reviewedDb_progress]
    · rw [hdb]
      exact reviewedDb_progress _ _ _
  · rintro ⟨other, hother, hstate⟩
    cases hother.symm.trans hrow
    rcases hcases with ⟨hne, _⟩ | ⟨moment, moved, _, hmove, hdb⟩
    · exact absurd hstate hne
    · rw [hdb]
      exact not_investigates_moved hrow hmove hstate (reviewedDb_incidents _ _ _)

theorem transitionIncident_paused {newState : IncidentState} {persisted : Incident}
    (before : PausedWhileInvestigating incidentId s.db)
    (h : transitionIncident ports incidentId newState s = (.ok persisted, t)) :
    PausedWhileInvestigating incidentId t.db ↔ ¬IsPaused incidentId s.db := by
  obtain ⟨row, moment, moved, hrow, hmove, hdb⟩ := transitionIncident_ok h
  refine paused_of_ends before ?_ ?_
  · rw [hdb]
    rfl
  · rintro ⟨other, hother, hstate⟩
    cases hother.symm.trans hrow
    rw [hdb]
    exact not_investigates_moved hrow hmove hstate rfl

theorem reject_paused (h : reject ports incidentId s = (.ok view, t)) :
    PausedWhileInvestigating incidentId t.db := by
  obtain ⟨row, report, base, now, notes, _, _, hbase, hdb⟩ := reject_ok h
  have hid : (base.withRejection now).incidentId = incidentId := by
    rcases hbase with ⟨order, hstored⟩ | ⟨created, _, rfl⟩
    · have : base.incidentId = incidentId := progressOf_incidentId hstored
      exact this
    · rfl
  have hprogress : t.db.progress = (saveProgressRow (base.withRejection now)
      (reviewedDb (rcaToDomain report) .rejected s.db)).progress := by
    rw [hdb]
  refine ⟨(pauseAgrees_congr hprogress).mpr (pauseAgrees_saveProgressRow hid ?_), fun h => ?_⟩
  · simp [InvestigationProgress.withRejection]
  · rw [isPaused_congr hprogress, isPaused_saveProgressRow hid] at h
    cases h

theorem amend_paused {command : AmendRcaCommand}
    (before : PausedWhileInvestigating incidentId s.db)
    (h : amend ports incidentId command s = (.ok view, t)) :
    PausedWhileInvestigating incidentId t.db := by
  obtain ⟨_, _, _, _, _, _, _, _, _, _, _, _, hdb⟩ := amend_ok h
  have hprogress : t.db.progress = s.db.progress := by rw [hdb]
  have hincidents : t.db.incidents = s.db.incidents := by rw [hdb]
  exact ⟨(pauseAgrees_congr hprogress).mpr before.agrees, fun h =>
    (investigates_congr hincidents).mpr (before.investigated ((isPaused_congr hprogress).mp h))⟩

/-- A call that returns leaves the pause in order, unless it ends the investigation of a paused
incident. -/
theorem control_paused {call : ControlCall} {answered : ControlAnswer}
    (before : PausedWhileInvestigating incidentId s.db)
    (h : control ports incidentId call s = (.ok answered, t)) :
    PausedWhileInvestigating incidentId t.db ↔
      ¬(call.MayEnd ∧ IsPaused incidentId s.db) := by
  cases call with
  | pause =>
    obtain ⟨view, u, hcall, h⟩ := bind_eq_ok.mp h
    cases h
    obtain ⟨agrees, hinvestigates, _⟩ := controlPause_keeps before.agrees hcall
    exact iff_of_true ⟨agrees, fun _ => hinvestigates⟩ fun h => h.1
  | resume =>
    obtain ⟨view, u, hcall, h⟩ := bind_eq_ok.mp h
    cases h
    obtain ⟨agrees, hinvestigates, _⟩ := controlPause_keeps before.agrees hcall
    exact iff_of_true ⟨agrees, fun _ => hinvestigates⟩ fun h => h.1
  | review call =>
    obtain ⟨view, u, hcall, h⟩ := bind_eq_ok.mp h
    cases h
    cases call with
    | accept =>
      rw [accept_paused before hcall]
      exact not_congr ⟨fun h => ⟨trivial, h⟩, fun h => h.2⟩
    | reject => exact iff_of_true (reject_paused hcall) fun h => h.1
    | amend command => exact iff_of_true (amend_paused before hcall) fun h => h.1
  | transition newState =>
    obtain ⟨persisted, u, hcall, h⟩ := bind_eq_ok.mp h
    cases h
    rw [transitionIncident_paused before hcall]
    exact not_congr ⟨fun h => ⟨trivial, h⟩, fun h => h.2⟩

theorem raises_requireIncident : Raises (requireIncident ports incidentId)
    fun raised => ∃ text, raised = .other text := by
  refine raises_bind (raises_bind raises_statement fun _ => raises_read _) fun found => ?_
  cases found with
  | none => exact raises_raise ⟨_, rfl⟩
  | some incident => exact raises_pure _

theorem raises_select {Value : Type} (f : Db → Value) : Raises (select ports f)
    fun raised => ∃ text, raised = .other text :=
  raises_bind raises_statement fun _ => raises_read _

theorem raises_loadProgress : Raises (loadProgress ports incidentId)
    fun raised => ∃ text, raised = .other text :=
  raises_bind (raises_sessionDraw _) fun _ => raises_select _

theorem raises_getProgress : Raises (getProgress ports incidentId)
    fun raised => ∃ text, raised = .other text :=
  raises_bind raises_requireIncident fun _ => raises_bind raises_loadProgress fun _ =>
    raises_bind (raises_select _) fun _ => raises_bind (raises_select _) fun _ => raises_pure _

theorem raises_progressOrNew (stored : Option InvestigationProgress) :
    Raises (progressOrNew ports incidentId stored) fun raised => ∃ text, raised = .other text := by
  cases stored with
  | none => exact raises_bind (raises_sessionDraw _) fun _ => raises_pure _
  | some progress => exact raises_pure _

theorem raises_setPaused (base : InvestigationProgress) (paused : Bool) :
    Raises (setPaused ports base paused) fun raised => ∃ text, raised = .other text := by
  unfold setPaused
  split
  · exact raises_pure _
  · exact raises_bind (raises_sessionDraw _) fun _ => raises_write _ _

theorem controlPause_raises {paused : Bool} {raised : Raised}
    (investigates : Investigates incidentId s.db)
    (h : controlPause ports incidentId paused s = (.error raised, t)) :
    ∃ text, raised = .other text := by
  rcases bind_eq_error.mp h with hguard | ⟨_, u, _, h⟩
  · rcases bind_eq_error.mp hguard with hfound | ⟨incident, u, hfound, hstate⟩
    · exact raises_requireIncident _ _ _ hfound
    · obtain ⟨_, row, hrow, rfl⟩ := requireIncident_ok hfound
      obtain ⟨other, hother, hinvestigating⟩ := investigates
      cases hother.symm.trans hrow
      have hpass : (toDomain row).state = .investigating := hinvestigating
      rw [if_pos hpass] at hstate
      cases hstate
  · exact raises_bind raises_loadProgress (fun stored => raises_bind (raises_progressOrNew stored)
      fun base => raises_bind (raises_setPaused base paused) fun _ => raises_getProgress) _ _ _ h

/-- A paused investigation is under way, and resuming it is refused by no check and clears it. -/
structure PauseClearable (ports : WorkerPorts World) (incidentId : Uuid) (worker : Worker World) :
    Prop extends PausedWhileInvestigating incidentId worker.db where
  permitted : IsPaused incidentId worker.db → ∀ world text,
    (inSession ports (resume ports incidentId) (worker.inWorld world)).1 ≠ .error (.invalid text)
  cleared : ∀ world view next,
    inSession ports (resume ports incidentId) (worker.inWorld world) = (.ok view, next) →
      ¬IsPaused incidentId next.db

theorem pauseClearable_iff {worker : Worker World} :
    PauseClearable ports incidentId worker ↔ PausedWhileInvestigating incidentId worker.db := by
  refine ⟨fun h => h.toPausedWhileInvestigating, fun h => ⟨h, fun hpaused world text => ?_,
    fun world view next hresume hpaused => ?_⟩⟩
  · rcases inSession_cases ports (resume ports incidentId) (worker.inWorld world) with
      ⟨raised, process, hsession, ⟨s, hcall⟩ | ⟨other, rfl⟩⟩ | ⟨view, s, process, _, hsession⟩
    · obtain ⟨other, rfl⟩ := controlPause_raises (h.investigated hpaused) hcall
      rw [hsession]
      simp
    · rw [hsession]
      simp
    · rw [hsession]
      simp
  · rcases inSession_cases ports (resume ports incidentId) (worker.inWorld world) with
      ⟨raised, process, hsession, _⟩ | ⟨answered, s, process, hcall, hsession⟩
    · rw [hsession] at hresume
      cases hresume
    · rw [hsession] at hresume
      cases hresume
      obtain ⟨_, _, hflag⟩ := controlPause_keeps h.agrees hcall
      cases hflag hpaused

/-- The call goes through, and the investigation that it may end is paused. -/
def EndsPaused (ports : WorkerPorts World) (incidentId : Uuid) (worker : Worker World)
    (call : ControlCall × World) : Prop :=
  (inSession ports (control ports incidentId call.1) (worker.inWorld call.2)).1.isOk = true ∧
    call.1.MayEnd ∧ IsPaused incidentId worker.db

theorem controlStep_paused {worker next : Worker World} {call : ControlCall × World}
    (before : PausedWhileInvestigating incidentId worker.db)
    (h : ControlStep ports incidentId worker call next) :
    PausedWhileInvestigating incidentId next.db ↔ ¬EndsPaused ports incidentId worker call := by
  rw [ControlStep] at h
  subst h
  unfold EndsPaused
  rcases inSession_cases ports (control ports incidentId call.1) (worker.inWorld call.2) with
    ⟨raised, process, hsession, _⟩ | ⟨answered, s, process, hcall, hsession⟩
  · rw [hsession]
    exact iff_of_true before fun h => by cases h.1
  · rw [hsession]
    have hdb : (worker.inWorld call.2).db = worker.db := rfl
    rw [hdb] at hcall
    generalize (worker.inWorld call.2).process = inner at hcall
    have := control_paused (s := ⟨worker.db, inner, false⟩) before hcall
    dsimp only at this ⊢
    rw [this]
    simp [Except.isOk, Except.toBool]

/-- Neither `accept` nor a transition clears the flag: a pause stays clearable exactly as long as
no such call that goes through finds it set. -/
theorem pause_clearable_iff {start : Worker World}
    {path : List ((ControlCall × World) × Worker World)}
    (investigates : Investigates incidentId start.db) (agrees : PauseAgrees incidentId start.db)
    (run : Path (ControlStep ports incidentId) start path) :
    (∀ worker ∈ visited start path, PauseClearable ports incidentId worker) ↔
      Meets (fun worker call => ¬EndsPaused ports incidentId worker call) start path :=
  @always_iff_meets _ _ _ _ _ _ (fun worker => PauseClearable ports incidentId worker)
    (fun _ => True) (fun _ _ _ _ _ _ => trivial)
    (fun _ _ _ before _ hstep => by
      rw [pauseClearable_iff] at before ⊢
      exact controlStep_paused before hstep)
    run (pauseClearable_iff.mpr ⟨agrees, fun _ => investigates⟩) trivial

end Requests

/-- The worker after a request at the given time. -/
def controlled (worker : Worker Script) (call : ControlCall × Script) : Worker Script :=
  (inSession scripted (control scripted 10 call.1) (worker.inWorld call.2)).2

def pauseFirst : ControlCall × Script := (.pause, ⟨1, 100, [], [], []⟩)

def acceptPaused : ControlCall × Script := (.review .accept, ⟨2, 200, [], [], []⟩)

theorem reviewWorker_investigates : Investigates 10 reviewWorker.db := ⟨_, rfl, rfl⟩

theorem reviewWorker_agrees : PauseAgrees 10 reviewWorker.db := by
  intro progress h
  cases h

def resumePaused : ControlCall × Script := (.resume, ⟨2, 200, [], [], []⟩)

def acceptResumed : ControlCall × Script := (.review .accept, ⟨3, 300, [], [], []⟩)

def pausedReview : Worker Script := controlled reviewWorker pauseFirst

def resumedReview : Worker Script := controlled pausedReview resumePaused

/-- A pause, its end, and then the acceptance that ends the investigation. -/
theorem paused_is_clearable :
    Path (ControlStep scripted 10) reviewWorker [(pauseFirst, pausedReview),
      (resumePaused, resumedReview), (acceptResumed, controlled resumedReview acceptResumed)] ∧
    (controlled resumedReview acceptResumed).db.incidents.map Incident.state = [.identified] ∧
    ∀ worker ∈ visited reviewWorker [(pauseFirst, pausedReview), (resumePaused, resumedReview),
      (acceptResumed, controlled resumedReview acceptResumed)],
        PauseClearable scripted 10 worker := by
  have run : Path (ControlStep scripted 10) reviewWorker [(pauseFirst, pausedReview),
      (resumePaused, resumedReview), (acceptResumed, controlled resumedReview acceptResumed)] :=
    Path.next rfl (Path.next rfl (Path.next rfl Path.stop))
  obtain ⟨hidentified, hflag⟩ :
      (controlled resumedReview acceptResumed).db.incidents.map Incident.state = [.identified] ∧
        (storedProgress 10 resumedReview.db).map InvestigationProgress.paused = some false := by
    decide +kernel
  refine ⟨run, hidentified,
    (pause_clearable_iff reviewWorker_investigates reviewWorker_agrees run).mpr
      ⟨fun h => h.2.1, fun h => h.2.1, fun h => ?_, trivial⟩⟩
  obtain ⟨-, -, progress, hprogress, hpaused⟩ := h
  rw [hprogress, Option.map_some, hpaused] at hflag
  cases hflag

def acceptedWhilePaused : Worker Script :=
  controlled (controlled reviewWorker pauseFirst) acceptPaused

/-- The RCA of a paused investigation is accepted, and the pause can then not be resumed. -/
theorem accepted_while_paused : ∃ path,
    Investigates 10 reviewWorker.db ∧ PauseAgrees 10 reviewWorker.db ∧
      Path (ControlStep scripted 10) reviewWorker path ∧
      ∃ worker ∈ visited reviewWorker path,
        IsPaused 10 worker.db ∧ ¬Investigates 10 worker.db ∧
        (inSession scripted (resume scripted 10) worker).1 =
          .error (.invalid "Pause and resume apply only while investigating.") := by
  refine ⟨[(pauseFirst, controlled reviewWorker pauseFirst), (acceptPaused, acceptedWhilePaused)],
    reviewWorker_investigates, reviewWorker_agrees, Path.next rfl (Path.next rfl Path.stop),
    acceptedWhilePaused, by simp, ?_, ?_, ?_⟩
  · have hflag : (storedProgress 10 acceptedWhilePaused.db).map InvestigationProgress.paused =
        some true := by decide +kernel
    obtain ⟨progress, hprogress, hpaused⟩ := Option.map_eq_some_iff.mp hflag
    exact ⟨progress, hprogress, hpaused⟩
  · rintro ⟨row, hrow, hstate⟩
    have hstates : acceptedWhilePaused.db.incidents.map Incident.state = [.identified] := by
      decide +kernel
    have hmem := List.mem_map_of_mem (f := Incident.state) (List.mem_of_find?_eq_some hrow)
    rw [hstates, hstate] at hmem
    simp at hmem
  · have hrefused : (match (inSession scripted (resume scripted 10) acceptedWhilePaused).1 with
        | .error raised => some raised
        | .ok _ => none) =
          some (.invalid "Pause and resume apply only while investigating.") := by decide +kernel
    rcases hresume : (inSession scripted (resume scripted 10) acceptedWhilePaused).1 with
      raised | view
    · rw [hresume] at hrefused
      rw [Option.some.inj hrefused]
    · rw [hresume] at hrefused
      cases hrefused

end Aegis
