import Aegis.PauseControl

namespace Aegis

open Raising Proc StepPath TimeOrder

/-- `_inferred_status` -/
def inferredStatus (state : IncidentState) (reports : List RcaReport) (paused : Bool) :
    InvestigationRunStatus :=
  if paused then .paused
  else
    match reports.getLast? with
    | some latest => if latest.reviewStatus = .rejected then .escalated else .pendingReview
    | none => if state = .investigating then .running else .notStarted

/-- The status that `assemble_progress` shows. -/
def ProgressView.status (view : ProgressView) : InvestigationRunStatus :=
  match view.stored with
  | some stored => stored.status
  | none => inferredStatus view.incident.state view.reports false

/-- What `GetInvestigationProgress.execute` reads from a store that orders the steps so. -/
def viewAt (order : StepOrder) (incidentId : Uuid) (db : Db) : Option ProgressView :=
  (db.incidents.find? fun row => row.id = incidentId).map fun row =>
    ⟨toDomain row, progressOf order incidentId db,
      db.evidence.filter fun row => row.incidentId = incidentId, reportsOf incidentId db⟩

/-- The two agree in all but the time of their last change. -/
structure SameProgress (before after : InvestigationProgress) : Prop where
  status : after.status = before.status
  hops : after.hops = before.hops
  escalateReason : after.escalateReason = before.escalateReason
  paused : after.paused = before.paused
  steps : after.steps = before.steps

/-- The progress of the incident reads the same in both, however the store orders steps of one
time. -/
def ReadsSame (incidentId : Uuid) (earlier later : Db) : Prop :=
  ∀ order other, ∃ before after, progressOf order incidentId earlier = some before ∧
    progressOf other incidentId later = some after ∧ SameProgress before after

/-- No two steps have one time. -/
def StepsApart (progress : InvestigationProgress) : Prop :=
  ∀ a ∈ progress.steps, ∀ b ∈ progress.steps, a.occurredAt = b.occurredAt → a = b

/-- The rows agree in what a pause leaves alone; their steps may be in another order. -/
structure AlikeRow (stored row : InvestigationProgress) : Prop where
  hops : row.hops = stored.hops
  escalateReason : strip row.escalateReason = strip stored.escalateReason
  steps : row.steps.Perm stored.steps

/-- The flag that a pause or a resume sets. -/
def ControlCall.flag : ControlCall → Option Bool
  | .pause => some true
  | .resume => some false
  | .review _ => none
  | .transition _ => none

def ControlCall.SetsFlag (call : ControlCall) : Prop := ∃ paused, call.flag = some paused

section Rows

variable {incidentId : Uuid} {earlier later : Db} {stored row : InvestigationProgress}

theorem AlikeRow.refl (stored : InvestigationProgress) : AlikeRow stored stored :=
  ⟨rfl, rfl, List.Perm.refl _⟩

theorem AlikeRow.withPause {order : StepOrder} {paused : Bool} {now : Instant}
    (h : AlikeRow stored row) : AlikeRow stored ((order.read row).withPause paused now) := by
  refine ⟨h.hops, ?_, (order.ordered row.steps).perm.trans h.steps⟩
  change strip (strip (strip row.escalateReason)) = strip stored.escalateReason
  rw [strip_strip, strip_strip, h.escalateReason]

/-- Every order of the times of some steps is one that a store may give. -/
theorem exists_order {steps rows : List InvestigationStep}
    (h : Ordered InvestigationStep.occurredAt steps rows) :
    ∃ order : StepOrder, order.arrange steps = rows := by
  classical
  refine ⟨⟨fun others => if others = steps then rows else StepOrder.written.arrange others,
    fun others => ?_⟩, if_pos rfl⟩
  split
  next hsame =>
    rw [hsame]
    exact h
  next => exact StepOrder.written.ordered others

/-- Rows that agree in status and flag too read the same exactly when their steps have one order. -/
theorem readsSame_iff (hstored : storedProgress incidentId earlier = some stored)
    (hrow : storedProgress incidentId later = some row) (same : AlikeRow stored row)
    (status : row.status = stored.status) (paused : row.paused = stored.paused) :
    ReadsSame incidentId earlier later ↔ StepsApart stored := by
  have hearlier : ∀ order, progressOf order incidentId earlier = some (order.read stored) :=
    fun order => congrArg (Option.map order.read) hstored
  have hlater : ∀ order, progressOf order incidentId later = some (order.read row) :=
    fun order => congrArg (Option.map order.read) hrow
  have hone := @ordered_one_iff _ _ _ InvestigationStep.occurredAt stored.steps
  unfold StepsApart
  rw [← hone]
  constructor
  · intro reads
    have hsteps : ∀ rows, Ordered InvestigationStep.occurredAt stored.steps rows →
        rows = StepOrder.written.arrange row.steps := by
      intro rows hrows
      obtain ⟨order, rfl⟩ := exists_order hrows
      obtain ⟨before, after, hbefore, hafter, hsame⟩ := reads order .written
      rw [hearlier] at hbefore
      rw [hlater] at hafter
      cases hbefore
      cases hafter
      exact hsame.steps.symm
    intro rows others hrows hothers
    rw [hsteps rows hrows, hsteps others hothers]
  · intro one order other
    have hsteps : other.arrange row.steps = order.arrange stored.steps :=
      one _ _ ((other.ordered row.steps).of_perm same.steps) (order.ordered stored.steps)
    exact ⟨order.read stored, other.read row, hearlier order, hlater other,
      ⟨status, same.hops, same.escalateReason, paused, hsteps⟩⟩

theorem not_readsSame (hstored : storedProgress incidentId earlier = some stored)
    (hrow : storedProgress incidentId later = some row) (status : row.status ≠ stored.status) :
    ¬ReadsSame incidentId earlier later := by
  intro reads
  obtain ⟨before, after, hbefore, hafter, hsame⟩ := reads .written .written
  have hbefore : some (StepOrder.written.read stored) = some before :=
    (congrArg (Option.map StepOrder.written.read) hstored).symm.trans hbefore
  have hafter : some (StepOrder.written.read row) = some after :=
    (congrArg (Option.map StepOrder.written.read) hrow).symm.trans hafter
  cases hbefore
  cases hafter
  exact status hsame.status

end Rows

section Flag

variable {World : Type} {ports : WorkerPorts World} {incidentId : Uuid} {db : Db}
  {stored row : InvestigationProgress} {s t : Session World} {view : ProgressView}

theorem getProgress_view (h : getProgress ports incidentId s = (.ok view, t)) :
    ∃ order, viewAt order incidentId t.db = some view := by
  have hdb := getProgress_ok h
  obtain ⟨incident, u, hincident, h⟩ := bind_eq_ok.mp h
  obtain ⟨hu, row, hrow, rfl⟩ := requireIncident_ok hincident
  obtain ⟨stored, v, hstored, h⟩ := bind_eq_ok.mp h
  obtain ⟨hv, order, rfl⟩ := loadProgress_ok hstored
  obtain ⟨evidence, w, hevidence, h⟩ := bind_eq_ok.mp h
  obtain ⟨rfl, hw⟩ := select_ok hevidence
  obtain ⟨reports, x, hreports, h⟩ := bind_eq_ok.mp h
  obtain ⟨rfl, hx⟩ := select_ok hreports
  cases h
  refine ⟨order, ?_⟩
  rw [hdb]
  unfold viewAt
  rw [hrow, hw, hv, hu]
  rfl

theorem controlPause_row {paused : Bool}
    (h : controlPause ports incidentId paused s = (.ok view, t))
    (hrow : storedProgress incidentId s.db = some row) :
    (row.paused = paused ∧ storedProgress incidentId t.db = some row) ∨
      (row.paused ≠ paused ∧ ∃ order now,
        storedProgress incidentId t.db = some ((StepOrder.read order row).withPause paused now)) := by
  obtain ⟨_, _, base, hid, hbase, hset⟩ := controlPause_ok h
  obtain ⟨order, rfl⟩ : ∃ order : StepOrder, base = order.read row := by
    rcases hbase with ⟨order, hbase⟩ | ⟨hnone, _⟩
    · obtain ⟨found, hfound, rfl⟩ := Option.map_eq_some_iff.mp hbase
      cases hrow.symm.trans hfound
      exact ⟨order, rfl⟩
    · rw [hrow] at hnone
      cases hnone
  rcases hset with ⟨hsame, ht⟩ | ⟨hother, now, ht⟩
  · refine .inl ⟨hsame, ?_⟩
    rw [ht]
    exact hrow
  · refine .inr ⟨hother, order, now, ?_⟩
    rw [ht]
    exact storedProgress_saveProgressRow hid

theorem controlPause_view {paused : Bool}
    (h : controlPause ports incidentId paused s = (.ok view, t)) :
    ∃ order, viewAt order incidentId t.db = some view := by
  obtain ⟨_, u, _, h⟩ := bind_eq_ok.mp h
  obtain ⟨stored, v, _, h⟩ := bind_eq_ok.mp h
  obtain ⟨base, w, _, h⟩ := bind_eq_ok.mp h
  obtain ⟨_, x, _, h⟩ := bind_eq_ok.mp h
  exact getProgress_view h

theorem viewAt_status {order : StepOrder} (h : viewAt order incidentId db = some view)
    (hrow : storedProgress incidentId db = some row) : view.status = row.status := by
  obtain ⟨incident, _, rfl⟩ := Option.map_eq_some_iff.mp h
  unfold ProgressView.status progressOf
  dsimp only
  rw [hrow]
  rfl

/-- The stored progress has been paused, and then resumed as often or not. -/
def Flagged (incidentId : Uuid) (stored : InvestigationProgress) (db : Db) : Prop :=
  ∃ row, storedProgress incidentId db = some row ∧ AlikeRow stored row ∧
    row.status = if row.paused then .paused else .running

theorem controlPause_flagged {paused : Bool}
    (h : controlPause ports incidentId paused s = (.ok view, t))
    (before : Flagged incidentId stored s.db) :
    Flagged incidentId stored t.db ∧
      ∃ row, storedProgress incidentId t.db = some row ∧ row.paused = paused := by
  obtain ⟨row, hrow, same, hstatus⟩ := before
  rcases controlPause_row h hrow with ⟨hflag, hkept⟩ | ⟨hother, order, now, hnew⟩
  · exact ⟨⟨row, hkept, same, hstatus⟩, row, hkept, hflag⟩
  · refine ⟨⟨_, hnew, same.withPause, ?_⟩, _, hnew, rfl⟩
    change (if paused then _ else if row.status = .paused then _ else row.status) = _
    cases paused with
    | true => rfl
    | false =>
      have hpaused : row.status = .paused := by rw [hstatus, if_pos (by simpa using hother)]
      rw [if_neg Bool.false_ne_true, if_pos hpaused]
      rfl

theorem pause_flagged (hstored : storedProgress incidentId s.db = some stored)
    (hpaused : stored.paused = false)
    (h : controlPause ports incidentId true s = (.ok view, t)) :
    Flagged incidentId stored t.db := by
  rcases controlPause_row h hstored with ⟨hsame, _⟩ | ⟨_, order, now, hnew⟩
  · rw [hpaused] at hsame
    cases hsame
  · exact ⟨_, hnew, (AlikeRow.refl stored).withPause, rfl⟩

theorem resume_settled (hstored : storedProgress incidentId s.db = some stored)
    (hpaused : stored.paused = false)
    (h : controlPause ports incidentId false s = (.ok view, t)) :
    storedProgress incidentId t.db = some stored := by
  rcases controlPause_row h hstored with ⟨_, hsame⟩ | ⟨hother, _⟩
  · exact hsame
  · exact absurd hpaused hother

end Flag

section Calls

variable {World : Type} {ports : WorkerPorts World} {incidentId : Uuid}
  {stored : InvestigationProgress} {worker next start : Worker World}
  {call : ControlCall × World} {path : List ((ControlCall × World) × Worker World)}

/-- A pause that is not rolled back. -/
def PauseGoesThrough (ports : WorkerPorts World) (incidentId : Uuid) (worker : Worker World)
    (call : ControlCall × World) : Prop :=
  call.1 = .pause ∧
    (inSession ports (control ports incidentId call.1) (worker.inWorld call.2)).1.isOk = true

theorem control_flag {request : ControlCall} {paused : Bool} {answer : ControlAnswer}
    {s t : Session World} (flag : request.flag = some paused)
    (h : control ports incidentId request s = (.ok answer, t)) :
    ∃ view, controlPause ports incidentId paused s = (.ok view, t) := by
  cases request with
  | pause =>
    cases flag
    obtain ⟨view, u, hcall, h⟩ := bind_eq_ok.mp h
    cases h
    exact ⟨view, hcall⟩
  | resume =>
    cases flag
    obtain ⟨view, u, hcall, h⟩ := bind_eq_ok.mp h
    cases h
    exact ⟨view, hcall⟩
  | review review => cases flag
  | transition newState => cases flag

theorem flag_true_iff {request : ControlCall} : request.flag = some true ↔ request = .pause := by
  cases request <;> simp [ControlCall.flag]

/-- A call that is rolled back leaves the tables; one that goes through sets the flag. -/
theorem controlStep_flag {paused : Bool} (flag : call.1.flag = some paused)
    (h : ControlStep ports incidentId worker call next) :
    (next.db = worker.db ∧ ¬PauseGoesThrough ports incidentId worker call) ∨
      ∃ view t, controlPause ports incidentId paused
          ⟨worker.db, (worker.inWorld call.2).process, false⟩ = (.ok view, t) ∧
        t.db = next.db ∧ (PauseGoesThrough ports incidentId worker call ↔ paused = true) := by
  rw [ControlStep] at h
  subst h
  unfold PauseGoesThrough
  rw [← flag_true_iff, flag]
  rcases inSession_cases ports (control ports incidentId call.1) (worker.inWorld call.2) with
    ⟨raised, process, hsession, _⟩ | ⟨answer, t, process, hcall, hsession⟩
  · rw [hsession]
    exact .inl ⟨rfl, fun h => by cases h.2⟩
  · obtain ⟨view, hflag⟩ := control_flag flag hcall
    rw [hsession]
    refine .inr ⟨view, t, hflag, rfl, ?_⟩
    simp [Except.isOk, Except.toBool]

theorem path_flagged (sets : ∀ taken ∈ path, taken.1.1.SetsFlag)
    (run : Path (ControlStep ports incidentId) start path)
    (before : Flagged incidentId stored start.db) :
    Flagged incidentId stored (final start path).db := by
  induction run with
  | stop => exact before
  | @next worker call next rest hstep _ ih =>
    obtain ⟨⟨paused, hset⟩, hsets⟩ := List.forall_mem_cons.mp sets
    refine ih hsets ?_
    rcases controlStep_flag hset hstep with ⟨hsame, _⟩ | ⟨view, t, hcall, ht, _⟩
    · rw [hsame]
      exact before
    · rw [← ht]
      exact (controlPause_flagged hcall before).1

theorem path_progress (hpaused : stored.paused = false)
    (sets : ∀ taken ∈ path, taken.1.1.SetsFlag)
    (run : Path (ControlStep ports incidentId) start path)
    (before : storedProgress incidentId start.db = some stored) :
    (Meets (fun worker call => ¬PauseGoesThrough ports incidentId worker call) start path ∧
        storedProgress incidentId (final start path).db = some stored) ∨
      (¬Meets (fun worker call => ¬PauseGoesThrough ports incidentId worker call) start path ∧
        Flagged incidentId stored (final start path).db) := by
  induction run with
  | stop => exact .inl ⟨trivial, before⟩
  | @next worker call next rest hstep hrest ih =>
    obtain ⟨⟨paused, hset⟩, hsets⟩ := List.forall_mem_cons.mp sets
    rw [meets_cons, final_cons]
    rcases controlStep_flag hset hstep with ⟨hsame, hno⟩ | ⟨view, t, hcall, ht, hgoes⟩
    · rcases ih hsets (by rw [hsame]; exact before) with ⟨hmeets, hkept⟩ | ⟨hmeets, hflagged⟩
      · exact .inl ⟨⟨hno, hmeets⟩, hkept⟩
      · exact .inr ⟨fun h => hmeets h.2, hflagged⟩
    · cases paused with
      | true =>
        have hflagged := pause_flagged before hpaused hcall
        rw [ht] at hflagged
        exact .inr ⟨fun h => h.1 (hgoes.mpr rfl), path_flagged hsets hrest hflagged⟩
      | false =>
        have hkept := resume_settled before hpaused hcall
        rw [ht] at hkept
        have hno : ¬PauseGoesThrough ports incidentId worker call := fun h => by cases hgoes.mp h
        rcases ih hsets hkept with ⟨hmeets, hkept⟩ | ⟨hmeets, hflagged⟩
        · exact .inl ⟨⟨hno, hmeets⟩, hkept⟩
        · exact .inr ⟨fun h => hmeets h.2, hflagged⟩

end Calls

/-- An investigation whose RCA waits for a review. -/
def pendingProgress : InvestigationProgress where
  incidentId := 10
  hops := 3
  status := .pendingReview
  escalateReason := ""
  paused := false
  steps := []
  updatedAt := 0
  hops_nonneg := by decide

def pendingWorker : Worker Script :=
  { reviewWorker with db := { reviewWorker.db with progress := [pendingProgress] } }

def resumedWorker (worker : Worker Script) : Worker Script :=
  (inSession scripted (resume scripted 10) (worker.inWorld ⟨3, 300, [], [], []⟩)).2

theorem resumed_ok {worker : Worker Script} (h : (inSession scripted (resume scripted 10)
    (worker.inWorld ⟨3, 300, [], [], []⟩)).1.isOk = true) :
    ∃ view, inSession scripted (resume scripted 10) (worker.inWorld ⟨3, 300, [], [], []⟩) =
      (.ok view, resumedWorker worker) := by
  unfold resumedWorker
  cases hcall : inSession scripted (resume scripted 10) (worker.inWorld ⟨3, 300, [], [], []⟩) with
  | mk answer next =>
    rw [hcall] at h
    cases answer with
    | error raised => cases h
    | ok view => exact ⟨view, rfl⟩

/-- A running investigation with two steps, one after the other. -/
def runningProgress : InvestigationProgress where
  incidentId := 10
  hops := 2
  status := .running
  escalateReason := ""
  paused := false
  steps := [⟨0, 10, "intake", .completed, "intake ok", 10⟩,
    ⟨1, 10, "commander", .completed, "commander hop=1", 20⟩]
  updatedAt := 20
  hops_nonneg := by decide

def runningWorker : Worker Script :=
  { reviewWorker with db := { reviewWorker.db with progress := [runningProgress] } }

end Aegis
