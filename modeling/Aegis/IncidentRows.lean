import Aegis.IncidentSignals
import Aegis.RcaRoundTrip

namespace Aegis

open Raising

/-- A timezone-aware `datetime`: its moment and its offset from UTC, in microseconds. -/
structure Aware where
  moment : Instant
  offset : Int

/-- The date and the time that `isoformat` writes. -/
def isoClock (clock : Int) : String :=
  let micros := clock % 1000000
  let seconds := clock / 1000000 % 86400
  let (year, month, day) := civil (clock / 86400000000)
  decimal 4 year.toNat ++ "-" ++ decimal 2 month.toNat ++ "-" ++ decimal 2 day.toNat ++ "T" ++
    decimal 2 (seconds / 3600).toNat ++ ":" ++ decimal 2 (seconds / 60 % 60).toNat ++ ":" ++
    decimal 2 (seconds % 60).toNat ++ (if micros = 0 then "" else "." ++ decimal 6 micros.toNat)

/-- The offset that `isoformat` writes. -/
def isoOffset (offset : Int) : String :=
  let micros := offset.natAbs
  (if offset < 0 then "-" else "+") ++ decimal 2 (micros / 3600000000) ++ ":" ++
    decimal 2 (micros / 60000000 % 60) ++
    (if micros % 60000000 = 0 then ""
    else ":" ++ decimal 2 (micros / 1000000 % 60) ++
      (if micros % 1000000 = 0 then "" else "." ++ decimal 6 (micros % 1000000)))

/-- `moment.isoformat()` of a moment of any time zone. -/
def Aware.isoformat (occurredAt : Aware) : String :=
  isoClock (occurredAt.moment + occurredAt.offset) ++ isoOffset occurredAt.offset

theorem isoformat_utc (moment : Instant) : Aware.isoformat ⟨moment, 0⟩ = isoformat moment := by
  have zone : isoOffset 0 = "+00:00" := by decide
  rw [Aware.isoformat, Int.add_zero, zone]
  unfold isoClock isoformat
  rfl

/-- `Incident.note_duplicate_signal` of a moment of any time zone. -/
def Incident.noteDuplicate (incident : Incident) (occurredAt : Aware) : Incident :=
  let line := "duplicate signal at " ++ occurredAt.isoformat
  { incident with
    description := some (match incident.description with
      | none => line
      | some description => if description = "" then line else description ++ "\n" ++ line)
    updatedAt := occurredAt.moment }

theorem noteDuplicate_utc (incident : Incident) (moment : Instant) :
    incident.noteDuplicate ⟨moment, 0⟩ = incident.noteDuplicateSignal moment := by
  cases described : incident.description <;>
    simp only [Incident.noteDuplicate, Incident.noteDuplicateSignal, isoformat_utc, described]

/-- The columns of a row of `incident_state_history` but for its id. -/
structure IncidentStateHistoryModel where
  fromState : String
  toState : String
  transitionedAt : Instant
  deriving DecidableEq

/-- The columns of a row of `incidents`, with the history rows that refer to it. -/
structure IncidentModel where
  id : Uuid
  title : String
  description : Option String
  state : String
  severity : String
  affectedService : String
  ownerId : Option Uuid
  createdAt : Instant
  updatedAt : Instant
  deletedAt : Option Instant
  fingerprint : Option String
  stateHistory : List IncidentStateHistoryModel

/-- `IncidentState(value)` -/
def incidentState : String → Except Raised IncidentState :=
  member "IncidentState" IncidentState.value
    [.open, .investigating, .identified, .remediating, .resolved, .closed]

/-- `Severity(value)` -/
def severityOf : String → Except Raised Severity :=
  member "Severity" Severity.value [.critical, .high, .medium, .low]

/-- `Incident.__init__` -/
def Incident.new (id : Uuid) (title : String) (description : Option String) (state : IncidentState)
    (severity : Severity) (affectedService : String) (ownerId : Option Uuid)
    (createdAt updatedAt : Instant) (stateHistory : List StateTransition)
    (fingerprint : Option String) : Except Raised Incident := do
  let title ← requireText title "title"
  let affectedService ← requireText affectedService "affected_service"
  let fingerprint ← optionalText fingerprint "fingerprint"
  let cleaned := strip (description.getD "")
  pure {
    id, title, state, severity, affectedService, ownerId, createdAt, updatedAt, stateHistory
    fingerprint
    description := if cleaned = "" then none else some cleaned }

theorem create_eq_new (id : Uuid) (moment : Instant) (command : CreateIncidentCommand) :
    Incident.create id moment command = Incident.new id command.title command.description .open
      command.severity command.affectedService command.ownerId moment moment [] command.fingerprint :=
  rfl

def IncidentStateHistoryModel.transition (entry : IncidentStateHistoryModel) :
    Except Raised StateTransition := do
  let fromState ← incidentState entry.fromState
  let toState ← incidentState entry.toState
  pure ⟨fromState, toState, entry.transitionedAt⟩

/-- `to_domain` of a row whose history has been loaded in an order. -/
def IncidentModel.toDomain (row : IncidentModel) : Except Raised Incident := do
  let history ← row.stateHistory.mapM IncidentStateHistoryModel.transition
  let state ← incidentState row.state
  let severity ← severityOf row.severity
  Incident.new row.id row.title row.description state severity row.affectedService row.ownerId
    row.createdAt row.updatedAt history row.fingerprint

/-- `_history_row` -/
def historyRow (step : StateTransition) : IncidentStateHistoryModel :=
  ⟨step.fromState.value, step.toState.value, step.occurredAt⟩

/-- `to_orm` -/
def Incident.toOrm (incident : Incident) : IncidentModel where
  id := incident.id
  title := incident.title.text
  description := incident.description
  state := incident.state.value
  severity := incident.severity.value
  affectedService := incident.affectedService.text
  ownerId := incident.ownerId
  createdAt := incident.createdAt
  updatedAt := incident.updatedAt
  deletedAt := none
  fingerprint := incident.fingerprint.map RequiredText.text
  stateHistory := incident.stateHistory.map historyRow

/-- `apply_to_orm`: the columns, and the history rows whose key is not there yet. -/
def IncidentModel.applyToOrm (incident : Incident) (row : IncidentModel) : IncidentModel :=
  { row with
    title := incident.title.text
    description := incident.description
    state := incident.state.value
    severity := incident.severity.value
    affectedService := incident.affectedService.text
    ownerId := incident.ownerId
    updatedAt := incident.updatedAt
    fingerprint := incident.fingerprint.map RequiredText.text
    stateHistory := row.stateHistory ++
      (incident.stateHistory.map historyRow).filter fun entry => entry ∉ row.stateHistory }

section Reading

variable {incident : Incident} {row : IncidentModel}

theorem incidentState_value (state : IncidentState) : incidentState state.value = .ok state := by
  cases state <;> rfl

theorem severityOf_value (severity : Severity) : severityOf severity.value = .ok severity := by
  cases severity <;> rfl

theorem transition_historyRow (step : StateTransition) : (historyRow step).transition = .ok step := by
  unfold IncidentStateHistoryModel.transition historyRow
  rw [incidentState_value, incidentState_value]
  rfl

theorem historyRow_inj {a b : StateTransition} (h : historyRow a = historyRow b) : a = b := by
  have := congrArg IncidentStateHistoryModel.transition h
  rw [transition_historyRow, transition_historyRow] at this
  exact Except.ok.inj this

theorem transitions_historyRows (steps : List StateTransition) :
    (steps.map historyRow).mapM IncidentStateHistoryModel.transition = .ok steps := by
  induction steps with
  | nil => rfl
  | cons step steps ih =>
    rw [List.map_cons, List.mapM_cons, transition_historyRow, ih]
    rfl

/-- A description as the constructor leaves it: none, or a text with no space at its ends. -/
def Described (description : Option String) : Prop :=
  ∀ text ∈ description, strip text = text ∧ text ≠ ""

theorem described_of_strip (text : String) :
    Described (if strip text = "" then none else some (strip text)) := by
  split
  next => simp [Described]
  next hne =>
    intro other hother
    obtain rfl := Option.some.inj hother
    exact ⟨strip_strip text, hne⟩

theorem described_create {id : Uuid} {moment : Instant} {command : CreateIncidentCommand}
    (h : Incident.create id moment command = .ok incident) : Described incident.description := by
  obtain ⟨title, _, h⟩ := bind_ok h
  obtain ⟨affectedService, _, h⟩ := bind_ok h
  obtain ⟨stored, hstored, h⟩ := bind_ok h
  cases h
  exact described_of_strip _

theorem optionalText_self (text : Option RequiredText) (fieldName : String) :
    optionalText (text.map RequiredText.text) fieldName = .ok text := by
  cases text with
  | none => rfl
  | some text =>
    rw [Option.map_some, optionalText, requireText_self]
    rfl

/-- Reading the columns of an incident gives its fields, with the history that was loaded. -/
theorem toDomain_rows (described : Described incident.description)
    (columns : row = { incident.toOrm with stateHistory := row.stateHistory })
    (steps : List StateTransition) (loaded : row.stateHistory = steps.map historyRow) :
    row.toDomain = .ok { incident with stateHistory := steps } := by
  have description : (if strip (incident.description.getD "") = "" then none
      else some (strip (incident.description.getD ""))) = incident.description := by
    cases htext : incident.description with
    | none => decide
    | some text =>
      obtain ⟨stripped, ne⟩ := described text htext
      rw [Option.getD_some, stripped, if_neg ne]
  rw [columns, loaded]
  unfold IncidentModel.toDomain Incident.toOrm Incident.new
  dsimp only
  rw [transitions_historyRows, incidentState_value, severityOf_value, requireText_self,
    requireText_self, optionalText_self]
  exact congrArg (fun text => Except.ok { incident with stateHistory := steps, description := text })
    description

end Reading

end Aegis
