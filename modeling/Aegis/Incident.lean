import Aegis.Scalars
import Mathlib.Data.List.Sort

namespace Aegis

inductive IncidentState where
  | open
  | investigating
  | identified
  | remediating
  | resolved
  | closed
  deriving DecidableEq, Repr

def IncidentState.value : IncidentState → String
  | .open => "open"
  | .investigating => "investigating"
  | .identified => "identified"
  | .remediating => "remediating"
  | .resolved => "resolved"
  | .closed => "closed"

inductive Severity where
  | critical
  | high
  | medium
  | low
  deriving DecidableEq, Repr

/-- `ALLOWED_TRANSITIONS` -/
def allowedTransitions : IncidentState → List IncidentState
  | .open => [.investigating, .closed]
  | .investigating => [.identified, .closed]
  | .identified => [.remediating, .closed]
  | .remediating => [.resolved, .closed]
  | .resolved => [.closed]
  | .closed => []

def canTransition (current target : IncidentState) : Bool :=
  target ∈ allowedTransitions current

structure StateTransition where
  fromState : IncidentState
  toState : IncidentState
  occurredAt : Instant
  deriving DecidableEq

/-- A stripped text that is not empty, as `_require_text` returns it. -/
structure RequiredText where
  text : String
  stripped : strip text = text
  ne : text ≠ ""

structure Incident where
  id : Uuid
  title : RequiredText
  description : Option String
  state : IncidentState
  severity : Severity
  affectedService : RequiredText
  ownerId : Option Uuid
  createdAt : Instant
  updatedAt : Instant
  stateHistory : List StateTransition
  fingerprint : Option RequiredText

/-- `Incident.transition_to`; the error is the text of its `InvalidTransitionError`. -/
def Incident.transitionTo (incident : Incident) (newState : IncidentState) (moment : Instant) :
    Except String Incident :=
  if canTransition incident.state newState then
    .ok { incident with
      stateHistory := incident.stateHistory ++ [⟨incident.state, newState, moment⟩]
      state := newState
      updatedAt := moment }
  else
    .error ("Cannot transition incident from '" ++ incident.state.value ++ "' to '" ++
      newState.value ++ "'.")

/-- `Incident.start_investigation`: the incident and whether it moved. -/
def Incident.startInvestigation (incident : Incident) (moment : Instant) :
    Except String (Incident × Bool) :=
  if incident.state = .open then
    (incident.transitionTo .investigating moment).map fun moved => (moved, true)
  else .ok (incident, false)

/-- `to_domain`: the history is loaded in the order of its times. -/
def toDomain (row : Incident) : Incident :=
  { row with
    stateHistory := row.stateHistory.insertionSort (fun a b => a.occurredAt ≤ b.occurredAt) }

/-- The history rows that `apply_to_orm` adds: those whose key the loaded row does not have. -/
def newHistory (incident row : Incident) : List StateTransition :=
  incident.stateHistory.filter (fun step => step ∉ row.stateHistory)

/-- `apply_to_orm` -/
def applyToOrm (incident row : Incident) : Incident :=
  { row with
    title := incident.title
    description := incident.description
    state := incident.state
    severity := incident.severity
    affectedService := incident.affectedService
    ownerId := incident.ownerId
    updatedAt := incident.updatedAt
    fingerprint := incident.fingerprint
    stateHistory := row.stateHistory ++ newHistory incident row }

/-- How far along the lifecycle a state is. -/
def IncidentState.rank : IncidentState → Nat
  | .open => 0
  | .investigating => 1
  | .identified => 2
  | .remediating => 3
  | .resolved => 4
  | .closed => 5

theorem canTransition_rank {current target : IncidentState}
    (h : canTransition current target = true) : current.rank < target.rank := by
  revert h
  cases current <;> cases target <;> decide

theorem transitionTo_ok {incident moved : Incident} {newState : IncidentState} {moment : Instant}
    (h : incident.transitionTo newState moment = .ok moved) :
    canTransition incident.state newState = true ∧
      moved = { incident with
        stateHistory := incident.stateHistory ++ [⟨incident.state, newState, moment⟩]
        state := newState
        updatedAt := moment } := by
  unfold Incident.transitionTo at h
  split at h
  next hcan =>
    cases h
    exact ⟨hcan, rfl⟩
  next => cases h

theorem startInvestigation_ok {incident moved : Incident} {moment : Instant} {started : Bool}
    (h : incident.startInvestigation moment = .ok (moved, started)) :
    (started = true ∧ incident.state = .open ∧
        incident.transitionTo .investigating moment = .ok moved) ∨
      (started = false ∧ incident.state ≠ .open ∧ moved = incident) := by
  unfold Incident.startInvestigation at h
  split at h
  next hopen =>
    cases hmove : incident.transitionTo .investigating moment with
    | error text => simp [hmove, Except.map] at h
    | ok next =>
      simp only [hmove, Except.map, Except.ok.injEq, Prod.mk.injEq] at h
      obtain ⟨rfl, rfl⟩ := h
      exact Or.inl ⟨rfl, hopen, rfl⟩
  next hopen =>
    simp only [Except.ok.injEq, Prod.mk.injEq] at h
    obtain ⟨rfl, rfl⟩ := h
    exact Or.inr ⟨rfl, hopen, rfl⟩

/-- Moving an incident that is loaded from its row adds one history row, unless the row already
has a transition of that key. -/
theorem newHistory_transitionTo {row moved : Incident} {newState : IncidentState}
    {moment : Instant} (h : (toDomain row).transitionTo newState moment = .ok moved) :
    newHistory moved row =
      if (⟨row.state, newState, moment⟩ : StateTransition) ∈ row.stateHistory then []
      else [⟨row.state, newState, moment⟩] := by
  obtain ⟨_, rfl⟩ := transitionTo_ok h
  have hloaded : (toDomain row).stateHistory.filter (fun step => step ∉ row.stateHistory) = [] := by
    rw [List.filter_eq_nil_iff]
    intro step hstep
    have := (List.perm_insertionSort _ row.stateHistory).mem_iff.mp hstep
    simpa using this
  unfold newHistory
  dsimp only
  rw [List.filter_append, hloaded, List.nil_append]
  by_cases hmem : (⟨row.state, newState, moment⟩ : StateTransition) ∈ row.stateHistory
  · simp [toDomain, hmem]
  · simp [toDomain, hmem]

end Aegis
