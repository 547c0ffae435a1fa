import Aegis.Incident
import Aegis.StepPath
import Aegis.Trail

namespace Aegis

open StepPath Trails

/-- The requests that move an incident. -/
inductive LifecycleRequest where
  | transition (newState : IncidentState)
  | accept
  | startInvestigation

/-- What a request does with the incident it loaded: the moved incident, or none when it saves
nothing. The error is a rejected transition. -/
def LifecycleRequest.move (request : LifecycleRequest) (incident : Incident) (moment : Instant) :
    Except String (Option Incident) :=
  match request with
  | .transition newState => (incident.transitionTo newState moment).map some
  | .accept =>
    if incident.state = .investigating then
      (incident.transitionTo .identified moment).map some
    else .ok none
  | .startInvestigation =>
    (incident.startInvestigation moment).map fun (moved, started) =>
      if started then some moved else none

/-- How far one request is. The session keeps the row as it loaded it: `save` reads it again
from the identity map, not from the database. -/
inductive Phase where
  | waiting
  | loaded (row : Incident)
  | moved (row : Incident) (incident : Option Incident)
  | saved (row : Incident) (pending : Option Incident)
  | ended

structure LifecycleState where
  committed : Incident
  /-- The committed states so far, oldest first. -/
  states : List IncidentState
  phase : Nat → Phase

inductive LifecycleAction where
  | load
  | move (request : LifecycleRequest) (moment : Instant)
  | save
  | commit
  | abort

/-- An `UPDATE` writes the columns that differ from the loaded row. -/
def changed {α : Type} [DecidableEq α] (loaded pending current : α) : α :=
  if pending = loaded then current else pending

/-- The committed row after the transaction that loaded one row and left another pending. -/
def overwrite (current row pending : Incident) : Incident :=
  { current with
    state := changed row.state pending.state current.state
    updatedAt := changed row.updatedAt pending.updatedAt current.updatedAt
    stateHistory := current.stateHistory ++ pending.stateHistory.drop row.stateHistory.length }

def LifecycleState.enter (s : LifecycleState) (id : Nat) (phase : Phase) : LifecycleState :=
  { s with phase := Function.update s.phase id phase }

/-- One step of one request. -/
inductive LifecycleStep : LifecycleState → Nat × LifecycleAction → LifecycleState → Prop
  | load {s id} : s.phase id = .waiting →
      LifecycleStep s (id, .load) (s.enter id (.loaded s.committed))
  | move {s id row request moment incident} : s.phase id = .loaded row →
      LifecycleRequest.move request (toDomain row) moment = .ok incident →
      LifecycleStep s (id, .move request moment) (s.enter id (.moved row incident))
  | save {s id row incident} : s.phase id = .moved row incident →
      LifecycleStep s (id, .save)
        (s.enter id (.saved row (incident.map fun moved => applyToOrm moved row)))
  | commitNothing {s id row} : s.phase id = .saved row none →
      LifecycleStep s (id, .commit) (s.enter id .ended)
  | commit {s id row pending} : s.phase id = .saved row (some pending) →
      LifecycleStep s (id, .commit)
        { s.enter id .ended with
          committed := overwrite s.committed row pending
          states := s.states ++ [(overwrite s.committed row pending).state] }
  | abort {s id} : LifecycleStep s (id, .abort) (s.enter id .ended)

abbrev historyTrail (history : List StateTransition) (state : IncidentState) : Prop :=
  Trail StateTransition.fromState StateTransition.toState .open history state

/-- The committed states follow the allowed transitions, none follows `closed`, and the history
rows lead from `open` to the committed state in the order they were committed. -/
structure LifecycleSafe (s : LifecycleState) : Prop where
  allowed : s.states.IsChain (fun a b => canTransition a b = true)
  latest : s.states.getLast? = some s.committed.state
  closed_last : ∀ before after, s.states = before ++ .closed :: after → after = []
  history : historyTrail s.committed.stateHistory s.committed.state
  history_allowed : ∀ step ∈ s.committed.stateHistory,
    canTransition step.fromState step.toState = true

/-- A commit that writes finds the state that its transaction loaded. -/
def FreshCommit (s : LifecycleState) (label : Nat × LifecycleAction) : Prop :=
  ∀ row pending, label.2 = .commit → s.phase label.1 = .saved row (some pending) →
    row.state = s.committed.state

def SoundRow (row : Incident) : Prop :=
  historyTrail row.stateHistory row.state ∧
    ∀ step ∈ row.stateHistory, canTransition step.fromState step.toState = true

/-- What an open transaction holds: a row that was committed once, the incident moved from it and
the row with that move. -/
def SoundPhase : Phase → Prop
  | .waiting => True
  | .ended => True
  | .loaded row => SoundRow row
  | .moved row incident => SoundRow row ∧ ∀ moved, incident = some moved →
      ∃ newState moment, (toDomain row).transitionTo newState moment = .ok moved
  | .saved row pending => SoundRow row ∧ ∀ saved, pending = some saved →
      ∃ newState moment, canTransition row.state newState = true ∧ saved.state = newState ∧
        saved.stateHistory = row.stateHistory ++ [⟨row.state, newState, moment⟩]

theorem move_some {request : LifecycleRequest} {incident moved : Incident} {moment : Instant}
    (h : request.move incident moment = .ok (some moved)) :
    ∃ newState, incident.transitionTo newState moment = .ok moved := by
  have map_some : ∀ newState, (incident.transitionTo newState moment).map some = .ok (some moved) →
      incident.transitionTo newState moment = .ok moved := by
    intro newState hmap
    cases hmove : incident.transitionTo newState moment with
    | error text => simp [hmove, Except.map] at hmap
    | ok next => simpa [hmove, Except.map] using hmap
  cases request with
  | transition newState => exact ⟨newState, map_some newState h⟩
  | accept =>
    unfold LifecycleRequest.move at h
    dsimp only at h
    split at h
    · exact ⟨_, map_some _ h⟩
    · simp at h
  | startInvestigation =>
    unfold LifecycleRequest.move at h
    cases hstart : incident.startInvestigation moment with
    | error text => simp [hstart, Except.map] at h
    | ok result =>
      obtain ⟨next, started⟩ := result
      rcases startInvestigation_ok hstart with ⟨rfl, _, hmove⟩ | ⟨rfl, _, _⟩
      · have hnext : next = moved := by simpa [hstart, Except.map] using h
        exact ⟨_, hnext ▸ hmove⟩
      · simp [hstart, Except.map] at h

/-- On a trail no row leaves its end, so the move of a sound row is never taken for one that is
already there. -/
theorem newStep_not_mem {row : Incident} (h : SoundRow row) (newState : IncidentState)
    (moment : Instant) : (⟨row.state, newState, moment⟩ : StateTransition) ∉ row.stateHistory := by
  intro hmem
  have hlt := (trail_source_lt h.1 fun step hstep => canTransition_rank (h.2 step hstep)).2 _ hmem
  exact absurd hlt (lt_irrefl _)

theorem applyToOrm_sound {row moved : Incident} {newState : IncidentState} {moment : Instant}
    (h : SoundRow row) (hmove : (toDomain row).transitionTo newState moment = .ok moved) :
    canTransition row.state newState = true ∧ (applyToOrm moved row).state = newState ∧
      (applyToOrm moved row).stateHistory =
        row.stateHistory ++ [⟨row.state, newState, moment⟩] := by
  have hnew := newHistory_transitionTo hmove
  rw [if_neg (newStep_not_mem h newState moment)] at hnew
  obtain ⟨hcan, hmoved⟩ := transitionTo_ok hmove
  refine ⟨hcan, by rw [hmoved]; rfl, ?_⟩
  rw [← hnew]
  rfl

theorem overwrite_sound {current row pending : Incident} {newState : IncidentState}
    {moment : Instant} (hcan : canTransition row.state newState = true)
    (hstate : pending.state = newState)
    (hhistory : pending.stateHistory = row.stateHistory ++ [⟨row.state, newState, moment⟩]) :
    (overwrite current row pending).state = newState ∧
      (overwrite current row pending).stateHistory =
        current.stateHistory ++ [⟨row.state, newState, moment⟩] := by
  have hne : newState ≠ row.state := by
    rintro rfl
    exact absurd (canTransition_rank hcan) (lt_irrefl _)
  unfold overwrite changed
  simp [hstate, hhistory, hne]

theorem lifecycleStep_keeps_sound {s t : LifecycleState} {label : Nat × LifecycleAction}
    (safe : LifecycleSafe s) (sound : ∀ id, SoundPhase (s.phase id)) (h : LifecycleStep s label t) :
    ∀ id, SoundPhase (t.phase id) := by
  have enter : ∀ {id phase}, SoundPhase phase → ∀ other, SoundPhase ((s.enter id phase).phase other) := by
    intro id phase hphase other
    by_cases he : other = id
    · subst he
      simpa [LifecycleState.enter] using hphase
    · simpa [LifecycleState.enter, he] using sound other
  cases h with
  | load _ => exact enter ⟨safe.history, safe.history_allowed⟩
  | @move id row request moment incident hphase hmove =>
    have hrow : SoundPhase (.loaded row) := hphase ▸ sound id
    refine enter ⟨hrow, fun moved hmoved => ?_⟩
    obtain ⟨newState, htransition⟩ := move_some (hmoved ▸ hmove)
    exact ⟨newState, moment, htransition⟩
  | @save id row incident hphase =>
    have hrow : SoundPhase (.moved row incident) := hphase ▸ sound id
    refine enter ⟨hrow.1, fun saved hsaved => ?_⟩
    obtain ⟨moved, hmoved, rfl⟩ := Option.map_eq_some_iff.mp hsaved
    obtain ⟨newState, moment, htransition⟩ := hrow.2 moved hmoved
    exact ⟨newState, moment, applyToOrm_sound hrow.1 htransition⟩
  | commitNothing _ => exact enter trivial
  | commit _ => exact enter trivial
  | abort => exact enter trivial

theorem lifecycleSafe_enter {s : LifecycleState} {id : Nat} {phase : Phase} :
    LifecycleSafe (s.enter id phase) ↔ LifecycleSafe s :=
  ⟨fun h => ⟨h.allowed, h.latest, h.closed_last, h.history, h.history_allowed⟩,
    fun h => ⟨h.allowed, h.latest, h.closed_last, h.history, h.history_allowed⟩⟩

/-- A commit keeps the lifecycle safe exactly when it writes over the state it loaded: only then
does its history row continue the committed ones. -/
theorem lifecycleCommit_safe_iff {s : LifecycleState} {id : Nat} {row pending : Incident}
    (safe : LifecycleSafe s) (sound : SoundPhase (.saved row (some pending))) :
    LifecycleSafe { s.enter id .ended with
        committed := overwrite s.committed row pending
        states := s.states ++ [(overwrite s.committed row pending).state] } ↔
      row.state = s.committed.state := by
  obtain ⟨newState, moment, hcan, hstate, hhistory⟩ := sound.2 pending rfl
  obtain ⟨hstate', hhistory'⟩ := overwrite_sound hcan hstate hhistory
  constructor
  · intro h
    have htrail := h.history
    dsimp only at htrail
    rw [hhistory', hstate'] at htrail
    exact ((trail_concat_iff safe.history).mp htrail).1
  · intro hfresh
    rw [hfresh] at hcan
    refine ⟨?_, ?_, ?_, ?_, ?_⟩
    · rw [hstate', List.isChain_append]
      refine ⟨safe.allowed, List.isChain_singleton _, ?_⟩
      intro last hlast next hnext
      rw [safe.latest] at hlast
      cases hlast
      cases hnext
      exact hcan
    · simp
    · intro before after hsplit
      rw [hstate'] at hsplit
      rcases List.eq_nil_or_concat after with rfl | ⟨rest, last, rfl⟩
      · rfl
      · rw [List.concat_eq_append, ← List.cons_append, ← List.append_assoc] at hsplit
        obtain ⟨hbefore, _⟩ := List.append_inj' hsplit rfl
        have hrest := safe.closed_last before rest hbefore
        subst hrest
        have hclosed := safe.latest
        rw [hbefore, List.getLast?_concat] at hclosed
        rw [← Option.some.inj hclosed] at hcan
        cases newState <;> exact absurd hcan (by decide)
    · rw [hstate', hhistory']
      exact (trail_concat_iff safe.history).mpr ⟨hfresh, rfl⟩
    · intro step hstep
      rw [hhistory'] at hstep
      rcases List.mem_append.mp hstep with hold | hnew
      · exact safe.history_allowed step hold
      · rw [List.mem_singleton.mp hnew]
        exact hfresh ▸ hcan

theorem lifecycleStep_safe_iff {s t : LifecycleState} {label : Nat × LifecycleAction}
    (safe : LifecycleSafe s) (sound : ∀ id, SoundPhase (s.phase id)) (h : LifecycleStep s label t) :
    LifecycleSafe t ↔ FreshCommit s label := by
  cases h with
  | load _ => exact iff_of_true (lifecycleSafe_enter.mpr safe) fun _ _ h => by cases h
  | move _ _ => exact iff_of_true (lifecycleSafe_enter.mpr safe) fun _ _ h => by cases h
  | save _ => exact iff_of_true (lifecycleSafe_enter.mpr safe) fun _ _ h => by cases h
  | abort => exact iff_of_true (lifecycleSafe_enter.mpr safe) fun _ _ h => by cases h
  | @commitNothing id row hphase =>
    refine iff_of_true (lifecycleSafe_enter.mpr safe) fun row' pending _ hsaved => ?_
    rw [hphase] at hsaved
    cases hsaved
  | @commit id row pending hphase =>
    rw [lifecycleCommit_safe_iff safe (hphase ▸ sound id)]
    constructor
    · intro hfresh row' pending' _ hsaved
      rw [hphase] at hsaved
      cases hsaved
      exact hfresh
    · intro hfresh
      exact hfresh row pending rfl hphase

/-- No request locks or re-reads the row, so a set of concurrent requests keeps the lifecycle
safe exactly as long as every commit that writes finds the state its transaction loaded. -/
theorem lifecycle_safe_iff_fresh {s : LifecycleState}
    {path : List ((Nat × LifecycleAction) × LifecycleState)} (safe : LifecycleSafe s)
    (idle : ∀ id, s.phase id = .waiting) (run : Path LifecycleStep s path) :
    (∀ u ∈ visited s path, LifecycleSafe u) ↔ Meets FreshCommit s path :=
  always_iff_meets (fun _ _ _ hsafe hsound hstep => lifecycleStep_keeps_sound hsafe hsound hstep)
    (fun _ _ _ hsafe hsound hstep => lifecycleStep_safe_iff hsafe hsound hstep) run safe
    (fun id => (idle id).symm ▸ trivial)

/-- The steps of a request from its loaded row to its commit. -/
def moveAndCommit (s : LifecycleState) (id : Nat) (request : LifecycleRequest) (moment : Instant)
    (row incident : Incident) : List ((Nat × LifecycleAction) × LifecycleState) :=
  let moved := s.enter id (.moved row (some incident))
  let saved := moved.enter id (.saved row (some (applyToOrm incident row)))
  let written := overwrite s.committed row (applyToOrm incident row)
  [((id, .move request moment), moved), ((id, .save), saved),
    ((id, .commit), { saved.enter id .ended with
      committed := written, states := s.states ++ [written.state] })]

theorem moveAndCommit_path {s : LifecycleState} {id : Nat} {request : LifecycleRequest}
    {moment : Instant} {row incident : Incident} (hphase : s.phase id = .loaded row)
    (hmove : request.move (toDomain row) moment = .ok (some incident)) :
    Path LifecycleStep s (moveAndCommit s id request moment row incident) := by
  have hmoved := LifecycleStep.move hphase hmove
  have hsaved := LifecycleStep.save
    (show (s.enter id (.moved row (some incident))).phase id = .moved row (some incident) by
      simp [LifecycleState.enter])
  exact Path.next hmoved (Path.next hsaved
    (Path.next (LifecycleStep.commit (by simp [LifecycleState.enter])) Path.stop))

theorem moveAndCommit_fresh {s : LifecycleState} {id : Nat} {request : LifecycleRequest}
    {moment : Instant} {row incident : Incident} (h : row.state = s.committed.state) :
    Meets FreshCommit s (moveAndCommit s id request moment row incident) := by
  refine ⟨?_, ?_, ?_, trivial⟩
  · intro _ _ hlabel
    cases hlabel
  · intro _ _ hlabel
    cases hlabel
  intro row' pending _ hsaved
  have hrow : row = row' ∧ applyToOrm incident row = pending := by
    simpa [LifecycleState.enter] using hsaved
  rw [← hrow.1]
  exact h

def raceIncident : Incident where
  id := 1
  title := ⟨"checkout errors", by decide, by decide⟩
  description := none
  state := .investigating
  severity := .high
  affectedService := ⟨"checkout", by decide, by decide⟩
  ownerId := none
  createdAt := 0
  updatedAt := 5
  stateHistory := [⟨.open, .investigating, 5⟩]
  fingerprint := none

def closedIncident : Incident :=
  { raceIncident with
    state := .closed
    updatedAt := 6
    stateHistory := [⟨.open, .investigating, 5⟩, ⟨.investigating, .closed, 6⟩] }

def identifiedIncident : Incident :=
  { raceIncident with
    state := .identified
    updatedAt := 7
    stateHistory := [⟨.open, .investigating, 5⟩, ⟨.investigating, .identified, 7⟩] }

def raceStart : LifecycleState := ⟨raceIncident, [.investigating], fun _ => .waiting⟩

theorem raceStart_safe : LifecycleSafe raceStart where
  allowed := List.isChain_singleton _
  latest := rfl
  closed_last := by
    intro before after h
    have hmem : IncidentState.closed ∈ raceStart.states := by simp [h]
    simp [raceStart] at hmem
  history := trail_cons_iff.mpr ⟨rfl, trail_nil_iff.mpr rfl⟩
  history_allowed := by
    intro step hstep
    rw [List.mem_singleton.mp hstep]
    rfl

/-- A request that is not interleaved with another. -/
def requestAlone (s : LifecycleState) (id : Nat) (request : LifecycleRequest) (moment : Instant)
    (incident : Incident) : List ((Nat × LifecycleAction) × LifecycleState) :=
  let loaded := s.enter id (.loaded s.committed)
  ((id, .load), loaded) :: moveAndCommit loaded id request moment s.committed incident

theorem requestAlone_path {s : LifecycleState} {id : Nat} {request : LifecycleRequest}
    {moment : Instant} {incident : Incident} (hphase : s.phase id = .waiting)
    (hmove : request.move (toDomain s.committed) moment = .ok (some incident)) :
    Path LifecycleStep s (requestAlone s id request moment incident) ∧
      Meets FreshCommit s (requestAlone s id request moment incident) := by
  refine ⟨Path.next (.load hphase) (moveAndCommit_path ?_ hmove), ?_, moveAndCommit_fresh rfl⟩
  · simp [LifecycleState.enter]
  · intro _ _ hlabel
    cases hlabel

def identifiedThenClosed : Incident :=
  { identifiedIncident with
    state := .closed
    updatedAt := 8
    stateHistory := [⟨.open, .investigating, 5⟩, ⟨.investigating, .identified, 7⟩,
      ⟨.identified, .closed, 8⟩] }

/-- The acceptance of the report, and then another request that closes the incident. -/
theorem accept_then_close_safe : ∃ path, Path LifecycleStep raceStart path ∧
    (final raceStart path).states = [.investigating, .identified, .closed] ∧
    ∀ u ∈ visited raceStart path, LifecycleSafe u := by
  obtain ⟨haccept, hfresh⟩ := requestAlone_path (show raceStart.phase 1 = .waiting from rfl)
    (show LifecycleRequest.move .accept (toDomain raceIncident) 7 = .ok (some identifiedIncident)
      from rfl)
  obtain ⟨hclose, hfresh'⟩ := requestAlone_path
    (show (final raceStart (requestAlone raceStart 1 .accept 7 identifiedIncident)).phase 0 =
      .waiting from rfl)
    (show LifecycleRequest.move (.transition .closed) (toDomain (final raceStart
      (requestAlone raceStart 1 .accept 7 identifiedIncident)).committed) 8 =
        .ok (some identifiedThenClosed) from rfl)
  have run := path_append haccept hclose
  exact ⟨_, run, rfl,
    (lifecycle_safe_iff_fresh raceStart_safe (fun _ => rfl) run).mpr (meets_append hfresh hfresh')⟩

/-- Both requests load the investigating incident. One closes it, then the other commits the
acceptance of its report. -/
theorem accept_leaves_closed : ∃ path, Path LifecycleStep raceStart path ∧
    (final raceStart path).states = [.investigating, .closed, .identified] ∧
    ¬∀ u ∈ visited raceStart path, LifecycleSafe u := by
  have hfirst := LifecycleStep.load (show raceStart.phase 0 = .waiting from rfl)
  have hsecond := LifecycleStep.load
    (show (raceStart.enter 0 (.loaded raceIncident)).phase 1 = .waiting from rfl)
  have hclose := moveAndCommit_path
    (show ((raceStart.enter 0 (.loaded raceIncident)).enter 1 (.loaded raceIncident)).phase 0 =
      .loaded raceIncident from rfl)
    (show LifecycleRequest.move (.transition .closed) (toDomain raceIncident) 6 =
      .ok (some closedIncident) from rfl)
  have haccept := moveAndCommit_path
    (show (final ((raceStart.enter 0 (.loaded raceIncident)).enter 1 (.loaded raceIncident))
      (moveAndCommit ((raceStart.enter 0 (.loaded raceIncident)).enter 1 (.loaded raceIncident)) 0
        (.transition .closed) 6 raceIncident closedIncident)).phase 1 = .loaded raceIncident
      from rfl)
    (show LifecycleRequest.move .accept (toDomain raceIncident) 7 = .ok (some identifiedIncident)
      from rfl)
  have run := Path.next hfirst (Path.next hsecond (path_append hclose haccept))
  refine ⟨_, run, rfl, fun hsafe => ?_⟩
  have hclosed := (hsafe _ final_mem_visited).closed_last [.investigating] [.identified] rfl
  cases hclosed

end Aegis
