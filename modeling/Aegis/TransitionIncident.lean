import Aegis.Ensuring
import Aegis.RcaHistory

namespace Aegis

open Raising Proc

section Calls

variable {World : Type} (ports : WorkerPorts World)

/-- The row that `save` loads again, as an incident. -/
def reloaded (incident : Incident) (db : Db) : Incident :=
  ((db.incidents.find? fun row => row.id = incident.id).map toDomain).getD incident

/-- `TransitionIncident.execute` -/
def transitionIncident (incidentId : Uuid) (newState : IncidentState) :
    Proc (Session World) Raised Incident := do
  let incident ← requireIncident ports incidentId
  let moment ← sessionDraw ports.now
  let moved ← fromExcept ((incident.transitionTo newState moment).mapError Raised.invalid)
  save ports moved
  read fun s => reloaded moved s.db

/-- A request in its own session: committed when it returns, and else rolled back. -/
def inSession {Value : Type} (request : Proc (Session World) Raised Value)
    (worker : Worker World) : Except Raised Value × Worker World :=
  match (request >>= fun a => statement ports >>= fun _ => pure a)
      ⟨worker.db, worker.process, false⟩ with
  | (.ok a, s) => (.ok a, ⟨s.db, s.process⟩)
  | (.error raised, s) => (.error raised, ⟨worker.db, s.process⟩)

end Calls

variable {World : Type} {ports : WorkerPorts World} {incidentId : Uuid} {s t : Session World}

theorem raises_statement : Raises (statement ports) fun raised => ∃ text, raised = .other text := by
  intro s raised t h
  unfold statement at h
  split at h
  · cases h
    exact ⟨_, rfl⟩
  · dsimp only at h
    split at h
    · cases h
    · cases h
      exact ⟨_, rfl⟩

theorem raises_sessionDraw {Value : Type} {post : Raised → Prop} (f : World → Value × World) :
    Raises (sessionDraw f) post := by
  intro s raised t h
  cases h

theorem raises_write (conflict : Db → Bool) (change : Db → Db) :
    Raises (write ports conflict change) fun raised => ∃ text, raised = .other text := by
  refine raises_bind raises_statement fun _ => raises_bind (raises_read _) fun db => ?_
  split
  · exact raises_raise ⟨_, rfl⟩
  · exact raises_update _

/-- The incident was in a state that the new one may follow, and its row is moved there. -/
theorem transitionIncident_ok {newState : IncidentState} {persisted : Incident}
    (h : transitionIncident ports incidentId newState s = (.ok persisted, t)) :
    ∃ row moment moved, s.db.incidents.find? (fun row => row.id = incidentId) = some row ∧
      (toDomain row).transitionTo newState moment = .ok moved ∧
      t.db = saveIncident moved s.db := by
  obtain ⟨incident, u, hfound, h⟩ := bind_eq_ok.mp h
  obtain ⟨hu, row, hrow, rfl⟩ := requireIncident_ok hfound
  obtain ⟨moment, v, hdraw, h⟩ := bind_eq_ok.mp h
  have hv := sessionDraw_ok hdraw
  obtain ⟨moved, w, hmoved, h⟩ := bind_eq_ok.mp h
  obtain ⟨hmove, rfl⟩ := fromExcept_eq_ok.mp hmoved
  obtain ⟨_, x, hsave, h⟩ := bind_eq_ok.mp h
  cases h
  refine ⟨row, moment, moved, hrow, mapError_eq_ok hmove, ?_⟩
  rw [(write_ok hsave).2.db, hv, hu]

/-- A request that raises changes no table; one that returns has made its changes. -/
theorem inSession_cases {Value : Type} (ports : WorkerPorts World)
    (request : Proc (Session World) Raised Value) (worker : Worker World) :
    (∃ raised process, inSession ports request worker = (.error raised, ⟨worker.db, process⟩) ∧
        ((∃ s, request ⟨worker.db, worker.process, false⟩ = (.error raised, s)) ∨
          ∃ text, raised = .other text)) ∨
      ∃ a s process, request ⟨worker.db, worker.process, false⟩ = (.ok a, s) ∧
        inSession ports request worker = (.ok a, ⟨s.db, process⟩) := by
  unfold inSession
  rcases hcall : request ⟨worker.db, worker.process, false⟩ with ⟨raised | a, s⟩
  · rw [bind_of_error hcall]
    exact .inl ⟨raised, s.process, rfl, .inl ⟨s, rfl⟩⟩
  · rw [bind_of_ok hcall]
    rcases hstatement : statement ports s with ⟨raised | _, t⟩
    · rw [bind_of_error hstatement]
      exact .inl ⟨raised, t.process, rfl, .inr (raises_statement s raised t hstatement)⟩
    · rw [bind_of_ok hstatement]
      refine .inr ⟨a, s, t.process, rfl, ?_⟩
      rw [← (statement_ok hstatement).db]
      rfl

end Aegis
