import Aegis.HandledEvents
import Aegis.PlainText
import Aegis.Requests

namespace Aegis

open Raising Proc StepPath

/-- The event says that an incident was opened. -/
structure DomainEvent.Announces (event : DomainEvent) (incidentId : Uuid) : Prop where
  incident : event.incidentId = incidentId.str
  eventType : event.eventType = incidentOpenedV1
  schemaVersion : event.schemaVersion = "1"

/-- No incident is opened again. -/
def NoneReopened (before after : Db) : Prop :=
  ∀ row ∈ after.incidents, row.state = .open →
    ∃ old ∈ before.incidents, old.id = row.id ∧ old.state = .open

/-- What a step does to the open incidents, with the events it publishes: it opens none, or it adds
one that is new and publishes an event of it. -/
inductive Opening (before after : Db) : List DomainEvent → Prop
  | kept (ids : after.incidents.map Incident.id = before.incidents.map Incident.id)
      (opens : NoneReopened before after) : Opening before after []
  | opened (incident : Incident) (event : DomainEvent)
      (fresh : ∀ row ∈ before.incidents, row.id ≠ incident.id) (isOpen : incident.state = .open)
      (added : after.incidents = before.incidents ++ [incident])
      (announced : event.Announces incident.id) : Opening before after [event]

section Tables

variable {before after : Db} {moved : Incident}

theorem noneReopened_of_eq (same : after.incidents = before.incidents) :
    NoneReopened before after := by
  intro row hrow hopen
  rw [same] at hrow
  exact ⟨row, hrow, rfl, hopen⟩

theorem opening_of_eq (same : after.incidents = before.incidents) : Opening before after [] :=
  .kept (by rw [same]) (noneReopened_of_eq same)

/-- A row that is saved is open when it is left open, or was one of another incident. -/
theorem opening_saveIncident (same : after.incidents = (saveIncident moved before).incidents)
    (wasOpen : moved.state = .open → ∃ old ∈ before.incidents, old.id = moved.id ∧
      old.state = .open) : Opening before after [] := by
  refine .kept (by rw [same, saveIncident_ids]) fun row hrow hopen => ?_
  rw [same] at hrow
  obtain ⟨old, hold, rfl⟩ := List.mem_map.mp hrow
  by_cases hid : old.id = moved.id
  · rw [if_pos hid] at hopen ⊢
    obtain ⟨other, hother, hsame, hwas⟩ := wasOpen hopen
    exact ⟨other, hother, hsame.trans hid.symm, hwas⟩
  · rw [if_neg hid] at hopen ⊢
    exact ⟨old, hold, rfl, hopen⟩

theorem transitionTo_not_open {incident : Incident} {newState : IncidentState} {moment : Instant}
    (h : incident.transitionTo newState moment = .ok moved) : moved.state ≠ .open := by
  obtain ⟨hcan, rfl⟩ := transitionTo_ok h
  have hrank := canTransition_rank hcan
  change newState ≠ .open
  rintro rfl
  exact absurd hrank (Nat.not_lt_zero _)

theorem opening_moved {row : Incident} {newState : IncidentState} {moment : Instant}
    (h : (toDomain row).transitionTo newState moment = .ok moved)
    (same : after.incidents = (saveIncident moved before).incidents) : Opening before after [] :=
  opening_saveIncident same fun hopen => absurd hopen (transitionTo_not_open h)

theorem opening_intake {event : DomainEvent} {incidentId : Uuid} {started : Bool}
    (h : Intake event incidentId before after started) : Opening before after [] := by
  cases h with
  | known _ _ incidents => exact opening_of_eq incidents
  | late _ _ _ _ _ incidents => exact opening_of_eq incidents
  | started _ _ _ _ _ _ _ move incidents => exact opening_moved move incidents

variable {events : List DomainEvent}

theorem Opening.nothing_published (h : Opening before after events)
    (ids : after.incidents.map Incident.id = before.incidents.map Incident.id) : events = [] := by
  cases h with
  | kept _ _ => rfl
  | opened incident event fresh isOpen added announced =>
    have hlength := congrArg List.length ids
    rw [added, List.length_map, List.length_map, List.length_append, List.length_singleton]
      at hlength
    omega

theorem Opening.one_published {incident : Incident} (h : Opening before after events)
    (added : after.incidents = before.incidents ++ [incident]) :
    ∃ event, events = [event] ∧ event.Announces incident.id := by
  cases h with
  | kept ids _ =>
    have hlength := congrArg List.length ids
    rw [added, List.length_map, List.length_map, List.length_append, List.length_singleton]
      at hlength
    omega
  | opened other event fresh isOpen grown announced =>
    rw [added] at grown
    have hsame : incident = other := by simpa using List.append_cancel_left grown
    exact ⟨event, rfl, hsame ▸ announced⟩

end Tables

section Calls

variable {World : Type} {ports : ApiPorts World} {s t : Session World} {requestId : String}

theorem incidentOpenedEvent_announces {incidentId eventId : Uuid} {event : DomainEvent}
    (h : incidentOpenedEvent incidentId requestId eventId = .ok event) :
    event.Announces incidentId := by
  unfold incidentOpenedEvent at h
  split at h
  · cases h
  · rw [← Except.ok.inj h]
    exact ⟨strip_uuid incidentId, rfl, rfl⟩

theorem createIncident_announces {command : CreateIncidentCommand} {out : Incident × DomainEvent}
    (h : createIncident ports.toWorkerPorts command requestId s = (.ok out, t)) :
    out.2.Announces out.1.id := by
  obtain ⟨moment, s₁, _, h⟩ := bind_eq_ok.mp h
  obtain ⟨id, s₂, _, h⟩ := bind_eq_ok.mp h
  obtain ⟨incident, s₃, _, h⟩ := bind_eq_ok.mp h
  obtain ⟨_, s₄, _, h⟩ := bind_eq_ok.mp h
  obtain ⟨_, s₅, _, h⟩ := bind_eq_ok.mp h
  obtain ⟨eventId, s₆, _, h⟩ := bind_eq_ok.mp h
  obtain ⟨event, s₇, hevent, h⟩ := bind_eq_ok.mp h
  cases h
  obtain ⟨hmade, rfl⟩ := fromExcept_eq_ok.mp hevent
  exact incidentOpenedEvent_announces hmade

theorem createIncident_opening {command : CreateIncidentCommand} {out : Incident × DomainEvent}
    (h : createIncident ports.toWorkerPorts command requestId s = (.ok out, t)) :
    Opening s.db t.db [out.2] := by
  obtain ⟨hstate, _, hfree, hdb⟩ := createIncident_ok h
  refine .opened out.1 out.2 (fun row hrow hid => ?_) hstate (by rw [hdb])
    (createIncident_announces h)
  have := List.any_eq_false.mp hfree row hrow
  simp [hid] at this

theorem signal_opening {command : IngestIncidentSignalCommand}
    {result : IngestIncidentSignalResult}
    (h : ingestIncidentSignal ports.toWorkerPorts command requestId s = (.ok result, t)) :
    Opening s.db t.db result.published.toList := by
  obtain ⟨occurredAt, s₁, hclock, h⟩ := bind_eq_ok.mp h
  have hs₁ := sessionDraw_ok hclock
  obtain ⟨fingerprint, s₂, hcompute, h⟩ := bind_eq_ok.mp h
  obtain ⟨_, rfl⟩ := fromExcept_eq_ok.mp hcompute
  obtain ⟨existing, s₃, hlookup, h⟩ := bind_eq_ok.mp h
  obtain ⟨rfl, hs₃⟩ := select_ok hlookup
  rw [hs₁] at hs₃ h
  cases hfind : s.db.incidents.find? (openWith fingerprint) with
  | some row =>
    rw [hfind] at h
    obtain ⟨_, s₄, hsave, h⟩ := bind_eq_ok.mp h
    have hsaved := (write_ok hsave).2.db
    cases h
    rw [hs₃] at hsaved
    refine @opening_saveIncident s.db t.db _ (congrArg Db.incidents hsaved) fun hopen => ?_
    exact ⟨row, List.mem_of_find?_eq_some hfind, rfl, hopen⟩
  | none =>
    rw [hfind] at h
    obtain ⟨⟨incident, event⟩, s₄, hcreate, h⟩ := bind_eq_ok.mp h
    cases h
    have hopening := createIncident_opening hcreate
    rw [hs₃] at hopening
    exact hopening

theorem control_opening {incidentId : Uuid} {call : ControlCall} {answer : ControlAnswer}
    (h : control ports.toWorkerPorts incidentId call s = (.ok answer, t)) :
    Opening s.db t.db [] := by
  cases call with
  | pause => exact opening_of_eq (@control_keeps_table _ _ _ _ .incidents _ _ _ h (by decide))
  | resume => exact opening_of_eq (@control_keeps_table _ _ _ _ .incidents _ _ _ h (by decide))
  | transition newState =>
    obtain ⟨incident, u, hmove, h⟩ := bind_eq_ok.mp h
    cases h
    obtain ⟨row, moment, moved, _, hmoved, hdb⟩ := transitionIncident_ok hmove
    exact opening_moved hmoved (congrArg Db.incidents hdb)
  | review call =>
    obtain ⟨view, u, hreview, h⟩ := bind_eq_ok.mp h
    cases h
    cases call with
    | accept =>
      obtain ⟨row, report, _, _, hdb⟩ := accept_ok hreview
      have hreviewed : (reviewedDb (rcaToDomain report) .accepted s.db).incidents =
          s.db.incidents := @keeps_reviewedDb s.db .incidents _ _ (by decide)
      rcases hdb with ⟨_, hdb⟩ | ⟨moment, moved, _, hmoved, hdb⟩
      · exact opening_of_eq (by rw [hdb, hreviewed])
      · refine opening_moved hmoved ?_
        rw [hdb]
        unfold saveIncident
        rw [hreviewed]
    | reject =>
      obtain ⟨row, report, base, now, notes, _, _, _, hdb⟩ := reject_ok hreview
      have hreviewed : (reviewedDb (rcaToDomain report) .rejected s.db).incidents =
          s.db.incidents := @keeps_reviewedDb s.db .incidents _ _ (by decide)
      exact opening_of_eq (by rw [hdb]; exact hreviewed)
    | amend command =>
      obtain ⟨row, report, amended, finding, id, createdAt, notes, _, _, _, _, _, hdb⟩ :=
        amend_ok hreview
      exact opening_of_eq (by rw [hdb])

theorem incidentCall_opening {call : ApiCall} {reply : ApiReply} {events : List DomainEvent}
    (h : incidentCall ports requestId call s = (.ok (reply, events), t)) :
    Opening s.db t.db events := by
  cases call with
  | createIncident command =>
    obtain ⟨⟨incident, event⟩, u, hcreate, h⟩ := bind_eq_ok.mp h
    cases h
    exact createIncident_opening hcreate
  | control incidentId call =>
    obtain ⟨answer, u, hcontrol, h⟩ := bind_eq_ok.mp h
    cases h
    exact control_opening hcontrol
  | listIncidents query =>
    have hkept := @incidentCall_keeps _ _ _ _ .incidents _ _ _ h fun _ h => by cases h
    obtain ⟨incidents, u, _, h⟩ := bind_eq_ok.mp h
    cases h
    exact opening_of_eq hkept
  | getIncident incidentId =>
    have hkept := @incidentCall_keeps _ _ _ _ .incidents _ _ _ h fun _ h => by cases h
    obtain ⟨incident, u, _, h⟩ := bind_eq_ok.mp h
    cases h
    exact opening_of_eq hkept
  | getInvestigation incidentId =>
    have hkept := @incidentCall_keeps _ _ _ _ .incidents _ _ _ h fun _ h => by cases h; decide
    obtain ⟨view, u, _, h⟩ := bind_eq_ok.mp h
    cases h
    exact opening_of_eq hkept
  | addEvidence incidentId summary contentRef =>
    have hkept := @incidentCall_keeps _ _ _ _ .incidents _ _ _ h fun _ h => by cases h; decide
    obtain ⟨view, u, _, h⟩ := bind_eq_ok.mp h
    obtain ⟨row, v, _, h⟩ := bind_eq_ok.mp h
    cases h
    exact opening_of_eq hkept
  | getReport incidentId =>
    have hkept := @incidentCall_keeps _ _ _ _ .incidents _ _ _ h fun _ h => by cases h; decide
    obtain ⟨order, _, _, h⟩ := bind_eq_ok.mp h
    obtain ⟨stores, u, _, h⟩ := bind_eq_ok.mp h
    obtain ⟨report, v, _, h⟩ := bind_eq_ok.mp h
    cases h
    exact opening_of_eq hkept
  | policy call => cases h

end Calls

section Serving

variable {World : Type} {ports : ApiPorts World} {server : Server World} {arrival : Arrival World}

/-- A request publishes an event for each incident that it opens, and no other. -/
theorem serveArrival_opening (ports : ApiPorts World) (server : Server World)
    (arrival : Arrival World) :
    Opening server.worker.db (serveArrival ports server arrival).server.worker.db
      (serveArrival ports server arrival).events := by
  obtain ⟨request, moment, world⟩ := arrival
  have hreached := serve_reached ports moment request (server.inWorld world)
  unfold serveArrival
  dsimp only
  generalize serve ports moment request (server.inWorld world) = served at hreached ⊢
  cases hreached with
  | refused fault => exact opening_of_eq rfl
  | @policy header call requestId user caller =>
    rw [servePolicy_events]
    rcases servePolicy_cases ports user.subject call (server.inWorld world) with
      ⟨raised, _, hdb, _⟩ | ⟨reply, s, _, _, hdb, _⟩
    · exact opening_of_eq (congrArg Db.incidents hdb)
    · rw [hdb]
      exact opening_of_eq rfl
  | @incident header call requestId user caller =>
    rcases serveIncident_cases ports requestId call (server.inWorld world) with
      ⟨raised, _, hdb, hevents⟩ | ⟨reply, s, _, hcall, hdb⟩
    · rw [hevents]
      exact opening_of_eq (congrArg Db.incidents hdb)
    · rw [hdb]
      exact incidentCall_opening hcall
  | @signal signature body requestId command signed parsed =>
    rcases serveSignal_cases ports requestId command (server.inWorld world) with
      ⟨raised, _, hdb, hevents⟩ | ⟨result, s, _, hcall, hevents, hdb⟩
    · rw [hevents]
      exact opening_of_eq (congrArg Db.incidents hdb)
    · rw [hevents, hdb]
      exact signal_opening hcall

/-- No request writes the inbox. -/
theorem serveArrival_inbox (ports : ApiPorts World) (server : Server World)
    (arrival : Arrival World) :
    (serveArrival ports server arrival).server.worker.db.inbox = server.worker.db.inbox := by
  by_contra hchanged
  have hmay := @mayChange_of_changed _ ports server .inbox arrival fun hkept => hchanged hkept.1
  cases hmay with
  | call _ _ _ _ _ _ _ _ _ writer => cases writer
  | signal _ _ _ _ _ incidents => cases incidents

theorem flushed_eq (start : Server World) (path : List (Arrival World × Server World)) :
    flushed ports start path = flushPendingDomainEvents ports (buffered ports start path) := by
  induction path generalizing start with
  | nil => rw [flushed, buffered, flushPendingDomainEvents, ite_self]
  | cons taken rest ih =>
    obtain ⟨arrival, next⟩ := taken
    rw [flushed, buffered, ih, flushPendingDomainEvents, flushPendingDomainEvents,
      flushPendingDomainEvents]
    split <;> rfl

/-- The incidents that a run of requests creates are those of the events in its buffers, in
order. -/
theorem buffered_events_created {start : Server World}
    {path : List (Arrival World × Server World)} (run : Path (ServeStep ports) start path) :
    ∃ created, (final start path).worker.db.incidents.map Incident.id =
        start.worker.db.incidents.map Incident.id ++ created ∧
      List.Forall₂ DomainEvent.Announces (buffered ports start path) created := by
  induction run with
  | stop => exact ⟨[], by simp, .nil⟩
  | @next server arrival next rest hstep _ ih =>
    obtain ⟨created, hids, hannounced⟩ := ih
    have hopening := serveArrival_opening ports server arrival
    unfold buffered
    rw [final_cons, hids, hstep]
    rw [hstep] at hannounced
    generalize (serveArrival ports server arrival).events = events at hopening ⊢
    cases hopening with
    | kept ids opens =>
      rw [ids]
      exact ⟨created, rfl, hannounced⟩
    | opened incident event fresh isOpen added announced =>
      rw [added]
      exact ⟨incident.id :: created, by simp, .cons announced hannounced⟩

/-- The incidents that a run of requests creates are those whose events it hands to the publisher,
in order; without a publisher it hands over none. -/
theorem flushed_events_created {start : Server World}
    {path : List (Arrival World × Server World)} (run : Path (ServeStep ports) start path) :
    ∃ created, (final start path).worker.db.incidents.map Incident.id =
        start.worker.db.incidents.map Incident.id ++ created ∧
      (ports.hasPublisher = true →
        List.Forall₂ DomainEvent.Announces (flushed ports start path) created) ∧
      (ports.hasPublisher = false → flushed ports start path = []) := by
  obtain ⟨created, hids, hannounced⟩ := buffered_events_created run
  rw [flushed_eq, flushPendingDomainEvents]
  refine ⟨created, hids, fun set => ?_, fun unset => ?_⟩
  · rwa [if_pos set]
  · rw [unset]
    rfl

end Serving

def calm (time : Instant) (nextId : Nat) : Script := ⟨time, nextId, [], [], []⟩

def createArrival : Arrival Script where
  request := .call (bearer "ada" .engineer)
    (.createIncident ⟨"calls to payment fail", "checkout", .high, none, none, none⟩) "r1"
  moment := 0
  world := calm 0 10

/-- A create request of a viewer, who may not create incidents. -/
def refusedArrival : Arrival Script :=
  { createArrival with
    request := .call (bearer "eve" .viewer)
      (.createIncident ⟨"calls to payment fail", "checkout", .high, none, none, none⟩) "r2" }

def latencyBody : String :=
  (Value.obj [("source", .str "simulator"), ("service", .str "payment"), ("title", .str "slow"),
    ("summary", .str "payment is slow"), ("severity", .str "high"),
    ("scenario", .str "latency_spike")]).compact

/-- A signed signal, which opens an incident of its own. -/
def signalArrival : Arrival Script where
  request := .signal ("sha256=hook." ++ latencyBody) latencyBody "r3"
  moment := 0
  world := calm 60000000 20

def openingPath : List (Arrival Script × Server Script) :=
  servePath scriptedApi emptyServer [createArrival, refusedArrival, signalArrival]

theorem created_flushed : ∃ created,
    (final emptyServer openingPath).worker.db.incidents.map Incident.id =
        emptyServer.worker.db.incidents.map Incident.id ++ created ∧
      (scriptedApi.hasPublisher = true →
        List.Forall₂ DomainEvent.Announces (flushed scriptedApi emptyServer openingPath) created) ∧
      (scriptedApi.hasPublisher = false → flushed scriptedApi emptyServer openingPath = []) :=
  flushed_events_created (servePath_path scriptedApi emptyServer _)

end Aegis
