import Aegis.Envelope
import Aegis.MessageQueue
import Aegis.OpenIncidents

namespace Aegis

open Raising Proc StepPath MessageQueue

/-- `MAX_RECEIVE_COUNT` -/
def maxReceiveCount : Nat := 3

/-- What the worker has of the queue: nothing, a message that it handles, or one that it has handled
and is to delete. -/
inductive Hand where
  | free
  | holding (id : Nat) (body : String)
  | acking (id : Nat)

/-- The API with its tables, the buffers of the requests that have committed and not yet flushed,
the process of the worker, the event bus with the events that the rule has not yet matched, the queue
of the worker, and the publishes of which the API has logged that they failed. The events that the
API has dropped are kept beside them. -/
structure Flow (World : Type) where
  server : Server World
  buffers : List (List WireEvent)
  process : Process World
  bus : List WireEvent
  queue : Queue String
  hand : Hand
  failures : List WireEvent
  dropped : List WireEvent

inductive FlowAction (World : Type) where
  | request (arrival : Arrival World) (stamp : Instant)
  | flush (buffer : List WireEvent) (accepted : Bool)
  | stop (world : World)
  | route (event : WireEvent) (body : String)
  | duplicate (event : WireEvent) (body : String)
  | foreign (body : String)
  | receive (id : Nat) (body : String)
  | expire (id : Nat)
  | redrive (id : Nat)
  | handle (world : World)
  | delete
  | crash (world : World)

section Flow

variable {World : Type} (ports : ApiPorts World)

def Flow.db (flow : Flow World) : Db := flow.server.worker.db

/-- The worker on the tables of the API. -/
def Flow.worker (flow : Flow World) (world : World) : Worker World :=
  ⟨flow.db, { flow.process with world }⟩

/-- A request up to its commit, with the events that its buffer holds then. -/
def Flow.request (flow : Flow World) (arrival : Arrival World) (stamp : Instant) : Flow World :=
  let served := serveArrival ports flow.server arrival
  { flow with
    server := served.server
    buffers := flow.buffers ++ [served.events.map fun event : DomainEvent => event.stamped stamp] }

/-- `flush_pending_domain_events`: without a publisher the events go nowhere, and a publish that
fails is logged. -/
def Flow.flush (flow : Flow World) (events : List WireEvent) (accepted : Bool) : Flow World :=
  if ports.hasPublisher then
    if accepted then { flow with bus := flow.bus ++ events }
    else { flow with failures := flow.failures ++ events }
  else { flow with dropped := flow.dropped ++ events }

/-- The handling of the message at hand, up to its delete. A message that cannot be read and one
whose handling fails are left to the queue. -/
def Flow.handle (flow : Flow World) (world : World) : Flow World :=
  match flow.hand with
  | .holding id body =>
    match domainEventFromSqsBody ports.toFloat body with
    | none => { flow with hand := .free }
    | some event =>
      let handling := deliver ports.toWorkerPorts event.toDomainEvent (flow.worker world)
      { flow with
        server := { flow.server with worker := { flow.server.worker with db := handling.worker.db } }
        process := handling.worker.process
        hand := if handling.ended.isCommitted then .acking id else .free }
  | _ => flow

/-- A process that has just started, with the rules as they are. -/
def Flow.started (flow : Flow World) (world : World) : Process World where
  runner := Runner.new
  cache := replacePolicyRules ports.services.digest flow.db.policyRules
  world

/-- The API starts anew, and the buffers of its requests are lost. -/
def Flow.stop (flow : Flow World) (world : World) : Flow World :=
  { flow with
    server := { flow.server with
      worker := { flow.server.worker with process := flow.started ports world } }
    buffers := []
    dropped := flow.dropped ++ flow.buffers.flatten }

/-- The steps of the system. A request flushes its events some time after its commit, if the API
does not stop before; the bus hands each event over once or more; messages of others come as they
like; the queue hands a message out until it was received three times; and the worker may stop at
any moment, which loses its process and the message at hand. -/
inductive FlowStep (flow : Flow World) : FlowAction World → Flow World → Prop
  | request (arrival : Arrival World) (stamp : Instant) :
      FlowStep flow (.request arrival stamp) (flow.request ports arrival stamp)
  | flush {front back : List (List WireEvent)} (buffer : List WireEvent) (accepted : Bool)
      (there : flow.buffers = front ++ buffer :: back) :
      FlowStep flow (.flush buffer accepted)
        ({ flow with buffers := front ++ back }.flush ports buffer accepted)
  | stop (world : World) : FlowStep flow (.stop world) (flow.stop ports world)
  | route {front back : List WireEvent} (event : WireEvent) (body : String)
      (there : flow.bus = front ++ event :: back)
      (carried : Carries ports.toFloat body event.detail) :
      FlowStep flow (.route event body)
        { flow with bus := front ++ back, queue := flow.queue.send body }
  | duplicate (event : WireEvent) (body : String) (there : event ∈ flow.bus)
      (carried : Carries ports.toFloat body event.detail) :
      FlowStep flow (.duplicate event body) { flow with queue := flow.queue.send body }
  | foreign (body : String) :
      FlowStep flow (.foreign body) { flow with queue := flow.queue.send body }
  | receive {queue : Queue String} (message : Message String) (idle : flow.hand = .free)
      (there : message ∈ flow.queue.messages)
      (step : Step maxReceiveCount flow.queue (.receive message.id) queue) :
      FlowStep flow (.receive message.id message.body)
        { flow with queue, hand := .holding message.id message.body }
  | expire (id : Nat) : FlowStep flow (.expire id) { flow with queue := flow.queue.expire id }
  | redrive {queue : Queue String} (id : Nat)
      (step : Step maxReceiveCount flow.queue (.redrive id) queue) :
      FlowStep flow (.redrive id) { flow with queue }
  | handle (world : World) : FlowStep flow (.handle world) (flow.handle ports world)
  | delete (id : Nat) (done : flow.hand = .acking id) :
      FlowStep flow .delete { flow with queue := flow.queue.delete id, hand := .free }
  | crash (world : World) :
      FlowStep flow (.crash world) { flow with process := flow.started ports world, hand := .free }

/-- The event in a body is in the inbox. -/
def Claimed (body : String) (db : Db) : Prop :=
  ∃ event incidentId, domainEventFromSqsBody ports.toFloat body = some event ∧
    event.eventType = incidentOpenedV1 ∧ ports.parseUuid event.incidentId = some incidentId ∧
    claimedBefore event.toDomainEvent incidentId db = true

/-- Where an event of the API is: in the buffer of a request, on the bus, in the log of publishes
that failed, or among what the API has dropped. -/
def Placed (flow : Flow World) (event : WireEvent) : Prop :=
  event ∈ flow.buffers.flatten ∨ event ∈ flow.bus ∨ event ∈ flow.failures ∨ event ∈ flow.dropped

/-- An event about an incident has its place, or is in the queue or its dead-letter queue. -/
inductive Pending (flow : Flow World) (incidentId : Uuid) : Prop
  | placed (event : WireEvent) (there : Placed flow event) (announces : event.Announces incidentId)
  | inQueue (id : Nat) (body : String) (event : WireEvent) (there : Holds flow.queue id body)
      (read : domainEventFromSqsBody ports.toFloat body = some event)
      (announces : event.Announces incidentId)

/-- What every reachable state of the system has. -/
structure FlowSound (flow : Flow World) : Prop where
  queue : Sound maxReceiveCount flow.queue
  held : ∀ id body, flow.hand = .holding id body →
    id < flow.queue.sent ∧ ∀ other, Holds flow.queue id other → other = body
  acked : ∀ id, flow.hand = .acking id →
    id < flow.queue.sent ∧ ∀ body, Holds flow.queue id body → Claimed ports body flow.db
  ids : (flow.db.incidents.map Incident.id).Nodup
  inboxed : ∀ row ∈ flow.db.inbox, row.incidentId ∈ flow.db.incidents.map Incident.id
  handled : ∀ row ∈ flow.db.inbox, row.eventType = incidentOpenedV1 → row.schemaVersion = "1" →
    ∀ incident ∈ flow.db.incidents, incident.id = row.incidentId → incident.state ≠ .open
  pending : ∀ incident ∈ flow.db.incidents, incident.state = .open →
    Pending ports flow incident.id
  announced : ∀ event, Placed flow event →
    ∃ incidentId ∈ flow.db.incidents.map Incident.id, event.Announces incidentId

end Flow

section Sound

variable {World : Type} {ports : ApiPorts World} {flow next : Flow World} {body : String}
  {incidentId : Uuid}

theorem claimedBefore_mono {event : DomainEvent} {before after : Db}
    (grows : before.inbox ⊆ after.inbox) (h : claimedBefore event incidentId before = true) :
    claimedBefore event incidentId after = true := by
  obtain ⟨row, hrow, hkey⟩ := List.any_eq_true.mp h
  exact List.any_eq_true.mpr ⟨row, grows hrow, hkey⟩

theorem Claimed.mono {before after : Db} (h : Claimed ports body before)
    (grows : before.inbox ⊆ after.inbox) : Claimed ports body after := by
  obtain ⟨event, incidentId, hread, htype, hparse, hclaimed⟩ := h
  exact ⟨event, incidentId, hread, htype, hparse, claimedBefore_mono grows hclaimed⟩

/-- A step that moves messages, and events from the bus into messages. -/
theorem flowSound_of_queue {action : MessageQueue.Action String} (sound : FlowSound ports flow)
    (step : Step maxReceiveCount flow.queue action next.queue) (kept : ∀ id, action ≠ .delete id)
    (db : next.db = flow.db) (hand : next.hand = flow.hand)
    (placed : ∀ event, Placed next event → Placed flow event)
    (routed : ∀ event, Placed flow event → Placed next event ∨ ∃ id body,
      Holds next.queue id body ∧ domainEventFromSqsBody ports.toFloat body = some event) :
    FlowSound ports next := by
  have known : ∀ id body, id < flow.queue.sent → Holds next.queue id body →
      Holds flow.queue id body := by
    intro id body hid hholds
    rcases holds_of_step step hholds with hold | ⟨_, hnew⟩
    · exact hold
    · omega
  have later : ∀ id, id < flow.queue.sent → id < next.queue.sent := fun id hid =>
    Nat.lt_of_lt_of_le hid (sent_step step)
  refine ⟨sound_step sound.queue step, ?_, ?_, ?_, ?_, ?_, ?_, ?_⟩
  · intro id body hheld
    rw [hand] at hheld
    obtain ⟨hid, hbody⟩ := sound.held id body hheld
    exact ⟨later id hid, fun other hother => hbody other (known id other hid hother)⟩
  · intro id hacking
    rw [hand] at hacking
    obtain ⟨hid, hclaimed⟩ := sound.acked id hacking
    rw [db]
    exact ⟨later id hid, fun body hbody => hclaimed body (known id body hid hbody)⟩
  · rw [db]
    exact sound.ids
  · rw [db]
    exact sound.inboxed
  · rw [db]
    exact sound.handled
  · intro incident hincident hopen
    rw [db] at hincident
    cases sound.pending incident hincident hopen with
    | placed event there announces =>
      rcases routed event there with hplaced | ⟨id, body, hholds, hread⟩
      · exact .placed event hplaced announces
      · exact .inQueue id body event hholds hread announces
    | inQueue id body event there read announces =>
      exact .inQueue id body event (holds_step step there (kept id)) read announces
  · intro event hevent
    rw [db]
    exact sound.announced event (placed event hevent)

/-- A step that moves messages only. -/
theorem flowSound_of_messages {action : MessageQueue.Action String} {queue : Queue String}
    (sound : FlowSound ports flow) (step : Step maxReceiveCount flow.queue action queue)
    (kept : ∀ id, action ≠ .delete id) : FlowSound ports { flow with queue } :=
  flowSound_of_queue sound step kept rfl rfl (fun _ h => h) fun _ h => .inl h

/-- A step of the worker that moves nothing but what is in its hand. -/
theorem flowSound_of_hand (sound : FlowSound ports flow) (queue : next.queue = flow.queue)
    (db : next.db = flow.db) (placed : ∀ event, Placed next event ↔ Placed flow event)
    (held : ∀ id body, next.hand = .holding id body →
      id < flow.queue.sent ∧ ∀ other, Holds flow.queue id other → other = body)
    (acked : ∀ id, next.hand = .acking id →
      id < flow.queue.sent ∧ ∀ body, Holds flow.queue id body → Claimed ports body flow.db) :
    FlowSound ports next := by
  refine ⟨by rw [queue]; exact sound.queue, by rw [queue]; exact held,
    by rw [queue, db]; exact acked, by rw [db]; exact sound.ids, by rw [db]; exact sound.inboxed,
    by rw [db]; exact sound.handled, ?_,
    fun event h => by rw [db]; exact sound.announced event ((placed event).mp h)⟩
  intro incident hincident hopen
  rw [db] at hincident
  cases sound.pending incident hincident hopen with
  | placed event there announces => exact .placed event ((placed event).mpr there) announces
  | inQueue id body event there read announces =>
    exact .inQueue id body event (queue ▸ there) read announces

/-- A step that changes the tables: the inbox grows by events whose incident is handled, and what is
opened is announced. -/
theorem flowSound_of_tables {events : List DomainEvent} (sound : FlowSound ports flow)
    (queue : next.queue = flow.queue) (opening : Opening flow.db next.db events)
    (inbox : flow.db.inbox ⊆ next.db.inbox)
    (claims : ∀ row ∈ next.db.inbox, row ∈ flow.db.inbox ∨
      (row.incidentId ∈ flow.db.incidents.map Incident.id ∧
        ∀ incident ∈ next.db.incidents, incident.id = row.incidentId → incident.state ≠ .open))
    (placed : ∀ event, Placed flow event → Placed next event)
    (published : ∀ event ∈ events, ∃ sent, Placed next sent ∧ sent.toDomainEvent = event)
    (sources : ∀ sent, Placed next sent → Placed flow sent ∨ sent.toDomainEvent ∈ events)
    (held : ∀ id body, next.hand = .holding id body → flow.hand = .holding id body)
    (acked : ∀ id, next.hand = .acking id → flow.hand = .acking id ∨
      ∃ body, flow.hand = .holding id body ∧ Claimed ports body next.db) :
    FlowSound ports next := by
  have kept : ∀ id, Pending ports flow id → Pending ports next id := by
    intro id hpending
    cases hpending with
    | placed event there announces => exact .placed event (placed event there) announces
    | inQueue id body event there read announces =>
      exact .inQueue id body event (queue ▸ there) read announces
  have ids : flow.db.incidents.map Incident.id ⊆ next.db.incidents.map Incident.id := by
    cases opening with
    | kept ids opens =>
      rw [ids]
      exact List.Subset.refl _
    | opened incident event fresh isOpen added announced =>
      rw [added, List.map_append]
      exact List.subset_append_left _ _
  refine ⟨by rw [queue]; exact sound.queue, ?_, ?_, ?_, ?_, ?_, ?_, ?_⟩
  · intro id body hheld
    rw [queue]
    exact sound.held id body (held id body hheld)
  · intro id hacking
    rw [queue]
    rcases acked id hacking with hold | ⟨body, hheld, hclaimed⟩
    · obtain ⟨hid, hclaimed⟩ := sound.acked id hold
      exact ⟨hid, fun body hbody => (hclaimed body hbody).mono inbox⟩
    · obtain ⟨hid, hbody⟩ := sound.held id body hheld
      refine ⟨hid, fun other hother => ?_⟩
      rw [hbody other hother]
      exact hclaimed
  · cases opening with
    | kept ids opens =>
      rw [ids]
      exact sound.ids
    | opened incident event fresh isOpen added announced =>
      rw [added, List.map_append, List.nodup_append]
      refine ⟨sound.ids, by simp, fun a ha b hb => ?_⟩
      obtain ⟨row, hrow, rfl⟩ := List.mem_map.mp ha
      rw [List.map_singleton, List.mem_singleton] at hb
      rw [hb]
      exact fresh row hrow
  · intro row hrow
    rcases claims row hrow with hold | ⟨hthere, _⟩
    · exact ids (sound.inboxed row hold)
    · exact ids hthere
  · intro row hrow htype hversion incident hincident hid
    rcases claims row hrow with hold | ⟨_, hhandled⟩
    · intro hopen
      cases opening with
      | kept ids opens =>
        obtain ⟨old, holdMem, holdId, holdOpen⟩ := opens incident hincident hopen
        exact sound.handled row hold htype hversion old holdMem (holdId.trans hid) holdOpen
      | opened opened event fresh isOpen added announced =>
        rw [added] at hincident
        rcases List.mem_append.mp hincident with hincident | hincident
        · exact sound.handled row hold htype hversion incident hincident hid hopen
        · rw [List.mem_singleton.mp hincident] at hid
          obtain ⟨old, holdMem, holdId⟩ := List.mem_map.mp (sound.inboxed row hold)
          exact fresh old holdMem (holdId.trans hid.symm)
    · exact hhandled incident hincident hid
  · intro incident hincident hopen
    cases opening with
    | kept ids opens =>
      obtain ⟨old, holdMem, holdId, holdOpen⟩ := opens incident hincident hopen
      rw [← holdId]
      exact kept old.id (sound.pending old holdMem holdOpen)
    | opened opened event fresh isOpen added announced =>
      rw [added] at hincident
      rcases List.mem_append.mp hincident with hincident | hincident
      · exact kept incident.id (sound.pending incident hincident hopen)
      · rw [List.mem_singleton.mp hincident]
        obtain ⟨sent, hsent, rfl⟩ := published event List.mem_cons_self
        exact .placed sent hsent announced
  · intro sent hsent
    rcases sources sent hsent with hold | hevent
    · obtain ⟨incidentId, hthere, hannounces⟩ := sound.announced sent hold
      exact ⟨incidentId, ids hthere, hannounces⟩
    · cases opening with
      | kept ids opens => cases hevent
      | opened opened event fresh isOpen added announced =>
        rw [List.mem_singleton.mp hevent]
        exact ⟨opened.id, by rw [added]; simp, announced⟩

/-- What an intake leaves: the inbox has grown by the key of the event at most, it has this key, and
the incident of the key is not open. -/
theorem intake_claims {event : DomainEvent} {before after : Db} {started : Bool}
    (ids : (before.incidents.map Incident.id).Nodup)
    (h : Intake event incidentId before after started) :
    before.inbox ⊆ after.inbox ∧ claimedBefore event incidentId after = true ∧
      ∀ row ∈ after.inbox, row ∈ before.inbox ∨
        (row.incidentId ∈ before.incidents.map Incident.id ∧
          ∀ incident ∈ after.incidents, incident.id = row.incidentId → incident.state ≠ .open) := by
  have grown : after.inbox = before.inbox ++ [event.claim incidentId] →
      before.inbox ⊆ after.inbox ∧ claimedBefore event incidentId after = true := by
    intro hinbox
    rw [hinbox]
    refine ⟨List.subset_append_left _ _, List.any_eq_true.mpr ⟨event.claim incidentId, ?_, ?_⟩⟩
    · rw [hinbox]
      exact List.mem_concat_self
    · simp [DomainEvent.claim]
  have claimOf : ∀ {row : ProcessedEvent} {found : Incident},
      before.incidents.find? (fun row => row.id = incidentId) = some found →
      row ∈ before.inbox ++ [event.claim incidentId] → row ∈ before.inbox ∨
        (row.incidentId = incidentId ∧ found ∈ before.incidents ∧ found.id = incidentId) := by
    intro row found hfound hrow
    rcases List.mem_append.mp hrow with hrow | hrow
    · exact .inl hrow
    · rw [List.mem_singleton.mp hrow]
      exact .inr ⟨rfl, List.mem_of_find?_eq_some hfound, by simpa using List.find?_some hfound⟩
  cases h with
  | known claimed inbox incidents =>
    rw [inbox]
    refine ⟨List.Subset.refl _, ?_, fun row hrow => .inl hrow⟩
    exact claimedBefore_mono (by rw [inbox]; exact List.Subset.refl _) claimed
  | late found unclaimed inbox hfound handled incidents =>
    refine ⟨(grown inbox).1, (grown inbox).2, fun row hrow => ?_⟩
    rw [inbox] at hrow
    rcases claimOf hfound hrow with hold | ⟨hrowId, hmem, hid⟩
    · exact .inl hold
    · refine .inr ⟨hrowId ▸ hid ▸ List.mem_map_of_mem hmem, fun incident hincident hsame => ?_⟩
      rw [incidents] at hincident
      have hincidentEq : incident = found := List.inj_on_of_nodup_map ids hincident hmem
        (hsame.trans (hrowId.trans hid.symm))
      rw [hincidentEq]
      exact handled
  | started found moved moment unclaimed inbox hfound isOpen move incidents =>
    refine ⟨(grown inbox).1, (grown inbox).2, fun row hrow => ?_⟩
    rw [inbox] at hrow
    rcases claimOf hfound hrow with hold | ⟨hrowId, hmem, hid⟩
    · exact .inl hold
    · refine .inr ⟨hrowId ▸ hid ▸ List.mem_map_of_mem hmem, fun incident hincident hsame => ?_⟩
      rw [incidents] at hincident
      have hmovedId : moved.id = found.id := by
        rw [(transitionTo_ok move).2]
        rfl
      rcases saved_row ids hmem hmovedId hincident with ⟨_, rfl⟩ | ⟨hother, _⟩
      · exact show moved.state ≠ .open from transitionTo_not_open move
      · exact absurd (hsame.trans (hrowId.trans hid.symm)) hother

/-- What `handle` comes to. -/
inductive Handled (ports : ApiPorts World) (flow : Flow World) (world : World)
    (next : Flow World) : Prop
  | idle (same : next = flow)
  | left (db : next.db = flow.db) (hand : next.hand = .free)
  | done (id : Nat) (body : String) (event : WireEvent) (result : ConsumeOpenedResult)
      (held : flow.hand = .holding id body)
      (read : domainEventFromSqsBody ports.toFloat body = some event)
      (ended : (deliver ports.toWorkerPorts event.toDomainEvent (flow.worker world)).ended =
        .committed result)
      (opened : event.eventType = incidentOpenedV1)
      (parsed : ports.parseUuid event.incidentId = some result.incidentId)
      (intake : Intake event.toDomainEvent result.incidentId flow.db next.db result.transitioned)
      (hand : next.hand = .acking id)

theorem handle_handled (ports : ApiPorts World) (flow : Flow World) (world : World) :
    Handled ports flow world (flow.handle ports world) := by
  unfold Flow.handle
  split
  next id body held =>
    split
    · exact .left rfl rfl
    next event read =>
      dsimp only
      cases hended : (deliver ports.toWorkerPorts event.toDomainEvent (flow.worker world)).ended with
      | rolledBack raised =>
        have hfailed : (deliver ports.toWorkerPorts event.toDomainEvent
            (flow.worker world)).ended.isCommitted = false := by
          rw [hended]
          rfl
        exact .left (rolledBack_tables hfailed) rfl
      | committed result =>
        obtain ⟨hopened, hparsed, hintake⟩ := deliver_intake hended
        exact .done id body event result held read hended hopened hparsed hintake rfl
  · exact .idle rfl

/-- Two states that have the same events, each in the same place. -/
structure SamePlaces (flow next : Flow World) : Prop where
  buffers : next.buffers = flow.buffers
  bus : next.bus = flow.bus
  failures : next.failures = flow.failures
  dropped : next.dropped = flow.dropped

theorem SamePlaces.placed (same : SamePlaces flow next) (event : WireEvent) :
    Placed next event ↔ Placed flow event := by
  unfold Placed
  rw [same.buffers, same.bus, same.failures, same.dropped]

theorem flush_kept (ports : ApiPorts World) (flow : Flow World) (events : List WireEvent)
    (accepted : Bool) :
    (flow.flush ports events accepted).queue = flow.queue ∧
      (flow.flush ports events accepted).server = flow.server ∧
      (flow.flush ports events accepted).hand = flow.hand := by
  unfold Flow.flush
  split_ifs <;> exact ⟨rfl, rfl, rfl⟩

theorem handle_kept (ports : ApiPorts World) (flow : Flow World) (world : World) :
    (flow.handle ports world).queue = flow.queue ∧ SamePlaces flow (flow.handle ports world) := by
  unfold Flow.handle
  split
  · split
    · exact ⟨rfl, rfl, rfl, rfl, rfl⟩
    · exact ⟨rfl, rfl, rfl, rfl, rfl⟩
  · exact ⟨rfl, rfl, rfl, rfl, rfl⟩

theorem flowSound_handle (sound : FlowSound ports flow) (world : World) :
    FlowSound ports (flow.handle ports world) := by
  obtain ⟨hqueue, hplaces⟩ := handle_kept ports flow world
  have hhandled := handle_handled ports flow world
  generalize flow.handle ports world = next at *
  cases hhandled with
  | idle same =>
    rw [same]
    exact sound
  | left db hand =>
    refine flowSound_of_hand sound hqueue db hplaces.placed (fun id body hheld => ?_)
      fun id hacking => ?_
    · rw [hand] at hheld
      cases hheld
    · rw [hand] at hacking
      cases hacking
  | done id body event result held read ended opened parsed intake hand =>
    obtain ⟨hinbox, hclaimed, hclaims⟩ := intake_claims sound.ids intake
    refine flowSound_of_tables sound hqueue (opening_intake intake) hinbox hclaims
      (fun event => (hplaces.placed event).mpr) (fun _ h => by cases h)
      (fun sent hsent => .inl ((hplaces.placed sent).mp hsent)) (fun other body hheld => ?_)
      fun other hacking => ?_
    · rw [hand] at hheld
      cases hheld
    · rw [hand] at hacking
      cases hacking
      exact .inr ⟨body, held, event, result.incidentId, read, opened, parsed, hclaimed⟩

theorem placed_request {served : ServedCall World} {events : List WireEvent} (event : WireEvent) :
    Placed { flow with server := served.server, buffers := flow.buffers ++ [events] } event ↔
      Placed flow event ∨ event ∈ events := by
  unfold Placed
  dsimp only
  rw [List.flatten_append, List.flatten_singleton, List.mem_append]
  tauto

theorem flowSound_request (sound : FlowSound ports flow) (arrival : Arrival World)
    (stamp : Instant) : FlowSound ports (flow.request ports arrival stamp) := by
  have hopening := serveArrival_opening ports flow.server arrival
  have hinbox := serveArrival_inbox ports flow.server arrival
  unfold Flow.request
  dsimp only
  generalize serveArrival ports flow.server arrival = served at hopening hinbox
  refine flowSound_of_tables sound rfl hopening ?_ (fun row hrow => .inl ?_)
    (fun event h => (placed_request event).mpr (.inl h))
    (fun event hevent => ⟨event.stamped stamp, (placed_request _).mpr (.inr ?_), rfl⟩)
    (fun sent h => ?_) (fun _ _ h => h) fun _ h => .inl h
  · exact fun row hrow => show row ∈ served.server.worker.db.inbox from hinbox ▸ hrow
  · exact show row ∈ flow.server.worker.db.inbox from hinbox ▸ hrow
  · exact List.mem_map_of_mem hevent
  · refine ((placed_request sent).mp h).imp id fun h => ?_
    obtain ⟨event, hevent, rfl⟩ := List.mem_map.mp h
    exact hevent

/-- The events that a flush takes from their buffer have a new place. -/
theorem placed_flush {front back : List (List WireEvent)} {buffer : List WireEvent} {accepted : Bool}
    (there : flow.buffers = front ++ buffer :: back) (event : WireEvent) :
    Placed ({ flow with buffers := front ++ back }.flush ports buffer accepted) event ↔
      Placed flow event := by
  have hbuffers : event ∈ flow.buffers.flatten ↔
      event ∈ (front ++ back).flatten ∨ event ∈ buffer := by
    rw [there, List.flatten_append, List.flatten_append, List.flatten_cons, List.mem_append,
      List.mem_append, List.mem_append, or_right_comm, or_assoc]
  unfold Flow.flush
  split_ifs
  · change _ ∨ event ∈ flow.bus ++ buffer ∨ _ ∨ _ ↔ _ ∨ _
    rw [hbuffers, List.mem_append]
    simp only [or_assoc, or_comm, or_left_comm]
  · change _ ∨ _ ∨ event ∈ flow.failures ++ buffer ∨ _ ↔ _ ∨ _
    rw [hbuffers, List.mem_append]
    simp only [or_assoc, or_comm, or_left_comm]
  · change _ ∨ _ ∨ _ ∨ event ∈ flow.dropped ++ buffer ↔ _ ∨ _
    rw [hbuffers, List.mem_append]
    simp only [or_assoc, or_comm, or_left_comm]

theorem placed_stop {world : World} (event : WireEvent) :
    Placed (flow.stop ports world) event ↔ Placed flow event := by
  unfold Flow.stop Placed
  dsimp only
  rw [List.flatten_nil, List.mem_append]
  have : event ∉ ([] : List WireEvent) := List.not_mem_nil
  tauto

/-- An incident whose event is claimed is not open. -/
theorem not_open_of_claimed (sound : FlowSound ports flow)
    (parses : ∀ id : Uuid, ports.parseUuid id.str = some id) {event : WireEvent}
    (read : domainEventFromSqsBody ports.toFloat body = some event)
    (announces : event.Announces incidentId) (claimed : Claimed ports body flow.db) :
    ∀ incident ∈ flow.db.incidents, incident.id = incidentId → incident.state ≠ .open := by
  obtain ⟨other, id, hread, _, hparse, hclaimed⟩ := claimed
  rw [read] at hread
  cases hread
  rw [announces.incident, parses] at hparse
  cases hparse
  obtain ⟨row, hrow, hkey⟩ := List.any_eq_true.mp hclaimed
  simp only [Bool.and_eq_true, decide_eq_true_eq] at hkey
  obtain ⟨⟨hid, htype⟩, hversion⟩ := hkey
  intro incident hincident hsame
  exact sound.handled row hrow (htype.trans announces.eventType)
    (hversion.trans announces.schemaVersion) incident hincident (hsame.trans hid.symm)

theorem flowSound_delete (sound : FlowSound ports flow)
    (parses : ∀ id : Uuid, ports.parseUuid id.str = some id) {id : Nat}
    (done : flow.hand = .acking id) :
    FlowSound ports { flow with queue := flow.queue.delete id, hand := .free } := by
  have step : Step maxReceiveCount flow.queue (.delete id) (flow.queue.delete id) := .delete id
  refine ⟨sound_step sound.queue step, (fun _ _ h => by cases h), (fun _ h => by cases h), sound.ids,
    sound.inboxed, sound.handled, fun incident hincident hopen => ?_, sound.announced⟩
  cases sound.pending incident hincident hopen with
  | placed event there announces => exact .placed event there announces
  | inQueue other body event there read announces =>
    by_cases hother : other = id
    · rw [hother] at there
      have hclaimed := (sound.acked id done).2 body there
      exact absurd hopen (not_open_of_claimed sound parses read announces hclaimed incident
        hincident rfl)
    · refine .inQueue other body event (holds_step step there fun h => hother ?_) read announces
      cases h
      rfl

theorem flowSound_step (parses : ∀ id : Uuid, ports.parseUuid id.str = some id)
    {action : FlowAction World} (sound : FlowSound ports flow)
    (step : FlowStep ports flow action next) : FlowSound ports next := by
  cases step with
  | request arrival stamp => exact flowSound_request sound arrival stamp
  | flush buffer accepted there =>
    obtain ⟨hqueue, hserver, hhand⟩ := flush_kept ports { flow with buffers := _ } buffer accepted
    exact flowSound_of_hand sound hqueue (congrArg (fun server => server.worker.db) hserver)
      (placed_flush there) (fun id body hheld => sound.held id body (hhand ▸ hheld))
      fun id hacking => sound.acked id (hhand ▸ hacking)
  | stop world =>
    exact flowSound_of_hand sound rfl rfl placed_stop sound.held sound.acked
  | @route front back event body there carried =>
    refine flowSound_of_queue sound (.send body) (fun _ h => by cases h) rfl rfl ?_ ?_
    · intro other hother
      unfold Placed at hother ⊢
      rw [there]
      simp only [List.mem_append, List.mem_cons] at hother ⊢
      tauto
    · intro other hother
      by_cases hsame : other = event
      · rw [hsame]
        exact .inr ⟨_, body, holds_send _ body, read_of_carries carried⟩
      · unfold Placed at hother ⊢
        rw [there] at hother
        simp only [List.mem_append, List.mem_cons] at hother ⊢
        tauto
  | duplicate event body there carried =>
    exact flowSound_of_messages sound (.send body) fun _ h => by cases h
  | foreign body =>
    exact flowSound_of_messages sound (.send body) fun _ h => by cases h
  | @receive queue message idle there step =>
    have hmoved := flowSound_of_messages sound step fun _ h => by cases h
    refine flowSound_of_hand hmoved rfl rfl (fun _ => Iff.rfl) (fun id body hheld => ?_)
      fun id hacking => by cases hacking
    cases hheld
    refine ⟨Nat.lt_of_lt_of_le (sound.queue.sent message (mem_kept.mpr (.inl there)))
      (sent_step step), fun other hother => ?_⟩
    rcases holds_of_step step hother with ⟨found, hfound, hid, rfl⟩ | ⟨hsend, _⟩
    · rw [sound.queue.eq_of_id (mem_kept.mpr (.inl there)) hfound hid]
    · cases hsend
  | expire id =>
    exact flowSound_of_messages sound (.expire id) fun _ h => by cases h
  | redrive id step =>
    exact flowSound_of_messages sound step fun _ h => by cases h
  | handle world => exact flowSound_handle sound world
  | delete id done => exact flowSound_delete sound parses done
  | crash world =>
    exact flowSound_of_hand sound rfl rfl (fun _ => Iff.rfl) (fun _ _ h => by cases h)
      fun _ h => by cases h

theorem flowStep_opening {action : FlowAction World} (step : FlowStep ports flow action next) :
    ∃ events, Opening flow.db next.db events := by
  cases step with
  | request arrival stamp => exact ⟨_, serveArrival_opening ports flow.server arrival⟩
  | flush buffer accepted there =>
    obtain ⟨_, hserver, _⟩ := flush_kept ports { flow with buffers := _ } buffer accepted
    exact ⟨[], opening_of_eq (congrArg (fun server => server.worker.db.incidents) hserver)⟩
  | handle world =>
    refine ⟨[], ?_⟩
    have hhandled := handle_handled ports flow world
    generalize flow.handle ports world = next at *
    cases hhandled with
    | idle same => exact opening_of_eq (by rw [same])
    | left db hand => exact opening_of_eq (by rw [db])
    | done id body event result held read ended opened parsed intake hand =>
      exact opening_intake intake
  | _ => exact ⟨[], opening_of_eq rfl⟩

theorem intake_inbox {event : DomainEvent} {before after : Db} {started : Bool}
    (h : Intake event incidentId before after started) : before.inbox ⊆ after.inbox := by
  cases h with
  | known claimed inbox incidents =>
    rw [inbox]
    exact List.Subset.refl _
  | late row unclaimed inbox found handled incidents =>
    rw [inbox]
    exact List.subset_append_left _ _
  | started row moved moment unclaimed inbox found isOpen move incidents =>
    rw [inbox]
    exact List.subset_append_left _ _

theorem flowStep_inbox {action : FlowAction World} (step : FlowStep ports flow action next) :
    flow.db.inbox ⊆ next.db.inbox := by
  cases step with
  | request arrival stamp =>
    change flow.db.inbox ⊆ (serveArrival ports flow.server arrival).server.worker.db.inbox
    rw [serveArrival_inbox]
    exact List.Subset.refl _
  | flush buffer accepted there =>
    obtain ⟨_, hserver, _⟩ := flush_kept ports { flow with buffers := _ } buffer accepted
    rw [Flow.db, Flow.db, hserver]
    exact List.Subset.refl _
  | handle world =>
    have hhandled := handle_handled ports flow world
    generalize flow.handle ports world = next at *
    cases hhandled with
    | idle same =>
      rw [same]
      exact List.Subset.refl _
    | left db hand =>
      rw [db]
      exact List.Subset.refl _
    | done id body event result held read ended opened parsed intake hand =>
      exact intake_inbox intake
  | _ => exact List.Subset.refl _

/-- The incident is there and no longer open. -/
def Left (db : Db) (incidentId : Uuid) : Prop :=
  incidentId ∈ db.incidents.map Incident.id ∧
    ∀ incident ∈ db.incidents, incident.id = incidentId → incident.state ≠ .open

theorem left_opening {before after : Db} {events : List DomainEvent}
    (h : Left before incidentId) (opening : Opening before after events) :
    Left after incidentId := by
  obtain ⟨hthere, hleft⟩ := h
  cases opening with
  | kept ids opens =>
    refine ⟨ids ▸ hthere, fun incident hincident hid hopen => ?_⟩
    obtain ⟨old, hold, hsame, hwas⟩ := opens incident hincident hopen
    exact hleft old hold (hsame.trans hid) hwas
  | opened opened event fresh isOpen added announced =>
    refine ⟨by rw [added, List.map_append]; exact List.mem_append_left _ hthere,
      fun incident hincident hid => ?_⟩
    rw [added] at hincident
    rcases List.mem_append.mp hincident with hincident | hincident
    · exact hleft incident hincident hid
    · rw [List.mem_singleton.mp hincident] at hid
      obtain ⟨old, hold, hsame⟩ := List.mem_map.mp hthere
      exact absurd (hsame.trans hid.symm) (fresh old hold)

end Sound

end Aegis
