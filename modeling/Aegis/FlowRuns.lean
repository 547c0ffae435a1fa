import Aegis.EventFlow
import Aegis.RcaRoundTrip

namespace Aegis

open Raising Proc StepPath MessageQueue

section Samples

def initialFlow : Flow Script :=
  ⟨emptyServer, [], emptyWorker.process, [], Queue.empty, .free, [], []⟩

def servedFlow : Flow Script := initialFlow.request scriptedApi createArrival 60000000

/-- The buffer of the request is flushed. -/
def announcedFlow : Flow Script :=
  { servedFlow with buffers := [] }.flush scriptedApi [sampleEvent] true

def sampleBody : String := (Value.obj samplePayload).compact

def routedFlow : Flow Script :=
  { announcedFlow with bus := [], queue := announcedFlow.queue.send sampleBody }

def heldFlow : Flow Script :=
  { routedFlow with queue := routedFlow.queue.receive 0, hand := .holding 0 sampleBody }

theorem servedFlow_buffers : servedFlow.buffers = [[sampleEvent]] := by
  have hdetails : servedFlow.buffers.map (fun buffer => buffer.map WireEvent.detail) =
      [[sampleEvent]].map fun buffer => buffer.map WireEvent.detail := by
    decide +kernel
  exact List.map_injective_iff.mpr (List.map_injective_iff.mpr detail_injective) hdetails

theorem scriptedApi_publishes : scriptedApi.hasPublisher = true := by decide

theorem announcedFlow_eq : announcedFlow = { servedFlow with buffers := [], bus := [sampleEvent] } := by
  have hbus : servedFlow.bus = [] := rfl
  unfold announcedFlow Flow.flush
  rw [if_pos scriptedApi_publishes, if_pos rfl]
  dsimp only
  rw [hbus, List.nil_append]

theorem announcedFlow_bus : announcedFlow.bus = [sampleEvent] := by rw [announcedFlow_eq]

theorem announcedFlow_queue : announcedFlow.queue = Queue.empty := by
  rw [announcedFlow_eq]
  rfl

theorem announcedFlow_hand : announcedFlow.hand = .free := by
  rw [announcedFlow_eq]
  rfl

theorem servedFlow_step : FlowStep scriptedApi initialFlow (.request createArrival 60000000)
    servedFlow := .request createArrival 60000000

theorem announcedFlow_step :
    FlowStep scriptedApi servedFlow (.flush [sampleEvent] true) announcedFlow :=
  @FlowStep.flush _ scriptedApi servedFlow [] [] [sampleEvent] true servedFlow_buffers

theorem routedFlow_step :
    FlowStep scriptedApi announcedFlow (.route sampleEvent sampleBody) routedFlow :=
  @FlowStep.route _ scriptedApi announcedFlow [] [] sampleEvent sampleBody announcedFlow_bus
    samplePayload_carries

theorem routedFlow_messages :
    (⟨0, sampleBody, 0, false⟩ : Message String) ∈ routedFlow.queue.messages := by
  unfold routedFlow
  rw [announcedFlow_queue]
  exact List.mem_singleton_self _

theorem heldFlow_step : FlowStep scriptedApi routedFlow (.receive 0 sampleBody) heldFlow :=
  @FlowStep.receive _ scriptedApi routedFlow _ ⟨0, sampleBody, 0, false⟩ announcedFlow_hand
    routedFlow_messages (.receive routedFlow_messages (by decide))

def sentPath : List (FlowAction Script × Flow Script) :=
  [(.request createArrival 60000000, servedFlow), (.flush [sampleEvent] true, announcedFlow),
    (.route sampleEvent sampleBody, routedFlow)]

def heldPath : List (FlowAction Script × Flow Script) := [(.receive 0 sampleBody, heldFlow)]

theorem heldFlow_path : Path (FlowStep scriptedApi) initialFlow (sentPath ++ heldPath) :=
  .next servedFlow_step (.next announcedFlow_step
    (.next routedFlow_step (.next heldFlow_step .stop)))

theorem final_sentPath : final initialFlow sentPath = routedFlow := rfl

theorem scriptedApi_parseUuid : scriptedApi.parseUuid = readUuid := rfl

theorem scriptedApi_parses (id : Uuid) : scriptedApi.parseUuid id.str = some id := by
  rw [scriptedApi_parseUuid]
  exact readUuid_str id

end Samples

section Runs

variable {World : Type} {ports : ApiPorts World} {start : Flow World} {incidentId : Uuid}

/-- A system that is set up: no incident, no message, and a worker that is idle. -/
structure Initial (flow : Flow World) : Prop where
  incidents : flow.db.incidents = []
  inbox : flow.db.inbox = []
  buffers : flow.buffers = []
  bus : flow.bus = []
  failures : flow.failures = []
  dropped : flow.dropped = []
  queue : flow.queue = Queue.empty
  hand : flow.hand = .free

theorem flowSound_initial (initial : Initial start) : FlowSound ports start := by
  refine ⟨by rw [initial.queue]; exact sound_empty, fun id body h => ?_, fun id h => ?_,
    by rw [initial.incidents]; exact List.nodup_nil, fun row h => ?_, fun row h => ?_,
    fun row h => ?_, fun event h => ?_⟩
  · rw [initial.hand] at h
    cases h
  · rw [initial.hand] at h
    cases h
  · rw [initial.inbox] at h
    cases h
  · rw [initial.inbox] at h
    cases h
  · rw [initial.incidents] at h
    cases h
  · rw [Placed, initial.buffers, initial.bus, initial.failures, initial.dropped] at h
    simp at h

theorem flowSound_run (parses : ∀ id : Uuid, ports.parseUuid id.str = some id)
    (initial : Initial start) {path : List (FlowAction World × Flow World)}
    (run : Path (FlowStep ports) start path) :
    ∀ flow ∈ visited start path, FlowSound ports flow :=
  invariant (fun _ _ _ sound step => flowSound_step parses sound step) run
    (flowSound_initial initial)

/-- What a step drops: with a publisher, only what the buffers hold as the API stops. -/
theorem dropped_step {flow next : Flow World} {action : FlowAction World}
    (publishes : ports.hasPublisher = true) (step : FlowStep ports flow action next)
    (up : ∀ world, action ≠ .stop world) : next.dropped = flow.dropped := by
  cases step with
  | flush buffer accepted there =>
    unfold Flow.flush
    rw [if_pos publishes]
    split <;> rfl
  | stop world => exact absurd rfl (up world)
  | handle world => exact (handle_kept ports flow world).2.dropped
  | _ => rfl

theorem dropped_run {path : List (FlowAction World × Flow World)}
    (publishes : ports.hasPublisher = true) (run : Path (FlowStep ports) start path)
    (up : ∀ taken ∈ path, ∀ world, taken.1 ≠ .stop world) :
    ∀ flow ∈ visited start path, flow.dropped = start.dropped :=
  @invariant_of_meets _ _ _ (fun _ action => ∀ world, action ≠ .stop world) _ _
    (fun flow => flow.dropped = start.dropped)
    (fun _ _ _ same up step => (dropped_step publishes step up).trans same) run rfl
    (meets_label.mpr up)

/-- At every moment an event about each open incident is on its way, or the API has logged that it
could not be published or has dropped it, which happens without a publisher or when the API stops
before it has flushed the event; and no event is about an incident that was not committed. -/
theorem open_incident_pending (parses : ∀ id : Uuid, ports.parseUuid id.str = some id)
    (initial : Initial start) {path : List (FlowAction World × Flow World)}
    (run : Path (FlowStep ports) start path) : ∀ flow ∈ visited start path,
    (∀ incident ∈ flow.db.incidents, incident.state = .open → Pending ports flow incident.id) ∧
      (∀ event, Placed flow event → ∃ incident ∈ flow.db.incidents, event.Announces incident.id) ∧
      (ports.hasPublisher = true → (∀ taken ∈ path, ∀ world, taken.1 ≠ .stop world) →
        flow.dropped = []) := by
  intro flow hflow
  have hsound := flowSound_run parses initial run flow hflow
  refine ⟨hsound.pending, fun event hevent => ?_, fun publishes up => ?_⟩
  · obtain ⟨id, hid, hannounces⟩ := hsound.announced event hevent
    obtain ⟨incident, hincident, rfl⟩ := List.mem_map.mp hid
    exact ⟨incident, hincident, hannounces⟩
  · exact (dropped_run publishes run up flow hflow).trans initial.dropped

theorem initialFlow_initial : Initial initialFlow := ⟨rfl, rfl, rfl, rfl, rfl, rfl, rfl, rfl⟩

theorem heldFlow_pending :
    (∀ incident ∈ (final initialFlow (sentPath ++ heldPath)).db.incidents,
      incident.state = .open →
        Pending scriptedApi (final initialFlow (sentPath ++ heldPath)) incident.id) ∧
    (∀ event, Placed (final initialFlow (sentPath ++ heldPath)) event →
      ∃ incident ∈ (final initialFlow (sentPath ++ heldPath)).db.incidents,
        event.Announces incident.id) ∧
    (scriptedApi.hasPublisher = true →
      (∀ taken ∈ sentPath ++ heldPath, ∀ world, taken.1 ≠ .stop world) →
        (final initialFlow (sentPath ++ heldPath)).dropped = []) :=
  open_incident_pending scriptedApi_parses initialFlow_initial heldFlow_path _ final_mem_visited

theorem message_step {flow next : Flow World} {action : FlowAction World} (sound : FlowSound ports flow)
    (step : FlowStep ports flow action next) {id : Nat} {body : String}
    (h : Holds flow.queue id body ∨ Claimed ports body flow.db) :
    Holds next.queue id body ∨ Claimed ports body next.db := by
  rcases h with hholds | hclaimed
  · cases step with
    | request arrival stamp => exact .inl hholds
    | flush buffer accepted there =>
      rw [(flush_kept ports { flow with buffers := _ } buffer accepted).1]
      exact .inl hholds
    | stop world => exact .inl hholds
    | route event sent there carried =>
      exact .inl (holds_step (@Step.send _ maxReceiveCount _ sent) hholds fun h => by cases h)
    | duplicate event sent there carried =>
      exact .inl (holds_step (@Step.send _ maxReceiveCount _ sent) hholds fun h => by cases h)
    | foreign sent =>
      exact .inl (holds_step (@Step.send _ maxReceiveCount _ sent) hholds fun h => by cases h)
    | receive message idle there step =>
      exact .inl (holds_step step hholds fun h => by cases h)
    | expire id => exact .inl (holds_expire.mpr hholds)
    | redrive id step => exact .inl (holds_step step hholds fun h => by cases h)
    | handle world =>
      rw [(handle_kept ports flow world).1]
      exact .inl hholds
    | delete deleted done =>
      by_cases hid : deleted = id
      · rw [hid] at done
        exact .inr ((sound.acked id done).2 body hholds)
      · refine .inl (holds_step (@Step.delete _ maxReceiveCount _ deleted) hholds fun h => ?_)
        cases h
        exact hid rfl
    | crash world => exact .inl hholds
  · exact .inr (hclaimed.mono (flowStep_inbox step))

/-- A message stays in the queue or its dead-letter queue until the event in it is claimed in the
inbox, by a handling that was committed; so one that cannot be read stays for good. How often it is
handed out is bounded by the redrive policy of the queue itself, not by the worker. -/
theorem message_kept_until_claimed (parses : ∀ id : Uuid, ports.parseUuid id.str = some id)
    (initial : Initial start) {before after : List (FlowAction World × Flow World)}
    (run : Path (FlowStep ports) start (before ++ after)) {id : Nat} {body : String}
    (there : Holds (final start before).queue id body) :
    (Holds (final start (before ++ after)).queue id body ∨
        Claimed ports body (final start (before ++ after)).db) ∧
      ∀ message ∈ (final start (before ++ after)).queue.kept,
        message.receives ≤ maxReceiveCount := by
  have hlast : FlowSound ports (final start (before ++ after)) :=
    flowSound_run parses initial run _ final_mem_visited
  refine ⟨?_, hlast.queue.receives⟩
  rw [final_append]
  have hrest : Path (FlowStep ports) (final start before) after := path_of_suffix run
  have hfirst : FlowSound ports (final start before) :=
    flowSound_run parses initial (path_of_append run) _ final_mem_visited
  have hkept : ∀ flow ∈ visited (final start before) after, FlowSound ports flow ∧
      (Holds flow.queue id body ∨ Claimed ports body flow.db) :=
    invariant (fun _ _ _ h step => ⟨flowSound_step parses h.1 step, message_step h.1 step h.2⟩)
      hrest ⟨hfirst, .inl there⟩
  exact (hkept _ final_mem_visited).2

theorem routedFlow_holds : Holds (final initialFlow sentPath).queue 0 sampleBody := by
  rw [final_sentPath]
  exact ⟨_, mem_kept.mpr (.inl routedFlow_messages), rfl, rfl⟩

theorem routed_message_kept :
    (Holds (final initialFlow (sentPath ++ heldPath)).queue 0 sampleBody ∨
        Claimed scriptedApi sampleBody (final initialFlow (sentPath ++ heldPath)).db) ∧
      ∀ message ∈ (final initialFlow (sentPath ++ heldPath)).queue.kept,
        message.receives ≤ maxReceiveCount :=
  message_kept_until_claimed scriptedApi_parses initialFlow_initial heldFlow_path routedFlow_holds

/-- The action is a handling that starts the investigation of an incident. -/
def Starts (ports : ApiPorts World) (flow : Flow World) (action : FlowAction World)
    (incidentId : Uuid) : Prop :=
  ∃ world id body event result, action = .handle world ∧ flow.hand = .holding id body ∧
    domainEventFromSqsBody ports.toFloat body = some event ∧
    (deliver ports.toWorkerPorts event.toDomainEvent (flow.worker world)).ended =
      .committed result ∧ result.transitioned = true ∧ result.incidentId = incidentId

theorem left_started {event : DomainEvent} {before after : Db}
    (h : Intake event incidentId before after true) : Left after incidentId := by
  cases h with
  | started row moved moment unclaimed inbox found isOpen move incidents =>
    have hrowId : row.id = incidentId := by simpa using List.find?_some found
    have hmovedId : moved.id = incidentId := by
      rw [(transitionTo_ok move).2, ← hrowId]
      rfl
    rw [Left, incidents, saveIncident_ids]
    refine ⟨hrowId ▸ List.mem_map_of_mem (List.mem_of_find?_eq_some found),
      fun incident hincident hid => ?_⟩
    obtain ⟨old, hold, rfl⟩ := List.mem_map.mp hincident
    by_cases hsame : old.id = moved.id
    · rw [if_pos hsame]
      exact show moved.state ≠ .open from transitionTo_not_open move
    · rw [if_neg hsame] at hid
      exact absurd (hid.trans hmovedId.symm) hsame

theorem handle_held {flow : Flow World} {world : World} {id : Nat} {body : String}
    {event : WireEvent} (held : flow.hand = .holding id body)
    (read : domainEventFromSqsBody ports.toFloat body = some event) :
    (flow.handle ports world).db =
      (deliver ports.toWorkerPorts event.toDomainEvent (flow.worker world)).worker.db := by
  unfold Flow.handle
  rw [held]
  dsimp only
  rw [read]
  rfl

theorem starts_intake {flow next : Flow World} {action : FlowAction World}
    (h : Starts ports flow action incidentId) (step : FlowStep ports flow action next) :
    ∃ event : WireEvent, Intake event.toDomainEvent incidentId flow.db next.db true := by
  obtain ⟨world, id, body, event, result, rfl, hheld, hread, hended, hstarted, hid⟩ := h
  cases step
  have hintake := (deliver_intake hended).2.2
  rw [hstarted, hid, ← handle_held hheld hread] at hintake
  exact ⟨event, hintake⟩

/-- However often its event is delivered, and whatever stops the worker or is asked of the API
meanwhile, the investigation of an incident is started once. -/
theorem investigation_started_once {before middle after : List (FlowAction World × Flow World)}
    {first second : FlowAction World} {flow last : Flow World}
    (run : Path (FlowStep ports) start
      (before ++ (first, flow) :: (middle ++ (second, last) :: after)))
    (started : Starts ports (final start before) first incidentId) :
    ¬Starts ports (final flow middle) second incidentId := by
  intro again
  obtain ⟨_, hfirst⟩ := starts_intake started (step_of_split run)
  have hrest : Path (FlowStep ports) flow (middle ++ (second, last) :: after) := by
    cases path_of_suffix run with
    | next _ hrest => exact hrest
  have hkept : ∀ moment ∈ visited flow middle, Left moment.db incidentId := by
    refine invariant (fun _ _ _ hleft step => ?_) (path_of_append hrest) (left_started hfirst)
    obtain ⟨events, hopening⟩ := flowStep_opening step
    exact left_opening hleft hopening
  have hleft := hkept _ final_mem_visited
  obtain ⟨_, hsecond⟩ := starts_intake again (step_of_split hrest)
  cases hsecond with
  | started row moved moment unclaimed inbox found isOpen move incidents =>
    exact hleft.2 row (List.mem_of_find?_eq_some found) (by simpa using List.find?_some found) isOpen

/-- A handling of an event that is not claimed, about an open incident, starts its investigation. -/
theorem started_of_open {event : DomainEvent} {before after : Db} {started : Bool} {row : Incident}
    (h : Intake event incidentId before after started)
    (unclaimed : claimedBefore event incidentId before = false)
    (found : before.incidents.find? (fun row => row.id = incidentId) = some row)
    (isOpen : row.state = .open) : started = true := by
  cases h with
  | known claimed _ _ =>
    rw [unclaimed] at claimed
    cases claimed
  | late other _ _ hfound handled _ =>
    rw [found] at hfound
    cases hfound
    exact absurd isOpen handled
  | started _ _ _ _ _ _ _ _ _ => rfl

def latencyEvent : WireEvent := latencyMessage.1.stamped 0

/-- A worker with its first message at hand. -/
def latencyFlow : Flow Script :=
  ⟨⟨latencyWorker.worker, []⟩, [], latencyWorker.worker.process, [],
    (Queue.empty.send latencyEvent.detail).receive 0, .holding 0 latencyEvent.detail, [], []⟩

def handledFlow : Flow Script := latencyFlow.handle scriptedApi latencyMessage.2

def crashedFlow : Flow Script :=
  { handledFlow with process := handledFlow.started scriptedApi (calm 61000000 200), hand := .free }

def redeliveredFlow : Flow Script :=
  { crashedFlow with
    queue := crashedFlow.queue.receive 0
    hand := .holding 0 latencyEvent.detail }

def handledAgainFlow : Flow Script := redeliveredFlow.handle scriptedApi (calm 62000000 300)

theorem handledFlow_queue : handledFlow.queue = latencyFlow.queue :=
  (handle_kept scriptedApi latencyFlow latencyMessage.2).1

theorem crashedFlow_messages :
    (⟨0, latencyEvent.detail, 1, true⟩ : Message String) ∈ crashedFlow.queue.messages := by
  unfold crashedFlow
  rw [handledFlow_queue]
  exact List.mem_singleton_self _

theorem redeliveredFlow_step :
    FlowStep scriptedApi crashedFlow (.receive 0 latencyEvent.detail) redeliveredFlow :=
  @FlowStep.receive _ scriptedApi crashedFlow _ ⟨0, latencyEvent.detail, 1, true⟩ rfl
    crashedFlow_messages (.receive crashedFlow_messages (by decide))

theorem latencyFlow_starts : Starts scriptedApi latencyFlow (.handle latencyMessage.2) 10 := by
  have hread : domainEventFromSqsBody scriptedApi.toFloat latencyEvent.detail = some latencyEvent :=
    read_of_carries (.bare rfl)
  have hcommitted := latencyHandling_committed
  cases hended : (deliver scripted latencyMessage.1
      (latencyWorker.worker.inWorld latencyMessage.2)).ended with
  | rolledBack raised =>
    rw [hended] at hcommitted
    cases hcommitted
  | committed result =>
    obtain ⟨_, hparsed, hintake⟩ := deliver_intake hended
    have hid : result.incidentId = 10 := by
      have : scripted.parseUuid latencyMessage.1.incidentId = some 10 := readUuid_str 10
      rw [this] at hparsed
      exact (Option.some.inj hparsed).symm
    rw [hid] at hintake
    exact ⟨latencyMessage.2, 0, latencyEvent.detail, latencyEvent, result, rfl, rfl, hread, hended,
      started_of_open hintake rfl rfl rfl, hid⟩

def redeliveryPath : List (FlowAction Script × Flow Script) :=
  [(.crash (calm 61000000 200), crashedFlow), (.receive 0 latencyEvent.detail, redeliveredFlow)]

theorem redelivery_path : Path (FlowStep scriptedApi) latencyFlow
    ([] ++ (.handle latencyMessage.2, handledFlow) ::
      (redeliveryPath ++ (.handle (calm 62000000 300), handledAgainFlow) :: [])) :=
  .next (.handle _) (.next (.crash _) (.next redeliveredFlow_step (.next (.handle _) .stop)))

theorem redelivered_not_started :
    ¬Starts scriptedApi (final handledFlow redeliveryPath) (.handle (calm 62000000 300)) 10 :=
  investigation_started_once redelivery_path latencyFlow_starts

/-- The action may change a table: a request as its caller may, and the worker as it handles a
message any table but those of the rules. -/
inductive Permitted (ports : ApiPorts World) (table : Table) : FlowAction World → Prop
  | request (arrival : Arrival World) (stamp : Instant)
      (may : MayChange ports arrival table) : Permitted ports table (.request arrival stamp)
  | handle (world : World) (rules : table ≠ .policyRules) (changes : table ≠ .policyRuleChanges) :
      Permitted ports table (.handle world)

theorem permitted_of_changed {flow next : Flow World} {action : FlowAction World} {table : Table}
    (step : FlowStep ports flow action next) (changed : ¬flow.server.Keeps next.server table) :
    Permitted ports table action := by
  have unchanged : next.server = flow.server → False := fun hsame =>
    changed (hsame ▸ Server.Keeps.refl next.server table)
  cases step with
  | request arrival stamp => exact .request arrival stamp (mayChange_of_changed changed)
  | flush buffer accepted there =>
    exact (unchanged (flush_kept ports { flow with buffers := _ } buffer accepted).2.1).elim
  | stop world =>
    exact absurd ⟨Db.Keeps.refl flow.db table, fun _ => rfl⟩ changed
  | handle world =>
    have hkept : (flow.handle ports world).db.policyRules = flow.db.policyRules ∧
        (flow.handle ports world).server.changes = flow.server.changes := by
      unfold Flow.handle
      split
      · split
        · exact ⟨rfl, rfl⟩
        · exact ⟨deliver_policyRules ports.toWorkerPorts _ (flow.worker world), rfl⟩
      · exact ⟨rfl, rfl⟩
    refine .handle world ?_ ?_
    · rintro rfl
      exact changed ⟨hkept.1, fun h => by cases h⟩
    · rintro rfl
      exact changed ⟨trivial, fun _ => hkept.2⟩
  | _ => exact absurd rfl unchanged

/-- Whatever a run changes in a table, a step changed that may do so. -/
theorem changed_table_authorized {path : List (FlowAction World × Flow World)} {table : Table}
    (run : Path (FlowStep ports) start path)
    (changed : ¬start.server.Keeps (final start path).server table) :
    ∃ before action next after, path = before ++ (action, next) :: after ∧
      ¬(final start before).server.Keeps next.server table ∧ Permitted ports table action := by
  obtain ⟨before, action, next, after, hsplit, hchanged⟩ :=
    @exists_changing_step _ _ _ start path (fun flow next => flow.server.Keeps next.server table)
      (fun flow => .refl flow.server table) (fun _ _ _ => .trans) run changed
  rw [hsplit] at run
  exact ⟨before, action, next, after, hsplit, hchanged, permitted_of_changed (step_of_split run)
    hchanged⟩

theorem keeps_incidents {before after : Server World} (h : before.Keeps after .incidents) :
    after.worker.db.incidents = before.worker.db.incidents := h.1

theorem engineer_changes_incidents : ∃ before action next after,
    sentPath = before ++ (action, next) :: after ∧
      ¬(final initialFlow before).server.Keeps next.server .incidents ∧
        Permitted scriptedApi .incidents action := by
  have run : Path (FlowStep scriptedApi) initialFlow sentPath :=
    .next servedFlow_step (.next announcedFlow_step (.next routedFlow_step .stop))
  refine changed_table_authorized run fun hkept => ?_
  rw [final_sentPath] at hkept
  have hadded : servedFlow.db.incidents.length = 1 := by decide +kernel
  have hsame := keeps_incidents hkept
  unfold routedFlow at hsame
  dsimp only at hsame
  have hserver : announcedFlow.server = servedFlow.server := by rw [announcedFlow_eq]
  rw [hserver] at hsame
  unfold Flow.db at hadded
  rw [hsame] at hadded
  exact absurd hadded (by decide)

end Runs

end Aegis
