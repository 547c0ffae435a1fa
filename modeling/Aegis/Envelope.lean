import Aegis.IncidentSignals
import Aegis.Loads

namespace Aegis

open JsonReader

/-- A `DomainEvent` with its timestamp. -/
structure WireEvent extends DomainEvent where
  timestamp : String

def WireEvent.asDetail (event : WireEvent) : Fields :=
  [("event_id", .str event.eventId), ("event_type", .str event.eventType),
    ("schema_version", .str event.schemaVersion), ("timestamp", .str event.timestamp),
    ("correlation_id", .str event.correlationId), ("incident_id", .str event.incidentId)]

/-- The `Detail` of the entry that `publish` puts on the bus. -/
def WireEvent.detail (event : WireEvent) : String := (Value.obj event.asDetail).compact

/-- `strftime("%Y-%m-%dT%H:%M:%SZ")` of a UTC moment. -/
def secondText (moment : Instant) : String :=
  let seconds := moment / 1000000 % 86400
  hourText moment ++ ":" ++ decimal 2 (seconds / 60 % 60).toNat ++ ":" ++
    decimal 2 (seconds % 60).toNat ++ "Z"

/-- An event with the moment at which it is made. -/
def DomainEvent.stamped (event : DomainEvent) (moment : Instant) : WireEvent :=
  { event with timestamp := secondText moment }

/-- `str(detail[key])` -/
def textAt (detail : Fields) (key : String) : Option String := (detail.lookup key).map Value.pyStr

def eventOfDetail (detail : Fields) : Option WireEvent := do
  let eventId ← textAt detail "event_id"
  let eventType ← textAt detail "event_type"
  let schemaVersion ← textAt detail "schema_version"
  let timestamp ← textAt detail "timestamp"
  let correlationId ← textAt detail "correlation_id"
  let incidentId ← textAt detail "incident_id"
  pure { eventId, eventType, schemaVersion, correlationId, incidentId, timestamp }

section Body

variable (toFloat : List Char → Option FloatText)

/-- The `detail` of a payload, or the payload itself; a text is read once more. -/
def detailOf (payload : Fields) : Option Fields :=
  match (payload.lookup "detail").getD (.obj payload) with
  | .obj detail => some detail
  | .str text =>
    match loads toFloat text with
    | some (.obj detail) => some detail
    | _ => none
  | _ => none

/-- `domain_event_from_sqs_body`; nothing when it raises. -/
def domainEventFromSqsBody (body : String) : Option WireEvent :=
  match loads toFloat body with
  | some (.obj payload) => (detailOf toFloat payload).bind eventOfDetail
  | _ => none

/-- The ways in which a message carries a detail: EventBridge puts it under `detail`, as an object;
there it may also be a text, and a test sends it bare. -/
inductive Carries (body detail : String) : Prop
  | embedded (payload : Fields) (value : Value) (read : loads toFloat body = some (.obj payload))
      (under : payload.lookup "detail" = some value) (same : loads toFloat detail = some value)
  | quoted (payload : Fields) (read : loads toFloat body = some (.obj payload))
      (under : payload.lookup "detail" = some (.str detail))
  | bare (same : loads toFloat body = loads toFloat detail)

end Body

section RoundTrip

variable {toFloat : List Char → Option FloatText} {event : WireEvent} {body : String}

theorem plain_asDetail (event : WireEvent) : (Value.obj event.asDetail).Plain toFloat := by
  refine ⟨?_, trivial, trivial, trivial, trivial, trivial, trivial, trivial⟩
  change ["event_id", "event_type", "schema_version", "timestamp", "correlation_id",
    "incident_id"].Nodup
  decide

theorem loads_detail (event : WireEvent) :
    loads toFloat event.detail = some (.obj event.asDetail) :=
  loads_write compact_writer _ (plain_asDetail event)

theorem eventOfDetail_asDetail (event : WireEvent) :
    eventOfDetail event.asDetail = some event := rfl

theorem asDetail_lookup (event : WireEvent) : event.asDetail.lookup "detail" = none := rfl

/-- However a message carries the detail of an event, the event is what is read of it. -/
theorem read_of_carries (carried : Carries toFloat body event.detail) :
    domainEventFromSqsBody toFloat body = some event := by
  have hdetail : loads toFloat event.detail = some (.obj event.asDetail) := loads_detail event
  unfold domainEventFromSqsBody
  cases carried with
  | embedded payload value read under same =>
    rw [hdetail] at same
    cases same
    rw [read]
    dsimp only
    unfold detailOf
    rw [under]
    exact eventOfDetail_asDetail event
  | quoted payload read under =>
    rw [read]
    dsimp only
    unfold detailOf
    rw [under]
    dsimp only [Option.getD]
    rw [hdetail]
    exact eventOfDetail_asDetail event
  | bare same =>
    rw [same, hdetail]
    dsimp only
    unfold detailOf
    rw [asDetail_lookup]
    exact eventOfDetail_asDetail event

theorem detail_injective : Function.Injective WireEvent.detail := by
  intro event other h
  have hread := @read_of_carries (fun _ => none) event event.detail (.bare rfl)
  have hother := @read_of_carries (fun _ => none) other event.detail (.bare (by rw [h]))
  rw [hread] at hother
  exact Option.some.inj hother

/-- The consumer reads the event that was published, however the message carries it, and the
message carries no other. -/
theorem carried_event_read (carried : Carries toFloat body event.detail) :
    domainEventFromSqsBody toFloat body = some event ∧
      ∀ other : WireEvent, Carries toFloat body other.detail → other = event := by
  have hread := read_of_carries carried
  refine ⟨hread, fun other hother => ?_⟩
  have hagain := read_of_carries hother
  rw [hread] at hagain
  exact (Option.some.inj hagain).symm

/-- A message whose fields have the detail under `detail` carries it. -/
theorem carries_embedded {payload : Fields} (plain : (Value.obj payload).Plain toFloat)
    (under : payload.lookup "detail" = some (.obj event.asDetail)) :
    Carries toFloat (Value.obj payload).compact event.detail :=
  .embedded payload (.obj event.asDetail) (loads_write compact_writer _ plain) under
    (loads_detail event)

end RoundTrip

def sampleEvent : WireEvent :=
  (DomainEvent.mk (Uuid.str 11) incidentOpenedV1 "1" "r1" (Uuid.str 10)).stamped 60000000

def samplePayload : Fields :=
  [("version", .str "0"), ("detail-type", .str incidentOpenedV1), ("source", .str "aegis.incidents"),
    ("detail", .obj sampleEvent.asDetail)]

theorem samplePayload_carries {toFloat : List Char → Option FloatText} :
    Carries toFloat (Value.obj samplePayload).compact sampleEvent.detail := by
  have keys : (samplePayload.map Prod.fst).Nodup := by
    change ["version", "detail-type", "source", "detail"].Nodup
    decide
  exact carries_embedded ⟨keys, trivial, trivial, trivial, plain_asDetail sampleEvent, trivial⟩ rfl

theorem sample_event_read :
    domainEventFromSqsBody (fun _ => none) (Value.obj samplePayload).compact = some sampleEvent ∧
      ∀ other : WireEvent,
        Carries (fun _ => none) (Value.obj samplePayload).compact other.detail →
          other = sampleEvent :=
  carried_event_read samplePayload_carries

end Aegis
