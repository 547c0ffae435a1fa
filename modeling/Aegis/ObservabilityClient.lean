import Aegis.FreshRestart
import Aegis.Moments
import Aegis.Simulator
import Aegis.Value

namespace Aegis

structure ObservabilitySignal where
  kind : String
  source : String
  timestamp : Instant
  service : String
  summary : String

/-- What the client takes from its process: `datetime.fromisoformat` on texts with a time zone, the
current time, and the JSON text of a number. -/
structure ClientPorts where
  fromIsoformat : String → Option Instant
  now : Instant
  number : ℚ → FloatText

section Rows

variable (number : ℚ → FloatText)

/-- A UTC moment in a JSON response. -/
def wireTime (moment : Instant) : String :=
  String.ofList ((isoformat moment).toList.rdrop 6 ++ ['Z'])

def LogSeverity.value : LogSeverity → String
  | .debug => "debug"
  | .info => "info"
  | .warning => "warning"
  | .error => "error"

def LogRecord.row (log : LogRecord) : Fields :=
  [("kind", .str "log"), ("timestamp", .str (wireTime log.timestamp)),
    ("service", .str log.service.value), ("severity", .str log.severity.value),
    ("message", .str log.message), ("trace_id", .str log.traceId)]

def MetricSample.row (sample : MetricSample) : Fields :=
  [("kind", .str "metric"), ("timestamp", .str (wireTime sample.timestamp)),
    ("service", .str sample.service.value), ("name", .str sample.name),
    ("value", .float (number sample.value)), ("unit", .str sample.unit),
    ("trace_id", .str sample.traceId)]

def TraceSpan.row (span : TraceSpan) : Fields :=
  [("kind", .str "span"), ("timestamp", .str (wireTime span.timestamp)),
    ("service", .str span.service.value), ("trace_id", .str span.traceId),
    ("span_id", .str span.spanId), ("duration_ms", .float (number span.durationMs))]

def DeploymentEvent.row (deployment : DeploymentEvent) : Fields :=
  [("kind", .str "deployment"), ("timestamp", .str (wireTime deployment.timestamp)),
    ("service", .str deployment.service.value), ("version", .str deployment.version),
    ("trace_id", .str deployment.traceId)]

def HealthyTick.rows (tick : HealthyTick) : List Fields :=
  [tick.log.row, tick.metric.row number, tick.span.row number] ++
    tick.extraMetrics.map (MetricSample.row number) ++
    tick.deployment.toList.map DeploymentEvent.row

/-- `_signal_items` -/
def signalItems (ticks : List HealthyTick) : List Fields := ticks.flatMap (HealthyTick.rows number)

end Rows

section Client

variable (ports : ClientPorts)

/-- `_parse_timestamp` of a JSON value. -/
def parseTimestamp (raw : Value) : Instant :=
  let text := strip (raw.strOr "")
  if text = "" then ports.now
  else
    (ports.fromIsoformat (if text.toList.getLast? = some 'Z' then
      String.ofList (text.toList.dropLast ++ "+00:00".toList) else text)).getD ports.now

/-- `_KIND_MAP` -/
def kindMap : Dict String :=
  [("log", "log"), ("metric", "metric"), ("span", "trace"), ("trace", "trace")]

/-- `_summary` -/
def rowSummary (kind : String) (row : Fields) : String :=
  if kind = "log" then
    strip ((Fields.get row "severity").strOr "info" ++ ": " ++ (Fields.get row "message").strOr "")
  else if kind = "metric" then
    (Fields.get row "name").strOr "metric" ++ "=" ++ (Fields.get row "value").pyStr ++
      (Fields.get row "unit").strOr ""
  else
    "span " ++ (Fields.get row "span_id").strOr "" ++ " duration_ms=" ++
      (Fields.get row "duration_ms").pyStr

/-- `_to_signal` -/
def toSignal (fallbackService : String) (row : Fields) : Option ObservabilitySignal :=
  (kindMap.lookup ((Fields.get row "kind").strOr "")).map fun kind =>
    { kind
      source := "simulator"
      timestamp := parseTimestamp ports (Fields.get row "timestamp")
      service := (Fields.get row "service").strOr fallbackService
      summary := rowSummary kind row }

/-- The loop of `fetch_signals`. -/
def collectSignals (service : String) (cap : Nat) :
    List ObservabilitySignal → List Fields → List ObservabilitySignal
  | items, [] => items
  | items, row :: rest =>
    let items := items ++ (toSignal ports service row).toList
    if cap ≤ items.length then items else collectSignals service cap items rest

def parseServiceId (value : String) : Option ServiceId := serviceIds.find? (·.value = value)

/-- `_list_signals` -/
def listSignals (simulator : Simulator) (service : ServiceId) (limit : Int) : List Fields :=
  signalItems ports.number (simulator.answer (.signals (some service) (max 1 (min limit 32))))

/-- `fetch_signals` against a simulator, with the tick that it may ask for; nothing when the
simulator does not know the service and the client raises. -/
def fetchSignals (simulator : Simulator) (service : String) (limit : Int) (moment : Instant)
    (traceId spanId : String) : Option (List ObservabilitySignal) × Simulator :=
  match parseServiceId service with
  | none => (none, simulator)
  | some serviceId =>
    let cap := max 1 (min limit 20)
    let raw := listSignals ports simulator serviceId cap
    if raw.isEmpty then
      let ticked := simulator.serve (.tick serviceId moment traceId spanId)
      (some (collectSignals ports service cap.toNat [] (listSignals ports ticked serviceId cap)),
        ticked)
    else (some (collectSignals ports service cap.toNat [] raw), simulator)

end Client

section Readings

variable (number : ℚ → FloatText)

def MetricSample.reading (sample : MetricSample) : ObservabilitySignal where
  kind := "metric"
  source := "simulator"
  timestamp := sample.timestamp
  service := sample.service.value
  summary := orElse sample.name "metric" ++ "=" ++ (number sample.value).text ++ sample.unit

/-- What a tick says: its log, its samples and its span, and not its deployment. -/
def HealthyTick.readings (tick : HealthyTick) : List ObservabilitySignal :=
  [⟨"log", "simulator", tick.log.timestamp, tick.log.service.value,
      strip (tick.log.severity.value ++ ": " ++ tick.log.message)⟩,
    tick.metric.reading number,
    ⟨"trace", "simulator", tick.span.timestamp, tick.span.service.value,
      "span " ++ tick.span.spanId ++ " duration_ms=" ++ (number tick.span.durationMs).text⟩] ++
    tick.extraMetrics.map (MetricSample.reading number)

end Readings

section Fetched

variable {ports : ClientPorts} {fallback : String} {moment : Instant} {cap : Nat}

/-- The clock reading of a tick is read back from the text that the simulator writes of it. -/
def SimulatorRequest.ReadsBack (ports : ClientPorts) : SimulatorRequest → Prop
  | .tick _ moment _ _ => ports.fromIsoformat (isoformat moment) = some moment
  | _ => True

theorem isoformat_offset (moment : Instant) :
    (isoformat moment).toList = (isoformat moment).toList.rdrop 6 ++ "+00:00".toList := by
  obtain ⟨front, hfront⟩ : ∃ front, (isoformat moment).toList = front ++ "+00:00".toList := by
    unfold isoformat
    dsimp only
    rw [String.toList_append]
    exact ⟨_, rfl⟩
  rw [hfront, show 6 = "+00:00".toList.length from rfl, List.rdrop_append_length]

theorem isSpace_isoChars : ∀ c ∈ isoChars, isSpace c = false := by
  intro c hc
  have visible : (isoChars.all fun c => !isSpace c) = true := by decide
  simpa using List.all_eq_true.mp visible c hc

theorem strip_wireTime (moment : Instant) : strip (wireTime moment) = wireTime moment := by
  refine strip_eq_self_of_no_space fun c hc => ?_
  unfold wireTime at hc
  rw [String.toList_ofList] at hc
  rcases List.mem_append.mp hc with hfront | hz
  · exact isSpace_isoChars c (isoformat_chars moment c ((List.take_sublist _ _).mem hfront))
  · rw [List.mem_singleton.mp hz]
    decide

theorem parseTimestamp_wireTime (reads : ports.fromIsoformat (isoformat moment) = some moment) :
    parseTimestamp ports (.str (wireTime moment)) = moment := by
  have hchars : (wireTime moment).toList = (isoformat moment).toList.rdrop 6 ++ ['Z'] :=
    String.toList_ofList
  have hne : wireTime moment ≠ "" := by
    intro hempty
    rw [hempty] at hchars
    simp at hchars
  have htext : (Value.str (wireTime moment)).strOr "" = wireTime moment :=
    if_pos (decide_eq_true hne)
  have hlast : (wireTime moment).toList.getLast? = some 'Z' := by
    rw [hchars, List.getLast?_append]
    rfl
  have hzone : String.ofList ((wireTime moment).toList.dropLast ++ "+00:00".toList) =
      isoformat moment := by
    rw [hchars, List.dropLast_concat, ← isoformat_offset, String.ofList_toList]
  unfold parseTimestamp
  dsimp only
  rw [htext, strip_wireTime, if_neg hne, if_pos hlast, hzone, reads, Option.getD_some]

theorem strOr_str (text default : String) :
    (Value.str text).strOr default = orElse text default := by
  unfold Value.strOr orElse
  by_cases h : text = ""
  · rw [if_pos h, h]
    rfl
  · rw [if_neg h]
    exact if_pos (decide_eq_true h)

theorem strOr_service (service : ServiceId) :
    (Value.str service.value).strOr fallback = service.value := by
  rw [strOr_str]
  cases service <;> rfl

theorem toSignal_log {log : LogRecord}
    (reads : ports.fromIsoformat (isoformat log.timestamp) = some log.timestamp) :
    toSignal ports fallback log.row = some ⟨"log", "simulator", log.timestamp, log.service.value,
      strip (log.severity.value ++ ": " ++ log.message)⟩ := by
  have hseverity : (Value.str log.severity.value).strOr "info" = log.severity.value := by
    rw [strOr_str]
    cases log.severity <;> rfl
  change some (ObservabilitySignal.mk "log" "simulator" (parseTimestamp ports
    (.str (wireTime log.timestamp))) ((Value.str log.service.value).strOr fallback)
    (strip ((Value.str log.severity.value).strOr "info" ++ ": " ++
      (Value.str log.message).strOr ""))) = _
  rw [parseTimestamp_wireTime reads, strOr_service, hseverity, strOr_str_empty]

theorem toSignal_metric {sample : MetricSample}
    (reads : ports.fromIsoformat (isoformat sample.timestamp) = some sample.timestamp) :
    toSignal ports fallback (sample.row ports.number) = some (sample.reading ports.number) := by
  change some (ObservabilitySignal.mk "metric" "simulator" (parseTimestamp ports
    (.str (wireTime sample.timestamp))) ((Value.str sample.service.value).strOr fallback)
    ((Value.str sample.name).strOr "metric" ++ "=" ++ (ports.number sample.value).text ++
      (Value.str sample.unit).strOr "")) = _
  rw [parseTimestamp_wireTime reads, strOr_service, strOr_str, strOr_str_empty]
  rfl

theorem toSignal_span {span : TraceSpan}
    (reads : ports.fromIsoformat (isoformat span.timestamp) = some span.timestamp) :
    toSignal ports fallback (span.row ports.number) = some ⟨"trace", "simulator", span.timestamp,
      span.service.value, "span " ++ span.spanId ++ " duration_ms=" ++
        (ports.number span.durationMs).text⟩ := by
  change some (ObservabilitySignal.mk "trace" "simulator" (parseTimestamp ports
    (.str (wireTime span.timestamp))) ((Value.str span.service.value).strOr fallback)
    ("span " ++ (Value.str span.spanId).strOr "" ++ " duration_ms=" ++
      (ports.number span.durationMs).text)) = _
  rw [parseTimestamp_wireTime reads, strOr_service, strOr_str_empty]

theorem toSignal_deployment (deployment : DeploymentEvent) :
    toSignal ports fallback deployment.row = none := rfl

/-- The client reads every moment of the tick back. -/
structure HealthyTick.ReadsBack (ports : ClientPorts) (tick : HealthyTick) : Prop where
  log : ports.fromIsoformat (isoformat tick.log.timestamp) = some tick.log.timestamp
  metric : ports.fromIsoformat (isoformat tick.metric.timestamp) = some tick.metric.timestamp
  span : ports.fromIsoformat (isoformat tick.span.timestamp) = some tick.span.timestamp
  extra : ∀ sample ∈ tick.extraMetrics,
    ports.fromIsoformat (isoformat sample.timestamp) = some sample.timestamp

theorem toSignal_rows {tick : HealthyTick} (reads : tick.ReadsBack ports) :
    (tick.rows ports.number).filterMap (toSignal ports fallback) = tick.readings ports.number := by
  have hextras : (tick.extraMetrics.map (MetricSample.row ports.number)).filterMap
      (toSignal ports fallback) = tick.extraMetrics.map (MetricSample.reading ports.number) := by
    rw [List.filterMap_map, ← List.filterMap_eq_map]
    exact List.filterMap_congr fun sample hsample => toSignal_metric (reads.extra sample hsample)
  have hdeployment : (tick.deployment.toList.map DeploymentEvent.row).filterMap
      (toSignal ports fallback) = [] := by
    rw [List.filterMap_map]
    exact List.filterMap_eq_nil_iff.mpr fun deployment _ => toSignal_deployment deployment
  unfold HealthyTick.rows HealthyTick.readings
  rw [List.filterMap_append, List.filterMap_append, hextras, hdeployment, List.append_nil,
    List.filterMap_cons_some (toSignal_log reads.log),
    List.filterMap_cons_some (toSignal_metric reads.metric),
    List.filterMap_cons_some (toSignal_span reads.span), List.filterMap_nil]

theorem toSignal_items {ticks : List HealthyTick} (h : ∀ tick ∈ ticks, tick.ReadsBack ports) :
    (signalItems ports.number ticks).filterMap (toSignal ports fallback) =
      ticks.flatMap (HealthyTick.readings ports.number) := by
  unfold signalItems
  rw [List.filterMap_flatMap]
  exact List.flatMap_congr fun tick htick => toSignal_rows (h tick htick)

theorem collectSignals_eq {items : List ObservabilitySignal} (rows : List Fields)
    (room : items.length < cap) : collectSignals ports fallback cap items rows =
      (items ++ rows.filterMap (toSignal ports fallback)).take cap := by
  induction rows generalizing items with
  | nil =>
    rw [collectSignals, List.filterMap_nil, List.append_nil, List.take_of_length_le (by omega)]
  | cons row rest ih =>
    unfold collectSignals
    dsimp only
    cases hrow : toSignal ports fallback row with
    | none =>
      rw [List.filterMap_cons_none hrow, Option.toList_none, List.append_nil,
        if_neg (by omega)]
      exact ih room
    | some signal =>
      have hlength : (items ++ [signal]).length = items.length + 1 := by
        rw [List.length_append, List.length_singleton]
      have hsplit : items ++ signal :: rest.filterMap (toSignal ports fallback) =
          (items ++ [signal]) ++ rest.filterMap (toSignal ports fallback) := by
        rw [List.append_assoc, List.singleton_append]
      rw [List.filterMap_cons_some hrow, Option.toList_some, hsplit]
      by_cases hfull : cap ≤ (items ++ [signal]).length
      · have hcap : cap = (items ++ [signal]).length := by omega
        rw [if_pos hfull, hcap, List.take_left]
      · rw [if_neg hfull]
        exact ih (by omega)

/-- The first items of a list of lists come of the first lists. -/
theorem take_flatMap_take {Item Part : Type*} {parts : Item → List Part} {least : Nat}
    {items : List Item} (big : ∀ item ∈ items, least ≤ (parts item).length) {count n : Nat}
    (enough : count ≤ least * n) :
    (items.flatMap parts).take count = ((items.take n).flatMap parts).take count := by
  induction items generalizing count n with
  | nil => rw [List.take_nil]
  | cons item rest ih =>
    obtain ⟨hitem, hrest⟩ := List.forall_mem_cons.mp big
    cases n with
    | zero =>
      have hzero : count = 0 := by omega
      rw [hzero, List.take_zero, List.take_zero]
    | succ n =>
      have hless : count - (parts item).length ≤ least * n := by
        rw [Nat.mul_succ] at enough
        omega
      rw [List.take_succ_cons, List.flatMap_cons, List.flatMap_cons, List.take_append,
        List.take_append, ih hrest hless]

theorem three_le_readings (tick : HealthyTick) :
    3 ≤ (tick.readings ports.number).length := by
  unfold HealthyTick.readings
  rw [List.length_append]
  exact Nat.le_add_right _ _

theorem emitHealthyTick_readsBack {service : ServiceId} {resolved : SignalBias} {moment : Instant}
    {traceId spanId : String} (reads : ports.fromIsoformat (isoformat moment) = some moment) :
    (emitHealthyTick service resolved moment traceId spanId).ReadsBack ports where
  log := reads
  metric := reads
  span := reads
  extra := by
    intro sample hsample
    unfold emitHealthyTick at hsample
    dsimp only at hsample
    split at hsample
    · rw [List.mem_singleton.mp hsample]
      exact reads
    · exact absurd hsample List.not_mem_nil

theorem emitted_readsBack {boot : Option ScenarioId} {past history : List SimulatorRequest}
    (reads : ∀ request ∈ history, request.ReadsBack ports) :
    ∀ tick ∈ emitted boot past history, tick.ReadsBack ports := by
  induction history generalizing past with
  | nil => exact fun tick h => absurd h (by rw [emitted]; exact List.not_mem_nil)
  | cons request rest ih =>
    obtain ⟨hrequest, hrest⟩ := List.forall_mem_cons.mp reads
    intro tick htick
    rw [emitted] at htick
    rcases List.mem_append.mp htick with hnow | hlater
    · cases request with
      | tick service moment traceId spanId =>
        rw [List.mem_singleton.mp hnow]
        exact emitHealthyTick_readsBack hrequest
      | _ => exact absurd hnow List.not_mem_nil
    · exact ih hrest tick hlater

/-- The ticks that answer a client's query for a service. -/
def listedTicks (boot : Option ScenarioId) (history : List SimulatorRequest) (service : ServiceId)
    (limit : Int) : List HealthyTick :=
  SimulatorRequest.toldAnswer boot history (.signals (some service) limit)

theorem listSignals_told (boot : Option ScenarioId) (history : List SimulatorRequest)
    (service : ServiceId) {limit : Int} (small : limit ≤ 20) (pos : 1 ≤ limit) :
    listSignals ports ((bootSimulator boot).serveAll history) service limit =
      signalItems ports.number (listedTicks boot history service limit) := by
  have hlimit : max 1 (min limit 32) = limit := by omega
  unfold listSignals listedTicks
  rw [hlimit, serveAll_told, answer_told]

theorem mem_listedTicks {boot : Option ScenarioId} {history : List SimulatorRequest}
    {service : ServiceId} {limit : Int} {tick : HealthyTick}
    (h : tick ∈ listedTicks boot history service limit) : tick ∈ emitted boot [] history := by
  have hfiltered := (List.drop_sublist _ _).mem h
  exact (List.drop_sublist _ _).mem (List.mem_filter.mp hfiltered).1

theorem signalItems_isEmpty (ticks : List HealthyTick) :
    (signalItems ports.number ticks).isEmpty = ticks.isEmpty := by
  cases ticks <;> rfl

/-- A service has ticks to list once it has one more. -/
theorem listedTicks_tick (boot : Option ScenarioId) (history : List SimulatorRequest)
    (service : ServiceId) (moment : Instant) (traceId spanId : String) {limit : Int}
    (pos : 1 ≤ limit) :
    listedTicks boot (history ++ [.tick service moment traceId spanId]) service limit ≠ [] := by
  obtain ⟨below, hbelow⟩ : ∃ below, limit.toNat = below + 1 := ⟨limit.toNat - 1, by omega⟩
  have hticks := @emitted_concat boot history [] (.tick service moment traceId spanId)
  have htells : SimulatorRequest.tells boot ([] ++ history) (.tick service moment traceId spanId) =
      [emitHealthyTick service (toldBias boot history service) moment traceId spanId] := rfl
  have hkept : [emitHealthyTick service (toldBias boot history service) moment traceId
      spanId].filter (fun tick => (some service).all (tick.log.service = ·)) =
      [emitHealthyTick service (toldBias boot history service) moment traceId spanId] :=
    List.filter_eq_self.mpr fun tick htick => by
      rw [List.mem_singleton.mp htick]
      exact decide_eq_true rfl
  unfold listedTicks SimulatorRequest.toldAnswer
  dsimp only
  rw [hticks, htells, show bufferSize = 255 + 1 from rfl, List.rtake_concat_succ,
    List.filter_append, hkept, hbelow, List.rtake_concat_succ]
  exact List.append_ne_nil_of_right_ne_nil _ (List.cons_ne_nil _ _)

theorem collected_listed {boot : Option ScenarioId} {history : List SimulatorRequest}
    {service : ServiceId} {limit : Int}
    (reads : ∀ request ∈ history, request.ReadsBack ports) (pos : 1 ≤ limit) :
    collectSignals ports fallback limit.toNat []
        (signalItems ports.number (listedTicks boot history service limit)) =
      (((listedTicks boot history service limit).take ((limit.toNat + 2) / 3)).flatMap
        (HealthyTick.readings ports.number)).take limit.toNat := by
  have htold : ∀ tick ∈ listedTicks boot history service limit, tick.ReadsBack ports :=
    fun tick htick => emitted_readsBack reads tick (mem_listedTicks htick)
  have hbig : ∀ tick ∈ listedTicks boot history service limit,
      3 ≤ (tick.readings ports.number).length := fun tick _ => three_le_readings tick
  have hroom : ([] : List ObservabilitySignal).length < limit.toNat := by
    rw [List.length_nil]
    omega
  rw [collectSignals_eq _ hroom, List.nil_append, toSignal_items htold]
  exact take_flatMap_take hbig (by omega)

/-- The client gets what the listed ticks tell, but of at most a third as many ticks as it asks for,
and the oldest ones of these; a service that has told nothing yet is ticked first. -/
theorem fetched_signals_told (boot : Option ScenarioId) (history : List SimulatorRequest)
    {service : String} {serviceId : ServiceId} (known : parseServiceId service = some serviceId)
    (limit : Int) (moment : Instant) (traceId spanId : String)
    (reads : ∀ request ∈ history ++ [.tick serviceId moment traceId spanId],
      request.ReadsBack ports) :
    ∃ cap later signals, cap = max 1 (min limit 20) ∧
      fetchSignals ports ((bootSimulator boot).serveAll history) service limit moment traceId
        spanId = (some signals, (bootSimulator boot).serveAll later) ∧
      later = (if (listedTicks boot history serviceId cap).isEmpty then
        history ++ [.tick serviceId moment traceId spanId] else history) ∧
      listedTicks boot later serviceId cap ≠ [] ∧
      signals = (((listedTicks boot later serviceId cap).take ((cap.toNat + 2) / 3)).flatMap
        (HealthyTick.readings ports.number)).take cap.toNat := by
  obtain ⟨hhistory, -⟩ := List.forall_mem_append.mp reads
  refine ⟨_, _, _, rfl, ?_, rfl, ?_, rfl⟩
  · have hpos : 1 ≤ max 1 (min limit 20) := by omega
    have hsmall : max 1 (min limit 20) ≤ 20 := by omega
    have hserved : ((bootSimulator boot).serveAll history).serve
        (.tick serviceId moment traceId spanId) =
        (bootSimulator boot).serveAll (history ++ [.tick serviceId moment traceId spanId]) := by
      unfold Simulator.serveAll
      rw [List.foldl_append]
      rfl
    unfold fetchSignals
    rw [known]
    dsimp only
    rw [hserved, listSignals_told boot history serviceId hsmall hpos, signalItems_isEmpty,
      listSignals_told boot _ serviceId hsmall hpos]
    split
    · rw [collected_listed reads hpos]
    · rw [collected_listed hhistory hpos]
  · split
    · exact listedTicks_tick boot history serviceId moment traceId spanId (by omega)
    next hsome =>
      intro hnone
      rw [hnone] at hsome
      exact hsome rfl

end Fetched

/-- A client of the first day, that reads the latencies of good health and of a spike. -/
def firstDayClient : ClientPorts where
  fromIsoformat := readFirstDay
  now := 60000000
  number value := if value = healthyLatencyMs then ⟨"12.0", by decide⟩ else ⟨"850.0", by decide⟩

def spikeHistory : List SimulatorRequest :=
  [.activate .latencySpike, .tick .payment 1000000 "trace" "span"]

theorem spike_signals_told : ∃ cap later signals, cap = max 1 (min 20 20) ∧
    fetchSignals firstDayClient ((bootSimulator none).serveAll spikeHistory) "order" 20 2500000
      "trace" "span" = (some signals, (bootSimulator none).serveAll later) ∧
    later = (if (listedTicks none spikeHistory .order cap).isEmpty then
      spikeHistory ++ [.tick .order 2500000 "trace" "span"] else spikeHistory) ∧
    listedTicks none later .order cap ≠ [] ∧
    signals = (((listedTicks none later .order cap).take ((cap.toNat + 2) / 3)).flatMap
      (HealthyTick.readings firstDayClient.number)).take cap.toNat := by
  refine fetched_signals_told none spikeHistory (by decide) 20 2500000 "trace" "span" ?_
  have hspike : readFirstDay (isoformat 1000000) = some 1000000 := by decide
  have hfresh : readFirstDay (isoformat 2500000) = some 2500000 := by decide
  intro request hrequest
  rcases List.mem_append.mp hrequest with hpast | hnow
  · rcases List.mem_cons.mp hpast with rfl | htick
    · exact trivial
    · rw [List.mem_singleton.mp htick]
      exact hspike
  · rw [List.mem_singleton.mp hnow]
    exact hfresh

end Aegis
