import Aegis.Scalars
import Mathlib.Data.List.DropRight
import Mathlib.Data.Rat.Defs

namespace Aegis

/-- The last items of a list: what `deque(maxlen=capacity)` keeps of all that is appended. -/
theorem rtake_push {Item : Type*} (capacity : Nat) (items : List Item) (item : Item) :
    ((items.rtake capacity) ++ [item]).rtake capacity = (items ++ [item]).rtake capacity := by
  unfold List.rtake
  rw [List.length_append, List.length_append, List.length_drop, List.length_singleton]
  cases capacity with
  | zero =>
    simp
  | succ capacity =>
    have hall : items.length + 1 - (capacity + 1) ≤ items.length := by omega
    have hfirst : items.length - (items.length - (capacity + 1)) + 1 - (capacity + 1) ≤
        (items.drop (items.length - (capacity + 1))).length := by
      rw [List.length_drop]
      omega
    rw [List.drop_append_of_le_length hfirst, List.drop_append_of_le_length hall, List.drop_drop]
    congr 2
    omega

inductive ServiceId where
  | user
  | order
  | payment
  | inventory
  | notification
  deriving DecidableEq, Repr

def ServiceId.value : ServiceId → String
  | .user => "user"
  | .order => "order"
  | .payment => "payment"
  | .inventory => "inventory"
  | .notification => "notification"

/-- The keys of `SERVICES`, in the order of `catalog`. -/
def serviceIds : List ServiceId := [.user, .order, .payment, .inventory, .notification]

inductive ServiceStatus where
  | healthy
  | degraded
  | down
  deriving DecidableEq, Repr

/-- `ServiceRuntime` -/
abbrev ServiceRuntime := ServiceId → ServiceStatus

def ServiceRuntime.setStatus (runtime : ServiceRuntime) (serviceId : ServiceId)
    (status : ServiceStatus) : ServiceRuntime :=
  fun other => if other = serviceId then status else runtime other

inductive ScenarioId where
  | dbExhaustion
  | memoryLeak
  | latencySpike
  | badDeployment
  | queueBacklog
  | dependencyFailure
  deriving DecidableEq, Repr

def ScenarioId.value : ScenarioId → String
  | .dbExhaustion => "db_exhaustion"
  | .memoryLeak => "memory_leak"
  | .latencySpike => "latency_spike"
  | .badDeployment => "bad_deployment"
  | .queueBacklog => "queue_backlog"
  | .dependencyFailure => "dependency_failure"

structure ScenarioSpec where
  id : ScenarioId
  displayName : String
  affected : List ServiceId
  statuses : List (ServiceId × ServiceStatus)

/-- `SCENARIOS` -/
def scenarios : ScenarioId → ScenarioSpec
  | .dbExhaustion => ⟨.dbExhaustion, "DB connection exhaustion", [.payment, .order],
      [(.payment, .degraded), (.order, .degraded)]⟩
  | .memoryLeak => ⟨.memoryLeak, "Memory leak", [.user], [(.user, .degraded)]⟩
  | .latencySpike => ⟨.latencySpike, "Latency spike", [.payment], [(.payment, .degraded)]⟩
  | .badDeployment => ⟨.badDeployment, "Bad deployment", [.user], [(.user, .down)]⟩
  | .queueBacklog => ⟨.queueBacklog, "Queue backlog", [.notification], [(.notification, .degraded)]⟩
  | .dependencyFailure => ⟨.dependencyFailure, "Dependency failure", [.order], [(.order, .degraded)]⟩

inductive LogSeverity where
  | debug
  | info
  | warning
  | error
  deriving DecidableEq, Repr

def healthyLatencyMs : ℚ := 12

structure SignalBias where
  logSeverity : LogSeverity := .info
  logMessage : String := "request completed"
  latencyMs : ℚ := healthyLatencyMs
  extraMetricName : Option String := none
  extraMetricValue : Option ℚ := none
  extraMetricUnit : String := "1"
  deployVersion : Option String := none

def latencySpikeMs : ℚ := 850

/-- `_bias` -/
def bias (scenarioId : ScenarioId) (tickIndex : Nat) : SignalBias :=
  match scenarioId with
  | .dbExhaustion => {
      logSeverity := .error
      logMessage := "too many connections"
      latencyMs := healthyLatencyMs * 4
      extraMetricName := some "error_rate"
      extraMetricValue := some (42 / 100)
      extraMetricUnit := "ratio" }
  | .memoryLeak => {
      logSeverity := .warning
      logMessage := "GC thrash; approaching OOM"
      extraMetricName := some "memory_bytes"
      extraMetricValue := some (256 + min tickIndex 20 * 64)
      extraMetricUnit := "bytes" }
  | .latencySpike => {
      logSeverity := .warning
      logMessage := "slow request"
      latencyMs := latencySpikeMs }
  | .badDeployment => {
      logSeverity := .error
      logMessage := "upstream returned 5xx after version bump"
      latencyMs := healthyLatencyMs * 2
      extraMetricName := some "error_rate"
      extraMetricValue := some (55 / 100)
      extraMetricUnit := "ratio"
      deployVersion := some "2026.9.1-bad" }
  | .queueBacklog => {
      logSeverity := .warning
      logMessage := "consumer lag increasing"
      extraMetricName := some "queue_depth"
      extraMetricValue := some 1200 }
  | .dependencyFailure => {
      logSeverity := .error
      logMessage := "timeout calling " ++ if tickIndex % 2 = 1 then "payment" else "inventory"
      latencyMs := healthyLatencyMs * 8
      extraMetricName := some "error_rate"
      extraMetricValue := some (31 / 100)
      extraMetricUnit := "ratio" }

structure LogRecord where
  timestamp : Instant
  service : ServiceId
  severity : LogSeverity
  message : String
  traceId : String

structure MetricSample where
  timestamp : Instant
  service : ServiceId
  name : String
  value : ℚ
  unit : String
  traceId : String

structure TraceSpan where
  timestamp : Instant
  service : ServiceId
  traceId : String
  spanId : String
  durationMs : ℚ

structure DeploymentEvent where
  timestamp : Instant
  service : ServiceId
  version : String
  traceId : String

structure HealthyTick where
  log : LogRecord
  metric : MetricSample
  span : TraceSpan
  extraMetrics : List MetricSample
  deployment : Option DeploymentEvent

/-- `emit_healthy_tick` with the clock reading and the two ids it takes. -/
def emitHealthyTick (service : ServiceId) (resolved : SignalBias) (moment : Instant)
    (traceId spanId : String) : HealthyTick where
  log := ⟨moment, service, resolved.logSeverity, resolved.logMessage, traceId⟩
  metric := ⟨moment, service, "latency_ms", resolved.latencyMs, "ms", traceId⟩
  span := ⟨moment, service, traceId, spanId, resolved.latencyMs⟩
  extraMetrics :=
    match resolved.extraMetricName, resolved.extraMetricValue with
    | some name, some value => [⟨moment, service, name, value, resolved.extraMetricUnit, traceId⟩]
    | _, _ => []
  deployment := resolved.deployVersion.map fun version => ⟨moment, service, version, traceId⟩

structure ScenarioEngine where
  active : Option ScenarioSpec
  tickIndex : Nat

/-- `_DEFAULT_BUFFER_SIZE` -/
def bufferSize : Nat := 256

/-- The state of the simulator process; the newest tick is the last one of its buffer. -/
structure Simulator where
  runtime : ServiceRuntime
  engine : ScenarioEngine
  ticks : List HealthyTick

/-- A request of the simulator. A tick has the time and the ids that it takes; `look` stands for the
requests that change nothing and answer with no tick. -/
inductive SimulatorRequest where
  | tick (service : ServiceId) (moment : Instant) (traceId spanId : String)
  | activate (scenarioId : ScenarioId)
  | deactivate
  | signals (service : Option ServiceId) (limit : Int)
  | look

section Engine

/-- `_reset_runtime` -/
def resetRuntime (runtime : ServiceRuntime) : ServiceRuntime :=
  serviceIds.foldl (fun runtime serviceId => runtime.setStatus serviceId .healthy) runtime

/-- The statuses of a scenario, one after the other. -/
def applyStatuses (statuses : List (ServiceId × ServiceStatus)) (runtime : ServiceRuntime) :
    ServiceRuntime :=
  statuses.foldl (fun runtime entry => runtime.setStatus entry.1 entry.2) runtime

/-- `activate` of `ScenarioEngine` -/
def Simulator.activate (simulator : Simulator) (scenarioId : ScenarioId) : Simulator :=
  { simulator with
    runtime := applyStatuses (scenarios scenarioId).statuses (resetRuntime simulator.runtime)
    engine := ⟨some (scenarios scenarioId), 0⟩ }

/-- `deactivate` of `ScenarioEngine` -/
def Simulator.deactivate (simulator : Simulator) : Simulator :=
  { simulator with runtime := resetRuntime simulator.runtime, engine := ⟨none, 0⟩ }

/-- `bias_for`, with the engine after it. -/
def ScenarioEngine.biasFor (engine : ScenarioEngine) (service : ServiceId) :
    SignalBias × ScenarioEngine :=
  match engine.active with
  | none => ({}, engine)
  | some spec =>
    if service ∈ spec.affected then
      (bias spec.id (engine.tickIndex + 1), { engine with tickIndex := engine.tickIndex + 1 })
    else ({}, engine)

/-- `append` of `SignalBuffer` -/
def appendTick (ticks : List HealthyTick) (tick : HealthyTick) : List HealthyTick :=
  (ticks ++ [tick]).rtake bufferSize

/-- `recent` of `SignalBuffer` -/
def recent (ticks : List HealthyTick) (service : Option ServiceId) (limit : Int) :
    List HealthyTick :=
  let items := ticks.filter fun tick => service.all (tick.log.service = ·)
  if limit < 1 then [] else items.rtake limit.toNat

def Simulator.serve (simulator : Simulator) : SimulatorRequest → Simulator
  | .tick service moment traceId spanId =>
    let (resolved, engine) := simulator.engine.biasFor service
    { simulator with
      engine
      ticks := appendTick simulator.ticks (emitHealthyTick service resolved moment traceId spanId) }
  | .activate scenarioId => simulator.activate scenarioId
  | .deactivate => simulator.deactivate
  | .signals _ _ => simulator
  | .look => simulator

/-- The ticks that a request is answered with. -/
def Simulator.answer (simulator : Simulator) : SimulatorRequest → List HealthyTick
  | .tick service moment traceId spanId =>
    [emitHealthyTick service (simulator.engine.biasFor service).1 moment traceId spanId]
  | .signals service limit => recent simulator.ticks service limit
  | _ => []

/-- `lifespan` with the scenario of the settings. -/
def bootSimulator (scenario : Option ScenarioId) : Simulator :=
  let idle : Simulator := ⟨fun _ => .healthy, ⟨none, 0⟩, []⟩
  match scenario with
  | none => idle
  | some scenarioId => idle.activate scenarioId

def Simulator.serveAll (simulator : Simulator) (requests : List SimulatorRequest) : Simulator :=
  requests.foldl Simulator.serve simulator

end Engine

section History

/-- The scenario that a request leaves active. -/
def SimulatorRequest.leaves (active : Option ScenarioId) : SimulatorRequest → Option ScenarioId
  | .activate scenarioId => some scenarioId
  | .deactivate => none
  | .tick _ _ _ _ => active
  | .signals _ _ => active
  | .look => active

/-- The scenario that the last command left active. -/
def activeAfter (boot : Option ScenarioId) (history : List SimulatorRequest) : Option ScenarioId :=
  history.foldl SimulatorRequest.leaves boot

def SimulatorRequest.isCommand : SimulatorRequest → Bool
  | .activate _ => true
  | .deactivate => true
  | _ => false

def SimulatorRequest.isRead : SimulatorRequest → Bool
  | .signals _ _ => true
  | .look => true
  | _ => false

/-- A tick of a service that the scenario affects. -/
def SimulatorRequest.affectedBy (scenarioId : ScenarioId) : SimulatorRequest → Bool
  | .tick service _ _ _ => service ∈ (scenarios scenarioId).affected
  | _ => false

/-- The ticks of affected services since the last command. -/
def affectedTicks (scenarioId : ScenarioId) (history : List SimulatorRequest) : Nat :=
  (history.reverse.takeWhile fun request => !request.isCommand).countP
    (SimulatorRequest.affectedBy scenarioId)

/-- What a tick of a service tells after a history: under a scenario that affects it the next
stage of this, and else good health. -/
def toldBias (boot : Option ScenarioId) (history : List SimulatorRequest) (service : ServiceId) :
    SignalBias :=
  match activeAfter boot history with
  | none => {}
  | some scenarioId =>
    if service ∈ (scenarios scenarioId).affected then
      bias scenarioId (affectedTicks scenarioId history + 1)
    else {}

/-- The tick of a request after a history. -/
def SimulatorRequest.tells (boot : Option ScenarioId) (history : List SimulatorRequest) :
    SimulatorRequest → List HealthyTick
  | .tick service moment traceId spanId =>
    [emitHealthyTick service (toldBias boot history service) moment traceId spanId]
  | _ => []

/-- All the ticks of a history, that follows on another. -/
def emitted (boot : Option ScenarioId) : List SimulatorRequest → List SimulatorRequest →
    List HealthyTick
  | _, [] => []
  | past, request :: rest => request.tells boot past ++ emitted boot (past ++ [request]) rest

/-- The ticks that a request is answered with after a history: of those that it asks for, the last
ones among the newest of all services. -/
def SimulatorRequest.toldAnswer (boot : Option ScenarioId) (history : List SimulatorRequest) :
    SimulatorRequest → List HealthyTick
  | .signals service limit =>
    (((emitted boot [] history).rtake bufferSize).filter fun tick =>
      service.all (tick.log.service = ·)).rtake limit.toNat
  | request => request.tells boot history

/-- The health of a service under the active scenario. -/
def healthOf (active : Option ScenarioId) (service : ServiceId) : ServiceStatus :=
  (active.bind fun scenarioId => (scenarios scenarioId).statuses.lookup service).getD .healthy

/-- What the simulator is after a history. -/
def told (boot : Option ScenarioId) (history : List SimulatorRequest) : Simulator where
  runtime := healthOf (activeAfter boot history)
  engine := ⟨(activeAfter boot history).map scenarios,
    (activeAfter boot history).elim 0 fun scenarioId => affectedTicks scenarioId history⟩
  ticks := (emitted boot [] history).rtake bufferSize

variable {boot : Option ScenarioId} {history past : List SimulatorRequest}

theorem resetRuntime_eq (runtime : ServiceRuntime) : resetRuntime runtime = fun _ => .healthy := by
  funext service
  cases service <;> rfl

theorem activeAfter_concat (request : SimulatorRequest) :
    activeAfter boot (history ++ [request]) = request.leaves (activeAfter boot history) := by
  unfold activeAfter
  rw [List.foldl_append]
  rfl

theorem affectedTicks_concat (scenarioId : ScenarioId) (request : SimulatorRequest) :
    affectedTicks scenarioId (history ++ [request]) =
      if request.isCommand then 0
      else affectedTicks scenarioId history + if request.affectedBy scenarioId then 1 else 0 := by
  unfold affectedTicks
  rw [List.reverse_append, List.reverse_singleton, List.singleton_append, List.takeWhile_cons]
  cases hcommand : request.isCommand with
  | true => rfl
  | false =>
    rw [Bool.not_false, if_pos rfl, List.countP_cons, if_neg Bool.false_ne_true]

theorem emitted_concat (request : SimulatorRequest) :
    emitted boot past (history ++ [request]) =
      emitted boot past history ++ request.tells boot (past ++ history) := by
  induction history generalizing past with
  | nil =>
    rw [List.append_nil, List.nil_append, emitted, emitted, emitted, List.append_nil,
      List.nil_append]
  | cons head rest ih =>
    rw [List.cons_append, emitted, emitted, ih, List.append_assoc, List.append_assoc,
      List.singleton_append]

theorem applyStatuses_scenario (scenarioId : ScenarioId) :
    applyStatuses (scenarios scenarioId).statuses (fun _ => .healthy) =
      healthOf (some scenarioId) := by
  funext service
  cases scenarioId <;> cases service <;> rfl

theorem activate_told (simulator : Simulator) (scenarioId : ScenarioId) :
    simulator.activate scenarioId = { simulator with
      runtime := healthOf (some scenarioId), engine := ⟨some (scenarios scenarioId), 0⟩ } := by
  unfold Simulator.activate
  rw [resetRuntime_eq, applyStatuses_scenario]

theorem boot_told (boot : Option ScenarioId) : bootSimulator boot = told boot [] := by
  have hactive : activeAfter boot [] = boot := rfl
  have hticks : emitted boot [] [] = [] := by rw [emitted]
  unfold bootSimulator told
  rw [hactive, hticks]
  cases boot with
  | none => rfl
  | some scenarioId =>
    dsimp only
    rw [activate_told]
    rfl

theorem biasFor_told (boot : Option ScenarioId) (history : List SimulatorRequest)
    (service : ServiceId) (moment : Instant) (traceId spanId : String) :
    (told boot history).engine.biasFor service = (toldBias boot history service,
      (told boot (history ++ [.tick service moment traceId spanId])).engine) := by
  have hactive := @activeAfter_concat boot history (.tick service moment traceId spanId)
  change _ = activeAfter boot history at hactive
  unfold ScenarioEngine.biasFor told toldBias
  dsimp only
  rw [hactive]
  cases activeAfter boot history with
  | none => rfl
  | some scenarioId =>
    have hcount := @affectedTicks_concat history scenarioId (.tick service moment traceId spanId)
    dsimp only [Option.map_some, Option.elim]
    rw [hcount]
    have hid : (scenarios scenarioId).id = scenarioId := by cases scenarioId <;> rfl
    by_cases haffected : service ∈ (scenarios scenarioId).affected
    · have hmark : SimulatorRequest.affectedBy scenarioId (.tick service moment traceId spanId) =
          true := decide_eq_true haffected
      rw [if_pos haffected, if_pos haffected, hid, hmark]
      rfl
    · have hmark : SimulatorRequest.affectedBy scenarioId (.tick service moment traceId spanId) =
          false := decide_eq_false haffected
      rw [if_neg haffected, if_neg haffected, hmark]
      rfl

/-- A command leaves no affected tick, and no tick. -/
theorem told_command {request : SimulatorRequest} (command : request.isCommand = true) :
    told boot (history ++ [request]) = { told boot history with
      runtime := healthOf (request.leaves (activeAfter boot history))
      engine := ⟨(request.leaves (activeAfter boot history)).map scenarios, 0⟩ } := by
  have hcount : ∀ scenarioId, affectedTicks scenarioId (history ++ [request]) = 0 := by
    intro scenarioId
    rw [affectedTicks_concat, if_pos command]
  have htells : request.tells boot history = [] := by
    cases request with
    | tick service moment traceId spanId => cases command
    | _ => rfl
  unfold told
  rw [activeAfter_concat, emitted_concat, List.nil_append, htells, List.append_nil]
  simp only [hcount]
  cases request.leaves (activeAfter boot history) <;> rfl

/-- A request that only asks tells nothing. -/
theorem told_read {request : SimulatorRequest} (reads : request.isRead = true) :
    told boot (history ++ [request]) = told boot history := by
  have hleaves : request.leaves (activeAfter boot history) = activeAfter boot history := by
    cases request <;> first | rfl | cases reads
  have hcount : ∀ scenarioId, affectedTicks scenarioId (history ++ [request]) =
      affectedTicks scenarioId history := by
    intro scenarioId
    rw [affectedTicks_concat]
    cases request <;> first | rfl | cases reads
  have htells : request.tells boot history = [] := by
    cases request <;> first | rfl | cases reads
  unfold told
  rw [activeAfter_concat, emitted_concat, hleaves, List.nil_append, htells, List.append_nil]
  simp only [hcount]

theorem serve_told (boot : Option ScenarioId) (history : List SimulatorRequest)
    (request : SimulatorRequest) :
    (told boot history).serve request = told boot (history ++ [request]) := by
  cases request with
  | tick service moment traceId spanId =>
    have hactive := @activeAfter_concat boot history (.tick service moment traceId spanId)
    have hticks := @emitted_concat boot history [] (.tick service moment traceId spanId)
    rw [List.nil_append] at hticks
    unfold Simulator.serve
    dsimp only
    rw [biasFor_told boot history service moment traceId spanId]
    unfold told appendTick
    dsimp only
    rw [hactive, hticks, rtake_push]
    rfl
  | activate scenarioId =>
    rw [told_command rfl]
    exact activate_told _ scenarioId
  | deactivate =>
    rw [told_command rfl]
    unfold Simulator.serve Simulator.deactivate
    dsimp only
    rw [resetRuntime_eq]
    rfl
  | signals service limit => exact (told_read rfl).symm
  | look => exact (told_read rfl).symm

theorem serveAll_told (boot : Option ScenarioId) (history : List SimulatorRequest) :
    (bootSimulator boot).serveAll history = told boot history := by
  induction history using List.reverseRecOn with
  | nil => exact boot_told boot
  | append_singleton history request ih =>
    unfold Simulator.serveAll at ih ⊢
    rw [List.foldl_append, ih]
    exact serve_told boot history request

theorem answer_told (boot : Option ScenarioId) (history : List SimulatorRequest)
    (request : SimulatorRequest) :
    (told boot history).answer request = request.toldAnswer boot history := by
  cases request with
  | tick service moment traceId spanId =>
    unfold Simulator.answer
    dsimp only
    rw [biasFor_told boot history service moment traceId spanId]
    rfl
  | signals service limit =>
    unfold Simulator.answer recent SimulatorRequest.toldAnswer told
    dsimp only
    by_cases hlimit : limit < 1
    · have hzero : limit.toNat = 0 := by omega
      rw [if_pos hlimit, hzero, List.rtake_zero]
    · rw [if_neg hlimit]
  | _ => rfl

/-- Whatever is asked of the simulator, its health, its scenario, its buffer and its answers are
those that the history tells. -/
theorem simulator_tells_history (boot : Option ScenarioId) (history : List SimulatorRequest) :
    (bootSimulator boot).serveAll history = told boot history ∧
      ∀ request, ((bootSimulator boot).serveAll history).answer request =
        request.toldAnswer boot history := by
  have hstate := serveAll_told boot history
  exact ⟨hstate, fun request => hstate ▸ answer_told boot history request⟩

end History

end Aegis
