import Aegis.Fingerprints
import Aegis.OpenIncidents
import Aegis.Simulator

namespace Aegis

open Raising Proc

/-- `_SCENARIO_SEVERITY` -/
def scenarioSeverity : ScenarioId → String
  | .dbExhaustion => "high"
  | .memoryLeak => "high"
  | .latencySpike => "high"
  | .badDeployment => "critical"
  | .queueBacklog => "medium"
  | .dependencyFailure => "high"

/-- `signal_from_scenario` for the service that its first status is of. -/
def signalOf (spec : ScenarioSpec) (service : String) : Fields :=
  [("source", .str "simulator"), ("service", .str service),
    ("title", .str (spec.displayName ++ " on " ++ service)),
    ("summary", .str (spec.displayName ++ ": synthetic failing signals from " ++ service)),
    ("severity", .str (scenarioSeverity spec.id)), ("scenario", .str spec.id.value),
    ("fingerprint", .str (service ++ ":" ++ spec.id.value))]

/-- `signal_from_scenario`; nothing when there is no status. -/
def signalFromScenario (spec : ScenarioSpec) : Option Fields :=
  spec.statuses.head?.map fun status => signalOf spec status.1.value

/-- `encode_signal` -/
def encodeSignal (payload : Fields) : String := (Value.obj payload).compact

/-- `sign_body` -/
def signBody (hmacSha256 : (secret body : String) → String) (secret body : String) : String :=
  "sha256=" ++ hmacSha256 secret body

structure SimulatorSettings where
  aegisBaseUrl : String
  webhookSecret : String

/-- A POST of `AegisClient`. -/
structure WebhookPost where
  url : String
  body : String
  signature : String

/-- Why nothing is posted: the code of the error response, or no status to take the service of. -/
inductive EmitFault where
  | noActiveScenario
  | aegisNotConfigured
  | webhookNotConfigured
  | noStatus

/-- `emit_incident_signal` of `AegisClient`, up to the POST. -/
def clientPost (hmacSha256 : (secret body : String) → String) (settings : SimulatorSettings)
    (payload : Fields) : WebhookPost where
  url := String.ofList (settings.aegisBaseUrl.toList.rdropWhile (· = '/')) ++
    "/api/v1/webhooks/incidents"
  body := encodeSignal payload
  signature := signBody hmacSha256 settings.webhookSecret (encodeSignal payload)

/-- `POST /emit` of the simulator, up to the POST to AEGIS. -/
def emitIncidentSignal (hmacSha256 : (secret body : String) → String)
    (settings : SimulatorSettings) (simulator : Simulator) : Except EmitFault WebhookPost :=
  match simulator.engine.active with
  | none => .error .noActiveScenario
  | some spec =>
    if settings.aegisBaseUrl = "" then .error .aegisNotConfigured
    else if settings.webhookSecret = "" then .error .webhookNotConfigured
    else
      match signalFromScenario (scenarios spec.id) with
      | none => .error .noStatus
      | some payload => .ok (clientPost hmacSha256 settings payload)

/-- A digest is written in hexadecimal. -/
def Hexdigest (hmacSha256 : (secret body : String) → String) : Prop :=
  ∀ secret body, ∀ c ∈ (hmacSha256 secret body).toList, isHexDigit c = true

/-- What the signal of a scenario does: nothing when the request fails, and else an incident of the
scenario is open, which was there before and gets a note of the signal, or which is opened and
announced to the publisher, if there is one. -/
inductive ScenarioTaken {World : Type} (ports : ApiPorts World) (scenarioId : ScenarioId)
    (before : Server World) (served : ServedCall World) : Prop
  | failed (raised : Raised) (answer : served.answer = .error (.raised raised))
      (unchanged : served.server.worker.db = before.worker.db) (events : served.events = [])
  | linked (row incident : Incident) (there : row ∈ before.worker.db.incidents)
      (isOpen : row.state = .open)
      (scenario : scenarioFromFingerprint ports.lower row.fingerprint = scenarioId.value)
      (answer : served.answer = .ok (.signal incident false)) (same : incident.id = row.id)
      (noted : served.server.worker.db = saveIncident
        ((toDomain row).noteDuplicateSignal (ports.now before.worker.process.world).1)
        before.worker.db) (events : served.events = [])
  | opened (incident : Incident) (event : DomainEvent) (isOpen : incident.state = .open)
      (scenario : scenarioFromFingerprint ports.lower incident.fingerprint = scenarioId.value)
      (answer : served.answer = .ok (.signal incident true))
      (added : served.server.worker.db.incidents = before.worker.db.incidents ++ [incident])
      (published : flushPendingDomainEvents ports served.events =
        if ports.hasPublisher then [event] else []) (announced : event.Announces incident.id)

section Payload

variable {toFloat : List Char → Option FloatText}

/-- The service of the signal of a scenario. -/
def scenarioService : ScenarioId → ServiceId
  | .dbExhaustion => .payment
  | .memoryLeak => .user
  | .latencySpike => .payment
  | .badDeployment => .user
  | .queueBacklog => .notification
  | .dependencyFailure => .order

theorem signalFromScenario_eq (scenarioId : ScenarioId) :
    signalFromScenario (scenarios scenarioId) =
      some (signalOf (scenarios scenarioId) (scenarioService scenarioId).value) := by
  cases scenarioId <;> rfl

theorem plain_signalOf (spec : ScenarioSpec) (service : String) :
    (Value.obj (signalOf spec service)).Plain toFloat := by
  refine ⟨?_, trivial, trivial, trivial, trivial, trivial, trivial, trivial, trivial⟩
  change ["source", "service", "title", "summary", "severity", "scenario", "fingerprint"].Nodup
  decide

/-- The command that AEGIS reads from the signal of a scenario. -/
theorem signalOf_request (scenarioId : ScenarioId) : ∃ command,
    incidentSignalRequest (signalOf (scenarios scenarioId) (scenarioService scenarioId).value) =
      some command ∧ command.service = (scenarioService scenarioId).value ∧
      command.scenario = some scenarioId.value := by
  cases scenarioId <;> exact ⟨_, rfl, rfl, rfl⟩

theorem parseSignal_emitted (scenarioId : ScenarioId) : ∃ command,
    parseSignal toFloat (encodeSignal (signalOf (scenarios scenarioId)
      (scenarioService scenarioId).value)) = .ok command ∧
      command.service = (scenarioService scenarioId).value ∧
      command.scenario = some scenarioId.value := by
  obtain ⟨command, hrequest, hnames⟩ := signalOf_request scenarioId
  refine ⟨command, ?_, hnames⟩
  unfold parseSignal encodeSignal
  rw [loads_write compact_writer _ (plain_signalOf _ _)]
  dsimp only
  rw [hrequest]

end Payload

section Signature

variable {hmacSha256 : (secret body : String) → String}

theorem strip_signature (hex : Hexdigest hmacSha256) (secret body : String) :
    strip (signBody hmacSha256 secret body) = signBody hmacSha256 secret body := by
  refine strip_eq_self_of_no_space fun c hc => ?_
  unfold signBody at hc
  rw [String.toList_append] at hc
  rcases List.mem_append.mp hc with hfront | hdigest
  · have visible : ("sha256=".toList.all fun c => !isSpace c) = true := by decide
    simpa using List.all_eq_true.mp visible c hfront
  · exact isSpace_of_isHexDigit (hex secret body c hdigest)

theorem signature_accepted (hex : Hexdigest hmacSha256) {secret : String} (body : String)
    (configured : strip secret ≠ "") :
    requireWebhookSignature hmacSha256 secret body (signBody hmacSha256 secret body) = .ok () := by
  have hsecret : secret ≠ "" := by
    rintro rfl
    exact configured rfl
  have hsigned : signBody hmacSha256 secret body ≠ "" := by
    intro hempty
    have hlist := congrArg String.toList hempty
    unfold signBody at hlist
    rw [String.toList_append] at hlist
    cases hlist
  unfold requireWebhookSignature verifySignature
  rw [if_neg configured, if_neg (not_or.mpr ⟨hsecret, hsigned⟩), strip_signature hex]
  exact if_pos (decide_eq_true rfl)

end Signature

section Taken

variable {World : Type} {ports : ApiPorts World} {lower : String → String}
  {scenarioId : ScenarioId} {occurredAt : Instant}

theorem LowersText.lower_eq (lowers : LowersText lower) {text : String}
    (ascii : (text.toList.all fun c => decide (c.toNat < 128)) = true) :
    lower text = asciiLower text :=
  lowers.ascii _ fun c hc => of_decide_eq_true (List.all_eq_true.mp ascii c hc)

theorem scenario_lower (lowers : LowersText lower) (scenarioId : ScenarioId) :
    fingerprintScenario lower (some scenarioId.value) = scenarioId.value := by
  have hlower : lower scenarioId.value = asciiLower scenarioId.value :=
    lowers.lower_eq (by cases scenarioId <;> decide)
  have hstrip : strip scenarioId.value = scenarioId.value := by cases scenarioId <;> decide
  unfold fingerprintScenario
  dsimp only [Option.getD]
  rw [hstrip, hlower]
  cases scenarioId <;> decide

theorem service_lower (lowers : LowersText lower) (service : ServiceId) :
    fingerprintService lower service.value = service.value := by
  have hlower : lower service.value = asciiLower service.value :=
    lowers.lower_eq (by cases service <;> decide)
  have hstrip : strip service.value = service.value := by cases service <;> decide
  unfold fingerprintService
  rw [hstrip, hlower]
  cases service <;> decide

/-- The worker finds the scenario in the fingerprint of the signal. -/
theorem scenario_read (lowers : LowersText lower) {stored : RequiredText}
    (h : computeFingerprint lower (scenarioService scenarioId).value (some scenarioId.value)
      occurredAt = .ok stored.text) :
    scenarioFromFingerprint lower (some stored) = scenarioId.value := by
  have hthird : ThirdField lower (scenarioService scenarioId).value scenarioId.value := by
    refine ⟨by cases scenarioId <;> decide, fun first second rest hsplit => ?_⟩
    rw [List.splitOn_eq_singleton (by cases scenarioId <;> decide)] at hsplit
    cases hsplit
  have hread := decodes_iff lowers h
  rw [scenario_lower lowers, service_lower lowers] at hread
  exact hread.mpr hthird

theorem scenario_open {row : Incident} {fingerprint : String} (lowers : LowersText lower)
    (h : computeFingerprint lower (scenarioService scenarioId).value (some scenarioId.value)
      occurredAt = .ok fingerprint) (isOpen : openWith fingerprint row = true) :
    row.state = .open ∧ scenarioFromFingerprint lower row.fingerprint = scenarioId.value := by
  obtain ⟨hstored, hstate⟩ := openWith_iff.mp isOpen
  refine ⟨hstate, ?_⟩
  cases hfingerprint : row.fingerprint with
  | none =>
    rw [hfingerprint] at hstored
    cases hstored
  | some stored =>
    rw [hfingerprint] at hstored
    refine scenario_read lowers (h.trans ?_)
    rw [← Option.some.inj hstored]

theorem scenarioTaken_served {command : IngestIncidentSignalCommand}
    (lowers : LowersText ports.lower)
    (service : command.service = (scenarioService scenarioId).value)
    (scenario : command.scenario = some scenarioId.value) (requestId : String)
    (server : Server World) :
    ScenarioTaken ports scenarioId server (serveSignal ports requestId command server) := by
  rcases serveSignal_cases ports requestId command server with
    ⟨raised, hanswer, hdb, hevents⟩ | ⟨result, s, hanswer, hcall, hevents, hdb⟩
  · exact .failed raised hanswer hdb hevents
  · have hopening := signal_opening hcall
    obtain ⟨fingerprint, hcompute, htaken⟩ := ingestIncidentSignal_ok hcall
    rw [service, scenario] at hcompute
    dsimp only at hopening htaken
    rw [← hevents, ← hdb] at hopening
    rw [← hdb] at htaken
    cases htaken with
    | linked row found created id saved =>
      obtain ⟨hopen, hscenario⟩ := scenario_open lowers hcompute (List.find?_some found)
      have hids : (serveSignal ports requestId command server).server.worker.db.incidents.map
          Incident.id = server.worker.db.incidents.map Incident.id := by
        rw [saved, saveIncident_ids]
      rw [created] at hanswer
      exact .linked row result.incident (List.mem_of_find?_eq_some found) hopen hscenario hanswer
        id saved (hopening.nothing_published hids)
    | created none created opened free added =>
      obtain ⟨hopen, hscenario⟩ := scenario_open lowers hcompute opened
      have hadded : (serveSignal ports requestId command server).server.worker.db.incidents =
          server.worker.db.incidents ++ [result.incident] := by rw [added]
      obtain ⟨event, hpublished, hannounced⟩ := hopening.one_published hadded
      rw [created] at hanswer
      refine .opened result.incident event hopen hscenario hanswer hadded ?_ hannounced
      rw [hpublished]
      rfl

/-- What the simulator posts of its active scenario AEGIS accepts, and unless the request fails an
incident is open then in which the worker finds that scenario. -/
theorem emitted_signal_taken {settings : SimulatorSettings} {boot : Option ScenarioId}
    {history : List SimulatorRequest} (lowers : LowersText ports.lower)
    (hex : Hexdigest ports.hmacSha256) (shared : ports.webhookSecret = settings.webhookSecret)
    (configured : strip settings.webhookSecret ≠ "") (address : settings.aegisBaseUrl ≠ "")
    (active : activeAfter boot history = some scenarioId) :
    ∃ post, emitIncidentSignal ports.hmacSha256 settings
        ((bootSimulator boot).serveAll history) = .ok post ∧
      ∀ now requestId (server : Server World), ScenarioTaken ports scenarioId server
        (serve ports now (.signal post.signature post.body requestId) server) := by
  have hid : (scenarios scenarioId).id = scenarioId := by cases scenarioId <;> rfl
  have hsecret : settings.webhookSecret ≠ "" := by
    intro hempty
    rw [hempty] at configured
    exact configured rfl
  refine ⟨clientPost ports.hmacSha256 settings (signalOf (scenarios scenarioId)
    (scenarioService scenarioId).value), ?_, fun now requestId server => ?_⟩
  · rw [serveAll_told]
    unfold emitIncidentSignal told
    dsimp only
    rw [active]
    dsimp only [Option.map_some]
    rw [if_neg address, if_neg hsecret, hid, signalFromScenario_eq]
  · obtain ⟨command, hparse, hservice, hscenario⟩ :=
      @parseSignal_emitted ports.toFloat scenarioId
    unfold serve clientPost
    dsimp only
    rw [shared, signature_accepted hex _ configured]
    dsimp only
    rw [hparse]
    exact scenarioTaken_served lowers hservice hscenario requestId server

end Taken

/-- An API that takes one body, with its digest under its secret. -/
def signalApi : ApiPorts Script :=
  { scriptedApi with
    hmacSha256 := fun _ _ => "da1b2347a8e7a58ea00e7bd1e3a4a072e9c62c4419c8eae71e05ddd247f4929b" }

def signalSettings : SimulatorSettings := ⟨"http://127.0.0.1:8000/", "hook"⟩

theorem signalApi_hexdigest : Hexdigest signalApi.hmacSha256 := by
  intro secret body
  have digits : "da1b2347a8e7a58ea00e7bd1e3a4a072e9c62c4419c8eae71e05ddd247f4929b".toList.all
      isHexDigit = true := by decide
  exact List.all_eq_true.mp digits

theorem latency_signal_taken : ∃ post, emitIncidentSignal signalApi.hmacSha256 signalSettings
      ((bootSimulator none).serveAll [.activate .badDeployment, .activate .latencySpike]) = .ok post ∧
    ∀ now requestId (server : Server Script), ScenarioTaken signalApi .latencySpike server
      (serve signalApi now (.signal post.signature post.body requestId) server) :=
  emitted_signal_taken asciiLower_lowers signalApi_hexdigest rfl (by decide) (by decide) rfl

end Aegis
