import Aegis.AuditLog
import Aegis.Policy
import Aegis.RateLimit
import Aegis.Untrusted

namespace Aegis

/-- What the gateway calls outside its own logic: SHA-256 of the JSON text of a value, and the
secret redaction of one string. -/
structure Services where
  digest : Value → Digest
  redact : String → RedactionResult

/-- How a call of a runner ends. -/
inductive ToolOutcome where
  | returned (raw : Value) (truncated : Bool)
  | validationError (text : String)
  | raised

/-- A runner. `World` is whatever state lies behind the tools and the rate-limit store. -/
abbrev ToolFn (World : Type) := Fields → World → ToolOutcome × World

/-- One call of a registered runner: the name it is registered under and its argument. -/
structure RunnerCall where
  toolName : String
  parameters : Fields

structure InvokeTool (World : Type) where
  tools : String → Option (ToolFn World)
  policyRules : Option (List PolicyRule)
  boundAgentId : Option AgentIdentity
  rateLimiter : RateLimiter World

/-- What the invocations of a process share. -/
structure GatewayState (World : Type) where
  cache : PolicyCache
  log : AuditLog
  world : World

/-- What `_decide` returns, with the runner calls it made. -/
structure Decided (World : Type) where
  decision : GatewayDecision
  world : World
  calls : List RunnerCall

/-- What one `invoke` leaves: its return value or the text of the `ValidationError` it raised,
the state after it and the runner calls it made. -/
structure Invoked (World : Type) where
  result : Except String GatewayDecision
  state : GatewayState World
  calls : List RunnerCall

/-- A text that `AuditEntry` stores as it is. -/
def AuditableReason (reason : String) : Prop :=
  strip reason = reason ∧ reason.length ≤ 255

theorem fixed_auditable {reason : String} (h : strip reason = reason ∧ reason.length ≤ 255) :
    AuditableReason reason := h

theorem winnerVerdict_auditable (winner : PolicyRule) :
    AuditableReason (winnerVerdict winner).reason := by
  have own : AuditableReason winner.reason := ⟨winner.reason_stripped, winner.reason_length⟩
  unfold winnerVerdict
  split
  · change AuditableReason (denyReason winner)
    unfold denyReason
    split
    · exact fixed_auditable (by decide)
    · split
      · exact own
      · exact fixed_auditable (by decide)
  · change AuditableReason (orElse winner.reason "allowed:policy")
    unfold orElse
    split
    · exact fixed_auditable (by decide)
    · exact own

theorem evaluatePolicy_auditable (rules : List PolicyRule) (toolName : String)
    (actionClass : Option ActionClass) (agentId service : String) :
    AuditableReason (evaluatePolicy rules toolName actionClass agentId service).reason := by
  unfold evaluatePolicy
  split
  · change AuditableReason "denied:destructive"
    exact fixed_auditable (by decide)
  · split
    · dsimp only
      split <;> exact fixed_auditable (by decide)
    · exact winnerVerdict_auditable _

theorem allow_auditable {World : Type} (limiter : RateLimiter World) (agentId toolName incidentId : String)
    (world : World) :
    AuditableReason (limiter.allow agentId toolName incidentId world).1.reason := by
  unfold RateLimiter.allow
  dsimp only
  split
  · split <;> exact fixed_auditable (by decide)
  · exact fixed_auditable (by decide)
  · exact fixed_auditable (by decide)

namespace InvokeTool

variable {World : Type}

/-- `InvokeTool.bind` -/
def bind (gateway : InvokeTool World) (identity : AgentIdentity) : InvokeTool World :=
  { gateway with boundAgentId := some identity }

/-- `_active_rules` -/
def activeRules (gateway : InvokeTool World) (cache : PolicyCache) : List PolicyRule :=
  match gateway.policyRules, cache.rules with
  | some rules, _ => rules
  | none, some cached => cached
  | none, none => seedReadRules

/-- `_policy_version` -/
def policyVersion (services : Services) (gateway : InvokeTool World) (cache : PolicyCache) :
    PolicyVersion :=
  match gateway.policyRules, cache.version with
  | some rules, _ => policyVersionFor services.digest rules
  | none, some cached => cached
  | none, none => policyVersionFor services.digest seedReadRules

/-- `_caller_identity`: the bound identity wins. -/
def callerIdentity (gateway : InvokeTool World) (request : ToolInvokeRequest) : String :=
  match gateway.boundAgentId with
  | some identity => identity.value
  | none => request.agentId

/-- The verdict of the active rules on a call. -/
def verdict (gateway : InvokeTool World) (cache : PolicyCache) (request : ToolInvokeRequest)
    (actionClass : Option ActionClass) : PolicyVerdict :=
  evaluatePolicy (gateway.activeRules cache) request.toolName actionClass
    (gateway.callerIdentity request)
    ((Fields.get (toolParameters request) "service").strOr "")

/-- `action_class or verdict.action_class` -/
def resolvedClass (gateway : InvokeTool World) (cache : PolicyCache) (request : ToolInvokeRequest)
    (actionClass : Option ActionClass) : Option ActionClass :=
  actionClass.or (gateway.verdict cache request actionClass).actionClass

/-- The limiter's answer to a call, with the world after it. -/
def pace (gateway : InvokeTool World) (request : ToolInvokeRequest) (world : World) :
    RateLimitDecision × World :=
  gateway.rateLimiter.allow (gateway.callerIdentity request) request.toolName request.incidentId
    world

/-- The reason a runner's `ValidationError` is denied with. -/
def validationReason (text : String) : String :=
  if "denied:".toList.isPrefixOf text.toList then text else "denied:invalid_params"

/-- The end of `_decide`: run the tool and wrap what it returns. -/
def run (services : Services) (gateway : InvokeTool World) (request : ToolInvokeRequest)
    (resolved : ActionClass) (runner : ToolFn World) (world : World) : Decided World :=
  let agentId := gateway.callerIdentity request
  let parameters := toolParameters request
  let deny reason := GatewayDecision.deny reason (some resolved) request.toolName agentId
    request.incidentId false
  let outcome := runner parameters world
  { decision := match outcome.1 with
      | .validationError text => deny (validationReason text)
      | .raised => deny "denied:tool_error"
      | .returned raw truncated =>
        let result := redactResult services.redact raw
        GatewayDecision.allow "allowed:read" resolved result request.toolName agentId
          request.incidentId
          (buildEnvelope services.redact request.toolName request.incidentId result truncated)
    world := outcome.2
    calls := [⟨request.toolName, parameters⟩] }

/-- A denial before the runner. -/
def refuse (gateway : InvokeTool World) (request : ToolInvokeRequest) (reason : String)
    (actionClass : Option ActionClass) (requiresApproval : Bool) (world : World) : Decided World where
  decision := GatewayDecision.deny reason actionClass request.toolName
    (gateway.callerIdentity request) request.incidentId requiresApproval
  world
  calls := []

/-- The end of `_decide`, after the policy allowed the call. -/
def paceAndRun (services : Services) (gateway : InvokeTool World) (request : ToolInvokeRequest)
    (resolved : Option ActionClass) (world : World) : Decided World :=
  if resolved = some .read then
    match gateway.tools request.toolName with
    | none => gateway.refuse request "denied:not_registered" resolved false world
    | some runner =>
      if (gateway.pace request world).1.allowed then
        gateway.run services request .read runner (gateway.pace request world).2
      else
        gateway.refuse request (gateway.pace request world).1.reason resolved false
          (gateway.pace request world).2
  else gateway.refuse request "denied:unknown_tool" resolved false world

/-- `_decide`: the denials in the order the source checks them, then the runner. -/
def decide (services : Services) (gateway : InvokeTool World) (denyAll : Bool)
    (cache : PolicyCache) (request : ToolInvokeRequest) (actionClass : Option ActionClass)
    (world : World) : Decided World :=
  if denyAll then gateway.refuse request "denied:kill_switch" actionClass false world
  else if parseAgentIdentity (gateway.callerIdentity request) = none then
    gateway.refuse request "denied:unknown_agent" actionClass false world
  else if actionClass = some .destructive then
    gateway.refuse request "denied:destructive" actionClass false world
  else if actionClass = some .highRiskWrite then
    gateway.refuse request "denied:high_risk_write" actionClass true world
  else if actionClass = some .lowRiskWrite then
    gateway.refuse request "denied:low_risk_write" actionClass false world
  else if actionClass.isSome ∧ ¬agentMayInvoke (gateway.callerIdentity request) request.toolName then
    gateway.refuse request "denied:agent_scope" actionClass false world
  else if (gateway.verdict cache request actionClass).allowed then
    gateway.paceAndRun services request (gateway.resolvedClass cache request actionClass) world
  else
    gateway.refuse request (gateway.verdict cache request actionClass).reason
      (gateway.resolvedClass cache request actionClass) false world

/-- `InvokeTool.invoke`: decide, stamp, record. A `ValidationError` of the recording leaves the
log as it was, whatever the tool has done. -/
def invoke (services : Services) (gateway : InvokeTool World) (denyAll : Bool) (entryId : Uuid)
    (now : Instant) (request : ToolInvokeRequest) (state : GatewayState World) : Invoked World :=
  let decided := gateway.decide services denyAll state.cache request (classify request.toolName)
    state.world
  let decision := decided.decision.withGovernance
    (gateway.policyVersion services state.cache).text denyAll
  match recordDecision services.digest services.redact request decision entryId now state.log with
  | .error text => ⟨.error text, { state with world := decided.world }, decided.calls⟩
  | .ok (entry, log) =>
    ⟨.ok (decision.withAuditId entry.id.str), { state with log, world := decided.world },
      decided.calls⟩

/-- The conditions under which `_decide` gets as far as calling the runner. -/
structure RunsTool (gateway : InvokeTool World) (denyAll : Bool) (cache : PolicyCache)
    (request : ToolInvokeRequest) (actionClass : Option ActionClass) (world : World) : Prop where
  not_denied_all : denyAll = false
  known : parseAgentIdentity (gateway.callerIdentity request) ≠ none
  not_destructive : actionClass ≠ some .destructive
  not_high_risk : actionClass ≠ some .highRiskWrite
  not_low_risk : actionClass ≠ some .lowRiskWrite
  in_scope : actionClass.isSome → agentMayInvoke (gateway.callerIdentity request) request.toolName
  policy : (gateway.verdict cache request actionClass).allowed = true
  resolves_read : gateway.resolvedClass cache request actionClass = some .read
  registered : (gateway.tools request.toolName).isSome
  paced : (gateway.pace request world).1.allowed = true

variable {services : Services} {gateway : InvokeTool World} {denyAll : Bool} {cache : PolicyCache}
  {request : ToolInvokeRequest} {actionClass : Option ActionClass} {world : World}

theorem decide_of_runs (services : Services)
    (h : gateway.RunsTool denyAll cache request actionClass world) :
    ∃ runner, gateway.tools request.toolName = some runner ∧
      gateway.decide services denyAll cache request actionClass world =
        gateway.run services request .read runner (gateway.pace request world).2 := by
  obtain ⟨runner, hrunner⟩ := Option.isSome_iff_exists.mp h.registered
  have hopen : ¬denyAll = true := by simp [h.not_denied_all]
  have hscope : ¬(actionClass.isSome = true ∧
      ¬agentMayInvoke (gateway.callerIdentity request) request.toolName = true) := by
    rintro ⟨hsome, hno⟩
    exact hno (h.in_scope hsome)
  refine ⟨runner, hrunner, ?_⟩
  rw [InvokeTool.decide, if_neg hopen, if_neg h.known, if_neg h.not_destructive,
    if_neg h.not_high_risk, if_neg h.not_low_risk, if_neg hscope, if_pos h.policy, paceAndRun,
    if_pos h.resolves_read, hrunner]
  exact if_pos h.paced

theorem paceAndRun_refused_or_runs (services : Services) (gateway : InvokeTool World)
    (request : ToolInvokeRequest) (resolved : Option ActionClass) (world : World) :
    (∃ reason cls approval world', AuditableReason reason ∧
      gateway.paceAndRun services request resolved world =
        gateway.refuse request reason cls approval world') ∨
      (resolved = some .read ∧ (gateway.tools request.toolName).isSome ∧
        (gateway.pace request world).1.allowed = true) := by
  unfold paceAndRun
  by_cases hread : resolved = some .read
  · rw [if_pos hread]
    cases htool : gateway.tools request.toolName with
    | none => exact .inl ⟨_, _, _, _, fixed_auditable (by decide), rfl⟩
    | some runner =>
      by_cases hpaced : (gateway.pace request world).1.allowed = true
      · exact .inr ⟨hread, rfl, hpaced⟩
      · exact .inl ⟨_, _, _, _, allow_auditable .., if_neg hpaced⟩
  · exact .inl ⟨_, _, _, _, fixed_auditable (by decide), if_neg hread⟩

/-- Either the call is a denial, with a reason the audit stores as it is, or it gets to the
runner. -/
theorem decide_denied_or_runs (services : Services) (gateway : InvokeTool World) (denyAll : Bool)
    (cache : PolicyCache) (request : ToolInvokeRequest) (actionClass : Option ActionClass)
    (world : World) :
    (∃ reason cls approval world', AuditableReason reason ∧
      gateway.decide services denyAll cache request actionClass world =
        gateway.refuse request reason cls approval world') ∨
      gateway.RunsTool denyAll cache request actionClass world := by
  unfold InvokeTool.decide
  by_cases hopen : denyAll = true
  · exact .inl ⟨_, _, _, _, fixed_auditable (by decide), if_pos hopen⟩
  rw [if_neg hopen]
  by_cases hknown : parseAgentIdentity (gateway.callerIdentity request) = none
  · exact .inl ⟨_, _, _, _, fixed_auditable (by decide), if_pos hknown⟩
  rw [if_neg hknown]
  by_cases hdestructive : actionClass = some .destructive
  · exact .inl ⟨_, _, _, _, fixed_auditable (by decide), if_pos hdestructive⟩
  rw [if_neg hdestructive]
  by_cases hhigh : actionClass = some .highRiskWrite
  · exact .inl ⟨_, _, _, _, fixed_auditable (by decide), if_pos hhigh⟩
  rw [if_neg hhigh]
  by_cases hlow : actionClass = some .lowRiskWrite
  · exact .inl ⟨_, _, _, _, fixed_auditable (by decide), if_pos hlow⟩
  rw [if_neg hlow]
  by_cases hscope : actionClass.isSome ∧
      ¬agentMayInvoke (gateway.callerIdentity request) request.toolName
  · exact .inl ⟨_, _, _, _, fixed_auditable (by decide), if_pos hscope⟩
  rw [if_neg hscope]
  by_cases hpolicy : (gateway.verdict cache request actionClass).allowed = true
  · rw [if_pos hpolicy]
    exact (paceAndRun_refused_or_runs services gateway request
      (gateway.resolvedClass cache request actionClass) world).imp id
      fun ⟨hread, htool, hpaced⟩ => ⟨by simpa using hopen, hknown, hdestructive, hhigh, hlow,
        fun hsome => by_contra fun hno => hscope ⟨hsome, hno⟩, hpolicy, hread, htool, hpaced⟩
  · exact .inl ⟨_, _, _, _, evaluatePolicy_auditable .., if_neg hpolicy⟩

/-- The runner calls of a decision: one of the requested tool when the call gets that far. -/
theorem decide_calls (services : Services) (gateway : InvokeTool World) (denyAll : Bool)
    (cache : PolicyCache) (request : ToolInvokeRequest) (actionClass : Option ActionClass)
    (world : World) :
    (gateway.RunsTool denyAll cache request actionClass world ∧
      (gateway.decide services denyAll cache request actionClass world).calls =
        [⟨request.toolName, toolParameters request⟩]) ∨
      (¬gateway.RunsTool denyAll cache request actionClass world ∧
        (gateway.decide services denyAll cache request actionClass world).calls = []) := by
  by_cases h : gateway.RunsTool denyAll cache request actionClass world
  · obtain ⟨runner, _, heq⟩ := decide_of_runs services h
    exact .inl ⟨h, by rw [heq]; rfl⟩
  · rcases decide_denied_or_runs services gateway denyAll cache request actionClass world with
      ⟨_, _, _, _, _, heq⟩ | hruns
    · exact .inr ⟨h, by rw [heq]; rfl⟩
    · exact absurd hruns h

@[simp] theorem invoke_calls (entryId : Uuid) (now : Instant) (state : GatewayState World) :
    (gateway.invoke services denyAll entryId now request state).calls =
      (gateway.decide services denyAll state.cache request (classify request.toolName)
        state.world).calls := by
  unfold invoke
  dsimp only
  split <;> rfl

end InvokeTool

/-- `_sanitize_arguments` and `McpServer.call_tool` up to the gateway: the request of one call
through the MCP door, whose identity is fixed. -/
def mcpRequest (name : String) (arguments : Fields) (incidentId : String) :
    Except String ToolInvokeRequest :=
  ToolInvokeRequest.new AgentIdentity.mcpClient.value name
    (Dict.pop (Dict.pop arguments "agent_id") "action_class") (orElse incidentId "mcp") none

/-- The incident of an MCP call that names none. -/
def mcpIncident : Token 64 := ⟨"mcp", by decide, by decide, by decide⟩

end Aegis
