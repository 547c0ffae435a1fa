import Aegis.InvokeTool

namespace Aegis

variable {World : Type}

/-- The call returned a decision and appended exactly one entry, which says the same as the
decision and whose id the decision carries. -/
def AuditedOnce (before : AuditLog) (invoked : Invoked World) : Prop :=
  ∃ decision entry, invoked.result = .ok decision ∧ invoked.state.log = before ++ [entry] ∧
    entry.actor.text = decision.agentId ∧ entry.action.text = decision.toolName ∧
    entry.decision = decision.verdict ∧ entry.reason = decision.reason ∧
    entry.incidentId.text = decision.incidentId ∧ entry.actionClass = decision.actionClass ∧
    entry.policyVersion = decision.policyVersion ∧ entry.denyAll = decision.denyAll ∧
    decision.auditId = some entry.id.str

/-- The request's texts fit an audit entry, and so does the denial of a runner that the call
gets to. -/
structure Auditable (gateway : InvokeTool World) (denyAll : Bool) (request : ToolInvokeRequest)
    (state : GatewayState World) : Prop where
  caller : (gateway.callerIdentity request).length ≤ 128
  toolName : request.toolName.length ≤ 128
  incidentId : request.incidentId.length ≤ 64
  denial : ∀ runner text,
    gateway.RunsTool denyAll state.cache request (classify request.toolName) state.world →
    gateway.tools request.toolName = some runner →
    (runner (toolParameters request) (gateway.pace request state.world).2).1 =
      .validationError text →
    AuditableReason (InvokeTool.validationReason text)

variable {services : Services} {gateway : InvokeTool World} {denyAll : Bool} {cache : PolicyCache}
  {request : ToolInvokeRequest} {actionClass : Option ActionClass} {world : World}

theorem identity_value_stripped (identity : AgentIdentity) :
    strip identity.value = identity.value ∧ identity.value ≠ "" := by
  cases identity <;> decide

theorem callerIdentity_stripped (gateway : InvokeTool World) (request : ToolInvokeRequest) :
    strip (gateway.callerIdentity request) = gateway.callerIdentity request := by
  unfold InvokeTool.callerIdentity
  cases gateway.boundAgentId with
  | none => exact request.agentId_stripped
  | some identity => exact (identity_value_stripped identity).1

theorem callerIdentity_ne (gateway : InvokeTool World) (request : ToolInvokeRequest) :
    gateway.callerIdentity request ≠ "" := by
  unfold InvokeTool.callerIdentity
  cases gateway.boundAgentId with
  | none => exact request.agentId_ne
  | some identity => exact (identity_value_stripped identity).2

/-- Whatever the outcome, the decision names the caller, the tool and the incident of the call. -/
theorem decide_names (services : Services) (gateway : InvokeTool World) (denyAll : Bool)
    (cache : PolicyCache) (request : ToolInvokeRequest) (actionClass : Option ActionClass)
    (world : World) :
    (gateway.decide services denyAll cache request actionClass world).decision.agentId =
        gateway.callerIdentity request ∧
      (gateway.decide services denyAll cache request actionClass world).decision.toolName =
        request.toolName ∧
      (gateway.decide services denyAll cache request actionClass world).decision.incidentId =
        request.incidentId := by
  rcases InvokeTool.decide_denied_or_runs services gateway denyAll cache request actionClass world
    with ⟨_, _, _, _, _, heq⟩ | hruns
  · rw [heq]
    exact ⟨rfl, rfl, rfl⟩
  · obtain ⟨runner, _, heq⟩ := InvokeTool.decide_of_runs services hruns
    rw [heq]
    unfold InvokeTool.run
    dsimp only
    split <;> exact ⟨rfl, rfl, rfl⟩

/-- The reason of a decision can be audited unless a runner's own denial cannot. -/
theorem decide_reason_auditable_iff (services : Services) (gateway : InvokeTool World)
    (denyAll : Bool) (cache : PolicyCache) (request : ToolInvokeRequest)
    (actionClass : Option ActionClass) (world : World) :
    AuditableReason
        (gateway.decide services denyAll cache request actionClass world).decision.reason ↔
      ∀ runner text, gateway.RunsTool denyAll cache request actionClass world →
        gateway.tools request.toolName = some runner →
        (runner (toolParameters request) (gateway.pace request world).2).1 =
          .validationError text →
        AuditableReason (InvokeTool.validationReason text) := by
  by_cases hruns : gateway.RunsTool denyAll cache request actionClass world
  · obtain ⟨runner, hrunner, heq⟩ := InvokeTool.decide_of_runs services hruns
    rw [heq]
    unfold InvokeTool.run
    dsimp only
    cases houtcome : (runner (toolParameters request) (gateway.pace request world).2).1 with
    | validationError text =>
      refine ⟨fun h other said _ hother hsaid => ?_, fun h => h runner text hruns hrunner houtcome⟩
      cases Option.some.inj (hrunner.symm.trans hother)
      cases houtcome.symm.trans hsaid
      exact h
    | raised =>
      have fixed : AuditableReason "denied:tool_error" := fixed_auditable (by decide)
      refine iff_of_true fixed fun other said _ hother hsaid => ?_
      cases Option.some.inj (hrunner.symm.trans hother)
      cases houtcome.symm.trans hsaid
    | returned raw truncated =>
      have fixed : AuditableReason "allowed:read" := fixed_auditable (by decide)
      refine iff_of_true fixed fun other said _ hother hsaid => ?_
      cases Option.some.inj (hrunner.symm.trans hother)
      cases houtcome.symm.trans hsaid
  · refine iff_of_true ?_ fun _ _ h => absurd h hruns
    rcases InvokeTool.decide_denied_or_runs services gateway denyAll cache request actionClass
      world with ⟨_, _, _, _, hreason, heq⟩ | h
    · rw [heq]
      exact hreason
    · exact absurd h hruns

theorem invoke_returned_incident {entryId : Uuid} {now : Instant} {state : GatewayState World}
    {decision : GatewayDecision}
    (h : (gateway.invoke services denyAll entryId now request state).result = .ok decision) :
    decision.incidentId = request.incidentId := by
  obtain ⟨_, _, hincident⟩ := decide_names services gateway denyAll state.cache request
    (classify request.toolName) state.world
  unfold InvokeTool.invoke at h
  dsimp only at h
  split at h
  · cases h
  · cases h
    exact hincident

/-- A decision that names the call is recorded exactly when its texts fit an entry. -/
theorem record_named_ok_iff {version : PolicyVersion} (services : Services)
    (decision : GatewayDecision) (entryId : Uuid) (now : Instant) (log : AuditLog)
    (hagent : decision.agentId = gateway.callerIdentity request)
    (htool : decision.toolName = request.toolName)
    (hincident : decision.incidentId = request.incidentId)
    (hversion : decision.policyVersion = version.text) :
    (∃ recorded, recordDecision services.digest services.redact request decision entryId now log =
        .ok recorded) ↔
      (gateway.callerIdentity request).length ≤ 128 ∧ request.toolName.length ≤ 128 ∧
      (strip decision.reason).length ≤ 255 ∧ request.incidentId.length ≤ 64 := by
  rw [recordDecision_ok_iff, buildEntry_ok_iff, hagent, htool, hincident, hversion,
    orElse_of_ne (callerIdentity_ne gateway request), orElse_of_ne request.toolName_ne,
    orElse_of_ne request.incidentId_ne, callerIdentity_stripped, request.toolName_stripped,
    request.incidentId_stripped, version.strip_text, version.text_length]
  simp [callerIdentity_ne gateway request, request.toolName_ne, request.incidentId_ne]

theorem auditable_iff (services : Services) {state : GatewayState World} :
    Auditable gateway denyAll request state ↔
      (gateway.callerIdentity request).length ≤ 128 ∧ request.toolName.length ≤ 128 ∧
        request.incidentId.length ≤ 64 ∧ AuditableReason (gateway.decide services denyAll
          state.cache request (classify request.toolName) state.world).decision.reason := by
  rw [decide_reason_auditable_iff]
  exact ⟨fun h => ⟨h.caller, h.toolName, h.incidentId, h.denial⟩,
    fun ⟨hcaller, hname, hid, hdenial⟩ => ⟨hcaller, hname, hid, hdenial⟩⟩

/-- A call whose texts fit an entry returns its decision. -/
theorem invoke_returns (services : Services) (entryId : Uuid) (now : Instant)
    {state : GatewayState World} (fits : Auditable gateway denyAll request state) :
    ∃ decision, (gateway.invoke services denyAll entryId now request state).result =
      .ok decision := by
  obtain ⟨hcaller, hname, hid, _, hlength⟩ := (auditable_iff services).mp fits
  obtain ⟨hagent, htool, hincident⟩ := decide_names services gateway denyAll state.cache request
    (classify request.toolName) state.world
  unfold InvokeTool.invoke
  dsimp only
  generalize gateway.decide services denyAll state.cache request (classify request.toolName)
    state.world = decided at hagent htool hincident hlength
  have bounds := @record_named_ok_iff _ gateway request (gateway.policyVersion services state.cache)
    services (decided.decision.withGovernance (gateway.policyVersion services state.cache).text
      denyAll) entryId now state.log hagent htool hincident rfl
  obtain ⟨recorded, hrecord⟩ := bounds.mpr ⟨hcaller, hname, (strip_length_le _).trans hlength, hid⟩
  rw [hrecord]
  exact ⟨_, rfl⟩

/-- The entry is built after the tool has run and has bounds that neither the request nor a
runner's denial is checked against, so a call is audited exactly when it meets them. -/
theorem invoke_auditedOnce_iff (services : Services) (gateway : InvokeTool World) (denyAll : Bool)
    (entryId : Uuid) (now : Instant) (request : ToolInvokeRequest) (state : GatewayState World) :
    AuditedOnce state.log
        (gateway.invoke services denyAll entryId now request state) ↔
      Auditable gateway denyAll request state := by
  obtain ⟨hagent, htool, hincident⟩ := decide_names services gateway denyAll state.cache request
    (classify request.toolName) state.world
  rw [auditable_iff services]
  unfold InvokeTool.invoke
  dsimp only
  generalize gateway.decide services denyAll state.cache request (classify request.toolName)
    state.world = decided at hagent htool hincident
  set decision := decided.decision.withGovernance
    (gateway.policyVersion services state.cache).text denyAll with hdecision
  have hversion : decision.policyVersion = (gateway.policyVersion services state.cache).text := rfl
  have bounds := record_named_ok_iff services decision entryId now state.log hagent htool hincident
    hversion
  cases hrecord : recordDecision services.digest services.redact request decision entryId now
    state.log with
  | error text =>
    refine iff_of_false ?_ ?_
    · rintro ⟨_, _, hresult, _⟩
      cases hresult
    · rintro ⟨hcaller, hname, hid, hstripped, hlength⟩
      rw [hrecord] at bounds
      obtain ⟨_, hok⟩ := bounds.mpr ⟨hcaller, hname, (strip_length_le _).trans hlength, hid⟩
      cases hok
  | ok recorded =>
    obtain ⟨entry, log⟩ := recorded
    obtain ⟨hcaller, hname, hshort, hid⟩ := bounds.mp ⟨_, hrecord⟩
    obtain ⟨rfl, _, hentry, hactor, haction, hverdict, hsaid, hincidentId, hclass, hversion, hdeny⟩ :=
      recordDecision_ok hrecord
    constructor
    · rintro ⟨returned, stored, hresult, hlog, _, _, _, hsame, _⟩
      cases hresult
      have hstored : entry = stored := by simpa using hlog
      subst hstored
      have hstripped : strip decided.decision.reason = decided.decision.reason :=
        hsaid.symm.trans hsame
      exact ⟨hcaller, hname, hid, hstripped, hstripped ▸ hshort⟩
    · rintro ⟨_, _, _, hstripped, _⟩
      refine ⟨_, entry, rfl, rfl, ?_, ?_, hverdict, hsaid.trans hstripped, ?_, hclass, ?_, hdeny, rfl⟩
      · change entry.actor.text = decided.decision.agentId
        change entry.actor.text = strip (orElse decided.decision.agentId request.agentId) at hactor
        rw [hactor, hagent, orElse_of_ne (callerIdentity_ne gateway request),
          callerIdentity_stripped]
      · change entry.action.text = decided.decision.toolName
        change entry.action.text = strip (orElse decided.decision.toolName request.toolName)
          at haction
        rw [haction, htool, orElse_of_ne request.toolName_ne, request.toolName_stripped]
      · change entry.incidentId.text = decided.decision.incidentId
        change entry.incidentId.text =
          strip (orElse decided.decision.incidentId request.incidentId) at hincidentId
        rw [hincidentId, hincident, orElse_of_ne request.incidentId_ne, request.incidentId_stripped]
      · exact hversion.trans (PolicyVersion.strip_text _)

/-- A call through the MCP door: the tool runs and the recording then raises. -/
def mcpKnowledgeGateway : InvokeTool MemoryTokenBucket where
  tools name :=
    if name = "retrieve_knowledge" then some fun _ world => (.returned .none false, world) else none
  policyRules := some seedReadRules
  boundAgentId := some .mcpClient
  rateLimiter := ⟨⟨60, 30, 90, false⟩, memoryCounter⟩

def longIncidentId : String := String.ofList (List.replicate 65 'x')

def longIncidentRequest : ToolInvokeRequest where
  agentId := "mcp_client"
  toolName := "retrieve_knowledge"
  parameters := []
  incidentId := longIncidentId
  claimedActionClass := none
  agentId_stripped := AgentIdentity.mcpClient.stripped
  agentId_ne := AgentIdentity.mcpClient.value_ne
  toolName_stripped := knowledgeTool.stripped
  toolName_ne := knowledgeTool.ne
  incidentId_stripped := by decide
  incidentId_ne := by decide

theorem mcpKnowledgeGateway_runs :
    mcpKnowledgeGateway.RunsTool false ⟨none, none⟩ longIncidentRequest
      (classify longIncidentRequest.toolName) ⟨[], fun _ => 0⟩ where
  not_denied_all := rfl
  known := by decide
  not_destructive := by decide
  not_high_risk := by decide
  not_low_risk := by decide
  in_scope := by decide
  policy := by decide
  resolves_read := by decide
  registered := by decide
  paced := by decide

theorem long_incident_runs_unaudited :
    mcpRequest "retrieve_knowledge" [] longIncidentId = .ok longIncidentRequest ∧
      (mcpKnowledgeGateway.invoke ⟨fun _ => Digest.genesis, fun text => ⟨text, 0⟩⟩ false 7 seedAt
        longIncidentRequest ⟨⟨none, none⟩, [], ⟨[], fun _ => 0⟩⟩).calls ≠ [] ∧
      ¬AuditedOnce []
        (mcpKnowledgeGateway.invoke ⟨fun _ => Digest.genesis, fun text => ⟨text, 0⟩⟩ false 7 seedAt
          longIncidentRequest ⟨⟨none, none⟩, [], ⟨[], fun _ => 0⟩⟩) := by
  refine ⟨rfl, ?_, ?_⟩
  · rw [InvokeTool.invoke_calls]
    rcases InvokeTool.decide_calls ⟨fun _ => Digest.genesis, fun text => ⟨text, 0⟩⟩
      mcpKnowledgeGateway false ⟨none, none⟩ longIncidentRequest
      (classify longIncidentRequest.toolName) ⟨[], fun _ => 0⟩ with ⟨_, hcalls⟩ | ⟨hnot, _⟩
    · rw [hcalls]
      simp
    · exact absurd mcpKnowledgeGateway_runs hnot
  · rintro ⟨decision, entry, hresult, _, _, _, _, _, hincident, _⟩
    rw [invoke_returned_incident hresult] at hincident
    have hlength := entry.incidentId.length_le
    rw [hincident] at hlength
    exact absurd hlength (by decide)

end Aegis
