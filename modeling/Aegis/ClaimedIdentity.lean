import Aegis.AuditCompleteness

namespace Aegis

variable {World : Type}

/-- Both fail with the same text, or both give results that are the same in this sense. -/
inductive Matching {α : Type} (same : α → α → Prop) : Except String α → Except String α → Prop
  | ok {a b} : same a b → Matching same (.ok a) (.ok b)
  | error (text) : Matching same (.error text) (.error text)

theorem matching_map {α β : Type} {same : α → α → Prop} {like : β → β → Prop} {f g : α → β}
    {x y : Except String α} (h : Matching same x y) (hfg : ∀ a b, same a b → like (f a) (g b)) :
    Matching like (x.map f) (y.map g) := by
  cases h with
  | ok h => exact .ok (hfg _ _ h)
  | error text => exact .error text

/-- Two requests that agree in all that the caller does not merely claim about itself. -/
structure DifferInClaims (request request' : ToolInvokeRequest) : Prop where
  toolName : request.toolName = request'.toolName
  incidentId : request.incidentId = request'.incidentId
  parameters : toolParameters request = toolParameters request'

/-- The entries agree in every field except the id, the time and the hash made from them. -/
def SameRecord (entry entry' : AuditEntry) : Prop :=
  { entry with
    id := entry'.id
    createdAt := entry'.createdAt
    rowHash := entry'.rowHash
    rowHash_length := entry'.rowHash_length } = entry'

/-- The decisions agree but for the id of the audit entry. -/
def SameDecision (decision decision' : GatewayDecision) : Prop :=
  { decision with auditId := decision'.auditId } = decision'

/-- What two calls from one state leave is the same to whoever cannot see ids and times. -/
structure SameOutcome (before : AuditLog) (invoked invoked' : Invoked World) : Prop where
  result : Matching SameDecision invoked.result invoked'.result
  calls : invoked.calls = invoked'.calls
  world : invoked.state.world = invoked'.state.world
  cache : invoked.state.cache = invoked'.state.cache
  log : (invoked.state.log = before ∧ invoked'.state.log = before) ∨
    ∃ entry entry', invoked.state.log = before ++ [entry] ∧
      invoked'.state.log = before ++ [entry'] ∧ SameRecord entry entry'

/-- The constructor treats the same fields alike whatever the id, the time and the hash are. -/
theorem AuditEntry.new_sameRecord {id id' : Uuid} {actor action : String} {input : Fields}
    {output : Option Fields} {decision : GatewayVerdict} {reason incidentId : String}
    {actionClass : Option ActionClass} {createdAt createdAt' : Instant}
    {prevHash rowHash rowHash' policyVersion : String} {denyAll : Bool}
    (hrow : (strip rowHash).length = 64) (hrow' : (strip rowHash').length = 64) :
    Matching SameRecord
      (AuditEntry.new id actor action input output decision reason incidentId actionClass createdAt
        prevHash rowHash policyVersion denyAll)
      (AuditEntry.new id' actor action input output decision reason incidentId actionClass
        createdAt' prevHash rowHash' policyVersion denyAll) := by
  have accepted : ∀ rowHash, (strip rowHash).length = 64 → ∃ token,
      requireToken 64 rowHash "row_hash" = .ok token ∧ ¬token.text.length ≠ 64 := fun rowHash h =>
    ⟨_, requireToken_eq (ne_empty_of_length h) (le_of_eq h), not_not.mpr h⟩
  obtain ⟨row, hrowToken, hlength⟩ := accepted rowHash hrow
  obtain ⟨row', hrowToken', hlength'⟩ := accepted rowHash' hrow'
  unfold AuditEntry.new
  rw [hrowToken, hrowToken']
  by_cases hversion : 64 < (strip policyVersion).length
  · rw [dif_pos hversion, dif_pos hversion]
    exact .error _
  rw [dif_neg hversion, dif_neg hversion]
  rcases requireToken 128 actor "actor" with text | actor
  · exact .error text
  rcases requireToken 128 action "action" with text | action
  · exact .error text
  simp only [Except.bind]
  by_cases hreason : 255 < (strip reason).length
  · rw [dif_pos hreason, dif_pos hreason]
    exact .error _
  rw [dif_neg hreason, dif_neg hreason]
  rcases requireToken 64 incidentId "incident_id" with text | incident
  · exact .error text
  rcases requireToken 64 prevHash "prev_hash" with text | prev
  · exact .error text
  dsimp only
  rw [dif_neg hlength, dif_neg hlength']
  exact .ok rfl

section Recording

variable {digest : Value → Digest} {redact : String → RedactionResult}
  {request request' : ToolInvokeRequest} {decision : GatewayDecision} {entryId entryId' : Uuid}
  {now now' : Instant}

/-- An entry takes nothing from the request but the parameters without their claims, once the
decision names the call itself. -/
theorem buildEntry_sameRecord {prevHash : String} (same : DifferInClaims request request')
    (hagent : decision.agentId ≠ "") :
    Matching SameRecord (buildEntry digest redact request decision prevHash entryId now)
      (buildEntry digest redact request' decision prevHash entryId' now') := by
  unfold buildEntry AuditEntry.create
  dsimp only
  rw [same.toolName, same.incidentId, same.parameters, orElse_of_ne hagent, orElse_of_ne hagent]
  refine AuditEntry.new_sameRecord ?_ ?_
  · rw [Digest.strip_text, Digest.length_eq]
  · rw [Digest.strip_text, Digest.length_eq]

theorem recordDecision_sameRecord (log : AuditLog) (same : DifferInClaims request request')
    (hagent : decision.agentId ≠ "") :
    Matching
      (fun made made' => made.2 = log ++ [made.1] ∧ made'.2 = log ++ [made'.1] ∧
        SameRecord made.1 made'.1)
      (recordDecision digest redact request decision entryId now log)
      (recordDecision digest redact request' decision entryId' now' log) :=
  matching_map (buildEntry_sameRecord same hagent) fun _ _ h => ⟨rfl, rfl, h⟩

end Recording

variable {services : Services} {gateway : InvokeTool World} {request request' : ToolInvokeRequest}

theorem bind_callerIdentity (gateway : InvokeTool World) (identity : AgentIdentity)
    (request : ToolInvokeRequest) :
    (gateway.bind identity).callerIdentity request = identity.value := rfl

theorem bind_decide_eq (services : Services) (gateway : InvokeTool World)
    (identity : AgentIdentity) (denyAll : Bool) (cache : PolicyCache)
    (actionClass : Option ActionClass) (world : World) (same : DifferInClaims request request') :
    (gateway.bind identity).decide services denyAll cache request actionClass world =
      (gateway.bind identity).decide services denyAll cache request' actionClass world := by
  have hrefuse : (gateway.bind identity).refuse request = (gateway.bind identity).refuse request' := by
    funext reason cls approval world
    simp only [InvokeTool.refuse, bind_callerIdentity, same.toolName, same.incidentId]
  have hverdict : (gateway.bind identity).verdict cache request actionClass =
      (gateway.bind identity).verdict cache request' actionClass := by
    simp only [InvokeTool.verdict, bind_callerIdentity, same.toolName, same.parameters]
  have hpace : (gateway.bind identity).pace request = (gateway.bind identity).pace request' := by
    funext world
    simp only [InvokeTool.pace, bind_callerIdentity, same.toolName, same.incidentId]
  have hrun : (gateway.bind identity).run services request =
      (gateway.bind identity).run services request' := by
    funext resolved runner world
    simp only [InvokeTool.run, bind_callerIdentity, same.toolName, same.incidentId,
      same.parameters]
  have hpaced : (gateway.bind identity).paceAndRun services request =
      (gateway.bind identity).paceAndRun services request' := by
    funext resolved world
    simp only [InvokeTool.paceAndRun, hrefuse, hpace, hrun, same.toolName]
  unfold InvokeTool.decide InvokeTool.resolvedClass
  rw [hrefuse, hverdict, hpaced, same.toolName]
  rfl

/-- What a caller claims about itself changes nothing on a bound gateway: not the decision, not
the call of a runner, not the limiter, not the audit. -/
theorem invoke_ignores_claims (services : Services) (gateway : InvokeTool World)
    (identity : AgentIdentity) (denyAll : Bool) (entryId entryId' : Uuid) (now now' : Instant)
    (state : GatewayState World) (same : DifferInClaims request request') :
    SameOutcome state.log
      ((gateway.bind identity).invoke services denyAll entryId now request state)
      ((gateway.bind identity).invoke services denyAll entryId' now' request' state) := by
  unfold InvokeTool.invoke
  dsimp only
  rw [← same.toolName, ← bind_decide_eq services gateway identity denyAll state.cache
    (classify request.toolName) state.world same]
  obtain ⟨hagent, _, _⟩ := decide_names services (gateway.bind identity) denyAll state.cache request
    (classify request.toolName) state.world
  have hnamed := callerIdentity_ne (gateway.bind identity) request
  rw [← hagent] at hnamed
  generalize (gateway.bind identity).decide services denyAll state.cache request
    (classify request.toolName) state.world = decided at hnamed
  set decision := decided.decision.withGovernance
    ((gateway.bind identity).policyVersion services state.cache).text denyAll
  have recorded := @recordDecision_sameRecord services.digest services.redact request request'
    decision entryId entryId' now now' state.log same hnamed
  generalize recordDecision services.digest services.redact request decision entryId now
    state.log = first at recorded ⊢
  generalize recordDecision services.digest services.redact request' decision entryId' now'
    state.log = second at recorded ⊢
  cases recorded with
  | error text => exact ⟨.error text, rfl, rfl, rfl, .inl ⟨rfl, rfl⟩⟩
  | @ok made made' h =>
    obtain ⟨hlog, hlog', hsame⟩ := h
    exact ⟨.ok rfl, rfl, rfl, rfl, .inr ⟨made.1, made'.1, hlog, hlog', hsame⟩⟩

def plainRequest : ToolInvokeRequest :=
  AgentIdentity.mcpClient.request knowledgeTool [("query", .str "disk full")] mcpIncident none

/-- The same call with every claim forged. -/
def forgedRequest : ToolInvokeRequest :=
  AgentIdentity.commander.request knowledgeTool
    [("agent_id", .str "rca"), ("query", .str "disk full"), ("action_class", .str "read")]
    mcpIncident (some "read")

theorem forged_claims_ignored :
    SameOutcome []
      ((mcpKnowledgeGateway.bind .mcpClient).invoke ⟨fun _ => Digest.genesis, fun text => ⟨text, 0⟩⟩
        false 7 seedAt plainRequest ⟨⟨none, none⟩, [], ⟨[], fun _ => 0⟩⟩)
      ((mcpKnowledgeGateway.bind .mcpClient).invoke ⟨fun _ => Digest.genesis, fun text => ⟨text, 0⟩⟩
        false 8 (seedAt + 1) forgedRequest ⟨⟨none, none⟩, [], ⟨[], fun _ => 0⟩⟩) :=
  invoke_ignores_claims _ mcpKnowledgeGateway .mcpClient false 7 8 seedAt (seedAt + 1)
    ⟨⟨none, none⟩, [], ⟨[], fun _ => 0⟩⟩ ⟨rfl, rfl, rfl⟩

end Aegis
