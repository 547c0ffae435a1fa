import Aegis.Value

namespace Aegis

/-- Registry classification of a tool. -/
inductive ActionClass where
  | read
  | lowRiskWrite
  | highRiskWrite
  | destructive
  deriving DecidableEq, Repr

def ActionClass.value : ActionClass → String
  | .read => "read"
  | .lowRiskWrite => "low-risk-write"
  | .highRiskWrite => "high-risk-write"
  | .destructive => "destructive"

inductive GatewayVerdict where
  | allow
  | deny
  | pending
  deriving DecidableEq, Repr

def GatewayVerdict.value : GatewayVerdict → String
  | .allow => "allow"
  | .deny => "deny"
  | .pending => "pending"

inductive AgentIdentity where
  | knowledge
  | observability
  | code
  | commander
  | rca
  | mcpClient
  deriving DecidableEq, Repr

def AgentIdentity.value : AgentIdentity → String
  | .knowledge => "knowledge"
  | .observability => "observability"
  | .code => "code"
  | .commander => "commander"
  | .rca => "rca"
  | .mcpClient => "mcp_client"

/-- `AGENT_TOOL_GRANTS` -/
def agentToolGrants : AgentIdentity → List String
  | .knowledge => ["retrieve_knowledge"]
  | .observability => ["fetch_signals"]
  | .code => ["search_code", "list_deploys"]
  | .commander => []
  | .rca => []
  | .mcpClient => ["retrieve_knowledge"]

def parseAgentIdentity (value : String) : Option AgentIdentity :=
  [AgentIdentity.knowledge, .observability, .code, .commander, .rca, .mcpClient].find?
    (fun identity => identity.value = strip value)

def agentMayInvoke (agentId toolName : String) : Bool :=
  match parseAgentIdentity agentId with
  | none => false
  | some identity => toolName ∈ agentToolGrants identity

theorem agentMayInvoke_iff {agentId toolName : String} :
    agentMayInvoke agentId toolName = true ↔
      ∃ identity, parseAgentIdentity agentId = some identity ∧
        toolName ∈ agentToolGrants identity := by
  unfold agentMayInvoke
  cases parseAgentIdentity agentId with
  | none => simp
  | some identity => simp

theorem parseAgentIdentity_value (identity : AgentIdentity) :
    parseAgentIdentity identity.value = some identity := by
  cases identity <;> decide

def readTools : List String := ["retrieve_knowledge", "fetch_signals", "search_code", "list_deploys"]

/-- The read tools, as the names of rules and of requests. -/
def knowledgeTool : Token 128 := ⟨"retrieve_knowledge", by decide, by decide, by decide⟩

def signalsTool : Token 128 := ⟨"fetch_signals", by decide, by decide, by decide⟩

def codeSearchTool : Token 128 := ⟨"search_code", by decide, by decide, by decide⟩

def deploysTool : Token 128 := ⟨"list_deploys", by decide, by decide, by decide⟩

def destructiveTools : List String :=
  ["drop_database", "delete_rds", "kubectl_delete", "restart_service"]

def highRiskWriteTools : List String := ["restart_payment", "gh_pr_create"]

/-- The registry class of a tool name; an unknown name has none. -/
def classify (toolName : String) : Option ActionClass :=
  let name := strip toolName
  if name ∈ readTools then some .read
  else if name ∈ destructiveTools then some .destructive
  else if name ∈ highRiskWriteTools then some .highRiskWrite
  else none

theorem AgentIdentity.stripped (agent : AgentIdentity) : strip agent.value = agent.value := by
  cases agent <;> decide

theorem AgentIdentity.value_ne (agent : AgentIdentity) : agent.value ≠ "" := by
  cases agent <;> decide

/-- A request the constructor of `ToolInvokeRequest` accepted. -/
structure ToolInvokeRequest where
  agentId : String
  toolName : String
  parameters : Fields
  incidentId : String
  claimedActionClass : Option String
  agentId_stripped : strip agentId = agentId
  agentId_ne : agentId ≠ ""
  toolName_stripped : strip toolName = toolName
  toolName_ne : toolName ≠ ""
  incidentId_stripped : strip incidentId = incidentId
  incidentId_ne : incidentId ≠ ""

/-- `ToolInvokeRequest.__init__`; the error is the text of its `ValidationError`. -/
def ToolInvokeRequest.new (agentId toolName : String) (parameters : Fields) (incidentId : String)
    (actionClass : Option String) : Except String ToolInvokeRequest :=
  if hTool : strip toolName = "" then .error "tool_name must not be empty."
  else if hAgent : strip agentId = "" then .error "agent_id must not be empty."
  else if hIncident : strip incidentId = "" then .error "incident_id must not be empty."
  else .ok {
    agentId := strip agentId
    toolName := strip toolName
    parameters
    incidentId := strip incidentId
    claimedActionClass :=
      let claimed := strip (actionClass.getD "")
      if claimed = "" then none else some claimed
    agentId_stripped := strip_strip agentId
    agentId_ne := hAgent
    toolName_stripped := strip_strip toolName
    toolName_ne := hTool
    incidentId_stripped := strip_strip incidentId
    incidentId_ne := hIncident }

/-- A request of an agent, from texts that are accepted as they are. -/
def AgentIdentity.request {tool incident : Nat} (agent : AgentIdentity) (toolName : Token tool)
    (parameters : Fields) (incidentId : Token incident) (claimedActionClass : Option String) :
    ToolInvokeRequest where
  agentId := agent.value
  toolName := toolName.text
  parameters
  incidentId := incidentId.text
  claimedActionClass
  agentId_stripped := agent.stripped
  agentId_ne := agent.value_ne
  toolName_stripped := toolName.stripped
  toolName_ne := toolName.ne
  incidentId_stripped := incidentId.stripped
  incidentId_ne := incidentId.ne

/-- `ToolResultEnvelope.as_dict()`: what a node may read from a tool call. -/
structure ToolResultEnvelope where
  text : String
  toolName : String
  incidentId : String
  source : String
  untrusted : Bool
  droppedDirectives : Nat
  truncated : Bool
  deriving DecidableEq

structure GatewayDecision where
  allowed : Bool
  reason : String
  requiresApproval : Bool
  verdict : GatewayVerdict
  actionClass : Option ActionClass
  result : Value
  error : Option String
  auditId : Option String
  toolName : String
  agentId : String
  incidentId : String
  envelope : Option ToolResultEnvelope
  policyVersion : String
  denyAll : Bool

/-- `GatewayDecision.allow` -/
def GatewayDecision.allow (reason : String) (actionClass : ActionClass) (result : Value)
    (toolName agentId incidentId : String) (envelope : ToolResultEnvelope) : GatewayDecision where
  allowed := true
  reason
  requiresApproval := false
  verdict := .allow
  actionClass := some actionClass
  result
  error := none
  auditId := none
  toolName
  agentId
  incidentId
  envelope := some envelope
  policyVersion := ""
  denyAll := false

/-- `GatewayDecision.deny` -/
def GatewayDecision.deny (reason : String) (actionClass : Option ActionClass)
    (toolName agentId incidentId : String) (requiresApproval : Bool) : GatewayDecision where
  allowed := false
  reason
  requiresApproval
  verdict := if requiresApproval then .pending else .deny
  actionClass
  result := .none
  error := some reason
  auditId := none
  toolName
  agentId
  incidentId
  envelope := none
  policyVersion := ""
  denyAll := false

def GatewayDecision.withAuditId (decision : GatewayDecision) (auditId : String) : GatewayDecision :=
  { decision with auditId := some auditId }

def GatewayDecision.withGovernance (decision : GatewayDecision) (policyVersion : String)
    (denyAll : Bool) : GatewayDecision :=
  { decision with policyVersion, denyAll }

end Aegis
