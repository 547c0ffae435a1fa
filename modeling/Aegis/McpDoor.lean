import Aegis.Loads
import Aegis.StepPath
import Aegis.Traceability

namespace Aegis

open StepPath

def loopbackHosts : List String := ["127.0.0.1", "localhost", "::1"]

/-- A POST to `/mcp`. A missing header and an unknown peer are empty texts. -/
structure McpPost where
  authorization : String
  peerHost : String
  body : String

/-- What a POST is answered with: a refusal, a JSON-RPC reply, or the text of an exception that
ends it. -/
inductive McpAnswer where
  | unauthorized (detail : String)
  | malformed
  | reply (rpc : Fields)
  | raised (text : String)

/-- `McpServer`: a gateway over tools of the registry that is bound to the identity of the door. -/
structure McpServer (World : Type) where
  gateway : InvokeTool World
  token : String
  bound : gateway.boundAgentId = some .mcpClient
  registered : ∀ name, (gateway.tools name).isSome → name ∈ readTools

/-- `McpServer.__init__` -/
def McpServer.new {World : Type} (gateway : InvokeTool World) (token : String)
    (registered : ∀ name, (gateway.tools name).isSome → name ∈ readTools) : McpServer World :=
  ⟨gateway.bind .mcpClient, token, rfl, registered⟩

/-- What the door takes from its process. -/
structure McpPorts where
  services : Services
  lower : String → String
  toFloat : List Char → Option FloatText

/-- A POST with what the gateway draws for it. -/
structure McpArrival where
  post : McpPost
  denyAll : Bool
  entryId : Uuid
  now : Instant

/-- An answer with the state after it and the runner calls it made. -/
structure McpServed (World : Type) where
  answer : McpAnswer
  state : GatewayState World
  calls : List RunnerCall

section Replies

/-- The input schema of a tool, with the type of each of its properties. -/
def inputSchema (properties : List (String × String)) : Value :=
  .obj [("type", .str "object"),
    ("properties", .obj (properties.map fun property =>
      (property.1, .obj [("type", .str property.2)]))),
    ("additionalProperties", .bool false)]

/-- `_TOOL_META` -/
def toolMeta : Dict (String × Value) :=
  [("retrieve_knowledge", ("Retrieve allowlisted runbooks and incident reports (read).",
      inputSchema [("query", "string"), ("service", "string"), ("scenario", "string")])),
    ("fetch_signals", ("Fetch simulator/observability signal summaries (read).",
      inputSchema [("service", "string"), ("scenario", "string"), ("limit", "integer")])),
    ("search_code", ("Search the fake/catalog code index (read). Does not walk src/.",
      inputSchema [("service", "string"), ("scenario", "string")])),
    ("list_deploys", ("List recent deploy versions from the code port (read).",
      inputSchema [("service", "string")]))]

/-- `list_tools` -/
def listTools : List Value :=
  (readTools.mergeSort fun a b => a ≤ b).map fun name =>
    let known := (toolMeta.lookup name).getD
      (name, .obj [("type", .str "object"), ("additionalProperties", .bool false)])
    .obj [("name", .str name), ("description", .str known.1), ("inputSchema", known.2)]

def rpcResult (rpcId : Value) (result : Fields) : Fields :=
  [("jsonrpc", .str "2.0"), ("id", rpcId), ("result", .obj result)]

def rpcError (rpcId : Value) (code : Int) (message : String) : Fields :=
  [("jsonrpc", .str "2.0"), ("id", rpcId),
    ("error", .obj [("code", .int code), ("message", .str message)])]

/-- `_result_text` -/
def resultText (decision : GatewayDecision) : String :=
  match decision.envelope, decision.result with
  | some envelope, _ => envelope.text
  | none, .none => decision.reason
  | none, result => result.pyStr

def orNull (text : Option String) : Value := text.elim .none Value.str

def decisionPayload (decision : GatewayDecision) : Fields :=
  [("allowed", .bool decision.allowed), ("reason", .str decision.reason),
    ("agent_id", .str decision.agentId),
    ("action_class", orNull (decision.actionClass.map ActionClass.value)),
    ("result", decision.result), ("error", orNull decision.error),
    ("audit_id", orNull decision.auditId), ("policy_version", .str decision.policyVersion),
    ("untrusted", .bool (decision.envelope.any ToolResultEnvelope.untrusted)),
    ("isError", .bool !decision.allowed),
    ("content", .list [.obj [("type", .str "text"),
      ("text", .str (if decision.allowed then resultText decision else decision.reason))]])]

def initializePayload : Fields :=
  [("protocolVersion", .str "2024-11-05"), ("capabilities", .obj [("tools", .obj [])]),
    ("serverInfo", .obj [("name", .str "aegis-mcp"), ("version", .str "0.6.0")])]

end Replies

section Door

/-- `value if isinstance(value, Mapping) else {}` -/
def Value.mapping : Value → Fields
  | .obj fields => fields
  | _ => []

def rpcMethod (body : Fields) : String := (Fields.get body "method").strOr ""

def rpcParams (body : Fields) : Fields := (Fields.get body "params").mapping

def rpcToolName (body : Fields) : String := (Fields.get (rpcParams body) "name").strOr ""

def rpcIncidentId (body : Fields) : String :=
  (Fields.get (rpcParams body) "incident_id").strOr "mcp"

/-- `_bearer_token` -/
def bearerTokenOf (lower : String → String) (header : String) : String :=
  if "bearer ".toList.isPrefixOf (lower header).toList then
    strip (String.ofList (header.toList.drop "bearer ".length))
  else strip header

def isAscii (text : String) : Bool := text.toList.all fun c => c.toNat < 128

variable {World : Type} (ports : McpPorts) (server : McpServer World)

/-- `authorize`. The comparison of the tokens raises on a text that is not ASCII. -/
def McpServer.authorize (presented peerHost : String) : Except McpAnswer Unit :=
  if server.token ≠ "" then
    if presented = "" then .error (.unauthorized "denied:mcp_unauthorized")
    else if !(isAscii presented && isAscii server.token) then
      .error (.raised "comparing strings with non-ASCII characters is not supported")
    else if presented = server.token then .ok ()
    else .error (.unauthorized "denied:mcp_unauthorized")
  else if peerHost ≠ "" ∧ peerHost ∉ loopbackHosts then
    .error (.unauthorized "denied:mcp_loopback_only")
  else .ok ()

/-- `call_tool`, with the reply to its decision. -/
def McpServer.callTool (arrival : McpArrival) (rpcId : Value) (name : String) (arguments : Fields)
    (incidentId : String) (state : GatewayState World) : McpServed World :=
  match mcpRequest name arguments incidentId with
  | .error text => ⟨.raised text, state, []⟩
  | .ok request =>
    let invoked := server.gateway.invoke ports.services arrival.denyAll arrival.entryId arrival.now
      request state
    ⟨match invoked.result with
      | .error text => .raised text
      | .ok decision => .reply (rpcResult rpcId (decisionPayload decision)),
      invoked.state, invoked.calls⟩

/-- `_dispatch_rpc` -/
def McpServer.dispatchRpc (arrival : McpArrival) (body : Fields) (state : GatewayState World) :
    McpServed World :=
  let rpcId := Fields.get body "id"
  if rpcMethod body = "initialize" then
    ⟨.reply (rpcResult rpcId initializePayload), state, []⟩
  else if rpcMethod body = "tools/list" then
    ⟨.reply (rpcResult rpcId [("tools", .list listTools)]), state, []⟩
  else if rpcMethod body = "tools/call" then
    if rpcToolName body = "" then
      ⟨.reply (rpcError rpcId (-32602) "tool name is required"), state, []⟩
    else
      server.callTool ports arrival rpcId (rpcToolName body)
        (Fields.get (rpcParams body) "arguments").mapping (rpcIncidentId body) state
  else
    ⟨.reply (rpcError rpcId (-32601) ("unknown method '" ++ rpcMethod body ++ "'")), state, []⟩

/-- `mcp_rpc` -/
def McpServer.mcpRpc (arrival : McpArrival) (state : GatewayState World) : McpServed World :=
  match server.authorize (bearerTokenOf ports.lower arrival.post.authorization)
      arrival.post.peerHost with
  | .error answer => ⟨answer, state, []⟩
  | .ok _ =>
    match loads ports.toFloat arrival.post.body with
    | none => ⟨.malformed, state, []⟩
    | some body => server.dispatchRpc ports arrival body.mapping state

/-- The door serves a POST. -/
def McpStep (state : GatewayState World) (arrival : McpArrival) (next : GatewayState World) : Prop :=
  next = (server.mcpRpc ports arrival state).state

/-- The POST presents the token of the door; without one, it does not come from another host. -/
def McpServer.Admits (post : McpPost) : Prop :=
  if server.token = "" then post.peerHost = "" ∨ post.peerHost ∈ loopbackHosts
  else bearerTokenOf ports.lower post.authorization = server.token

/-- The row is of a tool call that an admitted POST asks for. -/
structure McpRecords (arrival : McpArrival) (row : AuditEntry) : Prop where
  admitted : server.Admits ports arrival.post
  actor : row.actor.text = "mcp_client"
  called : ∃ body, (loads ports.toFloat arrival.post.body).map Value.mapping = some body ∧
    rpcMethod body = "tools/call" ∧ row.action.text = strip (rpcToolName body) ∧
    row.incidentId.text = strip (orElse (rpcIncidentId body) "mcp")

/-- The tool call that a POST asks for. -/
def mcpCall (post : McpPost) : Option ToolInvokeRequest :=
  (loads ports.toFloat post.body).bind fun body =>
    (mcpRequest (rpcToolName body.mapping)
      (Fields.get (rpcParams body.mapping) "arguments").mapping
      (rpcIncidentId body.mapping)).toOption

/-- The one new row is of the tool that the client is granted, and the reply carries its id. -/
def CallRecorded (before : GatewayState World) (served : McpServed World) : Prop :=
  ∃ row decision rpcId, served.state.log = before.log ++ [row] ∧
    row.action.text = "retrieve_knowledge" ∧
    served.answer = .reply (rpcResult rpcId (decisionPayload decision)) ∧
    decision.auditId = some row.id.str

/-- What a POST may do: nothing unless it is admitted, and else one call of the tool that the client
is granted, which is recorded unless its texts do not fit a row; there is no reply then. -/
structure McpContained (arrival : McpArrival) (before : GatewayState World)
    (served : McpServed World) : Prop where
  closed : ¬server.Admits ports arrival.post → served.state = before ∧ served.calls = [] ∧
    ∀ rpc, served.answer ≠ .reply rpc
  granted : ∀ call ∈ served.calls, call.toolName = "retrieve_knowledge"
  once : served.calls.length ≤ 1
  recorded : served.calls ≠ [] → CallRecorded before served ∨
    ∃ request text, mcpCall ports arrival.post = some request ∧
      ¬Auditable server.gateway arrival.denyAll request before ∧
      served.state.log = before.log ∧ served.answer = .raised text

end Door

section Gateway

variable {World : Type} {services : Services} {gateway : InvokeTool World} {denyAll : Bool}
  {entryId : Uuid} {now : Instant} {request : ToolInvokeRequest} {state : GatewayState World}

/-- A decision that a call returns has its row, which is the only new one. -/
theorem invoke_row {decision : GatewayDecision}
    (h : (gateway.invoke services denyAll entryId now request state).result = .ok decision) :
    ∃ row, (gateway.invoke services denyAll entryId now request state).state.log =
        state.log ++ [row] ∧ decision.auditId = some row.id.str ∧
      row.actor.text = gateway.callerIdentity request ∧ row.action.text = request.toolName ∧
      row.incidentId.text = request.incidentId := by
  obtain ⟨hagent, htool, hincident⟩ := decide_names services gateway denyAll state.cache request
    (classify request.toolName) state.world
  unfold InvokeTool.invoke at h ⊢
  dsimp only at h ⊢
  generalize gateway.decide services denyAll state.cache request (classify request.toolName)
    state.world = decided at *
  split at h
  · cases h
  next row log hrecord =>
    obtain ⟨hlog, _, _, hactor, haction, _, _, hid, _⟩ := recordDecision_ok hrecord
    simp only [Except.ok.injEq] at h
    subst h
    change row.actor.text = strip (orElse decided.decision.agentId request.agentId) at hactor
    change row.action.text = strip (orElse decided.decision.toolName request.toolName) at haction
    change row.incidentId.text = strip (orElse decided.decision.incidentId request.incidentId)
      at hid
    rw [hagent, orElse_of_ne (callerIdentity_ne gateway request),
      callerIdentity_stripped] at hactor
    rw [htool, orElse_of_ne request.toolName_ne, request.toolName_stripped] at haction
    rw [hincident, orElse_of_ne request.incidentId_ne, request.incidentId_stripped] at hid
    exact ⟨row, hlog, rfl, hactor, haction, hid⟩

theorem invoke_unrecorded {text : String}
    (h : (gateway.invoke services denyAll entryId now request state).result = .error text) :
    (gateway.invoke services denyAll entryId now request state).state.log = state.log := by
  unfold InvokeTool.invoke at h ⊢
  dsimp only at h ⊢
  split at h
  · rfl
  · cases h

/-- What a call hands to a runner: the tool of the request, once, when it gets that far. -/
theorem invoke_runs (services : Services) (gateway : InvokeTool World) (denyAll : Bool)
    (entryId : Uuid) (now : Instant) (request : ToolInvokeRequest) (state : GatewayState World) :
    (gateway.invoke services denyAll entryId now request state).calls = [] ∨
      gateway.RunsTool denyAll state.cache request (classify request.toolName) state.world ∧
        (gateway.invoke services denyAll entryId now request state).calls =
          [⟨request.toolName, toolParameters request⟩] := by
  rw [InvokeTool.invoke_calls]
  rcases InvokeTool.decide_calls services gateway denyAll state.cache request
    (classify request.toolName) state.world with hruns | ⟨_, hcalls⟩
  · exact .inr hruns
  · exact .inl hcalls

end Gateway

section Contained

variable {World : Type} {ports : McpPorts} {server : McpServer World} {arrival : McpArrival}
  {state : GatewayState World} {presented peerHost name incidentId : String}
  {request : ToolInvokeRequest}

theorem admits_of_authorize {post : McpPost} {granted : Unit}
    (h : server.authorize (bearerTokenOf ports.lower post.authorization) post.peerHost =
      .ok granted) : server.Admits ports post := by
  unfold McpServer.authorize at h
  unfold McpServer.Admits
  by_cases htoken : server.token = ""
  · rw [if_neg (not_not.mpr htoken)] at h
    rw [if_pos htoken]
    split at h
    · cases h
    next hpeer =>
      by_cases hempty : post.peerHost = ""
      · exact .inl hempty
      · exact .inr (not_not.mp fun hother => hpeer ⟨hempty, hother⟩)
  · rw [if_pos htoken] at h
    rw [if_neg htoken]
    split at h
    · cases h
    · split at h
      · cases h
      · split at h
        next hsame => exact hsame
        · cases h

theorem authorize_no_reply {answer : McpAnswer}
    (h : server.authorize presented peerHost = .error answer) (rpc : Fields) :
    answer ≠ .reply rpc := by
  unfold McpServer.authorize at h
  rintro rfl
  split at h
  · split at h
    · cases h
    · split at h
      · cases h
      · split at h <;> cases h
  · split at h <;> cases h

theorem callerIdentity_door (server : McpServer World) (request : ToolInvokeRequest) :
    server.gateway.callerIdentity request = "mcp_client" := by
  unfold InvokeTool.callerIdentity
  rw [server.bound]
  rfl

/-- Of the tools that the door lists it runs one. -/
theorem runsTool_knowledge {denyAll : Bool}
    (h : server.gateway.RunsTool denyAll state.cache request (classify request.toolName)
      state.world) : request.toolName = "retrieve_knowledge" := by
  have hread : request.toolName ∈ readTools := server.registered _ h.registered
  have hclass : classify request.toolName = some .read := by
    unfold classify
    rw [request.toolName_stripped]
    exact if_pos hread
  have hmay := h.in_scope (by rw [hclass]; rfl)
  rw [callerIdentity_door] at hmay
  obtain ⟨identity, hidentity, hheld⟩ := agentMayInvoke_iff.mp hmay
  have hclient := parseAgentIdentity_value .mcpClient
  rw [show AgentIdentity.mcpClient.value = "mcp_client" from rfl, hidentity] at hclient
  rw [Option.some.inj hclient] at hheld
  exact List.mem_singleton.mp hheld

/-- An answer that runs nothing and is given to an admitted POST, or is no reply. -/
theorem contained_quiet {answer : McpAnswer}
    (h : server.Admits ports arrival.post ∨ ∀ rpc, answer ≠ .reply rpc) :
    McpContained ports server arrival state ⟨answer, state, []⟩ where
  closed unadmitted := ⟨rfl, rfl, h.resolve_left unadmitted⟩
  granted _ hcall := absurd hcall List.not_mem_nil
  once := Nat.zero_le _
  recorded ran := absurd rfl ran

theorem contained_callTool {arguments : Fields} {rpcId : Value}
    (admitted : server.Admits ports arrival.post)
    (asked : ∀ request, mcpRequest name arguments incidentId = .ok request →
      mcpCall ports arrival.post = some request) :
    McpContained ports server arrival state
      (server.callTool ports arrival rpcId name arguments incidentId state) := by
  unfold McpServer.callTool
  cases hrequest : mcpRequest name arguments incidentId with
  | error text => exact contained_quiet (.inl admitted)
  | ok request =>
    dsimp only
    have hruns := invoke_runs ports.services server.gateway arrival.denyAll arrival.entryId
      arrival.now request state
    have hrow := @invoke_row _ ports.services server.gateway arrival.denyAll arrival.entryId
      arrival.now request state
    have hunrecorded := @invoke_unrecorded _ ports.services server.gateway arrival.denyAll
      arrival.entryId arrival.now request state
    have hreturns := @invoke_returns _ server.gateway arrival.denyAll request ports.services
      arrival.entryId arrival.now state
    generalize server.gateway.invoke ports.services arrival.denyAll arrival.entryId arrival.now
      request state = invoked at hruns hrow hunrecorded hreturns ⊢
    refine ⟨fun unadmitted => absurd admitted unadmitted, fun call hcall => ?_, ?_, fun ran => ?_⟩
    · rcases hruns with hnone | ⟨hruns, hcalls⟩
      · rw [hnone] at hcall
        exact absurd hcall List.not_mem_nil
      · rw [hcalls] at hcall
        rw [List.mem_singleton.mp hcall]
        exact runsTool_knowledge hruns
    · rcases hruns with hnone | ⟨_, hcalls⟩
      · rw [hnone]
        exact Nat.zero_le _
      · rw [hcalls]
        exact le_refl _
    · rcases hruns with hnone | ⟨hruns, _⟩
      · exact absurd hnone ran
      · cases hresult : invoked.result with
        | error text =>
          refine .inr ⟨request, text, asked request hrequest, fun fits => ?_, hunrecorded hresult,
            rfl⟩
          obtain ⟨decision, hreturned⟩ := hreturns fits
          rw [hresult] at hreturned
          cases hreturned
        | ok decision =>
          obtain ⟨row, hlog, haudit, _, haction, _⟩ := hrow hresult
          exact .inl ⟨row, decision, rpcId, hlog, haction.trans (runsTool_knowledge hruns), rfl,
            haudit⟩

theorem contained_dispatchRpc {body : Value} (admitted : server.Admits ports arrival.post)
    (read : loads ports.toFloat arrival.post.body = some body) :
    McpContained ports server arrival state
      (server.dispatchRpc ports arrival body.mapping state) := by
  have quiet : ∀ rpc, McpContained ports server arrival state ⟨.reply rpc, state, []⟩ :=
    fun _ => contained_quiet (.inl admitted)
  unfold McpServer.dispatchRpc
  dsimp only
  split
  · exact quiet _
  · split
    · exact quiet _
    · split
      · split
        · exact quiet _
        · refine contained_callTool admitted fun request hrequest => ?_
          rw [mcpCall, read, Option.bind_some, hrequest]
          rfl
      · exact quiet _

theorem contained_mcpRpc (ports : McpPorts) (server : McpServer World) (arrival : McpArrival)
    (state : GatewayState World) :
    McpContained ports server arrival state (server.mcpRpc ports arrival state) := by
  unfold McpServer.mcpRpc
  cases hauthorize : server.authorize (bearerTokenOf ports.lower arrival.post.authorization)
    arrival.post.peerHost with
  | error answer => exact contained_quiet (.inr (authorize_no_reply hauthorize))
  | ok granted =>
    dsimp only
    have hadmits := admits_of_authorize hauthorize
    cases hread : loads ports.toFloat arrival.post.body with
    | none => exact contained_quiet (.inl hadmits)
    | some body => exact contained_dispatchRpc hadmits hread

/-- What the request of a call is named after. -/
theorem mcpRequest_names {arguments : Fields}
    (h : mcpRequest name arguments incidentId = .ok request) :
    request.toolName = strip name ∧ request.incidentId = strip (orElse incidentId "mcp") := by
  unfold mcpRequest ToolInvokeRequest.new at h
  split at h
  · cases h
  · split at h
    · cases h
    · split at h
      · cases h
      · rw [← Except.ok.inj h]
        exact ⟨rfl, rfl⟩

/-- A POST leaves the log as it is, or adds the row of a call that it asks for. -/
theorem mcpRpc_rows (ports : McpPorts) (server : McpServer World) (arrival : McpArrival)
    (state : GatewayState World) :
    (server.mcpRpc ports arrival state).state.log = state.log ∨
      ∃ row, (server.mcpRpc ports arrival state).state.log = state.log ++ [row] ∧
        McpRecords ports server arrival row := by
  unfold McpServer.mcpRpc
  cases hauthorize : server.authorize (bearerTokenOf ports.lower arrival.post.authorization)
    arrival.post.peerHost with
  | error answer => exact .inl rfl
  | ok granted =>
    dsimp only
    have hadmits := admits_of_authorize hauthorize
    cases hloads : loads ports.toFloat arrival.post.body with
    | none => exact .inl rfl
    | some body =>
      dsimp only
      unfold McpServer.dispatchRpc
      dsimp only
      split
      · exact .inl rfl
      · split
        · exact .inl rfl
        · split
          next hmethod =>
            split
            · exact .inl rfl
            · unfold McpServer.callTool
              cases hrequest : mcpRequest (rpcToolName body.mapping)
                (Fields.get (rpcParams body.mapping) "arguments").mapping
                (rpcIncidentId body.mapping) with
              | error text => exact .inl rfl
              | ok request =>
                obtain ⟨htool, hincident⟩ := mcpRequest_names hrequest
                dsimp only
                cases hresult : (server.gateway.invoke ports.services arrival.denyAll
                  arrival.entryId arrival.now request state).result with
                | error text => exact .inl (invoke_unrecorded hresult)
                | ok decision =>
                  obtain ⟨row, hlog, _, hactor, haction, hid⟩ := invoke_row hresult
                  rw [callerIdentity_door] at hactor
                  exact .inr ⟨row, hlog, hadmits, hactor, body.mapping, by rw [hloads]; rfl,
                    hmethod, haction.trans htool, hid.trans hincident⟩
          · exact .inl rfl

end Contained

/-- The door of a gateway with one tool, and its token. -/
def knowledgeDoor : McpServer MemoryTokenBucket :=
  .new mcpKnowledgeGateway "t0ken" fun name h => by
    by_cases hname : name = "retrieve_knowledge"
    · rw [hname]
      decide
    · rw [show mcpKnowledgeGateway.tools name = none from if_neg hname] at h
      cases h

def doorPorts : McpPorts := 
  ⟨⟨fun _ => Digest.genesis, fun text => ⟨text, 0⟩⟩, fun text => text, fun _ => none⟩

def knowledgeArrival : McpArrival where
  post := ⟨"bearer t0ken", "10.0.0.7", (Value.obj [("jsonrpc", .str "2.0"), ("id", .int 1),
    ("method", .str "tools/call"),
    ("params", .obj [("name", .str "retrieve_knowledge"), ("incident_id", .str "7")])]).compact⟩
  denyAll := false
  entryId := 7
  now := seedAt

def closedDoor : GatewayState MemoryTokenBucket := ⟨⟨none, none⟩, [], ⟨[], fun _ => 0⟩⟩

def servedDoor : GatewayState MemoryTokenBucket :=
  (knowledgeDoor.mcpRpc doorPorts knowledgeArrival closedDoor).state

example : servedDoor.log.length = 1 := by decide +kernel

end Aegis
