import Aegis.RuleOrder

namespace Aegis

/-- `[^/\\\x00-\x1f\x7f]` -/
def isParamChar (c : Char) : Bool :=
  c ≠ '/' && c ≠ '\\' && 32 ≤ c.toNat && c.toNat ≠ 127

def hasDotDot : List Char → Bool
  | '.' :: '.' :: _ => true
  | _ :: rest => hasDotDot rest
  | [] => false

/-- What a constrained text field of a parameter model accepts. -/
def acceptsText (maxLength : Nat) (value : String) : Bool :=
  value.length ≤ maxLength && value.toList.all isParamChar && !hasDotDot value.toList

/-- A text field with the default `""`. -/
def textField (maxLength : Nat) (params : Fields) (key : String) : Option String :=
  match params.lookup key with
  | none => some ""
  | some (.str value) => if acceptsText maxLength value then some value else none
  | some _ => none

def onlyKeys (allowed : List String) (params : Fields) : Bool :=
  params.all fun entry => allowed.contains entry.1

structure SearchCodeParams where
  service : String
  scenario : String

/-- `SearchCodeParams.model_validate` -/
def SearchCodeParams.parse (params : Fields) : Option SearchCodeParams :=
  if onlyKeys ["service", "scenario"] params then do
    let service ← textField 255 params "service"
    let scenario ← textField 128 params "scenario"
    pure ⟨service, scenario⟩
  else none

structure ListDeploysParams where
  service : String

/-- `ListDeploysParams.model_validate` -/
def ListDeploysParams.parse (params : Fields) : Option ListDeploysParams :=
  if onlyKeys ["service"] params then (textField 255 params "service").map ListDeploysParams.mk
  else none

/-- The service that a code tool hands to its port, when its model accepts the parameters. -/
def codeService (toolName : String) (params : Fields) : Option String :=
  if toolName = "search_code" then (SearchCodeParams.parse params).map SearchCodeParams.service
  else if toolName = "list_deploys" then
    (ListDeploysParams.parse params).map ListDeploysParams.service
  else none

structure CodeHit where
  service : String
  version : String
  path : String
  summary : String
  deriving DecidableEq

/-- `_DEPLOY_VERSIONS` -/
def deployVersions : List (String × String) :=
  [("user", "1.14.0"), ("payment", "2.8.1"), ("order", "3.1.0"), ("inventory", "1.0.4"),
    ("notification", "0.9.2")]

/-- The key of the catalog that the port takes a service for. -/
def serviceKey (lower : String → String) (service : String) : String :=
  orElse (lower (strip service)) "user"

/-- `FakeCodeSearch.recent_deploys` -/
def recentDeploys (lower : String → String) (service : String) : List CodeHit :=
  let key := serviceKey lower service
  let version := (deployVersions.lookup key).getD "0.0.0"
  [⟨key, version, "services/" ++ key ++ "/deployments.md",
    "last deploy of " ++ key ++ " was " ++ version⟩]

/-- `FakeCodeSearch.search` -/
def searchCode (lower : String → String) (service scenario : String) : List CodeHit :=
  let deploys := recentDeploys lower service
  let key := serviceKey lower service
  deploys ++ (deploys.take 1).map fun first =>
    ⟨key, first.version, "services/" ++ key ++ "/app.py",
      "recent change in services/" ++ key ++ " related to " ++ scenario⟩

def CodeHit.payload (hit : CodeHit) : Value :=
  .obj [("service", .str hit.service), ("version", .str hit.version), ("path", .str hit.path),
    ("summary", .str hit.summary)]

/-- `make_search_code` -/
def makeSearchCode {World : Type} (lower : String → String) : ToolFn World := fun params world =>
  match SearchCodeParams.parse params with
  | none => (.validationError "denied:invalid_params", world)
  | some body =>
    (.returned (.list ((searchCode lower body.service body.scenario).map CodeHit.payload)) false,
      world)

/-- `make_list_deploys` -/
def makeListDeploys {World : Type} (lower : String → String) : ToolFn World := fun params world =>
  match ListDeploysParams.parse params with
  | none => (.validationError "denied:invalid_params", world)
  | some body =>
    (.returned (.list ((recentDeploys lower body.service).map CodeHit.payload)) false, world)

theorem textField_service {maxLength : Nat} {params : Fields} {key value : String}
    (h : textField maxLength params key = some value) :
    (Fields.get params key).strOr "" = value := by
  unfold textField at h
  unfold Fields.get
  split at h
  next hnone =>
    rw [hnone]
    exact Option.some.inj h
  next text htext =>
    rw [htext]
    split at h
    · obtain rfl := Option.some.inj h
      by_cases hempty : text = ""
      · rw [hempty]
        rfl
      · exact if_pos (by simpa [Value.truthy] using hempty)
    · cases h
  · cases h

theorem codeService_spelled {toolName service : String} {params : Fields}
    (h : codeService toolName params = some service) :
    (Fields.get params "service").strOr "" = service := by
  unfold codeService at h
  split at h
  · obtain ⟨body, hbody, rfl⟩ := Option.map_eq_some_iff.mp h
    unfold SearchCodeParams.parse at hbody
    split at hbody
    · obtain ⟨text, htext, hbody⟩ := Option.bind_eq_some_iff.mp hbody
      obtain ⟨scenario, _, hbody⟩ := Option.bind_eq_some_iff.mp hbody
      cases hbody
      exact textField_service htext
    · cases hbody
  · split at h
    · obtain ⟨body, hbody, rfl⟩ := Option.map_eq_some_iff.mp h
      unfold ListDeploysParams.parse at hbody
      split at hbody
      · obtain ⟨text, htext, rfl⟩ := Option.map_eq_some_iff.mp hbody
        exact textField_service htext
      · cases hbody
    · cases h

theorem codeService_tool {toolName service : String} {params : Fields}
    (h : codeService toolName params = some service) :
    toolName = "search_code" ∨ toolName = "list_deploys" := by
  unfold codeService at h
  split at h
  next hsearch => exact .inl hsearch
  · split at h
    next hdeploys => exact .inr hdeploys
    · cases h

variable {World : Type}

/-- Something else than the rules keeps the gateway from calling the tool. -/
def HeldBack (gateway : InvokeTool World) (denyAll : Bool) (request : ToolInvokeRequest)
    (world : World) : Prop :=
  denyAll = true ∨ agentMayInvoke (gateway.callerIdentity request) request.toolName = false ∨
    gateway.tools request.toolName = none ∨ (gateway.pace request world).1.allowed = false

/-- A deny rule is among the most specific rules for a read tool, an agent and a service. -/
def MostSpecificDeny (rules : List PolicyRule) (toolName agentId service : String) : Prop :=
  ∃ rule ∈ rules, rule.allowed = false ∧
    MostSpecific rules toolName (some .read) agentId service rule

theorem denies_of_mostSpecificDeny {rules : List PolicyRule} {toolName agentId service : String}
    (h : MostSpecificDeny rules toolName agentId service) :
    Denies rules toolName (some .read) agentId service := by
  obtain ⟨deny, hdeny, hflag, best, hbest, hmost⟩ := h
  intro rule hrule _ score hmatch
  exact ⟨deny, hdeny, hflag, best, hbest, hmost rule hrule score hmatch⟩

/-- A classified read tool is called unless something holds the call back or the rules deny it. -/
theorem runsTool_read_iff {gateway : InvokeTool World} {denyAll : Bool} {cache : PolicyCache}
    {request : ToolInvokeRequest} {world : World} :
    gateway.RunsTool denyAll cache request (some .read) world ↔
      ¬HeldBack gateway denyAll request world ∧
        (gateway.verdict cache request (some .read)).allowed = true := by
  constructor
  · intro h
    refine ⟨?_, h.policy⟩
    rintro (hdenied | hscope | htool | hpaced)
    · simp [h.not_denied_all] at hdenied
    · simp [h.in_scope rfl] at hscope
    · have := h.registered
      simp [htool] at this
    · simp [h.paced] at hpaced
  · rintro ⟨hopen, hpolicy⟩
    obtain ⟨hdenied, hscope, htool, hpaced⟩ := not_or.mp hopen |>.imp id fun h =>
      not_or.mp h |>.imp id not_or.mp
    rw [Bool.not_eq_false] at hscope hpaced
    obtain ⟨identity, hknown, _⟩ := agentMayInvoke_iff.mp hscope
    exact ⟨by simpa using hdenied, by simp [hknown], by simp, by simp, by simp, fun _ => hscope,
      hpolicy, rfl, Option.isSome_iff_ne_none.mpr htool, hpaced⟩

theorem classify_codeTool {toolName : String}
    (h : toolName = "search_code" ∨ toolName = "list_deploys") :
    classify toolName = some .read := by
  rcases h with rfl | rfl <;> decide

/-- Where the most specific rules for a service deny, a code tool stays uncalled for a spelling
that the port takes for the service exactly when something else holds the call back, the
spelling is the scope itself, or a deny rule stands against each allow rule for the spelling. -/
theorem code_tool_denied_iff (services : Services) (gateway : InvokeTool World) (denyAll : Bool)
    (entryId : Uuid) (now : Instant) (request : ToolInvokeRequest) (state : GatewayState World)
    (lower : String → String) (scope spelling : String)
    (accepted : codeService request.toolName (toolParameters request) = some spelling)
    (resolved : serviceKey lower spelling = scope)
    (deny : MostSpecificDeny (gateway.activeRules state.cache) request.toolName
      (gateway.callerIdentity request) scope) :
    (gateway.invoke services denyAll entryId now request state).calls = [] ↔
      HeldBack gateway denyAll request state.world ∨ spelling = scope ∨
        Denies (gateway.activeRules state.cache) request.toolName (some .read)
          (gateway.callerIdentity request) spelling := by
  have hclass := classify_codeTool (codeService_tool accepted)
  have verdict : (gateway.verdict state.cache request (some .read)).allowed = false ↔
      Denies (gateway.activeRules state.cache) request.toolName (some .read)
        (gateway.callerIdentity request) spelling := by
    rw [InvokeTool.verdict, codeService_spelled accepted]
    exact evaluatePolicy_denied_iff (by simp)
  have spelled : spelling = scope → Denies (gateway.activeRules state.cache) request.toolName
      (some .read) (gateway.callerIdentity request) spelling := by
    rintro rfl
    exact denies_of_mostSpecificDeny deny
  rw [InvokeTool.invoke_calls, hclass]
  rcases InvokeTool.decide_calls services gateway denyAll state.cache request (some .read)
    state.world with ⟨hruns, hcalls⟩ | ⟨hnot, hcalls⟩
  · obtain ⟨hopen, hpolicy⟩ := runsTool_read_iff.mp hruns
    refine iff_of_false (by simp [hcalls]) ?_
    have hallowed : ¬Denies (gateway.activeRules state.cache) request.toolName (some .read)
        (gateway.callerIdentity request) spelling := fun h => by
      rw [verdict.mpr h] at hpolicy
      cases hpolicy
    exact not_or.mpr ⟨hopen, not_or.mpr ⟨fun h => hallowed (spelled h), hallowed⟩⟩
  · refine iff_of_true hcalls ?_
    by_cases hopen : HeldBack gateway denyAll request state.world
    · exact .inl hopen
    · refine .inr (.inr (verdict.mp ?_))
      cases hpolicy : (gateway.verdict state.cache request (some .read)).allowed with
      | false => rfl
      | true => exact absurd (runsTool_read_iff.mpr ⟨hopen, hpolicy⟩) hnot

/-- `str.lower` on ASCII letters. -/
def asciiLower (text : String) : String := String.ofList (text.toList.map Char.toLower)

/-- The seed rules with a deny rule for the service `payment`. -/
def paymentDenied : List PolicyRule :=
  { seedReadRule 7 codeSearchTool "denied:frozen" (by decide) (by decide) with
    allowed := false
    scope := ⟨"payment", by decide, by decide, by decide⟩
    destructive_denied := by decide } :: seedReadRules

def searchRequest (service : String) : ToolInvokeRequest :=
  let incident : Token 64 := ⟨"inc-1", by decide, by decide, by decide⟩
  AgentIdentity.code.request codeSearchTool
    [("service", .str service), ("scenario", .str "latency_spike")] incident none

def codeGateway : InvokeTool MemoryTokenBucket where
  tools name :=
    if name = "search_code" then some (makeSearchCode asciiLower)
    else if name = "list_deploys" then some (makeListDeploys asciiLower)
    else none
  policyRules := some paymentDenied
  boundAgentId := some .code
  rateLimiter := ⟨defaultRateLimits, memoryCounter⟩

theorem paymentDenied_mostSpecific :
    MostSpecificDeny paymentDenied "search_code" "code" "payment" := by
  refine ⟨paymentDenied.head (by simp [paymentDenied]), List.head_mem _, rfl, 42, by decide, ?_⟩
  have all : ∀ other ∈ paymentDenied,
      (specificity other "search_code" (some .read) "code" "payment").all (· ≤ 42) = true := by
    decide
  intro other hother score hscore
  have := all other hother
  rw [hscore] at this
  simpa using this

/-- A process with an empty log and nothing spent of the limits. -/
def idleGateway : GatewayState MemoryTokenBucket := ⟨⟨none, none⟩, [], ⟨[], fun _ => 0⟩⟩

def plainServices : Services := ⟨fun _ => .genesis, fun text => ⟨text, 0⟩⟩

theorem code_tool_denied_payment :
    (codeGateway.invoke plainServices false 0 0 (searchRequest "payment") idleGateway).calls = [] :=
  (code_tool_denied_iff plainServices codeGateway false 0 0 (searchRequest "payment") idleGateway
    asciiLower "payment" "payment" (by decide) (by decide) paymentDenied_mostSpecific).mpr
    (.inr (.inl rfl))

/-- A capital letter in the service gets a call past the deny rule. -/
theorem deny_bypassed_by_spelling : ¬∀ (services : Services) (gateway : InvokeTool MemoryTokenBucket)
    (denyAll : Bool) (entryId : Uuid) (now : Instant) (request : ToolInvokeRequest)
    (state : GatewayState MemoryTokenBucket) (lower : String → String) (scope spelling : String),
    codeService request.toolName (toolParameters request) = some spelling →
    serviceKey lower spelling = scope →
    MostSpecificDeny (gateway.activeRules state.cache) request.toolName
      (gateway.callerIdentity request) scope →
    (gateway.invoke services denyAll entryId now request state).calls = [] := by
  intro h
  have := h plainServices codeGateway false 0 0 (searchRequest "Payment") idleGateway asciiLower
    "payment" "Payment" (by decide) (by decide) paymentDenied_mostSpecific
  rw [InvokeTool.invoke_calls] at this
  revert this
  decide

end Aegis
