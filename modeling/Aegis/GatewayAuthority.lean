import Aegis.InvokeTool

namespace Aegis

variable {World : Type}

/-- What a call of a runner must have been granted: the calling agent holds the tool, the tool
is not a write, the rules allow the call as a read and the limiter let it through. -/
structure Granted (gateway : InvokeTool World) (denyAll : Bool) (cache : PolicyCache)
    (request : ToolInvokeRequest) (world : World) (toolName : String) : Prop where
  not_denied_all : denyAll = false
  held : ∃ identity, parseAgentIdentity (gateway.callerIdentity request) = some identity ∧
    toolName ∈ agentToolGrants identity
  not_write : classify toolName ≠ some .destructive ∧ classify toolName ≠ some .highRiskWrite ∧
    classify toolName ≠ some .lowRiskWrite
  policy : (evaluatePolicy (gateway.activeRules cache) toolName (classify toolName)
    (gateway.callerIdentity request)
    ((Fields.get (toolParameters request) "service").strOr "")).allowed = true
  resolves_read : (classify toolName).or (evaluatePolicy (gateway.activeRules cache) toolName
    (classify toolName) (gateway.callerIdentity request)
    ((Fields.get (toolParameters request) "service").strOr "")).actionClass = some .read
  paced : (gateway.rateLimiter.allow (gateway.callerIdentity request) toolName request.incidentId
    world).1.allowed = true

/-- At most one runner is called, once, and only when all of it was granted. -/
def LeastAuthority (gateway : InvokeTool World) (denyAll : Bool) (cache : PolicyCache)
    (request : ToolInvokeRequest) (world : World) (calls : List RunnerCall) : Prop :=
  calls.length ≤ 1 ∧
    ∀ call ∈ calls, Granted gateway denyAll cache request world call.toolName

/-- The registry knows the tool, or something else than the grants refuses the call. -/
def ClassifiedOrRefused (gateway : InvokeTool World) (denyAll : Bool) (cache : PolicyCache)
    (request : ToolInvokeRequest) (world : World) : Prop :=
  classify request.toolName ≠ none ∨ denyAll = true ∨
    parseAgentIdentity (gateway.callerIdentity request) = none ∨
    (gateway.verdict cache request none).allowed = false ∨
    (gateway.verdict cache request none).actionClass ≠ some .read ∨
    gateway.tools request.toolName = none ∨
    (gateway.pace request world).1.allowed = false

theorem granted_tools_classified {identity : AgentIdentity} {toolName : String}
    (h : toolName ∈ agentToolGrants identity) : classify toolName = some .read := by
  have all : ∀ identity, ∀ name ∈ agentToolGrants identity, classify name = some .read := by
    intro identity
    cases identity <;> decide
  exact all identity toolName h

theorem runsTool_granted {gateway : InvokeTool World} {denyAll : Bool} {cache : PolicyCache}
    {request : ToolInvokeRequest} {world : World}
    (h : gateway.RunsTool denyAll cache request (classify request.toolName) world)
    (known : classify request.toolName ≠ none) :
    Granted gateway denyAll cache request world request.toolName where
  not_denied_all := h.not_denied_all
  held := agentMayInvoke_iff.mp (h.in_scope (Option.isSome_iff_ne_none.mpr known))
  not_write := ⟨h.not_destructive, h.not_high_risk, h.not_low_risk⟩
  policy := h.policy
  resolves_read := h.resolves_read
  paced := h.paced

theorem runsTool_unclassified_iff {gateway : InvokeTool World} {denyAll : Bool}
    {cache : PolicyCache} {request : ToolInvokeRequest} {world : World} :
    gateway.RunsTool denyAll cache request none world ↔
      denyAll = false ∧ parseAgentIdentity (gateway.callerIdentity request) ≠ none ∧
      (gateway.verdict cache request none).allowed = true ∧
      (gateway.verdict cache request none).actionClass = some .read ∧
      (gateway.tools request.toolName).isSome ∧
      (gateway.pace request world).1.allowed = true := by
  constructor
  · intro h
    exact ⟨h.not_denied_all, h.known, h.policy, h.resolves_read, h.registered, h.paced⟩
  · rintro ⟨hopen, hknown, hpolicy, hread, htool, hpaced⟩
    exact ⟨hopen, hknown, by simp, by simp, by simp, by simp, hpolicy, hread, htool, hpaced⟩

/-- The grants of an agent are consulted for classified tools only, so the gateway keeps to
least authority exactly when no unclassified tool gets past its other checks. -/
theorem invoke_leastAuthority_iff (services : Services) (gateway : InvokeTool World)
    (denyAll : Bool) (entryId : Uuid) (now : Instant) (request : ToolInvokeRequest)
    (state : GatewayState World) :
    LeastAuthority gateway denyAll state.cache request state.world
        (gateway.invoke services denyAll entryId now request state).calls ↔
      ClassifiedOrRefused gateway denyAll state.cache request state.world := by
  rw [InvokeTool.invoke_calls]
  rcases InvokeTool.decide_calls services gateway denyAll state.cache request
    (classify request.toolName) state.world with ⟨hruns, hcalls⟩ | ⟨hnot, hcalls⟩
  · rw [hcalls]
    cases hclass : classify request.toolName with
    | some cls =>
      have hgranted := runsTool_granted hruns (by simp [hclass])
      refine iff_of_true ⟨le_refl _, ?_⟩ (.inl (by simp [hclass]))
      intro call hcall
      rw [List.mem_singleton.mp hcall]
      exact hgranted
    | none =>
      rw [hclass] at hruns
      refine iff_of_false ?_ ?_
      · rintro ⟨_, hall⟩
        obtain ⟨identity, _, hheld⟩ := (hall _ (List.mem_singleton.mpr rfl)).held
        have := granted_tools_classified hheld
        simp [hclass] at this
      · obtain ⟨hopen, hknown, hpolicy, hread, htool, hpaced⟩ :=
          runsTool_unclassified_iff.mp hruns
        rw [Option.isSome_iff_ne_none] at htool
        simp [ClassifiedOrRefused, hclass, hopen, hknown, hpolicy, hread, htool, hpaced]
  · rw [hcalls]
    refine iff_of_true ⟨by simp, by simp⟩ ?_
    by_cases hclass : classify request.toolName = none
    · rw [hclass, runsTool_unclassified_iff] at hnot
      by_contra hcond
      simp only [ClassifiedOrRefused, hclass, ne_eq, not_true_eq_false, false_or, not_or,
        Bool.not_eq_true, Bool.not_eq_false, not_not] at hcond
      obtain ⟨hopen, hknown, hpolicy, hread, htool, hpaced⟩ := hcond
      exact hnot ⟨hopen, hknown, hpolicy, hread, Option.isSome_iff_ne_none.mpr htool, hpaced⟩
    · exact .inl hclass

/-- The limits that the settings default to. -/
def defaultRateLimits : ToolRateLimits := ⟨60, 30, 90, false⟩

def exportRequest : ToolInvokeRequest :=
  AgentIdentity.commander.request exportTool [] mcpIncident none

def exportRule : PolicyRule := seedReadRule 5 exportTool "reporting" (by decide) (by decide)

/-- A gateway with one tool, which the registry does not know, and one rule that allows it. -/
def exportGateway : InvokeTool MemoryTokenBucket where
  tools name :=
    if name = "export_users" then some fun _ world => (.returned .none false, world) else none
  policyRules := some [exportRule]
  boundAgentId := some .commander
  rateLimiter := ⟨defaultRateLimits, memoryCounter⟩

theorem exportGateway_runs :
    exportGateway.RunsTool false ⟨none, none⟩ exportRequest (classify exportRequest.toolName)
      ⟨[], fun _ => 0⟩ where
  not_denied_all := rfl
  known := by decide
  not_destructive := by decide
  not_high_risk := by decide
  not_low_risk := by decide
  in_scope := by decide
  policy := by decide
  resolves_read := by decide
  registered := by decide
  paced := by decide

/-- The commander, which holds no tool, runs one. -/
theorem commander_runs_export_users :
    ¬LeastAuthority exportGateway false ⟨none, none⟩ exportRequest ⟨[], fun _ => 0⟩
      (exportGateway.invoke ⟨fun _ => Digest.genesis, fun text => ⟨text, 0⟩⟩ false 7 seedAt
        exportRequest ⟨⟨none, none⟩, [], ⟨[], fun _ => 0⟩⟩).calls := by
  rintro ⟨_, hall⟩
  rw [InvokeTool.invoke_calls] at hall
  rcases InvokeTool.decide_calls ⟨fun _ => Digest.genesis, fun text => ⟨text, 0⟩⟩ exportGateway
    false ⟨none, none⟩ exportRequest (classify exportRequest.toolName) ⟨[], fun _ => 0⟩ with
    ⟨_, hcalls⟩ | ⟨hnot, _⟩
  · rw [hcalls] at hall
    obtain ⟨identity, hidentity, hheld⟩ := (hall _ (List.mem_singleton.mpr rfl)).held
    have hcommander : identity = .commander := by
      have : parseAgentIdentity (exportGateway.callerIdentity exportRequest) = some .commander := by
        decide
      exact Option.some.inj (hidentity.symm.trans this)
    rw [hcommander] at hheld
    cases hheld
  · exact hnot exportGateway_runs

end Aegis
