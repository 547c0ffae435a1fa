import Aegis.DirectiveLines
import Aegis.OutputCap

namespace Aegis

/-- What `cap_output` takes away of a value that it does not deny: the end of a text, or the last
items of a list. -/
def CutByCap (maxBytes : Nat) : Value → Prop
  | .str text =>
    maxBytes < (Value.str text).size ∧ takeBytes (maxBytes - 11) text.toList ≠ text.toList
  | .list items => maxBytes < (Value.list items).size
  | _ => False

/-- What comes out of the cap is still longer than an envelope takes. -/
def CutByEnvelope (redact : String → RedactionResult) (maxBytes : Nat) (value : Value) : Prop :=
  ∃ capped, capOutput maxBytes value = .ok capped ∧
    envelopeTextMaxChars < (neutralizeUntrustedText redact
      (flattenResultText (redactResult redact capped.value))).text.length

/-- The envelope of a result tells whether part of it was cut, is short enough, and has no line like
a tool call. -/
structure FaithfulEnvelope (redact : String → RedactionResult) (maxBytes : Nat) (raw : Value)
    (envelope : ToolResultEnvelope) : Prop where
  flag : envelope.truncated = true ↔ CutByCap maxBytes (redactResult redact raw) ∨
    CutByEnvelope redact maxBytes (redactResult redact raw)
  short : envelope.text.length ≤ envelopeTextMaxChars
  calm : Calm envelope.text

/-- The cap cuts no text, or what it leaves of the text is cut again. -/
def NoTextCut (redact : String → RedactionResult) (maxBytes : Nat) (raw : Value) : Prop :=
  (∀ text, redactResult redact raw = .str text → ¬CutByCap maxBytes (.str text)) ∨
    CutByEnvelope redact maxBytes (redactResult redact raw)

/-- The runners of a gateway, all of them hardened. -/
def hardenedTools {World : Type} (redact : String → RedactionResult) (clock : World → ℚ)
    (breaker : CircuitBreaker)
    (runners : String → Option (HardenedTool × (Fields → World → Attempt × World))) :
    String → Option (ToolFn (ToolEdge World)) :=
  fun name => (runners name).map fun runner => hardenTool redact clock breaker runner.1 runner.2

section Envelope

variable {World : Type} {services : Services} {redact : String → RedactionResult}
  {clock : World → ℚ} {breaker : CircuitBreaker} {tool : HardenedTool}
  {fn : Fields → World → Attempt × World} {maxBytes : Nat} {value raw : Value} {capped : Capped}

theorem settle_returned {truncated : Bool} {states : Dict BreakerState} {now : ℚ}
    (h : capOutput tool.limits.maxOutputBytes (redactResult redact raw) = .ok ⟨value, truncated⟩) :
    (tool.settle redact breaker states now (.returned raw false)).1 = .returned value truncated := by
  rw [HardenedTool.settle, h]

/-- What a hardened runner returns is the capped result of the wrapped function. -/
theorem hardenTool_returned {params : Fields} {edge : ToolEdge World} {truncated : Bool}
    (h : (hardenTool redact clock breaker tool fn params edge).1 = .returned value truncated) :
    ∃ raw, (fn params edge.world).1 = .result raw ∧
      capOutput tool.limits.maxOutputBytes (redactResult redact raw) = .ok ⟨value, truncated⟩ := by
  unfold hardenTool HardenedTool.run at h
  cases hparams : tool.checkParams params with
  | error text =>
    rw [hparams] at h
    cases h
  | ok accepted =>
    rw [hparams] at h
    dsimp only at h
    by_cases hallow : breaker.allow edge.states tool.key (clock edge.world) = true
    · rw [if_pos hallow] at h
      dsimp only at h
      cases hattempt : (fn params edge.world).1 with
      | result raw =>
        rw [hattempt, runWithTimeout, HardenedTool.settle] at h
        refine ⟨raw, rfl, ?_⟩
        cases hcap : capOutput tool.limits.maxOutputBytes (redactResult redact raw) with
        | error text =>
          rw [hcap] at h
          cases h
        | ok capped =>
          rw [hcap] at h
          cases h
          rfl
      | late =>
        rw [hattempt] at h
        cases h
      | raised =>
        rw [hattempt] at h
        cases h
      | validationError text =>
        rw [hattempt] at h
        cases h
    · rw [if_neg hallow] at h
      cases h

theorem capOutput_truncated (h : capOutput maxBytes value = .ok capped) :
    capped.truncated = true ↔ CutByCap maxBytes value ∧ ∀ text, value ≠ .str text := by
  by_cases hfits : value.size ≤ maxBytes
  · rw [capOutput_of_fits hfits] at h
    rw [← Except.ok.inj h]
    refine ⟨fun h => absurd h Bool.false_ne_true, fun ⟨hcut, hnot⟩ => ?_⟩
    cases value with
    | str text => exact absurd rfl (hnot text)
    | list items => exact absurd hfits (Nat.not_le.mpr hcut)
    | none => cases hcut
    | bool b => cases hcut
    | int n => cases hcut
    | float repr => cases hcut
    | obj fields => cases hcut
  · unfold capOutput at h
    rw [if_neg hfits] at h
    cases value with
    | str text =>
      rw [← Except.ok.inj h]
      exact ⟨fun h => absurd h Bool.false_ne_true, fun h => absurd rfl (h.2 text)⟩
    | list items =>
      dsimp only at h
      split at h
      · cases h
      · rw [← Except.ok.inj h]
        exact ⟨fun _ => ⟨Nat.lt_of_not_le hfits, by simp⟩, fun _ => rfl⟩
    | none => cases h
    | bool b => cases h
    | int n => cases h
    | float repr => cases h
    | obj fields => cases h

theorem buildEnvelope_truncated (redact : String → RedactionResult)
    (toolName incidentId : String) (result : Value) (truncated : Bool) :
    (buildEnvelope redact toolName incidentId result truncated).truncated = true ↔
      envelopeTextMaxChars < (neutralizeUntrustedText redact (flattenResultText result)).text.length ∨
        truncated = true := by
  rw [buildEnvelope]
  simp

theorem flag_right_iff (toolName incidentId : String) (h : capOutput maxBytes value = .ok capped) :
    ((buildEnvelope redact toolName incidentId (redactResult redact capped.value)
        capped.truncated).truncated = true ↔
      CutByCap maxBytes value ∨ CutByEnvelope redact maxBytes value) ↔
    (∀ text, value = .str text → ¬CutByCap maxBytes (.str text)) ∨
      CutByEnvelope redact maxBytes value := by
  have hlong : CutByEnvelope redact maxBytes value ↔
      envelopeTextMaxChars < (neutralizeUntrustedText redact
        (flattenResultText (redactResult redact capped.value))).text.length := by
    refine ⟨fun ⟨other, hother, hlong⟩ => ?_, fun hlong => ⟨capped, h, hlong⟩⟩
    rwa [Except.ok.inj (h.symm.trans hother)]
  rw [buildEnvelope_truncated, capOutput_truncated h, ← hlong]
  by_cases hcut : CutByEnvelope redact maxBytes value
  · exact iff_of_true (iff_of_true (.inl hcut) (.inr hcut)) (.inr hcut)
  · rw [or_iff_right hcut, or_iff_left hcut, or_iff_left hcut]
    constructor
    · rintro hflag text rfl hcap
      exact (hflag.mpr hcap).2 text rfl
    · intro hnone
      refine ⟨And.left, fun hcap => ⟨hcap, fun text htext => ?_⟩⟩
      subst htext
      exact hnone text rfl hcap

theorem envelope_faithful (toolName incidentId : String)
    (h : capOutput maxBytes (redactResult redact raw) = .ok capped) :
    FaithfulEnvelope redact maxBytes raw (buildEnvelope redact toolName incidentId
      (redactResult redact capped.value) capped.truncated) ↔ NoTextCut redact maxBytes raw :=
  ⟨fun faithful => (flag_right_iff toolName incidentId h).mp faithful.flag,
    fun hnone => ⟨(flag_right_iff toolName incidentId h).mpr hnone,
      buildEnvelope_text_length .., buildEnvelope_calm redact _ _ _ _⟩⟩

theorem decide_allowed_envelope {gateway : InvokeTool World} {denyAll : Bool} {cache : PolicyCache}
    {request : ToolInvokeRequest} {actionClass : Option ActionClass} {world : World}
    (h : (gateway.decide services denyAll cache request actionClass world).decision.allowed =
      true) :
    ∃ runner raw truncated, gateway.tools request.toolName = some runner ∧
      (runner (toolParameters request) (gateway.pace request world).2).1 =
        .returned raw truncated ∧
      (gateway.decide services denyAll cache request actionClass world).decision.envelope =
        some (buildEnvelope services.redact request.toolName request.incidentId
          (redactResult services.redact raw) truncated) := by
  rcases InvokeTool.decide_denied_or_runs services gateway denyAll cache request actionClass world
    with ⟨reason, cls, approval, world', _, heq⟩ | hruns
  · rw [heq] at h
    cases h
  · obtain ⟨runner, hrunner, heq⟩ := InvokeTool.decide_of_runs services hruns
    rw [heq, InvokeTool.run] at h ⊢
    dsimp only at h ⊢
    cases hout : (runner (toolParameters request) (gateway.pace request world).2).1 with
    | returned raw truncated => exact ⟨runner, raw, truncated, hrunner, hout, rfl⟩
    | validationError text =>
      rw [hout] at h
      cases h
    | raised =>
      rw [hout] at h
      cases h

end Envelope

/-- A gateway with hardened runners only. -/
def hardenedGateway {World : Type} (redact : String → RedactionResult) (clock : World → ℚ)
    (breaker : CircuitBreaker)
    (runners : String → Option (HardenedTool × (Fields → World → Attempt × World)))
    (gateway : InvokeTool (ToolEdge World)) : InvokeTool (ToolEdge World) :=
  { gateway with tools := hardenedTools redact clock breaker runners }

/-- When the truncation flag is faithful: a call of a gateway with hardened runners is refused, or
its envelope tells of a cut exactly when the cap cut no text or the text was cut a second time. -/
theorem decide_envelope_faithful_iff {World : Type} (services : Services) (clock : World → ℚ)
    (breaker : CircuitBreaker)
    (runners : String → Option (HardenedTool × (Fields → World → Attempt × World)))
    (gateway : InvokeTool (ToolEdge World)) (denyAll : Bool) (cache : PolicyCache)
    (request : ToolInvokeRequest) (actionClass : Option ActionClass) (edge : ToolEdge World) :
    ((hardenedGateway services.redact clock breaker runners gateway).decide services denyAll cache
      request actionClass edge).decision.allowed = false ∨
      ∃ tool fn raw envelope, runners request.toolName = some (tool, fn) ∧
        (fn (toolParameters request) (gateway.pace request edge).2.world).1 = .result raw ∧
        ((hardenedGateway services.redact clock breaker runners gateway).decide services denyAll
          cache request actionClass edge).decision.envelope = some envelope ∧
        (FaithfulEnvelope services.redact tool.limits.maxOutputBytes raw envelope ↔
          NoTextCut services.redact tool.limits.maxOutputBytes raw) := by
  have hpace : (hardenedGateway services.redact clock breaker runners gateway).pace request edge =
      gateway.pace request edge := rfl
  have htools : (hardenedGateway services.redact clock breaker runners gateway).tools
      request.toolName = (runners request.toolName).map fun runner =>
        hardenTool services.redact clock breaker runner.1 runner.2 := rfl
  generalize hardenedGateway services.redact clock breaker runners gateway = hardened at *
  cases hallowed : (hardened.decide services denyAll cache request actionClass
    edge).decision.allowed with
  | false => exact .inl rfl
  | true =>
    obtain ⟨runner, value, truncated, hrunner, hout, henvelope⟩ := decide_allowed_envelope hallowed
    rw [htools] at hrunner
    rw [hpace] at hout
    obtain ⟨⟨tool, fn⟩, hfound, rfl⟩ := Option.map_eq_some_iff.mp hrunner
    obtain ⟨raw, hraw, hcap⟩ := hardenTool_returned hout
    have hfaithful := envelope_faithful request.toolName request.incidentId hcap
    exact .inr ⟨tool, fn, raw, _, hfound, hraw, henvelope, hfaithful⟩

def lettersRequest : ToolInvokeRequest :=
  AgentIdentity.mcpClient.request knowledgeTool [] mcpIncident none

def letters : String := "aaaaaaaaaaaaaaaaaaaa"

/-- Three failures within thirty seconds; sums of whole seconds are not rounded. -/
def halfMinute : CircuitBreaker := ⟨3, 30, fun a b => a + b⟩

def lettersTool : HardenedTool := ⟨"retrieve_knowledge", ⟨13, 16384⟩, none, none⟩

/-- A tool that returns a text of twenty letters where thirteen bytes may come out. -/
def lettersRunners : String → Option (HardenedTool × (Fields → Unit → Attempt × Unit)) :=
  fun name =>
    if name = "retrieve_knowledge" then
      some (lettersTool, fun _ world => (.result (.str letters), world))
    else none

/-- A gateway whose limiter lets every call pass. -/
def openGateway : InvokeTool (ToolEdge Unit) where
  tools _ := none
  policyRules := some seedReadRules
  boundAgentId := some .mcpClient
  rateLimiter := ⟨⟨60, 30, 90, false⟩, ⟨fun _ edge => (some true, edge)⟩⟩

def bareServices : Services := ⟨fun _ => Digest.genesis, fun text => ⟨text, 0⟩⟩

def lettersGateway : InvokeTool (ToolEdge Unit) :=
  hardenedGateway bareServices.redact (fun _ => 0) halfMinute lettersRunners openGateway

theorem lettersGateway_runs :
    lettersGateway.RunsTool false ⟨none, none⟩ lettersRequest (some .read) ⟨[], ()⟩ where
  not_denied_all := rfl
  known := by decide
  not_destructive := by decide
  not_high_risk := by decide
  not_low_risk := by decide
  in_scope := by decide
  policy := by decide
  resolves_read := by decide
  registered := by decide
  paced := by decide

theorem letters_over : 13 < (Value.str letters).size := by
  have hlong : quotedLength letters.toList = 20 := by decide
  rw [size_str]
  omega

theorem letters_cut : capOutput 13 (.str letters) = .ok ⟨.str "aa[truncated]", false⟩ := by
  have htext : truncateText letters 13 = "aa[truncated]" := by decide
  rw [capOutput_text letters_over, htext]

/-- Eighteen letters are cut away, and the envelope does not say so. -/
theorem cut_text_unflagged :
    ¬∀ (World : Type) (services : Services) (clock : World → ℚ) (breaker : CircuitBreaker)
      (runners : String → Option (HardenedTool × (Fields → World → Attempt × World)))
      (gateway : InvokeTool (ToolEdge World)) (denyAll : Bool) (cache : PolicyCache)
      (request : ToolInvokeRequest) (actionClass : Option ActionClass) (edge : ToolEdge World)
      (tool : HardenedTool) (fn : Fields → World → Attempt × World) (raw : Value)
      (envelope : ToolResultEnvelope), runners request.toolName = some (tool, fn) →
      (fn (toolParameters request) (gateway.pace request edge).2.world).1 = .result raw →
      ((hardenedGateway services.redact clock breaker runners gateway).decide services denyAll cache
        request actionClass edge).decision.envelope = some envelope →
      FaithfulEnvelope services.redact tool.limits.maxOutputBytes raw envelope := by
  intro h
  obtain ⟨runner, hrunner, heq⟩ := InvokeTool.decide_of_runs bareServices lettersGateway_runs
  have hhardened : some runner = some (hardenTool bareServices.redact (fun _ => 0) halfMinute
      lettersTool fun _ world => (.result (.str letters), world)) := hrunner.symm
  obtain rfl := Option.some.inj hhardened
  have hout : (hardenTool bareServices.redact (fun _ => 0) halfMinute lettersTool
      (fun _ world => (.result (.str letters), world)) (toolParameters lettersRequest)
      (lettersGateway.pace lettersRequest ⟨[], ()⟩).2).1 = .returned (.str "aa[truncated]") false := by
    exact @settle_returned bareServices.redact halfMinute lettersTool _ (.str letters) false [] 0
      letters_cut
  have henvelope : (lettersGateway.decide bareServices false ⟨none, none⟩ lettersRequest
      (some .read) ⟨[], ()⟩).decision.envelope = some (buildEnvelope bareServices.redact
        "retrieve_knowledge" "mcp" (.str "aa[truncated]") false) := by
    rw [heq, InvokeTool.run]
    dsimp only
    rw [hout]
    rfl
  have faithful := h Unit bareServices (fun _ => 0) halfMinute lettersRunners openGateway false
    ⟨none, none⟩ lettersRequest (some .read) ⟨[], ()⟩ lettersTool
    (fun _ world => (.result (.str letters), world)) (.str letters) _ rfl rfl henvelope
  have hflag : (buildEnvelope bareServices.redact "retrieve_knowledge" "mcp"
      (.str "aa[truncated]") false).truncated = false := by decide
  rw [faithful.flag.mpr (.inl ?_)] at hflag
  · cases hflag
  · exact ⟨letters_over, by decide⟩

end Aegis
