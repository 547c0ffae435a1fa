import Aegis.Rca

namespace Aegis

open Raising Proc

/-- `InvestigationState` without its log, which no node reads. A text channel that is absent is
empty: every reader takes one for the other. -/
structure Channels where
  incidentId : Uuid
  service : String
  scenario : String
  hops : Int
  nextAgent : Option NextAction
  status : String
  humanDecision : String
  evidence : List EvidenceItem
  failedSteps : List String
  summary : String
  correlationId : String
  startedAt : String
  escalateReason : String
  title : String
  rca : Option RcaPayload

/-- What the nodes of a worker share besides the channels: the recorder's bucket and the gateway.
The packs handed to `generate_rca` are kept beside them. -/
structure Desk (World : Type) where
  recorded : List Evidence
  gateway : GatewayState World
  packs : List (List EvidencePackItem)

/-- The ports of the graph. `fanoutSwaps` tells which thread of a fan-out gets ahead. -/
structure SpecialistPorts (World : Type) extends RcaHost World where
  gateway : InvokeTool World
  denyAll : World → Bool
  fanoutSwaps : World → Bool × World

/-- What a specialist returns: its channels all append. -/
structure SpecialistUpdate where
  evidence : List CollectedItem
  failedSteps : List Specialist
  log : List String

def obsMaxItems : Nat := 20

def failedUpdate (specialist : Specialist) (line : String) : SpecialistUpdate :=
  ⟨[], [specialist], [specialist.value ++ " " ++ line]⟩

/-- `list(result or [])` -/
def resultItems (result : Value) : Except Raised (List Value) :=
  if result.truthy then
    match result with
    | .list items => .ok items
    | .str s => .ok (s.toList.map fun c => .str (String.singleton c))
    | .obj fields => .ok (fields.map fun entry => .str entry.1)
    | _ => .error (.invalid "object is not iterable")
  else .ok []

/-- An item without the attributes of a hit: the gateway hands on JSON data only. -/
def asMapping : Value → Except Raised Fields
  | .obj fields => .ok fields
  | _ => .error (.other "object has no attribute")

/-- `_obs_item` -/
def obsItem (redact : String → RedactionResult) (timestamp : String) (signal : Fields) :
    Collected :=
  let kind := (Fields.get signal "kind").strOr "log"
  .observability (if kind ∈ ["log", "metric", "trace"] then kind else "log")
    ((Fields.get signal "source").strOr "simulator") timestamp
    ((Fields.get signal "service").strOr "")
    (cap redact ((Fields.get signal "summary").strOr ""))

/-- `_knowledge_item` -/
def knowledgeItem (redact : String → RedactionResult) (timestamp : String) (hit : Fields) :
    Collected :=
  let citation := match Fields.get hit "citation" with
    | .obj fields => fields
    | _ => []
  .knowledge timestamp (cap redact ((Fields.get hit "text").strOr ""))
    ((Fields.get citation "document").strOr "") ((Fields.get citation "section").strOr "")
    ((Fields.get citation "chunk_id").strOr "")

/-- Whether a text contains another one. -/
def containsText (text part : String) : Bool :=
  text.toList.tails.any fun tail => part.toList.isPrefixOf tail

/-- `_code_item` -/
def codeItem (redact : String → RedactionResult) (lower : String → String) (timestamp : String)
    (hit : Fields) : Collected :=
  let summary := (Fields.get hit "summary").strOr ""
  let path := (Fields.get hit "path").strOr ""
  let isDeploy := containsText (lower summary) "deploy" ||
    "deployments.md".toList.isSuffixOf path.toList
  .code (if isDeploy then "deploy" else "code") timestamp
    ((Fields.get hit "service").strOr "") ((Fields.get hit "version").strOr "") path
    (cap redact summary)

/-- `_code_key` -/
def codeKey (hit : Fields) : String × String × String :=
  ((Fields.get hit "service").strOr "", (Fields.get hit "path").strOr "",
    (Fields.get hit "version").strOr "")

/-- `_dedupe_code_hits`: the first hit of every key. -/
def dedupeCodeHits (seen : List (String × String × String)) : List Fields → List Fields
  | [] => []
  | hit :: rest =>
    if codeKey hit ∈ seen then dedupeCodeHits seen rest
    else hit :: dedupeCodeHits (codeKey hit :: seen) rest

/-- `_tag_untrusted` -/
def tagUntrusted (items : List Collected) (decision : GatewayDecision) : List CollectedItem :=
  items.map fun content => ⟨content, decision.toolName, decision.auditId⟩

section Nodes

variable {World : Type} (ports : SpecialistPorts World)

def onWorld {Value : Type} (p : Proc World Raised Value) : Proc (Desk World) Raised Value :=
  within (fun desk => desk.gateway.world)
    (fun desk world => { desk with gateway := { desk.gateway with world } }) p

/-- `InvokeTool.invoke` on the shared gateway. -/
def invokeGateway (gateway : InvokeTool World) (entryId : Uuid) (now : Instant)
    (request : ToolInvokeRequest) : Proc (Desk World) Raised GatewayDecision := fun desk =>
  let invoked := gateway.invoke ports.services (ports.denyAll desk.gateway.world) entryId now
    request desk.gateway
  (invoked.result.mapError Raised.invalid, { desk with gateway := invoked.state })

/-- One tool call of a node, under the identity its gateway is bound to. -/
def callTool (identity : AgentIdentity) (toolName : String) (parameters : Fields)
    (incidentId : Uuid) : Proc (Desk World) Raised GatewayDecision := do
  let request ← fromExcept ((ToolInvokeRequest.new identity.value toolName parameters
    incidentId.str none).mapError Raised.invalid)
  let entryId ← onWorld (mintId ports.toHost)
  let now ← onWorld (utcNow ports.toHost)
  invokeGateway ports (ports.gateway.bind identity) entryId now request

/-- `_record_collected`: an item that makes no row is logged, and none of its batch is kept. -/
def recordItems (incidentId : Uuid) (items : List CollectedItem) :
    Proc (Desk World) Raised Unit :=
  attempt (do
    let rows ← onWorld (recordCollected ports.toHost incidentId items)
    update fun desk => { desk with recorded := desk.recorded ++ rows })
    fun _ => pure ()

/-- The end of a collector: record the items it has. -/
def keepItems (specialist : Specialist) (incidentId : Uuid) (items : List CollectedItem)
    (emptyReason : String) (line : String) : Proc (Desk World) Raised SpecialistUpdate :=
  if items.isEmpty then pure (failedUpdate specialist ("failed: " ++ emptyReason))
  else do
    recordItems ports incidentId items
    pure ⟨items, [], [specialist.value ++ " " ++ line]⟩

/-- `_iso(datetime.now(timezone.utc))` -/
def isoNow : Proc World Raised String := do
  let now ← utcNow ports.toHost
  pure (isoformat now)

/-- `_as_iso` -/
def asIso : Value → Proc World Raised String
  | .none => isoNow ports
  | value => pure value.pyStr

/-- Every hit made an item, with the time that is read for it. -/
def itemsOf (time : Fields → Proc World Raised String) (item : String → Fields → Collected)
    (hits : List Fields) : Proc (Desk World) Raised (List Collected) :=
  onWorld (mapEach (fun hit => do
    let timestamp ← time hit
    pure (item timestamp hit)) hits)

/-- The items of an allowed call of `fetch_signals`. -/
def keepSignals (c : Channels) (decision : GatewayDecision) :
    Proc (Desk World) Raised SpecialistUpdate := do
  let signals ← fromExcept (resultItems decision.result)
  let hits ← fromExcept ((signals.take obsMaxItems).mapM asMapping)
  let signals ← itemsOf (fun signal => asIso ports (Fields.get signal "timestamp"))
    (obsItem ports.services.redact) hits
  let items := tagUntrusted signals decision
  keepItems ports .observability c.incidentId items "empty_signals"
    ("collected " ++ toString items.length ++ " summaries source=simulator")

/-- `collect_observability` -/
def collectObservability (c : Channels) : Proc (Desk World) Raised SpecialistUpdate := do
  let called ← capture (callTool ports .observability "fetch_signals"
    [("service", .str c.service), ("scenario", .str c.scenario), ("limit", .int obsMaxItems)]
    c.incidentId)
  match called with
  | .error raised => pure (failedUpdate .observability ("failed: " ++ raised.text))
  | .ok decision =>
    if decision.allowed then keepSignals ports c decision
    else pure (failedUpdate .observability ("denied: " ++ decision.reason))

/-- `str.replace("_", " ")` -/
def underscoresToSpaces (text : String) : String :=
  String.ofList (text.toList.map fun c => if c = '_' then ' ' else c)

/-- The items of an allowed call of `retrieve_knowledge`. -/
def keepChunks (c : Channels) (decision : GatewayDecision) :
    Proc (Desk World) Raised SpecialistUpdate := do
  let chunks ← fromExcept (resultItems decision.result)
  let hits ← fromExcept (chunks.mapM asMapping)
  let chunks ← itemsOf (fun _ => isoNow ports) (knowledgeItem ports.services.redact) hits
  let items := tagUntrusted chunks decision
  keepItems ports .knowledge c.incidentId items "no_hits"
    ("retrieved " ++ toString items.length ++ " chunks via RetrieveKnowledge")

/-- `collect_knowledge` -/
def collectKnowledge (c : Channels) : Proc (Desk World) Raised SpecialistUpdate := do
  let query := orElse (strip c.title) (underscoresToSpaces c.scenario ++ " " ++ c.service)
  let called ← capture (callTool ports .knowledge "retrieve_knowledge"
    [("query", .str query), ("service", .str c.service), ("scenario", .str c.scenario)]
    c.incidentId)
  match called with
  | .error raised => pure (failedUpdate .knowledge ("failed: " ++ raised.text))
  | .ok decision =>
    if decision.allowed then keepChunks ports c decision
    else pure (failedUpdate .knowledge ("denied: " ++
      if decision.reason = "denied:not_registered" then "opensearch_unset" else decision.reason))

/-- The items of the allowed calls of `list_deploys` and `search_code`. -/
def keepHits (c : Channels) (deploys hits : GatewayDecision) :
    Proc (Desk World) Raised SpecialistUpdate := do
  let deployed ← fromExcept (resultItems deploys.result)
  let found ← fromExcept (resultItems hits.result)
  let all ← fromExcept ((deployed ++ found).mapM asMapping)
  let merged ← itemsOf (fun _ => isoNow ports) (codeItem ports.services.redact ports.lower)
    (dedupeCodeHits [] all)
  let items := tagUntrusted merged hits
  keepItems ports .code c.incidentId items "empty"
    ("collected " ++ toString items.length ++ " hits including deploy history")

/-- `collect_code` -/
def collectCode (c : Channels) : Proc (Desk World) Raised SpecialistUpdate := do
  let called ← capture (do
    let deploys ← callTool ports .code "list_deploys" [("service", .str c.service)] c.incidentId
    let hits ← callTool ports .code "search_code"
      [("service", .str c.service), ("scenario", .str c.scenario)] c.incidentId
    pure (deploys, hits))
  match called with
  | .error raised => pure (failedUpdate .code ("failed: " ++ raised.text))
  | .ok (deploys, hits) =>
    if deploys.allowed && hits.allowed then keepHits ports c deploys hits
    else pure (failedUpdate .code ("denied: " ++
      if deploys.allowed then hits.reason else deploys.reason))

end Nodes

/-- What work for an incident leaves on the desk: rows of that incident in the bucket and audit
entries in the log, each after those already there. -/
structure Extends {World : Type} (incidentId : Uuid) (desk later : Desk World) : Prop where
  recorded : desk.recorded <+: later.recorded
  incident : ∀ row ∈ later.recorded, row ∈ desk.recorded ∨ row.incidentId = incidentId
  log : desk.gateway.log <+: later.gateway.log
  cache : later.gateway.cache = desk.gateway.cache
  packs : desk.packs <+: later.packs

section Extends

variable {World : Type} {ports : SpecialistPorts World} {incidentId : Uuid}

theorem extends_refl (desk : Desk World) : Extends incidentId desk desk :=
  ⟨List.prefix_refl _, fun _ h => .inl h, List.prefix_refl _, rfl, List.prefix_refl _⟩

theorem extends_trans (a b c : Desk World) (h : Extends incidentId a b)
    (h' : Extends incidentId b c) : Extends incidentId a c := by
  refine ⟨h.recorded.trans h'.recorded, ?_, h.log.trans h'.log, h'.cache.trans h.cache,
    h.packs.trans h'.packs⟩
  intro row hrow
  rcases h'.incident row hrow with hb | heq
  · exact h.incident row hb
  · exact .inr heq

theorem extends_onWorld {Value : Type} (p : Proc World Raised Value) :
    Leaves (Extends incidentId) (onWorld p) :=
  leaves_within fun _ _ =>
    ⟨List.prefix_refl _, fun _ h => .inl h, List.prefix_refl _, rfl, List.prefix_refl _⟩

theorem extends_fromExcept {Value : Type} (x : Except Raised Value) :
    Leaves (Extends incidentId) (fromExcept x : Proc (Desk World) Raised Value) :=
  leaves_fromExcept extends_refl x

theorem extends_pure {Value : Type} (a : Value) :
    Leaves (Extends incidentId) (pure a : Proc (Desk World) Raised Value) :=
  leaves_pure extends_refl a

theorem extends_bind {Value Result : Type} {p : Proc (Desk World) Raised Value}
    {f : Value → Proc (Desk World) Raised Result} (first : Leaves (Extends incidentId) p)
    (second : ∀ a, Leaves (Extends incidentId) (f a)) : Leaves (Extends incidentId) (p >>= f) :=
  leaves_bind extends_trans first second

theorem extends_attempt {Value : Type} {p : Proc (Desk World) Raised Value}
    {handler : Raised → Proc (Desk World) Raised Value} (first : Leaves (Extends incidentId) p)
    (second : ∀ e, Leaves (Extends incidentId) (handler e)) :
    Leaves (Extends incidentId) (attempt p handler) :=
  leaves_attempt extends_trans first second

theorem extends_gateway {desk : Desk World} {gateway : GatewayState World}
    (log : desk.gateway.log <+: gateway.log) (cache : gateway.cache = desk.gateway.cache) :
    Extends incidentId desk { desk with gateway } :=
  ⟨List.prefix_refl _, fun _ h => .inl h, log, cache, List.prefix_refl _⟩

/-- An invocation appends to the log, if it gets as far as recording its decision. -/
theorem extends_invokeGateway (gateway : InvokeTool World) (entryId : Uuid) (now : Instant)
    (request : ToolInvokeRequest) :
    Leaves (Extends incidentId) (invokeGateway ports gateway entryId now request) := by
  intro desk
  change Extends incidentId desk { desk with gateway := (gateway.invoke ports.services
    (ports.denyAll desk.gateway.world) entryId now request desk.gateway).state }
  unfold InvokeTool.invoke
  dsimp only
  split
  · exact extends_gateway (List.prefix_refl _) rfl
  next entry log hrecord =>
    obtain ⟨rfl, _⟩ := recordDecision_ok hrecord
    exact extends_gateway (List.prefix_append _ _) rfl

theorem extends_callTool (identity : AgentIdentity) (toolName : String) (parameters : Fields) :
    Leaves (Extends incidentId) (callTool ports identity toolName parameters incidentId) := by
  unfold callTool
  refine extends_bind (extends_fromExcept _) fun request => ?_
  refine extends_bind (extends_onWorld _) fun entryId => ?_
  refine extends_bind (extends_onWorld _) fun now => ?_
  exact extends_invokeGateway _ _ _ _

theorem extends_recordItems (items : List CollectedItem) :
    Leaves (Extends incidentId) (recordItems ports incidentId items) := by
  refine extends_attempt ?_ fun _ => extends_pure _
  intro desk
  rw [bind_apply]
  have hworld : Extends incidentId desk
      (onWorld (recordCollected ports.toHost incidentId items) desk).2 := extends_onWorld _ desk
  rcases h : onWorld (recordCollected ports.toHost incidentId items) desk with ⟨_ | rows, later⟩
  · simpa [h] using hworld
  · rw [h] at hworld
    refine extends_trans _ _ _ hworld ⟨List.prefix_append _ _, ?_, List.prefix_refl _, rfl,
      List.prefix_refl _⟩
    intro row hrow
    rcases List.mem_append.mp hrow with hold | hnew
    · exact .inl hold
    · exact .inr (returns_within (recordCollected_incident items) _ _ _ h row hnew)

theorem extends_keepItems (specialist : Specialist) (items : List CollectedItem)
    (emptyReason line : String) :
    Leaves (Extends incidentId) (keepItems ports specialist incidentId items emptyReason line) := by
  unfold keepItems
  split
  · exact extends_pure _
  · exact extends_bind (extends_recordItems items) fun _ => extends_pure _

variable {channels : Channels}

theorem extends_collectObservability :
    Leaves (Extends channels.incidentId) (collectObservability ports channels) := by
  refine extends_bind (leaves_capture (extends_callTool _ _ _)) fun called => ?_
  split
  · exact extends_pure _
  · split
    · exact extends_bind (extends_fromExcept _) fun _ => extends_bind (extends_fromExcept _)
        fun _ => extends_bind (extends_onWorld _) fun _ => extends_keepItems _ _ _ _
    · exact extends_pure _

theorem extends_collectKnowledge :
    Leaves (Extends channels.incidentId) (collectKnowledge ports channels) := by
  refine extends_bind (leaves_capture (extends_callTool _ _ _)) fun called => ?_
  split
  · exact extends_pure _
  · split
    · exact extends_bind (extends_fromExcept _) fun _ => extends_bind (extends_fromExcept _)
        fun _ => extends_bind (extends_onWorld _) fun _ => extends_keepItems _ _ _ _
    · exact extends_pure _

theorem extends_collectCode :
    Leaves (Extends channels.incidentId) (collectCode ports channels) := by
  refine extends_bind (leaves_capture ?_) fun called => ?_
  · exact extends_bind (extends_callTool _ _ _) fun _ => extends_bind (extends_callTool _ _ _)
      fun _ => extends_pure _
  split
  · exact extends_pure _
  · split
    · exact extends_bind (extends_fromExcept _) fun _ => extends_bind (extends_fromExcept _)
        fun _ => extends_bind (extends_fromExcept _) fun _ => extends_bind (extends_onWorld _)
        fun _ => extends_keepItems _ _ _ _
    · exact extends_pure _

end Extends

/-- Two desks that differ in their audit logs at most. -/
structure SameView {World : Type} (a b : Desk World) : Prop where
  recorded : a.recorded = b.recorded
  cache : a.gateway.cache = b.gateway.cache
  world : a.gateway.world = b.gateway.world
  packs : a.packs = b.packs

section SameView

variable {World : Type} {ports : SpecialistPorts World}

theorem respects_onWorld {Value : Type} (p : Proc World Raised Value) :
    Respects SameView (onWorld p) :=
  respects_within (fun _ _ h => h.world) fun _ _ _ h => ⟨h.recorded, h.cache, rfl, h.packs⟩

theorem invoke_cache (gateway : InvokeTool World) (services : Services) (denyAll : Bool)
    (entryId : Uuid) (now : Instant) (request : ToolInvokeRequest) (state : GatewayState World) :
    (gateway.invoke services denyAll entryId now request state).state.cache = state.cache := by
  unfold InvokeTool.invoke
  dsimp only
  split <;> rfl

/-- What an invocation answers does not depend on the audit log. -/
theorem invoke_log (gateway : InvokeTool World) (services : Services) (denyAll : Bool)
    (entryId : Uuid) (now : Instant) (request : ToolInvokeRequest) {a b : GatewayState World}
    (cache : a.cache = b.cache) (world : a.world = b.world) :
    (gateway.invoke services denyAll entryId now request a).result =
        (gateway.invoke services denyAll entryId now request b).result ∧
      (gateway.invoke services denyAll entryId now request a).state.cache =
        (gateway.invoke services denyAll entryId now request b).state.cache ∧
      (gateway.invoke services denyAll entryId now request a).state.world =
        (gateway.invoke services denyAll entryId now request b).state.world := by
  rw [invoke_cache, invoke_cache]
  refine (and_congr_right fun _ => and_iff_right cache).mpr ?_
  obtain ⟨cache, log, world⟩ := a
  obtain ⟨_, log', _⟩ := b
  subst cache world
  unfold InvokeTool.invoke
  dsimp only
  generalize (gateway.decide services denyAll cache request (classify request.toolName)
    world) = decided
  generalize decided.decision.withGovernance (gateway.policyVersion services cache).text
    denyAll = decision
  have h := @recordDecision_id services.digest services.redact request decision entryId now log log'
  rcases hfirst : recordDecision services.digest services.redact request decision entryId now log
    with text | ⟨entry, made⟩
  · rcases hsecond : recordDecision services.digest services.redact request decision entryId now
      log' with text' | ⟨entry', made'⟩
    · rw [hfirst, hsecond] at h
      simp only [Except.map, Except.error.injEq] at h
      exact ⟨congrArg Except.error h, rfl⟩
    · rw [hfirst, hsecond] at h
      simp [Except.map] at h
  · rcases hsecond : recordDecision services.digest services.redact request decision entryId now
      log' with text' | ⟨entry', made'⟩
    · rw [hfirst, hsecond] at h
      simp [Except.map] at h
    · rw [hfirst, hsecond] at h
      simp only [Except.map, Except.ok.injEq] at h
      refine ⟨?_, rfl⟩
      dsimp only
      rw [h]

theorem sameView_of_state {desk other : Desk World} (h : SameView desk other)
    {made made' : GatewayState World} (cache : made.cache = made'.cache)
    (world : made.world = made'.world) :
    SameView { desk with gateway := made } { other with gateway := made' } :=
  ⟨h.recorded, cache, world, h.packs⟩

theorem respects_invokeGateway (gateway : InvokeTool World) (entryId : Uuid) (now : Instant)
    (request : ToolInvokeRequest) :
    Respects SameView (invokeGateway ports gateway entryId now request) := by
  intro desk other h
  have hdeny : ports.denyAll other.gateway.world = ports.denyAll desk.gateway.world := by
    rw [h.world]
  unfold invokeGateway
  dsimp only
  rw [hdeny]
  obtain ⟨hresult, hcache, hworld⟩ := invoke_log gateway ports.services
    (ports.denyAll desk.gateway.world) entryId now request h.cache h.world
  constructor
  · rw [hresult]
  · exact sameView_of_state h hcache hworld

theorem respects_callTool (identity : AgentIdentity) (toolName : String) (parameters : Fields)
    (incidentId : Uuid) :
    Respects SameView (callTool ports identity toolName parameters incidentId) := by
  unfold callTool
  refine respects_bind (respects_fromExcept _) fun request => ?_
  refine respects_bind (respects_onWorld _) fun entryId => ?_
  refine respects_bind (respects_onWorld _) fun now => ?_
  exact respects_invokeGateway _ _ _ _

theorem respects_keepItems (specialist : Specialist) (incidentId : Uuid)
    (items : List CollectedItem) (emptyReason line : String) :
    Respects SameView (keepItems ports specialist incidentId items emptyReason line) := by
  unfold keepItems
  split
  · exact respects_pure _
  · refine respects_bind (respects_attempt ?_ fun _ => respects_pure _) fun _ => respects_pure _
    refine respects_bind (respects_onWorld _) fun rows => respects_update fun s t h => ?_
    exact ⟨congrArg (· ++ rows) h.recorded, h.cache, h.world, h.packs⟩

variable {channels : Channels}

theorem respects_collectObservability :
    Respects SameView (collectObservability ports channels) := by
  refine respects_bind (respects_capture (respects_callTool _ _ _ _)) fun called => ?_
  split
  · exact respects_pure _
  · split
    · exact respects_bind (respects_fromExcept _) fun _ => respects_bind (respects_fromExcept _)
        fun _ => respects_bind (respects_onWorld _) fun _ => respects_keepItems _ _ _ _ _
    · exact respects_pure _

theorem respects_collectKnowledge : Respects SameView (collectKnowledge ports channels) := by
  refine respects_bind (respects_capture (respects_callTool _ _ _ _)) fun called => ?_
  split
  · exact respects_pure _
  · split
    · exact respects_bind (respects_fromExcept _) fun _ => respects_bind (respects_fromExcept _)
        fun _ => respects_bind (respects_onWorld _) fun _ => respects_keepItems _ _ _ _ _
    · exact respects_pure _

theorem respects_collectCode : Respects SameView (collectCode ports channels) := by
  refine respects_bind (respects_capture ?_) fun called => ?_
  · exact respects_bind (respects_callTool _ _ _ _) fun _ =>
      respects_bind (respects_callTool _ _ _ _) fun _ => respects_pure _
  split
  · exact respects_pure _
  · split
    · exact respects_bind (respects_fromExcept _) fun _ => respects_bind (respects_fromExcept _)
        fun _ => respects_bind (respects_fromExcept _) fun _ => respects_bind (respects_onWorld _)
        fun _ => respects_keepItems _ _ _ _ _
    · exact respects_pure _

end SameView

end Aegis
