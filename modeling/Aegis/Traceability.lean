import Aegis.AuditCustody
import Aegis.AuditCompleteness
import Aegis.Ensuring
import Aegis.PlainText

namespace Aegis

open Raising Proc StepPath

/-- The entry of an allowed call on an incident. -/
def AllowedCall (incidentId : Uuid) (entry : AuditEntry) : Prop :=
  entry.decision = .allow ∧ entry.incidentId.text = incidentId.str

/-- The metadata of a row name the entry of an allowed call on its incident. -/
def Traced (log : AuditLog) (row : Evidence) : Prop :=
  ∃ entry ∈ log, Fields.get row.metadata "audit_id" = .str entry.id.str ∧
    AllowedCall row.incidentId entry

theorem traced_mono {log log' : AuditLog} {row : Evidence} (h : Traced log row)
    (sub : ∀ entry ∈ log, entry ∈ log') : Traced log' row := by
  obtain ⟨entry, hentry, hrow⟩ := h
  exact ⟨entry, sub entry hentry, hrow⟩

section Metadata

variable {redact : String → RedactionResult}

theorem evidence_parts_metadata {id incidentId : Uuid} {contentRef summary : String}
    {metadata : Fields} {row : Evidence}
    (h : EvidenceParts id incidentId contentRef summary metadata row) :
    Fields.get row.metadata "audit_id" = Fields.get metadata "audit_id" := by
  rw [h.metadata]
  unfold Fields.get sanitizeMetadata
  rw [Dict.lookup_pop, Dict.lookup_pop, if_neg (by decide), if_neg (by decide)]

/-- Redaction treats the audit id as a text like any other. -/
theorem prepareEvidence_metadata {row prepared : Evidence}
    (h : prepareEvidence redact row = .ok prepared) :
    Fields.get prepared.metadata "audit_id" =
      (redactMapping redact (Fields.get row.metadata "audit_id")).1 := by
  rw [evidence_parts_metadata (evidence_new_parts h)]
  unfold Fields.get
  rw [Dict.lookup_set, if_neg (by decide), lookup_redactFields]
  cases row.metadata.lookup "audit_id" with
  | none => rfl
  | some value => rfl

end Metadata

section Collecting

variable {World : Type} {host : Host World} {incidentId auditId : Uuid}

/-- The row names the audit entry. -/
def Tagged (auditId : Uuid) (row : Evidence) : Prop :=
  Fields.get row.metadata "audit_id" = .str auditId.str

variable (plain : ∀ id : Uuid, (host.services.redact id.str).text = id.str)

include plain

theorem prepareEvidence_tagged {row prepared : Evidence} (tagged : Tagged auditId row)
    (h : prepareEvidence host.services.redact row = .ok prepared) : Tagged auditId prepared := by
  rw [Tagged, prepareEvidence_metadata h, tagged, redactMapping, plain]

theorem mintEvidence_tagged {source : EvidenceSource} {kind : EvidenceKind}
    {contentRef summary : String} {metadata : Fields} {timestamp : String}
    (tagged : Fields.get metadata "audit_id" = .str auditId.str) :
    Returns (mintEvidence host incidentId source kind contentRef summary metadata timestamp)
      fun row => Tagged auditId row := by
  intro s row t h
  obtain ⟨id, built, hbuilt, hprepared⟩ := mintEvidence_ok h
  exact prepareEvidence_tagged plain ((evidence_parts_metadata hbuilt).trans tagged) hprepared

/-- The rows of a batch carry the audit id of its items. -/
theorem recordCollected_tagged {items : List CollectedItem}
    (tagged : ∀ item ∈ items, item.auditId = some auditId.str) :
    Returns (recordCollected host incidentId items)
      fun rows => ∀ row ∈ rows, Tagged auditId row := by
  refine returns_mapEach_mem fun item hitem => ?_
  unfold evidenceFromCollectedItem
  dsimp only
  rw [tagged item hitem]
  split
  · exact mintEvidence_tagged plain rfl
  · exact mintEvidence_tagged plain rfl
  · exact mintEvidence_tagged plain rfl

end Collecting

section Calls

variable {World : Type}

theorem toolInvokeRequest_incident {agentId toolName incidentId : String} {parameters : Fields}
    {actionClass : Option String} {request : ToolInvokeRequest}
    (h : ToolInvokeRequest.new agentId toolName parameters incidentId actionClass = .ok request) :
    request.incidentId = strip incidentId := by
  unfold ToolInvokeRequest.new at h
  split at h
  · cases h
  split at h
  · cases h
  split at h
  · cases h
  cases h
  rfl

theorem decide_allowed {services : Services} {gateway : InvokeTool World} {denyAll : Bool}
    {cache : PolicyCache} {request : ToolInvokeRequest} {actionClass : Option ActionClass}
    {world : World}
    (allowed : (gateway.decide services denyAll cache request actionClass world).decision.allowed =
      true) :
    (gateway.decide services denyAll cache request actionClass world).decision.verdict =
      .allow := by
  rcases InvokeTool.decide_denied_or_runs services gateway denyAll cache request actionClass world
    with ⟨_, _, _, _, _, heq⟩ | hruns
  · rw [heq] at allowed
    cases allowed
  · obtain ⟨runner, _, heq⟩ := InvokeTool.decide_of_runs services hruns
    rw [heq] at allowed ⊢
    unfold InvokeTool.run at allowed ⊢
    dsimp only at allowed ⊢
    split at allowed
    · cases allowed
    · cases allowed
    · rfl

theorem invoke_allowed_entry {services : Services} {gateway : InvokeTool World} {denyAll : Bool}
    {entryId : Uuid} {now : Instant} {request : ToolInvokeRequest} {state : GatewayState World}
    {decision : GatewayDecision}
    (h : (gateway.invoke services denyAll entryId now request state).result = .ok decision)
    (allowed : decision.allowed = true) :
    ∃ entry, (gateway.invoke services denyAll entryId now request state).state.log =
        state.log ++ [entry] ∧ decision.auditId = some entry.id.str ∧
      entry.decision = .allow ∧ entry.incidentId.text = request.incidentId := by
  obtain ⟨_, _, hnamed⟩ := decide_names services gateway denyAll state.cache request
    (classify request.toolName) state.world
  have hverdict := @decide_allowed _ services gateway denyAll state.cache request
    (classify request.toolName) state.world
  unfold InvokeTool.invoke at h ⊢
  dsimp only at h ⊢
  generalize gateway.decide services denyAll state.cache request (classify request.toolName)
    state.world = decided at *
  split at h
  · cases h
  next entry log hrecord =>
    obtain ⟨hlog, _, _, _, _, hdecision, _, hincident, _⟩ := recordDecision_ok hrecord
    simp only [Except.ok.injEq] at h
    subst h
    refine ⟨entry, hlog, rfl, hdecision.trans (hverdict allowed), ?_⟩
    rw [hincident]
    change strip (orElse decided.decision.incidentId request.incidentId) = _
    rw [hnamed, orElse_of_ne request.incidentId_ne, request.incidentId_stripped]

end Calls

section Desks

variable {World : Type} {ports : SpecialistPorts World} {incidentId : Uuid} {channels : Channels}

/-- Every row in the bucket is traced in the log that waits with it. -/
def Traceable (desk : Desk World) : Prop :=
  ∀ row ∈ desk.recorded, Traced desk.gateway.log row

/-- The decision of an allowed call names its entry. -/
def Backed (incidentId : Uuid) (decision : GatewayDecision) (desk : Desk World) : Prop :=
  ∃ entry ∈ desk.gateway.log, decision.auditId = some entry.id.str ∧ AllowedCall incidentId entry

/-- The bucket and the log are as before. -/
def SameTrail (desk later : Desk World) : Prop :=
  later.recorded = desk.recorded ∧ later.gateway.log = desk.gateway.log

theorem traceable_of_sameTrail {desk later : Desk World} (h : SameTrail desk later)
    (traceable : Traceable desk) : Traceable later := by
  unfold Traceable
  rw [h.1, h.2]
  exact traceable

theorem backed_of_sameTrail {decision : GatewayDecision} {desk later : Desk World}
    (h : SameTrail desk later) (backed : Backed incidentId decision desk) :
    Backed incidentId decision later := by
  unfold Backed
  rw [h.2]
  exact backed

theorem sameTrail_onWorld {Value : Type} (p : Proc World Raised Value) :
    Leaves SameTrail (onWorld p) :=
  leaves_within fun _ _ => ⟨rfl, rfl⟩

theorem invokeGateway_backed (gateway : InvokeTool World) (entryId : Uuid) (now : Instant)
    {request : ToolInvokeRequest} (named : request.incidentId = incidentId.str) :
    Ensures Traceable (invokeGateway ports gateway entryId now request)
      (fun decision desk => Traceable desk ∧
        (decision.allowed = true → Backed incidentId decision desk)) Traceable := by
  intro desk traceable
  have hlog : desk.gateway.log <+: (invokeGateway ports gateway entryId now request desk).2.gateway.log :=
    (@extends_invokeGateway _ ports incidentId gateway entryId now request desk).log
  have hallowed := @invoke_allowed_entry _ ports.services gateway (ports.denyAll desk.gateway.world)
    entryId now request desk.gateway
  unfold invokeGateway at hlog ⊢
  dsimp only at hlog ⊢
  generalize gateway.invoke ports.services (ports.denyAll desk.gateway.world) entryId now request
    desk.gateway = invoked at hlog hallowed ⊢
  have later : Traceable { desk with gateway := invoked.state } := fun row hrow =>
    traced_mono (traceable row hrow) fun entry hentry => hlog.subset hentry
  refine ⟨fun decision t h => ?_, fun raised t h => ?_⟩
  · obtain ⟨hresult, rfl⟩ := Prod.mk.inj h
    refine ⟨later, fun allowed => ?_⟩
    obtain ⟨entry, hstate, hid, hverdict, hincident⟩ :=
      hallowed (mapError_eq_ok hresult) allowed
    refine ⟨entry, ?_, hid, hverdict, hincident.trans named⟩
    dsimp only
    rw [hstate]
    exact List.mem_append_right _ (List.mem_singleton_self entry)
  · obtain ⟨_, rfl⟩ := Prod.mk.inj h
    exact later

theorem onWorld_traceable {Value : Type} (p : Proc World Raised Value) :
    Ensures Traceable (onWorld p) (fun _ => Traceable) Traceable :=
  ensures_of_leaves (sameTrail_onWorld p) fun _ _ => traceable_of_sameTrail

theorem callTool_backed (identity : AgentIdentity) (toolName : String) (parameters : Fields) :
    Ensures Traceable (callTool ports identity toolName parameters incidentId)
      (fun decision desk => Traceable desk ∧
        (decision.allowed = true → Backed incidentId decision desk)) Traceable := by
  refine @ensures_bind _ _ _ _ _ _ _ _
    (fun request desk => request.incidentId = incidentId.str ∧ Traceable desk) _
    (ensures_fromExcept (fun request hnew desk traceable => ⟨?_, traceable⟩) fun _ h => h)
    fun request desk ⟨named, traceable⟩ => ?_
  · exact (toolInvokeRequest_incident (mapError_eq_ok hnew)).trans (strip_uuid incidentId)
  · exact ensures_bind (onWorld_traceable _) (fun entryId =>
      ensures_bind (onWorld_traceable _) fun now =>
        invokeGateway_backed _ _ _ named) desk traceable

/-- What the items of a backed decision are recorded with. -/
def KeepsTrail (incidentId : Uuid) (decision : GatewayDecision) (desk : Desk World) : Prop :=
  Traceable desk ∧ Backed incidentId decision desk

theorem keepsTrail_onWorld {Value : Type} {decision : GatewayDecision}
    (p : Proc World Raised Value) :
    Ensures (KeepsTrail incidentId decision) (onWorld p)
      (fun _ => KeepsTrail incidentId decision) Traceable := by
  intro desk ⟨traceable, backed⟩
  refine ⟨fun a t h => ⟨?_, ?_⟩, fun e t h => ?_⟩
  · exact traceable_of_sameTrail (leaves_eq (sameTrail_onWorld p) h) traceable
  · exact backed_of_sameTrail (leaves_eq (sameTrail_onWorld p) h) backed
  · exact traceable_of_sameTrail (leaves_eq (sameTrail_onWorld p) h) traceable

theorem keepsTrail_fromExcept {Value : Type} {decision : GatewayDecision}
    (x : Except Raised Value) :
    Ensures (KeepsTrail incidentId decision) (fromExcept x : Proc (Desk World) Raised Value)
      (fun _ => KeepsTrail incidentId decision) Traceable :=
  ensures_fromExcept (fun _ _ _ h => h) fun _ h => h.1

/-- The end of a collector, when what it keeps comes from a backed decision. -/
theorem ifAllowed_traceable {pre : Desk World → Prop} {allowed : Bool}
    {decision : GatewayDecision} {keep : Proc (Desk World) Raised SpecialistUpdate}
    {denied : SpecialistUpdate}
    (called : ∀ desk, pre desk → Traceable desk ∧
      (allowed = true → Backed incidentId decision desk))
    (kept : Ensures (KeepsTrail incidentId decision) keep (fun _ => Traceable) Traceable) :
    Ensures pre (if allowed then keep else pure denied) (fun _ => Traceable) Traceable := by
  intro desk h
  obtain ⟨traceable, backed⟩ := called desk h
  by_cases hallowed : allowed = true
  · rw [if_pos hallowed]
    exact kept desk ⟨traceable, backed hallowed⟩
  · rw [if_neg hallowed]
    exact ensures_pure (fun _ h => h) desk traceable

variable (plain : ∀ id : Uuid, (ports.services.redact id.str).text = id.str)

include plain

theorem recordItems_traceable (contents : List Collected) (decision : GatewayDecision) :
    Ensures (KeepsTrail incidentId decision)
      (recordItems ports incidentId (tagUntrusted contents decision)) (fun _ => Traceable)
      Traceable := by
  intro desk ⟨traceable, entry, hentry, hid, hallowed⟩
  have tagged : ∀ item ∈ tagUntrusted contents decision, item.auditId = some entry.id.str := by
    intro item hitem
    obtain ⟨content, _, rfl⟩ := List.mem_map.mp hitem
    exact hid
  have recording : Ensures (fun desk => Traceable desk ∧ entry ∈ desk.gateway.log)
      (onWorld (recordCollected ports.toHost incidentId (tagUntrusted contents decision)) >>=
        fun rows => update fun desk => { desk with recorded := desk.recorded ++ rows })
      (fun _ => Traceable) Traceable := by
    refine fun desk h => ⟨fun _ later hok => ?_, fun e later herror => ?_⟩
    · obtain ⟨rows, middle, hrows, hupdate⟩ := bind_eq_ok.mp hok
      obtain ⟨world, hrecorded, rfl⟩ := within_eq_ok.mp hrows
      cases hupdate
      intro row hrow
      rcases List.mem_append.mp hrow with hold | hnew
      · exact h.1 row hold
      · refine ⟨entry, h.2, recordCollected_tagged plain tagged _ _ _ hrecorded row hnew, ?_⟩
        rw [recordCollected_incident _ _ _ _ hrecorded row hnew]
        exact hallowed
    · rcases bind_eq_error.mp herror with hrows | ⟨rows, middle, _, hupdate⟩
      · exact traceable_of_sameTrail (leaves_eq (sameTrail_onWorld _) hrows) h.1
      · cases hupdate
  exact ensures_attempt recording (fun _ => ensures_pure fun _ h => h) desk ⟨traceable, hentry⟩

theorem keepItems_traceable (specialist : Specialist) (contents : List Collected)
    (decision : GatewayDecision) (emptyReason line : String) :
    Ensures (KeepsTrail incidentId decision)
      (keepItems ports specialist incidentId (tagUntrusted contents decision) emptyReason line)
      (fun _ => Traceable) Traceable := by
  unfold keepItems
  split
  · exact ensures_pure fun _ h => h.1
  · exact ensures_bind (recordItems_traceable plain contents decision) fun _ =>
      ensures_pure fun _ h => h

theorem collectObservability_traceable :
    Ensures Traceable (collectObservability ports channels) (fun _ => Traceable) Traceable := by
  refine ensures_bind (ensures_capture (callTool_backed _ _ _)) fun called => ?_
  split
  · exact ensures_pure fun _ h => h.2 _ rfl
  next decision =>
    refine ifAllowed_traceable (fun desk h => h.1 decision rfl) ?_
    exact ensures_bind (keepsTrail_fromExcept _) fun _ =>
      ensures_bind (keepsTrail_fromExcept _) fun _ => ensures_bind (keepsTrail_onWorld _)
      fun contents => keepItems_traceable plain _ contents decision _ _

theorem collectKnowledge_traceable :
    Ensures Traceable (collectKnowledge ports channels) (fun _ => Traceable) Traceable := by
  refine ensures_bind (ensures_capture (callTool_backed _ _ _)) fun called => ?_
  split
  · exact ensures_pure fun _ h => h.2 _ rfl
  next decision =>
    refine ifAllowed_traceable (fun desk h => h.1 decision rfl) ?_
    exact ensures_bind (keepsTrail_fromExcept _) fun _ =>
      ensures_bind (keepsTrail_fromExcept _) fun _ => ensures_bind (keepsTrail_onWorld _)
      fun contents => keepItems_traceable plain _ contents decision _ _

theorem collectCode_traceable :
    Ensures Traceable (collectCode ports channels) (fun _ => Traceable) Traceable := by
  have calls : Ensures Traceable (do
      let deploys ← callTool ports .code "list_deploys" [("service", .str channels.service)]
        channels.incidentId
      let hits ← callTool ports .code "search_code"
        [("service", .str channels.service), ("scenario", .str channels.scenario)]
        channels.incidentId
      pure (deploys, hits))
      (fun made desk => Traceable desk ∧
        (made.2.allowed = true → Backed channels.incidentId made.2 desk)) Traceable := by
    refine ensures_bind (callTool_backed _ _ _) fun deploys desk h => ?_
    exact ensures_bind (callTool_backed _ _ _) (fun hits => ensures_pure fun _ h => h) desk h.1
  refine ensures_bind (ensures_capture calls) fun called => ?_
  split
  · exact ensures_pure fun _ h => h.2 _ rfl
  next deploys hits =>
    refine @ifAllowed_traceable _ channels.incidentId _ _ hits _ _ (fun desk h => ?_) ?_
    · obtain ⟨traceable, backed⟩ := h.1 (deploys, hits) rfl
      exact ⟨traceable, fun hboth => backed (Bool.and_eq_true_iff.mp hboth).2⟩
    · exact ensures_bind (keepsTrail_fromExcept _) fun _ =>
        ensures_bind (keepsTrail_fromExcept _) fun _ => ensures_bind (keepsTrail_fromExcept _)
        fun _ => ensures_bind (keepsTrail_onWorld _)
        fun contents => keepItems_traceable plain _ contents hits _ _

end Desks

/-- What each node of the graph keeps. -/
structure NodesKeep {World : Type} (ports : SpecialistPorts World)
    (related : Desk World → Desk World → Prop) : Prop where
  refl : ∀ desk, related desk desk
  trans : ∀ a b c, related a b → related b c → related a c
  world : ∀ {Value : Type} (p : Proc World Raised Value), Leaves related (onWorld p)
  pack : ∀ desk packs, related desk { desk with packs }
  observability : ∀ c, Leaves related (collectObservability ports c)
  knowledge : ∀ c, Leaves related (collectKnowledge ports c)
  code : ∀ c, Leaves related (collectCode ports c)

section Graph

variable {World : Type} {ports : SpecialistPorts World} {related : Desk World → Desk World → Prop}
  (keep : NodesKeep ports related) (c : Channels)

include keep

theorem runNode_leaves (action : NextAction) : Leaves related (runNode ports c action) := by
  have pure_ : ∀ {Value : Type} (a : Value),
      Leaves related (pure a : Proc (Desk World) Raised Value) := fun a => leaves_pure keep.refl a
  cases action with
  | observability => exact leaves_bind keep.trans (keep.observability c) fun _ => pure_ _
  | knowledge => exact leaves_bind keep.trans (keep.knowledge c) fun _ => pure_ _
  | code => exact leaves_bind keep.trans (keep.code c) fun _ => pure_ _
  | fanout =>
    refine leaves_bind keep.trans (keep.world _) fun swaps =>
      leaves_bind keep.trans ?_ fun _ => pure_ _
    cases swaps with
    | true =>
      exact leaves_bind keep.trans (keep.knowledge c) fun _ =>
        leaves_bind keep.trans (keep.observability c) fun _ => pure_ _
    | false =>
      exact leaves_bind keep.trans (keep.observability c) fun _ =>
        leaves_bind keep.trans (keep.knowledge c) fun _ => pure_ _
  | synthesize =>
    intro desk
    simp only [runNode, synthesize]
    split
    · exact keep.refl desk
    · exact leaves_bind keep.trans (leaves_update fun desk => keep.pack desk _)
        (fun _ => leaves_bind keep.trans (keep.world _) fun _ => pure_ _) desk
  | escalate => exact pure_ _

theorem runHops_leaves (visits : Nat) (c : Channels) (desk : Desk World) :
    related desk (runHops ports visits c desk).2 := by
  induction visits generalizing c desk with
  | zero => exact keep.refl desk
  | succ visits ih =>
    have hcommander : related desk (commander ports c desk).2 :=
      leaves_bind keep.trans (keep.world _) (fun _ => leaves_pure keep.refl _) desk
    unfold runHops hop
    rcases hrouted : commander ports c desk with ⟨raised | ⟨routed, lines⟩, later⟩
    · rw [hrouted] at hcommander
      exact hcommander
    rw [hrouted] at hcommander
    have hnode : related later (runNode ports routed (routeAfterCommander routed) later).2 :=
      runNode_leaves keep routed _ later
    have hboth := keep.trans _ _ _ hcommander hnode
    dsimp only
    rcases hran : runNode ports routed (routeAfterCommander routed) later with
      ⟨raised | ⟨next, nodeLines⟩, last⟩
    · rw [hran] at hboth
      exact hboth
    rw [hran] at hboth
    dsimp only
    cases routeAfterCommander routed with
    | escalate => exact hboth
    | synthesize => exact hboth
    | observability => exact keep.trans _ _ _ hboth (ih next last)
    | knowledge => exact keep.trans _ _ _ hboth (ih next last)
    | code => exact keep.trans _ _ _ hboth (ih next last)
    | fanout => exact keep.trans _ _ _ hboth (ih next last)

/-- A run of the graph keeps what each of its nodes keeps. -/
theorem runGraph_leaves (desk : Desk World) : related desk (runGraph ports c desk).2 := by
  have hintake : related desk (intake ports c desk).2 :=
    leaves_bind keep.trans (keep.world _) (fun _ => leaves_pure keep.refl _) desk
  unfold runGraph
  rcases hstarted : intake ports c desk with ⟨raised | ⟨started, lines⟩, later⟩
  · rw [hstarted] at hintake
    exact hintake
  · rw [hstarted] at hintake
    exact keep.trans _ _ _ hintake (runHops_leaves keep commanderVisits started later)

end Graph

section Handlings

variable {World : Type} {ports : WorkerPorts World} {event : DomainEvent}
  {worker : Worker World} {s t : Session World} {moved : Incident}

theorem nodes_traceable {ports : SpecialistPorts World}
    (plain : ∀ id : Uuid, (ports.services.redact id.str).text = id.str) :
    NodesKeep ports (fun a b => Traceable a → Traceable b) where
  refl _ h := h
  trans _ _ _ first second h := second (first h)
  world p := leaves_of_ensures (onWorld_traceable p)
  pack _ _ h := h
  observability _ := leaves_of_ensures (collectObservability_traceable plain)
  knowledge _ := leaves_of_ensures (collectKnowledge_traceable plain)
  code _ := leaves_of_ensures (collectCode_traceable plain)

/-- Every waiting row is traced in the waiting log. -/
def TraceableRunner (runner : Runner) : Prop :=
  ∀ row ∈ runner.recorded, Traced runner.log row

/-- The waiting rows are traced in the waiting log, and the committed ones that were not there
before in the committed log. -/
structure TraceableWorker (before : List Evidence) (worker : Worker World) : Prop where
  waiting : TraceableRunner worker.process.runner
  stored : ∀ row ∈ worker.db.evidence, row ∈ before ∨ Traced worker.db.auditLog row

variable (plain : ∀ id : Uuid, (ports.services.redact id.str).text = id.str)

include plain

theorem run_traceable (h : TraceableRunner s.process.runner) :
    TraceableRunner (s.ran ports event moved).runner := by
  have traceable : Traceable (s.run ports event moved).2 := by
    unfold Session.run Process.investigate
    exact runGraph_leaves (nodes_traceable plain) _ s.process.desk h
  unfold TraceableRunner
  rw [← ran_eq, afterRun_recorded, afterRun_log]
  exact traceable

omit plain in
theorem sameBucket_captureProgress {ports : SpecialistPorts World} (incidentId : Uuid)
    (result : Channels) (log : List String) :
    Leaves (fun a b : Process World => b.runner.recorded = a.runner.recorded)
      (captureProgress ports incidentId result log) :=
  leaves_bind (fun _ _ _ first second => Eq.trans second first) (leaves_within fun _ _ => rfl)
    fun _ => leaves_update fun _ => rfl

omit plain in
theorem start_recorded (ports : SpecialistPorts World) (request : StartRequest)
    (process : Process World) :
    (Runner.start ports request process).2.runner.recorded =
      (process.afterRun request (process.investigate ports request)).runner.recorded := by
  unfold Runner.start
  rw [bind_apply]
  unfold invokeInvestigation
  generalize process.investigate ports request = ran
  dsimp only
  cases ran.1.raised with
  | some raised => rfl
  | none =>
    dsimp only
    rw [bind_apply]
    exact sameBucket_captureProgress request.incidentId ran.1.checkpoint
      ((process.runner.thread request.incidentId).2 ++ ran.1.log)
      { process.afterRun request ran with
        runner := (process.afterRun request ran).runner.captureRca ran.1.checkpoint }

/-- However the part before the drain ends, the waiting rows are traced. -/
theorem upToAudit_traceable (h : TraceableRunner s.process.runner) :
    TraceableRunner (upToAudit ports event moved s).2.process.runner := by
  have hran := @run_traceable _ ports event s moved plain h
  have hlog := (start_leaves ports.toSpecialistPorts (startRequest ports event moved) s.process).log
  have hrecorded :=
    start_recorded ports.toSpecialistPorts (startRequest ports event moved) s.process
  rw [run_eq, ran_eq] at hlog hrecorded
  generalize s.ran ports event moved = ran at *
  unfold upToAudit
  rw [bind_apply]
  unfold onProcess within
  rcases hrun : Runner.start ports.toSpecialistPorts (startRequest ports event moved) s.process
    with ⟨_ | _, process⟩
  · rw [hrun] at hlog hrecorded
    unfold TraceableRunner at hran ⊢
    dsimp only at hlog hrecorded ⊢
    rw [hlog, hrecorded]
    exact hran
  · unfold TraceableRunner
    dsimp only
    rw [persistCollectedEvidence_runner]
    intro row hrow
    cases hrow

omit plain in
theorem persistCollectedEvidence_rows (h : persistCollectedEvidence ports s = (.ok (), t)) :
    ∀ row ∈ t.db.evidence, row ∈ s.db.evidence ∨ ∃ item ∈ s.process.runner.recorded,
      prepareEvidence ports.services.redact item = .ok row := by
  obtain ⟨items, u, hdrain, h⟩ := bind_eq_ok.mp h
  cases hdrain
  refine @forEach_ok _ _ _ _ (fun items s t => ∀ row ∈ t.db.evidence, row ∈ s.db.evidence ∨
    ∃ item ∈ items, prepareEvidence ports.services.redact item = .ok row)
    (fun _ _ h => .inl h) (fun item rest s t u hitem hrest row hrow => ?_) _ _ _ h
  obtain ⟨prepared, s', hprepared, hadd⟩ := bind_eq_ok.mp hitem
  obtain ⟨hprepare, rfl⟩ := fromExcept_eq_ok.mp hprepared
  obtain ⟨_, hwrite⟩ := write_ok hadd
  rcases hrest row hrow with hold | ⟨later, hlater, hrow⟩
  · rw [hwrite.db] at hold
    rcases List.mem_append.mp hold with hold | hnew
    · exact .inl hold
    · exact .inr ⟨item, List.mem_cons_self, List.mem_singleton.mp hnew ▸ hprepare⟩
  · exact .inr ⟨later, List.mem_cons_of_mem _ hlater, hrow⟩

omit plain in
theorem upToAudit_rows (h : upToAudit ports event moved s = (.ok (), t)) :
    ∀ row ∈ t.db.evidence, row ∈ s.db.evidence ∨
      ∃ item ∈ (s.ran ports event moved).runner.recorded,
        prepareEvidence ports.services.redact item = .ok row := by
  obtain ⟨_, u, hstart, h⟩ := bind_eq_ok.mp h
  obtain ⟨process, hprocess, rfl⟩ := within_eq_ok.mp hstart
  have hrecorded :=
    start_recorded ports.toSpecialistPorts (startRequest ports event moved) s.process
  rw [run_eq, ran_eq, hprocess] at hrecorded
  rw [← hrecorded]
  exact persistCollectedEvidence_rows h

theorem prepared_traced {log : AuditLog} {row prepared : Evidence} (h : Traced log row)
    (hprepared : prepareEvidence ports.services.redact row = .ok prepared) :
    Traced log prepared := by
  obtain ⟨entry, hentry, tagged, allowed⟩ := h
  refine ⟨entry, hentry, @prepareEvidence_tagged _ ports.toHost _ plain _ _ tagged hprepared, ?_⟩
  rw [(prepareEvidence_ok hprepared).2]
  exact allowed

omit plain in
theorem closing_recorded (s : Session World) :
    (closing ports moved s).2.process.runner.recorded = s.process.runner.recorded := by
  have trans : ∀ a b c : Session World, b.process.runner.recorded = a.process.runner.recorded →
      c.process.runner.recorded = b.process.runner.recorded →
      c.process.runner.recorded = a.process.runner.recorded := fun _ _ _ first second =>
    second.trans first
  unfold closing fromAudit persistRest
  refine leaves_bind trans (leaves_bind trans (fun s => ?_) fun _ =>
    leaves_bind trans (fun s => ?_) fun _ s => ?_) (fun _ s => ?_) s
  · rw [persistRecordedAudit_runner]
  · rw [persistRecordedRca_runner]
  · rw [persistRecordedProgress_runner]
  · exact congrArg Runner.recorded (statement_becomes ports s).runner

theorem started_traceable {before : List Evidence} {result : ConsumeOpenedResult}
    (h : TraceableWorker before worker)
    (hprologue : prologue ports event worker.session = (.ok (result, some moved), s)) :
    TraceableWorker before (deliver ports event worker).worker := by
  have hrunner := prologue_runner hprologue
  obtain ⟨_, row, moment, inbox, _, _, hdb⟩ := prologue_ok hprologue
  have rows : s.db.evidence = worker.db.evidence := by rw [hdb]; rfl
  have logged : s.db.auditLog = worker.db.auditLog := by rw [hdb]; rfl
  have waiting : TraceableRunner s.process.runner := by
    rw [hrunner]
    exact h.waiting
  have hran := @run_traceable _ ports event s moved plain waiting
  rcases hrun : upToAudit ports event moved s with ⟨raised | _, t⟩
  · rw [deliver_run_error hprologue hrun]
    have later := @upToAudit_traceable _ ports event s moved plain waiting
    rw [hrun] at later
    exact ⟨later, h.stored⟩
  obtain ⟨_, _, progress, _, _, hrows, hcaptured⟩ := upToAudit_ok hrun
  have hleaves := @upToAudit_leaves _ ports event moved s
  rw [hrun] at hleaves
  have empty : t.process.runner.recorded = [] := by rw [hcaptured]
  have hclosed := @closing_recorded _ ports moved t
  rcases hclosing : closing ports moved t with ⟨raised | _, u⟩
  · rw [hclosing] at hclosed
    rw [deliver_closing_error hprologue hrun hclosing]
    refine ⟨fun row hrow => ?_, h.stored⟩
    change row ∈ u.process.runner.recorded at hrow
    rw [hclosed, empty] at hrow
    cases hrow
  · rw [hclosing] at hclosed
    rw [deliver_closing_ok hprologue hrun hclosing]
    obtain ⟨v, hfrom, hcommit⟩ := closing_ok hclosing
    obtain ⟨_, _, _, hstored, _⟩ := fromAudit_ok (by rw [hcaptured]) hfrom
    have evidence : u.db.evidence = t.db.evidence := by
      rw [hcommit.db, hstored]
      rfl
    have log : u.db.auditLog = worker.db.auditLog ++ t.process.runner.log := by
      rw [hcommit.db, hstored, ← logged, hrows]
    refine ⟨fun row hrow => ?_, fun row hrow => ?_⟩
    · change row ∈ u.process.runner.recorded at hrow
      rw [hclosed, empty] at hrow
      cases hrow
    · change row ∈ u.db.evidence at hrow
      change row ∈ before ∨ Traced u.db.auditLog row
      rw [log]
      rw [evidence] at hrow
      rcases upToAudit_rows hrun row hrow with hold | ⟨item, hitem, hprepared⟩
      · rw [rows] at hold
        exact (h.stored row hold).imp_right fun traced =>
          traced_mono traced fun _ => List.mem_append_left _
      · refine .inr (traced_mono (prepared_traced plain (hran item hitem) hprepared) ?_)
        intro entry hentry
        rw [hleaves.log]
        exact List.mem_append_right _ hentry

theorem deliver_traceable {before : List Evidence} (h : TraceableWorker before worker) :
    TraceableWorker before (deliver ports event worker).worker := by
  by_cases started : ∃ result moved s,
      prologue ports event worker.session = (.ok (result, some moved), s)
  · obtain ⟨result, moved, s, hprologue⟩ := started
    exact started_traceable plain h hprologue
  · obtain ⟨⟨inbox, hdb⟩, hrunner⟩ := deliver_not_started
      fun result moved s hprologue => started ⟨result, moved, s, hprologue⟩
    constructor
    · rw [hrunner]
      exact h.waiting
    · rw [hdb]
      exact h.stored

end Handlings

section Runs

variable {World : Type} {ports : WorkerPorts World} {table : UnicodeTable}

/-- Evidence and audit entries wait in two buffers that are drained one after the other, but in
one transaction, the evidence first. So every row of evidence that is committed names the entry of
an allowed call on its incident that is committed too, wherever the handlings before it failed. -/
theorem committed_evidence_traced (redacts : ports.services.redact = redact table)
    {start : Handling World} {path : List ((DomainEvent × World) × Handling World)}
    (fresh : start.worker.process.runner.recorded = [])
    (run : Path (HandlingStep ports) start path) :
    ∀ handling ∈ visited start path, ∀ row ∈ handling.worker.db.evidence,
      row ∈ start.worker.db.evidence ∨ Traced handling.worker.db.auditLog row := by
  have plain : ∀ id : Uuid, (ports.services.redact id.str).text = id.str := by
    intro id
    rw [redacts, redact_uuid]
  have traceable : ∀ handling ∈ visited start path,
      TraceableWorker start.worker.db.evidence handling.worker := by
    refine invariant (fun last message next h hstep => ?_) run ⟨?_, fun _ => .inl⟩
    · rw [HandlingStep] at hstep
      subst hstep
      exact deliver_traceable plain ⟨h.waiting, h.stored⟩
    · intro row hrow
      rw [fresh] at hrow
      cases hrow
  exact fun handling hhandling => (traceable handling hhandling).stored

end Runs

/-- The scripted worker with the redaction of the source. -/
def redacting : WorkerPorts Script :=
  { scripted with services := ⟨idDigest, redact asciiTable⟩ }

def tracedHandling : Handling Script := handle redacting latencyWorker latencyMessage

/-- The signal of one investigation is stored with the entry of its call. -/
theorem signal_traced : tracedHandling.worker.db.evidence.length = 1 ∧
    ∀ handling ∈ visited latencyWorker [(latencyMessage, tracedHandling)],
      ∀ row ∈ handling.worker.db.evidence,
        row ∈ latencyWorker.worker.db.evidence ∨ Traced handling.worker.db.auditLog row := by
  refine ⟨by decide +kernel, committed_evidence_traced rfl rfl (Path.next rfl Path.stop)⟩

end Aegis
