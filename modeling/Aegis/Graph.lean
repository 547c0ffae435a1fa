import Aegis.Collect

namespace Aegis

open Raising Proc

/-- How `graph.invoke` ended: the channels of the last superstep that completed, the lines it
appended to the log, the exception that stopped it if one did, and what the nodes of each next
superstep read. -/
structure GraphRun where
  checkpoint : Channels
  log : List String
  raised : Option Raised
  reads : List (Channels × List Evidence)

/-- A run that starts with supersteps that have completed. -/
def GraphRun.after (run : GraphRun) (reads : List (Channels × List Evidence))
    (lines : List String) : GraphRun :=
  { run with log := lines ++ run.log, reads := reads ++ run.reads }

def stopped (c : Channels) (raised : Raised) : GraphRun := ⟨c, [], some raised, []⟩

def ended (c : Channels) : GraphRun := ⟨c, [], none, []⟩

/-- The reducers of the channels that append. -/
def Channels.append (c : Channels) (update : SpecialistUpdate) : Channels :=
  { c with
    evidence := c.evidence ++ update.evidence.map EvidenceItem.collected
    failedSteps := c.failedSteps ++ update.failedSteps.map Specialist.value }

/-- The channels after the intake. -/
def Channels.started (c : Channels) (now : String) : Channels :=
  let service := orElse c.service "payment"
  let scenario := orElse c.scenario "latency_spike"
  { c with
    service, scenario
    nextAgent := none
    status := "running"
    startedAt := orElse c.startedAt now
    summary := service ++ "/" ++ scenario }

section Nodes

variable {World : Type} (ports : SpecialistPorts World)

/-- `intake`; the clock is read whether or not the channel already holds a start. -/
def intake (c : Channels) : Proc (Desk World) Raised (Channels × List String) := do
  let now ← onWorld (isoNow ports)
  let started := c.started now
  pure (started, ["intake " ++ c.incidentId.str ++ " " ++ started.summary ++
    if c.correlationId = "" then "" else " corr=" ++ c.correlationId])

/-- `commander` -/
def commander (c : Channels) : Proc (Desk World) Raised (Channels × List String) := do
  let now ← onWorld (utcNow ports.toHost)
  let hops := c.hops + 1
  let decision := nextAction ports.toHost c.scenario hops c.evidence c.startedAt now c.failedSteps
  let reason := decision.escalateReason.elim "" EscalateReason.value
  pure ({ c with hops, nextAgent := some decision.nextAgent, escalateReason := reason },
    ["commander hop=" ++ toString hops ++ " → " ++ decision.nextAgent.value ++
      if reason = "" then "" else " (" ++ reason ++ ")"])

def collectOne (c : Channels) (collector : Channels → Proc (Desk World) Raised SpecialistUpdate) :
    Proc (Desk World) Raised (Channels × List String) := do
  let update ← collector c
  pure (c.append update, update.log)

/-- Both collectors of a fan-out, one thread ahead of the other. -/
def collectBoth (c : Channels) : Bool → Proc (Desk World) Raised (SpecialistUpdate × SpecialistUpdate)
  | true => do
    let chunks ← collectKnowledge ports c
    let signals ← collectObservability ports c
    pure (signals, chunks)
  | false => do
    let signals ← collectObservability ports c
    let chunks ← collectKnowledge ports c
    pure (signals, chunks)

/-- `Send` to observability and knowledge in one superstep; the updates merge in that order. -/
def fanout (c : Channels) : Proc (Desk World) Raised (Channels × List String) := do
  let swaps ← onWorld (draw ports.fanoutSwaps)
  let (signals, chunks) ← collectBoth ports c swaps
  pure ((c.append signals).append chunks, signals.log ++ chunks.log)

/-- The pack of `_synthesize`: the rows of the recorder, or the collected items when it has none. -/
def packOf (c : Channels) (recorded : List Evidence) : List EvidencePackItem :=
  if recorded.isEmpty then packFromGraphEvidence ports.toRcaHost c.incidentId.str c.evidence
  else packFromEvidenceRows ports.services.redact recorded

/-- The channels after `generate_rca`. -/
def Channels.withGeneration (c : Channels) (generation : RcaGeneration) : Channels :=
  let reason := generation.escalateReason.elim "" EscalateReason.value
  { c with
    status := generation.outcome
    escalateReason := orElse reason c.escalateReason
    summary := match generation.payload with
      | .report report => report.summary.text
      | .error _ => c.summary
    rca := some generation.payload }

def synthesizeLine (generation : RcaGeneration) : String :=
  let reason := generation.escalateReason.elim "" EscalateReason.value
  "synthesize " ++ generation.outcome ++ " attempts=" ++ toString generation.attempts ++
    if reason = "" then "" else " (" ++ reason ++ ")"

/-- `_synthesize` with a pack that is not empty. -/
def synthesizePack (c : Channels) (pack : List EvidencePackItem) :
    Proc (Desk World) Raised (Channels × List String) := do
  update fun desk => { desk with packs := desk.packs ++ [pack] }
  let generation ← onWorld (generateRca ports.toRcaHost c.incidentId c.service c.scenario pack)
  pure (c.withGeneration generation, [synthesizeLine generation])

/-- `_synthesize` -/
def synthesize (c : Channels) : Proc (Desk World) Raised (Channels × List String) := fun desk =>
  let pack := packOf ports c desk.recorded
  if pack.isEmpty then
    (.ok ({ c with status := "escalated", escalateReason := "agent_failure" },
      ["synthesize failed: empty evidence pack"]), desk)
  else synthesizePack ports c pack desk

/-- The node that the commander routes to; `escalate` pauses before it changes anything. -/
def runNode (c : Channels) : NextAction → Proc (Desk World) Raised (Channels × List String)
  | .observability => collectOne c (collectObservability ports)
  | .knowledge => collectOne c (collectKnowledge ports)
  | .code => collectOne c (collectCode ports)
  | .fanout => fanout ports c
  | .synthesize => synthesize ports c
  | .escalate => pure (c, [])

/-- `route_after_commander` -/
def routeAfterCommander (c : Channels) : NextAction :=
  c.nextAgent.getD .knowledge

/-- A visit of the commander with the node it routes to: the run ends there, or goes on with the
next visit. -/
inductive Hop (World : Type) where
  | settled (run : GraphRun) (later : Desk World)
  | goesOn (next : Channels) (reads : List (Channels × List Evidence)) (lines : List String)
      (later : Desk World)

def hop (c : Channels) (desk : Desk World) : Hop World :=
  match commander ports c desk with
  | (.error raised, later) => .settled (stopped c raised) later
  | (.ok (routed, lines), desk) =>
    match runNode ports routed (routeAfterCommander routed) desk with
    | (.error raised, later) =>
      .settled ((stopped routed raised).after [(routed, desk.recorded)] lines) later
    | (.ok (next, nodeLines), later) =>
      let reads := [(routed, desk.recorded), (next, later.recorded)]
      match routeAfterCommander routed with
      | .escalate => .settled ((ended routed).after [(routed, desk.recorded)] lines) later
      | .synthesize => .settled ((ended next).after reads (lines ++ nodeLines)) later
      | _ => .goesOn next reads (lines ++ nodeLines) later

/-- The supersteps from a commander on, for as many of its visits as LangGraph allows. -/
def runHops : Nat → Channels → Desk World → GraphRun × Desk World
  | 0, c, desk => (stopped c (.other "Recursion limit of 25 reached"), desk)
  | visits + 1, c, desk =>
    match hop ports c desk with
    | .settled run later => (run, later)
    | .goesOn next reads lines later =>
      let rest := runHops visits next later
      (rest.1.after reads lines, rest.2)

/-- Of 25 supersteps the first is the intake; the commander has every second one. -/
def commanderVisits : Nat := 12

/-- `graph.invoke` on the channels of a thread once the input is merged into them. -/
def runGraph (c : Channels) (desk : Desk World) : GraphRun × Desk World :=
  match intake ports c desk with
  | (.error raised, later) => (stopped c raised, later)
  | (.ok (started, lines), later) =>
    let rest := runHops ports commanderVisits started later
    (rest.1.after [(started, later.recorded)] lines, rest.2)

end Nodes

section Facts

variable {World : Type} {ports : SpecialistPorts World} {c next : Channels}
  {desk later : Desk World} {lines : List String}

theorem intake_apply (c : Channels) (desk : Desk World) :
    intake ports c desk =
      (.ok (c.started (isoformat (ports.now desk.gateway.world).1),
        ["intake " ++ c.incidentId.str ++ " " ++
          (c.started (isoformat (ports.now desk.gateway.world).1)).summary ++
          if c.correlationId = "" then "" else " corr=" ++ c.correlationId]),
        { desk with gateway :=
          { desk.gateway with world := (ports.now desk.gateway.world).2 } }) := rfl

theorem intake_channels : Returns (intake ports c) fun out =>
    out.1.incidentId = c.incidentId ∧ out.1.hops = c.hops ∧ out.1.rca = c.rca := by
  refine returns_bind fun now => ?_
  intro s out t h
  cases h
  exact ⟨rfl, rfl, rfl⟩

theorem extends_intake {incidentId : Uuid} : Leaves (Extends incidentId) (intake ports c) :=
  extends_bind (extends_onWorld _) fun _ => extends_pure _

theorem commander_channels : Returns (commander ports c) fun out =>
    out.1.incidentId = c.incidentId ∧ out.1.hops = c.hops + 1 ∧ out.1.rca = c.rca ∧
      (maxHops < c.hops + 1 → routeAfterCommander out.1 = .escalate) := by
  refine returns_bind fun now => ?_
  intro s out t h
  cases h
  refine ⟨rfl, rfl, rfl, fun hhops => ?_⟩
  simp [routeAfterCommander, nextAction_of_maxHops hhops]

theorem extends_commander {incidentId : Uuid} : Leaves (Extends incidentId) (commander ports c) :=
  extends_bind (extends_onWorld _) fun _ => extends_pure _

theorem collectOne_channels (collector : Channels → Proc (Desk World) Raised SpecialistUpdate) :
    Returns (collectOne c collector) fun out =>
      out.1.incidentId = c.incidentId ∧ out.1.hops = c.hops ∧ out.1.rca = c.rca := by
  refine returns_bind fun update => ?_
  intro s out t h
  cases h
  exact ⟨rfl, rfl, rfl⟩

theorem extends_collectOne {collector : Channels → Proc (Desk World) Raised SpecialistUpdate}
    (h : Leaves (Extends c.incidentId) (collector c)) :
    Leaves (Extends c.incidentId) (collectOne c collector) :=
  extends_bind h fun _ => extends_pure _

theorem fanout_channels : Returns (fanout ports c) fun out =>
    out.1.incidentId = c.incidentId ∧ out.1.hops = c.hops ∧ out.1.rca = c.rca := by
  refine returns_bind fun swaps => returns_bind fun both => ?_
  intro s out t h
  cases h
  exact ⟨rfl, rfl, rfl⟩

theorem extends_collectBoth (swaps : Bool) :
    Leaves (Extends c.incidentId) (collectBoth ports c swaps) := by
  cases swaps with
  | true =>
    exact extends_bind extends_collectKnowledge fun _ =>
      extends_bind extends_collectObservability fun _ => extends_pure _
  | false =>
    exact extends_bind extends_collectObservability fun _ =>
      extends_bind extends_collectKnowledge fun _ => extends_pure _

theorem extends_fanout : Leaves (Extends c.incidentId) (fanout ports c) :=
  extends_bind (extends_onWorld _) fun swaps =>
    extends_bind (extends_collectBoth swaps) fun _ => extends_pure _

theorem extends_synthesizePack {incidentId : Uuid} (pack : List EvidencePackItem) :
    Leaves (Extends incidentId) (synthesizePack ports c pack) := by
  refine extends_bind (leaves_update fun desk => ?_) fun _ =>
    extends_bind (extends_onWorld _) fun _ => extends_pure _
  exact ⟨List.prefix_refl _, fun _ h => .inl h, List.prefix_refl _, rfl, List.prefix_append _ _⟩

theorem extends_synthesize {incidentId : Uuid} :
    Leaves (Extends incidentId) (synthesize ports c) := by
  intro desk
  unfold synthesize
  dsimp only
  split
  · exact extends_refl desk
  · exact extends_synthesizePack _ desk

theorem extends_runNode (action : NextAction) :
    Leaves (Extends c.incidentId) (runNode ports c action) := by
  cases action with
  | observability => exact extends_collectOne extends_collectObservability
  | knowledge => exact extends_collectOne extends_collectKnowledge
  | code => exact extends_collectOne extends_collectCode
  | fanout => exact extends_fanout
  | synthesize => exact extends_synthesize
  | escalate => exact extends_pure _

/-- The report of a run comes from one pack, made from the bucket as the run leaves it, and cites
only ids of that pack. -/
structure ReportFrom (ports : SpecialistPorts World) (incidentId : Uuid) (later : Desk World)
    (report : RcaReport) (c : Channels) : Prop where
  incident : c.incidentId = incidentId
  given : packOf ports c later.recorded ∈ later.packs
  grounded : GroundedReport incidentId
    ((packOf ports c later.recorded).map EvidencePackItem.evidenceId) report

theorem synthesizePack_ok {pack : List EvidencePackItem}
    (h : synthesizePack ports c pack desk = (.ok (next, lines), later)) :
    next.incidentId = c.incidentId ∧ next.hops = c.hops ∧ later.recorded = desk.recorded ∧
      pack ∈ later.packs ∧ ∀ report, next.rca = some (.report report) →
        GroundedReport c.incidentId (pack.map EvidencePackItem.evidenceId) report := by
  obtain ⟨_, given, hgiven, h⟩ := bind_eq_ok.mp h
  obtain ⟨generation, _, hgenerate, h⟩ := bind_eq_ok.mp h
  obtain ⟨world, hinner, rfl⟩ := within_eq_ok.mp hgenerate
  cases hgiven
  cases h
  refine ⟨rfl, rfl, rfl, by simp, fun report hreport => ?_⟩
  exact generateRca_grounded c.service c.scenario pack _ generation _ hinner report
    (Option.some.inj hreport)

theorem synthesize_ok (h : synthesize ports c desk = (.ok (next, lines), later)) :
    next.incidentId = c.incidentId ∧ next.hops = c.hops ∧ (next.rca = c.rca ∨
      ∀ report, next.rca = some (.report report) →
        ReportFrom ports c.incidentId later report c) := by
  unfold synthesize at h
  dsimp only at h
  split at h
  · cases h
    exact ⟨rfl, rfl, .inl rfl⟩
  · obtain ⟨hid, hhops, hrecorded, hgiven, hreport⟩ := synthesizePack_ok h
    refine ⟨hid, hhops, .inr fun report hrca => ⟨rfl, ?_, ?_⟩⟩
    · rw [hrecorded]
      exact hgiven
    · rw [hrecorded]
      exact hreport report hrca

theorem runNode_ok {action : NextAction}
    (h : runNode ports c action desk = (.ok (next, lines), later)) :
    next.incidentId = c.incidentId ∧ next.hops = c.hops ∧ (next.rca = c.rca ∨
      action = .synthesize ∧ ∀ report, next.rca = some (.report report) →
        ReportFrom ports c.incidentId later report c) := by
  have keeps : ∀ {p : Proc (Desk World) Raised (Channels × List String)},
      Returns p (fun out => out.1.incidentId = c.incidentId ∧ out.1.hops = c.hops ∧
        out.1.rca = c.rca) → p desk = (.ok (next, lines), later) →
      next.incidentId = c.incidentId ∧ next.hops = c.hops ∧ (next.rca = c.rca ∨
        action = .synthesize ∧ ∀ report, next.rca = some (.report report) →
          ReportFrom ports c.incidentId later report c) := by
    intro p hp h
    obtain ⟨hid, hhops, hrca⟩ := hp _ _ _ h
    exact ⟨hid, hhops, .inl hrca⟩
  cases action with
  | observability => exact keeps (collectOne_channels _) h
  | knowledge => exact keeps (collectOne_channels _) h
  | code => exact keeps (collectOne_channels _) h
  | fanout => exact keeps fanout_channels h
  | synthesize =>
    obtain ⟨hid, hhops, hrca⟩ := synthesize_ok h
    exact ⟨hid, hhops, hrca.imp id fun hreport => ⟨rfl, hreport⟩⟩
  | escalate =>
    cases h
    exact ⟨rfl, rfl, .inl rfl⟩

/-- Where the report in the last checkpoint comes from: it was there before, or the run made it. -/
def ReportSource (ports : SpecialistPorts World) (c : Channels) (run : GraphRun)
    (later : Desk World) : Prop :=
  ∀ report, run.checkpoint.rca = some (.report report) →
    c.rca = some (.report report) ∨ ∃ c', ReportFrom ports c.incidentId later report c'

theorem hop_settled {run : GraphRun} (h : hop ports c desk = .settled run later) :
    Extends c.incidentId desk later ∧ run.checkpoint.incidentId = c.incidentId ∧
      ReportSource ports c run later := by
  unfold hop at h
  have hcommander : Extends c.incidentId desk (commander ports c desk).2 := extends_commander desk
  rcases hc : commander ports c desk with ⟨raised | ⟨routed, lines⟩, desk'⟩
  · rw [hc] at h hcommander
    cases h
    exact ⟨hcommander, rfl, fun _ hrca => .inl hrca⟩
  rw [hc] at h hcommander
  obtain ⟨hid, _, hrca, _⟩ := commander_channels _ _ _ hc
  dsimp only at h hid hrca hcommander
  have hnode : Extends routed.incidentId desk' (runNode ports routed _ desk').2 :=
    extends_runNode (routeAfterCommander routed) desk'
  rw [hid] at hnode
  rcases hn : runNode ports routed (routeAfterCommander routed) desk' with
    ⟨raised | ⟨next, nodeLines⟩, later'⟩
  · rw [hn] at h hnode
    cases h
    exact ⟨extends_trans _ _ _ hcommander hnode, hid, fun _ hreport => .inl (hrca ▸ hreport)⟩
  rw [hn] at h hnode
  obtain ⟨hnextId, _, hreport⟩ := runNode_ok hn
  dsimp only at h hnode
  split at h
  · cases h
    exact ⟨extends_trans _ _ _ hcommander hnode, hid, fun _ hreport => .inl (hrca ▸ hreport)⟩
  · cases h
    refine ⟨extends_trans _ _ _ hcommander hnode, hnextId.trans hid, fun report hfinal => ?_⟩
    rcases hreport with hsame | ⟨_, hmade⟩
    · exact .inl (hrca ▸ hsame ▸ hfinal)
    · have hfrom := hmade report hfinal
      rw [hid] at hfrom
      exact .inr ⟨routed, hfrom⟩
  · cases h

theorem hop_goesOn {reads : List (Channels × List Evidence)}
    (h : hop ports c desk = .goesOn next reads lines later) :
    Extends c.incidentId desk later ∧ next.incidentId = c.incidentId ∧ next.rca = c.rca ∧
      next.hops = c.hops + 1 ∧ c.hops < maxHops := by
  unfold hop at h
  have hcommander : Extends c.incidentId desk (commander ports c desk).2 := extends_commander desk
  rcases hc : commander ports c desk with ⟨raised | ⟨routed, lines⟩, desk'⟩
  · rw [hc] at h
    cases h
  rw [hc] at h hcommander
  obtain ⟨hid, hhops, hrca, hbound⟩ := commander_channels _ _ _ hc
  dsimp only at h hid hrca hhops hbound hcommander
  have hnode : Extends routed.incidentId desk' (runNode ports routed _ desk').2 :=
    extends_runNode (routeAfterCommander routed) desk'
  rw [hid] at hnode
  rcases hn : runNode ports routed (routeAfterCommander routed) desk' with
    ⟨raised | ⟨next, nodeLines⟩, later'⟩
  · rw [hn] at h
    cases h
  rw [hn] at h hnode
  obtain ⟨hnextId, hnextHops, hreport⟩ := runNode_ok hn
  dsimp only at h hnode
  split at h
  · cases h
  · cases h
  next hescalate hsynthesize =>
    cases h
    refine ⟨extends_trans _ _ _ hcommander hnode, hnextId.trans hid, ?_, hnextHops.trans hhops, ?_⟩
    · rcases hreport with hsame | ⟨hmade, _⟩
      · exact hsame.trans hrca
      · exact absurd hmade hsynthesize
    · by_contra hlimit
      exact hescalate (hbound (by omega))

theorem runHops_facts (visits : Nat) (c : Channels) (desk : Desk World) :
    Extends c.incidentId desk (runHops ports visits c desk).2 ∧
      (runHops ports visits c desk).1.checkpoint.incidentId = c.incidentId ∧
      ReportSource ports c (runHops ports visits c desk).1 (runHops ports visits c desk).2 := by
  induction visits generalizing c desk with
  | zero => exact ⟨extends_refl desk, rfl, fun _ h => .inl h⟩
  | succ visits ih =>
    unfold runHops
    cases h : hop ports c desk with
    | settled run later => exact hop_settled h
    | goesOn next reads lines later =>
      obtain ⟨hextends, hid, hrca, _, _⟩ := hop_goesOn h
      obtain ⟨hrest, hrestId, hreport⟩ := ih next later
      rw [hid] at hrest hrestId
      refine ⟨extends_trans _ _ _ hextends hrest, hrestId, fun report hfinal => ?_⟩
      rw [← hrca, ← hid]
      exact hreport report hfinal

/-- A run works for its incident only, whatever happens in it. -/
theorem runGraph_facts (c : Channels) (desk : Desk World) :
    Extends c.incidentId desk (runGraph ports c desk).2 ∧
      (runGraph ports c desk).1.checkpoint.incidentId = c.incidentId ∧
      ReportSource ports c (runGraph ports c desk).1 (runGraph ports c desk).2 := by
  have hintake : Extends c.incidentId desk (intake ports c desk).2 := extends_intake desk
  unfold runGraph
  rcases hi : intake ports c desk with ⟨raised | ⟨started, lines⟩, later⟩
  · rw [hi] at hintake
    exact ⟨hintake, rfl, fun _ h => .inl h⟩
  · rw [hi] at hintake
    obtain ⟨hid, _, hrca⟩ := intake_channels _ _ _ hi
    obtain ⟨hrest, hrestId, hreport⟩ :=
      @runHops_facts _ ports commanderVisits started later
    rw [hid] at hrest hrestId
    refine ⟨extends_trans _ _ _ hintake hrest, hrestId, fun report hfinal => ?_⟩
    rw [← hrca, ← hid]
    exact hreport report hfinal

/-- The commander starts from the channels of the intake and from the bucket as it is. -/
theorem runGraph_reads (c : Channels) (desk : Desk World) :
    (runGraph ports c desk).1.reads.head? =
      some (c.started (isoformat (ports.now desk.gateway.world).1), desk.recorded) := by
  unfold runGraph
  rw [intake_apply]
  rfl

/-- All that a run takes from the merged channels is what the intake makes of them. -/
theorem runGraph_of_started {c c' : Channels} {desk : Desk World}
    (h : c.started (isoformat (ports.now desk.gateway.world).1) =
      c'.started (isoformat (ports.now desk.gateway.world).1)) :
    runGraph ports c desk = runGraph ports c' desk := by
  have hid := congrArg Channels.incidentId h
  have hcorrelation := congrArg Channels.correlationId h
  change c.incidentId = c'.incidentId at hid
  change c.correlationId = c'.correlationId at hcorrelation
  unfold runGraph
  rw [intake_apply, intake_apply, h, hid, hcorrelation]

end Facts

section SameView

variable {World : Type} {ports : SpecialistPorts World} {c : Channels} {desk other : Desk World}

theorem respects_intake : Respects SameView (intake ports c) :=
  respects_bind (respects_onWorld _) fun _ => respects_pure _

theorem respects_commander : Respects SameView (commander ports c) :=
  respects_bind (respects_onWorld _) fun _ => respects_pure _

theorem respects_collectOne {collector : Channels → Proc (Desk World) Raised SpecialistUpdate}
    (h : Respects SameView (collector c)) : Respects SameView (collectOne c collector) :=
  respects_bind h fun _ => respects_pure _

theorem respects_collectBoth (swaps : Bool) : Respects SameView (collectBoth ports c swaps) := by
  cases swaps with
  | true =>
    exact respects_bind respects_collectKnowledge fun _ =>
      respects_bind respects_collectObservability fun _ => respects_pure _
  | false =>
    exact respects_bind respects_collectObservability fun _ =>
      respects_bind respects_collectKnowledge fun _ => respects_pure _

theorem respects_synthesizePack (pack : List EvidencePackItem) :
    Respects SameView (synthesizePack ports c pack) := by
  refine respects_bind (respects_update fun a b h => ?_) fun _ =>
    respects_bind (respects_onWorld _) fun _ => respects_pure _
  exact ⟨h.recorded, h.cache, h.world, congrArg (· ++ [pack]) h.packs⟩

theorem respects_synthesize : Respects SameView (synthesize ports c) := by
  intro a b h
  unfold synthesize
  dsimp only
  rw [← h.recorded]
  split
  · exact ⟨rfl, h⟩
  · exact respects_synthesizePack _ a b h

theorem respects_runNode (action : NextAction) : Respects SameView (runNode ports c action) := by
  cases action with
  | observability => exact respects_collectOne respects_collectObservability
  | knowledge => exact respects_collectOne respects_collectKnowledge
  | code => exact respects_collectOne respects_collectCode
  | fanout =>
    exact respects_bind (respects_onWorld _) fun swaps =>
      respects_bind (respects_collectBoth swaps) fun _ => respects_pure _
  | synthesize => exact respects_synthesize
  | escalate => exact respects_pure _

def HopAlike : Hop World → Hop World → Prop
  | .settled run later, .settled run' later' => run = run' ∧ SameView later later'
  | .goesOn next reads lines later, .goesOn next' reads' lines' later' =>
    next = next' ∧ reads = reads' ∧ lines = lines' ∧ SameView later later'
  | _, _ => False

theorem hop_alike (h : SameView desk other) :
    HopAlike (hop ports c desk) (hop ports c other) := by
  obtain ⟨hresult, hlater⟩ := @respects_commander _ ports c desk other h
  unfold hop
  rcases hdesk : commander ports c desk with ⟨result, later⟩
  rcases hother : commander ports c other with ⟨result', later'⟩
  rw [hdesk, hother] at hresult hlater
  obtain rfl : result = result' := hresult
  rcases result with raised | ⟨routed, lines⟩
  · exact ⟨rfl, hlater⟩
  dsimp only at hlater ⊢
  obtain ⟨hnode, hafter⟩ :=
    @respects_runNode _ ports routed (routeAfterCommander routed) later later' hlater
  rcases hdesk' : runNode ports routed (routeAfterCommander routed) later with ⟨node, after⟩
  rcases hother' : runNode ports routed (routeAfterCommander routed) later' with ⟨node', after'⟩
  rw [hdesk', hother'] at hnode hafter
  obtain rfl : node = node' := hnode
  rw [hlater.recorded]
  rcases node with raised | ⟨next, nodeLines⟩
  · exact ⟨rfl, hafter⟩
  dsimp only at hafter ⊢
  rw [hafter.recorded]
  cases routeAfterCommander routed <;> first | exact ⟨rfl, hafter⟩ | exact ⟨rfl, rfl, rfl, hafter⟩

theorem runHops_alike (visits : Nat) (c : Channels) {desk other : Desk World}
    (h : SameView desk other) :
    (runHops ports visits c desk).1 = (runHops ports visits c other).1 ∧
      SameView (runHops ports visits c desk).2 (runHops ports visits c other).2 := by
  induction visits generalizing c desk other with
  | zero => exact ⟨rfl, h⟩
  | succ visits ih =>
    have hhop := @hop_alike _ ports c desk other h
    unfold runHops
    revert hhop
    cases hop ports c desk with
    | settled run later =>
      cases hop ports c other with
      | settled run' later' => exact fun hhop => ⟨hhop.1, hhop.2⟩
      | goesOn next' reads' lines' later' => exact False.elim
    | goesOn next reads lines later =>
      cases hop ports c other with
      | settled run' later' => exact False.elim
      | goesOn next' reads' lines' later' =>
        rintro ⟨rfl, rfl, rfl, hlater⟩
        obtain ⟨hrun, hrest⟩ := ih next hlater
        exact ⟨congrArg (fun run => GraphRun.after run reads lines) hrun, hrest⟩

/-- A run does not depend on the audit log that it appends to. -/
theorem runGraph_alike (c : Channels) (h : SameView desk other) :
    (runGraph ports c desk).1 = (runGraph ports c other).1 ∧
      SameView (runGraph ports c desk).2 (runGraph ports c other).2 := by
  obtain ⟨hresult, hlater⟩ := @respects_intake _ ports c desk other h
  unfold runGraph
  rcases hdesk : intake ports c desk with ⟨result, later⟩
  rcases hother : intake ports c other with ⟨result', later'⟩
  rw [hdesk, hother] at hresult hlater
  obtain rfl : result = result' := hresult
  rcases result with raised | ⟨started, lines⟩
  · exact ⟨rfl, hlater⟩
  dsimp only at hlater ⊢
  obtain ⟨hrun, hrest⟩ := runHops_alike commanderVisits started hlater
  rw [hrun, hlater.recorded]
  exact ⟨rfl, hrest⟩

end SameView

end Aegis
