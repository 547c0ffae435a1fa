import Aegis.GatewayAuthority
import Aegis.Graph

namespace Aegis

open Raising Proc

/-- The specialists that a choice of the commander sends work to. -/
def NextAction.specialists : NextAction → List Specialist
  | .observability => [.observability]
  | .knowledge => [.knowledge]
  | .code => [.code]
  | .fanout => [.observability, .knowledge]
  | .synthesize => []
  | .escalate => []

def NextAction.isLast (action : NextAction) : Prop :=
  action = .synthesize ∨ action = .escalate

/-- The choices of the commander that a run's supersteps followed: of every two reads the first is
the commander's, the second that of the node it routed to. -/
def routesOf : List (Channels × List Evidence) → List NextAction
  | _ :: routed :: rest => routeAfterCommander routed.1 :: routesOf rest
  | _ => []

def GraphRun.routes (run : GraphRun) : List NextAction := routesOf run.reads

/-- The commander is visited twice at most, no specialist works twice, and the last choice is to
synthesize or to escalate. -/
structure ShortRun (routes : List NextAction) : Prop where
  visits : routes.length ≤ 2
  once : (routes.flatMap NextAction.specialists).Nodup
  ends : ∃ action, routes.getLast? = some action ∧ action.isLast

section Plan

/-- Nothing is left to collect for this specialist: it has delivered, or it has failed. -/
def Served (evidence : List EvidenceItem) (failedSteps : List String) (specialist : Specialist) :
    Prop :=
  specialist ∈ evidenceKinds evidence ∨ stepFailed failedSteps specialist = true

variable {World : Type} {host : Host World} {scenario : String} {hops : Int}
  {evidence : List EvidenceItem} {startedAt : String} {now : Instant} {failedSteps : List String}

theorem firstSpecialist_fanout (h : firstSpecialist scenario = .fanout) :
    scenario = "db_exhaustion" := by
  unfold firstSpecialist at h
  split_ifs at h with hdependency hdb
  exact hdb

/-- Once all that a scenario needs is served, the commander ends the investigation. -/
theorem nextAction_last
    (h : ∀ specialist ∈ (firstSpecialist scenario).specialists,
      Served evidence failedSteps specialist) :
    (nextAction host scenario hops evidence startedAt now failedSteps).nextAgent.isLast := by
  unfold nextAction
  split_ifs with hhops hduration henough hfailed hescalate hfanout hcollected
  all_goals try exact .inr rfl
  all_goals try exact .inl rfl
  · have hdb := firstSpecialist_fanout hfanout
    rw [hfanout] at h hfailed
    simp only [NextAction.specialists, List.mem_cons, List.not_mem_nil, or_false, forall_eq_or_imp,
      forall_eq, Served] at h
    simp only [failureBlocks, Bool.decide_or, Bool.decide_and, Bool.or_eq_true, Bool.and_eq_true,
      decide_eq_true_eq, not_or, not_and] at hfailed
    have hobs : .observability ∈ evidenceKinds evidence :=
      h.1.elim id fun hstep => by_contra fun hkind => hfailed.1 hkind hstep
    have hknowledge : .knowledge ∈ evidenceKinds evidence :=
      h.2.elim id fun hstep => by_contra fun hkind => hfailed.2 hkind hstep
    simp [fanoutOrRemaining, hobs, hknowledge, NextAction.isLast]
  · have one : ∀ specialist, (firstSpecialist scenario).specialists = [specialist] →
        stepFailed failedSteps specialist ≠ true → specialist ∈ evidenceKinds evidence := by
      intro specialist hone hstep
      exact (h specialist (by rw [hone]; exact List.mem_singleton.mpr rfl)).resolve_right hstep
    cases hfirst : firstSpecialist scenario with
    | observability =>
      rw [hfirst] at one hfailed hcollected
      exact absurd (decide_eq_true (one .observability rfl hfailed)) hcollected
    | knowledge =>
      rw [hfirst] at one hfailed hcollected
      exact absurd (decide_eq_true (one .knowledge rfl hfailed)) hcollected
    | code =>
      rw [hfirst] at one hfailed hcollected
      exact absurd (decide_eq_true (one .code rfl hfailed)) hcollected
    | fanout => exact absurd hfirst hfanout
    | synthesize => exact .inl rfl
    | escalate => exact .inr rfl

theorem nextAction_covers
    (hlast : ¬(nextAction host scenario hops evidence startedAt now failedSteps).nextAgent.isLast) :
    ∀ specialist ∈ (firstSpecialist scenario).specialists,
      specialist ∈ evidenceKinds evidence ∨
        specialist ∈ (nextAction host scenario hops evidence startedAt now
          failedSteps).nextAgent.specialists := by
  unfold nextAction at hlast ⊢
  split_ifs at hlast ⊢ with hhops hduration henough hfailed hescalate hfanout hcollected
  all_goals try exact absurd (.inr rfl) hlast
  all_goals try exact absurd (.inl rfl) hlast
  · rw [hfanout]
    unfold fanoutOrRemaining
    by_cases hobs : .observability ∈ evidenceKinds evidence
    · by_cases hknowledge : .knowledge ∈ evidenceKinds evidence
      · simp [NextAction.specialists, hobs, hknowledge]
      · simp [NextAction.specialists, hobs, hknowledge]
    · by_cases hknowledge : .knowledge ∈ evidenceKinds evidence
      · simp [NextAction.specialists, hobs, hknowledge]
      · simp [NextAction.specialists, hobs, hknowledge]
  · exact fun specialist h => .inr h

end Plan

/-- A list of mappings, or nothing. -/
def MappingsOrNothing (result : Value) : Prop :=
  result.truthy = false ∨ ∃ items : List Fields, result = .list (items.map .obj)

/-- Every call that the gateway allows a specialist gives mappings, or nothing. -/
def AnswersMappings {World : Type} (ports : SpecialistPorts World) : Prop :=
  ∀ identity entryId now request desk decision,
    (invokeGateway ports (ports.gateway.bind identity) entryId now request desk).1 = .ok decision →
    decision.allowed = true → MappingsOrNothing decision.result

/-- A collector's contract with the planner: evidence of its own kind, or its own step failed. -/
def Serves (specialist : Specialist) (update : SpecialistUpdate) : Prop :=
  (update.failedSteps = [] ∧ update.evidence ≠ [] ∧
      ∀ item ∈ update.evidence, item.collector = specialist) ∨
    (update.evidence = [] ∧ update.failedSteps = [specialist])

section Collectors

variable {World : Type} {ports : SpecialistPorts World} {c : Channels}

theorem serves_failedUpdate (specialist : Specialist) (line : String) :
    Serves specialist (failedUpdate specialist line) := .inr ⟨rfl, rfl⟩

theorem resultItems_mappings {result : Value} (h : MappingsOrNothing result) :
    ∃ items : List Fields, resultItems result = .ok (items.map .obj) := by
  unfold resultItems
  rcases h with h | ⟨items, rfl⟩
  · exact ⟨[], by simp [h]⟩
  · refine ⟨items, ?_⟩
    cases items with
    | nil => rfl
    | cons item rest => rfl

theorem asMapping_each (items : List Fields) : (items.map Value.obj).mapM asMapping = .ok items := by
  induction items with
  | nil => rfl
  | cons item rest ih =>
    rw [List.map_cons, List.mapM_cons, ih]
    rfl

theorem yields_fromExcept_ok {Value : Type} {x : Except Raised Value} {a : Value} (h : x = .ok a) :
    Yields (fromExcept x : Proc (Desk World) Raised Value) fun b => b = a := by
  rw [h]
  exact yields_pure rfl

theorem yields_isoNow (ports : SpecialistPorts World) :
    Yields (isoNow ports) fun _ => True :=
  yields_bind (yields_draw _) fun _ _ => yields_pure trivial

theorem yields_asIso (ports : SpecialistPorts World) (value : Value) :
    Yields (asIso ports value) fun _ => True := by
  unfold asIso
  split
  · exact yields_isoNow ports
  · exact yields_pure trivial

theorem yields_itemsOf {time : Fields → Proc World Raised String}
    {item : String → Fields → Collected} {tagged : Collected → Prop}
    (htime : ∀ hit, Yields (time hit) fun _ => True)
    (hitem : ∀ timestamp hit, tagged (item timestamp hit)) (hits : List Fields) :
    Yields (itemsOf time item hits) fun items =>
      items.length = hits.length ∧ ∀ content ∈ items, tagged content := by
  unfold itemsOf onWorld
  exact yields_within (yields_mapEach (fun hit => yields_bind (htime hit) fun timestamp _ =>
    yields_pure (hitem timestamp hit)) hits)

theorem yields_recordItems (incidentId : Uuid) (items : List CollectedItem) :
    Yields (recordItems ports incidentId items) fun _ => True :=
  yields_attempt (fun _ _ _ _ => trivial) fun _ => yields_pure trivial

theorem yields_keepItems {specialist : Specialist} {items : List CollectedItem}
    (own : ∀ item ∈ items, item.collector = specialist) (emptyReason line : String) :
    Yields (keepItems ports specialist c.incidentId items emptyReason line)
      (Serves specialist) := by
  unfold keepItems
  split
  · exact yields_pure (serves_failedUpdate _ _)
  next hempty =>
    refine yields_bind (yields_recordItems _ items) fun _ _ => yields_pure (.inl ⟨rfl, ?_, own⟩)
    simpa using hempty

theorem tagged_collector {contents : List Collected} {decision : GatewayDecision}
    {specialist : Specialist}
    (h : ∀ content ∈ contents, ∀ tool auditId,
      CollectedItem.collector ⟨content, tool, auditId⟩ = specialist) :
    ∀ item ∈ tagUntrusted contents decision, item.collector = specialist := by
  intro item hitem
  obtain ⟨content, hcontent, rfl⟩ := List.mem_map.mp hitem
  exact h content hcontent _ _

theorem callTool_result {identity : AgentIdentity} {toolName : String} {parameters : Fields}
    {incidentId : Uuid} {decision : GatewayDecision} (answers : AnswersMappings ports)
    (h : ∃ desk, (callTool ports identity toolName parameters incidentId desk).1 = .ok decision)
    (allowed : decision.allowed = true) : MappingsOrNothing decision.result := by
  obtain ⟨desk, h⟩ := h
  obtain ⟨request, _, _, h⟩ := fst_bind_eq_ok h
  obtain ⟨entryId, _, _, h⟩ := fst_bind_eq_ok h
  obtain ⟨now, later, _, h⟩ := fst_bind_eq_ok h
  exact answers identity entryId now request later decision h allowed

theorem yields_collectObservability (answers : AnswersMappings ports) :
    Yields (collectObservability ports c) (Serves .observability) := by
  refine yields_bind (yields_capture _) fun called hcalled => ?_
  cases called with
  | error raised => exact yields_pure (serves_failedUpdate _ _)
  | ok decision =>
    dsimp only
    split
    next hallowed =>
      obtain ⟨items, hitems⟩ := resultItems_mappings (callTool_result answers hcalled hallowed)
      refine yields_bind (yields_fromExcept_ok hitems) fun _ h => ?_
      subst h
      rw [← List.map_take]
      refine yields_bind (yields_fromExcept_ok (asMapping_each _)) fun hits _ => ?_
      refine yields_bind (@yields_itemsOf _ _ _ (fun content => ∀ tool auditId,
        CollectedItem.collector ⟨content, tool, auditId⟩ = .observability)
        (fun hit => yields_asIso ports _) (fun _ _ _ _ => rfl) hits) fun signals hsignals => ?_
      exact yields_keepItems (tagged_collector hsignals.2) _ _
    next => exact yields_pure (serves_failedUpdate _ _)

theorem yields_collectKnowledge (answers : AnswersMappings ports) :
    Yields (collectKnowledge ports c) (Serves .knowledge) := by
  refine yields_bind (yields_capture _) fun called hcalled => ?_
  cases called with
  | error raised => exact yields_pure (serves_failedUpdate _ _)
  | ok decision =>
    dsimp only
    split
    next hallowed =>
      obtain ⟨items, hitems⟩ := resultItems_mappings (callTool_result answers hcalled hallowed)
      refine yields_bind (yields_fromExcept_ok hitems) fun _ h => ?_
      subst h
      refine yields_bind (yields_fromExcept_ok (asMapping_each _)) fun hits _ => ?_
      refine yields_bind (@yields_itemsOf _ _ _ (fun content => ∀ tool auditId,
        CollectedItem.collector ⟨content, tool, auditId⟩ = .knowledge)
        (fun hit => yields_isoNow ports) (fun _ _ _ _ => rfl) hits) fun chunks hchunks => ?_
      exact yields_keepItems (tagged_collector hchunks.2) _ _
    next => exact yields_pure (serves_failedUpdate _ _)

theorem yields_collectCode (answers : AnswersMappings ports) :
    Yields (collectCode ports c) (Serves .code) := by
  refine yields_bind (yields_capture _) fun called hcalled => ?_
  cases called with
  | error raised => exact yields_pure (serves_failedUpdate _ _)
  | ok both =>
    obtain ⟨deploys, hits⟩ := both
    dsimp only
    split
    next hallowed =>
      obtain ⟨hdeploys, hhits⟩ := Bool.and_eq_true_iff.mp hallowed
      obtain ⟨desk, hcalls⟩ := hcalled
      obtain ⟨_, later, hfirst, hcalls⟩ := fst_bind_eq_ok hcalls
      obtain ⟨_, later', hsecond, hcalls⟩ := fst_bind_eq_ok hcalls
      cases hcalls
      obtain ⟨deployed, hdeployed⟩ := resultItems_mappings
        (callTool_result answers ⟨desk, congrArg Prod.fst hfirst⟩ hdeploys)
      obtain ⟨found, hfound⟩ := resultItems_mappings
        (callTool_result answers ⟨later, congrArg Prod.fst hsecond⟩ hhits)
      refine yields_bind (yields_fromExcept_ok hdeployed) fun _ h => ?_
      subst h
      refine yields_bind (yields_fromExcept_ok hfound) fun _ h => ?_
      subst h
      rw [← List.map_append]
      refine yields_bind (yields_fromExcept_ok (asMapping_each _)) fun all _ => ?_
      refine yields_bind (@yields_itemsOf _ _ _ (fun content => ∀ tool auditId,
        CollectedItem.collector ⟨content, tool, auditId⟩ = .code)
        (fun hit => yields_isoNow ports) (fun _ _ _ _ => rfl) _) fun merged hmerged => ?_
      exact yields_keepItems (tagged_collector hmerged.2) _ _
    next => exact yields_pure (serves_failedUpdate _ _)

end Collectors

section Served

variable {World : Type} {ports : SpecialistPorts World} {c : Channels}

theorem stepFailed_own (specialist : Specialist) (before after : List String) :
    stepFailed (before ++ specialist.value :: after) specialist = true := by
  have own : lowersTo (strip specialist.value) specialist.value = true := by
    cases specialist <;> decide
  simp [stepFailed, own]

theorem served_append {specialist : Specialist}
    (h : Served c.evidence c.failedSteps specialist) (update : SpecialistUpdate) :
    Served (c.append update).evidence (c.append update).failedSteps specialist := by
  rcases h with h | h
  · refine .inl ?_
    rw [evidenceKinds, Channels.append, List.filterMap_append]
    exact List.mem_append_left _ h
  · refine .inr ?_
    simp only [stepFailed, Channels.append, List.any_append, Bool.or_eq_true]
    exact .inl h

/-- What a collector leaves in the channels serves its specialist. -/
theorem served_of_serves {specialist : Specialist} {update : SpecialistUpdate}
    (h : Serves specialist update) :
    Served (c.append update).evidence (c.append update).failedSteps specialist := by
  rcases h with ⟨_, hne, hown⟩ | ⟨_, hfailed⟩
  · obtain ⟨item, hitem⟩ := List.exists_mem_of_ne_nil _ hne
    refine .inl (List.mem_filterMap.mpr ⟨.collected item, ?_, congrArg some (hown item hitem)⟩)
    exact List.mem_append_right _ (List.mem_map_of_mem hitem)
  · refine .inr ?_
    change stepFailed (c.failedSteps ++ update.failedSteps.map Specialist.value) specialist = true
    rw [hfailed]
    exact stepFailed_own specialist c.failedSteps []

/-- After the channels, the same scenario is served all that was collected and was sent out. -/
def ServedAfter (c : Channels) (action : NextAction) (later : Channels) : Prop :=
  later.scenario = c.scenario ∧ ∀ specialist,
    (specialist ∈ evidenceKinds c.evidence ∨ specialist ∈ action.specialists) →
    Served later.evidence later.failedSteps specialist

theorem yields_collectOne {specialist : Specialist}
    {collector : Channels → Proc (Desk World) Raised SpecialistUpdate}
    (h : Yields (collector c) (Serves specialist)) {action : NextAction}
    (only : action.specialists = [specialist]) :
    Yields (collectOne c collector) fun out => ServedAfter c action out.1 := by
  refine yields_bind h fun update hserves => yields_pure ⟨rfl, fun other hother => ?_⟩
  rcases hother with hkind | hsent
  · exact served_append (.inl hkind) update
  · rw [only] at hsent
    rw [List.mem_singleton.mp hsent]
    exact served_of_serves hserves

theorem yields_collectBoth (answers : AnswersMappings ports) (swaps : Bool) :
    Yields (collectBoth ports c swaps) fun both =>
      Serves .observability both.1 ∧ Serves .knowledge both.2 := by
  cases swaps with
  | true =>
    exact yields_bind (yields_collectKnowledge answers) fun _ hknowledge =>
      yields_bind (yields_collectObservability answers) fun _ hobservability =>
        yields_pure ⟨hobservability, hknowledge⟩
  | false =>
    exact yields_bind (yields_collectObservability answers) fun _ hobservability =>
      yields_bind (yields_collectKnowledge answers) fun _ hknowledge =>
        yields_pure ⟨hobservability, hknowledge⟩

theorem yields_fanout (answers : AnswersMappings ports) :
    Yields (fanout ports c) fun out => ServedAfter c .fanout out.1 := by
  refine yields_bind (yields_within (yields_draw _)) fun swaps _ =>
    yields_bind (yields_collectBoth answers swaps) fun both hboth => ?_
  obtain ⟨signals, chunks⟩ := both
  refine yields_pure ⟨rfl, fun specialist hspecialist => ?_⟩
  rcases hspecialist with hkind | hsent
  · exact served_append (served_append (.inl hkind) signals) chunks
  · rcases List.mem_pair.mp hsent with rfl | rfl
    · exact served_append (served_of_serves hboth.1) chunks
    · exact served_of_serves hboth.2

/-- A node that collects always returns, and serves those it works for. -/
theorem yields_runNode (answers : AnswersMappings ports) {action : NextAction}
    (hlast : ¬action.isLast) :
    Yields (runNode ports c action) fun out => ServedAfter c action out.1 := by
  cases action with
  | observability => exact yields_collectOne (yields_collectObservability answers) rfl
  | knowledge => exact yields_collectOne (yields_collectKnowledge answers) rfl
  | code => exact yields_collectOne (yields_collectCode answers) rfl
  | fanout => exact yields_fanout answers
  | synthesize => exact absurd (.inl rfl) hlast
  | escalate => exact absurd (.inr rfl) hlast

end Served

section Runs

variable {World : Type} {ports : SpecialistPorts World}

/-- The channels after a visit of the commander, which adds its choice only. -/
structure Visited (ports : SpecialistPorts World) (c routed : Channels) : Prop where
  scenario : routed.scenario = c.scenario
  evidence : routed.evidence = c.evidence
  chosen : ∃ now, routeAfterCommander routed = (nextAction ports.toHost c.scenario (c.hops + 1)
    c.evidence c.startedAt now c.failedSteps).nextAgent

theorem yields_commander (ports : SpecialistPorts World) (c : Channels) :
    Yields (commander ports c) fun out => Visited ports c out.1 :=
  yields_bind (yields_within (yields_draw _)) fun now _ => yields_pure ⟨rfl, rfl, now, rfl⟩

/-- A visit ends the run when the choice is the last one, and otherwise the work that was sent
out is done before the next visit. -/
theorem hop_cases (answers : AnswersMappings ports) (c : Channels) (desk : Desk World) :
    ∃ routed, Visited ports c routed ∧
      (((routeAfterCommander routed).isLast ∧ ∃ run later, hop ports c desk = .settled run later ∧
          ∀ read, routesOf (read :: run.reads) = [routeAfterCommander routed]) ∨
        (¬(routeAfterCommander routed).isLast ∧ ∃ next recorded recorded' lines later,
          hop ports c desk = .goesOn next [(routed, recorded), (next, recorded')] lines later ∧
          ServedAfter routed (routeAfterCommander routed) next)) := by
  obtain ⟨⟨routed, lines⟩, later, hcommander, hvisited⟩ := yields_commander ports c desk
  refine ⟨routed, hvisited, ?_⟩
  unfold hop
  rw [hcommander]
  dsimp only
  by_cases hlast : (routeAfterCommander routed).isLast
  · refine .inl ⟨hlast, ?_⟩
    rcases hnode : runNode ports routed (routeAfterCommander routed) later with
      ⟨raised | ⟨next, nodeLines⟩, after⟩
    · exact ⟨_, _, rfl, fun _ => rfl⟩
    · dsimp only
      rcases hlast with hlast | hlast <;> rw [hlast]
      · exact ⟨_, _, rfl, fun _ => congrArg (· :: []) hlast⟩
      · exact ⟨_, _, rfl, fun _ => congrArg (· :: []) hlast⟩
  · refine .inr ⟨hlast, ?_⟩
    obtain ⟨⟨next, nodeLines⟩, after, hnode, hserved⟩ :=
      @yields_runNode _ ports routed answers (routeAfterCommander routed) hlast later
    rw [hnode]
    dsimp only
    refine ⟨next, later.recorded, after.recorded, lines ++ nodeLines, after, ?_, hserved⟩
    cases haction : routeAfterCommander routed with
    | synthesize => exact absurd (.inl haction) hlast
    | escalate => exact absurd (.inr haction) hlast
    | _ => rfl

/-- All that the scenario needs is served. -/
def AllServed (c : Channels) : Prop :=
  ∀ specialist ∈ (firstSpecialist c.scenario).specialists,
    Served c.evidence c.failedSteps specialist

theorem visited_last {c routed : Channels} (h : Visited ports c routed) (served : AllServed c) :
    (routeAfterCommander routed).isLast := by
  obtain ⟨now, hchosen⟩ := h.chosen
  rw [hchosen]
  exact nextAction_last served

theorem allServed_next {c routed next : Channels} (h : Visited ports c routed)
    (hlast : ¬(routeAfterCommander routed).isLast)
    (hserved : ServedAfter routed (routeAfterCommander routed) next) : AllServed next := by
  obtain ⟨hscenario, hserves⟩ := hserved
  obtain ⟨now, hchosen⟩ := h.chosen
  intro specialist hneeded
  rw [hscenario, h.scenario] at hneeded
  refine hserves specialist ?_
  rw [h.evidence, hchosen]
  rw [hchosen] at hlast
  exact nextAction_covers hlast specialist hneeded

theorem runHops_served (answers : AnswersMappings ports) {c : Channels} (served : AllServed c)
    (visits : Nat) (desk : Desk World) (read : Channels × List Evidence) :
    ∃ action, routesOf (read :: (runHops ports (visits + 1) c desk).1.reads) = [action] ∧
      action.isLast := by
  obtain ⟨routed, hvisited, ⟨hlast, run, later, hhop, hroutes⟩ | ⟨hlast, _⟩⟩ :=
    hop_cases answers c desk
  · refine ⟨routeAfterCommander routed, ?_, hlast⟩
    unfold runHops
    rw [hhop]
    exact hroutes read
  · exact absurd (visited_last hvisited served) hlast

/-- Whatever the channels hold at the start and however the tools answer, the commander is visited
twice at most and no specialist works twice. -/
theorem runGraph_short (ports : SpecialistPorts World) (c : Channels) (desk : Desk World)
    (answers : AnswersMappings ports) : ShortRun (runGraph ports c desk).1.routes := by
  unfold runGraph
  rw [intake_apply]
  dsimp only
  generalize c.started _ = started
  generalize { desk with gateway := _ } = later
  change ShortRun (routesOf ((started, desk.recorded) ::
    (runHops ports (11 + 1) started later).1.reads))
  unfold runHops
  obtain ⟨routed, hvisited, ⟨hlast, run, after, hhop, hroutes⟩ |
    ⟨hlast, next, recorded, recorded', lines, after, hhop, hserved⟩⟩ :=
    hop_cases answers started later
  · rw [hhop]
    dsimp only
    rw [hroutes]
    refine ⟨by simp, ?_, _, rfl, hlast⟩
    rcases hlast with hlast | hlast <;> simp [hlast, NextAction.specialists]
  · rw [hhop]
    obtain ⟨action, hrest, hends⟩ := runHops_served answers
      (allServed_next hvisited hlast hserved) 10 after (next, recorded')
    change ShortRun (routeAfterCommander routed ::
      routesOf ((next, recorded') :: (runHops ports (10 + 1) next after).1.reads))
    rw [hrest]
    refine ⟨by simp, ?_, action, rfl, hends⟩
    have hnone : action.specialists = [] := by
      rcases hends with rfl | rfl <;> rfl
    rw [List.flatMap_cons, List.flatMap_singleton, hnone, List.append_nil]
    cases routeAfterCommander routed <;> decide

end Runs

section Tools

variable {World : Type} {ports : SpecialistPorts World}

theorem redactItems_mappings (redact : String → RedactionResult) (items : List Fields) :
    ∃ redacted : List Fields, (redactItems redact (items.map .obj)).1 = redacted.map .obj := by
  induction items with
  | nil => exact ⟨[], rfl⟩
  | cons item rest ih =>
    obtain ⟨redacted, hrest⟩ := ih
    refine ⟨(redactFields redact item).1 :: redacted, ?_⟩
    rw [List.map_cons, redactItems, hrest]
    rfl

theorem invoke_allowed {gateway : InvokeTool World} {services : Services} {denyAll : Bool}
    {entryId : Uuid} {now : Instant} {request : ToolInvokeRequest} {state : GatewayState World}
    {decision : GatewayDecision}
    (h : (gateway.invoke services denyAll entryId now request state).result = .ok decision)
    (allowed : decision.allowed = true) :
    ∃ runner parameters world raw truncated, gateway.tools request.toolName = some runner ∧
      (runner parameters world).1 = .returned raw truncated ∧
      decision.result = redactResult services.redact raw := by
  unfold InvokeTool.invoke at h
  dsimp only at h
  rcases InvokeTool.decide_denied_or_runs services gateway denyAll state.cache request
    (classify request.toolName) state.world with ⟨reason, cls, approval, world, _, heq⟩ | hruns
  · rw [heq] at h
    split at h
    · cases h
    · cases h
      cases allowed
  · obtain ⟨runner, hrunner, heq⟩ := InvokeTool.decide_of_runs services hruns
    rw [heq] at h
    unfold InvokeTool.run at h
    dsimp only at h
    generalize (gateway.pace request state.world).2 = world at h
    cases houtcome : (runner (toolParameters request) world).1 with
    | returned raw truncated =>
      rw [houtcome] at h
      dsimp only at h
      split at h
      · cases h
      · cases h
        exact ⟨runner, _, world, raw, truncated, hrunner, houtcome, rfl⟩
    | validationError text =>
      rw [houtcome] at h
      dsimp only at h
      split at h
      · cases h
      · cases h
        cases allowed
    | raised =>
      rw [houtcome] at h
      dsimp only at h
      split at h
      · cases h
      · cases h
        cases allowed

theorem answersMappings_of_tools
    (h : ∀ name runner parameters world raw truncated, ports.gateway.tools name = some runner →
      (runner parameters world).1 = .returned raw truncated →
      ∃ items : List Fields, raw = .list (items.map .obj)) : AnswersMappings ports := by
  intro identity entryId now request desk decision hinvoke hallowed
  unfold invokeGateway at hinvoke
  dsimp only at hinvoke
  cases hresult : ((ports.gateway.bind identity).invoke ports.services
    (ports.denyAll desk.gateway.world) entryId now request desk.gateway).result with
  | error text =>
    rw [hresult] at hinvoke
    cases hinvoke
  | ok made =>
    rw [hresult] at hinvoke
    cases hinvoke
    obtain ⟨runner, parameters, world, raw, truncated, hrunner, hreturned, hmade⟩ :=
      invoke_allowed hresult hallowed
    obtain ⟨items, rfl⟩ := h _ runner parameters world raw truncated hrunner hreturned
    obtain ⟨redacted, hredacted⟩ := redactItems_mappings ports.services.redact items
    refine .inr ⟨redacted, ?_⟩
    rw [hmade, redactResult, redactMapping, hredacted]

end Tools

/-- Ports whose observability tool returns one log line and whose other tools are missing. -/
def steadyPorts : SpecialistPorts Unit where
  services := ⟨fun _ => Digest.genesis, fun text => ⟨text, 0⟩⟩
  lower := id
  fromIsoformat _ := none
  now world := (seedAt, world)
  uuid4 world := (7, world)
  completeJson _ _ world := (.error (.invalid "no answer"), world)
  schemaText := ""
  modelValidate _ := .error "Field required"
  uuid5 _ := 5
  parseUuid _ := none
  gateway := {
    tools := fun name =>
      if name = "fetch_signals" then
        some fun _ world => (.returned (.list [.obj [("summary", .str "slow")]]) false, world)
      else none
    policyRules := some seedReadRules
    boundAgentId := none
    rateLimiter := ⟨defaultRateLimits, ⟨fun _ world => (some true, world)⟩⟩ }
  denyAll _ := false
  fanoutSwaps world := (true, world)

theorem steadyPorts_answers : AnswersMappings steadyPorts := by
  refine answersMappings_of_tools fun name runner parameters world raw truncated hrunner h => ?_
  change (if name = "fetch_signals" then _ else none) = some runner at hrunner
  split at hrunner
  · cases hrunner
    cases h
    exact ⟨[[("summary", .str "slow")]], rfl⟩
  · cases hrunner

/-- A thread that starts with a note from outside and a step that has failed before. -/
def preparedChannels : Channels where
  incidentId := 10
  service := "payment"
  scenario := "db_exhaustion"
  hops := 0
  nextAgent := none
  status := ""
  humanDecision := ""
  evidence := [.given (.str "kb-stub: restart the pool")]
  failedSteps := ["Code "]
  summary := ""
  correlationId := ""
  startedAt := ""
  escalateReason := ""
  title := ""
  rca := none

theorem prepared_run_short :
    ShortRun (runGraph steadyPorts preparedChannels ⟨[], ⟨⟨none, none⟩, [], ()⟩, []⟩).1.routes :=
  runGraph_short steadyPorts preparedChannels _ steadyPorts_answers

end Aegis
