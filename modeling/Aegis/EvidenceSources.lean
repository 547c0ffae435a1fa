import Aegis.AuditCompleteness
import Aegis.Ensuring
import Aegis.FreshRestart
import Aegis.Routes

namespace Aegis

open Raising Proc

/-- The mappings of a result, as a collector reads them. -/
def mappingsOf (result : Value) : Except Raised (List Fields) := do
  let values ← resultItems result
  values.mapM asMapping

/-- The signals that `collect_observability` reads. -/
def signalsOf (result : Value) : Except Raised (List Fields) := do
  let values ← resultItems result
  (values.take obsMaxItems).mapM asMapping

/-- The hits that `collect_code` merges. -/
def hitsOf (deploys hits : Value) : Except Raised (List Fields) := do
  let deployed ← resultItems deploys
  let found ← resultItems hits
  (deployed ++ found).mapM asMapping

section Calls

variable {World : Type} (ports : SpecialistPorts World)

/-- What the gateway decides on the call of `collect_observability`. -/
def observabilityCalls (c : Channels) (desk : Desk World) : List GatewayDecision :=
  match (callTool ports .observability "fetch_signals"
    [("service", .str c.service), ("scenario", .str c.scenario), ("limit", .int obsMaxItems)]
    c.incidentId desk).1 with
  | .ok decision => [decision]
  | .error _ => []

/-- What the gateway decides on the call of `collect_knowledge`. -/
def knowledgeCalls (c : Channels) (desk : Desk World) : List GatewayDecision :=
  match (callTool ports .knowledge "retrieve_knowledge"
    [("query", .str (orElse (strip c.title) (underscoresToSpaces c.scenario ++ " " ++ c.service))),
      ("service", .str c.service), ("scenario", .str c.scenario)] c.incidentId desk).1 with
  | .ok decision => [decision]
  | .error _ => []

/-- What the gateway decides on the calls of `collect_code`, the second one made if the first
returns. -/
def codeCalls (c : Channels) (desk : Desk World) : List GatewayDecision :=
  match callTool ports .code "list_deploys" [("service", .str c.service)] c.incidentId desk with
  | (.error _, _) => []
  | (.ok deploys, later) =>
    match (callTool ports .code "search_code"
      [("service", .str c.service), ("scenario", .str c.scenario)] c.incidentId later).1 with
    | .error _ => [deploys]
    | .ok hits => [deploys, hits]

end Calls

/-- Some allowed call carries the tags of the item, and its result the hit that the item shows. -/
def Sourced (make : String → Fields → Collected) (calls : List GatewayDecision)
    (item : CollectedItem) : Prop :=
  ∃ decision ∈ calls, decision.allowed = true ∧ item.tool = decision.toolName ∧
    item.auditId = decision.auditId ∧ ∃ values hit timestamp,
      resultItems decision.result = .ok values ∧ .obj hit ∈ values ∧
      item.content = make timestamp hit

/-- A failed step or evidence, and each item of the evidence with its source. -/
structure Accounted (specialist : Specialist) (make : String → Fields → Collected)
    (calls : List GatewayDecision) (update : SpecialistUpdate) : Prop where
  one : (update.failedSteps = [specialist] ∧ update.evidence = []) ∨
    (update.failedSteps = [] ∧ update.evidence ≠ [])
  sourced : ∀ item ∈ update.evidence, Sourced make calls item

/-- Two hits that give one item. -/
def SameItem (redact : String → RedactionResult) (lower : String → String) (a b : Fields) : Prop :=
  codeItem redact lower "" a = codeItem redact lower "" b

/-- Each deploy that is kept shows the item that some hit of the search shows as well. -/
def DeploysFound (redact : String → RedactionResult) (lower : String → String)
    (deploys hits : Value) : Prop :=
  ∃ deployed found, mappingsOf deploys = .ok deployed ∧ mappingsOf hits = .ok found ∧
    ∀ deploy ∈ dedupeCodeHits [] deployed, ∃ hit ∈ found, SameItem redact lower deploy hit

section Mappings

variable {values others : List Value} {fields : List Fields} {result : Value}

theorem asMapping_ok {value : Value} {hit : Fields} (h : asMapping value = .ok hit) :
    value = .obj hit := by
  cases value with
  | obj fields =>
    cases h
    rfl
  | none => cases h
  | bool b => cases h
  | int n => cases h
  | float repr => cases h
  | str s => cases h
  | list items => cases h

theorem mapM_asMapping : values.mapM asMapping = .ok fields ↔ values = fields.map .obj := by
  constructor
  · intro h
    induction values generalizing fields with
    | nil =>
      cases h
      rfl
    | cons value values ih =>
      rw [List.mapM_cons] at h
      obtain ⟨hit, hhit, h⟩ := bind_ok h
      obtain ⟨rest, hrest, h⟩ := bind_ok h
      cases h
      rw [List.map_cons, asMapping_ok hhit, ih hrest]
  · rintro rfl
    exact asMapping_each fields

theorem mappingsOf_ok :
    mappingsOf result = .ok fields ↔ resultItems result = .ok (fields.map .obj) := by
  constructor
  · intro h
    obtain ⟨values, hvalues, h⟩ := bind_ok h
    rw [hvalues, mapM_asMapping.mp h]
  · intro h
    unfold mappingsOf
    rw [h]
    exact asMapping_each fields

theorem signalsOf_ok (h : signalsOf result = .ok fields) :
    ∃ values, resultItems result = .ok values ∧ ∀ hit ∈ fields, .obj hit ∈ values := by
  obtain ⟨values, hvalues, h⟩ := bind_ok h
  refine ⟨values, hvalues, fun hit hhit => ?_⟩
  have htake := mapM_asMapping.mp h
  refine List.mem_of_mem_take (i := obsMaxItems) ?_
  rw [htake]
  exact List.mem_map_of_mem hhit

theorem hitsOf_ok {deploys hits : Value} {all : List Fields} : hitsOf deploys hits = .ok all ↔
    ∃ deployed found, mappingsOf deploys = .ok deployed ∧ mappingsOf hits = .ok found ∧
      all = deployed ++ found := by
  constructor
  · intro h
    obtain ⟨deployed, hdeployed, h⟩ := bind_ok h
    obtain ⟨found, hfound, h⟩ := bind_ok h
    obtain ⟨front, back, rfl, hfront, hback⟩ := List.append_eq_map_iff.mp (mapM_asMapping.mp h)
    refine ⟨front, back, mappingsOf_ok.mpr ?_, mappingsOf_ok.mpr ?_, rfl⟩
    · rw [hdeployed, hfront]
    · rw [hfound, hback]
  · rintro ⟨deployed, found, hdeployed, hfound, rfl⟩
    unfold hitsOf
    rw [mappingsOf_ok.mp hdeployed, mappingsOf_ok.mp hfound]
    change (deployed.map Value.obj ++ found.map Value.obj).mapM asMapping = _
    rw [← List.map_append]
    exact asMapping_each _

end Mappings

section Dedupe

variable {seen : List (String × String × String)} {hits others : List Fields} {hit : Fields}

theorem mem_dedupeCodeHits (h : hit ∈ dedupeCodeHits seen hits) : hit ∈ hits := by
  induction hits generalizing seen with
  | nil => exact h
  | cons first rest ih =>
    rw [dedupeCodeHits] at h
    split at h
    · exact List.mem_cons_of_mem _ (ih h)
    · rcases List.mem_cons.mp h with rfl | h
      · exact List.mem_cons_self
      · exact List.mem_cons_of_mem _ (ih h)

/-- What stands first is deduplicated as if it stood alone. -/
theorem dedupeCodeHits_append (seen : List (String × String × String)) (hits others : List Fields) :
    ∃ later, dedupeCodeHits seen (hits ++ others) =
      dedupeCodeHits seen hits ++ dedupeCodeHits later others := by
  induction hits generalizing seen with
  | nil => exact ⟨seen, rfl⟩
  | cons first rest ih =>
    rw [List.cons_append, dedupeCodeHits, dedupeCodeHits]
    split
    · exact ih seen
    · obtain ⟨later, hlater⟩ := ih (codeKey first :: seen)
      exact ⟨later, by rw [hlater, List.cons_append]⟩

theorem dedupeCodeHits_eq_nil (h : dedupeCodeHits [] hits = []) : hits = [] := by
  cases hits with
  | nil => rfl
  | cons first rest =>
    rw [dedupeCodeHits, if_neg List.not_mem_nil] at h
    cases h

end Dedupe

/-- What a collector makes of the hits of a call: an item of each, or a failed step. -/
structure Shows (specialist : Specialist) (make : String → Fields → Collected)
    (decision : GatewayDecision) (hits : List Fields) (update : SpecialistUpdate) : Prop where
  one : (update.failedSteps = [specialist] ∧ update.evidence = []) ∨
    (update.failedSteps = [] ∧ update.evidence ≠ [])
  items : List.Forall₂ (fun hit item => ∃ timestamp, item =
    (⟨make timestamp hit, decision.toolName, decision.auditId⟩ : CollectedItem)) hits update.evidence

section Shown

variable {World : Type} {ports : SpecialistPorts World} {c : Channels} {specialist : Specialist}
  {make : String → Fields → Collected} {decision : GatewayDecision} {hits : List Fields}

theorem fromExcept_bind {State Error Value Result : Type} (x : Except Error Value)
    (f : Value → Except Error Result) : (fromExcept (x >>= f) : Proc State Error Result) =
      fromExcept x >>= fun a => fromExcept (f a) := by
  cases x with
  | ok a => rfl
  | error e => rfl

theorem yields_shows {time : Fields → Proc World Raised String}
    (htime : ∀ hit, Yields (time hit) fun _ => True) (hits : List Fields) (emptyReason : String)
    (line : List CollectedItem → String) :
    Yields (itemsOf time make hits >>= fun contents =>
        keepItems ports specialist c.incidentId (tagUntrusted contents decision) emptyReason
          (line (tagUntrusted contents decision)))
      (Shows specialist make decision hits) := by
  have hitems : Yields (itemsOf time make hits)
      (List.Forall₂ (fun hit content => ∃ timestamp, content = make timestamp hit) hits) := by
    unfold itemsOf onWorld
    exact yields_within (yields_mapEach_pairs (fun hit => yields_bind (htime hit) fun timestamp _ =>
      yields_pure ⟨timestamp, rfl⟩) hits)
  refine yields_bind hitems fun contents hcontents => ?_
  have htagged : List.Forall₂ (fun hit item => ∃ timestamp, item =
      (⟨make timestamp hit, decision.toolName, decision.auditId⟩ : CollectedItem)) hits
        (tagUntrusted contents decision) := by
    unfold tagUntrusted
    rw [List.forall₂_map_right_iff]
    refine hcontents.imp fun hit content h => ?_
    obtain ⟨timestamp, rfl⟩ := h
    exact ⟨timestamp, rfl⟩
  unfold keepItems
  split
  next hempty =>
    rw [List.isEmpty_iff] at hempty
    rw [hempty] at htagged
    exact yields_pure ⟨.inl ⟨rfl, rfl⟩, htagged⟩
  next hsome =>
    rw [List.isEmpty_iff] at hsome
    exact yields_bind (yields_recordItems _ _) fun _ _ => yields_pure ⟨.inr ⟨rfl, hsome⟩, htagged⟩

theorem keepSignals_eq (ports : SpecialistPorts World) (c : Channels) (decision : GatewayDecision) :
    keepSignals ports c decision = fromExcept (signalsOf decision.result) >>= fun hits =>
      itemsOf (fun signal => asIso ports (Fields.get signal "timestamp"))
        (obsItem ports.services.redact) hits >>= fun signals =>
          keepItems ports .observability c.incidentId (tagUntrusted signals decision)
            "empty_signals" ("collected " ++
              toString (tagUntrusted signals decision).length ++ " summaries source=simulator") := by
  unfold signalsOf
  rw [fromExcept_bind, bind_bind]
  rfl

theorem keepChunks_eq (ports : SpecialistPorts World) (c : Channels) (decision : GatewayDecision) :
    keepChunks ports c decision = fromExcept (mappingsOf decision.result) >>= fun hits =>
      itemsOf (fun _ => isoNow ports) (knowledgeItem ports.services.redact) hits >>= fun chunks =>
        keepItems ports .knowledge c.incidentId (tagUntrusted chunks decision) "no_hits"
          ("retrieved " ++ toString (tagUntrusted chunks decision).length ++
            " chunks via RetrieveKnowledge") := by
  unfold mappingsOf
  rw [fromExcept_bind, bind_bind]
  rfl

theorem keepHits_eq (ports : SpecialistPorts World) (c : Channels)
    (deploys hits : GatewayDecision) :
    keepHits ports c deploys hits = fromExcept (hitsOf deploys.result hits.result) >>= fun all =>
      itemsOf (fun _ => isoNow ports) (codeItem ports.services.redact ports.lower)
        (dedupeCodeHits [] all) >>= fun merged =>
          keepItems ports .code c.incidentId (tagUntrusted merged hits) "empty"
            ("collected " ++ toString (tagUntrusted merged hits).length ++
              " hits including deploy history") := by
  unfold hitsOf
  rw [fromExcept_bind, bind_bind]
  simp only [fromExcept_bind, bind_bind]
  rfl

theorem bind_fromExcept_error {Result : Type} {x : Except Raised (List Fields)} {raised : Raised}
    (h : x = .error raised) (rest : List Fields → Proc (Desk World) Raised Result)
    (desk : Desk World) : (fromExcept x >>= rest) desk = (.error raised, desk) := by
  rw [h]
  rfl

/-- Each item of the evidence shows a hit of its call. -/
theorem sourced_of_shows {calls : List GatewayDecision} {update : SpecialistUpdate}
    (shows_ : Shows specialist make decision hits update) (mem : decision ∈ calls)
    (allowed : decision.allowed = true)
    (found : ∀ hit ∈ hits, ∃ values hit', resultItems decision.result = .ok values ∧
      .obj hit' ∈ values ∧ ∀ timestamp, make timestamp hit = make timestamp hit') :
    Accounted specialist make calls update := by
  refine ⟨shows_.one, fun item hitem => ?_⟩
  obtain ⟨hit, hhit, timestamp, rfl⟩ : ∃ hit ∈ hits, ∃ timestamp, item =
      (⟨make timestamp hit, decision.toolName, decision.auditId⟩ : CollectedItem) := by
    obtain ⟨n, hn, rfl⟩ := List.mem_iff_getElem.mp hitem
    have hlength := shows_.items.length_eq
    exact ⟨hits[n], List.getElem_mem _, List.Forall₂.get shows_.items (by omega) hn⟩
  obtain ⟨values, hit', hvalues, hmem, hsame⟩ := found hit hhit
  exact ⟨decision, mem, allowed, rfl, rfl, values, hit', timestamp, hvalues, hmem, hsame timestamp⟩

theorem accounted_single {desk : Desk World} {p : Proc (Desk World) Raised GatewayDecision}
    {keep : GatewayDecision → Proc (Desk World) Raised SpecialistUpdate}
    {parse : Value → Except Raised (List Fields)} {failed : Raised → String}
    {denied : GatewayDecision → String} {calls : List GatewayDecision}
    (hcalls : calls = match (p desk).1 with
      | .ok decision => [decision]
      | .error _ => [])
    (reads : ∀ decision hits, parse decision.result = .ok hits →
      Yields (keep decision) (Shows specialist make decision hits))
    (raises : ∀ decision raised later, parse decision.result = .error raised →
      keep decision later = (.error raised, later))
    (sound : ∀ result hits, parse result = .ok hits →
      ∃ values, resultItems result = .ok values ∧ ∀ hit ∈ hits, .obj hit ∈ values) :
    (∃ update later, (capture p >>= fun called => match called with
        | .error raised => pure (failedUpdate specialist (failed raised))
        | .ok decision =>
          if decision.allowed then keep decision
          else pure (failedUpdate specialist (denied decision))) desk = (.ok update, later) ∧
      Accounted specialist make calls update) ↔
    ∀ decision ∈ calls, decision.allowed = true → ∃ hits, parse decision.result = .ok hits := by
  have refused : ∀ line, Accounted specialist make calls (failedUpdate specialist line) :=
    fun line => ⟨.inl ⟨rfl, rfl⟩, fun item hitem => by cases hitem⟩
  rw [bind_apply]
  unfold capture
  dsimp only
  rcases hcall : p desk with ⟨raised | decision, later⟩
  · rw [hcall] at hcalls
    subst hcalls
    exact iff_of_true ⟨_, later, rfl, refused _⟩ (by simp)
  · rw [hcall] at hcalls
    subst hcalls
    dsimp only
    by_cases hallowed : decision.allowed = true
    · rw [if_pos hallowed]
      constructor
      · rintro ⟨update, last, hkeep, _⟩ other hother _
        rw [List.mem_singleton.mp hother]
        cases hparse : parse decision.result with
        | ok hits => exact ⟨hits, rfl⟩
        | error raised =>
          rw [raises decision raised later hparse] at hkeep
          cases hkeep
      · intro hreads
        obtain ⟨hits, hhits⟩ := hreads decision (List.mem_singleton_self _) hallowed
        obtain ⟨update, last, hkeep, hshows⟩ := reads decision hits hhits later
        obtain ⟨values, hvalues, hmem⟩ := sound _ _ hhits
        exact ⟨update, last, hkeep, sourced_of_shows hshows (List.mem_singleton_self _) hallowed
          fun hit hhit => ⟨values, hit, hvalues, hmem hit hhit, fun _ => rfl⟩⟩
    · rw [if_neg hallowed]
      refine iff_of_true ⟨_, later, rfl, refused _⟩ fun other hother hallowed' => ?_
      rw [List.mem_singleton.mp hother] at hallowed'
      exact absurd hallowed' hallowed

theorem observability_accounted_iff (ports : SpecialistPorts World) (c : Channels)
    (desk : Desk World) :
    (∃ update later, collectObservability ports c desk = (.ok update, later) ∧
      Accounted .observability (obsItem ports.services.redact) (observabilityCalls ports c desk)
        update) ↔
    ∀ decision ∈ observabilityCalls ports c desk, decision.allowed = true →
      ∃ hits, signalsOf decision.result = .ok hits := by
  unfold collectObservability observabilityCalls
  generalize callTool ports .observability "fetch_signals" _ c.incidentId = call
  refine accounted_single rfl (fun decision hits hhits => ?_)
    (fun decision raised later hraised => ?_) fun result hits hhits => signalsOf_ok hhits
  · rw [keepSignals_eq]
    refine yields_bind (yields_fromExcept_ok hhits) fun _ h => ?_
    rw [h]
    exact yields_shows (fun hit => yields_asIso ports _) hits "empty_signals" fun items =>
      "collected " ++ toString items.length ++ " summaries source=simulator"
  · rw [keepSignals_eq]
    exact bind_fromExcept_error hraised _ _

theorem knowledge_accounted_iff (ports : SpecialistPorts World) (c : Channels)
    (desk : Desk World) :
    (∃ update later, collectKnowledge ports c desk = (.ok update, later) ∧
      Accounted .knowledge (knowledgeItem ports.services.redact) (knowledgeCalls ports c desk)
        update) ↔
    ∀ decision ∈ knowledgeCalls ports c desk, decision.allowed = true →
      ∃ hits, mappingsOf decision.result = .ok hits := by
  unfold collectKnowledge knowledgeCalls
  generalize callTool ports .knowledge "retrieve_knowledge" _ c.incidentId = call
  refine accounted_single rfl (fun decision hits hhits => ?_)
    (fun decision raised later hraised => ?_) fun result hits hhits => ?_
  · rw [keepChunks_eq]
    refine yields_bind (yields_fromExcept_ok hhits) fun _ h => ?_
    rw [h]
    exact yields_shows (fun hit => yields_isoNow ports) hits "no_hits" fun items =>
      "retrieved " ++ toString items.length ++ " chunks via RetrieveKnowledge"
  · rw [keepChunks_eq]
    exact bind_fromExcept_error hraised _ _
  · exact ⟨hits.map .obj, mappingsOf_ok.mp hhits, fun hit hhit => List.mem_map_of_mem hhit⟩

theorem callTool_toolName {identity : AgentIdentity} {toolName : String} {parameters : Fields}
    {incidentId : Uuid} {desk later : Desk World}
    (h : callTool ports identity toolName parameters incidentId desk = (.ok decision, later)) :
    decision.toolName = strip toolName := by
  obtain ⟨request, u, hrequest, h⟩ := bind_eq_ok.mp h
  obtain ⟨entryId, v, _, h⟩ := bind_eq_ok.mp h
  obtain ⟨now, w, _, h⟩ := bind_eq_ok.mp h
  have hname : request.toolName = strip toolName := by
    obtain ⟨hnew, _⟩ := fromExcept_eq_ok.mp hrequest
    have hnew := mapError_eq_ok hnew
    unfold ToolInvokeRequest.new at hnew
    split at hnew
    · cases hnew
    split at hnew
    · cases hnew
    split at hnew
    · cases hnew
    cases hnew
    rfl
  obtain ⟨_, hdecided, _⟩ := decide_names ports.services (ports.gateway.bind identity)
    (ports.denyAll w.gateway.world) w.gateway.cache request (classify request.toolName)
    w.gateway.world
  unfold invokeGateway InvokeTool.invoke at h
  dsimp only at h
  obtain ⟨hresult, _⟩ := Prod.mk.inj h
  have hinvoked := mapError_eq_ok hresult
  split at hinvoked
  · cases hinvoked
  · cases hinvoked
    exact hdecided.trans hname

theorem codeItem_eq_iff {redact : String → RedactionResult} {lower : String → String}
    {a b : Fields} {timestamp other : String} :
    codeItem redact lower timestamp a = codeItem redact lower other b ↔
      timestamp = other ∧ SameItem redact lower a b := by
  unfold SameItem codeItem
  simp only [Collected.code.injEq]
  tauto

section Code

variable {deploys found : GatewayDecision} {desk later : Desk World}

theorem kept_accounted_iff (first : deploys.toolName = "list_deploys")
    (second : found.toolName = "search_code") (allowed : found.allowed = true)
    {all : List Fields} {update : SpecialistUpdate}
    (hdeploys : ∃ deployed searched, mappingsOf deploys.result = .ok deployed ∧
      mappingsOf found.result = .ok searched ∧ all = deployed ++ searched)
    (shows_ : Shows .code (codeItem ports.services.redact ports.lower) found
      (dedupeCodeHits [] all) update) :
    Accounted .code (codeItem ports.services.redact ports.lower) [deploys, found] update ↔
      DeploysFound ports.services.redact ports.lower deploys.result found.result := by
  obtain ⟨deployed, searched, hdeployed, hsearched, rfl⟩ := hdeploys
  obtain ⟨seen, hkept⟩ := dedupeCodeHits_append [] deployed searched
  constructor
  · intro accounted
    refine ⟨deployed, searched, hdeployed, hsearched, fun deploy hdeploy => ?_⟩
    have hmem : deploy ∈ dedupeCodeHits [] (deployed ++ searched) := by
      rw [hkept]
      exact List.mem_append_left _ hdeploy
    obtain ⟨n, hn, hget⟩ := List.mem_iff_getElem.mp hmem
    have hlength := shows_.items.length_eq
    obtain ⟨timestamp, hitem⟩ := List.Forall₂.get shows_.items hn (by omega)
    obtain ⟨decision, hdecision, _, htool, _, values, hit, other, hvalues, hhit, hcontent⟩ :=
      accounted.sourced _ (List.getElem_mem (by omega : n < update.evidence.length))
    rw [List.get_eq_getElem, List.get_eq_getElem] at hitem
    rw [hitem] at htool hcontent
    dsimp only at htool hcontent
    rw [hget] at hcontent
    have hsearch : decision = found := by
      rcases List.mem_cons.mp hdecision with rfl | hlast
      · rw [first, second] at htool
        exact absurd htool (by decide)
      · exact List.mem_singleton.mp hlast
    rw [hsearch, mappingsOf_ok.mp hsearched] at hvalues
    cases hvalues
    obtain ⟨fields, hfields, hobj⟩ := List.mem_map.mp hhit
    cases hobj
    exact ⟨hit, hfields, (codeItem_eq_iff.mp hcontent).2⟩
  · rintro ⟨deployed', searched', hdeployed', hsearched', hfound⟩
    cases hdeployed.symm.trans hdeployed'
    cases hsearched.symm.trans hsearched'
    refine sourced_of_shows shows_ (by simp) allowed fun hit hhit => ?_
    refine ⟨searched.map .obj, ?_⟩
    have hmatch : ∃ hit' ∈ searched, SameItem ports.services.redact ports.lower hit hit' := by
      rw [hkept] at hhit
      rcases List.mem_append.mp hhit with hhit | hhit
      · exact hfound hit hhit
      · exact ⟨hit, mem_dedupeCodeHits hhit, rfl⟩
    obtain ⟨hit', hmem, hsame⟩ := hmatch
    exact ⟨hit', mappingsOf_ok.mp hsearched, List.mem_map_of_mem hmem,
      fun timestamp => codeItem_eq_iff.mpr ⟨rfl, hsame⟩⟩

end Code

/-- A collector of the code accounts for its evidence if it can read what its calls give, and its
deploys are found by the search. -/
theorem code_accounted_iff (ports : SpecialistPorts World) (c : Channels) (desk : Desk World) :
    (∃ update later, collectCode ports c desk = (.ok update, later) ∧
      Accounted .code (codeItem ports.services.redact ports.lower) (codeCalls ports c desk)
        update) ↔
    ∀ deploys hits, codeCalls ports c desk = [deploys, hits] → deploys.allowed = true →
      hits.allowed = true →
        DeploysFound ports.services.redact ports.lower deploys.result hits.result := by
  have refused : ∀ calls line, Accounted .code (codeItem ports.services.redact ports.lower) calls
      (failedUpdate .code line) := fun calls line => ⟨.inl ⟨rfl, rfl⟩, fun item hitem => by cases hitem⟩
  unfold collectCode codeCalls
  rw [bind_apply]
  unfold capture
  dsimp only
  rw [bind_apply]
  rcases hfirst : callTool ports .code "list_deploys" [("service", .str c.service)] c.incidentId
    desk with ⟨raised | deploys, second⟩
  · exact iff_of_true ⟨_, second, rfl, refused _ _⟩ (by simp)
  dsimp only
  rw [bind_apply]
  rcases hsecond : callTool ports .code "search_code" [("service", .str c.service),
    ("scenario", .str c.scenario)] c.incidentId second with ⟨raised | hits, later⟩
  · exact iff_of_true ⟨_, later, rfl, refused _ _⟩ (by simp)
  change (∃ update last, (if (deploys.allowed && hits.allowed) = true then
      keepHits ports c deploys hits
    else pure (failedUpdate .code ("denied: " ++
      (if deploys.allowed then hits.reason else deploys.reason)))) later = (.ok update, last) ∧ _) ↔ _
  by_cases hallowed : (deploys.allowed && hits.allowed) = true
  · rw [if_pos hallowed, keepHits_eq]
    obtain ⟨hdeploys, hhits⟩ := Bool.and_eq_true_iff.mp hallowed
    have hone : (∀ deploys' hits', [deploys, hits] = [deploys', hits'] → deploys'.allowed = true →
        hits'.allowed = true →
          DeploysFound ports.services.redact ports.lower deploys'.result hits'.result) ↔
        DeploysFound ports.services.redact ports.lower deploys.result hits.result := by
      constructor
      · exact fun h => h deploys hits rfl hdeploys hhits
      · rintro h deploys' hits' heq _ _
        obtain ⟨rfl, hrest⟩ := List.cons.inj heq
        obtain ⟨rfl, _⟩ := List.cons.inj hrest
        exact h
    rw [hone]
    cases hparse : hitsOf deploys.result hits.result with
    | error raised =>
      constructor
      · rintro ⟨update, last, hkeep, _⟩
        cases hkeep
      · rintro ⟨deployed, searched, hdeployed, hsearched, _⟩
        rw [hitsOf_ok.mpr ⟨deployed, searched, hdeployed, hsearched, rfl⟩] at hparse
        cases hparse
    | ok all =>
      have hyields := @yields_shows _ ports c .code (codeItem ports.services.redact ports.lower) hits
        (fun _ => isoNow ports) (fun _ => yields_isoNow ports) (dedupeCodeHits [] all) "empty"
        fun items => "collected " ++ toString items.length ++ " hits including deploy history"
      obtain ⟨update, last, hrun, hshows⟩ := hyields later
      have hlist : strip "list_deploys" = "list_deploys" := by decide +kernel
      have hsearch : strip "search_code" = "search_code" := by decide +kernel
      have hiff := kept_accounted_iff ((callTool_toolName hfirst).trans hlist)
        ((callTool_toolName hsecond).trans hsearch) hhits (hitsOf_ok.mp hparse) hshows
      rw [← hiff]
      constructor
      · rintro ⟨other, end_, hkeep, accounted⟩
        obtain ⟨hsame, _⟩ := Prod.mk.inj (hrun.symm.trans hkeep)
        cases hsame
        exact accounted
      · exact fun accounted => ⟨update, last, hrun, accounted⟩
  · rw [if_neg hallowed]
    refine iff_of_true ⟨_, later, rfl, refused _ _⟩ fun deploys' hits' heq hdeploys hhits => ?_
    obtain ⟨rfl, hrest⟩ := List.cons.inj heq
    obtain ⟨rfl, _⟩ := List.cons.inj hrest
    exact absurd (Bool.and_eq_true_iff.mpr ⟨hdeploys, hhits⟩) hallowed

end Shown

/-- Each collector returns a failed step or evidence, and evidence that shows the audited calls it
names: those of signals and of knowledge whenever they can read what the gateway gives them, that
of code when moreover the search finds the deploys that it keeps. -/
theorem evidence_provenance_iff {World : Type} (ports : SpecialistPorts World) (c : Channels)
    (desk : Desk World) :
    ((∃ update later, collectObservability ports c desk = (.ok update, later) ∧
      Accounted .observability (obsItem ports.services.redact) (observabilityCalls ports c desk)
        update) ↔
      ∀ decision ∈ observabilityCalls ports c desk, decision.allowed = true →
        ∃ hits, signalsOf decision.result = .ok hits) ∧
    ((∃ update later, collectKnowledge ports c desk = (.ok update, later) ∧
      Accounted .knowledge (knowledgeItem ports.services.redact) (knowledgeCalls ports c desk)
        update) ↔
      ∀ decision ∈ knowledgeCalls ports c desk, decision.allowed = true →
        ∃ hits, mappingsOf decision.result = .ok hits) ∧
    ((∃ update later, collectCode ports c desk = (.ok update, later) ∧
      Accounted .code (codeItem ports.services.redact ports.lower) (codeCalls ports c desk)
        update) ↔
      ∀ deploys hits, codeCalls ports c desk = [deploys, hits] → deploys.allowed = true →
        hits.allowed = true →
          DeploysFound ports.services.redact ports.lower deploys.result hits.result) :=
  ⟨observability_accounted_iff ports c desk, knowledge_accounted_iff ports c desk,
    code_accounted_iff ports c desk⟩

/-- The scripted ports with the two tools of the code specialist. -/
def codeTools : SpecialistPorts Script :=
  { scripted.toSpecialistPorts with
    gateway := { scripted.gateway with
      tools := fun name =>
        if name ∈ ["list_deploys", "search_code"] then some scriptedTool else none } }

def paymentChannels : Channels := { Channels.blank 10 with service := "payment", scenario := "latency" }

/-- A desk before a deploy is listed and a search finds nothing. -/
def deployedDesk : Desk Script where
  recorded := []
  gateway := ⟨⟨none, none⟩, [], ⟨0, 100, [], [.returned (.list [.obj [("service", .str "payment"),
    ("version", .str "2.8.1"), ("path", .str "services/payment/deployments.md"),
    ("summary", .str "last deploy of payment was 2.8.1")]]) false, .returned (.list []) false], []⟩⟩
  packs := []

/-- The deploy is kept as what the search found. -/
theorem deploy_named_as_search :
    ¬∃ update later, collectCode codeTools paymentChannels deployedDesk = (.ok update, later) ∧
      Accounted .code (codeItem codeTools.services.redact codeTools.lower)
        (codeCalls codeTools paymentChannels deployedDesk) update := by
  have hcalls : (codeCalls codeTools paymentChannels deployedDesk).map (fun decision =>
      (decision.allowed, (mappingsOf decision.result).toOption.map
        fun hits => (dedupeCodeHits [] hits).length)) = [(true, some 1), (true, some 0)] := by
    decide +kernel
  intro h
  have hfound := (code_accounted_iff codeTools paymentChannels deployedDesk).mp h
  obtain ⟨deploys, calls, hdeploys, hfirst, hcalls⟩ := List.map_eq_cons_iff.mp hcalls
  obtain ⟨hits, calls, rfl, hsecond, hcalls⟩ := List.map_eq_cons_iff.mp hcalls
  obtain rfl := List.map_eq_nil_iff.mp hcalls
  obtain ⟨hallowed, hdeployed⟩ := Prod.mk.inj hfirst
  obtain ⟨hallowed', hsearched⟩ := Prod.mk.inj hsecond
  obtain ⟨deployed, found, hdeployed', hfound', hkept⟩ :=
    hfound deploys hits hdeploys hallowed hallowed'
  rw [hdeployed'] at hdeployed
  rw [hfound'] at hsearched
  obtain rfl : found = [] :=
    dedupeCodeHits_eq_nil (List.length_eq_zero_iff.mp (Option.some.inj hsearched))
  obtain ⟨deploy, hdeploy⟩ := List.length_eq_one_iff.mp (Option.some.inj hdeployed)
  obtain ⟨hit, hhit, _⟩ := hkept deploy (by rw [hdeploy]; exact List.mem_singleton_self _)
  cases hhit

end Aegis
