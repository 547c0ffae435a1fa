import Aegis.Ensuring
import Aegis.RunEnd

namespace Aegis

open Raising Proc

/-- The collector whose items are recorded under a source. -/
def EvidenceSource.collector : EvidenceSource → Option Specialist
  | .simulator => some .observability
  | .retrieve => some .knowledge
  | .code => some .code
  | .manual => none

/-- How many items a specialist returned, and whether the recorder kept them. -/
structure Batch where
  specialist : Specialist
  items : Nat
  kept : Bool
  deriving DecidableEq

/-- One superstep of specialists: their batches in the order in which the updates merge.
`swapped` tells that the threads recorded them the other way around. -/
structure Superstep where
  batches : List Batch
  swapped : Bool
  deriving DecidableEq

/-- The kinds of the items of a batch, one by one. -/
def Batch.kinds (batch : Batch) : List Specialist :=
  List.replicate batch.items batch.specialist

/-- The kinds of the rows of a batch: the recorder keeps all of a batch or nothing. -/
def Batch.rows (batch : Batch) : List Specialist :=
  if batch.kept then batch.kinds else []

def Superstep.recording (step : Superstep) : List Batch :=
  if step.swapped then step.batches.reverse else step.batches

/-- What the pack of a run can draw on: the evidence that the thread of the incident holds when the
run starts, the rows left over in the bucket, and what the specialists of the run gather. -/
structure Gathering where
  given : List EvidenceItem
  leftover : List Evidence
  steps : List Superstep

/-- The batches of a run in the order of its evidence. -/
def Gathering.batches (gathering : Gathering) : List Batch :=
  gathering.steps.flatMap Superstep.batches

/-- The batches of a run in the order in which they were recorded. -/
def Gathering.recording (gathering : Gathering) : List Batch :=
  gathering.steps.flatMap Superstep.recording

section Steps

variable {World : Type} (ports : SpecialistPorts World)

def collectorOf (c : Channels) : Specialist → Proc (Desk World) Raised SpecialistUpdate
  | .observability => collectObservability ports c
  | .knowledge => collectKnowledge ports c
  | .code => collectCode ports c

/-- The batch of one specialist, with the desk it leaves. -/
def batchOf (c : Channels) (specialist : Specialist) (desk : Desk World) : Batch × Desk World :=
  match collectorOf ports c specialist desk with
  | (.ok update, later) =>
    (⟨specialist, update.evidence.length, desk.recorded.length < later.recorded.length⟩, later)
  | (.error _, later) => (⟨specialist, 0, false⟩, later)

def fanoutStep (c : Channels) (desk : Desk World) : Superstep :=
  let started := (onWorld (draw ports.fanoutSwaps) desk).2
  if (ports.fanoutSwaps desk.gateway.world).1 then
    let chunks := batchOf ports c .knowledge started
    ⟨[(batchOf ports c .observability chunks.2).1, chunks.1], true⟩
  else
    let signals := batchOf ports c .observability started
    ⟨[signals.1, (batchOf ports c .knowledge signals.2).1], false⟩

/-- The specialists that a node runs. -/
def superstep (c : Channels) (desk : Desk World) : NextAction → Superstep
  | .observability => ⟨[(batchOf ports c .observability desk).1], false⟩
  | .knowledge => ⟨[(batchOf ports c .knowledge desk).1], false⟩
  | .code => ⟨[(batchOf ports c .code desk).1], false⟩
  | .fanout => fanoutStep ports c desk
  | .synthesize => ⟨[], false⟩
  | .escalate => ⟨[], false⟩

/-- What is gathered before the last visit of the commander. -/
def gathered : Nat → Channels → Desk World → List Superstep
  | 0, _, _ => []
  | visits + 1, c, desk =>
    match hop ports c desk with
    | .settled _ _ => []
    | .goesOn next _ _ later =>
      superstep ports (afterVisit ports (c, desk)).1 (afterVisit ports (c, desk)).2
        (visitDecision ports (c, desk)).nextAgent :: gathered visits next later

/-- What the run for a request gathers. -/
def Process.gathering (process : Process World) (request : StartRequest) : Gathering where
  given := (process.runner.thread request.incidentId).1.evidence
  leftover := process.runner.recorded
  steps :=
    match intake ports (mergeInput (process.runner.thread request.incidentId).1 request)
        process.desk with
    | (.error _, _) => []
    | (.ok (started, _), later) => gathered ports commanderVisits started later

end Steps

section Collecting

variable {World : Type} {ports : SpecialistPorts World} {incidentId : Uuid} {c : Channels}
  {old : List Evidence}

theorem evidence_new_source {id incidentId : Uuid} {source : EvidenceSource} {kind : EvidenceKind}
    {contentRef summary : String} {metadata : Fields} {collectedAt : Instant} {row : Evidence}
    (h : Evidence.new id incidentId source kind contentRef summary metadata collectedAt = .ok row) :
    row.source = source := by
  unfold Evidence.new at h
  cases href : requireText contentRef "content_ref" with
  | error raised =>
    rw [href] at h
    cases h
  | ok text =>
    rw [href] at h
    cases h
    rfl

theorem mintEvidence_source {host : Host World} {source : EvidenceSource} {kind : EvidenceKind}
    {contentRef summary : String} {metadata : Fields} {timestamp : String} :
    Returns (mintEvidence host incidentId source kind contentRef summary metadata timestamp)
      fun row => row.source = source := by
  intro s row t h
  obtain ⟨id, u, _, h⟩ := bind_eq_ok.mp h
  obtain ⟨collectedAt, v, _, h⟩ := bind_eq_ok.mp h
  obtain ⟨built, w, hbuilt, hrow⟩ := bind_eq_ok.mp h
  obtain ⟨hnew, _⟩ := fromExcept_eq_ok.mp hbuilt
  obtain ⟨hprepared, _⟩ := fromExcept_eq_ok.mp hrow
  exact (evidence_new_source hprepared).trans (evidence_new_source hnew)

theorem evidenceFromCollectedItem_source {host : Host World} (item : CollectedItem) :
    Returns (evidenceFromCollectedItem host incidentId item)
      fun row => row.source.collector = some item.collector := by
  obtain ⟨content, toolName, auditId⟩ := item
  intro s row t h
  cases content with
  | observability => exact congrArg EvidenceSource.collector (mintEvidence_source _ _ _ h)
  | knowledge => exact congrArg EvidenceSource.collector (mintEvidence_source _ _ _ h)
  | code => exact congrArg EvidenceSource.collector (mintEvidence_source _ _ _ h)

/-- The rows of a batch, one for every item, are of the kinds of its items. -/
theorem recordCollected_collectors {host : Host World} (items : List CollectedItem) :
    Returns (recordCollected host incidentId items) fun rows =>
      rows.map (fun row => row.source.collector) =
        items.map fun item => some item.collector := by
  unfold recordCollected
  induction items with
  | nil =>
    intro s rows t h
    cases h
    rfl
  | cons item rest ih =>
    intro s rows t h
    obtain ⟨row, u, hrow, h⟩ := bind_eq_ok.mp h
    obtain ⟨others, v, hothers, h⟩ := bind_eq_ok.mp h
    cases h
    rw [List.map_cons, List.map_cons, ih _ _ _ hothers,
      evidenceFromCollectedItem_source item _ _ _ hrow]

/-- The bucket is as it was. -/
def HoldsRows (old : List Evidence) (desk : Desk World) : Prop := desk.recorded = old

theorem holds_fromExcept {Value : Type} (x : Except Raised Value) :
    Ensures (HoldsRows old) (fromExcept x : Proc (Desk World) Raised Value)
      (fun _ => HoldsRows old) (fun _ => True) :=
  ensures_fromExcept (fun _ _ _ h => h) fun _ _ => trivial

def SameRows (desk later : Desk World) : Prop := later.recorded = desk.recorded

theorem sameRows_refl (desk : Desk World) : SameRows desk desk := rfl

theorem sameRows_bind {Value Result : Type} {p : Proc (Desk World) Raised Value}
    {f : Value → Proc (Desk World) Raised Result} (first : Leaves SameRows p)
    (second : ∀ a, Leaves SameRows (f a)) : Leaves SameRows (p >>= f) :=
  leaves_bind (fun _ _ _ h h' => Eq.trans h' h) first second

theorem sameRows_onWorld {Value : Type} (p : Proc World Raised Value) :
    Leaves SameRows (onWorld p) := leaves_within fun _ _ => rfl

theorem sameRows_invokeGateway (gateway : InvokeTool World) (entryId : Uuid) (now : Instant)
    (request : ToolInvokeRequest) :
    Leaves SameRows (invokeGateway ports gateway entryId now request) := by
  intro desk
  unfold invokeGateway SameRows
  rfl

theorem sameRows_callTool (identity : AgentIdentity) (toolName : String) (parameters : Fields) :
    Leaves SameRows (callTool ports identity toolName parameters incidentId) := by
  refine sameRows_bind (leaves_fromExcept sameRows_refl _) fun request => ?_
  refine sameRows_bind (sameRows_onWorld _) fun entryId => ?_
  exact sameRows_bind (sameRows_onWorld _) fun now => sameRows_invokeGateway _ _ _ _

theorem holds_of_sameRows {Value : Type} {p : Proc (Desk World) Raised Value}
    (h : Leaves SameRows p) :
    Ensures (HoldsRows old) p (fun _ => HoldsRows old) (fun _ => True) := by
  intro desk hold
  refine ⟨fun a later hp => ?_, fun _ _ _ => trivial⟩
  have hsame : SameRows desk later := leaves_eq h hp
  exact hsame.trans hold

/-- A specialist's update, and the rows of its items after those that were there: all or none. -/
structure KeptRows (specialist : Specialist) (old : List Evidence) (update : SpecialistUpdate)
    (later : Desk World) : Prop where
  own : ∀ item ∈ update.evidence, item.collector = specialist
  rows : ∃ rows, later.recorded = old ++ rows ∧
    (rows = [] ∨ rows.map (fun row => row.source.collector) =
      update.evidence.map fun item => some item.collector)

theorem kept_failedUpdate {specialist : Specialist} {desk : Desk World} (line : String)
    (h : HoldsRows old desk) : KeptRows specialist old (failedUpdate specialist line) desk := by
  refine ⟨fun item hitem => (by cases hitem), [], ?_, .inl rfl⟩
  rw [List.append_nil]
  exact h

theorem recordItems_kept (items : List CollectedItem) :
    Ensures (HoldsRows old) (recordItems ports incidentId items)
      (fun _ later => ∃ rows, later.recorded = old ++ rows ∧
        (rows = [] ∨ rows.map (fun row => row.source.collector) =
          items.map fun item => some item.collector)) (fun _ => True) := by
  refine ensures_attempt (fun desk h => ⟨?_, ?_⟩) fun _ => ensures_pure fun _ h => h
  · intro _ later hok
    obtain ⟨rows, middle, hrows, hupdate⟩ := bind_eq_ok.mp hok
    obtain ⟨world, hrecorded, rfl⟩ := within_eq_ok.mp hrows
    cases hupdate
    exact ⟨rows, congrArg (· ++ rows) h, .inr (recordCollected_collectors items _ _ _ hrecorded)⟩
  · intro raised later herror
    rcases bind_eq_error.mp herror with hrows | ⟨rows, middle, _, hupdate⟩
    · have hsame : SameRows desk later := leaves_eq (sameRows_onWorld _) hrows
      exact ⟨[], by rw [List.append_nil]; exact hsame.trans h, .inl rfl⟩
    · cases hupdate

theorem keepItems_kept {specialist : Specialist} {items : List CollectedItem}
    (own : ∀ item ∈ items, item.collector = specialist) (emptyReason line : String) :
    Ensures (HoldsRows old) (keepItems ports specialist incidentId items emptyReason line)
      (KeptRows specialist old) (fun _ => True) := by
  unfold keepItems
  split
  · exact ensures_pure fun desk h => kept_failedUpdate _ h
  · exact ensures_bind (recordItems_kept items) fun _ =>
      ensures_pure fun desk h => ⟨own, h⟩

theorem itemsOf_each {time : Fields → Proc World Raised String}
    {item : String → Fields → Collected} {shape : Collected → Prop}
    (each : ∀ timestamp hit, shape (item timestamp hit)) (hits : List Fields) :
    Returns (itemsOf time item hits) fun items => ∀ content ∈ items, shape content := by
  unfold itemsOf onWorld
  refine returns_within (returns_mapEach (fun hit => returns_bind fun timestamp => ?_) hits)
  intro s content t h
  cases h
  exact each timestamp hit

theorem itemsOf_own {time : Fields → Proc World Raised String}
    {item : String → Fields → Collected} {specialist : Specialist}
    (own : ∀ timestamp hit tool auditId,
      CollectedItem.collector ⟨item timestamp hit, tool, auditId⟩ = specialist)
    (hits : List Fields) :
    Ensures (HoldsRows old) (itemsOf time item hits)
      (fun contents later => HoldsRows old later ∧
        ∀ content ∈ contents, ∀ tool auditId,
          CollectedItem.collector ⟨content, tool, auditId⟩ = specialist)
      (fun _ => True) := by
  intro desk hold
  refine ⟨fun contents later h => ⟨?_, ?_⟩, fun _ _ _ => trivial⟩
  · exact (holds_of_sameRows (sameRows_onWorld _) desk hold).1 _ _ h
  · exact itemsOf_each own hits _ _ _ h

/-- The end of a collector: what it has is kept, or it was denied. -/
theorem ifAllowed_kept {specialist : Specialist} {allowed : Bool} {line : String}
    {keep : Proc (Desk World) Raised SpecialistUpdate}
    (kept : Ensures (HoldsRows old) keep (KeptRows specialist old) fun _ => True) :
    Ensures (HoldsRows old) (if allowed then keep else pure (failedUpdate specialist line))
      (KeptRows specialist old) (fun _ => True) := by
  split
  · exact kept
  · exact ensures_pure fun desk h => kept_failedUpdate _ h

theorem collectObservability_kept :
    Ensures (HoldsRows old) (collectObservability ports c) (KeptRows .observability old)
      (fun _ => True) := by
  refine ensures_bind (holds_of_sameRows (leaves_capture (sameRows_callTool _ _ _)))
    fun called => ?_
  split
  · exact ensures_pure fun desk h => kept_failedUpdate _ h
  next decision =>
    refine ifAllowed_kept (ensures_bind (holds_fromExcept _) fun _ =>
      ensures_bind (holds_fromExcept _) fun hits =>
        ensures_bind (itemsOf_own (fun _ _ _ _ => rfl) hits) fun contents desk h => ?_)
    exact keepItems_kept (tagged_collector h.2) _ _ desk h.1

theorem collectKnowledge_kept :
    Ensures (HoldsRows old) (collectKnowledge ports c) (KeptRows .knowledge old)
      (fun _ => True) := by
  refine ensures_bind (holds_of_sameRows (leaves_capture (sameRows_callTool _ _ _)))
    fun called => ?_
  split
  · exact ensures_pure fun desk h => kept_failedUpdate _ h
  next decision =>
    refine ifAllowed_kept (ensures_bind (holds_fromExcept _) fun _ =>
      ensures_bind (holds_fromExcept _) fun hits =>
        ensures_bind (itemsOf_own (fun _ _ _ _ => rfl) hits) fun contents desk h => ?_)
    exact keepItems_kept (tagged_collector h.2) _ _ desk h.1

theorem collectCode_kept :
    Ensures (HoldsRows old) (collectCode ports c) (KeptRows .code old) (fun _ => True) := by
  have calls : Leaves SameRows (do
      let deploys ← callTool ports .code "list_deploys" [("service", .str c.service)] c.incidentId
      let hits ← callTool ports .code "search_code"
        [("service", .str c.service), ("scenario", .str c.scenario)] c.incidentId
      pure (deploys, hits)) :=
    sameRows_bind (sameRows_callTool _ _ _) fun _ =>
      sameRows_bind (sameRows_callTool _ _ _) fun _ => leaves_pure sameRows_refl _
  refine ensures_bind (holds_of_sameRows (leaves_capture calls)) fun called => ?_
  split
  · exact ensures_pure fun desk h => kept_failedUpdate _ h
  next deploys hits =>
    refine ifAllowed_kept (ensures_bind (holds_fromExcept _) fun _ =>
      ensures_bind (holds_fromExcept _) fun _ => ensures_bind (holds_fromExcept _) fun all =>
        ensures_bind (itemsOf_own (fun _ _ _ _ => rfl) _) fun contents desk h => ?_)
    exact keepItems_kept (tagged_collector h.2) _ _ desk h.1

theorem collectorOf_kept (specialist : Specialist) :
    Ensures (HoldsRows old) (collectorOf ports c specialist) (KeptRows specialist old)
      (fun _ => True) := by
  cases specialist with
  | observability => exact collectObservability_kept
  | knowledge => exact collectKnowledge_kept
  | code => exact collectCode_kept

end Collecting

/-- What supersteps add to the evidence and to the bucket. -/
structure AddsRows {World : Type} (steps : List Superstep) (c : Channels) (desk : Desk World)
    (next : Channels) (later : Desk World) : Prop where
  evidence : ∃ items : List CollectedItem, next.evidence = c.evidence ++ items.map .collected ∧
    items.map CollectedItem.collector =
      steps.flatMap fun step => step.batches.flatMap Batch.kinds
  recorded : ∃ rows : List Evidence, later.recorded = desk.recorded ++ rows ∧
    rows.map (fun row => row.source.collector) =
      (steps.flatMap fun step => step.recording.flatMap Batch.rows).map some

section AddsRows

variable {World : Type} {ports : SpecialistPorts World} {c next last : Channels}
  {desk later end_ : Desk World} {steps rest : List Superstep}

theorem adds_nil (c : Channels) (desk : Desk World) : AddsRows [] c desk c desk :=
  ⟨⟨[], by rw [List.map_nil, List.append_nil], rfl⟩, ⟨[], by rw [List.append_nil], rfl⟩⟩

theorem AddsRows.append (h : AddsRows steps c desk next later)
    (h' : AddsRows rest next later last end_) :
    AddsRows (steps ++ rest) c desk last end_ := by
  obtain ⟨⟨items, hitems, hkinds⟩, rows, hrows, hsources⟩ := h
  obtain ⟨⟨items', hitems', hkinds'⟩, rows', hrows', hsources'⟩ := h'
  refine ⟨⟨items ++ items', ?_, ?_⟩, rows ++ rows', ?_, ?_⟩
  · rw [hitems', hitems, List.map_append, List.append_assoc]
  · rw [List.map_append, hkinds, hkinds', List.flatMap_append]
  · rw [hrows', hrows, List.append_assoc]
  · rw [List.map_append, hsources, hsources', List.flatMap_append, List.map_append]

theorem map_const_of_forall {Item Label : Type} {label : Item → Label} {value : Label}
    {items : List Item} (h : ∀ item ∈ items, label item = value) :
    items.map label = List.replicate items.length value :=
  List.eq_replicate_iff.mpr ⟨List.length_map _, fun b hb => by
    obtain ⟨item, hitem, rfl⟩ := List.mem_map.mp hb
    exact h item hitem⟩

/-- A batch says what its specialist added. -/
theorem batchOf_ok {specialist : Specialist} {update : SpecialistUpdate}
    (h : collectorOf ports c specialist desk = (.ok update, later)) :
    ∃ batch, batchOf ports c specialist desk = (batch, later) ∧
      update.evidence.map CollectedItem.collector = batch.kinds ∧
      ∃ rows, later.recorded = desk.recorded ++ rows ∧
        rows.map (fun row => row.source.collector) = batch.rows.map some := by
  obtain ⟨own, rows, hrows, hkept⟩ := (collectorOf_kept specialist desk rfl).1 _ _ h
  have hkinds := map_const_of_forall own
  unfold batchOf
  rw [h]
  refine ⟨_, rfl, hkinds, rows, hrows, ?_⟩
  unfold Batch.rows
  dsimp only
  rw [hrows, List.length_append]
  cases rows with
  | nil => simp
  | cons row rest =>
    have hall := hkept.resolve_left (List.cons_ne_nil _ _)
    rw [hall, if_pos (decide_eq_true (by rw [List.length_cons]; omega))]
    change _ = (List.replicate update.evidence.length specialist).map some
    rw [← hkinds, List.map_map]
    rfl

theorem adds_one {specialist : Specialist} {lines : List String}
    (h : collectOne c (fun c => collectorOf ports c specialist) desk = (.ok (next, lines), later)) :
    AddsRows [⟨[(batchOf ports c specialist desk).1], false⟩] c desk next later := by
  obtain ⟨update, _, hupdate, h⟩ := bind_eq_ok.mp h
  cases h
  obtain ⟨batch, hbatch, hkinds, rows, hrows, hsources⟩ := batchOf_ok hupdate
  rw [hbatch]
  refine ⟨⟨update.evidence, rfl, ?_⟩, rows, hrows, ?_⟩
  · simpa using hkinds
  · simpa [Superstep.recording] using hsources

/-- The updates merge as signals and chunks, whichever thread recorded first. -/
theorem adds_fanout {lines : List String} (h : fanout ports c desk = (.ok (next, lines), later)) :
    AddsRows [fanoutStep ports c desk] c desk next later := by
  obtain ⟨swaps, started, hswaps, h⟩ := bind_eq_ok.mp h
  obtain ⟨⟨signals, chunks⟩, _, hboth, h⟩ := bind_eq_ok.mp h
  cases h
  cases hswaps
  unfold fanoutStep
  dsimp only
  change collectBoth ports c (ports.fanoutSwaps desk.gateway.world).1
    (onWorld (draw ports.fanoutSwaps) desk).2 = _ at hboth
  have hstarted : (onWorld (draw ports.fanoutSwaps) desk).2.recorded = desk.recorded := rfl
  generalize (onWorld (draw ports.fanoutSwaps) desk).2 = started at hboth hstarted ⊢
  generalize (ports.fanoutSwaps desk.gateway.world).1 = swaps at hboth ⊢
  cases swaps with
  | true =>
    obtain ⟨_, middle, hchunks, hboth⟩ := bind_eq_ok.mp hboth
    obtain ⟨_, _, hsignals, hboth⟩ := bind_eq_ok.mp hboth
    cases hboth
    obtain ⟨second, hsecond, hkinds', rows', hrows', hsources'⟩ :=
      @batchOf_ok _ _ _ _ _ .knowledge _ hchunks
    obtain ⟨first, hfirst, hkinds, rows, hrows, hsources⟩ :=
      @batchOf_ok _ _ _ _ _ .observability _ hsignals
    rw [if_pos rfl, hsecond, hfirst]
    refine ⟨⟨signals.evidence ++ chunks.evidence, ?_, ?_⟩, rows' ++ rows, ?_, ?_⟩
    · simp [Channels.append]
    · simp [hkinds, hkinds']
    · rw [hrows, hrows', hstarted, List.append_assoc]
    · simp [Superstep.recording, hsources, hsources']
  | false =>
    obtain ⟨_, middle, hsignals, hboth⟩ := bind_eq_ok.mp hboth
    obtain ⟨_, _, hchunks, hboth⟩ := bind_eq_ok.mp hboth
    cases hboth
    obtain ⟨first, hfirst, hkinds, rows, hrows, hsources⟩ :=
      @batchOf_ok _ _ _ _ _ .observability _ hsignals
    obtain ⟨second, hsecond, hkinds', rows', hrows', hsources'⟩ :=
      @batchOf_ok _ _ _ _ _ .knowledge _ hchunks
    rw [if_neg Bool.false_ne_true, hfirst, hsecond]
    refine ⟨⟨signals.evidence ++ chunks.evidence, ?_, ?_⟩, rows ++ rows', ?_, ?_⟩
    · simp [Channels.append]
    · simp [hkinds, hkinds']
    · rw [hrows', hrows, hstarted, List.append_assoc]
    · simp [Superstep.recording, hsources, hsources']

theorem adds_runNode {action : NextAction} {lines : List String}
    (h : runNode ports c action desk = (.ok (next, lines), later)) (more : ¬action.isLast) :
    AddsRows [superstep ports c desk action] c desk next later := by
  cases action with
  | observability => exact @adds_one _ _ _ _ _ _ .observability _ h
  | knowledge => exact @adds_one _ _ _ _ _ _ .knowledge _ h
  | code => exact @adds_one _ _ _ _ _ _ .code _ h
  | fanout => exact adds_fanout h
  | synthesize => exact absurd (.inl rfl) more
  | escalate => exact absurd (.inr rfl) more

theorem adds_hop {reads : List (Channels × List Evidence)} {lines : List String}
    (h : hop ports c desk = .goesOn next reads lines later) :
    AddsRows [superstep ports (afterVisit ports (c, desk)).1 (afterVisit ports (c, desk)).2
      (visitDecision ports (c, desk)).nextAgent] c desk next later := by
  obtain ⟨routedLines, hcommander⟩ := commander_visit ports (c, desk)
  unfold hop at h
  rw [hcommander] at h
  dsimp only at h
  change (match runNode ports _ (visitDecision ports (c, desk)).nextAgent _ with
    | (.error raised, later) => _
    | (.ok (next, nodeLines), later) => _) = _ at h
  split at h
  · cases h
  next next' nodeLines later' hnode =>
    have hadds := @adds_runNode _ ports _ _ _ _ _ _ hnode
    split at h
    · cases h
    · cases h
    next hescalate hsynthesize =>
      cases h
      obtain ⟨hevidence, hrecorded⟩ := hadds fun hlast => hlast.elim hsynthesize hescalate
      exact ⟨hevidence, hrecorded⟩

/-- What a run has gathered is what the last visit of the commander finds more. -/
theorem adds_gathered {visits : Nat} {visit : Channels × Desk World}
    (h : lastVisit ports visits c desk = some visit) :
    AddsRows (gathered ports visits c desk) c desk visit.1 visit.2 := by
  induction visits generalizing c desk with
  | zero => cases h
  | succ visits ih =>
    unfold lastVisit at h
    unfold gathered
    cases hhop : hop ports c desk with
    | settled run later =>
      rw [hhop] at h
      cases h
      exact adds_nil _ _
    | goesOn next reads lines later =>
      rw [hhop] at h
      exact (adds_hop hhop).append (ih h)

theorem adds_gathering {process : Process World} {request : StartRequest}
    {visit : Channels × Desk World} (h : process.lastVisit ports request = some visit) :
    AddsRows (process.gathering ports request).steps (process.runner.thread request.incidentId).1
      process.desk visit.1 visit.2 := by
  unfold Process.lastVisit at h
  unfold Process.gathering
  rcases hintake : intake ports (mergeInput (process.runner.thread request.incidentId).1 request)
      process.desk with ⟨raised | ⟨started, lines⟩, later⟩
  · rw [hintake] at h
    cases h
  rw [hintake] at h
  dsimp only at h ⊢
  obtain ⟨⟨items, hitems, hkinds⟩, rows, hrows, hsources⟩ := adds_gathered h
  rw [intake_apply] at hintake
  cases hintake
  refine ⟨⟨items, hitems.trans ?_, hkinds⟩, rows, hrows, hsources⟩
  simp [Channels.started, mergeInput, Channels.append]

end AddsRows

end Aegis
