import Aegis.AuditChain
import Aegis.GatewayAuthority
import Aegis.Worker

namespace Aegis

variable {World : Type} {ports : SpecialistPorts World} {process : Process World}
  {request : StartRequest}

/-- The same process just after it was started. -/
def Process.renewed (process : Process World) : Process World :=
  { process with runner := Runner.new }

/-- The run reads, decides, collects and ends as it would in a new process; only the audit log
that it appends to may differ. -/
structure BehavesFresh (ports : SpecialistPorts World) (process : Process World)
    (request : StartRequest) : Prop where
  run : (process.investigate ports request).1 = (process.renewed.investigate ports request).1
  desk : SameView (process.investigate ports request).2
    (process.renewed.investigate ports request).2

/-- Nothing that a run reads is left from an earlier one, but for the time it started. -/
structure KeptNothing (runner : Runner) (incidentId : Uuid) : Prop where
  recorded : runner.recorded = []
  evidence : (runner.thread incidentId).1.evidence = []
  failedSteps : (runner.thread incidentId).1.failedSteps = []
  escalateReason : (runner.thread incidentId).1.escalateReason = ""
  title : (runner.thread incidentId).1.title = ""
  rca : (runner.thread incidentId).1.rca = none

/-- The clock as the intake of a run reads it. -/
def Process.startText (ports : SpecialistPorts World) (process : Process World) : String :=
  isoformat (ports.now process.world).1

structure LeftNothing (ports : SpecialistPorts World) (process : Process World)
    (incidentId : Uuid) : Prop extends KeptNothing process.runner incidentId where
  startedAt : (process.runner.thread incidentId).1.startedAt = "" ∨
    (process.runner.thread incidentId).1.startedAt = process.startText ports

/-- Nothing that a run reads is left from an earlier one. -/
structure Untouched (runner : Runner) (incidentId : Uuid) : Prop
    extends KeptNothing runner incidentId where
  startedAt : (runner.thread incidentId).1.startedAt = ""

theorem untouched_of_no_thread {runner : Runner} {incidentId : Uuid}
    (recorded : runner.recorded = []) (thread : runner.threads incidentId = none) :
    Untouched runner incidentId := by
  have hblank : runner.thread incidentId = (Channels.blank incidentId, []) := by
    unfold Runner.thread
    rw [thread]
    rfl
  refine ⟨⟨recorded, ?_, ?_, ?_, ?_, ?_⟩, ?_⟩ <;> rw [hblank] <;> rfl

theorem leftNothing_of_untouched (h : Untouched process.runner request.incidentId) :
    LeftNothing ports process request.incidentId :=
  ⟨h.toKeptNothing, .inl h.startedAt⟩

theorem started_eq_blank_iff {old : Channels} {now : String} :
    (mergeInput old request).started now =
        (mergeInput (Channels.blank request.incidentId) request).started now ↔
      old.evidence = [] ∧ old.failedSteps = [] ∧ old.escalateReason = "" ∧ old.title = "" ∧
        old.rca = none ∧ (old.startedAt = "" ∨ old.startedAt = now) := by
  have start : orElse old.startedAt now = orElse "" now ↔
      old.startedAt = "" ∨ old.startedAt = now := by
    unfold orElse
    by_cases h : old.startedAt = "" <;> simp [h]
  rw [← start]
  constructor
  · intro h
    have hevidence : old.evidence ++ [] = [] := congrArg Channels.evidence h
    have hfailed : old.failedSteps ++ [] = [] := congrArg Channels.failedSteps h
    exact ⟨by simpa using hevidence, by simpa using hfailed, congrArg Channels.escalateReason h,
      congrArg Channels.title h, congrArg Channels.rca h, congrArg Channels.startedAt h⟩
  · rintro ⟨hevidence, hfailed, hreason, htitle, hrca, hstart⟩
    simp only [mergeInput, Channels.append, Channels.started, Channels.blank, hevidence, hfailed,
      hreason, htitle, hrca, hstart]

theorem leftNothing_of_behavesFresh (h : BehavesFresh ports process request) :
    LeftNothing ports process request.incidentId := by
  have hreads := congrArg (fun run => run.reads.head?) h.run
  dsimp only [Process.investigate] at hreads
  rw [runGraph_reads, runGraph_reads] at hreads
  obtain ⟨hchannels, hrecorded⟩ := Prod.mk.inj (Option.some.inj hreads)
  obtain ⟨hevidence, hfailed, hreason, htitle, hrca, hstart⟩ := started_eq_blank_iff.mp hchannels
  exact ⟨⟨hrecorded, hevidence, hfailed, hreason, htitle, hrca⟩, hstart⟩

theorem behavesFresh_of_leftNothing (h : LeftNothing ports process request.incidentId) :
    BehavesFresh ports process request := by
  have hchannels := (@started_eq_blank_iff request _ (process.startText ports)).mpr
    ⟨h.evidence, h.failedSteps, h.escalateReason, h.title, h.rca, h.startedAt⟩
  have hsame : SameView process.desk process.renewed.desk := ⟨h.recorded, rfl, rfl, rfl⟩
  obtain ⟨hrun, hdesk⟩ := @runGraph_alike _ ports _ _
    (mergeInput (process.runner.thread request.incidentId).1 request) hsame
  have hgraph := @runGraph_of_started _ ports _ _ process.renewed.desk hchannels
  constructor
  · unfold Process.investigate
    rw [hrun, hgraph]
    rfl
  · unfold Process.investigate
    rw [hgraph] at hdesk
    exact hdesk

/-- The input leaves out `evidence`, `failed_steps`, `started_at`, `escalate_reason`, `title` and
`rca`, so the next attempt reads whatever the thread and the bucket hold of them. -/
theorem restart_fresh_iff (ports : SpecialistPorts World) (process : Process World)
    (request : StartRequest) :
    BehavesFresh ports process request ↔ LeftNothing ports process request.incidentId :=
  ⟨leftNothing_of_behavesFresh, behavesFresh_of_leftNothing⟩

/-- A world that follows a script: the time, the next id, and the answers still to come of the
database, the tools and the language model. -/
structure Script where
  time : Instant
  nextId : Nat
  statements : List Bool
  outcomes : List ToolOutcome
  answers : List (Except Raised LlmJsonResult)

def hexValue (c : Char) : Nat :=
  if c ≤ '9' then c.toNat - 48 else c.toNat - 87

/-- `UUID(..)` on the form that `str` gives. -/
def readUuid (text : String) : Option Uuid :=
  let digits := text.toList.filter fun c => c ≠ '-'
  if digits.length = 32 && digits.all isHexDigit then
    some (BitVec.ofNat 128 (digits.foldl (fun n c => 16 * n + hexValue c) 0))
  else none

def readNat (digits : List Char) : Nat :=
  digits.foldl (fun n c => 10 * n + hexValue c) 0

/-- `datetime.fromisoformat` on the first day. -/
def readFirstDay (text : String) : Option Instant :=
  let chars := text.toList
  let part from_ count := readNat ((chars.drop from_).take count)
  if "1970-01-01T".toList.isPrefixOf chars then
    some (((part 11 2 * 60 + part 14 2) * 60 + part 17 2) * 1000000 +
      if (chars.drop 19).head? = some '.' then part 20 6 else 0)
  else none

/-- Validation of a citation whose fields are texts. -/
def readCitation : Value → Option RcaCitationSchema
  | .obj fields =>
    match Fields.get fields "evidence_id", Fields.get fields "source",
        Fields.get fields "relevance" with
    | .str id, .str source, .str relevance =>
      if h : source ≠ "" ∧ relevance ≠ "" then
        (readUuid id).map fun id => ⟨id, source, relevance, h.1, h.2⟩
      else none
    | _, _, _ => none
  | _ => none

/-- Validation of an answer that leaves out the lists of texts and is sure of its finding. -/
def readRca (raw : Fields) : Except String RcaOutputSchema :=
  match Fields.get raw "summary", Fields.get raw "root_cause",
      Fields.get raw "evidence_citations" with
  | .str summary, .str rootCause, .list citations =>
    if h : summary ≠ "" ∧ rootCause ≠ "" then
      .ok ⟨summary, rootCause, [], 9 / 10, .confirmed, citations.filterMap readCitation, [], h.1,
        h.2, by norm_num⟩
    else .error "String should have at least 1 character"
  | _, _, _ => .error "Field required"

def scriptedTool : ToolFn Script := fun _ world =>
  (world.outcomes.headD .raised, { world with outcomes := world.outcomes.tail })

/-- The ports of a worker in a scripted world. -/
def scripted : WorkerPorts Script where
  services := ⟨idDigest, fun text => ⟨text, 0⟩⟩
  lower text := String.ofList (text.toList.map Char.toLower)
  fromIsoformat := readFirstDay
  now world := (world.time, world)
  uuid4 world := (BitVec.ofNat 128 world.nextId, { world with nextId := world.nextId + 1 })
  completeJson _ _ world :=
    (world.answers.headD (.error (.other "connection refused")),
      { world with answers := world.answers.tail })
  schemaText := ""
  modelValidate := readRca
  uuid5 _ := BitVec.ofNat 128 (5 * 2 ^ 76 + 2 ^ 63)
  gateway := {
    tools := fun name =>
      if name ∈ ["fetch_signals", "retrieve_knowledge"] then some scriptedTool else none
    policyRules := none
    boundAgentId := none
    rateLimiter := ⟨defaultRateLimits, ⟨fun _ world => (some true, world)⟩⟩ }
  denyAll _ := false
  fanoutSwaps world := (false, world)
  stepOrder world := (.written, world)
  statement world :=
    (world.statements.headD true, { world with statements := world.statements.tail })
  parseUuid := readUuid

/-- An open incident with the given fingerprint. -/
def openIncident (id : Uuid) (fingerprint : RequiredText) : Incident :=
  { raceIncident with id, state := .open, stateHistory := [], updatedAt := 0, fingerprint }

def openedEvent (id : Uuid) : DomainEvent := ⟨"opened", incidentOpenedV1, "1", "", id.str⟩

def dependencyFingerprint : RequiredText :=
  ⟨"checkout|calls|dependency_failure", by decide, by decide⟩

/-- A worker that was just started, with open incidents. -/
def openWorker (incidents : List Incident) (world : Script) : Worker Script where
  db := {
    incidents
    inbox := []
    evidence := []
    auditLog := []
    rcaReports := []
    progress := []
    notifications := []
    policyRules := seedReadRules }
  process := ⟨Runner.new, ⟨none, none⟩, world⟩

def latencyFingerprint : RequiredText :=
  ⟨"checkout|p95|latency_spike", by decide, by decide⟩

/-- What `fetch_signals` returns of one log line. -/
def slowSignal : ToolOutcome :=
  .returned (.list [.obj [("kind", .str "log"), ("summary", .str "slow")]]) false

/-- An answer that cites one evidence id. -/
def citing (evidenceId : Uuid) : Except Raised LlmJsonResult :=
  .ok ⟨[("summary", .str "slow queries"), ("root_cause", .str "missing index"),
    ("evidence_citations", .list [.obj [("evidence_id", .str evidenceId.str),
      ("source", .str "simulator"), ("relevance", .str "latency")]])], "model", 1, 1⟩

/-- The graph runs, and then the progress row cannot be written. -/
def abortedAttempt : Handling Script :=
  deliver scripted (openedEvent 10) (openWorker [openIncident 10 dependencyFingerprint]
    ⟨0, 100, [true, true, true, true, false], [], []⟩)

/-- The process of the aborted attempt eleven minutes and forty seconds later. -/
def laterProcess : Process Script :=
  { abortedAttempt.worker.process with world := ⟨700000000, 200, [], [], []⟩ }

/-- The second attempt is escalated for the time since the first. -/
theorem redelivery_escalates_for_duration :
    let request := startRequest scripted (openedEvent 10) (openIncident 10 dependencyFingerprint)
    abortedAttempt.ended.isCommitted = false ∧
      (laterProcess.investigate scripted.toSpecialistPorts request).1.checkpoint.escalateReason =
        "max_duration" ∧
      ¬BehavesFresh scripted.toSpecialistPorts laterProcess request := by
  have aborted : abortedAttempt.ended.isCommitted = false := by decide +kernel
  have second : (laterProcess.investigate scripted.toSpecialistPorts (startRequest scripted
      (openedEvent 10) (openIncident 10 dependencyFingerprint))).1.checkpoint.escalateReason =
      "max_duration" := by decide +kernel
  have fresh : (laterProcess.renewed.investigate scripted.toSpecialistPorts (startRequest scripted
      (openedEvent 10) (openIncident 10 dependencyFingerprint))).1.checkpoint.escalateReason =
      "dependency_failure" := by decide +kernel
  refine ⟨aborted, second, fun h => ?_⟩
  rw [h.run, fresh] at second
  exact absurd second (by decide)

end Aegis
