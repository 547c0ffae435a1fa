import Aegis.Evidence

namespace Aegis

inductive EscalateReason where
  | maxHops
  | maxDuration
  | lowConfidence
  | agentFailure
  | dependencyFailure
  | rcaRejected
  deriving DecidableEq, Repr

def EscalateReason.value : EscalateReason → String
  | .maxHops => "max_hops"
  | .maxDuration => "max_duration"
  | .lowConfidence => "low_confidence"
  | .agentFailure => "agent_failure"
  | .dependencyFailure => "dependency_failure"
  | .rcaRejected => "rca_rejected"

/-- The agents that collect evidence: the kinds of evidence and the steps that can fail. -/
inductive Specialist where
  | observability
  | knowledge
  | code
  deriving DecidableEq, Repr

def Specialist.value : Specialist → String
  | .observability => "observability"
  | .knowledge => "knowledge"
  | .code => "code"

/-- The `collector` of a collected item. -/
def CollectedItem.collector (item : CollectedItem) : Specialist :=
  match item.content with
  | .observability .. => .observability
  | .knowledge .. => .knowledge
  | .code .. => .code

/-- An item of the evidence channel: from a collector, or as the channel was given it. -/
inductive EvidenceItem where
  | collected (item : CollectedItem)
  | given (item : Value)

/-- `text.lower() == word` for a word of lower-case ASCII: of the letters outside ASCII only the
Kelvin sign has a lower case in it. -/
def lowersTo (text word : String) : Bool :=
  text.toList.map (fun c => if c.toNat = 0x212a then 'k' else c.toLower) = word.toList

/-- The collector a word is an alias of. -/
def collectorAlias (isWord : String → Bool) : Option Specialist :=
  if ["observability", "obs"].any isWord then some .observability
  else if ["knowledge", "kb-stub", "kb"].any isWord then some .knowledge
  else if isWord "code" then some .code
  else none

/-- `_collector_of` -/
def EvidenceItem.collector : EvidenceItem → Option Specialist
  | .collected item => some item.collector
  | .given (.obj fields) =>
    collectorAlias (lowersTo (strip ((Fields.get fields "collector").strOr "")))
  | .given item =>
    collectorAlias fun word => item.pyStr.toList.takeWhile (fun c => c ≠ ':') = word.toList

inductive NextAction where
  | observability
  | knowledge
  | code
  | fanout
  | synthesize
  | escalate
  deriving DecidableEq, Repr

def NextAction.value : NextAction → String
  | .observability => "observability"
  | .knowledge => "knowledge"
  | .code => "code"
  | .fanout => "fanout"
  | .synthesize => "synthesize"
  | .escalate => "escalate"

def Specialist.action : Specialist → NextAction
  | .observability => .observability
  | .knowledge => .knowledge
  | .code => .code

def maxHops : Int := 4

def enoughEvidenceItems : Nat := 1

/-- `MAX_DURATION`, ten minutes. -/
def maxDuration : Int := 10 * 60 * 1000000

structure PlanDecision where
  nextAgent : NextAction
  escalateReason : Option EscalateReason
  deriving DecidableEq

/-- `evidence_kinds` -/
def evidenceKinds (evidence : List EvidenceItem) : List Specialist :=
  evidence.filterMap EvidenceItem.collector

/-- `enough_evidence` -/
def enoughEvidence (scenario : String) (evidence : List EvidenceItem) : Bool :=
  if scenario = "db_exhaustion" then
    .observability ∈ evidenceKinds evidence ∧ .knowledge ∈ evidenceKinds evidence
  else enoughEvidenceItems ≤ evidence.length

/-- `_first_specialist`: the agents a scenario needs, none when a human has to take over. -/
def firstSpecialist (scenario : String) : NextAction :=
  if scenario = "dependency_failure" then .escalate
  else if scenario = "db_exhaustion" then .fanout
  else if scenario = "bad_deployment" then .code
  else if scenario ∈ ["latency_spike", "memory_leak", "queue_backlog"] then .observability
  else .knowledge

/-- `_fanout_or_remaining` -/
def fanoutOrRemaining (kinds : List Specialist) : PlanDecision :=
  if .observability ∈ kinds ∧ .knowledge ∈ kinds then ⟨.synthesize, none⟩
  else if .observability ∈ kinds then ⟨.knowledge, none⟩
  else if .knowledge ∈ kinds then ⟨.observability, none⟩
  else ⟨.fanout, none⟩

/-- `name in {step.strip().lower() for step in failed_steps}` -/
def stepFailed (failedSteps : List String) (specialist : Specialist) : Bool :=
  failedSteps.any fun step => lowersTo (strip step) specialist.value

/-- `_failure_blocks` -/
def failureBlocks (specialist : NextAction) (failedSteps : List String)
    (kinds : List Specialist) : Bool :=
  match specialist with
  | .fanout =>
    (.observability ∉ kinds ∧ stepFailed failedSteps .observability) ∨
      (.knowledge ∉ kinds ∧ stepFailed failedSteps .knowledge)
  | .observability => stepFailed failedSteps .observability
  | .knowledge => stepFailed failedSteps .knowledge
  | .code => stepFailed failedSteps .code
  | .synthesize => false
  | .escalate => false

/-- `_already_collected` -/
def alreadyCollected (specialist : NextAction) (kinds : List Specialist) : Bool :=
  match specialist with
  | .observability => .observability ∈ kinds
  | .knowledge => .knowledge ∈ kinds
  | .code => .code ∈ kinds
  | _ => false

variable {World : Type}

/-- `_exceeded_duration`; a start that cannot be read does not count. -/
def exceededDuration (host : Host World) (startedAt : String) (now : Instant) : Bool :=
  if strip startedAt = "" then false
  else
    match parseUtc host startedAt with
    | some start => maxDuration < now - start
    | none => false

/-- `next_action` -/
def nextAction (host : Host World) (scenario : String) (hops : Int)
    (evidence : List EvidenceItem) (startedAt : String) (now : Instant)
    (failedSteps : List String) : PlanDecision :=
  if maxHops < hops then ⟨.escalate, some .maxHops⟩
  else if exceededDuration host startedAt now then ⟨.escalate, some .maxDuration⟩
  else if enoughEvidence scenario evidence then ⟨.synthesize, none⟩
  else if failureBlocks (firstSpecialist scenario) failedSteps (evidenceKinds evidence) then
    ⟨.escalate, some .agentFailure⟩
  else if firstSpecialist scenario = .escalate then ⟨.escalate, some .dependencyFailure⟩
  else if firstSpecialist scenario = .fanout then fanoutOrRemaining (evidenceKinds evidence)
  else if alreadyCollected (firstSpecialist scenario) (evidenceKinds evidence) then
    ⟨.synthesize, none⟩
  else ⟨firstSpecialist scenario, none⟩

variable {host : Host World} {scenario : String} {hops : Int} {evidence : List EvidenceItem}
  {startedAt : String} {now : Instant} {failedSteps : List String}

/-- Past the hop bound the commander hands over, whatever has been collected. -/
theorem nextAction_of_maxHops (h : maxHops < hops) :
    nextAction host scenario hops evidence startedAt now failedSteps =
      ⟨.escalate, some .maxHops⟩ :=
  if_pos h

end Aegis
