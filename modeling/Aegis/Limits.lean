import Aegis.InvokeTool
import Aegis.Rca

namespace Aegis

/-- `ToolLimits`, without the hosts, which are checked when a port is set up. -/
structure ToolLimits where
  maxOutputBytes : Nat
  maxParamBytes : Nat

mutual

/-- `json.dumps(value, separators=(",", ":"))` -/
def Value.compact : Value → String
  | .none => "null"
  | .bool b => if b then "true" else "false"
  | .int n => toString n
  | .float repr => repr.text
  | .str s => quoteUntrusted s
  | .list items => "[" ++ String.intercalate "," (compactItems items) ++ "]"
  | .obj fields => "\x7b" ++ String.intercalate "," (compactFields fields) ++ "\x7d"

def compactItems : List Value → List String
  | [] => []
  | item :: rest => item.compact :: compactItems rest

def compactFields : List (String × Value) → List String
  | [] => []
  | (key, value) :: rest => (quoteUntrusted key ++ ":" ++ value.compact) :: compactFields rest

end

theorem compactItems_eq (items : List Value) : compactItems items = items.map Value.compact := by
  induction items with
  | nil => rfl
  | cons item rest ih => rw [compactItems, List.map_cons, ih]

/-- `_size` -/
def Value.size (value : Value) : Nat := value.compact.utf8ByteSize

/-- `text.encode("utf-8")[:budget].decode("utf-8", errors="ignore")` -/
def takeBytes : Nat → List Char → List Char
  | _, [] => []
  | budget, c :: rest =>
    if c.utf8Size ≤ budget then c :: takeBytes (budget - c.utf8Size) rest else []

/-- `_truncate_text` -/
def truncateText (text : String) (maxBytes : Nat) : String :=
  String.ofList (takeBytes (maxBytes - truncatedMarker.utf8ByteSize) text.toList) ++ truncatedMarker

/-- The loop of `cap_output` over the items of a list. -/
def capItems (maxBytes : Nat) : List Value → List Value → List Value
  | kept, [] => kept
  | kept, item :: rest =>
    if maxBytes < (Value.list (kept ++ [item])).size then kept
    else capItems maxBytes (kept ++ [item]) rest

/-- A value with whether it is a `CappedList`, whose attribute `truncated` is true. -/
structure Capped where
  value : Value
  truncated : Bool

/-- `cap_output`, with the text of its `ValidationError`. -/
def capOutput (maxBytes : Nat) (value : Value) : Except String Capped :=
  if value.size ≤ maxBytes then .ok ⟨value, false⟩
  else
    match value with
    | .str text => .ok ⟨.str (truncateText text maxBytes), false⟩
    | .list items =>
      let kept := capItems maxBytes [] items
      if kept.isEmpty then .error "denied:output_too_large" else .ok ⟨.list kept, true⟩
    | _ => .error "denied:output_too_large"

/-- `_BreakerState` -/
structure BreakerState where
  failures : Nat
  openedUntil : ℚ

/-- `CircuitBreaker`, without the states it keeps. The clock and the cooldown are floats, and
`addSeconds` is the sum of two of them, which the machine rounds. -/
structure CircuitBreaker where
  threshold : Nat
  cooldownSeconds : ℚ
  addSeconds : ℚ → ℚ → ℚ

section Breaker

variable (breaker : CircuitBreaker) (states : Dict BreakerState) (key : String) (now : ℚ)

/-- `allow` -/
def CircuitBreaker.allow : Bool :=
  match states.lookup key with
  | none => true
  | some state => if state.failures < breaker.threshold then true else state.openedUntil ≤ now

/-- `record_success` -/
def recordSuccess : Dict BreakerState := states.pop key

/-- `record_failure` -/
def CircuitBreaker.recordFailure : Dict BreakerState :=
  let state := (states.lookup key).getD ⟨0, 0⟩
  let failures := state.failures + 1
  states.set key ⟨failures,
    if breaker.threshold ≤ failures then breaker.addSeconds now breaker.cooldownSeconds
    else state.openedUntil⟩

end Breaker

def toolDependency : Dict String :=
  [("fetch_signals", "simulator"), ("retrieve_knowledge", "opensearch"), ("search_code", "code"),
    ("list_deploys", "code")]

/-- How a wrapped function ends: with a result in time, too late, or with an exception. -/
inductive Attempt where
  | result (raw : Value)
  | late
  | validationError (text : String)
  | raised

/-- `run_with_timeout` -/
def runWithTimeout : Attempt → ToolOutcome
  | .result raw => .returned raw false
  | .late => .validationError "denied:timeout"
  | .validationError text => .validationError text
  | .raised => .raised

/-- The arguments of `harden_tool` about the tool itself. -/
structure HardenedTool where
  toolName : String
  limits : ToolLimits
  allowedParams : Option (List String)
  dependency : Option String

/-- The `key` of `harden_tool`. -/
def HardenedTool.key (tool : HardenedTool) : String :=
  orElse (tool.dependency.getD "") ((toolDependency.lookup tool.toolName).getD tool.toolName)

/-- `_check_params`, with the text of its `ValidationError`. -/
def HardenedTool.checkParams (tool : HardenedTool) (params : Fields) : Except String Unit :=
  if (tool.allowedParams.elim false fun allowed => params.any fun field => field.1 ∉ allowed) then
    .error "denied:invalid_params"
  else if tool.limits.maxParamBytes < (Value.obj params).size then
    .error "denied:payload_too_large"
  else .ok ()

/-- What the hardened runners of a process share, around the world of the wrapped functions. -/
structure ToolEdge (World : Type) where
  states : Dict BreakerState
  world : World

/-- What one run of a hardened runner leaves, with whether it called the wrapped function. -/
structure HardenedRun (World : Type) where
  outcome : ToolOutcome
  edge : ToolEdge World
  reached : Bool

section Harden

variable {World : Type} (redact : String → RedactionResult) (clock : World → ℚ)
  (breaker : CircuitBreaker) (tool : HardenedTool) (fn : Fields → World → Attempt × World)

/-- The end of `run`, on what came of the wrapped function. -/
def HardenedTool.settle (states : Dict BreakerState) (now : ℚ) :
    ToolOutcome → ToolOutcome × Dict BreakerState
  | .validationError text =>
    (.validationError text,
      if text = "denied:timeout" then breaker.recordFailure states tool.key now else states)
  | .raised =>
    (.validationError "denied:dependency_unavailable", breaker.recordFailure states tool.key now)
  | .returned raw _ =>
    (match capOutput tool.limits.maxOutputBytes (redactResult redact raw) with
      | .error text => .validationError text
      | .ok capped => .returned capped.value capped.truncated,
      recordSuccess states tool.key)

/-- `run` of `harden_tool`. -/
def HardenedTool.run (params : Fields) (edge : ToolEdge World) : HardenedRun World :=
  match tool.checkParams params with
  | .error text => ⟨.validationError text, edge, false⟩
  | .ok () =>
    if breaker.allow edge.states tool.key (clock edge.world) then
      let attempt := fn params edge.world
      let settled := tool.settle redact breaker edge.states (clock attempt.2)
        (runWithTimeout attempt.1)
      ⟨settled.1, ⟨settled.2, attempt.2⟩, true⟩
    else ⟨.validationError "denied:dependency_unavailable", edge, false⟩

/-- `harden_tool` -/
def hardenTool : ToolFn (ToolEdge World) := fun params edge =>
  let ran := tool.run redact clock breaker fn params edge
  (ran.outcome, ran.edge)

end Harden

end Aegis
