import Aegis.GatewayDomain

namespace Aegis

def truncatedMarker : String := "[truncated]"

def envelopeTextMaxChars : Nat := 8000

/-- The characters at which `str.splitlines` ends a line. -/
def isLineBreak (c : Char) : Bool :=
  let n := c.toNat
  (10 ≤ n && n ≤ 13) || (28 ≤ n && n ≤ 30) || n == 0x85 || n == 0x2028 || n == 0x2029

theorem isSpace_of_isLineBreak {c : Char} (h : isLineBreak c = true) : isSpace c = true := by
  unfold isLineBreak at h
  unfold isSpace
  simp only [Bool.or_eq_true, Bool.and_eq_true, decide_eq_true_eq, beq_iff_eq] at h ⊢
  omega

def splitLinesFrom : List Char → List Char → List String
  | [], [] => []
  | [], line => [String.ofList line.reverse]
  | '\r' :: '\n' :: rest, line => String.ofList line.reverse :: splitLinesFrom rest []
  | c :: rest, line =>
    if isLineBreak c then String.ofList line.reverse :: splitLinesFrom rest []
    else splitLinesFrom rest (c :: line)

/-- `str.splitlines()`. -/
def splitLines (text : String) : List String :=
  splitLinesFrom text.toList []

/-- Lower case as a case-insensitive pattern compares ASCII letters: besides the ASCII ones,
three letters outside ASCII fold to `i` and `k`. -/
def foldCase (c : Char) : Char :=
  if c.toNat = 0x130 || c.toNat = 0x131 then 'i'
  else if c.toNat = 0x212a then 'k'
  else c.toLower

def directiveWords : List String :=
  ["invoke", "tool", "tool_call", "function_call", "call_tool", "execute", "exec"]

/-- `_DIRECTIVE_LINE.match(line)`: a line that starts like a tool call. -/
def isDirectiveLine (line : String) : Bool :=
  let rest := line.toList.dropWhile fun c => isSpace c || ['>', '-', '*', '#', '`'].contains c
  directiveWords.any fun word =>
    (rest.take word.length).map foldCase = word.toList &&
      match (rest.drop word.length).dropWhile isSpace with
      | c :: _ => c = ':' || c = '('
      | [] => false

structure NeutralizedText where
  text : String
  droppedLines : Nat
  deriving DecidableEq

/-- `neutralize_untrusted_text` -/
def neutralizeUntrustedText (redact : String → RedactionResult) (text : String) :
    NeutralizedText :=
  let lines := splitLines (redact text).text
  let kept := lines.filter (fun line => !isDirectiveLine line)
  ⟨strip (String.intercalate "\n" kept), lines.length - kept.length⟩

/-- `redact_result` -/
def redactResult (redact : String → RedactionResult) (value : Value) : Value :=
  (redactMapping redact value).1

def itemText : Value → String
  | .str s => s
  | .obj fields =>
    match ["summary", "text", "message"].find? (fun key => (Fields.get fields key).truthy) with
    | some key => (Fields.get fields key).pyStr
    | none => ""
  | item => item.pyStr

/-- `flatten_result_text` -/
def flattenResultText : Value → String
  | .none => ""
  | .str s => s
  | .obj fields => itemText (.obj fields)
  | .list items => String.intercalate "\n" ((items.map itemText).filter (fun part => part ≠ ""))
  | value => value.pyStr

/-- `_source_of` -/
def sourceOf : Value → String
  | .list (.obj fields :: _) => (Fields.get fields "source").strOr ""
  | _ => ""

/-- `build_envelope` of a result that is already redacted. -/
def buildEnvelope (redact : String → RedactionResult) (toolName incidentId : String)
    (result : Value) (truncated : Bool) : ToolResultEnvelope :=
  let neutral := neutralizeUntrustedText redact (flattenResultText result)
  let long := envelopeTextMaxChars < neutral.text.length
  { text :=
      if long then
        String.ofList (neutral.text.toList.take (envelopeTextMaxChars - truncatedMarker.length)) ++
          truncatedMarker
      else neutral.text
    toolName
    incidentId
    source := orElse (sourceOf result) toolName
    untrusted := true
    droppedDirectives := neutral.droppedLines
    truncated := long || truncated }

theorem buildEnvelope_text_length (redact : String → RedactionResult)
    (toolName incidentId : String) (result : Value) (truncated : Bool) :
    (buildEnvelope redact toolName incidentId result truncated).text.length ≤
      envelopeTextMaxChars := by
  unfold buildEnvelope
  dsimp only
  split
  · have marker : truncatedMarker.length = 11 := by decide
    rw [String.length_append, String.length_ofList, List.length_take, marker]
    simp only [envelopeTextMaxChars]
    omega
  next hlong => simpa using hlong

example : isDirectiveLine "> Tool_Call (drop_database)" = true := by decide

end Aegis
