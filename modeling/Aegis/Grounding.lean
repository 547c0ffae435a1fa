import Aegis.Rca

namespace Aegis

open Raising Proc

variable {World : Type}

/-- The answer of a call of the model as the three stages of one attempt accept it: schema,
citation check and the constructor of the report. -/
def accepted (host : RcaHost World) (packIds : List Uuid) (answer : Except Raised LlmJsonResult) :
    Option RcaOutputSchema :=
  match answer with
  | .error _ => none
  | .ok result =>
    match parseRcaOutput host result.data packIds with
    | .error _ => none
    | .ok parsed =>
      if strip parsed.summary = "" ∨ strip parsed.rootCause = "" ∨ strip result.modelId = "" then
        none
      else some parsed

/-- The model raises nothing but a `ValidationError`, `TypeError` or `ValueError` in this call. -/
def Caught (answer : Except Raised LlmJsonResult) : Prop :=
  ∀ text, answer ≠ .error (.other text)

theorem caught_ok (result : LlmJsonResult) : Caught (.ok result) := by
  intro text h
  cases h

theorem caught_invalid (text : String) : Caught (.error (.invalid text)) := by
  intro other h
  cases h

/-- The call of the model that an attempt makes in a world. -/
def RcaHost.call (host : RcaHost World) (prompt : RcaPrompt) (world : World) :
    Except Raised LlmJsonResult :=
  (host.completeJson prompt.system prompt.user world).1

/-- The same host in a world that counts the calls of the model. -/
def RcaHost.counted (host : RcaHost World) : RcaHost (World × Nat) where
  services := host.services
  lower := host.lower
  fromIsoformat := host.fromIsoformat
  now world := ((host.now world.1).1, ((host.now world.1).2, world.2))
  uuid4 world := ((host.uuid4 world.1).1, ((host.uuid4 world.1).2, world.2))
  completeJson system user world :=
    let called := host.completeJson system user world.1
    (called.1, (called.2, world.2 + 1))
  schemaText := host.schemaText
  modelValidate := host.modelValidate
  uuid5 := host.uuid5
  parseUuid := host.parseUuid

/-- What `generate_rca` makes of the first answer that is accepted. -/
structure Classified (packIds : List Uuid) (answer : Option RcaOutputSchema)
    (generation : RcaGeneration) : Prop where
  pending : (generation.outcome = "pending_review" ∧ generation.escalateReason = none ∧
      generation.report.isSome) ↔
    ∃ parsed, answer = some parsed ∧ confidenceThreshold ≤ parsed.confidence
  unsure : ∀ parsed, answer = some parsed → parsed.confidence < confidenceThreshold →
    generation.outcome = "escalated" ∧ generation.escalateReason = some .lowConfidence ∧
      ∃ report, generation.report = some report ∧ report.findingStatus = .hypothesis
  failed : answer = none → generation.outcome = "escalated" ∧
    generation.escalateReason = some .agentFailure ∧ generation.report = none
  grounded : ∀ report, generation.report = some report → report.citations ≠ [] ∧
    ∀ citation ∈ report.citations, citation.evidenceId ∈ packIds

section Attempts

variable {host : RcaHost World} {incidentId : Uuid} {prompt : RcaPrompt} {number : Nat}
  {world later : World} {result : LlmJsonResult}

theorem requireText_ok {value fieldName : String} (h : strip value ≠ "") :
    ∃ text, requireText value fieldName = .ok text := by
  unfold requireText
  rw [dif_neg h]
  exact ⟨_, rfl⟩

theorem requireText_error {value fieldName : String} (h : strip value = "") :
    requireText value fieldName = .error (.invalid (fieldName ++ " must not be empty.")) := by
  unfold requireText
  rw [dif_pos h]

/-- The constructor decides by the three texts alone once the confidence is in its range and
something is cited. -/
theorem rcaReport_new_cases {id incidentId : Uuid} {versionKind : RcaVersionKind}
    {summary rootCause : String} {factors : List String} {confidence : ℚ}
    {finding : RcaFindingStatus} {review : RcaReviewStatus} {citations : List RcaCitation}
    {actions : List String} {modelId : String} {inputTokens outputTokens : Int}
    {createdAt : Instant} (hrange : 0 ≤ confidence ∧ confidence ≤ 1) (hcited : citations ≠ []) :
    ((strip summary = "" ∨ strip rootCause = "" ∨ strip modelId = "") ∧ ∃ text,
      RcaReport.new id incidentId 1 versionKind summary rootCause factors confidence finding review
        citations actions modelId inputTokens outputTokens createdAt = .error (.invalid text)) ∨
    (¬(strip summary = "" ∨ strip rootCause = "" ∨ strip modelId = "") ∧ ∃ report,
      RcaReport.new id incidentId 1 versionKind summary rootCause factors confidence finding review
        citations actions modelId inputTokens outputTokens createdAt = .ok report ∧
      report.confidence = confidence ∧ report.findingStatus = finding ∧
      report.citations = citations) := by
  unfold RcaReport.new
  rw [dif_neg (not_not.mpr hrange), dif_neg (by omega), dif_neg hcited]
  by_cases hsummary : strip summary = ""
  · rw [requireText_error hsummary]
    exact .inl ⟨.inl hsummary, _, rfl⟩
  obtain ⟨summaryText, hsummaryText⟩ := @requireText_ok _ "summary" hsummary
  rw [hsummaryText]
  by_cases hcause : strip rootCause = ""
  · rw [requireText_error hcause]
    exact .inl ⟨.inr (.inl hcause), _, rfl⟩
  obtain ⟨causeText, hcauseText⟩ := @requireText_ok _ "root_cause" hcause
  rw [hcauseText]
  by_cases hmodel : strip modelId = ""
  · rw [requireText_error hmodel]
    exact .inl ⟨.inr (.inr hmodel), _, rfl⟩
  obtain ⟨modelText, hmodelText⟩ := @requireText_ok _ "model_id" hmodel
  rw [hmodelText]
  exact .inr ⟨by simp [hsummary, hcause, hmodel], _, rfl, rfl, rfl, rfl⟩

theorem parseRcaOutput_error {raw : Fields} {allowedIds : List Uuid} {raised : Raised}
    (h : parseRcaOutput host raw allowedIds = .error raised) : ∃ text, raised = .invalid text := by
  unfold parseRcaOutput at h
  split at h
  · cases h
    exact ⟨_, rfl⟩
  dsimp only at h
  split at h
  · cases h
    exact ⟨_, rfl⟩
  split at h
  · cases h
  · cases h
    exact ⟨_, rfl⟩

theorem parseRcaOutput_cites {raw : Fields} {allowedIds : List Uuid} {parsed : RcaOutputSchema}
    (h : parseRcaOutput host raw allowedIds = .ok parsed) : parsed.evidenceCitations ≠ [] := by
  unfold parseRcaOutput at h
  split at h
  · cases h
  dsimp only at h
  split at h
  · cases h
  next hcites =>
    split at h
    · cases h
      simpa using hcites
    · cases h

theorem generateOnce_of_call_error {raised : Raised}
    (h : host.completeJson prompt.system prompt.user world = (.error raised, later)) :
    generateOnce host incidentId prompt number world = (.error raised, later) :=
  bind_of_error h

theorem generateOnce_of_call_ok
    (h : host.completeJson prompt.system prompt.user world = (.ok result, later)) :
    (accepted host prompt.packIds (.ok result) = none ∧ ∃ text after,
      generateOnce host incidentId prompt number world = (.error (.invalid text), after)) ∨
    ∃ parsed report after, accepted host prompt.packIds (.ok result) = some parsed ∧
      generateOnce host incidentId prompt number world =
        (.ok (generationOf prompt number report), after) ∧
      report.confidence = parsed.confidence ∧
      (parsed.confidence < confidenceThreshold → report.findingStatus = .hypothesis) ∧
      ∀ citation ∈ report.citations, citation.evidenceId ∈ prompt.packIds := by
  unfold generateOnce accepted
  rw [bind_of_ok h]
  dsimp only
  cases hparse : parseRcaOutput host result.data prompt.packIds with
  | error raised =>
    obtain ⟨text, rfl⟩ := parseRcaOutput_error hparse
    exact .inl ⟨rfl, text, later, rfl⟩
  | ok parsed =>
    have hcited : (parsed.evidenceCitations.map fun item =>
        RcaCitation.new item.evidenceId item.source item.relevance) ≠ [] := by
      simpa using parseRcaOutput_cites hparse
    have hnew := fun id createdAt => @rcaReport_new_cases id incidentId .original parsed.summary
      parsed.rootCause parsed.contributingFactors parsed.confidence
      (if parsed.confidence < confidenceThreshold then .hypothesis else parsed.status)
      .pendingReview _ parsed.recommendedActions result.modelId result.inputTokens
      result.outputTokens createdAt parsed.confidence_range hcited
    rcases hnew (host.uuid4 later).1 (host.now (host.uuid4 later).2).1 with
      ⟨hempty, text, hreport⟩ | ⟨hfull, report, hreport, hconfidence, hfinding, hcitations⟩
    · refine .inl ⟨if_pos hempty, text, (host.now (host.uuid4 later).2).2, ?_⟩
      change (toReport host incidentId parsed result >>= _) later = _
      refine bind_of_error ?_
      change fromExcept (RcaReport.new (host.uuid4 later).1 incidentId 1 .original parsed.summary
        parsed.rootCause parsed.contributingFactors parsed.confidence _ .pendingReview _
        parsed.recommendedActions result.modelId result.inputTokens result.outputTokens
        (host.now (host.uuid4 later).2).1) (host.now (host.uuid4 later).2).2 = _
      rw [hreport]
      rfl
    · refine .inr ⟨parsed, report, (host.now (host.uuid4 later).2).2, if_neg hfull, ?_, hconfidence,
        fun hlow => by rw [hfinding, if_pos hlow], fun citation hcitation => ?_⟩
      · change (toReport host incidentId parsed result >>= _) later = _
        refine bind_of_ok ?_
        change fromExcept (RcaReport.new (host.uuid4 later).1 incidentId 1 .original parsed.summary
          parsed.rootCause parsed.contributingFactors parsed.confidence _ .pendingReview _
          parsed.recommendedActions result.modelId result.inputTokens result.outputTokens
          (host.now (host.uuid4 later).2).1) (host.now (host.uuid4 later).2).2 = _
        rw [hreport]
        rfl
      · rw [hcitations] at hcitation
        obtain ⟨item, hitem, rfl⟩ := List.mem_map.mp hcitation
        exact parseRcaOutput_ok hparse item hitem

/-- The report of an accepted answer. -/
structure ReportOf (packIds : List Uuid) (parsed : RcaOutputSchema) (report : RcaReport) : Prop where
  confidence : report.confidence = parsed.confidence
  unsure : parsed.confidence < confidenceThreshold → report.findingStatus = .hypothesis
  cites : ∀ citation ∈ report.citations, citation.evidenceId ∈ packIds

/-- One attempt: an exception that is not caught, an answer that is not accepted, or a report. -/
theorem generateAttempts_cons (host : RcaHost World) (incidentId : Uuid) (prompt : RcaPrompt)
    (number : Nat) (rest : List Nat) (lastError : String) (world : World) :
    (¬Caught (host.call prompt world) ∧ ∃ text later,
        generateAttempts host incidentId prompt (number :: rest) lastError world =
          (.error (.other text), later)) ∨
      (Caught (host.call prompt world) ∧
        accepted host prompt.packIds (host.call prompt world) = none ∧ ∃ text,
        generateAttempts host incidentId prompt (number :: rest) lastError world =
          generateAttempts host incidentId prompt rest text
            (generateOnce host incidentId prompt number world).2) ∨
      ∃ parsed report later, Caught (host.call prompt world) ∧
        accepted host prompt.packIds (host.call prompt world) = some parsed ∧
        generateAttempts host incidentId prompt (number :: rest) lastError world =
          (.ok (generationOf prompt number report), later) ∧
        ReportOf prompt.packIds parsed report := by
  have hcons : generateAttempts host incidentId prompt (number :: rest) lastError world =
      match generateOnce host incidentId prompt number world with
      | (.ok generation, later) => (.ok generation, later)
      | (.error (.invalid text), later) => generateAttempts host incidentId prompt rest text later
      | (.error (.other text), later) => (.error (.other text), later) := by
    unfold generateAttempts attempt
    rcases generateOnce host incidentId prompt number world with ⟨(text | text) | _, _⟩ <;>
      first | rfl | (cases rest <;> rfl)
  rw [hcons]
  rcases hcall : host.completeJson prompt.system prompt.user world with ⟨raised | result, later⟩
  · have hanswer : host.call prompt world = .error raised := congrArg Prod.fst hcall
    rw [@generateOnce_of_call_error _ _ incidentId _ number _ _ _ hcall, hanswer]
    cases raised with
    | invalid text => exact .inr (.inl ⟨caught_invalid text, rfl, text, rfl⟩)
    | other text => exact .inl ⟨fun h => h text rfl, text, later, rfl⟩
  · have hanswer : host.call prompt world = .ok result := congrArg Prod.fst hcall
    rw [hanswer]
    rcases @generateOnce_of_call_ok _ _ incidentId _ number _ _ _ hcall with
      ⟨hnone, text, after, honce⟩ | ⟨parsed, report, after, hsome, honce, hconfidence, hunsure, hcites⟩
    · rw [honce]
      exact .inr (.inl ⟨caught_ok result, hnone, text, rfl⟩)
    · rw [honce]
      exact .inr (.inr ⟨parsed, report, after, caught_ok result, hsome, rfl, hconfidence, hunsure,
        hcites⟩)

end Attempts

section Generation

variable {host : RcaHost World} {incidentId : Uuid} {prompt : RcaPrompt}

theorem classified_of_report {packIds : List Uuid} {parsed : RcaOutputSchema} {report : RcaReport}
    (h : ReportOf packIds parsed report) (number : Nat) :
    Classified packIds (some parsed) (generationOf prompt number report) := by
  have hreport : (generationOf prompt number report).report = some report := by
    unfold generationOf
    split <;> rfl
  refine ⟨?_, fun other hother hlow => ?_, by simp, fun other hother => ?_⟩
  · unfold generationOf
    rw [h.confidence]
    by_cases hlow : parsed.confidence < confidenceThreshold
    · rw [if_pos hlow]
      refine iff_of_false (by simp) ?_
      rintro ⟨other, hother, hhigh⟩
      cases hother
      exact absurd hhigh (not_le.mpr hlow)
    · rw [if_neg hlow]
      exact iff_of_true ⟨rfl, rfl, rfl⟩ ⟨parsed, rfl, not_lt.mp hlow⟩
  · cases hother
    refine ⟨?_, ?_, report, hreport, h.unsure hlow⟩
    · unfold generationOf
      rw [h.confidence, if_pos hlow]
    · unfold generationOf
      rw [h.confidence, if_pos hlow]
  · rw [hreport] at hother
    cases hother
    exact ⟨report.cited, h.cites⟩

theorem classified_of_failure (packIds : List Uuid) (lastError : String) :
    Classified packIds none
      ⟨"escalated", some .agentFailure, none, .error lastError, 2, prompt⟩ :=
  ⟨iff_of_false (by simp) (by simp), by simp, fun _ => ⟨rfl, rfl, rfl⟩, by simp⟩

/-- The answers the model gives to the attempts of `generate_rca`; the second is what it would
answer after the first attempt. -/
def RcaHost.answers (host : RcaHost World) (incidentId : Uuid) (prompt : RcaPrompt)
    (world : World) : Except Raised LlmJsonResult × Except Raised LlmJsonResult :=
  (host.call prompt world,
    host.call prompt (generateOnce host incidentId prompt 1 world).2)

/-- The first answer that is accepted. -/
def firstAccepted (host : RcaHost World) (packIds : List Uuid)
    (answers : Except Raised LlmJsonResult × Except Raised LlmJsonResult) : Option RcaOutputSchema :=
  (accepted host packIds answers.1).or (accepted host packIds answers.2)

/-- The calls that are made raise nothing that the attempts do not catch. -/
def CallsCaught (host : RcaHost World) (packIds : List Uuid)
    (answers : Except Raised LlmJsonResult × Except Raised LlmJsonResult) : Prop :=
  Caught answers.1 ∧ (accepted host packIds answers.1 = none → Caught answers.2)

/-- The two attempts classify the answers, unless an exception gets out. -/
theorem generateAttempts_both (host : RcaHost World) (incidentId : Uuid) (prompt : RcaPrompt)
    (lastError : String) (world : World) :
    (CallsCaught host prompt.packIds (host.answers incidentId prompt world) ∧
        ∃ generation later,
          generateAttempts host incidentId prompt [1, 2] lastError world = (.ok generation, later) ∧
          Classified prompt.packIds
            (firstAccepted host prompt.packIds (host.answers incidentId prompt world)) generation) ∨
      (¬CallsCaught host prompt.packIds (host.answers incidentId prompt world) ∧
        ∃ text later, generateAttempts host incidentId prompt [1, 2] lastError world =
          (.error (.other text), later)) := by
  unfold CallsCaught firstAccepted RcaHost.answers
  dsimp only
  rcases generateAttempts_cons host incidentId prompt 1 [2] lastError world with
    ⟨hstray, text, later, hrun⟩ | ⟨hcaught, hnone, text, hrun⟩ |
    ⟨parsed, report, later, hcaught, hsome, hrun, hreport⟩
  · exact .inr ⟨fun h => hstray h.1, text, later, hrun⟩
  · rw [hrun, hnone]
    generalize (generateOnce host incidentId prompt 1 world).2 = after
    rcases generateAttempts_cons host incidentId prompt 2 [] text after with
      ⟨hstray, text', later, hrun'⟩ | ⟨hcaught', hnone', text', hrun'⟩ |
      ⟨parsed, report, later, hcaught', hsome, hrun', hreport⟩
    · exact .inr ⟨fun h => hstray (h.2 rfl), text', later, hrun'⟩
    · rw [hnone']
      exact .inl ⟨⟨hcaught, fun _ => hcaught'⟩, _, _, hrun', classified_of_failure _ _⟩
    · rw [hsome]
      exact .inl ⟨⟨hcaught, fun _ => hcaught'⟩, _, _, hrun', classified_of_report hreport 2⟩
  · rw [hsome]
    exact .inl ⟨⟨hcaught, by simp⟩, _, _, hrun, classified_of_report hreport 1⟩

/-- With a pack that is not empty the prompt is assembled, and carries the ids of the pack. -/
theorem generateRca_attempts (host : RcaHost World) (incidentId : Uuid) (service scenario : String)
    {pack : List EvidencePackItem} (hpack : pack ≠ []) :
    ∃ prompt, assembleRcaPrompt host incidentId service scenario pack = .ok prompt ∧
      prompt.packIds = pack.map EvidencePackItem.evidenceId ∧
      generateRca host incidentId service scenario pack =
        generateAttempts host incidentId prompt [1, 2] "RCA generation failed." := by
  unfold generateRca
  cases hprompt : assembleRcaPrompt host incidentId service scenario pack with
  | error raised =>
    unfold assembleRcaPrompt assemblePrompt at hprompt
    rw [if_neg (by simpa using hpack)] at hprompt
    cases hprompt
  | ok prompt =>
    refine ⟨prompt, rfl, ?_, rfl⟩
    unfold assembleRcaPrompt assemblePrompt at hprompt
    rw [if_neg (by simpa using hpack)] at hprompt
    cases hprompt
    rfl

theorem toReport_counted (parsed : RcaOutputSchema) (result : LlmJsonResult) (world : World)
    (calls : Nat) :
    toReport host.counted incidentId parsed result (world, calls) =
      ((toReport host incidentId parsed result world).1,
        ((toReport host incidentId parsed result world).2, calls)) := by
  unfold toReport
  simp only [bind_apply, mintId, utcNow, draw, RcaHost.counted]
  generalize RcaReport.new _ _ _ _ _ _ _ _ _ _ _ _ _ _ _ _ = made
  cases made <;> rfl

theorem generateOnce_counted (number : Nat) (world : World) (calls : Nat) :
    generateOnce host.counted incidentId prompt number (world, calls) =
      ((generateOnce host incidentId prompt number world).1,
        ((generateOnce host incidentId prompt number world).2, calls + 1)) := by
  rcases hcall : host.completeJson prompt.system prompt.user world with ⟨raised | result, later⟩
  · have hcounted : host.counted.completeJson prompt.system prompt.user (world, calls) =
        (.error raised, (later, calls + 1)) := by
      unfold RcaHost.counted
      dsimp only
      rw [hcall]
    rw [generateOnce_of_call_error hcall, generateOnce_of_call_error hcounted]
  · have hcounted : host.counted.completeJson prompt.system prompt.user (world, calls) =
        (.ok result, (later, calls + 1)) := by
      unfold RcaHost.counted
      dsimp only
      rw [hcall]
    unfold generateOnce
    rw [bind_of_ok hcall, bind_of_ok hcounted]
    rw [show parseRcaOutput host.counted result.data prompt.packIds =
      parseRcaOutput host result.data prompt.packIds from rfl]
    cases parseRcaOutput host result.data prompt.packIds with
    | error raised => rfl
    | ok parsed =>
      have hreport := @toReport_counted _ host incidentId parsed result later (calls + 1)
      rcases hmade : toReport host incidentId parsed result later with ⟨raised | report, after⟩
      · rw [hmade] at hreport
        change (toReport host.counted incidentId parsed result >>= _) _ =
          (((toReport host incidentId parsed result >>= _) later).1,
            ((toReport host incidentId parsed result >>= _) later).2, _)
        rw [bind_of_error hreport, bind_of_error hmade]
      · rw [hmade] at hreport
        change (toReport host.counted incidentId parsed result >>= _) _ =
          (((toReport host incidentId parsed result >>= _) later).1,
            ((toReport host incidentId parsed result >>= _) later).2, _)
        rw [bind_of_ok hreport, bind_of_ok hmade]
        rfl

theorem generateAttempts_counted (numbers : List Nat) (lastError : String) (world : World)
    (calls : Nat) : ∃ more, more ≤ numbers.length ∧
      generateAttempts host.counted incidentId prompt numbers lastError (world, calls) =
        ((generateAttempts host incidentId prompt numbers lastError world).1,
          ((generateAttempts host incidentId prompt numbers lastError world).2, calls + more)) := by
  induction numbers generalizing lastError world calls with
  | nil => exact ⟨0, le_refl 0, rfl⟩
  | cons number rest ih =>
    unfold generateAttempts attempt
    rw [generateOnce_counted]
    rcases generateOnce host incidentId prompt number world with ⟨raised | generation, later⟩
    · cases raised with
      | invalid text =>
        obtain ⟨more, hmore, hrest⟩ := ih text later (calls + 1)
        refine ⟨more + 1, by simpa using hmore, ?_⟩
        dsimp only
        rw [hrest, Nat.add_assoc, Nat.add_comm 1 more]
      | other text => exact ⟨1, by simp, rfl⟩
    · exact ⟨1, by simp, rfl⟩

end Generation

/-- A model that always gives the same answer: it is not sure and cites the evidence 7. -/
def unsureHost : RcaHost Unit where
  services := ⟨fun _ => Digest.genesis, fun text => ⟨text, 0⟩⟩
  lower := id
  fromIsoformat _ := none
  now world := (0, world)
  uuid4 world := (9, world)
  completeJson _ _ world :=
    (.ok ⟨[("summary", .str "slow"), ("root_cause", .str "missing index"),
      ("contributing_factors", .list []), ("confidence", .float ⟨"0.5", by decide⟩),
      ("status", .str "confirmed"),
      ("evidence_citations", .list [.obj [("evidence_id", .str (Uuid.str 7)),
        ("source", .str "simulator"), ("relevance", .str "latency")]]),
      ("recommended_actions", .list [])], "model", 1, 1⟩, world)
  schemaText := ""
  modelValidate _ := .ok ⟨"slow", "missing index", [], 1 / 2, .confirmed,
    [⟨7, "simulator", "latency", by decide, by decide⟩], [], by decide, by decide, by norm_num⟩
  uuid5 _ := 5
  parseUuid _ := none

end Aegis
