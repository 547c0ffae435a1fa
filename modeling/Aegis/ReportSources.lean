import Aegis.ReportSecrets

namespace Aegis

open Regex Pattern

variable {table : UnicodeTable} {redact : String → String} {report : PostIncidentReport}
  {stores : ReportStores} {incidentId : Uuid} {incident : Incident}

/-- The last accepted version. -/
def acceptedReport (reports : List RcaReport) : Option RcaReport :=
  reports.reverse.find? fun item => item.reviewStatus = .accepted

/-- The texts that the markdown shows of what the repositories return, in their order. -/
def shownTexts (redact : String → String) (stores : ReportStores) (incidentId : Uuid)
    (incident : Incident) : List String :=
  let accepted := acceptedReport (stores.rca incidentId)
  [incident.title.text, incident.affectedService.text] ++
    (timelineOf incident (stores.progress incidentId)).map TimelineEntry.detail ++
    (stores.evidence incidentId).map (fun item => redact item.summary) ++
    (accepted.toList.map fun item => redact item.rootCause.text).filter (fun cause => cause ≠ "") ++
    (stores.rca incidentId).map (fun item => redact item.summary.text) ++
    accepted.toList.flatMap RcaReport.recommendedActions ++
    (stores.notifications incidentId).map fun item => "(" ++ item.reason ++ ")"

/-- The texts that the report takes over as they are hold no secret, and no private key begins in
one of the texts that the markdown shows and ends in a later one. -/
structure PlainSources (table : UnicodeTable) (redact : String → String) (stores : ReportStores)
    (incidentId : Uuid) (incident : Incident) : Prop where
  title : NoSecret table incident.title.text.toList
  service : NoSecret table incident.affectedService.text.toList
  steps : ∀ progress ∈ stores.progress incidentId, ∀ step ∈ progress.steps,
    NoSecret table (step.name ++ " " ++ step.status.value).toList
  actions : ∀ item ∈ stores.rca incidentId, ∀ action ∈ item.recommendedActions,
    NoSecret table action.toList
  reasons : ∀ item ∈ stores.notifications incidentId,
    NoSecret table ("(" ++ item.reason ++ ")").toList
  keys : ((shownTexts redact stores incidentId incident).map String.toList).Pairwise KeyApart

theorem acceptedOf_rows (reports : List RcaReport) :
    acceptedOf (reports.map (rcaEntry redact)) = (acceptedReport reports).map (rcaEntry redact) := by
  have same : ∀ item : RcaReport, decide ((rcaEntry redact item).reviewStatus = "accepted") =
      decide (item.reviewStatus = .accepted) := by
    intro item
    unfold rcaEntry
    cases item.reviewStatus <;> rfl
  unfold acceptedOf acceptedReport
  rw [← List.map_reverse, List.find?_map]
  congr 2
  funext item
  exact same item

/-- The report as `execute` puts it together. -/
structure BuiltFrom (redact : String → String) (stores : ReportStores) (incidentId : Uuid)
    (incident : Incident) (report : PostIncidentReport) : Prop where
  title : report.title = incident.title.text
  service : report.service = incident.affectedService.text
  severity : report.severity = incident.severity.value
  state : report.state = incident.state.value
  timeline : report.timeline = timelineOf incident (stores.progress incidentId)
  evidence : report.evidence = (stores.evidence incidentId).map (evidenceEntry redact)
  versions : report.rcaVersions = (stores.rca incidentId).map (rcaEntry redact)
  cause : report.acceptedRootCause =
    (acceptedReport (stores.rca incidentId)).map fun item => redact item.rootCause.text
  actions : report.recommendedActions =
    (acceptedReport (stores.rca incidentId)).toList.flatMap RcaReport.recommendedActions
  notifications : report.notifications = (stores.notifications incidentId).map notificationEntry
  markdown : report.markdown = renderMarkdown report

theorem builtFrom_plain (markdown : String)
    (h : markdown = renderMarkdown (plainReport redact stores incidentId incident)) :
    BuiltFrom redact stores incidentId incident
      { plainReport redact stores incidentId incident with markdown } := by
  refine ⟨rfl, rfl, rfl, rfl, rfl, rfl, rfl, ?_, ?_, rfl, ?_⟩
  · rw [plainReport, acceptedOf_rows]
    dsimp only
    rw [Option.map_map]
    rfl
  · rw [plainReport, acceptedOf_rows]
    cases acceptedReport (stores.rca incidentId) with
    | none => rfl
    | some item => simp [rcaEntry]
  · rw [renderMarkdown_markdown]
    exact h

theorem mem_timelineOf {item : TimelineEntry} {stored : Option InvestigationProgress} :
    item ∈ timelineOf incident stored ↔ (∃ step ∈ incident.stateHistory, step.entry = item) ∨
      ∃ progress ∈ stored, ∃ step ∈ progress.steps, step.entry = item := by
  unfold timelineOf
  rw [(List.perm_insertionSort _ _).mem_iff, List.mem_append, List.mem_map, List.mem_map]
  cases stored <;> simp

theorem BuiltFrom.words (built : BuiltFrom redact stores incidentId incident report) :
    KnownWords report := by
  refine ⟨⟨_, built.severity⟩, ⟨_, built.state⟩, ?_, ?_, ?_, ?_⟩
  · rw [built.timeline]
    intro item hitem
    rcases mem_timelineOf.mp hitem with ⟨step, _, rfl⟩ | ⟨_, _, step, _, rfl⟩
    · exact .inl rfl
    · exact .inr rfl
  · rw [built.evidence, List.forall_mem_map]
    exact fun item _ => ⟨item.source, item.kind, rfl, rfl⟩
  · rw [built.versions, List.forall_mem_map]
    exact fun item _ => ⟨item.versionKind, item.reviewStatus, rfl, rfl⟩
  · rw [built.notifications, List.forall_mem_map]
    exact fun item _ => ⟨item.kind, rfl⟩

theorem BuiltFrom.shown (built : BuiltFrom redact stores incidentId incident report) :
    report.shown = shownTexts redact stores incidentId incident := by
  unfold PostIncidentReport.shown shownTexts
  rw [built.title, built.service, built.timeline, built.evidence, built.versions, built.cause,
    built.actions, built.notifications]
  dsimp only
  rw [List.map_map, List.map_map, List.map_map]
  cases acceptedReport (stores.rca incidentId) <;> rfl

theorem secretFree_fields : SecretFree table report ↔
    NoSecret table report.title.toList ∧ NoSecret table report.service.toList ∧
    NoSecret table report.severity.toList ∧ NoSecret table report.state.toList ∧
    (∀ item ∈ report.timeline, NoSecret table item.kind.toList ∧ NoSecret table item.detail.toList) ∧
    (∀ item ∈ report.evidence, NoSecret table item.source.toList ∧ NoSecret table item.kind.toList ∧
      NoSecret table item.summary.toList) ∧
    (∀ item ∈ report.rcaVersions, NoSecret table item.versionKind.toList ∧
      NoSecret table item.reviewStatus.toList ∧ NoSecret table item.summary.toList ∧
      NoSecret table item.rootCause.toList ∧
      ∀ action ∈ item.recommendedActions, NoSecret table action.toList) ∧
    (∀ cause ∈ report.acceptedRootCause.toList, NoSecret table cause.toList) ∧
    (∀ action ∈ report.recommendedActions, NoSecret table action.toList) ∧
    (∀ item ∈ report.notifications,
      NoSecret table item.kind.toList ∧ NoSecret table item.reason.toList) ∧
    NoSecret table report.markdown.toList := by
  unfold SecretFree PostIncidentReport.strings
  simp only [List.forall_mem_append, List.forall_mem_cons, List.forall_mem_flatMap,
    List.not_mem_nil, false_imp_iff, implies_true, and_true, and_assoc]

theorem redactionPatterns_lineFree : ∀ entry ∈ redactionPatterns, entry.2.lineFree = true := by
  decide

/-- A text within brackets holds no secret where the whole does not. -/
theorem noSecret_bracketed {text : String} (h : NoSecret table ("(" ++ text ++ ")").toList) :
    NoSecret table text.toList := by
  intro entry hentry
  have lines := redactionPatterns_lineFree entry hentry
  have nonempty := redactionPatterns_nonempty entry hentry
  have opening : table.isWord '(' = false := isWord_eq table (by decide)
  have closing : table.isWord ')' = false := isWord_eq table (by decide)
  have hwhole := h entry hentry
  have split : ("(" ++ text ++ ")").toList = [] ++ '(' :: (text.toList ++ ')' :: []) := by simp
  rw [split, noMatch_cut lines nonempty opening, noMatch_cut lines nonempty closing] at hwhole
  exact hwhole.2.1.1

theorem noSecret_literal {word : String}
    (unable : (leadPatterns.all fun r => !r.canUse word.toList) = true) :
    NoSecret table word.toList :=
  (noLead_literal unable).noSecret

/-- The words of the enumerations hold no secret. -/
theorem KnownWords.plain (words : KnownWords report) :
    NoSecret table report.severity.toList ∧ NoSecret table report.state.toList ∧
    (∀ item ∈ report.timeline, NoSecret table item.kind.toList) ∧
    (∀ item ∈ report.evidence, NoSecret table item.source.toList ∧ NoSecret table item.kind.toList) ∧
    (∀ item ∈ report.rcaVersions, NoSecret table item.versionKind.toList ∧
      NoSecret table item.reviewStatus.toList) ∧
    ∀ item ∈ report.notifications, NoSecret table item.kind.toList := by
  refine ⟨?_, ?_, fun item hitem => ?_, fun item hitem => ⟨?_, ?_⟩, fun item hitem => ⟨?_, ?_⟩,
    fun item hitem => ?_⟩
  · obtain ⟨severity, h⟩ := words.severity
    rw [h]
    cases severity <;> exact noSecret_literal (by decide)
  · obtain ⟨state, h⟩ := words.state
    rw [h]
    cases state <;> exact noSecret_literal (by decide)
  · rcases words.timeline item hitem with h | h <;> rw [h] <;> exact noSecret_literal (by decide)
  · obtain ⟨source, _, h, _⟩ := words.evidence item hitem
    rw [h]
    cases source <;> exact noSecret_literal (by decide)
  · obtain ⟨_, kind, _, h⟩ := words.evidence item hitem
    rw [h]
    cases kind <;> exact noSecret_literal (by decide)
  · obtain ⟨kind, _, h, _⟩ := words.versions item hitem
    rw [h]
    cases kind <;> exact noSecret_literal (by decide)
  · obtain ⟨_, status, _, h⟩ := words.versions item hitem
    rw [h]
    cases status <;> exact noSecret_literal (by decide)
  · obtain ⟨kind, h⟩ := words.notifications item hitem
    rw [h]
    cases kind <;> exact noSecret_literal (by decide)

theorem noSecret_stateDetail (step : StateTransition) : NoSecret table step.entry.detail.toList := by
  have chars : ∀ state : IncidentState, state.value.toList.all "acdefgilmnoprstv".toList.contains = true := by
    intro state
    cases state <;> decide
  have arrow : " → ".toList = [' ', '→', ' '] := by decide
  have lead : NoLead table step.entry.detail.toList := by
    refine @noLead_of_chars table _ (' ' :: '→' :: "acdefgilmnoprstv".toList) (by decide) ?_
    unfold StateTransition.entry
    rw [String.toList_append, String.toList_append, arrow]
    simp only [List.forall_mem_append, List.forall_mem_cons, List.not_mem_nil, false_imp_iff,
      implies_true, and_true]
    refine ⟨⟨fun c hc => ?_, by simp, by simp, by simp⟩, fun c hc => ?_⟩
    · have := List.all_eq_true.mp (chars step.fromState) c hc
      exact List.mem_cons_of_mem _ (List.mem_cons_of_mem _ (by simpa using this))
    · have := List.all_eq_true.mp (chars step.toState) c hc
      exact List.mem_cons_of_mem _ (List.mem_cons_of_mem _ (by simpa using this))
  exact lead.noSecret

theorem mem_of_accepted {reports : List RcaReport} {item : RcaReport}
    (h : acceptedReport reports = some item) : item ∈ reports :=
  List.mem_reverse.mp (List.mem_of_find?_eq_some h)

/-- What the markdown shows holds no secret, text by text. -/
theorem PlainSources.shown (removes : ∀ text, NoSecret table (redact text).toList)
    (plain : PlainSources table redact stores incidentId incident) :
    ∀ text ∈ shownTexts redact stores incidentId incident, NoSecret table text.toList := by
  unfold shownTexts
  dsimp only
  simp only [List.forall_mem_append, List.forall_mem_cons, List.not_mem_nil, false_imp_iff,
    implies_true, and_true]
  refine ⟨⟨⟨⟨⟨⟨⟨plain.title, plain.service⟩, ?_⟩, ?_⟩, ?_⟩, ?_⟩, ?_⟩, ?_⟩
  · rw [List.forall_mem_map]
    intro item hitem
    rcases mem_timelineOf.mp hitem with ⟨step, _, rfl⟩ | ⟨progress, hprogress, step, hstep, rfl⟩
    · exact noSecret_stateDetail step
    · exact plain.steps progress hprogress step hstep
  · exact List.forall_mem_map.mpr fun item _ => removes item.summary
  · intro text htext
    obtain ⟨item, _, rfl⟩ := List.mem_map.mp (List.mem_filter.mp htext).1
    exact removes item.rootCause.text
  · exact List.forall_mem_map.mpr fun item _ => removes item.summary.text
  · intro action haction
    obtain ⟨item, hitem, hmem⟩ := List.mem_flatMap.mp haction
    exact plain.actions item (mem_of_accepted (Option.mem_toList.mp hitem)) action hmem
  · exact List.forall_mem_map.mpr plain.reasons

theorem secretFree_iff (removes : ∀ text, NoSecret table (redact text).toList)
    (built : BuiltFrom redact stores incidentId incident report) :
    SecretFree table report ↔ PlainSources table redact stores incidentId incident := by
  have words := built.words
  have render := @markdown_secret_free table report words
  rw [built.shown, ← built.markdown] at render
  rw [secretFree_fields]
  constructor
  · rintro ⟨title, service, _, _, timeline, _, versions, _, _, _, markdown⟩
    obtain ⟨shown, keys⟩ := render.mp markdown
    refine ⟨by rwa [← built.title], by rwa [← built.service], ?_, ?_, ?_, keys⟩
    · intro progress hprogress step hstep
      have hmem : step.entry ∈ report.timeline := by
        rw [built.timeline]
        exact mem_timelineOf.mpr (.inr ⟨progress, hprogress, step, hstep, rfl⟩)
      exact (timeline _ hmem).2
    · intro item hitem
      have hmem : rcaEntry redact item ∈ report.rcaVersions := by
        rw [built.versions]
        exact List.mem_map_of_mem hitem
      exact (versions _ hmem).2.2.2.2
    · intro item hitem
      refine shown _ ?_
      unfold shownTexts
      exact List.mem_append_right _ (List.mem_map_of_mem hitem)
  · intro plain
    have shown := plain.shown removes
    obtain ⟨severity, state, timeline, evidence, versions, notifications⟩ := @words.plain table
    refine ⟨by rw [built.title]; exact plain.title, by rw [built.service]; exact plain.service,
      severity, state, fun item hitem => ⟨timeline item hitem, ?_⟩,
      fun item hitem => ⟨(evidence item hitem).1, (evidence item hitem).2, ?_⟩,
      fun item hitem => ⟨(versions item hitem).1, (versions item hitem).2, ?_⟩, ?_, ?_,
      fun item hitem => ⟨notifications item hitem, ?_⟩, render.mpr ⟨shown, plain.keys⟩⟩
    · rw [built.timeline] at hitem
      refine shown _ ?_
      unfold shownTexts
      simp only [List.mem_append]
      exact .inl (.inl (.inl (.inl (.inl (.inr (List.mem_map_of_mem hitem))))))
    · rw [built.evidence] at hitem
      obtain ⟨row, _, rfl⟩ := List.mem_map.mp hitem
      exact removes row.summary
    · rw [built.versions] at hitem
      obtain ⟨row, hrow, rfl⟩ := List.mem_map.mp hitem
      exact ⟨removes row.summary.text, removes row.rootCause.text, plain.actions row hrow⟩
    · rw [built.cause]
      intro cause hcause
      obtain ⟨row, _, rfl⟩ := Option.map_eq_some_iff.mp (Option.mem_toList.mp hcause)
      exact removes row.rootCause.text
    · rw [built.actions]
      intro action haction
      obtain ⟨row, hrow, hmem⟩ := List.mem_flatMap.mp haction
      exact plain.actions row (mem_of_accepted (Option.mem_toList.mp hrow)) action hmem
    · rw [built.notifications] at hitem
      obtain ⟨row, hrow, rfl⟩ := List.mem_map.mp hitem
      exact noSecret_bracketed (plain.reasons row hrow)

/-- The report of a reportable incident holds no secret exactly when the texts that it takes over
as they are hold none, and no private key runs from one shown text to a later one. -/
theorem report_secret_free_iff (removes : ∀ text, NoSecret table (redact text).toList)
    (found : stores.incidents incidentId = some incident) (ready : incident.state ∈ reportable) :
    ∃ report, buildPostIncidentReport redact stores incidentId = .ok report ∧
      (SecretFree table report ↔ PlainSources table redact stores incidentId incident) :=
  ⟨_, buildPostIncidentReport_ok found ready, secretFree_iff removes (builtFrom_plain _ rfl)⟩

def identifiedWith (title : RequiredText) : Incident where
  id := 1
  title := title
  description := none
  state := .identified
  severity := .high
  affectedService := ⟨"payment-api", by decide, by decide⟩
  ownerId := none
  createdAt := 0
  updatedAt := 7
  stateHistory := [⟨.open, .investigating, 5⟩, ⟨.investigating, .identified, 7⟩]
  fingerprint := none

/-- Repositories that have the incident alone. -/
def storesWith (title : RequiredText) : ReportStores where
  incidents _ := some (identifiedWith title)
  evidence _ := []
  rca _ := []
  progress _ := none
  notifications _ := []

def plainTitle : RequiredText := ⟨"payment errors", by decide, by decide⟩

/-- A redaction that keeps a text without the characters of a secret. -/
def keepPlain (text : String) : String :=
  if (leadPatterns.all fun r => !r.canUse text.toList) = true then text else "[redacted]"

theorem keepPlain_removes (text : String) : NoSecret asciiTable (keepPlain text).toList := by
  unfold keepPlain
  split
  next plain => exact (noLead_literal plain).noSecret
  next => exact (noLead_literal (by decide +kernel)).noSecret

def plainEvidence (id : Uuid) (summary : String) (stripped : strip summary = summary) : Evidence where
  id
  incidentId := 1
  source := .simulator
  kind := .log
  contentRef := ⟨"simulator/logs", by decide, by decide⟩
  summary
  metadata := []
  collectedAt := 6
  summary_stripped := stripped

def acceptedVersion : RcaReport where
  id := 20
  incidentId := 1
  version := 1
  versionKind := .original
  summary := ⟨"too few connections", by decide, by decide⟩
  rootCause := ⟨"small pool", by decide, by decide⟩
  contributingFactors := []
  confidence := 3 / 4
  findingStatus := .confirmed
  reviewStatus := .accepted
  citations := [⟨30, "simulator", "p99 above two seconds"⟩]
  recommendedActions := ["raise the limit"]
  modelId := ⟨"claude", by decide, by decide⟩
  inputTokens := 0
  outputTokens := 0
  createdAt := 6
  version_pos := le_refl 1
  confidence_range := by norm_num
  cited := by simp

def plainProgress : InvestigationProgress where
  incidentId := 1
  hops := 4
  status := .pendingReview
  escalateReason := ""
  paused := false
  steps := [⟨40, 1, "knowledge", .completed, "", 6⟩, ⟨41, 1, "code", .failed, "", 6⟩]
  updatedAt := 6
  hops_nonneg := by decide

/-- Repositories that have two rows of evidence, one with an address in it, an accepted version,
steps and a notification. -/
def fullStores : ReportStores where
  incidents _ := some (identifiedWith plainTitle)
  evidence _ := [plainEvidence 30 "p99 above two seconds" (by decide),
    plainEvidence 31 "mail to alice@example.com" (by decide)]
  rca _ := [acceptedVersion]
  progress _ := some plainProgress
  notifications _ := [⟨50, 1, .rcaReady, "rca.ready", "ready", "high", "payment-api", "", "1", some 1, 6⟩]

theorem fullStores_sources :
    PlainSources asciiTable keepPlain fullStores 1 (identifiedWith plainTitle) := by
  have leads : ∀ text ∈ shownTexts keepPlain fullStores 1 (identifiedWith plainTitle),
      NoLead asciiTable text.toList := by
    have all : (shownTexts keepPlain fullStores 1 (identifiedWith plainTitle)).all
        (fun text => leadPatterns.all fun r => !r.canUse text.toList) = true := by
      decide +kernel
    exact fun text htext => noLead_literal (List.all_eq_true.mp all text htext)
  have plain : ∀ text ∈ ["knowledge completed", "code failed", "raise the limit", "(ready)"],
      NoSecret asciiTable text.toList := by
    have all : (["knowledge completed", "code failed", "raise the limit", "(ready)"].all
        fun text => leadPatterns.all fun r => !r.canUse text.toList) = true := by
      decide +kernel
    exact fun text htext => (noLead_literal (List.all_eq_true.mp all text htext)).noSecret
  refine ⟨(leads _ (by simp [shownTexts])).noSecret, (leads _ (by simp [shownTexts])).noSecret,
    ?_, ?_, ?_, ?_⟩
  · intro progress hprogress step hstep
    obtain rfl : plainProgress = progress := Option.some.inj hprogress
    rcases List.mem_pair.mp hstep with rfl | rfl
    · exact plain "knowledge completed" (by simp)
    · exact plain "code failed" (by simp)
  · intro item hitem action haction
    obtain rfl := List.mem_singleton.mp hitem
    obtain rfl := List.mem_singleton.mp haction
    exact plain _ (by simp)
  · intro item hitem
    obtain rfl := List.mem_singleton.mp hitem
    exact plain "(ready)" (by simp)
  · rw [List.pairwise_map]
    refine List.pairwise_of_forall_mem_list fun text htext _ _ h => ?_
    exact not_contains_lead (fun _ => spells_opening) (leads text htext).opening h.1

theorem report_secret_free_iff_payment :
    ∃ report, buildPostIncidentReport keepPlain fullStores 1 = .ok report ∧
      report.evidence.map EvidenceEntry.summary = ["p99 above two seconds", "[redacted]"] ∧
      SecretFree asciiTable report := by
  obtain ⟨report, hreport, hfree⟩ := @report_secret_free_iff asciiTable keepPlain fullStores 1
    (identifiedWith plainTitle) keepPlain_removes rfl (by decide)
  obtain rfl := Except.ok.inj ((buildPostIncidentReport_ok rfl (by decide)).symm.trans hreport)
  exact ⟨_, hreport, by decide +kernel, hfree.mpr fullStores_sources⟩

def mailTitle : RequiredText := ⟨"login fails for alice@example.com", by decide, by decide⟩

/-- A title is shown as it was reported, with the address in it. -/
theorem title_shown_with_email : (∀ text : String, NoSecret asciiTable ((fun _ => "") text).toList) ∧
    ∃ report, buildPostIncidentReport (fun _ => "") (storesWith mailTitle) 1 = .ok report ∧
      report.title = "login fails for alice@example.com" ∧ ¬SecretFree asciiTable report := by
  refine ⟨fun _ => noSecret_nil, _, rfl, rfl, fun free => ?_⟩
  have title : NoSecret asciiTable "login fails for alice@example.com".toList :=
    (secretFree_fields.mp free).1
  have found : (redact asciiTable "login fails for alice@example.com").count = 1 := by decide +kernel
  rw [redact_fixed_iff.mpr title] at found
  cases found

end Aegis
