import Aegis.Moments
import Aegis.PostIncident
import Aegis.SecretLines

namespace Aegis

open Regex Pattern

variable {table : UnicodeTable} {redact : String → String} {report : PostIncidentReport}

/-- The string fields of a report, with those of its entries. -/
def PostIncidentReport.strings (report : PostIncidentReport) : List String :=
  [report.title, report.service, report.severity, report.state] ++
    report.timeline.flatMap (fun item => [item.kind, item.detail]) ++
    report.evidence.flatMap (fun item => [item.source, item.kind, item.summary]) ++
    report.rcaVersions.flatMap (fun item => [item.versionKind, item.reviewStatus, item.summary,
      item.rootCause] ++ item.recommendedActions) ++
    report.acceptedRootCause.toList ++ report.recommendedActions ++
    report.notifications.flatMap (fun item => [item.kind, item.reason]) ++ [report.markdown]

/-- No string field of the report holds a secret. -/
def SecretFree (table : UnicodeTable) (report : PostIncidentReport) : Prop :=
  ∀ text ∈ report.strings, NoSecret table text.toList

section Document

def titleLine (report : PostIncidentReport) : ShownLine :=
  ⟨"# Post-incident report —".toList, some report.title.toList⟩

def timelineLine (item : TimelineEntry) : ShownLine :=
  ⟨("- " ++ isoformat item.at_ ++ " [" ++ item.kind ++ "]").toList, some item.detail.toList⟩

def evidenceLine (item : EvidenceEntry) : ShownLine :=
  ⟨("- \x60" ++ item.id.str ++ "\x60 (" ++ item.source ++ "/" ++ item.kind ++ ")").toList,
    some item.summary.toList⟩

/-- The heading of the RCA section, with the accepted root cause where there is one to show. -/
def causeLine (cause : Option String) : ShownLine :=
  match cause with
  | none => ⟨"\n## RCA".toList, none⟩
  | some cause =>
    if cause = "" then ⟨"\n## RCA".toList, none⟩
    else ⟨"\n## RCA\nAccepted root cause:".toList, some cause.toList⟩

def rcaLine (item : RcaEntry) : ShownLine :=
  ⟨("- v" ++ toString item.version ++ " " ++ item.versionKind ++ " [" ++ item.reviewStatus ++
    "]").toList, some item.summary.toList⟩

def actionLine (action : String) : ShownLine := ⟨['-'], some action.toList⟩

def notificationLine (item : NotificationEntry) : ShownLine :=
  ⟨("- " ++ isoformat item.createdAt ++ " " ++ item.kind).toList,
    some ("(" ++ item.reason ++ ")").toList⟩

def ownLine (text : String) : ShownLine := ⟨text.toList, none⟩

def documentHead (report : PostIncidentReport) : List ShownLine :=
  [ownLine ("\n- incident_id: \x60" ++ report.incidentId.str ++ "\x60"),
    ⟨"- service:".toList, some report.service.toList⟩,
    ownLine ("- severity: " ++ report.severity), ownLine ("- state: " ++ report.state)]

/-- The lines after the title, each blank line taken with the line after it. -/
def documentLines (report : PostIncidentReport) : List ShownLine :=
  documentHead report ++ [ownLine ("\n" ++ "## Timeline")] ++
  orLine (ownLine "- (empty)") (report.timeline.map timelineLine) ++
  [ownLine ("\n" ++ "## Evidence")] ++
  orLine (ownLine "- (none)") (report.evidence.map evidenceLine) ++
  [causeLine report.acceptedRootCause] ++ report.rcaVersions.map rcaLine ++
  [ownLine ("\n" ++ "## Recommended actions")] ++
  orLine (ownLine "- (none)") (report.recommendedActions.map actionLine) ++
  [ownLine ("\n" ++ "## Notifications")] ++
  orLine (ownLine "- (none)") (report.notifications.map notificationLine) ++
  [ownLine ("\n" ++ ("This report is not indexed. Curate markdown under " ++
    "\x60docs/knowledge/incidents/\x60 then run Step 3.6 ingest."))]

theorem written_heading (text : String) : written (["", text].map String.toList) =
    written ([ownLine ("\n" ++ text)].map ShownLine.text) := by
  simp [written, ownLine, ShownLine.text]

theorem written_shown {Item : Type} {line : Item → String} {shown : Item → ShownLine}
    (same : ∀ item, (line item).toList = (shown item).text) (items : List Item) :
    written ((items.map line).map String.toList) =
      written ((items.map shown).map ShownLine.text) := by
  rw [List.map_map, List.map_map]
  exact congrArg written (List.map_congr_left fun item _ => same item)

theorem written_orLine {Item : Type} {line : Item → String} {shown : Item → ShownLine}
    (same : ∀ item, (line item).toList = (shown item).text) (empty : String) (items : List Item) :
    written ((orLine empty (items.map line)).map String.toList) =
      written ((orLine (ownLine empty) (items.map shown)).map ShownLine.text) := by
  cases items with
  | nil => rfl
  | cons item items => exact written_shown same (item :: items)

theorem written_cause (front : List Char) (cause : Option String) :
    front ++ written ([ownLine ("\n" ++ "## RCA")].map ShownLine.text) ++
        written ((acceptedLines cause).map String.toList) =
      front ++ written ([causeLine cause].map ShownLine.text) := by
  rw [List.append_assoc]
  refine congrArg (front ++ ·) ?_
  unfold acceptedLines causeLine
  cases cause with
  | none => rfl
  | some cause =>
    dsimp only
    split
    · rfl
    · simp [written, ownLine, ShownLine.text]

theorem timelineLine_text (item : TimelineEntry) : ("- " ++ isoformat item.at_ ++ " [" ++ item.kind ++
    "] " ++ item.detail).toList = (timelineLine item).text := by
  simp [timelineLine, ShownLine.text]

theorem evidenceLine_text (item : EvidenceEntry) : ("- \x60" ++ item.id.str ++ "\x60 (" ++
    item.source ++ "/" ++ item.kind ++ ") " ++ item.summary).toList = (evidenceLine item).text := by
  simp [evidenceLine, ShownLine.text]

theorem rcaLine_text (item : RcaEntry) : ("- v" ++ toString item.version ++ " " ++
    item.versionKind ++ " [" ++ item.reviewStatus ++ "] " ++ item.summary).toList =
      (rcaLine item).text := by
  simp [rcaLine, ShownLine.text]

theorem actionLine_text (action : String) : ("- " ++ action).toList = (actionLine action).text := by
  simp [actionLine, ShownLine.text]

theorem notificationLine_text (item : NotificationEntry) : ("- " ++ isoformat item.createdAt ++ " " ++
    item.kind ++ " (" ++ item.reason ++ ")").toList = (notificationLine item).text := by
  simp [notificationLine, ShownLine.text]

theorem headLines_written (report : PostIncidentReport) :
    written ((headLines report).map String.toList) =
      written ((documentHead report).map ShownLine.text) := by
  simp [headLines, documentHead, written, ownLine, ShownLine.text]

theorem titleLine_text (report : PostIncidentReport) : (titleLine report).text =
    ("# Post-incident report — " ++ report.title).toList := by
  have heading : "# Post-incident report — ".toList =
      "# Post-incident report —".toList ++ [' '] := by
    decide
  rw [String.toList_append, heading, List.append_assoc]
  rfl

theorem renderMarkdown_document (report : PostIncidentReport) : (renderMarkdown report).toList =
    (titleLine report).text ++ written ((documentLines report).map ShownLine.text) := by
  rw [titleLine_text, renderMarkdown, markdownLines, intercalate_written]
  simp only [documentLines, List.map_append, written_append, headLines_written, written_heading,
    timelineLines, written_orLine timelineLine_text, evidenceLines,
    written_orLine evidenceLine_text, rcaLines, written_shown rcaLine_text, actionLines,
    written_orLine actionLine_text, notificationLines, written_orLine notificationLine_text]
  rw [written_cause]

end Document

section Words

/-- The words of a report that are not texts of its sources are values of the enumerations. -/
structure KnownWords (report : PostIncidentReport) : Prop where
  severity : ∃ severity : Severity, report.severity = severity.value
  state : ∃ state : IncidentState, report.state = state.value
  timeline : ∀ item ∈ report.timeline, item.kind = "state" ∨ item.kind = "investigation"
  evidence : ∀ item ∈ report.evidence, ∃ (source : EvidenceSource) (kind : EvidenceKind),
    item.source = source.value ∧ item.kind = kind.value
  versions : ∀ item ∈ report.rcaVersions, ∃ (kind : RcaVersionKind) (status : RcaReviewStatus),
    item.versionKind = kind.value ∧ item.reviewStatus = status.value
  notifications : ∀ item ∈ report.notifications, ∃ kind : NotificationKind, item.kind = kind.value

theorem noLead_isoformat (moment : Instant) : NoLead table (isoformat moment).toList :=
  noLead_of_chars (by decide) (isoformat_chars moment)

theorem noLead_uuid (id : Uuid) : NoLead table ("\x60" ++ id.str ++ "\x60").toList := by
  refine @noLead_of_chars table _ ('\x60' :: '-' :: hexDigits) (by decide) fun c hc => ?_
  rw [String.toList_append, String.toList_append, List.mem_append, List.mem_append] at hc
  rcases hc with (hc | hc) | hc
  · exact List.mem_cons.mpr (.inl (List.mem_singleton.mp hc))
  · exact List.mem_cons_of_mem _ (uuid_chars id c hc)
  · exact List.mem_cons.mpr (.inl (List.mem_singleton.mp hc))

theorem noLead_version (version : Nat) : NoLead table ("v" ++ toString version).toList := by
  refine @noLead_of_chars table _ ('v' :: "0123456789".toList) (by decide) fun c hc => ?_
  rw [String.toList_append] at hc
  rcases List.mem_append.mp hc with hc | hc
  · exact List.mem_cons.mpr (.inl (List.mem_singleton.mp hc))
  · have hdigits : (toString version).toList = Nat.toDigits 10 version := by
      simp
    rw [hdigits] at hc
    exact List.mem_cons_of_mem _ (digit_mem (Nat.isDigit_of_mem_toDigits (by omega) (by omega) hc))

theorem noLead_state (state : IncidentState) : NoLead table ("- state: " ++ state.value).toList := by
  cases state <;> exact noLead_literal (by decide)

theorem noLead_severity (severity : Severity) :
    NoLead table ("- severity: " ++ severity.value).toList := by
  cases severity <;> exact noLead_literal (by decide)

theorem noLead_evidence (source : EvidenceSource) (kind : EvidenceKind) :
    NoLead table ("(" ++ source.value ++ "/" ++ kind.value ++ ")").toList := by
  have chars : ∀ (source : EvidenceSource) (kind : EvidenceKind),
      (("(" ++ source.value ++ "/" ++ kind.value ++ ")").toList.all
        "()/acdeghiklmnoprstuvy".toList.contains) = true := by
    intro source kind
    cases source <;> cases kind <;> rfl
  refine @noLead_of_chars table _ "()/acdeghiklmnoprstuvy".toList (by decide) fun c hc => ?_
  simpa using List.all_eq_true.mp (chars source kind) c hc

/-- Before the piece it shows, the line has nothing of a secret. -/
structure Harmless (table : UnicodeTable) (line : ShownLine) : Prop where
  lead : NoLead table line.lead
  stop : StopsAtStart line.text

theorem stopsAtStart_dash (rest : List Char) : StopsAtStart ('-' :: ' ' :: rest) :=
  ⟨['-', ' '], rest, rfl, by decide⟩

theorem harmless_dash {line : ShownLine} {words : List Char} (lead : line.lead = '-' :: ' ' :: words)
    (h : NoLead table words) : Harmless table line := by
  obtain ⟨_, piece⟩ := line
  obtain rfl := lead
  refine ⟨noLead_words (a := ['-']) (noLead_literal (by decide)) h, ?_⟩
  cases piece <;> exact stopsAtStart_dash _

theorem harmless_timeline {item : TimelineEntry} (h : item.kind = "state" ∨ item.kind = "investigation") :
    Harmless table (timelineLine item) := by
  have kind : NoLead table ("[" ++ item.kind ++ "]").toList := by
    rcases h with h | h <;> rw [h] <;> exact noLead_literal (by decide)
  have lead : (timelineLine item).lead =
      '-' :: ' ' :: ((isoformat item.at_).toList ++ ' ' :: ("[" ++ item.kind ++ "]").toList) := by
    simp [timelineLine]
  exact harmless_dash lead (noLead_words (noLead_isoformat item.at_) kind)

theorem harmless_evidence {item : EvidenceEntry} {source : EvidenceSource} {kind : EvidenceKind}
    (hsource : item.source = source.value) (hkind : item.kind = kind.value) :
    Harmless table (evidenceLine item) := by
  have lead : (evidenceLine item).lead = '-' :: ' ' :: (("\x60" ++ item.id.str ++ "\x60").toList ++
      ' ' :: ("(" ++ source.value ++ "/" ++ kind.value ++ ")").toList) := by
    simp [evidenceLine, hsource, hkind]
  exact harmless_dash lead (noLead_words (noLead_uuid item.id) (noLead_evidence source kind))

theorem harmless_rca {item : RcaEntry} {kind : RcaVersionKind} {status : RcaReviewStatus}
    (hkind : item.versionKind = kind.value) (hstatus : item.reviewStatus = status.value) :
    Harmless table (rcaLine item) := by
  have kind_ : NoLead table kind.value.toList := by
    cases kind <;> exact noLead_literal (by decide)
  have status_ : NoLead table ("[" ++ status.value ++ "]").toList := by
    cases status <;> exact noLead_literal (by decide)
  have lead : (rcaLine item).lead = '-' :: ' ' :: (("v" ++ toString item.version).toList ++
      ' ' :: (kind.value.toList ++ ' ' :: ("[" ++ status.value ++ "]").toList)) := by
    simp [rcaLine, hkind, hstatus]
  exact harmless_dash lead (noLead_words (noLead_version item.version) (noLead_words kind_ status_))

theorem harmless_notification {item : NotificationEntry} {kind : NotificationKind}
    (hkind : item.kind = kind.value) : Harmless table (notificationLine item) := by
  have kind_ : NoLead table kind.value.toList := by
    cases kind <;> exact noLead_literal (by decide)
  have lead : (notificationLine item).lead =
      '-' :: ' ' :: ((isoformat item.createdAt).toList ++ ' ' :: kind.value.toList) := by
    simp [notificationLine, hkind]
  exact harmless_dash lead (noLead_words (noLead_isoformat item.createdAt) kind_)

theorem harmless_action (action : String) : Harmless table (actionLine action) :=
  ⟨@noLead_literal table ['-'] (by decide), stopsAtStart_dash _⟩

theorem harmless_literal {text : String} {piece : Option (List Char)}
    (unable : (leadPatterns.all fun r => !r.canUse text.toList) = true)
    (stop : stopsBearer text.toList = true) : Harmless table ⟨text.toList, piece⟩ := by
  refine ⟨noLead_literal unable, ?_⟩
  cases piece with
  | none => exact ⟨text.toList, [], (List.append_nil _).symm, stop⟩
  | some piece => exact ⟨text.toList, ' ' :: piece, rfl, stop⟩

theorem harmless_cause (cause : Option String) : Harmless table (causeLine cause) := by
  unfold causeLine
  cases cause with
  | none => exact harmless_literal (by decide) (by decide)
  | some cause =>
    dsimp only
    split
    · exact harmless_literal (by decide) (by decide)
    · exact harmless_literal (by decide) (by decide)

theorem harmless_head (words : KnownWords report) : ∀ line ∈ documentHead report, Harmless table line := by
  obtain ⟨severity, hseverity⟩ := words.severity
  obtain ⟨state, hstate⟩ := words.state
  unfold documentHead
  simp only [List.forall_mem_cons, List.not_mem_nil, false_imp_iff, implies_true, and_true]
  refine ⟨⟨?_, ?_⟩, harmless_literal (by decide) (by decide), ⟨?_, ?_⟩, ?_, ?_⟩
  · have lead : (ownLine ("\n- incident_id: \x60" ++ report.incidentId.str ++ "\x60")).lead =
        "\n- incident_id:".toList ++ ' ' :: ("\x60" ++ report.incidentId.str ++ "\x60").toList := by
      simp [ownLine]
    rw [lead]
    exact noLead_words (noLead_literal (by decide)) (noLead_uuid _)
  · exact ⟨"\n- ".toList, ("incident_id: \x60" ++ report.incidentId.str ++ "\x60").toList,
      by simp [ownLine, ShownLine.text], by decide⟩
  · rw [hseverity]
    exact noLead_severity severity
  · exact ⟨"- ".toList, ("severity: " ++ report.severity).toList,
      by simp [ownLine, ShownLine.text], by decide⟩
  · rw [hstate]
    exact noLead_state state
  · exact ⟨"- ".toList, ("state: " ++ report.state).toList,
      by simp [ownLine, ShownLine.text], by decide⟩

theorem forall_orLine {Line : Type} {p : Line → Prop} {empty : Line} {lines : List Line}
    (hempty : p empty) (hlines : ∀ line ∈ lines, p line) : ∀ line ∈ orLine empty lines, p line := by
  cases lines with
  | nil => exact List.forall_mem_singleton.mpr hempty
  | cons line lines => exact hlines

theorem harmless_document (words : KnownWords report) :
    ∀ line ∈ documentLines report, Harmless table line := by
  unfold documentLines
  simp only [List.forall_mem_append, List.forall_mem_singleton]
  refine ⟨⟨⟨⟨⟨⟨⟨⟨⟨⟨⟨harmless_head words, ?_⟩, ?_⟩, ?_⟩, ?_⟩, harmless_cause _⟩, ?_⟩, ?_⟩, ?_⟩, ?_⟩, ?_⟩, ?_⟩
  · exact harmless_literal (by decide) (by decide)
  · refine forall_orLine (harmless_literal (by decide) (by decide)) ?_
    exact List.forall_mem_map.mpr fun item hitem => harmless_timeline (words.timeline item hitem)
  · exact harmless_literal (by decide) (by decide)
  · refine forall_orLine (harmless_literal (by decide) (by decide)) (List.forall_mem_map.mpr ?_)
    intro item hitem
    obtain ⟨source, kind, hsource, hkind⟩ := words.evidence item hitem
    exact harmless_evidence hsource hkind
  · refine List.forall_mem_map.mpr fun item hitem => ?_
    obtain ⟨kind, status, hkind, hstatus⟩ := words.versions item hitem
    exact harmless_rca hkind hstatus
  · exact harmless_literal (by decide) (by decide)
  · refine forall_orLine (harmless_literal (by decide) (by decide)) ?_
    exact List.forall_mem_map.mpr fun action _ => harmless_action action
  · exact harmless_literal (by decide) (by decide)
  · refine forall_orLine (harmless_literal (by decide) (by decide)) (List.forall_mem_map.mpr ?_)
    intro item hitem
    obtain ⟨kind, hkind⟩ := words.notifications item hitem
    exact harmless_notification hkind
  · exact harmless_literal (by decide) (by decide)

end Words

section Pieces

/-- The texts that the markdown of a report shows, in their order. -/
def PostIncidentReport.shown (report : PostIncidentReport) : List String :=
  [report.title, report.service] ++ report.timeline.map TimelineEntry.detail ++
    report.evidence.map EvidenceEntry.summary ++
    report.acceptedRootCause.toList.filter (fun cause => cause ≠ "") ++
    report.rcaVersions.map RcaEntry.summary ++ report.recommendedActions ++
    report.notifications.map (fun item => "(" ++ item.reason ++ ")")

theorem pieces_orLine {Item : Type} {shown : Item → ShownLine} {piece : Item → String}
    (same : ∀ item, (shown item).piece = some (piece item).toList) (empty : String)
    (items : List Item) :
    (orLine (ownLine empty) (items.map shown)).filterMap ShownLine.piece =
      (items.map piece).map String.toList := by
  have all : (items.map shown).filterMap ShownLine.piece = (items.map piece).map String.toList := by
    rw [List.filterMap_map, List.map_map, ← List.filterMap_eq_map]
    exact List.filterMap_congr fun item _ => same item
  cases items with
  | nil => rfl
  | cons item items => exact all

theorem pieces_cause (cause : Option String) : [causeLine cause].filterMap ShownLine.piece =
    (cause.toList.filter fun cause => cause ≠ "").map String.toList := by
  cases cause with
  | none => rfl
  | some cause =>
    by_cases h : cause = ""
    · subst h
      rfl
    · have hkept : (some cause).toList.filter (fun cause => cause ≠ "") = [cause] :=
        List.filter_cons_of_pos (decide_eq_true h)
      rw [hkept]
      unfold causeLine
      dsimp only
      rw [if_neg h]
      rfl

theorem pieces_document (report : PostIncidentReport) :
    (titleLine report :: documentLines report).filterMap ShownLine.piece =
      report.shown.map String.toList := by
  have versions : (report.rcaVersions.map rcaLine).filterMap ShownLine.piece =
      (report.rcaVersions.map RcaEntry.summary).map String.toList := by
    rw [List.filterMap_map, List.map_map, ← List.filterMap_eq_map]
    rfl
  have own : ∀ text, [ownLine text].filterMap ShownLine.piece = [] := fun _ => rfl
  have head : (documentHead report).filterMap ShownLine.piece = [report.service.toList] := rfl
  unfold documentLines PostIncidentReport.shown
  rw [List.filterMap_cons_some (show (titleLine report).piece = some report.title.toList from rfl)]
  simp only [List.filterMap_append, own, head, pieces_cause, versions,
    @pieces_orLine _ timelineLine TimelineEntry.detail fun _ => rfl,
    @pieces_orLine _ evidenceLine EvidenceEntry.summary fun _ => rfl,
    @pieces_orLine _ actionLine id fun _ => rfl,
    @pieces_orLine _ notificationLine (fun item => "(" ++ item.reason ++ ")") fun _ => rfl]
  simp

theorem markdown_secret_free (words : KnownWords report) :
    NoSecret table (renderMarkdown report).toList ↔
      (∀ text ∈ report.shown, NoSecret table text.toList) ∧
        (report.shown.map String.toList).Pairwise KeyApart := by
  have harmless := @harmless_document table report words
  have title : NoLead table (titleLine report).lead :=
    @noLead_literal table "# Post-incident report —".toList (by decide)
  rw [renderMarkdown_document, noSecret_document
    (List.forall_mem_cons.mpr ⟨title, fun line h => (harmless line h).lead⟩) fun line h => (harmless line h).stop,
    pieces_document, List.forall_mem_map]

end Pieces

end Aegis
