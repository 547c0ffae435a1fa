import Aegis.FreshRestart
import Aegis.RcaHistory

namespace Aegis

/-- Python data with exact numbers, as a payload or a JSON column holds it. -/
inductive Datum where
  | none
  | bool (b : Bool)
  | int (n : Int)
  | float (q : ℚ)
  | str (s : String)
  | list (items : List Datum)
  | obj (fields : List (String × Datum))

namespace Datum

/-- `bool(value)` -/
def truthy : Datum → Bool
  | none => false
  | bool b => b
  | int n => n ≠ 0
  | float q => q ≠ 0
  | str s => s ≠ ""
  | list items => !items.isEmpty
  | obj fields => !fields.isEmpty

/-- `value or default` -/
def orElse (value default_ : Datum) : Datum :=
  if value.truthy then value else default_

/-- `fields.get(key)` -/
def get (fields : Dict Datum) (key : String) : Datum :=
  (fields.lookup key).getD none

/-- `type(value).__name__` -/
def typeName : Datum → String
  | none => "NoneType"
  | bool _ => "bool"
  | int _ => "int"
  | float _ => "float"
  | str _ => "str"
  | list _ => "list"
  | obj _ => "dict"

/-- `list(value)` -/
def items : Datum → Except Raised (List Datum)
  | list items => .ok items
  | str s => .ok (s.toList.map fun c => str (String.singleton c))
  | obj fields => .ok (fields.map fun entry => str entry.1)
  | value => .error (.invalid ("'" ++ value.typeName ++ "' object is not iterable"))

/-- A text, for the constructor to strip. -/
def asText : Datum → Except Raised String
  | str s => .ok s
  | value => .error (.other ("'" ++ value.typeName ++ "' object has no attribute 'strip'"))

/-- `list(value or [])` of texts. -/
def texts (value : Datum) : Except Raised (List String) := do
  let items ← (value.orElse (list [])).items
  items.mapM asText

end Datum

/-- `UUID(..)` and `datetime.fromisoformat` on a text, the latter without a moment for a naive
time, and `str(..)`, `int(..)` and `float(..)` on what is not of that type. -/
structure Decoding where
  parseUuid : String → Except Raised Uuid
  fromIsoformat : String → Except Raised (Option Instant)
  strOf : Datum → String
  intOf : Datum → Except Raised Int
  floatOf : Datum → Except Raised ℚ

namespace Decoding

variable (d : Decoding)

def str : Datum → String
  | .str s => s
  | value => d.strOf value

def int : Datum → Except Raised Int
  | .int n => .ok n
  | value => d.intOf value

def float : Datum → Except Raised ℚ
  | .float q => .ok q
  | .int n => .ok n
  | value => d.floatOf value

end Decoding

def RcaVersionKind.value : RcaVersionKind → String
  | .original => "original"
  | .amended => "amended"

def RcaFindingStatus.value : RcaFindingStatus → String
  | .confirmed => "confirmed"
  | .hypothesis => "hypothesis"

def RcaReviewStatus.value : RcaReviewStatus → String
  | .pendingReview => "pending_review"
  | .accepted => "accepted"
  | .rejected => "rejected"

/-- The member of an enumeration with a value. -/
def member {Member : Type} (enumeration : String) (value : Member → String) (members : List Member)
    (text : String) : Except Raised Member :=
  match members.find? fun item => value item = text with
  | some item => .ok item
  | none => .error (.invalid (reprStr text ++ " is not a valid " ++ enumeration))

/-- `RcaVersionKind(value)` -/
def rcaVersionKind : String → Except Raised RcaVersionKind :=
  member "RcaVersionKind" RcaVersionKind.value [.original, .amended]

/-- `RcaFindingStatus(value)` -/
def rcaFindingStatus : String → Except Raised RcaFindingStatus :=
  member "RcaFindingStatus" RcaFindingStatus.value [.confirmed, .hypothesis]

/-- `RcaReviewStatus(value)` -/
def rcaReviewStatus : String → Except Raised RcaReviewStatus :=
  member "RcaReviewStatus" RcaReviewStatus.value [.pendingReview, .accepted, .rejected]

/-- `RcaCitation.as_dict` -/
def RcaCitation.asDict (citation : RcaCitation) : Datum :=
  .obj [("evidence_id", .str citation.evidenceId.str), ("source", .str citation.source),
    ("relevance", .str citation.relevance)]

/-- `RcaReport.as_dict`, with the `isoformat` of the time zone of `created_at`. -/
def RcaReport.asDict (isoformat : Instant → String) (report : RcaReport) : Dict Datum :=
  [("id", .str report.id.str),
    ("incident_id", .str report.incidentId.str),
    ("version", .int report.version),
    ("version_kind", .str report.versionKind.value),
    ("summary", .str report.summary.text),
    ("root_cause", .str report.rootCause.text),
    ("contributing_factors", .list (report.contributingFactors.map .str)),
    ("confidence", .float report.confidence),
    ("status", .str report.findingStatus.value),
    ("review_status", .str report.reviewStatus.value),
    ("evidence_citations", .list (report.citations.map RcaCitation.asDict)),
    ("recommended_actions", .list (report.recommendedActions.map .str)),
    ("model_id", .str report.modelId.text),
    ("input_tokens", .int report.inputTokens),
    ("output_tokens", .int report.outputTokens),
    ("created_at", .str (isoformat report.createdAt))]

/-- The columns of a row of `rca_reports`. -/
structure RcaReportModel where
  id : Uuid
  incidentId : Uuid
  version : Int
  versionKind : String
  summary : String
  rootCause : String
  contributingFactors : Datum
  confidence : ℚ
  findingStatus : String
  reviewStatus : String
  evidenceCitations : Datum
  recommendedActions : Datum
  modelId : String
  inputTokens : Int
  outputTokens : Int
  createdAt : Instant

/-- `_to_orm` -/
def RcaReport.toOrm (report : RcaReport) : RcaReportModel where
  id := report.id
  incidentId := report.incidentId
  version := report.version
  versionKind := report.versionKind.value
  summary := report.summary.text
  rootCause := report.rootCause.text
  contributingFactors := .list (report.contributingFactors.map .str)
  confidence := report.confidence
  findingStatus := report.findingStatus.value
  reviewStatus := report.reviewStatus.value
  evidenceCitations := .list (report.citations.map RcaCitation.asDict)
  recommendedActions := .list (report.recommendedActions.map .str)
  modelId := report.modelId.text
  inputTokens := report.inputTokens
  outputTokens := report.outputTokens
  createdAt := report.createdAt

section Decode

variable (d : Decoding)

/-- `str(fields.get(key) or default)` -/
def Decoding.textOf (fields : Dict Datum) (key default_ : String) : String :=
  d.str ((Datum.get fields key).orElse (.str default_))

/-- A citation of a mapping, whose `evidence_id` has to be there. -/
def Decoding.citation (fields : Dict Datum) : Except Raised RcaCitation :=
  match fields.lookup "evidence_id" with
  | none => .error (.other "'evidence_id'")
  | some value => (d.parseUuid (d.str value)).map fun evidenceId =>
    RcaCitation.new evidenceId (d.textOf fields "source" "") (d.textOf fields "relevance" "")

/-- The citations of the mappings that are taken. -/
def Decoding.citations (taken : Dict Datum → Bool) (value : Datum) :
    Except Raised (List RcaCitation) := do
  let items ← (value.orElse (.list [])).items
  (items.filterMap fun item => match item with
    | .obj fields => if taken fields then some fields else none
    | _ => none).mapM d.citation

/-- `_to_domain` -/
def RcaReportModel.toDomain (row : RcaReportModel) : Except Raised RcaReport := do
  let citations ← d.citations (fun _ => true) row.evidenceCitations
  let versionKind ← rcaVersionKind row.versionKind
  let factors ← row.contributingFactors.texts
  let findingStatus ← rcaFindingStatus row.findingStatus
  let reviewStatus ← rcaReviewStatus row.reviewStatus
  let actions ← row.recommendedActions.texts
  RcaReport.new row.id row.incidentId row.version.toNat versionKind row.summary row.rootCause
    factors row.confidence findingStatus reviewStatus citations actions row.modelId
    row.inputTokens row.outputTokens row.createdAt

/-- `created_at` of a payload, absent where the payload has no text for it. -/
def Decoding.createdAt (payload : Dict Datum) : Except Raised (Option (Option Instant)) :=
  match Datum.get payload "created_at" with
  | .str created =>
    if created = "" then .ok none
    else (d.fromIsoformat (if created.toList.getLast? = some 'Z' then
      String.ofList created.toList.dropLast ++ "+00:00" else created)).map some
  | _ => .ok none

/-- The constructor on a time that may be naive, which it checks last. -/
def requireAware (moment : Option Instant) (make : Instant → Except Raised RcaReport) :
    Except Raised RcaReport := do
  let report ← make (moment.getD 0)
  if moment.isNone then .error (.invalid "created_at must be timezone-aware.") else pure report

/-- `report_from_payload`, on the dict itself. -/
def reportFromDict (now : Instant) (payload : Dict Datum) : Except Raised (Option RcaReport) :=
  let reportId := Datum.get payload "id"
  let incidentId := Datum.get payload "incident_id"
  if !reportId.truthy || !incidentId.truthy then .ok none
  else do
    let citations ← d.citations (fun item => (Datum.get item "evidence_id").truthy)
      (Datum.get payload "evidence_citations")
    if citations.isEmpty then pure none
    else do
      let createdAt ← d.createdAt payload
      let id ← d.parseUuid (d.str reportId)
      let incidentId ← d.parseUuid (d.str incidentId)
      let version ← d.int ((Datum.get payload "version").orElse (.int 1))
      let versionKind ← rcaVersionKind (d.textOf payload "version_kind" "original")
      let factors ← (Datum.get payload "contributing_factors").texts
      let confidence ← d.float ((Datum.get payload "confidence").orElse (.int 0))
      let findingStatus ← rcaFindingStatus (d.textOf payload "status" "hypothesis")
      let reviewStatus ← rcaReviewStatus (d.textOf payload "review_status" "pending_review")
      let actions ← (Datum.get payload "recommended_actions").texts
      let inputTokens ← d.int ((Datum.get payload "input_tokens").orElse (.int 0))
      let outputTokens ← d.int ((Datum.get payload "output_tokens").orElse (.int 0))
      let report ← requireAware (createdAt.getD (some now)) (RcaReport.new id incidentId
        version.toNat versionKind (d.textOf payload "summary" "")
        (d.textOf payload "root_cause" "") factors confidence findingStatus reviewStatus citations
        actions (d.textOf payload "model_id" "fake-llm") inputTokens outputTokens)
      pure (some report)

end Decode

/-- A report that its constructor made, from citations that theirs made. -/
def RcaReport.Constructed (report : RcaReport) : Prop :=
  ∃ id incidentId version versionKind summary rootCause factors confidence findingStatus
    reviewStatus citations actions modelId inputTokens outputTokens createdAt,
    (∀ citation ∈ citations, ∃ evidenceId source relevance,
      citation = RcaCitation.new evidenceId source relevance) ∧
    RcaReport.new id incidentId version versionKind summary rootCause factors confidence
      findingStatus reviewStatus citations actions modelId inputTokens outputTokens createdAt =
        .ok report

section Laws

theorem RcaCitation.new_new (evidenceId : Uuid) (source relevance : String) :
    RcaCitation.new evidenceId (strip source) (strip relevance) =
      RcaCitation.new evidenceId source relevance := by
  unfold RcaCitation.new
  rw [strip_strip, strip_strip]

theorem RcaReport.Constructed.normal {report : RcaReport} (h : report.Constructed) :
    NormalRow report := by
  obtain ⟨_, _, _, _, _, _, _, _, _, _, citations, _, _, _, _, _, built, h⟩ := h
  refine rcaReport_new_normal (fun citation hcitation => ?_) h
  obtain ⟨evidenceId, source, relevance, rfl⟩ := built citation hcitation
  exact RcaCitation.new_new evidenceId source relevance

theorem requireText_self (text : RequiredText) (fieldName : String) :
    requireText text.text fieldName = .ok text := by
  have hne : ¬strip text.text = "" := by
    rw [text.stripped]
    exact text.ne
  obtain ⟨text, stripped, ne⟩ := text
  unfold requireText
  rw [dif_neg hne]
  simp only [stripped]

/-- The constructor takes back what it made. -/
theorem rcaReport_new_self (report : RcaReport) :
    RcaReport.new report.id report.incidentId report.version report.versionKind report.summary.text
      report.rootCause.text report.contributingFactors report.confidence report.findingStatus
      report.reviewStatus report.citations report.recommendedActions report.modelId.text
      report.inputTokens report.outputTokens report.createdAt = .ok report.rebuilt := by
  have hversion : ¬report.version < 1 := by
    have := report.version_pos
    omega
  unfold RcaReport.new
  rw [dif_neg (not_not.mpr report.confidence_range), dif_neg hversion, dif_neg report.cited,
    requireText_self, requireText_self, requireText_self]
  rfl

theorem rcaVersionKind_value (kind : RcaVersionKind) : rcaVersionKind kind.value = .ok kind := by
  cases kind <;> rfl

theorem rcaFindingStatus_value (status : RcaFindingStatus) :
    rcaFindingStatus status.value = .ok status := by
  cases status <;> rfl

theorem rcaReviewStatus_value (status : RcaReviewStatus) :
    rcaReviewStatus status.value = .ok status := by
  cases status <;> rfl

theorem orElse_list (items : List Datum) :
    (Datum.list items).orElse (.list []) = .list items := by
  cases items <;> rfl

theorem texts_str (items : List String) : (Datum.list (items.map .str)).texts = .ok items := by
  unfold Datum.texts
  rw [orElse_list]
  change (items.map Datum.str).mapM Datum.asText = .ok items
  induction items with
  | nil => rfl
  | cons item rest ih =>
    rw [List.map_cons, List.mapM_cons, ih]
    rfl

variable {d : Decoding}

theorem truthy_str {text : String} (h : text ≠ "") : (Datum.str text).truthy = true :=
  decide_eq_true h

theorem str_orElse {text : String} (h : text ≠ "") (default_ : Datum) :
    d.str ((Datum.str text).orElse default_) = text := by
  unfold Datum.orElse
  rw [if_pos (truthy_str h)]
  rfl

theorem str_orElse_empty (text : String) : d.str ((Datum.str text).orElse (.str "")) = text := by
  by_cases h : text = ""
  · rw [h]
    rfl
  · exact str_orElse h _

theorem int_orElse_zero (n : Int) : d.int ((Datum.int n).orElse (.int 0)) = .ok n := by
  unfold Datum.orElse
  split
  · rfl
  next hzero =>
    have : n = 0 := by simpa [Datum.truthy] using hzero
    rw [this]
    rfl

theorem float_orElse_zero (q : ℚ) : d.float ((Datum.float q).orElse (.int 0)) = .ok q := by
  unfold Datum.orElse
  split
  · rfl
  next hzero =>
    have : q = 0 := by simpa [Datum.truthy] using hzero
    rw [this]
    rfl

variable (uuids : ∀ id : Uuid, d.parseUuid id.str = .ok id)

include uuids in
theorem citation_asDict (citation : RcaCitation) :
    d.citation [("evidence_id", .str citation.evidenceId.str), ("source", .str citation.source),
      ("relevance", .str citation.relevance)] =
        .ok (RcaCitation.new citation.evidenceId citation.source citation.relevance) := by
  change (d.parseUuid citation.evidenceId.str).map (fun evidenceId => RcaCitation.new evidenceId
    (d.str ((Datum.str citation.source).orElse (.str "")))
    (d.str ((Datum.str citation.relevance).orElse (.str "")))) = _
  rw [uuids, str_orElse_empty, str_orElse_empty]
  rfl

include uuids in
theorem citations_asDict {report : RcaReport} (normal : NormalRow report)
    {taken : Dict Datum → Bool} (h : ∀ citation : RcaCitation, taken
      [("evidence_id", .str citation.evidenceId.str), ("source", .str citation.source),
        ("relevance", .str citation.relevance)] = true) :
    d.citations taken (.list (report.citations.map RcaCitation.asDict)) = .ok report.citations := by
  have hbuilt := (normalRow_parts normal).2
  unfold Decoding.citations
  rw [orElse_list]
  change List.mapM d.citation (List.filterMap _ (report.citations.map RcaCitation.asDict)) = _
  generalize report.citations = citations at hbuilt
  induction citations with
  | nil => rfl
  | cons citation rest ih =>
    have hrest := ih fun other hother => hbuilt other (List.mem_cons_of_mem _ hother)
    rw [List.map_cons, List.filterMap_cons]
    dsimp only [RcaCitation.asDict]
    rw [if_pos (h citation)]
    dsimp only
    rw [List.mapM_cons, citation_asDict uuids, hbuilt citation List.mem_cons_self, hrest]
    rfl

theorem NormalRow.remade {report : RcaReport} (normal : NormalRow report) :
    RcaReport.new report.id report.incidentId (report.version : Int).toNat report.versionKind
      report.summary.text report.rootCause.text report.contributingFactors report.confidence
      report.findingStatus report.reviewStatus report.citations report.recommendedActions
      report.modelId.text report.inputTokens report.outputTokens report.createdAt = .ok report := by
  rw [Int.toNat_natCast, rcaReport_new_self, (normalRow_parts normal).1]

include uuids in
theorem toDomain_toOrm {report : RcaReport} (normal : NormalRow report) :
    report.toOrm.toDomain d = .ok report := by
  unfold RcaReportModel.toDomain RcaReport.toOrm
  dsimp only
  rw [citations_asDict uuids normal fun _ => rfl, rcaVersionKind_value, rcaFindingStatus_value,
    rcaReviewStatus_value, texts_str, texts_str]
  exact normal.remade

theorem createdAt_asDict {isoformat : Instant → String} {report : RcaReport}
    (offset : ∃ c, (isoformat report.createdAt).toList.getLast? = some c ∧ c.isDigit = true)
    (moment : d.fromIsoformat (isoformat report.createdAt) = .ok (some report.createdAt)) :
    d.createdAt (report.asDict isoformat) = .ok (some (some report.createdAt)) := by
  obtain ⟨c, hlast, hdigit⟩ := offset
  have hget : Datum.get (report.asDict isoformat) "created_at" =
      .str (isoformat report.createdAt) := rfl
  have hne : isoformat report.createdAt ≠ "" := by
    intro hempty
    rw [hempty] at hlast
    cases hlast
  have hz : ¬(isoformat report.createdAt).toList.getLast? = some 'Z' := by
    intro hz
    rw [hlast] at hz
    cases hz
    exact absurd hdigit (by decide)
  unfold Decoding.createdAt
  rw [hget]
  dsimp only
  rw [if_neg hne, if_neg hz, moment]
  rfl

theorem Uuid.str_ne_empty (id : Uuid) : id.str ≠ "" := by
  intro h
  have hdigits := id.str_without_hyphens
  rw [h] at hdigits
  have hlength := congrArg List.length hdigits
  rw [hexChars_length] at hlength
  cases hlength

theorem textOf_str {fields : Dict Datum} {key text : String} (h : text ≠ "") (default_ : String)
    (found : Datum.get fields key = .str text) : d.textOf fields key default_ = text := by
  unfold Decoding.textOf
  rw [found, str_orElse h]

theorem texts_get {fields : Dict Datum} {key : String} {items : List String}
    (found : Datum.get fields key = .list (items.map .str)) :
    (Datum.get fields key).texts = .ok items := by
  rw [found, texts_str]

include uuids in
theorem reportFromDict_asDict {isoformat : Instant → String} {report : RcaReport} (now : Instant)
    (normal : NormalRow report)
    (offset : ∃ c, (isoformat report.createdAt).toList.getLast? = some c ∧ c.isDigit = true)
    (moment : d.fromIsoformat (isoformat report.createdAt) = .ok (some report.createdAt)) :
    reportFromDict d now (report.asDict isoformat) = .ok (some report) := by
  have htruthy : ∀ id : Uuid, (Datum.str id.str).truthy = true := fun id => truthy_str id.str_ne_empty
  have hids : ¬(!(Datum.str report.id.str).truthy || !(Datum.str report.incidentId.str).truthy) =
      true := by
    rw [htruthy, htruthy]
    decide
  have htaken : ∀ citation : RcaCitation, (Datum.get [("evidence_id", .str citation.evidenceId.str),
      ("source", .str citation.source), ("relevance", .str citation.relevance)]
        "evidence_id").truthy = true := by
    intro citation
    rw [show Datum.get [("evidence_id", .str citation.evidenceId.str),
      ("source", .str citation.source), ("relevance", .str citation.relevance)] "evidence_id" =
        .str citation.evidenceId.str from rfl]
    exact htruthy _
  have hcitations := @citations_asDict d uuids report normal
    (fun item => (Datum.get item "evidence_id").truthy) htaken
  have hcited : ¬report.citations.isEmpty = true := by
    rw [List.isEmpty_iff]
    exact report.cited
  have hversion : d.int ((Datum.int report.version).orElse (.int 1)) = .ok (report.version : Int) := by
    have htruthy : (Datum.int report.version).truthy = true := by
      have := report.version_pos
      exact decide_eq_true (by omega)
    unfold Datum.orElse
    rw [if_pos htruthy]
    rfl
  have hkind : report.versionKind.value ≠ "" := by cases report.versionKind <;> decide
  have hstatus : report.findingStatus.value ≠ "" := by cases report.findingStatus <;> decide
  have hreview : report.reviewStatus.value ≠ "" := by cases report.reviewStatus <;> decide
  unfold reportFromDict
  dsimp only
  rw [show Datum.get (report.asDict isoformat) "id" = .str report.id.str from rfl,
    show Datum.get (report.asDict isoformat) "incident_id" = .str report.incidentId.str from rfl,
    show Datum.get (report.asDict isoformat) "evidence_citations" =
      .list (report.citations.map RcaCitation.asDict) from rfl,
    show Datum.get (report.asDict isoformat) "version" = .int report.version from rfl,
    show Datum.get (report.asDict isoformat) "confidence" = .float report.confidence from rfl,
    show Datum.get (report.asDict isoformat) "input_tokens" = .int report.inputTokens from rfl,
    show Datum.get (report.asDict isoformat) "output_tokens" = .int report.outputTokens from rfl,
    if_neg hids, hcitations, createdAt_asDict offset moment,
    show d.str (Datum.str report.id.str) = report.id.str from rfl,
    show d.str (Datum.str report.incidentId.str) = report.incidentId.str from rfl, uuids, uuids,
    hversion, textOf_str hkind "original" rfl, textOf_str hstatus "hypothesis" rfl,
    textOf_str hreview "pending_review" rfl, textOf_str report.summary.ne "" rfl,
    textOf_str report.rootCause.ne "" rfl, textOf_str report.modelId.ne "fake-llm" rfl,
    rcaVersionKind_value, rcaFindingStatus_value, rcaReviewStatus_value, texts_get rfl,
    texts_get rfl, float_orElse_zero, int_orElse_zero, int_orElse_zero]
  change (if report.citations.isEmpty then pure none else _) = _
  rw [if_neg hcited]
  change (requireAware (some report.createdAt) _).bind _ = _
  unfold requireAware
  change ((RcaReport.new _ _ _ _ _ _ _ _ _ _ _ _ _ _ _ _).bind _).bind _ = _
  rw [Option.getD_some, normal.remade]
  rfl

end Laws

/-- A report reads back as it was, from its dict and from its row. -/
theorem rca_report_round_trips (d : Decoding) (isoformat : Instant → String) (now : Instant)
    (report : RcaReport) (constructed : report.Constructed)
    (uuids : ∀ id : Uuid, d.parseUuid id.str = .ok id)
    (offset : ∃ c, (isoformat report.createdAt).toList.getLast? = some c ∧ c.isDigit = true)
    (moment : d.fromIsoformat (isoformat report.createdAt) = .ok (some report.createdAt)) :
    reportFromDict d now (report.asDict isoformat) = .ok (reportFromPayload (.report report)) ∧
      report.toOrm.toDomain d = .ok report :=
  ⟨reportFromDict_asDict uuids now constructed.normal offset moment,
    toDomain_toOrm uuids constructed.normal⟩

section Plain

theorem hexValue_digitChar : ∀ n < 16, hexValue (Nat.digitChar n) = n := by
  decide

theorem readUuid_str (id : Uuid) : readUuid id.str = some id := by
  have hdigits : (id.str.toList.filter fun c => c ≠ '-') = hexChars 32 id.toNat :=
    id.str_without_hyphens
  have hhex : (hexChars 32 id.toNat).all isHexDigit = true :=
    List.all_eq_true.mpr fun c => hexChars_isHexDigit
  unfold readUuid
  dsimp only
  rw [hdigits, hexChars_length, hhex, foldl_hexChars hexValue_digitChar]
  have hsmall : id.toNat % 16 ^ 32 = id.toNat := Nat.mod_eq_of_lt (by
    have := id.isLt
    norm_num at this ⊢
    exact this)
  rw [if_pos (by decide), hsmall, Nat.zero_mul, Nat.zero_add, BitVec.ofNat_toNat,
    BitVec.setWidth_eq]

/-- Decoders of the texts that `str` and `isoformat` give, the latter on the first day. -/
def plainDecoding : Decoding where
  parseUuid text := (readUuid text).elim (.error (.invalid "badly formed hexadecimal UUID string"))
    .ok
  fromIsoformat text := (readFirstDay text).elim
    (.error (.invalid ("Invalid isoformat string: " ++ reprStr text))) fun moment => .ok (some moment)
  strOf _ := ""
  intOf _ := .error (.invalid "invalid literal for int()")
  floatOf _ := .error (.invalid "could not convert to float")

/-- A report with everything that a default could replace: no confidence, no texts, no tokens. -/
def bareReport : RcaReport where
  id := 1
  incidentId := 2
  version := 1
  versionKind := .original
  summary := ⟨"pool exhausted", by decide +kernel, by decide⟩
  rootCause := ⟨"leak", by decide +kernel, by decide⟩
  contributingFactors := []
  confidence := 0
  findingStatus := .hypothesis
  reviewStatus := .pendingReview
  citations := [RcaCitation.new 7 "" ""]
  recommendedActions := []
  modelId := ⟨"model", by decide +kernel, by decide⟩
  inputTokens := 0
  outputTokens := 0
  createdAt := 0
  version_pos := first_version
  confidence_range := by norm_num
  cited := List.cons_ne_nil _ _

theorem rca_report_round_trips_bare :
    reportFromDict plainDecoding 5 (bareReport.asDict isoformat) =
        .ok (reportFromPayload (.report bareReport)) ∧
      bareReport.toOrm.toDomain plainDecoding = .ok bareReport := by
  refine rca_report_round_trips plainDecoding isoformat 5 bareReport ?_ (fun id => ?_) ?_ ?_
  · refine ⟨_, _, _, _, _, _, _, _, _, _, _, _, _, _, _, _, fun citation hcitation => ?_,
      rcaReport_new_self bareReport⟩
    rw [List.mem_singleton.mp hcitation]
    exact ⟨7, "", "", rfl⟩
  · unfold plainDecoding
    dsimp only
    rw [readUuid_str]
    rfl
  · exact ⟨'0', by decide +kernel, by decide⟩
  · decide +kernel

end Plain

end Aegis
