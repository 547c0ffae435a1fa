import Aegis.Incident
import Aegis.InvokeTool
import Aegis.Raising

namespace Aegis

open Raising Proc

/-- An exception: a `ValidationError`, `TypeError` or `ValueError`, or any other. -/
inductive Raised where
  | invalid (text : String)
  | other (text : String)
  deriving DecidableEq

def Raised.text : Raised → String
  | .invalid text => text
  | .other text => text

/-- What a process takes from its host: `str.lower`, `datetime.fromisoformat` (a naive time is
UTC), the clock and `uuid4`. -/
structure Host (World : Type) where
  services : Services
  lower : String → String
  fromIsoformat : String → Option Instant
  now : World → Instant × World
  uuid4 : World → Uuid × World

inductive EvidenceSource where
  | simulator
  | retrieve
  | code
  | manual
  deriving DecidableEq, Repr

def EvidenceSource.value : EvidenceSource → String
  | .simulator => "simulator"
  | .retrieve => "retrieve"
  | .code => "code"
  | .manual => "manual"

inductive EvidenceKind where
  | log
  | metric
  | trace
  | chunk
  | deploy
  | note
  deriving DecidableEq, Repr

def EvidenceKind.value : EvidenceKind → String
  | .log => "log"
  | .metric => "metric"
  | .trace => "trace"
  | .chunk => "chunk"
  | .deploy => "deploy"
  | .note => "note"

def parseEvidenceKind (value : String) : Option EvidenceKind :=
  [.log, .metric, .trace, .chunk, .deploy, .note].find? fun kind => kind.value = value

structure Evidence where
  id : Uuid
  incidentId : Uuid
  source : EvidenceSource
  kind : EvidenceKind
  contentRef : RequiredText
  summary : String
  metadata : Fields
  collectedAt : Instant
  summary_stripped : strip summary = summary

/-- `_require_text` -/
def requireText (value fieldName : String) : Except Raised RequiredText :=
  if hne : strip value = "" then .error (.invalid (fieldName ++ " must not be empty."))
  else .ok ⟨strip value, strip_strip value, hne⟩

/-- `_sanitize_metadata` -/
def sanitizeMetadata (metadata : Fields) : Fields :=
  Dict.pop (Dict.pop metadata "embedding") "embeddings"

/-- `Evidence.__init__` -/
def Evidence.new (id incidentId : Uuid) (source : EvidenceSource) (kind : EvidenceKind)
    (contentRef summary : String) (metadata : Fields) (collectedAt : Instant) :
    Except Raised Evidence :=
  (requireText contentRef "content_ref").map fun contentRef =>
    { id, incidentId, source, kind, contentRef, collectedAt
      summary := strip summary
      metadata := sanitizeMetadata metadata
      summary_stripped := strip_strip summary }

def markerPrefix : List Char := "[REDACTED:".toList

/-- `marker_count` of one text. -/
def markerCount (text : String) : Nat :=
  text.toList.tails.countP fun tail => markerPrefix.isPrefixOf tail

mutual

/-- `_metadata_markers`: strings and mappings, also directly inside a list. -/
def metadataMarkers : List (String × Value) → Nat
  | [] => 0
  | (_, .str s) :: rest => markerCount s + metadataMarkers rest
  | (_, .obj fields) :: rest => metadataMarkers fields + metadataMarkers rest
  | (_, .list items) :: rest => itemMarkers items + metadataMarkers rest
  | _ :: rest => metadataMarkers rest

def itemMarkers : List Value → Nat
  | [] => 0
  | .str s :: rest => markerCount s + itemMarkers rest
  | .obj fields :: rest => metadataMarkers fields + itemMarkers rest
  | _ :: rest => itemMarkers rest

end

/-- The `redaction_count` a row already carries. -/
def priorRedactions (metadata : Fields) : Int :=
  match Fields.get metadata "redaction_count" with
  | .int n => n
  | .bool true => 1
  | _ => 0

/-- `prepare_evidence`: redact the texts of a row and keep the highest redaction count. -/
def prepareEvidence (redact : String → RedactionResult) (evidence : Evidence) :
    Except Raised Evidence :=
  let summary := redact evidence.summary
  let contentRef := redact evidence.contentRef.text
  let (metadata, metaHits) := redactFields redact evidence.metadata
  let hits := summary.count + contentRef.count + metaHits
  let markers := markerCount summary.text + markerCount contentRef.text + metadataMarkers metadata
  let count := max (max (hits : Int) (priorRedactions metadata)) markers
  Evidence.new evidence.id evidence.incidentId evidence.source evidence.kind contentRef.text
    summary.text (Dict.set metadata "redaction_count" (.int count)) evidence.collectedAt

def evidenceTextCap : Nat := 800

/-- `_cap` -/
def cap (redact : String → RedactionResult) (text : String) : String :=
  let stripped := (redact (strip text)).text
  if stripped.length ≤ evidenceTextCap then stripped
  else String.ofList (stripped.toList.take (evidenceTextCap - 3)) ++ "..."

/-- The dicts that the three collectors build. -/
inductive Collected where
  | observability (kind source timestamp service summary : String)
  | knowledge (timestamp text document section_ chunkId : String)
  | code (kind timestamp service version path summary : String)
  deriving DecidableEq

/-- A collected item with the tags of the audited call it came from. -/
structure CollectedItem where
  content : Collected
  tool : String
  auditId : Option String
  deriving DecidableEq

/-- The moment of an ISO text, whose final `Z` stands for UTC. -/
def parseUtc {World : Type} (host : Host World) (raw : String) : Option Instant :=
  let text := strip raw
  host.fromIsoformat
    (if text.toList.getLast? = some 'Z' then String.ofList text.toList.dropLast ++ "+00:00"
    else text)

/-- `_parse_collected_at` of a text. -/
def parseCollectedAt {World : Type} (host : Host World) (raw : String) : Option Instant :=
  if raw = "" then none else parseUtc host raw

section Mint

variable {World : Type} (host : Host World)

/-- `datetime.now(timezone.utc)` -/
def utcNow : Proc World Raised Instant := draw host.now

def mintId : Proc World Raised Uuid := draw host.uuid4

/-- `moment or _utc_now()` -/
def momentOr : Option Instant → Proc World Raised Instant
  | some moment => pure moment
  | none => utcNow host

/-- `prepare_evidence(Evidence.create(..))`: a new id, and the time of the item if it has one. -/
def mintEvidence (incidentId : Uuid) (source : EvidenceSource) (kind : EvidenceKind)
    (contentRef summary : String) (metadata : Fields) (timestamp : String) :
    Proc World Raised Evidence := do
  let id ← mintId host
  let collectedAt ← momentOr host (parseCollectedAt host timestamp)
  let evidence ← fromExcept
    (Evidence.new id incidentId source kind contentRef summary metadata collectedAt)
  fromExcept (prepareEvidence host.services.redact evidence)

def citationFields (document section_ chunkId : String) : Fields :=
  [("document", .str document), ("section", .str section_), ("chunk_id", .str chunkId)]

/-- `evidence_from_collected_item` -/
def evidenceFromCollectedItem (incidentId : Uuid) (item : CollectedItem) :
    Proc World Raised Evidence :=
  let auditId := item.auditId.elim Value.none Value.str
  match item.content with
  | .observability kind _ timestamp service summary =>
    let kind := (parseEvidenceKind (orElse kind "log")).getD .log
    mintEvidence host incidentId .simulator kind
      ("simulator:" ++ service ++ ":" ++ kind.value ++ ":" ++ timestamp)
      (cap host.services.redact summary)
      [("tool", .str "observability"), ("service", .str service), ("untrusted", .bool true),
        ("audit_id", auditId)] timestamp
  | .knowledge timestamp text document section_ chunkId =>
    mintEvidence host incidentId .retrieve .chunk (orElse (orElse chunkId document) "retrieve")
      (cap host.services.redact text)
      [("tool", .str "retrieve"), ("citation", .obj (citationFields document section_ chunkId)),
        ("query", .none), ("untrusted", .bool true), ("audit_id", auditId)] timestamp
  | .code kind timestamp service version path summary =>
    let path := orElse path ("code:" ++ orElse service "unknown")
    mintEvidence host incidentId .code (if kind = "deploy" then .deploy else .note) path
      (cap host.services.redact summary)
      [("tool", .str "code_search"), ("version", .str version), ("path", .str path),
        ("service", .str service), ("untrusted", .bool true), ("audit_id", auditId)] timestamp

/-- `CollectingEvidenceRecorder.record_collected` up to the extension of its bucket: every item
becomes a row, or none does. -/
def recordCollected (incidentId : Uuid) (items : List CollectedItem) :
    Proc World Raised (List Evidence) :=
  mapEach (evidenceFromCollectedItem host incidentId) items

end Mint

theorem requireText_text {value fieldName : String} {text : RequiredText}
    (h : requireText value fieldName = .ok text) : text.text = strip value := by
  unfold requireText at h
  split at h
  · cases h
  · cases h
    rfl

theorem lookup_redactFields {redact : String → RedactionResult} (fields : Fields) (key : String) :
    (redactFields redact fields).1.lookup key =
      (fields.lookup key).map fun value => (redactMapping redact value).1 := by
  induction fields with
  | nil => rfl
  | cons entry rest ih =>
    obtain ⟨k, value⟩ := entry
    rw [redactFields, List.lookup_cons, List.lookup_cons, ih]
    split <;> rfl

/-- What the constructor makes of its arguments. -/
structure EvidenceParts (id incidentId : Uuid) (contentRef summary : String) (metadata : Fields)
    (row : Evidence) : Prop where
  id : row.id = id
  incidentId : row.incidentId = incidentId
  contentRef : row.contentRef.text = strip contentRef
  summary : row.summary = strip summary
  metadata : row.metadata = sanitizeMetadata metadata

theorem evidence_new_parts {id incidentId : Uuid} {source : EvidenceSource} {kind : EvidenceKind}
    {contentRef summary : String} {metadata : Fields} {collectedAt : Instant} {row : Evidence}
    (h : Evidence.new id incidentId source kind contentRef summary metadata collectedAt = .ok row) :
    EvidenceParts id incidentId contentRef summary metadata row := by
  unfold Evidence.new at h
  cases href : requireText contentRef "content_ref" with
  | error raised =>
    rw [href] at h
    cases h
  | ok text =>
    rw [href] at h
    cases h
    exact ⟨rfl, rfl, requireText_text href, rfl, rfl⟩

/-- Redaction keeps the identity of a row. -/
theorem prepareEvidence_ok {redact : String → RedactionResult} {row prepared : Evidence}
    (h : prepareEvidence redact row = .ok prepared) :
    prepared.id = row.id ∧ prepared.incidentId = row.incidentId :=
  ⟨(evidence_new_parts h).id, (evidence_new_parts h).incidentId⟩

variable {World : Type} {host : Host World} {incidentId : Uuid}

/-- A minted row is built, and then prepared. -/
theorem mintEvidence_ok {source : EvidenceSource} {kind : EvidenceKind}
    {contentRef summary : String} {metadata : Fields} {timestamp : String} {row : Evidence}
    {s t : World}
    (h : mintEvidence host incidentId source kind contentRef summary metadata timestamp s =
      (.ok row, t)) :
    ∃ id built, EvidenceParts id incidentId contentRef summary metadata built ∧
      prepareEvidence host.services.redact built = .ok row := by
  obtain ⟨id, u, _, h⟩ := bind_eq_ok.mp h
  obtain ⟨collectedAt, v, _, h⟩ := bind_eq_ok.mp h
  obtain ⟨built, w, hbuilt, hrow⟩ := bind_eq_ok.mp h
  obtain ⟨hnew, _⟩ := fromExcept_eq_ok.mp hbuilt
  obtain ⟨hprepared, _⟩ := fromExcept_eq_ok.mp hrow
  exact ⟨id, built, evidence_new_parts hnew, hprepared⟩

theorem mintEvidence_incident {source : EvidenceSource} {kind : EvidenceKind}
    {contentRef summary : String} {metadata : Fields} {timestamp : String} :
    Returns (mintEvidence host incidentId source kind contentRef summary metadata timestamp)
      fun row => row.incidentId = incidentId := by
  intro s row t h
  obtain ⟨id, built, hbuilt, hprepared⟩ := mintEvidence_ok h
  exact (prepareEvidence_ok hprepared).2.trans hbuilt.incidentId

/-- The rows of a recorded batch belong to the incident they were recorded for. -/
theorem recordCollected_incident (items : List CollectedItem) :
    Returns (recordCollected host incidentId items)
      fun rows => ∀ row ∈ rows, row.incidentId = incidentId := by
  refine returns_mapEach (fun item => ?_) items
  unfold evidenceFromCollectedItem
  dsimp only
  split <;> exact mintEvidence_incident

end Aegis
