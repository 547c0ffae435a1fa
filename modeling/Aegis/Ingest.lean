import Aegis.Chunking
import Aegis.Evidence
import Aegis.Raising

namespace Aegis

open Raising Proc

def allowedRelativePaths : List String :=
  ["docs/knowledge/catalog/service-map.md",
    "docs/knowledge/runbooks/notification-queue-backlog.md",
    "docs/knowledge/runbooks/order-dependency-failure.md",
    "docs/knowledge/runbooks/payment-db-exhaustion.md",
    "docs/knowledge/runbooks/payment-latency-spike.md",
    "docs/knowledge/runbooks/user-bad-deployment.md",
    "docs/knowledge/runbooks/user-memory-leak.md",
    "docs/knowledge/incidents/INC-2026-0328-user-memory-leak.md",
    "docs/knowledge/incidents/INC-2026-0412-payment-latency.md",
    "docs/knowledge/incidents/INC-2026-0422-queue-backlog.md",
    "docs/knowledge/incidents/INC-2026-0511-db-exhaustion.md",
    "docs/knowledge/incidents/INC-2026-0709-bad-deployment.md",
    "docs/knowledge/incidents/INC-2026-0814-dependency-failure.md",
    "docs/adr/ADR-001-modular-monolith.md",
    "docs/adr/ADR-002-postgresql.md",
    "docs/adr/ADR-003-event-driven-investigation.md",
    "docs/adr/ADR-004-aws-bedrock.md",
    "docs/architecture/platform-overview.md",
    "docs/architecture/system-boundaries.md",
    "docs/architecture/incident-flow.md",
    "docs/architecture/context.md",
    "docs/security/threat-model.md",
    "docs/product/product-vision.md",
    "docs/releases/v0.3.md"]

/-- The repository on disk. None of the allowlisted files is a link to another. -/
structure Repository where
  root : String
  sha256 : ByteArray → BitVec 256
  relativePosix : String → String
  plain : ∀ rel ∈ allowedRelativePaths, relativePosix rel = rel

/-- What `_document_from_chunk` writes of a chunk. -/
structure Document where
  chunkId : String
  text : String
  embedding : List ℚ
  sourcePath : String
  section_ : String
  docType : String
  service : String
  scenario : String
  date : String
  incidentId : String
  role : String
  parentId : String

/-- The index `aegis-knowledge`: the properties of its mapping and the documents by `_id`. -/
structure KnowledgeIndex where
  properties : Fields
  docs : Dict Document

/-- The files of the repository by relative path, the index, and the manifest files as the JSON
they hold. -/
structure KnowledgeBase where
  files : String → Option ByteArray
  index : Option KnowledgeIndex
  manifests : String → Option Value

/-- How a request that changes the index ends; one that fails may have done a part. -/
inductive Reply (Part : Type) where
  | done
  | failed (raised : Raised) (part : Part)

/-- What becomes of the calls that one ingest run makes: `none` and `done` are answers. -/
structure Answers where
  getIndex : Option Raised
  deleteIndex : Reply Bool
  putIndex : Reply Bool
  deleteByQuery : String → Reply (Document → Bool)
  readText : String → Option Raised
  embedTexts : Nat → List String → Except Raised (List (List ℚ))
  bulk : Nat → Reply (Document → Bool)
  refresh : Option Raised
  saveManifest : Option Raised

structure IngestCall where
  relativePaths : Option (List String)
  skipUnchanged : Bool
  manifestPath : Option String
  answers : Answers

structure IngestResult where
  files : Nat
  chunks : Nat
  indexed : Nat
  skipped : Nat
  deleted : Nat
  deriving DecidableEq

section Store

variable (answers : Answers)

def answered : Option Raised → Proc KnowledgeBase Raised Unit
  | none => pure ()
  | some raised => raise raised

def settle {Part : Type} (reply : Reply Part) (whole : KnowledgeBase → KnowledgeBase)
    (partly : Part → KnowledgeBase → KnowledgeBase) : Proc KnowledgeBase Raised Unit := fun kb =>
  match reply with
  | .done => (.ok (), whole kb)
  | .failed raised part => (.error raised, partly part kb)

def hasType (property : Value) (expected : String) : Bool :=
  match property with
  | .obj fields =>
    match Fields.get fields "type" with
    | .str type => type = expected
    | _ => false
  | _ => false

def embeddingDimension : Int := 1024

def hasDimension (property : Value) : Bool :=
  match property with
  | .obj fields =>
    match Fields.get fields "dimension" with
    | .int n => n = embeddingDimension
    | _ => false
  | _ => false

/-- `_is_hybrid_mapping` -/
def isHybridMapping (properties : Fields) : Bool :=
  let embedding := Fields.get properties "embedding"
  hasType embedding "knn_vector" && hasDimension embedding &&
    hasType (Fields.get properties "text") "text" && (properties.lookup "incident_id").isSome

def keyword (name : String) : String × Value :=
  (name, .obj [("type", .str "keyword")])

/-- The properties of `knowledge_index_body`, from mappings.json. -/
def knowledgeProperties : Fields :=
  [("text", .obj [("type", .str "text"), ("analyzer", .str "standard")]),
    ("embedding", .obj [("type", .str "knn_vector"), ("dimension", .int 1024),
      ("method", .obj [("name", .str "hnsw"), ("engine", .str "lucene"),
        ("space_type", .str "cosinesimil"),
        ("parameters", .obj [("ef_construction", .int 128), ("m", .int 16)])])]),
    keyword "source_path", keyword "section", keyword "doc_type", keyword "service",
    keyword "scenario", keyword "date", keyword "chunk_id", keyword "incident_id",
    keyword "role", keyword "parent_id"]

def dropIndex (kb : KnowledgeBase) : KnowledgeBase := { kb with index := none }

def createIndex (kb : KnowledgeBase) : KnowledgeBase :=
  { kb with index := some ⟨knowledgeProperties, []⟩ }

def partly (change : KnowledgeBase → KnowledgeBase) (happened : Bool) (kb : KnowledgeBase) :
    KnowledgeBase :=
  if happened then change kb else kb

/-- The part of `ensure_hybrid_index` after the index has been looked up. -/
def ensureFrom : Option KnowledgeIndex → Proc KnowledgeBase Raised Unit
  | none => settle answers.putIndex createIndex (partly createIndex)
  | some index =>
    if isHybridMapping index.properties then pure ()
    else do
      settle answers.deleteIndex dropIndex (partly dropIndex)
      settle answers.putIndex createIndex (partly createIndex)

/-- `ensure_hybrid_index` -/
def ensureHybridIndex : Proc KnowledgeBase Raised Unit := do
  answered answers.getIndex
  let existing ← read KnowledgeBase.index
  ensureFrom answers existing

def KnowledgeBase.mapDocs (change : Dict Document → Dict Document) (kb : KnowledgeBase) :
    KnowledgeBase :=
  { kb with index := kb.index.map fun index => { index with docs := change index.docs } }

/-- The index without the documents that a query selects. -/
def removeDocs (selects : Document → Bool) (kb : KnowledgeBase) : KnowledgeBase :=
  kb.mapDocs fun docs => docs.filter fun entry => !selects entry.2

/-- The documents written one by one; the same id overwrites. -/
def upsertDocs (documents : List Document) (kb : KnowledgeBase) : KnowledgeBase :=
  kb.mapDocs fun docs => documents.foldl (fun docs doc => docs.set doc.chunkId doc) docs

/-- The documents of one file in the index. -/
def docsOf (rel : String) (kb : KnowledgeBase) : List Document :=
  match kb.index with
  | none => []
  | some index => (index.docs.map Prod.snd).filter fun doc => doc.sourcePath = rel

/-- `delete_by_source_path` -/
def deleteBySourcePath (sourcePath : String) : Proc KnowledgeBase Raised Nat :=
  let rel := strip sourcePath
  if rel = "" then raise (.invalid "source_path is required to delete chunks.")
  else do
    let found ← read (docsOf rel)
    settle (answers.deleteByQuery rel) (removeDocs fun doc => doc.sourcePath = rel)
      (fun part => removeDocs fun doc => doc.sourcePath = rel && part doc)
    pure found.length

/-- A list cut into pieces of `size` items, `batch` being the piece begun. -/
def batchesFrom {Item : Type} (size : Nat) : List Item → List Item → List (List Item)
  | batch, [] => if batch.isEmpty then [] else [batch]
  | batch, item :: rest =>
    if batch.length < size then batchesFrom size (batch ++ [item]) rest
    else batch :: batchesFrom size [item] rest

/-- `_bulk_ndjson`: a document without an id is refused. -/
def checkChunkIds (batch : List Document) : Except Raised Unit :=
  if batch.any fun doc => strip doc.chunkId = "" then
    .error (.invalid "Each bulk document must include a non-empty chunk_id.")
  else .ok ()

def bulkBatches : Nat → List (List Document) → Proc KnowledgeBase Raised Unit
  | _, [] => pure ()
  | number, batch :: rest => do
    fromExcept (checkChunkIds batch)
    settle (answers.bulk number) (upsertDocs batch) (fun part => upsertDocs (batch.filter part))
    bulkBatches (number + 1) rest

def bulkBatchSize : Nat := 50

/-- `bulk_upsert` -/
def bulkUpsert (documents : List Document) : Proc KnowledgeBase Raised Nat :=
  if documents.isEmpty then pure 0
  else do
    bulkBatches answers 0 (batchesFrom bulkBatchSize [] documents)
    answered answers.refresh
    pure documents.length

end Store

/-- `_document_from_chunk` -/
def documentFromChunk (chunk : Chunk) (embedding : List ℚ) : Document :=
  let field := fun name => (chunk.metadata.lookup name).getD ""
  { chunkId := chunk.chunkId
    text := chunk.text
    embedding
    sourcePath := chunk.sourcePath
    section_ := chunk.section_
    docType := field "doc_type"
    service := field "service"
    scenario := field "scenario"
    date := field "date"
    incidentId := field "incident_id"
    role := (chunk.metadata.lookup "role").getD "child"
    parentId := field "parent_id" }

def embedBatches (embedTexts : Nat → List String → Except Raised (List (List ℚ))) :
    Nat → List (List Chunk) → Except Raised (List Document)
  | _, [] => .ok []
  | number, batch :: rest =>
    (embedTexts number (batch.map Chunk.text)).bind fun vectors =>
      if vectors.length ≠ batch.length then
        .error (.invalid "embed_texts returned a different number of vectors than texts.")
      else
        (embedBatches embedTexts (number + 1) rest).map fun documents =>
          List.zipWith documentFromChunk batch vectors ++ documents

def embedBatchSize : Nat := 32

/-- `_embed_chunks` -/
def embedChunks (answers : Answers) (chunks : List Chunk) : Except Raised (List Document) :=
  embedBatches answers.embedTexts 0 (batchesFrom embedBatchSize [] chunks)

/-- `_load_manifest`: the digests by path that a manifest file lists. -/
def loadManifest : Option Value → Dict String
  | some (.obj raw) =>
    let listed := fun files : Fields => files.map fun entry => (entry.1, entry.2.pyStr)
    match raw.lookup "files" with
    | some (.obj files) => listed files
    | some _ => []
    | none => listed raw
  | _ => []

/-- The JSON that `_save_manifest` writes. -/
def manifestOf (files : Dict String) : Value :=
  .obj [("version", .int 1), ("files", .obj (files.map fun entry => (entry.1, .str entry.2)))]

section Ingest

variable (repo : Repository)

/-- `assert_allowlisted` -/
def assertAllowlisted (path : String) : Except Raised String :=
  let rel := repo.relativePosix path
  if rel ∈ allowedRelativePaths then .ok rel
  else .error (.invalid ("RAG ingest refuses " ++ reprStr rel ++
    "; not in the v0.4 allowlist (FR-040)."))

def absolutePath (rel : String) : String := repo.root ++ "/" ++ rel

/-- `_require_allowlisted_files` -/
def requireAllowlistedFiles (files : String → Option ByteArray) : Except Raised (List String) :=
  let missing := allowedRelativePaths.filter fun rel => (files rel).isNone
  if missing.isEmpty then .ok allowedRelativePaths
  else .error (.other ("RAG ingest cannot start; allowlist file(s) missing: " ++
    String.intercalate ", " (missing.map (absolutePath repo))))

/-- The loop of `_resolve_source_paths` over the given paths. -/
def resolveGiven (files : String → Option ByteArray) :
    List String → List String → Except Raised (List String)
  | [], resolved => .ok resolved
  | raw :: rest, resolved =>
    (assertAllowlisted repo raw).bind fun rel =>
      if rel ∈ resolved then resolveGiven files rest resolved
      else if (files rel).isNone then
        .error (.other ("RAG ingest cannot start; allowlist file missing: " ++
          absolutePath repo rel))
      else resolveGiven files rest (resolved ++ [rel])

/-- `_resolve_source_paths` -/
def resolveSourcePaths (files : String → Option ByteArray) :
    Option (List String) → Except Raised (List String)
  | none => requireAllowlistedFiles repo files
  | some paths =>
    if paths.isEmpty then
      .error (.invalid "relative_paths must be omitted or a non-empty list of allowlisted files.")
    else resolveGiven repo files paths []

/-- The manifest file of a run. -/
def manifestPathOf (call : IngestCall) : String :=
  call.manifestPath.getD (absolutePath repo ".aegis/rag-ingest-manifest.json")

/-- `_load_manifest` of a run that skips unchanged files. -/
def knownHashes (call : IngestCall) (kb : KnowledgeBase) : Dict String :=
  if call.skipUnchanged then loadManifest (kb.manifests (manifestPathOf repo call)) else []

/-- What the loop of `ingest_knowledge_corpus` counts and collects. -/
structure IngestProgress where
  skipped : Nat
  deleted : Nat
  children : List Chunk
  processed : Nat
  updatedHashes : Dict String

/-- The retrieval chunks of the text of a file; bytes that are not UTF-8 raise. -/
def childrenOf (rel : String) (bytes : ByteArray) : Except Raised (List Chunk) :=
  match String.fromUTF8? bytes with
  | some text =>
    .ok (retrievalChunks (chunkDocument repo.sha256 rel (universalNewlines text.toList)))
  | none => .error (.invalid "'utf-8' codec can't decode the file")

def readBytes (rel : String) : Proc KnowledgeBase Raised ByteArray := fun kb =>
  match kb.files rel with
  | some bytes => (.ok bytes, kb)
  | none => (.error (.other ("No such file or directory: " ++ absolutePath repo rel)), kb)

/-- A changed file: its chunks leave the index, and its new ones are collected. -/
def reindexFile (answers : Answers) (rel digest : String) (bytes : ByteArray)
    (progress : IngestProgress) : Proc KnowledgeBase Raised IngestProgress := do
  let deleted ← deleteBySourcePath answers rel
  answered (answers.readText rel)
  let chunks ← fromExcept (childrenOf repo rel bytes)
  pure { progress with
    deleted := progress.deleted + deleted
    children := progress.children ++ chunks
    processed := progress.processed + 1
    updatedHashes := progress.updatedHashes.set rel digest }

/-- One file in the loop of `ingest_knowledge_corpus`. -/
def ingestFile (call : IngestCall) (known : Dict String) (path : String)
    (progress : IngestProgress) : Proc KnowledgeBase Raised IngestProgress := do
  let rel ← fromExcept (assertAllowlisted repo path)
  let bytes ← readBytes repo rel
  let digest := hexDigest repo.sha256 bytes
  if call.skipUnchanged = true ∧ known.lookup rel = some digest then
    pure { progress with skipped := progress.skipped + 1 }
  else reindexFile repo call.answers rel digest bytes progress

def ingestFiles (call : IngestCall) (known : Dict String) :
    List String → IngestProgress → Proc KnowledgeBase Raised IngestProgress
  | [], progress => pure progress
  | path :: rest, progress => do
    let progress ← ingestFile repo call known path progress
    ingestFiles call known rest progress

/-- `_save_manifest`: the file is replaced in one step. -/
def saveManifest (call : IngestCall) (files : Dict String) : Proc KnowledgeBase Raised Unit := do
  answered call.answers.saveManifest
  update fun kb => { kb with
    manifests := Function.update kb.manifests (manifestPathOf repo call) (some (manifestOf files)) }

def saveIfSkipping (call : IngestCall) (files : Dict String) :
    Proc KnowledgeBase Raised Unit :=
  if call.skipUnchanged then saveManifest repo call files else pure ()

/-- The part of `ingest_knowledge_corpus` after its loop. -/
def writeCollected (call : IngestCall) (progress : IngestProgress) :
    Proc KnowledgeBase Raised IngestResult := do
  fromExcept (if progress.processed = 0 ∧ progress.skipped = 0 then
    .error (.invalid "RAG ingest produced no retrieval chunks from the selected files.")
    else .ok ())
  let documents ← fromExcept (embedChunks call.answers progress.children)
  let indexed ← bulkUpsert call.answers documents
  saveIfSkipping repo call progress.updatedHashes
  pure ⟨progress.processed, progress.children.length, indexed, progress.skipped,
    progress.deleted⟩

/-- `ingest_knowledge_corpus` -/
def ingestKnowledgeCorpus (call : IngestCall) : Proc KnowledgeBase Raised IngestResult := do
  let files ← read KnowledgeBase.files
  let selected ← fromExcept (resolveSourcePaths repo files call.relativePaths)
  ensureHybridIndex call.answers
  let known ← read (knownHashes repo call)
  let progress ← ingestFiles repo call known selected ⟨0, 0, [], 0, known⟩
  writeCollected repo call progress

end Ingest

end Aegis
