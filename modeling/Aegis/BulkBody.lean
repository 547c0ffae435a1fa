import Aegis.IngestRuns
import Aegis.Loads
import Aegis.SingleLine

namespace Aegis

section Write

variable (number : ℚ → FloatText)

/-- The dict of `_document_from_chunk`. -/
def Document.fields (doc : Document) : Fields :=
  [("chunk_id", .str doc.chunkId), ("text", .str doc.text),
    ("embedding", .list (doc.embedding.map fun value => .float (number value))),
    ("source_path", .str doc.sourcePath), ("section", .str doc.section_),
    ("doc_type", .str doc.docType), ("service", .str doc.service), ("scenario", .str doc.scenario),
    ("date", .str doc.date), ("incident_id", .str doc.incidentId), ("role", .str doc.role),
    ("parent_id", .str doc.parentId)]

/-- The action of a document. -/
def bulkMeta (chunkId : String) : Value :=
  .obj [("index", .obj [("_index", .str "aegis-knowledge"), ("_id", .str chunkId)])]

def bulkLines (doc : Document) : List String :=
  [(bulkMeta doc.chunkId).compact, (Value.obj (doc.fields number)).compact]

/-- `_bulk_ndjson` -/
def bulkNdjson (documents : List Document) : Except Raised String :=
  (checkChunkIds documents).map fun _ =>
    String.intercalate "\n" (documents.flatMap (bulkLines number)) ++ "\n"

/-- The bodies of the requests of `bulk_upsert`, as long as none fails. -/
def bulkBodies (documents : List Document) : Except Raised (List String) :=
  (batchesFrom bulkBatchSize [] documents).mapM (bulkNdjson number)

end Write

section Read

variable (toFloat : List Char → Option FloatText)

/-- The id of an action that indexes a document of `aegis-knowledge`. -/
def indexedId : Value → Option String
  | .obj [("index", .obj fields)] =>
    match fields.lookup "_index", fields.lookup "_id" with
    | some (.str name), some (.str id) => if name = "aegis-knowledge" then some id else none
    | _, _ => none
  | _ => none

/-- The lines of a bulk body: an action and the document of it, one after the other, up to the line
feed at the end. -/
def readActions : List (List Char) → Option (List (String × Fields))
  | [[]] => some []
  | action :: source :: rest => do
    let action ← loads toFloat (String.ofList action)
    let id ← indexedId action
    match ← loads toFloat (String.ofList source) with
    | .obj fields => (readActions rest).map fun more => (id, fields) :: more
    | _ => none
  | _ => none

/-- What a bulk body asks for. -/
def readBulk (body : String) : Option (List (String × Fields)) :=
  readActions toFloat (body.toList.splitOn '\n')

end Read

/-- The documents of an index as the JSON objects that it stores. -/
def storedSources (number : ℚ → FloatText) (docs : Dict Document) : Dict Fields :=
  docs.map fun entry => (entry.1, entry.2.fields number)

/-- Each action writes its document under its id. -/
def applyBulk (stored : Dict Fields) (actions : List (String × Fields)) : Dict Fields :=
  actions.foldl (fun stored action => stored.set action.1 action.2) stored

section Lines

variable {gap : List Char} {write : Value → String}

theorem singleLine_join {separator : List Char} {texts : List (List Char)}
    (hseparator : SingleLine separator) (h : ∀ text ∈ texts, SingleLine text) :
    SingleLine (separator.intercalate texts) := by
  induction texts with
  | nil => exact fun c hc => absurd hc (by simp)
  | cons text texts ih =>
    obtain ⟨htext, htexts⟩ := List.forall_mem_cons.mp h
    cases texts with
    | nil => simpa using htext
    | cons next texts =>
      rw [List.intercalate_cons_cons]
      exact singleLine_append.mpr ⟨singleLine_append.mpr ⟨htext, hseparator⟩, ih htexts⟩

theorem singleLine_cons {c : Char} {text : List Char} (hc : isLineBreak c = false)
    (h : SingleLine text) : SingleLine (c :: text) :=
  List.forall_mem_cons.mpr ⟨hc, h⟩

mutual

/-- What a writer writes has no line break, as long as its gap has none. -/
theorem singleLine_write (w : Writer gap write) (hgap : SingleLine gap) :
    ∀ value : Value, SingleLine (write value).toList
  | .none => by rw [w.none]; exact singleLine_text "null" (by decide)
  | .bool b => by rw [w.bool]; cases b <;> exact singleLine_text _ (by decide)
  | .int n => by rw [w.int]; exact singleLine_int n
  | .float repr => by rw [w.float]; exact singleLine_float repr
  | .str s => by rw [w.str]; exact singleLine_quote s
  | .list items => by
    rw [w.list]
    have hcomma : SingleLine (',' :: gap) := singleLine_cons (by decide) hgap
    have hclose : SingleLine [']'] :=
      singleLine_cons (by decide) fun _ h => absurd h List.not_mem_nil
    exact singleLine_cons (by decide) (singleLine_append.mpr
      ⟨singleLine_join hcomma (singleLine_writeItems w hgap items), hclose⟩)
  | .obj fields => by
    rw [w.obj]
    have hcomma : SingleLine (',' :: gap) := singleLine_cons (by decide) hgap
    have hclose : SingleLine ['\x7d'] :=
      singleLine_cons (by decide) fun _ h => absurd h List.not_mem_nil
    exact singleLine_cons (by decide) (singleLine_append.mpr
      ⟨singleLine_join hcomma (singleLine_writeFields w hgap fields), hclose⟩)

theorem singleLine_writeItems (w : Writer gap write) (hgap : SingleLine gap) :
    ∀ items : List Value, ∀ text ∈ items.map fun item => (write item).toList, SingleLine text
  | [] => fun _ h => absurd h List.not_mem_nil
  | item :: rest => List.forall_mem_cons.mpr
    ⟨singleLine_write w hgap item, singleLine_writeItems w hgap rest⟩

theorem singleLine_writeFields (w : Writer gap write) (hgap : SingleLine gap) :
    ∀ fields : List (String × Value), ∀ text ∈ fields.map fun field =>
      (quoteUntrusted field.1).toList ++ ':' :: (gap ++ (write field.2).toList), SingleLine text
  | [] => fun _ h => absurd h List.not_mem_nil
  | (key, value) :: rest => List.forall_mem_cons.mpr
    ⟨singleLine_append.mpr ⟨singleLine_quote key, singleLine_cons (by decide)
      (singleLine_append.mpr ⟨hgap, singleLine_write w hgap value⟩)⟩,
      singleLine_writeFields w hgap rest⟩

end

theorem singleLine_compact (value : Value) : SingleLine value.compact.toList :=
  singleLine_write compact_writer (fun _ h => absurd h List.not_mem_nil) value

end Lines

section Body

variable {toFloat : List Char → Option FloatText} {number : ℚ → FloatText} {doc : Document}
  {documents : List Document}

theorem plain_floats {values : List ℚ}
    (readable : ∀ value ∈ values, (number value).Readable toFloat) :
    PlainItems toFloat (values.map fun value => .float (number value)) := by
  induction values with
  | nil => exact trivial
  | cons value rest ih =>
    obtain ⟨hvalue, hrest⟩ := List.forall_mem_cons.mp readable
    exact ⟨hvalue, ih hrest⟩

theorem plain_fields (readable : ∀ value ∈ doc.embedding, (number value).Readable toFloat) :
    (Value.obj (doc.fields number)).Plain toFloat := by
  refine ⟨?_, trivial, trivial, plain_floats readable, trivial, trivial, trivial, trivial, trivial,
    trivial, trivial, trivial, trivial, trivial⟩
  change ["chunk_id", "text", "embedding", "source_path", "section", "doc_type", "service",
    "scenario", "date", "incident_id", "role", "parent_id"].Nodup
  decide

theorem plain_bulkMeta (chunkId : String) : (bulkMeta chunkId).Plain toFloat := by
  refine ⟨List.nodup_singleton _, ⟨?_, trivial, trivial, trivial⟩, trivial⟩
  change ["_index", "_id"].Nodup
  decide

theorem loads_lines (readable : ∀ value ∈ doc.embedding, (number value).Readable toFloat) :
    loads toFloat (bulkMeta doc.chunkId).compact = some (bulkMeta doc.chunkId) ∧
      loads toFloat (Value.obj (doc.fields number)).compact = some (.obj (doc.fields number)) :=
  ⟨loads_write compact_writer _ (plain_bulkMeta doc.chunkId),
    loads_write compact_writer _ (plain_fields readable)⟩

/-- The actions that are read of the lines of some documents. -/
theorem readActions_bulk (readable : ∀ doc ∈ documents, ∀ value ∈ doc.embedding,
      (number value).Readable toFloat) :
    readActions toFloat ((documents.flatMap (bulkLines number)).map String.toList ++ [[]]) =
      some (documents.map fun doc => (doc.chunkId, doc.fields number)) := by
  induction documents with
  | nil => rfl
  | cons doc rest ih =>
    obtain ⟨hdoc, hrest⟩ := List.forall_mem_cons.mp readable
    obtain ⟨haction, hsource⟩ := loads_lines hdoc
    rw [List.flatMap_cons, bulkLines, List.map_append, List.map_cons, List.map_cons, List.map_nil,
      List.append_assoc, List.cons_append, List.cons_append, List.nil_append, readActions]
    rw [String.ofList_toList, String.ofList_toList, haction, hsource, ih hrest]
    rfl

/-- Items that each end in the separator are items between which it stands, and an empty one. -/
theorem intercalate_ended {Item : Type*} {separator : List Item} {texts : List (List Item)}
    (ne : texts ≠ []) :
    separator.intercalate (texts ++ [[]]) = separator.intercalate texts ++ separator := by
  induction texts with
  | nil => exact absurd rfl ne
  | cons text texts ih =>
    cases texts with
    | nil => simp
    | cons next texts =>
      rw [List.cons_append, List.cons_append, List.intercalate_cons_cons,
        List.intercalate_cons_cons, ← List.cons_append, ih (List.cons_ne_nil _ _), List.append_assoc, List.append_assoc,
        List.append_assoc]

theorem splitOn_body {lines : List String} (single : ∀ line ∈ lines, SingleLine line.toList)
    (ne : lines ≠ []) :
    (String.intercalate "\n" lines ++ "\n").toList.splitOn '\n' =
      lines.map String.toList ++ [[]] := by
  have hlines : lines.map String.toList ≠ [] := fun h => ne (List.map_eq_nil_iff.mp h)
  have hbody : (String.intercalate "\n" lines ++ "\n").toList =
      ['\n'].intercalate (lines.map String.toList ++ [[]]) := by
    rw [intercalate_ended hlines, String.toList_append, String.toList_intercalate]
    rfl
  rw [hbody]
  have hne : lines.map String.toList ++ [[]] ≠ [] := List.append_ne_nil_of_left_ne_nil hlines _
  refine List.splitOn_intercalate '\n' (fun text htext => ?_) hne
  rcases List.mem_append.mp htext with hline | hend
  · obtain ⟨line, hmem, rfl⟩ := List.mem_map.mp hline
    exact (single line hmem).noLineFeed
  · rw [List.mem_singleton.mp hend]
    exact List.not_mem_nil

/-- A body asks for what it was written for. -/
theorem readBulk_ndjson (readable : ∀ doc ∈ documents, ∀ value ∈ doc.embedding,
      (number value).Readable toFloat) (ne : documents ≠ []) {body : String}
    (written : bulkNdjson number documents = .ok body) :
    readBulk toFloat body =
      some (documents.map fun doc => (doc.chunkId, doc.fields number)) := by
  have hsingle : ∀ line ∈ documents.flatMap (bulkLines number), SingleLine line.toList := by
    intro line hline
    obtain ⟨doc, -, hline⟩ := List.mem_flatMap.mp hline
    rcases List.mem_cons.mp hline with rfl | hline
    · exact singleLine_compact _
    · rw [List.mem_singleton.mp hline]
      exact singleLine_compact _
  have hlines : documents.flatMap (bulkLines number) ≠ [] := by
    obtain ⟨doc, rest, rfl⟩ := List.exists_cons_of_ne_nil ne
    rw [List.flatMap_cons]
    exact List.append_ne_nil_of_left_ne_nil (List.cons_ne_nil _ _) _
  unfold bulkNdjson at written
  cases hcheck : checkChunkIds documents with
  | error raised =>
    rw [hcheck] at written
    cases written
  | ok _ =>
    rw [hcheck] at written
    obtain rfl := Except.ok.inj written
    unfold readBulk
    rw [splitOn_body hsingle hlines]
    exact readActions_bulk readable

theorem batchesFrom_sizes {Item : Type} {size : Nat} {batch items : List Item} (pos : 0 < size)
    (small : batch.length ≤ size) :
    ∀ part ∈ batchesFrom size batch items, part ≠ [] ∧ part.length ≤ size := by
  induction items generalizing batch with
  | nil =>
    unfold batchesFrom
    split
    · exact fun _ h => absurd h List.not_mem_nil
    next hne =>
      intro part hpart
      rw [List.mem_singleton.mp hpart]
      exact ⟨fun hnil => hne (List.isEmpty_iff.mpr hnil), small⟩
  | cons item rest ih =>
    unfold batchesFrom
    split
    next hroom => exact ih (by rw [List.length_append, List.length_singleton]; omega)
    next hfull =>
      have hne : batch ≠ [] := by
        rintro rfl
        exact hfull pos
      exact List.forall_mem_cons.mpr ⟨⟨hne, small⟩, ih (by rw [List.length_singleton]; omega)⟩

theorem storedSources_set (docs : Dict Document) (doc : Document) :
    storedSources number (docs.set doc.chunkId doc) =
      (storedSources number docs).set doc.chunkId (doc.fields number) := by
  induction docs with
  | nil => rfl
  | cons entry rest ih =>
    obtain ⟨key, value⟩ := entry
    unfold storedSources at ih ⊢
    rw [Dict.set, List.map_cons, Dict.set]
    split
    · rfl
    · rw [List.map_cons, ih]

theorem applyBulk_documents (documents : List Document) (docs : Dict Document) :
    applyBulk (storedSources number docs)
        (documents.map fun doc => (doc.chunkId, doc.fields number)) =
      storedSources number (documents.foldl (fun docs doc => docs.set doc.chunkId doc) docs) := by
  induction documents generalizing docs with
  | nil => rfl
  | cons doc rest ih =>
    have hrest := ih (docs.set doc.chunkId doc)
    rw [storedSources_set] at hrest
    exact hrest

theorem applyBulk_flatten (requests : List (List (String × Fields))) (stored : Dict Fields) :
    requests.foldl applyBulk stored = applyBulk stored requests.flatten := by
  induction requests generalizing stored with
  | nil => rfl
  | cons request rest ih =>
    rw [List.foldl_cons, ih, List.flatten_cons]
    exact (List.foldl_append).symm

/-- The bodies of some batches, one after the other. -/
theorem readBulk_batches {batches : List (List Document)} {bodies : List String}
    (readable : ∀ batch ∈ batches, ∀ doc ∈ batch, ∀ value ∈ doc.embedding,
      (number value).Readable toFloat) (ne : ∀ batch ∈ batches, batch ≠ [])
    (written : batches.mapM (bulkNdjson number) = .ok bodies) :
    bodies.mapM (readBulk toFloat) =
      some (batches.map fun batch => batch.map fun doc => (doc.chunkId, doc.fields number)) := by
  induction batches generalizing bodies with
  | nil =>
    cases written
    rfl
  | cons batch rest ih =>
    obtain ⟨hbatch, hrest⟩ := List.forall_mem_cons.mp readable
    obtain ⟨hne, hnes⟩ := List.forall_mem_cons.mp ne
    rw [List.mapM_cons] at written
    obtain ⟨body, hbody, written⟩ := bind_ok written
    obtain ⟨more, hmore, written⟩ := bind_ok written
    obtain rfl := Except.ok.inj written
    rw [List.mapM_cons, readBulk_ndjson hbatch hne hbody, ih hrest hnes hmore]
    rfl

/-- What the bodies of a bulk write say is what the index comes to hold: each document under its own
id, whatever stands in its texts, and nothing else. -/
theorem bulk_bodies_upsert {bodies : List String}
    (readable : ∀ doc ∈ documents, ∀ value ∈ doc.embedding, (number value).Readable toFloat)
    (written : bulkBodies number documents = .ok bodies) :
    ∃ requests, bodies.mapM (readBulk toFloat) = some requests ∧
      requests.flatten = documents.map (fun doc => (doc.chunkId, doc.fields number)) ∧
      (∀ request ∈ requests, request ≠ [] ∧ request.length ≤ bulkBatchSize) ∧
      ∀ kb index, kb.index = some index →
        (upsertDocs documents kb).index.map (fun after => storedSources number after.docs) =
          some (requests.foldl applyBulk (storedSources number index.docs)) := by
  have hflat := batchesFrom_flatten bulkBatchSize [] documents
  rw [List.nil_append] at hflat
  have hsizes : ∀ batch ∈ batchesFrom bulkBatchSize [] documents,
      batch ≠ [] ∧ batch.length ≤ bulkBatchSize :=
    batchesFrom_sizes (by decide) (Nat.zero_le _)
  have hread : ∀ batch ∈ batchesFrom bulkBatchSize [] documents, ∀ doc ∈ batch,
      ∀ value ∈ doc.embedding, (number value).Readable toFloat := by
    intro batch hbatch doc hdoc
    exact readable doc (hflat ▸ List.mem_flatten.mpr ⟨batch, hbatch, hdoc⟩)
  have hall : ((batchesFrom bulkBatchSize [] documents).map fun batch =>
      batch.map fun doc => (doc.chunkId, doc.fields number)).flatten =
      documents.map fun doc => (doc.chunkId, doc.fields number) := by
    rw [← List.map_flatten, hflat]
  refine ⟨_, readBulk_batches hread (fun batch hbatch => (hsizes batch hbatch).1) written, hall,
    fun request hrequest => ?_, fun kb index hindex => ?_⟩
  · obtain ⟨batch, hbatch, rfl⟩ := List.mem_map.mp hrequest
    obtain ⟨hne, hlength⟩ := hsizes batch hbatch
    rw [List.length_map]
    exact ⟨fun hnil => hne (List.map_eq_nil_iff.mp hnil), hlength⟩
  · rw [applyBulk_flatten, hall, applyBulk_documents]
    unfold upsertDocs KnowledgeBase.mapDocs
    dsimp only
    rw [hindex]
    rfl

end Body

/-- A document whose text looks like the end of its line and another action. -/
def trickyDocument : Document where
  chunkId := "docs/releases/v0.3.md#c0000-0"
  text := "one\n\x7b\"delete\": \x7b\"_id\": \"a\"\x7d\x7d\ntwo"
  embedding := [0]
  sourcePath := "docs/releases/v0.3.md"
  section_ := "lead"
  docType := "release"
  service := "platform"
  scenario := ""
  date := ""
  incidentId := ""
  role := "child"
  parentId := ""

def zeroText : FloatText := ⟨"0.0", by decide⟩

def readZero (text : List Char) : Option FloatText :=
  if text = "0.0".toList then some zeroText else none

theorem tricky_document_upserted :
    ∃ bodies requests, bulkBodies (fun _ => zeroText) [trickyDocument] = .ok bodies ∧
      bodies.mapM (readBulk readZero) = some requests ∧
      requests.flatten = [(trickyDocument.chunkId, trickyDocument.fields fun _ => zeroText)] := by
  have hreads : zeroText.Readable readZero := by
    have hdigits : JsonReader.Digits ['0'] :=
      ⟨List.cons_ne_nil _ _, List.all_eq_true.mp (by decide)⟩
    exact ⟨⟨[], ['0'], ['.', '0'], [], rfl, .inl rfl, .inl rfl, .inr ⟨['0'], rfl, hdigits⟩,
      .inl rfl⟩, by decide, rfl⟩
  have hreadable : ∀ doc ∈ [trickyDocument], ∀ value ∈ doc.embedding, zeroText.Readable readZero :=
    fun _ _ _ _ => hreads
  have hwritten : ∃ bodies, bulkBodies (fun _ => zeroText) [trickyDocument] = .ok bodies :=
    ⟨_, rfl⟩
  obtain ⟨bodies, hbodies⟩ := hwritten
  obtain ⟨requests, hrequests, hflatten, -, -⟩ :=
    @bulk_bodies_upsert readZero (fun _ => zeroText) [trickyDocument] bodies hreadable hbodies
  exact ⟨bodies, requests, hbodies, hrequests, hflatten⟩

end Aegis
