import Aegis.Ingest
import Aegis.StepPath

namespace Aegis

open Raising Proc StepPath

section Keys

variable {docs : Dict Document} {doc : Document} {rel : String}

/-- The path that a chunk id begins with. -/
def ownerOf (id : String) : List Char := id.toList.takeWhile fun c => c ≠ '#'

/-- The id under which a document is stored begins with the path of its file. -/
def Owned (entry : String × Document) : Prop := ownerOf entry.1 = entry.2.sourcePath.toList

def isPathChar (c : Char) : Bool := c ≠ '#' && !isSpace c

theorem pathChars_ofList {chars : List Char} (h : chars.all isPathChar = true) :
    ∀ c ∈ (String.ofList chars).toList, isPathChar c = true := by
  rw [String.toList_ofList]
  exact List.all_eq_true.mp h

theorem pathChars_of_allowed : ∀ rel ∈ allowedRelativePaths, ∀ c ∈ rel.toList,
    isPathChar c = true := by
  unfold allowedRelativePaths
  repeat' first
    | exact fun _ h => absurd h List.not_mem_nil
    | refine List.forall_mem_cons.mpr ⟨pathChars_ofList (by decide), ?_⟩

theorem no_mark_of_allowed (h : rel ∈ allowedRelativePaths) : ∀ c ∈ rel.toList, c ≠ '#' :=
  fun c hc => of_decide_eq_true (Bool.and_eq_true_iff.mp (pathChars_of_allowed rel h c hc)).1

theorem ownerOf_chunkId {sha256 : ByteArray → BitVec 256} {kind : Char} {index : Nat}
    {chunk : Chunk} (allowed : rel ∈ allowedRelativePaths)
    (h : IsChunkOf sha256 rel kind index chunk) : ownerOf chunk.chunkId = rel.toList := by
  have plain : (rel.toList.takeWhile fun c => decide (c ≠ '#')) = rel.toList :=
    List.takeWhile_eq_self_iff.mpr fun c hc => decide_eq_true (no_mark_of_allowed allowed c hc)
  rw [h.2]
  unfold ownerOf chunkIdOf
  rw [String.toList_ofList, List.append_assoc, List.takeWhile_append, plain, if_pos rfl]
  simp

theorem mem_set_of {entry : String × Document} {key : String}
    (h : entry ∈ docs.set key doc) : entry = (key, doc) ∨ entry ∈ docs := by
  induction docs with
  | nil => exact .inl (List.mem_singleton.mp h)
  | cons head rest ih =>
    obtain ⟨k, v⟩ := head
    unfold Dict.set at h
    split at h
    next hk =>
      rcases List.mem_cons.mp h with rfl | h
      · exact .inl (by rw [hk])
      · exact .inr (List.mem_cons_of_mem _ h)
    · rcases List.mem_cons.mp h with rfl | h
      · exact .inr List.mem_cons_self
      · exact (ih h).imp_right (List.mem_cons_of_mem _)

/-- The documents that an index lists for one file. -/
def docsIn (rel : String) (docs : Dict Document) : List Document :=
  (docs.map Prod.snd).filter fun doc => doc.sourcePath = rel

/-- Writing a document of one file leaves those of the others alone. -/
theorem docsIn_set (owned : ∀ entry ∈ docs, Owned entry) (own : Owned (doc.chunkId, doc))
    (other : doc.sourcePath ≠ rel) : docsIn rel (docs.set doc.chunkId doc) = docsIn rel docs := by
  induction docs with
  | nil => simp [docsIn, Dict.set, other]
  | cons head rest ih =>
    obtain ⟨k, v⟩ := head
    obtain ⟨hhead, hrest⟩ := List.forall_mem_cons.mp owned
    unfold Dict.set
    split
    next hk =>
      have hpath : v.sourcePath = doc.sourcePath := by
        subst hk
        exact String.toList_injective (hhead.symm.trans own)
      simp [docsIn, other, hpath]
    · have := ih hrest
      unfold docsIn at this ⊢
      rw [List.map_cons, List.map_cons, List.filter_cons, List.filter_cons, this]

theorem owned_set (owned : ∀ entry ∈ docs, Owned entry) (own : Owned (doc.chunkId, doc)) :
    ∀ entry ∈ docs.set doc.chunkId doc, Owned entry := by
  intro entry hentry
  rcases mem_set_of hentry with rfl | hentry
  · exact own
  · exact owned entry hentry

/-- Documents with new ids are added at the end. -/
theorem foldl_set_of_fresh (documents : List Document)
    (nodup : (documents.map Document.chunkId).Nodup)
    (fresh : ∀ doc ∈ documents, ∀ entry ∈ docs, entry.1 ≠ doc.chunkId) :
    documents.foldl (fun docs doc => docs.set doc.chunkId doc) docs =
      docs ++ documents.map fun doc => (doc.chunkId, doc) := by
  induction documents generalizing docs with
  | nil => simp
  | cons doc rest ih =>
    obtain ⟨hne, hnodup⟩ := List.nodup_cons.mp nodup
    obtain ⟨hdoc, hrest⟩ := List.forall_mem_cons.mp fresh
    have hkey : doc.chunkId ∉ docs.map Prod.fst := by
      intro hmem
      obtain ⟨entry, hentry, hsame⟩ := List.mem_map.mp hmem
      exact hdoc entry hentry hsame
    rw [List.foldl_cons, Dict.set_fresh hkey, ih hnodup, List.map_cons, List.append_assoc,
      List.singleton_append]
    intro later hlater entry hentry hsame
    rcases List.mem_append.mp hentry with hentry | hentry
    · exact hrest later hlater entry hentry hsame
    · rw [List.mem_singleton.mp hentry] at hsame
      exact hne (List.mem_map.mpr ⟨later, hlater, hsame.symm⟩)

end Keys

/-- Every document in the index is stored under an id of its own file. -/
def Keyed (kb : KnowledgeBase) : Prop :=
  ∀ index, kb.index = some index → ∀ entry ∈ index.docs, Owned entry

/-- The files and manifests stay, and so do the documents of one file. -/
structure Keeps (rel : String) (kb kb' : KnowledgeBase) : Prop where
  files : kb'.files = kb.files
  manifests : kb'.manifests = kb.manifests
  keyed : Keyed kb → Keyed kb'
  docs : Keyed kb → docsOf rel kb' = docsOf rel kb

section Frame

variable {kb kb' : KnowledgeBase} {rel : String}

theorem keeps_refl (kb : KnowledgeBase) : Keeps rel kb kb := ⟨rfl, rfl, id, fun _ => rfl⟩

theorem keeps_trans (s t u : KnowledgeBase) (first : Keeps rel s t) (second : Keeps rel t u) :
    Keeps rel s u :=
  ⟨second.files.trans first.files, second.manifests.trans first.manifests,
    fun h => second.keyed (first.keyed h),
    fun h => (second.docs (first.keyed h)).trans (first.docs h)⟩

theorem keeps_mapDocs {change : Dict Document → Dict Document}
    (owned : ∀ docs : Dict Document, (∀ entry ∈ docs, Owned entry) →
      ∀ entry ∈ change docs, Owned entry)
    (same : ∀ docs : Dict Document, (∀ entry ∈ docs, Owned entry) →
      docsIn rel (change docs) = docsIn rel docs) (kb : KnowledgeBase) :
    Keeps rel kb (kb.mapDocs change) := by
  refine ⟨rfl, rfl, fun keyed index hindex => ?_, fun keyed => ?_⟩
  · obtain ⟨before, hbefore, rfl⟩ := Option.map_eq_some_iff.mp hindex
    exact owned before.docs (keyed before hbefore)
  · unfold docsOf KnowledgeBase.mapDocs
    cases hindex : kb.index with
    | none => rfl
    | some index => exact same index.docs (keyed index hindex)

theorem docsIn_filter {docs : Dict Document} {selects : Document → Bool}
    (spared : ∀ doc : Document, selects doc = true → doc.sourcePath ≠ rel) :
    docsIn rel (docs.filter fun entry => !selects entry.2) = docsIn rel docs := by
  induction docs with
  | nil => rfl
  | cons entry rest ih =>
    unfold docsIn at ih ⊢
    rw [List.filter_cons]
    cases hselects : selects entry.2 with
    | false => simp [List.filter_cons, ih]
    | true =>
      have := spared entry.2 hselects
      simpa [this] using ih

theorem keeps_removeDocs {selects : Document → Bool}
    (spared : ∀ doc : Document, selects doc = true → doc.sourcePath ≠ rel) (kb : KnowledgeBase) :
    Keeps rel kb (removeDocs selects kb) :=
  keeps_mapDocs (fun _ owned entry hentry => owned entry (List.mem_of_mem_filter hentry))
    (fun _ _ => docsIn_filter spared) kb

/-- Every document carries an id of its file, and none is of the file left alone. -/
def SpareDocs (rel : String) (documents : List Document) : Prop :=
  ∀ doc ∈ documents, Owned (doc.chunkId, doc) ∧ doc.sourcePath ≠ rel

theorem keeps_upsertDocs {documents : List Document} (h : SpareDocs rel documents)
    (kb : KnowledgeBase) : Keeps rel kb (upsertDocs documents kb) := by
  have fold : ∀ docs : Dict Document, (∀ entry ∈ docs, Owned entry) →
      (∀ entry ∈ documents.foldl (fun docs doc => docs.set doc.chunkId doc) docs, Owned entry) ∧
      docsIn rel (documents.foldl (fun docs doc => docs.set doc.chunkId doc) docs) =
        docsIn rel docs := by
    induction documents with
    | nil => exact fun docs owned => ⟨owned, rfl⟩
    | cons doc rest ih =>
      intro docs owned
      obtain ⟨⟨hown, hother⟩, hrest⟩ := List.forall_mem_cons.mp h
      obtain ⟨hkeyed, hdocs⟩ := ih hrest (docs.set doc.chunkId doc) (owned_set owned hown)
      exact ⟨hkeyed, hdocs.trans (docsIn_set owned hown hother)⟩
  exact keeps_mapDocs (fun docs owned => (fold docs owned).1)
    (fun docs owned => (fold docs owned).2) kb

theorem keeps_settle {Part : Type} {reply : Reply Part} {whole : KnowledgeBase → KnowledgeBase}
    {partly : Part → KnowledgeBase → KnowledgeBase} (done : ∀ kb, Keeps rel kb (whole kb))
    (part : ∀ p kb, Keeps rel kb (partly p kb)) : Leaves (Keeps rel) (settle reply whole partly) := by
  intro kb
  cases reply with
  | done => exact done kb
  | failed raised p => exact part p kb

theorem keeps_answered (reply : Option Raised) : Leaves (Keeps rel) (answered reply) := by
  cases reply with
  | none => exact leaves_pure keeps_refl ()
  | some raised => exact leaves_raise keeps_refl raised

theorem keeps_deleteBySourcePath {answers : Answers} {sourcePath : String}
    (other : strip sourcePath ≠ rel) :
    Leaves (Keeps rel) (deleteBySourcePath answers sourcePath) := by
  unfold deleteBySourcePath
  dsimp only
  split
  · exact leaves_raise keeps_refl _
  · refine leaves_bind keeps_trans (leaves_read keeps_refl _) fun _ =>
      leaves_bind keeps_trans (keeps_settle ?_ ?_) fun _ => leaves_pure keeps_refl _
    · exact keeps_removeDocs fun doc hdoc => by simpa [of_decide_eq_true hdoc] using other
    · intro part
      refine keeps_removeDocs fun doc hdoc => ?_
      have := of_decide_eq_true (Bool.and_eq_true_iff.mp hdoc).1
      rwa [this]

theorem keeps_bulkBatches {answers : Answers} {number : Nat} {batches : List (List Document)}
    (h : ∀ batch ∈ batches, SpareDocs rel batch) :
    Leaves (Keeps rel) (bulkBatches answers number batches) := by
  induction batches generalizing number with
  | nil => exact leaves_pure keeps_refl ()
  | cons batch rest ih =>
    obtain ⟨hbatch, hrest⟩ := List.forall_mem_cons.mp h
    refine leaves_bind keeps_trans (leaves_fromExcept keeps_refl _) fun _ =>
      leaves_bind keeps_trans (keeps_settle ?_ ?_) fun _ => ih hrest
    · exact keeps_upsertDocs hbatch
    · exact fun part => keeps_upsertDocs fun doc hdoc => hbatch doc (List.mem_of_mem_filter hdoc)

theorem batchesFrom_flatten {Item : Type} (size : Nat) (batch items : List Item) :
    (batchesFrom size batch items).flatten = batch ++ items := by
  induction items generalizing batch with
  | nil =>
    unfold batchesFrom
    split
    next hempty => simp [List.isEmpty_iff.mp hempty]
    · simp
  | cons item rest ih =>
    unfold batchesFrom
    split
    · rw [ih, List.append_assoc, List.singleton_append]
    · rw [List.flatten_cons, ih, List.singleton_append]

theorem keeps_bulkUpsert {answers : Answers} {documents : List Document}
    (h : SpareDocs rel documents) : Leaves (Keeps rel) (bulkUpsert answers documents) := by
  unfold bulkUpsert
  split
  · exact leaves_pure keeps_refl _
  · refine leaves_bind keeps_trans (keeps_bulkBatches fun batch hbatch doc hdoc => ?_) fun _ =>
      leaves_bind keeps_trans (keeps_answered _) fun _ => leaves_pure keeps_refl _
    have hmem := List.mem_flatten.mpr ⟨batch, hbatch, hdoc⟩
    rw [batchesFrom_flatten] at hmem
    exact h doc hmem

end Frame

def Reply.isDone {Part : Type} : Reply Part → Bool
  | .done => true
  | .failed _ _ => false

theorem settle_ok {Part : Type} {reply : Reply Part} {whole : KnowledgeBase → KnowledgeBase}
    {partly : Part → KnowledgeBase → KnowledgeBase} {kb kb' : KnowledgeBase} :
    settle reply whole partly kb = (.ok (), kb') ↔ reply.isDone = true ∧ kb' = whole kb := by
  cases reply with
  | done => simp [settle, Reply.isDone, eq_comm]
  | failed raised part => simp [settle, Reply.isDone]

theorem answered_ok {reply : Option Raised} {kb kb' : KnowledgeBase} :
    answered reply kb = (.ok (), kb') ↔ reply.isNone = true ∧ kb' = kb := by
  cases reply with
  | none => simp [answered, eq_comm]
  | some raised => simp [answered, raise]

section Files

variable {repo : Repository} {call : IngestCall} {known : Dict String} {kb kb' : KnowledgeBase}
  {rel : String}

/-- The manifest lists the file with the digest of its content, and the run goes by that. -/
def isUnchanged (repo : Repository) (call : IngestCall) (known : Dict String) (rel : String)
    (bytes : ByteArray) : Bool :=
  call.skipUnchanged && known.lookup rel = some (hexDigest repo.sha256 bytes)

/-- No call for the file fails between its deletion and the next file. -/
def fileGoes (repo : Repository) (call : IngestCall) (rel : String) (bytes : ByteArray) : Bool :=
  (call.answers.deleteByQuery rel).isDone && (call.answers.readText rel).isNone &&
    (childrenOf repo rel bytes).isOk

/-- The files whose documents a run deletes: those that changed, up to the first failure. -/
def clearedFrom (repo : Repository) (call : IngestCall) (known : Dict String)
    (files : String → Option ByteArray) : List String → List String
  | [] => []
  | rel :: rest =>
    match files rel with
    | none => []
    | some bytes =>
      if isUnchanged repo call known rel bytes then clearedFrom repo call known files rest
      else rel :: (if fileGoes repo call rel bytes then clearedFrom repo call known files rest
        else [])

theorem assertAllowlisted_eq (allowed : rel ∈ allowedRelativePaths) :
    assertAllowlisted repo rel = .ok rel := by
  simp [assertAllowlisted, repo.plain rel allowed, allowed]

theorem ingestFile_missing (allowed : rel ∈ allowedRelativePaths) (missing : kb.files rel = none)
    (progress : IngestProgress) : ∃ raised,
      ingestFile repo call known rel progress kb = (.error raised, kb) := by
  refine ⟨.other ("No such file or directory: " ++ absolutePath repo rel), ?_⟩
  unfold ingestFile
  rw [assertAllowlisted_eq allowed]
  refine bind_of_ok (t := kb) rfl |>.trans (bind_of_error ?_)
  simp [readBytes, missing]

theorem ingestFile_eq {bytes : ByteArray} (allowed : rel ∈ allowedRelativePaths)
    (found : kb.files rel = some bytes) (progress : IngestProgress) :
    ingestFile repo call known rel progress kb =
      if isUnchanged repo call known rel bytes then
        (.ok { progress with skipped := progress.skipped + 1 }, kb)
      else reindexFile repo call.answers rel (hexDigest repo.sha256 bytes) bytes progress kb := by
  unfold ingestFile
  rw [assertAllowlisted_eq allowed]
  refine bind_of_ok (t := kb) rfl |>.trans (bind_of_ok (a := bytes) (t := kb) ?_ |>.trans ?_)
  · simp [readBytes, found]
  · unfold isUnchanged
    simp only [Bool.and_eq_true, decide_eq_true_eq]
    split <;> rfl

theorem strip_allowed (h : rel ∈ allowedRelativePaths) : strip rel = rel ∧ rel ≠ "" := by
  refine ⟨strip_eq_self_of_no_space fun c hc => ?_, ?_⟩
  · simpa using (Bool.and_eq_true_iff.mp (pathChars_of_allowed rel h c hc)).2
  · rintro rfl
    simp [allowedRelativePaths] at h

theorem keeps_reindexFile {answers : Answers} {digest other : String} {bytes : ByteArray}
    {progress : IngestProgress} (allowed : rel ∈ allowedRelativePaths) (ne : rel ≠ other) :
    Leaves (Keeps other) (reindexFile repo answers rel digest bytes progress) := by
  have hstrip : strip rel ≠ other := by rwa [(strip_allowed allowed).1]
  exact leaves_bind keeps_trans (keeps_deleteBySourcePath hstrip) fun _ =>
    leaves_bind keeps_trans (keeps_answered _) fun _ =>
    leaves_bind keeps_trans (leaves_fromExcept keeps_refl _) fun _ => leaves_pure keeps_refl _

theorem deleteBySourcePath_ok {answers : Answers} {deleted : Nat}
    (allowed : rel ∈ allowedRelativePaths)
    (h : deleteBySourcePath answers rel kb = (.ok deleted, kb')) :
    (answers.deleteByQuery rel).isDone = true ∧
      kb' = removeDocs (fun doc => doc.sourcePath = rel) kb := by
  unfold deleteBySourcePath at h
  rw [(strip_allowed allowed).1, if_neg (strip_allowed allowed).2] at h
  obtain ⟨_, _, hread, h⟩ := bind_eq_ok.mp h
  cases hread
  obtain ⟨_, _, hsettle, h⟩ := bind_eq_ok.mp h
  cases h
  exact settle_ok.mp hsettle

theorem reindexFile_ok {answers : Answers} {digest : String} {bytes : ByteArray}
    {progress after : IngestProgress} (allowed : rel ∈ allowedRelativePaths)
    (h : reindexFile repo answers rel digest bytes progress kb = (.ok after, kb')) :
    (answers.deleteByQuery rel).isDone = true ∧ (answers.readText rel).isNone = true ∧
      kb' = removeDocs (fun doc => doc.sourcePath = rel) kb ∧
      ∃ chunks, childrenOf repo rel bytes = .ok chunks ∧
        after.children = progress.children ++ chunks ∧
        after.updatedHashes = progress.updatedHashes.set rel digest ∧
        after.processed = progress.processed + 1 := by
  obtain ⟨deleted, _, hdelete, h⟩ := bind_eq_ok.mp h
  obtain ⟨_, _, hread, h⟩ := bind_eq_ok.mp h
  obtain ⟨chunks, _, hchunks, h⟩ := bind_eq_ok.mp h
  cases h
  obtain ⟨hdone, rfl⟩ := deleteBySourcePath_ok allowed hdelete
  obtain ⟨hanswered, rfl⟩ := answered_ok.mp hread
  obtain ⟨hmade, rfl⟩ := fromExcept_eq_ok.mp hchunks
  exact ⟨hdone, hanswered, rfl, chunks, hmade, rfl, rfl, rfl⟩

/-- The loop leaves the documents of a file alone when it does not delete them. -/
theorem keeps_ingestFiles {paths : List String} (allowed : ∀ path ∈ paths, path ∈ allowedRelativePaths)
    (spared : rel ∉ clearedFrom repo call known kb.files paths) (progress : IngestProgress) :
    Keeps rel kb (ingestFiles repo call known paths progress kb).2 := by
  induction paths generalizing kb progress with
  | nil => exact keeps_refl kb
  | cons path rest ih =>
    obtain ⟨hpath, hrest⟩ := List.forall_mem_cons.mp allowed
    unfold ingestFiles
    unfold clearedFrom at spared
    cases hfile : kb.files path with
    | none =>
      obtain ⟨raised, herror⟩ := @ingestFile_missing repo call known kb path hpath hfile progress
      rw [bind_of_error herror]
      exact keeps_refl kb
    | some bytes =>
      have hone := @ingestFile_eq repo call known kb path bytes hpath hfile progress
      rw [hfile] at spared
      dsimp only at spared
      cases hsame : isUnchanged repo call known path bytes with
      | true =>
        rw [hsame, if_pos rfl] at hone spared
        rw [bind_of_ok hone]
        exact ih hrest spared _
      | false =>
        simp only [hsame, Bool.false_eq_true, if_false] at hone spared
        obtain ⟨hne, hlater⟩ := not_or.mp (fun h => spared (List.mem_cons.mpr h))
        have hfirst := @keeps_reindexFile repo path call.answers (hexDigest repo.sha256 bytes) rel
          bytes progress hpath (Ne.symm hne) kb
        rcases hresult : ingestFile repo call known path progress kb with ⟨raised | after, kb'⟩
        · rw [bind_of_error hresult]
          rw [← hone, hresult] at hfirst
          exact hfirst
        · rw [bind_of_ok hresult]
          rw [hone] at hresult
          rw [hresult] at hfirst
          obtain ⟨hdone, hread, _, chunks, hchunks, _⟩ := reindexFile_ok hpath hresult
          have goes : fileGoes repo call path bytes = true := by
            simp [fileGoes, hdone, hread, hchunks, Except.isOk, Except.toBool]
          rw [goes, if_pos rfl, ← hfirst.files] at hlater
          exact keeps_trans _ _ _ hfirst (ih hrest hlater after)

end Files

/-- The retrieval chunks of some files, one after the other. -/
inductive Collects (repo : Repository) (files : String → Option ByteArray) :
    List String → List Chunk → Prop
  | none : Collects repo files [] []
  | file {rel bytes chunks rest others} : files rel = some bytes →
      childrenOf repo rel bytes = .ok chunks → Collects repo files rest others →
      Collects repo files (rel :: rest) (chunks ++ others)

/-- What the loop has done when it returns. -/
structure LoopDone (repo : Repository) (call : IngestCall) (known : Dict String)
    (kb : KnowledgeBase) (paths : List String) (progress after : IngestProgress)
    (kb' : KnowledgeBase) (cleared : List String) : Prop where
  removed : kb' = removeDocs (fun doc => decide (doc.sourcePath ∈ cleared)) kb
  collected : ∃ children, Collects repo kb.files cleared children ∧
    after.children = progress.children ++ children
  hashes : ∀ rel, after.updatedHashes.lookup rel =
    if rel ∈ cleared then (kb.files rel).map (hexDigest repo.sha256)
    else progress.updatedHashes.lookup rel
  others : ∀ rel ∈ paths, rel ∈ cleared ∨
    ∃ bytes, kb.files rel = some bytes ∧ isUnchanged repo call known rel bytes = true

section Loop

variable {repo : Repository} {call : IngestCall} {known : Dict String} {kb kb' : KnowledgeBase}

theorem removeDocs_removeDocs (first second : Document → Bool) (kb : KnowledgeBase) :
    removeDocs second (removeDocs first kb) =
      removeDocs (fun doc => first doc || second doc) kb := by
  unfold removeDocs KnowledgeBase.mapDocs
  cases kb.index with
  | none => rfl
  | some index => simp [List.filter_filter, Bool.and_comm]

theorem removeDocs_nothing (kb : KnowledgeBase) :
    removeDocs (fun doc => decide (doc.sourcePath ∈ ([] : List String))) kb = kb := by
  obtain ⟨files, index, manifests⟩ := kb
  cases index <;> simp [removeDocs, KnowledgeBase.mapDocs]

theorem ingestFiles_done {paths : List String} {progress after : IngestProgress}
    (allowed : ∀ path ∈ paths, path ∈ allowedRelativePaths)
    (h : ingestFiles repo call known paths progress kb = (.ok after, kb')) :
    LoopDone repo call known kb paths progress after kb'
      (clearedFrom repo call known kb.files paths) := by
  induction paths generalizing kb progress with
  | nil =>
    cases h
    exact ⟨(removeDocs_nothing _).symm, ⟨[], .none, by simp⟩, fun rel => by simp [clearedFrom],
      by simp⟩
  | cons path rest ih =>
    obtain ⟨hpath, hrest⟩ := List.forall_mem_cons.mp allowed
    obtain ⟨between, middle, hone, h⟩ := bind_eq_ok.mp h
    unfold clearedFrom
    cases hfile : kb.files path with
    | none =>
      obtain ⟨raised, herror⟩ := @ingestFile_missing repo call known kb path hpath hfile progress
      rw [herror] at hone
      cases hone
    | some bytes =>
      rw [ingestFile_eq hpath hfile] at hone
      dsimp only
      cases hsame : isUnchanged repo call known path bytes with
      | true =>
        rw [hsame, if_pos rfl] at hone
        cases hone
        have done := ih hrest h
        rw [if_pos rfl]
        refine ⟨done.removed, done.collected, done.hashes, ?_⟩
        exact List.forall_mem_cons.mpr ⟨.inr ⟨bytes, hfile, hsame⟩, done.others⟩
      | false =>
        rw [hsame, if_neg Bool.false_ne_true] at hone
        obtain ⟨hdone, hread, hmiddle, chunks, hchunks, hchildren, hhashes, _⟩ :=
          reindexFile_ok hpath hone
        have goes : fileGoes repo call path bytes = true := by
          simp [fileGoes, hdone, hread, hchunks, Except.isOk, Except.toBool]
        have hfiles : middle.files = kb.files := by rw [hmiddle]; rfl
        have done := ih hrest h
        rw [hfiles] at done
        rw [if_neg Bool.false_ne_true, goes, if_pos rfl]
        generalize clearedFrom repo call known kb.files rest = cleared at done ⊢
        refine ⟨?_, ?_, fun rel => ?_, ?_⟩
        · rw [done.removed, hmiddle, removeDocs_removeDocs]
          simp
        · obtain ⟨children, hcollects, hafter⟩ := done.collected
          rw [hfiles] at hcollects
          exact ⟨chunks ++ children, .file hfile hchunks hcollects,
            by rw [hafter, hchildren, List.append_assoc]⟩
        · rw [done.hashes, hfiles, hhashes, Dict.lookup_set]
          by_cases hrel : rel = path
          · simp [hrel, hfile]
          · simp [hrel]
        · refine List.forall_mem_cons.mpr ⟨.inl List.mem_cons_self, fun rel hrel => ?_⟩
          rw [← hfiles]
          exact (done.others rel hrel).imp_left (List.mem_cons_of_mem _)

end Loop

/-- A document without its vector. -/
def Document.bare (doc : Document) : Document := { doc with embedding := [] }

/-- The document of a chunk, without its vector. -/
def bareDocument (chunk : Chunk) : Document := documentFromChunk chunk []

section Documents

variable {kb kb' : KnowledgeBase}

theorem bare_zipWith (chunks : List Chunk) (vectors : List (List ℚ))
    (h : vectors.length = chunks.length) :
    (List.zipWith documentFromChunk chunks vectors).map Document.bare =
      chunks.map bareDocument := by
  induction chunks generalizing vectors with
  | nil => rfl
  | cons chunk rest ih =>
    obtain ⟨vector, others, rfl⟩ := List.exists_cons_of_length_eq_add_one h
    rw [List.zipWith_cons_cons, List.map_cons, ih others (Nat.succ.inj h)]
    rfl

theorem embedBatches_ok {embedTexts : Nat → List String → Except Raised (List (List ℚ))}
    {number : Nat} {batches : List (List Chunk)} {documents : List Document}
    (h : embedBatches embedTexts number batches = .ok documents) :
    documents.map Document.bare = batches.flatten.map bareDocument := by
  induction batches generalizing number documents with
  | nil =>
    cases h
    rfl
  | cons batch rest ih =>
    obtain ⟨vectors, _, h⟩ := bind_ok h
    split at h
    · cases h
    next hlength =>
      cases hrest : embedBatches embedTexts (number + 1) rest with
      | error raised =>
        rw [hrest] at h
        cases h
      | ok others =>
        rw [hrest] at h
        cases h
        rw [List.map_append, bare_zipWith batch vectors (not_not.mp hlength), ih hrest,
          List.flatten_cons, List.map_append]

/-- The documents to write are those of the chunks, in their order. -/
theorem embedChunks_ok {answers : Answers} {chunks : List Chunk} {documents : List Document}
    (h : embedChunks answers chunks = .ok documents) :
    documents.map Document.bare = chunks.map bareDocument := by
  rw [embedBatches_ok h, batchesFrom_flatten, List.nil_append]

theorem upsertDocs_append (documents others : List Document) (kb : KnowledgeBase) :
    upsertDocs others (upsertDocs documents kb) = upsertDocs (documents ++ others) kb := by
  unfold upsertDocs KnowledgeBase.mapDocs
  cases kb.index with
  | none => rfl
  | some index => simp [List.foldl_append]

theorem upsertDocs_nil (kb : KnowledgeBase) : upsertDocs [] kb = kb := by
  obtain ⟨files, index, manifests⟩ := kb
  cases index <;> rfl

theorem bulkBatches_ok {answers : Answers} {number : Nat} {batches : List (List Document)}
    (h : bulkBatches answers number batches kb = (.ok (), kb')) :
    kb' = upsertDocs batches.flatten kb := by
  induction batches generalizing number kb with
  | nil =>
    cases h
    exact (upsertDocs_nil _).symm
  | cons batch rest ih =>
    obtain ⟨_, _, hids, h⟩ := bind_eq_ok.mp h
    obtain ⟨_, rfl⟩ := fromExcept_eq_ok.mp hids
    obtain ⟨_, middle, hsettle, h⟩ := bind_eq_ok.mp h
    obtain ⟨_, rfl⟩ := settle_ok.mp hsettle
    rw [ih h, upsertDocs_append, List.flatten_cons]

theorem bulkUpsert_ok {answers : Answers} {documents : List Document} {written : Nat}
    (h : bulkUpsert answers documents kb = (.ok written, kb')) :
    kb' = upsertDocs documents kb := by
  unfold bulkUpsert at h
  split at h
  next hempty =>
    cases h
    rw [List.isEmpty_iff.mp hempty, upsertDocs_nil]
  · obtain ⟨_, middle, hbatches, h⟩ := bind_eq_ok.mp h
    obtain ⟨_, _, hrefresh, h⟩ := bind_eq_ok.mp h
    cases h
    obtain ⟨_, rfl⟩ := answered_ok.mp hrefresh
    rw [bulkBatches_ok hbatches, batchesFrom_flatten, List.nil_append]

variable {repo : Repository} {files : String → Option ByteArray} {paths : List String}
  {children : List Chunk} {rel : String}

theorem childrenOf_spec {bytes : ByteArray} {chunks : List Chunk}
    (h : childrenOf repo rel bytes = .ok chunks) :
    (∀ chunk ∈ chunks, ∃ index, IsChunkOf repo.sha256 rel 'c' index chunk) ∧
      (chunks.map Chunk.chunkId).Nodup := by
  unfold childrenOf at h
  split at h
  · cases h
    exact retrievalChunks_spec _
  · cases h

theorem collects_path (h : Collects repo files paths children) :
    ∀ chunk ∈ children, ∃ index, chunk.sourcePath ∈ paths ∧
      IsChunkOf repo.sha256 chunk.sourcePath 'c' index chunk := by
  induction h with
  | none => simp
  | file _ hchunks _ ih =>
    intro chunk hchunk
    rcases List.mem_append.mp hchunk with hchunk | hchunk
    · obtain ⟨index, hpath, hid⟩ := (childrenOf_spec hchunks).1 chunk hchunk
      rw [← hpath] at hid
      exact ⟨index, by simp [hpath], rfl, hid⟩
    · obtain ⟨index, hmem, hid⟩ := ih chunk hchunk
      exact ⟨index, List.mem_cons_of_mem _ hmem, hid⟩

/-- Among the collected chunks those of one file are its retrieval chunks. -/
theorem collects_filter (h : Collects repo files paths children) (nodup : paths.Nodup)
    (mem : rel ∈ paths) : ∃ bytes chunks, files rel = some bytes ∧
      childrenOf repo rel bytes = .ok chunks ∧
      (children.filter fun chunk => chunk.sourcePath = rel) = chunks := by
  have none_left : ∀ {paths children}, Collects repo files paths children → rel ∉ paths →
      (children.filter fun chunk => chunk.sourcePath = rel) = [] := by
    intro paths children h hrel
    rw [List.filter_eq_nil_iff]
    intro chunk hchunk hsame
    obtain ⟨_, hmem, _⟩ := collects_path h chunk hchunk
    exact hrel (of_decide_eq_true hsame ▸ hmem)
  induction h with
  | none => cases mem
  | @file path bytes chunks rest others hfile hchunks hrest ih =>
    obtain ⟨hne, hnodup⟩ := List.nodup_cons.mp nodup
    rw [List.filter_append]
    rcases List.mem_cons.mp mem with rfl | hmem
    · refine ⟨bytes, chunks, hfile, hchunks, ?_⟩
      rw [none_left hrest hne, List.append_nil, List.filter_eq_self]
      intro chunk hchunk
      obtain ⟨_, hpath, _⟩ := (childrenOf_spec hchunks).1 chunk hchunk
      exact decide_eq_true hpath
    · obtain ⟨bytes, later, hfile', hlater, hfilter⟩ := ih hnodup hmem
      have apart : (chunks.filter fun chunk => chunk.sourcePath = rel) = [] := by
        rw [List.filter_eq_nil_iff]
        intro chunk hchunk hsame
        obtain ⟨_, hpath, _⟩ := (childrenOf_spec hchunks).1 chunk hchunk
        exact hne (hpath ▸ of_decide_eq_true hsame ▸ hmem)
      exact ⟨bytes, later, hfile', hlater, by rw [hfilter, apart, List.nil_append]⟩

theorem collects_nodup (h : Collects repo files paths children) (nodup : paths.Nodup)
    (allowed : ∀ path ∈ paths, path ∈ allowedRelativePaths) :
    (children.map Chunk.chunkId).Nodup := by
  induction h with
  | none => simp
  | @file path bytes chunks rest others hfile hchunks hrest ih =>
    obtain ⟨hne, hnodup⟩ := List.nodup_cons.mp nodup
    obtain ⟨hpath, hallowed⟩ := List.forall_mem_cons.mp allowed
    obtain ⟨hids, hown⟩ := childrenOf_spec hchunks
    rw [List.map_append]
    refine List.nodup_append.mpr ⟨hown, ih hnodup hallowed, ?_⟩
    intro id hid other hother hsame
    obtain ⟨chunk, hchunk, rfl⟩ := List.mem_map.mp hid
    obtain ⟨later, hlater, rfl⟩ := List.mem_map.mp hother
    obtain ⟨_, hchunk⟩ := hids chunk hchunk
    obtain ⟨_, hmem, hlater⟩ := collects_path hrest later hlater
    have howner := ownerOf_chunkId hpath hchunk
    rw [hsame, ownerOf_chunkId (hallowed _ hmem) hlater] at howner
    exact hne (String.toList_injective howner ▸ hmem)

end Documents

end Aegis
