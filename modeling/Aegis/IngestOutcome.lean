import Aegis.IngestRuns

namespace Aegis

open Raising Proc StepPath

section Run

variable {repo : Repository} {call : IngestCall} {kb kb' : KnowledgeBase} {rel : String}

def Reply.happens : Reply Bool → Bool
  | .done => true
  | .failed _ happened => happened

/-- The index is one of an older mapping, and its deletion happens. -/
def ensureDrops (answers : Answers) : Option KnowledgeIndex → Bool
  | none => false
  | some index => answers.getIndex.isNone && !isHybridMapping index.properties &&
    answers.deleteIndex.happens

/-- No request of `ensure_hybrid_index` fails. -/
def ensureGoes (answers : Answers) (existing : Option KnowledgeIndex) : Bool :=
  answers.getIndex.isNone && match existing with
    | none => answers.putIndex.isDone
    | some index => isHybridMapping index.properties ||
      (answers.deleteIndex.isDone && answers.putIndex.isDone)

/-- The files whose documents the run deletes. -/
def clearedBy (repo : Repository) (call : IngestCall) (kb : KnowledgeBase) : List String :=
  match resolveSourcePaths repo kb.files call.relativePaths with
  | .error _ => []
  | .ok selected =>
    if ensureGoes call.answers kb.index then
      clearedFrom repo call (knownHashes repo call kb) kb.files selected
    else []

/-- The run drops the index with all its documents. -/
def dropsIndex (repo : Repository) (call : IngestCall) (kb : KnowledgeBase) : Bool :=
  match resolveSourcePaths repo kb.files call.relativePaths with
  | .error _ => false
  | .ok _ => ensureDrops call.answers kb.index

/-- The run takes documents of the file out of the index. -/
def Touches (repo : Repository) (call : IngestCall) (kb : KnowledgeBase) (rel : String) : Prop :=
  dropsIndex repo call kb = true ∨ rel ∈ clearedBy repo call kb

/-- The documents of a file in the index are those of the chunks of a content. -/
def StoredAs (repo : Repository) (rel : String) (bytes : ByteArray) (kb : KnowledgeBase) : Prop :=
  ∃ chunks, childrenOf repo rel bytes = .ok chunks ∧
    (docsOf rel kb).map Document.bare = chunks.map bareDocument

/-- What `ensure_hybrid_index` may do: nothing, or drop an index of an older mapping, or create
an empty one where there is none. -/
structure Ensured (answers : Answers) (kb : KnowledgeBase) (ended : Except Raised Unit)
    (kb' : KnowledgeBase) : Prop where
  files : kb'.files = kb.files
  manifests : kb'.manifests = kb.manifests
  keyed : Keyed kb → Keyed kb'
  docs : ensureDrops answers kb.index = false → ∀ rel, docsOf rel kb' = docsOf rel kb
  goes : ended = .ok () ↔ ensureGoes answers kb.index = true
  index : ended = .ok () → ∃ index, kb'.index = some index

theorem keyed_none (h : kb.index = none) : Keyed kb := by
  intro index hindex
  rw [h] at hindex
  cases hindex

theorem keyed_createIndex (kb : KnowledgeBase) : Keyed (createIndex kb) := by
  intro index hindex
  cases hindex
  simp

theorem ensured_put {answers : Answers} (reached : answers.getIndex = none)
    (missing : kb.index = none) :
    Ensured answers kb (ensureFrom answers none kb).1 (ensureFrom answers none kb).2 := by
  have created : ∀ rel, docsOf rel (createIndex kb) = docsOf rel kb := by
    intro rel
    simp [docsOf, createIndex, missing]
  cases hput : answers.putIndex with
  | done =>
    have hrun : ensureFrom answers none kb = (.ok (), createIndex kb) := by
      simp [ensureFrom, settle, hput]
    rw [hrun]
    exact ⟨rfl, rfl, fun _ => keyed_createIndex kb, fun _ => created,
      by simp [ensureGoes, reached, missing, hput, Reply.isDone], fun _ => ⟨_, rfl⟩⟩
  | failed raised happened =>
    have hrun : ensureFrom answers none kb = (.error raised, partly createIndex happened kb) := by
      simp [ensureFrom, settle, hput]
    rw [hrun]
    have goes : ensureGoes answers kb.index = false := by
      simp [ensureGoes, missing, hput, Reply.isDone]
    cases happened with
    | true =>
      exact ⟨rfl, rfl, fun _ => keyed_createIndex kb, fun _ => created, by simp [goes], by simp⟩
    | false => exact ⟨rfl, rfl, id, fun _ _ => rfl, by simp [goes], by simp⟩

theorem ensured_old {answers : Answers} {old : KnowledgeIndex} (reached : answers.getIndex = none)
    (found : kb.index = some old) (outdated : isHybridMapping old.properties = false) :
    Ensured answers kb (ensureFrom answers (some old) kb).1
      (ensureFrom answers (some old) kb).2 := by
  have hfrom : ensureFrom answers (some old) =
      settle answers.deleteIndex dropIndex (partly dropIndex) >>= fun _ =>
        ensureFrom answers none := by
    simp [ensureFrom, outdated]
  rw [hfrom]
  cases hdelete : answers.deleteIndex with
  | failed raised happened =>
    have hdrop : settle (.failed raised happened) dropIndex (partly dropIndex) kb =
        (.error raised, partly dropIndex happened kb) := rfl
    rw [bind_of_error hdrop]
    have goes : ensureGoes answers kb.index = false := by
      simp [ensureGoes, found, outdated, hdelete, Reply.isDone]
    cases happened with
    | true =>
      exact ⟨rfl, rfl, fun _ => keyed_none rfl,
        by simp [ensureDrops, reached, found, outdated, hdelete, Reply.happens], by simp [goes],
        by simp⟩
    | false => exact ⟨rfl, rfl, id, fun _ _ => rfl, by simp [goes], by simp⟩
  | done =>
    have hdrop : settle .done dropIndex (partly dropIndex) kb = (.ok (), dropIndex kb) := rfl
    rw [bind_of_ok hdrop]
    have put := @ensured_put (dropIndex kb) answers reached rfl
    refine ⟨put.files, put.manifests, fun _ => put.keyed (keyed_none rfl),
      by simp [ensureDrops, reached, found, outdated, hdelete, Reply.happens], ?_, put.index⟩
    have goes := put.goes
    simpa [ensureGoes, found, outdated, hdelete, Reply.isDone, dropIndex] using goes

theorem ensured (answers : Answers) (kb : KnowledgeBase) :
    Ensured answers kb (ensureHybridIndex answers kb).1 (ensureHybridIndex answers kb).2 := by
  unfold ensureHybridIndex
  cases hget : answers.getIndex with
  | some raised =>
    have hreply : answered (some raised) kb = (.error raised, kb) := rfl
    rw [bind_of_error hreply]
    exact ⟨rfl, rfl, id, fun _ _ => rfl, by simp [ensureGoes, hget], by simp⟩
  | none =>
    have hreply : answered none kb = (.ok (), kb) := rfl
    have hread : (read KnowledgeBase.index : Proc KnowledgeBase Raised _) kb = (.ok kb.index, kb) :=
      rfl
    rw [bind_of_ok hreply, bind_of_ok hread]
    cases hindex : kb.index with
    | none => exact ensured_put hget hindex
    | some index =>
      cases hhybrid : isHybridMapping index.properties with
      | false => exact ensured_old hget hindex hhybrid
      | true =>
        have stay : ensureFrom answers (some index) kb = (.ok (), kb) := by
          simp [ensureFrom, hhybrid]
        rw [stay]
        exact ⟨rfl, rfl, id, fun _ _ => rfl, by simp [ensureGoes, hget, hindex, hhybrid],
          fun _ => ⟨index, hindex⟩⟩

end Run

section Selection

variable {repo : Repository} {files : String → Option ByteArray}

/-- Distinct allowlisted files that are all there. -/
structure Selection (files : String → Option ByteArray) (selected : List String) : Prop where
  allowed : ∀ rel ∈ selected, rel ∈ allowedRelativePaths
  found : ∀ rel ∈ selected, ∃ bytes, files rel = some bytes
  nodup : selected.Nodup

theorem assertAllowlisted_ok {path rel : String} (h : assertAllowlisted repo path = .ok rel) :
    rel ∈ allowedRelativePaths := by
  unfold assertAllowlisted at h
  dsimp only at h
  split at h
  next hmem =>
    cases h
    exact hmem
  · cases h

theorem selection_resolveGiven {paths resolved selected : List String}
    (start : Selection files resolved)
    (h : resolveGiven repo files paths resolved = .ok selected) :
    Selection files selected ∧ (resolved ≠ [] ∨ paths ≠ [] → selected ≠ []) := by
  induction paths generalizing resolved with
  | nil =>
    cases h
    exact ⟨start, by simp⟩
  | cons raw rest ih =>
    obtain ⟨rel, hrel, h⟩ := bind_ok h
    split at h
    next hmem =>
      obtain ⟨hselection, hne⟩ := ih start h
      exact ⟨hselection, fun _ => hne (.inl (List.ne_nil_of_mem hmem))⟩
    next hmem =>
      split at h
      · cases h
      next hfound =>
        obtain ⟨bytes, hbytes⟩ : ∃ bytes, files rel = some bytes := by
          simpa [Option.ne_none_iff_exists'] using hfound
        have longer : Selection files (resolved ++ [rel]) := by
          refine ⟨?_, ?_, ?_⟩
          · intro path hpath
            rcases List.mem_append.mp hpath with hpath | hpath
            · exact start.allowed path hpath
            · rw [List.mem_singleton.mp hpath]
              exact assertAllowlisted_ok hrel
          · intro path hpath
            rcases List.mem_append.mp hpath with hpath | hpath
            · exact start.found path hpath
            · rw [List.mem_singleton.mp hpath]
              exact ⟨bytes, hbytes⟩
          · refine List.nodup_append.mpr ⟨start.nodup, by simp, fun path hpath other hother => ?_⟩
            rw [List.mem_singleton.mp hother]
            rintro rfl
            exact hmem hpath
        obtain ⟨hselection, hne⟩ := ih longer h
        exact ⟨hselection, fun _ => hne (.inl (by simp))⟩

theorem selection_of_resolve {given : Option (List String)} {selected : List String}
    (h : resolveSourcePaths repo files given = .ok selected) :
    Selection files selected ∧ selected ≠ [] := by
  cases given with
  | none =>
    unfold resolveSourcePaths requireAllowlistedFiles at h
    dsimp only at h
    split at h
    next hmissing =>
      cases h
      refine ⟨⟨fun _ hrel => hrel, fun rel hrel => ?_, by decide +kernel⟩, List.cons_ne_nil _ _⟩
      have := List.filter_eq_nil_iff.mp (List.isEmpty_iff.mp hmissing) rel hrel
      simpa [Option.ne_none_iff_exists'] using this
    · cases h
  | some paths =>
    unfold resolveSourcePaths at h
    dsimp only at h
    split at h
    · cases h
    next hpaths =>
      obtain ⟨hselection, hne⟩ := @selection_resolveGiven repo files paths [] selected
        ⟨by simp, by simp, by simp⟩ h
      exact ⟨hselection, hne (.inr fun hnil => hpaths (by simp [hnil]))⟩

end Selection

section Stored

variable {repo : Repository} {kb : KnowledgeBase} {rel : String}

/-- Once the documents of the collected files are gone and those of their chunks are written,
the index holds for each of these files the documents of its chunks. -/
theorem stored_of_upsert {cleared : List String} {children : List Chunk}
    {documents : List Document} (keyed : Keyed kb) (index : ∃ index, kb.index = some index)
    (collects : Collects repo kb.files cleared children) (nodup : cleared.Nodup)
    (allowed : ∀ path ∈ cleared, path ∈ allowedRelativePaths)
    (made : documents.map Document.bare = children.map bareDocument) (mem : rel ∈ cleared) :
    ∃ bytes, kb.files rel = some bytes ∧ StoredAs repo rel bytes
      (upsertDocs documents (removeDocs (fun doc => decide (doc.sourcePath ∈ cleared)) kb)) := by
  obtain ⟨index, hindex⟩ := index
  obtain ⟨bytes, chunks, hfile, hchunks, hfilter⟩ := collects_filter collects nodup mem
  have fromChunk : ∀ doc ∈ documents, ∃ chunk ∈ children,
      doc.chunkId = chunk.chunkId ∧ doc.sourcePath = chunk.sourcePath := by
    intro doc hdoc
    have hbare : doc.bare ∈ children.map bareDocument := made ▸ List.mem_map_of_mem hdoc
    obtain ⟨chunk, hchunk, hsame⟩ := List.mem_map.mp hbare
    exact ⟨chunk, hchunk, (congrArg Document.chunkId hsame).symm,
      (congrArg Document.sourcePath hsame).symm⟩
  have ids : documents.map Document.chunkId = children.map Chunk.chunkId := by
    have := congrArg (List.map Document.chunkId) made
    rwa [List.map_map, List.map_map] at this
  have left : ∀ entry ∈ index.docs.filter (fun entry => !decide (entry.2.sourcePath ∈ cleared)),
      Owned entry ∧ entry.2.sourcePath ∉ cleared := by
    intro entry hentry
    obtain ⟨hmem, hpath⟩ := List.mem_filter.mp hentry
    exact ⟨keyed index hindex entry hmem, by simpa using hpath⟩
  have fresh : ∀ doc ∈ documents, ∀ entry ∈ index.docs.filter (fun entry =>
      !decide (entry.2.sourcePath ∈ cleared)), entry.1 ≠ doc.chunkId := by
    intro doc hdoc entry hentry hsame
    obtain ⟨chunk, hchunk, hid, _⟩ := fromChunk doc hdoc
    obtain ⟨_, hpath, hchunk⟩ := collects_path collects chunk hchunk
    obtain ⟨howned, hnot⟩ := left entry hentry
    have howner := ownerOf_chunkId (allowed _ hpath) hchunk
    rw [← hid, ← hsame] at howner
    exact hnot (String.toList_injective (howned.symm.trans howner) ▸ hpath)
  have gone : ((index.docs.filter fun entry => !decide (entry.2.sourcePath ∈ cleared)).map
      Prod.snd).filter (fun doc => decide (doc.sourcePath = rel)) = [] := by
    rw [List.filter_eq_nil_iff]
    intro doc hdoc hsame
    obtain ⟨entry, hentry, rfl⟩ := List.mem_map.mp hdoc
    exact (left entry hentry).2 (of_decide_eq_true hsame ▸ mem)
  refine ⟨bytes, hfile, chunks, hchunks, ?_⟩
  have hdocs : docsOf rel (upsertDocs documents
      (removeDocs (fun doc => decide (doc.sourcePath ∈ cleared)) kb)) =
      documents.filter fun doc => doc.sourcePath = rel := by
    unfold docsOf upsertDocs removeDocs KnowledgeBase.mapDocs
    rw [hindex]
    simp only [Option.map_some]
    rw [foldl_set_of_fresh documents (ids ▸ collects_nodup collects nodup allowed) fresh,
      List.map_append, List.filter_append, gone, List.nil_append, List.map_map]
    exact congrArg _ (List.map_id documents)
  rw [hdocs, ← hfilter]
  have filtered := congrArg (List.filter fun doc => decide (doc.sourcePath = rel)) made
  rwa [List.filter_map, List.filter_map] at filtered

end Stored

section Outcome

variable {repo : Repository} {call : IngestCall} {kb kb' : KnowledgeBase} {rel : String}

theorem clearedFrom_sublist (known : Dict String) (files : String → Option ByteArray)
    (paths : List String) : (clearedFrom repo call known files paths).Sublist paths := by
  induction paths with
  | nil => exact List.Sublist.refl _
  | cons path rest ih =>
    unfold clearedFrom
    split
    · exact List.nil_sublist _
    · split
      · exact ih.cons path
      · refine List.Sublist.cons_cons path ?_
        split
        · exact ih
        · exact List.nil_sublist _

theorem clearedBy_eq {selected : List String}
    (resolved : resolveSourcePaths repo kb.files call.relativePaths = .ok selected)
    (goes : ensureGoes call.answers kb.index = true) : clearedBy repo call kb =
      clearedFrom repo call (knownHashes repo call kb) kb.files selected := by
  unfold clearedBy
  rw [resolved]
  exact if_pos goes

theorem spareDocs_of_collects {files : String → Option ByteArray} {cleared : List String}
    {children : List Chunk} {documents : List Document}
    (collects : Collects repo files cleared children)
    (allowed : ∀ path ∈ cleared, path ∈ allowedRelativePaths)
    (made : documents.map Document.bare = children.map bareDocument) (spared : rel ∉ cleared) :
    SpareDocs rel documents := by
  intro doc hdoc
  have hbare : doc.bare ∈ children.map bareDocument := made ▸ List.mem_map_of_mem hdoc
  obtain ⟨chunk, hchunk, hsame⟩ := List.mem_map.mp hbare
  obtain ⟨_, hpath, hid⟩ := collects_path collects chunk hchunk
  have hchunkId : chunk.chunkId = doc.chunkId := congrArg Document.chunkId hsame
  have hsource : chunk.sourcePath = doc.sourcePath := congrArg Document.sourcePath hsame
  have howner := ownerOf_chunkId (allowed _ hpath) hid
  rw [hchunkId, hsource] at howner
  exact ⟨howner, fun heq => spared (heq ▸ hsource ▸ hpath)⟩

/-- The manifest of the run, written when it skips unchanged files. -/
def savedManifest (repo : Repository) (call : IngestCall) (hashes : Dict String)
    (kb : KnowledgeBase) : KnowledgeBase :=
  if call.skipUnchanged then
    { kb with manifests :=
      Function.update kb.manifests (manifestPathOf repo call) (some (manifestOf hashes)) }
  else kb

/-- How the part after the loop may end. -/
theorem writeCollected_cases (progress : IngestProgress) (kb : KnowledgeBase) :
    (∃ raised, writeCollected repo call progress kb = (.error raised, kb)) ∨
    ∃ documents, embedChunks call.answers progress.children = .ok documents ∧
      ((∃ raised, writeCollected repo call progress kb =
        (.error raised, (bulkUpsert call.answers documents kb).2)) ∨
      ∃ result, writeCollected repo call progress kb =
        (.ok result, savedManifest repo call progress.updatedHashes (upsertDocs documents kb))) := by
  unfold writeCollected
  split
  · exact .inl ⟨_, rfl⟩
  cases hembed : embedChunks call.answers progress.children with
  | error raised => exact .inl ⟨raised, rfl⟩
  | ok documents =>
    refine .inr ⟨documents, rfl, ?_⟩
    simp only [fromExcept, pure_bind]
    rcases hbulk : bulkUpsert call.answers documents kb with ⟨raised | written, kb'⟩
    · exact .inl ⟨raised, bind_of_error hbulk⟩
    · rw [bind_of_ok hbulk, ← bulkUpsert_ok hbulk]
      unfold saveIfSkipping savedManifest
      cases hskip : call.skipUnchanged with
      | false => exact .inr ⟨_, rfl⟩
      | true =>
        unfold saveManifest
        cases hsave : call.answers.saveManifest with
        | none => exact .inr ⟨_, rfl⟩
        | some raised => exact .inl ⟨raised, rfl⟩

end Outcome

/-- What a run leaves alone however it ends, before it writes the manifest. -/
structure Frame (repo : Repository) (call : IngestCall) (kb kb' : KnowledgeBase) : Prop where
  files : kb'.files = kb.files
  manifests : kb'.manifests = kb.manifests
  keyed : Keyed kb → Keyed kb'
  docs : Keyed kb → ∀ rel, ¬Touches repo call kb rel → docsOf rel kb' = docsOf rel kb

/-- What a run has done when it returns: the files it cleared are indexed anew and listed with
their digests, and the others it found unchanged. -/
structure Completed (repo : Repository) (call : IngestCall) (kb kb' : KnowledgeBase)
    (selected : List String) (hashes : Dict String) : Prop where
  resolved : resolveSourcePaths repo kb.files call.relativePaths = .ok selected
  stored : Keyed kb → ∀ rel ∈ clearedBy repo call kb, ∃ bytes, kb.files rel = some bytes ∧
    StoredAs repo rel bytes kb'
  hashes : ∀ rel, hashes.lookup rel =
    if rel ∈ clearedBy repo call kb then (kb.files rel).map (hexDigest repo.sha256)
    else (knownHashes repo call kb).lookup rel
  others : ∀ rel ∈ selected, rel ∈ clearedBy repo call kb ∨ ∃ bytes, kb.files rel = some bytes ∧
    isUnchanged repo call (knownHashes repo call kb) rel bytes = true

section Outcomes

variable {repo : Repository} {call : IngestCall} {kb middle kb' : KnowledgeBase}
  {selected : List String}

theorem frame_of_ensured {ended : Except Raised Unit}
    (resolved : resolveSourcePaths repo kb.files call.relativePaths = .ok selected)
    (h : Ensured call.answers kb ended middle) : Frame repo call kb middle := by
  refine ⟨h.files, h.manifests, h.keyed, fun _ rel spared => h.docs ?_ rel⟩
  have := not_or.mp spared
  simpa [dropsIndex, resolved] using this.1

theorem frame_of_keeps {ended : Except Raised Unit}
    (resolved : resolveSourcePaths repo kb.files call.relativePaths = .ok selected)
    (h : Ensured call.answers kb ended middle) (cleared : "" ∉ clearedBy repo call kb)
    (keeps : ∀ rel ∉ clearedBy repo call kb, Keeps rel middle kb') : Frame repo call kb kb' := by
  have first := frame_of_ensured resolved h
  refine ⟨(keeps "" cleared).files.trans first.files,
    (keeps "" cleared).manifests.trans first.manifests,
    fun keyed => (keeps "" cleared).keyed (first.keyed keyed), fun keyed rel spared => ?_⟩
  rw [(keeps rel (not_or.mp spared).2).docs (first.keyed keyed), first.docs keyed rel spared]

/-- The part of a run after the selection of its files. -/
theorem ingest_start : ingestKnowledgeCorpus repo call kb =
    (fromExcept (resolveSourcePaths repo kb.files call.relativePaths) >>= fun selected => do
      ensureHybridIndex call.answers
      let known ← read (knownHashes repo call)
      let progress ← ingestFiles repo call known selected ⟨0, 0, [], 0, known⟩
      writeCollected repo call progress : Proc KnowledgeBase Raised IngestResult) kb := rfl

theorem ingest_of_ensured
    (resolved : resolveSourcePaths repo kb.files call.relativePaths = .ok selected)
    (ensures : ensureHybridIndex call.answers kb = (.ok (), middle))
    (manifests : middle.manifests = kb.manifests) : ingestKnowledgeCorpus repo call kb =
      (ingestFiles repo call (knownHashes repo call kb) selected
        ⟨0, 0, [], 0, knownHashes repo call kb⟩ >>= writeCollected repo call) middle := by
  have hknown : knownHashes repo call middle = knownHashes repo call kb := by
    unfold knownHashes
    rw [manifests]
  rw [ingest_start, resolved]
  simp only [fromExcept, pure_bind]
  rw [bind_of_ok ensures, ← hknown]
  rfl

/-- How a run may end. -/
theorem ingest_outcome (repo : Repository) (call : IngestCall) (kb : KnowledgeBase) :
    ∃ last, Frame repo call kb last ∧
      ((∃ raised, ingestKnowledgeCorpus repo call kb = (.error raised, last)) ∨
      ∃ selected hashes result, Completed repo call kb last selected hashes ∧
        ingestKnowledgeCorpus repo call kb = (.ok result, savedManifest repo call hashes last)) := by
  cases hresolve : resolveSourcePaths repo kb.files call.relativePaths with
  | error raised =>
    refine ⟨kb, ⟨rfl, rfl, id, fun _ _ _ => rfl⟩, .inl ⟨raised, ?_⟩⟩
    rw [ingest_start, hresolve]
    rfl
  | ok selected =>
    obtain ⟨selection, _⟩ := selection_of_resolve hresolve
    have hensured := ensured call.answers kb
    rcases hensure : ensureHybridIndex call.answers kb with ⟨raised | ⟨⟩, middle⟩
    · rw [hensure] at hensured
      refine ⟨middle, frame_of_ensured hresolve hensured, .inl ⟨raised, ?_⟩⟩
      rw [ingest_start, hresolve]
      simp only [fromExcept, pure_bind]
      exact bind_of_error hensure
    rw [hensure] at hensured
    have hcleared := clearedBy_eq hresolve (hensured.goes.mp rfl)
    rw [ingest_of_ensured hresolve hensure hensured.manifests]
    have hsublist := @clearedFrom_sublist repo call (knownHashes repo call kb) kb.files selected
    rw [← hcleared] at hsublist
    have allowed : ∀ rel ∈ clearedBy repo call kb, rel ∈ allowedRelativePaths :=
      fun rel hrel => selection.allowed rel (hsublist.subset hrel)
    have noEmpty : "" ∉ clearedBy repo call kb := fun h => (strip_allowed (allowed "" h)).2 rfl
    have keepsLoop : ∀ rel ∉ clearedBy repo call kb, Keeps rel middle
        (ingestFiles repo call (knownHashes repo call kb) selected
          ⟨0, 0, [], 0, knownHashes repo call kb⟩ middle).2 := by
      intro rel hrel
      refine keeps_ingestFiles selection.allowed ?_ _
      rwa [hensured.files, ← hcleared]
    rcases hloop : ingestFiles repo call (knownHashes repo call kb) selected
      ⟨0, 0, [], 0, knownHashes repo call kb⟩ middle with ⟨raised | progress, after⟩
    · rw [hloop] at keepsLoop
      exact ⟨after, frame_of_keeps hresolve hensured noEmpty keepsLoop,
        .inl ⟨raised, bind_of_error hloop⟩⟩
    rw [hloop] at keepsLoop
    have done := ingestFiles_done selection.allowed hloop
    rw [hensured.files, ← hcleared] at done
    rw [bind_of_ok hloop]
    rcases @writeCollected_cases repo call progress after with
      ⟨raised, hwrite⟩ | ⟨documents, hembed, hwrite⟩
    · exact ⟨after, frame_of_keeps hresolve hensured noEmpty keepsLoop, .inl ⟨raised, hwrite⟩⟩
    obtain ⟨children, hcollects, hchildren⟩ := done.collected
    rw [List.nil_append] at hchildren
    have made := embedChunks_ok hembed
    rw [hchildren] at made
    rw [hensured.files] at hcollects
    have spare := fun rel hrel => @spareDocs_of_collects repo rel kb.files _ children documents
      hcollects allowed made hrel
    rcases hwrite with ⟨raised, hwrite⟩ | ⟨result, hwrite⟩
    · refine ⟨_, frame_of_keeps hresolve hensured noEmpty fun rel hrel => ?_, .inl ⟨raised, hwrite⟩⟩
      exact keeps_trans _ _ _ (keepsLoop rel hrel) (keeps_bulkUpsert (spare rel hrel) after)
    · refine ⟨_, frame_of_keeps hresolve hensured noEmpty fun rel hrel => ?_,
        .inr ⟨selected, progress.updatedHashes, result, ⟨hresolve, fun keyed rel hrel => ?_,
          fun rel => ?_, fun rel hrel => ?_⟩, hwrite⟩⟩
      · exact keeps_trans _ _ _ (keepsLoop rel hrel) (keeps_upsertDocs (spare rel hrel) after)
      · rw [done.removed, ← hensured.files]
        rw [← hensured.files] at hcollects
        exact stored_of_upsert (hensured.keyed keyed) (hensured.index rfl) hcollects
          (selection.nodup.sublist hsublist) allowed made hrel
      · rw [done.hashes, hensured.files]
      · have := done.others rel hrel
        rwa [hensured.files] at this

end Outcomes

/-- Nothing that the run asks for fails. -/
structure Undisturbed (repo : Repository) (call : IngestCall) (kb : KnowledgeBase) : Prop where
  ensures : ensureGoes call.answers kb.index = true
  files : ∀ selected, resolveSourcePaths repo kb.files call.relativePaths = .ok selected →
    ∀ rel ∈ selected, ∀ bytes, kb.files rel = some bytes →
      isUnchanged repo call (knownHashes repo call kb) rel bytes = true ∨
        fileGoes repo call rel bytes = true
  embeds : ∀ children, Collects repo kb.files (clearedBy repo call kb) children →
    ∃ documents, embedChunks call.answers children = .ok documents
  writes : ∀ number, (call.answers.bulk number).isDone = true
  refreshes : call.answers.refresh = none
  saves : call.skipUnchanged = true → call.answers.saveManifest = none

section Progress

variable {repo : Repository} {call : IngestCall} {kb : KnowledgeBase} {known : Dict String}
  {rel : String}

theorem isDone_iff {Part : Type} {reply : Reply Part} : reply.isDone = true ↔ reply = .done := by
  cases reply <;> simp [Reply.isDone]

theorem reindexFile_goes {digest : String} {bytes : ByteArray} (allowed : rel ∈ allowedRelativePaths)
    (goes : fileGoes repo call rel bytes = true) (progress : IngestProgress) :
    ∃ after, reindexFile repo call.answers rel digest bytes progress kb =
      (.ok after, removeDocs (fun doc => doc.sourcePath = rel) kb) ∧
      after.processed + after.skipped = progress.processed + progress.skipped + 1 := by
  unfold fileGoes at goes
  obtain ⟨⟨hdelete, hread⟩, hchunks⟩ :
      (call.answers.deleteByQuery rel = .done ∧ call.answers.readText rel = none) ∧
        (childrenOf repo rel bytes).isOk = true := by
    simpa [isDone_iff] using goes
  cases hmade : childrenOf repo rel bytes with
  | error raised => simp [hmade, Except.isOk, Except.toBool] at hchunks
  | ok chunks =>
    refine ⟨⟨progress.skipped, progress.deleted + (docsOf rel kb).length,
      progress.children ++ chunks, progress.processed + 1,
      progress.updatedHashes.set rel digest⟩, ?_, by dsimp only; omega⟩
    have hdeleted : deleteBySourcePath call.answers rel kb =
        (.ok (docsOf rel kb).length, removeDocs (fun doc => doc.sourcePath = rel) kb) := by
      unfold deleteBySourcePath
      rw [(strip_allowed allowed).1, if_neg (strip_allowed allowed).2, hdelete]
      rfl
    unfold reindexFile
    rw [bind_of_ok hdeleted, hread, hmade]
    rfl

theorem ingestFiles_goes {paths : List String}
    (allowed : ∀ path ∈ paths, path ∈ allowedRelativePaths)
    (found : ∀ path ∈ paths, ∃ bytes, kb.files path = some bytes ∧
      (isUnchanged repo call known path bytes = true ∨ fileGoes repo call path bytes = true))
    (progress : IngestProgress) :
    ∃ after kb', ingestFiles repo call known paths progress kb = (.ok after, kb') ∧
      after.processed + after.skipped =
        progress.processed + progress.skipped + paths.length := by
  induction paths generalizing kb progress with
  | nil => exact ⟨progress, kb, rfl, rfl⟩
  | cons path rest ih =>
    obtain ⟨hpath, hrest⟩ := List.forall_mem_cons.mp allowed
    obtain ⟨⟨bytes, hfile, hgoes⟩, hlater⟩ := List.forall_mem_cons.mp found
    have hone := @ingestFile_eq repo call known kb path bytes hpath hfile progress
    unfold ingestFiles
    cases hsame : isUnchanged repo call known path bytes with
    | true =>
      rw [hsame, if_pos rfl] at hone
      rw [bind_of_ok hone]
      obtain ⟨after, kb', hloop, hcount⟩ := ih hrest hlater
        { progress with skipped := progress.skipped + 1 }
      refine ⟨after, kb', hloop, ?_⟩
      rw [hcount, List.length_cons]
      dsimp only
      omega
    | false =>
      rw [hsame] at hgoes
      obtain ⟨between, hreindex, hcount⟩ := @reindexFile_goes repo call kb path
        (hexDigest repo.sha256 bytes) bytes hpath (hgoes.resolve_left Bool.false_ne_true) progress
      rw [hsame, if_neg Bool.false_ne_true, hreindex] at hone
      rw [bind_of_ok hone]
      obtain ⟨after, kb', hloop, hlast⟩ := @ih (removeDocs (fun doc => doc.sourcePath = path) kb)
        hrest hlater between
      refine ⟨after, kb', hloop, ?_⟩
      rw [hlast, hcount, List.length_cons]
      omega

theorem not_space_of_strip {s : String} {c : Char} (mem : c ∈ s.toList)
    (visible : isSpace c = false) : strip s ≠ "" := by
  intro hempty
  have hnil : (s.toList.dropWhile isSpace).rdropWhile isSpace = [] := by
    have := congrArg String.toList hempty
    rwa [strip, String.toList_ofList] at this
  have hdrop : s.toList.dropWhile isSpace = [] := by
    by_contra hne
    have hhead := List.head_dropWhile_not isSpace hne
    have hall := List.rdropWhile_eq_nil_iff.mp hnil _ (List.head_mem hne)
    rw [hall] at hhead
    cases hhead
  have := List.dropWhile_eq_nil_iff.mp hdrop c mem
  rw [visible] at this
  cases this

theorem bulkBatches_goes {batches : List (List Document)} {number : Nat}
    (writes : ∀ number, (call.answers.bulk number).isDone = true)
    (named : ∀ batch ∈ batches, ∀ doc ∈ batch, strip doc.chunkId ≠ "") :
    ∃ kb', bulkBatches call.answers number batches kb = (.ok (), kb') := by
  induction batches generalizing number kb with
  | nil => exact ⟨kb, rfl⟩
  | cons batch rest ih =>
    obtain ⟨hbatch, hrest⟩ := List.forall_mem_cons.mp named
    have hcheck : checkChunkIds batch = .ok () := by
      simpa [checkChunkIds] using hbatch
    obtain ⟨kb', hlater⟩ := @ih (upsertDocs batch kb) (number + 1) hrest
    refine ⟨kb', ?_⟩
    unfold bulkBatches
    rw [hcheck, isDone_iff.mp (writes number)]
    exact hlater

theorem bulkUpsert_goes {documents : List Document}
    (writes : ∀ number, (call.answers.bulk number).isDone = true)
    (refreshes : call.answers.refresh = none)
    (named : ∀ doc ∈ documents, strip doc.chunkId ≠ "") :
    ∃ written kb', bulkUpsert call.answers documents kb = (.ok written, kb') := by
  unfold bulkUpsert
  split
  · exact ⟨0, kb, rfl⟩
  · obtain ⟨kb', hbatches⟩ := @bulkBatches_goes call kb
      (batchesFrom bulkBatchSize [] documents) 0 writes fun batch hbatch doc hdoc => by
        have hmem := List.mem_flatten.mpr ⟨batch, hbatch, hdoc⟩
        rw [batchesFrom_flatten] at hmem
        exact named doc hmem
    rw [bind_of_ok hbatches, refreshes]
    exact ⟨documents.length, kb', rfl⟩

theorem named_of_collects {files : String → Option ByteArray} {cleared : List String}
    {children : List Chunk} {documents : List Document}
    (collects : Collects repo files cleared children)
    (made : documents.map Document.bare = children.map bareDocument) :
    ∀ doc ∈ documents, strip doc.chunkId ≠ "" := by
  intro doc hdoc
  have hbare : doc.bare ∈ children.map bareDocument := made ▸ List.mem_map_of_mem hdoc
  obtain ⟨chunk, hchunk, hsame⟩ := List.mem_map.mp hbare
  obtain ⟨_, _, _, hid⟩ := collects_path collects chunk hchunk
  have hchunkId : chunk.chunkId = doc.chunkId := congrArg Document.chunkId hsame
  have visible : isSpace '#' = false := by decide
  refine not_space_of_strip ?_ visible
  rw [← hchunkId, hid]
  simp [chunkIdOf]

/-- A run over files that are all there returns when nothing it asks for fails. -/
theorem undisturbed_completes {selected : List String}
    (resolved : resolveSourcePaths repo kb.files call.relativePaths = .ok selected)
    (h : Undisturbed repo call kb) :
    ∃ result kb', ingestKnowledgeCorpus repo call kb = (.ok result, kb') := by
  obtain ⟨selection, hne⟩ := selection_of_resolve resolved
  have hensured := ensured call.answers kb
  have hended := hensured.goes.mpr h.ensures
  rcases hensure : ensureHybridIndex call.answers kb with ⟨ended, middle⟩
  rw [hensure] at hensured hended
  dsimp only at hended
  subst hended
  have hcleared := clearedBy_eq resolved h.ensures
  have found : ∀ rel ∈ selected, ∃ bytes, middle.files rel = some bytes ∧
      (isUnchanged repo call (knownHashes repo call kb) rel bytes = true ∨
        fileGoes repo call rel bytes = true) := by
    intro rel hrel
    obtain ⟨bytes, hbytes⟩ := selection.found rel hrel
    rw [hensured.files]
    exact ⟨bytes, hbytes, h.files selected resolved rel hrel bytes hbytes⟩
  obtain ⟨progress, after, hloop, hcount⟩ := ingestFiles_goes selection.allowed found
    ⟨0, 0, [], 0, knownHashes repo call kb⟩
  have done := ingestFiles_done selection.allowed hloop
  rw [hensured.files, ← hcleared] at done
  obtain ⟨children, hcollects, hchildren⟩ := done.collected
  rw [hensured.files] at hcollects
  rw [List.nil_append] at hchildren
  obtain ⟨documents, hembed⟩ := h.embeds children hcollects
  have named := named_of_collects hcollects (embedChunks_ok hembed)
  obtain ⟨written, last, hbulk⟩ := @bulkUpsert_goes call after documents h.writes h.refreshes named
  have counted : ¬(progress.processed = 0 ∧ progress.skipped = 0) := by
    have := List.length_pos_iff.mpr hne
    dsimp only at hcount
    omega
  rw [ingest_of_ensured resolved hensure hensured.manifests, bind_of_ok hloop]
  unfold writeCollected
  rw [if_neg counted, hchildren, hembed]
  simp only [fromExcept, pure_bind]
  rw [bind_of_ok hbulk]
  unfold saveIfSkipping saveManifest
  split
  next hskip =>
    rw [h.saves hskip]
    exact ⟨_, _, rfl⟩
  · exact ⟨_, _, rfl⟩

end Progress

end Aegis
