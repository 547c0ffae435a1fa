import Aegis.ManifestTrust

namespace Aegis

open Raising Proc StepPath

/-- The index holds one document for each id, and what it holds meets the condition. -/
def Stocked (holds : String × Document → Prop) (kb : KnowledgeBase) : Prop :=
  ∀ index, kb.index = some index →
    (index.docs.map Prod.fst).Nodup ∧ ∀ entry ∈ index.docs, holds entry

/-- The files stay, and the index keeps what it holds to the condition. -/
structure Stocks (holds : String × Document → Prop) (kb kb' : KnowledgeBase) : Prop where
  files : kb'.files = kb.files
  stocked : Stocked holds kb → Stocked holds kb'

/-- A document under its own id, made of a retrieval chunk of such a content of its file. -/
structure MadeFrom (repo : Repository) (contents : String → Set ByteArray)
    (entry : String × Document) : Prop where
  id : entry.1 = entry.2.chunkId
  allowed : entry.2.sourcePath ∈ allowedRelativePaths
  chunk : ∃ bytes ∈ contents entry.2.sourcePath, ∃ chunks,
    childrenOf repo entry.2.sourcePath bytes = .ok chunks ∧
      ∃ chunk ∈ chunks, entry.2.bare = bareDocument chunk

section Store

variable {holds : String × Document → Prop} {kb : KnowledgeBase} {answers : Answers}

theorem stocks_refl (kb : KnowledgeBase) : Stocks holds kb kb := ⟨rfl, id⟩

theorem stocks_trans (s t u : KnowledgeBase) (first : Stocks holds s t)
    (second : Stocks holds t u) : Stocks holds s u :=
  ⟨second.files.trans first.files, fun h => second.stocked (first.stocked h)⟩

theorem stocked_none (missing : kb.index = none) : Stocked holds kb := by
  intro index hindex
  rw [missing] at hindex
  cases hindex

theorem stocks_dropIndex (kb : KnowledgeBase) : Stocks holds kb (dropIndex kb) :=
  ⟨rfl, fun _ => stocked_none rfl⟩

theorem stocks_createIndex (kb : KnowledgeBase) : Stocks holds kb (createIndex kb) := by
  refine ⟨rfl, fun _ index hindex => ?_⟩
  obtain rfl := Option.some.inj hindex
  exact ⟨List.nodup_nil, fun entry h => absurd h List.not_mem_nil⟩

theorem stocks_mapDocs {change : Dict Document → Dict Document}
    (keeps : ∀ docs : Dict Document, (docs.map Prod.fst).Nodup → (∀ entry ∈ docs, holds entry) →
      ((change docs).map Prod.fst).Nodup ∧ ∀ entry ∈ change docs, holds entry)
    (kb : KnowledgeBase) : Stocks holds kb (kb.mapDocs change) := by
  refine ⟨rfl, fun stocked index hindex => ?_⟩
  obtain ⟨before, hbefore, rfl⟩ := Option.map_eq_some_iff.mp hindex
  obtain ⟨hnodup, hall⟩ := stocked before hbefore
  exact keeps before.docs hnodup hall

theorem stocks_removeDocs (selects : Document → Bool) (kb : KnowledgeBase) :
    Stocks holds kb (removeDocs selects kb) :=
  stocks_mapDocs (fun _ hnodup hall => ⟨hnodup.sublist (List.filter_sublist.map _),
    fun entry hentry => hall entry (List.mem_of_mem_filter hentry)⟩) kb

theorem stocks_upsertDocs {documents : List Document}
    (fresh : ∀ doc ∈ documents, holds (doc.chunkId, doc)) (kb : KnowledgeBase) :
    Stocks holds kb (upsertDocs documents kb) := by
  refine stocks_mapDocs ?_ kb
  induction documents with
  | nil => exact fun docs hnodup hall => ⟨hnodup, hall⟩
  | cons doc rest ih =>
    obtain ⟨hdoc, hrest⟩ := List.forall_mem_cons.mp fresh
    intro docs hnodup hall
    refine ih hrest (docs.set doc.chunkId doc) (Dict.keys_set_nodup hnodup) fun entry hentry => ?_
    rcases mem_set_of hentry with rfl | hold
    · exact hdoc
    · exact hall entry hold

theorem stocks_settle {Part : Type} {reply : Reply Part} {whole : KnowledgeBase → KnowledgeBase}
    {partly : Part → KnowledgeBase → KnowledgeBase} (done : ∀ kb, Stocks holds kb (whole kb))
    (part : ∀ p kb, Stocks holds kb (partly p kb)) :
    Leaves (Stocks holds) (settle reply whole partly) := by
  intro kb
  cases reply with
  | done => exact done kb
  | failed raised p => exact part p kb

theorem stocks_partly {change : KnowledgeBase → KnowledgeBase}
    (done : ∀ kb, Stocks holds kb (change kb)) (happened : Bool) (kb : KnowledgeBase) :
    Stocks holds kb (partly change happened kb) := by
  cases happened with
  | true => exact done kb
  | false => exact stocks_refl kb

theorem stocks_answered (reply : Option Raised) : Leaves (Stocks holds) (answered reply) := by
  cases reply with
  | none => exact leaves_pure stocks_refl ()
  | some raised => exact leaves_raise stocks_refl raised

theorem stocks_ensureHybridIndex : Leaves (Stocks holds) (ensureHybridIndex answers) := by
  have hput : Leaves (Stocks holds) (settle answers.putIndex createIndex (partly createIndex)) :=
    stocks_settle stocks_createIndex (stocks_partly stocks_createIndex)
  refine leaves_bind stocks_trans (stocks_answered _) fun _ =>
    leaves_bind stocks_trans (leaves_read stocks_refl _) fun existing => ?_
  cases existing with
  | none => exact hput
  | some index =>
    unfold ensureFrom
    dsimp only
    split
    · exact leaves_pure stocks_refl ()
    · exact leaves_bind stocks_trans
        (stocks_settle stocks_dropIndex (stocks_partly stocks_dropIndex)) fun _ => hput

theorem stocks_deleteBySourcePath (sourcePath : String) :
    Leaves (Stocks holds) (deleteBySourcePath answers sourcePath) := by
  unfold deleteBySourcePath
  dsimp only
  split
  · exact leaves_raise stocks_refl _
  · exact leaves_bind stocks_trans (leaves_read stocks_refl _) fun _ =>
      leaves_bind stocks_trans (stocks_settle (stocks_removeDocs _) fun _ => stocks_removeDocs _)
        fun _ => leaves_pure stocks_refl _

theorem stocks_bulkBatches {number : Nat} {batches : List (List Document)}
    (fresh : ∀ batch ∈ batches, ∀ doc ∈ batch, holds (doc.chunkId, doc)) :
    Leaves (Stocks holds) (bulkBatches answers number batches) := by
  induction batches generalizing number with
  | nil => exact leaves_pure stocks_refl ()
  | cons batch rest ih =>
    obtain ⟨hbatch, hrest⟩ := List.forall_mem_cons.mp fresh
    refine leaves_bind stocks_trans (leaves_fromExcept stocks_refl _) fun _ =>
      leaves_bind stocks_trans (stocks_settle (stocks_upsertDocs hbatch) fun part => ?_)
        fun _ => ih hrest
    exact stocks_upsertDocs fun doc hdoc => hbatch doc (List.mem_of_mem_filter hdoc)

theorem stocks_bulkUpsert {documents : List Document}
    (fresh : ∀ doc ∈ documents, holds (doc.chunkId, doc)) :
    Leaves (Stocks holds) (bulkUpsert answers documents) := by
  unfold bulkUpsert
  split
  · exact leaves_pure stocks_refl _
  · refine leaves_bind stocks_trans (stocks_bulkBatches fun batch hbatch doc hdoc => ?_) fun _ =>
      leaves_bind stocks_trans (stocks_answered _) fun _ => leaves_pure stocks_refl _
    have hmem := List.mem_flatten.mpr ⟨batch, hbatch, hdoc⟩
    rw [batchesFrom_flatten] at hmem
    exact fresh doc hmem

end Store

section Runs

variable {repo : Repository} {call : IngestCall} {holds : String × Document → Prop}
  {contents : String → Set ByteArray} {kb kb' : KnowledgeBase}

theorem stocks_ingestFiles (known : Dict String) (paths : List String)
    (progress : IngestProgress) :
    Leaves (Stocks holds) (ingestFiles repo call known paths progress) := by
  induction paths generalizing progress with
  | nil => exact leaves_pure stocks_refl _
  | cons path rest ih =>
    refine leaves_bind stocks_trans ?_ fun after => ih after
    refine leaves_bind stocks_trans (leaves_fromExcept stocks_refl _) fun rel =>
      leaves_bind stocks_trans ?_ fun bytes => ?_
    · intro kb
      unfold readBytes
      split <;> exact stocks_refl kb
    · dsimp only
      split
      · exact leaves_pure stocks_refl _
      · exact leaves_bind stocks_trans (stocks_deleteBySourcePath rel) fun _ =>
          leaves_bind stocks_trans (stocks_answered _) fun _ =>
          leaves_bind stocks_trans (leaves_fromExcept stocks_refl _) fun _ =>
          leaves_pure stocks_refl _

theorem collects_source {files : String → Option ByteArray} {paths : List String}
    {children : List Chunk} (h : Collects repo files paths children) :
    ∀ chunk ∈ children, chunk.sourcePath ∈ paths ∧ ∃ bytes chunks,
      files chunk.sourcePath = some bytes ∧ childrenOf repo chunk.sourcePath bytes = .ok chunks ∧
        chunk ∈ chunks := by
  induction h with
  | none => exact fun chunk hchunk => absurd hchunk List.not_mem_nil
  | file hfile hchunks _ ih =>
    intro chunk hchunk
    rcases List.mem_append.mp hchunk with hown | hother
    · obtain ⟨_, hpath, _⟩ := (childrenOf_spec hchunks).1 chunk hown
      subst hpath
      exact ⟨List.mem_cons_self, _, _, hfile, hchunks, hown⟩
    · obtain ⟨hmem, hsource⟩ := ih chunk hother
      exact ⟨List.mem_cons_of_mem _ hmem, hsource⟩

/-- What a run collects and embeds is made from the files it reads. -/
theorem madeFrom_collected {paths : List String} {children : List Chunk}
    {documents : List Document} (collects : Collects repo kb.files paths children)
    (allowed : ∀ path ∈ paths, path ∈ allowedRelativePaths)
    (made : documents.map Document.bare = children.map bareDocument)
    (within : ∀ rel bytes, kb.files rel = some bytes → bytes ∈ contents rel) :
    ∀ doc ∈ documents, MadeFrom repo contents (doc.chunkId, doc) := by
  intro doc hdoc
  have hbare : doc.bare ∈ children.map bareDocument := made ▸ List.mem_map_of_mem hdoc
  obtain ⟨chunk, hchunk, hsame⟩ := List.mem_map.mp hbare
  obtain ⟨hpath, bytes, chunks, hfile, hchunks, hmem⟩ := collects_source collects chunk hchunk
  have hsource : chunk.sourcePath = doc.sourcePath := congrArg Document.sourcePath hsame
  rw [hsource] at hpath hfile hchunks
  exact ⟨rfl, allowed _ hpath, bytes, within _ _ hfile, chunks, hchunks, chunk, hmem, hsame.symm⟩

theorem stocks_ingest (within : ∀ rel bytes, kb.files rel = some bytes → bytes ∈ contents rel) :
    Stocks (MadeFrom repo contents) kb (ingestKnowledgeCorpus repo call kb).2 := by
  cases hresolve : resolveSourcePaths repo kb.files call.relativePaths with
  | error raised =>
    rw [ingest_start, hresolve]
    exact stocks_refl kb
  | ok selected =>
    obtain ⟨selection, -⟩ := selection_of_resolve hresolve
    have hensured := ensured call.answers kb
    rcases hensure : ensureHybridIndex call.answers kb with ⟨raised | ⟨⟩, middle⟩
    · rw [ingest_start, hresolve]
      simp only [fromExcept, pure_bind]
      rw [bind_of_error hensure]
      exact leaves_eq stocks_ensureHybridIndex hensure
    rw [hensure] at hensured
    rw [ingest_of_ensured hresolve hensure hensured.manifests]
    have hfirst : Stocks (MadeFrom repo contents) kb middle :=
      leaves_eq stocks_ensureHybridIndex hensure
    rcases hloop : ingestFiles repo call (knownHashes repo call kb) selected
      ⟨0, 0, [], 0, knownHashes repo call kb⟩ middle with ⟨raised | progress, after⟩
    · rw [bind_of_error hloop]
      exact stocks_trans _ _ _ hfirst (leaves_eq (stocks_ingestFiles _ _ _) hloop)
    have hlooped : Stocks (MadeFrom repo contents) kb after :=
      stocks_trans _ _ _ hfirst (leaves_eq (stocks_ingestFiles _ _ _) hloop)
    have done := ingestFiles_done selection.allowed hloop
    rw [hensured.files] at done
    rw [bind_of_ok hloop]
    obtain ⟨children, hcollects, hchildren⟩ := done.collected
    rw [hensured.files] at hcollects
    rw [List.nil_append] at hchildren
    have hpaths : ∀ path ∈ clearedFrom repo call (knownHashes repo call kb) kb.files selected,
        path ∈ allowedRelativePaths :=
      fun path hpath => selection.allowed path ((clearedFrom_sublist _ _ _).subset hpath)
    rcases @writeCollected_cases repo call progress after with
      ⟨raised, hwrite⟩ | ⟨documents, hembed, hwrite⟩
    · rw [hwrite]
      exact hlooped
    have hmade := embedChunks_ok hembed
    rw [hchildren] at hmade
    have hfresh := madeFrom_collected hcollects hpaths hmade within
    rcases hwrite with ⟨raised, hwrite⟩ | ⟨result, hwrite⟩
    · rw [hwrite]
      exact stocks_trans _ _ _ hlooped (stocks_bulkUpsert hfresh after)
    · rw [hwrite]
      have hsaved : Stocks (MadeFrom repo contents) (upsertDocs documents after)
          (savedManifest repo call progress.updatedHashes (upsertDocs documents after)) := by
        unfold savedManifest
        split
        · exact ⟨rfl, fun stocked => stocked⟩
        · exact stocks_refl _
      exact stocks_trans _ _ _ hlooped
        (stocks_trans _ _ _ (stocks_upsertDocs hfresh after) hsaved)

theorem stocked_step {action : CorpusAction} (stocked : Stocked (MadeFrom repo contents) kb)
    (within : ∀ rel bytes, kb.files rel = some bytes → bytes ∈ contents rel)
    (step : CorpusStep repo kb action kb') : Stocked (MadeFrom repo contents) kb' := by
  cases action with
  | edit rel content =>
    cases step
    exact stocked
  | outdate properties =>
    obtain ⟨_, rfl⟩ := step
    intro index hindex
    obtain ⟨old, hold, rfl⟩ := Option.map_eq_some_iff.mp hindex
    exact stocked old hold
  | ingest call =>
    cases step
    exact (stocks_ingest within).stocked stocked

/-- The contents that a file takes in some states. -/
def contentsIn (states : List KnowledgeBase) (rel : String) : Set ByteArray :=
  {bytes | ∃ kb ∈ states, kb.files rel = some bytes}

/-- However runs, edits and index changes follow on each other, what the index holds was made from
contents that the allowlisted files have had. -/
theorem stocked_run {path : List (CorpusAction × KnowledgeBase)} (unused : Unused kb)
    (run : Path (CorpusStep repo) kb path) :
    Stocked (MadeFrom repo (contentsIn (visited kb path))) (final kb path) := by
  have hwithin : ∀ state ∈ visited kb path, ∀ rel bytes, state.files rel = some bytes →
      bytes ∈ contentsIn (visited kb path) rel :=
    fun state hstate rel bytes hbytes => ⟨state, hstate, hbytes⟩
  exact invariant_of_meets (fun _ _ _ stocked within step => stocked_step stocked within step) run
    (stocked_none unused.index) (meets_of_visited hwithin) _ final_mem_visited

end Runs

end Aegis
