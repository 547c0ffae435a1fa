import Aegis.IngestOutcome

namespace Aegis

open Raising Proc StepPath

/-- What happens to the knowledge base: a file is edited or removed, the index turns out to have
the mapping of an older release, or an ingest run. -/
inductive CorpusAction where
  | edit (rel : String) (content : Option ByteArray)
  | outdate (properties : Fields)
  | ingest (call : IngestCall)

def CorpusStep (repo : Repository) (kb : KnowledgeBase) : CorpusAction → KnowledgeBase → Prop
  | .edit rel content, kb' => kb' = { kb with files := Function.update kb.files rel content }
  | .outdate properties, kb' => isHybridMapping properties = false ∧
      kb' = { kb with index := kb.index.map fun index => { index with properties } }
  | .ingest call, kb' => kb' = (ingestKnowledgeCorpus repo call kb).2

/-- Nothing has been ingested yet. -/
structure Unused (kb : KnowledgeBase) : Prop where
  index : kb.index = none
  manifests : ∀ path, kb.manifests path = none

/-- The documents of a file in the index are those of its current retrieval chunks. -/
def Consistent (repo : Repository) (rel : String) (kb : KnowledgeBase) : Prop :=
  ∃ bytes chunks, kb.files rel = some bytes ∧ childrenOf repo rel bytes = .ok chunks ∧
    ((docsOf rel kb).map Document.bare).Perm (chunks.map bareDocument)

/-- After each run that skips unchanged files and returns, the selected files are consistent. -/
def RunsConsistent (repo : Repository) (kb : KnowledgeBase)
    (path : List (CorpusAction × KnowledgeBase)) : Prop :=
  ∀ before call after rest, path = before ++ (.ingest call, after) :: rest →
    call.skipUnchanged = true →
    ∀ result, (ingestKnowledgeCorpus repo call (final kb before)).1 = .ok result →
    ∀ selected, resolveSourcePaths repo (final kb before).files call.relativePaths =
      .ok selected → ∀ rel ∈ selected, Consistent repo rel after

/-- The digest a manifest file lists for a file. -/
def listedIn (kb : KnowledgeBase) (manifest rel : String) : Option String :=
  (loadManifest (kb.manifests manifest)).lookup rel

/-- A run takes documents of a listed file out of the index only when nothing it asks for fails,
it indexes the file anew, and it rewrites that manifest or the file has the listed digest. -/
def KeepsManifests (repo : Repository) (kb : KnowledgeBase) : CorpusAction → Prop
  | .ingest call => ∀ manifest rel digest, listedIn kb manifest rel = some digest →
      Touches repo call kb rel → Undisturbed repo call kb ∧ rel ∈ clearedBy repo call kb ∧
        ((call.skipUnchanged = true ∧ manifest = manifestPathOf repo call) ∨
          ∃ bytes, kb.files rel = some bytes ∧ digest = hexDigest repo.sha256 bytes)
  | _ => True

/-- The digests tell the contents that the files take apart. -/
def DigestsDiffer (repo : Repository) (states : List KnowledgeBase) : Prop :=
  Set.InjOn repo.sha256 {bytes | ∃ kb ∈ states, ∃ rel, kb.files rel = some bytes}

/-- What a manifest lists is the digest of a content of the file that the index still holds. -/
structure Truthful (repo : Repository) (contents : Set ByteArray) (kb : KnowledgeBase) :
    Prop where
  keyed : Keyed kb
  listed : ∀ manifest rel digest, listedIn kb manifest rel = some digest →
    ∃ bytes ∈ contents, hexDigest repo.sha256 bytes = digest ∧ StoredAs repo rel bytes kb

section Steps

variable {repo : Repository} {contents : Set ByteArray} {call : IngestCall}
  {kb kb' : KnowledgeBase} {rel : String}

theorem storedAs_congr {bytes : ByteArray} (h : StoredAs repo rel bytes kb)
    (same : docsOf rel kb' = docsOf rel kb) : StoredAs repo rel bytes kb' := by
  obtain ⟨chunks, hchunks, hdocs⟩ := h
  exact ⟨chunks, hchunks, by rw [same, hdocs]⟩

theorem loadManifest_manifestOf (hashes : Dict String) :
    loadManifest (some (manifestOf hashes)) = hashes := by
  change (hashes.map fun entry => (entry.1, Value.str entry.2)).map
    (fun entry => (entry.1, entry.2.pyStr)) = hashes
  rw [List.map_map]
  exact List.map_id hashes

theorem docsOf_savedManifest (hashes : Dict String) :
    docsOf rel (savedManifest repo call hashes kb) = docsOf rel kb := by
  unfold savedManifest
  split <;> rfl

theorem listedIn_savedManifest (hashes : Dict String) (manifest : String) :
    listedIn (savedManifest repo call hashes kb) manifest rel =
      if call.skipUnchanged = true ∧ manifest = manifestPathOf repo call then hashes.lookup rel
      else listedIn kb manifest rel := by
  unfold savedManifest listedIn
  cases call.skipUnchanged with
  | false => simp
  | true =>
    by_cases h : manifest = manifestPathOf repo call
    · simp [h, loadManifest_manifestOf]
    · simp [h]

theorem resolved_of_cleared (h : rel ∈ clearedBy repo call kb) :
    ∃ selected, resolveSourcePaths repo kb.files call.relativePaths = .ok selected := by
  unfold clearedBy at h
  split at h
  · cases h
  next selected hresolve => exact ⟨selected, hresolve⟩

/-- A run that keeps the manifests leaves them truthful, however it ends. -/
theorem truthful_ingest (truthful : Truthful repo contents kb)
    (safe : KeepsManifests repo kb (.ingest call))
    (within : ∀ rel bytes, kb.files rel = some bytes → bytes ∈ contents) :
    Truthful repo contents (ingestKnowledgeCorpus repo call kb).2 := by
  obtain ⟨last, frame, ended⟩ := ingest_outcome repo call kb
  have spared : ∀ manifest rel digest, listedIn kb manifest rel = some digest →
      ¬Touches repo call kb rel →
      ∃ bytes ∈ contents, hexDigest repo.sha256 bytes = digest ∧ StoredAs repo rel bytes last := by
    intro manifest rel digest hlisted huntouched
    obtain ⟨bytes, hmem, hdigest, hstored⟩ := truthful.listed manifest rel digest hlisted
    exact ⟨bytes, hmem, hdigest,
      storedAs_congr hstored (frame.docs truthful.keyed rel huntouched)⟩
  rcases ended with ⟨raised, hrun⟩ | ⟨selected, hashes, result, done, hrun⟩
  · rw [hrun]
    refine ⟨frame.keyed truthful.keyed, fun manifest rel digest hlisted => ?_⟩
    unfold listedIn at hlisted
    rw [frame.manifests] at hlisted
    refine spared manifest rel digest hlisted fun htouched => ?_
    obtain ⟨hundisturbed, hcleared, _⟩ := safe manifest rel digest hlisted htouched
    obtain ⟨selected, hresolve⟩ := resolved_of_cleared hcleared
    obtain ⟨result, other, hok⟩ := undisturbed_completes hresolve hundisturbed
    rw [hrun] at hok
    cases hok
  · rw [hrun]
    have rebuilt : ∀ rel ∈ clearedBy repo call kb, ∃ bytes ∈ contents,
        kb.files rel = some bytes ∧ StoredAs repo rel bytes last := by
      intro rel hcleared
      obtain ⟨bytes, hfile, hstored⟩ := done.stored truthful.keyed rel hcleared
      exact ⟨bytes, within rel bytes hfile, hfile, hstored⟩
    have kept : ∀ manifest rel digest, listedIn kb manifest rel = some digest →
        rel ∉ clearedBy repo call kb → ∃ bytes ∈ contents,
          hexDigest repo.sha256 bytes = digest ∧ StoredAs repo rel bytes last := by
      intro manifest rel digest hlisted hcleared
      exact spared manifest rel digest hlisted fun htouched =>
        hcleared (safe manifest rel digest hlisted htouched).2.1
    have onLast : ∀ manifest rel digest,
        listedIn (savedManifest repo call hashes last) manifest rel = some digest →
        ∃ bytes ∈ contents, hexDigest repo.sha256 bytes = digest ∧
          StoredAs repo rel bytes last := by
      intro manifest rel digest hlisted
      rw [listedIn_savedManifest, show listedIn last manifest rel = listedIn kb manifest rel by
        unfold listedIn; rw [frame.manifests]] at hlisted
      by_cases hcleared : rel ∈ clearedBy repo call kb
      · obtain ⟨bytes, hmem, hfile, hstored⟩ := rebuilt rel hcleared
        refine ⟨bytes, hmem, ?_, hstored⟩
        split at hlisted
        · rw [done.hashes, if_pos hcleared, hfile] at hlisted
          exact Option.some.inj hlisted
        next hown =>
          obtain ⟨_, _, hwhich⟩ := safe manifest rel digest hlisted (.inr hcleared)
          obtain ⟨other, hother, hdigest⟩ := hwhich.resolve_left hown
          rw [hfile] at hother
          rw [hdigest, Option.some.inj hother]
      · split at hlisted
        next hown =>
          rw [done.hashes, if_neg hcleared, knownHashes, if_pos hown.1] at hlisted
          exact kept (manifestPathOf repo call) rel digest hlisted hcleared
        · exact kept manifest rel digest hlisted hcleared
    refine ⟨?_, fun manifest rel digest hlisted => ?_⟩
    · have := frame.keyed truthful.keyed
      unfold savedManifest
      split <;> exact this
    · obtain ⟨bytes, hmem, hdigest, hstored⟩ := onLast manifest rel digest hlisted
      exact ⟨bytes, hmem, hdigest, storedAs_congr hstored (docsOf_savedManifest hashes)⟩

theorem truthful_step {action : CorpusAction} (truthful : Truthful repo contents kb)
    (safe : KeepsManifests repo kb action ∧
      ∀ rel bytes, kb.files rel = some bytes → bytes ∈ contents)
    (step : CorpusStep repo kb action kb') : Truthful repo contents kb' := by
  cases action with
  | edit rel content =>
    cases step
    exact ⟨truthful.keyed, truthful.listed⟩
  | outdate properties =>
    obtain ⟨_, rfl⟩ := step
    have same : ∀ rel, docsOf rel
        { kb with index := kb.index.map fun index => { index with properties } } =
        docsOf rel kb := by
      intro rel
      unfold docsOf
      cases kb.index <;> rfl
    refine ⟨?_, fun manifest rel digest hlisted => ?_⟩
    · intro index hindex
      obtain ⟨old, hold, rfl⟩ := Option.map_eq_some_iff.mp hindex
      exact truthful.keyed old hold
    · obtain ⟨bytes, hmem, hdigest, hstored⟩ := truthful.listed manifest rel digest hlisted
      exact ⟨bytes, hmem, hdigest, storedAs_congr hstored (same rel)⟩
  | ingest call =>
    cases step
    exact truthful_ingest truthful safe.1 safe.2

theorem truthful_unused (unused : Unused kb) : Truthful repo contents kb := by
  refine ⟨keyed_none unused.index, fun manifest rel digest hlisted => ?_⟩
  simp [listedIn, unused.manifests, loadManifest] at hlisted

theorem sha256_of_hexDigest {a b : ByteArray}
    (h : hexDigest repo.sha256 a = hexDigest repo.sha256 b) : repo.sha256 a = repo.sha256 b := by
  have bound : ∀ digest : BitVec 256, digest.toNat < 16 ^ 64 := fun digest => digest.isLt
  exact BitVec.eq_of_toNat_eq
    (hexChars_inj (bound _) (bound _) (String.ofList_injective h))

theorem consistent_ingest {result : IngestResult} {selected : List String}
    (truthful : Truthful repo contents kb) (safe : KeepsManifests repo kb (.ingest call))
    (within : ∀ rel bytes, kb.files rel = some bytes → bytes ∈ contents)
    (distinct : Set.InjOn repo.sha256 contents)
    (returned : (ingestKnowledgeCorpus repo call kb).1 = .ok result)
    (resolved : resolveSourcePaths repo kb.files call.relativePaths = .ok selected)
    (mem : rel ∈ selected) : Consistent repo rel (ingestKnowledgeCorpus repo call kb).2 := by
  obtain ⟨last, frame, ended⟩ := ingest_outcome repo call kb
  rcases ended with ⟨raised, hrun⟩ | ⟨selected', hashes, other, done, hrun⟩
  · rw [hrun] at returned
    cases returned
  rw [hrun]
  have hselected : selected' = selected := Except.ok.inj (done.resolved.symm.trans resolved)
  subst hselected
  have stored : ∃ bytes, kb.files rel = some bytes ∧ StoredAs repo rel bytes last := by
    rcases done.others rel mem with hcleared | ⟨bytes, hfile, hunchanged⟩
    · exact done.stored truthful.keyed rel hcleared
    · obtain ⟨hskip, hknown⟩ := Bool.and_eq_true_iff.mp hunchanged
      have hlisted := of_decide_eq_true hknown
      rw [knownHashes, if_pos hskip] at hlisted
      by_cases htouched : Touches repo call kb rel
      · obtain ⟨_, hcleared, _⟩ := safe _ rel _ hlisted htouched
        exact done.stored truthful.keyed rel hcleared
      · obtain ⟨past, hmem, hdigest, hstored⟩ := truthful.listed _ rel _ hlisted
        have hsame := distinct hmem (within rel bytes hfile) (sha256_of_hexDigest hdigest)
        subst hsame
        exact ⟨past, hfile,
          storedAs_congr hstored (frame.docs truthful.keyed rel htouched)⟩
  obtain ⟨bytes, hfile, chunks, hchunks, hdocs⟩ := stored
  refine ⟨bytes, chunks, ?_, hchunks, ?_⟩
  · rw [← frame.files] at hfile
    unfold savedManifest
    split <;> exact hfile
  · rw [docsOf_savedManifest, hdocs]

end Steps

section Runs

variable {repo : Repository} {kb : KnowledgeBase} {path : List (CorpusAction × KnowledgeBase)}

/-- As long as the runs keep the manifests, the index holds the current chunks of every file that
a run skipping unchanged files has selected. -/
theorem ingest_runs_consistent (unused : Unused kb) (run : Path (CorpusStep repo) kb path)
    (digests : DigestsDiffer repo (visited kb path))
    (meets : Meets (KeepsManifests repo) kb path) : RunsConsistent repo kb path := by
  rintro before call after rest rfl hskip result hreturned selected hresolved rel hrel
  have within : ∀ u ∈ visited kb (before ++ (.ingest call, after) :: rest), ∀ rel bytes,
      u.files rel = some bytes → bytes ∈ {bytes | ∃ kb' ∈ visited kb
        (before ++ (.ingest call, after) :: rest), ∃ rel, kb'.files rel = some bytes} :=
    fun u hu rel bytes hbytes => ⟨u, hu, rel, hbytes⟩
  have truthful := invariant_of_meets (fun s a t hs hok hstep => truthful_step hs hok hstep) run
    (truthful_unused unused) (meets_and_visited meets within)
  have hmem : final kb before ∈ visited kb (before ++ (.ingest call, after) :: rest) :=
    visited_prefix final_mem_visited
  have hstep : after = (ingestKnowledgeCorpus repo call (final kb before)).2 := step_of_split run
  rw [hstep]
  exact consistent_ingest (truthful _ hmem) (meets_of_split meets) (within _ hmem) digests
    hreturned hresolved hrel

end Runs

section Example

def visionPath : String := "docs/product/product-vision.md"

def calmAnswers : Answers where
  getIndex := none
  deleteIndex := .done
  putIndex := .done
  deleteByQuery _ := .done
  readText _ := none
  embedTexts _ texts := .ok (texts.map fun _ => [])
  bulk _ := .done
  refresh := none
  saveManifest := none

def visionRepo : Repository where
  root := "/srv/aegis"
  sha256 bytes := BitVec.ofNat 256 bytes.size
  relativePosix path := path
  plain _ _ := rfl

/-- One file, with the command line's default of skipping what is unchanged. -/
def visionCall : IngestCall := ⟨some [visionPath], true, none, calmAnswers⟩

/-- The same file with `--no-skip`, while the embedder is down. -/
def failingCall : IngestCall :=
  ⟨some [visionPath], false, none,
    { calmAnswers with embedTexts := fun _ _ => .error (.other "InvokeModel failed.") }⟩

def visionText : ByteArray := "# Vision\n\nOne place.\n".toUTF8

def visionDraft : ByteArray := "# Vision\n\nOne place for all.\n".toUTF8

def visionFiles (content : ByteArray) (rel : String) : Option ByteArray :=
  if rel = visionPath then some content else none

def visionBase : KnowledgeBase := ⟨visionFiles visionText, none, fun _ => none⟩

def ingested (call : IngestCall) (kb : KnowledgeBase) : KnowledgeBase :=
  (ingestKnowledgeCorpus visionRepo call kb).2

def edited (content : ByteArray) (kb : KnowledgeBase) : KnowledgeBase :=
  { kb with files := Function.update kb.files visionPath (some content) }

theorem ingested_step (call : IngestCall) (kb : KnowledgeBase) :
    CorpusStep visionRepo kb (.ingest call) (ingested call kb) := rfl

theorem edited_step (content : ByteArray) (kb : KnowledgeBase) :
    CorpusStep visionRepo kb (.edit visionPath (some content)) (edited content kb) := rfl

theorem visionBase_unused : Unused visionBase := ⟨rfl, fun _ => rfl⟩

theorem visionFiles_update (content other : ByteArray) :
    Function.update (visionFiles content) visionPath (some other) = visionFiles other := by
  funext rel
  by_cases h : rel = visionPath <;> simp [visionFiles, h]

theorem ingested_files (call : IngestCall) (kb : KnowledgeBase) :
    (ingested call kb).files = kb.files := by
  obtain ⟨last, frame, ⟨raised, hrun⟩ | ⟨_, _, _, _, hrun⟩⟩ :=
    ingest_outcome visionRepo call kb
  · rw [ingested, hrun]
    exact frame.files
  · rw [ingested, hrun]
    unfold savedManifest
    split <;> exact frame.files

/-- Whoever holds the text of the file or its draft has digests that differ. -/
theorem vision_digestsDiffer {states : List KnowledgeBase}
    (h : ∀ kb ∈ states, kb.files = visionFiles visionText ∨ kb.files = visionFiles visionDraft) :
    DigestsDiffer visionRepo states := by
  have known : ∀ bytes, (∃ kb ∈ states, ∃ rel, kb.files rel = some bytes) →
      bytes = visionText ∨ bytes = visionDraft := by
    rintro bytes ⟨kb, hkb, rel, hbytes⟩
    rcases h kb hkb with hfiles | hfiles
    · rw [hfiles, visionFiles] at hbytes
      split at hbytes
      · exact .inl (Option.some.inj hbytes).symm
      · cases hbytes
    · rw [hfiles, visionFiles] at hbytes
      split at hbytes
      · exact .inr (Option.some.inj hbytes).symm
      · cases hbytes
  have apart : visionRepo.sha256 visionText ≠ visionRepo.sha256 visionDraft := by decide +kernel
  intro a ha b hb hsame
  rcases known a ha with rfl | rfl <;> rcases known b hb with rfl | rfl
  · rfl
  · exact absurd hsame apart
  · exact absurd hsame.symm apart
  · rfl

def indexedBase : KnowledgeBase := ingested visionCall visionBase

def draftBase : KnowledgeBase := edited visionDraft indexedBase

def revertedBase : KnowledgeBase := edited visionText draftBase

def skippedBase : KnowledgeBase := ingested visionCall revertedBase

theorem indexedBase_files : indexedBase.files = visionFiles visionText := by
  rw [indexedBase, ingested_files]
  rfl

theorem draftBase_files : draftBase.files = visionFiles visionDraft := by
  rw [draftBase, edited, indexedBase_files, visionFiles_update]

theorem revertedBase_files : revertedBase.files = visionFiles visionText := by
  rw [revertedBase, edited, draftBase_files, visionFiles_update]

theorem skippedBase_files : skippedBase.files = visionFiles visionText := by
  rw [skippedBase, ingested_files, revertedBase_files]

theorem returns_of_isOk {call : IngestCall} {kb : KnowledgeBase}
    (h : (ingestKnowledgeCorpus visionRepo call kb).1.isOk = true) :
    ∃ result, (ingestKnowledgeCorpus visionRepo call kb).1 = .ok result := by
  cases hended : (ingestKnowledgeCorpus visionRepo call kb).1 with
  | error raised =>
    rw [hended] at h
    cases h
  | ok result => exact ⟨result, rfl⟩

def revertRun : List (CorpusAction × KnowledgeBase) :=
  [(.ingest visionCall, indexedBase), (.edit visionPath (some visionDraft), draftBase),
    (.edit visionPath (some visionText), revertedBase), (.ingest visionCall, skippedBase)]

theorem reverted_file_is_consistent : Consistent visionRepo visionPath skippedBase := by
  have run : Path (CorpusStep visionRepo) visionBase revertRun :=
    .next (ingested_step visionCall visionBase) <| .next (edited_step visionDraft indexedBase) <|
      .next (edited_step visionText draftBase) <|
      .next (ingested_step visionCall revertedBase) .stop
  have digests : DigestsDiffer visionRepo (visited visionBase revertRun) := by
    refine vision_digestsDiffer fun kb hkb => ?_
    simp only [revertRun, visited_cons, visited_nil, List.mem_cons, List.not_mem_nil,
      or_false] at hkb
    rcases hkb with h | h | h | h | h
    · exact .inl (h ▸ rfl)
    · exact .inl (h ▸ indexedBase_files)
    · exact .inr (h ▸ draftBase_files)
    · exact .inl (h ▸ revertedBase_files)
    · exact .inl (h ▸ skippedBase_files)
  have untouched : dropsIndex visionRepo visionCall revertedBase = false ∧
      clearedBy visionRepo visionCall revertedBase = [] := by decide +kernel
  have first : KeepsManifests visionRepo visionBase (.ingest visionCall) := by
    intro manifest rel digest hlisted
    simp [listedIn, visionBase, loadManifest] at hlisted
  have second : KeepsManifests visionRepo revertedBase (.ingest visionCall) := by
    rintro manifest rel digest _ (hdrops | hcleared)
    · exact absurd (untouched.1.symm.trans hdrops) Bool.false_ne_true
    · rw [untouched.2] at hcleared
      cases hcleared
  obtain ⟨result, hreturned⟩ := @returns_of_isOk visionCall revertedBase (by decide +kernel)
  have resolved : resolveSourcePaths visionRepo revertedBase.files visionCall.relativePaths =
      .ok [visionPath] := by
    rw [revertedBase_files]
    decide +kernel
  have consistent := ingest_runs_consistent visionBase_unused run digests
    ⟨first, trivial, trivial, second, trivial⟩
    [(.ingest visionCall, indexedBase), (.edit visionPath (some visionDraft), draftBase),
      (.edit visionPath (some visionText), revertedBase)] visionCall skippedBase [] rfl rfl
  simp only [final_cons, final_nil] at consistent
  exact consistent result hreturned [visionPath] resolved visionPath List.mem_cons_self

def emptiedBase : KnowledgeBase := ingested failingCall indexedBase

def lostBase : KnowledgeBase := ingested visionCall emptiedBase

theorem emptiedBase_files : emptiedBase.files = visionFiles visionText := by
  rw [emptiedBase, ingested_files, indexedBase_files]

theorem lostBase_files : lostBase.files = visionFiles visionText := by
  rw [lostBase, ingested_files, emptiedBase_files]

def lossRun : List (CorpusAction × KnowledgeBase) :=
  [(.ingest visionCall, indexedBase), (.ingest failingCall, emptiedBase),
    (.ingest visionCall, lostBase)]

/-- A run that fails after its deletion leaves the digest of the old manifest behind, and the
next run skips a file of which the index holds nothing. -/
theorem skipped_file_is_lost : ¬∀ (repo : Repository) (kb : KnowledgeBase)
    (path : List (CorpusAction × KnowledgeBase)), Unused kb → Path (CorpusStep repo) kb path →
    DigestsDiffer repo (visited kb path) → RunsConsistent repo kb path := by
  intro claim
  have run : Path (CorpusStep visionRepo) visionBase lossRun :=
    .next (ingested_step visionCall visionBase) <| .next (ingested_step failingCall indexedBase) <|
      .next (ingested_step visionCall emptiedBase) .stop
  have digests : DigestsDiffer visionRepo (visited visionBase lossRun) := by
    refine vision_digestsDiffer fun kb hkb => .inl ?_
    simp only [lossRun, visited_cons, visited_nil, List.mem_cons, List.not_mem_nil,
      or_false] at hkb
    rcases hkb with h | h | h | h
    · exact h ▸ rfl
    · exact h ▸ indexedBase_files
    · exact h ▸ emptiedBase_files
    · exact h ▸ lostBase_files
  obtain ⟨result, hreturned⟩ := @returns_of_isOk visionCall emptiedBase (by decide +kernel)
  have resolved : resolveSourcePaths visionRepo emptiedBase.files visionCall.relativePaths =
      .ok [visionPath] := by
    rw [emptiedBase_files]
    decide +kernel
  have consistent := claim visionRepo visionBase lossRun visionBase_unused run digests
    [(.ingest visionCall, indexedBase), (.ingest failingCall, emptiedBase)] visionCall lostBase []
    rfl rfl
  simp only [final_cons, final_nil] at consistent
  obtain ⟨bytes, chunks, hfile, hchunks, hdocs⟩ :=
    consistent result hreturned [visionPath] resolved visionPath List.mem_cons_self
  have empty : (docsOf visionPath lostBase).isEmpty = true := by decide +kernel
  have one : (childrenOf visionRepo visionPath visionText).toOption.map List.length = some 1 := by
    decide +kernel
  rw [lostBase_files, visionFiles, if_pos rfl] at hfile
  rw [← Option.some.inj hfile] at hchunks
  rw [hchunks] at one
  rw [List.isEmpty_iff.mp empty] at hdocs
  have none_left : chunks.length = 0 := by simpa using hdocs.length_eq.symm
  rw [Except.toOption, Option.map_some, none_left] at one
  cases one

end Example

end Aegis
