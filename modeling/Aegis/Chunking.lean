import Aegis.Scalars
import Aegis.Untrusted

namespace Aegis

/-- `Chunk`; `section` is the markdown heading. -/
structure Chunk where
  chunkId : String
  text : String
  sourcePath : String
  section_ : String
  metadata : Dict String
  deriving DecidableEq

/-- The three sizes `_split_by_size` is called with. -/
structure WindowSizes where
  target : Nat
  maxChars : Nat
  overlap : Nat

def parentSizes : WindowSizes := ⟨3500, 5000, 400⟩

def childSizes : WindowSizes := ⟨800, 1200, 100⟩

def stripChars (text : List Char) : List Char :=
  (text.dropWhile isSpace).rdropWhile isSpace

/-- `text[start:stop]` -/
def slice (text : List Char) (start stop : Nat) : List Char :=
  (text.drop start).take (stop - start)

/-- `text.rfind(c)`, with `none` for `-1`. -/
def rfind (c : Char) : List Char → Option Nat
  | [] => none
  | x :: rest =>
    match rfind c rest with
    | some i => some (i + 1)
    | none => if x = c then some 0 else none

/-- Where `_hard_split` ends the window that begins at `start`. -/
def cutEnd (text : List Char) (target start : Nat) : Nat :=
  let stop := min (start + target) text.length
  if stop < text.length then
    match rfind '\n' (slice text start stop) with
    | some brk => if target / 2 ≤ brk then start + brk else stop
    | none => stop
  else stop

/-- The loop of `_hard_split`; `start` grows by one character at least. -/
def hardSplitFrom (text : List Char) (target overlap start : Nat) : List (List Char) :=
  if start < text.length then
    let stop := cutEnd text target start
    let piece := stripChars (slice text start stop)
    let later :=
      if text.length ≤ stop then []
      else hardSplitFrom text target overlap (max (stop - overlap) (start + 1))
    if piece = [] then later else piece :: later
  else []
termination_by text.length - start

/-- `_hard_split` -/
def hardSplit (text : List Char) (target overlap : Nat) : List (List Char) :=
  hardSplitFrom text target overlap 0

/-- `text.split("\n\n")`, the part before the next separator given in reverse. -/
def splitBlocksFrom : List Char → List Char → List (List Char)
  | [], part => [part.reverse]
  | '\n' :: '\n' :: rest, part => part.reverse :: splitBlocksFrom rest []
  | c :: rest, part => splitBlocksFrom rest (c :: part)

/-- The stripped paragraphs of a text, without the empty ones. -/
def paragraphs (text : List Char) : List (List Char) :=
  ((splitBlocksFrom text []).map stripChars).filter fun part => part ≠ []

def joinParagraphs (parts : List (List Char)) : List Char :=
  List.intercalate ['\n', '\n'] parts

/-- What `_split_by_size` carries through its loop. -/
structure Windowing where
  windows : List (List Char)
  buf : List (List Char)
  bufLen : Nat

/-- The last paragraphs of a window, taken from its end while they fit the overlap. -/
def overlapParts (overlap : Nat) :
    List (List Char) → Nat → List (List Char) → List (List Char)
  | [], _, parts => parts
  | prev :: rest, acc, parts =>
    let extra := if parts = [] then prev.length else prev.length + 2
    if overlap < acc + extra then parts
    else overlapParts overlap rest (acc + extra) (prev :: parts)

/-- `emit` -/
def Windowing.emit (overlap : Nat) (s : Windowing) : Windowing :=
  if s.buf = [] then s
  else
    let kept := overlapParts overlap s.buf.reverse 0 []
    { windows := s.windows ++ [joinParagraphs s.buf]
      buf := kept
      bufLen := (kept.map List.length).sum + 2 * (kept.length - 1) }

/-- One paragraph in the loop of `_split_by_size`. -/
def Windowing.add (sizes : WindowSizes) (s : Windowing) (para : List Char) : Windowing :=
  if sizes.maxChars < para.length then
    let s := s.emit sizes.overlap
    { s with windows := s.windows ++ hardSplit para sizes.target sizes.overlap }
  else
    let added := para.length + (if s.buf = [] then 0 else 2)
    let s := if s.buf ≠ [] ∧ sizes.target < s.bufLen + added then s.emit sizes.overlap else s
    { s with
      buf := s.buf ++ [para]
      bufLen := s.bufLen + (para.length + (if s.bufLen = 0 then 0 else 2)) }

/-- `_split_by_size` -/
def splitBySize (sizes : WindowSizes) (text : List Char) : List (List Char) :=
  let text := stripChars text
  if text = [] then []
  else if text.length ≤ sizes.maxChars then [text]
  else
    let s := ((paragraphs text).foldl (Windowing.add sizes) ⟨[], [], 0⟩).emit sizes.overlap
    s.windows.filter fun part => part ≠ []

/-- `_HEADING.match(line)`, stripped group 2: one to six `#`, white space, a text. Where only
white space follows, its last character is the text and strips to nothing. -/
def headingOf (line : List Char) : Option (List Char) :=
  let marks := line.takeWhile fun c => c = '#'
  let rest := line.dropWhile fun c => c = '#'
  if 1 ≤ marks.length ∧ marks.length ≤ 6 then
    let space := rest.takeWhile isSpace
    let title := stripChars rest
    if title ≠ [] ∧ 1 ≤ space.length ∨ 2 ≤ space.length then some title else none
  else none

/-- What `_split_by_heading` carries through its loop. -/
structure Sectioning where
  current : List Char
  lines : List (List Char)
  sections : List (List Char × List Char)

def joinLines (lines : List (List Char)) : List Char :=
  List.intercalate ['\n'] lines

/-- `flush` -/
def Sectioning.flush (s : Sectioning) : List (List Char × List Char) :=
  let text := stripChars (joinLines s.lines)
  if text = [] then s.sections else s.sections ++ [(s.current, text)]

def Sectioning.addLine (s : Sectioning) (line : List Char) : Sectioning :=
  match headingOf line with
  | some title => ⟨title, [line], s.flush⟩
  | none => { s with lines := s.lines ++ [line] }

/-- `_split_by_heading` -/
def splitByHeading (body : List Char) : List (List Char × List Char) :=
  if stripChars body = [] then []
  else
    let lines := (splitLinesFrom body []).map String.toList
    let sections := (lines.foldl Sectioning.addLine ⟨"lead".toList, [], []⟩).flush
    if sections = [] then [("lead".toList, stripChars body)] else sections

/-- The rest of `_FRONTMATTER` after its first line: the text up to the next line that begins
with three hyphens, and what follows the match. -/
def frontmatterFrom : List Char → List Char → Option (List Char × List Char)
  | [], _ => none
  | '\n' :: '-' :: '-' :: '-' :: rest, fields =>
    some (fields.reverse, match rest with
      | '\n' :: body => body
      | body => body)
  | c :: rest, fields => frontmatterFrom rest (c :: fields)

/-- One line of the frontmatter, when it is a field. -/
def frontmatterField (line : String) : Option (String × String) :=
  let stripped := stripChars line.toList
  if stripped = [] ∨ stripped.head? = some '#' ∨ ':' ∉ stripped then none
  else
    some (String.ofList (stripChars (stripped.takeWhile (· ≠ ':'))),
      String.ofList (stripChars ((stripped.dropWhile (· ≠ ':')).drop 1)))

/-- `_parse_frontmatter` -/
def parseFrontmatter (raw : List Char) : List Char × Dict String :=
  match raw with
  | '-' :: '-' :: '-' :: '\n' :: rest =>
    match frontmatterFrom rest [] with
    | some (fields, body) =>
      (body, ((splitLinesFrom fields []).filterMap frontmatterField).foldl
        (fun out field => out.set field.1 field.2) [])
    | none => (raw, [])
  | _ => (raw, [])

/-- `relative_path.split("/")`, the part before the next slash given in reverse. -/
def splitPathFrom : List Char → List Char → List String
  | [], part => [String.ofList part.reverse]
  | '/' :: rest, part => String.ofList part.reverse :: splitPathFrom rest []
  | c :: rest, part => splitPathFrom rest (c :: part)

/-- `_metadata_from_path` -/
def metadataFromPath (relativePath : String) : Dict String :=
  let kind := match splitPathFrom relativePath.toList [] with
    | "docs" :: kind :: _ => kind
    | _ => "document"
  [("doc_type", if kind = "releases" then "release" else kind), ("service", "platform")]

/-- `_document_metadata` -/
def documentMetadata (relativePath : String) (frontmatter : Dict String) : Dict String :=
  ["doc_type", "service", "date", "scenario", "status", "severity", "incident_id",
    "related_services"].foldl (fun merged key =>
      let value := strip ((frontmatter.lookup key).getD "")
      if value = "" then merged else merged.set key value) (metadataFromPath relativePath)

/-- Text as `Path.read_text` gives it: every line ends in `\n`. -/
def universalNewlines : List Char → List Char
  | [] => []
  | '\r' :: '\n' :: rest => '\n' :: universalNewlines rest
  | '\r' :: rest => '\n' :: universalNewlines rest
  | c :: rest => c :: universalNewlines rest

/-- An index with at least four decimal digits. -/
def fourDigits (index : Nat) : List Char :=
  let digits := Nat.toDigits 10 index
  List.replicate (4 - digits.length) '0' ++ digits

section Chunks

variable (sha256 : ByteArray → BitVec 256)

/-- `hashlib.sha256(..).hexdigest()` -/
def hexDigest (data : ByteArray) : String :=
  String.ofList (hexChars 64 (sha256 data).toNat)

/-- `_chunk_id` -/
def chunkIdOf (kind : Char) (index : Nat) (sourcePath section_ text : String) : String :=
  let digest := (hexDigest sha256 (sourcePath ++ "\x00" ++ section_ ++ "\x00" ++ text).toUTF8)
  String.ofList (sourcePath.toList ++ '#' :: kind :: fourDigits index ++
    '-' :: digest.toList.take 16)

/-- The children of one parent window, the first with the given index. -/
def childrenFrom (rel section_ parentId : String) (metadata : Dict String) :
    Nat → List (List Char) → List Chunk
  | _, [] => []
  | index, window :: rest =>
    let text := String.ofList window
    { chunkId := chunkIdOf sha256 'c' index rel section_ text
      text
      sourcePath := rel
      section_
      metadata := (metadata.set "role" "child").set "parent_id" parentId } ::
    childrenFrom rel section_ parentId metadata (index + 1) rest

/-- The loop of `chunk_document` over the parent windows, each with its heading. -/
def chunksFrom (rel : String) (metadata : Dict String) :
    Nat → Nat → List (List Char × List Char) → List Chunk
  | _, _, [] => []
  | parentIndex, childIndex, (heading, window) :: rest =>
    let section_ := String.ofList heading
    let text := String.ofList window
    let parentId := chunkIdOf sha256 'p' parentIndex rel section_ text
    let windows := splitBySize childSizes window
    { chunkId := parentId
      text
      sourcePath := rel
      section_
      metadata := (metadata.set "role" "parent").set "parent_id" parentId } ::
    childrenFrom sha256 rel section_ parentId metadata childIndex windows ++
    chunksFrom rel metadata (parentIndex + 1) (childIndex + windows.length) rest

/-- `chunk_document` of a text that has been read. -/
def chunkDocument (rel : String) (raw : List Char) : List Chunk :=
  let (body, fields) := parseFrontmatter raw
  let windows := (splitByHeading body).flatMap fun (heading, text) =>
    (splitBySize parentSizes text).map fun window => (heading, window)
  chunksFrom sha256 rel (documentMetadata rel fields) 0 0 windows

/-- `retrieval_chunks` -/
def retrievalChunks (chunks : List Chunk) : List Chunk :=
  chunks.filter fun chunk => chunk.metadata.lookup "role" = some "child"

end Chunks

theorem fourDigits_inj {i j : Nat} (h : fourDigits i = fourDigits j) : i = j := by
  have value : ∀ index, Nat.ofDigitChars 10 (fourDigits index) 0 = index := by
    intro index
    unfold fourDigits
    dsimp only
    generalize 4 - (Nat.toDigits 10 index).length = zeros
    induction zeros with
    | zero => exact Nat.ofDigitChars_ten_toDigits
    | succ zeros ih =>
      rw [List.replicate_succ, List.cons_append, Nat.ofDigitChars_cons]
      exact ih
  rw [← value i, ← value j, h]

section Ids

variable {sha256 : ByteArray → BitVec 256} {rel : String}

/-- A chunk with the text of its id: the path, `#`, the kind of chunk and its index. -/
def IsChunkOf (sha256 : ByteArray → BitVec 256) (rel : String) (kind : Char) (index : Nat)
    (chunk : Chunk) : Prop :=
  chunk.sourcePath = rel ∧
    chunk.chunkId = chunkIdOf sha256 kind index rel chunk.section_ chunk.text

theorem chunkIdOf_index_eq {kind : Char} {i j : Nat} {section_ text other otherText : String}
    (h : chunkIdOf sha256 kind i rel section_ text = chunkIdOf sha256 kind j rel other otherText) :
    i = j := by
  have digest : ∀ data, ((hexDigest sha256 data).toList.take 16).length = 16 := by
    intro data
    simp [hexDigest]
  unfold chunkIdOf at h
  have h := String.ofList_injective h
  rw [List.append_assoc, List.append_assoc, List.append_cancel_left_eq] at h
  refine fourDigits_inj (List.append_inj' (List.cons.inj (List.cons.inj h).2).2 ?_).1
  rw [List.length_cons, List.length_cons, digest, digest]

theorem childrenFrom_spec (section_ parentId : String) (metadata : Dict String) (start : Nat)
    (windows : List (List Char)) :
    ∀ chunk ∈ childrenFrom sha256 rel section_ parentId metadata start windows,
      chunk.metadata.lookup "role" = some "child" ∧
      ∃ index, start ≤ index ∧ index < start + windows.length ∧
        IsChunkOf sha256 rel 'c' index chunk := by
  induction windows generalizing start with
  | nil => simp [childrenFrom]
  | cons window rest ih =>
    intro chunk hchunk
    rcases List.mem_cons.mp hchunk with rfl | hchunk
    · refine ⟨?_, start, le_refl _, by simp, rfl, rfl⟩
      rw [Dict.lookup_set, Dict.lookup_set]
      rfl
    · obtain ⟨hrole, index, hle, hlt, hid⟩ := ih (start + 1) chunk hchunk
      refine ⟨hrole, index, by omega, ?_, hid⟩
      simp only [List.length_cons]
      omega

theorem childrenFrom_nodup (section_ parentId : String) (metadata : Dict String) (start : Nat)
    (windows : List (List Char)) :
    ((childrenFrom sha256 rel section_ parentId metadata start windows).map
      Chunk.chunkId).Nodup := by
  induction windows generalizing start with
  | nil => simp [childrenFrom]
  | cons window rest ih =>
    refine List.nodup_cons.mpr ⟨?_, ih (start + 1)⟩
    intro hmem
    obtain ⟨chunk, hchunk, hsame⟩ := List.mem_map.mp hmem
    obtain ⟨_, index, hle, _, _, hid⟩ := childrenFrom_spec _ _ _ _ _ chunk hchunk
    have := chunkIdOf_index_eq (hid.symm.trans hsame)
    omega

/-- Only the children of a parent window are retrieval chunks. -/
theorem retrievalChunks_chunksFrom (metadata : Dict String) (parentIndex childIndex : Nat)
    (heading window : List Char) (rest : List (List Char × List Char)) :
    ∃ section_ parentId, retrievalChunks
        (chunksFrom sha256 rel metadata parentIndex childIndex ((heading, window) :: rest)) =
      childrenFrom sha256 rel section_ parentId metadata childIndex
        (splitBySize childSizes window) ++
      retrievalChunks (chunksFrom sha256 rel metadata (parentIndex + 1)
        (childIndex + (splitBySize childSizes window).length) rest) := by
  refine ⟨String.ofList heading,
    chunkIdOf sha256 'p' parentIndex rel (String.ofList heading) (String.ofList window), ?_⟩
  have children := fun section_ parentId => List.filter_eq_self.mpr fun chunk hchunk =>
    decide_eq_true (@childrenFrom_spec sha256 rel section_ parentId metadata childIndex
      (splitBySize childSizes window) chunk hchunk).1
  rw [chunksFrom, List.cons_append, retrievalChunks, List.filter_cons_of_neg, List.filter_append,
    children]
  · rfl
  · rw [decide_eq_true_eq, Dict.lookup_set, Dict.lookup_set]
    simp

theorem retrievalChunks_chunksFrom_spec (metadata : Dict String) (parentIndex childIndex : Nat)
    (windows : List (List Char × List Char)) :
    (∀ chunk ∈ retrievalChunks (chunksFrom sha256 rel metadata parentIndex childIndex windows),
      ∃ index, childIndex ≤ index ∧ IsChunkOf sha256 rel 'c' index chunk) ∧
    ((retrievalChunks (chunksFrom sha256 rel metadata parentIndex childIndex windows)).map
      Chunk.chunkId).Nodup := by
  induction windows generalizing parentIndex childIndex with
  | nil => simp [chunksFrom, retrievalChunks]
  | cons entry rest ih =>
    obtain ⟨heading, window⟩ := entry
    obtain ⟨section_, parentId, hchunks⟩ := @retrievalChunks_chunksFrom sha256 rel metadata
      parentIndex childIndex heading window rest
    obtain ⟨hlater, hnodup⟩ :=
      ih (parentIndex + 1) (childIndex + (splitBySize childSizes window).length)
    rw [hchunks]
    constructor
    · intro chunk hchunk
      rcases List.mem_append.mp hchunk with hchunk | hchunk
      · obtain ⟨_, index, hle, _, hid⟩ := childrenFrom_spec _ _ _ _ _ chunk hchunk
        exact ⟨index, hle, hid⟩
      · obtain ⟨index, hle, hid⟩ := hlater chunk hchunk
        exact ⟨index, by omega, hid⟩
    · rw [List.map_append]
      refine List.nodup_append.mpr ⟨childrenFrom_nodup .., hnodup, ?_⟩
      intro id hid other hother hsame
      obtain ⟨chunk, hchunk, rfl⟩ := List.mem_map.mp hid
      obtain ⟨later, hmem, rfl⟩ := List.mem_map.mp hother
      obtain ⟨_, i, _, hlt, _, hi⟩ := childrenFrom_spec _ _ _ _ _ chunk hchunk
      obtain ⟨j, hle, _, hj⟩ := hlater later hmem
      have := chunkIdOf_index_eq (hi.symm.trans (hsame.trans hj))
      omega

/-- The retrieval chunks of a file carry its path, and each has an id of its own. -/
theorem retrievalChunks_spec (raw : List Char) :
    (∀ chunk ∈ retrievalChunks (chunkDocument sha256 rel raw),
      ∃ index, IsChunkOf sha256 rel 'c' index chunk) ∧
    ((retrievalChunks (chunkDocument sha256 rel raw)).map Chunk.chunkId).Nodup := by
  obtain ⟨hchunks, hnodup⟩ := @retrievalChunks_chunksFrom_spec sha256 rel
    (documentMetadata rel (parseFrontmatter raw).2) 0 0
    ((splitByHeading (parseFrontmatter raw).1).flatMap fun (heading, text) =>
      (splitBySize parentSizes text).map fun window => (heading, window))
  refine ⟨fun chunk hchunk => ?_, hnodup⟩
  obtain ⟨index, _, hid⟩ := hchunks chunk hchunk
  exact ⟨index, hid⟩

end Ids

end Aegis
