import Aegis.WindowSources

namespace Aegis

/-- The cuts leave no gap up to the end, from what is reached already. -/
def Tiles : Nat → Nat → List (Nat × Nat) → Prop
  | reached, stop, [] => stop ≤ reached
  | reached, stop, cut :: rest => cut.1 ≤ reached ∧ Tiles (max reached cut.2) stop rest

/-- The paragraph stands whole in a window, or the windows have one after the other the pieces of
cuts of it that leave no gap. -/
def Covered (windows : List (List Char)) (para : List Char) : Prop :=
  (∃ window ∈ windows, para <:+: window) ∨
    ∃ cuts, Tiles 0 para.length cuts ∧
      ((cuts.map (pieceOf para)).filter fun piece => piece ≠ []) <:+: windows

section Cover

variable {sizes : WindowSizes} {s : Windowing} {windows : List (List Char)} {para : List Char}

theorem Covered.append (h : Covered windows para) (later : List (List Char)) :
    Covered (windows ++ later) para := by
  rcases h with ⟨window, hwindow, hinfix⟩ | ⟨cuts, htiles, hinfix⟩
  · exact .inl ⟨window, List.mem_append_left _ hwindow, hinfix⟩
  · exact .inr ⟨cuts, htiles, hinfix.trans (List.prefix_append _ _).isInfix⟩

theorem lt_cutEnd {text : List Char} {target start : Nat} (wide : 2 ≤ target)
    (h : start < text.length) : start < cutEnd text target start := by
  rcases cutEnd_cases text target start with ⟨heq, _⟩ | ⟨_, hhalf, _⟩
  · omega
  · omega

/-- The cuts of a paragraph leave no gap: each begins at the end of the one before it or earlier. -/
theorem cutsFrom_tiles {text : List Char} {target overlap start : Nat} (wide : 2 ≤ target)
    {reached : Nat} (h : start ≤ reached) :
    Tiles reached text.length (cutsFrom text target overlap start) := by
  induction start using cutsFrom.induct text target overlap generalizing reached with
  | case1 start hstart ih =>
    have hnext := @lt_cutEnd text _ _ wide hstart
    rw [cutsFrom, if_pos hstart]
    refine ⟨h, ?_⟩
    split
    next hlast => exact hlast.trans (le_max_right _ _)
    next => exact ih (by dsimp only; omega)
  | case2 start hend =>
    rw [cutsFrom, if_neg hend]
    exact (Nat.le_of_not_lt hend).trans h

theorem infix_joinParagraphs {parts : List (List Char)} (h : para ∈ parts) :
    para <:+: joinParagraphs parts := by
  induction parts with
  | nil => cases h
  | cons first rest ih =>
    cases hrest : rest with
    | nil =>
      rw [hrest, List.mem_singleton] at h
      rw [h, joinParagraphs, List.intercalate_singleton]
    | cons next later =>
      rw [joinParagraphs, List.intercalate_cons_cons]
      rcases List.mem_cons.mp h with rfl | h
      · exact (List.prefix_append _ _).isInfix.trans (by rw [List.append_assoc])
      · have hinfix := ih h
        rw [hrest] at hinfix
        exact hinfix.trans (List.suffix_append _ _).isInfix

/-- A paragraph is covered already, or waits in the buffer. -/
def Windowing.Holds (s : Windowing) (para : List Char) : Prop :=
  Covered s.windows para ∨ para ∈ s.buf

theorem emit_covers (overlap : Nat) (h : s.Holds para) : Covered (s.emit overlap).windows para := by
  by_cases hbuf : s.buf = []
  · rw [emit_eq_self overlap hbuf]
    refine h.resolve_right fun hmem => ?_
    rw [hbuf] at hmem
    cases hmem
  · rw [emit_eq overlap hbuf]
    rcases h with hcovered | hmem
    · exact hcovered.append _
    · exact .inl ⟨joinParagraphs s.buf, List.mem_append_right _ (List.mem_singleton_self _),
        infix_joinParagraphs hmem⟩

theorem add_holds {next : List Char} (counted : s.Counted) (h : s.Holds para) :
    (s.add sizes next).Holds para := by
  by_cases hshort : next.length ≤ sizes.maxChars
  · rw [add_short counted hshort, Windowing.before]
    split
    · exact .inl (emit_covers _ h)
    · exact h.imp id fun hmem => List.mem_append_left _ hmem
  · rw [add_long (Nat.lt_of_not_le hshort)]
    exact .inl ((emit_covers _ h).append _)

theorem add_holds_self (wide : 2 ≤ sizes.target) (counted : s.Counted) :
    (s.add sizes para).Holds para := by
  by_cases hshort : para.length ≤ sizes.maxChars
  · rw [add_short counted hshort]
    exact .inr (List.mem_append_right _ (List.mem_singleton_self _))
  · rw [add_long (Nat.lt_of_not_le hshort)]
    refine .inl (.inr ⟨cutsFrom para sizes.target sizes.overlap 0, cutsFrom_tiles wide le_rfl, ?_⟩)
    rw [← hardSplitFrom_eq]
    exact (List.suffix_append _ _).isInfix

theorem fold_holds (wide : 2 ≤ sizes.target) {parts : List (List Char)}
    (nonempty : ∀ part ∈ parts, part ≠ []) (counted : s.Counted)
    (h : s.Holds para ∨ para ∈ parts) : (parts.foldl (Windowing.add sizes) s).Holds para := by
  induction parts generalizing s with
  | nil => exact h.resolve_right (by simp)
  | cons first rest ih =>
    obtain ⟨hfirst, hrest⟩ := List.forall_mem_cons.mp nonempty
    refine ih hrest (add_counted counted hfirst) ?_
    rcases h with hholds | hmem
    · exact .inl (add_holds counted hholds)
    · rcases List.mem_cons.mp hmem with rfl | hmem
      · exact .inl (add_holds_self wide counted)
      · exact .inr hmem

theorem stripChars_inside (text : List Char) : stripChars text <:+: text :=
  (List.rdropWhile_prefix isSpace _).isInfix.trans (List.dropWhile_suffix isSpace).isInfix

theorem splitBlocksFrom_inside (text part : List Char) :
    ∀ block ∈ splitBlocksFrom text part, block <:+: part.reverse ++ text := by
  induction text, part using splitBlocksFrom.induct with
  | case1 part =>
    rw [splitBlocksFrom, List.append_nil]
    intro block hblock
    rw [List.mem_singleton.mp hblock]
  | case2 rest part ih =>
    rw [splitBlocksFrom]
    refine List.forall_mem_cons.mpr ⟨(List.prefix_append _ _).isInfix, fun block hblock => ?_⟩
    refine (ih block hblock).trans ⟨part.reverse ++ ['\n', '\n'], [], ?_⟩
    simp
  | case3 c rest part hbreak ih =>
    rw [splitBlocksFrom]
    · simpa using ih
    · exact hbreak

theorem paragraph_inside {text : List Char} (h : para ∈ paragraphs text) : para <:+: text := by
  obtain ⟨block, hblock, rfl⟩ := List.mem_map.mp (List.mem_filter.mp h).1
  exact (stripChars_inside block).trans (splitBlocksFrom_inside text [] block hblock)

/-- The windows of a text cover its paragraphs. -/
theorem splitBySize_covers (wide : 2 ≤ sizes.target) {text : List Char}
    (h : para ∈ paragraphs (stripChars text)) : Covered (splitBySize sizes text) para := by
  by_cases hshort : (stripChars text).length ≤ sizes.maxChars
  · have hblank : stripChars text ≠ [] := by
      intro hnil
      have hinfix := paragraph_inside h
      rw [hnil] at hinfix
      exact paragraphs_nonempty _ para h (List.eq_nil_of_infix_nil hinfix)
    rw [splitBySize_of_short hblank hshort]
    exact .inl ⟨_, List.mem_singleton_self _, paragraph_inside h⟩
  · rw [splitBySize_of_long (Nat.lt_of_not_le hshort)]
    exact emit_covers _ (fold_holds wide (paragraphs_nonempty _) ⟨rfl, by simp⟩ (.inr h))

end Cover

section Headings

/-- A heading and the lines under it: its own line and others that are no headings. -/
def IsHeadingBlock (block : List Char × List (List Char)) : Prop :=
  ∃ line rest, block.2 = line :: rest ∧ headingOf line = some block.1 ∧
    ∀ other ∈ rest, headingOf other = none

/-- The lines of a document, a block for every heading, from an open block on. -/
def blocksOfLines : List Char → List (List Char) → List (List Char) →
    List (List Char × List (List Char))
  | heading, block, [] => [(heading, block)]
  | heading, block, line :: rest =>
    match headingOf line with
    | some title => (heading, block) :: blocksOfLines title [line] rest
    | none => blocksOfLines heading (block ++ [line]) rest

/-- The section of a block, unless it is white space. -/
def sectionOf (block : List Char × List (List Char)) : Option (List Char × List Char) :=
  let text := stripChars (joinLines block.2)
  if text = [] then none else some (block.1, text)

theorem flush_eq (heading : List Char) (block : List (List Char))
    (sections : List (List Char × List Char)) :
    Sectioning.flush ⟨heading, block, sections⟩ = sections ++ (sectionOf (heading, block)).toList := by
  rw [Sectioning.flush, sectionOf]
  dsimp only
  split
  · rw [Option.toList_none, List.append_nil]
  · rfl

theorem fold_addLine (lines : List (List Char)) (heading : List Char) (block : List (List Char))
    (sections : List (List Char × List Char)) :
    (lines.foldl Sectioning.addLine ⟨heading, block, sections⟩).flush =
      sections ++ (blocksOfLines heading block lines).filterMap sectionOf := by
  induction lines generalizing heading block sections with
  | nil =>
    rw [List.foldl_nil, flush_eq, blocksOfLines]
    cases hsection : sectionOf (heading, block) <;> simp [hsection]
  | cons line rest ih =>
    rw [List.foldl_cons, Sectioning.addLine, blocksOfLines]
    cases hheading : headingOf line with
    | none =>
      dsimp only
      rw [ih]
    | some title =>
      dsimp only
      rw [ih, flush_eq, List.append_assoc]
      congr 1
      cases hsection : sectionOf (heading, block) <;> simp [hsection]

theorem blocksOfLines_spec (lines : List (List Char)) (heading : List Char)
    (block : List (List Char)) :
    ∃ later blocks, blocksOfLines heading block lines = (heading, block ++ later) :: blocks ∧
      later ++ blocks.flatMap Prod.snd = lines ∧ (∀ line ∈ later, headingOf line = none) ∧
      ∀ block ∈ blocks, IsHeadingBlock block := by
  induction lines generalizing heading block with
  | nil => exact ⟨[], [], by simp [blocksOfLines], rfl, by simp, by simp⟩
  | cons line rest ih =>
    rw [blocksOfLines]
    cases hheading : headingOf line with
    | none =>
      obtain ⟨later, blocks, heq, hlines, hlater, hblocks⟩ := ih heading (block ++ [line])
      refine ⟨line :: later, blocks, ?_, by rw [← hlines]; rfl,
        List.forall_mem_cons.mpr ⟨hheading, hlater⟩, hblocks⟩
      dsimp only
      rw [heq, List.append_assoc]
      rfl
    | some title =>
      obtain ⟨later, blocks, heq, hlines, hlater, hblocks⟩ := ih title [line]
      refine ⟨[], _, by rw [List.append_nil], ?_, by simp, ?_⟩
      · rw [heq, ← hlines]
        rfl
      · rw [heq]
        exact List.forall_mem_cons.mpr ⟨⟨line, later, rfl, hheading, hlater⟩, hblocks⟩

theorem visible_joinLines (lines : List (List Char)) :
    visible (joinLines lines) = lines.flatMap visible := by
  induction lines with
  | nil => rfl
  | cons line rest ih =>
    cases hrest : rest with
    | nil => simp [joinLines]
    | cons next later =>
      rw [hrest] at ih
      rw [joinLines, List.intercalate_cons_cons, visible_append, visible_append, ← joinLines, ih,
        visible_cons_space (by decide), visible_nil, List.append_nil, ← List.flatMap_cons]

/-- Cutting a text into lines loses line breaks only. -/
theorem visible_splitLinesFrom (text line : List Char) :
    ((splitLinesFrom text line).map String.toList).flatMap visible =
      (visible line).reverse ++ visible text := by
  induction text, line using splitLinesFrom.induct with
  | case1 => rfl
  | case2 line hline =>
    rw [splitLinesFrom]
    · simp [visible_reverse]
    · exact hline
  | case3 line rest ih =>
    rw [splitLinesFrom, List.map_cons, List.flatMap_cons, ih, String.toList_ofList, visible_reverse,
      visible_nil, List.reverse_nil, List.nil_append, visible_cons_space (by decide),
      visible_cons_space (by decide)]
  | case4 c line rest hbreak hline ih =>
    rw [splitLinesFrom, if_pos hline, List.map_cons, List.flatMap_cons, ih, String.toList_ofList,
      visible_reverse, visible_nil, List.reverse_nil, List.nil_append,
      visible_cons_space (isSpace_of_isLineBreak hline)]
    exact hbreak
  | case5 c line rest hbreak hline ih =>
    rw [splitLinesFrom, if_neg hline, ih]
    · by_cases hc : isSpace c = true
      · rw [visible_cons_space hc, visible_cons_space hc]
      · have hcons : ∀ text, visible (c :: text) = c :: visible text := fun text =>
          List.filter_cons_of_pos (by simpa using hc)
        rw [hcons, hcons, List.reverse_cons, List.append_assoc]
        rfl
    · exact hbreak

/-- The sections of a body: the lines before the first heading, then a heading with its lines after
the other, each without the white space around it and none blank. -/
structure SectionsOf (body : List Char) (sections : List (List Char × List Char)) : Prop where
  order : ∃ lead blocks, lead ++ blocks.flatMap Prod.snd = (splitLinesFrom body []).map String.toList ∧
    (∀ line ∈ lead, headingOf line = none) ∧ (∀ block ∈ blocks, IsHeadingBlock block) ∧
    sections = (("lead".toList, lead) :: blocks).filterMap sectionOf
  whole : sections.flatMap (visible ∘ Prod.snd) = visible body

theorem visible_sectionOf (block : List Char × List (List Char)) :
    (sectionOf block).toList.flatMap (visible ∘ Prod.snd) = block.2.flatMap visible := by
  rw [← visible_joinLines, ← visible_stripChars, sectionOf]
  by_cases hblank : stripChars (joinLines block.2) = []
  · rw [if_pos hblank, hblank]
    rfl
  · rw [if_neg hblank, Option.toList_some, List.flatMap_singleton]
    rfl

theorem sectionOf_not_blank {block : List Char × List (List Char)}
    {section_ : List Char × List Char} (h : sectionOf block = some section_) :
    visible section_.2 ≠ [] := by
  rw [sectionOf] at h
  split at h
  · cases h
  next hblank =>
    obtain rfl := Option.some.inj h
    exact fun hnone => hblank ((stripChars_eq_nil_iff _).mpr (by rwa [visible_stripChars] at hnone))

theorem visible_sections (blocks : List (List Char × List (List Char))) :
    (blocks.filterMap sectionOf).flatMap (visible ∘ Prod.snd) =
      (blocks.flatMap Prod.snd).flatMap visible := by
  induction blocks with
  | nil => rfl
  | cons block rest ih =>
    rw [List.flatMap_cons, List.flatMap_append, ← visible_sectionOf, ← ih]
    cases hsection : sectionOf block <;> simp [hsection]

theorem visible_splitLines (body : List Char) :
    ((splitLinesFrom body []).map String.toList).flatMap visible = visible body := by
  rw [visible_splitLinesFrom, visible_nil, List.reverse_nil, List.nil_append]

theorem blocks_whole (body : List Char) :
    ((blocksOfLines "lead".toList [] ((splitLinesFrom body []).map String.toList)).filterMap
      sectionOf).flatMap (visible ∘ Prod.snd) = visible body := by
  obtain ⟨lead, blocks, heq, hlines, -, -⟩ :=
    blocksOfLines_spec ((splitLinesFrom body []).map String.toList) "lead".toList []
  rw [visible_sections, heq, List.nil_append, List.flatMap_cons, hlines, visible_splitLines]

theorem splitByHeading_eq (body : List Char) :
    splitByHeading body =
      (blocksOfLines "lead".toList [] ((splitLinesFrom body []).map String.toList)).filterMap
        sectionOf := by
  have hflush := fold_addLine ((splitLinesFrom body []).map String.toList) "lead".toList [] []
  have hwhole := blocks_whole body
  rw [splitByHeading]
  dsimp only
  rw [hflush, List.nil_append]
  by_cases hblank : stripChars body = []
  · rw [if_pos hblank, eq_comm, List.eq_nil_iff_forall_not_mem]
    intro section_ hsection
    rw [(stripChars_eq_nil_iff body).mp hblank] at hwhole
    obtain ⟨block, -, hblock⟩ := List.mem_filterMap.mp hsection
    exact sectionOf_not_blank hblock (List.flatMap_eq_nil_iff.mp hwhole section_ hsection)
  · rw [if_neg hblank, if_neg]
    intro hnone
    rw [hnone] at hwhole
    exact hblank ((stripChars_eq_nil_iff body).mpr hwhole.symm)

theorem splitByHeading_sections (body : List Char) : SectionsOf body (splitByHeading body) := by
  rw [splitByHeading_eq]
  obtain ⟨lead, blocks, heq, hlines, hlead, hblocks⟩ :=
    blocksOfLines_spec ((splitLinesFrom body []).map String.toList) "lead".toList []
  exact ⟨⟨lead, blocks, hlines, hlead, hblocks, by rw [heq, List.nil_append]⟩, blocks_whole body⟩

end Headings

section Ids

variable {sha256 : ByteArray → BitVec 256} {rel : String} {metadata : Dict String}

theorem chunkIdOf_kind_eq {kind other : Char} {i j : Nat} {section_ text section' text' : String}
    (h : chunkIdOf sha256 kind i rel section_ text = chunkIdOf sha256 other j rel section' text') :
    kind = other := by
  unfold chunkIdOf at h
  have h := String.ofList_injective h
  rw [List.append_assoc, List.append_assoc, List.append_cancel_left_eq] at h
  exact (List.cons.inj (List.cons.inj h).2).1

/-- What the chunks from some parent and some child on have in their ids. -/
def NumberedFrom (sha256 : ByteArray → BitVec 256) (rel : String) (parentIndex childIndex : Nat)
    (chunk : Chunk) : Prop :=
  (∃ index, parentIndex ≤ index ∧ IsChunkOf sha256 rel 'p' index chunk) ∨
    ∃ index, childIndex ≤ index ∧ IsChunkOf sha256 rel 'c' index chunk

theorem chunksFrom_ids (parentIndex childIndex : Nat) (windows : List (List Char × List Char)) :
    (∀ chunk ∈ chunksFrom sha256 rel metadata parentIndex childIndex windows,
      NumberedFrom sha256 rel parentIndex childIndex chunk) ∧
    ((chunksFrom sha256 rel metadata parentIndex childIndex windows).map Chunk.chunkId).Nodup := by
  induction windows generalizing parentIndex childIndex with
  | nil => simp [chunksFrom]
  | cons entry rest ih =>
    obtain ⟨heading, window⟩ := entry
    obtain ⟨hlater, hnodup⟩ :=
      ih (parentIndex + 1) (childIndex + (splitBySize childSizes window).length)
    rw [chunksFrom]
    generalize hparent : chunkIdOf sha256 'p' parentIndex rel _ _ = parentId
    have hchildren := @childrenFrom_spec sha256 rel (String.ofList heading) parentId metadata
      childIndex (splitBySize childSizes window)
    have hchildNodup := @childrenFrom_nodup sha256 rel (String.ofList heading) parentId metadata
      childIndex (splitBySize childSizes window)
    constructor
    · intro chunk hchunk
      rcases List.mem_append.mp hchunk with hchunk | hchunk
      · rcases List.mem_cons.mp hchunk with rfl | hchunk
        · exact .inl ⟨parentIndex, le_rfl, rfl, hparent.symm⟩
        · obtain ⟨_, index, hle, _, hid⟩ := hchildren chunk hchunk
          exact .inr ⟨index, hle, hid⟩
      · rcases hlater chunk hchunk with ⟨index, hle, hid⟩ | ⟨index, hle, hid⟩
        · exact .inl ⟨index, by omega, hid⟩
        · exact .inr ⟨index, by omega, hid⟩
    · rw [List.map_append, List.map_cons]
      refine List.nodup_append.mpr ⟨List.nodup_cons.mpr ⟨?_, hchildNodup⟩, hnodup, ?_⟩
      · intro hmem
        obtain ⟨child, hchild, hsame⟩ := List.mem_map.mp hmem
        obtain ⟨_, index, _, _, _, hid⟩ := hchildren child hchild
        have := chunkIdOf_kind_eq ((hid.symm.trans hsame).trans hparent.symm)
        exact absurd this (by decide)
      · intro id hid other hother hsame
        obtain ⟨later, hmem, rfl⟩ := List.mem_map.mp hother
        rcases List.mem_cons.mp hid with rfl | hid
        · rcases hlater later hmem with ⟨index, hle, _, hlaterId⟩ | ⟨index, hle, _, hlaterId⟩
          · have := chunkIdOf_index_eq ((hparent.trans hsame).trans hlaterId)
            omega
          · have := chunkIdOf_kind_eq ((hparent.trans hsame).trans hlaterId)
            exact absurd this (by decide)
        · obtain ⟨child, hchild, rfl⟩ := List.mem_map.mp hid
          obtain ⟨_, i, _, hlt, _, hi⟩ := hchildren child hchild
          rcases hlater later hmem with ⟨index, hle, _, hlaterId⟩ | ⟨index, hle, _, hlaterId⟩
          · have := chunkIdOf_kind_eq ((hi.symm.trans hsame).trans hlaterId)
            exact absurd this (by decide)
          · have := chunkIdOf_index_eq ((hi.symm.trans hsame).trans hlaterId)
            omega

end Ids

/-- The windows of a text cover all of its paragraphs, and these hold all of it but white space. -/
structure CoveredBy (text : List Char) (windows : List (List Char)) : Prop where
  whole : (paragraphs (stripChars text)).flatMap visible = visible text
  paragraphs : ∀ para ∈ paragraphs (stripChars text), Covered windows para

theorem splitBySize_coveredBy {sizes : WindowSizes} (wide : 2 ≤ sizes.target) (text : List Char) :
    CoveredBy text (splitBySize sizes text) :=
  ⟨by rw [visible_paragraphs, visible_stripChars], fun _ => splitBySize_covers wide⟩

/-- Chunking loses nothing: the sections of a body hold it in the order of its lines, the parent
windows cover the sections and the child windows the parent windows, and each is a chunk with an id
of its own, the children of a window right behind it and with its id. -/
theorem chunkDocument_covers (sha256 : ByteArray → BitVec 256) (rel : String) (raw : List Char) :
    SectionsOf (parseFrontmatter raw).1 (splitByHeading (parseFrontmatter raw).1) ∧
    (∀ entry ∈ splitByHeading (parseFrontmatter raw).1,
      CoveredBy entry.2 (splitBySize parentSizes entry.2) ∧
      ∀ window ∈ splitBySize parentSizes entry.2,
        CoveredBy window (splitBySize childSizes window)) ∧
    (∃ groups : List (Chunk × List Chunk),
      chunkDocument sha256 rel raw = groups.flatMap (fun group => group.1 :: group.2) ∧
      List.Forall₂ (fun entry group => GroupOf entry.1 entry.2 group.1 group.2)
        (parentWindows (parseFrontmatter raw).1) groups) ∧
    ((chunkDocument sha256 rel raw).map Chunk.chunkId).Nodup :=
  ⟨splitByHeading_sections _,
    fun entry _ => ⟨splitBySize_coveredBy (by decide) entry.2,
      fun window _ => splitBySize_coveredBy (by decide) window⟩,
    chunkDocument_groups sha256 rel raw, (chunksFrom_ids ..).2⟩

end Aegis
