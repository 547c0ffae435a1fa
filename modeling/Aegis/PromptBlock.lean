import Aegis.NeutralFixpoint
import Aegis.PromptHeads
import Aegis.SingleLine

namespace Aegis

open Regex Pattern

section Written

variable {Item : Type} {f : List Char → List Item} {P : List Char → Prop} {prev : Option Char}
  {a line : List Char} {lines : List (List Char)}

/-- What `f` reads at the beginnings of texts that are written below each other. -/
def readWritten (f : List Char → List Item) : List (List Char) → List Item
  | [] => []
  | line :: lines => f (line ++ written lines) ++ readWritten f lines

/-- Each of the texts begins as `P` says, with the others below it. -/
def StartsWritten (P : List Char → Prop) : List (List Char) → Prop
  | [] => True
  | line :: lines => P (line ++ written lines) ∧ StartsWritten P lines

theorem lineFeed_cut {s t a b : List Char} (hs : '\n' ∉ s) (h : s ++ '\n' :: t = a ++ '\n' :: b) :
    t = b ∨ ∃ a', t = a' ++ '\n' :: b := by
  obtain ⟨a', h⟩ := lineFeed_right h hs
  cases a' with
  | nil => exact .inl (List.cons.inj h).2
  | cons c a' => exact .inr ⟨a', (List.cons.inj h).2⟩

theorem atLines_written (ha : '\n' ∉ a) (whole : ∀ line ∈ lines, '\n' ∉ line)
    (starts : StartsWritten P lines) : AtLines P (a ++ written lines) := by
  induction lines generalizing a with
  | nil =>
    rintro front back hsplit
    rw [written, List.flatMap_nil, List.append_nil] at hsplit
    exact absurd (hsplit ▸ by simp) ha
  | cons line lines ih =>
    obtain ⟨hline, hlines⟩ := List.forall_mem_cons.mp whole
    rintro front back hsplit
    rw [written_cons] at hsplit
    rcases lineFeed_cut ha hsplit with rfl | ⟨front', hrest⟩
    · exact starts.1
    · exact ih hline hlines starts.2 front' back hrest

theorem readLines_written (start : atLineStart prev = true) (nonempty : line ≠ [])
    (hline : '\n' ∉ line) (whole : ∀ other ∈ lines, other ≠ [] ∧ '\n' ∉ other) :
    readLines f prev (line ++ written lines) = readWritten f (line :: lines) := by
  induction lines generalizing line prev with
  | nil =>
    obtain ⟨c, t, rfl⟩ := List.exists_cons_of_ne_nil nonempty
    obtain ⟨hc, ht⟩ := not_or.mp fun h => hline (List.mem_cons.mpr h)
    have hinside : readWithin f (some c) t [] = [] :=
      readWithin_of_not_mem (by simpa [atLineStart_some] using Ne.symm hc) ht
    rw [readLines_append, readWithin, if_pos start]
    simp [readWritten, written, hinside, readLines]
  | cons next lines ih =>
    obtain ⟨⟨hne, hnext⟩, hothers⟩ := List.forall_mem_cons.mp whole
    obtain ⟨c, t, rfl⟩ := List.exists_cons_of_ne_nil nonempty
    obtain ⟨hc, ht⟩ := not_or.mp fun h => hline (List.mem_cons.mpr h)
    have hinside : readWithin f (some c) t (written (next :: lines)) = [] :=
      readWithin_of_not_mem (by simpa [atLineStart_some] using Ne.symm hc) ht
    have hend := @not_atLineStart_before prev (c :: t) hline (List.cons_ne_nil c t)
    rw [readLines_append, readWithin, if_pos start, hinside, List.append_nil, readWritten,
      written_cons, readLines, hend, if_neg Bool.false_ne_true, List.nil_append,
      ih rfl hne hnext hothers]

end Written

/-- The DATA block as the model reads it: lines that the assembler began. -/
structure DataBlock (s : List Char) : Prop where
  first : OwnStart s
  lines : AtLines OwnStart s
  breaks : ∀ c ∈ s, isLineBreak c = true → c = '\n'

theorem tokens_single : ∀ entry ∈ redactionPatterns,
    (redactionToken entry.1).all (fun c => !isLineBreak c) = true := by
  decide

section Redacting

variable {table : UnicodeTable} {entry : String × Pattern} {s taken rest : List Char}
  {prev : Option Char}

theorem dataBlock_substituted (hentry : entry ∈ redactionPatterns) (h : DataBlock s) :
    DataBlock (substituted table entry s) := by
  have keeps := keeps_own table hentry
  have scan := @scan_pieces table.isWord entry.2 (redactionPatterns_nonempty entry hentry) s
  refine ⟨keeps.kind rfl h.first scan, atLines_replaced keeps scan h.lines, fun c hc hbreak => ?_⟩
  rcases mem_replaced scan hc with hc | hc
  · exact h.breaks c hc hbreak
  · have := List.all_eq_true.mp (tokens_single entry hentry) c hc
    simp [hbreak] at this

theorem bounded_kinds (h : entry ∈ boundedPatterns) :
    entry.2 ∈ wordPatterns ∨ entry.2 = bearerToken := by
  have listed : boundedPatterns = [("aws_access_key", awsAccessKey), ("jwt", jwt),
    ("database_url", databaseUrl), ("bearer_token", bearerToken), ("slack_token", slackToken),
    ("github_pat", githubPat), ("email", email)] := rfl
  rw [listed] at h
  simp only [List.mem_cons, List.not_mem_nil, or_false] at h
  rcases h with rfl | rfl | rfl | rfl | rfl | rfl | rfl <;> simp [wordPatterns]

theorem entryAt_ne_nil : entryAt s ≠ [] ↔ entryMark <+: s := by
  rw [entryAt, ← List.isPrefixOf_iff_prefix, Ne, ite_eq_right_iff]
  exact ⟨fun h => by_contra fun hnot => h fun hhead => absurd hhead hnot,
    fun h hnil => List.cons_ne_nil _ _ (hnil h)⟩

/-- A bearer token ends in more characters than an entry begins with. -/
theorem bearer_within (start : atLineStart prev = false)
    (h : (taken, rest) ∈ ends table.isWord bearerToken prev (taken ++ rest)) :
    readWithin entryAt prev taken rest = [] := by
  by_contra hread
  rcases readWithin_ne_nil hread with ⟨hstart, _⟩ | ⟨a, b, htaken, _, hentry⟩
  · rw [start] at hstart
    cases hstart
  obtain ⟨word, spaces, chars, hparts, _, hword, allSpaces, _, allChars, enough⟩ := match_bearer.mp h
  have noFeed : '\n' ∉ chars := fun hmem => absurd (allChars _ hmem) (by decide)
  rw [htaken, ← List.append_assoc] at hparts
  obtain ⟨b', hfront, rfl⟩ := split_before noFeed hparts
  obtain ⟨a', hspaces⟩ := lineFeed_right hfront (not_mem_of_avoids (by decide) hword)
  have hb : ∀ c ∈ b', isSpace c = true := fun c hc => allSpaces c (by simp [hspaces, hc])
  have hhead := entryAt_ne_nil.mp hentry
  rw [entryMark_chars] at hhead
  cases b' with
  | cons c b' =>
    obtain ⟨rfl, _⟩ := List.cons_prefix_cons.mp hhead
    exact absurd (hb _ List.mem_cons_self) (by decide)
  | nil =>
    cases chars with
    | nil => cases enough
    | cons c chars =>
      cases chars with
      | nil => simp at enough
      | cons d chars =>
        obtain ⟨_, hnext⟩ := List.cons_prefix_cons.mp hhead
        obtain ⟨rfl, _⟩ := List.cons_prefix_cons.mp hnext
        exact absurd (allChars ' ' (by simp)) (by decide)

theorem readLines_bounded (hentry : entry ∈ boundedPatterns) (h : DataBlock s) :
    readLines entryAt none (substituted table entry s) = readLines entryAt none s := by
  have keeps := keeps_own table (boundedPatterns_sub hentry)
  have scan := @scan_pieces table.isWord entry.2
    (redactionPatterns_nonempty entry (boundedPatterns_sub hentry)) s
  have within : ∀ {prev taken rest}, atLineStart prev = false →
      (taken, rest) ∈ ends table.isWord entry.2 prev (taken ++ rest) →
      (readWithin entryAt prev taken rest ≠ [] ↔ False) := by
    intro prev taken rest start hmatch
    refine iff_false_intro (not_not.mpr ?_)
    rcases bounded_kinds hentry with hword | hbearer
    · exact readWithin_of_not_mem start
        (not_mem_of_avoids (wordPatterns_shape entry.2 hword).2.2.1 hmatch)
    · rw [hbearer] at hmatch
      exact bearer_within start hmatch
  rw [substituted, readLines_replaced keeps scan h.lines fun _ _ => h.first]
  exact (readOutside_eq_iff keeps within scan h.lines fun _ _ => h.first).mpr fun _ _ => id

theorem substituteAll_block {entries : List (String × Pattern)} (sub : entries ⊆ boundedPatterns)
    (h : DataBlock s) (n : Nat) : DataBlock (substituteAll table entries (s, n)).1 ∧
      readLines entryAt none (substituteAll table entries (s, n)).1 = readLines entryAt none s := by
  induction entries generalizing s n with
  | nil => exact ⟨h, rfl⟩
  | cons entry entries ih =>
    have hentry := sub List.mem_cons_self
    obtain ⟨hblock, hread⟩ := ih (fun _ h => sub (List.mem_cons_of_mem _ h))
      (@dataBlock_substituted table _ _ (boundedPatterns_sub hentry) h)
      (n + (hits (pieces table.isWord entry.2 s)).length)
    rw [substituteAll_cons]
    exact ⟨hblock, hread.trans (readLines_bounded hentry h)⟩

theorem key_end (h : (taken, rest) ∈ ends table.isWord privateKey prev s) :
    ∃ front, taken = front ++ "PRIVATE KEY-----".toList := by
  obtain ⟨opening, t, later, _, hlater, rfl⟩ := mem_ends_seq.mp ((privateKey_parts _ _ _ _).mp h)
  obtain ⟨middle, t', closing, _, hclosing, rfl⟩ := mem_ends_seq.mp hlater
  obtain ⟨dashes, t'', label, _, hlabel, rfl⟩ := mem_ends_seq.mp hclosing
  obtain ⟨label', t₃, none_, hlabel, hnone, rfl⟩ := mem_ends_seq.mp hlabel
  obtain ⟨rfl, rfl⟩ := mem_ends_empty.mp hnone
  obtain ⟨kind, t₄, last, _, hlast, rfl⟩ := mem_ends_seq.mp hlabel
  obtain ⟨rfl, rfl⟩ := mem_ends_literal.mp hlast
  exact ⟨opening ++ (middle ++ (dashes ++ kind)), by simp⟩

/-- The match covers the beginning of an entry. -/
def CoversEntry (taken : List Char) : Prop := '\n' :: entryMark <:+: taken

theorem key_within (start : atLineStart prev = false)
    (h : (taken, rest) ∈ ends table.isWord privateKey prev (taken ++ rest)) :
    readWithin entryAt prev taken rest ≠ [] ↔ CoversEntry taken := by
  constructor
  · intro hread
    rcases readWithin_ne_nil hread with ⟨hstart, _⟩ | ⟨a, b, rfl, _, hentry⟩
    · rw [start] at hstart
      cases hstart
    obtain ⟨front, hend⟩ := key_end h
    obtain ⟨b', _, rfl⟩ := split_before (by decide) hend
    have hlong : entryMark.length ≤ (b' ++ "PRIVATE KEY-----".toList).length := by
      have : entryMark.length ≤ "PRIVATE KEY-----".toList.length := by decide
      rw [List.length_append]
      omega
    obtain ⟨after, hafter⟩ := List.prefix_of_prefix_length_le (entryAt_ne_nil.mp hentry)
      (List.prefix_append _ _) hlong
    exact ⟨a, after, by rw [← hafter, List.append_assoc, List.cons_append]⟩
  · rintro ⟨a, after, rfl⟩
    have hsplit : a ++ '\n' :: entryMark ++ after = a ++ '\n' :: (entryMark ++ after) := by simp
    rw [hsplit]
    refine readWithin_of_split (by simp [entryMark_chars]) (entryAt_ne_nil.mpr ?_)
    rw [List.append_assoc]
    exact List.prefix_append _ _

/-- The private keys that `redact` finds in a text. -/
def keyPieces (table : UnicodeTable) (text : String) : List Piece :=
  pieces table.isWord privateKey text.toList

/-- No private key that the redaction finds covers the beginning of an entry. -/
def KeepsEntries (table : UnicodeTable) (text : String) : Prop :=
  ∀ taken ∈ hits (keyPieces table text), ¬CoversEntry taken

theorem key_listed : ("private_key", privateKey) ∈ redactionPatterns := List.mem_cons_self

/-- What the redaction of a DATA block leaves: its entries are those outside the private keys. -/
theorem redact_block (table : UnicodeTable) {text : String} (h : DataBlock text.toList) :
    DataBlock (redact table text).text.toList ∧
      readLines entryAt none (redact table text).text.toList =
        readOutside entryAt none (keyPieces table text) := by
  have keeps := keeps_own table key_listed
  have scan := @scan_pieces table.isWord privateKey
    (redactionPatterns_nonempty _ key_listed) text.toList
  have hkey := readLines_replaced keeps scan h.lines fun _ _ => h.first
  obtain ⟨hblock, hread⟩ := substituteAll_block (fun _ h => h)
    (@dataBlock_substituted table _ _ key_listed h)
    (0 + (hits (pieces table.isWord privateKey text.toList)).length)
  have order : redactionPatterns = ("private_key", privateKey) :: boundedPatterns := rfl
  have hfirst : substitute table ("private_key", privateKey) (text.toList, 0) =
      (substituted table ("private_key", privateKey) text.toList,
        0 + (hits (pieces table.isWord privateKey text.toList)).length) := rfl
  have hredact : (redact table text).text.toList = (substituteAll table boundedPatterns
      (substitute table ("private_key", privateKey) (text.toList, 0))).1 := by
    rw [redact_eq_substituteAll, String.toList_ofList, order, substituteAll_cons]
  rw [hredact, hfirst]
  exact ⟨hblock, hread.trans hkey⟩

theorem keepsEntries_iff (table : UnicodeTable) {text : String} (h : DataBlock text.toList) :
    KeepsEntries table text ↔
      readOutside entryAt none (keyPieces table text) = readLines entryAt none text.toList := by
  have keeps := keeps_own table key_listed
  have scan := @scan_pieces table.isWord privateKey
    (redactionPatterns_nonempty _ key_listed) text.toList
  exact (readOutside_eq_iff keeps key_within scan h.lines fun _ _ => h.first).symm

end Redacting

/-- The fields that `assemble_rca_prompt` writes as they are have no line breaks. -/
structure SingleFields (incidentId service scenario : String) (pack : List EvidencePackItem) :
    Prop where
  incidentId : SingleLine incidentId.toList
  service : SingleLine service.toList
  scenario : SingleLine scenario.toList
  sources : ∀ item ∈ pack, SingleLine item.source.toList

section Block

variable {redact : String → RedactionResult} {incidentId service scenario : String}
  {pack : List EvidencePackItem} {item : EvidencePackItem} {lines : List (List Char)}

/-- The lines of a pack item as characters. -/
def itemLines (redact : String → RedactionResult) (item : EvidencePackItem) : List (List Char) :=
  (packLines redact item).map String.toList

def excerptLine (redact : String → RedactionResult) (item : EvidencePackItem) : List Char :=
  "  excerpt: ".toList ++ (quoteUntrusted (excerptOf redact item.excerpt)).toList

/-- The line of the citation, which an item without one does not have. -/
def citationLines (item : EvidencePackItem) : List (List Char) :=
  if item.citation.isEmpty then [] else
    ["  citation: ".toList ++ (Value.obj item.citation).dumps.toList]

theorem itemLines_eq : itemLines redact item =
    entryLine item.evidenceId :: ("  source: ".toList ++ item.source.toList) ::
      "  label: UNTRUSTED_DOCUMENT".toList :: excerptLine redact item :: citationLines item := by
  unfold itemLines packLines citationLines excerptLine entryLine
  split <;> simp [String.toList_append]

theorem startsWritten_cons {P : List Char → Prop} {line : List Char} :
    StartsWritten P (line :: lines) ↔ P (line ++ written lines) ∧ StartsWritten P lines := Iff.rfl

theorem readWritten_cons {Item : Type} {f : List Char → List Item} {line : List Char} :
    readWritten f (line :: lines) = f (line ++ written lines) ++ readWritten f lines := rfl

theorem ownStart_plain (plain : String) (h : plain ∈ plainTexts) (value rest : List Char) :
    OwnStart (plain.toList ++ value ++ rest) := by
  rw [List.append_assoc]
  exact ⟨plain.toList, value ++ rest, .inr ⟨plain, h, rfl⟩, rfl⟩

theorem ownStart_closed (plain : String) (h : plain ++ "\n" ∈ plainTexts) (line : List Char) :
    OwnStart (plain.toList ++ written (line :: lines)) := by
  refine ⟨(plain ++ "\n").toList, line ++ written lines, .inr ⟨_, h, rfl⟩, ?_⟩
  rw [written_cons, String.toList_append, List.append_assoc]
  rfl

theorem ownStart_entry (id : Uuid) (line : List Char) :
    OwnStart (entryLine id ++ written (line :: lines)) := by
  refine ⟨entryLine id ++ ['\n'], line ++ written lines, .inl ⟨id, rfl⟩, ?_⟩
  rw [written_cons, List.append_assoc]
  rfl

theorem entryAt_field (plain : String) (h : plain ∈ plainTexts) (value rest : List Char) :
    entryAt (plain.toList ++ value ++ rest) = [] := by
  rw [List.append_assoc, entryAt_plain plain h]

theorem entryAt_closed (plain : String) (h : plain ++ "\n" ∈ plainTexts) (line : List Char) :
    entryAt (plain.toList ++ written (line :: lines)) = [] := by
  have hclosed : plain.toList ++ written (line :: lines) =
      (plain ++ "\n").toList ++ (line ++ written lines) := by
    rw [written_cons, String.toList_append, List.append_assoc]
    rfl
  rw [hclosed, entryAt_plain _ h]

theorem starts_citation (item : EvidencePackItem) (h : StartsWritten OwnStart lines) :
    StartsWritten OwnStart (citationLines item ++ lines) := by
  unfold citationLines
  split
  · exact h
  · exact startsWritten_cons.mpr ⟨ownStart_plain "  citation: " (by decide) _ _, h⟩

theorem starts_item (h : StartsWritten OwnStart lines) :
    StartsWritten OwnStart (itemLines redact item ++ lines) := by
  rw [itemLines_eq, List.cons_append, List.cons_append, List.cons_append, List.cons_append]
  refine startsWritten_cons.mpr ⟨ownStart_entry _ _, startsWritten_cons.mpr
    ⟨ownStart_plain "  source: " (by decide) _ _, startsWritten_cons.mpr
      ⟨ownStart_closed "  label: UNTRUSTED_DOCUMENT" (by decide) _, startsWritten_cons.mpr
        ⟨?_, starts_citation item h⟩⟩⟩⟩
  exact ownStart_plain "  excerpt: " (by decide) _ _

theorem starts_pack (pack : List EvidencePackItem) :
    StartsWritten OwnStart (pack.flatMap (itemLines redact)) := by
  induction pack with
  | nil => trivial
  | cons item pack ih =>
    rw [List.flatMap_cons]
    exact starts_item ih

theorem readWritten_citation (item : EvidencePackItem) :
    readWritten entryAt (citationLines item ++ lines) = readWritten entryAt lines := by
  unfold citationLines
  split
  · rfl
  · rw [List.singleton_append, readWritten_cons, entryAt_field "  citation: " (by decide),
      List.nil_append]

theorem entryAt_excerpt (item : EvidencePackItem) (rest : List Char) :
    entryAt (excerptLine redact item ++ rest) = [] :=
  entryAt_field "  excerpt: " (by decide) _ rest

theorem readWritten_item : readWritten entryAt (itemLines redact item ++ lines) =
    entryLine item.evidenceId :: readWritten entryAt lines := by
  rw [itemLines_eq, List.cons_append, List.cons_append, List.cons_append, List.cons_append,
    readWritten_cons, entryAt_entry, readWritten_cons, entryAt_field "  source: " (by decide),
    readWritten_cons, entryAt_closed "  label: UNTRUSTED_DOCUMENT" (by decide), readWritten_cons,
    entryAt_excerpt, readWritten_citation]
  rfl

/-- The entries of a pack are read in its order. -/
theorem readWritten_pack (pack : List EvidencePackItem) :
    readWritten entryAt (pack.flatMap (itemLines redact)) =
      pack.map fun item => entryLine item.evidenceId := by
  induction pack with
  | nil => rfl
  | cons item pack ih => rw [List.flatMap_cons, readWritten_item, ih, List.map_cons]

/-- The lines of the DATA block below the first. -/
def blockLines (redact : String → RedactionResult) (incidentId service scenario : String)
    (pack : List EvidencePackItem) : List (List Char) :=
  ("incident_id: ".toList ++ incidentId.toList) :: ("service: ".toList ++ service.toList) ::
    ("scenario: ".toList ++ scenario.toList) :: "evidence:".toList ::
    pack.flatMap (itemLines redact)

/-- The DATA block before its redaction. -/
def blockText (redact : String → RedactionResult) (incidentId service scenario : String)
    (pack : List EvidencePackItem) : String :=
  String.intercalate "\n" (promptLines redact incidentId service scenario pack)

theorem blockText_toList : (blockText redact incidentId service scenario pack).toList =
    "DATA".toList ++ written (blockLines redact incidentId service scenario pack) := by
  have lines : promptLines redact incidentId service scenario pack = "DATA" ::
      (["incident_id: " ++ incidentId, "service: " ++ service, "scenario: " ++ scenario,
        "evidence:"] ++ pack.flatMap (packLines redact)) := rfl
  rw [blockText, lines, intercalate_written, List.map_append, List.map_flatMap]
  simp only [List.map_cons, List.map_nil, String.toList_append, List.cons_append, List.nil_append]
  rfl

theorem singleLine_field {plain : String} {text : List Char} (nonempty : plain.toList ≠ [])
    (single : plain.toList.all (fun c => !isLineBreak c) = true) (h : SingleLine text) :
    plain.toList ++ text ≠ [] ∧ SingleLine (plain.toList ++ text) :=
  ⟨List.append_ne_nil_of_left_ne_nil nonempty _, singleLine_append.mpr ⟨singleLine_text _ single, h⟩⟩

theorem singleLine_item (h : SingleLine item.source.toList) :
    ∀ line ∈ itemLines redact item, line ≠ [] ∧ SingleLine line := by
  rw [itemLines_eq]
  refine List.forall_mem_cons.mpr ⟨singleLine_field (by decide) (by decide) (singleLine_uuid _),
    List.forall_mem_cons.mpr ⟨singleLine_field (by decide) (by decide) h, List.forall_mem_cons.mpr
      ⟨⟨by decide, singleLine_text _ (by decide)⟩, List.forall_mem_cons.mpr
        ⟨singleLine_field (by decide) (by decide) (singleLine_quote _), ?_⟩⟩⟩⟩
  unfold citationLines
  split
  · simp
  · exact List.forall_mem_singleton.mpr (singleLine_field (by decide) (by decide) (singleLine_dumps _))

theorem singleLine_block (h : SingleFields incidentId service scenario pack) :
    ∀ line ∈ blockLines redact incidentId service scenario pack, line ≠ [] ∧ SingleLine line := by
  refine List.forall_mem_cons.mpr ⟨singleLine_field (by decide) (by decide) h.incidentId,
    List.forall_mem_cons.mpr ⟨singleLine_field (by decide) (by decide) h.service, List.forall_mem_cons.mpr
      ⟨singleLine_field (by decide) (by decide) h.scenario, List.forall_mem_cons.mpr
        ⟨⟨by decide, singleLine_text _ (by decide)⟩, fun line hline => ?_⟩⟩⟩⟩
  obtain ⟨item, hitem, hline⟩ := List.mem_flatMap.mp hline
  exact singleLine_item (h.sources item hitem) line hline

theorem block_own (h : SingleFields incidentId service scenario pack) (nonempty : pack ≠ []) :
    DataBlock (blockText redact incidentId service scenario pack).toList ∧
      readLines entryAt none (blockText redact incidentId service scenario pack).toList =
        pack.map fun item => entryLine item.evidenceId := by
  have single := @singleLine_block redact _ _ _ _ h
  have whole : ∀ line ∈ blockLines redact incidentId service scenario pack,
      line ≠ [] ∧ '\n' ∉ line := fun line hline =>
    ⟨(single line hline).1, (single line hline).2.noLineFeed⟩
  obtain ⟨item, others, rfl⟩ := List.exists_cons_of_ne_nil nonempty
  have below : ∃ line more, (item :: others).flatMap (itemLines redact) = line :: more := by
    rw [List.flatMap_cons, itemLines_eq]
    exact ⟨_, _, List.cons_append⟩
  have hpack := @starts_pack redact (item :: others)
  have hread := @readWritten_pack redact (item :: others)
  unfold blockLines at single whole
  rw [blockText_toList, blockLines]
  obtain ⟨line, more, hmore⟩ := below
  rw [hmore] at hpack hread single whole ⊢
  have fromEvidence := startsWritten_cons.mpr ⟨ownStart_closed "evidence:" (by decide) line, hpack⟩
  have fromScenario := startsWritten_cons.mpr
    ⟨ownStart_plain "scenario: " (by decide) scenario.toList _, fromEvidence⟩
  have fromService := startsWritten_cons.mpr
    ⟨ownStart_plain "service: " (by decide) service.toList _, fromScenario⟩
  have starts := startsWritten_cons.mpr
    ⟨ownStart_plain "incident_id: " (by decide) incidentId.toList _, fromService⟩
  refine ⟨⟨ownStart_closed "DATA" (by decide) _, atLines_written (by decide)
    (fun line h => (whole line h).2) starts, fun c hc hbreak => ?_⟩, ?_⟩
  · rcases List.mem_append.mp hc with hc | hc
    · rw [singleLine_text "DATA" (by decide) c hc] at hbreak
      cases hbreak
    · obtain ⟨line, hline, hc⟩ := List.mem_flatMap.mp hc
      rcases List.mem_cons.mp hc with rfl | hc
      · rfl
      · rw [(single line hline).2 c hc] at hbreak
        cases hbreak
  · rw [readLines_written rfl (by decide) (by decide) whole, readWritten_cons,
      entryAt_closed "DATA" (by decide), readWritten_cons, entryAt_field "incident_id: " (by decide),
      readWritten_cons, entryAt_field "service: " (by decide), readWritten_cons,
      entryAt_field "scenario: " (by decide), readWritten_cons,
      entryAt_closed "evidence:" (by decide), hread]
    rfl

end Block

end Aegis
