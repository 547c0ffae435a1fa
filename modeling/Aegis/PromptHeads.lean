import Aegis.PlainText
import Aegis.Rca
import Aegis.RegexContext

namespace Aegis

open Regex Pattern

/-- A known text as the sets of the characters that may stand at its positions. -/
def exactly (s : String) : List (List Char) := s.toList.map fun c => [c]

/-- The texts with which `assemble_rca_prompt` begins a line that names no evidence. -/
def plainTexts : List String :=
  ["DATA\n", "incident_id: ", "service: ", "scenario: ", "evidence:\n", "  source: ",
    "  label: UNTRUSTED_DOCUMENT\n", "  excerpt: ", "  citation: "]

/-- The beginning of the line of an entry, where `str` of a UUID is read as hexadecimal digits and
hyphens. -/
def idHead : List (List Char) :=
  exactly "- id: " ++ List.replicate 36 ('-' :: hexDigits) ++ [['\n']]

def heads : List (List (List Char)) := idHead :: plainTexts.map exactly

/-- No redaction begins inside the beginning of a line. -/
theorem heads_quiet : ∀ entry ∈ redactionPatterns, ∀ sets ∈ heads,
    quiet asciiWord entry.2 [none, some '\n'] sets = true := by
  decide +kernel

/-- How the line of an entry begins. -/
def entryMark : List Char := "- id:".toList

theorem entryMark_chars : entryMark = ['-', ' ', 'i', 'd', ':'] := by decide

/-- The line that names the evidence of a pack item. -/
def entryLine (id : Uuid) : List Char := "- id: ".toList ++ id.str.toList

/-- A text with which `assemble_rca_prompt` begins a line, up to what it writes from elsewhere. -/
def IsHead (known : List Char) : Prop :=
  (∃ id, known = entryLine id ++ ['\n']) ∨ ∃ plain ∈ plainTexts, known = plain.toList

/-- The text begins with a line of the assembler's own. -/
def OwnStart (s : List Char) : Prop := ∃ known rest, IsHead known ∧ s = known ++ rest

/-- The entry of the evidence at the beginning of a text. -/
def entryAt (s : List Char) : List (List Char) :=
  if entryMark.isPrefixOf s then [s.take 42] else []

theorem uuid_length (id : Uuid) : id.str.toList.length = 36 := by
  rw [Uuid.str, String.toList_ofList]
  simp

theorem entryLine_length (id : Uuid) : (entryLine id).length = 42 := by
  unfold entryLine
  rw [List.length_append, uuid_length]
  rfl

section Heads

variable {table : UnicodeTable} {known rest : List Char} {entry : String × Pattern}

/-- Word classes agree on ASCII texts. -/
theorem agree_of_ascii (table : UnicodeTable) {text : List Char}
    (ascii : text.all (fun c => c.toNat < 128) = true) :
    ∀ c ∈ text, table.isWord c = asciiWord c := by
  intro c hc
  have := List.all_eq_true.mp ascii c hc
  exact isWord_eq table (by simpa using this)

theorem plain_ascii : ∀ plain ∈ plainTexts, plain.toList.all (fun c => c.toNat < 128) = true := by
  decide

attribute [local irreducible] Fits in
theorem id_fits (table : UnicodeTable) (id : Uuid) (rest : List Char) :
    Fits table.isWord asciiWord idHead (entryLine id ++ ['\n'] ++ rest) := by
  have hid := fits_class (uuid_length id) (uuid_chars id)
    (@agree_of_ascii table ('-' :: hexDigits) (by decide))
  have lead := fits_self (@agree_of_ascii table "- id: ".toList (by decide)) []
  have close := fits_self (@agree_of_ascii table ['\n'] (by decide)) rest
  rw [List.append_nil] at lead
  unfold entryLine idHead
  rw [List.append_assoc, List.append_assoc]
  rw [List.append_assoc]
  exact fits_append (by simp [exactly]) lead (fits_append (by simp [uuid_length]) hid close)

theorem plain_fits (table : UnicodeTable) {plain : String} (h : plain ∈ plainTexts)
    (rest : List Char) : Fits table.isWord asciiWord (exactly plain) (plain.toList ++ rest) :=
  fits_self (agree_of_ascii table (plain_ascii plain h)) rest

theorem holds_atStart {prev : Option Char} {sets : List (List Char)} {s : List Char}
    (start : atLineStart prev = true) (fits : Fits table.isWord asciiWord sets s) :
    Known.Holds table.isWord asciiWord ⟨[none, some '\n'], sets⟩ prev s := by
  refine ⟨?_, ?_, fits⟩
  · cases prev with
    | none => simp
    | some c =>
      rw [atLineStart_some, decide_eq_true_eq] at start
      simp [start]
  · rintro c rfl
    rw [atLineStart_some, decide_eq_true_eq] at start
    rw [start]
    exact isWord_eq table (by decide)

theorem head_fits (table : UnicodeTable) (h : IsHead known) : ∃ sets ∈ heads,
    known.length = sets.length ∧ ∀ rest, Fits table.isWord asciiWord sets (known ++ rest) := by
  rcases h with ⟨id, rfl⟩ | ⟨plain, hplain, rfl⟩
  · refine ⟨idHead, List.mem_cons_self, ?_, id_fits table id⟩
    rw [List.length_append, entryLine_length]
    rfl
  · exact ⟨exactly plain, List.mem_cons_of_mem _ (List.mem_map_of_mem hplain), by simp [exactly],
      plain_fits table hplain⟩

theorem heads_nonempty : ∀ sets ∈ heads, sets ≠ [] := by
  decide

theorem patterns_end : ∀ entry ∈ redactionPatterns, entry.2.endAvoids '\n' = true := by
  decide

theorem token_line : ∀ entry ∈ redactionPatterns,
    redactionToken entry.1 ≠ [] ∧ '\n' ∉ redactionToken entry.1 := by
  decide

theorem plain_not_entry : ∀ plain ∈ plainTexts,
    5 ≤ plain.toList.length ∧ plain.toList.take 5 ≠ entryMark := by
  decide

theorem entryMark_line (id : Uuid) : entryMark <+: entryLine id := by
  have lead : "- id: ".toList = entryMark ++ [' '] := by decide
  unfold entryLine
  rw [lead, List.append_assoc]
  exact List.prefix_append _ _

theorem entryAt_entry (id : Uuid) (rest : List Char) :
    entryAt (entryLine id ++ rest) = [entryLine id] := by
  have hhead : entryMark.isPrefixOf (entryLine id ++ rest) = true := by
    rw [List.isPrefixOf_iff_prefix]
    exact (entryMark_line id).trans (List.prefix_append _ _)
  rw [entryAt, if_pos hhead, List.take_left' (entryLine_length id)]

theorem entryAt_plain (plain : String) (hplain : plain ∈ plainTexts) (rest : List Char) :
    entryAt (plain.toList ++ rest) = [] := by
  obtain ⟨long, differs⟩ := plain_not_entry plain hplain
  rw [entryAt, if_neg]
  intro hhead
  have htake := List.prefix_iff_eq_take.mp (List.isPrefixOf_iff_prefix.mp hhead)
  have five : entryMark.length = 5 := by decide
  rw [five, List.take_append_of_le_length long] at htake
  exact differs htake.symm

theorem entryAt_head (h : IsHead known) (rest other : List Char) :
    entryAt (known ++ rest) = entryAt (known ++ other) := by
  rcases h with ⟨id, rfl⟩ | ⟨plain, hplain, rfl⟩
  · rw [List.append_assoc, List.append_assoc, entryAt_entry, entryAt_entry]
  · rw [entryAt_plain plain hplain, entryAt_plain plain hplain]

theorem head_replaced (hentry : entry ∈ redactionPatterns) (h : IsHead known) {prev : Option Char}
    {cut : List Piece} (start : atLineStart prev = true)
    (scan : Scan table.isWord entry.2 prev (known ++ rest) cut) :
    ∃ later, replaced (redactionToken entry.1) cut = known ++ later := by
  obtain ⟨sets, hsets, length, fits⟩ := head_fits table h
  obtain ⟨later, rfl, _⟩ := scan_quiet (heads_quiet entry hentry sets hsets) length
    (holds_atStart start (fits rest)) scan
  refine ⟨replaced (redactionToken entry.1) later, ?_⟩
  simp [replaced, List.flatMap_append, List.flatMap_map, Piece.render]

/-- The redactions leave the beginnings of the assembler's lines alone. -/
theorem keeps_own (table : UnicodeTable) (hentry : entry ∈ redactionPatterns) :
    KeepsLines table.isWord entry.2 (redactionToken entry.1) OwnStart entryAt where
  marked := (token_line entry hentry).1
  oneLine := (token_line entry hentry).2
  calm := by
    rintro prev s start ⟨known, rest, hhead, rfl⟩
    obtain ⟨sets, hsets, _, fits⟩ := head_fits table hhead
    have calm := heads_quiet entry hentry sets hsets
    obtain ⟨set, sets, rfl⟩ := List.exists_cons_of_ne_nil (heads_nonempty sets hsets)
    obtain ⟨hnone, _⟩ := Bool.and_eq_true_iff.mp calm
    exact ends_eq_nil hnone (holds_atStart start (fits rest))
  kind := by
    rintro prev s cut start ⟨known, rest, hhead, rfl⟩ scan
    obtain ⟨later, hbegin⟩ := head_replaced hentry hhead start scan
    exact ⟨known, later, hhead, hbegin⟩
  read := by
    rintro prev s cut start ⟨known, rest, hhead, rfl⟩ scan
    obtain ⟨later, hbegin⟩ := head_replaced hentry hhead start scan
    rw [hbegin]
    exact entryAt_head hhead _ _
  ending := by
    rintro prev taken rest hmatch
    obtain ⟨m, x, rfl, hx⟩ := exists_last (patterns_end entry hentry) hmatch
    rw [before_concat, atLineStart_some]
    simpa using hx

end Heads

end Aegis
