import Aegis.DirectiveLines
import Aegis.SecretLines

namespace Aegis

open Regex Pattern

section Spaces

variable {r : Pattern} {a b s : List Char} {c : Char}

/-- A table in which no white space is a letter or a digit. -/
structure SpacedTable extends UnicodeTable where
  spaces : ∀ c, isSpace c = true → isAlnum c = false

/-- The table for ASCII text. -/
def asciiSpaced : SpacedTable where
  toUnicodeTable := asciiTable
  spaces c h := by
    change c.isAlphanum = false
    cases halnum : c.isAlphanum with
    | false => rfl
    | true =>
      rw [isSpace_of_isAlphanum halnum] at h
      cases h

theorem isWord_space (table : SpacedTable) (h : isSpace c = true) : table.isWord c = false := by
  have hne : c ≠ '_' := by
    rintro rfl
    exact absurd h (by decide)
  rw [UnicodeTable.isWord, table.spaces c h, decide_eq_false hne]
  rfl

def spaceCodes : List Nat :=
  [9, 10, 11, 12, 13, 28, 29, 30, 31, 32, 0x85, 0xa0, 0x1680, 0x2000, 0x2001, 0x2002, 0x2003,
    0x2004, 0x2005, 0x2006, 0x2007, 0x2008, 0x2009, 0x200a, 0x2028, 0x2029, 0x202f, 0x205f, 0x3000]

theorem isSpace_mem (h : isSpace c = true) : c ∈ spaceCodes.map Char.ofNat := by
  have hcode : c.toNat ∈ spaceCodes := by
    simp only [isSpace, Bool.or_eq_true, Bool.and_eq_true, decide_eq_true_eq, beq_iff_eq] at h
    simp only [spaceCodes, List.mem_cons, List.not_mem_nil, or_false]
    omega
  exact List.mem_map.mpr ⟨c.toNat, hcode, Char.ofNat_toNat c⟩

theorem avoids_space (h : isSpace c = true) :
    (∀ r ∈ wordPatterns, r.avoids c = true) ∧ bearerWord.avoids c = true := by
  have hall : ((spaceCodes.map Char.ofNat).all fun c =>
      (wordPatterns.all fun r => r.avoids c) && bearerWord.avoids c) = true := by decide +kernel
  obtain ⟨hwords, hbearer⟩ := Bool.and_eq_true_iff.mp (List.all_eq_true.mp hall c (isSpace_mem h))
  exact ⟨List.all_eq_true.mp hwords, hbearer⟩

theorem noWord_cut (table : SpacedTable) (hr : r ∈ wordPatterns) (hc : isSpace c = true) :
    NoMatch table.isWord r (a ++ c :: b) ↔
      NoMatch table.isWord r a ∧ NoMatch table.isWord r b := by
  obtain ⟨lines, nonempty, _⟩ := wordPatterns_shape r hr
  exact noMatch_split lines nonempty (isWord_space table hc) ((avoids_space hc).1 r hr)

theorem noBearer_space (table : SpacedTable) (hc : isSpace c = true) :
    NoMatch table.isWord bearerToken (a ++ c :: b) ↔ NoMatch table.isWord bearerToken a ∧
      NoMatch table.isWord bearerToken b ∧ (EndsInBearer table.toUnicodeTable a → StopsBearer b) :=
  noBearer_cut_iff hc (isWord_space table hc) (avoids_space hc).2

/-- What holds of a text whatever white space it ends in holds of the stripped text. -/
theorem strip_iff {p : List Char → Prop} (text : String)
    (head : ∀ c s, isSpace c = true → (p (c :: s) ↔ p s))
    (last : ∀ s c, isSpace c = true → (p (s ++ [c]) ↔ p s)) :
    p (strip text).toList ↔ p text.toList := by
  have front : ∀ spaces s, (∀ c ∈ spaces, isSpace c = true) → (p (spaces ++ s) ↔ p s) := by
    intro spaces s h
    induction spaces with
    | nil => rfl
    | cons c spaces ih =>
      obtain ⟨hc, hothers⟩ := List.forall_mem_cons.mp h
      exact (head c _ hc).trans (ih hothers)
  have back : ∀ spaces s, (∀ c ∈ spaces, isSpace c = true) → (p (s ++ spaces) ↔ p s) := by
    intro spaces s h
    induction spaces generalizing s with
    | nil => rw [List.append_nil]
    | cons c spaces ih =>
      obtain ⟨hc, hothers⟩ := List.forall_mem_cons.mp h
      rw [← List.singleton_append, ← List.append_assoc, ih _ hothers, last s c hc]
  have whole : text.toList = text.toList.takeWhile isSpace ++ ((strip text).toList ++
      (text.toList.dropWhile isSpace).rtakeWhile isSpace) := by
    rw [strip, String.toList_ofList, List.rdropWhile_append_rtakeWhile,
      List.takeWhile_append_dropWhile]
  rw [whole, front _ _ fun c hc => List.mem_takeWhile_imp hc,
    back _ _ fun c hc => List.mem_rtakeWhile_imp hc]

theorem noWord_strip (table : SpacedTable) (hr : r ∈ wordPatterns) (text : String) :
    NoMatch table.isWord r (strip text).toList ↔ NoMatch table.isWord r text.toList := by
  have hnil : NoMatch table.isWord r [] := noMatch_nil (wordPatterns_shape r hr).2.1
  refine @strip_iff (NoMatch table.isWord r) text (fun c s hc => ?_) fun s c hc => ?_
  · rw [← List.nil_append (c :: s), noWord_cut table hr hc]
    exact ⟨fun h => h.2, fun h => ⟨hnil, h⟩⟩
  · rw [noWord_cut table hr hc]
    exact ⟨fun h => h.1, fun h => ⟨h, hnil⟩⟩

theorem noBearer_strip (table : SpacedTable) (text : String) :
    NoMatch table.isWord bearerToken (strip text).toList ↔
      NoMatch table.isWord bearerToken text.toList := by
  have hnil : NoMatch table.isWord bearerToken [] := noMatch_nil (by decide)
  have hword : ¬EndsInBearer table.toUnicodeTable [] :=
    not_endsInBearer (noMatch_nil (by decide))
  refine @strip_iff (NoMatch table.isWord bearerToken) text (fun c s hc => ?_) fun s c hc => ?_
  · rw [← List.nil_append (c :: s), noBearer_space table hc]
    exact ⟨fun h => h.2.1, fun h => ⟨hnil, h, fun ended => absurd ended hword⟩⟩
  · rw [noBearer_space table hc]
    exact ⟨fun h => h.1, fun h => ⟨h, hnil, fun _ => stopsBearer_nil⟩⟩

theorem strip_part (text : String) : (strip text).toList <:+: text.toList := by
  rw [strip, String.toList_ofList]
  exact (List.rdropWhile_prefix isSpace _).isInfix.trans (List.dropWhile_suffix isSpace).isInfix

end Spaces

section Lines

variable {r : Pattern} {c : Char}

theorem splitLinesFrom_parts {p : List Char → Prop}
    (cut : ∀ a c b, isLineBreak c = true → p (a ++ c :: b) → p a ∧ p b) (text part : List Char)
    (h : p (part.reverse ++ text)) : ∀ line ∈ splitLinesFrom text part, p line.toList := by
  induction text, part using splitLinesFrom.induct with
  | case1 => simp [splitLinesFrom]
  | case2 part hne =>
    rw [splitLinesFrom]
    · rw [List.append_nil] at h
      exact List.forall_mem_singleton.mpr (by rwa [String.toList_ofList])
    · exact hne
  | case3 rest part ih =>
    obtain ⟨hfirst, hrest⟩ := cut _ _ _ (by decide) h
    rw [splitLinesFrom]
    refine List.forall_mem_cons.mpr ⟨by rwa [String.toList_ofList], ih ?_⟩
    exact (cut [] '\n' rest (by decide) hrest).2
  | case4 c rest part hne hbreak ih =>
    obtain ⟨hfirst, hrest⟩ := cut _ _ _ hbreak h
    rw [splitLinesFrom, if_pos hbreak]
    · exact List.forall_mem_cons.mpr ⟨by rwa [String.toList_ofList], ih hrest⟩
    · exact hne
  | case5 c rest part hne hbreak ih =>
    rw [splitLinesFrom, if_neg hbreak]
    · refine ih ?_
      rwa [List.reverse_cons, List.append_assoc]
    · exact hne

theorem splitLinesFrom_infix (text part : List Char) :
    ∀ line ∈ splitLinesFrom text part, line.toList <:+: part.reverse ++ text := by
  refine @splitLinesFrom_parts (fun s => s <:+: part.reverse ++ text) (fun a c b _ h => ?_) text part
    (List.infix_refl _)
  exact ⟨List.IsInfix.trans List.infix_append_left h,
    List.IsInfix.trans (List.infix_append_of_infix_right (List.infix_cons (List.infix_refl b))) h⟩

theorem keyApart_splitLinesFrom {table : UnicodeTable} (text part : List Char)
    (h : NoMatch table.isWord privateKey (part.reverse ++ text)) :
    (splitLinesFrom text part).Pairwise fun line other => KeyApart line.toList other.toList := by
  have first : ∀ part rest : List Char, NoMatch table.isWord privateKey (part.reverse ++ rest) →
      ∀ later, later <:+: rest → ∀ other ∈ splitLinesFrom later [],
        KeyApart (String.ofList part.reverse).toList other.toList := by
    rintro part rest h later hlater other hother ⟨hopen, hclose⟩
    rw [String.toList_ofList] at hopen
    have hpart := splitLinesFrom_infix later [] other hother
    exact noKey_iff.mp h _ _ rfl hopen (hclose.mono (hpart.trans hlater))
  induction text, part using splitLinesFrom.induct with
  | case1 => simp [splitLinesFrom]
  | case2 part hne =>
    rw [splitLinesFrom]
    · exact List.pairwise_singleton _ _
    · exact hne
  | case3 rest part ih =>
    have hsub : rest <:+: '\r' :: '\n' :: rest := (List.suffix_append ['\r', '\n'] rest).isInfix
    rw [splitLinesFrom]
    refine List.pairwise_cons.mpr ⟨first part _ h rest hsub, ih ?_⟩
    exact noKey_part (List.infix_append_of_infix_right hsub) h
  | case4 c rest part hne hbreak ih =>
    have hsub : rest <:+: c :: rest := List.infix_cons (List.infix_refl rest)
    rw [splitLinesFrom, if_pos hbreak]
    · refine List.pairwise_cons.mpr ⟨first part _ h rest hsub, ih ?_⟩
      exact noKey_part (List.infix_append_of_infix_right hsub) h
    · exact hne
  | case5 c rest part hne hbreak ih =>
    rw [splitLinesFrom, if_neg hbreak]
    · refine ih ?_
      rwa [List.reverse_cons, List.append_assoc]
    · exact hne

theorem joined_splitLinesFrom (text part : List Char)
    (breaks : ∀ c ∈ text, isLineBreak c = true → c = '\n') (last : text.getLast? ≠ some '\n') :
    (String.intercalate "\n" (splitLinesFrom text part)).toList = part.reverse ++ text := by
  induction text, part using splitLinesFrom.induct with
  | case1 => rfl
  | case2 part hne =>
    rw [splitLinesFrom]
    · simp
    · exact hne
  | case3 rest part ih => exact absurd (breaks '\r' List.mem_cons_self (by decide)) (by decide)
  | case4 c rest part hne hbreak ih =>
    obtain rfl := breaks c List.mem_cons_self hbreak
    cases rest with
    | nil => exact absurd rfl last
    | cons d rest =>
      have hrest := ih (fun c hc => breaks c (List.mem_cons_of_mem _ hc))
        (by rwa [List.getLast?_cons_cons] at last)
      rw [splitLinesFrom, if_pos hbreak]
      · cases hlines : splitLinesFrom (d :: rest) [] with
        | nil =>
          rw [hlines] at hrest
          cases hrest
        | cons line lines =>
          rw [hlines] at hrest
          rw [String.intercalate_cons_cons, String.toList_append, String.toList_append, hrest]
          simp
      · exact hne
  | case5 c rest part hne hbreak ih =>
    have hlast : rest.getLast? ≠ some '\n' := by
      cases rest with
      | nil => simp
      | cons d rest => rwa [List.getLast?_cons_cons] at last
    rw [splitLinesFrom, if_neg hbreak, ih (fun c hc => breaks c (List.mem_cons_of_mem _ hc)) hlast]
    · simp
    · exact hne

end Lines

section Neutral

variable {table : SpacedTable} {lines : List String} {text : String}

theorem noWord_joined {r : Pattern} (hr : r ∈ wordPatterns) (lines : List String) :
    NoMatch table.isWord r (String.intercalate "\n" lines).toList ↔
      ∀ line ∈ lines, NoMatch table.isWord r line.toList := by
  obtain ⟨free, nonempty, avoids, _⟩ := wordPatterns_shape r hr
  cases lines with
  | nil => exact ⟨fun _ => by simp, fun _ => noMatch_nil nonempty⟩
  | cons line lines =>
    rw [intercalate_written, noMatch_written free nonempty avoids, ← List.map_cons,
      List.forall_mem_map]

theorem noBearer_joined (lines : List String) :
    NoMatch table.isWord bearerToken (String.intercalate "\n" lines).toList ↔
      (∀ line ∈ lines, NoMatch table.isWord bearerToken line.toList) ∧
        BearersStop table.toUnicodeTable (lines.map String.toList) := by
  cases lines with
  | nil =>
    refine ⟨fun _ => ⟨by simp, ?_⟩, fun _ => noMatch_nil (by decide)⟩
    intro front line middle next back heq
    exact absurd heq (by simp)
  | cons line lines =>
    rw [intercalate_written, noBearer_written_iff, ← List.map_cons, List.forall_mem_map]

theorem noKey_joined (lines : List String) :
    NoMatch table.isWord privateKey (String.intercalate "\n" lines).toList ↔
      (∀ line ∈ lines, NoMatch table.isWord privateKey line.toList) ∧
        lines.Pairwise fun line other => KeyApart line.toList other.toList := by
  cases lines with
  | nil => exact ⟨fun _ => ⟨by simp, List.Pairwise.nil⟩, fun _ => noMatch_nil (by decide)⟩
  | cons line lines =>
    rw [intercalate_written, noKey_written, ← List.map_cons, List.forall_mem_map, List.pairwise_map]

/-- The lines of the redacted text that are kept. -/
def keptLines (table : UnicodeTable) (text : String) : List String :=
  (splitLines (redact table text).text).filter fun line => !isDirectiveLine line

theorem neutralize_text (table : UnicodeTable) (text : String) :
    (neutralizeUntrustedText (redact table) text).text =
      strip (String.intercalate "\n" (keptLines table text)) := rfl

/-- Of the patterns only that of database URLs can match in a redacted text. -/
theorem redacted_clean (table : UnicodeTable) (text : String) :
    (∀ r ∈ wordPatterns, r = databaseUrl ∨ NoMatch table.isWord r (redact table text).text.toList) ∧
      NoMatch table.isWord bearerToken (redact table text).text.toList ∧
      NoMatch table.isWord privateKey (redact table text).text.toList := by
  rw [redact_toList]
  have clean : ∀ i entry, redactionPatterns[i]? = some entry → i ≠ 3 →
      NoMatch table.isWord entry.2 (textBefore table 8 text) :=
    fun i entry h other => noMatch_redacted h other
  refine ⟨?_, clean 4 _ rfl (by decide), clean 0 _ rfl (by decide)⟩
  unfold wordPatterns
  simp only [List.forall_mem_cons, List.not_mem_nil, false_imp_iff, implies_true, and_true]
  exact ⟨.inr (clean 1 _ rfl (by decide)), .inr (clean 2 _ rfl (by decide)), .inl trivial,
    .inr (clean 5 _ rfl (by decide)), .inr (clean 6 _ rfl (by decide)),
    .inr (clean 7 _ rfl (by decide))⟩

/-- What neutralizing leaves holds no secret when no kept line holds a database URL and dropping
lines brings no bearer token together. -/
theorem noSecret_neutral_iff (table : SpacedTable) (text : String) :
    NoSecret table.toUnicodeTable
        (neutralizeUntrustedText (redact table.toUnicodeTable) text).text.toList ↔
      (∀ line ∈ keptLines table.toUnicodeTable text,
        NoMatch table.isWord databaseUrl line.toList) ∧
      BearersStop table.toUnicodeTable ((keptLines table.toUnicodeTable text).map String.toList) := by
  obtain ⟨words, bearer, key⟩ := redacted_clean table.toUnicodeTable text
  have url : databaseUrl ∈ wordPatterns := by simp [wordPatterns]
  have parts : ∀ r, (∀ a c b, isLineBreak c = true → NoMatch table.isWord r (a ++ c :: b) →
      NoMatch table.isWord r a ∧ NoMatch table.isWord r b) →
      NoMatch table.isWord r (redact table.toUnicodeTable text).text.toList →
      ∀ line ∈ keptLines table.toUnicodeTable text, NoMatch table.isWord r line.toList := by
    intro r cut hclean line hline
    refine splitLinesFrom_parts cut _ [] ?_ line (List.mem_of_mem_filter hline)
    exact hclean
  rw [neutralize_text, noSecret_parts]
  constructor
  · rintro ⟨hwords, hbearer, _⟩
    refine ⟨(noWord_joined url _).mp ((noWord_strip table url _).mp (hwords _ url)), ?_⟩
    exact ((noBearer_joined _).mp ((noBearer_strip table _).mp hbearer)).2
  · rintro ⟨hurls, hstop⟩
    refine ⟨fun r hr => (noWord_strip table hr _).mpr ((noWord_joined hr _).mpr ?_),
      (noBearer_strip table _).mpr ((noBearer_joined _).mpr ⟨?_, hstop⟩),
      noKey_part (strip_part _) ((noKey_joined _).mpr ⟨?_, ?_⟩)⟩
    · rcases words r hr with rfl | hclean
      · exact hurls
      · exact parts r (fun a c b hc h => (noWord_cut table hr (isSpace_of_isLineBreak hc)).mp h) hclean
    · refine parts _ (fun a c b hc h => ?_) bearer
      have hcut := (noBearer_space table (isSpace_of_isLineBreak hc)).mp h
      exact ⟨hcut.1, hcut.2.1⟩
    · refine parts _ (fun a c b _ h => ?_) key
      exact ⟨noKey_part List.infix_append_left h,
        noKey_part (List.infix_append_of_infix_right (List.infix_cons (List.infix_refl b))) h⟩
    · exact (keyApart_splitLinesFrom _ [] key).sublist List.filter_sublist

theorem neutralize_fixed (clean : NoSecret table.toUnicodeTable text.toList) (calm : Calm text)
    (breaks : ∀ c ∈ text.toList, isLineBreak c = true → c = '\n') (stripped : strip text = text) :
    neutralizeUntrustedText (redact table.toUnicodeTable) text = ⟨text, 0⟩ := by
  have last : text.toList.getLast? ≠ some '\n' := by
    intro hlast
    have := (strip_eq_iff.mp stripped).last _ hlast
    revert this
    decide
  have kept : (splitLines text).filter (fun line => !isDirectiveLine line) = splitLines text :=
    List.filter_eq_self.mpr fun line hline => by rw [calm line hline]; rfl
  have joined : String.intercalate "\n" (splitLines text) = text := by
    have := joined_splitLinesFrom text.toList [] breaks last
    exact String.toList_injective this
  unfold neutralizeUntrustedText
  rw [redact_fixed_iff.mpr clean]
  dsimp only
  rw [kept, joined, stripped, Nat.sub_self]

theorem neutral_breaks (table : UnicodeTable) (text : String) :
    ∀ c ∈ (neutralizeUntrustedText (redact table) text).text.toList,
      isLineBreak c = true → c = '\n' := by
  intro c hc hbreak
  rw [neutralize_text] at hc
  have hmem := (strip_part _).subset hc
  have unbroken : ∀ line ∈ keptLines table text, c ∉ line.toList := by
    intro line hline hin
    have hplain := splitLinesFrom_unbroken (redact table text).text.toList [] (by simp) line
      (List.mem_of_mem_filter hline) c hin
    rw [hbreak] at hplain
    cases hplain
  cases hlines : keptLines table text with
  | nil =>
    rw [hlines] at hmem
    cases hmem
  | cons line lines =>
    rw [hlines] at hmem unbroken
    rw [intercalate_written, List.mem_append, written, List.mem_flatMap] at hmem
    obtain ⟨hfirst, hothers⟩ := List.forall_mem_cons.mp unbroken
    rcases hmem with hin | ⟨other, hother, hin⟩
    · exact absurd hin hfirst
    · obtain ⟨later, hlater, rfl⟩ := List.mem_map.mp hother
      exact (List.mem_cons.mp hin).resolve_right (hothers later hlater)

/-- The kept lines of a redacted text hold no database URL, and no bearer token begins on one of
them and goes on, past lines that are dropped or blank, on another. -/
structure LinesSettle (table : UnicodeTable) (lines : List String) : Prop where
  urls : ∀ line ∈ lines, isDirectiveLine line = false → NoMatch table.isWord databaseUrl line.toList
  bearers : ∀ front line middle next back, lines = front ++ line :: (middle ++ next :: back) →
    isDirectiveLine line = false → isDirectiveLine next = false →
    (∀ other ∈ middle, isDirectiveLine other = false → ∀ c ∈ other.toList, isSpace c = true) →
    EndsInBearer table line.toList → StopsBearer next.toList

theorem bearersStop_map_iff {table : UnicodeTable} {lines : List String} :
    BearersStop table (lines.map String.toList) ↔
      ∀ front line middle next back, lines = front ++ line :: (middle ++ next :: back) →
        (∀ other ∈ middle, ∀ c ∈ other.toList, isSpace c = true) →
        EndsInBearer table line.toList → StopsBearer next.toList := by
  constructor
  · intro h front line middle next back heq blank ended
    refine h (front.map String.toList) _ (middle.map String.toList) next.toList
      (back.map String.toList) (by rw [heq]; simp) ?_ ended
    exact List.forall_mem_map.mpr blank
  · intro h front line middle next back heq blank ended
    obtain ⟨front, later, rfl, rfl, hlater⟩ := List.map_eq_append_iff.mp heq
    obtain ⟨line, rest, rfl, rfl, hrest⟩ := List.map_eq_cons_iff.mp hlater
    obtain ⟨middle, last, rfl, rfl, hlast⟩ := List.map_eq_append_iff.mp hrest
    obtain ⟨next, back, rfl, rfl, rfl⟩ := List.map_eq_cons_iff.mp hlast
    exact h front line middle next back rfl (List.forall_mem_map.mp blank) ended

theorem linesSettle_iff {table : UnicodeTable} {lines : List String} : LinesSettle table lines ↔
    (∀ line ∈ lines.filter fun line => !isDirectiveLine line,
      NoMatch table.isWord databaseUrl line.toList) ∧
    BearersStop table ((lines.filter fun line => !isDirectiveLine line).map String.toList) := by
  rw [bearersStop_map_iff]
  constructor
  · rintro ⟨urls, bearers⟩
    refine ⟨fun line hline => ?_, fun front line middle next back heq blank ended => ?_⟩
    · obtain ⟨hmem, hkept⟩ := List.mem_filter.mp hline
      exact urls line hmem (by simpa using hkept)
    · obtain ⟨front, later, rfl, _, hlater⟩ := List.filter_eq_append_iff.mp heq
      obtain ⟨gap, rest, rfl, _, hline, hrest⟩ := List.filter_eq_cons_iff.mp hlater
      obtain ⟨between, last, rfl, hmiddle, hlast⟩ := List.filter_eq_append_iff.mp hrest
      obtain ⟨gap', back', rfl, hgap', hnext, _⟩ := List.filter_eq_cons_iff.mp hlast
      refine bearers (front ++ gap) line (between ++ gap') next back' (by simp)
        (by simpa using hline) (by simpa using hnext) (fun other hother hkept => ?_) ended
      rcases List.mem_append.mp hother with hother | hother
      · refine blank other ?_
        rw [← hmiddle]
        exact List.mem_filter.mpr ⟨hother, by rw [hkept]; rfl⟩
      · exact absurd (by rw [hkept]; rfl) (hgap' other hother)
  · rintro ⟨urls, bearers⟩
    refine ⟨fun line hmem hkept => ?_, fun front line middle next back heq hline hnext blank => ?_⟩
    · exact urls line (List.mem_filter.mpr ⟨hmem, by rw [hkept]; rfl⟩)
    · refine bearers (front.filter fun line => !isDirectiveLine line) line
        (middle.filter fun line => !isDirectiveLine line) next
        (back.filter fun line => !isDirectiveLine line) ?_ fun other hother => ?_
      · rw [heq, List.filter_append, List.filter_cons_of_pos (by rw [hline]; rfl),
          List.filter_append, List.filter_cons_of_pos (by rw [hnext]; rfl)]
      · obtain ⟨hmem, hkept⟩ := List.mem_filter.mp hother
        exact blank other hmem (by simpa using hkept)

/-- Neutralizing reaches a fixpoint, without secrets and without lines like calls, exactly when the
kept lines of the redacted text settle. -/
theorem neutralize_settles_iff (table : SpacedTable) (text : String) :
    (Calm (neutralizeUntrustedText (redact table.toUnicodeTable) text).text ∧
      NoSecret table.toUnicodeTable
        (neutralizeUntrustedText (redact table.toUnicodeTable) text).text.toList ∧
      neutralizeUntrustedText (redact table.toUnicodeTable)
          (neutralizeUntrustedText (redact table.toUnicodeTable) text).text =
        ⟨(neutralizeUntrustedText (redact table.toUnicodeTable) text).text, 0⟩) ↔
    LinesSettle table.toUnicodeTable (splitLines (redact table.toUnicodeTable text).text) := by
  have calm : Calm (neutralizeUntrustedText (redact table.toUnicodeTable) text).text :=
    calm_of_not_hasDirective (neutralize_not_hasDirective _ text)
  rw [linesSettle_iff]
  refine Iff.trans ⟨fun h => h.2.1, fun clean => ⟨calm, clean, ?_⟩⟩ (noSecret_neutral_iff table text)
  refine neutralize_fixed clean calm (neutral_breaks _ text) ?_
  rw [neutralize_text, strip_strip]

/-- Dropping the line between them puts the word and its token together. -/
theorem dropped_line_joins_bearer :
    neutralizeUntrustedText (redact asciiSpaced.toUnicodeTable) "Bearer\ninvoke: x\nabcdefgh12345" =
        ⟨"Bearer\nabcdefgh12345", 1⟩ ∧
      ¬NoSecret asciiSpaced.toUnicodeTable "Bearer\nabcdefgh12345".toList ∧
      neutralizeUntrustedText (redact asciiSpaced.toUnicodeTable) "Bearer\nabcdefgh12345" =
        ⟨"[REDACTED:bearer_token]", 0⟩ := by
  have first : neutralizeUntrustedText (redact asciiSpaced.toUnicodeTable)
      "Bearer\ninvoke: x\nabcdefgh12345" = ⟨"Bearer\nabcdefgh12345", 1⟩ := by decide +kernel
  have second : (redact asciiSpaced.toUnicodeTable "Bearer\nabcdefgh12345").count = 1 := by
    decide +kernel
  refine ⟨first, fun clean => ?_, by decide +kernel⟩
  have hfixed : redact asciiSpaced.toUnicodeTable "Bearer\nabcdefgh12345" =
      ⟨"Bearer\nabcdefgh12345", 0⟩ := redact_fixed_iff.mpr clean
  rw [hfixed] at second
  cases second

end Neutral

end Aegis
