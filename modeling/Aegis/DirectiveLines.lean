import Aegis.Untrusted

namespace Aegis

/-- What may stand in a line before a call. -/
def isLead (c : Char) : Bool := isSpace c || ['>', '-', '*', '#', '`'].contains c

/-- `_DIRECTIVE_LINE.match(line)` on characters. -/
def isDirective (line : List Char) : Bool :=
  let rest := line.dropWhile isLead
  directiveWords.any fun word =>
    (rest.take word.length).map foldCase = word.toList &&
      match (rest.drop word.length).dropWhile isSpace with
      | c :: _ => c = ':' || c = '('
      | [] => false

/-- What is left of a line where the text begins. -/
def lineHead (text : List Char) : List Char := text.takeWhile fun c => !isLineBreak c

/-- A line begins behind this text. -/
def LineStart (front : List Char) : Prop :=
  front = [] ∨ ∃ before c, front = before ++ [c] ∧ isLineBreak c = true

/-- Somewhere in the text begins a line that is like a tool call. -/
def HasDirective (text : List Char) : Prop :=
  ∃ front rest, text = front ++ rest ∧ LineStart front ∧ isDirective (lineHead rest) = true

section Directive

variable {line later text : List Char}

theorem isDirectiveLine_eq (line : String) : isDirectiveLine line = isDirective line.toList := rfl

/-- White space and the marks before a call are no capital letters. -/
theorem foldCase_of_lead {x : Char} (h : isLead x = true) : foldCase x = x := by
  have hnat : ¬(65 ≤ x.toNat ∧ x.toNat ≤ 90) ∧ x.toNat ≠ 0x130 ∧ x.toNat ≠ 0x131 ∧
      x.toNat ≠ 0x212a := by
    rcases Bool.or_eq_true_iff.mp h with hspace | hmark
    · unfold isSpace at hspace
      simp only [Bool.or_eq_true, Bool.and_eq_true, decide_eq_true_eq, beq_iff_eq] at hspace
      omega
    · simp only [List.contains_eq_mem, List.mem_cons, List.not_mem_nil, or_false,
        decide_eq_true_eq] at hmark
      rcases hmark with rfl | rfl | rfl | rfl | rfl <;> decide
  obtain ⟨hupper, h130, h131, h212a⟩ := hnat
  rw [foldCase, if_neg (by simp [h130, h131]), if_neg h212a]
  exact toLower_of_not_upper hupper

theorem directiveWords_plain : ∀ known ∈ directiveWords, '[' ∉ known.toList ∧
    ∃ first rest, known.toList = first :: rest ∧ isLead first = false := by
  intro known hknown
  simp only [directiveWords, List.mem_cons, List.not_mem_nil, or_false] at hknown
  rcases hknown with rfl | rfl | rfl | rfl | rfl | rfl | rfl <;>
    exact ⟨by decide, _, _, rfl, by decide⟩

theorem isDirective_iff :
    isDirective line = true ↔ ∃ lead word gap c rest,
      line = lead ++ (word ++ (gap ++ c :: rest)) ∧
      (∀ x ∈ lead, isLead x = true) ∧
      (∃ known ∈ directiveWords, word.map foldCase = known.toList) ∧
      (∀ x ∈ gap, isSpace x = true) ∧ (c = ':' ∨ c = '(') := by
  constructor
  · intro h
    obtain ⟨known, hknown, hword⟩ := List.any_eq_true.mp h
    obtain ⟨hfold, hend⟩ := Bool.and_eq_true_iff.mp hword
    generalize hrest : line.dropWhile isLead = rest at hfold hend
    cases hgap : (rest.drop known.length).dropWhile isSpace with
    | nil =>
      rw [hgap] at hend
      cases hend
    | cons c later =>
      rw [hgap] at hend
      refine ⟨line.takeWhile isLead, rest.take known.length, (rest.drop known.length).takeWhile isSpace,
        c, later, ?_, fun x hx => List.mem_takeWhile_imp hx, ⟨known, hknown, by simpa using hfold⟩,
        fun x hx => List.mem_takeWhile_imp hx, by simpa using hend⟩
      rw [← hgap, List.takeWhile_append_dropWhile, List.take_append_drop, ← hrest,
        List.takeWhile_append_dropWhile]
  · rintro ⟨lead, word, gap, c, rest, rfl, hlead, ⟨known, hknown, hfold⟩, hgap, hc⟩
    obtain ⟨-, first, others, hknownList, hfirst⟩ := directiveWords_plain known hknown
    have hlen : word.length = known.length := by
      rw [← String.length_toList, ← hfold, List.length_map]
    have hword : (word ++ (gap ++ c :: rest)).dropWhile isLead = word ++ (gap ++ c :: rest) := by
      cases word with
      | nil =>
        rw [hknownList] at hfold
        cases hfold
      | cons x word =>
        refine List.dropWhile_cons_of_neg fun hx => ?_
        rw [hknownList, List.map_cons, foldCase_of_lead hx] at hfold
        rw [(List.cons.inj hfold).1, hfirst] at hx
        cases hx
    refine List.any_eq_true.mpr ⟨known, hknown, ?_⟩
    rw [List.dropWhile_append_of_pos hlead, hword, List.take_left' hlen, List.drop_left' hlen,
      List.dropWhile_append_of_pos hgap]
    have hspace : isSpace c = false := by
      rcases hc with rfl | rfl <;> decide
    rw [List.dropWhile_cons_of_neg (by simp [hspace]), hfold]
    simpa using hc

theorem isDirective_append (h : isDirective line = true) (later : List Char) :
    isDirective (line ++ later) = true := by
  obtain ⟨lead, word, gap, c, rest, rfl, hlead, hword, hgap, hc⟩ := isDirective_iff.mp h
  exact isDirective_iff.mpr ⟨lead, word, gap, c, rest ++ later, by simp, hlead, hword, hgap, hc⟩

theorem isDirective_lead {lead : List Char} (hlead : ∀ c ∈ lead, isSpace c = true)
    (h : isDirective line = true) : isDirective (lead ++ line) = true := by
  obtain ⟨front, word, gap, c, rest, rfl, hfront, hword, hgap, hc⟩ := isDirective_iff.mp h
  refine isDirective_iff.mpr ⟨lead ++ front, word, gap, c, rest, by simp, fun x hx => ?_, hword,
    hgap, hc⟩
  rcases List.mem_append.mp hx with hx | hx
  · rw [isLead, hlead x hx, Bool.true_or]
  · exact hfront x hx

theorem isDirective_of_marked {mark : Char} (hmark : mark = '[')
    (h : isDirective (line ++ mark :: later) = true) : isDirective line = true := by
  subst hmark
  obtain ⟨lead, word, gap, c, rest, heq, hlead, ⟨known, hknown, hfold⟩, hgap, hc⟩ :=
    isDirective_iff.mp h
  have hhead : lead ++ (word ++ (gap ++ [c])) <+: line ++ '[' :: later := ⟨rest, by rw [heq]; simp⟩
  have hnot : '[' ∉ lead ++ (word ++ (gap ++ [c])) := by
    simp only [List.mem_append, List.mem_singleton, not_or]
    refine ⟨fun hmem => absurd (hlead _ hmem) (by decide), fun hmem => ?_,
      fun hmem => absurd (hgap _ hmem) (by decide), by rcases hc with rfl | rfl <;> decide⟩
    have hmem : foldCase '[' ∈ word.map foldCase := List.mem_map_of_mem hmem
    rw [hfold] at hmem
    exact (directiveWords_plain known hknown).1 hmem
  have hshort : (lead ++ (word ++ (gap ++ [c]))).length ≤ line.length := by
    by_contra hlong
    have hinside : line ++ ['['] <+: lead ++ (word ++ (gap ++ [c])) :=
      List.prefix_of_prefix_length_le ⟨later, by simp⟩ hhead (by
        rw [List.length_append, List.length_singleton]
        omega)
    exact hnot (hinside.mem (by simp))
  obtain ⟨more, hmore⟩ := List.prefix_of_prefix_length_le hhead (List.prefix_append _ _) hshort
  exact isDirective_iff.mpr ⟨lead, word, gap, c, more, by rw [← hmore]; simp, hlead,
    ⟨known, hknown, hfold⟩, hgap, hc⟩

end Directive

section Lines

variable {front text later : List Char}

theorem lineHead_append (h : ∀ c ∈ front, isLineBreak c = false) (text : List Char) :
    lineHead (front ++ text) = front ++ lineHead text :=
  List.takeWhile_append_of_pos fun c hc => by rw [h c hc]; rfl

theorem lineHead_beginning (text later : List Char) : lineHead text <+: lineHead (text ++ later) := by
  rw [lineHead, lineHead, List.takeWhile_append]
  split
  · exact (List.takeWhile_prefix _).trans (List.prefix_append _ _)
  · exact List.prefix_rfl

theorem isDirective_of_beginning {line longer : List Char} (h : line <+: longer)
    (directive : isDirective line = true) : isDirective longer = true := by
  obtain ⟨later, rfl⟩ := h
  exact isDirective_append directive later

theorem lineStart_append (lead : List Char) (h : LineStart front) (ne : front ≠ []) :
    LineStart (lead ++ front) := by
  obtain ⟨before, c, rfl, hc⟩ := h.resolve_left ne
  exact .inr ⟨lead ++ before, c, by rw [List.append_assoc], hc⟩

theorem lastLine_split (text : List Char) :
    ∃ front line, text = front ++ line ∧ LineStart front ∧ ∀ c ∈ line, isLineBreak c = false := by
  refine ⟨text.rdropWhile fun c => !isLineBreak c, text.rtakeWhile fun c => !isLineBreak c,
    (List.rdropWhile_append_rtakeWhile).symm, ?_, fun c hc => ?_⟩
  · by_cases hnil : text.rdropWhile (fun c => !isLineBreak c) = []
    · exact .inl hnil
    · refine .inr ⟨_, _, (List.dropLast_append_getLast hnil).symm, ?_⟩
      simpa using List.rdropWhile_last_not _ _ hnil
  · simpa using List.mem_rtakeWhile_imp hc

/-- White space before a text and anything behind it takes no call out of it. -/
theorem HasDirective.inside {lead : List Char} (h : HasDirective text)
    (hlead : ∀ c ∈ lead, isSpace c = true) (later : List Char) :
    HasDirective (lead ++ (text ++ later)) := by
  obtain ⟨front, rest, rfl, hstart, hdirective⟩ := h
  have hlonger := isDirective_of_beginning (lineHead_beginning rest later) hdirective
  by_cases hfront : front = []
  · obtain ⟨before, line, rfl, hbefore, hline⟩ := lastLine_split lead
    refine ⟨before, line ++ (rest ++ later), by rw [hfront, List.nil_append, List.append_assoc],
      hbefore, ?_⟩
    rw [lineHead_append hline]
    exact isDirective_lead (fun c hc => hlead c (List.mem_append_right _ hc)) hlonger
  · exact ⟨lead ++ front, rest ++ later, by simp, lineStart_append lead hstart hfront, hlonger⟩

theorem HasDirective.of_cut {mark : List Char} (hmark : ∀ c ∈ mark, isLineBreak c = false)
    (first : mark.head? = some '[') (h : HasDirective (text ++ mark)) (later : List Char) :
    HasDirective (text ++ later) := by
  obtain ⟨front, rest, hsplit, hstart, hdirective⟩ := h
  obtain ⟨others, rfl⟩ : ∃ others, mark = '[' :: others := by
    cases mark with
    | nil => cases first
    | cons c others => exact ⟨others, by rw [Option.some.inj first]⟩
  have unmarked : ∀ line, isDirective (lineHead (line ++ '[' :: others)) = true →
      isDirective (lineHead line) = true := by
    intro line hline
    by_cases hbreak : ∀ c ∈ line, isLineBreak c = false
    · have hmarkHead : lineHead ('[' :: others) = '[' :: others :=
        List.takeWhile_eq_self_iff.mpr fun c hc => by rw [hmark c hc]; rfl
      have hself : lineHead line = line :=
        List.takeWhile_eq_self_iff.mpr fun c hc => by rw [hbreak c hc]; rfl
      rw [lineHead_append hbreak, hmarkHead] at hline
      rw [hself]
      exact isDirective_of_marked rfl hline
    · rw [lineHead, List.takeWhile_append, if_neg] at hline
      · exact hline
      · intro hlen
        refine hbreak fun c hc => ?_
        have hall := List.takeWhile_eq_self_iff.mp
          ((List.takeWhile_prefix _).eq_of_length hlen) c hc
        simpa using hall
  rcases List.append_eq_append_iff.mp hsplit with ⟨more, rfl, hmore⟩ | ⟨more, rfl, rfl⟩
  · by_cases hnil : more = []
    · rw [hnil, List.nil_append] at hmore
      rw [← hmore] at hdirective
      exact absurd (unmarked [] hdirective) (by decide)
    · obtain ⟨before, c, hlast, hc⟩ := hstart.resolve_left (by simp [hnil])
      have hmem : c ∈ more := by
        have := congrArg List.getLast? hlast
        rw [List.getLast?_append_of_ne_nil _ hnil, List.getLast?_concat] at this
        exact List.mem_of_getLast? this
      rw [hmark c (by rw [hmore]; exact List.mem_append_left _ hmem)] at hc
      cases hc
  · exact ⟨front, more ++ later, by rw [List.append_assoc], hstart,
      isDirective_of_beginning (lineHead_beginning more later) (unmarked more hdirective)⟩

theorem hasDirective_join {lines : List (List Char)}
    (plain : ∀ line ∈ lines, (∀ c ∈ line, isLineBreak c = false) ∧ isDirective line = false) :
    ¬HasDirective (List.intercalate ['\n'] lines) := by
  induction lines with
  | nil =>
    rintro ⟨front, rest, hnil, -, hdirective⟩
    rw [(List.append_eq_nil_iff.mp hnil.symm).2] at hdirective
    exact absurd hdirective (by decide)
  | cons line rest ih =>
    obtain ⟨⟨hline, hplain⟩, hrest⟩ := List.forall_mem_cons.mp plain
    have hself : lineHead line = line :=
      List.takeWhile_eq_self_iff.mpr fun c hc => by rw [hline c hc]; rfl
    rintro ⟨front, tail, hsplit, hstart, hdirective⟩
    cases rest with
    | nil =>
      rw [List.intercalate_singleton] at hsplit
      rcases hstart with rfl | ⟨before, c, rfl, hc⟩
      · rw [← List.nil_append tail, ← hsplit, hself, hplain] at hdirective
        cases hdirective
      · rw [hline c (by rw [hsplit]; simp)] at hc
        cases hc
    | cons next later =>
      rw [List.intercalate_cons_cons, List.append_assoc] at hsplit
      have hbreak : ∀ joined, lineHead ('\n' :: joined) = [] := fun _ => rfl
      rcases List.append_eq_append_iff.mp hsplit with ⟨more, rfl, hmore⟩ | ⟨more, rfl, rfl⟩
      · cases more with
        | nil =>
          rw [List.nil_append] at hmore
          rw [← hmore, List.singleton_append, hbreak] at hdirective
          exact absurd hdirective (by decide)
        | cons c more =>
          obtain ⟨rfl, hjoin⟩ := List.cons.inj hmore
          refine ih hrest ⟨more, tail, hjoin, ?_, hdirective⟩
          rcases List.eq_nil_or_concat more with rfl | ⟨before, c, rfl⟩
          · exact .inl rfl
          · obtain ⟨_, d, hlast, hd⟩ := hstart.resolve_left (by simp)
            have hsame := congrArg List.getLast? hlast
            rw [List.concat_eq_append, ← List.cons_append, ← List.append_assoc,
              List.getLast?_concat, List.getLast?_concat] at hsame
            exact .inr ⟨before, c, List.concat_eq_append, by rwa [Option.some.inj hsame]⟩
      · rcases hstart with rfl | ⟨before, c, rfl, hc⟩
        · rw [List.nil_append] at hline hplain
          rw [lineHead_append hline, List.singleton_append, hbreak, List.append_nil,
            hplain] at hdirective
          cases hdirective
        · rw [hline c (by simp)] at hc
          cases hc

/-- No line that `str.splitlines` gives has a line break in it. -/
theorem splitLinesFrom_unbroken (text part : List Char)
    (hpart : ∀ c ∈ part, isLineBreak c = false) :
    ∀ line ∈ splitLinesFrom text part, ∀ c ∈ line.toList, isLineBreak c = false := by
  have reversed : ∀ part : List Char, (∀ c ∈ part, isLineBreak c = false) →
      ∀ c ∈ (String.ofList part.reverse).toList, isLineBreak c = false := by
    intro part hpart c hc
    rw [String.toList_ofList] at hc
    exact hpart c (List.mem_reverse.mp hc)
  induction text, part using splitLinesFrom.induct with
  | case1 => simp [splitLinesFrom]
  | case2 part hne =>
    rw [splitLinesFrom]
    · exact List.forall_mem_singleton.mpr (reversed part hpart)
    · exact hne
  | case3 rest part ih =>
    rw [splitLinesFrom]
    exact List.forall_mem_cons.mpr ⟨reversed part hpart, ih (by simp)⟩
  | case4 c rest part hne hbreak ih =>
    rw [splitLinesFrom, if_pos hbreak]
    · exact List.forall_mem_cons.mpr ⟨reversed part hpart, ih (by simp)⟩
    · exact hne
  | case5 c rest part hne hbreak ih =>
    rw [splitLinesFrom, if_neg hbreak]
    · exact ih (List.forall_mem_cons.mpr ⟨by simpa using hbreak, hpart⟩)
    · exact hne

theorem hasDirective_of_splitLinesFrom (text part : List Char)
    (hpart : ∀ c ∈ part, isLineBreak c = false)
    (h : ∃ line ∈ splitLinesFrom text part, isDirectiveLine line = true) :
    HasDirective (part.reverse ++ text) := by
  have first : ∀ part text : List Char, (∀ c ∈ part, isLineBreak c = false) →
      isDirectiveLine (String.ofList part.reverse) = true →
      HasDirective (part.reverse ++ text) := by
    intro part text hpart hdirective
    refine ⟨[], part.reverse ++ text, rfl, .inl rfl, ?_⟩
    rw [isDirectiveLine_eq, String.toList_ofList] at hdirective
    rw [lineHead_append fun c hc => hpart c (List.mem_reverse.mp hc)]
    exact isDirective_append hdirective _
  have later : ∀ (front rest : List Char) (c : Char), isLineBreak c = true → HasDirective rest →
      HasDirective (front ++ c :: rest) := by
    rintro front rest c hc ⟨before, tail, rfl, hstart, hdirective⟩
    refine ⟨front ++ c :: before, tail, by simp, ?_, hdirective⟩
    rcases hstart with rfl | ⟨others, d, rfl, hd⟩
    · exact .inr ⟨front, c, rfl, hc⟩
    · exact .inr ⟨front ++ c :: others, d, by simp, hd⟩
  obtain ⟨line, hline, hdirective⟩ := h
  induction text, part using splitLinesFrom.induct with
  | case1 => simp [splitLinesFrom] at hline
  | case2 part hne =>
    rw [splitLinesFrom] at hline
    · rw [List.mem_singleton.mp hline] at hdirective
      exact first part [] hpart hdirective
    · exact hne
  | case3 rest part ih =>
    rw [splitLinesFrom] at hline
    rcases List.mem_cons.mp hline with rfl | hline
    · exact first part _ hpart hdirective
    · have hrest := later [] rest '\n' rfl (ih (by simp) hline)
      exact later part.reverse _ '\r' rfl hrest
  | case4 c rest part hne hbreak ih =>
    rw [splitLinesFrom, if_pos hbreak] at hline
    · rcases List.mem_cons.mp hline with rfl | hline
      · exact first part _ hpart hdirective
      · exact later part.reverse rest c hbreak (ih (by simp) hline)
    · exact hne
  | case5 c rest part hne hbreak ih =>
    rw [splitLinesFrom, if_neg hbreak] at hline
    · have := ih (List.forall_mem_cons.mpr ⟨by simpa using hbreak, hpart⟩) hline
      rwa [List.reverse_cons, List.append_assoc] at this
    · exact hne

end Lines

/-- No line of the text is like a tool call. -/
def Calm (text : String) : Prop := ∀ line ∈ splitLines text, isDirectiveLine line = false

theorem calm_of_not_hasDirective {text : String} (h : ¬HasDirective text.toList) : Calm text := by
  intro line hline
  cases hdirective : isDirectiveLine line with
  | false => rfl
  | true =>
    exact absurd (hasDirective_of_splitLinesFrom text.toList [] (by simp) ⟨line, hline, hdirective⟩) h

/-- What untrusted text becomes has no line like a tool call. -/
theorem neutralize_not_hasDirective (redact : String → RedactionResult) (text : String) :
    ¬HasDirective (neutralizeUntrustedText redact text).text.toList := by
  intro h
  rw [neutralizeUntrustedText, strip, String.toList_ofList, String.toList_intercalate] at h
  generalize hkept : (splitLines (redact text).text).filter _ = kept at h
  have plain : ¬HasDirective (List.intercalate ['\n'] (kept.map String.toList)) := by
    refine hasDirective_join fun chars hchars => ?_
    obtain ⟨line, hline, rfl⟩ := List.mem_map.mp hchars
    rw [← hkept] at hline
    obtain ⟨hmem, hdirective⟩ := List.mem_filter.mp hline
    exact ⟨splitLinesFrom_unbroken _ [] (by simp) line hmem, by
      simpa [isDirectiveLine_eq] using hdirective⟩
  generalize hjoined : "\n".toList.intercalate (kept.map String.toList) = joined at h
  have inside : HasDirective (joined.takeWhile isSpace ++ ((joined.dropWhile isSpace).rdropWhile
      isSpace ++ (joined.dropWhile isSpace).rtakeWhile isSpace)) :=
    h.inside (fun c hc => List.mem_takeWhile_imp hc) _
  rw [List.rdropWhile_append_rtakeWhile, List.takeWhile_append_dropWhile, ← hjoined] at inside
  exact plain inside

/-- The text of an envelope has no line like a tool call. -/
theorem buildEnvelope_calm (redact : String → RedactionResult) (toolName incidentId : String)
    (result : Value) (truncated : Bool) :
    Calm (buildEnvelope redact toolName incidentId result truncated).text := by
  have hneutral := neutralize_not_hasDirective redact (flattenResultText result)
  refine calm_of_not_hasDirective ?_
  unfold buildEnvelope
  dsimp only
  split
  · intro h
    rw [String.toList_append, String.toList_ofList] at h
    have hmark : ∀ c ∈ truncatedMarker.toList, isLineBreak c = false := by
      have hall : (truncatedMarker.toList.all fun c => !isLineBreak c) = true := by decide
      exact fun c hc => by simpa using List.all_eq_true.mp hall c hc
    refine hneutral ?_
    have := h.of_cut hmark rfl (List.drop (envelopeTextMaxChars - truncatedMarker.length)
      (neutralizeUntrustedText redact (flattenResultText result)).text.toList)
    rwa [List.take_append_drop] at this
  · exact hneutral

end Aegis
