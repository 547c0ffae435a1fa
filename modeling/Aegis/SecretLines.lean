import Aegis.RegexLines
import Aegis.SecretResidue

namespace Aegis

open Regex Pattern

variable {table : UnicodeTable} {r : Pattern} {a b s lead piece : List Char} {c : Char}

/-- A spelling of the pattern is part of the text. -/
def Contains (r : Pattern) (s : List Char) : Prop := ∃ x, Spells r x ∧ x <:+: s

theorem Contains.mono (h : Contains r a) (sub : a <:+: b) : Contains r b := by
  obtain ⟨x, hx, hin⟩ := h
  exact ⟨x, hx, hin.trans sub⟩

theorem contains_cut (avoids : r.avoids c = true) :
    Contains r (a ++ c :: b) ↔ Contains r a ∨ Contains r b := by
  constructor
  · rintro ⟨x, hx, hin⟩
    rcases (infix_cut (not_mem_of_avoids avoids hx)).mp hin with hin | hin
    · exact .inl ⟨x, hx, hin⟩
    · exact .inr ⟨x, hx, hin⟩
  · rintro (h | h)
    · exact h.mono (List.infix_append_of_infix_left (List.infix_refl a))
    · exact h.mono (List.infix_append_of_infix_right (List.infix_cons (List.infix_refl b)))

section Keys

/-- A private key is an opening line with a closing line after it. -/
theorem noKey_iff : NoMatch table.isWord privateKey s ↔
    ∀ u v, s = u ++ v → Contains keyOpening u → ¬Contains keyClosing v := by
  rw [noMatch_iff]
  constructor
  · rintro h u v rfl ⟨x, hx, front, skipped, rfl⟩ ⟨y, hy, before_, back, rfl⟩
    refine h front (x ++ ((skipped ++ before_) ++ y)) back (by simp) ?_
    refine (privateKey_parts _ _ _ _).mpr (mem_ends_seq.mpr
      ⟨x, skipped ++ before_ ++ y ++ back, skipped ++ before_ ++ y, ?_, ?_, rfl⟩)
    · have := @match_of_spells table.isWord _ _ (by decide) hx (before none front)
        (skipped ++ before_ ++ y ++ back)
      simpa using this
    · refine mem_ends_seq.mpr ⟨skipped ++ before_, y ++ back, y, ?_, ?_, rfl⟩
      · exact mem_ends_lazy.mpr ⟨by simp, fun _ _ => rfl, Nat.zero_le _⟩
      · exact match_of_spells (by decide) hy _ back
  · rintro h front taken tail rfl hmatch
    obtain ⟨x, t, later, hopening, hrest, rfl⟩ :=
      mem_ends_seq.mp ((privateKey_parts _ _ _ _).mp hmatch)
    obtain ⟨mid, t', y, _, hclosing, rfl⟩ := mem_ends_seq.mp hrest
    have opened : Contains keyOpening (front ++ x) :=
      ⟨x, spells_of_match (by decide) hopening, List.infix_append_right⟩
    have closed : Contains keyClosing (mid ++ y ++ tail) :=
      ⟨y, spells_of_match (by decide) hclosing, List.infix_append _ _ _⟩
    exact h (front ++ x) (mid ++ y ++ tail) (by simp) opened closed

theorem noKey_part (sub : a <:+: b) (h : NoMatch table.isWord privateKey b) :
    NoMatch table.isWord privateKey a := by
  rw [noKey_iff] at h ⊢
  rintro u v rfl hopen hclose
  obtain ⟨front, back, rfl⟩ := sub
  exact h (front ++ u) (v ++ back) (by simp) (hopen.mono List.infix_append_right)
    (hclose.mono List.infix_append_left)

/-- The text does not open a private key that the later text closes. -/
def KeyApart (t u : List Char) : Prop := ¬(Contains keyOpening t ∧ Contains keyClosing u)

theorem noKey_cut : NoMatch table.isWord privateKey (a ++ '\n' :: b) ↔
    NoMatch table.isWord privateKey a ∧ NoMatch table.isWord privateKey b ∧ KeyApart a b := by
  have opening : keyOpening.avoids '\n' = true := by decide
  have closing : keyClosing.avoids '\n' = true := by decide
  rw [noKey_iff, noKey_iff, noKey_iff]
  constructor
  · intro h
    refine ⟨?_, ?_, fun ⟨hopen, hclose⟩ => ?_⟩
    · rintro u v rfl hopen hclose
      exact h u (v ++ '\n' :: b) (by simp) hopen ((contains_cut closing).mpr (.inl hclose))
    · rintro u v rfl hopen hclose
      exact h (a ++ '\n' :: u) v (by simp) ((contains_cut opening).mpr (.inr hopen)) hclose
    · exact h a ('\n' :: b) rfl hopen (hclose.mono (List.infix_cons (List.infix_refl b)))
  · rintro ⟨ha, hb, apart⟩ u v hs hopen hclose
    rcases List.append_eq_append_iff.mp hs with ⟨later, rfl, hrest⟩ | ⟨past, rfl, rfl⟩
    · cases later with
      | nil =>
        rw [List.append_nil] at hopen
        rw [List.nil_append] at hrest
        rw [← hrest, ← List.nil_append ('\n' :: b)] at hclose
        rcases (contains_cut closing).mp hclose with hclose | hclose
        · exact ha a [] (List.append_nil a).symm hopen hclose
        · exact apart ⟨hopen, hclose⟩
      | cons d later =>
        obtain ⟨rfl, rfl⟩ := List.cons.inj hrest
        rcases (contains_cut opening).mp hopen with hopen | hopen
        · exact apart ⟨hopen, hclose.mono List.infix_append_right⟩
        · exact hb later v rfl hopen hclose
    · rcases (contains_cut closing).mp hclose with hclose | hclose
      · exact ha u past rfl hopen hclose
      · exact apart ⟨hopen.mono List.infix_append_left, hclose⟩

end Keys

section Bearer

/-- The word with which `bearerToken` begins. -/
def bearerWord : Pattern := all [boundary, caseless "bearer".toList]

/-- After white space the text has fewer characters of a bearer token than one needs. -/
def StopsBearer (s : List Char) : Prop :=
  ∀ spaces chars rest, s = spaces ++ (chars ++ rest) → (∀ c ∈ spaces, isSpace c = true) →
    (∀ c ∈ chars, isBearerChar c = true) → chars.length < 8

/-- The beginning of a text decides that no bearer token goes on there. -/
def stopsBearer (start : List Char) : Bool :=
  let visible := start.dropWhile isSpace
  decide ((visible.takeWhile isBearerChar).length < 8) && visible.any fun c => !isBearerChar c

/-- The text begins so that no bearer token goes on there. -/
def StopsAtStart (s : List Char) : Prop := ∃ start rest, s = start ++ rest ∧ stopsBearer start = true

theorem isSpace_of_isBearerChar (h : isBearerChar c = true) : isSpace c = false := by
  rw [isBearerChar, isAlnumFolded, Bool.or_eq_true, Bool.or_eq_true] at h
  rcases h with (halnum | hfolded) | hother
  · exact isSpace_of_isAlphanum halnum
  · have codes : c.toNat = 304 ∨ c.toNat = 305 ∨ c.toNat = 383 ∨ c.toNat = 8490 := by
      by_contra hnone
      simp_all [foldsTo]
    simp only [isSpace, Bool.or_eq_false_iff, Bool.and_eq_false_iff, decide_eq_false_iff_not,
      beq_eq_false_iff_ne]
    omega
  · have visible : "._-+/=".toList.all (fun c => !isSpace c) = true := by decide
    have hmem : c ∈ "._-+/=".toList := by simpa [oneOf] using hother
    simpa using List.all_eq_true.mp visible c hmem

theorem stopsBearer_append (h : stopsBearer a = true) (rest : List Char) :
    StopsBearer (a ++ rest) := by
  intro spaces chars after hs allSpaces allChars
  obtain ⟨few, hany⟩ := Bool.and_eq_true_iff.mp h
  obtain ⟨stop, hstop, hnot⟩ := List.any_eq_true.mp hany
  have few := of_decide_eq_true few
  cases hchars : chars with
  | nil => simp
  | cons first others =>
    have hfirst : isSpace first = false :=
      isSpace_of_isBearerChar (allChars first (by simp [hchars]))
    have hdrop : (a ++ rest).dropWhile isSpace = chars ++ after := by
      rw [hs, List.dropWhile_append_of_pos allSpaces, hchars, List.cons_append,
        List.dropWhile_cons_of_neg (by simp [hfirst])]
    have hvisible : a.dropWhile isSpace ≠ [] := List.ne_nil_of_mem hstop
    rw [List.dropWhile_append, if_neg (by simpa using hvisible)] at hdrop
    have htake : (a.dropWhile isSpace ++ rest).takeWhile isBearerChar =
        (a.dropWhile isSpace).takeWhile isBearerChar := by
      rw [List.takeWhile_append, if_neg]
      intro hlength
      have := List.takeWhile_eq_self_iff.mp (List.takeWhile_prefix _ |>.eq_of_length hlength)
      simp [this stop hstop] at hnot
    have hlong : ((chars ++ after).takeWhile isBearerChar).length ≥ chars.length := by
      rw [List.takeWhile_append_of_pos allChars, List.length_append]
      exact Nat.le_add_right _ _
    rw [← hdrop, htake, hchars] at hlong
    omega

/-- The text ends in the first word of a bearer token, with or without white space after it. -/
def EndsInBearer (table : UnicodeTable) (s : List Char) : Prop :=
  ∃ front word spaces, s = front ++ (word ++ spaces) ∧
    (word, spaces) ∈ ends table.isWord bearerWord (before none front) (word ++ spaces) ∧
    ∀ c ∈ spaces, isSpace c = true

theorem not_endsInBearer (h : NoMatch table.isWord bearerWord a) : ¬EndsInBearer table a := by
  rintro ⟨front, word, spaces, hs, hword, _⟩
  exact noMatch_iff.mp h front word spaces hs hword

theorem match_bearer {prev : Option Char} {taken tail : List Char} :
    (taken, tail) ∈ ends table.isWord bearerToken prev s ↔ ∃ word spaces chars,
      taken = word ++ (spaces ++ chars) ∧ s = taken ++ tail ∧
      (word, spaces ++ chars ++ tail) ∈ ends table.isWord bearerWord prev s ∧
      (∀ c ∈ spaces, isSpace c = true) ∧ 1 ≤ spaces.length ∧
      (∀ c ∈ chars, isBearerChar c = true) ∧ 8 ≤ chars.length := by
  have parts := @mem_ends_all_append table.isWord prev s taken tail
    [boundary, caseless "bearer".toList] [greedy isSpace 1, greedy isBearerChar 8]
  constructor
  · intro hmatch
    obtain ⟨word, t, later, hword, hrest, htaken⟩ := mem_ends_seq.mp (parts.mp hmatch)
    obtain ⟨spaces, t', later', hspaces, hlast, rfl⟩ := mem_ends_seq.mp hrest
    obtain ⟨chars, t'', later'', hchars, hempty, rfl⟩ := mem_ends_seq.mp hlast
    obtain ⟨rfl, rfl⟩ := mem_ends_empty.mp hempty
    obtain ⟨rfl, allSpaces, some⟩ := mem_ends_greedy.mp hspaces
    obtain ⟨rfl, allChars, enough⟩ := mem_ends_greedy.mp hchars
    rw [List.append_nil] at htaken
    refine ⟨word, spaces, chars, htaken, (ends_append hmatch).symm, ?_, allSpaces, some, allChars,
      enough⟩
    rwa [List.append_assoc]
  · rintro ⟨word, spaces, chars, htaken, hs, hword, allSpaces, some, allChars, enough⟩
    refine parts.mpr (mem_ends_seq.mpr ⟨word, _, spaces ++ chars, hword, ?_, htaken⟩)
    refine mem_ends_seq.mpr ⟨spaces, chars ++ tail, chars, ?_, ?_, rfl⟩
    · exact mem_ends_greedy.mpr ⟨(List.append_assoc _ _ _).symm, allSpaces, some⟩
    · refine mem_ends_seq.mpr ⟨chars, tail, [], ?_, mem_ends_empty.mpr ⟨rfl, rfl⟩, by simp⟩
      exact mem_ends_greedy.mpr ⟨rfl, allChars, enough⟩

/-- A bearer token covers a white space between two parts of a text when the first ends in its word
and the second goes on as one. -/
theorem bearerAcross_iff (hspace : isSpace c = true) (hc : table.isWord c = false)
    (avoids : bearerWord.avoids c = true) :
    NoneAcross table.isWord bearerToken a c b ↔ (EndsInBearer table a → StopsBearer b) := by
  constructor
  · rintro h ⟨front, word, n, rfl, hword, allN⟩ spaces chars rest rfl allSpaces allChars
    by_contra hlong
    refine h front (word ++ n) (spaces ++ chars) rest rfl (List.append_assoc _ _ _).symm ?_
    have hbefore := (@match_extend table.isWord bearerWord (spaces ++ (chars ++ rest)) front word n
      c rfl (by decide) hc).mp hword
    refine match_bearer.mpr ⟨word, n ++ c :: spaces, chars, by simp, by simp, ?_, ?_,
      by simp only [List.length_append, List.length_cons]; omega, allChars, Nat.le_of_not_lt hlong⟩
    · have hrest : n ++ c :: spaces ++ chars ++ rest = n ++ c :: (spaces ++ (chars ++ rest)) := by
        simp
      rw [hrest, List.append_assoc]
      exact hbefore
    · intro d hd
      rcases List.mem_append.mp hd with hd | hd
      · exact allN d hd
      · rcases List.mem_cons.mp hd with rfl | hd
        · exact hspace
        · exact allSpaces d hd
  · rintro stop front m m' tail rfl rfl hmatch
    obtain ⟨word, spaces, chars, htaken, hs, hword, allSpaces, _, allChars, enough⟩ :=
      match_bearer.mp hmatch
    obtain ⟨n, rfl, hafter⟩ := split_after (not_mem_of_avoids avoids hword) htaken
    have fresh : c ∉ chars := by
      intro hmem
      rw [isSpace_of_isBearerChar (allChars c hmem)] at hspace
      cases hspace
    obtain ⟨n', rfl, rfl⟩ := split_before fresh hafter.symm
    have ended : EndsInBearer table (front ++ (word ++ n)) := by
      refine ⟨front, word, n, rfl, ?_, fun d hd => allSpaces d (by simp [hd])⟩
      have hrest : n ++ c :: n' ++ chars ++ tail = n ++ c :: (n' ++ chars ++ tail) := by simp
      rw [hrest, List.append_assoc] at hword
      exact (match_extend rfl (by decide) hc).mpr hword
    have short := stop ended n' chars tail (List.append_assoc _ _ _)
      (fun d hd => allSpaces d (by simp [hd])) allChars
    omega

theorem noBearer_cut_iff (hspace : isSpace c = true) (hc : table.isWord c = false)
    (avoids : bearerWord.avoids c = true) : NoMatch table.isWord bearerToken (a ++ c :: b) ↔
      NoMatch table.isWord bearerToken a ∧ NoMatch table.isWord bearerToken b ∧
        (EndsInBearer table a → StopsBearer b) := by
  rw [noMatch_cut rfl (by decide) hc, bearerAcross_iff hspace hc avoids]

theorem noBearer_cut (hspace : isSpace c = true) (hc : table.isWord c = false)
    (avoids : bearerWord.avoids c = true)
    (stop : NoMatch table.isWord bearerWord a ∨ StopsBearer b) :
    NoMatch table.isWord bearerToken (a ++ c :: b) ↔
      NoMatch table.isWord bearerToken a ∧ NoMatch table.isWord bearerToken b := by
  rw [noBearer_cut_iff hspace hc avoids]
  refine ⟨fun h => ⟨h.1, h.2.1⟩, fun h => ⟨h.1, h.2, fun ended => ?_⟩⟩
  exact stop.resolve_left fun hnone => not_endsInBearer hnone ended

theorem stopsBearer_nil : StopsBearer [] := by
  intro spaces chars rest hs _ _
  have hnil := List.append_eq_nil_iff.mp (List.append_eq_nil_iff.mp hs.symm).2
  rw [hnil.1]
  decide

theorem stopsBearer_cut (hspace : isSpace c = true) : StopsBearer (a ++ c :: b) ↔
    StopsBearer a ∧ ((∀ d ∈ a, isSpace d = true) → StopsBearer b) := by
  constructor
  · intro h
    refine ⟨fun spaces chars rest hs => ?_, fun blank spaces chars rest hs allSpaces => ?_⟩
    · exact h spaces chars (rest ++ c :: b) (by rw [hs]; simp)
    · refine h (a ++ c :: spaces) chars rest (by rw [hs]; simp) fun d hd => ?_
      rcases List.mem_append.mp hd with hd | hd
      · exact blank d hd
      · rcases List.mem_cons.mp hd with rfl | hd
        · exact hspace
        · exact allSpaces d hd
  · rintro ⟨ha, hb⟩ spaces chars rest hs allSpaces allChars
    rcases List.append_eq_append_iff.mp hs with ⟨past, rfl, hover⟩ | ⟨past, rfl, hover⟩
    · cases past with
      | nil =>
        cases chars with
        | nil => decide
        | cons d chars =>
          obtain ⟨rfl, _⟩ := List.cons.inj hover
          rw [isSpace_of_isBearerChar (allChars c List.mem_cons_self)] at hspace
          cases hspace
      | cons d past =>
        obtain ⟨rfl, hlater⟩ := List.cons.inj hover
        exact hb (fun d hd => allSpaces d (List.mem_append_left _ hd)) past chars rest hlater
          (fun d hd => allSpaces d (by simp [hd])) allChars
    · have fresh : c ∉ chars := by
        intro hmem
        rw [isSpace_of_isBearerChar (allChars c hmem)] at hspace
        cases hspace
      obtain ⟨n, rfl, rfl⟩ := split_after fresh hover.symm
      exact ha spaces chars n rfl allSpaces allChars

end Bearer

section Texts

/-- The patterns that match within one word. -/
def wordPatterns : List Pattern := [awsAccessKey, jwt, databaseUrl, slackToken, githubPat, email]

theorem noSecret_parts : NoSecret table s ↔ (∀ r ∈ wordPatterns, NoMatch table.isWord r s) ∧
    NoMatch table.isWord bearerToken s ∧ NoMatch table.isWord privateKey s := by
  unfold NoSecret redactionPatterns wordPatterns
  simp only [List.forall_mem_cons, List.not_mem_nil, false_imp_iff, implies_true, and_true]
  constructor
  · rintro ⟨key, aws, token, url, bearer, slack, github, mail⟩
    exact ⟨⟨aws, token, url, slack, github, mail⟩, bearer, key⟩
  · rintro ⟨⟨aws, token, url, slack, github, mail⟩, bearer, key⟩
    exact ⟨key, aws, token, url, bearer, slack, github, mail⟩

theorem wordPatterns_shape : ∀ r ∈ wordPatterns, r.lineFree = true ∧ 0 < r.minLength ∧
    r.avoids '\n' = true ∧ r.avoids ' ' = true := by
  decide

theorem isWord_break (table : UnicodeTable) : table.isWord '\n' = false ∧ table.isWord ' ' = false :=
  ⟨isWord_eq table (by decide), isWord_eq table (by decide)⟩

/-- Texts, each at the beginning of a line. -/
def written (texts : List (List Char)) : List Char := texts.flatMap fun text => '\n' :: text

theorem written_cons (text : List Char) (texts : List (List Char)) :
    written (text :: texts) = '\n' :: (text ++ written texts) := rfl

theorem written_append (front back : List (List Char)) :
    written (front ++ back) = written front ++ written back := List.flatMap_append

theorem intercalate_written (line : String) (lines : List String) :
    (String.intercalate "\n" (line :: lines)).toList =
      line.toList ++ written (lines.map String.toList) := by
  induction lines generalizing line with
  | nil => simp [written]
  | cons next lines ih =>
    rw [String.intercalate_cons_cons, String.toList_append, String.toList_append, ih,
      List.map_cons, written_cons, List.append_assoc]
    rfl

theorem noMatch_written (lines : r.lineFree = true) (nonempty : 0 < r.minLength)
    (avoids : r.avoids '\n' = true) (texts : List (List Char)) :
    NoMatch table.isWord r (a ++ written texts) ↔
      ∀ text ∈ a :: texts, NoMatch table.isWord r text := by
  induction texts generalizing a with
  | nil => simp [written]
  | cons text texts ih =>
    rw [written_cons, noMatch_split lines nonempty (isWord_break table).1 avoids, ih]
    exact List.forall_mem_cons.symm

theorem stopsBearer_written (texts : List (List Char)) : StopsBearer (a ++ written texts) ↔
    ∀ middle next back, a :: texts = middle ++ next :: back →
      (∀ text ∈ middle, ∀ c ∈ text, isSpace c = true) → StopsBearer next := by
  induction texts generalizing a with
  | nil =>
    rw [written, List.flatMap_nil, List.append_nil]
    constructor
    · intro h middle next back heq _
      cases middle with
      | nil => rwa [← (List.cons.inj heq).1]
      | cons text middle => exact absurd (List.cons.inj heq).2 (by simp)
    · exact fun h => h [] a [] rfl (by simp)
  | cons text texts ih =>
    rw [written_cons, stopsBearer_cut (by decide), ih]
    constructor
    · rintro ⟨ha, hothers⟩ middle next back heq blank
      cases middle with
      | nil => rwa [← (List.cons.inj heq).1]
      | cons first middle =>
        obtain ⟨rfl, hlater⟩ := List.cons.inj heq
        obtain ⟨hfirst, blank⟩ := List.forall_mem_cons.mp blank
        exact hothers hfirst middle next back hlater blank
    · intro h
      refine ⟨h [] a (text :: texts) rfl (by simp), fun blank middle next back heq hmiddle => ?_⟩
      exact h (a :: middle) next back (by rw [heq]; rfl) (List.forall_mem_cons.mpr ⟨blank, hmiddle⟩)

/-- No bearer token begins on a line and goes on, past blank lines, on a later one. -/
def BearersStop (table : UnicodeTable) (lines : List (List Char)) : Prop :=
  ∀ front line middle next back, lines = front ++ line :: (middle ++ next :: back) →
    (∀ text ∈ middle, ∀ c ∈ text, isSpace c = true) → EndsInBearer table line → StopsBearer next

theorem bearersStop_cons {lines : List (List Char)} : BearersStop table (a :: lines) ↔
    (EndsInBearer table a → ∀ middle next back, lines = middle ++ next :: back →
      (∀ text ∈ middle, ∀ c ∈ text, isSpace c = true) → StopsBearer next) ∧
    BearersStop table lines := by
  constructor
  · intro h
    refine ⟨fun ended middle next back heq blank => ?_, fun front line middle next back heq => ?_⟩
    · exact h [] a middle next back (by rw [heq]; rfl) blank ended
    · exact h (a :: front) line middle next back (by rw [heq]; rfl)
  · rintro ⟨hfirst, hothers⟩ front line middle next back heq blank ended
    cases front with
    | nil =>
      obtain ⟨rfl, hlater⟩ := List.cons.inj heq
      exact hfirst ended middle next back hlater blank
    | cons first front =>
      exact hothers front line middle next back (List.cons.inj heq).2 blank ended

theorem noBearer_written_iff (texts : List (List Char)) :
    NoMatch table.isWord bearerToken (a ++ written texts) ↔
      (∀ text ∈ a :: texts, NoMatch table.isWord bearerToken text) ∧
        BearersStop table (a :: texts) := by
  induction texts generalizing a with
  | nil =>
    rw [bearersStop_cons]
    simp [written, BearersStop]
  | cons text texts ih =>
    rw [written_cons, noBearer_cut_iff (by decide) (isWord_break table).1 (by decide), ih,
      stopsBearer_written, bearersStop_cons (a := a), List.forall_mem_cons (a := a)]
    constructor
    · rintro ⟨ha, ⟨hothers, hstop⟩, hfirst⟩
      exact ⟨⟨ha, hothers⟩, hfirst, hstop⟩
    · rintro ⟨⟨ha, hothers⟩, hfirst, hstop⟩
      exact ⟨ha, ⟨hothers, hstop⟩, hfirst⟩

theorem bearersStop_of_starts {texts : List (List Char)} (stop : ∀ text ∈ texts, StopsAtStart text) :
    BearersStop table (a :: texts) := by
  intro front line middle next back heq _ _
  have hmem : next ∈ texts := by
    cases front with
    | nil => simp [(List.cons.inj heq).2]
    | cons first front => simp [(List.cons.inj heq).2]
  obtain ⟨start, rest, rfl, hstart⟩ := stop next hmem
  exact stopsBearer_append hstart rest

theorem contains_written (avoids : r.avoids '\n' = true) (texts : List (List Char)) :
    Contains r (a ++ written texts) ↔ ∃ text ∈ a :: texts, Contains r text := by
  induction texts generalizing a with
  | nil => simp [written]
  | cons text texts ih =>
    rw [written_cons, contains_cut avoids, ih]
    exact (List.exists_mem_cons_iff _ _ _).symm

theorem noKey_written (texts : List (List Char)) :
    NoMatch table.isWord privateKey (a ++ written texts) ↔
      (∀ text ∈ a :: texts, NoMatch table.isWord privateKey text) ∧
        (a :: texts).Pairwise KeyApart := by
  induction texts generalizing a with
  | nil => simp [written]
  | cons text texts ih =>
    have closing : ∀ other ∈ text :: texts, Contains keyClosing other →
        Contains keyClosing (text ++ written texts) :=
      fun other hmem h => (contains_written (by decide) texts).mpr ⟨other, hmem, h⟩
    rw [written_cons, noKey_cut, ih]
    constructor
    · rintro ⟨ha, ⟨hothers, hpairs⟩, apart⟩
      refine ⟨List.forall_mem_cons.mpr ⟨ha, hothers⟩, List.pairwise_cons.mpr ⟨?_, hpairs⟩⟩
      exact fun other hmem h => apart ⟨h.1, closing other hmem h.2⟩
    · rintro ⟨hall, hpairs⟩
      obtain ⟨ha, hothers⟩ := List.forall_mem_cons.mp hall
      obtain ⟨apart, hpairs⟩ := List.pairwise_cons.mp hpairs
      refine ⟨ha, ⟨hothers, hpairs⟩, fun ⟨hopen, hclose⟩ => ?_⟩
      obtain ⟨other, hmem, h⟩ := (contains_written (by decide) texts).mp hclose
      exact apart other hmem ⟨hopen, h⟩

/-- Lines hold no secret when none does alone and none runs through several. -/
theorem noSecret_written_iff (texts : List (List Char)) : NoSecret table (a ++ written texts) ↔
    (∀ text ∈ a :: texts, NoSecret table text) ∧ BearersStop table (a :: texts) ∧
      (a :: texts).Pairwise KeyApart := by
  have words : (∀ r ∈ wordPatterns, NoMatch table.isWord r (a ++ written texts)) ↔
      ∀ text ∈ a :: texts, ∀ r ∈ wordPatterns, NoMatch table.isWord r text := by
    constructor
    · intro h text htext r hr
      obtain ⟨lines, nonempty, avoids, _⟩ := wordPatterns_shape r hr
      exact (noMatch_written lines nonempty avoids texts).mp (h r hr) text htext
    · intro h r hr
      obtain ⟨lines, nonempty, avoids, _⟩ := wordPatterns_shape r hr
      exact (noMatch_written lines nonempty avoids texts).mpr fun text htext => h text htext r hr
  rw [noSecret_parts, words, noBearer_written_iff, noKey_written]
  simp only [noSecret_parts]
  constructor
  · rintro ⟨hwords, ⟨hbearer, hstop⟩, hkeys, hpairs⟩
    exact ⟨fun text h => ⟨hwords text h, hbearer text h, hkeys text h⟩, hstop, hpairs⟩
  · rintro ⟨h, hstop, hpairs⟩
    exact ⟨fun text hmem => (h text hmem).1, ⟨fun text hmem => (h text hmem).2.1, hstop⟩,
      fun text hmem => (h text hmem).2.2, hpairs⟩

/-- Lines that stop a bearer token hold no secret when none does alone and no private key runs
through them. -/
theorem noSecret_written (texts : List (List Char)) (stop : ∀ text ∈ texts, StopsAtStart text) :
    NoSecret table (a ++ written texts) ↔
      (∀ text ∈ a :: texts, NoSecret table text) ∧ (a :: texts).Pairwise KeyApart := by
  rw [noSecret_written_iff]
  exact ⟨fun h => ⟨h.1, h.2.2⟩, fun h => ⟨h.1, bearersStop_of_starts stop, h.2⟩⟩

end Texts

section Leads

/-- The patterns that the text around a shown piece must not match, so that only the piece can
hold a secret. -/
def leadPatterns : List Pattern :=
  wordPatterns ++ [bearerWord, Aegis.text "-----BEGIN", Aegis.text "-----END"]

/-- A text that neither holds nor begins a secret. -/
def NoLead (table : UnicodeTable) (lead : List Char) : Prop :=
  ∀ r ∈ leadPatterns, NoMatch table.isWord r lead

theorem noLead_of_chars {chars : List Char} (unable : ∀ r ∈ leadPatterns, r.canUse chars = false)
    (plain : ∀ c ∈ lead, c ∈ chars) : NoLead table lead :=
  fun r hr => noMatch_of_chars (unable r hr) plain

theorem noLead_literal (unable : (leadPatterns.all fun r => !r.canUse lead) = true) :
    NoLead table lead :=
  noLead_of_chars (fun r hr => by simpa using List.all_eq_true.mp unable r hr) fun _ hc => hc

theorem leadPatterns_shape : ∀ r ∈ leadPatterns, r.lineFree = true ∧ 0 < r.minLength ∧
    r.avoids ' ' = true := by
  decide

theorem noLead_words (ha : NoLead table a) (hb : NoLead table b) : NoLead table (a ++ ' ' :: b) := by
  intro r hr
  obtain ⟨lines, nonempty, avoids⟩ := leadPatterns_shape r hr
  exact (noMatch_split lines nonempty (isWord_break table).2 avoids).mpr ⟨ha r hr, hb r hr⟩

theorem not_infix_of_noMatch {word : String} (h : NoMatch table.isWord (Aegis.text word) s) :
    ¬word.toList <:+: s := by
  rintro ⟨front, back, rfl⟩
  refine noMatch_iff.mp h front word.toList back (List.append_assoc _ _ _) ?_
  exact mem_ends_literal.mpr ⟨rfl, rfl⟩

theorem spells_opening {x : List Char} (h : Spells keyOpening x) :
    ∃ label, x = "-----BEGIN".toList ++ ' ' :: label := by
  obtain ⟨m, t, later, hmark, _, rfl⟩ := mem_ends_seq.mp h
  obtain ⟨rfl, _⟩ := mem_ends_literal.mp hmark
  exact ⟨later, rfl⟩

theorem spells_closing {x : List Char} (h : Spells keyClosing x) :
    ∃ label, x = "-----END".toList ++ ' ' :: label := by
  obtain ⟨m, t, later, hmark, _, rfl⟩ := mem_ends_seq.mp h
  obtain ⟨rfl, _⟩ := mem_ends_literal.mp hmark
  exact ⟨later, rfl⟩

theorem contains_lead {word : String} (spelled : ∀ x, Spells r x →
      ∃ label, x = word.toList ++ ' ' :: label)
    (fresh : ' ' ∉ word.toList) (ne : word.toList ≠ [])
    (plain : NoMatch table.isWord (Aegis.text word) lead) :
    Contains r (lead ++ ' ' :: piece) ↔ Contains r piece := by
  constructor
  · rintro ⟨x, hx, hin⟩
    obtain ⟨label, rfl⟩ := spelled x hx
    rcases infix_cut_word fresh ne hin with hword | hin
    · exact absurd hword (not_infix_of_noMatch plain)
    · exact ⟨_, hx, hin⟩
  · exact fun h => h.mono (List.infix_append_of_infix_right (List.infix_cons (List.infix_refl _)))

theorem not_contains_lead {word : String} (spelled : ∀ x, Spells r x →
      ∃ label, x = word.toList ++ ' ' :: label)
    (plain : NoMatch table.isWord (Aegis.text word) lead) : ¬Contains r lead := by
  rintro ⟨x, hx, hin⟩
  obtain ⟨label, rfl⟩ := spelled x hx
  exact not_infix_of_noMatch plain (List.infix_append_left.trans hin)

theorem opening_fresh : ' ' ∉ "-----BEGIN".toList ∧ "-----BEGIN".toList ≠ [] := by decide

theorem closing_fresh : ' ' ∉ "-----END".toList ∧ "-----END".toList ≠ [] := by decide

theorem NoLead.word (h : NoLead table lead) (hr : r ∈ wordPatterns) : NoMatch table.isWord r lead :=
  h r (List.mem_append_left _ hr)

theorem NoLead.bearer (h : NoLead table lead) : NoMatch table.isWord bearerWord lead :=
  h _ (List.mem_append_right _ (by simp))

theorem NoLead.opening (h : NoLead table lead) :
    NoMatch table.isWord (Aegis.text "-----BEGIN") lead :=
  h _ (List.mem_append_right _ (by simp))

theorem NoLead.closing (h : NoLead table lead) :
    NoMatch table.isWord (Aegis.text "-----END") lead :=
  h _ (List.mem_append_right _ (by simp))

theorem noKey_lead (h : NoLead table lead) :
    NoMatch table.isWord privateKey (lead ++ ' ' :: piece) ↔
      NoMatch table.isWord privateKey piece := by
  rw [noKey_iff, noKey_iff]
  constructor
  · rintro hnone u v rfl hopen
    refine hnone (lead ++ ' ' :: u) v (by simp) ?_
    exact (contains_lead (fun _ => spells_opening) opening_fresh.1 opening_fresh.2 h.opening).mpr hopen
  · intro hnone u v hs hopen hclose
    have within : ∀ other, u <:+: other → other = lead → False := by
      rintro other hin rfl
      exact not_contains_lead (fun _ => spells_opening) h.opening (hopen.mono hin)
    rcases List.append_eq_append_iff.mp hs with ⟨later, rfl, hrest⟩ | ⟨past, hlead, _⟩
    · cases later with
      | nil => exact within _ (List.infix_refl _) (List.append_nil lead)
      | cons d later =>
        obtain ⟨rfl, rfl⟩ := List.cons.inj hrest
        rw [contains_lead (fun _ => spells_opening) opening_fresh.1 opening_fresh.2 h.opening]
          at hopen
        exact hnone later v rfl hopen hclose
    · exact within _ List.infix_append_left hlead.symm

theorem noSecret_lead (h : NoLead table lead) :
    NoSecret table (lead ++ ' ' :: piece) ↔ NoSecret table piece := by
  have words : ∀ r ∈ wordPatterns, NoMatch table.isWord r (lead ++ ' ' :: piece) ↔
      NoMatch table.isWord r piece := by
    intro r hr
    obtain ⟨lines, nonempty, _, avoids⟩ := wordPatterns_shape r hr
    rw [noMatch_split lines nonempty (isWord_break table).2 avoids]
    exact ⟨fun h => h.2, fun hpiece => ⟨h.word hr, hpiece⟩⟩
  have bearer : NoMatch table.isWord bearerToken lead := by
    rw [noMatch_iff]
    rintro front taken tail rfl hmatch
    obtain ⟨word, t, later, hword, _, rfl⟩ := mem_ends_seq.mp
      ((@mem_ends_all_append table.isWord _ _ _ _ [boundary, caseless "bearer".toList]
        [greedy isSpace 1, greedy isBearerChar 8]).mp hmatch)
    have hrest : t = later ++ tail :=
      List.append_cancel_left ((ends_append hword).trans (List.append_assoc _ _ _))
    refine noMatch_iff.mp h.bearer front word (later ++ tail) (by simp) ?_
    rwa [List.append_assoc, hrest] at hword
  rw [noSecret_parts, noSecret_parts, noKey_lead h, noBearer_cut (by decide) (isWord_break table).2
    (by decide) (.inl h.bearer), forall₂_congr words]
  exact ⟨fun ⟨hwords, hbearer, hkey⟩ => ⟨hwords, hbearer.2, hkey⟩,
    fun ⟨hwords, hbearer, hkey⟩ => ⟨hwords, ⟨bearer, hbearer⟩, hkey⟩⟩

theorem NoLead.noSecret (h : NoLead table lead) : NoSecret table lead := by
  have : NoSecret table (lead ++ ' ' :: []) := (noSecret_lead h).mpr noSecret_nil
  obtain ⟨hwords, hbearer, hkey⟩ := noSecret_parts.mp this
  refine noSecret_parts.mpr ⟨fun r hr => h.word hr, ?_, ?_⟩
  · exact ((noBearer_cut (by decide) (isWord_break table).2 (by decide) (.inl h.bearer)).mp hbearer).1
  · exact noKey_iff.mpr fun u v hs hopen _ =>
      not_contains_lead (fun _ => spells_opening) h.opening
        (hopen.mono (by rw [hs]; exact List.infix_append_left))

/-- A line of a document: a text of the program's own, and what it shows after it. -/
structure ShownLine where
  lead : List Char
  piece : Option (List Char)

def ShownLine.text (line : ShownLine) : List Char :=
  match line.piece with
  | none => line.lead
  | some piece => line.lead ++ ' ' :: piece

theorem noSecret_line {line : ShownLine} (h : NoLead table line.lead) :
    NoSecret table line.text ↔ ∀ piece ∈ line.piece, NoSecret table piece := by
  unfold ShownLine.text
  cases line.piece with
  | none => simpa using h.noSecret
  | some piece => simpa using noSecret_lead h

theorem keyApart_lines {line other : ShownLine} (h : NoLead table line.lead)
    (hother : NoLead table other.lead) : KeyApart line.text other.text ↔
      ∀ piece ∈ line.piece, ∀ later ∈ other.piece, KeyApart piece later := by
  have opening : Contains keyOpening line.text ↔ ∃ piece ∈ line.piece, Contains keyOpening piece := by
    unfold ShownLine.text
    cases line.piece with
    | none => simpa using not_contains_lead (fun _ => spells_opening) h.opening
    | some piece =>
      simpa using contains_lead (fun _ => spells_opening) opening_fresh.1 opening_fresh.2 h.opening
  have closing : Contains keyClosing other.text ↔
      ∃ piece ∈ other.piece, Contains keyClosing piece := by
    unfold ShownLine.text
    cases other.piece with
    | none => simpa using not_contains_lead (fun _ => spells_closing) hother.closing
    | some piece =>
      simpa using contains_lead (fun _ => spells_closing) closing_fresh.1 closing_fresh.2 hother.closing
  rw [KeyApart, opening, closing]
  constructor
  · exact fun hnone piece hpiece later hlater hboth =>
      hnone ⟨⟨piece, hpiece, hboth.1⟩, later, hlater, hboth.2⟩
  · rintro hall ⟨⟨piece, hpiece, hopen⟩, later, hlater, hclose⟩
    exact hall piece hpiece later hlater ⟨hopen, hclose⟩

/-- A document holds no secret when none of the shown pieces does and no private key begins in one
of them and ends in a later one. -/
theorem noSecret_document {first : ShownLine} {lines : List ShownLine}
    (leads : ∀ line ∈ first :: lines, NoLead table line.lead)
    (stop : ∀ line ∈ lines, StopsAtStart line.text) :
    NoSecret table (first.text ++ written (lines.map ShownLine.text)) ↔
      (∀ piece ∈ (first :: lines).filterMap ShownLine.piece, NoSecret table piece) ∧
        ((first :: lines).filterMap ShownLine.piece).Pairwise KeyApart := by
  rw [noSecret_written _ (by simpa using stop), ← List.map_cons, List.forall_mem_map,
    List.pairwise_map, List.pairwise_filterMap]
  have pieces : (∀ line ∈ first :: lines, NoSecret table line.text) ↔
      ∀ piece ∈ (first :: lines).filterMap ShownLine.piece, NoSecret table piece := by
    rw [forall₂_congr fun line hline => noSecret_line (leads line hline)]
    simp only [List.mem_filterMap]
    exact ⟨fun h piece ⟨line, hline, hpiece⟩ => h line hline piece hpiece,
      fun h line hline piece hpiece => h piece ⟨line, hline, hpiece⟩⟩
  rw [pieces]
  refine and_congr_right fun _ => ?_
  constructor
  · intro hpairs
    refine hpairs.imp_of_mem fun hline hother hapart => ?_
    simpa using (keyApart_lines (leads _ hline) (leads _ hother)).mp hapart
  · intro hpairs
    refine hpairs.imp_of_mem fun hline hother hapart => ?_
    exact (keyApart_lines (leads _ hline) (leads _ hother)).mpr (by simpa using hapart)

end Leads

end Aegis
