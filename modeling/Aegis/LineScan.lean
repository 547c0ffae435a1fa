import Aegis.Regex

namespace Regex

/-- Every line but the first begins as `P` says. -/
def AtLines (P : List Char → Prop) (s : List Char) : Prop :=
  ∀ a b, s = a ++ '\n' :: b → P b

section Reading

variable {Item : Type} (f : List Char → List Item)

/-- What `f` reads at the beginnings of the lines of a text. -/
def readLines : Option Char → List Char → List Item
  | _, [] => []
  | prev, c :: s => (if atLineStart prev then f (c :: s) else []) ++ readLines (some c) s

/-- The same for the lines that begin in the first of two parts of a text. -/
def readWithin : Option Char → List Char → List Char → List Item
  | _, [], _ => []
  | prev, c :: s, rest =>
    (if atLineStart prev then f (c :: s ++ rest) else []) ++ readWithin (some c) s rest

end Reading

section Lines

attribute [local simp] readLines readWithin

variable {Item : Type} {f : List Char → List Item} {P : List Char → Prop} {prev : Option Char}
  {s t taken rest : List Char}

theorem atLines_tail {c : Char} (h : AtLines P (c :: s)) : AtLines P s := by
  rintro a b rfl
  exact h (c :: a) b rfl

theorem atLines_right (h : AtLines P (s ++ t)) : AtLines P t := by
  rintro a b rfl
  exact h (s ++ a) b (by simp)

theorem atLines_head (h : AtLines P ('\n' :: s)) : P s := h [] s rfl

theorem atLineStart_some (c : Char) : atLineStart (some c) = decide (c = '\n') := rfl

/-- After a text without line feeds no line begins. -/
theorem not_atLineStart_before (h : '\n' ∉ s) (ne : s ≠ []) :
    atLineStart (before prev s) = false := by
  obtain ⟨t, c, rfl⟩ := List.eq_nil_or_concat s |>.resolve_left ne
  rw [List.concat_eq_append, before_concat, atLineStart_some]
  have : c ≠ '\n' := by
    rintro rfl
    simp at h
  simpa using this

/-- A line feed of two parts, the first of which has none, stands in the second. -/
theorem lineFeed_right {a b : List Char} (h : s ++ t = a ++ '\n' :: b) (notFirst : '\n' ∉ s) :
    ∃ a', t = a' ++ '\n' :: b := by
  induction s generalizing a with
  | nil => exact ⟨a, h⟩
  | cons c s ih =>
    cases a with
    | nil => exact absurd (List.mem_cons.mpr (.inl (List.cons.inj h).1.symm)) notFirst
    | cons x a =>
      exact ih (List.cons.inj h).2 fun hmem => notFirst (List.mem_cons_of_mem _ hmem)

theorem readLines_append (prev : Option Char) (s t : List Char) :
    readLines f prev (s ++ t) = readWithin f prev s t ++ readLines f (before prev s) t := by
  induction s generalizing prev with
  | nil => rfl
  | cons c s ih =>
    rw [List.cons_append, readLines, readWithin, ih, List.append_assoc]
    rfl

theorem readWithin_append (prev : Option Char) (s t rest : List Char) :
    readWithin f prev (s ++ t) rest =
      readWithin f prev s (t ++ rest) ++ readWithin f (before prev s) t rest := by
  induction s generalizing prev with
  | nil => rfl
  | cons c s ih =>
    rw [List.cons_append, readWithin, readWithin, ih, List.append_assoc, before_cons,
      List.cons_append, List.cons_append, List.append_assoc]

/-- No line begins in a part without line feeds. -/
theorem readWithin_of_not_mem (start : atLineStart prev = false) (h : '\n' ∉ s) :
    readWithin f prev s rest = [] := by
  induction s generalizing prev with
  | nil => rfl
  | cons c s ih =>
    obtain ⟨hc, hs⟩ := not_or.mp fun h' => h (List.mem_cons.mpr h')
    simp only [readWithin, start, Bool.false_eq_true, if_false, List.nil_append]
    exact ih (by simpa [atLineStart_some] using Ne.symm hc) hs

theorem readLines_prev {other : Option Char} (start : atLineStart prev = false)
    (start' : atLineStart other = false) (s : List Char) :
    readLines f prev s = readLines f other s := by
  cases s with
  | nil => rfl
  | cons c s => simp [start, start']

/-- Something is read in the first part: at its beginning, or after a line feed in it. -/
theorem readWithin_ne_nil (h : readWithin f prev s rest ≠ []) :
    (atLineStart prev = true ∧ s ≠ [] ∧ f (s ++ rest) ≠ []) ∨
      ∃ a b, s = a ++ '\n' :: b ∧ b ≠ [] ∧ f (b ++ rest) ≠ [] := by
  induction s generalizing prev with
  | nil => exact absurd rfl h
  | cons c s ih =>
    rw [readWithin] at h
    by_cases hlater : readWithin f (some c) s rest = []
    · rw [hlater, List.append_nil] at h
      split at h
      next hstart => exact .inl ⟨hstart, List.cons_ne_nil c s, h⟩
      · exact absurd rfl h
    · refine .inr ?_
      rcases ih hlater with ⟨hstart, hs, hread⟩ | ⟨a, b, rfl, hb, hread⟩
      · rw [atLineStart_some, decide_eq_true_eq] at hstart
        exact ⟨[], s, by rw [hstart]; rfl, hs, hread⟩
      · exact ⟨c :: a, b, rfl, hb, hread⟩

theorem readWithin_of_split {a b : List Char} (ne : b ≠ []) (read : f (b ++ rest) ≠ []) :
    readWithin f prev (a ++ '\n' :: b) rest ≠ [] := by
  rw [readWithin_append, readWithin]
  cases b with
  | nil => exact absurd rfl ne
  | cons c b =>
    intro hnil
    have hsecond := (List.append_eq_nil_iff.mp (List.append_eq_nil_iff.mp hnil).2).2
    rw [readWithin, atLineStart_some, if_pos (decide_eq_true rfl)] at hsecond
    exact read (List.append_eq_nil_iff.mp hsecond).1

theorem mem_readLines {item : Item} (h : item ∈ readLines f prev s) :
    (atLineStart prev = true ∧ s ≠ [] ∧ item ∈ f s) ∨ ∃ a b, s = a ++ '\n' :: b ∧ item ∈ f b := by
  induction s generalizing prev with
  | nil => cases h
  | cons c s ih =>
    rw [readLines] at h
    rcases List.mem_append.mp h with hfirst | hlater
    · split at hfirst
      next hstart => exact .inl ⟨hstart, List.cons_ne_nil c s, hfirst⟩
      · cases hfirst
    · rcases ih hlater with ⟨hstart, _, hread⟩ | ⟨a, b, rfl, hread⟩
      · rw [atLineStart_some, decide_eq_true_eq] at hstart
        exact .inr ⟨[], s, by rw [hstart]; rfl, hread⟩
      · exact .inr ⟨c :: a, b, rfl, hread⟩

theorem atLines_next {c : Char} (h : AtLines P (c :: s)) (start : atLineStart (some c) = true) :
    P s := by
  rw [atLineStart_some, decide_eq_true_eq] at start
  rw [start] at h
  exact atLines_head h

/-- The items of one kind among those read are what another reading finds. -/
theorem readLines_filter {Other : Type} {p : Item → Bool} {g : List Char → List Other}
    {k : Other → Item} (same : ∀ b, P b → (f b).filter p = (g b).map k) (lines : AtLines P s)
    (first : atLineStart prev = true → s ≠ [] → P s) :
    (readLines f prev s).filter p = (readLines g prev s).map k := by
  induction s generalizing prev with
  | nil => rfl
  | cons c s ih =>
    have later := @ih (some c) (atLines_tail lines) fun start _ => atLines_next lines start
    rw [readLines, readLines, List.filter_append, List.map_append, later]
    split
    next start => rw [same _ (first start (List.cons_ne_nil c s))]
    · rfl

end Lines

/-- A substitution that leaves the beginnings of lines alone, unless a match covers them. -/
structure KeepsLines {Item : Type} (isWord : Char → Bool) (r : Pattern) (marker : List Char)
    (P : List Char → Prop) (f : List Char → List Item) : Prop where
  marked : marker ≠ []
  oneLine : '\n' ∉ marker
  calm : ∀ {prev s}, atLineStart prev = true → P s → ends isWord r prev s = []
  kind : ∀ {prev s cut}, atLineStart prev = true → P s → Scan isWord r prev s cut →
    P (replaced marker cut)
  read : ∀ {prev s cut}, atLineStart prev = true → P s → Scan isWord r prev s cut →
    f (replaced marker cut) = f s
  ending : ∀ {prev taken rest}, (taken, rest) ∈ ends isWord r prev (taken ++ rest) →
    atLineStart (before prev taken) = false

section Keeping

variable {Item : Type} {isWord : Char → Bool} {r : Pattern} {marker : List Char}
  {P : List Char → Prop} {f : List Char → List Item} {prev : Option Char} {s : List Char}
  {cut : List Piece}

/-- No match begins at the beginning of a line. -/
theorem KeepsLines.inLine (keeps : KeepsLines isWord r marker P f)
    (first : atLineStart prev = true → P s) {taken rest : List Char}
    (h : (taken, rest) ∈ ends isWord r prev s) : atLineStart prev = false := by
  cases start : atLineStart prev with
  | false => rfl
  | true =>
    rw [keeps.calm start (first start)] at h
    cases h

/-- After the substitution the lines still begin as they should. -/
theorem atLines_replaced (keeps : KeepsLines isWord r marker P f)
    (scan : Scan isWord r prev s cut) (lines : AtLines P s) : AtLines P (replaced marker cut) := by
  induction scan with
  | stop => exact lines
  | @char prev c s cut _ hscan ih =>
    rintro a b hsplit
    rw [replaced_char] at hsplit
    cases a with
    | nil =>
      obtain ⟨rfl, rfl⟩ := List.cons.inj hsplit
      exact keeps.kind rfl (atLines_head lines) hscan
    | cons x a =>
      obtain ⟨_, hrest⟩ := List.cons.inj hsplit
      exact ih (atLines_tail lines) a b hrest
  | @hit prev taken rest cut _ _ _ ih =>
    rintro a b hsplit
    rw [replaced_hit] at hsplit
    obtain ⟨a', hrest⟩ := lineFeed_right hsplit keeps.oneLine
    exact ih (atLines_right lines) a' b hrest

/-- What `f` reads at the beginnings of the lines that no match covers. -/
def readOutside (f : List Char → List Item) : Option Char → List Piece → List Item
  | _, [] => []
  | prev, .char c :: cut =>
    (if atLineStart prev then f (c :: cut.flatMap Piece.source) else []) ++
      readOutside f (some c) cut
  | prev, .hit taken :: cut => readOutside f (before prev taken) cut

theorem readOutside_sublist (scan : Scan isWord r prev s cut) :
    (readOutside f prev cut).Sublist (readLines f prev s) := by
  induction scan with
  | stop => exact List.Sublist.refl _
  | char _ hscan ih =>
    rw [readOutside, readLines, scan_source hscan]
    exact ih.append_left _
  | hit _ _ _ ih =>
    rw [readOutside, readLines_append]
    exact ih.trans (List.sublist_append_right _ _)

/-- After the substitution the lines read as those that no match covers. -/
theorem readLines_replaced (keeps : KeepsLines isWord r marker P f)
    (scan : Scan isWord r prev s cut) (lines : AtLines P s)
    (first : atLineStart prev = true → s ≠ [] → P s) :
    readLines f prev (replaced marker cut) = readOutside f prev cut := by
  induction scan with
  | stop => rfl
  | @char prev c s cut hnone hscan ih =>
    have later := ih (atLines_tail lines) fun hc _ => atLines_next lines hc
    rw [replaced_char, readLines, readOutside, later, scan_source hscan]
    split
    next start =>
      have := keeps.read start (first start (List.cons_ne_nil c s)) (.char hnone hscan)
      rw [← this, replaced_char]
    · rfl
  | @hit prev taken rest cut hne hmatch hscan ih =>
    have inLine := keeps.inLine (fun start => first start (by simp [hne])) hmatch
    have later := ih (atLines_right lines) fun start _ =>
      absurd start (by simp [keeps.ending hmatch])
    rw [replaced_hit, readOutside, ← later, readLines_append,
      readWithin_of_not_mem inLine keeps.oneLine, List.nil_append]
    exact readLines_prev (not_atLineStart_before keeps.oneLine keeps.marked)
      (keeps.ending hmatch) _

/-- No line that is read is lost exactly when no match covers the beginning of one. -/
theorem readOutside_eq_iff {covers : List Char → Prop} (keeps : KeepsLines isWord r marker P f)
    (covered : ∀ {prev taken rest}, atLineStart prev = false →
      (taken, rest) ∈ ends isWord r prev (taken ++ rest) →
      (readWithin f prev taken rest ≠ [] ↔ covers taken))
    (scan : Scan isWord r prev s cut) (lines : AtLines P s)
    (first : atLineStart prev = true → s ≠ [] → P s) :
    readOutside f prev cut = readLines f prev s ↔ ∀ taken ∈ hits cut, ¬covers taken := by
  induction scan with
  | stop => simp [readOutside, readLines]
  | @char prev c s cut hnone hscan ih =>
    have later := ih (atLines_tail lines) fun hc _ => atLines_next lines hc
    rw [readOutside, readLines, scan_source hscan, hits_char, ← later]
    exact List.append_right_inj _
  | @hit prev taken rest cut hne hmatch hscan ih =>
    have inLine := keeps.inLine (fun start => first start (by simp [hne])) hmatch
    have later := ih (atLines_right lines) fun start _ =>
      absurd start (by simp [keeps.ending hmatch])
    have sub := @readOutside_sublist _ _ _ f _ _ _ hscan
    rw [readOutside, readLines_append, hits_hit, List.forall_mem_cons, ← later,
      ← covered inLine hmatch, not_not]
    constructor
    · intro h
      have hlength := congrArg List.length h
      rw [List.length_append] at hlength
      have hle := sub.length_le
      have hnil : readWithin f prev taken rest = [] := List.eq_nil_of_length_eq_zero (by omega)
      rw [hnil, List.nil_append] at h
      exact ⟨hnil, h⟩
    · rintro ⟨hnil, h⟩
      rw [hnil, List.nil_append, h]

/-- A pattern that begins at the beginning of a line reads lines, where a match lies in its line. -/
theorem hits_lineStart {q : Pattern} {f : List Char → List (List Char)}
    (found : ∀ {prev taken rest}, atLineStart prev = true → P (taken ++ rest) →
      (taken, rest) ∈ ends isWord q prev (taken ++ rest) → f (taken ++ rest) = [taken] ∧ '\n' ∉ taken)
    (missed : ∀ {prev s}, atLineStart prev = true → P s → ends isWord q prev s = [] → f s = [])
    (scan : Scan isWord (.seq .lineStart q) prev s cut) (lines : AtLines P s)
    (first : atLineStart prev = true → s ≠ [] → P s) : hits cut = readLines f prev s := by
  induction scan with
  | stop => rfl
  | @char prev c s cut hnone hscan ih =>
    have later := ih (atLines_tail lines) fun hc _ => atLines_next lines hc
    rw [hits_char, later, readLines]
    split
    next start =>
      have hq : ends isWord q prev (c :: s) = [] := by
        rw [List.eq_nil_iff_forall_not_mem] at hnone ⊢
        rintro ⟨taken, rest⟩ hmatch
        exact hnone (taken, rest) (mem_ends_seq.mpr ⟨[], c :: s, taken,
          mem_ends_lineStart.mpr ⟨start, rfl, rfl⟩, hmatch, rfl⟩)
      rw [missed start (first start (List.cons_ne_nil c s)) hq, List.nil_append]
    · rfl
  | @hit prev taken rest cut hne hmatch hscan ih =>
    obtain ⟨m, t, line, hmark, hq, htaken⟩ := mem_ends_seq.mp hmatch
    obtain ⟨start, rfl, rfl⟩ := mem_ends_lineStart.mp hmark
    obtain rfl : taken = line := htaken
    obtain ⟨hread, oneLine⟩ := found start (first start (by simp [hne])) hq
    have later := ih (atLines_right lines) fun hend _ =>
      absurd hend (by simp [not_atLineStart_before oneLine hne])
    obtain ⟨c, t, rfl⟩ := List.exists_cons_of_ne_nil hne
    obtain ⟨hc, ht⟩ := not_or.mp fun h' => oneLine (List.mem_cons.mpr h')
    have hinside : readWithin f (some c) t rest = [] :=
      readWithin_of_not_mem (by simpa [atLineStart_some] using Ne.symm hc) ht
    rw [hits_hit, later, readLines_append, readWithin, if_pos start, hread, hinside]
    rfl

end Keeping

end Regex
