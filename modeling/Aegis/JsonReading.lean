import Aegis.JsonReader

namespace JsonReader

section Values

variable {text rest t gap : List Char} {j : Json} {js : List Json}
  {fields : List (List Char × Json)} {fuel : Nat}

theorem after_eq_some {word : List Char} : after word text = some rest ↔ text = word ++ rest := by
  unfold after
  constructor
  · intro h
    split at h
    next hword =>
      cases h
      exact (List.prefix_iff_eq_append.mp (List.prefix_iff_eq_take.mpr hword.symm)).symm
    next => cases h
  · rintro rfl
    rw [List.take_left, if_pos rfl, List.drop_left]

theorem blank_nil : Blank [] := by simp [Blank]

theorem skip_split (text : List Char) : ∃ gap, Blank gap ∧ text = gap ++ skip text :=
  ⟨text.takeWhile isBlank, fun _ hc => List.mem_takeWhile_imp hc,
    List.takeWhile_append_dropWhile.symm⟩

theorem skip_blank (h : Blank gap) : skip (gap ++ text) = skip text :=
  List.dropWhile_append_of_pos h

theorem skip_self {c : Char} (h : isBlank c = false) : skip (c :: text) = c :: text :=
  List.dropWhile_cons_of_neg (by rw [h]; decide)

theorem cons_of_head {c : Char} (h : text.head? = some c) : text = c :: text.drop 1 := by
  cases text with
  | nil => cases h
  | cons d rest => cases h; rfl

/-- What a reader finds behind blanks. -/
theorem skip_head {c : Char} (h : (skip text).head? = some c) :
    ∃ gap later, Blank gap ∧ text = gap ++ c :: later ∧ (skip text).drop 1 = later := by
  obtain ⟨gap, blank, hsplit⟩ := skip_split text
  exact ⟨gap, _, blank, by rw [← cons_of_head h]; exact hsplit, rfl⟩

section Soundness

/-- The readers of fuel `fuel` read nothing that is not there. -/
structure ReadsSound (fuel : Nat) : Prop where
  value : ∀ {text rest j}, value fuel text = some (j, rest) → ∃ t, text = t ++ rest ∧ Text j t
  items : ∀ {text rest js}, items fuel text = some (js, rest) → ∃ t, text = t ++ rest ∧ Items js t
  entries : ∀ {text rest fields}, entries fuel text = some (fields, rest) →
    ∃ t, text = t ++ rest ∧ Entries fields t

theorem value_sound (ih : ReadsSound fuel) (h : value (fuel + 1) text = some (j, rest)) :
    ∃ t, text = t ++ rest ∧ Text j t := by
  cases text with
  | nil =>
    rw [value] at h
    cases h
  | cons c later =>
    rw [value] at h
    split at h
    next hc =>
      obtain ⟨⟨s, behind⟩, hread, hj⟩ := Option.map_eq_some_iff.mp h
      obtain ⟨raw, rfl, spelled⟩ := string_sound hread
      cases hj
      exact ⟨'"' :: (raw ++ ['"']), by rw [hc]; simp, .string spelled⟩
    next =>
    split at h
    next hc =>
      split at h
      next hend =>
        obtain ⟨gap, behind, blank, hgap, hbehind⟩ := skip_head hend
        rw [hbehind] at h
        cases h
        exact ⟨'[' :: (gap ++ [']']), by rw [hc, hgap]; simp, .noItems blank⟩
      next =>
        obtain ⟨⟨js, behind⟩, hread, hj⟩ := Option.map_eq_some_iff.mp h
        obtain ⟨t, rfl, isItems⟩ := ih.items hread
        cases hj
        exact ⟨'[' :: t, by rw [hc]; rfl, .array isItems⟩
    next =>
    split at h
    next hc =>
      split at h
      next hend =>
        obtain ⟨gap, behind, blank, hgap, hbehind⟩ := skip_head hend
        rw [hbehind] at h
        cases h
        exact ⟨'\x7b' :: (gap ++ ['\x7d']), by rw [hc, hgap]; simp, .noFields blank⟩
      next =>
        obtain ⟨⟨fields, behind⟩, hread, hj⟩ := Option.map_eq_some_iff.mp h
        obtain ⟨t, rfl, isFields⟩ := ih.entries hread
        cases hj
        exact ⟨'\x7b' :: t, by rw [hc]; rfl, .object isFields⟩
    next =>
    split at h
    next hc =>
      obtain ⟨behind, hread, hj⟩ := Option.map_eq_some_iff.mp h
      cases hj
      exact ⟨_, by rw [hc, after_eq_some.mp hread]; rfl, .null⟩
    next =>
    split at h
    next hc =>
      obtain ⟨behind, hread, hj⟩ := Option.map_eq_some_iff.mp h
      cases hj
      exact ⟨_, by rw [hc, after_eq_some.mp hread]; rfl, .true⟩
    next =>
    split at h
    next hc =>
      obtain ⟨behind, hread, hj⟩ := Option.map_eq_some_iff.mp h
      cases hj
      exact ⟨_, by rw [hc, after_eq_some.mp hread]; rfl, .false⟩
    next =>
      obtain ⟨⟨t, behind⟩, hread, hj⟩ := Option.map_eq_some_iff.mp h
      obtain ⟨hsplit, isNumber⟩ := number_sound hread
      cases hj
      exact ⟨t, hsplit, .number isNumber⟩

theorem items_sound (ih : ReadsSound fuel) (h : items (fuel + 1) text = some (js, rest)) :
    ∃ t, text = t ++ rest ∧ Items js t := by
  rw [items] at h
  obtain ⟨front, hfront, htext⟩ := skip_split text
  obtain ⟨⟨item, behind⟩, hitem, hmore⟩ := Option.bind_eq_some_iff.mp h
  obtain ⟨t, ht, isText⟩ := ih.value hitem
  dsimp only at hmore ht
  rw [ht] at htext
  split at hmore
  next hend =>
    obtain ⟨back, end', hback, hrest, hend'⟩ := skip_head hend
    rw [hend'] at hmore
    cases hmore
    refine ⟨_, ?_, .last hfront isText hback⟩
    rw [htext, hrest]
    simp
  next =>
    split at hmore
    next hcomma =>
      obtain ⟨back, behind', hback, hrest, hbehind⟩ := skip_head hcomma
      rw [hbehind] at hmore
      obtain ⟨⟨others, end'⟩, hothers, hjs⟩ := Option.map_eq_some_iff.mp hmore
      cases hjs
      obtain ⟨t', ht', isItems⟩ := ih.items hothers
      refine ⟨_, ?_, .more hfront isText hback isItems⟩
      rw [htext, hrest, ht']
      simp
    next => cases hmore

theorem entries_sound (ih : ReadsSound fuel) (h : entries (fuel + 1) text = some (fields, rest)) :
    ∃ t, text = t ++ rest ∧ Entries fields t := by
  rw [entries] at h
  split at h
  next hquote =>
    obtain ⟨front, opened, hfront, htext, hopened⟩ := skip_head hquote
    rw [hopened] at h
    obtain ⟨⟨key, afterKey⟩, hkey, hcolon⟩ := Option.bind_eq_some_iff.mp h
    obtain ⟨raw, hraw, spelled⟩ := string_sound hkey
    dsimp only at hcolon hraw
    split at hcolon
    next hhead =>
      obtain ⟨middle, beyond, hmiddle, hafterKey, hbeyond⟩ := skip_head hhead
      rw [hbeyond] at hcolon
      obtain ⟨gap, hgap, hsplit⟩ := skip_split beyond
      obtain ⟨⟨item, behind⟩, hitem, hmore⟩ := Option.bind_eq_some_iff.mp hcolon
      obtain ⟨t, ht, isText⟩ := ih.value hitem
      dsimp only at hmore ht
      rw [ht] at hsplit
      have hstart : text =
          front ++ '"' :: (raw ++ '"' :: (middle ++ ':' :: (gap ++ (t ++ behind)))) := by
        rw [htext, hraw, ← hsplit, ← hafterKey]
      split at hmore
      next hend =>
        obtain ⟨back, end', hback, hrest, hend'⟩ := skip_head hend
        rw [hend'] at hmore
        cases hmore
        refine ⟨_, ?_, .last hfront spelled hmiddle hgap isText hback⟩
        rw [hstart, hrest]
        simp
      next =>
        split at hmore
        next hcomma =>
          obtain ⟨back, behind', hback, hrest, hbehind'⟩ := skip_head hcomma
          rw [hbehind'] at hmore
          obtain ⟨⟨others, end'⟩, hothers, hfields⟩ := Option.map_eq_some_iff.mp hmore
          cases hfields
          obtain ⟨t', ht', isFields⟩ := ih.entries hothers
          refine ⟨_, ?_, .more hfront spelled hmiddle hgap isText hback isFields⟩
          rw [hstart, hrest, ht']
          simp
        next => cases hmore
    next => cases hcolon
  next => cases h

theorem reads_sound (fuel : Nat) : ReadsSound fuel := by
  induction fuel with
  | zero =>
    refine ⟨fun h => ?_, fun h => ?_, fun h => ?_⟩
    · rw [value] at h
      cases h
    · rw [items] at h
      cases h
    · rw [entries] at h
      cases h
  | succ fuel ih => exact ⟨value_sound ih, items_sound ih, entries_sound ih⟩

end Soundness

section Completeness

theorem number_head (h : IsNumber t) :
    ∃ c later, t = c :: later ∧ (c.isDigit = true ∨ c = '-') := by
  obtain ⟨sign, int, frac, exp, rfl, hsign, hint, _, _⟩ := h
  rcases hsign with rfl | rfl
  · obtain ⟨d, ds, rfl⟩ := List.exists_cons_of_ne_nil (isInteger_ne_nil hint)
    refine ⟨d, _, rfl, .inl ?_⟩
    rcases hint with hzero | ⟨⟨_, hdigits⟩, _⟩
    · cases hzero
      rfl
    · exact hdigits d List.mem_cons_self
  · exact ⟨'-', _, rfl, .inr rfl⟩

theorem ne_of_number {c e : Char} (h : c.isDigit = true ∨ c = '-') (hdigit : e.isDigit = false)
    (hminus : '-' ≠ e) : c ≠ e := by
  rcases h with hc | rfl
  · rintro rfl
    rw [hdigit] at hc
    cases hc
  · exact hminus

theorem isBlank_cases {c : Char} (h : isBlank c = true) :
    c = ' ' ∨ c = '\t' ∨ c = '\n' ∨ c = '\r' := by
  unfold isBlank at h
  simp only [Bool.or_eq_true, decide_eq_true_eq] at h
  rcases h with ((h | h) | h) | h
  · exact .inl h
  · exact .inr (.inl h)
  · exact .inr (.inr (.inl h))
  · exact .inr (.inr (.inr h))

theorem text_head (h : Text j t) : ∃ c later, t = c :: later ∧ isBlank c = false ∧ c ≠ ']' := by
  cases h with
  | number isNumber =>
    obtain ⟨c, later, rfl, hc⟩ := number_head isNumber
    refine ⟨c, later, rfl, ?_, ne_of_number hc (by decide) (by decide)⟩
    cases hblank : isBlank c with
    | false => rfl
    | true =>
      rcases isBlank_cases hblank with rfl | rfl | rfl | rfl <;> exact absurd hc (by decide)
  | null => exact ⟨_, _, rfl, by decide, by decide⟩
  | true => exact ⟨_, _, rfl, by decide, by decide⟩
  | false => exact ⟨_, _, rfl, by decide, by decide⟩
  | string spelled => exact ⟨_, _, rfl, by decide, by decide⟩
  | noItems blank => exact ⟨_, _, rfl, by decide, by decide⟩
  | array isItems => exact ⟨_, _, rfl, by decide, by decide⟩
  | noFields blank => exact ⟨_, _, rfl, by decide, by decide⟩
  | object isFields => exact ⟨_, _, rfl, by decide, by decide⟩

theorem skip_mark {c : Char} (blank : Blank gap) (hc : isBlank c = false) :
    skip (gap ++ c :: rest) = c :: rest := by
  rw [skip_blank blank]
  exact skip_self hc

/-- Blanks are skipped up to a value. -/
theorem skip_text (blank : Blank gap) (h : Text j t) : skip (gap ++ (t ++ rest)) = t ++ rest := by
  obtain ⟨c, later, rfl, hc, _⟩ := text_head h
  exact skip_mark blank hc

theorem ends_blank (blank : Blank gap) : Ends gap := by
  intro c hc
  rcases isBlank_cases (blank c (List.mem_of_head? hc)) with rfl | rfl | rfl | rfl <;> decide

/-- No number goes on behind blanks and a mark. -/
theorem ends_mark {c : Char} (blank : Blank gap)
    (hc : c.isDigit = false ∧ c ≠ '.' ∧ c ≠ 'e' ∧ c ≠ 'E') : Ends (gap ++ c :: rest) := by
  intro d hd
  cases gap with
  | nil =>
    cases hd
    exact hc
  | cons b gap =>
    cases hd
    exact ends_blank blank _ rfl

/-- The readers of fuel `fuel` read all that is short enough. -/
structure ReadsComplete (fuel : Nat) : Prop where
  value : ∀ {t rest j}, Text j t → 2 * t.length ≤ fuel → Ends rest →
    value fuel (t ++ rest) = some (j, rest)
  items : ∀ {t rest js}, Items js t → 2 * t.length + 1 ≤ fuel →
    items fuel (t ++ rest) = some (js, rest)
  entries : ∀ {t rest fields}, Entries fields t → 2 * t.length + 1 ≤ fuel →
    entries fuel (t ++ rest) = some (fields, rest)

theorem items_head (h : Items js t) : (skip (t ++ rest)).head? ≠ some ']' := by
  have starts : ∀ {item : Json} {front text back : List Char}, Blank front → Text item text →
      (skip (front ++ (text ++ back) ++ rest)).head? ≠ some ']' := by
    intro item front text back hfront htext
    rw [List.append_assoc, List.append_assoc, skip_text hfront htext]
    obtain ⟨c, later, rfl, _, hc⟩ := text_head htext
    exact fun hhead => hc (Option.some.inj hhead)
  cases h with
  | last before isText after => exact starts before isText
  | more before isText after isItems => exact starts before isText

theorem entries_head (h : Entries fields t) : (skip (t ++ rest)).head? ≠ some '\x7d' := by
  have starts : ∀ {front back : List Char}, Blank front →
      (skip (front ++ '"' :: back ++ rest)).head? ≠ some '\x7d' := by
    intro front back hfront
    rw [List.append_assoc, List.cons_append, skip_mark hfront (by decide)]
    exact fun hhead => absurd (Option.some.inj hhead) (by decide)
  cases h with
  | last before => exact starts before
  | more before => exact starts before

theorem value_complete (ih : ReadsComplete fuel) (h : Text j t) (enough : 2 * t.length ≤ fuel + 1)
    (ends : Ends rest) : value (fuel + 1) (t ++ rest) = some (j, rest) := by
  cases h with
  | null => rfl
  | true => rfl
  | false => rfl
  | number isNumber =>
    have hread := number_complete isNumber ends
    obtain ⟨c, later, rfl, hc⟩ := number_head isNumber
    rw [List.cons_append] at hread ⊢
    rw [value, if_neg (ne_of_number hc (by decide) (by decide)),
      if_neg (ne_of_number hc (by decide) (by decide)),
      if_neg (ne_of_number hc (by decide) (by decide)),
      if_neg (ne_of_number hc (by decide) (by decide)),
      if_neg (ne_of_number hc (by decide) (by decide)),
      if_neg (ne_of_number hc (by decide) (by decide)), hread]
    rfl
  | @string raw s spelled =>
    have hread : string ((raw ++ '"' :: rest).length + 1) (raw ++ '"' :: rest) = some (s, rest) :=
      string_complete spelled (by rw [List.length_append]; omega)
    rw [List.cons_append, List.append_assoc, List.singleton_append, value, if_pos rfl, hread]
    rfl
  | @noItems gap blank =>
    have hskip : skip (gap ++ ']' :: rest) = ']' :: rest := skip_mark blank (by decide)
    rw [List.cons_append, List.append_assoc, List.singleton_append, value, if_neg (by decide),
      if_pos rfl, hskip]
    rfl
  | @array js text isItems =>
    rw [List.length_cons] at enough
    rw [List.cons_append, value, if_neg (by decide), if_pos rfl, if_neg (items_head isItems),
      ih.items isItems (by omega)]
    rfl
  | @noFields gap blank =>
    have hskip : skip (gap ++ '\x7d' :: rest) = '\x7d' :: rest := skip_mark blank (by decide)
    rw [List.cons_append, List.append_assoc, List.singleton_append, value, if_neg (by decide),
      if_neg (by decide), if_pos rfl, hskip]
    rfl
  | @object fields text isFields =>
    rw [List.length_cons] at enough
    rw [List.cons_append, value, if_neg (by decide), if_neg (by decide), if_pos rfl,
      if_neg (entries_head isFields), ih.entries isFields (by omega)]
    rfl

theorem items_complete (ih : ReadsComplete fuel) (h : Items js t)
    (enough : 2 * t.length + 1 ≤ fuel + 1) : items (fuel + 1) (t ++ rest) = some (js, rest) := by
  cases h with
  | @last item front text back before isText after =>
    simp only [List.length_append] at enough
    have hvalue : value fuel (text ++ (back ++ ']' :: rest)) = some (item, back ++ ']' :: rest) :=
      ih.value isText (by omega) (ends_mark after (by decide))
    rw [List.append_assoc, List.append_assoc, List.append_assoc, List.singleton_append, items,
      skip_text before isText, hvalue]
    dsimp only [Option.bind_some]
    rw [skip_mark after (by decide)]
    rfl
  | @more item js front text back others before isText after isItems =>
    simp only [List.length_append, List.length_cons] at enough
    have hvalue : value fuel (text ++ (back ++ ',' :: (others ++ rest))) =
        some (item, back ++ ',' :: (others ++ rest)) :=
      ih.value isText (by omega) (ends_mark after (by decide))
    rw [List.append_assoc, List.append_assoc, List.append_assoc, List.cons_append, items,
      skip_text before isText, hvalue]
    dsimp only [Option.bind_some]
    rw [skip_mark after (by decide)]
    change (items fuel (others ++ rest)).map _ = _
    rw [ih.items isItems (by omega)]
    rfl

/-- The first field of an object, up to what follows its value. -/
theorem entries_start {key raw front middle gap text behind : List Char} {item : Json}
    (ih : ReadsComplete fuel) (before : Blank front) (spelled : Spelled raw key)
    (between : Blank middle) (beyond : Blank gap) (isText : Text item text)
    (enough : 2 * text.length ≤ fuel) (ends : Ends behind) :
    entries (fuel + 1)
        (front ++ '"' :: (raw ++ '"' :: (middle ++ ':' :: (gap ++ (text ++ behind))))) =
      if (skip behind).head? = some '\x7d' then some ([(key, item)], (skip behind).drop 1)
      else if (skip behind).head? = some ',' then
        (entries fuel ((skip behind).drop 1)).map fun more => ((key, item) :: more.1, more.2)
      else none := by
  have hkey : ∀ later : List Char, string ((front ++ '"' :: (raw ++ '"' :: later)).length + 1)
      (raw ++ '"' :: later) = some (key, later) := fun later =>
    string_complete spelled (by simp only [List.length_append, List.length_cons]; omega)
  rw [entries, skip_mark before (by decide), List.head?_cons, if_pos rfl, List.drop_succ_cons,
    List.drop_zero, hkey]
  dsimp only [Option.bind_some]
  rw [skip_mark between (by decide), List.head?_cons, if_pos rfl, List.drop_succ_cons,
    List.drop_zero, skip_text beyond isText, ih.value isText enough ends]
  rfl

theorem entries_complete (ih : ReadsComplete fuel) (h : Entries fields t)
    (enough : 2 * t.length + 1 ≤ fuel + 1) :
    entries (fuel + 1) (t ++ rest) = some (fields, rest) := by
  cases h with
  | @last key raw item front middle gap text back before spelled between beyond isText after =>
    simp only [List.length_append, List.length_cons] at enough
    simp only [List.append_assoc, List.cons_append, List.nil_append]
    rw [entries_start ih before spelled between beyond isText (by omega)
      (ends_mark after (by decide)), skip_mark after (by decide)]
    rfl
  | @more key raw item fields front middle gap text back others before spelled between beyond isText
      after isFields =>
    simp only [List.length_append, List.length_cons] at enough
    simp only [List.append_assoc, List.cons_append]
    rw [entries_start ih before spelled between beyond isText (by omega)
      (ends_mark after (by decide)), skip_mark after (by decide)]
    change (entries fuel (others ++ rest)).map _ = _
    rw [ih.entries isFields (by omega)]
    rfl

theorem reads_complete (fuel : Nat) : ReadsComplete fuel := by
  induction fuel with
  | zero =>
    refine ⟨fun h enough _ => ?_, fun _ enough => by omega, fun _ enough => by omega⟩
    obtain ⟨c, later, rfl, _⟩ := text_head h
    rw [List.length_cons] at enough
    omega
  | succ fuel ih => exact ⟨value_complete ih, items_complete ih, entries_complete ih⟩

end Completeness

/-- A text is read as a value exactly when it holds that value between blanks. -/
theorem read_eq_some_iff : read text = some j ↔
    ∃ front t back, Blank front ∧ Text j t ∧ Blank back ∧ text = front ++ (t ++ back) := by
  unfold read
  constructor
  · intro h
    obtain ⟨⟨j', behind⟩, hvalue, hend⟩ := Option.bind_eq_some_iff.mp h
    obtain ⟨front, hfront, htext⟩ := skip_split text
    obtain ⟨t, ht, isText⟩ := (reads_sound _).value hvalue
    dsimp only at hend ht
    split at hend
    next hnothing =>
      cases hend
      obtain ⟨back, hback, hbehind⟩ := skip_split behind
      rw [hnothing, List.append_nil] at hbehind
      exact ⟨front, t, behind, hfront, isText, hbehind ▸ hback, by rw [← ht]; exact htext⟩
    next => cases hend
  · rintro ⟨front, t, back, hfront, isText, hback, rfl⟩
    have hlength : 2 * t.length ≤ 2 * (front ++ (t ++ back)).length + 1 := by
      simp only [List.length_append]
      omega
    rw [skip_text hfront isText, (reads_complete _).value isText hlength (ends_blank hback)]
    have hnothing : skip back = [] := List.dropWhile_eq_nil_iff.mpr hback
    exact if_pos hnothing

end Values

end JsonReader
