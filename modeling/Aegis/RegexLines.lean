import Aegis.RegexContext

namespace Regex

open Pattern

section Cutting

variable {isWord : Char → Bool} {r : Pattern} {a b s x front m m' taken tail : List Char} {c : Char}
  {prev : Option Char}

theorem mem_ends_literal {word : List Char} :
    (taken, tail) ∈ ends isWord (literal word) prev s ↔ taken = word ∧ s = word ++ tail := by
  induction word generalizing prev s taken with
  | nil =>
    rw [literal, mem_ends_empty]
    constructor
    · rintro ⟨rfl, rfl⟩
      exact ⟨rfl, rfl⟩
    · rintro ⟨rfl, rfl⟩
      exact ⟨rfl, rfl⟩
  | cons c word ih =>
    rw [literal, mem_ends_seq]
    constructor
    · rintro ⟨m, t, later, hone, htail, rfl⟩
      obtain ⟨x, hx, rfl, rfl⟩ := mem_ends_one.mp hone
      obtain ⟨rfl, rfl⟩ := ih.mp htail
      rw [of_decide_eq_true hx]
      exact ⟨rfl, rfl⟩
    · rintro ⟨rfl, rfl⟩
      exact ⟨[c], word ++ tail, word, mem_ends_one.mpr ⟨c, decide_eq_true rfl, rfl, rfl⟩,
        ih.mpr ⟨rfl, rfl⟩, rfl⟩

/-- No match covers the character between two parts of a text. -/
def NoneAcross (isWord : Char → Bool) (r : Pattern) (a : List Char) (c : Char) (b : List Char) :
    Prop :=
  ∀ front m m' tail, a = front ++ m → b = m' ++ tail →
    (m ++ c :: m', tail) ∉ ends isWord r (before none front) (m ++ c :: b)

theorem noMatch_iff : NoMatch isWord r s ↔ ∀ front taken tail, s = front ++ (taken ++ tail) →
    (taken, tail) ∉ ends isWord r (before none front) (taken ++ tail) := by
  constructor
  · intro h front taken tail hs hmatch
    rw [h front _ hs] at hmatch
    cases hmatch
  · rintro h front rest rfl
    rw [List.eq_nil_iff_forall_not_mem]
    rintro ⟨taken, tail⟩ hmatch
    obtain rfl := ends_append hmatch
    exact h front taken tail rfl hmatch

theorem taken_ne_nil (nonempty : 0 < r.minLength) {rest : List Char}
    (h : (taken, tail) ∈ ends isWord r prev rest) : taken ≠ [] := by
  rintro rfl
  exact absurd (minLength_le h) (Nat.not_le.mpr nonempty)

theorem match_extend (lines : r.lineFree = true) (nonempty : 0 < r.minLength)
    (hc : isWord c = false) :
    (taken, tail) ∈ ends isWord r (before none front) (taken ++ tail) ↔
      (taken, tail ++ c :: b) ∈ ends isWord r (before none front) (taken ++ (tail ++ c :: b)) := by
  have outside : ([] : List Char).head?.any isWord = (c :: b).head?.any isWord := by
    rw [List.head?_cons, Option.any_some, hc]
    rfl
  constructor
  · intro h
    have ne : front ++ taken ++ tail ≠ [] := by simp [taken_ne_nil nonempty h]
    have := @ends_transfer isWord r none none [] (c :: b) lines front taken tail ne
      (fun _ _ _ h => h) (fun _ _ _ h => by rwa [← outside]) (by simpa using h)
    simpa using this
  · intro h
    have ne : front ++ taken ++ tail ≠ [] := by simp [taken_ne_nil nonempty h]
    have := @ends_transfer isWord r none none (c :: b) [] lines front taken tail ne
      (fun _ _ _ h => h) (fun _ _ _ h => by rwa [outside]) (by simpa using h)
    simpa using this

theorem match_after (lines : r.lineFree = true) (nonempty : 0 < r.minLength)
    (hc : isWord c = false) :
    (taken, tail) ∈ ends isWord r (before none front) (taken ++ tail) ↔
      (taken, tail) ∈ ends isWord r (before none (a ++ c :: front)) (taken ++ tail) := by
  have outside : (none : Option Char).any isWord = (some c).any isWord := by
    rw [Option.any_some, hc]
    rfl
  rw [before_append, before_cons]
  constructor
  · intro h
    have ne : front ++ taken ++ tail ≠ [] := by simp [taken_ne_nil nonempty h]
    have := @ends_transfer isWord r none (some c) [] [] lines front taken tail ne
      (fun _ _ _ h => by rwa [← outside]) (fun _ _ _ h => h) (by simpa using h)
    simpa using this
  · intro h
    have ne : front ++ taken ++ tail ≠ [] := by simp [taken_ne_nil nonempty h]
    have := @ends_transfer isWord r (some c) none [] [] lines front taken tail ne
      (fun _ _ _ h => by rwa [outside]) (fun _ _ _ h => h) (by simpa using h)
    simpa using this

/-- A text cut at a character of no word: a match lies on one side, or covers it. -/
theorem noMatch_cut (lines : r.lineFree = true) (nonempty : 0 < r.minLength)
    (hc : isWord c = false) : NoMatch isWord r (a ++ c :: b) ↔
      NoMatch isWord r a ∧ NoMatch isWord r b ∧ NoneAcross isWord r a c b := by
  rw [noMatch_iff, noMatch_iff, noMatch_iff]
  constructor
  · intro h
    refine ⟨fun front taken tail ha hmatch => ?_, fun front taken tail hb hmatch => ?_,
      fun front m m' tail ha hb hmatch => ?_⟩
    · refine h front taken (tail ++ c :: b) (by rw [ha]; simp) ?_
      exact (match_extend lines nonempty hc).mp hmatch
    · refine h (a ++ c :: front) taken tail (by rw [hb]; simp) ?_
      exact (match_after lines nonempty hc).mp hmatch
    · refine h front (m ++ c :: m') tail (by rw [ha, hb]; simp) ?_
      have whole : m ++ c :: b = m ++ c :: m' ++ tail := by rw [hb]; simp
      rwa [whole] at hmatch
  · rintro ⟨ha, hb, hacross⟩ front taken tail hs hmatch
    rcases List.append_eq_append_iff.mp hs with ⟨later, rfl, hrest⟩ | ⟨m, rfl, hrest⟩
    · cases later with
      | nil =>
        rw [List.nil_append] at hrest
        rw [List.append_nil] at hmatch
        cases taken with
        | nil => exact taken_ne_nil nonempty hmatch rfl
        | cons d taken =>
          obtain ⟨rfl, rfl⟩ := List.cons.inj hrest
          exact hacross a [] taken tail (List.append_nil a).symm rfl hmatch
      | cons d later =>
        obtain ⟨rfl, rfl⟩ := List.cons.inj hrest
        exact hb later taken tail rfl ((match_after lines nonempty hc).mpr hmatch)
    · rcases List.append_eq_append_iff.mp hrest with ⟨past, rfl, rfl⟩ | ⟨m', rfl, htail⟩
      · exact ha front taken past rfl ((match_extend lines nonempty hc).mpr hmatch)
      · cases m' with
        | nil =>
          rw [List.nil_append] at htail
          rw [List.append_nil] at hmatch
          refine ha front m [] (by simp) ?_
          refine (@match_extend isWord r b front m [] c lines nonempty hc).mpr ?_
          rwa [List.nil_append, htail]
        | cons d m' =>
          obtain ⟨rfl, rfl⟩ := List.cons.inj htail
          refine hacross front m m' tail rfl rfl ?_
          rwa [List.append_assoc, List.cons_append] at hmatch

theorem noneAcross_of_avoids (avoids : r.avoids c = true) : NoneAcross isWord r a c b := by
  intro front m m' tail _ _ hmatch
  exact not_mem_of_avoids avoids hmatch (by simp)

/-- A pattern that takes no such character matches on one side only. -/
theorem noMatch_split (lines : r.lineFree = true) (nonempty : 0 < r.minLength)
    (hc : isWord c = false) (avoids : r.avoids c = true) :
    NoMatch isWord r (a ++ c :: b) ↔ NoMatch isWord r a ∧ NoMatch isWord r b := by
  rw [noMatch_cut lines nonempty hc]
  exact ⟨fun h => ⟨h.1, h.2.1⟩, fun h => ⟨h.1, h.2, noneAcross_of_avoids avoids⟩⟩

theorem noMatch_nil (nonempty : 0 < r.minLength) : NoMatch isWord r [] := by
  rw [noMatch_iff]
  intro front taken tail hs hmatch
  refine taken_ne_nil nonempty hmatch ?_
  exact (List.append_eq_nil_iff.mp (List.append_eq_nil_iff.mp hs.symm).2).1

/-- Characters that make up no match hold none. -/
theorem noMatch_of_chars {chars : List Char} (unable : r.canUse chars = false)
    (plain : ∀ c ∈ s, c ∈ chars) : NoMatch isWord r s := by
  rw [noMatch_iff]
  rintro front taken tail rfl hmatch
  have := canUse_of_match hmatch fun d hd => plain d (by simp [hd])
  rw [unable] at this
  cases this

theorem infix_cut (h : c ∉ x) : x <:+: a ++ c :: b ↔ x <:+: a ∨ x <:+: b := by
  constructor
  · rintro ⟨front, back, hs⟩
    rw [List.append_assoc] at hs
    rcases List.append_eq_append_iff.mp hs with ⟨m, rfl, hrest⟩ | ⟨m, rfl, hrest⟩
    · rcases List.append_eq_append_iff.mp hrest with ⟨past, rfl, hback⟩ | ⟨past, hx, hback⟩
      · exact .inl ⟨front, past, by simp⟩
      · cases past with
        | nil =>
          rw [List.append_nil] at hx
          exact .inl ⟨front, [], by rw [hx, List.append_nil]⟩
        | cons d past =>
          obtain ⟨rfl, _⟩ := List.cons.inj hback
          exact absurd (by rw [hx]; simp) h
    · cases m with
      | nil =>
        rw [List.nil_append] at hrest
        cases x with
        | nil => exact .inl List.nil_infix
        | cons d x =>
          obtain ⟨rfl, _⟩ := List.cons.inj hrest
          exact absurd List.mem_cons_self h
      | cons d m =>
        obtain ⟨rfl, rfl⟩ := List.cons.inj hrest
        exact .inr ⟨m, back, by simp⟩
  · rintro (h | h)
    · exact List.infix_append_of_infix_left h
    · exact List.infix_append_of_infix_right (List.infix_cons h)

/-- A text whose first word is followed by a character lies on one side of that character, or its
first word does. -/
theorem infix_cut_word {word y : List Char} (fresh : c ∉ word) (ne : word ≠ [])
    (h : word ++ c :: y <:+: a ++ c :: b) : word <:+: a ∨ word ++ c :: y <:+: b := by
  obtain ⟨front, back, hs⟩ := h
  rw [List.append_assoc, List.append_assoc] at hs
  rcases List.append_eq_append_iff.mp hs with ⟨m, rfl, hrest⟩ | ⟨m, rfl, hrest⟩
  · rcases List.append_eq_append_iff.mp hrest with ⟨past, rfl, _⟩ | ⟨past, hword, hover⟩
    · exact .inl ⟨front, past, by simp⟩
    · cases past with
      | nil => exact .inl ⟨front, [], by simp [hword]⟩
      | cons d past =>
        obtain ⟨rfl, _⟩ := List.cons.inj hover
        exact absurd (by simp [hword]) fresh
  · cases m with
    | nil =>
      obtain ⟨d, word, rfl⟩ := List.exists_cons_of_ne_nil ne
      obtain ⟨rfl, _⟩ := List.cons.inj hrest
      exact absurd List.mem_cons_self fresh
    | cons d m =>
      obtain ⟨rfl, rfl⟩ := List.cons.inj hrest
      exact .inr ⟨m, back, by simp⟩

theorem split_after {y : List Char} (fresh : c ∉ x) (h : m ++ c :: m' = x ++ y) :
    ∃ n, m = x ++ n ∧ y = n ++ c :: m' := by
  rcases List.append_eq_append_iff.mp h with ⟨past, hx, hover⟩ | ⟨n, rfl, rfl⟩
  · cases past with
    | nil => exact ⟨[], by simp [hx], hover.symm⟩
    | cons d past =>
      obtain ⟨rfl, _⟩ := List.cons.inj hover
      exact absurd (by simp [hx]) fresh
  · exact ⟨n, rfl, rfl⟩

theorem split_before {y : List Char} (fresh : c ∉ y) (h : m ++ c :: m' = x ++ y) :
    ∃ n, x = m ++ c :: n ∧ m' = n ++ y := by
  rcases List.append_eq_append_iff.mp h with ⟨past, rfl, hover⟩ | ⟨n, _, rfl⟩
  · cases past with
    | nil => exact absurd (by rw [← List.nil_append y, ← hover]; simp) fresh
    | cons d past =>
      obtain ⟨rfl, rfl⟩ := List.cons.inj hover
      exact ⟨past, rfl, rfl⟩
  · exact absurd (by simp) fresh

end Cutting

end Regex
