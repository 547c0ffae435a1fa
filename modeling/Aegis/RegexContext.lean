import Aegis.Regex

namespace Regex

open Pattern

/-- The text that was cut into the pieces. -/
def original (cut : List Piece) : List Char := cut.flatMap Piece.source

@[simp] theorem original_nil : original [] = [] := rfl

@[simp] theorem original_char (c : Char) (cut : List Piece) :
    original (.char c :: cut) = c :: original cut := rfl

@[simp] theorem original_hit (taken : List Char) (cut : List Piece) :
    original (.hit taken :: cut) = taken ++ original cut := rfl

@[simp] theorem original_append (front back : List Piece) :
    original (front ++ back) = original front ++ original back := List.flatMap_append

@[simp] theorem replaced_append (marker : List Char) (front back : List Piece) :
    replaced marker (front ++ back) = replaced marker front ++ replaced marker back :=
  List.flatMap_append

@[simp] theorem hits_append (front back : List Piece) :
    hits (front ++ back) = hits front ++ hits back := List.filterMap_append

@[simp] theorem original_chars (text : List Char) : original (text.map .char) = text := by
  induction text with
  | nil => rfl
  | cons c text ih => rw [List.map_cons, original_char, ih]

@[simp] theorem replaced_chars (marker text : List Char) :
    replaced marker (text.map .char) = text := by
  induction text with
  | nil => rfl
  | cons c text ih => rw [List.map_cons, replaced_char, ih]

@[simp] theorem hits_chars (text : List Char) : hits (text.map .char) = [] := by
  induction text with
  | nil => rfl
  | cons c text ih => rw [List.map_cons, hits_char, ih]

/-- A cut without hits has characters only. -/
theorem chars_of_hits_eq_nil {cut : List Piece} (h : hits cut = []) :
    cut = (original cut).map .char := by
  induction cut with
  | nil => rfl
  | cons piece cut ih =>
    cases piece with
    | char c =>
      rw [original_char, List.map_cons, ← ih h]
    | hit taken => cases h

section Places

variable {isWord : Char → Bool} {q r : Pattern} {prev : Option Char} {marker : List Char}

/-- No match begins anywhere in the text. -/
def NoMatch (isWord : Char → Bool) (r : Pattern) (text : List Char) : Prop :=
  ∀ front rest, text = front ++ rest → ends isWord r (before none front) rest = []

/-- The pattern matches nowhere that the cut has a character. -/
def NoneFree (isWord : Char → Bool) (r : Pattern) (prev : Option Char) (cut : List Piece) : Prop :=
  ∀ front c back, cut = front ++ .char c :: back →
    ends isWord r (before prev (original front)) (c :: original back) = []

/-- Every hit is the first that backtracking finds where it begins. -/
def HitsFirst (isWord : Char → Bool) (q : Pattern) (prev : Option Char) (cut : List Piece) : Prop :=
  ∀ front taken back, cut = front ++ .hit taken :: back → taken ≠ [] ∧
    (ends isWord q (before prev (original front)) (taken ++ original back)).head? =
      some (taken, original back)

theorem piecesFrom_spec (nonempty : 0 < q.minLength) (fuel : Nat) (prev : Option Char)
    (s : List Char) (enough : s.length ≤ fuel) :
    original (piecesFrom isWord q fuel prev s) = s ∧
      NoneFree isWord q prev (piecesFrom isWord q fuel prev s) ∧
      HitsFirst isWord q prev (piecesFrom isWord q fuel prev s) := by
  induction fuel generalizing prev s with
  | zero =>
    rw [List.length_eq_zero_iff.mp (Nat.le_zero.mp enough)]
    exact ⟨rfl, fun front c back h => absurd h (by simp [piecesFrom]),
      fun front taken back h => absurd h (by simp [piecesFrom])⟩
  | succ fuel ih =>
    cases s with
    | nil =>
      exact ⟨rfl, fun front c back h => absurd h (by simp [piecesFrom]),
        fun front taken back h => absurd h (by simp [piecesFrom])⟩
    | cons c s =>
      rw [piecesFrom]
      split
      next taken rest hhead =>
        have hmem := List.mem_of_head? hhead
        have hlength := minLength_le hmem
        have hsplit := ends_append hmem
        have hne : taken ≠ [] := by
          rintro rfl
          exact absurd hlength (Nat.not_le.mpr nonempty)
        have hpos := List.length_pos_of_ne_nil hne
        have hshort : rest.length ≤ fuel := by
          have := congrArg List.length hsplit
          rw [List.length_append] at this
          omega
        obtain ⟨horiginal, hfree, hfirst⟩ := ih (before prev taken) rest hshort
        refine ⟨by rw [original_hit, horiginal, hsplit], fun front d back h => ?_,
          fun front other back h => ?_⟩
        · cases front with
          | nil => simp at h
          | cons piece front =>
            obtain ⟨rfl, hlater⟩ := List.cons.inj h
            rw [original_hit, before_append]
            exact hfree front d back hlater
        · cases front with
          | nil =>
            obtain ⟨hpiece, hback⟩ := List.cons.inj h
            obtain rfl := Piece.hit.inj hpiece
            rw [← hback, horiginal, hsplit]
            exact ⟨hne, hhead⟩
          | cons piece front =>
            obtain ⟨rfl, hlater⟩ := List.cons.inj h
            rw [original_hit, before_append]
            exact hfirst front other back hlater
      next hhead =>
        obtain ⟨horiginal, hfree, hfirst⟩ :=
          ih (some c) s (Nat.le_of_succ_le_succ enough)
        refine ⟨by rw [original_char, horiginal], fun front d back h => ?_,
          fun front other back h => ?_⟩
        · cases front with
          | nil =>
            obtain ⟨hpiece, hback⟩ := List.cons.inj h
            obtain rfl := Piece.char.inj hpiece
            rw [← hback, horiginal]
            exact List.head?_eq_none_iff.mp hhead
          | cons piece front =>
            obtain ⟨rfl, hlater⟩ := List.cons.inj h
            rw [original_char, before_cons]
            exact hfree front d back hlater
        · cases front with
          | nil => simp at h
          | cons piece front =>
            obtain ⟨rfl, hlater⟩ := List.cons.inj h
            rw [original_char, before_cons]
            exact hfirst front other back hlater

/-- The cut that `finditer` makes of a text. -/
structure CutOf (isWord : Char → Bool) (q : Pattern) (s : List Char) (cut : List Piece) : Prop where
  whole : original cut = s
  free : NoneFree isWord q none cut
  first : HitsFirst isWord q none cut

theorem cutOf_pieces (nonempty : 0 < q.minLength) (s : List Char) :
    CutOf isWord q s (pieces isWord q s) := by
  obtain ⟨hwhole, hfree, hfirst⟩ := @piecesFrom_spec isWord q nonempty s.length none s (Nat.le_refl _)
  exact ⟨hwhole, hfree, hfirst⟩

theorem noneFree_of_noMatch {s : List Char} {cut : List Piece} (whole : original cut = s)
    (h : NoMatch isWord r s) : NoneFree isWord r none cut := by
  rintro front c back rfl
  rw [original_append, original_char] at whole
  exact h _ _ whole.symm

/-- Where a text without matches is cut, there are no hits. -/
theorem hits_of_noMatch {s : List Char} {cut : List Piece} (h : CutOf isWord q s cut)
    (none_ : NoMatch isWord q s) : hits cut = [] := by
  by_contra hhits
  obtain ⟨taken, htaken⟩ := List.exists_mem_of_ne_nil _ hhits
  obtain ⟨piece, hpiece, hsome⟩ := List.mem_filterMap.mp htaken
  cases piece with
  | char c => cases hsome
  | hit other =>
    obtain ⟨front, back, hcut⟩ := List.append_of_mem hpiece
    obtain ⟨_, hhead⟩ := h.first front other back hcut
    have hwhole := h.whole
    rw [hcut, original_append, original_hit] at hwhole
    rw [none_ _ _ hwhole.symm] at hhead
    cases hhead

theorem replaced_of_noMatch {s : List Char} {cut : List Piece} (h : CutOf isWord q s cut)
    (none_ : NoMatch isWord q s) (marker : List Char) : replaced marker cut = s := by
  have hchars := chars_of_hits_eq_nil (hits_of_noMatch h none_)
  rw [h.whole] at hchars
  rw [hchars, replaced_chars]

/-- A place in what `sub` returns is at a character that was kept, or inside a marker. -/
theorem locate {cut : List Piece} {a b : List Char} {c : Char}
    (h : replaced marker cut = a ++ c :: b) :
    (∃ front back, cut = front ++ .char c :: back ∧ a = replaced marker front ∧
      b = replaced marker back) ∨
    ∃ front taken back m m', cut = front ++ .hit taken :: back ∧ marker = m ++ c :: m' ∧
      a = replaced marker front ++ m ∧ b = m' ++ replaced marker back := by
  induction cut generalizing a with
  | nil => simp at h
  | cons piece cut ih =>
    cases piece with
    | char d =>
      cases a with
      | nil =>
        obtain ⟨rfl, hb⟩ := List.cons.inj h
        exact .inl ⟨[], cut, rfl, rfl, hb.symm⟩
      | cons x a =>
        obtain ⟨rfl, hrest⟩ := List.cons.inj h
        rcases ih hrest with ⟨front, back, rfl, rfl, rfl⟩ |
          ⟨front, taken, back, m, m', rfl, hm, rfl, rfl⟩
        · exact .inl ⟨.char d :: front, back, rfl, rfl, rfl⟩
        · exact .inr ⟨.char d :: front, taken, back, m, m', rfl, hm, rfl, rfl⟩
    | hit taken =>
      rw [replaced_hit] at h
      rcases List.append_eq_append_iff.mp h with ⟨later, rfl, hrest⟩ | ⟨later, hmarker, hrest⟩
      · rcases ih hrest with ⟨front, back, rfl, rfl, rfl⟩ |
          ⟨front, other, back, m, m', rfl, hm, rfl, rfl⟩
        · exact .inl ⟨.hit taken :: front, back, rfl, rfl, rfl⟩
        · exact .inr ⟨.hit taken :: front, other, back, m, m', rfl, hm, by simp, rfl⟩
      · cases later with
        | nil =>
          rw [List.nil_append] at hrest
          rw [List.append_nil] at hmarker
          rcases @ih [] hrest.symm with ⟨front, back, rfl, hnil, rfl⟩ |
            ⟨front, other, back, m, m', rfl, hm, hnil, rfl⟩
          · exact .inl ⟨.hit taken :: front, back, rfl, by rw [replaced_hit, ← hnil, hmarker,
              List.append_nil], rfl⟩
          · exact .inr ⟨.hit taken :: front, other, back, m, m', rfl, hm, by
              rw [replaced_hit, List.append_assoc, ← hnil, hmarker, List.append_nil], rfl⟩
        | cons x later =>
          obtain ⟨rfl, hb⟩ := List.cons.inj hrest
          exact .inr ⟨[], taken, cut, a, later, rfl, hmarker, rfl, hb⟩

/-- A text without the first character of the marker was there before: its characters were kept. -/
theorem kept_beginning {mark : Char} {others : List Char} (hmarker : marker = mark :: others)
    {cut : List Piece} {taken rest : List Char} (fresh : mark ∉ taken)
    (h : replaced marker cut = taken ++ rest) :
    ∃ back, cut = taken.map .char ++ back ∧ rest = replaced marker back := by
  induction taken generalizing cut with
  | nil => exact ⟨cut, rfl, h.symm⟩
  | cons c taken ih =>
    obtain ⟨hc, htaken⟩ := not_or.mp fun hmem => fresh (List.mem_cons.mpr hmem)
    cases cut with
    | nil => cases h
    | cons piece cut =>
      cases piece with
      | char d =>
        obtain ⟨rfl, hrest⟩ := List.cons.inj h
        obtain ⟨back, rfl, hback⟩ := ih htaken hrest
        exact ⟨back, rfl, hback⟩
      | hit other =>
        rw [replaced_hit, hmarker] at h
        exact absurd (List.cons.inj h).1 hc

/-- A text that ends with a character the marker does not have ends at a piece. -/
theorem split_at_kept {last : Char} (fresh : last ∉ marker) {cut : List Piece}
    {text rest : List Char} (h : replaced marker cut = text ++ [last] ++ rest) :
    ∃ front back, cut = front ++ .char last :: back ∧ replaced marker front = text ∧
      replaced marker back = rest := by
  rw [List.append_assoc] at h
  rcases locate h with ⟨front, back, hcut, htext, hrest⟩ | ⟨_, _, _, m, m', _, hm, _, _⟩
  · exact ⟨front, back, hcut, htext.symm, hrest.symm⟩
  · exact absurd (by rw [hm]; simp) fresh

end Places

namespace Pattern

/-- The pattern does not ask where lines begin. -/
def lineFree : Pattern → Bool
  | lineStart => false
  | seq first second => first.lineFree && second.lineFree
  | alt first second => first.lineFree && second.lineFree
  | _ => true

/-- The pattern asks nothing of the text around a match. -/
def free : Pattern → Bool
  | lineStart => false
  | boundary => false
  | seq first second => first.free && second.free
  | alt first second => first.free && second.free
  | _ => true

/-- Some match may be empty. -/
def nullable : Pattern → Bool
  | empty => true
  | one _ => false
  | greedy _ least => least = 0
  | lazy _ least => least = 0
  | boundary => true
  | lineStart => true
  | seq first second => first.nullable && second.nullable
  | alt first second => first.nullable || second.nullable

/-- A match may begin with the character. -/
def mayBegin (c : Char) : Pattern → Bool
  | empty => false
  | one p => p c
  | greedy p _ => p c
  | lazy p _ => p c
  | boundary => false
  | lineStart => false
  | seq first second => first.mayBegin c || first.nullable && second.mayBegin c
  | alt first second => first.mayBegin c || second.mayBegin c

/-- Every match begins at a word boundary. -/
def boundaryFirst : Pattern → Bool
  | boundary => true
  | seq first second => first.boundaryFirst || first.onlyEmpty && second.boundaryFirst
  | alt first second => first.boundaryFirst && second.boundaryFirst
  | _ => false

/-- Every match ends at a word boundary. -/
def boundaryLast : Pattern → Bool
  | boundary => true
  | seq first second => second.boundaryLast || second.onlyEmpty && first.boundaryLast
  | alt first second => first.boundaryLast && second.boundaryLast
  | _ => false

/-- The class that a match takes as much of as it can at its end. -/
def lastRun : Pattern → Option (Char → Bool)
  | greedy p _ => some p
  | seq first empty => first.lastRun
  | seq _ second => second.lastRun
  | _ => none

end Pattern

section Context

variable {isWord : Char → Bool} {r : Pattern} {prev prev' : Option Char}
  {s taken rest rest' : List Char}

/-- A match stays one in other surroundings that have a boundary wherever these have one at its
ends. -/
theorem ends_transfer (lines : r.lineFree = true) {pre m post : List Char}
    (ne : pre ++ m ++ post ≠ [])
    (first : ∀ c later, pre ++ m ++ post = c :: later →
      prev.any isWord ≠ isWord c → prev'.any isWord ≠ isWord c)
    (last : ∀ front c, pre ++ m ++ post = front ++ [c] →
      isWord c ≠ rest.head?.any isWord → isWord c ≠ rest'.head?.any isWord)
    (h : (m, post ++ rest) ∈ ends isWord r (before prev pre) (m ++ post ++ rest)) :
    (m, post ++ rest') ∈ ends isWord r (before prev' pre) (m ++ post ++ rest') := by
  induction r generalizing pre m post with
  | empty =>
    obtain ⟨rfl, _⟩ := mem_ends_empty.mp h
    exact mem_ends_empty.mpr ⟨rfl, rfl⟩
  | one p =>
    obtain ⟨c, hc, rfl, _⟩ := mem_ends_one.mp h
    exact mem_ends_one.mpr ⟨c, hc, rfl, rfl⟩
  | greedy p least =>
    obtain ⟨_, hclass, hlong⟩ := mem_ends_greedy.mp h
    exact mem_ends_greedy.mpr ⟨by rw [List.append_assoc], hclass, hlong⟩
  | lazy p least =>
    obtain ⟨_, hclass, hlong⟩ := mem_ends_lazy.mp h
    exact mem_ends_lazy.mpr ⟨by rw [List.append_assoc], hclass, hlong⟩
  | boundary =>
    obtain ⟨hboundary, rfl, _⟩ := mem_ends_boundary.mp h
    refine mem_ends_boundary.mpr ⟨?_, rfl, rfl⟩
    rw [List.append_nil] at ne first last
    rw [List.nil_append, atBoundary, bne_iff_ne] at hboundary ⊢
    rcases List.eq_nil_or_concat pre with rfl | ⟨front, c, rfl⟩
    · cases post with
      | nil => exact absurd rfl ne
      | cons c later => exact first c later rfl hboundary
    · rw [List.concat_eq_append] at last hboundary ⊢
      rw [before_concat] at hboundary ⊢
      cases post with
      | nil => exact last front c (List.append_nil _) hboundary
      | cons d later => exact hboundary
  | lineStart => cases lines
  | seq one two ihOne ihTwo =>
    obtain ⟨hone, htwo⟩ := Bool.and_eq_true_iff.mp lines
    obtain ⟨m₁, t, m₂, hfirst, hsecond, rfl⟩ := mem_ends_seq.mp h
    have hsplit := ends_append hsecond
    obtain rfl : t = m₂ ++ (post ++ rest) := hsplit.symm
    refine mem_ends_seq.mpr ⟨m₁, m₂ ++ (post ++ rest'), m₂, ?_, ?_, rfl⟩
    · have := @ihOne hone pre m₁ (m₂ ++ post) (by simpa using ne) (by simpa using first)
        (by simpa using last) (by simpa using hfirst)
      simpa using this
    · have := @ihTwo htwo (pre ++ m₁) m₂ post (by simpa using ne) (by simpa using first)
        (by simpa using last) (by simpa [before_append] using hsecond)
      simpa [before_append] using this
  | alt one two ihOne ihTwo =>
    obtain ⟨hone, htwo⟩ := Bool.and_eq_true_iff.mp lines
    rcases mem_ends_alt.mp h with h | h
    · exact mem_ends_alt.mpr (.inl (ihOne hone ne first last h))
    · exact mem_ends_alt.mpr (.inr (ihTwo htwo ne first last h))

/-- A match that asks nothing of its surroundings is one anywhere. -/
theorem ends_free {isWord' : Char → Bool} (free : r.free = true)
    (h : (taken, rest) ∈ ends isWord r prev s) (prev' : Option Char) (rest' : List Char) :
    (taken, rest') ∈ ends isWord' r prev' (taken ++ rest') := by
  induction r generalizing prev s taken rest prev' rest' with
  | empty =>
    obtain ⟨rfl, _⟩ := mem_ends_empty.mp h
    exact mem_ends_empty.mpr ⟨rfl, rfl⟩
  | one p =>
    obtain ⟨c, hc, rfl, _⟩ := mem_ends_one.mp h
    exact mem_ends_one.mpr ⟨c, hc, rfl, rfl⟩
  | greedy p least =>
    obtain ⟨_, hclass, hlong⟩ := mem_ends_greedy.mp h
    exact mem_ends_greedy.mpr ⟨rfl, hclass, hlong⟩
  | lazy p least =>
    obtain ⟨_, hclass, hlong⟩ := mem_ends_lazy.mp h
    exact mem_ends_lazy.mpr ⟨rfl, hclass, hlong⟩
  | boundary => cases free
  | lineStart => cases free
  | seq one two ihOne ihTwo =>
    obtain ⟨hone, htwo⟩ := Bool.and_eq_true_iff.mp free
    obtain ⟨m, t, later, hfirst, hsecond, rfl⟩ := mem_ends_seq.mp h
    rw [List.append_assoc]
    exact mem_ends_seq.mpr ⟨m, later ++ rest', later, ihOne hone hfirst prev' _,
      ihTwo htwo hsecond _ _, rfl⟩
  | alt one two ihOne ihTwo =>
    obtain ⟨hone, htwo⟩ := Bool.and_eq_true_iff.mp free
    rcases mem_ends_alt.mp h with h | h
    · exact mem_ends_alt.mpr (.inl (ihOne hone h prev' rest'))
    · exact mem_ends_alt.mpr (.inr (ihTwo htwo h prev' rest'))

theorem nullable_of_nil (h : ([], rest) ∈ ends isWord r prev s) : r.nullable = true := by
  induction r generalizing prev s rest with
  | empty => rfl
  | one p =>
    obtain ⟨c, _, hnil, _⟩ := mem_ends_one.mp h
    cases hnil
  | greedy p least =>
    obtain ⟨_, _, hlong⟩ := mem_ends_greedy.mp h
    exact decide_eq_true (Nat.le_zero.mp hlong)
  | lazy p least =>
    obtain ⟨_, _, hlong⟩ := mem_ends_lazy.mp h
    exact decide_eq_true (Nat.le_zero.mp hlong)
  | boundary => rfl
  | lineStart => rfl
  | seq one two ihOne ihTwo =>
    obtain ⟨m, t, later, hfirst, hsecond, hnil⟩ := mem_ends_seq.mp h
    obtain ⟨rfl, rfl⟩ := List.append_eq_nil_iff.mp hnil.symm
    exact Bool.and_eq_true_iff.mpr ⟨ihOne hfirst, ihTwo hsecond⟩
  | alt one two ihOne ihTwo =>
    rcases mem_ends_alt.mp h with h | h
    · exact Bool.or_eq_true_iff.mpr (.inl (ihOne h))
    · exact Bool.or_eq_true_iff.mpr (.inr (ihTwo h))

theorem mayBegin_of_match {c : Char} (h : (c :: taken, rest) ∈ ends isWord r prev s) :
    r.mayBegin c = true := by
  induction r generalizing prev s taken rest with
  | empty =>
    obtain ⟨hnil, _⟩ := mem_ends_empty.mp h
    cases hnil
  | one p =>
    obtain ⟨x, hx, hsingle, _⟩ := mem_ends_one.mp h
    obtain ⟨rfl, _⟩ := List.cons.inj hsingle
    exact hx
  | greedy p least => exact (mem_ends_greedy.mp h).2.1 c List.mem_cons_self
  | lazy p least => exact (mem_ends_lazy.mp h).2.1 c List.mem_cons_self
  | boundary =>
    obtain ⟨_, hnil, _⟩ := mem_ends_boundary.mp h
    cases hnil
  | lineStart =>
    obtain ⟨_, hnil, _⟩ := mem_ends_lineStart.mp h
    cases hnil
  | seq one two ihOne ihTwo =>
    obtain ⟨m, t, later, hfirst, hsecond, hsplit⟩ := mem_ends_seq.mp h
    cases m with
    | nil =>
      rw [List.nil_append] at hsplit
      subst hsplit
      exact Bool.or_eq_true_iff.mpr (.inr (Bool.and_eq_true_iff.mpr
        ⟨nullable_of_nil hfirst, ihTwo hsecond⟩))
    | cons x m =>
      obtain ⟨rfl, _⟩ := List.cons.inj hsplit
      exact Bool.or_eq_true_iff.mpr (.inl (ihOne hfirst))
  | alt one two ihOne ihTwo =>
    rcases mem_ends_alt.mp h with h | h
    · exact Bool.or_eq_true_iff.mpr (.inl (ihOne h))
    · exact Bool.or_eq_true_iff.mpr (.inr (ihTwo h))

theorem boundary_of_match (begins : r.boundaryFirst = true)
    (h : (taken, rest) ∈ ends isWord r prev s) : atBoundary isWord prev s = true := by
  induction r generalizing prev s taken rest with
  | empty => cases begins
  | one p => cases begins
  | greedy p least => cases begins
  | lazy p least => cases begins
  | boundary => exact (mem_ends_boundary.mp h).1
  | lineStart => cases begins
  | seq one two ihOne ihTwo =>
    obtain ⟨m, t, later, hfirst, hsecond, rfl⟩ := mem_ends_seq.mp h
    rcases Bool.or_eq_true_iff.mp begins with hone | hboth
    · exact ihOne hone hfirst
    · obtain ⟨honly, htwo⟩ := Bool.and_eq_true_iff.mp hboth
      obtain rfl := eq_nil_of_onlyEmpty honly hfirst
      obtain rfl : t = s := ends_append hfirst
      exact ihTwo htwo hsecond
  | alt one two ihOne ihTwo =>
    obtain ⟨hone, htwo⟩ := Bool.and_eq_true_iff.mp begins
    rcases mem_ends_alt.mp h with h | h
    · exact ihOne hone h
    · exact ihTwo htwo h

theorem boundary_after_match (stops : r.boundaryLast = true)
    (h : (taken, rest) ∈ ends isWord r prev s) :
    atBoundary isWord (before prev taken) rest = true := by
  induction r generalizing prev s taken rest with
  | empty => cases stops
  | one p => cases stops
  | greedy p least => cases stops
  | lazy p least => cases stops
  | boundary =>
    obtain ⟨hboundary, rfl, rfl⟩ := mem_ends_boundary.mp h
    exact hboundary
  | lineStart => cases stops
  | seq one two ihOne ihTwo =>
    obtain ⟨m, t, later, hfirst, hsecond, rfl⟩ := mem_ends_seq.mp h
    rw [before_append]
    rcases Bool.or_eq_true_iff.mp stops with htwo | hboth
    · exact ihTwo htwo hsecond
    · obtain ⟨honly, hone⟩ := Bool.and_eq_true_iff.mp hboth
      obtain rfl := eq_nil_of_onlyEmpty honly hsecond
      obtain rfl : rest = t := ends_append hsecond
      rw [before_nil]
      exact ihOne hone hfirst
  | alt one two ihOne ihTwo =>
    obtain ⟨hone, htwo⟩ := Bool.and_eq_true_iff.mp stops
    rcases mem_ends_alt.mp h with h | h
    · exact ihOne hone h
    · exact ihTwo htwo h

theorem runs_last (p : Char → Bool) (s : List Char) :
    ∃ shorter taken rest, runs p s = shorter ++ [(taken, rest)] ∧ rest.head?.any p = false ∧
      ∀ split ∈ shorter, split.1.length ≤ taken.length := by
  induction s with
  | nil => exact ⟨[], [], [], rfl, rfl, by simp⟩
  | cons c s ih =>
    obtain ⟨shorter, taken, rest, hruns, hrest, hshorter⟩ := ih
    rw [runs, hruns]
    by_cases hc : p c = true
    · refine ⟨([], c :: s) :: shorter.map fun split => (c :: split.1, split.2), c :: taken, rest,
        by simp [hc], hrest, List.forall_mem_cons.mpr ⟨Nat.zero_le _, ?_⟩⟩
      intro split hsplit
      obtain ⟨split', hmem, rfl⟩ := List.mem_map.mp hsplit
      exact Nat.succ_le_succ (hshorter split' hmem)
    · exact ⟨[], [], c :: s, by simp [hc], by simpa using hc, by simp⟩

theorem greedy_maximal {p : Char → Bool} {least : Nat}
    (h : (ends isWord (greedy p least) prev s).head? = some (taken, rest)) :
    rest.head?.any p = false := by
  obtain ⟨shorter, longest, later, hruns, hlater, hshorter⟩ := runs_last p s
  rw [ends, hruns, List.filter_append, List.reverse_append] at h
  by_cases hlong : least ≤ longest.length
  · rw [List.filter_cons_of_pos (by simpa using hlong)] at h
    obtain ⟨_, rfl⟩ := Prod.mk.inj (Option.some.inj h)
    exact hlater
  · have hnone : (shorter.filter fun split => decide (least ≤ split.1.length)) = [] := by
      refine List.filter_eq_nil_iff.mpr fun split hsplit => ?_
      have := hshorter split hsplit
      rw [decide_eq_true_eq]
      omega
    rw [List.filter_cons_of_neg (by simpa using hlong), hnone] at h
    cases h

theorem head?_seq {one two : Pattern}
    (h : (ends isWord (seq one two) prev s).head? = some (taken, rest)) :
    ∃ m t later, (m, t) ∈ ends isWord one prev s ∧
      (ends isWord two (before prev m) t).head? = some (later, rest) := by
  rw [ends] at h
  generalize ends isWord one prev s = splits at h
  induction splits with
  | nil => cases h
  | cons split splits ih =>
    rw [List.flatMap_cons] at h
    cases htwo : ends isWord two (before prev split.1) split.2 with
    | nil =>
      rw [htwo, List.map_nil, List.nil_append] at h
      obtain ⟨m, t, later, hmem, hhead⟩ := ih h
      exact ⟨m, t, later, List.mem_cons_of_mem _ hmem, hhead⟩
    | cons found more =>
      rw [htwo, List.map_cons, List.cons_append, List.head?_cons] at h
      obtain ⟨_, rfl⟩ := Prod.mk.inj (Option.some.inj h)
      exact ⟨split.1, split.2, found.1, List.mem_cons_self, by rw [htwo]; rfl⟩

/-- What follows the first match is not of the class that its end takes as much of as it can. -/
theorem lastRun_maximal {p : Char → Bool} (run : r.lastRun = some p)
    (h : (ends isWord r prev s).head? = some (taken, rest)) : rest.head?.any p = false := by
  induction r generalizing prev s taken rest with
  | empty => cases run
  | one p => cases run
  | greedy p' least =>
    obtain rfl := Option.some.inj run
    exact greedy_maximal h
  | lazy p least => cases run
  | boundary => cases run
  | lineStart => cases run
  | alt one two _ _ => cases run
  | seq one two ihOne ihTwo =>
    by_cases hempty : two = empty
    · subst hempty
      have hone : (ends isWord one prev s).head? = some (taken, rest) := by
        have hsame : ends isWord (seq one empty) prev s = ends isWord one prev s := by
          simp [ends]
        rwa [hsame] at h
      exact ihOne run hone
    · have hrun : two.lastRun = some p := by
        cases two with
        | empty => exact absurd rfl hempty
        | _ => exact run
      obtain ⟨m, t, later, _, hhead⟩ := head?_seq h
      exact ihTwo hrun hhead

end Context

section Separation

variable {isWord : Char → Bool} {q r : Pattern} {marker : List Char} {cut : List Piece}

/-- A marker in brackets, in which no match of the pattern begins. -/
structure Marks (isWord : Char → Bool) (r : Pattern) (marker : List Char) : Prop where
  opened : ∃ others, marker = '[' :: others
  closed : ∃ others, marker = others ++ [']']
  openPlain : isWord '[' = false
  closePlain : isWord ']' = false
  quiet : ∀ m c m' prev rest, marker = m ++ c :: m' →
    ends isWord r (before prev m) (c :: (m' ++ rest)) = []

/-- Around the hits of `q` there are word boundaries wherever a match of `r` in the text that
remains could ask for one. -/
structure Apart (isWord : Char → Bool) (r q : Pattern) : Prop where
  ahead : ∀ prev taken rest, taken ≠ [] → (taken, rest) ∈ ends isWord q prev (taken ++ rest) →
    prev.any isWord = true → atBoundary isWord prev (taken ++ rest) = true
  behind : ∀ prev taken c rest,
    (ends isWord q prev (taken ++ c :: rest)).head? = some (taken, c :: rest) →
    isWord c = true → r.mayBegin c = true →
    atBoundary isWord (before prev taken) (c :: rest) = true

theorem before_marked (closed : ∃ others, marker = others ++ [']']) (prev : Option Char)
    (text : List Char) : before prev (text ++ marker) = some ']' := by
  obtain ⟨others, rfl⟩ := closed
  rw [← List.append_assoc, before_concat]

/-- Where a kept character follows, a word boundary behind the marker is one behind the hit. -/
theorem boundary_kept (apart : Apart isWord r q) (marks : Marks isWord r marker)
    (first : HitsFirst isWord q none cut) {front back : List Piece} {c : Char}
    (hcut : cut = front ++ .char c :: back) (begins : r.mayBegin c = true)
    (h : (before none (replaced marker front)).any isWord ≠ isWord c) :
    (before none (original front)).any isWord ≠ isWord c := by
  rcases List.eq_nil_or_concat front with rfl | ⟨others, piece, rfl⟩
  · exact h
  · rw [List.concat_eq_append] at h hcut ⊢
    cases piece with
    | char d =>
      rw [replaced_append, replaced_char, replaced_nil, before_concat] at h
      rwa [original_append, original_char, original_nil, before_concat]
    | hit taken =>
      rw [replaced_append, replaced_hit, replaced_nil, List.append_nil,
        before_marked marks.closed, Option.any_some, marks.closePlain] at h
      have hword : isWord c = true := by
        cases hc : isWord c with
        | true => rfl
        | false => exact absurd hc.symm h
      rw [List.append_assoc] at hcut
      obtain ⟨_, hhead⟩ := first others taken (.char c :: back) hcut
      have hboundary := apart.behind _ taken c _ hhead hword begins
      rw [original_append, original_hit, original_nil, List.append_nil, before_append]
      rw [atBoundary, bne_iff_ne] at hboundary
      exact hboundary

/-- No match of the pattern is made by a substitution that keeps apart from it. -/
theorem noMatch_replaced (apart : Apart isWord r q) (marks : Marks isWord r marker)
    (avoids : r.avoids '[' = true) (lines : r.lineFree = true) (nonempty : 0 < r.minLength)
    (first : HitsFirst isWord q none cut) (free : NoneFree isWord r none cut) :
    NoMatch isWord r (replaced marker cut) := by
  intro a b hsplit
  by_contra hends
  obtain ⟨⟨taken, tail⟩, hmatch⟩ := List.exists_mem_of_ne_nil _ hends
  have hlength := minLength_le hmatch
  have hnot := not_mem_of_avoids avoids hmatch
  obtain rfl := ends_append hmatch
  cases taken with
  | nil => exact absurd hlength (Nat.not_le.mpr nonempty)
  | cons c t =>
    rcases locate hsplit with ⟨front, back, hcut, rfl, hback⟩ |
      ⟨front, found, back, m, m', _, hmarker, rfl, hrest⟩
    · obtain ⟨mark, hmark⟩ := marks.opened
      obtain ⟨rest, rfl, rfl⟩ := kept_beginning hmark
        (fun hmem => hnot (List.mem_cons_of_mem _ hmem)) hback.symm
      have hnone := free front c _ hcut
      rw [original_append, original_chars] at hnone
      refine List.ne_nil_of_mem (a := (c :: t, original rest)) ?_ hnone
      have htransfer := @ends_transfer isWord r (before none (replaced marker front))
        (before none (original front)) (replaced marker rest) (original rest) lines [] (c :: t) []
        (by simp) ?_ ?_ (by simpa using hmatch)
      · simpa using htransfer
      · intro d later hd
        rw [List.nil_append, List.append_nil] at hd
        obtain ⟨rfl, -⟩ := List.cons.inj hd
        exact boundary_kept apart marks first hcut (mayBegin_of_match hmatch)
      · intro others d hd hboundary
        rw [List.nil_append, List.append_nil] at hd
        cases rest with
        | nil => exact hboundary
        | cons piece more =>
          cases piece with
          | char x => exact hboundary
          | hit found =>
            rw [replaced_hit, hmark] at hboundary
            have hword : isWord d = true := by
              cases hd : isWord d with
              | true => rfl
              | false =>
                rw [hd] at hboundary
                exact absurd marks.openPlain.symm hboundary
            have hsplitCut : cut = (front ++ .char c :: t.map .char) ++ .hit found :: more := by
              rw [hcut, List.append_assoc]
              rfl
            obtain ⟨hne, hhead⟩ := first _ found more hsplitCut
            have hprev : before none (original (front ++ .char c :: t.map .char)) = some d := by
              rw [original_append, original_char, original_chars, before_append, hd, before_concat]
            rw [hprev] at hhead
            have := apart.ahead _ found _ hne (List.mem_of_head? hhead) (by simpa using hword)
            rw [atBoundary, bne_iff_ne] at this
            rw [original_hit]
            exact this
    · refine List.ne_nil_of_mem hmatch ?_
      have hsame : t ++ tail = m' ++ replaced marker back := hrest
      rw [before_append, List.cons_append, hsame]
      exact marks.quiet m c m' _ _ hmarker

/-- A separating pattern: a beginning, anything, and an end, both of which ask nothing of what is
around them. -/
theorem noMatch_replaced_lazy {opening closing : Pattern}
    (hr : r = seq opening (seq (lazy (fun _ => true) 0) closing))
    (free : opening.free = true ∧ closing.free = true)
    (nonempty : 0 < opening.minLength ∧ 0 < closing.minLength)
    (avoids : opening.avoids '[' = true ∧ closing.avoids '[' = true)
    (opened : ∃ others, marker = '[' :: others)
    (quiet : ∀ c ∈ marker, opening.mayBegin c = false ∧ closing.mayBegin c = false)
    (none_ : NoneFree isWord r none cut) : NoMatch isWord r (replaced marker cut) := by
  subst hr
  obtain ⟨others, hmarker⟩ := opened
  -- a match that avoids the marker stands in kept characters
  have kept : ∀ {p : Pattern} {prev : Option Char} {text rest a : List Char} {part : List Piece},
      0 < p.minLength → p.avoids '[' = true → (∀ c ∈ marker, p.mayBegin c = false) →
      (text, rest) ∈ ends isWord p prev (text ++ rest) →
      replaced marker part = a ++ (text ++ rest) →
      ∃ front back, part = front ++ (text.map .char ++ back) ∧ replaced marker front = a ∧
        replaced marker back = rest := by
    intro p prev text rest a part hpos havoids hquiet hmatch hpart
    have hnot := not_mem_of_avoids havoids hmatch
    cases text with
    | nil => exact absurd (minLength_le hmatch) (Nat.not_le.mpr hpos)
    | cons c t =>
      rcases locate hpart with ⟨front, back, rfl, rfl, hback⟩ | ⟨_, _, _, m, m', _, hm, _, _⟩
      · obtain ⟨later, rfl, rfl⟩ := kept_beginning hmarker
          (fun hmem => hnot (List.mem_cons_of_mem _ hmem)) hback.symm
        exact ⟨front, later, rfl, rfl, rfl⟩
      · have := hquiet c (by rw [hm]; simp)
        rw [mayBegin_of_match hmatch] at this
        cases this
  intro a b hsplit
  by_contra hends
  obtain ⟨⟨taken, tail⟩, hmatch⟩ := List.exists_mem_of_ne_nil _ hends
  obtain ⟨head, t, later, hopening, hrest, rfl⟩ := mem_ends_seq.mp hmatch
  obtain ⟨mid, t', last, hmid, hclosing, rfl⟩ := mem_ends_seq.mp hrest
  obtain rfl := (ends_append hopening).symm
  obtain rfl := (ends_append hmid).symm
  obtain rfl := (ends_append hclosing).symm
  obtain ⟨front, back, rfl, hfront, hback⟩ :=
    kept nonempty.1 avoids.1 (fun c hc => (quiet c hc).1) hopening hsplit
  obtain ⟨between, after, rfl, hbetween, hafter⟩ :=
    kept nonempty.2 avoids.2 (fun c hc => (quiet c hc).2) hclosing hback
  cases head with
  | nil => exact absurd (minLength_le hopening) (Nat.not_le.mpr nonempty.1)
  | cons c head =>
    have hnone := none_ front c (head.map .char ++ (between ++ (last.map .char ++ after))) rfl
    rw [original_append, original_chars, original_append, original_append, original_chars] at hnone
    refine List.ne_nil_of_mem (a := ((c :: head) ++ (original between ++ last), original after))
      ?_ hnone
    refine mem_ends_seq.mpr ⟨c :: head, original between ++ (last ++ original after), _,
      ends_free free.1 hopening _ _, ?_, rfl⟩
    exact mem_ends_seq.mpr ⟨original between, last ++ original after, last,
      mem_ends_lazy.mpr ⟨rfl, fun _ _ => rfl, Nat.zero_le _⟩, ends_free free.2 hclosing _ _, rfl⟩

end Separation

section Silence

variable {isWord word : Char → Bool} {q r : Pattern} {prev : Option Char} {marker : List Char}
  {s taken rest : List Char}

/-- A list of patterns matches as its two parts do one after the other. -/
theorem mem_ends_all_append {front back : List Pattern} :
    (taken, rest) ∈ ends isWord (all (front ++ back)) prev s ↔
      (taken, rest) ∈ ends isWord (seq (all front) (all back)) prev s := by
  induction front generalizing prev s taken with
  | nil =>
    rw [List.nil_append, mem_ends_seq]
    constructor
    · exact fun h => ⟨[], s, taken, mem_ends_empty.mpr ⟨rfl, rfl⟩, h, rfl⟩
    · rintro ⟨m, t, later, hempty, h, rfl⟩
      obtain ⟨rfl, rfl⟩ := mem_ends_empty.mp hempty
      exact h
  | cons r front ih =>
    constructor
    · intro h
      obtain ⟨m, t, later, hr, hlater, rfl⟩ := mem_ends_seq.mp h
      obtain ⟨m', t', later', hfront, hback, rfl⟩ := mem_ends_seq.mp (ih.mp hlater)
      refine mem_ends_seq.mpr ⟨m ++ m', t', later', ?_, ?_, by rw [List.append_assoc]⟩
      · exact mem_ends_seq.mpr ⟨m, t, m', hr, hfront, rfl⟩
      · rwa [before_append]
    · intro h
      obtain ⟨m, t, later, hfront, hback, rfl⟩ := mem_ends_seq.mp h
      obtain ⟨m₁, t₁, m₂, hr, hrest, rfl⟩ := mem_ends_seq.mp hfront
      refine mem_ends_seq.mpr ⟨m₁, t₁, m₂ ++ later, hr, ?_, by rw [List.append_assoc]⟩
      rw [before_append] at hback
      exact ih.mpr (mem_ends_seq.mpr ⟨m₂, t, later, hrest, hback, rfl⟩)

/-- Patterns with the same matches match in the same texts. -/
theorem noMatch_congr (same : ∀ prev s taken rest,
    (taken, rest) ∈ ends isWord r prev s ↔ (taken, rest) ∈ ends isWord q prev s)
    (h : NoMatch isWord r s) : NoMatch isWord q s := by
  intro front rest hsplit
  rw [List.eq_nil_iff_forall_not_mem]
  rintro ⟨taken, tail⟩ hmatch
  have := (same _ _ _ _).mpr hmatch
  rw [h front rest hsplit] at this
  cases this

/-- A text that is cut into characters only has no match. -/
theorem noMatch_of_hits {cut : List Piece} (nonempty : 0 < q.minLength)
    (h : CutOf isWord q s cut) (none_ : hits cut = []) : NoMatch isWord q s := by
  have hchars := chars_of_hits_eq_nil none_
  rw [h.whole] at hchars
  have hfree := h.free
  rintro front rest rfl
  cases rest with
  | nil =>
    rw [List.eq_nil_iff_forall_not_mem]
    rintro ⟨taken, tail⟩ hmatch
    have hlength := minLength_le hmatch
    rw [(List.append_eq_nil_iff.mp (ends_append hmatch)).1] at hlength
    exact absurd hlength (Nat.not_le.mpr nonempty)
  | cons c rest =>
    have := hfree (front.map .char) c (rest.map .char) (by rw [hchars]; simp)
    rwa [original_chars, original_chars] at this

theorem fits_self {known : List Char} (agree : ∀ c ∈ known, isWord c = word c)
    (rest : List Char) : Fits isWord word (known.map fun c => [c]) (known ++ rest) := by
  induction known with
  | nil => trivial
  | cons c known ih =>
    obtain ⟨hc, hknown⟩ := List.forall_mem_cons.mp agree
    exact ⟨⟨List.mem_singleton_self c, hc⟩, ih hknown⟩

theorem fits_append {sets more : List (List Char)} {known rest : List Char}
    (length : known.length = sets.length) (hknown : Fits isWord word sets known)
    (hrest : Fits isWord word more rest) : Fits isWord word (sets ++ more) (known ++ rest) := by
  induction sets generalizing known with
  | nil => rwa [List.length_eq_zero_iff.mp length]
  | cons set sets ih =>
    obtain ⟨c, t, rfl⟩ := List.exists_cons_of_length_eq_add_one length
    exact ⟨hknown.1, ih (Nat.succ.inj length) hknown.2⟩

theorem fits_class {set known : List Char} {n : Nat} (length : known.length = n)
    (drawn : ∀ c ∈ known, c ∈ set) (agree : ∀ c ∈ set, isWord c = word c) :
    Fits isWord word (List.replicate n set) known := by
  subst length
  induction known with
  | nil => trivial
  | cons c known ih =>
    obtain ⟨hc, hknown⟩ := List.forall_mem_cons.mp drawn
    exact ⟨⟨hc, agree c hc⟩, ih hknown⟩

theorem ends_of_quiet {prevs : List (Option Char)} {known m m' : List Char} {c : Char}
    (calm : quiet word r prevs (known.map fun c => [c]) = true) (listed : prev ∈ prevs)
    (before_ : ∀ c, prev = some c → isWord c = word c) (agree : ∀ c ∈ known, isWord c = word c)
    (h : known = m ++ c :: m') : ends isWord r (before prev m) (c :: (m' ++ rest)) = [] := by
  induction m generalizing known prev prevs with
  | nil =>
    subst h
    obtain ⟨hnone, _⟩ := Bool.and_eq_true_iff.mp calm
    exact ends_eq_nil hnone ⟨listed, before_, fits_self agree rest⟩
  | cons x m ih =>
    subst h
    obtain ⟨_, hcalm⟩ := Bool.and_eq_true_iff.mp calm
    obtain ⟨hx, hothers⟩ := List.forall_mem_cons.mp agree
    exact ih hcalm List.mem_cons_self (fun d hd => Option.some.inj hd ▸ hx) hothers rfl

/-- What makes a text in brackets a marker for a pattern that does not begin with a bracket. -/
theorem marks_of_quiet {inside : List Char} (hmarker : marker = '[' :: (inside ++ [']']))
    (agree : ∀ c ∈ marker, isWord c = word c) (plain : word '[' = false ∧ word ']' = false)
    (nonempty : 0 < r.minLength) (begins : r.mayBegin '[' = false)
    (calm : quiet word r [some '['] ((inside ++ [']']).map fun c => [c]) = true) :
    Marks isWord r marker := by
  subst hmarker
  obtain ⟨hopen, hinside⟩ := List.forall_mem_cons.mp agree
  refine ⟨⟨_, rfl⟩, ⟨'[' :: inside, rfl⟩, by rw [hopen, plain.1],
    by rw [hinside ']' (by simp), plain.2], ?_⟩
  intro m c m' prev rest hsplit
  cases m with
  | nil =>
    obtain ⟨rfl, rfl⟩ := List.cons.inj hsplit
    rw [List.eq_nil_iff_forall_not_mem]
    rintro ⟨taken, tail⟩ hmatch
    cases taken with
    | nil => exact absurd (minLength_le hmatch) (Nat.not_le.mpr nonempty)
    | cons x taken =>
      obtain ⟨rfl, _⟩ := List.cons.inj (ends_append hmatch)
      rw [mayBegin_of_match hmatch] at begins
      cases begins
  | cons x m =>
    obtain ⟨rfl, hothers⟩ := List.cons.inj hsplit
    have hbefore : ∀ d, some '[' = some d → isWord d = word d :=
      fun d hd => Option.some.inj hd ▸ hopen
    exact @ends_of_quiet isWord word r (some '[') rest [some '['] _ m m' c calm
      (List.mem_singleton_self _) hbefore hinside hothers

theorem apart_of_boundaries (first : q.boundaryFirst = true) (last : q.boundaryLast = true) :
    Apart isWord r q :=
  ⟨fun _ _ _ _ hmatch _ => boundary_of_match first hmatch,
    fun _ _ _ _ hhead _ _ => boundary_after_match last (List.mem_of_head? hhead)⟩

/-- A pattern that takes all it can of a class keeps apart from what begins in that class. -/
theorem apart_of_run {p : Char → Bool} (first : q.boundaryFirst = true)
    (run : q.lastRun = some p) (reads : ∀ c, r.mayBegin c = true → p c = true) :
    Apart isWord r q := by
  refine ⟨fun _ _ _ _ hmatch _ => boundary_of_match first hmatch,
    fun prev taken c rest hhead _ hbegin => ?_⟩
  have := lastRun_maximal run hhead
  rw [List.head?_cons, Option.any_some, reads c hbegin] at this
  cases this

end Silence

end Regex
