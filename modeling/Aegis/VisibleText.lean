import Aegis.Chunking

namespace Aegis

/-- A text without its white space. -/
def visible (text : List Char) : List Char := text.filter fun c => !isSpace c

@[simp] theorem visible_nil : visible [] = [] := rfl

@[simp] theorem visible_append (text later : List Char) :
    visible (text ++ later) = visible text ++ visible later := List.filter_append ..

theorem visible_eq_nil {text : List Char} (h : ∀ c ∈ text, isSpace c = true) :
    visible text = [] := by
  refine List.filter_eq_nil_iff.mpr fun c hc => ?_
  rw [h c hc]
  simp

theorem visible_reverse (text : List Char) : visible text.reverse = (visible text).reverse :=
  List.filter_reverse ..

theorem visible_cons_space {c : Char} (h : isSpace c = true) (rest : List Char) :
    visible (c :: rest) = visible rest :=
  List.filter_cons_of_neg (by rw [h]; simp)

/-- Stripping takes white space only. -/
theorem visible_stripChars (text : List Char) : visible (stripChars text) = visible text := by
  have hfront : visible (text.takeWhile isSpace) = [] :=
    visible_eq_nil fun c hc => List.mem_takeWhile_imp hc
  have hback : visible ((text.dropWhile isSpace).rtakeWhile isSpace) = [] :=
    visible_eq_nil fun c hc => List.mem_rtakeWhile_imp hc
  calc visible (stripChars text)
      = visible (stripChars text ++ (text.dropWhile isSpace).rtakeWhile isSpace) := by
        rw [visible_append, hback, List.append_nil]
    _ = visible (text.dropWhile isSpace) := by
        rw [stripChars, List.rdropWhile_append_rtakeWhile]
    _ = visible (text.takeWhile isSpace ++ text.dropWhile isSpace) := by
        rw [visible_append, hfront, List.nil_append]
    _ = visible text := by rw [List.takeWhile_append_dropWhile]

theorem stripChars_eq_nil_iff (text : List Char) : stripChars text = [] ↔ visible text = [] := by
  constructor
  · intro h
    rw [← visible_stripChars, h]
    rfl
  · intro h
    rw [← visible_stripChars] at h
    have hall := List.filter_eq_nil_iff.mp h
    rw [stripChars, List.rdropWhile_eq_nil_iff]
    by_contra hnot
    push Not at hnot
    obtain ⟨c, hc, hspace⟩ := hnot
    have hne : stripChars text ≠ [] := by
      intro hnil
      rw [stripChars, List.rdropWhile_eq_nil_iff] at hnil
      exact hspace (hnil c hc)
    have hlast := List.rdropWhile_last_not isSpace (text.dropWhile isSpace) hne
    have := hall _ (List.getLast_mem hne)
    simp only [Bool.not_eq_true, Bool.not_eq_false'] at this
    exact hlast this

theorem visible_splitBlocksFrom (text part : List Char) :
    (splitBlocksFrom text part).flatMap visible = (visible part).reverse ++ visible text := by
  induction text, part using splitBlocksFrom.induct with
  | case1 part =>
    rw [splitBlocksFrom, List.flatMap_singleton, visible_reverse, visible_nil, List.append_nil]
  | case2 part rest ih =>
    rw [splitBlocksFrom, List.flatMap_cons, ih, visible_reverse, visible_nil, List.reverse_nil,
      List.nil_append, visible_cons_space (by decide), visible_cons_space (by decide)]
  | case3 c part rest hbreak ih =>
    rw [splitBlocksFrom, ih]
    · by_cases hc : isSpace c = true
      · rw [visible_cons_space hc, visible_cons_space hc]
      · have hcons : ∀ text, visible (c :: text) = c :: visible text := fun text =>
          List.filter_cons_of_pos (by simpa using hc)
        rw [hcons, hcons, List.reverse_cons, List.append_assoc]
        rfl
    · exact hbreak

/-- The paragraphs of a text hold all of it but white space. -/
theorem visible_paragraphs (text : List Char) :
    (paragraphs text).flatMap visible = visible text := by
  have hsplit := visible_splitBlocksFrom text []
  rw [visible_nil, List.reverse_nil, List.nil_append] at hsplit
  rw [paragraphs, ← hsplit]
  generalize splitBlocksFrom text [] = blocks
  induction blocks with
  | nil => rfl
  | cons block rest ih =>
    rw [List.map_cons, List.flatMap_cons, ← ih, ← visible_stripChars block]
    by_cases hblank : stripChars block = []
    · rw [List.filter_cons_of_neg (by simpa using hblank), hblank, visible_nil, List.nil_append]
    · rw [List.filter_cons_of_pos (by simpa using hblank), List.flatMap_cons]

theorem paragraphs_ne_nil {text : List Char} (h : stripChars text ≠ []) : paragraphs text ≠ [] := by
  intro hnil
  refine h ((stripChars_eq_nil_iff text).mpr ?_)
  rw [← visible_paragraphs, hnil]
  rfl

end Aegis
