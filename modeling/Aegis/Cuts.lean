import Aegis.Windows
import Mathlib.Data.List.Chain

namespace Aegis

/-- The character at the offset is there and is no white space. -/
def VisibleAt (text : List Char) (q : Nat) : Prop :=
  ∃ c, text[q]? = some c ∧ isSpace c = false

/-- A cut without the white space at its ends. -/
def trimCut (text : List Char) (cut : Nat × Nat) : Nat × Nat :=
  let start := cut.1 + ((slice text cut.1 cut.2).takeWhile isSpace).length
  (start, start + (pieceOf text cut).length)

section Trim

variable {text : List Char} {cut : Nat × Nat}

/-- White space, the stripped text, white space. -/
theorem stripChars_split (text : List Char) :
    ∃ back, text = text.takeWhile isSpace ++ (stripChars text ++ back) ∧
      ∀ c ∈ back, isSpace c = true := by
  refine ⟨(text.dropWhile isSpace).rtakeWhile isSpace, ?_, fun c hc => ?_⟩
  · rw [stripChars, List.rdropWhile_append_rtakeWhile, List.takeWhile_append_dropWhile]
  · exact List.mem_rtakeWhile_imp hc

theorem stripChars_head {c : Char} {rest : List Char} (h : stripChars text = c :: rest) :
    isSpace c = false := by
  have hprefix : c :: rest <+: text.dropWhile isSpace := h ▸ List.rdropWhile_prefix isSpace _
  obtain ⟨later, hlater⟩ := hprefix
  have hne : text.dropWhile isSpace ≠ [] := by
    rw [← hlater]
    exact List.cons_ne_nil _ _
  have hhead := List.head_dropWhile_not isSpace hne
  simpa only [← hlater, List.cons_append, List.head_cons, Bool.not_eq_true] using hhead

theorem stripChars_last {c : Char} {front : List Char} (h : stripChars text = front ++ [c]) :
    isSpace c = false := by
  have hne : stripChars text ≠ [] := by
    rw [h]
    simp
  have hlast := List.rdropWhile_last_not isSpace (text.dropWhile isSpace) hne
  have hget : (stripChars text).getLast hne = c := by simp only [h, List.getLast_concat]
  rw [← hget]
  exact Bool.eq_false_iff.mpr hlast

theorem mem_takeWhile_space {c : Char} (h : c ∈ text.takeWhile isSpace) : isSpace c = true :=
  List.mem_takeWhile_imp h

theorem cut_split (order : cut.1 ≤ cut.2) (inside : cut.2 ≤ text.length) :
    ∃ pre lead back post, text = pre ++ (lead ++ (pieceOf text cut ++ (back ++ post))) ∧
      pre.length = cut.1 ∧ (trimCut text cut).1 = cut.1 + lead.length ∧
      cut.2 = cut.1 + lead.length + (pieceOf text cut).length + back.length ∧
      (∀ c ∈ lead, isSpace c = true) ∧ ∀ c ∈ back, isSpace c = true := by
  obtain ⟨back, hsplit, hback⟩ := stripChars_split (slice text cut.1 cut.2)
  have hlen : (slice text cut.1 cut.2).length = cut.2 - cut.1 := by
    rw [slice, List.length_take, List.length_drop]
    omega
  have hparts := congrArg List.length hsplit
  rw [List.length_append, List.length_append, hlen] at hparts
  refine ⟨text.take cut.1, (slice text cut.1 cut.2).takeWhile isSpace, back,
    (text.drop cut.1).drop (cut.2 - cut.1), ?_, ?_, rfl, ?_, fun c hc => mem_takeWhile_space hc,
    hback⟩
  · calc text = text.take cut.1 ++ text.drop cut.1 := (List.take_append_drop ..).symm
      _ = text.take cut.1 ++ (slice text cut.1 cut.2 ++ (text.drop cut.1).drop (cut.2 - cut.1)) := by
        rw [slice, List.take_append_drop, List.take_append_drop, List.take_append_drop]
      _ = _ := by
        conv_lhs => rw [hsplit]
        simp only [List.append_assoc, pieceOf]
  · rw [List.length_take]
    omega
  · rw [pieceOf]
    omega

/-- The piece of a cut that is not white space: its ends are visible, and it holds what is visible
in the cut. -/
structure TrimmedCut (text : List Char) (cut : Nat × Nat) : Prop where
  start_le : cut.1 ≤ (trimCut text cut).1
  nonempty : (trimCut text cut).1 < (trimCut text cut).2
  stop_le : (trimCut text cut).2 ≤ cut.2
  first : VisibleAt text (trimCut text cut).1
  last : VisibleAt text ((trimCut text cut).2 - 1)
  holds : ∀ q, cut.1 ≤ q → q < cut.2 → VisibleAt text q →
    (trimCut text cut).1 ≤ q ∧ q < (trimCut text cut).2
  piece : pieceOf text cut = slice text (trimCut text cut).1 (trimCut text cut).2

theorem trimmedCut (order : cut.1 ≤ cut.2) (inside : cut.2 ≤ text.length)
    (h : pieceOf text cut ≠ []) : TrimmedCut text cut := by
  obtain ⟨pre, lead, back, post, hsplit, hpre, hstart, hstop, hlead, hback⟩ :=
    cut_split order inside
  have hpos : 0 < (pieceOf text cut).length := List.length_pos_of_ne_nil h
  have hend : (trimCut text cut).2 = (trimCut text cut).1 + (pieceOf text cut).length := rfl
  refine ⟨by omega, by omega, by omega, ?_, ?_, fun q hq hlt hvisible => ?_, ?_⟩
  · obtain ⟨c, rest, hcons⟩ := List.exists_cons_of_ne_nil h
    rw [hcons] at hsplit
    refine ⟨c, (congrArg (fun l : List Char => l[(trimCut text cut).1]?) hsplit).trans ?_,
      stripChars_head hcons⟩
    rw [List.getElem?_append_right (by omega), List.getElem?_append_right (by omega)]
    have hzero : (trimCut text cut).1 - pre.length - lead.length = 0 := by omega
    rw [hzero]
    rfl
  · obtain ⟨front, c, hconcat⟩ := (List.eq_nil_or_concat _).resolve_left h
    rw [List.concat_eq_append] at hconcat
    rw [hconcat] at hsplit
    rw [hconcat, List.length_append, List.length_singleton] at hend
    refine ⟨c, (congrArg (fun l : List Char => l[(trimCut text cut).2 - 1]?) hsplit).trans ?_,
      stripChars_last hconcat⟩
    rw [List.getElem?_append_right (by omega), List.getElem?_append_right (by omega),
      List.append_assoc, List.getElem?_append_right (by omega)]
    have hzero : (trimCut text cut).2 - 1 - pre.length - lead.length - front.length = 0 := by omega
    rw [hzero]
    rfl
  · obtain ⟨c, hget, hspace⟩ := hvisible
    rw [hsplit, List.getElem?_append_right (by omega)] at hget
    by_contra hout
    by_cases hfront : q < (trimCut text cut).1
    · rw [List.getElem?_append_left (by omega)] at hget
      rw [hlead c (List.mem_of_getElem? hget)] at hspace
      cases hspace
    · rw [List.getElem?_append_right (by omega), List.getElem?_append_right (by omega),
        List.getElem?_append_left (by omega)] at hget
      rw [hback c (List.mem_of_getElem? hget)] at hspace
      cases hspace
  · have hdrop : text.drop (trimCut text cut).1 = pieceOf text cut ++ (back ++ post) := by
      refine (congrArg (List.drop (trimCut text cut).1) hsplit).trans ?_
      rw [← List.append_assoc]
      exact List.drop_left' (by rw [List.length_append]; omega)
    have hlen : (trimCut text cut).2 - (trimCut text cut).1 = (pieceOf text cut).length := by omega
    rw [slice, hdrop, hlen, List.take_left' rfl]

theorem piece_eq_nil_iff (order : cut.1 ≤ cut.2) (inside : cut.2 ≤ text.length) :
    pieceOf text cut = [] ↔ ∀ q, cut.1 ≤ q → q < cut.2 → ¬VisibleAt text q := by
  constructor
  · rintro hnil q hq hlt ⟨c, hget, hspace⟩
    obtain ⟨pre, lead, back, post, hsplit, hpre, -, hstop, hlead, hback⟩ := cut_split order inside
    rw [hnil, List.nil_append] at hsplit
    rw [hnil, List.length_nil] at hstop
    rw [hsplit, List.getElem?_append_right (by omega), ← List.append_assoc,
      List.getElem?_append_left (by rw [List.length_append]; omega)] at hget
    rcases List.mem_append.mp (List.mem_of_getElem? hget) with hc | hc
    · rw [hlead c hc] at hspace
      cases hspace
    · rw [hback c hc] at hspace
      cases hspace
  · intro hnone
    by_contra hpiece
    have trimmed := trimmedCut order inside hpiece
    have hlt := trimmed.nonempty.trans_le trimmed.stop_le
    exact hnone _ trimmed.start_le hlt trimmed.first

end Trim

section Chain

variable {text : List Char} {target overlap start : Nat}

theorem rfind_ne_none {c : Char} {text : List Char} (h : c ∈ text) : rfind c text ≠ none := by
  induction text with
  | nil => cases h
  | cons x rest ih =>
    rw [rfind]
    split
    · exact Option.some_ne_none _
    next hnone =>
      rcases List.mem_cons.mp h with rfl | h
      · rw [if_pos rfl]
        exact Option.some_ne_none _
      · exact absurd hnone (ih h)

/-- The last occurrence: the character is there, and not after it. -/
theorem rfind_spec {c : Char} {text : List Char} {brk : Nat} (h : rfind c text = some brk) :
    text[brk]? = some c ∧ ∀ q, brk < q → text[q]? ≠ some c := by
  induction text generalizing brk with
  | nil => cases h
  | cons x rest ih =>
    rw [rfind] at h
    split at h
    next i hlater =>
      obtain ⟨hhere, hafter⟩ := ih hlater
      obtain rfl := Option.some.inj h
      refine ⟨by rwa [List.getElem?_cons_succ], fun q hq => ?_⟩
      cases q with
      | zero => omega
      | succ q =>
        rw [List.getElem?_cons_succ]
        exact hafter q (by omega)
    next hnone =>
      split at h
      next hx =>
        obtain rfl := Option.some.inj h
        refine ⟨by rw [List.getElem?_cons_zero, hx], fun q hq hget => ?_⟩
        cases q with
        | zero => omega
        | succ q =>
          rw [List.getElem?_cons_succ] at hget
          exact absurd hnone (rfind_ne_none (List.mem_of_getElem? hget))
      · cases h

theorem slice_getElem? (text : List Char) (a b k : Nat) :
    (slice text a b)[k]? = if k < b - a then text[a + k]? else none := by
  rw [slice, List.getElem?_take, List.getElem?_drop]

/-- A cut ends at the last line break in its second half, or where its size is reached. -/
theorem cutEnd_cases (text : List Char) (target start : Nat) :
    (cutEnd text target start = min (start + target) text.length ∧
      ∀ q, start + target / 2 ≤ q → q < min (start + target) text.length →
        min (start + target) text.length < text.length → text[q]? ≠ some '\n') ∨
    (min (start + target) text.length < text.length ∧
      start + target / 2 ≤ cutEnd text target start ∧
      cutEnd text target start < min (start + target) text.length ∧
      text[cutEnd text target start]? = some '\n' ∧
      ∀ q, cutEnd text target start < q → q < min (start + target) text.length →
        text[q]? ≠ some '\n') := by
  have hcut : cutEnd text target start =
      if min (start + target) text.length < text.length then
        (rfind '\n' (slice text start (min (start + target) text.length))).elim
          (min (start + target) text.length) fun brk =>
            if target / 2 ≤ brk then start + brk else min (start + target) text.length
      else min (start + target) text.length := by
    rw [cutEnd]
    cases rfind '\n' (slice text start (min (start + target) text.length)) with
    | none => rfl
    | some brk => rfl
  rw [hcut]
  generalize min (start + target) text.length = full
  by_cases hfull : full < text.length
  · rw [if_pos hfull]
    have inSlice : ∀ q, start ≤ q → q < full →
        (slice text start full)[q - start]? = text[q]? := by
      intro q hq hlt
      rw [slice_getElem?, if_pos (by omega), Nat.add_sub_cancel' hq]
    cases hbrk : rfind '\n' (slice text start full) with
    | none =>
      refine .inl ⟨rfl, fun q hq hlt _ hget => ?_⟩
      rw [← inSlice q (by omega) hlt] at hget
      exact rfind_ne_none (List.mem_of_getElem? hget) hbrk
    | some brk =>
      obtain ⟨hhere, hafter⟩ := rfind_spec hbrk
      have hlen := rfind_lt hbrk
      rw [slice, List.length_take] at hlen
      have later : ∀ q, start + brk < q → q < full → text[q]? ≠ some '\n' := by
        intro q hq hlt
        rw [← inSlice q (by omega) hlt]
        exact hafter _ (by omega)
      rw [Option.elim_some]
      by_cases hhalf : target / 2 ≤ brk
      · rw [if_pos hhalf]
        refine .inr ⟨hfull, by omega, by omega, ?_, later⟩
        rw [← inSlice _ (by omega) (by omega), Nat.add_sub_cancel_left]
        exact hhere
      · rw [if_neg hhalf]
        exact .inl ⟨rfl, fun q hq hlt _ => later q (by omega) hlt⟩
  · rw [if_neg hfull]
    exact .inl ⟨rfl, fun q _ _ h => absurd h hfull⟩

theorem le_cutEnd (h : start ≤ text.length) : start ≤ cutEnd text target start := by
  rcases cutEnd_cases text target start with ⟨heq, _⟩ | ⟨_, hhalf, _⟩
  · omega
  · omega

theorem cutEnd_le_length (text : List Char) (target start : Nat) :
    cutEnd text target start ≤ text.length := by
  rcases cutEnd_cases text target start with ⟨heq, _⟩ | ⟨_, _, hlt, _⟩
  · omega
  · omega

/-- A cut that begins later does not end earlier. -/
theorem cutEnd_mono {later : Nat} (h : start ≤ later) :
    cutEnd text target start ≤ cutEnd text target later := by
  rcases cutEnd_cases text target later with ⟨heq, _⟩ | ⟨hfull', hhalf', hlt', hbreak, hlast⟩
  · rcases cutEnd_cases text target start with ⟨_, _⟩ | ⟨_, _, _, _⟩
    · omega
    · omega
  · by_contra hback
    rcases cutEnd_cases text target start with ⟨heq, hnone⟩ | ⟨_, _, hlt, hbreak', _⟩
    · exact hnone _ (by omega) (by omega) (by omega) hbreak
    · exact hlast _ (by omega) (by omega) hbreak'

/-- A later cut begins and ends no earlier, and both lie in the text. -/
structure CutOrder (text : List Char) (cut next : Nat × Nat) : Prop where
  start : cut.1 ≤ next.1
  stop : cut.2 ≤ next.2
  order : next.1 ≤ next.2
  inside : next.2 ≤ text.length

theorem cutsFrom_order (text : List Char) (target overlap : Nat) {start : Nat} {last : Nat × Nat}
    (begun : last.1 ≤ start) (ended : start < text.length → last.2 ≤ cutEnd text target start) :
    (last :: cutsFrom text target overlap start).IsChain (CutOrder text) := by
  induction start using cutsFrom.induct text target overlap generalizing last with
  | case1 start hstart ih =>
    rw [cutsFrom, if_pos hstart]
    refine List.isChain_cons_cons.mpr ⟨⟨begun, ended hstart, le_cutEnd hstart.le,
      cutEnd_le_length ..⟩, ?_⟩
    split
    · exact .singleton _
    · exact ih (by dsimp only; omega) fun _ => cutEnd_mono (by omega)
  | case2 start hend =>
    rw [cutsFrom, if_neg hend]
    exact .singleton _

end Chain

end Aegis
