import Aegis.Cuts

namespace Aegis

/-- One pass of the loop of `_hard_split`: the parts it leaves, and where the next window begins
unless the loop ends. -/
def splitPass (text : List Char) (target overlap start : Nat) (parts : List (List Char)) :
    List (List Char) × Option Nat :=
  let stop := cutEnd text target start
  let piece := stripChars (slice text start stop)
  (if piece = [] then parts else parts ++ [piece],
    if text.length ≤ stop then none else some (max (stop - overlap) (start + 1)))

/-- The loop of `_hard_split` as it stands, with a budget of passes. -/
def splitLoop (text : List Char) (target overlap : Nat) :
    Nat → Nat → List (List Char) → Option (List (List Char))
  | 0, _, _ => none
  | fuel + 1, start, parts =>
    if start < text.length then
      match splitPass text target overlap start parts with
      | (parts, none) => some parts
      | (parts, some next) => splitLoop text target overlap fuel next parts
    else some parts

variable {text : List Char} {target overlap start : Nat}

theorem splitPass_next {parts : List (List Char)} {next : Nat}
    (h : (splitPass text target overlap start parts).2 = some next) : start < next := by
  unfold splitPass at h
  dsimp only at h
  split at h
  · cases h
  · obtain rfl := Option.some.inj h
    omega

/-- A budget of more passes than there are characters left is enough. -/
theorem splitLoop_complete {fuel : Nat} {parts : List (List Char)}
    (enough : text.length - start < fuel) : splitLoop text target overlap fuel start parts =
      some (parts ++ hardSplitFrom text target overlap start) := by
  induction fuel generalizing start parts with
  | zero => omega
  | succ fuel ih =>
    rw [splitLoop, hardSplitFrom]
    by_cases hstart : start < text.length
    · rw [if_pos hstart, if_pos hstart]
      unfold splitPass
      dsimp only
      generalize stripChars (slice text start (cutEnd text target start)) = piece
      by_cases hlast : text.length ≤ cutEnd text target start
      · rw [if_pos hlast, if_pos hlast]
        by_cases hpiece : piece = []
        · simp [hpiece]
        · simp [hpiece]
      · rw [if_neg hlast, if_neg hlast]
        dsimp only
        rw [ih (by omega)]
        by_cases hpiece : piece = []
        · simp [hpiece]
        · simp [hpiece]
    · rw [if_neg hstart, if_neg hstart, List.append_nil]

theorem cutsFrom_cut : ∀ cut ∈ cutsFrom text target overlap start,
    start ≤ cut.1 ∧ cut.1 < text.length ∧ cut.2 = cutEnd text target cut.1 := by
  induction start using cutsFrom.induct text target overlap with
  | case1 start hstart ih =>
    rw [cutsFrom, if_pos hstart]
    refine List.forall_mem_cons.mpr ⟨⟨le_refl _, hstart, rfl⟩, fun cut hcut => ?_⟩
    split at hcut
    · cases hcut
    · obtain ⟨hfrom, hin, heq⟩ := ih cut hcut
      exact ⟨by omega, hin, heq⟩
  | case2 start hend =>
    rw [cutsFrom, if_neg hend]
    simp

theorem cutsFrom_rising : (cutsFrom text target overlap start).Pairwise
    fun cut next => cut.1 < next.1 ∧ cut.2 ≤ next.2 := by
  induction start using cutsFrom.induct text target overlap with
  | case1 start hstart ih =>
    rw [cutsFrom, if_pos hstart]
    refine List.pairwise_cons.mpr ⟨fun next hnext => ?_, ?_⟩
    · split at hnext
      · cases hnext
      · obtain ⟨hfrom, _, heq⟩ := cutsFrom_cut next hnext
        have hlater : start < next.1 := by omega
        refine ⟨hlater, ?_⟩
        rw [heq]
        exact cutEnd_mono hlater.le
    · split
      · exact List.Pairwise.nil
      · exact ih
  | case2 start hend =>
    rw [cutsFrom, if_neg hend]
    exact List.Pairwise.nil

theorem cutEnd_gap (positive : 1 ≤ target) (hstart : start < text.length) {q : Nat}
    (hq : start ≤ q) (passed : cutEnd text target start ≤ q)
    (early : q < start + 1) : ¬VisibleAt text q := by
  obtain rfl : q = start := by omega
  rcases cutEnd_cases text target q with ⟨heq, _⟩ | ⟨_, hhalf, _, hbreak, _⟩
  · omega
  · have hsame : cutEnd text target q = q := by omega
    rw [hsame] at hbreak
    rintro ⟨c, hget, hvisible⟩
    rw [hbreak] at hget
    obtain rfl := Option.some.inj hget
    cases hvisible

theorem cutsFrom_cover (positive : 1 ≤ target) {q : Nat} (hq : start ≤ q)
    (visible : VisibleAt text q) :
    ∃ cut ∈ cutsFrom text target overlap start, cut.1 ≤ q ∧ q < cut.2 := by
  have inside : q < text.length := by
    obtain ⟨c, hget, _⟩ := visible
    exact (List.getElem?_eq_some_iff.mp hget).1
  induction start using cutsFrom.induct text target overlap with
  | case1 start hstart ih =>
    rw [cutsFrom, if_pos hstart]
    by_cases hhere : q < cutEnd text target start
    · exact ⟨_, List.mem_cons_self, hq, hhere⟩
    · have hpassed : cutEnd text target start ≤ q := Nat.le_of_not_lt hhere
      have hlast : ¬text.length ≤ cutEnd text target start := by omega
      have hnext : max (cutEnd text target start - overlap) (start + 1) ≤ q := by
        by_contra hearly
        have hgap : q < start + 1 := by omega
        exact cutEnd_gap positive hstart hq hpassed hgap visible
      obtain ⟨cut, hcut, hcover⟩ := ih hnext
      rw [if_neg hlast]
      exact ⟨cut, List.mem_cons_of_mem _ hcut, hcover⟩
  | case2 start hend => omega

theorem trimCut_mono {cut next : Nat × Nat} (first : TrimmedCut text cut)
    (second : TrimmedCut text next) (starts : cut.1 < next.1) (stops : cut.2 ≤ next.2) :
    (trimCut text cut).1 ≤ (trimCut text next).1 ∧ (trimCut text cut).2 ≤ (trimCut text next).2 := by
  have hfirst := first.nonempty
  have hsecond := second.nonempty
  have hstop := first.stop_le
  have hstart := second.start_le
  constructor
  · by_cases hin : (trimCut text next).1 < cut.2
    · exact (first.holds _ (by omega) hin second.first).1
    · omega
  · by_cases hin : next.1 ≤ (trimCut text cut).2 - 1
    · have hlast := (second.holds _ hin (by omega) first.last).2
      omega
    · omega

/-- The pieces are what is cut from spans of the text, trimmed, without the empty ones. The spans
go forward and are of bounded length, and nothing visible lies outside them. -/
structure SplitInto (text : List Char) (target : Nat) (spans : List (Nat × Nat))
    (pieces : List (List Char)) : Prop where
  cut : pieces = (spans.map (pieceOf text)).filter fun piece => piece ≠ []
  inside : ∀ span ∈ spans, span.1 ≤ span.2 ∧ span.2 ≤ text.length ∧ span.2 ≤ span.1 + target
  rising : spans.Pairwise fun span next => span.1 < next.1 ∧ span.2 ≤ next.2
  trimmed : ∀ span ∈ spans, pieceOf text span ≠ [] → TrimmedCut text span
  ordered : (spans.filter fun span => pieceOf text span ≠ []).Pairwise fun span next =>
    (trimCut text span).1 ≤ (trimCut text next).1 ∧ (trimCut text span).2 ≤ (trimCut text next).2
  covered : ∀ q, VisibleAt text q → ∃ span ∈ spans, span.1 ≤ q ∧ q < span.2

theorem splitInto_cutsFrom (positive : 1 ≤ target) : SplitInto text target
    (cutsFrom text target overlap 0) (hardSplit text target overlap) := by
  have inside : ∀ span ∈ cutsFrom text target overlap 0,
      span.1 ≤ span.2 ∧ span.2 ≤ text.length ∧ span.2 ≤ span.1 + target := by
    intro span hspan
    obtain ⟨_, hstart, heq⟩ := cutsFrom_cut span hspan
    refine ⟨?_, ?_, cutsFrom_length span hspan⟩
    · rw [heq]
      exact le_cutEnd hstart.le
    · rw [heq]
      exact cutEnd_le_length ..
  have trimmed : ∀ span ∈ cutsFrom text target overlap 0, pieceOf text span ≠ [] →
      TrimmedCut text span :=
    fun span hspan hpiece => trimmedCut (inside span hspan).1 (inside span hspan).2.1 hpiece
  refine ⟨hardSplitFrom_eq text target overlap 0, inside, cutsFrom_rising, trimmed, ?_,
    fun q hvisible => cutsFrom_cover positive (Nat.zero_le q) hvisible⟩
  rw [List.pairwise_filter]
  refine cutsFrom_rising.imp_of_mem fun {span next} hspan hnext hrising hpiece hpiece' => ?_
  exact trimCut_mono (trimmed span hspan (of_decide_eq_true hpiece))
    (trimmed next hnext (of_decide_eq_true hpiece')) hrising.1 hrising.2

/-- Each pass begins its window later, so the loop ends, and its pieces leave nothing out. -/
theorem hardSplit_ends_covers (text : List Char) (target overlap : Nat) (positive : 1 ≤ target) :
    (∀ start parts next, (splitPass text target overlap start parts).2 = some next →
      start < next) ∧
    (∀ fuel, text.length < fuel →
      splitLoop text target overlap fuel 0 [] = some (hardSplit text target overlap)) ∧
    (∀ piece ∈ hardSplit text target overlap, piece.length ≤ target) ∧
    ∃ spans, SplitInto text target spans (hardSplit text target overlap) := by
  refine ⟨fun start parts next h => splitPass_next h, fun fuel enough => ?_, hardSplit_length,
    _, splitInto_cutsFrom positive⟩
  rw [splitLoop_complete (by omega), List.nil_append, hardSplit]

theorem hardSplit_ends_covers_greedy_overlap :
    hardSplit "ab\ncd ef".toList 3 5 =
      ["ab".toList, "b".toList, "cd".toList, "cd".toList, "d e".toList, "ef".toList] ∧
    ∃ spans, SplitInto "ab\ncd ef".toList 3 spans (hardSplit "ab\ncd ef".toList 3 5) :=
  ⟨by decide +kernel, (hardSplit_ends_covers "ab\ncd ef".toList 3 5 (by decide)).2.2.2⟩

end Aegis
