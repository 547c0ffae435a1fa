import Aegis.Chunking

namespace Aegis

/-- The length of paragraphs joined by an empty line. -/
def joinedLength (parts : List (List Char)) : Nat :=
  (parts.map List.length).sum + 2 * (parts.length - 1)

theorem joinedLength_cons (part : List Char) {rest : List (List Char)} (h : rest ≠ []) :
    joinedLength (part :: rest) = part.length + 2 + joinedLength rest := by
  have hpos : 0 < rest.length := List.length_pos_of_ne_nil h
  simp only [joinedLength, List.map_cons, List.sum_cons, List.length_cons]
  omega

theorem joinedLength_concat {parts : List (List Char)} (h : parts ≠ []) (part : List Char) :
    joinedLength (parts ++ [part]) = joinedLength parts + 2 + part.length := by
  have hpos : 0 < parts.length := List.length_pos_of_ne_nil h
  simp only [joinedLength, List.map_append, List.map_cons, List.map_nil, List.sum_append,
    List.sum_cons, List.sum_nil, List.length_append, List.length_cons, List.length_nil]
  omega

theorem length_joinParagraphs (parts : List (List Char)) :
    (joinParagraphs parts).length = joinedLength parts := by
  induction parts with
  | nil => rfl
  | cons part rest ih =>
    cases hrest : rest with
    | nil => simp [joinParagraphs, joinedLength]
    | cons next later =>
      have hne : next :: later ≠ [] := List.cons_ne_nil _ _
      rw [joinedLength_cons part hne, ← hrest, ← ih, hrest, joinParagraphs, joinParagraphs,
        List.intercalate_cons_cons]
      simp only [List.length_append, List.length_cons, List.length_nil]

theorem joinedLength_le_of_suffix {short long : List (List Char)} (h : short <:+ long) :
    joinedLength short ≤ joinedLength long := by
  obtain ⟨front, rfl⟩ := h
  simp only [joinedLength, List.map_append, List.sum_append, List.length_append]
  omega

section Overlap

variable {overlap : Nat}

/-- The last paragraphs that fit the overlap, and no more of them would. -/
structure LastFitting (overlap : Nat) (parts kept : List (List Char)) : Prop where
  suffix : kept <:+ parts
  fits : joinedLength kept ≤ overlap
  most : ∀ part, part :: kept <:+ parts → overlap < joinedLength (part :: kept)

theorem overlapParts_spec (reversed parts : List (List Char)) (h : joinedLength parts ≤ overlap) :
    LastFitting overlap (reversed.reverse ++ parts)
      (overlapParts overlap reversed (joinedLength parts) parts) := by
  induction reversed generalizing parts with
  | nil =>
    refine ⟨List.suffix_refl _, h, fun part hsuffix => ?_⟩
    have hlong := hsuffix.length_le
    simp only [List.reverse_nil, List.nil_append, List.length_cons, overlapParts] at hlong
    omega
  | cons prev rest ih =>
    have hnext : joinedLength parts + (if parts = [] then prev.length else prev.length + 2) =
        joinedLength (prev :: parts) := by
      by_cases hparts : parts = []
      · simp [hparts, joinedLength]
      · rw [if_neg hparts, joinedLength_cons prev hparts]
        omega
    rw [overlapParts, List.reverse_cons, List.append_assoc, List.singleton_append, hnext]
    by_cases hover : overlap < joinedLength (prev :: parts)
    · rw [if_pos hover]
      refine ⟨⟨rest.reverse ++ [prev], by simp⟩, h, fun part hsuffix => ?_⟩
      have hsame : part :: parts = prev :: parts := by
        have htwo : prev :: parts <:+ rest.reverse ++ prev :: parts := List.suffix_append _ _
        exact (List.suffix_of_suffix_length_le hsuffix htwo (by simp)).eq_of_length (by simp)
      rw [hsame]
      exact hover
    · rw [if_neg hover]
      exact ih (prev :: parts) (Nat.le_of_not_lt hover)

end Overlap

/-- The buffer that `emit` keeps. -/
def keptParts (overlap : Nat) (buf : List (List Char)) : List (List Char) :=
  overlapParts overlap buf.reverse 0 []

theorem keptParts_spec (overlap : Nat) (buf : List (List Char)) :
    LastFitting overlap buf (keptParts overlap buf) := by
  have h := @overlapParts_spec overlap buf.reverse [] (Nat.zero_le _)
  rwa [List.reverse_reverse, List.append_nil] at h

/-- `bufLen` is the length of the buffer as a window, and no paragraph in it is empty. -/
structure Windowing.Counted (s : Windowing) : Prop where
  bufLen : s.bufLen = joinedLength s.buf
  nonempty : ∀ part ∈ s.buf, part ≠ []

section Steps

variable {sizes : WindowSizes} {s : Windowing} {para : List Char}

theorem emit_eq (overlap : Nat) (h : s.buf ≠ []) :
    s.emit overlap = ⟨s.windows ++ [joinParagraphs s.buf], keptParts overlap s.buf,
      joinedLength (keptParts overlap s.buf)⟩ := by
  rw [Windowing.emit, if_neg h]
  rfl

theorem emit_eq_self (overlap : Nat) (h : s.buf = []) : s.emit overlap = s := by
  rw [Windowing.emit, if_pos h]

theorem emit_counted (overlap : Nat) (h : s.Counted) : (s.emit overlap).Counted := by
  by_cases hbuf : s.buf = []
  · rwa [emit_eq_self overlap hbuf]
  · rw [emit_eq overlap hbuf]
    exact ⟨rfl, fun part hpart => h.nonempty part ((keptParts_spec _ _).suffix.mem hpart)⟩

/-- The window the loop is filling when it gets to a paragraph that fits one: what it had, or what
`emit` kept of it when the paragraph is too much for it. -/
def Windowing.before (sizes : WindowSizes) (s : Windowing) (para : List Char) : Windowing :=
  if s.buf ≠ [] ∧ sizes.target < joinedLength (s.buf ++ [para]) then s.emit sizes.overlap else s

theorem before_counted (para : List Char) (h : s.Counted) : (s.before sizes para).Counted := by
  unfold Windowing.before
  split
  · exact emit_counted _ h
  · exact h

theorem joinedLength_eq_zero {parts : List (List Char)} (h : ∀ part ∈ parts, part ≠ []) :
    joinedLength parts = 0 ↔ parts = [] := by
  constructor
  · intro hzero
    cases parts with
    | nil => rfl
    | cons part rest =>
      have hpart : 0 < part.length :=
        List.length_pos_of_ne_nil (h part List.mem_cons_self)
      simp only [joinedLength, List.map_cons, List.sum_cons] at hzero
      omega
  · rintro rfl
    rfl

theorem joinedLength_push (parts : List (List Char)) (part : List Char) :
    joinedLength (parts ++ [part]) =
      joinedLength parts + (part.length + if parts = [] then 0 else 2) := by
  by_cases h : parts = []
  · simp [h, joinedLength]
  · rw [if_neg h, joinedLength_concat h]
    omega

/-- A paragraph that fits a window is put behind the window being filled. -/
theorem add_short (counted : s.Counted) (h : para.length ≤ sizes.maxChars) :
    s.add sizes para = ⟨(s.before sizes para).windows, (s.before sizes para).buf ++ [para],
      joinedLength ((s.before sizes para).buf ++ [para])⟩ := by
  have hadded : s.bufLen + (para.length + if s.buf = [] then 0 else 2) =
      joinedLength (s.buf ++ [para]) := by
    rw [joinedLength_push, counted.bufLen]
  have hsame : (if s.buf ≠ [] ∧ sizes.target <
      s.bufLen + (para.length + if s.buf = [] then 0 else 2) then s.emit sizes.overlap else s) =
        s.before sizes para := by
    rw [hadded, Windowing.before]
  rw [Windowing.add, if_neg (Nat.not_lt.mpr h)]
  dsimp only
  rw [hsame]
  have hbefore := @before_counted sizes _ para counted
  congr 1
  have hzero : ((s.before sizes para).bufLen = 0) = ((s.before sizes para).buf = []) := by
    rw [hbefore.bufLen, propext (joinedLength_eq_zero hbefore.nonempty)]
  rw [joinedLength_push, hbefore.bufLen]
  simp only [← hbefore.bufLen, hzero]

/-- A paragraph that fits no window is cut up behind the window being filled. -/
theorem add_long (h : sizes.maxChars < para.length) :
    s.add sizes para = { s.emit sizes.overlap with
      windows := (s.emit sizes.overlap).windows ++ hardSplit para sizes.target sizes.overlap } := by
  rw [Windowing.add, if_pos h]

theorem add_counted (counted : s.Counted) (hpara : para ≠ []) : (s.add sizes para).Counted := by
  by_cases h : para.length ≤ sizes.maxChars
  · rw [add_short counted h]
    refine ⟨rfl, fun part hpart => ?_⟩
    rcases List.mem_append.mp hpart with hpart | hpart
    · exact (before_counted para counted).nonempty part hpart
    · rw [List.mem_singleton.mp hpart]
      exact hpara
  · rw [add_long (Nat.lt_of_not_le h)]
    exact ⟨(emit_counted _ counted).bufLen, (emit_counted _ counted).nonempty⟩

end Steps

section Pieces

theorem rfind_lt {c : Char} {text : List Char} {brk : Nat} (h : rfind c text = some brk) :
    brk < text.length := by
  induction text generalizing brk with
  | nil => cases h
  | cons x rest ih =>
    rw [rfind] at h
    rw [List.length_cons]
    split at h
    next i hlater =>
      have := ih hlater
      have := Option.some.inj h
      omega
    next =>
      split at h
      · have := Option.some.inj h
        omega
      · cases h

theorem cutEnd_le (text : List Char) (target start : Nat) :
    cutEnd text target start ≤ start + target := by
  unfold cutEnd
  dsimp only
  split
  · split
    next brk hbrk =>
      have hlen := rfind_lt hbrk
      rw [slice, List.length_take] at hlen
      split <;> omega
    · exact Nat.min_le_left _ _
  · exact Nat.min_le_left _ _

/-- Where the loop of `_hard_split` begins and ends its pieces, before they are stripped. -/
def cutsFrom (text : List Char) (target overlap start : Nat) : List (Nat × Nat) :=
  if start < text.length then
    (start, cutEnd text target start) ::
      if text.length ≤ cutEnd text target start then []
      else cutsFrom text target overlap (max (cutEnd text target start - overlap) (start + 1))
  else []
termination_by text.length - start

/-- The piece of a cut. -/
def pieceOf (text : List Char) (cut : Nat × Nat) : List Char :=
  stripChars (slice text cut.1 cut.2)

theorem hardSplitFrom_eq (text : List Char) (target overlap start : Nat) :
    hardSplitFrom text target overlap start =
      ((cutsFrom text target overlap start).map (pieceOf text)).filter fun piece => piece ≠ [] := by
  induction start using cutsFrom.induct text target overlap with
  | case1 start hstart ih =>
    rw [hardSplitFrom, cutsFrom, if_pos hstart, if_pos hstart, List.map_cons]
    change (if pieceOf text (start, cutEnd text target start) = [] then _ else
      pieceOf text (start, cutEnd text target start) :: _) = _
    by_cases hlast : text.length ≤ cutEnd text target start
    · by_cases hpiece : pieceOf text (start, cutEnd text target start) = []
      · simp [hlast, hpiece]
      · simp [hlast, hpiece]
    · by_cases hpiece : pieceOf text (start, cutEnd text target start) = []
      · simp [hlast, hpiece, ih]
      · simp [hlast, hpiece, ih]
  | case2 start hend =>
    rw [hardSplitFrom, cutsFrom, if_neg hend, if_neg hend]
    rfl

theorem length_stripChars_le (text : List Char) : (stripChars text).length ≤ text.length :=
  ((List.rdropWhile_prefix isSpace _).length_le).trans (List.dropWhile_suffix isSpace).length_le

theorem cutsFrom_length {text : List Char} {target overlap start : Nat} :
    ∀ cut ∈ cutsFrom text target overlap start, cut.2 ≤ cut.1 + target := by
  induction start using cutsFrom.induct text target overlap with
  | case1 start hstart ih =>
    rw [cutsFrom, if_pos hstart]
    refine List.forall_mem_cons.mpr ⟨cutEnd_le text target start, fun cut hcut => ?_⟩
    split at hcut
    · cases hcut
    · exact ih cut hcut
  | case2 start hend =>
    rw [cutsFrom, if_neg hend]
    simp

theorem hardSplit_length {text : List Char} {target overlap : Nat} :
    ∀ piece ∈ hardSplit text target overlap, piece.length ≤ target := by
  intro piece hpiece
  rw [hardSplit, hardSplitFrom_eq] at hpiece
  obtain ⟨cut, hcut, rfl⟩ := List.mem_map.mp (List.mem_filter.mp hpiece).1
  have hwidth := cutsFrom_length cut hcut
  have hstrip := length_stripChars_le (slice text cut.1 cut.2)
  have hslice : (slice text cut.1 cut.2).length ≤ cut.2 - cut.1 := List.length_take_le ..
  rw [pieceOf]
  omega

end Pieces

section Loop

variable {sizes : WindowSizes} {s : Windowing} {done : List (List Char)} {para : List Char}

/-- The buffer is the end of the paragraphs so far that fit a window, and what `emit` left out of
it does not fit the overlap. -/
structure Windowing.Filling (overlap : Nat) (done : List (List Char)) (s : Windowing) : Prop
    extends s.Counted where
  suffix : s.buf <:+ done
  most : ∀ part, part :: s.buf <:+ done → overlap < joinedLength (part :: s.buf)

theorem LastFitting.of_buf {overlap : Nat} {kept buf : List (List Char)}
    (last : LastFitting overlap buf kept) (suffix : buf <:+ done)
    (most : ∀ part, part :: buf <:+ done → overlap < joinedLength (part :: buf)) :
    LastFitting overlap done kept := by
  refine ⟨last.suffix.trans suffix, last.fits, fun part hpart => ?_⟩
  obtain ⟨front, hfront⟩ := last.suffix
  rcases List.eq_nil_or_concat front with rfl | ⟨front, prev, rfl⟩
  · rw [List.nil_append] at hfront
    subst hfront
    exact most part hpart
  · have hprev : prev :: kept <:+ buf := ⟨front, by rw [← hfront]; simp⟩
    have hsame : part :: kept = prev :: kept :=
      (List.suffix_of_suffix_length_le hpart (hprev.trans suffix) (by simp)).eq_of_length (by simp)
    rw [hsame]
    exact last.most prev hprev

theorem emit_last (h : s.Filling sizes.overlap done) (hbuf : s.buf ≠ []) :
    LastFitting sizes.overlap done (s.emit sizes.overlap).buf := by
  rw [emit_eq _ hbuf]
  exact (keptParts_spec sizes.overlap s.buf).of_buf h.suffix h.most

theorem emit_filling (h : s.Filling sizes.overlap done) :
    (s.emit sizes.overlap).Filling sizes.overlap done := by
  by_cases hbuf : s.buf = []
  · rwa [emit_eq_self _ hbuf]
  · have last := emit_last h hbuf
    exact ⟨emit_counted _ h.toCounted, last.suffix, last.most⟩

theorem before_filling (para : List Char) (h : s.Filling sizes.overlap done) :
    (s.before sizes para).Filling sizes.overlap done := by
  unfold Windowing.before
  split
  · exact emit_filling h
  · exact h

theorem add_short_filling (h : s.Filling sizes.overlap done) (hpara : para ≠ [])
    (short : para.length ≤ sizes.maxChars) :
    (s.add sizes para).Filling sizes.overlap (done ++ [para]) := by
  have hbefore := before_filling para h
  refine ⟨add_counted h.toCounted hpara, ?_, ?_⟩
  · rw [add_short h.toCounted short]
    obtain ⟨front, hfront⟩ := hbefore.suffix
    exact ⟨front, by rw [← List.append_assoc, hfront]⟩
  · rw [add_short h.toCounted short]
    rintro part ⟨front, hfront⟩
    have hpart : part :: (s.before sizes para).buf <:+ done := by
      refine ⟨front, ?_⟩
      rw [← List.cons_append, ← List.append_assoc] at hfront
      exact (List.append_inj' hfront rfl).1
    refine (hbefore.most part hpart).trans_le ?_
    rw [← List.cons_append, joinedLength_push]
    omega

theorem add_long_filling (h : s.Filling sizes.overlap done)
    (long : sizes.maxChars < para.length) : (s.add sizes para).Filling sizes.overlap done := by
  have hemit := emit_filling h
  rw [add_long long]
  exact ⟨⟨hemit.bufLen, hemit.nonempty⟩, hemit.suffix, hemit.most⟩

/-- The paragraphs that fit a window. -/
def shortParagraphs (sizes : WindowSizes) (parts : List (List Char)) : List (List Char) :=
  parts.filter fun part => part.length ≤ sizes.maxChars

/-- Paragraphs that fit the overlap are followed by one that fits a window, but not with them. -/
def Overfull (sizes : WindowSizes) (parts : List (List Char)) : Prop :=
  ∃ run para, run ≠ [] ∧ run ++ [para] <:+: shortParagraphs sizes parts ∧
    joinedLength run ≤ sizes.overlap ∧ sizes.maxChars < joinedLength (run ++ [para])

/-- No window so far, and not the one being filled, is too long. -/
structure Windowing.Within (maxChars : Nat) (s : Windowing) : Prop where
  windows : ∀ window ∈ s.windows, window.length ≤ maxChars
  buf : joinedLength s.buf ≤ maxChars

theorem emit_within (h : s.Filling sizes.overlap done) (within : s.Within sizes.maxChars)
    (fits : sizes.overlap ≤ sizes.maxChars) : (s.emit sizes.overlap).Within sizes.maxChars := by
  by_cases hbuf : s.buf = []
  · rwa [emit_eq_self _ hbuf]
  · have hkept := (emit_last h hbuf).fits
    rw [emit_eq _ hbuf] at hkept ⊢
    refine ⟨fun window hwindow => ?_, hkept.trans fits⟩
    rcases List.mem_append.mp hwindow with hwindow | hwindow
    · exact within.windows window hwindow
    · rw [List.mem_singleton.mp hwindow, length_joinParagraphs]
      exact within.buf

theorem add_short_within (h : s.Filling sizes.overlap done) (within : s.Within sizes.maxChars)
    (fits : sizes.overlap ≤ sizes.target) (order : sizes.target ≤ sizes.maxChars)
    (short : para.length ≤ sizes.maxChars)
    (room : ∀ run, run ≠ [] → run <:+ done → joinedLength run ≤ sizes.overlap →
      joinedLength (run ++ [para]) ≤ sizes.maxChars) :
    (s.add sizes para).Within sizes.maxChars := by
  have hpush : joinedLength ((s.before sizes para).buf ++ [para]) ≤ sizes.maxChars := by
    by_cases hempty : (s.before sizes para).buf = []
    · rw [hempty, joinedLength_push]
      simpa [joinedLength] using short
    · by_cases hover : s.buf ≠ [] ∧ sizes.target < joinedLength (s.buf ++ [para])
      · rw [Windowing.before, if_pos hover] at hempty ⊢
        have last := emit_last h hover.1
        exact room _ hempty last.suffix last.fits
      · rw [Windowing.before, if_neg hover] at hempty ⊢
        exact (Nat.le_of_not_lt fun hlt => hover ⟨hempty, hlt⟩).trans order
  rw [add_short h.toCounted short]
  refine ⟨?_, hpush⟩
  unfold Windowing.before
  split
  · exact (emit_within h within (fits.trans order)).windows
  · exact within.windows

theorem add_long_within (h : s.Filling sizes.overlap done) (within : s.Within sizes.maxChars)
    (fits : sizes.overlap ≤ sizes.target) (order : sizes.target ≤ sizes.maxChars)
    (long : sizes.maxChars < para.length) : (s.add sizes para).Within sizes.maxChars := by
  have hemit := emit_within h within (fits.trans order)
  rw [add_long long]
  refine ⟨fun window hwindow => ?_, hemit.buf⟩
  rcases List.mem_append.mp hwindow with hwindow | hwindow
  · exact hemit.windows window hwindow
  · exact (hardSplit_length window hwindow).trans order

/-- Without such paragraphs a run of the loop keeps every window short enough. -/
theorem fold_within (fits : sizes.overlap ≤ sizes.target) (order : sizes.target ≤ sizes.maxChars)
    {parts : List (List Char)} (nonempty : ∀ part ∈ parts, part ≠ [])
    (h : s.Filling sizes.overlap done) (within : s.Within sizes.maxChars)
    (room : ∀ run para, run ≠ [] → run ++ [para] <:+: done ++ shortParagraphs sizes parts →
      joinedLength run ≤ sizes.overlap → joinedLength (run ++ [para]) ≤ sizes.maxChars) :
    ∃ done', (parts.foldl (Windowing.add sizes) s).Filling sizes.overlap done' ∧
      (parts.foldl (Windowing.add sizes) s).Within sizes.maxChars := by
  induction parts generalizing s done with
  | nil => exact ⟨done, h, within⟩
  | cons para rest ih =>
    obtain ⟨hpara, hrest⟩ := List.forall_mem_cons.mp nonempty
    by_cases hshort : para.length ≤ sizes.maxChars
    · have hparts : done ++ shortParagraphs sizes (para :: rest) =
          (done ++ [para]) ++ shortParagraphs sizes rest := by
        rw [shortParagraphs, List.filter_cons_of_pos (by simpa using hshort), List.append_assoc]
        rfl
      rw [hparts] at room
      refine ih hrest (add_short_filling h hpara hshort)
        (add_short_within h within fits order hshort fun run hrun hsuffix hfits => ?_) room
      refine room run para hrun ?_ hfits
      obtain ⟨front, rfl⟩ := hsuffix
      exact ⟨front, shortParagraphs sizes rest, by simp⟩
    · have hparts : shortParagraphs sizes (para :: rest) = shortParagraphs sizes rest := by
        rw [shortParagraphs, List.filter_cons_of_neg (by simpa using hshort)]
        rfl
      rw [hparts] at room
      exact ih hrest (add_long_filling h (Nat.lt_of_not_le hshort))
        (add_long_within h within fits order (Nat.lt_of_not_le hshort)) room

/-- Some window so far, or the one being filled, is too long. -/
def Windowing.Over (maxChars : Nat) (s : Windowing) : Prop :=
  (∃ window ∈ s.windows, maxChars < window.length) ∨ maxChars < joinedLength s.buf

theorem emit_over (h : s.Over sizes.maxChars) :
    ∃ window ∈ (s.emit sizes.overlap).windows, sizes.maxChars < window.length := by
  by_cases hbuf : s.buf = []
  · rw [emit_eq_self _ hbuf]
    rcases h with hwindow | hlong
    · exact hwindow
    · rw [hbuf] at hlong
      cases hlong
  · rw [emit_eq _ hbuf]
    rcases h with ⟨window, hwindow, hlong⟩ | hlong
    · exact ⟨window, List.mem_append_left _ hwindow, hlong⟩
    · refine ⟨joinParagraphs s.buf, List.mem_append_right _ (List.mem_singleton_self _), ?_⟩
      rwa [length_joinParagraphs]

theorem add_over (counted : s.Counted) (order : sizes.target ≤ sizes.maxChars)
    (h : s.Over sizes.maxChars) (para : List Char) : (s.add sizes para).Over sizes.maxChars := by
  by_cases hshort : para.length ≤ sizes.maxChars
  · rw [add_short counted hshort]
    rcases h with ⟨window, hwindow, hlong⟩ | hlong
    · refine .inl ⟨window, ?_, hlong⟩
      unfold Windowing.before
      split
      next hover =>
        rw [emit_eq _ hover.1]
        exact List.mem_append_left _ hwindow
      · exact hwindow
    · have hbuf : s.buf ≠ [] := by
        intro hbuf
        rw [hbuf] at hlong
        cases hlong
      have hover : s.buf ≠ [] ∧ sizes.target < joinedLength (s.buf ++ [para]) := by
        refine ⟨hbuf, ?_⟩
        rw [joinedLength_push]
        omega
      rw [Windowing.before, if_pos hover]
      exact .inl (emit_over (.inr hlong))
  · rw [add_long (Nat.lt_of_not_le hshort)]
    obtain ⟨window, hwindow, hlong⟩ := @emit_over sizes _ h
    exact .inl ⟨window, List.mem_append_left _ hwindow, hlong⟩

theorem fold_over (order : sizes.target ≤ sizes.maxChars) {parts : List (List Char)}
    (nonempty : ∀ part ∈ parts, part ≠ []) (counted : s.Counted) (h : s.Over sizes.maxChars) :
    (parts.foldl (Windowing.add sizes) s).Over sizes.maxChars := by
  induction parts generalizing s with
  | nil => exact h
  | cons para rest ih =>
    obtain ⟨hpara, hrest⟩ := List.forall_mem_cons.mp nonempty
    exact ih hrest (add_counted counted hpara) (add_over counted order h para)

/-- The paragraph that is too much for the ones before it that fit the overlap makes the window
being filled too long. -/
theorem add_overfull (h : s.Filling sizes.overlap done) (order : sizes.target ≤ sizes.maxChars)
    (short : para.length ≤ sizes.maxChars) {run : List (List Char)} (hrun : run ≠ [])
    (suffix : run <:+ done) (fits : joinedLength run ≤ sizes.overlap)
    (long : sizes.maxChars < joinedLength (run ++ [para])) :
    (s.add sizes para).Over sizes.maxChars := by
  -- whatever leaves out a part of the run is shorter than it and still too long for the overlap
  have covers : ∀ kept : List (List Char), kept <:+ done →
      (∀ part, part :: kept <:+ done → sizes.overlap < joinedLength (part :: kept)) →
      run <:+ kept := by
    intro kept hkept hmost
    by_contra hnot
    have hshorter : kept.length < run.length := by
      by_contra hle
      exact hnot (List.suffix_of_suffix_length_le suffix hkept (Nat.le_of_not_lt hle))
    obtain ⟨front, rfl⟩ := List.suffix_of_suffix_length_le hkept suffix hshorter.le
    rcases List.eq_nil_or_concat front with rfl | ⟨front, part, rfl⟩
    · simp at hshorter
    · have hpart : part :: kept <:+ front.concat part ++ kept := ⟨front, by simp⟩
      have := hmost part (hpart.trans suffix)
      have := joinedLength_le_of_suffix hpart
      omega
  have hbuf := covers s.buf h.suffix h.most
  have hne : s.buf ≠ [] := by
    intro hnil
    rw [hnil] at hbuf
    exact hrun (List.eq_nil_of_suffix_nil hbuf)
  have hgrow : ∀ kept : List (List Char), run <:+ kept →
      sizes.maxChars < joinedLength (kept ++ [para]) := by
    rintro kept ⟨front, rfl⟩
    refine long.trans_le (joinedLength_le_of_suffix ⟨front, ?_⟩)
    rw [List.append_assoc]
  have hover : s.buf ≠ [] ∧ sizes.target < joinedLength (s.buf ++ [para]) :=
    ⟨hne, order.trans_lt (hgrow _ hbuf)⟩
  have last := emit_last h hne
  rw [add_short h.toCounted short, Windowing.before, if_pos hover]
  exact .inr (hgrow _ (covers _ last.suffix last.most))

/-- With such paragraphs a run of the loop makes some window too long. -/
theorem fold_overfull (order : sizes.target ≤ sizes.maxChars) {parts : List (List Char)}
    (nonempty : ∀ part ∈ parts, part ≠ []) (h : s.Filling sizes.overlap done)
    {run : List (List Char)} (hrun : run ≠ [])
    (here : ∃ front back, front ++ run ++ [para] ++ back = done ++ shortParagraphs sizes parts ∧
      done.length ≤ (front ++ run).length)
    (fits : joinedLength run ≤ sizes.overlap)
    (long : sizes.maxChars < joinedLength (run ++ [para])) :
    (parts.foldl (Windowing.add sizes) s).Over sizes.maxChars := by
  induction parts generalizing s done with
  | nil =>
    obtain ⟨front, back, hsplit, hlen⟩ := here
    have := congrArg List.length hsplit
    simp only [shortParagraphs, List.filter_nil, List.append_nil, List.length_append,
      List.length_cons, List.length_nil] at this hlen
    omega
  | cons next rest ih =>
    obtain ⟨hnext, hrest⟩ := List.forall_mem_cons.mp nonempty
    obtain ⟨front, back, hsplit, hlen⟩ := here
    by_cases hshort : next.length ≤ sizes.maxChars
    · have hparts : done ++ shortParagraphs sizes (next :: rest) =
          done ++ [next] ++ shortParagraphs sizes rest := by
        rw [shortParagraphs, List.filter_cons_of_pos (by simpa using hshort), List.append_assoc]
        rfl
      rw [hparts] at hsplit
      by_cases hhere : done.length = (front ++ run).length
      · -- the paragraph comes now
        obtain ⟨hdone, hlast⟩ := List.append_inj
          (by simpa only [List.append_assoc] using hsplit :
            (front ++ run) ++ ([para] ++ back) = done ++ ([next] ++ shortParagraphs sizes rest))
          hhere.symm
        have hpara := (List.cons.inj hlast).1
        subst hdone hpara
        rw [List.foldl_cons]
        exact fold_over order hrest (add_counted h.toCounted hnext)
          (add_overfull h order hshort hrun (List.suffix_append _ _) fits long)
      · refine ih hrest (add_short_filling h hnext hshort) ⟨front, back, hsplit, ?_⟩
        rw [List.length_append, List.length_singleton]
        omega
    · have hparts : shortParagraphs sizes (next :: rest) = shortParagraphs sizes rest := by
        rw [shortParagraphs, List.filter_cons_of_neg (by simpa using hshort)]
        rfl
      rw [hparts] at hsplit
      exact ih hrest (add_long_filling h (Nat.lt_of_not_le hshort)) ⟨front, back, hsplit, hlen⟩

theorem emit_nonempty (overlap : Nat) (counted : s.Counted)
    (h : ∀ window ∈ s.windows, window ≠ []) : ∀ window ∈ (s.emit overlap).windows, window ≠ [] := by
  by_cases hbuf : s.buf = []
  · rwa [emit_eq_self overlap hbuf]
  · rw [emit_eq overlap hbuf]
    intro window hwindow
    rcases List.mem_append.mp hwindow with hwindow | hwindow
    · exact h window hwindow
    · rw [List.mem_singleton.mp hwindow, ← List.length_pos_iff, length_joinParagraphs,
        Nat.pos_iff_ne_zero]
      exact fun hzero => hbuf ((joinedLength_eq_zero counted.nonempty).mp hzero)

theorem add_nonempty (counted : s.Counted) (h : ∀ window ∈ s.windows, window ≠ []) :
    ∀ window ∈ (s.add sizes para).windows, window ≠ [] := by
  by_cases hshort : para.length ≤ sizes.maxChars
  · rw [add_short counted hshort, Windowing.before]
    split
    · exact emit_nonempty _ counted h
    · exact h
  · rw [add_long (Nat.lt_of_not_le hshort)]
    intro window hwindow
    rcases List.mem_append.mp hwindow with hwindow | hwindow
    · exact emit_nonempty _ counted h window hwindow
    · rw [hardSplit, hardSplitFrom_eq] at hwindow
      exact of_decide_eq_true (List.mem_filter.mp hwindow).2

theorem fold_nonempty {parts : List (List Char)} (nonempty : ∀ part ∈ parts, part ≠ [])
    (counted : s.Counted) (h : ∀ window ∈ s.windows, window ≠ []) :
    (parts.foldl (Windowing.add sizes) s).Counted ∧
      ∀ window ∈ (parts.foldl (Windowing.add sizes) s).windows, window ≠ [] := by
  induction parts generalizing s with
  | nil => exact ⟨counted, h⟩
  | cons para rest ih =>
    obtain ⟨hpara, hrest⟩ := List.forall_mem_cons.mp nonempty
    exact ih hrest (add_counted counted hpara) (add_nonempty counted h)

end Loop

end Aegis
