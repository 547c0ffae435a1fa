import Aegis.Cuts
import Aegis.VisibleText
import Aegis.WindowBounds
import Mathlib.Data.List.GetD
import Mathlib.Data.Prod.Lex

namespace Aegis

/-- Where the text of a window stands: the whole text, some of its paragraphs, or the characters
of one paragraph between two offsets. -/
inductive Source where
  | whole
  | blocks (indices : List Nat)
  | piece (index start stop : Nat)

def Source.text (text : List Char) : Source → List Char
  | .whole => text
  | .blocks indices => joinParagraphs (indices.map fun i => (paragraphs text).getD i [])
  | .piece index start stop => slice ((paragraphs text).getD index []) start stop

/-- The source holds the character at the offset in the paragraph. -/
def Source.Covers (parts : List (List Char)) : Source → Nat → Nat → Prop
  | .whole, i, q => i < parts.length ∧ q < (parts.getD i []).length
  | .blocks indices, i, q => i ∈ indices ∧ q < (parts.getD i []).length
  | .piece index start stop, i, q => i = index ∧ start ≤ q ∧ q < stop

/-- The whole text, consecutive paragraphs, or a part of one. -/
def Source.Consecutive : Source → Prop
  | .whole => True
  | .blocks indices => ∃ first count, indices = List.range' first (count + 1)
  | .piece _ start stop => start < stop

/-- The paragraph and the offset at which a source begins. -/
def Source.begin_ : Source → Nat ×ₗ Nat
  | .whole => toLex (0, 0)
  | .blocks indices => toLex (indices.headD 0, 0)
  | .piece index start _ => toLex (index, start)

/-- The windows of a text, by where they stand: each is consecutive text, they come in the order
of the text, and each holds text that none before it holds. -/
structure Excerpts (parts : List (List Char)) (sources : List Source) : Prop where
  consecutive : ∀ source ∈ sources, source.Consecutive
  ordered : sources.Pairwise fun a b => a.begin_ ≤ b.begin_
  fresh : ∀ front source back, sources = front ++ source :: back →
    ∃ i q, source.Covers parts i q ∧ ∀ earlier ∈ front, ¬earlier.Covers parts i q

/-- The loop of `_split_by_size`, with where its windows and its buffer stand. -/
structure Tracked extends Windowing where
  sources : List Source
  indices : List Nat

def Tracked.emit (overlap : Nat) (t : Tracked) : Tracked :=
  if t.buf = [] then t
  else
    { t.toWindowing.emit overlap with
      sources := t.sources ++ [.blocks t.indices]
      indices := t.indices.drop (t.indices.length - (keptParts overlap t.buf).length) }

/-- Where the pieces of a paragraph that is cut up stand. -/
def pieceSources (index : Nat) (para : List Char) (cuts : List (Nat × Nat)) : List Source :=
  (cuts.filter fun cut => pieceOf para cut ≠ []).map fun cut =>
    .piece index (trimCut para cut).1 (trimCut para cut).2

def Tracked.before (sizes : WindowSizes) (t : Tracked) (para : List Char) : Tracked :=
  if t.buf ≠ [] ∧ sizes.target < joinedLength (t.buf ++ [para]) then t.emit sizes.overlap else t

def Tracked.add (sizes : WindowSizes) (t : Tracked) (index : Nat) (para : List Char) : Tracked :=
  if sizes.maxChars < para.length then
    { t.toWindowing.add sizes para with
      sources := (t.emit sizes.overlap).sources ++
        pieceSources index para (cutsFrom para sizes.target sizes.overlap 0)
      indices := (t.emit sizes.overlap).indices }
  else
    { t.toWindowing.add sizes para with
      sources := (t.before sizes para).sources
      indices := (t.before sizes para).indices ++ [index] }

/-- The loop from a paragraph on, given its index. -/
def Tracked.addAll (sizes : WindowSizes) : Tracked → Nat → List (List Char) → Tracked
  | t, _, [] => t
  | t, index, para :: rest => Tracked.addAll sizes (t.add sizes index para) (index + 1) rest

/-- Where the windows of `_split_by_size` stand. -/
def sourcesOf (sizes : WindowSizes) (text : List Char) : List Source :=
  let text := stripChars text
  if text = [] then []
  else if text.length ≤ sizes.maxChars then [.whole]
  else ((Tracked.addAll sizes ⟨⟨[], [], 0⟩, [], []⟩ 0 (paragraphs text)).emit sizes.overlap).sources

/-- The paragraph that is cut up leaves nothing of the window before it in the buffer. -/
def TailsSettle (sizes : WindowSizes) (done parts : List (List Char)) : Prop :=
  ∀ front para back, parts = front ++ para :: back → sizes.maxChars < para.length →
    ∀ last, (done ++ shortParagraphs sizes front).getLast? = some last →
      sizes.overlap < last.length

/-- A cut that is not white space holds something visible that the cut before it does not. -/
def CutProgress (para : List Char) (cut next : Nat × Nat) : Prop :=
  pieceOf para next ≠ [] → ∃ q, max cut.2 next.1 ≤ q ∧ q < next.2 ∧ VisibleAt para q

/-- Every paragraph that is cut up is cut with progress. -/
def CutsProgress (sizes : WindowSizes) (parts : List (List Char)) : Prop :=
  ∀ para ∈ parts, sizes.maxChars < para.length →
    (cutsFrom para sizes.target sizes.overlap 0).IsChain (CutProgress para)

section Excerpts

variable {parts : List (List Char)} {sources : List Source} {source : Source}

theorem excerpts_concat :
    Excerpts parts (sources ++ [source]) ↔ Excerpts parts sources ∧ source.Consecutive ∧
      (∀ earlier ∈ sources, earlier.begin_ ≤ source.begin_) ∧
      ∃ i q, source.Covers parts i q ∧ ∀ earlier ∈ sources, ¬earlier.Covers parts i q := by
  constructor
  · intro h
    obtain ⟨hordered, _, hlast⟩ := List.pairwise_append.mp h.ordered
    refine ⟨⟨fun s hs => h.consecutive s (List.mem_append_left _ hs), hordered,
      fun front s back hsplit => ?_⟩,
      h.consecutive source (List.mem_append_right _ (List.mem_singleton_self _)),
      fun earlier he => hlast earlier he source (List.mem_singleton_self _),
      h.fresh sources source [] rfl⟩
    exact h.fresh front s (back ++ [source]) (by rw [hsplit]; simp)
  · rintro ⟨h, hconsecutive, hordered, hfresh⟩
    refine ⟨?_, ?_, fun front s back hsplit => ?_⟩
    · intro s hs
      rcases List.mem_append.mp hs with hs | hs
      · exact h.consecutive s hs
      · rwa [List.mem_singleton.mp hs]
    · refine List.pairwise_append.mpr ⟨h.ordered, List.pairwise_singleton _ _, ?_⟩
      intro earlier he s hs
      rw [List.mem_singleton.mp hs]
      exact hordered earlier he
    · rcases List.eq_nil_or_concat back with rfl | ⟨back, last, rfl⟩
      · obtain ⟨rfl, hlast⟩ := List.append_inj' hsplit rfl
        obtain rfl := List.singleton_inj.mp hlast
        exact hfresh
      · rw [List.concat_eq_append, ← List.cons_append, ← List.append_assoc] at hsplit
        exact h.fresh front s back (List.append_inj' hsplit rfl).1

theorem Excerpts.of_prefix {later : List Source} (h : Excerpts parts (sources ++ later)) :
    Excerpts parts sources := by
  induction later using List.reverseRecOn with
  | nil => rwa [List.append_nil] at h
  | append_singleton later last ih =>
    rw [← List.append_assoc] at h
    exact ih (excerpts_concat.mp h).1

end Excerpts

section Pieces

variable {parts : List (List Char)} {sources : List Source} {index : Nat} {para : List Char}

/-- The sources before the cut `next` of a paragraph, the last cut being `cut`: they begin before
whatever is visible from it on, and hold of the paragraph what is visible in the last cut and
nothing behind it. -/
structure CutUpTo (parts : List (List Char)) (index : Nat) (para : List Char)
    (sources : List Source) (cut : Nat × Nat) : Prop where
  begun : ∀ source ∈ sources, ∀ q, cut.1 ≤ q → VisibleAt para q →
    source.begin_ ≤ toLex (index, q)
  ended : ∀ source ∈ sources, ∀ q, source.Covers parts index q → q < cut.2
  holds : ∀ a b, cut.1 ≤ a → b < cut.2 → VisibleAt para a → VisibleAt para b →
    ∀ q, a ≤ q → q ≤ b → ∃ source ∈ sources, source.Covers parts index q

/-- A cut keeps the sources in order; its piece is fresh exactly when the cut makes progress. -/
theorem cutUpTo_step {cut next : Nat × Nat} (upTo : CutUpTo parts index para sources cut)
    (order : CutOrder para cut next) (good : Excerpts parts sources) :
    (CutProgress para cut next →
      Excerpts parts (sources ++ pieceSources index para [next]) ∧
      CutUpTo parts index para (sources ++ pieceSources index para [next]) next) ∧
    (¬CutProgress para cut next → ¬Excerpts parts (sources ++ pieceSources index para [next])) := by
  by_cases hpiece : pieceOf para next = []
  · have hnone : pieceSources index para [next] = [] := by simp [pieceSources, hpiece]
    rw [hnone, List.append_nil]
    refine ⟨fun _ => ⟨good, ?_, ?_, ?_⟩, fun hstuck => absurd (absurd hpiece) hstuck⟩
    · exact fun s hs q hq => upTo.begun s hs q (order.start.trans hq)
    · exact fun s hs q hq => (upTo.ended s hs q hq).trans_le order.stop
    · intro a b ha hb hvisible hvisible' q hq hqb
      exact absurd hvisible
        ((piece_eq_nil_iff order.order order.inside).mp hpiece a ha (by omega))
  · have trimmed := trimmedCut order.order order.inside hpiece
    have hone : pieceSources index para [next] =
        [.piece index (trimCut para next).1 (trimCut para next).2] := by
      simp [pieceSources, hpiece]
    rw [hone]
    constructor
    · intro progress
      obtain ⟨q, hq, hlt, hvisible⟩ := progress hpiece
      obtain ⟨hstart, hstop⟩ := trimmed.holds q (by omega) hlt hvisible
      refine ⟨excerpts_concat.mpr ⟨good, trimmed.nonempty, fun s hs =>
        upTo.begun s hs _ (order.start.trans trimmed.start_le) trimmed.first,
        index, q, ⟨rfl, hstart, hstop⟩, fun s hs hcovers => ?_⟩, ?_, ?_, ?_⟩
      · have := upTo.ended s hs q hcovers
        omega
      · intro s hs q hq hvisible
        rcases List.mem_append.mp hs with hs | hs
        · exact upTo.begun s hs q (order.start.trans hq) hvisible
        · rw [List.mem_singleton.mp hs]
          refine Prod.Lex.toLex_le_toLex.mpr (.inr ⟨rfl, ?_⟩)
          by_cases hin : q < next.2
          · exact (trimmed.holds q hq hin hvisible).1
          · have := trimmed.nonempty
            have := trimmed.stop_le
            dsimp only
            omega
      · intro s hs q hcovers
        rcases List.mem_append.mp hs with hs | hs
        · exact (upTo.ended s hs q hcovers).trans_le order.stop
        · rw [List.mem_singleton.mp hs] at hcovers
          exact hcovers.2.2.trans_le trimmed.stop_le
      · intro a b ha hb hvisible hvisible' q hq hqb
        refine ⟨_, List.mem_append_right _ (List.mem_singleton_self _), rfl, ?_, ?_⟩
        · exact (trimmed.holds a ha (by omega) hvisible).1.trans hq
        · exact hqb.trans_lt (trimmed.holds b (by omega) hb hvisible').2
    · intro hstuck hexcerpts
      obtain ⟨i, q, ⟨rfl, hstart, hstop⟩, hfresh⟩ := (excerpts_concat.mp hexcerpts).2.2.2
      have hback : ∀ q, next.1 ≤ q → q < next.2 → VisibleAt para q → q < cut.2 := by
        intro q hq hlt hvisible
        by_contra hge
        exact hstuck fun _ => ⟨q, by omega, hlt, hvisible⟩
      have hnonempty := trimmed.nonempty
      have hlast := hback _ (by have := trimmed.start_le; omega)
        (by have := trimmed.stop_le; omega) trimmed.last
      obtain ⟨s, hs, hcovers⟩ := upTo.holds _ _ (order.start.trans trimmed.start_le) hlast
        trimmed.first trimmed.last q hstart (by omega)
      exact hfresh s hs hcovers

theorem pieceSources_cons (index : Nat) (para : List Char) (cut : Nat × Nat)
    (rest : List (Nat × Nat)) :
    pieceSources index para (cut :: rest) =
      pieceSources index para [cut] ++ pieceSources index para rest := by
  rw [pieceSources, ← List.singleton_append, List.filter_append, List.map_append]
  rfl

theorem pieces_excerpts {cut : Nat × Nat} {cuts : List (Nat × Nat)}
    (upTo : CutUpTo parts index para sources cut) (order : (cut :: cuts).IsChain (CutOrder para))
    (good : Excerpts parts sources) :
    Excerpts parts (sources ++ pieceSources index para cuts) ↔
      (cut :: cuts).IsChain (CutProgress para) := by
  induction cuts generalizing sources cut with
  | nil =>
    rw [pieceSources, List.filter_nil, List.map_nil, List.append_nil]
    exact iff_of_true good (.singleton _)
  | cons next rest ih =>
    obtain ⟨hnext, hrest⟩ := List.isChain_cons_cons.mp order
    obtain ⟨hgood, hbad⟩ := cutUpTo_step upTo hnext good
    rw [pieceSources_cons, ← List.append_assoc, List.isChain_cons_cons]
    by_cases hprogress : CutProgress para cut next
    · obtain ⟨hexcerpts, hupTo⟩ := hgood hprogress
      rw [ih hupTo hrest hexcerpts, and_iff_right hprogress]
    · exact iff_of_false (fun h => hbad hprogress h.of_prefix) fun h => hprogress h.1

/-- Every source stands before the paragraph. -/
structure Before (parts : List (List Char)) (index : Nat) (sources : List Source) : Prop where
  begun : ∀ source ∈ sources, source.begin_ < toLex (index, 0)
  covers : ∀ source ∈ sources, ∀ i q, source.Covers parts i q → i < index

theorem Before.cutUpTo (h : Before parts index sources) :
    CutUpTo parts index para sources (0, 0) where
  begun source hsource q _ _ := (h.begun source hsource).le.trans
    (Prod.Lex.toLex_le_toLex.mpr (.inr ⟨rfl, Nat.zero_le q⟩))
  ended source hsource _ hcovers := absurd (h.covers source hsource _ _ hcovers) (lt_irrefl _)
  holds _ _ _ hb := absurd hb (Nat.not_lt_zero _)

theorem Before.pieces (h : Before parts index sources) (cuts : List (Nat × Nat)) :
    Before parts (index + 1) (sources ++ pieceSources index para cuts) := by
  have hnext : ∀ q, (toLex (index, q) : Nat ×ₗ Nat) < toLex (index + 1, 0) := fun _ =>
    Prod.Lex.toLex_lt_toLex.mpr (.inl (Nat.lt_succ_self index))
  refine ⟨fun source hsource => ?_, fun source hsource i q hcovers => ?_⟩
  · rcases List.mem_append.mp hsource with hsource | hsource
    · exact (h.begun source hsource).trans (hnext 0)
    · obtain ⟨cut, _, rfl⟩ := List.mem_map.mp hsource
      exact hnext _
  · rcases List.mem_append.mp hsource with hsource | hsource
    · exact (h.covers source hsource i q hcovers).trans (Nat.lt_succ_self index)
    · obtain ⟨cut, _, rfl⟩ := List.mem_map.mp hsource
      rw [hcovers.1]
      exact Nat.lt_succ_self index

/-- The first cut of a paragraph always makes progress. -/
theorem isChain_progress_iff (cuts : List (Nat × Nat))
    (order : ((0, 0) :: cuts).IsChain (CutOrder para)) :
    ((0, 0) :: cuts).IsChain (CutProgress para) ↔ cuts.IsChain (CutProgress para) := by
  cases cuts with
  | nil => exact iff_of_true (.singleton _) .nil
  | cons cut rest =>
    rw [List.isChain_cons_cons, and_iff_right]
    intro hpiece
    have hcut := (List.isChain_cons_cons.mp order).1
    have trimmed := trimmedCut hcut.order hcut.inside hpiece
    exact ⟨_, by simpa using trimmed.start_le, trimmed.nonempty.trans_le trimmed.stop_le,
      trimmed.first⟩

end Pieces

section Links

variable {sizes : WindowSizes} {text : List Char} {t : Tracked} {index : Nat} {para : List Char}

/-- The windows and the buffer stand where they are said to. -/
structure Tracked.Linked (text : List Char) (t : Tracked) : Prop extends t.Counted where
  windows : t.windows = t.sources.map (Source.text text)
  buf : t.buf = t.indices.map fun i => (paragraphs text).getD i []

theorem Tracked.Linked.buf_eq_nil (h : t.Linked text) : t.buf = [] ↔ t.indices = [] := by
  rw [h.buf, List.map_eq_nil_iff]

theorem Tracked.emit_toWindowing (overlap : Nat) (t : Tracked) :
    (t.emit overlap).toWindowing = t.toWindowing.emit overlap := by
  unfold Tracked.emit
  split
  next h => rw [emit_eq_self overlap h]
  next => rfl

theorem Tracked.before_toWindowing (sizes : WindowSizes) (t : Tracked) (para : List Char) :
    (t.before sizes para).toWindowing = t.toWindowing.before sizes para := by
  unfold Tracked.before Windowing.before
  split
  · exact t.emit_toWindowing _
  · rfl

theorem Tracked.emit_linked (overlap : Nat) (h : t.Linked text) : (t.emit overlap).Linked text := by
  by_cases hbuf : t.buf = []
  · rwa [Tracked.emit, if_pos hbuf]
  · have hcounted := emit_counted overlap h.toCounted
    have hemit : t.emit overlap = { t.toWindowing.emit overlap with
        sources := t.sources ++ [.blocks t.indices]
        indices := t.indices.drop (t.indices.length - (keptParts overlap t.buf).length) } := by
      rw [Tracked.emit, if_neg hbuf]
    rw [hemit]
    refine ⟨hcounted, ?_, ?_⟩
    · dsimp only
      rw [emit_eq overlap hbuf, h.windows, h.buf, List.map_append]
      rfl
    · dsimp only
      have hlen : t.buf.length = t.indices.length := by rw [h.buf, List.length_map]
      have hkept := List.suffix_iff_eq_drop.mp (keptParts_spec overlap t.buf).suffix
      rw [emit_eq overlap hbuf, List.map_drop, ← h.buf, ← hlen]
      exact hkept

theorem Tracked.before_linked (para : List Char) (h : t.Linked text) :
    (t.before sizes para).Linked text := by
  unfold Tracked.before
  split
  · exact t.emit_linked _ h
  · exact h

theorem cutsFrom_mem {target overlap start : Nat} :
    ∀ cut ∈ cutsFrom para target overlap start, cut.1 ≤ cut.2 ∧ cut.2 ≤ para.length := by
  induction start using cutsFrom.induct para target overlap with
  | case1 start hstart ih =>
    rw [cutsFrom, if_pos hstart]
    refine List.forall_mem_cons.mpr ⟨⟨le_cutEnd hstart.le, cutEnd_le_length ..⟩, ?_⟩
    split
    · simp
    · exact ih
  | case2 start hend =>
    rw [cutsFrom, if_neg hend]
    simp

theorem pieceSources_text {cuts : List (Nat × Nat)}
    (mem : ∀ cut ∈ cuts, cut.1 ≤ cut.2 ∧ cut.2 ≤ para.length)
    (here : (paragraphs text).getD index [] = para) :
    (pieceSources index para cuts).map (Source.text text) =
      (cuts.map (pieceOf para)).filter fun piece => piece ≠ [] := by
  rw [pieceSources, List.map_map, List.filter_map]
  refine List.map_congr_left fun cut hcut => ?_
  obtain ⟨hmem, hpiece⟩ := List.mem_filter.mp hcut
  obtain ⟨horder, hinside⟩ := mem cut hmem
  rw [(trimmedCut horder hinside (by simpa using hpiece)).piece, ← here]
  rfl

theorem Tracked.add_toWindowing (sizes : WindowSizes) (t : Tracked) (index : Nat)
    (para : List Char) : (t.add sizes index para).toWindowing = t.toWindowing.add sizes para := by
  unfold Tracked.add
  split <;> rfl

theorem Tracked.add_linked (h : t.Linked text) (here : (paragraphs text).getD index [] = para)
    (hpara : para ≠ []) : (t.add sizes index para).Linked text := by
  have hcounted := @add_counted sizes _ _ h.toCounted hpara
  by_cases hlong : sizes.maxChars < para.length
  · have hemit := Tracked.emit_linked sizes.overlap h
    rw [Tracked.add, if_pos hlong]
    refine ⟨hcounted, ?_, ?_⟩
    · dsimp only
      rw [add_long hlong, ← Tracked.emit_toWindowing, List.map_append, ← hemit.windows,
        pieceSources_text cutsFrom_mem here, hardSplit, hardSplitFrom_eq]
    · dsimp only
      rw [add_long hlong, ← Tracked.emit_toWindowing, ← hemit.buf]
  · have hbefore := @Tracked.before_linked sizes _ _ para h
    rw [Tracked.add, if_neg hlong]
    refine ⟨hcounted, ?_, ?_⟩
    · dsimp only
      rw [add_short h.toCounted (Nat.le_of_not_lt hlong), ← Tracked.before_toWindowing,
        ← hbefore.windows]
    · dsimp only
      rw [add_short h.toCounted (Nat.le_of_not_lt hlong), ← Tracked.before_toWindowing,
        List.map_append, ← hbefore.buf, List.map_singleton, here]

theorem addAll_toWindowing (sizes : WindowSizes) (t : Tracked) (index : Nat)
    (rest : List (List Char)) :
    (t.addAll sizes index rest).toWindowing =
      rest.foldl (Windowing.add sizes) t.toWindowing := by
  induction rest generalizing t index with
  | nil => rfl
  | cons para rest ih => rw [Tracked.addAll, ih, Tracked.add_toWindowing, List.foldl_cons]

theorem addAll_linked {front rest : List (List Char)} (hparts : paragraphs text = front ++ rest)
    (h : t.Linked text) : (t.addAll sizes front.length rest).Linked text := by
  induction rest generalizing t front with
  | nil => exact h
  | cons para rest ih =>
    have hmem : para ∈ paragraphs text := by
      rw [hparts]
      exact List.mem_append_right _ List.mem_cons_self
    have hhere : (paragraphs text).getD front.length [] = para := by
      simp [hparts, List.getD_eq_getElem?_getD]
    have hnext := @ih _ (front ++ [para]) (by rw [hparts]; simp)
      (@Tracked.add_linked sizes _ _ _ _ h hhere (paragraphs_nonempty text para hmem))
    rw [List.length_append] at hnext
    exact hnext

/-- The sources give the windows of the text. -/
theorem sourcesOf_text (sizes : WindowSizes) (text : List Char) :
    (sourcesOf sizes text).map (Source.text (stripChars text)) = splitBySize sizes text := by
  unfold sourcesOf
  dsimp only
  by_cases hblank : stripChars text = []
  · rw [if_pos hblank, splitBySize_of_blank sizes hblank]
    rfl
  by_cases hshort : (stripChars text).length ≤ sizes.maxChars
  · rw [if_neg hblank, if_pos hshort, splitBySize_of_short hblank hshort]
    rfl
  rw [if_neg hblank, if_neg hshort, splitBySize_of_long (Nat.lt_of_not_le hshort)]
  have hstart : Tracked.Linked (stripChars text) ⟨⟨[], [], 0⟩, [], []⟩ :=
    ⟨⟨rfl, by simp⟩, rfl, rfl⟩
  have hparts : paragraphs (stripChars text) = [] ++ paragraphs (stripChars text) := rfl
  have hwindows := (Tracked.emit_linked sizes.overlap
    (@addAll_linked sizes _ _ _ _ hparts hstart)).windows
  rw [Tracked.emit_toWindowing, addAll_toWindowing] at hwindows
  exact hwindows.symm

end Links

section Loop

variable {sizes : WindowSizes} {text : List Char} {t : Tracked} {index : Nat} {para : List Char}

/-- The buffer holds consecutive paragraphs that end right before the next one, the last of which
no source holds yet. -/
structure FreshRun (parts : List (List Char)) (index : Nat) (sources : List Source)
    (indices : List Nat) (first count : Nat) : Prop where
  run : indices = List.range' first (count + 1)
  next : first + count + 1 = index
  begun : ∀ source ∈ sources, source.begin_ ≤ toLex (first, 0)
  covers : ∀ source ∈ sources, ∀ i q, source.Covers parts i q → i < first + count

/-- The sources so far are excerpts before the next paragraph, and the buffer can be one. -/
structure Tracked.Good (parts : List (List Char)) (index : Nat) (t : Tracked) : Prop where
  excerpts : Excerpts parts t.sources
  before : Before parts index t.sources
  buffer : t.indices = [] ∨ ∃ first count, FreshRun parts index t.sources t.indices first count

theorem FreshRun.emit {parts : List (List Char)} {sources : List Source} {indices : List Nat}
    {first count : Nat} (run : FreshRun parts index sources indices first count)
    (good : Excerpts parts sources) (before : Before parts index sources)
    (inside : index ≤ parts.length) (nonempty : ∀ part ∈ parts, part ≠ []) :
    Excerpts parts (sources ++ [.blocks indices]) ∧
      Before parts index (sources ++ [.blocks indices]) := by
  have hnext := run.next
  have hhead : indices.headD 0 = first := by
    rw [run.run]
    rfl
  constructor
  · refine excerpts_concat.mpr ⟨good, ⟨first, count, run.run⟩, fun earlier he => ?_,
      first + count, 0, ⟨?_, ?_⟩, fun earlier he hcovers => ?_⟩
    · rw [Source.begin_, hhead]
      exact run.begun earlier he
    · rw [run.run, List.mem_range'_1]
      omega
    · have hlt : first + count < parts.length := by omega
      rw [List.getD_eq_getElem _ _ hlt]
      exact List.length_pos_of_ne_nil (nonempty _ (List.getElem_mem hlt))
    · exact absurd (run.covers earlier he _ _ hcovers) (lt_irrefl _)
  · refine ⟨fun source hsource => ?_, fun source hsource i q hcovers => ?_⟩
    · rcases List.mem_append.mp hsource with hsource | hsource
      · exact before.begun source hsource
      · rw [List.mem_singleton.mp hsource, Source.begin_, hhead]
        exact Prod.Lex.toLex_lt_toLex.mpr (.inl (by dsimp only; omega))
    · rcases List.mem_append.mp hsource with hsource | hsource
      · exact before.covers source hsource i q hcovers
      · rw [List.mem_singleton.mp hsource] at hcovers
        have hmem : i ∈ List.range' first (count + 1) := run.run ▸ hcovers.1
        rw [List.mem_range'_1] at hmem
        omega

/-- What `emit` leaves of the buffer is the end of a run that the next paragraph continues. -/
theorem FreshRun.push {parts : List (List Char)} {sources : List Source} {indices : List Nat}
    {first count : Nat} (run : FreshRun parts index sources indices first count)
    (before : Before parts index (sources ++ [.blocks indices])) (dropped : Nat) :
    ∃ first' count', FreshRun parts (index + 1) (sources ++ [.blocks indices])
      (indices.drop dropped ++ [index]) first' count' := by
  have hnext := run.next
  have hhead : indices.headD 0 = first := by
    rw [run.run]
    rfl
  refine ⟨first + min dropped (count + 1), count + 1 - min dropped (count + 1), ?_, by omega, ?_, ?_⟩
  · have hdrop : (List.range' first (count + 1)).drop dropped =
        List.range' (first + min dropped (count + 1)) (count + 1 - min dropped (count + 1)) := by
      rcases Nat.le_total dropped (count + 1) with hle | hle
      · rw [List.drop_range', Nat.min_eq_left hle]
        simp
      · rw [List.drop_eq_nil_of_le (by simpa using hle), Nat.min_eq_right hle]
        simp
    have hindex : index =
        first + min dropped (count + 1) + 1 * (count + 1 - min dropped (count + 1)) := by omega
    rw [run.run, hdrop, List.range'_concat, ← hindex]
  · intro source hsource
    have hle : (toLex (first, 0) : Nat ×ₗ Nat) ≤ toLex (first + min dropped (count + 1), 0) := by
      rcases Nat.eq_zero_or_pos (min dropped (count + 1)) with hzero | hpos
      · rw [hzero, Nat.add_zero]
      · exact Prod.Lex.toLex_le_toLex.mpr (.inl (by dsimp only; omega))
    rcases List.mem_append.mp hsource with hsource | hsource
    · exact (run.begun source hsource).trans hle
    · rw [List.mem_singleton.mp hsource, Source.begin_, hhead]
      exact hle
  · intro source hsource i q hcovers
    have := before.covers source hsource i q hcovers
    omega

theorem Before.succ {parts : List (List Char)} {sources : List Source}
    (h : Before parts index sources) : Before parts (index + 1) sources where
  begun source hsource := (h.begun source hsource).trans
    (Prod.Lex.toLex_lt_toLex.mpr (.inl (Nat.lt_succ_self index)))
  covers source hsource i q hcovers := (h.covers source hsource i q hcovers).trans
    (Nat.lt_succ_self index)

theorem Tracked.add_short_good (h : t.Linked text) (good : t.Good (paragraphs text) index)
    (inside : index < (paragraphs text).length) (short : para.length ≤ sizes.maxChars) :
    (t.add sizes index para).Good (paragraphs text) (index + 1) := by
  rw [Tracked.add, if_neg (Nat.not_lt.mpr short)]
  by_cases hover : t.buf ≠ [] ∧ sizes.target < joinedLength (t.buf ++ [para])
  · have hindices : t.indices ≠ [] := mt h.buf_eq_nil.mpr hover.1
    obtain ⟨first, count, run⟩ := good.buffer.resolve_left hindices
    obtain ⟨hexcerpts, hbefore⟩ :=
      run.emit good.excerpts good.before inside.le (paragraphs_nonempty text)
    have hemit : t.before sizes para = t.emit sizes.overlap := if_pos hover
    rw [hemit, Tracked.emit, if_neg hover.1]
    exact ⟨hexcerpts, hbefore.succ, .inr (run.push hbefore _)⟩
  · have hsame : t.before sizes para = t := if_neg hover
    rw [hsame]
    refine ⟨good.excerpts, good.before.succ, .inr ?_⟩
    rcases good.buffer with hnil | ⟨first, count, run⟩
    · rw [hnil]
      exact ⟨index, 0, rfl, rfl, fun source hsource => (good.before.begun source hsource).le,
        good.before.covers⟩
    · have hnext := run.next
      refine ⟨first, count + 1, ?_, by omega, run.begun, fun source hsource i q hcovers => ?_⟩
      · have hindex : index = first + 1 * (count + 1) := by omega
        rw [List.range'_concat, ← hindex, run.run]
      · have := run.covers source hsource i q hcovers
        omega

/-- The buffer can no longer become an excerpt of text that is new, or some source is not one. -/
def Tracked.Broken (parts : List (List Char)) (index : Nat) (t : Tracked) : Prop :=
  ¬Excerpts parts t.sources ∨ t.indices ≠ [] ∧
    (¬(Source.blocks t.indices).Consecutive ∨
      (∀ i ∈ t.indices, ∀ q, q < (parts.getD i []).length →
        ∃ source ∈ t.sources, source.Covers parts i q) ∧
      ∀ last, t.indices.getLast? = some last → last + 1 < index)

theorem Tracked.emit_broken (overlap : Nat) {parts : List (List Char)} (h : t.Linked text)
    (broken : t.Broken parts index) : ¬Excerpts parts (t.emit overlap).sources := by
  by_cases hbuf : t.buf = []
  · rw [Tracked.emit, if_pos hbuf]
    exact broken.resolve_right fun hb => hb.1 (h.buf_eq_nil.mp hbuf)
  · rw [Tracked.emit, if_neg hbuf]
    intro hexcerpts
    obtain ⟨hgood, hconsecutive, _, i, q, hcovers, hfresh⟩ := excerpts_concat.mp hexcerpts
    rcases broken with hbroken | ⟨_, hapart | ⟨hstale, _⟩⟩
    · exact hbroken hgood
    · exact hapart hconsecutive
    · obtain ⟨source, hsource, hearlier⟩ := hstale i hcovers.1 q hcovers.2
      exact hfresh source hsource hearlier

theorem consecutive_of_concat {indices : List Nat} (hne : indices ≠ [])
    (h : (Source.blocks (indices ++ [index])).Consecutive) :
    (Source.blocks indices).Consecutive ∧ indices.getLast? = some (index - 1) ∧ 0 < index := by
  obtain ⟨first, count, hrange⟩ := h
  rw [List.range'_concat] at hrange
  obtain ⟨hfront, hlast⟩ := List.append_inj' hrange rfl
  have hindex := List.singleton_inj.mp hlast
  cases count with
  | zero => exact absurd hfront hne
  | succ count =>
    refine ⟨⟨first, count, hfront⟩, ?_, by omega⟩
    rw [hfront, List.range'_concat, List.getLast?_concat]
    congr 1
    omega

theorem Tracked.add_broken {parts : List (List Char)} (h : t.Linked text)
    (broken : t.Broken parts index) : (t.add sizes index para).Broken parts (index + 1) := by
  by_cases hlong : sizes.maxChars < para.length
  · rw [Tracked.add, if_pos hlong]
    exact .inl fun hexcerpts => t.emit_broken sizes.overlap h broken hexcerpts.of_prefix
  rw [Tracked.add, if_neg hlong]
  by_cases hover : t.buf ≠ [] ∧ sizes.target < joinedLength (t.buf ++ [para])
  · have hemit : t.before sizes para = t.emit sizes.overlap := if_pos hover
    rw [hemit]
    exact .inl (t.emit_broken sizes.overlap h broken)
  · have hsame : t.before sizes para = t := if_neg hover
    rw [hsame]
    rcases broken with hbroken | ⟨hne, hapart | ⟨_, hgap⟩⟩
    · exact .inl hbroken
    · exact .inr ⟨by simp, .inl fun hrun => hapart (consecutive_of_concat hne hrun).1⟩
    · refine .inr ⟨by simp, .inl fun hrun => ?_⟩
      obtain ⟨_, hlast, hpos⟩ := consecutive_of_concat hne hrun
      have := hgap _ hlast
      omega

/-- The rest of the loop keeps what is broken. -/
theorem addAll_broken {front rest : List (List Char)} (hparts : paragraphs text = front ++ rest)
    (h : t.Linked text) (broken : t.Broken (paragraphs text) front.length) :
    ¬Excerpts (paragraphs text)
      ((t.addAll sizes front.length rest).emit sizes.overlap).sources := by
  induction rest generalizing t front with
  | nil => exact t.emit_broken sizes.overlap h broken
  | cons para rest ih =>
    have hmem : para ∈ paragraphs text := by
      rw [hparts]
      exact List.mem_append_right _ List.mem_cons_self
    have hhere : (paragraphs text).getD front.length [] = para := by
      simp [hparts, List.getD_eq_getElem?_getD]
    have hnext := @ih _ (front ++ [para]) (by rw [hparts]; simp)
      (@Tracked.add_linked sizes _ _ _ _ h hhere (paragraphs_nonempty text para hmem))
    rw [List.length_append] at hnext
    exact hnext (Tracked.add_broken h broken)

theorem tailsSettle_cons {done rest : List (List Char)} :
    TailsSettle sizes done (para :: rest) ↔
      (sizes.maxChars < para.length → ∀ last, done.getLast? = some last →
        sizes.overlap < last.length) ∧
      TailsSettle sizes (done ++ shortParagraphs sizes [para]) rest := by
  constructor
  · intro h
    refine ⟨fun hlong last hlast => h [] para rest rfl hlong last (by simpa [shortParagraphs]),
      fun front next back hsplit hlong last hlast => ?_⟩
    refine h (para :: front) next back (by rw [hsplit]; rfl) hlong last ?_
    rw [← hlast, List.append_assoc, shortParagraphs, shortParagraphs, shortParagraphs,
      ← List.filter_append]
    rfl
  · rintro ⟨hhere, hrest⟩ front next back hsplit hlong last hlast
    cases front with
    | nil =>
      obtain ⟨rfl, rfl⟩ := List.cons.inj hsplit
      exact hhere hlong last (by simpa [shortParagraphs] using hlast)
    | cons first front =>
      obtain ⟨rfl, hlater⟩ := List.cons.inj hsplit
      refine hrest front next back hlater hlong last ?_
      rw [← hlast, List.append_assoc, shortParagraphs, shortParagraphs, shortParagraphs,
        ← List.filter_append]
      rfl

theorem Tracked.emit_good (overlap : Nat) (h : t.Linked text)
    (good : t.Good (paragraphs text) index) (inside : index ≤ (paragraphs text).length) :
    Excerpts (paragraphs text) (t.emit overlap).sources ∧
      Before (paragraphs text) index (t.emit overlap).sources := by
  by_cases hbuf : t.buf = []
  · rw [Tracked.emit, if_pos hbuf]
    exact ⟨good.excerpts, good.before⟩
  · obtain ⟨first, count, run⟩ := good.buffer.resolve_left (mt h.buf_eq_nil.mpr hbuf)
    rw [Tracked.emit, if_neg hbuf]
    exact run.emit good.excerpts good.before inside (paragraphs_nonempty text)

theorem Tracked.add_long_broken (h : t.Linked text) (good : t.Good (paragraphs text) index)
    (long : sizes.maxChars < para.length) (kept : (t.emit sizes.overlap).indices ≠ []) :
    (t.add sizes index para).Broken (paragraphs text) (index + 1) := by
  have hbuf : t.buf ≠ [] := by
    intro hnil
    rw [Tracked.emit, if_pos hnil] at kept
    exact kept (h.buf_eq_nil.mp hnil)
  obtain ⟨first, count, run⟩ := good.buffer.resolve_left (mt h.buf_eq_nil.mpr hbuf)
  rw [Tracked.add, if_pos long]
  rw [Tracked.emit, if_neg hbuf] at kept ⊢
  refine .inr ⟨kept, .inr ⟨fun i hi q hq => ?_, fun last hlast => ?_⟩⟩
  · refine ⟨.blocks t.indices, List.mem_append_left _ (List.mem_append_right _
      (List.mem_singleton_self _)), List.mem_of_mem_drop hi, hq⟩
  · have hmem := List.mem_of_mem_drop (List.mem_of_getLast? hlast)
    have hnext := run.next
    rw [run.run, List.mem_range'_1] at hmem
    omega

theorem shortParagraphs_concat (front : List (List Char)) (para : List Char) :
    shortParagraphs sizes (front ++ [para]) =
      shortParagraphs sizes front ++ shortParagraphs sizes [para] := List.filter_append ..

/-- From a good state on, the windows are excerpts exactly when no paragraph that is cut up leaves
a tail behind and all make progress. -/
theorem addAll_excerpts_iff {front rest : List (List Char)}
    (hparts : paragraphs text = front ++ rest) (h : t.Linked text)
    (good : t.Good (paragraphs text) front.length)
    (filling : t.toWindowing.Filling sizes.overlap (shortParagraphs sizes front)) :
    Excerpts (paragraphs text) ((t.addAll sizes front.length rest).emit sizes.overlap).sources ↔
      TailsSettle sizes (shortParagraphs sizes front) rest ∧ CutsProgress sizes rest := by
  induction rest generalizing t front with
  | nil =>
    refine iff_of_true (t.emit_good _ h good (by rw [hparts, List.append_nil])).1
      ⟨fun front para back hsplit => absurd hsplit (by simp), by simp [CutsProgress]⟩
  | cons para rest ih =>
    have hmem : para ∈ paragraphs text := by
      rw [hparts]
      exact List.mem_append_right _ List.mem_cons_self
    have hpara := paragraphs_nonempty text para hmem
    have hhere : (paragraphs text).getD front.length [] = para := by
      simp [hparts, List.getD_eq_getElem?_getD]
    have hinside : front.length < (paragraphs text).length := by
      rw [hparts, List.length_append, List.length_cons]
      omega
    have hsplit : paragraphs text = (front ++ [para]) ++ rest := by rw [hparts]; simp
    have hlinked := @Tracked.add_linked sizes _ _ _ _ h hhere hpara
    have hcuts : CutsProgress sizes (para :: rest) ↔ (sizes.maxChars < para.length →
        (cutsFrom para sizes.target sizes.overlap 0).IsChain (CutProgress para)) ∧
        CutsProgress sizes rest := List.forall_mem_cons
    rw [tailsSettle_cons, hcuts, Tracked.addAll, ← shortParagraphs_concat]
    have hlen : (front ++ [para]).length = front.length + 1 := by simp
    by_cases hlong : sizes.maxChars < para.length
    · have hsame : shortParagraphs sizes (front ++ [para]) = shortParagraphs sizes front := by
        have hnone : shortParagraphs sizes [para] = [] :=
          List.filter_eq_nil_iff.mpr (by simpa using hlong)
        rw [shortParagraphs_concat, hnone, List.append_nil]
      have hfilling := emit_filling filling
      have hfilling' : (t.add sizes front.length para).toWindowing.Filling sizes.overlap
          (shortParagraphs sizes (front ++ [para])) := by
        rw [Tracked.add_toWindowing, hsame]
        exact add_long_filling filling hlong
      have hemitted := Tracked.emit_linked sizes.overlap h
      by_cases hkept : (t.emit sizes.overlap).indices = []
      · have hbuf : (t.toWindowing.emit sizes.overlap).buf = [] := by
          rw [← Tracked.emit_toWindowing]
          exact hemitted.buf_eq_nil.mpr hkept
        have hsettles : ∀ last, (shortParagraphs sizes front).getLast? = some last →
            sizes.overlap < last.length := by
          intro last hlast
          obtain ⟨before, hbefore⟩ := List.getLast?_eq_some_iff.mp hlast
          have hmost := hfilling.most last (by rw [hbuf, hbefore]; exact List.suffix_append _ _)
          rw [hbuf] at hmost
          simpa [joinedLength] using hmost
        obtain ⟨hexcerpts, hbefore⟩ := t.emit_good sizes.overlap h good hinside.le
        have horder := @cutsFrom_order para sizes.target sizes.overlap 0 (0, 0)
          (Nat.zero_le 0) fun _ => Nat.zero_le _
        have hpieces := pieces_excerpts hbefore.cutUpTo horder hexcerpts
        rw [isChain_progress_iff _ horder] at hpieces
        by_cases hprogress :
            (cutsFrom para sizes.target sizes.overlap 0).IsChain (CutProgress para)
        · have hnext : (t.add sizes front.length para).Good (paragraphs text)
              (front ++ [para]).length := by
            rw [hlen, Tracked.add, if_pos hlong]
            exact ⟨hpieces.mpr hprogress, hbefore.pieces _, .inl hkept⟩
          rw [← hlen, ih hsplit hlinked hnext hfilling',
            and_iff_right fun _ => hsettles, and_iff_right fun _ => hprogress]
        · have hbroken : (t.add sizes front.length para).Broken (paragraphs text)
              (front ++ [para]).length := by
            rw [hlen, Tracked.add, if_pos hlong]
            exact .inl (mt hpieces.mp hprogress)
          rw [← hlen]
          exact iff_of_false (addAll_broken hsplit hlinked hbroken)
            fun hall => hprogress (hall.2.1 hlong)
      · have hbroken := Tracked.add_long_broken h good hlong hkept
        rw [← hlen] at hbroken ⊢
        refine iff_of_false (addAll_broken hsplit hlinked hbroken) fun hall => ?_
        have hbuf : (t.toWindowing.emit sizes.overlap).buf ≠ [] := by
          rw [← Tracked.emit_toWindowing]
          exact mt hemitted.buf_eq_nil.mp hkept
        have hne : t.buf ≠ [] := by
          intro hnil
          rw [emit_eq_self _ hnil] at hbuf
          exact hbuf hnil
        have hlast := emit_last filling hne
        obtain ⟨init, last, hconcat⟩ := (List.eq_nil_or_concat _).resolve_left hbuf
        rw [List.concat_eq_append] at hconcat
        rw [hconcat] at hlast
        obtain ⟨before, hbefore⟩ := hlast.suffix
        have hget : (shortParagraphs sizes front).getLast? = some last := by
          rw [← hbefore, ← List.append_assoc, List.getLast?_concat]
        have hfar := hall.1.1 hlong last hget
        have hnear := hlast.fits
        rw [joinedLength_push] at hnear
        omega
    · have hshort := Nat.le_of_not_lt hlong
      have hone : shortParagraphs sizes [para] = [para] :=
        List.filter_eq_self.mpr (by simpa using hshort)
      have hnext := @Tracked.add_short_good sizes _ _ _ para h good hinside hshort
      have hfilling : (t.add sizes front.length para).toWindowing.Filling sizes.overlap
          (shortParagraphs sizes (front ++ [para])) := by
        rw [Tracked.add_toWindowing, shortParagraphs_concat, hone]
        exact add_short_filling filling hpara hshort
      rw [← hlen] at hnext ⊢
      rw [ih hsplit hlinked hnext hfilling, and_iff_right fun h => absurd h hlong,
        and_iff_right fun h => absurd h hlong]

end Loop

/-- The text fits one window, or its paragraphs that are cut up leave no tail behind in the
buffer and are cut with progress. -/
def SplitsCleanly (sizes : WindowSizes) (text : List Char) : Prop :=
  (stripChars text).length ≤ sizes.maxChars ∨
    TailsSettle sizes [] (paragraphs (stripChars text)) ∧
      CutsProgress sizes (paragraphs (stripChars text))

theorem whole_excerpts {text : List Char} (h : paragraphs text ≠ []) :
    Excerpts (paragraphs text) [.whole] := by
  have hnone : Excerpts (paragraphs text) [] :=
    ⟨by simp, .nil, fun front source back hsplit => absurd hsplit (by simp)⟩
  refine (@excerpts_concat _ [] _).mpr ⟨hnone, trivial, by simp, 0, 0, ?_, by simp⟩
  obtain ⟨part, rest, hcons⟩ := List.exists_cons_of_ne_nil h
  have hpart : part ∈ paragraphs text := by
    rw [hcons]
    exact List.mem_cons_self
  rw [hcons]
  exact ⟨by simp, List.length_pos_of_ne_nil (paragraphs_nonempty text part hpart)⟩

theorem sourcesOf_excerpts_iff (sizes : WindowSizes) (text : List Char) :
    Excerpts (paragraphs (stripChars text)) (sourcesOf sizes text) ↔ SplitsCleanly sizes text := by
  have hnone : Excerpts (paragraphs (stripChars text)) [] :=
    ⟨by simp, .nil, fun front source back hsplit => absurd hsplit (by simp)⟩
  unfold sourcesOf
  dsimp only
  by_cases hblank : stripChars text = []
  · rw [if_pos hblank]
    exact iff_of_true hnone (.inl (by rw [hblank]; exact Nat.zero_le _))
  by_cases hshort : (stripChars text).length ≤ sizes.maxChars
  · rw [if_neg hblank, if_pos hshort]
    refine iff_of_true (whole_excerpts (paragraphs_ne_nil ?_)) (.inl hshort)
    rwa [ne_eq, stripChars_eq_nil_iff, visible_stripChars, ← stripChars_eq_nil_iff]
  rw [if_neg hblank, if_neg hshort, SplitsCleanly, or_iff_right hshort]
  have hparts : paragraphs (stripChars text) = [] ++ paragraphs (stripChars text) := rfl
  exact @addAll_excerpts_iff sizes _ ⟨⟨[], [], 0⟩, [], []⟩ _ _ hparts
    ⟨⟨rfl, by simp⟩, rfl, rfl⟩ ⟨hnone, ⟨by simp, by simp⟩, .inl rfl⟩ (start_filling sizes.overlap)

/-- The windows of `_split_by_size` stand at the sources; these are consecutive text in the order
of the text, each with text that no earlier one has, exactly when the text splits cleanly. -/
theorem windows_excerpts_iff (sizes : WindowSizes) (text : List Char) :
    (sourcesOf sizes text).map (Source.text (stripChars text)) = splitBySize sizes text ∧
    (Excerpts (paragraphs (stripChars text)) (sourcesOf sizes text) ↔ SplitsCleanly sizes text) :=
  ⟨sourcesOf_text sizes text, sourcesOf_excerpts_iff sizes text⟩

/-- A short paragraph and one that no child window holds. -/
def oversizedText : List Char := List.replicate 10 'a' ++ ['\n', '\n'] ++ List.replicate 1300 'b'

/-- The short paragraph stays in the buffer behind the one that is cut up, and is emitted again. -/
theorem tail_emitted_again : ¬∀ (sizes : WindowSizes) (text : List Char),
    Excerpts (paragraphs (stripChars text)) (sourcesOf sizes text) := by
  intro h
  have hlong : ¬(stripChars oversizedText).length ≤ childSizes.maxChars := by decide +kernel
  have hparts : paragraphs (stripChars oversizedText) =
      [List.replicate 10 'a', List.replicate 1300 'b'] := by decide +kernel
  have hclean := ((sourcesOf_excerpts_iff childSizes oversizedText).mp
    (h childSizes oversizedText)).resolve_left hlong
  rw [hparts] at hclean
  have htail := hclean.1 [List.replicate 10 'a'] (List.replicate 1300 'b') [] rfl
    (by rw [List.length_replicate]; decide) (List.replicate 10 'a') (by decide)
  rw [List.length_replicate] at htail
  exact absurd htail (by decide)

end Aegis
