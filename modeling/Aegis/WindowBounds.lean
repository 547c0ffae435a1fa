import Aegis.ChunkGroups
import Aegis.Windows

namespace Aegis

/-- The text fits one window, or no paragraphs of it fill one over. -/
def FitsWindows (sizes : WindowSizes) (text : List Char) : Prop :=
  (stripChars text).length ≤ sizes.maxChars ∨ ¬Overfull sizes (paragraphs (stripChars text))

theorem paragraphs_nonempty (text : List Char) : ∀ part ∈ paragraphs text, part ≠ [] :=
  fun _ hpart => of_decide_eq_true (List.mem_filter.mp hpart).2

theorem splitBySize_of_long {sizes : WindowSizes} {text : List Char}
    (h : sizes.maxChars < (stripChars text).length) :
    splitBySize sizes text =
      (((paragraphs (stripChars text)).foldl (Windowing.add sizes) ⟨[], [], 0⟩).emit
        sizes.overlap).windows := by
  have hne : stripChars text ≠ [] := by
    intro hnil
    rw [hnil] at h
    cases h
  obtain ⟨hcounted, hwindows⟩ := @fold_nonempty sizes _ _
    (paragraphs_nonempty (stripChars text)) ⟨rfl, by simp⟩
    (by simp : ∀ window ∈ (⟨[], [], 0⟩ : Windowing).windows, window ≠ [])
  rw [splitBySize, if_neg hne, if_neg (Nat.not_le.mpr h)]
  exact List.filter_eq_self.mpr fun window hwindow =>
    decide_eq_true (emit_nonempty sizes.overlap hcounted hwindows window hwindow)

theorem splitBySize_of_short {sizes : WindowSizes} {text : List Char} (hne : stripChars text ≠ [])
    (h : (stripChars text).length ≤ sizes.maxChars) :
    splitBySize sizes text = [stripChars text] := by
  rw [splitBySize, if_neg hne, if_pos h]

theorem splitBySize_of_blank {text : List Char} (sizes : WindowSizes)
    (h : stripChars text = []) : splitBySize sizes text = [] := by
  rw [splitBySize, if_pos h]

theorem start_filling (overlap : Nat) : Windowing.Filling overlap [] ⟨[], [], 0⟩ where
  bufLen := rfl
  nonempty := by simp
  suffix := List.suffix_refl _
  most part hpart := absurd (List.eq_nil_of_suffix_nil hpart) (List.cons_ne_nil _ _)

/-- Every window is short enough exactly when the text fits one or its paragraphs do. -/
theorem splitBySize_within {sizes : WindowSizes} (fits : sizes.overlap < sizes.target)
    (order : sizes.target ≤ sizes.maxChars) (text : List Char) :
    (∀ window ∈ splitBySize sizes text, window.length ≤ sizes.maxChars) ↔
      FitsWindows sizes text := by
  by_cases hshort : (stripChars text).length ≤ sizes.maxChars
  · refine iff_of_true (fun window hwindow => ?_) (.inl hshort)
    by_cases hblank : stripChars text = []
    · rw [splitBySize_of_blank sizes hblank] at hwindow
      cases hwindow
    · rw [splitBySize_of_short hblank hshort, List.mem_singleton] at hwindow
      rwa [hwindow]
  · have hnonempty := paragraphs_nonempty (stripChars text)
    rw [splitBySize_of_long (Nat.lt_of_not_le hshort), FitsWindows, or_iff_right hshort]
    constructor
    · rintro hall ⟨run, para, hrun, ⟨front, back, hsplit⟩, hfits, hlong⟩
      have hover := fold_overfull order hnonempty (start_filling sizes.overlap) hrun
        ⟨front, back, by rw [List.nil_append, ← hsplit]; simp, Nat.zero_le _⟩ hfits hlong
      obtain ⟨window, hwindow, hlong⟩ := @emit_over sizes _ hover
      exact absurd (hall window hwindow) (Nat.not_le.mpr hlong)
    · intro hroom window hwindow
      obtain ⟨done, hfilling, hwithin⟩ := fold_within fits.le order hnonempty
        (start_filling sizes.overlap) ⟨by simp, Nat.zero_le _⟩ fun run para hrun hinfix hfits => by
          by_contra hlong
          exact hroom ⟨run, para, hrun, by simpa using hinfix, hfits, Nat.lt_of_not_le hlong⟩
      exact (emit_within hfilling hwithin (fits.le.trans order)).windows window hwindow

/-- A chunk is as long as its kind allows. -/
def Chunk.RoleBounded (chunk : Chunk) : Prop :=
  (chunk.metadata.lookup "role" = some "parent" → chunk.text.length ≤ parentSizes.maxChars) ∧
    (chunk.metadata.lookup "role" = some "child" → chunk.text.length ≤ childSizes.maxChars)

theorem parent_bounded_iff {heading window : List Char} {parent : Chunk} {children : List Chunk}
    (group : GroupOf heading window parent children) :
    parent.RoleBounded ↔ window.length ≤ parentSizes.maxChars := by
  rw [Chunk.RoleBounded, group.role, group.text, String.length_ofList]
  simp

theorem children_bounded_iff {heading window : List Char} {parent : Chunk} {children : List Chunk}
    (group : GroupOf heading window parent children) :
    (∀ child ∈ children, child.RoleBounded) ↔
      ∀ piece ∈ splitBySize childSizes window, piece.length ≤ childSizes.maxChars := by
  have hchild : ∀ child ∈ children,
      child.RoleBounded ↔ child.text.length ≤ childSizes.maxChars := by
    intro child hmem
    rw [Chunk.RoleBounded, group.childRole child hmem]
    simp
  have htext : (∀ child ∈ children, child.text.length ≤ childSizes.maxChars) ↔
      ∀ text ∈ children.map Chunk.text, text.length ≤ childSizes.maxChars := by
    rw [List.forall_mem_map]
  rw [forall₂_congr hchild, htext, group.split, List.forall_mem_map]
  simp only [String.length_ofList]

theorem groups_bounded_iff {entries : List (List Char × List Char)}
    {groups : List (Chunk × List Chunk)}
    (h : List.Forall₂ (fun entry group => GroupOf entry.1 entry.2 group.1 group.2) entries groups) :
    (∀ chunk ∈ groups.flatMap (fun group => group.1 :: group.2), chunk.RoleBounded) ↔
      ∀ entry ∈ entries, entry.2.length ≤ parentSizes.maxChars ∧
        ∀ piece ∈ splitBySize childSizes entry.2, piece.length ≤ childSizes.maxChars := by
  induction h with
  | nil => simp
  | cons hgroup _ ih =>
    rw [List.flatMap_cons, List.forall_mem_append, List.forall_mem_cons, ih,
      parent_bounded_iff hgroup, children_bounded_iff hgroup, List.forall_mem_cons]

/-- Windows are at most as long as the sizes allow exactly when no paragraphs fill one over, and
the chunks of a document exactly when this holds of its sections and of their parent windows. -/
theorem windows_bounded_iff (sha256 : ByteArray → BitVec 256) (rel : String) (raw : List Char) :
    (∀ (sizes : WindowSizes) (text : List Char), sizes.overlap < sizes.target →
      sizes.target ≤ sizes.maxChars →
      ((∀ window ∈ splitBySize sizes text, window.length ≤ sizes.maxChars) ↔
        FitsWindows sizes text)) ∧
    ((∀ chunk ∈ chunkDocument sha256 rel raw, chunk.RoleBounded) ↔
      ∀ entry ∈ splitByHeading (parseFrontmatter raw).1, FitsWindows parentSizes entry.2 ∧
        ∀ window ∈ splitBySize parentSizes entry.2, FitsWindows childSizes window) := by
  refine ⟨fun sizes text fits order => splitBySize_within fits order text, ?_⟩
  obtain ⟨groups, hchunks, hgroups⟩ := chunkDocument_groups sha256 rel raw
  have hparent := @splitBySize_within parentSizes (by decide) (by decide)
  have hchild := @splitBySize_within childSizes (by decide) (by decide)
  rw [hchunks, groups_bounded_iff hgroups, parentWindows]
  simp only [List.forall_mem_flatMap, List.forall_mem_map, ← hparent, ← hchild]
  refine forall₂_congr fun entry _ => ⟨fun h => ⟨fun w hw => (h w hw).1, fun w hw => (h w hw).2⟩,
    fun h w hw => ⟨h.1 w hw, h.2 w hw⟩⟩

/-- A short paragraph and one that is just short enough for a child window. -/
def overfullText : List Char :=
  List.replicate 90 'a' ++ ['\n', '\n'] ++ List.replicate 1190 'b'

/-- The overlap and the paragraph behind it make a window that is too long. -/
theorem window_too_long : ¬∀ (sizes : WindowSizes) (text : List Char),
    sizes.overlap < sizes.target → sizes.target ≤ sizes.maxChars →
    ∀ window ∈ splitBySize sizes text, window.length ≤ sizes.maxChars := by
  intro h
  have hbounded := h childSizes overfullText (by decide) (by decide)
  have hlong : ((splitBySize childSizes overfullText).map List.length) = [90, 1282] := by
    decide +kernel
  have hmem : 1282 ∈ (splitBySize childSizes overfullText).map List.length := by
    rw [hlong]
    exact List.mem_cons_of_mem _ (List.mem_singleton_self _)
  obtain ⟨window, hwindow, hlength⟩ := List.mem_map.mp hmem
  have := hbounded window hwindow
  simp only [childSizes] at this
  omega

end Aegis
