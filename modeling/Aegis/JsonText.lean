import Mathlib.Data.List.Infix

namespace JsonText

/-- Three backticks, which no JSON writer escapes. -/
def fence : List Char := ['\x60', '\x60', '\x60']

def isHex (c : Char) : Bool :=
  ('0' ≤ c && c ≤ '9') || ('a' ≤ c && c ≤ 'f') || ('A' ≤ c && c ≤ 'F')

/-- What stands behind the backslash of an escape. -/
def IsEscape (code : List Char) : Prop :=
  (∃ c ∈ ['"', '\\', '/', 'b', 'f', 'n', 'r', 't'], code = [c]) ∨
    ∃ digits : List Char, code = 'u' :: digits ∧ ∀ c ∈ digits, isHex c = true

/-- The inside of a string literal and what it spells. An escape spells any text. -/
inductive Spells : List Char → List Char → Prop
  | nil : Spells [] []
  | char {c : Char} {raw s : List Char} (quote : c ≠ '"') (backslash : c ≠ '\\')
    (rest : Spells raw s) : Spells (c :: raw) (c :: s)
  | escape {code raw meant s : List Char} (isEscape : IsEscape code) (rest : Spells raw s) :
    Spells ('\\' :: (code ++ raw)) (meant ++ s)

/-- The string literals of a JSON text with what they spell. Outside them there is no quote, no
backslash and no backtick. -/
inductive Lexes : List Char → List (List Char × List Char) → Prop
  | nil : Lexes [] []
  | outside {c : Char} {text : List Char} {literals : List (List Char × List Char)}
    (quote : c ≠ '"') (backslash : c ≠ '\\') (backtick : c ≠ '\x60') (rest : Lexes text literals) :
    Lexes (c :: text) literals
  | literal {raw s text : List Char} {literals : List (List Char × List Char)}
    (spells : Spells raw s) (rest : Lexes text literals) :
    Lexes ('"' :: (raw ++ '"' :: text)) ((raw, s) :: literals)

/-- Where a reader of a text is: outside string literals, inside one, or behind a backslash. -/
inductive Mode where
  | outside
  | inside
  | escaped
  deriving DecidableEq

def Mode.step : Mode → Char → Mode
  | outside, c => if c = '"' then inside else outside
  | inside, c => if c = '"' then outside else if c = '\\' then escaped else inside
  | escaped, _ => inside

def Mode.run (m : Mode) (text : List Char) : Mode := text.foldl step m

/-- A character that a JSON text may have where its reader is. -/
def Mode.Fits : Mode → Char → Prop
  | outside, c => c ≠ '\\' ∧ c ≠ '\x60'
  | inside, _ => True
  | escaped, c => c ≠ '\x60'

/-- A part of a JSON text, read from a mode on. -/
def Sound : Mode → List Char → Prop
  | _, [] => True
  | m, c :: text => m.Fits c ∧ Sound (m.step c) text

section Modes

variable {m : Mode} {text rest : List Char}

@[simp] theorem run_nil : m.run [] = m := rfl

@[simp] theorem run_cons (c : Char) : m.run (c :: text) = (m.step c).run text := rfl

theorem run_append : m.run (text ++ rest) = (m.run text).run rest := List.foldl_append

theorem sound_append : Sound m (text ++ rest) ↔ Sound m text ∧ Sound (m.run text) rest := by
  induction text generalizing m with
  | nil => simp [Sound]
  | cons c text ih =>
    rw [List.cons_append, run_cons]
    simp only [Sound]
    rw [ih, and_assoc]

/-- A backtick stands inside a literal. -/
theorem inside_of_backtick (h : Sound m ('\x60' :: text)) : m = .inside := by
  cases m with
  | outside => exact absurd rfl h.1.2
  | inside => rfl
  | escaped => exact absurd rfl h.1

/-- What has no quote and no backslash leaves its reader inside a literal, or outside. -/
theorem run_plain (h : ∀ c ∈ text, c ≠ '"' ∧ c ≠ '\\') :
    Mode.inside.run text = .inside ∧ Mode.outside.run text = .outside := by
  induction text with
  | nil => exact ⟨rfl, rfl⟩
  | cons c text ih =>
    obtain ⟨hquote, hbackslash⟩ := h c List.mem_cons_self
    have hrest := ih fun x hx => h x (List.mem_cons_of_mem _ hx)
    rw [run_cons, run_cons]
    unfold Mode.step
    dsimp only
    rw [if_neg hquote, if_neg hquote, if_neg hbackslash]
    exact hrest

theorem sound_inside_plain (h : ∀ c ∈ text, c ≠ '"' ∧ c ≠ '\\') : Sound .inside text := by
  induction text with
  | nil => trivial
  | cons c text ih =>
    obtain ⟨hquote, hbackslash⟩ := h c List.mem_cons_self
    refine ⟨trivial, ?_⟩
    unfold Mode.step
    dsimp only
    rw [if_neg hquote, if_neg hbackslash]
    exact ih fun x hx => h x (List.mem_cons_of_mem _ hx)

/-- A text that can be read both from inside and from outside a literal has no backslash: what is
inside for one reader is outside for the other. -/
theorem no_backslash (inside : Sound .inside text) (outside : Sound .outside text) :
    '\\' ∉ text := by
  induction text with
  | nil => exact List.not_mem_nil
  | cons c text ih =>
    obtain ⟨⟨hbackslash, _⟩, houtside⟩ := outside
    obtain ⟨_, hinside⟩ := inside
    have hrest : '\\' ∉ text := by
      unfold Mode.step at houtside hinside
      dsimp only at houtside hinside
      by_cases hquote : c = '"'
      · rw [if_pos hquote] at houtside hinside
        exact ih houtside hinside
      · rw [if_neg hquote] at houtside hinside
        rw [if_neg hbackslash] at hinside
        exact ih hinside houtside
    intro h
    rcases List.mem_cons.mp h with h | h
    · exact hbackslash h.symm
    · exact hrest h

end Modes

section Literals

variable {raw s text : List Char} {literals : List (List Char × List Char)}

theorem isEscape_parts {code : List Char} (h : IsEscape code) : ∃ c rest, code = c :: rest ∧
    c ≠ '\x60' ∧ ∀ x ∈ rest, x ≠ '"' ∧ x ≠ '\\' ∧ x ≠ '\x60' := by
  have hhex : ∀ x, isHex x = true → x ≠ '"' ∧ x ≠ '\\' ∧ x ≠ '\x60' := by
    intro x hx
    refine ⟨?_, ?_, ?_⟩ <;> rintro rfl <;> exact absurd hx (by decide)
  rcases h with ⟨c, hc, rfl⟩ | ⟨digits, rfl, hdigits⟩
  · refine ⟨c, [], rfl, ?_, fun x hx => by cases hx⟩
    rintro rfl
    exact absurd hc (by decide)
  · exact ⟨'u', digits, rfl, by decide, fun x hx => hhex x (hdigits x hx)⟩

theorem spells_sound (h : Spells raw s) : Sound .inside raw ∧ Mode.inside.run raw = .inside := by
  induction h with
  | nil => exact ⟨trivial, rfl⟩
  | @char c raw s quote backslash rest ih =>
    have hstep : Mode.inside.step c = .inside := by
      unfold Mode.step
      dsimp only
      rw [if_neg quote, if_neg backslash]
    refine ⟨⟨trivial, ?_⟩, ?_⟩
    · rw [hstep]
      exact ih.1
    · rw [run_cons, hstep]
      exact ih.2
  | @escape code raw meant s isEscape rest ih =>
    obtain ⟨c, others, rfl, hbacktick, hothers⟩ := isEscape_parts isEscape
    have hplain : ∀ x ∈ others, x ≠ '"' ∧ x ≠ '\\' := fun x hx =>
      ⟨(hothers x hx).1, (hothers x hx).2.1⟩
    refine ⟨⟨trivial, hbacktick, ?_⟩, ?_⟩
    · change Sound .inside (others ++ raw)
      rw [sound_append, (run_plain hplain).1]
      exact ⟨sound_inside_plain hplain, ih.1⟩
    · change Mode.inside.run (others ++ raw) = .inside
      rw [run_append, (run_plain hplain).1, ih.2]

/-- A JSON text is read from outside a literal, and ends there. -/
theorem lexes_sound (h : Lexes text literals) :
    Sound .outside text ∧ Mode.outside.run text = .outside := by
  induction h with
  | nil => exact ⟨trivial, rfl⟩
  | @outside c text literals quote backslash backtick rest ih =>
    have hstep : Mode.outside.step c = .outside := if_neg quote
    refine ⟨⟨⟨backslash, backtick⟩, ?_⟩, ?_⟩
    · rw [hstep]
      exact ih.1
    · rw [run_cons, hstep]
      exact ih.2
  | @literal raw s text literals spells rest ih =>
    obtain ⟨hsound, hrun⟩ := spells_sound spells
    refine ⟨⟨⟨by decide, by decide⟩, ?_⟩, ?_⟩
    · change Sound .inside (raw ++ '"' :: text)
      rw [sound_append, hrun]
      exact ⟨hsound, trivial, ih.1⟩
    · change Mode.inside.run (raw ++ '"' :: text) = .outside
      rw [run_append, hrun]
      exact ih.2

/-- Without a backslash a literal spells what stands in it. -/
theorem spells_plain (h : Spells raw s) (plain : '\\' ∉ raw) : s = raw := by
  induction h with
  | nil => rfl
  | @char c raw s _ _ rest ih => rw [ih fun h => plain (List.mem_cons_of_mem _ h)]
  | escape _ _ _ => exact absurd List.mem_cons_self plain

theorem lexes_mem (h : Lexes text literals) {literal : List Char × List Char}
    (mem : literal ∈ literals) : Spells literal.1 literal.2 ∧ literal.1 <:+: text := by
  induction h with
  | nil => cases mem
  | outside _ _ _ _ ih =>
    obtain ⟨hspells, hinfix⟩ := ih mem
    exact ⟨hspells, List.infix_cons hinfix⟩
  | @literal raw s text literals spells rest ih =>
    rcases List.mem_cons.mp mem with rfl | hmem
    · exact ⟨spells, ['"'], '"' :: text, by simp⟩
    · obtain ⟨hspells, hinfix⟩ := ih hmem
      refine ⟨hspells, hinfix.trans ?_⟩
      exact ⟨'"' :: (raw ++ ['"']), [], by simp⟩

end Literals

section Fences

variable {c : Char} {raw s text rest : List Char} {literals : List (List Char × List Char)}

theorem fence_cons (h : c ≠ '\x60') : fence <:+: c :: text ↔ fence <:+: text := by
  rw [List.infix_cons_iff]
  constructor
  · intro hor
    rcases hor with hprefix | hinfix
    · exact absurd (List.cons_prefix_cons.mp hprefix).1.symm h
    · exact hinfix
  · exact .inr

theorem fence_append_cons (h : c ≠ '\x60') :
    fence <:+: text ++ c :: rest ↔ fence <:+: text ∨ fence <:+: rest := by
  constructor
  · intro hinfix
    induction text with
    | nil => exact .inr ((fence_cons h).mp hinfix)
    | cons x text ih =>
      rcases List.infix_cons_iff.mp hinfix with hprefix | hinfix
      · rcases text with _ | ⟨y, _ | ⟨z, text⟩⟩
        · simp [fence] at hprefix
          exact absurd hprefix.2.1.symm h
        · simp [fence] at hprefix
          exact absurd hprefix.2.2.symm h
        · simp [fence] at hprefix
          obtain ⟨rfl, rfl, rfl⟩ := hprefix
          exact .inl ⟨[], text, rfl⟩
      · exact (ih hinfix).imp_left List.infix_cons
  · intro hor
    rcases hor with hinfix | hinfix
    · exact hinfix.trans (List.infix_append' [] text _)
    · exact hinfix.trans ⟨text ++ [c], [], by simp⟩

/-- A fence inside a literal is spelled as it stands. -/
theorem fence_spelled (h : Spells raw s) (fenced : fence <:+: raw) : fence <:+: s := by
  induction h with
  | nil => exact fenced
  | @char c raw s _ _ rest ih =>
    rcases List.infix_cons_iff.mp fenced with hprefix | hinfix
    · obtain ⟨hc, hprefix⟩ := List.cons_prefix_cons.mp hprefix
      have hrest : ['\x60', '\x60'] <+: s := by
        obtain ⟨more, rfl⟩ := hprefix
        cases rest with
        | char _ _ rest =>
          cases rest with
          | char _ _ rest => exact ⟨_, rfl⟩
      rw [← hc]
      exact (List.cons_prefix_cons.mpr ⟨rfl, hrest⟩).isInfix
    · exact List.infix_cons (ih hinfix)
  | @escape code raw meant s isEscape rest ih =>
    obtain ⟨c, others, rfl, hbacktick, hothers⟩ := isEscape_parts isEscape
    have hraw : fence <:+: raw := by
      have hcode : ∀ x ∈ c :: others, x ≠ '\x60' := by
        intro x hx
        rcases List.mem_cons.mp hx with rfl | hx
        · exact hbacktick
        · exact (hothers x hx).2.2
      have hfenced := (fence_cons (by decide)).mp fenced
      clear fenced
      generalize c :: others = code at hcode hfenced
      induction code with
      | nil => exact hfenced
      | cons x code ihCode =>
        refine ihCode (fun y hy => hcode y (List.mem_cons_of_mem _ hy)) ?_
        exact (fence_cons (hcode x List.mem_cons_self)).mp hfenced
    exact (ih hraw).trans (List.suffix_append meant s).isInfix

/-- The fence of a JSON text stands in a literal. -/
theorem lexes_fence (h : Lexes text literals) (fenced : fence <:+: text) :
    ∃ literal ∈ literals, fence <:+: literal.1 := by
  induction h with
  | nil => simp [fence] at fenced
  | outside _ _ backtick _ ih => exact ih ((fence_cons backtick).mp fenced)
  | @literal raw s text literals spells rest ih =>
    have hfenced := (fence_cons (by decide)).mp fenced
    rcases (fence_append_cons (by decide)).mp hfenced with hraw | htext
    · exact ⟨_, List.mem_cons_self, hraw⟩
    · obtain ⟨literal, hmem, hliteral⟩ := ih htext
      exact ⟨literal, List.mem_cons_of_mem _ hmem, hliteral⟩

end Fences

end JsonText
