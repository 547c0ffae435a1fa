import Aegis.PlainText
import Aegis.Rca

namespace Aegis

/-- A text that `str.splitlines` leaves in one piece. -/
def SingleLine (text : List Char) : Prop := ∀ c ∈ text, isLineBreak c = false

section Single

variable {s t : List Char}

theorem singleLine_append : SingleLine (s ++ t) ↔ SingleLine s ∧ SingleLine t :=
  List.forall_mem_append

theorem SingleLine.noLineFeed (h : SingleLine s) : '\n' ∉ s := by
  intro hmem
  have := h '\n' hmem
  exact absurd this (by decide)

theorem singleLine_of_chars {chars : List Char} (drawn : ∀ c ∈ s, c ∈ chars)
    (plain : chars.all (fun c => !isLineBreak c) = true) : SingleLine s := by
  intro c hc
  simpa using List.all_eq_true.mp plain c (drawn c hc)

theorem singleLine_of_codes (h : ∀ c ∈ s, 32 ≤ c.toNat ∧ c.toNat ≤ 126) : SingleLine s := by
  intro c hc
  obtain ⟨low, high⟩ := h c hc
  simp only [isLineBreak, Bool.or_eq_false_iff, Bool.and_eq_false_iff, decide_eq_false_iff_not,
    beq_eq_false_iff_ne]
  omega

theorem singleLine_uuid (id : Uuid) : SingleLine id.str.toList :=
  singleLine_of_chars (uuid_chars id) (by decide)

theorem singleLine_hex {width n : Nat} : SingleLine (hexChars width n) :=
  singleLine_of_chars (fun _ => hexChars_mem) (by decide)

theorem singleLine_jsonUnit (n : Nat) : SingleLine (jsonUnit n) :=
  List.forall_mem_cons.mpr ⟨by decide, List.forall_mem_cons.mpr ⟨by decide, singleLine_hex⟩⟩

theorem singleLine_jsonChar (c : Char) : SingleLine (jsonChar c) := by
  unfold jsonChar
  dsimp only
  split
  · exact singleLine_of_chars (fun _ h => h) (by decide)
  split
  · exact singleLine_of_chars (fun _ h => h) (by decide)
  split
  · exact singleLine_of_chars (fun _ h => h) (by decide)
  split
  · exact singleLine_of_chars (fun _ h => h) (by decide)
  split
  · exact singleLine_of_chars (fun _ h => h) (by decide)
  split
  · exact singleLine_of_chars (fun _ h => h) (by decide)
  split
  · exact singleLine_of_chars (fun _ h => h) (by decide)
  split
  next hprint => exact singleLine_of_codes (List.forall_mem_singleton.mpr hprint)
  split
  · exact singleLine_jsonUnit _
  · exact singleLine_append.mpr ⟨singleLine_jsonUnit _, singleLine_jsonUnit _⟩

theorem singleLine_quote (text : String) : SingleLine (quoteUntrusted text).toList := by
  have marks : SingleLine ['"'] := singleLine_of_chars (fun _ h => h) (by decide)
  rw [quoteUntrusted, String.toList_ofList, ← List.singleton_append]
  refine singleLine_append.mpr ⟨singleLine_append.mpr ⟨marks, fun x hx => ?_⟩, marks⟩
  obtain ⟨c, _, hx⟩ := List.mem_flatMap.mp hx
  exact singleLine_jsonChar c x hx

theorem singleLine_intercalate {separator : String} {texts : List String}
    (hseparator : SingleLine separator.toList) (h : ∀ text ∈ texts, SingleLine text.toList) :
    SingleLine (String.intercalate separator texts).toList := by
  induction texts with
  | nil => exact fun c hc => absurd hc (by simp)
  | cons text texts ih =>
    obtain ⟨htext, htexts⟩ := List.forall_mem_cons.mp h
    cases texts with
    | nil => simpa using htext
    | cons next texts =>
      rw [String.intercalate_cons_cons, String.toList_append, String.toList_append]
      exact singleLine_append.mpr ⟨singleLine_append.mpr ⟨htext, hseparator⟩, ih htexts⟩

theorem singleLine_text (text : String) (h : text.toList.all (fun c => !isLineBreak c) = true) :
    SingleLine text.toList :=
  singleLine_of_chars (fun _ h => h) h

theorem isLineBreak_digit {c : Char} (h : c.isDigit = true) : isLineBreak c = false := by
  simp only [Char.isDigit, Bool.and_eq_true, decide_eq_true_eq, ge_iff_le,
    UInt32.le_iff_toNat_le] at h
  have low : 48 ≤ c.toNat := h.1
  have high : c.toNat ≤ 57 := h.2
  simp only [isLineBreak, Bool.or_eq_false_iff, Bool.and_eq_false_iff, decide_eq_false_iff_not,
    beq_eq_false_iff_ne]
  omega

theorem singleLine_float (repr : FloatText) : SingleLine repr.text.toList := by
  intro c hc
  have hplain := List.all_eq_true.mp repr.plain c hc
  simp only [isFloatChar, Bool.or_eq_true, decide_eq_true_eq] at hplain
  rcases hplain with (((hdigit | rfl) | rfl) | rfl) | rfl
  · exact isLineBreak_digit hdigit
  all_goals decide

theorem singleLine_int (n : Int) : SingleLine (toString n).toList := by
  have digits : ∀ m : Nat, SingleLine (toString m).toList := by
    intro m c hc
    have hmem : c ∈ Nat.toDigits 10 m := by simpa [toString, Nat.repr] using hc
    exact isLineBreak_digit (Nat.isDigit_of_mem_toDigits (by decide) (by decide) hmem)
  cases n with
  | ofNat m => exact digits m
  | negSucc m =>
    have hsplit : toString (Int.negSucc m) = "-" ++ toString (m + 1) := rfl
    rw [hsplit, String.toList_append]
    exact singleLine_append.mpr ⟨singleLine_text "-" (by decide), digits (m + 1)⟩

mutual

theorem singleLine_dumps (value : Value) : SingleLine value.dumps.toList := by
  cases value with
  | none => exact singleLine_text "null" (by decide)
  | bool b => cases b <;> exact singleLine_text _ (by decide)
  | int n =>
    simp only [Value.dumps]
    exact singleLine_int n
  | float repr =>
    simp only [Value.dumps]
    exact singleLine_float repr
  | str s =>
    simp only [Value.dumps]
    exact singleLine_quote s
  | list items =>
    simp only [Value.dumps, String.toList_append]
    have inside := singleLine_intercalate (singleLine_text ", " (by decide)) (singleLine_items items)
    exact singleLine_append.mpr ⟨singleLine_append.mpr
      ⟨singleLine_text "[" (by decide), inside⟩, singleLine_text "]" (by decide)⟩
  | obj fields =>
    simp only [Value.dumps, String.toList_append]
    have inside := singleLine_intercalate (singleLine_text ", " (by decide)) (singleLine_fields fields)
    exact singleLine_append.mpr ⟨singleLine_append.mpr
      ⟨singleLine_text "\x7b" (by decide), inside⟩, singleLine_text "\x7d" (by decide)⟩

theorem singleLine_items (items : List Value) :
    ∀ text ∈ dumpsItems items, SingleLine text.toList := by
  cases items with
  | nil => simp [dumpsItems]
  | cons item rest =>
    simp only [dumpsItems]
    exact List.forall_mem_cons.mpr ⟨singleLine_dumps item, singleLine_items rest⟩

theorem singleLine_fields (fields : List (String × Value)) :
    ∀ text ∈ dumpsFields fields, SingleLine text.toList := by
  cases fields with
  | nil => simp [dumpsFields]
  | cons entry rest =>
    obtain ⟨key, value⟩ := entry
    simp only [dumpsFields]
    refine List.forall_mem_cons.mpr ⟨?_, singleLine_fields rest⟩
    rw [String.toList_append, String.toList_append]
    exact singleLine_append.mpr ⟨singleLine_append.mpr
      ⟨singleLine_quote key, singleLine_text ": " (by decide)⟩, singleLine_dumps value⟩

end

end Single

end Aegis
