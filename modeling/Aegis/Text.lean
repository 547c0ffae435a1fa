import Mathlib.Data.List.DropRight

namespace Aegis

/-- The characters for which Python's `str.isspace` holds; `str.strip` removes these. -/
def isSpace (c : Char) : Bool :=
  let n := c.toNat
  (9 ≤ n && n ≤ 13) || (28 ≤ n && n ≤ 32) || n == 0x85 || n == 0xa0 || n == 0x1680 ||
    (0x2000 ≤ n && n ≤ 0x200a) || n == 0x2028 || n == 0x2029 || n == 0x202f || n == 0x205f ||
    n == 0x3000

theorem isUpper_eq (c : Char) : c.isUpper = decide (c.val ≥ 'A'.val ∧ c.val ≤ 'Z'.val) := rfl

theorem isLower_eq (c : Char) :
    c.isLower = (decide (c.val ≥ 'a'.val) && decide (c.val ≤ 'z'.val)) := rfl

theorem isAlpha_eq (c : Char) : c.isAlpha = (c.isUpper || c.isLower) := rfl

theorem toLower_of_upper {c : Char} (h : c.val ≥ 'A'.val ∧ c.val ≤ 'Z'.val) :
    c.toLower.val = c.val + ('a'.val - 'A'.val) :=
  congrArg Char.val (dif_pos h)

theorem toLower_of_not_upper {c : Char} (h : ¬(c.val ≥ 'A'.val ∧ c.val ≤ 'Z'.val)) :
    c.toLower = c :=
  dif_neg h

theorem isSpace_of_isAlphanum {c : Char} (h : c.isAlphanum = true) : isSpace c = false := by
  have bounds : 48 ≤ c.toNat ∧ c.toNat ≤ 122 := by
    simp only [Char.isAlphanum, isAlpha_eq, isUpper_eq, isLower_eq, Char.isDigit,
      Bool.or_eq_true, Bool.and_eq_true, decide_eq_true_eq, UInt32.le_iff_toNat_le, ge_iff_le] at h
    change _ ≤ c.val.toNat ∧ c.val.toNat ≤ _
    rcases h with (⟨low, high⟩ | ⟨low, high⟩) | ⟨low, high⟩ <;>
      exact ⟨le_trans (by decide) low, high.trans (by decide)⟩
  simp only [isSpace, Bool.or_eq_false_iff, Bool.and_eq_false_iff, decide_eq_false_iff_not,
    beq_eq_false_iff_ne]
  omega

/-- `str.strip()`. -/
def strip (s : String) : String :=
  String.ofList ((s.toList.dropWhile isSpace).rdropWhile isSpace)

/-- `str.strip` removes blanks only. -/
theorem mem_strip {s : String} {c : Char} (hc : c ∈ s.toList) (h : isSpace c = false) :
    c ∈ (strip s).toList := by
  rw [strip, String.toList_ofList]
  have hfront : c ∈ s.toList.dropWhile isSpace := by
    rw [← List.takeWhile_append_dropWhile (p := isSpace) (l := s.toList)] at hc
    rcases List.mem_append.mp hc with hblank | hrest
    · exact absurd (List.mem_takeWhile_imp hblank) (by simp [h])
    · exact hrest
  rw [← List.rdropWhile_append_rtakeWhile (p := isSpace) (l := s.toList.dropWhile isSpace)] at hfront
  rcases List.mem_append.mp hfront with hrest | hblank
  · exact hrest
  · exact absurd (List.mem_rtakeWhile_imp hblank) (by simp [h])

/-- `value or default` on strings: the empty string is falsy. -/
def orElse (value default : String) : String :=
  if value = "" then default else value

theorem orElse_of_ne {value default : String} (h : value ≠ "") : orElse value default = value :=
  if_neg h

theorem head_rdropWhile_not {p : Char → Bool} {x : Char} (xs : List Char) (hx : p x = false) :
    ∃ ys, (x :: xs).rdropWhile p = x :: ys := by
  induction xs using List.reverseRecOn with
  | nil => exact ⟨[], by rw [← List.nil_append [x], List.rdropWhile_concat_neg]; simp [hx]⟩
  | append_singleton xs y ih =>
    rw [← List.cons_append]
    by_cases hy : p y = true
    · rw [List.rdropWhile_concat_pos _ _ _ hy]
      exact ih
    · rw [List.rdropWhile_concat_neg _ _ _ hy]
      exact ⟨xs ++ [y], rfl⟩

theorem strip_strip (s : String) : strip (strip s) = strip s := by
  unfold strip
  rw [String.toList_ofList]
  have front : ((s.toList.dropWhile isSpace).rdropWhile isSpace).dropWhile isSpace =
      (s.toList.dropWhile isSpace).rdropWhile isSpace := by
    cases h : s.toList.dropWhile isSpace with
    | nil => simp
    | cons x xs =>
      have hx : isSpace x = false := by
        have hne : s.toList.dropWhile isSpace ≠ [] := by simp [h]
        simpa [h] using List.head_dropWhile_not isSpace hne
      obtain ⟨ys, hy⟩ := head_rdropWhile_not xs hx
      simp [hy, hx]
  rw [front, List.rdropWhile_idempotent]

theorem strip_length_le (s : String) : (strip s).length ≤ s.length := by
  have back : (s.toList.dropWhile isSpace).rdropWhile isSpace <+: s.toList.dropWhile isSpace :=
    List.rdropWhile_prefix isSpace _
  have h := (back.sublist.trans (List.dropWhile_sublist _)).length_le
  simpa only [strip, String.length_ofList, String.length_toList] using h

/-- Neither end of the text is white space. -/
structure VisibleEnds (s : List Char) : Prop where
  first : ∀ c, s.head? = some c → isSpace c = false
  last : ∀ c, s.getLast? = some c → isSpace c = false

theorem strip_eq_iff {text : String} : strip text = text ↔ VisibleEnds text.toList := by
  constructor
  · intro h
    have hlist : (text.toList.dropWhile isSpace).rdropWhile isSpace = text.toList := by
      have := congrArg String.toList h
      rwa [strip, String.toList_ofList] at this
    refine ⟨fun c hc => ?_, fun c hc => ?_⟩
    · obtain ⟨rest, hrest⟩ := List.head?_eq_some_iff.mp hc
      have hfront := List.rdropWhile_prefix isSpace (text.toList.dropWhile isSpace)
      rw [hlist, hrest] at hfront
      obtain ⟨later, hlater⟩ := hfront
      have hne : (c :: rest).dropWhile isSpace ≠ [] := by
        rw [← hlater]
        exact List.cons_ne_nil _ _
      have hhead := List.head_dropWhile_not isSpace hne
      simpa only [← hlater, List.cons_append, List.head_cons, Bool.not_eq_true] using hhead
    · obtain ⟨front, hfront⟩ := List.getLast?_eq_some_iff.mp hc
      have hne : (text.toList.dropWhile isSpace).rdropWhile isSpace ≠ [] := by
        rw [hlist, hfront]
        simp
      have hlast := List.rdropWhile_last_not isSpace (text.toList.dropWhile isSpace) hne
      have hget : ((text.toList.dropWhile isSpace).rdropWhile isSpace).getLast hne = c := by
        refine Option.some.inj ?_
        rw [← List.getLast?_eq_some_getLast hne, hlist, hc]
      rw [hget] at hlast
      exact Bool.eq_false_iff.mpr hlast
  · intro h
    have hfront : text.toList.dropWhile isSpace = text.toList := by
      cases hlist : text.toList with
      | nil => rfl
      | cons c rest =>
        have hc := h.first c (by rw [hlist]; rfl)
        exact List.dropWhile_cons_of_neg (by simp [hc])
    have hback : text.toList.rdropWhile isSpace = text.toList := by
      refine List.rdropWhile_eq_self_iff.mpr fun hne => ?_
      rw [h.last _ (List.getLast?_eq_some_getLast hne)]
      exact Bool.false_ne_true
    rw [strip, hfront, hback, String.ofList_toList]

theorem strip_eq_self_of_no_space {s : String} (h : ∀ c ∈ s.toList, isSpace c = false) :
    strip s = s :=
  strip_eq_iff.mpr ⟨fun c hc => h c (List.mem_of_head? hc), fun c hc => h c (List.mem_of_getLast? hc)⟩

theorem bind_ok {ε α β : Type} {x : Except ε α} {f : α → Except ε β} {b : β}
    (h : x.bind f = .ok b) : ∃ a, x = .ok a ∧ f a = .ok b := by
  cases x with
  | error e => cases h
  | ok a => exact ⟨a, rfl, h⟩

theorem map_ok {ε α β : Type} {x : Except ε α} {f : α → β} {b : β} (h : x.map f = .ok b) :
    ∃ a, x = .ok a ∧ f a = b := by
  cases x with
  | error e => cases h
  | ok a => exact ⟨a, rfl, Except.ok.inj h⟩

/-- A stripped text that is not empty and has at most `max` characters. -/
structure Token (max : Nat) where
  text : String
  stripped : strip text = text
  ne : text ≠ ""
  length_le : text.length ≤ max

/-- `_require_token`; the error is the text of its `ValidationError`. -/
def requireToken (max : Nat) (value fieldName : String) : Except String (Token max) :=
  if hne : strip value = "" then .error (fieldName ++ " must not be empty.")
  else if hle : max < (strip value).length then
    .error (fieldName ++ " must be at most " ++ toString max ++ " characters.")
  else .ok ⟨strip value, strip_strip value, hne, by omega⟩

theorem requireToken_text {max : Nat} {value fieldName : String} {token : Token max}
    (h : requireToken max value fieldName = .ok token) : token.text = strip value := by
  unfold requireToken at h
  split at h
  · cases h
  · split at h
    · cases h
    · cases h
      rfl

theorem requireToken_eq {max : Nat} {value fieldName : String} (hne : strip value ≠ "")
    (hle : (strip value).length ≤ max) :
    requireToken max value fieldName = .ok ⟨strip value, strip_strip value, hne, hle⟩ := by
  simp [requireToken, hne, Nat.not_lt.mpr hle]

example : strip " \t incident 7\n" = "incident 7" := by decide

end Aegis
