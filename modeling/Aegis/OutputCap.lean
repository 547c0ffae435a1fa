import Aegis.Limits

namespace Aegis

section Bytes

/-- The bytes of characters in UTF-8. -/
def byteLength (text : List Char) : Nat := (text.map Char.utf8Size).sum

theorem byteLength_cons (c : Char) (rest : List Char) :
    byteLength (c :: rest) = c.utf8Size + byteLength rest := by
  rw [byteLength, List.map_cons, List.sum_cons, ← byteLength]

theorem byteLength_append (text later : List Char) :
    byteLength (text ++ later) = byteLength text + byteLength later := by
  rw [byteLength, List.map_append, List.sum_append, ← byteLength, ← byteLength]

theorem length_le_byteLength (text : List Char) : text.length ≤ byteLength text := by
  induction text with
  | nil => exact Nat.zero_le _
  | cons c rest ih =>
    have hpos := c.utf8Size_pos
    rw [List.length_cons, byteLength_cons]
    omega

theorem utf8ByteSize_ofList (text : List Char) :
    (String.ofList text).utf8ByteSize = byteLength text := by
  induction text with
  | nil => rfl
  | cons c rest ih =>
    have hsplit : String.ofList (c :: rest) = String.singleton c ++ String.ofList rest := by
      rw [String.singleton_eq_ofList, ← String.ofList_append]
      rfl
    rw [hsplit, String.utf8ByteSize_append, String.utf8ByteSize_singleton, ih, byteLength_cons]

theorem takeBytes_beginning (budget : Nat) (text : List Char) : takeBytes budget text <+: text := by
  induction text generalizing budget with
  | nil => exact List.prefix_rfl
  | cons c rest ih =>
    rw [takeBytes]
    split
    · exact List.prefix_cons_inj c |>.mpr (ih _)
    · exact List.nil_prefix

/-- What is taken is all that fits: the next character is one too many. -/
theorem takeBytes_eq_iff {budget : Nat} {front : List Char} {c : Char} {rest : List Char} :
    takeBytes budget (front ++ c :: rest) = front ↔
      byteLength front ≤ budget ∧ budget < byteLength front + c.utf8Size := by
  induction front generalizing budget with
  | nil =>
    have hzero : byteLength [] = 0 := rfl
    rw [List.nil_append, takeBytes, hzero]
    split
    next hfits => exact ⟨fun h => absurd h (List.cons_ne_nil _ _), fun h => by omega⟩
    next hover => exact ⟨fun _ => by omega, fun _ => rfl⟩
  | cons d front ih =>
    rw [List.cons_append, takeBytes, byteLength_cons]
    split
    next hfits =>
      rw [List.cons.injEq, and_iff_right rfl, ih]
      omega
    next hover => exact ⟨fun h => absurd h (List.cons_ne_nil _ _).symm, fun h => by omega⟩

end Bytes

section Sizes

/-- The bytes of characters as they stand in a JSON string. -/
def quotedLength (text : List Char) : Nat := byteLength (text.flatMap jsonChar)

theorem quotedLength_append (text later : List Char) :
    quotedLength (text ++ later) = quotedLength text + quotedLength later := by
  rw [quotedLength, List.flatMap_append, byteLength_append, ← quotedLength, ← quotedLength]

theorem size_str (text : String) : (Value.str text).size = quotedLength text.toList + 2 := by
  rw [Value.size, Value.compact, quoteUntrusted, utf8ByteSize_ofList, List.cons_append,
    byteLength_cons, byteLength_append, ← quotedLength]
  have hquote : Char.utf8Size '"' = 1 := by decide
  have hlast : byteLength ['"'] = 1 := by decide
  omega

theorem length_jsonUnit (n : Nat) : (jsonUnit n).length = 6 := by
  simp [jsonUnit]

/-- No character is shorter in a JSON string than in the text. -/
theorem utf8Size_le_jsonChar (c : Char) : c.utf8Size ≤ byteLength (jsonChar c) := by
  have hfour := c.utf8Size_le_four
  have ascii : c.toNat ≤ 127 → c.utf8Size = 1 := fun h => Char.utf8Size_eq_one_iff.mpr h
  have some_byte : 1 ≤ byteLength (jsonChar c) := by
    refine le_trans ?_ (length_le_byteLength (jsonChar c))
    refine List.length_pos_of_ne_nil ?_
    unfold jsonChar
    dsimp only
    split_ifs <;> exact List.cons_ne_nil _ _
  by_cases hascii : c.toNat ≤ 127
  · rw [ascii hascii]
    exact some_byte
  · have hne : ∀ d : Char, d.toNat ≤ 127 → c ≠ d := fun d hd heq => hascii (heq ▸ hd)
    have hlen := length_le_byteLength (jsonChar c)
    unfold jsonChar at hlen ⊢
    rw [if_neg (hne _ (by decide)), if_neg (hne _ (by decide)), if_neg (hne _ (by decide)),
      if_neg (hne _ (by decide)), if_neg (hne _ (by decide)), if_neg (by omega),
      if_neg (by omega), if_neg (by omega)] at hlen ⊢
    split at hlen
    next hunit =>
      rw [if_pos hunit]
      rw [length_jsonUnit] at hlen
      omega
    next hpair =>
      rw [if_neg hpair]
      rw [List.length_append, length_jsonUnit] at hlen
      omega

theorem byteLength_le_quotedLength (text : List Char) : byteLength text ≤ quotedLength text := by
  induction text with
  | nil => exact Nat.zero_le _
  | cons c rest ih =>
    have hfirst := utf8Size_le_jsonChar c
    rw [byteLength_cons, quotedLength, List.flatMap_cons, byteLength_append, ← quotedLength]
    omega

theorem size_truncateText (text : String) (maxBytes : Nat) :
    (Value.str (truncateText text maxBytes)).size =
      quotedLength (takeBytes (maxBytes - 11) text.toList) + 13 := by
  have hmarker : quotedLength truncatedMarker.toList = 11 := by decide
  have hbytes : truncatedMarker.utf8ByteSize = 11 := by decide
  rw [size_str, truncateText, String.toList_append, String.toList_ofList, quotedLength_append,
    hmarker, hbytes]

theorem utf8ByteSize_intercalate (texts : List String) :
    (String.intercalate "," texts).utf8ByteSize =
      (texts.map String.utf8ByteSize).sum + (texts.length - 1) := by
  induction texts with
  | nil => rfl
  | cons text rest ih =>
    cases hrest : rest with
    | nil => simp
    | cons next later =>
      have hcomma : ",".utf8ByteSize = 1 := by decide
      rw [hrest] at ih
      rw [String.intercalate_cons_cons, String.utf8ByteSize_append, String.utf8ByteSize_append, ih,
        hcomma]
      simp only [List.map_cons, List.sum_cons, List.length_cons]
      omega

theorem size_list (items : List Value) :
    (Value.list items).size = (items.map Value.size).sum + (items.length - 1) + 2 := by
  have hopen : "[".utf8ByteSize = 1 := by decide
  have hclose : "]".utf8ByteSize = 1 := by decide
  have hsizes : (items.map Value.compact).map String.utf8ByteSize = items.map Value.size := by
    rw [List.map_map]
    rfl
  rw [Value.size, Value.compact, String.utf8ByteSize_append, String.utf8ByteSize_append,
    utf8ByteSize_intercalate, compactItems_eq, hsizes, List.length_map, hopen, hclose]
  omega

theorem size_list_mono {short long : List Value} (h : short <+: long) :
    (Value.list short).size ≤ (Value.list long).size := by
  obtain ⟨later, rfl⟩ := h
  rw [size_list, size_list, List.map_append, List.sum_append, List.length_append]
  omega

end Sizes

section Items

variable {maxBytes : Nat}

theorem capItems_spec (kept items : List Value) :
    ∃ front rest, items = front ++ rest ∧ capItems maxBytes kept items = kept ++ front ∧
      (front ≠ [] → (Value.list (kept ++ front)).size ≤ maxBytes) ∧
      ∀ item later, rest = item :: later →
        maxBytes < (Value.list (kept ++ front ++ [item])).size := by
  induction items generalizing kept with
  | nil => exact ⟨[], [], rfl, by simp [capItems], by simp, by simp⟩
  | cons item rest ih =>
    rw [capItems]
    by_cases hover : maxBytes < (Value.list (kept ++ [item])).size
    · refine ⟨[], item :: rest, rfl, by rw [if_pos hover, List.append_nil], by simp, ?_⟩
      rintro _ _ hitem
      rw [← (List.cons.inj hitem).1, List.append_nil]
      exact hover
    · obtain ⟨front, later, hrest, hkept, hfits, hmost⟩ := ih (kept ++ [item])
      rw [List.append_assoc, List.singleton_append] at hkept hfits hmost
      refine ⟨item :: front, later, by rw [hrest]; rfl, by rw [if_neg hover, hkept], ?_, hmost⟩
      intro _
      by_cases hfront : front = []
      · rw [hfront]
        exact Nat.le_of_not_lt hover
      · exact hfits hfront

/-- The longest beginning of a list that fits, one item at least. -/
structure LongestFitting (maxBytes : Nat) (items kept : List Value) : Prop where
  nonempty : kept ≠ []
  beginning : kept <+: items
  fits : (Value.list kept).size ≤ maxBytes
  most : ∀ longer, longer <+: items → (Value.list longer).size ≤ maxBytes →
    longer.length ≤ kept.length

theorem capItems_longest {items : List Value} (h : capItems maxBytes [] items ≠ []) :
    LongestFitting maxBytes items (capItems maxBytes [] items) := by
  obtain ⟨front, rest, hitems, hkept, hfits, hmost⟩ := @capItems_spec maxBytes [] items
  rw [List.nil_append] at hkept hfits hmost
  rw [hkept] at h ⊢
  refine ⟨h, ⟨rest, hitems.symm⟩, hfits h, fun longer hprefix hsize => ?_⟩
  by_contra hlonger
  cases rest with
  | nil =>
    have := hprefix.length_le
    rw [hitems, List.append_nil] at this
    omega
  | cons item later =>
    have hnext : front ++ [item] <+: items := by
      rw [hitems]
      exact ⟨later, by simp⟩
    have hinside : front ++ [item] <+: longer :=
      List.prefix_of_prefix_length_le hnext hprefix (by
        rw [List.length_append, List.length_singleton]
        omega)
    have := size_list_mono hinside
    have := hmost item later rfl
    omega

end Items

/-- The output cap meets the bound it checks: what fits is returned as it is, and what comes out of
anything else fits, a list as its longest beginning that does, a text cut short and marked. -/
structure CapMeets (maxBytes : Nat) (value : Value) : Prop where
  unchanged : value.size ≤ maxBytes → capOutput maxBytes value = .ok ⟨value, false⟩
  bounded : maxBytes < value.size → ∀ capped, capOutput maxBytes value = .ok capped →
    capped.value.size ≤ maxBytes ∧
      capOutput maxBytes capped.value = .ok ⟨capped.value, false⟩
  list : maxBytes < value.size → ∀ capped, capOutput maxBytes value = .ok capped →
    ∀ items, value = .list items →
      ∃ kept, capped.value = .list kept ∧ LongestFitting maxBytes items kept
  text : maxBytes < value.size → ∀ capped, capOutput maxBytes value = .ok capped →
    ∀ text, value = .str text →
      ∃ cut, capped.value = .str (cut ++ truncatedMarker) ∧ cut.toList <+: text.toList ∧ cut ≠ text

/-- The text has a beginning that leaves room for the quotes and the marker, even with the escapes
of JSON, and the character after it has more bytes than the marker leaves room for. -/
def RoomForMarker (maxBytes : Nat) (text : List Char) : Prop :=
  ∃ front c rest, text = front ++ c :: rest ∧ quotedLength front + 13 ≤ maxBytes ∧
    maxBytes < byteLength front + c.utf8Size + 11

theorem capOutput_of_fits {maxBytes : Nat} {value : Value} (h : value.size ≤ maxBytes) :
    capOutput maxBytes value = .ok ⟨value, false⟩ := by
  unfold capOutput
  rw [if_pos h]

theorem capOutput_text {maxBytes : Nat} {text : String}
    (h : maxBytes < (Value.str text).size) :
    capOutput maxBytes (.str text) = .ok ⟨.str (truncateText text maxBytes), false⟩ := by
  unfold capOutput
  rw [if_neg (Nat.not_le.mpr h)]

theorem capMeets_of_fits {maxBytes : Nat} {value : Value} (h : value.size ≤ maxBytes) :
    CapMeets maxBytes value :=
  ⟨fun _ => capOutput_of_fits h, fun hover => absurd h (Nat.not_le.mpr hover),
    fun hover => absurd h (Nat.not_le.mpr hover), fun hover => absurd h (Nat.not_le.mpr hover)⟩

theorem capMeets_list (maxBytes : Nat) (items : List Value) : CapMeets maxBytes (.list items) := by
  by_cases hfits : (Value.list items).size ≤ maxBytes
  · exact capMeets_of_fits hfits
  have hcap : ∀ capped, capOutput maxBytes (.list items) = .ok capped →
      LongestFitting maxBytes items (capItems maxBytes [] items) ∧
        capped.value = .list (capItems maxBytes [] items) := by
    intro capped hcapped
    rw [capOutput, if_neg hfits] at hcapped
    dsimp only at hcapped
    by_cases hkept : capItems maxBytes [] items = []
    · rw [hkept] at hcapped
      cases hcapped
    · rw [if_neg (by simpa using hkept)] at hcapped
      exact ⟨capItems_longest hkept, by rw [← Except.ok.inj hcapped]⟩
  refine ⟨fun h => absurd h hfits, fun _ capped hcapped => ?_, fun _ capped hcapped => ?_,
    fun _ _ _ text htext => absurd htext (by simp)⟩
  · obtain ⟨hlongest, hvalue⟩ := hcap capped hcapped
    rw [hvalue]
    exact ⟨hlongest.fits, capOutput_of_fits hlongest.fits⟩
  · rintro _ hitems
    obtain rfl := Value.list.inj hitems
    obtain ⟨hlongest, hvalue⟩ := hcap capped hcapped
    exact ⟨_, hvalue, hlongest⟩

/-- Neither a text nor a list: nothing comes out of it when it does not fit. -/
theorem capMeets_other {maxBytes : Nat} {value : Value} (notText : ∀ text, value ≠ .str text)
    (notList : ∀ items, value ≠ .list items) : CapMeets maxBytes value := by
  by_cases hfits : value.size ≤ maxBytes
  · exact capMeets_of_fits hfits
  have hdenied : ∀ capped, capOutput maxBytes value ≠ .ok capped := by
    intro capped hcapped
    unfold capOutput at hcapped
    rw [if_neg hfits] at hcapped
    cases value with
    | str text => exact notText text rfl
    | list items => exact notList items rfl
    | none => cases hcapped
    | bool b => cases hcapped
    | int n => cases hcapped
    | float repr => cases hcapped
    | obj fields => cases hcapped
  exact ⟨fun h => absurd h hfits, fun _ capped h => absurd h (hdenied capped),
    fun _ capped h => absurd h (hdenied capped), fun _ capped h => absurd h (hdenied capped)⟩

theorem capMeets_text_iff {maxBytes : Nat} {text : String}
    (hover : maxBytes < (Value.str text).size) :
    CapMeets maxBytes (.str text) ↔ RoomForMarker maxBytes text.toList := by
  have hcap := capOutput_text hover
  have hsize := size_truncateText text maxBytes
  obtain ⟨rest, hrest⟩ := takeBytes_beginning (maxBytes - 11) text.toList
  constructor
  · intro meets
    obtain ⟨hbound, _⟩ := meets.bounded hover _ hcap
    dsimp only at hbound
    obtain ⟨cut, hvalue, _, hcut⟩ := meets.text hover _ hcap text rfl
    cases rest with
    | nil =>
      rw [List.append_nil] at hrest
      have hlists := congrArg String.toList (Value.str.inj hvalue)
      rw [truncateText, String.toList_append, String.toList_append, String.toList_ofList] at hlists
      exact absurd (String.toList_injective ((List.append_cancel_right hlists).symm.trans hrest)) hcut
    | cons c rest =>
      refine ⟨_, c, rest, hrest.symm, by omega, ?_⟩
      have := (takeBytes_eq_iff.mp (by rw [hrest] : takeBytes (maxBytes - 11)
        (takeBytes (maxBytes - 11) text.toList ++ c :: rest) = _)).2
      omega
  · rintro ⟨front, c, rest, htext, hroom, hnext⟩
    have hbytes := byteLength_le_quotedLength front
    have hcut : takeBytes (maxBytes - 11) text.toList = front := by
      rw [htext]
      exact takeBytes_eq_iff.mpr (by omega)
    rw [hcut] at hsize
    have hfits : (Value.str (truncateText text maxBytes)).size ≤ maxBytes := by omega
    have hmarker : truncatedMarker.utf8ByteSize = 11 := by decide
    refine ⟨fun h => absurd h (Nat.not_le.mpr hover), fun _ capped hcapped => ?_,
      fun _ _ _ items hitems => absurd hitems (by simp), fun _ capped hcapped other hother => ?_⟩
    · rw [← Except.ok.inj (hcap.symm.trans hcapped)]
      exact ⟨hfits, capOutput_of_fits hfits⟩
    · rw [← Except.ok.inj (hcap.symm.trans hcapped), ← Value.str.inj hother]
      refine ⟨String.ofList front, by rw [truncateText, hmarker, hcut], ?_, fun heq => ?_⟩
      · rw [String.toList_ofList, htext]
        exact List.prefix_append _ _
      · rw [← heq, String.toList_ofList] at htext
        have := congrArg List.length htext
        simp at this

/-- When the output cap meets its bound: for every value but a text that does not fit, and for such a
text when its beginning leaves room for the marker. -/
theorem capOutput_meets_iff (maxBytes : Nat) (value : Value) :
    CapMeets maxBytes value ↔
      ∀ text, value = .str text → value.size ≤ maxBytes ∨ RoomForMarker maxBytes text.toList := by
  by_cases hfits : value.size ≤ maxBytes
  · exact ⟨fun _ _ _ => .inl hfits, fun _ => capMeets_of_fits hfits⟩
  cases value with
  | str text =>
    rw [capMeets_text_iff (Nat.lt_of_not_le hfits)]
    refine ⟨fun h other hother => ?_, fun h => (h text rfl).resolve_left hfits⟩
    obtain rfl := Value.str.inj hother
    exact .inr h
  | list items => exact ⟨fun _ text h => absurd h (by simp), fun _ => capMeets_list maxBytes items⟩
  | none => exact ⟨fun _ text h => absurd h (by simp), fun _ => capMeets_other (by simp) (by simp)⟩
  | bool b => exact ⟨fun _ text h => absurd h (by simp), fun _ => capMeets_other (by simp) (by simp)⟩
  | int n => exact ⟨fun _ text h => absurd h (by simp), fun _ => capMeets_other (by simp) (by simp)⟩
  | float repr => exact ⟨fun _ text h => absurd h (by simp), fun _ => capMeets_other (by simp) (by simp)⟩
  | obj fields => exact ⟨fun _ text h => absurd h (by simp), fun _ => capMeets_other (by simp) (by simp)⟩

/-- Twenty letters cut to thirteen bytes come out as fifteen, counting the quotes. -/
theorem cut_text_too_long :
    ¬∀ (maxBytes : Nat) (value : Value), 13 ≤ maxBytes → CapMeets maxBytes value := by
  intro h
  have hsize := size_str "aaaaaaaaaaaaaaaaaaaa"
  have hcut := size_truncateText "aaaaaaaaaaaaaaaaaaaa" 13
  have hlong : quotedLength "aaaaaaaaaaaaaaaaaaaa".toList = 20 := by decide
  have hfront : quotedLength (takeBytes (13 - 11) "aaaaaaaaaaaaaaaaaaaa".toList) = 2 := by decide
  have hover : 13 < (Value.str "aaaaaaaaaaaaaaaaaaaa").size := by omega
  have hbound := ((h 13 _ le_rfl).bounded hover _ (capOutput_text hover)).1
  dsimp only at hbound
  omega

end Aegis
