import Aegis.JsonReading
import Aegis.Limits

namespace Aegis

open JsonReader

/-- `int(literal)` -/
def intOf : List Char → Int
  | [] => 0
  | c :: rest =>
    if c = '-' then -(Nat.ofDigitChars 10 rest 0 : Int) else (Nat.ofDigitChars 10 (c :: rest) 0 : Int)

def isFloatLiteral (text : List Char) : Bool := text.any fun c => c = '.' || c = 'e' || c = 'E'

section Loads

-- `float(literal)`, as the `repr` of the float; nothing for an infinite one
variable (toFloat : List Char → Option FloatText)

mutual

/-- The object of a JSON value. Of fields with one key the last counts, at the first one's place. -/
def ofJson : Json → Option Value
  | .null => some .none
  | .bool b => some (.bool b)
  | .number text =>
    if isFloatLiteral text then (toFloat text).map Value.float else some (.int (intOf text))
  | .string text => some (.str (String.ofList text))
  | .array items => (ofItems items).map Value.list
  | .object fields => (ofEntries [] fields).map Value.obj

def ofItems : List Json → Option (List Value)
  | [] => some []
  | item :: rest => (ofJson item).bind fun value => (ofItems rest).map fun more => value :: more

def ofEntries : Fields → List (List Char × Json) → Option Fields
  | dict, [] => some dict
  | dict, (key, item) :: rest =>
    (ofJson item).bind fun value => ofEntries (Dict.set dict (String.ofList key) value) rest

end

/-- `json.loads`; nothing where it raises. It reads JSON alone: of `NaN` and `Infinity`, a float that
is infinite and half of a surrogate pair, which `json.loads` takes, it reads nothing. -/
def loads (text : String) : Option Value := (JsonReader.read text.toList).bind (ofJson toFloat)

end Loads

mutual

/-- The JSON value of an object. -/
def Value.json : Value → Json
  | .none => .null
  | .bool b => .bool b
  | .int n => .number (toString n).toList
  | .float repr => .number repr.text.toList
  | .str s => .string s.toList
  | .list items => .array (jsonItems items)
  | .obj fields => .object (jsonFields fields)

def jsonItems : List Value → List Json
  | [] => []
  | item :: rest => item.json :: jsonItems rest

def jsonFields : List (String × Value) → List (List Char × Json)
  | [] => []
  | (key, value) :: rest => (key.toList, value.json) :: jsonFields rest

end

/-- A float whose `repr` is a literal that `float` reads back. -/
structure FloatText.Readable (toFloat : List Char → Option FloatText) (float : FloatText) :
    Prop where
  isNumber : IsNumber float.text.toList
  isFloat : isFloatLiteral float.text.toList = true
  reads : toFloat float.text.toList = some float

mutual

/-- Data whose dicts have each key once, as every `dict` does, and whose floats are readable. -/
def Value.Plain (toFloat : List Char → Option FloatText) : Value → Prop
  | .float repr => repr.Readable toFloat
  | .list items => PlainItems toFloat items
  | .obj fields => (fields.map Prod.fst).Nodup ∧ PlainFields toFloat fields
  | _ => True

def PlainItems (toFloat : List Char → Option FloatText) : List Value → Prop
  | [] => True
  | item :: rest => item.Plain toFloat ∧ PlainItems toFloat rest

def PlainFields (toFloat : List Char → Option FloatText) : List (String × Value) → Prop
  | [] => True
  | (_, value) :: rest => value.Plain toFloat ∧ PlainFields toFloat rest

end

section Strings

theorem hexDigit_digitChar : ∀ n < 16, hexDigit (Nat.digitChar n) = n := by decide

theorem isHex_of_isHexDigit {c : Char} (h : isHexDigit c = true) : isHex c = true := by
  unfold isHexDigit at h
  unfold isHex
  rcases Bool.or_eq_true_iff.mp h with hdigit | hletter
  · have : c.isDigit = true := hdigit
    rw [this]
    rfl
  · rw [hletter]
    simp

theorem isUnit_hexChars {n : Nat} (h : n < 0x10000) : IsUnit (hexChars 4 n) n := by
  refine ⟨hexChars_length 4 n, fun c hc => isHex_of_isHexDigit (hexChars_isHexDigit hc), ?_⟩
  rw [hexNumber, foldl_hexChars hexDigit_digitChar, Nat.zero_mul, Nat.zero_add]
  exact Nat.mod_eq_of_lt h

theorem spelled_char (c : Char) {raw s : List Char} (h : Spelled raw s) :
    Spelled (jsonChar c ++ raw) (c :: s) := by
  have simple : ∀ e, simpleEscapes.lookup e = some c → Spelled ('\\' :: e :: raw) (c :: s) :=
    fun e known => .escape (.simple known) h
  unfold jsonChar
  dsimp only
  by_cases hquote : c = '"'
  · rw [if_pos hquote]
    exact simple '"' (by rw [hquote]; rfl)
  rw [if_neg hquote]
  by_cases hback : c = '\\'
  · rw [if_pos hback]
    exact simple '\\' (by rw [hback]; rfl)
  rw [if_neg hback]
  by_cases hnewline : c = '\n'
  · rw [if_pos hnewline]
    exact simple 'n' (by rw [hnewline]; rfl)
  rw [if_neg hnewline]
  by_cases hreturn : c = '\r'
  · rw [if_pos hreturn]
    exact simple 'r' (by rw [hreturn]; rfl)
  rw [if_neg hreturn]
  by_cases htab : c = '\t'
  · rw [if_pos htab]
    exact simple 't' (by rw [htab]; rfl)
  rw [if_neg htab]
  by_cases hbackspace : c.toNat = 8
  · rw [if_pos hbackspace]
    have hc : c = '\x08' := Char.toNat_inj.mp hbackspace
    exact simple 'b' (by rw [hc]; rfl)
  rw [if_neg hbackspace]
  by_cases hfeed : c.toNat = 12
  · rw [if_pos hfeed]
    have hc : c = '\x0c' := Char.toNat_inj.mp hfeed
    exact simple 'f' (by rw [hc]; rfl)
  rw [if_neg hfeed]
  by_cases hplain : 32 ≤ c.toNat ∧ c.toNat ≤ 126
  · rw [if_pos hplain]
    exact .plain hquote hback hplain.1 h
  rw [if_neg hplain]
  have valid : c.toNat < 0xd800 ∨ 0xdfff < c.toNat ∧ c.toNat < 0x110000 := c.valid
  by_cases hbasic : c.toNat < 0x10000
  · rw [if_pos hbasic]
    have hunit := Spelled.escape (.unit (isUnit_hexChars hbasic) (by omega)) h
    rwa [Char.ofNat_toNat] at hunit
  · rw [if_neg hbasic]
    have hpair := Spelled.escape (.pair
      (@isUnit_hexChars (0xd800 + (c.toNat - 0x10000) / 0x400) (by omega)) (by omega) (by omega)
      (@isUnit_hexChars (0xdc00 + (c.toNat - 0x10000) % 0x400) (by omega)) (by omega) (by omega)) h
    have hsum : 0x10000 + (0xd800 + (c.toNat - 0x10000) / 0x400 - 0xd800) * 0x400 +
        (0xdc00 + (c.toNat - 0x10000) % 0x400 - 0xdc00) = c.toNat := by omega
    rw [hsum, Char.ofNat_toNat] at hpair
    exact hpair

theorem spelled_quote (text : List Char) : Spelled (text.flatMap jsonChar) text := by
  induction text with
  | nil => exact .nil
  | cons c rest ih =>
    rw [List.flatMap_cons]
    exact spelled_char c ih

theorem text_quote (s : String) : Text (.string s.toList) (quoteUntrusted s).toList := by
  rw [quoteUntrusted, String.toList_ofList, List.cons_append]
  exact .string (spelled_quote s.toList)

end Strings

section Integers

theorem toDigits_digits (n : Nat) : Digits (Nat.toDigits 10 n) :=
  ⟨Nat.toDigits_ne_nil, fun _ hc => Nat.isDigit_of_mem_toDigits (by decide) (by decide) hc⟩

theorem toDigits_head {n : Nat} (h : 0 < n) : (Nat.toDigits 10 n).head? ≠ some '0' := by
  induction n using Nat.strongRecOn with
  | ind n ih =>
    rw [Nat.toDigits_eq_if (by decide)]
    split
    next hlt =>
      intro hhead
      have hzero : Nat.digitChar n = Nat.digitChar 0 := Option.some.inj hhead
      have := digitChar_inj (by omega) (by omega) hzero
      omega
    next hle =>
      have hne : Nat.toDigits 10 (n / 10) ≠ [] := Nat.toDigits_ne_nil
      obtain ⟨d, ds, hdigits⟩ := List.exists_cons_of_ne_nil hne
      have hrest := ih (n / 10) (by omega) (by omega)
      rw [hdigits] at hrest ⊢
      exact hrest

theorem isInteger_toDigits (n : Nat) : IsInteger (Nat.toDigits 10 n) := by
  cases n with
  | zero => exact .inl (Nat.toDigits_zero 10)
  | succ n => exact .inr ⟨toDigits_digits _, toDigits_head (Nat.succ_pos n)⟩

theorem toList_int (n : Int) : (toString n).toList =
    (if n < 0 then ['-'] else []) ++ Nat.toDigits 10 n.natAbs := by
  cases n with
  | ofNat n =>
    have hnonneg : ¬Int.ofNat n < 0 := not_lt.mpr (Int.natCast_nonneg n)
    rw [if_neg hnonneg, List.nil_append]
    exact Nat.toList_repr
  | negSucc n =>
    rw [if_pos (Int.negSucc_lt_zero n)]
    change ("-" ++ Nat.repr (n + 1)).toList = _
    rw [String.toList_append, Nat.toList_repr]
    rfl

theorem isNumber_int (n : Int) : IsNumber (toString n).toList := by
  refine ⟨if n < 0 then ['-'] else [], Nat.toDigits 10 n.natAbs, [], [], ?_, ?_,
    isInteger_toDigits _, .inl rfl, .inl rfl⟩
  · rw [toList_int, List.append_nil, List.append_nil]
  · split
    · exact .inr rfl
    · exact .inl rfl

theorem isFloatLiteral_int (n : Int) : isFloatLiteral (toString n).toList = false := by
  have digit : ∀ c ∈ Nat.toDigits 10 n.natAbs, ¬(c = '.' ∨ c = 'e' ∨ c = 'E') := by
    intro c hc hmark
    have hdigit := (toDigits_digits n.natAbs).2 c hc
    rcases hmark with rfl | rfl | rfl <;> exact absurd hdigit (by decide)
  have hdigits : isFloatLiteral (Nat.toDigits 10 n.natAbs) = false :=
    List.any_eq_false.mpr fun c hc => by simpa [or_assoc] using digit c hc
  unfold isFloatLiteral at hdigits ⊢
  rw [toList_int, List.any_append, hdigits]
  split <;> rfl

theorem intOf_int (n : Int) : intOf (toString n).toList = n := by
  rw [toList_int]
  by_cases hneg : n < 0
  · rw [if_pos hneg, List.singleton_append, intOf, if_pos rfl, Nat.ofDigitChars_ten_toDigits]
    omega
  · obtain ⟨d, ds, hdigits⟩ := List.exists_cons_of_ne_nil (@Nat.toDigits_ne_nil n.natAbs 10)
    have hd : d ≠ '-' := by
      rintro rfl
      have := (toDigits_digits n.natAbs).2 '-' (by rw [hdigits]; exact List.mem_cons_self)
      exact absurd this (by decide)
    rw [if_neg hneg, List.nil_append, hdigits, intOf, if_neg hd, ← hdigits,
      Nat.ofDigitChars_ten_toDigits]
    omega

end Integers

section Writers

variable {toFloat : List Char → Option FloatText} {gap : List Char} {write : Value → String}

/-- A writer of JSON texts that puts a gap behind each comma and colon. -/
structure Writer (gap : List Char) (write : Value → String) : Prop where
  blank : Blank gap
  none : write .none = "null"
  bool : ∀ b, write (.bool b) = if b then "true" else "false"
  int : ∀ n, write (.int n) = toString n
  float : ∀ repr, write (.float repr) = repr.text
  str : ∀ s, write (.str s) = quoteUntrusted s
  list : ∀ items, (write (.list items)).toList =
    '[' :: ((',' :: gap).intercalate (items.map fun item => (write item).toList) ++ [']'])
  obj : ∀ fields, (write (.obj fields)).toList =
    '\x7b' :: ((',' :: gap).intercalate (fields.map fun field =>
      (quoteUntrusted field.1).toList ++ ':' :: (gap ++ (write field.2).toList)) ++ ['\x7d'])

theorem items_intercalate (blank : Blank gap) {item : Json} {js : List Json} {t : List Char}
    {ts : List (List Char)} (hitem : Text item t) (h : List.Forall₂ Text js ts)
    {front : List Char} (before : Blank front) :
    Items (item :: js) (front ++ ((',' :: gap).intercalate (t :: ts) ++ [']'])) := by
  induction h generalizing item t front with
  | nil =>
    rw [List.intercalate_singleton]
    exact .last before hitem blank_nil
  | @cons next u js us hnext _ ih =>
    have hmore := @Items.more item (next :: js) front t [] _ before hitem blank_nil (ih hnext blank)
    rw [List.intercalate_cons_cons]
    simpa using hmore

/-- A field and its text, with a gap behind the colon. -/
def FieldText (gap : List Char) (field : List Char × Json) (t : List Char) : Prop :=
  ∃ raw text, t = '"' :: (raw ++ '"' :: ':' :: (gap ++ text)) ∧ Spelled raw field.1 ∧
    Text field.2 text

theorem entries_intercalate (blank : Blank gap) {field : List Char × Json}
    {fields : List (List Char × Json)} {t : List Char} {ts : List (List Char)}
    (hfield : FieldText gap field t) (h : List.Forall₂ (FieldText gap) fields ts)
    {front : List Char} (before : Blank front) :
    Entries (field :: fields) (front ++ ((',' :: gap).intercalate (t :: ts) ++ ['\x7d'])) := by
  induction h generalizing field t front with
  | nil =>
    obtain ⟨raw, text, rfl, spelled, isText⟩ := hfield
    have hlast := @Entries.last field.1 raw field.2 front [] gap text [] before spelled
      blank_nil blank isText blank_nil
    rw [List.intercalate_singleton]
    simpa using hlast
  | @cons next u fields us hnext _ ih =>
    obtain ⟨raw, text, rfl, spelled, isText⟩ := hfield
    have hmore := @Entries.more field.1 raw field.2 (next :: fields) front [] gap text [] _ before
      spelled blank_nil blank isText blank_nil (ih hnext blank)
    rw [List.intercalate_cons_cons]
    simpa using hmore

mutual

/-- A writer writes the JSON value of what it is given. -/
theorem text_write (w : Writer gap write) :
    ∀ value : Value, value.Plain toFloat → Text value.json (write value).toList
  | .none, _ => by rw [w.none]; exact .null
  | .bool true, _ => by rw [w.bool]; exact .true
  | .bool false, _ => by rw [w.bool]; exact .false
  | .int n, _ => by rw [w.int]; exact .number (isNumber_int n)
  | .float repr, h => by
    rw [w.float]
    exact .number (FloatText.Readable.isNumber h)
  | .str s, _ => by rw [w.str]; exact text_quote s
  | .list [], _ => by rw [w.list]; exact .noItems blank_nil
  | .list (item :: rest), h => by
    rw [w.list]
    exact .array (items_intercalate w.blank (text_write w item h.1) (texts_write w rest h.2)
      blank_nil)
  | .obj [], _ => by rw [w.obj]; exact .noFields blank_nil
  | .obj ((key, value) :: rest), h => by
    rw [w.obj]
    refine .object (entries_intercalate w.blank ?_ (fieldTexts_write w rest h.2.2) blank_nil)
    exact ⟨key.toList.flatMap jsonChar, _, by simp [quoteUntrusted], spelled_quote key.toList,
      text_write w value h.2.1⟩

theorem texts_write (w : Writer gap write) : ∀ items : List Value, PlainItems toFloat items →
    List.Forall₂ Text (jsonItems items) (items.map fun item => (write item).toList)
  | [], _ => .nil
  | item :: rest, h => .cons (text_write w item h.1) (texts_write w rest h.2)

theorem fieldTexts_write (w : Writer gap write) :
    ∀ fields : List (String × Value), PlainFields toFloat fields →
      List.Forall₂ (FieldText gap) (jsonFields fields) (fields.map fun field =>
        (quoteUntrusted field.1).toList ++ ':' :: (gap ++ (write field.2).toList))
  | [], _ => .nil
  | (key, value) :: rest, h =>
    .cons ⟨key.toList.flatMap jsonChar, _, by simp [quoteUntrusted], spelled_quote key.toList,
      text_write w value h.1⟩ (fieldTexts_write w rest h.2)

end

mutual

theorem ofJson_json : ∀ value : Value, value.Plain toFloat → ofJson toFloat value.json = some value
  | .none, _ => rfl
  | .bool _, _ => rfl
  | .int n, _ => by
    rw [Value.json, ofJson, isFloatLiteral_int, intOf_int]
    rfl
  | .float repr, h => by
    rw [Value.json, ofJson, if_pos (FloatText.Readable.isFloat h), FloatText.Readable.reads h]
    rfl
  | .str s, _ => by rw [Value.json, ofJson, String.ofList_toList]
  | .list items, h => by
    rw [Value.json, ofJson, ofItems_json items h]
    rfl
  | .obj fields, h => by
    rw [Value.json, ofJson, ofEntries_json fields h.2 [] h.1]
    rfl

theorem ofItems_json : ∀ items : List Value, PlainItems toFloat items →
    ofItems toFloat (jsonItems items) = some items
  | [], _ => rfl
  | item :: rest, h => by
    rw [jsonItems, ofItems, ofJson_json item h.1, Option.bind_some, ofItems_json rest h.2]
    rfl

theorem ofEntries_json : ∀ fields : List (String × Value), PlainFields toFloat fields →
    ∀ dict : Fields, ((dict ++ fields).map Prod.fst).Nodup →
      ofEntries toFloat dict (jsonFields fields) = some (dict ++ fields)
  | [], _, dict, _ => by rw [jsonFields, ofEntries, List.append_nil]
  | (key, value) :: rest, h, dict, distinct => by
    have fresh : key ∉ dict.map Prod.fst := by
      rw [List.map_append, List.map_cons] at distinct
      exact fun hkey => (List.nodup_append.mp distinct).2.2 key hkey key List.mem_cons_self rfl
    have hdict : dict ++ (key, value) :: rest = dict ++ [(key, value)] ++ rest := by
      rw [List.append_assoc, List.singleton_append]
    rw [jsonFields, ofEntries, ofJson_json value h.1, Option.bind_some, String.ofList_toList,
      Dict.set_fresh fresh, hdict]
    rw [hdict] at distinct
    exact ofEntries_json rest h.2 _ distinct

end

/-- What a writer wrote is read back as what it was given. -/
theorem loads_write (w : Writer gap write) (value : Value) (plain : value.Plain toFloat) :
    loads toFloat (write value) = some value := by
  have hread : JsonReader.read (write value).toList = some value.json :=
    read_eq_some_iff.mpr ⟨[], _, [], blank_nil, text_write w value plain, by simp [Blank],
      by simp⟩
  rw [loads, hread, Option.bind_some, ofJson_json value plain]

theorem compactFields_eq (fields : List (String × Value)) : compactFields fields =
    fields.map fun field => quoteUntrusted field.1 ++ ":" ++ field.2.compact := by
  induction fields with
  | nil => rfl
  | cons field rest ih =>
    obtain ⟨key, value⟩ := field
    rw [compactFields, ih, List.map_cons]

theorem dumpsItems_eq (items : List Value) : dumpsItems items = items.map Value.dumps := by
  induction items with
  | nil => rfl
  | cons item rest ih => rw [dumpsItems, ih, List.map_cons]

theorem dumpsFields_eq (fields : List (String × Value)) : dumpsFields fields =
    fields.map fun field => quoteUntrusted field.1 ++ ": " ++ field.2.dumps := by
  induction fields with
  | nil => rfl
  | cons field rest ih =>
    obtain ⟨key, value⟩ := field
    rw [dumpsFields, ih, List.map_cons]

theorem compact_writer : Writer [] Value.compact where
  blank := blank_nil
  none := rfl
  bool _ := rfl
  int _ := rfl
  float _ := rfl
  str _ := rfl
  list items := by
    rw [Value.compact, compactItems_eq]
    simp [String.toList_intercalate, Function.comp_def]
  obj fields := by
    rw [Value.compact, compactFields_eq]
    simp [String.toList_intercalate, Function.comp_def]

theorem dumps_writer : Writer [' '] Value.dumps where
  blank := by simp [Blank, isBlank]
  none := rfl
  bool _ := rfl
  int _ := rfl
  float _ := rfl
  str _ := rfl
  list items := by
    rw [Value.dumps, dumpsItems_eq]
    simp [String.toList_intercalate, Function.comp_def]
  obj fields := by
    rw [Value.dumps, dumpsFields_eq]
    simp [String.toList_intercalate, Function.comp_def]

/-- Data comes back from the texts that the platform writes of it, and from no text that is no
JSON. -/
theorem json_round_trips (toFloat : List Char → Option FloatText) :
    (∀ value : Value, value.Plain toFloat →
      loads toFloat value.compact = some value ∧ loads toFloat value.dumps = some value) ∧
    ∀ text value, loads toFloat text = some value → ∃ front j body back, Blank front ∧
      Text j body ∧ Blank back ∧ text.toList = front ++ (body ++ back) ∧
      ofJson toFloat j = some value := by
  refine ⟨fun value plain => ⟨loads_write compact_writer value plain,
    loads_write dumps_writer value plain⟩, fun text value h => ?_⟩
  obtain ⟨j, hread, hvalue⟩ := Option.bind_eq_some_iff.mp h
  obtain ⟨front, body, back, hfront, isText, hback, hsplit⟩ := read_eq_some_iff.mp hread
  exact ⟨front, j, body, back, hfront, isText, hback, hsplit, hvalue⟩

end Writers

end Aegis
