import Mathlib.Data.List.TakeWhile

namespace JsonReader

/-- What a JSON text holds. A number is kept as its literal, and an object with all its fields in
the order of the text. -/
inductive Json where
  | null
  | bool (b : Bool)
  | number (text : List Char)
  | string (text : List Char)
  | array (items : List Json)
  | object (fields : List (List Char × Json))

def isBlank (c : Char) : Bool := c = ' ' || c = '\t' || c = '\n' || c = '\r'

def isHex (c : Char) : Bool :=
  c.isDigit || ('a' ≤ c && c ≤ 'f') || ('A' ≤ c && c ≤ 'F')

def hexDigit (c : Char) : Nat :=
  if c.isDigit then c.toNat - 48 else if 'a' ≤ c then c.toNat - 87 else c.toNat - 55

def hexNumber (digits : List Char) : Nat :=
  digits.foldl (fun n c => 16 * n + hexDigit c) 0

/-- The escapes of one character, with the characters they stand for. -/
def simpleEscapes : List (Char × Char) :=
  [('"', '"'), ('\\', '\\'), ('/', '/'), ('b', '\x08'), ('f', '\x0c'), ('n', '\n'), ('r', '\r'),
    ('t', '\t')]

section Grammar

def Blank (gap : List Char) : Prop := ∀ c ∈ gap, isBlank c = true

def Digits (text : List Char) : Prop := text ≠ [] ∧ ∀ c ∈ text, c.isDigit = true

/-- Four hexadecimal digits and the unit of UTF-16 that they give. -/
def IsUnit (digits : List Char) (n : Nat) : Prop :=
  digits.length = 4 ∧ (∀ c ∈ digits, isHex c = true) ∧ hexNumber digits = n

/-- What stands behind the backslash of an escape, and its character. -/
inductive Escape : List Char → Char → Prop
  | simple {c d : Char} (known : simpleEscapes.lookup c = some d) : Escape [c] d
  | unit {digits : List Char} {n : Nat} (isUnit : IsUnit digits n)
    (single : n < 0xd800 ∨ 0xe000 ≤ n) : Escape ('u' :: digits) (Char.ofNat n)
  | pair {high low : List Char} {m n : Nat} (isHigh : IsUnit high m) (hm : 0xd800 ≤ m)
    (hm' : m < 0xdc00) (isLow : IsUnit low n) (hn : 0xdc00 ≤ n) (hn' : n < 0xe000) :
    Escape ('u' :: (high ++ '\\' :: 'u' :: low))
      (Char.ofNat (0x10000 + (m - 0xd800) * 0x400 + (n - 0xdc00)))

/-- The inside of a string literal and what it spells. -/
inductive Spelled : List Char → List Char → Prop
  | nil : Spelled [] []
  | plain {c : Char} {raw s : List Char} (quote : c ≠ '"') (backslash : c ≠ '\\')
    (printable : 32 ≤ c.toNat) (rest : Spelled raw s) : Spelled (c :: raw) (c :: s)
  | escape {code raw s : List Char} {d : Char} (isEscape : Escape code d) (rest : Spelled raw s) :
    Spelled ('\\' :: (code ++ raw)) (d :: s)

def IsInteger (text : List Char) : Prop :=
  text = ['0'] ∨ Digits text ∧ text.head? ≠ some '0'

def IsFraction (text : List Char) : Prop :=
  text = [] ∨ ∃ digits, text = '.' :: digits ∧ Digits digits

def IsExponent (text : List Char) : Prop :=
  text = [] ∨ ∃ mark sign digits, text = mark :: (sign ++ digits) ∧ (mark = 'e' ∨ mark = 'E') ∧
    (sign = [] ∨ sign = ['+'] ∨ sign = ['-']) ∧ Digits digits

def IsNumber (text : List Char) : Prop :=
  ∃ sign int frac exp, text = sign ++ (int ++ (frac ++ exp)) ∧ (sign = [] ∨ sign = ['-']) ∧
    IsInteger int ∧ IsFraction frac ∧ IsExponent exp

mutual

/-- A value and the text that holds it, without blanks around it. -/
inductive Text : Json → List Char → Prop
  | null : Text .null ['n', 'u', 'l', 'l']
  | true : Text (.bool true) ['t', 'r', 'u', 'e']
  | false : Text (.bool false) ['f', 'a', 'l', 's', 'e']
  | number {text : List Char} (isNumber : IsNumber text) : Text (.number text) text
  | string {raw s : List Char} (spelled : Spelled raw s) : Text (.string s) ('"' :: (raw ++ ['"']))
  | noItems {gap : List Char} (blank : Blank gap) : Text (.array []) ('[' :: (gap ++ [']']))
  | array {items : List Json} {text : List Char} (isItems : Items items text) :
    Text (.array items) ('[' :: text)
  | noFields {gap : List Char} (blank : Blank gap) : Text (.object []) ('\x7b' :: (gap ++ ['\x7d']))
  | object {fields : List (List Char × Json)} {text : List Char} (isFields : Entries fields text) :
    Text (.object fields) ('\x7b' :: text)

/-- The items of an array, from behind a bracket or comma to the closing bracket. -/
inductive Items : List Json → List Char → Prop
  | last {item : Json} {front text back : List Char} (before : Blank front)
    (isText : Text item text) (after : Blank back) :
    Items [item] (front ++ (text ++ (back ++ [']'])))
  | more {item : Json} {items : List Json} {front text back others : List Char}
    (before : Blank front) (isText : Text item text) (after : Blank back)
    (isItems : Items items others) : Items (item :: items) (front ++ (text ++ (back ++ ',' :: others)))

/-- The fields of an object, from behind a brace or comma to the closing brace. -/
inductive Entries : List (List Char × Json) → List Char → Prop
  | last {key raw : List Char} {item : Json} {front middle gap text back : List Char}
    (before : Blank front) (spelled : Spelled raw key) (between : Blank middle) (beyond : Blank gap)
    (isText : Text item text) (after : Blank back) :
    Entries [(key, item)]
      (front ++ '"' :: (raw ++ '"' :: (middle ++ ':' :: (gap ++ (text ++ (back ++ ['\x7d']))))))
  | more {key raw : List Char} {item : Json} {fields : List (List Char × Json)}
    {front middle gap text back others : List Char} (before : Blank front)
    (spelled : Spelled raw key) (between : Blank middle) (beyond : Blank gap)
    (isText : Text item text) (after : Blank back) (isFields : Entries fields others) :
    Entries ((key, item) :: fields)
      (front ++ '"' :: (raw ++ '"' :: (middle ++ ':' :: (gap ++ (text ++ (back ++ ',' :: others))))))

end

end Grammar

section Reader

def skip (text : List Char) : List Char := text.dropWhile isBlank

def unit (text : List Char) : Option (Nat × List Char) :=
  if (text.take 4).length = 4 ∧ (text.take 4).all isHex then
    some (hexNumber (text.take 4), text.drop 4)
  else none

def escape : List Char → Option (Char × List Char)
  | [] => none
  | c :: rest =>
    if c = 'u' then
      (unit rest).bind fun high =>
        if high.1 < 0xd800 ∨ 0xe000 ≤ high.1 then some (Char.ofNat high.1, high.2)
        else if high.1 < 0xdc00 ∧ high.2.take 2 = ['\\', 'u'] then
          (unit (high.2.drop 2)).bind fun low =>
            if 0xdc00 ≤ low.1 ∧ low.1 < 0xe000 then
              some (Char.ofNat (0x10000 + (high.1 - 0xd800) * 0x400 + (low.1 - 0xdc00)), low.2)
            else none
        else none
    else (simpleEscapes.lookup c).map fun d => (d, rest)

/-- The string literal that a text goes on with, behind its opening quote. -/
def string : Nat → List Char → Option (List Char × List Char)
  | 0, _ => none
  | _ + 1, [] => none
  | fuel + 1, c :: rest =>
    if c = '"' then some ([], rest)
    else if c = '\\' then
      (escape rest).bind fun read => (string fuel read.2).map fun more => (read.1 :: more.1, more.2)
    else if c.toNat < 32 then none
    else (string fuel rest).map fun more => (c :: more.1, more.2)

def integer (text : List Char) : List Char :=
  if text.head? = some '0' then ['0'] else text.takeWhile Char.isDigit

def fraction : List Char → List Char
  | [] => []
  | c :: rest =>
    if c = '.' ∧ rest.takeWhile Char.isDigit ≠ [] then '.' :: rest.takeWhile Char.isDigit else []

def exponentSign (text : List Char) : List Char :=
  if text.head? = some '+' then ['+'] else if text.head? = some '-' then ['-'] else []

def exponent : List Char → List Char
  | [] => []
  | c :: rest =>
    let digits := (rest.drop (exponentSign rest).length).takeWhile Char.isDigit
    if (c = 'e' ∨ c = 'E') ∧ digits ≠ [] then c :: (exponentSign rest ++ digits) else []

def minus (text : List Char) : List Char := if text.head? = some '-' then ['-'] else []

def number (text : List Char) : Option (List Char × List Char) :=
  let sign := minus text
  let int := integer (text.drop sign.length)
  let frac := fraction ((text.drop sign.length).drop int.length)
  let exp := exponent (((text.drop sign.length).drop int.length).drop frac.length)
  if int = [] then none
  else some (sign ++ (int ++ (frac ++ exp)),
    (((text.drop sign.length).drop int.length).drop frac.length).drop exp.length)

/-- What follows a word that a text has to start with. -/
def after (word text : List Char) : Option (List Char) :=
  if text.take word.length = word then some (text.drop word.length) else none

mutual

/-- The value that a text starts with, and what follows it. -/
def value : Nat → List Char → Option (Json × List Char)
  | 0, _ => none
  | _ + 1, [] => none
  | fuel + 1, c :: rest =>
    if c = '"' then (string (rest.length + 1) rest).map fun read => (.string read.1, read.2)
    else if c = '[' then
      if (skip rest).head? = some ']' then some (.array [], (skip rest).drop 1)
      else (items fuel rest).map fun read => (.array read.1, read.2)
    else if c = '\x7b' then
      if (skip rest).head? = some '\x7d' then some (.object [], (skip rest).drop 1)
      else (entries fuel rest).map fun read => (.object read.1, read.2)
    else if c = 'n' then (after ['u', 'l', 'l'] rest).map fun rest => (.null, rest)
    else if c = 't' then (after ['r', 'u', 'e'] rest).map fun rest => (.bool true, rest)
    else if c = 'f' then (after ['a', 'l', 's', 'e'] rest).map fun rest => (.bool false, rest)
    else (number (c :: rest)).map fun read => (.number read.1, read.2)

def items : Nat → List Char → Option (List Json × List Char)
  | 0, _ => none
  | fuel + 1, text =>
    (value fuel (skip text)).bind fun read =>
      if (skip read.2).head? = some ']' then some ([read.1], (skip read.2).drop 1)
      else if (skip read.2).head? = some ',' then
        (items fuel ((skip read.2).drop 1)).map fun more => (read.1 :: more.1, more.2)
      else none

def entries : Nat → List Char → Option (List (List Char × Json) × List Char)
  | 0, _ => none
  | fuel + 1, text =>
    if (skip text).head? = some '"' then
      (string (text.length + 1) ((skip text).drop 1)).bind fun key =>
        if (skip key.2).head? = some ':' then
          (value fuel (skip ((skip key.2).drop 1))).bind fun read =>
            if (skip read.2).head? = some '\x7d' then
              some ([(key.1, read.1)], (skip read.2).drop 1)
            else if (skip read.2).head? = some ',' then
              (entries fuel ((skip read.2).drop 1)).map fun more =>
                ((key.1, read.1) :: more.1, more.2)
            else none
        else none
    else none

end

/-- The value that a whole text holds. -/
def read (text : List Char) : Option Json :=
  (value (2 * text.length + 1) (skip text)).bind fun read =>
    if skip read.2 = [] then some read.1 else none

end Reader

section Strings

variable {text rest digits raw s : List Char} {n : Nat} {d : Char}

theorem unit_eq_some :
    unit text = some (n, rest) ↔ ∃ digits, text = digits ++ rest ∧ IsUnit digits n := by
  unfold unit
  constructor
  · intro h
    split at h
    next hdigits =>
      cases h
      exact ⟨_, (List.take_append_drop 4 text).symm, hdigits.1, List.all_eq_true.mp hdigits.2, rfl⟩
    next => cases h
  · rintro ⟨digits, rfl, hlength, hhex, rfl⟩
    rw [← hlength, List.take_left, List.drop_left, if_pos ⟨rfl, List.all_eq_true.mpr hhex⟩]

theorem escape_unit (h : IsUnit digits n) (single : n < 0xd800 ∨ 0xe000 ≤ n) :
    escape ('u' :: (digits ++ rest)) = some (Char.ofNat n, rest) := by
  rw [escape, if_pos rfl, unit_eq_some.mpr ⟨digits, rfl, h⟩]
  exact if_pos single

theorem escape_pair {high low : List Char} {m : Nat} (isHigh : IsUnit high m) (hm : 0xd800 ≤ m)
    (hm' : m < 0xdc00) (isLow : IsUnit low n) (hn : 0xdc00 ≤ n) (hn' : n < 0xe000) :
    escape ('u' :: (high ++ '\\' :: 'u' :: (low ++ rest))) =
      some (Char.ofNat (0x10000 + (m - 0xd800) * 0x400 + (n - 0xdc00)), rest) := by
  rw [escape, if_pos rfl, unit_eq_some.mpr ⟨high, rfl, isHigh⟩]
  dsimp only [Option.bind_some]
  rw [if_neg (by omega), if_pos ⟨hm', rfl⟩]
  change (unit (low ++ rest)).bind _ = _
  rw [unit_eq_some.mpr ⟨low, rfl, isLow⟩]
  exact if_pos ⟨hn, hn'⟩

theorem simpleEscapes_u : simpleEscapes.lookup 'u' = none := by decide

theorem escape_eq_some :
    escape text = some (d, rest) ↔ ∃ code, text = code ++ rest ∧ Escape code d := by
  constructor
  · intro h
    cases text with
    | nil => cases h
    | cons c later =>
      rw [escape] at h
      split at h
      next hu =>
        subst hu
        obtain ⟨⟨m, afterHigh⟩, hhigh, hread⟩ := Option.bind_eq_some_iff.mp h
        obtain ⟨high, rfl, isHigh⟩ := unit_eq_some.mp hhigh
        split at hread
        next single =>
          cases hread
          exact ⟨'u' :: high, rfl, .unit isHigh single⟩
        next hsurrogate =>
          split at hread
          next hmore =>
            obtain ⟨⟨n, afterLow⟩, hlow, hboth⟩ := Option.bind_eq_some_iff.mp hread
            obtain ⟨low, hsplit, isLow⟩ := unit_eq_some.mp hlow
            dsimp only at hboth
            split at hboth
            next hn =>
              obtain ⟨rfl, rfl⟩ := Prod.mk.inj (Option.some.inj hboth)
              have hpair : afterHigh = '\\' :: 'u' :: (low ++ afterLow) := by
                rw [← List.take_append_drop 2 afterHigh, hmore.2, hsplit]
                rfl
              refine ⟨'u' :: (high ++ '\\' :: 'u' :: low), ?_,
                .pair isHigh (by omega) hmore.1 isLow hn.1 hn.2⟩
              rw [hpair, List.cons_append, List.append_assoc]
              rfl
            next => cases hboth
          next => cases hread
      next =>
        obtain ⟨e, hknown, h⟩ := Option.map_eq_some_iff.mp h
        cases h
        exact ⟨[c], rfl, .simple hknown⟩
  · rintro ⟨code, rfl, h⟩
    cases h with
    | @simple c _ known =>
      have hu : c ≠ 'u' := by
        rintro rfl
        rw [simpleEscapes_u] at known
        cases known
      rw [List.singleton_append, escape, if_neg hu, known]
      rfl
    | unit isUnit single => exact escape_unit isUnit single
    | pair isHigh hm hm' isLow hn hn' =>
      rw [List.cons_append, List.append_assoc]
      exact escape_pair isHigh hm hm' isLow hn hn'

theorem string_sound {fuel : Nat} (h : string fuel text = some (s, rest)) :
    ∃ raw, text = raw ++ '"' :: rest ∧ Spelled raw s := by
  induction fuel generalizing text s with
  | zero => cases h
  | succ fuel ih =>
    cases text with
    | nil => cases h
    | cons c later =>
      rw [string] at h
      split at h
      next hquote =>
        cases h
        exact ⟨[], by rw [hquote]; rfl, .nil⟩
      next hquote =>
        split at h
        next hback =>
          obtain ⟨⟨d, behind⟩, hescape, h⟩ := Option.bind_eq_some_iff.mp h
          obtain ⟨⟨more, end'⟩, hmore, h⟩ := Option.map_eq_some_iff.mp h
          cases h
          obtain ⟨code, rfl, isEscape⟩ := escape_eq_some.mp hescape
          obtain ⟨raw, hraw, spelled⟩ := ih hmore
          dsimp only at hraw
          refine ⟨'\\' :: (code ++ raw), ?_, .escape isEscape spelled⟩
          rw [hback, hraw, List.cons_append, List.append_assoc]
        next hback =>
          split at h
          · cases h
          next hcontrol =>
            obtain ⟨⟨more, end'⟩, hmore, h⟩ := Option.map_eq_some_iff.mp h
            cases h
            obtain ⟨raw, hraw, spelled⟩ := ih hmore
            refine ⟨c :: raw, ?_, .plain hquote hback (Nat.not_lt.mp hcontrol) spelled⟩
            rw [hraw, List.cons_append]

theorem string_complete (h : Spelled raw s) {fuel : Nat} (enough : raw.length < fuel) :
    string fuel (raw ++ '"' :: rest) = some (s, rest) := by
  induction h generalizing fuel with
  | nil =>
    obtain ⟨fuel, rfl⟩ := Nat.exists_eq_succ_of_ne_zero (Nat.ne_of_gt enough)
    rfl
  | @plain c raw s quote backslash printable _ ih =>
    rw [List.length_cons] at enough
    obtain ⟨fuel, rfl⟩ := Nat.exists_eq_succ_of_ne_zero (Nat.ne_of_gt (Nat.zero_lt_of_lt enough))
    rw [List.cons_append, string, if_neg quote, if_neg backslash, if_neg (Nat.not_lt.mpr printable),
      ih (by omega)]
    rfl
  | @escape code raw s d isEscape _ ih =>
    rw [List.length_cons, List.length_append] at enough
    obtain ⟨fuel, rfl⟩ := Nat.exists_eq_succ_of_ne_zero (Nat.ne_of_gt (Nat.zero_lt_of_lt enough))
    rw [List.cons_append, string, if_neg (by decide), if_pos rfl, List.append_assoc,
      escape_eq_some.mpr ⟨code, rfl, isEscape⟩]
    dsimp only [Option.bind_some]
    rw [ih (by omega)]
    rfl

end Strings

section Numbers

variable {text rest t : List Char}

/-- A text that goes on with nothing that could belong to a number. -/
def Ends (rest : List Char) : Prop :=
  ∀ c, rest.head? = some c → c.isDigit = false ∧ c ≠ '.' ∧ c ≠ 'e' ∧ c ≠ 'E'

theorem takeWhile_split (p : Char → Bool) (text : List Char) :
    text = text.takeWhile p ++ text.drop (text.takeWhile p).length := by
  have leading : text.takeWhile p <+: text := List.takeWhile_prefix p
  exact (List.prefix_iff_eq_append.mp leading).symm

theorem takeWhile_eq {p : Char → Bool} {digits : List Char} (h : ∀ c ∈ digits, p c = true)
    (stop : ∀ c, rest.head? = some c → p c = false) : (digits ++ rest).takeWhile p = digits := by
  rw [List.takeWhile_append_of_pos h]
  cases rest with
  | nil => rw [List.takeWhile_nil, List.append_nil]
  | cons c rest =>
    rw [List.takeWhile_cons_of_neg (by rw [stop c rfl]; decide), List.append_nil]

theorem digits_takeWhile (h : text.takeWhile Char.isDigit ≠ []) :
    Digits (text.takeWhile Char.isDigit) :=
  ⟨h, fun _ hc => List.mem_takeWhile_imp hc⟩

theorem split_minus (text : List Char) : text = minus text ++ text.drop (minus text).length := by
  unfold minus
  split
  next h =>
    cases text with
    | nil => cases h
    | cons c rest => cases h; rfl
  next => rfl

theorem split_integer (text : List Char) :
    text = integer text ++ text.drop (integer text).length := by
  unfold integer
  split
  next h =>
    cases text with
    | nil => cases h
    | cons c rest => cases h; rfl
  next => exact takeWhile_split _ _

theorem split_fraction (text : List Char) :
    text = fraction text ++ text.drop (fraction text).length := by
  cases text with
  | nil => rfl
  | cons c rest =>
    rw [fraction]
    split
    next h =>
      rw [h.1, List.cons_append, List.length_cons, List.drop_succ_cons, ← takeWhile_split]
    next => rfl

theorem split_exponentSign (text : List Char) :
    text = exponentSign text ++ text.drop (exponentSign text).length := by
  unfold exponentSign
  split
  next h =>
    cases text with
    | nil => cases h
    | cons c rest => cases h; rfl
  next =>
    exact split_minus text

theorem split_exponent (text : List Char) :
    text = exponent text ++ text.drop (exponent text).length := by
  cases text with
  | nil => rfl
  | cons c rest =>
    rw [exponent]
    split
    next h =>
      rw [List.cons_append, List.length_cons, List.drop_succ_cons, List.length_append,
        ← List.drop_drop, List.append_assoc, ← takeWhile_split, ← split_exponentSign]
    next => rfl

theorem isInteger_integer (h : integer text ≠ []) : IsInteger (integer text) := by
  unfold integer at h ⊢
  split
  next => exact .inl rfl
  next hzero =>
    rw [if_neg hzero] at h
    refine .inr ⟨digits_takeWhile h, fun hhead => hzero ?_⟩
    rw [takeWhile_split Char.isDigit text, List.head?_append, hhead]
    rfl

theorem isFraction_fraction (text : List Char) : IsFraction (fraction text) := by
  cases text with
  | nil => exact .inl rfl
  | cons c rest =>
    rw [fraction]
    split
    next h => exact .inr ⟨_, rfl, digits_takeWhile h.2⟩
    next => exact .inl rfl

theorem isExponent_exponent (text : List Char) : IsExponent (exponent text) := by
  cases text with
  | nil => exact .inl rfl
  | cons c rest =>
    rw [exponent]
    split
    next h =>
      refine .inr ⟨c, exponentSign rest, _, rfl, h.1, ?_, digits_takeWhile h.2⟩
      unfold exponentSign
      split
      · exact .inr (.inl rfl)
      · split
        · exact .inr (.inr rfl)
        · exact .inl rfl
    next => exact .inl rfl

theorem number_sound (h : number text = some (t, rest)) : text = t ++ rest ∧ IsNumber t := by
  unfold number at h
  dsimp only at h
  split at h
  · cases h
  next hint =>
    cases h
    constructor
    · rw [List.append_assoc, List.append_assoc, List.append_assoc, ← split_exponent,
        ← split_fraction, ← split_integer, ← split_minus]
    · refine ⟨_, _, _, _, rfl, ?_, isInteger_integer hint, isFraction_fraction _,
        isExponent_exponent _⟩
      unfold minus
      split
      · exact .inr rfl
      · exact .inl rfl

theorem exponent_of_isExponent (h : IsExponent t) (ends : Ends rest) :
    exponent (t ++ rest) = t := by
  rcases h with rfl | ⟨mark, sign, digits, rfl, hmark, hsign, hne, hdigits⟩
  · cases rest with
    | nil => rfl
    | cons c rest =>
      obtain ⟨_, _, he, hE⟩ := ends c rfl
      rw [List.nil_append, exponent]
      exact if_neg fun h => h.1.elim he hE
  · obtain ⟨d, ds, rfl⟩ := List.exists_cons_of_ne_nil hne
    have hd : d.isDigit = true := hdigits d List.mem_cons_self
    have hsigned : exponentSign (sign ++ (d :: ds ++ rest)) = sign := by
      rcases hsign with rfl | rfl | rfl
      · have hplus : d ≠ '+' := by
          rintro rfl
          revert hd
          decide
        have hminus : d ≠ '-' := by
          rintro rfl
          revert hd
          decide
        unfold exponentSign
        rw [if_neg (by simpa using hplus), if_neg (by simpa using hminus)]
      · rfl
      · rfl
    have htaken : (d :: ds ++ rest).takeWhile Char.isDigit = d :: ds :=
      takeWhile_eq hdigits fun c hc => (ends c hc).1
    rw [List.cons_append, List.append_assoc, exponent, hsigned]
    rw [List.drop_left, htaken, if_pos ⟨hmark, hne⟩]

theorem fraction_of_isFraction {more : List Char} (h : IsFraction t)
    (stop : ∀ c, more.head? = some c → c.isDigit = false ∧ c ≠ '.') : fraction (t ++ more) = t := by
  rcases h with rfl | ⟨digits, rfl, hne, hdigits⟩
  · cases more with
    | nil => rfl
    | cons c more =>
      rw [List.nil_append, fraction, if_neg fun h => (stop c rfl).2 h.1]
  · have htaken : (digits ++ more).takeWhile Char.isDigit = digits :=
      takeWhile_eq hdigits fun c hc => (stop c hc).1
    rw [List.cons_append, fraction, htaken, if_pos ⟨rfl, hne⟩]

theorem integer_of_isInteger {more : List Char} (h : IsInteger t)
    (stop : ∀ c, more.head? = some c → c.isDigit = false) : integer (t ++ more) = t := by
  rcases h with rfl | ⟨⟨hne, hdigits⟩, hzero⟩
  · rfl
  · obtain ⟨d, ds, rfl⟩ := List.exists_cons_of_ne_nil hne
    unfold integer
    rw [if_neg (show (d :: ds ++ more).head? ≠ some '0' from hzero)]
    exact takeWhile_eq hdigits stop

theorem minus_of_isInteger {sign int more : List Char} (hsign : sign = [] ∨ sign = ['-'])
    (hint : IsInteger int) : minus (sign ++ (int ++ more)) = sign := by
  rcases hsign with rfl | rfl
  · unfold minus
    refine if_neg fun hhead => ?_
    rcases hint with rfl | ⟨⟨hne, hdigits⟩, _⟩
    · cases hhead
    · obtain ⟨d, ds, rfl⟩ := List.exists_cons_of_ne_nil hne
      have hd := hdigits d List.mem_cons_self
      rw [Option.some.inj hhead] at hd
      revert hd
      decide
  · rfl

theorem isInteger_ne_nil (h : IsInteger t) : t ≠ [] := by
  rcases h with rfl | ⟨⟨hne, _⟩, _⟩
  · exact List.cons_ne_nil _ _
  · exact hne

theorem number_complete (h : IsNumber t) (ends : Ends rest) :
    number (t ++ rest) = some (t, rest) := by
  obtain ⟨sign, int, frac, exp, rfl, hsign, hint, hfrac, hexp⟩ := h
  have behindFraction : ∀ c, (exp ++ rest).head? = some c → c.isDigit = false ∧ c ≠ '.' := by
    intro c hc
    rcases hexp with rfl | ⟨mark, _, _, rfl, hmark, _⟩
    · exact ⟨(ends c hc).1, (ends c hc).2.1⟩
    · cases hc
      rcases hmark with rfl | rfl <;> decide
  have behindInteger : ∀ c, (frac ++ (exp ++ rest)).head? = some c → c.isDigit = false := by
    intro c hc
    rcases hfrac with rfl | ⟨digits, rfl, _⟩
    · exact (behindFraction c hc).1
    · cases hc
      decide
  have hwhole : sign ++ (int ++ (frac ++ exp)) ++ rest =
      sign ++ (int ++ (frac ++ (exp ++ rest))) := by
    simp only [List.append_assoc]
  unfold number
  rw [hwhole, minus_of_isInteger hsign hint]
  dsimp only
  rw [List.drop_left, integer_of_isInteger hint behindInteger, List.drop_left,
    fraction_of_isFraction hfrac behindFraction, List.drop_left, exponent_of_isExponent hexp ends,
    List.drop_left, if_neg (isInteger_ne_nil hint)]

end Numbers

end JsonReader
