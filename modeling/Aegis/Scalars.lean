import Aegis.Text
import Mathlib.Data.Nat.Digits.Lemmas

namespace Aegis

/-- The `width` low hexadecimal digits of `n`, most significant first. -/
def hexChars : Nat → Nat → List Char
  | 0, _ => []
  | width + 1, n => hexChars width (n / 16) ++ [Nat.digitChar (n % 16)]

def isHexDigit (c : Char) : Bool :=
  ('0' ≤ c && c ≤ '9') || ('a' ≤ c && c ≤ 'f')

@[simp] theorem hexChars_length (width n : Nat) : (hexChars width n).length = width := by
  induction width generalizing n with
  | zero => rfl
  | succ width ih => simp [hexChars, ih]

theorem digitChar_isHexDigit {n : Nat} (h : n < 16) : isHexDigit (Nat.digitChar n) = true := by
  interval_cases n <;> decide

theorem hexChars_isHexDigit {width n : Nat} {c : Char} (h : c ∈ hexChars width n) :
    isHexDigit c = true := by
  induction width generalizing n with
  | zero => simp [hexChars] at h
  | succ width ih =>
    rcases List.mem_append.mp h with h | h
    · exact ih h
    · rw [List.mem_singleton.mp h]
      exact digitChar_isHexDigit (Nat.mod_lt n (by omega))

theorem digitChar_inj {m n : Nat} (hm : m < 16) (hn : n < 16)
    (h : Nat.digitChar m = Nat.digitChar n) : m = n := by
  interval_cases m <;> interval_cases n <;> first | rfl | (exact absurd h (by decide))

theorem hexChars_inj {width m n : Nat} (hm : m < 16 ^ width) (hn : n < 16 ^ width)
    (h : hexChars width m = hexChars width n) : m = n := by
  induction width generalizing m n with
  | zero => simp at hm hn; omega
  | succ width ih =>
    obtain ⟨high, low⟩ := List.append_inj h (by simp)
    have hlow : m % 16 = n % 16 :=
      digitChar_inj (Nat.mod_lt m (by omega)) (Nat.mod_lt n (by omega)) (List.singleton_inj.mp low)
    rw [Nat.pow_succ] at hm hn
    have hhigh := ih (Nat.div_lt_of_lt_mul (by omega)) (Nat.div_lt_of_lt_mul (by omega)) high
    omega

/-- Digits read back by what each is worth. -/
theorem foldl_hexChars {value : Char → Nat} (digit : ∀ n < 16, value (Nat.digitChar n) = n)
    (width n start : Nat) : (hexChars width n).foldl (fun m c => 16 * m + value c) start =
      start * 16 ^ width + n % 16 ^ width := by
  induction width generalizing n with
  | zero => simp [hexChars, Nat.mod_one]
  | succ width ih =>
    have hlow : n % 16 < 16 := Nat.mod_lt n (by omega)
    rw [hexChars, List.foldl_append, ih, List.foldl_cons, List.foldl_nil, digit _ hlow, pow_succ',
      Nat.mod_mul]
    ring

theorem isSpace_of_isHexDigit {c : Char} (h : isHexDigit c = true) : isSpace c = false := by
  have bounds : 48 ≤ c.toNat ∧ c.toNat ≤ 102 := by
    simp only [isHexDigit, Bool.or_eq_true, Bool.and_eq_true, decide_eq_true_eq, Char.le_def,
      UInt32.le_iff_toNat_le] at h
    change _ ≤ c.val.toNat ∧ c.val.toNat ≤ _
    rcases h with ⟨h0, h9⟩ | ⟨ha, hf⟩
    · exact ⟨h0, h9.trans (by decide)⟩
    · exact ⟨le_trans (by decide) ha, hf⟩
  simp only [isSpace, Bool.or_eq_false_iff, Bool.and_eq_false_iff, decide_eq_false_iff_not,
    beq_eq_false_iff_ne]
  omega

/-- A `uuid.UUID`. -/
abbrev Uuid := BitVec 128

/-- `str(id)`: 32 hexadecimal digits grouped 8-4-4-4-12. -/
def Uuid.str (id : Uuid) : String :=
  let hex := hexChars 32 id.toNat
  String.ofList (hex.take 8 ++ '-' :: (hex.drop 8).take 4 ++ '-' :: (hex.drop 12).take 4 ++
    '-' :: (hex.drop 16).take 4 ++ '-' :: hex.drop 20)

theorem filter_hex {hex : List Char} (h : ∀ c ∈ hex, isHexDigit c = true) :
    hex.filter (· ≠ '-') = hex := by
  rw [List.filter_eq_self]
  intro c hc
  have : c ≠ '-' := by
    rintro rfl
    exact absurd (h _ hc) (by decide)
  simpa using this

theorem Uuid.str_without_hyphens (id : Uuid) :
    id.str.toList.filter (· ≠ '-') = hexChars 32 id.toNat := by
  have digits : ∀ c ∈ hexChars 32 id.toNat, isHexDigit c = true := fun _ => hexChars_isHexDigit
  rw [Uuid.str, String.toList_ofList]
  generalize hexChars 32 id.toNat = hex at digits
  have part : ∀ n m, ((hex.drop n).take m).filter (· ≠ '-') = (hex.drop n).take m := fun n m =>
    filter_hex fun c hc => digits c (List.mem_of_mem_drop (List.mem_of_mem_take hc))
  have tail : (hex.drop 20).filter (· ≠ '-') = hex.drop 20 :=
    filter_hex fun c hc => digits c (List.mem_of_mem_drop hc)
  have head : (hex.take 8).filter (· ≠ '-') = hex.take 8 := by simpa using part 0 8
  have join : ∀ n m, (hex.drop n).take m ++ hex.drop (n + m) = hex.drop n := fun n m => by
    rw [← List.drop_drop, List.take_append_drop]
  have hyphen : decide ('-' ≠ '-') = false := by decide
  simp only [List.filter_append, List.filter_cons, hyphen, Bool.false_eq_true, if_false, head,
    part, tail, List.append_assoc]
  rw [join 16 4, join 12 4, join 8 4, List.take_append_drop]

theorem Uuid.str_inj {a b : Uuid} (h : a.str = b.str) : a = b := by
  apply BitVec.eq_of_toNat_eq
  refine @hexChars_inj 32 _ _ ?_ ?_ ?_
  · exact lt_of_lt_of_eq a.isLt (by norm_num)
  · exact lt_of_lt_of_eq b.isLt (by norm_num)
  · rw [← a.str_without_hyphens, ← b.str_without_hyphens, h]

/-- A timezone-aware `datetime`, in microseconds since the epoch. -/
abbrev Instant := Int

def decimal (width n : Nat) : String :=
  let digits := Nat.toDigits 10 n
  String.ofList (List.replicate (width - digits.length) '0' ++ digits)

/-- Year, month and day of the given day number since 1970-01-01. -/
def civil (day : Int) : Int × Int × Int :=
  let shifted := day + 719468
  let era := shifted / 146097
  let dayOfEra := shifted % 146097
  let yearOfEra := (dayOfEra - dayOfEra / 1460 + dayOfEra / 36524 - dayOfEra / 146096) / 365
  let dayOfYear := dayOfEra - (365 * yearOfEra + yearOfEra / 4 - yearOfEra / 100)
  let shiftedMonth := (5 * dayOfYear + 2) / 153
  let month := if shiftedMonth < 10 then shiftedMonth + 3 else shiftedMonth - 9
  (yearOfEra + era * 400 + (if month ≤ 2 then 1 else 0), month,
    dayOfYear - (153 * shiftedMonth + 2) / 5 + 1)

/-- `moment.isoformat()` of a UTC moment. -/
def isoformat (moment : Instant) : String :=
  let micros := moment % 1000000
  let seconds := moment / 1000000 % 86400
  let (year, month, day) := civil (moment / 86400000000)
  decimal 4 year.toNat ++ "-" ++ decimal 2 month.toNat ++ "-" ++ decimal 2 day.toNat ++ "T" ++
    decimal 2 (seconds / 3600).toNat ++ ":" ++ decimal 2 (seconds / 60 % 60).toNat ++ ":" ++
    decimal 2 (seconds % 60).toNat ++
    (if micros = 0 then "" else "." ++ decimal 6 micros.toNat) ++ "+00:00"

example : isoformat 1790553600000000 = "2026-09-28T00:00:00+00:00" := by decide

/-- The hexadecimal text of a SHA-256 digest. -/
structure Digest where
  text : String
  length_eq : text.length = 64
  hex : ∀ c ∈ text.toList, isHexDigit c = true

theorem Digest.ext {a b : Digest} (h : a.text = b.text) : a = b := by
  cases a; cases b; simpa using h

instance : DecidableEq Digest := fun a b =>
  decidable_of_iff (a.text = b.text) ⟨Digest.ext, fun h => h ▸ rfl⟩

def Digest.ofNat (n : Nat) : Digest where
  text := String.ofList (hexChars 64 n)
  length_eq := by simp
  hex := by
    intro c hc
    exact hexChars_isHexDigit (by simpa using hc)

/-- `GENESIS_HASH` -/
def Digest.genesis : Digest := .ofNat 0

theorem Digest.strip_text (digest : Digest) : strip digest.text = digest.text :=
  strip_eq_self_of_no_space fun c hc => isSpace_of_isHexDigit (digest.hex c hc)

example : Digest.genesis.text = String.ofList (List.replicate 64 '0') := by decide

end Aegis
