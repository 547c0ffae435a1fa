import Aegis.Scalars

namespace Aegis

/-- The moments that a `datetime` can hold: the years 1 to 9999. -/
def IsDatetime (moment : Instant) : Prop :=
  -62135596800000000 ≤ moment ∧ moment < 253402300800000000

theorem split_digits {a b s t : List Char} (ha : ∀ c ∈ a, c.isDigit = true)
    (hb : ∀ c ∈ b, c.isDigit = true) (hs : ∀ c, s.head? = some c → c.isDigit = false)
    (ht : ∀ c, t.head? = some c → c.isDigit = false) (h : a ++ s = b ++ t) : a = b ∧ s = t := by
  induction a generalizing b with
  | nil =>
    cases b with
    | nil => exact ⟨rfl, h⟩
    | cons y b =>
      have hy := hb y List.mem_cons_self
      rw [hs y (by rw [List.nil_append] at h; rw [h]; rfl)] at hy
      cases hy
  | cons x a ih =>
    cases b with
    | nil =>
      have hx := ha x List.mem_cons_self
      rw [ht x (by rw [List.nil_append] at h; rw [← h]; rfl)] at hx
      cases hx
    | cons y b =>
      obtain ⟨rfl, hrest⟩ := List.cons.inj h
      obtain ⟨rfl, rfl⟩ := ih (fun c hc => ha c (List.mem_cons_of_mem _ hc))
        (fun c hc => hb c (List.mem_cons_of_mem _ hc)) hrest
      exact ⟨rfl, rfl⟩

theorem decimal_isDigit {width n : Nat} {c : Char} (h : c ∈ (decimal width n).toList) :
    c.isDigit = true := by
  unfold decimal at h
  rw [String.toList_ofList] at h
  rcases List.mem_append.mp h with h | h
  · rw [List.eq_of_mem_replicate h]
    decide
  · exact Nat.isDigit_of_mem_toDigits (by omega) (by omega) h

theorem decimal_ne_nil (width n : Nat) : (decimal width n).toList ≠ [] := by
  unfold decimal
  rw [String.toList_ofList]
  exact List.append_ne_nil_of_right_ne_nil _ Nat.toDigits_ne_nil

/-- Leading zeros do not change the value of a decimal number. -/
theorem decimal_value (width n : Nat) : Nat.ofDigitChars 10 (decimal width n).toList 0 = n := by
  unfold decimal
  rw [String.toList_ofList]
  generalize width - (Nat.toDigits 10 n).length = zeros
  induction zeros with
  | zero => exact Nat.ofDigitChars_ten_toDigits
  | succ zeros ih =>
    rw [List.replicate_succ, List.cons_append, Nat.ofDigitChars_cons]
    exact ih

/-- Two numbers read from the start of one text are one number. -/
theorem decimal_split {width m n : Nat} {s t : List Char}
    (hs : ∀ c, s.head? = some c → c.isDigit = false)
    (ht : ∀ c, t.head? = some c → c.isDigit = false)
    (h : (decimal width m).toList ++ s = (decimal width n).toList ++ t) : m = n ∧ s = t := by
  obtain ⟨hdigits, hrest⟩ := split_digits (fun _ => decimal_isDigit) (fun _ => decimal_isDigit) hs ht h
  exact ⟨by rw [← decimal_value width m, hdigits, decimal_value], hrest⟩

theorem civil_bounds (dayOfEra year leap quad cent : Int) (low : 0 ≤ dayOfEra)
    (high : dayOfEra ≤ 146096) (hleap : leap = dayOfEra / 1460) (hquad : quad = year / 4)
    (hcent : cent = year / 100)
    (hyear : year = (dayOfEra - leap + dayOfEra / 36524 - dayOfEra / 146096) / 365) :
    (0 ≤ year ∧ year ≤ 399) ∧ 0 ≤ dayOfEra - (365 * year + quad - cent) ∧
      dayOfEra - (365 * year + quad - cent) ≤ 366 := by
  refine ⟨by omega, ?_⟩
  have below : 1460 * quad ≤ 365 * year := by omega
  have above : 365 * year < 1460 * (quad + 1) := by omega
  have century : dayOfEra / 36524 = 0 ∨ dayOfEra / 36524 = 1 ∨ dayOfEra / 36524 = 2 ∨
      dayOfEra / 36524 = 3 ∨ dayOfEra / 36524 = 4 := by omega
  rcases century with h | h | h | h | h
  · have first : cent = 0 := by omega
    have early : dayOfEra / 146096 = 0 := by omega
    have : quad ≤ leap := by omega
    have : leap ≤ quad + 1 := by omega
    constructor <;> omega
  · have second : cent = 1 := by omega
    have early : dayOfEra / 146096 = 0 := by omega
    have : quad ≤ leap := by omega
    have : leap ≤ quad + 1 := by omega
    constructor <;> omega
  · have third : cent = 2 := by omega
    have early : dayOfEra / 146096 = 0 := by omega
    have : quad ≤ leap := by omega
    have : leap ≤ quad + 1 := by omega
    constructor <;> omega
  · have fourth : cent = 3 := by omega
    have : quad ≤ leap := by omega
    have : leap ≤ quad + 1 := by omega
    have early : dayOfEra / 146096 = 0 ∨ dayOfEra / 146096 = 1 := by omega
    rcases early with h | h
    · constructor <;> omega
    · constructor <;> omega
  · have last : dayOfEra = 146096 := by omega
    subst last
    omega

theorem civil_nonneg {day : Int} (h : -719162 ≤ day) :
    0 ≤ (civil day).1 ∧ 0 ≤ (civil day).2.1 ∧ 0 ≤ (civil day).2.2 := by
  have era := civil_bounds ((day + 719468) % 146097) _ _ _ _ (by omega) (by omega) rfl rfl rfl rfl
  unfold civil
  dsimp only
  generalize (day + 719468) % 146097 = d at *
  generalize (d - d / 1460 + d / 36524 - d / 146096) / 365 = y at *
  generalize d - (365 * y + y / 4 - y / 100) = u at *
  refine ⟨?_, ?_, by omega⟩
  · split <;> split <;> omega
  · split <;> omega

/-- A date names its day. -/
theorem civil_inj {day other : Int} (h : civil day = civil other) : day = other := by
  unfold civil at h
  dsimp only at h
  obtain ⟨hyear, h⟩ := Prod.mk.inj h
  obtain ⟨hmonth, hday⟩ := Prod.mk.inj h
  have era := civil_bounds ((day + 719468) % 146097) _ _ _ _ (by omega) (by omega) rfl rfl rfl rfl
  have era' := civil_bounds ((other + 719468) % 146097) _ _ _ _ (by omega) (by omega) rfl rfl rfl rfl
  generalize hd : (day + 719468) % 146097 = d at *
  generalize ho : (other + 719468) % 146097 = o at *
  generalize (d - d / 1460 + d / 36524 - d / 146096) / 365 = y at *
  generalize (o - o / 1460 + o / 36524 - o / 146096) / 365 = z at *
  generalize hu : d - (365 * y + y / 4 - y / 100) = u at *
  generalize hv : o - (365 * z + z / 4 - z / 100) = v at *
  have sameMonth : (5 * u + 2) / 153 = (5 * v + 2) / 153 := by
    split at hmonth <;> split at hmonth <;> omega
  rw [sameMonth] at hyear hday
  have sameYear : y + (day + 719468) / 146097 * 400 = z + (other + 719468) / 146097 * 400 := by
    omega
  have sameEra : (day + 719468) / 146097 = (other + 719468) / 146097 := by omega
  have sameYearOfEra : y = z := by omega
  subst sameYearOfEra
  omega

/-- What `isoformat` writes after the seconds. -/
def isoFraction (micros : Int) : List Char :=
  (if micros = 0 then [] else '.' :: (decimal 6 micros.toNat).toList) ++ "+00:00".toList

theorem isoformat_toList (moment : Instant) :
    (isoformat moment).toList =
      (decimal 4 (civil (moment / 86400000000)).1.toNat).toList ++ '-' ::
      ((decimal 2 (civil (moment / 86400000000)).2.1.toNat).toList ++ '-' ::
      ((decimal 2 (civil (moment / 86400000000)).2.2.toNat).toList ++ 'T' ::
      ((decimal 2 (moment / 1000000 % 86400 / 3600).toNat).toList ++ ':' ::
      ((decimal 2 (moment / 1000000 % 86400 / 60 % 60).toNat).toList ++ ':' ::
      ((decimal 2 (moment / 1000000 % 86400 % 60).toNat).toList ++
        isoFraction (moment % 1000000)))))) := by
  unfold isoformat isoFraction
  dsimp only
  simp only [String.toList_append, List.append_assoc]
  split <;> simp

theorem isoFraction_head (micros : Int) :
    ∀ c, (isoFraction micros).head? = some c → c.isDigit = false := by
  intro c hc
  unfold isoFraction at hc
  split at hc
  · obtain rfl : '+' = c := by simpa using hc
    decide
  · obtain rfl : '.' = c := by simpa using hc
    decide

theorem isoFraction_inj {a b : Int} (ha : 0 ≤ a) (hb : 0 ≤ b)
    (h : isoFraction a = isoFraction b) : a = b := by
  unfold isoFraction at h
  by_cases hza : a = 0
  · by_cases hzb : b = 0
    · rw [hza, hzb]
    · simp [hza, hzb] at h
  · by_cases hzb : b = 0
    · simp [hza, hzb] at h
    · rw [if_neg hza, if_neg hzb] at h
      obtain ⟨hmicros, _⟩ := decimal_split (by simp) (by simp) (List.cons.inj h).2
      omega

theorem head_nonDigit {c : Char} (h : c.isDigit = false) (s : List Char) :
    ∀ x, (c :: s).head? = some x → x.isDigit = false := by
  intro x hx
  rw [← Option.some.inj hx]
  exact h

theorem clock_inj {a b : Int} (ha : 0 ≤ a) (hb : 0 ≤ b)
    (hours : (a / 3600).toNat = (b / 3600).toNat)
    (minutes : (a / 60 % 60).toNat = (b / 60 % 60).toNat)
    (seconds : (a % 60).toNat = (b % 60).toNat) : a = b := by
  omega

theorem moment_inj {a b : Int} (days : a / 86400000000 = b / 86400000000)
    (seconds : a / 1000000 % 86400 = b / 1000000 % 86400)
    (micros : a % 1000000 = b % 1000000) : a = b := by
  omega

/-- The text of a moment names the moment. -/
theorem isoformat_inj {a b : Instant} (ha : IsDatetime a) (hb : IsDatetime b)
    (h : isoformat a = isoformat b) : a = b := by
  have hlist : (isoformat a).toList = (isoformat b).toList := by rw [h]
  rw [isoformat_toList, isoformat_toList] at hlist
  have dash := head_nonDigit (show '-'.isDigit = false by decide)
  have colon := head_nonDigit (show ':'.isDigit = false by decide)
  obtain ⟨hyear, hlist⟩ := decimal_split (dash _) (dash _) hlist
  obtain ⟨hmonth, hlist⟩ := decimal_split (dash _) (dash _) (List.cons.inj hlist).2
  have tee := head_nonDigit (show 'T'.isDigit = false by decide)
  obtain ⟨hday, hlist⟩ := decimal_split (tee _) (tee _) (List.cons.inj hlist).2
  obtain ⟨hhour, hlist⟩ := decimal_split (colon _) (colon _) (List.cons.inj hlist).2
  obtain ⟨hminute, hlist⟩ := decimal_split (colon _) (colon _) (List.cons.inj hlist).2
  obtain ⟨hsecond, hlist⟩ := decimal_split (isoFraction_head _) (isoFraction_head _)
    (List.cons.inj hlist).2
  have hmicros := isoFraction_inj (by omega) (by omega) hlist
  have lowA : (-62135596800000000 : Int) ≤ a := ha.1
  have lowB : (-62135596800000000 : Int) ≤ b := hb.1
  have dateA := @civil_nonneg (a / 86400000000) (by omega)
  have dateB := @civil_nonneg (b / 86400000000) (by omega)
  have date : a / 86400000000 = b / 86400000000 := by
    apply civil_inj
    exact Prod.ext (by omega) (Prod.ext (by omega) (by omega))
  have seconds : a / 1000000 % 86400 = b / 1000000 % 86400 :=
    clock_inj (Int.emod_nonneg _ (by decide)) (Int.emod_nonneg _ (by decide)) hhour hminute hsecond
  exact moment_inj date seconds hmicros

theorem digit_mem {c : Char} (h : c.isDigit = true) : c ∈ "0123456789".toList := by
  simp only [Char.isDigit, Bool.and_eq_true, decide_eq_true_eq, ge_iff_le, UInt32.le_iff_toNat_le] at h
  obtain ⟨low, high⟩ := h
  have hlow : 48 ≤ c.toNat := low
  have hhigh : c.toNat ≤ 57 := high
  rw [← Char.ofNat_toNat c]
  interval_cases c.toNat <;> decide

/-- The characters of `isoformat`. -/
def isoChars : List Char := "-:T.+0123456789".toList

theorem isoChars_digit {c : Char} (h : c.isDigit = true) : c ∈ isoChars :=
  List.mem_append_right "-:T.+".toList (digit_mem h)

theorem isoFraction_chars (micros : Int) : ∀ c ∈ isoFraction micros, c ∈ isoChars := by
  unfold isoFraction
  rw [List.forall_mem_append]
  constructor
  · split
    · simp
    · exact List.forall_mem_cons.mpr ⟨by decide, fun c hc => isoChars_digit (decimal_isDigit hc)⟩
  · intro c hc
    have zone : "+00:00".toList.all isoChars.contains = true := by decide
    simpa using List.all_eq_true.mp zone c hc

theorem isoformat_chars (moment : Instant) : ∀ c ∈ (isoformat moment).toList, c ∈ isoChars := by
  have digits : ∀ width n, ∀ c ∈ (decimal width n).toList, c ∈ isoChars :=
    fun width n c hc => isoChars_digit (decimal_isDigit hc)
  have dash : '-' ∈ isoChars := by decide
  have colon : ':' ∈ isoChars := by decide
  rw [isoformat_toList]
  simp only [List.forall_mem_append, List.forall_mem_cons]
  exact ⟨digits _ _, dash, digits _ _, dash, digits _ _, by decide, digits _ _, colon, digits _ _,
    colon, digits _ _, isoFraction_chars _⟩

end Aegis
