import Aegis.IncidentSignals
import Aegis.CodeTools

namespace Aegis

/-- The service of a fingerprint. -/
def fingerprintService (lower : String → String) (affectedService : String) : String :=
  lower (strip affectedService)

/-- The scenario of a fingerprint, "unspecified" for a blank one. -/
def fingerprintScenario (lower : String → String) (scenario : Option String) : String :=
  let key := lower (strip (scenario.getD ""))
  if key = "" then "unspecified" else key

/-- The calendar hour of a moment, counted from the epoch. -/
def utcHour (moment : Instant) : Int := moment / 3600000000

/-- One text of a service and a scenario, cut at two of its bars. -/
def CutApart (service scenario otherService otherScenario : String) : Prop :=
  ∃ between, otherService = service ++ "|" ++ between ∧ scenario = between ++ "|" ++ otherScenario

/-- What a field of a fingerprint is read as. -/
def fieldScenario (lower : String → String) (field : List Char) : String :=
  if strip (String.ofList field) = "" then "unspecified" else lower (strip (String.ofList field))

/-- The scenario has no bar; if the service has one, the scenario stands after it. -/
def ThirdField (lower : String → String) (service scenario : String) : Prop :=
  '|' ∉ scenario.toList ∧
    ∀ first second rest, service.toList.splitOn '|' = first :: second :: rest →
      fieldScenario lower second = scenario

/-- What `str.lower` does to white space, to bars and to ASCII text. -/
structure LowersText (lower : String → String) : Prop where
  twice : ∀ text, lower (lower text) = lower text
  stripped : ∀ text, strip (lower (strip text)) = lower (strip text)
  bars : ∀ text, '|' ∈ (lower text).toList → '|' ∈ text.toList
  ascii : ∀ text, (∀ c ∈ text.toList, c.toNat < 128) → lower text = asciiLower text

section Hour

theorem hourText_toList (moment : Instant) :
    (hourText moment).toList =
      (decimal 4 (civil (moment / 86400000000)).1.toNat).toList ++ '-' ::
      ((decimal 2 (civil (moment / 86400000000)).2.1.toNat).toList ++ '-' ::
      ((decimal 2 (civil (moment / 86400000000)).2.2.toNat).toList ++ 'T' ::
      ((decimal 2 (moment / 1000000 % 86400 / 3600).toNat).toList ++ []))) := by
  unfold hourText
  dsimp only
  simp [String.toList_append, List.append_assoc]

theorem hourText_noBar (moment : Instant) : '|' ∉ (hourText moment).toList := by
  have digits : ∀ width n, '|' ∉ (decimal width n).toList := by
    intro width n hmem
    have hdigit := decimal_isDigit hmem
    exact absurd hdigit (by decide)
  rw [hourText_toList]
  simp [digits]

/-- An hour is a day and an hour of the day. -/
theorem utcHour_eq (moment : Instant) :
    utcHour moment = moment / 86400000000 * 24 + moment / 1000000 % 86400 / 3600 := by
  have hday : moment / 86400000000 = moment / 1000000 / 86400 := by
    rw [Int.ediv_ediv_of_nonneg (by omega)]
    rfl
  have hhour : moment / 3600000000 = moment / 1000000 / 3600 := by
    rw [Int.ediv_ediv_of_nonneg (by omega)]
    rfl
  unfold utcHour
  rw [hday, hhour]
  omega

theorem hourOfDay_bounds (moment : Int) :
    0 ≤ moment / 1000000 % 86400 / 3600 ∧ moment / 1000000 % 86400 / 3600 < 24 := by
  omega

theorem dayHour_inj {day other hour otherHour : Int} (h : 0 ≤ hour ∧ hour < 24)
    (ho : 0 ≤ otherHour ∧ otherHour < 24) :
    day * 24 + hour = other * 24 + otherHour ↔ day = other ∧ hour.toNat = otherHour.toNat := by
  omega

theorem hourText_eq_iff {a b : Instant} (ha : IsDatetime a) (hb : IsDatetime b) :
    hourText a = hourText b ↔ utcHour a = utcHour b := by
  have lowA : (-62135596800000000 : Int) ≤ a := ha.1
  have lowB : (-62135596800000000 : Int) ≤ b := hb.1
  rw [utcHour_eq, utcHour_eq, dayHour_inj (hourOfDay_bounds a) (hourOfDay_bounds b)]
  constructor
  · intro h
    have hlist : (hourText a).toList = (hourText b).toList := by rw [h]
    rw [hourText_toList, hourText_toList] at hlist
    have dash := head_nonDigit (show '-'.isDigit = false by decide)
    have tee := head_nonDigit (show 'T'.isDigit = false by decide)
    obtain ⟨hyear, hlist⟩ := decimal_split (dash _) (dash _) hlist
    obtain ⟨hmonth, hlist⟩ := decimal_split (dash _) (dash _) (List.cons.inj hlist).2
    obtain ⟨hday, hlist⟩ := decimal_split (tee _) (tee _) (List.cons.inj hlist).2
    obtain ⟨hhour, _⟩ := decimal_split (by simp) (by simp) (List.cons.inj hlist).2
    have dateA := @civil_nonneg (a / 86400000000) (by omega)
    have dateB := @civil_nonneg (b / 86400000000) (by omega)
    refine ⟨civil_inj ?_, hhour⟩
    exact Prod.ext (by omega) (Prod.ext (by omega) (by omega))
  · rintro ⟨hday, hhour⟩
    unfold hourText
    rw [hday, hhour]

end Hour

section Bars

variable {lower : String → String} {s t u v : List Char}

theorem lastBar_inj (hu : '|' ∉ u) (hv : '|' ∉ v) (h : s ++ '|' :: u = t ++ '|' :: v) :
    s = t ∧ u = v := by
  rcases List.append_eq_append_iff.mp h with ⟨m, ht, hm⟩ | ⟨m, hs, hm⟩
  · cases m with
    | nil => exact ⟨by rw [ht, List.append_nil], (List.cons.inj hm).2⟩
    | cons c m => exact absurd (by rw [(List.cons.inj hm).2]; simp) hu
  · cases m with
    | nil => exact ⟨by rw [hs, List.append_nil], (List.cons.inj hm).2.symm⟩
    | cons c m => exact absurd (by rw [(List.cons.inj hm).2]; simp) hv

theorem joined_eq_iff : s ++ '|' :: u = t ++ '|' :: v ↔
    (s = t ∧ u = v) ∨ (∃ m, t = s ++ '|' :: m ∧ u = m ++ '|' :: v) ∨
      ∃ m, s = t ++ '|' :: m ∧ v = m ++ '|' :: u := by
  constructor
  · intro h
    rcases List.append_eq_append_iff.mp h with ⟨m, ht, hm⟩ | ⟨m, hs, hm⟩
    · cases m with
      | nil => exact .inl ⟨by rw [ht, List.append_nil], (List.cons.inj hm).2⟩
      | cons c m =>
        obtain ⟨rfl, hu⟩ := List.cons.inj hm
        exact .inr (.inl ⟨m, ht, hu⟩)
    · cases m with
      | nil => exact .inl ⟨by rw [hs, List.append_nil], (List.cons.inj hm).2.symm⟩
      | cons c m =>
        obtain ⟨rfl, hv⟩ := List.cons.inj hm
        exact .inr (.inr ⟨m, hs, hv⟩)
  · rintro (⟨rfl, rfl⟩ | ⟨m, rfl, rfl⟩ | ⟨m, rfl, rfl⟩)
    · rfl
    · rw [List.append_assoc, List.cons_append]
    · rw [List.append_assoc, List.cons_append]

theorem line_eq_iff {x y : List Char} (hx : '|' ∉ x) (hy : '|' ∉ y) :
    s ++ '|' :: (u ++ '|' :: x) = t ++ '|' :: (v ++ '|' :: y) ↔ x = y ∧
      ((s = t ∧ u = v) ∨ (∃ m, t = s ++ '|' :: m ∧ u = m ++ '|' :: v) ∨
        ∃ m, s = t ++ '|' :: m ∧ v = m ++ '|' :: u) := by
  have front : ∀ a b c : List Char, a ++ '|' :: (b ++ '|' :: c) = (a ++ '|' :: b) ++ '|' :: c := by
    intro a b c
    rw [List.append_assoc, List.cons_append]
  rw [front, front, ← joined_eq_iff]
  constructor
  · intro h
    obtain ⟨hjoined, hlast⟩ := lastBar_inj hx hy h
    exact ⟨hlast, hjoined⟩
  · rintro ⟨rfl, hjoined⟩
    rw [hjoined]

theorem field_noBar {field : List Char} (h : field ∈ s.splitOn '|') : '|' ∉ field := by
  induction s generalizing field with
  | nil =>
    rw [List.splitOn_nil, List.mem_singleton] at h
    rw [h]
    exact List.not_mem_nil
  | cons c s ih =>
    rw [List.splitOn_cons_eq_if_modifyHead] at h
    obtain ⟨first, rest, hsplit⟩ := List.exists_cons_of_ne_nil (List.splitOn_ne_nil '|' s)
    rw [hsplit] at h ih
    split at h
    next =>
      rcases List.mem_cons.mp h with rfl | h
      · exact List.not_mem_nil
      · exact ih h
    next hc =>
      rw [List.modifyHead_cons] at h
      rcases List.mem_cons.mp h with rfl | h
      · intro hmem
        rcases List.mem_cons.mp hmem with hbar | hmem
        · exact hc (by rw [← hbar]; rfl)
        · exact ih List.mem_cons_self hmem
      · exact ih (List.mem_cons_of_mem _ h)

end Bars

section Accepted

variable {lower : String → String} {service : String} {scenario : Option String}
  {occurredAt : Instant} {fingerprint : String} {stored : RequiredText}

theorem computeFingerprint_toList
    (h : computeFingerprint lower service scenario occurredAt = .ok fingerprint) :
    fingerprint.toList = "v1".toList ++ '|' :: ((fingerprintService lower service).toList ++ '|' ::
      ((fingerprintScenario lower scenario).toList ++ '|' :: (hourText occurredAt).toList)) := by
  unfold computeFingerprint at h
  dsimp only at h
  split at h
  · cases h
  · cases h
    unfold fingerprintService fingerprintScenario
    simp [String.toList_append, List.append_assoc]

theorem fieldScenario_key (lowers : LowersText lower) (scenario : Option String) :
    fieldScenario lower (fingerprintScenario lower scenario).toList =
      fingerprintScenario lower scenario := by
  unfold fieldScenario
  rw [String.ofList_toList]
  unfold fingerprintScenario
  dsimp only
  split
  · have hlower : lower "unspecified" = asciiLower "unspecified" := by
      refine lowers.ascii _ fun c hc => ?_
      have hall := List.all_eq_true.mp
        (show "unspecified".toList.all (fun c => decide (c.toNat < 128)) = true by decide) c hc
      exact of_decide_eq_true hall
    have hstrip : strip "unspecified" = "unspecified" := by decide
    rw [hstrip, hlower]
    decide
  next hne => rw [lowers.stripped, if_neg hne, lowers.twice]

theorem fieldScenario_noBar (lowers : LowersText lower) {field : List Char} (h : '|' ∉ field) :
    '|' ∉ (fieldScenario lower field).toList := by
  unfold fieldScenario
  split
  · decide
  · intro hmem
    have hstrip := lowers.bars _ hmem
    unfold strip at hstrip
    rw [String.toList_ofList, String.toList_ofList] at hstrip
    have hdrop := (List.rdropWhile_prefix isSpace _).subset hstrip
    exact h ((List.dropWhile_sublist _).subset hdrop)

theorem scenarioFromFingerprint_eq {first second third : List Char} {rest : List (List Char)}
    (h : stored.text.toList.splitOn '|' = first :: second :: third :: rest) :
    scenarioFromFingerprint lower (some stored) = fieldScenario lower third := by
  unfold scenarioFromFingerprint
  dsimp only
  rw [h]
  rfl

theorem decodes_iff (lowers : LowersText lower)
    (h : computeFingerprint lower service scenario occurredAt = .ok stored.text) :
    scenarioFromFingerprint lower (some stored) = fingerprintScenario lower scenario ↔
      ThirdField lower (fingerprintService lower service) (fingerprintScenario lower scenario) := by
  have hfields := computeFingerprint_toList h
  generalize hkey : fingerprintService lower service = key at hfields
  have hsplit : stored.text.toList.splitOn '|' = "v1".toList :: (key.toList.splitOn '|' ++
      (fingerprintScenario lower scenario).toList.splitOn '|' ++
        (hourText occurredAt).toList.splitOn '|') := by
    rw [hfields, List.splitOn_append_cons_self_of_not_mem (by decide), List.splitOn_append_cons_self,
      List.splitOn_append_cons_self, List.append_assoc]
  obtain ⟨first, rest, hservice⟩ := List.exists_cons_of_ne_nil (List.splitOn_ne_nil '|' key.toList)
  cases rest with
  | nil =>
    obtain ⟨third, later, hscenario⟩ := List.exists_cons_of_ne_nil
      (List.splitOn_ne_nil '|' (fingerprintScenario lower scenario).toList)
    rw [hservice, hscenario] at hsplit
    rw [scenarioFromFingerprint_eq hsplit]
    have hthird : '|' ∉ third := field_noBar (by rw [hscenario]; exact List.mem_cons_self)
    constructor
    · intro hread
      refine ⟨?_, fun first second rest hfields => ?_⟩
      · rw [← hread]
        exact fieldScenario_noBar lowers hthird
      · rw [hservice] at hfields
        cases hfields
    · rintro ⟨hbar, _⟩
      rw [List.splitOn_eq_singleton hbar] at hscenario
      obtain ⟨rfl, _⟩ := List.cons.inj hscenario
      exact fieldScenario_key lowers scenario
  | cons second rest =>
    rw [hservice] at hsplit
    rw [scenarioFromFingerprint_eq hsplit]
    have hsecond : '|' ∉ second := field_noBar (s := key.toList) (by rw [hservice]; simp)
    constructor
    · intro hread
      refine ⟨?_, fun front field back hfields => ?_⟩
      · rw [← hread]
        exact fieldScenario_noBar lowers hsecond
      · rw [hservice] at hfields
        obtain ⟨_, hrest⟩ := List.cons.inj hfields
        obtain ⟨rfl, _⟩ := List.cons.inj hrest
        exact hread
    · rintro ⟨_, hread⟩
      exact hread first second rest hservice

end Accepted

section Signals

variable {lower : String → String} {service otherService : String}
  {scenario otherScenario : Option String} {occurredAt otherAt : Instant}
  {fingerprint otherFingerprint : String}

theorem fingerprint_eq_iff (hdate : IsDatetime occurredAt) (hother : IsDatetime otherAt)
    (h : computeFingerprint lower service scenario occurredAt = .ok fingerprint)
    (ho : computeFingerprint lower otherService otherScenario otherAt = .ok otherFingerprint) :
    fingerprint = otherFingerprint ↔ utcHour occurredAt = utcHour otherAt ∧
      ((fingerprintService lower service = fingerprintService lower otherService ∧
        fingerprintScenario lower scenario = fingerprintScenario lower otherScenario) ∨
      CutApart (fingerprintService lower service) (fingerprintScenario lower scenario)
        (fingerprintService lower otherService) (fingerprintScenario lower otherScenario) ∨
      CutApart (fingerprintService lower otherService) (fingerprintScenario lower otherScenario)
        (fingerprintService lower service) (fingerprintScenario lower scenario)) := by
  have cut : ∀ a b c d : String, CutApart a b c d ↔
      ∃ m, c.toList = a.toList ++ '|' :: m ∧ b.toList = m ++ '|' :: d.toList := by
    intro a b c d
    constructor
    · rintro ⟨between, rfl, rfl⟩
      exact ⟨between.toList, by simp, by simp⟩
    · rintro ⟨m, hc, hb⟩
      exact ⟨String.ofList m, String.toList_inj.mp (by simp [hc]), String.toList_inj.mp (by simp [hb])⟩
  rw [cut, cut, ← hourText_eq_iff hdate hother, ← @String.toList_inj fingerprint,
    computeFingerprint_toList h, computeFingerprint_toList ho, List.append_cancel_left_eq,
    List.cons.injEq, eq_self, true_and, line_eq_iff (hourText_noBar _) (hourText_noBar _),
    String.toList_inj, String.toList_inj, String.toList_inj]

theorem not_cutApart_of_eq {a b c d : String} (h : a = c) : ¬ CutApart a b c d := by
  rintro ⟨between, hcut, _⟩
  have hlength := congrArg String.length (h.trans hcut)
  simp only [String.length_append] at hlength
  have : "|".length = 1 := rfl
  omega

/-- Two accepted signals have one fingerprint exactly if they agree, and a fingerprint gives its
scenario back, unless a bar in a service or in a scenario is taken for a bar between two fields. -/
theorem fingerprints_faithful_iff (lowers : LowersText lower) (hdate : IsDatetime occurredAt)
    (hother : IsDatetime otherAt)
    (h : computeFingerprint lower service scenario occurredAt = .ok fingerprint)
    (ho : computeFingerprint lower otherService otherScenario otherAt = .ok otherFingerprint) :
    ((fingerprint = otherFingerprint ↔
        fingerprintService lower service = fingerprintService lower otherService ∧
        fingerprintScenario lower scenario = fingerprintScenario lower otherScenario ∧
        utcHour occurredAt = utcHour otherAt) ↔
      ¬ (utcHour occurredAt = utcHour otherAt ∧
        (CutApart (fingerprintService lower service) (fingerprintScenario lower scenario)
            (fingerprintService lower otherService) (fingerprintScenario lower otherScenario) ∨
          CutApart (fingerprintService lower otherService)
            (fingerprintScenario lower otherScenario) (fingerprintService lower service)
            (fingerprintScenario lower scenario)))) ∧
    ∀ stored : RequiredText, stored.text = fingerprint →
      (scenarioFromFingerprint lower (some stored) = fingerprintScenario lower scenario ↔
        ThirdField lower (fingerprintService lower service)
          (fingerprintScenario lower scenario)) := by
  refine ⟨?_, fun stored hstored => decodes_iff lowers (by rw [hstored]; exact h)⟩
  rw [fingerprint_eq_iff hdate hother h ho]
  constructor
  · rintro hinjective ⟨hhour, hcut⟩
    obtain ⟨hservice, _, _⟩ := hinjective.mp ⟨hhour, .inr hcut⟩
    rcases hcut with hcut | hcut
    · exact not_cutApart_of_eq hservice hcut
    · exact not_cutApart_of_eq hservice.symm hcut
  · intro hwhole
    constructor
    · rintro ⟨hhour, ⟨hservice, hscenario⟩ | hcut⟩
      · exact ⟨hservice, hscenario, hhour⟩
      · exact absurd ⟨hhour, hcut⟩ hwhole
    · rintro ⟨hservice, hscenario, hhour⟩
      exact ⟨hhour, .inl ⟨hservice, hscenario⟩⟩

end Signals

section Ascii

theorem toLower_cases (c : Char) :
    (c.isUpper = false ∧ c.toLower = c) ∨ (c.isUpper = true ∧ c.toLower.isLower = true) := by
  by_cases hupper : c.val ≥ 'A'.val ∧ c.val ≤ 'Z'.val
  · refine .inr ⟨by simpa [isUpper_eq] using hupper, ?_⟩
    have hval := toLower_of_upper hupper
    obtain ⟨low, high⟩ := hupper
    rw [ge_iff_le, UInt32.le_iff_toNat_le] at low
    rw [UInt32.le_iff_toNat_le] at high
    have hlow : 65 ≤ c.val.toNat := low
    have hhigh : c.val.toNat ≤ 90 := high
    have hsum : (c.val + 32).toNat = c.val.toNat + 32 := by
      rw [UInt32.toNat_add, show (32 : UInt32).toNat = 32 from rfl]
      omega
    simp only [isLower_eq, Bool.and_eq_true, decide_eq_true_eq, ge_iff_le,
      UInt32.le_iff_toNat_le, hval]
    change 97 ≤ (c.val + 32).toNat ∧ (c.val + 32).toNat ≤ 122
    omega
  · exact .inl ⟨by simpa [isUpper_eq] using hupper, toLower_of_not_upper hupper⟩

theorem isSpace_toLower (c : Char) : isSpace c.toLower = isSpace c := by
  rcases toLower_cases c with ⟨_, hsame⟩ | ⟨hupper, hlower⟩
  · rw [hsame]
  · rw [isSpace_of_isAlphanum (by simp [Char.isAlphanum, isAlpha_eq, hlower]),
      isSpace_of_isAlphanum (by simp [Char.isAlphanum, isAlpha_eq, hupper])]

theorem toLower_toLower (c : Char) : c.toLower.toLower = c.toLower := by
  rcases toLower_cases c with ⟨_, hsame⟩ | ⟨_, hlower⟩
  · rw [hsame, hsame]
  · rcases toLower_cases c.toLower with ⟨_, hsame⟩ | ⟨hupper, _⟩
    · exact hsame
    · simp only [isUpper_eq, isLower_eq, Bool.and_eq_true, decide_eq_true_eq,
        UInt32.le_iff_toNat_le, ge_iff_le] at hupper hlower
      exact absurd (hlower.1.trans hupper.2) (by decide)

theorem strip_asciiLower (text : String) : strip (asciiLower text) = asciiLower (strip text) := by
  have hspace : isSpace ∘ Char.toLower = isSpace := funext isSpace_toLower
  unfold strip asciiLower List.rdropWhile
  rw [String.toList_ofList, String.toList_ofList, List.dropWhile_map, hspace, ← List.map_reverse,
    List.dropWhile_map, hspace, ← List.map_reverse]

theorem asciiLower_lowers : LowersText asciiLower := by
  refine ⟨fun text => ?_, fun text => ?_, fun text h => ?_, fun _ _ => rfl⟩
  · unfold asciiLower
    rw [String.toList_ofList, List.map_map]
    congr 2
    exact funext toLower_toLower
  · rw [strip_asciiLower, strip_strip]
  · unfold asciiLower at h
    rw [String.toList_ofList] at h
    obtain ⟨c, hmem, hc⟩ := List.mem_map.mp h
    rcases toLower_cases c with ⟨_, hsame⟩ | ⟨_, hlower⟩
    · rw [hsame] at hc
      rwa [← hc]
    · rw [hc] at hlower
      exact absurd hlower (by decide)

end Ascii

/-- 14:30 of 2026-09-02. -/
def signalAt : Instant := 1788359400000000

theorem fingerprints_faithful_payment :
    ("v1|payment|unspecified|2026-09-02T14" = "v1|payment|latency|2026-09-02T14" ↔
      fingerprintService asciiLower " Payment " = fingerprintService asciiLower "payment" ∧
      fingerprintScenario asciiLower none = fingerprintScenario asciiLower (some "Latency") ∧
      utcHour signalAt = utcHour signalAt) := by
  have hdate : IsDatetime signalAt := by
    unfold IsDatetime signalAt
    exact ⟨by decide, by decide⟩
  refine (@fingerprints_faithful_iff asciiLower " Payment " "payment" none (some "Latency") signalAt
    signalAt _ _ asciiLower_lowers hdate hdate (by decide +kernel) (by decide +kernel)).1.mpr ?_
  have hsame : fingerprintService asciiLower " Payment " =
      fingerprintService asciiLower "payment" := by decide +kernel
  rintro ⟨_, hcut | hcut⟩
  · exact not_cutApart_of_eq hsame hcut
  · exact not_cutApart_of_eq hsame.symm hcut

/-- A bar in a service makes one fingerprint of two services, and another specialist's scenario of
the second half. -/
theorem fingerprint_shared :
    computeFingerprint asciiLower "payments|eu" (some "latency") signalAt =
      .ok "v1|payments|eu|latency|2026-09-02T14" ∧
    computeFingerprint asciiLower "payments" (some "eu|latency") signalAt =
      .ok "v1|payments|eu|latency|2026-09-02T14" ∧
    fingerprintService asciiLower "payments|eu" ≠ fingerprintService asciiLower "payments" ∧
    fingerprintScenario asciiLower (some "latency") = "latency" ∧
    ∀ stored : RequiredText, stored.text = "v1|payments|eu|latency|2026-09-02T14" →
      scenarioFromFingerprint asciiLower (some stored) = "eu" := by
  refine ⟨by decide +kernel, by decide +kernel, by decide +kernel, by decide +kernel, ?_⟩
  intro stored h
  have hsplit : stored.text.toList.splitOn '|' = ["v1".toList, "payments".toList, "eu".toList,
      "latency".toList, "2026-09-02T14".toList] := by
    rw [h]
    decide +kernel
  rw [scenarioFromFingerprint_eq hsplit]
  decide +kernel

end Aegis
