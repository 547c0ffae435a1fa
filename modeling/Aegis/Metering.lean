import Mathlib.Algebra.Order.Field.Basic
import Mathlib.Tactic.Linarith
import Mathlib.Tactic.Ring

namespace Metering

variable {State Event R : Type*} [Field R] [LinearOrder R] [IsStrictOrderedRing R]

/-- The events of a run that spend, of those between two moments. -/
def spentWithin (step : State → Event → State) (spends : State → Event → Bool)
    (moment : Event → R) (low high : R) : State → List Event → Nat
  | _, [] => 0
  | s, event :: rest =>
    (if spends s event = true ∧ low ≤ moment event ∧ moment event ≤ high then 1 else 0) +
      spentWithin step spends moment low high (step s event) rest

/-- A level that grows at a rate at most while nothing happens, pays one for every event that
spends, and is never negative. -/
structure Meter (step : State → Event → State) (spends : State → Event → Bool)
    (moment : Event → R) (Good : State → Prop) (level : State → R → R) (rate : R) : Prop where
  keeps : ∀ {s} event, Good s → Good (step s event)
  nonneg : ∀ {s} t, Good s → 0 ≤ level s t
  grows : ∀ {s} {t t' : R}, Good s → t ≤ t' → level s t' ≤ level s t + (t' - t) * rate
  pays : ∀ {s} event, Good s → level (step s event) (moment event) +
    (if spends s event = true then 1 else 0) ≤ level s (moment event)

section Bound

variable {step : State → Event → State} {spends : State → Event → Bool} {moment : Event → R}
  {Good : State → Prop} {level : State → R → R} {rate low high : R}

omit [Field R] [IsStrictOrderedRing R] in
theorem spentWithin_eq_zero {events : List Event} (late : ∀ event ∈ events, high < moment event)
    (s : State) : spentWithin step spends moment low high s events = 0 := by
  induction events generalizing s with
  | nil => rfl
  | cons event rest ih =>
    obtain ⟨hevent, hrest⟩ := List.forall_mem_cons.mp late
    have hout : ¬(spends s event = true ∧ low ≤ moment event ∧ moment event ≤ high) :=
      fun h => absurd h.2.2 (not_le.mpr hevent)
    rw [spentWithin, if_neg hout, ih hrest, Nat.add_zero]

/-- From a moment on, a run spends what the level is there and what it gains until the end. -/
theorem Meter.spent_le (meter : Meter step spends moment Good level rate) {events : List Event}
    (ordered : events.Pairwise fun a b => moment a ≤ moment b) {s : State} (good : Good s) {t : R}
    (begun : ∀ event ∈ events, t ≤ moment event) (inside : t ≤ high) :
    (spentWithin step spends moment low high s events : R) ≤ level s t + (high - t) * rate := by
  induction events generalizing s t with
  | nil =>
    have hend := meter.nonneg high good
    have hgrow := meter.grows good inside
    simp only [spentWithin, Nat.cast_zero]
    linarith
  | cons event rest ih =>
    obtain ⟨hfirst, hrest⟩ := List.pairwise_cons.mp ordered
    have hstart := begun event List.mem_cons_self
    by_cases hlate : high < moment event
    · have hnone := @spentWithin_eq_zero _ _ _ _ step spends moment low high (event :: rest)
        (List.forall_mem_cons.mpr ⟨hlate, fun e he => lt_of_lt_of_le hlate (hfirst e he)⟩) s
      have hend := meter.nonneg high good
      have hgrow := meter.grows good inside
      rw [hnone, Nat.cast_zero]
      linarith
    · have hcost : ((if spends s event = true ∧ low ≤ moment event ∧ moment event ≤ high then 1
          else 0 : Nat) : R) ≤ if spends s event = true then 1 else 0 := by
        by_cases hspends : spends s event = true
        · rw [if_pos hspends]
          split <;> simp
        · rw [if_neg hspends, if_neg fun h => hspends h.1, Nat.cast_zero]
      have hlater := ih hrest (meter.keeps event good) hfirst (not_lt.mp hlate)
      have hpays := meter.pays event good
      have hgrow := meter.grows good hstart
      rw [spentWithin, Nat.cast_add]
      calc _ ≤ (if spends s event = true then 1 else 0) +
            (level (step s event) (moment event) + (high - moment event) * rate) :=
          add_le_add hcost hlater
        _ ≤ level s (moment event) + (high - moment event) * rate := by linarith
        _ ≤ level s t + (moment event - t) * rate + (high - moment event) * rate := by linarith
        _ = level s t + (high - t) * rate := by ring

/-- Between two moments a run spends the highest level and what it gains in between at most. -/
theorem Meter.spentWithin_le (meter : Meter step spends moment Good level rate) {cap : R}
    (capped : ∀ s t, level s t ≤ cap) {events : List Event}
    (ordered : events.Pairwise fun a b => moment a ≤ moment b) {s : State} (good : Good s)
    (inside : low ≤ high) :
    (spentWithin step spends moment low high s events : R) ≤ cap + (high - low) * rate := by
  induction events generalizing s with
  | nil =>
    have hgrow := meter.grows good inside
    have hend := meter.nonneg high good
    have hcap := capped s low
    simp only [spentWithin, Nat.cast_zero]
    linarith
  | cons event rest ih =>
    obtain ⟨hfirst, hrest⟩ := List.pairwise_cons.mp ordered
    by_cases hearly : moment event < low
    · have hout : ¬(spends s event = true ∧ low ≤ moment event ∧ moment event ≤ high) :=
        fun h => absurd h.2.1 (not_le.mpr hearly)
      rw [spentWithin, if_neg hout, Nat.zero_add]
      exact ih hrest (meter.keeps event good)
    · have hbegun : ∀ e ∈ event :: rest, low ≤ moment e :=
        List.forall_mem_cons.mpr ⟨not_lt.mp hearly, fun e he =>
          (not_lt.mp hearly).trans (hfirst e he)⟩
      have hspent : (spentWithin step spends moment low high s (event :: rest) : R) ≤
          level s low + (high - low) * rate := meter.spent_le ordered good hbegun inside
      have hcap := capped s low
      linarith

end Bound

end Metering
