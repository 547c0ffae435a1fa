import Mathlib.Data.List.Basic

namespace Trails

variable {Node Edge : Type*} {source target : Edge → Node}

/-- The edges, in list order, lead from the first node to the second. -/
inductive Trail (source target : Edge → Node) : Node → List Edge → Node → Prop
  | nil {a} : Trail source target a [] a
  | cons {e es b} : Trail source target (target e) es b → Trail source target (source e) (e :: es) b

variable {a b c : Node} {e : Edge} {es fs : List Edge}

theorem trail_nil_iff : Trail source target a [] b ↔ a = b := by
  constructor
  · intro h
    cases h
    rfl
  · rintro rfl
    exact Trail.nil

theorem trail_cons_iff :
    Trail source target a (e :: es) b ↔ a = source e ∧ Trail source target (target e) es b := by
  constructor
  · intro h
    cases h with
    | cons h => exact ⟨rfl, h⟩
  · rintro ⟨rfl, h⟩
    exact Trail.cons h

theorem trail_append_iff : Trail source target a (es ++ fs) c ↔
    ∃ b, Trail source target a es b ∧ Trail source target b fs c := by
  induction es generalizing a with
  | nil =>
    simp only [List.nil_append, trail_nil_iff]
    constructor
    · intro h
      exact ⟨a, rfl, h⟩
    · rintro ⟨b, rfl, h⟩
      exact h
  | cons e es ih =>
    simp only [List.cons_append, trail_cons_iff, ih]
    constructor
    · rintro ⟨ha, b, hes, hfs⟩
      exact ⟨b, ⟨ha, hes⟩, hfs⟩
    · rintro ⟨b, ⟨ha, hes⟩, hfs⟩
      exact ⟨ha, b, hes, hfs⟩

theorem trail_end_unique (h : Trail source target a es b) (h' : Trail source target a es c) :
    b = c := by
  induction h with
  | nil => exact trail_nil_iff.mp h'
  | cons _ ih => exact ih (trail_cons_iff.mp h').2

/-- One more edge extends a trail exactly when it starts where the trail ends. -/
theorem trail_concat_iff (h : Trail source target a es b) :
    Trail source target a (es ++ [e]) c ↔ source e = b ∧ target e = c := by
  rw [trail_append_iff]
  simp only [trail_cons_iff, trail_nil_iff]
  constructor
  · rintro ⟨d, hd, rfl, hc⟩
    exact ⟨trail_end_unique hd h, hc⟩
  · rintro ⟨hsource, htarget⟩
    exact ⟨b, h, hsource.symm, htarget⟩

/-- Along edges that raise a rank, every edge starts below the end of the trail. -/
theorem trail_source_lt {rank : Node → Nat} (h : Trail source target a es b)
    (rises : ∀ e ∈ es, rank (source e) < rank (target e)) :
    (es = [] ∨ rank a < rank b) ∧ ∀ e ∈ es, rank (source e) < rank b := by
  induction h with
  | nil => exact ⟨Or.inl rfl, by simp⟩
  | @cons e es b htail ih =>
    have hfirst : rank (source e) < rank (target e) := rises e (by simp)
    obtain ⟨hend, hrest⟩ := ih fun f hf => rises f (List.mem_cons_of_mem e hf)
    have hlast : rank (source e) < rank b := by
      rcases hend with hnil | hlt
      · subst hnil
        rw [← trail_nil_iff.mp htail]
        exact hfirst
      · omega
    refine ⟨Or.inr hlast, ?_⟩
    intro f hf
    rcases List.mem_cons.mp hf with rfl | hf
    · exact hlast
    · exact hrest f hf

end Trails
