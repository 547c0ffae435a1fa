import Mathlib.Data.List.Chain
import Mathlib.Data.List.Sort

namespace TimeOrder

variable {Entry Time : Type*} [LinearOrder Time] {time : Entry → Time} {entries rows : List Entry}

/-- The entries of a list in some order of their times: entries of one time come in any order. -/
structure Ordered (time : Entry → Time) (entries rows : List Entry) : Prop where
  perm : rows.Perm entries
  sorted : rows.Pairwise fun a b => time a ≤ time b

theorem sorted_ordered (time : Entry → Time) (entries : List Entry) :
    Ordered time entries (entries.insertionSort fun a b => time a ≤ time b) := by
  have total : Std.Total fun a b : Entry => time a ≤ time b := ⟨fun a b => le_total _ _⟩
  have trans : IsTrans Entry fun a b => time a ≤ time b := ⟨fun _ _ _ => le_trans⟩
  exact ⟨List.perm_insertionSort _ _, List.pairwise_insertionSort _ _⟩

theorem ordered_exists (time : Entry → Time) (entries : List Entry) :
    ∃ rows, Ordered time entries rows := ⟨_, sorted_ordered time entries⟩

theorem eq_of_time_eq {a b : Entry} (strict : entries.Pairwise fun a b => time a < time b)
    (ha : a ∈ entries) (hb : b ∈ entries) (same : time a = time b) : a = b := by
  induction strict with
  | nil => cases ha
  | @cons first rest hfirst _ ih =>
    rcases List.mem_cons.mp ha with rfl | hrest
    · rcases List.mem_cons.mp hb with rfl | later
      · rfl
      · exact absurd same (ne_of_lt (hfirst b later))
    · rcases List.mem_cons.mp hb with rfl | later
      · exact absurd same (ne_of_gt (hfirst a hrest))
      · exact ih hrest later

/-- Where each entry is later than the one before, there is one order of the times. -/
theorem ordered_unique (strict : entries.Pairwise fun a b => time a < time b)
    (h : Ordered time entries rows) : rows = entries := by
  refine h.perm.eq_of_pairwise (fun a b ha hb hab hba => ?_) h.sorted (strict.imp le_of_lt)
  exact eq_of_time_eq strict (h.perm.mem_iff.mp ha) hb (le_antisymm hab hba)

theorem ordered_swap {a b : Entry} {front back : List Entry}
    (sorted : (front ++ a :: b :: back).Pairwise fun a b => time a ≤ time b)
    (same : time a = time b) :
    Ordered time (front ++ a :: b :: back) (front ++ b :: a :: back) := by
  refine ⟨List.Perm.append_left front (List.Perm.swap a b back), ?_⟩
  simp only [List.pairwise_append, List.pairwise_cons, List.forall_mem_cons] at sorted ⊢
  obtain ⟨hfront, ⟨⟨_, ha⟩, hb, hback⟩, hcross⟩ := sorted
  refine ⟨hfront, ⟨⟨ge_of_eq same, hb⟩, ha, hback⟩, fun x hx => ?_⟩
  obtain ⟨hxa, hxb, hrest⟩ := hcross x hx
  exact ⟨hxb, hxa, hrest⟩

theorem Ordered.of_perm {others : List Entry} (h : Ordered time entries rows)
    (perm : entries.Perm others) : Ordered time others rows :=
  ⟨h.perm.trans perm, h.sorted⟩

theorem perm_map_exists {Row : Type*} {f : Entry → Row} {images : List Row}
    (h : images.Perm (entries.map f)) :
    ∃ order : List Entry, order.Perm entries ∧ images = order.map f := by
  induction entries generalizing images with
  | nil => exact ⟨[], List.Perm.refl _, List.perm_nil.mp h⟩
  | cons entry entries ih =>
    obtain ⟨front, back, rfl⟩ := List.append_of_mem (h.mem_iff.mpr List.mem_cons_self)
    obtain ⟨order, hperm, hmap⟩ := ih (List.perm_middle.symm.trans h).cons_inv
    obtain ⟨first, last, rfl, rfl, rfl⟩ := List.map_eq_append_iff.mp hmap.symm
    refine ⟨first ++ entry :: last, List.perm_middle.trans (hperm.cons entry), ?_⟩
    rw [List.map_append, List.map_cons]

/-- Rows that carry the times of entries are ordered as the entries are. -/
theorem ordered_map {Row : Type*} {f : Entry → Row} {rowTime : Row → Time} {images : List Row}
    (same : ∀ entry, rowTime (f entry) = time entry) :
    Ordered rowTime (entries.map f) images ↔
      ∃ order, Ordered time entries order ∧ images = order.map f := by
  constructor
  · intro h
    obtain ⟨order, hperm, rfl⟩ := perm_map_exists h.perm
    refine ⟨order, ⟨hperm, ?_⟩, rfl⟩
    have hsorted := List.pairwise_map.mp h.sorted
    simpa only [same] using hsorted
  · rintro ⟨order, h, rfl⟩
    refine ⟨h.perm.map f, List.pairwise_map.mpr ?_⟩
    simpa only [same] using h.sorted

/-- There is one order of the times exactly when different entries have different times. -/
theorem ordered_one_iff :
    (∀ rows others, Ordered time entries rows → Ordered time entries others → rows = others) ↔
      ∀ a ∈ entries, ∀ b ∈ entries, time a = time b → a = b := by
  constructor
  · intro one a ha b hb same
    have hrows := sorted_ordered time entries
    generalize entries.insertionSort (fun a b => time a ≤ time b) = rows at hrows
    have chain : rows.IsChain fun a b => time a < time b ∨ a = b := by
      rw [List.isChain_iff_forall_rel_of_append_cons_cons]
      rintro x y front tail rfl
      have hle : time x ≤ time y :=
        (List.pairwise_cons.mp (List.pairwise_append.mp hrows.sorted).2.1).1 y List.mem_cons_self
      refine (lt_or_eq_of_le hle).imp id fun htie => ?_
      have hswap := one _ _ hrows ((ordered_swap hrows.sorted htie).of_perm hrows.perm)
      exact (List.cons.inj (List.append_cancel_left hswap)).1
    have trans : IsTrans Entry fun a b => time a < time b ∨ a = b := by
      refine ⟨fun x y z hxy hyz => ?_⟩
      rcases hxy with hxy | rfl
      · rcases hyz with hyz | rfl
        · exact .inl (hxy.trans hyz)
        · exact .inl hxy
      · exact hyz
    have apart : rows.Pairwise fun a b => time a = time b → a = b := by
      refine (List.isChain_iff_pairwise.mp chain).imp fun {x y} h htie => ?_
      exact h.resolve_left (by rw [htie]; exact lt_irrefl _)
    have symm : Std.Symm fun a b : Entry => time a = time b → a = b :=
      ⟨fun x y h htie => (h htie.symm).symm⟩
    exact apart.forall_of_forall (fun _ _ _ => rfl) (hrows.perm.mem_iff.mpr ha)
      (hrows.perm.mem_iff.mpr hb) same
  · intro apart rows others hrows hothers
    refine (hrows.perm.trans hothers.perm.symm).eq_of_pairwise (fun a b ha hb hab hba => ?_)
      hrows.sorted hothers.sorted
    exact apart a (hrows.perm.mem_iff.mp ha) b (hothers.perm.mem_iff.mp hb) (le_antisymm hab hba)

/-- Entries come back in their order, whatever the order among equal times, exactly when each is
later than the one before. -/
theorem ordered_back_iff (nodup : entries.Nodup) :
    (∀ rows, Ordered time entries rows → rows = entries) ↔
      entries.Pairwise fun a b => time a < time b := by
  constructor
  · intro back
    obtain ⟨rows, hrows⟩ := ordered_exists time entries
    have sorted : entries.Pairwise fun a b => time a ≤ time b := by
      rw [← back rows hrows]
      exact hrows.sorted
    have chain : entries.IsChain fun a b => time a < time b := by
      rw [List.isChain_iff_forall_rel_of_append_cons_cons]
      rintro a b front tail rfl
      have hle : time a ≤ time b :=
        (List.pairwise_cons.mp (List.pairwise_append.mp sorted).2.1).1 b List.mem_cons_self
      refine lt_of_le_of_ne hle fun same => ?_
      have hswap := List.append_cancel_left (back _ (ordered_swap sorted same))
      have hne := (List.nodup_cons.mp (List.nodup_append.mp nodup).2.1).1
      exact hne (by rw [(List.cons.inj hswap).1]; exact List.mem_cons_self)
    have trans : IsTrans Entry fun a b => time a < time b := ⟨fun _ _ _ => lt_trans⟩
    exact List.isChain_iff_pairwise.mp chain
  · exact fun strict rows h => ordered_unique strict h

end TimeOrder
