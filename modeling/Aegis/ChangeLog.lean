import Mathlib.Data.List.Basic
import Mathlib.Data.List.Nodup

namespace ChangeLog

variable {Item Key : Type*}

/-- One recorded change of a collection. -/
inductive Edit (Item : Type*) where
  | created (after : Item)
  | updated (before after : Item)
  | deleted (before : Item)

namespace Edit

def before : Edit Item → Option Item
  | .created _ => none
  | .updated before _ => some before
  | .deleted before => some before

def after : Edit Item → Option Item
  | .created after => some after
  | .updated _ after => some after
  | .deleted _ => none

/-- The key of the item that is changed. -/
def key (key : Item → Key) : Edit Item → Key
  | .created after => key after
  | .updated before _ => key before
  | .deleted before => key before

/-- The collection after the change, if the change is one of this collection. -/
def replay [DecidableEq Item] : Edit Item → List Item → Option (List Item)
  | .created after, items => some (items ++ [after])
  | .updated before after, items =>
    if before ∈ items then some (items.map fun item => if item = before then after else item)
    else none
  | .deleted before, items =>
    if before ∈ items then some (items.filter fun item => item ≠ before) else none

/-- How many updates there are since the creation, after one more change. -/
def count (updates : Nat) : Edit Item → Nat
  | .created _ => 0
  | .updated _ _ => updates + 1
  | .deleted _ => updates

end Edit

def replay [DecidableEq Item] : List (Edit Item) → List Item → Option (List Item)
  | [], items => some items
  | edit :: rest, items => (edit.replay items).bind (replay rest)

/-- Each change starts from what the one before it left. -/
def Chained : Option Item → List (Edit Item) → Prop
  | _, [] => True
  | first, edit :: rest => edit.before = first ∧ Chained edit.after rest

def last : Option Item → List (Edit Item) → Option Item
  | first, [] => first
  | _, edit :: rest => last edit.after rest

/-- The updates since the last creation. -/
def updates (edits : List (Edit Item)) : Nat :=
  edits.foldl Edit.count 0

theorem replay_concat [DecidableEq Item] (edits : List (Edit Item)) (edit : Edit Item)
    (items : List Item) :
    replay (edits ++ [edit]) items = (replay edits items).bind edit.replay := by
  induction edits generalizing items with
  | nil =>
    change (edit.replay items).bind some = edit.replay items
    cases edit.replay items <;> rfl
  | cons first rest ih =>
    change (first.replay items).bind _ = ((first.replay items).bind _).bind _
    cases first.replay items with
    | none => rfl
    | some changed => exact ih changed

theorem chained_concat {first : Option Item} {edits : List (Edit Item)} {edit : Edit Item} :
    Chained first (edits ++ [edit]) ↔ Chained first edits ∧ edit.before = last first edits := by
  induction edits generalizing first with
  | nil => simp [Chained, last]
  | cons head rest ih => simp [Chained, last, ih, and_assoc]

theorem last_concat (first : Option Item) (edits : List (Edit Item)) (edit : Edit Item) :
    last first (edits ++ [edit]) = edit.after := by
  induction edits generalizing first with
  | nil => rfl
  | cons head rest ih => exact ih head.after

theorem updates_concat (edits : List (Edit Item)) (edit : Edit Item) :
    updates (edits ++ [edit]) = edit.count (updates edits) := by
  simp [updates]

section Keyed

variable [DecidableEq Key] (key : Item → Key) (version : Item → Nat)

/-- The changes of the items of a key. -/
def editsOf (k : Key) (edits : List (Edit Item)) : List (Edit Item) :=
  edits.filter fun edit => edit.key key = k

def lookup (k : Key) (items : List Item) : Option Item :=
  items.find? fun item => key item = k

/-- The change is one of this collection: it creates an item of a new key with version 1, or
changes or deletes an item that is there. -/
def Fits (items : List Item) : Edit Item → Prop
  | .created after => key after ∉ items.map key ∧ version after = 1
  | .updated before after =>
    before ∈ items ∧ key after = key before ∧ version after = version before + 1
  | .deleted before => before ∈ items

variable {key version} {start items : List Item} {edits : List (Edit Item)} {edit : Edit Item}

theorem editsOf_concat (k : Key) : editsOf key k (edits ++ [edit]) =
    if edit.key key = k then editsOf key k edits ++ [edit] else editsOf key k edits := by
  unfold editsOf
  rw [List.filter_append, List.filter_singleton]
  by_cases h : edit.key key = k
  · simp [h]
  · simp [h]

theorem lookup_eq_some {k : Key} {item : Item} (h : lookup key k items = some item) :
    item ∈ items ∧ key item = k :=
  ⟨List.mem_of_find?_eq_some h, by simpa using List.find?_some h⟩

/-- With distinct keys an item is found under its own. -/
theorem lookup_of_mem (keys : (items.map key).Nodup) {item : Item} (h : item ∈ items) :
    lookup key (key item) items = some item := by
  cases hfind : lookup key (key item) items with
  | none =>
    have := List.find?_eq_none.mp hfind item h
    simp at this
  | some other =>
    obtain ⟨hother, hkey⟩ := lookup_eq_some hfind
    rw [List.inj_on_of_nodup_map keys hother h hkey]

theorem lookup_of_not_mem {k : Key} (h : k ∉ items.map key) : lookup key k items = none := by
  refine List.find?_eq_none.mpr fun item hitem hkey => h ?_
  exact List.mem_map.mpr ⟨item, hitem, by simpa using hkey⟩

theorem created_changes {after : Item} (keys : (items.map key).Nodup)
    (fresh : key after ∉ items.map key) :
    ((items ++ [after]).map key).Nodup ∧ ∀ k, lookup key k (items ++ [after]) =
      if key after = k then some after else lookup key k items := by
  constructor
  · rw [List.map_append, List.nodup_append]
    refine ⟨keys, by simp, fun a ha b hb => ?_⟩
    rw [List.map_singleton, List.mem_singleton] at hb
    rintro rfl
    exact fresh (hb ▸ ha)
  · intro k
    unfold lookup
    rw [List.find?_append]
    by_cases hk : key after = k
    · have hnone : items.find? (fun item => key item = k) = none := by
        rw [← hk]
        exact lookup_of_not_mem fresh
      rw [if_pos hk, hnone]
      simp [hk]
    · rw [if_neg hk]
      simp [hk]

variable [DecidableEq Item]

variable (key version) in
/-- The changes lead from the first collection to the second, which has one item for a key. For
every key they are chained from its first item to its current one, and the version of that counts
the updates. -/
structure Explains (start : List Item) (edits : List (Edit Item)) (items : List Item) : Prop where
  replayed : replay edits start = some items
  keys : (items.map key).Nodup
  chained : ∀ k, Chained (lookup key k start) (editsOf key k edits)
  current : ∀ k, last (lookup key k start) (editsOf key k edits) = lookup key k items
  versions : ∀ item ∈ items, version item = 1 + updates (editsOf key (key item) edits)

theorem updated_changes {before after : Item} (keys : (items.map key).Nodup)
    (mem : before ∈ items) (same : key after = key before) :
    ((items.map fun item => if item = before then after else item).map key).Nodup ∧
      ∀ k, lookup key k (items.map fun item => if item = before then after else item) =
        if key before = k then some after else lookup key k items := by
  have hkey : ∀ item, key (if item = before then after else item) = key item := by
    intro item
    split
    next h => rw [h, same]
    next => rfl
  constructor
  · rw [List.map_map]
    have : (key ∘ fun item => if item = before then after else item) = key := funext hkey
    rw [this]
    exact keys
  · intro k
    have hfind : lookup key k (items.map fun item => if item = before then after else item) =
        (lookup key k items).map fun item => if item = before then after else item := by
      unfold lookup
      rw [List.find?_map]
      congr 2
      funext item
      exact congrArg (fun other => decide (other = k)) (hkey item)
    rw [hfind]
    by_cases hk : key before = k
    · rw [if_pos hk, ← hk, lookup_of_mem keys mem]
      simp
    · rw [if_neg hk]
      cases hitem : lookup key k items with
      | none => rfl
      | some item =>
        have hne : item ≠ before := fun h => hk (h ▸ (lookup_eq_some hitem).2)
        simp [hne]

theorem deleted_changes {before : Item} (keys : (items.map key).Nodup) (mem : before ∈ items) :
    ((items.filter fun item => item ≠ before).map key).Nodup ∧
      ∀ k, lookup key k (items.filter fun item => item ≠ before) =
        if key before = k then none else lookup key k items := by
  constructor
  · exact keys.sublist (List.filter_sublist.map key)
  · intro k
    by_cases hk : key before = k
    · rw [if_pos hk]
      refine List.find?_eq_none.mpr fun item hitem hkey => ?_
      obtain ⟨hitem, hne⟩ := List.mem_filter.mp hitem
      have hsame : key item = k := by simpa using hkey
      exact absurd (List.inj_on_of_nodup_map keys hitem mem (hsame.trans hk.symm))
        (by simpa using hne)
    · rw [if_neg hk]
      unfold lookup
      rw [List.find?_filter]
      congr 1
      funext item
      by_cases hitem : key item = k
      · have hne : item ≠ before := fun h => hk (h ▸ hitem)
        simp [hitem, hne]
      · simp [hitem]

/-- A change that fits leaves distinct keys, starts from what is found under its own key, and
changes nothing else. -/
theorem replay_of_fits (keys : (items.map key).Nodup) (h : Fits key version items edit) :
    ∃ changed, edit.replay items = some changed ∧ (changed.map key).Nodup ∧
      edit.before = lookup key (edit.key key) items ∧
      ∀ k, lookup key k changed = if edit.key key = k then edit.after else lookup key k items := by
  cases edit with
  | created after =>
    obtain ⟨hkeys, hlookup⟩ := created_changes keys h.1
    exact ⟨_, rfl, hkeys, (lookup_of_not_mem h.1).symm, hlookup⟩
  | updated before after =>
    obtain ⟨hkeys, hlookup⟩ := updated_changes keys h.1 h.2.1
    exact ⟨_, if_pos h.1, hkeys, (lookup_of_mem keys h.1).symm, hlookup⟩
  | deleted before =>
    obtain ⟨hkeys, hlookup⟩ := deleted_changes keys h
    exact ⟨_, if_pos h, hkeys, (lookup_of_mem keys h).symm, hlookup⟩

/-- One more change that fits is explained too. -/
theorem explains_concat (h : Explains key version start edits items)
    (fits : Fits key version items edit) :
    ∃ changed, edit.replay items = some changed ∧
      Explains key version start (edits ++ [edit]) changed := by
  obtain ⟨changed, hreplay, hkeys, hbefore, hlookup⟩ := replay_of_fits h.keys fits
  refine ⟨changed, hreplay, ⟨?_, hkeys, fun k => ?_, fun k => ?_, fun item hitem => ?_⟩⟩
  · rw [replay_concat, h.replayed]
    exact hreplay
  · rw [editsOf_concat]
    split
    next hk => exact chained_concat.mpr ⟨h.chained k, by rw [h.current k, hbefore, hk]⟩
    next => exact h.chained k
  · rw [editsOf_concat, hlookup]
    split
    next => exact last_concat _ _ _
    next => exact h.current k
  · have hitem := lookup_of_mem hkeys hitem
    rw [hlookup] at hitem
    rw [editsOf_concat]
    by_cases hk : edit.key key = key item
    · rw [if_pos hk] at hitem ⊢
      rw [updates_concat]
      cases edit with
      | created after =>
        cases hitem
        exact fits.2
      | updated before after =>
        cases hitem
        change version item = 1 + (updates _ + 1)
        rw [fits.2.2, h.versions before fits.1, fits.2.1]
        omega
      | deleted before => cases hitem
    · rw [if_neg hk] at hitem ⊢
      exact h.versions item (lookup_eq_some hitem).1

theorem explains_nil (keys : (start.map key).Nodup) (versions : ∀ item ∈ start, version item = 1) :
    Explains key version start [] start :=
  ⟨rfl, keys, fun _ => trivial, fun _ => rfl, versions⟩

end Keyed

end ChangeLog
