import Aegis.Printable
import Mathlib.Data.List.Sort
import Mathlib.Data.String.Basic

namespace Aegis

def isFloatChar (c : Char) : Bool := c.isDigit || c = '.' || c = 'e' || c = '+' || c = '-'

/-- A finite float as the text `repr` gives it; nothing here computes with one. -/
structure FloatText where
  text : String
  plain : text.toList.all isFloatChar = true

/-- JSON-shaped Python data: what request parameters, tool results and metadata hold. -/
inductive Value where
  | none
  | bool (b : Bool)
  | int (n : Int)
  | float (repr : FloatText)
  | str (s : String)
  | list (items : List Value)
  | obj (fields : List (String × Value))

instance : Inhabited Value := ⟨.none⟩

/-- A `dict` with string keys, in insertion order. -/
abbrev Dict (α : Type) := List (String × α)

/-- `dict[key] = value`: an existing key keeps its position. -/
def Dict.set {α : Type} : Dict α → String → α → Dict α
  | [], key, value => [(key, value)]
  | (k, v) :: rest, key, value =>
    if k = key then (k, value) :: rest else (k, v) :: Dict.set rest key value

/-- `dict.pop(key, None)`. -/
def Dict.pop {α : Type} (dict : Dict α) (key : String) : Dict α :=
  dict.filter (fun entry => entry.1 ≠ key)

theorem Dict.lookup_set {α : Type} (dict : Dict α) (key other : String) (value : α) :
    (dict.set key value).lookup other = if other = key then some value else dict.lookup other := by
  induction dict with
  | nil =>
    by_cases h : other = key
    · simp [Dict.set, h]
    · simp [Dict.set, h, List.lookup_cons, beq_false_of_ne h]
  | cons entry rest ih =>
    obtain ⟨k, v⟩ := entry
    by_cases hk : k = key
    · subst hk
      by_cases h : other = k
      · simp [Dict.set, h]
      · simp [Dict.set, h, List.lookup_cons, beq_false_of_ne h]
    · by_cases h : other = k
      · subst h
        simp [Dict.set, hk]
      · simp [Dict.set, hk, List.lookup_cons, beq_false_of_ne h, ih]

theorem Dict.lookup_pop {α : Type} (dict : Dict α) (key other : String) :
    (dict.pop key).lookup other = if other = key then none else dict.lookup other := by
  induction dict with
  | nil => simp [Dict.pop]
  | cons entry rest ih =>
    obtain ⟨k, v⟩ := entry
    unfold Dict.pop at ih ⊢
    by_cases hk : k = key
    · subst hk
      rw [List.filter_cons_of_neg (by simp), ih, List.lookup_cons]
      by_cases h : other = k
      · rw [if_pos h, if_pos h]
      · rw [if_neg h, if_neg h, beq_false_of_ne h]
    · rw [List.filter_cons_of_pos (by simpa using hk), List.lookup_cons, List.lookup_cons, ih]
      by_cases h : other = k
      · subst h
        simp [hk]
      · rw [beq_false_of_ne h]

section Keys

variable {α : Type} {dict : Dict α} {key : String} {value : α}

theorem Dict.keys_set_of_mem (h : key ∈ dict.map Prod.fst) :
    (dict.set key value).map Prod.fst = dict.map Prod.fst := by
  induction dict with
  | nil => cases h
  | cons head rest ih =>
    obtain ⟨k, v⟩ := head
    unfold Dict.set
    split
    · rfl
    next hk =>
      rw [List.map_cons, List.map_cons,
        ih ((List.mem_cons.mp h).resolve_left fun hkey => hk hkey.symm)]

theorem Dict.set_fresh (h : key ∉ dict.map Prod.fst) :
    dict.set key value = dict ++ [(key, value)] := by
  induction dict with
  | nil => rfl
  | cons head rest ih =>
    obtain ⟨k, v⟩ := head
    obtain ⟨hk, hrest⟩ := not_or.mp fun h' => h (List.mem_cons.mpr h')
    rw [Dict.set, if_neg (Ne.symm hk), ih hrest, List.cons_append]

theorem Dict.mem_keys_set {other : String} :
    other ∈ (dict.set key value).map Prod.fst ↔ other = key ∨ other ∈ dict.map Prod.fst := by
  by_cases h : key ∈ dict.map Prod.fst
  · rw [Dict.keys_set_of_mem h]
    exact ⟨.inr, fun hother => hother.elim (fun heq => heq ▸ h) id⟩
  · rw [Dict.set_fresh h, List.map_append, List.mem_append, or_comm]
    simp

theorem Dict.keys_set_nodup (h : (dict.map Prod.fst).Nodup) :
    ((dict.set key value).map Prod.fst).Nodup := by
  by_cases hkey : key ∈ dict.map Prod.fst
  · rwa [Dict.keys_set_of_mem hkey]
  · rw [Dict.set_fresh hkey, List.map_append]
    refine List.nodup_append.mpr ⟨h, by simp, fun a ha b hb => ?_⟩
    rintro rfl
    rw [List.map_singleton, List.mem_singleton] at hb
    subst hb
    exact hkey ha

theorem Dict.lookup_isSome {key : String} :
    (dict.lookup key).isSome = true ↔ key ∈ dict.map Prod.fst := by
  induction dict with
  | nil => simp
  | cons entry rest ih =>
    obtain ⟨k, v⟩ := entry
    by_cases h : key = k
    · simp [h]
    · rw [List.lookup_cons, beq_false_of_ne h, ih]
      simp [h]

end Keys

/-- A `dict[str, Any]`. -/
abbrev Fields := Dict Value

/-- `fields.get(key)`, with Python's `None` for a missing key. -/
def Fields.get (fields : Fields) (key : String) : Value :=
  (fields.lookup key).getD .none

/-- `bool(value)`. -/
def Value.truthy : Value → Bool
  | .none => false
  | .bool b => b
  | .int n => n ≠ 0
  | .float repr => repr.text ≠ "0.0" && repr.text ≠ "-0.0"
  | .str s => s ≠ ""
  | .list items => !items.isEmpty
  | .obj fields => !fields.isEmpty

mutual

/-- `repr(value)`. -/
def Value.repr : Value → String
  | .none => "None"
  | .bool b => if b then "True" else "False"
  | .int n => toString n
  | .float repr => repr.text
  | .str s => reprStr s
  | .list items => "[" ++ String.intercalate ", " (reprItems items) ++ "]"
  | .obj fields => "\x7b" ++ String.intercalate ", " (reprFields fields) ++ "\x7d"

def reprItems : List Value → List String
  | [] => []
  | item :: rest => item.repr :: reprItems rest

def reprFields : List (String × Value) → List String
  | [] => []
  | (key, value) :: rest => (reprStr key ++ ": " ++ value.repr) :: reprFields rest

end

/-- `str(value)`: a string is itself, anything else is its `repr`. -/
def Value.pyStr : Value → String
  | .str s => s
  | value => value.repr

/-- `str(value or default)`. -/
def Value.strOr (value : Value) (default : String) : String :=
  if value.truthy then value.pyStr else default

theorem strOr_str_empty (text : String) : (Value.str text).strOr "" = text := by
  by_cases h : text = ""
  · rw [h]
    rfl
  · exact if_pos (decide_eq_true h)

/-- What `redact` returns: the text and the number of substitutions. -/
structure RedactionResult where
  text : String
  count : Nat

mutual

/-- `redact_mapping`: redact the string leaves, keys stay, and count the substitutions. -/
def redactMapping (redact : String → RedactionResult) : Value → Value × Nat
  | .str s => (.str (redact s).text, (redact s).count)
  | .list items => (.list (redactItems redact items).1, (redactItems redact items).2)
  | .obj fields => (.obj (redactFields redact fields).1, (redactFields redact fields).2)
  | value => (value, 0)

def redactItems (redact : String → RedactionResult) : List Value → List Value × Nat
  | [] => ([], 0)
  | item :: rest =>
    ((redactMapping redact item).1 :: (redactItems redact rest).1,
      (redactMapping redact item).2 + (redactItems redact rest).2)

def redactFields (redact : String → RedactionResult) :
    List (String × Value) → List (String × Value) × Nat
  | [] => ([], 0)
  | (key, value) :: rest =>
    ((key, (redactMapping redact value).1) :: (redactFields redact rest).1,
      (redactMapping redact value).2 + (redactFields redact rest).2)

end

def stripNulText (s : String) : String :=
  String.ofList (s.toList.filter (fun c => c ≠ '\x00'))

mutual

/-- `_strip_nul`. Two keys that differ in NUL characters only become one entry. -/
def stripNul : Value → Value
  | .str s => .str (stripNulText s)
  | .list items => .list (stripNulItems items)
  | .obj fields => .obj (stripNulFields fields [])
  | value => value

def stripNulItems : List Value → List Value
  | [] => []
  | item :: rest => stripNul item :: stripNulItems rest

def stripNulFields : List (String × Value) → Fields → Fields
  | [], out => out
  | (key, value) :: rest, out =>
    stripNulFields rest (Dict.set out (stripNulText key) (stripNul value))

end

mutual

/-- The value with the keys of every object sorted, as `json.dumps(.., sort_keys=True)`
writes it. -/
def sortKeys : Value → Value
  | .list items => .list (sortKeysItems items)
  | .obj fields => .obj ((sortKeysFields fields).insertionSort (fun a b => a.1 ≤ b.1))
  | value => value

def sortKeysItems : List Value → List Value
  | [] => []
  | item :: rest => sortKeys item :: sortKeysItems rest

def sortKeysFields : List (String × Value) → List (String × Value)
  | [] => []
  | (key, value) :: rest => (key, sortKeys value) :: sortKeysFields rest

end

example : (Value.obj [("a", .list [.int 1, .str "it's"]), ("b", .none)]).pyStr =
    "\x7b'a': [1, \"it's\"], 'b': None\x7d" := by decide

end Aegis
