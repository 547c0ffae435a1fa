import Aegis.AuditLog
import Aegis.Redact

namespace Aegis

open Regex

mutual

/-- Every string of a value is as `leaf` says, and the keys of every mapping as `keys` says. -/
def Value.All (leaf : String → Prop) (keys : List String → Prop) : Value → Prop
  | .str s => leaf s
  | .list items => allItems leaf keys items
  | .obj fields => keys (fields.map Prod.fst) ∧ allFields leaf keys fields
  | _ => True

def allItems (leaf : String → Prop) (keys : List String → Prop) : List Value → Prop
  | [] => True
  | item :: rest => item.All leaf keys ∧ allItems leaf keys rest

def allFields (leaf : String → Prop) (keys : List String → Prop) : List (String × Value) → Prop
  | [] => True
  | (_, value) :: rest => value.All leaf keys ∧ allFields leaf keys rest

end

mutual

/-- Every entry of every mapping of a value has an entry of its own in what is stored of it. -/
def EntriesKept : Value → Value → Prop
  | .list items, .list stored => itemsKept items stored
  | .obj fields, .obj stored => fieldsKept fields stored
  | .list _, _ => False
  | .obj _, _ => False
  | _, _ => True

def itemsKept : List Value → List Value → Prop
  | [], [] => True
  | item :: items, kept :: stored => EntriesKept item kept ∧ itemsKept items stored
  | _, _ => False

def fieldsKept : List (String × Value) → List (String × Value) → Prop
  | [], [] => True
  | (_, value) :: fields, (_, kept) :: stored => EntriesKept value kept ∧ fieldsKept fields stored
  | _, _ => False

end

/-- Some pattern of `_PATTERNS` matches in the text. -/
def hasSecret (table : UnicodeTable) (s : String) : Bool :=
  redactionPatterns.any fun entry => !(hits (pieces table.isWord entry.2 s.toList)).isEmpty

/-- No string of a value, key or not, contains a match. -/
def Clean (table : UnicodeTable) : Value → Prop :=
  Value.All (fun s => hasSecret table s = false) fun keys =>
    ∀ key ∈ keys, hasSecret table key = false

/-- `redact` removes every match from each string of the value. -/
def Removes (table : UnicodeTable) (redact : String → RedactionResult) : Value → Prop :=
  Value.All (fun s => hasSecret table (redact (stripNulText s)).text = false) fun _ => True

/-- No two keys of one mapping differ in NUL characters only. -/
def ApartKeys : Value → Prop :=
  Value.All (fun _ => True) fun keys => (keys.map stripNulText).Nodup

/-- Without its NUL characters no key contains a match. -/
def QuietKeys (table : UnicodeTable) : Value → Prop :=
  Value.All (fun _ => True) fun keys => ∀ key ∈ keys, hasSecret table (stripNulText key) = false

/-- The `output` of `_build` before it is redacted. -/
def auditOutput (decision : GatewayDecision) : Fields :=
  if decision.allowed then wrapOutput decision.result
  else [("error", .str (orElse (decision.error.getD "") decision.reason))]

section Trees

variable {leaf : String → Prop} {keys : List String → Prop} {redact : String → RedactionResult}

mutual

theorem all_split (value : Value) : value.All leaf keys ↔
    value.All leaf (fun _ => True) ∧ value.All (fun _ => True) keys := by
  cases value with
  | str s => simp only [Value.All, and_true]
  | list items =>
    simp only [Value.All]
    exact allItems_split items
  | obj fields =>
    simp only [Value.All, true_and]
    rw [allFields_split fields]
    tauto
  | none => simp only [Value.All, and_self]
  | bool b => simp only [Value.All, and_self]
  | int n => simp only [Value.All, and_self]
  | float repr => simp only [Value.All, and_self]

theorem allItems_split (items : List Value) : allItems leaf keys items ↔
    allItems leaf (fun _ => True) items ∧ allItems (fun _ => True) keys items := by
  cases items with
  | nil => simp only [allItems, and_self]
  | cons item rest =>
    simp only [allItems]
    rw [all_split item, allItems_split rest]
    tauto

theorem allFields_split (fields : List (String × Value)) : allFields leaf keys fields ↔
    allFields leaf (fun _ => True) fields ∧ allFields (fun _ => True) keys fields := by
  cases fields with
  | nil => simp only [allFields, and_self]
  | cons entry rest =>
    obtain ⟨_, value⟩ := entry
    simp only [allFields]
    rw [all_split value, allFields_split rest]
    tauto

end

theorem redactFields_keys (fields : List (String × Value)) :
    (redactFields redact fields).1.map Prod.fst = fields.map Prod.fst := by
  induction fields with
  | nil => rfl
  | cons entry rest ih =>
    obtain ⟨key, value⟩ := entry
    rw [redactFields, List.map_cons, List.map_cons, ih]

mutual

theorem all_redacted (value : Value) : (redactMapping redact value).1.All leaf keys ↔
    value.All (fun s => leaf (redact s).text) keys := by
  cases value with
  | str s => simp only [redactMapping, Value.All]
  | list items =>
    simp only [redactMapping, Value.All]
    exact allItems_redacted items
  | obj fields =>
    simp only [redactMapping, Value.All]
    rw [redactFields_keys, allFields_redacted fields]
  | none => simp only [redactMapping, Value.All]
  | bool b => simp only [redactMapping, Value.All]
  | int n => simp only [redactMapping, Value.All]
  | float repr => simp only [redactMapping, Value.All]

theorem allItems_redacted (items : List Value) : allItems leaf keys (redactItems redact items).1 ↔
    allItems (fun s => leaf (redact s).text) keys items := by
  cases items with
  | nil => simp only [redactItems, allItems]
  | cons item rest =>
    simp only [redactItems, allItems]
    rw [all_redacted item, allItems_redacted rest]

theorem allFields_redacted (fields : List (String × Value)) :
    allFields leaf keys (redactFields redact fields).1 ↔
      allFields (fun s => leaf (redact s).text) keys fields := by
  cases fields with
  | nil => simp only [redactFields, allFields]
  | cons entry rest =>
    obtain ⟨_, value⟩ := entry
    simp only [redactFields, allFields]
    rw [all_redacted value, allFields_redacted rest]

end

mutual

/-- Redacting a value does not change its shape. -/
theorem kept_redacted (value stored : Value) :
    EntriesKept value (redactMapping redact stored).1 ↔ EntriesKept value stored := by
  cases stored with
  | list stored =>
    cases value with
    | list items =>
      simp only [redactMapping, EntriesKept]
      exact keptItems_redacted items stored
    | _ => simp only [redactMapping, EntriesKept]
  | obj stored =>
    cases value with
    | obj fields =>
      simp only [redactMapping, EntriesKept]
      exact keptFields_redacted fields stored
    | _ => simp only [redactMapping, EntriesKept]
  | _ => cases value <;> simp only [redactMapping, EntriesKept]

theorem keptItems_redacted (items stored : List Value) :
    itemsKept items (redactItems redact stored).1 ↔ itemsKept items stored := by
  cases stored with
  | nil => simp only [redactItems]
  | cons kept stored =>
    cases items with
    | nil => simp only [redactItems, itemsKept]
    | cons item items =>
      simp only [redactItems, itemsKept]
      rw [kept_redacted item kept, keptItems_redacted items stored]

theorem keptFields_redacted (fields stored : List (String × Value)) :
    fieldsKept fields (redactFields redact stored).1 ↔ fieldsKept fields stored := by
  cases stored with
  | nil => simp only [redactFields]
  | cons entry stored =>
    obtain ⟨_, kept⟩ := entry
    cases fields with
    | nil => simp only [redactFields, fieldsKept]
    | cons head fields =>
      obtain ⟨_, value⟩ := head
      simp only [redactFields, fieldsKept]
      rw [kept_redacted value kept, keptFields_redacted fields stored]

end

end Trees

section Stripping

variable {α : Type} {dict : Dict α} {key : String} {value : α}

theorem keptFields_length {fields stored : Fields} (h : fieldsKept fields stored) :
    stored.length = fields.length := by
  induction fields generalizing stored with
  | nil =>
    cases stored with
    | nil => rfl
    | cons entry stored => simp only [fieldsKept] at h
  | cons head fields ih =>
    cases stored with
    | nil => simp only [fieldsKept] at h
    | cons entry stored =>
      simp only [fieldsKept] at h
      rw [List.length_cons, List.length_cons, ih h.2]

def strippedKeys (fields : Fields) : List String := (fields.map Prod.fst).map stripNulText

def strippedFields (fields : Fields) : Fields :=
  fields.map fun entry => (stripNulText entry.1, stripNul entry.2)

theorem strippedFields_keys (fields : Fields) :
    (strippedFields fields).map Prod.fst = strippedKeys fields := by
  simp [strippedFields, strippedKeys, Function.comp_def]

theorem stripNulFields_eq {fields out : Fields}
    (apart : (out.map Prod.fst ++ strippedKeys fields).Nodup) :
    stripNulFields fields out = out ++ strippedFields fields := by
  induction fields generalizing out with
  | nil => simp [stripNulFields, strippedFields]
  | cons entry rest ih =>
    obtain ⟨key, value⟩ := entry
    have fresh : stripNulText key ∉ out.map Prod.fst := fun hmem =>
      (List.nodup_append.mp apart).2.2 _ hmem _ List.mem_cons_self rfl
    rw [stripNulFields, Dict.set_fresh fresh, ih, List.append_assoc]
    · rfl
    · rw [List.map_append, List.append_assoc]
      exact apart

theorem stripNulFields_length {fields out : Fields} (nodup : (out.map Prod.fst).Nodup) :
    (stripNulFields fields out).length ≤ out.length + fields.length ∧
      ((stripNulFields fields out).length = out.length + fields.length →
        (out.map Prod.fst ++ strippedKeys fields).Nodup) := by
  induction fields generalizing out with
  | nil =>
    rw [stripNulFields]
    exact ⟨Nat.le_refl _, fun _ => by simpa [strippedKeys] using nodup⟩
  | cons entry rest ih =>
    obtain ⟨key, value⟩ := entry
    rw [stripNulFields, List.length_cons]
    by_cases hmem : stripNulText key ∈ out.map Prod.fst
    · have hkeys : (Dict.set out (stripNulText key) (stripNul value)).map Prod.fst =
          out.map Prod.fst := Dict.keys_set_of_mem hmem
      have hlength : (Dict.set out (stripNulText key) (stripNul value)).length = out.length := by
        simpa using congrArg List.length hkeys
      have hle := (ih (hkeys ▸ nodup)).1
      rw [hlength] at hle
      exact ⟨by omega, fun h => by omega⟩
    · have hnodup : ((out ++ [(stripNulText key, stripNul value)]).map Prod.fst).Nodup := by
        rw [List.map_append]
        refine List.nodup_append.mpr ⟨nodup, List.nodup_singleton _, ?_⟩
        rintro k hk _ hlast rfl
        obtain rfl : k = stripNulText key := List.mem_singleton.mp hlast
        exact hmem hk
      obtain ⟨hle, hapart⟩ := ih hnodup
      rw [List.length_append, List.length_singleton] at hle hapart
      rw [Dict.set_fresh hmem]
      refine ⟨by omega, fun h => ?_⟩
      have := hapart (by omega)
      rw [List.map_append, List.append_assoc] at this
      exact this

mutual

theorem kept_stripped (value : Value) : EntriesKept value (stripNul value) ↔ ApartKeys value := by
  cases value with
  | list items =>
    simp only [stripNul, EntriesKept, ApartKeys, Value.All]
    exact keptItems_stripped items
  | obj fields =>
    simp only [stripNul, EntriesKept, ApartKeys, Value.All]
    constructor
    · intro h
      have nodup := (@stripNulFields_length fields [] List.nodup_nil).2 (by
        simpa using keptFields_length h)
      rw [stripNulFields_eq nodup] at h
      exact ⟨nodup, (keptFields_stripped fields).mp h⟩
    · rintro ⟨nodup, h⟩
      rw [@stripNulFields_eq fields [] nodup]
      exact (keptFields_stripped fields).mpr h
  | _ => simp only [EntriesKept, ApartKeys, Value.All]

theorem keptItems_stripped (items : List Value) :
    itemsKept items (stripNulItems items) ↔
      allItems (fun _ => True) (fun keys => (keys.map stripNulText).Nodup) items := by
  cases items with
  | nil => simp only [stripNulItems, itemsKept, allItems]
  | cons item rest =>
    simp only [stripNulItems, itemsKept, allItems]
    rw [kept_stripped item, keptItems_stripped rest]
    rfl

theorem keptFields_stripped (fields : List (String × Value)) :
    fieldsKept fields (strippedFields fields) ↔
      allFields (fun _ => True) (fun keys => (keys.map stripNulText).Nodup) fields := by
  cases fields with
  | nil => simp only [strippedFields, List.map_nil, fieldsKept, allFields]
  | cons entry rest =>
    obtain ⟨_, value⟩ := entry
    have later := keptFields_stripped rest
    simp only [strippedFields, List.map_cons, fieldsKept, allFields] at later ⊢
    rw [kept_stripped value, later]
    rfl

end

variable {leaf : String → Prop} {keys : List String → Prop}

mutual

theorem all_stripped (value : Value) (apart : ApartKeys value) :
    (stripNul value).All leaf keys ↔
      value.All (fun s => leaf (stripNulText s)) fun ks => keys (ks.map stripNulText) := by
  cases value with
  | list items =>
    simp only [stripNul, Value.All]
    exact allItems_stripped items apart
  | obj fields =>
    obtain ⟨nodup, apart⟩ := apart
    simp only [stripNul, Value.All]
    rw [@stripNulFields_eq fields [] nodup, List.nil_append, strippedFields_keys,
      allFields_stripped fields apart]
    rfl
  | _ => simp only [stripNul, Value.All]

theorem allItems_stripped (items : List Value)
    (apart : allItems (fun _ => True) (fun keys => (keys.map stripNulText).Nodup) items) :
    allItems leaf keys (stripNulItems items) ↔
      allItems (fun s => leaf (stripNulText s)) (fun ks => keys (ks.map stripNulText)) items := by
  cases items with
  | nil => simp only [stripNulItems, allItems]
  | cons item rest =>
    simp only [stripNulItems, allItems]
    rw [all_stripped item apart.1, allItems_stripped rest apart.2]

theorem allFields_stripped (fields : List (String × Value))
    (apart : allFields (fun _ => True) (fun keys => (keys.map stripNulText).Nodup) fields) :
    allFields leaf keys (strippedFields fields) ↔
      allFields (fun s => leaf (stripNulText s)) (fun ks => keys (ks.map stripNulText)) fields := by
  cases fields with
  | nil => simp only [strippedFields, List.map_nil, allFields]
  | cons entry rest =>
    obtain ⟨_, value⟩ := entry
    have later := allFields_stripped rest apart.2
    simp only [strippedFields, List.map_cons, allFields] at later ⊢
    rw [all_stripped value apart.1, later]

end

end Stripping

section Rows

variable {table : UnicodeTable} {digest : Value → Digest} {redact : String → RedactionResult}
  {request : ToolInvokeRequest} {decision : GatewayDecision} {prevHash : String} {entryId : Uuid}
  {now : Instant} {entry : AuditEntry}

theorem redactJson_eq (fields : Fields) :
    .obj (redactJson redact fields) = (redactMapping redact (stripNul (.obj fields))).1 := by
  simp only [redactJson, stripNul, redactMapping]

/-- What is stored of a mapping has no match and keeps every entry exactly when its keys have no
match and stay apart. -/
theorem stored_iff {fields : Fields} (removes : Removes table redact (.obj fields)) :
    (Clean table (.obj (redactJson redact fields)) ∧
        EntriesKept (.obj fields) (.obj (redactJson redact fields))) ↔
      ApartKeys (.obj fields) ∧ QuietKeys table (.obj fields) := by
  rw [redactJson_eq, kept_redacted, kept_stripped, and_comm]
  refine and_congr_right fun apart => ?_
  have removed : (Value.obj fields).All
      (fun s => hasSecret table (redact (stripNulText s)).text = false) fun _ => True := removes
  rw [Clean, all_redacted, all_stripped _ apart, all_split, and_iff_right removed, QuietKeys]
  simp only [List.forall_mem_map]

theorem hasSecret_of_short {s : String} (short : s.length < 6) : hasSecret table s = false := by
  have long : ∀ entry ∈ redactionPatterns, 6 ≤ entry.2.minLength := by decide
  rw [hasSecret, List.any_eq_false]
  intro entry hentry
  have hmin := long entry hentry
  have hscan := @scan_pieces table.isWord entry.2 (by omega) s.toList
  have hnil : hits (pieces table.isWord entry.2 s.toList) = [] := by
    rw [List.eq_nil_iff_forall_not_mem]
    intro taken htaken
    have hlength := length_of_mem_hits hscan htaken
    rw [String.length_toList] at hlength
    omega
  rw [hnil]
  decide

theorem auditOutput_storable : (ApartKeys (.obj (auditOutput decision)) ∧
      QuietKeys table (.obj (auditOutput decision))) ↔
    (decision.allowed = true → ApartKeys decision.result ∧ QuietKeys table decision.result) := by
  have named : ∀ key, (stripNulText key).length < 6 → ∀ value : Value,
      (ApartKeys (.obj [(key, value)]) ∧ QuietKeys table (.obj [(key, value)])) ↔
        (ApartKeys value ∧ QuietKeys table value) := by
    intro key short value
    simp [ApartKeys, QuietKeys, Value.All, allFields, hasSecret_of_short short]
  unfold auditOutput
  by_cases hallowed : decision.allowed = true
  · rw [if_pos hallowed, forall_prop_of_true hallowed]
    cases decision.result with
    | obj fields => rfl
    | none => simp [wrapOutput, ApartKeys, QuietKeys, Value.All, allFields]
    | _ => exact named "value" (by decide) _
  · rw [if_neg hallowed, named "error" (by decide)]
    simp [hallowed, ApartKeys, QuietKeys, Value.All]

theorem buildEntry_stored
    (h : buildEntry digest redact request decision prevHash entryId now = .ok entry) :
    entry.input = redactJson redact (toolParameters request) ∧
      entry.output = some (redactJson redact (auditOutput decision)) := by
  unfold buildEntry AuditEntry.create at h
  obtain ⟨_, _, _, hinput, houtput, _⟩ := AuditEntry.new_ok h
  exact ⟨hinput, houtput⟩

/-- A row is free of secrets and keeps every entry exactly when no key of the parameters or of the
result contains a match and no two keys of a mapping differ in NUL characters only. -/
theorem audit_row_sound_iff
    (built : buildEntry digest redact request decision prevHash entryId now = .ok entry)
    (removesInput : Removes table redact (.obj (toolParameters request)))
    (removesOutput : Removes table redact (.obj (auditOutput decision))) :
    (Clean table (.obj entry.input) ∧
        EntriesKept (.obj (toolParameters request)) (.obj entry.input) ∧
        ∃ output, entry.output = some output ∧ Clean table (.obj output) ∧
          EntriesKept (.obj (auditOutput decision)) (.obj output)) ↔
      (ApartKeys (.obj (toolParameters request)) ∧
          QuietKeys table (.obj (toolParameters request))) ∧
        (decision.allowed = true → ApartKeys decision.result ∧ QuietKeys table decision.result) := by
  obtain ⟨hinput, houtput⟩ := buildEntry_stored built
  rw [hinput, houtput, ← stored_iff removesInput, ← auditOutput_storable,
    ← stored_iff removesOutput, and_assoc]
  simp only [Option.some.injEq, exists_eq_left']

end Rows

def auditedRequest (parameters : Fields) : ToolInvokeRequest :=
  let incident : Token 64 := ⟨"7", by decide, by decide, by decide⟩
  AgentIdentity.code.request codeSearchTool parameters incident none

def auditedCall (result : Value) : GatewayDecision :=
  .allow "allowed:allowlist" .read result "search_code" "code" "7"
    ⟨"", "search_code", "7", "gateway", true, 0, false⟩

theorem auditedCall_built (parameters : Fields) (result : Value) : ∃ entry,
    buildEntry (fun _ => Digest.genesis) (redact asciiTable) (auditedRequest parameters)
      (auditedCall result) (latestHash []) 1 0 = .ok entry := by
  have bounds : (strip "").length ≤ 64 ∧
      (strip "code" ≠ "" ∧ (strip "code").length ≤ 128) ∧
      (strip "search_code" ≠ "" ∧ (strip "search_code").length ≤ 128) ∧
      (strip "allowed:allowlist").length ≤ 255 ∧
      (strip "7" ≠ "" ∧ (strip "7").length ≤ 64) := by
    decide
  exact buildEntry_ok_iff.mpr bounds

def askParameters : Fields := [("query", .str "who is a@b.co?")]

def ownerResult : Value := .obj [("hits", .list [.obj [("owner", .str "a@b.co")]])]

/-- An address in the parameters and one in the result are redacted. -/
theorem emails_stored_clean : ∃ entry,
    buildEntry (fun _ => Digest.genesis) (redact asciiTable) (auditedRequest askParameters)
      (auditedCall ownerResult) (latestHash []) 1 0 = .ok entry ∧
    Clean asciiTable (.obj entry.input) := by
  obtain ⟨entry, hentry⟩ := auditedCall_built askParameters ownerResult
  have quiet : ∀ key ∈ ["query", "hits", "owner"],
      hasSecret asciiTable (stripNulText key) = false := by
    decide +kernel
  have input : Removes asciiTable (redact asciiTable)
      (.obj (toolParameters (auditedRequest askParameters))) := by
    refine ⟨trivial, ?_, trivial⟩
    unfold Value.All
    decide +kernel
  have output : Removes asciiTable (redact asciiTable)
      (.obj (auditOutput (auditedCall ownerResult))) := by
    refine ⟨trivial, ⟨⟨trivial, ?_, trivial⟩, trivial⟩, trivial⟩
    unfold Value.All
    decide +kernel
  have alone : ∀ key, ([key].map stripNulText).Nodup := fun key => List.nodup_singleton _
  refine ⟨entry, hentry, ((audit_row_sound_iff hentry input output).mpr
    ⟨⟨⟨alone _, trivial, trivial⟩, ?_, trivial, trivial⟩, fun _ => ⟨?_, ?_⟩⟩).1⟩
  · exact List.forall_mem_singleton.mpr (quiet "query" (by simp))
  · exact ⟨alone _, ⟨⟨alone _, trivial, trivial⟩, trivial⟩, trivial⟩
  · exact ⟨List.forall_mem_singleton.mpr (quiet "hits" (by simp)),
      ⟨⟨List.forall_mem_singleton.mpr (quiet "owner" (by simp)), trivial, trivial⟩, trivial⟩,
      trivial⟩

def leakingParameters : Fields :=
  [("AKIA0123456789ABCDEF", .int 1), ("a", .int 1), ("a\x00", .int 2)]

/-- Keys are not redacted, and two of them may become one. -/
theorem keys_leak_and_merge : ∃ entry,
    buildEntry (fun _ => Digest.genesis) (redact asciiTable) (auditedRequest leakingParameters)
      (auditedCall .none) (latestHash []) 1 0 = .ok entry ∧
    Removes asciiTable (redact asciiTable)
      (.obj (toolParameters (auditedRequest leakingParameters))) ∧
    Removes asciiTable (redact asciiTable) (.obj (auditOutput (auditedCall .none))) ∧
    ¬Clean asciiTable (.obj entry.input) ∧
    ¬EntriesKept (.obj (toolParameters (auditedRequest leakingParameters))) (.obj entry.input) := by
  obtain ⟨entry, hentry⟩ := auditedCall_built leakingParameters .none
  have stored : entry.input = [("AKIA0123456789ABCDEF", .int 1), ("a", .int 2)] :=
    (buildEntry_stored hentry).1
  have found : hasSecret asciiTable "AKIA0123456789ABCDEF" = true := by decide +kernel
  refine ⟨entry, hentry, ⟨trivial, trivial, trivial, trivial, trivial⟩, ⟨trivial, trivial⟩,
    ?_, ?_⟩
  · rw [stored]
    rintro ⟨hkeys, _⟩
    exact absurd found (by simp [hkeys "AKIA0123456789ABCDEF" List.mem_cons_self])
  · rw [stored]
    exact fun h => absurd (keptFields_length h) (by decide)

end Aegis
