import Aegis.Evidence
import Aegis.AuditRows
import Aegis.SecretResidue

namespace Aegis

open Raising Proc Regex Pattern

section Ends

variable {s t : List Char} {table : UnicodeTable} {entry : String × Pattern}

theorem visibleEnds_replaced {kind : String} {cut : List Piece} (h : VisibleEnds (original cut)) :
    VisibleEnds (replaced (redactionToken kind) cut) := by
  have htoken := redactionToken_brackets kind
  constructor
  · intro c hc
    cases cut with
    | nil => cases hc
    | cons piece cut =>
      cases piece with
      | char d => exact h.first c hc
      | hit taken =>
        rw [replaced_hit, htoken] at hc
        rw [← Option.some.inj hc]
        decide
  · intro c hc
    rcases List.eq_nil_or_concat' cut with rfl | ⟨front, piece, rfl⟩
    · cases hc
    · rw [replaced_append] at hc
      cases piece with
      | char d =>
        have hlast : (replaced (redactionToken kind) front ++ [d]).getLast? = some c := hc
        rw [List.getLast?_concat] at hlast
        refine h.last c ?_
        rw [original_append, ← Option.some.inj hlast]
        exact List.getLast?_concat
      | hit taken =>
        have hlast : (replaced (redactionToken kind) front ++ (redactionToken kind ++ [])).getLast? =
            some c := hc
        rw [List.append_nil, htoken, ← List.cons_append, ← List.append_assoc,
          List.getLast?_concat] at hlast
        rw [← Option.some.inj hlast]
        decide

theorem visibleEnds_substituteAll {entries : List (String × Pattern)}
    (sub : entries ⊆ redactionPatterns) (h : VisibleEnds s) (n : Nat) :
    VisibleEnds (substituteAll table entries (s, n)).1 := by
  induction entries generalizing s n with
  | nil => exact h
  | cons entry entries ih =>
    rw [substituteAll_cons]
    refine ih (fun _ h => sub (List.mem_cons_of_mem _ h)) (visibleEnds_replaced ?_) _
    rw [(cutOf_substituted (sub List.mem_cons_self) s).whole]
    exact h

theorem strip_redact {text : String} (h : strip text = text) :
    strip (redact table text).text = (redact table text).text := by
  rw [redact_eq_substituteAll, strip_eq_iff, String.toList_ofList]
  exact visibleEnds_substituteAll (fun _ h => h) (strip_eq_iff.mp h) 0

end Ends

section Marked

variable {s t u : List Char} {table : UnicodeTable} {entry : String × Pattern}

/-- Where the texts first differ, the second one has the bracket that opens a marker. -/
def Marked (s t : List Char) : Prop :=
  ∃ front c rest later, s = front ++ c :: rest ∧ t = front ++ '[' :: later ∧ c ≠ '['

theorem not_marked_self : ¬Marked s s := by
  rintro ⟨front, c, rest, later, hs, ht, hc⟩
  rw [hs] at ht
  exact hc (List.cons.inj (List.append_cancel_left ht)).1

theorem marked_cons {c : Char} (h : Marked s t) : Marked (c :: s) (c :: t) := by
  obtain ⟨front, d, rest, later, rfl, rfl, hd⟩ := h
  exact ⟨c :: front, d, rest, later, rfl, rfl, hd⟩

theorem marked_trans (h : Marked s t) (h' : Marked t u) : Marked s u := by
  induction s generalizing t u with
  | nil =>
    obtain ⟨front, c, rest, later, hs, _, _⟩ := h
    exact absurd hs.symm (by simp)
  | cons c s ih =>
    obtain ⟨front, d, rest, later, hs, ht, hd⟩ := h
    obtain ⟨front', d', rest', later', ht', hu, hd'⟩ := h'
    cases front with
    | nil =>
      obtain ⟨rfl, rfl⟩ := List.cons.inj hs
      cases front' with
      | nil =>
        rw [ht] at ht'
        exact absurd (List.cons.inj ht').1.symm hd'
      | cons x front' =>
        rw [ht] at ht'
        obtain ⟨rfl, _⟩ := List.cons.inj ht'
        exact ⟨[], c, s, front' ++ '[' :: later', rfl, hu, hd⟩
    | cons x front =>
      obtain ⟨rfl, rfl⟩ := List.cons.inj hs
      cases front' with
      | nil =>
        rw [ht] at ht'
        obtain ⟨rfl, _⟩ := List.cons.inj ht'
        exact ⟨[], c, front ++ d :: rest, later', rfl, hu, hd'⟩
      | cons y front' =>
        rw [ht] at ht'
        obtain ⟨rfl, htail⟩ := List.cons.inj ht'
        rw [hu]
        exact marked_cons (ih ⟨front, d, rest, later, rfl, rfl, hd⟩
          ⟨front', d', rest', later', htail, rfl, hd'⟩)

/-- No pattern has a match that begins with a bracket. -/
theorem begins_unbracketed : ∀ entry ∈ redactionPatterns, entry.2.mayBegin '[' = false := by
  decide

theorem marked_replaced {kind : String} {cut : List Piece} (ne : hits cut ≠ [])
    (begins : ∀ taken ∈ hits cut, ∃ c rest, taken = c :: rest ∧ c ≠ '[') :
    Marked (original cut) (replaced (redactionToken kind) cut) := by
  have htoken := redactionToken_brackets kind
  induction cut with
  | nil => exact absurd rfl ne
  | cons piece cut ih =>
    cases piece with
    | char c => exact marked_cons (ih ne begins)
    | hit taken =>
      obtain ⟨c, rest, rfl, hc⟩ := begins taken (by simp)
      refine ⟨[], c, rest ++ original cut, ("REDACTED:".toList ++ kind.toList) ++ [']'] ++
        replaced (redactionToken kind) cut, rfl, ?_, hc⟩
      rw [replaced_hit, htoken]
      rfl

theorem hits_begin (h : entry ∈ redactionPatterns) :
    ∀ taken ∈ hits (pieces table.isWord entry.2 s), ∃ c rest, taken = c :: rest ∧ c ≠ '[' := by
  intro taken htaken
  obtain ⟨piece, hpiece, hsome⟩ := List.mem_filterMap.mp htaken
  cases piece with
  | char c => cases hsome
  | hit other =>
    cases hsome
    obtain ⟨front, back, hcut⟩ := List.append_of_mem hpiece
    obtain ⟨hne, hhead⟩ := (cutOf_substituted h s).first front taken back hcut
    obtain ⟨c, rest, rfl⟩ := List.exists_cons_of_ne_nil hne
    refine ⟨c, rest, rfl, ?_⟩
    rintro rfl
    have hbegins := mayBegin_of_match (List.mem_of_head? hhead)
    rw [begins_unbracketed entry h] at hbegins
    cases hbegins

theorem substituteAll_cases {entries : List (String × Pattern)} (sub : entries ⊆ redactionPatterns)
    (n : Nat) : substituteAll table entries (s, n) = (s, n) ∨
      Marked s (substituteAll table entries (s, n)).1 := by
  induction entries generalizing s n with
  | nil => exact .inl rfl
  | cons entry entries ih =>
    have hentry := sub List.mem_cons_self
    have hothers : entries ⊆ redactionPatterns := fun _ h => sub (List.mem_cons_of_mem _ h)
    have hcut := @cutOf_substituted table _ hentry s
    rw [substituteAll_cons]
    by_cases hnil : hits (pieces table.isWord entry.2 s) = []
    · have hnone := noMatch_of_hits (redactionPatterns_nonempty entry hentry) hcut hnil
      rw [substitute_fixed hentry hnone]
      exact ih hothers n
    · have hmarked := @marked_replaced entry.1 _ hnil (hits_begin hentry)
      rw [hcut.whole] at hmarked
      refine .inr ?_
      rcases ih hothers (n + (hits (pieces table.isWord entry.2 s)).length) with hsame | hlater
      · rw [substitute, hsame]
        exact hmarked
      · exact marked_trans hmarked hlater

theorem redact_text_iff {text : String} :
    (redact table text).text = text ↔ NoSecret table text.toList := by
  constructor
  · intro h
    rw [redact_eq_substituteAll] at h
    have hlist := congrArg String.toList h
    rw [String.toList_ofList] at hlist
    rcases @substituteAll_cases text.toList table redactionPatterns (fun _ h => h) 0 with
      hsame | hmarked
    · exact noMatch_of_count (fun _ h => h) (congrArg Prod.snd hsame)
    · rw [hlist] at hmarked
      exact absurd hmarked not_marked_self
  · intro h
    rw [redact_fixed_iff.mpr h]

theorem redact_count_iff {text : String} :
    (redact table text).count = 0 ↔ NoSecret table text.toList := by
  constructor
  · intro h
    by_cases hempty : text = ""
    · rw [hempty]
      exact noSecret_nil
    · rw [redact_eq_substituteAll, if_neg hempty] at h
      exact noMatch_of_count (fun _ h => h) h
  · intro h
    rw [redact_fixed_iff.mpr h]

end Marked

section Lengths

variable {s : List Char} {table : UnicodeTable}

/-- By how much the markers are longer than the matches they replace. -/
def lengthening (table : UnicodeTable) : List (String × Pattern) → List Char → Int
  | [], _ => 0
  | entry :: entries, s =>
    ((hits (pieces table.isWord entry.2 s)).map fun taken =>
      ((redactionToken entry.1).length - taken.length : Int)).sum +
    lengthening table entries (substituted table entry s)

theorem length_replaced (marker : List Char) (cut : List Piece) :
    ((replaced marker cut).length : Int) = (original cut).length +
      ((hits cut).map fun taken => (marker.length - taken.length : Int)).sum := by
  induction cut with
  | nil => rfl
  | cons piece cut ih =>
    cases piece with
    | char c =>
      rw [replaced_char, original_char, hits_char, List.length_cons, List.length_cons]
      omega
    | hit taken =>
      rw [replaced_hit, original_hit, hits_hit, List.map_cons, List.sum_cons, List.length_append,
        List.length_append]
      omega

theorem length_substituteAll {entries : List (String × Pattern)}
    (sub : entries ⊆ redactionPatterns) (n : Nat) :
    ((substituteAll table entries (s, n)).1.length : Int) =
      s.length + lengthening table entries s := by
  induction entries generalizing s n with
  | nil => exact (Int.add_zero _).symm
  | cons entry entries ih =>
    have hlength := length_replaced (redactionToken entry.1) (pieces table.isWord entry.2 s)
    rw [(cutOf_substituted (sub List.mem_cons_self) s).whole] at hlength
    rw [substituteAll_cons, substitute, ih fun _ h => sub (List.mem_cons_of_mem _ h), hlength,
      lengthening, Int.add_assoc]
    rfl

theorem length_redact (text : String) : ((redact table text).text.length : Int) =
    text.length + lengthening table redactionPatterns text.toList := by
  rw [redact_eq_substituteAll, String.length_ofList, length_substituteAll (fun _ h => h),
    String.length_toList]

theorem strip_cap (text : String) : strip (cap (redact table) text) = cap (redact table) text := by
  have hredacted := @strip_redact table _ (strip_strip text)
  unfold cap
  dsimp only
  split
  · exact hredacted
  next hlong =>
    have hends := strip_eq_iff.mp hredacted
    rw [strip_eq_iff, String.toList_append, String.toList_ofList]
    constructor
    · intro c hc
      refine hends.first c ?_
      cases hlist : (redact table (strip text)).text.toList with
      | nil =>
        rw [← String.length_toList, hlist] at hlong
        exact absurd (Nat.zero_le _) hlong
      | cons d rest =>
        rw [hlist] at hc
        exact hc
    · intro c hc
      have hdot : '.' = c := by
        rw [show "...".toList = ['.', '.'] ++ ['.'] from rfl, ← List.append_assoc,
          List.getLast?_concat] at hc
        exact Option.some.inj hc
      rw [← hdot]
      decide

end Lengths

section Leaves

variable {redact : String → RedactionResult} {leaf : String → Prop} {key : String} {n : Int}

mutual

theorem redactMapping_eq_iff (value : Value) : (redactMapping redact value).1 = value ↔
    value.All (fun s => (redact s).text = s) fun _ => True := by
  cases value with
  | str s => simp only [redactMapping, Value.All, Value.str.injEq]
  | list items =>
    simp only [redactMapping, Value.All, Value.list.injEq]
    exact redactItems_eq_iff items
  | obj fields =>
    simp only [redactMapping, Value.All, Value.obj.injEq, true_and]
    exact redactFields_eq_iff fields
  | none => simp only [redactMapping, Value.All]
  | bool b => simp only [redactMapping, Value.All]
  | int n => simp only [redactMapping, Value.All]
  | float repr => simp only [redactMapping, Value.All]

theorem redactItems_eq_iff (items : List Value) : (redactItems redact items).1 = items ↔
    allItems (fun s => (redact s).text = s) (fun _ => True) items := by
  cases items with
  | nil => simp only [redactItems, allItems]
  | cons item rest =>
    simp only [redactItems, allItems, List.cons.injEq]
    rw [redactMapping_eq_iff item, redactItems_eq_iff rest]

theorem redactFields_eq_iff (fields : List (String × Value)) :
    (redactFields redact fields).1 = fields ↔
      allFields (fun s => (redact s).text = s) (fun _ => True) fields := by
  cases fields with
  | nil => simp only [redactFields, allFields]
  | cons entry rest =>
    obtain ⟨name, value⟩ := entry
    simp only [redactFields, allFields, List.cons.injEq, Prod.mk.injEq, true_and]
    rw [redactMapping_eq_iff value, redactFields_eq_iff rest]

end

mutual

theorem redactMapping_count (value : Value) (h : value.All (fun s => (redact s).count = 0)
    fun _ => True) : (redactMapping redact value).2 = 0 := by
  cases value with
  | str s =>
    simp only [Value.All] at h
    simpa only [redactMapping] using h
  | list items =>
    simp only [Value.All] at h
    simpa only [redactMapping] using redactItems_count items h
  | obj fields =>
    simp only [Value.All, true_and] at h
    simpa only [redactMapping] using redactFields_count fields h
  | none => simp only [redactMapping]
  | bool b => simp only [redactMapping]
  | int n => simp only [redactMapping]
  | float repr => simp only [redactMapping]

theorem redactItems_count (items : List Value) (h : allItems (fun s => (redact s).count = 0)
    (fun _ => True) items) : (redactItems redact items).2 = 0 := by
  cases items with
  | nil => simp only [redactItems]
  | cons item rest =>
    simp only [allItems] at h
    simp only [redactItems]
    rw [redactMapping_count item h.1, redactItems_count rest h.2]

theorem redactFields_count (fields : List (String × Value))
    (h : allFields (fun s => (redact s).count = 0) (fun _ => True) fields) :
    (redactFields redact fields).2 = 0 := by
  cases fields with
  | nil => simp only [redactFields]
  | cons entry rest =>
    obtain ⟨name, value⟩ := entry
    simp only [allFields] at h
    simp only [redactFields]
    rw [redactMapping_count value h.1, redactFields_count rest h.2]

end

theorem Dict.pop_absent {dict : Fields} (h : key ∉ dict.map Prod.fst) : Dict.pop dict key = dict := by
  refine List.filter_eq_self.mpr fun entry hentry => ?_
  have : entry.1 ≠ key := fun heq => h (heq ▸ List.mem_map_of_mem hentry)
  simpa using this

theorem Dict.set_lookup {dict : Fields} {value : Value} (h : dict.lookup key = some value) :
    dict.set key value = dict := by
  induction dict with
  | nil => cases h
  | cons entry rest ih =>
    obtain ⟨name, other⟩ := entry
    rw [Dict.set]
    split
    next hname =>
      rw [hname, List.lookup_cons_self] at h
      rw [Option.some.inj h]
    next hname =>
      rw [List.lookup_cons, beq_false_of_ne (Ne.symm hname)] at h
      rw [ih h]

theorem allFields_set {fields : Fields} (nodup : (fields.map Prod.fst).Nodup) :
    allFields leaf (fun _ => True) (Dict.set fields key (.int n)) ↔
      allFields leaf (fun _ => True) (Dict.pop fields key) := by
  induction fields with
  | nil => simp [Dict.set, Dict.pop, allFields, Value.All]
  | cons entry rest ih =>
    obtain ⟨name, value⟩ := entry
    obtain ⟨hfresh, hrest⟩ := List.nodup_cons.mp nodup
    rw [Dict.set, Dict.pop]
    split
    next hname =>
      rw [hname] at hfresh
      rw [List.filter_cons_of_neg (by simp [hname])]
      change _ ↔ allFields leaf _ (Dict.pop rest key)
      rw [Dict.pop_absent hfresh]
      simp only [allFields, Value.All, true_and]
    next hname =>
      rw [List.filter_cons_of_pos (by simpa using hname)]
      simp only [allFields]
      exact and_congr_right fun _ => ih hrest

theorem pop_redactFields (fields : Fields) :
    Dict.pop (redactFields redact fields).1 key = (redactFields redact (Dict.pop fields key)).1 := by
  induction fields with
  | nil => rfl
  | cons entry rest ih =>
    obtain ⟨name, value⟩ := entry
    rw [redactFields]
    unfold Dict.pop at ih ⊢
    by_cases hname : name = key
    · rw [List.filter_cons_of_neg (by simpa using hname), List.filter_cons_of_neg (by simpa using hname),
        ih]
    · rw [List.filter_cons_of_pos (by simpa using hname), List.filter_cons_of_pos (by simpa using hname),
        ih, redactFields]

theorem metadataMarkers_set (fields : Fields) :
    metadataMarkers (Dict.set fields key (.int n)) ≤ metadataMarkers fields := by
  induction fields with
  | nil => simp [Dict.set, metadataMarkers]
  | cons entry rest ih =>
    obtain ⟨name, value⟩ := entry
    rw [Dict.set]
    split
    · cases value <;> simp only [metadataMarkers] <;> omega
    · cases value <;> simp only [metadataMarkers] <;> omega

end Leaves

section Prepare

variable {redact : String → RedactionResult} {row prepared : Evidence}

/-- The `redaction_count` that `prepare_evidence` writes. -/
def redactionCount (redact : String → RedactionResult) (row : Evidence) : Int :=
  max (max (((redact row.summary).count + (redact row.contentRef.text).count +
      (redactFields redact row.metadata).2 : Nat) : Int)
    (priorRedactions (redactFields redact row.metadata).1))
    ((markerCount (redact row.summary).text + markerCount (redact row.contentRef.text).text +
      metadataMarkers (redactFields redact row.metadata).1 : Nat) : Int)

theorem prepareEvidence_parts (h : prepareEvidence redact row = .ok prepared) :
    EvidenceParts row.id row.incidentId (redact row.contentRef.text).text
      (redact row.summary).text (Dict.set (redactFields redact row.metadata).1
        "redaction_count" (.int (redactionCount redact row))) prepared :=
  evidence_new_parts h

theorem prepareEvidence_exists (h : strip (redact row.contentRef.text).text ≠ "") :
    ∃ prepared, prepareEvidence redact row = .ok prepared := by
  unfold prepareEvidence Evidence.new requireText
  dsimp only
  rw [dif_neg h]
  exact ⟨_, rfl⟩

/-- The keys that `_sanitize_metadata` takes out. -/
def NoEmbedding (fields : Fields) : Prop :=
  "embedding" ∉ fields.map Prod.fst ∧ "embeddings" ∉ fields.map Prod.fst

theorem sanitizeMetadata_self {fields : Fields} (h : NoEmbedding fields) :
    sanitizeMetadata fields = fields := by
  unfold sanitizeMetadata
  rw [Dict.pop_absent h.1, Dict.pop_absent h.2]

theorem noEmbedding_sanitized (fields : Fields) : NoEmbedding (sanitizeMetadata fields) := by
  constructor
  · intro h
    obtain ⟨entry, hentry, hkey⟩ := List.mem_map.mp h
    have hfirst := (List.mem_filter.mp (List.mem_filter.mp hentry).1).2
    simp [hkey] at hfirst
  · intro h
    obtain ⟨entry, hentry, hkey⟩ := List.mem_map.mp h
    have hsecond := (List.mem_filter.mp hentry).2
    simp [hkey] at hsecond

theorem noEmbedding_set {fields : Fields} (h : NoEmbedding fields) (n : Int) :
    NoEmbedding (Dict.set fields "redaction_count" (.int n)) := by
  constructor
  · rw [Dict.mem_keys_set]
    exact not_or.mpr ⟨by decide, h.1⟩
  · rw [Dict.mem_keys_set]
    exact not_or.mpr ⟨by decide, h.2⟩

theorem noEmbedding_redacted {fields : Fields} (h : NoEmbedding fields) :
    NoEmbedding (redactFields redact fields).1 := by
  unfold NoEmbedding
  rw [redactFields_keys]
  exact h

/-- The metadata that a prepared row has. -/
theorem prepared_metadata (h : prepareEvidence redact row = .ok prepared)
    (clean : NoEmbedding row.metadata) :
    prepared.metadata = Dict.set (redactFields redact row.metadata).1 "redaction_count"
      (.int (redactionCount redact row)) := by
  rw [(prepareEvidence_parts h).metadata]
  exact sanitizeMetadata_self (noEmbedding_set (noEmbedding_redacted clean) _)

end Prepare

section Again

variable {table : UnicodeTable} {built prepared : Evidence}

/-- Every string of the metadata, but for the redaction count, keeps its credentials whole. -/
def MetadataWhole (table : UnicodeTable) (metadata : Fields) : Prop :=
  allFields (CredentialsWhole table) (fun _ => True) (Dict.pop metadata "redaction_count")

theorem prepared_summary (h : prepareEvidence (redact table) built = .ok prepared) :
    prepared.summary = (redact table built.summary).text := by
  rw [(prepareEvidence_parts h).summary, strip_redact built.summary_stripped]

theorem prepared_contentRef (h : prepareEvidence (redact table) built = .ok prepared) :
    prepared.contentRef.text = (redact table built.contentRef.text).text := by
  rw [(prepareEvidence_parts h).contentRef, strip_redact built.contentRef.stripped]

theorem prepared_metadata_fixed (h : prepareEvidence (redact table) built = .ok prepared)
    (clean : NoEmbedding built.metadata) (nodup : (built.metadata.map Prod.fst).Nodup) :
    (redactFields (redact table) prepared.metadata).1 = prepared.metadata ↔
      MetadataWhole table built.metadata := by
  have hleaf : (fun s => (redact table (redact table s).text).text = (redact table s).text) =
      CredentialsWhole table :=
    funext fun s => propext (redact_text_iff.trans noSecret_iff)
  have hkeys : ((redactFields (redact table) built.metadata).1.map Prod.fst).Nodup := by
    rw [redactFields_keys]
    exact nodup
  rw [redactFields_eq_iff, prepared_metadata h clean, allFields_set hkeys, pop_redactFields,
    allFields_redacted, hleaf]
  exact Iff.rfl

theorem lookup_prepared (h : prepareEvidence (redact table) built = .ok prepared)
    (clean : NoEmbedding built.metadata) :
    prepared.metadata.lookup "redaction_count" =
      some (.int (redactionCount (redact table) built)) := by
  rw [prepared_metadata h clean, Dict.lookup_set, if_pos rfl]

/-- Where nothing is left to redact, the count that a row carries is the one it gets again. -/
theorem redactionCount_kept (h : prepareEvidence (redact table) built = .ok prepared)
    (clean : NoEmbedding built.metadata)
    (summary : NoSecret table prepared.summary.toList)
    (contentRef : NoSecret table prepared.contentRef.text.toList)
    (metadata : (redactFields (redact table) prepared.metadata).1 = prepared.metadata) :
    redactionCount (redact table) prepared = redactionCount (redact table) built := by
  have hprior : priorRedactions prepared.metadata = redactionCount (redact table) built := by
    unfold priorRedactions Fields.get
    rw [lookup_prepared h clean]
    rfl
  have hleaf : (fun s => (redact table s).text = s) = fun s => (redact table s).count = 0 :=
    funext fun s => propext (redact_text_iff.trans redact_count_iff.symm)
  have hcount : (redactFields (redact table) prepared.metadata).2 = 0 := by
    refine redactFields_count _ ?_
    rw [← hleaf]
    exact (redactFields_eq_iff _).mp metadata
  have hmarkers : metadataMarkers prepared.metadata ≤
      metadataMarkers (redactFields (redact table) built.metadata).1 := by
    rw [prepared_metadata h clean]
    exact metadataMarkers_set _
  have hsummary := prepared_summary h
  have hcontentRef := prepared_contentRef h
  have hsecond : redactionCount (redact table) prepared =
      max (max 0 (redactionCount (redact table) built))
        ((markerCount prepared.summary + markerCount prepared.contentRef.text +
          metadataMarkers prepared.metadata : Nat) : Int) := by
    rw [redactionCount, metadata, hcount, hprior, redact_fixed_iff.mpr summary,
      redact_fixed_iff.mpr contentRef]
    rfl
  have hfirst : ((markerCount prepared.summary + markerCount prepared.contentRef.text +
      metadataMarkers (redactFields (redact table) built.metadata).1 : Nat) : Int) ≤
        redactionCount (redact table) built := by
    rw [redactionCount, hsummary, hcontentRef]
    exact le_max_right _ _
  rw [hsecond]
  omega

theorem prepared_again_iff (h : prepareEvidence (redact table) built = .ok prepared)
    (clean : NoEmbedding built.metadata) (nodup : (built.metadata.map Prod.fst).Nodup) :
    (∃ again, prepareEvidence (redact table) prepared = .ok again ∧
      again.summary = prepared.summary ∧ again.contentRef.text = prepared.contentRef.text ∧
      again.metadata = prepared.metadata) ↔
    CredentialsWhole table built.summary ∧ CredentialsWhole table built.contentRef.text ∧
      MetadataWhole table built.metadata := by
  have hclean : NoEmbedding prepared.metadata := by
    rw [prepared_metadata h clean]
    exact noEmbedding_set (noEmbedding_redacted clean) _
  have hsummary : NoSecret table prepared.summary.toList ↔ CredentialsWhole table built.summary := by
    rw [prepared_summary h]
    exact noSecret_iff
  have hcontentRef : NoSecret table prepared.contentRef.text.toList ↔
      CredentialsWhole table built.contentRef.text := by
    rw [prepared_contentRef h]
    exact noSecret_iff
  rw [← hsummary, ← hcontentRef, ← prepared_metadata_fixed h clean nodup]
  constructor
  · rintro ⟨again, hagain, hsame, href, hmetadata⟩
    rw [prepared_summary hagain] at hsame
    rw [prepared_contentRef hagain] at href
    refine ⟨redact_text_iff.mp hsame, redact_text_iff.mp href, ?_⟩
    rw [prepared_metadata hagain hclean] at hmetadata
    have hlookup : (redactFields (redact table) prepared.metadata).1.lookup "redaction_count" =
        some (.int (redactionCount (redact table) prepared)) := by
      have hsame := lookup_prepared h clean
      rw [← hmetadata, Dict.lookup_set, if_pos rfl] at hsame
      rw [lookup_redactFields, ← hmetadata, Dict.lookup_set, if_pos rfl]
      rfl
    rwa [Dict.set_lookup hlookup] at hmetadata
  · rintro ⟨hnone, href, hmetadata⟩
    have hkept := redactionCount_kept h clean hnone href hmetadata
    have hfixed : (redact table prepared.contentRef.text).text = prepared.contentRef.text :=
      redact_text_iff.mpr href
    obtain ⟨again, hagain⟩ := @prepareEvidence_exists (redact table) prepared (by
      rw [hfixed, prepared.contentRef.stripped]
      exact prepared.contentRef.ne)
    refine ⟨again, hagain, ?_, ?_, ?_⟩
    · rw [prepared_summary hagain, redact_text_iff.mpr hnone]
    · rw [prepared_contentRef hagain, hfixed]
    · rw [prepared_metadata hagain hclean, hmetadata, hkept]
      exact Dict.set_lookup (lookup_prepared h clean)

end Again

/-- A dict that none of the three collectors made: its values as `str(value or "")` gives them, and
all its entries. -/
structure ManualItem where
  contentRef : String
  summary : String
  text : String
  timestamp : String
  collectedAt : String
  fields : Fields

/-- `dict(tool="manual")` with the entries of the item but its embedding. -/
def manualMetadata (fields : Fields) : Fields :=
  (Dict.pop fields "embedding").foldl (fun metadata entry => metadata.set entry.1 entry.2)
    [("tool", .str "manual")]

inductive GraphItem where
  | collected (item : CollectedItem)
  | manual (item : ManualItem)

/-- What a row is minted from. -/
structure Draft where
  contentRef : String
  text : String
  metadata : Fields

def GraphItem.draft : GraphItem → Draft
  | .collected item =>
    let auditId := item.auditId.elim Value.none Value.str
    match item.content with
    | .observability kind _ timestamp service summary =>
      let kind := (parseEvidenceKind (orElse kind "log")).getD .log
      ⟨"simulator:" ++ service ++ ":" ++ kind.value ++ ":" ++ timestamp, summary,
        [("tool", .str "observability"), ("service", .str service), ("untrusted", .bool true),
          ("audit_id", auditId)]⟩
    | .knowledge _ text document section_ chunkId =>
      ⟨orElse (orElse chunkId document) "retrieve", text,
        [("tool", .str "retrieve"), ("citation", .obj (citationFields document section_ chunkId)),
          ("query", .none), ("untrusted", .bool true), ("audit_id", auditId)]⟩
    | .code _ _ service version path summary =>
      let path := orElse path ("code:" ++ orElse service "unknown")
      ⟨path, summary, [("tool", .str "code_search"), ("version", .str version), ("path", .str path),
        ("service", .str service), ("untrusted", .bool true), ("audit_id", auditId)]⟩
  | .manual item =>
    ⟨orElse item.contentRef "manual", orElse item.summary item.text, manualMetadata item.fields⟩

/-- `evidence_from_collected_item`, with the branch for other dicts. -/
def evidenceFromItem {World : Type} (host : Host World) (incidentId : Uuid) :
    GraphItem → Proc World Raised Evidence
  | .collected item => evidenceFromCollectedItem host incidentId item
  | .manual item =>
    mintEvidence host incidentId .manual .note (orElse item.contentRef "manual")
      (cap host.services.redact (orElse item.summary item.text)) (manualMetadata item.fields)
      (orElse item.timestamp item.collectedAt)

section Items

variable {World : Type} {host : Host World} {incidentId : Uuid} {table : UnicodeTable}
  {item : GraphItem} {row : Evidence} {s t : World}

theorem evidenceFromItem_mints (host : Host World) (incidentId : Uuid) (item : GraphItem) :
    ∃ source kind timestamp, evidenceFromItem host incidentId item =
      mintEvidence host incidentId source kind item.draft.contentRef
        (cap host.services.redact item.draft.text) item.draft.metadata timestamp := by
  cases item with
  | collected item =>
    obtain ⟨content, tool, auditId⟩ := item
    cases content with
    | observability kind source timestamp service summary => exact ⟨_, _, _, rfl⟩
    | knowledge timestamp text document section_ chunkId => exact ⟨_, _, _, rfl⟩
    | code kind timestamp service version path summary => exact ⟨_, _, _, rfl⟩
  | manual item => exact ⟨_, _, _, rfl⟩

theorem manualMetadata_nodup (fields : Fields) : ((manualMetadata fields).map Prod.fst).Nodup := by
  unfold manualMetadata
  generalize Dict.pop fields "embedding" = entries
  have start : (([("tool", .str "manual")] : Fields).map Prod.fst).Nodup := by simp
  generalize ([("tool", .str "manual")] : Fields) = metadata at start ⊢
  induction entries generalizing metadata with
  | nil => exact start
  | cons entry entries ih => exact ih _ (Dict.keys_set_nodup start)

theorem draft_nodup (item : GraphItem) : (item.draft.metadata.map Prod.fst).Nodup := by
  cases item with
  | collected item =>
    obtain ⟨content, tool, auditId⟩ := item
    cases content <;> simp [GraphItem.draft]
  | manual item => exact manualMetadata_nodup item.fields

/-- What a second redaction finds in the capped text leaves it within the cap, and no marker tears
the credentials of a database URL in the capped text, in the reference or in the metadata. -/
structure Settles (table : UnicodeTable) (item : GraphItem) : Prop where
  fits : ((cap (redact table) item.draft.text).length : Int) +
    lengthening table redactionPatterns (cap (redact table) item.draft.text).toList ≤ evidenceTextCap
  summary : CredentialsWhole table (cap (redact table) item.draft.text)
  contentRef : CredentialsWhole table (strip item.draft.contentRef)
  metadata : MetadataWhole table (sanitizeMetadata item.draft.metadata)

/-- The row of an item has a summary within the cap and without a secret, and is prepared as it
stands, exactly when its texts settle. -/
theorem evidence_projection_iff (hredact : host.services.redact = redact table)
    (h : evidenceFromItem host incidentId item s = (.ok row, t)) :
    (row.summary.length ≤ evidenceTextCap ∧ NoSecret table row.summary.toList ∧
      ∃ again, prepareEvidence (redact table) row = .ok again ∧ again.summary = row.summary ∧
        again.contentRef.text = row.contentRef.text ∧ again.metadata = row.metadata) ↔
      Settles table item := by
  obtain ⟨source, kind, timestamp, hmints⟩ := evidenceFromItem_mints host incidentId item
  rw [hmints, hredact] at h
  obtain ⟨id, built, hbuilt, hprepared⟩ := mintEvidence_ok h
  rw [hredact] at hprepared
  have hsummary : built.summary = cap (redact table) item.draft.text := by
    rw [hbuilt.summary, strip_cap]
  have hclean : NoEmbedding built.metadata := by
    rw [hbuilt.metadata]
    exact noEmbedding_sanitized _
  have hnodup : (built.metadata.map Prod.fst).Nodup := by
    rw [hbuilt.metadata]
    have hfirst : List.Sublist (sanitizeMetadata item.draft.metadata) item.draft.metadata :=
      List.filter_sublist.trans List.filter_sublist
    exact (draft_nodup item).sublist (hfirst.map Prod.fst)
  have hlength : row.summary.length ≤ evidenceTextCap ↔
      ((cap (redact table) item.draft.text).length : Int) +
        lengthening table redactionPatterns (cap (redact table) item.draft.text).toList ≤
          evidenceTextCap := by
    rw [prepared_summary hprepared, hsummary, ← length_redact, Int.ofNat_le]
  have hnone : NoSecret table row.summary.toList ↔
      CredentialsWhole table (cap (redact table) item.draft.text) := by
    rw [prepared_summary hprepared, hsummary]
    exact noSecret_iff
  rw [hlength, hnone, prepared_again_iff hprepared hclean hnodup, hsummary, hbuilt.contentRef,
    hbuilt.metadata]
  exact ⟨fun ⟨fits, _, summary, contentRef, metadata⟩ => ⟨fits, summary, contentRef, metadata⟩,
    fun settles => ⟨settles.fits, settles.summary, settles.summary, settles.contentRef,
      settles.metadata⟩⟩

end Items

section Behind

variable {isWord : Char → Bool} {r : Pattern} {table : UnicodeTable} {c : Char} {s : List Char}
  {n : Nat}

theorem ends_unbegun (nonempty : 0 < r.minLength) (begins : r.mayBegin c = false)
    (prev : Option Char) : ends isWord r prev (c :: s) = [] := by
  rw [List.eq_nil_iff_forall_not_mem]
  rintro ⟨taken, rest⟩ hmatch
  have hlength := minLength_le hmatch
  cases taken with
  | nil => exact absurd hlength (Nat.not_le.mpr nonempty)
  | cons d taken =>
    obtain ⟨rfl, _⟩ := List.cons.inj (ends_append hmatch)
    rw [mayBegin_of_match hmatch] at begins
    cases begins

theorem piecesFrom_behind (nonempty : 0 < r.minLength) (begins : r.mayBegin c = false)
    (prev : Option Char) : piecesFrom isWord r (n + 1 + s.length) prev
      (List.replicate (n + 1) c ++ s) =
        List.replicate (n + 1) (.char c) ++ piecesFrom isWord r s.length (some c) s := by
  induction n generalizing prev with
  | zero =>
    rw [Nat.zero_add, Nat.add_comm]
    simp only [List.replicate_one, List.singleton_append, piecesFrom]
    rw [ends_unbegun nonempty begins]
    rfl
  | succ n ih =>
    rw [show n + 1 + 1 + s.length = (n + 1 + s.length) + 1 by omega, List.replicate_succ,
      List.cons_append, piecesFrom, ends_unbegun nonempty begins]
    dsimp only [List.head?_nil]
    rw [ih, List.replicate_succ (n := n + 1)]
    rfl

/-- `substitute` in what stands behind a character. -/
def substituteBehind (table : UnicodeTable) (c : Char) (entry : String × Pattern)
    (state : List Char × Nat) : List Char × Nat :=
  let cut := piecesFrom table.isWord entry.2 state.1.length (some c) state.1
  (replaced (redactionToken entry.1) cut, state.2 + (hits cut).length)

theorem substitute_behind {entry : String × Pattern} (hentry : entry ∈ redactionPatterns)
    (begins : entry.2.mayBegin c = false) (count : Nat) :
    substitute table entry (List.replicate (n + 1) c ++ s, count) =
      (List.replicate (n + 1) c ++ (substituteBehind table c entry (s, count)).1,
        (substituteBehind table c entry (s, count)).2) := by
  have hpieces := @piecesFrom_behind table.isWord entry.2 c s n
    (redactionPatterns_nonempty entry hentry) begins none
  have hlength : (List.replicate (n + 1) c ++ s).length = n + 1 + s.length := by simp
  have hchars : List.replicate (n + 1) (Piece.char c) = (List.replicate (n + 1) c).map .char := by
    rw [List.map_replicate]
  unfold substitute substituteBehind pieces
  dsimp only
  rw [hlength, hpieces, hchars, replaced_append, replaced_chars, hits_append, hits_chars,
    List.nil_append]

theorem redact_behind (begins : ∀ entry ∈ redactionPatterns, entry.2.mayBegin c = false) :
    (redact table (String.ofList (List.replicate (n + 1) c ++ s))).text =
      String.ofList (List.replicate (n + 1) c ++
        (redactionPatterns.foldl (fun state entry => substituteBehind table c entry state)
          (s, 0)).1) := by
  have all : ∀ (entries : List (String × Pattern)) (state : List Char × Nat),
      entries ⊆ redactionPatterns →
      (substituteAll table entries (List.replicate (n + 1) c ++ state.1, state.2)).1 =
        List.replicate (n + 1) c ++
          (entries.foldl (fun state entry => substituteBehind table c entry state) state).1 := by
    intro entries
    induction entries with
    | nil => exact fun _ _ => rfl
    | cons entry entries ih =>
      intro state sub
      have hentry := sub List.mem_cons_self
      rw [substituteAll_cons, substitute_behind hentry (begins entry hentry), List.foldl_cons]
      exact ih _ fun _ h => sub (List.mem_cons_of_mem _ h)
  rw [redact_eq_substituteAll, String.toList_ofList, all redactionPatterns (s, 0) fun _ h => h]

end Behind

/-- A text behind commas. -/
def commaNote (n : Nat) (s : List Char) : String := String.ofList (List.replicate (n + 1) ',' ++ s)

theorem commaNote_redacted {n : Nat} {s t : List Char}
    (h : (redactionPatterns.foldl (fun state entry => substituteBehind asciiTable ',' entry state)
      (s, 0)).1 = t) : (redact asciiTable (commaNote n s)).text = commaNote n t := by
  have begins : ∀ entry ∈ redactionPatterns, entry.2.mayBegin ',' = false := by decide
  unfold commaNote
  rw [redact_behind begins, h]

theorem commaNote_length (n : Nat) (s : List Char) :
    (commaNote n s).length = n + 1 + s.length := by
  unfold commaNote
  rw [String.length_ofList, List.length_append, List.length_replicate]

theorem strip_commaNote {n : Nat} {s : List Char} {last : Char} (h : s.getLast? = some last)
    (visible : isSpace last = false) : strip (commaNote n s) = commaNote n s := by
  rw [strip_eq_iff, commaNote, String.toList_ofList]
  constructor
  · intro c hc
    rw [List.replicate_succ] at hc
    rw [← Option.some.inj hc]
    decide
  · intro c hc
    rw [List.getLast?_append, h] at hc
    rw [← Option.some.inj hc]
    exact visible

theorem cap_commaNote {n : Nat} {raw s : List Char} {last : Char} (h : raw.getLast? = some last)
    (visible : isSpace last = false)
    (redacted : (redact asciiTable (commaNote n raw)).text = commaNote n s)
    (long : evidenceTextCap < n + 1 + s.length) (room : n + 1 ≤ evidenceTextCap - 3) :
    cap (redact asciiTable) (commaNote n raw) =
      commaNote n (s.take (evidenceTextCap - 3 - (n + 1)) ++ "...".toList) := by
  unfold cap
  rw [strip_commaNote h visible, redacted]
  dsimp only
  rw [commaNote_length, if_neg (Nat.not_le.mpr long)]
  unfold commaNote
  rw [String.toList_ofList, List.take_append, List.length_replicate, List.take_replicate,
    Nat.min_eq_right room, ← String.toList_inj, String.toList_append, String.toList_ofList,
    String.toList_ofList, String.toList_ofList, List.append_assoc]

/-- A note of 804 characters, with a token too short to be redacted. -/
def longNote : String := commaNote 784 "Bearer abcde, again".toList

/-- Where the note is cut, the dots make a token of it, and its marker goes past the cap. -/
theorem longNote_redacted : (redact asciiTable (cap (redact asciiTable) longNote)).text =
    commaNote 784 "[REDACTED:bearer_token]".toList := by
  have hwhole : (redactionPatterns.foldl (fun state entry =>
      substituteBehind asciiTable ',' entry state) ("Bearer abcde, again".toList, 0)).1 =
        "Bearer abcde, again".toList := by decide +kernel
  have hcut : (redactionPatterns.foldl (fun state entry =>
      substituteBehind asciiTable ',' entry state) ("Bearer abcde...".toList, 0)).1 =
        "[REDACTED:bearer_token]".toList := by decide +kernel
  have hcap := @cap_commaNote 784 _ "Bearer abcde, again".toList 'n' (by decide) (by decide)
    (commaNote_redacted hwhole) (by decide) (by decide)
  rw [longNote, hcap]
  exact commaNote_redacted hcut

theorem mintEvidence_exists {World : Type} {host : Host World} {incidentId : Uuid}
    {source : EvidenceSource} {kind : EvidenceKind} {contentRef summary : String}
    {metadata : Fields} {timestamp : String} {s : World} (ne : strip contentRef ≠ "")
    (kept : strip (host.services.redact (strip contentRef)).text ≠ "") :
    ∃ row t, mintEvidence host incidentId source kind contentRef summary metadata timestamp s =
      (.ok row, t) := by
  obtain ⟨id, u, hid⟩ : ∃ id u, mintId host s = (.ok id, u) := ⟨_, _, rfl⟩
  obtain ⟨collectedAt, v, hmoment⟩ : ∃ collectedAt v,
      momentOr host (parseCollectedAt host timestamp) u = (.ok collectedAt, v) := by
    cases parseCollectedAt host timestamp with
    | none => exact ⟨_, _, rfl⟩
    | some moment => exact ⟨_, _, rfl⟩
  obtain ⟨built, hbuilt⟩ : ∃ built,
      Evidence.new id incidentId source kind contentRef summary metadata collectedAt = .ok built := by
    unfold Evidence.new requireText
    rw [dif_neg ne]
    exact ⟨_, rfl⟩
  obtain ⟨row, hrow⟩ := @prepareEvidence_exists host.services.redact built (by
    rw [(evidence_new_parts hbuilt).contentRef]
    exact kept)
  have hmade : (fromExcept (Except.ok built) : Proc World Raised Evidence) v = (.ok built, v) := rfl
  refine ⟨row, v, ?_⟩
  unfold mintEvidence
  rw [bind_of_ok hid, bind_of_ok hmoment, hbuilt, bind_of_ok hmade, hrow]
  rfl

/-- A host that redacts with the ASCII table. -/
def asciiHost : Host Unit where
  services := ⟨fun _ => Digest.genesis, redact asciiTable⟩
  lower := id
  fromIsoformat _ := none
  now world := (0, world)
  uuid4 world := (7, world)

def runbookItem (text : String) : GraphItem :=
  .collected ⟨.knowledge "" text "runbook.md" "" "c1", "retrieve_knowledge", none⟩

theorem runbookItem_accepted (text : String) :
    ∃ row t, evidenceFromItem asciiHost 10 (runbookItem text) () = (.ok row, t) := by
  refine mintEvidence_exists (by decide) ?_
  decide +kernel

theorem credentialsWhole_of_unchanged {table : UnicodeTable} {text : String}
    (h : (redact table text).text = text) : CredentialsWhole table text := by
  rw [← noSecret_iff, h]
  exact redact_text_iff.mp h

/-- A runbook of 809 characters with an address in it. -/
def mailRunbook : String :=
  commaNote 760 "write to alice@example.com, and restart the pool".toList

/-- The address is redacted, and what goes past the cap is cut. -/
theorem cap_mailRunbook : cap (redact asciiTable) mailRunbook =
    commaNote 760 "write to [REDACTED:email], and resta...".toList := by
  have hwhole : (redactionPatterns.foldl (fun state entry =>
      substituteBehind asciiTable ',' entry state)
        ("write to alice@example.com, and restart the pool".toList, 0)).1 =
          "write to [REDACTED:email], and restart the pool".toList := by decide +kernel
  have hcut : "write to [REDACTED:email], and restart the pool".toList.take
      (evidenceTextCap - 3 - (760 + 1)) ++ "...".toList =
        "write to [REDACTED:email], and resta...".toList := by decide
  rw [mailRunbook, @cap_commaNote 760 _ _ 'l' (by decide) (by decide) (commaNote_redacted hwhole)
    (by decide) (by decide), hcut]

theorem mailRunbook_unchanged : (redact asciiTable (cap (redact asciiTable) mailRunbook)).text =
    cap (redact asciiTable) mailRunbook := by
  rw [cap_mailRunbook]
  exact commaNote_redacted (by decide +kernel)

theorem runbook_settles : ∃ row t,
    evidenceFromItem asciiHost 10 (runbookItem mailRunbook) () = (.ok row, t) ∧
      row.summary.length ≤ evidenceTextCap ∧ NoSecret asciiTable row.summary.toList ∧
      ∃ again, prepareEvidence (redact asciiTable) row = .ok again ∧ again.summary = row.summary ∧
        again.contentRef.text = row.contentRef.text ∧ again.metadata = row.metadata := by
  obtain ⟨row, t, hrow⟩ := runbookItem_accepted mailRunbook
  refine ⟨row, t, hrow, (evidence_projection_iff rfl hrow).mpr ⟨?_, ?_, ?_, ?_⟩⟩
  · change ((cap (redact asciiTable) mailRunbook).length : Int) +
      lengthening asciiTable redactionPatterns (cap (redact asciiTable) mailRunbook).toList ≤ _
    rw [← length_redact, mailRunbook_unchanged, cap_mailRunbook, commaNote_length]
    exact Int.ofNat_le.mpr (by decide)
  · exact credentialsWhole_of_unchanged mailRunbook_unchanged
  · exact credentialsWhole_of_unchanged (by decide +kernel)
  · have whole : ∀ text ∈ ["retrieve", "runbook.md", "", "c1"],
        CredentialsWhole asciiTable text := by
      have hall : ∀ text ∈ ["retrieve", "runbook.md", "", "c1"],
          (redact asciiTable text).text = text := by decide +kernel
      exact fun text htext => credentialsWhole_of_unchanged (hall text htext)
    exact ⟨whole _ (by simp), ⟨trivial, whole _ (by simp), whole _ (by simp), whole _ (by simp),
      trivial⟩, trivial, trivial, trivial, trivial⟩

/-- A long note gets a summary of 808 characters. -/
theorem evidence_past_cap : ∃ row t,
    evidenceFromItem asciiHost 10 (runbookItem longNote) () = (.ok row, t) ∧
      ¬row.summary.length ≤ evidenceTextCap := by
  obtain ⟨row, t, hrow⟩ := runbookItem_accepted longNote
  refine ⟨row, t, hrow, ?_⟩
  obtain ⟨source, kind, timestamp, hmints⟩ := evidenceFromItem_mints asciiHost 10 (runbookItem longNote)
  rw [hmints] at hrow
  obtain ⟨id, built, hbuilt, hprepared⟩ := mintEvidence_ok hrow
  have hsummary : built.summary = cap (redact asciiTable) longNote := by
    rw [hbuilt.summary]
    exact strip_cap longNote
  rw [prepared_summary hprepared, hsummary, longNote_redacted, commaNote_length]
  decide

end Aegis
