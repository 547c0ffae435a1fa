import Aegis.AuditChain
import Aegis.Moments

namespace Aegis

/-- Two dicts that are one JSON object: the order of the keys does not matter. -/
def SameObject (a b : Fields) : Prop := sortKeys (.obj a) = sortKeys (.obj b)

def SameOutput : Option Fields → Option Fields → Prop
  | none, none => True
  | some a, some b => SameObject a b
  | _, _ => False

section Objects

variable {α : Type} {xs ys : Dict α} {key : String} {value : α}

theorem lookup_eq_some_iff_mem (nodup : (xs.map Prod.fst).Nodup) :
    xs.lookup key = some value ↔ (key, value) ∈ xs := by
  induction xs with
  | nil => simp
  | cons entry xs ih =>
    obtain ⟨k, v⟩ := entry
    obtain ⟨fresh, nodup⟩ := List.nodup_cons.mp nodup
    rw [List.lookup_cons, List.mem_cons, Prod.mk.injEq]
    by_cases hkey : key = k
    · subst hkey
      simp only [BEq.rfl, Option.some.injEq, true_and]
      constructor
      · exact fun h => .inl h.symm
      · rintro (h | h)
        · exact h.symm
        · exact absurd (List.mem_map_of_mem (f := Prod.fst) h) fresh
    · rw [beq_false_of_ne hkey]
      simpa [hkey] using ih nodup

/-- A dict is read by its keys, whatever their order. -/
theorem lookup_perm (perm : xs.Perm ys) (nodup : (xs.map Prod.fst).Nodup) (key : String) :
    xs.lookup key = ys.lookup key := by
  have nodup' := (perm.map Prod.fst).nodup_iff.mp nodup
  cases h : ys.lookup key with
  | none =>
    cases hx : xs.lookup key with
    | none => rfl
    | some value =>
      have := perm.mem_iff.mp ((lookup_eq_some_iff_mem nodup).mp hx)
      rw [(lookup_eq_some_iff_mem nodup').mpr this] at h
      cases h
  | some value =>
    exact (lookup_eq_some_iff_mem nodup).mpr
      (perm.mem_iff.mpr ((lookup_eq_some_iff_mem nodup').mp h))

theorem sortKeysFields_keys (fields : Fields) :
    (sortKeysFields fields).map Prod.fst = fields.map Prod.fst := by
  induction fields with
  | nil => rfl
  | cons entry rest ih => rw [sortKeysFields, List.map_cons, List.map_cons, ih]

theorem sortKeysFields_lookup (fields : Fields) (key : String) :
    (sortKeysFields fields).lookup key = (fields.lookup key).map sortKeys := by
  induction fields with
  | nil => rfl
  | cons entry rest ih =>
    rw [sortKeysFields, List.lookup_cons, List.lookup_cons, ih]
    split <;> rfl

theorem lookup_of_sameObject {a b : Fields} (ha : (a.map Prod.fst).Nodup)
    (hb : (b.map Prod.fst).Nodup) (same : SameObject a b) (key : String) :
    (a.lookup key).map sortKeys = (b.lookup key).map sortKeys := by
  unfold SameObject sortKeys at same
  have sorted := Value.obj.inj same
  have read : ∀ fields : Fields, (fields.map Prod.fst).Nodup →
      ((sortKeysFields fields).insertionSort fun x y => x.1 ≤ y.1).lookup key =
        (fields.lookup key).map sortKeys := by
    intro fields nodup
    rw [← sortKeysFields_lookup]
    refine lookup_perm (List.perm_insertionSort _ _) ?_ key
    rw [((List.perm_insertionSort _ _).map Prod.fst).nodup_iff, sortKeysFields_keys]
    exact nodup
  rw [← read a ha, ← read b hb, sorted]

end Objects

/-- The fields that the row hash of a stored row covers. -/
def AuditEntry.hashedFields (entry : AuditEntry) : Fields :=
  Dict.set (auditPayload entry.id entry.actor.text entry.action.text entry.input entry.output
    entry.decision entry.reason entry.incidentId.text entry.actionClass entry.createdAt
    entry.policyVersion entry.denyAll) "prev_hash" (.str entry.prevHash.text)

/-- The canonical JSON whose digest is the row hash. -/
def AuditEntry.body (entry : AuditEntry) : Value := sortKeys (.obj entry.hashedFields)

/-- `compute_row_hash` on a stored row. -/
def AuditEntry.recompute (digest : Value → Digest) (entry : AuditEntry) : Digest :=
  computeRowHash digest (auditPayload entry.id entry.actor.text entry.action.text entry.input
    entry.output entry.decision entry.reason entry.incidentId.text entry.actionClass
    entry.createdAt entry.policyVersion entry.denyAll) entry.prevHash.text

/-- Two rows that agree in every column. -/
structure SameRow (a b : AuditEntry) : Prop where
  id : a.id = b.id
  actor : a.actor.text = b.actor.text
  action : a.action.text = b.action.text
  input : SameObject a.input b.input
  output : SameOutput a.output b.output
  decision : a.decision = b.decision
  reason : a.reason = b.reason
  incidentId : a.incidentId.text = b.incidentId.text
  actionClass : a.actionClass = b.actionClass
  createdAt : a.createdAt = b.createdAt
  policyVersion : a.policyVersion = b.policyVersion
  denyAll : a.denyAll = b.denyAll
  prevHash : a.prevHash.text = b.prevHash.text

section Body

variable {a b entry : AuditEntry}

theorem hashedFields_eq (entry : AuditEntry) :
    entry.hashedFields =
      ([("id", .str entry.id.str), ("actor", .str entry.actor.text),
        ("action", .str entry.action.text), ("input", .obj entry.input),
        ("output", entry.output.elim .none .obj), ("decision", .str entry.decision.value),
        ("reason", .str entry.reason), ("incident_id", .str entry.incidentId.text),
        ("action_class", entry.actionClass.elim .none fun c => .str c.value),
        ("created_at", .str (isoformat entry.createdAt))] : Fields) ++
      (if entry.policyVersion = "" then [] else [("policy_version", .str entry.policyVersion)]) ++
      (if entry.denyAll then [("deny_all", .bool true)] else []) ++
      [("prev_hash", .str entry.prevHash.text)] := by
  unfold AuditEntry.hashedFields auditPayload
  rw [entry.actor.stripped, entry.action.stripped, entry.reason_stripped,
    entry.incidentId.stripped, entry.policyVersion_stripped]
  split <;> split <;> simp [Dict.set]

theorem hashedFields_nodup (entry : AuditEntry) : (entry.hashedFields.map Prod.fst).Nodup := by
  rw [hashedFields_eq]
  split <;> split <;> simp

/-- What the row hash covers, key by key. -/
structure HashedAs (fields : Fields) (entry : AuditEntry) : Prop where
  id : fields.lookup "id" = some (.str entry.id.str)
  actor : fields.lookup "actor" = some (.str entry.actor.text)
  action : fields.lookup "action" = some (.str entry.action.text)
  input : fields.lookup "input" = some (.obj entry.input)
  output : fields.lookup "output" = some (entry.output.elim .none .obj)
  decision : fields.lookup "decision" = some (.str entry.decision.value)
  reason : fields.lookup "reason" = some (.str entry.reason)
  incidentId : fields.lookup "incident_id" = some (.str entry.incidentId.text)
  actionClass : fields.lookup "action_class" =
    some (entry.actionClass.elim .none fun c => .str c.value)
  createdAt : fields.lookup "created_at" = some (.str (isoformat entry.createdAt))
  policyVersion : fields.lookup "policy_version" =
    if entry.policyVersion = "" then none else some (.str entry.policyVersion)
  denyAll : fields.lookup "deny_all" = if entry.denyAll then some (.bool true) else none
  prevHash : fields.lookup "prev_hash" = some (.str entry.prevHash.text)

theorem hashedFields_as (entry : AuditEntry) : HashedAs entry.hashedFields entry := by
  rw [hashedFields_eq]
  constructor <;> split <;> split <;> simp [List.lookup_cons, *]

theorem decision_value_inj {a b : GatewayVerdict} (h : a.value = b.value) : a = b := by
  cases a <;> cases b <;> first | rfl | exact absurd h (by decide)

theorem actionClass_value_inj {a b : ActionClass} (h : a.value = b.value) : a = b := by
  cases a <;> cases b <;> first | rfl | exact absurd h (by decide)

theorem str_of_sortKeys {s t : String} (h : sortKeys (.str s) = sortKeys (.str t)) : s = t := by
  unfold sortKeys at h
  exact Value.str.inj h

/-- The canonical JSON of a row says everything about it. -/
theorem sameRow_of_body (ha : IsDatetime a.createdAt) (hb : IsDatetime b.createdAt)
    (h : a.body = b.body) : SameRow a b := by
  have fieldsA := hashedFields_as a
  have fieldsB := hashedFields_as b
  have read : ∀ {key x y}, a.hashedFields.lookup key = some x →
      b.hashedFields.lookup key = some y → sortKeys x = sortKeys y := by
    intro key x y hx hy
    have := lookup_of_sameObject (hashedFields_nodup a) (hashedFields_nodup b) h key
    rw [hx, hy] at this
    exact Option.some.inj this
  have present : ∀ key, (a.hashedFields.lookup key).map sortKeys =
      (b.hashedFields.lookup key).map sortKeys :=
    lookup_of_sameObject (hashedFields_nodup a) (hashedFields_nodup b) h
  constructor
  · exact Uuid.str_inj (str_of_sortKeys (read fieldsA.id fieldsB.id))
  · exact str_of_sortKeys (read fieldsA.actor fieldsB.actor)
  · exact str_of_sortKeys (read fieldsA.action fieldsB.action)
  · exact read fieldsA.input fieldsB.input
  · have houtput := read fieldsA.output fieldsB.output
    cases hx : a.output with
    | none =>
      cases hy : b.output with
      | none => trivial
      | some y => simp [hx, hy, sortKeys] at houtput
    | some x =>
      cases hy : b.output with
      | none => simp [hx, hy, sortKeys] at houtput
      | some y =>
        rw [hx, hy] at houtput
        exact houtput
  · exact decision_value_inj (str_of_sortKeys (read fieldsA.decision fieldsB.decision))
  · exact str_of_sortKeys (read fieldsA.reason fieldsB.reason)
  · exact str_of_sortKeys (read fieldsA.incidentId fieldsB.incidentId)
  · have hclass := read fieldsA.actionClass fieldsB.actionClass
    cases hx : a.actionClass with
    | none =>
      cases hy : b.actionClass with
      | none => rfl
      | some y => simp [hx, hy, sortKeys] at hclass
    | some x =>
      cases hy : b.actionClass with
      | none => simp [hx, hy, sortKeys] at hclass
      | some y =>
        rw [hx, hy] at hclass
        rw [actionClass_value_inj (str_of_sortKeys hclass)]
  · exact isoformat_inj ha hb (str_of_sortKeys (read fieldsA.createdAt fieldsB.createdAt))
  · have hversion := present "policy_version"
    rw [fieldsA.policyVersion, fieldsB.policyVersion] at hversion
    by_cases hx : a.policyVersion = ""
    · by_cases hy : b.policyVersion = ""
      · rw [hx, hy]
      · simp [hx, hy] at hversion
    · by_cases hy : b.policyVersion = ""
      · simp [hx, hy] at hversion
      · rw [if_neg hx, if_neg hy] at hversion
        exact str_of_sortKeys (Option.some.inj hversion)
  · have hdeny := present "deny_all"
    rw [fieldsA.denyAll, fieldsB.denyAll] at hdeny
    cases hx : a.denyAll <;> cases hy : b.denyAll <;> simp_all
  · exact str_of_sortKeys (read fieldsA.prevHash fieldsB.prevHash)

end Body

/-- Rows that hang together: each holds the hash of the row before it, the first the genesis
hash, and each row hash recomputes. -/
structure Linked (digest : Value → Digest) (rows : AuditLog) : Prop where
  chain : OneChain rows
  hashes : ∀ row ∈ rows, row.rowHash.text = (row.recompute digest).text

/-- The digest tells the given bodies apart and gives none of them the genesis hash. -/
structure TellsApart (digest : Value → Digest) (bodies : List Value) : Prop where
  collisionFree : ∀ x ∈ bodies, ∀ y ∈ bodies, digest x = digest y → x = y
  notGenesis : ∀ x ∈ bodies, digest x ≠ Digest.genesis

/-- The logs that `record_decision` calls leave since a drain. An invocation reads the latest
hash when the log is `seen` and appends its entry later. -/
inductive Recorded (digest : Value → Digest) (redact : String → RedactionResult) : AuditLog → Prop
  | start : Recorded digest redact []
  | record {log seen request decision entryId now entry} : Recorded digest redact log →
      seen <+: log → IsDatetime now →
      buildEntry digest redact request decision (latestHash seen) entryId now = .ok entry →
      Recorded digest redact (log ++ [entry])

section Chains

variable {digest : Value → Digest} {redact : String → RedactionResult} {log rows : AuditLog}

theorem oneChain_init {entry : AuditEntry} (h : OneChain (log ++ [entry])) :
    OneChain log ∧ entry.prevHash.text = latestHash log := by
  refine ⟨fun before row after hsplit => ?_, h log entry [] rfl⟩
  exact h before row (after ++ [entry]) (by rw [hsplit]; simp)

theorem oneChain_concat {entry : AuditEntry} (h : OneChain log)
    (hentry : entry.prevHash.text = latestHash log) : OneChain (log ++ [entry]) := by
  intro before row after hsplit
  rcases append_split hsplit with ⟨rest, hlog, _⟩ | ⟨first, hbefore, hlast⟩
  · exact h before row rest hlog
  · cases first with
    | nil =>
      obtain ⟨rfl, _⟩ := List.cons.inj hlast
      rw [hbefore, List.append_nil]
      exact hentry
    | cons other first => simp at hlast

theorem buildEntry_recompute {request : ToolInvokeRequest} {decision : GatewayDecision}
    {entryId : Uuid} {now : Instant} {seen : AuditLog} {entry : AuditEntry}
    (h : buildEntry digest redact request decision (latestHash seen) entryId now = .ok entry) :
    entry.rowHash.text = (entry.recompute digest).text ∧ entry.createdAt = now := by
  unfold buildEntry AuditEntry.create at h
  dsimp only at h
  rw [chainPrev_latestHash] at h
  obtain ⟨hid, hactor, haction, hinput, houtput, hdecision, hreason, hincident, hclass, hcreated,
    hprev, hrow, hversion, hdeny⟩ := AuditEntry.new_ok h
  refine ⟨?_, hcreated⟩
  rw [hrow, Digest.strip_text]
  unfold AuditEntry.recompute
  rw [hid, hactor, haction, hinput, houtput, hdecision, hreason, hincident, hclass, hcreated,
    hprev, hversion, hdeny, latestHash_stripped]
  unfold auditPayload
  simp only [strip_strip]

/-- The rows that `record_decision` appends recompute, and carry real moments. -/
theorem recorded_rows (h : Recorded digest redact log) :
    ∀ row ∈ log, row.rowHash.text = (row.recompute digest).text ∧ IsDatetime row.createdAt := by
  induction h with
  | start => simp
  | @record log seen request decision entryId now entry _ _ hnow hbuild ih =>
    intro row hrow
    rcases List.mem_append.mp hrow with hrow | hrow
    · exact ih row hrow
    · rw [List.mem_singleton.mp hrow]
      obtain ⟨hhash, hcreated⟩ := buildEntry_recompute hbuild
      exact ⟨hhash, by rw [hcreated]; exact hnow⟩

theorem recordDecision_oneChain {request : ToolInvokeRequest} {decision : GatewayDecision}
    {entryId : Uuid} {now : Instant} {entry : AuditEntry} {log' : AuditLog} (chain : OneChain log)
    (h : recordDecision digest redact request decision entryId now log = .ok (entry, log')) :
    OneChain log' := by
  obtain ⟨rfl, hprev, _⟩ := recordDecision_ok h
  exact oneChain_concat chain hprev

theorem TellsApart.mono {bodies fewer : List Value} (h : TellsApart digest bodies)
    (sub : fewer ⊆ bodies) : TellsApart digest fewer where
  collisionFree := fun x hx y hy => h.collisionFree x (sub hx) y (sub hy)
  notGenesis := fun x hx => h.notGenesis x (sub hx)

theorem linked_init {row : AuditEntry} (h : Linked digest (rows ++ [row])) :
    Linked digest rows ∧ row.prevHash.text = latestHash rows ∧
      row.rowHash.text = (digest row.body).text := by
  obtain ⟨hchain, hprev⟩ := oneChain_init h.chain
  exact ⟨⟨hchain, fun other hother => h.hashes other (List.mem_append_left _ hother)⟩, hprev,
    h.hashes row (by simp)⟩

theorem eq_nil_of_latestHash (linked : Linked digest rows)
    (apart : TellsApart digest (rows.map AuditEntry.body))
    (h : latestHash rows = Digest.genesis.text) : rows = [] := by
  rcases List.eq_nil_or_concat rows with hnil | ⟨before, row, hrows⟩
  · exact hnil
  · rw [List.concat_eq_append] at hrows
    subst hrows
    obtain ⟨_, _, hhash⟩ := linked_init linked
    rw [latestHash_append, hhash] at h
    exact absurd (Digest.ext h) (apart.notGenesis row.body (by simp))

/-- Rows that hang together and end in one hash agree row by row: the hash gives the last body,
the body gives the last row and with it the hash before it. -/
theorem sameRows_of_latestHash (apart : TellsApart digest ((log ++ rows).map AuditEntry.body))
    (logLinked : Linked digest log) (rowsLinked : Linked digest rows)
    (logDates : ∀ row ∈ log, IsDatetime row.createdAt)
    (rowsDates : ∀ row ∈ rows, IsDatetime row.createdAt)
    (same : latestHash log = latestHash rows) : List.Forall₂ SameRow log rows := by
  induction log using List.reverseRecOn generalizing rows with
  | nil =>
    rw [eq_nil_of_latestHash rowsLinked apart same.symm]
    exact .nil
  | append_singleton log last ih =>
    rcases List.eq_nil_or_concat rows with hnil | ⟨before, row, hrows⟩
    · rw [hnil, List.append_nil] at apart
      rw [hnil] at same
      simpa using eq_nil_of_latestHash logLinked apart same
    · rw [List.concat_eq_append] at hrows
      subst hrows
      obtain ⟨logLinked, hprev, hhash⟩ := linked_init logLinked
      obtain ⟨rowsLinked, hprev', hhash'⟩ := linked_init rowsLinked
      rw [latestHash_append, latestHash_append, hhash, hhash'] at same
      have hbody := apart.collisionFree last.body (by simp) row.body (by simp) (Digest.ext same)
      have hlast := sameRow_of_body (logDates last (by simp)) (rowsDates row (by simp)) hbody
      refine List.rel_append (ih (apart.mono ?_) logLinked rowsLinked
        (fun other h => logDates other (List.mem_append_left _ h))
        (fun other h => rowsDates other (List.mem_append_left _ h)) ?_)
        (.cons hlast .nil)
      · refine List.map_subset _ fun other h => ?_
        rcases List.mem_append.mp h with h | h
        · simp [h]
        · simp [h]
      · rw [← hprev, ← hprev', hlast.prevHash]

end Chains

/-- The last hash of a recorded chain is tamper evident: a recorded chain that ends in the same
hash is the same log, and rows that are not the log end in another hash or do not recompute. -/
theorem recorded_log_tamper_evident {digest : Value → Digest}
    {redact : String → RedactionResult} {log rows : AuditLog} (recorded : Recorded digest redact log)
    (chain : OneChain log) (apart : TellsApart digest ((log ++ rows).map AuditEntry.body)) :
    (Recorded digest redact rows → OneChain rows → latestHash log = latestHash rows →
      log.length = rows.length ∧ List.Forall₂ SameRow log rows) ∧
    ((∀ row ∈ rows, IsDatetime row.createdAt) → ¬List.Forall₂ SameRow log rows →
      latestHash log ≠ latestHash rows ∨ ¬Linked digest rows) := by
  have logRows := recorded_rows recorded
  have logLinked : Linked digest log := ⟨chain, fun row hrow => (logRows row hrow).1⟩
  constructor
  · intro recorded' chain' same
    have rows' := recorded_rows recorded'
    have agree := sameRows_of_latestHash apart logLinked ⟨chain', fun row hrow => (rows' row hrow).1⟩
      (fun row hrow => (logRows row hrow).2) (fun row hrow => (rows' row hrow).2) same
    exact ⟨agree.length_eq, agree⟩
  · intro dates differ
    by_contra hcon
    obtain ⟨hsame, hlinked⟩ := not_or.mp hcon
    rw [not_not] at hsame hlinked
    exact differ (sameRows_of_latestHash apart logLinked hlinked
      (fun row hrow => (logRows row hrow).2) dates hsame)

theorem idDigest_obj {fields : Fields} {id : String} (h : Fields.get fields "id" = .str id) :
    idDigest (.obj fields) = .ofNat (idNumber id.toList) := by
  unfold idDigest
  dsimp only
  rw [h]

theorem idDigest_body (entry : AuditEntry) :
    idDigest entry.body = .ofNat (idNumber entry.id.str.toList) := by
  have sorted : ((sortKeysFields entry.hashedFields).insertionSort fun x y => x.1 ≤ y.1).lookup
      "id" = some (.str entry.id.str) := by
    rw [lookup_perm (List.perm_insertionSort _ _) ?_ "id", sortKeysFields_lookup,
      (hashedFields_as entry).id]
    · rfl
    · rw [((List.perm_insertionSort _ _).map Prod.fst).nodup_iff, sortKeysFields_keys]
      exact hashedFields_nodup entry
  unfold AuditEntry.body sortKeys
  exact idDigest_obj (by rw [Fields.get, sorted]; rfl)

/-- Rows that differ by their id have different stand-in digests. -/
theorem tellsApart_ids {rows : AuditLog} (known : ∀ row ∈ rows, row.id ∈ [1, 2, 3, 4, 9])
    (own : ∀ a ∈ rows, ∀ b ∈ rows, a.id = b.id → a = b) :
    TellsApart idDigest (rows.map AuditEntry.body) := by
  have ids : (([1, 2, 3, 4, 9] : List Uuid).map fun id => idNumber id.str.toList).Nodup := by
    simp only [Uuid.str, String.toList_ofList]
    decide +kernel
  refine ⟨?_, fun x _ h => idDigest_ne_genesis x (congrArg Digest.text h)⟩
  refine List.forall_mem_map.mpr fun a ha => List.forall_mem_map.mpr fun b hb same => ?_
  rw [idDigest_body, idDigest_body] at same
  have hchars := String.ofList_injective (congrArg Digest.text same)
  have hnumber := hexChars_inj (idNumber_lt _) (idNumber_lt _) hchars
  rw [own a ha b hb (List.inj_on_of_nodup_map ids (known a ha) (known b hb) hnumber)]

/-- Two denied calls, one after the other, under two ids. -/
theorem two_calls_recorded (i j : Uuid) : ∃ first second,
    Recorded idDigest (fun text => ⟨text, 0⟩) [first, second] ∧ OneChain [first, second] ∧
      first.id = i ∧ second.id = j := by
  obtain ⟨first, hfirst⟩ := codeDenied_built idDigest (fun text => ⟨text, 0⟩) i []
  obtain ⟨second, hsecond⟩ := codeDenied_built idDigest (fun text => ⟨text, 0⟩) j [first]
  have dated : IsDatetime 0 := by
    unfold IsDatetime
    decide
  have made : recordDecision idDigest (fun text => ⟨text, 0⟩) codeRequest codeDenied i 0 [] =
      .ok (first, [first]) := by
    rw [recordDecision, hfirst]
    rfl
  have made' : recordDecision idDigest (fun text => ⟨text, 0⟩) codeRequest codeDenied j 0 [first] =
      .ok (second, [first, second]) := by
    rw [recordDecision, hsecond]
    rfl
  have empty : OneChain [] := by
    intro before other after hsplit
    simp at hsplit
  refine ⟨first, second, ?_, recordDecision_oneChain (recordDecision_oneChain empty made) made',
    ?_, ?_⟩
  · exact .record (.record .start List.prefix_rfl dated hfirst) List.prefix_rfl dated hsecond
  · exact (buildEntry_ok (latestHash_stripped []) (ne_empty_of_length (latestHash_length []))
      hfirst).2.1
  · exact (buildEntry_ok (latestHash_stripped [first])
      (ne_empty_of_length (latestHash_length [first])) hsecond).2.1

/-- Two logs of two denied calls end in different hashes; and the first log with another id in its
first row ends in the same hash, but does not recompute. -/
theorem two_rows_tamper_evident : ∃ first second other : AuditEntry, ∃ rows : AuditLog,
    Recorded idDigest (fun text => ⟨text, 0⟩) [first, second] ∧ OneChain [first, second] ∧
      Recorded idDigest (fun text => ⟨text, 0⟩) rows ∧ OneChain rows ∧ rows.length = 2 ∧
      latestHash [first, second] ≠ latestHash rows ∧
      latestHash [first, second] = latestHash [other, second] ∧
      ¬Linked idDigest [other, second] := by
  obtain ⟨first, second, recorded, chain, hone, htwo⟩ := two_calls_recorded 1 2
  obtain ⟨third, fourth, recorded', chain', hthree, hfour⟩ := two_calls_recorded 3 4
  have apart : TellsApart idDigest (([first, second] ++ [third, fourth]).map AuditEntry.body) :=
    tellsApart_ids (by simp [hone, htwo, hthree, hfour]) (by simp [hone, htwo, hthree, hfour])
  have apart' : TellsApart idDigest
      (([first, second] ++ [{ first with id := 9 }, second]).map AuditEntry.body) :=
    tellsApart_ids (by simp [hone, htwo]) (by simp [hone, htwo])
  have dates : ∀ row ∈ [{ first with id := 9 }, second], IsDatetime row.createdAt := by
    have rows := recorded_rows recorded
    simp at rows ⊢
    exact ⟨rows.1.2, rows.2.2⟩
  refine ⟨first, second, { first with id := 9 }, [third, fourth], recorded, chain, recorded',
    chain', rfl, fun same => ?_, rfl, fun linked => ?_⟩
  · obtain ⟨-, agree⟩ := (recorded_log_tamper_evident recorded chain apart).1 recorded' chain' same
    rw [List.forall₂_cons] at agree
    exact absurd ((hone.symm.trans agree.1.id).trans hthree) (by decide)
  · refine ((recorded_log_tamper_evident recorded chain apart').2 dates fun agree => ?_).elim
      (fun differ => differ rfl) fun broken => broken linked
    rw [List.forall₂_cons] at agree
    exact absurd (hone.symm.trans agree.1.id : (1 : Uuid) = 9) (by decide)

end Aegis
