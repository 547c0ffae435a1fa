import Aegis.GatewayDomain
import Aegis.Scalars

namespace Aegis

/-- An `AUDIT_LOG` row the constructor of `AuditEntry` accepted. -/
structure AuditEntry where
  id : Uuid
  actor : Token 128
  action : Token 128
  input : Fields
  output : Option Fields
  decision : GatewayVerdict
  reason : String
  incidentId : Token 64
  actionClass : Option ActionClass
  createdAt : Instant
  prevHash : Token 64
  rowHash : Token 64
  policyVersion : String
  denyAll : Bool
  reason_stripped : strip reason = reason
  reason_length : reason.length ≤ 255
  rowHash_length : rowHash.text.length = 64
  policyVersion_stripped : strip policyVersion = policyVersion
  policyVersion_length : policyVersion.length ≤ 64

/-- `AuditEntry.__init__` -/
def AuditEntry.new (id : Uuid) (actor action : String) (input : Fields) (output : Option Fields)
    (decision : GatewayVerdict) (reason incidentId : String) (actionClass : Option ActionClass)
    (createdAt : Instant) (prevHash rowHash policyVersion : String) (denyAll : Bool) :
    Except String AuditEntry :=
  if hversion : 64 < (strip policyVersion).length then
    .error "policy_version must be at most 64 characters."
  else
    (requireToken 128 actor "actor").bind fun actor =>
    (requireToken 128 action "action").bind fun action =>
    if hreason : 255 < (strip reason).length then .error "reason must be at most 255 characters."
    else
      (requireToken 64 incidentId "incident_id").bind fun incidentId =>
      (requireToken 64 prevHash "prev_hash").bind fun prevHash =>
      (requireToken 64 rowHash "row_hash").bind fun rowHash =>
      if hrow : rowHash.text.length ≠ 64 then .error "row_hash must be a SHA-256 hex digest."
      else .ok {
        id, actor, action, input, output, decision, incidentId, actionClass, createdAt, prevHash
        rowHash, denyAll
        reason := strip reason
        policyVersion := strip policyVersion
        reason_stripped := strip_strip reason
        reason_length := by omega
        rowHash_length := by simpa using hrow
        policyVersion_stripped := strip_strip policyVersion
        policyVersion_length := by omega }

/-- `compute_row_hash`; `digest` is SHA-256 of the JSON text of a value. -/
def computeRowHash (digest : Value → Digest) (payload : Fields) (prevHash : String) : Digest :=
  digest (sortKeys (.obj (Dict.set payload "prev_hash" (.str prevHash))))

/-- The fields of an entry that its row hash covers. -/
def auditPayload (id : Uuid) (actor action : String) (input : Fields) (output : Option Fields)
    (decision : GatewayVerdict) (reason incidentId : String) (actionClass : Option ActionClass)
    (createdAt : Instant) (policyVersion : String) (denyAll : Bool) : Fields :=
  ([("id", .str id.str), ("actor", .str (strip actor)), ("action", .str (strip action)),
    ("input", .obj input), ("output", output.elim .none .obj), ("decision", .str decision.value),
    ("reason", .str (strip reason)), ("incident_id", .str (strip incidentId)),
    ("action_class", actionClass.elim .none fun c => .str c.value),
    ("created_at", .str (isoformat createdAt))] : Fields) ++
  (if strip policyVersion = "" then [] else [("policy_version", .str (strip policyVersion))]) ++
  (if denyAll then [("deny_all", .bool true)] else [])

/-- `AuditEntry.create` -/
def AuditEntry.create (digest : Value → Digest) (id : Uuid) (actor action : String)
    (input : Fields) (output : Option Fields) (decision : GatewayVerdict)
    (reason incidentId : String) (actionClass : Option ActionClass) (prevHash : String)
    (createdAt : Instant) (policyVersion : String) (denyAll : Bool) : Except String AuditEntry :=
  let chainPrev := orElse (strip prevHash) Digest.genesis.text
  let payload := auditPayload id actor action input output decision reason incidentId actionClass
    createdAt policyVersion denyAll
  AuditEntry.new id actor action input output decision reason incidentId actionClass createdAt
    chainPrev (computeRowHash digest payload chainPrev).text policyVersion denyAll

def wrapOutput : Value → Fields
  | .obj fields => fields
  | .none => []
  | value => [("value", value)]

/-- `_redact_json` -/
def redactJson (redact : String → RedactionResult) (fields : Fields) : Fields :=
  match (redactMapping redact (stripNul (.obj fields))).1 with
  | .obj redacted => redacted
  | redacted => [("value", redacted)]

/-- The parameters without the identity claims. -/
def toolParameters (request : ToolInvokeRequest) : Fields :=
  Dict.pop (Dict.pop request.parameters "agent_id") "action_class"

/-- `AppendAudit._build`: the entry of a decision, chained on `prevHash`. -/
def buildEntry (digest : Value → Digest) (redact : String → RedactionResult)
    (request : ToolInvokeRequest) (decision : GatewayDecision) (prevHash : String)
    (entryId : Uuid) (now : Instant) : Except String AuditEntry :=
  let output :=
    if decision.allowed then wrapOutput decision.result
    else [("error", .str (orElse (decision.error.getD "") decision.reason))]
  AuditEntry.create digest entryId (orElse decision.agentId request.agentId)
    (orElse decision.toolName request.toolName) (redactJson redact (toolParameters request))
    (some (redactJson redact output)) decision.verdict decision.reason
    (orElse decision.incidentId request.incidentId) decision.actionClass prevHash now
    decision.policyVersion decision.denyAll

/-- The entries of a `MemoryAuditRepository`, in append order. -/
abbrev AuditLog := List AuditEntry

/-- `latest_hash_sync` -/
def latestHash (log : AuditLog) : String :=
  match log.getLast? with
  | none => Digest.genesis.text
  | some entry => entry.rowHash.text

/-- `AppendAudit.record_decision`: the entry is appended last. -/
def recordDecision (digest : Value → Digest) (redact : String → RedactionResult)
    (request : ToolInvokeRequest) (decision : GatewayDecision) (entryId : Uuid) (now : Instant)
    (log : AuditLog) : Except String (AuditEntry × AuditLog) :=
  (buildEntry digest redact request decision (latestHash log) entryId now).map
    fun entry => (entry, log ++ [entry])

theorem latestHash_stripped (log : AuditLog) : strip (latestHash log) = latestHash log := by
  unfold latestHash
  split
  · exact Digest.genesis.strip_text
  next entry _ => exact entry.rowHash.stripped

theorem latestHash_length (log : AuditLog) : (latestHash log).length = 64 := by
  unfold latestHash
  split
  · exact Digest.genesis.length_eq
  next entry _ => exact entry.rowHash_length

theorem latestHash_append (log : AuditLog) (entry : AuditEntry) :
    latestHash (log ++ [entry]) = entry.rowHash.text := by
  simp [latestHash]

theorem ne_empty_of_length {s : String} {n : Nat} (h : s.length = n + 1) : s ≠ "" := by
  rintro rfl
  simp at h

/-- What the constructor stores when it accepts its arguments. -/
theorem AuditEntry.new_ok {id : Uuid} {actor action : String} {input : Fields}
    {output : Option Fields} {decision : GatewayVerdict} {reason incidentId : String}
    {actionClass : Option ActionClass} {createdAt : Instant}
    {prevHash rowHash policyVersion : String} {denyAll : Bool} {entry : AuditEntry}
    (h : AuditEntry.new id actor action input output decision reason incidentId actionClass
      createdAt prevHash rowHash policyVersion denyAll = .ok entry) :
    entry.id = id ∧ entry.actor.text = strip actor ∧ entry.action.text = strip action ∧
      entry.input = input ∧ entry.output = output ∧ entry.decision = decision ∧
      entry.reason = strip reason ∧ entry.incidentId.text = strip incidentId ∧
      entry.actionClass = actionClass ∧ entry.createdAt = createdAt ∧
      entry.prevHash.text = strip prevHash ∧ entry.rowHash.text = strip rowHash ∧
      entry.policyVersion = strip policyVersion ∧ entry.denyAll = denyAll := by
  unfold AuditEntry.new at h
  split at h
  · cases h
  obtain ⟨actorToken, hactor, h⟩ := bind_ok h
  obtain ⟨actionToken, haction, h⟩ := bind_ok h
  split at h
  · cases h
  obtain ⟨incidentToken, hincident, h⟩ := bind_ok h
  obtain ⟨prevToken, hprev, h⟩ := bind_ok h
  obtain ⟨rowToken, hrow, h⟩ := bind_ok h
  split at h
  · cases h
  cases h
  exact ⟨rfl, requireToken_text hactor, requireToken_text haction, rfl, rfl, rfl, rfl,
    requireToken_text hincident, rfl, rfl, requireToken_text hprev, requireToken_text hrow, rfl, rfl⟩

theorem AuditEntry.new_ok_iff {id : Uuid} {actor action : String} {input : Fields}
    {output : Option Fields} {decision : GatewayVerdict} {reason incidentId : String}
    {actionClass : Option ActionClass} {createdAt : Instant}
    {prevHash rowHash policyVersion : String} {denyAll : Bool} :
    (∃ entry, AuditEntry.new id actor action input output decision reason incidentId actionClass
        createdAt prevHash rowHash policyVersion denyAll = .ok entry) ↔
      (strip policyVersion).length ≤ 64 ∧
      (strip actor ≠ "" ∧ (strip actor).length ≤ 128) ∧
      (strip action ≠ "" ∧ (strip action).length ≤ 128) ∧
      (strip reason).length ≤ 255 ∧
      (strip incidentId ≠ "" ∧ (strip incidentId).length ≤ 64) ∧
      (strip prevHash ≠ "" ∧ (strip prevHash).length ≤ 64) ∧
      (strip rowHash).length = 64 := by
  constructor
  · rintro ⟨entry, h⟩
    obtain ⟨_, hactor, haction, _, _, _, hreason, hincident, _, _, hprev, hrow, hversion, _⟩ :=
      AuditEntry.new_ok h
    rw [← hactor, ← haction, ← hreason, ← hincident, ← hprev, ← hrow, ← hversion]
    exact ⟨entry.policyVersion_length, ⟨entry.actor.ne, entry.actor.length_le⟩,
      ⟨entry.action.ne, entry.action.length_le⟩, entry.reason_length,
      ⟨entry.incidentId.ne, entry.incidentId.length_le⟩,
      ⟨entry.prevHash.ne, entry.prevHash.length_le⟩, entry.rowHash_length⟩
  · rintro ⟨hversion, hactor, haction, hreason, hincident, hprev, hrow⟩
    have hrowToken : requireToken 64 rowHash "row_hash" = .ok ⟨strip rowHash, _, _, _⟩ :=
      requireToken_eq (ne_empty_of_length hrow) (le_of_eq hrow)
    simp [AuditEntry.new, Nat.not_lt.mpr hversion, Nat.not_lt.mpr hreason, Except.bind,
      requireToken_eq hactor.1 hactor.2, requireToken_eq haction.1 haction.2,
      requireToken_eq hincident.1 hincident.2, requireToken_eq hprev.1 hprev.2, hrowToken, hrow]

theorem AuditEntry.new_id {id : Uuid} {actor action : String} {input : Fields}
    {output : Option Fields} {decision : GatewayVerdict} {reason incidentId : String}
    {actionClass : Option ActionClass} {createdAt : Instant}
    {prevHash rowHash prevHash' rowHash' policyVersion : String} {denyAll : Bool}
    (hprev : strip prevHash ≠ "" ∧ (strip prevHash).length ≤ 64)
    (hprev' : strip prevHash' ≠ "" ∧ (strip prevHash').length ≤ 64)
    (hrow : (strip rowHash).length = 64) (hrow' : (strip rowHash').length = 64) :
    (AuditEntry.new id actor action input output decision reason incidentId actionClass createdAt
        prevHash rowHash policyVersion denyAll).map AuditEntry.id =
      (AuditEntry.new id actor action input output decision reason incidentId actionClass createdAt
        prevHash' rowHash' policyVersion denyAll).map AuditEntry.id := by
  have accepted : ∀ rowHash, (strip rowHash).length = 64 → ∃ token,
      requireToken 64 rowHash "row_hash" = .ok token ∧ ¬token.text.length ≠ 64 := fun rowHash h =>
    ⟨_, requireToken_eq (ne_empty_of_length h) (le_of_eq h), not_not.mpr h⟩
  obtain ⟨row, hrowToken, hlength⟩ := accepted rowHash hrow
  obtain ⟨row', hrowToken', hlength'⟩ := accepted rowHash' hrow'
  unfold AuditEntry.new
  rw [requireToken_eq hprev.1 hprev.2, requireToken_eq hprev'.1 hprev'.2, hrowToken, hrowToken']
  by_cases hversion : 64 < (strip policyVersion).length
  · rw [dif_pos hversion, dif_pos hversion]
  rw [dif_neg hversion, dif_neg hversion]
  rcases requireToken 128 actor "actor" with text | actor
  · simp only [Except.bind, Except.map]
  rcases requireToken 128 action "action" with text | action
  · simp only [Except.bind, Except.map]
  simp only [Except.bind]
  by_cases hreason : 255 < (strip reason).length
  · rw [dif_pos hreason, dif_pos hreason]
  rw [dif_neg hreason, dif_neg hreason]
  rcases requireToken 64 incidentId "incident_id" with text | incident
  · simp only [Except.map]
  dsimp only
  rw [dif_neg hlength, dif_neg hlength']
  simp only [Except.map]

theorem chainPrev_latestHash (log : AuditLog) :
    orElse (strip (latestHash log)) Digest.genesis.text = latestHash log := by
  rw [latestHash_stripped, orElse, if_neg (ne_empty_of_length (latestHash_length log))]

variable {digest : Value → Digest} {redact : String → RedactionResult}
  {request : ToolInvokeRequest} {decision : GatewayDecision} {entryId : Uuid} {now : Instant}
  {log log' : AuditLog} {entry : AuditEntry}

theorem buildEntry_ok {prevHash : String} (stripped : strip prevHash = prevHash)
    (ne : prevHash ≠ "")
    (h : buildEntry digest redact request decision prevHash entryId now = .ok entry) :
    entry.prevHash.text = prevHash ∧ entry.id = entryId ∧
      entry.actor.text = strip (orElse decision.agentId request.agentId) ∧
      entry.action.text = strip (orElse decision.toolName request.toolName) ∧
      entry.decision = decision.verdict ∧ entry.reason = strip decision.reason ∧
      entry.incidentId.text = strip (orElse decision.incidentId request.incidentId) ∧
      entry.actionClass = decision.actionClass ∧
      entry.policyVersion = strip decision.policyVersion ∧ entry.denyAll = decision.denyAll := by
  have chain : orElse (strip prevHash) Digest.genesis.text = prevHash := by
    rw [stripped, orElse_of_ne ne]
  unfold buildEntry AuditEntry.create at h
  dsimp only at h
  rw [chain] at h
  obtain ⟨hid, hactor, haction, _, _, hverdict, hreason, hincident, hclass, _, hprev, _, hversion,
    hdeny⟩ := AuditEntry.new_ok h
  rw [stripped] at hprev
  exact ⟨hprev, hid, hactor, haction, hverdict, hreason, hincident, hclass, hversion, hdeny⟩

/-- What a recorded decision leaves: one more entry, chained on the last one and with the data
of the decision. -/
theorem recordDecision_ok
    (h : recordDecision digest redact request decision entryId now log = .ok (entry, log')) :
    log' = log ++ [entry] ∧ entry.prevHash.text = latestHash log ∧ entry.id = entryId ∧
      entry.actor.text = strip (orElse decision.agentId request.agentId) ∧
      entry.action.text = strip (orElse decision.toolName request.toolName) ∧
      entry.decision = decision.verdict ∧ entry.reason = strip decision.reason ∧
      entry.incidentId.text = strip (orElse decision.incidentId request.incidentId) ∧
      entry.actionClass = decision.actionClass ∧
      entry.policyVersion = strip decision.policyVersion ∧ entry.denyAll = decision.denyAll := by
  unfold recordDecision at h
  cases hbuild : buildEntry digest redact request decision (latestHash log) entryId now with
  | error text => simp [hbuild, Except.map] at h
  | ok built =>
    simp only [hbuild, Except.map, Except.ok.injEq, Prod.mk.injEq] at h
    obtain ⟨rfl, rfl⟩ := h
    obtain ⟨hprev, hrest⟩ := buildEntry_ok (latestHash_stripped log)
      (ne_empty_of_length (latestHash_length log)) hbuild
    exact ⟨rfl, hprev, hrest⟩

theorem buildEntry_rowHash
    (h : buildEntry digest redact request decision (latestHash log) entryId now = .ok entry) :
    ∃ body, entry.rowHash.text = (digest body).text := by
  unfold buildEntry AuditEntry.create at h
  dsimp only at h
  obtain ⟨_, _, _, _, _, _, _, _, _, _, _, hrow, _, _⟩ := AuditEntry.new_ok h
  rw [Digest.strip_text] at hrow
  exact ⟨_, hrow⟩

/-- An entry is built exactly when the texts of the decision are within its bounds. -/
theorem buildEntry_ok_iff :
    (∃ entry, buildEntry digest redact request decision (latestHash log) entryId now = .ok entry) ↔
      (strip decision.policyVersion).length ≤ 64 ∧
      (strip (orElse decision.agentId request.agentId) ≠ "" ∧
        (strip (orElse decision.agentId request.agentId)).length ≤ 128) ∧
      (strip (orElse decision.toolName request.toolName) ≠ "" ∧
        (strip (orElse decision.toolName request.toolName)).length ≤ 128) ∧
      (strip decision.reason).length ≤ 255 ∧
      (strip (orElse decision.incidentId request.incidentId) ≠ "" ∧
        (strip (orElse decision.incidentId request.incidentId)).length ≤ 64) := by
  unfold buildEntry AuditEntry.create
  dsimp only
  rw [chainPrev_latestHash, AuditEntry.new_ok_iff, latestHash_stripped, Digest.strip_text]
  have hlatest := latestHash_length log
  have hne := ne_empty_of_length hlatest
  simp [hlatest, hne, Digest.length_eq]

theorem buildEntry_id (log log' : AuditLog) :
    (buildEntry digest redact request decision (latestHash log) entryId now).map AuditEntry.id =
      (buildEntry digest redact request decision (latestHash log') entryId now).map
        AuditEntry.id := by
  unfold buildEntry AuditEntry.create
  dsimp only
  rw [chainPrev_latestHash, chainPrev_latestHash]
  have bounds : ∀ log, strip (latestHash log) ≠ "" ∧ (strip (latestHash log)).length ≤ 64 := by
    intro log
    rw [latestHash_stripped]
    exact ⟨ne_empty_of_length (latestHash_length log), le_of_eq (latestHash_length log)⟩
  refine AuditEntry.new_id (bounds log) (bounds log') ?_ ?_
  · rw [Digest.strip_text, Digest.length_eq]
  · rw [Digest.strip_text, Digest.length_eq]

/-- Recording a decision answers the same on every log. -/
theorem recordDecision_id (log log' : AuditLog) :
    (recordDecision digest redact request decision entryId now log).map (fun made => made.1.id) =
      (recordDecision digest redact request decision entryId now log').map
        (fun made => made.1.id) := by
  have h := @buildEntry_id digest redact request decision entryId now log log'
  unfold recordDecision
  revert h
  cases buildEntry digest redact request decision (latestHash log) entryId now <;>
    cases buildEntry digest redact request decision (latestHash log') entryId now <;>
    simp [Except.map]

theorem recordDecision_ok_iff :
    (∃ recorded, recordDecision digest redact request decision entryId now log = .ok recorded) ↔
      ∃ built, buildEntry digest redact request decision (latestHash log) entryId now =
        .ok built := by
  unfold recordDecision
  cases buildEntry digest redact request decision (latestHash log) entryId now with
  | error text => simp [Except.map]
  | ok built => simp [Except.map]

end Aegis
