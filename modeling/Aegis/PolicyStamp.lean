import Aegis.ClaimedIdentity
import Aegis.StepPath

namespace Aegis

open StepPath

variable {World : Type}

/-- One call of `invoke` on a gateway without rules of its own. -/
structure CachedCall (World : Type) where
  gateway : InvokeTool World
  denyAll : Bool
  request : ToolInvokeRequest
  process_cache : gateway.policyRules = none

/-- `_decide` gets as far as `evaluate_policy`. -/
def CachedCall.evaluates (call : CachedCall World) : Bool :=
  let caller := call.gateway.callerIdentity call.request
  let actionClass := classify call.request.toolName
  !call.denyAll && (parseAgentIdentity caller).isSome &&
    actionClass ∉ [some .destructive, some .highRiskWrite, some .lowRiskWrite] &&
    (actionClass.isNone || agentMayInvoke caller call.request.toolName)

/-- The rules that a snapshot of the process cache stands for. -/
def snapshotRules (snapshot : Option (List PolicyRule)) : List PolicyRule :=
  snapshot.getD seedReadRules

/-- The version that `_policy_version` answers from the process cache. -/
def snapshotVersion (digest : Value → Digest) (snapshot : Option PolicyVersion) : PolicyVersion :=
  snapshot.getD (policyVersionFor digest seedReadRules)

/-- The rules `evaluate_policy` runs on, if it runs. -/
def CachedCall.evaluated (call : CachedCall World) (snapshot : Option (List PolicyRule)) :
    Option (List PolicyRule) :=
  if call.evaluates then some (snapshotRules snapshot) else none

/-- How far one thread is: an invocation between its reads of the two globals, or a
`replace_policy_rules` between its two assignments. -/
inductive StampPhase (World : Type) where
  | idle
  | looked (call : CachedCall World) (snapshot : Option (List PolicyRule))
  | decided (call : CachedCall World) (snapshot : Option (List PolicyRule))
      (decision : GatewayDecision)
  | stamped (call : CachedCall World) (snapshot : Option (List PolicyRule))
      (decision : GatewayDecision)
  | assigning (rules : List PolicyRule)

/-- What a finished invocation returned and recorded, with the rules that decided. -/
structure Stamp where
  evaluated : Option (List PolicyRule)
  decision : GatewayDecision
  entry : AuditEntry

structure StampState (World : Type) where
  shared : GatewayState World
  phase : Nat → StampPhase World
  stamps : List Stamp

def StampState.enter (s : StampState World) (i : Nat) (phase : StampPhase World) :
    StampState World :=
  { s with phase := Function.update s.phase i phase }

/-- A process in which nothing is running. -/
def StampState.start (shared : GatewayState World) : StampState World :=
  ⟨shared, fun _ => .idle, []⟩

inductive StampAction (World : Type) where
  | look (call : CachedCall World)
  | decide
  | stamp
  | record (entryId : Uuid) (now : Instant)
  | raise (entryId : Uuid) (now : Instant)
  | assignVersion (rules : List PolicyRule)
  | assignRules

/-- One step of one thread. An invocation reads the rules, decides, reads the version and records;
`replace_policy_rules` assigns the version first and the rules after it. -/
inductive StampStep (services : Services) :
    StampState World → Nat × StampAction World → StampState World → Prop
  | look {s i call} : s.phase i = .idle →
      StampStep services s (i, .look call) (s.enter i (.looked call s.shared.cache.rules))
  | decide {s i call snapshot decided} : s.phase i = .looked call snapshot →
      call.gateway.decide services call.denyAll ⟨snapshot, none⟩ call.request
        (classify call.request.toolName) s.shared.world = decided →
      StampStep services s (i, .decide)
        { s.enter i (.decided call snapshot decided.decision) with
          shared := { s.shared with world := decided.world } }
  | stamp {s i call snapshot decision} : s.phase i = .decided call snapshot decision →
      StampStep services s (i, .stamp) (s.enter i (.stamped call snapshot
        (decision.withGovernance (call.gateway.policyVersion services s.shared.cache).text
          call.denyAll)))
  | record {s i call snapshot decision entryId now entry log} :
      s.phase i = .stamped call snapshot decision →
      recordDecision services.digest services.redact call.request decision entryId now
        s.shared.log = .ok (entry, log) →
      StampStep services s (i, .record entryId now)
        { s.enter i .idle with
          shared := { s.shared with log }
          stamps := s.stamps ++
            [⟨call.evaluated snapshot, decision.withAuditId entry.id.str, entry⟩] }
  | raise {s i call snapshot decision entryId now text} :
      s.phase i = .stamped call snapshot decision →
      recordDecision services.digest services.redact call.request decision entryId now
        s.shared.log = .error text →
      StampStep services s (i, .raise entryId now) (s.enter i .idle)
  | assignVersion {s i rules} : s.phase i = .idle →
      StampStep services s (i, .assignVersion rules)
        { s.enter i (.assigning rules) with
          shared := { s.shared with
            cache := { s.shared.cache with
              version := some (policyVersionFor services.digest rules) } } }
  | assignRules {s i rules} : s.phase i = .assigning rules →
      StampStep services s (i, .assignRules)
        { s.enter i .idle with
          shared := { s.shared with cache := { s.shared.cache with rules := some rules } } }

/-- Decision and audit row are stamped with the version of the rules that decided. -/
def Stamp.NamesRules (digest : Value → Digest) (stamp : Stamp) : Prop :=
  ∀ rules, stamp.evaluated = some rules →
    stamp.decision.policyVersion = (policyVersionFor digest rules).text ∧
      stamp.entry.policyVersion = (policyVersionFor digest rules).text

def StampsNameRules (digest : Value → Digest) (s : StampState World) : Prop :=
  ∀ stamp ∈ s.stamps, stamp.NamesRules digest

/-- The rules that an invocation has read to evaluate them and whose version it has still to
read. -/
def StampPhase.awaiting : StampPhase World → Option (List PolicyRule)
  | .looked call snapshot => call.evaluated snapshot
  | .decided call snapshot _ => call.evaluated snapshot
  | _ => none

/-- The process version is the version of the process rules. -/
def CacheAgrees (digest : Value → Digest) (cache : PolicyCache) : Prop :=
  snapshotVersion digest cache.version = policyVersionFor digest (snapshotRules cache.rules)

/-- Rules are read to be evaluated only while the process version is theirs, and no other version
is assigned between that read and the read of the version. -/
def ReplaceApart (digest : Value → Digest) (s : StampState World)
    (label : Nat × StampAction World) : Prop :=
  match label.2 with
  | .look call => call.evaluates = true → CacheAgrees digest s.shared.cache
  | .assignVersion rules => ∀ j held, (s.phase j).awaiting = some held →
      policyVersionFor digest rules = policyVersionFor digest held
  | _ => True

/-- Every invocation on its way will be stamped with the version of the rules it has read. -/
structure StampInv (digest : Value → Digest) (s : StampState World) : Prop where
  awaiting : ∀ i held, (s.phase i).awaiting = some held →
    snapshotVersion digest s.shared.cache.version = policyVersionFor digest held
  stamped : ∀ i call snapshot decision rules, s.phase i = .stamped call snapshot decision →
    call.evaluated snapshot = some rules →
    decision.policyVersion = (policyVersionFor digest rules).text
  stamps : StampsNameRules digest s

section Call

variable {services : Services} {call : CachedCall World}

theorem call_activeRules (call : CachedCall World) (cache : PolicyCache) :
    call.gateway.activeRules cache = snapshotRules cache.rules := by
  unfold InvokeTool.activeRules snapshotRules
  rw [call.process_cache]
  cases cache.rules <;> rfl

theorem call_policyVersion (services : Services) (call : CachedCall World) (cache : PolicyCache) :
    call.gateway.policyVersion services cache =
      snapshotVersion services.digest cache.version := by
  unfold InvokeTool.policyVersion snapshotVersion
  rw [call.process_cache]
  cases cache.version <;> rfl

theorem call_verdict (call : CachedCall World) {cache cache' : PolicyCache}
    (h : cache.rules = cache'.rules) (actionClass : Option ActionClass) :
    call.gateway.verdict cache call.request actionClass =
      call.gateway.verdict cache' call.request actionClass := by
  unfold InvokeTool.verdict
  rw [call_activeRules, call_activeRules, h]

/-- Of the process cache, a decision reads the rules only. -/
theorem call_decide_of_rules (services : Services) (call : CachedCall World)
    {cache cache' : PolicyCache} (h : cache.rules = cache'.rules) (denyAll : Bool)
    (actionClass : Option ActionClass) (world : World) :
    call.gateway.decide services denyAll cache call.request actionClass world =
      call.gateway.decide services denyAll cache' call.request actionClass world := by
  unfold InvokeTool.decide InvokeTool.resolvedClass
  rw [call_verdict call h]

end Call

section Steps

variable {services : Services} {s t : StampState World} {label : Nat × StampAction World}

@[simp] theorem StampState.enter_phase_self (s : StampState World) (i : Nat)
    (phase : StampPhase World) : (s.enter i phase).phase i = phase := by
  simp [StampState.enter]

theorem StampState.enter_phase_of_ne {i j : Nat} {phase : StampPhase World} (h : j ≠ i) :
    (s.enter i phase).phase j = s.phase j := by
  simp [StampState.enter, h]

/-- A step of a thread that keeps the process version and the stamps keeps the invariant when
the thread itself is left well. -/
theorem stampInv_of_only {i : Nat} (inv : StampInv services.digest s)
    (others : ∀ j, j ≠ i → t.phase j = s.phase j)
    (version : t.shared.cache.version = s.shared.cache.version)
    (awaiting : ∀ held, (t.phase i).awaiting = some held →
      snapshotVersion services.digest s.shared.cache.version =
        policyVersionFor services.digest held)
    (stamped : ∀ call snapshot decision rules, t.phase i = .stamped call snapshot decision →
      call.evaluated snapshot = some rules →
      decision.policyVersion = (policyVersionFor services.digest rules).text)
    (stamps : StampsNameRules services.digest t) : StampInv services.digest t := by
  refine ⟨fun j held hheld => ?_, fun j call snapshot decision rules hphase hrules => ?_, stamps⟩
  · rw [version]
    by_cases hj : j = i
    · exact awaiting held (hj ▸ hheld)
    · exact inv.awaiting j held (others j hj ▸ hheld)
  · by_cases hj : j = i
    · exact stamped call snapshot decision rules (hj ▸ hphase) hrules
    · exact inv.stamped j call snapshot decision rules (others j hj ▸ hphase) hrules

theorem recorded_names {call : CachedCall World} {snapshot : Option (List PolicyRule)}
    {decision : GatewayDecision} {entryId : Uuid} {now : Instant} {log log' : AuditLog}
    {entry : AuditEntry}
    (stamped : ∀ rules, call.evaluated snapshot = some rules →
      decision.policyVersion = (policyVersionFor services.digest rules).text)
    (h : recordDecision services.digest services.redact call.request decision entryId now log =
      .ok (entry, log')) :
    (Stamp.mk (call.evaluated snapshot) (decision.withAuditId entry.id.str) entry).NamesRules
      services.digest := by
  intro rules hrules
  have hdecision := stamped rules hrules
  obtain ⟨_, _, _, _, _, _, _, _, _, hversion, _⟩ := recordDecision_ok h
  refine ⟨hdecision, ?_⟩
  rw [hversion, hdecision, PolicyVersion.strip_text]

theorem stampStep_keeps (inv : StampInv services.digest s) (ok : ReplaceApart services.digest s label)
    (h : StampStep services s label t) : StampInv services.digest t := by
  cases h with
  | @look i call hphase =>
    refine @stampInv_of_only _ services s _ i inv (fun j hj => StampState.enter_phase_of_ne hj) rfl
      (fun held hheld => ?_) (by simp) inv.stamps
    rw [StampState.enter_phase_self] at hheld
    change call.evaluated s.shared.cache.rules = some held at hheld
    unfold CachedCall.evaluated at hheld
    split at hheld
    next hevaluates =>
      cases hheld
      exact ok hevaluates
    next => cases hheld
  | @decide i call snapshot decided hphase _ =>
    refine @stampInv_of_only _ services s _ i inv (fun j hj => StampState.enter_phase_of_ne hj) rfl
      (fun held hheld => ?_) (by simp) inv.stamps
    rw [show _ = StampPhase.decided call snapshot decided.decision from
      StampState.enter_phase_self s i _] at hheld
    exact inv.awaiting i held (by rw [hphase]; exact hheld)
  | @stamp i call snapshot decision hphase =>
    refine @stampInv_of_only _ services s _ i inv (fun j hj => StampState.enter_phase_of_ne hj) rfl
      (by simp [StampPhase.awaiting]) ?_ inv.stamps
    intro call' snapshot' decision' rules hstamped hrules
    rw [StampState.enter_phase_self] at hstamped
    cases hstamped
    have hversion := inv.awaiting i rules (by rw [hphase]; exact hrules)
    change (call.gateway.policyVersion services s.shared.cache).text = _
    rw [call_policyVersion, hversion]
  | @record i call snapshot decision entryId now entry log hphase hrecord =>
    refine @stampInv_of_only _ services s _ i inv (fun j hj => StampState.enter_phase_of_ne hj) rfl
      (by simp [StampPhase.awaiting]) (by simp) ?_
    intro stamp hstamp
    rcases List.mem_append.mp hstamp with hstamp | hstamp
    · exact inv.stamps stamp hstamp
    · rw [List.mem_singleton.mp hstamp]
      exact recorded_names (fun rules => inv.stamped i call snapshot decision rules hphase) hrecord
  | @raise i call snapshot decision entryId now text hphase _ =>
    exact @stampInv_of_only _ services s _ i inv (fun j hj => StampState.enter_phase_of_ne hj) rfl
      (by simp [StampPhase.awaiting]) (by simp) inv.stamps
  | @assignVersion i rules hphase =>
    refine ⟨fun j held hheld => ?_, fun j call snapshot decision rules' hstamped hrules => ?_,
      inv.stamps⟩
    · by_cases hj : j = i
      · simp [hj, StampPhase.awaiting] at hheld
      · exact ok j held (by rwa [show _ = s.phase j from StampState.enter_phase_of_ne hj] at hheld)
    · by_cases hj : j = i
      · simp [hj] at hstamped
      · exact inv.stamped j call snapshot decision rules'
          (by rwa [show _ = s.phase j from StampState.enter_phase_of_ne hj] at hstamped) hrules
  | @assignRules i rules hphase =>
    exact @stampInv_of_only _ services s _ i inv (fun j hj => StampState.enter_phase_of_ne hj) rfl
      (by simp [StampPhase.awaiting]) (by simp) inv.stamps

end Steps

section Alone

variable {services : Services} {s : StampState World} {i : Nat}

/-- `replace_policy_rules` with no step of another thread in between. -/
theorem replace_alone (services : Services) (rules : List PolicyRule) (idle : s.phase i = .idle) :
    ∃ path t, Path (StampStep services) s path ∧
      path.map Prod.fst = [(i, .assignVersion rules), (i, .assignRules)] ∧ final s path = t ∧
      t.shared = { s.shared with cache := replacePolicyRules services.digest rules } ∧
      t.phase i = .idle ∧ t.stamps = s.stamps := by
  have run := Path.next (@StampStep.assignVersion _ services s i rules idle)
    (Path.next (@StampStep.assignRules _ services _ i rules (StampState.enter_phase_self s i _))
      Path.stop)
  exact ⟨_, _, run, rfl, rfl, rfl, StampState.enter_phase_self .., rfl⟩

/-- An invocation with no step of another thread in between is `invoke`. -/
theorem invoke_alone {call : CachedCall World} {entryId : Uuid} {now : Instant}
    {decision : GatewayDecision} (idle : s.phase i = .idle)
    (h : (call.gateway.invoke services call.denyAll entryId now call.request s.shared).result =
      .ok decision) :
    ∃ path t entry, Path (StampStep services) s path ∧
      path.map Prod.fst = [(i, .look call), (i, .decide), (i, .stamp), (i, .record entryId now)] ∧
      final s path = t ∧
      t.shared =
        (call.gateway.invoke services call.denyAll entryId now call.request s.shared).state ∧
      t.stamps = s.stamps ++ [⟨call.evaluated s.shared.cache.rules, decision, entry⟩] := by
  have hdecide := @call_decide_of_rules _ services call ⟨s.shared.cache.rules, none⟩ s.shared.cache
    rfl call.denyAll (classify call.request.toolName) s.shared.world
  unfold InvokeTool.invoke at h ⊢
  dsimp only at h ⊢
  generalize hdecided : call.gateway.decide services call.denyAll s.shared.cache call.request
    (classify call.request.toolName) s.shared.world = decided at *
  generalize hstamped : decided.decision.withGovernance
    (call.gateway.policyVersion services s.shared.cache).text call.denyAll = stamped at *
  cases hrecord : recordDecision services.digest services.redact call.request stamped entryId now
    s.shared.log with
  | error text =>
    rw [hrecord] at h
    cases h
  | ok recorded =>
    obtain ⟨entry, log⟩ := recorded
    rw [hrecord] at h
    cases h
    subst hstamped
    have run := Path.next (@StampStep.look _ services s i call idle) (Path.next
      (StampStep.decide (i := i) (StampState.enter_phase_self s i _) hdecide) (Path.next
      (StampStep.stamp (i := i) (StampState.enter_phase_self ..)) (Path.next
      (StampStep.record (i := i) (StampState.enter_phase_self ..) hrecord) Path.stop)))
    exact ⟨_, _, entry, run, rfl, rfl, rfl, rfl⟩

theorem replaced_before {shared : GatewayState World} {call : CachedCall World}
    (rules : List PolicyRule) {decided : Decided World} {entryId : Uuid} {now : Instant}
    {entry : AuditEntry} {log : AuditLog}
    (hdecided : call.gateway.decide services call.denyAll ⟨some rules, none⟩ call.request
      (classify call.request.toolName) shared.world = decided)
    (hrecord : recordDecision services.digest services.redact call.request
      (decided.decision.withGovernance (policyVersionFor services.digest rules).text call.denyAll)
      entryId now shared.log = .ok (entry, log)) :
    ∃ path stamp, Path (StampStep services) (.start shared) path ∧
      Meets (ReplaceApart services.digest) (.start shared) path ∧
      (final (.start shared) path).stamps = [stamp] := by
  rw [← show call.gateway.policyVersion services (replacePolicyRules services.digest rules) =
    policyVersionFor services.digest rules from call_policyVersion ..] at hrecord
  have run := Path.next (@StampStep.assignVersion _ services (.start shared) 1 rules rfl)
    (Path.next (@StampStep.assignRules _ services _ 1 rules rfl)
    (Path.next (@StampStep.look _ services _ 0 call rfl)
    (Path.next (@StampStep.decide _ services _ 0 call _ decided rfl hdecided)
    (Path.next (@StampStep.stamp _ services _ 0 call _ _ rfl)
    (Path.next (@StampStep.record _ services _ 0 call _ _ entryId now entry log rfl hrecord)
      Path.stop)))))
  refine ⟨_, _, run, ⟨fun j held h => ?_, trivial, fun _ => rfl, trivial, trivial, trivial, trivial⟩,
    rfl⟩
  simp [StampState.start, StampPhase.awaiting] at h

theorem replaced_while_running {shared : GatewayState World} {call : CachedCall World}
    (rules : List PolicyRule) {decided : Decided World} {entryId : Uuid} {now : Instant}
    {entry : AuditEntry} {log : AuditLog}
    (hdecided : call.gateway.decide services call.denyAll shared.cache call.request
      (classify call.request.toolName) shared.world = decided)
    (hrecord : recordDecision services.digest services.redact call.request
      (decided.decision.withGovernance (policyVersionFor services.digest rules).text call.denyAll)
      entryId now shared.log = .ok (entry, log)) :
    ∃ path stamp, Path (StampStep services) (.start shared) path ∧
      (final (.start shared) path).stamps = [stamp] ∧
      stamp.evaluated = call.evaluated shared.cache.rules ∧
      stamp.decision.policyVersion = (policyVersionFor services.digest rules).text := by
  have hdecide := @call_decide_of_rules _ services call ⟨shared.cache.rules, none⟩ shared.cache
    rfl call.denyAll (classify call.request.toolName) shared.world
  rw [hdecided] at hdecide
  rw [← show call.gateway.policyVersion services (replacePolicyRules services.digest rules) =
    policyVersionFor services.digest rules from call_policyVersion ..] at hrecord ⊢
  have run := Path.next (@StampStep.look _ services (.start shared) 0 call rfl)
    (Path.next (@StampStep.decide _ services _ 0 call _ decided rfl hdecide)
    (Path.next (@StampStep.assignVersion _ services _ 1 rules rfl)
    (Path.next (@StampStep.assignRules _ services _ 1 rules rfl)
    (Path.next (@StampStep.stamp _ services _ 0 call _ _ rfl)
    (Path.next (@StampStep.record _ services _ 0 call _ _ entryId now entry log rfl hrecord)
      Path.stop)))))
  exact ⟨_, _, run, rfl, rfl, rfl⟩

end Alone

/-- The version is read after the tool has run, so the stamps name the rules that decided as long
as no other version is assigned from the read of the rules on. -/
theorem stamps_name_rules_of_apart (services : Services) (shared : GatewayState World)
    {path : List ((Nat × StampAction World) × StampState World)}
    (run : Path (StampStep services) (.start shared) path)
    (apart : Meets (ReplaceApart services.digest) (.start shared) path) :
    ∀ u ∈ visited (.start shared) path, StampsNameRules services.digest u := by
  have start : StampInv services.digest (.start shared) :=
    ⟨by simp [StampState.start, StampPhase.awaiting], by simp [StampState.start],
      by simp [StampsNameRules, StampState.start]⟩
  have kept := invariant_of_meets (fun _ _ _ inv ok h => stampStep_keeps inv ok h) run start apart
  exact fun u hu => (kept u hu).stamps

/-- A decision on a call whose texts fit an entry is recorded whatever version it is stamped
with. -/
theorem decided_records (services : Services) {gateway : InvokeTool World} {denyAll : Bool}
    {request : ToolInvokeRequest} {state : GatewayState World}
    (fits : Auditable gateway denyAll request state) (version : PolicyVersion) (entryId : Uuid)
    (now : Instant) (log : AuditLog) :
    ∃ entry log', recordDecision services.digest services.redact request
      ((gateway.decide services denyAll state.cache request (classify request.toolName)
        state.world).decision.withGovernance version.text denyAll) entryId now log =
      .ok (entry, log') := by
  obtain ⟨hagent, htool, hincident⟩ := decide_names services gateway denyAll state.cache request
    (classify request.toolName) state.world
  obtain ⟨hstripped, hlength⟩ := (decide_reason_auditable_iff services gateway denyAll state.cache
    request (classify request.toolName) state.world).mpr fits.denial
  generalize gateway.decide services denyAll state.cache request (classify request.toolName)
    state.world = decided at *
  have hversion : (decided.decision.withGovernance version.text denyAll).policyVersion =
      version.text := rfl
  obtain ⟨⟨entry, log'⟩, hrecord⟩ := (record_named_ok_iff services
    (decided.decision.withGovernance version.text denyAll) entryId now log hagent htool hincident
    hversion).mpr ⟨fits.caller, fits.toolName, by rw [← hstripped] at hlength; exact hlength,
      fits.incidentId⟩
  exact ⟨entry, log', hrecord⟩

/-- A stand-in for SHA-256 that tells the empty list from the others. -/
def emptinessDigest : Value → Digest
  | .list [] => Digest.genesis
  | _ => ⟨String.ofList (List.replicate 64 '1'), by decide, List.all_eq_true.mp (by decide)⟩

def stampServices : Services := ⟨emptinessDigest, fun text => ⟨text, 0⟩⟩

def knowledgeRule : PolicyRule :=
  seedReadRule 5 knowledgeTool "docs" (by decide) (by decide)

/-- A client's call to the knowledge tool, under the rules of the process. -/
def knowledgeCall : CachedCall MemoryTokenBucket where
  gateway := { mcpKnowledgeGateway with policyRules := none }
  denyAll := false
  request := plainRequest
  process_cache := rfl

def knowledgeShared : GatewayState MemoryTokenBucket :=
  ⟨replacePolicyRules emptinessDigest [knowledgeRule], [], ⟨[], fun _ => 0⟩⟩

theorem knowledgeCall_auditable (cache : PolicyCache) :
    Auditable knowledgeCall.gateway false plainRequest
      ⟨cache, [], ⟨[], fun _ => 0⟩⟩ where
  caller := by decide
  toolName := by decide
  incidentId := by decide
  denial := by
    intro runner text _ hrunner hdenied
    cases hrunner
    cases hdenied

theorem knowledgeCall_evaluates : knowledgeCall.evaluates = true := by decide

theorem knowledgeVersion_ne :
    (policyVersionFor emptinessDigest []).text ≠
      (policyVersionFor emptinessDigest [knowledgeRule]).text := by
  decide

theorem serial_replace_stamped : ∃ path,
    Path (StampStep stampServices) (.start knowledgeShared) path ∧
      (final (.start knowledgeShared) path).stamps ≠ [] ∧
      ∀ u ∈ visited (.start knowledgeShared) path, StampsNameRules emptinessDigest u := by
  obtain ⟨entry, log, hrecord⟩ := decided_records stampServices
    (knowledgeCall_auditable ⟨some [], none⟩) (policyVersionFor emptinessDigest []) 7 seedAt
    knowledgeShared.log
  obtain ⟨path, stamp, run, apart, hstamps⟩ :=
    @replaced_before _ stampServices knowledgeShared knowledgeCall [] _ 7 seedAt entry log rfl hrecord
  exact ⟨path, run, by simp [hstamps],
    stamps_name_rules_of_apart stampServices knowledgeShared run apart⟩

/-- The rules are withdrawn while the tool runs: the allowed call is stamped with the version of
the empty rule list. -/
theorem replaced_rules_stamped : ∃ path,
    Path (StampStep stampServices) (.start knowledgeShared) path ∧
      ¬StampsNameRules emptinessDigest (final (.start knowledgeShared) path) := by
  obtain ⟨entry, log, hrecord⟩ := decided_records stampServices
    (knowledgeCall_auditable knowledgeShared.cache) (policyVersionFor emptinessDigest []) 7 seedAt
    knowledgeShared.log
  obtain ⟨path, stamp, run, hstamps, hevaluated, hversion⟩ :=
    @replaced_while_running _ stampServices knowledgeShared knowledgeCall [] _ 7 seedAt entry log rfl
      hrecord
  refine ⟨path, run, fun hall => ?_⟩
  have hnames := hall stamp (by rw [hstamps]; exact List.mem_singleton.mpr rfl) [knowledgeRule] (by
    rw [hevaluated, CachedCall.evaluated, if_pos knowledgeCall_evaluates]
    rfl)
  rw [hversion] at hnames
  exact knowledgeVersion_ne hnames.1

end Aegis
