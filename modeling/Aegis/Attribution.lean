import Aegis.Requests

namespace Aegis

open Raising Proc StepPath

/-- The tables of the policy repository, as a server has them. -/
def Server.tables {World : Type} (server : Server World) : PolicyTables :=
  ⟨server.worker.db.policyRules, server.changes⟩

/-- The row that a call under `/policy/rules` records, if it records one. -/
def PolicyCall.Records : PolicyCall → PolicyRuleChange → Prop
  | .list, _ => False
  | .get _, _ => False
  | .create _ _ _ _ _, change => change.action = .created
  | .update ruleId _, change => change.action = .updated ∧ change.ruleId = some ruleId
  | .delete ruleId, change => change.action = .deleted ∧ change.ruleId = some ruleId

/-- The row records a call of an administrator, who is its actor. -/
structure RecordsCallOf {World : Type} (ports : ApiPorts World) (arrival : Arrival World)
    (change : PolicyRuleChange) : Prop where
  made : ∃ header call requestId user, arrival.request = .call header (.policy call) requestId ∧
    getCurrentUser ports.lower ports.jwt ports.jwtSecret header arrival.moment = .ok user ∧
    user.role = .admin ∧ change.actor.text = user.subject ∧ call.Records change

section Changes

variable {World : Type} {ports : PolicyPorts World} {s t : PolicySession World} {actor : String}
  {ruleId : Uuid}

/-- One row is added to the changes: who did what to which rule. -/
structure Adds (actor : String) (action : ChangeAction) (before after : PolicyTables)
    (change : PolicyRuleChange) : Prop where
  added : after.changes = before.changes ++ [change]
  actor : change.actor.text = strip actor
  action : change.action = action

theorem appendChange_adds {action : ChangeAction} {before after : Option RuleSnapshot}
    (h : appendChange ports actor action ruleId before after s = (.ok (), t)) :
    ∃ change, Adds actor action s.tables t.tables change ∧ change.ruleId = some ruleId := by
  obtain ⟨id, s₁, hid, h⟩ := bind_eq_ok.mp h
  obtain ⟨createdAt, s₂, hcreated, h⟩ := bind_eq_ok.mp h
  obtain ⟨who, s₃, hwho, h⟩ := bind_eq_ok.mp h
  obtain ⟨htoken, rfl⟩ := fromExcept_eq_ok.mp hwho
  obtain ⟨_, s₄, hstatement, h⟩ := bind_eq_ok.mp h
  obtain ⟨changes, s₅, hread, h⟩ := bind_eq_ok.mp h
  cases hread
  split at h
  · cases h
  · cases h
    refine ⟨⟨id, some ruleId, who, action, before, after, createdAt⟩, ⟨?_, ?_, rfl⟩, rfl⟩
    · rw [← policyDraw_ok hid, ← policyDraw_ok hcreated, ← policyStatement_ok hstatement]
    · exact requireToken_text (mapError_eq_ok htoken)

theorem manageCreate_adds {toolName actionClass scope reason : String} {allowed : Bool}
    {rule : PolicyRule}
    (h : manageCreate ports actor toolName actionClass scope allowed reason s = (.ok rule, t)) :
    ∃ change, Adds actor .created s.tables t.tables change := by
  obtain ⟨now, s₁, hnow, h⟩ := bind_eq_ok.mp h
  obtain ⟨id, s₂, hid, h⟩ := bind_eq_ok.mp h
  obtain ⟨built, s₃, hbuilt, h⟩ := bind_eq_ok.mp h
  obtain ⟨_, rfl⟩ := fromExcept_eq_ok.mp hbuilt
  obtain ⟨persisted, s₄, hadd, h⟩ := bind_eq_ok.mp h
  obtain ⟨_, s₅, hchange, h⟩ := bind_eq_ok.mp h
  obtain ⟨_, s₆, hpublish, h⟩ := bind_eq_ok.mp h
  cases h
  obtain ⟨_, _, hadded⟩ := addRule_ok hadd
  obtain ⟨change, hadds, _⟩ := appendChange_adds hchange
  refine ⟨change, ?_, hadds.actor, hadds.action⟩
  rw [publishRules_ok hpublish, hadds.added, hadded, policyDraw_ok hid, policyDraw_ok hnow]

theorem manageUpdate_adds {fields : RuleChange} {rule : PolicyRule}
    (h : manageUpdate ports ruleId actor fields s = (.ok rule, t)) :
    ∃ change, Adds actor .updated s.tables t.tables change ∧ change.ruleId = some ruleId := by
  obtain ⟨existing, s₁, hexisting, h⟩ := bind_eq_ok.mp h
  obtain ⟨_, hid, hs₁⟩ := requireRule_ok hexisting
  obtain ⟨now, s₂, hnow, h⟩ := bind_eq_ok.mp h
  obtain ⟨updated, s₃, hupdated, h⟩ := bind_eq_ok.mp h
  obtain ⟨hreplace, rfl⟩ := fromExcept_eq_ok.mp hupdated
  obtain ⟨persisted, s₄, hsave, h⟩ := bind_eq_ok.mp h
  obtain ⟨_, s₅, hchange, h⟩ := bind_eq_ok.mp h
  obtain ⟨_, s₆, hpublish, h⟩ := bind_eq_ok.mp h
  cases h
  obtain ⟨rfl, hsaved⟩ := saveRule_ok hsave
  obtain ⟨change, hadds, hrule⟩ := appendChange_adds hchange
  refine ⟨change, ⟨?_, hadds.actor, hadds.action⟩, ?_⟩
  · rw [publishRules_ok hpublish, hadds.added, hsaved, policyDraw_ok hnow, hs₁]
  · rw [hrule, (replace_ok (mapError_eq_ok hreplace)).1, hid]

theorem manageDelete_adds (h : manageDelete ports ruleId actor s = (.ok (), t)) :
    ∃ change, Adds actor .deleted s.tables t.tables change ∧ change.ruleId = some ruleId := by
  obtain ⟨existing, s₁, hexisting, h⟩ := bind_eq_ok.mp h
  obtain ⟨_, hid, hs₁⟩ := requireRule_ok hexisting
  obtain ⟨_, s₂, hdelete, h⟩ := bind_eq_ok.mp h
  obtain ⟨_, s₃, hchange, h⟩ := bind_eq_ok.mp h
  obtain ⟨change, hadds, hrule⟩ := appendChange_adds hchange
  refine ⟨change, ⟨?_, hadds.actor, hadds.action⟩, by rw [hrule, hid]⟩
  rw [publishRules_ok h, hadds.added, deleteRule_ok hdelete, hs₁]

end Changes

section Calls

variable {World : Type} {ports : ApiPorts World} {s t : PolicySession World} {actor : String}

/-- What a call under `/policy/rules` that returns has done to the tables. -/
inductive PolicyDid (actor : String) (call : PolicyCall) (before after : PolicyTables) : Prop
  | read (same : after = before)
  | wrote (edit : ChangeLog.Edit RuleSnapshot) (change : PolicyRuleChange)
      (records : RecordsEdit before after edit)
      (added : after.changes = before.changes ++ [change])
      (actor : change.actor.text = strip actor) (recorded : call.Records change)

theorem policyCall_did {call : PolicyCall} {reply : ApiReply}
    (ids : (s.tables.rules.map PolicyRule.id).Nodup)
    (h : policyCall ports actor call s = (.ok reply, t)) :
    PolicyDid actor call s.tables t.tables := by
  cases call with
  | list =>
    obtain ⟨_, u, hstatement, h⟩ := bind_eq_ok.mp h
    obtain ⟨rules, v, hread, h⟩ := bind_eq_ok.mp h
    cases hread
    cases h
    exact .read (policyStatement_ok hstatement)
  | get ruleId =>
    obtain ⟨rule, u, hrule, h⟩ := bind_eq_ok.mp h
    cases h
    exact .read (requireRule_ok hrule).2.2
  | create toolName actionClass scope allowed reason =>
    obtain ⟨rule, u, hcreate, h⟩ := bind_eq_ok.mp h
    cases h
    obtain ⟨edit, hrecords⟩ := manageCreate_ok hcreate
    obtain ⟨change, hadds⟩ := manageCreate_adds hcreate
    exact .wrote edit change hrecords hadds.added hadds.actor hadds.action
  | update ruleId fields =>
    obtain ⟨rule, u, hupdate, h⟩ := bind_eq_ok.mp h
    cases h
    obtain ⟨edit, hrecords⟩ := manageUpdate_ok ids hupdate
    obtain ⟨change, hadds, hrule⟩ := manageUpdate_adds hupdate
    exact .wrote edit change hrecords hadds.added hadds.actor ⟨hadds.action, hrule⟩
  | delete ruleId =>
    obtain ⟨_, u, hdelete, h⟩ := bind_eq_ok.mp h
    cases h
    obtain ⟨edit, hrecords⟩ := manageDelete_ok ids hdelete
    obtain ⟨change, hadds, hrule⟩ := manageDelete_adds hdelete
    exact .wrote edit change hrecords hadds.added hadds.actor ⟨hadds.action, hrule⟩

theorem role_of_managePolicy {role : Role} (h : hasPermission role .managePolicy = true) :
    role = .admin := by
  cases role with
  | admin => rfl
  | _ => exact absurd h (by decide)

/-- Only the routes under `/policy/rules` ask for the permission to manage the policy. -/
theorem required_managePolicy {call : ApiCall} (required : call.permission = some .managePolicy) :
    ∃ policy, call = .policy policy := by
  cases call with
  | policy policy => exact ⟨policy, rfl⟩
  | control incidentId call => cases call <;> cases required
  | _ => cases required

theorem incidentCall_policyRules {requestId : String} {call : ApiCall}
    {out : ApiReply × List DomainEvent} {s t : Session World}
    (h : incidentCall ports requestId call s = (.ok out, t)) :
    t.db.policyRules = s.db.policyRules := by
  refine @incidentCall_keeps _ _ _ _ .policyRules _ _ _ h fun permission hrequired hwriter => ?_
  rw [List.mem_singleton.mp hwriter] at hrequired
  obtain ⟨policy, rfl⟩ := required_managePolicy hrequired
  cases h

variable {server : Server World} {arrival : Arrival World} {base : RuleTable}

/-- One request keeps the log explaining the rules, and records at most itself. -/
theorem serveArrival_tables (explained : LogReplays base server.tables) :
    LogReplays base (serveArrival ports server arrival).server.tables ∧
      ((serveArrival ports server arrival).server.changes = server.changes ∨
        ∃ change, (serveArrival ports server arrival).server.changes = server.changes ++ [change] ∧
          RecordsCallOf ports arrival change) := by
  obtain ⟨request, moment, world⟩ := arrival
  have hreached := serve_reached ports moment request (server.inWorld world)
  unfold serveArrival
  dsimp only
  generalize serve ports moment request (server.inWorld world) = served at hreached ⊢
  have unwritten : ∀ other : Server World,
      other.worker.db.policyRules = server.worker.db.policyRules → other.changes = server.changes →
      LogReplays base other.tables := by
    intro other hrules hchanges
    unfold Server.tables
    rw [hrules, hchanges]
    exact explained
  cases hreached with
  | refused fault => exact ⟨explained, .inl rfl⟩
  | @policy header call requestId user caller =>
    obtain ⟨huser, hallowed⟩ := authorize_ok caller
    rcases servePolicy_cases ports user.subject call (server.inWorld world) with
      ⟨raised, _, hdb, hchanges⟩ | ⟨reply, s, _, hcall, hdb, hchanges⟩
    · exact ⟨unwritten _ (congrArg Db.policyRules hdb) hchanges, .inl hchanges⟩
    · have htables : (servePolicy ports user.subject call (server.inWorld world)).server.tables =
          s.tables := by
        unfold Server.tables
        rw [hdb, hchanges]
      cases policyCall_did (ids_of_explained explained) hcall with
      | read same =>
        rw [htables, hchanges, same]
        exact ⟨explained, .inl rfl⟩
      | wrote edit change records added actor recorded =>
        refine ⟨?_, .inr ⟨change, hchanges.trans added, ⟨header, call, requestId, user, rfl, huser,
          role_of_managePolicy (hallowed _ rfl), ?_, recorded⟩⟩⟩
        · rw [htables]
          exact logReplays_recorded explained records
        · obtain ⟨_, _, hdecoded⟩ := getCurrentUser_ok huser
          rw [actor, (decodeAccessToken_ok hdecoded.2).1]
  | @incident header call requestId user caller =>
    refine ⟨unwritten _ ?_ (serveIncident_changes call), .inl (serveIncident_changes call)⟩
    rcases serveIncident_cases ports requestId call (server.inWorld world) with
      ⟨raised, _, hdb, _⟩ | ⟨reply, s, _, hcall, hdb⟩
    · exact congrArg Db.policyRules hdb
    · rw [hdb]
      exact incidentCall_policyRules hcall
  | @signal signature body requestId command signed parsed =>
    refine ⟨unwritten _ ?_ (serveSignal_changes command), .inl (serveSignal_changes command)⟩
    rcases serveSignal_cases ports requestId command (server.inWorld world) with
      ⟨raised, _, hdb, _⟩ | ⟨result, s, _, hcall, _, hdb⟩
    · exact congrArg Db.policyRules hdb
    · rw [hdb]
      exact @signal_keeps _ _ _ _ .policyRules _ _ _ hcall (by decide)

/-- In a run of requests the log of rule changes explains the rules all along, and each row that
it gains records the call of an administrator, in the order of the requests. -/
theorem rule_changes_attributed {start : Server World}
    {path : List (Arrival World × Server World)} (explained : LogReplays base start.tables)
    (run : Path (ServeStep ports) start path) :
    LogReplays base (final start path).tables ∧
      ∃ rows arrivals, (final start path).changes = start.changes ++ rows ∧
        arrivals.Sublist (path.map Prod.fst) ∧
        List.Forall₂ (RecordsCallOf ports) arrivals rows := by
  induction run with
  | stop => exact ⟨explained, [], [], by simp, List.Sublist.refl _, .nil⟩
  | @next server arrival next rest hstep _ ih =>
    obtain ⟨hexplained, hchanges⟩ := @serveArrival_tables _ ports server arrival base explained
    rw [← hstep] at hexplained hchanges
    obtain ⟨hlast, rows, arrivals, hrows, hsublist, hrecorded⟩ := ih hexplained
    refine ⟨hlast, ?_⟩
    rw [final_cons, hrows, List.map_cons]
    rcases hchanges with hsame | ⟨change, hadded, hrecords⟩
    · exact ⟨rows, arrivals, by rw [hsame], hsublist.cons arrival, hrecorded⟩
    · refine ⟨change :: rows, arrival :: arrivals, ?_, hsublist.cons_cons arrival,
        .cons hrecords hrecorded⟩
      rw [hadded, List.append_assoc, List.singleton_append]

end Calls

/-- A table of first versions is explained by a log without changes. -/
theorem logReplays_unchanged {tables : PolicyTables} (ids : (tables.rules.map PolicyRule.id).Nodup)
    (versions : ∀ rule ∈ tables.rules, rule.version = 1) (empty : tables.changes = []) :
    LogReplays tables.rules tables := by
  refine ⟨⟨[], by rw [empty]; rfl, ChangeLog.explains_nil ?_ fun snapshot hsnapshot => ?_⟩, ?_⟩
  · rw [List.map_map, show RuleSnapshot.id ∘ PolicyRule.snapshot = Uuid.str ∘ PolicyRule.id from
      rfl, ← List.map_map]
    exact ids.map fun _ _ => Uuid.str_inj
  · obtain ⟨rule, hrule, rfl⟩ := List.mem_map.mp hsnapshot
    exact versions rule hrule
  · rw [empty]
    simp

theorem emptyServer_explained : LogReplays emptyServer.tables.rules emptyServer.tables :=
  logReplays_unchanged (by decide) (by decide) rfl

def createRuleArrival : Arrival Script where
  request := .call (bearer "ada" .admin)
    (.policy (.create "export_users" "read" "*" true " bulk ")) "r1"
  moment := 60000000
  world := ⟨60000000, 10, [], [], []⟩

/-- The same administrator's rule, changed by another one. -/
def updateRuleArrival : Arrival Script where
  request :=
    .call (bearer "bob" .admin) (.policy (.update 10 ⟨none, none, none, some false, none⟩)) "r2"
  moment := 120000000
  world := ⟨120000000, 20, [], [], []⟩

/-- An engineer may not manage the rules. -/
def engineerRuleArrival : Arrival Script :=
  { createRuleArrival with
    request := .call (bearer "eve" .engineer) (.policy (.delete 10)) "r3" }

def rulePath : List (Arrival Script × Server Script) :=
  servePath scriptedApi emptyServer [createRuleArrival, engineerRuleArrival, updateRuleArrival]

theorem created_rule_attributed : (final emptyServer rulePath).changes.length = 2 ∧
    LogReplays emptyServer.tables.rules (final emptyServer rulePath).tables ∧
      ∃ rows arrivals, (final emptyServer rulePath).changes = emptyServer.changes ++ rows ∧
        arrivals.Sublist (rulePath.map Prod.fst) ∧
        List.Forall₂ (RecordsCallOf scriptedApi) arrivals rows := by
  have hcreated : (final emptyServer rulePath).changes.length = 2 := by decide +kernel
  exact ⟨hcreated, rule_changes_attributed emptyServer_explained (servePath_path _ _ _)⟩

end Aegis
