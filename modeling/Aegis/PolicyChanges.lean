import Aegis.ChangeLog
import Aegis.Evidence
import Aegis.ManageRules
import Aegis.Ensuring
import Aegis.StepPath

namespace Aegis

open Raising Proc StepPath ChangeLog

/-- `PolicyRule.snapshot` -/
structure RuleSnapshot where
  id : String
  toolName : String
  actionClass : String
  scope : String
  allowed : Bool
  reason : String
  createdBy : String
  updatedBy : String
  version : Nat
  deriving DecidableEq

def PolicyRule.snapshot (rule : PolicyRule) : RuleSnapshot where
  id := rule.id.str
  toolName := rule.toolName.text
  actionClass := rule.actionClass.value
  scope := rule.scope.text
  allowed := rule.allowed
  reason := rule.reason
  createdBy := rule.createdBy.text
  updatedBy := rule.updatedBy.text
  version := rule.version

@[simp] theorem PolicyRule.snapshot_id (rule : PolicyRule) : rule.snapshot.id = rule.id.str := rfl

inductive ChangeAction where
  | created
  | updated
  | deleted
  deriving DecidableEq, Repr

/-- A row of `policy_rule_changes`. -/
structure PolicyRuleChange where
  id : Uuid
  ruleId : Option Uuid
  actor : Token 128
  action : ChangeAction
  before : Option RuleSnapshot
  after : Option RuleSnapshot
  createdAt : Instant

/-- How a row is read: `created` adds `after`, `updated` replaces `before` by `after`, `deleted`
removes `before`. -/
def PolicyRuleChange.edit (change : PolicyRuleChange) : Option (Edit RuleSnapshot) :=
  match change.action, change.before, change.after with
  | .created, none, some after => some (.created after)
  | .updated, some before, some after => some (.updated before after)
  | .deleted, some before, none => some (.deleted before)
  | _, _, _ => none

/-- The tables of the policy repository. -/
structure PolicyTables where
  rules : RuleTable
  changes : List PolicyRuleChange

/-- One request in progress, with the rule lists that it has published. -/
structure PolicySession (World : Type) where
  tables : PolicyTables
  published : List (List PolicyRule)
  world : World

/-- What a request takes from its process: the clock, the ids, and whether the database executes
the next statement. -/
structure PolicyPorts (World : Type) where
  now : World → Instant × World
  uuid4 : World → Uuid × World
  statement : World → Bool × World

section Calls

variable {World : Type} (ports : PolicyPorts World)

def policyDraw {Value : Type} (f : World → Value × World) :
    Proc (PolicySession World) Raised Value :=
  within PolicySession.world (fun s world => { s with world }) (draw f)

/-- One statement of the transaction. -/
def policyStatement : Proc (PolicySession World) Raised Unit := do
  let executed ← policyDraw ports.statement
  if executed then pure () else raise (.other "statement failed")

def setRules (change : RuleTable → RuleTable) : Proc (PolicySession World) Raised Unit :=
  update fun s => { s with tables := { s.tables with rules := change s.tables.rules } }

/-- `ManageRules.get` -/
def requireRule (id : Uuid) : Proc (PolicySession World) Raised PolicyRule := do
  policyStatement ports
  let rules ← read fun s => s.tables.rules
  fromExcept ((getRule rules id).mapError Raised.other)

/-- The primary key and `ux_policy_rules_tool_class_scope` on a new row. -/
def ruleConflict (rules : RuleTable) (rule : PolicyRule) : Bool :=
  rules.any fun row => row.id = rule.id || row.key = rule.key

/-- `SqlAlchemyPolicyRepository.add` -/
def addRule (rule : PolicyRule) : Proc (PolicySession World) Raised PolicyRule := do
  policyStatement ports
  let rules ← read fun s => s.tables.rules
  if ruleConflict rules rule then
    raise (.invalid "a rule already exists for this tool, action class, and scope.")
  else do
    setRules fun rules => rules ++ [rule]
    pure rule

/-- The columns that `save` sets on a row. -/
def PolicyRule.saved (row rule : PolicyRule) : PolicyRule :=
  { rule with
    id := row.id
    createdBy := row.createdBy
    createdAt := row.createdAt }

/-- `SqlAlchemyPolicyRepository.save` -/
def saveRule (rule : PolicyRule) : Proc (PolicySession World) Raised PolicyRule := do
  let _row ← requireRule ports rule.id
  policyStatement ports
  let rules ← read fun s => s.tables.rules
  fromExcept ((requireFreeKey rules rule).mapError Raised.invalid)
  setRules fun rules => rules.map fun row => if row.id = rule.id then row.saved rule else row
  pure rule

/-- `SqlAlchemyPolicyRepository.delete` -/
def deleteRule (id : Uuid) : Proc (PolicySession World) Raised Unit := do
  let _row ← requireRule ports id
  policyStatement ports
  setRules fun rules => rules.filter fun row => row.id ≠ id

/-- `PolicyRuleChange.record` and `append_change`. -/
def appendChange (actor : String) (action : ChangeAction) (ruleId : Uuid)
    (before after : Option RuleSnapshot) : Proc (PolicySession World) Raised Unit := do
  let id ← policyDraw ports.uuid4
  let createdAt ← policyDraw ports.now
  let who ← fromExcept ((requireToken 128 actor "actor").mapError Raised.invalid)
  policyStatement ports
  let changes ← read fun s => s.tables.changes
  if changes.any fun row => row.id = id then
    raise (.other "duplicate key value violates unique constraint")
  else
    update fun s => { s with tables := { s.tables with
      changes := s.tables.changes ++ [⟨id, some ruleId, who, action, before, after, createdAt⟩] } }

/-- `_publish` -/
def publishRules : Proc (PolicySession World) Raised Unit := do
  policyStatement ports
  update fun s => { s with published := s.published ++ [listRules s.tables.rules] }

/-- `create` of `ManageRules` -/
def manageCreate (actor toolName actionClass scope : String) (allowed : Bool) (reason : String) :
    Proc (PolicySession World) Raised PolicyRule := do
  let now ← policyDraw ports.now
  let id ← policyDraw ports.uuid4
  let rule ← fromExcept
    ((createRule id actor toolName actionClass scope allowed reason now).mapError Raised.invalid)
  let persisted ← addRule ports rule
  appendChange ports actor .created persisted.id none (some persisted.snapshot)
  publishRules ports
  pure persisted

/-- `update` of `ManageRules` -/
def manageUpdate (ruleId : Uuid) (actor : String) (change : RuleChange) :
    Proc (PolicySession World) Raised PolicyRule := do
  let existing ← requireRule ports ruleId
  let now ← policyDraw ports.now
  let updated ← fromExcept ((existing.replace actor change now).mapError Raised.invalid)
  let persisted ← saveRule ports updated
  appendChange ports actor .updated persisted.id (some existing.snapshot) (some persisted.snapshot)
  publishRules ports
  pure persisted

/-- `delete` of `ManageRules` -/
def manageDelete (ruleId : Uuid) (actor : String) : Proc (PolicySession World) Raised Unit := do
  let existing ← requireRule ports ruleId
  deleteRule ports ruleId
  appendChange ports actor .deleted existing.id (some existing.snapshot) none
  publishRules ports

def manageRules : AdminRequest → Proc (PolicySession World) Raised Unit
  | .create actor toolName actionClass scope allowed reason => do
    let _rule ← manageCreate ports actor toolName actionClass scope allowed reason
    pure ()
  | .update id actor change => do
    let _rule ← manageUpdate ports id actor change
    pure ()
  | .delete id actor => manageDelete ports id actor

/-- The tables after a request in its own session: committed when it returns, and else rolled
back. -/
def administered (request : AdminRequest) (tables : PolicyTables) (world : World) : PolicyTables :=
  match (manageRules ports request >>= fun _ => policyStatement ports) ⟨tables, [], world⟩ with
  | (.ok _, s) => s.tables
  | (.error _, _) => tables

def AdminStep (tables : PolicyTables) (request : AdminRequest × World) (next : PolicyTables) :
    Prop :=
  next = administered ports request.1 tables request.2

end Calls

section Requests

variable {World : Type} {ports : PolicyPorts World} {s t : PolicySession World}

theorem policyDraw_ok {Value : Type} {f : World → Value × World} {a : Value}
    (h : policyDraw f s = (.ok a, t)) : t.tables = s.tables := by
  obtain ⟨world, _, rfl⟩ := within_eq_ok.mp h
  rfl

theorem policyStatement_ok {a : Unit} (h : policyStatement ports s = (.ok a, t)) :
    t.tables = s.tables := by
  obtain ⟨executed, u, hdraw, h⟩ := bind_eq_ok.mp h
  split at h
  · cases h
    exact policyDraw_ok hdraw
  · cases h

theorem requireRule_ok {id : Uuid} {rule : PolicyRule}
    (h : requireRule ports id s = (.ok rule, t)) :
    rule ∈ s.tables.rules ∧ rule.id = id ∧ t.tables = s.tables := by
  obtain ⟨_, u, hstatement, h⟩ := bind_eq_ok.mp h
  have hu := policyStatement_ok hstatement
  obtain ⟨rules, v, hread, h⟩ := bind_eq_ok.mp h
  cases hread
  obtain ⟨hfound, rfl⟩ := fromExcept_eq_ok.mp h
  obtain ⟨hmem, hid⟩ := getRule_ok (mapError_eq_ok hfound)
  change rule ∈ u.tables.rules at hmem
  rw [hu] at hmem
  exact ⟨hmem, hid, hu⟩

theorem addRule_ok {rule persisted : PolicyRule}
    (h : addRule ports rule s = (.ok persisted, t)) :
    persisted = rule ∧ ruleConflict s.tables.rules rule = false ∧
      t.tables = { s.tables with rules := s.tables.rules ++ [rule] } := by
  obtain ⟨_, u, hstatement, h⟩ := bind_eq_ok.mp h
  have hu := policyStatement_ok hstatement
  obtain ⟨rules, v, hread, h⟩ := bind_eq_ok.mp h
  cases hread
  split at h
  · cases h
  next hfree =>
    cases h
    rw [← hu]
    exact ⟨rfl, by simpa using hfree, rfl⟩

theorem saveRule_ok {rule persisted : PolicyRule}
    (h : saveRule ports rule s = (.ok persisted, t)) :
    persisted = rule ∧ t.tables = { s.tables with
      rules := s.tables.rules.map fun row =>
        if row.id = rule.id then row.saved rule else row } := by
  obtain ⟨row, u, hrow, h⟩ := bind_eq_ok.mp h
  obtain ⟨_, _, hu⟩ := requireRule_ok hrow
  obtain ⟨_, v, hstatement, h⟩ := bind_eq_ok.mp h
  have hv := policyStatement_ok hstatement
  obtain ⟨rules, w, hread, h⟩ := bind_eq_ok.mp h
  cases hread
  obtain ⟨_, x, hkey, h⟩ := bind_eq_ok.mp h
  obtain ⟨_, rfl⟩ := fromExcept_eq_ok.mp hkey
  cases h
  rw [← hu, ← hv]
  exact ⟨rfl, rfl⟩

theorem deleteRule_ok {id : Uuid} (h : deleteRule ports id s = (.ok (), t)) :
    t.tables = { s.tables with rules := s.tables.rules.filter fun row => row.id ≠ id } := by
  obtain ⟨row, u, hrow, h⟩ := bind_eq_ok.mp h
  obtain ⟨_, _, hu⟩ := requireRule_ok hrow
  obtain ⟨_, v, hstatement, h⟩ := bind_eq_ok.mp h
  have hv := policyStatement_ok hstatement
  cases h
  rw [← hu, ← hv]

theorem appendChange_ok {actor : String} {action : ChangeAction} {ruleId : Uuid}
    {before after : Option RuleSnapshot}
    (h : appendChange ports actor action ruleId before after s = (.ok (), t)) :
    ∃ id who createdAt, t.tables = { s.tables with
      changes := s.tables.changes ++ [⟨id, some ruleId, who, action, before, after, createdAt⟩] } := by
  obtain ⟨id, s₁, hid, h⟩ := bind_eq_ok.mp h
  obtain ⟨createdAt, s₂, hcreated, h⟩ := bind_eq_ok.mp h
  obtain ⟨who, s₃, hwho, h⟩ := bind_eq_ok.mp h
  obtain ⟨_, rfl⟩ := fromExcept_eq_ok.mp hwho
  obtain ⟨_, s₄, hstatement, h⟩ := bind_eq_ok.mp h
  obtain ⟨changes, s₅, hread, h⟩ := bind_eq_ok.mp h
  cases hread
  split at h
  · cases h
  · cases h
    rw [← policyDraw_ok hid, ← policyDraw_ok hcreated, ← policyStatement_ok hstatement]
    exact ⟨id, who, createdAt, rfl⟩

theorem publishRules_ok (h : publishRules ports s = (.ok (), t)) : t.tables = s.tables := by
  obtain ⟨_, u, hstatement, h⟩ := bind_eq_ok.mp h
  have hu := policyStatement_ok hstatement
  cases h
  exact hu

/-- The rules are changed by one edit, and the row of that edit is appended. -/
structure RecordsEdit (before after : PolicyTables) (edit : Edit RuleSnapshot) : Prop where
  recorded : ∃ change, after.changes = before.changes ++ [change] ∧ change.edit = some edit ∧
    change.ruleId.map Uuid.str = some (edit.key RuleSnapshot.id)
  fits : Fits RuleSnapshot.id RuleSnapshot.version (before.rules.map PolicyRule.snapshot) edit
  replayed : edit.replay (before.rules.map PolicyRule.snapshot) =
    some (after.rules.map PolicyRule.snapshot)

theorem manageCreate_ok {actor toolName actionClass scope reason : String} {allowed : Bool}
    {rule : PolicyRule}
    (h : manageCreate ports actor toolName actionClass scope allowed reason s = (.ok rule, t)) :
    ∃ edit, RecordsEdit s.tables t.tables edit := by
  obtain ⟨now, s₁, hnow, h⟩ := bind_eq_ok.mp h
  obtain ⟨id, s₂, hid, h⟩ := bind_eq_ok.mp h
  obtain ⟨built, s₃, hbuilt, h⟩ := bind_eq_ok.mp h
  obtain ⟨hcreate, rfl⟩ := fromExcept_eq_ok.mp hbuilt
  obtain ⟨persisted, s₄, hadd, h⟩ := bind_eq_ok.mp h
  obtain ⟨_, s₅, hchange, h⟩ := bind_eq_ok.mp h
  obtain ⟨_, s₆, hpublish, h⟩ := bind_eq_ok.mp h
  cases h
  obtain ⟨rfl, hfree, hadded⟩ := addRule_ok hadd
  obtain ⟨changeId, who, createdAt, happended⟩ := appendChange_ok hchange
  have htables : s₂.tables = s.tables := (policyDraw_ok hid).trans (policyDraw_ok hnow)
  rw [htables] at hfree hadded
  rw [publishRules_ok hpublish, happended, hadded]
  obtain ⟨_, hversion⟩ := createRule_ok (mapError_eq_ok hcreate)
  refine ⟨.created rule.snapshot, ⟨⟨_, rfl, rfl, rfl⟩, ⟨fun hmem => ?_, hversion⟩, ?_⟩⟩
  · rw [List.map_map] at hmem
    obtain ⟨row, hrow, hsame⟩ := List.mem_map.mp hmem
    rw [Function.comp_apply, PolicyRule.snapshot_id, PolicyRule.snapshot_id] at hsame
    have := List.any_eq_false.mp hfree row hrow
    simp [Uuid.str_inj hsame] at this
  · rw [List.map_append]
    rfl

theorem snapshot_inj {rules : RuleTable} (ids : (rules.map PolicyRule.id).Nodup) {a b : PolicyRule}
    (ha : a ∈ rules) (hb : b ∈ rules) (h : a.snapshot = b.snapshot) : a = b := by
  have hid : a.snapshot.id = b.snapshot.id := by rw [h]
  rw [PolicyRule.snapshot_id, PolicyRule.snapshot_id] at hid
  exact List.inj_on_of_nodup_map ids ha hb (Uuid.str_inj hid)

/-- The row that `save` leaves has the snapshot that is recorded. -/
theorem saved_snapshot {row rule : PolicyRule} (id : rule.id = row.id)
    (createdBy : rule.createdBy.text = row.createdBy.text) :
    (row.saved rule).snapshot = rule.snapshot := by
  unfold PolicyRule.snapshot PolicyRule.saved
  dsimp only
  rw [id, createdBy]

theorem manageUpdate_ok {ruleId : Uuid} {actor : String} {change : RuleChange} {rule : PolicyRule}
    (ids : (s.tables.rules.map PolicyRule.id).Nodup)
    (h : manageUpdate ports ruleId actor change s = (.ok rule, t)) :
    ∃ edit, RecordsEdit s.tables t.tables edit := by
  obtain ⟨existing, s₁, hexisting, h⟩ := bind_eq_ok.mp h
  obtain ⟨hmem, _, hs₁⟩ := requireRule_ok hexisting
  obtain ⟨now, s₂, hnow, h⟩ := bind_eq_ok.mp h
  obtain ⟨updated, s₃, hupdated, h⟩ := bind_eq_ok.mp h
  obtain ⟨hreplace, rfl⟩ := fromExcept_eq_ok.mp hupdated
  obtain ⟨persisted, s₄, hsave, h⟩ := bind_eq_ok.mp h
  obtain ⟨_, s₅, hchange, h⟩ := bind_eq_ok.mp h
  obtain ⟨_, s₆, hpublish, h⟩ := bind_eq_ok.mp h
  cases h
  obtain ⟨rfl, hsaved⟩ := saveRule_ok hsave
  obtain ⟨changeId, who, createdAt, happended⟩ := appendChange_ok hchange
  have htables : s₂.tables = s.tables := (policyDraw_ok hnow).trans hs₁
  rw [htables] at hsaved
  rw [publishRules_ok hpublish, happended, hsaved]
  obtain ⟨hid, hversion, hcreator⟩ := replace_ok (mapError_eq_ok hreplace)
  have hlisted : existing.snapshot ∈ s.tables.rules.map PolicyRule.snapshot :=
    List.mem_map_of_mem hmem
  refine ⟨.updated existing.snapshot rule.snapshot, ⟨⟨_, rfl, rfl, ?_⟩,
    ⟨hlisted, congrArg Uuid.str hid, hversion⟩, ?_⟩⟩
  · exact congrArg (fun id => some (Uuid.str id)) hid
  · refine (if_pos hlisted).trans (congrArg some ?_)
    dsimp only
    rw [List.map_map, List.map_map]
    refine List.map_congr_left fun row hrow => ?_
    dsimp only [Function.comp]
    by_cases hsame : row.id = rule.id
    · have hrowEq : row = existing :=
        List.inj_on_of_nodup_map ids hrow hmem (hsame.trans hid)
      rw [if_pos hsame, hrowEq, if_pos rfl, saved_snapshot hid hcreator]
    · have hne : row.snapshot ≠ existing.snapshot := fun h =>
        hsame ((congrArg PolicyRule.id (snapshot_inj ids hrow hmem h)).trans hid.symm)
      rw [if_neg hsame, if_neg hne]

theorem manageDelete_ok {ruleId : Uuid} {actor : String}
    (ids : (s.tables.rules.map PolicyRule.id).Nodup)
    (h : manageDelete ports ruleId actor s = (.ok (), t)) :
    ∃ edit, RecordsEdit s.tables t.tables edit := by
  obtain ⟨existing, s₁, hexisting, h⟩ := bind_eq_ok.mp h
  obtain ⟨hmem, hid, hs₁⟩ := requireRule_ok hexisting
  obtain ⟨_, s₂, hdelete, h⟩ := bind_eq_ok.mp h
  have hdeleted := deleteRule_ok hdelete
  obtain ⟨_, s₃, hchange, h⟩ := bind_eq_ok.mp h
  obtain ⟨changeId, who, createdAt, happended⟩ := appendChange_ok hchange
  rw [hs₁] at hdeleted
  rw [publishRules_ok h, happended, hdeleted]
  have hlisted : existing.snapshot ∈ s.tables.rules.map PolicyRule.snapshot :=
    List.mem_map_of_mem hmem
  refine ⟨.deleted existing.snapshot, ⟨⟨_, rfl, rfl, congrArg some existing.snapshot_id.symm⟩,
    hlisted, ?_⟩⟩
  refine (if_pos hlisted).trans (congrArg some ?_)
  dsimp only
  rw [List.filter_map, ← hid]
  refine congrArg (List.map PolicyRule.snapshot) (List.filter_congr fun row hrow => ?_)
  dsimp only [Function.comp]
  by_cases hsame : row.id = existing.id
  · have hrowEq : row = existing := List.inj_on_of_nodup_map ids hrow hmem hsame
    simp [hrowEq]
  · have hne : row.snapshot ≠ existing.snapshot := fun h =>
      hsame (congrArg PolicyRule.id (snapshot_inj ids hrow hmem h))
    simp [hsame, hne]

theorem manageRules_ok {request : AdminRequest} (ids : (s.tables.rules.map PolicyRule.id).Nodup)
    (h : manageRules ports request s = (.ok (), t)) :
    ∃ edit, RecordsEdit s.tables t.tables edit := by
  cases request with
  | create actor toolName actionClass scope allowed reason =>
    obtain ⟨rule, u, hcall, h⟩ := bind_eq_ok.mp h
    cases h
    exact manageCreate_ok hcall
  | update id actor change =>
    obtain ⟨rule, u, hcall, h⟩ := bind_eq_ok.mp h
    cases h
    exact manageUpdate_ok ids hcall
  | delete id actor => exact manageDelete_ok ids h

theorem administered_cases (ports : PolicyPorts World) (request : AdminRequest)
    (tables : PolicyTables) (world : World) :
    administered ports request tables world = tables ∨
      ∃ s, manageRules ports request ⟨tables, [], world⟩ = (.ok (), s) ∧
        administered ports request tables world = s.tables := by
  unfold administered
  rcases hcall : manageRules ports request ⟨tables, [], world⟩ with ⟨raised | _, s⟩
  · rw [bind_of_error hcall]
    exact .inl rfl
  · rw [bind_of_ok hcall]
    rcases hcommit : policyStatement ports s with ⟨raised | _, t⟩
    · exact .inl rfl
    · exact .inr ⟨s, rfl, policyStatement_ok hcommit⟩

/-- The recorded rows are edits of the rules they name, and these lead from the first rules to the
current ones. -/
structure LogReplays (start : RuleTable) (tables : PolicyTables) : Prop where
  explained : ∃ edits, tables.changes.map PolicyRuleChange.edit = edits.map some ∧
    Explains RuleSnapshot.id RuleSnapshot.version (start.map PolicyRule.snapshot) edits
      (tables.rules.map PolicyRule.snapshot)
  named : ∀ change ∈ tables.changes, ∃ edit, change.edit = some edit ∧
    change.ruleId.map Uuid.str = some (edit.key RuleSnapshot.id)

theorem logReplays_recorded {start : RuleTable} {before after : PolicyTables}
    {edit : Edit RuleSnapshot} (h : LogReplays start before)
    (records : RecordsEdit before after edit) : LogReplays start after := by
  obtain ⟨edits, hedits, hexplains⟩ := h.explained
  obtain ⟨change, hchanges, hedit, hnamed⟩ := records.recorded
  obtain ⟨changed, hreplay, hafter⟩ := explains_concat hexplains records.fits
  rw [records.replayed] at hreplay
  cases hreplay
  refine ⟨⟨edits ++ [edit], ?_, hafter⟩, fun other hother => ?_⟩
  · rw [hchanges, List.map_append, List.map_append, hedits]
    simp [hedit]
  · rw [hchanges] at hother
    rcases List.mem_append.mp hother with hother | hother
    · exact h.named other hother
    · rw [List.mem_singleton.mp hother]
      exact ⟨edit, hedit, hnamed⟩

theorem ids_of_explained {start : RuleTable} {tables : PolicyTables} (h : LogReplays start tables) :
    (tables.rules.map PolicyRule.id).Nodup := by
  obtain ⟨edits, _, hexplains⟩ := h.explained
  have hkeys := hexplains.keys
  rw [List.map_map, show RuleSnapshot.id ∘ PolicyRule.snapshot = Uuid.str ∘ PolicyRule.id from rfl,
    ← List.map_map] at hkeys
  exact hkeys.of_map

/-- The change log replays to the current rules. -/
theorem change_log_replays {start : PolicyTables}
    {path : List ((AdminRequest × World) × PolicyTables)}
    (ids : (start.rules.map PolicyRule.id).Nodup)
    (versions : ∀ rule ∈ start.rules, rule.version = 1) (empty : start.changes = [])
    (run : Path (AdminStep ports) start path) :
    ∀ tables ∈ visited start path, LogReplays start.rules tables := by
  refine invariant (fun before request after h hstep => ?_) run ⟨⟨[], by rw [empty]; rfl, ?_⟩, ?_⟩
  · rw [hstep]
    rcases administered_cases ports request.1 before request.2 with hsame | ⟨s, hcall, hafter⟩
    · rw [hsame]
      exact h
    · rw [hafter]
      obtain ⟨edit, hrecords⟩ := manageRules_ok (ids_of_explained h) hcall
      exact logReplays_recorded h hrecords
  · refine explains_nil ?_ fun snapshot hsnapshot => ?_
    · rw [List.map_map, show RuleSnapshot.id ∘ PolicyRule.snapshot = Uuid.str ∘ PolicyRule.id from
        rfl, ← List.map_map]
      exact ids.map fun _ _ => Uuid.str_inj
    · obtain ⟨rule, hrule, rfl⟩ := List.mem_map.mp hsnapshot
      exact versions rule hrule
  · rw [empty]
    simp

end Requests

/-- A clock that stands, ids that count, and a database that executes every statement. -/
def adminPorts : PolicyPorts Nat where
  now world := (0, world)
  uuid4 world := (BitVec.ofNat 128 world, world + 1)
  statement world := (true, world)

def createExport : AdminRequest := .create " admin " "export_users" "read" "*" true " bulk "

def denyExport : AdminRequest :=
  .update 5 "admin" ⟨none, none, some "commander ", some false, none⟩

def noTables : PolicyTables := ⟨[], []⟩

def createdTables : PolicyTables := administered adminPorts createExport noTables 5

def deniedTables : PolicyTables := administered adminPorts denyExport createdTables 7

theorem createExport_denied : Path (AdminStep adminPorts) noTables
    [((createExport, 5), createdTables), ((denyExport, 7), deniedTables)] :=
  Path.next rfl (Path.next rfl Path.stop)

theorem denied_replays : LogReplays [] deniedTables :=
  @change_log_replays _ _ noTables _ List.nodup_nil (fun _ h => absurd h List.not_mem_nil) rfl
    createExport_denied deniedTables (by simp)

example : deniedTables.changes.map (fun change => (change.action, change.after.map RuleSnapshot.scope)) =
    [(.created, some "*"), (.updated, some "commander")] := by decide +kernel

end Aegis
