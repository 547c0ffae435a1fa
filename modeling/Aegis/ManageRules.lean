import Aegis.Policy

namespace Aegis

/-- The rows of `policy_rules`. -/
abbrev RuleTable := List PolicyRule

def parseActionClass (value : String) : Except String ActionClass :=
  match [ActionClass.read, .lowRiskWrite, .highRiskWrite, .destructive].find?
      (fun cls => cls.value = strip value) with
  | some cls => .ok cls
  | none => .error "action_class must be read, low-risk-write, high-risk-write, or destructive."

/-- The fields of an admin request; in an update a missing one is kept. -/
structure RuleChange where
  toolName : Option String
  actionClass : Option String
  scope : Option String
  allowed : Option Bool
  reason : Option String

/-- `PolicyRule.replace` -/
def PolicyRule.replace (rule : PolicyRule) (actor : String) (change : RuleChange) (now : Instant) :
    Except String PolicyRule :=
  (requireToken 128 actor "actor").bind fun who =>
  (change.actionClass.elim (.ok rule.actionClass) parseActionClass).bind fun actionClass =>
  PolicyRule.new rule.id (change.toolName.getD rule.toolName.text) actionClass
    (change.scope.getD rule.scope.text) (change.allowed.getD rule.allowed)
    (change.reason.getD rule.reason) rule.createdBy.text who.text rule.createdAt now
    (rule.version + 1)

/-- `PolicyRule.create` on the texts of a request: the actor is checked before the class. -/
def createRule (id : Uuid) (actor toolName actionClass scope : String) (allowed : Bool)
    (reason : String) (now : Instant) : Except String PolicyRule :=
  (requireToken 128 actor "actor").bind fun who =>
  (parseActionClass actionClass).bind fun cls =>
  PolicyRule.create id toolName cls scope allowed who.text reason now

/-- The unique key of a row: tool, class and scope. -/
def PolicyRule.key (rule : PolicyRule) : String × ActionClass × String :=
  (rule.toolName.text, rule.actionClass, rule.scope.text)

/-- What a request has flushed to its transaction. -/
inductive RuleWrite where
  | add (rule : PolicyRule)
  | save (rule : PolicyRule)
  | delete (id : Uuid)

def RuleWrite.ruleId : RuleWrite → Uuid
  | .add rule => rule.id
  | .save rule => rule.id
  | .delete id => id

def RuleWrite.key : RuleWrite → Option (String × ActionClass × String)
  | .add rule => some rule.key
  | .save rule => some rule.key
  | .delete _ => none

/-- The table as the transaction of the write sees it. -/
def RuleWrite.apply (write : RuleWrite) (table : RuleTable) : RuleTable :=
  match write with
  | .add rule => table ++ [rule]
  | .save rule => table.map fun row => if row.id = rule.id then rule else row
  | .delete id => table.filter fun row => row.id ≠ id

def getRule (table : RuleTable) (id : Uuid) : Except String PolicyRule :=
  match table.find? (fun row => row.id = id) with
  | some rule => .ok rule
  | none => .error ("Policy rule '" ++ id.str ++ "' was not found.")

def requireFreeKey (table : RuleTable) (rule : PolicyRule) : Except String Unit :=
  if table.any (fun row => row.id ≠ rule.id && row.key = rule.key) then
    .error "a rule already exists for this tool, action class, and scope."
  else .ok ()

/-- An admin request of `ManageRules`. -/
inductive AdminRequest where
  | create (actor toolName actionClass scope : String) (allowed : Bool) (reason : String)
  | update (id : Uuid) (actor : String) (change : RuleChange)
  | delete (id : Uuid) (actor : String)

/-- `ManageRules.create`, `update` and `delete` up to their flush. -/
def AdminRequest.write (request : AdminRequest) (id : Uuid) (now : Instant) (table : RuleTable) :
    Except String RuleWrite :=
  match request with
  | .create actor toolName actionClass scope allowed reason =>
    (createRule id actor toolName actionClass scope allowed reason now).bind fun rule =>
    (requireFreeKey table rule).map fun _ => .add rule
  | .update id actor change =>
    (getRule table id).bind fun existing =>
    (existing.replace actor change now).bind fun rule =>
    (requireFreeKey table rule).map fun _ => .save rule
  | .delete id actor =>
    (getRule table id).bind fun existing =>
    (requireToken 128 actor "actor").map fun _ => .delete existing.id

def ruleOrder (a b : PolicyRule) : Prop :=
  toLex (a.toolName.text, toLex (a.scope.text, a.id.toNat)) ≤
    toLex (b.toolName.text, toLex (b.scope.text, b.id.toNat))

instance : DecidableRel ruleOrder := fun _ _ => inferInstanceAs (Decidable (_ ≤ _))

/-- `list_rules`: ordered by tool, scope and id. -/
def listRules (table : RuleTable) : List PolicyRule :=
  table.insertionSort ruleOrder

theorem policyRule_new_ok {id : Uuid} {toolName : String} {actionClass : ActionClass}
    {scope : String} {allowed : Bool} {reason createdBy updatedBy : String}
    {createdAt updatedAt : Instant} {version : Nat} {rule : PolicyRule}
    (h : PolicyRule.new id toolName actionClass scope allowed reason createdBy updatedBy createdAt
      updatedAt version = .ok rule) :
    rule.id = id ∧ rule.version = version ∧ rule.createdBy.text = strip createdBy := by
  unfold PolicyRule.new at h
  split at h
  · cases h
  · obtain ⟨tool, _, h⟩ := bind_ok h
    obtain ⟨where_, _, h⟩ := bind_ok h
    split at h
    · cases h
    · obtain ⟨creator, hcreator, h⟩ := bind_ok h
      obtain ⟨updater, _, h⟩ := bind_ok h
      split at h
      · cases h
      · cases h
        exact ⟨rfl, rfl, requireToken_text hcreator⟩

theorem createRule_ok {id : Uuid} {actor toolName actionClass scope reason : String}
    {allowed : Bool} {now : Instant} {rule : PolicyRule}
    (h : createRule id actor toolName actionClass scope allowed reason now = .ok rule) :
    rule.id = id ∧ rule.version = 1 := by
  obtain ⟨who, _, h⟩ := bind_ok h
  obtain ⟨cls, _, h⟩ := bind_ok h
  obtain ⟨creator, _, h⟩ := bind_ok h
  obtain ⟨hid, hversion, _⟩ := policyRule_new_ok h
  exact ⟨hid, hversion⟩

theorem replace_ok {existing rule : PolicyRule} {actor : String} {change : RuleChange}
    {now : Instant} (h : existing.replace actor change now = .ok rule) :
    rule.id = existing.id ∧ rule.version = existing.version + 1 ∧
      rule.createdBy.text = existing.createdBy.text := by
  obtain ⟨who, _, h⟩ := bind_ok h
  obtain ⟨cls, _, h⟩ := bind_ok h
  obtain ⟨hid, hversion, hcreator⟩ := policyRule_new_ok h
  exact ⟨hid, hversion, hcreator.trans existing.createdBy.stripped⟩

theorem getRule_ok {rules : RuleTable} {id : Uuid} {rule : PolicyRule}
    (h : getRule rules id = .ok rule) : rule ∈ rules ∧ rule.id = id := by
  unfold getRule at h
  split at h
  next found hfind =>
    cases h
    exact ⟨List.mem_of_find?_eq_some hfind, by simpa using List.find?_some hfind⟩
  next => cases h

theorem listRules_ne_of_mem {before after : RuleTable} {rule : PolicyRule} (hmem : rule ∈ before)
    (hnot : rule ∉ after) : listRules after ≠ listRules before := by
  intro hlists
  have hlisted : rule ∈ listRules before := (List.mem_insertionSort ruleOrder).mpr hmem
  rw [← hlists] at hlisted
  exact hnot ((List.mem_insertionSort ruleOrder).mp hlisted)

/-- An accepted request changes the rules that are listed. -/
theorem write_changes {request : AdminRequest} {id : Uuid} {now : Instant} {table : RuleTable}
    {write : RuleWrite} (h : request.write id now table = .ok write) :
    listRules (write.apply table) ≠ listRules table := by
  cases request with
  | create actor toolName actionClass scope allowed reason =>
    obtain ⟨rule, _, h⟩ := bind_ok h
    obtain ⟨_, _, rfl⟩ := map_ok h
    intro hlists
    have hlength := congrArg List.length hlists
    simp [listRules, RuleWrite.apply] at hlength
  | update ruleId actor change =>
    obtain ⟨existing, hexisting, h⟩ := bind_ok h
    obtain ⟨rule, hrule, h⟩ := bind_ok h
    obtain ⟨_, _, rfl⟩ := map_ok h
    obtain ⟨hid, hversion, _⟩ := replace_ok hrule
    refine listRules_ne_of_mem (getRule_ok hexisting).1 fun hmem => ?_
    obtain ⟨row, _, hrow⟩ := List.mem_map.mp hmem
    split at hrow
    · have hsame := congrArg PolicyRule.version hrow
      omega
    next hne => exact hne (hrow ▸ hid.symm)
  | delete ruleId actor =>
    obtain ⟨existing, hexisting, h⟩ := bind_ok h
    obtain ⟨_, _, rfl⟩ := map_ok h
    refine listRules_ne_of_mem (getRule_ok hexisting).1 fun hmem => ?_
    simp [RuleWrite.apply] at hmem

end Aegis
