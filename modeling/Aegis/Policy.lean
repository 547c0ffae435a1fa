import Aegis.GatewayDomain
import Aegis.Scalars
import Mathlib.Data.List.Sort
import Mathlib.Data.Prod.Lex
import Mathlib.Data.String.Basic

namespace Aegis

def wildcard : String := "*"

/-- A `POLICY_RULE` row the constructor of `PolicyRule` accepted. -/
structure PolicyRule where
  id : Uuid
  toolName : Token 128
  actionClass : ActionClass
  scope : Token 255
  allowed : Bool
  reason : String
  createdBy : Token 128
  updatedBy : Token 128
  createdAt : Instant
  updatedAt : Instant
  version : Nat
  reason_stripped : strip reason = reason
  reason_length : reason.length ≤ 255
  version_pos : 1 ≤ version
  destructive_denied : actionClass = .destructive → allowed = false

/-- `PolicyRule.__init__` -/
def PolicyRule.new (id : Uuid) (toolName : String) (actionClass : ActionClass) (scope : String)
    (allowed : Bool) (reason createdBy updatedBy : String) (createdAt updatedAt : Instant)
    (version : Nat) : Except String PolicyRule :=
  if hversion : version < 1 then .error "version must be at least 1."
  else
    (requireToken 128 toolName "tool_name").bind fun toolName =>
    (requireToken 255 scope "scope").bind fun scope =>
    if hreason : 255 < (strip reason).length then
      .error "reason must be at most 255 characters."
    else
      (requireToken 128 createdBy "created_by").bind fun createdBy =>
      (requireToken 128 updatedBy "updated_by").bind fun updatedBy =>
      if hclass : allowed = true ∧ actionClass = .destructive then
        .error "destructive tools cannot be allowed by a policy rule."
      else .ok {
        id, toolName, actionClass, scope, allowed, createdBy, updatedBy, createdAt, updatedAt
        version
        reason := strip reason
        reason_stripped := strip_strip reason
        reason_length := by omega
        version_pos := by omega
        destructive_denied := fun h => by simpa [h] using hclass }

/-- `PolicyRule.create` -/
def PolicyRule.create (id : Uuid) (toolName : String) (actionClass : ActionClass) (scope : String)
    (allowed : Bool) (actor reason : String) (now : Instant) : Except String PolicyRule :=
  (requireToken 128 actor "actor").bind fun who =>
    PolicyRule.new id toolName actionClass scope allowed reason who.text who.text now now 1

structure PolicyVerdict where
  allowed : Bool
  reason : String
  ruleId : Option Uuid
  actionClass : Option ActionClass
  deriving DecidableEq

/-- `_specificity`: no score means that the rule does not match. -/
def specificity (rule : PolicyRule) (toolName : String) (actionClass : Option ActionClass)
    (agentId service : String) : Option Nat :=
  if actionClass.isSome ∧ some rule.actionClass ≠ actionClass then none
  else
    let toolPoints :=
      if rule.toolName.text = toolName then some 4
      else if rule.toolName.text = wildcard then some 1
      else none
    let scopePoints :=
      if rule.scope.text = agentId then some 3
      else if service ≠ "" ∧ rule.scope.text = service then some 2
      else if rule.scope.text = wildcard then some 1
      else none
    toolPoints.bind fun tool => scopePoints.map fun scope => tool * 10 + scope

/-- `_fail_closed`: the first deny among the tied rules, else the first of them. -/
def failClosed (tied : List PolicyRule) (h : tied ≠ []) : PolicyRule :=
  match tied.filter (fun rule => !rule.allowed) with
  | denied :: _ => denied
  | [] => tied.head h

def denyReason (rule : PolicyRule) : String :=
  if rule.actionClass = .destructive then "denied:destructive"
  else if "denied:".toList.isPrefixOf rule.reason.toList then rule.reason
  else "denied:policy"

def scoredRules (rules : List PolicyRule) (toolName : String) (actionClass : Option ActionClass)
    (agentId service : String) : List (Nat × PolicyRule) :=
  rules.filterMap fun rule =>
    (specificity rule toolName actionClass agentId service).map fun score => (score, rule)

/-- The rules of the best score, in the order of the rule list. -/
def tiedRules (scored : List (Nat × PolicyRule)) (h : scored ≠ []) : List PolicyRule :=
  let best := (scored.map Prod.fst).max (by simpa using h)
  (scored.filter (fun item => item.1 = best)).map Prod.snd

theorem tiedRules_ne {scored : List (Nat × PolicyRule)} (h : scored ≠ []) :
    tiedRules scored h ≠ [] := by
  have hscores : scored.map Prod.fst ≠ [] := by simpa using h
  have hmem := List.max_mem hscores
  obtain ⟨item, hitem, hbest⟩ := List.mem_map.mp hmem
  intro hnil
  have : item.2 ∈ tiedRules scored h :=
    List.mem_map_of_mem (List.mem_filter.mpr ⟨hitem, by simpa using hbest⟩)
  rw [hnil] at this
  cases this

/-- The verdict that the winning rule gives. -/
def winnerVerdict (winner : PolicyRule) : PolicyVerdict :=
  if winner.actionClass = .destructive ∨ winner.allowed = false then
    ⟨false, denyReason winner, some winner.id, some winner.actionClass⟩
  else
    ⟨true, orElse winner.reason "allowed:policy", some winner.id, some winner.actionClass⟩

/-- `evaluate_policy`: the most specific matching rule decides, no match is deny. -/
def evaluatePolicy (rules : List PolicyRule) (toolName : String)
    (actionClass : Option ActionClass) (agentId service : String) : PolicyVerdict :=
  if actionClass = some .destructive then ⟨false, "denied:destructive", none, actionClass⟩
  else if h : scoredRules rules toolName actionClass agentId service = [] then
    ⟨false, if actionClass.isNone then "denied:unknown_tool" else "denied:default", none,
      actionClass⟩
  else winnerVerdict (failClosed (tiedRules _ h) (tiedRules_ne h))

theorem mem_scoredRules {rules : List PolicyRule} {toolName : String}
    {actionClass : Option ActionClass} {agentId service : String} {score : Nat} {rule : PolicyRule} :
    (score, rule) ∈ scoredRules rules toolName actionClass agentId service ↔
      rule ∈ rules ∧ specificity rule toolName actionClass agentId service = some score := by
  simp only [scoredRules, List.mem_filterMap, Option.map_eq_some_iff, Prod.mk.injEq]
  constructor
  · rintro ⟨r, hr, s, hs, rfl, rfl⟩
    exact ⟨hr, hs⟩
  · rintro ⟨hr, hs⟩
    exact ⟨rule, hr, score, hs, rfl, rfl⟩

/-- `pv1-` and the first twelve hexadecimal digits of a digest. -/
structure PolicyVersion where
  digits : List Char
  length_eq : digits.length = 12
  hex : ∀ c ∈ digits, isHexDigit c = true

/-- `POLICY_VERSION_PREFIX` -/
def versionPrefix : List Char := ['p', 'v', '1', '-']

def PolicyVersion.text (version : PolicyVersion) : String :=
  String.ofList (versionPrefix ++ version.digits)

def PolicyVersion.ofDigest (digest : Digest) : PolicyVersion where
  digits := digest.text.toList.take 12
  length_eq := by
    have h := digest.length_eq
    rw [List.length_take, String.length_toList]
    omega
  hex := fun c hc => digest.hex c (List.mem_of_mem_take hc)

theorem PolicyVersion.strip_text (version : PolicyVersion) : strip version.text = version.text := by
  refine strip_eq_self_of_no_space fun c hc => ?_
  rw [PolicyVersion.text, String.toList_ofList] at hc
  rcases List.mem_append.mp hc with hc | hc
  · have all : versionPrefix.all (fun c => !isSpace c) = true := by decide
    simpa using List.all_eq_true.mp all c hc
  · exact isSpace_of_isHexDigit (version.hex c hc)

theorem PolicyVersion.text_length (version : PolicyVersion) : version.text.length = 16 := by
  rw [PolicyVersion.text, String.length_ofList, List.length_append, version.length_eq]
  rfl

/-- One row of the sorted tuples that `policy_version_for` hashes. -/
abbrev VersionRow := String ×ₗ String ×ₗ String ×ₗ String ×ₗ Bool ×ₗ Nat

def versionRow (rule : PolicyRule) : VersionRow :=
  toLex (rule.id.str, toLex (rule.toolName.text, toLex (rule.actionClass.value,
    toLex (rule.scope.text, toLex (rule.allowed, rule.version)))))

def VersionRow.json (row : VersionRow) : Value :=
  match row with
  | (id, toolName, actionClass, scope, allowed, version) =>
    .list [.str id, .str toolName, .str actionClass, .str scope, .bool allowed, .int version]

/-- `policy_version_for`; `digest` is SHA-256 of the JSON text of a value. -/
def policyVersionFor (digest : Value → Digest) (rules : List PolicyRule) : PolicyVersion :=
  .ofDigest (digest (.list (((rules.map versionRow).insertionSort (· ≤ ·)).map VersionRow.json)))

/-- The process snapshot of the rules; `none` while the cache is cold. -/
structure PolicyCache where
  rules : Option (List PolicyRule)
  version : Option PolicyVersion

/-- `replace_policy_rules` -/
def replacePolicyRules (digest : Value → Digest) (rules : List PolicyRule) : PolicyCache where
  rules := some rules
  version := some (policyVersionFor digest rules)

theorem first_version : 1 ≤ 1 := le_refl 1

theorem read_not_destructive : ActionClass.read = .destructive → true = false := by decide

def seedActor : Token 128 := ⟨"system:seed", by decide, by decide, by decide⟩

/-- 2026-09-28T00:00:00+00:00 -/
def seedAt : Instant := 1790553600000000

def seedReadRule (id : Uuid) (toolName : Token 128) (reason : String)
    (reason_stripped : strip reason = reason) (reason_length : reason.length ≤ 255) :
    PolicyRule where
  id
  toolName
  actionClass := .read
  scope := ⟨wildcard, by decide, by decide, by decide⟩
  allowed := true
  reason
  createdBy := seedActor
  updatedBy := seedActor
  createdAt := seedAt
  updatedAt := seedAt
  version := 1
  reason_stripped
  reason_length
  version_pos := first_version
  destructive_denied := read_not_destructive

/-- `seed_read_rules`, as `PolicyRule.create` builds them. -/
def seedReadRules : List PolicyRule :=
  [seedReadRule 0xa1111111000040008000000000000001 knowledgeTool "seed: knowledge retrieve"
      (by decide) (by decide),
    seedReadRule 0xa1111111000040008000000000000002 signalsTool "seed: observability signals"
      (by decide) (by decide),
    seedReadRule 0xa1111111000040008000000000000003 codeSearchTool "seed: code search"
      (by decide) (by decide),
    seedReadRule 0xa1111111000040008000000000000004 deploysTool "seed: code deploys"
      (by decide) (by decide)]

/-- A tool that the registry does not know. -/
def exportTool : Token 128 := ⟨"export_users", by decide, by decide, by decide⟩

end Aegis
