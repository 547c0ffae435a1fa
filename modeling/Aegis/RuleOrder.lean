import Aegis.GatewayAuthority

namespace Aegis

variable {World : Type}

/-- The two ways in which rules get to a gateway: its constructor, or the process cache. -/
inductive RuleSource where
  | own
  | process

/-- A gateway that decides by the rules of the source, with the cache of its process. -/
def RuleSource.supply (source : RuleSource) (digest : Value → Digest) (gateway : InvokeTool World)
    (cache : PolicyCache) (rules : List PolicyRule) : InvokeTool World × PolicyCache :=
  match source with
  | .own => ({ gateway with policyRules := some rules }, cache)
  | .process => ({ gateway with policyRules := none }, replacePolicyRules digest rules)

/-- The part of a decision that the rules are asked for: the flag and the resolved class. -/
def InvokeTool.answer (services : Services) (gateway : InvokeTool World) (denyAll : Bool)
    (cache : PolicyCache) (request : ToolInvokeRequest) (world : World) :
    Bool × Option ActionClass :=
  let decision := (gateway.decide services denyAll cache request (classify request.toolName)
    world).decision
  (decision.allowed, decision.actionClass)

/-- The tied rules among which list position decides: those that deny, if any does. -/
def deciders (rules : List PolicyRule) (toolName : String) (actionClass : Option ActionClass)
    (agentId service : String) : List PolicyRule :=
  if h : scoredRules rules toolName actionClass agentId service = [] then []
  else
    let tied := tiedRules _ h
    let denies := tied.filter fun rule => !rule.allowed
    if denies = [] then tied else denies

/-- The gateway refuses the call before it looks at its rules, or the registry knows the class
of the tool. -/
def InvokeTool.ClassKnown (gateway : InvokeTool World) (denyAll : Bool)
    (request : ToolInvokeRequest) : Prop :=
  denyAll = true ∨ parseAgentIdentity (gateway.callerIdentity request) = none ∨
    classify request.toolName ≠ none

/-- The class of the tool is known without the rules, or the rules that may decide agree on it. -/
def OneClassDecides (gateway : InvokeTool World) (denyAll : Bool) (request : ToolInvokeRequest)
    (rules : List PolicyRule) : Prop :=
  gateway.ClassKnown denyAll request ∨
    ∀ a ∈ deciders rules request.toolName none (gateway.callerIdentity request)
        ((Fields.get (toolParameters request) "service").strOr ""),
      ∀ b ∈ deciders rules request.toolName none (gateway.callerIdentity request)
          ((Fields.get (toolParameters request) "service").strOr ""),
        a.actionClass = b.actionClass

section Deciders

variable {rules other : List PolicyRule} {toolName agentId service : String}
  {actionClass : Option ActionClass}

theorem scoredRules_perm (h : other.Perm rules) (toolName : String)
    (actionClass : Option ActionClass) (agentId service : String) :
    (scoredRules other toolName actionClass agentId service).Perm
      (scoredRules rules toolName actionClass agentId service) :=
  h.filterMap _

/-- The best score does not depend on the order of the scores. -/
theorem max_of_perm {xs ys : List Nat} (h : xs.Perm ys) (hx : xs ≠ []) (hy : ys ≠ []) :
    xs.max hx = ys.max hy := by
  apply Nat.le_antisymm
  · exact List.le_max_of_mem (h.mem_iff.mp (List.max_mem hx))
  · exact List.le_max_of_mem (h.mem_iff.mpr (List.max_mem hy))

theorem tiedRules_perm {xs ys : List (Nat × PolicyRule)} (h : xs.Perm ys) (hx : xs ≠ [])
    (hy : ys ≠ []) : (tiedRules xs hx).Perm (tiedRules ys hy) := by
  unfold tiedRules
  rw [max_of_perm (h.map Prod.fst) (by simpa using hx) (by simpa using hy)]
  exact (h.filter _).map _

theorem deciders_perm (h : other.Perm rules) :
    (deciders other toolName actionClass agentId service).Perm
      (deciders rules toolName actionClass agentId service) := by
  have scored := scoredRules_perm h toolName actionClass agentId service
  unfold deciders
  by_cases hnone : scoredRules rules toolName actionClass agentId service = []
  · rw [dif_pos hnone, dif_pos (List.Perm.eq_nil (hnone ▸ scored))]
  have hother : scoredRules other toolName actionClass agentId service ≠ [] := fun hnil =>
    hnone (List.Perm.eq_nil (by rw [← hnil]; exact scored.symm))
  rw [dif_neg hnone, dif_neg hother]
  have tied := tiedRules_perm scored hother hnone
  have denies := tied.filter fun rule => !rule.allowed
  dsimp only
  by_cases hdeny : (tiedRules _ hnone).filter (fun rule => !rule.allowed) = []
  · rw [if_pos hdeny, if_pos (List.Perm.eq_nil (hdeny ▸ denies))]
    exact tied
  · rw [if_neg hdeny, if_neg fun hnil : _ = [] => hdeny (List.Perm.eq_nil (hnil ▸ denies.symm))]
    exact denies

theorem failClosed_eq_head {tied : List PolicyRule} (h : tied ≠ []) :
    (if tied.filter (fun rule => !rule.allowed) = [] then tied
      else tied.filter fun rule => !rule.allowed).head? = some (failClosed tied h) := by
  unfold failClosed
  split
  next hdeny =>
    rw [hdeny]
    exact List.head?_eq_some_head h
  next hdeny =>
    split
    next denied rest heq => rw [heq]; rfl
    next heq => exact absurd heq hdeny

theorem evaluatePolicy_eq (h : actionClass ≠ some .destructive) :
    evaluatePolicy rules toolName actionClass agentId service =
      match (deciders rules toolName actionClass agentId service).head? with
      | some winner => winnerVerdict winner
      | none => ⟨false, if actionClass.isNone then "denied:unknown_tool" else "denied:default",
          none, actionClass⟩ := by
  unfold evaluatePolicy deciders
  rw [if_neg h]
  by_cases hscored : scoredRules rules toolName actionClass agentId service = []
  · rw [dif_pos hscored, dif_pos hscored]
    rfl
  · rw [dif_neg hscored, dif_neg hscored, failClosed_eq_head (tiedRules_ne hscored)]

theorem deciders_allowed {a b : PolicyRule}
    (ha : a ∈ deciders rules toolName actionClass agentId service)
    (hb : b ∈ deciders rules toolName actionClass agentId service) : a.allowed = b.allowed := by
  unfold deciders at ha hb
  split at ha
  · cases ha
  next hscored =>
    rw [dif_neg hscored] at hb
    dsimp only at ha hb
    split at ha
    next hnone =>
      rw [if_pos hnone] at hb
      have allowed := List.filter_eq_nil_iff.mp hnone
      have ha := allowed a ha
      have hb := allowed b hb
      simp only [Bool.not_eq_true, Bool.not_eq_false'] at ha hb
      rw [ha, hb]
    next hsome =>
      rw [if_neg hsome] at hb
      have ha := (List.mem_filter.mp ha).2
      have hb := (List.mem_filter.mp hb).2
      simp only [Bool.not_eq_true'] at ha hb
      rw [ha, hb]

/-- No rule that matches the call is more specific than this one. -/
def MostSpecific (rules : List PolicyRule) (toolName : String) (actionClass : Option ActionClass)
    (agentId service : String) (rule : PolicyRule) : Prop :=
  ∃ best, specificity rule toolName actionClass agentId service = some best ∧
    ∀ other ∈ rules, ∀ score, specificity other toolName actionClass agentId service = some score →
      score ≤ best

theorem score_le_max {rule : PolicyRule} {score : Nat}
    (scored : (scoredRules rules toolName actionClass agentId service).map Prod.fst ≠ [])
    (hrule : rule ∈ rules)
    (hmatch : specificity rule toolName actionClass agentId service = some score) :
    score ≤ ((scoredRules rules toolName actionClass agentId service).map Prod.fst).max scored := by
  have hmem := mem_scoredRules.mpr ⟨hrule, hmatch⟩
  have hscore : score ∈ (scoredRules rules toolName actionClass agentId service).map Prod.fst :=
    List.mem_map.mpr ⟨(score, rule), hmem, rfl⟩
  exact List.le_max_of_mem hscore

/-- The rules that may decide are most specific, and they deny if a most specific rule does. -/
theorem mem_deciders {a : PolicyRule} :
    a ∈ deciders rules toolName actionClass agentId service ↔
      a ∈ rules ∧ MostSpecific rules toolName actionClass agentId service a ∧
        (a.allowed = true → ∀ b ∈ rules,
          MostSpecific rules toolName actionClass agentId service b → b.allowed = true) := by
  unfold deciders
  by_cases hscored : scoredRules rules toolName actionClass agentId service = []
  · rw [dif_pos hscored]
    refine iff_of_false (by simp) ?_
    rintro ⟨hrule, ⟨best, hbest, _⟩, _⟩
    have := mem_scoredRules.mpr ⟨hrule, hbest⟩
    rw [hscored] at this
    cases this
  rw [dif_neg hscored]
  have hscores : (scoredRules rules toolName actionClass agentId service).map Prod.fst ≠ [] := by
    simpa using hscored
  have tied : ∀ b, b ∈ tiedRules _ hscored ↔
      b ∈ rules ∧ MostSpecific rules toolName actionClass agentId service b := by
    intro b
    unfold tiedRules
    dsimp only
    constructor
    · intro hb
      obtain ⟨item, hitem, rfl⟩ := List.mem_map.mp hb
      obtain ⟨hmem, hbest⟩ := List.mem_filter.mp hitem
      obtain ⟨hrule, hscore⟩ := mem_scoredRules.mp hmem
      refine ⟨hrule, _, hscore, fun other hother score hmatch => ?_⟩
      rw [of_decide_eq_true hbest]
      exact score_le_max hscores hother hmatch
    · rintro ⟨hrule, best, hscore, hmost⟩
      have hmem := mem_scoredRules.mpr ⟨hrule, hscore⟩
      obtain ⟨item, hitem, hmax⟩ := List.mem_map.mp (List.max_mem hscores)
      obtain ⟨hother, hmatch⟩ := mem_scoredRules.mp hitem
      have hle := hmost item.2 hother item.1 hmatch
      have hge := score_le_max hscores hrule hscore
      refine List.mem_map.mpr ⟨(best, b), List.mem_filter.mpr ⟨hmem, ?_⟩, rfl⟩
      exact decide_eq_true (by omega)
  dsimp only
  split
  next hnone =>
    have allowed : ∀ b ∈ tiedRules _ hscored, b.allowed = true := by
      simpa [List.filter_eq_nil_iff] using hnone
    rw [tied]
    exact ⟨fun ha => ⟨ha.1, ha.2, fun _ b hb hmost => allowed b ((tied b).mpr ⟨hb, hmost⟩)⟩,
      fun ha => ⟨ha.1, ha.2.1⟩⟩
  next hsome =>
    obtain ⟨d, hd⟩ := List.exists_mem_of_ne_nil _ hsome
    obtain ⟨hdtied, hdenies⟩ := List.mem_filter.mp hd
    rw [List.mem_filter, tied]
    constructor
    · rintro ⟨⟨hrule, hmost⟩, hdeny⟩
      exact ⟨hrule, hmost, fun hallow => by simp [hallow] at hdeny⟩
    · rintro ⟨hrule, hmost, hall⟩
      refine ⟨⟨hrule, hmost⟩, ?_⟩
      cases hallow : a.allowed with
      | false => rfl
      | true =>
        have := hall hallow d ((tied d).mp hdtied).1 ((tied d).mp hdtied).2
        rw [this] at hdenies
        cases hdenies

theorem winnerVerdict_flag (winner : PolicyRule) :
    (winnerVerdict winner).allowed = winner.allowed ∧
      (winnerVerdict winner).actionClass = some winner.actionClass := by
  unfold winnerVerdict
  split
  next hdeny =>
    refine ⟨?_, rfl⟩
    rcases hdeny with hclass | hdeny
    · exact (winner.destructive_denied hclass).symm
    · exact hdeny.symm
  next hallow =>
    refine ⟨?_, rfl⟩
    simpa using (not_or.mp hallow).2

/-- Every allow rule that matches the call is matched by a deny rule that is as specific. -/
def Denies (rules : List PolicyRule) (toolName : String) (actionClass : Option ActionClass)
    (agentId service : String) : Prop :=
  ∀ rule ∈ rules, rule.allowed = true →
    ∀ score, specificity rule toolName actionClass agentId service = some score →
      ∃ deny ∈ rules, deny.allowed = false ∧
        ∃ more, specificity deny toolName actionClass agentId service = some more ∧ score ≤ more

theorem exists_mostSpecific {rule : PolicyRule} {score : Nat} (hrule : rule ∈ rules)
    (hmatch : specificity rule toolName actionClass agentId service = some score) :
    ∃ a ∈ rules, MostSpecific rules toolName actionClass agentId service a := by
  have hmem := mem_scoredRules.mpr ⟨hrule, hmatch⟩
  have hscores : (scoredRules rules toolName actionClass agentId service).map Prod.fst ≠ [] := by
    intro hnil
    rw [List.map_eq_nil_iff.mp hnil] at hmem
    cases hmem
  obtain ⟨item, hitem, hmax⟩ := List.mem_map.mp (List.max_mem hscores)
  obtain ⟨hbest, hscore⟩ := mem_scoredRules.mp hitem
  refine ⟨item.2, hbest, item.1, hscore, fun other hother more hmore => ?_⟩
  rw [hmax]
  exact score_le_max hscores hother hmore

/-- The rules refuse a call exactly when a deny rule stands against each allow rule. -/
theorem evaluatePolicy_denied_iff (h : actionClass ≠ some .destructive) :
    (evaluatePolicy rules toolName actionClass agentId service).allowed = false ↔
      Denies rules toolName actionClass agentId service := by
  rw [evaluatePolicy_eq h]
  cases hhead : (deciders rules toolName actionClass agentId service).head? with
  | none =>
    refine iff_of_true rfl fun rule hrule hallow score hmatch => ?_
    obtain ⟨a, ha, hmost⟩ := exists_mostSpecific hrule hmatch
    have hnil := List.head?_eq_none_iff.mp hhead
    have none_ : ∀ b, b ∉ deciders rules toolName actionClass agentId service := by simp [hnil]
    by_cases hall : ∀ b ∈ rules,
        MostSpecific rules toolName actionClass agentId service b → b.allowed = true
    · exact absurd (mem_deciders.mpr ⟨ha, hmost, fun _ => hall⟩) (none_ a)
    · push Not at hall
      obtain ⟨b, hb, hbmost, hdeny⟩ := hall
      exact absurd (mem_deciders.mpr ⟨hb, hbmost, fun hallow => absurd hallow hdeny⟩) (none_ b)
  | some winner =>
    obtain ⟨hrule, ⟨best, hbest, hmost⟩, hall⟩ := mem_deciders.mp (List.mem_of_head? hhead)
    change (winnerVerdict winner).allowed = false ↔ _
    rw [(winnerVerdict_flag winner).1]
    constructor
    · intro hdeny rule hmem _ score hmatch
      exact ⟨winner, hrule, hdeny, best, hbest, hmost rule hmem score hmatch⟩
    · intro denies
      by_contra hallow
      rw [Bool.not_eq_false] at hallow
      obtain ⟨deny, hmem, hdeny, more, hmatch, hle⟩ := denies winner hrule hallow best hbest
      have hdenyMost : MostSpecific rules toolName actionClass agentId service deny :=
        ⟨more, hmatch, fun other hother score hscore =>
          Nat.le_trans (hmost other hother score hscore) hle⟩
      rw [hall hallow deny hmem hdenyMost] at hdeny
      cases hdeny

/-- What the rules that may decide agree on does not depend on the order of the rules. -/
theorem verdict_perm {Answer : Type} (answer : PolicyVerdict → Answer)
    (hclass : actionClass ≠ some .destructive)
    (agree : ∀ a ∈ deciders rules toolName actionClass agentId service,
      ∀ b ∈ deciders rules toolName actionClass agentId service,
        answer (winnerVerdict a) = answer (winnerVerdict b)) (h : other.Perm rules) :
    answer (evaluatePolicy other toolName actionClass agentId service) =
      answer (evaluatePolicy rules toolName actionClass agentId service) := by
  have perm := @deciders_perm rules other toolName agentId service actionClass h
  rw [evaluatePolicy_eq hclass, evaluatePolicy_eq hclass]
  cases hother : deciders other toolName actionClass agentId service with
  | nil =>
    rw [hother] at perm
    rw [List.Perm.nil_eq perm]
  | cons a s =>
    cases hrules : deciders rules toolName actionClass agentId service with
    | nil =>
      rw [hother, hrules] at perm
      cases List.Perm.eq_nil perm
    | cons b t =>
      have ha : a ∈ deciders rules toolName actionClass agentId service :=
        perm.mem_iff.mp (hother ▸ List.mem_cons_self)
      have hb : b ∈ deciders rules toolName actionClass agentId service :=
        hrules ▸ List.mem_cons_self
      exact agree a ha b hb

theorem evaluatePolicy_allowed_perm (h : other.Perm rules) :
    (evaluatePolicy other toolName actionClass agentId service).allowed =
      (evaluatePolicy rules toolName actionClass agentId service).allowed := by
  by_cases hclass : actionClass = some .destructive
  · unfold evaluatePolicy
    rw [if_pos hclass, if_pos hclass]
  refine verdict_perm PolicyVerdict.allowed hclass (fun a ha b hb => ?_) h
  rw [(winnerVerdict_flag a).1, (winnerVerdict_flag b).1, deciders_allowed ha hb]

theorem tied_eq_filter (rules : List PolicyRule) (toolName : String)
    (actionClass : Option ActionClass) (agentId service : String) (best : Nat) :
    ((scoredRules rules toolName actionClass agentId service).filter
        fun item => item.1 = best).map Prod.snd =
      rules.filter fun rule => specificity rule toolName actionClass agentId service = some best := by
  unfold scoredRules
  induction rules with
  | nil => rfl
  | cons rule rules ih =>
    cases hscore : specificity rule toolName actionClass agentId service with
    | none => simp [hscore, ih]
    | some score =>
      by_cases hbest : score = best
      · simp [hscore, hbest, ih]
      · simp [hscore, hbest, ih]

theorem deciders_eq_filter (rules : List PolicyRule) (toolName : String)
    (actionClass : Option ActionClass) (agentId service : String) :
    ∃ p, deciders rules toolName actionClass agentId service = rules.filter p := by
  unfold deciders
  split
  · exact ⟨fun _ => false, by simp⟩
  · unfold tiedRules
    dsimp only
    rw [tied_eq_filter]
    split
    · exact ⟨_, rfl⟩
    · exact ⟨_, List.filter_filter ..⟩

theorem decider_first {a : PolicyRule}
    (ha : a ∈ deciders rules toolName actionClass agentId service) :
    ∃ other, other.Perm rules ∧
      (deciders other toolName actionClass agentId service).head? = some a := by
  have hrule : a ∈ rules := by
    obtain ⟨p, hp⟩ := deciders_eq_filter rules toolName actionClass agentId service
    rw [hp] at ha
    exact (List.mem_filter.mp ha).1
  obtain ⟨s, t, rfl⟩ := List.append_of_mem hrule
  have perm : (a :: (s ++ t)).Perm (s ++ a :: t) := List.perm_middle.symm
  refine ⟨a :: (s ++ t), perm, ?_⟩
  have hmem := (@deciders_perm _ _ toolName agentId service actionClass perm).mem_iff.mpr ha
  obtain ⟨p, hp⟩ := deciders_eq_filter (a :: (s ++ t)) toolName actionClass agentId service
  rw [hp] at hmem ⊢
  rw [List.filter_cons_of_pos (List.mem_filter.mp hmem).2]
  rfl

end Deciders

theorem policyVersionFor_perm (digest : Value → Digest) {rules other : List PolicyRule}
    (h : other.Perm rules) : policyVersionFor digest other = policyVersionFor digest rules := by
  have rows : (other.map versionRow).insertionSort (· ≤ ·) =
      (rules.map versionRow).insertionSort (· ≤ ·) :=
    List.Perm.eq_of_pairwise' (List.pairwise_insertionSort (· ≤ ·) _)
      (List.pairwise_insertionSort (· ≤ ·) _)
      (((List.perm_insertionSort _ _).trans (h.map versionRow)).trans
        (List.perm_insertionSort _ _).symm)
  rw [policyVersionFor, policyVersionFor, rows]

section Answer

variable {services : Services} {gateway gateway' : InvokeTool World} {denyAll : Bool}
  {cache cache' : PolicyCache} {request : ToolInvokeRequest} {world : World}
  {source : RuleSource}

theorem supply_activeRules (source : RuleSource) (digest : Value → Digest)
    (gateway : InvokeTool World) (cache : PolicyCache) (rules : List PolicyRule) :
    (source.supply digest gateway cache rules).1.activeRules
      (source.supply digest gateway cache rules).2 = rules := by
  cases source <;> rfl

theorem supply_callerIdentity (source : RuleSource) (digest : Value → Digest)
    (gateway : InvokeTool World) (cache : PolicyCache) (rules : List PolicyRule)
    (request : ToolInvokeRequest) :
    (source.supply digest gateway cache rules).1.callerIdentity request =
      gateway.callerIdentity request := by
  cases source <;> rfl

@[simp] theorem refuse_allowed (gateway : InvokeTool World) (request : ToolInvokeRequest)
    (reason : String) (actionClass : Option ActionClass) (approval : Bool) (world : World) :
    (gateway.refuse request reason actionClass approval world).decision.allowed = false := rfl

@[simp] theorem refuse_actionClass (gateway : InvokeTool World) (request : ToolInvokeRequest)
    (reason : String) (actionClass : Option ActionClass) (approval : Bool) (world : World) :
    (gateway.refuse request reason actionClass approval world).decision.actionClass =
      actionClass := rfl

theorem answer_congr (tools : gateway'.tools = gateway.tools)
    (caller : gateway'.callerIdentity request = gateway.callerIdentity request)
    (limiter : gateway'.rateLimiter = gateway.rateLimiter)
    (allowed : (gateway'.verdict cache' request (classify request.toolName)).allowed =
      (gateway.verdict cache request (classify request.toolName)).allowed)
    (resolved : gateway'.resolvedClass cache' request (classify request.toolName) =
      gateway.resolvedClass cache request (classify request.toolName)) :
    gateway'.answer services denyAll cache' request world =
      gateway.answer services denyAll cache request world := by
  have pace : gateway'.pace request world = gateway.pace request world := by
    rw [InvokeTool.pace, InvokeTool.pace, limiter, caller]
  have run : ∀ resolved, (gateway'.paceAndRun services request resolved world).decision =
      (gateway.paceAndRun services request resolved world).decision := by
    intro resolved
    unfold InvokeTool.paceAndRun
    rw [tools, pace]
    unfold InvokeTool.run InvokeTool.refuse
    rw [caller]
  unfold InvokeTool.answer InvokeTool.decide
  rw [caller, allowed, resolved]
  split
  · simp only [refuse_allowed, refuse_actionClass]
  split
  · simp only [refuse_allowed, refuse_actionClass]
  split
  · simp only [refuse_allowed, refuse_actionClass]
  split
  · simp only [refuse_allowed, refuse_actionClass]
  split
  · simp only [refuse_allowed, refuse_actionClass]
  split
  · simp only [refuse_allowed, refuse_actionClass]
  split
  · rw [run]
  · simp only [refuse_allowed, refuse_actionClass]

theorem answer_class (open_ : denyAll = false)
    (known : parseAgentIdentity (gateway.callerIdentity request) ≠ none)
    (unclassified : classify request.toolName = none) :
    (gateway.answer services denyAll cache request world).2 =
      (gateway.verdict cache request none).actionClass := by
  have run : ∀ resolved, (gateway.paceAndRun services request resolved world).decision.actionClass =
      resolved := by
    intro resolved
    unfold InvokeTool.paceAndRun
    split
    next hread =>
      rw [hread]
      split
      · rw [refuse_actionClass]
      · split
        · unfold InvokeTool.run
          dsimp only
          split <;> rfl
        · rw [refuse_actionClass]
    · rw [refuse_actionClass]
  unfold InvokeTool.answer InvokeTool.decide
  simp only [open_, Bool.false_eq_true, if_false, known, unclassified, reduceCtorEq,
    Option.isSome_none, false_and, InvokeTool.resolvedClass, Option.none_or]
  split
  · exact run _
  · rw [refuse_actionClass]

theorem answer_refused (h : denyAll = true ∨
    parseAgentIdentity (gateway.callerIdentity request) = none) :
    gateway.answer services denyAll cache request world = (false, classify request.toolName) := by
  unfold InvokeTool.answer InvokeTool.decide
  rcases h with hdenied | hunknown
  · simp only [if_pos hdenied, refuse_allowed, refuse_actionClass]
  · rw [if_pos hunknown]
    split <;> simp only [refuse_allowed, refuse_actionClass]

theorem supply_verdict (source : RuleSource) (digest : Value → Digest) (gateway : InvokeTool World)
    (cache : PolicyCache) (rules : List PolicyRule) (request : ToolInvokeRequest)
    (actionClass : Option ActionClass) :
    (source.supply digest gateway cache rules).1.verdict
        (source.supply digest gateway cache rules).2 request actionClass =
      evaluatePolicy rules request.toolName actionClass (gateway.callerIdentity request)
        ((Fields.get (toolParameters request) "service").strOr "") := by
  rw [InvokeTool.verdict, supply_activeRules, supply_callerIdentity]

theorem verdict_class_perm {rules other : List PolicyRule} {toolName agentId service : String}
    (agree : ∀ a ∈ deciders rules toolName none agentId service,
      ∀ b ∈ deciders rules toolName none agentId service, a.actionClass = b.actionClass)
    (h : other.Perm rules) :
    (evaluatePolicy other toolName none agentId service).actionClass =
      (evaluatePolicy rules toolName none agentId service).actionClass := by
  refine verdict_perm PolicyVerdict.actionClass (by simp) (fun a ha b hb => ?_) h
  rw [(winnerVerdict_flag a).2, (winnerVerdict_flag b).2, agree a ha b hb]

end Answer

/-- The answer of a gateway is the same under every order of its rules exactly when it knows the
class of the tool without them, or the rules that may decide agree on that class. The version of
the rules is always the same. -/
theorem answer_perm_iff (services : Services) (gateway : InvokeTool World) (denyAll : Bool)
    (cache : PolicyCache) (request : ToolInvokeRequest) (world : World) (source : RuleSource)
    (rules : List PolicyRule) :
    (∀ other : List PolicyRule, other.Perm rules →
      policyVersionFor services.digest other = policyVersionFor services.digest rules ∧
      (source.supply services.digest gateway cache other).1.answer services denyAll
          (source.supply services.digest gateway cache other).2 request world =
        (source.supply services.digest gateway cache rules).1.answer services denyAll
          (source.supply services.digest gateway cache rules).2 request world) ↔
      OneClassDecides gateway denyAll request rules := by
  constructor
  · intro same
    by_cases hknown : gateway.ClassKnown denyAll request
    · exact .inl hknown
    obtain ⟨hopen, hagent, hclass⟩ := not_or.mp hknown |>.imp id not_or.mp
    rw [not_not] at hclass
    -- a decider that comes first gives its class to the answer
    have first : ∀ a ∈ deciders rules request.toolName none (gateway.callerIdentity request)
          ((Fields.get (toolParameters request) "service").strOr ""),
        ((source.supply services.digest gateway cache rules).1.answer services denyAll
          (source.supply services.digest gateway cache rules).2 request world).2 =
          some a.actionClass := by
      intro a ha
      obtain ⟨other, hperm, hhead⟩ := decider_first ha
      rw [← (same other hperm).2, answer_class (by simpa using hopen)
        (by rw [supply_callerIdentity]; exact hagent) hclass, supply_verdict,
        evaluatePolicy_eq (by simp), hhead]
      exact (winnerVerdict_flag a).2
    refine .inr fun a ha b hb => ?_
    exact Option.some.inj ((first a ha).symm.trans (first b hb))
  · intro cond other hperm
    refine ⟨policyVersionFor_perm services.digest hperm, ?_⟩
    have congr : (evaluatePolicy other request.toolName (classify request.toolName)
          (gateway.callerIdentity request)
          ((Fields.get (toolParameters request) "service").strOr "")).actionClass =
        (evaluatePolicy rules request.toolName (classify request.toolName)
          (gateway.callerIdentity request)
          ((Fields.get (toolParameters request) "service").strOr "")).actionClass ∨
        classify request.toolName ≠ none →
        (source.supply services.digest gateway cache other).1.answer services denyAll
          (source.supply services.digest gateway cache other).2 request world =
        (source.supply services.digest gateway cache rules).1.answer services denyAll
          (source.supply services.digest gateway cache rules).2 request world := by
      intro hclass
      refine answer_congr (by cases source <;> rfl)
        (by rw [supply_callerIdentity, supply_callerIdentity]) (by cases source <;> rfl) ?_ ?_
      · rw [supply_verdict, supply_verdict]
        exact evaluatePolicy_allowed_perm hperm
      · rw [InvokeTool.resolvedClass, InvokeTool.resolvedClass, supply_verdict, supply_verdict]
        rcases hclass with hsame | hsome
        · rw [hsame]
        · obtain ⟨cls, hcls⟩ := Option.ne_none_iff_exists'.mp hsome
          rw [hcls, Option.some_or, Option.some_or]
    rcases cond with (hdenied | hunknown | hclass) | hagree
    · rw [answer_refused (.inl hdenied), answer_refused (.inl hdenied)]
    · rw [answer_refused (.inr (by rw [supply_callerIdentity]; exact hunknown)),
        answer_refused (.inr (by rw [supply_callerIdentity]; exact hunknown))]
    · exact congr (.inr hclass)
    · by_cases hclass : classify request.toolName = none
      · exact congr (.inl (by rw [hclass]; exact verdict_class_perm hagree hperm))
      · exact congr (.inr hclass)

/-- Two allow rules of one tool and scope, for different classes. -/
def splitRules : List PolicyRule :=
  [exportRule,
    { exportRule with id := 6, actionClass := .lowRiskWrite, destructive_denied := by decide }]

/-- In one order the gateway calls the tool, in the other it refuses the call. -/
theorem rule_order_decides : ¬∀ (services : Services) (gateway : InvokeTool MemoryTokenBucket)
    (denyAll : Bool) (cache : PolicyCache) (request : ToolInvokeRequest)
    (world : MemoryTokenBucket) (source : RuleSource) (rules other : List PolicyRule),
    other.Perm rules →
    (source.supply services.digest gateway cache other).1.answer services denyAll
        (source.supply services.digest gateway cache other).2 request world =
      (source.supply services.digest gateway cache rules).1.answer services denyAll
        (source.supply services.digest gateway cache rules).2 request world := by
  intro h
  have := h ⟨fun _ => .genesis, fun text => ⟨text, 0⟩⟩ exportGateway false ⟨none, none⟩ exportRequest
    ⟨[], fun _ => 0⟩ .own splitRules splitRules.reverse (List.reverse_perm _)
  revert this
  decide

end Aegis
