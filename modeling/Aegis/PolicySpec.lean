import Aegis.RuleOrder

namespace Aegis

/-- A rule of the class whose tool and scope fit the call. -/
structure PolicyRule.Applies (rule : PolicyRule) (toolName : String) (actionClass : ActionClass)
    (agentId service : String) : Prop where
  ofClass : rule.actionClass = actionClass
  tool : rule.toolName.text = toolName ∨ rule.toolName.text = wildcard
  scope : rule.scope.text = agentId ∨ (service ≠ "" ∧ rule.scope.text = service) ∨
    rule.scope.text = wildcard

/-- How narrowly a rule names the call: by its tool first, then by its agent, then by its
service. A rule that names none of them does it by wildcards. -/
def PolicyRule.precision (rule : PolicyRule) (toolName agentId service : String) :
    Bool ×ₗ Bool ×ₗ Bool :=
  toLex (decide (rule.toolName.text = toolName), toLex (decide (rule.scope.text = agentId),
    decide (service ≠ "" ∧ rule.scope.text = service)))

/-- A rule that applies, and none that applies is more precise. -/
structure MostPrecise (rules : List PolicyRule) (toolName : String) (actionClass : ActionClass)
    (agentId service : String) (rule : PolicyRule) : Prop where
  mem : rule ∈ rules
  applies : rule.Applies toolName actionClass agentId service
  most : ∀ other ∈ rules, other.Applies toolName actionClass agentId service →
    other.precision toolName agentId service ≤ rule.precision toolName agentId service

section Scores

variable {rules : List PolicyRule} {rule other : PolicyRule} {toolName agentId service : String}
  {actionClass : ActionClass}

/-- The score that a rule gets for naming the tool, the agent and the service. -/
def points (tool agent service : Bool) : Nat :=
  (if tool then 4 else 1) * 10 + if agent then 3 else if service then 2 else 1

/-- Scores are ordered as the precisions are, when a shared agent means a shared service. -/
theorem points_le_iff {t a s t' a' s' : Bool} (h : a = true → a' = true → s = s') :
    points t a s ≤ points t' a' s' ↔
      (toLex (t, toLex (a, s)) : Bool ×ₗ Bool ×ₗ Bool) ≤ toLex (t', toLex (a', s')) := by
  revert h
  revert t a s t' a' s'
  decide

theorem specificity_of_applies (h : rule.Applies toolName actionClass agentId service) :
    specificity rule toolName (some actionClass) agentId service =
      some (points (decide (rule.toolName.text = toolName)) (decide (rule.scope.text = agentId))
        (decide (service ≠ "" ∧ rule.scope.text = service))) := by
  have hclass : ¬((some actionClass).isSome = true ∧ some rule.actionClass ≠ some actionClass) :=
    fun hne => hne.2 (congrArg some h.ofClass)
  have htool : (if rule.toolName.text = toolName then some 4
      else if rule.toolName.text = wildcard then some 1 else none) =
      some (if rule.toolName.text = toolName then 4 else 1) := by
    by_cases hexact : rule.toolName.text = toolName
    · rw [if_pos hexact, if_pos hexact]
    · rw [if_neg hexact, if_neg hexact, if_pos (h.tool.resolve_left hexact)]
  have hscope : (if rule.scope.text = agentId then some 3
      else if service ≠ "" ∧ rule.scope.text = service then some 2
      else if rule.scope.text = wildcard then some 1 else none) =
      some (if rule.scope.text = agentId then 3
        else if service ≠ "" ∧ rule.scope.text = service then 2 else 1) := by
    by_cases hagent : rule.scope.text = agentId
    · rw [if_pos hagent, if_pos hagent]
    · by_cases hservice : service ≠ "" ∧ rule.scope.text = service
      · rw [if_neg hagent, if_neg hagent, if_pos hservice, if_pos hservice]
      · rw [if_neg hagent, if_neg hagent, if_neg hservice, if_neg hservice,
          if_pos ((h.scope.resolve_left hagent).resolve_left hservice)]
  rw [specificity, if_neg hclass]
  dsimp only
  rw [htool, hscope]
  simp only [Option.bind_some, Option.map_some, points, decide_eq_true_eq]

theorem applies_of_specificity {score : Nat}
    (h : specificity rule toolName (some actionClass) agentId service = some score) :
    rule.Applies toolName actionClass agentId service := by
  unfold specificity at h
  split at h
  · cases h
  next hclass =>
    obtain ⟨tool, htool, h⟩ := Option.bind_eq_some_iff.mp h
    obtain ⟨scope, hscope, _⟩ := Option.map_eq_some_iff.mp h
    refine ⟨?_, ?_, ?_⟩
    · by_contra hne
      exact hclass ⟨rfl, fun heq => hne (Option.some.inj heq)⟩
    · split at htool
      next hexact => exact .inl hexact
      next =>
        split at htool
        next hwildcard => exact .inr hwildcard
        · cases htool
    · split at hscope
      next hagent => exact .inl hagent
      next =>
        split at hscope
        next hservice => exact .inr (.inl hservice)
        next =>
          split at hscope
          next hwildcard => exact .inr (.inr hwildcard)
          · cases hscope

/-- Of two rules that apply, the score of one is at most that of the other exactly when it is at
most as precise. -/
theorem score_le_iff {score score' : Nat}
    (h : specificity rule toolName (some actionClass) agentId service = some score)
    (h' : specificity other toolName (some actionClass) agentId service = some score') :
    score ≤ score' ↔
      rule.precision toolName agentId service ≤ other.precision toolName agentId service := by
  rw [specificity_of_applies (applies_of_specificity h)] at h
  rw [specificity_of_applies (applies_of_specificity h')] at h'
  rw [← Option.some.inj h, ← Option.some.inj h']
  refine points_le_iff fun hagent hagent' => ?_
  rw [of_decide_eq_true hagent, of_decide_eq_true hagent']

theorem mem_tiedRules (h : scoredRules rules toolName (some actionClass) agentId service ≠ []) :
    rule ∈ tiedRules _ h ↔ MostPrecise rules toolName actionClass agentId service rule := by
  unfold tiedRules
  constructor
  · intro hrule
    obtain ⟨⟨score, winner⟩, hwinner, rfl⟩ := List.mem_map.mp hrule
    obtain ⟨hmem, hbest⟩ := List.mem_filter.mp hwinner
    obtain ⟨hlisted, hscore⟩ := mem_scoredRules.mp hmem
    refine ⟨hlisted, applies_of_specificity hscore, fun other hother happlies => ?_⟩
    have hother' := specificity_of_applies happlies
    refine (score_le_iff hother' hscore).mp ?_
    have hle := List.le_max_of_mem (List.mem_map_of_mem (f := Prod.fst)
      (mem_scoredRules.mpr ⟨hother, hother'⟩))
    exact hle.trans (of_decide_eq_true hbest).ge
  · intro hmost
    have hscore := specificity_of_applies hmost.applies
    have hmem := mem_scoredRules.mpr ⟨hmost.mem, hscore⟩
    refine List.mem_map.mpr ⟨_, List.mem_filter.mpr ⟨hmem, decide_eq_true ?_⟩, rfl⟩
    refine le_antisymm (List.le_max_of_mem (List.mem_map_of_mem hmem)) ?_
    have hscores : (scoredRules rules toolName (some actionClass) agentId service).map Prod.fst ≠
        [] := by simpa using h
    obtain ⟨⟨best, winner⟩, hwinner, hbest⟩ := List.mem_map.mp (List.max_mem hscores)
    obtain ⟨hlisted, hscored⟩ := mem_scoredRules.mp hwinner
    rw [← hbest]
    exact (score_le_iff hscored hscore).mpr
      (hmost.most winner hlisted (applies_of_specificity hscored))

theorem exists_mostPrecise :
    (∃ rule, MostPrecise rules toolName actionClass agentId service rule) ↔
      scoredRules rules toolName (some actionClass) agentId service ≠ [] := by
  constructor
  · rintro ⟨rule, hmost⟩
    exact List.ne_nil_of_mem (mem_scoredRules.mpr ⟨hmost.mem, specificity_of_applies hmost.applies⟩)
  · intro h
    obtain ⟨rule, hrule⟩ := List.exists_mem_of_ne_nil _ (tiedRules_ne h)
    exact ⟨rule, (mem_tiedRules h).mp hrule⟩

theorem winnerVerdict_allowed_iff {winner : PolicyRule} :
    (winnerVerdict winner).allowed = winner.allowed := by
  unfold winnerVerdict
  split
  next h =>
    rcases h with hclass | hdenied
    · exact (winner.destructive_denied hclass).symm
    · exact hdenied.symm
  next h => exact (Bool.eq_true_of_not_eq_false (not_or.mp h).2).symm

theorem failClosed_allowed_iff {tied : List PolicyRule} (h : tied ≠ []) :
    (failClosed tied h).allowed = true ↔ ∀ rule ∈ tied, rule.allowed = true := by
  unfold failClosed
  split
  next denied rest heq =>
    have hdenied : denied ∈ tied.filter fun rule => !rule.allowed :=
      heq ▸ List.mem_cons_self
    obtain ⟨hmem, hnot⟩ := List.mem_filter.mp hdenied
    constructor
    · intro hallowed
      simp [hallowed] at hnot
    · exact fun hall => hall denied hmem
  next heq =>
    have hall : ∀ rule ∈ tied, rule.allowed = true := fun rule hrule => by
      simpa using List.filter_eq_nil_iff.mp heq rule hrule
    exact ⟨fun _ => hall, fun _ => hall _ (List.head_mem h)⟩

/-- An allow verdict: the class is not destructive, and of the most precise rules there is one and
none denies. -/
theorem evaluatePolicy_allowed_iff :
    (evaluatePolicy rules toolName (some actionClass) agentId service).allowed = true ↔
      actionClass ≠ .destructive ∧
      (∃ rule, MostPrecise rules toolName actionClass agentId service rule) ∧
      ∀ rule, MostPrecise rules toolName actionClass agentId service rule →
        rule.allowed = true := by
  rw [exists_mostPrecise]
  unfold evaluatePolicy
  by_cases hclass : actionClass = .destructive
  · simp [hclass]
  rw [if_neg fun h => hclass (Option.some.inj h)]
  by_cases hscored : scoredRules rules toolName (some actionClass) agentId service = []
  · simp [hscored]
  rw [dif_neg hscored, winnerVerdict_allowed_iff, failClosed_allowed_iff (tiedRules_ne hscored)]
  simp only [mem_tiedRules, hclass, hscored, ne_eq, not_false_eq_true, true_and]

open scoped Classical in
theorem tiedRules_eq_filter
    (h : scoredRules rules toolName (some actionClass) agentId service ≠ []) :
    tiedRules _ h =
      rules.filter fun rule => MostPrecise rules toolName actionClass agentId service rule := by
  have hfilter := tied_eq_filter rules toolName (some actionClass) agentId service
    (((scoredRules rules toolName (some actionClass) agentId service).map Prod.fst).max
      (by simpa using h))
  have hmem := fun rule => @mem_tiedRules rules rule toolName agentId service actionClass h
  rw [show tiedRules _ h = _ from hfilter] at hmem ⊢
  refine List.filter_congr fun rule hrule => ?_
  have := hmem rule
  rw [List.mem_filter, and_iff_right hrule, decide_eq_true_eq] at this
  exact decide_eq_decide.mpr this

theorem mostPrecise_insert {front back : List PolicyRule} (hother : other ∈ front ++ back)
    (applies : other.Applies toolName actionClass agentId service)
    (less : rule.precision toolName agentId service < other.precision toolName agentId service)
    (candidate : PolicyRule) :
    MostPrecise (front ++ rule :: back) toolName actionClass agentId service candidate ↔
      MostPrecise (front ++ back) toolName actionClass agentId service candidate := by
  have hmem : ∀ {r}, r ∈ front ++ rule :: back ↔ r = rule ∨ r ∈ front ++ back := by
    intro r
    simp only [List.mem_append, List.mem_cons]
    tauto
  constructor
  · intro h
    refine ⟨(hmem.mp h.mem).resolve_left ?_, h.applies,
      fun r hr => h.most r (hmem.mpr (.inr hr))⟩
    rintro rfl
    exact absurd (h.most other (hmem.mpr (.inr hother)) applies) (not_le.mpr less)
  · intro h
    refine ⟨hmem.mpr (.inr h.mem), h.applies, fun r hr happlies => ?_⟩
    rcases hmem.mp hr with rfl | hr
    · exact less.le.trans (h.most other hother applies)
    · exact h.most r hr happlies

theorem evaluatePolicy_insert {front back : List PolicyRule} (hother : other ∈ front ++ back)
    (applies : other.Applies toolName actionClass agentId service)
    (less : rule.precision toolName agentId service < other.precision toolName agentId service) :
    evaluatePolicy (front ++ rule :: back) toolName (some actionClass) agentId service =
      evaluatePolicy (front ++ back) toolName (some actionClass) agentId service := by
  have hsame := mostPrecise_insert hother applies less
  have hscored : scoredRules (front ++ back) toolName (some actionClass) agentId service ≠ [] :=
    List.ne_nil_of_mem (mem_scoredRules.mpr ⟨hother, specificity_of_applies applies⟩)
  obtain ⟨best, hbest⟩ := exists_mostPrecise.mpr hscored
  have hscored' := exists_mostPrecise.mp ⟨best, (hsame best).mpr hbest⟩
  have htied : tiedRules _ hscored' = tiedRules _ hscored := by
    classical
    rw [tiedRules_eq_filter hscored', tiedRules_eq_filter hscored, List.filter_append,
      List.filter_cons, List.filter_append]
    simp only [hsame]
    have hnot : ¬MostPrecise (front ++ back) toolName actionClass agentId service rule := fun h =>
      absurd (h.most other hother applies) (not_le.mpr less)
    rw [if_neg (by simpa using hnot)]
  unfold evaluatePolicy
  rw [dif_neg hscored, dif_neg hscored']
  simp only [htied]

end Scores

/-- The verdict on a call of a known class: it allows exactly when the class is not destructive
and the most precise of the rules that apply are there and none denies. Without a rule that
applies it denies, a deny among the most precise rules decides, and a less precise rule does not
matter. -/
theorem evaluatePolicy_spec (rules : List PolicyRule) (toolName : String)
    (actionClass : ActionClass) (agentId service : String) :
    ((evaluatePolicy rules toolName (some actionClass) agentId service).allowed = true ↔
      actionClass ≠ .destructive ∧
      (∃ rule, MostPrecise rules toolName actionClass agentId service rule) ∧
      ∀ rule, MostPrecise rules toolName actionClass agentId service rule →
        rule.allowed = true) ∧
    ((∀ rule ∈ rules, ¬rule.Applies toolName actionClass agentId service) →
      (evaluatePolicy rules toolName (some actionClass) agentId service).allowed = false) ∧
    ∀ front back rule, rules = front ++ back →
      (rule.allowed = false →
        MostPrecise (front ++ rule :: back) toolName actionClass agentId service rule →
        (evaluatePolicy (front ++ rule :: back) toolName (some actionClass) agentId
          service).allowed = false) ∧
      ∀ other ∈ rules, other.Applies toolName actionClass agentId service →
        rule.precision toolName agentId service < other.precision toolName agentId service →
        evaluatePolicy (front ++ rule :: back) toolName (some actionClass) agentId service =
          evaluatePolicy rules toolName (some actionClass) agentId service := by
  refine ⟨evaluatePolicy_allowed_iff, fun hnone => ?_, ?_⟩
  · by_contra hallowed
    obtain ⟨_, ⟨rule, hmost⟩, _⟩ := evaluatePolicy_allowed_iff.mp (Bool.eq_true_of_not_eq_false hallowed)
    exact hnone rule hmost.mem hmost.applies
  · rintro front back rule rfl
    constructor
    · intro hdeny hmost
      by_contra hallowed
      have hall := (evaluatePolicy_allowed_iff.mp (Bool.eq_true_of_not_eq_false hallowed)).2.2
      rw [hall rule hmost] at hdeny
      cases hdeny
    · exact fun other hother happlies hless => evaluatePolicy_insert hother happlies hless

end Aegis
