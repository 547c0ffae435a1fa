import Aegis.ManageRules
import Aegis.StepPath

namespace Aegis

open StepPath

/-- How far one admin request is. `_publish` lists the rules and hands the list to
`replace_policy_rules` before `get_db` commits. -/
inductive AdminPhase where
  | waiting
  | wrote (write : RuleWrite)
  | listed (write : RuleWrite) (rules : List PolicyRule)
  | published (write : RuleWrite)
  | ended

/-- The request has an open transaction. -/
def AdminPhase.write? : AdminPhase → Option RuleWrite
  | .waiting => none
  | .wrote write => some write
  | .listed write _ => some write
  | .published write => some write
  | .ended => none

structure PublishState where
  table : RuleTable
  cache : PolicyCache
  /-- The rule lists that have been committed so far, the current one last. -/
  committed : List (List PolicyRule)
  phase : Nat → AdminPhase

inductive PublishAction where
  | write (request : AdminRequest) (id : Uuid) (now : Instant)
  | list
  | publish
  | commit
  | rollback
  | invoke

/-- Two flushed writes that the row locks and the unique index let no two open transactions
hold: one waits for the other. -/
def RuleWrite.Conflicts (a b : RuleWrite) : Prop :=
  a.ruleId = b.ruleId ∨ ∃ key, a.key = some key ∧ b.key = some key

def PublishState.enter (s : PublishState) (id : Nat) (phase : AdminPhase) : PublishState :=
  { s with phase := Function.update s.phase id phase }

@[simp] theorem PublishState.enter_phase_self (s : PublishState) (id : Nat) (phase : AdminPhase) :
    (s.enter id phase).phase id = phase := by
  simp [PublishState.enter]

theorem PublishState.enter_phase_of_ne {s : PublishState} {id other : Nat} {phase : AdminPhase}
    (h : other ≠ id) : (s.enter id phase).phase other = s.phase other := by
  simp [PublishState.enter, h]

/-- One step of one request, or a tool invocation; only committed rows are seen by others. -/
inductive PublishStep (digest : Value → Digest) :
    PublishState → Nat × PublishAction → PublishState → Prop
  | write {s i request id now write} : s.phase i = .waiting →
      request.write id now s.table = .ok write →
      (∀ j other, (s.phase j).write? = some other → ¬write.Conflicts other) →
      PublishStep digest s (i, .write request id now) (s.enter i (.wrote write))
  | list {s i write} : s.phase i = .wrote write →
      PublishStep digest s (i, .list) (s.enter i (.listed write (listRules (write.apply s.table))))
  | publish {s i write rules} : s.phase i = .listed write rules →
      PublishStep digest s (i, .publish)
        { s.enter i (.published write) with cache := replacePolicyRules digest rules }
  | commit {s i write} : s.phase i = .published write →
      PublishStep digest s (i, .commit)
        { s.enter i .ended with
          table := write.apply s.table
          committed := s.committed ++ [listRules (write.apply s.table)] }
  | rollback {s i} : PublishStep digest s (i, .rollback) (s.enter i .ended)
  | invoke {s i} : PublishStep digest s (i, .invoke) s

/-- No admin request has an open transaction. -/
def Quiet (s : PublishState) : Prop :=
  ∀ i, (s.phase i).write? = none

/-- The gateway's rules are a committed rule list, and the current one when nothing is open. -/
structure CacheCommitted (s : PublishState) : Prop where
  some_commit : ∃ rules ∈ s.committed, s.cache.rules = some rules
  current : Quiet s → s.cache.rules = some (listRules s.table)

/-- A process that has loaded the committed rules and has not had an admin request yet. -/
structure JustLoaded (s : PublishState) : Prop where
  committed : s.committed = [listRules s.table]
  cache : s.cache.rules = some (listRules s.table)
  waiting : ∀ i, s.phase i = .waiting

/-- Nothing has been published since the rules were loaded, and every open request would publish
another list than the committed one. -/
structure Unpublished (s : PublishState) : Prop where
  committed : s.committed = [listRules s.table]
  cache : s.cache.rules = some (listRules s.table)
  wrote : ∀ i write, s.phase i = .wrote write →
    listRules (write.apply s.table) ≠ listRules s.table
  listed : ∀ i write rules, s.phase i = .listed write rules → rules ≠ listRules s.table
  published : ∀ i write, s.phase i ≠ .published write

theorem JustLoaded.unpublished {s : PublishState} (h : JustLoaded s) : Unpublished s where
  committed := h.committed
  cache := h.cache
  wrote := fun i write hphase => by simp [h.waiting i] at hphase
  listed := fun i write rules hphase => by simp [h.waiting i] at hphase
  published := fun i write => by simp [h.waiting i]

theorem Unpublished.cacheCommitted {s : PublishState} (h : Unpublished s) : CacheCommitted s where
  some_commit := ⟨_, by rw [h.committed]; exact List.mem_singleton.mpr rfl, h.cache⟩
  current := fun _ => h.cache

@[simp] theorem PublishState.enter_table (s : PublishState) (id : Nat) (phase : AdminPhase) :
    (s.enter id phase).table = s.table := rfl

/-- The committed rows and the cache are as they were, and one request is in another phase that
agrees with them. -/
theorem Unpublished.enter {s : PublishState} {i : Nat} {phase : AdminPhase} (h : Unpublished s)
    (wrote : ∀ write, phase = .wrote write → listRules (write.apply s.table) ≠ listRules s.table)
    (listed : ∀ write rules, phase = .listed write rules → rules ≠ listRules s.table)
    (published : ∀ write, phase ≠ .published write) : Unpublished (s.enter i phase) := by
  have cases_phase : ∀ j, (s.enter i phase).phase j = phase ∨
      (s.enter i phase).phase j = s.phase j := by
    intro j
    by_cases hij : j = i
    · exact .inl (hij ▸ s.enter_phase_self i phase)
    · exact .inr (PublishState.enter_phase_of_ne hij)
  refine ⟨h.committed, h.cache, fun j write hj => ?_, fun j write rules hj => ?_,
    fun j write hj => ?_⟩
  · rcases cases_phase j with hnew | hold
    · exact wrote write (hnew.symm.trans hj)
    · exact h.wrote j write (hold.symm.trans hj)
  · rcases cases_phase j with hnew | hold
    · exact listed write rules (hnew.symm.trans hj)
    · exact h.listed j write rules (hold.symm.trans hj)
  · rcases cases_phase j with hnew | hold
    · exact published write (hnew.symm.trans hj)
    · exact h.published j write (hold.symm.trans hj)

/-- A step other than a publication keeps what was loaded. -/
theorem publishStep_keeps_unpublished {digest : Value → Digest} {s t : PublishState}
    {label : Nat × PublishAction} (inv : Unpublished s) (ok : label.2 ≠ .publish)
    (h : PublishStep digest s label t) : Unpublished t := by
  cases h with
  | write _ hwrite _ =>
    refine inv.enter (fun write hphase => ?_) (by simp) (by simp)
    cases hphase
    exact write_changes hwrite
  | list hphase =>
    refine inv.enter (by simp) (fun write rules hlisted => ?_) (by simp)
    cases hlisted
    exact inv.wrote _ _ hphase
  | publish _ => exact absurd rfl ok
  | commit hphase => exact absurd hphase (inv.published _ _)
  | rollback => exact inv.enter (by simp) (by simp) (by simp)
  | invoke => exact inv

/-- A publication puts rules into the cache that no transaction has committed. -/
theorem publishStep_uncommitted {digest : Value → Digest} {s t : PublishState} {i : Nat}
    (inv : Unpublished s) (h : PublishStep digest s (i, .publish) t) : ¬CacheCommitted t := by
  cases h with
  | @publish i write rules hphase =>
    rintro ⟨⟨committed, hmem, hcache⟩, _⟩
    have hloaded : committed = listRules s.table := by
      have hmem : committed ∈ s.committed := hmem
      rw [inv.committed] at hmem
      exact List.mem_singleton.mp hmem
    have hrules : rules = committed := Option.some.inj hcache
    exact inv.listed i write rules hphase (hrules.trans hloaded)

theorem publishStep_committed_iff {digest : Value → Digest} {s t : PublishState}
    {label : Nat × PublishAction} (inv : Unpublished s) (h : PublishStep digest s label t) :
    CacheCommitted t ↔ label.2 ≠ .publish := by
  constructor
  · rintro good hpublish
    obtain ⟨i, action⟩ := label
    cases hpublish
    exact publishStep_uncommitted inv h good
  · intro ok
    exact (publishStep_keeps_unpublished inv ok h).cacheCommitted

/-- From the moment the rules are loaded, the gateway keeps to committed rules exactly as long as
no admin request gets to `replace_policy_rules`: each is refused, or fails and is rolled back
before. -/
theorem cache_committed_iff {digest : Value → Digest} {s : PublishState}
    {path : List ((Nat × PublishAction) × PublishState)} (start : JustLoaded s)
    (run : Path (PublishStep digest) s path) :
    (∀ u ∈ visited s path, CacheCommitted u) ↔ ∀ taken ∈ path, taken.1.2 ≠ .publish := by
  have keep : ∀ s label t, CacheCommitted s → (CacheCommitted s → Unpublished s) →
      PublishStep digest s label t → CacheCommitted t → Unpublished t := by
    intro s label t hgood hinv hstep hnext
    have inv := hinv hgood
    exact publishStep_keeps_unpublished inv ((publishStep_committed_iff inv hstep).mp hnext) hstep
  have step_iff : ∀ s label t, CacheCommitted s → (CacheCommitted s → Unpublished s) →
      PublishStep digest s label t → (CacheCommitted t ↔ label.2 ≠ .publish) :=
    fun _ _ _ hgood hinv hstep => publishStep_committed_iff (hinv hgood) hstep
  rw [always_iff_meets keep step_iff run start.unpublished.cacheCommitted
    fun _ => start.unpublished]
  exact meets_label

/-- The process after startup: the seed rules in the table and in the cache. -/
def seededStart (digest : Value → Digest) : PublishState where
  table := seedReadRules
  cache := replacePolicyRules digest (listRules seedReadRules)
  committed := [listRules seedReadRules]
  phase := fun _ => .waiting

theorem seededStart_loaded (digest : Value → Digest) : JustLoaded (seededStart digest) where
  committed := rfl
  cache := rfl
  waiting := fun _ => rfl

def phantomRule : PolicyRule where
  id := 5
  toolName := exportTool
  actionClass := .read
  scope := ⟨"*", by decide, by decide, by decide⟩
  allowed := true
  reason := ""
  createdBy := ⟨"admin", by decide, by decide, by decide⟩
  updatedBy := ⟨"admin", by decide, by decide, by decide⟩
  createdAt := 0
  updatedAt := 0
  version := 1
  reason_stripped := by decide
  reason_length := by decide
  version_pos := first_version
  destructive_denied := read_not_destructive

def createPhantom : AdminRequest := .create "admin" "export_users" "read" "*" true ""

theorem createPhantom_write : createPhantom.write 5 0 seedReadRules = .ok (.add phantomRule) := by
  rfl

/-- The process after one admin has flushed the new rule. -/
def wroteState (digest : Value → Digest) : PublishState :=
  (seededStart digest).enter 0 (.wrote (.add phantomRule))

theorem wrote_step (digest : Value → Digest) :
    PublishStep digest (seededStart digest) (0, .write createPhantom 5 0) (wroteState digest) :=
  PublishStep.write rfl createPhantom_write fun _ _ hother => by cases hother

def listedState : PublishState :=
  (wroteState fun _ => Digest.genesis).enter 0
    (.listed (.add phantomRule) (listRules (seedReadRules ++ [phantomRule])))

/-- An admin drops the seed rule of `retrieve_knowledge`. -/
def dropSeed : AdminRequest := .delete 0xa1111111000040008000000000000001 "admin"

theorem dropSeed_write :
    dropSeed.write 6 0 seedReadRules = .ok (.delete 0xa1111111000040008000000000000001) := by
  rfl

theorem drop_apart {j : Nat} {other : RuleWrite}
    (h : (listedState.phase j).write? = some other) :
    ¬(RuleWrite.delete 0xa1111111000040008000000000000001).Conflicts other := by
  by_cases hj : j = 0
  · rw [hj] at h
    cases h
    rintro (hid | ⟨key, hkey, _⟩)
    · exact absurd hid (by decide)
    · cases hkey
  · rw [listedState, PublishState.enter_phase_of_ne hj, wroteState,
      PublishState.enter_phase_of_ne hj] at h
    cases h

/-- One admin's new rule gets as far as the list, another one's deletion is flushed meanwhile, and
both are rolled back. -/
theorem unpublished_rollback_committed : ∃ path,
    Path (PublishStep fun _ => Digest.genesis) (seededStart fun _ => Digest.genesis) path ∧
      path.length = 5 ∧ ∀ u ∈ visited (seededStart fun _ => Digest.genesis) path,
        CacheCommitted u := by
  have hlist : PublishStep (fun _ => Digest.genesis) (wroteState fun _ => Digest.genesis) (0, .list)
      listedState := PublishStep.list rfl
  have run := Path.next (wrote_step fun _ => Digest.genesis) (Path.next hlist (Path.next
    (PublishStep.write (i := 1) rfl dropSeed_write fun _ _ hother => drop_apart hother) (Path.next
    (PublishStep.rollback (i := 0)) (Path.next (PublishStep.rollback (i := 1)) Path.stop))))
  exact ⟨_, run, rfl, (cache_committed_iff (seededStart_loaded _) run).mpr (by simp)⟩

/-- An admin's new allow rule stays in the cache after its transaction was rolled back. -/
theorem rolled_back_rule_served : ∃ path,
    Path (PublishStep fun _ => Digest.genesis) (seededStart fun _ => Digest.genesis) path ∧
      Quiet (final (seededStart fun _ => Digest.genesis) path) ∧
      ¬∀ u ∈ visited (seededStart fun _ => Digest.genesis) path, CacheCommitted u := by
  have hlist : PublishStep (fun _ => Digest.genesis) (wroteState fun _ => Digest.genesis) (0, .list)
      listedState := PublishStep.list rfl
  have hpublish : PublishStep (fun _ => Digest.genesis) listedState (0, .publish)
      { listedState.enter 0 (.published (.add phantomRule)) with
        cache := replacePolicyRules (fun _ => Digest.genesis)
          (listRules (seedReadRules ++ [phantomRule])) } := PublishStep.publish rfl
  have run := Path.next (wrote_step fun _ => Digest.genesis) (Path.next hlist (Path.next hpublish
    (Path.next (PublishStep.rollback (i := 0)) Path.stop)))
  refine ⟨_, run, ?_, fun hall => ?_⟩
  · intro i
    by_cases hi : i = 0
    · rw [hi]
      rfl
    · simp [final, PublishState.enter, hi, listedState, wroteState, seededStart,
        AdminPhase.write?]
  · obtain ⟨rules, hmem, hcache⟩ := (hall _ final_mem_visited).some_commit
    have hrules : rules = listRules seedReadRules := List.mem_singleton.mp hmem
    have hlength : (listRules (seedReadRules ++ [phantomRule])).length = rules.length :=
      congrArg List.length (Option.some.inj hcache)
    rw [hrules] at hlength
    simp [listRules, List.length_insertionSort] at hlength

/-- Admin requests run one at a time, and one that has published commits. -/
def OneAtATime (s : PublishState) (label : Nat × PublishAction) : Prop :=
  match label.2 with
  | .write _ _ _ => Quiet s
  | .rollback => ∀ write, s.phase label.1 ≠ .published write
  | _ => True

/-- With one open request at most, the cache is the committed list or, from the publication of
the open request to its end, what that request is about to commit. -/
structure SerialCache (s : PublishState) : Prop where
  single : ∀ i j, (s.phase i).write? ≠ none → (s.phase j).write? ≠ none → i = j
  listed : ∀ i write rules, s.phase i = .listed write rules →
    rules = listRules (write.apply s.table)
  published : ∀ i write, s.phase i = .published write →
    s.cache.rules = some (listRules (write.apply s.table))
  unpublished : (∀ i write, s.phase i ≠ .published write) →
    s.cache.rules = some (listRules s.table)

theorem serialCache_of_only {t : PublishState} (i : Nat)
    (others : ∀ j, j ≠ i → (t.phase j).write? = none)
    (listed : ∀ write rules, t.phase i = .listed write rules →
      rules = listRules (write.apply t.table))
    (published : ∀ write, t.phase i = .published write →
      t.cache.rules = some (listRules (write.apply t.table)))
    (unpublished : (∀ write, t.phase i ≠ .published write) →
      t.cache.rules = some (listRules t.table)) : SerialCache t := by
  have only : ∀ j, (t.phase j).write? ≠ none → j = i := by
    intro j hj
    by_contra hne
    exact hj (others j hne)
  refine ⟨fun j k hj hk => (only j hj).trans (only k hk).symm, ?_, ?_, fun h => unpublished (h i)⟩
  · intro j write rules hphase
    have hj := only j (by simp [hphase, AdminPhase.write?])
    exact listed write rules (hj ▸ hphase)
  · intro j write hphase
    have hj := only j (by simp [hphase, AdminPhase.write?])
    exact published write (hj ▸ hphase)

theorem PublishState.others_enter {s : PublishState} {i : Nat} {phase : AdminPhase}
    (others : ∀ j, j ≠ i → (s.phase j).write? = none) :
    ∀ j, j ≠ i → ((s.enter i phase).phase j).write? = none := by
  intro j hj
  rw [PublishState.enter_phase_of_ne hj]
  exact others j hj

theorem publishStep_keeps_serial {digest : Value → Digest} {s t : PublishState}
    {label : Nat × PublishAction} (inv : SerialCache s) (ok : OneAtATime s label)
    (h : PublishStep digest s label t) : SerialCache t := by
  have alone : ∀ {i write}, (s.phase i).write? = some write → ∀ j, j ≠ i →
      (s.phase j).write? = none := by
    intro i write hi j hj
    by_contra hopen
    exact hj (inv.single j i hopen (by simp [hi]))
  have unpublished_of : ∀ {i}, (∀ j, j ≠ i → (s.phase j).write? = none) →
      (∀ write, s.phase i ≠ .published write) → s.cache.rules = some (listRules s.table) := by
    intro i hothers hi
    refine inv.unpublished fun j write hj => ?_
    by_cases hij : j = i
    · exact hi write (hij ▸ hj)
    · have hnone := hothers j hij
      rw [hj] at hnone
      cases hnone
  cases h with
  | @write i request id now write hwaiting _ _ =>
    have hothers : ∀ j, j ≠ i → (s.phase j).write? = none := fun j _ => ok j
    exact serialCache_of_only i (PublishState.others_enter hothers) (by simp) (by simp)
      fun _ => unpublished_of hothers (by simp [hwaiting])
  | @list i write hphase =>
    have hothers := alone (show (s.phase i).write? = some write by rw [hphase]; rfl)
    refine serialCache_of_only i (PublishState.others_enter hothers) ?_ (by simp) fun _ => ?_
    · intro write' rules hlisted
      simp only [PublishState.enter_phase_self, AdminPhase.listed.injEq] at hlisted
      obtain ⟨rfl, rfl⟩ := hlisted
      rfl
    · exact unpublished_of hothers (by simp [hphase])
  | @publish i write rules hphase =>
    have hothers := alone (show (s.phase i).write? = some write by rw [hphase]; rfl)
    have hrules := inv.listed i write rules hphase
    refine serialCache_of_only i (PublishState.others_enter hothers) (by simp) ?_ ?_
    · intro write' hpublished
      simp only [PublishState.enter_phase_self, AdminPhase.published.injEq] at hpublished
      rw [← hpublished, hrules]
      rfl
    · intro hnot
      exact absurd (PublishState.enter_phase_self s i (.published write)) (hnot write)
  | @commit i write hphase =>
    have hothers := alone (show (s.phase i).write? = some write by rw [hphase]; rfl)
    exact serialCache_of_only i (PublishState.others_enter hothers) (by simp) (by simp)
      fun _ => inv.published i write hphase
  | @rollback i =>
    by_cases hopen : (s.phase i).write? = none
    · have other : ∀ j, ((s.enter i .ended).phase j).write? ≠ none →
          (s.enter i .ended).phase j = s.phase j := by
        intro j hj
        apply PublishState.enter_phase_of_ne
        rintro rfl
        simp [AdminPhase.write?] at hj
      refine ⟨fun j k hj hk => ?_, fun j write rules hj => ?_, fun j write hj => ?_, fun hnot => ?_⟩
      · exact inv.single j k (other j hj ▸ hj) (other k hk ▸ hk)
      · exact inv.listed j write rules ((other j (by simp [hj, AdminPhase.write?])).symm.trans hj)
      · exact inv.published j write ((other j (by simp [hj, AdminPhase.write?])).symm.trans hj)
      · refine inv.unpublished fun j write hj => ?_
        by_cases hij : j = i
        · rw [← hij, hj] at hopen
          cases hopen
        · exact hnot j write ((PublishState.enter_phase_of_ne hij).trans hj)
    · obtain ⟨write, hwrite⟩ := Option.ne_none_iff_exists'.mp hopen
      have hothers := alone hwrite
      exact serialCache_of_only i (PublishState.others_enter hothers) (by simp) (by simp)
        fun _ => unpublished_of hothers ok
  | invoke => exact inv

/-- When admin requests run one at a time and commit what they publish, the cache is the committed
rule list at every moment outside the window between a publication and its commit. -/
theorem serial_cache_current {digest : Value → Digest} {s : PublishState}
    {path : List ((Nat × PublishAction) × PublishState)} (start : SerialCache s)
    (run : Path (PublishStep digest) s path) (serial : Meets OneAtATime s path) :
    ∀ u ∈ visited s path, (∀ i write, u.phase i ≠ .published write) →
      u.cache.rules = some (listRules u.table) := by
  intro u hu
  have keep : ∀ s a t, SerialCache s → OneAtATime s a → PublishStep digest s a t → SerialCache t :=
    fun _ _ _ hinv hok hstep => publishStep_keeps_serial hinv hok hstep
  exact (invariant_of_meets keep run start serial u hu).unpublished

end Aegis
