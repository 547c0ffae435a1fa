import Aegis.Runner

namespace Aegis

open Raising Proc

/-- `InvestigationStep.__init__` -/
def InvestigationStep.new (id incidentId : Uuid) (name : String) (status : InvestigationStepStatus)
    (detail : String) (occurredAt : Instant) : Except Raised InvestigationStep :=
  if strip name = "" then .error (.invalid "step name must not be empty.")
  else .ok ⟨id, incidentId, strip name, status, strip detail, occurredAt⟩

/-- The set of failed steps, as the names that are looked up in it. -/
def failedNames (lower : String → String) (failedSteps : List String) : List String :=
  (failedSteps.map fun item => lower (strip item)).dedup

/-- `order.get(name, 99)` -/
def stepOrder (name : String) : Nat := (knownSteps.idxOf? name).getD 99

section Steps

variable {World : Type} (host : Host World)

/-- `InvestigationStep.create` of a step of the run. -/
def graphStep (incidentId : Uuid) (now : Instant) (name : String) (status : InvestigationStepStatus)
    (detail : String) : Proc World Raised InvestigationStep := do
  let id ← mintId host
  fromExcept (InvestigationStep.new id incidentId name status detail now)

/-- A line of the log in `steps_from_graph_result`: the last line about a step is the one kept. -/
def recordLine (incidentId : Uuid) (now : Instant) (failed : List String)
    (seen : Dict InvestigationStep) (line : String) : Proc World Raised (Dict InvestigationStep) :=
  let name := stepName host.lower line
  if name ∈ knownSteps then do
    let step ← graphStep host incidentId now name (if name ∈ failed then .failed else .completed)
      (String.ofList (line.toList.take 200))
    pure (seen.set name step)
  else pure seen

/-- A failed step that no line of the log is about. -/
def recordFailure (incidentId : Uuid) (now : Instant) (seen : Dict InvestigationStep)
    (name : String) : Proc World Raised (Dict InvestigationStep) :=
  if name ∈ seen.map Prod.fst ∨ name ∉ knownSteps then pure seen
  else do
    let step ← graphStep host incidentId now name .failed (name ++ " failed")
    pure (seen.set name step)

/-- `steps_from_graph_result` -/
def stepsFromGraphResult (incidentId : Uuid) (failedSteps log : List String) :
    Proc World Raised (List InvestigationStep) := do
  let failed := failedNames host.lower failedSteps
  let now ← utcNow host
  let seen ← log.foldlM (recordLine host incidentId now failed) []
  let seen ← failed.foldlM (recordFailure host incidentId now) seen
  pure ((seen.map Prod.snd).insertionSort fun a b => stepOrder a.name ≤ stepOrder b.name)

end Steps

/-- A step as `steps_from_graph_result` records it at a moment. -/
structure RecordedStep (incidentId : Uuid) (now : Instant) (failed : List String)
    (step : InvestigationStep) : Prop where
  known : step.name ∈ knownSteps
  incident : step.incidentId = incidentId
  time : step.occurredAt = now
  status : step.status = if step.name ∈ failed then .failed else .completed
  detail : strip step.detail = step.detail

/-- What has been seen of a run when the names have come up. -/
structure SeenSteps (incidentId : Uuid) (now : Instant) (failed names : List String)
    (seen : Dict InvestigationStep) : Prop where
  nodup : (seen.map Prod.fst).Nodup
  keys : ∀ name, name ∈ seen.map Prod.fst ↔ name ∈ knownSteps ∧ name ∈ names
  entries : ∀ entry ∈ seen, entry.2.name = entry.1 ∧
    RecordedStep incidentId now failed entry.2

/-- The steps of a run: those that its log or its failures name, each once, in the order of the
known steps and all of one time. -/
structure GraphSteps (incidentId : Uuid) (failed named : List String)
    (steps : List InvestigationStep) : Prop where
  order : steps.Pairwise fun a b => stepOrder a.name < stepOrder b.name
  names : ∀ name, (∃ step ∈ steps, step.name = name) ↔ name ∈ knownSteps ∧ name ∈ named
  recorded : ∃ now, ∀ step ∈ steps, RecordedStep incidentId now failed step

section Recording

variable {World : Type} {host : Host World} {incidentId : Uuid} {now : Instant}
  {failed names : List String} {seen : Dict InvestigationStep} {name line detail : String}
  {status : InvestigationStepStatus}

theorem Dict.mem_set {α : Type} {dict : Dict α} {key : String} {value : α} {entry : String × α}
    (h : entry ∈ dict.set key value) : entry = (key, value) ∨ entry ∈ dict := by
  induction dict with
  | nil => exact .inl (List.mem_singleton.mp h)
  | cons head rest ih =>
    obtain ⟨k, v⟩ := head
    rw [Dict.set] at h
    split at h
    next hk =>
      rcases List.mem_cons.mp h with rfl | hrest
      · exact .inl (by rw [hk])
      · exact .inr (List.mem_cons_of_mem _ hrest)
    next =>
      rcases List.mem_cons.mp h with rfl | hrest
      · exact .inr List.mem_cons_self
      · exact (ih hrest).imp_right (List.mem_cons_of_mem _)

theorem knownSteps_plain : ∀ name ∈ knownSteps, strip name = name ∧ name ≠ "" := by decide

theorem stepOrder_inj : ∀ a ∈ knownSteps, ∀ b ∈ knownSteps, stepOrder a = stepOrder b → a = b := by
  decide

theorem graphStep_yields (known : name ∈ knownSteps)
    (hstatus : status = if name ∈ failed then .failed else .completed) :
    Yields (graphStep host incidentId now name status detail) fun step =>
      step.name = name ∧ RecordedStep incidentId now failed step := by
  obtain ⟨plain, ne⟩ := knownSteps_plain name known
  refine yields_bind (yields_draw _) fun id _ => ?_
  rw [InvestigationStep.new, if_neg (by rwa [plain]), plain]
  exact yields_pure ⟨rfl, known, rfl, rfl, hstatus, strip_strip detail⟩

theorem SeenSteps.set (h : SeenSteps incidentId now failed names seen) {step : InvestigationStep}
    (hname : step.name = name) (recorded : RecordedStep incidentId now failed step) :
    SeenSteps incidentId now failed (names ++ [name]) (seen.set name step) := by
  refine ⟨Dict.keys_set_nodup h.nodup, fun other => ?_, fun entry hentry => ?_⟩
  · rw [Dict.mem_keys_set, h.keys, List.mem_append, List.mem_singleton]
    constructor
    · rintro (rfl | ⟨hknown, hmem⟩)
      · exact ⟨hname ▸ recorded.known, .inr rfl⟩
      · exact ⟨hknown, .inl hmem⟩
    · rintro ⟨hknown, hmem | rfl⟩
      · exact .inr ⟨hknown, hmem⟩
      · exact .inl rfl
  · rcases Dict.mem_set hentry with rfl | hold
    · exact ⟨hname, recorded⟩
    · exact h.entries entry hold

/-- A name that is not new, or not of a known step, changes nothing. -/
theorem SeenSteps.skip (h : SeenSteps incidentId now failed names seen)
    (old : name ∈ seen.map Prod.fst ∨ name ∉ knownSteps) :
    SeenSteps incidentId now failed (names ++ [name]) seen := by
  refine ⟨h.nodup, fun other => ?_, h.entries⟩
  rw [h.keys, List.mem_append, List.mem_singleton]
  constructor
  · exact fun ⟨hknown, hmem⟩ => ⟨hknown, .inl hmem⟩
  · rintro ⟨hknown, hmem | rfl⟩
    · exact ⟨hknown, hmem⟩
    · rcases old with hold | hother
      · exact (h.keys other).mp hold
      · exact absurd hknown hother

theorem recordLine_yields (h : SeenSteps incidentId now failed names seen) :
    Yields (recordLine host incidentId now failed seen line)
      (SeenSteps incidentId now failed (names ++ [stepName host.lower line])) := by
  unfold recordLine
  dsimp only
  split
  next known =>
    refine yields_bind (graphStep_yields known rfl) fun step hstep => yields_pure ?_
    exact h.set hstep.1 hstep.2
  next other => exact yields_pure (h.skip (.inr other))

theorem recordFailure_yields (h : SeenSteps incidentId now failed names seen)
    (hfailed : name ∈ failed) : Yields (recordFailure host incidentId now seen name)
      (SeenSteps incidentId now failed (names ++ [name])) := by
  unfold recordFailure
  split
  next old => exact yields_pure (h.skip old)
  next fresh =>
    have known : name ∈ knownSteps := by
      by_contra hother
      exact fresh (.inr hother)
    refine yields_bind (graphStep_yields known (by rw [if_pos hfailed])) fun step hstep =>
      yields_pure ?_
    exact h.set hstep.1 hstep.2

theorem graphSteps_order (h : SeenSteps incidentId now failed names seen) :
    GraphSteps incidentId failed names
      ((seen.map Prod.snd).insertionSort fun a b => stepOrder a.name ≤ stepOrder b.name) := by
  have total : Std.Total fun a b : InvestigationStep => stepOrder a.name ≤ stepOrder b.name :=
    ⟨fun a b => le_total _ _⟩
  have trans : IsTrans InvestigationStep fun a b => stepOrder a.name ≤ stepOrder b.name :=
    ⟨fun _ _ _ => le_trans⟩
  have perm := List.perm_insertionSort
    (fun a b : InvestigationStep => stepOrder a.name ≤ stepOrder b.name) (seen.map Prod.snd)
  have sorted := List.pairwise_insertionSort
    (fun a b : InvestigationStep => stepOrder a.name ≤ stepOrder b.name) (seen.map Prod.snd)
  have keys : (seen.map Prod.snd).map InvestigationStep.name = seen.map Prod.fst := by
    rw [List.map_map]
    exact List.map_congr_left fun entry hentry => (h.entries entry hentry).1
  have recorded : ∀ step ∈ seen.map Prod.snd, RecordedStep incidentId now failed step := by
    intro step hstep
    obtain ⟨entry, hentry, rfl⟩ := List.mem_map.mp hstep
    exact (h.entries entry hentry).2
  have distinct : ((seen.map Prod.snd).insertionSort fun a b =>
      stepOrder a.name ≤ stepOrder b.name).Pairwise fun a b => a.name ≠ b.name := by
    refine List.pairwise_map.mp ((perm.map InvestigationStep.name).nodup_iff.mpr ?_)
    rw [keys]
    exact h.nodup
  refine ⟨?_, fun name => ?_, now, fun step hstep => recorded step (perm.mem_iff.mp hstep)⟩
  · refine (sorted.and distinct).imp_of_mem fun {a b} ha hb hab => ?_
    have hknown := recorded a (perm.mem_iff.mp ha)
    have hknown' := recorded b (perm.mem_iff.mp hb)
    exact lt_of_le_of_ne hab.1 fun same =>
      hab.2 (stepOrder_inj _ hknown.known _ hknown'.known same)
  · rw [← h.keys name, ← keys, List.mem_map]
    exact exists_congr fun step => and_congr_left fun _ => perm.mem_iff

/-- The names that a run brings up: the first words of its log lines, and its failed steps. -/
def namedSteps (lower : String → String) (failedSteps log : List String) : List String :=
  log.map (stepName lower) ++ failedNames lower failedSteps

/-- The steps of a run can always be computed. -/
theorem stepsFromGraphResult_yields (host : Host World) (incidentId : Uuid)
    (failedSteps log : List String) : Yields (stepsFromGraphResult host incidentId failedSteps log)
      (GraphSteps incidentId (failedNames host.lower failedSteps)
        (namedSteps host.lower failedSteps log)) := by
  refine yields_bind (yields_draw _) fun now _ => ?_
  have start : SeenSteps incidentId now (failedNames host.lower failedSteps) [] [] :=
    ⟨List.nodup_nil, by simp, by simp⟩
  unfold namedSteps
  generalize failedNames host.lower failedSteps = failed at start ⊢
  have lines : Yields (log.foldlM (recordLine host incidentId now failed) [])
      fun seen => SeenSteps incidentId now failed (log.map (stepName host.lower)) seen := by
    refine @yields_foldlM _ _ _ _ _ (fun done => SeenSteps incidentId now failed
      (done.map (stepName host.lower))) log [] [] (fun done seen line _ h => ?_) start
    rw [List.map_append, List.map_singleton]
    exact recordLine_yields h
  refine yields_bind lines fun seen hseen => ?_
  have failures := @yields_foldlM _ _ _ _ (recordFailure host incidentId now)
    (SeenSteps incidentId now failed) failed _ _
    (fun done seen name hname h => recordFailure_yields h hname) hseen
  exact yields_bind failures fun seen hseen => yields_pure (graphSteps_order hseen)

end Recording

section Runner

variable {World : Type} {ports : SpecialistPorts World} {incidentId : Uuid} {now : Instant}
  {failedSteps log : List String} {lower : String → String} {name : String}

/-- `str.lower` gives a known name where `lowersTo` says so. -/
def LowersKnown (lower : String → String) : Prop :=
  ∀ text, ∀ name ∈ knownSteps, lowersTo text name = true ↔ lower text = name

theorem failedHere_iff (lowers : LowersKnown lower) (known : name ∈ knownSteps) :
    (failedSteps.any fun step => lowersTo (strip step) name) = true ↔
      name ∈ failedNames lower failedSteps := by
  rw [failedNames, List.mem_dedup, List.mem_map, List.any_eq_true]
  exact exists_congr fun step => and_congr_right fun _ => lowers (strip step) name known

theorem stepData_spec (lowers : LowersKnown lower) (known : name ∈ knownSteps) :
    ((stepData lower failedSteps log name).isSome = true ↔
      name ∈ namedSteps lower failedSteps log) ∧
    ∀ data ∈ stepData lower failedSteps log name, strip data.2 = data.2 ∧
      data.1 = if name ∈ failedNames lower failedSteps then .failed else .completed := by
  have hfailed := @failedHere_iff failedSteps lower name lowers known
  rw [namedSteps, List.mem_append, stepData]
  cases hlines : (log.filter fun line => stepName lower line = name).getLast? with
  | none =>
    have hnone : name ∉ log.map (stepName lower) := by
      intro hmem
      obtain ⟨line, hline, hname⟩ := List.mem_map.mp hmem
      have hnil := List.filter_eq_nil_iff.mp (List.getLast?_eq_none_iff.mp hlines)
      exact hnil line hline (decide_eq_true hname)
    have plain : ∀ other ∈ knownSteps, strip (other ++ " failed") = other ++ " failed" := by decide
    by_cases hhere : name ∈ failedNames lower failedSteps
    · simp [hfailed.mpr hhere, hhere, plain name known]
    · have hany : (failedSteps.any fun step => lowersTo (strip step) name) = false :=
        Bool.eq_false_iff.mpr fun htrue => hhere (hfailed.mp htrue)
      rw [hany]
      simp [hnone, hhere]
  | some line =>
    obtain ⟨hmem, hname⟩ := List.mem_filter.mp (List.mem_of_getLast? hlines)
    have hnamed : name ∈ log.map (stepName lower) :=
      List.mem_map.mpr ⟨line, hmem, of_decide_eq_true hname⟩
    refine ⟨by simp [hnamed], fun data hdata => ?_⟩
    obtain rfl := Option.some.inj hdata
    refine ⟨strip_strip _, ?_⟩
    by_cases hhere : name ∈ failedNames lower failedSteps
    · rw [if_pos hhere, if_pos (hfailed.mpr hhere)]
    · rw [if_neg hhere, if_neg (by rwa [hfailed])]

theorem mintSteps_returns (drafts : List (String × InvestigationStepStatus × String)) :
    Returns (mapEach (mintStep ports incidentId now) drafts) fun steps =>
      steps.map InvestigationStep.name = drafts.map Prod.fst ∧
      ∀ step ∈ steps, (step.name, step.status, step.detail) ∈ drafts ∧
        step.incidentId = incidentId ∧ step.occurredAt = now := by
  induction drafts with
  | nil =>
    intro s steps t h
    cases h
    exact ⟨rfl, by simp⟩
  | cons draft drafts ih =>
    intro s steps t h
    obtain ⟨step, u, hstep, h⟩ := bind_eq_ok.mp h
    obtain ⟨others, v, hothers, h⟩ := bind_eq_ok.mp h
    cases h
    obtain ⟨id, w, _, hstep⟩ := bind_eq_ok.mp hstep
    cases hstep
    obtain ⟨hnames, hall⟩ := ih _ _ _ hothers
    refine ⟨congrArg (draft.1 :: ·) hnames, List.forall_mem_cons.mpr ⟨⟨List.mem_cons_self, rfl, rfl⟩,
      fun step hstep => ?_⟩⟩
    obtain ⟨hmem, hrest⟩ := hall step hstep
    exact ⟨List.mem_cons_of_mem _ hmem, hrest⟩

theorem names_drafts {Data : Type} (data : String → Option Data) (names : List String) :
    (names.filterMap fun name => (data name).map fun found => (name, found)).map Prod.fst =
      names.filter fun name => (data name).isSome := by
  induction names with
  | nil => rfl
  | cons name names ih =>
    cases h : data name with
    | none => simpa [h] using ih
    | some found => simpa [h] using ih

theorem progress_new_ok {hops : Int} {status : InvestigationRunStatus} {reason : String}
    {paused : Bool} {steps : List InvestigationStep} {updatedAt : Instant}
    {progress : InvestigationProgress}
    (h : InvestigationProgress.new incidentId hops status reason paused steps updatedAt =
      .ok progress) : progress.incidentId = incidentId ∧ progress.steps = steps := by
  unfold InvestigationProgress.new at h
  split at h
  · cases h
  · cases h
    exact ⟨rfl, rfl⟩

/-- The progress that a runner records has the steps of the graph result. -/
theorem progressFromGraphResult_steps {result : Channels} (lowers : LowersKnown ports.lower) :
    Returns (progressFromGraphResult ports incidentId result log) fun progress =>
      GraphSteps incidentId (failedNames ports.lower result.failedSteps)
        (namedSteps ports.lower result.failedSteps log) progress.steps := by
  refine returns_bind fun now => ?_
  intro s progress t h
  obtain ⟨steps, u, hsteps, h⟩ := bind_eq_ok.mp h
  obtain ⟨updatedAt, v, _, h⟩ := bind_eq_ok.mp h
  obtain ⟨_, rfl⟩ := progress_new_ok (fromExcept_eq_ok.mp h).1
  obtain ⟨hnames, hall⟩ := mintSteps_returns _ s _ u hsteps
  rw [names_drafts] at hnames
  have ascending : knownSteps.Pairwise fun a b => stepOrder a < stepOrder b := by decide
  refine ⟨?_, fun name => ?_, now, fun step hstep => ?_⟩
  · have hsorted := ascending.sublist (List.filter_sublist (p := fun name =>
      (stepData ports.lower result.failedSteps log name).isSome))
    rw [← hnames, List.pairwise_map] at hsorted
    exact hsorted
  · rw [← List.mem_map, hnames, List.mem_filter]
    exact and_congr_right fun known => (stepData_spec lowers known).1
  · obtain ⟨hdraft, hincident, htime⟩ := hall step hstep
    obtain ⟨name, known, hdata⟩ := List.mem_filterMap.mp hdraft
    obtain ⟨data, hdata, hpair⟩ := Option.map_eq_some_iff.mp hdata
    obtain ⟨hdetail, hstatus⟩ := (stepData_spec lowers known).2 data hdata
    cases hpair
    exact ⟨known, hincident, htime, hstatus, hdetail⟩

end Runner

end Aegis
