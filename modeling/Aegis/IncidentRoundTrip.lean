import Aegis.IncidentRows
import Aegis.LifecycleRace
import Aegis.TimeOrder

namespace Aegis

open StepPath Trails TimeOrder

section Notes

/-- The last character of the text is not white space. -/
def EndsVisible (s : String) : Prop := ∃ front last, s.toList = front ++ [last] ∧ isSpace last = false

theorem endsVisible_append {s t : String} (h : EndsVisible t) : EndsVisible (s ++ t) := by
  obtain ⟨front, last, ht, hlast⟩ := h
  exact ⟨s.toList ++ front, last, by rw [String.toList_append, ht, List.append_assoc], hlast⟩

theorem endsVisible_decimal (width n : Nat) : EndsVisible (decimal width n) := by
  have hne := decimal_ne_nil width n
  have hdigit := decimal_isDigit (List.getLast_mem hne)
  exact ⟨_, _, (List.dropLast_append_getLast hne).symm,
    isSpace_of_isAlphanum (by rw [Char.isAlphanum, hdigit, Bool.or_true])⟩

theorem endsVisible_isoOffset (offset : Int) : EndsVisible (isoOffset offset) := by
  unfold isoOffset
  dsimp only
  generalize (if offset < 0 then "-" else "+") = sign
  split
  · rw [String.append_empty]
    exact endsVisible_append (endsVisible_decimal _ _)
  · refine endsVisible_append ?_
    split
    · rw [String.append_empty]
      exact endsVisible_append (endsVisible_decimal _ _)
    · exact endsVisible_append (endsVisible_append (endsVisible_decimal _ _))

/-- The note of another signal leaves a description as the constructor would. -/
theorem described_note {incident : Incident} (h : Described incident.description)
    (occurredAt : Aware) : Described (incident.noteDuplicate occurredAt).description := by
  have line : EndsVisible ("duplicate signal at " ++ occurredAt.isoformat) :=
    endsVisible_append (endsVisible_append (endsVisible_isoOffset _))
  have visible : ∀ text : String, EndsVisible text →
      (∀ c, text.toList.head? = some c → isSpace c = false) → strip text = text ∧ text ≠ "" := by
    rintro text ⟨front, last, htext, hlast⟩ hfirst
    refine ⟨strip_eq_iff.mpr ⟨hfirst, fun c hc => ?_⟩, ?_⟩
    · rw [htext, List.getLast?_append_of_ne_nil _ (by simp)] at hc
      obtain rfl : last = c := by simpa using hc
      exact hlast
    · rintro rfl
      simp at htext
  intro text htext
  obtain rfl := Option.some.inj htext
  cases hdescription : incident.description with
  | none =>
    refine visible _ line fun c hc => ?_
    obtain rfl : 'd' = c := by simpa using hc
    decide
  | some description =>
    obtain ⟨stripped, ne⟩ := h description hdescription
    dsimp only
    rw [if_neg ne]
    refine visible _ (endsVisible_append line) fun c hc => (strip_eq_iff.mp stripped).first c ?_
    have hne : description.toList ≠ [] := by simpa using ne
    rwa [String.toList_append, String.toList_append, List.append_assoc,
      List.head?_append_of_ne_nil _ hne] at hc

end Notes

/-- What a caller does with an incident. -/
inductive KeepCall where
  | transition (newState : IncidentState) (occurredAt : Aware)
  | note (occurredAt : Aware)
  | create
  | save
  | reload

/-- A stored row, with the incident that was saved there and its transitions as they happened. -/
structure Saved where
  row : IncidentModel
  incident : Incident
  happened : List StateTransition

/-- An incident in memory, its transitions as they happened, and what is stored of it. -/
structure Keeping where
  incident : Incident
  happened : List StateTransition
  saved : Option Saved

/-- `order_by` gives no order to rows of one time: a load finds them in any. -/
abbrev Loaded (row : IncidentModel) (rows : List IncidentStateHistoryModel) : Prop :=
  Ordered IncidentStateHistoryModel.transitionedAt row.stateHistory rows

inductive KeepStep : Keeping → KeepCall → Keeping → Prop
  | transition {s newState occurredAt moved} :
      s.incident.transitionTo newState occurredAt.moment = .ok moved →
      KeepStep s (.transition newState occurredAt) { s with
        incident := moved
        happened := s.happened ++ [⟨s.incident.state, newState, occurredAt.moment⟩] }
  | refused {s newState occurredAt error} :
      s.incident.transitionTo newState occurredAt.moment = .error error →
      KeepStep s (.transition newState occurredAt) s
  | note {s occurredAt} :
      KeepStep s (.note occurredAt) { s with incident := s.incident.noteDuplicate occurredAt }
  | create {s} : s.saved = none →
      KeepStep s .create { s with saved := some ⟨s.incident.toOrm, s.incident, s.happened⟩ }
  | save {s saved} : s.saved = some saved →
      KeepStep s .save
        { s with saved := some ⟨saved.row.applyToOrm s.incident, s.incident, s.happened⟩ }
  | reload {s saved rows loaded} : s.saved = some saved → Loaded saved.row rows →
      { saved.row with stateHistory := rows }.toDomain = .ok loaded →
      KeepStep s .reload { s with incident := loaded, happened := saved.happened }

/-- Whatever the order of rows of one time, what is loaded is the incident that was saved, with its
transitions as they happened, on a path from `open` to its state. -/
def RoundTrips (saved : Saved) : Prop :=
  ∀ rows, Loaded saved.row rows → ∃ loaded,
    { saved.row with stateHistory := rows }.toDomain = .ok loaded ∧ loaded = saved.incident ∧
      loaded.stateHistory = saved.happened ∧ historyTrail loaded.stateHistory loaded.state

/-- Each transition is later than the one before. -/
abbrev Rising (happened : List StateTransition) : Prop :=
  happened.Pairwise fun a b => a.occurredAt < b.occurredAt

/-- What holds of an incident and the transitions that it went through. -/
structure WentThrough (incident : Incident) (happened : List StateTransition) : Prop where
  described : Described incident.description
  perm : incident.stateHistory.Perm happened
  trail : historyTrail happened incident.state
  allowed : ∀ step ∈ happened, canTransition step.fromState step.toState = true
  nodup : happened.Nodup
  order : Rising happened → incident.stateHistory = happened

structure Stored (saved : Saved) : Prop where
  through : WentThrough saved.incident saved.happened
  columns : saved.row = { saved.incident.toOrm with stateHistory := saved.row.stateHistory }
  rows : saved.row.stateHistory.Perm (saved.incident.stateHistory.map historyRow)

/-- The incident in memory goes on from the one that is stored. -/
structure GoesOn (saved : Saved) (s : Keeping) : Prop where
  happened : saved.happened <+: s.happened
  id : saved.incident.id = s.incident.id
  createdAt : saved.incident.createdAt = s.incident.createdAt

structure KeepsWell (s : Keeping) : Prop where
  through : WentThrough s.incident s.happened
  stored : ∀ saved ∈ s.saved, Stored saved ∧ GoesOn saved s

section Steps

variable {incident moved : Incident} {happened : List StateTransition} {newState : IncidentState}
  {moment : Instant} {saved : Saved} {s t : Keeping} {call : KeepCall}
  {rows : List IncidentStateHistoryModel}

theorem WentThrough.transition (h : WentThrough incident happened)
    (hmove : incident.transitionTo newState moment = .ok moved) :
    WentThrough moved (happened ++ [⟨incident.state, newState, moment⟩]) := by
  obtain ⟨hcan, rfl⟩ := transitionTo_ok hmove
  have fresh : (⟨incident.state, newState, moment⟩ : StateTransition) ∉ happened := by
    intro hmem
    have hlt := (trail_source_lt h.trail fun step hstep => canTransition_rank (h.allowed step hstep)).2
    exact absurd (hlt _ hmem) (lt_irrefl _)
  refine ⟨h.described, h.perm.append_right _, (trail_concat_iff h.trail).mpr ⟨rfl, rfl⟩, ?_, ?_,
    fun rising => ?_⟩
  · rw [List.forall_mem_append, List.forall_mem_singleton]
    exact ⟨h.allowed, hcan⟩
  · exact List.nodup_append.mpr ⟨h.nodup, List.nodup_singleton _, fun a ha b hb heq => by
      rw [List.mem_singleton.mp hb] at heq
      exact fresh (heq ▸ ha)⟩
  · exact congrArg (· ++ _) (h.order (List.pairwise_append.mp rising).1)

/-- A load finds the history in some order of its times. -/
theorem Stored.loaded (h : Stored saved) (hrows : Loaded saved.row rows) :
    ∃ steps, Ordered StateTransition.occurredAt saved.happened steps ∧
      { saved.row with stateHistory := rows }.toDomain =
        .ok { saved.incident with stateHistory := steps } := by
  obtain ⟨steps, hsteps, rfl⟩ :=
    (ordered_map (f := historyRow) fun _ => rfl).mp
      (hrows.of_perm h.rows)
  refine ⟨steps, hsteps.of_perm h.through.perm, toDomain_rows h.through.described ?_ steps rfl⟩
  rw [h.columns]

theorem Stored.load (h : Stored saved) {steps : List StateTransition}
    (hsteps : Ordered StateTransition.occurredAt saved.happened steps) :
    Loaded saved.row (steps.map historyRow) :=
  ⟨((hsteps.perm.trans h.through.perm.symm).map historyRow).trans h.rows.symm,
    (List.pairwise_map (f := historyRow)).mpr hsteps.sorted⟩

/-- A stored incident makes the round trip exactly when each of its transitions is later than the
one before. -/
theorem Stored.roundTrips_iff (h : Stored saved) : RoundTrips saved ↔ Rising saved.happened := by
  constructor
  · intro trips
    refine (ordered_back_iff h.through.nodup).mp fun steps hsteps => ?_
    obtain ⟨loaded, hload, _, hhistory, _⟩ := trips _ (h.load hsteps)
    have hread := @toDomain_rows saved.incident { saved.row with stateHistory := steps.map historyRow }
      h.through.described (by rw [h.columns]) steps rfl
    rw [hread] at hload
    rw [← hhistory, ← Except.ok.inj hload]
  · intro rising rows hrows
    obtain ⟨steps, hsteps, hload⟩ := h.loaded hrows
    obtain rfl := ordered_unique rising hsteps
    have same := h.through.order rising
    refine ⟨_, hload, ?_, rfl, h.through.trail⟩
    rw [← same]

theorem stored_toOrm (h : WentThrough incident happened) :
    Stored ⟨incident.toOrm, incident, happened⟩ :=
  ⟨h, rfl, List.Perm.refl _⟩

theorem stored_applyToOrm (h : Stored saved) (through : WentThrough incident happened)
    (before_ : saved.happened <+: happened) (id : saved.incident.id = incident.id)
    (createdAt : saved.incident.createdAt = incident.createdAt) :
    Stored ⟨saved.row.applyToOrm incident, incident, happened⟩ := by
  refine ⟨through, ?_, ?_⟩
  · rw [h.columns]
    unfold IncidentModel.applyToOrm Incident.toOrm
    rw [id, createdAt]
  · have nodup : (incident.stateHistory.map historyRow).Nodup :=
      (through.perm.nodup_iff.mpr through.nodup).map fun _ _ => historyRow_inj
    have nodupRows : saved.row.stateHistory.Nodup :=
      h.rows.nodup_iff.mpr ((h.through.perm.nodup_iff.mpr h.through.nodup).map
        fun _ _ => historyRow_inj)
    have sub : ∀ row ∈ saved.row.stateHistory, row ∈ incident.stateHistory.map historyRow := by
      intro row hrow
      obtain ⟨step, hstep, rfl⟩ := List.mem_map.mp (h.rows.mem_iff.mp hrow)
      have hmem := before_.subset (h.through.perm.mem_iff.mp hstep)
      exact List.mem_map_of_mem (through.perm.mem_iff.mpr hmem)
    unfold IncidentModel.applyToOrm
    refine (List.perm_ext_iff_of_nodup (List.nodup_append.mpr ⟨nodupRows, nodup.filter _, ?_⟩)
      nodup).mpr fun row => ?_
    · rintro a ha b hb rfl
      simpa [ha] using (List.mem_filter.mp hb).2
    · rw [List.mem_append, List.mem_filter]
      constructor
      · rintro (hrow | hrow)
        · exact sub row hrow
        · exact hrow.1
      · intro hrow
        by_cases hold : row ∈ saved.row.stateHistory
        · exact .inl hold
        · exact .inr ⟨hrow, by simpa using hold⟩

theorem keepStep_keepsWell (kept : KeepsWell s) (h : KeepStep s call t) : KeepsWell t := by
  cases h with
  | @transition newState occurredAt moved hmove =>
    refine ⟨kept.through.transition hmove, fun saved hsaved => ?_⟩
    obtain ⟨stored, goes⟩ := kept.stored saved hsaved
    obtain ⟨_, rfl⟩ := transitionTo_ok hmove
    exact ⟨stored, goes.happened.trans (List.prefix_append _ _), goes.id, goes.createdAt⟩
  | refused _ => exact kept
  | @note occurredAt =>
    have through := kept.through
    refine ⟨⟨described_note through.described occurredAt, through.perm, through.trail,
      through.allowed, through.nodup, through.order⟩, fun saved hsaved => ?_⟩
    obtain ⟨stored, goes⟩ := kept.stored saved hsaved
    exact ⟨stored, goes.happened, goes.id, goes.createdAt⟩
  | create _ =>
    refine ⟨kept.through, fun saved hsaved => ?_⟩
    obtain rfl := Option.some.inj hsaved
    exact ⟨stored_toOrm kept.through, List.prefix_refl _, rfl, rfl⟩
  | @save old hold =>
    obtain ⟨stored, goes⟩ := kept.stored old hold
    refine ⟨kept.through, fun saved hsaved => ?_⟩
    obtain rfl := Option.some.inj hsaved
    exact ⟨stored_applyToOrm stored kept.through goes.happened goes.id goes.createdAt,
      List.prefix_refl _, rfl, rfl⟩
  | @reload old rows loaded hold hrows hload =>
    obtain ⟨stored, goes⟩ := kept.stored old hold
    obtain ⟨steps, hsteps, hread⟩ := stored.loaded hrows
    rw [hread] at hload
    obtain rfl := Except.ok.inj hload
    have through := stored.through
    refine ⟨⟨through.described, hsteps.perm, through.trail, through.allowed, through.nodup,
      fun rising => ordered_unique rising hsteps⟩, fun saved hsaved => ?_⟩
    obtain rfl := Option.some.inj (hold.symm.trans hsaved)
    exact ⟨stored, List.prefix_refl _, rfl, rfl⟩

end Steps

section Runs

variable {id : Uuid} {moment : Instant} {command : CreateIncidentCommand} {incident : Incident}
  {path : List (KeepCall × Keeping)} {s : Keeping} {saved : Saved}

/-- A new incident, not stored yet. -/
def Keeping.new (incident : Incident) : Keeping := ⟨incident, [], none⟩

theorem keepsWell_new (created : Incident.create id moment command = .ok incident) :
    KeepsWell (.new incident) := by
  have described := described_create created
  obtain ⟨title, _, h⟩ := bind_ok created
  obtain ⟨affectedService, _, h⟩ := bind_ok h
  obtain ⟨fingerprint, _, h⟩ := bind_ok h
  cases h
  refine ⟨⟨described, List.Perm.refl _, Trail.nil, fun step hstep => ?_, List.nodup_nil, fun _ => rfl⟩,
    fun saved hsaved => ?_⟩
  · cases hstep
  · cases hsaved

/-- What is stored of an incident is loaded as it was saved, with its transitions in the order in
which they happened, exactly when each happened later than the one before. -/
theorem incident_round_trip_iff (created : Incident.create id moment command = .ok incident)
    (run : Path KeepStep (.new incident) path) (reached : s ∈ visited (.new incident) path)
    (stored : s.saved = some saved) : RoundTrips saved ↔ Rising saved.happened := by
  have kept := invariant (fun _ _ _ before_ h => keepStep_keepsWell before_ h) run (keepsWell_new created) s reached
  exact (kept.stored saved stored).1.roundTrips_iff

/-- The load that orders rows of one time as they were written, on which the requests are modelled,
is one of them. -/
theorem toDomain_among (h : Described incident.description) :
    ∃ rows, Loaded incident.toOrm rows ∧
      { incident.toOrm with stateHistory := rows }.toDomain = .ok (toDomain incident) := by
  have total : Std.Total fun a b : StateTransition => a.occurredAt ≤ b.occurredAt :=
    ⟨fun a b => le_total _ _⟩
  have trans : IsTrans StateTransition fun a b => a.occurredAt ≤ b.occurredAt :=
    ⟨fun _ _ _ => le_trans⟩
  refine ⟨(toDomain incident).stateHistory.map historyRow, ⟨?_, ?_⟩, toDomain_rows h rfl _ rfl⟩
  · exact (List.perm_insertionSort _ _).map historyRow
  · exact (List.pairwise_map (f := historyRow)).mpr (List.pairwise_insertionSort _ _)

def orderCommand : CreateIncidentCommand where
  title := "order errors"
  affectedService := "order"
  severity := .high
  description := none
  ownerId := none
  fingerprint := none

def orderIncident : Incident where
  id := 1
  title := ⟨"order errors", by decide, by decide⟩
  description := none
  state := .open
  severity := .high
  affectedService := ⟨"order", by decide, by decide⟩
  ownerId := none
  createdAt := 0
  updatedAt := 0
  stateHistory := []
  fingerprint := none

theorem order_created : Incident.create 1 0 orderCommand = .ok orderIncident := by
  rfl

def takenUp (first : Instant) : Incident :=
  { orderIncident with
    state := .investigating
    updatedAt := first
    stateHistory := [⟨.open, .investigating, first⟩] }

def closedThen (first second : Instant) : Incident :=
  { orderIncident with
    state := .closed
    updatedAt := second
    stateHistory := [⟨.open, .investigating, first⟩, ⟨.investigating, .closed, second⟩] }

def closedSaved (first second : Instant) : Saved :=
  ⟨(closedThen first second).toOrm, closedThen first second, (closedThen first second).stateHistory⟩

/-- The incident is taken up, closed and stored, at moments of two clocks. -/
def twoClocks (first second : Instant) : List (KeepCall × Keeping) :=
  [(.transition .investigating ⟨first, 0⟩, ⟨takenUp first, (takenUp first).stateHistory, none⟩),
    (.transition .closed ⟨second, 0⟩,
      ⟨closedThen first second, (closedThen first second).stateHistory, none⟩),
    (.create, ⟨closedThen first second, (closedThen first second).stateHistory,
      some (closedSaved first second)⟩)]

theorem twoClocks_run (first second : Instant) :
    Path KeepStep (.new orderIncident) (twoClocks first second) :=
  Path.next (KeepStep.transition rfl) (Path.next (KeepStep.transition rfl)
    (Path.next (KeepStep.create rfl) Path.stop))

theorem incident_round_trip_iff_in_time : RoundTrips (closedSaved 10 20) := by
  have rising : Rising (closedSaved 10 20).happened := by decide
  exact (incident_round_trip_iff order_created (twoClocks_run 10 20) final_mem_visited rfl).mpr
    rising

/-- The worker that closes the incident is behind the API that took it up: the history is loaded
the other way round. -/
theorem skewed_clocks_reorder : Path KeepStep (.new orderIncident) (twoClocks 10 5) ∧
    (final (.new orderIncident) (twoClocks 10 5)).saved = some (closedSaved 10 5) ∧
    ∃ rows loaded, Loaded (closedSaved 10 5).row rows ∧
      { (closedSaved 10 5).row with stateHistory := rows }.toDomain = .ok loaded ∧
      loaded.stateHistory = [⟨.investigating, .closed, 5⟩, ⟨.open, .investigating, 10⟩] ∧
      ¬historyTrail loaded.stateHistory loaded.state ∧ ¬RoundTrips (closedSaved 10 5) := by
  have load : Loaded (closedSaved 10 5).row
      [⟨"investigating", "closed", 5⟩, ⟨"open", "investigating", 10⟩] :=
    ⟨List.Perm.swap _ _ _, by decide⟩
  have reordered : ¬RoundTrips (closedSaved 10 5) := by
    intro trips
    obtain ⟨loaded, hload, hsame, _⟩ := trips _ load
    rw [hsame] at hload
    have := congrArg (Except.map Incident.stateHistory) hload
    revert this
    decide
  refine ⟨twoClocks_run 10 5, rfl, _, _, load, rfl, rfl, fun trail => ?_, reordered⟩
  have := (trail_cons_iff.mp trail).1
  cases this

end Runs

end Aegis
