import Aegis.TransitionIncident
import Aegis.ExactlyOnce
import Aegis.Moments

namespace Aegis

open Raising Proc StepPath

structure CreateIncidentCommand where
  title : String
  affectedService : String
  severity : Severity
  description : Option String
  ownerId : Option Uuid
  fingerprint : Option String

structure IngestIncidentSignalCommand where
  source : String
  service : String
  title : String
  severity : Severity
  summary : Option String
  scenario : Option String
  fingerprint : Option String

/-- `strftime("%Y-%m-%dT%H")` of a UTC moment. -/
def hourText (moment : Instant) : String :=
  let (year, month, day) := civil (moment / 86400000000)
  decimal 4 year.toNat ++ "-" ++ decimal 2 month.toNat ++ "-" ++ decimal 2 day.toNat ++ "T" ++
    decimal 2 (moment / 1000000 % 86400 / 3600).toNat

/-- `compute_fingerprint` -/
def computeFingerprint (lower : String → String) (affectedService : String)
    (scenario : Option String) (occurredAt : Instant) : Except Raised String :=
  let service := lower (strip affectedService)
  let scenarioKey := lower (strip (scenario.getD ""))
  if service = "" then .error (.invalid "affected_service must not be empty.")
  else
    .ok ("v1|" ++ service ++ "|" ++ (if scenarioKey = "" then "unspecified" else scenarioKey) ++
      "|" ++ hourText occurredAt)

/-- `_optional_text` -/
def optionalText (value : Option String) (fieldName : String) :
    Except Raised (Option RequiredText) :=
  match value with
  | none => .ok none
  | some value => (requireText value fieldName).map some

/-- `Incident.create` with the id and the moment it takes. -/
def Incident.create (id : Uuid) (moment : Instant) (command : CreateIncidentCommand) :
    Except Raised Incident := do
  let title ← requireText command.title "title"
  let affectedService ← requireText command.affectedService "affected_service"
  let fingerprint ← optionalText command.fingerprint "fingerprint"
  let description := strip (command.description.getD "")
  pure {
    id, title, affectedService, fingerprint
    description := if description = "" then none else some description
    state := .open
    severity := command.severity
    ownerId := command.ownerId
    createdAt := moment
    updatedAt := moment
    stateHistory := [] }

/-- `Incident.note_duplicate_signal` -/
def Incident.noteDuplicateSignal (incident : Incident) (occurredAt : Instant) : Incident :=
  let line := "duplicate signal at " ++ isoformat occurredAt
  { incident with
    description := some (match incident.description with
      | none => line
      | some description => if description = "" then line else description ++ "\n" ++ line)
    updatedAt := occurredAt }

/-- `incident_opened_v1` without its timestamp, with the event id it takes. -/
def incidentOpenedEvent (incidentId : Uuid) (correlationId : String) (eventId : Uuid) :
    Except Raised DomainEvent :=
  if strip correlationId = "" then .error (.other "correlation_id is required.")
  else .ok ⟨strip eventId.str, incidentOpenedV1, "1", strip correlationId, strip incidentId.str⟩

/-- The primary key, and the index `ux_incidents_open_fingerprint`. -/
def incidentConflict (incident : Incident) (db : Db) : Bool :=
  db.incidents.any fun row => row.id = incident.id ||
    (row.state = .open && incident.state = .open && incident.fingerprint.isSome &&
      row.fingerprint.map RequiredText.text = incident.fingerprint.map RequiredText.text)

/-- `_signal_description` -/
def signalDescription (command : IngestIncidentSignalCommand) : String :=
  String.intercalate "\n"
    ((if command.summary.getD "" = "" then [] else [command.summary.getD ""]) ++
      ["incident.signal.v1 source=" ++ command.source] ++
      if command.scenario.getD "" = "" then []
      else ["scenario=" ++ command.scenario.getD ""])

/-- The outcome, with the event that the publisher keeps until the commit. -/
structure IngestIncidentSignalResult where
  incident : Incident
  created : Bool
  published : Option DomainEvent

section Calls

variable {World : Type} (ports : WorkerPorts World)

/-- An open incident of the fingerprint. -/
def openWith (fingerprint : String) (row : Incident) : Bool :=
  row.fingerprint.map RequiredText.text = some fingerprint && row.state = .open

/-- `get_open_by_fingerprint` -/
def getOpenByFingerprint (fingerprint : String) :
    Proc (Session World) Raised (Option Incident) :=
  select ports fun db => (db.incidents.find? (openWith fingerprint)).map toDomain

/-- `SqlAlchemyIncidentRepository.create` -/
def addIncident (incident : Incident) : Proc (Session World) Raised Unit :=
  write ports (incidentConflict incident) fun db =>
    { db with incidents := db.incidents ++ [incident] }

/-- `CreateIncident.execute` -/
def createIncident (command : CreateIncidentCommand) (correlationId : String) :
    Proc (Session World) Raised (Incident × DomainEvent) := do
  let moment ← sessionDraw ports.now
  let id ← sessionDraw ports.uuid4
  let incident ← fromExcept (Incident.create id moment command)
  addIncident ports incident
  let _timestamp ← sessionDraw ports.now
  let eventId ← sessionDraw ports.uuid4
  let event ← fromExcept (incidentOpenedEvent incident.id correlationId eventId)
  pure (incident, event)

/-- The end of `IngestIncidentSignal.execute`, after its lookup. -/
def linkOrCreate (command : IngestIncidentSignalCommand) (correlationId fingerprint : String)
    (occurredAt : Instant) :
    Option Incident → Proc (Session World) Raised IngestIncidentSignalResult
  | some existing => do
    let noted := existing.noteDuplicateSignal occurredAt
    save ports noted
    let persisted ← read fun s => reloaded noted s.db
    pure ⟨persisted, false, none⟩
  | none => do
    let (incident, event) ← createIncident ports {
      title := command.title
      affectedService := command.service
      severity := command.severity
      description := some (signalDescription command)
      ownerId := none
      fingerprint := some fingerprint } correlationId
    pure ⟨incident, true, some event⟩

/-- `IngestIncidentSignal.execute` -/
def ingestIncidentSignal (command : IngestIncidentSignalCommand) (correlationId : String) :
    Proc (Session World) Raised IngestIncidentSignalResult := do
  let occurredAt ← sessionDraw ports.now
  let fingerprint ← fromExcept
    (computeFingerprint ports.lower command.service command.scenario occurredAt)
  let existing ← getOpenByFingerprint ports fingerprint
  linkOrCreate ports command correlationId fingerprint occurredAt existing

/-- A webhook signal, a message of the worker, or a transition by a person. -/
inductive SignalAction where
  | signal (command : IngestIncidentSignalCommand) (correlationId : String)
  | opened (event : DomainEvent)
  | transition (incidentId : Uuid) (newState : IncidentState)

/-- The tables and the process after an action, in whatever world it finds. -/
def afterAction (worker : Worker World) : SignalAction → Worker World
  | .signal command correlationId =>
    (inSession ports (ingestIncidentSignal ports command correlationId) worker).2
  | .opened event => (deliver ports event worker).worker
  | .transition incidentId newState =>
    (inSession ports (transitionIncident ports incidentId newState) worker).2

def SignalStep (worker : Worker World) (action : SignalAction × World) (next : Worker World) :
    Prop :=
  next = afterAction ports (worker.inWorld action.2) action.1

end Calls

section Fingerprint

/-- A fingerprint has no space at its ends, so that it is stored as it was computed. -/
theorem strip_computeFingerprint {lower : String → String} {affectedService : String}
    {scenario : Option String} {occurredAt : Instant} {fingerprint : String}
    (h : computeFingerprint lower affectedService scenario occurredAt = .ok fingerprint) :
    strip fingerprint = fingerprint := by
  unfold computeFingerprint at h
  dsimp only at h
  split at h
  · cases h
  · cases h
    unfold hourText
    dsimp only
    have hhour := decimal_ne_nil 2 (occurredAt / 1000000 % 86400 / 3600).toNat
    have hdigit := decimal_isDigit (List.getLast_mem hhour)
    refine strip_eq_iff.mpr ⟨fun c hc => ?_, fun c hc => ?_⟩
    · obtain rfl : 'v' = c := by simpa using hc
      decide
    · rw [← String.append_assoc, String.toList_append, List.getLast?_append,
        List.getLast?_eq_some_getLast hhour] at hc
      obtain rfl := Option.some.inj hc
      exact isSpace_of_isAlphanum (by rw [Char.isAlphanum, hdigit, Bool.or_true])

end Fingerprint

/-- At most one open incident has a fingerprint. -/
structure OneOpen (db : Db) : Prop where
  ids : (db.incidents.map Incident.id).Nodup
  fingerprints : ∀ a ∈ db.incidents, ∀ b ∈ db.incidents, ∀ fingerprint,
    openWith fingerprint a = true → openWith fingerprint b = true → a = b

section Tables

variable {db other : Db} {row moved : Incident} {fingerprint : String}

theorem openWith_iff : openWith fingerprint row = true ↔
    row.fingerprint.map RequiredText.text = some fingerprint ∧ row.state = .open := by
  simp [openWith]

/-- A saved incident that is open was open before, under the same fingerprint. -/
theorem oneOpen_saveIncident (h : OneOpen db) (hrow : row ∈ db.incidents) (hid : moved.id = row.id)
    (before : ∀ fingerprint, openWith fingerprint moved = true → openWith fingerprint row = true)
    (hsaved : other.incidents = (saveIncident moved db).incidents) : OneOpen other := by
  have new : ∀ fingerprint, openWith fingerprint (applyToOrm moved row) = true →
      openWith fingerprint row = true := before
  refine ⟨by rw [hsaved, saveIncident_ids]; exact h.ids, fun a ha b hb fingerprint hopenA hopenB => ?_⟩
  rw [hsaved] at ha hb
  rcases saved_row h.ids hrow hid ha with ⟨_, rfl⟩ | ⟨hneA, holdA⟩
  · rcases saved_row h.ids hrow hid hb with ⟨_, rfl⟩ | ⟨hneB, holdB⟩
    · rfl
    · exact absurd (congrArg Incident.id
        (h.fingerprints b holdB row hrow fingerprint hopenB (new fingerprint hopenA))) hneB
  · rcases saved_row h.ids hrow hid hb with ⟨_, rfl⟩ | ⟨hneB, holdB⟩
    · exact absurd (congrArg Incident.id
        (h.fingerprints a holdA row hrow fingerprint hopenA (new fingerprint hopenB))) hneA
    · exact h.fingerprints a holdA b holdB fingerprint hopenA hopenB

theorem oneOpen_moved {newState : IncidentState} {moment : Instant} (h : OneOpen db)
    (hrow : row ∈ db.incidents) (hmove : (toDomain row).transitionTo newState moment = .ok moved)
    (hsaved : other.incidents = (saveIncident moved db).incidents) : OneOpen other := by
  obtain ⟨hcan, hmoved⟩ := transitionTo_ok hmove
  refine oneOpen_saveIncident h hrow (by rw [hmoved]; rfl) (fun fingerprint hopen => ?_) hsaved
  obtain ⟨_, hstate⟩ := openWith_iff.mp hopen
  have hrank := canTransition_rank hcan
  rw [hmoved] at hstate
  change newState = .open at hstate
  rw [hstate] at hrank
  exact absurd hrank (Nat.not_lt_zero _)

theorem oneOpen_added {incident : Incident} (h : OneOpen db)
    (hfree : incidentConflict incident db = false)
    (hadded : other.incidents = db.incidents ++ [incident]) : OneOpen other := by
  have apart : ∀ row ∈ db.incidents, row.id ≠ incident.id ∧
      ∀ fingerprint, openWith fingerprint row = true → openWith fingerprint incident = false := by
    intro row hrow
    have hfree := List.any_eq_false.mp hfree row hrow
    simp only [Bool.or_eq_true, decide_eq_true_eq, not_or] at hfree
    refine ⟨hfree.1, fun fingerprint hopen => Bool.eq_false_iff.mpr fun hnew => hfree.2 ?_⟩
    obtain ⟨hrowText, hrowState⟩ := openWith_iff.mp hopen
    obtain ⟨htext, hstate⟩ := openWith_iff.mp hnew
    have hsome : incident.fingerprint.isSome = true := by
      cases hfingerprint : incident.fingerprint with
      | none =>
        rw [hfingerprint] at htext
        cases htext
      | some text => rfl
    simp [hrowState, hstate, hsome, hrowText, htext]
  refine ⟨?_, fun a ha b hb fingerprint hopenA hopenB => ?_⟩
  · rw [hadded, List.map_append, List.nodup_append]
    refine ⟨h.ids, by simp, fun a ha b hb => ?_⟩
    obtain ⟨row, hrow, rfl⟩ := List.mem_map.mp ha
    rw [List.map_singleton, List.mem_singleton] at hb
    rw [hb]
    exact (apart row hrow).1
  · rw [hadded] at ha hb
    rcases List.mem_append.mp ha with ha | ha
    · rcases List.mem_append.mp hb with hb | hb
      · exact h.fingerprints a ha b hb fingerprint hopenA hopenB
      · rw [List.mem_singleton.mp hb, (apart a ha).2 fingerprint hopenA] at hopenB
        cases hopenB
    · rcases List.mem_append.mp hb with hb | hb
      · rw [List.mem_singleton.mp ha, (apart b hb).2 fingerprint hopenB] at hopenA
        cases hopenA
      · rw [List.mem_singleton.mp ha, List.mem_singleton.mp hb]

end Tables

section Signal

variable {World : Type} {ports : WorkerPorts World} {s t : Session World}
  {command : IngestIncidentSignalCommand} {correlationId fingerprint : String}

theorem optionalText_text {value : Option String} {fieldName : String}
    {stored : Option RequiredText} (h : optionalText value fieldName = .ok stored) :
    stored.map RequiredText.text = value.map strip := by
  cases value with
  | none =>
    cases h
    rfl
  | some value =>
    change (requireText value fieldName).map some = .ok stored at h
    cases htext : requireText value fieldName with
    | error raised =>
      rw [htext] at h
      cases h
    | ok text =>
      rw [htext] at h
      cases h
      exact congrArg some (requireText_text htext)

theorem incident_create_ok {id : Uuid} {moment : Instant} {command : CreateIncidentCommand}
    {incident : Incident} (h : Incident.create id moment command = .ok incident) :
    incident.state = .open ∧
      incident.fingerprint.map RequiredText.text = command.fingerprint.map strip := by
  obtain ⟨title, _, h⟩ := bind_ok h
  obtain ⟨affectedService, _, h⟩ := bind_ok h
  obtain ⟨stored, hstored, h⟩ := bind_ok h
  cases h
  exact ⟨rfl, optionalText_text hstored⟩

theorem createIncident_ok {command : CreateIncidentCommand} {out : Incident × DomainEvent}
    (h : createIncident ports command correlationId s = (.ok out, t)) :
    out.1.state = .open ∧
      out.1.fingerprint.map RequiredText.text = command.fingerprint.map strip ∧
      incidentConflict out.1 s.db = false ∧
      t.db = { s.db with incidents := s.db.incidents ++ [out.1] } := by
  obtain ⟨moment, s₁, hmoment, h⟩ := bind_eq_ok.mp h
  obtain ⟨id, s₂, hid, h⟩ := bind_eq_ok.mp h
  obtain ⟨incident, s₃, hincident, h⟩ := bind_eq_ok.mp h
  obtain ⟨_, s₄, hadd, h⟩ := bind_eq_ok.mp h
  obtain ⟨_, s₅, htimestamp, h⟩ := bind_eq_ok.mp h
  obtain ⟨eventId, s₆, heventId, h⟩ := bind_eq_ok.mp h
  obtain ⟨event, s₇, hevent, h⟩ := bind_eq_ok.mp h
  cases h
  obtain ⟨hcreate, rfl⟩ := fromExcept_eq_ok.mp hincident
  obtain ⟨_, rfl⟩ := fromExcept_eq_ok.mp hevent
  obtain ⟨hfree, hwritten⟩ := write_ok hadd
  have hdb : s₂.db = s.db := (sessionDraw_ok hid).trans (sessionDraw_ok hmoment)
  obtain ⟨hstate, hfingerprint⟩ := incident_create_ok hcreate
  rw [hdb] at hfree
  refine ⟨hstate, hfingerprint, hfree, ?_⟩
  rw [sessionDraw_ok heventId, sessionDraw_ok htimestamp, hwritten.db, hdb]

/-- An open incident of the fingerprint takes the signal; without one, a new incident does. -/
inductive SignalTaken (fingerprint : String) (occurredAt : Instant) (before after : Db)
    (result : IngestIncidentSignalResult) : Prop
  | linked (row : Incident)
      (found : before.incidents.find? (openWith fingerprint) = some row)
      (created : result.created = false) (id : result.incident.id = row.id)
      (saved : after = saveIncident ((toDomain row).noteDuplicateSignal occurredAt) before)
  | created (none : before.incidents.find? (openWith fingerprint) = none)
      (created : result.created = true) (opened : openWith fingerprint result.incident = true)
      (free : incidentConflict result.incident before = false)
      (added : after = { before with incidents := before.incidents ++ [result.incident] })

theorem ingestIncidentSignal_ok {result : IngestIncidentSignalResult}
    (h : ingestIncidentSignal ports command correlationId s = (.ok result, t)) :
    ∃ fingerprint, computeFingerprint ports.lower command.service command.scenario
        (ports.now s.process.world).1 = .ok fingerprint ∧
      SignalTaken fingerprint (ports.now s.process.world).1 s.db t.db result := by
  obtain ⟨occurredAt, s₁, hclock, h⟩ := bind_eq_ok.mp h
  have hs₁ := sessionDraw_ok hclock
  obtain ⟨world, hdraw, _⟩ := within_eq_ok.mp hclock
  have hnow : occurredAt = (ports.now s.process.world).1 := by
    cases hdraw
    rfl
  obtain ⟨fingerprint, s₂, hcompute, h⟩ := bind_eq_ok.mp h
  obtain ⟨hfingerprint, rfl⟩ := fromExcept_eq_ok.mp hcompute
  obtain ⟨existing, s₃, hlookup, h⟩ := bind_eq_ok.mp h
  obtain ⟨rfl, hs₃⟩ := select_ok hlookup
  rw [hs₁] at hs₃ h
  rw [← hnow]
  refine ⟨fingerprint, hfingerprint, ?_⟩
  cases hfind : s.db.incidents.find? (openWith fingerprint) with
  | some row =>
    rw [hfind] at h
    obtain ⟨_, s₄, hsave, h⟩ := bind_eq_ok.mp h
    have hsaved := (write_ok hsave).2.db
    cases h
    rw [hs₃] at hsaved
    have hrow := List.mem_of_find?_eq_some hfind
    refine .linked row hfind rfl ?_ hsaved
    unfold reloaded
    dsimp only
    cases hreload : t.db.incidents.find? (fun other =>
        other.id = ((toDomain row).noteDuplicateSignal occurredAt).id) with
    | none => rfl
    | some other =>
      have : other.id = ((toDomain row).noteDuplicateSignal occurredAt).id := by
        simpa using List.find?_some hreload
      exact this
  | none =>
    rw [hfind] at h
    obtain ⟨⟨incident, event⟩, s₄, hcreate, h⟩ := bind_eq_ok.mp h
    cases h
    obtain ⟨hstate, htext, hfree, hadded⟩ := createIncident_ok hcreate
    rw [hs₃] at hfree hadded
    refine .created hfind rfl (openWith_iff.mpr ⟨?_, hstate⟩) hfree hadded
    rw [htext, Option.map_some, strip_computeFingerprint hfingerprint]

theorem oneOpen_signalTaken {occurredAt : Instant} {before after : Db}
    {result : IngestIncidentSignalResult} (h : OneOpen before)
    (taken : SignalTaken fingerprint occurredAt before after result) : OneOpen after := by
  cases taken with
  | linked row found _ _ saved =>
    exact @oneOpen_saveIncident before after row
      ((toDomain row).noteDuplicateSignal occurredAt) h (List.mem_of_find?_eq_some found) rfl
      (fun _ hopen => hopen) (by rw [saved])
  | created _ _ _ free added => exact oneOpen_added h free (by rw [added])

/-- At most one open incident has a fingerprint, and a signal of it that goes through is noted on
that incident alone. -/
structure Deduplicates (ports : WorkerPorts World) (worker : Worker World) : Prop
    extends OneOpen worker.db where
  links : ∀ command correlationId world result next fingerprint,
    inSession ports (ingestIncidentSignal ports command correlationId) (worker.inWorld world) =
      (.ok result, next) →
    computeFingerprint ports.lower command.service command.scenario (ports.now world).1 =
      .ok fingerprint →
    ∀ row ∈ worker.db.incidents, openWith fingerprint row = true →
      result.created = false ∧ result.incident.id = row.id ∧
        next.db = saveIncident ((toDomain row).noteDuplicateSignal (ports.now world).1) worker.db

/-- A signal that goes through has been taken by the incidents as they were. -/
theorem inSession_signal {worker next : Worker World} {world : World}
    {result : IngestIncidentSignalResult}
    (h : inSession ports (ingestIncidentSignal ports command correlationId)
      (worker.inWorld world) = (.ok result, next)) :
    ∃ fingerprint, computeFingerprint ports.lower command.service command.scenario
        (ports.now world).1 = .ok fingerprint ∧
      SignalTaken fingerprint (ports.now world).1 worker.db next.db result := by
  rcases inSession_cases ports (ingestIncidentSignal ports command correlationId)
    (worker.inWorld world) with
    ⟨raised, process, hsession, _⟩ | ⟨answered, s, process, hcall, hsession⟩
  · rw [hsession] at h
    cases h
  · rw [hsession] at h
    cases h
    obtain ⟨fingerprint, hfingerprint, htaken⟩ := ingestIncidentSignal_ok hcall
    exact ⟨fingerprint, hfingerprint, htaken⟩

theorem deduplicates_of_oneOpen {worker : Worker World} (h : OneOpen worker.db) :
    Deduplicates ports worker := by
  refine ⟨h, fun command correlationId world result next fingerprint hsession hcompute row hrow
    hopen => ?_⟩
  obtain ⟨computed, hcomputed, htaken⟩ := inSession_signal hsession
  have hsame : computed = fingerprint := Except.ok.inj (hcomputed.symm.trans hcompute)
  rw [hsame] at htaken
  cases htaken with
  | linked found hfound created id saved =>
    have hfoundRow : found = row := h.fingerprints found (List.mem_of_find?_eq_some hfound) row hrow
      fingerprint (List.find?_some hfound) hopen
    rw [hfoundRow] at id saved
    exact ⟨created, id, saved⟩
  | created none _ _ _ _ => exact absurd hopen (List.find?_eq_none.mp none row hrow)

theorem oneOpen_afterAction {worker : Worker World} {world : World} (h : OneOpen worker.db)
    (action : SignalAction) : OneOpen (afterAction ports (worker.inWorld world) action).db := by
  cases action with
  | signal command correlationId =>
    change OneOpen (inSession ports (ingestIncidentSignal ports command correlationId)
      (worker.inWorld world)).2.db
    rcases hsession : inSession ports (ingestIncidentSignal ports command correlationId)
      (worker.inWorld world) with ⟨raised | result, after⟩
    · rcases inSession_cases ports (ingestIncidentSignal ports command correlationId)
        (worker.inWorld world) with ⟨_, process, hrefused, _⟩ | ⟨_, _, process, _, hanswered⟩
      · rw [hrefused] at hsession
        cases hsession
        exact h
      · rw [hanswered] at hsession
        cases hsession
    · obtain ⟨_, _, htaken⟩ := inSession_signal hsession
      exact oneOpen_signalTaken h htaken
  | opened event =>
    change OneOpen (deliver ports event (worker.inWorld world)).worker.db
    rcases incidents_deliver ports event (worker.inWorld world) with
      hsame | ⟨row, moment, moved, hopens, hmove, hsaved⟩
    · exact ⟨hsame ▸ h.ids, hsame ▸ h.fingerprints⟩
    · exact oneOpen_moved h (List.mem_of_find?_eq_some hopens.found) hmove hsaved
  | transition incidentId newState =>
    change OneOpen (inSession ports (transitionIncident ports incidentId newState)
      (worker.inWorld world)).2.db
    rcases inSession_cases ports (transitionIncident ports incidentId newState)
      (worker.inWorld world) with ⟨_, process, hsession, _⟩ | ⟨_, s, process, hcall, hsession⟩
    · rw [hsession]
      exact h
    · rw [hsession]
      obtain ⟨row, moment, moved, hrow, hmove, hdb⟩ := transitionIncident_ok hcall
      exact oneOpen_moved h (List.mem_of_find?_eq_some hrow) hmove (by rw [hdb]; rfl)

/-- Signals are linked to an incident as long as it is open. -/
theorem open_signals_deduplicated {start : Worker World}
    {path : List ((SignalAction × World) × Worker World)} (h : OneOpen start.db)
    (run : Path (SignalStep ports) start path) :
    ∀ worker ∈ visited start path, Deduplicates ports worker := by
  have kept : ∀ worker ∈ visited start path, OneOpen worker.db := by
    refine invariant (fun before action after h hstep => ?_) run h
    rw [hstep]
    exact oneOpen_afterAction h action.1
  exact fun worker hworker => deduplicates_of_oneOpen (kept worker hworker)

end Signal

/-- The worker after an action at the given time. -/
def signalled (worker : Worker Script) (action : SignalAction × Script) : Worker Script :=
  afterAction scripted (worker.inWorld action.2) action.1

def checkoutSignal : SignalAction :=
  .signal ⟨"simulator", "checkout", "calls to payment fail", .high, none, some "dependency_failure", none⟩ "r1"

def emptyWorker : Worker Script := openWorker [] ⟨0, 10, [], [], []⟩

def firstSignal : SignalAction × Script := (checkoutSignal, ⟨0, 10, [], [], []⟩)

def startOfFirst : SignalAction × Script := (.opened (openedEvent 10), ⟨60000000, 100, [], [], []⟩)

def secondSignal : SignalAction × Script := (checkoutSignal, ⟨120000000, 900, [], [], []⟩)

theorem emptyWorker_oneOpen : OneOpen emptyWorker.db := ⟨by decide, fun a ha => by cases ha⟩

/-- The second signal is noted on the open incident of the first, before a worker takes it up. -/
theorem second_signal_deduplicates :
    Path (SignalStep scripted) emptyWorker [(firstSignal, signalled emptyWorker firstSignal),
      (secondSignal, signalled (signalled emptyWorker firstSignal) secondSignal)] ∧
    (signalled (signalled emptyWorker firstSignal) secondSignal).db.incidents.map
      (fun row => (row.id, row.state, row.updatedAt)) = [(10, .open, 120000000)] ∧
    ∀ worker ∈ visited emptyWorker [(firstSignal, signalled emptyWorker firstSignal),
      (secondSignal, signalled (signalled emptyWorker firstSignal) secondSignal)],
        Deduplicates scripted worker := by
  have run : Path (SignalStep scripted) emptyWorker
      [(firstSignal, signalled emptyWorker firstSignal),
        (secondSignal, signalled (signalled emptyWorker firstSignal) secondSignal)] :=
    Path.next rfl (Path.next rfl Path.stop)
  exact ⟨run, by decide +kernel, open_signals_deduplicated emptyWorker_oneOpen run⟩

def afterSecondSignal : Worker Script :=
  signalled (signalled (signalled emptyWorker firstSignal) startOfFirst) secondSignal

/-- The second signal of an hour finds its incident under investigation and opens another. -/
theorem signal_after_start_opens_another : ∃ path,
    emptyWorker.db.incidents = [] ∧ Path (SignalStep scripted) emptyWorker path ∧
      ∃ worker ∈ visited emptyWorker path, ∃ a ∈ worker.db.incidents, ∃ b ∈ worker.db.incidents,
        a.id ≠ b.id ∧ a.state ≠ .closed ∧ b.state ≠ .closed ∧ a.fingerprint.isSome = true ∧
        a.fingerprint.map RequiredText.text = b.fingerprint.map RequiredText.text := by
  refine ⟨[(firstSignal, signalled emptyWorker firstSignal),
    (startOfFirst, signalled (signalled emptyWorker firstSignal) startOfFirst),
    (secondSignal, afterSecondSignal)], rfl,
    Path.next rfl (Path.next rfl (Path.next rfl Path.stop)), afterSecondSignal, by simp, ?_⟩
  have hrows : afterSecondSignal.db.incidents.map
      (fun row => (row.id, row.state, row.fingerprint.map RequiredText.text)) =
      [(10, .investigating, some "v1|checkout|dependency_failure|1970-01-01T00"),
        (900, .open, some "v1|checkout|dependency_failure|1970-01-01T00")] := by decide +kernel
  generalize afterSecondSignal.db.incidents = rows at hrows ⊢
  obtain ⟨first, rest, rfl, hfirst, hrest⟩ := List.map_eq_cons_iff.mp hrows
  obtain ⟨second, others, rfl, hsecond, _⟩ := List.map_eq_cons_iff.mp hrest
  simp only [Prod.mk.injEq] at hfirst hsecond
  obtain ⟨hfirstId, hfirstState, hfirstText⟩ := hfirst
  obtain ⟨hsecondId, hsecondState, hsecondText⟩ := hsecond
  refine ⟨first, by simp, second, by simp, ?_, ?_, ?_, ?_, hfirstText.trans hsecondText.symm⟩
  · rw [hfirstId, hsecondId]
    decide
  · rw [hfirstState]
    decide
  · rw [hsecondState]
    decide
  · rw [← Option.isSome_map, hfirstText]
    rfl

end Aegis
