import Aegis.ExactlyOnce

namespace Aegis

open Raising Proc

variable {World : Type} {ports : WorkerPorts World} {s t : Session World} {event : DomainEvent}

/-- The inbox, the incidents and the rules stay. -/
structure KeepsIntake (s t : Session World) : Prop where
  inbox : t.db.inbox = s.db.inbox
  incidents : t.db.incidents = s.db.incidents
  policyRules : t.db.policyRules = s.db.policyRules

theorem keepsIntake_of_db {s t : Session World} (h : t.db = s.db) : KeepsIntake s t := by
  constructor <;> rw [h]

theorem keepsIntake_refl (s : Session World) : KeepsIntake s s := ⟨rfl, rfl, rfl⟩

theorem keepsIntake_trans (s t u : Session World) (h : KeepsIntake s t) (h' : KeepsIntake t u) :
    KeepsIntake s u :=
  ⟨h'.inbox.trans h.inbox, h'.incidents.trans h.incidents, h'.policyRules.trans h.policyRules⟩

theorem keepsIntake_bind {Value Result : Type} {p : Proc (Session World) Raised Value}
    {f : Value → Proc (Session World) Raised Result} (first : Leaves KeepsIntake p)
    (second : ∀ a, Leaves KeepsIntake (f a)) : Leaves KeepsIntake (p >>= f) :=
  leaves_bind keepsIntake_trans first second

theorem keepsIntake_statement : Leaves KeepsIntake (statement ports) := fun s =>
  keepsIntake_of_db (statement_becomes ports s).db

theorem keepsIntake_write {conflict : Db → Bool} {change : Db → Db}
    (keeps : ∀ s : Session World, KeepsIntake s (s.withDb (change s.db))) :
    Leaves KeepsIntake (write ports conflict change) := by
  refine keepsIntake_bind keepsIntake_statement fun _ =>
    keepsIntake_bind (leaves_read keepsIntake_refl _) fun db => ?_
  split
  · exact leaves_raise keepsIntake_refl _
  · exact leaves_update keeps

theorem keepsIntake_drain {Value : Type} {buffer : Runner → Value} {clear : Runner → Runner}
    {f : Value → Proc (Session World) Raised Unit} (each : ∀ a, Leaves KeepsIntake (f a)) :
    Leaves KeepsIntake (drain buffer clear >>= f) :=
  keepsIntake_bind (fun _ => ⟨rfl, rfl, rfl⟩) each

theorem keepsIntake_of_notifies {Value : Type} {p : Proc (Session World) Raised Value}
    {incidentId : Uuid} (h : Leaves (Notifies incidentId) p) : Leaves KeepsIntake p := fun s => by
  obtain ⟨notes, hdb, _⟩ := (h s).db
  constructor <;> rw [hdb]

theorem keepsIntake_forEach {Item : Type} {f : Item → Proc (Session World) Raised Unit}
    (each : ∀ item, Leaves KeepsIntake (f item)) (items : List Item) :
    Leaves KeepsIntake (forEach f items) :=
  leaves_forEach keepsIntake_refl keepsIntake_trans each items

/-- The run of the graph and the persistence after it leave the inbox and the incidents alone. -/
theorem keepsIntake_investigateIncident (incident : Incident) :
    Leaves KeepsIntake (investigateIncident ports event incident) := by
  refine keepsIntake_bind (leaves_within fun s process => ⟨rfl, rfl, rfl⟩) fun _ => ?_
  refine keepsIntake_bind (keepsIntake_drain fun items => keepsIntake_forEach (fun row => ?_) items)
    fun _ => ?_
  · exact keepsIntake_bind (leaves_fromExcept keepsIntake_refl _) fun _ =>
      keepsIntake_write fun _ => ⟨rfl, rfl, rfl⟩
  refine keepsIntake_bind (keepsIntake_drain fun items => keepsIntake_forEach (fun entry => ?_) items)
    fun _ => ?_
  · exact keepsIntake_write fun _ => ⟨rfl, rfl, rfl⟩
  refine keepsIntake_bind (keepsIntake_drain fun items => keepsIntake_forEach (fun report => ?_) items)
    fun _ => keepsIntake_drain fun item => ?_
  · exact keepsIntake_bind (keepsIntake_write fun _ => ⟨rfl, rfl, rfl⟩) fun _ =>
      keepsIntake_of_notifies (notifies_notifyRcaReady incident report)
  · cases item with
    | none => exact leaves_pure keepsIntake_refl _
    | some progress =>
      exact keepsIntake_bind (keepsIntake_write fun _ => ⟨rfl, rfl, rfl⟩) fun _ =>
        keepsIntake_of_notifies (notifies_notifyEscalated incident _)

theorem keepsIntake_epilogue (moved : ConsumeOpenedResult × Option Incident) :
    Leaves KeepsIntake (epilogue ports event moved) := by
  refine keepsIntake_bind ?_ fun _ => keepsIntake_bind keepsIntake_statement fun _ =>
    leaves_pure keepsIntake_refl _
  obtain ⟨result, incident⟩ := moved
  cases incident with
  | none => exact leaves_pure keepsIntake_refl _
  | some incident => exact keepsIntake_investigateIncident incident

/-- The row that claims an event for an incident. -/
def DomainEvent.claim (event : DomainEvent) (incidentId : Uuid) : ProcessedEvent :=
  ⟨incidentId, event.eventType, event.schemaVersion, event.eventId, event.correlationId⟩

/-- What a claimed event does to the inbox and the incidents: nothing when its key is there, and
else it adds the key, and starts the investigation of the incident if this is open. -/
inductive Intake (event : DomainEvent) (incidentId : Uuid) (before after : Db) :
    (started : Bool) → Prop
  | known (claimed : claimedBefore event incidentId before = true)
      (inbox : after.inbox = before.inbox) (incidents : after.incidents = before.incidents) :
      Intake event incidentId before after false
  | late (row : Incident) (unclaimed : claimedBefore event incidentId before = false)
      (inbox : after.inbox = before.inbox ++ [event.claim incidentId])
      (found : before.incidents.find? (fun row => row.id = incidentId) = some row)
      (handled : row.state ≠ .open) (incidents : after.incidents = before.incidents) :
      Intake event incidentId before after false
  | started (row moved : Incident) (moment : Instant)
      (unclaimed : claimedBefore event incidentId before = false)
      (inbox : after.inbox = before.inbox ++ [event.claim incidentId])
      (found : before.incidents.find? (fun row => row.id = incidentId) = some row)
      (isOpen : row.state = .open) (move : (toDomain row).transitionTo .investigating moment = .ok moved)
      (incidents : after.incidents = (saveIncident moved before).incidents) :
      Intake event incidentId before after true

theorem recordOnce_claims {incidentId : Uuid} {claimed : Bool}
    (h : recordOnce ports event incidentId s = (.ok claimed, t)) :
    claimed = !claimedBefore event incidentId s.db ∧ t.db = if claimed then
      { s.db with inbox := s.db.inbox ++ [event.claim incidentId] } else s.db := by
  obtain ⟨_, u, hstatement, h⟩ := bind_eq_ok.mp h
  obtain ⟨db, u', hread, h⟩ := bind_eq_ok.mp h
  have hdb := (statement_ok hstatement).db
  cases hread
  rw [hdb] at h
  split at h
  next hclaimed =>
    cases h
    exact ⟨by rw [hclaimed]; rfl, hdb⟩
  next hfree =>
    cases h
    refine ⟨by simpa using hfree, ?_⟩
    rw [withDb_db, hdb]
    rfl

/-- An incident that is found and not moved is no longer open. -/
theorem moveFound_late {incidentId : Uuid} {incident : Incident}
    {out : ConsumeOpenedResult × Option Incident}
    (h : moveFound ports incidentId incident s = (.ok out, t)) (unmoved : out.2 = none) :
    incident.state ≠ .open := by
  obtain ⟨moment, u, _, h⟩ := bind_eq_ok.mp h
  obtain ⟨⟨moved, started⟩, u', hresult, h⟩ := bind_eq_ok.mp h
  obtain ⟨hstart, rfl⟩ := fromExcept_eq_ok.mp hresult
  cases hmove : incident.startInvestigation moment with
  | error text => simp [hmove, Except.mapError] at hstart
  | ok result =>
    rw [hmove] at hstart
    cases hstart
    rcases startInvestigation_ok hmove with ⟨rfl, _, _⟩ | ⟨_, hlate, _⟩
    · obtain ⟨_, u'', _, h⟩ := bind_eq_ok.mp h
      cases h
      cases unmoved
    · exact hlate

theorem prologue_intake {out : ConsumeOpenedResult × Option Incident}
    (h : prologue ports event s = (.ok out, t)) :
    event.eventType = incidentOpenedV1 ∧ ∃ incidentId,
      ports.parseUuid event.incidentId = some incidentId ∧
      Intake event incidentId s.db t.db out.2.isSome := by
  obtain ⟨_, u, hrefresh, h⟩ := bind_eq_ok.mp h
  have hdb := refreshPolicyCache_ok hrefresh
  rw [← hdb]
  unfold claimAndMove at h
  split at h
  next htype =>
    refine ⟨htype, ?_⟩
    rcases hparse : ports.parseUuid event.incidentId with _ | incidentId
    · rw [hparse] at h
      cases h
    · rw [hparse] at h
      refine ⟨incidentId, rfl, ?_⟩
      obtain ⟨claimed, u', hclaim, h⟩ := bind_eq_ok.mp h
      obtain ⟨hnew, hinbox⟩ := recordOnce_claims hclaim
      cases claimed with
      | false =>
        cases h
        rw [if_neg Bool.false_ne_true] at hinbox
        exact .known (by simpa using hnew) (congrArg Db.inbox hinbox) (congrArg Db.incidents hinbox)
      | true =>
        rw [if_pos rfl] at hinbox
        have hfree : claimedBefore event incidentId u.db = false := by simpa using hnew
        obtain ⟨found, u'', hget, h⟩ := bind_eq_ok.mp h
        obtain ⟨hsame, hfound⟩ := getById_ok hget
        cases hrow : u'.db.incidents.find? fun row => row.id = incidentId with
        | none =>
          rw [hfound, hrow] at h
          cases h
        | some row =>
          rw [hfound, hrow] at h
          change moveFound ports incidentId (toDomain row) u'' = (.ok out, t) at h
          rw [hinbox] at hrow hsame
          obtain ⟨_, hmove⟩ := moveFound_ok h
          rcases hmove with ⟨hnone, hkept⟩ | ⟨moment, moved, hsome, hopen, hmove, hsaved⟩
          · rw [hnone]
            have hafter := hkept.trans hsame
            exact .late row hfree (by rw [hafter]) hrow
              (show (toDomain row).state ≠ .open from moveFound_late h hnone) (by rw [hafter])
          · rw [hsome]
            rw [hsame] at hsaved
            exact .started row moved moment hfree (by rw [hsaved]; rfl) hrow hopen hmove
              (by rw [hsaved]; rfl)
  · cases h

theorem intake_of_kept {incidentId : Uuid} {before middle after : Db} {started : Bool}
    (h : Intake event incidentId before middle started) (hinbox : after.inbox = middle.inbox)
    (hincidents : after.incidents = middle.incidents) :
    Intake event incidentId before after started := by
  cases h with
  | known claimed inbox incidents =>
    exact .known claimed (hinbox.trans inbox) (hincidents.trans incidents)
  | late row unclaimed inbox found handled incidents =>
    exact .late row unclaimed (hinbox.trans inbox) found handled (hincidents.trans incidents)
  | started row moved moment unclaimed inbox found isOpen move incidents =>
    exact .started row moved moment unclaimed (hinbox.trans inbox) found isOpen move
      (hincidents.trans incidents)

/-- A handling that is committed has claimed its event. -/
theorem deliver_intake {worker : Worker World} {result : ConsumeOpenedResult}
    (h : (deliver ports event worker).ended = .committed result) :
    event.eventType = incidentOpenedV1 ∧
      ports.parseUuid event.incidentId = some result.incidentId ∧
      Intake event result.incidentId worker.db (deliver ports event worker).worker.db
        result.transitioned := by
  unfold deliver at h ⊢
  rw [handleOpened_eq] at h ⊢
  rcases hhandling : (prologue ports event >>= epilogue ports event) worker.session with
    ⟨raised | ended, after⟩
  · rw [hhandling] at h
    cases h
  · rw [hhandling] at h
    cases h
    obtain ⟨moved, u, hprologue, hepilogue⟩ := bind_eq_ok.mp hhandling
    have hkept := leaves_eq (keepsIntake_epilogue moved) hepilogue
    have hresult : result = moved.1 := by
      obtain ⟨_, v, _, hrest⟩ := bind_eq_ok.mp hepilogue
      obtain ⟨_, w, _, hpure⟩ := bind_eq_ok.mp hrest
      cases hpure
      rfl
    obtain ⟨⟨htransitioned, hparsed⟩, _⟩ := prologue_ok hprologue
    obtain ⟨htype, incidentId, hparse, hintake⟩ := prologue_intake hprologue
    rw [hparse] at hparsed
    cases hparsed
    rw [hresult]
    refine ⟨htype, hparse, ?_⟩
    dsimp only
    rw [htransitioned]
    exact intake_of_kept hintake hkept.inbox hkept.incidents

/-- No handling writes the rules. -/
theorem deliver_policyRules (ports : WorkerPorts World) (event : DomainEvent)
    (worker : Worker World) :
    (deliver ports event worker).worker.db.policyRules = worker.db.policyRules := by
  unfold deliver
  rw [handleOpened_eq]
  rcases hhandling : (prologue ports event >>= epilogue ports event) worker.session with
    ⟨raised | ended, after⟩
  · rfl
  · obtain ⟨moved, u, hprologue, hepilogue⟩ := bind_eq_ok.mp hhandling
    have hkept := leaves_eq (keepsIntake_epilogue moved) hepilogue
    dsimp only
    rw [hkept.policyRules]
    obtain ⟨_, hdid⟩ := prologue_ok hprologue
    obtain ⟨result, incident⟩ := moved
    cases incident with
    | none =>
      obtain ⟨inbox, hdb⟩ := hdid
      rw [hdb]
      rfl
    | some incident =>
      obtain ⟨row, moment, inbox, _, _, hdb⟩ := hdid
      rw [hdb]
      rfl

end Aegis
