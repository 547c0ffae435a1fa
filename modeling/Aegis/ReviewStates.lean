import Aegis.TransitionRca
import Aegis.StepPath
import Aegis.FreshRestart

namespace Aegis

open Raising Proc StepPath

section Tables

variable {incidentId : Uuid} {db : Db} {report : RcaReport}

/-- Some stored version of the RCA is accepted. -/
def HasAccepted (incidentId : Uuid) (db : Db) : Prop :=
  ∃ report ∈ db.rcaReports, report.incidentId = incidentId ∧ report.reviewStatus = .accepted

/-- The incident is identified when a version is accepted, and otherwise still investigated. -/
def FollowsReviews (incidentId : Uuid) (db : Db) : Prop :=
  ∃ row, db.incidents.find? (fun row => row.id = incidentId) = some row ∧
    ((row.state = .identified ∧ HasAccepted incidentId db) ∨
      (row.state = .investigating ∧ ¬HasAccepted incidentId db))

/-- An incident under investigation with one version of its RCA, the first, still to review. -/
def AwaitsReview (incidentId : Uuid) (db : Db) : Prop :=
  ∃ row report, db.incidents.find? (fun row => row.id = incidentId) = some row ∧
    row.state = .investigating ∧
    (db.rcaReports.filter fun report => report.incidentId = incidentId) = [report] ∧
    report.version = 1 ∧ report.reviewStatus = .pendingReview

/-- The newest version of the RCA is the only one that is accepted. -/
def OnlyNewestAccepted (incidentId : Uuid) (db : Db) : Prop :=
  ∃ report, LatestOf incidentId db report ∧ report.reviewStatus = .accepted ∧
    ∀ other ∈ db.rcaReports, other.incidentId = incidentId → other.reviewStatus = .accepted →
      other.id = report.id

/-- Neither id nor version belongs to two versions of the RCA of an incident. -/
def Distinct (incidentId : Uuid) (db : Db) : Prop :=
  ∀ a ∈ db.rcaReports, ∀ b ∈ db.rcaReports, a.incidentId = incidentId →
    b.incidentId = incidentId → (a.id = b.id ∨ a.version = b.version) → a = b

theorem distinct_map {change : RcaReport → RcaReport}
    (id : ∀ row, (change row).id = row.id) (version : ∀ row, (change row).version = row.version)
    (incident : ∀ row, (change row).incidentId = row.incidentId) (h : Distinct incidentId db) :
    Distinct incidentId { db with rcaReports := db.rcaReports.map change } := by
  intro a ha b hb haId hbId hsame
  obtain ⟨row, hrow, rfl⟩ := List.mem_map.mp ha
  obtain ⟨other, hother, rfl⟩ := List.mem_map.mp hb
  rw [incident] at haId hbId
  rw [id, id, version, version] at hsame
  rw [h row hrow other hother haId hbId hsame]

theorem distinct_reviewedDb (latest : RcaReport) (reviewStatus : RcaReviewStatus)
    (h : Distinct incidentId db) : Distinct incidentId (reviewedDb latest reviewStatus db) := by
  unfold reviewedDb
  split
  · exact h
  · refine distinct_map (fun row => ?_) (fun row => ?_) (fun row => ?_) h
    all_goals split <;> rfl

theorem distinct_concat {amended : RcaReport} (free : rcaConflict amended db = false)
    (h : Distinct incidentId db) (notes : List Notification) :
    Distinct incidentId { db with
      rcaReports := db.rcaReports ++ [amended], notifications := notes } := by
  have apart : ∀ row ∈ db.rcaReports, row.id ≠ amended.id ∧
      (row.incidentId = amended.incidentId → row.version ≠ amended.version) := by
    intro row hrow
    unfold rcaConflict at free
    have := List.any_eq_false.mp free row hrow
    simpa using this
  intro a ha b hb haId hbId hsame
  rcases List.mem_append.mp ha with ha | ha
  · rcases List.mem_append.mp hb with hb | hb
    · exact h a ha b hb haId hbId hsame
    · rw [List.mem_singleton.mp hb] at hbId hsame
      obtain ⟨hid, hversion⟩ := apart a ha
      exact absurd hsame (not_or.mpr ⟨hid, hversion (haId.trans hbId.symm)⟩)
  · rcases List.mem_append.mp hb with hb | hb
    · rw [List.mem_singleton.mp ha] at haId hsame
      obtain ⟨hid, hversion⟩ := apart b hb
      exact absurd hsame (not_or.mpr ⟨hid.symm, (hversion (hbId.trans haId.symm)).symm⟩)
    · rw [List.mem_singleton.mp ha, List.mem_singleton.mp hb]

/-- What the review of the newest version makes of the accepted ones. -/
theorem hasAccepted_reviewedDb (latest : LatestOf incidentId db report)
    (distinct : Distinct incidentId db) (reviewStatus : RcaReviewStatus) :
    HasAccepted incidentId (reviewedDb (rcaToDomain report) reviewStatus db) ↔
      reviewStatus = .accepted ∨ ∃ other ∈ db.rcaReports, other.incidentId = incidentId ∧
        other.reviewStatus = .accepted ∧ other.id ≠ report.id := by
  have same : ∀ other ∈ db.rcaReports, other.incidentId = incidentId → other.id = report.id →
      other = report := fun other hother hid hsame =>
    distinct other hother report latest.mem hid latest.incident (.inl hsame)
  unfold reviewedDb
  by_cases hstatus : reviewStatus = (rcaToDomain report).reviewStatus
  · rw [if_pos hstatus]
    constructor
    · rintro ⟨other, hother, hid, haccepted⟩
      by_cases hsame : other.id = report.id
      · rw [same other hother hid hsame] at haccepted
        exact .inl (hstatus.trans haccepted)
      · exact .inr ⟨other, hother, hid, haccepted, hsame⟩
    · rintro (haccepted | ⟨other, hother, hid, haccepted, _⟩)
      · exact ⟨report, latest.mem, latest.incident, hstatus.symm.trans haccepted⟩
      · exact ⟨other, hother, hid, haccepted⟩
  · rw [if_neg hstatus]
    have hset : ((rcaToDomain report).withReviewStatus reviewStatus).reviewStatus =
        reviewStatus := by
      unfold RcaReport.withReviewStatus
      rw [if_neg hstatus]
    have hid : ((rcaToDomain report).withReviewStatus reviewStatus).id = report.id :=
      withReviewStatus_id _ _
    generalize (rcaToDomain report).withReviewStatus reviewStatus = reviewed at hset hid
    constructor
    · rintro ⟨changed, hchanged, hincident, haccepted⟩
      obtain ⟨other, hother, rfl⟩ := List.mem_map.mp hchanged
      by_cases hsame : other.id = reviewed.id
      · rw [if_pos hsame] at haccepted
        exact .inl (hset.symm.trans haccepted)
      · rw [if_neg hsame] at hincident haccepted
        exact .inr ⟨other, hother, hincident, haccepted, hid ▸ hsame⟩
    · rintro (haccepted | ⟨other, hother, hincident, haccepted, hne⟩)
      · refine ⟨report.revised reviewed, List.mem_map.mpr ⟨report, latest.mem, if_pos hid.symm⟩,
          latest.incident, hset.trans haccepted⟩
      · exact ⟨other, List.mem_map.mpr ⟨other, hother, if_neg (hid ▸ hne)⟩, hincident, haccepted⟩

theorem reviewedDb_incidents (latest : RcaReport) (reviewStatus : RcaReviewStatus) (db : Db) :
    (reviewedDb latest reviewStatus db).incidents = db.incidents := by
  unfold reviewedDb
  split <;> rfl

theorem find_saveIncident {moved row : Incident}
    (h : db.incidents.find? (fun row => row.id = moved.id) = some row) :
    (saveIncident moved db).incidents.find? (fun row => row.id = moved.id) =
      some (applyToOrm moved row) := by
  unfold saveIncident
  dsimp only
  have hid : row.id = moved.id := by simpa using List.find?_some h
  have keeps : ((fun row : Incident => decide (row.id = moved.id)) ∘ fun row =>
      if row.id = moved.id then applyToOrm moved row else row) =
      fun row => decide (row.id = moved.id) := by
    funext other
    dsimp only [Function.comp]
    split
    · rfl
    · rfl
  rw [List.find?_map, keeps, h, Option.map_some, if_pos hid]

end Tables

section Calls

variable {World : Type} {ports : WorkerPorts World} {incidentId : Uuid} {s t : Session World}
  {view : ProgressView}

/-- One request to review the RCA of an incident, in whatever world it then finds. -/
def ReviewStep (ports : WorkerPorts World) (incidentId : Uuid) (worker : Worker World)
    (call : ReviewCall × World) (next : Worker World) : Prop :=
  next = (answer ports incidentId call.1 (worker.inWorld call.2)).2

theorem distinct_of_call {call : ReviewCall} (distinct : Distinct incidentId s.db)
    (h : transitionRca ports incidentId call s = (.ok view, t)) : Distinct incidentId t.db := by
  cases call with
  | accept =>
    obtain ⟨row, report, _, _, ⟨_, hdb⟩ | ⟨moment, moved, _, _, hdb⟩⟩ := accept_ok h
    · rw [hdb]
      exact distinct_reviewedDb _ _ distinct
    · rw [hdb]
      exact distinct_reviewedDb (rcaToDomain report) .accepted distinct
  | reject =>
    obtain ⟨row, report, base, now, notes, _, _, _, hdb⟩ := reject_ok h
    rw [hdb]
    exact distinct_reviewedDb (rcaToDomain report) .rejected distinct
  | amend command =>
    obtain ⟨row, report, amended, finding, id, createdAt, notes, _, _, _, _, hfree, hdb⟩ :=
      amend_ok h
    rw [hdb]
    exact distinct_concat hfree distinct _

theorem followsReviews_accept (follows : FollowsReviews incidentId s.db)
    (distinct : Distinct incidentId s.db)
    (h : accept ports incidentId s = (.ok view, t)) : FollowsReviews incidentId t.db := by
  obtain ⟨row, report, hrow, hlatest, hcases⟩ := accept_ok h
  have haccepted : HasAccepted incidentId (reviewedDb (rcaToDomain report) .accepted s.db) :=
    (hasAccepted_reviewedDb hlatest distinct .accepted).mpr (.inl rfl)
  rcases hcases with ⟨hstate, hdb⟩ | ⟨moment, moved, hstate, hmove, hdb⟩
  · obtain ⟨other, hother, hfollows⟩ := follows
    cases hother.symm.trans hrow
    refine ⟨row, ?_, .inl ⟨(hfollows.resolve_right fun h => hstate h.1).1, ?_⟩⟩
    · rw [hdb, reviewedDb_incidents]
      exact hrow
    · rw [hdb]
      exact haccepted
  · have hid : row.id = incidentId := by simpa using List.find?_some hrow
    obtain ⟨_, hmoved⟩ := transitionTo_ok hmove
    have hmovedId : moved.id = incidentId := by
      rw [hmoved]
      exact hid
    refine ⟨applyToOrm moved row, ?_, .inl ⟨?_, ?_⟩⟩
    · rw [hdb, ← hmovedId]
      refine find_saveIncident ?_
      rw [reviewedDb_incidents, hmovedId]
      exact hrow
    · change moved.state = .identified
      rw [hmoved]
    · rw [hdb]
      exact haccepted

/-- A rejection is followed unless it takes back the only acceptance. -/
theorem followsReviews_reject (follows : FollowsReviews incidentId s.db)
    (distinct : Distinct incidentId s.db)
    (h : reject ports incidentId s = (.ok view, t)) :
    FollowsReviews incidentId t.db ↔ ¬OnlyNewestAccepted incidentId s.db := by
  obtain ⟨row, report, base, now, notes, hrow, hlatest, _, hdb⟩ := reject_ok h
  have haccepted := hasAccepted_reviewedDb hlatest distinct .rejected
  simp only [reduceCtorEq, false_or] at haccepted
  have hafter : FollowsReviews incidentId t.db ↔
      (row.state = .identified ∧
          HasAccepted incidentId (reviewedDb (rcaToDomain report) .rejected s.db)) ∨
        (row.state = .investigating ∧
          ¬HasAccepted incidentId (reviewedDb (rcaToDomain report) .rejected s.db)) := by
    have hfind : t.db.incidents.find? (fun row => row.id = incidentId) = some row := by
      rw [hdb]
      change (reviewedDb (rcaToDomain report) .rejected s.db).incidents.find? _ = _
      rw [reviewedDb_incidents]
      exact hrow
    have hreports : HasAccepted incidentId t.db ↔
        HasAccepted incidentId (reviewedDb (rcaToDomain report) .rejected s.db) := by
      rw [hdb]
      exact Iff.rfl
    unfold FollowsReviews
    rw [hfind, hreports]
    simp
  obtain ⟨other, hother, hfollows⟩ := follows
  cases hother.symm.trans hrow
  rw [hafter, haccepted]
  rcases hfollows with ⟨hstate, accepted, hmem, hincident, hstatus⟩ | ⟨hstate, hnone⟩
  · constructor
    · rintro (⟨_, kept, hkept, hkeptId, hkeptStatus, hne⟩ | ⟨hother, _⟩)
      · rintro ⟨newest, hnewest, _, honly⟩
        have hsame : newest = report := distinct newest hnewest.mem report hlatest.mem
          hnewest.incident hlatest.incident (.inr (Nat.le_antisymm
            (hlatest.newest newest hnewest.mem hnewest.incident)
            (hnewest.newest report hlatest.mem hlatest.incident)))
        rw [hsame] at honly
        exact hne (honly kept hkept hkeptId hkeptStatus)
      · rw [hstate] at hother
        cases hother
    · intro honly
      refine .inl ⟨hstate, by_contra fun hall => honly ⟨report, hlatest, ?_, ?_⟩⟩
      · have hid : accepted.id = report.id := by
          by_contra hne
          exact hall ⟨accepted, hmem, hincident, hstatus, hne⟩
        rw [← distinct accepted hmem report hlatest.mem hincident hlatest.incident (.inl hid)]
        exact hstatus
      · intro kept hkept hkeptId hkeptStatus
        by_contra hne
        exact hall ⟨kept, hkept, hkeptId, hkeptStatus, hne⟩
  · refine iff_of_true (.inr ⟨hstate, ?_⟩) ?_
    · rintro ⟨kept, hkept, hkeptId, hkeptStatus, _⟩
      exact hnone ⟨kept, hkept, hkeptId, hkeptStatus⟩
    · rintro ⟨newest, hnewest, hnewestStatus, _⟩
      exact hnone ⟨newest, hnewest.mem, hnewest.incident, hnewestStatus⟩

theorem followsReviews_amend {command : AmendRcaCommand}
    (follows : FollowsReviews incidentId s.db)
    (h : amend ports incidentId command s = (.ok view, t)) : FollowsReviews incidentId t.db := by
  obtain ⟨row, report, amended, finding, id, createdAt, notes, _, _, _, hamended, _, hdb⟩ :=
    amend_ok h
  obtain ⟨_, _, _, _, hpending, _⟩ := rcaReport_new_ok hamended
  have hsame : HasAccepted incidentId t.db ↔ HasAccepted incidentId s.db := by
    rw [hdb]
    constructor
    · rintro ⟨other, hother, hid, hstatus⟩
      rcases List.mem_append.mp hother with hother | hother
      · exact ⟨other, hother, hid, hstatus⟩
      · rw [List.mem_singleton.mp hother, hpending] at hstatus
        cases hstatus
    · rintro ⟨other, hother, hid, hstatus⟩
      exact ⟨other, List.mem_append_left _ hother, hid, hstatus⟩
  obtain ⟨other, hother, hfollows⟩ := follows
  refine ⟨other, ?_, ?_⟩
  · rw [hdb]
    exact hother
  · rw [hsame]
    exact hfollows

/-- The call goes through and takes the only acceptance back. -/
def TakesBack (ports : WorkerPorts World) (incidentId : Uuid) (worker : Worker World)
    (call : ReviewCall × World) : Prop :=
  (answer ports incidentId call.1 (worker.inWorld call.2)).1.isAnswered = true ∧
    call.1 = .reject ∧ OnlyNewestAccepted incidentId worker.db

theorem reviewStep_distinct {worker next : Worker World} {call : ReviewCall × World}
    (distinct : Distinct incidentId worker.db) (h : ReviewStep ports incidentId worker call next) :
    Distinct incidentId next.db := by
  rw [ReviewStep] at h
  subst h
  rcases answer_cases ports incidentId call.1 (worker.inWorld call.2) with
    ⟨raised, process, hanswer⟩ | ⟨view, s, process, hcall, hanswer⟩
  · rw [hanswer]
    exact distinct
  · rw [hanswer]
    exact distinct_of_call (s := ⟨worker.db, (worker.inWorld call.2).process, false⟩) distinct hcall

theorem reviewStep_follows {worker next : Worker World} {call : ReviewCall × World}
    (follows : FollowsReviews incidentId worker.db) (distinct : Distinct incidentId worker.db)
    (h : ReviewStep ports incidentId worker call next) :
    FollowsReviews incidentId next.db ↔ ¬TakesBack ports incidentId worker call := by
  rw [ReviewStep] at h
  subst h
  unfold TakesBack
  obtain ⟨call, world⟩ := call
  dsimp only
  have hdb : (worker.inWorld world).db = worker.db := rfl
  rcases answer_cases ports incidentId call (worker.inWorld world) with
    ⟨raised, process, hanswer⟩ | ⟨view, s, process, hcall, hanswer⟩
  · rw [hanswer]
    exact iff_of_true follows fun h => by cases h.1
  · rw [hanswer]
    rw [hdb] at hcall
    generalize (worker.inWorld world).process = process at hcall
    cases call with
    | accept =>
      exact iff_of_true (followsReviews_accept (s := ⟨worker.db, process, false⟩) follows distinct hcall)
        fun h => by cases h.2.1
    | reject =>
      have hreject := followsReviews_reject (s := ⟨worker.db, process, false⟩) follows distinct hcall
      dsimp only at hreject ⊢
      rw [hreject]
      simp [ReviewEnd.isAnswered]
    | amend command =>
      exact iff_of_true (followsReviews_amend (s := ⟨worker.db, process, false⟩) follows hcall)
        fun h => by cases h.2.1

theorem followsReviews_of_awaits {db : Db} (h : AwaitsReview incidentId db) :
    FollowsReviews incidentId db ∧ Distinct incidentId db := by
  obtain ⟨row, report, hrow, hstate, hreports, _, hpending⟩ := h
  have only : ∀ other ∈ db.rcaReports, other.incidentId = incidentId → other = report := by
    intro other hother hid
    have hmem : other ∈ db.rcaReports.filter fun report => report.incidentId = incidentId :=
      List.mem_filter.mpr ⟨hother, decide_eq_true hid⟩
    rw [hreports] at hmem
    exact List.mem_singleton.mp hmem
  refine ⟨⟨row, hrow, .inr ⟨hstate, ?_⟩⟩, ?_⟩
  · rintro ⟨other, hother, hid, hstatus⟩
    rw [only other hother hid, hpending] at hstatus
    cases hstatus
  · intro a ha b hb haId hbId _
    rw [only a ha haId, only b hb hbId]

/-- `reject` does not look at the state of the incident: the incident follows the reviews exactly
as long as no rejection takes back the only acceptance. -/
theorem incident_follows_reviews {start : Worker World}
    {path : List ((ReviewCall × World) × Worker World)}
    (awaits : AwaitsReview incidentId start.db)
    (run : Path (ReviewStep ports incidentId) start path) :
    (∀ worker ∈ visited start path, FollowsReviews incidentId worker.db) ↔
      Meets (fun worker call => ¬TakesBack ports incidentId worker call) start path := by
  obtain ⟨follows, distinct⟩ := followsReviews_of_awaits awaits
  exact @always_iff_meets _ _ _ _ _ _ (fun worker => FollowsReviews incidentId worker.db)
    (fun worker => Distinct incidentId worker.db)
    (fun _ _ _ _ distinct hstep => reviewStep_distinct distinct hstep)
    (fun _ _ _ follows distinct hstep => reviewStep_follows follows distinct hstep) run follows
    distinct

end Calls

/-- The first version of the RCA of incident 10. -/
def firstReport : RcaReport where
  id := 20
  incidentId := 10
  version := 1
  versionKind := .original
  summary := ⟨"slow queries", by decide, by decide⟩
  rootCause := ⟨"no index", by decide, by decide⟩
  contributingFactors := []
  confidence := 4 / 5
  findingStatus := .hypothesis
  reviewStatus := .pendingReview
  citations := [⟨30, "simulator", "p99"⟩]
  recommendedActions := []
  modelId := ⟨"fake-llm", by decide, by decide⟩
  inputTokens := 0
  outputTokens := 0
  createdAt := 0
  version_pos := first_version
  confidence_range := by norm_num
  cited := by simp

def reviewWorker : Worker Script :=
  let worker := openWorker
    [{ openIncident 10 latencyFingerprint with state := .investigating }] ⟨0, 100, [], [], []⟩
  { worker with db := { worker.db with rcaReports := [firstReport] } }

/-- The worker after a request at the given time. -/
def reviewed (worker : Worker Script) (call : ReviewCall × Script) : Worker Script :=
  (answer scripted 10 call.1 (worker.inWorld call.2)).2

def acceptFirst : ReviewCall × Script := (.accept, ⟨1, 100, [], [], []⟩)

def rejectAfter : ReviewCall × Script := (.reject, ⟨2, 200, [], [], []⟩)

theorem reviewWorker_awaits : AwaitsReview 10 reviewWorker.db :=
  ⟨_, firstReport, rfl, rfl, rfl, rfl, rfl⟩

def rejectFirst : ReviewCall × Script := (.reject, ⟨1, 100, [], [], []⟩)

def amendRejected : ReviewCall × Script :=
  (.amend ⟨"slow queries", "index dropped", [], 9 / 10, "confirmed", [], none⟩,
    ⟨2, 200, [], [], []⟩)

def acceptAmended : ReviewCall × Script := (.accept, ⟨3, 300, [], [], []⟩)

def rejectedWorker : Worker Script := reviewed reviewWorker rejectFirst

def amendedWorker : Worker Script := reviewed rejectedWorker amendRejected

/-- The first version is rejected, amended, and the second one accepted. -/
theorem accepted_is_followed :
    Path (ReviewStep scripted 10) reviewWorker [(rejectFirst, rejectedWorker),
      (amendRejected, amendedWorker), (acceptAmended, reviewed amendedWorker acceptAmended)] ∧
    (reviewed amendedWorker acceptAmended).db.rcaReports.map RcaReport.reviewStatus =
      [.rejected, .accepted] ∧
    ∀ worker ∈ visited reviewWorker [(rejectFirst, rejectedWorker), (amendRejected, amendedWorker),
      (acceptAmended, reviewed amendedWorker acceptAmended)], FollowsReviews 10 worker.db := by
  have run : Path (ReviewStep scripted 10) reviewWorker [(rejectFirst, rejectedWorker),
      (amendRejected, amendedWorker), (acceptAmended, reviewed amendedWorker acceptAmended)] :=
    Path.next rfl (Path.next rfl (Path.next rfl Path.stop))
  refine ⟨run, by decide +kernel, (incident_follows_reviews reviewWorker_awaits run).mpr
    ⟨?_, ?_, ?_, trivial⟩⟩
  · rintro ⟨-, -, report, hlatest, haccepted, -⟩
    obtain rfl : report = firstReport := List.mem_singleton.mp hlatest.mem
    cases haccepted
  · rintro ⟨-, hreject, -⟩
    cases hreject
  · rintro ⟨-, hreject, -⟩
    cases hreject

/-- An accepted version is rejected, and the incident stays identified. -/
theorem rejected_stays_identified : ∃ path,
    AwaitsReview 10 reviewWorker.db ∧ Path (ReviewStep scripted 10) reviewWorker path ∧
      ¬∀ worker ∈ visited reviewWorker path, FollowsReviews 10 worker.db := by
  refine ⟨[(acceptFirst, reviewed reviewWorker acceptFirst),
    (rejectAfter, reviewed (reviewed reviewWorker acceptFirst) rejectAfter)],
    reviewWorker_awaits, Path.next rfl (Path.next rfl Path.stop), fun h => ?_⟩
  obtain ⟨row, hrow, hfollows⟩ :=
    h (reviewed (reviewed reviewWorker acceptFirst) rejectAfter) (by simp)
  have hlast : (reviewed (reviewed reviewWorker acceptFirst) rejectAfter).db.incidents.map
      Incident.state = [.identified] ∧
      (reviewed (reviewed reviewWorker acceptFirst) rejectAfter).db.rcaReports.map
        RcaReport.reviewStatus = [.rejected] := by decide +kernel
  obtain ⟨hstates, hstatuses⟩ := hlast
  have hstate := List.mem_map_of_mem (f := Incident.state) (List.mem_of_find?_eq_some hrow)
  rw [hstates] at hstate
  rcases hfollows with ⟨_, report, hreport, _, hstatus⟩ | ⟨hinvestigating, _⟩
  · have hmem := List.mem_map_of_mem (f := RcaReport.reviewStatus) hreport
    rw [hstatuses, hstatus] at hmem
    simp at hmem
  · rw [hinvestigating] at hstate
    simp at hstate

end Aegis
