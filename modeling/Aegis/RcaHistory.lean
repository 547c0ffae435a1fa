import Aegis.ReviewStates

namespace Aegis

open Raising Proc StepPath

/-- The rows of the versions of the RCA of an incident, in the order in which they are listed. -/
def storedVersions (incidentId : Uuid) (db : Db) : List RcaReport :=
  (db.rcaReports.filter fun row => row.incidentId = incidentId).insertionSort
    fun a b => a.version ≤ b.version

/-- The versions 1 to n, the first original and the others amended. -/
def VersionHistory (rows : List RcaReport) : Prop :=
  ∃ first later, rows = first :: later ∧ first.versionKind = .original ∧
    (∀ row ∈ later, row.versionKind = .amended) ∧
    rows.map RcaReport.version = List.range' 1 rows.length

/-- A row as the constructor of its report leaves it, citations included. -/
def NormalRow (row : RcaReport) : Prop := rcaToDomain row = row

/-- Rows are only added, and of those there before only the review status of the last changes. -/
def AppendsVersions (before after : List RcaReport) : Prop :=
  ∃ earlier latest reviewStatus added, before = earlier ++ [latest] ∧
    after = earlier ++ { latest with reviewStatus } :: added

/-- The citations of a command are built by their constructor. -/
def ReviewCall.Built : ReviewCall → Prop
  | .accept => True
  | .reject => True
  | .amend command => ∀ citations, command.evidenceCitations = some citations →
      ∀ citation ∈ citations,
        RcaCitation.new citation.evidenceId citation.source citation.relevance = citation

/-- What holds between two requests: the history is in order, its rows are as constructed, and
no other row has the id of one of them. -/
structure HistoryInv (incidentId : Uuid) (db : Db) : Prop where
  history : VersionHistory (storedVersions incidentId db)
  normal : ∀ row ∈ storedVersions incidentId db, NormalRow row
  uniqueIds : (db.rcaReports.map RcaReport.id).Nodup

section Constructor

theorem strippedTexts_strippedTexts (items : List String) :
    strippedTexts (strippedTexts items) = strippedTexts items := by
  unfold strippedTexts
  induction items with
  | nil => rfl
  | cons item items ih =>
    by_cases hempty : strip item = ""
    · simpa [hempty] using ih
    · simpa [hempty, strip_strip] using ih

theorem rcaToDomain_eq {row : RcaReport}
    (factors : strippedTexts row.contributingFactors = row.contributingFactors)
    (actions : strippedTexts row.recommendedActions = row.recommendedActions)
    (input : max 0 row.inputTokens = row.inputTokens)
    (output : max 0 row.outputTokens = row.outputTokens)
    (citations : ∀ citation ∈ row.citations,
      RcaCitation.new citation.evidenceId citation.source citation.relevance = citation) :
    NormalRow row := by
  have same : row.citations.map (fun citation =>
      RcaCitation.new citation.evidenceId citation.source citation.relevance) = row.citations := by
    rw [List.map_congr_left citations, List.map_id']
  unfold NormalRow rcaToDomain RcaReport.rebuilt
  obtain ⟨⟩ := row
  simp only at factors actions input output same
  simp only [factors, actions, input, output, same]

/-- What `rcaToDomain` leaves alone is what the constructor makes. -/
theorem normalRow_parts {row : RcaReport} (h : NormalRow row) :
    row.rebuilt = row ∧ ∀ citation ∈ row.citations,
      RcaCitation.new citation.evidenceId citation.source citation.relevance = citation := by
  have factors : strippedTexts row.contributingFactors = row.contributingFactors :=
    congrArg RcaReport.contributingFactors h
  have actions : strippedTexts row.recommendedActions = row.recommendedActions :=
    congrArg RcaReport.recommendedActions h
  have input : max 0 row.inputTokens = row.inputTokens := congrArg RcaReport.inputTokens h
  have output : max 0 row.outputTokens = row.outputTokens := congrArg RcaReport.outputTokens h
  have citations : row.citations.map (fun citation =>
      RcaCitation.new citation.evidenceId citation.source citation.relevance) = row.citations :=
    congrArg RcaReport.citations h
  constructor
  · unfold RcaReport.rebuilt
    obtain ⟨⟩ := row
    simp only at factors actions input output
    simp only [factors, actions, input, output]
  · exact List.map_inj_left.mp (citations.trans (List.map_id _).symm)

theorem rcaReport_new_normal {id incidentId : Uuid} {version : Nat} {versionKind : RcaVersionKind}
    {summary rootCause : String} {factors : List String} {confidence : ℚ}
    {finding : RcaFindingStatus} {review : RcaReviewStatus} {citations : List RcaCitation}
    {actions : List String} {modelId : String} {inputTokens outputTokens : Int}
    {createdAt : Instant} {report : RcaReport}
    (built : ∀ citation ∈ citations,
      RcaCitation.new citation.evidenceId citation.source citation.relevance = citation)
    (h : RcaReport.new id incidentId version versionKind summary rootCause factors confidence
      finding review citations actions modelId inputTokens outputTokens createdAt = .ok report) :
    NormalRow report := by
  unfold RcaReport.new at h
  split at h
  · cases h
  split at h
  · cases h
  split at h
  · cases h
  obtain ⟨summaryText, _, h⟩ := bind_ok h
  obtain ⟨causeText, _, h⟩ := bind_ok h
  cases hmodel : requireText modelId "model_id" with
  | error e => simp [hmodel, Except.map] at h
  | ok model =>
    simp only [hmodel, Except.map, Except.ok.injEq] at h
    subst h
    exact rcaToDomain_eq (strippedTexts_strippedTexts _) (strippedTexts_strippedTexts _)
      (by simp) (by simp) built

end Constructor

section Listing

variable {incidentId : Uuid} {db : Db} {row : RcaReport}

theorem mem_storedVersions :
    row ∈ storedVersions incidentId db ↔ row ∈ db.rcaReports ∧ row.incidentId = incidentId := by
  unfold storedVersions
  rw [(List.perm_insertionSort _ _).mem_iff, List.mem_filter, decide_eq_true_eq]

theorem orderedInsert_concat {a x : RcaReport} (rows : List RcaReport) (h : a.version ≤ x.version) :
    (rows ++ [x]).orderedInsert (fun a b => a.version ≤ b.version) a =
      rows.orderedInsert (fun a b => a.version ≤ b.version) a ++ [x] := by
  induction rows with
  | nil => simp [h]
  | cons row rows ih =>
    rw [List.cons_append, List.orderedInsert_cons, List.orderedInsert_cons, ih]
    split <;> rfl

theorem insertionSort_concat {x : RcaReport} (rows : List RcaReport)
    (h : ∀ row ∈ rows, row.version ≤ x.version) :
    (rows ++ [x]).insertionSort (fun a b => a.version ≤ b.version) =
      rows.insertionSort (fun a b => a.version ≤ b.version) ++ [x] := by
  induction rows with
  | nil => rfl
  | cons row rows ih =>
    obtain ⟨hrow, hrows⟩ := List.forall_mem_cons.mp h
    rw [List.cons_append, List.insertionSort_cons, List.insertionSort_cons, ih hrows]
    exact orderedInsert_concat _ hrow

theorem storedVersions_map {change : RcaReport → RcaReport}
    (incident : ∀ row, (change row).incidentId = row.incidentId)
    (version : ∀ row, (change row).version = row.version) :
    storedVersions incidentId { db with rcaReports := db.rcaReports.map change } =
      (storedVersions incidentId db).map change := by
  have keeps : ((fun row : RcaReport => decide (row.incidentId = incidentId)) ∘ change) =
      fun row => decide (row.incidentId = incidentId) := by
    funext row
    rw [Function.comp_apply, incident]
  unfold storedVersions
  dsimp only
  rw [List.filter_map, keeps]
  refine (List.map_insertionSort _ _ change _ ?_).symm
  intro a _ b _
  rw [version, version]

theorem storedVersions_concat {amended : RcaReport} (incident : amended.incidentId = incidentId)
    (last : ∀ row ∈ storedVersions incidentId db, row.version ≤ amended.version)
    (notes : List Notification) :
    storedVersions incidentId { db with
        rcaReports := db.rcaReports ++ [amended], notifications := notes } =
      storedVersions incidentId db ++ [amended] := by
  unfold storedVersions
  dsimp only
  rw [List.filter_append, List.filter_cons_of_pos (by simpa using incident), List.filter_nil]
  refine insertionSort_concat _ fun row hrow => last row ?_
  obtain ⟨hmem, hid⟩ := List.mem_filter.mp hrow
  exact mem_storedVersions.mpr ⟨hmem, of_decide_eq_true hid⟩

theorem versions_pairwise {rows : List RcaReport} (h : VersionHistory rows) :
    rows.Pairwise fun a b => a.version < b.version := by
  obtain ⟨_, _, _, _, _, hversions⟩ := h
  have := @List.pairwise_lt_range' 1 rows.length 1
  rw [← hversions] at this
  exact List.pairwise_map.mp this

theorem latest_is_last (history : VersionHistory (storedVersions incidentId db))
    (latest : LatestOf incidentId db row) :
    ∃ earlier, storedVersions incidentId db = earlier ++ [row] ∧
      row.version = earlier.length + 1 := by
  have hmem := mem_storedVersions.mpr ⟨latest.mem, latest.incident⟩
  obtain ⟨earlier, last, hsplit⟩ :=
    List.eq_nil_or_concat (storedVersions incidentId db) |>.resolve_left (List.ne_nil_of_mem hmem)
  rw [List.concat_eq_append] at hsplit
  have hlast : last ∈ storedVersions incidentId db := by simp [hsplit]
  obtain ⟨hstored, hincident⟩ := mem_storedVersions.mp hlast
  have hle := latest.newest last hstored hincident
  have hpair := versions_pairwise history
  have hsame : row = last := by
    rw [hsplit] at hmem hpair
    rcases List.mem_append.mp hmem with hearlier | hend
    · have := (List.pairwise_append.mp hpair).2.2 row hearlier last (by simp)
      omega
    · exact List.mem_singleton.mp hend
  rw [← hsame] at hsplit
  refine ⟨earlier, hsplit, ?_⟩
  obtain ⟨_, _, _, _, _, hversions⟩ := history
  rw [hsplit, List.map_append, List.length_append, List.length_singleton, List.map_singleton,
    List.range'_1_concat] at hversions
  have := List.singleton_inj.mp (List.append_inj_right' hversions rfl)
  omega

end Listing

section Steps

variable {World : Type} {ports : WorkerPorts World} {incidentId : Uuid} {s t : Session World}
  {view : ProgressView} {db : Db} {row : RcaReport}

theorem versionHistory_review {earlier : List RcaReport} (reviewStatus : RcaReviewStatus)
    (h : VersionHistory (earlier ++ [row])) :
    VersionHistory (earlier ++ [{ row with reviewStatus }]) := by
  obtain ⟨first, later, hrows, hfirst, hlater, hversions⟩ := h
  cases earlier with
  | nil =>
    obtain ⟨rfl, rfl⟩ := List.cons.inj hrows
    exact ⟨_, [], rfl, hfirst, by simp, hversions⟩
  | cons head earlier =>
    obtain ⟨rfl, rfl⟩ := List.cons.inj hrows
    refine ⟨head, earlier ++ [{ row with reviewStatus }], rfl, hfirst, ?_, ?_⟩
    · intro other hother
      rcases List.mem_append.mp hother with hother | hother
      · exact hlater other (List.mem_append_left _ hother)
      · rw [List.mem_singleton.mp hother]
        exact hlater row (by simp)
    · simpa using hversions

theorem versionHistory_amend {rows : List RcaReport} {amended : RcaReport}
    (h : VersionHistory rows) (kind : amended.versionKind = .amended)
    (version : amended.version = rows.length + 1) : VersionHistory (rows ++ [amended]) := by
  obtain ⟨first, later, rfl, hfirst, hlater, hversions⟩ := h
  refine ⟨first, later ++ [amended], rfl, hfirst, ?_, ?_⟩
  · intro other hother
    rcases List.mem_append.mp hother with hother | hother
    · exact hlater other hother
    · rw [List.mem_singleton.mp hother]
      exact kind
  · rw [List.map_append, hversions, List.map_singleton, version, List.length_append,
      List.length_singleton, List.range'_1_concat, Nat.add_comm 1]

theorem storedVersions_reviewedDb {earlier : List RcaReport} (reviewStatus : RcaReviewStatus)
    (normal : NormalRow row) (unique : (db.rcaReports.map RcaReport.id).Nodup)
    (stored : storedVersions incidentId db = earlier ++ [row]) :
    storedVersions incidentId (reviewedDb (rcaToDomain row) reviewStatus db) =
      earlier ++ [{ row with reviewStatus }] := by
  have hrow : row ∈ db.rcaReports := (mem_storedVersions.mp (by rw [stored]; simp)).1
  unfold reviewedDb
  rw [normal]
  split
  next hsame =>
    rw [stored, hsame]
  next hdiffer =>
    have reviewed : row.revised (row.withReviewStatus reviewStatus) = { row with reviewStatus } := by
      unfold RcaReport.withReviewStatus
      rw [if_neg hdiffer, (normalRow_parts normal).1]
      rfl
    have hid : (row.withReviewStatus reviewStatus).id = row.id := withReviewStatus_id _ _
    unfold saveRcaRow
    rw [storedVersions_map (fun other => by split <;> rfl) (fun other => by split <;> rfl), stored,
      List.map_append, List.map_singleton, hid, if_pos rfl, reviewed]
    congr 1
    refine (List.map_congr_left fun other hother => if_neg fun hsame => ?_).trans (List.map_id _)
    have hstored : other ∈ db.rcaReports := (mem_storedVersions.mp (by rw [stored]; simp [hother])).1
    have heq := List.inj_on_of_nodup_map unique hstored hrow hsame
    have nodup : (storedVersions incidentId db).Nodup := by
      unfold storedVersions
      rw [(List.perm_insertionSort _ _).nodup_iff]
      exact (List.Nodup.of_map _ unique).filter _
    rw [stored, heq.symm] at nodup
    exact (List.nodup_append.mp nodup).2.2 other hother other (by simp) rfl

theorem rcaIds_reviewedDb (latest : RcaReport) (reviewStatus : RcaReviewStatus) (db : Db) :
    (reviewedDb latest reviewStatus db).rcaReports.map RcaReport.id =
      db.rcaReports.map RcaReport.id := by
  unfold reviewedDb
  split
  · rfl
  · unfold saveRcaRow
    rw [List.map_map]
    refine List.map_congr_left fun row _ => ?_
    rw [Function.comp_apply]
    split <;> rfl

theorem historyInv_review {reviewStatus : RcaReviewStatus} (inv : HistoryInv incidentId db)
    (latest : LatestOf incidentId db row) :
    HistoryInv incidentId (reviewedDb (rcaToDomain row) reviewStatus db) ∧
      AppendsVersions (storedVersions incidentId db)
        (storedVersions incidentId (reviewedDb (rcaToDomain row) reviewStatus db)) := by
  obtain ⟨earlier, hstored, _⟩ := latest_is_last inv.history latest
  have normal := inv.normal
  have history := inv.history
  rw [hstored] at normal history
  have hrow : NormalRow row := normal row (by simp)
  have hafter := storedVersions_reviewedDb reviewStatus hrow inv.uniqueIds hstored
  refine ⟨⟨?_, ?_, ?_⟩, ?_⟩
  · rw [hafter]
    exact versionHistory_review reviewStatus history
  · rw [hafter]
    intro other hother
    rcases List.mem_append.mp hother with hother | hother
    · exact normal other (List.mem_append_left _ hother)
    · rw [List.mem_singleton.mp hother]
      obtain ⟨hrebuilt, hcitations⟩ := normalRow_parts hrow
      exact rcaToDomain_eq (congrArg RcaReport.contributingFactors hrebuilt)
        (congrArg RcaReport.recommendedActions hrebuilt)
        (congrArg RcaReport.inputTokens hrebuilt) (congrArg RcaReport.outputTokens hrebuilt)
        hcitations
  · rw [rcaIds_reviewedDb]
    exact inv.uniqueIds
  · exact ⟨earlier, row, reviewStatus, [], hstored, hafter⟩

theorem historyInv_of_reports {db' : Db} (h : db'.rcaReports = db.rcaReports)
    (inv : HistoryInv incidentId db) : HistoryInv incidentId db' ∧
      storedVersions incidentId db' = storedVersions incidentId db := by
  have same : storedVersions incidentId db' = storedVersions incidentId db := by
    unfold storedVersions
    rw [h]
  exact ⟨⟨same ▸ inv.history, same ▸ inv.normal, h ▸ inv.uniqueIds⟩, same⟩

theorem appendsVersions_refl (inv : HistoryInv incidentId db) :
    AppendsVersions (storedVersions incidentId db) (storedVersions incidentId db) := by
  obtain ⟨first, later, hrows, _⟩ := inv.history
  obtain ⟨earlier, last, hsplit⟩ :=
    List.eq_nil_or_concat (storedVersions incidentId db) |>.resolve_left (by simp [hrows])
  rw [List.concat_eq_append] at hsplit
  exact ⟨earlier, last, last.reviewStatus, [], hsplit, hsplit⟩

theorem transitionRca_appends {call : ReviewCall} (inv : HistoryInv incidentId s.db)
    (h : transitionRca ports incidentId call s = (.ok view, t)) :
    AppendsVersions (storedVersions incidentId s.db) (storedVersions incidentId t.db) ∧
      (call.Built → HistoryInv incidentId t.db) := by
  cases call with
  | accept =>
    obtain ⟨row, report, _, latest, hcases⟩ := accept_ok h
    obtain ⟨hinv, happends⟩ := @historyInv_review _ _ _ .accepted inv latest
    have reports : t.db.rcaReports =
        (reviewedDb (rcaToDomain report) .accepted s.db).rcaReports := by
      rcases hcases with ⟨_, hdb⟩ | ⟨_, _, _, _, hdb⟩
      · rw [hdb]
      · rw [hdb]
        rfl
    obtain ⟨hinv', hsame⟩ := historyInv_of_reports reports hinv
    rw [hsame]
    exact ⟨happends, fun _ => hinv'⟩
  | reject =>
    obtain ⟨row, report, base, now, notes, _, latest, _, hdb⟩ := reject_ok h
    obtain ⟨hinv, happends⟩ := @historyInv_review _ _ _ .rejected inv latest
    have reports : t.db.rcaReports =
        (reviewedDb (rcaToDomain report) .rejected s.db).rcaReports := by
      rw [hdb]
      rfl
    obtain ⟨hinv', hsame⟩ := historyInv_of_reports reports hinv
    rw [hsame]
    exact ⟨happends, fun _ => hinv'⟩
  | amend command =>
    obtain ⟨row, report, amended, finding, id, createdAt, notes, _, latest, _, hamended, hfree,
      hdb⟩ := amend_ok h
    obtain ⟨hid, hincident, hversion, hkind, _, _⟩ := rcaReport_new_ok hamended
    obtain ⟨earlier, hstored, hlast⟩ := latest_is_last inv.history latest
    have hlength : amended.version = (storedVersions incidentId s.db).length + 1 := by
      rw [hversion, hstored]
      change report.version + 1 = _
      simp [hlast]
    have hbelow : ∀ row ∈ storedVersions incidentId s.db, row.version ≤ amended.version := by
      intro other hother
      obtain ⟨hmem, hotherId⟩ := mem_storedVersions.mp hother
      have := latest.newest other hmem hotherId
      rw [hversion]
      change _ ≤ report.version + 1
      omega
    have hafter := storedVersions_concat hincident hbelow (s.db.notifications ++ notes)
    rw [← hdb] at hafter
    refine ⟨⟨earlier, report, report.reviewStatus, [amended], hstored, ?_⟩, fun built => ⟨?_, ?_, ?_⟩⟩
    · rw [hafter, hstored]
      simp
    · rw [hafter]
      exact versionHistory_amend inv.history hkind hlength
    · rw [hafter]
      intro other hother
      rcases List.mem_append.mp hother with hother | hother
      · exact inv.normal other hother
      · rw [List.mem_singleton.mp hother]
        refine rcaReport_new_normal ?_ hamended
        intro citation hcitation
        unfold AmendRcaCommand.citations at hcitation
        split at hcitation
        next first rest hgiven => exact built _ hgiven citation hcitation
        next =>
          have hnormal := inv.normal report (mem_storedVersions.mpr ⟨latest.mem, latest.incident⟩)
          rw [hnormal] at hcitation
          exact (normalRow_parts hnormal).2 citation hcitation
    · have fresh : amended.id ∉ s.db.rcaReports.map RcaReport.id := by
        intro hmem
        obtain ⟨other, hother, hsame⟩ := List.mem_map.mp hmem
        unfold rcaConflict at hfree
        have := List.any_eq_false.mp hfree other hother
        simp [hsame] at this
      rw [hdb]
      change ((s.db.rcaReports ++ [amended]).map RcaReport.id).Nodup
      rw [List.map_append, List.map_singleton]
      exact List.nodup_append.mpr ⟨inv.uniqueIds, by simp, by
        rintro x hx y hy rfl
        exact fresh (List.mem_singleton.mp hy ▸ hx)⟩

theorem reviewStep_appends {worker : Worker World} {call : ReviewCall × World}
    (inv : HistoryInv incidentId worker.db) :
    AppendsVersions (storedVersions incidentId worker.db)
        (storedVersions incidentId (answer ports incidentId call.1 (worker.inWorld call.2)).2.db) ∧
      (call.1.Built →
        HistoryInv incidentId (answer ports incidentId call.1 (worker.inWorld call.2)).2.db) := by
  rcases answer_cases ports incidentId call.1 (worker.inWorld call.2) with
    ⟨raised, process, hanswer⟩ | ⟨view, s, process, hcall, hanswer⟩
  · rw [hanswer]
    exact ⟨appendsVersions_refl inv, fun _ => inv⟩
  · rw [hanswer]
    exact transitionRca_appends (s := ⟨worker.db, (worker.inWorld call.2).process, false⟩) inv hcall

/-- An incident with one original version, as its report was constructed. -/
def OneOriginal (incidentId : Uuid) (db : Db) : Prop :=
  ∃ report, storedVersions incidentId db = [report] ∧ report.version = 1 ∧
    report.versionKind = .original ∧ NormalRow report

/-- The versions of an RCA are append-only: they are 1 to n in order, the first original and the
others amended, they are listed as they are stored, and a request only adds rows and only changes
the review status of the newest. -/
theorem rca_history_append_only {start : Worker World}
    {path : List ((ReviewCall × World) × Worker World)} (original : OneOriginal incidentId start.db)
    (unique : (start.db.rcaReports.map RcaReport.id).Nodup)
    (run : Path (ReviewStep ports incidentId) start path)
    (built : Meets (fun _ call => call.1.Built) start path) :
    (∀ worker ∈ visited start path, VersionHistory (storedVersions incidentId worker.db) ∧
      reportsOf incidentId worker.db = storedVersions incidentId worker.db) ∧
    Meets (fun worker call => AppendsVersions (storedVersions incidentId worker.db)
      (storedVersions incidentId (answer ports incidentId call.1 (worker.inWorld call.2)).2.db))
      start path := by
  have base : HistoryInv incidentId start.db := by
    obtain ⟨report, hstored, hversion, hkind, hnormal⟩ := original
    refine ⟨⟨report, [], hstored, hkind, by simp, ?_⟩, ?_, unique⟩
    · rw [hstored]
      simp [hversion]
    · rw [hstored]
      simpa using hnormal
  have keep : ∀ worker call next, HistoryInv incidentId worker.db → call.1.Built →
      ReviewStep ports incidentId worker call next → HistoryInv incidentId next.db := by
    intro worker call next inv hbuilt hstep
    rw [ReviewStep] at hstep
    subst hstep
    exact (reviewStep_appends inv).2 hbuilt
  refine ⟨fun worker hworker => ?_, ?_⟩
  · have inv := invariant_of_meets keep run base built worker hworker
    refine ⟨inv.history, ?_⟩
    exact (List.map_congr_left inv.normal).trans (List.map_id _)
  · exact meets_of_meets keep (fun worker call inv => (reviewStep_appends inv).1) run base built

end Steps

/-- An amendment of the first version that keeps its citations. -/
def amendFirst : ReviewCall × Script :=
  (.amend ⟨"slow queries", "index dropped", [" deploy "], 9 / 10, "confirmed", [], none⟩,
    ⟨1, 300, [], [], []⟩)

theorem amended_history_append_only :
    (∀ worker ∈ visited reviewWorker [(amendFirst, reviewed reviewWorker amendFirst)],
      VersionHistory (storedVersions 10 worker.db) ∧
        reportsOf 10 worker.db = storedVersions 10 worker.db) ∧
    Meets (fun worker call => AppendsVersions (storedVersions 10 worker.db)
      (storedVersions 10 (answer scripted 10 call.1 (worker.inWorld call.2)).2.db)) reviewWorker
      [(amendFirst, reviewed reviewWorker amendFirst)] :=
  rca_history_append_only ⟨firstReport, rfl, rfl, rfl, rcaToDomain_eq rfl rfl rfl rfl (by decide)⟩
    (by decide) (Path.next rfl Path.stop) ⟨by simp [amendFirst, ReviewCall.Built], trivial⟩

end Aegis
