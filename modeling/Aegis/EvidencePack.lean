import Aegis.FreshRestart
import Aegis.Gathering

namespace Aegis

def EvidenceItem.isMapping : EvidenceItem → Bool
  | .collected _ => true
  | .given (.obj _) => true
  | .given _ => false

/-- What an item of a pack is made of: a row of the recorder, or an entry of the evidence with its
place. -/
inductive PackSource where
  | recorder (row : Evidence)
  | evidence (entry : EvidenceItem × Nat)

/-- The collector behind a source. -/
def PackSource.collector : PackSource → Option Specialist
  | .recorder row => row.source.collector
  | .evidence entry => entry.1.collector

/-- What `_synthesize` can make a pack of: the rows of the recorder, or the mappings of the
evidence when it has none. -/
def packSources (c : Channels) (recorded : List Evidence) : List PackSource :=
  if recorded.isEmpty then
    (c.evidence.zipIdx.filter fun entry => entry.1.isMapping).map PackSource.evidence
  else recorded.map PackSource.recorder

section Pack

variable {World : Type} (ports : SpecialistPorts World) (c : Channels) (recorded : List Evidence)

/-- The item that a source becomes, with its id, excerpt and citation. -/
def PackSource.item : PackSource → Option EvidencePackItem
  | .recorder row => some (rowPackItem ports.services.redact row)
  | .evidence entry => entryPackItem ports.toRcaHost c.incidentId.str entry

/-- An item of the pack is the one of a source of the kind, in the place of that source. -/
def Represented (kind : Specialist) : Prop :=
  ∃ (place : Nat) (source : PackSource) (item : EvidencePackItem),
    (packSources c recorded)[place]? = some source ∧ source.collector = some kind ∧
    source.item ports c = some item ∧ (packOf ports c recorded)[place]? = some item

/-- Every collector of the evidence has an item in the pack, and the pack keeps its limit. -/
structure PackCovers : Prop where
  kinds : ∀ kind ∈ evidenceKinds c.evidence, Represented ports c recorded kind
  short : (packOf ports c recorded).length ≤ maxPackItems

end Pack

/-- Of these batches one of the kind starts with fewer than eight items before it, those ahead of
all batches included. -/
def StartsBefore (kind : Specialist) (ahead : Nat) (batches : List Batch) : Prop :=
  ∃ before batch after, batches = before ++ batch :: after ∧ batch.specialist = kind ∧
    0 < batch.items ∧ ahead + (before.map Batch.items).sum < maxPackItems

/-- Neither an earlier run nor this one has left a row in the bucket. -/
def Gathering.Unrecorded (gathering : Gathering) : Prop :=
  gathering.leftover = [] ∧ gathering.recording.flatMap Batch.rows = []

/-- The kinds of the evidence that a run ends with. -/
def Gathering.kinds (gathering : Gathering) : List Specialist :=
  evidenceKinds gathering.given ++ gathering.batches.flatMap Batch.kinds

/-- The kind is among the first eight of what was there before the run, or a batch of it starts
before the pack is full: of the batches that were recorded, or of all when nothing was. -/
def Gathering.HasRoom (gathering : Gathering) (kind : Specialist) : Prop :=
  (gathering.Unrecorded →
      some kind ∈ ((gathering.given.filter EvidenceItem.isMapping).take maxPackItems).map
        EvidenceItem.collector ∨
      StartsBefore kind (gathering.given.filter EvidenceItem.isMapping).length
        gathering.batches) ∧
    (¬gathering.Unrecorded →
      some kind ∈ (gathering.leftover.take maxPackItems).map (fun row => row.source.collector) ∨
      StartsBefore kind gathering.leftover.length (gathering.recording.filter Batch.kept))

section Facts

variable {World : Type} {ports : SpecialistPorts World} {c : Channels} {recorded : List Evidence}

theorem map_some_filterMap {Item Value : Type} {make : Item → Option Value} {keeps : Item → Bool}
    (h : ∀ item, (make item).isSome = keeps item) (items : List Item) :
    (items.filterMap make).map some = (items.filter keeps).map make := by
  induction items with
  | nil => rfl
  | cons item rest ih =>
    rw [List.filterMap_cons, List.filter_cons, ← h item]
    cases hmake : make item with
    | none => exact ih
    | some value =>
      rw [Option.isSome_some, if_pos rfl, List.map_cons, List.map_cons, hmake, ih]

theorem entryPackItem_isSome {host : RcaHost World} {incidentKey : String}
    (entry : EvidenceItem × Nat) :
    (entryPackItem host incidentKey entry).isSome = entry.1.isMapping := by
  obtain ⟨item, index⟩ := entry
  cases item with
  | collected item => rfl
  | given item => cases item <;> rfl

/-- The pack is made of its first eight sources, place by place. -/
theorem packOf_items : (packOf ports c recorded).map some =
    ((packSources c recorded).take maxPackItems).map (PackSource.item ports c) := by
  unfold packOf packSources
  split
  · unfold packFromGraphEvidence
    rw [List.map_take, map_some_filterMap entryPackItem_isSome, List.map_take, List.map_map]
    rfl
  · unfold packFromEvidenceRows
    rw [← List.map_take, List.map_map, List.map_map]
    rfl

theorem packOf_place (place : Nat) : (packOf ports c recorded)[place]?.map some =
    (((packSources c recorded).take maxPackItems)[place]?).map (PackSource.item ports c) := by
  rw [← List.getElem?_map, packOf_items, List.getElem?_map]

theorem packOf_length : (packOf ports c recorded).length =
    min maxPackItems (packSources c recorded).length := by
  have hlength := congrArg List.length (@packOf_items _ ports c recorded)
  rwa [List.length_map, List.length_map, List.length_take] at hlength

/-- The pack shows the collectors behind its first eight sources. -/
theorem represented_iff {kind : Specialist} : Represented ports c recorded kind ↔
    some kind ∈ ((packSources c recorded).take maxPackItems).map PackSource.collector := by
  constructor
  · rintro ⟨place, source, item, hsource, hkind, _, hitem⟩
    obtain ⟨hplace, _⟩ := List.getElem?_eq_some_iff.mp hitem
    rw [packOf_length] at hplace
    have htake : ((packSources c recorded).take maxPackItems)[place]? = some source := by
      rw [List.getElem?_take_of_lt (by omega)]
      exact hsource
    exact List.mem_map.mpr ⟨source, List.mem_of_getElem? htake, hkind⟩
  · intro h
    obtain ⟨source, hsource, hkind⟩ := List.mem_map.mp h
    obtain ⟨place, htake⟩ := List.mem_iff_getElem?.mp hsource
    have hitem := @packOf_place _ ports c recorded place
    rw [htake] at hitem
    obtain ⟨item, hpack, hmade⟩ := Option.map_eq_some_iff.mp hitem
    refine ⟨place, source, item, ?_, hkind, hmade.symm, hpack⟩
    obtain ⟨hplace, _⟩ := List.getElem?_eq_some_iff.mp htake
    rw [List.length_take] at hplace
    rwa [List.getElem?_take_of_lt (by omega)] at htake

theorem packSources_collectors : (packSources c recorded).map PackSource.collector =
    if recorded.isEmpty then (c.evidence.filter EvidenceItem.isMapping).map EvidenceItem.collector
    else recorded.map fun row => row.source.collector := by
  unfold packSources
  split
  · have hentries : (c.evidence.zipIdx.map Prod.fst).filter EvidenceItem.isMapping =
        (c.evidence.zipIdx.filter (EvidenceItem.isMapping ∘ Prod.fst)).map Prod.fst :=
      List.filter_map
    rw [List.zipIdx_map_fst] at hentries
    rw [List.map_map, hentries, List.map_map]
    rfl
  · rw [List.map_map]
    rfl

theorem startsBefore_cons {kind : Specialist} {ahead : Nat} {batch : Batch} {rest : List Batch} :
    StartsBefore kind ahead (batch :: rest) ↔
      (batch.specialist = kind ∧ 0 < batch.items ∧ ahead < maxPackItems) ∨
        StartsBefore kind (ahead + batch.items) rest := by
  constructor
  · rintro ⟨before, first, after, heq, hkind, hitems, hahead⟩
    cases before with
    | nil =>
      cases heq
      exact .inl ⟨hkind, hitems, hahead⟩
    | cons head before =>
      cases heq
      rw [List.map_cons, List.sum_cons, ← Nat.add_assoc] at hahead
      exact .inr ⟨before, first, after, rfl, hkind, hitems, hahead⟩
  · rintro (⟨hkind, hitems, hahead⟩ | ⟨before, first, after, rfl, hkind, hitems, hahead⟩)
    · exact ⟨[], batch, rest, rfl, hkind, hitems, hahead⟩
    · refine ⟨batch :: before, first, after, rfl, hkind, hitems, ?_⟩
      rwa [List.map_cons, List.sum_cons, ← Nat.add_assoc]

theorem startsBefore_iff {kind : Specialist} {batches : List Batch} (ahead : Nat) :
    StartsBefore kind ahead batches ↔
      kind ∈ (batches.flatMap Batch.kinds).take (maxPackItems - ahead) := by
  induction batches generalizing ahead with
  | nil =>
    rw [List.flatMap_nil, List.take_nil]
    refine iff_of_false ?_ List.not_mem_nil
    rintro ⟨before, batch, after, heq, _⟩
    simp at heq
  | cons batch rest ih =>
    rw [startsBefore_cons, ih, List.flatMap_cons, List.take_append, List.mem_append, Batch.kinds,
      List.take_replicate, List.mem_replicate, List.length_replicate, Nat.sub_sub]
    refine or_congr_left ⟨fun ⟨hkind, hitems, hahead⟩ => ⟨by omega, hkind.symm⟩, ?_⟩
    exact fun ⟨hcount, hkind⟩ => ⟨hkind.symm, by omega, by omega⟩

/-- A list of labels that starts with those of earlier entries and goes on with batches. -/
theorem mem_take_batches {kind : Specialist} {earlier : List (Option Specialist)}
    {batches : List Batch} :
    some kind ∈ (earlier ++ (batches.flatMap Batch.kinds).map some).take maxPackItems ↔
      some kind ∈ earlier.take maxPackItems ∨ StartsBefore kind earlier.length batches := by
  rw [List.take_append, List.mem_append, startsBefore_iff, ← List.map_take,
    List.mem_map_of_injective (Option.some_injective _)]

theorem flatMap_rows (batches : List Batch) :
    batches.flatMap Batch.rows = (batches.filter Batch.kept).flatMap Batch.kinds := by
  induction batches with
  | nil => rfl
  | cons batch rest ih =>
    rw [List.flatMap_cons, List.filter_cons, ih, Batch.rows]
    split
    · rw [List.flatMap_cons]
    · rfl

variable {gathering : Gathering} {start : Channels} {desk later : Desk World}

/-- What the last visit of the commander finds is told by what the run gathered. -/
theorem represented_iff_hasRoom {kind : Specialist} (hgiven : start.evidence = gathering.given)
    (hleft : desk.recorded = gathering.leftover)
    (adds : AddsRows gathering.steps start desk c later) :
    Represented ports c later.recorded kind ↔ gathering.HasRoom kind := by
  obtain ⟨⟨items, hitems, hkinds⟩, rows, hrows, hsources⟩ := adds
  rw [hgiven] at hitems
  rw [hleft] at hrows
  rw [← List.flatMap_assoc] at hkinds hsources
  change _ = gathering.batches.flatMap Batch.kinds at hkinds
  change _ = (gathering.recording.flatMap Batch.rows).map some at hsources
  have hnone : later.recorded.isEmpty = true ↔ gathering.Unrecorded := by
    rw [hrows, List.isEmpty_iff, List.append_eq_nil_iff]
    refine and_congr_right fun _ => ?_
    rw [← List.map_eq_nil_iff, hsources, List.map_eq_nil_iff]
  rw [represented_iff, List.map_take, packSources_collectors]
  unfold Gathering.HasRoom
  by_cases hempty : gathering.Unrecorded
  · rw [if_pos (hnone.mpr hempty)]
    have hlabels : (c.evidence.filter EvidenceItem.isMapping).map EvidenceItem.collector =
        (gathering.given.filter EvidenceItem.isMapping).map EvidenceItem.collector ++
          (gathering.batches.flatMap Batch.kinds).map some := by
      have hall : (items.map EvidenceItem.collected).filter EvidenceItem.isMapping =
          items.map EvidenceItem.collected := by
        refine List.filter_eq_self.mpr fun entry hentry => ?_
        obtain ⟨item, _, rfl⟩ := List.mem_map.mp hentry
        rfl
      rw [hitems, List.filter_append, List.map_append, hall, ← hkinds, List.map_map, List.map_map]
      rfl
    rw [hlabels, mem_take_batches, List.length_map, ← List.map_take]
    exact ⟨fun h => ⟨fun _ => h, fun hne => absurd hempty hne⟩, fun h => h.1 hempty⟩
  · rw [if_neg (mt hnone.mp hempty), hrows, List.map_append, hsources, flatMap_rows,
      mem_take_batches, List.length_map, ← List.map_take]
    exact ⟨fun h => ⟨fun hall => absurd hall hempty, fun _ => h⟩, fun h => h.2 hempty⟩

theorem evidenceKinds_gathering (hgiven : start.evidence = gathering.given)
    (adds : AddsRows gathering.steps start desk c later) :
    evidenceKinds c.evidence = gathering.kinds := by
  obtain ⟨⟨items, hitems, hkinds⟩, _⟩ := adds
  rw [← List.flatMap_assoc] at hkinds
  change _ = gathering.batches.flatMap Batch.kinds at hkinds
  unfold Gathering.kinds
  rw [hitems, hgiven, ← hkinds, evidenceKinds, List.filterMap_append, List.filterMap_map]
  congr 1
  exact congrFun List.filterMap_eq_map' items

end Facts

/-- A run that synthesizes packs every collector of its evidence exactly when each of them has a
batch that was recorded, or a row left over, before the pack is full. -/
theorem run_pack_covers_iff {World : Type} (ports : SpecialistPorts World) (process : Process World)
    (request : StartRequest) : ∀ visit, process.lastVisit ports request = some visit →
      (visitDecision ports visit).nextAgent = .synthesize →
      (((∀ kind ∈ evidenceKinds visit.1.evidence,
            Represented ports (afterVisit ports visit).1 visit.2.recorded kind) ∧
          (visitPack ports visit).length ≤ maxPackItems) ↔
        ∀ kind ∈ (process.gathering ports request).kinds,
          (process.gathering ports request).HasRoom kind) := by
  intro visit hlast _
  have hadds := adds_gathering hlast
  have hafter : AddsRows (process.gathering ports request).steps
      (process.runner.thread request.incidentId).1 process.desk (afterVisit ports visit).1
      visit.2 := ⟨hadds.evidence, hadds.recorded⟩
  have hshort : (visitPack ports visit).length ≤ maxPackItems := by
    unfold visitPack
    rw [packOf_length]
    exact min_le_left _ _
  rw [and_iff_left hshort, evidenceKinds_gathering rfl hadds]
  exact forall₂_congr fun kind _ => represented_iff_hasRoom rfl rfl hafter

def exhaustion : StartRequest := ⟨10, "checkout", "db_exhaustion", ""⟩

/-- A chunk that an aborted run has left in the bucket. -/
def leftoverChunk : Evidence :=
  ⟨4, 10, .retrieve, .chunk, ⟨"db.md", by decide, by decide⟩, "pool size", [], 0, by decide⟩

/-- A process whose bucket holds a chunk and whose thread holds a note about it. -/
def resumed : Process Unit where
  runner := { notedProcess.runner with recorded := [leftoverChunk] }
  cache := ⟨none, none⟩
  world := ()

/-- The log line that the run collects follows the chunk from before, and both get into the pack. -/
theorem leftover_chunk_covered : ∃ visit,
    resumed.lastVisit steadyPorts exhaustion = some visit ∧
    (visitDecision steadyPorts visit).nextAgent = .synthesize ∧
    (∀ kind ∈ evidenceKinds visit.1.evidence,
      Represented steadyPorts (afterVisit steadyPorts visit).1 visit.2.recorded kind) ∧
    (visitPack steadyPorts visit).length ≤ maxPackItems := by
  have hrun : ((resumed.lastVisit steadyPorts exhaustion).map fun visit =>
        (visitDecision steadyPorts visit).nextAgent,
      (resumed.gathering steadyPorts exhaustion).steps) =
      (some .synthesize, [⟨[⟨.observability, 1, true⟩], false⟩]) := by decide +kernel
  obtain ⟨hrun, hsteps⟩ := Prod.mk.inj hrun
  obtain ⟨visit, hlast, hchosen⟩ := Option.map_eq_some_iff.mp hrun
  have hgiven : (resumed.gathering steadyPorts exhaustion).given =
      [.given (.str "kb-stub: restart the pool")] := rfl
  have hleftover : (resumed.gathering steadyPorts exhaustion).leftover = [leftoverChunk] := rfl
  refine ⟨visit, hlast, hchosen,
    (run_pack_covers_iff _ _ _ visit hlast hchosen).mpr fun kind hkind => ?_⟩
  generalize resumed.gathering steadyPorts exhaustion = gathering at hkind hgiven hleftover hsteps ⊢
  obtain ⟨given, leftover, steps⟩ := gathering
  subst hgiven hleftover hsteps
  have hkind : kind = .knowledge ∨ kind = .observability := by
    revert hkind
    cases kind <;> decide +kernel
  refine ⟨fun h => absurd h.1 (List.cons_ne_nil _ _), fun _ => ?_⟩
  rcases hkind with rfl | rfl
  · exact .inl (by decide)
  · exact .inr ⟨[], _, [], rfl, rfl, by decide, by decide⟩

/-- A new process whose tools give eight signals and one chunk. -/
def exhausted : Process Script :=
  ⟨Runner.new, ⟨none, none⟩, ⟨0, 100, [],
    [.returned (.list (List.replicate 8 (.obj [("kind", .str "log"), ("summary", .str "slow")])))
        false,
      .returned (.list [.obj [("text", .str "pool size"), ("document", .str "db.md")]]) false], []⟩⟩

theorem exhausted_visit : ∃ visit,
    exhausted.lastVisit scripted.toSpecialistPorts exhaustion = some visit ∧
    (visitDecision scripted.toSpecialistPorts visit).nextAgent = .synthesize ∧
    .knowledge ∈ evidenceKinds visit.1.evidence ∧
    ¬Represented scripted.toSpecialistPorts (afterVisit scripted.toSpecialistPorts visit).1
      visit.2.recorded .knowledge := by
  have hrun : (exhausted.lastVisit scripted.toSpecialistPorts exhaustion).map (fun visit =>
      ((visitDecision scripted.toSpecialistPorts visit).nextAgent, evidenceKinds visit.1.evidence,
        ((packSources visit.1 visit.2.recorded).take maxPackItems).map PackSource.collector)) =
      some (.synthesize, List.replicate 8 .observability ++ [.knowledge],
        List.replicate 8 (some .observability)) := by decide +kernel
  obtain ⟨visit, hlast, hvisit⟩ := Option.map_eq_some_iff.mp hrun
  obtain ⟨hchosen, hrest⟩ := Prod.mk.inj hvisit
  obtain ⟨hevidence, hsources⟩ := Prod.mk.inj hrest
  refine ⟨visit, hlast, hchosen, ?_, ?_⟩
  · rw [hevidence]
    exact List.mem_append_right _ (List.mem_singleton_self _)
  · rw [represented_iff]
    change some .knowledge ∉
      ((packSources visit.1 visit.2.recorded).take maxPackItems).map PackSource.collector
    rw [hsources]
    decide

/-- Eight signals that are recorded first leave no place for the chunk. -/
theorem signals_crowd_out : ¬∀ visit,
    exhausted.lastVisit scripted.toSpecialistPorts exhaustion = some visit →
      (visitDecision scripted.toSpecialistPorts visit).nextAgent = .synthesize →
        PackCovers scripted.toSpecialistPorts (afterVisit scripted.toSpecialistPorts visit).1
          visit.2.recorded := by
  obtain ⟨visit, hlast, hchosen, hknown, hmissing⟩ := exhausted_visit
  exact fun h => hmissing ((h visit hlast hchosen).kinds .knowledge hknown)

end Aegis
