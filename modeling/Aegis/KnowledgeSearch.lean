import Aegis.CodeTools
import Aegis.KnowledgeOrigin
import Aegis.RankFusion

namespace Aegis

open StepPath

/-- `RetrieveFilters` -/
structure RetrieveFilters where
  service : Option String := none
  docType : Option String := none
  scenario : Option String := none
  dateFrom : Option String := none
  dateTo : Option String := none
  incidentId : Option String := none

structure Citation where
  document : String
  section_ : String
  chunkId : String
  deriving DecidableEq

structure RetrieveHit where
  text : String
  score : ℚ
  citation : Citation
  deriving DecidableEq

inductive FilterClause where
  | term (field value : String)
  | dates (gte lte : Option String)

inductive SearchQuery where
  | matchText (query : String)
  | knn (vector : List ℚ) (k : Nat)

/-- The body of a `_search` request, without the `_source` clause, that is the same in all. -/
structure SearchBody where
  query : SearchQuery
  filter : List FilterClause
  size : Nat

/-- What a retrieval takes from outside: the embedder, `_search`, and the value of a float. -/
structure KnowledgePorts where
  embedTexts : List String → Except Raised (List (List ℚ))
  search : Option KnowledgeIndex → SearchBody → Except Raised Fields
  toFloat : FloatText → ℚ

def RetrieveFilters.asMapping (filters : RetrieveFilters) : Dict String :=
  [("service", filters.service), ("doc_type", filters.docType), ("scenario", filters.scenario),
    ("date_from", filters.dateFrom), ("date_to", filters.dateTo),
    ("incident_id", filters.incidentId)].filterMap fun entry =>
      let value := strip (entry.2.getD "")
      if value = "" then none else some (entry.1, value)

/-- `str(filters.get(field, "")).strip()`, when it is not empty. -/
def givenFilter (filters : Dict String) (field : String) : Option String :=
  let value := strip ((filters.lookup field).getD "")
  if value = "" then none else some value

/-- `_filter_clauses` -/
def filterClauses (filters : Dict String) : List FilterClause :=
  [.term "role" "child"] ++
    (["service", "doc_type", "scenario", "incident_id", "source_path"].filterMap fun field =>
      (givenFilter filters field).map (.term field)) ++
    match givenFilter filters "date_from", givenFilter filters "date_to" with
    | none, none => []
    | dateFrom, dateTo => [.dates dateFrom dateTo]

/-- The fields of a document that are searched for whole. -/
def Document.keywords (doc : Document) : Dict String :=
  [("source_path", doc.sourcePath), ("section", doc.section_), ("doc_type", doc.docType),
    ("service", doc.service), ("scenario", doc.scenario), ("date", doc.date),
    ("chunk_id", doc.chunkId), ("incident_id", doc.incidentId), ("role", doc.role),
    ("parent_id", doc.parentId)]

def FilterClause.holds (doc : Document) : FilterClause → Bool
  | .term field value => doc.keywords.lookup field = some value
  | .dates gte lte => gte.all (· ≤ doc.date) && lte.all (doc.date ≤ ·)

/-- The `_source` of a document without its embedding. -/
def Document.source (doc : Document) : Fields :=
  [("chunk_id", .str doc.chunkId), ("text", .str doc.text), ("source_path", .str doc.sourcePath),
    ("section", .str doc.section_), ("doc_type", .str doc.docType), ("service", .str doc.service),
    ("scenario", .str doc.scenario), ("date", .str doc.date), ("incident_id", .str doc.incidentId),
    ("role", .str doc.role), ("parent_id", .str doc.parentId)]

/-- `payload.get("hits", {}).get("hits", [])` as the loop over it takes it. -/
def rawHits (payload : Fields) : Except Raised (List Value) :=
  match (payload.lookup "hits").getD (.obj []) with
  | .obj inner =>
    match (inner.lookup "hits").getD (.list []) with
    | .list items => .ok items
    | .str _ => .ok []
    | .obj _ => .ok []
    | _ => .error (.other "object is not iterable")
  | _ => .error (.other "object has no attribute 'get'")

section Retrieve

variable (ports : KnowledgePorts)

/-- One item in the loop of `_hits_from_search`. -/
def hitOfItem (item : Value) : Option KnowledgeHit :=
  match item with
  | .obj item =>
    match Fields.get item "_source" with
    | .obj source =>
      let chunkId := (Fields.get source "chunk_id").strOr ((Fields.get item "_id").strOr "")
      if chunkId = "" then none
      else
        some {
          chunkId
          text := (Fields.get source "text").strOr ""
          sourcePath := (Fields.get source "source_path").strOr ""
          section_ := (Fields.get source "section").strOr ""
          score := match Fields.get item "_score" with
            | .int n => n
            | .float repr => ports.toFloat repr
            | .bool b => if b then 1 else 0
            | _ => 0 }
    | _ => none
  | _ => none

/-- `_hits_from_search` -/
def hitsFromSearch (payload : Fields) : Except Raised (List KnowledgeHit) :=
  (rawHits payload).map (List.filterMap (hitOfItem ports))

/-- `search_text` -/
def searchText (index : Option KnowledgeIndex) (query : String) (filters : Dict String)
    (size : Nat) : Except Raised (List KnowledgeHit) :=
  (ports.search index ⟨.matchText query, filterClauses filters, size⟩).bind (hitsFromSearch ports)

/-- `search_knn` -/
def searchKnn (index : Option KnowledgeIndex) (embedding : List ℚ) (filters : Dict String)
    (size : Nat) : Except Raised (List KnowledgeHit) :=
  let k := max 1 size
  (ports.search index ⟨.knn embedding k, filterClauses filters, k⟩).bind (hitsFromSearch ports)

def candidateSize (topK : Int) : Nat := (min 50 (max 20 (topK * 4))).toNat

def maxTopK : Int := 20

def toRetrieveHit (hit : KnowledgeHit) : RetrieveHit :=
  ⟨hit.text, hit.score, ⟨hit.sourcePath, hit.section_, hit.chunkId⟩⟩

/-- `execute` of `RetrieveKnowledge`, on an index that stays the same. -/
def executeRetrieve (index : Option KnowledgeIndex) (query : String) (filters : RetrieveFilters)
    (topK : Int) : Except Raised (List RetrieveHit) :=
  let text := strip query
  if text = "" then .error (.invalid "Retrieve query must be a non-empty string.")
  else if topK < 1 ∨ maxTopK < topK then .error (.invalid "top_k must be between 1 and 20.")
  else
    let mapping := filters.asMapping
    let size := candidateSize topK
    (ports.embedTexts [text]).bind fun vectors =>
      (searchText ports index text mapping size).bind fun bm25 =>
        match vectors with
        | [] => .error (.other "list index out of range")
        | vector :: _ =>
          (searchKnn ports index vector mapping size).bind fun knn =>
            match mergeHybridRankings bm25 knn topK 60 (7 / 10) (3 / 10) with
            | .ok fused => .ok (fused.map toRetrieveHit)
            | .error key => .error (.other key)

def knowledgeCap : Nat := 4

def knowledgeDocTypes : List String := ["runbook", "incident_report"]

/-- The sort key `(-hit.score, hit.citation.chunk_id)`. -/
def hitKey (hit : RetrieveHit) : ℚ ×ₗ String := toLex (-hit.score, hit.citation.chunkId)

variable (repo : Repository)

/-- `is_allowlisted` -/
def isAllowlisted (path : String) : Bool := repo.relativePosix path ∈ allowedRelativePaths

/-- The filters of one document type. -/
def knowledgeFilters (service scenario docType : String) : RetrieveFilters where
  service := some service
  scenario := some scenario
  docType := some docType

/-- The hits of one document type in the loop of `retrieve_runbooks_and_incidents`. -/
def addHits (byId : Dict RetrieveHit) (hits : List RetrieveHit) : Dict RetrieveHit :=
  hits.foldl (fun byId hit =>
    if isAllowlisted repo hit.citation.document then byId.setDefault hit.citation.chunkId hit
    else byId) byId

def gatherHits (index : Option KnowledgeIndex) (query service scenario : String) :
    List String → Dict RetrieveHit → Except Raised (Dict RetrieveHit)
  | [], byId => .ok byId
  | docType :: rest, byId =>
    (executeRetrieve ports index query (knowledgeFilters service scenario docType)
      knowledgeCap).bind fun hits =>
      gatherHits index query service scenario rest (addHits repo byId hits)

/-- `retrieve_runbooks_and_incidents` -/
def retrieveRunbooksAndIncidents (index : Option KnowledgeIndex)
    (query service scenario : String) : Except Raised (List RetrieveHit) :=
  (gatherHits ports repo index query service scenario knowledgeDocTypes []).map fun byId =>
    ((byId.map Prod.snd).insertionSort fun a b => hitKey a ≤ hitKey b).take knowledgeCap

structure RetrieveKnowledgeParams where
  query : String
  service : String
  scenario : String

/-- A text field with a bound and no pattern, and the default `""`. -/
def plainField (maxLength : Nat) (params : Fields) (key : String) : Option String :=
  match params.lookup key with
  | none => some ""
  | some (.str value) => if value.length ≤ maxLength then some value else none
  | some _ => none

/-- `RetrieveKnowledgeParams.model_validate` -/
def RetrieveKnowledgeParams.parse (params : Fields) : Option RetrieveKnowledgeParams :=
  if onlyKeys ["query", "service", "scenario"] params then do
    let query ← plainField 2000 params "query"
    let service ← textField 255 params "service"
    let scenario ← textField 128 params "scenario"
    pure ⟨query, service, scenario⟩
  else none

/-- `make_retrieve_knowledge` -/
def retrieveKnowledge (index : Option KnowledgeIndex) (params : Fields) :
    Except Raised (List RetrieveHit) :=
  match RetrieveKnowledgeParams.parse params with
  | none => .error (.invalid "denied:invalid_params")
  | some body => retrieveRunbooksAndIncidents ports repo index body.query body.service body.scenario

end Retrieve

/-- An item of a search answer: a document of the index with what it scored. -/
def searchItem (hit : Value × String × Document) : Value :=
  .obj [("_index", .str "aegis-knowledge"), ("_id", .str hit.2.1), ("_score", hit.1),
    ("_source", .obj hit.2.2.source)]

/-- What the search documents: it finds documents that the filter selects, each one once, and fails
where there is no index. -/
structure Searches (search : Option KnowledgeIndex → SearchBody → Except Raised Fields) : Prop where
  missing : ∀ body payload, search none body ≠ .ok payload
  found : ∀ index body payload, (index.docs.map Prod.fst).Nodup →
    search (some index) body = .ok payload → ∃ hits : List (Value × String × Document),
      rawHits payload = .ok (hits.map searchItem) ∧ (hits.map fun hit => hit.2.1).Nodup ∧
        ∀ hit ∈ hits, hit.2 ∈ index.docs ∧ ∀ clause ∈ body.filter, clause.holds hit.2.2 = true

/-- What a hit shows of a document. -/
structure ShowsDocument (index : KnowledgeIndex) (clauses : List FilterClause) (hit : KnowledgeHit)
    (doc : Document) : Prop where
  stored : (hit.chunkId, doc) ∈ index.docs
  text : hit.text = doc.text
  sourcePath : hit.sourcePath = doc.sourcePath
  section_ : hit.section_ = doc.section_
  selected : ∀ clause ∈ clauses, clause.holds doc = true

/-- Hits that show documents which a filter selects, each one once. -/
structure Found (index : KnowledgeIndex) (clauses : List FilterClause)
    (hits : List KnowledgeHit) : Prop where
  nodup : (hits.map KnowledgeHit.chunkId).Nodup
  shows : ∀ hit ∈ hits, ∃ doc, ShowsDocument index clauses hit doc

section Search

variable {ports : KnowledgePorts} {index : KnowledgeIndex}

/-- Parts that are made of the items under the same names. -/
theorem filterMap_names_sublist {Item Part Name : Type*} {make : Item → Option Part}
    {itemName : Item → Name} {partName : Part → Name} (items : List Item)
    (named : ∀ item ∈ items, ∀ part, make item = some part → partName part = itemName item) :
    ((items.filterMap make).map partName).Sublist (items.map itemName) := by
  induction items with
  | nil => exact List.Sublist.refl _
  | cons item rest ih =>
    obtain ⟨hitem, hrest⟩ := List.forall_mem_cons.mp named
    cases hmake : make item with
    | none =>
      rw [List.filterMap_cons_none hmake, List.map_cons]
      exact (ih hrest).cons _
    | some part =>
      rw [List.filterMap_cons_some hmake, List.map_cons, List.map_cons, hitem part hmake]
      exact (ih hrest).cons_cons _

theorem hitOfItem_searchItem {hit : Value × String × Document} (own : hit.2.1 = hit.2.2.chunkId)
    {made : KnowledgeHit} (h : hitOfItem ports (searchItem hit) = some made) :
    made.chunkId = hit.2.1 ∧ made.text = hit.2.2.text ∧ made.sourcePath = hit.2.2.sourcePath ∧
      made.section_ = hit.2.2.section_ := by
  have hid : (Value.str hit.2.2.chunkId).strOr ((Value.str hit.2.1).strOr "") = hit.2.1 := by
    rw [own, strOr_str_empty]
    unfold Value.strOr
    split <;> rfl
  change (if (Value.str hit.2.2.chunkId).strOr ((Value.str hit.2.1).strOr "") = "" then none
    else some (KnowledgeHit.mk ((Value.str hit.2.2.chunkId).strOr ((Value.str hit.2.1).strOr ""))
      ((Value.str hit.2.2.text).strOr "") ((Value.str hit.2.2.sourcePath).strOr "")
      ((Value.str hit.2.2.section_).strOr "") _)) = some made at h
  rw [hid, strOr_str_empty, strOr_str_empty, strOr_str_empty] at h
  split at h
  · cases h
  · obtain rfl := Option.some.inj h
    exact ⟨rfl, rfl, rfl, rfl⟩

theorem rawHits_hits {payload : Fields} {hits : List KnowledgeHit} {items : List Value}
    (raw : rawHits payload = .ok items) (h : hitsFromSearch ports payload = .ok hits) :
    hits = items.filterMap (hitOfItem ports) := by
  unfold hitsFromSearch at h
  rw [raw] at h
  exact (Except.ok.inj h).symm

/-- A search over an index of documents under their own ids. -/
theorem found_of_search (searches : Searches ports.search)
    (nodup : (index.docs.map Prod.fst).Nodup)
    (own : ∀ entry ∈ index.docs, entry.1 = entry.2.chunkId)
    {body : SearchBody} {hits : List KnowledgeHit}
    (h : (ports.search (some index) body).bind (hitsFromSearch ports) = .ok hits) :
    Found index body.filter hits := by
  cases hsearch : ports.search (some index) body with
  | error raised =>
    rw [hsearch] at h
    cases h
  | ok payload =>
    rw [hsearch] at h
    obtain ⟨found, hraw, hids, hfound⟩ := searches.found index body payload nodup hsearch
    have hhits := rawHits_hits hraw h
    rw [List.filterMap_map] at hhits
    have hnamed : ∀ hit ∈ found, ∀ made, (hitOfItem ports ∘ searchItem) hit = some made →
        made.chunkId = hit.2.1 :=
      fun hit hhit made hmade => (hitOfItem_searchItem (own _ (hfound hit hhit).1) hmade).1
    refine ⟨?_, fun made hmade => ?_⟩
    · rw [hhits]
      exact hids.sublist (filterMap_names_sublist found hnamed)
    · rw [hhits] at hmade
      obtain ⟨hit, hhit, hmake⟩ := List.mem_filterMap.mp hmade
      obtain ⟨hstored, hselected⟩ := hfound hit hhit
      obtain ⟨hid, htext, hpath, hsection⟩ := hitOfItem_searchItem (own _ hstored) hmake
      exact ⟨hit.2.2, by rw [hid]; exact hstored, htext, hpath, hsection, hselected⟩

/-- A copy of an id stands in one of the lists. -/
theorem mem_of_bestCopy {bm25 knn : List KnowledgeHit} {id : String} {copy : KnowledgeHit}
    (h : bestCopy bm25 knn id = some copy) : (copy ∈ bm25 ∨ copy ∈ knn) ∧ copy.chunkId = id := by
  unfold bestCopy at h
  rcases Option.or_eq_some_iff.mp h with hfirst | ⟨-, hsecond⟩
  · have hid := List.find?_some hfirst
    exact ⟨.inl (List.mem_of_find?_eq_some hfirst), of_decide_eq_true hid⟩
  · have hid := List.find?_some hsecond
    exact ⟨.inr (List.mem_of_find?_eq_some hsecond), of_decide_eq_true hid⟩

/-- The answers of the two searches of a retrieval, by words and by vectors. -/
def Searched (ports : KnowledgePorts) (index : Option KnowledgeIndex) (query : String)
    (filters : RetrieveFilters) (topK : Int) (bm25 knn : List KnowledgeHit) : Prop :=
  ∃ vector rest, ports.embedTexts [strip query] = .ok (vector :: rest) ∧
    searchText ports index (strip query) filters.asMapping (candidateSize topK) = .ok bm25 ∧
    searchKnn ports index vector filters.asMapping (candidateSize topK) = .ok knn

theorem searched_unique {index : Option KnowledgeIndex} {query : String}
    {filters : RetrieveFilters} {topK : Int} {bm25 knn bm25' knn' : List KnowledgeHit}
    (h : Searched ports index query filters topK bm25 knn)
    (h' : Searched ports index query filters topK bm25' knn') : bm25 = bm25' ∧ knn = knn' := by
  obtain ⟨vector, rest, hvector, hbm25, hknn⟩ := h
  obtain ⟨vector', rest', hvector', hbm25', hknn'⟩ := h'
  obtain ⟨rfl, -⟩ := List.cons.inj (Except.ok.inj (hvector.symm.trans hvector'))
  exact ⟨Except.ok.inj (hbm25.symm.trans hbm25'), Except.ok.inj (hknn.symm.trans hknn')⟩

/-- A hit of one of two lists, with the score that both lists give it. -/
def ScoredIn (bm25 knn : List KnowledgeHit) (hit : KnowledgeHit) : Prop :=
  ∃ copy, bestCopy bm25 knn hit.chunkId = some copy ∧
    hit = { copy with score := fusedScore bm25 knn 60 (7 / 10) (3 / 10) hit.chunkId }

theorem scoredIn_shows {clauses : List FilterClause} {bm25 knn : List KnowledgeHit}
    {hit : KnowledgeHit} (hbm25 : Found index clauses bm25) (hknn : Found index clauses knn)
    (h : ScoredIn bm25 knn hit) : ∃ doc, ShowsDocument index clauses hit doc := by
  obtain ⟨copy, hcopy, hhit⟩ := h
  obtain ⟨doc, hdoc⟩ := (mem_of_bestCopy hcopy).1.elim (hbm25.shows copy) (hknn.shows copy)
  rw [hhit]
  exact ⟨doc, hdoc.stored, hdoc.text, hdoc.sourcePath, hdoc.section_, hdoc.selected⟩

/-- What a retrieval returns: the best hits of its two searches, each one once. -/
structure Retrieved (bm25 knn : List KnowledgeHit) (topK : Int) (hits : List RetrieveHit) :
    Prop where
  nodup : (hits.map fun hit => hit.citation.chunkId).Nodup
  scored : ∀ hit ∈ hits, ∃ made, ScoredIn bm25 knn made ∧ hit = toRetrieveHit made
  best : ∀ made, ScoredIn bm25 knn made → toRetrieveHit made ∈ hits ∨
    (hits.length = topK.toNat ∧ ∀ other ∈ hits, hitKey other < hitKey (toRetrieveHit made))

theorem retrieved_of_merge {clauses : List FilterClause} {bm25 knn fused : List KnowledgeHit}
    {topK : Int} (hbm25 : Found index clauses bm25) (hknn : Found index clauses knn)
    (hk : 1 ≤ topK)
    (h : mergeHybridRankings bm25 knn topK 60 (7 / 10) (3 / 10) = .ok fused) :
    Retrieved bm25 knn topK (fused.map toRetrieveHit) := by
  obtain ⟨made, hmade, hids, hcopies⟩ := merge_ok hbm25.nodup hknn.nodup hk
  obtain rfl := Except.ok.inj (hmade.symm.trans h)
  have hnodup : (made.map KnowledgeHit.chunkId).Nodup := by
    rw [hids]
    exact (fusedOrder_ranking hbm25.nodup hknn.nodup).nodup.sublist (List.take_sublist _ _)
  refine ⟨?_, fun hit hhit => ?_, fun hit hscored => ?_⟩
  · rw [List.map_map]
    exact hnodup
  · obtain ⟨hit, hmem, rfl⟩ := List.mem_map.mp hhit
    exact ⟨hit, hcopies hit hmem, rfl⟩
  · obtain ⟨copy, hcopy, hhit⟩ := hscored
    obtain ⟨hsource, hid⟩ := mem_of_bestCopy hcopy
    have hmem : hit.chunkId ∈ bm25.map KnowledgeHit.chunkId ∨
        hit.chunkId ∈ knn.map KnowledgeHit.chunkId := by
      rw [← hid]
      exact hsource.imp (fun h => List.mem_map_of_mem h) fun h => List.mem_map_of_mem h
    rcases merge_cut hbm25.nodup hknn.nodup hk h hmem with hkept | ⟨hlength, hworse⟩
    · left
      obtain ⟨other, hother, hsame⟩ := List.mem_map.mp hkept
      obtain ⟨found, hfound, hscore⟩ := hcopies other hother
      rw [hsame, hcopy] at hfound
      obtain rfl := Option.some.inj hfound
      rw [hsame] at hscore
      rw [hhit, ← hscore]
      exact List.mem_map_of_mem hother
    · refine .inr
        ⟨(List.length_map _).trans hlength, List.forall_mem_map.mpr fun other hother => ?_⟩
      have hscore := congrArg KnowledgeHit.score hhit
      dsimp only at hscore
      have hkey : hitKey (toRetrieveHit hit) =
          toLex (-fusedScore bm25 knn 60 (7 / 10) (3 / 10) hit.chunkId, hit.chunkId) := by
        rw [← hscore]
        rfl
      rw [hkey]
      exact hworse other hother

/-- A retrieval returns the best of what its two searches find. -/
theorem retrieved_of_execute (searches : Searches ports.search)
    (nodup : (index.docs.map Prod.fst).Nodup)
    (own : ∀ entry ∈ index.docs, entry.1 = entry.2.chunkId)
    {query : String} {filters : RetrieveFilters} {topK : Int} {hits : List RetrieveHit}
    (h : executeRetrieve ports (some index) query filters topK = .ok hits) :
    ∃ bm25 knn, Searched ports (some index) query filters topK bm25 knn ∧
      Found index (filterClauses filters.asMapping) bm25 ∧
      Found index (filterClauses filters.asMapping) knn ∧ Retrieved bm25 knn topK hits := by
  unfold executeRetrieve at h
  dsimp only at h
  split at h
  · cases h
  split at h
  · cases h
  next hrange =>
    obtain ⟨vectors, hvectors, h⟩ := bind_ok h
    obtain ⟨bm25, hbm25, h⟩ := bind_ok h
    split at h
    · cases h
    next vector rest _ =>
      obtain ⟨knn, hknn, h⟩ := bind_ok h
      split at h
      next fused hfused =>
        obtain rfl := Except.ok.inj h
        have hfirst := found_of_search searches nodup own hbm25
        have hsecond := found_of_search searches nodup own hknn
        exact ⟨bm25, knn, ⟨vector, rest, hvectors, hbm25, hknn⟩, hfirst, hsecond,
          retrieved_of_merge hfirst hsecond (by omega) hfused⟩
      · cases h

end Search

section Gather

variable {ports : KnowledgePorts} {repo : Repository} {index : Option KnowledgeIndex}
  {query service scenario : String} {byId : Dict RetrieveHit}

/-- An allowlisted hit that the retrieval for one of the document types returns. -/
def Returned (ports : KnowledgePorts) (repo : Repository) (index : Option KnowledgeIndex)
    (query service scenario : String) (docTypes : List String) (hit : RetrieveHit) : Prop :=
  isAllowlisted repo hit.citation.document = true ∧ ∃ docType ∈ docTypes, ∃ hits,
    executeRetrieve ports index query (knowledgeFilters service scenario docType) knowledgeCap =
      .ok hits ∧ hit ∈ hits

/-- Hits under their own ids. -/
structure Gathered (byId : Dict RetrieveHit) : Prop where
  nodup : (byId.map Prod.fst).Nodup
  own : ∀ entry ∈ byId, entry.1 = entry.2.citation.chunkId

theorem setDefault_cases {α : Type} (dict : Dict α) (key : String) (value : α) :
    key ∈ dict.map Prod.fst ∧ dict.setDefault key value = dict ∨
      key ∉ dict.map Prod.fst ∧ dict.setDefault key value = dict ++ [(key, value)] := by
  unfold Dict.setDefault
  by_cases h : key ∈ dict.map Prod.fst
  · exact .inl ⟨h, if_pos (Dict.lookup_isSome.mpr h)⟩
  · refine .inr ⟨h, ?_⟩
    rw [if_neg fun hsome => h (Dict.lookup_isSome.mp hsome), Dict.set_fresh h]

/-- What one hit does to the dictionary. -/
theorem gathered_setDefault (gathered : Gathered byId) (hit : RetrieveHit) :
    Gathered (byId.setDefault hit.citation.chunkId hit) ∧
      (∀ entry ∈ byId, entry ∈ byId.setDefault hit.citation.chunkId hit) ∧
      (∃ entry ∈ byId.setDefault hit.citation.chunkId hit, entry.1 = hit.citation.chunkId) ∧
      ∀ entry ∈ byId.setDefault hit.citation.chunkId hit, entry ∈ byId ∨ entry.2 = hit := by
  rcases setDefault_cases byId hit.citation.chunkId hit with ⟨hmem, hsame⟩ | ⟨hfresh, hadded⟩
  · rw [hsame]
    exact ⟨gathered, fun _ h => h, List.mem_map.mp hmem, fun _ h => .inl h⟩
  · rw [hadded]
    refine ⟨⟨?_, ?_⟩, fun entry h => List.mem_append_left _ h,
      ⟨_, List.mem_append_right _ List.mem_cons_self, rfl⟩, fun entry hentry => ?_⟩
    · rw [List.map_append, List.map_singleton, ← List.concat_eq_append]
      exact gathered.nodup.concat hfresh
    · intro entry hentry
      rcases List.mem_append.mp hentry with hold | hnew
      · exact gathered.own entry hold
      · rw [List.mem_singleton.mp hnew]
    · exact (List.mem_append.mp hentry).imp_right fun hnew => by rw [List.mem_singleton.mp hnew]

/-- What the hits of one document type do to the dictionary. -/
theorem gathered_addHits (gathered : Gathered byId) (hits : List RetrieveHit) :
    Gathered (addHits repo byId hits) ∧
      (∀ entry ∈ byId, entry ∈ addHits repo byId hits) ∧
      (∀ hit ∈ hits, isAllowlisted repo hit.citation.document = true →
        ∃ entry ∈ addHits repo byId hits, entry.1 = hit.citation.chunkId) ∧
      ∀ entry ∈ addHits repo byId hits, entry ∈ byId ∨
        (entry.2 ∈ hits ∧ isAllowlisted repo entry.2.citation.document = true) := by
  induction hits generalizing byId with
  | nil => exact ⟨gathered, fun _ h => h, fun _ h => absurd h List.not_mem_nil, fun _ h => .inl h⟩
  | cons hit rest ih =>
    by_cases hallowed : isAllowlisted repo hit.citation.document = true
    · obtain ⟨hfirst, hkept, hown, hfrom⟩ := gathered_setDefault gathered hit
      have hstep : addHits repo byId (hit :: rest) =
          addHits repo (byId.setDefault hit.citation.chunkId hit) rest := by
        unfold addHits
        rw [List.foldl_cons, if_pos hallowed]
      obtain ⟨hlast, hstay, hall, hlater⟩ := ih hfirst
      rw [hstep]
      refine ⟨hlast, fun entry h => hstay entry (hkept entry h), ?_, fun entry hentry => ?_⟩
      · refine List.forall_mem_cons.mpr ⟨fun _ => ?_, hall⟩
        obtain ⟨entry, hentry, hid⟩ := hown
        exact ⟨entry, hstay entry hentry, hid⟩
      · rcases hlater entry hentry with hmiddle | ⟨hmem, hlisted⟩
        · refine (hfrom entry hmiddle).imp_right fun hsame => ?_
          rw [hsame]
          exact ⟨List.mem_cons_self, hallowed⟩
        · exact .inr ⟨List.mem_cons_of_mem _ hmem, hlisted⟩
    · have hstep : addHits repo byId (hit :: rest) = addHits repo byId rest := by
        unfold addHits
        rw [List.foldl_cons, if_neg hallowed]
      obtain ⟨hlast, hstay, hall, hlater⟩ := ih gathered
      rw [hstep]
      refine ⟨hlast, hstay, List.forall_mem_cons.mpr ⟨fun h => absurd h hallowed, hall⟩,
        fun entry hentry => (hlater entry hentry).imp_right fun h => ?_⟩
      exact ⟨List.mem_cons_of_mem _ h.1, h.2⟩

theorem gatherHits_ok {docTypes : List String} {after : Dict RetrieveHit}
    (gathered : Gathered byId)
    (h : gatherHits ports repo index query service scenario docTypes byId = .ok after) :
    Gathered after ∧ (∀ entry ∈ byId, entry ∈ after) ∧
      (∀ docType ∈ docTypes, ∃ hits, executeRetrieve ports index query
        (knowledgeFilters service scenario docType) knowledgeCap = .ok hits) ∧
      (∀ hit, Returned ports repo index query service scenario docTypes hit →
        ∃ entry ∈ after, entry.1 = hit.citation.chunkId) ∧
      ∀ entry ∈ after, entry ∈ byId ∨
        Returned ports repo index query service scenario docTypes entry.2 := by
  induction docTypes generalizing byId with
  | nil =>
    obtain rfl := Except.ok.inj h
    refine ⟨gathered, fun _ h => h, fun _ h => absurd h List.not_mem_nil,
      fun hit hreturned => ?_, fun _ h => .inl h⟩
    obtain ⟨-, docType, hmem, -⟩ := hreturned
    exact absurd hmem List.not_mem_nil
  | cons docType rest ih =>
    obtain ⟨hits, hhits, h⟩ := bind_ok h
    obtain ⟨hfirst, hkept, hown, hfrom⟩ := @gathered_addHits repo byId gathered hits
    obtain ⟨hlast, hstay, hran, hall, hlater⟩ := ih hfirst h
    refine ⟨hlast, fun entry h => hstay entry (hkept entry h),
      List.forall_mem_cons.mpr ⟨⟨hits, hhits⟩, hran⟩, fun hit hreturned => ?_,
      fun entry hentry => ?_⟩
    · obtain ⟨hallowed, other, hother, found, hfound, hmem⟩ := hreturned
      rcases List.mem_cons.mp hother with rfl | hother
      · obtain rfl := Except.ok.inj (hhits.symm.trans hfound)
        obtain ⟨entry, hentry, hid⟩ := hown hit hmem hallowed
        exact ⟨entry, hstay entry hentry, hid⟩
      · exact hall hit ⟨hallowed, other, hother, found, hfound, hmem⟩
    · rcases hlater entry hentry with hmiddle | ⟨hallowed, other, hother, hfound⟩
      · refine (hfrom entry hmiddle).imp_right fun hnew => ?_
        exact ⟨hnew.2, docType, List.mem_cons_self, hits, hhits, hnew.1⟩
      · exact .inr ⟨hallowed, other, List.mem_cons_of_mem _ hother, hfound⟩

end Gather

section Filters

variable {service scenario docType field value : String} {doc : Document}

/-- A stripped text, when it is not empty. -/
def nonblank (text : String) : Option String := if strip text = "" then none else some (strip text)

theorem given_knowledge (service scenario docType : String) :
    givenFilter (knowledgeFilters service scenario docType).asMapping "service" =
        nonblank service ∧
      givenFilter (knowledgeFilters service scenario docType).asMapping "doc_type" =
        nonblank docType ∧
      givenFilter (knowledgeFilters service scenario docType).asMapping "scenario" =
        nonblank scenario := by
  have hempty : strip "" = "" := by decide
  by_cases hservice : strip service = "" <;> by_cases htype : strip docType = "" <;>
    by_cases hscenario : strip scenario = "" <;>
    simp [givenFilter, RetrieveFilters.asMapping, knowledgeFilters, nonblank, List.lookup_cons,
      hempty, hservice, htype, hscenario, strip_strip]

theorem mem_filterClauses {filters : Dict String} (given : givenFilter filters field = some value)
    (known : field ∈ ["service", "doc_type", "scenario", "incident_id", "source_path"]) :
    .term field value ∈ filterClauses filters := by
  refine List.mem_append_left _ (List.mem_append_right _ ?_)
  exact List.mem_filterMap.mpr ⟨field, known, by rw [given]; rfl⟩

theorem holds_term (h : (FilterClause.term field value).holds doc = true) :
    doc.keywords.lookup field = some value := of_decide_eq_true h

theorem nonblank_of_ne {text : String} (h : strip text ≠ "") : nonblank text = some (strip text) :=
  if_neg h

/-- What the filter of a document type selects. -/
theorem selected_knowledge (visible : strip docType = docType ∧ docType ≠ "")
    (h : ∀ clause ∈ filterClauses (knowledgeFilters service scenario docType).asMapping,
      clause.holds doc = true) :
    doc.docType = docType ∧ (strip service ≠ "" → doc.service = strip service) ∧
      (strip scenario ≠ "" → doc.scenario = strip scenario) := by
  obtain ⟨hservice, htype, hscenario⟩ := given_knowledge service scenario docType
  have hdocType : strip docType ≠ "" := by
    rw [visible.1]
    exact visible.2
  rw [nonblank_of_ne hdocType, visible.1] at htype
  refine ⟨?_, fun hne => ?_, fun hne => ?_⟩
  · exact Option.some.inj (holds_term (h _ (mem_filterClauses htype (by simp))))
  · rw [nonblank_of_ne hne] at hservice
    exact Option.some.inj (holds_term (h _ (mem_filterClauses hservice (by simp))))
  · rw [nonblank_of_ne hne] at hscenario
    exact Option.some.inj (holds_term (h _ (mem_filterClauses hscenario (by simp))))

end Filters

/-- A hit that quotes a retrieval chunk of a content that an allowlisted file has had: one of a
runbook or an incident report, on the service and the scenario asked for. -/
structure Quotes (repo : Repository) (contents : String → Set ByteArray) (service scenario : String)
    (hit : RetrieveHit) : Prop where
  allowed : hit.citation.document ∈ allowedRelativePaths
  chunk : ∃ bytes ∈ contents hit.citation.document, ∃ chunks,
    childrenOf repo hit.citation.document bytes = .ok chunks ∧ ∃ chunk ∈ chunks,
      toRetrieveHit ⟨chunk.chunkId, chunk.text, chunk.sourcePath, chunk.section_, hit.score⟩ = hit ∧
      (bareDocument chunk).docType ∈ knowledgeDocTypes ∧
      (strip service ≠ "" → (bareDocument chunk).service = strip service) ∧
      (strip scenario ≠ "" → (bareDocument chunk).scenario = strip scenario)

section Shown

variable {ports : KnowledgePorts} {repo : Repository} {index : KnowledgeIndex}
  {contents : String → Set ByteArray} {query service scenario : String}

theorem visible_docType :
    ∀ docType ∈ knowledgeDocTypes, strip docType = docType ∧ docType ≠ "" := by
  decide

/-- A hit that one of the searches for a document type has found, scored by the places it has in
the two. -/
def Candidate (ports : KnowledgePorts) (index : Option KnowledgeIndex)
    (query service scenario : String) (hit : RetrieveHit) : Prop :=
  ∃ docType ∈ knowledgeDocTypes, ∃ bm25 knn made,
    Searched ports index query (knowledgeFilters service scenario docType) knowledgeCap bm25 knn ∧
      ScoredIn bm25 knn made ∧ hit = toRetrieveHit made

theorem searched_found (searches : Searches ports.search)
    (nodup : (index.docs.map Prod.fst).Nodup)
    (own : ∀ entry ∈ index.docs, entry.1 = entry.2.chunkId) {filters : RetrieveFilters}
    {topK : Int} {bm25 knn : List KnowledgeHit}
    (h : Searched ports (some index) query filters topK bm25 knn) :
    Found index (filterClauses filters.asMapping) bm25 ∧
      Found index (filterClauses filters.asMapping) knn := by
  obtain ⟨vector, rest, -, hbm25, hknn⟩ := h
  exact ⟨found_of_search searches nodup own hbm25, found_of_search searches nodup own hknn⟩

theorem candidate_quotes (searches : Searches ports.search)
    (nodup : (index.docs.map Prod.fst).Nodup)
    (made : ∀ entry ∈ index.docs, MadeFrom repo contents entry)
    {hit : RetrieveHit} (h : Candidate ports (some index) query service scenario hit) :
    Quotes repo contents service scenario hit := by
  obtain ⟨docType, htype, bm25, knn, hit, hsearched, hscored, rfl⟩ := h
  obtain ⟨hbm25, hknn⟩ :=
    searched_found searches nodup (fun entry hentry => (made entry hentry).id) hsearched
  obtain ⟨doc, hdoc⟩ := scoredIn_shows hbm25 hknn hscored
  obtain ⟨hid, hallowed, bytes, hbytes, chunks, hchunks, chunk, hchunk, hbare⟩ := made _ hdoc.stored
  dsimp only at hid hallowed hbytes hchunks hbare
  have hsource : hit.sourcePath = doc.sourcePath := hdoc.sourcePath
  obtain ⟨hdocType, hservice, hscenario⟩ :=
    selected_knowledge (visible_docType docType htype) hdoc.selected
  have htext : doc.text = chunk.text := congrArg Document.text hbare
  have hpath : doc.sourcePath = chunk.sourcePath := congrArg Document.sourcePath hbare
  have hsection : doc.section_ = chunk.section_ := congrArg Document.section_ hbare
  have hchunkId : doc.chunkId = chunk.chunkId := congrArg Document.chunkId hbare
  rw [← hsource] at hallowed hbytes hchunks
  refine ⟨hallowed, bytes, hbytes, chunks, hchunks, chunk, hchunk, ?_, ?_, ?_, ?_⟩
  · unfold toRetrieveHit
    dsimp only
    rw [← htext, ← hpath, ← hsection, ← hchunkId, ← hdoc.text, ← hdoc.sourcePath, ← hdoc.section_,
      ← hid]
  · rw [← hbare]
    exact hdocType ▸ htype
  · rw [← hbare]
    exact hservice
  · rw [← hbare]
    exact hscenario

/-- Two candidates of one id are the same hit: one document has one type, and the searches for a
type give an id one score. -/
theorem candidate_unique (searches : Searches ports.search)
    (nodup : (index.docs.map Prod.fst).Nodup)
    (own : ∀ entry ∈ index.docs, entry.1 = entry.2.chunkId) {hit other : RetrieveHit}
    (h : Candidate ports (some index) query service scenario hit)
    (h' : Candidate ports (some index) query service scenario other)
    (same : hit.citation.chunkId = other.citation.chunkId) : hit = other := by
  obtain ⟨docType, htype, bm25, knn, made, hsearched, hscored, rfl⟩ := h
  obtain ⟨otherType, hotherType, bm25', knn', otherMade, hsearched', hscored', rfl⟩ := h'
  obtain ⟨hbm25, hknn⟩ := searched_found searches nodup own hsearched
  obtain ⟨hbm25', hknn'⟩ := searched_found searches nodup own hsearched'
  obtain ⟨doc, hdoc⟩ := scoredIn_shows hbm25 hknn hscored
  obtain ⟨otherDoc, hotherDoc⟩ := scoredIn_shows hbm25' hknn' hscored'
  have hid : made.chunkId = otherMade.chunkId := same
  have hsame : doc = otherDoc := by
    have hstored := hdoc.stored
    rw [hid] at hstored
    exact congrArg Prod.snd
      (List.inj_on_of_nodup_map nodup hstored hotherDoc.stored rfl)
  have htypes : docType = otherType := by
    have hfirst := (selected_knowledge (visible_docType docType htype) hdoc.selected).1
    have hsecond :=
      (selected_knowledge (visible_docType otherType hotherType) hotherDoc.selected).1
    rw [← hfirst, ← hsecond, hsame]
  subst htypes
  obtain ⟨rfl, rfl⟩ := searched_unique hsearched hsearched'
  obtain ⟨copy, hcopy, hmade⟩ := hscored
  obtain ⟨otherCopy, hotherCopy, hotherMade⟩ := hscored'
  rw [hid] at hcopy hmade
  obtain rfl := Option.some.inj (hcopy.symm.trans hotherCopy)
  rw [hmade.trans hotherMade.symm]

/-- The values of the dictionary in the order of the answer. -/
theorem sorted_gathered {byId : Dict RetrieveHit} (gathered : Gathered byId) :
    ((byId.map Prod.snd).insertionSort fun a b => hitKey a ≤ hitKey b).Pairwise
      fun a b => hitKey a < hitKey b := by
  have total : Std.Total fun a b : RetrieveHit => hitKey a ≤ hitKey b :=
    ⟨fun a b => le_total _ _⟩
  have transitive : IsTrans RetrieveHit fun a b => hitKey a ≤ hitKey b := ⟨fun _ _ _ => le_trans⟩
  have hsorted := List.pairwise_insertionSort (fun a b => hitKey a ≤ hitKey b)
    (byId.map Prod.snd)
  have hids : (byId.map Prod.snd).map (fun hit => hit.citation.chunkId) = byId.map Prod.fst := by
    rw [List.map_map]
    exact List.map_congr_left fun entry hentry => (gathered.own entry hentry).symm
  have hnodup : (((byId.map Prod.snd).insertionSort fun a b => hitKey a ≤ hitKey b).map
      fun hit => hit.citation.chunkId).Nodup := by
    rw [((List.perm_insertionSort _ _).map _).nodup_iff, hids]
    exact gathered.nodup
  refine (hsorted.and (List.pairwise_map.mp hnodup)).imp fun {a b} h => ?_
  refine lt_of_le_of_ne h.1 fun heq => h.2 ?_
  exact (Prod.mk.inj (toLex_inj.mp heq)).2

theorem gathered_nil : Gathered [] := ⟨List.nodup_nil, fun _ h => absurd h List.not_mem_nil⟩

theorem executeRetrieve_missing (searches : Searches ports.search) {filters : RetrieveFilters}
    {topK : Int} {hits : List RetrieveHit} :
    executeRetrieve ports none query filters topK ≠ .ok hits := by
  intro h
  unfold executeRetrieve at h
  dsimp only at h
  split at h
  · cases h
  split at h
  · cases h
  obtain ⟨_, -, h⟩ := bind_ok h
  obtain ⟨_, hbm25, -⟩ := bind_ok h
  obtain ⟨payload, hpayload, -⟩ := bind_ok hbm25
  exact searches.missing _ payload hpayload

theorem retrieveRunbooks_ok {index : Option KnowledgeIndex} {shown : List RetrieveHit}
    (h : retrieveRunbooksAndIncidents ports repo index query service scenario = .ok shown) :
    ∃ byId, gatherHits ports repo index query service scenario knowledgeDocTypes [] = .ok byId ∧
      shown = ((byId.map Prod.snd).insertionSort fun a b => hitKey a ≤ hitKey b).take
        knowledgeCap := by
  unfold retrieveRunbooksAndIncidents at h
  cases hgather : gatherHits ports repo index query service scenario knowledgeDocTypes [] with
  | error raised =>
    rw [hgather] at h
    cases h
  | ok byId =>
    rw [hgather] at h
    exact ⟨byId, rfl, (Except.ok.inj h).symm⟩

/-- The retrieval for a document type, of an index of allowlisted documents: each hit it returns is
a candidate, and a hit of its searches that it does not return is worse than all of them. -/
theorem execute_candidates (searches : Searches ports.search)
    (nodup : (index.docs.map Prod.fst).Nodup)
    (made : ∀ entry ∈ index.docs, MadeFrom repo contents entry) {docType : String}
    (htype : docType ∈ knowledgeDocTypes) {hits : List RetrieveHit}
    (h : executeRetrieve ports (some index) query (knowledgeFilters service scenario docType)
      knowledgeCap = .ok hits) :
    (hits.map fun hit => hit.citation.chunkId).Nodup ∧
      (∀ hit ∈ hits, Candidate ports (some index) query service scenario hit ∧
        Returned ports repo (some index) query service scenario knowledgeDocTypes hit) ∧
      ∀ bm25 knn made, Searched ports (some index) query
          (knowledgeFilters service scenario docType) knowledgeCap bm25 knn →
        ScoredIn bm25 knn made → toRetrieveHit made ∈ hits ∨ (hits.length = knowledgeCap ∧
          ∀ other ∈ hits, hitKey other < hitKey (toRetrieveHit made)) := by
  obtain ⟨bm25, knn, hsearched, -, -, hretrieved⟩ :=
    retrieved_of_execute searches nodup (fun entry hentry => (made entry hentry).id) h
  refine ⟨hretrieved.nodup, fun hit hhit => ?_, fun bm25' knn' hit hsearched' hscored => ?_⟩
  · obtain ⟨found, hscored, hfound⟩ := hretrieved.scored hit hhit
    have hcandidate : Candidate ports (some index) query service scenario hit :=
      ⟨docType, htype, bm25, knn, found, hsearched, hscored, hfound⟩
    have hallowed := (candidate_quotes searches nodup made hcandidate).allowed
    refine ⟨hcandidate, decide_eq_true ?_, docType, htype, hits, h, hhit⟩
    rw [repo.plain _ hallowed]
    exact hallowed
  · obtain ⟨rfl, rfl⟩ := searched_unique hsearched hsearched'
    exact hretrieved.best hit hscored

/-- As many distinct hits as a list holds, all of them in it, are all that it holds. -/
theorem mem_of_full {shown hits : List RetrieveHit}
    (nodup : (hits.map fun hit => hit.citation.chunkId).Nodup) (sub : ∀ hit ∈ hits, hit ∈ shown)
    (full : shown.length ≤ hits.length) : ∀ hit ∈ shown, hit ∈ hits := by
  have hsubperm := (List.Nodup.of_map _ nodup).subperm fun hit hhit => sub hit hhit
  exact fun hit hhit => (hsubperm.perm_of_length_le full).mem_iff.mpr hhit

/-- What is shown of a stocked index. -/
theorem shown_of_stocked (searches : Searches ports.search)
    (nodup : (index.docs.map Prod.fst).Nodup)
    (made : ∀ entry ∈ index.docs, MadeFrom repo contents entry)
    {shown : List RetrieveHit}
    (h : retrieveRunbooksAndIncidents ports repo (some index) query service scenario = .ok shown) :
    shown.length ≤ knowledgeCap ∧ (shown.Pairwise fun a b => hitKey a < hitKey b) ∧
      (∀ hit ∈ shown, Quotes repo contents service scenario hit ∧
        Candidate ports (some index) query service scenario hit) ∧
      ∀ hit, Candidate ports (some index) query service scenario hit →
        hit ∈ shown ∨
          (shown.length = knowledgeCap ∧ ∀ other ∈ shown, hitKey other < hitKey hit) := by
  obtain ⟨byId, hgather, rfl⟩ := retrieveRunbooks_ok h
  obtain ⟨gathered, -, hran, hall, hfrom⟩ := gatherHits_ok gathered_nil hgather
  have hsorted := sorted_gathered gathered
  have hcandidate : ∀ entry ∈ byId,
      Candidate ports (some index) query service scenario entry.2 := by
    intro entry hentry
    obtain ⟨-, docType, htype, hits, hhits, hmem⟩ :=
      (hfrom entry hentry).resolve_left List.not_mem_nil
    exact ((execute_candidates searches nodup made htype hhits).2.1 entry.2 hmem).1
  have hmem : ∀ hit, hit ∈ (byId.map Prod.snd).insertionSort (fun a b => hitKey a ≤ hitKey b) ↔
      ∃ entry ∈ byId, entry.2 = hit := fun hit => by
    rw [List.mem_insertionSort, List.mem_map]
  generalize hlist : (byId.map Prod.snd).insertionSort (fun a b => hitKey a ≤ hitKey b) = sorted
    at hsorted hmem ⊢
  have hlength := List.length_take_le knowledgeCap sorted
  -- a hit of a retrieval is shown, or four better ones are
  have hreturned : ∀ hit, Candidate ports (some index) query service scenario hit →
      Returned ports repo (some index) query service scenario knowledgeDocTypes hit →
      hit ∈ sorted.take knowledgeCap ∨ ((sorted.take knowledgeCap).length = knowledgeCap ∧
        ∀ other ∈ sorted.take knowledgeCap, hitKey other < hitKey hit) := by
    intro hit hown hhit
    obtain ⟨entry, hentry, hid⟩ := hall hit hhit
    have hsame : entry.2 = hit := by
      refine candidate_unique searches nodup (fun entry hentry => (made entry hentry).id)
        (hcandidate entry hentry) hown ?_
      rw [← gathered.own entry hentry, hid]
    have hin := (hmem hit).mpr ⟨entry, hentry, hsame⟩
    rw [← List.take_append_drop knowledgeCap sorted] at hin hsorted
    rcases List.mem_append.mp hin with hshown | hleft
    · exact .inl hshown
    · obtain ⟨-, -, hacross⟩ := List.pairwise_append.mp hsorted
      refine .inr ⟨?_, fun other hother => hacross other hother hit hleft⟩
      have hlong := List.length_pos_of_mem hleft
      rw [List.length_drop] at hlong
      rw [List.length_take]
      omega
  refine ⟨hlength, hsorted.sublist (List.take_sublist _ _), fun hit hhit => ?_,
    fun hit hown => ?_⟩
  · obtain ⟨entry, hentry, rfl⟩ := (hmem hit).mp (List.mem_of_mem_take hhit)
    exact ⟨candidate_quotes searches nodup made (hcandidate entry hentry),
      hcandidate entry hentry⟩
  · obtain ⟨docType, htype, bm25, knn, found, hsearched, hscored, rfl⟩ := hown
    obtain ⟨hits, hhits⟩ := hran docType htype
    obtain ⟨hnodup, hof, hbest⟩ := execute_candidates searches nodup made htype hhits
    rcases hbest bm25 knn found hsearched hscored with hkept | ⟨hfull, hworse⟩
    · exact hreturned _ (hof _ hkept).1 (hof _ hkept).2
    · -- the hits of its own type that keep it out are themselves shown, or better ones are
      by_cases hshown : ∀ other ∈ hits, other ∈ sorted.take knowledgeCap
      · have hsub := mem_of_full hnodup hshown (hfull ▸ hlength)
        have hle := ((List.Nodup.of_map _ hnodup).subperm hshown).length_le
        exact .inr ⟨le_antisymm hlength (hfull ▸ hle), fun other hother =>
          hworse other (hsub other hother)⟩
      · push Not at hshown
        obtain ⟨other, hother, hnot⟩ := hshown
        obtain ⟨hlong, hbetter⟩ :=
          (hreturned other (hof other hother).1 (hof other hother).2).resolve_left hnot
        exact .inr ⟨hlong, fun hit hhit => (hbetter hit hhit).trans (hworse other hother)⟩

end Shown

section Runs

variable {ports : KnowledgePorts} {repo : Repository} {kb : KnowledgeBase}
  {path : List (CorpusAction × KnowledgeBase)} {params : Fields} {shown : List RetrieveHit}

/-- However the corpus has been ingested and edited, the tool shows at most four hits, best first,
that quote chunks of the runbooks and incident reports as they were; and a hit that a search has
found is left out only for four better ones. -/
theorem shown_knowledge_ingested (unused : Unused kb) (run : Path (CorpusStep repo) kb path)
    (searches : Searches ports.search)
    (returned : retrieveKnowledge ports repo (final kb path).index params = .ok shown) :
    ∃ asked, RetrieveKnowledgeParams.parse params = some asked ∧ shown.length ≤ knowledgeCap ∧
      (shown.Pairwise fun a b => hitKey a < hitKey b) ∧
      (∀ hit ∈ shown, Quotes repo (contentsIn (visited kb path)) asked.service asked.scenario hit ∧
        Candidate ports (final kb path).index asked.query asked.service asked.scenario hit) ∧
      ∀ hit, Candidate ports (final kb path).index asked.query asked.service asked.scenario hit →
        hit ∈ shown ∨
          (shown.length = knowledgeCap ∧ ∀ other ∈ shown, hitKey other < hitKey hit) := by
  unfold retrieveKnowledge at returned
  cases hparse : RetrieveKnowledgeParams.parse params with
  | none =>
    rw [hparse] at returned
    cases returned
  | some asked =>
    rw [hparse] at returned
    refine ⟨asked, rfl, ?_⟩
    cases hindex : (final kb path).index with
    | none =>
      rw [hindex] at returned
      obtain ⟨byId, hgather, -⟩ := retrieveRunbooks_ok returned
      obtain ⟨hits, hhits, -⟩ := bind_ok hgather
      exact absurd hhits (executeRetrieve_missing searches)
    | some index =>
      rw [hindex] at returned
      obtain ⟨hnodup, hmade⟩ := stocked_run unused run index hindex
      exact shown_of_stocked searches hnodup hmade returned

end Runs

section Example

/-- A search that finds what its filter selects, in the order of the index. -/
def scanSearch : Option KnowledgeIndex → SearchBody → Except Raised Fields
  | none, _ => .error (.other "OpenSearch POST /aegis-knowledge/_search failed: HTTP 404")
  | some index, body => .ok [("hits", .obj [("hits", .list (((index.docs.filter fun entry =>
      body.filter.all fun clause => clause.holds entry.2).take body.size).map fun entry =>
        searchItem (.int 1, entry)))])]

def scanPorts : KnowledgePorts where
  embedTexts texts := .ok (texts.map fun _ => [])
  search := scanSearch
  toFloat _ := 0

theorem scanSearch_searches : Searches scanSearch where
  missing _ _ h := by cases h
  found index body payload nodup h := by
    have hpayload := Except.ok.inj h
    generalize hlist : (index.docs.filter fun entry =>
      body.filter.all fun clause => clause.holds entry.2).take body.size = entries at hpayload
    have hmem : ∀ entry ∈ entries, entry ∈ index.docs ∧
        ∀ clause ∈ body.filter, clause.holds entry.2 = true := by
      intro entry hentry
      rw [← hlist] at hentry
      obtain ⟨hdocs, hall⟩ := List.mem_filter.mp (List.mem_of_mem_take hentry)
      exact ⟨hdocs, List.all_eq_true.mp hall⟩
    have hsublist : entries.Sublist index.docs := by
      rw [← hlist]
      exact (List.take_sublist _ _).trans List.filter_sublist
    refine ⟨entries.map fun entry => (.int 1, entry), ?_, ?_, ?_⟩
    · rw [← hpayload, List.map_map]
      rfl
    · rw [List.map_map]
      exact nodup.sublist (hsublist.map _)
    · intro hit hhit
      obtain ⟨entry, hentry, rfl⟩ := List.mem_map.mp hhit
      exact hmem entry hentry

def latencyPath : String := "docs/knowledge/runbooks/payment-latency-spike.md"

def latencyRunbook : ByteArray :=
  "---\ndoc_type: runbook\nservice: payment\n---\n# Latency\n\nCheck the pool.\n".toUTF8

def runbookBase : KnowledgeBase where
  files rel := if rel = latencyPath then some latencyRunbook else none
  index := none
  manifests _ := none

def runbookCall : IngestCall := ⟨some [latencyPath], false, none, calmAnswers⟩

def latencyParams : Fields := [("query", .str "latency"), ("service", .str "payment")]

def runbookRun : List (CorpusAction × KnowledgeBase) :=
  [(.ingest runbookCall, ingested runbookCall runbookBase)]

theorem latency_runbook_shown :
    ∃ shown asked, RetrieveKnowledgeParams.parse latencyParams = some asked ∧
      retrieveKnowledge scanPorts visionRepo (final runbookBase runbookRun).index latencyParams =
        .ok shown ∧ shown ≠ [] ∧ ∀ hit ∈ shown, Quotes visionRepo
          (contentsIn (visited runbookBase runbookRun)) asked.service asked.scenario hit := by
  have unused : Unused runbookBase := ⟨rfl, fun _ => rfl⟩
  have run : Path (CorpusStep visionRepo) runbookBase runbookRun :=
    .next (ingested_step runbookCall runbookBase) .stop
  have hcount : (retrieveKnowledge scanPorts visionRepo (final runbookBase runbookRun).index
      latencyParams).toOption.map List.length = some 1 := by decide +kernel
  obtain ⟨shown, hshown⟩ : ∃ shown, retrieveKnowledge scanPorts visionRepo
      (final runbookBase runbookRun).index latencyParams = .ok shown := by
    generalize retrieveKnowledge scanPorts visionRepo (final runbookBase runbookRun).index
      latencyParams = result at hcount
    cases result with
    | error raised => cases hcount
    | ok shown => exact ⟨shown, rfl⟩
  have hne : shown ≠ [] := by
    intro hnil
    rw [hshown, hnil] at hcount
    exact absurd (Option.some.inj hcount) Nat.zero_ne_one
  obtain ⟨asked, hasked, -, -, hquotes, -⟩ :=
    shown_knowledge_ingested unused run scanSearch_searches hshown
  exact ⟨shown, asked, hasked, hshown, hne, fun hit hhit => (hquotes hit hhit).1⟩

end Example

end Aegis
