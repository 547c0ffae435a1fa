import Aegis.Value
import Mathlib.Algebra.Order.Field.Rat
import Mathlib.Data.Prod.Lex
import Mathlib.Tactic.Linarith
import Mathlib.Tactic.Positivity

namespace Aegis

structure KnowledgeHit where
  chunkId : String
  text : String
  sourcePath : String
  section_ : String
  score : ℚ
  deriving DecidableEq

/-- `dict.setdefault(key, value)` -/
def Dict.setDefault {α : Type} (dict : Dict α) (key : String) (value : α) : Dict α :=
  if (dict.lookup key).isSome then dict else dict.set key value

/-- The two maps that `merge_hybrid_rankings` fills. -/
structure Fusion where
  byId : Dict KnowledgeHit
  scores : Dict ℚ

/-- `scores[id] = scores.get(id, 0.0) + weight / (rrf_k + rank)` -/
def addScore (weight : ℚ) (rrfK rank : ℕ) (scores : Dict ℚ) (id : String) : Dict ℚ :=
  scores.set id ((scores.lookup id).getD 0 + weight / (rrfK + rank))

/-- One pass over `enumerate(hits, start=rank)`. -/
def eachRanked (step : ℕ → Fusion → KnowledgeHit → Fusion) :
    ℕ → Fusion → List KnowledgeHit → Fusion
  | _, fusion, [] => fusion
  | rank, fusion, hit :: rest => eachRanked step (rank + 1) (step rank fusion hit) rest

def addBm25 (weight : ℚ) (rrfK rank : ℕ) (fusion : Fusion) (hit : KnowledgeHit) : Fusion where
  byId := fusion.byId.set hit.chunkId hit
  scores := addScore weight rrfK rank fusion.scores hit.chunkId

def addKnn (weight : ℚ) (rrfK rank : ℕ) (fusion : Fusion) (hit : KnowledgeHit) : Fusion where
  byId := fusion.byId.setDefault hit.chunkId hit
  scores := addScore weight rrfK rank fusion.scores hit.chunkId

/-- The maps after both passes. -/
def fusionOf (bm25 knn : List KnowledgeHit) (rrfK : ℕ) (bm25Weight knnWeight : ℚ) : Fusion :=
  eachRanked (addKnn knnWeight rrfK) 1 (eachRanked (addBm25 bm25Weight rrfK) 1 ⟨[], []⟩ bm25) knn

/-- The sort key `(-scores[id], id)`. -/
def fusionKey (scores : Dict ℚ) (id : String) : ℚ ×ₗ String :=
  toLex (-(scores.lookup id).getD 0, id)

/-- The hit of an id with its fused score; a missing key is the text of the `KeyError`. -/
def fusedHit (fusion : Fusion) (id : String) : Except String KnowledgeHit :=
  match fusion.byId.lookup id, fusion.scores.lookup id with
  | some hit, some score => .ok { hit with score }
  | _, _ => .error id

/-- `merge_hybrid_rankings` -/
def mergeHybridRankings (bm25 knn : List KnowledgeHit) (topK : ℤ) (rrfK : ℕ)
    (bm25Weight knnWeight : ℚ) : Except String (List KnowledgeHit) :=
  if topK < 1 then .error "top_k must be at least 1."
  else
    let fusion := fusionOf bm25 knn rrfK bm25Weight knnWeight
    let ordered := (fusion.scores.map Prod.fst).insertionSort
      fun a b => fusionKey fusion.scores a ≤ fusionKey fusion.scores b
    (ordered.take topK.toNat).mapM (fusedHit fusion)

/-- What a list adds to the score of an id: nothing, unless the id stands in it. -/
def share (weight : ℚ) (rrfK : ℕ) (hits : List KnowledgeHit) (id : String) : ℚ :=
  if id ∈ hits.map KnowledgeHit.chunkId then
    weight / (rrfK + ((hits.map KnowledgeHit.chunkId).idxOf id + 1 : ℕ))
  else 0

def fusedScore (bm25 knn : List KnowledgeHit) (rrfK : ℕ) (bm25Weight knnWeight : ℚ)
    (id : String) : ℚ :=
  share bm25Weight rrfK bm25 id + share knnWeight rrfK knn id

/-- The hit of an id, from `bm25` when both lists have one. -/
def bestCopy (bm25 knn : List KnowledgeHit) (id : String) : Option KnowledgeHit :=
  (bm25.find? fun hit => hit.chunkId = id).or (knn.find? fun hit => hit.chunkId = id)

/-- One id stands before another in a list, where an absent one counts as last. -/
def Precedes (hits : List KnowledgeHit) (a b : String) : Prop :=
  a ∈ hits.map KnowledgeHit.chunkId ∧ (b ∈ hits.map KnowledgeHit.chunkId →
    (hits.map KnowledgeHit.chunkId).idxOf a < (hits.map KnowledgeHit.chunkId).idxOf b)

/-- The ids of two lists by descending score, ties by id. -/
structure FusedRanking (bm25 knn : List KnowledgeHit) (rrfK : ℕ) (bm25Weight knnWeight : ℚ)
    (ranking : List String) : Prop where
  nodup : ranking.Nodup
  ids : ∀ id, id ∈ ranking ↔
    id ∈ bm25.map KnowledgeHit.chunkId ∨ id ∈ knn.map KnowledgeHit.chunkId
  sorted : ranking.Pairwise fun a b =>
    fusedScore bm25 knn rrfK bm25Weight knnWeight b <
        fusedScore bm25 knn rrfK bm25Weight knnWeight a ∨
      fusedScore bm25 knn rrfK bm25Weight knnWeight b =
        fusedScore bm25 knn rrfK bm25Weight knnWeight a ∧ a < b

section Passes

variable {step : ℕ → Fusion → KnowledgeHit → Fusion} {weight : ℚ} {rrfK rank : ℕ}
  {fusion : Fusion} {hits : List KnowledgeHit} {id : String}

theorem Dict.lookup_setDefault {α : Type} (dict : Dict α) (key other : String) (value : α) :
    (dict.setDefault key value).lookup other =
      (dict.lookup other).or (if other = key then some value else none) := by
  unfold Dict.setDefault
  split
  next hsome =>
    obtain ⟨found, hfound⟩ := Option.isSome_iff_exists.mp hsome
    by_cases h : other = key
    · rw [h, hfound, Option.some_or]
    · rw [if_neg h, Option.or_none]
  next hnone =>
    rw [Dict.lookup_set]
    by_cases h : other = key
    · rw [if_pos h, if_pos h, h, Option.not_isSome_iff_eq_none.mp hnone, Option.none_or]
    · rw [if_neg h, if_neg h, Option.or_none]

theorem lookup_addScore (scores : Dict ℚ) (id other : String) :
    (addScore weight rrfK rank scores id).lookup other =
      if other = id then some ((scores.lookup id).getD 0 + weight / (rrfK + rank))
      else scores.lookup other :=
  Dict.lookup_set _ _ _ _

/-- A pass adds to the score of every id of the list what its rank is worth. -/
theorem eachRanked_scores
    (adds : ∀ rank fusion hit,
      (step rank fusion hit).scores = addScore weight rrfK rank fusion.scores hit.chunkId)
    (nodup : (hits.map KnowledgeHit.chunkId).Nodup) (rank : ℕ) (fusion : Fusion) (id : String) :
    (eachRanked step rank fusion hits).scores.lookup id =
      if id ∈ hits.map KnowledgeHit.chunkId then
        some ((fusion.scores.lookup id).getD 0 +
          weight / (rrfK + ((hits.map KnowledgeHit.chunkId).idxOf id + rank : ℕ)))
      else fusion.scores.lookup id := by
  induction hits generalizing rank fusion with
  | nil => rfl
  | cons hit rest ih =>
    rw [List.map_cons] at nodup ⊢
    obtain ⟨hfresh, hrest⟩ := List.nodup_cons.mp nodup
    rw [eachRanked, ih hrest, adds, lookup_addScore]
    by_cases hown : id = hit.chunkId
    · subst hown
      rw [if_neg hfresh, if_pos rfl, if_pos List.mem_cons_self, List.idxOf_cons_self, Nat.zero_add]
    · rw [if_neg hown, List.idxOf_cons_ne _ (Ne.symm hown)]
      by_cases hmem : id ∈ rest.map KnowledgeHit.chunkId
      · rw [if_pos hmem, if_pos (List.mem_cons_of_mem _ hmem), Nat.succ_add_eq_add_succ]
      · rw [if_neg hmem, if_neg (by simp [hown, hmem])]

theorem eachRanked_keys
    (adds : ∀ rank fusion hit,
      (step rank fusion hit).scores = addScore weight rrfK rank fusion.scores hit.chunkId)
    (rank : ℕ) (fusion : Fusion) (keys : (fusion.scores.map Prod.fst).Nodup) :
    ((eachRanked step rank fusion hits).scores.map Prod.fst).Nodup := by
  induction hits generalizing rank fusion with
  | nil => exact keys
  | cons hit rest ih =>
    refine ih (rank + 1) _ ?_
    rw [adds]
    exact Dict.keys_set_nodup keys

theorem eachRanked_bm25 (nodup : (hits.map KnowledgeHit.chunkId).Nodup) (rank : ℕ)
    (fusion : Fusion) (id : String) :
    (eachRanked (addBm25 weight rrfK) rank fusion hits).byId.lookup id =
      (hits.find? fun hit => hit.chunkId = id).or (fusion.byId.lookup id) := by
  induction hits generalizing rank fusion with
  | nil => rfl
  | cons hit rest ih =>
    rw [List.map_cons] at nodup
    obtain ⟨hfresh, hrest⟩ := List.nodup_cons.mp nodup
    rw [eachRanked, ih hrest, List.find?_cons]
    change (rest.find? fun hit => hit.chunkId = id).or
      ((fusion.byId.set hit.chunkId hit).lookup id) = _
    rw [Dict.lookup_set]
    by_cases hown : hit.chunkId = id
    · have hnone : (rest.find? fun hit => hit.chunkId = id) = none := by
        refine List.find?_eq_none.mpr fun other hother hsame => hfresh ?_
        rw [hown, ← of_decide_eq_true hsame]
        exact List.mem_map_of_mem hother
      rw [hnone, if_pos hown.symm, decide_eq_true hown, Option.none_or, Option.some_or]
    · rw [if_neg (Ne.symm hown), decide_eq_false hown]

theorem eachRanked_knn (rank : ℕ) (fusion : Fusion) (id : String) :
    (eachRanked (addKnn weight rrfK) rank fusion hits).byId.lookup id =
      (fusion.byId.lookup id).or (hits.find? fun hit => hit.chunkId = id) := by
  induction hits generalizing rank fusion with
  | nil => exact Option.or_none.symm
  | cons hit rest ih =>
    rw [eachRanked, ih, List.find?_cons]
    change ((fusion.byId.setDefault hit.chunkId hit).lookup id).or _ = _
    rw [Dict.lookup_setDefault, Option.or_assoc]
    by_cases hown : hit.chunkId = id
    · rw [if_pos hown.symm, decide_eq_true hown, Option.some_or]
    · rw [if_neg (Ne.symm hown), decide_eq_false hown, Option.none_or]

end Passes

section Merge

variable {bm25 knn hits : List KnowledgeHit} {rrfK : ℕ} {bm25Weight knnWeight weight : ℚ}
  {ranking : List String} {a b id : String}

theorem fusionOf_scores (hbm25 : (bm25.map KnowledgeHit.chunkId).Nodup)
    (hknn : (knn.map KnowledgeHit.chunkId).Nodup) (id : String) :
    (fusionOf bm25 knn rrfK bm25Weight knnWeight).scores.lookup id =
      if id ∈ bm25.map KnowledgeHit.chunkId ∨ id ∈ knn.map KnowledgeHit.chunkId then
        some (fusedScore bm25 knn rrfK bm25Weight knnWeight id)
      else none := by
  unfold fusionOf fusedScore share
  rw [@eachRanked_scores _ knnWeight rrfK knn (fun _ _ _ => rfl) hknn,
    @eachRanked_scores _ bm25Weight rrfK bm25 (fun _ _ _ => rfl) hbm25]
  by_cases hfirst : id ∈ bm25.map KnowledgeHit.chunkId
  · by_cases hsecond : id ∈ knn.map KnowledgeHit.chunkId
    · simp [hfirst, hsecond]
    · simp [hfirst, hsecond]
  · by_cases hsecond : id ∈ knn.map KnowledgeHit.chunkId
    · simp [hfirst, hsecond]
    · simp [hfirst, hsecond]

theorem fusionOf_byId (hbm25 : (bm25.map KnowledgeHit.chunkId).Nodup) (id : String) :
    (fusionOf bm25 knn rrfK bm25Weight knnWeight).byId.lookup id = bestCopy bm25 knn id := by
  unfold fusionOf bestCopy
  rw [eachRanked_knn, eachRanked_bm25 hbm25, List.lookup_nil, Option.or_none]

theorem fusionOf_keys :
    ((fusionOf bm25 knn rrfK bm25Weight knnWeight).scores.map Prod.fst).Nodup :=
  eachRanked_keys (fun _ _ _ => rfl) _ _
    (eachRanked_keys (fun _ _ _ => rfl) _ _ List.nodup_nil)

/-- The ids as `merge_hybrid_rankings` orders them. -/
def fusedOrder (fusion : Fusion) : List String :=
  (fusion.scores.map Prod.fst).insertionSort
    fun a b => fusionKey fusion.scores a ≤ fusionKey fusion.scores b

theorem fusionKey_injective (scores : Dict ℚ) : Function.Injective (fusionKey scores) :=
  fun _ _ h => (Prod.mk.inj (toLex_inj.mp h)).2

theorem fusedOrder_pairwise (fusion : Fusion) (keys : (fusion.scores.map Prod.fst).Nodup) :
    (fusedOrder fusion).Pairwise fun a b =>
      fusionKey fusion.scores a < fusionKey fusion.scores b := by
  have total : Std.Total fun a b => fusionKey fusion.scores a ≤ fusionKey fusion.scores b :=
    ⟨fun a b => le_total _ _⟩
  have transitive : IsTrans String fun a b =>
      fusionKey fusion.scores a ≤ fusionKey fusion.scores b := ⟨fun _ _ _ => le_trans⟩
  have hsorted := List.pairwise_insertionSort
    (fun a b => fusionKey fusion.scores a ≤ fusionKey fusion.scores b)
    (fusion.scores.map Prod.fst)
  have hnodup : (fusedOrder fusion).Nodup :=
    (List.perm_insertionSort _ _).nodup_iff.mpr keys
  refine (hsorted.and hnodup).imp fun {a b} h => lt_of_le_of_ne h.1 fun heq => ?_
  exact h.2 (fusionKey_injective _ heq)

theorem fusedOrder_ranking (hbm25 : (bm25.map KnowledgeHit.chunkId).Nodup)
    (hknn : (knn.map KnowledgeHit.chunkId).Nodup) :
    FusedRanking bm25 knn rrfK bm25Weight knnWeight
      (fusedOrder (fusionOf bm25 knn rrfK bm25Weight knnWeight)) := by
  have keys := @fusionOf_keys bm25 knn rrfK bm25Weight knnWeight
  have scores := @fusionOf_scores bm25 knn rrfK bm25Weight knnWeight hbm25 hknn
  have ids : ∀ id, id ∈ fusedOrder (fusionOf bm25 knn rrfK bm25Weight knnWeight) ↔
      id ∈ bm25.map KnowledgeHit.chunkId ∨ id ∈ knn.map KnowledgeHit.chunkId := by
    intro id
    rw [fusedOrder, List.mem_insertionSort, ← Dict.lookup_isSome, scores]
    split
    next hmem => exact ⟨fun _ => hmem, fun _ => rfl⟩
    next hmem => exact ⟨fun hnone => absurd hnone (by simp), fun h => absurd h hmem⟩
  refine ⟨(List.perm_insertionSort _ _).nodup_iff.mpr keys, ids, ?_⟩
  refine (fusedOrder_pairwise _ keys).imp_of_mem fun {a b} ha hb h => ?_
  have hscore : ∀ id ∈ fusedOrder (fusionOf bm25 knn rrfK bm25Weight knnWeight),
      fusionKey (fusionOf bm25 knn rrfK bm25Weight knnWeight).scores id =
        toLex (-fusedScore bm25 knn rrfK bm25Weight knnWeight id, id) := by
    intro id hid
    rw [fusionKey, scores, if_pos ((ids id).mp hid), Option.getD_some]
  rw [hscore a ha, hscore b hb, Prod.Lex.toLex_lt_toLex] at h
  rcases h with h | ⟨heq, hlt⟩
  · exact .inl (neg_lt_neg_iff.mp h)
  · exact .inr ⟨(neg_inj.mp heq).symm, hlt⟩

theorem bestCopy_of_mem
    (h : id ∈ bm25.map KnowledgeHit.chunkId ∨ id ∈ knn.map KnowledgeHit.chunkId) :
    ∃ hit, bestCopy bm25 knn id = some hit ∧ hit.chunkId = id := by
  have found : ∀ hits : List KnowledgeHit, id ∈ hits.map KnowledgeHit.chunkId →
      ∃ hit, (hits.find? fun hit => hit.chunkId = id) = some hit ∧ hit.chunkId = id := by
    intro hits hmem
    obtain ⟨hit, hhit, hid⟩ := List.mem_map.mp hmem
    have hsome : (hits.find? fun hit => hit.chunkId = id).isSome = true :=
      List.find?_isSome.mpr ⟨hit, hhit, decide_eq_true hid⟩
    obtain ⟨other, hother⟩ := Option.isSome_iff_exists.mp hsome
    have hid := List.find?_some hother
    exact ⟨other, hother, of_decide_eq_true hid⟩
  unfold bestCopy
  by_cases hfirst : id ∈ bm25.map KnowledgeHit.chunkId
  · obtain ⟨hit, hhit, hid⟩ := found bm25 hfirst
    exact ⟨hit, by rw [hhit, Option.some_or], hid⟩
  · obtain ⟨hit, hhit, hid⟩ := found knn (h.resolve_left hfirst)
    have hnone : (bm25.find? fun hit => hit.chunkId = id) = none := by
      refine List.find?_eq_none.mpr fun other hother hsame => hfirst ?_
      rw [← of_decide_eq_true hsame]
      exact List.mem_map_of_mem hother
    exact ⟨hit, by rw [hnone, Option.none_or, hhit], hid⟩

/-- Ids that both maps hold are made into hits one by one. -/
theorem mapM_fusedHit {fusion : Fusion} {ids : List String} {copy : String → Option KnowledgeHit}
    {score : String → ℚ} (byId : ∀ id ∈ ids, fusion.byId.lookup id = copy id)
    (scores : ∀ id ∈ ids, fusion.scores.lookup id = some (score id))
    (known : ∀ id ∈ ids, ∃ hit, copy id = some hit ∧ hit.chunkId = id) :
    ∃ fused, ids.mapM (fusedHit fusion) = .ok fused ∧ fused.map KnowledgeHit.chunkId = ids ∧
      ∀ hit ∈ fused, ∃ found, copy hit.chunkId = some found ∧
        hit = { found with score := score hit.chunkId } := by
  induction ids with
  | nil => exact ⟨[], rfl, rfl, by simp⟩
  | cons id ids ih =>
    obtain ⟨hbyId, hbyIds⟩ := List.forall_mem_cons.mp byId
    obtain ⟨hscore, hscores⟩ := List.forall_mem_cons.mp scores
    obtain ⟨⟨hit, hhit, hid⟩, hknown⟩ := List.forall_mem_cons.mp known
    obtain ⟨fused, hfused, hids, hcopies⟩ := ih hbyIds hscores hknown
    have hone : fusedHit fusion id = .ok { hit with score := score id } := by
      rw [fusedHit, hbyId, hscore, hhit]
    refine ⟨{ hit with score := score id } :: fused, ?_, ?_, ?_⟩
    · rw [List.mapM_cons, hone, hfused]
      rfl
    · rw [List.map_cons, hids, hid]
    · refine List.forall_mem_cons.mpr ⟨⟨hit, ?_, ?_⟩, hcopies⟩
      · rw [← hid] at hhit
        exact hhit
      · rw [hid]

theorem share_lt (positive : 0 < weight) (h : Precedes hits a b) :
    share weight rrfK hits b < share weight rrfK hits a := by
  obtain ⟨ha, hbefore⟩ := h
  unfold share
  rw [if_pos ha]
  by_cases hb : b ∈ hits.map KnowledgeHit.chunkId
  · rw [if_pos hb]
    have hlt := hbefore hb
    refine div_lt_div_of_pos_left positive (by positivity) ?_
    have : ((hits.map KnowledgeHit.chunkId).idxOf a : ℚ) <
        (hits.map KnowledgeHit.chunkId).idxOf b := by exact_mod_cast hlt
    push_cast
    linarith
  · rw [if_neg hb]
    positivity

theorem FusedRanking.dominates (h : FusedRanking bm25 knn rrfK bm25Weight knnWeight ranking)
    (hbm25 : 0 < bm25Weight) (hknn : 0 < knnWeight) (first : Precedes bm25 a b)
    (second : Precedes knn a b) (mem : b ∈ ranking) : ranking.idxOf a < ranking.idxOf b := by
  have hscore : fusedScore bm25 knn rrfK bm25Weight knnWeight b <
      fusedScore bm25 knn rrfK bm25Weight knnWeight a :=
    add_lt_add (share_lt hbm25 first) (share_lt hknn second)
  have hmem : a ∈ ranking := (h.ids a).mpr (.inl first.1)
  by_contra hnot
  rcases Nat.lt_or_eq_of_le (not_lt.mp hnot) with hlt | heq
  · have := List.pairwise_iff_getElem.mp h.sorted _ _ (List.idxOf_lt_length_of_mem mem)
      (List.idxOf_lt_length_of_mem hmem) hlt
    rw [List.getElem_idxOf, List.getElem_idxOf] at this
    rcases this with hless | ⟨hsame, _⟩
    · exact absurd hless (not_lt.mpr hscore.le)
    · exact absurd hsame hscore.ne'
  · rw [(List.idxOf_inj mem).mp heq] at hscore
    exact lt_irrefl _ hscore

/-- What `merge_hybrid_rankings` makes of two lists that name an id once each. -/
theorem merge_ok (hbm25 : (bm25.map KnowledgeHit.chunkId).Nodup)
    (hknn : (knn.map KnowledgeHit.chunkId).Nodup) {topK : ℤ} (hk : 1 ≤ topK) :
    ∃ fused, mergeHybridRankings bm25 knn topK rrfK bm25Weight knnWeight = .ok fused ∧
      fused.map KnowledgeHit.chunkId =
        (fusedOrder (fusionOf bm25 knn rrfK bm25Weight knnWeight)).take topK.toNat ∧
      ∀ hit ∈ fused, ∃ copy, bestCopy bm25 knn hit.chunkId = some copy ∧
        hit = { copy with score := fusedScore bm25 knn rrfK bm25Weight knnWeight hit.chunkId } := by
  have hranking := @fusedOrder_ranking bm25 knn rrfK bm25Weight knnWeight hbm25 hknn
  have hids : ∀ id ∈ (fusedOrder (fusionOf bm25 knn rrfK bm25Weight knnWeight)).take topK.toNat,
      id ∈ bm25.map KnowledgeHit.chunkId ∨ id ∈ knn.map KnowledgeHit.chunkId :=
    fun id hid => (hranking.ids id).mp (List.mem_of_mem_take hid)
  obtain ⟨fused, hfused, hsame, hcopies⟩ := mapM_fusedHit
    (fun id _ => @fusionOf_byId bm25 knn rrfK bm25Weight knnWeight hbm25 id)
    (fun id hid => by rw [fusionOf_scores hbm25 hknn, if_pos (hids id hid)])
    (fun id hid => bestCopy_of_mem (hids id hid))
  refine ⟨fused, ?_, hsame, hcopies⟩
  rw [mergeHybridRankings, if_neg (not_lt.mpr hk)]
  exact hfused

/-- An id of one of the lists that is cut off comes after all that are kept. -/
theorem merge_cut (hbm25 : (bm25.map KnowledgeHit.chunkId).Nodup)
    (hknn : (knn.map KnowledgeHit.chunkId).Nodup) {topK : ℤ} (hk : 1 ≤ topK)
    {fused : List KnowledgeHit}
    (h : mergeHybridRankings bm25 knn topK rrfK bm25Weight knnWeight = .ok fused)
    (mem : id ∈ bm25.map KnowledgeHit.chunkId ∨ id ∈ knn.map KnowledgeHit.chunkId) :
    id ∈ fused.map KnowledgeHit.chunkId ∨ (fused.length = topK.toNat ∧ ∀ hit ∈ fused,
      (toLex (-hit.score, hit.chunkId) : ℚ ×ₗ String) <
        toLex (-fusedScore bm25 knn rrfK bm25Weight knnWeight id, id)) := by
  obtain ⟨made, hmade, hids, hcopies⟩ :=
    @merge_ok bm25 knn rrfK bm25Weight knnWeight hbm25 hknn _ hk
  obtain rfl := Except.ok.inj (hmade.symm.trans h)
  have hranking := @fusedOrder_ranking bm25 knn rrfK bm25Weight knnWeight hbm25 hknn
  have hmem := (hranking.ids id).mpr mem
  have hsorted := hranking.sorted
  rw [hids]
  rw [← List.take_append_drop topK.toNat
    (fusedOrder (fusionOf bm25 knn rrfK bm25Weight knnWeight))] at hmem hsorted
  rcases List.mem_append.mp hmem with hkept | hleft
  · exact .inl hkept
  · refine .inr ⟨?_, fun hit hhit => ?_⟩
    · have hlong := List.length_pos_of_mem hleft
      rw [List.length_drop] at hlong
      rw [← List.length_map KnowledgeHit.chunkId, hids, List.length_take]
      omega
    · have htaken : hit.chunkId ∈ (fusedOrder
          (fusionOf bm25 knn rrfK bm25Weight knnWeight)).take topK.toNat :=
        hids ▸ List.mem_map_of_mem hhit
      obtain ⟨copy, -, hscored⟩ := hcopies hit hhit
      have hscore : hit.score = fusedScore bm25 knn rrfK bm25Weight knnWeight hit.chunkId :=
        congrArg KnowledgeHit.score hscored
      rw [Prod.Lex.toLex_lt_toLex, hscore]
      rcases (List.pairwise_append.mp hsorted).2.2 _ htaken _ hleft with hless | ⟨hsame, hbefore⟩
      · exact .inl (neg_lt_neg hless)
      · exact .inr ⟨congrArg Neg.neg hsame.symm, hbefore⟩

/-- `merge_hybrid_rankings` returns the beginning of the ranking by the sum of the shares. -/
theorem merge_ranks_by_sum (hbm25 : (bm25.map KnowledgeHit.chunkId).Nodup)
    (hknn : (knn.map KnowledgeHit.chunkId).Nodup) {topK : ℤ} (hk : 1 ≤ topK)
    (bm25_pos : 0 < bm25Weight) (knn_pos : 0 < knnWeight) :
    ∃ ranking fused, FusedRanking bm25 knn rrfK bm25Weight knnWeight ranking ∧
      mergeHybridRankings bm25 knn topK rrfK bm25Weight knnWeight = .ok fused ∧
      fused.map KnowledgeHit.chunkId = ranking.take topK.toNat ∧
      (∀ hit ∈ fused, ∃ copy, bestCopy bm25 knn hit.chunkId = some copy ∧
        hit = { copy with score := fusedScore bm25 knn rrfK bm25Weight knnWeight hit.chunkId }) ∧
      ∀ a b, Precedes bm25 a b → Precedes knn a b → b ∈ ranking →
        ranking.idxOf a < ranking.idxOf b := by
  have hranking := @fusedOrder_ranking bm25 knn rrfK bm25Weight knnWeight hbm25 hknn
  obtain ⟨fused, hfused, hids, hcopies⟩ := merge_ok hbm25 hknn hk
  exact ⟨_, fused, hranking, hfused, hids, hcopies,
    fun a b first second mem => hranking.dominates bm25_pos knn_pos first second mem⟩

/-- A hit whose text and path follow from its id. -/
def hybridHit (chunkId : String) (score : ℚ) : KnowledgeHit :=
  ⟨chunkId, "body of " ++ chunkId, "docs/" ++ chunkId ++ ".md", "Context", score⟩

theorem merge_ranks_two_lists :
    ∃ ranking fused, FusedRanking [hybridHit "a" 10, hybridHit "b" 8, hybridHit "c" 2]
        [hybridHit "c" 1, hybridHit "a" (4 / 5), hybridHit "d" (7 / 10)] 60 (7 / 10) (3 / 10)
        ranking ∧
      mergeHybridRankings [hybridHit "a" 10, hybridHit "b" 8, hybridHit "c" 2]
        [hybridHit "c" 1, hybridHit "a" (4 / 5), hybridHit "d" (7 / 10)] 3 60 (7 / 10) (3 / 10) =
        .ok fused ∧ fused.map KnowledgeHit.chunkId = ranking.take 3 := by
  obtain ⟨ranking, fused, hranking, hfused, hids, _⟩ := @merge_ranks_by_sum
    [hybridHit "a" 10, hybridHit "b" 8, hybridHit "c" 2]
    [hybridHit "c" 1, hybridHit "a" (4 / 5), hybridHit "d" (7 / 10)] 60 (7 / 10) (3 / 10)
    (by decide) (by decide) 3 (by decide) (by norm_num) (by norm_num)
  exact ⟨ranking, fused, hranking, hfused, hids⟩

end Merge

end Aegis
