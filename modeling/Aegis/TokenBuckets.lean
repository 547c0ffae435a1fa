import Aegis.Metering
import Aegis.RateLimit
import Mathlib.Tactic.Linarith
import Mathlib.Tactic.FieldSimp
import Mathlib.Tactic.Ring

namespace Aegis

/-- One call of `RateLimiter.allow`, with the reading of the clock it is answered at. -/
structure TimedCall where
  moment : ℚ
  agentId : String
  toolName : String
  incidentId : String
  deriving DecidableEq

/-- A call with the answer it got. -/
structure Answered where
  call : TimedCall
  decision : RateLimitDecision
  deriving DecidableEq

/-- `incident_key` -/
def TimedCall.incidentKey (call : TimedCall) : String :=
  "incident:" ++ call.agentId ++ ":" ++ call.toolName ++ ":" ++ call.incidentId

/-- `agent_key` -/
def agentKey (agentId : String) : String := "agent:" ++ agentId

/-- One call on the buckets: its answer and the buckets after it. -/
def ToolRateLimits.answer (limits : ToolRateLimits) (buckets : Dict Bucket) (call : TimedCall) :
    RateLimitDecision × Dict Bucket :=
  let limiter : RateLimiter MemoryTokenBucket := ⟨limits, memoryCounter⟩
  let answered := limiter.allow call.agentId call.toolName call.incidentId
    ⟨buckets, fun _ => call.moment⟩
  (answered.1, answered.2.buckets)

/-- Calls one after the other, from the given buckets on. -/
def ToolRateLimits.serve (limits : ToolRateLimits) : Dict Bucket → List TimedCall → List Answered
  | _, [] => []
  | buckets, call :: rest =>
    ⟨call, (limits.answer buckets call).1⟩ :: limits.serve (limits.answer buckets call).2 rest

/-- The capacity of a bucket is one token at least, and the window is not empty. -/
structure ToolRateLimits.Usable (limits : ToolRateLimits) : Prop where
  perToolIncident : 1 ≤ limits.perToolIncident
  perAgent : 1 ≤ limits.perAgent
  window : 0 < limits.windowSeconds

theorem agentKey_inj {a b : String} (h : agentKey a = agentKey b) : a = b := by
  have h := congrArg String.toList h
  rw [agentKey, agentKey, String.toList_append, String.toList_append] at h
  exact String.toList_injective (List.append_cancel_left h)

theorem incidentKey_ne_agentKey (call : TimedCall) (agentId : String) :
    call.incidentKey ≠ agentKey agentId := by
  intro h
  have h := congrArg String.toList h
  simp only [TimedCall.incidentKey, agentKey, String.toList_append] at h
  cases h

section Answer

variable {limits : ToolRateLimits} {buckets : Dict Bucket} {call : TimedCall} {key : String}

/-- The tokens of the bucket that the incident of a call draws on. -/
def ToolRateLimits.incidentTokens (limits : ToolRateLimits) (buckets : Dict Bucket)
    (call : TimedCall) : ℚ :=
  availableTokens buckets call.incidentKey limits.perToolIncident limits.windowSeconds call.moment

/-- The tokens of the bucket that the agent of a call draws on. -/
def ToolRateLimits.agentTokens (limits : ToolRateLimits) (buckets : Dict Bucket)
    (call : TimedCall) : ℚ :=
  availableTokens buckets (agentKey call.agentId) limits.perAgent limits.windowSeconds call.moment

/-- The buckets after a call that was granted. -/
def ToolRateLimits.charged (limits : ToolRateLimits) (buckets : Dict Bucket) (call : TimedCall) :
    Dict Bucket :=
  (buckets.set call.incidentKey ⟨limits.incidentTokens buckets call - 1, call.moment⟩).set
    (agentKey call.agentId) ⟨limits.agentTokens buckets call - 1, call.moment⟩

/-- A call takes one token of each of its two buckets, or nothing when either is short of one. -/
theorem charge_cases (limits : ToolRateLimits) (buckets : Dict Bucket) (call : TimedCall) :
    (limits.Usable ∧ 1 ≤ limits.incidentTokens buckets call ∧
      1 ≤ limits.agentTokens buckets call ∧
      limits.answer buckets call = (⟨true, "allowed:rate"⟩, limits.charged buckets call)) ∨
    (¬(limits.Usable ∧ 1 ≤ limits.incidentTokens buckets call ∧
        1 ≤ limits.agentTokens buckets call) ∧
      limits.answer buckets call = (⟨false, "denied:rate_limited"⟩, buckets)) := by
  have acquired : acquireAll buckets call.moment
      [(call.incidentKey, limits.perToolIncident, limits.windowSeconds),
        (agentKey call.agentId, limits.perAgent, limits.windowSeconds)] =
      if limits.perToolIncident < 1 ∨ limits.windowSeconds ≤ 0 then none
      else if limits.incidentTokens buckets call < 1 then none
      else if limits.perAgent < 1 ∨ limits.windowSeconds ≤ 0 then none
      else if limits.agentTokens buckets call < 1 then none
      else some [(call.incidentKey, ⟨limits.incidentTokens buckets call - 1, call.moment⟩),
        (agentKey call.agentId, ⟨limits.agentTokens buckets call - 1, call.moment⟩)] := by
    rw [acquireAll, acquireAll, acquireAll]
    change (if limits.perToolIncident < 1 ∨ limits.windowSeconds ≤ 0 then none
      else if limits.incidentTokens buckets call < 1 then none
      else (if limits.perAgent < 1 ∨ limits.windowSeconds ≤ 0 then none
        else if limits.agentTokens buckets call < 1 then none
        else _).map _) = _
    by_cases hagent : limits.perAgent < 1 ∨ limits.windowSeconds ≤ 0
    · rw [if_pos hagent, if_pos hagent]
      rfl
    by_cases ha : limits.agentTokens buckets call < 1
    · rw [if_neg hagent, if_neg hagent, if_pos ha, if_pos ha]
      rfl
    · rw [if_neg hagent, if_neg hagent, if_neg ha, if_neg ha]
      rfl
  have answered : limits.answer buckets call =
      (acquireAll buckets call.moment
        [(call.incidentKey, limits.perToolIncident, limits.windowSeconds),
          (agentKey call.agentId, limits.perAgent, limits.windowSeconds)]).elim
        (⟨false, "denied:rate_limited"⟩, buckets) fun next => (⟨true, "allowed:rate"⟩,
          next.foldl (fun dict entry => dict.set entry.1 entry.2) buckets) := by
    unfold ToolRateLimits.answer RateLimiter.allow memoryCounter
    dsimp only [TimedCall.incidentKey, agentKey]
    cases acquireAll buckets call.moment _ with
    | none => rfl
    | some next => rfl
  rw [answered, acquired]
  by_cases hincident : limits.perToolIncident < 1 ∨ limits.windowSeconds ≤ 0
  · refine .inr ⟨fun h => ?_, by rw [if_pos hincident, Option.elim_none]⟩
    rcases hincident with hcapacity | hwindow
    · exact absurd h.1.perToolIncident (not_le.mpr hcapacity)
    · exact absurd h.1.window (not_lt.mpr hwindow)
  rw [if_neg hincident]
  by_cases hi : limits.incidentTokens buckets call < 1
  · exact .inr ⟨fun h => absurd h.2.1 (not_le.mpr hi), by rw [if_pos hi, Option.elim_none]⟩
  rw [if_neg hi]
  by_cases hagent : limits.perAgent < 1 ∨ limits.windowSeconds ≤ 0
  · refine .inr ⟨fun h => ?_, by rw [if_pos hagent, Option.elim_none]⟩
    rcases hagent with hcapacity | hwindow
    · exact absurd h.1.perAgent (not_le.mpr hcapacity)
    · exact absurd h.1.window (not_lt.mpr hwindow)
  rw [if_neg hagent]
  by_cases ha : limits.agentTokens buckets call < 1
  · exact .inr ⟨fun h => absurd h.2.2 (not_le.mpr ha), by rw [if_pos ha, Option.elim_none]⟩
  rw [if_neg ha]
  obtain ⟨hcapacity, hwindow⟩ := not_or.mp hincident
  exact .inl ⟨⟨not_lt.mp hcapacity, not_lt.mp (not_or.mp hagent).1, not_le.mp hwindow⟩,
    not_lt.mp hi, not_lt.mp ha, rfl⟩

theorem answer_denied (h : (limits.answer buckets call).1.allowed = false) :
    limits.answer buckets call = (⟨false, "denied:rate_limited"⟩, buckets) := by
  rcases charge_cases limits buckets call with ⟨_, _, _, heq⟩ | ⟨_, heq⟩
  · rw [heq] at h
    cases h
  · exact heq

theorem answer_allowed (h : (limits.answer buckets call).1.allowed = true) :
    1 ≤ limits.incidentTokens buckets call ∧ 1 ≤ limits.agentTokens buckets call ∧
      (limits.answer buckets call).2 = limits.charged buckets call := by
  rcases charge_cases limits buckets call with ⟨_, hi, ha, heq⟩ | ⟨_, heq⟩
  · exact ⟨hi, ha, by rw [heq]⟩
  · rw [heq] at h
    cases h

theorem charged_lookup (limits : ToolRateLimits) (buckets : Dict Bucket) (call : TimedCall)
    (key : String) :
    (limits.charged buckets call).lookup key =
      if key = agentKey call.agentId then
        some ⟨limits.agentTokens buckets call - 1, call.moment⟩
      else if key = call.incidentKey then
        some ⟨limits.incidentTokens buckets call - 1, call.moment⟩
      else buckets.lookup key := by
  rw [ToolRateLimits.charged, Dict.lookup_set, Dict.lookup_set]

end Answer

section Meter

variable {limits : ToolRateLimits} {buckets : Dict Bucket} {key : String} {capacity : Int}

/-- No bucket owes a token. -/
def Solvent (buckets : Dict Bucket) : Prop :=
  ∀ key bucket, buckets.lookup key = some bucket → 0 ≤ bucket.tokens

/-- The capacity is the one that every call draws on the key with. -/
structure ToolRateLimits.Capacity (limits : ToolRateLimits) (key : String) (capacity : Int) :
    Prop where
  ofIncident : ∀ call : TimedCall, call.incidentKey = key → limits.perToolIncident = capacity
  ofAgent : ∀ agentId, agentKey agentId = key → limits.perAgent = capacity

theorem incident_capacity (limits : ToolRateLimits) (call : TimedCall) :
    limits.Capacity call.incidentKey limits.perToolIncident where
  ofIncident _ _ := rfl
  ofAgent agentId h := absurd h.symm (incidentKey_ne_agentKey call agentId)

theorem agent_capacity (limits : ToolRateLimits) (agentId : String) :
    limits.Capacity (agentKey agentId) limits.perAgent where
  ofIncident call h := absurd h (incidentKey_ne_agentKey call agentId)
  ofAgent _ _ := rfl

theorem answer_solvent (call : TimedCall) (h : Solvent buckets) :
    Solvent (limits.answer buckets call).2 := by
  rcases charge_cases limits buckets call with ⟨_, hi, ha, heq⟩ | ⟨_, heq⟩
  · rw [heq]
    intro key bucket hlookup
    rw [charged_lookup] at hlookup
    split at hlookup
    · rw [← Option.some.inj hlookup]
      exact sub_nonneg.mpr ha
    · split at hlookup
      · rw [← Option.some.inj hlookup]
        exact sub_nonneg.mpr hi
      · exact h key bucket hlookup
  · rw [heq]
    exact h

theorem availableTokens_le (buckets : Dict Bucket) (key : String) (capacity : Int)
    (window moment : ℚ) : availableTokens buckets key capacity window moment ≤ capacity := by
  unfold availableTokens
  split
  · exact le_refl _
  · exact min_le_left _ _

theorem availableTokens_nonneg (solvent : Solvent buckets) (hcapacity : 0 ≤ capacity)
    {window : ℚ} (hwindow : 0 < window) (moment : ℚ) :
    0 ≤ availableTokens buckets key capacity window moment := by
  have hcap : (0 : ℚ) ≤ capacity := Int.cast_nonneg hcapacity
  unfold availableTokens
  split
  · exact hcap
  next bucket hlookup =>
    refine le_min hcap (add_nonneg (solvent key bucket hlookup) ?_)
    exact mul_nonneg (le_max_left _ _) (div_nonneg hcap hwindow.le)

/-- A bucket gains at most what its rate gives in the time. -/
theorem availableTokens_grows (hcapacity : 0 ≤ capacity) {window moment later : ℚ}
    (hwindow : 0 < window) (h : moment ≤ later) :
    availableTokens buckets key capacity window later ≤
      availableTokens buckets key capacity window moment +
        (later - moment) * (capacity / window) := by
  have hrate : (0 : ℚ) ≤ capacity / window := div_nonneg (Int.cast_nonneg hcapacity) hwindow.le
  have hgain : (0 : ℚ) ≤ (later - moment) * (capacity / window) :=
    mul_nonneg (sub_nonneg.mpr h) hrate
  unfold availableTokens
  split
  · exact le_add_of_nonneg_right hgain
  next bucket _ =>
    have helapsed : max 0 (later - bucket.updatedAt) ≤
        max 0 (moment - bucket.updatedAt) + (later - moment) := by
      refine max_le (add_nonneg (le_max_left _ _) (sub_nonneg.mpr h)) ?_
      linarith [le_max_right 0 (moment - bucket.updatedAt)]
    have hrefill := mul_le_mul_of_nonneg_right helapsed hrate
    rw [add_mul] at hrefill
    rw [← min_add_add_right]
    refine le_min ((min_le_left _ _).trans (le_add_of_nonneg_right hgain)) ?_
    exact (min_le_right _ _).trans (by linarith)

theorem availableTokens_of_lookup {window moment tokens : ℚ}
    (h : buckets.lookup key = some ⟨tokens, moment⟩) :
    availableTokens buckets key capacity window moment ≤ tokens := by
  unfold availableTokens
  rw [h]
  refine (min_le_right _ _).trans ?_
  simp

theorem answer_pays (fits : limits.Capacity key capacity)
    (call : TimedCall) (draws : call.incidentKey = key ∨ agentKey call.agentId = key)
    (granted : (limits.answer buckets call).1.allowed = true) :
    availableTokens (limits.answer buckets call).2 key capacity limits.windowSeconds call.moment + 1 ≤
      availableTokens buckets key capacity limits.windowSeconds call.moment := by
  obtain ⟨_, _, hafter⟩ := answer_allowed granted
  have hlookup := charged_lookup limits buckets call key
  rw [hafter, ← le_sub_iff_add_le]
  refine availableTokens_of_lookup ?_
  rcases draws with rfl | rfl
  · rw [hlookup, if_neg (incidentKey_ne_agentKey call call.agentId), if_pos rfl,
      ToolRateLimits.incidentTokens, fits.ofIncident call rfl]
  · rw [hlookup, if_pos rfl, ToolRateLimits.agentTokens, fits.ofAgent _ rfl]

theorem answer_not_more (fits : limits.Capacity key capacity)
    (buckets : Dict Bucket) (call : TimedCall) :
    availableTokens (limits.answer buckets call).2 key capacity limits.windowSeconds call.moment ≤
      availableTokens buckets key capacity limits.windowSeconds call.moment := by
  by_cases hgranted : (limits.answer buckets call).1.allowed = true
  · by_cases hdraws : call.incidentKey = key ∨ agentKey call.agentId = key
    · have := answer_pays fits call hdraws hgranted
      linarith
    · obtain ⟨hincident, hagent⟩ := not_or.mp hdraws
      have hsame := charged_lookup limits buckets call key
      rw [if_neg (Ne.symm hagent), if_neg (Ne.symm hincident)] at hsame
      rw [(answer_allowed hgranted).2.2, availableTokens, availableTokens, hsame]
  · rw [answer_denied (by simpa using hgranted)]

theorem bucket_meter (usable : limits.Usable) (fits : limits.Capacity key capacity)
    (hcapacity : 0 ≤ capacity) {counted : TimedCall → Bool}
    (draws : ∀ call, counted call = true →
      call.incidentKey = key ∨ agentKey call.agentId = key) :
    Metering.Meter (fun buckets call => (limits.answer buckets call).2)
      (fun buckets call => counted call && (limits.answer buckets call).1.allowed)
      TimedCall.moment Solvent
      (fun buckets moment => availableTokens buckets key capacity limits.windowSeconds moment)
      (capacity / limits.windowSeconds) where
  keeps call h := answer_solvent call h
  nonneg t h := availableTokens_nonneg h hcapacity usable.window t
  grows _ h := availableTokens_grows hcapacity usable.window h
  pays {s} call _ := by
    by_cases hspends : (counted call && (limits.answer s call).1.allowed) = true
    · obtain ⟨hcounted, hgranted⟩ := Bool.and_eq_true_iff.mp hspends
      rw [if_pos hspends]
      exact answer_pays fits call (draws call hcounted) hgranted
    · rw [if_neg hspends, add_zero]
      exact answer_not_more fits s call

/-- The granted calls of a kind between two moments, of those a run has answered. -/
def grantsWithin (counted : TimedCall → Bool) (low high : ℚ) (answers : List Answered) : Nat :=
  answers.countP fun answered => counted answered.call && answered.decision.allowed &&
    decide (low ≤ answered.call.moment ∧ answered.call.moment ≤ high)

theorem grantsWithin_serve (limits : ToolRateLimits) (counted : TimedCall → Bool) (low high : ℚ)
    (calls : List TimedCall) (buckets : Dict Bucket) :
    grantsWithin counted low high (limits.serve buckets calls) =
      Metering.spentWithin (fun buckets call => (limits.answer buckets call).2)
        (fun buckets call => counted call && (limits.answer buckets call).1.allowed)
        TimedCall.moment low high buckets calls := by
  induction calls generalizing buckets with
  | nil => rfl
  | cons call rest ih =>
    rw [ToolRateLimits.serve, grantsWithin, List.countP_cons, Metering.spentWithin, Nat.add_comm]
    congr 1
    · simp only [Bool.and_eq_true, decide_eq_true_eq]
    · exact ih _

/-- Between two moments the granted calls that draw on a key are as many as the capacity and
what the rate gives in between. -/
theorem grants_of_key_le (usable : limits.Usable) (fits : limits.Capacity key capacity)
    (hcapacity : 0 ≤ capacity) {counted : TimedCall → Bool}
    (draws : ∀ call, counted call = true → call.incidentKey = key ∨ agentKey call.agentId = key)
    {calls : List TimedCall} (ordered : calls.Pairwise fun a b => a.moment ≤ b.moment)
    (start : ℚ) {length : ℚ} (hlength : 0 ≤ length) :
    (grantsWithin counted start (start + length) (limits.serve [] calls) : ℚ) ≤
      capacity + capacity * length / limits.windowSeconds := by
  have solvent : Solvent [] := fun _ _ h => by cases h
  have hbound := (bucket_meter usable fits hcapacity draws).spentWithin_le
    (fun buckets t => availableTokens_le buckets key capacity limits.windowSeconds t) ordered
    solvent (le_add_of_nonneg_right hlength : start ≤ start + length)
  rw [grantsWithin_serve]
  refine hbound.trans (le_of_eq ?_)
  rw [add_sub_cancel_left, mul_div_assoc', mul_comm length]

end Meter

/-- In every interval the calls granted to one agent, tool and incident, and those granted to one
agent, are as many as the capacity of their bucket and its refill in the interval at most. -/
theorem throughput_bounded (limits : ToolRateLimits) (usable : limits.Usable)
    (calls : List TimedCall) (ordered : calls.Pairwise fun a b => a.moment ≤ b.moment)
    (start length : ℚ) (hlength : 0 ≤ length) :
    (∀ agentId toolName incidentId,
      (grantsWithin (fun call => call.agentId = agentId && call.toolName = toolName &&
          call.incidentId = incidentId) start (start + length) (limits.serve [] calls) : ℚ) ≤
        limits.perToolIncident + limits.perToolIncident * length / limits.windowSeconds) ∧
    ∀ agentId,
      (grantsWithin (fun call => call.agentId = agentId) start (start + length)
          (limits.serve [] calls) : ℚ) ≤
        limits.perAgent + limits.perAgent * length / limits.windowSeconds := by
  constructor
  · intro agentId toolName incidentId
    refine grants_of_key_le usable (incident_capacity limits ⟨0, agentId, toolName, incidentId⟩)
      (zero_le_one.trans usable.perToolIncident) ?_ ordered start hlength
    intro call hcounted
    simp only [Bool.and_eq_true, decide_eq_true_eq] at hcounted
    obtain ⟨⟨rfl, rfl⟩, rfl⟩ := hcounted
    exact .inl rfl
  · intro agentId
    refine grants_of_key_le usable (agent_capacity limits agentId)
      (zero_le_one.trans usable.perAgent) ?_ ordered start hlength
    intro call hcounted
    exact .inr (congrArg agentKey (of_decide_eq_true hcounted))

def onePerMinute : ToolRateLimits := ⟨60, 1, 2, false⟩

/-- Two calls of one agent on two incidents, in the same second. -/
def twoIncidents : List TimedCall :=
  [⟨5, "knowledge", "retrieve_knowledge", "incident-1"⟩,
    ⟨5, "knowledge", "retrieve_knowledge", "incident-2"⟩]

theorem two_calls_bounded :
    (∀ agentId toolName incidentId,
      (grantsWithin (fun call => call.agentId = agentId && call.toolName = toolName &&
          call.incidentId = incidentId) 0 (0 + 60) (onePerMinute.serve [] twoIncidents) : ℚ) ≤
        onePerMinute.perToolIncident +
          onePerMinute.perToolIncident * 60 / onePerMinute.windowSeconds) ∧
    ∀ agentId,
      (grantsWithin (fun call => call.agentId = agentId) 0 (0 + 60)
          (onePerMinute.serve [] twoIncidents) : ℚ) ≤
        onePerMinute.perAgent + onePerMinute.perAgent * 60 / onePerMinute.windowSeconds :=
  throughput_bounded onePerMinute ⟨by decide, by decide, by decide⟩ twoIncidents
    (by simp [twoIncidents]) 0 60 (by decide)

end Aegis
