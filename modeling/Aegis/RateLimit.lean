import Aegis.Value
import Mathlib.Algebra.Order.Field.Rat

namespace Aegis

/-- `RateCounter`: take one token per (key, capacity, window), all or nothing. There is no
answer when the store raises. -/
structure RateCounter (World : Type) where
  tryAcquireAll : List (String × Int × ℚ) → World → Option Bool × World

structure ToolRateLimits where
  windowSeconds : ℚ
  perToolIncident : Int
  perAgent : Int
  failClosed : Bool

structure RateLimitDecision where
  allowed : Bool
  reason : String
  deriving DecidableEq

structure RateLimiter (World : Type) where
  limits : ToolRateLimits
  store : RateCounter World

/-- `RateLimiter.allow`: one key for (agent, tool, incident) and one for the agent. -/
def RateLimiter.allow {World : Type} (limiter : RateLimiter World)
    (agentId toolName incidentId : String) (world : World) : RateLimitDecision × World :=
  let incidentKey := "incident:" ++ agentId ++ ":" ++ toolName ++ ":" ++ incidentId
  let agentKey := "agent:" ++ agentId
  let window := limiter.limits.windowSeconds
  let taken := limiter.store.tryAcquireAll
    [(incidentKey, limiter.limits.perToolIncident, window),
      (agentKey, limiter.limits.perAgent, window)] world
  let decision := match taken.1 with
    | none =>
      if limiter.limits.failClosed then ⟨false, "denied:rate_unavailable"⟩
      else ⟨true, "allowed:rate_store_skipped"⟩
    | some false => ⟨false, "denied:rate_limited"⟩
    | some true => ⟨true, "allowed:rate"⟩
  (decision, taken.2)

structure Bucket where
  tokens : ℚ
  updatedAt : ℚ

/-- The buckets of a `MemoryTokenBucket` and the readings of its clock still to come. -/
structure MemoryTokenBucket where
  buckets : Dict Bucket
  now : Nat → ℚ

/-- The tokens of one key at the moment, refilled since its last update. -/
def availableTokens (buckets : Dict Bucket) (key : String) (capacity : Int) (window moment : ℚ) :
    ℚ :=
  match buckets.lookup key with
  | none => capacity
  | some bucket =>
    min (capacity : ℚ) (bucket.tokens + max 0 (moment - bucket.updatedAt) * (capacity / window))

/-- The buckets after the items each gave one token; none when some item could not. -/
def acquireAll (buckets : Dict Bucket) (moment : ℚ) :
    List (String × Int × ℚ) → Option (Dict Bucket)
  | [] => some []
  | (key, capacity, window) :: rest =>
    if capacity < 1 ∨ window ≤ 0 then none
    else
      let tokens := availableTokens buckets key capacity window moment
      if tokens < 1 then none
      else (acquireAll buckets moment rest).map fun next => (key, ⟨tokens - 1, moment⟩) :: next

/-- `MemoryTokenBucket.try_acquire_all` -/
def memoryCounter : RateCounter MemoryTokenBucket where
  tryAcquireAll items store :=
    let later := { store with now := fun read => store.now (read + 1) }
    match acquireAll store.buckets (store.now 0) items with
    | none => (some false, later)
    | some next =>
      (some true, { later with buckets := next.foldl (fun dict entry => dict.set entry.1 entry.2) store.buckets })

end Aegis
