import Aegis.Limits
import Mathlib.Data.Int.Log
import Mathlib.Data.List.DropRight
import Mathlib.Data.Rat.Floor
import Mathlib.Tactic.NormNum

namespace Aegis

/-- One call of a hardened tool, in the world it starts in. -/
structure EdgeCall (World : Type) where
  tool : HardenedTool
  fn : Fields → World → Attempt × World
  params : Fields
  world : World

/-- What is seen of a call: its dependency, how the wrapped function ended if it was called, and
when. -/
structure SeenCall where
  key : String
  attempt : Option Attempt
  ended : ℚ

/-- The wrapped function ran too long, or raised what is no `ValidationError`. A timeout is the
`ValidationError` of this text. -/
def Attempt.isFailure : Attempt → Bool
  | .late => true
  | .raised => true
  | .validationError text => text = "denied:timeout"
  | .result _ => false

def Attempt.isSuccess : Attempt → Bool
  | .result _ => true
  | _ => false

def SeenCall.failed (key : String) (seen : SeenCall) : Bool :=
  seen.key = key && seen.attempt.elim false Attempt.isFailure

def SeenCall.succeeded (key : String) (seen : SeenCall) : Bool :=
  seen.key = key && seen.attempt.elim false Attempt.isSuccess

/-- The failures of a dependency since its last success. -/
def failuresSince (key : String) (trace : List SeenCall) : List SeenCall :=
  (trace.rtakeWhile fun seen => !seen.succeeded key).filter (SeenCall.failed key)

/-- The dependency has failed as often as the threshold since its last success, and the clock has
not reached the sum of the time of the last failure and the cooldown. -/
def CircuitBreaker.Tripped (breaker : CircuitBreaker) (key : String) (now : ℚ)
    (trace : List SeenCall) : Prop :=
  breaker.threshold ≤ (failuresSince key trace).length ∧
    ∃ last ∈ (failuresSince key trace).getLast?,
      now < breaker.addSeconds last.ended breaker.cooldownSeconds

section Trace

variable {World : Type} (redact : String → RedactionResult) (clock : World → ℚ)
  (breaker : CircuitBreaker)

def EdgeCall.run (states : Dict BreakerState) (call : EdgeCall World) : HardenedRun World :=
  call.tool.run redact clock breaker call.fn call.params ⟨states, call.world⟩

def EdgeCall.seen (states : Dict BreakerState) (call : EdgeCall World) : SeenCall where
  key := call.tool.key
  attempt :=
    if (call.run redact clock breaker states).reached then some (call.fn call.params call.world).1
    else none
  ended := clock (call.fn call.params call.world).2

/-- The states of the breaker after calls one after the other. -/
def statesAfter (calls : List (EdgeCall World)) : Dict BreakerState :=
  calls.foldl (fun states call => (call.run redact clock breaker states).edge.states) []

/-- What is seen of calls one after the other, from the given states on. -/
def seenFrom : Dict BreakerState → List (EdgeCall World) → List SeenCall
  | _, [] => []
  | states, call :: rest =>
    call.seen redact clock breaker states ::
      seenFrom (call.run redact clock breaker states).edge.states rest

end Trace

section Failures

variable {key : String} {trace : List SeenCall} {seen : SeenCall}

theorem failuresSince_concat (key : String) (trace : List SeenCall) (seen : SeenCall) :
    failuresSince key (trace ++ [seen]) =
      if seen.succeeded key then []
      else if seen.failed key then failuresSince key trace ++ [seen]
      else failuresSince key trace := by
  unfold failuresSince
  by_cases hsuccess : seen.succeeded key = true
  · rw [if_pos hsuccess, List.rtakeWhile_concat_neg _ _ _ (by simp [hsuccess]), List.filter_nil]
  · rw [if_neg hsuccess, List.rtakeWhile_concat_pos _ _ _ (by simpa using hsuccess),
      List.filter_append]
    by_cases hfailed : seen.failed key = true
    · rw [if_pos hfailed, List.filter_cons_of_pos hfailed, List.filter_nil]
    · rw [if_neg hfailed, List.filter_cons_of_neg hfailed, List.filter_nil, List.append_nil]

/-- A call that neither succeeds nor fails, or is one of another dependency, is left out. -/
theorem failuresSince_filter (key : String) (trace : List SeenCall) :
    failuresSince key (trace.filter fun seen => seen.succeeded key || seen.failed key) =
      failuresSince key trace := by
  induction trace using List.reverseRecOn with
  | nil => rfl
  | append_singleton trace seen ih =>
    rw [List.filter_append, failuresSince_concat, ← ih]
    by_cases hsuccess : seen.succeeded key = true
    · rw [if_pos hsuccess, List.filter_cons_of_pos (by rw [hsuccess, Bool.true_or]),
        List.filter_nil, failuresSince_concat, if_pos hsuccess]
    · rw [if_neg hsuccess]
      by_cases hfailed : seen.failed key = true
      · rw [if_pos hfailed, List.filter_cons_of_pos (by rw [hfailed, Bool.or_true]),
          List.filter_nil, failuresSince_concat, if_neg hsuccess, if_pos hfailed]
      · rw [if_neg hfailed, List.filter_cons_of_neg (by simp [hsuccess, hfailed]),
          List.filter_nil, List.append_nil]

end Failures

section States

variable {World : Type} {redact : String → RedactionResult} {clock : World → ℚ}
  {breaker : CircuitBreaker} {states : Dict BreakerState} {trace : List SeenCall}

/-- What a state of a dependency says of its failures since its last success: their number, and,
once there are as many as the threshold, when the last of them lets calls pass again. -/
structure Represents (breaker : CircuitBreaker) (failures : List SeenCall) (state : BreakerState) :
    Prop where
  failed : failures ≠ []
  count : state.failures = failures.length
  deadline : breaker.threshold ≤ failures.length → ∀ last ∈ failures.getLast?,
    state.openedUntil = breaker.addSeconds last.ended breaker.cooldownSeconds

/-- The breaker knows the failures of every dependency. -/
def CircuitBreaker.Knows (breaker : CircuitBreaker) (states : Dict BreakerState)
    (trace : List SeenCall) : Prop :=
  ∀ key, (states.lookup key).elim (failuresSince key trace = [])
    (Represents breaker (failuresSince key trace))

theorem knows_nil (breaker : CircuitBreaker) : breaker.Knows [] [] := fun _ => rfl

theorem allow_iff (h : breaker.Knows states trace) (key : String) (now : ℚ) :
    breaker.allow states key now = true ↔ ¬breaker.Tripped key now trace := by
  have h := h key
  unfold CircuitBreaker.allow CircuitBreaker.Tripped
  cases hstate : states.lookup key with
  | none =>
    rw [hstate] at h
    have h : failuresSince key trace = [] := h
    simp [h]
  | some state =>
    rw [hstate] at h
    obtain ⟨hfailed, hcount, hdeadline⟩ := h
    dsimp only
    by_cases hfew : state.failures < breaker.threshold
    · rw [if_pos hfew]
      exact ⟨fun _ hopen => absurd hopen.1 (by omega), fun _ => rfl⟩
    · have hlast := List.getLast?_eq_some_getLast hfailed
      have hthreshold : breaker.threshold ≤ (failuresSince key trace).length := by omega
      rw [if_neg hfew, decide_eq_true_eq, hdeadline hthreshold _ hlast, ← not_lt]
      refine not_congr ⟨fun hnow => ⟨hthreshold, _, hlast, hnow⟩, fun ⟨_, last, hmem, hnow⟩ => ?_⟩
      rw [hlast] at hmem
      rwa [Option.some.inj hmem]

theorem settle_states (tool : HardenedTool) (now : ℚ) (attempt : Attempt) :
    (tool.settle redact breaker states now (runWithTimeout attempt)).2 =
      if attempt.isSuccess then recordSuccess states tool.key
      else if attempt.isFailure then breaker.recordFailure states tool.key now
      else states := by
  cases attempt with
  | result raw => rfl
  | late => rfl
  | raised => rfl
  | validationError text =>
    rw [runWithTimeout, HardenedTool.settle]
    by_cases htext : text = "denied:timeout"
    · simp [htext, Attempt.isSuccess, Attempt.isFailure]
    · simp [htext, Attempt.isSuccess, Attempt.isFailure]

/-- A run calls the wrapped function when the parameters are accepted and the breaker allows it; else
it leaves everything as it was. -/
theorem run_cases (states : Dict BreakerState) (call : EdgeCall World) :
    (call.tool.checkParams call.params = .ok () ∧
      breaker.allow states call.tool.key (clock call.world) = true ∧
      (call.run redact clock breaker states).reached = true ∧
      (call.run redact clock breaker states).edge.states =
        (call.tool.settle redact breaker states (clock (call.fn call.params call.world).2)
          (runWithTimeout (call.fn call.params call.world).1)).2) ∨
    (¬(call.tool.checkParams call.params = .ok () ∧
        breaker.allow states call.tool.key (clock call.world) = true) ∧
      (call.run redact clock breaker states).reached = false ∧
      (call.run redact clock breaker states).edge.states = states) := by
  unfold EdgeCall.run HardenedTool.run
  cases hparams : call.tool.checkParams call.params with
  | error text => exact .inr ⟨fun h => by simpa using h.1, rfl, rfl⟩
  | ok accepted =>
    by_cases hallow : breaker.allow states call.tool.key (clock call.world) = true
    · exact .inl ⟨rfl, hallow, by simp [hallow], by simp [hallow]⟩
    · exact .inr ⟨fun h => hallow h.2, by simp [hallow], by simp [hallow]⟩

theorem recordFailure_represents {state : Option BreakerState} {failures : List SeenCall}
    (h : state.elim (failures = []) (Represents breaker failures)) (seen : SeenCall) :
    Represents breaker (failures ++ [seen])
      ⟨(state.getD ⟨0, 0⟩).failures + 1,
        if breaker.threshold ≤ (state.getD ⟨0, 0⟩).failures + 1 then
          breaker.addSeconds seen.ended breaker.cooldownSeconds
        else (state.getD ⟨0, 0⟩).openedUntil⟩ := by
  have hcount : (state.getD ⟨0, 0⟩).failures = failures.length := by
    cases state with
    | none => rw [show failures = [] from h]; rfl
    | some state => exact h.count
  refine ⟨by simp, by simp [hcount], fun hthreshold last hlast => ?_⟩
  rw [List.length_append, List.length_singleton] at hthreshold
  rw [List.getLast?_concat] at hlast
  dsimp only
  rw [hcount, if_pos hthreshold, Option.some.inj hlast]

theorem knows_seen (h : breaker.Knows states trace) (call : EdgeCall World) :
    breaker.Knows (call.run redact clock breaker states).edge.states
      (trace ++ [call.seen redact clock breaker states]) := by
  intro key
  rw [failuresSince_concat]
  rcases @run_cases _ redact clock breaker states call with
    ⟨_, _, hreached, hstates⟩ | ⟨_, hreached, hstates⟩
  · have hattempt : (call.seen redact clock breaker states).attempt =
        some (call.fn call.params call.world).1 := if_pos hreached
    have hended : (call.seen redact clock breaker states).ended =
        clock (call.fn call.params call.world).2 := rfl
    have hother : key ≠ call.tool.key → (call.seen redact clock breaker states).key ≠ key :=
      fun hne heq => hne heq.symm
    rw [hstates, settle_states]
    by_cases hkey : key = call.tool.key
    · subst hkey
      have hsucceeded : (call.seen redact clock breaker states).succeeded call.tool.key =
          (call.fn call.params call.world).1.isSuccess := by
        rw [SeenCall.succeeded, hattempt]
        exact Bool.and_eq_right_iff_imp.mpr fun _ => decide_eq_true rfl
      have hfailed : (call.seen redact clock breaker states).failed call.tool.key =
          (call.fn call.params call.world).1.isFailure := by
        rw [SeenCall.failed, hattempt]
        exact Bool.and_eq_right_iff_imp.mpr fun _ => decide_eq_true rfl
      rw [hsucceeded, hfailed]
      split
      · rw [recordSuccess, Dict.lookup_pop, if_pos rfl]
        rfl
      · split
        · rw [CircuitBreaker.recordFailure, Dict.lookup_set, if_pos rfl, ← hended]
          exact recordFailure_represents (h call.tool.key) _
        · exact h call.tool.key
    · rw [SeenCall.succeeded, SeenCall.failed, decide_eq_false (hother hkey), Bool.false_and,
        Bool.false_and, if_neg Bool.false_ne_true, if_neg Bool.false_ne_true]
      split
      · rw [recordSuccess, Dict.lookup_pop, if_neg hkey]
        exact h key
      · split
        · rw [CircuitBreaker.recordFailure, Dict.lookup_set, if_neg hkey]
          exact h key
        · exact h key
  · have hattempt : (call.seen redact clock breaker states).attempt = none :=
      if_neg (by rw [hreached]; exact Bool.false_ne_true)
    rw [hstates, SeenCall.succeeded, SeenCall.failed, hattempt]
    simpa using h key

theorem knows_seenFrom (calls : List (EdgeCall World)) (h : breaker.Knows states trace) :
    breaker.Knows
      (calls.foldl (fun states call => (call.run redact clock breaker states).edge.states) states)
      (trace ++ seenFrom redact clock breaker states calls) := by
  induction calls generalizing states trace with
  | nil =>
    rw [seenFrom, List.append_nil]
    exact h
  | cons call rest ih =>
    rw [seenFrom, List.foldl_cons, List.append_cons]
    exact ih (knows_seen h call)

end States

/-- The trace law of the circuit breaker: after any calls, a call with accepted parameters gets to the
wrapped function exactly when its dependency has not failed as often as the threshold since its last
success, or the clock has reached the sum of its last failure and the cooldown; the calls that
neither fail nor succeed and those on other dependencies make no difference. -/
theorem breaker_trace_law {World : Type} (redact : String → RedactionResult) (clock : World → ℚ)
    (breaker : CircuitBreaker) :
    (∀ (earlier : List (EdgeCall World)) (call : EdgeCall World),
      (call.run redact clock breaker (statesAfter redact clock breaker earlier)).reached = true ↔
        call.tool.checkParams call.params = .ok () ∧
          ¬breaker.Tripped call.tool.key (clock call.world)
            (seenFrom redact clock breaker [] earlier)) ∧
    ∀ (key : String) (now : ℚ) (trace : List SeenCall),
      breaker.Tripped key now trace ↔
        breaker.Tripped key now
          (trace.filter fun seen => seen.succeeded key || seen.failed key) := by
  refine ⟨fun earlier call => ?_, fun key now trace => ?_⟩
  · have hknows : breaker.Knows (statesAfter redact clock breaker earlier)
        (seenFrom redact clock breaker [] earlier) := knows_seenFrom earlier (knows_nil breaker)
    rw [← allow_iff hknows]
    rcases @run_cases _ redact clock breaker (statesAfter redact clock breaker earlier) call with
      ⟨hparams, hallow, hreached, _⟩ | ⟨hrefused, hreached, _⟩
    · exact ⟨fun _ => ⟨hparams, hallow⟩, fun _ => hreached⟩
    · rw [hreached]
      exact ⟨fun h => absurd h Bool.false_ne_true, fun h => absurd h hrefused⟩
  · rw [CircuitBreaker.Tripped, CircuitBreaker.Tripped, failuresSince_filter]

/-- The double closest to a rational that is not negative; of two equally close ones the even
one. -/
def nearestDouble (value : ℚ) : ℚ :=
  let unit : ℚ := 2 ^ (Int.log 2 value - 52)
  let low := ⌊value / unit⌋
  let rest := value / unit - low
  let near := if rest < 1 / 2 then low else if 1 / 2 < rest then low + 1 else low + low % 2
  near * unit

/-- Half a minute after one failure, on the doubles. -/
def oneFailure : CircuitBreaker := ⟨1, 30, fun a b => nearestDouble (a + b)⟩

/-- 1.5344978069664073 -/
def failedAt : ℚ := 6910763751654755 / 2 ^ 52

/-- 31.534497806966407, which is `failedAt + 30` on the doubles. -/
def retriedAt : ℚ := 4438086017899051 / 2 ^ 47

def plainTool : HardenedTool := ⟨"search_code", ⟨100, 100⟩, none, none⟩

/-- A call of a tool that raises, at the given time. -/
def raisingCall (now : ℚ) : EdgeCall ℚ := ⟨plainTool, fun _ world => (.raised, world), [], now⟩

theorem retriedAt_eq : oneFailure.addSeconds failedAt 30 = retriedAt := by
  decide +kernel

/-- The rounded sum comes before the end of the cooldown, and the call at that time is let
through. -/
theorem rounded_cooldown_ends_early :
    ¬∀ (World : Type) (redact : String → RedactionResult) (clock : World → ℚ)
      (breaker : CircuitBreaker) (earlier : List (EdgeCall World)) (call : EdgeCall World),
      1 ≤ breaker.threshold → 0 ≤ breaker.cooldownSeconds →
      (earlier ++ [call]).Pairwise (fun a b => clock a.world ≤ clock b.world) →
      call.tool.checkParams call.params = .ok () →
      ((call.run redact clock breaker (statesAfter redact clock breaker earlier)).reached = true ↔
        ¬(breaker.threshold ≤
            (failuresSince call.tool.key (seenFrom redact clock breaker [] earlier)).length ∧
          ∃ last ∈ (failuresSince call.tool.key
              (seenFrom redact clock breaker [] earlier)).getLast?,
            clock call.world - last.ended < breaker.cooldownSeconds)) := by
  intro h
  have hlaw := h ℚ (fun text => ⟨text, 0⟩) id oneFailure [raisingCall failedAt]
    (raisingCall retriedAt) (by decide) (by decide)
    (by simp [raisingCall, failedAt, retriedAt]; norm_num) rfl
  have hstates : statesAfter (fun text => ⟨text, 0⟩) id oneFailure [raisingCall failedAt] =
      [("code", ⟨1, retriedAt⟩)] := by
    rw [← retriedAt_eq]
    rfl
  have hfailures : failuresSince "code"
      (seenFrom (fun text => ⟨text, 0⟩) id oneFailure [] [raisingCall failedAt]) =
        [⟨"code", some .raised, failedAt⟩] := rfl
  have hreached : ((raisingCall retriedAt).run (fun text => ⟨text, 0⟩) id oneFailure
      (statesAfter (fun text => ⟨text, 0⟩) id oneFailure [raisingCall failedAt])).reached =
        true := by
    rw [hstates]
    decide +kernel
  refine hlaw.mp hreached ⟨?_, _, congrArg List.getLast? hfailures, ?_⟩
  · exact (congrArg List.length hfailures).ge
  · change retriedAt - failedAt < 30
    norm_num [retriedAt, failedAt]

end Aegis
