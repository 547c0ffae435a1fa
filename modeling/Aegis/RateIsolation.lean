import Aegis.InvokeTool
import Aegis.TokenBuckets

namespace Aegis

/-- What `_decide` calls `allow` with: an id that `parse_agent_identity` accepts, and a name of the
registry that the gateway has a runner for. The incident is any text. -/
structure TimedCall.Paced (call : TimedCall) : Prop where
  known : (parseAgentIdentity call.agentId).isSome
  registered : call.toolName ∈ readTools

/-- A gateway over tools of the registry asks its limiter about no other call: it decides such a
call alike whatever limiter it has. -/
theorem decide_of_not_paced {World : Type} {gateway : InvokeTool World} {services : Services}
    {denyAll : Bool} {cache : PolicyCache} {request : ToolInvokeRequest}
    {actionClass : Option ActionClass} {world : World} {moment : ℚ}
    (registered : ∀ name, (gateway.tools name).isSome → name ∈ readTools)
    (limiter : RateLimiter World)
    (h : ¬TimedCall.Paced
      ⟨moment, gateway.callerIdentity request, request.toolName, request.incidentId⟩) :
    ({ gateway with rateLimiter := limiter }).decide services denyAll cache request actionClass
        world =
      gateway.decide services denyAll cache request actionClass world := by
  have hcaller : ({ gateway with rateLimiter := limiter }).callerIdentity request =
      gateway.callerIdentity request := rfl
  have hverdict : ({ gateway with rateLimiter := limiter }).verdict cache request actionClass =
      gateway.verdict cache request actionClass := rfl
  have hresolved :
      ({ gateway with rateLimiter := limiter }).resolvedClass cache request actionClass =
        gateway.resolvedClass cache request actionClass := rfl
  have hrefuse : ∀ reason cls approval,
      ({ gateway with rateLimiter := limiter }).refuse request reason cls approval world =
        gateway.refuse request reason cls approval world := fun _ _ _ => rfl
  simp only [InvokeTool.decide, hcaller, hverdict, hresolved, hrefuse]
  by_cases hknown : parseAgentIdentity (gateway.callerIdentity request) = none
  · rw [if_pos hknown, if_pos hknown]
  · have htool : gateway.tools request.toolName = none := by
      rw [← Option.not_isSome_iff_eq_none]
      intro hsome
      exact h ⟨Option.isSome_iff_ne_none.mpr hknown, registered _ hsome⟩
    have hpace : ∀ resolved,
        ({ gateway with rateLimiter := limiter }).paceAndRun services request resolved world =
          gateway.paceAndRun services request resolved world := by
      intro resolved
      simp only [InvokeTool.paceAndRun, htool, hrefuse]
    rw [hpace]

/-- No two calls that differ in agent, tool or incident have one key: the `:` between the three
is where it seems to be. -/
def KeysApart (calls : List TimedCall) : Prop :=
  ∀ a ∈ calls, ∀ b ∈ calls, a.incidentKey = b.incidentKey →
    a.agentId = b.agentId ∧ a.toolName = b.toolName ∧ a.incidentId = b.incidentId

/-- No call of the agent on the incident finds the bucket of the agent short of a token. -/
def ToolRateLimits.AgentCovered (limits : ToolRateLimits) (agentId incidentId : String) :
    Dict Bucket → List TimedCall → Prop
  | _, [] => True
  | buckets, call :: rest =>
    (call.agentId = agentId → call.incidentId = incidentId → 1 ≤ limits.agentTokens buckets call) ∧
      limits.AgentCovered agentId incidentId (limits.answer buckets call).2 rest

/-- The answers to calls whose agent always has a token left: their own bucket decides. -/
def ToolRateLimits.serveCovered (limits : ToolRateLimits) :
    Dict Bucket → List TimedCall → List Answered
  | _, [] => []
  | buckets, call :: rest =>
    if 1 ≤ limits.incidentTokens buckets call then
      ⟨call, ⟨true, "allowed:rate"⟩⟩ :: limits.serveCovered (buckets.set call.incidentKey
        ⟨limits.incidentTokens buckets call - 1, call.moment⟩) rest
    else ⟨call, ⟨false, "denied:rate_limited"⟩⟩ :: limits.serveCovered buckets rest

/-- The buckets of the keys are the same. -/
def SameOn (keys : String → Prop) (buckets other : Dict Bucket) : Prop :=
  ∀ key, keys key → buckets.lookup key = other.lookup key

section Runs

variable {limits : ToolRateLimits} {buckets other : Dict Bucket} {call : TimedCall}
  {keys : String → Prop}

/-- A call leaves the buckets it does not draw on. -/
theorem answer_frame (limits : ToolRateLimits) (buckets : Dict Bucket) (call : TimedCall)
    {key : String} (hincident : call.incidentKey ≠ key) (hagent : agentKey call.agentId ≠ key) :
    (limits.answer buckets call).2.lookup key = buckets.lookup key := by
  rcases charge_cases limits buckets call with ⟨_, _, _, heq⟩ | ⟨_, heq⟩
  · rw [heq, charged_lookup, if_neg (Ne.symm hagent), if_neg (Ne.symm hincident)]
  · rw [heq]

theorem SameOn.skip (same : SameOn keys buckets other) (hincident : ¬keys call.incidentKey)
    (hagent : ¬keys (agentKey call.agentId)) :
    SameOn keys (limits.answer buckets call).2 other := by
  intro key hkey
  rw [← same key hkey]
  refine answer_frame limits buckets call ?_ ?_
  · rintro rfl
    exact hincident hkey
  · rintro rfl
    exact hagent hkey

theorem availableTokens_congr {key : String} (h : buckets.lookup key = other.lookup key)
    (capacity : Int) (window moment : ℚ) :
    availableTokens buckets key capacity window moment =
      availableTokens other key capacity window moment := by
  rw [availableTokens, availableTokens, h]

/-- Buckets that are the same on the keys of a call answer it alike and stay the same. -/
theorem SameOn.answer (same : SameOn keys buckets other) (hincident : keys call.incidentKey)
    (hagent : keys (agentKey call.agentId)) :
    (limits.answer buckets call).1 = (limits.answer other call).1 ∧
      SameOn keys (limits.answer buckets call).2 (limits.answer other call).2 := by
  have tokens : limits.incidentTokens buckets call = limits.incidentTokens other call :=
    availableTokens_congr (same _ hincident) ..
  have spare : limits.agentTokens buckets call = limits.agentTokens other call :=
    availableTokens_congr (same _ hagent) ..
  rcases charge_cases limits buckets call with ⟨husable, hi, ha, heq⟩ | ⟨hshort, heq⟩
  · rcases charge_cases limits other call with ⟨_, _, _, hother⟩ | ⟨hnot, _⟩
    · rw [heq, hother]
      refine ⟨rfl, fun key hkey => ?_⟩
      rw [charged_lookup, charged_lookup, tokens, spare, same key hkey]
    · exact absurd ⟨husable, tokens ▸ hi, spare ▸ ha⟩ hnot
  · rcases charge_cases limits other call with ⟨husable, hi, ha, _⟩ | ⟨_, hother⟩
    · exact absurd ⟨husable, tokens.symm ▸ hi, spare.symm ▸ ha⟩ hshort
    · rw [heq, hother]
      exact ⟨rfl, same⟩

theorem serve_drop_denied (calls : List TimedCall) (buckets : Dict Bucket) {kept : List Answered}
    (hsub : kept.Sublist (limits.serve buckets calls))
    (granted : kept.filter (fun answered => answered.decision.allowed) =
      (limits.serve buckets calls).filter fun answered => answered.decision.allowed) :
    limits.serve buckets (kept.map Answered.call) = kept := by
  induction calls generalizing buckets kept with
  | nil =>
    rw [List.eq_nil_of_sublist_nil hsub]
    rfl
  | cons call rest ih =>
    rw [ToolRateLimits.serve] at hsub granted
    cases hsub with
    | cons _ hrest =>
      -- the call was dropped, so it was denied and changed no bucket
      by_cases hallowed : (limits.answer buckets call).1.allowed = true
      · have hle := (hrest.filter fun answered => answered.decision.allowed).length_le
        rw [granted, List.filter_cons_of_pos (by exact hallowed), List.length_cons] at hle
        omega
      · rw [List.filter_cons_of_neg (by exact hallowed)] at granted
        rw [answer_denied (by simpa using hallowed)] at hrest granted
        exact ih buckets hrest granted
    | cons_cons _ hrest =>
      rw [List.map_cons, ToolRateLimits.serve]
      congr 1
      refine ih _ hrest ?_
      by_cases hallowed : (limits.answer buckets call).1.allowed = true
      · rw [List.filter_cons_of_pos (by exact hallowed),
          List.filter_cons_of_pos (by exact hallowed)] at granted
        exact (List.cons.inj granted).2
      · rwa [List.filter_cons_of_neg (by exact hallowed),
          List.filter_cons_of_neg (by exact hallowed)] at granted

theorem serve_alone (calls : List TimedCall) (mine : TimedCall → Bool)
    (own : ∀ call ∈ calls, mine call = true → keys call.incidentKey ∧ keys (agentKey call.agentId))
    (foreign : ∀ call ∈ calls, mine call = false →
      ¬keys call.incidentKey ∧ ¬keys (agentKey call.agentId))
    (same : SameOn keys buckets other) :
    (limits.serve buckets calls).filter (fun answered => mine answered.call) =
      limits.serve other (calls.filter mine) := by
  induction calls generalizing buckets other with
  | nil => rfl
  | cons call rest ih =>
    have ih := fun {b o} => @ih b o (fun c hc => own c (List.mem_cons_of_mem _ hc))
      fun c hc => foreign c (List.mem_cons_of_mem _ hc)
    rw [ToolRateLimits.serve]
    by_cases hmine : mine call = true
    · obtain ⟨hincident, hagent⟩ := own call List.mem_cons_self hmine
      obtain ⟨hanswer, hsame⟩ := @SameOn.answer limits _ _ _ _ same hincident hagent
      rw [List.filter_cons_of_pos (by exact hmine), List.filter_cons_of_pos hmine,
        ToolRateLimits.serve, hanswer, ih hsame]
    · obtain ⟨hincident, hagent⟩ := foreign call List.mem_cons_self (by simpa using hmine)
      rw [List.filter_cons_of_neg (by exact hmine), List.filter_cons_of_neg hmine,
        ih (same.skip hincident hagent)]

theorem serve_covered (usable : limits.Usable) {agentId incidentId : String}
    (calls : List TimedCall) (covered : limits.AgentCovered agentId incidentId buckets calls)
    (own : ∀ call ∈ calls, call.agentId = agentId → call.incidentId = incidentId →
      keys call.incidentKey)
    (foreign : ∀ call ∈ calls, ¬(call.agentId = agentId ∧ call.incidentId = incidentId) →
      ¬keys call.incidentKey)
    (plain : ∀ agentId, ¬keys (agentKey agentId)) (same : SameOn keys buckets other) :
    (limits.serve buckets calls).filter (fun answered =>
        answered.call.agentId = agentId && answered.call.incidentId = incidentId) =
      limits.serveCovered other (calls.filter fun call =>
        call.agentId = agentId && call.incidentId = incidentId) := by
  induction calls generalizing buckets other with
  | nil => rfl
  | cons call rest ih =>
    obtain ⟨hspare, hcovered⟩ := covered
    have ih := fun {o} => @ih _ o hcovered (fun c hc => own c (List.mem_cons_of_mem _ hc))
      fun c hc => foreign c (List.mem_cons_of_mem _ hc)
    rw [ToolRateLimits.serve]
    by_cases hmine : call.agentId = agentId ∧ call.incidentId = incidentId
    · have hkey := own call List.mem_cons_self hmine.1 hmine.2
      have hfull := hspare hmine.1 hmine.2
      have tokens : limits.incidentTokens buckets call = limits.incidentTokens other call :=
        availableTokens_congr (same _ hkey) ..
      rw [List.filter_cons_of_pos (by simpa using hmine), List.filter_cons_of_pos (by simpa using hmine),
        ToolRateLimits.serveCovered, ← tokens]
      rcases charge_cases limits buckets call with ⟨_, hi, _, heq⟩ | ⟨hshort, heq⟩
      · rw [heq] at ih
        rw [if_pos hi, heq]
        refine congrArg _ (ih fun key hmem => ?_)
        have hagent : key ≠ agentKey call.agentId := by
          rintro rfl
          exact plain _ hmem
        rw [charged_lookup, if_neg hagent, Dict.lookup_set, same key hmem]
      · have hi : ¬1 ≤ limits.incidentTokens buckets call := fun hi => hshort ⟨usable, hi, hfull⟩
        rw [heq] at ih
        rw [if_neg hi, heq]
        exact congrArg _ (ih same)
    · rw [List.filter_cons_of_neg (by simpa using hmine), List.filter_cons_of_neg (by simpa using hmine)]
      exact ih (same.skip (foreign call List.mem_cons_self hmine) (plain _))

theorem serve_unusable (h : ¬limits.Usable) (calls : List TimedCall) :
    limits.serve buckets calls = calls.map fun call => ⟨call, ⟨false, "denied:rate_limited"⟩⟩ := by
  induction calls with
  | nil => rfl
  | cons call rest ih =>
    rcases charge_cases limits buckets call with ⟨husable, _⟩ | ⟨_, heq⟩
    · exact absurd husable h
    · rw [ToolRateLimits.serve, heq, ih]
      rfl

theorem serve_filter_unusable (h : ¬limits.Usable) (mine : TimedCall → Bool)
    (calls : List TimedCall) :
    (limits.serve buckets calls).filter (fun answered => mine answered.call) =
      (calls.filter mine).map fun call => ⟨call, ⟨false, "denied:rate_limited"⟩⟩ := by
  rw [serve_unusable h, List.filter_map]
  rfl

end Runs

theorem serve_other_agents {calls other : List TimedCall} (apart : KeysApart calls)
    (apart' : KeysApart other) (limits : ToolRateLimits) {agentId : String}
    (same : calls.filter (fun call => call.agentId = agentId) =
      other.filter fun call => call.agentId = agentId) :
    (limits.serve [] calls).filter (fun answered => answered.call.agentId = agentId) =
      (limits.serve [] other).filter fun answered => answered.call.agentId = agentId := by
  have alone : ∀ run : List TimedCall, KeysApart run →
      (limits.serve [] run).filter (fun answered => answered.call.agentId = agentId) =
        limits.serve [] (run.filter fun call => call.agentId = agentId) := by
    intro run hapart
    refine @serve_alone limits [] [] (fun key => key = agentKey agentId ∨
      ∃ call ∈ run, call.agentId = agentId ∧ call.incidentKey = key) run
      (fun call => call.agentId = agentId) ?_ ?_ fun _ _ => rfl
    · intro call hcall hmine
      have hmine := of_decide_eq_true hmine
      exact ⟨.inr ⟨call, hcall, hmine, rfl⟩, .inl (congrArg agentKey hmine)⟩
    · intro call hcall hforeign
      have hforeign := of_decide_eq_false hforeign
      constructor
      · rintro (hkey | ⟨own, hown, hagent, hkey⟩)
        · exact incidentKey_ne_agentKey call agentId hkey
        · exact hforeign ((hapart own hown call hcall hkey).1.symm.trans hagent)
      · rintro (hkey | ⟨own, _, _, hkey⟩)
        · exact hforeign (agentKey_inj hkey)
        · exact incidentKey_ne_agentKey own call.agentId hkey
  rw [alone calls apart, alone other apart', same]

/-- The calls of an agent on an incident get the same answers whatever else is called, as long as
they find a token in the bucket of the agent. -/
theorem serve_other_incidents {calls other : List TimedCall} (apart : KeysApart calls)
    (apart' : KeysApart other) (limits : ToolRateLimits) {agentId incidentId : String}
    (same : calls.filter (fun call => call.agentId = agentId && call.incidentId = incidentId) =
      other.filter fun call => call.agentId = agentId && call.incidentId = incidentId)
    (covered : limits.AgentCovered agentId incidentId [] calls)
    (covered' : limits.AgentCovered agentId incidentId [] other) :
    (limits.serve [] calls).filter (fun answered =>
        answered.call.agentId = agentId && answered.call.incidentId = incidentId) =
      (limits.serve [] other).filter fun answered =>
        answered.call.agentId = agentId && answered.call.incidentId = incidentId := by
  by_cases usable : limits.Usable
  · have alone : ∀ run : List TimedCall, KeysApart run →
        limits.AgentCovered agentId incidentId [] run →
        (limits.serve [] run).filter (fun answered =>
            answered.call.agentId = agentId && answered.call.incidentId = incidentId) =
          limits.serveCovered [] (run.filter fun call =>
            call.agentId = agentId && call.incidentId = incidentId) := by
      intro run hapart hcovered
      refine @serve_covered limits [] [] (fun key => ∃ call ∈ run, (call.agentId = agentId ∧
        call.incidentId = incidentId) ∧ call.incidentKey = key) usable agentId incidentId run
        hcovered ?_ ?_ ?_ fun _ _ => rfl
      · intro call hcall hagent hincident
        exact ⟨call, hcall, ⟨hagent, hincident⟩, rfl⟩
      · rintro call hcall hforeign ⟨own, hown, ⟨hagent, hincident⟩, hkey⟩
        obtain ⟨hsame, _, hon⟩ := hapart own hown call hcall hkey
        exact hforeign ⟨hsame.symm.trans hagent, hon.symm.trans hincident⟩
      · rintro agentId ⟨call, _, _, hkey⟩
        exact incidentKey_ne_agentKey call agentId hkey
    rw [alone calls apart covered, alone other apart' covered', same]
  · rw [serve_filter_unusable usable fun call =>
        call.agentId = agentId && call.incidentId = incidentId,
      serve_filter_unusable usable fun call =>
        call.agentId = agentId && call.incidentId = incidentId, same]

theorem append_cons_inj {c : Char} {a b s t : List Char} (ha : c ∉ a) (hb : c ∉ b)
    (h : a ++ c :: s = b ++ c :: t) : a = b ∧ s = t := by
  induction a generalizing b with
  | nil =>
    cases b with
    | nil => exact ⟨rfl, (List.cons.inj h).2⟩
    | cons x b =>
      have hx := (List.cons.inj h).1
      exact absurd (hx ▸ List.mem_cons_self) hb
  | cons y a ih =>
    cases b with
    | nil =>
      have hy := (List.cons.inj h).1
      exact absurd (hy ▸ List.mem_cons_self) ha
    | cons x b =>
      obtain ⟨rfl, hrest⟩ := List.cons.inj h
      obtain ⟨rfl, hst⟩ := ih (fun hc => ha (List.mem_cons_of_mem _ hc))
        (fun hc => hb (List.mem_cons_of_mem _ hc)) hrest
      exact ⟨rfl, hst⟩

/-- Agents and tools without a colon in their names have keys of their own. -/
theorem keysApart_of_plain {calls : List TimedCall}
    (plain : ∀ call ∈ calls, ':' ∉ call.agentId.toList ∧ ':' ∉ call.toolName.toList) :
    KeysApart calls := by
  intro a ha b hb hkey
  have hkey := congrArg String.toList hkey
  simp only [TimedCall.incidentKey, String.toList_append, List.append_assoc] at hkey
  have hkey := List.append_cancel_left hkey
  obtain ⟨hagent, hrest⟩ := append_cons_inj (plain a ha).1 (plain b hb).1 hkey
  obtain ⟨htool, hincident⟩ := append_cons_inj (plain a ha).2 (plain b hb).2 hrest
  exact ⟨String.toList_injective hagent, String.toList_injective htool,
    String.toList_injective hincident⟩

theorem agentIdentity_plain (identity : AgentIdentity) : ':' ∉ identity.value.toList := by
  cases identity <;> decide

theorem readTools_plain {name : String} (h : name ∈ readTools) : ':' ∉ name.toList := by
  simp only [readTools, List.mem_cons, List.not_mem_nil, or_false] at h
  rcases h with rfl | rfl | rfl | rfl <;> decide

theorem TimedCall.Paced.plain {call : TimedCall} (h : call.Paced) :
    ':' ∉ call.agentId.toList ∧ ':' ∉ call.toolName.toList := by
  refine ⟨fun hcolon => ?_, readTools_plain h.registered⟩
  obtain ⟨identity, hparse⟩ := Option.isSome_iff_exists.mp h.known
  -- `strip` takes blanks only, so the colon would be in the value of the identity
  have hvalue : identity.value = strip call.agentId := by
    simpa using List.find?_some hparse
  exact agentIdentity_plain identity (hvalue ▸ mem_strip hcolon (by decide))

/-- Without denied calls the other answers stay; the calls that the gateway makes get the same
answers whatever other agents call, and whatever else is called while their agent has a token
left. -/
theorem rate_limits_isolate (limits : ToolRateLimits) (calls : List TimedCall) :
    (∀ kept : List Answered, kept.Sublist (limits.serve [] calls) →
      kept.filter (fun answered => answered.decision.allowed) =
        (limits.serve [] calls).filter (fun answered => answered.decision.allowed) →
      limits.serve [] (kept.map Answered.call) = kept) ∧
    ∀ other : List TimedCall, (∀ call ∈ calls, call.Paced) → (∀ call ∈ other, call.Paced) →
      (∀ agentId, calls.filter (fun call => call.agentId = agentId) =
          other.filter (fun call => call.agentId = agentId) →
        (limits.serve [] calls).filter (fun answered => answered.call.agentId = agentId) =
          (limits.serve [] other).filter fun answered => answered.call.agentId = agentId) ∧
      ∀ agentId incidentId,
        calls.filter (fun call => call.agentId = agentId && call.incidentId = incidentId) =
          other.filter (fun call => call.agentId = agentId && call.incidentId = incidentId) →
        limits.AgentCovered agentId incidentId [] calls →
        limits.AgentCovered agentId incidentId [] other →
        (limits.serve [] calls).filter (fun answered =>
            answered.call.agentId = agentId && answered.call.incidentId = incidentId) =
          (limits.serve [] other).filter fun answered =>
            answered.call.agentId = agentId && answered.call.incidentId = incidentId := by
  refine ⟨fun _ hsub hgranted => serve_drop_denied calls [] hsub hgranted,
    fun other made made' => ?_⟩
  have apart := keysApart_of_plain fun call hcall => (made call hcall).plain
  have apart' := keysApart_of_plain fun call hcall => (made' call hcall).plain
  exact ⟨fun _ same => serve_other_agents apart apart' limits same,
    fun _ _ same covered covered' =>
      serve_other_incidents apart apart' limits same covered covered'⟩

/-- Calls of two agents on two incidents; the third one finds no token for its incident. -/
def mixedCalls : List TimedCall :=
  [⟨0, "knowledge", "retrieve_knowledge", "7"⟩, ⟨0, "code", "search_code", "7"⟩,
    ⟨1, "knowledge", "retrieve_knowledge", "7"⟩, ⟨2, "knowledge", "retrieve_knowledge", "8:a"⟩]

/-- The calls of `knowledge` on the first incident alone. -/
def ownCalls : List TimedCall :=
  [⟨0, "knowledge", "retrieve_knowledge", "7"⟩, ⟨1, "knowledge", "retrieve_knowledge", "7"⟩]

theorem own_answers_kept :
    (onePerMinute.serve [] mixedCalls).filter (fun answered =>
        answered.call.agentId = "knowledge" && answered.call.incidentId = "7") =
      [⟨⟨0, "knowledge", "retrieve_knowledge", "7"⟩, ⟨true, "allowed:rate"⟩⟩,
        ⟨⟨1, "knowledge", "retrieve_knowledge", "7"⟩, ⟨false, "denied:rate_limited"⟩⟩] := by
  have made : ∀ call ∈ mixedCalls, call.Paced := by
    simp only [mixedCalls, List.forall_mem_cons]
    exact ⟨⟨by decide, by decide⟩, ⟨by decide, by decide⟩, ⟨by decide, by decide⟩,
      ⟨by decide, by decide⟩, by simp⟩
  have made' : ∀ call ∈ ownCalls, call.Paced := by
    simp only [ownCalls, List.forall_mem_cons]
    exact ⟨⟨by decide, by decide⟩, ⟨by decide, by decide⟩, by simp⟩
  have alone := ((rate_limits_isolate onePerMinute mixedCalls).2 ownCalls made made').2
    "knowledge" "7" (by decide)
    ⟨fun _ _ => by decide +kernel, fun _ _ => by decide +kernel, fun _ _ => by decide +kernel,
      fun _ _ => by decide +kernel, trivial⟩
    ⟨fun _ _ => by decide +kernel, fun _ _ => by decide +kernel, trivial⟩
  rw [alone]
  decide +kernel

end Aegis
