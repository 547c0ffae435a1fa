import Mathlib.Data.List.Basic

namespace StepPath

variable {State Action : Type*}

/-- A finite run of a labelled transition relation: the actions taken from the start state,
each with the state it led to. -/
inductive Path (step : State → Action → State → Prop) : State → List (Action × State) → Prop
  | stop {s} : Path step s []
  | next {s a t rest} : step s a t → Path step t rest → Path step s ((a, t) :: rest)

/-- The states a run goes through, its start included. -/
def visited (s : State) (path : List (Action × State)) : List State :=
  s :: path.map Prod.snd

/-- The last state of a run. -/
def final (s : State) : List (Action × State) → State
  | [] => s
  | (_, t) :: rest => final t rest

/-- Every step of the run is taken from a state and with an action that meet `ok`. -/
def Meets (ok : State → Action → Prop) : State → List (Action × State) → Prop
  | _, [] => True
  | s, (a, t) :: rest => ok s a ∧ Meets ok t rest

variable {step : State → Action → State → Prop} {ok : State → Action → Prop}
  {s t : State} {a : Action} {path rest : List (Action × State)}

@[simp] theorem visited_nil : visited s ([] : List (Action × State)) = [s] := rfl

@[simp] theorem visited_cons : visited s ((a, t) :: rest) = s :: visited t rest := rfl

@[simp] theorem meets_nil : Meets ok s [] ↔ True := Iff.rfl

@[simp] theorem meets_cons : Meets ok s ((a, t) :: rest) ↔ ok s a ∧ Meets ok t rest := Iff.rfl

@[simp] theorem final_nil : final s ([] : List (Action × State)) = s := rfl

@[simp] theorem final_cons : final s ((a, t) :: rest) = final t rest := rfl

/-- A condition on the actions alone. -/
theorem meets_label {holds : Action → Prop} :
    Meets (fun _ a => holds a) s path ↔ ∀ taken ∈ path, holds taken.1 := by
  induction path generalizing s with
  | nil => simp
  | cons head rest ih =>
    obtain ⟨a, t⟩ := head
    rw [meets_cons, List.forall_mem_cons, ih]

theorem final_mem_visited : final s path ∈ visited s path := by
  induction path generalizing s with
  | nil => simp [final]
  | cons head rest ih =>
    obtain ⟨a, t⟩ := head
    exact List.mem_cons_of_mem s ih

theorem path_append (first : Path step s path) (second : Path step (final s path) rest) :
    Path step s (path ++ rest) := by
  induction first with
  | stop => exact second
  | next hstep _ ih => exact Path.next hstep (ih second)

theorem final_append (s : State) (path rest : List (Action × State)) :
    final s (path ++ rest) = final (final s path) rest := by
  induction path generalizing s with
  | nil => rfl
  | cons head path ih => exact ih head.2

theorem meets_append (first : Meets ok s path) (second : Meets ok (final s path) rest) :
    Meets ok s (path ++ rest) := by
  induction path generalizing s with
  | nil => exact second
  | cons head path ih => exact ⟨first.1, ih first.2 second⟩

/-- A state predicate that holds at the start and survives every step that meets the
condition holds in every state of a run whose steps all meet it. -/
theorem invariant_of_meets {inv : State → Prop}
    (keep : ∀ s a t, inv s → ok s a → step s a t → inv t)
    (run : Path step s path) (start : inv s) (meets : Meets ok s path) :
    ∀ u ∈ visited s path, inv u := by
  induction run with
  | stop => simpa using start
  | @next s a t rest hstep _ ih =>
    intro u hu
    rcases List.mem_cons.mp hu with rfl | hu
    · exact start
    · exact ih (keep s a t start meets.1 hstep) meets.2 u hu

theorem invariant {inv : State → Prop} (keep : ∀ s a t, inv s → step s a t → inv t)
    (run : Path step s path) (start : inv s) : ∀ u ∈ visited s path, inv u := by
  have all : ∀ (path : List (Action × State)) s, Meets (fun _ _ => True) s path := by
    intro path
    induction path with
    | nil => exact fun _ => trivial
    | cons head rest ih => exact fun _ => ⟨trivial, ih head.2⟩
  exact invariant_of_meets (fun s a t hs _ h => keep s a t hs h) run start (all path s)

/-- When a step from a good state is good exactly when it meets the condition, a run stays good
exactly when all its steps meet it. The second invariant needs the good states to be kept. -/
theorem always_iff_meets {good inv : State → Prop}
    (keep : ∀ s a t, good s → inv s → step s a t → inv t)
    (exact_step : ∀ s a t, good s → inv s → step s a t → (good t ↔ ok s a))
    (run : Path step s path) (start : good s) (base : inv s) :
    (∀ u ∈ visited s path, good u) ↔ Meets ok s path := by
  induction run with
  | stop => simpa using start
  | @next s a t rest hstep _ ih =>
    have hinv : inv t := keep s a t start base hstep
    rw [visited_cons, meets_cons, List.forall_mem_cons]
    constructor
    · rintro ⟨_, later⟩
      have ht : good t := later t (by simp [visited])
      exact ⟨(exact_step s a t start base hstep).mp ht, (ih ht hinv).mp later⟩
    · rintro ⟨hok, hmeets⟩
      have ht : good t := (exact_step s a t start base hstep).mpr hok
      exact ⟨start, (ih ht hinv).mpr hmeets⟩

/-- A run meets a condition that its steps give it, one after the other, from an invariant. -/
theorem meets_of_meets {inv : State → Prop} {other : State → Action → Prop}
    (keep : ∀ s a t, inv s → ok s a → step s a t → inv t)
    (enough : ∀ s a, inv s → other s a) (run : Path step s path) (start : inv s)
    (meets : Meets ok s path) : Meets other s path := by
  induction run with
  | stop => trivial
  | @next s a t rest hstep _ ih =>
    exact ⟨enough s a start, ih (keep s a t start meets.1 hstep) meets.2⟩

variable {before after : List (Action × State)}

theorem visited_prefix (h : t ∈ visited s before) : t ∈ visited s (before ++ after) := by
  induction before generalizing s with
  | nil =>
    rw [visited_nil, List.mem_singleton] at h
    simp [h, visited]
  | cons head before ih =>
    rcases List.mem_cons.mp h with rfl | h
    · exact List.mem_cons_self
    · exact List.mem_cons_of_mem _ (ih h)

/-- A property of all the states of a run may be used as part of the condition on its steps. -/
theorem meets_and_visited {holds : State → Prop} (meets : Meets ok s path)
    (all : ∀ u ∈ visited s path, holds u) : Meets (fun s a => ok s a ∧ holds s) s path := by
  induction path generalizing s with
  | nil => trivial
  | cons head rest ih =>
    obtain ⟨hhead, hrest⟩ := List.forall_mem_cons.mp all
    exact ⟨⟨meets.1, hhead⟩, ih meets.2 hrest⟩

theorem meets_of_visited {holds : State → Prop} (all : ∀ u ∈ visited s path, holds u) :
    Meets (fun s _ => holds s) s path := by
  induction path generalizing s with
  | nil => trivial
  | cons head rest ih =>
    obtain ⟨hhead, hrest⟩ := List.forall_mem_cons.mp all
    exact ⟨hhead, ih hrest⟩

theorem step_of_split (run : Path step s (before ++ (a, t) :: after)) :
    step (final s before) a t := by
  induction before generalizing s with
  | nil =>
    cases run with
    | next hstep _ => exact hstep
  | cons head before ih =>
    cases run with
    | next _ hrest => exact ih hrest

theorem path_of_append (run : Path step s (before ++ after)) : Path step s before := by
  induction before generalizing s with
  | nil => exact Path.stop
  | cons head before ih =>
    cases run with
    | next hstep hrest => exact Path.next hstep (ih hrest)

theorem meets_of_split (meets : Meets ok s (before ++ (a, t) :: after)) :
    ok (final s before) a := by
  induction before generalizing s with
  | nil => exact meets.1
  | cons head before ih => exact ih meets.2

/-- When a run does not keep what every step before it keeps, one of its steps does not. -/
theorem exists_changing_step {related : State → State → Prop} (refl : ∀ s, related s s)
    (trans : ∀ s t u, related s t → related t u → related s u) (run : Path step s path)
    (changed : ¬related s (final s path)) :
    ∃ before a t after, path = before ++ (a, t) :: after ∧ ¬related (final s before) t := by
  induction run with
  | @stop s => exact absurd (refl s) changed
  | @next s a t rest hstep hrest ih =>
    by_cases hkept : related s t
    · obtain ⟨before, b, u, after, hsplit, hchanged⟩ :=
        ih fun hlater => changed (trans s t (final t rest) hkept hlater)
      exact ⟨(a, t) :: before, b, u, after, by rw [hsplit, List.cons_append], hchanged⟩
    · exact ⟨[], a, t, rest, rfl, hkept⟩

theorem path_of_suffix (run : Path step s (before ++ after)) :
    Path step (final s before) after := by
  induction before generalizing s with
  | nil => exact run
  | cons head before ih =>
    cases run with
    | next _ hrest => exact ih hrest

end StepPath
