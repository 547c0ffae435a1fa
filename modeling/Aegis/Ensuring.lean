import Aegis.Raising

namespace Raising

variable {State Inner Error Value Result : Type}

open Proc

/-- From a state that meets `pre` the procedure returns into `post` or raises into `fails`. -/
def Ensures (pre : State → Prop) (p : Proc State Error Value) (post : Value → State → Prop)
    (fails : State → Prop) : Prop :=
  ∀ s, pre s → (∀ a t, p s = (.ok a, t) → post a t) ∧ ∀ e t, p s = (.error e, t) → fails t

section Ensures

variable {pre middle fails : State → Prop} {p : Proc State Error Value}
  {f : Value → Proc State Error Result} {post : Value → State → Prop}
  {postResult : Result → State → Prop}

theorem ensures_pure {a : Value} (h : ∀ s, pre s → post a s) :
    Ensures pre (pure a : Proc State Error Value) post fails := by
  intro s hs
  refine ⟨fun b t hb => ?_, fun e t he => ?_⟩
  · cases hb
    exact h s hs
  · cases he

theorem ensures_bind (first : Ensures pre p post fails)
    (second : ∀ a, Ensures (post a) (f a) postResult fails) :
    Ensures pre (p >>= f) postResult fails := by
  intro s hs
  obtain ⟨hok, herror⟩ := first s hs
  constructor
  · intro b u hb
    obtain ⟨a, t, ha, hf⟩ := bind_eq_ok.mp hb
    exact (second a t (hok a t ha)).1 b u hf
  · intro e u he
    rcases bind_eq_error.mp he with hp | ⟨a, t, ha, hf⟩
    · exact herror e u hp
    · exact (second a t (hok a t ha)).2 e u hf

theorem ensures_fromExcept {x : Except Error Value} (ok : ∀ a, x = .ok a → ∀ s, pre s → post a s)
    (error : ∀ s, pre s → fails s) :
    Ensures pre (fromExcept x : Proc State Error Value) post fails := by
  intro s hs
  cases x with
  | ok a =>
    refine ⟨fun b t hb => ?_, fun e t he => ?_⟩
    · cases hb
      exact ok a rfl s hs
    · cases he
  | error e =>
    refine ⟨fun b t hb => ?_, fun e t he => ?_⟩
    · cases hb
    · cases he
      exact error s hs

/-- A procedure that always leaves a related state keeps what the relation keeps. -/
theorem ensures_of_leaves {related : State → State → Prop} (h : Leaves related p)
    (keeps : ∀ s t, related s t → pre s → middle t) :
    Ensures pre p (fun _ => middle) middle :=
  fun s hs => ⟨fun _ t ht => keeps s t (leaves_eq h ht) hs,
    fun _ t ht => keeps s t (leaves_eq h ht) hs⟩

theorem leaves_of_ensures (h : Ensures pre p (fun _ => pre) pre) :
    Leaves (fun s t => pre s → pre t) p := by
  intro s hs
  obtain ⟨hok, herror⟩ := h s hs
  rcases hp : p s with ⟨e | a, t⟩
  · exact herror e t hp
  · exact hok a t hp

theorem ensures_capture (h : Ensures pre p post fails) :
    Ensures pre (capture p)
      (fun ended t => (∀ a, ended = .ok a → post a t) ∧ ∀ e, ended = .error e → fails t)
      fails := by
  intro s hs
  obtain ⟨hok, herror⟩ := h s hs
  refine ⟨fun ended t hended => ?_, fun e t he => ?_⟩
  · cases hended
    exact ⟨fun a ha => hok a _ (Prod.ext ha rfl), fun e he => herror e _ (Prod.ext he rfl)⟩
  · cases he

theorem ensures_attempt {handler : Error → Proc State Error Value}
    (first : Ensures pre p post middle) (second : ∀ e, Ensures middle (handler e) post fails) :
    Ensures pre (attempt p handler) post fails := by
  intro s hs
  obtain ⟨hok, herror⟩ := first s hs
  unfold attempt
  rcases hp : p s with ⟨e | a, t⟩
  · exact second e t (herror e t hp)
  · refine ⟨fun b u hb => ?_, fun e u he => ?_⟩
    · cases hb
      exact hok a t hp
    · cases he

end Ensures

theorem mapError_eq_ok {Told : Type} {g : Told → Error} {x : Except Told Value} {a : Value}
    (h : x.mapError g = .ok a) : x = .ok a := by
  cases x with
  | error told => cases h
  | ok b =>
    cases h
    rfl

theorem returns_mapEach_mem {Item : Type} {g : Item → Proc State Error Value}
    {post : Value → Prop} {items : List Item} (each : ∀ item ∈ items, Returns (g item) post) :
    Returns (mapEach g items) fun values => ∀ a ∈ values, post a := by
  induction items with
  | nil =>
    intro s a t h
    cases h
    simp
  | cons item rest ih =>
    obtain ⟨hitem, hrest⟩ := List.forall_mem_cons.mp each
    intro s values u h
    obtain ⟨a, t, ha, h⟩ := bind_eq_ok.mp h
    obtain ⟨others, t', hothers, h⟩ := bind_eq_ok.mp h
    cases h
    exact List.forall_mem_cons.mpr ⟨hitem s a t ha, ih hrest t others _ hothers⟩

end Raising
