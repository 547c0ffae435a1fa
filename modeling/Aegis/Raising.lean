import Mathlib.Data.List.Basic

namespace Raising

variable {State Inner Error Value Result : Type}

/-- A procedure on a state that may raise. What it did to the state before it raised stays. -/
def Proc (State Error Value : Type) := State → Except Error Value × State

namespace Proc

def bind (p : Proc State Error Value) (f : Value → Proc State Error Result) :
    Proc State Error Result := fun s =>
  match p s with
  | (.ok a, t) => f a t
  | (.error e, t) => (.error e, t)

instance : Monad (Proc State Error) where
  pure a := fun s => (.ok a, s)
  bind := bind

def raise (e : Error) : Proc State Error Value := fun s => (.error e, s)

def fromExcept : Except Error Value → Proc State Error Value
  | .ok a => pure a
  | .error e => raise e

/-- A value drawn from the state, such as a clock reading. -/
def draw (f : State → Value × State) : Proc State Error Value := fun s => (.ok (f s).1, (f s).2)

def read (f : State → Value) : Proc State Error Value := fun s => (.ok (f s), s)

def update (f : State → State) : Proc State Error Unit := fun s => (.ok (), f s)

/-- Run a procedure; the handler goes on from the state in which it raised. -/
def attempt (p : Proc State Error Value) (handler : Error → Proc State Error Value) :
    Proc State Error Value := fun s =>
  match p s with
  | (.ok a, t) => (.ok a, t)
  | (.error e, t) => handler e t

/-- Run a procedure and hand on how it ended. -/
def capture (p : Proc State Error Value) : Proc State Error (Except Error Value) := fun s =>
  (.ok (p s).1, (p s).2)

/-- A procedure on a part of the state. -/
def within (get : State → Inner) (set : State → Inner → State) (p : Proc Inner Error Value) :
    Proc State Error Value := fun s =>
  ((p (get s)).1, set s (p (get s)).2)

def mapEach {Item : Type} (f : Item → Proc State Error Value) :
    List Item → Proc State Error (List Value)
  | [] => pure []
  | item :: rest => do
    let a ← f item
    let others ← mapEach f rest
    pure (a :: others)

def forEach {Item : Type} (f : Item → Proc State Error Unit) : List Item → Proc State Error Unit
  | [] => pure ()
  | item :: rest => do
    f item
    forEach f rest

end Proc

open Proc

/-- However the procedure ends, the state it leaves is related to the one it started in. -/
def Leaves (related : State → State → Prop) (p : Proc State Error Value) : Prop :=
  ∀ s, related s (p s).2

/-- Every value the procedure returns meets the condition. -/
def Returns (p : Proc State Error Value) (post : Value → Prop) : Prop :=
  ∀ s a t, p s = (.ok a, t) → post a

variable {related : State → State → Prop} {p : Proc State Error Value}
  {f : Value → Proc State Error Result} {s t u : State}

theorem bind_apply : (p >>= f) s = match p s with
    | (.ok a, t) => f a t
    | (.error e, t) => (.error e, t) := rfl

@[simp] theorem pure_apply (a : Value) : (pure a : Proc State Error Value) s = (.ok a, s) := rfl

theorem bind_pure_apply (p : Proc State Error Value) : (p >>= pure) = p := by
  funext s
  rw [bind_apply]
  rcases p s with ⟨_ | a, t⟩ <;> rfl

theorem bind_bind {Last : Type} (p : Proc State Error Value) (f : Value → Proc State Error Result)
    (g : Result → Proc State Error Last) : (p >>= f) >>= g = p >>= fun a => f a >>= g := by
  funext s
  simp only [bind_apply]
  rcases p s with ⟨_ | a, t⟩ <;> rfl

instance : LawfulMonad (Proc State Error) :=
  LawfulMonad.mk' _ bind_pure_apply (fun _ _ => rfl) bind_bind

@[simp] theorem raise_bind (e : Error) (f : Value → Proc State Error Result) :
    raise e >>= f = raise e := rfl

theorem bind_of_ok {a : Value} (h : p s = (.ok a, t)) : (p >>= f) s = f a t := by
  rw [bind_apply, h]

theorem bind_of_error {e : Error} (h : p s = (.error e, t)) : (p >>= f) s = (.error e, t) := by
  rw [bind_apply, h]

theorem bind_eq_ok {b : Result} :
    (p >>= f) s = (.ok b, u) ↔ ∃ a t, p s = (.ok a, t) ∧ f a t = (.ok b, u) := by
  rw [bind_apply]
  constructor
  · intro h
    rcases hp : p s with ⟨_ | a, t⟩
    · simp [hp] at h
    · exact ⟨a, t, rfl, by simpa [hp] using h⟩
  · rintro ⟨a, t, hp, hf⟩
    rw [hp]
    exact hf

theorem fst_bind_eq_ok {b : Result} (h : ((p >>= f) s).1 = .ok b) :
    ∃ a t, p s = (.ok a, t) ∧ (f a t).1 = .ok b := by
  rw [bind_apply] at h
  rcases hp : p s with ⟨_ | a, t⟩
  · simp [hp] at h
  · exact ⟨a, t, rfl, by simpa [hp] using h⟩

/-- A sequence fails in its first part or, after that has returned, in its second. -/
theorem bind_eq_error {e : Error} :
    (p >>= f) s = (.error e, u) ↔
      p s = (.error e, u) ∨ ∃ a t, p s = (.ok a, t) ∧ f a t = (.error e, u) := by
  rw [bind_apply]
  rcases hp : p s with ⟨_ | a, t⟩ <;> simp

theorem fromExcept_eq_ok {x : Except Error Value} {a : Value} :
    (fromExcept x : Proc State Error Value) s = (.ok a, t) ↔ x = .ok a ∧ s = t := by
  cases x with
  | ok b => simp [fromExcept]
  | error e => simp [fromExcept, raise]

theorem leaves_eq {a : Except Error Value} (h : Leaves related p) (hp : p s = (a, t)) :
    related s t := by
  have := h s
  rwa [hp] at this

section Rules

variable (refl : ∀ s, related s s) (trans : ∀ s t u, related s t → related t u → related s u)

include refl in
theorem leaves_pure (a : Value) : Leaves related (pure a : Proc State Error Value) := refl

include refl in
theorem leaves_raise (e : Error) : Leaves related (raise e : Proc State Error Value) := refl

include refl in
theorem leaves_fromExcept (x : Except Error Value) :
    Leaves related (fromExcept x : Proc State Error Value) := by
  cases x with
  | ok a => exact refl
  | error e => exact refl

include refl in
theorem leaves_read (f : State → Value) : Leaves related (read f : Proc State Error Value) := refl

include trans in
theorem leaves_bind (first : Leaves related p) (second : ∀ a, Leaves related (f a)) :
    Leaves related (p >>= f) := by
  intro s
  have hfirst := first s
  rw [bind_apply]
  rcases hp : p s with ⟨_ | a, t⟩
  · simpa [hp] using hfirst
  · rw [hp] at hfirst
    exact trans _ _ _ hfirst (second a t)

include trans in
theorem leaves_attempt {handler : Error → Proc State Error Value} (first : Leaves related p)
    (second : ∀ e, Leaves related (handler e)) : Leaves related (attempt p handler) := by
  intro s
  have hfirst := first s
  unfold attempt
  rcases hp : p s with ⟨e | a, t⟩
  · rw [hp] at hfirst
    exact trans _ _ _ hfirst (second e t)
  · simpa [hp] using hfirst

include refl trans in
theorem leaves_forEach {Item : Type} {f : Item → Proc State Error Unit}
    (each : ∀ item, Leaves related (f item)) (items : List Item) :
    Leaves related (forEach f items) := by
  induction items with
  | nil => exact refl
  | cons item rest ih => exact leaves_bind trans (each item) fun _ => ih

end Rules

theorem leaves_update {f : State → State} (h : ∀ s, related s (f s)) :
    Leaves related (update f : Proc State Error Unit) := h

theorem leaves_capture (h : Leaves related p) : Leaves related (capture p) := h

theorem leaves_within {get : State → Inner} {set : State → Inner → State}
    {q : Proc Inner Error Value} (h : ∀ s inner, related s (set s inner)) :
    Leaves related (within get set q) := fun s => h s _

theorem within_eq_ok {get : State → Inner} {set : State → Inner → State}
    {q : Proc Inner Error Value} {a : Value} :
    within get set q s = (.ok a, t) ↔ ∃ inner, q (get s) = (.ok a, inner) ∧ t = set s inner := by
  unfold within
  rcases q (get s) with ⟨r, inner⟩
  constructor
  · intro h
    obtain ⟨rfl, rfl⟩ := Prod.mk.inj h
    exact ⟨inner, rfl, rfl⟩
  · rintro ⟨other, h, rfl⟩
    obtain ⟨rfl, rfl⟩ := Prod.mk.inj h
    rfl

/-- A loop that returns, item by item. -/
theorem forEach_ok {Item : Type} {f : Item → Proc State Error Unit}
    {did : List Item → State → State → Prop} (stop : ∀ s, did [] s s)
    (next : ∀ item rest s t u, f item s = (.ok (), t) → did rest t u → did (item :: rest) s u)
    {items : List Item} {s u : State} (h : forEach f items s = (.ok (), u)) :
    did items s u := by
  induction items generalizing s with
  | nil =>
    cases h
    exact stop _
  | cons item rest ih =>
    obtain ⟨_, t, hitem, hrest⟩ := bind_eq_ok.mp h
    exact next item rest s t u hitem (ih hrest)

/-- A loop returns when, under an invariant of the items still to come, each of its steps does. -/
theorem forEach_returns {Item : Type} {f : Item → Proc State Error Unit}
    {inv : List Item → State → Prop}
    (next : ∀ item rest s, inv (item :: rest) s → ∃ t, f item s = (.ok (), t) ∧ inv rest t)
    {items : List Item} {s : State} (h : inv items s) :
    ∃ t, forEach f items s = (.ok (), t) ∧ inv [] t := by
  induction items generalizing s with
  | nil => exact ⟨s, rfl, h⟩
  | cons item rest ih =>
    obtain ⟨t, hitem, ht⟩ := next item rest s h
    obtain ⟨u, hrest, hu⟩ := ih ht
    exact ⟨u, (bind_of_ok hitem).trans hrest, hu⟩

variable {post : Value → Prop} {postResult : Result → Prop}

theorem returns_bind (h : ∀ a, Returns (f a) postResult) : Returns (p >>= f) postResult := by
  intro s b u hb
  obtain ⟨a, t, _, hf⟩ := bind_eq_ok.mp hb
  exact h a t b u hf

theorem returns_within {get : State → Inner} {set : State → Inner → State}
    {q : Proc Inner Error Value} (h : Returns q post) : Returns (within get set q) post := by
  intro s a t hq
  obtain ⟨inner, hq, _⟩ := within_eq_ok.mp hq
  exact h _ a inner hq

theorem returns_mapEach {Item : Type} {g : Item → Proc State Error Value}
    (each : ∀ item, Returns (g item) post) (items : List Item) :
    Returns (mapEach g items) fun values => ∀ a ∈ values, post a := by
  induction items with
  | nil =>
    intro s a t h
    cases h
    simp
  | cons item rest ih =>
    intro s values u h
    obtain ⟨a, t, ha, h⟩ := bind_eq_ok.mp h
    obtain ⟨others, t', hothers, h⟩ := bind_eq_ok.mp h
    cases h
    exact List.forall_mem_cons.mpr ⟨each item s a t ha, ih t others _ hothers⟩

/-- The procedure always returns, and with a value that meets the condition. -/
def Yields (p : Proc State Error Value) (post : Value → Prop) : Prop :=
  ∀ s, ∃ a t, p s = (.ok a, t) ∧ post a

theorem yields_pure {a : Value} (h : post a) : Yields (pure a : Proc State Error Value) post :=
  fun s => ⟨a, s, rfl, h⟩

theorem yields_draw (g : State → Value × State) :
    Yields (draw g : Proc State Error Value) fun _ => True :=
  fun s => ⟨(g s).1, (g s).2, rfl, trivial⟩

theorem yields_bind (first : Yields p post) (second : ∀ a, post a → Yields (f a) postResult) :
    Yields (p >>= f) postResult := by
  intro s
  obtain ⟨a, t, hp, ha⟩ := first s
  obtain ⟨b, u, hf, hb⟩ := second a ha t
  exact ⟨b, u, by rw [bind_of_ok hp, hf], hb⟩

theorem yields_capture (p : Proc State Error Value) :
    Yields (capture p) fun ended => ∃ s, (p s).1 = ended :=
  fun s => ⟨(p s).1, (p s).2, rfl, s, rfl⟩

theorem yields_attempt {handler : Error → Proc State Error Value}
    (returned : Returns p post) (handled : ∀ e, Yields (handler e) post) :
    Yields (attempt p handler) post := by
  intro s
  unfold attempt
  rcases h : p s with ⟨e | a, t⟩
  · exact handled e t
  · exact ⟨a, t, rfl, returned s a t h⟩

theorem yields_within {get : State → Inner} {set : State → Inner → State}
    {q : Proc Inner Error Value} (h : Yields q post) : Yields (within get set q) post := by
  intro s
  obtain ⟨a, inner, hq, ha⟩ := h (get s)
  exact ⟨a, set s inner, within_eq_ok.mpr ⟨inner, hq, rfl⟩, ha⟩

theorem yields_mapEach_pairs {Item : Type} {g : Item → Proc State Error Value}
    {pair : Item → Value → Prop} (each : ∀ item, Yields (g item) (pair item))
    (items : List Item) : Yields (mapEach g items) (List.Forall₂ pair items) := by
  induction items with
  | nil => exact yields_pure List.Forall₂.nil
  | cons item rest ih =>
    refine yields_bind (each item) fun a ha => yields_bind ih fun others hothers => ?_
    exact yields_pure (List.Forall₂.cons ha hothers)

theorem yields_mapEach {Item : Type} {g : Item → Proc State Error Value}
    (each : ∀ item, Yields (g item) post) (items : List Item) :
    Yields (mapEach g items) fun values =>
      values.length = items.length ∧ ∀ a ∈ values, post a := by
  induction items with
  | nil => exact yields_pure ⟨rfl, by simp⟩
  | cons item rest ih =>
    refine yields_bind (each item) fun a ha => yields_bind ih fun others hothers => ?_
    exact yields_pure ⟨by simp [hothers.1], List.forall_mem_cons.mpr ⟨ha, hothers.2⟩⟩

/-- A loop keeps an invariant of what it has gone through. -/
theorem yields_foldlM {Item : Type} {g : Value → Item → Proc State Error Value}
    {inv : List Item → Value → Prop} {items done : List Item} {a : Value}
    (each : ∀ done a, ∀ item ∈ items, inv done a → Yields (g a item) (inv (done ++ [item])))
    (start : inv done a) : Yields (items.foldlM g a) (inv (done ++ items)) := by
  induction items generalizing done a with
  | nil =>
    rw [List.append_nil]
    exact yields_pure start
  | cons item items ih =>
    rw [List.foldlM_cons]
    refine yields_bind (each done a item List.mem_cons_self start) fun b hb => ?_
    have hrest := ih (fun done a item hitem => each done a item (List.mem_cons_of_mem _ hitem)) hb
    rwa [List.append_assoc, List.singleton_append] at hrest

/-- Every error the procedure raises meets the condition. -/
def Raises (p : Proc State Error Value) (post : Error → Prop) : Prop :=
  ∀ s e t, p s = (.error e, t) → post e

section Raises

variable {postError : Error → Prop}

theorem raises_pure (a : Value) : Raises (pure a : Proc State Error Value) postError := by
  intro s e t h
  cases h

theorem raises_raise {e : Error} (h : postError e) :
    Raises (raise e : Proc State Error Value) postError := by
  intro s e' t hraise
  cases hraise
  exact h

theorem raises_read (g : State → Value) : Raises (read g : Proc State Error Value) postError := by
  intro s e t h
  cases h

theorem raises_update (g : State → State) :
    Raises (update g : Proc State Error Unit) postError := by
  intro s e t h
  cases h

theorem raises_bind (first : Raises p postError) (second : ∀ a, Raises (f a) postError) :
    Raises (p >>= f) postError := by
  intro s e u h
  rcases bind_eq_error.mp h with hp | ⟨a, t, _, hf⟩
  · exact first s e u hp
  · exact second a t e u hf

end Raises

/-- Two runs from states that look alike return the same and leave states that look alike. -/
def Respects (alike : State → State → Prop) (p : Proc State Error Value) : Prop :=
  ∀ s t, alike s t → (p s).1 = (p t).1 ∧ alike (p s).2 (p t).2

section Respects

variable {alike : State → State → Prop} {p : Proc State Error Value}
  {f : Value → Proc State Error Result}

theorem respects_pure (a : Value) : Respects alike (pure a : Proc State Error Value) :=
  fun _ _ h => ⟨rfl, h⟩

theorem respects_fromExcept (x : Except Error Value) :
    Respects alike (fromExcept x : Proc State Error Value) := by
  cases x with
  | ok a => exact fun _ _ h => ⟨rfl, h⟩
  | error e => exact fun _ _ h => ⟨rfl, h⟩

theorem respects_raise (e : Error) : Respects alike (raise e : Proc State Error Value) :=
  fun _ _ h => ⟨rfl, h⟩

theorem respects_read {g : State → Value} (h : ∀ s t, alike s t → g s = g t) :
    Respects alike (read g : Proc State Error Value) :=
  fun s t hst => ⟨congrArg Except.ok (h s t hst), hst⟩

theorem respects_update {g : State → State} (h : ∀ s t, alike s t → alike (g s) (g t)) :
    Respects alike (update g : Proc State Error Unit) := fun s t hst => ⟨rfl, h s t hst⟩

theorem respects_bind (first : Respects alike p) (second : ∀ a, Respects alike (f a)) :
    Respects alike (p >>= f) := by
  intro s t h
  obtain ⟨hvalue, hstate⟩ := first s t h
  rw [bind_apply, bind_apply]
  rcases hs : p s with ⟨_ | a, s'⟩ <;> rcases ht : p t with ⟨_ | b, t'⟩ <;>
    rw [hs, ht] at hvalue hstate <;> cases hvalue
  · exact ⟨rfl, hstate⟩
  · exact second a s' t' hstate

theorem respects_attempt {handler : Error → Proc State Error Value} (first : Respects alike p)
    (second : ∀ e, Respects alike (handler e)) : Respects alike (attempt p handler) := by
  intro s t h
  obtain ⟨hvalue, hstate⟩ := first s t h
  unfold attempt
  rcases hs : p s with ⟨e | a, s'⟩ <;> rcases ht : p t with ⟨e' | b, t'⟩ <;>
    rw [hs, ht] at hvalue hstate <;> cases hvalue
  · exact second e s' t' hstate
  · exact ⟨rfl, hstate⟩

theorem respects_forEach {Item : Type} {g : Item → Proc State Error Unit}
    (each : ∀ item, Respects alike (g item)) (items : List Item) :
    Respects alike (forEach g items) := by
  induction items with
  | nil => exact respects_pure ()
  | cons item rest ih => exact respects_bind (each item) fun _ => ih

theorem respects_capture (h : Respects alike p) : Respects alike (capture p) := by
  intro s t hst
  obtain ⟨hvalue, hstate⟩ := h s t hst
  exact ⟨congrArg Except.ok hvalue, hstate⟩

theorem respects_eq (p : Proc State Error Value) : Respects Eq p := by
  rintro s t rfl
  exact ⟨rfl, rfl⟩

/-- A procedure on a part of the state, where the parts of states that look alike do so too. -/
theorem respects_part {alikeInner : Inner → Inner → Prop} {get : State → Inner}
    {set : State → Inner → State} {q : Proc Inner Error Value} (h : Respects alikeInner q)
    (hget : ∀ s t, alike s t → alikeInner (get s) (get t))
    (hset : ∀ s t a b, alike s t → alikeInner a b → alike (set s a) (set t b)) :
    Respects alike (within get set q) := by
  intro s t hst
  obtain ⟨hvalue, hinner⟩ := h _ _ (hget s t hst)
  exact ⟨hvalue, hset s t _ _ hst hinner⟩

theorem respects_within {get : State → Inner} {set : State → Inner → State}
    {q : Proc Inner Error Value} (hget : ∀ s t, alike s t → get s = get t)
    (hset : ∀ s t inner, alike s t → alike (set s inner) (set t inner)) :
    Respects alike (within get set q) := by
  refine respects_part (@respects_eq _ _ _ q) hget fun s t a b h heq => ?_
  subst heq
  exact hset s t a h

end Respects

end Raising
