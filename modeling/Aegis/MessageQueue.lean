import Mathlib.Data.List.Nodup
import Mathlib.Data.List.Basic

namespace MessageQueue

variable {Body : Type*}

/-- A message of a queue: how often it was received, and whether its visibility timeout runs. -/
structure Message (Body : Type*) where
  id : Nat
  body : Body
  receives : Nat
  hidden : Bool

/-- A queue with its dead-letter queue, and how many messages were ever sent to it. -/
structure Queue (Body : Type*) where
  messages : List (Message Body)
  dead : List (Message Body)
  sent : Nat

inductive Action (Body : Type*) where
  | send (body : Body)
  | receive (id : Nat)
  | expire (id : Nat)
  | redrive (id : Nat)
  | delete (id : Nat)

namespace Queue

def empty : Queue Body := ⟨[], [], 0⟩

def send (q : Queue Body) (body : Body) : Queue Body :=
  { q with messages := q.messages ++ [⟨q.sent, body, 0, false⟩], sent := q.sent + 1 }

def edit (q : Queue Body) (id : Nat) (change : Message Body → Message Body) : Queue Body :=
  { q with messages := q.messages.map fun message =>
      if message.id = id then change message else message }

/-- A receive counts, and starts the visibility timeout. -/
def receive (q : Queue Body) (id : Nat) : Queue Body :=
  q.edit id fun message => { message with receives := message.receives + 1, hidden := true }

/-- The visibility timeout ends. -/
def expire (q : Queue Body) (id : Nat) : Queue Body :=
  q.edit id fun message => { message with hidden := false }

def redrive (q : Queue Body) (id : Nat) : Queue Body :=
  { q with
    messages := q.messages.filter fun message => message.id ≠ id
    dead := q.dead ++ q.messages.filter fun message => message.id = id }

def delete (q : Queue Body) (id : Nat) : Queue Body :=
  { q with messages := q.messages.filter fun message => message.id ≠ id }

def apply (q : Queue Body) : Action Body → Queue Body
  | .send body => q.send body
  | .receive id => q.receive id
  | .expire id => q.expire id
  | .redrive id => q.redrive id
  | .delete id => q.delete id

/-- All that is kept, alive or dead. -/
def kept (q : Queue Body) : List (Message Body) := q.messages ++ q.dead

end Queue

/-- What a queue that redrives a message after `limit` receives may do. A message may be handed out
again while its timeout runs, and a delete may be of a message that is no longer there. -/
inductive Step (limit : Nat) (q : Queue Body) : Action Body → Queue Body → Prop
  | send (body : Body) : Step limit q (.send body) (q.send body)
  | receive {message : Message Body} (there : message ∈ q.messages)
      (fewer : message.receives < limit) :
      Step limit q (.receive message.id) (q.receive message.id)
  | expire (id : Nat) : Step limit q (.expire id) (q.expire id)
  | redrive {message : Message Body} (there : message ∈ q.messages)
      (visible : message.hidden = false) (spent : limit ≤ message.receives) :
      Step limit q (.redrive message.id) (q.redrive message.id)
  | delete (id : Nat) : Step limit q (.delete id) (q.delete id)

/-- Every message has an id of its own and was received `limit` times at most, and all the receives
of a dead one were used up. -/
structure Sound (limit : Nat) (q : Queue Body) : Prop where
  ids : (q.kept.map Message.id).Nodup
  sent : ∀ message ∈ q.kept, message.id < q.sent
  receives : ∀ message ∈ q.kept, message.receives ≤ limit
  spent : ∀ message ∈ q.dead, message.receives = limit

variable {limit : Nat} {q r : Queue Body} {a : Action Body} {id : Nat} {message : Message Body}
  {change : Message Body → Message Body}

@[simp] theorem mem_kept : message ∈ q.kept ↔ message ∈ q.messages ∨ message ∈ q.dead :=
  List.mem_append

theorem sound_empty : Sound limit (Queue.empty : Queue Body) where
  ids := List.nodup_nil
  sent := by simp [Queue.empty]
  receives := by simp [Queue.empty]
  spent := by simp [Queue.empty]

theorem mem_edit {other : Message Body} (h : other ∈ (q.edit id change).messages) :
    other ∈ q.messages ∨ ∃ message ∈ q.messages, message.id = id ∧ other = change message := by
  obtain ⟨message, hmem, rfl⟩ := List.mem_map.mp h
  split
  next hid => exact .inr ⟨message, hmem, hid, rfl⟩
  next => exact .inl hmem

theorem edit_ids (keeps : ∀ message, (change message).id = message.id) :
    (q.edit id change).kept.map Message.id = q.kept.map Message.id := by
  unfold Queue.kept Queue.edit
  dsimp only
  rw [List.map_append, List.map_append, List.map_map]
  congr 1
  refine List.map_congr_left fun message _ => ?_
  change (if message.id = id then change message else message).id = message.id
  split
  · exact keeps message
  · rfl

theorem sound_edit (h : Sound limit q) (keeps : ∀ message, (change message).id = message.id)
    (within : ∀ message ∈ q.messages, message.id = id → (change message).receives ≤ limit) :
    Sound limit (q.edit id change) := by
  refine ⟨by rw [edit_ids keeps]; exact h.ids, fun message hmem => ?_, fun message hmem => ?_,
    h.spent⟩
  · rcases mem_kept.mp hmem with hmem | hmem
    · rcases mem_edit hmem with hmem | ⟨old, hold, _, rfl⟩
      · exact h.sent message (mem_kept.mpr (.inl hmem))
      · rw [keeps]
        exact h.sent old (mem_kept.mpr (.inl hold))
    · exact h.sent message (mem_kept.mpr (.inr hmem))
  · rcases mem_kept.mp hmem with hmem | hmem
    · rcases mem_edit hmem with hmem | ⟨old, hold, hid, rfl⟩
      · exact h.receives message (mem_kept.mpr (.inl hmem))
      · exact within old hold hid
    · exact h.receives message (mem_kept.mpr (.inr hmem))

theorem sound_send (h : Sound limit q) (body : Body) : Sound limit (q.send body) := by
  have split : ∀ message, message ∈ (q.send body).kept →
      message ∈ q.kept ∨ message = ⟨q.sent, body, 0, false⟩ := by
    intro message hmem
    rcases mem_kept.mp hmem with hmem | hmem
    · rcases List.mem_append.mp hmem with hmem | hmem
      · exact .inl (mem_kept.mpr (.inl hmem))
      · exact .inr (List.mem_singleton.mp hmem)
    · exact .inl (mem_kept.mpr (.inr hmem))
  have fresh : q.sent ∉ q.kept.map Message.id := by
    intro hmem
    obtain ⟨message, hmessage, hid⟩ := List.mem_map.mp hmem
    have := h.sent message hmessage
    omega
  refine ⟨?_, fun message hmem => ?_, fun message hmem => ?_, h.spent⟩
  · have hperm : (q.send body).kept.Perm (⟨q.sent, body, 0, false⟩ :: q.kept) := by
      unfold Queue.kept Queue.send
      dsimp only
      rw [List.append_assoc]
      exact List.perm_middle
    rw [(hperm.map Message.id).nodup_iff]
    exact List.nodup_cons.mpr ⟨fresh, h.ids⟩
  · rcases split message hmem with hmem | rfl
    · exact Nat.lt_succ_of_lt (h.sent message hmem)
    · exact Nat.lt_succ_self _
  · rcases split message hmem with hmem | rfl
    · exact h.receives message hmem
    · exact Nat.zero_le _

/-- A message that is redriven is kept among the dead ones. -/
theorem redrive_perm (q : Queue Body) (id : Nat) : (q.redrive id).kept.Perm q.kept := by
  have hsplit := List.filter_append_perm (fun message : Message Body => decide (message.id = id))
    q.messages
  have hother : (q.messages.filter fun message => message.id ≠ id) =
      q.messages.filter fun message => !decide (message.id = id) :=
    List.filter_congr fun message _ => decide_not
  unfold Queue.kept Queue.redrive
  dsimp only
  rw [hother, ← List.append_assoc]
  refine List.perm_append_comm.trans ?_
  rw [← List.append_assoc]
  exact hsplit.append_right _

theorem sound_redrive (h : Sound limit q)
    (spent : ∀ message ∈ q.messages, message.id = id → limit ≤ message.receives) :
    Sound limit (q.redrive id) := by
  have hperm := redrive_perm q id
  refine ⟨(hperm.map Message.id).nodup_iff.mpr h.ids,
    fun message hmem => h.sent message (hperm.mem_iff.mp hmem),
    fun message hmem => h.receives message (hperm.mem_iff.mp hmem), fun message hmem => ?_⟩
  rcases List.mem_append.mp hmem with hmem | hmem
  · exact h.spent message hmem
  · obtain ⟨hthere, hid⟩ := List.mem_filter.mp hmem
    exact Nat.le_antisymm (h.receives message (mem_kept.mpr (.inl hthere)))
      (spent message hthere (of_decide_eq_true hid))

theorem sound_delete (h : Sound limit q) (id : Nat) : Sound limit (q.delete id) := by
  have hsub : (q.delete id).kept.Sublist q.kept :=
    List.filter_sublist.append_right _
  exact ⟨h.ids.sublist (hsub.map _), fun message hmem => h.sent message (hsub.subset hmem),
    fun message hmem => h.receives message (hsub.subset hmem), h.spent⟩

/-- Of all the messages that are kept, only this one has its id. -/
theorem Sound.eq_of_id (h : Sound limit q) {other : Message Body} (hmessage : message ∈ q.kept)
    (hother : other ∈ q.kept) (hid : other.id = message.id) : other = message :=
  List.inj_on_of_nodup_map h.ids hother hmessage hid

theorem sound_step (h : Sound limit q) (step : Step limit q a r) : Sound limit r := by
  cases step with
  | send body => exact sound_send h body
  | @receive message there fewer =>
    refine sound_edit h (fun _ => rfl) fun other hother hid => ?_
    rw [h.eq_of_id (mem_kept.mpr (.inl there)) (mem_kept.mpr (.inl hother)) hid]
    exact fewer
  | expire id =>
    exact sound_edit h (fun _ => rfl) fun other hother _ =>
      h.receives other (mem_kept.mpr (.inl hother))
  | @redrive message there visible spent =>
    refine sound_redrive h fun other hother hid => ?_
    rw [h.eq_of_id (mem_kept.mpr (.inl there)) (mem_kept.mpr (.inl hother)) hid]
    exact spent
  | delete id => exact sound_delete h id

/-- The bodies that are kept, each under its id. -/
def Holds (q : Queue Body) (id : Nat) (body : Body) : Prop :=
  ∃ message ∈ q.kept, message.id = id ∧ message.body = body

theorem holds_edit {other : Nat} {body : Body} (keeps : ∀ message,
    (change message).id = message.id ∧ (change message).body = message.body) :
    Holds (q.edit id change) other body ↔ Holds q other body := by
  have same : ∀ message, (if message.id = id then change message else message).id = message.id ∧
      (if message.id = id then change message else message).body = message.body := by
    intro message
    split
    · exact keeps message
    · exact ⟨rfl, rfl⟩
  constructor
  · rintro ⟨message, hmem, hid, hbody⟩
    rcases mem_kept.mp hmem with hmem | hmem
    · obtain ⟨old, hold, rfl⟩ := List.mem_map.mp hmem
      rw [(same old).1] at hid
      rw [(same old).2] at hbody
      exact ⟨old, mem_kept.mpr (.inl hold), hid, hbody⟩
    · exact ⟨message, mem_kept.mpr (.inr hmem), hid, hbody⟩
  · rintro ⟨message, hmem, hid, hbody⟩
    rcases mem_kept.mp hmem with hmem | hmem
    · exact ⟨_, mem_kept.mpr (.inl (List.mem_map.mpr ⟨message, hmem, rfl⟩)),
        (same message).1.trans hid, (same message).2.trans hbody⟩
    · exact ⟨message, mem_kept.mpr (.inr hmem), hid, hbody⟩

theorem holds_receive {other : Nat} {body : Body} :
    Holds (q.receive id) other body ↔ Holds q other body :=
  @holds_edit _ q id (fun message =>
    { message with receives := message.receives + 1, hidden := true }) _ _ fun _ => ⟨rfl, rfl⟩

theorem holds_expire {other : Nat} {body : Body} :
    Holds (q.expire id) other body ↔ Holds q other body :=
  @holds_edit _ q id (fun message => { message with hidden := false }) _ _ fun _ => ⟨rfl, rfl⟩

/-- Nothing but its own delete takes a message away. -/
theorem holds_step {body : Body} (step : Step limit q a r) (h : Holds q id body)
    (other : a ≠ .delete id) : Holds r id body := by
  cases step with
  | send sent =>
    obtain ⟨message, hmem, hid⟩ := h
    rcases mem_kept.mp hmem with hmem | hmem
    · exact ⟨message, mem_kept.mpr (.inl (List.mem_append_left _ hmem)), hid⟩
    · exact ⟨message, mem_kept.mpr (.inr hmem), hid⟩
  | receive there fewer => exact holds_receive.mpr h
  | expire id => exact holds_expire.mpr h
  | redrive there visible spent =>
    obtain ⟨message, hmem, hid⟩ := h
    exact ⟨message, (redrive_perm q _).mem_iff.mpr hmem, hid⟩
  | delete deleted =>
    obtain ⟨message, hmem, hid, hbody⟩ := h
    rcases mem_kept.mp hmem with hmem | hmem
    · have hne : message.id ≠ deleted := fun heq => other (by rw [← heq, hid])
      exact ⟨message, mem_kept.mpr (.inl (List.mem_filter.mpr ⟨hmem, decide_eq_true hne⟩)), hid,
        hbody⟩
    · exact ⟨message, mem_kept.mpr (.inr hmem), hid, hbody⟩

/-- What is kept after a step was kept before it, or has just been sent under the next id. -/
theorem holds_of_step {body : Body} (step : Step limit q a r) (h : Holds r id body) :
    Holds q id body ∨ (a = .send body ∧ id = q.sent) := by
  cases step with
  | send sent =>
    obtain ⟨message, hmem, hid, hbody⟩ := h
    rcases mem_kept.mp hmem with hmem | hmem
    · rcases List.mem_append.mp hmem with hmem | hmem
      · exact .inl ⟨message, mem_kept.mpr (.inl hmem), hid, hbody⟩
      · rw [List.mem_singleton.mp hmem] at hid hbody
        exact .inr ⟨congrArg Action.send hbody, hid.symm⟩
    · exact .inl ⟨message, mem_kept.mpr (.inr hmem), hid, hbody⟩
  | receive there fewer => exact .inl (holds_receive.mp h)
  | expire id => exact .inl (holds_expire.mp h)
  | redrive there visible spent =>
    obtain ⟨message, hmem, hid⟩ := h
    exact .inl ⟨message, (redrive_perm q _).mem_iff.mp hmem, hid⟩
  | delete deleted =>
    obtain ⟨message, hmem, hid⟩ := h
    have hsub : (q.delete deleted).kept.Sublist q.kept := List.filter_sublist.append_right _
    exact .inl ⟨message, hsub.subset hmem, hid⟩

theorem holds_send (q : Queue Body) (body : Body) : Holds (q.send body) q.sent body :=
  ⟨⟨q.sent, body, 0, false⟩, mem_kept.mpr (.inl List.mem_concat_self), rfl, rfl⟩

theorem sent_step (step : Step limit q a r) : q.sent ≤ r.sent := by
  cases step with
  | send body => exact Nat.le_succ _
  | _ => exact Nat.le_refl _

end MessageQueue
