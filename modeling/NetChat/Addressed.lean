/-
Where a message waits. In the queue of a sender or in the pool of pending
files, it is one its receiver's user is registered for and its row was stored
for: the checks and the INSERT are on the log of the turn that put it there,
or of the turn that made it pending before.
-/
import NetChat.RowIds

namespace NetChat

open Interleave DataAccess Server

variable {SHA256 : Bytes → Bytes} {ok : Config → Event → Prop} {c c' : Config} {e : Event} {m : Message}

/-- The receiver is registered, and a row has the message but for its id and content. -/
structure Backed (db : DataAccess) (m : Message) : Prop where
  receiver : ∃ u ∈ db.users, (u.user_id : Int) = m.message.to_.toInt
  row : ∃ row ∈ db.messages, row.sender_id = m.message.from_ ∧ row.receiver_id = m.message.to_ ∧
    row.type = m.message.type ∧ row.internal_id = m.internalid ∧ row.timestamp = m.timestamp

/-- **What waits is addressed and backed**: a queue holds messages one at a time,
to its own user; the pool holds messages with a file, to the user it says, under
the id of a registered file that is their content. -/
structure Addressed (c : Config) : Prop where
  queued : ∀ r p, p ∈ c.state.queue r → p.packetid = PacketType.val .ContactMessageListRequest →
    ∃ m, p = messageList m ∧ m.message.to_ = r ∧ Backed c.state.db m
  pending : ∀ f u m, c.state.file_msg_pool f = some (u, m) →
    f ∈ c.state.db.files.map FileRow.file_id ∧ hasFile m.message.type ∧ m.message.content = f ∧
      m.message.to_ = u ∧ Backed c.state.db m
  pushed : ∀ g r p, g ∈ c.history → g.act.op = .addSendTask r p →
    p.packetid = PacketType.val .ContactMessageListRequest → ∃ m, p = messageList m ∧ m.message.to_ = r

theorem Backed.steps (hb : Backed c.state.db m) (h : (server SHA256).Steps ok c c') : Backed c'.state.db m := by
  obtain ⟨u, hu, hid⟩ := hb.receiver
  obtain ⟨row, hrow, hm⟩ := hb.row
  exact ⟨⟨u, (steps_users_grow h).subset hu, hid⟩, ⟨row, (steps_messages_grow h).subset hrow, hm⟩⟩

/-- A user found by its id is there from then on. -/
theorem getUserById_past {s : State} (h : (server SHA256).ReachableWhen ok s c) (he : e ∈ c.history) {id : Int32}
    {u : User} (hx : e.act = ⟨.getUserById id, .ok (some u)⟩) :
    ∃ u ∈ c.state.db.users, (u.user_id : Int) = id.toInt := by
  obtain ⟨c₁, c₂, -, hs, -, hsteps⟩ := h.event_mem he
  have hget := hs.state
  rw [hx] at hget
  obtain ⟨row, hrow, -⟩ := Option.map_eq_some_iff.mp (State.query_ok hget).2.symm
  have hid := List.find?_some hrow
  simp only [beq_iff_eq] at hid
  exact ⟨row, ((users_grow_step hs).trans (steps_users_grow hsteps)).subset (List.mem_of_find?_eq_some hrow), hid⟩

theorem insertMessage_past {s : State} (h : (server SHA256).ReachableWhen ok s c) (he : e ∈ c.history)
    (hx : e.act = ⟨.insertMessage m, .ok 1⟩) : ∃ k, toRow m k ∈ c.state.db.messages := by
  obtain ⟨c₁, c₂, -, hs, -, hsteps⟩ := h.event_mem he
  refine ⟨c₁.state.db.messages.length + 1, (steps_messages_grow hsteps).subset ?_⟩
  rw [State.step_insertMessage_ok hs.state hx]
  simp [insertMessage]

/-- What a turn stored backs the message it goes on with, whatever content and id
that has. -/
theorem stored_backed {s : State} (h : (server SHA256).ReachableWhen ok s c) (he : e ∈ c.history)
    {q : SendMessageRequest} {msgs : List Message} {timestamp id : Int32} {content : Bytes}
    (hpre : ∃ fd conn n pkt u rowid rest,
      e.pre = received fd conn n pkt ++ (stored q u msgs timestamp rowid ++ rest)) :
    Backed c.state.db (numbered { q.message with content } msgs id timestamp) := by
  obtain ⟨fd, conn, n, pkt, u, rowid, rest, hpre⟩ := hpre
  constructor
  · have huser := h.pre_past he (x := ⟨.getUserById q.message.to_, .ok (some u)⟩)
      (p := received fd conn n pkt ++ [⟨.getUserIdByToken q.token, q.message.from_⟩]) (by rw [hpre]; rfl)
    exact getUserById_past h huser rfl
  · have hins := h.pre_past he (x := ⟨.insertMessage (numbered q.message msgs 0 timestamp), .ok 1⟩)
      (p := received fd conn n pkt ++ checked q u msgs timestamp) (by rw [hpre]; simp [stored]; rfl)
    obtain ⟨k, hrow⟩ := insertMessage_past h hins rfl
    exact ⟨_, hrow, rfl, rfl, rfl, rfl, rfl⟩

theorem pending_addressed_of_empty {s : State} (h : (server SHA256).ReachableWhen ok s c)
    (hempty : ∀ f, s.file_msg_pool f = none) {f : Bytes} {u : Int32} (hp : c.state.file_msg_pool f = some (u, m)) :
    f ∈ c.state.db.files.map FileRow.file_id ∧ hasFile m.message.type ∧ m.message.content = f ∧
      m.message.to_ = u ∧ Backed c.state.db m := by
  obtain ⟨e, he, hx⟩ := pool_set_of_empty h (hempty f) hp
  obtain ⟨c₁, c₂, h₁, hs, -, -⟩ := h.event_mem he
  have hi := hs.issues h₁
  rw [hx] at hi
  obtain ⟨i, fd, conn, n, pkt, user, msgs, timestamp, rowid, out, -, -, hf, -, rfl, rfl, hpre⟩ := issues_setFileMsg hi
  have hfile := h.pre_past he (x := ⟨.insertFile f, .ok 1⟩)
    (p := received fd conn n pkt ++ (stored (pkt.request SendMessageRequest) user msgs timestamp rowid ++
      [⟨.getUUID, f⟩])) (by rw [hpre]; simp [filed]; rfl)
  rw [filed, List.append_assoc] at hpre
  exact ⟨insertFile_past h hfile rfl, hf, rfl, rfl, stored_backed h he ⟨_, _, _, _, _, _, _, hpre⟩⟩

theorem pending_addressed (h : (server SHA256).ReachableWhen ok State.initial c) {f : Bytes} {u : Int32}
    (hp : c.state.file_msg_pool f = some (u, m)) :
    f ∈ c.state.db.files.map FileRow.file_id ∧ hasFile m.message.type ∧ m.message.content = f ∧
      m.message.to_ = u ∧ Backed c.state.db m :=
  pending_addressed_of_empty h (fun _ => rfl) hp

theorem push_addressed {s : State} (h : (server SHA256).ReachableWhen ok s c) (hempty : ∀ f, s.file_msg_pool f = none)
    (he : e ∈ c.history) {r : Int32} {p : Packet} (ho : e.act.op = .addSendTask r p)
    (hp : p.packetid = PacketType.val .ContactMessageListRequest) :
    ∃ m, p = messageList m ∧ m.message.to_ = r ∧ Backed c.state.db m := by
  obtain ⟨c₁, c₂, h₁, hs, -, -⟩ := h.event_mem he
  have hi := hs.issues h₁
  rw [ho] at hi
  obtain ⟨-, hpush⟩ := issues_push hi
  generalize hpre : e.pre = l at hpush
  cases hpush with
  | contacts => simp [contactPacket, packToPacket, PacketType.val_inj] at hp
  | notice ht hf hm =>
    subst hm
    exact ⟨_, rfl, rfl, stored_backed h he ⟨_, _, _, _, _, _, _, hpre⟩⟩
  | @forward fd conn n pkt out uid row wrote ret r m ht hr =>
    -- the pool held the message when it was asked
    have hget := h.pre_past he (x := ⟨.getFileMsg (pkt.request FileUploadRequest).id, (r, m)⟩)
      (p := received fd conn n pkt ++ (stowed (pkt.request FileUploadRequest) uid row wrote ret ++
        [⟨.Send fd (uploadResponse true), out⟩])) (by rw [hpre]; simp; rfl)
    obtain ⟨c₃, c₄, h₃, hs₃, hk₃, hsteps⟩ := h.event_mem hget
    obtain ⟨-, -, -, hto, hb⟩ := pending_addressed_of_empty h₃ hempty (getFileMsg_pool hs₃.state hr)
    exact ⟨m, rfl, hto, hb.steps (Machine.Steps.trans (.tail .refl hs₃ hk₃) hsteps)⟩

/-- **Every queued and every pending message is its receiver's and is stored**, in
every state reached. -/
theorem addressed (h : Reachable SHA256 c) : Addressed c where
  queued := by
    intro r p hp ht
    obtain ⟨e, he, hx⟩ := queue_pushed h hp
    exact push_addressed h (fun _ => rfl) he (by rw [hx]) ht
  pending := fun _ _ _ hp => pending_addressed h hp
  pushed := by
    intro g r p hg ho hp
    obtain ⟨m, hm, hto, -⟩ := push_addressed h (fun _ => rfl) hg ho hp
    exact ⟨m, hm, hto⟩

namespace Example

/-- The note `"a"` as it is answered, and the picture sent after it. -/
def noteAnswer : Message := answer (note (bytes "a")) (bytes "a")

def pictureAnswer : Message := numbered { picture.message with content := fileid } [noteAnswer] 2 1700000000

/-- Bob sets up his channel, and on another connection writes to himself and sends
himself a picture. -/
def waiting : Schedule :=
  session ++ setsUp ++ connects 6 ++
    handles 0 6 1 (packToPacket .SendMessageRequest (.SendMessageRequest (note (bytes "a"))))
      (stored (note (bytes "a")) bob [] 1700000000 1 ++
        [replies 6 1 .SendMessageResponse (.SendMessageResponse noteAnswer), ⟨.getSender 1, true⟩,
          ⟨.getSender 1, true⟩, ⟨.addSendTask 1 (messageList noteAnswer), ()⟩]) ++
    handles 0 6 1 (packToPacket .SendMessageRequest (.SendMessageRequest picture))
      (stored picture bob [noteAnswer] 1700000000 2 ++ [⟨.getUUID, fileid⟩, ⟨.insertFile fileid, .ok 1⟩,
        replies 6 1 .SendMessageResponse (.SendMessageResponse pictureAnswer),
        ⟨.setFileMsg fileid 1 pictureAnswer, ()⟩])

end Example

theorem addressed_waiting : ∃ c, c.state.queue 1 = [contactPacket Example.contacts, messageList Example.noteAnswer] ∧
    c.state.file_msg_pool Example.fileid = some (1, Example.pictureAnswer) ∧ Addressed c := by
  obtain ⟨c, hr, hqueue, hpool⟩ := reachable_of_run Example.SHA256 Example.waiting
    (fun c => c.state.queue 1 = [contactPacket Example.contacts, messageList Example.noteAnswer] ∧
      c.state.file_msg_pool Example.fileid = some (1, Example.pictureAnswer)) (by decide +kernel)
  exact ⟨c, hqueue, hpool, addressed hr⟩

end NetChat
