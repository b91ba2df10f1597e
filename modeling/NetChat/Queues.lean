/-
How packets get into the queues of the senders and messages into the pool of
pending files: the turns that put them there, and what a queue or the pool
holds by what was done to it.
-/
import NetChat.Frames
import NetChat.Turns

namespace NetChat

open Interleave Prog Server

variable {SHA256 : Bytes → Bytes} {ok : Config → Event → Prop} {c c' : Config} {e : Event}
  {l : List Entry} {m : Message}

/-! ## The turns that queue -/

/-- The log of a `SendMessageRequest` up to the file registered for it. -/
def filed (q : SendMessageRequest) (u : User) (msgs : List Message) (timestamp : Int32) (rowid : Nat) (uuid : Bytes) :
    List Entry :=
  stored q u msgs timestamp rowid ++ [⟨.getUUID, uuid⟩, ⟨.insertFile uuid, .ok 1⟩]

/-- The entry of a reply that carries a message. -/
def answered (fd : Int32) (m : Message) (out : SendOut) : Entry :=
  ⟨.Send fd (packToPacket .SendMessageResponse (.SendMessageResponse m)), out⟩

/-- The log of a `FileUploadRequest` of a file that was not on disk, up to its reply. -/
def stowed (q : FileUploadRequest) (uid : Int32) (row : FileStorage) (out : SaveOut) (ret : Sql Nat) : List Entry :=
  found q uid row ++ [⟨.checkDiskExistence row.id, false⟩, ⟨.saveToDisk row.id q.file.content, out⟩,
    ⟨.updateFile (uploaded q row), ret⟩]

/-- **What becomes pending** is the message answered, by its own turn. -/
theorem issues_setFileMsg {tid : Tid} {f : Bytes} {r : Int32}
    (h : ((server SHA256).body tid).Issues l (.setFileMsg f r m)) :
    ∃ i fd conn n pkt u msgs timestamp rowid out, tid = .worker i ∧
      pkt.packetid = PacketType.val .SendMessageRequest ∧
      hasFile (pkt.request SendMessageRequest).message.type ∧ out.ok = true ∧
      r = (pkt.request SendMessageRequest).message.to_ ∧
      m = numbered { (pkt.request SendMessageRequest).message with content := f } msgs (Int32.ofNat rowid) timestamp ∧
      l = received fd conn n pkt ++ (filed (pkt.request SendMessageRequest) u msgs timestamp rowid f ++
        [answered fd m out]) := by
  obtain ⟨i, rfl, fd, conn, n, pkt, hd, reply, cb, l₁, l₂, out, hl, ht, hh, hr, hok, hcb, hi⟩ :=
    issues_callback h rfl (by simp)
  rw [handler_sendMessage ht] at hh
  cases hh
  cases onSendMessageRequest_runs hr with
  | refused | fileFailed => cases hcb
  | text hf hm =>
    cases hcb
    rcases notifyReceiver_issues hi with ⟨-, ho⟩ | ⟨-, ho⟩ | ⟨-, ho⟩ <;> cases ho
  | @file u msgs timestamp rowid uuid reply_msg hf hm =>
    cases hcb
    simp only [Prog.issues_op, Prog.issues_ret, and_false, exists_false, or_false, Op.setFileMsg.injEq] at hi
    obtain ⟨rfl, rfl, rfl, rfl⟩ := hi
    exact ⟨i, fd, conn, n, pkt, u, msgs, timestamp, rowid, out, rfl, ht, hf, hok, rfl, hm, hl⟩

/-- The turns that queue a packet for a user, up to where they do. -/
inductive PushStep : List Entry → Int32 → Packet → Prop
  | contacts {fd : Int32} {conn : Conn} {n : Nat} {pkt : Packet} {out : SendOut} {uid : Int32} {found : Bool}
      {users : List User} {l : List Entry} {list : ContactListRequest} :
      pkt.packetid = PacketType.val .SetupChannelRequest → (contactList uid users).Runs l list →
      PushStep (received fd conn n pkt ++
        (⟨.getUserIdByToken (pkt.request SetupChannelRequest).token, uid⟩ ::
          ⟨.Send fd (packToPacket .ServerAckResponse .ServerAckResponse), out⟩ ::
          (installed uid fd found ++ ⟨.getAllUsers, .ok users⟩ :: (l ++ [⟨.getSender uid, true⟩]))))
        uid (contactPacket list)
  | notice {fd : Int32} {conn : Conn} {n : Nat} {pkt : Packet} {out : SendOut} {u : User} {msgs : List Message}
      {timestamp : Int32} {rowid : Nat} {m : Message} :
      pkt.packetid = PacketType.val .SendMessageRequest → ¬ hasFile (pkt.request SendMessageRequest).message.type →
      m = numbered (pkt.request SendMessageRequest).message msgs (Int32.ofNat rowid) timestamp →
      PushStep (received fd conn n pkt ++
        (stored (pkt.request SendMessageRequest) u msgs timestamp rowid ++ [answered fd m out,
          ⟨.getSender (pkt.request SendMessageRequest).message.to_, true⟩,
          ⟨.getSender (pkt.request SendMessageRequest).message.to_, true⟩]))
        (pkt.request SendMessageRequest).message.to_ (messageList m)
  | forward {fd : Int32} {conn : Conn} {n : Nat} {pkt : Packet} {out : SendOut} {uid : Int32} {row : FileStorage}
      {wrote : SaveOut} {ret : Sql Nat} {r : Int32} {m : Message} :
      pkt.packetid = PacketType.val .FileUploadRequest → r ≠ 0 →
      PushStep (received fd conn n pkt ++
        (stowed (pkt.request FileUploadRequest) uid row wrote ret ++ [⟨.Send fd (uploadResponse true), out⟩,
          ⟨.getFileMsg (pkt.request FileUploadRequest).id, (r, m)⟩, ⟨.delFileMsg (pkt.request FileUploadRequest).id, ()⟩,
          ⟨.getSender r, true⟩]))
        r (messageList m)

/-- **What is queued, and by which turn.** -/
theorem issues_push {tid : Tid} {uid : Int32} {p : Packet}
    (h : ((server SHA256).body tid).Issues l (.addSendTask uid p)) : (∃ i, tid = .worker i) ∧ PushStep l uid p := by
  obtain ⟨i, t, rfl, hcall, fd, conn, n, pkt, hd, reply, cb, l₁, l₂, out, rfl, ht, hh, hr, hok, hcb, hi⟩ :=
    issues_addSendTask h
  refine ⟨⟨i, rfl⟩, ?_⟩
  rcases hcall with rfl | rfl | rfl
  · rw [handler_setupChannel ht] at hh
    cases hh
    obtain ⟨uid', rfl, rfl⟩ := onSetupChannelRequest_runs hr
    cases hcb
    generalize ho : Op.addSendTask uid p = o at hi
    cases setupChannel_issues hi with
    | push hrun =>
      cases ho
      exact .contacts ht hrun
    | _ => cases ho
  · rw [handler_sendMessage ht] at hh
    cases hh
    cases onSendMessageRequest_runs hr with
    | refused | fileFailed => cases hcb
    | text hf hm =>
      cases hcb
      rcases notifyReceiver_issues hi with ⟨-, ho⟩ | ⟨-, ho⟩ | ⟨rfl, ho⟩ <;> cases ho
      exact .notice ht hf hm
    | file hf hm =>
      cases hcb
      simp at hi
  · rw [handler_fileUpload ht] at hh
    cases hh
    cases onFileUploadRequest_runs hr with
    | saved =>
      cases hcb
      obtain ⟨m, hr0, rfl, rfl⟩ := forwardFileMsg_addSendTask hi
      exact .forward ht hr0
    | _ => cases hcb

/-- The messages a packet brings its receiver. -/
def Packet.messages (p : Packet) : List Message :=
  match p.content with
  | some ⟨.ContactMessageListRequest messages, _⟩ => messages
  | _ => []

@[simp] theorem messages_messageList (m : Message) : (messageList m).messages = [m] := rfl

@[simp] theorem messages_contactPacket (list : ContactListRequest) : (contactPacket list).messages = [] := rfl

/-- Messages are queued one in a packet. -/
theorem push_messages {tid : Tid} {uid : Int32} {p : Packet}
    (h : ((server SHA256).body tid).Issues l (.addSendTask uid p)) : p.messages = [] ∨ ∃ m, p = messageList m := by
  obtain ⟨-, hpush⟩ := issues_push h
  cases hpush with
  | contacts => exact .inl rfl
  | notice | forward => exact .inr ⟨_, rfl⟩

/-! ## What a queue holds -/

/-- The queue of a user's sender, empty where there is none. -/
def State.queue (s : State) (uid : Int32) : List Packet := ((s.keepalive_sender_mp uid).map Sender.msg_queue_).getD []

/-- **What an operation does to a queue.** -/
theorem step_queue {s s' : State} {x : Entry} (h : s.step x.op x.res = some s') (uid : Int32) :
    (∃ p, x = ⟨.addSendTask uid p, ()⟩ ∧ s'.queue uid = s.queue uid ++ [p]) ∨
      (x = ⟨.Clear uid, ()⟩ ∧ s'.queue uid = []) ∨
      (∃ p, x = ⟨.WaitAndPop uid, p⟩ ∧ s.queue uid = p :: s'.queue uid) ∨ s'.queue uid = s.queue uid := by
  have hchange := step_sender h uid
  unfold State.queue
  generalize s.keepalive_sender_mp uid = snd at hchange
  generalize s'.keepalive_sender_mp uid = snd' at hchange
  cases hchange with
  | pushed => exact .inl ⟨_, rfl, rfl⟩
  | clear => exact .inr (.inl ⟨rfl, rfl⟩)
  | popped hq => exact .inr (.inr (.inl ⟨_, rfl, hq⟩))
  | other | created | setFd | lock | unlock => exact .inr (.inr (.inr rfl))

theorem addSendTask_queue {s s' : State} {uid : Int32} {p : Packet} (h : s.step (.addSendTask uid p) () = some s') :
    s'.queue uid = s.queue uid ++ [p] := by
  obtain ⟨snd, snd', hsnd, hf, hsnd'⟩ := State.onSender_self h
  cases hf
  simp [State.queue, hsnd, hsnd']

theorem WaitAndPop_queue {s s' : State} {uid : Int32} {p : Packet} (h : s.step (.WaitAndPop uid) p = some s') :
    s.queue uid = p :: s'.queue uid := by
  obtain ⟨snd, snd', hsnd, hf, hsnd'⟩ := State.onSender_self h
  split at hf
  · cases hf
  · rename_i pkt rest hrest
    simp only [Option.ite_none_right_eq_some, Option.some.injEq] at hf
    obtain ⟨rfl, rfl⟩ := hf
    simp [State.queue, hsnd, hsnd', hrest]

/-- A packet in a queue that was empty was queued. -/
theorem queue_pushed_of_empty {s : State} (h : (server SHA256).ReachableWhen ok s c) {uid : Int32} {p : Packet}
    (hempty : s.queue uid = []) (hp : p ∈ c.state.queue uid) :
    ∃ e ∈ c.history, e.act = ⟨.addSendTask uid p, ()⟩ := by
  induction h with
  | init =>
    rw [Machine.init, hempty] at hp
    cases hp
  | @step c c' e _ hs _ ih =>
    rw [hs.history]
    have hold : p ∈ c.state.queue uid → ∃ g ∈ e :: c.history, g.act = ⟨.addSendTask uid p, ()⟩ := fun hp => by
      obtain ⟨g, hg, ha⟩ := ih hp
      exact ⟨g, List.mem_cons_of_mem _ hg, ha⟩
    rcases step_queue hs.state uid with ⟨q, hx, hq⟩ | ⟨-, hq⟩ | ⟨q, -, hq⟩ | hq
    · rw [hq, List.mem_append, List.mem_singleton] at hp
      rcases hp with hp | rfl
      · exact hold hp
      · exact ⟨e, by simp, hx⟩
    · rw [hq] at hp
      cases hp
    · exact hold (by rw [hq]; exact List.mem_cons_of_mem _ hp)
    · exact hold (hq ▸ hp)

/-- A packet in a queue was queued. -/
theorem queue_pushed (h : (server SHA256).ReachableWhen ok State.initial c) {uid : Int32} {p : Packet}
    (hp : p ∈ c.state.queue uid) : ∃ e ∈ c.history, e.act = ⟨.addSendTask uid p, ()⟩ :=
  queue_pushed_of_empty h rfl hp

/-- What a sender takes from its queue was queued before. -/
theorem popped_pushed (h : (server SHA256).ReachableWhen ok State.initial c) (hs : (server SHA256).Step c e c')
    {uid : Int32} {p : Packet} (hx : e.act = ⟨.WaitAndPop uid, p⟩) :
    ∃ g ∈ c.history, g.act = ⟨.addSendTask uid p, ()⟩ := by
  have hstep := hs.state
  rw [hx] at hstep
  exact queue_pushed h (by rw [WaitAndPop_queue hstep]; simp)

/-- What a sender sends was queued. -/
theorem sent_pushed (h : (server SHA256).ReachableWhen ok State.initial c) (hs : (server SHA256).Step c e c')
    {uid fd : Int32} {p : Packet} (ht : e.tid = .sender uid) (ho : e.act.op = .Send fd p) :
    ∃ g ∈ c.history, g.act = ⟨.addSendTask uid p, ()⟩ := by
  have hi := hs.issues h
  rw [ht, ho] at hi
  have hlog := hs.log
  generalize hpre : e.pre = l at hi hlog
  generalize hop : Op.Send fd p = o at hi
  cases sender_issues hi with
  | send =>
    cases hop
    rw [ht] at hlog
    obtain ⟨mid, past, hh, -⟩ := h.log_since (p := []) hlog
    obtain ⟨c₁, c₂, h₁, rfl, hs₁, -, -⟩ := h.event hh
    obtain ⟨g, hg, ha⟩ := popped_pushed h₁ hs₁ rfl
    exact ⟨g, by rw [hh]; exact List.mem_append_right _ (List.mem_cons_of_mem _ hg), ha⟩
  | _ => cases hop

/-! ## What the pool holds -/

/-- A message pending where none was at the start was made pending. -/
theorem pool_set_of_empty {s : State} (h : (server SHA256).ReachableWhen ok s c) {f : Bytes} {r : Int32}
    (hempty : s.file_msg_pool f = none) (hp : c.state.file_msg_pool f = some (r, m)) :
    ∃ e ∈ c.history, e.act = ⟨.setFileMsg f r m, ()⟩ := by
  rcases h.last_write (fun s => s.file_msg_pool f) (Op.writesFileMsg f) (fun _ _ _ hs => step_file_msg_pool hs f) with
    ⟨-, hinit⟩ | ⟨mid, g, past, hg, -, hw⟩
  · rw [hinit, hempty] at hp
    cases hp
  · rw [hp] at hw
    refine ⟨g, by rw [hg]; simp, ?_⟩
    have hop : g.act.op = .setFileMsg f r m := by
      cases hop : g.act.op <;> rw [hop] at hw <;> simp only [Op.writesFileMsg, reduceCtorEq] at hw
      · split at hw <;> simp_all
      · split at hw <;> simp_all
    obtain ⟨⟨⟩, hx⟩ := Entry.of_op hop
    exact hx

/-- A pending message was made pending. -/
theorem pool_set (h : (server SHA256).ReachableWhen ok State.initial c) {f : Bytes} {r : Int32}
    (hp : c.state.file_msg_pool f = some (r, m)) : ∃ e ∈ c.history, e.act = ⟨.setFileMsg f r m, ()⟩ :=
  pool_set_of_empty h rfl hp

/-- What the pool answers, other than that it has nothing, it held. -/
theorem getFileMsg_pool {s s' : State} {f : Bytes} {r : Int32} (h : s.step (.getFileMsg f) (r, m) = some s')
    (hr : r ≠ 0) : s.file_msg_pool f = some (r, m) := by
  simp only [State.step, Option.ite_none_right_eq_some, Option.some.injEq] at h
  cases hp : s.file_msg_pool f with
  | none =>
    rw [hp] at h
    exact absurd (congrArg Prod.fst h.1) hr
  | some v =>
    rw [hp] at h
    rw [h.1]
    rfl

end NetChat
