/-
One message, one content. A `SendMessageRequest` stores its message, answers
with it, and pushes it to the receiver: at once, or, for an IMAGE or a FILE,
when the file it was given an id for is uploaded. That id replaces the
content of the answer and of the push after the row was stored, so the row
keeps the content the client sent.
-/
import NetChat.Queues
import NetChat.Sequential

namespace NetChat

open Interleave Server

variable {SHA256 : Bytes → Bytes} {ok : Config → Event → Prop} {c c' : Config} {e e' : Event}
  {pkt : Packet} {m : Message}

/-! ## Files are registered once -/

theorem insertFile_past {s : State} (h : (server SHA256).ReachableWhen ok s c) (he : e ∈ c.history) {uuid : Bytes}
    (hx : e.act = ⟨.insertFile uuid, .ok 1⟩) : uuid ∈ c.state.db.files.map FileRow.file_id := by
  obtain ⟨c₁, c₂, -, hs, -, hsteps⟩ := h.event_mem he
  refine hsteps.state_invariant (fun s => uuid ∈ s.db.files.map FileRow.file_id)
    (fun s x s' hi hs => (step_fileIds_grow hs).subset hi) ?_
  exact (State.step_insertFile_ok hs.state hx).2

theorem insertFile_fresh (h : (server SHA256).ReachableWhen ok State.initial c) (hs : (server SHA256).Step c e c')
    {uuid : Bytes} (hx : e.act = ⟨.insertFile uuid, .ok 1⟩) : ∀ e' ∈ c.history, e'.act ≠ ⟨.insertFile uuid, .ok 1⟩ := by
  intro e' he' hx'
  exact (State.step_insertFile_ok hs.state hx).1 (insertFile_past h he' hx')

theorem insertFile_unique (h : (server SHA256).ReachableWhen ok State.initial c) (he : e ∈ c.history)
    (he' : e' ∈ c.history) {uuid : Bytes} (hx : e.act = ⟨.insertFile uuid, .ok 1⟩)
    (hx' : e'.act = ⟨.insertFile uuid, .ok 1⟩) : e = e' := by
  obtain ⟨later, earlier, hh⟩ := List.append_of_mem he
  rw [hh] at he'
  rcases List.mem_append.mp he' with hl | hr
  · obtain ⟨a, b, rfl⟩ := List.append_of_mem hl
    rw [List.append_assoc, List.cons_append] at hh
    obtain ⟨c₁, c₂, h₁, hh₁, hs, -, -⟩ := h.event hh
    exact absurd hx (insertFile_fresh h₁ hs hx' e (by rw [hh₁]; simp))
  · rcases List.mem_cons.mp hr with rfl | hr
    · rfl
    · obtain ⟨c₁, c₂, h₁, rfl, hs, -, -⟩ := h.event hh
      exact absurd hx' (insertFile_fresh h₁ hs hx e' hr)

/-! ## The ways of a message -/

/-- `e` answers the `SendMessageRequest` `pkt` with `m`. -/
structure Answers (pkt : Packet) (m : Message) (e : Event) : Prop where
  asked : handling e.pre = some pkt
  type : pkt.packetid = PacketType.val .SendMessageRequest
  sent : ∃ fd, e.act.op = .Send fd (packToPacket .SendMessageResponse (.SendMessageResponse m))
  ok : m.id ≠ -1

/-- `p` was queued for the user `r` on behalf of the message answered at `e`: in
the same turn, or in that of an upload of the file registered for it. -/
inductive Pushes (c : Config) (e : Event) (r : Int32) (p : Packet) : Prop
  | atOnce {later mid earlier : List Event} {e' : Event} : c.history = later ++ e' :: (mid ++ e :: earlier) →
      e'.tid = e.tid → Machine.SameTurn e.tid (e' :: mid) → e'.act.op = .addSendTask r p → Pushes c e r p
  | uploaded {e' : Event} {upload : Packet} : e' ∈ c.history → handling e'.pre = some upload →
      upload.packetid = PacketType.val .FileUploadRequest →
      ⟨.insertFile (upload.request FileUploadRequest).id, .ok 1⟩ ∈ e.pre → e'.act.op = .addSendTask r p →
      Pushes c e r p

/-- What is pushed to the receiver and what `getMessage` reads are the message
answered. -/
structure OneContent (c : Config) (pkt : Packet) (m : Message) (e : Event) : Prop where
  read : c.state.db.getMessage (pkt.request SendMessageRequest).message.from_
    (pkt.request SendMessageRequest).message.to_ m.internalid = some m
  pushed : ∀ r p, Pushes c e r p → r = (pkt.request SendMessageRequest).message.to_ ∧ p = messageList m

/-- The id of the file registered for the request, if one was, is its content. -/
def FileIsContent (pkt : Packet) (e : Event) : Prop :=
  ∀ uuid, ⟨.insertFile uuid, .ok 1⟩ ∈ e.pre → uuid = (pkt.request SendMessageRequest).message.content

/-- A message answered is the one stored, but for its content. -/
theorem SendRun.stored_eq {q : SendMessageRequest} {l : List Entry} {cb : Option (Code Unit)}
    (h : SendRun q l (packToPacket .SendMessageResponse (.SendMessageResponse m), cb)) (hid : m.id ≠ -1) :
    ∃ u msgs timestamp rowid rest, l = stored q u msgs timestamp rowid ++ rest ∧
      m.internalid = g_db.maxInternalId msgs + 1 ∧ m.id = Int32.ofNat rowid ∧
      (numbered q.message msgs (Int32.ofNat rowid) timestamp = m ↔
        ∀ uuid, ⟨.insertFile uuid, .ok 1⟩ ∈ l → uuid = q.message.content) := by
  generalize hreply : (packToPacket .SendMessageResponse (.SendMessageResponse m), cb) = reply at h
  cases h with
  | refused | fileFailed =>
    simp only [sendMessageFailed, Prod.mk.injEq, packToPacket_inj, true_and, Body.SendMessageResponse.injEq] at hreply
    rw [hreply.1] at hid
    exact absurd rfl hid
  | @text u msgs timestamp rowid reply_msg hf hm =>
    simp only [Prod.mk.injEq, packToPacket_inj, true_and, Body.SendMessageResponse.injEq] at hreply
    obtain ⟨rfl, -⟩ := hreply
    refine ⟨u, msgs, timestamp, rowid, [], by simp, by rw [hm]; rfl, by rw [hm]; rfl, iff_of_true hm.symm ?_⟩
    simp [stored, checked]
  | @file u msgs timestamp rowid uuid reply_msg hf hm =>
    simp only [Prod.mk.injEq, packToPacket_inj, true_and, Body.SendMessageResponse.injEq] at hreply
    obtain ⟨rfl, -⟩ := hreply
    refine ⟨u, msgs, timestamp, rowid, _, rfl, by rw [hm]; rfl, by rw [hm]; rfl, ?_⟩
    rw [hm]
    have hins : ∀ uuid', ⟨.insertFile uuid', .ok 1⟩ ∈ stored q u msgs timestamp rowid ++
        [⟨.getUUID, uuid⟩, ⟨.insertFile uuid, .ok 1⟩] ↔ uuid' = uuid := by simp [stored, checked]
    simp only [hins, forall_eq, numbered, Message.mk.injEq, and_true]
    constructor
    · intro hq
      rw [hq]
    · rintro rfl
      rfl

/-- The turn of an answer up to it. -/
theorem Answers.run (ha : Answers pkt m e) (hr : (server SHA256).ReachableWhen ok State.initial c)
    (hs : (server SHA256).Step c e c') :
    ∃ i fd conn n l cb, e.tid = .worker i ∧ e.pre = received fd conn n pkt ++ l ∧
      handler SHA256 fd pkt = some (onSendMessageRequest pkt) ∧
      (∃ out, e.act = ⟨.Send fd (packToPacket .SendMessageResponse (.SendMessageResponse m)), out⟩) ∧
      (onSendMessageRequest pkt).Runs l (packToPacket .SendMessageResponse (.SendMessageResponse m), cb) := by
  obtain ⟨fd, ho⟩ := ha.sent
  obtain ⟨i, conn, n, hd, l, cb, ht, hl, hh, hrun⟩ := reply_run hr hs ha.asked ho
  rw [handler_sendMessage ha.type] at hh
  cases hh
  exact ⟨i, fd, conn, n, l, cb, ht, hl, handler_sendMessage ha.type, Entry.of_op ho, hrun⟩

/-- The condition of the runs below. -/
def Sequential (c : Config) (e : Event) : Prop := OneAtATime c e ∧ RoomFor c e

/-- The message read is the one stored. -/
theorem Answers.getMessage (ha : Answers pkt m e) (h : ReachableWhen SHA256 Sequential c) (he : e ∈ c.history) :
    c.state.db.getMessage (pkt.request SendMessageRequest).message.from_
      (pkt.request SendMessageRequest).message.to_ m.internalid = some m ↔ FileIsContent pkt e := by
  obtain ⟨c₁, c₂, h₁, hs, hk, hsteps⟩ := h.event_mem he
  obtain ⟨i, fd, conn, n, l, cb, ht, hl, -, -, hrun⟩ := ha.run h₁ hs
  obtain ⟨u, msgs, timestamp, rowid, rest, rfl, hid, -, hiff⟩ := (onSendMessageRequest_runs hrun).stored_eq ha.ok
  have hlog := hs.log
  rw [ht, hl] at hlog
  have hget := getMessage_steps (Machine.Steps.trans (.tail .refl hs hk) hsteps)
    (stored_getMessage h₁ (fun _ _ hk => hk) hlog)
  rw [hid, hget, Option.some.injEq, hiff, FileIsContent, hl]
  simp [received]

theorem Answers.pushed_atOnce (ha : Answers pkt m e) (h : (server SHA256).ReachableWhen ok State.initial c)
    {later mid earlier : List Event} (hh : c.history = later ++ e' :: (mid ++ e :: earlier)) (htid : e'.tid = e.tid)
    (hturn : Machine.SameTurn e.tid (e' :: mid)) {r : Int32} {p : Packet} (ho : e'.act.op = .addSendTask r p) :
    r = (pkt.request SendMessageRequest).message.to_ ∧ p = messageList m := by
  obtain ⟨c₁, c₂, h₁, hh₁, hs, -, -⟩ := h.event hh
  obtain ⟨c₃, c₄, h₃, -, hs₃, -, -⟩ := h₁.event hh₁
  obtain ⟨i, fd, conn, n, l, cb, ht, hl, hd, ⟨out, hact⟩, hrun⟩ := ha.run h₃ hs₃
  have hlog := h₁.log_of_sameTurn hh₁ fun y hy => hturn y (by simp [hy])
  rw [← htid, hs.log] at hlog
  rcases hlog with hlog | ⟨l₂, hlog⟩
  · exact absurd hlog (hturn e' (by simp) htid)
  have hi := hs.issues h₁
  rw [ho] at hi
  obtain ⟨j, t, -, -, hcall⟩ := issues_addSendTask hi
  rw [hlog, hl, hact, List.append_assoc] at hcall
  obtain ⟨reply, cb', -, -, hreply, hrun', hcb, hi'⟩ := hcall.reply hd hrun
  rcases (onSendMessageRequest_runs hrun').callback hcb hi' with ⟨m', hm', -, hpush⟩ | ⟨m', uuid, hm', -, -, ho', -⟩
  · rw [hm', packToPacket_inj, Body.SendMessageResponse.injEq] at hreply
    obtain ⟨-, rfl⟩ := hreply
    rcases hpush with ⟨-, ho'⟩ | ⟨-, ho'⟩ | ⟨-, ho'⟩ <;> cases ho'
    exact ⟨rfl, rfl⟩
  · cases ho'

/-- What the pool answers for a file was put there. -/
theorem getFileMsg_set (h : (server SHA256).ReachableWhen ok State.initial c) (he : e ∈ c.history) {fileid : Bytes}
    {r : Int32} (hx : e.act = ⟨.getFileMsg fileid, (r, m)⟩) (hr : r ≠ 0) :
    ∃ g ∈ c.history, g.act.op = .setFileMsg fileid r m := by
  obtain ⟨later, earlier, hh⟩ := List.append_of_mem he
  obtain ⟨c₁, c₂, h₁, rfl, hs, -, -⟩ := h.event hh
  have hget := hs.state
  rw [hx] at hget
  obtain ⟨g, hg, hact⟩ := pool_set h₁ (getFileMsg_pool hget hr)
  exact ⟨g, by rw [hh]; simp [hg], by rw [hact]⟩

/-- What the pool was given for a file follows from the step that registered it. -/
theorem setFileMsg_pre {fileid : Bytes} {r : Int32} (h : (server SHA256).ReachableWhen ok State.initial c)
    (hs : (server SHA256).Step c e c') (ho : e.act.op = .setFileMsg fileid r m) :
    ∃ fd conn n pkt u msgs timestamp rowid rest,
      e.pre = (received fd conn n pkt ++ (stored (pkt.request SendMessageRequest) u msgs timestamp rowid ++
        [⟨.getUUID, fileid⟩])) ++ ⟨.insertFile fileid, .ok 1⟩ :: rest ∧
      r = (pkt.request SendMessageRequest).message.to_ ∧
      m = numbered { (pkt.request SendMessageRequest).message with content := fileid } msgs (Int32.ofNat rowid)
        timestamp := by
  have hi := hs.issues h
  rw [ho] at hi
  obtain ⟨i, fd, conn, n, pkt, u, msgs, timestamp, rowid, out, -, -, -, -, hr, hm, hl⟩ := issues_setFileMsg hi
  exact ⟨fd, conn, n, pkt, u, msgs, timestamp, rowid, [answered fd m out], by rw [hl]; simp [filed], hr, hm⟩

/-- The turn of a request up to the id of the file it registers next. -/
def registering (fd : Int32) (conn : Conn) (n : Nat) (pkt : Packet) (u : User) (msgs : List Message)
    (timestamp : Int32) (rowid : Nat) (fileid : Bytes) : List Entry :=
  received fd conn n pkt ++ (stored (pkt.request SendMessageRequest) u msgs timestamp rowid ++ [⟨.getUUID, fileid⟩])

/-- A file is registered by one turn. -/
theorem registered_unique (h : (server SHA256).ReachableWhen ok State.initial c) {t t' : Tid} {fd fd' : Int32}
    {conn conn' : Conn} {n n' : Nat} {pkt' : Packet} {u u' : User} {msgs msgs' : List Message}
    {timestamp timestamp' : Int32} {rowid rowid' : Nat} {fileid : Bytes}
    (he : ⟨t, registering fd conn n pkt u msgs timestamp rowid fileid, .insertFile fileid, .ok 1⟩ ∈ c.history)
    (he' : ⟨t', registering fd' conn' n' pkt' u' msgs' timestamp' rowid' fileid, .insertFile fileid, .ok 1⟩ ∈
      c.history) :
    pkt = pkt' ∧ msgs = msgs' ∧ timestamp = timestamp' ∧ rowid = rowid' := by
  have heq := insertFile_unique h he he' rfl rfl
  simp only [registering, received, stored, checked, List.cons_append, List.nil_append, Interleave.Event.mk.injEq,
    List.cons.injEq, Interleave.Entry.mk.injEq, heq_eq_eq, true_and, and_true, Op.Recv.injEq, RecvOut.packet.injEq,
    Op.getUserIdByToken.injEq, Op.getUserById.injEq, Except.ok.injEq, Option.some.injEq, Op.getAllMessages.injEq,
    Op.insertMessage.injEq] at heq
  obtain ⟨-, -, ⟨-, -, -, rfl⟩, -, -, ⟨-, rfl⟩, rfl, -, rfl⟩ := heq
  exact ⟨rfl, rfl, rfl, rfl⟩

/-- One message is ever made pending under one id. -/
theorem setFileMsg_unique (h : (server SHA256).ReachableWhen ok State.initial c) (he : e ∈ c.history)
    (he' : e' ∈ c.history) {fileid : Bytes} {r r' : Int32} {m' : Message} (ho : e.act.op = .setFileMsg fileid r m)
    (ho' : e'.act.op = .setFileMsg fileid r' m') : r = r' ∧ m = m' := by
  obtain ⟨c₁, c₂, h₁, hs, -, -⟩ := h.event_mem he
  obtain ⟨fd, conn, n, pkt, u, msgs, timestamp, rowid, rest, hpre, rfl, rfl⟩ := setFileMsg_pre h₁ hs ho
  obtain ⟨c₃, c₄, h₃, hs', -, -⟩ := h.event_mem he'
  obtain ⟨fd', conn', n', pkt', u', msgs', timestamp', rowid', rest', hpre', rfl, rfl⟩ := setFileMsg_pre h₃ hs' ho'
  obtain ⟨rfl, rfl, rfl, rfl⟩ := registered_unique h (h.pre_past he hpre) (h.pre_past he' hpre')
  exact ⟨rfl, rfl⟩

/-- The turn of an answer after a file was registered. -/
theorem Answers.registered (ha : Answers pkt m e) (h : (server SHA256).ReachableWhen ok State.initial c)
    (hs : (server SHA256).Step c e c') {fileid : Bytes} (hfile : ⟨.insertFile fileid, .ok 1⟩ ∈ e.pre) :
    ∃ fd conn n u msgs timestamp rowid,
      e.pre = (received fd conn n pkt ++ (stored (pkt.request SendMessageRequest) u msgs timestamp rowid ++
        [⟨.getUUID, fileid⟩])) ++ [⟨.insertFile fileid, .ok 1⟩] ∧
      m = numbered { (pkt.request SendMessageRequest).message with content := fileid } msgs (Int32.ofNat rowid)
        timestamp := by
  obtain ⟨i, fd, conn, n, l, cb, -, hl, -, -, hrun⟩ := ha.run h hs
  have hsend := onSendMessageRequest_runs hrun
  generalize hreply : (packToPacket .SendMessageResponse (.SendMessageResponse m), cb) = reply at hsend
  cases hsend with
  | refused | fileFailed =>
    simp only [sendMessageFailed, Prod.mk.injEq, packToPacket_inj, true_and, Body.SendMessageResponse.injEq] at hreply
    have hid := ha.ok
    rw [hreply.1] at hid
    exact absurd rfl hid
  | text =>
    rw [hl] at hfile
    simp [received, stored, checked] at hfile
  | @file u msgs timestamp rowid uuid reply_msg hf hm =>
    simp only [Prod.mk.injEq, packToPacket_inj, true_and, Body.SendMessageResponse.injEq] at hreply
    rw [hl] at hfile
    simp only [received, stored, checked, List.cons_append, List.nil_append, List.mem_cons, Interleave.Entry.mk.injEq,
      reduceCtorEq, false_and, Op.insertFile.injEq, heq_eq_eq, and_true, List.not_mem_nil, or_false, false_or] at hfile
    subst hfile
    exact ⟨fd, conn, n, u, msgs, timestamp, rowid, by rw [hl]; simp, by rw [hreply.1, hm]⟩

theorem Answers.pushed_uploaded (ha : Answers pkt m e) (h : (server SHA256).ReachableWhen ok State.initial c)
    (he : e ∈ c.history) {upload : Packet} (he' : e' ∈ c.history) (hup : handling e'.pre = some upload)
    (htype : upload.packetid = PacketType.val .FileUploadRequest)
    (hfile : ⟨.insertFile (upload.request FileUploadRequest).id, .ok 1⟩ ∈ e.pre) {r : Int32} {p : Packet}
    (ho : e'.act.op = .addSendTask r p) :
    r = (pkt.request SendMessageRequest).message.to_ ∧ p = messageList m := by
  obtain ⟨c₁, c₂, h₁, hs, -, -⟩ := h.event_mem he'
  have hi := hs.issues h₁
  rw [ho] at hi
  obtain ⟨i, t, -, -, fd, conn, n, pkt', hd, reply, cb, l₁, l₂, out, hl, -, hh, hr, -, hcb, hi'⟩ :=
    issues_addSendTask hi
  rw [hl, handling_received, Option.some.injEq] at hup
  subst hup
  rw [handler_fileUpload htype] at hh
  cases hh
  rw [onFileUploadRequest_callback hr hcb] at hi'
  obtain ⟨m', hr0, rfl, rfl⟩ := forwardFileMsg_addSendTask hi'
  have hget := h.pre_past he' (x := ⟨.getFileMsg (pkt'.request FileUploadRequest).id, (r, m')⟩)
    (p := received fd conn n pkt' ++ (l₁ ++ [⟨.Send fd reply.1, out⟩])) (by rw [hl]; simp; rfl)
  obtain ⟨g, hg, hgo⟩ := getFileMsg_set h hget rfl hr0
  -- the file was registered by the turn of the answer and by that of `g`, so they agree
  obtain ⟨c₃, c₄, h₃, hs₃, -, -⟩ := h.event_mem hg
  obtain ⟨fd₁, conn₁, n₁, pkt₁, u₁, msgs₁, timestamp₁, rowid₁, rest₁, hpre₁, rfl, rfl⟩ := setFileMsg_pre h₃ hs₃ hgo
  obtain ⟨c₅, c₆, h₅, hs₅, -, -⟩ := h.event_mem he
  obtain ⟨fd₂, conn₂, n₂, u₂, msgs₂, timestamp₂, rowid₂, hpre₂, rfl⟩ := ha.registered h₅ hs₅ hfile
  obtain ⟨rfl, rfl, rfl, rfl⟩ := registered_unique h (h.pre_past hg hpre₁) (h.pre_past he hpre₂)
  exact ⟨rfl, rfl⟩

/-- **The message answered, the one pushed and the one read are equal** if and
only if no file was registered for it, or under an id that is its content. -/
theorem one_content (h : ReachableWhen SHA256 Sequential c) (he : e ∈ c.history) (ha : Answers pkt m e) :
    OneContent c pkt m e ↔ FileIsContent pkt e := by
  refine ⟨fun ho => (ha.getMessage h he).mp ho.read, fun hf => ⟨(ha.getMessage h he).mpr hf, fun r p hp => ?_⟩⟩
  cases hp with
  | atOnce hh htid hturn ho => exact ha.pushed_atOnce h hh htid hturn ho
  | uploaded he' hup htype hfile ho => exact ha.pushed_uploaded h he he' hup htype hfile ho

/-! ## A picture and a note -/

/-- Whether a step keeps to `RoomFor`. -/
def checkRoom (c : Config) (e : Event) : Bool :=
  match e.act.op with
  | .insertMessage m => decide ((c.state.db.conversation m.pair).length < 2 ^ 31 - 1)
  | _ => true

theorem roomFor_of_check (h : checkRoom c e = true) : RoomFor c e := by
  intro m hm
  rw [checkRoom, hm] at h
  exact of_decide_eq_true h

namespace Example

/-- Bob sends himself a picture. -/
def picture : SendMessageRequest := ⟨token, ⟨1, 1, MessageType.IMAGE, bytes "x"⟩⟩

def fileid : Bytes := bytes "5f0c7b1e-0d5a-4c1b-9a37-2b8f6f4f1d02"

/-- The message a request of Bob's is answered with, under the content given. -/
def answer (q : SendMessageRequest) (content : Bytes) : Message :=
  numbered { q.message with content } [] 1 1700000000

/-- Worker 0 stores the first message of `q`, does `rest` and answers. -/
def sends (q : SendMessageRequest) (content : Bytes) (rest : List Entry) : Schedule :=
  handles 0 5 0 (packToPacket .SendMessageRequest (.SendMessageRequest q))
    (stored q bob [] 1700000000 1 ++ rest ++
      [replies 5 0 .SendMessageResponse (.SendMessageResponse (answer q content))])

def sendsPicture : Schedule :=
  session ++ sends picture fileid [⟨.getUUID, fileid⟩, ⟨.insertFile fileid, .ok 1⟩]

def sendsNote : Schedule := session ++ sends (note (bytes "a")) (bytes "a") []

theorem sendsPicture_alone : ∀ y ∈ sendsPicture, y.1 = .acceptor ∨ y.1 = .worker 0 := by decide +kernel

theorem sendsNote_alone : ∀ y ∈ sendsNote, y.1 = .acceptor ∨ y.1 = .worker 0 := by decide +kernel

/-- A run of worker 0 whose last step answers `q`. -/
theorem exists_answer {sched : Schedule} (q : SendMessageRequest) (content : Bytes) (P : Config → Prop)
    [DecidablePred P] (halone : ∀ y ∈ sched, y.1 = .acceptor ∨ y.1 = .worker 0)
    (hid : (answer q content).id ≠ -1)
    (h : ((server Example.SHA256).execAll checkRoom ((server Example.SHA256).init State.initial) sched).any fun c =>
      decide (P c ∧ (c.history.head?.map fun e => (handling e.pre, e.act.op)) =
        some (some (packToPacket .SendMessageRequest (.SendMessageRequest q)),
          .Send 5 (packToPacket .SendMessageResponse (.SendMessageResponse (answer q content)))))) :
    ∃ c e, ReachableWhen Example.SHA256 Sequential c ∧ e ∈ c.history ∧
      Answers (packToPacket .SendMessageRequest (.SendMessageRequest q)) (answer q content) e ∧ P c := by
  obtain ⟨c, hr, hP, hlast⟩ := reachableWhen_of_run Example.SHA256 Sequential checkRoom sched _
    (fun c e he hr hh _ hcheck => ⟨oneAtATime_alone hr hh halone he, roomFor_of_check hcheck⟩) h
  obtain ⟨e, earlier, hh, hlast⟩ := last_event hlast
  rw [Prod.mk.injEq] at hlast
  exact ⟨c, e, hr, by simp [hh], ⟨hlast.1, rfl, ⟨5, hlast.2⟩, hid⟩, hP⟩

end Example

/-- The row of a picture keeps the content that was sent. -/
theorem not_oneContent : ¬ ∀ SHA256 c e pkt m, ReachableWhen SHA256 OneAtATime c → e ∈ c.history → Answers pkt m e →
    OneContent c pkt m e := by
  intro h
  obtain ⟨c, e, hr, he, ha, hread⟩ := Example.exists_answer Example.picture Example.fileid
    (fun c => c.state.db.getMessage 1 1 1 ≠ some (Example.answer Example.picture Example.fileid))
    Example.sendsPicture_alone (by decide) (by decide +kernel)
  exact hread (h _ c e _ _ (hr.mono fun _ _ hk => hk.1) he ha).read

theorem one_content_note : ∃ c e, c.state.db.messages.length = 1 ∧
    OneContent c (packToPacket .SendMessageRequest (.SendMessageRequest (Example.note (bytes "a"))))
      (Example.answer (Example.note (bytes "a")) (bytes "a")) e := by
  obtain ⟨c, e, hr, he, ha, hlen, hfile⟩ := Example.exists_answer (Example.note (bytes "a")) (bytes "a")
    (fun c => c.state.db.messages.length = 1 ∧ ∀ e ∈ c.history, ∀ x ∈ e.pre, x.op.part ≠ some .files)
    Example.sendsNote_alone (by decide) (by decide +kernel)
  exact ⟨c, e, hlen, (one_content hr he ha).mpr fun uuid hmem => absurd rfl (hfile e he _ hmem)⟩

end NetChat
