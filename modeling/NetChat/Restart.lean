/-
What outlives a process and what does not. The tables do, and only grow: what
a user was once told, of a message or of an id, it is told by every later
process. The pools do not: a process pushes what was stored while it
runs, and no message that was waiting, or pending on its file, when an earlier
one ended.
-/
import Mathlib.Data.List.Nodup
import NetChat.Integrity
import NetChat.InternalIds

namespace NetChat

open Interleave Prog Server DataAccess

variable {SHA256 : Bytes → Bytes} {ok : Config → Event → Prop} {s : State} {c c' c₁ : Config} {e e' : Event}

/-- `c'` comes after `c`: in the same process, or in one that was started after it ended. -/
inductive Later (SHA256 : Bytes → Bytes) : Config → Config → Prop
  | steps {c c' : Config} : (server SHA256).Steps (fun _ _ => True) c c' → Later SHA256 c c'
  | again {c c₁ c' : Config} {disk : Bytes → Option Bytes} : Later SHA256 c c₁ → LeavesDisk SHA256 c₁ disk →
      (server SHA256).Reachable (.boot c₁.state.db.file disk) c' → Later SHA256 c c'

/-! ## The tables grow -/

/-- A process keeps the rows it starts with. -/
theorem reachable_grow (h : (server SHA256).ReachableWhen ok s c) :
    s.db.users <+: c.state.db.users ∧ s.db.messages <+: c.state.db.messages ∧
      s.db.files.map FileRow.file_id <+: c.state.db.files.map FileRow.file_id := by
  induction h with
  | init => exact ⟨List.prefix_refl _, List.prefix_refl _, List.prefix_refl _⟩
  | step _ hs _ ih =>
    exact ⟨ih.1.trans (step_users_grow hs.state), ih.2.1.trans (step_messages_grow hs.state),
      ih.2.2.trans (step_fileIds_grow hs.state)⟩

theorem Later.grow (h : Later SHA256 c c') :
    c.state.db.users <+: c'.state.db.users ∧ c.state.db.messages <+: c'.state.db.messages := by
  induction h with
  | steps hs => exact ⟨steps_users_grow hs, steps_messages_grow hs⟩
  | again _ _ hr ih =>
    obtain ⟨husers, hmessages, -⟩ := reachable_grow hr
    exact ⟨ih.1.trans husers, ih.2.trans hmessages⟩

theorem Running.later (h : Running SHA256 c) (hl : Later SHA256 c c') : Running SHA256 c' := by
  induction hl with
  | steps hs =>
    obtain ⟨s, hstart, hr⟩ := h
    exact ⟨s, hstart, hr.steps hs⟩
  | again _ hdisk hr ih =>
    obtain ⟨s, hstart, hr₁⟩ := ih
    exact ⟨_, .again hstart hr₁ hdisk, hr⟩

/-! ## Answers -/

/-- `e` answers with `m` the user `uid`, who asks for the message numbered `k` to `r`. -/
def AnswersPull (uid r k : Int32) (m : Message) (e : Event) : Prop :=
  ∃ q : ContactMessageRequest,
    Responds .ContactMessageRequest q (packToPacket .ContactMessageResponse (.ContactMessageResponse m)) e ∧
      q.id = r ∧ q.internalid = k ∧ ⟨.getUserIdByToken q.token, uid⟩ ∈ e.pre ∧ m.id ≠ -1

/-- `e` logs in under the name `n`, which is told the id `uid`. -/
def AnswersLogin (n : Bytes) (uid : Int32) (e : Event) : Prop :=
  ∃ pkt, LogsIn pkt uid e ∧ (pkt.request LoginRequest).username = n

/-- The answers up to `c` agree with those up to `c'`: a pull is answered with one
message ever, a name is that of one id, and an id that of one name. -/
structure AnswersAgree (c c' : Config) : Prop where
  pulls : ∀ e e' uid r k m m', e ∈ c.history → e' ∈ c'.history → AnswersPull uid r k m e →
    AnswersPull uid r k m' e' → m = m'
  logins : ∀ e e' n n' uid uid', e ∈ c.history → e' ∈ c'.history → AnswersLogin n uid e →
    AnswersLogin n' uid' e' → (cstr n = cstr n' → uid = uid') ∧
      (c'.state.db.users.length < 2 ^ 31 → uid = uid' → cstr n = cstr n')

/-- What was answered is in the table. -/
theorem answersPull_getMessage (h : (server SHA256).ReachableWhen ok s c) (he : e ∈ c.history) {uid r k : Int32}
    {m : Message} (ha : AnswersPull uid r k m e) : c.state.db.getMessage uid r k = some m := by
  obtain ⟨q, ⟨pkt, fd, hpkt, hp, rfl, ho⟩, rfl, rfl, huid, hid⟩ := ha
  obtain ⟨c₁, c₂, h₁, hs, -, -⟩ := h.event_mem he
  obtain ⟨i, conn, n, hd, l, cb, -, hpre, hh, hrun⟩ := reply_run h₁ hs hpkt ho
  rw [handler_contactMessage hp] at hh
  cases hh
  obtain ⟨uid', found, rfl, hreply⟩ := onContactMessageRequest_runs hrun
  simp only [Prod.mk.injEq, packToPacket_inj, true_and, Body.ContactMessageResponse.injEq] at hreply
  obtain ⟨rfl, -⟩ := hreply
  obtain rfl : uid = uid' := by
    rw [hpre] at huid
    simpa [received] using huid
  cases found with
  | none => exact absurd rfl hid
  | some m =>
    have hget := h.pre_past he (x := ⟨.getMessage uid (pkt.request ContactMessageRequest).id
      (pkt.request ContactMessageRequest).internalid, .ok (some m)⟩) (q := []) (p := received fd conn n pkt ++
        [⟨.getUserIdByToken (pkt.request ContactMessageRequest).token, uid⟩]) (by rw [hpre]; rfl)
    obtain ⟨c₃, c₄, -, hs₃, hk₃, hsteps⟩ := h.event_mem hget
    exact getMessage_steps (Machine.Steps.trans (.tail .refl hs₃ hk₃) hsteps)
      (State.query_ok hs₃.state).2.symm

theorem answersLogin_getUser (h : (server SHA256).ReachableWhen ok s c) (he : e ∈ c.history) {n : Bytes} {uid : Int32}
    (ha : AnswersLogin n uid e) : ∃ u, c.state.db.getUser n = some u ∧ u.id = uid := by
  obtain ⟨pkt, hl, rfl⟩ := ha
  obtain ⟨c₁, c₂, h₁, hs, -, -⟩ := h.event_mem he
  obtain ⟨i, fd, conn, n, user, challenge, token, -, hpre, rfl, -⟩ := logsIn_pre h₁ hs hl
  have hget := h.pre_past he (x := ⟨.getUser (pkt.request LoginRequest).username, .ok (some user)⟩)
    (p := received fd conn n pkt) (by rw [hpre, List.append_assoc]; rfl)
  exact ⟨user, getUser_past h hget rfl, rfl⟩

/-- Two users of one id have one name. -/
theorem TablesIntact.getUser_inj {db : DataAccess} (ht : TablesIntact db) (hlt : db.users.length < 2 ^ 31)
    {n n' : Bytes} {u u' : User} (hu : db.getUser n = some u) (hu' : db.getUser n' = some u') (hid : u.id = u'.id) :
    cstr n = cstr n' := by
  obtain ⟨row, hrow, rfl⟩ := Option.map_eq_some_iff.mp hu
  obtain ⟨row', hrow', rfl⟩ := Option.map_eq_some_iff.mp hu'
  have hname := List.find?_some hrow
  have hname' := List.find?_some hrow'
  simp only [beq_iff_eq] at hname hname'
  have hmem := List.mem_of_find?_eq_some hrow
  have hmem' := List.mem_of_find?_eq_some hrow'
  -- the ids are below the bound of `int`
  have hle : ∀ r ∈ db.users, r.user_id < 2 ^ 31 := by
    intro r hr
    have hin : r.user_id ∈ db.users.map UserRow.user_id := List.mem_map_of_mem hr
    rw [ht.user_ids, List.mem_range'_1] at hin
    omega
  have hsame : row.user_id = row'.user_id := by
    have hint := congrArg Int32.toInt hid
    simp only [UserRow.toUser, User.new, getInt] at hint
    rw [Int32.toInt_ofNat_of_lt (hle row hmem), Int32.toInt_ofNat_of_lt (hle row' hmem')] at hint
    omega
  have hnodup : (db.users.map UserRow.user_id).Nodup := by
    rw [ht.user_ids]
    exact List.nodup_range'
  rw [← hname, ← hname', List.inj_on_of_nodup_map hnodup hmem hmem' hsame]

/-- **Later processes answer as the earlier ones did.** -/
theorem answers_agree (h : Running SHA256 c) (hl : Later SHA256 c c') : AnswersAgree c c' := by
  have htables := tables_intact (h.later hl)
  obtain ⟨husers, hmessages⟩ := hl.grow
  obtain ⟨s', -, hr'⟩ := h.later hl
  obtain ⟨s, -, hr⟩ := h
  constructor
  · intro e e' uid r k m m' he he' ha ha'
    have hm := getMessage_grow hmessages (answersPull_getMessage hr he ha)
    rw [answersPull_getMessage hr' he' ha'] at hm
    exact (Option.some.inj hm).symm
  · intro e e' n n' uid uid' he he' ha ha'
    obtain ⟨u, hu, rfl⟩ := answersLogin_getUser hr he ha
    obtain ⟨u', hu', rfl⟩ := answersLogin_getUser hr' he' ha'
    have hu := getUser_grow husers hu
    constructor
    · intro hn
      rw [DataAccess.getUser, hn, ← DataAccess.getUser, hu'] at hu
      rw [Option.some.inj hu]
    · intro hlt hid
      exact htables.getUser_inj hlt hu hu' hid

/-! ## What is lost -/

/-- What this process, started in `s`, pushes it stored: the message was inserted here, but
for its id and the content that a file's id replaces; and no file that was
registered when the process started is ever announced. -/
structure OwnPushes (s : State) (c : Config) : Prop where
  stored : ∀ g ∈ c.history, ∀ r m, g.act.op = .addSendTask r (messageList m) →
    ∃ e ∈ c.history, ∃ content, e.act = ⟨.insertMessage { m with
      id := 0, message := { m.message with content } }, .ok 1⟩ ∧ (¬ hasFile m.message.type → content = m.message.content)
  announced : ∀ g ∈ c.history, ∀ r m, g.act.op = .addSendTask r (messageList m) → hasFile m.message.type →
    m.message.content ∉ s.db.files.map FileRow.file_id

/-- The INSERT of a turn that went on with its message. -/
theorem stored_past (h : (server SHA256).ReachableWhen ok s c) (he : e ∈ c.history) {q : SendMessageRequest}
    {msgs : List Message} {timestamp : Int32} (hpre : ∃ fd conn n pkt u rowid rest,
      e.pre = received fd conn n pkt ++ (stored q u msgs timestamp rowid ++ rest)) :
    ∃ e ∈ c.history, e.act = ⟨.insertMessage (numbered q.message msgs 0 timestamp), .ok 1⟩ := by
  obtain ⟨fd, conn, n, pkt, u, rowid, rest, hpre⟩ := hpre
  exact ⟨_, h.pre_past he (x := ⟨.insertMessage (numbered q.message msgs 0 timestamp), .ok 1⟩)
    (q := ⟨.getLastInsertRowid, rowid⟩ :: rest) (p := received fd conn n pkt ++ checked q u msgs timestamp)
    (by rw [hpre]; simp [NetChat.stored]), rfl⟩

/-- A file registered here was not registered before. -/
theorem registered_new (h : (server SHA256).ReachableWhen ok s c) (he : e ∈ c.history) {f : Bytes}
    (hx : e.act = ⟨.insertFile f, .ok 1⟩) : f ∉ s.db.files.map FileRow.file_id := by
  obtain ⟨c₁, c₂, h₁, hs, -, -⟩ := h.event_mem he
  exact fun hold => (State.step_insertFile_ok hs.state hx).1 ((reachable_grow h₁).2.2.subset hold)

/-- A message pending on a file was stored here, and its file registered here. -/
theorem pending_stored (h : (server SHA256).ReachableWhen ok s c) (hempty : ∀ f, s.file_msg_pool f = none) {f : Bytes}
    {r : Int32} {m : Message} (hp : c.state.file_msg_pool f = some (r, m)) :
    (∃ e ∈ c.history, ∃ content, e.act = ⟨.insertMessage { m with
      id := 0, message := { m.message with content } }, .ok 1⟩) ∧ hasFile m.message.type ∧
        m.message.content ∉ s.db.files.map FileRow.file_id := by
  obtain ⟨e, he, hx⟩ := pool_set_of_empty h (hempty f) hp
  obtain ⟨c₁, c₂, h₁, hs, -, -⟩ := h.event_mem he
  have hi := hs.issues h₁
  rw [hx] at hi
  obtain ⟨i, fd, conn, n, pkt, user, msgs, timestamp, rowid, out, -, -, hf, -, rfl, rfl, hpre⟩ := issues_setFileMsg hi
  have hfile := h.pre_past he (x := ⟨.insertFile f, .ok 1⟩)
    (p := received fd conn n pkt ++ (stored (pkt.request SendMessageRequest) user msgs timestamp rowid ++
      [⟨.getUUID, f⟩])) (by rw [hpre]; simp [filed]; rfl)
  rw [filed, List.append_assoc] at hpre
  obtain ⟨g, hg, hins⟩ := stored_past h he ⟨_, _, _, _, _, _, _, hpre⟩
  exact ⟨⟨g, hg, _, hins⟩, hf, registered_new h hfile rfl⟩

/-- What a push carries was stored here, and has a content that is old only if it is no file. -/
theorem push_stored (h : (server SHA256).ReachableWhen ok s c) (hempty : ∀ f, s.file_msg_pool f = none)
    (he : e ∈ c.history) {r : Int32} {m : Message} (ho : e.act.op = .addSendTask r (messageList m)) :
    (∃ g ∈ c.history, ∃ content, g.act = ⟨.insertMessage { m with
      id := 0, message := { m.message with content } }, .ok 1⟩ ∧
        (¬ hasFile m.message.type → content = m.message.content)) ∧
      (hasFile m.message.type → m.message.content ∉ s.db.files.map FileRow.file_id) := by
  obtain ⟨c₁, c₂, h₁, hs, -, hsteps⟩ := h.event_mem he
  have hi := hs.issues h₁
  rw [ho] at hi
  obtain ⟨-, hpush⟩ := issues_push hi
  generalize hpre : e.pre = l at hpush
  generalize hp : messageList m = p at hpush
  cases hpush with
  | contacts => simp [messageList, contactPacket] at hp
  | @notice fd conn n pkt out u msgs timestamp rowid m' ht hf hm =>
    simp only [messageList, packToPacket_inj, true_and, Body.ContactMessageListRequest.injEq, List.cons.injEq,
      and_true] at hp
    subst hp hm
    obtain ⟨g, hg, hins⟩ := stored_past h he ⟨_, _, _, _, _, _, _, hpre⟩
    exact ⟨⟨g, hg, _, hins, fun _ => rfl⟩, fun hfile => absurd hfile hf⟩
  | @forward fd conn n pkt out uid row wrote ret r m' ht hr =>
    simp only [messageList, packToPacket_inj, true_and, Body.ContactMessageListRequest.injEq, List.cons.injEq,
      and_true] at hp
    subst hp
    -- the pool held the message when it was asked
    have hget := h.pre_past he (x := ⟨.getFileMsg (pkt.request FileUploadRequest).id, (r, m)⟩)
      (p := received fd conn n pkt ++ (stowed (pkt.request FileUploadRequest) uid row wrote ret ++
        [⟨.Send fd (uploadResponse true), out⟩])) (by rw [hpre]; simp; rfl)
    obtain ⟨c₃, c₄, h₃, hs₃, -, hsteps⟩ := h.event_mem hget
    obtain ⟨⟨g, hg, content, hins⟩, hf, hnew⟩ := pending_stored h₃ hempty (getFileMsg_pool hs₃.state hr)
    obtain ⟨later, hl⟩ := hsteps.history
    exact ⟨⟨g, by rw [hl, hs₃.history]; simp [hg], content, hins, fun hno => absurd hf hno⟩, fun _ => hnew⟩

/-- **A process pushes only what it stored itself.** -/
theorem own_pushes {file : DbFile} {disk : Bytes → Option Bytes}
    (h : (server SHA256).Reachable (.boot file disk) c) : OwnPushes (.boot file disk) c where
  stored := fun _ hg _ _ ho => (push_stored h (fun _ => rfl) hg ho).1
  announced := fun _ hg _ _ ho => (push_stored h (fun _ => rfl) hg ho).2

/-! ## Bob returns -/

namespace Example

/-- Bob pulls his first note. -/
def pullsNote : Schedule :=
  handles 0 5 0 (packToPacket .ContactMessageRequest (.ContactMessageRequest ⟨token, 1, 1⟩))
    [⟨.getUserIdByToken token, 1⟩, ⟨.getMessage 1 1 1, .ok (some noteAnswer)⟩,
      replies 5 0 .ContactMessageResponse (.ContactMessageResponse noteAnswer)]

/-- Whether `e` answers the note that Bob pulls. -/
def answersNotePull (e : Event) : Bool :=
  decide (handling e.pre = some (packToPacket .ContactMessageRequest (.ContactMessageRequest ⟨token, 1, 1⟩)) ∧
    e.act.op = .Send 5 (packToPacket .ContactMessageResponse (.ContactMessageResponse noteAnswer))) &&
    e.pre.any fun x => decide (x = ⟨.getUserIdByToken token, 1⟩)

theorem answersPull_of_note {e : Event} (h : answersNotePull e = true) : AnswersPull 1 1 1 noteAnswer e := by
  obtain ⟨hsend, hlook⟩ := Bool.and_eq_true_iff.mp h
  obtain ⟨hpkt, ho⟩ := of_decide_eq_true hsend
  obtain ⟨x, hx, hid⟩ := List.any_eq_true.mp hlook
  obtain rfl := of_decide_eq_true hid
  exact ⟨⟨token, 1, 1⟩, ⟨_, 5, hpkt, rfl, rfl, ho⟩, rfl, rfl, hx, by decide⟩

/-- Bob's picture as it is in the table, and the note he sends after it. -/
def pictureRow : Message := answer picture picture.message.content

def laterAnswer : Message := numbered (note (bytes "a")).message [pictureRow] 2 1700000000

/-- Bob is back and has set up his channel; on another connection he uploads the
picture, of which nothing is pending, and writes to himself. -/
def uploadsLate : Schedule :=
  returns ++
    handles 0 5 0 (packToPacket .SetupChannelRequest (.SetupChannelRequest ⟨token⟩))
      [⟨.getUserIdByToken token, 1⟩, replies 5 0 .ServerAckResponse .ServerAckResponse, ⟨.setFd 1 5, false⟩,
        ⟨.getAllUsers, .ok [bob]⟩, ⟨.getAllMessages 1 1, .ok [pictureRow]⟩, ⟨.getSender 1, true⟩,
        ⟨.addSendTask 1 (contactPacket { contacts with internalids := [1] }), ()⟩, ⟨.epollDel 5, true⟩] ++
    connects 6 ++
    handles 0 6 1 uploadsPacket (stowed uploads 1 unnamed .saved (.ok 1) ++
      [⟨.Send 6 (uploadResponse true), ⟨some 1, true⟩⟩, ⟨.getFileMsg fileid, (0, default)⟩]) ++
    handles 0 6 1 (packToPacket .SendMessageRequest (.SendMessageRequest (note (bytes "a"))))
      (stored (note (bytes "a")) bob [pictureRow] 1700000000 2 ++
        [replies 6 1 .SendMessageResponse (.SendMessageResponse laterAnswer), ⟨.getSender 1, true⟩,
          ⟨.getSender 1, true⟩, ⟨.addSendTask 1 (messageList laterAnswer), ()⟩])

end Example

/-- Bob pulls his note from two processes. -/
theorem answers_agree_note : ∃ c c', (∃ e ∈ c.history, AnswersPull 1 1 1 Example.noteAnswer e) ∧
    (∃ e ∈ c'.history, AnswersPull 1 1 1 Example.noteAnswer e) ∧ AnswersAgree c c' := by
  obtain ⟨c, c', hr, hr', hc, hc'⟩ := restarted_of_runs Example.SHA256
    (Example.sendsNote ++ (.worker 0, ⟨.getSender 1, false⟩) :: Example.pullsNote) (Example.returns ++ Example.pullsNote)
    (fun c c' => (∃ e ∈ c.history, Example.answersNotePull e = true) ∧
      ∃ e ∈ c'.history, Example.answersNotePull e = true) (by decide +kernel)
  obtain ⟨e, he, ha⟩ := hc
  obtain ⟨e', he', ha'⟩ := hc'
  exact ⟨c, c', ⟨e, he, Example.answersPull_of_note ha⟩, ⟨e', he', Example.answersPull_of_note ha'⟩,
    answers_agree (.of_reachable hr) (.again (.steps .refl) .settled hr')⟩

/-- The picture is on disk and its message is not queued, the note's is. -/
theorem own_pushes_late : ∃ c c', Reachable Example.SHA256 c ∧
    c.state.file_msg_pool Example.fileid = some (1, Example.answer Example.picture Example.fileid) ∧
    c'.state.disk Example.fileid = some (bytes "pixels") ∧
    c'.state.queue 1 = [contactPacket { Example.contacts with internalids := [1] },
      messageList Example.laterAnswer] ∧
    OwnPushes (.boot c.state.db.file c.state.disk) c' := by
  obtain ⟨c, c', hr, hr', hpending, hdisk, hqueue⟩ := restarted_of_runs Example.SHA256 Example.pictured
    Example.uploadsLate (fun c c' =>
      c.state.file_msg_pool Example.fileid = some (1, Example.answer Example.picture Example.fileid) ∧
      c'.state.disk Example.fileid = some (bytes "pixels") ∧
      c'.state.queue 1 = [contactPacket { Example.contacts with internalids := [1] },
        messageList Example.laterAnswer]) (by decide +kernel)
  exact ⟨c, c', hr, hpending, hdisk, hqueue, own_pushes hr'⟩

end NetChat
