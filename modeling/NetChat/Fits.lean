/-
Whether what the server sends fits the buffer of `SendMesg`. A reply of fixed
form, and the push of a file's message, always do. The others carry as much as
the tables and the disk hold, and fit where the requests left room.
-/
import NetChat.Download
import NetChat.Room

namespace NetChat

open Interleave Prog Server Wire

variable {SHA256 : Bytes → Bytes} {ok : Config → Event → Prop} {c c' : Config} {e : Event} {l : List Entry}

/-! ## What replies are made of -/

/-- Where a reply to `pkt` has its data from, `l` being its handler's log. -/
inductive ReplyOf (pkt : Packet) (l : List Entry) : Packet → Prop
  | short {t : PacketType} {b : Body} : b.encode.length ≤ 400 → ReplyOf pkt l (packToPacket t b)
  | challenge {seed : Int} {challenge : Bytes} : ⟨.genChallenge seed, challenge⟩ ∈ l →
      ReplyOf pkt l (packToPacket .LoginPreResponse (.LoginPreResponse challenge))
  | token {id : Int32} {token : Bytes} : ⟨.getUUID, token⟩ ∈ l →
      ReplyOf pkt l (packToPacket .LoginResponse (.LoginResponse ⟨true, id, token⟩))
  | text {m : Message} {r : Sql Nat} {rowid : Nat} {l' : List Entry} : ¬ hasFile m.message.type →
      l = l' ++ [⟨.insertMessage m, r⟩, ⟨.getLastInsertRowid, rowid⟩] →
      ReplyOf pkt l (packToPacket .SendMessageResponse (.SendMessageResponse { m with id := Int32.ofNat rowid }))
  | file {m : Message} : ⟨.getUUID, m.message.content⟩ ∈ l →
      ReplyOf pkt l (packToPacket .SendMessageResponse (.SendMessageResponse m))
  | pulled {s r i : Int32} {m : Message} : ⟨.getMessage s r i, .ok (some m)⟩ ∈ l →
      ReplyOf pkt l (packToPacket .ContactMessageResponse (.ContactMessageResponse m))
  | missing {x : Entry} {uuid : Bytes} {row : FileStorage} {l' : List Entry} :
      pkt.packetid = PacketType.val .FileDownloadRequest → l = x :: ⟨.getFile uuid, .ok (some row)⟩ :: l' →
      ReplyOf pkt l (packToPacket .FileDownloadResponse (.FileDownloadResponse ⟨default, row.hash⟩))
  | loaded {x y : Entry} {uuid content : Bytes} {row : FileStorage} :
      l = [x, ⟨.getFile uuid, .ok (some row)⟩, y, ⟨.loadFromDisk row.id, some content⟩] →
      ReplyOf pkt l (packToPacket .FileDownloadResponse (.FileDownloadResponse ⟨⟨row.name, content⟩, row.hash⟩))

/-- **Where replies come from.** -/
theorem handler_reply {fd : Int32} {pkt : Packet} {hd : Code Reply} {reply : Reply}
    (hh : handler SHA256 fd pkt = some hd) (h : hd.Runs l reply) : ReplyOf pkt l reply.1 := by
  unfold handler at hh
  split at hh
  case h_1 =>
    cases hh
    obtain ⟨rfl, rfl⟩ := runs_ret.mp h
    exact .short (by decide)
  case h_2 =>
    cases hh
    obtain ⟨rfl, rfl⟩ := runs_ret.mp h
    exact .short (by decide)
  case h_3 =>
    cases hh
    rcases onRegisterRequest_runs h with ⟨-, rfl, rfl⟩ | ⟨ret, -, rfl, rfl⟩
    · exact .short (by decide)
    · refine .short ?_
      cases g_db.caught ret != 0 <;> decide
  case h_4 =>
    cases hh
    obtain ⟨challenge, hrun, rfl⟩ := onLoginPreRequest_runs h
    cases hrun with
    | unknown => exact .short (by decide)
    | @given user seed challenge =>
      have hdrawn : ⟨.genChallenge seed, challenge⟩ ∈ ([⟨.getUser (pkt.request LoginPreRequest).username,
          .ok (some user)⟩, ⟨.time, seed⟩, ⟨.genChallenge seed, challenge⟩,
          ⟨.setChallengeMp user.id challenge, ()⟩] : List Entry) := by simp
      exact .challenge hdrawn
  case h_5 =>
    cases hh
    obtain ⟨r, hrun, rfl⟩ := onLoginRequest_runs h
    cases hrun with
    | unknown | refused => exact .short (by decide +kernel)
    | accepted => exact .token (by simp)
  case h_6 =>
    cases hh
    obtain ⟨uid, rfl, rfl⟩ := onSetupChannelRequest_runs h
    exact .short (by decide)
  case h_7 =>
    cases hh
    cases onSendMessageRequest_runs h with
    | refused | fileFailed => exact .short (by decide)
    | text hf hm =>
      subst hm
      exact .text (m := numbered (pkt.request SendMessageRequest).message _ 0 _) hf rfl
    | file hf hm =>
      subst hm
      exact .file (by simp [numbered])
  case h_8 =>
    cases hh
    cases onFileUploadRequest_runs h <;> exact .short (by decide)
  case h_9 hcast =>
    cases hh
    obtain ⟨r, hrun, rfl⟩ := onFileDownloadRequest_runs h
    cases hrun with
    | refused => exact .short (by decide)
    | missing => exact .missing (PacketType.cast_eq_some.mp hcast) rfl
    | loaded => exact .loaded rfl
  case h_10 =>
    cases hh
    obtain ⟨uid, r, rfl, rfl⟩ := onContactMessageRequest_runs h
    cases r with
    | none => exact .short (by decide)
    | some m => exact .pulled (.tail _ (.head _))
  case h_11 => cases hh

/-! ## What is sent -/

/-- A message with the id of a file for its content takes little room. -/
theorem length_encode_file {m : Message} (h : m.message.content.length = 36) : m.encode.length ≤ 124 := by
  have := m.size_le
  rw [length_encode_message]
  omega

theorem length_of_getUUID {s s' : State} {uuid : Bytes} (h : s.step .getUUID uuid = some s') : uuid.length = 36 := by
  simp only [State.step, Option.ite_none_right_eq_some, isUUID, Bool.and_eq_true, beq_iff_eq] at h
  exact h.1.1

theorem length_of_genChallenge {s s' : State} (seed : Int) {challenge : Bytes}
    (h : s.step (.genChallenge seed) challenge = some s') : challenge.length = 32 := by
  simp only [State.step, Option.ite_none_right_eq_some, isChallenge, Bool.and_eq_true, beq_iff_eq] at h
  exact h.1.1

theorem challenge_fits {challenge : Bytes} (h : challenge.length = 32) :
    (packToPacket .LoginPreResponse (.LoginPreResponse challenge)).serialize.length ≤ kMaxMessageSize := by
  have hstring := stringSize_le challenge.length
  have hlen := length_serialize_le .LoginPreResponse (.LoginPreResponse challenge)
  rw [Body.encode, length_stringField (by decide)] at hlen
  have hmax : kMaxMessageSize = 1048576 := rfl
  omega

theorem token_fits {id : Int32} {token : Bytes} (h : token.length = 36) :
    (packToPacket .LoginResponse (.LoginResponse ⟨true, id, token⟩)).serialize.length ≤ kMaxMessageSize := by
  have hbool := length_boolField_le (by decide : 1 < 16) true
  have hid := length_int32Field_le (by decide : 2 < 16) id
  have hstring := stringSize_le token.length
  have hlen := length_serialize_le .LoginResponse (.LoginResponse ⟨true, id, token⟩)
  simp only [Body.encode, LoginResponse.encode, List.length_append, length_stringField (by decide : 3 < 16)] at hlen
  have hmax : kMaxMessageSize = 1048576 := rfl
  omega

/-- So does a message of a file, in a reply and pushed. -/
theorem fileMessage_fits {m : Message} (h : m.message.content.length = 36) :
    (packToPacket .SendMessageResponse (.SendMessageResponse m)).serialize.length ≤ kMaxMessageSize ∧
      (messageList m).serialize.length ≤ kMaxMessageSize := by
  have hm := length_encode_file h
  have hfield := fieldSize_le m.encode.length
  have hmax : kMaxMessageSize = 1048576 := rfl
  constructor
  · have hlen := length_serialize_le .SendMessageResponse (.SendMessageResponse m)
    rw [Body.encode, length_messageField (by decide)] at hlen
    omega
  · have hlen := length_serialize_le .ContactMessageListRequest (.ContactMessageListRequest [m])
    simp only [Body.encode, length_repeatedField (by decide : 1 < 16), List.map_cons, List.map_nil, List.sum_cons,
      List.sum_nil] at hlen
    unfold messageList
    omega

/-- A worker's reply fits. -/
theorem reply_fits (h : ReachableWhen SHA256 InputsFit c) (hs : (server SHA256).Step c e c') {i : Nat}
    (ht : e.tid = .worker i) {fd : Int32} {p : Packet} (ho : e.act.op = .Send fd p) :
    p.serialize.length ≤ kMaxMessageSize := by
  have hi := hs.issues h
  rw [ht, ho] at hi
  obtain ⟨conn, n, pkt, hd, l, cb, hl, hh, hr⟩ := worker_issues_send hi
  have hlog := hs.log
  rw [ht, hl] at hlog
  -- the handler's log happened
  have hmem : ∀ x ∈ l, ∃ g ∈ c.history, g.act = x := by
    intro x hx
    obtain ⟨g, hg, -, hact⟩ := h.log_mem_history (t := .worker i) (x := x) (by rw [hlog]; simp [hx])
    exact ⟨g, hg, hact⟩
  have hstep : ∀ x ∈ l, ∃ c₁ s, ReachableWhen SHA256 InputsFit c₁ ∧ c₁.state.step x.op x.res = some s := by
    intro x hx
    obtain ⟨g, hg, rfl⟩ := hmem x hx
    obtain ⟨c₁, c₂, h₁, hs₁, -, -⟩ := h.event_mem hg
    exact ⟨c₁, c₂.state, h₁, hs₁.state⟩
  have hreply : ReplyOf pkt l p := handler_reply hh hr
  cases hreply with
  | @short t b hb =>
    have hlen := length_serialize_le t b
    have hmax : kMaxMessageSize = 1048576 := rfl
    omega
  | @challenge seed challenge hx =>
    obtain ⟨c₁, s, -, hdrawn⟩ := hstep _ hx
    exact challenge_fits (length_of_genChallenge seed hdrawn)
  | @token id token hx =>
    obtain ⟨c₁, s, -, hdrawn⟩ := hstep _ hx
    exact token_fits (length_of_getUUID hdrawn)
  | @text m r rowid l' hf hx =>
    obtain ⟨g, hg, hact⟩ := hmem ⟨.insertMessage m, r⟩ (by rw [hx]; simp)
    obtain ⟨c₁, c₂, -, -, hk, -⟩ := h.event_mem hg
    have hm : m.message.Fits := (hk.message m (by rw [hact])).1
    rw [length_sendMessageResponse]
    exact RawMessage.Fits.answered hm
  | @file m hx =>
    obtain ⟨c₁, s, -, hdrawn⟩ := hstep _ hx
    exact (fileMessage_fits (length_of_getUUID hdrawn)).1
  | @pulled s r i m hx =>
    obtain ⟨c₁, s₁, h₁, hread⟩ := hstep _ hx
    obtain ⟨row, hrow, rfl⟩ := Option.map_eq_some_iff.mp (State.query_ok hread).2.symm
    rw [length_contactMessageResponse]
    exact (row_fits h₁ (List.mem_of_find?_eq_some hrow)).pulled
  | @missing x uuid row l' htype hx =>
    obtain ⟨g, hg, hact⟩ := hmem ⟨.getFile uuid, .ok (some row)⟩ (by rw [hx]; simp)
    rw [length_fileDownloadResponse]
    exact hash_room h hg hact
  | @loaded x y uuid content row hx =>
    obtain ⟨g, hg, hact⟩ := hmem ⟨.getFile uuid, .ok (some row)⟩ (by rw [hx]; simp)
    obtain ⟨g', hg', hact'⟩ := hmem ⟨.loadFromDisk row.id, some content⟩ (by rw [hx]; simp)
    rw [length_fileDownloadResponse]
    exact download_room h hg hg' hact hact'

/-- What the pool holds for a file is small: its content is a file's id. -/
theorem pending_short (h : (server SHA256).ReachableWhen ok State.initial c) {f : Bytes} {r : Int32} {m : Message}
    (hp : c.state.file_msg_pool f = some (r, m)) : m.message.content.length = 36 := by
  obtain ⟨e, he, ha⟩ := pool_set h hp
  obtain ⟨c₁, c₂, h₁, hs, -, -⟩ := h.event_mem he
  have hi := hs.issues h₁
  rw [ha] at hi
  obtain ⟨i, fd, conn, n, pkt, u, msgs, timestamp, rowid, out, ht, -, -, -, -, rfl, hl⟩ := issues_setFileMsg hi
  have hlog := hs.log
  rw [hl, ht, filed, List.append_assoc, ← List.append_assoc] at hlog
  obtain ⟨c₃, c₄, -, hs₃, -, -⟩ := h₁.log_event hlog
  exact length_of_getUUID hs₃.state

/-- A contact list that is queued fits. -/
theorem contacts_fit (h : ReachableWhen SHA256 InputsFit c) {t : Tid} {fd : Int32} {conn : Conn} {n : Nat} {pkt : Packet}
    {out : SendOut} {uid : Int32} {found : Bool} {users : List User} {l : List Entry} {list : ContactListRequest}
    (hrun : (contactList uid users).Runs l list)
    (hl : (c.threads t).log = received fd conn n pkt ++
      ⟨.getUserIdByToken (pkt.request SetupChannelRequest).token, uid⟩ ::
        ⟨.Send fd (packToPacket .ServerAckResponse .ServerAckResponse), out⟩ ::
          (installed uid fd found ++ ⟨.getAllUsers, .ok users⟩ :: (l ++ [⟨.getSender uid, true⟩]))) :
    (contactPacket list).serialize.length ≤ kMaxMessageSize := by
  obtain ⟨hcontacts, reads, hlen, hids, rfl⟩ := contactList_runs hrun
  obtain ⟨c₁, c₂, mid, h₁, hs₁, hsteps, -, -, hafter⟩ := h.log_between (t := t) (x := ⟨.getAllUsers, .ok users⟩)
    (p := received fd conn n pkt ++ ⟨.getUserIdByToken (pkt.request SetupChannelRequest).token, uid⟩ ::
      ⟨.Send fd (packToPacket .ServerAckResponse .ServerAckResponse), out⟩ :: installed uid fd found)
    (by rw [hl]; simp; rfl)
  have husers : users <+: c.state.db.getAllUsers := by
    rw [(State.query_ok hs₁.state).2]
    exact ((users_grow_step hs₁).trans (steps_users_grow hsteps)).map _
  -- who it is for is a user: the token resolved to one whose sender there is
  have huser : c.state.db.hasUser uid := by
    have hlook := h.log_history (t := t) (p := received fd conn n pkt)
      (x := ⟨.getUserIdByToken (pkt.request SetupChannelRequest).token, uid⟩) (by rw [hl])
    have hboot : (server SHA256).Reachable (.boot .absent fun _ => none) c := InputsFit.reachable h
    rcases resolved_intact hboot hlook rfl with hzero | huser
    · obtain ⟨c₃, c₄, p', -, hs₃, -⟩ := hafter ⟨.getSender uid, true⟩ (by simp)
      have hsender := hs₃.state
      simp [server, State.step, State.getSender, hzero] at hsender
    · exact huser
  obtain ⟨u, hu, rfl⟩ := huser
  rw [contactPacket, length_contactList]
  have hsize : list.size ≤ listSize c.state.db u.id := by
    refine contactList_size_le hcontacts hids hlen husers fun y hy => ?_
    obtain ⟨c₃, c₄, p', h₃, hs₃, h₄⟩ := hafter ⟨.getAllMessages u.id y.1.id, .ok y.2⟩
      (List.mem_append_left _ (List.mem_map.mpr ⟨y, hy, rfl⟩))
    rw [(State.query_ok hs₃.state).2]
    exact getAllMessages_grow ((step_messages_grow (x := ⟨.getAllMessages u.id y.1.id, .ok y.2⟩) hs₃.state).trans
      (steps_messages_grow h₄))
  exact (envelopeSize_le le_rfl (Nat.add_le_add_left (stringSize_mono hsize) _)).trans (lists_fit h u hu)

/-- A packet that is queued fits. -/
theorem queued_fits (h : ReachableWhen SHA256 InputsFit c) (hs : (server SHA256).Step c e c')
    {uid : Int32} {p : Packet} (ho : e.act.op = .addSendTask uid p) : p.serialize.length ≤ kMaxMessageSize := by
  have hi := hs.issues h
  rw [ho] at hi
  obtain ⟨⟨i, ht⟩, hstep⟩ := issues_push hi
  have hlog := hs.log
  rw [ht] at hlog
  generalize hpre : e.pre = l at hstep hlog
  cases hstep with
  | contacts _ hrun => exact contacts_fit h hrun hlog
  | @notice fd conn n pkt out u msgs timestamp rowid m htype hf hm =>
    obtain ⟨g, hg, -, hact⟩ := h.log_mem_history (t := .worker i)
      (x := ⟨.insertMessage (numbered (pkt.request SendMessageRequest).message msgs 0 timestamp), .ok 1⟩)
      (by rw [hlog]; simp [stored])
    obtain ⟨c₁, c₂, -, -, hk, -⟩ := h.event_mem hg
    have hfits := (hk.message _ (by rw [hact])).1
    rw [messageList, length_contactMessageList]
    subst hm
    exact RawMessage.Fits.pushed (m := numbered _ _ _ _) hfits hf
  | @forward fd conn n pkt out uid' row wrote ret r m htype hr =>
    rw [← List.append_assoc, List.append_cons] at hlog
    obtain ⟨c₁, c₂, h₁, hs₁, -, -⟩ := h.log_event hlog
    exact (fileMessage_fits (pending_short h₁ (getFileMsg_pool hs₁.state hr))).2

/-- **Every packet sent fits the buffer**, in runs whose requests leave room. -/
theorem sent_fits (h : ReachableWhen SHA256 InputsFit c) (hs : (server SHA256).Step c e c') {fd : Int32} {p : Packet}
    (ho : e.act.op = .Send fd p) : p.Sendable := by
  rw [sendable_iff]
  have hi := hs.issues h
  rw [ho] at hi
  generalize ht : e.tid = tid at hi
  cases tid with
  | acceptor => exact absurd (sat_acceptor.issues hi) (by simp [Op.ofAcceptor])
  | worker i => exact reply_fits h hs ht ho
  | sender uid =>
    obtain ⟨g, hg, ha⟩ := sent_pushed h hs ht ho
    obtain ⟨c₁, c₂, h₁, hs₁, -, -⟩ := h.event_mem hg
    exact queued_fits h₁ hs₁ (by rw [ha])

/-! ## A message that fits and its reply that does not -/

/-- Packets arrive as they are serialized. -/
def Canonical (_ : Config) (e : Event) : Prop :=
  ∀ fd conn n pkt, e.act = ⟨.Recv fd, .packet conn n pkt⟩ → n = pkt.serialize.length

namespace Example

def checkCanonical (_ : Config) (e : Event) : Bool :=
  match e.act with
  | ⟨.Recv _, .packet _ n pkt⟩ => n == pkt.serialize.length
  | _ => true

theorem canonical_of_check (h : checkCanonical c e = true) : Canonical c e := by
  intro fd conn n pkt he
  rw [checkCanonical, he] at h
  simpa using h

def registration : Packet := packToPacket .RegisterRequest (.RegisterRequest ⟨bob.username, password⟩)

/-- Bob connects and registers; then more bytes arrive. -/
def registered : Schedule :=
  connects 5 ++ arrives 5 ++
    (received 5 0 registration.serialize.length registration ++
      [⟨.insertUser bob.username digest, .ok 1⟩,
        replies 5 0 .RegisterResponse (.RegisterResponse true)]).map (fun x => (.worker 0, x)) ++
    arrives 5

/-- A message to Bob in nobody's name and without a token. -/
def long (content : Bytes) : SendMessageRequest := ⟨[], ⟨0, 1, MessageType.TEXT, content⟩⟩

def longPacket (content : Bytes) : Packet :=
  packToPacket .SendMessageRequest (.SendMessageRequest (long content))

/-- The message it is answered with. -/
def longMessage (content : Bytes) : Message := numbered (long content).message [] 1 1700000000

/-- A worker about to take up the second packet. -/
theorem exists_registered : ∃ c, ReachableWhen Example.SHA256 Canonical c ∧ c.crashed = false ∧
    (c.threads (.worker 0)).log = [] ∧ c.state.db.users = [⟨1, bob.username, digest⟩] ∧ c.state.db.messages = [] ∧
    c.state.RecvSocketQueue = [5] ∧ c.state.fds 5 = some 0 :=
  reachableWhen_of_run Example.SHA256 Canonical checkCanonical registered _
    (fun _ _ _ _ _ _ hcheck => canonical_of_check hcheck) (by decide +kernel)

/-- The message is stored, whatever its content, and answered. -/
theorem exists_answered {content : Bytes} (hlt : (longPacket content).serialize.length < kMaxMessageSize) :
    ∃ c e c', ReachableWhen Example.SHA256 Canonical c ∧ (server Example.SHA256).Step c e c' ∧
      e.act.op = .Send 5 (packToPacket .SendMessageResponse (.SendMessageResponse (longMessage content))) := by
  obtain ⟨c, hr, hc, hlog, husers, hmsgs, hqueue, hfd⟩ := exists_registered
  have hpos : 0 < (longPacket content).serialize.length := by
    rw [longPacket, length_serialize, envelopeSize, fieldSize]
    omega
  have hstates : ∃ s, (server Example.SHA256).stepAll c.state
      (received 5 0 (longPacket content).serialize.length (longPacket content) ++
        stored (long content) bob [] 1700000000 1) = some s := by
    have hbob : bob = (⟨1, bob.username, digest⟩ : UserRow).toUser := by decide
    simp [← hbob, Machine.stepAll, server, received, stored, checked, State.step, State.recv, State.query, State.insert,
      State.getUserIdByToken, hqueue, hfd, hpos, hlt, long, DataAccess.getUserById, husers,
      DataAccess.getAllMessages, hmsgs, DataAccess.insertMessage]
  obtain ⟨s, hstates⟩ := hstates
  have hrun : (onSendMessageRequest (longPacket content)).Runs (stored (long content) bob [] 1700000000 1)
      (packToPacket .SendMessageResponse (.SendMessageResponse (longMessage content)),
        some (notifyReceiver 1 (longMessage content))) :=
    onSendMessageRequest_text (show ¬ hasFile MessageType.TEXT by decide)
  obtain ⟨k, hk⟩ : ((server Example.SHA256).body (.worker 0)).Issues _ _ :=
    worker_replies (handler_sendMessage rfl) hrun rfl
  have hpath := hr.path (.worker 0)
  rw [hlog] at hpath
  rw [← Path.det hpath .nil] at hk
  -- the one packet received is as long as its serialization
  have hcanonical : ∀ (c : Config) (e : Event), e.tid = .worker 0 →
      e.act ∈ received 5 0 (longPacket content).serialize.length (longPacket content) ++
        stored (long content) bob [] 1700000000 1 → Canonical c e := by
    intro c e _ he fd conn n pkt hact
    rw [hact] at he
    simp only [received, stored, checked, List.cons_append, List.nil_append, List.mem_cons, Interleave.Entry.mk.injEq,
      reduceCtorEq, false_and, List.not_mem_nil, or_false, false_or, Op.Recv.injEq] at he
    obtain ⟨rfl, he⟩ := he
    cases he
    rfl
  obtain ⟨c', hr', hc', -, hthread⟩ := hr.go_on hc hk hstates hcanonical
  have hsend : (server Example.SHA256).step c'.state
      ⟨.Send 5 (packToPacket .SendMessageResponse (.SendMessageResponse (longMessage content))),
        ⟨c'.state.fds 5, false⟩⟩ = some c'.state := by
    simp [server, State.step]
  exact ⟨c', _, _, hr', .mk hc' (by rw [hthread]) hsend, rfl⟩

theorem long_ne_default (content : Bytes) : (long content).message ≠ default := by
  intro h
  have hto : (1 : Int32) = 0 := congrArg RawMessage.to_ h
  cases hto

/-- Of this length it is the longest that is received. -/
theorem length_longPacket {content : Bytes} (h : content.length = 1048504) :
    (longPacket content).serialize.length = kMaxMessageSize - 1 := by
  rw [longPacket, length_serialize, Body.encode, SendMessageRequest.encode, if_neg (long_ne_default _)]
  simp only [RawMessage.encode, List.length_append, length_messageField (by decide : 2 < 16),
    length_stringField (by decide : 1 < 16), length_stringField (by decide : 4 < 16), long, h,
    Body.typeUrl, Body.name]
  decide

theorem length_reply {content : Bytes} (h : content.length = 1048504) :
    (packToPacket .SendMessageResponse (.SendMessageResponse (longMessage content))).serialize.length =
      kMaxMessageSize + 14 := by
  rw [length_sendMessageResponse, messagePacketSize, Message.size,
    if_neg (show (longMessage content).message ≠ default from long_ne_default _)]
  simp only [longMessage, numbered, long, h]
  decide

end Example

/-- The reply to a message that just fits does not. -/
theorem not_sent_fits : ¬ ∀ SHA256 c e c', ReachableWhen SHA256 Canonical c → (server SHA256).Step c e c' →
    ∀ fd p, e.act.op = .Send fd p → p.Sendable := by
  intro h
  have hlen : (List.replicate 1048504 (97 : UInt8)).length = 1048504 := List.length_replicate
  generalize List.replicate 1048504 (97 : UInt8) = content at hlen
  have hlt : (Example.longPacket content).serialize.length < kMaxMessageSize := by
    rw [Example.length_longPacket hlen]
    decide
  obtain ⟨c, e, c', hr, hs, ho⟩ := Example.exists_answered hlt
  have hfits := sendable_iff.mp (h _ c e c' hr hs 5 _ ho)
  rw [Example.length_reply hlen] at hfits
  exact absurd hfits (by decide)


namespace Example

/-- A step with the packet it receives as long as it is serialized. -/
def asSerialized : Tid × Entry → Tid × Entry
  | (t, ⟨.Recv fd, .packet conn _ pkt⟩) => (t, ⟨.Recv fd, .packet conn pkt.serialize.length pkt⟩)
  | y => y

/-- Bob's picture as its row has it, and the note to himself he sends after it. -/
def pictureKept : Message := answer picture (bytes "x")

def secondNote : Message := numbered (note [97]).message [pictureKept] 2 1700000000

/-- The contact list of Bob with Alice in it. -/
def twoContacts : ContactListRequest :=
  ⟨[⟨1, bob.username, true, Contact.FRIEND⟩, ⟨2, alice.username, true, Contact.FRIEND⟩], [2, 0]⟩

/-- The picture is uploaded, gets the name and hash of a refused upload and is downloaded;
Alice registers; Bob sends himself a note, pulls it, and is sent his contact list. -/
def busySession : Schedule :=
  (renamed ++ registers 5 0 alice.username password digest ++ stores 0 (note [97]) bob [pictureKept] 2 ++
    handles 0 5 0 (packToPacket .ContactMessageRequest (.ContactMessageRequest ⟨token, 1, 2⟩))
      [⟨.getUserIdByToken token, 1⟩, ⟨.getMessage 1 1 2, .ok (some secondNote)⟩,
        replies 5 0 .ContactMessageResponse (.ContactMessageResponse secondNote)] ++
    handles 0 5 0 (packToPacket .SetupChannelRequest (.SetupChannelRequest ⟨token⟩))
      [⟨.getUserIdByToken token, 1⟩, replies 5 0 .ServerAckResponse .ServerAckResponse, ⟨.setFd 1 5, false⟩,
        ⟨.getAllUsers, .ok [bob, alice]⟩, ⟨.getAllMessages 1 1, .ok [pictureKept, secondNote]⟩,
        ⟨.getAllMessages 1 2, .ok []⟩, ⟨.getSender 1, true⟩, ⟨.addSendTask 1 (contactPacket twoContacts), ()⟩,
        ⟨.epollDel 5, true⟩] ++
    passes (contactPacket twoContacts)).map asSerialized

end Example

instance (m : RawMessage) : Decidable m.Fits := inferInstanceAs (Decidable (_ ∧ _))

instance (name content hash : Bytes) : Decidable (DownloadFits name content hash) := inferInstanceAs (Decidable (_ ≤ _))

def checkLists (db : DataAccess) : Bool :=
  db.getAllUsers.all fun u => envelopeSize .ContactListRequest 49 (listSize db u.id) ≤ kMaxMessageSize

theorem listsFit_of_check {db : DataAccess} (h : checkLists db = true) : ListsFit db := by
  intro u hu
  simpa using List.all_eq_true.mp h u hu

/-- What an entry leaves in which file. -/
def leaves? : Entry → Option (Bytes × Bytes)
  | ⟨.saveToDisk f whole, out⟩ => (SaveOut.content whole none out).map fun content => (f, content)
  | _ => none

theorem Leaves.leaves? {x : Entry} {f content : Bytes} (h : Leaves x f content) :
    NetChat.leaves? x = some (f, content) := by
  obtain ⟨whole, out, rfl, hleft⟩ := h
  simp [NetChat.leaves?, hleft]

def updates? : Entry → Option FileStorage
  | ⟨.updateFile v, _⟩ => some v
  | _ => none

/-- Whether what a step takes from a client leaves room. -/
def checkInputs (c : Config) (e : Event) : Bool :=
  (match e.act with
    | ⟨.Recv _, .packet _ n pkt⟩ => pkt.serialize.length ≤ n
    | ⟨.insertMessage m, _⟩ => m.message.Fits && checkLists (c.state.db.insertMessage m)
    | ⟨.insertUser n p, _⟩ => (c.state.db.insertUser n p).all checkLists
    | _ => true) &&
  ((updates? e.act).all fun v => c.history.all fun g => (leaves? g.act).all fun y =>
    y.1 != v.id || DownloadFits v.name y.2 v.hash) &&
  ((leaves? e.act).all fun y => c.history.all fun g => (updates? g.act).all fun v =>
    v.id != y.1 || DownloadFits v.name y.2 v.hash)

theorem inputsFit_of_check (h : checkInputs c e = true) : InputsFit c e := by
  simp only [checkInputs, Bool.and_eq_true, Option.all_eq_true, List.all_eq_true, Bool.or_eq_true, bne_iff_ne, ne_eq,
    decide_eq_true_eq] at h
  obtain ⟨⟨hop, hrenamed⟩, hsaved⟩ := h
  refine ⟨?_, ?_, ?_, ?_, ?_⟩
  · intro fd conn n pkt hx
    simpa [hx] using hop
  · intro m ho
    obtain ⟨r, hx⟩ := Entry.of_op ho
    simp only [hx, Bool.and_eq_true, decide_eq_true_eq] at hop
    exact ⟨hop.1, listsFit_of_check hop.2⟩
  · intro n p db ho hdb
    obtain ⟨r, hx⟩ := Entry.of_op ho
    simp only [hx, hdb, Option.all_some] at hop
    exact listsFit_of_check hop
  · intro pkt v ret _ hx _ g hg content hleft _
    exact (hrenamed v (by rw [hx]; rfl) g hg _ hleft.leaves?).resolve_left (by simp)
  · intro f content hleft g hg v ret hx _ hv
    exact (hsaved _ hleft.leaves? g hg v (by rw [hx]; rfl)).resolve_left (by simpa using hv)

/-- What Bob is sent in that session fits. -/
theorem sent_fits_session : ∃ c, ReachableWhen Example.SHA256 InputsFit c ∧
    (∃ e ∈ c.history, e.act.op = .Send 5 (packToPacket .FileDownloadResponse
      (.FileDownloadResponse (Example.pictureFile (uploaded Example.reuploads Example.unnamed))))) ∧
    (∃ e ∈ c.history, e.act.op = .Send 5 (packToPacket .ContactMessageResponse
      (.ContactMessageResponse Example.secondNote))) ∧
    (∃ e ∈ c.history, e.act.op = .Send 5 (contactPacket Example.twoContacts)) ∧
    ∀ e ∈ c.history, ∀ fd p, e.act.op = .Send fd p → p.Sendable := by
  obtain ⟨c, hr, hdownload, hpull, hlist⟩ := reachableWhen_of_run Example.SHA256 InputsFit checkInputs
    Example.busySession (fun c =>
      (∃ e ∈ c.history, e.act.op = .Send 5 (packToPacket .FileDownloadResponse
        (.FileDownloadResponse (Example.pictureFile (uploaded Example.reuploads Example.unnamed))))) ∧
      (∃ e ∈ c.history, e.act.op = .Send 5 (packToPacket .ContactMessageResponse
        (.ContactMessageResponse Example.secondNote))) ∧
      ∃ e ∈ c.history, e.act.op = .Send 5 (contactPacket Example.twoContacts))
    (fun _ _ _ _ _ _ hcheck => inputsFit_of_check hcheck) (by decide +kernel)
  refine ⟨c, hr, hdownload, hpull, hlist, fun e he fd p ho => ?_⟩
  obtain ⟨c₁, c₂, h₁, hs, -, -⟩ := hr.event_mem he
  exact sent_fits h₁ hs ho

end NetChat
