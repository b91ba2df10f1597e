/-
Where a stored message is until its receiver has it: in hand of the turn that
stored it, pending for its file, in hand of the upload that took it out,
queued, with the sender of its receiver, or sent. A pull reads the messages the
other way, from the puller to the contact, so a message that gets lost on this
way can be had only by one who wrote to himself.
-/
import NetChat.InternalIds
import NetChat.Authorised
import NetChat.Pending
import NetChat.Sending

namespace NetChat

open Interleave DataAccess Numbering Server

variable {SHA256 : Bytes → Bytes} {ok : Config → Event → Prop} {c c' : Config} {e : Event} {row : MessageRow}
  {m : Message} {i : Nat}

/-! ## What is promised -/

/-- The turn that stored `row` registered a file under `f`. -/
def FileOf (h : List Event) (row : MessageRow) (f : Bytes) : Prop :=
  ∃ later g earlier, h = later ++ g :: earlier ∧ g.act = ⟨.insertFile f, .ok 1⟩ ∧ OwnRow earlier g row

/-- A message is that of `row`: what the row holds, but of an image or a file with the
id of the file that was registered for it as content. -/
inductive Carries (h : List Event) (row : MessageRow) : Message → Prop
  | text : ¬ hasFile row.type → Carries h row row.toMessage
  | file {f : Bytes} : hasFile row.type → FileOf h row f →
      Carries h row (MessageRow.toMessage { row with content := f })

/-- A request for a message from `row`'s sender, with an internal id no larger than
advertised for it, is answered with the message. -/
def Pulls (SHA256 : Bytes → Bytes) (s : State) (token : Bytes) (row : MessageRow) : Prop :=
  ∃ pkt, pkt.packetid = PacketType.val .ContactMessageRequest ∧
    (pkt.request ContactMessageRequest).token = token ∧ (pkt.request ContactMessageRequest).id = row.sender_id ∧
    (pkt.request ContactMessageRequest).internalid ≤ s.db.advertised row.receiver_id row.sender_id ∧
    Replies SHA256 s pkt (pulled (some row.toMessage))

/-- The sender of `u` sent `p`, with success and on the connection that was then the
channel of `u`. -/
def SentOnChannel (u : Int32) (p : Packet) (h : List Event) : Prop :=
  ∃ later g earlier fd conn, h = later ++ g :: earlier ∧ g.tid = .sender u ∧
    g.act = ⟨.Send fd p, ⟨some conn, true⟩⟩ ∧ ChannelOf u conn earlier

/-- The message was sent on its receiver's channel, is queued for it, or waits for the
upload of its file. -/
inductive HandedOn (c : Config) (row : MessageRow) : Prop
  | sent {m : Message} : Carries c.history row m → SentOnChannel row.receiver_id (messageList m) c.history →
      HandedOn c row
  | queued {m : Message} : Carries c.history row m → messageList m ∈ c.state.queue row.receiver_id → HandedOn c row
  | pending {m : Message} : Carries c.history row m → hasFile row.type →
      c.state.file_msg_pool m.message.content = some (row.receiver_id, m) → HandedOn c row

/-- No message is lost to a receiver who holds a token. -/
def NoneLost (SHA256 : Bytes → Bytes) (c : Config) : Prop :=
  ∀ row ∈ c.state.db.messages, ∀ token, c.state.getUserIdByToken token = row.receiver_id →
    HandedOn c row ∨ Pulls SHA256 c.state token row

/-! ## Internal ids within the count -/

theorem message_ids (h : (server SHA256).ReachableWhen ok State.initial c) :
    Numbered (fun row : MessageRow => (row.message_id : Int)) c.state.db.messages := by
  refine h.state_invariant (fun s => Numbered (fun row : MessageRow => (row.message_id : Int)) s.db.messages)
    numbered_nil fun s x s' hi hs => ?_
  rcases step_messages hs with hm | ⟨m, -, hdb⟩
  · rwa [hm]
  · rw [hdb]
    exact hi.append rfl

theorem toInt_succ_le (n : Int32) : (n + 1).toInt ≤ n.toInt + 1 := by
  have hone : (1 : Int32).toInt = 1 := rfl
  have hlow := n.le_toInt
  have hhigh := n.toInt_lt
  rw [Int32.toInt_add, hone]
  by_cases hmax : n.toInt + 1 < 2 ^ 31
  · exact Int.le_of_eq (Int.bmod_eq_of_le (by omega) (by omega))
  · have heq : n.toInt + 1 = 2 ^ 31 := by omega
    rw [heq]
    decide

/-- What a turn selected of a conversation were its rows then. -/
theorem selected_prefix (h : (server SHA256).ReachableWhen ok State.initial c) {g : Event} (hg : g ∈ c.history)
    {s r : Int32} {msgs : List Message} (hx : g.act = ⟨.getAllMessages s r, .ok msgs⟩) :
    ∃ rows, rows <+: c.state.db.conversation (s, r) ∧ msgs = rows.map MessageRow.toMessage := by
  obtain ⟨c₁, c₂, h₁, hs, hk, hsteps⟩ := h.event_mem hg
  have hsel := hs.state
  rw [hx] at hsel
  have hgrow := steps_messages_grow (Machine.Steps.trans (.tail .refl hs hk) hsteps)
  exact ⟨c₁.state.db.conversation (s, r), hgrow.filter _, (State.query_ok hsel).2.trans getAllMessages_eq⟩

/-- **No internal id is above the count** of its conversation, however stale the SELECT
it was computed from. -/
theorem internalIds_within (h : (server SHA256).ReachableWhen ok State.initial c) (p : Int32 × Int32) :
    Within MessageRow.number (c.state.db.conversation p) := by
  refine h.invariant (fun c => Within MessageRow.number (c.state.db.conversation p)) within_nil
    fun c e c' hr hi hs _ => ?_
  rcases step_messages hs.state with hm | ⟨m, hx, hdb⟩
  · rwa [conversation, hm]
  rw [hdb]
  by_cases hp : m.pair = p
  · subst hp
    have hiss := hs.issues hr
    rw [hx] at hiss
    obtain ⟨j, fd, conn, n, pkt, u, msgs, timestamp, -, -, hl, rfl⟩ := issues_insertMessage hiss
    obtain ⟨g, hg, -, hact⟩ := hr.log_mem_history (t := e.tid)
      (x := ⟨.getAllMessages (pkt.request SendMessageRequest).message.from_ (pkt.request SendMessageRequest).message.to_,
        .ok msgs⟩) (by rw [hs.log, hl]; simp [checked])
    obtain ⟨rows, hrows, rfl⟩ := selected_prefix hr hg hact
    obtain ⟨row, hid, hconv⟩ := conversation_insertMessage_self c.state.db
      (numbered (pkt.request SendMessageRequest).message (rows.map MessageRow.toMessage) 0 timestamp)
    rw [hconv]
    refine hi.append ?_
    have hmax : (g_db.maxInternalId (rows.map MessageRow.toMessage)).toInt ≤ rows.length := by
      rw [maxInternalId_toInt, maxNum, List.foldl_map]
      exact (hi.of_prefix hrows).maxNum_le
    have hle := hrows.length_le
    have hsucc := toInt_succ_le (g_db.maxInternalId (rows.map MessageRow.toMessage))
    rw [MessageRow.number, hid]
    simp only [Message.pair, numbered]
    omega
  · rwa [conversation_insertMessage_other hp]

/-! ## Messages to oneself -/

/-- The row is of a message to oneself, and is the first of the conversation with its
internal id. -/
def Readable (db : DataAccess) (row : MessageRow) : Prop :=
  row.sender_id = row.receiver_id ∧
    ∀ row' ∈ db.conversation row.pair, row'.internal_id = row.internal_id → row.message_id ≤ row'.message_id

theorem Readable.step (hread : Readable c.state.db row) (hrow : row ∈ c.state.db.messages)
    (h : (server SHA256).ReachableWhen ok State.initial c) (hs : (server SHA256).Step c e c') :
    Readable c'.state.db row := by
  refine ⟨hread.1, fun row' hrow' hid => ?_⟩
  rcases step_messages hs.state with hm | ⟨m, -, hdb⟩
  · rw [conversation, hm] at hrow'
    exact hread.2 row' hrow' hid
  rw [hdb] at hrow'
  obtain ⟨hmem, hpair⟩ := List.mem_filter.mp hrow'
  rcases List.mem_append.mp hmem with hmem | hmem
  · exact hread.2 row' (List.mem_filter.mpr ⟨hmem, hpair⟩) hid
  · rw [List.mem_singleton.mp hmem]
    obtain ⟨j, hj, rfl⟩ := List.getElem_of_mem hrow
    have hnum : (c.state.db.messages[j].message_id : Int) = j + 1 := message_ids h j hj
    simp only [toRow]
    omega

theorem Readable.getMessage (hread : Readable c.state.db row) (hrow : row ∈ c.state.db.messages)
    (h : (server SHA256).ReachableWhen ok State.initial c) :
    c.state.db.getMessage row.receiver_id row.sender_id row.internal_id = some row.toMessage := by
  have hmem : row ∈ c.state.db.conversation row.pair := List.mem_filter.mpr ⟨hrow, by simp⟩
  have hsorted : (c.state.db.conversation row.pair).Pairwise fun a b => (a.message_id : Int) < b.message_id :=
    (message_ids h).increasing.sublist List.filter_sublist
  have hpair : (row.receiver_id, row.sender_id) = row.pair := by rw [MessageRow.pair, hread.1]
  rw [getMessage_eq, hpair]
  obtain ⟨before, after, heq⟩ := List.append_of_mem hmem
  refine congrArg (Option.map _)
    (List.find?_eq_some_iff_append.mpr ⟨by simp [MessageRow.number], before, after, heq, ?_⟩)
  intro row' hrow'
  rw [heq, List.pairwise_append] at hsorted
  have hlt := hsorted.2.2 row' hrow' row (by simp)
  have hfirst := hread.2 row' (by rw [heq]; simp [hrow'])
  simp only [MessageRow.number, Bool.not_eq_true', beq_eq_false_iff_ne, ne_eq, Int32.toInt_inj]
  intro hid
  have hle := hfirst hid
  omega

/-- A message to oneself is pulled, while the conversation has fewer than 2^31 rows. -/
theorem Readable.pulls (hread : Readable c.state.db row) (hrow : row ∈ c.state.db.messages)
    (h : (server SHA256).ReachableWhen ok State.initial c) {token : Bytes}
    (htoken : c.state.getUserIdByToken token = row.receiver_id)
    (hroom : (c.state.db.conversation row.pair).length < 2 ^ 31) : Pulls SHA256 c.state token row := by
  refine ⟨packToPacket .ContactMessageRequest (.ContactMessageRequest ⟨token, row.sender_id, row.internal_id⟩), rfl,
    rfl, rfl, ?_, replies_iff.mpr ?_⟩
  · have hmem : row ∈ c.state.db.conversation row.pair := List.mem_filter.mpr ⟨hrow, by simp⟩
    have hle := (internalIds_within h row.pair).le_length hmem
    rw [Int32.le_iff_toInt_le, DataAccess.advertised, getAllMessages_eq, List.length_map,
      show (row.receiver_id, row.sender_id) = row.pair by rw [MessageRow.pair, hread.1],
      Int32.toInt_ofNat_of_lt hroom]
    exact hle
  · have hget := hread.getMessage hrow h
    rw [← htoken] at hget
    exact congrArg pulled hget.symm

/-! ## What must not happen -/

/-- The row is there, and its receiver cannot pull it. -/
def Unreadable (c : Config) (row : MessageRow) : Prop :=
  row ∈ c.state.db.messages ∧ ¬ Readable c.state.db row

/-- The condition on a step, about the messages their receiver cannot pull: a turn that
has stored one is told its rowid, a turn that has one in hand does not give it up, a
sender with one in its queue is not cleared, and one that is sent is sent with success,
on a descriptor that was not closed since the channel's connection came on it. No
conversation with oneself gets 2^31 messages. -/
structure Delivers (c : Config) (e : Event) : Prop where
  room : ∀ m, e.act.op = .insertMessage m → m.message.from_ = m.message.to_ →
    (c.state.db.conversation m.pair).length < 2 ^ 31 - 1
  rowid : e.act.op = .getLastInsertRowid → ∀ row, Unreadable c row → OwnRow c.history e row →
    getInt c.state.db.lastInsertRowid = getInt row.message_id
  hand : ∀ row, Unreadable c row →
    (OwnRow c.history e row ∨ ∃ f r m, ⟨.getFileMsg f, (r, m)⟩ ∈ e.pre ∧ Carries c.history row m) → loses e.act = false
  kept : ∀ uid row m, e.act.op = .Clear uid → Unreadable c row → Carries c.history row m →
    messageList m ∉ c.state.queue uid
  sent : ∀ uid row m fd out, e.tid = .sender uid → e.act = ⟨.Send fd (messageList m), out⟩ → Unreadable c row →
    Carries c.history row m → out.ok = true
  channel : ∀ uid row m fd conn, e.tid = .sender uid → e.act.op = .Send fd (messageList m) → Unreadable c row →
    Carries c.history row m → ChannelOf uid conn c.history → Unclosed fd conn c.history

theorem FileOf.cons {h : List Event} {f : Bytes} (hf : FileOf h row f) : FileOf (e :: h) row f := by
  obtain ⟨later, g, earlier, rfl, hact, hown⟩ := hf
  exact ⟨e :: later, g, earlier, rfl, hact, hown⟩

theorem Carries.step (hc : Carries c.history row m) (hs : (server SHA256).Step c e c') : Carries c'.history row m := by
  rw [hs.history]
  cases hc with
  | text hf => exact .text hf
  | file hf hfile => exact .file hf hfile.cons

/-- A turn has the message of `row` in hand, with the content the client sent until the
file is registered. -/
def InHand (row : MessageRow) (m : Message) : Prop :=
  ∃ content, (content = row.content ∨ hasFile row.type) ∧ m = MessageRow.toMessage { row with content }

theorem InHand.to_ (hm : InHand row m) : m.message.to_ = row.receiver_id := by
  obtain ⟨content, -, rfl⟩ := hm
  rfl

theorem InHand.type (hm : InHand row m) : m.message.type = row.type := by
  obtain ⟨content, -, rfl⟩ := hm
  rfl

theorem InHand.content (hm : InHand row m) {content : Bytes}
    (h : content = m.message.content ∨ hasFile m.message.type) :
    InHand row { m with message := { m.message with content } } := by
  rw [hm.type] at h
  obtain ⟨content', hc', rfl⟩ := hm
  refine ⟨content, ?_, rfl⟩
  rcases h with rfl | hf
  · exact hc'
  · exact .inr hf

theorem InHand.text {h : List Event} (hm : InHand row m) (hf : ¬ hasFile m.message.type) : Carries h row m := by
  rw [hm.type] at hf
  obtain ⟨content, hcontent, rfl⟩ := hm
  obtain rfl := hcontent.resolve_right hf
  exact .text hf

theorem InHand.file {h : List Event} (hm : InHand row m) (hf : hasFile m.message.type)
    (hfile : FileOf h row m.message.content) : Carries h row m := by
  rw [hm.type] at hf
  obtain ⟨content, -, rfl⟩ := hm
  exact .file hf hfile

/-! ## With a sender -/

/-- The sender of `uid` has taken `p` from its queue and not sent it yet. -/
def Holds (c : Config) (uid : Int32) (p : Packet) : Prop :=
  (c.threads (.sender uid)).log = [⟨.WaitAndPop uid, p⟩] ∨ ∃ fd, (c.threads (.sender uid)).log = held uid p fd

theorem not_holds (hidle : ∀ t, (c.threads t).log = []) (uid : Int32) (p : Packet) : ¬ Holds c uid p := by
  rintro (hl | ⟨fd, hl⟩) <;> rw [hidle] at hl <;> cases hl

theorem sender_locks (uid : Int32) (p : Packet) :
    (KeepAliveMsgSender.run uid).Issues [⟨.WaitAndPop uid, p⟩] (.lock uid) := by
  simp [KeepAliveMsgSender.run]

theorem sender_sends (uid : Int32) (p : Packet) (fd : Int32) :
    (KeepAliveMsgSender.run uid).Issues (held uid p fd) (.Send fd p) := by
  simp [KeepAliveMsgSender.run, held]

theorem Holds.step {uid : Int32} {p : Packet} (hh : Holds c uid p)
    (h : (server SHA256).ReachableWhen ok State.initial c)
    (hs : (server SHA256).Step c e c') :
    Holds c' uid p ∨ ∃ fd out, e.tid = .sender uid ∧ e.act = ⟨.Send fd p, out⟩ := by
  rcases hh with hl | ⟨fd, hl⟩
  · have hnext : ((server SHA256).body (.sender uid)).Issues (c.threads (.sender uid)).log (.lock uid) := by
      rw [hl]
      exact sender_locks uid p
    rcases hs.about_to h hnext with ⟨-, hl'⟩ | ⟨-, ho, hon⟩
    · exact .inl (.inl (hl'.trans hl))
    · obtain ⟨fd, hx⟩ := Entry.of_op ho
      rw [hl, hx] at hon
      exact .inl (.inr ⟨fd, hon _ (sender_sends uid p fd)⟩)
  · have hnext : ((server SHA256).body (.sender uid)).Issues (c.threads (.sender uid)).log (.Send fd p) := by
      rw [hl]
      exact sender_sends uid p fd
    rcases hs.about_to h hnext with ⟨-, hl'⟩ | ⟨ht, ho, -⟩
    · exact .inl (.inr ⟨fd, hl'.trans hl⟩)
    · obtain ⟨out, hx⟩ := Entry.of_op ho
      exact .inr ⟨fd, out, ht, hx⟩

/-- What a sender sends, it sends for a user with a channel. -/
theorem sends_channel {uid : Int32} {fd : Int32} {p : Packet} (h : (server SHA256).ReachableWhen ok State.initial c)
    (hs : (server SHA256).Step c e c') (ht : e.tid = .sender uid) (ho : e.act.op = .Send fd p) :
    ∃ conn, ChannelOf uid conn c.history := by
  have hi := hs.issues h
  rw [ht] at hi
  obtain ⟨p', l, hl, -, -⟩ := (sender_issues hi).on_fd (.inl ⟨p, ho⟩)
  -- it took the packet from its queue, so it was there, so it was set up
  obtain ⟨g, hg, -, hact⟩ := h.log_mem_history (t := e.tid) (x := ⟨.WaitAndPop uid, p'⟩)
    (by rw [hs.log, hl]; simp [held])
  obtain ⟨later, earlier, hh⟩ := List.append_of_mem hg
  obtain ⟨c₁, c₂, h₁, rfl, hs₁, -, -⟩ := h.event hh
  have hpop := hs₁.state
  rw [hact] at hpop
  simp only [server, State.step, State.onSender, Option.bind_eq_some_iff] at hpop
  obtain ⟨snd, hsnd, -⟩ := hpop
  obtain ⟨g₁, hg₁, hset⟩ := sender_given h₁ hsnd
  exact setFd_channel h (by rw [hh]; simp [hg₁]) hset

/-- What leaves a queue, which nobody clears, is with the sender. -/
theorem queued_step {uid : Int32} {p : Packet} (hq : p ∈ c.state.queue uid)
    (h : (server SHA256).ReachableWhen ok State.initial c) (hs : (server SHA256).Step c e c')
    (hclear : e.act.op ≠ .Clear uid) : p ∈ c'.state.queue uid ∨ Holds c' uid p := by
  rcases step_queue hs.state uid with ⟨p', -, hq'⟩ | ⟨hx, -⟩ | ⟨p', hx, hq'⟩ | hsame
  · rw [hq']
    exact .inl (List.mem_append_left _ hq)
  · exact absurd (by rw [hx]) hclear
  · rw [hq'] at hq
    rcases List.mem_cons.mp hq with rfl | hq
    · have hi := hs.issues h
      rw [hx] at hi
      have ht := issues_ownSender hi rfl
      rw [ht] at hi
      have hnext := sender_locks uid p
      generalize hpre : e.pre = l at hi
      cases sender_issues hi
      rcases hs.turn h with ⟨hl, -⟩ | ⟨-, hrun⟩
      · rw [ht, hpre, hx] at hl
        exact .inr (.inl hl)
      · rw [ht, hpre, hx] at hrun
        exact absurd hrun hnext.not_runs
    · exact .inl hq
  · exact .inl (hsame ▸ hq)

/-! ## With an upload -/

/-- What leaves the pool is in hand of the upload that takes it out. -/
theorem pending_step {f : Bytes} {r : Int32} (hp : c.state.file_msg_pool f = some (r, m))
    (h : (server SHA256).ReachableWhen ok State.initial c) (hs : (server SHA256).Step c e c') (hk : ok c e) :
    c'.state.file_msg_pool f = some (r, m) ∨ ∃ j fd pkt l, pkt.packetid = PacketType.val .FileUploadRequest ∧
      InTurn c' j fd pkt l ∧ Relaying fd (pkt.request FileUploadRequest) r m l (.getSender r) := by
  obtain ⟨g, hg, hgx⟩ := pool_set h hp
  have hpool := step_file_msg_pool hs.state f
  by_cases hset : ∃ r' m', e.act.op = .setFileMsg f r' m'
  · -- made pending again, it would be the same message
    obtain ⟨r', m', ho⟩ := hset
    have hold : g ∈ c'.history := by rw [hs.history]; exact List.mem_cons_of_mem _ hg
    have hnew : e ∈ c'.history := by rw [hs.history]; exact List.mem_cons_self
    obtain ⟨rfl, rfl⟩ := setFileMsg_unique (.step h hs hk) hold hnew (by rw [hgx]) ho
    rw [hpool, ho]
    simp [Op.writesFileMsg]
  by_cases hdel : e.act.op = .delFileMsg f
  · have hi := hs.issues h
    rw [hdel] at hi
    obtain ⟨j, fd, conn, n, pkt, l, r', m', ht, hpk, -, hpre, hmem, hr, hrel⟩ := issues_delFileMsg hi
    obtain ⟨g', hg', -, hact⟩ := h.log_mem_history (t := e.tid) (x := ⟨.getFileMsg f, (r', m')⟩)
      (by rw [hs.log, hpre]; exact List.mem_append_right _ hmem)
    obtain ⟨g₁, hg₁, hset'⟩ := getFileMsg_set h hg' hact hr
    obtain ⟨rfl, rfl⟩ := setFileMsg_unique h hg hg₁ (by rw [hgx]) hset'
    obtain ⟨⟨⟩, hx⟩ := Entry.of_op hdel
    refine .inr ⟨j, fd, pkt, _, hpk, ⟨conn, n, ?_⟩, hrel⟩
    rcases hs.turn h with ⟨hl, -⟩ | ⟨-, hrun⟩
    · rw [← ht, hl, hpre, hx, List.append_assoc]
    · rw [ht, hpre, hx, List.append_assoc] at hrun
      exact absurd hrun (hrel.issues hpk).not_runs
  · refine .inl (hpool.trans ?_)
    rw [hp]
    cases hop : e.act.op <;> rw [hop] at hset hdel <;> simp_all [Op.writesFileMsg]

/-! ## On its way -/

/-- The row that the turn of worker `i` has stored. -/
def HasStored (c : Config) (i : Nat) (row : MessageRow) : Prop :=
  ∀ x, OwnRow c.history ⟨.worker i, (c.threads (.worker i)).log, x⟩ row

theorem HasStored.step (hst : HasStored c i row) (hs : (server SHA256).Step c e c')
    (hbusy : (c'.threads (.worker i)).log ≠ []) : HasStored c' i row := by
  intro x
  obtain ⟨mid, past, p, m, q, hh, hturn, hpre, hrow⟩ := hst x
  by_cases ht : e.tid = .worker i
  · have hlog : e.pre = p ++ ⟨.insertMessage m, .ok 1⟩ :: q := by rw [← hs.log, ht]; exact hpre
    rcases hs.self with hl | hl
    · refine ⟨e :: mid, past, p, m, q ++ [e.act], by rw [hs.history, hh]; rfl, ?_, ?_, hrow⟩
      · intro y hy hty
        rcases List.mem_cons.mp hy with rfl | hy
        · simp [hlog]
        · exact hturn y hy hty
      · rw [ht, hlog] at hl
        simp [hl]
    · rw [ht] at hl
      exact absurd hl hbusy
  · refine ⟨e :: mid, past, p, m, q, by rw [hs.history, hh]; rfl, ?_, ?_, hrow⟩
    · intro y hy hty
      rcases List.mem_cons.mp hy with rfl | hy
      · exact absurd hty ht
      · exact hturn y hy hty
    · rw [hs.other (Ne.symm ht)]
      exact hpre

/-- It is the own row of the worker's next step. -/
theorem HasStored.own (hst : HasStored c i row) (hs : (server SHA256).Step c e c') (ht : e.tid = .worker i) :
    OwnRow c.history e row := by
  have hst' := hst e.act
  rwa [← ht, hs.log] at hst'

/-- Worker `i` has just stored the row for the request of `pkt`. -/
def Inserted (c : Config) (i : Nat) (fd : Int32) (pkt : Packet) (row : MessageRow) : Prop :=
  pkt.packetid = PacketType.val .SendMessageRequest ∧ HasStored c i row ∧
    ∃ u msgs timestamp, row = toRow
      (numbered (pkt.request SendMessageRequest).message msgs 0 timestamp) row.message_id ∧
      InTurn c i fd pkt (checked (pkt.request SendMessageRequest) u msgs timestamp ++
        [⟨.insertMessage (numbered (pkt.request SendMessageRequest).message msgs 0 timestamp), .ok 1⟩])

/-- **Where the message of a row is** that is not lost. -/
inductive OnItsWay (c : Config) (row : MessageRow) : Prop
  | handedOn : HandedOn c row → OnItsWay c row
  | inserted {i : Nat} {fd : Int32} {pkt : Packet} : Inserted c i fd pkt row → OnItsWay c row
  | sending {i : Nat} {fd : Int32} {pkt : Packet} {m : Message} {l : List Entry} {o : Op} :
      pkt.packetid = PacketType.val .SendMessageRequest → InTurn c i fd pkt l →
      Sending fd (pkt.request SendMessageRequest) m l o → HasStored c i row → InHand row m →
      (∀ f, ⟨.insertFile f, .ok 1⟩ ∈ l → FileOf c.history row f) → OnItsWay c row
  | relaying {i : Nat} {fd : Int32} {pkt : Packet} {m : Message} {l : List Entry} {o : Op} :
      pkt.packetid = PacketType.val .FileUploadRequest → InTurn c i fd pkt l →
      Relaying fd (pkt.request FileUploadRequest) row.receiver_id m l o → Carries c.history row m → OnItsWay c row
  | held {m : Message} : Carries c.history row m → Holds c row.receiver_id (messageList m) → OnItsWay c row

theorem HandedOn.step (hh : HandedOn c row) (hu : Unreadable c row)
    (h : (server SHA256).ReachableWhen Delivers State.initial c)
    (hs : (server SHA256).Step c e c') (hk : Delivers c e) : OnItsWay c' row := by
  cases hh with
  | sent hc hsent =>
    obtain ⟨later, g, earlier, fd, conn, hh, hg⟩ := hsent
    exact .handedOn (.sent (hc.step hs) ⟨e :: later, g, earlier, fd, conn, by rw [hs.history, hh]; rfl, hg⟩)
  | queued hc hq =>
    rcases queued_step hq h hs fun ho => hk.kept _ row _ ho hu hc hq with hq' | hh
    · exact .handedOn (.queued (hc.step hs) hq')
    · exact .held (hc.step hs) hh
  | pending hc hf hp =>
    rcases pending_step hp h hs hk with hp' | ⟨j, fd, pkt, l, hpk, hl, hrel⟩
    · exact .handedOn (.pending (hc.step hs) hf hp')
    · exact .relaying hpk hl hrel (hc.step hs)

theorem Inserted.step {fd : Int32} {pkt : Packet} (hins : Inserted c i fd pkt row) (hu : Unreadable c row)
    (h : (server SHA256).ReachableWhen Delivers State.initial c) (hs : (server SHA256).Step c e c')
    (hk : Delivers c e) : OnItsWay c' row := by
  obtain ⟨hp, hst, u, msgs, timestamp, hrow, hl⟩ := hins
  have hnext : ∀ conn n, (RevcSocketThreadFunc SHA256).Issues (received fd conn n pkt ++
      (checked (pkt.request SendMessageRequest) u msgs timestamp ++
        [⟨.insertMessage (numbered (pkt.request SendMessageRequest).message msgs 0 timestamp), .ok 1⟩]))
      .getLastInsertRowid :=
    fun conn n => worker_handles (handler_sendMessage hp) onSendMessageRequest_getLastInsertRowid
  rcases hl.step hnext h hs with ⟨ht, hl'⟩ | ⟨ht, ho, hon⟩
  · exact .inserted ⟨hp, hst.step hs hl'.busy, u, msgs, timestamp, hrow, hl'⟩
  -- told the rowid, the turn has the row's message
  obtain ⟨rowid, hx⟩ := Entry.of_op ho
  have hid := hk.rowid ho row hu (hst.own hs ht)
  have hlast := hs.state
  rw [hx] at hlast hon
  simp only [server, State.step, Option.ite_none_right_eq_some, Option.some.injEq] at hlast
  rw [← hlast.1] at hid
  have hm : InHand row (numbered (pkt.request SendMessageRequest).message msgs (Int32.ofNat rowid) timestamp) := by
    refine ⟨row.content, .inl rfl, ?_⟩
    rw [hrow]
    simp only [MessageRow.toMessage, toRow, numbered, Message.mk.injEq, true_and, and_true]
    exact hid
  have hstored : checked (pkt.request SendMessageRequest) u msgs timestamp ++
      [⟨.insertMessage (numbered (pkt.request SendMessageRequest).message msgs 0 timestamp), .ok 1⟩] ++
      [⟨.getLastInsertRowid, rowid⟩] = stored (pkt.request SendMessageRequest) u msgs timestamp rowid := by
    rw [List.append_assoc]
    rfl
  rw [hstored] at hon
  have hsend : ∃ o', Sending fd (pkt.request SendMessageRequest)
      (numbered (pkt.request SendMessageRequest).message msgs (Int32.ofNat rowid) timestamp)
      (stored (pkt.request SendMessageRequest) u msgs timestamp rowid) o' := by
    by_cases hf : hasFile (pkt.request SendMessageRequest).message.type
    · exact ⟨_, .uuid hf⟩
    · exact ⟨_, .text hf⟩
  obtain ⟨o', hsend⟩ := hsend
  have hl' := hon o' fun conn n => hsend.issues hp
  exact .sending hp hl' hsend (hst.step hs hl'.busy) hm (by simp [stored, checked])

/-- A turn that has the message in hand keeps it, or hands it on. -/
theorem InHand.step {fd : Int32} {pkt : Packet} {l : List Entry} {o : Op} (hm : InHand row m)
    (hp : pkt.packetid = PacketType.val .SendMessageRequest) (hl : InTurn c i fd pkt l)
    (hsend : Sending fd (pkt.request SendMessageRequest) m l o) (hst : HasStored c i row)
    (hreg : ∀ f, ⟨.insertFile f, .ok 1⟩ ∈ l → FileOf c.history row f) (hu : Unreadable c row)
    (h : (server SHA256).ReachableWhen Delivers State.initial c) (hs : (server SHA256).Step c e c')
    (hk : Delivers c e) : OnItsWay c' row := by
  have hreg' : ∀ f, ⟨.insertFile f, .ok 1⟩ ∈ l → FileOf c'.history row f := by
    intro f hf
    rw [hs.history]
    exact (hreg f hf).cons
  rcases hl.step (fun conn n => hsend.issues hp) h hs with ⟨ht, hl'⟩ | ⟨ht, ho, hon⟩
  · exact .sending hp hl' hsend (hst.step hs hl'.busy) hm hreg'
  have hown := hst.own hs ht
  rcases hsend.next ho (hk.hand row hu (.inl hown)) with ⟨content, o', hcontent, hsend'⟩ | ⟨hf, hx⟩ | ⟨hf, hin, hx⟩
  · have hl' := hon o' fun conn n => hsend'.issues hp
    refine .sending hp hl' hsend' (hst.step hs hl'.busy) (hm.content hcontent) fun f hf => ?_
    rcases List.mem_append.mp hf with hf | hf
    · exact hreg' f hf
    · -- the file is registered in this step
      rw [hs.history]
      exact ⟨[], e, c.history, rfl, (List.mem_singleton.mp hf).symm, hown⟩
  · have hqueue := hs.state
    rw [hx, hm.to_] at hqueue
    exact .handedOn (.queued (hm.text hf) (by rw [addSendTask_queue hqueue]; simp))
  · have hpool := step_file_msg_pool hs.state m.message.content
    rw [hx, hm.to_] at hpool
    exact .handedOn (.pending (hm.file hf (hreg' _ hin)) (hm.type ▸ hf) (hpool.trans (by simp [Op.writesFileMsg])))

/-- What the receiver's sender sends goes to the receiver's channel: the descriptor names
it still. -/
theorem sent_on_channel {fd : Int32} {out : SendOut} (hc : Carries c.history row m) (hu : Unreadable c row)
    (h : (server SHA256).ReachableWhen Delivers State.initial c) (hs : (server SHA256).Step c e c')
    (hk : Delivers c e) (ht : e.tid = .sender row.receiver_id) (hx : e.act = ⟨.Send fd (messageList m), out⟩) :
    SentOnChannel row.receiver_id (messageList m) c'.history := by
  obtain ⟨conn, hchan⟩ := sends_channel h hs ht (by rw [hx])
  have hfd := (hk.channel _ row _ fd conn ht (by rw [hx]) hu hc hchan).fds h
  have hsend := hs.state
  rw [hx] at hsend
  simp only [server, State.step, Option.ite_none_right_eq_some, Option.some.injEq] at hsend
  have hok := hk.sent _ row _ fd out ht hx hu hc
  have hout : out = ⟨some conn, true⟩ := by
    cases out
    simp only [SendOut.mk.injEq]
    exact ⟨hsend.1.1.trans hfd, hok⟩
  rw [hout] at hx
  exact ⟨[], e, c.history, fd, conn, hs.history, ht, hx, hchan⟩

theorem OnItsWay.step (hw : OnItsWay c row) (hu : Unreadable c row)
    (h : (server SHA256).ReachableWhen Delivers State.initial c) (hs : (server SHA256).Step c e c')
    (hk : Delivers c e) : OnItsWay c' row := by
  cases hw with
  | handedOn hh => exact hh.step hu h hs hk
  | inserted hins => exact hins.step hu h hs hk
  | sending hp hl hsend hst hm hreg => exact hm.step hp hl hsend hst hreg hu h hs hk
  | relaying hp hl hrel hc =>
    rcases hl.step (fun conn n => hrel.issues hp) h hs with ⟨ht, hl'⟩ | ⟨ht, ho, hon⟩
    · exact .relaying hp hl' hrel (hc.step hs)
    have hgot := hl.mem_pre hs ht hrel.got
    rcases hrel.next ho (hk.hand row hu (.inr ⟨_, _, _, hgot, hc⟩)) with ⟨o', hrel'⟩ | hx
    · exact .relaying hp (hon o' fun conn n => hrel'.issues hp) hrel' (hc.step hs)
    · have hqueue := hs.state
      rw [hx] at hqueue
      exact .handedOn (.queued (hc.step hs) (by rw [addSendTask_queue hqueue]; simp))
  | held hc hh =>
    rcases hh.step h hs with hh' | ⟨fd, out, ht, hx⟩
    · exact .held (hc.step hs) hh'
    · exact .handedOn (.sent (hc.step hs) (sent_on_channel hc hu h hs hk ht hx))

/-- A row that a step adds is in hand of the turn that added it. -/
theorem inserted_new (h : (server SHA256).ReachableWhen ok State.initial c) (hs : (server SHA256).Step c e c')
    (hold : row ∉ c.state.db.messages) (hrow : row ∈ c'.state.db.messages) : ∃ j fd pkt, Inserted c' j fd pkt row := by
  rcases step_messages hs.state with hm | ⟨m, hx, hdb⟩
  · exact absurd (hm ▸ hrow) hold
  rw [hdb] at hrow
  obtain rfl := List.mem_singleton.mp ((List.mem_append.mp hrow).resolve_left hold)
  have hi := hs.issues h
  rw [hx] at hi
  obtain ⟨j, fd, conn, n, pkt, u, msgs, timestamp, ht, hp, hpre, rfl⟩ := issues_insertMessage hi
  have hl : (c'.threads (.worker j)).log = e.pre ++ [e.act] := by
    rcases hs.turn h with ⟨hl, -⟩ | ⟨-, hrun⟩
    · rw [← ht, hl]
    · rw [ht, hpre, hx, List.append_assoc] at hrun
      exact absurd hrun (worker_handles (handler_sendMessage hp) onSendMessageRequest_getLastInsertRowid).not_runs
  refine ⟨j, fd, pkt, hp, fun x => ⟨[], c.history, e.pre, _, [], ?_, by simp [Machine.SameTurn], by rw [hl, hx], ?_⟩, u,
    msgs, timestamp, rfl, conn, n, by rw [hl, hpre, hx, List.append_assoc]⟩
  · rw [hs.history, ← ht, ← hx]
    rfl
  · rw [rowsInserted_length h]

/-- **A message its receiver cannot pull is on its way** in a run in which no step loses one. -/
theorem on_its_way (h : ReachableWhen SHA256 Delivers c) (hrow : row ∈ c.state.db.messages) :
    Readable c.state.db row ∨ OnItsWay c row := by
  refine h.invariant (fun c => ∀ row ∈ c.state.db.messages, Readable c.state.db row ∨ OnItsWay c row)
    (fun _ hrow => by cases hrow) (fun c e c' hr hi hs hk row hrow => ?_) row hrow
  by_cases hold : row ∈ c.state.db.messages
  · by_cases hread : Readable c.state.db row
    · exact .inl (hread.step hold hr hs)
    · exact .inr (((hi row hold).resolve_left hread).step ⟨hold, hread⟩ hr hs hk)
  · obtain ⟨j, fd, pkt, hins⟩ := inserted_new hr hs hold hrow
    exact .inr (.inserted hins)

/-- A conversation with oneself stays below 2^31 messages. -/
theorem self_room (h : ReachableWhen SHA256 Delivers c) (u : Int32) :
    (c.state.db.conversation (u, u)).length < 2 ^ 31 := by
  refine h.invariant (fun c => (c.state.db.conversation (u, u)).length < 2 ^ 31) (Nat.two_pow_pos 31)
    fun c e c' _ hi hs hk => ?_
  rcases conversation_step hs (u, u) with hconv | ⟨⟨m, ho, hm⟩, row, hconv⟩
  · rwa [hconv]
  · have hpair := Prod.mk.inj hm
    have hroom := hk.room m ho (hpair.1.trans hpair.2.symm)
    rw [hm] at hroom
    rw [hconv, List.length_append, List.length_singleton]
    omega

/-- **No message is lost** between two requests, in a run in which no step loses one and
while no sender has one in hand. -/
theorem none_lost (h : ReachableWhen SHA256 Delivers c) (hq : Quiescent c)
    (hs : ∀ row m, Unreadable c row → Carries c.history row m → ¬ Holds c row.receiver_id (messageList m)) :
    NoneLost SHA256 c := by
  intro row hrow token htoken
  by_cases hread : Readable c.state.db row
  · refine .inr (hread.pulls hrow h htoken ?_)
    rw [MessageRow.pair, hread.1]
    exact self_room h _
  · cases (on_its_way h hrow).resolve_left hread with
    | handedOn hh => exact .inl hh
    | inserted hins =>
      obtain ⟨_, _, _, _, _, _, hl⟩ := hins
      exact absurd (hq _) hl.busy
    | sending _ hl _ _ _ _ => exact absurd (hq _) hl.busy
    | relaying _ hl _ _ => exact absurd (hq _) hl.busy
    | held hc hh => exact absurd hh (hs row _ ⟨hrow, hread⟩ hc)

/-! ## Two notes -/

namespace Example

def aliceToken : Bytes := bytes "5f0c7b1e-0d5a-4c1b-9a37-2b8f6f4f1d03"

/-- Alice registers and logs in. -/
def aliceSession (fd : Int32) (conn : Conn) : Schedule :=
  registers fd conn alice.username password digest ++ challenges fd conn alice challenge ++
    logsIn fd conn alice challenge response aliceToken

def noteToAlice : SendMessageRequest := ⟨token, ⟨1, 2, MessageType.TEXT, bytes "a"⟩⟩

/-- The row of the note to Alice. -/
def missed : MessageRow := toRow (answer noteToAlice (bytes "a")) 1

/-- Bob writes to Alice, who is logged in but has no channel. -/
def missesNote : Schedule :=
  session ++ aliceSession 5 0 ++ handles 0 5 0 (packToPacket .SendMessageRequest (.SendMessageRequest noteToAlice))
    (stored noteToAlice alice [] 1700000000 1 ++
      [replies 5 0 .SendMessageResponse (.SendMessageResponse (answer noteToAlice (bytes "a"))), ⟨.getSender 2, false⟩])

def noteToBob : SendMessageRequest := ⟨aliceToken, ⟨2, 1, MessageType.TEXT, bytes "a"⟩⟩

/-- The note's answer. -/
def noteSent : Message := answer noteToBob (bytes "a")

def pictureToBob : SendMessageRequest := ⟨aliceToken, ⟨2, 1, MessageType.IMAGE, bytes "x"⟩⟩

/-- The picture's answer, which names its file. -/
def pictureSent : Message := numbered { pictureToBob.message with content := fileid } [noteSent] 2 1700000000

/-- Bob has a channel, and is sent a note of Alice's; a picture of hers waits for its
upload. -/
def getsNote : Schedule :=
  session ++ setsUp ++ connects 6 ++ aliceSession 6 1 ++
    handles 0 6 1 (packToPacket .SendMessageRequest (.SendMessageRequest noteToBob))
      (stored noteToBob bob [] 1700000000 1 ++
        [replies 6 1 .SendMessageResponse (.SendMessageResponse noteSent), ⟨.getSender 1, true⟩, ⟨.getSender 1, true⟩,
          ⟨.addSendTask 1 (messageList noteSent), ()⟩]) ++
    passes (contactPacket contacts) ++
    handles 1 6 1 (packToPacket .SendMessageRequest (.SendMessageRequest pictureToBob))
      (filed pictureToBob bob [noteSent] 1700000000 2 fileid ++
        [replies 6 1 .SendMessageResponse (.SendMessageResponse pictureSent), ⟨.setFileMsg fileid 1 pictureSent, ()⟩]) ++
    passes (messageList noteSent)

end Example

/-- A note to a user who is offline reaches nobody. -/
theorem not_noneLost : ¬ ∀ SHA256 c, Reachable SHA256 c → Quiescent c → (∀ uid p, ¬ Holds c uid p) →
    NoneLost SHA256 c := by
  intro h
  obtain ⟨c, hr, htids, hidle, hrows, htoken, hqueue⟩ := reachable_of_run Example.SHA256 Example.missesNote
    (fun c => (∀ e ∈ c.history, e.tid ∈ [Tid.acceptor, .worker 0]) ∧
      (∀ t ∈ [Tid.acceptor, .worker 0], (c.threads t).log = []) ∧ c.state.db.messages = [Example.missed] ∧
      c.state.getUserIdByToken Example.aliceToken = 2 ∧ c.state.queue 2 = []) (by decide +kernel)
  have hall := all_idle hr htids hidle
  rcases h _ c hr (fun i => hall _) (not_holds hall) Example.missed (by simp [hrows]) _ htoken with
    hh | ⟨pkt, -, ht, hid, -, hreply⟩
  · cases hh with
    | sent _ hsent =>
      obtain ⟨later, g, earlier, fd, conn, hh, ht, -⟩ := hsent
      have hmem := htids g (by rw [hh]; simp)
      rw [ht] at hmem
      simp at hmem
    | queued _ hq =>
      rw [show Example.missed.receiver_id = 2 from rfl, hqueue] at hq
      cases hq
    | pending _ hf => exact absurd hf (by decide)
  · have hnone : c.state.db.getMessage 2 1 (pkt.request ContactMessageRequest).internalid = none := by
      rw [getMessage, hrows]
      rfl
    rw [replies_iff, ht, htoken, hid, show Example.missed.sender_id = 1 from rfl, hnone] at hreply
    simp only [pulled, Prod.mk.injEq, packToPacket_inj, true_and, and_true, Body.ContactMessageResponse.injEq,
      Option.getD_some, Option.getD_none] at hreply
    exact absurd (congrArg Message.id hreply) (by decide)

/-- Whether nobody closed a descriptor, every sender's came on the first connection, and
a packet came from that on `fd`. -/
def checkChannel (fd : Int32) (h : List Event) : Bool :=
  (h.all fun g => !Example.closes g.act.op && match g.act.op with
    | .setFd _ _ => g.pre.all fun x => (Example.receivedOn? x).all (· == 0)
    | _ => true) &&
  h.any fun g => g.act.op == .Recv fd && Example.receivedOn? g.act == some 0

/-- Whether a step loses nothing, with no message to oneself and all channels on the
first connection. -/
def checkDelivers (c : Config) (e : Event) : Bool :=
  !loses e.act && checkAlone c e && match e.act.op with
    | .insertMessage m => m.message.from_ != m.message.to_
    | .Clear _ => false
    | .Send fd _ => e.tid == .worker 0 || e.tid == .worker 1 || checkChannel fd c.history
    | _ => true

theorem unclosed_of_check {uid fd : Int32} {conn : Conn} {h : List Event} (hcheck : checkChannel fd h = true)
    (hchan : ChannelOf uid conn h) : Unclosed fd conn h := by
  simp only [checkChannel, Bool.and_eq_true, Bool.not_eq_true', List.all_eq_true, List.any_eq_true, beq_iff_eq] at hcheck
  obtain ⟨hall, g, hg, hop, hrecv⟩ := hcheck
  obtain rfl : conn = 0 := by
    obtain ⟨later, x, earlier, rfl, ⟨fd', i, n, pkt, l, -, -, hpre, hset⟩, -⟩ := hchan
    have hconn := (hall x (by simp)).2
    rw [hset] at hconn
    have hfirst := List.all_eq_true.mp hconn ⟨.Recv fd', .packet conn n pkt⟩ (by rw [hpre]; simp [received])
    simpa [Example.receivedOn?] using hfirst
  obtain ⟨out, hact⟩ := Entry.of_op hop
  rw [hact] at hrecv
  cases out <;> simp only [Example.receivedOn?, reduceCtorEq, Option.some.injEq] at hrecv
  subst hrecv
  obtain ⟨later, earlier, rfl⟩ := List.append_of_mem hg
  refine ⟨later, g, earlier, _, _, rfl, hact, fun x hx ho => ?_⟩
  have hclosed := (hall x (by simp [hx])).1
  simp [ho, Example.closes] at hclosed

theorem delivers_of_check (h : ReachableWhen SHA256 ok c) (hcheck : checkDelivers c e = true) : Delivers c e := by
  simp only [checkDelivers, Bool.and_eq_true, Bool.not_eq_true'] at hcheck
  obtain ⟨⟨hloses, halone⟩, hop⟩ := hcheck
  exact {
    room := by
      intro m ho heq
      simp [ho, heq] at hop
    rowid := fun ho row _ hown => (rowidKept_of_check h halone ho row hown).1
    hand := fun _ _ _ => hloses
    kept := by
      intro uid row m ho
      simp [ho] at hop
    sent := by
      intro uid row m fd out _ hx _ _
      simpa [hx, loses] using hloses
    channel := by
      intro uid row m fd conn ht ho _ _ hchan
      simp only [ho, ht, Bool.or_eq_true, beq_iff_eq, reduceCtorEq, false_or] at hop
      exact unclosed_of_check hop hchan }

theorem none_lost_note : ∃ c, c.state.db.messages.length = 2 ∧ c.state.getUserIdByToken Example.token = 1 ∧
    (∃ m, c.state.file_msg_pool Example.fileid = some (1, m)) ∧ NoneLost Example.SHA256 c := by
  obtain ⟨c, hr, htids, hidle, hlen, htoken, hpool⟩ :=
    reachableWhen_of_run Example.SHA256 Delivers checkDelivers Example.getsNote
    (fun c => (∀ e ∈ c.history, e.tid ∈ [Tid.acceptor, .worker 0, .worker 1, .sender 1]) ∧
      (∀ t ∈ [Tid.acceptor, .worker 0, .worker 1, .sender 1], (c.threads t).log = []) ∧
      c.state.db.messages.length = 2 ∧ c.state.getUserIdByToken Example.token = 1 ∧
      c.state.file_msg_pool Example.fileid = some (1, Example.pictureSent))
    (fun _ _ _ hr _ _ hcheck => delivers_of_check hr hcheck) (by decide +kernel)
  have hall := all_idle hr htids hidle
  exact ⟨c, hlen, htoken, ⟨_, hpool⟩, none_lost hr (fun i => hall _) fun row m _ _ => not_holds hall _ _⟩

end NetChat
