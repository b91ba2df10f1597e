/-
The turn of a `SendMessageRequest`: what it checks, the row it stores, the file
it registers, and whom it notifies.
-/
import NetChat.Turns.Requests

namespace NetChat

open Interleave Prog Server

variable {SHA256 : Bytes → Bytes} {l : List Entry} {o : Op}

/-- The log of a `SendMessageRequest` up to its INSERT. -/
def checked (q : SendMessageRequest) (u : User) (msgs : List Message) (timestamp : Int32) : List Entry :=
  [⟨.getUserIdByToken q.token, q.message.from_⟩, ⟨.getUserById q.message.to_, .ok (some u)⟩,
    ⟨.getAllMessages q.message.from_ q.message.to_, .ok msgs⟩, ⟨.getTimestamp, timestamp⟩]

/-- The message `createMsgByRawMsg` makes of a request. -/
def numbered (m : RawMessage) (msgs : List Message) (id timestamp : Int32) : Message where
  message := m
  id := id
  timestamp := timestamp
  internalid := g_db.maxInternalId msgs + 1

/-- The log of a `SendMessageRequest` up to its stored row. -/
def stored (q : SendMessageRequest) (u : User) (msgs : List Message) (timestamp : Int32) (rowid : Nat) : List Entry :=
  checked q u msgs timestamp ++
    [⟨.insertMessage (numbered q.message msgs 0 timestamp), .ok 1⟩, ⟨.getLastInsertRowid, rowid⟩]

/-- The types whose content is replaced by the id of a new file. -/
def hasFile (type : MessageType) : Prop := type = MessageType.IMAGE ∨ type = MessageType.FILE

instance {type : MessageType} : Decidable (hasFile type) := inferInstanceAs (Decidable (_ ∨ _))

/-- The ways a `SendMessageRequest` is answered. -/
inductive SendRun (q : SendMessageRequest) : List Entry → Reply → Prop
  | refused {l : List Entry} : (∀ x ∈ l, ∀ m, x ≠ ⟨.insertMessage m, .ok 1⟩) → SendRun q l sendMessageFailed
  | text {u : User} {msgs : List Message} {timestamp : Int32} {rowid : Nat} {reply_msg : Message} :
      ¬ hasFile q.message.type → reply_msg = numbered q.message msgs (Int32.ofNat rowid) timestamp →
      SendRun q (stored q u msgs timestamp rowid)
        (packToPacket .SendMessageResponse (.SendMessageResponse reply_msg),
          some (notifyReceiver q.message.to_ reply_msg))
  | file {u : User} {msgs : List Message} {timestamp : Int32} {rowid : Nat} {uuid : Bytes} {reply_msg : Message} :
      hasFile q.message.type →
      reply_msg = numbered { q.message with content := uuid } msgs (Int32.ofNat rowid) timestamp →
      SendRun q (stored q u msgs timestamp rowid ++ [⟨.getUUID, uuid⟩, ⟨.insertFile uuid, .ok 1⟩])
        (packToPacket .SendMessageResponse (.SendMessageResponse reply_msg),
          some (UM.setFileMsg uuid q.message.to_ reply_msg))
  | fileFailed {u : User} {msgs : List Message} {timestamp : Int32} {rowid : Nat} {uuid : Bytes} {ret : Sql Nat} :
      hasFile q.message.type → g_db.caught ret ≠ 1 →
      SendRun q (stored q u msgs timestamp rowid ++ [⟨.getUUID, uuid⟩, ⟨.insertFile uuid, ret⟩]) sendMessageFailed

section
variable {pkt : Packet}

theorem onSendMessageRequest_runs {reply : Reply} (h : (onSendMessageRequest pkt).Runs l reply) :
    SendRun (pkt.request SendMessageRequest) l reply := by
  simp only [onSendMessageRequest, bind_eq, op_bind, ret_bind, runs_op] at h
  obtain ⟨uid, l, rfl, h⟩ := h
  split at h
  · obtain ⟨rfl, rfl⟩ := runs_ret.mp h
    exact .refused (by simp)
  rename_i huid
  simp only [ne_eq, Decidable.not_not] at huid
  subst huid
  simp only [runs_op, runs_orTerminate] at h
  obtain ⟨_, l, rfl, u, rfl, h⟩ := h
  cases u with
  | none =>
    obtain ⟨rfl, rfl⟩ := runs_ret.mp h
    exact .refused (by simp)
  | some u =>
    simp only [g_db.createMsgByRawMsg, g_db.createMsg, bind_eq, pure_eq, op_bind, Prog.bind_assoc, ret_bind,
      runs_op, runs_orTerminate] at h
    obtain ⟨_, l, rfl, msgs, rfl, timestamp, l, rfl, ret, l, rfl, changed, rfl, h⟩ := h
    split at h
    · rename_i hch
      subst hch
      simp only [op_bind, ret_bind, runs_op] at h
      obtain ⟨rowid, l, rfl, h⟩ := h
      split at h
      · rename_i hf
        simp only [g_db.createFile, op_bind, runs_op] at h
        obtain ⟨uuid, l, rfl, ret, l, rfl, h⟩ := h
        split at h
        · rename_i hret
          obtain ⟨rfl, rfl⟩ := runs_ret.mp h
          cases ret with
          | ok n => subst hret; exact .file hf rfl
          | error e => cases hret
        · rename_i hret
          obtain ⟨rfl, rfl⟩ := runs_ret.mp h
          exact .fileFailed hf hret
      · rename_i hf
        obtain ⟨rfl, rfl⟩ := runs_ret.mp h
        exact .text hf rfl
    · rename_i hch
      obtain ⟨rfl, rfl⟩ := runs_ret.mp h
      refine .refused ?_
      simp only [List.mem_cons, List.not_mem_nil, or_false]
      rintro x (rfl | rfl | rfl | rfl | rfl) m <;> simp [hch]

/-- A `SendMessageRequest` is refused for its token or its receiver, or comes to its INSERT. -/
theorem onSendMessageRequest_begins {reply : Reply} (h : (onSendMessageRequest pkt).Runs l reply) :
    (∃ uid, uid ≠ (pkt.request SendMessageRequest).message.from_ ∧
      l = [⟨.getUserIdByToken (pkt.request SendMessageRequest).token, uid⟩] ∧ reply = sendMessageFailed) ∨
    (l = [⟨.getUserIdByToken (pkt.request SendMessageRequest).token, (pkt.request SendMessageRequest).message.from_⟩,
        ⟨.getUserById (pkt.request SendMessageRequest).message.to_, .ok none⟩] ∧ reply = sendMessageFailed) ∨
    ∃ u msgs timestamp changed rest, l = checked (pkt.request SendMessageRequest) u msgs timestamp ++
      ⟨.insertMessage (numbered (pkt.request SendMessageRequest).message msgs 0 timestamp), .ok changed⟩ :: rest := by
  simp only [onSendMessageRequest, bind_eq, op_bind, ret_bind, runs_op] at h
  obtain ⟨uid, l, rfl, h⟩ := h
  split at h
  · rename_i huid
    obtain ⟨rfl, rfl⟩ := runs_ret.mp h
    exact .inl ⟨uid, huid, rfl, rfl⟩
  rename_i huid
  simp only [ne_eq, Decidable.not_not] at huid
  subst huid
  simp only [runs_op, runs_orTerminate] at h
  obtain ⟨_, l, rfl, u, rfl, h⟩ := h
  cases u with
  | none =>
    obtain ⟨rfl, rfl⟩ := runs_ret.mp h
    exact .inr (.inl ⟨rfl, rfl⟩)
  | some u =>
    simp only [g_db.createMsgByRawMsg, g_db.createMsg, bind_eq, pure_eq, op_bind, Prog.bind_assoc, ret_bind, runs_op,
      runs_orTerminate] at h
    obtain ⟨_, l, rfl, msgs, rfl, timestamp, l, rfl, _, rest, rfl, changed, rfl, -⟩ := h
    exact .inr (.inr ⟨u, msgs, timestamp, changed, rest, rfl⟩)

/-- A message without a file is answered after these steps. -/
theorem onSendMessageRequest_text {u : User} {msgs : List Message} {timestamp : Int32} {rowid : Nat}
    (hf : ¬ hasFile (pkt.request SendMessageRequest).message.type) :
    (onSendMessageRequest pkt).Runs (stored (pkt.request SendMessageRequest) u msgs timestamp rowid)
      (packToPacket .SendMessageResponse (.SendMessageResponse
          (numbered (pkt.request SendMessageRequest).message msgs (Int32.ofNat rowid) timestamp)),
        some (notifyReceiver (pkt.request SendMessageRequest).message.to_
          (numbered (pkt.request SendMessageRequest).message msgs (Int32.ofNat rowid) timestamp))) := by
  rw [hasFile] at hf
  simp only [onSendMessageRequest, g_db.createMsgByRawMsg, g_db.createMsg, bind_eq, pure_eq, op_bind, ret_bind]
  refine .cons ?_
  rw [if_neg (not_not.mpr rfl)]
  refine .cons (.cons (.cons (.cons (.cons ?_))))
  simp only [ret_bind]
  rw [if_neg hf]
  exact .nil

/-- And one with a file after these. -/
theorem onSendMessageRequest_file {u : User} {msgs : List Message} {timestamp : Int32} {rowid : Nat} {uuid : Bytes}
    (hf : hasFile (pkt.request SendMessageRequest).message.type) :
    (onSendMessageRequest pkt).Runs (stored (pkt.request SendMessageRequest) u msgs timestamp rowid ++
        [⟨.getUUID, uuid⟩, ⟨.insertFile uuid, .ok 1⟩])
      (packToPacket .SendMessageResponse (.SendMessageResponse
          (numbered { (pkt.request SendMessageRequest).message with content := uuid } msgs (Int32.ofNat rowid) timestamp)),
        some (UM.setFileMsg uuid (pkt.request SendMessageRequest).message.to_
          (numbered { (pkt.request SendMessageRequest).message with content := uuid } msgs (Int32.ofNat rowid)
            timestamp))) := by
  rw [hasFile] at hf
  simp only [onSendMessageRequest, g_db.createMsgByRawMsg, g_db.createMsg, g_db.createFile, bind_eq, pure_eq, op_bind,
    ret_bind]
  refine .cons ?_
  rw [if_neg (not_not.mpr rfl)]
  refine .cons (.cons (.cons (.cons (.cons ?_))))
  simp only [ret_bind]
  rw [if_pos hf]
  exact .cons (.cons .nil)

/-- What the handler of a `SendMessageRequest` does next, and what it has done before. -/
inductive SendStep (q : SendMessageRequest) : List Entry → Op → Prop
  | token : SendStep q [] (.getUserIdByToken q.token)
  | receiver : SendStep q [⟨.getUserIdByToken q.token, q.message.from_⟩] (.getUserById q.message.to_)
  | messages {u : User} :
      SendStep q [⟨.getUserIdByToken q.token, q.message.from_⟩, ⟨.getUserById q.message.to_, .ok (some u)⟩]
        (.getAllMessages q.message.from_ q.message.to_)
  | timestamp {u : User} {msgs : List Message} :
      SendStep q [⟨.getUserIdByToken q.token, q.message.from_⟩, ⟨.getUserById q.message.to_, .ok (some u)⟩,
        ⟨.getAllMessages q.message.from_ q.message.to_, .ok msgs⟩] .getTimestamp
  | insert {u : User} {msgs : List Message} {timestamp : Int32} :
      SendStep q (checked q u msgs timestamp) (.insertMessage (numbered q.message msgs 0 timestamp))
  | rowid {u : User} {msgs : List Message} {timestamp : Int32} :
      SendStep q (checked q u msgs timestamp ++ [⟨.insertMessage (numbered q.message msgs 0 timestamp), .ok 1⟩])
        .getLastInsertRowid
  | uuid {u : User} {msgs : List Message} {timestamp : Int32} {rowid : Nat} : hasFile q.message.type →
      SendStep q (stored q u msgs timestamp rowid) .getUUID
  | file {u : User} {msgs : List Message} {timestamp : Int32} {rowid : Nat} {uuid : Bytes} :
      hasFile q.message.type →
      SendStep q (stored q u msgs timestamp rowid ++ [⟨.getUUID, uuid⟩]) (.insertFile uuid)

theorem onSendMessageRequest_issues (h : (onSendMessageRequest pkt).Issues l o) :
    SendStep (pkt.request SendMessageRequest) l o := by
  simp only [onSendMessageRequest, bind_eq, op_bind, ret_bind, issues_op] at h
  rcases h with ⟨rfl, rfl⟩ | ⟨uid, l, rfl, h⟩
  · exact .token
  split at h
  · simp at h
  rename_i huid
  simp only [ne_eq, Decidable.not_not] at huid
  subst huid
  simp only [issues_op, issues_orTerminate] at h
  rcases h with ⟨rfl, rfl⟩ | ⟨_, l, rfl, u, rfl, h⟩
  · exact .receiver
  cases u with
  | none => simp at h
  | some u =>
    simp only [g_db.createMsgByRawMsg, g_db.createMsg, bind_eq, pure_eq, op_bind, Prog.bind_assoc, ret_bind,
      issues_op, issues_orTerminate] at h
    rcases h with ⟨rfl, rfl⟩ | ⟨_, l, rfl, msgs, rfl, ⟨rfl, rfl⟩ | ⟨timestamp, l, rfl, h⟩⟩
    · exact .messages
    · exact .timestamp
    rcases h with ⟨rfl, rfl⟩ | ⟨_, l, rfl, changed, rfl, h⟩
    · exact .insert
    split at h
    · rename_i hch
      subst hch
      simp only [op_bind, ret_bind, issues_op] at h
      rcases h with ⟨rfl, rfl⟩ | ⟨rowid, l, rfl, h⟩
      · exact .rowid
      split at h
      · rename_i hf
        simp only [g_db.createFile, op_bind, issues_op] at h
        rcases h with ⟨rfl, rfl⟩ | ⟨uuid, l, rfl, ⟨rfl, rfl⟩ | ⟨ret, l, rfl, h⟩⟩
        · exact .uuid hf
        · exact .file hf
        · -- nothing after the INSERT of the file
          split at h <;> simp at h
      · simp at h
    · simp at h

theorem onSendMessageRequest_insertMessage {m : Message}
    (h : (onSendMessageRequest pkt).Issues l (.insertMessage m)) :
    ∃ u msgs timestamp, l = checked (pkt.request SendMessageRequest) u msgs timestamp ∧
      m = numbered (pkt.request SendMessageRequest).message msgs 0 timestamp := by
  cases onSendMessageRequest_issues h with
  | insert => exact ⟨_, _, _, rfl, rfl⟩

theorem onSendMessageRequest_insertFile_uuid {uuid : Bytes}
    (h : (onSendMessageRequest pkt).Issues l (.insertFile uuid)) : ⟨.getUUID, uuid⟩ ∈ l := by
  cases onSendMessageRequest_issues h with
  | file => simp

theorem notifyReceiver_issues {r : Int32} {m : Message} (h : (notifyReceiver r m).Issues l o) :
    (l = [] ∧ o = .getSender r) ∨ (l = [⟨.getSender r, true⟩] ∧ o = .getSender r) ∨
      (l = [⟨.getSender r, true⟩, ⟨.getSender r, true⟩] ∧ o = .addSendTask r (messageList m)) := by
  simp only [notifyReceiver, bind_eq, op_bind, ret_bind, issues_op] at h
  rcases h with ⟨rfl, rfl⟩ | ⟨b, l, rfl, h⟩
  · exact .inl ⟨rfl, rfl⟩
  split at h
  · rename_i hb
    subst hb
    simp only [addSendTask, bind_eq, op_bind, ret_bind, issues_op] at h
    rcases h with ⟨rfl, rfl⟩ | ⟨b, l, rfl, h⟩
    · exact .inr (.inl ⟨rfl, rfl⟩)
    split at h
    · rename_i hb
      subst hb
      simp only [issues_op, issues_ret, and_false, exists_false, or_false] at h
      obtain ⟨rfl, rfl⟩ := h
      exact .inr (.inr ⟨rfl, rfl⟩)
    · simp at h
  · simp at h

/-- The callback of a `SendMessageRequest` runs no statement. -/
theorem SendRun.callback {q : SendMessageRequest} {reply : Reply} {cb : Code Unit} {l₂ : List Entry}
    (h : SendRun q l reply) (hcb : reply.2 = some cb) (hi : cb.Issues l₂ o) :
    (∃ m, reply.1 = packToPacket .SendMessageResponse (.SendMessageResponse m) ∧ ¬ hasFile q.message.type ∧
      ((l₂ = [] ∧ o = .getSender q.message.to_) ∨
        (l₂ = [⟨.getSender q.message.to_, true⟩] ∧ o = .getSender q.message.to_) ∨
        (l₂ = [⟨.getSender q.message.to_, true⟩, ⟨.getSender q.message.to_, true⟩] ∧
          o = .addSendTask q.message.to_ (messageList m)))) ∨
    ∃ m uuid, reply.1 = packToPacket .SendMessageResponse (.SendMessageResponse m) ∧ hasFile q.message.type ∧
      l₂ = [] ∧ o = .setFileMsg uuid q.message.to_ m ∧ ⟨.insertFile uuid, .ok 1⟩ ∈ l := by
  cases h with
  | refused | fileFailed => cases hcb
  | text hf hm => cases hcb; exact .inl ⟨_, rfl, hf, notifyReceiver_issues hi⟩
  | file hf hm =>
    cases hcb
    simp only [issues_op, issues_ret, and_false, exists_false, or_false] at hi
    exact .inr ⟨_, _, rfl, hf, hi.1, hi.2, by simp⟩

end

/-- **Where rows come from**: the INSERT of a worker that received a
`SendMessageRequest` whose token gave the sender and whose receiver exists. -/
theorem issues_insertMessage {tid : Tid} {m : Message}
    (h : ((server SHA256).body tid).Issues l (.insertMessage m)) :
    ∃ i fd conn n pkt u msgs timestamp, tid = .worker i ∧ pkt.packetid = PacketType.val .SendMessageRequest ∧
      l = received fd conn n pkt ++ checked (pkt.request SendMessageRequest) u msgs timestamp ∧
      m = numbered (pkt.request SendMessageRequest).message msgs 0 timestamp := by
  obtain ⟨i, fd, conn, n, pkt, hd, l', rfl, rfl, ht, hh, h⟩ := issues_handler h rfl
  rw [handler_sendMessage ht] at hh
  cases hh
  obtain ⟨u, msgs, timestamp, rfl, rfl⟩ := onSendMessageRequest_insertMessage h
  exact ⟨i, fd, conn, n, pkt, u, msgs, timestamp, rfl, ht, rfl, rfl⟩

end NetChat
