/-
The turns that have a message in hand. From the INSERT on, the turn of a
`SendMessageRequest` is the only one that knows of its message, until it has
queued it or made it pending; a pending message is in hand again from the
moment an upload takes it out until it queues it.
-/
import NetChat.RowIds
import NetChat.Uploads

namespace NetChat

open Interleave Prog Server DataAccess

variable {SHA256 : Bytes → Bytes} {ok : Config → Event → Prop} {c c' : Config} {e : Event} {l : List Entry} {o : Op}

/-! ## After the rowid -/

/-- A `SendMessageRequest` that goes well, from where it has its rowid, with the message
as it is stored and reported: how far its log has come, and what is next. -/
inductive Sending (fd : Int32) (q : SendMessageRequest) : Message → List Entry → Op → Prop
  | text {u : User} {msgs : List Message} {timestamp : Int32} {rowid : Nat} : ¬ hasFile q.message.type →
      Sending fd q (numbered q.message msgs (Int32.ofNat rowid) timestamp) (stored q u msgs timestamp rowid)
        (.Send fd (packToPacket .SendMessageResponse (.SendMessageResponse
          (numbered q.message msgs (Int32.ofNat rowid) timestamp))))
  | sent {u : User} {msgs : List Message} {timestamp : Int32} {rowid : Nat} {out : SendOut} :
      ¬ hasFile q.message.type → out.ok = true →
      Sending fd q (numbered q.message msgs (Int32.ofNat rowid) timestamp)
        (stored q u msgs timestamp rowid ++ [answered fd (numbered q.message msgs (Int32.ofNat rowid) timestamp) out])
        (.getSender q.message.to_)
  | online {u : User} {msgs : List Message} {timestamp : Int32} {rowid : Nat} {out : SendOut} :
      ¬ hasFile q.message.type → out.ok = true →
      Sending fd q (numbered q.message msgs (Int32.ofNat rowid) timestamp)
        (stored q u msgs timestamp rowid ++ [answered fd (numbered q.message msgs (Int32.ofNat rowid) timestamp) out,
          ⟨.getSender q.message.to_, true⟩])
        (.getSender q.message.to_)
  | push {u : User} {msgs : List Message} {timestamp : Int32} {rowid : Nat} {out : SendOut} :
      ¬ hasFile q.message.type → out.ok = true →
      Sending fd q (numbered q.message msgs (Int32.ofNat rowid) timestamp)
        (stored q u msgs timestamp rowid ++ [answered fd (numbered q.message msgs (Int32.ofNat rowid) timestamp) out,
          ⟨.getSender q.message.to_, true⟩, ⟨.getSender q.message.to_, true⟩])
        (.addSendTask q.message.to_ (messageList (numbered q.message msgs (Int32.ofNat rowid) timestamp)))
  | uuid {u : User} {msgs : List Message} {timestamp : Int32} {rowid : Nat} : hasFile q.message.type →
      Sending fd q (numbered q.message msgs (Int32.ofNat rowid) timestamp) (stored q u msgs timestamp rowid) .getUUID
  | register {u : User} {msgs : List Message} {timestamp : Int32} {rowid : Nat} {uuid : Bytes} :
      hasFile q.message.type →
      Sending fd q (numbered q.message msgs (Int32.ofNat rowid) timestamp)
        (stored q u msgs timestamp rowid ++ [⟨.getUUID, uuid⟩]) (.insertFile uuid)
  | file {u : User} {msgs : List Message} {timestamp : Int32} {rowid : Nat} {uuid : Bytes} : hasFile q.message.type →
      Sending fd q (numbered { q.message with content := uuid } msgs (Int32.ofNat rowid) timestamp)
        (filed q u msgs timestamp rowid uuid)
        (.Send fd (packToPacket .SendMessageResponse (.SendMessageResponse
          (numbered { q.message with content := uuid } msgs (Int32.ofNat rowid) timestamp))))
  | pend {u : User} {msgs : List Message} {timestamp : Int32} {rowid : Nat} {uuid : Bytes} {out : SendOut} :
      hasFile q.message.type → out.ok = true →
      Sending fd q (numbered { q.message with content := uuid } msgs (Int32.ofNat rowid) timestamp)
        (filed q u msgs timestamp rowid uuid ++
          [answered fd (numbered { q.message with content := uuid } msgs (Int32.ofNat rowid) timestamp) out])
        (.setFileMsg uuid q.message.to_ (numbered { q.message with content := uuid } msgs (Int32.ofNat rowid) timestamp))

/-- The steps at which a turn gives up the message it has in hand. -/
def loses : Entry → Bool
  | ⟨.insertFile _, r⟩ => g_db.caught r != 1
  | ⟨.Send _ _, out⟩ => !out.ok
  | ⟨.getSender _, found⟩ => !found
  | _ => false

section
variable {pkt : Packet} {m : Message}

theorem onSendMessageRequest_insertFile {u : User} {msgs : List Message} {timestamp : Int32}
    {rowid : Nat} {uuid : Bytes}
    (hf : hasFile (pkt.request SendMessageRequest).message.type) :
    (onSendMessageRequest pkt).Issues
      (stored (pkt.request SendMessageRequest) u msgs timestamp rowid ++ [⟨.getUUID, uuid⟩]) (.insertFile uuid) := by
  have hrun : (onSendMessageRequest pkt).Runs (stored (pkt.request SendMessageRequest) u msgs timestamp rowid ++
      [⟨.getUUID, uuid⟩, ⟨.insertFile uuid, .ok 1⟩]) _ := onSendMessageRequest_file hf
  rw [List.append_cons] at hrun
  exact hrun.split

theorem onSendMessageRequest_getUUID {u : User} {msgs : List Message} {timestamp : Int32} {rowid : Nat}
    (hf : hasFile (pkt.request SendMessageRequest).message.type) :
    (onSendMessageRequest pkt).Issues (stored (pkt.request SendMessageRequest) u msgs timestamp rowid) .getUUID := by
  have hrun : (onSendMessageRequest pkt).Runs (stored (pkt.request SendMessageRequest) u msgs timestamp rowid ++
      [⟨.getUUID, []⟩, ⟨.insertFile [], .ok 1⟩]) _ := onSendMessageRequest_file hf
  exact hrun.split

theorem onSendMessageRequest_getLastInsertRowid {u : User} {msgs : List Message} {timestamp : Int32} :
    (onSendMessageRequest pkt).Issues (checked (pkt.request SendMessageRequest) u msgs timestamp ++
      [⟨.insertMessage (numbered (pkt.request SendMessageRequest).message msgs 0 timestamp), .ok 1⟩])
      .getLastInsertRowid := by
  have hstored : ∃ p, (onSendMessageRequest pkt).Path
      (stored (pkt.request SendMessageRequest) u msgs timestamp 0) p := by
    by_cases hf : hasFile (pkt.request SendMessageRequest).message.type
    · obtain ⟨k, hpath⟩ := onSendMessageRequest_getUUID hf
      exact ⟨_, hpath⟩
    · exact ⟨_, onSendMessageRequest_text hf⟩
  obtain ⟨p, hpath⟩ := hstored
  rw [stored, List.append_cons] at hpath
  exact hpath.split

theorem Sending.issues {fd : Int32} {conn : Conn} {n : Nat} (hp : pkt.packetid = PacketType.val .SendMessageRequest)
    (h : Sending fd (pkt.request SendMessageRequest) m l o) :
    (RevcSocketThreadFunc SHA256).Issues (received fd conn n pkt ++ l) o := by
  have hh : handler SHA256 fd pkt = some (onSendMessageRequest pkt) := handler_sendMessage hp
  cases h with
  | text hf => exact worker_replies hh (onSendMessageRequest_text hf) rfl
  | sent hf hok =>
    refine worker_calls hh (onSendMessageRequest_text hf) rfl hok rfl ?_
    simp [notifyReceiver]
  | online hf hok =>
    refine worker_calls hh (onSendMessageRequest_text hf) rfl hok rfl ?_
    simp [notifyReceiver, addSendTask]
  | push hf hok =>
    refine worker_calls hh (onSendMessageRequest_text hf) rfl hok rfl ?_
    simp [notifyReceiver, addSendTask]
  | uuid hf => exact worker_handles hh (onSendMessageRequest_getUUID hf)
  | register hf => exact worker_handles hh (onSendMessageRequest_insertFile hf)
  | file hf => exact worker_replies hh (onSendMessageRequest_file hf) rfl
  | pend hf hok =>
    refine worker_calls hh (onSendMessageRequest_file hf) rfl hok rfl ?_
    simp

/-- **A step of the turn** that does not lose its message: the turn goes on, the
message is queued, or it is made pending. A file's id replaces the content once the
file is registered. -/
theorem Sending.next {q : SendMessageRequest} {fd : Int32} {x : Entry} (h : Sending fd q m l o) (hx : x.op = o)
    (hx' : loses x = false) :
    (∃ content o', (content = m.message.content ∨ hasFile m.message.type) ∧
        Sending fd q { m with message := { m.message with content } } (l ++ [x]) o') ∨
      (¬ hasFile m.message.type ∧ x = ⟨.addSendTask m.message.to_ (messageList m), ()⟩) ∨
      hasFile m.message.type ∧ ⟨.insertFile m.message.content, .ok 1⟩ ∈ l ∧
        x = ⟨.setFileMsg m.message.content m.message.to_ m, ()⟩ := by
  obtain ⟨r, rfl⟩ := Entry.of_op hx
  cases h with
  | text hf => exact .inl ⟨_, _, .inl rfl, .sent hf (by simpa [loses] using hx')⟩
  | sent hf hok =>
    obtain rfl : r = true := by simpa [loses] using hx'
    refine .inl ⟨_, .getSender q.message.to_, .inl rfl, ?_⟩
    rw [List.append_assoc]
    exact .online hf hok
  | @online u msgs timestamp rowid out hf hok =>
    obtain rfl : r = true := by simpa [loses] using hx'
    refine .inl ⟨_, .addSendTask q.message.to_ (messageList (numbered q.message msgs (Int32.ofNat rowid) timestamp)),
      .inl rfl, ?_⟩
    rw [List.append_assoc]
    exact .push hf hok
  | push hf => exact .inr (.inl ⟨hf, rfl⟩)
  | uuid hf => exact .inl ⟨_, _, .inl rfl, .register hf⟩
  | @register u msgs timestamp rowid uuid hf =>
    obtain rfl : r = .ok 1 := by
      cases r with
      | ok n => simpa [loses, g_db.caught] using hx'
      | error => cases hx'
    have hfile : Sending fd q _ (filed q u msgs timestamp rowid uuid) _ := .file hf
    rw [filed, List.append_cons] at hfile
    exact .inl ⟨uuid, _, .inr hf, hfile⟩
  | file hf => exact .inl ⟨_, _, .inl rfl, .pend hf (by simpa [loses] using hx')⟩
  | pend hf => exact .inr (.inr ⟨hf, by simp [filed, numbered], rfl⟩)

end

/-! ## After a pending message is taken out -/

/-- An upload that has taken the message `m` for `r` out of the pool: how far its log has
come, and what is next. -/
inductive Relaying (fd : Int32) (q : FileUploadRequest) (r : Int32) (m : Message) : List Entry → Op → Prop
  | online {uid : Int32} {row : FileStorage} {wrote : SaveOut} {ret : Sql Nat} {out : SendOut} : uid ≠ 0 →
      wrote.ret = true → g_db.caught ret ≠ 0 → out.ok = true → r ≠ 0 →
      Relaying fd q r m (stowed q uid row wrote ret ++ [⟨.Send fd (uploadResponse true), out⟩, ⟨.getFileMsg q.id, (r, m)⟩,
        ⟨.delFileMsg q.id, ()⟩]) (.getSender r)
  | push {uid : Int32} {row : FileStorage} {wrote : SaveOut} {ret : Sql Nat} {out : SendOut} : uid ≠ 0 →
      wrote.ret = true → g_db.caught ret ≠ 0 → out.ok = true → r ≠ 0 →
      Relaying fd q r m (stowed q uid row wrote ret ++ [⟨.Send fd (uploadResponse true), out⟩, ⟨.getFileMsg q.id, (r, m)⟩,
        ⟨.delFileMsg q.id, ()⟩, ⟨.getSender r, true⟩]) (.addSendTask r (messageList m))

section
variable {pkt : Packet} {m : Message} {r : Int32} {fd : Int32}

theorem Relaying.issues {conn : Conn} {n : Nat} (hp : pkt.packetid = PacketType.val .FileUploadRequest)
    (h : Relaying fd (pkt.request FileUploadRequest) r m l o) :
    (RevcSocketThreadFunc SHA256).Issues (received fd conn n pkt ++ l) o := by
  have hh : handler SHA256 fd pkt = some (onFileUploadRequest pkt) := handler_fileUpload hp
  cases h with
  | online huid hsaved hret hok hr | push huid hsaved hret hok hr =>
    refine worker_calls hh (onFileUploadRequest_stowed huid hsaved hret) rfl hok rfl ?_
    simp only [forwardFileMsg, bind_eq, op_bind, ret_bind, issues_op]
    refine .inr ⟨_, _, rfl, ?_⟩
    rw [if_neg hr]
    simp [addSendTask]

/-- **A step of the upload** that does not lose the message: it goes on, or queues it. -/
theorem Relaying.next {q : FileUploadRequest} {x : Entry} (h : Relaying fd q r m l o) (hx : x.op = o)
    (hx' : loses x = false) :
    (∃ o', Relaying fd q r m (l ++ [x]) o') ∨ x = ⟨.addSendTask r (messageList m), ()⟩ := by
  obtain ⟨found, rfl⟩ := Entry.of_op hx
  cases h with
  | online huid hsaved hret hok hr =>
    obtain rfl : found = true := by simpa [loses] using hx'
    refine .inl ⟨.addSendTask r (messageList m), ?_⟩
    rw [List.append_assoc]
    exact .push huid hsaved hret hok hr
  | push => exact .inr rfl

theorem Relaying.got {q : FileUploadRequest} (h : Relaying fd q r m l o) : ⟨.getFileMsg q.id, (r, m)⟩ ∈ l := by
  cases h <;> simp

/-- What is taken out of the pool is what the turn found there. -/
theorem forwardFileMsg_delFileMsg {fileid f : Bytes} (h : (forwardFileMsg fileid).Issues l (.delFileMsg f)) :
    f = fileid ∧ ∃ r m, r ≠ 0 ∧ l = [⟨.getFileMsg fileid, (r, m)⟩] := by
  generalize ho : Op.delFileMsg f = o at h
  cases forwardFileMsg_issues h with
  | delete hr =>
    cases ho
    exact ⟨rfl, _, _, hr, rfl⟩
  | _ => cases ho

/-- **What is taken out of the pool** is relayed by the turn that takes it out. -/
theorem issues_delFileMsg {tid : Tid} {f : Bytes} (h : ((server SHA256).body tid).Issues l (.delFileMsg f)) :
    ∃ i fd conn n pkt l' r m, tid = .worker i ∧ pkt.packetid = PacketType.val .FileUploadRequest ∧
      (pkt.request FileUploadRequest).id = f ∧ l = received fd conn n pkt ++ l' ∧ ⟨.getFileMsg f, (r, m)⟩ ∈ l' ∧
      r ≠ 0 ∧ Relaying fd (pkt.request FileUploadRequest) r m (l' ++ [⟨.delFileMsg f, ()⟩]) (.getSender r) := by
  obtain ⟨i, rfl, fd, conn, n, pkt, hd, reply, cb, l₁, l₂, out, hl, ht, hh, hr, hok, hcb, hi⟩ :=
    issues_callback h rfl (by simp)
  rw [handler_fileUpload ht] at hh
  cases hh
  cases onFileUploadRequest_runs hr with
  | saved huid hsaved hret =>
    cases hcb
    obtain ⟨rfl, r, m, hr0, rfl⟩ := forwardFileMsg_delFileMsg hi
    refine ⟨i, fd, conn, n, pkt, _, r, m, rfl, ht, rfl, hl, by simp, hr0, ?_⟩
    rw [List.append_assoc]
    exact .online huid hsaved hret hok hr0
  | _ => cases hcb

end

end NetChat
