/-
The turns of a `FileUploadRequest` and a `FileDownloadRequest`, and that of a
`ContactMessageRequest`.
-/
import NetChat.Turns.Requests

namespace NetChat

open Interleave Prog Server

variable {SHA256 : Bytes → Bytes} {l : List Entry} {o : Op}

/-! ## FileUploadRequest -/

/-- The row a `FileUploadRequest` writes over the one it found. -/
def uploaded (q : FileUploadRequest) (row : FileStorage) : FileStorage :=
  { row with hash := q.hash, name := q.file.name }

/-- The log of a `FileUploadRequest` up to the file it found. -/
def found (q : FileUploadRequest) (uid : Int32) (row : FileStorage) : List Entry :=
  [⟨.getUserIdByToken q.token, uid⟩, ⟨.getFile q.id, .ok (some row)⟩]

/-- The ways a `FileUploadRequest` is answered. -/
inductive UploadRun (q : FileUploadRequest) : List Entry → Reply → Prop
  | refused : UploadRun q [⟨.getUserIdByToken q.token, 0⟩] (uploadResponse false, none)
  | unknown {uid : Int32} : uid ≠ 0 →
      UploadRun q [⟨.getUserIdByToken q.token, uid⟩, ⟨.getFile q.id, .ok none⟩] (uploadResponse false, none)
  | kept {uid : Int32} {row : FileStorage} {ret : Sql Nat} : uid ≠ 0 →
      UploadRun q (found q uid row ++ [⟨.checkDiskExistence row.id, true⟩, ⟨.updateFile (uploaded q row), ret⟩])
        (uploadResponse false, none)
  | failed {uid : Int32} {row : FileStorage} {out : SaveOut} {ret : Sql Nat} : uid ≠ 0 →
      (out.ret = false ∨ g_db.caught ret = 0) →
      UploadRun q (found q uid row ++ [⟨.checkDiskExistence row.id, false⟩,
          ⟨.saveToDisk row.id q.file.content, out⟩, ⟨.updateFile (uploaded q row), ret⟩])
        (uploadResponse false, none)
  | saved {uid : Int32} {row : FileStorage} {out : SaveOut} {ret : Sql Nat} : uid ≠ 0 → out.ret = true →
      g_db.caught ret ≠ 0 →
      UploadRun q (found q uid row ++ [⟨.checkDiskExistence row.id, false⟩,
          ⟨.saveToDisk row.id q.file.content, out⟩, ⟨.updateFile (uploaded q row), ret⟩])
        (uploadResponse true, some (forwardFileMsg q.id))

section
variable {pkt : Packet}

theorem onFileUploadRequest_runs {reply : Reply} (h : (onFileUploadRequest pkt).Runs l reply) :
    UploadRun (pkt.request FileUploadRequest) l reply := by
  simp only [onFileUploadRequest, bind_eq, pure_eq, op_bind, ret_bind, runs_op] at h
  obtain ⟨uid, l, rfl, h⟩ := h
  split at h
  · rename_i huid
    subst huid
    obtain ⟨rfl, rfl⟩ := runs_ret.mp h
    exact .refused
  rename_i huid
  simp only [runs_op, runs_orTerminate] at h
  obtain ⟨_, l, rfl, row, rfl, h⟩ := h
  cases row with
  | none =>
    obtain ⟨rfl, rfl⟩ := runs_ret.mp h
    exact .unknown huid
  | some row =>
    simp only [runs_op] at h
    obtain ⟨exists_, l, rfl, h⟩ := h
    cases exists_ with
    | true =>
      simp only [if_true, ret_bind, g_db.updateFile, op_bind, runs_op] at h
      obtain ⟨ret, l, rfl, h⟩ := h
      have hreply : l = [] ∧ reply = (uploadResponse false, none) := by
        split at h <;> simpa using h
      obtain ⟨rfl, rfl⟩ := hreply
      exact .kept huid
    | false =>
      simp only [Bool.false_eq_true, if_false, op_bind, ret_bind, g_db.updateFile, runs_op] at h
      obtain ⟨out, l, rfl, ret, l, rfl, h⟩ := h
      split at h
      · rename_i hret
        simp only [bne_iff_ne, ne_eq] at hret
        obtain ⟨rfl, rfl⟩ := runs_ret.mp h
        cases hout : out.ret with
        | true => exact .saved huid hout hret
        | false => exact .failed huid (.inl hout)
      · rename_i hret
        simp only [bne_iff_ne, ne_eq, Decidable.not_not] at hret
        obtain ⟨rfl, rfl⟩ := runs_ret.mp h
        exact .failed huid (.inr hret)

theorem onFileUploadRequest_callback {reply : Reply} {cb : Code Unit} (h : (onFileUploadRequest pkt).Runs l reply)
    (hcb : reply.2 = some cb) : cb = forwardFileMsg (pkt.request FileUploadRequest).id := by
  cases onFileUploadRequest_runs h with
  | saved => cases hcb; rfl
  | _ => cases hcb

/-- **What the callback of a `FileUploadRequest` issues**, and after which log. -/
inductive ForwardStep (fileid : Bytes) : List Entry → Op → Prop
  | look : ForwardStep fileid [] (.getFileMsg fileid)
  | delete {uid : Int32} {m : Message} : uid ≠ 0 →
      ForwardStep fileid [⟨.getFileMsg fileid, (uid, m)⟩] (.delFileMsg fileid)
  | online {uid : Int32} {m : Message} : uid ≠ 0 →
      ForwardStep fileid [⟨.getFileMsg fileid, (uid, m)⟩, ⟨.delFileMsg fileid, ()⟩] (.getSender uid)
  | push {uid : Int32} {m : Message} : uid ≠ 0 →
      ForwardStep fileid [⟨.getFileMsg fileid, (uid, m)⟩, ⟨.delFileMsg fileid, ()⟩, ⟨.getSender uid, true⟩]
        (.addSendTask uid (messageList m))

theorem forwardFileMsg_issues {fileid : Bytes} (h : (forwardFileMsg fileid).Issues l o) : ForwardStep fileid l o := by
  simp only [forwardFileMsg, bind_eq, op_bind, ret_bind, issues_op] at h
  rcases h with ⟨rfl, rfl⟩ | ⟨⟨uid, m⟩, l, rfl, h⟩
  · exact .look
  split at h
  · simp at h
  rename_i huid
  simp only [addSendTask, bind_eq, op_bind, ret_bind, issues_op] at h
  rcases h with ⟨rfl, rfl⟩ | ⟨_, l, rfl, ⟨rfl, rfl⟩ | ⟨found, l, rfl, h⟩⟩
  · exact .delete huid
  · exact .online huid
  split at h
  · rename_i hfound
    subst hfound
    simp only [issues_op, issues_ret, and_false, exists_false, or_false] at h
    obtain ⟨rfl, rfl⟩ := h
    exact .push huid
  · simp at h

/-- The message pushed after an upload is the one the pool gave for the file. -/
theorem forwardFileMsg_addSendTask {fileid : Bytes} {uid : Int32} {p : Packet}
    (h : (forwardFileMsg fileid).Issues l (.addSendTask uid p)) :
    ∃ m, uid ≠ 0 ∧ p = messageList m ∧
      l = [⟨.getFileMsg fileid, (uid, m)⟩, ⟨.delFileMsg fileid, ()⟩, ⟨.getSender uid, true⟩] := by
  generalize ho : Op.addSendTask uid p = o at h
  cases forwardFileMsg_issues h with
  | push huid =>
    cases ho
    exact ⟨_, huid, rfl, rfl⟩
  | _ => cases ho

end

/-! ## FileDownloadRequest and ContactMessageRequest -/

/-- Nothing of `l` loaded a file. -/
def Unloaded (l : List Entry) : Prop := ∀ x ∈ l, ∀ id content, x ≠ ⟨.loadFromDisk id, some content⟩

/-- The ways a `FileDownloadRequest` is answered. -/
inductive DownloadRun (q : FileDownloadRequest) : List Entry → FileDownloadResponse → Prop
  | refused {l : List Entry} : Unloaded l → DownloadRun q l ⟨default, []⟩
  | missing {uid : Int32} {row : FileStorage} {l : List Entry} : Unloaded l →
      DownloadRun q (⟨.getUserIdByToken q.token, uid⟩ :: ⟨.getFile q.id, .ok (some row)⟩ :: l) ⟨default, row.hash⟩
  | loaded {uid : Int32} {row : FileStorage} {content : Bytes} :
      DownloadRun q [⟨.getUserIdByToken q.token, uid⟩, ⟨.getFile q.id, .ok (some row)⟩,
        ⟨.checkDiskExistence row.id, true⟩, ⟨.loadFromDisk row.id, some content⟩] ⟨⟨row.name, content⟩, row.hash⟩

/-- The ways through a `FileDownloadRequest`: what it did, and what it answers. -/
inductive DownloadPath (q : FileDownloadRequest) : List Entry → FileDownloadResponse → Prop
  | noToken : DownloadPath q [⟨.getUserIdByToken q.token, 0⟩] ⟨default, []⟩
  | noRow {uid : Int32} : DownloadPath q [⟨.getUserIdByToken q.token, uid⟩, ⟨.getFile q.id, .ok none⟩] ⟨default, []⟩
  | noContent {uid : Int32} {row : FileStorage} : DownloadPath q [⟨.getUserIdByToken q.token, uid⟩,
      ⟨.getFile q.id, .ok (some row)⟩, ⟨.checkDiskExistence row.id, false⟩] ⟨default, row.hash⟩
  | unread {uid : Int32} {row : FileStorage} : DownloadPath q [⟨.getUserIdByToken q.token, uid⟩,
      ⟨.getFile q.id, .ok (some row)⟩, ⟨.checkDiskExistence row.id, true⟩, ⟨.loadFromDisk row.id, none⟩]
      ⟨default, row.hash⟩
  | loaded {uid : Int32} {row : FileStorage} {content : Bytes} : DownloadPath q [⟨.getUserIdByToken q.token, uid⟩,
      ⟨.getFile q.id, .ok (some row)⟩, ⟨.checkDiskExistence row.id, true⟩, ⟨.loadFromDisk row.id, some content⟩]
      ⟨⟨row.name, content⟩, row.hash⟩

theorem DownloadPath.run {q : FileDownloadRequest} {r : FileDownloadResponse} (h : DownloadPath q l r) :
    DownloadRun q l r := by
  cases h with
  | noToken | noRow => exact .refused (by simp [Unloaded])
  | noContent | unread => exact .missing (by simp [Unloaded])
  | loaded => exact .loaded

section
variable {pkt : Packet}

theorem onFileDownloadRequest_path {reply : Reply} (h : (onFileDownloadRequest pkt).Runs l reply) :
    ∃ r, DownloadPath (pkt.request FileDownloadRequest) l r ∧
      reply = (packToPacket .FileDownloadResponse (.FileDownloadResponse r), none) := by
  simp only [onFileDownloadRequest, bind_eq, pure_eq, op_bind, ret_bind, runs_op] at h
  obtain ⟨uid, l, rfl, h⟩ := h
  split at h
  · rename_i huid
    obtain ⟨rfl, rfl⟩ := runs_ret.mp h
    exact ⟨_, huid ▸ .noToken, rfl⟩
  simp only [runs_op, runs_orTerminate] at h
  obtain ⟨_, l, rfl, row, rfl, h⟩ := h
  cases row with
  | none =>
    obtain ⟨rfl, rfl⟩ := runs_ret.mp h
    exact ⟨_, .noRow, rfl⟩
  | some row =>
    simp only [runs_op] at h
    obtain ⟨exists_, l, rfl, h⟩ := h
    cases exists_ with
    | false =>
      obtain ⟨rfl, rfl⟩ := runs_ret.mp h
      exact ⟨_, .noContent, rfl⟩
    | true =>
      simp only [if_true, runs_op] at h
      obtain ⟨content, l, rfl, h⟩ := h
      cases content with
      | none =>
        obtain ⟨rfl, rfl⟩ := runs_ret.mp h
        exact ⟨_, .unread, rfl⟩
      | some content =>
        obtain ⟨rfl, rfl⟩ := runs_ret.mp h
        exact ⟨_, .loaded, rfl⟩

theorem onFileDownloadRequest_runs {reply : Reply} (h : (onFileDownloadRequest pkt).Runs l reply) :
    ∃ r, DownloadRun (pkt.request FileDownloadRequest) l r ∧
      reply = (packToPacket .FileDownloadResponse (.FileDownloadResponse r), none) := by
  obtain ⟨r, hp, hr⟩ := onFileDownloadRequest_path h
  exact ⟨r, hp.run, hr⟩

/-- A file that is found and loaded is sent after these steps. -/
theorem onFileDownloadRequest_loaded {uid : Int32} {row : FileStorage} {content : Bytes} (huid : uid ≠ 0) :
    (onFileDownloadRequest pkt).Runs [⟨.getUserIdByToken (pkt.request FileDownloadRequest).token, uid⟩,
        ⟨.getFile (pkt.request FileDownloadRequest).id, .ok (some row)⟩, ⟨.checkDiskExistence row.id, true⟩,
        ⟨.loadFromDisk row.id, some content⟩] (downloadResponse ⟨row.name, content⟩ row.hash) := by
  simp only [onFileDownloadRequest, bind_eq, pure_eq, op_bind, ret_bind]
  refine .cons ?_
  rw [if_neg huid]
  exact .cons (.cons (.cons .nil))

/-- The ways a `ContactMessageRequest` is answered. -/
theorem onContactMessageRequest_runs {reply : Reply} (h : (onContactMessageRequest pkt).Runs l reply) :
    ∃ uid r, l = [⟨.getUserIdByToken (pkt.request ContactMessageRequest).token, uid⟩,
        ⟨.getMessage uid (pkt.request ContactMessageRequest).id (pkt.request ContactMessageRequest).internalid,
          .ok r⟩] ∧
      reply = (packToPacket .ContactMessageResponse
        (.ContactMessageResponse (r.getD { (default : Message) with id := -1 })), none) := by
  simp only [onContactMessageRequest, bind_eq, pure_eq, op_bind, ret_bind, runs_op, runs_orTerminate] at h
  obtain ⟨uid, l, rfl, _, l, rfl, r, rfl, h⟩ := h
  cases r with
  | none =>
    obtain ⟨rfl, rfl⟩ := runs_ret.mp h
    exact ⟨uid, none, rfl, rfl⟩
  | some msg =>
    obtain ⟨rfl, rfl⟩ := runs_ret.mp h
    exact ⟨uid, some msg, rfl, rfl⟩

end

end NetChat
