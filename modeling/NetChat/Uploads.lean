/-
Uploads. The content of a file goes to the disk and its name and hash to the
table, in two steps of one turn: the first is taken when the file is not on the
disk yet, the second by every upload of it. After its reply the upload that
stored the content forwards the message that waits for it.
-/
import NetChat.OneMessage
import NetChat.Queues

namespace NetChat

open Interleave Prog Server DataAccess

variable {SHA256 : Bytes → Bytes} {ok : Config → Event → Prop} {c c' : Config} {e : Event} {l : List Entry} {o : Op}

/-! ## The turn of an upload -/

/-- The log of a `FileUploadRequest` up to its write. -/
def saving (q : FileUploadRequest) (uid : Int32) (row : FileStorage) (out : SaveOut) : List Entry :=
  found q uid row ++ [⟨.checkDiskExistence row.id, false⟩, ⟨.saveToDisk row.id q.file.content, out⟩]

theorem saving_eq (q : FileUploadRequest) (uid : Int32) (row : FileStorage) (out : SaveOut) : saving q uid row out =
    (found q uid row ++ [⟨.checkDiskExistence row.id, false⟩]) ++ [⟨.saveToDisk row.id q.file.content, out⟩] := by
  rw [saving, List.append_assoc]
  rfl

theorem stowed_eq (q : FileUploadRequest) (uid : Int32) (row : FileStorage) (out : SaveOut) (ret : Sql Nat) :
    stowed q uid row out ret = saving q uid row out ++ [⟨.updateFile (uploaded q row), ret⟩] := by
  rw [saving, List.append_assoc]
  rfl

/-- **What the handler of a `FileUploadRequest` issues**, and after which log. -/
inductive UploadStep (q : FileUploadRequest) : List Entry → Op → Prop
  | token : UploadStep q [] (.getUserIdByToken q.token)
  | file {uid : Int32} : UploadStep q [⟨.getUserIdByToken q.token, uid⟩] (.getFile q.id)
  | onDisk {uid : Int32} {row : FileStorage} : UploadStep q (found q uid row) (.checkDiskExistence row.id)
  | save {uid : Int32} {row : FileStorage} : uid ≠ 0 →
      UploadStep q (found q uid row ++ [⟨.checkDiskExistence row.id, false⟩]) (.saveToDisk row.id q.file.content)
  | rename {uid : Int32} {row : FileStorage} :
      UploadStep q (found q uid row ++ [⟨.checkDiskExistence row.id, true⟩]) (.updateFile (uploaded q row))
  | update {uid : Int32} {row : FileStorage} {out : SaveOut} : uid ≠ 0 →
      UploadStep q (saving q uid row out) (.updateFile (uploaded q row))

section
variable {pkt : Packet}

theorem onFileUploadRequest_issues (h : (onFileUploadRequest pkt).Issues l o) :
    UploadStep (pkt.request FileUploadRequest) l o := by
  simp only [onFileUploadRequest, bind_eq, pure_eq, op_bind, ret_bind, issues_op] at h
  rcases h with ⟨rfl, rfl⟩ | ⟨uid, l, rfl, h⟩
  · exact .token
  split at h
  · simp at h
  rename_i huid
  simp only [issues_op, issues_orTerminate] at h
  rcases h with ⟨rfl, rfl⟩ | ⟨_, l, rfl, row, rfl, h⟩
  · exact .file
  cases row with
  | none => simp at h
  | some row =>
    simp only [issues_op] at h
    rcases h with ⟨rfl, rfl⟩ | ⟨exists_, l, rfl, h⟩
    · exact .onDisk
    cases exists_ with
    | true =>
      simp only [if_true, ret_bind, g_db.updateFile, op_bind, issues_op] at h
      rcases h with ⟨rfl, rfl⟩ | ⟨ret, l, rfl, h⟩
      · exact .rename
      · split at h <;> simp at h
    | false =>
      simp only [Bool.false_eq_true, if_false, op_bind, ret_bind, g_db.updateFile, issues_op] at h
      rcases h with ⟨rfl, rfl⟩ | ⟨out, l, rfl, ⟨rfl, rfl⟩ | ⟨ret, l, rfl, h⟩⟩
      · exact .save huid
      · exact .update huid
      · split at h <;> simp at h

/-- An upload that goes well, from where it finds no content on the disk: how far its
log has come, and what is next. -/
inductive Uploading (fd : Int32) (q : FileUploadRequest) (row : FileStorage) : List Entry → Op → Prop
  | checked {uid : Int32} : uid ≠ 0 → Uploading fd q row (found q uid row ++ [⟨.checkDiskExistence row.id, false⟩])
      (.saveToDisk row.id q.file.content)
  | saved {uid : Int32} {wrote : SaveOut} : uid ≠ 0 → wrote.ret = true →
      Uploading fd q row (saving q uid row wrote) (.updateFile (uploaded q row))
  | updated {uid : Int32} {wrote : SaveOut} {ret : Sql Nat} : uid ≠ 0 → wrote.ret = true → g_db.caught ret ≠ 0 →
      Uploading fd q row (stowed q uid row wrote ret) (.Send fd (uploadResponse true))
  | replied {uid : Int32} {wrote : SaveOut} {ret : Sql Nat} {out : SendOut} : uid ≠ 0 → wrote.ret = true →
      g_db.caught ret ≠ 0 → out.ok = true →
      Uploading fd q row (stowed q uid row wrote ret ++ [⟨.Send fd (uploadResponse true), out⟩]) (.getFileMsg q.id)
  | looked {uid : Int32} {wrote : SaveOut} {ret : Sql Nat} {out : SendOut} {r : Int32} {m : Message} : uid ≠ 0 →
      wrote.ret = true → g_db.caught ret ≠ 0 → out.ok = true → r ≠ 0 →
      Uploading fd q row (stowed q uid row wrote ret ++ [⟨.Send fd (uploadResponse true), out⟩, ⟨.getFileMsg q.id, (r, m)⟩])
        (.delFileMsg q.id)

theorem onFileUploadRequest_stowed {uid : Int32} {row : FileStorage} {wrote : SaveOut} {ret : Sql Nat} (huid : uid ≠ 0)
    (hsaved : wrote.ret = true) (hret : g_db.caught ret ≠ 0) :
    (onFileUploadRequest pkt).Runs (stowed (pkt.request FileUploadRequest) uid row wrote ret)
      (uploadResponse true, some (forwardFileMsg (pkt.request FileUploadRequest).id)) := by
  simp only [onFileUploadRequest, bind_eq, pure_eq, op_bind, ret_bind]
  refine .cons ?_
  rw [if_neg huid]
  refine .cons (.cons ?_)
  simp only [Bool.false_eq_true, if_false, op_bind, ret_bind, g_db.updateFile]
  refine .cons (.cons ?_)
  rw [if_pos (by simpa using hret), hsaved]
  exact .nil

theorem Uploading.issues {fd : Int32} {conn : Conn} {n : Nat} {row : FileStorage}
    (hp : pkt.packetid = PacketType.val .FileUploadRequest) (h : Uploading fd (pkt.request FileUploadRequest) row l o) :
    (RevcSocketThreadFunc SHA256).Issues (received fd conn n pkt ++ l) o := by
  have hh : handler SHA256 fd pkt = some (onFileUploadRequest pkt) := handler_fileUpload hp
  have hrun : ∀ uid wrote, uid ≠ 0 → SaveOut.ret wrote = true →
      (onFileUploadRequest pkt).Runs (stowed (pkt.request FileUploadRequest) uid row wrote (.ok 1))
        (uploadResponse true, some (forwardFileMsg (pkt.request FileUploadRequest).id)) :=
    fun uid wrote huid hsaved => onFileUploadRequest_stowed huid hsaved (by decide)
  cases h with
  | checked huid =>
    have hsave := hrun _ .saved huid rfl
    rw [stowed_eq, saving_eq, List.append_assoc] at hsave
    exact worker_handles hh hsave.split
  | saved huid hsaved =>
    have hupdate := hrun _ _ huid hsaved
    rw [stowed_eq] at hupdate
    exact worker_handles hh hupdate.split
  | updated huid hsaved hret => exact worker_replies hh (onFileUploadRequest_stowed huid hsaved hret) rfl
  | replied huid hsaved hret hok =>
    refine worker_calls hh (onFileUploadRequest_stowed huid hsaved hret) rfl hok rfl ?_
    simp [forwardFileMsg]
  | looked huid hsaved hret hok hr =>
    refine worker_calls hh (onFileUploadRequest_stowed huid hsaved hret) rfl hok rfl ?_
    simp only [forwardFileMsg, bind_eq, op_bind, ret_bind, issues_op]
    refine .inr ⟨_, [], rfl, ?_⟩
    rw [if_neg hr]
    simp

end

/-- Worker `i` has come this far with an upload of `row` for the request `q`. -/
def InUpload (c : Config) (i : Nat) (fd : Int32) (q : FileUploadRequest) (row : FileStorage) (l : List Entry) (o : Op) :
    Prop :=
  ∃ pkt, pkt.packetid = PacketType.val .FileUploadRequest ∧ pkt.request FileUploadRequest = q ∧ InTurn c i fd pkt l ∧
    Uploading fd q row l o

section
variable {i : Nat} {fd : Int32} {q : FileUploadRequest} {row : FileStorage}

/-- **A step of an upload**: of another thread, or the upload's next. -/
theorem InUpload.step {s : State} (hu : InUpload c i fd q row l o) (h : (server SHA256).ReachableWhen ok s c)
    (hs : (server SHA256).Step c e c') :
    (e.tid ≠ .worker i ∧ InUpload c' i fd q row l o) ∨
      e.tid = .worker i ∧ e.act.op = o ∧
        ∀ o', Uploading fd q row (l ++ [e.act]) o' → InUpload c' i fd q row (l ++ [e.act]) o' := by
  obtain ⟨pkt, hp, rfl, hl, hup⟩ := hu
  rcases hl.step (fun conn n => hup.issues hp) h hs with ⟨ht, hl'⟩ | ⟨ht, ho, hon⟩
  · exact .inl ⟨ht, pkt, hp, rfl, hl', hup⟩
  · exact .inr ⟨ht, ho, fun o' hup' => ⟨pkt, hp, rfl, hon o' fun conn n => hup'.issues hp, hup'⟩⟩

/-- Content is saved by an upload that found none. -/
theorem inUpload_of_saves {s : State} {f content : Bytes} (h : (server SHA256).ReachableWhen ok s c)
    (hs : (server SHA256).Step c e c') (ho : e.act.op = .saveToDisk f content) :
    ∃ i fd q row uid, e.tid = .worker i ∧ row.id = f ∧ q.file.content = content ∧
      InUpload c i fd q row (found q uid row ++ [⟨.checkDiskExistence row.id, false⟩]) (.saveToDisk f content) := by
  obtain ⟨i, fd, conn, n, pkt, l, ht, hl, hp, hi⟩ := step_handler handler_fileUpload h hs ho rfl
  have hstep := onFileUploadRequest_issues hi
  generalize hop : Op.saveToDisk f content = op at hstep
  cases hstep with
  | @save uid row huid =>
    cases hop
    have hlog := hs.log
    rw [ht, hl] at hlog
    exact ⟨i, fd, _, row, uid, ht, rfl, rfl, pkt, hp, rfl, ⟨conn, n, hlog⟩, .checked huid⟩
  | _ => cases hop

/-- A row is written by an upload that saved the content, or by a turn that did not save. -/
theorem inUpload_of_updates {v : FileStorage} (h : (server SHA256).ReachableWhen ok State.initial c)
    (hs : (server SHA256).Step c e c') (ho : e.act.op = .updateFile v) :
    (∃ i fd q row uid wrote, e.tid = .worker i ∧ row.id = v.id ∧ wrote.ret = true ∧
      InUpload c i fd q row (saving q uid row wrote) (.updateFile v)) ∨
        ∀ id content out, out.ret = true → ⟨.saveToDisk id content, out⟩ ∉ e.pre := by
  obtain ⟨i, fd, conn, n, pkt, l, ht, hl, hp, hi⟩ := step_handler handler_fileUpload h hs ho rfl
  have hstep := onFileUploadRequest_issues hi
  generalize hop : Op.updateFile v = op at hstep
  cases hstep with
  | rename =>
    refine .inr fun id content out _ hmem => ?_
    rw [hl] at hmem
    simp [received, found] at hmem
  | @update uid row out huid =>
    cases hop
    have hlog := hs.log
    rw [ht, hl] at hlog
    by_cases hout : out.ret = true
    · exact .inl ⟨i, fd, _, row, uid, out, ht, rfl, hout, pkt, hp, rfl, ⟨conn, n, hlog⟩, .saved huid hout⟩
    · refine .inr fun id content out' hout' hmem => ?_
      rw [hl] at hmem
      simp only [received, saving, found, List.cons_append, List.nil_append, List.mem_cons, Interleave.Entry.mk.injEq,
        reduceCtorEq, false_and, Op.saveToDisk.injEq, List.not_mem_nil, or_false, false_or] at hmem
      obtain ⟨⟨rfl, rfl⟩, hsame⟩ := hmem
      exact hout (eq_of_heq hsame ▸ hout')
  | _ => cases hop

end

namespace Example

/-- The message of Bob's picture is pending. -/
def pictured : Schedule := sendsPicture ++ [(.worker 0, ⟨.setFileMsg fileid 1 (answer picture fileid), ()⟩)]

/-- Bob uploads his picture, of which there is the row `unnamed` so far. -/
def uploads : FileUploadRequest := ⟨token, fileid, ⟨bytes "x.png", bytes "pixels"⟩, bytes "d41d8cd9"⟩

def unnamed : FileStorage := ⟨fileid, [], []⟩

def uploadsPacket : Packet := packToPacket .FileUploadRequest (.FileUploadRequest uploads)

/-- Worker 0 stores the picture and goes on with `rest`. -/
def storesPicture (rest : List Entry) : Schedule :=
  handles 0 5 0 uploadsPacket (stowed uploads 1 unnamed .saved (.ok 1) ++ rest)

/-- The picture is stored, and its message is taken out for Bob, who has no channel. -/
def forwarded : Schedule :=
  pictured ++ storesPicture [⟨.Send 5 (uploadResponse true), ⟨some 0, true⟩⟩,
    ⟨.getFileMsg fileid, (1, answer picture fileid)⟩, ⟨.delFileMsg fileid, ()⟩, ⟨.getSender 1, false⟩]

/-- Bob uploads other content under other name for the same file, which is refused. -/
def reuploads : FileUploadRequest := ⟨token, fileid, ⟨bytes "y.png", bytes "other"⟩, bytes "e3b0c442"⟩

def reuploadsPacket : Packet := packToPacket .FileUploadRequest (.FileUploadRequest reuploads)

/-- The upload `q` of the picture, which is there, up to its reply. -/
def refuses (q : FileUploadRequest) : List Entry :=
  found q 1 (uploaded uploads unnamed) ++ [⟨.checkDiskExistence fileid, true⟩, ⟨.updateFile (uploaded q unnamed), .ok 1⟩]

end Example

end NetChat
