/-
What the message of a file promises. It is queued when an upload of the file has
been answered with success, so the row and the content are there; neither is
ever taken away, whatever other uploads of the file do, so that every download
asked for from then on finds them.
-/
import NetChat.Addressed
import NetChat.Handling
import NetChat.WriteOnce

namespace NetChat

open Interleave Server DataAccess

variable {SHA256 : Bytes → Bytes} {ok : Config → Event → Prop} {c c' : Config} {e g : Event} {f : Bytes} {m : Message}

/-! ## The property -/

/-- `f` is the id of a row of the files table, and there is content under it on disk. -/
structure Fetchable (s : State) (f : Bytes) : Prop where
  row : f ∈ s.db.files.map FileRow.file_id
  content : s.disk f ≠ none

/-- `g` puts the message `m` of a file in a queue. -/
def PutsFile (m : Message) (g : Event) : Prop :=
  ∃ r p, g.act.op = .addSendTask r p ∧ m ∈ p.messages ∧ hasFile m.message.type

/-- The log of a download that finds its row and loads the content. -/
def fetched (q : FileDownloadRequest) (uid : Int32) (row : FileStorage) (content : Bytes) : List Entry :=
  [⟨.getUserIdByToken q.token, uid⟩, ⟨.getFile q.id, .ok (some row)⟩, ⟨.checkDiskExistence row.id, true⟩,
    ⟨.loadFromDisk row.id, some content⟩]

/-- The reply `p` of the download `q`, after the log `l`, carries the file. -/
def Fetches (q : FileDownloadRequest) (l : List Entry) (p : Packet) : Prop :=
  ∃ fd conn n pkt uid row content, l = received fd conn n pkt ++ fetched q uid row content ∧
    p = (downloadResponse ⟨row.name, content⟩ row.hash).1

/-- Every file whose message is, or ever was, put in a queue can be fetched: its row and
its content are there, every download of it that began since, with a valid token, was
answered with the file, and so is one that begins now. -/
structure AnnouncedFetchable (SHA256 : Bytes → Bytes) (c : Config) : Prop where
  queued : ∀ r p m, p ∈ c.state.queue r → m ∈ p.messages → hasFile m.message.type → Fetchable c.state m.message.content
  put : ∀ g m, g ∈ c.history → PutsFile m g → Fetchable c.state m.message.content
  since : ∀ later e since g past m q p, c.history = later ++ e :: (since ++ g :: past) → PutsFile m g →
    Responds .FileDownloadRequest q p e → q.id = m.message.content → (∃ y ∈ since, y.tid = e.tid ∧ y.pre = []) →
    (∀ uid, ⟨.getUserIdByToken q.token, uid⟩ ∈ e.pre → uid ≠ 0) → Fetches q e.pre p
  now : ∀ g m fd pkt q, g ∈ c.history → PutsFile m g → pkt.packetid = PacketType.val .FileDownloadRequest →
    pkt.request FileDownloadRequest = q → q.id = m.message.content → c.state.getUserIdByToken q.token ≠ 0 →
    c.state.fds fd ≠ none → ∃ row content out, Handled SHA256 c.state fd pkt
      (downloadResponse ⟨row.name, content⟩ row.hash).1
      (fetched q (c.state.getUserIdByToken q.token) row content ++
        [⟨.Send fd (downloadResponse ⟨row.name, content⟩ row.hash).1, out⟩]) c.state

/-- Reads of files that are on disk do not fail. -/
def ReadsSucceed (c : Config) (e : Event) : Prop := ∀ id, e.act = ⟨.loadFromDisk id, none⟩ → c.state.disk id = none

/-! ## Rows and content stay -/

/-- An id of a row that has no NUL in it finds one. -/
theorem Fetchable.getFile {s : State} (hf : Fetchable s f) (hid : cstr f = f) :
    ∃ row, s.db.getFile f = some row ∧ row.id = f := by
  obtain ⟨r, hr, hrf⟩ := List.mem_map.mp hf.row
  have hsome : s.db.getFile f ≠ none := by
    rw [DataAccess.getFile, hid]
    simp only [ne_eq, Option.map_eq_none_iff, List.find?_eq_none, not_forall]
    exact ⟨r, hr, by simp [hrf]⟩
  obtain ⟨row, hrow⟩ := Option.ne_none_iff_exists'.mp hsome
  exact ⟨row, hrow, (getFile_id hrow).trans hid⟩

theorem cstr_uuid {uuid : Bytes} (h : isUUID uuid = true) : cstr uuid = uuid := by
  refine cstr_eq_self fun b hb hzero => ?_
  subst hzero
  obtain ⟨i, hi, hget⟩ := List.getElem_of_mem hb
  simp only [isUUID, Bool.and_eq_true, List.all_eq_true] at h
  have hchar := h.2 (0, i) (List.mk_mem_zipIdx_iff_getElem?.mpr (by rw [List.getElem?_eq_getElem hi, hget]))
  simp at hchar

/-- What a message is made pending for is the id of a row, without a NUL. -/
theorem setFileMsg_file (h : (server SHA256).ReachableWhen ok State.initial c) (hg : g ∈ c.history) {r : Int32}
    (ho : g.act.op = .setFileMsg f r m) : f ∈ c.state.db.files.map FileRow.file_id ∧ cstr f = f := by
  obtain ⟨c₁, c₂, h₁, hs, -, -⟩ := h.event_mem hg
  obtain ⟨fd, conn, n, pkt, u, msgs, timestamp, rowid, rest, hpre, -, -⟩ := setFileMsg_pre h₁ hs ho
  refine ⟨insertFile_past h (h.pre_past hg hpre) rfl, ?_⟩
  have huuid := h.pre_past hg (x := ⟨.getUUID, f⟩)
    (p := received fd conn n pkt ++ stored (pkt.request SendMessageRequest) u msgs timestamp rowid)
    (q := ⟨.insertFile f, .ok 1⟩ :: rest) (by rw [hpre]; simp)
  obtain ⟨c₃, c₄, -, hs₃, -, -⟩ := h.event_mem huuid
  have hdraw := hs₃.state
  simp only [server, State.step, Option.ite_none_right_eq_some] at hdraw
  exact cstr_uuid hdraw.1

/-! ## Announcements -/

theorem PutsFile.announces (hp : PutsFile m g) (h : (server SHA256).ReachableWhen ok State.initial c)
    (hg : g ∈ c.history) :
    Announces m.message.content g := by
  obtain ⟨r, p, ho, hm, hf⟩ := hp
  obtain ⟨c₁, c₂, h₁, hs, -, -⟩ := h.event_mem hg
  have hi := hs.issues h₁
  rw [ho] at hi
  rcases push_messages hi with hnone | ⟨m', rfl⟩
  · rw [hnone] at hm
    cases hm
  · obtain rfl := List.mem_singleton.mp hm
    exact ⟨r, m, ho, hf, rfl⟩

/-- **An announced file can be fetched**, from the announcement on. -/
theorem announces_fetchable (h : (server SHA256).ReachableWhen ok State.initial c) (hg : g ∈ c.history)
    (ha : Announces f g) : Fetchable c.state f ∧ cstr f = f := by
  obtain ⟨q, pre, answer, rest, rfl, hpre, hsucc, -, g', hg', r, m, ho⟩ := announces_forward h hg ha
  obtain ⟨hrow, hid⟩ := setFileMsg_file h hg' ho
  -- the content was there when the upload was answered
  obtain ⟨c₁, c₂, h₁, hs, hk, hsteps⟩ := h.event_mem (h.pre_past hg hpre)
  obtain ⟨i, fd, pkt, uid, row, out, ret, -, -, rfl, -, hrowid, hout, -, conn, n, hl⟩ :=
    succeeds_stowed h₁ hs hsucc
  have hsaved : (c₁.threads (.worker i)).log =
      (received fd conn n pkt ++ (found (pkt.request FileUploadRequest) uid row ++
      [⟨.checkDiskExistence row.id, false⟩])) ++ ⟨.saveToDisk row.id (pkt.request FileUploadRequest).file.content, out⟩ ::
        [⟨.updateFile (uploaded (pkt.request FileUploadRequest) row), ret⟩] := by
    rw [hl, stowed]
    simp
  obtain ⟨c₃, c₄, -, hs₃, -, hsteps₃⟩ := h₁.log_event hsaved
  have hdisk := State.step_saveToDisk_some hs₃.state hout
  rw [hid] at hrowid
  have hsteps' := Machine.Steps.trans hsteps₃ (Machine.Steps.trans (.tail .refl hs hk) hsteps)
  refine ⟨⟨hrow, hsteps'.state_invariant (fun s => s.disk (pkt.request FileUploadRequest).id ≠ none)
    (fun _ _ _ hi hs => step_disk_stays hs hi) ?_⟩, hid⟩
  rwa [← hrowid]

/-! ## Downloads -/

/-- A download of an announced file finds it. -/
theorem download_fetches (h : ReachableWhen SHA256 ReadsSucceed c) {later since past : List Event}
    {q : FileDownloadRequest} {p : Packet} (hh : c.history = later ++ e :: (since ++ g :: past)) (ha : Announces f g)
    (hr : Responds .FileDownloadRequest q p e) (hid : q.id = f) (hb : ∃ y ∈ since, y.tid = e.tid ∧ y.pre = [])
    (hvalid : ∀ uid, ⟨.getUserIdByToken q.token, uid⟩ ∈ e.pre → uid ≠ 0) : Fetches q e.pre p := by
  obtain ⟨c₁, c₂, h₁, -, hs, -, -⟩ := h.event hh
  obtain ⟨pkt, fd, hpkt, hp, rfl, ho⟩ := hr
  obtain ⟨i, conn, n, hd, l, cb, -, hl, hhd, hrun⟩ := reply_run h₁ hs hpkt ho
  rw [handler_fileDownload hp] at hhd
  cases hhd
  obtain ⟨r, hpath, hreply⟩ := onFileDownloadRequest_path hrun
  obtain ⟨rfl, -⟩ := Prod.mk.inj hreply
  -- what the turn did, it did with the file announced
  have hafter : ∀ x ∈ e.pre, ∃ c₃ c₄ p, (server SHA256).Step c₃ ⟨e.tid, p, x⟩ c₄ ∧ ReadsSucceed c₃ ⟨e.tid, p, x⟩ ∧
      Fetchable c₃.state f ∧ cstr f = f := by
    intro x hx
    obtain ⟨c₃, c₄, p, h₃, hs₃, hk₃, hg⟩ := h.pre_after hh hb hx
    exact ⟨c₃, c₄, p, hs₃, hk₃, announces_fetchable h₃ hg ha⟩
  have hrow : ∀ row, ⟨.getFile (pkt.request FileDownloadRequest).id, .ok row⟩ ∈ e.pre →
      ∃ r, row = some r ∧ r.id = f := by
    intro row hx
    obtain ⟨c₃, c₄, _, hs₃, -, hf, hcstr⟩ := hafter _ hx
    obtain ⟨r, hr, hrid⟩ := hf.getFile hcstr
    obtain ⟨-, hget⟩ := State.query_ok hs₃.state
    rw [hid, hr] at hget
    exact ⟨r, hget, hrid⟩
  rw [hl] at hvalid hrow hafter
  cases hpath with
  | noToken => exact absurd rfl (hvalid 0 (by simp))
  | noRow =>
    obtain ⟨r, hnone, -⟩ := hrow none (by simp)
    cases hnone
  | @noContent uid row =>
    obtain ⟨r, hr, hrid⟩ := hrow (some row) (by simp)
    cases hr
    obtain ⟨c₃, c₄, _, hs₃, -, hf, -⟩ := hafter ⟨.checkDiskExistence row.id, false⟩ (by simp)
    have hcheck := hs₃.state
    simp only [server, State.step, Option.ite_none_right_eq_some, hrid] at hcheck
    exact absurd (Option.isSome_eq_false_iff.mp hcheck.1.symm) (by simpa using hf.content)
  | @unread uid row =>
    obtain ⟨r, hr, hrid⟩ := hrow (some row) (by simp)
    cases hr
    obtain ⟨c₃, c₄, _, -, hk₃, hf, -⟩ := hafter ⟨.loadFromDisk row.id, none⟩ (by simp)
    exact absurd (hrid ▸ hk₃ row.id rfl) hf.content
  | @loaded uid row content => exact ⟨fd, conn, n, pkt, uid, row, content, hl, rfl⟩

/-- And one handled alone is answered with it. -/
theorem Fetchable.handled {s : State} {fd : Int32} {pkt : Packet} (hf : Fetchable s f) (hcstr : cstr f = f)
    (hp : pkt.packetid = PacketType.val .FileDownloadRequest) (hid : (pkt.request FileDownloadRequest).id = f)
    (huid : s.getUserIdByToken (pkt.request FileDownloadRequest).token ≠ 0) (hfd : s.fds fd ≠ none) :
    ∃ row content out, Handled SHA256 s fd pkt (downloadResponse ⟨row.name, content⟩ row.hash).1
      (fetched (pkt.request FileDownloadRequest) (s.getUserIdByToken (pkt.request FileDownloadRequest).token) row content ++
        [⟨.Send fd (downloadResponse ⟨row.name, content⟩ row.hash).1, out⟩]) s := by
  obtain ⟨row, hrow, hrid⟩ := hf.getFile hcstr
  obtain ⟨content, hcontent⟩ := Option.ne_none_iff_exists'.mp hf.content
  refine ⟨row, content, ⟨s.fds fd, true⟩, Handled.answered (handler_fileDownload hp)
    (onFileDownloadRequest_loaded huid) rfl rfl ?_⟩
  refine Machine.stepAll_cons.mpr ⟨s, if_pos rfl, Machine.stepAll_cons.mpr ⟨s, if_pos ?_, Machine.stepAll_cons.mpr
    ⟨s, if_pos ?_, Machine.stepAll_cons.mpr ⟨s, if_pos ?_, Machine.stepAll_cons.mpr ⟨s, if_pos ⟨rfl, fun _ => ?_⟩, rfl⟩⟩⟩⟩⟩
  · rw [hid, hrow]
  · rw [hrid, hcontent]
    rfl
  · rw [hrid, hcontent]
  · exact Option.isSome_iff_ne_none.mpr hfd

/-- **A file is announced only when it can be fetched**, in every run in which reads of
files on disk succeed. -/
theorem announced_fetchable (h : ReachableWhen SHA256 ReadsSucceed c) : AnnouncedFetchable SHA256 c where
  queued := by
    intro r p m hp hm hf
    obtain ⟨g, hg, hx⟩ := queue_pushed h hp
    exact (announces_fetchable h hg (PutsFile.announces ⟨r, p, by rw [hx], hm, hf⟩ h hg)).1
  put := fun _ _ hg hp => (announces_fetchable h hg (hp.announces h hg)).1
  since := fun _ _ _ _ _ _ _ _ hh hp hr hid hb hvalid =>
    download_fetches h hh (hp.announces h (by rw [hh]; simp)) hr hid hb hvalid
  now := by
    rintro g m fd pkt _ hg hp htype rfl hid huid hfd
    obtain ⟨hf, hcstr⟩ := announces_fetchable h hg (hp.announces h hg)
    exact hf.handled hcstr htype hid huid hfd

namespace Example

/-- Bob uploads the picture that is pending for him, is told of it, and downloads it. -/
def announcesPicture : Schedule :=
  waiting ++
    handles 0 6 1 uploadsPacket (stowed uploads 1 unnamed .saved (.ok 1) ++
      [⟨.Send 6 (uploadResponse true), ⟨some 1, true⟩⟩, ⟨.getFileMsg fileid, (1, pictureAnswer)⟩,
        ⟨.delFileMsg fileid, ()⟩, ⟨.getSender 1, true⟩, ⟨.addSendTask 1 (messageList pictureAnswer), ()⟩]) ++
    handles 0 6 1 downloadsPacket (fetched downloads 1 (uploaded uploads unnamed) (bytes "pixels") ++
      [replies 6 1 .FileDownloadResponse (.FileDownloadResponse (pictureFile (uploaded uploads unnamed)))])

def checkReads (e : Event) : Bool :=
  match e.act with
  | ⟨.loadFromDisk _, none⟩ => false
  | _ => true

end Example

theorem announced_fetchable_picture : ∃ c, messageList Example.pictureAnswer ∈ c.state.queue 1 ∧
    (c.history.head?.map fun e => (handling e.pre, e.act.op)) = some (some Example.downloadsPacket,
      .Send 6 (downloadResponse Example.uploads.file Example.uploads.hash).1) ∧
    AnnouncedFetchable Example.SHA256 c := by
  obtain ⟨c, hr, hq, hlast⟩ := reachableWhen_of_run Example.SHA256 ReadsSucceed (fun _ e => Example.checkReads e)
    Example.announcesPicture
    (fun c => messageList Example.pictureAnswer ∈ c.state.queue 1 ∧
      (c.history.head?.map fun e => (handling e.pre, e.act.op)) = some (some Example.downloadsPacket,
        .Send 6 (downloadResponse Example.uploads.file Example.uploads.hash).1))
    (fun c e _ _ _ _ hcheck id hx => by rw [Example.checkReads, hx] at hcheck; cases hcheck) (by decide +kernel)
  exact ⟨c, hq, hlast, announced_fetchable hr⟩

end NetChat
