/-
The empty file name by which a `FileDownloadResponse` says that it failed. The
name of a file that was found and read is the row's, so the marker tells only
while no row whose content is on disk has an empty name. Uploads write the
name they are sent, also those that are refused, and the row of a file that
was never named reads as an empty name.
-/
import NetChat.Download
import NetChat.FilePaths
import NetChat.Keys
import NetChat.Pending

namespace NetChat

open Interleave Prog Server DataAccess

variable {SHA256 : Bytes → Bytes} {ok : Config → Event → Prop} {c c' : Config} {e : Event} {f : Bytes} {i : Nat}
  {s s' : State} {l : List Entry}

/-! ## The property -/

/-- Why a download handled from `s`, with the log `l`, fails: its token is no user's, its
id is no row's, or its file has no content on disk or could not be read. -/
def DownloadFails (s : State) (q : FileDownloadRequest) (l : List Entry) : Prop :=
  s.getUserIdByToken q.token = 0 ∨ q.id ∉ s.db.files.map FileRow.file_id ∨ s.disk q.id = none ∨
    ⟨.loadFromDisk q.id, none⟩ ∈ l

/-- Whatever a download is answered from `s`, the file name is empty if and only if it
failed. -/
def MarkerTells (SHA256 : Bytes → Bytes) (s : State) (q : FileDownloadRequest) : Prop :=
  ∀ fd pkt r l s', pkt.packetid = PacketType.val .FileDownloadRequest → pkt.request FileDownloadRequest = q →
    Handled SHA256 s fd pkt (packToPacket .FileDownloadResponse (.FileDownloadResponse r)) l s' →
    (r.file.name = [] ↔ DownloadFails s q l)

/-- The row of the file `f` has a name. -/
def NamedRow (s : State) (f : Bytes) : Prop := ∃ row, s.db.getFile f = some row ∧ row.name ≠ []

/-- The condition on a step that updates the row of a file on disk: it writes a name, or
it fails and the row had one. -/
def Naming (c : Config) (e : Event) : Prop :=
  ∀ v ret, e.act = ⟨.updateFile v, ret⟩ → c.state.disk v.id ≠ none →
    (g_db.caught ret ≠ 0 ∧ v.name ≠ []) ∨ (g_db.caught ret = 0 ∧ NamedRow c.state v.id)

/-! ## Files on disk have names -/

/-- Worker `i` has saved the file `f` in whatever part and is about to update its row. -/
def AboutToName (c : Config) (f : Bytes) (i : Nat) : Prop :=
  ∃ fd pkt uid row out, pkt.packetid = PacketType.val .FileUploadRequest ∧ uid ≠ 0 ∧ row.id = f ∧
    InTurn c i fd pkt (saving (pkt.request FileUploadRequest) uid row out)

theorem onFileUploadRequest_updates {pkt : Packet} {uid : Int32} {row : FileStorage} {out : SaveOut} (huid : uid ≠ 0) :
    (onFileUploadRequest pkt).Issues (saving (pkt.request FileUploadRequest) uid row out)
      (.updateFile (uploaded (pkt.request FileUploadRequest) row)) := by
  simp only [onFileUploadRequest, bind_eq, pure_eq, op_bind, ret_bind]
  refine issues_op.mpr (.inr ⟨uid, _, rfl, ?_⟩)
  rw [if_neg huid]
  refine issues_op.mpr (.inr ⟨.ok (some row), _, rfl, issues_op.mpr (.inr ⟨false, _, rfl, ?_⟩)⟩)
  simp only [Bool.false_eq_true, if_false, op_bind, ret_bind, g_db.updateFile]
  exact issues_op.mpr (.inr ⟨out, _, rfl, issues_op.mpr (.inl ⟨rfl, rfl⟩)⟩)

theorem updates_issues {pkt : Packet} {fd : Int32} {conn : Conn} {n : Nat} {uid : Int32} {row : FileStorage}
    {out : SaveOut} (hp : pkt.packetid = PacketType.val .FileUploadRequest) (huid : uid ≠ 0) :
    (RevcSocketThreadFunc SHA256).Issues (received fd conn n pkt ++ saving (pkt.request FileUploadRequest) uid row out)
      (.updateFile (uploaded (pkt.request FileUploadRequest) row)) :=
  worker_handles (handler_fileUpload hp) (onFileUploadRequest_updates huid)

/-- A step that saves to a file leaves its worker about to name it. -/
theorem aboutToName_of_saves {content : Bytes} {out : SaveOut} (h : (server SHA256).ReachableWhen ok State.initial c)
    (hs : (server SHA256).Step c e c') (hx : e.act = ⟨.saveToDisk f content, out⟩) :
    ∃ i, AboutToName c' f i := by
  have ho : e.act.op = .saveToDisk f content := by rw [hx]
  obtain ⟨i, fd, conn, n, pkt, l, ht, hl, hp, hi⟩ := step_handler handler_fileUpload h hs ho rfl
  have hstep := onFileUploadRequest_issues hi
  generalize hop : Op.saveToDisk f content = op at hstep
  cases hstep with
  | @save uid row huid =>
    cases hop
    have hlog := hs.log
    rw [ht, hl] at hlog
    have hturn : InTurn c i fd pkt (found (pkt.request FileUploadRequest) uid row ++
      [⟨.checkDiskExistence row.id, false⟩]) := ⟨conn, n, hlog⟩
    rcases hturn.step (fun conn n => worker_handles (handler_fileUpload hp) hi) h hs with ⟨hne, -⟩ | ⟨-, -, hon⟩
    · exact absurd ht hne
    · rw [hx, ← saving_eq] at hon
      exact ⟨i, fd, pkt, uid, row, out, hp, huid, rfl, hon _ fun conn n => updates_issues hp huid⟩
  | _ => cases hop

/-- What is saved is the file of a row that was found, whose id has no NUL. -/
theorem AboutToName.cstr (ha : AboutToName c f i) (h : (server SHA256).ReachableWhen ok State.initial c) :
    NetChat.cstr f = f := by
  obtain ⟨fd, pkt, uid, row, out, -, -, rfl, conn, n, hl⟩ := ha
  have hread : (c.threads (.worker i)).log = (received fd conn n pkt ++
      [⟨.getUserIdByToken (pkt.request FileUploadRequest).token, uid⟩]) ++
        ⟨.getFile (pkt.request FileUploadRequest).id, .ok (some row)⟩ :: [⟨.checkDiskExistence row.id, false⟩,
          ⟨.saveToDisk row.id (pkt.request FileUploadRequest).file.content, out⟩] := by
    rw [hl, saving, found]
    simp
  obtain ⟨c₁, c₂, -, hs, -, -⟩ := h.log_event hread
  rw [getFile_id (State.query_ok hs.state).2.symm, cstr_cstr]

/-- A row keeps a name over a step that does not take the name of a file on disk. -/
theorem NamedRow.step (hn : NamedRow c.state f) (hf : cstr f = f) (hd : c.state.disk f ≠ none)
    (hs : (server SHA256).Step c e c') (hk : Naming c e) : NamedRow c'.state f := by
  obtain ⟨row, hrow, hname⟩ := hn
  rcases step_getFile hs.state f with hsame | hnone | ⟨v, ret, hx, hret, hv⟩
  · exact ⟨row, hsame.trans hrow, hname⟩
  · rw [hnone] at hrow
    cases hrow
  · rw [hf] at hv
    rcases hk v ret hx (hv ▸ hd) with ⟨-, hname'⟩ | ⟨hzero, -⟩
    · exact ⟨v, step_updateFile hs.state hx hret (hv.trans hf.symm), hname'⟩
    · exact absurd hzero hret

/-- A worker about to name a file does so next. -/
theorem AboutToName.step (ha : AboutToName c f i) (hd : c.state.disk f ≠ none)
    (h : (server SHA256).ReachableWhen ok State.initial c) (hs : (server SHA256).Step c e c') (hk : Naming c e) :
    AboutToName c' f i ∨ NamedRow c'.state f := by
  have hf := ha.cstr h
  obtain ⟨fd, pkt, uid, row, out, hp, huid, rfl, hl⟩ := ha
  rcases hl.step (fun conn n => updates_issues hp huid) h hs with ⟨-, hl'⟩ | ⟨-, ho, -⟩
  · exact .inl ⟨fd, pkt, uid, row, out, hp, huid, rfl, hl'⟩
  · obtain ⟨ret, hx⟩ := Entry.of_op ho
    right
    rcases hk _ ret hx hd with ⟨hret, hname⟩ | ⟨-, hn⟩
    · exact ⟨_, step_updateFile hs.state hx hret hf.symm, hname⟩
    · exact hn.step hf hd hs hk

/-- **A file on disk has a name** in its row, or a worker is about to write it there. -/
theorem named_or_naming (h : ReachableWhen SHA256 Naming c) (hd : c.state.disk f ≠ none) :
    cstr f = f ∧ (NamedRow c.state f ∨ ∃ i, AboutToName c f i) := by
  induction h with
  | init => exact absurd rfl hd
  | @step c c' e hr hs hk ih =>
    have hold : c.state.disk f ≠ none → cstr f = f ∧ (NamedRow c'.state f ∨ ∃ i, AboutToName c' f i) := by
      intro hd₀
      obtain ⟨hf, hn | ⟨i, ha⟩⟩ := ih hd₀
      · exact ⟨hf, .inl (hn.step hf hd₀ hs hk)⟩
      · exact ⟨hf, (ha.step hd₀ hr hs hk).symm.imp_right fun ha' => ⟨i, ha'⟩⟩
    rcases step_disk hs.state f with ⟨content, out, hx, hout⟩ | ⟨-, hsame⟩
    · obtain ⟨i, ha⟩ := aboutToName_of_saves hr hs hx
      exact ⟨ha.cstr (hr.step hs hk), .inr ⟨i, ha⟩⟩
    · exact hold (hsame ▸ hd)

/-- Between two requests every file on disk has a name in its row. -/
theorem named (h : ReachableWhen SHA256 Naming c) (hq : Quiescent c) (hd : c.state.disk f ≠ none) :
    NamedRow c.state f := by
  rcases (named_or_naming h hd).2 with hn | ⟨i, fd, pkt, uid, row, out, -, -, -, hl⟩
  · exact hn
  · exact absurd (hq i) hl.busy

/-! ## The download -/

/-- Where ids are compared whole, the row found is the row of the id. -/
theorem BoundWhole.getFile {db : DataAccess} {id : Bytes} (hkey : BoundWhole FileRow.file_id db.files id) :
    (∀ row, db.getFile id = some row → row.id = id) ∧ (db.getFile id = none → id ∉ db.files.map FileRow.file_id) := by
  obtain ⟨-, only, every⟩ := (byWholeKey_iff FileRow.file_id FileRow.toFileStorage db.files id).mpr hkey
  constructor
  · intro row hrow
    obtain ⟨r, hr, rfl⟩ := Option.map_eq_some_iff.mp hrow
    exact only r hr
  · intro hnone hmem
    obtain ⟨r, hr, hid⟩ := List.mem_map.mp hmem
    have hsome := every r hr hid
    rw [show (select FileRow.file_id db.files id).map FileRow.toFileStorage = db.getFile id from rfl, hnone] at hsome
    cases hsome

/-- A download that got as far as its content had a valid token. -/
theorem loaded_token {q : FileDownloadRequest} {pkt : Packet} {uid : Int32} {row : FileStorage} {content : Option Bytes}
    {reply : Reply} (hq : pkt.request FileDownloadRequest = q)
    (h : (onFileDownloadRequest pkt).Runs [⟨.getUserIdByToken q.token, uid⟩, ⟨.getFile q.id, .ok (some row)⟩,
      ⟨.checkDiskExistence row.id, true⟩, ⟨.loadFromDisk row.id, content⟩] reply) : uid ≠ 0 := by
  subst hq
  have hi : (onFileDownloadRequest pkt).Issues [⟨.getUserIdByToken (pkt.request FileDownloadRequest).token, uid⟩,
      ⟨.getFile (pkt.request FileDownloadRequest).id, .ok (some row)⟩, ⟨.checkDiskExistence row.id, true⟩]
        (.loadFromDisk row.id) :=
    Path.split (l := [_, _, _]) (m := []) h
  cases onFileDownloadRequest_issues hi with
  | load huid => exact huid

/-- A reply without a callback reads no file. -/
theorem respond_unread {fd : Int32} {p : Packet} {id : Bytes} (hc : p.content.isSome = true)
    (h : (respond fd (p, none)).Runs l ()) : ⟨.loadFromDisk id, none⟩ ∉ l := by
  obtain ⟨out, rest, rfl, hsent, hfailed⟩ := respond_runs hc h
  cases hok : out.ok with
  | true =>
    rw [(hsent hok).2 rfl]
    simp
  | false =>
    obtain ⟨conn, rfl⟩ := hfailed hok
    simp

/-- **The marker tells** a failed download from one that went well, between two requests
of a run in which no file on disk is without a name. -/
theorem marker_tells (h : ReachableWhen SHA256 Naming c) (hq : Quiescent c) {q : FileDownloadRequest}
    (hkey : c.state.getUserIdByToken q.token ≠ 0 → BoundWhole FileRow.file_id c.state.db.files q.id) :
    MarkerTells SHA256 c.state q := by
  rintro fd pkt r l s' hp rfl ⟨hd, reply, l₁, l₂, hh, hrun, hreply, hrespond, rfl, hsteps⟩
  rw [handler_fileDownload hp] at hh
  cases hh
  obtain ⟨r', hpath, rfl⟩ := onFileDownloadRequest_path hrun
  simp only [packToPacket_inj, true_and, Body.FileDownloadResponse.injEq] at hreply
  subst hreply
  obtain ⟨s₁, hsteps, -⟩ := Machine.stepAll_append.mp hsteps
  by_cases hzero : c.state.getUserIdByToken (pkt.request FileDownloadRequest).token = 0
  · -- refused for its token
    refine iff_of_true ?_ (.inl hzero)
    cases hpath with
    | loaded => exact absurd ((stepAll_token hsteps).1.trans hzero) (loaded_token rfl hrun)
    | _ => rfl
  obtain ⟨hrow, hnorow⟩ := (hkey hzero).getFile
  cases hpath with
  | noToken => exact absurd (stepAll_token hsteps).1.symm hzero
  | noRow =>
    obtain ⟨-, hsteps⟩ := stepAll_token hsteps
    exact iff_of_true rfl (.inr (.inl (hnorow (stepAll_row hsteps).1.symm)))
  | noContent =>
    obtain ⟨-, hsteps⟩ := stepAll_token hsteps
    obtain ⟨hget, hsteps⟩ := stepAll_row hsteps
    have hnone := (stepAll_exists hsteps).1
    rw [hrow _ hget.symm] at hnone
    exact iff_of_true rfl (.inr (.inr (.inl (by simpa using hnone.symm))))
  | @unread uid row =>
    obtain ⟨-, hsteps⟩ := stepAll_token hsteps
    have hid := hrow _ (stepAll_row hsteps).1.symm
    refine iff_of_true rfl (.inr (.inr (.inr (List.mem_append_left _ ?_))))
    simp [hid]
  | @loaded uid row content =>
    obtain ⟨-, hsteps⟩ := stepAll_token hsteps
    obtain ⟨hget, hsteps⟩ := stepAll_row hsteps
    have hid := hrow _ hget.symm
    have hdisk := (stepAll_exists hsteps).1
    rw [hid] at hdisk
    have hd : c.state.disk (pkt.request FileDownloadRequest).id ≠ none :=
      Option.isSome_iff_ne_none.mp hdisk.symm
    -- the row of a file on disk has a name
    obtain ⟨row', hrow', hname⟩ := named h hq hd
    rw [← hget, Option.some.injEq] at hrow'
    subst hrow'
    refine iff_of_false hname ?_
    rintro (hzero' | hno | hnone | hunread)
    · exact hzero hzero'
    · exact hno (hid ▸ getFile_mem hget.symm)
    · exact hd hnone
    · rcases List.mem_append.mp hunread with hmem | hmem
      · simp at hmem
      · exact respond_unread rfl hrespond hmem

/-! ## A picture without a name -/

namespace Example

/-- Bob uploads his picture and leaves its name empty. -/
def uploadsNameless : FileUploadRequest := ⟨token, fileid, ⟨[], bytes "pixels"⟩, bytes "d41d8cd9"⟩

def nameless : Schedule :=
  pictured ++ handles 0 5 0 (packToPacket .FileUploadRequest (.FileUploadRequest uploadsNameless))
    (stowed uploadsNameless 1 unnamed .saved (.ok 1) ++ [⟨.Send 5 (uploadResponse true), ⟨some 0, true⟩⟩,
      ⟨.getFileMsg fileid, (1, answer picture fileid)⟩, ⟨.delFileMsg fileid, ()⟩, ⟨.getSender 1, false⟩])

theorem nameless_alone : ∀ y ∈ nameless, y.1 = .acceptor ∨ y.1 = .worker 0 := by decide +kernel

/-- The download of the picture, with the row it has then. -/
def downloadsNameless : List Entry :=
  [⟨.getUserIdByToken token, 1⟩, ⟨.getFile fileid, .ok (some (uploaded uploadsNameless unnamed))⟩,
    ⟨.checkDiskExistence fileid, true⟩, ⟨.loadFromDisk fileid, some (bytes "pixels")⟩,
    replies 5 0 .FileDownloadResponse (.FileDownloadResponse ⟨⟨[], bytes "pixels"⟩, bytes "d41d8cd9"⟩)]

end Example

/-- A download that went well, of content uploaded with an empty name, looks failed. -/
theorem not_markerTells : ¬ ∀ SHA256 c, ReachableWhen SHA256 OneAtATime c → Quiescent c →
    ∀ q, MarkerTells SHA256 c.state q := by
  intro h
  obtain ⟨c, hr, hmoved, hidle, htoken, hid, hdisk, hsteps⟩ := reachableWhen_of_run Example.SHA256 OneAtATime
    (fun _ _ => true) Example.nameless
    (fun c => (∀ e ∈ c.history, e.tid ∈ [Tid.acceptor, .worker 0]) ∧
      (∀ t ∈ [Tid.acceptor, .worker 0], (c.threads t).log = []) ∧ c.state.getUserIdByToken Example.token ≠ 0 ∧
      Example.fileid ∈ c.state.db.files.map FileRow.file_id ∧ c.state.disk Example.fileid ≠ none ∧
      ((server Example.SHA256).stepAll c.state Example.downloadsNameless).isSome = true)
    (fun c e he hr hh _ _ => oneAtATime_alone hr hh Example.nameless_alone he) (by decide +kernel)
  obtain ⟨s', hsteps⟩ := Option.isSome_iff_exists.mp hsteps
  have hrun : (onFileDownloadRequest Example.downloadsPacket).Runs [⟨.getUserIdByToken Example.token, 1⟩,
      ⟨.getFile Example.fileid, .ok (some (uploaded Example.uploadsNameless Example.unnamed))⟩,
      ⟨.checkDiskExistence Example.fileid, true⟩, ⟨.loadFromDisk Example.fileid, some (bytes "pixels")⟩]
        (downloadResponse ⟨[], bytes "pixels"⟩ (bytes "d41d8cd9")) := onFileDownloadRequest_loaded (by decide)
  have hhandled : Handled Example.SHA256 c.state 5 Example.downloadsPacket _ _ s' :=
    .answered (handler_fileDownload rfl) hrun rfl rfl hsteps
  have hfails := (h _ c hr (fun i => all_idle hr hmoved hidle _) Example.downloads 5 _ _ _ _ rfl rfl hhandled).mp rfl
  rcases hfails with hzero | hno | hnone | hunread
  · exact htoken hzero
  · exact hno hid
  · exact hdisk hnone
  · simp at hunread

/-- Whether a step that updates a row writes a name. -/
def checkNaming (e : Event) : Bool :=
  match e.act with
  | ⟨.updateFile v, changed⟩ => g_db.caught changed != 0 && v.name != []
  | _ => true

theorem naming_of_check (h : checkNaming e = true) : Naming c e := by
  intro v ret hx _
  simp only [checkNaming, hx, Bool.and_eq_true, bne_iff_ne] at h
  exact .inl h

/-- After the picture is stored under a name its download tells. -/
theorem marker_tells_picture : ∃ c : Config, c.state.disk Example.fileid ≠ none ∧
    MarkerTells Example.SHA256 c.state Example.downloads := by
  obtain ⟨c, hr, hmoved, hidle, hdisk⟩ := reachableWhen_of_run Example.SHA256 Naming (fun _ e => checkNaming e)
    Example.forwarded
    (fun c => (∀ e ∈ c.history, e.tid ∈ [Tid.acceptor, .worker 0]) ∧
      (∀ t ∈ [Tid.acceptor, .worker 0], (c.threads t).log = []) ∧ c.state.disk Example.fileid ≠ none)
    (fun _ _ _ _ _ _ hcheck => naming_of_check hcheck) (by decide +kernel)
  exact ⟨c, hdisk, marker_tells hr (fun i => all_idle hr hmoved hidle _) fun _ => .inl (by decide +kernel)⟩

end NetChat
