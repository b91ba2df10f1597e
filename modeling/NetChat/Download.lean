/-
What a download returns: the content on disk and the name and hash in the
table. One upload stores the content, and every upload of the file writes name
and hash, so the two can come from different uploads; and content can be on
disk of which no upload was told that it succeeded.
-/
import NetChat.Sequential
import NetChat.Uploads

namespace NetChat

open Interleave Server DataAccess

variable {SHA256 : Bytes → Bytes} {ok : Config → Event → Prop} {c c' : Config} {e : Event} {f content : Bytes}

/-- `e` is the reply `p` to the request `q`, and was sent with success. -/
def Responded {α : Type} [Request α] (t : PacketType) (q : α) (p : Packet) (e : Event) : Prop :=
  Responds t q p e ∧ ∃ fd out, e.act = ⟨.Send fd p, out⟩ ∧ out.ok = true

/-- Every file sent, with its hash, is the one of a single request that was answered
with success before. Requests ask for one file when their ids name one row. -/
def DownloadsWhole (c : Config) : Prop :=
  ∀ later e earlier (q : FileDownloadRequest) r, c.history = later ++ e :: earlier →
    Responds .FileDownloadRequest q (packToPacket .FileDownloadResponse (.FileDownloadResponse r)) e →
    (∃ id content, ⟨.loadFromDisk id, some content⟩ ∈ e.pre) →
    ∃ g ∈ earlier, ∃ q' : FileUploadRequest, Responded .FileUploadRequest q' (uploadResponse true) g ∧
      cstr q'.id = cstr q.id ∧ q'.file = r.file ∧ q'.hash = r.hash

/-- The turn saved the content of the file `id`. -/
def Saved (id : Bytes) (l : List Entry) : Prop := ∃ content, ⟨.saveToDisk id content, .saved⟩ ∈ l

/-- The condition on a step: content is written whole or not at all; an upload that
saved the content writes its row, and its reply is sent; and one that did not leaves
the row of a file on disk as it is. -/
structure KeepsWhole (c : Config) (e : Event) : Prop where
  written : ∀ id content out, e.act = ⟨.saveToDisk id content, out⟩ → out = .openFailed ∨ out = .saved
  answered : ∀ id fd p out, e.act = ⟨.Send fd p, out⟩ → Saved id e.pre → out.ok = true
  updated : ∀ v ret, e.act = ⟨.updateFile v, ret⟩ → Saved v.id e.pre → g_db.caught ret ≠ 0
  kept : ∀ v ret, e.act = ⟨.updateFile v, ret⟩ → ¬ Saved v.id e.pre →
    g_db.caught ret = 0 ∨ c.state.disk v.id = none ∨ c.state.db.getFile v.id = some v

/-- The condition of the runs below. -/
def Downloading (c : Config) (e : Event) : Prop := OneAtATime c e ∧ KeepsWhole c e

/-! ## The invariant -/

/-- One upload of `f` with this content was answered with success, and the row has its
name and hash. -/
def Whole (c : Config) (f content : Bytes) : Prop :=
  ∃ g ∈ c.history, ∃ q : FileUploadRequest, Responded .FileUploadRequest q (uploadResponse true) g ∧ cstr q.id = f ∧
    q.file.content = content ∧ c.state.db.getFile f = some ⟨f, q.file.name, q.hash⟩

/-- Worker `i` has saved the content of `f` and not answered yet. -/
def Storing (c : Config) (f : Bytes) (i : Nat) : Prop :=
  ∃ fd q row l o, InUpload c i fd q row l o ∧ row.id = f ∧ ((∃ v, o = .updateFile v) ∨ ∃ p, o = .Send fd p)

/-- The row an upload found is that of the id it asks for. -/
theorem InUpload.row_id {i : Nat} {fd : Int32} {q : FileUploadRequest} {row : FileStorage} {l : List Entry} {o : Op}
    (hu : InUpload c i fd q row l o) (h : (server SHA256).ReachableWhen ok State.initial c) : row.id = cstr q.id := by
  obtain ⟨pkt, -, rfl, ⟨conn, n, hl⟩, hup⟩ := hu
  have hmem : ⟨.getFile (pkt.request FileUploadRequest).id, .ok (some row)⟩ ∈ (c.threads (.worker i)).log := by
    rw [hl]
    cases hup <;> simp [saving, stowed, found]
  obtain ⟨p, q, hpq⟩ := List.append_of_mem hmem
  obtain ⟨c₁, c₂, -, hs, -, -⟩ := h.log_event hpq
  exact getFile_id (State.query_ok hs.state).2.symm

/-- **What an upload that succeeds leaves**: its content on disk, and its name and hash
in the row. -/
theorem stowed_whole {i : Nat} {fd : Int32} {conn : Conn} {n : Nat} {pkt : Packet} {q : FileUploadRequest} {uid : Int32}
    {row : FileStorage} {ret : Sql Nat} (h : (server SHA256).ReachableWhen ok State.initial c)
    (hok : ∀ c e, ok c e → OneAtATime c e) (hid : row.id = cstr q.id) (hret : g_db.caught ret ≠ 0)
    (hl : (c.threads (.worker i)).log = received fd conn n pkt ++ stowed q uid row .saved ret) :
    c.state.disk row.id = some q.file.content ∧ c.state.db.getFile row.id = some (uploaded q row) := by
  constructor
  · have hsave : (c.threads (.worker i)).log = (received fd conn n pkt ++ (found q uid row ++
        [⟨.checkDiskExistence row.id, false⟩])) ++ ⟨.saveToDisk row.id q.file.content, .saved⟩ ::
          [⟨.updateFile (uploaded q row), ret⟩] := by
      rw [hl, stowed]
      simp
    obtain ⟨c₁, c₂, hs, hdisk⟩ := disk_since h hok hsave (by simp [Op.part])
    have hsaved := hs.state
    simp only [server, State.step, State.saveToDisk, Option.some.injEq] at hsaved
    rw [hdisk, ← hsaved]
    exact Function.update_self ..
  · have hupdate : (c.threads (.worker i)).log = (received fd conn n pkt ++ saving q uid row .saved) ++
        ⟨.updateFile (uploaded q row), ret⟩ :: [] := by
      rw [hl, stowed_eq, List.append_assoc]
    obtain ⟨c₁, c₂, -, hs, -, -, hdb⟩ := db_since h hok hupdate (by simp)
    rw [hdb]
    refine step_updateFile hs.state rfl hret ?_
    rw [hid, cstr_cstr]
    exact hid

/-- What a turn found to be written was written whole. -/
theorem wrote_whole (h : ReachableWhen SHA256 Downloading c) {t : Tid} {id : Bytes} {wrote : SaveOut}
    (hx : ⟨.saveToDisk id content, wrote⟩ ∈ (c.threads t).log) (hret : wrote.ret = true) : wrote = .saved := by
  obtain ⟨g, hg, -, hact⟩ := h.log_mem_history hx
  obtain ⟨c₁, c₂, -, -, hk, -⟩ := h.event_mem hg
  rcases hk.2.written id content wrote hact with rfl | rfl
  · cases hret
  · rfl

/-- An upload that has saved its content goes on to answer. -/
theorem Storing.step {i : Nat} (hst : Storing c f i) (h : ReachableWhen SHA256 Downloading c)
    (hs : (server SHA256).Step c e c') (hk : KeepsWhole c e) (hd : c'.state.disk f = some content) :
    Whole c' f content ∨ Storing c' f i := by
  obtain ⟨fd, q, row, l, o, hu, rfl, ho⟩ := hst
  have hid := hu.row_id h
  rcases hu.step h hs with ⟨-, hu'⟩ | ⟨ht, hact, hon⟩
  · exact .inr ⟨fd, q, row, l, o, hu', rfl, ho⟩
  obtain ⟨r, hx⟩ := Entry.of_op hact
  rw [hx] at hon
  obtain ⟨pkt, hp, rfl, ⟨conn, n, hl⟩, hup⟩ := hu
  cases hup with
  | checked | replied | looked => simp at ho
  | @saved uid wrote huid hsaved =>
    have hwrote : ⟨.saveToDisk row.id (pkt.request FileUploadRequest).file.content, wrote⟩ ∈
        (c.threads (.worker i)).log := by
      rw [hl]
      simp [saving]
    obtain rfl := wrote_whole h hwrote hsaved
    have hret : g_db.caught r ≠ 0 := by
      refine hk.updated _ r hx ⟨(pkt.request FileUploadRequest).file.content, ?_⟩
      rw [← hs.log, ht, hl]
      simp [saving, uploaded]
    rw [← stowed_eq] at hon
    exact .inr ⟨fd, _, row, _, _, hon _ (.updated huid rfl hret), rfl, .inr ⟨_, rfl⟩⟩
  | @updated uid wrote ret huid hsaved hret =>
    have hwrote : ⟨.saveToDisk row.id (pkt.request FileUploadRequest).file.content, wrote⟩ ∈
        (c.threads (.worker i)).log := by
      rw [hl]
      simp [stowed]
    obtain rfl := wrote_whole h hwrote hsaved
    have hsent : r.ok = true := by
      refine hk.answered row.id _ _ r hx ⟨(pkt.request FileUploadRequest).file.content, ?_⟩
      rw [← hs.log, ht, hl]
      simp [stowed]
    obtain ⟨hdisk, hrow⟩ := stowed_whole h (fun _ _ hk => hk.1) hid hret hl
    have hstate := State.step_unchanged hs.state
    rw [hx] at hstate
    rw [hstate.disk (by simp [Op.part]), hdisk, Option.some.injEq] at hd
    have hrow' : c'.state.db.getFile row.id =
        some ⟨row.id, (pkt.request FileUploadRequest).file.name, (pkt.request FileUploadRequest).hash⟩ := by
      rw [hstate.db (by simp [Op.part]) (by simp [Op.part]) (by simp [Op.part])]
      exact hrow
    refine .inl ⟨e, by rw [hs.history]; simp, _, ⟨⟨pkt, fd, ?_, hp, rfl, by rw [hx]⟩, fd, r, hx, hsent⟩, hid.symm, hd,
      hrow'⟩
    rw [← hs.log, ht, hl]
    rfl

/-- The row is written by an upload that saved, which is about to answer. One that is
refused leaves it. -/
theorem Whole.step (hw : Whole c f content) (h : (server SHA256).ReachableWhen ok State.initial c)
    (hs : (server SHA256).Step c e c') (hk : KeepsWhole c e) (hd : c.state.disk f = some content) :
    Whole c' f content ∨ ∃ i, Storing c f i := by
  obtain ⟨g, hg, q, hrep, hid, hcontent, hrow⟩ := hw
  have hkept : ∀ {row}, c'.state.db.getFile f = some row → c.state.db.getFile f = some row → Whole c' f content := by
    intro row hrow' hsame
    rw [hsame] at hrow
    exact ⟨g, by rw [hs.history]; exact List.mem_cons_of_mem _ hg, q, hrep, hid, hcontent, hrow'.trans hrow⟩
  rcases step_getFile hs.state f with hsame | hnone | ⟨v, ret, hx, hret, hv⟩
  · exact .inl (hkept (hsame.trans hrow) hrow)
  · rw [hnone] at hrow
    cases hrow
  have hvf : v.id = f := by rw [hv, ← hid, cstr_cstr]
  rcases inUpload_of_updates h hs (by rw [hx]) with ⟨i, fd, q', row, uid, wrote, -, hrow', -, hu⟩ | hno
  · exact .inr ⟨i, fd, q', row, _, _, hu, hrow'.trans hvf, .inl ⟨v, rfl⟩⟩
  · rcases hk.kept v ret hx fun ⟨content, hmem⟩ => hno _ _ _ rfl hmem with hzero | hdisk | hsame
    · exact absurd hzero hret
    · rw [hvf, hd] at hdisk
      cases hdisk
    · rw [hvf] at hsame
      exact .inl (hkept (step_updateFile hs.state hx hret hv) hsame)

/-- **Content on disk is that of an upload answered with success**, whose name and hash
the row has, or of an upload that is about to be. -/
theorem whole_or_storing (h : ReachableWhen SHA256 Downloading c) (hd : c.state.disk f = some content) :
    Whole c f content ∨ ∃ i, Storing c f i := by
  induction h with
  | init => cases hd
  | @step c c' e hr hs hk ih =>
    have hold : c.state.disk f = some content → Whole c' f content ∨ ∃ i, Storing c' f i := by
      intro hd₀
      have hon : ∀ i, Storing c f i → Whole c' f content ∨ ∃ i, Storing c' f i := fun i hst =>
        (hst.step hr hs hk.2 hd).imp_right fun hst' => ⟨i, hst'⟩
      rcases ih hd₀ with hw | ⟨i, hst⟩
      · rcases hw.step hr hs hk.2 hd₀ with hw' | ⟨i, hst⟩
        · exact .inl hw'
        · exact hon i hst
      · exact hon i hst
    rcases step_disk hs.state f with ⟨written, out, hx, hout⟩ | ⟨-, hsame⟩
    · rcases hk.2.written f written out hx with rfl | rfl
      · exact hold (hout.symm.trans hd)
      · obtain ⟨i, fd, q, row, uid, ht, rfl, rfl, hu⟩ := inUpload_of_saves hr hs (by rw [hx])
        rcases hu.step hr hs with ⟨hne, -⟩ | ⟨-, -, hon⟩
        · exact absurd ht hne
        obtain ⟨-, -, -, -, hup⟩ := hu
        rw [hx, ← saving_eq] at hon
        cases hup with
        | checked huid => exact .inr ⟨i, fd, q, row, _, _, hon _ (.saved huid rfl), rfl, .inl ⟨_, rfl⟩⟩
    · exact hold (hsame.symm.trans hd)

/-! ## Downloads -/

/-- The turn of a download that sends a file, up to its reply. -/
theorem sent_file {q : FileDownloadRequest} {r : FileDownloadResponse}
    (h : (server SHA256).ReachableWhen ok State.initial c)
    (hs : (server SHA256).Step c e c')
    (hrep : Responds .FileDownloadRequest q (packToPacket .FileDownloadResponse (.FileDownloadResponse r)) e)
    (hload : ∃ id content, ⟨.loadFromDisk id, some content⟩ ∈ e.pre) :
    ∃ i fd conn n pkt uid row content, pkt.packetid = PacketType.val .FileDownloadRequest ∧
      pkt.request FileDownloadRequest = q ∧ r = ⟨⟨row.name, content⟩, row.hash⟩ ∧
      (c.threads (.worker i)).log = received fd conn n pkt ++ [⟨.getUserIdByToken q.token, uid⟩,
        ⟨.getFile q.id, .ok (some row)⟩, ⟨.checkDiskExistence row.id, true⟩, ⟨.loadFromDisk row.id, some content⟩] := by
  obtain ⟨pkt, fd, hpkt, hp, rfl, ho⟩ := hrep
  obtain ⟨id, content, hmem⟩ := hload
  obtain ⟨i, conn, n, hd, l, cb, ht, hl, hh, hrun⟩ := reply_run h hs hpkt ho
  rw [handler_fileDownload hp] at hh
  cases hh
  obtain ⟨r', hdown, hreply⟩ := onFileDownloadRequest_runs hrun
  simp only [Prod.mk.injEq, packToPacket_inj, true_and, Body.FileDownloadResponse.injEq] at hreply
  obtain ⟨rfl, -⟩ := hreply
  rw [hl] at hmem
  cases hdown with
  | refused hun =>
    rcases List.mem_append.mp hmem with hmem | hmem
    · simp [received] at hmem
    · exact absurd rfl (hun _ hmem id content)
  | missing hun =>
    simp only [received, List.cons_append, List.nil_append, List.mem_cons, Interleave.Entry.mk.injEq, reduceCtorEq,
      false_and, false_or] at hmem
    exact absurd rfl (hun _ hmem id content)
  | @loaded uid row content =>
    refine ⟨i, fd, conn, n, pkt, uid, row, content, hp, rfl, rfl, ?_⟩
    rw [← ht, hs.log, hl]

/-- **A download returns what one upload stored**, in a run of one request at a time in
which no step takes content and row apart. -/
theorem downloads_whole (h : ReachableWhen SHA256 Downloading c) : DownloadsWhole c := by
  intro later e earlier q r hh hrep hload
  obtain ⟨c₁, c₂, h₁, rfl, hs, -, -⟩ := h.event hh
  obtain ⟨i, fd, conn, n, pkt, uid, row, content, hp, rfl, rfl, hl⟩ := sent_file h₁ hs hrep hload
  have hone : ∀ c e, Downloading c e → OneAtATime c e := fun _ _ hk => hk.1
  -- the row and the content are as they were read
  obtain ⟨c₃, c₄, -, hget, -, -, hdb⟩ := db_since (p := received fd conn n pkt ++ [⟨.getUserIdByToken _, uid⟩])
    (q := [⟨.checkDiskExistence row.id, true⟩, ⟨.loadFromDisk row.id, some content⟩]) h₁ hone hl
    (by simp [Op.keepsDb, Op.part])
  have hrow := State.query_ok hget.state
  obtain ⟨c₅, c₆, hloaded, hdisk⟩ := disk_since (p := received fd conn n pkt ++ [⟨.getUserIdByToken _, uid⟩,
    ⟨.getFile (pkt.request FileDownloadRequest).id, .ok (some row)⟩, ⟨.checkDiskExistence row.id, true⟩]) (q := [])
    h₁ hone hl (by simp)
  have hcontent := hloaded.state
  simp only [server, State.step, Option.ite_none_right_eq_some, Option.some.injEq] at hcontent
  have hid := getFile_id hrow.2.symm
  have hfile : c₁.state.db.getFile row.id = some row := by
    rw [hdb, hrow.1, hid, getFile_cstr]
    exact hrow.2.symm
  have hdisk : c₁.state.disk row.id = some content := by rw [hdisk, ← hcontent.2, hcontent.1]
  rcases whole_or_storing h₁ hdisk with ⟨g, hg, q, hup, hqid, hfilecontent, hqrow⟩ | ⟨j, fd', q, row', l, o, hu, -, -⟩
  · rw [hfile, Option.some.injEq] at hqrow
    refine ⟨g, hg, q, hup, hqid.trans hid, ?_, by rw [hqrow]⟩
    rw [hqrow, ← hfilecontent]
  · -- no other worker is in a turn
    exfalso
    obtain ⟨pkt', hp', -, ⟨conn', n', hl'⟩, -⟩ := hu
    by_cases hij : i = j
    · subst hij
      have hsame := congrArg handling (hl.symm.trans hl')
      rw [handling_received, handling_received, Option.some.injEq] at hsame
      rw [hsame, hp'] at hp
      exact absurd hp (by decide)
    · rcases atMostOne_reachable h₁ hone i j hij with hidle | hidle
      · simp [hl, received] at hidle
      · simp [hl', received] at hidle

/-! ## A picture renamed -/

namespace Example

def refusedUpload : Schedule :=
  handles 0 5 0 reuploadsPacket (refuses reuploads ++ [⟨.Send 5 (uploadResponse false), ⟨some 0, true⟩⟩])

def downloads : FileDownloadRequest := ⟨token, fileid⟩

def downloadsPacket : Packet := packToPacket .FileDownloadRequest (.FileDownloadRequest downloads)

/-- The picture with the name and hash of `row`. -/
def pictureFile (row : FileStorage) : FileDownloadResponse := ⟨⟨row.name, bytes "pixels"⟩, row.hash⟩

/-- Bob downloads his picture. -/
def downloadsPicture (row : FileStorage) : Schedule :=
  handles 0 5 0 downloadsPacket
    [⟨.getUserIdByToken token, 1⟩, ⟨.getFile fileid, .ok (some row)⟩, ⟨.checkDiskExistence fileid, true⟩,
      ⟨.loadFromDisk fileid, some (bytes "pixels")⟩,
      replies 5 0 .FileDownloadResponse (.FileDownloadResponse (pictureFile row))]

def renamed : Schedule := forwarded ++ refusedUpload ++ downloadsPicture (uploaded reuploads unnamed)

theorem renamed_alone : ∀ y ∈ renamed, y.1 = .acceptor ∨ y.1 = .worker 0 := by decide +kernel

/-- Bob uploads other content under the same name and hash, which is refused too. -/
def replaces : FileUploadRequest := ⟨token, fileid, ⟨bytes "x.png", bytes "other"⟩, bytes "d41d8cd9"⟩

/-- A picture that is stored, not replaced and downloaded. -/
def restored : Schedule :=
  forwarded ++ handles 0 5 0 (packToPacket .FileUploadRequest (.FileUploadRequest replaces))
    (refuses replaces ++ [⟨.Send 5 (uploadResponse false), ⟨some 0, true⟩⟩]) ++
    downloadsPicture (uploaded uploads unnamed)

theorem restored_alone : ∀ y ∈ restored, y.1 = .acceptor ∨ y.1 = .worker 0 := by decide +kernel

/-- Whether an event that reports success answers the upload of the picture. -/
def answersUploads (g : Event) : Bool :=
  match g.act.op with
  | .Send _ p => p != uploadResponse true || handling g.pre == some uploadsPacket
  | _ => true

end Example

/-- A refused upload gives its name and hash to the content of another. -/
theorem not_downloadsWhole : ¬ ∀ SHA256 c, ReachableWhen SHA256 OneAtATime c → DownloadsWhole c := by
  intro h
  obtain ⟨c, hr, hlast, hload, honly⟩ := reachableWhen_of_run Example.SHA256 OneAtATime
    (fun _ _ => true) Example.renamed
    (fun c => (c.history.head?.map fun e => (handling e.pre, e.act.op)) = some (some Example.downloadsPacket,
        .Send 5 (packToPacket .FileDownloadResponse (.FileDownloadResponse
          (Example.pictureFile (uploaded Example.reuploads Example.unnamed))))) ∧
      (∀ e ∈ c.history.head?, ⟨.loadFromDisk Example.fileid, some (bytes "pixels")⟩ ∈ e.pre) ∧
      ∀ g ∈ c.history, Example.answersUploads g = true)
    (fun c e he hr hh _ _ => oneAtATime_alone hr hh Example.renamed_alone he) (by decide +kernel)
  obtain ⟨e, earlier, hh, hlast⟩ := last_event hlast
  rw [Prod.mk.injEq] at hlast
  rw [hh] at hload honly
  obtain ⟨g, hg, q, ⟨⟨pkt, fd, hpkt, -, rfl, ho⟩, -⟩, -, hfile, -⟩ := h _ c hr [] e earlier Example.downloads _ hh
    ⟨_, 5, hlast.1, rfl, rfl, hlast.2⟩ ⟨_, _, hload e rfl⟩
  have honly := honly g (List.mem_cons_of_mem _ hg)
  simp only [Example.answersUploads, ho, hpkt, bne_self_eq_false, Bool.false_or, beq_iff_eq,
    Option.some.injEq] at honly
  rw [honly] at hfile
  exact absurd (congrArg File.name hfile) (by decide)

/-- Whether a step writes content in full, a row after its content or as it is, and
sends what it has to. -/
def checkWhole (c : Config) (e : Event) : Bool :=
  match e.act with
  | ⟨.saveToDisk _ _, out⟩ => out == SaveOut.saved
  | ⟨.Send _ _, out⟩ => out.ok
  | ⟨.updateFile v, ret⟩ =>
    g_db.caught ret != 0 && (decide (⟨.saveToDisk v.id Example.uploads.file.content, .saved⟩ ∈ e.pre) ||
      c.state.db.getFile v.id == some v)
  | _ => true

theorem keepsWhole_of_check (h : checkWhole c e = true) : KeepsWhole c e where
  written := by
    intro id content out hx
    simp only [checkWhole, hx, beq_iff_eq] at h
    exact .inr h
  answered := by
    intro id fd p out hx _
    simpa only [checkWhole, hx] using h
  updated := by
    intro v ret hx _
    simp only [checkWhole, hx, Bool.and_eq_true, bne_iff_ne] at h
    exact h.1
  kept := by
    intro v ret hx hno
    simp only [checkWhole, hx, Bool.and_eq_true, Bool.or_eq_true, decide_eq_true_eq, beq_iff_eq] at h
    rcases h.2 with hsaved | hsame
    · exact absurd ⟨_, hsaved⟩ hno
    · exact .inr (.inr hsame)

/-- Bob's picture is downloaded as he uploaded it, though he uploaded again. -/

theorem downloads_whole_picture : ∃ c, DownloadsWhole c ∧
    (∃ e ∈ c.history, e.act.op = .Send 5 (uploadResponse false)) ∧
    (c.history.head?.map fun e => (handling e.pre, e.act.op)) = some (some Example.downloadsPacket,
      .Send 5 (packToPacket .FileDownloadResponse
        (.FileDownloadResponse ⟨Example.uploads.file, Example.uploads.hash⟩))) := by
  obtain ⟨c, hr, hrefused, hlast⟩ := reachableWhen_of_run Example.SHA256 Downloading checkWhole Example.restored
    (fun c => (∃ e ∈ c.history, e.act.op = .Send 5 (uploadResponse false)) ∧ (c.history.head?.map fun e => (handling e.pre, e.act.op)) = some (some Example.downloadsPacket,
      .Send 5 (packToPacket .FileDownloadResponse
        (.FileDownloadResponse ⟨Example.uploads.file, Example.uploads.hash⟩))))
    (fun c e he hr hh _ hcheck => ⟨oneAtATime_alone hr hh Example.restored_alone he, keepsWhole_of_check hcheck⟩)
    (by decide +kernel)
  exact ⟨c, downloads_whole hr, hrefused, hlast⟩

end NetChat
