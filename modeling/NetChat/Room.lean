/-
What requests leave behind for packets to come. A message comes once, and is
read and pushed later with more numbers than it came with; a file's name and
hash come with one upload and its content with another; a contact list has the
names of all that registered, and counts what was sent. What is received is
bounded by `InputsFit`, and what is read of it later by invariants.
-/
import Mathlib.Algebra.Order.BigOperators.Group.List
import Mathlib.Algebra.Order.Group.Nat
import NetChat.Contacts
import NetChat.Stream

namespace NetChat

open Interleave Prog Server DataAccess Wire

variable {SHA256 : Bytes → Bytes} {ok : Config → Event → Prop} {c c' : Config} {e : Event} {db : DataAccess} {uid : Int32} {f : Bytes}

/-! ## Room in the packets to come -/

/-- A message of a client's leaves room for the numbers it is read with, and if it is
pushed at once for those of the push. -/
def RawMessage.Fits (m : RawMessage) : Prop :=
  messagePacketSize .ContactMessageResponse 53 m.longest ≤ kMaxMessageSize ∧
    (¬ hasFile m.type → messagePacketSize .ContactMessageListRequest 56 m.longest ≤ kMaxMessageSize)

/-- A download of this name, content and hash is answered in the buffer. -/
def DownloadFits (name content hash : Bytes) : Prop :=
  envelopeSize .FileDownloadResponse 51 (downloadSize name.length content.length hash.length) ≤ kMaxMessageSize

/-- How long a contact list the tables make for `uid`. -/
def listSize (db : DataAccess) (uid : Int32) : Nat :=
  (db.getAllUsers.map fun u => fieldSize (contactOf u).size).sum +
    stringSize (db.getAllUsers.map fun u => countSize (db.getAllMessages uid u.id).length).sum

/-- The tables make contact lists that fit, for all their users. -/
def ListsFit (db : DataAccess) : Prop :=
  ∀ u ∈ db.getAllUsers, envelopeSize .ContactListRequest 49 (listSize db u.id) ≤ kMaxMessageSize

/-- An upload leaves `content` in the file `f`. -/
def Leaves (x : Entry) (f content : Bytes) : Prop :=
  ∃ whole out, x = ⟨.saveToDisk f whole, out⟩ ∧ out.content whole none = some content

/-- The condition on a step, about what comes from the clients: no packet is parsed from
fewer bytes than it is written in; a message that is stored leaves room; so do the names
of the users with one that registers, and with the counts one more message makes; and so
does the name and hash of an upload with the content an earlier one left, where that is
longer than its own, and the content of an upload with an earlier one's name and hash. -/
structure InputsFit (c : Config) (e : Event) : Prop where
  arrives : ∀ fd conn n pkt, e.act = ⟨.Recv fd, .packet conn n pkt⟩ → pkt.serialize.length ≤ n
  message : ∀ m, e.act.op = .insertMessage m → m.message.Fits ∧ ListsFit (c.state.db.insertMessage m)
  user : ∀ n p db, e.act.op = .insertUser n p → c.state.db.insertUser n p = some db → ListsFit db
  renamed : ∀ pkt v ret, handling e.pre = some pkt → e.act = ⟨.updateFile v, ret⟩ → g_db.caught ret ≠ 0 →
    ∀ g ∈ c.history, ∀ content, Leaves g.act v.id content →
      (pkt.request FileUploadRequest).file.content.length < content.length → DownloadFits v.name content v.hash
  saved : ∀ f content, Leaves e.act f content → ∀ g ∈ c.history, ∀ v ret, g.act = ⟨.updateFile v, ret⟩ →
    g_db.caught ret ≠ 0 → v.id = f → DownloadFits v.name content v.hash

theorem InputsFit.reachable (h : ReachableWhen SHA256 InputsFit c) : Reachable SHA256 c := h.mono fun _ _ _ => trivial

/-! ## Messages -/

/-- **A stored message leaves room.** -/
theorem row_fits (h : ReachableWhen SHA256 InputsFit c) {row : MessageRow} (hrow : row ∈ c.state.db.messages) :
    row.toMessage.message.Fits := by
  refine h.invariant (fun c => ∀ row ∈ c.state.db.messages, row.toMessage.message.Fits) (by simp [Machine.init,
    State.initial, DataAccess.empty]) (fun c e c' _ hi hs hk row hrow => ?_) row hrow
  rcases step_messages hs.state with hm | ⟨m, hx, hdb⟩
  · exact hi row (hm ▸ hrow)
  · rw [hdb] at hrow
    rcases List.mem_append.mp hrow with hrow | hrow
    · exact hi row hrow
    · rw [List.mem_singleton.mp hrow]
      exact (hk.message m (by rw [hx])).1

theorem RawMessage.Fits.pulled {m : Message} (h : m.message.Fits) :
    messagePacketSize .ContactMessageResponse 53 m ≤ kMaxMessageSize :=
  (messagePacketSize_le m le_rfl le_rfl).trans h.1

theorem RawMessage.Fits.answered {m : Message} (h : m.message.Fits) :
    messagePacketSize .SendMessageResponse 50 m ≤ kMaxMessageSize :=
  (messagePacketSize_le m (by decide) (by decide)).trans h.1

theorem RawMessage.Fits.pushed {m : Message} (h : m.message.Fits) (hf : ¬ hasFile m.message.type) :
    messagePacketSize .ContactMessageListRequest 56 m ≤ kMaxMessageSize :=
  (messagePacketSize_le m le_rfl le_rfl).trans (h.2 hf)

/-! ## Contact lists -/

theorem ListsFit.of_same {db' : DataAccess} (h : ListsFit db) (husers : db'.users = db.users)
    (hmessages : db'.messages = db.messages) : ListsFit db' := by
  intro u hu
  have hall : db'.getAllUsers = db.getAllUsers := congrArg (List.map UserRow.toUser) husers
  rw [hall] at hu
  have hsize : listSize db' u.id = listSize db u.id := by
    simp only [listSize, hall, getAllMessages, hmessages]
  rw [hsize]
  exact h u hu

/-- **The tables make lists that fit.** -/
theorem lists_fit (h : ReachableWhen SHA256 InputsFit c) : ListsFit c.state.db := by
  refine h.invariant (fun c => ListsFit c.state.db) (by simp [ListsFit, Machine.init, State.initial, DataAccess.empty,
    getAllUsers]) fun c e c' _ hi hs hk => ?_
  by_cases hkeep : e.act.op.keepsDb
  · rwa [step_db hs.state hkeep]
  · have hstep := hs.state
    have hsame := State.step_unchanged hs.state
    generalize hx : e.act = x at hkeep hstep hsame
    obtain ⟨o, r⟩ := x
    cases o <;> simp only [Op.keepsDb, Op.part, ne_eq, reduceCtorEq, not_false_eq_true, and_self, not_true_eq_false,
      Option.some.injEq, false_and, and_false] at hkeep
    case insertUser n p =>
      simp only [server, State.step, State.insert_eq_some] at hstep
      rcases hstep with ⟨db, -, hdb, heq⟩ | ⟨-, heq⟩
      · rw [heq]
        exact hk.user n p db (by rw [hx]) hdb
      · rwa [heq]
    case insertMessage m =>
      simp only [server, State.step, State.insert_eq_some] at hstep
      rcases hstep with ⟨db, -, hdb, heq⟩ | ⟨-, heq⟩
      · cases hdb
        rw [heq]
        exact (hk.message m (by rw [hx])).2
      · rwa [heq]
    case insertFile | updateFile =>
      exact hi.of_same (hsame.users (by simp [Op.part])) (hsame.messages (by simp [Op.part]))

/-- A list of users that were there, with counts taken before, is no longer than the
tables make it. -/
theorem contactList_size_le {list : ContactListRequest} {users : List User} {reads : List (List Message)}
    (hcontacts : list.contacts = users.map contactOf)
    (hids : list.internalids = reads.map fun msgs => Int32.ofNat msgs.length) (hlen : reads.length = users.length)
    (husers : users <+: db.getAllUsers)
    (hreads : ∀ y ∈ users.zip reads, y.2.length ≤ (db.getAllMessages uid y.1.id).length) :
    list.size ≤ listSize db uid := by
  obtain ⟨rest, hrest⟩ := husers
  have hcounts : (reads.map fun msgs => (varint (signExtend (Int32.ofNat msgs.length))).length).sum ≤
      (users.map fun u => countSize (db.getAllMessages uid u.id).length).sum := by
    have hfst : (users.zip reads).map Prod.fst = users := List.map_fst_zip (by omega)
    have hsnd : (users.zip reads).map Prod.snd = reads := List.map_snd_zip (by omega)
    conv_lhs => rw [← hsnd, List.map_map]
    conv_rhs => rw [← hfst, List.map_map]
    exact List.sum_le_sum fun y hy => (length_count_le _).trans (countSize_mono (hreads y hy))
  rw [ContactListRequest.size, listSize, hcontacts, hids, ← hrest]
  simp only [List.map_append, List.map_map, List.sum_append]
  refine Nat.add_le_add (Nat.le_add_right _ _) (stringSize_mono ?_)
  exact hcounts.trans (Nat.le_add_right _ _)

/-! ## Files -/

/-- What a worker was given to handle came in fewer bytes than the buffer has. -/
theorem arrived (h : ReachableWhen SHA256 InputsFit c) {t : Tid} {fd : Int32} {conn : Conn} {n : Nat} {pkt : Packet}
    {l : List Entry} (hl : (c.threads t).log = received fd conn n pkt ++ l) :
    pkt.serialize.length < kMaxMessageSize := by
  obtain ⟨c₁, c₂, -, hs, hk, -⟩ := h.log_event (p := [⟨.popRecvSocket, fd⟩]) (x := ⟨.Recv fd, .packet conn n pkt⟩)
    (q := l) hl
  have hrecv := hs.state
  simp only [server, State.step, State.recv, Option.ite_none_right_eq_some] at hrecv
  exact lt_of_le_of_lt (hk.arrives fd conn n pkt rfl) hrecv.1.2.2

/-- A request that names a file is all of its packet. -/
theorem length_upload {pkt : Packet} (hp : pkt.packetid = PacketType.val .FileUploadRequest)
    (hid : (pkt.request FileUploadRequest).id ≠ []) :
    pkt.serialize.length = envelopeSize .FileUploadRequest 48 (pkt.request FileUploadRequest).encode.length := by
  obtain ⟨malformed, hbody⟩ : ∃ malformed,
      pkt.content = some ⟨.FileUploadRequest (pkt.request FileUploadRequest), malformed⟩ := by
    obtain ⟨packetid, _ | ⟨body, malformed⟩⟩ := pkt
    · exact absurd rfl hid
    · cases body
      case FileUploadRequest q => exact ⟨malformed, rfl⟩
      all_goals exact absurd rfl hid
  generalize pkt.request FileUploadRequest = q at hbody
  have hurl : (Body.FileUploadRequest q).typeUrl.length = 48 := by
    simp only [Body.typeUrl, Body.name]
    decide +kernel
  simp only [Packet.serialize, hp, hbody, hurl, Body.encode, envelopeSize, List.length_append,
    length_messageField (by decide : 2 < 16), length_stringField (by decide : 1 < 16),
    length_stringField (by decide : 2 < 16)]

/-- The id that an upload has takes more room than a download's longer type. -/
theorem download_le_upload {q : FileUploadRequest} (hid : 36 ≤ q.id.length) {name content hash : Bytes}
    (hname : name.length ≤ q.file.name.length) (hcontent : content.length ≤ q.file.content.length)
    (hhash : hash.length ≤ q.hash.length) :
    downloadSize name.length content.length hash.length + 3 ≤ q.encode.length := by
  have hfile : fieldSize (stringSize name.length + stringSize content.length) ≤
      (if q.file = default then [] else messageField 3 q.file.encode).length + 2 := by
    split
    · rename_i hfile
      rw [hfile] at hname hcontent
      rw [Nat.le_zero.mp hname, Nat.le_zero.mp hcontent]
      decide
    · rw [length_messageField (by decide), File.encode, List.length_append, length_stringField (by decide),
        length_stringField (by decide)]
      exact (fieldSize_mono (Nat.add_le_add (stringSize_mono hname) (stringSize_mono hcontent))).trans (by omega)
  have hkey := stringSize_mono hid
  have hsum := stringSize_mono hhash
  have hthirtysix : stringSize 36 = 38 := by decide
  simp only [FileUploadRequest.encode, List.length_append, length_stringField (by decide : 1 < 16),
    length_stringField (by decide : 2 < 16), length_stringField (by decide : 4 < 16), downloadSize]
  omega

/-- An upload that arrived can be downloaded. -/
theorem upload_room {pkt : Packet} (hp : pkt.packetid = PacketType.val .FileUploadRequest)
    (hlt : pkt.serialize.length < kMaxMessageSize) (hid : 36 ≤ (pkt.request FileUploadRequest).id.length)
    {name content hash : Bytes} (hname : name.length ≤ (pkt.request FileUploadRequest).file.name.length)
    (hcontent : content.length ≤ (pkt.request FileUploadRequest).file.content.length)
    (hhash : hash.length ≤ (pkt.request FileUploadRequest).hash.length) : DownloadFits name content hash := by
  have hsize := download_le_upload hid hname hcontent hhash
  have hlen := length_upload hp (List.ne_nil_of_length_pos (by omega))
  refine (envelopeSize_le (by decide) ?_).trans (hlen ▸ hlt.le)
  have hgrow := stringSize_add_le (downloadSize name.length content.length hash.length) 3
  have hmono := stringSize_mono hsize
  have hurls : stringSize 51 = 53 ∧ stringSize 48 = 50 := by decide
  omega

/-- An upload of a file there is leaves room for the file's download. -/
theorem found_room (h : ReachableWhen SHA256 InputsFit c) {t : Tid} {fd : Int32} {conn : Conn} {n : Nat} {pkt : Packet}
    {row : FileStorage} {rest : List Entry} (hp : pkt.packetid = PacketType.val .FileUploadRequest)
    (hl : (c.threads t).log = received fd conn n pkt ++ (found (pkt.request FileUploadRequest) uid row ++ rest))
    {name content hash : Bytes} (hname : name.length ≤ (pkt.request FileUploadRequest).file.name.length)
    (hcontent : content.length ≤ (pkt.request FileUploadRequest).file.content.length)
    (hhash : hash.length ≤ (pkt.request FileUploadRequest).hash.length) : DownloadFits name content hash := by
  obtain ⟨c₁, c₂, h₁, hs, -, -⟩ := h.log_event (p := received fd conn n pkt ++
    [⟨.getUserIdByToken (pkt.request FileUploadRequest).token, uid⟩])
    (x := ⟨.getFile (pkt.request FileUploadRequest).id, .ok (some row)⟩) (q := rest) (by rw [hl]; simp [found])
  have hget := (State.query_ok hs.state).2.symm
  have huuid := (tables_intact (.of_reachable (InputsFit.reachable h₁))).uuids _ (getFile_mem hget)
  simp only [isUUID, Bool.and_eq_true, beq_iff_eq] at huuid
  have hcut : row.id.length ≤ (pkt.request FileUploadRequest).id.length := by
    rw [getFile_id hget]
    exact (List.takeWhile_prefix _).length_le
  exact upload_room hp (arrived h hl) (huuid.1 ▸ hcut) hname hcontent hhash

/-- What an upload writes to the row of its file leaves room for a content and a name
no longer than its own. -/
theorem updates_room (h : ReachableWhen SHA256 InputsFit c) (hs : (server SHA256).Step c e c') {v : FileStorage}
    (ho : e.act.op = .updateFile v) : ∃ pkt, handling e.pre = some pkt ∧
      ∀ name content : Bytes, name.length ≤ v.name.length →
        content.length ≤ (pkt.request FileUploadRequest).file.content.length → DownloadFits name content v.hash := by
  obtain ⟨i, fd, conn, n, pkt, l, ht, hl, hp, hi⟩ := step_handler handler_fileUpload h hs ho rfl
  have hlog := hs.log
  rw [hl] at hlog
  refine ⟨pkt, by rw [hl]; rfl, fun name content hname hcontent => ?_⟩
  generalize hop : Op.updateFile v = o at hi
  cases onFileUploadRequest_issues hi with
  | rename | update =>
    cases hop
    exact found_room h hp hlog hname hcontent le_rfl
  | _ => cases hop

theorem saves_room (h : ReachableWhen SHA256 InputsFit c) (hs : (server SHA256).Step c e c') {content : Bytes}
    (hx : Leaves e.act f content) : DownloadFits [] content [] := by
  obtain ⟨whole, out, hx, hleft⟩ := hx
  have ho : e.act.op = .saveToDisk f whole := by rw [hx]
  obtain ⟨i, fd, conn, n, pkt, l, ht, hl, hp, hi⟩ := step_handler handler_fileUpload h hs ho rfl
  have hlog := hs.log
  rw [hl] at hlog
  have hle : content.length ≤ whole.length := by
    cases out with
    | openFailed => cases hleft
    | writeFailed k | lost k =>
      cases hleft
      exact List.length_take_le' k whole
    | saved =>
      cases hleft
      exact le_rfl
  generalize hop : Op.saveToDisk f whole = o at hi
  cases onFileUploadRequest_issues hi with
  | save =>
    cases hop
    exact found_room h hp hlog (Nat.zero_le _) hle (Nat.zero_le _)
  | _ => cases hop

/-- **Name, hash and content of a file leave room**, whichever uploads they are of. -/
theorem uploads_room (h : ReachableWhen SHA256 InputsFit c) {g g' : Event} (hg : g ∈ c.history) (hg' : g' ∈ c.history)
    {v : FileStorage} {ret : Sql Nat} {content : Bytes} (hx : g.act = ⟨.updateFile v, ret⟩)
    (hret : g_db.caught ret ≠ 0) (hx' : Leaves g'.act v.id content) : DownloadFits v.name content v.hash := by
  obtain ⟨later, earlier, hh⟩ := List.append_of_mem hg
  rw [hh] at hg'
  rcases List.mem_append.mp hg' with hlater | hearlier
  · -- the content came second
    obtain ⟨later', mid, rfl⟩ := List.append_of_mem hlater
    rw [List.append_assoc, List.cons_append] at hh
    obtain ⟨c₁, c₂, -, hh₁, -, hk, -⟩ := h.event hh
    exact hk.saved _ content hx' g (by rw [hh₁]; simp) v ret hx hret rfl
  · rcases List.mem_cons.mp hearlier with rfl | hearlier
    · obtain ⟨whole, out, hx', -⟩ := hx'
      rw [hx] at hx'
      cases hx'
    · obtain ⟨c₁, c₂, h₁, rfl, hs, hk, -⟩ := h.event hh
      obtain ⟨pkt, hpkt, hown⟩ := updates_room h₁ hs (by rw [hx])
      by_cases hlt : (pkt.request FileUploadRequest).file.content.length < content.length
      · exact hk.renamed pkt v ret hpkt hx hret g' hearlier content hx' hlt
      · exact hown v.name content le_rfl (Nat.le_of_not_lt hlt)

/-- The row of a file is as it was made, or as an upload wrote it. -/
theorem row_written {s : State} (h : (server SHA256).ReachableWhen ok s c) (hnone : s.db.getFile f = none)
    {row : FileStorage} (hrow : c.state.db.getFile f = some row) : (row.name = [] ∧ row.hash = []) ∨
      ∃ g ∈ c.history, ∃ ret, g.act = ⟨.updateFile row, ret⟩ ∧ g_db.caught ret ≠ 0 := by
  induction h generalizing row with
  | init =>
    rw [Machine.init, hnone] at hrow
    cases hrow
  | @step c c' e _ hs _ ih =>
    rw [hs.history]
    rcases step_getFile hs.state f with hsame | hnew | ⟨v, ret, hx, hret, hv⟩
    · rcases ih (hsame.symm.trans hrow) with hnone | ⟨g, hg, hx⟩
      · exact .inl hnone
      · exact .inr ⟨g, List.mem_cons_of_mem _ hg, hx⟩
    · exact .inl (step_getFile_new hs.state hnew hrow)
    · rw [step_updateFile hs.state hx hret hv, Option.some.injEq] at hrow
      exact .inr ⟨e, List.mem_cons_self, ret, by rw [← hrow]; exact hx, hret⟩

theorem content_left {s : State} (h : (server SHA256).ReachableWhen ok s c) (hnone : s.disk f = none)
    {content : Bytes} (hd : c.state.disk f = some content) : ∃ g ∈ c.history, Leaves g.act f content := by
  induction h generalizing content with
  | init =>
    rw [Machine.init, hnone] at hd
    cases hd
  | @step c c' e _ hs _ ih =>
    rw [hs.history]
    rcases step_disk hs.state f with ⟨whole, out, hx, hout⟩ | ⟨-, hsame⟩
    · cases out with
      | openFailed =>
        obtain ⟨g, hg, hleft⟩ := ih (hout.symm.trans hd)
        exact ⟨g, List.mem_cons_of_mem _ hg, hleft⟩
      | writeFailed | lost | saved => exact ⟨e, List.mem_cons_self, whole, _, hx, hout.symm.trans hd⟩
    · obtain ⟨g, hg, hleft⟩ := ih (hsame.symm.trans hd)
      exact ⟨g, List.mem_cons_of_mem _ hg, hleft⟩

/-- The hash of a row leaves room, with no name and no content. -/
theorem hash_room (h : ReachableWhen SHA256 InputsFit c) {g : Event} (hg : g ∈ c.history) {u : Bytes}
    {row : FileStorage} (hx : g.act = ⟨.getFile u, .ok (some row)⟩) : DownloadFits [] [] row.hash := by
  obtain ⟨later, earlier, hh⟩ := List.append_of_mem hg
  obtain ⟨c₁, c₂, h₁, rfl, hs, -, -⟩ := h.event hh
  have hrow := hs.state
  rw [hx] at hrow
  rcases row_written h₁ rfl (State.query_ok hrow).2.symm with ⟨-, hhash⟩ | ⟨g₁, hg₁, ret, hx₁, hret⟩
  · rw [hhash]
    unfold DownloadFits
    decide
  · obtain ⟨c₃, c₄, h₃, hs₃, -, -⟩ := h₁.event_mem hg₁
    obtain ⟨pkt, -, hown⟩ := updates_room h₃ hs₃ (by rw [hx₁])
    exact hown [] [] (Nat.zero_le _) (Nat.zero_le _)

/-- **What a download reads leaves room** for its answer, though it reads the row at one
moment and the content at a later one. -/
theorem download_room (h : ReachableWhen SHA256 InputsFit c) {g g' : Event} (hg : g ∈ c.history) (hg' : g' ∈ c.history)
    {u : Bytes} {row : FileStorage} {content : Bytes} (hx : g.act = ⟨.getFile u, .ok (some row)⟩)
    (hx' : g'.act = ⟨.loadFromDisk row.id, some content⟩) : DownloadFits row.name content row.hash := by
  obtain ⟨later, earlier, hh⟩ := List.append_of_mem hg
  obtain ⟨c₁, c₂, h₁, rfl, hs, -, -⟩ := h.event hh
  obtain ⟨later', earlier', hh'⟩ := List.append_of_mem hg'
  obtain ⟨c₃, c₄, h₃, rfl, hs₃, -, -⟩ := h.event hh'
  have hrow := hs.state
  rw [hx] at hrow
  have hload := hs₃.state
  rw [hx'] at hload
  simp only [server, State.step, Option.ite_none_right_eq_some, Option.some.injEq] at hload
  -- the upload that left the content
  obtain ⟨g₃, hg₃, hleft⟩ := content_left h₃ rfl hload.1
  obtain ⟨later₃, earlier₃, hh₃⟩ := List.append_of_mem hg₃
  obtain ⟨c₅, c₆, h₅, -, hs₅, -, -⟩ := h₃.event hh₃
  rcases row_written h₁ rfl (State.query_ok hrow).2.symm with ⟨hname, hhash⟩ | ⟨g₁, hg₁, ret, hx₁, hret⟩
  · rw [hname, hhash]
    exact saves_room h₅ hs₅ hleft
  · exact uploads_room h (by rw [hh]; simp [hg₁]) (by rw [hh']; simp [hg₃]) hx₁ hret hleft

end NetChat
