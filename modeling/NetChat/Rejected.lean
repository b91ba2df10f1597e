/-
Requests answered with a failure. The reply of a rejected `SendMessageRequest`
carries the id -1, that of a rejected `FileUploadRequest` success = false; but
both handlers can come to it after they have written something, and neither
takes it back.
-/
import NetChat.Handling
import NetChat.Uploads

namespace NetChat

open Interleave Prog Server

variable {SHA256 : Bytes → Bytes} {s s' : State} {l : List Entry} {fd : Int32} {pkt : Packet} {m : Message}

/-! ## Messages -/

/-- Nothing of a message was stored or queued. -/
structure NotStored (s s' : State) : Prop where
  messages : s'.db.messages = s.db.messages
  files : s'.db.files = s.db.files
  file_msg_pool : s'.file_msg_pool = s.file_msg_pool
  queue : ∀ uid, s'.queue uid = s.queue uid

theorem Unchanged.notStored (h : Unchanged (some .descriptors) s s') : NotStored s s' where
  messages := h.messages (by simp)
  files := h.files (by simp)
  file_msg_pool := h.file_msg_pool (by simp)
  queue uid := by rw [State.queue, State.queue, h.keepalive_sender_mp (by simp)]

/-- Rows are not taken out again. -/
theorem stepAll_messages_length (h : (server SHA256).stepAll s l = some s') :
    s.db.messages.length ≤ s'.db.messages.length := by
  refine Machine.stepAll_preserves (fun s' => s.db.messages.length ≤ s'.db.messages.length) h
    (fun s₁ x s₂ _ hs hle => ?_) le_rfl
  rcases step_messages hs with hm | ⟨m, -, hdb⟩
  · rwa [hm]
  · rw [hdb]
    simp only [DataAccess.insertMessage, List.length_append, List.length_singleton]
    omega

/-- The request is refused before anything is written. -/
def RefusedSend (s : State) (q : SendMessageRequest) : Prop :=
  s.getUserIdByToken q.token ≠ q.message.from_ ∨ s.db.getUserById q.message.to_ = none

/-- A request comes to its INSERT from a state in which it is not refused, which has the
same rows still. -/
theorem stepAll_checked {q : SendMessageRequest} {u : User} {msgs : List Message} {timestamp : Int32}
    (h : (server SHA256).stepAll s (checked q u msgs timestamp ++ l) = some s') :
    ¬ RefusedSend s q ∧ (server SHA256).stepAll s l = some s' := by
  obtain ⟨htoken, h⟩ := stepAll_token h
  obtain ⟨huser, h⟩ := stepAll_user h
  simp only [List.append_eq, List.cons_append, List.nil_append, Machine.stepAll_cons, server, State.step,
    Option.some.injEq, State.query_eq_some] at h
  obtain ⟨_, ⟨rfl, -⟩, _, rfl, h⟩ := h
  refine ⟨?_, h⟩
  rintro (hne | hnone)
  · exact hne htoken.symm
  · rw [hnone] at huser
    cases huser

/-- **A rejected message is not stored** if and only if its token is not the sender's or
its receiver does not exist. -/
theorem rejected_not_stored (hp : pkt.packetid = PacketType.val .SendMessageRequest)
    (h : Handled SHA256 s fd pkt (packToPacket .SendMessageResponse (.SendMessageResponse m)) l s') (_ : m.id = -1) :
    NotStored s s' ↔ RefusedSend s (pkt.request SendMessageRequest) := by
  obtain ⟨hd, reply, l₁, l₂, hh, hrun, hreply, hrespond, rfl, hsteps⟩ := h
  rw [handler_sendMessage hp] at hh
  cases hh
  have hreads : reply = sendMessageFailed → (∀ x ∈ l₁, x.op.part = none) → NotStored s s' := by
    rintro rfl hl₁
    refine Unchanged.notStored (stepAll_unchanged hsteps fun x hx => ?_)
    rcases List.mem_append.mp hx with hx | hx
    · exact .inl (hl₁ x hx)
    · exact respond_quiet rfl hrespond x hx
  rcases onSendMessageRequest_begins hrun with
    ⟨uid, huid, rfl, hr⟩ | ⟨rfl, hr⟩ | ⟨u, msgs, timestamp, changed, rest, rfl⟩
  · refine iff_of_true (hreads hr (by simp [Op.part])) (.inl ?_)
    rwa [← (stepAll_token hsteps).1]
  · refine iff_of_true (hreads hr (by simp [Op.part])) (.inr ?_)
    obtain ⟨-, hsteps⟩ := stepAll_token hsteps
    exact (stepAll_user hsteps).1.symm
  · rw [List.append_assoc] at hsteps
    obtain ⟨hnot, hsteps⟩ := stepAll_checked hsteps
    refine iff_of_false (fun hn => ?_) hnot
    -- the INSERT went through, and no row is taken out again
    obtain ⟨s₁, hins, hsteps⟩ := Machine.stepAll_cons.mp hsteps
    obtain rfl := State.step_insertMessage_ok (x := ⟨.insertMessage _, .ok changed⟩) hins rfl
    have hle := stepAll_messages_length hsteps
    rw [hn.messages] at hle
    simp only [DataAccess.insertMessage, List.length_append, List.length_singleton] at hle
    omega

namespace Example

def picturePacket : Packet := packToPacket .SendMessageRequest (.SendMessageRequest picture)

/-- Bob's picture gets its row, but its file none, whatever `getUUID` gave. -/
def pictureFails : List Entry :=
  stored picture bob [] 1700000000 1 ++ [⟨.getUUID, fileid⟩, ⟨.insertFile fileid, .error .failed⟩]

theorem pictureFails_runs : (onSendMessageRequest picturePacket).Runs pictureFails sendMessageFailed := by
  refine .cons ?_
  simp only [ret_bind]
  rw [if_neg (by decide)]
  refine .cons (.cons (.cons (.cons (.cons ?_))))
  simp only [ret_bind, bind_eq, pure_eq]
  rw [if_pos (.inl rfl)]
  exact .cons (.cons .nil)

/-- Bob writes to himself with a token nobody has. -/
def strangePacket : Packet :=
  packToPacket .SendMessageRequest (.SendMessageRequest ⟨fileid, (note (bytes "a")).message⟩)

def failureSent : Entry := ⟨.Send 5 sendMessageFailed.1, ⟨some 0, true⟩⟩

end Example

/-- The row of a picture stays when no file could be made for it. -/
theorem not_rejected_not_stored : ¬ ∀ SHA256 c fd pkt m l s', Reachable SHA256 c →
    pkt.packetid = PacketType.val .SendMessageRequest →
    Handled SHA256 c.state fd pkt (packToPacket .SendMessageResponse (.SendMessageResponse m)) l s' → m.id = -1 →
    NotStored c.state s' := by
  intro h
  obtain ⟨c, hr, hrows, hsteps⟩ := reachable_of_run Example.SHA256 Example.session
    (fun c => c.state.db.messages = [] ∧
      (((server Example.SHA256).stepAll c.state (Example.pictureFails ++ [Example.failureSent])).map fun s' =>
        s'.db.messages.length) = some 1) (by decide +kernel)
  obtain ⟨s', hsteps, hlen⟩ := Option.map_eq_some_iff.mp hsteps
  have hstored := h _ c 5 Example.picturePacket _ _ s' hr rfl
    (.answered (handler_sendMessage rfl) Example.pictureFails_runs rfl rfl hsteps) rfl
  rw [hstored.messages, hrows] at hlen
  cases hlen

/-- Nothing is stored for a token nobody has. -/
theorem rejected_not_stored_stranger : ∃ s l s',
    Handled Example.SHA256 s 5 Example.strangePacket sendMessageFailed.1 l s' ∧
    (NotStored s s' ↔ RefusedSend s (Example.strangePacket.request SendMessageRequest)) ∧
    RefusedSend s (Example.strangePacket.request SendMessageRequest) := by
  obtain ⟨c, -, hrefused, hsteps⟩ := reachable_of_run Example.SHA256 Example.session
    (fun c => c.state.getUserIdByToken Example.fileid ≠ 1 ∧
      ((server Example.SHA256).stepAll c.state
        [⟨.getUserIdByToken Example.fileid, 0⟩, Example.failureSent]).isSome = true)
    (by decide +kernel)
  obtain ⟨s', hsteps⟩ := Option.isSome_iff_exists.mp hsteps
  have hrun : (onSendMessageRequest Example.strangePacket).Runs [⟨.getUserIdByToken Example.fileid, 0⟩]
      sendMessageFailed := by
    refine .cons ?_
    simp only [ret_bind]
    rw [if_pos (by decide)]
    exact .nil
  have hhandled := Handled.answered (handler_sendMessage rfl) hrun rfl rfl hsteps
  exact ⟨c.state, _, s', hhandled, rejected_not_stored rfl hhandled rfl, .inl hrefused⟩

/-! ## Uploads -/

/-- Nothing of an upload was written or taken out. -/
structure NoTrace (s s' : State) : Prop where
  files : s'.db.files = s.db.files
  disk : s'.disk = s.disk
  file_msg_pool : s'.file_msg_pool = s.file_msg_pool

/-- From `s` the upload `q` can succeed. -/
def CanSucceed (SHA256 : Bytes → Bytes) (s : State) (q : FileUploadRequest) : Prop :=
  ∃ pkt l cb s', pkt.request FileUploadRequest = q ∧ (onFileUploadRequest pkt).Runs l (uploadResponse true, cb) ∧
    (server SHA256).stepAll s l = some s'

/-- A later upload of the file can succeed when it could before. -/
def Retries (SHA256 : Bytes → Bytes) (s s' : State) (fileid : Bytes) : Prop :=
  ∀ q, q.id = fileid → CanSucceed SHA256 s q → CanSucceed SHA256 s' q

/-- The rows of the file `v.id` have the name and the hash `v` has. -/
def DataAccess.Named (db : DataAccess) (v : FileStorage) : Prop :=
  ∀ r ∈ db.files, r.file_id = v.id → r.filename = some v.name ∧ r.hash = some v.hash

theorem DataAccess.updateFile_files {db : DataAccess} {v : FileStorage} :
    (db.updateFile v).2.files = db.files ↔ db.Named v := by
  conv_lhs => rhs; rw [← List.map_id db.files]
  simp only [DataAccess.updateFile, List.map_inj_left, id_eq]
  refine forall₂_congr fun r _ => ?_
  simp only [beq_iff_eq]
  split
  · rename_i hid
    rw [forall_prop_of_true hid]
    cases r
    simp [eq_comm]
  · rename_i hid
    exact iff_of_true rfl fun h => absurd h hid

/-- The UPDATE leaves the table if it fails, or writes what is there. -/
theorem step_updateFile_files {v : FileStorage} {ret : Sql Nat} (h : s.step (.updateFile v) ret = some s') :
    s'.db.files = s.db.files ↔ g_db.caught ret = 0 ∨ s.db.Named v := by
  cases ret with
  | ok changed =>
    simp only [State.step, Option.ite_none_right_eq_some, Option.some.injEq] at h
    obtain ⟨rfl, rfl⟩ := h
    rw [DataAccess.updateFile_files]
    refine ⟨.inr, fun hn => hn.elim (fun hzero r hr hid => ?_) id⟩
    have hnone := List.eq_nil_of_length_eq_zero hzero
    exact absurd hid (by simpa using List.filter_eq_nil_iff.mp hnone r hr)
  | error e =>
    simp only [State.step, Option.some.injEq] at h
    subst h
    exact iff_of_true rfl (.inl rfl)

/-- A file that was not there is not there after `saveToDisk` if it could not be opened. -/
theorem step_saveToDisk_disk {f content : Bytes} {out : SaveOut} (h : s.step (.saveToDisk f content) out = some s')
    (hf : s.disk f = none) : s'.disk = s.disk ↔ out = .openFailed := by
  rw [State.saveToDisk_eq h]
  cases out with
  | openFailed => exact iff_of_true (Function.update_eq_self f s.disk) rfl
  | writeFailed | lost | saved =>
    refine iff_of_false (fun heq => ?_) (by simp)
    have hf' := congrFun heq f
    simp only [Function.update_self, SaveOut.content, hf, reduceCtorEq] at hf'

/-- An upload that finds the file looks at the disk in the state it started from. -/
theorem stepAll_found {q : FileUploadRequest} {uid : Int32} {row : FileStorage} {found? : Bool}
    (h : (server SHA256).stepAll s (found q uid row ++ ⟨.checkDiskExistence row.id, found?⟩ :: l) = some s') :
    uid = s.getUserIdByToken q.token ∧ s.db.getFile q.id = some row ∧ found? = (s.disk row.id).isSome ∧
      (server SHA256).stepAll s l = some s' := by
  obtain ⟨huid, h⟩ := stepAll_token h
  obtain ⟨hrow, h⟩ := stepAll_row h
  obtain ⟨hdisk, h⟩ := stepAll_exists h
  exact ⟨huid, hrow.symm, hdisk, h⟩

theorem canSucceed_iff {q : FileUploadRequest} : CanSucceed SHA256 s q ↔
    s.getUserIdByToken q.token ≠ 0 ∧ s.db.getFile q.id ≠ none ∧ s.disk (cstr q.id) = none := by
  constructor
  · rintro ⟨pkt, l, cb, s', rfl, hrun, hsteps⟩
    generalize hr : (uploadResponse true, cb) = reply at hrun
    cases onFileUploadRequest_runs hrun with
    | saved huid hsaved hret =>
      obtain ⟨rfl, hrow, hdisk, -⟩ := stepAll_found hsteps
      rw [DataAccess.getFile_id hrow] at hdisk
      exact ⟨huid, by simp [hrow], by simpa using hdisk.symm⟩
    | _ => cases hr
  · rintro ⟨huid, hfile, hdisk⟩
    obtain ⟨row, hrow⟩ := Option.ne_none_iff_exists'.mp hfile
    have hid := DataAccess.getFile_id hrow
    have hchanged : g_db.caught (.ok (s.db.updateFile (uploaded q row)).1) ≠ 0 :=
      (DataAccess.updateFile_changed (v := uploaded q row) hid).mpr hfile
    have hsteps : ((server SHA256).stepAll s (stowed q (s.getUserIdByToken q.token) row .saved
        (.ok (s.db.updateFile (uploaded q row)).1))).isSome = true := by
      simp [stowed_eq, saving, found, Machine.stepAll, server, State.step, State.query, State.saveToDisk, hrow, hid,
        hdisk]
    obtain ⟨s', hsteps⟩ := Option.isSome_iff_exists.mp hsteps
    exact ⟨packToPacket .FileUploadRequest (.FileUploadRequest q), _, _, s', rfl,
      onFileUploadRequest_stowed huid rfl hchanged, hsteps⟩

theorem NoTrace.retries (h : NoTrace s s') (htoken : s'.token_pool = s.token_pool) (fileid : Bytes) :
    Retries SHA256 s s' fileid := by
  intro q _ hs
  obtain ⟨huid, hfile, hdisk⟩ := canSucceed_iff.mp hs
  refine canSucceed_iff.mpr ⟨?_, ?_, ?_⟩
  · rwa [State.getUserIdByToken, htoken]
  · rwa [DataAccess.getFile, h.files]
  · rwa [h.disk]

/-- Nothing an upload did took effect: the file could not be opened, and the UPDATE
failed or had nothing to change. -/
structure WroteNothing (s : State) (l : List Entry) : Prop where
  disk : ∀ id content out, ⟨.saveToDisk id content, out⟩ ∈ l → out = SaveOut.openFailed
  files : ∀ v ret, ⟨.updateFile v, ret⟩ ∈ l → g_db.caught ret = 0 ∨ s.db.Named v

theorem wroteNothing_iff {pre : List Entry} {v : FileStorage} {ret : Sql Nat}
    (hpre : ∀ x ∈ pre, ∀ v, x.op ≠ .updateFile v) : WroteNothing s (pre ++ [⟨.updateFile v, ret⟩]) ↔
      (∀ id content out, ⟨.saveToDisk id content, out⟩ ∈ pre → out = SaveOut.openFailed) ∧
        (g_db.caught ret = 0 ∨ s.db.Named v) := by
  constructor
  · intro h
    exact ⟨fun id content out hx => h.disk id content out (List.mem_append_left _ hx), h.files v ret (by simp)⟩
  · rintro ⟨hdisk, hfiles⟩
    refine ⟨fun id content out hx => hdisk id content out (by simpa using hx), fun v' ret' hx => ?_⟩
    rcases List.mem_append.mp hx with hx | hx
    · exact absurd rfl (hpre _ hx v')
    · cases List.mem_singleton.mp hx
      exact hfiles

theorem named_of_unchanged {s₁ : State} (h : Unchanged (some .disk) s s₁) {v : FileStorage} :
    s₁.db.Named v ↔ s.db.Named v := by
  rw [h.db nofun nofun nofun]

/-- A step that can write the disk, then one that can write the table: they leave no
trace when neither writes. -/
theorem noTrace_of_unchanged {s₁ s₂ : State} (hdisk : Unchanged (some .disk) s s₁)
    (hfiles : Unchanged (some .files) s₁ s₂) :
    NoTrace s s₂ ↔ s₁.disk = s.disk ∧ s₂.db.files = s₁.db.files := by
  have hf := hdisk.files nofun
  have hd := hfiles.disk nofun
  have hpool := (hfiles.file_msg_pool nofun).trans (hdisk.file_msg_pool nofun)
  constructor
  · intro h
    exact ⟨hd.symm.trans h.disk, h.files.trans hf.symm⟩
  · rintro ⟨hdisk', hfiles'⟩
    exact ⟨hfiles'.trans hf, hd.trans hdisk', hpool⟩

/-- What an upload that fails has done, up to its reply. -/
theorem noTrace_iff {q : FileUploadRequest} {reply : Reply} (hrun : UploadRun q l reply)
    (hfalse : reply.1 = uploadResponse false) (hsteps : (server SHA256).stepAll s l = some s') :
    NoTrace s s' ↔ WroteNothing s l := by
  cases hrun with
  | refused | unknown =>
    have hu : Unchanged none s s' := stepAll_unchanged hsteps (by simp [Op.part])
    exact iff_of_true ((noTrace_of_unchanged hu.of_none .refl).mpr ⟨hu.disk (by simp), rfl⟩) ⟨by simp, by simp⟩
  | @kept uid row ret huid =>
    obtain ⟨-, -, -, hsteps⟩ := stepAll_found hsteps
    obtain ⟨s₁, hupdate, hlast⟩ := Machine.stepAll_cons.mp hsteps
    obtain rfl := Option.some.inj hlast
    rw [List.append_cons, wroteNothing_iff (by simp [found]), ← step_updateFile_files hupdate,
      noTrace_of_unchanged .refl (State.step_unchanged hupdate)]
    exact and_congr_left fun _ => iff_of_true rfl (by simp [found])
  | @failed uid row out ret huid hout =>
    obtain ⟨-, -, hdisk, hsteps⟩ := stepAll_found hsteps
    obtain ⟨s₁, hsave, hsteps⟩ := Machine.stepAll_cons.mp hsteps
    have hsave : s.step (.saveToDisk row.id q.file.content) out = some s₁ := hsave
    have hopen := step_saveToDisk_disk hsave (by simpa using hdisk.symm)
    obtain ⟨s₂, hupdate, hlast⟩ := Machine.stepAll_cons.mp hsteps
    obtain rfl := Option.some.inj hlast
    have hu := State.step_unchanged hsave
    rw [List.append_cons, List.append_cons, wroteNothing_iff (by simp [found]), ← named_of_unchanged hu,
      ← step_updateFile_files hupdate, noTrace_of_unchanged hu (State.step_unchanged hupdate)]
    have hout : (∀ id content out', ⟨.saveToDisk id content, out'⟩ ∈ (found q uid row ++
        [⟨.checkDiskExistence row.id, false⟩]) ++ [⟨.saveToDisk row.id q.file.content, out⟩] →
          out' = SaveOut.openFailed) ↔ out = SaveOut.openFailed := by
      constructor
      · exact fun h => h row.id q.file.content out (by simp)
      · rintro rfl id content out' hx
        simp only [found, List.cons_append, List.nil_append, List.mem_cons, Interleave.Entry.mk.injEq, reduceCtorEq,
          false_and, Op.saveToDisk.injEq, List.not_mem_nil, or_false, false_or] at hx
        obtain ⟨⟨rfl, rfl⟩, hout⟩ := hx
        exact eq_of_heq hout
    rw [hout, hopen]
  | saved => cases hfalse

/-- **A failed upload leaves no trace** if and only if nothing it did took effect. -/
theorem failed_upload_no_trace (hp : pkt.packetid = PacketType.val .FileUploadRequest)
    (h : Handled SHA256 s fd pkt (uploadResponse false) l s') :
    (NoTrace s s' ∧ Retries SHA256 s s' (pkt.request FileUploadRequest).id) ↔ WroteNothing s l := by
  obtain ⟨hd, reply, l₁, l₂, hh, hrun, hreply, hrespond, rfl, hsteps⟩ := h
  rw [handler_fileUpload hp] at hh
  cases hh
  obtain ⟨s₁, hsteps₁, hsteps₂⟩ := Machine.stepAll_append.mp hsteps
  have hup := onFileUploadRequest_runs hrun
  have hcb : reply = (uploadResponse false, none) := by
    cases hup <;> first | rfl | cases hreply
  subst hcb
  -- the reply and what follows it write nothing
  have hquiet := respond_quiet rfl hrespond
  have hu := stepAll_unchanged hsteps₂ hquiet
  have hwrote : WroteNothing s (l₁ ++ l₂) ↔ WroteNothing s l₁ := by
    refine ⟨fun h => ⟨fun id content out hx => h.disk id content out (List.mem_append_left _ hx),
      fun v ret hx => h.files v ret (List.mem_append_left _ hx)⟩, fun h => ⟨fun id content out hx => ?_, fun v ret hx => ?_⟩⟩
    · rcases List.mem_append.mp hx with hx | hx
      · exact h.disk id content out hx
      · rcases hquiet _ hx with hpart | hpart <;> cases hpart
    · rcases List.mem_append.mp hx with hx | hx
      · exact h.files v ret hx
      · rcases hquiet _ hx with hpart | hpart <;> cases hpart
  have htoken : s'.token_pool = s.token_pool := by
    rw [hu.token_pool nofun]
    refine Machine.stepAll_preserves (fun s' => s'.token_pool = s.token_pool) hsteps₁ (fun s₁ x s₂ hx hs hi => ?_) rfl
    rw [← hi]
    refine (State.step_unchanged hs).token_pool fun hpart => ?_
    -- tokens are a login's to write
    have hof := ((isHandler_onFileUploadRequest pkt).runs hrun).1 x hx
    cases ho : x.op <;> rw [ho] at hof hpart <;> first
      | exact absurd (hof.owner rfl : PacketType.FileUploadRequest = .LoginRequest) nofun
      | exact nomatch hpart
  rw [hwrote, ← noTrace_iff hup rfl hsteps₁]
  constructor
  · rintro ⟨ht, -⟩
    exact ⟨(hu.files nofun).symm.trans ht.files, (hu.disk nofun).symm.trans ht.disk,
      (hu.file_msg_pool nofun).symm.trans ht.file_msg_pool⟩
  · intro ht
    have ht' : NoTrace s s' := ⟨(hu.files nofun).trans ht.files, (hu.disk nofun).trans ht.disk,
      (hu.file_msg_pool nofun).trans ht.file_msg_pool⟩
    exact ⟨ht', ht'.retries htoken _⟩

namespace Example

theorem refuses_runs : (onFileUploadRequest reuploadsPacket).Runs (refuses reuploads) (uploadResponse false, none) := by
  refine .cons ?_
  simp only [ret_bind, bind_eq, pure_eq]
  rw [if_neg (by decide)]
  exact .cons (.cons (.cons .nil))

/-- Bob uploads his picture, with these results of the write and of the UPDATE. -/
def uploadFails (out : SaveOut) (ret : Sql Nat) : List Entry :=
  found uploads 1 unnamed ++ [⟨.checkDiskExistence fileid, false⟩, ⟨.saveToDisk fileid uploads.file.content, out⟩,
    ⟨.updateFile (uploaded uploads unnamed), ret⟩]

theorem uploadFails_runs {out : SaveOut} {ret : Sql Nat} (hout : out.ret = false) :
    (onFileUploadRequest uploadsPacket).Runs (uploadFails out ret) (uploadResponse false, none) := by
  refine .cons ?_
  simp only [ret_bind, bind_eq, pure_eq]
  rw [if_neg (by decide)]
  refine .cons (.cons ?_)
  simp only [Bool.false_eq_true, if_false, op_bind, ret_bind, g_db.updateFile]
  refine .cons (.cons ?_)
  simp only [hout, Bool.false_eq_true, if_false, ite_self]
  exact .nil

def uploadFailureSent : Entry := ⟨.Send 5 (uploadResponse false), ⟨some 0, true⟩⟩

end Example

/-- The name of an upload that is refused stays. -/
theorem not_failed_upload_no_trace : ¬ ∀ SHA256 c fd pkt l s', Reachable SHA256 c →
    pkt.packetid = PacketType.val .FileUploadRequest → Handled SHA256 c.state fd pkt (uploadResponse false) l s' →
    NoTrace c.state s' ∧ Retries SHA256 c.state s' (pkt.request FileUploadRequest).id := by
  intro h
  obtain ⟨c, hr, hfiles, hsteps⟩ := reachable_of_run Example.SHA256 Example.forwarded
    (fun c => c.state.db.files = [⟨Example.fileid, bytes "x.png", bytes "d41d8cd9"⟩] ∧
      (((server Example.SHA256).stepAll c.state
        (Example.refuses Example.reuploads ++ [Example.uploadFailureSent])).map fun s' =>
          s'.db.files) = some [⟨Example.fileid, bytes "y.png", bytes "e3b0c442"⟩]) (by decide +kernel)
  obtain ⟨s', hsteps, hfiles'⟩ := Option.map_eq_some_iff.mp hsteps
  obtain ⟨htrace, -⟩ := h _ c 5 Example.reuploadsPacket _ s' hr rfl
    (.answered (handler_fileUpload rfl) Example.refuses_runs rfl rfl hsteps)
  rw [htrace.files, hfiles] at hfiles'
  exact absurd hfiles' (by decide)

/-- Nothing stays when neither the file can be opened nor the row written. -/
theorem failed_upload_no_trace_picture : ∃ s l s',
    Handled Example.SHA256 s 5 Example.uploadsPacket (uploadResponse false) l s' ∧
      ((NoTrace s s' ∧ Retries Example.SHA256 s s' Example.fileid) ↔ WroteNothing s l) ∧ WroteNothing s l := by
  obtain ⟨c, -, hsteps⟩ := reachable_of_run Example.SHA256 Example.pictured
    (fun c => ((server Example.SHA256).stepAll c.state
      (Example.uploadFails .openFailed (.error .failed) ++ [Example.uploadFailureSent])).isSome = true)
    (by decide +kernel)
  obtain ⟨s', hsteps⟩ := Option.isSome_iff_exists.mp hsteps
  have hhandled := Handled.answered (handler_fileUpload rfl)
    (Example.uploadFails_runs rfl) rfl rfl hsteps
  refine ⟨c.state, _, s', hhandled, failed_upload_no_trace rfl hhandled, fun id content out hx => ?_,
    fun v ret hx => ?_⟩
  · simp [Example.uploadFails, found] at hx
    exact hx.2
  · simp [Example.uploadFails, found] at hx
    left
    rw [hx.2]
    rfl

end NetChat
