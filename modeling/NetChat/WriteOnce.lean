/-
Uploads at once. Between the check that a file is not on the disk and the write,
any other worker can do the same, and the row is written by every upload of the
file: what makes an upload write once is that no other writes while it is on its
way, and none after it.
-/
import NetChat.Download

namespace NetChat

open Interleave Server DataAccess

variable {SHA256 : Bytes → Bytes} {ok : Config → Event → Prop} {c c' : Config} {e e' : Event} {f : Bytes} {i j : Nat}
  {q q' : FileUploadRequest}

/-! ## The property -/

/-- `e` answers the upload `q` with success. -/
abbrev Succeeds (q : FileUploadRequest) (e : Event) : Prop := Responds .FileUploadRequest q (uploadResponse true) e

/-- `e` puts the message of the file `f` in a queue. -/
def Announces (f : Bytes) (e : Event) : Prop :=
  ∃ r m, e.act.op = .addSendTask r (messageList m) ∧ hasFile m.message.type ∧ m.message.content = f

/-- One upload of a file is answered with success at most, content and row are that one's
from then on, and the message of the file is queued once at most. Requests are for one
file when their ids name one row. -/
structure WriteOnce (c : Config) : Prop where
  once : ∀ later e mid e' past q q', c.history = later ++ e :: (mid ++ e' :: past) → Succeeds q e → Succeeds q' e' →
    cstr q.id ≠ cstr q'.id
  stored : ∀ e ∈ c.history, ∀ q, Succeeds q e → c.state.disk (cstr q.id) = some q.file.content ∧
    c.state.db.getFile q.id = some ⟨cstr q.id, q.file.name, q.hash⟩
  announced : ∀ later e mid e' past f, c.history = later ++ e :: (mid ++ e' :: past) → Announces f e → ¬ Announces f e'

/-! ## Uploads on their way -/

/-- Worker `i` has saved the content of `q` whole, and goes on to write the row. -/
def Saves (c : Config) (i : Nat) (q : FileUploadRequest) (f : Bytes) : Prop :=
  ∃ fd pkt uid row, pkt.packetid = PacketType.val .FileUploadRequest ∧ pkt.request FileUploadRequest = q ∧ uid ≠ 0 ∧
    row.id = f ∧ InTurn c i fd pkt (saving q uid row .saved)

/-- Worker `i` has written the row too, and goes on to answer. -/
def Stows (c : Config) (i : Nat) (q : FileUploadRequest) (f : Bytes) : Prop :=
  ∃ fd pkt uid row ret, pkt.packetid = PacketType.val .FileUploadRequest ∧ pkt.request FileUploadRequest = q ∧ uid ≠ 0 ∧
    row.id = f ∧ g_db.caught ret ≠ 0 ∧ InTurn c i fd pkt (stowed q uid row .saved ret)

/-- Worker `i` is on its way with the upload `q`, past its write. -/
def Writes (c : Config) (i : Nat) (q : FileUploadRequest) (f : Bytes) : Prop := Saves c i q f ∨ Stows c i q f

/-- The upload `q` of `f` was answered with success. -/
def Stored (c : Config) (q : FileUploadRequest) (f : Bytes) : Prop := ∃ e ∈ c.history, Succeeds q e ∧ cstr q.id = f

/-- The content of `f` is that of an upload answered with success or on its way. -/
def Taken (c : Config) (f : Bytes) : Prop := (∃ q, Stored c q f) ∨ ∃ i q, Writes c i q f

/-- And its row too. -/
def Settled (c : Config) (f : Bytes) : Prop := (∃ q, Stored c q f) ∨ ∃ i q, Stows c i q f

/-- The condition on a step: content of a file that is another's already is not written,
nor a row that is, unless with what it has; and an upload of which content got lost
does not write its row. -/
structure Undisturbed (c : Config) (e : Event) : Prop where
  written : ∀ f content out, e.act = ⟨.saveToDisk f content, out⟩ → out ≠ SaveOut.openFailed → ¬ Taken c f
  updated : ∀ v ret, e.act = ⟨.updateFile v, ret⟩ → Settled c v.id →
    g_db.caught ret = 0 ∨ c.state.db.getFile v.id = some v
  lost : ∀ v ret content n, e.act = ⟨.updateFile v, ret⟩ → ⟨.saveToDisk v.id content, .lost n⟩ ∈ e.pre →
    g_db.caught ret = 0

/-! ## The steps of an upload, backwards -/

/-- A worker that has saved did so at this step, or was there. -/
theorem Saves.before (hv : Saves c' i q f) (hs : (server SHA256).Step c e c') :
    (e.tid ≠ .worker i ∧ Saves c i q f) ∨ e.tid = .worker i ∧ e.act = ⟨.saveToDisk f q.file.content, .saved⟩ := by
  obtain ⟨fd, pkt, uid, row, hp, hq, huid, rfl, conn, n, hl⟩ := hv
  by_cases ht : e.tid = .worker i
  · refine .inr ⟨ht, ?_⟩
    rw [← ht] at hl
    rcases hs.self with hl' | hl' <;> rw [hl'] at hl
    · rw [saving_eq, ← List.append_assoc] at hl
      exact List.singleton_inj.mp (List.append_inj' hl rfl).2
    · cases hl
  · rw [hs.other (Ne.symm ht)] at hl
    exact .inl ⟨ht, fd, pkt, uid, row, hp, hq, huid, rfl, conn, n, hl⟩

/-- A worker that has written its row did so at this step, having saved, or was there. -/
theorem Stows.before (hv : Stows c' i q f) (hs : (server SHA256).Step c e c') :
    (e.tid ≠ .worker i ∧ Stows c i q f) ∨ e.tid = .worker i ∧ Saves c i q f ∧
      ∃ ret, e.act = ⟨.updateFile ⟨f, q.file.name, q.hash⟩, ret⟩ ∧ g_db.caught ret ≠ 0 := by
  obtain ⟨fd, pkt, uid, row, ret, hp, hq, huid, rfl, hret, conn, n, hl⟩ := hv
  by_cases ht : e.tid = .worker i
  · refine .inr ⟨ht, ?_⟩
    rw [← ht] at hl
    rcases hs.self with hl' | hl' <;> rw [hl'] at hl
    · rw [stowed_eq, ← List.append_assoc] at hl
      obtain ⟨hpre, hx⟩ := List.append_inj' hl rfl
      rw [← hs.log, ht] at hpre
      exact ⟨⟨fd, pkt, uid, row, hp, hq, huid, rfl, conn, n, hpre⟩, ret, List.singleton_inj.mp hx, hret⟩
    · cases hl
  · rw [hs.other (Ne.symm ht)] at hl
    exact .inl ⟨ht, fd, pkt, uid, row, ret, hp, hq, huid, rfl, hret, conn, n, hl⟩

/-- A success is answered by a worker whose write and whose row went well. -/
theorem succeeds_stowed (h : (server SHA256).ReachableWhen ok State.initial c) (hs : (server SHA256).Step c e c')
    (he : Succeeds q e) : ∃ i fd pkt uid row wrote ret, e.tid = .worker i ∧
      pkt.packetid = PacketType.val .FileUploadRequest ∧ pkt.request FileUploadRequest = q ∧ uid ≠ 0 ∧
      row.id = cstr q.id ∧ wrote.ret = true ∧ g_db.caught ret ≠ 0 ∧
      InTurn c i fd pkt (stowed q uid row wrote ret) := by
  obtain ⟨pkt, fd, hpkt, hp, rfl, ho⟩ := he
  obtain ⟨i, conn, n, hd, l, cb, ht, hl, hh, hrun⟩ := reply_run h hs hpkt ho
  rw [handler_fileUpload hp] at hh
  cases hh
  generalize hr : (uploadResponse true, cb) = reply at hrun
  cases onFileUploadRequest_runs hrun with
  | @saved uid row wrote ret huid hsaved hret =>
    rw [← hs.log, ht] at hl
    have hup : InUpload c i fd _ row (stowed _ uid row wrote ret) _ :=
      ⟨pkt, hp, rfl, ⟨conn, n, hl⟩, .updated huid hsaved hret⟩
    exact ⟨i, fd, pkt, uid, row, wrote, ret, ht, hp, rfl, huid, hup.row_id h, hsaved, hret, conn, n, hl⟩
  | _ => cases hr

/-- In a run of undisturbed uploads it saved the content whole. -/
theorem succeeds_stows (h : ReachableWhen SHA256 Undisturbed c) (hs : (server SHA256).Step c e c')
    (he : Succeeds q e) : ∃ i, e.tid = .worker i ∧ Stows c i q (cstr q.id) := by
  obtain ⟨i, fd, pkt, uid, row, wrote, ret, ht, hp, hq, huid, hid, hsaved, hret, conn, n, hl⟩ :=
    succeeds_stowed h hs he
  have hwhole : wrote = .saved := by
    cases wrote with
    | openFailed | writeFailed => cases hsaved
    | lost k =>
      rw [stowed_eq, ← List.append_assoc] at hl
      obtain ⟨c₁, c₂, -, -, hk, -⟩ := h.log_event hl
      exact absurd (hk.lost (uploaded q row) ret q.file.content k rfl (by simp [saving, uploaded])) hret
    | saved => rfl
  subst hwhole
  exact ⟨i, ht, fd, pkt, uid, row, ret, hp, hq, huid, hid, hret, conn, n, hl⟩

theorem Writes.before (hv : Writes c' i q f) (hs : (server SHA256).Step c e c') :
    Writes c i q f ∧ (∀ fd p, e.act.op ≠ .Send fd p ∨ e.tid ≠ .worker i) ∨
      e.tid = .worker i ∧ e.act = ⟨.saveToDisk f q.file.content, .saved⟩ := by
  rcases hv with hv | hv
  · exact (hv.before hs).imp_left fun ⟨ht, hv⟩ => ⟨.inl hv, fun _ _ => .inr ht⟩
  · rcases hv.before hs with ⟨ht, hv⟩ | ⟨-, hv, ret, hx, -⟩
    · exact .inl ⟨.inr hv, fun _ _ => .inr ht⟩
    · exact .inl ⟨.inl hv, fun fd p => .inl (by rw [hx]; nofun)⟩

theorem Stored.before (hv : Stored c' q f) (h : ReachableWhen SHA256 Undisturbed c)
    (hs : (server SHA256).Step c e c') :
    Stored c q f ∨ ∃ i, e.tid = .worker i ∧ Stows c i q f ∧ ∃ fd p, e.act.op = .Send fd p := by
  obtain ⟨g, hg, hsucc, rfl⟩ := hv
  rw [hs.history] at hg
  rcases List.mem_cons.mp hg with rfl | hg
  · obtain ⟨i, ht, hv⟩ := succeeds_stows h hs hsucc
    obtain ⟨pkt, fd, -, -, -, ho⟩ := hsucc
    exact .inr ⟨i, ht, hv, fd, _, ho⟩
  · exact .inl ⟨g, hg, hsucc, rfl⟩

/-! ## One upload at a time past its write -/

/-- The file of an upload past its write is the row's, whose id has no NUL. -/
theorem Stows.cstr_id (hv : Stows c i q f) (h : (server SHA256).ReachableWhen ok State.initial c) : cstr f = f := by
  obtain ⟨fd, pkt, uid, row, ret, hp, hq, huid, rfl, hret, hl⟩ := hv
  have hup : InUpload c i fd q row (stowed q uid row .saved ret) _ := ⟨pkt, hp, hq, hl, .updated huid rfl hret⟩
  rw [hup.row_id h, cstr_cstr]

theorem Saves.cstr_id (hv : Saves c i q f) (h : (server SHA256).ReachableWhen ok State.initial c) : cstr f = f := by
  obtain ⟨fd, pkt, uid, row, hp, hq, huid, rfl, hl⟩ := hv
  have hup : InUpload c i fd q row (saving q uid row .saved) _ := ⟨pkt, hp, hq, hl, .saved huid rfl⟩
  rw [hup.row_id h, cstr_cstr]

/-- No two uploads of a file are past their write, and none when one was answered with
success; its content is on disk, and in the row its name and hash once it wrote them. -/
structure OneWriter (c : Config) : Prop where
  alone : ∀ {f i j q q'}, Writes c i q f → Writes c j q' f → i = j
  finished : ∀ {f q}, Stored c q f → ∀ i q', ¬ Writes c i q' f
  content : ∀ {f q}, (Stored c q f ∨ ∃ i, Writes c i q f) → c.state.disk f = some q.file.content
  row : ∀ {f q}, (Stored c q f ∨ ∃ i, Stows c i q f) → c.state.db.getFile f = some ⟨f, q.file.name, q.hash⟩

/-- Content that is some upload's stays. -/
theorem Taken.disk (ht : Taken c f) (hs : (server SHA256).Step c e c') (hk : Undisturbed c e) :
    c'.state.disk f = c.state.disk f := by
  rcases step_disk hs.state f with ⟨content, out, hx, hout⟩ | ⟨-, hsame⟩
  · by_cases hopen : out = .openFailed
    · rw [hout, hopen]
      rfl
    · exact absurd ht (hk.written f content out hx hopen)
  · exact hsame

/-- So does a row. -/
theorem Settled.getFile {row : FileStorage} (ht : Settled c f) (hf : cstr f = f)
    (hrow : c.state.db.getFile f = some row)
    (hs : (server SHA256).Step c e c') (hk : Undisturbed c e) : c'.state.db.getFile f = some row := by
  rcases step_getFile hs.state f with hsame | hnone | ⟨v, ret, hx, hret, hv⟩
  · exact hsame.trans hrow
  · rw [hnone] at hrow
    cases hrow
  · rw [hf] at hv
    subst hv
    rcases hk.updated v ret hx ht with hzero | hsame
    · exact absurd hzero hret
    · rw [step_updateFile hs.state hx hret hf.symm, ← hsame]
      exact hrow

theorem OneWriter.step (ho : OneWriter c) (h : ReachableWhen SHA256 Undisturbed c)
    (hs : (server SHA256).Step c e c') (hk : Undisturbed c e) : OneWriter c' := by
  have hfree : ∀ {f i} {q : FileUploadRequest}, e.tid = .worker i ∧
      e.act = ⟨.saveToDisk f q.file.content, .saved⟩ → ¬ Taken c f :=
    fun {f _ q} hx => hk.written f q.file.content .saved hx.2 nofun
  constructor
  · intro f i j q q' hv hv'
    rcases hv.before hs with ⟨hv, -⟩ | hx <;> rcases hv'.before hs with ⟨hv', -⟩ | hx'
    · exact ho.alone hv hv'
    · exact absurd (.inr ⟨i, q, hv⟩) (hfree hx')
    · exact absurd (.inr ⟨j, q', hv'⟩) (hfree hx)
    · have htid := hx.1.symm.trans hx'.1
      cases htid
      rfl
  · intro f q hst j q' hv
    rcases hv.before hs with ⟨hv, hno⟩ | hx
    · rcases hst.before h hs with hst | ⟨i, ht, hst, fd, p, hop⟩
      · exact ho.finished hst j q' hv
      · rw [ho.alone (.inr hst) hv] at ht
        exact (hno fd p).elim (absurd hop) (absurd ht)
    · rcases hst.before h hs with hst | ⟨i, -, hst, -⟩
      · exact hfree hx (.inl ⟨q, hst⟩)
      · exact hfree hx (.inr ⟨i, q, .inr hst⟩)
  · rintro f q (hst | ⟨i, hv⟩)
    · rcases hst.before h hs with hst | ⟨i, -, hst, -⟩
      · rw [Taken.disk (.inl ⟨q, hst⟩) hs hk, ho.content (.inl hst)]
      · rw [Taken.disk (.inr ⟨i, q, .inr hst⟩) hs hk, ho.content (.inr ⟨i, .inr hst⟩)]
    · rcases hv.before hs with ⟨hv, -⟩ | ⟨-, hx⟩
      · rw [Taken.disk (.inr ⟨i, q, hv⟩) hs hk, ho.content (.inr ⟨i, hv⟩)]
      · rcases step_disk hs.state f with ⟨content, out, hx', hout⟩ | ⟨hno, -⟩
        · rw [hx] at hx'
          cases hx'
          exact hout
        · exact absurd (by rw [hx]) (hno q.file.content)
  · rintro f q (hst | ⟨i, hv⟩)
    · rcases hst.before h hs with hst | ⟨i, -, hst, -⟩
      · have hf : cstr f = f := by
          obtain ⟨-, -, -, rfl⟩ := hst
          exact cstr_cstr _
        exact Settled.getFile (.inl ⟨q, hst⟩) hf (ho.row (.inl hst)) hs hk
      · exact Settled.getFile (.inr ⟨i, q, hst⟩) (hst.cstr_id h) (ho.row (.inr ⟨i, hst⟩)) hs hk
    · rcases hv.before hs with ⟨-, hv⟩ | ⟨-, hv, ret, hx, hret⟩
      · exact Settled.getFile (.inr ⟨i, q, hv⟩) (hv.cstr_id h) (ho.row (.inr ⟨i, hv⟩)) hs hk
      · exact step_updateFile hs.state hx hret (hv.cstr_id h).symm

theorem one_writer (h : ReachableWhen SHA256 Undisturbed c) : OneWriter c := by
  induction h with
  | init =>
    have hnone : ∀ {f i q}, ¬ Writes ((server SHA256).init State.initial) i q f := by
      rintro f i q (⟨fd, pkt, uid, row, -, -, -, -, conn, n, hl⟩ | ⟨fd, pkt, uid, row, ret, -, -, -, -, -, conn, n, hl⟩) <;>
        cases hl
    refine ⟨fun hv => absurd hv hnone, fun _ _ _ hv => hnone hv, ?_, ?_⟩
    · rintro f q (⟨g, hg, -⟩ | ⟨i, hv⟩)
      · cases hg
      · exact absurd hv hnone
    · rintro f q (⟨g, hg, -⟩ | ⟨i, hv⟩)
      · cases hg
      · exact absurd (.inr hv) hnone
  | step hr hs hk ih => exact ih.step hr hs hk

/-! ## Once -/

/-- In a run of undisturbed uploads a file is answered with success once. -/
theorem succeeds_once (h : ReachableWhen SHA256 Undisturbed c) {later mid past : List Event}
    (hh : c.history = later ++ e :: (mid ++ e' :: past)) (he : Succeeds q e) (he' : Succeeds q' e') :
    cstr q.id ≠ cstr q'.id := by
  intro hid
  obtain ⟨c₁, c₂, h₁, hh₁, hs, -, -⟩ := h.event hh
  obtain ⟨i, -, hv⟩ := succeeds_stows h₁ hs he
  exact (one_writer h₁).finished ⟨e', by simp [hh₁], he', hid.symm⟩ i q (.inr hv)

/-- The message of a file is queued by an upload of it that has answered with success and
has queued nothing yet, and was made pending before. -/
theorem announces_forward (h : (server SHA256).ReachableWhen ok State.initial c) (he : e ∈ c.history)
    (ha : Announces f e) :
    ∃ q pre answer rest, q.id = f ∧ e.pre = pre ++ answer :: rest ∧ Succeeds q ⟨e.tid, pre, answer⟩ ∧
      (∀ x ∈ e.pre, ∀ r p, x.op ≠ .addSendTask r p) ∧ ∃ g ∈ c.history, ∃ r m, g.act.op = .setFileMsg f r m := by
  obtain ⟨r, m, ho, hfile, hcontent⟩ := ha
  obtain ⟨c₁, c₂, h₁, hs, -, -⟩ := h.event_mem he
  have hi := hs.issues h₁
  rw [ho] at hi
  obtain ⟨-, hpush⟩ := issues_push hi
  generalize hp : messageList m = p at hpush
  generalize hpre : e.pre = l at hpush
  cases hpush with
  | contacts => simp [messageList, contactPacket] at hp
  | notice htype hno hm =>
    simp only [messageList, packToPacket_inj, Body.ContactMessageListRequest.injEq, List.cons.injEq, and_true,
      true_and] at hp
    rw [hp, hm] at hfile
    exact absurd hfile hno
  | @forward fd conn n pkt out uid row wrote ret r m' htype hr =>
    simp only [messageList, packToPacket_inj, Body.ContactMessageListRequest.injEq, List.cons.injEq, and_true,
      true_and] at hp
    subst hp
    -- what the pool gave was put there under the id that is its content
    have hget := h.pre_past he (x := ⟨.getFileMsg (pkt.request FileUploadRequest).id, (r, m)⟩)
      (p := received fd conn n pkt ++ (stowed (pkt.request FileUploadRequest) uid row wrote ret ++
        [⟨.Send fd (uploadResponse true), out⟩]))
      (q := [⟨.delFileMsg (pkt.request FileUploadRequest).id, ()⟩, ⟨.getSender r, true⟩]) (by rw [hpre]; simp)
    obtain ⟨g, hg, hgo⟩ := getFileMsg_set h hget rfl hr
    obtain ⟨c₃, c₄, h₃, hs₃, -, -⟩ := h.event_mem hg
    obtain ⟨fd', conn', n', pkt', u, msgs, timestamp, rowid, rest, -, -, hm⟩ := setFileMsg_pre h₃ hs₃ hgo
    rw [hm] at hcontent
    refine ⟨_, received fd conn n pkt ++ stowed _ uid row wrote ret, ⟨.Send fd (uploadResponse true), out⟩, _, hcontent,
      (List.append_assoc ..).symm, ⟨pkt, fd, rfl, htype, rfl, rfl⟩, by simp [received, stowed, found], g, hg, r, m, ?_⟩
    rw [← hcontent]
    exact hgo

/-- In a run of undisturbed uploads the message of a file is queued once. -/
theorem announces_once (h : ReachableWhen SHA256 Undisturbed c) {later mid past : List Event}
    (hh : c.history = later ++ e :: (mid ++ e' :: past)) (ha : Announces f e) : ¬ Announces f e' := by
  intro ha'
  obtain ⟨q, pre, answer, rest, hid, hpre, hsucc, hno, -⟩ := announces_forward h (by simp [hh]) ha
  obtain ⟨q', pre', answer', rest', hid', hpre', hsucc', -, -⟩ := announces_forward h (by simp [hh]) ha'
  -- each after the answer of its turn
  obtain ⟨B, P, hB, hturn⟩ := h.pre_since hh hpre
  have hh' : c.history = (later ++ e :: mid) ++ e' :: past := by rw [hh]; simp
  obtain ⟨B', P', hB', -⟩ := h.pre_since hh' hpre'
  have hsame : B ++ ⟨e.tid, pre, answer⟩ :: P = (mid ++ e' :: B') ++ ⟨e'.tid, pre', answer'⟩ :: P' := by
    rw [← hB, hB']
    simp
  rcases Prog.split_cases hsame with ⟨rfl, hg, -⟩ | ⟨D, -, rfl⟩ | ⟨D, -, rfl⟩
  · -- in one turn, which would have queued already
    obtain ⟨c₁, c₂, h₁, hh₁, hs, -, -⟩ := h.event hh
    have htid : e.tid = e'.tid := (Interleave.Event.mk.inj hg).1
    have hlog := h₁.log_of_sameTurn hh₁ fun y hy ht => hturn y (by simp [hy]) (ht.trans htid.symm)
    rw [← htid, hs.log] at hlog
    obtain ⟨r, m, ho, -⟩ := ha'
    rcases hlog with hlog | ⟨rest, hlog⟩
    · rw [hpre] at hlog
      simp at hlog
    · exact hno e'.act (by simp [hlog]) r _ ho
  · have hafter : c.history = (later ++ e :: B) ++ ⟨e.tid, pre, answer⟩ :: (D ++ ⟨e'.tid, pre', answer'⟩ :: P') := by
      rw [hh, hB]
      simp
    exact succeeds_once h hafter hsucc hsucc' (by rw [hid, hid'])
  · have hafter : c.history = (later ++ e :: (mid ++ e' :: B')) ++ ⟨e'.tid, pre', answer'⟩ ::
        (D ++ ⟨e.tid, pre, answer⟩ :: P) := by
      rw [hh, hB']
      simp
    exact succeeds_once h hafter hsucc' hsucc (by rw [hid, hid'])

/-- **Uploads are write-once** in every run in which no content or row that is already
an upload's is written by another. -/
theorem write_once (h : ReachableWhen SHA256 Undisturbed c) : WriteOnce c where
  once _ _ _ _ _ _ _ hh he he' := succeeds_once h hh he he'
  stored e he q hq := by
    have ho := one_writer h
    have hst : Stored c q (cstr q.id) := ⟨e, he, hq, rfl⟩
    refine ⟨ho.content (.inl hst), ?_⟩
    rw [← getFile_cstr]
    exact ho.row (.inl hst)
  announced _ _ _ _ _ _ hh ha := announces_once h hh ha

/-! ## Two workers -/

/-- A row that is an upload's was written by a turn that had saved. -/
theorem Settled.updated (hst : Settled c f) (h : ReachableWhen SHA256 Undisturbed c) :
    ∃ g ∈ c.history, ∃ v id content, g.act.op = .updateFile v ∧ ⟨.saveToDisk id content, .saved⟩ ∈ g.pre := by
  have hstows : ∀ {c : Config} {i q}, ReachableWhen SHA256 Undisturbed c → Stows c i q f →
      ∃ g ∈ c.history, ∃ v id content, g.act.op = .updateFile v ∧ ⟨.saveToDisk id content, .saved⟩ ∈ g.pre := by
    rintro c i q h ⟨fd, pkt, uid, row, ret, -, -, -, -, -, conn, n, hl⟩
    rw [stowed_eq, ← List.append_assoc] at hl
    exact ⟨_, h.log_history hl, _, row.id, q.file.content, rfl, by simp [saving]⟩
  rcases hst with ⟨q, e, he, hsucc, rfl⟩ | ⟨i, q, hst⟩
  · obtain ⟨later, earlier, hh⟩ := List.append_of_mem he
    obtain ⟨c₁, c₂, h₁, rfl, hs, -, -⟩ := h.event hh
    obtain ⟨i, -, hst⟩ := succeeds_stows h₁ hs hsucc
    obtain ⟨g, hg, hv⟩ := hstows h₁ hst
    exact ⟨g, by rw [hh]; simp [hg], hv⟩
  · exact hstows h hst

namespace Example

/-- Both workers find that the picture is not on the disk, and both store it. -/
def storesTwice : Schedule :=
  pictured ++ handles 0 5 0 uploadsPacket (found uploads 1 unnamed ++ [⟨.checkDiskExistence fileid, false⟩]) ++
    handles 1 5 0 uploadsPacket (stowed uploads 1 unnamed .saved (.ok 1)) ++
    [(.worker 0, ⟨.saveToDisk fileid uploads.file.content, .saved⟩),
      (.worker 0, ⟨.updateFile (uploaded uploads unnamed), .ok 1⟩),
      (.worker 1, ⟨.Send 5 (uploadResponse true), ⟨some 0, true⟩⟩),
      (.worker 0, ⟨.Send 5 (uploadResponse true), ⟨some 0, true⟩⟩)]

/-- Whether an event answers the upload of the picture with success. -/
def succeedsUploads (e : Event) : Bool :=
  handling e.pre == some uploadsPacket && e.act.op == .Send 5 (uploadResponse true)

theorem succeeds_of_check (h : succeedsUploads e = true) : Succeeds uploads e := by
  simp only [succeedsUploads, Bool.and_eq_true, beq_iff_eq] at h
  exact ⟨_, 5, h.1, rfl, rfl, h.2⟩

/-- Between the write of the picture and that of its row, another upload is refused. -/
def refusedMeanwhile : Schedule :=
  pictured ++ handles 0 5 0 uploadsPacket (saving uploads 1 unnamed .saved) ++
    handles 1 5 0 reuploadsPacket (found reuploads 1 unnamed ++ [⟨.checkDiskExistence fileid, true⟩,
      ⟨.updateFile (uploaded reuploads unnamed), .ok 1⟩, ⟨.Send 5 (uploadResponse false), ⟨some 0, true⟩⟩]) ++
    [(.worker 0, ⟨.updateFile (uploaded uploads unnamed), .ok 1⟩),
      (.worker 0, ⟨.Send 5 (uploadResponse true), ⟨some 0, true⟩⟩)]

/-- Whether an event answers the other upload with failure. -/
def refusesReuploads (e : Event) : Bool :=
  handling e.pre == some reuploadsPacket && e.act.op == .Send 5 (uploadResponse false)

theorem refuses_of_check (h : refusesReuploads e = true) :
    Responds .FileUploadRequest reuploads (uploadResponse false) e := by
  simp only [refusesReuploads, Bool.and_eq_true, beq_iff_eq] at h
  exact ⟨_, 5, h.1, rfl, rfl, h.2⟩

def updates : Op → Bool
  | .updateFile _ => true
  | _ => false

/-- How an entry that writes a file ended. -/
def wrote? : Entry → Option SaveOut
  | ⟨.saveToDisk _ _, out⟩ => some out
  | _ => none

/-- Whether a step writes content that is not there, and, losing nothing, a row that no
upload wrote which had saved. -/
def checkUndisturbed (c : Config) (e : Event) : Bool :=
  match e.act.op with
  | .saveToDisk f _ => c.state.disk f == none
  | .updateFile _ => (c.history.all fun g => !(updates g.act.op && g.pre.any fun x => (wrote? x).isSome)) &&
      e.pre.all fun x => wrote? x == none || wrote? x == some .saved
  | _ => true

theorem undisturbed_of_check (h : ReachableWhen SHA256 Undisturbed c) (hcheck : checkUndisturbed c e = true) :
    Undisturbed c e where
  written f content out hx _ ht := by
    have hcontent : ∃ q, c.state.disk f = some (q : FileUploadRequest).file.content := by
      rcases ht with ⟨q, hst⟩ | ⟨i, q, hv⟩
      · exact ⟨q, (one_writer h).content (.inl hst)⟩
      · exact ⟨q, (one_writer h).content (.inr ⟨i, hv⟩)⟩
    obtain ⟨q, hdisk⟩ := hcontent
    simp [checkUndisturbed, hx, hdisk] at hcheck
  updated v ret hx hst := by
    obtain ⟨g, hg, v', id, content, hv', hsaved⟩ := hst.updated h
    simp only [checkUndisturbed, hx, Bool.and_eq_true, List.all_eq_true] at hcheck
    have hno := hcheck.1 g hg
    have hany : (g.pre.any fun x => (wrote? x).isSome) = true := List.any_eq_true.mpr ⟨_, hsaved, rfl⟩
    simp [hv', updates, hany] at hno
  lost v ret content n hx hlost := by
    simp only [checkUndisturbed, hx, Bool.and_eq_true, List.all_eq_true] at hcheck
    have hno := hcheck.2 _ hlost
    simp [wrote?] at hno

end Example

/-- Two uploads of one file that check before either writes are both answered with
success. -/
theorem not_writeOnce : ¬ ∀ SHA256 c, Reachable SHA256 c → WriteOnce c := by
  intro h
  obtain ⟨c, hr, hlast⟩ := reachable_of_run Example.SHA256 Example.storesTwice
    (fun c => (c.history.take 2).map Example.succeedsUploads = [true, true]) (by decide +kernel)
  match hh : c.history, hlast with
  | [], hlast => cases hlast
  | [_], hlast => simp at hlast
  | e :: e' :: past, hlast =>
    simp only [List.take, List.map_cons, List.map_nil, List.cons.injEq, and_true] at hlast
    exact (h _ c hr).once [] e [] e' past _ _ hh (Example.succeeds_of_check hlast.1)
      (Example.succeeds_of_check hlast.2) rfl

/-- Bob's picture is stored once, though he uploads it twice. -/
theorem write_once_picture : ∃ c e e', e ∈ c.history ∧ Succeeds Example.uploads e ∧ e' ∈ c.history ∧
    Responds .FileUploadRequest Example.reuploads (uploadResponse false) e' ∧ WriteOnce c := by
  obtain ⟨c, hr, hsucc, hrefused⟩ := reachableWhen_of_run Example.SHA256 Undisturbed Example.checkUndisturbed
    Example.refusedMeanwhile
    (fun c => c.history.any Example.succeedsUploads = true ∧ c.history.any Example.refusesReuploads = true)
    (fun c e _ hr _ _ hcheck => Example.undisturbed_of_check hr hcheck) (by decide +kernel)
  obtain ⟨e, he, hcheck⟩ := List.any_eq_true.mp hsucc
  obtain ⟨e', he', hcheck'⟩ := List.any_eq_true.mp hrefused
  exact ⟨c, e, e', he, Example.succeeds_of_check hcheck, he', Example.refuses_of_check hcheck', write_once hr⟩

end NetChat
