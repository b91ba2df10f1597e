/-
Messages that wait for a file. The message is made pending in the callback of
the request that registered the file, and forwarded in the callback of the
upload that stored it; between the two, and within the upload, any step can be
the one that fails. As only an upload that finds no content forwards, a message
that is pending when there is content and no upload on its way is so for good.
-/
import NetChat.Pull
import NetChat.Uploads

namespace NetChat

open Interleave Server

variable {SHA256 : Bytes → Bytes} {ok : Config → Event → Prop} {c c' : Config} {e : Event} {f : Bytes} {i : Nat}

/-! ## Between two requests -/

/-- No worker is handling a request. -/
def Quiescent (c : Config) : Prop := ∀ i, (c.threads (.worker i)).log = []

/-- No file whose content is on disk has a message pending. -/
def NoneStuck (c : Config) : Prop := ∀ f, c.state.disk f ≠ none → c.state.file_msg_pool f = none

/-! ## On the way to forward -/

/-- Worker `i` is in an upload of the file `f`, asked for by that id, and all has
gone well. -/
def Forwarding (c : Config) (f : Bytes) (i : Nat) : Prop :=
  ∃ fd q row l o, InUpload c i fd q row l o ∧ q.id = f ∧ row.id = f

/-- The steps after which an upload is not on its way any more. -/
def fails : Entry → Bool
  | ⟨.saveToDisk _ _, out⟩ => !out.ret
  | ⟨.updateFile _, ret⟩ => g_db.caught ret == 0
  | ⟨.Send _ _, out⟩ => !out.ok
  | _ => false

theorem Forwarding.busy (hf : Forwarding c f i) : (c.threads (.worker i)).log ≠ [] := by
  obtain ⟨fd, q, row, l, o, ⟨pkt, -, -, hl, -⟩, -, -⟩ := hf
  exact hl.busy

/-- **An upload goes on** unless a step of it fails, finds nothing pending or takes
what was pending out. -/
theorem Forwarding.step (hf : Forwarding c f i) (h : (server SHA256).ReachableWhen ok State.initial c)
    (hs : (server SHA256).Step c e c') :
    Forwarding c' f i ∨ e.tid = .worker i ∧
      (fails e.act = true ∨ (∃ m, e.act = ⟨.getFileMsg f, (0, m)⟩) ∨ e.act.op = .delFileMsg f) := by
  obtain ⟨fd, q, row, l, o, hu, rfl, hrow⟩ := hf
  rcases hu.step h hs with ⟨-, hu'⟩ | ⟨ht, ho, hon⟩
  · exact .inl ⟨fd, q, row, l, o, hu', rfl, hrow⟩
  obtain ⟨r, hx⟩ := Entry.of_op ho
  rw [hx] at hon ⊢
  obtain ⟨-, -, -, -, hup⟩ := hu
  cases hup with
  | checked huid =>
    by_cases hr : SaveOut.ret r = true
    · rw [← saving_eq] at hon
      exact .inl ⟨fd, q, row, _, _, hon _ (.saved huid hr), rfl, hrow⟩
    · exact .inr ⟨ht, .inl (by simpa [fails] using hr)⟩
  | saved huid hsaved =>
    by_cases hr : g_db.caught r = 0
    · exact .inr ⟨ht, .inl (by simpa [fails] using hr)⟩
    · rw [← stowed_eq] at hon
      exact .inl ⟨fd, q, row, _, _, hon _ (.updated huid hsaved hr), rfl, hrow⟩
  | updated huid hsaved hret =>
    by_cases hr : r.ok = true
    · exact .inl ⟨fd, q, row, _, _, hon _ (.replied huid hsaved hret hr), rfl, hrow⟩
    · exact .inr ⟨ht, .inl (by simpa [fails] using hr)⟩
  | replied huid hsaved hret hok =>
    obtain ⟨r, m⟩ := r
    by_cases hr : r = 0
    · subst hr
      exact .inr ⟨ht, .inr (.inl ⟨m, rfl⟩)⟩
    · rw [List.append_assoc] at hon
      exact .inl ⟨fd, q, row, _, _, hon _ (.looked huid hsaved hret hok hr), rfl, hrow⟩
  | looked => exact .inr ⟨ht, .inr (.inr rfl)⟩

/-! ## What must not happen -/

/-- Nothing is pending for `f`, or a thread other than `t` is on its way to forward it. -/
def Spared (c : Config) (f : Bytes) (t : Tid) : Prop :=
  c.state.file_msg_pool f = none ∨ ∃ i, .worker i ≠ t ∧ Forwarding c f i

/-- The condition on a step: with content on disk, no message is made pending while
no upload is on its way; and while one is pending and no other upload is on its way,
`saveToDisk` succeeds and is of an upload that asks for the file by its id, and no step
of that upload fails. -/
structure Forwards (c : Config) (e : Event) : Prop where
  set : ∀ f r m, e.act.op = .setFileMsg f r m → c.state.disk f = none ∨ ∃ i, Forwarding c f i
  written : ∀ f content out, e.act = ⟨.saveToDisk f content, out⟩ → out ≠ SaveOut.openFailed →
    (out.ret = true ∧ ∃ i, e.tid = .worker i ∧ Forwarding c f i) ∨ Spared c f e.tid
  failed : ∀ f i, e.tid = .worker i → Forwarding c f i → fails e.act = true →
    c.state.disk f = none ∨ Spared c f e.tid

/-- The user a pending message is for exists. -/
theorem pending_ne_zero (h : (server SHA256).ReachableWhen ok State.initial c) {r : Int32} {m : Message}
    (hp : c.state.file_msg_pool f = some (r, m)) : r ≠ 0 := by
  obtain ⟨-, -, -, rfl, -, row, hrow, -, hto, -⟩ := pending_addressed h hp
  exact hto ▸ receiver_ne_zero h hrow

theorem Spared.step (hsp : Spared c f e.tid) (hp : c.state.file_msg_pool f ≠ none)
    (h : (server SHA256).ReachableWhen ok State.initial c) (hs : (server SHA256).Step c e c') :
    ∃ i, Forwarding c' f i := by
  rcases hsp with hnone | ⟨i, hne, hf⟩
  · exact absurd hnone hp
  · rcases hf.step h hs with hf' | ⟨ht, -⟩
    · exact ⟨i, hf'⟩
    · exact absurd ht.symm hne

/-- A message is pending after a step that does not make it so only if it was. -/
theorem pool_before (hs : (server SHA256).Step c e c') (hno : ∀ r m, e.act.op ≠ .setFileMsg f r m)
    (hp : c'.state.file_msg_pool f ≠ none) : c.state.file_msg_pool f ≠ none ∧ e.act.op ≠ .delFileMsg f := by
  rw [step_file_msg_pool hs.state f] at hp
  cases hop : e.act.op <;> rw [hop] at hp hno <;> simp only [Op.writesFileMsg, Option.getD_none] at hp
  case setFileMsg id r m =>
    split at hp
    · rename_i hid
      exact absurd (by rw [hid]) (hno r m)
    · exact ⟨hp, by simp⟩
  case delFileMsg id =>
    split at hp
    · exact absurd rfl hp
    · rename_i hid
      exact ⟨hp, by simpa using hid⟩
  all_goals exact ⟨hp, by simp⟩

/-- **A file pending with its content on disk is about to be forwarded.** -/
theorem pending_forwarding (h : ReachableWhen SHA256 Forwards c) (hp : c.state.file_msg_pool f ≠ none)
    (hd : c.state.disk f ≠ none) : ∃ i, Forwarding c f i := by
  induction h with
  | init => exact absurd rfl hp
  | @step c c' e hr hs hk ih =>
    by_cases hset : ∃ r m, e.act.op = .setFileMsg f r m
    · -- made pending, while an upload was on its way
      obtain ⟨r, m, ho⟩ := hset
      rcases step_disk hs.state f with ⟨content, out, hx, -⟩ | ⟨-, hsame⟩
      · rw [hx] at ho
        cases ho
      rcases hk.set f r m ho with hnone | ⟨i, hf⟩
      · exact absurd (hsame.trans hnone) hd
      rcases hf.step hr hs with hf' | ⟨-, hstop⟩
      · exact ⟨i, hf'⟩
      · obtain ⟨u, hx⟩ := Entry.of_op ho
        simp [hx, fails] at hstop
    simp only [not_exists] at hset
    obtain ⟨hp₀, hdel⟩ := pool_before hs hset hp
    -- an upload that was on its way still is, or another is
    have hon : ∀ i, Forwarding c f i → c.state.disk f ≠ none → ∃ i, Forwarding c' f i := by
      intro i hf hd₀
      rcases hf.step hr hs with hf' | ⟨ht, hfail | ⟨m, hx⟩ | hdel'⟩
      · exact ⟨i, hf'⟩
      · rcases hk.failed f i ht hf hfail with hnone | hsp
        · exact absurd hnone hd₀
        · exact hsp.step hp₀ hr hs
      · obtain ⟨⟨r, m'⟩, hpool⟩ := Option.ne_none_iff_exists'.mp hp₀
        have hget := hs.state
        rw [hx] at hget
        simp only [server, State.step, Option.ite_none_right_eq_some, hpool, Option.getD_some] at hget
        exact absurd (Prod.mk.inj hget.1).1.symm (pending_ne_zero hr hpool)
      · exact absurd hdel' hdel
    rcases step_disk hs.state f with ⟨content, out, hx, hout⟩ | ⟨-, hsame⟩
    · by_cases hopen : out = .openFailed
      · subst hopen
        rw [hout] at hd
        obtain ⟨i, hf⟩ := ih hp₀ hd
        exact hon i hf hd
      · rcases hk.written f content out hx hopen with ⟨hret, i, ht, hf⟩ | hsp
        · rcases hf.step hr hs with hf' | ⟨-, hstop⟩
          · exact ⟨i, hf'⟩
          · simp [hx, fails, hret] at hstop
        · exact hsp.step hp₀ hr hs
    · rw [hsame] at hd
      obtain ⟨i, hf⟩ := ih hp₀ hd
      exact hon i hf hd

/-- **No file message gets stuck**, in a run in which no step leaves one. -/
theorem none_stuck (h : ReachableWhen SHA256 Forwards c) (hq : Quiescent c) : NoneStuck c := by
  intro f hd
  by_contra hp
  obtain ⟨i, hf⟩ := pending_forwarding h hp hd
  exact hf.busy (hq i)

/-! ## A picture -/

/-- The threads that have moved are between two turns, and so are all. -/
theorem all_idle (h : (server SHA256).ReachableWhen ok State.initial c) {tids : List Tid}
    (hmoved : ∀ e ∈ c.history, e.tid ∈ tids) (hidle : ∀ t ∈ tids, (c.threads t).log = []) (t : Tid) :
    (c.threads t).log = [] := by
  by_cases ht : t ∈ tids
  · exact hidle t ht
  · rw [h.fresh fun e he hte => ht (by rw [← hte]; exact hmoved e he)]

namespace Example

/-- The picture is stored, but the reply to its upload cannot be sent. -/
def replyLost : Schedule :=
  pictured ++ storesPicture [⟨.Send 5 (uploadResponse true), ⟨some 0, false⟩⟩, ⟨.epollDel 5, true⟩, ⟨.close 5, some 0⟩]

end Example

/-- After an upload whose reply is not sent, the message is pending for good. -/
theorem not_noneStuck : ¬ ∀ SHA256 c, Reachable SHA256 c → Quiescent c → NoneStuck c := by
  intro h
  obtain ⟨c, hr, hmoved, hidle, hdisk, hpool⟩ := reachable_of_run Example.SHA256 Example.replyLost
    (fun c => (∀ e ∈ c.history, e.tid ∈ [Tid.acceptor, .worker 0]) ∧
      (∀ t ∈ [Tid.acceptor, .worker 0], (c.threads t).log = []) ∧
      c.state.disk Example.fileid ≠ none ∧ c.state.file_msg_pool Example.fileid ≠ none) (by decide +kernel)
  exact hpool (h _ c hr (fun i => all_idle hr hmoved hidle _) _ hdisk)

/-- Whether a step makes pending what has no content yet, saves in the upload of the
picture, or does not fail. -/
def checkForwards (c : Config) (e : Event) : Bool :=
  !fails e.act && match e.act.op with
    | .setFileMsg f _ _ => c.state.disk f == none
    | .saveToDisk f _ => decide (e.tid = .worker 0 ∧ f = Example.fileid ∧ e.pre =
        received 5 0 64 Example.uploadsPacket ++ (found Example.uploads 1 Example.unnamed ++
          [⟨.checkDiskExistence Example.fileid, false⟩]))
    | _ => true

theorem forwards_of_check (hlog : (c.threads e.tid).log = e.pre) (h : checkForwards c e = true) : Forwards c e where
  set := by
    intro f r m ho
    simp only [checkForwards, ho, Bool.and_eq_true, beq_iff_eq] at h
    exact .inl h.2
  written := by
    intro f content out hx hopen
    simp only [checkForwards, hx, Bool.and_eq_true, decide_eq_true_eq, fails, Bool.not_not] at h
    obtain ⟨hret, ht, rfl, hpre⟩ := h
    have hup : Uploading 5 Example.uploads Example.unnamed (found Example.uploads 1 Example.unnamed ++
        [⟨.checkDiskExistence Example.fileid, false⟩]) _ := .checked (by decide)
    rw [hpre, ht] at hlog
    exact .inl ⟨hret, 0, ht, 5, _, _, _, _, ⟨Example.uploadsPacket, rfl, rfl, ⟨0, 64, hlog⟩, hup⟩, rfl, rfl⟩
  failed := by
    intro f i ht hf hfail
    simp [checkForwards, hfail] at h

theorem none_stuck_picture : ∃ c, c.state.disk Example.fileid ≠ none ∧ Quiescent c ∧ NoneStuck c := by
  obtain ⟨c, hr, hmoved, hidle, hdisk⟩ := reachableWhen_of_run Example.SHA256 Forwards checkForwards Example.forwarded
    (fun c => (∀ e ∈ c.history, e.tid ∈ [Tid.acceptor, .worker 0]) ∧
      (∀ t ∈ [Tid.acceptor, .worker 0], (c.threads t).log = []) ∧
      c.state.disk Example.fileid ≠ none)
    (fun _ _ _ _ _ hlog hcheck => forwards_of_check hlog hcheck) (by decide +kernel)
  have hq : Quiescent c := fun i => all_idle hr hmoved hidle _
  exact ⟨c, hdisk, hq, none_stuck hr hq⟩

end NetChat
