/-
What follows what in the bodies of the threads: the operation a worker issued just
before it clears a sender's queue or pushes to it, what a sender's turn ends with, and
the operations after which the process may end (`last_outside`): calls of the database
and of `epoll_ctl`, never a function that takes a lock.
-/
import NetChat.Holding
import NetChat.Queues

namespace NetChat

open Interleave Prog Server

variable {SHA256 : Bytes → Bytes} {t : Tid} {l : List Entry} {o : Op}

/-! ## Before and after -/

theorem worker_issues_pop (h : (RevcSocketThreadFunc SHA256).Issues l .popRecvSocket) : l = [] := by
  rcases worker_issues h with ⟨rfl, -⟩ | ⟨fd, -, ho⟩ | ⟨fd, conn, n, pkt, hd, l', rfl, hh, hp⟩
  · rfl
  · cases ho
  obtain ⟨t, -, hs⟩ := handler_isHandler hh
  cases hp with
  | handling h => rcases hs.issues h with h | h <;> cases h
  | replying _ ho => cases ho
  | callback _ _ hr hcb h => rcases ((hs.runs hr).2.2 _ hcb).2.issues h with h | h <;> cases h
  | dropping _ _ _ ho => cases ho
  | closing _ _ _ ho => cases ho

/-- Who queues for a sender was told of it just before. -/
theorem issues_push_last {uid : Int32} {p : Packet} (h : ((server SHA256).body t).Issues l (.addSendTask uid p)) :
    l.getLast? = some ⟨.getSender uid, true⟩ := by
  obtain ⟨-, hpush⟩ := issues_push h
  cases hpush <;> simp [List.getLast?_append, List.getLast?_cons]

/-- `Clear` comes after the `setFd` that found a sender. -/
theorem issues_clear_last {uid : Int32} (h : (RevcSocketThreadFunc SHA256).Issues l (.Clear uid)) :
    ∃ fd, l.getLast? = some ⟨.setFd uid fd, true⟩ := by
  have hw : ((server SHA256).body (.worker 0)).Issues l (.Clear uid) := h
  obtain ⟨-, -, fd, conn, n, pkt, hd, reply, cb, l₁, l₂, out, rfl, ht, hh, hr, hok, hcb, hi⟩ :=
    issues_callback hw rfl (by simp)
  rw [handler_setupChannel ht] at hh
  cases hh
  obtain ⟨uid', rfl, rfl⟩ := onSetupChannelRequest_runs hr
  cases hcb
  generalize ho : Op.Clear uid = o at hi
  cases setupChannel_issues hi <;> cases ho
  exact ⟨fd, by simp [List.getLast?_append, List.getLast?_cons]⟩

/-- And it always comes. -/
theorem clear_follows {uid fd : Int32} {q : Code Unit}
    (h : (RevcSocketThreadFunc SHA256).Path (l ++ [⟨.setFd uid fd, true⟩]) q) : ∃ k, q = .op (.Clear uid) k := by
  have hw : ((server SHA256).body (.worker 0)).Issues l (.setFd uid fd) := h.split
  obtain ⟨-, -, fd', conn, n, pkt, hd, reply, cb, l₁, l₂, out, rfl, ht, hh, hr, hok, hcb, hi⟩ :=
    issues_callback hw rfl (by simp)
  have hh' := hh
  rw [handler_setupChannel ht] at hh'
  cases hh'
  obtain ⟨uid', rfl, rfl⟩ := onSetupChannelRequest_runs hr
  cases hcb
  clear hw
  generalize ho : Op.setFd uid fd = o at hi
  cases setupChannel_issues hi <;> cases ho
  have hpath : ∃ k, (setupChannel uid fd).Path [⟨.setFd uid fd, true⟩] (.op (.Clear uid) k) := ⟨_, .cons .nil⟩
  obtain ⟨k, hk⟩ := hpath
  rw [List.append_assoc, List.append_assoc] at h
  exact ⟨k, h.det (worker_calls_path hh hr rfl hok rfl hk)⟩

theorem meets_closeIf {Q : Entry → Code Unit → Prop} {failed : Bool} {fd : Int32} {rest : Code Unit}
    (hq : ∀ conn, Q ⟨.close fd, conn⟩ rest) (h : rest.Meets Q) :
    ((Van.closeIf failed fd).bind fun _ => rest).Meets Q := by
  cases failed with
  | false => exact h
  | true => exact fun conn => ⟨hq conn, h⟩

/-- A sender's `unlock` ends its turn, -/
theorem meets_run (uid : Int32) : (KeepAliveMsgSender.run uid).Meets fun x q => x.op = .unlock uid → q = .ret () := by
  refine fun pkt => ⟨by simp, fun fd => ⟨by simp, fun out => ⟨by simp, ?_⟩⟩⟩
  refine meets_closeIf (by simp) fun ack => ⟨by simp, ?_⟩
  exact meets_closeIf (by simp) fun _ => ⟨fun _ => rfl, trivial⟩

/-- and is how a turn ends. -/
theorem run_unlocks {uid : Int32} (h : (KeepAliveMsgSender.run uid).Runs l ()) :
    ∃ pkt fd l', l = held uid pkt fd ++ (l' ++ [⟨.unlock uid, ()⟩]) := by
  simp only [KeepAliveMsgSender.run, bind_eq, op_bind, ret_bind, runs_op, runs_bind, runs_ret, and_true] at h
  obtain ⟨pkt, _, rfl, fd, _, rfl, out, _, rfl, _, l₁, _, rfl, -, ack, _, rfl, _, l₂, _, rfl, -, _, _, rfl, rfl⟩ := h
  exact ⟨pkt, fd, ⟨.Send fd pkt, out⟩ :: (l₁ ++ ⟨.Recv fd, ack⟩ :: l₂), by simp [held]⟩

/-! ## The last operation of a process -/

/-- The process ends after nothing but a call. -/
def LastOutside {α : Type} (x : Entry) (q : Code α) : Prop := q = .terminate → x.op.outside = true

section
variable {α : Type} {x : Entry}

theorem lastOutside_call {q : Code α} (h : x.op.outside = true) : LastOutside x q := fun _ => h

theorem lastOutside_ret {a : α} : LastOutside x (.ret a : Code α) := by
  intro h
  cases h

theorem lastOutside_op {k : o.Res → Code α} : LastOutside x (.op o k) := by
  intro h
  cases h

theorem lastOutside_ite {c : Prop} [Decidable c] {p q : Code α} (hp : LastOutside x p) (hq : LastOutside x q) :
    LastOutside x (if c then p else q) := by
  split
  · exact hp
  · exact hq

/-- What comes after a program that is not over at once. -/
theorem LastOutside.bind {β : Type} {p : Code α} {f : α → Code β} (hp : p.Meets LastOutside)
    (hf : ∀ a, (f a).Meets LastOutside) (hne : ∀ a, f a ≠ .terminate) : (p.bind f).Meets LastOutside := by
  refine hp.bind (fun x q hq hterm => ?_) hf
  cases q with
  | terminate => exact hq rfl
  | ret a => exact absurd hterm (hne a)
  | op => cases hterm

end

theorem lastOutside_onRegisterRequest (pkt : Packet) : (onRegisterRequest SHA256 pkt).Meets LastOutside := by
  simp only [onRegisterRequest, g_db.createUser, bind_eq, pure_eq]
  split
  · exact fun _ => ⟨lastOutside_ret, trivial⟩
  · trivial

theorem lastOutside_onLoginPreRequest (pkt : Packet) : (onLoginPreRequest pkt).Meets LastOutside := by
  simp only [onLoginPreRequest, genChallenge, bind_eq, pure_eq, op_bind]
  rintro (err | user)
  · exact ⟨lastOutside_call rfl, trivial⟩
  refine ⟨lastOutside_call rfl, ?_⟩
  cases user with
  | none => trivial
  | some user =>
    exact fun _ => ⟨lastOutside_op, fun _ => ⟨lastOutside_op, fun _ => ⟨lastOutside_ret, trivial⟩⟩⟩

theorem lastOutside_onLoginRequest (pkt : Packet) : (onLoginRequest SHA256 pkt).Meets LastOutside := by
  simp only [onLoginRequest, genToken, bind_eq, pure_eq, op_bind]
  rintro (err | user)
  · exact ⟨lastOutside_call rfl, trivial⟩
  refine ⟨lastOutside_call rfl, ?_⟩
  cases user with
  | none => trivial
  | some user =>
    refine fun challenge => ⟨lastOutside_ite lastOutside_op lastOutside_op, ?_⟩
    simp only [ret_bind]
    split
    · exact fun _ => ⟨lastOutside_op, fun _ => ⟨lastOutside_op, fun _ => ⟨lastOutside_ret, trivial⟩⟩⟩
    · exact fun _ => ⟨lastOutside_ret, trivial⟩

theorem lastOutside_onSendMessageRequest (pkt : Packet) : (onSendMessageRequest pkt).Meets LastOutside := by
  simp only [onSendMessageRequest, g_db.createMsgByRawMsg, g_db.createMsg, g_db.createFile, bind_eq, pure_eq, op_bind,
    Prog.bind_assoc, ret_bind]
  refine fun uid => ⟨lastOutside_ite lastOutside_ret lastOutside_op, ?_⟩
  dsimp only
  split
  · trivial
  rintro (err | user)
  · exact ⟨lastOutside_call rfl, trivial⟩
  refine ⟨lastOutside_call rfl, ?_⟩
  cases user with
  | none => trivial
  | some user =>
    rintro (err | msgs)
    · exact ⟨lastOutside_call rfl, trivial⟩
    refine ⟨lastOutside_call rfl, fun timestamp => ⟨lastOutside_call rfl, ?_⟩⟩
    rintro (err | changed)
    · exact ⟨lastOutside_call rfl, trivial⟩
    refine ⟨lastOutside_call rfl, ?_⟩
    simp only [orTerminate_ok, ret_bind]
    split
    · refine fun rowid => ⟨lastOutside_call rfl, ?_⟩
      simp only [ret_bind]
      split
      · refine fun uuid => ⟨lastOutside_call rfl, fun r => ⟨lastOutside_call rfl, ?_⟩⟩
        dsimp only
        split <;> trivial
      · trivial
    · trivial

theorem lastOutside_onFileUploadRequest (pkt : Packet) : (onFileUploadRequest pkt).Meets LastOutside := by
  have hupd : ∀ (f : FileStorage) (success : Bool) (cb : Option (Code Unit)), ((g_db.updateFile f).bind fun ok =>
      if ok = true then .ret (uploadResponse success, cb) else .ret (uploadResponse false, none)).Meets LastOutside := by
    refine fun f success cb r => ⟨lastOutside_call rfl, ?_⟩
    simp only [ret_bind]
    split <;> trivial
  simp only [onFileUploadRequest, bind_eq, pure_eq, op_bind, ret_bind]
  refine fun uid => ⟨lastOutside_ite lastOutside_ret lastOutside_op, ?_⟩
  dsimp only
  split
  · trivial
  rintro (err | row)
  · exact ⟨lastOutside_call rfl, trivial⟩
  refine ⟨lastOutside_call rfl, ?_⟩
  cases row with
  | none => trivial
  | some row =>
    refine fun found => ⟨lastOutside_call rfl, ?_⟩
    dsimp only
    split
    · exact hupd _ _ _
    · exact fun _ => ⟨lastOutside_call rfl, hupd _ _ _⟩

theorem lastOutside_onFileDownloadRequest (pkt : Packet) : (onFileDownloadRequest pkt).Meets LastOutside := by
  simp only [onFileDownloadRequest, bind_eq, pure_eq, op_bind, ret_bind]
  refine fun uid => ⟨lastOutside_ite lastOutside_ret lastOutside_op, ?_⟩
  dsimp only
  split
  · trivial
  rintro (err | row)
  · exact ⟨lastOutside_call rfl, trivial⟩
  refine ⟨lastOutside_call rfl, ?_⟩
  cases row with
  | none => trivial
  | some row =>
    refine fun found => ⟨lastOutside_call rfl, ?_⟩
    dsimp only
    split
    · refine fun content => ⟨lastOutside_call rfl, ?_⟩
      cases content <;> trivial
    · trivial

theorem lastOutside_onContactMessageRequest (pkt : Packet) : (onContactMessageRequest pkt).Meets LastOutside := by
  simp only [onContactMessageRequest, bind_eq, pure_eq, op_bind, ret_bind]
  refine fun uid => ⟨lastOutside_op, ?_⟩
  rintro (err | m)
  · exact ⟨lastOutside_call rfl, trivial⟩
  refine ⟨lastOutside_call rfl, ?_⟩
  cases m <;> trivial

theorem lastOutside_addSendTask (uid : Int32) (p : Packet) : (addSendTask uid p).Meets LastOutside := by
  intro found
  cases found with
  | true => exact ⟨lastOutside_op, fun _ => ⟨lastOutside_ret, trivial⟩⟩
  | false => exact ⟨lastOutside_ret, trivial⟩

theorem lastOutside_contactList (uid : Int32) (users : List User) : (contactList uid users).Meets LastOutside := by
  induction users with
  | nil => trivial
  | cons u users ih =>
    rintro (err | msgs)
    · exact ⟨lastOutside_call rfl, trivial⟩
    refine ⟨lastOutside_call rfl, ?_⟩
    simp only [orTerminate_ok, ret_bind, bind_eq]
    exact LastOutside.bind ih (fun _ => trivial) (by simp)

theorem lastOutside_controlEpollDel (fd : Int32) : (Van.controlEpollDel fd).Meets LastOutside := by
  intro ok
  refine ⟨lastOutside_call rfl, ?_⟩
  dsimp only
  split <;> trivial

theorem lastOutside_setupChannel (uid fd : Int32) : (setupChannel uid fd).Meets LastOutside := by
  have hrest : ((Prog.op Op.getAllUsers orTerminate : Code (List User)).bind fun users =>
      (contactList uid users).bind fun list => (addSendTask uid (contactPacket list)).bind fun _ =>
        Van.controlEpollDel fd).Meets LastOutside := by
    rintro (err | users)
    · exact ⟨lastOutside_call rfl, trivial⟩
    refine ⟨lastOutside_call rfl, ?_⟩
    simp only [orTerminate_ok, ret_bind]
    refine LastOutside.bind (lastOutside_contactList uid users) (fun list => ?_) (by simp [addSendTask])
    exact LastOutside.bind (lastOutside_addSendTask _ _) (fun _ => lastOutside_controlEpollDel fd)
      (by simp [Van.controlEpollDel])
  intro found
  cases found with
  | true => exact ⟨lastOutside_op, fun _ => ⟨lastOutside_op, hrest⟩⟩
  | false => exact ⟨lastOutside_op, hrest⟩

theorem lastOutside_handler {fd : Int32} {pkt : Packet} {hd : Code Reply} (hh : handler SHA256 fd pkt = some hd) :
    hd.Meets LastOutside := by
  unfold handler at hh
  split at hh <;> simp only [Option.some.injEq, reduceCtorEq] at hh
  all_goals subst hh
  · trivial
  · trivial
  · exact lastOutside_onRegisterRequest pkt
  · exact lastOutside_onLoginPreRequest pkt
  · exact lastOutside_onLoginRequest pkt
  · exact fun _ => ⟨lastOutside_ret, trivial⟩
  · exact lastOutside_onSendMessageRequest pkt
  · exact lastOutside_onFileUploadRequest pkt
  · exact lastOutside_onFileDownloadRequest pkt
  · exact lastOutside_onContactMessageRequest pkt

theorem lastOutside_callback {fd : Int32} {pkt : Packet} {hd : Code Reply} {reply : Reply} {cb : Code Unit}
    (hh : handler SHA256 fd pkt = some hd) (hr : hd.Runs l reply) (hcb : reply.2 = some cb) : cb.Meets LastOutside := by
  obtain ⟨t, ht, hs⟩ := handler_isHandler hh
  rcases ((hs.runs hr).2.2 _ hcb).1 with rfl | rfl | rfl
  · rw [handler_setupChannel ht] at hh
    cases hh
    obtain ⟨uid, -, rfl⟩ := onSetupChannelRequest_runs hr
    cases hcb
    exact lastOutside_setupChannel uid fd
  · rw [handler_sendMessage ht] at hh
    cases hh
    cases onSendMessageRequest_runs hr with
    | refused | fileFailed => cases hcb
    | text =>
      cases hcb
      intro online
      cases online with
      | true => exact ⟨lastOutside_op, lastOutside_addSendTask _ _⟩
      | false => exact ⟨lastOutside_ret, trivial⟩
    | file =>
      cases hcb
      exact fun _ => ⟨lastOutside_ret, trivial⟩
  · rw [handler_fileUpload ht] at hh
    cases hh
    rw [onFileUploadRequest_callback hr hcb]
    refine fun r => ⟨lastOutside_ite lastOutside_ret lastOutside_op, ?_⟩
    simp only [ret_bind]
    split
    · trivial
    · exact fun _ => ⟨lastOutside_op, lastOutside_addSendTask _ _⟩

theorem lastOutside_Accepting : ServerVan.Accepting.Meets LastOutside := by
  have hevents : ∀ events : List EpollEvent, (ServerVan.onEvents events).Meets LastOutside ∧
      ServerVan.onEvents events ≠ .terminate := by
    intro events
    induction events with
    | nil => exact ⟨trivial, by simp [ServerVan.onEvents]⟩
    | cons ev events ih =>
      have hev : (ServerVan.onEvent ev).Meets LastOutside := by
        cases ev with
        | server =>
          refine fun fd => ⟨lastOutside_call rfl, ?_⟩
          cases fd with
          | none => trivial
          | some fd =>
            refine fun ok => ⟨lastOutside_call rfl, ?_⟩
            dsimp only
            split <;> trivial
        | client fd epollin =>
          cases epollin with
          | true => exact fun _ => ⟨lastOutside_ret, trivial⟩
          | false =>
            refine LastOutside.bind (lastOutside_controlEpollDel fd) (fun _ => ?_) (by simp [Van.closeFd])
            exact fun _ => ⟨lastOutside_ret, trivial⟩
      refine ⟨LastOutside.bind hev (fun _ => ih.1) fun _ => ih.2, ?_⟩
      cases ev with
      | server => simp [ServerVan.onEvents, ServerVan.onEvent, ServerVan.acceptClient]
      | client fd epollin => cases epollin <;> simp [ServerVan.onEvents, ServerVan.onEvent, Van.controlEpollDel]
  exact fun events => ⟨lastOutside_call rfl, (hevents events).1⟩

theorem lastOutside_run (uid : Int32) : (KeepAliveMsgSender.run uid).Meets LastOutside := by
  refine fun pkt => ⟨lastOutside_op, fun fd => ⟨lastOutside_op, fun out => ⟨lastOutside_call rfl, ?_⟩⟩⟩
  refine meets_closeIf (fun _ => lastOutside_op) fun ack => ⟨lastOutside_call rfl, ?_⟩
  exact meets_closeIf (fun _ => lastOutside_op) fun _ => ⟨lastOutside_ret, trivial⟩

theorem lastOutside_worker {r : o.Res} (h : (RevcSocketThreadFunc SHA256).Path (l ++ [⟨o, r⟩]) .terminate) :
    o.outside = true := by
  have hi : (RevcSocketThreadFunc SHA256).Issues l o := h.split
  rcases worker_issues hi with ⟨rfl, rfl⟩ | ⟨fd, -, rfl⟩ | ⟨fd, conn, n, pkt, hd, l', rfl, hh, hp⟩
  · cases h with
    | cons h => cases h
  · rfl
  cases hp with
  | handling hi =>
    obtain ⟨k, hk⟩ := hi
    refine (lastOutside_handler hh).path (hk.snoc r) ?_
    rw [List.append_assoc] at h
    have hterm := (worker_path hh ((hk.snoc r).bind (respond fd))).det h
    cases hkr : k r with
    | terminate => rfl
    | op => rw [hkr] at hterm; cases hterm
    | ret reply =>
      rw [hkr, ret_bind] at hterm
      unfold respond at hterm
      split at hterm <;> cases hterm
  | @callback reply cb l₁ l₂ out hl hok hr hcb hi =>
    obtain ⟨t, -, hs⟩ := handler_isHandler hh
    obtain ⟨k, hk⟩ := hi
    refine (lastOutside_callback hh hr hcb).path (hk.snoc r) ?_
    rw [hl, List.append_assoc, List.append_assoc] at h
    exact (worker_calls_path hh hr (hs.runs hr).2.1 hok hcb (hk.snoc r)).det h
  | replying _ ho | dropping _ _ _ ho | closing _ _ _ ho =>
    subst ho
    rfl

/-- **The process ends after nothing but a call** of the database or the kernel. -/
theorem last_outside {r : o.Res} (h : ((server SHA256).body t).Path (l ++ [⟨o, r⟩]) .terminate) : o.outside = true := by
  cases t with
  | acceptor => exact lastOutside_Accepting.path h rfl
  | worker i => exact lastOutside_worker h
  | sender uid => exact (lastOutside_run uid).path h rfl

end NetChat
