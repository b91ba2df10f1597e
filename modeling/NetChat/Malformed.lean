/-
Packets whose content is not the request their id names. No handler looks at
what `UnpackTo` returned: each goes on with the fields it finds, those parsed
before the error or the defaults. What comes of it depends on the state.
-/
import NetChat.Handling
import NetChat.Rejected
import NetChat.Failures

namespace NetChat

open Interleave Prog Server

variable {SHA256 : Bytes → Bytes} {s s₁ s' : State} {l : List Entry} {fd : Int32} {pkt p : Packet}

/-- Whether the content does not unpack as the request the packet id names, of the
requests that have fields. -/
def Packet.malformed (pkt : Packet) : Bool :=
  match PacketType.cast pkt.packetid with
  | some .RegisterRequest => !(pkt.UnpackTo RegisterRequest).1
  | some .LoginPreRequest => !(pkt.UnpackTo LoginPreRequest).1
  | some .LoginRequest => !(pkt.UnpackTo LoginRequest).1
  | some .SetupChannelRequest => !(pkt.UnpackTo SetupChannelRequest).1
  | some .SendMessageRequest => !(pkt.UnpackTo SendMessageRequest).1
  | some .FileUploadRequest => !(pkt.UnpackTo FileUploadRequest).1
  | some .FileDownloadRequest => !(pkt.UnpackTo FileDownloadRequest).1
  | some .ContactMessageRequest => !(pkt.UnpackTo ContactMessageRequest).1
  | _ => false

/-- Everything a request can change is as it was: users, messages, files and their
content, tokens, challenges, channels and queues. -/
structure Kept (s s' : State) : Prop where
  users : s'.db.users = s.db.users
  messages : s'.db.messages = s.db.messages
  files : s'.db.files = s.db.files
  disk : s'.disk = s.disk
  token_pool : s'.token_pool = s.token_pool
  challenge_pool : s'.challenge_pool = s.challenge_pool
  keepalive_sender_mp : s'.keepalive_sender_mp = s.keepalive_sender_mp

/-- If it is a reply, it reports a failure. -/
def NoSuccess (x : Entry) : Prop := ∀ fd p, x.op = .Send fd p → p.reportsFailure = true

/-- However a packet received on `fd` is handled from `s`, and wherever that ends,
nothing is changed and no success or acknowledgement is sent. -/
def NotExecuted (SHA256 : Bytes → Bytes) (s : State) (fd : Int32) (pkt : Packet) : Prop :=
  ∀ hd l q s', handler SHA256 fd pkt = some hd → (hd.bind (respond fd)).Path l q →
    (server SHA256).stepAll s l = some s' → Kept s s' ∧ ∀ x ∈ l, NoSuccess x

theorem Kept.refl : Kept s s := ⟨rfl, rfl, rfl, rfl, rfl, rfl, rfl⟩

theorem Kept.trans (h : Kept s s₁) (h' : Kept s₁ s') : Kept s s' where
  users := h'.users.trans h.users
  messages := h'.messages.trans h.messages
  files := h'.files.trans h.files
  disk := h'.disk.trans h.disk
  token_pool := h'.token_pool.trans h.token_pool
  challenge_pool := h'.challenge_pool.trans h.challenge_pool
  keepalive_sender_mp := h'.keepalive_sender_mp.trans h.keepalive_sender_mp

theorem Unchanged.kept (h : Unchanged (some .descriptors) s s') : Kept s s' where
  users := h.users nofun
  messages := h.messages nofun
  files := h.files nofun
  disk := h.disk nofun
  token_pool := h.token_pool nofun
  challenge_pool := h.challenge_pool nofun
  keepalive_sender_mp := h.keepalive_sender_mp nofun

/-- What can write the table and leaves it leaves all there is to keep. -/
theorem Unchanged.kept_of_files (h : Unchanged (some .files) s s') (hfiles : s'.db.files = s.db.files) : Kept s s' where
  users := h.users nofun
  messages := h.messages nofun
  files := hfiles
  disk := h.disk nofun
  token_pool := h.token_pool nofun
  challenge_pool := h.challenge_pool nofun
  keepalive_sender_mp := h.keepalive_sender_mp nofun

/-! ## Running a program alone -/

/-- Run alone from `s₁`, the program keeps what there is in `s` and sends no success. -/
abbrev Idle (SHA256 : Bytes → Bytes) (s : State) {α : Type} (p : Code α) (s₁ : State) : Prop :=
  (server SHA256).Alone (Kept s) NoSuccess p s₁

theorem notExecuted_iff {hd : Code Reply} (hh : handler SHA256 fd pkt = some hd) :
    NotExecuted SHA256 s fd pkt ↔ Idle SHA256 s (hd.bind (respond fd)) s := by
  rw [Idle, Machine.alone_iff .refl]
  constructor
  · exact fun h l q s' hp hs => h hd l q s' hh hp hs
  · intro h hd' l q s' hh' hp hs
    rw [hh] at hh'
    cases hh'
    exact h l q s' hp hs

theorem noSuccess_quiet {x : Entry} (h : ∀ fd p, x.op ≠ .Send fd p) : NoSuccess x := fun fd p ho => absurd ho (h fd p)

/-- An operation that is no reply and changes nothing it has to keep. -/
theorem idle_op {α : Type} {o : Op} {k : o.Res → Code α} (ho : ∀ fd p, o ≠ .Send fd p)
    (hk : ∀ r s', s₁.step o r = some s' → Kept s s') :
    Idle SHA256 s (.op o k) s₁ ↔ ∀ r s', s₁.step o r = some s' → Idle SHA256 s (k r) s' :=
  ⟨fun h r s' hs => (h r s' hs).2.2, fun h r s' hs => ⟨noSuccess_quiet ho, hk r s' hs, h r s' hs⟩⟩

/-- An operation that changes nothing at all. -/
theorem idle_read {α : Type} {o : Op} {k : o.Res → Code α} (ho : ∀ fd p, o ≠ .Send fd p) (hpart : o.part = none)
    (hs₁ : Kept s s₁) : Idle SHA256 s (.op o k) s₁ ↔ ∀ r s', s₁.step o r = some s' → Idle SHA256 s (k r) s' := by
  refine idle_op ho fun r s' hs => hs₁.trans ?_
  have hu := State.step_unchanged hs
  rw [hpart] at hu
  exact Unchanged.kept hu.of_none

/-- A query that is not caught: what follows is what follows what the tables hold. -/
theorem forall_query {α : Type} [DecidableEq α] {v : α} {Q : Sql α → State → Prop} :
    (∀ r s', s₁.query v r = some s' → Q r s') ↔ Q (.ok v) s₁ ∧ ∀ e, Q (.error e) s₁ := by
  constructor
  · exact fun h => ⟨h _ _ (by simp), fun e => h _ _ (by simp)⟩
  · rintro ⟨hok, herr⟩ r s' hs
    obtain ⟨rfl, hv⟩ := State.query_eq_some.mp hs
    cases r with
    | ok a =>
      rw [hv a rfl]
      exact hok
    | error e => exact herr e

/-- A lookup: what follows is what follows the value. -/
theorem forall_lookup {α : Type} [DecidableEq α] {v : α} {Q : α → State → Prop} :
    (∀ r s', (if r = v then some s₁ else none) = some s' → Q r s') ↔ Q v s₁ := by
  constructor
  · exact fun h => h v s₁ (if_pos rfl)
  · intro h r s' hs
    obtain ⟨rfl, heq⟩ := Option.ite_none_right_eq_some.mp hs
    rwa [← Option.some.inj heq]

@[simp] theorem idle_terminate {α : Type} : Idle SHA256 s (.terminate : Code α) s₁ ↔ True := Iff.rfl

/-- What replies and is idle reports a failure. -/
theorem idle_reports {reply : Reply} (hc : reply.1.content.isSome = true) (h : Idle SHA256 s (respond fd reply) s₁) :
    reply.1.reportsFailure = true := by
  simp only [respond, hc, if_true, bind_eq, op_bind, ret_bind] at h
  -- a `Send` that fails was to send it too
  exact (h ⟨s₁.fds fd, false⟩ s₁ (by simp [server, State.step])).1 fd reply.1 rfl

/-- A reply without a callback is idle if it reports a failure. -/
theorem idle_respond (hs₁ : Kept s s₁) (hc : p.content.isSome = true) :
    Idle SHA256 s (respond fd (p, none)) s₁ ↔ p.reportsFailure = true := by
  refine ⟨idle_reports hc, fun hp => ?_⟩
  simp only [respond, hc, if_true, bind_eq, op_bind, ret_bind]
  intro r s' hs
  have hs : s₁.step (.Send fd p) r = some s' := hs
  have hu := hs₁.trans (Unchanged.kept (State.step_unchanged hs).of_none)
  refine ⟨fun fd' p' ho => ?_, hu, ?_⟩
  · cases ho
    exact hp
  beta_reduce
  split
  · trivial
  · intro b s₂ hs₂
    have hs₂ : s'.step (.epollDel fd) b = some s₂ := hs₂
    have hu₂ := hu.trans (Unchanged.kept (State.step_unchanged hs₂))
    refine ⟨noSuccess_quiet (by simp), hu₂, ?_⟩
    cases b with
    | false => trivial
    | true =>
      intro conn s₃ hs₃
      have hs₃ : s₂.step (.close fd) conn = some s₃ := hs₃
      exact ⟨noSuccess_quiet (by simp), hu₂.trans (Unchanged.kept (State.step_unchanged hs₃)), trivial⟩

/-! ## The handlers -/

section
variable (SHA256) (s) (fd) (pkt)

/-- The handler is idle from `s`, and so is what follows its reply. -/
abbrev Ignores (hd : Code Reply) : Prop := Idle SHA256 s (hd.bind (respond fd)) s

theorem ignores_register : Ignores SHA256 s fd (onRegisterRequest SHA256 pkt) ↔
    (legalRegister (pkt.request RegisterRequest).username (pkt.request RegisterRequest).rawpassword = true →
      ∃ r ∈ s.db.users, r.username = cstr (pkt.request RegisterRequest).username) := by
  simp only [Ignores, onRegisterRequest, g_db.createUser, User.new, bind_eq, pure_eq]
  split
  · rename_i hlegal
    rw [forall_prop_of_true hlegal]
    simp only [op_bind, ret_bind]
    generalize cstr (pkt.request RegisterRequest).username = n
    generalize cstr (SHA256 (pkt.request RegisterRequest).rawpassword) = hash
    constructor
    · intro h
      by_contra htaken
      have hinsert : s.db.insertUser n hash = some _ := if_neg (by simpa using htaken)
      have hk := (h (.ok 1) _ (by simp only [server, State.step, State.insert, hinsert]; rfl)).2.1.users
      simp at hk
    · intro htaken
      have hinsert : s.db.insertUser n hash = none := if_pos (by simpa using htaken)
      have hfails : ∀ r s', s.step (.insertUser n hash) r = some s' → s' = s ∧ g_db.caught r = 0 := by
        intro r s' hs
        simp only [State.step, State.insert_eq_some, hinsert, reduceCtorEq, false_and, and_false, exists_false,
          false_or] at hs
        obtain ⟨⟨e, rfl⟩, rfl⟩ := hs
        exact ⟨rfl, rfl⟩
      refine (idle_op (by simp) fun r s' hs => ?_).mpr fun r s' hs => ?_
      · rw [(hfails r s' hs).1]
        exact .refl
      · obtain ⟨rfl, hret⟩ := hfails r s' hs
        rw [hret]
        exact (idle_respond .refl rfl).mpr rfl
  · rename_i hlegal
    simp only [ret_bind]
    exact iff_of_true ((idle_respond .refl rfl).mpr rfl) fun h => absurd h hlegal

theorem ignores_loginPre : Ignores SHA256 s fd (onLoginPreRequest pkt) ↔
    s.db.getUser (pkt.request LoginPreRequest).username = none := by
  simp only [Ignores, onLoginPreRequest, genChallenge, bind_eq, pure_eq, op_bind]
  rw [idle_read (by simp) (by rfl) .refl]
  simp only [State.step, forall_query, orTerminate_ok, orTerminate_error, ret_bind, terminate_bind, idle_terminate,
    implies_true, and_true]
  cases s.db.getUser (pkt.request LoginPreRequest).username with
  | none => exact iff_of_true ((idle_respond .refl rfl).mpr rfl) rfl
  | some user =>
    refine iff_of_false (fun h => ?_) (by simp)
    -- any challenge will do
    have hch : isChallenge (List.replicate kChallengeSize 48) = true := by decide
    have hset := ((h (0 : Int) s rfl).2.2 (List.replicate kChallengeSize 48) s
      (by simp only [server, State.step, hch, if_true])).2.2 () _ rfl
    cases @idle_reports SHA256 _ _ _ (_, none) rfl hset.2.2

theorem ignores_setupChannel : ¬ Ignores SHA256 s fd (onSetupChannelRequest fd pkt) := by
  simp only [Ignores, onSetupChannelRequest, bind_eq, pure_eq, op_bind, ret_bind]
  rw [idle_read (by simp) (by rfl) .refl]
  simp only [State.step, forall_lookup]
  intro h
  cases idle_reports rfl h

theorem ignores_login : Ignores SHA256 s fd (onLoginRequest SHA256 pkt) ↔
    ∀ user, s.db.getUser (pkt.request LoginRequest).username = some user →
      s.challenge_pool user.id = none ∧ SHA256 user.password ≠ (pkt.request LoginRequest).hashpassword := by
  simp only [Ignores, onLoginRequest, genToken, bind_eq, pure_eq, op_bind]
  rw [idle_read (by simp) (by rfl) .refl]
  simp only [State.step, forall_query, orTerminate_ok, orTerminate_error, ret_bind, terminate_bind, idle_terminate,
    implies_true, and_true]
  cases s.db.getUser (pkt.request LoginRequest).username with
  | none => exact iff_of_true ((idle_respond .refl rfl).mpr rfl) (by simp)
  | some user =>
    simp only [Option.some.injEq, forall_eq', op_bind]
    rw [idle_read (by simp) (by rfl) .refl]
    simp only [State.step, forall_lookup]
    split
    · rename_i heq
      refine iff_of_false (fun h => ?_) (not_and.mpr fun hnone hne => ?_)
      · have huuid : isUUID Example.token = true := by decide
        have hset := ((h Example.token s (by simp only [server, State.step, huuid, if_true])).2.2 () _ rfl).2.2 () _ rfl
        cases idle_reports rfl hset.2.2
      · rw [hnone, Option.getD_none, List.append_nil] at heq
        exact hne heq
    · rename_i hne
      constructor
      · intro h
        have hpool := congrFun (h () _ rfl).2.1.challenge_pool user.id
        simp only [Function.update_self] at hpool
        rw [← hpool, Option.getD_none, List.append_nil] at hne
        exact ⟨hpool.symm, hne⟩
      · rintro ⟨hnone, -⟩
        have hdel : ∀ r s', s.step (.delChallengeMp user.id) r = some s' → Kept s s' := by
          intro r s' hs
          cases hs
          exact ⟨rfl, rfl, rfl, rfl, rfl, Function.update_eq_self_iff.mpr hnone.symm, rfl⟩
        exact (idle_op (by simp) hdel).mpr fun r s' hs => (idle_respond (hdel r s' hs) rfl).mpr rfl

theorem ignores_sendMessage : Ignores SHA256 s fd (onSendMessageRequest pkt) ↔
    RefusedSend s (pkt.request SendMessageRequest) := by
  simp only [Ignores, onSendMessageRequest, bind_eq, pure_eq, op_bind, ret_bind]
  rw [idle_read (by simp) (by rfl) .refl]
  simp only [State.step, forall_lookup]
  split
  · rename_i huid
    exact iff_of_true ((idle_respond .refl rfl).mpr rfl) (.inl huid)
  rename_i huid
  simp only [op_bind]
  rw [idle_read (by simp) (by rfl) .refl]
  simp only [State.step, forall_query, orTerminate_ok, orTerminate_error, ret_bind, terminate_bind, idle_terminate,
    implies_true, and_true, RefusedSend, huid, false_or]
  cases s.db.getUserById (pkt.request SendMessageRequest).message.to_ with
  | none => exact iff_of_true ((idle_respond .refl rfl).mpr rfl) rfl
  | some u =>
    refine iff_of_false (fun h => ?_) (by simp)
    -- its row is stored
    have hselect := (h (.ok (s.db.getAllMessages (pkt.request SendMessageRequest).message.from_
      (pkt.request SendMessageRequest).message.to_)) s (by simp [server, State.step])).2.2 (0 : Int32) s rfl
    have hinsert := (hselect.2.2 (.ok 1) _ rfl).2.1.messages
    simp [DataAccess.insertMessage] at hinsert

theorem ignores_fileUpload : Ignores SHA256 s fd (onFileUploadRequest pkt) ↔
    (s.getUserIdByToken (pkt.request FileUploadRequest).token ≠ 0 →
      ∀ row, s.db.getFile (pkt.request FileUploadRequest).id = some row →
        s.disk row.id ≠ none ∧ s.db.Named (uploaded (pkt.request FileUploadRequest) row)) := by
  simp only [Ignores, onFileUploadRequest, bind_eq, pure_eq, op_bind, ret_bind]
  rw [idle_read (by simp) (by rfl) .refl]
  simp only [State.step, forall_lookup]
  split
  · rename_i huid
    exact iff_of_true ((idle_respond .refl rfl).mpr rfl) fun h => absurd huid h
  rename_i huid
  simp only [op_bind]
  rw [idle_read (by simp) (by rfl) .refl]
  simp only [State.step, forall_query, orTerminate_ok, orTerminate_error, ret_bind, terminate_bind, idle_terminate,
    implies_true, and_true, ne_eq, huid, not_false_eq_true, forall_true_left]
  cases s.db.getFile (pkt.request FileUploadRequest).id with
  | none => exact iff_of_true ((idle_respond .refl rfl).mpr rfl) (by simp)
  | some row =>
    simp only [Option.some.injEq, forall_eq', op_bind]
    rw [idle_read (by simp) (by rfl) .refl]
    simp only [State.step, forall_lookup]
    cases hdisk : s.disk row.id with
    | none =>
      refine iff_of_false (fun h => ?_) (not_and.mpr fun hne => absurd rfl hne)
      have hsaved := congrFun (h .saved _ rfl).2.1.disk row.id
      simp [hdisk] at hsaved
    | some content =>
      simp only [Option.isSome_some, if_true, ret_bind, g_db.updateFile, op_bind, reduceCtorEq, not_false_eq_true,
        true_and]
      constructor
      · intro h
        have hfiles := (h (.ok (s.db.updateFile (uploaded (pkt.request FileUploadRequest) row)).1) _
          (if_pos rfl)).2.1.files
        exact DataAccess.updateFile_files.mp hfiles
      · intro hnamed
        have hupdate : ∀ r s', s.step (.updateFile (uploaded (pkt.request FileUploadRequest) row)) r = some s' →
            Kept s s' := by
          intro r s' hs
          exact (State.step_unchanged hs).kept_of_files ((step_updateFile_files hs).mpr (.inr hnamed))
        refine (idle_op (by simp) hupdate).mpr fun r s' hs => ?_
        simp only [if_false]
        split <;> exact (idle_respond (hupdate r s' hs) rfl).mpr rfl

theorem ignores_fileDownload : Ignores SHA256 s fd (onFileDownloadRequest pkt) ↔
    (s.getUserIdByToken (pkt.request FileDownloadRequest).token ≠ 0 →
      ∀ row, s.db.getFile (pkt.request FileDownloadRequest).id = some row → s.disk row.id = none ∨ row.name = []) := by
  simp only [Ignores, onFileDownloadRequest, bind_eq, pure_eq, op_bind, ret_bind]
  rw [idle_read (by simp) (by rfl) .refl]
  simp only [State.step, forall_lookup]
  split
  · rename_i huid
    exact iff_of_true ((idle_respond .refl rfl).mpr rfl) fun h => absurd huid h
  rename_i huid
  simp only [op_bind]
  rw [idle_read (by simp) (by rfl) .refl]
  simp only [State.step, forall_query, orTerminate_ok, orTerminate_error, ret_bind, terminate_bind, idle_terminate,
    implies_true, and_true, ne_eq, huid, not_false_eq_true, forall_true_left]
  cases s.db.getFile (pkt.request FileDownloadRequest).id with
  | none => exact iff_of_true ((idle_respond .refl rfl).mpr rfl) (by simp)
  | some row =>
    simp only [Option.some.injEq, forall_eq', op_bind]
    rw [idle_read (by simp) (by rfl) .refl]
    simp only [State.step, forall_lookup]
    cases hdisk : s.disk row.id with
    | none => exact iff_of_true ((idle_respond .refl rfl).mpr rfl) (.inl rfl)
    | some content =>
      simp only [Option.isSome_some, if_true, op_bind, reduceCtorEq, false_or]
      rw [idle_read (by simp) (by rfl) .refl]
      constructor
      · intro h
        have hreports := idle_reports rfl (h (some content) s (if_pos hdisk))
        simpa [Packet.reportsFailure, downloadResponse, packToPacket] using hreports
      · intro hname r s' hs
        have hkept := Unchanged.kept (State.step_unchanged hs).of_none
        cases r with
        | none => exact (idle_respond hkept rfl).mpr rfl
        | some content' =>
          refine (idle_respond hkept rfl).mpr ?_
          simp [Packet.reportsFailure, packToPacket, hname]

theorem ignores_contactMessage : Ignores SHA256 s fd (onContactMessageRequest pkt) ↔
    ∀ m, s.db.getMessage (s.getUserIdByToken (pkt.request ContactMessageRequest).token)
      (pkt.request ContactMessageRequest).id (pkt.request ContactMessageRequest).internalid = some m → m.id = -1 := by
  simp only [Ignores, onContactMessageRequest, bind_eq, pure_eq, op_bind, ret_bind]
  rw [idle_read (by simp) (by rfl) .refl]
  simp only [State.step, forall_lookup]
  rw [idle_read (by simp) (by rfl) .refl]
  simp only [State.step, forall_query, orTerminate_ok, orTerminate_error, ret_bind, terminate_bind, idle_terminate,
    implies_true, and_true]
  cases s.db.getMessage _ _ _ with
  | none => exact iff_of_true ((idle_respond .refl rfl).mpr rfl) (by simp)
  | some m =>
    simp only [Option.some.injEq, forall_eq']
    refine (idle_respond .refl rfl).trans ?_
    simp [Packet.reportsFailure, packToPacket]

/-- The request comes to nothing in `s`: the conditions under which the handlers refuse. -/
def ComesToNothing : Prop :=
  match PacketType.cast pkt.packetid with
  | some .RegisterRequest =>
    let q := pkt.request RegisterRequest
    legalRegister q.username q.rawpassword = true → ∃ r ∈ s.db.users, r.username = cstr q.username
  | some .LoginPreRequest => s.db.getUser (pkt.request LoginPreRequest).username = none
  | some .LoginRequest =>
    let q := pkt.request LoginRequest
    ∀ user, s.db.getUser q.username = some user → s.challenge_pool user.id = none ∧
      SHA256 user.password ≠ q.hashpassword
  | some .SetupChannelRequest => False
  | some .SendMessageRequest => RefusedSend s (pkt.request SendMessageRequest)
  | some .FileUploadRequest =>
    let q := pkt.request FileUploadRequest
    s.getUserIdByToken q.token ≠ 0 →
      ∀ row, s.db.getFile q.id = some row → s.disk row.id ≠ none ∧ s.db.Named (uploaded q row)
  | some .FileDownloadRequest =>
    let q := pkt.request FileDownloadRequest
    s.getUserIdByToken q.token ≠ 0 → ∀ row, s.db.getFile q.id = some row → s.disk row.id = none ∨ row.name = []
  | some .ContactMessageRequest =>
    let q := pkt.request ContactMessageRequest
    ∀ m, s.db.getMessage (s.getUserIdByToken q.token) q.id q.internalid = some m → m.id = -1
  | _ => True

end

/-- **Malformed content is not executed** if and only if the state has the request, with
the fields that were parsed and the defaults for the others, come to nothing. -/
theorem malformed_not_executed (hm : pkt.malformed = true) :
    NotExecuted SHA256 s fd pkt ↔ ComesToNothing SHA256 s pkt := by
  unfold Packet.malformed at hm
  split at hm
  case h_9 => cases hm
  all_goals rename_i heq
  · rw [notExecuted_iff (handler_register (PacketType.cast_eq_some.mp heq)), ComesToNothing, heq]
    exact ignores_register SHA256 s fd pkt
  · rw [notExecuted_iff (handler_loginPre (PacketType.cast_eq_some.mp heq)), ComesToNothing, heq]
    exact ignores_loginPre SHA256 s fd pkt
  · rw [notExecuted_iff (handler_login (PacketType.cast_eq_some.mp heq)), ComesToNothing, heq]
    exact ignores_login SHA256 s fd pkt
  · rw [notExecuted_iff (handler_setupChannel (PacketType.cast_eq_some.mp heq)), ComesToNothing, heq]
    exact iff_of_false (ignores_setupChannel SHA256 s fd pkt) id
  · rw [notExecuted_iff (handler_sendMessage (PacketType.cast_eq_some.mp heq)), ComesToNothing, heq]
    exact ignores_sendMessage SHA256 s fd pkt
  · rw [notExecuted_iff (handler_fileUpload (PacketType.cast_eq_some.mp heq)), ComesToNothing, heq]
    exact ignores_fileUpload SHA256 s fd pkt
  · rw [notExecuted_iff (handler_fileDownload (PacketType.cast_eq_some.mp heq)), ComesToNothing, heq]
    exact ignores_fileDownload SHA256 s fd pkt
  · rw [notExecuted_iff (handler_contactMessage (PacketType.cast_eq_some.mp heq)), ComesToNothing, heq]
    exact ignores_contactMessage SHA256 s fd pkt

namespace Example

/-- A packet of type `t` with no content. -/
def blank (t : PacketType) : Packet := ⟨t.val, none⟩

end Example

/-- A `SetupChannelRequest` with no content is acknowledged. -/
theorem not_notExecuted : ¬ ∀ SHA256 c fd pkt, Reachable SHA256 c → pkt.malformed = true →
    NotExecuted SHA256 c.state fd pkt := by
  intro h
  have hblank := h Example.SHA256 _ 5 (Example.blank .SetupChannelRequest) .init (by decide)
  rw [notExecuted_iff (handler_setupChannel rfl)] at hblank
  exact ignores_setupChannel _ _ _ _ hblank

/-- A `LoginPreRequest` with no content, for there is no user without a name. -/
theorem malformed_not_executed_loginPre :
    (NotExecuted Example.SHA256 State.initial 5 (Example.blank .LoginPreRequest) ↔
        ComesToNothing Example.SHA256 State.initial (Example.blank .LoginPreRequest)) ∧
      ComesToNothing Example.SHA256 State.initial (Example.blank .LoginPreRequest) :=
  ⟨malformed_not_executed (by decide), rfl⟩

end NetChat
