/-
A request handled alone. Between two steps of a worker the other threads may do
anything; what a request itself does to the state is what it does when none of
them moves.
-/
import NetChat.Frames
import NetChat.Turns

namespace NetChat

open Interleave Prog Server

variable {SHA256 : Bytes → Bytes} {s s' : State} {l : List Entry} {fd : Int32} {pkt p : Packet}

/-- A worker that received `pkt` on `fd` answers `p` and returns, having done `l`, from
`s` to `s'`. -/
def Handled (SHA256 : Bytes → Bytes) (s : State) (fd : Int32) (pkt p : Packet) (l : List Entry) (s' : State) : Prop :=
  ∃ hd reply l₁ l₂, handler SHA256 fd pkt = some hd ∧ hd.Runs l₁ reply ∧ reply.1 = p ∧
    (respond fd reply).Runs l₂ () ∧ l = l₁ ++ l₂ ∧ (server SHA256).stepAll s l = some s'

/-- A reply without a callback, once it is sent, ends the turn. -/
theorem Handled.answered {hd : Code Reply} {out : SendOut} (hh : handler SHA256 fd pkt = some hd)
    (hrun : hd.Runs l (p, none)) (hc : p.content.isSome = true) (hok : out.ok = true)
    (hsteps : (server SHA256).stepAll s (l ++ [⟨.Send fd p, out⟩]) = some s') :
    Handled SHA256 s fd pkt p (l ++ [⟨.Send fd p, out⟩]) s' := by
  refine ⟨hd, (p, none), l, [⟨.Send fd p, out⟩], hh, hrun, rfl, ?_, rfl, hsteps⟩
  simp only [respond, hc, if_true, bind_eq, op_bind, ret_bind]
  refine .cons ?_
  rw [if_pos hok]
  exact .nil

/-! ## What a request looks up -/

theorem stepAll_token {token : Bytes} {uid : Int32}
    (h : (server SHA256).stepAll s (⟨.getUserIdByToken token, uid⟩ :: l) = some s') :
    uid = s.getUserIdByToken token ∧ (server SHA256).stepAll s l = some s' := by
  simp only [Machine.stepAll_cons, server, State.step, Option.ite_none_right_eq_some, Option.some.injEq] at h
  obtain ⟨_, ⟨huid, rfl⟩, h⟩ := h
  exact ⟨huid, h⟩

theorem stepAll_user {id : Int32} {u : Option User}
    (h : (server SHA256).stepAll s (⟨.getUserById id, .ok u⟩ :: l) = some s') :
    u = s.db.getUserById id ∧ (server SHA256).stepAll s l = some s' := by
  simp only [Machine.stepAll_cons, server, State.step, State.query_eq_some, Except.ok.injEq, forall_eq'] at h
  obtain ⟨_, ⟨rfl, huser⟩, h⟩ := h
  exact ⟨huser, h⟩

theorem stepAll_row {id : Bytes} {row : Option FileStorage}
    (h : (server SHA256).stepAll s (⟨.getFile id, .ok row⟩ :: l) = some s') :
    row = s.db.getFile id ∧ (server SHA256).stepAll s l = some s' := by
  simp only [Machine.stepAll_cons, server, State.step, State.query_eq_some, Except.ok.injEq, forall_eq'] at h
  obtain ⟨_, ⟨rfl, hrow⟩, h⟩ := h
  exact ⟨hrow, h⟩

theorem stepAll_exists {id : Bytes} {found? : Bool}
    (h : (server SHA256).stepAll s (⟨.checkDiskExistence id, found?⟩ :: l) = some s') :
    found? = (s.disk id).isSome ∧ (server SHA256).stepAll s l = some s' := by
  simp only [Machine.stepAll_cons, server, State.step, Option.ite_none_right_eq_some, Option.some.injEq] at h
  obtain ⟨_, ⟨hfound, rfl⟩, h⟩ := h
  exact ⟨hfound, h⟩

/-! ## What several operations leave -/

theorem Unchanged.trans {part : Option Part} {s'' : State} (h : Unchanged part s s') (h' : Unchanged part s' s'') :
    Unchanged part s s'' where
  users hp := (h'.users hp).trans (h.users hp)
  messages hp := (h'.messages hp).trans (h.messages hp)
  files hp := (h'.files hp).trans (h.files hp)
  db h₁ h₂ h₃ := (h'.db h₁ h₂ h₃).trans (h.db h₁ h₂ h₃)
  disk hp := (h'.disk hp).trans (h.disk hp)
  challenge_pool hp := (h'.challenge_pool hp).trans (h.challenge_pool hp)
  keepalive_sender_mp hp := (h'.keepalive_sender_mp hp).trans (h.keepalive_sender_mp hp)
  token_pool hp := (h'.token_pool hp).trans (h.token_pool hp)
  file_msg_pool hp := (h'.file_msg_pool hp).trans (h.file_msg_pool hp)
  RecvSocketQueue hp := (h'.RecvSocketQueue hp).trans (h.RecvSocketQueue hp)
  fds hp := (h'.fds hp).trans (h.fds hp)
  epoll hp := (h'.epoll hp).trans (h.epoll hp)
  accepted hp := (h'.accepted hp).trans (h.accepted hp)

theorem Unchanged.of_none {part : Option Part} (h : Unchanged none s s') : Unchanged part s s' where
  users _ := h.users nofun
  messages _ := h.messages nofun
  files _ := h.files nofun
  db _ _ _ := h.db nofun nofun nofun
  disk _ := h.disk nofun
  challenge_pool _ := h.challenge_pool nofun
  keepalive_sender_mp _ := h.keepalive_sender_mp nofun
  token_pool _ := h.token_pool nofun
  file_msg_pool _ := h.file_msg_pool nofun
  RecvSocketQueue _ := h.RecvSocketQueue nofun
  fds _ := h.fds nofun
  epoll _ := h.epoll nofun
  accepted _ := h.accepted nofun

/-- Operations that change one part at most leave the others. -/
theorem stepAll_unchanged {part : Option Part} (h : (server SHA256).stepAll s l = some s')
    (hl : ∀ x ∈ l, x.op.part = none ∨ x.op.part = part) : Unchanged part s s' := by
  refine Machine.stepAll_preserves (Unchanged part s) h (fun s₁ x s₂ hx hs hi => hi.trans ?_) .refl
  have hstep := State.step_unchanged hs
  rcases hl x hx with hnone | hpart
  · rw [hnone] at hstep
    exact hstep.of_none
  · rwa [hpart] at hstep

/-- A reply without a callback ends in the reply, or in the end of the connection. -/
theorem respond_quiet (hc : p.content.isSome = true) (h : (respond fd (p, none)).Runs l ()) :
    ∀ x ∈ l, x.op.part = none ∨ x.op.part = some .descriptors := by
  obtain ⟨out, rest, rfl, hsent, hfailed⟩ := respond_runs hc h
  cases hok : out.ok with
  | true =>
    rw [(hsent hok).2 rfl]
    simp [Op.part]
  | false =>
    obtain ⟨conn, rfl⟩ := hfailed hok
    simp [Op.part]

end NetChat
