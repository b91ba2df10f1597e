/-
The end of a connection. `processRecvSocket` returns at once when its read gave
no packet: it lets go of the descriptor when the reply fails, and not when the
client is gone. The accepting thread would, but an orderly shutdown is reported
as readable.
-/
import NetChat.Epoll
import NetChat.Authorised

namespace NetChat

open Interleave Prog Server

variable {SHA256 : Bytes → Bytes} {ok : Config → Event → Prop} {c c' : Config} {e : Event} {l : List Entry}
  {fd : Int32} {conn : Conn}

/-- A worker's read finds the connection on `fd`, which is no channel, ended or fails. -/
structure FindsEnd (c : Config) (e : Event) (fd : Int32) (conn : Conn) : Prop where
  worker : ∃ i, e.tid = .worker i
  read : e.act = ⟨.Recv fd, .eof⟩ ∨ e.act = ⟨.Recv fd, .failed⟩
  client : c.state.fds fd = some conn
  plain : ∀ u snd, c.state.keepalive_sender_mp u = some snd → snd.fd_ ≠ fd

/-- The connection's descriptor is closed, which also takes it out of the epoll set,
and was closed once. -/
structure Released (c : Config) (fd : Int32) (conn : Conn) : Prop where
  closed : c.state.fds fd ≠ some conn
  once : ∃ later g earlier, c.history = later ++ g :: earlier ∧ g.act = ⟨.close fd, some conn⟩ ∧
    ∀ g' ∈ later ++ earlier, g'.act ≠ ⟨.close fd, some conn⟩

/-- When the call that made the step `e`, which led to `c'`, has returned, the
connection is released. -/
def ReleasedOnReturn (SHA256 : Bytes → Bytes) (e : Event) (c' : Config) (fd : Int32) (conn : Conn) : Prop :=
  ∀ c₂ later, (server SHA256).Steps (fun _ _ => True) c' c₂ → c₂.history = later ++ c'.history →
    Machine.SameTurn e.tid later → (c₂.threads e.tid).log = [] → Released c₂ fd conn

/-- A read that gives no packet is the last step of its turn. -/
theorem recv_returns {out : RecvOut} (h : (server SHA256).ReachableWhen ok State.initial c)
    (hs : (server SHA256).Step c e c') (ht : ∃ i, e.tid = .worker i) (hx : e.act = ⟨.Recv fd, out⟩)
    (hout : ∀ conn n pkt, out ≠ .packet conn n pkt) : (c'.threads e.tid).log = [] := by
  obtain ⟨i, ht⟩ := ht
  have hi := hs.issues h
  have hturn := hs.turn h
  rw [hx, ht] at hi
  rw [hx, worker_issues_recv hi, ht] at hturn
  rcases hturn with ⟨-, hrun⟩ | ⟨hlog, -⟩
  · refine absurd ?_ hrun
    have hreturn : (processRecvSocket SHA256 fd).Runs [⟨.Recv fd, out⟩] () := by
      simp only [processRecvSocket, bind_eq, pure_eq, op_bind, ret_bind]
      refine .cons ?_
      cases out with
      | packet conn n pkt => exact absurd rfl (hout conn n pkt)
      | _ => exact .nil
    exact .cons hreturn
  · rw [ht]
    exact hlog

/-- The call returns and leaves the descriptor as it was. -/
theorem FindsEnd.left_open (hf : FindsEnd c e fd conn) (h : (server SHA256).ReachableWhen ok State.initial c)
    (hs : (server SHA256).Step c e c') :
    (c'.threads e.tid).log = [] ∧ c'.state.fds fd = some conn ∧ c'.state.epoll fd = c.state.epoll fd := by
  obtain ⟨out, hx, hout⟩ : ∃ out, e.act = ⟨.Recv fd, out⟩ ∧ ∀ conn n pkt, out ≠ .packet conn n pkt := by
    rcases hf.read with hx | hx <;> exact ⟨_, hx, by simp⟩
  have hkeep := State.step_unchanged hs.state
  rw [hx] at hkeep
  refine ⟨recv_returns h hs hf.worker hx hout, ?_, by rw [hkeep.epoll (by simp [Op.part])]⟩
  rw [hkeep.fds (by simp [Op.part]), hf.client]

/-- **No connection is released by the read that finds it ended.** -/
theorem ended_not_released (h : Reachable SHA256 c) (hs : (server SHA256).Step c e c') (hf : FindsEnd c e fd conn) :
    (c'.threads e.tid).log = [] ∧ c'.state.fds fd = some conn ∧ c'.state.epoll fd = c.state.epoll fd ∧
      ¬ ReleasedOnReturn SHA256 e c' fd conn := by
  obtain ⟨hlog, hfds, hepoll⟩ := hf.left_open h hs
  refine ⟨hlog, hfds, hepoll, fun hreleased => ?_⟩
  exact (hreleased c' [] .refl rfl (by simp [Machine.SameTurn]) hlog).closed hfds

/-! ## A client that goes away -/

namespace Example

/-- A client connects and shuts its end down, of which worker 0 is told. -/
def goesAway : Schedule := connects 5 ++ arrives 5 ++ [(.worker 0, ⟨.popRecvSocket, 5⟩)]

/-- Worker 0 reads the end of the stream. -/
theorem exists_findsEnd : ∃ c e c', Reachable Example.SHA256 c ∧ (server Example.SHA256).Step c e c' ∧
    FindsEnd c e 5 0 ∧ c.state.epoll 5 = true := by
  obtain ⟨c, hr, hhist, hfds, hepoll, hexec⟩ := reachable_of_run Example.SHA256 goesAway
    (fun c => (∀ e ∈ c.history, e.act.op.part ≠ some .keepalive_sender_mp) ∧ c.state.fds 5 = some 0 ∧
      c.state.epoll 5 = true ∧ ((server Example.SHA256).exec c (.worker 0) ⟨.Recv 5, .eof⟩).isSome) (by decide +kernel)
  obtain ⟨c', hexec⟩ := Option.isSome_iff_exists.mp hexec
  refine ⟨c, _, c', hr, Machine.exec_step hexec, ⟨⟨0, rfl⟩, .inl rfl, hfds, fun u snd hsnd => ?_⟩, hepoll⟩
  obtain ⟨g, hg, ho⟩ := sender_given hr hsnd
  exact absurd (by rw [ho]; rfl) (hhist g hg)

end Example

/-- The connection of a client that went away stays open. -/
theorem not_releasedOnReturn : ¬ ∀ SHA256 c e c' fd conn, Reachable SHA256 c → (server SHA256).Step c e c' →
    FindsEnd c e fd conn → ReleasedOnReturn SHA256 e c' fd conn := by
  intro h
  obtain ⟨c, e, c', hr, hs, hf, -⟩ := Example.exists_findsEnd
  obtain ⟨hlog, hfds, -⟩ := hf.left_open hr hs
  exact (h _ c e c' 5 0 hr hs hf c' [] .refl rfl (by simp [Machine.SameTurn]) hlog).closed hfds

theorem ended_not_released_client : ∃ c e c', (server Example.SHA256).Step c e c' ∧ e.act.op = .Recv 5 ∧
    c'.state.fds 5 = some 0 ∧ c'.state.epoll 5 = true ∧ ¬ ReleasedOnReturn Example.SHA256 e c' 5 0 := by
  obtain ⟨c, e, c', hr, hs, hf, hepoll⟩ := Example.exists_findsEnd
  obtain ⟨-, hfds, hsame, hnot⟩ := ended_not_released hr hs hf
  exact ⟨c, e, c', hs, by rcases hf.read with hx | hx <;> rw [hx], hfds, hsame.trans hepoll, hnot⟩

end NetChat
