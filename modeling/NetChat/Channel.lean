/-
The channel of a user. `setFd` gives the sender the descriptor the last
`SetupChannelRequest` with a token of the user came on, and from then on the
sender sends to that number whatever connection it names. The number stays
that connection's while nobody closes it, and the sender should leave it
alone once it closed it itself; `run` does not, as its `break`s are commented
out.
-/
import NetChat.Frames
import NetChat.Turns

namespace NetChat

open Interleave Prog Server

variable {SHA256 : Bytes → Bytes} {ok : Config → Event → Prop} {c c' : Config} {e : Event} {u : Int32}

/-! ## Since the channel was set up -/

/-- `e` is the step by which a `SetupChannelRequest` with a token of `u`, received
on the connection `conn`, gives its descriptor `fd` to the sender of `u`. -/
def Installs (u fd : Int32) (conn : Conn) (e : Event) : Prop :=
  ∃ i n pkt l, e.tid = .worker i ∧ pkt.packetid = PacketType.val .SetupChannelRequest ∧
    e.pre = received fd conn n pkt ++ ⟨.getUserIdByToken (pkt.request SetupChannelRequest).token, u⟩ :: l ∧
    e.act.op = .setFd u fd

/-- An event with `P` happened, and the sender of `u` got no descriptor after it. -/
def SinceSetFd (u : Int32) (P : Event → Prop) (h : List Event) : Prop :=
  ∃ later x earlier, h = later ++ x :: earlier ∧ P x ∧ ∀ y ∈ later, ∀ fd, y.act.op ≠ .setFd u fd

/-- The connection that most recently ran a `SetupChannelRequest` with a token of `u`. -/
def ChannelOf (u : Int32) (conn : Conn) (h : List Event) : Prop :=
  SinceSetFd u (fun g => ∃ fd, Installs u fd conn g) h

/-- The sender of `u` issues `CLOSE_FD`. -/
def OwnClose (u : Int32) (e : Event) : Prop := e.tid = .sender u ∧ ∃ fd, e.act.op = .close fd

theorem sinceSetFd_cons {P : Event → Prop} {h : List Event} :
    SinceSetFd u P (e :: h) ↔ P e ∨ (∀ fd, e.act.op ≠ .setFd u fd) ∧ SinceSetFd u P h := by
  constructor
  · rintro ⟨later, x, earlier, hh, hx, hlater⟩
    cases later with
    | nil =>
      simp only [List.nil_append, List.cons.injEq] at hh
      exact .inl (hh.1 ▸ hx)
    | cons y later =>
      simp only [List.cons_append, List.cons.injEq] at hh
      obtain ⟨rfl, rfl⟩ := hh
      exact .inr ⟨hlater e (by simp), later, x, earlier, rfl, hx, fun y hy => hlater y (by simp [hy])⟩
  · rintro (he | ⟨hne, later, x, earlier, rfl, hx, hlater⟩)
    · exact ⟨[], e, h, rfl, he, by simp⟩
    · refine ⟨e :: later, x, earlier, rfl, hx, fun y hy => ?_⟩
      rcases List.mem_cons.mp hy with rfl | hy
      · exact hne
      · exact hlater y hy

theorem setFd_installs {s : State} (hr : (server SHA256).ReachableWhen ok s c) (hs : (server SHA256).Step c e c')
    {fd : Int32} (ho : e.act.op = .setFd u fd) :
    ∃ i conn n pkt l, e.tid = .worker i ∧ pkt.packetid = PacketType.val .SetupChannelRequest ∧
      e.pre = received fd conn n pkt ++ l ∧ (∀ x ∈ l, x.op ≠ .close fd ∧ ∀ u fd', x.op ≠ .setFd u fd') ∧
      Installs u fd conn e := by
  have hi := hs.issues hr
  rw [ho] at hi
  obtain ⟨i, ht, fd', conn, n, pkt, hd, reply, cb, l₁, l₂, out, hl, hp, hh, hrun, -, hcb, hi⟩ :=
    issues_callback hi rfl (by simp)
  rw [handler_setupChannel hp] at hh
  cases hh
  obtain ⟨uid, rfl, hreply⟩ := onSetupChannelRequest_runs hrun
  subst hreply
  cases hcb
  have hstep := setupChannel_issues hi
  generalize hop : Op.setFd u fd = o at hstep
  cases hstep <;> cases hop
  exact ⟨i, conn, n, pkt, _, ht, hp, hl, by simp, i, n, pkt, _, ht, hp, hl, ho⟩

/-- Once the sender of `u` got a descriptor, it has a channel. -/
theorem setFd_channel {s : State} (hr : (server SHA256).ReachableWhen ok s c) {g : Event} (hg : g ∈ c.history)
    {fd : Int32} (ho : g.act.op = .setFd u fd) : ∃ conn, ChannelOf u conn c.history := by
  refine hr.invariant (fun c => ∀ g ∈ c.history, ∀ fd, g.act.op = .setFd u fd → ∃ conn, ChannelOf u conn c.history)
    (by simp [Machine.init]) (fun c e c' hr hi hs _ g hg fd ho => ?_) g hg fd ho
  rw [hs.history] at hg ⊢
  by_cases hset : ∃ fd, e.act.op = .setFd u fd
  · obtain ⟨fd', ho'⟩ := hset
    obtain ⟨i, conn, n, pkt, l, -, -, -, -, hin⟩ := setFd_installs hr hs ho'
    exact ⟨conn, sinceSetFd_cons.mpr (.inl ⟨fd', hin⟩)⟩
  · rcases List.mem_cons.mp hg with rfl | hg
    · exact absurd ⟨fd, ho⟩ hset
    · obtain ⟨conn, hchan⟩ := hi g hg fd ho
      exact ⟨conn, sinceSetFd_cons.mpr (.inr ⟨fun fd ho => hset ⟨fd, ho⟩, hchan⟩)⟩

/-- A packet came from `conn` on the descriptor `fd`, which nobody closed after that. -/
def Unclosed (fd : Int32) (conn : Conn) (h : List Event) : Prop :=
  ∃ later g earlier n pkt, h = later ++ g :: earlier ∧ g.act = ⟨.Recv fd, .packet conn n pkt⟩ ∧
    ∀ x ∈ later, x.act.op ≠ .close fd

/-- Such a descriptor names the connection. -/
theorem Unclosed.fds {s : State} (hr : (server SHA256).ReachableWhen ok s c) {fd : Int32} {conn : Conn}
    (h : Unclosed fd conn c.history) : c.state.fds fd = some conn := by
  refine hr.invariant (fun c => Unclosed fd conn c.history → c.state.fds fd = some conn) ?_
    (fun c e c' _ hi hs _ h => ?_) h
  · rintro ⟨later, g, earlier, n, pkt, hh, -⟩
    simp [Machine.init] at hh
  · obtain ⟨later, g, earlier, n, pkt, hh, hact, hno⟩ := h
    rw [hs.history] at hh
    cases later with
    | nil =>
      simp only [List.nil_append, List.cons.injEq] at hh
      obtain ⟨rfl, -⟩ := hh
      have hrecv := hs.state
      rw [hact] at hrecv
      simp only [server, State.step, State.recv, Option.ite_none_right_eq_some, Option.some.injEq] at hrecv
      rw [← hrecv.2]
      exact hrecv.1.1
    | cons x later =>
      simp only [List.cons_append, List.cons.injEq] at hh
      obtain ⟨rfl, hh⟩ := hh
      exact step_fds hs.state (hno e (by simp))
        (hi ⟨later, g, earlier, n, pkt, hh, hact, fun x hx => hno x (List.mem_cons_of_mem _ hx)⟩)

/-! ## Runs that keep channels apart -/

/-- Worker `i` handles a `SetupChannelRequest` received on `fd`, and has neither
closed the descriptor nor given it to a sender. -/
def SettingUp (c : Config) (i : Nat) (fd : Int32) (conn : Conn) : Prop :=
  ∃ n pkt l, pkt.packetid = PacketType.val .SetupChannelRequest ∧
    (c.threads (.worker i)).log = received fd conn n pkt ++ l ∧ ∀ x ∈ l, x.op ≠ .close fd ∧ ∀ u fd', x.op ≠ .setFd u fd'

/-- The condition on a step of the runs below: no `Send` of a sender fails; a
sender whose `CLOSE_FD` followed a failed `Recv` starts on no packet before its
next `setFd`; and no other thread closes a descriptor that is a sender's channel,
or is about to be. -/
structure ChannelKept (c : Config) (e : Event) : Prop where
  sent : ∀ u fd pkt out, e.tid = .sender u → e.act = ⟨.Send fd pkt, out⟩ → out.ok = true
  reopened : ∀ u, e.act.op = .lock u → ¬ SinceSetFd u (OwnClose u) c.history
  channel : ∀ fd u snd, e.act.op = .close fd → e.tid ≠ .sender u → c.state.keepalive_sender_mp u = some snd →
    snd.fd_ = fd → SinceSetFd u (OwnClose u) c.history
  settingUp : ∀ fd i conn, e.act.op = .close fd → e.tid ≠ .worker i → ¬ SettingUp c i fd conn

/-- What a `SetupChannelRequest` was received on stays open until `setFd`. -/
theorem settingUp_open (h : ReachableWhen SHA256 ChannelKept c) {i : Nat} {fd : Int32} {conn : Conn}
    (hset : SettingUp c i fd conn) : c.state.fds fd = some conn := by
  refine h.invariant (fun c => ∀ i fd conn, SettingUp c i fd conn → c.state.fds fd = some conn) ?_ ?_ i fd conn hset
  · rintro i fd conn ⟨n, pkt, l, -, hl, -⟩
    simp [Machine.init, received] at hl
  rintro c e c' hr ih hs hk i fd conn ⟨n, pkt, l, hp, hl, hno⟩
  by_cases ht : .worker i = e.tid
  · rcases hs.self with hl' | hl'
    · rw [← ht, hl] at hl'
      have hlog := hs.log
      rw [← ht] at hlog
      rcases List.eq_nil_or_concat l with rfl | ⟨l, y, rfl⟩
      · -- the packet was received in this step
        rw [List.append_nil, received, ← List.singleton_append] at hl'
        obtain ⟨-, hact⟩ := List.append_inj' hl' rfl
        have hrecv := hs.state
        rw [← List.singleton_inj.mp hact] at hrecv
        simp only [server, State.step, State.recv, Option.ite_none_right_eq_some, Option.some.injEq] at hrecv
        rw [← hrecv.2]
        exact hrecv.1.1
      · rw [List.concat_eq_append, ← List.append_assoc] at hl'
        obtain ⟨hpre, hact⟩ := List.append_inj' hl' rfl
        cases hact
        exact step_fds hs.state (hno e.act (by simp)).1
          (ih i fd conn ⟨n, pkt, l, hp, by rw [hlog, ← hpre], fun x hx => hno x (by simp [hx])⟩)
    · rw [← ht, hl] at hl'
      simp [received] at hl'
  · rw [hs.other ht] at hl
    have hset : SettingUp c i fd conn := ⟨n, pkt, l, hp, hl, hno⟩
    exact step_fds hs.state (fun ho => hk.settingUp fd i conn ho (Ne.symm ht) hset) (ih i fd conn hset)

/-- The descriptor of a sender names its channel until the sender closes it. -/
theorem sender_open (h : ReachableWhen SHA256 ChannelKept c) {snd : Sender}
    (hsnd : c.state.keepalive_sender_mp u = some snd) :
    ∃ conn, ChannelOf u conn c.history ∧
      (¬ SinceSetFd u (OwnClose u) c.history → c.state.fds snd.fd_ = some conn) := by
  refine h.invariant (fun c => ∀ u snd, c.state.keepalive_sender_mp u = some snd → ∃ conn,
    ChannelOf u conn c.history ∧ (¬ SinceSetFd u (OwnClose u) c.history → c.state.fds snd.fd_ = some conn))
    (by intro u snd hsnd; cases hsnd) ?_ u snd hsnd
  intro c e c' hr ih hs hk u snd' hsnd'
  rw [hs.history]
  rcases step_sender_fd hs.state hsnd' with ho | ⟨hne, snd, hsnd, hfd⟩
  · obtain ⟨i, conn, n, pkt, l, ht, hp, hl, hno, hin⟩ := setFd_installs hr hs ho
    refine ⟨conn, sinceSetFd_cons.mpr (.inl ⟨_, hin⟩), fun _ => ?_⟩
    have hlog := hs.log
    rw [ht, hl] at hlog
    exact step_fds hs.state (by rw [ho]; simp) (settingUp_open hr ⟨n, pkt, l, hp, hlog, hno⟩)
  · obtain ⟨conn, hchan, hopen⟩ := ih u snd hsnd
    refine ⟨conn, sinceSetFd_cons.mpr (.inr ⟨hne, hchan⟩), fun hown => ?_⟩
    rw [sinceSetFd_cons, not_or] at hown
    have hown' : ¬ SinceSetFd u (OwnClose u) c.history := fun h => hown.2 ⟨hne, h⟩
    rw [← hfd]
    refine step_fds hs.state (fun ho => ?_) (hopen hown')
    by_cases ht : e.tid = .sender u
    · exact hown.1 ⟨ht, _, ho⟩
    · exact hown' (hk.channel _ u snd ho ht hsnd rfl)

/-- The sender of `u` has its lock and works on `fd`. It has closed its channel only if
that is among `l`. -/
def AtWork (u fd : Int32) (l : List Entry) (c : Config) : Prop :=
  ∃ snd, c.state.keepalive_sender_mp u = some snd ∧ snd.locked = true ∧ snd.fd_ = fd ∧
    (SinceSetFd u (OwnClose u) c.history → ∃ x ∈ l, x.op = .close fd)

/-- It is when it took the lock. -/
theorem atWork_lock (hs : (server SHA256).Step c e c') (hk : ChannelKept c e) {fd : Int32}
    (hx : e.act = ⟨.lock u, fd⟩) : AtWork u fd [] c' := by
  have hch := step_sender hs.state u
  rw [hx] at hch
  rw [AtWork, hs.history, sinceSetFd_cons]
  generalize c.state.keepalive_sender_mp u = was at hch
  generalize c'.state.keepalive_sender_mp u = is at hch
  cases hch with
  | other hne => exact absurd rfl hne
  | lock =>
    refine ⟨_, rfl, rfl, rfl, fun hsince => ?_⟩
    rcases hsince with ⟨-, fd, hclose⟩ | ⟨-, hsince⟩
    · rw [hx] at hclose
      cases hclose
    · exact absurd hsince (hk.reopened u (by rw [hx]))

/-- Its own steps keep it so, a close among them. -/
theorem AtWork.own {fd : Int32} {l : List Entry} {pkt : Packet} (hw : AtWork u fd l c)
    (hs : (server SHA256).Step c e c') (hop : e.act.op = .Send fd pkt ∨ e.act.op = .close fd ∨ e.act.op = .Recv fd) :
    AtWork u fd (l ++ [e.act]) c' := by
  obtain ⟨snd, hsnd, hlocked, hfd, hown⟩ := hw
  have hsame : c'.state.keepalive_sender_mp u = c.state.keepalive_sender_mp u :=
    step_sender_other hs.state (by rcases hop with ho | ho | ho <;> rw [ho] <;> simp [Op.sender])
  rw [AtWork, hs.history, sinceSetFd_cons]
  refine ⟨snd, by rw [hsame, hsnd], hlocked, hfd, fun hsince => ?_⟩
  rcases hsince with ⟨-, fd', hclose⟩ | ⟨-, hsince⟩
  · refine ⟨e.act, by simp, ?_⟩
    rcases hop with ho | ho | ho
    · rw [ho] at hclose; cases hclose
    · exact ho
    · rw [ho] at hclose; cases hclose
  · obtain ⟨x, hx, hxo⟩ := hown hsince
    exact ⟨x, by simp [hx], hxo⟩

/-- The other threads leave it so: `setFd` waits for the lock. -/
theorem AtWork.other {fd : Int32} {l : List Entry} (hw : AtWork u fd l c)
    (hr : (server SHA256).ReachableWhen ok State.initial c) (hs : (server SHA256).Step c e c') (ht : e.tid ≠ .sender u) :
    AtWork u fd l c' := by
  obtain ⟨snd, hsnd, hlocked, hfd, hown⟩ := hw
  have hch := step_sender hs.state u
  have hclosed : SinceSetFd u (OwnClose u) c'.history → ∃ x ∈ l, x.op = .close fd := by
    rw [hs.history, sinceSetFd_cons]
    rintro (⟨htid, -⟩ | ⟨-, hsince⟩)
    · exact absurd htid ht
    · exact hown hsince
  have hno : e.act.op.ownSender ≠ some u := fun ho => ht (issues_ownSender (hs.issues hr) ho)
  have hkept : ∃ snd', c'.state.keepalive_sender_mp u = some snd' ∧ snd'.locked = true ∧ snd'.fd_ = fd := by
    rw [hsnd] at hch
    generalize e.act = x at hch hno
    generalize c'.state.keepalive_sender_mp u = is at hch
    cases hch with
    | other => exact ⟨snd, rfl, hlocked, hfd⟩
    | setFd hunlocked => rw [hlocked] at hunlocked; cases hunlocked
    | clear | pushed => exact ⟨_, rfl, hlocked, hfd⟩
    | popped | lock | unlock => exact absurd rfl hno
  obtain ⟨snd', hsnd', hlocked', hfd'⟩ := hkept
  exact ⟨snd', hsnd', hlocked', hfd', hclosed⟩

/-- Between its `lock` and its `unlock` a sender works on its descriptor. -/
theorem sender_holds (h : ReachableWhen SHA256 ChannelKept c) {pkt : Packet} {fd : Int32} {l : List Entry}
    (hl : (c.threads (.sender u)).log = held u pkt fd ++ l) (hno : ∀ x ∈ l, x.op ≠ .unlock u) : AtWork u fd l c := by
  refine h.invariant (fun c => ∀ u pkt fd l, (c.threads (.sender u)).log = held u pkt fd ++ l →
    (∀ x ∈ l, x.op ≠ .unlock u) → AtWork u fd l c)
    (by intro u pkt fd l hl; simp [Machine.init, held] at hl) ?_ u pkt fd l hl hno
  intro c e c' hr ih hs hk u pkt fd l hl hno
  by_cases ht : .sender u = e.tid
  · rcases hs.self with hl' | hl'
    · rw [← ht, hl] at hl'
      rcases List.eq_nil_or_concat l with rfl | ⟨l, y, rfl⟩
      · rw [List.append_nil, held, ← List.singleton_append] at hl'
        obtain ⟨-, hact⟩ := List.append_inj' hl' rfl
        exact atWork_lock hs hk (List.singleton_inj.mp hact).symm
      · rw [List.concat_eq_append, ← List.append_assoc] at hl'
        obtain ⟨hpre, hact⟩ := List.append_inj' hl' rfl
        cases hact
        have hlog := hs.log
        rw [← ht, ← hpre] at hlog
        have hw : AtWork u fd l c := ih u pkt fd l hlog fun x hx => hno x (by simp [hx])
        have hi := hs.issues hr
        rw [← ht, ← hpre] at hi
        have hop : e.act.op = .Send fd pkt ∨ e.act.op = .close fd ∨ e.act.op = .Recv fd := by
          rcases (sender_issues hi).of_held with ho | ho | ho | ho
          · exact .inl ho
          · exact .inr (.inl ho)
          · exact .inr (.inr ho)
          · exact absurd ho (hno e.act (by simp))
        rw [List.concat_eq_append]
        exact hw.own hs hop
    · rw [← ht, hl] at hl'
      simp [held] at hl'
  · rw [hs.other ht] at hl
    exact (ih u pkt fd l hl hno).other hr hs (Ne.symm ht)

/-! ## Isolation -/

/-- The step `e` keeps to the channel: what the sender of `u` sends goes to, and
what it closes is, the connection that most recently ran a `SetupChannelRequest`
with a token of `u`; and it leaves its descriptor alone once it closed it. -/
structure Isolated (c : Config) (e : Event) : Prop where
  sends : ∀ u fd pkt out, e.tid = .sender u → e.act = ⟨.Send fd pkt, out⟩ →
    ∃ conn, out.conn = some conn ∧ ChannelOf u conn c.history
  closes : ∀ u fd closed, e.tid = .sender u → e.act = ⟨.close fd, closed⟩ →
    ∃ conn, closed = some conn ∧ ChannelOf u conn c.history
  closed : ∀ u fd, e.tid = .sender u → (∃ pkt, e.act.op = .Send fd pkt) ∨ e.act.op = .Recv fd ∨ e.act.op = .close fd →
    ¬ SinceSetFd u (OwnClose u) c.history

/-- When a sender uses its descriptor, it has not closed it, and the descriptor
names the channel. -/
theorem sender_on_channel (h : ReachableWhen SHA256 ChannelKept c) (hs : (server SHA256).Step c e c')
    (ht : e.tid = .sender u) {fd : Int32}
    (ho : (∃ pkt, e.act.op = .Send fd pkt) ∨ e.act.op = .Recv fd ∨ e.act.op = .close fd) :
    ¬ SinceSetFd u (OwnClose u) c.history ∧ ∃ conn, c.state.fds fd = some conn ∧ ChannelOf u conn c.history := by
  have hi := hs.issues h
  rw [ht] at hi
  obtain ⟨pkt, l, hl, hno, hclose⟩ := (sender_issues hi).on_fd ho
  have hlog := hs.log
  rw [ht, hl] at hlog
  obtain ⟨snd, hsnd, -, rfl, hown⟩ := sender_holds h hlog hno
  have hopen : ¬ SinceSetFd u (OwnClose u) c.history := by
    intro hsince
    obtain ⟨x, hx, hxo⟩ := hown hsince
    rcases hclose with hclose | ⟨out, hout, hok⟩
    · exact hclose x hx hxo
    · obtain ⟨g, hg, hgt, hgact⟩ := h.log_mem_history (t := .sender u) (x := ⟨.Send snd.fd_ pkt, out⟩)
        (by rw [hlog]; simp [hout])
      obtain ⟨c₁, c₂, -, -, hk₁, -⟩ := h.event_mem hg
      rw [hk₁.sent u _ _ _ hgt hgact] at hok
      cases hok
  obtain ⟨conn, hchan, hfds⟩ := sender_open h hsnd
  exact ⟨hopen, conn, hfds hopen, hchan⟩

/-- **Channels are isolated** in every run that keeps them apart. -/
theorem channel_isolated (h : ReachableWhen SHA256 ChannelKept c)
    (hs : (server SHA256).Step c e c') : Isolated c e where
  sends := by
    intro u fd pkt out ht hact
    obtain ⟨-, conn, hfd, hchan⟩ := sender_on_channel h hs ht (.inl ⟨pkt, by rw [hact]⟩)
    have hsend := hs.state
    rw [hact] at hsend
    simp only [server, State.step, Option.ite_none_right_eq_some, Option.some.injEq] at hsend
    exact ⟨conn, by rw [hsend.1.1, hfd], hchan⟩
  closes := by
    intro u fd closed ht hact
    obtain ⟨-, conn, hfd, hchan⟩ := sender_on_channel h hs ht (.inr (.inr (by rw [hact])))
    have hclose := hs.state
    rw [hact] at hclose
    simp only [server, State.step, Option.ite_none_right_eq_some, Option.some.injEq] at hclose
    exact ⟨conn, by rw [hclose.1, hfd], hchan⟩
  closed := fun _ _ ht ho => (sender_on_channel h hs ht ho).1

/-! ## A descriptor used after it was closed -/

namespace Example

/-- The connection an operation received a packet on, if it is a `Recv` that received one. -/
def receivedOn? : Entry → Option Conn
  | ⟨.Recv _, .packet conn _ _⟩ => some conn
  | _ => none

/-- Bob's channel is set up, and his sender takes up the contact list. -/
def listTaken : Schedule := session ++ setsUp ++ takes (contactPacket contacts)

/-- The `Send` fails and the sender closes descriptor 5, which the next client
gets; the sender goes on to `Recv` on it and closes it again. -/
def closesTwice : Schedule :=
  listTaken ++ [(.sender 1, ⟨.Send 5 (contactPacket contacts), ⟨some 0, false⟩⟩), (.sender 1, ⟨.close 5, some 0⟩)] ++
    connects 5 ++ [(.sender 1, ⟨.Recv 5, .failed⟩), (.sender 1, ⟨.close 5, some 1⟩)]

end Example

/-- A sender can close the connection of another client. -/
theorem not_isolated : ¬ ∀ SHA256 c e c', Reachable SHA256 c → (server SHA256).Step c e c' → Isolated c e := by
  intro h
  obtain ⟨c, hr, hlast, hconn⟩ := reachable_of_run Example.SHA256 Example.closesTwice
    (fun c => (c.history.head?.map fun e => (e.tid, e.act)) = some (.sender 1, ⟨.close 5, some 1⟩) ∧
      ∀ e ∈ c.history, ∀ x ∈ e.pre, Example.receivedOn? x ≠ some 1)
    (by decide +kernel)
  obtain ⟨e, earlier, hh, hlast⟩ := last_event hlast
  rw [Prod.mk.injEq] at hlast
  obtain ⟨c₁, c₂, h₁, rfl, hs, -, -⟩ := hr.event (show c.history = [] ++ e :: earlier from hh)
  obtain ⟨conn, hclosed, later, g, past, hpast, ⟨fd, -, n, pkt, l, -, -, hpre, -⟩, -⟩ :=
    (h _ c₁ e c₂ h₁ hs).closes 1 5 (some 1) hlast.1 hlast.2
  cases hclosed
  exact hconn g (by rw [hh, hpast]; simp) ⟨.Recv fd, .packet 1 n pkt⟩ (by rw [hpre]; simp [received]) rfl

namespace Example

def closes : Op → Bool
  | .close _ => true
  | _ => false

theorem listTaken_steps : ∀ y ∈ listTaken, closes y.2.op = false ∧
    (y.1 = .acceptor ∨ y.1 = .worker 0 ∨ y.2.op = .WaitAndPop 1 ∨ y.2.op = .lock 1) := by
  decide +kernel

theorem listTaken_kept {e : Event} (hh : ∀ e ∈ c.history, (e.tid, e.act) ∈ listTaken)
    (he : (e.tid, e.act) ∈ listTaken) : ChannelKept c e := by
  have hclose : ∀ e : Event, (e.tid, e.act) ∈ listTaken → ∀ fd, e.act.op ≠ .close fd := by
    intro e he fd ho
    have hc := (listTaken_steps _ he).1
    simp only [ho, closes] at hc
    cases hc
  refine ⟨fun u fd pkt out ht hact => ?_, fun u _ => ?_, fun fd _ _ ho => absurd ho (hclose e he fd),
    fun fd _ _ ho => absurd ho (hclose e he fd)⟩
  · rcases (listTaken_steps _ he).2 with ht' | ht' | ho | ho
    · rw [ht] at ht'; cases ht'
    · rw [ht] at ht'; cases ht'
    · rw [hact] at ho; cases ho
    · rw [hact] at ho; cases ho
  · rintro ⟨later, x, earlier, hsplit, ⟨-, fd, ho⟩, -⟩
    exact hclose x (hh x (by rw [hsplit]; simp)) fd ho

end Example

/-- Bob's sender sends the contact list on his channel. -/
theorem channel_isolated_list : ∃ c e c', (server Example.SHA256).Step c e c' ∧ e.tid = .sender 1 ∧
    e.act = ⟨.Send 5 (contactPacket Example.contacts), ⟨some 0, true⟩⟩ ∧ Isolated c e := by
  obtain ⟨c, hr, hexec⟩ := reachableWhen_of_run Example.SHA256 ChannelKept (fun _ _ => true) Example.listTaken
    (fun c => ((server Example.SHA256).exec c (.sender 1)
      ⟨.Send 5 (contactPacket Example.contacts), ⟨some 0, true⟩⟩).isSome)
    (fun c e he _ hh _ _ => Example.listTaken_kept hh he) (by decide +kernel)
  obtain ⟨c', hexec⟩ := Option.isSome_iff_exists.mp hexec
  have hs := Machine.exec_step hexec
  exact ⟨c, _, c', hs, rfl, rfl, channel_isolated hr hs⟩

end NetChat
