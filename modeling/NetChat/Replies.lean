/-
The answers. A worker answers the packets it receives one by one, each once,
with the response of its type, on the descriptor it read the packet from. The
descriptor names the connection the packet came on, unless somebody closed it
between the `Recv` and the `Send`.
-/
import NetChat.Boot
import NetChat.Lib.Queue
import NetChat.Turns

namespace NetChat

open Interleave Prog Server Machine

variable {SHA256 : Bytes → Bytes} {ok : Config → Event → Prop} {s : State} {c c' : Config} {e : Event}
  {l : List Entry} {fd : Int32} {pkt : Packet}

/-- The response a request of a type is answered with, if the server answers it. -/
def PacketType.response : PacketType → Option PacketType
  | .ServerStatusRequest => some .ServerStatusResponse
  | .ServerStatusUpdateRequest => some .ServerStatusUpdateResponse
  | .RegisterRequest => some .RegisterResponse
  | .LoginPreRequest => some .LoginPreResponse
  | .LoginRequest => some .LoginResponse
  | .SetupChannelRequest => some .ServerAckResponse
  | .SendMessageRequest => some .SendMessageResponse
  | .FileUploadRequest => some .FileUploadResponse
  | .FileDownloadRequest => some .FileDownloadResponse
  | .ContactMessageRequest => some .ContactMessageResponse
  | _ => none

/-- The `packetid` a packet is answered with. -/
def Packet.response (pkt : Packet) : Option Int32 :=
  ((PacketType.cast pkt.packetid).bind PacketType.response).map PacketType.val

/-- The answer an operation asks for: on which descriptor, of which type. -/
def asks : Entry → List (Int32 × Int32)
  | ⟨.Recv fd, .packet _ _ pkt⟩ => (pkt.response.map fun t => (fd, t)).toList
  | _ => []

/-- The answer an operation gives. -/
def gives : Entry → List (Int32 × Int32)
  | ⟨.Send fd p, _⟩ => [(fd, p.packetid)]
  | _ => []

/-- The answer a turn owes. -/
def owes (l : List Entry) : List (Int32 × Int32) := if l.all (fun x => (gives x).isEmpty) then l.flatMap asks else []

/-! ## One turn -/

theorem handler_none (h : handler SHA256 fd pkt = none) : pkt.response = none := by
  unfold handler at h
  split at h
  case h_11 =>
    unfold Packet.response
    generalize PacketType.cast pkt.packetid = t at *
    cases t with
    | none => rfl
    | some t => cases t <;> first | rfl | simp_all
  all_goals cases h

/-- A handler replies with the response of the packet's type. -/
theorem handler_response {hd : Code Reply} {reply : Reply} (hh : handler SHA256 fd pkt = some hd)
    (hr : hd.Runs l reply) : pkt.response = some reply.1.packetid ∧ reply.1.content.isSome = true := by
  unfold handler at hh
  unfold Packet.response
  split at hh <;> simp only [Option.some.injEq, reduceCtorEq] at hh
  all_goals
    rename_i heq
    rw [heq]
    subst hh
  · obtain ⟨-, rfl⟩ := runs_ret.mp hr
    exact ⟨rfl, rfl⟩
  · obtain ⟨-, rfl⟩ := runs_ret.mp hr
    exact ⟨rfl, rfl⟩
  · rcases onRegisterRequest_runs hr with ⟨-, -, rfl⟩ | ⟨ret, -, -, rfl⟩ <;> exact ⟨rfl, rfl⟩
  · obtain ⟨challenge, -, rfl⟩ := onLoginPreRequest_runs hr
    exact ⟨rfl, rfl⟩
  · obtain ⟨r, -, rfl⟩ := onLoginRequest_runs hr
    exact ⟨rfl, rfl⟩
  · obtain ⟨uid, -, rfl⟩ := onSetupChannelRequest_runs hr
    exact ⟨rfl, rfl⟩
  · cases onSendMessageRequest_runs hr <;> exact ⟨rfl, rfl⟩
  · cases onFileUploadRequest_runs hr <;> exact ⟨rfl, rfl⟩
  · obtain ⟨r, -, rfl⟩ := onFileDownloadRequest_runs hr
    exact ⟨rfl, rfl⟩
  · obtain ⟨uid, r, -, rfl⟩ := onContactMessageRequest_runs hr
    exact ⟨rfl, rfl⟩

theorem owes_of_send {x : Entry} {l' : List Entry} (h : gives x ≠ []) : owes (l ++ x :: l') = [] := by
  rw [owes, if_neg]
  simp [h]

/-- An operation that neither receives nor sends owes nothing and pays nothing. -/
theorem owes_append {x : Entry} (hrecv : ∀ fd, x.op ≠ .Recv fd) (hsend : ∀ fd p, x.op ≠ .Send fd p) :
    asks x = [] ∧ gives x = [] ∧ owes (l ++ [x]) = owes l := by
  obtain ⟨o, r⟩ := x
  have hasks : asks ⟨o, r⟩ = [] := by cases o <;> first | rfl | exact absurd rfl (hrecv _)
  have hgives : gives ⟨o, r⟩ = [] := by cases o <;> first | rfl | exact absurd rfl (hsend _ _)
  exact ⟨hasks, hgives, by simp [owes, hasks, hgives]⟩

/-- A turn that has its handler's result owes the reply. -/
theorem owes_reply {conn : Conn} {n : Nat} {hd : Code Reply} {reply : Reply} (hh : handler SHA256 fd pkt = some hd)
    (hr : hd.Runs l reply) : owes (received fd conn n pkt ++ l) = [(fd, reply.1.packetid)] := by
  obtain ⟨t, -, hs⟩ := handler_isHandler hh
  have hquiet : ∀ x ∈ l, asks x = [] ∧ gives x = [] := by
    intro x hx
    have hof := (hs.runs hr).1 x hx
    obtain ⟨o, r⟩ := x
    obtain ⟨hasks, hgives, -⟩ := owes_append (x := ⟨o, r⟩) (l := [])
      (fun fd ho => by subst ho; rcases hof with h | h <;> cases h)
      (fun fd p ho => by subst ho; rcases hof with h | h <;> cases h)
    exact ⟨hasks, hgives⟩
  have hall : (received fd conn n pkt ++ l).all (fun x => (gives x).isEmpty) = true := by
    rw [List.all_eq_true]
    intro x hx
    rcases List.mem_append.mp hx with hx | hx
    · simp only [received, List.mem_cons, List.not_mem_nil, or_false] at hx
      rcases hx with rfl | rfl <;> rfl
    · simp [(hquiet x hx).2]
  have hnone : l.flatMap asks = [] := List.flatMap_eq_nil_iff.mpr fun x hx => (hquiet x hx).1
  rw [owes, if_pos hall, List.flatMap_append, hnone]
  simp [received, asks, (handler_response hh hr).1]

/-! ## Every turn -/

/-- **A worker answers what it receives.** -/
theorem worker_accounts (i : Nat) : (server SHA256).Accounts (.worker i) asks gives owes where
  start := rfl
  step := by
    intro l x hi
    by_cases hrecv : ∃ fd, x.op = .Recv fd
    · obtain ⟨fd, ho⟩ := hrecv
      obtain ⟨out, rfl⟩ := Interleave.Entry.of_op ho
      obtain rfl := worker_issues_recv hi
      simp [owes, gives, asks]
    by_cases hsend : ∃ fd p, x.op = .Send fd p
    · obtain ⟨fd, p, ho⟩ := hsend
      obtain ⟨out, rfl⟩ := Interleave.Entry.of_op ho
      obtain ⟨conn, n, pkt, hd, l', cb, rfl, hh, hr⟩ := worker_issues_send hi
      rw [owes_reply hh hr, owes_of_send (by simp [gives])]
      rfl
    · obtain ⟨hasks, hgives, howes⟩ := owes_append (l := l) (fun fd ho => hrecv ⟨fd, ho⟩)
        fun fd p ho => hsend ⟨fd, p, ho⟩
      rw [hasks, hgives, howes, List.append_nil, List.nil_append]
  turn := by
    intro l hrun
    have hturn := hrun
    simp only [server, RevcSocketThreadFunc, processRecvSocket, bind_eq, op_bind, ret_bind, runs_op] at hrun
    obtain ⟨fd, l, rfl, out, l, rfl, hrun⟩ := hrun
    split at hrun
    · rename_i conn n pkt
      split at hrun
      · rename_i hd hh
        obtain ⟨reply, l₁, l₂, rfl, hr, hrespond⟩ := runs_bind.mp hrun
        obtain ⟨sent, rest, rfl, -⟩ := respond_runs (handler_response hh hr).2 hrespond
        exact owes_of_send (l := received fd conn n pkt ++ l₁) (by simp [gives])
      · rename_i hh
        obtain ⟨rfl, -⟩ := runs_ret.mp hrun
        simp [owes, gives, asks, handler_none hh]
    · rename_i hout
      obtain ⟨rfl, -⟩ := runs_ret.mp hrun
      cases out <;> first | rfl | exact absurd rfl (hout _ _ _)

/-! ## The property -/

/-- What worker `i` was asked for, and what it answered, in order. -/
def asked (i : Nat) (h : List Event) : List (Int32 × Int32) := did (.worker i) asks h

def answeredBy (i : Nat) (h : List Event) : List (Int32 × Int32) := did (.worker i) gives h

/-- A reply goes out on the descriptor the request was read from, which is still that of
the connection it was read from, unless somebody closed it in between. -/
def RepliesToAsker (c : Config) : Prop :=
  ∀ later e mid g past i fd conn n pkt fd' p out, c.history = later ++ e :: (mid ++ g :: past) →
    g.tid = .worker i → g.act = ⟨.Recv fd, .packet conn n pkt⟩ → e.tid = .worker i → SameTurn (.worker i) mid →
    e.act = ⟨.Send fd' p, out⟩ → fd' = fd ∧ pkt.response = some p.packetid ∧
      (out.conn = some conn ∨ ∃ y ∈ mid, y.act.op = .close fd)

/-- Each worker answers what it is asked, once and in order, but for what it is about to
answer; and it answers who asked. -/
structure AnswersAsker (c : Config) : Prop where
  answered : ∀ i, asked i c.history = answeredBy i c.history ++ owes (c.threads (.worker i)).log
  asker : RepliesToAsker c

/-- A descriptor that nobody closes goes on naming its connection. -/
theorem fds_since (hr : (server SHA256).ReachableWhen ok s c) (h : (server SHA256).Steps ok c c') {later : List Event}
    (hl : c'.history = later ++ c.history) {conn : Conn} (hclose : ∀ y ∈ later, y.act.op ≠ .close fd)
    (hfd : c.state.fds fd = some conn) : c'.state.fds fd = some conn :=
  h.preserves (fun s => s.fds fd = some conn) hr hl (fun _ _ _ _ hs he hi => step_fds hs.state (hclose _ he) hi) hfd

/-- The turn of a reply is that of the packet received in it. -/
theorem reply_received (h : (server SHA256).ReachableWhen ok s c) (hs : (server SHA256).Step c e c') {i : Nat}
    (ht : e.tid = .worker i) {fd' : Int32} {p : Packet} (ho : e.act.op = .Send fd' p) {mid past : List Event}
    {g : Event} (hh : c.history = mid ++ g :: past) (htg : g.tid = .worker i) {conn : Conn} {n : Nat}
    (hg : g.act = ⟨.Recv fd, .packet conn n pkt⟩) (hturn : SameTurn (.worker i) mid) :
    fd' = fd ∧ ∃ l hd cb, e.pre = received fd conn n pkt ++ l ∧ handler SHA256 fd pkt = some hd ∧ hd.Runs l (p, cb) := by
  have hi := hs.issues h
  rw [ht, ho] at hi
  obtain ⟨conn', n', pkt', hd, l, cb, hpre, hhd, hr⟩ := worker_issues_send hi
  -- the turn received once, as the second thing it did
  have hrecv : g.pre = [⟨.popRecvSocket, fd⟩] := by
    obtain ⟨c₁, c₂, h₁, -, hs₁, -, -⟩ := h.event hh
    have hi₁ := hs₁.issues h₁
    rw [htg, hg] at hi₁
    exact worker_issues_recv hi₁
  rw [← htg] at hturn
  have hlog := h.log_of_sameTurn hh hturn
  rw [htg, ← ht, hs.log, hpre, hrecv, hg] at hlog
  rcases hlog with hlog | ⟨q, hlog⟩
  · simp [received] at hlog
  · simp only [received, List.cons_append, List.nil_append, List.cons.injEq, Interleave.Entry.mk.injEq,
      Op.Recv.injEq, true_and] at hlog
    obtain ⟨-, ⟨rfl, hout⟩, -⟩ := hlog
    cases hout
    exact ⟨rfl, l, hd, cb, hpre, hhd, hr⟩

theorem replies_to_asker (h : (server SHA256).ReachableWhen ok s c) : RepliesToAsker c := by
  intro later e mid g past i fd conn n pkt fd' p out hh htg hg ht hturn hact
  obtain ⟨c₁, c₂, h₁, hh₁, hs, -, -⟩ := h.event hh
  obtain ⟨rfl, l, hd, cb, -, hhd, hr⟩ := reply_received h₁ hs ht (by rw [hact]) hh₁ htg hg hturn
  refine ⟨rfl, (handler_response hhd hr).1, ?_⟩
  by_cases hclose : ∃ y ∈ mid, y.act.op = .close fd'
  · exact .inr hclose
  · left
    obtain ⟨c₃, c₄, h₃, rfl, hs₃, hk₃, hsteps⟩ := h₁.event hh₁
    have hrecv := hs₃.state
    rw [hg] at hrecv
    simp only [server, State.step, State.recv, Option.ite_none_right_eq_some, Option.some.injEq] at hrecv
    have hfd := fds_since (.step h₃ hs₃ hk₃) hsteps (by rw [hh₁, hs₃.history])
      (fun y hy ho => hclose ⟨y, hy, ho⟩) (by rw [← hrecv.2]; exact hrecv.1.1)
    have hsend := hs.state
    rw [hact] at hsend
    simp only [server, State.step, Option.ite_none_right_eq_some] at hsend
    exact hsend.1.1.trans hfd

/-- **Every request is answered**, once, in order and to who asked. -/
theorem answers_asker (file : DbFile) (disk : Bytes → Option Bytes)
    (h : (server SHA256).Reachable (.boot file disk) c) : AnswersAsker c :=
  ⟨fun i => (worker_accounts i).run h, replies_to_asker h⟩

/-- Bob has asked three times and is answered. -/
theorem answers_asker_session : ∃ c, Reachable Example.SHA256 c ∧
    asked 0 c.history = [(5, PacketType.val .RegisterResponse), (5, PacketType.val .LoginPreResponse),
      (5, PacketType.val .LoginResponse)] ∧
    answeredBy 0 c.history = asked 0 c.history ∧ AnswersAsker c := by
  obtain ⟨c, hr, hasked, hanswered⟩ := reachable_of_run Example.SHA256 Example.session
    (fun c => asked 0 c.history = [(5, PacketType.val .RegisterResponse), (5, PacketType.val .LoginPreResponse),
      (5, PacketType.val .LoginResponse)] ∧ answeredBy 0 c.history = asked 0 c.history) (by decide +kernel)
  exact ⟨c, hr, hasked, hanswered, answers_asker .absent (fun _ => none) hr⟩

end NetChat
