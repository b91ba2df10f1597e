/-
The turn a request is handled in: the packet it handles, the reply it sends, and
how its log goes on.
-/
import NetChat.Turns.Sender

namespace NetChat

open Interleave Prog Server

variable {SHA256 : Bytes → Bytes} {l : List Entry} {o : Op}

theorem handling_cons_of_ne {x : Entry} (h : x.op ≠ .popRecvSocket) : handling (x :: l) = none := by
  cases l with
  | nil => rfl
  | cons y l => exact if_neg h

/-- Only a worker handles packets. -/
theorem handling_worker {tid : Tid} {pkt : Packet} (hi : ((server SHA256).body tid).Issues l o)
    (hp : handling l = some pkt) :
    ∃ i fd conn n l', tid = .worker i ∧ l = received fd conn n pkt ++ l' := by
  cases tid with
  | acceptor =>
    simp only [server, ServerVan.Accepting, bind_eq, op_bind, issues_op] at hi
    rcases hi with ⟨rfl, -⟩ | ⟨evs, l', rfl, -⟩
    · cases hp
    · rw [handling_cons_of_ne (by simp)] at hp
      cases hp
  | sender uid =>
    simp only [server, KeepAliveMsgSender.run, bind_eq, op_bind, issues_op] at hi
    rcases hi with ⟨rfl, -⟩ | ⟨pkt, l', rfl, -⟩
    · cases hp
    · rw [handling_cons_of_ne (by simp)] at hp
      cases hp
  | worker i =>
    rcases worker_issues hi with ⟨rfl, -⟩ | ⟨fd, rfl, -⟩ | ⟨fd, conn, n, pkt', hd, l', rfl, -, -⟩
    · cases hp
    · cases hp
    · rw [handling_received, Option.some.injEq] at hp
      subst hp
      exact ⟨i, fd, conn, n, l', rfl, rfl⟩

/-- `e` is the reply `p` to the request `q`, which came in a packet of type `t`. -/
def Responds {α : Type} [Request α] (t : PacketType) (q : α) (p : Packet) (e : Event) : Prop :=
  ∃ pkt fd, handling e.pre = some pkt ∧ pkt.packetid = t.val ∧ pkt.request α = q ∧ e.act.op = .Send fd p

/-- **The turn of a reply up to it**: the packet it answers, and a run of its handler. -/
theorem reply_run {s : State} {ok : Config → Event → Prop} {c c' : Config} {e : Event} {pkt p : Packet} {fd : Int32}
    (hr : (server SHA256).ReachableWhen ok s c) (hs : (server SHA256).Step c e c')
    (hpkt : handling e.pre = some pkt) (ho : e.act.op = .Send fd p) :
    ∃ i conn n hd l cb, e.tid = .worker i ∧ e.pre = received fd conn n pkt ++ l ∧ handler SHA256 fd pkt = some hd ∧
      hd.Runs l (p, cb) := by
  have hi := hs.issues hr
  rw [ho] at hi
  obtain ⟨i, -, -, -, -, ht, -⟩ := handling_worker hi hpkt
  rw [ht] at hi
  obtain ⟨conn, n, pkt', hd, l, cb, hl, hh, hrun⟩ := worker_issues_send hi
  rw [hl, handling_received, Option.some.injEq] at hpkt
  subst hpkt
  exact ⟨i, conn, n, hd, l, cb, ht, hl, hh, hrun⟩

/-- Worker `i` is in the turn of a packet, with this log since it received it. -/
def InTurn (c : Config) (i : Nat) (fd : Int32) (pkt : Packet) (l : List Entry) : Prop :=
  ∃ conn n, (c.threads (.worker i)).log = received fd conn n pkt ++ l

section
variable {ok : Config → Event → Prop} {c c' : Config} {e : Event} {i : Nat} {fd : Int32} {pkt : Packet}

theorem InTurn.busy (hl : InTurn c i fd pkt l) : (c.threads (.worker i)).log ≠ [] := by
  obtain ⟨conn, n, hl⟩ := hl
  simp [hl, received]

/-- The log of a turn that makes a step has what the turn did. -/
theorem InTurn.mem_pre (hl : InTurn c i fd pkt l) (hs : (server SHA256).Step c e c') (ht : e.tid = .worker i)
    {x : Entry} (hx : x ∈ l) : x ∈ e.pre := by
  obtain ⟨conn, n, hl⟩ := hl
  rw [← hs.log, ht, hl]
  exact List.mem_append_right _ hx

/-- **A turn about to issue `o`**: a step is of another thread, or is `o`, and the turn
goes on as far as the worker does. -/
theorem InTurn.step {s : State} (hl : InTurn c i fd pkt l)
    (hi : ∀ conn n, (RevcSocketThreadFunc SHA256).Issues (received fd conn n pkt ++ l) o)
    (h : (server SHA256).ReachableWhen ok s c) (hs : (server SHA256).Step c e c') :
    (e.tid ≠ .worker i ∧ InTurn c' i fd pkt l) ∨
      e.tid = .worker i ∧ e.act.op = o ∧
        ∀ o', (∀ conn n, (RevcSocketThreadFunc SHA256).Issues (received fd conn n pkt ++ (l ++ [e.act])) o') →
          InTurn c' i fd pkt (l ++ [e.act]) := by
  obtain ⟨conn, n, hl⟩ := hl
  have hnext : ((server SHA256).body (.worker i)).Issues (c.threads (.worker i)).log o := by
    rw [hl]
    exact hi conn n
  rcases hs.about_to h hnext with ⟨ht, hl'⟩ | ⟨ht, ho, hon⟩
  · exact .inl ⟨ht, conn, n, hl'.trans hl⟩
  · refine .inr ⟨ht, ho, fun o' hi' => ⟨conn, n, ?_⟩⟩
    rw [hl, List.append_assoc] at hon
    exact hon o' (hi' conn n)

end

/-! ## Each handler's own operations -/

section
variable {fd : Int32} {pkt : Packet}

theorem handler_register (h : pkt.packetid = PacketType.val .RegisterRequest) :
    handler SHA256 fd pkt = some (onRegisterRequest SHA256 pkt) := by simp [handler, h]

theorem handler_loginPre (h : pkt.packetid = PacketType.val .LoginPreRequest) :
    handler SHA256 fd pkt = some (onLoginPreRequest pkt) := by simp [handler, h]

theorem handler_login (h : pkt.packetid = PacketType.val .LoginRequest) :
    handler SHA256 fd pkt = some (onLoginRequest SHA256 pkt) := by simp [handler, h]

theorem handler_setupChannel (h : pkt.packetid = PacketType.val .SetupChannelRequest) :
    handler SHA256 fd pkt = some (onSetupChannelRequest fd pkt) := by simp [handler, h]

theorem handler_sendMessage (h : pkt.packetid = PacketType.val .SendMessageRequest) :
    handler SHA256 fd pkt = some (onSendMessageRequest pkt) := by simp [handler, h]

theorem handler_fileUpload (h : pkt.packetid = PacketType.val .FileUploadRequest) :
    handler SHA256 fd pkt = some (onFileUploadRequest pkt) := by simp [handler, h]

theorem handler_fileDownload (h : pkt.packetid = PacketType.val .FileDownloadRequest) :
    handler SHA256 fd pkt = some (onFileDownloadRequest pkt) := by simp [handler, h]

theorem handler_contactMessage (h : pkt.packetid = PacketType.val .ContactMessageRequest) :
    handler SHA256 fd pkt = some (onContactMessageRequest pkt) := by simp [handler, h]

end

/-- A step whose operation has a handler for owner is one of a turn of that handler. -/
theorem step_handler {s : State} {ok : Config → Event → Prop} {c c' : Config} {e : Event} {t : PacketType}
    {hd : Packet → Code Reply}
    (hh : ∀ {fd pkt}, pkt.packetid = PacketType.val t → handler SHA256 fd pkt = some (hd pkt))
    (h : (server SHA256).ReachableWhen ok s c) (hs : (server SHA256).Step c e c') (ho : e.act.op = o)
    (howner : o.handlerOwner = some t) :
    ∃ i fd conn n pkt l, e.tid = .worker i ∧ e.pre = received fd conn n pkt ++ l ∧
      pkt.packetid = PacketType.val t ∧ (hd pkt).Issues l o := by
  have hi := hs.issues h
  rw [ho] at hi
  obtain ⟨i, fd, conn, n, pkt, hd', l, ht, hl, hp, hh', hi⟩ := issues_handler hi howner
  rw [hh hp] at hh'
  cases hh'
  exact ⟨i, fd, conn, n, pkt, l, ht, hl, hp, hi⟩

end NetChat
