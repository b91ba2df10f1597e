/-
The threads that handle no request, the accepting thread and the senders, and
what only the workers issue. What a sender issues depends on where in its turn
it is.
-/
import NetChat.Turns.Worker

namespace NetChat

open Interleave Prog Server

variable {SHA256 : Bytes → Bytes} {l : List Entry} {o : Op}

/-! ## Threads that handle no request -/

/-- What the accepting thread issues. -/
def Op.ofAcceptor : Op → Bool
  | .epoll_wait | .accept | .epollAdd _ | .pushRecvSocket _ | .epollDel _ | .close _ => true
  | _ => false

/-- What the senders issue. -/
def Op.ofSenders : Op → Bool
  | .WaitAndPop _ | .lock _ | .unlock _ | .Send _ _ | .Recv _ | .close _ => true
  | _ => false

theorem sat_acceptor : ServerVan.Accepting.Sat (fun o => o.ofAcceptor = true) fun _ => True := by
  refine ⟨rfl, fun events => ?_⟩
  simp only [ret_bind]
  induction events with
  | nil => trivial
  | cons ev events ih =>
    refine Sat.bind (Q := fun _ => True) ?_ fun _ _ => ih
    cases ev with
    | server =>
      refine ⟨rfl, fun fd => ?_⟩
      cases fd with
      | none => trivial
      | some fd =>
        refine ⟨rfl, fun ok => ?_⟩
        simp only
        split <;> trivial
    | client fd epollin =>
      cases epollin with
      | true => exact ⟨rfl, fun _ => trivial⟩
      | false =>
        refine ⟨rfl, fun ok => ?_⟩
        simp only
        split
        · exact ⟨rfl, fun _ => trivial⟩
        · trivial

theorem sat_closeIf {failed : Bool} {fd : Int32} :
    (Van.closeIf failed fd).Sat (fun o => o.ofSenders = true) fun _ => True := by
  unfold Van.closeIf
  split
  · exact ⟨rfl, fun _ => trivial⟩
  · trivial

theorem sat_sender {uid : Int32} : (KeepAliveMsgSender.run uid).Sat (fun o => o.ofSenders = true) fun _ => True :=
  ⟨rfl, fun _ => ⟨rfl, fun _ => ⟨rfl, fun _ =>
    sat_closeIf.bind fun _ _ => ⟨rfl, fun _ => sat_closeIf.bind fun _ _ => ⟨rfl, fun _ => trivial⟩⟩⟩⟩⟩

/-- What the other threads do not issue, a worker does. -/
theorem issues_worker {tid : Tid} (h : ((server SHA256).body tid).Issues l o) (ho : o.ofAcceptor = false)
    (ho' : o.ofSenders = false) : ∃ i, tid = .worker i ∧ (RevcSocketThreadFunc SHA256).Issues l o := by
  cases tid with
  | acceptor => rw [sat_acceptor.issues h] at ho; cases ho
  | sender uid => rw [sat_sender.issues h] at ho'; cases ho'
  | worker i => exact ⟨i, rfl, h⟩

/-- **Who issues a handler's operation**: a worker that received a packet of the
owner's type. -/
theorem issues_handler {tid : Tid} {t : PacketType} (h : ((server SHA256).body tid).Issues l o)
    (ho : o.handlerOwner = some t) :
    ∃ i fd conn n pkt hd l', tid = .worker i ∧ l = received fd conn n pkt ++ l' ∧ pkt.packetid = t.val ∧
      handler SHA256 fd pkt = some hd ∧ hd.Issues l' o := by
  obtain ⟨i, rfl, hi⟩ := issues_worker h
    (by cases o <;> first | rfl | exact absurd ho (Option.some_ne_none _).symm)
    (by cases o <;> first | rfl | exact absurd ho (Option.some_ne_none _).symm)
  obtain ⟨fd, conn, n, pkt, hd, l', hl⟩ := worker_issues_handler hi ho
  exact ⟨i, fd, conn, n, pkt, hd, l', rfl, hl⟩

/-- **Who issues a callback's operation**: a worker whose handler, for a packet
of the owner's type, set the callback and whose reply was sent. -/
theorem issues_callback {tid : Tid} {t : PacketType} (h : ((server SHA256).body tid).Issues l o)
    (ho : o.callbackOwner = some t) (hne : ∀ fd, o ≠ .epollDel fd) :
    ∃ i, tid = .worker i ∧ Calling SHA256 t l o := by
  obtain ⟨i, rfl, hi⟩ := issues_worker h
    (by cases o <;> first | rfl | exact absurd ho (Option.some_ne_none _).symm | exact absurd rfl (hne _))
    (by cases o <;> first | rfl | exact absurd ho (Option.some_ne_none _).symm)
  obtain ⟨t', -, hcall, ht⟩ := worker_issues_callback hi (.inl (by rw [ho]; rfl))
    (by cases o <;> first | rfl | exact absurd ho (Option.some_ne_none _).symm) hne
  rw [ht t ho] at hcall
  exact ⟨i, rfl, hcall⟩

/-- Only callbacks queue packets for the senders. -/
theorem issues_addSendTask {tid : Tid} {uid : Int32} {pkt : Packet}
    (h : ((server SHA256).body tid).Issues l (.addSendTask uid pkt)) :
    ∃ i t, tid = .worker i ∧ t.hasCallback ∧ Calling SHA256 t l (.addSendTask uid pkt) := by
  obtain ⟨i, rfl, hi⟩ := issues_worker h rfl rfl
  obtain ⟨t, ht, hcall, -⟩ := worker_issues_callback hi (.inr rfl) rfl (by simp)
  exact ⟨i, t, rfl, ht, hcall⟩

/-- The log of a sender's turn up to the packet and the descriptor it works on. -/
def held (uid : Int32) (pkt : Packet) (fd : Int32) : List Entry := [⟨.WaitAndPop uid, pkt⟩, ⟨.lock uid, fd⟩]

/-- What a sender logs between its `Send`, with outcome `out`, and its `Recv`. -/
def AfterSend (fd : Int32) (out : SendOut) (l : List Entry) : Prop :=
  (out.ok = true ∧ l = []) ∨ (out.ok = false ∧ ∃ conn, l = [⟨.close fd, conn⟩])

/-- **What a sender issues**, and after which log. -/
inductive SenderStep (uid : Int32) : List Entry → Op → Prop
  | pop : SenderStep uid [] (.WaitAndPop uid)
  | lock {pkt : Packet} : SenderStep uid [⟨.WaitAndPop uid, pkt⟩] (.lock uid)
  | send {pkt : Packet} {fd : Int32} : SenderStep uid (held uid pkt fd) (.Send fd pkt)
  | closeUnsent {pkt : Packet} {fd : Int32} {out : SendOut} : out.ok = false →
      SenderStep uid (held uid pkt fd ++ [⟨.Send fd pkt, out⟩]) (.close fd)
  | recv {pkt : Packet} {fd : Int32} {out : SendOut} {l : List Entry} : AfterSend fd out l →
      SenderStep uid (held uid pkt fd ++ ⟨.Send fd pkt, out⟩ :: l) (.Recv fd)
  | closeUnacked {pkt : Packet} {fd : Int32} {out : SendOut} {l : List Entry} {ack : RecvOut} : AfterSend fd out l →
      ack.ret < 0 → SenderStep uid (held uid pkt fd ++ ⟨.Send fd pkt, out⟩ :: (l ++ [⟨.Recv fd, ack⟩])) (.close fd)
  | unlock {pkt : Packet} {fd : Int32} {out : SendOut} {l : List Entry} :
      SenderStep uid (held uid pkt fd ++ ⟨.Send fd pkt, out⟩ :: l) (.unlock uid)

theorem SenderStep.of_held {uid : Int32} {pkt : Packet} {fd : Int32} (h : SenderStep uid (held uid pkt fd ++ l) o) :
    o = .Send fd pkt ∨ o = .close fd ∨ o = .Recv fd ∨ o = .unlock uid := by
  generalize hl : held uid pkt fd ++ l = l' at h
  cases h <;> simp only [held, List.cons_append, List.nil_append, List.cons.injEq, Interleave.Entry.mk.injEq,
    heq_eq_eq, true_and, and_false, List.cons_ne_nil] at hl
  all_goals obtain ⟨rfl, rfl, -⟩ := hl
  all_goals simp

/-- A sender uses a descriptor only while it holds it, and closed it before in its
turn only after a failed `Send`. -/
theorem SenderStep.on_fd {uid fd : Int32} (h : SenderStep uid l o)
    (ho : (∃ pkt, o = .Send fd pkt) ∨ o = .Recv fd ∨ o = .close fd) :
    ∃ pkt l', l = held uid pkt fd ++ l' ∧ (∀ x ∈ l', x.op ≠ .unlock uid) ∧
      ((∀ x ∈ l', x.op ≠ .close fd) ∨ ∃ out, ⟨.Send fd pkt, out⟩ ∈ l' ∧ out.ok = false) := by
  cases h with
  | pop | lock | unlock => simp at ho
  | @send pkt fd' =>
    simp only [Op.Send.injEq, reduceCtorEq, or_false] at ho
    obtain ⟨_, rfl, -⟩ := ho
    exact ⟨pkt, [], by simp, by simp, by simp⟩
  | @closeUnsent pkt fd' out hok =>
    simp only [Op.close.injEq, reduceCtorEq, exists_false, false_or] at ho
    subst ho
    exact ⟨pkt, _, rfl, by simp, by simp⟩
  | @recv pkt fd' out l hsent =>
    simp only [Op.Recv.injEq, reduceCtorEq, exists_false, false_or, or_false] at ho
    subst ho
    refine ⟨pkt, _, rfl, ?_, ?_⟩
    · rcases hsent with ⟨-, rfl⟩ | ⟨-, conn, rfl⟩ <;> simp
    · rcases hsent with ⟨-, rfl⟩ | ⟨hok, -⟩
      · simp
      · exact .inr ⟨out, by simp, hok⟩
  | @closeUnacked pkt fd' out l ack hsent hack =>
    simp only [Op.close.injEq, reduceCtorEq, exists_false, false_or] at ho
    subst ho
    refine ⟨pkt, _, rfl, ?_, ?_⟩
    · rcases hsent with ⟨-, rfl⟩ | ⟨-, conn, rfl⟩ <;> simp
    · rcases hsent with ⟨-, rfl⟩ | ⟨hok, -⟩
      · simp
      · exact .inr ⟨out, by simp, hok⟩

theorem closeIf_issues {failed : Bool} {fd : Int32} {rest : Code Unit}
    (h : ((Van.closeIf failed fd).bind fun _ => rest).Issues l o) :
    (failed = true ∧ l = [] ∧ o = .close fd) ∨
      ∃ l₁ l₂, l = l₁ ++ l₂ ∧ rest.Issues l₂ o ∧
        ((failed = false ∧ l₁ = []) ∨ (failed = true ∧ ∃ conn, l₁ = [⟨.close fd, conn⟩])) := by
  cases failed with
  | false => exact .inr ⟨[], l, rfl, h, .inl ⟨rfl, rfl⟩⟩
  | true =>
    simp only [Van.closeIf, Van.closeFd, if_true, op_bind, ret_bind, issues_op] at h
    rcases h with ⟨rfl, rfl⟩ | ⟨conn, l, rfl, h⟩
    · exact .inl ⟨rfl, rfl, rfl⟩
    · exact .inr ⟨[⟨.close fd, conn⟩], l, rfl, h, .inr ⟨rfl, conn, rfl⟩⟩

theorem sender_issues {uid : Int32} (h : (KeepAliveMsgSender.run uid).Issues l o) : SenderStep uid l o := by
  simp only [KeepAliveMsgSender.run, bind_eq, op_bind, ret_bind, issues_op] at h
  rcases h with ⟨rfl, rfl⟩ | ⟨pkt, l, rfl, ⟨rfl, rfl⟩ | ⟨fd, l, rfl, ⟨rfl, rfl⟩ | ⟨out, l, rfl, h⟩⟩⟩
  · exact .pop
  · exact .lock
  · exact .send
  rcases closeIf_issues h with ⟨hfail, rfl, rfl⟩ | ⟨l₁, l₂, rfl, hrecv, hl₁⟩
  · exact .closeUnsent (by simpa using hfail)
  have hsent : AfterSend fd out l₁ := by simpa [AfterSend] using hl₁
  simp only [issues_op] at hrecv
  rcases hrecv with ⟨rfl, rfl⟩ | ⟨ack, l, rfl, hack⟩
  · rw [List.append_nil]
    exact .recv hsent
  rcases closeIf_issues hack with ⟨hfail, rfl, rfl⟩ | ⟨l₃, l₄, rfl, hunlock, -⟩
  · exact .closeUnacked hsent (by simpa using hfail)
  · simp only [issues_op, issues_ret, and_false, exists_false, or_false] at hunlock
    obtain ⟨rfl, rfl⟩ := hunlock
    exact .unlock

/-- The sender whose thread alone issues an operation. -/
def Op.ownSender : Op → Option Int32
  | .WaitAndPop uid | .lock uid | .unlock uid => some uid
  | _ => none

theorem issues_ownSender {tid : Tid} {uid : Int32} (h : ((server SHA256).body tid).Issues l o)
    (ho : o.ownSender = some uid) : tid = .sender uid := by
  cases tid with
  | acceptor =>
    have hof := sat_acceptor.issues h
    cases o <;> first | exact absurd ho (Option.some_ne_none _).symm | exact absurd hof Bool.false_ne_true
  | sender uid' =>
    cases sender_issues h with
    | pop | lock | unlock => cases ho; rfl
    | send | closeUnsent | recv | closeUnacked => cases ho
  | worker i =>
    exfalso
    rcases worker_issues h with ⟨-, rfl⟩ | ⟨fd, -, rfl⟩ | ⟨fd, conn, n, pkt, hd, l', -, hh, hp⟩
    · cases ho
    · cases ho
    obtain ⟨t, -, hs⟩ := handler_isHandler hh
    cases hp with
    | handling h =>
      rcases hs.issues h with h | h <;> cases o <;>
        first | exact absurd ho (Option.some_ne_none _).symm | cases h
    | replying _ ho' => subst ho'; cases ho
    | callback _ _ hr hcb h =>
      rcases ((hs.runs hr).2.2 _ hcb).2.issues h with h | h <;> cases o <;>
        first | exact absurd ho (Option.some_ne_none _).symm | cases h
    | dropping _ _ _ ho' => subst ho'; cases ho
    | closing _ _ _ ho' => subst ho'; cases ho

end NetChat
