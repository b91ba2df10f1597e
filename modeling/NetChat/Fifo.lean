/-
The two queues between threads hand over in order. What a user's sender
passes to `Send` is what was queued for the user, in that order and each
packet once, but for what a `Clear` dropped; what the workers take off
`RecvSocketQueue` is what `epoll_wait` reported readable, in that order.
-/
import NetChat.Boot
import NetChat.Channel
import NetChat.Lib.Queue
import NetChat.Queues

namespace NetChat

open Interleave Prog Server Machine

variable {SHA256 : Bytes → Bytes} {ok : Config → Event → Prop} {s : State} {c c' : Config} {e : Event} {uid : Int32}

/-! ## The queue of a sender -/

/-- What an operation does to the queue of `uid`'s sender. -/
def queueAct (uid : Int32) : Entry → QueueAct Packet
  | ⟨.addSendTask u p, _⟩ => if u = uid then .push p else .leave
  | ⟨.WaitAndPop u, p⟩ => if u = uid then .pop p else .leave
  | ⟨.Clear u, _⟩ => if u = uid then .clear else .leave
  | _ => .leave

theorem queueAct_other {x : Entry} (h : x.op.sender ≠ some uid) : queueAct uid x = .leave := by
  obtain ⟨o, r⟩ := x
  cases o <;> first | rfl | exact if_neg fun hu => h (congrArg some hu)

theorem isQueue_sender (uid : Int32) : (server SHA256).IsQueue (fun s => s.queue uid) (queueAct uid) := by
  intro s x s' h
  have hchange := step_sender h uid
  show (queueAct uid x).Acts (s.queue uid) (s'.queue uid)
  unfold State.queue
  generalize s.keepalive_sender_mp uid = snd at hchange
  generalize s'.keepalive_sender_mp uid = snd' at hchange
  cases hchange with
  | other hne =>
    rw [queueAct_other hne]
    rfl
  | created | setFd | lock | unlock => rfl
  | clear | pushed => simp [queueAct, QueueAct.Acts]
  | popped hq => simpa [queueAct, QueueAct.Acts] using hq

/-- The packet an operation passes to `Send`. -/
def sentPacket : Entry → List Packet
  | ⟨.Send _ p, _⟩ => [p]
  | _ => []

/-- The packet a sender has taken and not yet sent. -/
def inHand : List Entry → List Packet
  | ⟨.WaitAndPop _, p⟩ :: rest => if rest.length ≤ 1 then [p] else []
  | _ => []

theorem inHand_held {pkt : Packet} {fd : Int32} {l : List Entry} :
    inHand (held uid pkt fd ++ l) = if l = [] then [pkt] else [] := by
  cases l <;> simp [held, inHand]

/-- The packets queued for a user, in order. -/
def queued (uid : Int32) (h : List Event) : List Packet := pushed (queueAct uid) h

/-- The packets its sender passed to `Send`, in order. -/
def sentBy (uid : Int32) (h : List Event) : List Packet := did (.sender uid) sentPacket h

/-- What is in hand and what is taken is what is sent and what is in hand then. -/
theorem SenderStep.inHand {l : List Entry} {x : Entry} (h : SenderStep uid l x.op) :
    inHand l ++ (queueAct uid x).popped = sentPacket x ++ NetChat.inHand (l ++ [x]) := by
  obtain ⟨o, r⟩ := x
  cases h with
  | pop => simp [queueAct, QueueAct.popped, sentPacket, NetChat.inHand]
  | lock => simp [queueAct, QueueAct.popped, sentPacket, NetChat.inHand]
  | @send pkt fd =>
    rw [inHand_held, if_neg (by simp), ← List.append_nil (held uid pkt fd), inHand_held, if_pos rfl]
    simp [queueAct, QueueAct.popped, sentPacket]
  | closeUnsent | recv | closeUnacked | unlock =>
    rw [List.append_assoc, inHand_held, inHand_held, if_neg (by simp), if_neg (by simp)]
    simp [queueAct, QueueAct.popped, sentPacket]

/-- A sender's turn ends with nothing in hand. -/
theorem inHand_runs {l : List Entry} (h : (KeepAliveMsgSender.run uid).Runs l ()) : inHand l = [] := by
  simp only [KeepAliveMsgSender.run, bind_eq, op_bind, ret_bind, runs_op] at h
  obtain ⟨pkt, l, rfl, fd, l, rfl, out, l, rfl, -⟩ := h
  exact (inHand_held (l := _ :: l)).trans (if_neg (by simp))

/-- A sender sends what it takes. -/
theorem sender_accounts (uid : Int32) :
    (server SHA256).Accounts (.sender uid) (fun x => (queueAct uid x).popped) sentPacket inHand where
  start := rfl
  step := fun _ _ hi => (sender_issues hi).inHand
  turn := fun _ hrun => inHand_runs hrun

theorem queueAct_popped {x : Entry} (h : (queueAct uid x).popped ≠ []) : x.op = .WaitAndPop uid := by
  obtain ⟨o, r⟩ := x
  cases o <;> simp only [queueAct] at h
  case addSendTask | Clear => split at h <;> exact absurd rfl h
  case WaitAndPop u =>
    split at h
    · rename_i hu
      rw [hu]
    · exact absurd rfl h
  all_goals exact absurd rfl h

/-- **What a sender took from its queue it sent**, but for the packet in its hand. -/
theorem popped_sent (h : (server SHA256).ReachableWhen ok s c) (uid : Int32) :
    popped (queueAct uid) c.history = sentBy uid c.history ++ inHand (c.threads (.sender uid)).log := by
  rw [sentBy, ← (sender_accounts uid).run h, did_eq fun e he hne => ?_]
  · rfl
  · -- no other thread takes from the queue
    obtain ⟨c₁, c₂, h₁, hs, -, -⟩ := h.event_mem he
    have hi := hs.issues h₁
    rw [queueAct_popped hne] at hi
    exact issues_ownSender hi rfl

/-- **A channel hands over in order**: what its sender has sent, has in hand and has
waiting was queued, each packet once and in this order; and over any stretch of the run
in which nobody sets up the channel anew nothing of it is missing. -/
structure ChannelInOrder (SHA256 : Bytes → Bytes) (uid : Int32) (c : Config) : Prop where
  once : (sentBy uid c.history ++ (inHand (c.threads (.sender uid)).log ++ c.state.queue uid)).Sublist
    (queued uid c.history)
  whole : ∀ c' later, (server SHA256).Steps (fun _ _ => True) c c' → c'.history = later ++ c.history →
    (∀ e ∈ later, e.act.op ≠ .Clear uid) →
    sentBy uid later ++ (inHand (c'.threads (.sender uid)).log ++ c'.state.queue uid) =
      inHand (c.threads (.sender uid)).log ++ c.state.queue uid ++ queued uid later

theorem queueAct_clear {x : Entry} (h : queueAct uid x = .clear) : x.op = .Clear uid := by
  obtain ⟨o, r⟩ := x
  cases o <;> simp only [queueAct] at h
  case addSendTask | WaitAndPop => split at h <;> cases h
  case Clear u =>
    split at h
    · rename_i hu
      rw [hu]
    · cases h
  all_goals cases h

theorem channel_in_order (file : DbFile) (disk : Bytes → Option Bytes)
    (h : (server SHA256).Reachable (.boot file disk) c) (uid : Int32) : ChannelInOrder SHA256 uid c where
  once := by
    have hsub := IsQueue.sublist (isQueue_sender uid) h rfl
    rwa [popped_sent h uid, List.append_assoc] at hsub
  whole := by
    intro c' later hsteps hl hclear
    have hq := (isQueue_sender uid).steps hsteps hl fun e he hc => hclear e he (queueAct_clear hc)
    have hbefore := popped_sent h uid
    have hafter := popped_sent (h.steps hsteps) uid
    simp only [popped, sentBy, did, hl, inOrder_append] at hbefore hafter hq ⊢
    rw [hbefore, List.append_assoc, List.append_assoc] at hafter
    rw [← List.append_assoc, ← List.append_cancel_left hafter, List.append_assoc, hq, ← List.append_assoc]
    rfl

/-- Bob's channel is set up and a note of his to himself, sent on another connection,
queued behind the contact list; his sender sends both. -/
def Example.listAndNote : Schedule :=
  session ++ setsUp ++ connects 6 ++
    handles 0 6 1 (packToPacket .SendMessageRequest (.SendMessageRequest (note [97])))
      (stored (note [97]) bob [] 1700000000 1 ++
        [replies 6 1 .SendMessageResponse (.SendMessageResponse firstNote), ⟨.getSender 1, true⟩, ⟨.getSender 1, true⟩,
          ⟨.addSendTask 1 (messageList firstNote), ()⟩]) ++
    passes (contactPacket contacts) ++ passes (messageList firstNote)

theorem channel_in_order_list : ∃ c, Reachable Example.SHA256 c ∧
    sentBy 1 c.history = [contactPacket Example.contacts, messageList Example.firstNote] ∧
    ChannelInOrder Example.SHA256 1 c := by
  obtain ⟨c, hr, hsent⟩ := reachable_of_run Example.SHA256 Example.listAndNote
    (fun c => sentBy 1 c.history = [contactPacket Example.contacts, messageList Example.firstNote]) (by decide +kernel)
  exact ⟨c, hr, hsent, channel_in_order .absent (fun _ => none) hr 1⟩

/-! ## The queue of the workers -/

/-- What an operation does to `RecvSocketQueue`. -/
def recvAct : Entry → QueueAct Int32
  | ⟨.pushRecvSocket fd, _⟩ => .push fd
  | ⟨.popRecvSocket, fd⟩ => .pop fd
  | _ => .leave

theorem isQueue_recvSocket : (server SHA256).IsQueue (fun s => s.RecvSocketQueue) recvAct := by
  intro s x s' h
  obtain ⟨o, r⟩ := x
  by_cases hp : o.part = some .RecvSocketQueue
  · cases o <;> simp only [Op.part, Option.some.injEq, reduceCtorEq] at hp
    case pushRecvSocket fd =>
      simp only [server, State.step, Option.some.injEq] at h
      subst h
      rfl
    case popRecvSocket =>
      simp only [server, State.step] at h
      split at h
      · cases h
      · rename_i fd rest hq
        simp only [Option.ite_none_right_eq_some, Option.some.injEq] at h
        obtain ⟨rfl, rfl⟩ := h
        exact hq
  · have hact : recvAct ⟨o, r⟩ = .leave := by cases o <;> first | rfl | exact absurd rfl hp
    rw [hact]
    exact (State.step_unchanged h).RecvSocketQueue hp

/-- The descriptors reported readable. -/
def readable (events : List EpollEvent) : List Int32 :=
  events.filterMap fun
    | .client fd true => some fd
    | _ => none

/-- What one operation reports. -/
def reports : Entry → List Int32
  | ⟨.epoll_wait, events⟩ => readable events
  | _ => []

/-- What `epoll_wait` reported, in order. -/
def reported (h : List Event) : List Int32 := inOrder (fun e => reports e.act) h

/-- What the turn of the accepting thread has queued. -/
def queues (l : List Entry) : List Int32 := l.flatMap fun x => (recvAct x).pushed

/-- What the turn of the accepting thread has yet to queue. -/
def toQueue : List Entry → List Int32
  | ⟨.epoll_wait, events⟩ :: l => (readable events).drop (queues l).length
  | _ => []

theorem queues_append (l l' : List Entry) : queues (l ++ l') = queues l ++ queues l' := List.flatMap_append

theorem queues_singleton (x : Entry) : queues [x] = (recvAct x).pushed := List.flatMap_singleton _ x

/-- The accepting thread queues what was reported, in order, and by the end of its turn
all of it. -/
theorem onEvents_queues {events : List EpollEvent} {l : List Entry} {q : Code Unit}
    (h : (ServerVan.onEvents events).Path l q) :
    queues l <+: readable events ∧ (q = .ret () → queues l = readable events) := by
  induction events generalizing l with
  | nil =>
    obtain ⟨rfl, -⟩ := path_ret.mp h
    exact ⟨List.prefix_refl _, fun _ => rfl⟩
  | cons ev events ih =>
    -- whatever the event is, what it queues comes first
    have hev : ∀ l₁ l₂, queues l₁ = readable [ev] → (ServerVan.onEvents events).Path l₂ q →
        queues (l₁ ++ l₂) <+: readable (ev :: events) ∧
          (q = .ret () → queues (l₁ ++ l₂) = readable (ev :: events)) := by
      intro l₁ l₂ h₁ hp
      obtain ⟨hpre, hall⟩ := ih hp
      have hsplit : readable (ev :: events) = readable [ev] ++ readable events :=
        List.filterMap_append (l := [ev])
      rw [queues_append, h₁, hsplit]
      exact ⟨(List.prefix_append_right_inj _).mpr hpre, fun hq => by rw [hall hq]⟩
    have hnone : ∀ l, queues l = [] → q ≠ .ret () → queues l <+: readable (ev :: events) ∧
        (q = .ret () → queues l = readable (ev :: events)) := by
      intro l hl hq
      rw [hl]
      exact ⟨List.nil_prefix, fun h => absurd h hq⟩
    cases ev with
    | server =>
      simp only [ServerVan.onEvents, ServerVan.onEvent, ServerVan.acceptClient, bind_eq, op_bind] at h
      rcases path_op.mp h with ⟨rfl, rfl⟩ | ⟨fd, l₁, rfl, h₁⟩
      · exact hnone _ rfl (by simp)
      cases fd with
      | none => exact hev [_] _ rfl h₁
      | some fd =>
        rcases path_op.mp h₁ with ⟨rfl, rfl⟩ | ⟨added, l₂, rfl, h₂⟩
        · exact hnone _ rfl (by simp)
        cases added with
        | true => exact hev [_, _] _ rfl h₂
        | false =>
          obtain ⟨rfl, rfl⟩ := path_terminate.mp h₂
          exact hnone _ rfl (by simp)
    | client fd epollin =>
      cases epollin with
      | true =>
        rcases path_op.mp h with ⟨rfl, rfl⟩ | ⟨_, l₁, rfl, h₁⟩
        · exact hnone _ rfl (by simp)
        · exact hev [_] _ rfl h₁
      | false =>
        simp only [ServerVan.onEvents, ServerVan.onEvent, Van.controlEpollDel, bind_eq, op_bind] at h
        rcases path_op.mp h with ⟨rfl, rfl⟩ | ⟨deleted, l₁, rfl, h₁⟩
        · exact hnone _ rfl (by simp)
        cases deleted with
        | true =>
          rcases path_op.mp h₁ with ⟨rfl, rfl⟩ | ⟨closed, l₂, rfl, h₂⟩
          · exact hnone _ rfl (by simp)
          · exact hev [_, _] _ rfl h₂
        | false =>
          obtain ⟨rfl, rfl⟩ := path_terminate.mp h₁
          exact hnone _ rfl (by simp)

theorem sat_onEvents {events : List EpollEvent} :
    (ServerVan.onEvents events).Sat (fun o => o ≠ .epoll_wait) fun _ => True := by
  induction events with
  | nil => trivial
  | cons ev events ih =>
    refine Sat.bind (Q := fun _ => True) ?_ fun _ _ => ih
    cases ev with
    | server =>
      refine ⟨by simp, fun fd => ?_⟩
      cases fd with
      | none => trivial
      | some fd =>
        refine ⟨by simp, fun ok => ?_⟩
        dsimp only
        split <;> trivial
    | client fd epollin =>
      cases epollin with
      | true => exact ⟨by simp, fun _ => trivial⟩
      | false =>
        refine ⟨by simp, fun ok => ?_⟩
        dsimp only
        split
        · exact ⟨by simp, fun _ => trivial⟩
        · trivial

/-- What the accepting thread alone issues. -/
def Op.ownAcceptor : Op → Bool
  | .epoll_wait | .pushRecvSocket _ => true
  | _ => false

theorem issues_ownAcceptor {tid : Tid} {l : List Entry} {o : Op} (h : ((server SHA256).body tid).Issues l o)
    (ho : o.ownAcceptor = true) : tid = .acceptor := by
  cases tid with
  | acceptor => rfl
  | sender uid =>
    have hof := sat_sender.issues h
    cases o <;> first | exact absurd ho Bool.false_ne_true | exact absurd hof Bool.false_ne_true
  | worker i =>
    exfalso
    rcases worker_issues h with ⟨-, rfl⟩ | ⟨fd, -, rfl⟩ | ⟨fd, conn, n, pkt, hd, l', -, hh, hp⟩
    · cases ho
    · cases ho
    obtain ⟨t, -, hs⟩ := handler_isHandler hh
    cases hp with
    | handling h =>
      rcases hs.issues h with h | h <;> cases o <;> first | exact absurd ho Bool.false_ne_true | cases h
    | replying _ ho' => subst ho'; cases ho
    | callback _ _ hr hcb h =>
      rcases ((hs.runs hr).2.2 _ hcb).2.issues h with h | h <;> cases o <;>
        first | exact absurd ho Bool.false_ne_true | cases h
    | dropping _ _ _ ho' => subst ho'; cases ho
    | closing _ _ _ ho' => subst ho'; cases ho

/-- The accepting thread queues what it is told. -/
theorem acceptor_accounts :
    (server SHA256).Accounts .acceptor reports (fun x => (recvAct x).pushed) toQueue where
  start := rfl
  step := by
    intro l x hi
    simp only [server, ServerVan.Accepting, bind_eq, op_bind, ret_bind, issues_op] at hi
    rcases hi with ⟨rfl, ho⟩ | ⟨events, l, rfl, hi⟩
    · obtain ⟨events, rfl⟩ := Interleave.Entry.of_op ho
      rfl
    · obtain ⟨hpre, -⟩ := onEvents_queues (hi.choose_spec.snoc x.res)
      obtain ⟨o, r⟩ := x
      have hne : o ≠ .epoll_wait := sat_onEvents.issues hi
      have hrep : reports ⟨o, r⟩ = [] := by cases o <;> first | rfl | exact absurd rfl hne
      obtain ⟨rest, hrest⟩ := hpre
      rw [List.cons_append, toQueue, toQueue, ← hrest, List.drop_left, queues_append, List.append_assoc,
        List.drop_left, queues_singleton, hrep, List.append_nil]
  turn := by
    intro l hrun
    simp only [server, ServerVan.Accepting, bind_eq, op_bind, ret_bind, runs_op] at hrun
    obtain ⟨events, l, rfl, hrun⟩ := hrun
    rw [toQueue, (onEvents_queues hrun).2 rfl, List.drop_length]

/-- What was reported is queued, but for what the accepting thread is about to queue. -/
theorem reported_pushed (h : (server SHA256).ReachableWhen ok s c) :
    reported c.history = pushed recvAct c.history ++ toQueue (c.threads .acceptor).log := by
  -- no other thread reports or queues
  have hown : ∀ e ∈ c.history, e.act.op.ownAcceptor = true → e.tid = .acceptor := by
    intro e he ho
    obtain ⟨c₁, c₂, h₁, hs, -, -⟩ := h.event_mem he
    exact issues_ownAcceptor (hs.issues h₁) ho
  have hrun := acceptor_accounts.run h
  rw [did_eq fun e he hne => hown e he ?_, did_eq fun e he hne => hown e he ?_] at hrun
  · exact hrun
  · generalize e.act = x at hne
    obtain ⟨o, r⟩ := x
    cases o <;> first | rfl | exact absurd rfl hne
  · generalize e.act = x at hne
    obtain ⟨o, r⟩ := x
    cases o <;> first | rfl | exact absurd rfl hne

/-- **Every descriptor reported readable is handed to one worker**: what the workers have
taken off `RecvSocketQueue`, what waits there and what the accepting thread has yet to
queue is what `epoll_wait` reported, in order. -/
theorem readable_handed_over (file : DbFile) (disk : Bytes → Option Bytes)
    (h : (server SHA256).Reachable (.boot file disk) c) :
    popped recvAct c.history ++ (c.state.RecvSocketQueue ++ toQueue (c.threads .acceptor).log) =
      reported c.history := by
  have hq := IsQueue.whole isQueue_recvSocket h rfl fun e _ hc => ?_
  · rw [← List.append_assoc, hq, reported_pushed h]
  · -- nothing empties this queue
    generalize e.act = x at hc
    obtain ⟨o, r⟩ := x
    cases o <;> cases hc

/-- While Bob's connection is set up, the first three reports of his descriptor are with a
worker and the fourth waits. -/
theorem readable_handed_over_session : ∃ c, Reachable Example.SHA256 c ∧
    popped recvAct c.history = [5, 5, 5] ∧ c.state.RecvSocketQueue = [5] ∧
    popped recvAct c.history ++ (c.state.RecvSocketQueue ++ toQueue (c.threads .acceptor).log) =
      reported c.history := by
  obtain ⟨c, hr, hpop, hqueue⟩ := reachable_of_run Example.SHA256 (Example.session ++ arrives 5)
    (fun c => popped recvAct c.history = [5, 5, 5] ∧ c.state.RecvSocketQueue = [5]) (by decide +kernel)
  exact ⟨c, hr, hpop, hqueue, readable_handed_over .absent (fun _ => none) hr⟩

end NetChat
