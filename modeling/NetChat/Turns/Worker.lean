/-
The turn of a worker in phases: it takes a descriptor, receives a packet, runs
the handler, replies, and calls the callback or drops the client.
-/
import NetChat.Turns.Owners

namespace NetChat

open Interleave Prog Server

variable {SHA256 : Bytes → Bytes} {l : List Entry} {o : Op}

/-! ## The phases -/

/-- Where in the handling of a packet received on `fd`, by the handler `hd`, an
operation `o` is issued, `l` being the log since the packet was received. -/
inductive Phase (fd : Int32) (hd : Code Reply) (l : List Entry) (o : Op) : Prop
  | handling : hd.Issues l o → Phase fd hd l o
  | replying {reply : Reply} : hd.Runs l reply → o = .Send fd reply.1 → Phase fd hd l o
  | callback {reply : Reply} {cb : Code Unit} {l₁ l₂ : List Entry} {out : SendOut} :
      l = l₁ ++ ⟨.Send fd reply.1, out⟩ :: l₂ → out.ok = true → hd.Runs l₁ reply → reply.2 = some cb →
      cb.Issues l₂ o → Phase fd hd l o
  | dropping {reply : Reply} {l₁ : List Entry} {out : SendOut} :
      l = l₁ ++ [⟨.Send fd reply.1, out⟩] → out.ok = false → hd.Runs l₁ reply → o = .epollDel fd →
      Phase fd hd l o
  | closing {reply : Reply} {l₁ : List Entry} {out : SendOut} :
      l = l₁ ++ [⟨.Send fd reply.1, out⟩, ⟨.epollDel fd, true⟩] → out.ok = false → hd.Runs l₁ reply →
      o = .close fd → Phase fd hd l o

theorem respond_phase {fd : Int32} {hd : Code Reply} (hi : (hd.bind (respond fd)).Issues l o) :
    Phase fd hd l o := by
  rcases issues_bind.mp hi with h | ⟨reply, l₁, l₂, rfl, hr, h⟩
  · exact .handling h
  unfold respond at h
  split at h
  · simp only [bind_eq, op_bind, ret_bind, issues_op] at h
    rcases h with ⟨rfl, rfl⟩ | ⟨out, l₂, rfl, h⟩
    · exact .replying (by simpa using hr) rfl
    split at h
    · rename_i hok
      split at h
      · rename_i cb hcb
        exact .callback rfl hok hr hcb h
      · simp at h
    · rename_i hok
      simp only [Van.controlEpollDel, Van.closeFd, op_bind, issues_op] at h
      rcases h with ⟨rfl, rfl⟩ | ⟨ok, l₂, rfl, h⟩
      · exact .dropping rfl (by simpa using hok) hr rfl
      · split at h
        · rename_i hd
          subst hd
          simp only [ret_bind, issues_op, issues_ret, and_false, exists_false, or_false] at h
          obtain ⟨rfl, rfl⟩ := h
          exact .closing rfl (by simpa using hok) hr rfl
        · simp at h
  · simp at h

/-- **What a worker issues**: it takes a descriptor, receives on it, and then is
in one of the phases of handling the packet. -/
theorem worker_issues (h : (RevcSocketThreadFunc SHA256).Issues l o) :
    (l = [] ∧ o = .popRecvSocket) ∨ (∃ fd, l = [⟨.popRecvSocket, fd⟩] ∧ o = .Recv fd) ∨
      ∃ fd conn n pkt hd l', l = received fd conn n pkt ++ l' ∧ handler SHA256 fd pkt = some hd ∧
        Phase fd hd l' o := by
  simp only [RevcSocketThreadFunc, processRecvSocket, bind_eq, op_bind, ret_bind, issues_op] at h
  rcases h with ⟨rfl, rfl⟩ | ⟨fd, l, rfl, ⟨rfl, rfl⟩ | ⟨out, l, rfl, h⟩⟩
  · exact .inl ⟨rfl, rfl⟩
  · exact .inr (.inl ⟨fd, rfl, rfl⟩)
  · split at h
    · rename_i conn n pkt
      split at h
      · rename_i hd hh
        exact .inr (.inr ⟨fd, conn, n, pkt, hd, l, rfl, hh, respond_phase h⟩)
      · simp at h
    · simp at h

/-- A worker reads first. -/
theorem worker_issues_recv {fd : Int32} (h : (RevcSocketThreadFunc SHA256).Issues l (.Recv fd)) : l = [⟨.popRecvSocket, fd⟩] := by
  rcases worker_issues h with ⟨-, ho⟩ | ⟨fd', hl, ho⟩ | ⟨fd', conn, n, pkt, hd, l', rfl, hh, hp⟩
  · cases ho
  · cases ho
    exact hl
  obtain ⟨t, -, hs⟩ := handler_isHandler hh
  cases hp with
  | handling h => rcases hs.issues h with h | h <;> cases h
  | replying _ ho => cases ho
  | callback _ _ hr hcb h => rcases ((hs.runs hr).2.2 _ hcb).2.issues h with h | h <;> cases h
  | dropping _ _ _ ho => cases ho
  | closing _ _ _ ho => cases ho

/-- A worker sends one packet in a turn, its reply. -/
theorem worker_issues_send {fd : Int32} {p : Packet} (h : (RevcSocketThreadFunc SHA256).Issues l (.Send fd p)) :
    ∃ conn n pkt hd l' cb, l = received fd conn n pkt ++ l' ∧ handler SHA256 fd pkt = some hd ∧
      hd.Runs l' (p, cb) := by
  rcases worker_issues h with ⟨-, ho⟩ | ⟨fd', -, ho⟩ | ⟨fd', conn, n, pkt, hd, l', rfl, hh, hp⟩
  · cases ho
  · cases ho
  obtain ⟨t, -, hs⟩ := handler_isHandler hh
  cases hp with
  | handling h => rcases hs.issues h with h | h <;> cases h
  | @replying reply hr ho => cases ho; exact ⟨conn, n, pkt, hd, l', reply.2, rfl, hh, hr⟩
  | callback _ _ hr hcb h => rcases ((hs.runs hr).2.2 _ hcb).2.issues h with h | h <;> cases h
  | dropping _ _ _ ho => cases ho
  | closing _ _ _ ho => cases ho

/-- An operation owned by a request type's handler is issued by it. -/
theorem worker_issues_handler {t : PacketType} (h : (RevcSocketThreadFunc SHA256).Issues l o)
    (ho : o.handlerOwner = some t) :
    ∃ fd conn n pkt hd l', l = received fd conn n pkt ++ l' ∧ pkt.packetid = t.val ∧
      handler SHA256 fd pkt = some hd ∧ hd.Issues l' o := by
  rcases worker_issues h with ⟨-, rfl⟩ | ⟨fd, -, rfl⟩ | ⟨fd, conn, n, pkt, hd, l', rfl, hh, hp⟩
  · cases ho
  · cases ho
  obtain ⟨t', ht', hs⟩ := handler_isHandler hh
  cases hp with
  | handling h =>
    obtain rfl := (hs.issues h).owner ho
    exact ⟨fd, conn, n, pkt, hd, l', rfl, ht', hh, h⟩
  | replying _ ho' => subst ho'; cases ho
  | callback _ _ hr hcb h => rw [(((hs.runs hr).2.2 _ hcb).2.issues h).handlerOwner] at ho; cases ho
  | dropping _ _ _ ho' => subst ho'; cases ho
  | closing _ _ _ ho' => subst ho'; cases ho

/-- The turn of a worker in a callback: the packet and its handler, the
handler's log and reply, the callback and its log. -/
def Calling (SHA256 : Bytes → Bytes) (t : PacketType) (l : List Entry) (o : Op) : Prop :=
  ∃ fd conn n pkt hd reply cb l₁ l₂ out,
    l = received fd conn n pkt ++ (l₁ ++ ⟨.Send fd reply.1, out⟩ :: l₂) ∧ pkt.packetid = t.val ∧
    handler SHA256 fd pkt = some hd ∧ hd.Runs l₁ reply ∧ out.ok = true ∧ reply.2 = some cb ∧ cb.Issues l₂ o

/-- What only callbacks issue is issued by one. -/
theorem worker_issues_callback (h : (RevcSocketThreadFunc SHA256).Issues l o)
    (ho : o.callbackOwner.isSome = true ∨ o.callbackShared = true) (hs : o.handlerShared = false)
    (hne : ∀ fd, o ≠ .epollDel fd) :
    ∃ t, t.hasCallback ∧ Calling SHA256 t l o ∧ ∀ t', o.callbackOwner = some t' → t = t' := by
  have hnot : o.handlerOwner = none := by
    rcases ho with ho | ho <;> cases o <;> first | rfl | exact absurd ho Bool.false_ne_true
  rcases worker_issues h with ⟨-, rfl⟩ | ⟨fd, -, rfl⟩ | ⟨fd, conn, n, pkt, hd, l', rfl, hh, hp⟩
  · rcases ho with ho | ho <;> cases ho
  · rcases ho with ho | ho <;> cases ho
  obtain ⟨t, ht, hsat⟩ := handler_isHandler hh
  cases hp with
  | handling h =>
    rcases hsat.issues h with h | h
    · rw [hs] at h; cases h
    · rw [hnot] at h; cases h
  | replying _ ho' => subst ho'; rcases ho with ho | ho <;> cases ho
  | callback hl hok hr hcb h =>
    obtain ⟨hcall, hs'⟩ := (hsat.runs hr).2.2 _ hcb
    exact ⟨t, hcall, ⟨fd, conn, n, pkt, hd, _, _, _, _, _, by rw [hl], ht, hh, hr, hok, hcb, h⟩,
      fun _ ho => (hs'.issues h).owner ho⟩
  | dropping _ _ _ ho' => exact absurd ho' (hne _)
  | closing _ _ _ ho' => subst ho'; rcases ho with ho | ho <;> cases ho

/-- A whole turn of `respond`: the reply, and after it the callback, or after a
failed reply the end of the connection. -/
theorem respond_runs {fd : Int32} {reply : Reply} (hc : reply.1.content.isSome = true)
    (h : (respond fd reply).Runs l ()) :
    ∃ out rest, l = ⟨.Send fd reply.1, out⟩ :: rest ∧
      (out.ok = true → (∀ cb, reply.2 = some cb → cb.Runs rest ()) ∧ (reply.2 = none → rest = [])) ∧
      (out.ok = false → ∃ conn, rest = [⟨.epollDel fd, true⟩, ⟨.close fd, conn⟩]) := by
  simp only [respond, hc, if_true, bind_eq, op_bind, ret_bind, runs_op] at h
  obtain ⟨out, rest, rfl, h⟩ := h
  refine ⟨out, rest, rfl, fun hok => ?_, fun hok => ?_⟩
  · rw [if_pos hok] at h
    cases hr : reply.2 with
    | some cb =>
      simp only [hr] at h
      exact ⟨fun cb' hcb => by cases hcb; exact h, by simp⟩
    | none =>
      simp only [hr] at h
      exact ⟨by simp, fun _ => (runs_ret.mp h).1⟩
  · rw [if_neg (by simp [hok])] at h
    simp only [Van.controlEpollDel, Van.closeFd, op_bind, runs_op] at h
    obtain ⟨b, rest, rfl, h⟩ := h
    split at h
    · rename_i hb
      subst hb
      simp only [ret_bind, runs_op, runs_ret, and_true] at h
      obtain ⟨conn, rest, rfl, rfl⟩ := h
      exact ⟨conn, rfl⟩
    · simp at h

/-- A whole turn of a worker that received a packet the server handles. -/
theorem worker_runs {fd : Int32} {conn : Conn} {n : Nat} {pkt : Packet} {hd : Code Reply}
    (hh : handler SHA256 fd pkt = some hd) (h : (RevcSocketThreadFunc SHA256).Runs (received fd conn n pkt ++ l) ()) :
    ∃ reply l₁ l₂, l = l₁ ++ l₂ ∧ hd.Runs l₁ reply ∧ (respond fd reply).Runs l₂ () := by
  simp only [RevcSocketThreadFunc, processRecvSocket, bind_eq, op_bind, ret_bind, runs_op, received,
    List.cons_append, List.nil_append, List.cons.injEq] at h
  obtain ⟨fd', l', ⟨hfd, rfl⟩, out, l'', ⟨-, rfl⟩, h⟩ := h
  cases hfd
  simp only [hh] at h
  obtain ⟨reply, l₁, l₂, hl, hr, hs⟩ := runs_bind.mp h
  exact ⟨reply, l₁, l₂, hl, hr, hs⟩

/-! What a worker goes on to issue: what its handler does, the reply its handler
came to, and after a reply that was sent what the callback does. -/

section
variable {fd : Int32} {conn : Conn} {n : Nat} {pkt : Packet} {hd : Code Reply} (hh : handler SHA256 fd pkt = some hd)
include hh

theorem worker_path {q : Code Unit} (h : (hd.bind (respond fd)).Path l q) :
    (RevcSocketThreadFunc SHA256).Path (received fd conn n pkt ++ l) q := by
  refine .cons (.cons ?_)
  simp only [ret_bind, hh]
  exact h

theorem worker_responds (h : (hd.bind (respond fd)).Issues l o) :
    (RevcSocketThreadFunc SHA256).Issues (received fd conn n pkt ++ l) o := by
  obtain ⟨k, h⟩ := h
  exact ⟨k, worker_path hh h⟩

theorem worker_handles (h : hd.Issues l o) : (RevcSocketThreadFunc SHA256).Issues (received fd conn n pkt ++ l) o :=
  worker_responds hh (issues_bind.mpr (.inl h))

theorem worker_replies {reply : Reply} (h : hd.Runs l reply) (hc : reply.1.content.isSome = true) :
    (RevcSocketThreadFunc SHA256).Issues (received fd conn n pkt ++ l) (.Send fd reply.1) := by
  refine worker_responds hh (issues_bind.mpr (.inr ⟨reply, l, [], by simp, h, ?_⟩))
  simp [respond, hc]

theorem worker_calls_path {reply : Reply} {cb q : Code Unit} {l₂ : List Entry} {out : SendOut} (h : hd.Runs l reply)
    (hc : reply.1.content.isSome = true) (hok : out.ok = true) (hcb : reply.2 = some cb) (hp : cb.Path l₂ q) :
    (RevcSocketThreadFunc SHA256).Path (received fd conn n pkt ++ (l ++ ⟨.Send fd reply.1, out⟩ :: l₂)) q := by
  refine worker_path hh ((h.bind (respond fd)).append ?_)
  simp only [ret_bind, respond, hc, if_true, bind_eq, op_bind, hcb]
  refine .cons ?_
  rw [if_pos hok]
  exact hp

theorem worker_calls {reply : Reply} {cb : Code Unit} {l₂ : List Entry} {out : SendOut} (h : hd.Runs l reply)
    (hc : reply.1.content.isSome = true) (hok : out.ok = true) (hcb : reply.2 = some cb) (hi : cb.Issues l₂ o) :
    (RevcSocketThreadFunc SHA256).Issues (received fd conn n pkt ++ (l ++ ⟨.Send fd reply.1, out⟩ :: l₂)) o := by
  obtain ⟨k, hk⟩ := hi
  exact ⟨k, worker_calls_path hh h hc hok hcb hk⟩

end

/-- A handler sends nothing itself. -/
theorem handler_runs_no_send {fd : Int32} {pkt : Packet} {hd : Code Reply} {reply : Reply}
    (hh : handler SHA256 fd pkt = some hd) (h : hd.Runs l reply) : ∀ x ∈ l, ∀ fd p, x.op ≠ .Send fd p := by
  obtain ⟨t, -, hs⟩ := handler_isHandler hh
  intro x hx fd p ho
  have hof := (hs.runs h).1 x hx
  rw [ho] at hof
  rcases hof with hof | hof <;> cases hof

/-- A worker sends once in a turn: no reply follows another in it. -/
theorem worker_sends_once {s : State} {ok : Config → Event → Prop} {c : Config} {e e' : Event}
    {later mid past : List Event} {i : Nat} {fd fd' : Int32} {p p' : Packet} (h : (server SHA256).ReachableWhen ok s c)
    (hh : c.history = later ++ e' :: (mid ++ e :: past)) (hturn : Machine.SameTurn (.worker i) mid)
    (ht : e.tid = .worker i) (ht' : e'.tid = .worker i) (ho : e.act.op = .Send fd p) (ho' : e'.act.op = .Send fd' p') :
    False := by
  obtain ⟨c₁, c₂, h₁, hh₁, hs, -, -⟩ := h.event hh
  have hlog := h₁.log_of_sameTurn hh₁ (by rw [ht]; exact hturn)
  have hi := hs.issues h₁
  rw [ht', ho'] at hi
  obtain ⟨conn, n, pkt, hd, l', cb, hpre, hhd, hrun⟩ := worker_issues_send hi
  rw [ht, ← ht', hs.log, hpre] at hlog
  rcases hlog with hlog | ⟨q, hlog⟩
  · simp [received] at hlog
  -- the earlier reply would be on the log of a turn that has not replied
  have hin : e.act ∈ received fd' conn n pkt ++ l' := by simp [hlog]
  rcases List.mem_append.mp hin with hin | hin
  · simp only [received, List.mem_cons, List.not_mem_nil, or_false] at hin
    rcases hin with hx | hx <;> rw [hx] at ho <;> cases ho
  · exact handler_runs_no_send hhd hrun _ hin fd p ho

/-- The log of a callback's operation, when a reply is on it: that reply is the
one the callback came with. -/
theorem Calling.reply {t : PacketType} {fd fd' : Int32} {conn : Conn} {n : Nat} {pkt p : Packet} {hd : Code Reply}
    {reply : Reply} {l₁ l₂ : List Entry} {out : SendOut} (hh : handler SHA256 fd pkt = some hd) (hr : hd.Runs l₁ reply)
    (h : Calling SHA256 t (received fd conn n pkt ++ (l₁ ++ ⟨.Send fd' p, out⟩ :: l₂)) o) :
    ∃ reply' cb, pkt.packetid = t.val ∧ fd' = fd ∧ p = reply'.1 ∧ hd.Runs l₁ reply' ∧ reply'.2 = some cb ∧
      cb.Issues l₂ o := by
  obtain ⟨fd₀, conn₀, n₀, pkt₀, hd₀, reply', cb, l₁', l₂', out', hl, ht, hh₀, hr', -, hcb, hi⟩ := h
  simp only [received, List.cons_append, List.nil_append, List.cons.injEq, Interleave.Entry.mk.injEq, Op.Recv.injEq,
    true_and] at hl
  obtain ⟨-, ⟨rfl, hout⟩, hl⟩ := hl
  cases hout
  rw [hh] at hh₀
  cases hh₀
  obtain ⟨rfl, hsend, rfl⟩ := split_first_unique (P := fun x : Entry => ∃ fd p, x.op = .Send fd p) hl ⟨_, _, rfl⟩
    ⟨_, _, rfl⟩ (fun x hx ⟨fd, p, ho⟩ => handler_runs_no_send hh hr x hx fd p ho)
    (fun x hx ⟨fd, p, ho⟩ => handler_runs_no_send hh hr' x hx fd p ho)
  cases hsend
  exact ⟨reply', cb, ht, rfl, rfl, hr', hcb, hi⟩

end NetChat
