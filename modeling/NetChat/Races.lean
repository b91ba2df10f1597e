/-
What the locks are for. Two threads are never about to touch the same object, and
what a thread is about to do is defined: it unlocks what it holds, takes from a queue
that has something, follows a pointer to a sender that is there (`accesses_safe`). And
whoever waits for a mutex waits for a thread that can move, or for one that waits in
turn, and so on to one that can move (`no_deadlock`): a mutex is only taken over those
of lower rank.
-/
import NetChat.Guarded

namespace NetChat

open Interleave Prog

variable {SHA256 : Bytes → Bytes} {t : Tid} {σ : LockState} {s : State} {x : LockOp} {c' : LockConfig} {file : DbFile}
  {disk : Bytes → Option Bytes}

/-! ## Races -/

/-- What the threads share in memory. -/
inductive Object
  | pool (p : Pool)
  | keepalive_sender_mp
  | fd_ (uid : Int32)
  | queue_ (q : Queue)
  deriving DecidableEq

def LockOp.touches : LockOp → Option Object
  | .pool p _ => some (.pool p)
  | .senders _ => some .keepalive_sender_mp
  | .fd uid | .setFd uid _ => some (.fd_ uid)
  | .queue q _ => some (.queue_ q)
  | _ => none

/-- `t` is about to do `x`. -/
def Next (c' : LockConfig) (t : Tid) (x : LockOp) : Prop := ∃ k, (c'.threads t).rest = .op x k

/-- What the standard library and the pointers ask for. -/
def LockOp.Defined (σ : LockState) : LockOp → Prop
  | .lock t m => σ.holder m ≠ some t
  | .unlock t m => σ.holder m = some t
  | .wait t q => σ.holder (.queue q) = some t
  | .senders (.sender uid) | .fd uid | .setFd uid _ => (σ.data.keepalive_sender_mp uid).isSome = true
  | .queue q .front | .queue q .pop => ∃ v l, q.get σ.data = some (v :: l)
  | _ => True

structure AccessesSafe (c' : LockConfig) : Prop where
  races : ∀ t t' x x' obj, Next c' t x → Next c' t' x' → x.touches = some obj → x'.touches = some obj → t = t'
  defined : ∀ t x, Next c' t x → x.Defined c'.state

/-- The mutex of an object. -/
def Object.mutex : Object → Mutex
  | .pool p => .pool p
  | .keepalive_sender_mp => .keepalive_sender_mp
  | .fd_ uid => .mu_ uid
  | .queue_ q => .queue q

theorem holds_of_touches {obj : Object} (h : Pre t σ x) (hx : x.touches = some obj) :
    σ.holder obj.mutex = some t := by
  cases x with
  | pool | senders | queue =>
    cases hx
    exact h.1
  | fd | setFd =>
    cases hx
    exact h
  | _ => cases hx

theorem defined_of_pre (hi : Agree σ s) (h : Pre t σ x) : x.Defined σ := by
  cases x with
  | lock t' m =>
    obtain ⟨rfl, hrank, -⟩ := h
    exact fun hm => Nat.lt_irrefl _ (hrank m hm)
  | unlock t' m =>
    obtain ⟨rfl, hm⟩ := h
    exact hm
  | wait t' q =>
    obtain ⟨rfl, hm, -⟩ := h
    exact hm
  | senders a =>
    cases a with
    | sender uid => exact h.2.1 uid rfl
    | _ => trivial
  | fd uid => exact hi.has (.mu_ uid) t h
  | setFd uid fd => exact hi.has (.mu_ uid) t h
  | queue q a =>
    cases a with
    | front => exact h.2 (.inl rfl)
    | pop => exact h.2 (.inr rfl)
    | _ => trivial
  | _ => trivial

/-- **No data race and nothing undefined**, at any point of any interleaving. -/
theorem accesses_safe (h : (lockedServer SHA256).Reachable (.of (.boot file disk)) c') (hrun : c'.crashed = false) :
    AccessesSafe c' := by
  obtain ⟨c, -, hc⟩ := coupled_of_boot h
  have hpre : ∀ t x, Next c' t x → Pre t c'.state x := by
    rintro t x ⟨k, hk⟩
    exact hc.pre hrun hk
  constructor
  · intro t t' x x' obj hx hx' hobj hobj'
    have hheld := holds_of_touches (hpre t x hx) hobj
    rw [holds_of_touches (hpre t' x' hx') hobj'] at hheld
    exact (Option.some.inj hheld).symm
  · exact fun t x hx => defined_of_pre (hc.inv hrun) (hpre t x hx)

/-- While the accepting thread is inside `Push` and worker 0 is about to wake. -/
theorem accesses_safe_sleeps : ∃ c', c'.state.asleep .RecvSocketQueue_ (.worker 0) = true ∧
    c'.state.holder (.queue .RecvSocketQueue_) = some .acceptor ∧ AccessesSafe c' := by
  obtain ⟨c', hr, hrun, hasleep, hholder, -⟩ := reachable_sleeps
  exact ⟨c', hasleep, hholder, accesses_safe hr hrun⟩

/-! ## Deadlocks -/

/-- Every call can return. -/
theorem call_returns {o : Op} (ho : o.outside = true) (s : State) : ∃ r s', s.step o r = some s' := by
  cases o with
  | epoll_wait => exact ⟨[], s, by simp [State.step]⟩
  | accept => exact ⟨none, s, rfl⟩
  | epollAdd fd => exact ⟨_, _, if_pos rfl⟩
  | epollDel fd => exact ⟨_, _, if_pos rfl⟩
  | close fd => exact ⟨_, _, if_pos rfl⟩
  | Recv fd => exact ⟨.failed, s, rfl⟩
  | Send fd pkt => exact ⟨⟨s.fds fd, false⟩, s, by simp [State.step]⟩
  | getUser | getUserById | getAllUsers | getMessage | getAllMessages | getFile => exact ⟨.error .failed, s, rfl⟩
  | insertUser | insertMessage | insertFile | updateFile => exact ⟨.error .failed, s, rfl⟩
  | getLastInsertRowid => exact ⟨_, _, if_pos rfl⟩
  | checkDiskExistence id => exact ⟨_, _, if_pos rfl⟩
  | saveToDisk id content => exact ⟨.openFailed, s, rfl⟩
  | loadFromDisk id => exact ⟨none, s, rfl⟩
  | time => exact ⟨0, s, rfl⟩
  | getTimestamp => exact ⟨0, s, rfl⟩
  | genChallenge seed =>
    have hch : isChallenge Example.challenge = true := by decide
    exact ⟨Example.challenge, s, by simp [State.step, hch]⟩
  | getUUID =>
    have huuid : isUUID Example.token = true := by decide
    exact ⟨Example.token, s, by simp [State.step, huuid]⟩
  | _ => cases ho

/-- Only a `lock` can be waiting. -/
theorem enabled_of_pre (hi : Agree σ s) (h : Pre t σ x) (hx : ∀ m, x ≠ .lock t m) : ∃ r σ', σ.step x r = some σ' := by
  cases x with
  | lock t' m =>
    obtain ⟨rfl, -⟩ := h
    exact absurd rfl (hx m)
  | unlock t' m =>
    obtain ⟨rfl, hm⟩ := h
    exact ⟨(), _, if_pos hm⟩
  | wait t' q =>
    obtain ⟨rfl, hm, -⟩ := h
    exact ⟨(), _, if_pos hm⟩
  | notify_all | skip => exact ⟨(), _, rfl⟩
  | pool p a =>
    cases a with
    | find k => exact ⟨_, _, by simp only [LockState.step, MapAccess.step]; exact congrArg _ (if_pos rfl)⟩
    | read k => exact ⟨_, _, by simp only [LockState.step, MapAccess.step]; exact congrArg _ (if_pos rfl)⟩
    | assign | erase => exact ⟨(), _, rfl⟩
  | senders a =>
    cases a with
    | find uid => exact ⟨_, _, by simp only [LockState.step, LockState.onSenders]; exact congrArg _ (if_pos rfl)⟩
    | sender uid =>
      exact ⟨(), _, by simp only [LockState.step, LockState.onSenders]; exact congrArg _ (if_pos (h.2.1 uid rfl))⟩
    | make_unique => exact ⟨(), _, rfl⟩
  | fd uid =>
    obtain ⟨snd, hsnd⟩ := Option.isSome_iff_exists.mp (hi.has (.mu_ uid) t h)
    exact ⟨snd.fd_, _, by simp only [LockState.step, onSender_eq hsnd, if_true]; rfl⟩
  | setFd uid fd =>
    obtain ⟨snd, hsnd⟩ := Option.isSome_iff_exists.mp (hi.has (.mu_ uid) t h)
    exact ⟨(), _, by simp only [LockState.step, onSender_eq hsnd]; rfl⟩
  | queue q a =>
    obtain ⟨ql, hql⟩ := Queue.get_of_has (hi.has (.queue q) t h.1)
    have hne : a = .front ∨ a = .pop → ∃ v l, ql = v :: l := by
      intro ha
      obtain ⟨v, l, hvl⟩ := h.2 ha
      exact ⟨v, l, Option.some.inj (hql.symm.trans hvl)⟩
    cases a with
    | size => exact ⟨ql.length, _, by simp only [LockState.step, hql, Option.bind_some, QueueAccess.step, if_true]; rfl⟩
    | empty =>
      exact ⟨ql.isEmpty, _, by simp only [LockState.step, hql, Option.bind_some, QueueAccess.step, if_true]; rfl⟩
    | push v => exact ⟨(), _, by simp only [LockState.step, hql, Option.bind_some, QueueAccess.step]; rfl⟩
    | front =>
      obtain ⟨v, l, rfl⟩ := hne (.inl rfl)
      exact ⟨v, _, by
        simp only [LockState.step, hql, Option.bind_some, QueueAccess.step, List.head?_cons, if_true]
        rfl⟩
    | pop =>
      obtain ⟨v, l, rfl⟩ := hne (.inr rfl)
      exact ⟨(), _, by
        simp only [LockState.step, hql, Option.bind_some, QueueAccess.step, reduceCtorEq, if_false]
        rfl⟩
  | call o =>
    obtain ⟨r, s', hs⟩ := call_returns h σ.data
    exact ⟨r, _, by simp only [LockState.step, hs]; rfl⟩

def CanMove (SHA256 : Bytes → Bytes) (c' : LockConfig) (t : Tid) : Prop :=
  ∃ e c₁, e.tid = t ∧ (lockedServer SHA256).Step c' e c₁

/-- `t` can move, or waits for a thread that is unblocked. -/
inductive Unblocked (SHA256 : Bytes → Bytes) (c' : LockConfig) : Tid → Prop
  | moves {t : Tid} : CanMove SHA256 c' t → Unblocked SHA256 c' t
  | waits {t t' : Tid} {m : Mutex} : Next c' t (.lock t m) → c'.state.holder m = some t' → Unblocked SHA256 c' t' →
      Unblocked SHA256 c' t

theorem canMove {r : x.Res} {σ' : LockState} (hrun : c'.crashed = false) (hx : Next c' t x)
    (hs : c'.state.step x r = some σ') : CanMove SHA256 c' t := by
  obtain ⟨k, hk⟩ := hx
  exact ⟨_, _, rfl, Machine.Step.mk hrun hk hs⟩

section
variable {c : Config} (hc : (locking SHA256).Coupled c' c) (hrun : c'.crashed = false)
include hc hrun

/-- A thread that may take the mutexes it is about to take, when whoever holds one of
these is unblocked. -/
theorem unblocked_of_holders (t : Tid) (hhas : c'.state.started t = true ∨ ∃ m, c'.state.holder m = some t)
    (hheld : ∀ m t', (∀ m', c'.state.holder m' = some t → m'.rank < m.rank) → c'.state.holder m = some t' →
      Unblocked SHA256 c' t') : Unblocked SHA256 c' t := by
  obtain ⟨x, k, hk⟩ := hc.next hrun t
  have hpre : Pre t c'.state x := hc.pre hrun hk
  by_cases hx : ∃ m, x = .lock t m
  · obtain ⟨m, rfl⟩ := hx
    obtain ⟨-, hrank, hm⟩ := hpre
    cases hholder : c'.state.holder m with
    | none =>
      have hs : c'.state.step (.lock t m) () = some (c'.state.lockedBy t m) := if_pos ⟨hholder, hm hhas⟩
      exact .moves (canMove hrun ⟨k, hk⟩ hs)
    | some t' => exact .waits ⟨k, hk⟩ hholder (hheld m t' hrank hholder)
  · obtain ⟨r, σ', hs⟩ := enabled_of_pre (hc.inv hrun) hpre fun m hm => hx ⟨m, hm⟩
    exact .moves (canMove hrun ⟨k, hk⟩ hs)

/-- By induction on how far the mutex is from the top rank. -/
theorem unblocked_of_rank (n : Nat) : ∀ m t, 2 ≤ m.rank + n → c'.state.holder m = some t → Unblocked SHA256 c' t := by
  induction n with
  | zero =>
    intro m t hm
    cases m <;> simp [Mutex.rank] at hm
  | succ n ih =>
    intro m t hm hholder
    refine unblocked_of_holders hc hrun t (.inr ⟨m, hholder⟩) fun m' t' hrank hholder' => ih m' t' ?_ hholder'
    have hlt := hrank m hholder
    omega

end

/-- **No deadlock**: whoever is blocked is so by threads the last of which can move. -/
theorem no_deadlock (h : (lockedServer SHA256).Reachable (.of (.boot file disk)) c') (hrun : c'.crashed = false)
    (ht : c'.state.started t = true) : Unblocked SHA256 c' t := by
  obtain ⟨c, -, hc⟩ := coupled_of_boot h
  refine unblocked_of_holders hc hrun t (.inl ht) fun m t' _ hholder => ?_
  exact unblocked_of_rank hc hrun 2 m t' (by omega) hholder

/-- Worker 0 needs the mutex that the accepting thread holds. -/
theorem no_deadlock_sleeps : ∃ c', c'.state.asleep .RecvSocketQueue_ (.worker 0) = true ∧
    c'.state.holder (.queue .RecvSocketQueue_) = some .acceptor ∧ Unblocked Example.SHA256 c' (.worker 0) := by
  obtain ⟨c', hr, hrun, hasleep, hholder, -⟩ := reachable_sleeps
  exact ⟨c', hasleep, hholder, no_deadlock hr hrun rfl⟩

end NetChat
