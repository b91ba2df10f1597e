/-
The locks. What `State` takes as one operation is, in the source, a function that
locks a mutex, touches the object behind it access by access, and unlocks it:
those of `UM` on its maps, `setFd` and the body of `run` on a sender's `fd_`, and
`Push`, `WaitAndPop` and `Clear` of `ThreadsafeQueue`, whose `WaitAndPop` sleeps on
a condition variable. This module has these functions as they are written, with a
step for each lock, unlock and access, so that threads interleave inside them;
`locks_atomic` says that they cannot be told from single operations.

A mutex does not know what it guards, and nothing in the steps stops a thread from
touching an object without its mutex.
-/
import NetChat.Lib.Refine
import NetChat.System

namespace NetChat

open Interleave

/-- The maps of `Server` that only `UM` touches, each behind a mutex of its own. -/
inductive Pool
  | challenge_pool
  | token_pool
  | file_msg_pool
  deriving DecidableEq

@[reducible] def Pool.Key : Pool → Type
  | .challenge_pool => Int32
  | .token_pool | .file_msg_pool => Bytes

@[reducible] def Pool.Val : Pool → Type
  | .challenge_pool => Bytes
  | .token_pool => Int32
  | .file_msg_pool => Int32 × Message

instance (p : Pool) : DecidableEq p.Key := by cases p <;> infer_instance
instance (p : Pool) : DecidableEq p.Val := by cases p <;> infer_instance
instance (p : Pool) : Inhabited p.Val := by cases p <;> infer_instance

/-- The queues the threads wait on, each with its `mu_` and `cond_`. -/
inductive Queue
  | msg_queue_ (uid : Int32)
  | RecvSocketQueue_
  deriving DecidableEq

@[reducible] def Queue.Elem : Queue → Type
  | .msg_queue_ _ => Packet
  | .RecvSocketQueue_ => Int32

instance (q : Queue) : DecidableEq q.Elem := by cases q <;> infer_instance

/-- The mutexes: those of `UM`, the `mu_` of each sender and that inside each queue. -/
inductive Mutex
  | pool (p : Pool)
  | keepalive_sender_mp
  | mu_ (uid : Int32)
  | queue (q : Queue)
  deriving DecidableEq

/-- Accesses to an `unordered_map`: `find(k) != end()`, `[k]` read and assigned, `erase(k)`. -/
inductive MapAccess (K V : Type)
  | find (k : K)
  | read (k : K)
  | assign (k : K) (v : V)
  | erase (k : K)
  deriving DecidableEq

@[reducible] def MapAccess.Res {K V : Type} : MapAccess K V → Type
  | .find _ => Bool
  | .read _ => V
  | .assign _ _ | .erase _ => Unit

/-- Accesses to the `std::queue` in a `ThreadsafeQueue`. -/
inductive QueueAccess (T : Type)
  | size
  | empty
  | front
  | push (v : T)
  | pop
  deriving DecidableEq

@[reducible] def QueueAccess.Res {T : Type} : QueueAccess T → Type
  | .size => Nat
  | .empty => Bool
  | .front => T
  | .push _ | .pop => Unit

/-- Accesses to `_keepalive_sender_mp`: `find(uid) != end()`, the sender `[uid]` points
to, and `[uid] = make_unique<KeepAliveMsgSender>(uid, fd)`, which starts its thread. -/
inductive SenderAccess
  | find (uid : Int32)
  | sender (uid : Int32)
  | make_unique (uid fd : Int32)
  deriving DecidableEq

@[reducible] def SenderAccess.Res : SenderAccess → Type
  | .find _ => Bool
  | .sender _ | .make_unique _ _ => Unit

inductive LockOp
  | lock (t : Tid) (m : Mutex)
  | unlock (t : Tid) (m : Mutex)
  -- `wait` of the queue's condition variable: gives the mutex up and sleeps
  | wait (t : Tid) (q : Queue)
  | notify_all (q : Queue)
  -- a test of what only the thread sees
  | skip
  | pool (p : Pool) (a : MapAccess p.Key p.Val)
  | senders (a : SenderAccess)
  | fd (uid : Int32)
  | setFd (uid fd : Int32)
  | queue (q : Queue) (a : QueueAccess q.Elem)
  -- the database, the disk, the kernel and the clock
  | call (o : Op)
  deriving DecidableEq

@[reducible] def LockOp.Res : LockOp → Type
  | .lock _ _ | .unlock _ _ | .wait _ _ | .notify_all _ | .skip | .setFd _ _ => Unit
  | .pool _ a => a.Res
  | .senders a => a.Res
  | .fd _ => Int32
  | .queue _ a => a.Res
  | .call o => o.Res

instance (o : LockOp) : DecidableEq o.Res := by
  cases o with
  | pool p a => cases a <;> infer_instance
  | senders a => cases a <;> infer_instance
  | queue q a => cases a <;> infer_instance
  | _ => infer_instance

/-! ## The objects behind the mutexes -/

section
variable {K V T : Type} [DecidableEq K] [DecidableEq V] [Inhabited V] [DecidableEq T]

/-- Reading `[k]` of a key that is not there puts a default value there. -/
def MapAccess.step (f : K → Option V) : (a : MapAccess K V) → a.Res → Option (K → Option V)
  | .find k, r => if r = (f k).isSome then some f else none
  | .read k, r => if r = (f k).getD default then some (Function.update f k (some r)) else none
  | .assign k v, _ => some (Function.update f k (some v))
  | .erase k, _ => some (Function.update f k none)

def QueueAccess.step (l : List T) : (a : QueueAccess T) → a.Res → Option (List T)
  | .size, n => if n = l.length then some l else none
  | .empty, b => if b = l.isEmpty then some l else none
  | .front, v => if l.head? = some v then some l else none
  | .push v, _ => some (l ++ [v])
  | .pop, _ => if l = [] then none else some l.tail

end

def Pool.get (p : Pool) (s : State) : p.Key → Option p.Val :=
  match p with
  | .challenge_pool => s.challenge_pool
  | .token_pool => s.token_pool
  | .file_msg_pool => s.file_msg_pool

def Pool.set (p : Pool) (s : State) (f : p.Key → Option p.Val) : State :=
  match p with
  | .challenge_pool => { s with challenge_pool := f }
  | .token_pool => { s with token_pool := f }
  | .file_msg_pool => { s with file_msg_pool := f }

def Queue.get (q : Queue) (s : State) : Option (List q.Elem) :=
  match q with
  | .msg_queue_ uid => (s.keepalive_sender_mp uid).map Sender.msg_queue_
  | .RecvSocketQueue_ => some s.RecvSocketQueue

def Queue.set (q : Queue) (s : State) (l : List q.Elem) : State :=
  match q with
  | .msg_queue_ uid => { s with
      keepalive_sender_mp := Function.update s.keepalive_sender_mp uid
        ((s.keepalive_sender_mp uid).map fun snd => { snd with msg_queue_ := l }) }
  | .RecvSocketQueue_ => { s with RecvSocketQueue := l }

/-- The mutexes of a sender are there when it is. -/
def State.has (s : State) : Mutex → Bool
  | .mu_ uid | .queue (.msg_queue_ uid) => (s.keepalive_sender_mp uid).isSome
  | _ => true

/-- The objects, who holds each mutex, and who sleeps at which queue. No sender's `locked`
is set: its `mu_` is a mutex. -/
structure LockState where
  data : State
  holder : Mutex → Option Tid
  asleep : Queue → Tid → Bool

/-- Nobody in any function. -/
def LockState.of (s : State) : LockState := ⟨s, fun _ => none, fun _ _ => false⟩

namespace LockState

variable (σ : LockState)

def withData (s : State) : LockState := { σ with data := s }

def unlocked (m : Mutex) : LockState := { σ with holder := Function.update σ.holder m none }

/-- `t` has the mutex, and sleeps there no longer. -/
def lockedBy (t : Tid) (m : Mutex) : LockState :=
  ⟨σ.data, Function.update σ.holder m (some t), fun q u => σ.asleep q u && !(m = .queue q ∧ u = t)⟩

def asleepAt (t : Tid) (q : Queue) : LockState :=
  { σ.unlocked (.queue q) with asleep := fun q' u => σ.asleep q' u || (q' = q ∧ u = t) }

def notified (q : Queue) : LockState := { σ with asleep := fun q' u => σ.asleep q' u && q' != q }

def onSenders : (a : SenderAccess) → a.Res → Option State
  | .find uid, r => if r = (σ.data.keepalive_sender_mp uid).isSome then some σ.data else none
  | .sender uid, _ => if (σ.data.keepalive_sender_mp uid).isSome then some σ.data else none
  | .make_unique uid fd, _ => some { σ.data with
      keepalive_sender_mp := Function.update σ.data.keepalive_sender_mp uid (some ⟨fd, [], false⟩) }

/-- `lock` waits until the mutex is free. A sleeping thread may take it like any other:
wake-ups come without a `notify_all` too. -/
def step : (x : LockOp) → x.Res → Option LockState
  | .lock t m, _ => if σ.holder m = none ∧ σ.data.has m = true then some (σ.lockedBy t m) else none
  | .unlock t m, _ => if σ.holder m = some t then some (σ.unlocked m) else none
  | .wait t q, _ => if σ.holder (.queue q) = some t then some (σ.asleepAt t q) else none
  | .notify_all q, _ => some (σ.notified q)
  | .skip, _ => some σ
  | .pool p a, r => (a.step (p.get σ.data) r).map fun f => σ.withData (p.set σ.data f)
  | .senders a, r => (σ.onSenders a r).map σ.withData
  | .fd uid, r => (σ.data.onSender uid fun snd => if r = snd.fd_ then some snd else none).map σ.withData
  | .setFd uid fd, _ => (σ.data.onSender uid fun snd => some { snd with fd_ := fd }).map σ.withData
  | .queue q a, r => (q.get σ.data).bind fun l => (a.step l r).map fun l => σ.withData (q.set σ.data l)
  | .call o, r => (σ.data.step o r).map σ.withData

end LockState

/-! ## The functions -/

abbrev LockCode (α : Type) := Prog LockOp LockOp.Res α
abbrev LockImpl (α : Type) := Impl LockOp LockOp.Res α

section
variable (t : Tid)

/-- A test of an argument that leads to a `return` before any lock. -/
def returns {α : Type} (a : α) : LockImpl α where
  act := .op .skip fun _ => .ret (some a)
  fin := fun _ => .ret ()

/-- `body` under a `lock_guard`. -/
def guarded {α : Type} (m : Mutex) (body : LockCode (Option α)) : LockImpl α where
  act := .op (.lock t m) fun _ => body
  fin := fun _ => .op (.unlock t m) .ret

namespace Pool

variable (p : Pool)

/-- `setChallengeMp`, `setUserIdByToken`, `setFileMsg`. -/
def put (k : p.Key) (v : p.Val) : LockImpl Unit :=
  guarded t (.pool p) (.op (.pool p (.assign k v)) fun _ => .ret (some ()))

/-- `getChallengeMp`, `getUserIdByToken` and `getFileMsg`, which give "", 0 and (0, an
empty message) when nothing is there. -/
def lookup (k : p.Key) : LockImpl p.Val :=
  guarded t (.pool p) (.op (.pool p (.find k)) fun found =>
    if found = true then .op (.pool p (.read k)) fun v => .ret (some v) else .ret (some default))

/-- `delChallengeMp`, `delFileMsg`. -/
def del (k : p.Key) : LockImpl Unit :=
  guarded t (.pool p) (.op (.pool p (.find k)) fun found =>
    if found = true then .op (.pool p (.erase k)) fun _ => .ret (some ()) else .ret (some ()))

end Pool

namespace Queue

variable (q : Queue)

/-- `Push` notifies once it has unlocked. -/
def Push (v : q.Elem) : LockImpl Unit where
  act := .op (.lock t (.queue q)) fun _ => .op (.queue q (.push v)) fun _ => .ret (some ())
  fin := fun _ => .op (.unlock t (.queue q)) fun _ => .op (.notify_all q) .ret

/-- `WaitAndPop` locks, and tests whether the queue is empty each time it has the mutex.
When it is, it sleeps, and the thread begins again: this is the first thing a thread does
in a turn, and to wake is to lock. -/
def WaitAndPop : LockImpl q.Elem :=
  guarded t (.queue q) (.op (.queue q .empty) fun empty =>
    if empty = true then .op (.wait t q) fun _ => .ret none
    else .op (.queue q .front) fun v => .op (.queue q .pop) fun _ => .ret (some v))

/-- The loop of `Clear`, with at most `n` elements to pop. -/
def drain : Nat → LockCode (Option Unit)
  | 0 => .op (.queue q .empty) fun _ => .ret (some ())
  | n + 1 => .op (.queue q .empty) fun empty =>
    if empty = true then .ret (some ()) else .op (.queue q .pop) fun _ => drain n

end Queue

namespace UM

/-- `getSender` -/
def lookupSender (id : Int32) : LockImpl Bool :=
  if id = 0 then returns false
  else guarded t .keepalive_sender_mp (.op (.senders (.find id)) fun found =>
    if found = true then .op (.senders (.sender id)) fun _ => .ret (some true) else .ret (some false))

/-- `setKpAliveSender` up to where `Clear` is called: when there is a sender its `setFd`
runs, and the map stays locked. -/
def installSender (uid fd : Int32) : LockImpl Bool where
  act := .op (.lock t .keepalive_sender_mp) fun _ => .op (.senders (.find uid)) fun found =>
    if found = true then .op (.senders (.sender uid)) fun _ => .op (.lock t (.mu_ uid)) fun _ =>
      .op (.setFd uid fd) fun _ => .ret (some true)
    else .op (.senders (.make_unique uid fd)) fun _ => .ret (some false)
  fin := fun found => .op (.unlock t (if found = true then .mu_ uid else .keepalive_sender_mp)) .ret

/-- The call of `Clear` in `setKpAliveSender`, and its end. How many elements there are to
pop is read first. -/
def clearSender (uid : Int32) : LockImpl Unit where
  act := .op (.senders (.sender uid)) fun _ => .op (.lock t (.queue (.msg_queue_ uid))) fun _ =>
    .op (.queue (.msg_queue_ uid) .size) (Queue.drain (.msg_queue_ uid))
  fin := fun _ => .op (.unlock t (.queue (.msg_queue_ uid))) fun _ => .op (.unlock t .keepalive_sender_mp) .ret

end UM

/-- A call that touches nothing behind a mutex. -/
def calls (o : Op) : LockImpl o.Res where
  act := .op (.call o) fun r => .ret (some r)
  fin := fun _ => .ret ()

/-- A call `run` makes with `this->fd_`, which it reads again each time. -/
def callsOnFd {α : Type} (uid : Int32) (call : Int32 → LockImpl α) : LockImpl α where
  act := .op (.fd uid) fun fd => (call fd).act
  fin := fun _ => .ret ()

/-- **How a thread carries out an operation.** -/
def locked : (o : Op) → LockImpl o.Res
  | .setChallengeMp id challenge => Pool.put t .challenge_pool id challenge
  | .getChallengeMp id => Pool.lookup t .challenge_pool id
  | .delChallengeMp id => Pool.del t .challenge_pool id
  | .setUserIdByToken token uid => Pool.put t .token_pool token uid
  | .getUserIdByToken token => if token = [] then returns 0 else Pool.lookup t .token_pool token
  | .setFileMsg fileid uid msg => Pool.put t .file_msg_pool fileid (uid, msg)
  | .getFileMsg fileid => Pool.lookup t .file_msg_pool fileid
  | .delFileMsg fileid => Pool.del t .file_msg_pool fileid
  | .getSender id => UM.lookupSender t id
  | .setFd uid fd => UM.installSender t uid fd
  | .Clear uid => UM.clearSender t uid
  | .addSendTask uid pkt => Queue.Push t (.msg_queue_ uid) pkt
  | .WaitAndPop uid => Queue.WaitAndPop t (.msg_queue_ uid)
  | .pushRecvSocket fd => Queue.Push t .RecvSocketQueue_ fd
  | .popRecvSocket => Queue.WaitAndPop t .RecvSocketQueue_
  | .lock uid => ⟨.op (.lock t (.mu_ uid)) fun _ => .op (.fd uid) fun fd => .ret (some fd), fun _ => .ret ()⟩
  | .unlock uid => ⟨.op (.unlock t (.mu_ uid)) fun _ => .ret (some ()), fun _ => .ret ()⟩
  | .Send fd pkt =>
    match t with
    | .sender uid => callsOnFd uid fun fd => calls (.Send fd pkt)
    | _ => calls (.Send fd pkt)
  | .Recv fd =>
    match t with
    | .sender uid => callsOnFd uid fun fd => calls (.Recv fd)
    | _ => calls (.Recv fd)
  | .close fd =>
    match t with
    | .sender uid => callsOnFd uid fun fd => calls (.close fd)
    | _ => calls (.close fd)
  | o => calls o

end

/-- The server with its functions carried out under their locks. -/
def lockedServer (SHA256 : Bytes → Bytes) : Machine Tid LockOp LockOp.Res LockState :=
  (server SHA256).implement locked fun σ x => σ.step x.op x.res

end NetChat
