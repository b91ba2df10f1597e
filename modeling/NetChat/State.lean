/-
What the threads of the server share: the database connection, the files on
disk, the pools of `Server`, the queue of the worker threads, and the
kernel's descriptors and epoll set; and the operations on it that are atomic,
each a `Op` with the results it can have.

An operation is one statement on the connection, one locked function of `UM`
or of a sender, one system call or one pass of `Van::Send` or `Van::Recv`.
`State.step` allows a result or not; what is up to the outside (what a client
sends, whether a `send` or a statement fails, a clock, a UUID) it allows in
every form.

The kernel's descriptors name connections (`Conn`), counted as they are
accepted. Results that say which connection an operation met carry it for the
statements about them; the code does not see it.
-/
import Mathlib.Logic.Function.Basic
import NetChat.Lib.Prog
import NetChat.DataAccess

namespace NetChat

abbrev Conn := Nat

/-- `Server::KeepAliveMsgSender`: `locked` while its `run` holds `mu_`. -/
structure Sender where
  fd_ : Int32
  msg_queue_ : List Packet
  locked : Bool

structure State where
  db : DataAccess
  /-- The content of the files under the prefix directory, by file name. -/
  disk : Bytes → Option Bytes
  challenge_pool : Int32 → Option Bytes
  keepalive_sender_mp : Int32 → Option Sender
  token_pool : Bytes → Option Int32
  file_msg_pool : Bytes → Option (Int32 × Message)
  RecvSocketQueue : List Int32
  /-- The connection each open descriptor of a client belongs to. -/
  fds : Int32 → Option Conn
  /-- The client descriptors in the epoll set. -/
  epoll : Int32 → Bool
  /-- How many connections were accepted. -/
  accepted : Nat

/-- An empty database, no file, no client. -/
def State.initial : State where
  db := .empty
  disk := fun _ => none
  challenge_pool := fun _ => none
  keepalive_sender_mp := fun _ => none
  token_pool := fun _ => none
  file_msg_pool := fun _ => none
  RecvSocketQueue := []
  fds := fun _ => none
  epoll := fun _ => false
  accepted := 0

/-- A statement SQLiteCpp reported as failed, by throwing. -/
inductive SqlError
  | failed
  deriving DecidableEq

abbrev Sql (α : Type) := Except SqlError α

/-- What `Van::Recv` gives: -1 after an error other than EAGAIN (`failed`) or
for too many or unparsable bytes (`rejected`), 0 when `recv` reported the end
of the stream (`eof`) or nothing to read (`nothing`) before any byte, else the
number of bytes and the packet parsed from them. -/
inductive RecvOut
  | failed
  | rejected
  | eof
  | nothing
  | packet (conn : Conn) (bytes : Nat) (pkt : Packet)
  deriving DecidableEq

/-- The return value of `Van::Recv`. -/
def RecvOut.ret : RecvOut → Int
  | .failed | .rejected => -1
  | .eof | .nothing => 0
  | .packet _ n _ => n

/-- What `Van::Send` gives: whether it returned a byte count (and not -1), and
the connection it sent on. -/
structure SendOut where
  conn : Option Conn
  ok : Bool
  deriving DecidableEq

/-- What `FileStorage::saveToDisk` met: no open file; a write that failed after `n`
bytes, as `ofs.good()` said; one that seemed good and of which the file got only
`n` bytes when `ofs` was closed, after the function had looked; or none of these. -/
inductive SaveOut
  | openFailed
  | writeFailed (n : Nat)
  | lost (n : Nat)
  | saved
  deriving DecidableEq

/-- The return value of `FileStorage::saveToDisk`. -/
def SaveOut.ret : SaveOut → Bool
  | .openFailed | .writeFailed _ => false
  | .lost _ | .saved => true

/-- From this many bytes on `ofs.write` passes a content to the file at once. A
shorter one waits in the buffer of the stream until that is closed. -/
def streamChunk : Nat := 1024

/-- An event of `epoll_wait`: on the listening socket, or on a client's, with
or without EPOLLIN. -/
inductive EpollEvent
  | server
  | client (fd : Int32) (epollin : Bool)
  deriving DecidableEq

/-- The client's descriptor an event is of, if it is not the listening socket's. -/
def EpollEvent.fd : EpollEvent → Option Int32
  | .server => none
  | .client fd _ => some fd

inductive Op
  -- the accepting thread
  | epoll_wait
  | accept
  | epollAdd (fd : Int32)
  | pushRecvSocket (fd : Int32)
  -- the worker threads
  | popRecvSocket
  -- Van and ServerVan::Control
  | Recv (fd : Int32)
  | Send (fd : Int32) (pkt : Packet)
  | epollDel (fd : Int32)
  | close (fd : Int32)
  -- DataAccess
  | getUser (username : Bytes)
  | getUserById (id : Int32)
  | getAllUsers
  | getMessage (sender_id receiver_id internal_id : Int32)
  | getAllMessages (sender_id receiver_id : Int32)
  | getFile (uuid : Bytes)
  | insertUser (username password : Bytes)
  | insertMessage (m : Message)
  | insertFile (uuid : Bytes)
  | updateFile (f : FileStorage)
  | getLastInsertRowid
  -- FileStorage
  | checkDiskExistence (id : Bytes)
  | saveToDisk (id content : Bytes)
  | loadFromDisk (id : Bytes)
  -- UM
  | setChallengeMp (id : Int32) (challenge : Bytes)
  | getChallengeMp (id : Int32)
  | delChallengeMp (id : Int32)
  | getUserIdByToken (token : Bytes)
  | setUserIdByToken (token : Bytes) (uid : Int32)
  | getSender (id : Int32)
  | setFileMsg (fileid : Bytes) (uid : Int32) (msg : Message)
  | delFileMsg (fileid : Bytes)
  | getFileMsg (fileid : Bytes)
  -- KeepAliveMsgSender
  | setFd (uid fd : Int32)
  | Clear (uid : Int32)
  | addSendTask (uid : Int32) (pkt : Packet)
  | WaitAndPop (uid : Int32)
  | lock (uid : Int32)
  | unlock (uid : Int32)
  -- utils
  | time
  | genChallenge (seed : Int)
  | getUUID
  | getTimestamp
  deriving DecidableEq

@[reducible] def Op.Res : Op → Type
  | .epoll_wait => List EpollEvent
  | .accept => Option Int32
  | .epollAdd _ => Bool
  | .pushRecvSocket _ => Unit
  | .popRecvSocket => Int32
  | .Recv _ => RecvOut
  | .Send _ _ => SendOut
  | .epollDel _ => Bool
  | .close _ => Option Conn
  | .getUser _ => Sql (Option User)
  | .getUserById _ => Sql (Option User)
  | .getAllUsers => Sql (List User)
  | .getMessage _ _ _ => Sql (Option Message)
  | .getAllMessages _ _ => Sql (List Message)
  | .getFile _ => Sql (Option FileStorage)
  | .insertUser _ _ => Sql Nat
  | .insertMessage _ => Sql Nat
  | .insertFile _ => Sql Nat
  | .updateFile _ => Sql Nat
  | .getLastInsertRowid => Nat
  | .checkDiskExistence _ => Bool
  | .saveToDisk _ _ => SaveOut
  | .loadFromDisk _ => Option Bytes
  | .setChallengeMp _ _ => Unit
  | .getChallengeMp _ => Bytes
  | .delChallengeMp _ => Unit
  | .getUserIdByToken _ => Int32
  | .setUserIdByToken _ _ => Unit
  | .getSender _ => Bool
  | .setFileMsg _ _ _ => Unit
  | .delFileMsg _ => Unit
  | .getFileMsg _ => Int32 × Message
  | .setFd _ _ => Bool
  | .Clear _ => Unit
  | .addSendTask _ _ => Unit
  | .WaitAndPop _ => Packet
  | .lock _ => Int32
  | .unlock _ => Unit
  | .time => Int
  | .genChallenge _ => Bytes
  | .getUUID => Bytes
  | .getTimestamp => Int32

instance (o : Op) : DecidableEq o.Res := by cases o <;> infer_instance

/-- `uuid_unparse_lower`: 36 characters, lower-case hex digits in groups of
8, 4, 4, 4 and 12 with dashes between. -/
def isUUID (s : Bytes) : Bool :=
  s.length == 36 && s.zipIdx.all fun (b, i) =>
    if i == 8 || i == 13 || i == 18 || i == 23 then b == 45
    else (48 ≤ b && b ≤ 57) || (97 ≤ b && b ≤ 102)

/-- The characters of `genChallenge`. -/
def charset : Bytes := bytes "0123456789abcdefghijklmnopqrstuvwxyzABCDEFGHIJKLMNOPQRSTUVWXYZ"

def isChallenge (s : Bytes) : Bool := s.length == kChallengeSize && s.all charset.contains

namespace State

/-- A query gives what the tables hold, or throws. -/
def query {α : Type} [DecidableEq α] (s : State) (v : α) : Sql α → Option State
  | .ok r => if r = v then some s else none
  | .error _ => some s

/-- A statement that writes changes one row, or throws and changes nothing. -/
def insert (s : State) (db' : Option DataAccess) : Sql Nat → Option State
  | .ok changed => if changed = 1 then db'.map fun db => { s with db } else none
  | .error _ => some s

def getUserIdByToken (s : State) (token : Bytes) : Int32 :=
  if token = [] then 0 else (s.token_pool token).getD 0

def getSender (s : State) (id : Int32) : Bool :=
  if id = 0 then false else (s.keepalive_sender_mp id).isSome

/-- The state with the sender of `uid` changed by `f`, when there is one. -/
def onSender (s : State) (uid : Int32) (f : Sender → Option Sender) : Option State :=
  (s.keepalive_sender_mp uid).bind fun snd => (f snd).map fun snd' =>
    { s with keepalive_sender_mp := Function.update s.keepalive_sender_mp uid (some snd') }

/-- `UM::setKpAliveSender` up to the call of `Clear`: `setFd` on the sender
there is, which waits for its `mu_`, or a new sender. The result says which. -/
def setFd (s : State) (uid fd : Int32) : Bool → Option State
  | true => s.onSender uid fun snd => if snd.locked then none else some { snd with fd_ := fd }
  | false =>
    if (s.keepalive_sender_mp uid).isSome then none
    else some { s with
      keepalive_sender_mp := Function.update s.keepalive_sender_mp uid (some ⟨fd, [], false⟩) }

/-- `Van::Recv` reads a closed descriptor with an error, and a packet only from
the connection the descriptor belongs to. -/
def recv (s : State) (fd : Int32) : RecvOut → Option State
  | .failed => some s
  | .rejected | .eof | .nothing => if (s.fds fd).isSome then some s else none
  | .packet conn n _ => if s.fds fd = some conn ∧ 0 < n ∧ n < kMaxMessageSize then some s else none

/-- A write that stops short is noticed when the content is too long to be buffered. -/
def saveToDisk (s : State) (id content : Bytes) : SaveOut → Option State
  | .openFailed => some s
  | .writeFailed n =>
    if n < content.length ∧ streamChunk ≤ content.length then
      some { s with disk := Function.update s.disk id (some (content.take n)) }
    else none
  | .lost n =>
    if n < content.length then some { s with disk := Function.update s.disk id (some (content.take n)) } else none
  | .saved => some { s with disk := Function.update s.disk id (some content) }

/-- The kernel reports events of descriptors in the epoll set only. -/
def reportable (s : State) : EpollEvent → Bool
  | .server => true
  | .client fd _ => s.epoll fd

/-- `accept` gives a number no open descriptor has. -/
def accept (s : State) : Option Int32 → Option State
  | none => some s
  | some fd =>
    if s.fds fd = none ∧ 0 ≤ fd.toInt then
      some { s with fds := Function.update s.fds fd (some s.accepted), accepted := s.accepted + 1 }
    else none

/-- What an operation with a result does to the state; `none` when the state
does not allow it, or not yet. -/
def step (s : State) : (o : Op) → o.Res → Option State
  | .epoll_wait, evs =>
    -- one event for each descriptor
    if evs.length ≤ MAX_EVENTS ∧ (evs.map EpollEvent.fd).Nodup ∧ evs.all s.reportable then some s else none
  | .accept, r => s.accept r
  | .epollAdd fd, r =>
    if r = ((s.fds fd).isSome && !s.epoll fd) then
      some { s with epoll := if r then Function.update s.epoll fd true else s.epoll }
    else none
  | .pushRecvSocket fd, _ => some { s with RecvSocketQueue := s.RecvSocketQueue ++ [fd] }
  | .popRecvSocket, r =>
    match s.RecvSocketQueue with
    | [] => none
    | fd :: rest => if r = fd then some { s with RecvSocketQueue := rest } else none
  | .Recv fd, r => s.recv fd r
  | .Send fd _, r => if r.conn = s.fds fd ∧ (r.ok → (s.fds fd).isSome) then some s else none
  | .epollDel fd, r =>
    if r = s.epoll fd then some { s with epoll := Function.update s.epoll fd false } else none
  | .close fd, r =>
    -- closing a descriptor also takes it out of the epoll set
    if r = s.fds fd then
      some { s with fds := Function.update s.fds fd none, epoll := Function.update s.epoll fd false }
    else none
  | .getUser n, r => s.query (s.db.getUser n) r
  | .getUserById id, r => s.query (s.db.getUserById id) r
  | .getAllUsers, r => s.query s.db.getAllUsers r
  | .getMessage f t i, r => s.query (s.db.getMessage f t i) r
  | .getAllMessages f t, r => s.query (s.db.getAllMessages f t) r
  | .getFile uuid, r => s.query (s.db.getFile uuid) r
  | .insertUser n p, r => s.insert (s.db.insertUser n p) r
  | .insertMessage m, r => s.insert (some (s.db.insertMessage m)) r
  | .insertFile uuid, r => s.insert (s.db.insertFile uuid) r
  | .updateFile f, .ok changed =>
    if changed = (s.db.updateFile f).1 then some { s with db := (s.db.updateFile f).2 } else none
  | .updateFile _, .error _ => some s
  | .getLastInsertRowid, r => if r = s.db.lastInsertRowid then some s else none
  | .checkDiskExistence id, r => if r = (s.disk id).isSome then some s else none
  | .saveToDisk id content, r => s.saveToDisk id content r
  | .loadFromDisk _, none => some s
  | .loadFromDisk id, some content => if s.disk id = some content then some s else none
  | .setChallengeMp id challenge, _ =>
    some { s with challenge_pool := Function.update s.challenge_pool id (some challenge) }
  | .getChallengeMp id, r => if r = (s.challenge_pool id).getD [] then some s else none
  | .delChallengeMp id, _ => some { s with challenge_pool := Function.update s.challenge_pool id none }
  | .getUserIdByToken token, r => if r = s.getUserIdByToken token then some s else none
  | .setUserIdByToken token uid, _ =>
    some { s with token_pool := Function.update s.token_pool token (some uid) }
  | .getSender id, r => if r = s.getSender id then some s else none
  | .setFileMsg fileid uid msg, _ =>
    some { s with file_msg_pool := Function.update s.file_msg_pool fileid (some (uid, msg)) }
  | .delFileMsg fileid, _ => some { s with file_msg_pool := Function.update s.file_msg_pool fileid none }
  | .getFileMsg fileid, r => if r = (s.file_msg_pool fileid).getD (0, default) then some s else none
  | .setFd uid fd, r => s.setFd uid fd r
  | .Clear uid, _ => s.onSender uid fun snd => some { snd with msg_queue_ := [] }
  | .addSendTask uid pkt, _ =>
    s.onSender uid fun snd => some { snd with msg_queue_ := snd.msg_queue_ ++ [pkt] }
  | .WaitAndPop uid, r => s.onSender uid fun snd =>
    match snd.msg_queue_ with
    | [] => none
    | pkt :: rest => if r = pkt then some { snd with msg_queue_ := rest } else none
  | .lock uid, r => s.onSender uid fun snd =>
    if !snd.locked && r == snd.fd_ then some { snd with locked := true } else none
  | .unlock uid, _ => s.onSender uid fun snd => some { snd with locked := false }
  | .time, _ => some s
  | .genChallenge _, r => if isChallenge r then some s else none
  | .getUUID, r => if isUUID r then some s else none
  | .getTimestamp, _ => some s

end State

end NetChat
