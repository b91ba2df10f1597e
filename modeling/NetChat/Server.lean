/-
The code of the server's threads, as programs over `Op`: `DataAccess`'s
composite methods, the handlers of `Server::processRecvSocket`, the worker
loop, one turn of `KeepAliveMsgSender::run` and one of `ServerVan::Accepting`.

A statement that throws outside a `try` ends the process: no caller up to the
thread function catches, and `createFile` and `updateFile` are `noexcept`.
What the code logs is left out, and so is `_revc_socket_pool`, which nothing
reads. A callback's captures are taken as the values they had.
-/
import NetChat.State

namespace NetChat

open Interleave

abbrev Code (α : Type) := Prog Op Op.Res α

/-- The value of a statement, or `std::terminate` when it threw. -/
def orTerminate {α : Type} : Sql α → Code α
  | .ok a => .ret a
  | .error _ => .terminate

/-! ## DataAccess -/

namespace g_db

abbrev getUser (username : Bytes) : Code (Option User) := .op (.getUser username) orTerminate
abbrev getUserById (id : Int32) : Code (Option User) := .op (.getUserById id) orTerminate
abbrev getAllUsers : Code (List User) := .op .getAllUsers orTerminate
abbrev getMessage (sender_id receiver_id internal_id : Int32) : Code (Option Message) :=
  .op (.getMessage sender_id receiver_id internal_id) orTerminate
abbrev getAllMessages (sender_id receiver_id : Int32) : Code (List Message) :=
  .op (.getAllMessages sender_id receiver_id) orTerminate
abbrev getFile (uuid : Bytes) : Code (Option FileStorage) := .op (.getFile uuid) orTerminate

/-- `exec` inside a `try`: a statement that throws changed no row. -/
def caught : Sql Nat → Nat
  | .ok changed => changed
  | .error _ => 0

def createUser (u : User) : Code Bool :=
  .op (.insertUser u.username u.password) fun ret => .ret (caught ret != 0)

def createMsg (m : Message) : Code (Option Int32) :=
  .op (.insertMessage m) fun changed => (orTerminate changed).bind fun changed =>
    if changed = 1 then .op .getLastInsertRowid fun rowid => .ret (some (Int32.ofNat rowid)) else .ret none

/-- The loop that looks for the largest internal id. -/
def maxInternalId (msgs : List Message) : Int32 :=
  msgs.foldl (fun max_internal_id msg =>
    if msg.internalid > max_internal_id then msg.internalid else max_internal_id) 0

def createMsgByRawMsg (m : RawMessage) : Code (Option Message) := do
  let msgs ← getAllMessages m.from_ m.to_
  let timestamp ← .op .getTimestamp .ret
  let msg : Message := { message := m, id := 0, timestamp, internalid := maxInternalId msgs + 1 }
  match ← createMsg msg with
  | some id => return some { msg with id }
  | none => return none

def createFile : Code (Option Bytes) :=
  .op .getUUID fun uuid => .op (.insertFile uuid) fun ret =>
    if caught ret = 1 then .ret (some uuid) else .ret none

def updateFile (f : FileStorage) : Code Bool := .op (.updateFile f) fun ret => .ret (caught ret != 0)

end g_db

/-! ## FileStorage -/

namespace FileStorage

abbrev checkDiskExistence (f : FileStorage) : Code Bool := .op (.checkDiskExistence f.id) .ret
abbrev saveToDisk (f : FileStorage) (file : File) : Code Bool :=
  .op (.saveToDisk f.id file.content) fun out => .ret out.ret

/-- The content `loadIntoProto` reads; it sets the name to `f.name` then. -/
abbrev loadIntoProto (f : FileStorage) : Code (Option Bytes) := .op (.loadFromDisk f.id) .ret

end FileStorage

/-! ## UM and the senders -/

namespace UM

abbrev setChallengeMp (id : Int32) (challenge : Bytes) : Code Unit := .op (.setChallengeMp id challenge) .ret
abbrev getChallengeMp (id : Int32) : Code Bytes := .op (.getChallengeMp id) .ret
abbrev delChallengeMp (id : Int32) : Code Unit := .op (.delChallengeMp id) .ret
abbrev getUserIdByToken (token : Bytes) : Code Int32 := .op (.getUserIdByToken token) .ret
abbrev setUserIdByToken (token : Bytes) (uid : Int32) : Code Unit := .op (.setUserIdByToken token uid) .ret
abbrev getSender (id : Int32) : Code Bool := .op (.getSender id) .ret
abbrev isOnline (uid : Int32) : Code Bool := getSender uid
abbrev setFileMsg (fileid : Bytes) (uid : Int32) (msg : Message) : Code Unit :=
  .op (.setFileMsg fileid uid msg) .ret
abbrev delFileMsg (fileid : Bytes) : Code Unit := .op (.delFileMsg fileid) .ret
abbrev getFileMsg (fileid : Bytes) : Code (Int32 × Message) := .op (.getFileMsg fileid) .ret

/-- The queue of a sender that was there is cleared after its `setFd`. -/
def setKpAliveSender (uid fd : Int32) : Code Unit :=
  .op (.setFd uid fd) fun found => if found = true then .op (.Clear uid) .ret else .ret ()

end UM

/-- `addSendTask` on the sender `getSender` gives for `uid`, if it gives one. -/
def addSendTask (uid : Int32) (packet : Packet) : Code Unit := do
  if ← UM.getSender uid then .op (.addSendTask uid packet) .ret else return

/-! ## Van -/

namespace Van

abbrev Recv (fd : Int32) : Code RecvOut := .op (.Recv fd) .ret

/-- Whether `Van::Send` did not return -1. -/
abbrev Send (fd : Int32) (msg : Packet) : Code Bool := .op (.Send fd msg) fun out => .ret out.ok

/-- `Control(fd, "EPOLL_DEL_FD")`: logging at FATAL aborts. -/
def controlEpollDel (fd : Int32) : Code Unit :=
  .op (.epollDel fd) fun ok => if ok = true then .ret () else .terminate

/-- `Control(fd, "CLOSE_FD")`, whose result nobody looks at. -/
def closeFd (fd : Int32) : Code Unit := .op (.close fd) fun _ => .ret ()

def closeIf (failed : Bool) (fd : Int32) : Code Unit := if failed = true then closeFd fd else .ret ()

end Van

namespace Server

variable (SHA256 : Bytes → Bytes)

/-- A handler's reply packet and its callback, if it sets one. -/
abbrev Reply := Packet × Option (Code Unit)

/-! ## The handlers of `processRecvSocket` -/

def onServerStatusRequest : Code Reply :=
  return (packToPacket .ServerStatusResponse (.ServerStatusResponse true true), none)

def onServerStatusUpdateRequest : Code Reply :=
  return (packToPacket .ServerStatusUpdateResponse (.ServerStatusUpdateResponse true true), none)

/-- The lengths `RegisterRequest` is checked for. -/
def legalRegister (n p : Bytes) : Bool :=
  !(n.length < 3 || n.length > 32) && !(p.length < 6 || p.length > 32)

def onRegisterRequest (pkt : Packet) : Code Reply := do
  let request := pkt.request RegisterRequest
  let n := request.username
  let p := request.rawpassword
  let is_success ←
    if legalRegister n p then g_db.createUser (User.new 0 n (SHA256 p)) else pure false
  return (packToPacket .RegisterResponse (.RegisterResponse is_success), none)

/-- `utils::crypto::genChallenge`, seeded with the current second. -/
def genChallenge : Code Bytes := .op .time fun seed => .op (.genChallenge seed) .ret

/-- `utils::crypto::genToken` -/
def genToken : Code Bytes := .op .getUUID .ret

def onLoginPreRequest (pkt : Packet) : Code Reply := do
  let request := pkt.request LoginPreRequest
  match ← g_db.getUser request.username with
  | none => return (packToPacket .LoginPreResponse (.LoginPreResponse []), none)
  | some user =>
    let challenge ← genChallenge
    UM.setChallengeMp user.id challenge
    return (packToPacket .LoginPreResponse (.LoginPreResponse challenge), none)

def onLoginRequest (pkt : Packet) : Code Reply := do
  let request := pkt.request LoginRequest
  match ← g_db.getUser request.username with
  | none =>
    return (packToPacket .LoginResponse (.LoginResponse ⟨false, -1, bytes "illegal user"⟩), none)
  | some user =>
    let challenge ← UM.getChallengeMp user.id
    let pass_challenge_sha256 := SHA256 (user.password ++ challenge)
    if pass_challenge_sha256 = request.hashpassword then
      let token ← genToken
      UM.setUserIdByToken token user.id
      UM.delChallengeMp user.id
      return (packToPacket .LoginResponse (.LoginResponse ⟨true, user.id, token⟩), none)
    else
      UM.delChallengeMp user.id
      return (packToPacket .LoginResponse (.LoginResponse ⟨false, -1, bytes "wrong password"⟩), none)

/-- The loop over `getAllUsers` that fills the contact list of `uid`: the number
advertised for a contact is that of the messages from `uid` to it. -/
def contactList (uid : Int32) : List User → Code ContactListRequest
  | [] => return ⟨[], []⟩
  | u :: users => do
    let msgs ← g_db.getAllMessages uid u.id
    let rest ← contactList uid users
    return ⟨⟨u.id, u.username, true, Contact.FRIEND⟩ :: rest.contacts,
      Int32.ofNat msgs.length :: rest.internalids⟩

/-- The callback of `SetupChannelRequest`. -/
def setupChannel (uid client_fd : Int32) : Code Unit := do
  UM.setKpAliveSender uid client_fd
  let users ← g_db.getAllUsers
  let contact_list_request ← contactList uid users
  let new_req := packToPacket .ContactListRequest (.ContactListRequest contact_list_request)
  addSendTask uid new_req
  Van.controlEpollDel client_fd

def onSetupChannelRequest (client_fd : Int32) (pkt : Packet) : Code Reply := do
  let request := pkt.request SetupChannelRequest
  let uid ← UM.getUserIdByToken request.token
  return (packToPacket .ServerAckResponse .ServerAckResponse, some (setupChannel uid client_fd))

/-- The packet a message is pushed in. -/
def messageList (msg : Message) : Packet :=
  packToPacket .ContactMessageListRequest (.ContactMessageListRequest [msg])

/-- The callback of a `SendMessageRequest` that is neither IMAGE nor FILE. -/
def notifyReceiver (receiver_id : Int32) (reply_msg : Message) : Code Unit := do
  if ← UM.isOnline receiver_id then addSendTask receiver_id (messageList reply_msg) else return

/-- The reply that marks a failed `SendMessageRequest`. -/
def sendMessageFailed : Reply :=
  (packToPacket .SendMessageResponse (.SendMessageResponse { (default : Message) with id := -1 }), none)

def onSendMessageRequest (pkt : Packet) : Code Reply := do
  let request := pkt.request SendMessageRequest
  let uid ← UM.getUserIdByToken request.token
  let message := request.message
  let sender_id := message.from_
  let receiver_id := message.to_
  if uid ≠ sender_id then return sendMessageFailed
  else
    match ← g_db.getUserById receiver_id with
    | none => return sendMessageFailed
    | some _ =>
      match ← g_db.createMsgByRawMsg message with
      | none => return sendMessageFailed
      | some reply_msg =>
        if message.type = MessageType.IMAGE ∨ message.type = MessageType.FILE then
          match ← g_db.createFile with
          | none => return sendMessageFailed
          | some file_id =>
            let reply_msg := { reply_msg with message := { reply_msg.message with content := file_id } }
            return (packToPacket .SendMessageResponse (.SendMessageResponse reply_msg),
              some (UM.setFileMsg file_id receiver_id reply_msg))
        else
          return (packToPacket .SendMessageResponse (.SendMessageResponse reply_msg),
            some (notifyReceiver receiver_id reply_msg))

def uploadResponse (success : Bool) : Packet := packToPacket .FileUploadResponse (.FileUploadResponse success)

/-- The callback of a `FileUploadRequest` that succeeded. -/
def forwardFileMsg (request_id : Bytes) : Code Unit := do
  let uid_msg ← UM.getFileMsg request_id
  if uid_msg.1 = 0 then return
  else
    UM.delFileMsg request_id
    addSendTask uid_msg.1 (messageList uid_msg.2)

def onFileUploadRequest (pkt : Packet) : Code Reply := do
  let request := pkt.request FileUploadRequest
  let uid ← UM.getUserIdByToken request.token
  if uid = 0 then return (uploadResponse false, none)
  else
    match ← g_db.getFile request.id with
    | none => return (uploadResponse false, none)
    | some row =>
      let file : FileStorage := { row with hash := request.hash, name := request.file.name }
      let success ←
        if ← file.checkDiskExistence then pure false else file.saveToDisk request.file
      if ← g_db.updateFile file then
        return (uploadResponse success, if success then some (forwardFileMsg request.id) else none)
      else return (uploadResponse false, none)

def downloadResponse (file : File) (hash : Bytes) : Reply :=
  (packToPacket .FileDownloadResponse (.FileDownloadResponse ⟨file, hash⟩), none)

def onFileDownloadRequest (pkt : Packet) : Code Reply := do
  let request := pkt.request FileDownloadRequest
  let uid ← UM.getUserIdByToken request.token
  if uid = 0 then return downloadResponse default []
  else
    match ← g_db.getFile request.id with
    | none => return downloadResponse default []
    | some file =>
      if ← file.checkDiskExistence then
        match ← file.loadIntoProto with
        | none => return downloadResponse default file.hash
        | some content => return downloadResponse ⟨file.name, content⟩ file.hash
      else return downloadResponse default file.hash

def onContactMessageRequest (pkt : Packet) : Code Reply := do
  let request := pkt.request ContactMessageRequest
  let uid ← UM.getUserIdByToken request.token
  match ← g_db.getMessage uid request.id request.internalid with
  | none =>
    return (packToPacket .ContactMessageResponse
      (.ContactMessageResponse { (default : Message) with id := -1 }), none)
  | some msg => return (packToPacket .ContactMessageResponse (.ContactMessageResponse msg), none)

/-- The `switch` of `processRecvSocket`; `none` where it returns without a
reply (`DeleteMessageRequest` and `default`). -/
def handler (client_fd : Int32) (pkt : Packet) : Option (Code Reply) :=
  match PacketType.cast pkt.packetid with
  | some .ServerStatusRequest => some onServerStatusRequest
  | some .ServerStatusUpdateRequest => some onServerStatusUpdateRequest
  | some .RegisterRequest => some (onRegisterRequest SHA256 pkt)
  | some .LoginPreRequest => some (onLoginPreRequest pkt)
  | some .LoginRequest => some (onLoginRequest SHA256 pkt)
  | some .SetupChannelRequest => some (onSetupChannelRequest client_fd pkt)
  | some .SendMessageRequest => some (onSendMessageRequest pkt)
  | some .FileUploadRequest => some (onFileUploadRequest pkt)
  | some .FileDownloadRequest => some (onFileDownloadRequest pkt)
  | some .ContactMessageRequest => some (onContactMessageRequest pkt)
  | _ => none

/-- The end of `processRecvSocket`: the reply, then the callback. -/
def respond (client_fd : Int32) (reply : Reply) : Code Unit := do
  if reply.1.content.isSome then
    if ← Van.Send client_fd reply.1 then
      match reply.2 with
      | some cb => cb
      | none => return
    else
      Van.controlEpollDel client_fd
      Van.closeFd client_fd
  else return

def processRecvSocket (client_fd : Int32) : Code Unit := do
  match ← Van.Recv client_fd with
  | .packet _ _ pkt =>
    match handler SHA256 client_fd pkt with
    | some h => respond client_fd (← h)
    | none => return
  | _ => return

/-- One turn of `RevcSocketThreadFunc_`. -/
def RevcSocketThreadFunc : Code Unit := do
  let client_fd ← .op .popRecvSocket .ret
  processRecvSocket SHA256 client_fd

/-! ## KeepAliveMsgSender -/

/-- One turn of `KeepAliveMsgSender::run`. The `break`s are commented out, so a
failed `Send` or `Recv` closes the descriptor and goes on. What the packet
received is, is only logged. -/
def KeepAliveMsgSender.run (uid : Int32) : Code Unit := do
  let pkt ← .op (.WaitAndPop uid) .ret
  let fd ← .op (.lock uid) .ret
  let sent ← Van.Send fd pkt
  Van.closeIf (!sent) fd
  let ack ← Van.Recv fd
  Van.closeIf (ack.ret < 0) fd
  .op (.unlock uid) .ret

end Server

/-! ## ServerVan::Accepting -/

namespace ServerVan

/-- A new connection: `epoll_ctl` failing to add it is FATAL. -/
def acceptClient : Code Unit := do
  let client_socket : Option Int32 ← .op .accept .ret
  match client_socket with
  | none => return
  | some fd => .op (.epollAdd fd) fun ok => if ok = true then .ret () else .terminate

def onEvent : EpollEvent → Code Unit
  | .server => acceptClient
  | .client fd true => .op (.pushRecvSocket fd) .ret
  | .client fd false => do
    Van.controlEpollDel fd
    Van.closeFd fd

def onEvents : List EpollEvent → Code Unit
  | [] => return
  | ev :: events => do
    onEvent ev
    onEvents events

/-- One turn of `Accepting`. -/
def Accepting : Code Unit := do
  let events ← .op .epoll_wait .ret
  onEvents events

end ServerVan

end NetChat
