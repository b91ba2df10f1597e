/-
The messages of `proto/messages.proto`, as the values their fields have once
parsed, and the packets that carry them. A field a message leaves out reads
as its proto3 default, which is what `Inhabited` gives each record.
-/
import NetChat.Base

namespace NetChat

/-! ## The messages -/

structure RegisterRequest where
  username : Bytes
  rawpassword : Bytes
  deriving DecidableEq, Inhabited

structure LoginPreRequest where
  username : Bytes
  deriving DecidableEq, Inhabited

structure LoginRequest where
  username : Bytes
  hashpassword : Bytes
  deriving DecidableEq, Inhabited

structure LoginResponse where
  logined : Bool
  id : Int32
  token : Bytes
  deriving DecidableEq, Inhabited

/-- Of the contact types the server only writes `FRIEND`, which is 0; the
fields `members` and `header` it never writes. -/
structure Contact where
  id : Int32
  name : Bytes
  online : Bool
  type : Int32
  deriving DecidableEq, Inhabited

def Contact.FRIEND : Int32 := 0

structure ContactListRequest where
  contacts : List Contact
  internalids : List Int32
  deriving DecidableEq, Inhabited

structure File where
  name : Bytes
  content : Bytes
  deriving DecidableEq, Inhabited

/-- `MessageType` is open: a client may send any `int32`. -/
abbrev MessageType := Int32

def MessageType.TEXT : MessageType := 0
def MessageType.IMAGE : MessageType := 1
def MessageType.FILE : MessageType := 2

structure RawMessage where
  from_ : Int32
  to_ : Int32
  type : MessageType
  content : Bytes
  deriving DecidableEq, Inhabited

structure Message where
  message : RawMessage
  id : Int32
  timestamp : Int32
  internalid : Int32
  deriving DecidableEq, Inhabited

structure ContactMessageRequest where
  token : Bytes
  id : Int32
  internalid : Int32
  deriving DecidableEq, Inhabited

structure SendMessageRequest where
  token : Bytes
  message : RawMessage
  deriving DecidableEq, Inhabited

structure SetupChannelRequest where
  token : Bytes
  deriving DecidableEq, Inhabited

structure FileUploadRequest where
  token : Bytes
  id : Bytes
  file : File
  hash : Bytes
  deriving DecidableEq, Inhabited

structure FileDownloadRequest where
  token : Bytes
  id : Bytes
  deriving DecidableEq, Inhabited

structure FileDownloadResponse where
  file : File
  hash : Bytes
  deriving DecidableEq, Inhabited

/-! ## Packets -/

/-- A message of one of the types, as a `google.protobuf.Any` names it. `Other`
is any type the server neither reads nor writes. -/
inductive Body
  | ServerStatusRequest
  | ServerStatusResponse (online registrable : Bool)
  | ServerStatusUpdateRequest
  | ServerStatusUpdateResponse (online registrable : Bool)
  | RegisterRequest (m : RegisterRequest)
  | RegisterResponse (success : Bool)
  | LoginPreRequest (m : LoginPreRequest)
  | LoginPreResponse (challenge : Bytes)
  | LoginRequest (m : LoginRequest)
  | LoginResponse (m : LoginResponse)
  | ContactListRequest (m : ContactListRequest)
  | ClientAckResponse
  | ServerAckResponse
  | ContactMessageRequest (m : ContactMessageRequest)
  | ContactMessageResponse (message : Message)
  | SendMessageRequest (m : SendMessageRequest)
  | SendMessageResponse (message : Message)
  | SetupChannelRequest (m : SetupChannelRequest)
  | ContactMessageListRequest (messages : List Message)
  | FileUploadRequest (m : FileUploadRequest)
  | FileUploadResponse (success : Bool)
  | FileDownloadRequest (m : FileDownloadRequest)
  | FileDownloadResponse (m : FileDownloadResponse)
  | Other
  deriving DecidableEq

/-- The content of a packet. When its bytes are malformed, `body` holds the
fields parsed before the error. -/
structure Any where
  body : Body
  malformed : Bool
  deriving DecidableEq

structure Packet where
  packetid : Int32
  content : Option Any
  deriving DecidableEq, Inhabited

/-- The message types a content can be unpacked as. -/
class Request (α : Type) extends Inhabited α where
  ofBody : Body → Option α

instance : Request RegisterRequest where
  ofBody | .RegisterRequest m => some m | _ => none
instance : Request LoginPreRequest where
  ofBody | .LoginPreRequest m => some m | _ => none
instance : Request LoginRequest where
  ofBody | .LoginRequest m => some m | _ => none
instance : Request SetupChannelRequest where
  ofBody | .SetupChannelRequest m => some m | _ => none
instance : Request SendMessageRequest where
  ofBody | .SendMessageRequest m => some m | _ => none
instance : Request FileUploadRequest where
  ofBody | .FileUploadRequest m => some m | _ => none
instance : Request FileDownloadRequest where
  ofBody | .FileDownloadRequest m => some m | _ => none
instance : Request ContactMessageRequest where
  ofBody | .ContactMessageRequest m => some m | _ => none

/-- `pkt.content().UnpackTo(&request)` on a fresh `request`: whether it
succeeded, and what it left in `request`. Absent content and another type
leave the defaults; malformed bytes leave what was parsed of them. -/
def Packet.UnpackTo (α : Type) [Request α] (pkt : Packet) : Bool × α :=
  match pkt.content with
  | none => (false, default)
  | some any =>
    match Request.ofBody any.body with
    | none => (false, default)
    | some m => (!any.malformed, m)

/-- The request a handler works on: it never looks at `UnpackTo`'s result. -/
def Packet.request (α : Type) [Request α] (pkt : Packet) : α := (pkt.UnpackTo α).2

/-- `Server::packToPacket`: the packet id and the content packed with
`PackFrom`. -/
def packToPacket (ptype : PacketType) (content : Body) : Packet where
  packetid := ptype.val
  content := some ⟨content, false⟩

@[simp] theorem packToPacket_inj {t t' : PacketType} {b b' : Body} :
    packToPacket t b = packToPacket t' b' ↔ t = t' ∧ b = b' := by
  simp [packToPacket, PacketType.val_inj]

end NetChat
