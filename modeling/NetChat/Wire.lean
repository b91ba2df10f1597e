/-
The packets as protobuf writes them: the fields of `proto/messages.proto`
under their numbers, and the content packed into its `Any`. A sub-message the
code sets is written even when it is empty; the one of a failed reply, which
the code never sets, is not.
-/
import NetChat.Lib.Wire
import NetChat.Messages

namespace NetChat

open Wire

/-! ## The messages -/

/-- The name a content's type has in `messages.proto`. `Other` has none: the
server writes no such content. -/
def Body.name : Body → String
  | .ServerStatusRequest => "ServerStatusRequest"
  | .ServerStatusResponse _ _ => "ServerStatusResponse"
  | .ServerStatusUpdateRequest => "ServerStatusUpdateRequest"
  | .ServerStatusUpdateResponse _ _ => "ServerStatusUpdateResponse"
  | .RegisterRequest _ => "RegisterRequest"
  | .RegisterResponse _ => "RegisterResponse"
  | .LoginPreRequest _ => "LoginPreRequest"
  | .LoginPreResponse _ => "LoginPreResponse"
  | .LoginRequest _ => "LoginRequest"
  | .LoginResponse _ => "LoginResponse"
  | .ContactListRequest _ => "ContactListRequest"
  | .ClientAckResponse => "ClientAckResponse"
  | .ServerAckResponse => "ServerAckResponse"
  | .ContactMessageRequest _ => "ContactMessageRequest"
  | .ContactMessageResponse _ => "ContactMessageResponse"
  | .SendMessageRequest _ => "SendMessageRequest"
  | .SendMessageResponse _ => "SendMessageResponse"
  | .SetupChannelRequest _ => "SetupChannelRequest"
  | .ContactMessageListRequest _ => "ContactMessageListRequest"
  | .FileUploadRequest _ => "FileUploadRequest"
  | .FileUploadResponse _ => "FileUploadResponse"
  | .FileDownloadRequest _ => "FileDownloadRequest"
  | .FileDownloadResponse _ => "FileDownloadResponse"
  | .Other => ""

def LoginResponse.encode (m : LoginResponse) : Bytes :=
  boolField 1 m.logined ++ int32Field 2 m.id ++ stringField 3 m.token

def Contact.encode (m : Contact) : Bytes :=
  int32Field 1 m.id ++ stringField 2 m.name ++ boolField 3 m.online ++ int32Field 4 m.type

def ContactListRequest.encode (m : ContactListRequest) : Bytes :=
  repeatedField 1 (m.contacts.map Contact.encode) ++ packedField 2 m.internalids

def File.encode (m : File) : Bytes := stringField 1 m.name ++ stringField 2 m.content

def RawMessage.encode (m : RawMessage) : Bytes :=
  int32Field 1 m.from_ ++ int32Field 2 m.to_ ++ int32Field 3 m.type ++ stringField 4 m.content

def Message.encode (m : Message) : Bytes :=
  (if m.message = default then [] else messageField 1 m.message.encode) ++
    int32Field 2 m.id ++ int32Field 3 m.timestamp ++ int32Field 4 m.internalid

def SendMessageRequest.encode (m : SendMessageRequest) : Bytes :=
  stringField 1 m.token ++ (if m.message = default then [] else messageField 2 m.message.encode)

def FileUploadRequest.encode (m : FileUploadRequest) : Bytes :=
  stringField 1 m.token ++ stringField 2 m.id ++ (if m.file = default then [] else messageField 3 m.file.encode) ++
    stringField 4 m.hash

def FileDownloadResponse.encode (m : FileDownloadResponse) : Bytes :=
  messageField 1 m.file.encode ++ stringField 2 m.hash

/-- A content's bytes. -/
def Body.encode : Body → Bytes
  | .ServerStatusResponse online registrable | .ServerStatusUpdateResponse online registrable =>
    boolField 1 online ++ boolField 2 registrable
  | .RegisterRequest m => stringField 1 m.username ++ stringField 2 m.rawpassword
  | .RegisterResponse success | .FileUploadResponse success => boolField 1 success
  | .LoginPreRequest m => stringField 1 m.username
  | .LoginPreResponse challenge => stringField 1 challenge
  | .LoginRequest m => stringField 1 m.username ++ stringField 2 m.hashpassword
  | .LoginResponse m => m.encode
  | .ContactListRequest m => m.encode
  | .ContactMessageRequest m => stringField 1 m.token ++ int32Field 2 m.id ++ int32Field 3 m.internalid
  | .ContactMessageResponse message | .SendMessageResponse message => messageField 1 message.encode
  | .SendMessageRequest m => m.encode
  | .SetupChannelRequest m => stringField 1 m.token
  | .ContactMessageListRequest messages => repeatedField 1 (messages.map Message.encode)
  | .FileUploadRequest m => m.encode
  | .FileDownloadRequest m => stringField 1 m.token ++ stringField 2 m.id
  | .FileDownloadResponse m => m.encode
  | .ServerStatusRequest | .ServerStatusUpdateRequest | .ClientAckResponse | .ServerAckResponse | .Other => []

/-- The `type_url` `PackFrom` gives a content. -/
def Body.typeUrl (b : Body) : Bytes := bytes "type.googleapis.com/netdesign2." ++ bytes b.name

/-- The bytes of a packet. -/
def Packet.serialize (p : Packet) : Bytes :=
  int32Field 1 p.packetid ++
    match p.content with
    | none => []
    | some any => messageField 2 (stringField 1 any.body.typeUrl ++ stringField 2 any.body.encode)

/-- What a packet adds to its content's bytes. -/
def envelopeSize (t : PacketType) (url n : Nat) : Nat :=
  (int32Field 1 t.val).length + fieldSize (stringSize url + stringSize n)

theorem length_serialize (t : PacketType) (b : Body) :
    (packToPacket t b).serialize.length = envelopeSize t b.typeUrl.length b.encode.length := by
  simp only [Packet.serialize, packToPacket, envelopeSize, List.length_append, length_messageField (by decide : 2 < 16),
    length_stringField (by decide : 1 < 16), length_stringField (by decide : 2 < 16)]

theorem length_typeUrl_le (b : Body) : b.typeUrl.length ≤ 57 := by
  have hname : (bytes b.name).length ≤ 26 := by
    cases b <;> simp only [Body.name] <;> decide +kernel
  have hprefix : (bytes "type.googleapis.com/netdesign2.").length = 31 := by decide +kernel
  rw [Body.typeUrl, List.length_append, hprefix]
  omega

theorem length_serialize_le (t : PacketType) (b : Body) :
    (packToPacket t b).serialize.length ≤ b.encode.length + 101 := by
  have hid := length_int32Field_le (by decide : 1 < 16) t.val
  have hurl := length_typeUrl_le b
  have h₁ := stringSize_le b.typeUrl.length
  have h₂ := stringSize_le b.encode.length
  have h₃ := fieldSize_le (stringSize b.typeUrl.length + stringSize b.encode.length)
  rw [length_serialize]
  unfold envelopeSize
  omega

/-- A longer content in a longer url makes a longer packet. -/
theorem envelopeSize_le {t t' : PacketType} {url url' n n' : Nat}
    (ht : (int32Field 1 t.val).length ≤ (int32Field 1 t'.val).length)
    (h : stringSize url + stringSize n ≤ stringSize url' + stringSize n') :
    envelopeSize t url n ≤ envelopeSize t' url' n' :=
  Nat.add_le_add ht (fieldSize_mono h)

/-! ## Lengths by what they are made of -/

/-- The length of a message; but for the content, a number of at most 88. -/
def Message.size (m : Message) : Nat :=
  (if m.message = default then 0
    else fieldSize ((int32Field 1 m.message.from_).length + (int32Field 2 m.message.to_).length +
      (int32Field 3 m.message.type).length + stringSize m.message.content.length)) +
    (int32Field 2 m.id).length + (int32Field 3 m.timestamp).length + (int32Field 4 m.internalid).length

theorem length_encode_message (m : Message) : m.encode.length = m.size := by
  unfold Message.encode Message.size
  split
  · simp only [List.length_append, List.length_nil]
  · simp only [RawMessage.encode, List.length_append, length_messageField (by decide : 1 < 16),
      length_stringField (by decide : 4 < 16)]

theorem Message.size_le (m : Message) : m.size ≤ m.message.content.length + 88 := by
  have hfrom := length_int32Field_le (by decide : 1 < 16) m.message.from_
  have hto := length_int32Field_le (by decide : 2 < 16) m.message.to_
  have htype := length_int32Field_le (by decide : 3 < 16) m.message.type
  have hcontent := stringSize_le m.message.content.length
  have hraw := fieldSize_le ((int32Field 1 m.message.from_).length + (int32Field 2 m.message.to_).length +
    (int32Field 3 m.message.type).length + stringSize m.message.content.length)
  have hid := length_int32Field_le (by decide : 2 < 16) m.id
  have htime := length_int32Field_le (by decide : 3 < 16) m.timestamp
  have hnum := length_int32Field_le (by decide : 4 < 16) m.internalid
  unfold Message.size
  split <;> omega

/-- A message when its numbers take the most bytes. -/
def RawMessage.longest (m : RawMessage) : Message := ⟨m, -1, -1, -1⟩

theorem Message.size_le_longest (m : Message) : m.size ≤ m.message.longest.size := by
  have hlongest : ∀ num < 16, num ≠ 0 → (int32Field num (-1)).length = 11 := by decide
  have hle : ∀ num < 16, num ≠ 0 → ∀ v, (int32Field num v).length ≤ (int32Field num (-1)).length :=
    fun num hnum hpos v => (length_int32Field_le hnum v).trans_eq (hlongest num hnum hpos).symm
  exact Nat.add_le_add (Nat.add_le_add (Nat.add_le_add le_rfl (hle 2 (by decide) (by decide) m.id))
    (hle 3 (by decide) (by decide) m.timestamp)) (hle 4 (by decide) (by decide) m.internalid)

def Contact.size (m : Contact) : Nat :=
  (int32Field 1 m.id).length + stringSize m.name.length + (boolField 3 m.online).length +
    (int32Field 4 m.type).length

/-- A field for each contact, and the numbers one after the other. -/
def ContactListRequest.size (m : ContactListRequest) : Nat :=
  (m.contacts.map fun contact => fieldSize contact.size).sum +
    stringSize (m.internalids.map fun n => (varint (signExtend n)).length).sum

theorem length_encode_contacts (m : ContactListRequest) : m.encode.length = m.size := by
  have hcontact : ∀ contact : Contact, contact.encode.length = contact.size := fun contact => by
    simp only [Contact.encode, Contact.size, List.length_append, length_stringField (by decide : 2 < 16)]
  simp only [ContactListRequest.encode, ContactListRequest.size, packedField, List.length_append,
    length_repeatedField (by decide : 1 < 16), length_stringField (by decide : 2 < 16), List.length_flatMap,
    List.map_map, Function.comp_def, hcontact]

/-- How many bytes a number of messages takes, read as an `int32` and written. -/
def countSize (n : Nat) : Nat := if n < 2 ^ 31 then (varint n).length else 10

theorem length_count_le (n : Nat) : (varint (signExtend (Int32.ofNat n))).length ≤ countSize n := by
  unfold countSize
  split
  · rename_i hn
    rw [signExtend, Int32.toInt_ofNat_of_lt hn, Int.emod_eq_of_lt (by omega) (by omega), Int.toNat_natCast]
  · exact length_varint_le _

theorem countSize_mono {n m : Nat} (h : n ≤ m) : countSize n ≤ countSize m := by
  have hmono := length_varint_mono h
  have hle := length_varint_le n
  unfold countSize
  split <;> split <;> omega

/-- The length of a downloaded file's reply, from those of its name, its content
and its hash. -/
def downloadSize (name content hash : Nat) : Nat :=
  fieldSize (stringSize name + stringSize content) + stringSize hash

theorem length_encode_download (m : FileDownloadResponse) :
    m.encode.length = downloadSize m.file.name.length m.file.content.length m.hash.length := by
  simp only [FileDownloadResponse.encode, File.encode, downloadSize, List.length_append,
    length_messageField (by decide : 1 < 16), length_stringField (by decide : 1 < 16),
    length_stringField (by decide : 2 < 16)]

/-! ## The lengths of the packets that grow with what they carry -/

/-- The length of a packet with one message, its type's url taking `url` bytes. -/
def messagePacketSize (t : PacketType) (url : Nat) (m : Message) : Nat := envelopeSize t url (fieldSize m.size)

/-- A message's packet is no longer than another's of the same data with longer numbers. -/
theorem messagePacketSize_le {t t' : PacketType} {url url' : Nat} (m : Message)
    (ht : (int32Field 1 t.val).length ≤ (int32Field 1 t'.val).length) (hurl : url ≤ url') :
    messagePacketSize t url m ≤ messagePacketSize t' url' m.message.longest :=
  envelopeSize_le ht (Nat.add_le_add (stringSize_mono hurl) (stringSize_mono (fieldSize_mono m.size_le_longest)))

theorem length_sendMessageResponse (m : Message) :
    (packToPacket .SendMessageResponse (.SendMessageResponse m)).serialize.length =
      messagePacketSize .SendMessageResponse 50 m := by
  have hurl : (Body.SendMessageResponse m).typeUrl.length = 50 := by
    simp only [Body.typeUrl, Body.name]
    decide +kernel
  rw [length_serialize, hurl, Body.encode, length_messageField (by decide), length_encode_message]
  rfl

theorem length_contactMessageResponse (m : Message) :
    (packToPacket .ContactMessageResponse (.ContactMessageResponse m)).serialize.length =
      messagePacketSize .ContactMessageResponse 53 m := by
  have hurl : (Body.ContactMessageResponse m).typeUrl.length = 53 := by
    simp only [Body.typeUrl, Body.name]
    decide +kernel
  rw [length_serialize, hurl, Body.encode, length_messageField (by decide), length_encode_message]
  rfl

theorem length_contactMessageList (m : Message) :
    (packToPacket .ContactMessageListRequest (.ContactMessageListRequest [m])).serialize.length =
      messagePacketSize .ContactMessageListRequest 56 m := by
  have hurl : (Body.ContactMessageListRequest [m]).typeUrl.length = 56 := by
    simp only [Body.typeUrl, Body.name]
    decide +kernel
  rw [length_serialize, hurl, Body.encode, length_repeatedField (by decide)]
  simp only [List.map_cons, List.map_nil, List.sum_cons, List.sum_nil, Nat.add_zero, length_encode_message]
  rfl

theorem length_contactList (m : ContactListRequest) :
    (packToPacket .ContactListRequest (.ContactListRequest m)).serialize.length =
      envelopeSize .ContactListRequest 49 m.size := by
  have hurl : (Body.ContactListRequest m).typeUrl.length = 49 := by
    simp only [Body.typeUrl, Body.name]
    decide +kernel
  rw [length_serialize, hurl, Body.encode, length_encode_contacts]

theorem length_fileDownloadResponse (m : FileDownloadResponse) :
    (packToPacket .FileDownloadResponse (.FileDownloadResponse m)).serialize.length =
      envelopeSize .FileDownloadResponse 51 (downloadSize m.file.name.length m.file.content.length m.hash.length) := by
  have hurl : (Body.FileDownloadResponse m).typeUrl.length = 51 := by
    simp only [Body.typeUrl, Body.name]
    decide +kernel
  rw [length_serialize, hurl, Body.encode, length_encode_download]

end NetChat
