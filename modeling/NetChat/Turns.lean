/-
What a turn of each thread can issue, and after which log. Every statement
about the past of a run starts here: an event names its operation and the log
of its turn, and these lemmas say which request was being handled and what
the earlier operations of the turn answered.
-/
import NetChat.Turns.Login
import NetChat.Turns.SendMessage
import NetChat.Turns.SetupChannel
import NetChat.Turns.Files

namespace NetChat

open Server

namespace Example

/-- Bob writes to himself. -/
def note (content : Bytes) : SendMessageRequest := ⟨token, ⟨1, 1, MessageType.TEXT, content⟩⟩

/-- Worker `i` handles `note content` up to its INSERT, the SELECT having given `msgs`. -/
def selects (i : Nat) (content : Bytes) (msgs : List Message) : Schedule :=
  handles i 5 0 (packToPacket .SendMessageRequest (.SendMessageRequest (note content)))
    (checked (note content) bob msgs 1700000000)

def insertsNote (i : Nat) (content : Bytes) (msgs : List Message) : Tid × Entry :=
  (.worker i, ⟨.insertMessage (numbered (note content).message msgs 0 1700000000), .ok 1⟩)

/-- The second user. -/
def alice : User := ⟨2, bytes "alice", digest⟩

/-- Worker `i` stores Bob's message to `u`, who is offline, the SELECT having given `msgs`. -/
def stores (i : Nat) (q : SendMessageRequest) (u : User) (msgs : List Message) (rowid : Nat) : Schedule :=
  handles i 5 0 (packToPacket .SendMessageRequest (.SendMessageRequest q))
    (stored q u msgs 1700000000 rowid ++
      [replies 5 0 .SendMessageResponse (.SendMessageResponse (numbered q.message msgs (Int32.ofNat rowid) 1700000000)),
        ⟨.getSender q.message.to_, false⟩])

/-- The contact list of the first user while there is no message. -/
def contacts : ContactListRequest := ⟨[⟨1, bob.username, true, Contact.FRIEND⟩], [0]⟩

/-- Bob makes his connection his channel. -/
def setsUp : Schedule :=
  handles 0 5 0 (packToPacket .SetupChannelRequest (.SetupChannelRequest ⟨token⟩))
    [⟨.getUserIdByToken token, 1⟩, replies 5 0 .ServerAckResponse .ServerAckResponse, ⟨.setFd 1 5, false⟩,
      ⟨.getAllUsers, .ok [bob]⟩, ⟨.getAllMessages 1 1, .ok []⟩, ⟨.getSender 1, true⟩,
      ⟨.addSendTask 1 (contactPacket contacts), ()⟩, ⟨.epollDel 5, true⟩]

/-- Bob's sender takes a packet up. -/
def takes (pkt : Packet) : Schedule := (held 1 pkt 5).map fun x => (.sender 1, x)

/-- Bob's sender sends a packet, which is acknowledged. -/
def passes (pkt : Packet) : Schedule :=
  takes pkt ++ [(.sender 1, ⟨.Send 5 pkt, ⟨some 0, true⟩⟩),
    (.sender 1, ⟨.Recv 5, .packet 0 8 (packToPacket .ClientAckResponse .ClientAckResponse)⟩),
      (.sender 1, ⟨.unlock 1, ()⟩)]

/-- What Bob's first note to himself is stored as. -/
def firstNote : Message := numbered (note [97]).message [] 1 1700000000

/-- One worker selects. -/
def oneSend : Schedule := session ++ selects 0 [97] []

end Example

end NetChat
