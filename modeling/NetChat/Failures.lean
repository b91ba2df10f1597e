/-
Statements that fail. SQLiteCpp throws, and of the statements of `DataAccess`
only three stand in a `try`: the INSERT of a user, the INSERT of a file and the
UPDATE of a file. Nobody catches what the others throw.
-/
import NetChat.Uploads

namespace NetChat

open Interleave Prog Server

variable {SHA256 : Bytes → Bytes} {ok : Config → Event → Prop} {c c' : Config} {e : Event} {l : List Entry}

/-- Whether a statement threw. -/
def Sql.threw {α : Type} : Sql α → Bool
  | .ok _ => false
  | .error _ => true

/-- Whether an operation is a statement that threw. -/
def threw : Entry → Bool
  | ⟨.getUser _, r⟩ => Sql.threw r
  | ⟨.getUserById _, r⟩ => Sql.threw r
  | ⟨.getAllUsers, r⟩ => Sql.threw r
  | ⟨.getMessage _ _ _, r⟩ => Sql.threw r
  | ⟨.getAllMessages _ _, r⟩ => Sql.threw r
  | ⟨.getFile _, r⟩ => Sql.threw r
  | ⟨.insertUser _ _, r⟩ => Sql.threw r
  | ⟨.insertMessage _, r⟩ => Sql.threw r
  | ⟨.insertFile _, r⟩ => Sql.threw r
  | ⟨.updateFile _, r⟩ => Sql.threw r
  | _ => false

/-- The statements executed inside a `try`. -/
def Op.guarded : Op → Bool
  | .insertUser _ _ | .insertFile _ | .updateFile _ => true
  | _ => false

/-- Whether a reply is the one its handler gives for a failure. -/
def Packet.reportsFailure (p : Packet) : Bool :=
  p.content.any fun any => match any.body with
    | .RegisterResponse success => !success
    | .LoginPreResponse challenge => challenge == []
    | .LoginResponse r => !r.logined
    | .SendMessageResponse m => m.id == -1
    | .FileUploadResponse success => !success
    | .FileDownloadResponse r => r.file.name == []
    | .ContactMessageResponse m => m.id == -1
    | _ => false

/-! ## What the handlers do then -/

/-- In a callback one that threw ends the process. -/
def ThrowEnds {α : Type} (x : Entry) (q : Code α) : Prop := threw x = true → q = .terminate

theorem ThrowEnds.bind {α β : Type} {f : α → Code β} {x : Entry} {q : Code α} (h : ThrowEnds x q) :
    ThrowEnds x (q.bind f) := fun hx => by rw [h hx, terminate_bind]

theorem Op.ofCallback.guarded {t : PacketType} {o : Op} (h : o.ofCallback t) : o.guarded = false := by
  rcases h with h | h <;> cases o <;> first | rfl | cases h

/-! ## Where a statement throws -/

namespace Example

/-- Bob asks for a challenge, and the query for his row comes up. -/
def asks : Schedule :=
  connects 5 ++ handles 0 5 0 (packToPacket .LoginPreRequest (.LoginPreRequest ⟨bob.username⟩)) []

end Example

end NetChat
