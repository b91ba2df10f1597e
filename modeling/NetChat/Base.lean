/-
The constants and small types everything else is about: byte strings, the
limits of `base.h`, and the packet types of `message.h`.
-/
import Mathlib.Algebra.Group.Int.Defs
import Mathlib.Algebra.GroupWithZero.Nat
import Mathlib.Data.List.TakeWhile

namespace NetChat

/-- A `std::string`: any bytes, NULs included. -/
abbrev Bytes := List UInt8

/-- The bytes of an ASCII literal. -/
def bytes (s : String) : Bytes := s.toList.map fun c => UInt8.ofNat c.toNat

/-- What is read of a string through `std::string_view::data()`: a C string,
so nothing from the first NUL on. -/
def cstr (s : Bytes) : Bytes := s.takeWhile (· != 0)

theorem cstr_eq_self {s : Bytes} (h : ∀ b ∈ s, b ≠ 0) : cstr s = s := by
  rw [cstr, List.takeWhile_eq_self_iff]
  intro b hb
  simpa using h b hb

theorem not_mem_cstr {s : Bytes} : ∀ b ∈ cstr s, b ≠ 0 := by
  intro b hb
  simpa using List.mem_takeWhile_imp hb

@[simp] theorem cstr_cstr (s : Bytes) : cstr (cstr s) = cstr s := cstr_eq_self not_mem_cstr

def kChallengeSize : Nat := 32

/-- 1MB -/
def kMaxMessageSize : Nat := 1024 * 1024

/-- What one `epoll_wait` returns at most (`server_van.h`). -/
def MAX_EVENTS : Nat := 10

inductive PacketType
  | ServerStatusRequest
  | ServerStatusResponse
  | ServerStatusUpdateRequest
  | ServerStatusUpdateResponse
  | LoginPreRequest
  | LoginPreResponse
  | LoginRequest
  | LoginResponse
  | ContactListRequest
  | ClientAckResponse
  | ContactRequest
  | ServerAckResponse
  | ContactMessageRequest
  | ContactMessageResponse
  | SendMessageRequest
  | SendMessageResponse
  | SetupChannelRequest
  | ChannelHeartRequest
  | ContactMessageListRequest
  | FileUploadRequest
  | FileUploadResponse
  | FileDownloadRequest
  | FileDownloadResponse
  | RegisterRequest
  | RegisterResponse
  | DeleteMessageRequest
  | DeleteMessageResponse
  deriving DecidableEq, Repr

/-- The enumerator's value (`enum class PacketType`). -/
def PacketType.val : PacketType → Int32
  | .ServerStatusRequest => 0
  | .ServerStatusResponse => 1
  | .ServerStatusUpdateRequest => 6
  | .ServerStatusUpdateResponse => 7
  | .LoginPreRequest => 2
  | .LoginPreResponse => 3
  | .LoginRequest => 4
  | .LoginResponse => 5
  | .ContactListRequest => 8
  | .ClientAckResponse => 9
  | .ContactRequest => 10
  | .ServerAckResponse => 11
  | .ContactMessageRequest => 12
  | .ContactMessageResponse => 13
  | .SendMessageRequest => 14
  | .SendMessageResponse => 15
  | .SetupChannelRequest => 16
  | .ChannelHeartRequest => 17
  | .ContactMessageListRequest => 18
  | .FileUploadRequest => 19
  | .FileUploadResponse => 24
  | .FileDownloadRequest => 20
  | .FileDownloadResponse => 21
  | .RegisterRequest => 22
  | .RegisterResponse => 23
  | .DeleteMessageRequest => 25
  | .DeleteMessageResponse => 26

/-- `static_cast<PacketType>(pkt_id)`, as far as a `switch` on it can tell:
a value that is no enumerator's goes to `default`. -/
def PacketType.cast (pkt_id : Int32) : Option PacketType :=
  [.ServerStatusRequest, .ServerStatusResponse, .ServerStatusUpdateRequest, .ServerStatusUpdateResponse,
    .LoginPreRequest, .LoginPreResponse, .LoginRequest, .LoginResponse, .ContactListRequest, .ClientAckResponse,
    .ContactRequest, .ServerAckResponse, .ContactMessageRequest, .ContactMessageResponse, .SendMessageRequest,
    .SendMessageResponse, .SetupChannelRequest, .ChannelHeartRequest, .ContactMessageListRequest,
    .FileUploadRequest, .FileUploadResponse, .FileDownloadRequest, .FileDownloadResponse, .RegisterRequest,
    .RegisterResponse, .DeleteMessageRequest, .DeleteMessageResponse].find? fun t => t.val == pkt_id

@[simp] theorem PacketType.cast_val (t : PacketType) : PacketType.cast t.val = some t := by
  cases t <;> decide

theorem PacketType.cast_eq_some {pkt_id : Int32} {t : PacketType} :
    PacketType.cast pkt_id = some t ↔ pkt_id = t.val := by
  constructor
  · intro h
    have hv := List.find?_some h
    simp only [beq_iff_eq] at hv
    exact hv.symm
  · rintro rfl
    exact cast_val t

theorem PacketType.val_inj {t t' : PacketType} : t.val = t'.val ↔ t = t' := by
  constructor
  · intro h
    have h' := cast_val t
    rw [h, cast_val] at h'
    exact (Option.some.inj h').symm
  · rintro rfl
    rfl

end NetChat
