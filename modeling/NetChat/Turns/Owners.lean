/-
Which request types issue an operation. An operation of the handlers or callbacks
is one type's own or one of the few they share, and every handler keeps to
those of its type.
-/
import NetChat.System

namespace NetChat

open Interleave Prog Server

variable {SHA256 : Bytes → Bytes} {l : List Entry} {o : Op}

@[simp] theorem orTerminate_ok {α : Type} (a : α) : orTerminate (.ok a) = .ret a := rfl
@[simp] theorem orTerminate_error {α : Type} (e : SqlError) :
    orTerminate (.error e : Sql α) = .terminate := rfl

@[simp] theorem sat_orTerminate {α β : Type} {P : Op → Prop} {Q : β → Prop} {r : Sql α} {f : α → Code β} :
    ((orTerminate r).bind f).Sat P Q ↔ ∀ a, r = .ok a → (f a).Sat P Q := by
  cases r <;> simp

@[simp] theorem runs_orTerminate {α β : Type} {r : Sql α} {f : α → Code β} {b : β} :
    ((orTerminate r).bind f).Runs l b ↔ ∃ a, r = .ok a ∧ (f a).Runs l b := by
  cases r <;> simp

@[simp] theorem issues_orTerminate {α β : Type} {r : Sql α} {f : α → Code β} :
    ((orTerminate r).bind f).Issues l o ↔ ∃ a, r = .ok a ∧ (f a).Issues l o := by
  cases r <;> simp

/-! ## Which request types issue an operation -/

/-- The request type whose handler alone issues an operation. -/
def Op.handlerOwner : Op → Option PacketType
  | .insertUser _ _ => some .RegisterRequest
  | .time | .genChallenge _ | .setChallengeMp _ _ => some .LoginPreRequest
  | .getChallengeMp _ | .setUserIdByToken _ _ | .delChallengeMp _ => some .LoginRequest
  | .getUserById _ | .getTimestamp | .insertMessage _ | .getLastInsertRowid | .insertFile _ => some .SendMessageRequest
  | .updateFile _ | .saveToDisk _ _ => some .FileUploadRequest
  | .loadFromDisk _ => some .FileDownloadRequest
  | .getMessage _ _ _ => some .ContactMessageRequest
  | _ => none

/-- The request type whose callback issues an operation, other callbacks not. -/
def Op.callbackOwner : Op → Option PacketType
  | .setFd _ _ | .Clear _ | .getAllUsers | .epollDel _ => some .SetupChannelRequest
  | .setFileMsg _ _ _ => some .SendMessageRequest
  | .getFileMsg _ | .delFileMsg _ => some .FileUploadRequest
  | _ => none

/-- The operations the handlers of several request types have in common. -/
def Op.handlerShared : Op → Bool
  | .getUser _ | .getFile _ | .getAllMessages _ _ | .getUserIdByToken _ | .checkDiskExistence _ | .getUUID => true
  | _ => false

/-- The operations the callbacks have in common, with each other or with the handlers. -/
def Op.callbackShared : Op → Bool
  | .getAllMessages _ _ | .getSender _ | .addSendTask _ _ => true
  | _ => false

/-- The operations a handler for packets of type `t` keeps to. -/
def Op.ofHandler (t : PacketType) (o : Op) : Prop := o.handlerShared = true ∨ o.handlerOwner = some t

/-- The operations a callback for packets of type `t` keeps to. -/
def Op.ofCallback (t : PacketType) (o : Op) : Prop := o.callbackShared = true ∨ o.callbackOwner = some t

theorem Op.ofHandler.owner {t t' : PacketType} (h : o.ofHandler t) (ho : o.handlerOwner = some t') : t = t' := by
  rcases h with h | h
  · cases o <;> first | exact absurd h Bool.false_ne_true | exact absurd ho (Option.some_ne_none _).symm
  · rw [h] at ho
    cases ho
    rfl

theorem Op.ofCallback.owner {t t' : PacketType} (h : o.ofCallback t) (ho : o.callbackOwner = some t') : t = t' := by
  rcases h with h | h
  · cases o <;> first | exact absurd h Bool.false_ne_true | exact absurd ho (Option.some_ne_none _).symm
  · rw [h] at ho
    cases ho
    rfl

theorem Op.ofCallback.handlerOwner {t : PacketType} (h : o.ofCallback t) : o.handlerOwner = none := by
  rcases h with h | h <;> cases o <;>
    first | rfl | exact absurd h Bool.false_ne_true | exact absurd h (Option.some_ne_none _).symm

/-- The request types whose handlers set a callback. -/
def PacketType.hasCallback (t : PacketType) : Prop :=
  t = .SetupChannelRequest ∨ t = .SendMessageRequest ∨ t = .FileUploadRequest

/-- A callback for packets of type `t` keeps to its operations. -/
def Server.Reply.callbackOf (t : PacketType) (r : Reply) : Prop :=
  r.1.content.isSome = true ∧ ∀ cb, r.2 = some cb → t.hasCallback ∧ cb.Sat (Op.ofCallback t) fun _ => True

theorem callbackOf_none {t t' : PacketType} {b : Body} :
    Reply.callbackOf t (packToPacket t' b, none) := ⟨rfl, by simp⟩

theorem callbackOf_some {t t' : PacketType} {b : Body} {cb : Code Unit} (ht : t.hasCallback)
    (h : cb.Sat (Op.ofCallback t) fun _ => True) : Reply.callbackOf t (packToPacket t' b, some cb) :=
  ⟨rfl, fun _ hcb => by cases hcb; exact ⟨ht, h⟩⟩

/-- A handler for packets of type `t` keeps to its operations, and so does its
callback. -/
abbrev IsHandler (t : PacketType) (h : Code Reply) : Prop := h.Sat (Op.ofHandler t) (Reply.callbackOf t)

theorem isHandler_onRegisterRequest (pkt : Packet) :
    IsHandler .RegisterRequest (onRegisterRequest SHA256 pkt) := by
  simp only [onRegisterRequest, g_db.createUser]
  split
  · exact ⟨.inr rfl, fun _ => callbackOf_none⟩
  · exact callbackOf_none

theorem isHandler_onLoginPreRequest (pkt : Packet) :
    IsHandler .LoginPreRequest (onLoginPreRequest pkt) := by
  simp only [onLoginPreRequest, genChallenge, IsHandler, bind_eq, op_bind, sat_op, sat_orTerminate]
  refine ⟨.inl rfl, fun _ u _ => ?_⟩
  cases u with
  | none => exact callbackOf_none
  | some u => exact ⟨.inr rfl, fun _ => ⟨.inr rfl, fun _ => ⟨.inr rfl, fun _ => callbackOf_none⟩⟩⟩

theorem isHandler_onLoginRequest (pkt : Packet) :
    IsHandler .LoginRequest (onLoginRequest SHA256 pkt) := by
  simp only [onLoginRequest, genToken, IsHandler, bind_eq, op_bind, sat_op, sat_orTerminate]
  refine ⟨.inl rfl, fun _ u _ => ?_⟩
  cases u with
  | none => exact callbackOf_none
  | some u =>
    refine ⟨.inr rfl, fun c => ?_⟩
    simp only [ret_bind]
    split
    · exact ⟨.inl rfl, fun _ => ⟨.inr rfl, fun _ => ⟨.inr rfl, fun _ => callbackOf_none⟩⟩⟩
    · exact ⟨.inr rfl, fun _ => callbackOf_none⟩

theorem sat_contactList {uid : Int32} (users : List User) :
    (contactList uid users).Sat (Op.ofCallback .SetupChannelRequest) fun _ => True := by
  induction users with
  | nil => trivial
  | cons u users ih =>
    simp only [contactList, bind_eq, op_bind, sat_op, sat_orTerminate]
    exact ⟨.inl rfl, fun _ _ _ => ih.bind fun _ _ => trivial⟩

theorem sat_addSendTask {t : PacketType} {uid : Int32} {pkt : Packet} :
    (addSendTask uid pkt).Sat (Op.ofCallback t) fun _ => True := by
  refine ⟨.inl rfl, fun b => ?_⟩
  simp only [ret_bind]
  split
  · exact ⟨.inl rfl, fun _ => trivial⟩
  · trivial

theorem sat_setupChannel {uid fd : Int32} :
    (setupChannel uid fd).Sat (Op.ofCallback .SetupChannelRequest) fun _ => True := by
  refine Sat.bind (Q := fun _ => True) ⟨.inr rfl, fun found => ?_⟩ fun _ _ => ?_
  · simp only
    split
    · exact ⟨.inr rfl, fun _ => trivial⟩
    · trivial
  simp only [bind_eq, op_bind, sat_op, sat_orTerminate]
  refine ⟨.inr rfl, fun _ users _ => (sat_contactList users).bind fun m _ => ?_⟩
  refine sat_addSendTask.bind fun _ _ => ⟨.inr rfl, fun ok => ?_⟩
  simp only
  split <;> trivial

theorem isHandler_onSetupChannelRequest (fd : Int32) (pkt : Packet) :
    IsHandler .SetupChannelRequest (onSetupChannelRequest fd pkt) :=
  ⟨.inl rfl, fun _ => callbackOf_some (.inl rfl) sat_setupChannel⟩

theorem sat_notifyReceiver {r : Int32} {m : Message} :
    (notifyReceiver r m).Sat (Op.ofCallback .SendMessageRequest) fun _ => True := by
  refine ⟨.inl rfl, fun b => ?_⟩
  simp only [ret_bind]
  split
  · exact sat_addSendTask
  · trivial

theorem sat_createMsgByRawMsg (m : RawMessage) :
    (g_db.createMsgByRawMsg m).Sat (Op.ofHandler .SendMessageRequest) fun _ => True := by
  simp only [g_db.createMsgByRawMsg, g_db.createMsg, bind_eq, op_bind, sat_op, sat_orTerminate]
  refine ⟨.inl rfl, fun _ _ _ => ⟨.inr rfl, fun _ => ⟨.inr rfl, fun n => ?_⟩⟩⟩
  simp only [Prog.bind_assoc, sat_orTerminate]
  intro n _
  split
  · exact ⟨.inr rfl, fun _ => trivial⟩
  · trivial

theorem sat_createFile : g_db.createFile.Sat (Op.ofHandler .SendMessageRequest) fun _ => True := by
  refine ⟨.inl rfl, fun uuid => ⟨.inr rfl, fun n => ?_⟩⟩
  simp only
  split <;> trivial

theorem isHandler_onSendMessageRequest (pkt : Packet) :
    IsHandler .SendMessageRequest (onSendMessageRequest pkt) := by
  refine ⟨.inl rfl, fun uid => ?_⟩
  simp only [ret_bind, bind_eq]
  split
  · exact callbackOf_none
  simp only [op_bind, sat_op, sat_orTerminate]
  refine ⟨.inr rfl, fun _ u _ => ?_⟩
  cases u with
  | none => exact callbackOf_none
  | some u =>
    refine (sat_createMsgByRawMsg _).bind fun m _ => ?_
    cases m with
    | none => exact callbackOf_none
    | some m =>
      simp only
      split
      · refine sat_createFile.bind fun f _ => ?_
        cases f with
        | none => exact callbackOf_none
        | some f => exact callbackOf_some (.inr (.inl rfl)) ⟨.inr rfl, fun _ => trivial⟩
      · exact callbackOf_some (.inr (.inl rfl)) sat_notifyReceiver

theorem sat_forwardFileMsg {id : Bytes} :
    (forwardFileMsg id).Sat (Op.ofCallback .FileUploadRequest) fun _ => True := by
  refine ⟨.inr rfl, fun m => ?_⟩
  simp only [ret_bind, bind_eq]
  split
  · trivial
  · exact ⟨.inr rfl, fun _ => sat_addSendTask⟩

theorem isHandler_onFileUploadRequest (pkt : Packet) :
    IsHandler .FileUploadRequest (onFileUploadRequest pkt) := by
  refine ⟨.inl rfl, fun uid => ?_⟩
  simp only [ret_bind, bind_eq]
  split
  · exact callbackOf_none
  simp only [op_bind, sat_op, sat_orTerminate]
  refine ⟨.inl rfl, fun _ f _ => ?_⟩
  cases f with
  | none => exact callbackOf_none
  | some f =>
    refine ⟨.inl rfl, fun b => ?_⟩
    have hupd : ∀ success : Bool, IsHandler .FileUploadRequest
        ((g_db.updateFile { f with
            hash := (pkt.request FileUploadRequest).hash
            name := (pkt.request FileUploadRequest).file.name }).bind fun ok =>
          if ok = true then .ret (uploadResponse success,
            if success = true then some (forwardFileMsg (pkt.request FileUploadRequest).id) else none)
          else .ret (uploadResponse false, none)) := by
      intro success
      refine ⟨.inr rfl, fun n => ?_⟩
      simp only [ret_bind]
      split
      · refine ⟨rfl, fun cb hcb => ?_⟩
        simp only at hcb
        split at hcb
        · cases hcb; exact ⟨.inr (.inr rfl), sat_forwardFileMsg⟩
        · cases hcb
      · exact callbackOf_none
    simp only [ret_bind]
    split
    · exact hupd false
    · exact ⟨.inr rfl, fun _ => hupd _⟩

theorem isHandler_onFileDownloadRequest (pkt : Packet) :
    IsHandler .FileDownloadRequest (onFileDownloadRequest pkt) := by
  refine ⟨.inl rfl, fun uid => ?_⟩
  simp only [ret_bind, bind_eq]
  split
  · exact callbackOf_none
  simp only [op_bind, sat_op, sat_orTerminate]
  refine ⟨.inl rfl, fun _ f _ => ?_⟩
  cases f with
  | none => exact callbackOf_none
  | some f =>
    refine ⟨.inl rfl, fun b => ?_⟩
    simp only [ret_bind]
    split
    · refine ⟨.inr rfl, fun c => ?_⟩
      cases c <;> exact callbackOf_none
    · exact callbackOf_none

theorem isHandler_onContactMessageRequest (pkt : Packet) :
    IsHandler .ContactMessageRequest (onContactMessageRequest pkt) := by
  simp only [onContactMessageRequest, IsHandler, bind_eq, op_bind, ret_bind, sat_op, sat_orTerminate]
  refine ⟨.inl rfl, fun _ => ⟨.inr rfl, fun _ m _ => ?_⟩⟩
  cases m <;> exact callbackOf_none

/-- Every handler keeps to the operations of the packet's type. -/
theorem handler_isHandler {fd : Int32} {pkt : Packet} {h : Code Reply} (hh : handler SHA256 fd pkt = some h) :
    ∃ t, pkt.packetid = PacketType.val t ∧ IsHandler t h := by
  unfold handler at hh
  split at hh <;> simp only [Option.some.injEq, reduceCtorEq] at hh
  all_goals
    rename_i heq
    subst hh
    refine ⟨_, PacketType.cast_eq_some.mp heq, ?_⟩
  · exact callbackOf_none
  · exact callbackOf_none
  · exact isHandler_onRegisterRequest pkt
  · exact isHandler_onLoginPreRequest pkt
  · exact isHandler_onLoginRequest pkt
  · exact isHandler_onSetupChannelRequest fd pkt
  · exact isHandler_onSendMessageRequest pkt
  · exact isHandler_onFileUploadRequest pkt
  · exact isHandler_onFileDownloadRequest pkt
  · exact isHandler_onContactMessageRequest pkt

end NetChat
