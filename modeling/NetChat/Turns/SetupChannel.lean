/-
The turn of a `SetupChannelRequest`, which gives the sender its descriptor and
queues the contact list.
-/
import NetChat.Turns.Requests

namespace NetChat

open Interleave Prog Server

variable {SHA256 : Bytes → Bytes} {l : List Entry} {o : Op}

theorem onSetupChannelRequest_runs {fd : Int32} {pkt : Packet} {reply : Reply}
    (h : (onSetupChannelRequest fd pkt).Runs l reply) :
    ∃ uid, l = [⟨.getUserIdByToken (pkt.request SetupChannelRequest).token, uid⟩] ∧
      reply = (packToPacket .ServerAckResponse .ServerAckResponse, some (setupChannel uid fd)) := by
  simp only [onSetupChannelRequest, bind_eq, pure_eq, op_bind, ret_bind, runs_op] at h
  obtain ⟨uid, l, rfl, h⟩ := h
  obtain ⟨rfl, rfl⟩ := runs_ret.mp h
  exact ⟨uid, rfl, rfl⟩

/-- The log of the callback once the sender has its descriptor. -/
def installed (uid fd : Int32) (found : Bool) : List Entry :=
  ⟨.setFd uid fd, found⟩ :: if found = true then [⟨.Clear uid, ()⟩] else []

/-- The packet that carries a contact list. -/
def contactPacket (list : ContactListRequest) : Packet := packToPacket .ContactListRequest (.ContactListRequest list)

/-- **What the callback of a `SetupChannelRequest` issues**, and after which log. -/
inductive SetupStep (uid fd : Int32) : List Entry → Op → Prop
  | setFd : SetupStep uid fd [] (.setFd uid fd)
  | clear : SetupStep uid fd [⟨.setFd uid fd, true⟩] (.Clear uid)
  | users {found : Bool} : SetupStep uid fd (installed uid fd found) .getAllUsers
  | contacts {found : Bool} {users : List User} {l : List Entry} {r : Int32} :
      (contactList uid users).Issues l (.getAllMessages uid r) →
      SetupStep uid fd (installed uid fd found ++ ⟨.getAllUsers, .ok users⟩ :: l) (.getAllMessages uid r)
  | online {found : Bool} {users : List User} {l : List Entry} {list : ContactListRequest} :
      (contactList uid users).Runs l list →
      SetupStep uid fd (installed uid fd found ++ ⟨.getAllUsers, .ok users⟩ :: l) (.getSender uid)
  | push {found : Bool} {users : List User} {l : List Entry} {list : ContactListRequest} :
      (contactList uid users).Runs l list →
      SetupStep uid fd (installed uid fd found ++ ⟨.getAllUsers, .ok users⟩ :: (l ++ [⟨.getSender uid, true⟩]))
        (.addSendTask uid (contactPacket list))
  | leave {found : Bool} {users : List User} {l l' : List Entry} {list : ContactListRequest} :
      (contactList uid users).Runs l list →
      (l' = [⟨.getSender uid, false⟩] ∨
        l' = [⟨.getSender uid, true⟩, ⟨.addSendTask uid (contactPacket list), ()⟩]) →
      SetupStep uid fd (installed uid fd found ++ ⟨.getAllUsers, .ok users⟩ :: (l ++ l')) (.epollDel fd)

theorem sat_contactList_getAllMessages {uid : Int32} (users : List User) :
    (contactList uid users).Sat (fun o => ∃ r, o = .getAllMessages uid r) fun _ => True := by
  induction users with
  | nil => trivial
  | cons u users ih =>
    simp only [contactList, bind_eq, op_bind, sat_op, sat_orTerminate]
    exact ⟨⟨u.id, rfl⟩, fun _ _ _ => ih.bind fun _ _ => trivial⟩

theorem addSendTask_bind_issues {uid : Int32} {p : Packet} {rest : Code Unit}
    (h : ((addSendTask uid p).bind fun _ => rest).Issues l o) :
    (l = [] ∧ o = .getSender uid) ∨ (l = [⟨.getSender uid, true⟩] ∧ o = .addSendTask uid p) ∨
      ∃ l₁ l₂, l = l₁ ++ l₂ ∧ rest.Issues l₂ o ∧
        (l₁ = [⟨.getSender uid, false⟩] ∨ l₁ = [⟨.getSender uid, true⟩, ⟨.addSendTask uid p, ()⟩]) := by
  simp only [addSendTask, bind_eq, pure_eq, op_bind, ret_bind, issues_op] at h
  rcases h with ⟨rfl, rfl⟩ | ⟨found, l, rfl, h⟩
  · exact .inl ⟨rfl, rfl⟩
  cases found with
  | false => exact .inr (.inr ⟨[_], l, rfl, h, .inl rfl⟩)
  | true =>
    simp only [if_true, op_bind, ret_bind, issues_op] at h
    rcases h with ⟨rfl, rfl⟩ | ⟨⟨⟩, l, rfl, h⟩
    · exact .inr (.inl ⟨rfl, rfl⟩)
    · exact .inr (.inr ⟨[_, _], l, rfl, h, .inr rfl⟩)

theorem setupChannel_issues {uid fd : Int32} (h : (setupChannel uid fd).Issues l o) : SetupStep uid fd l o := by
  have hset : ∀ {rest : Code Unit} {l : List Entry}, ((UM.setKpAliveSender uid fd).bind fun _ => rest).Issues l o →
      (l = [] ∧ o = .setFd uid fd) ∨ (l = [⟨.setFd uid fd, true⟩] ∧ o = .Clear uid) ∨
        ∃ found l', l = installed uid fd found ++ l' ∧ rest.Issues l' o := by
    intro rest l h
    simp only [UM.setKpAliveSender, op_bind, issues_op] at h
    rcases h with ⟨rfl, rfl⟩ | ⟨found, l, rfl, h⟩
    · exact .inl ⟨rfl, rfl⟩
    cases found with
    | false => exact .inr (.inr ⟨false, l, rfl, h⟩)
    | true =>
      simp only [if_true, op_bind, ret_bind, issues_op] at h
      rcases h with ⟨rfl, rfl⟩ | ⟨⟨⟩, l, rfl, h⟩
      · exact .inr (.inl ⟨rfl, rfl⟩)
      · exact .inr (.inr ⟨true, l, rfl, h⟩)
  simp only [setupChannel, bind_eq] at h
  rcases hset h with ⟨rfl, rfl⟩ | ⟨rfl, rfl⟩ | ⟨found, l, rfl, hrest⟩
  · exact .setFd
  · exact .clear
  simp only [op_bind, issues_op, issues_orTerminate] at hrest
  rcases hrest with ⟨rfl, rfl⟩ | ⟨r, l, rfl, users, rfl, hlist⟩
  · rw [List.append_nil]
    exact .users
  rcases issues_bind.mp hlist with hlist | ⟨list, l₁, l₂, rfl, hrun, hpush⟩
  · obtain ⟨r, rfl⟩ := (sat_contactList_getAllMessages users).issues hlist
    exact .contacts hlist
  rcases addSendTask_bind_issues hpush with ⟨rfl, rfl⟩ | ⟨rfl, rfl⟩ | ⟨l₃, l₄, rfl, hdel, hl₃⟩
  · rw [List.append_nil]
    exact .online hrun
  · exact .push hrun
  · simp only [Van.controlEpollDel, issues_op] at hdel
    rcases hdel with ⟨rfl, rfl⟩ | ⟨b, l, rfl, hdel⟩
    · rw [List.append_nil]
      exact .leave hrun hl₃
    · split at hdel <;> simp at hdel

end NetChat
