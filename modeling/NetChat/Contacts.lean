/-
The contact list a user is sent when its channel is set up. The handler reads the
users at one moment and counts the messages to each at a later one, while
others register and send. The list is still a snapshot: it has the users of
the first moment, the user itself among them, and no number in it is below
that of this moment or above that of the moment the list is queued.
-/
import NetChat.Integrity

namespace NetChat

open Interleave Prog Server DataAccess

variable {SHA256 : Bytes → Bytes} {c c' : Config} {e : Event} {uid : Int32} {list : ContactListRequest}

/-- The entry of a user. -/
def contactOf (u : User) : Contact := ⟨u.id, u.username, true, Contact.FRIEND⟩

/-- What the loop reads and what it makes of it. -/
theorem contactList_runs {users : List User} {l : List Entry} (h : (contactList uid users).Runs l list) :
    list.contacts = users.map contactOf ∧ ∃ reads : List (List Message), reads.length = users.length ∧
      list.internalids = reads.map (fun msgs => Int32.ofNat msgs.length) ∧
      l = (users.zip reads).map fun y => ⟨.getAllMessages uid y.1.id, .ok y.2⟩ := by
  induction users generalizing l list with
  | nil =>
    obtain ⟨rfl, rfl⟩ := runs_ret.mp h
    exact ⟨rfl, [], rfl, rfl, rfl⟩
  | cons u users ih =>
    simp only [contactList, bind_eq, pure_eq, op_bind, runs_op, runs_orTerminate] at h
    obtain ⟨_, l, rfl, msgs, rfl, h⟩ := h
    obtain ⟨rest, l₁, l₂, rfl, hrest, h⟩ := runs_bind.mp h
    obtain ⟨rfl, rfl⟩ := runs_ret.mp h
    obtain ⟨hcontacts, reads, hlen, hids, rfl⟩ := ih hrest
    exact ⟨by simp [hcontacts, contactOf], msgs :: reads, by simp [hlen], by simp [hids], by simp⟩

/-- `list`, queued for `uid` by the turn of `t` in `c`, is what the users and messages were
from `c₁` on, a moment of this turn after it gave the sender of `uid` its descriptor. -/
structure SnapshotFrom (c₁ c : Config) (t : Tid) (uid : Int32) (list : ContactListRequest) : Prop where
  turn : ∃ mid, c.history = mid ++ c₁.history ∧ Machine.SameTurn t mid
  log : (c₁.threads t).log <+: (c.threads t).log
  installed : ∃ x ∈ (c₁.threads t).log, ∃ fd, x.op = .setFd uid fd
  contacts : list.contacts = c₁.state.db.getAllUsers.map contactOf
  ids : list.contacts.map Contact.id = (List.range' 1 c₁.state.db.users.length).map getInt
  self : uid = 0 ∨ ∃ contact ∈ list.contacts, contact.id = uid
  numbers : ∃ ns : List Nat, list.internalids = ns.map Int32.ofNat ∧ ns.length = list.contacts.length ∧
    ∀ u n, (u, n) ∈ c₁.state.db.getAllUsers.zip ns →
      (c₁.state.db.getAllMessages uid u.id).length ≤ n ∧ n ≤ (c.state.db.getAllMessages uid u.id).length

theorem getAllMessages_grow {db db' : DataAccess} {s r : Int32} (h : db.messages <+: db'.messages) :
    (db.getAllMessages s r).length ≤ (db'.getAllMessages s r).length := by
  simp only [DataAccess.getAllMessages, List.length_map]
  exact (h.sublist.filter _).length_le

/-- **A contact list is a snapshot**, whoever registers and sends meanwhile. -/
theorem contact_list_snapshot (h : Running SHA256 c) (hs : (server SHA256).Step c e c')
    (ho : e.act.op = .addSendTask uid (contactPacket list)) :
    ∃ c₁, Running SHA256 c₁ ∧ (server SHA256).Steps (fun _ _ => True) c₁ c ∧ SnapshotFrom c₁ c e.tid uid list := by
  obtain ⟨s, hstart, hr⟩ := h
  have hi := hs.issues hr
  rw [ho] at hi
  obtain ⟨-, hpush⟩ := issues_push hi
  have hlog := hs.log
  generalize hpre : e.pre = l at hpush hlog
  generalize hp : contactPacket list = p at hpush
  cases hpush with
  | notice | forward => simp [messageList, contactPacket] at hp
  | @contacts fd conn n pkt out uid found users l list' ht hrun =>
    simp only [contactPacket, packToPacket_inj, true_and, Body.ContactListRequest.injEq] at hp
    subst hp
    obtain ⟨hcontacts, reads, hlen, hids, rfl⟩ := contactList_runs hrun
    -- the moment the users were read, and what the turn did after it
    obtain ⟨c₁, c₂, mid, h₁, hs₁, hsteps, hh, hmid, hafter⟩ := hr.log_between (t := e.tid) (x := ⟨.getAllUsers, .ok users⟩)
      (p := received fd conn n pkt ++ ⟨.getUserIdByToken (pkt.request SetupChannelRequest).token, uid⟩ ::
        ⟨.Send fd (packToPacket .ServerAckResponse .ServerAckResponse), out⟩ :: installed uid fd found)
      (by rw [hlog]; simp; rfl)
    obtain ⟨hsame, husers⟩ := State.query_ok hs₁.state
    subst husers
    have hrunning : Running SHA256 c₁ := ⟨s, hstart, h₁⟩
    refine ⟨c₁, hrunning, .trans (.tail .refl hs₁ trivial) hsteps, ?_⟩
    constructor
    · refine ⟨_, hh.trans (List.append_cons ..), fun y hy _ => ?_⟩
      rcases List.mem_append.mp hy with hy | hy
      · exact hmid y hy ‹_›
      · simp [List.mem_singleton.mp hy, received]
    · rw [hs₁.log, hlog]
      exact List.prefix_append _ _
    · exact ⟨⟨.setFd uid fd, found⟩, by rw [hs₁.log]; simp [installed], fd, rfl⟩
    · exact hcontacts
    · rw [hcontacts, ← (tables_intact hrunning).user_ids]
      simp [DataAccess.getAllUsers, contactOf, UserRow.toUser, User.new]
    · obtain ⟨file, disk, rfl⟩ := hstart.boot
      have hlook := h₁.log_history (t := e.tid) (p := received fd conn n pkt)
        (x := ⟨.getUserIdByToken (pkt.request SetupChannelRequest).token, uid⟩) (by rw [hs₁.log])
      rcases resolved_intact h₁ hlook rfl with hzero | ⟨u, hu, hid⟩
      · exact .inl hzero
      · exact .inr ⟨contactOf u, by rw [hcontacts]; exact List.mem_map_of_mem hu, hid⟩
    · refine ⟨reads.map List.length, by simp [hids], by simp [hcontacts, hlen], fun u n hn => ?_⟩
      rw [List.zip_map_right, List.mem_map] at hn
      obtain ⟨⟨u', msgs⟩, hmem, heq⟩ := hn
      obtain ⟨rfl, rfl⟩ := Prod.mk.inj heq
      -- the count of this contact came after the users were read, and before the push
      obtain ⟨c₃, c₄, p', h₃, hs₃, h₄⟩ := hafter ⟨.getAllMessages uid u'.id, .ok msgs⟩
        (List.mem_append_left _ (List.mem_map.mpr ⟨_, hmem, rfl⟩))
      have hread := (State.query_ok hs₃.state).2
      rw [hread]
      exact ⟨getAllMessages_grow (steps_messages_grow (Machine.Steps.trans (.tail .refl hs₁ trivial) h₃)),
        getAllMessages_grow (steps_messages_grow (Machine.Steps.trans (.tail .refl hs₃ trivial) h₄))⟩

namespace Example

/-- A user registers on connection 6 while Bob sets up his channel. -/
def registersWhileListed : Schedule :=
  connects 6 ++ arrives 6 ++ (received 6 1 64 (packToPacket .RegisterRequest
    (.RegisterRequest ⟨bytes "alice", password⟩))).map (fun x => (.worker 1, x)) ++
      [(.worker 1, ⟨.insertUser (bytes "alice") digest, .ok 1⟩)]

/-- Bob's list is about to be queued: he is in it, and alice, who came after the users
were read, is not. -/
def aboutToList : Schedule :=
  session ++ arrives 5 ++
    (received 5 0 64 (packToPacket .SetupChannelRequest (.SetupChannelRequest ⟨token⟩)) ++
      [⟨.getUserIdByToken token, 1⟩, replies 5 0 .ServerAckResponse .ServerAckResponse, ⟨.setFd 1 5, false⟩,
        ⟨.getAllUsers, .ok [bob]⟩]).map (fun x => (.worker 0, x)) ++
    registersWhileListed ++
    [(.worker 0, ⟨.getAllMessages 1 1, .ok []⟩), (.worker 0, ⟨.getSender 1, true⟩)]

end Example

theorem contact_list_snapshot_bob : ∃ c c₁, c.state.db.users.length = 2 ∧
    (server Example.SHA256).Steps (fun _ _ => True) c₁ c ∧ SnapshotFrom c₁ c (.worker 0) 1 Example.contacts := by
  obtain ⟨c, hr, hlen, hexec⟩ := reachable_of_run Example.SHA256 Example.aboutToList
    (fun c => c.state.db.users.length = 2 ∧ ((server Example.SHA256).exec c (.worker 0)
      ⟨.addSendTask 1 (contactPacket Example.contacts), ()⟩).isSome) (by decide +kernel)
  obtain ⟨c', hexec⟩ := Option.isSome_iff_exists.mp hexec
  obtain ⟨c₁, -, hsteps, hsnap⟩ := contact_list_snapshot (.of_reachable hr) (Machine.exec_step hexec) rfl
  exact ⟨c, c₁, hlen, hsteps, hsnap⟩

end NetChat
